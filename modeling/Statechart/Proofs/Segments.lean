import Statechart.Path
import Mathlib.Data.List.Basic

/-!
# Segments and their text

Joining segments and cutting the text again gives the segments, although the separator has two
characters that names may begin and end with: a cut is made at the leftmost separator, and one that
a segment does not hold itself begins just behind that segment.
-/
namespace Statechart

/-- A text has a separator if the separator stands somewhere in it. -/
theorem hasSeparator_iff {cs : List Char} :
    hasSeparator cs = true ↔ separator.toList <:+: cs := by
  fun_induction hasSeparator cs with
  | case1 => simp [separator]
  | case2 rest => exact iff_of_true rfl ⟨[], rest, rfl⟩
  | case3 c rest other ih =>
    rw [ih, List.infix_cons_iff]
    refine ⟨.inr, fun h => h.resolve_left ?_⟩
    rintro ⟨tail, eq⟩
    obtain ⟨rfl, rfl⟩ := List.cons.inj eq
    exact other tail rfl rfl

/-- A text without a separator is one piece. -/
theorem pieces_eq_single {cs : List Char} (whole : hasSeparator cs = false) : pieces cs = [cs] := by
  fun_induction hasSeparator cs with
  | case1 => rfl
  | case2 rest => contradiction
  | case3 c rest other ih => rw [pieces, ih whole]; exact other

/-- The leftmost cut is made just behind a text without a separator. -/
theorem pieces_append_separator {cs : List Char} (whole : hasSeparator cs = false)
    (rest : List Char) : pieces (cs ++ separator.toList ++ rest) = cs :: pieces rest := by
  fun_induction hasSeparator cs with
  | case1 => rfl
  | case2 rest => contradiction
  | case3 c cs other ih =>
    rw [List.cons_append, List.cons_append, pieces, ih whole]
    -- a separator that starts at the last character of the text would have to go on with a dash
    rintro tail rfl split
    cases cs with
    | nil => simp [separator] at split
    | cons d cs =>
      obtain ⟨rfl, -⟩ := List.cons.inj split
      exact other cs rfl rfl

/-- Cutting joined texts without separators gives the texts. -/
theorem pieces_intercalate {texts : List (List Char)} (some_text : texts ≠ [])
    (whole : ∀ text ∈ texts, hasSeparator text = false) :
    pieces (separator.toList.intercalate texts) = texts := by
  induction texts with
  | nil => contradiction
  | cons text rest ih =>
    obtain ⟨here, there⟩ := List.forall_mem_cons.1 whole
    cases rest with
    | nil => rw [List.intercalate_singleton, pieces_eq_single here]
    | cons next rest =>
      rw [List.intercalate_cons_cons, pieces_append_separator here, ih (by simp) there]

theorem isSegment_iff {name : String} :
    isSegment name = true ↔ name ≠ "" ∧ hasSeparator name.toList = false := by
  simp [isSegment]

namespace StatePath

/-- Segments can be read from their text. -/
theorem parse_joined {root : String} {inner : List String}
    (segments : ∀ name ∈ root :: inner, isSegment name = true) :
    parse (joined (root :: inner)) = .ok ⟨root, inner⟩ := by
  have filled : ∀ name ∈ root :: inner, name.isEmpty = false := by
    intro name mem
    simpa using (isSegment_iff.1 (segments name mem)).1
  have whole : ∀ text ∈ (root :: inner).map String.toList, hasSeparator text = false := by
    intro text mem
    obtain ⟨name, inside, rfl⟩ := List.mem_map.1 mem
    exact (isSegment_iff.1 (segments name inside)).2
  have cut : (pieces (joined (root :: inner)).toList).map String.ofList = root :: inner := by
    rw [joined, String.toList_intercalate, pieces_intercalate (by simp) whole, List.map_map]
    exact (List.map_congr_left fun _ _ => String.ofList_toList).trans (List.map_id _)
  have some_text : (joined (root :: inner)).isEmpty = false := by
    rw [Bool.eq_false_iff]
    intro empty
    rw [String.isEmpty_iff.1 empty] at cut
    obtain rfl := (List.cons.inj cut).1
    exact absurd (filled _ List.mem_cons_self) (by decide)
  rw [parse, some_text, cut]
  have none_empty : firstEmpty? (root :: inner) = none := List.findIdx?_eq_none_iff.2 filled
  simp only [Bool.false_eq_true, if_false, none_empty]

end StatePath

end Statechart
