import Statechart.Proofs.Segments

/-!
# Texts and their pieces

However pieces begin and end, a text is joined from one list of pieces without separators only: the
one that it is cut into.  Main statement: reading a path and writing it are inverse to each other.  A
text is a path if none of its pieces is empty, and its segments are its pieces then; otherwise the
first empty piece is the one that is reported.
-/
namespace Statechart

/-- The text begins with its first piece. -/
theorem prefix_of_pieces {cs piece : List Char} {more : List (List Char)}
    (cut : pieces cs = piece :: more) : piece <+: cs := by
  fun_induction pieces cs generalizing piece more with
  | case1 | case2 =>
    obtain ⟨rfl, -⟩ := List.cons.inj cut
    exact List.nil_prefix
  | case3 c rest other none ih => exact absurd none (pieces_ne_nil rest)
  | case4 c rest other first later cut' ih =>
    obtain ⟨rfl, -⟩ := List.cons.inj cut
    exact List.cons_prefix_cons.2 ⟨rfl, ih cut'⟩

/-- No separator is left in a piece. -/
theorem hasSeparator_pieces (cs : List Char) : ∀ piece ∈ pieces cs, hasSeparator piece = false := by
  fun_induction pieces cs with
  | case1 => simp [hasSeparator]
  | case2 rest ih => exact List.forall_mem_cons.2 ⟨rfl, ih⟩
  | case3 c rest other none ih => exact absurd none (pieces_ne_nil rest)
  | case4 c rest other first later cut ih =>
    rw [cut, List.forall_mem_cons] at ih
    refine List.forall_mem_cons.2 ⟨?_, ih.2⟩
    rw [hasSeparator]
    · exact ih.1
    · -- a separator at the very start would have been cut
      rintro tail rfl rfl
      obtain ⟨more, rfl⟩ := prefix_of_pieces cut
      exact other (tail ++ more) rfl rfl

/-- The pieces are joined to the text again. -/
theorem intercalate_pieces (cs : List Char) : separator.toList.intercalate (pieces cs) = cs := by
  fun_induction pieces cs with
  | case1 => rfl
  | case2 rest ih =>
    obtain ⟨first, later, cut⟩ := List.exists_cons_of_ne_nil (pieces_ne_nil rest)
    rw [cut] at ih ⊢
    rw [List.intercalate_cons_cons, ih]
    rfl
  | case3 c rest other none ih => exact absurd none (pieces_ne_nil rest)
  | case4 c rest other first later cut ih =>
    rw [cut] at ih
    cases later with
    | nil => rw [List.intercalate_singleton] at ih ⊢; rw [ih]
    | cons next later =>
      rw [List.intercalate_cons_cons] at ih ⊢
      rw [← ih]
      rfl

/-! ## Joining -/

/-- Texts without separators, of which there is one at least, are joined to a text. -/
structure Joins (texts : List String) (text : String) : Prop where
  some_text : texts ≠ []
  whole : ∀ piece ∈ texts, ¬ separator.toList <:+: piece.toList
  joined_eq : StatePath.joined texts = text

namespace Joins

variable {texts others : List String} {text : String}

/-- What a text is joined from is what it is cut into. -/
theorem pieces_eq (h : Joins texts text) : pieces text.toList = texts.map String.toList := by
  rw [← h.joined_eq, StatePath.joined, String.toList_intercalate, pieces_intercalate]
  · simpa using h.some_text
  · intro cs mem
    obtain ⟨piece, inside, rfl⟩ := List.mem_map.1 mem
    rw [Bool.eq_false_iff, Ne, hasSeparator_iff]
    exact h.whole piece inside

/-- A text is joined from one list only. -/
theorem unique (h : Joins texts text) (h' : Joins others text) : texts = others := by
  have same : texts.map String.toList = others.map String.toList := h.pieces_eq.symm.trans h'.pieces_eq
  exact List.map_injective_iff.2 (fun _ _ => String.toList_inj.1) same

end Joins

/-- Every text is joined from its pieces. -/
theorem joins_pieces (text : String) : Joins ((pieces text.toList).map String.ofList) text where
  some_text := by simpa using pieces_ne_nil text.toList
  whole piece mem := by
    obtain ⟨cs, inside, rfl⟩ := List.mem_map.1 mem
    rw [String.toList_ofList, ← hasSeparator_iff, hasSeparator_pieces _ cs inside]
    exact Bool.false_ne_true
  joined_eq := by
    have cut : ((pieces text.toList).map String.ofList).map String.toList = pieces text.toList := by
      rw [List.map_map]
      exact (List.map_congr_left fun _ _ => String.toList_ofList).trans (List.map_id _)
    rw [← String.toList_inj, StatePath.joined, String.toList_intercalate, cut, intercalate_pieces]

/-! ## Reading -/

namespace StatePath

variable {text : String} {texts : List String} {path : StatePath}

/-- A text that is not empty is refused at its first empty piece, and otherwise read as its pieces. -/
theorem parse_of_joins (h : Joins texts text) (filled : text ≠ "") :
    match firstEmpty? texts with
    | some position => parse text = .error (.emptySegment position)
    | none => ∃ path, parse text = .ok path ∧ path.segments = texts := by
  obtain rfl := h.unique (joins_pieces text)
  obtain ⟨root, inner, cut⟩ := List.exists_cons_of_ne_nil h.some_text
  have some_text : text.isEmpty = false := by simpa using filled
  rw [parse, some_text, cut]
  rcases first : firstEmpty? (root :: inner) with _ | position
  · exact ⟨⟨root, inner⟩, by simp [first], rfl⟩
  · simp [first]

/-- What is read as a path is what is written of one whose segments are names. -/
theorem parse_eq_ok_iff : parse text = .ok path ↔
    path.text = text ∧ ∀ name ∈ path.segments, name ≠ "" ∧ ¬ separator.toList <:+: name.toList := by
  constructor
  · intro parsed
    have filled : text ≠ "" := by
      rintro rfl
      nomatch parsed
    have joins := joins_pieces text
    have read := parse_of_joins joins filled
    split at read
    · rw [read] at parsed
      nomatch parsed
    · next unfilled =>
      obtain ⟨other, parsed', segments_eq⟩ := read
      obtain rfl := Except.ok.inj (parsed'.symm.trans parsed)
      rw [← segments_eq] at joins unfilled
      refine ⟨joins.joined_eq, fun name mem => ⟨?_, joins.whole name mem⟩⟩
      simpa using List.findIdx?_eq_none_iff.1 unfilled name mem
  · rintro ⟨rfl, names⟩
    refine parse_joined fun name mem => isSegment_iff.2 ⟨(names name mem).1, ?_⟩
    rw [Bool.eq_false_iff, Ne, hasSeparator_iff]
    exact (names name mem).2

/-- What is joined from names is read as these names. -/
theorem parse_of_names (h : Joins texts text) (names : ∀ name ∈ texts, name ≠ "") :
    ∃ path, parse text = .ok path ∧ path.segments = texts := by
  obtain ⟨root, inner, rfl⟩ := List.exists_cons_of_ne_nil h.some_text
  exact ⟨⟨root, inner⟩,
    parse_eq_ok_iff.2 ⟨h.joined_eq, fun name mem => ⟨names name mem, h.whole name mem⟩⟩, rfl⟩

/-- A text is read as a path just if it is joined from names, which are not empty and hold no
separator.  There is one list of such names then: it is the path's segments, and writing the path
gives the text again.  Any list of names can be joined and read again, whatever they begin and end
with.  A text that is not empty and is no path is joined from one list of pieces without separators,
and refused at the first of these that is empty. -/
theorem parse_inverts_joined :
    (∀ text path, parse text = .ok path ↔ path.text = text ∧
      ∀ name ∈ path.segments, name ≠ "" ∧ ¬ separator.toList <:+: name.toList) ∧
    (∀ text, (∃ path, parse text = .ok path) ↔
      ∃! names, Joins names text ∧ ∀ name ∈ names, name ≠ "") ∧
    (∀ names text, Joins names text → (∀ name ∈ names, name ≠ "") →
      ∃ path, parse text = .ok path ∧ path.segments = names ∧ path.text = text) ∧
    ∀ text fault, text ≠ "" → parse text = .error fault →
      ∃ pieces position, (∀ texts, Joins texts text ↔ texts = pieces) ∧
        fault = .emptySegment position ∧ pieces[position]? = some "" ∧
        ∀ earlier < position, pieces[earlier]? ≠ some "" := by
  refine ⟨fun text path => parse_eq_ok_iff, fun text => ⟨?_, ?_⟩, fun names text h filled => ?_,
    fun text fault filled refused => ?_⟩
  · rintro ⟨path, parsed⟩
    obtain ⟨written, names⟩ := parse_eq_ok_iff.1 parsed
    have joins : Joins path.segments text :=
      ⟨List.cons_ne_nil _ _, fun name mem => (names name mem).2, written⟩
    exact ⟨path.segments, ⟨joins, fun name mem => (names name mem).1⟩,
      fun others h => h.1.unique joins⟩
  · rintro ⟨names, ⟨h, filled⟩, -⟩
    obtain ⟨path, parsed, -⟩ := parse_of_names h filled
    exact ⟨path, parsed⟩
  · obtain ⟨path, parsed, segments_eq⟩ := parse_of_names h filled
    exact ⟨path, parsed, segments_eq, (parse_eq_ok_iff.1 parsed).1⟩
  · have joins := joins_pieces text
    have read := parse_of_joins joins filled
    split at read
    · next position first =>
      obtain ⟨bound, empty, before⟩ := List.findIdx?_eq_some_iff_getElem.1 first
      refine ⟨_, position, fun texts => ⟨fun h => h.unique joins, fun eq => eq ▸ joins⟩, ?_, ?_, ?_⟩
      · exact Except.error.inj (refused.symm.trans read)
      · rw [List.getElem?_eq_getElem bound, String.isEmpty_iff.1 empty]
      · intro earlier lt here
        obtain ⟨bound', eq⟩ := List.getElem?_eq_some_iff.1 here
        exact before earlier lt (by rw [eq]; rfl)
    · obtain ⟨path, parsed, -⟩ := read
      rw [parsed] at refused
      nomatch refused

example : parse "a-->>b" = .ok ⟨"a-", [">b"]⟩ := by decide +kernel

example : parse "a->->b->" = .error (.emptySegment 1) := by decide +kernel

end StatePath

end Statechart
