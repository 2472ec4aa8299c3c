import Statechart.Table
import Statechart.Proofs.Pieces
import Mathlib.Data.List.Sort

/-!
# Everything that is wrong with a table

Agreement of tags is symmetric and transitive, so the rows that share their tag with another row
fall into classes.  A class is led by its first row, whose tag agrees with one further on and with
none before it.  Main statement: the check of a table lists a wrong number of initial rows, then
every row whose name is not one segment of a path, then every class of rows that share a tag, once
and under its first row; and it lists nothing else.
-/
namespace Statechart

variable {α : Type}

/-! ## Classes of tags -/

namespace Tag

/-- The tags at two positions agree. -/
def shared (tags : List Tag) (i j : Nat) : Bool := (tags[i]?).any fun x => (tags[j]?).any x.agrees

/-- The positions of one tag in a list where it occurs several times: all of them, in order. -/
structure IsClass (tags : List Tag) (positions : List Nat) : Prop where
  several : 2 ≤ positions.length
  ordered : positions.Pairwise (· < ·)
  agree : ∀ i ∈ positions, ∀ j ∈ positions, shared tags i j = true
  whole : ∀ i ∈ positions, ∀ j, shared tags i j = true → j ∈ positions

/-- The tag at a position occurs again further on and has not occurred before. -/
structure Leads (tags : List Tag) (i : Nat) : Prop where
  again : ∃ j > i, shared tags i j = true
  first : ∀ j < i, shared tags i j = false

/-- Positions behind `i` with the tag at `i`. -/
def partners (tags : List Tag) (i : Nat) : List Nat :=
  (List.range tags.length).filter fun j => decide (i < j) && shared tags i j

variable {tags : List Tag} {positions others : List Nat} {i j k : Nat}

theorem shared_iff : shared tags i j = true ↔
    ∃ x, tags[i]? = some x ∧ ∃ y, tags[j]? = some y ∧ x.agrees y = true := by
  simp only [shared, Option.any_eq_true]

theorem shared_comm : shared tags i j = shared tags j i := by
  rw [Bool.eq_iff_iff, shared_iff, shared_iff]
  constructor <;>
    exact fun ⟨x, at_i, y, at_j, agree⟩ => ⟨y, at_j, x, at_i, (agrees_comm y x).trans agree⟩

theorem shared_trans (h : shared tags i j = true) (h' : shared tags j k = true) :
    shared tags i k = true := by
  obtain ⟨x, at_i, y, at_j, agree⟩ := shared_iff.1 h
  obtain ⟨y', at_j', z, at_k, agree'⟩ := shared_iff.1 h'
  obtain rfl := Option.some.inj (at_j.symm.trans at_j')
  exact shared_iff.2 ⟨x, at_i, z, at_k, agrees_trans agree agree'⟩

/-- Tags that agree are of one family, and each of them agrees with itself. -/
theorem agrees_self (x y : Tag) (h : x.agrees y = true) :
    x.family = y.family ∧ x.agrees x = true := by
  refine ⟨?_, agrees_trans h ((agrees_comm y x).trans h)⟩
  rw [agrees, Bool.and_eq_true, beq_iff_eq] at h
  exact h.1

theorem mem_partners : j ∈ partners tags i ↔ i < j ∧ shared tags i j = true := by
  rw [partners, List.mem_filter, List.mem_range, Bool.and_eq_true, decide_eq_true_iff]
  refine ⟨And.right, fun h => ⟨?_, h⟩⟩
  obtain ⟨x, -, y, at_j, -⟩ := shared_iff.1 h.2
  exact (List.getElem?_eq_some_iff.1 at_j).1

/-- A position that leads is the first of a class. -/
theorem Leads.isClass (h : Leads tags i) : IsClass tags (i :: partners tags i) := by
  obtain ⟨j, later, agree⟩ := h.again
  have self : shared tags i i = true := shared_trans agree (shared_comm.trans agree)
  have mem_iff (k : Nat) : k ∈ i :: partners tags i ↔ shared tags i k = true := by
    rw [List.mem_cons, mem_partners]
    refine ⟨fun h => h.elim (· ▸ self) And.right, fun hit => ?_⟩
    rcases Nat.lt_trichotomy k i with before | rfl | behind
    · exact absurd hit (by simp [h.first k before])
    · exact .inl rfl
    · exact .inr ⟨behind, hit⟩
  refine ⟨?_, ?_, fun k mem l mem' => ?_, fun k mem l hit => ?_⟩
  · exact Nat.succ_le_succ (List.length_pos_of_mem (mem_partners.2 ⟨later, agree⟩))
  · exact List.pairwise_cons.2
      ⟨fun k mem => (mem_partners.1 mem).1, List.pairwise_lt_range.filter _⟩
  · exact shared_trans (shared_comm.trans ((mem_iff k).1 mem)) ((mem_iff l).1 mem')
  · exact (mem_iff l).2 (shared_trans ((mem_iff k).1 mem) hit)

/-- The first position of a class leads. -/
theorem IsClass.leads (h : IsClass tags (i :: others)) : Leads tags i := by
  have behind := (List.pairwise_cons.1 h.ordered).1
  obtain ⟨j, mem⟩ := List.exists_mem_of_length_pos (Nat.lt_of_succ_lt_succ h.several)
  refine ⟨⟨j, behind j mem, h.agree i List.mem_cons_self j (List.mem_cons_of_mem _ mem)⟩,
    fun k before => Bool.eq_false_iff.2 fun hit => ?_⟩
  rcases List.mem_cons.1 (h.whole i List.mem_cons_self k hit) with rfl | later
  · exact Nat.lt_irrefl _ before
  · exact Nat.lt_asymm before (behind k later)

/-- A class is known by its first position. -/
theorem IsClass.eq_partners (h : IsClass tags (i :: others)) : others = partners tags i := by
  have h' := h.leads.isClass
  refine (List.cons.inj (h.ordered.eq_of_mem_iff h'.ordered fun j => ?_)).2
  exact ⟨fun mem => h'.whole i List.mem_cons_self j (h.agree i List.mem_cons_self j mem),
    fun mem => h.whole i List.mem_cons_self j (h'.agree i List.mem_cons_self j mem)⟩

example : partners [⟨"x", .real (.ofMagnitude false 0)⟩, ⟨"x", .real .nan⟩,
    ⟨"y", .real (.ofMagnitude false 0)⟩, ⟨"x", .real (.ofMagnitude true 0)⟩, ⟨"x", .real .nan⟩]
    0 = [3] := by decide

/-- Where two tags agree, some position leads: the first whose tag agrees with them. -/
theorem exists_leads (h : shared tags i j = true) (apart : i ≠ j) : ∃ k, Leads tags k := by
  have self : shared tags i i = true := shared_trans h (shared_comm.trans h)
  have some_hit : ∃ k, shared tags i k = true := ⟨j, h⟩
  have hit := Nat.find_spec some_hit
  refine ⟨Nat.find some_hit, ?_, fun k before => Bool.eq_false_iff.2 fun agree => ?_⟩
  · have at_i : Nat.find some_hit ≤ i := Nat.find_min' some_hit self
    have at_j : Nat.find some_hit ≤ j := Nat.find_min' some_hit h
    rcases Nat.lt_or_gt_of_ne apart with less | greater
    · exact ⟨j, by omega, shared_trans (shared_comm.trans hit) h⟩
    · exact ⟨i, by omega, shared_comm.trans hit⟩
  · exact Nat.find_min some_hit before (shared_trans hit agree)

section

variable (seen : List Tag) (tag : Tag) (rest : List Tag)

theorem shared_middle (j : Nat) : shared (seen ++ tag :: rest) seen.length j =
    ((seen ++ tag :: rest)[j]?).any (·.agrees tag) := by
  have here : (seen ++ tag :: rest)[seen.length]? = some tag := by simp
  rw [shared, here, Option.any_some, funext (agrees_comm tag)]

theorem exists_shared_middle :
    (∃ j > seen.length, shared (seen ++ tag :: rest) seen.length j = true) ↔
      rest.any (·.agrees tag) = true := by
  rw [List.any_eq_true]
  constructor
  · rintro ⟨j, later, agree⟩
    rw [shared_middle, Option.any_eq_true] at agree
    obtain ⟨next, at_j, agree⟩ := agree
    obtain ⟨k, rfl⟩ : ∃ k, j = seen.length + (k + 1) := ⟨j - seen.length - 1, by omega⟩
    rw [List.getElem?_append_right (by omega), Nat.add_sub_cancel_left,
      List.getElem?_cons_succ] at at_j
    exact ⟨next, List.mem_of_getElem? at_j, agree⟩
  · rintro ⟨next, mem, agree⟩
    obtain ⟨k, at_k⟩ := List.mem_iff_getElem?.1 mem
    refine ⟨seen.length + (k + 1), by omega, ?_⟩
    rw [shared_middle, List.getElem?_append_right (by omega), Nat.add_sub_cancel_left,
      List.getElem?_cons_succ, at_k]
    exact agree

theorem forall_shared_middle :
    (∀ j < seen.length, shared (seen ++ tag :: rest) seen.length j = false) ↔
      seen.any (·.agrees tag) = false := by
  simp only [shared_middle, List.any_eq_false]
  constructor
  · intro none earlier mem
    obtain ⟨j, before, rfl⟩ := List.mem_iff_getElem.1 mem
    have apart := none j before
    rw [List.getElem?_append_left before, List.getElem?_eq_getElem before, Option.any_some] at apart
    simp [apart]
  · intro none j before
    rw [List.getElem?_append_left before, List.getElem?_eq_getElem before, Option.any_some]
    simpa using none _ (List.getElem_mem before)

/-- What the scan decides about the tag behind those it has seen. -/
theorem leads_iff_any : Leads (seen ++ tag :: rest) seen.length ↔
    (!seen.any (·.agrees tag) && rest.any (·.agrees tag)) = true := by
  rw [Bool.and_eq_true, Bool.not_eq_true', ← exists_shared_middle, ← forall_shared_middle]
  exact ⟨fun h => ⟨h.first, h.again⟩, fun h => ⟨h.2, h.1⟩⟩

end

end Tag

/-! ## Names -/

namespace Row

/-- The row's name is accepted as a path, of one segment. -/
def isNamed (row : Row α) : Bool :=
  match StatePath.parse row.name with
  | .ok path => path.segments.length == 1
  | .error _ => false

/-- What is reported of a row whose name is not accepted. -/
def misnaming (row : Row α) : Violation :=
  if row.name = "" then .emptyName row.tag.label else .separatorInName row.name

theorem isNamed_eq (row : Row α) : row.isNamed = isSegment row.name := by
  rw [Bool.eq_iff_iff, isSegment_iff]
  constructor
  · intro named
    rw [isNamed] at named
    split at named
    · next path parsed =>
      obtain ⟨written, names⟩ := StatePath.parse_eq_ok_iff.1 parsed
      obtain ⟨root, inner⟩ := path
      obtain rfl : inner = [] := by simpa [StatePath.segments] using named
      obtain rfl : root = row.name := by
        rwa [StatePath.text, StatePath.segments, StatePath.joined,
          String.intercalate_singleton] at written
      obtain ⟨filled, whole⟩ := names _ List.mem_cons_self
      exact ⟨filled, Bool.eq_false_iff.2 fun cut => whole (hasSeparator_iff.1 cut)⟩
    · contradiction
  · rintro ⟨filled, whole⟩
    have joins : Joins [row.name] row.name :=
      ⟨List.cons_ne_nil _ _, by simp [← hasSeparator_iff, whole], String.intercalate_singleton⟩
    obtain ⟨path, parsed, segments_eq⟩ := StatePath.parse_of_names joins (by simpa using filled)
    simp [isNamed, parsed, segments_eq]

theorem nameViolation?_eq (row : Row α) :
    Table.nameViolation? row = if row.isNamed then none else some row.misnaming := by
  rw [isNamed_eq, isSegment, Table.nameViolation?, misnaming]
  by_cases empty : row.name = ""
  · simp [empty]
  · cases hasSeparator row.name.toList <;> simp [empty]

end Row

/-! ## Tables -/

namespace Table

open Tag (Leads IsClass partners shared)

/-- The tags that the scan reports are those at the positions that lead, in order. -/
theorem repeatedAfter_eq (seen tags : List Tag) :
    ∃ firsts : List Nat, firsts.Pairwise (· < ·) ∧
      (∀ i, i ∈ firsts ↔ seen.length ≤ i ∧ Leads (seen ++ tags) i) ∧
      firsts.map ((seen ++ tags)[·]?) = (repeatedAfter seen tags).map some := by
  induction tags generalizing seen with
  | nil =>
    refine ⟨[], .nil, fun i => iff_of_false List.not_mem_nil fun ⟨beyond, lead⟩ => ?_, rfl⟩
    obtain ⟨j, -, agree⟩ := lead.again
    obtain ⟨x, at_i, -⟩ := Tag.shared_iff.1 agree
    rw [List.append_nil] at at_i
    exact absurd (List.getElem?_eq_some_iff.1 at_i).1 (Nat.not_lt.2 beyond)
  | cons tag rest ih =>
    obtain ⟨firsts, ordered, members, labels⟩ := ih (seen ++ [tag])
    simp only [List.append_assoc, List.cons_append, List.nil_append, List.length_append,
      List.length_singleton] at members labels
    by_cases lead : Leads (seen ++ tag :: rest) seen.length
    · refine ⟨seen.length :: firsts, ?_, fun i => ?_, ?_⟩
      · exact List.pairwise_cons.2 ⟨fun i mem => ((members i).1 mem).1, ordered⟩
      · rw [List.mem_cons, members, Nat.le_iff_lt_or_eq]
        grind
      · rw [repeatedAfter, if_pos ((Tag.leads_iff_any _ _ _).1 lead), List.map_cons, List.map_cons,
          labels]
        simp
    · refine ⟨firsts, ordered, fun i => ?_, ?_⟩
      · rw [members, Nat.le_iff_lt_or_eq]
        grind
      · rw [repeatedAfter, if_neg fun h => lead ((Tag.leads_iff_any _ _ _).2 h), labels]

/-- A class of rows that share a tag for each label that the check reports, in the same order. -/
theorem exists_classes (rows : Table α) : ∃ classes : List (Nat × List Nat),
    (∀ first others, (first, others) ∈ classes ↔ IsClass (rows.map (·.tag)) (first :: others)) ∧
    (classes.map Prod.fst).Pairwise (· < ·) ∧
    classes.map (fun c => (rows[c.1]?).map (·.tag.label)) = rows.duplicates.map some := by
  obtain ⟨firsts, ordered, members, tags_eq⟩ := repeatedAfter_eq [] (rows.map (·.tag))
  simp only [List.nil_append, List.length_nil, Nat.zero_le, true_and] at members tags_eq
  refine ⟨firsts.map fun i => (i, partners (rows.map (·.tag)) i), fun first others => ?_, ?_, ?_⟩
  · rw [List.mem_map]
    constructor
    · rintro ⟨i, mem, eq⟩
      obtain ⟨rfl, rfl⟩ := Prod.mk.inj eq
      exact ((members i).1 mem).isClass
    · exact fun h => ⟨first, (members first).2 h.leads, by rw [h.eq_partners]⟩
  · simpa [Function.comp_def] using ordered
  · rw [duplicates, repeated, List.map_map, List.map_map]
    have labels := congrArg (List.map (Option.map Tag.label)) tags_eq
    rw [List.map_map, List.map_map] at labels
    simpa [Function.comp_def] using labels

theorem filterMap_nameViolation? (rows : Table α) :
    rows.filterMap nameViolation? = (rows.filter (!·.isNamed)).map Row.misnaming := by
  induction rows with
  | nil => rfl
  | cons row rest ih =>
    rw [List.filterMap_cons, List.filter_cons, Row.nameViolation?_eq, ih]
    cases row.isNamed <;> rfl

/-- No tag is reported as shared if no two rows share one. -/
theorem duplicates_eq_nil_iff (rows : Table α) : rows.duplicates = [] ↔
    ∀ i j, shared (rows.map (·.tag)) i j = true → i = j := by
  obtain ⟨classes, mem_iff, -, labels⟩ := exists_classes rows
  have none_iff : rows.duplicates = [] ↔ classes = [] := by
    rw [← List.map_eq_nil_iff (f := some), ← labels, List.map_eq_nil_iff]
  rw [none_iff]
  constructor
  · rintro rfl i j hit
    by_contra apart
    obtain ⟨k, lead⟩ := Tag.exists_leads hit apart
    exact List.not_mem_nil ((mem_iff k _).2 lead.isClass)
  · intro distinct
    refine List.eq_nil_iff_forall_not_mem.2 fun ⟨first, others⟩ mem => ?_
    obtain ⟨j, later, agree⟩ := ((mem_iff first others).1 mem).leads.again
    exact absurd (distinct first j agree) (Nat.ne_of_lt later)

/-- The check finds nothing just if one row is initial, every name is accepted as a path of one
segment and, in a strict table, no two rows share a tag.  What it finds otherwise is, in this order:
the number of initial rows, unless it is one; each row whose name is not accepted, in the order of
the rows; and, in a strict table, each class of two rows or more that share a tag, under the label
of its first row and in the order of these.  All rows of a class have tags of one family, and these
agree with themselves. -/
theorem violations_exact (strict : Bool) (rows : Table α) :
    (rows.violations strict = [] ↔ rows.countP (·.initial) = 1 ∧
      (∀ row ∈ rows, row.isNamed = true) ∧
      (strict = true → ∀ i j, shared (rows.map (·.tag)) i j = true → i = j)) ∧
    rows.violations strict =
      (match rows.countP (·.initial) with
        | 0 => [.missingInitial]
        | 1 => []
        | count => [.multipleInitial count]) ++
      (rows.filter (!·.isNamed)).map Row.misnaming ++
      (if strict then rows.duplicates.map .duplicateTag else []) ∧
    (∃ classes : List (Nat × List Nat),
      (∀ first others, (first, others) ∈ classes ↔ IsClass (rows.map (·.tag)) (first :: others)) ∧
      (classes.map Prod.fst).Pairwise (· < ·) ∧
      classes.map (fun c => (rows[c.1]?).map (·.tag.label)) = rows.duplicates.map some) ∧
    ∀ positions, IsClass (rows.map (·.tag)) positions → ∃ family, ∀ i ∈ positions, ∃ row,
      rows[i]? = some row ∧ row.tag.family = family ∧ row.tag.agrees row.tag = true := by
  have listed : rows.violations strict = rows.initialViolations ++
      (rows.filter (!·.isNamed)).map Row.misnaming ++
      (if strict then rows.duplicates.map .duplicateTag else []) := by
    rw [violations, filterMap_nameViolation?]
  refine ⟨?_, listed, exists_classes rows, fun positions h => ?_⟩
  · have counted : rows.initialViolations = [] ↔ rows.countP (·.initial) = 1 := by
      rw [initialViolations, initialCount]
      generalize List.countP (·.initial) rows = count
      rcases count with _ | _ | count <;> simp
    have named : (rows.filter (!·.isNamed)).map Row.misnaming = [] ↔
        ∀ row ∈ rows, row.isNamed = true := by
      simp
    have single :
        (if strict then rows.duplicates.map Violation.duplicateTag else []) = [] ↔
          (strict = true → ∀ i j, shared (rows.map (·.tag)) i j = true → i = j) := by
      rw [← duplicates_eq_nil_iff]
      cases strict <;> simp
    rw [listed, List.append_eq_nil_iff, List.append_eq_nil_iff, counted, named, single, and_assoc]
  · have filled : 0 < positions.length := Nat.lt_of_lt_of_le Nat.two_pos h.several
    obtain ⟨first, at_first⟩ := List.exists_mem_of_length_pos filled
    obtain ⟨x, at_x, -⟩ := Tag.shared_iff.1 (h.agree first at_first first at_first)
    refine ⟨x.family, fun i mem => ?_⟩
    obtain ⟨y, at_y, x', at_x', agree⟩ := Tag.shared_iff.1 (h.agree i mem first at_first)
    obtain rfl := Option.some.inj (at_x.symm.trans at_x')
    rw [List.getElem?_map] at at_y
    obtain ⟨row, at_i, rfl⟩ := Option.map_eq_some_iff.1 at_y
    obtain ⟨family_eq, self⟩ := Tag.agrees_self _ _ agree
    exact ⟨row, at_i, family_eq, self⟩

end Table

end Statechart
