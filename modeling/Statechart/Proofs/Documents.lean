import Statechart.Json.Printer
import Statechart.Json.Reader
import Statechart.Proofs.Numerals

/-!
# Documents are read back

What is written of a document, on one line or over lines, is read as that document.  All texts are
written, also the one that no string stands for; of the numbers, the natural ones are looked at.

A number ends where it cannot go on, which is up to the text after it: `Follows`.  A part of a
document is read back at any place where such a text follows, and with fuel for twice its length,
`ReadsBack`; documents have the property if their parts do.
-/
namespace Statechart.Json

variable {rest : List Char} {depth : Option Nat}

/-- The text does not go on with what could be part of a number. -/
def Follows (cs : List Char) : Prop :=
  ∀ c ∈ cs.head?, c.isDigit = false ∧ c ≠ '.' ∧ c ≠ 'e' ∧ c ≠ 'E'

theorem Follows.endsDigits (h : Follows rest) : EndsDigits rest := fun c first => (h c first).1

theorem follows_nil : Follows [] := by simp [Follows]

theorem follows_cons {c : Char} (h : c.isDigit = false ∧ c ≠ '.' ∧ c ≠ 'e' ∧ c ≠ 'E') :
    Follows (c :: rest) := by
  simpa [Follows] using h

/-! ### Numbers -/

theorem readDigits?_append {digits : List Char} (ne : digits ≠ [])
    (h : ∀ c ∈ digits, c.isDigit = true) (follows : Follows rest) :
    readDigits? (digits ++ rest) = some (digits, rest) := by
  simp [readDigits?, takeWhile_digits h follows.endsDigits, dropWhile_digits h follows.endsDigits,
    ne]

theorem readInteger?_toDigits (n : Nat) (follows : Follows rest) :
    readInteger? (Nat.toDigits 10 n ++ rest) = some (Nat.toDigits 10 n, rest) := by
  rcases toDigits_cases n with zero | ⟨c, cs, digits, -, ne⟩
  · rw [zero]; rfl
  · rw [readInteger?, readDigits?_append Nat.toDigits_ne_nil (fun _ => isDigit_of_mem_toDigits)
      follows]
    -- Only a first digit that is a zero is taken alone.
    intro more start
    rw [digits] at start
    exact ne (List.cons.inj start).1

theorem Follows.readFraction? (h : Follows rest) : readFraction? rest = some ([], rest) := by
  rw [Json.readFraction?]
  rintro more rfl
  exact (h '.' rfl).2.1 rfl

theorem Follows.readExponent? (h : Follows rest) : readExponent? rest = some ([], rest) := by
  cases rest with
  | nil => rfl
  | cons c cs =>
    obtain ⟨-, -, lower, upper⟩ := h c rfl
    simp [Json.readExponent?, lower, upper]

theorem readNumber?_toDigits (n : Nat) (follows : Follows rest) :
    readNumber? (Nat.toDigits 10 n ++ rest) = some (Nat.toDigits 10 n, rest) := by
  rw [readNumber?]
  · simp [readUnsigned?, readInteger?_toDigits n follows, follows.readFraction?,
      follows.readExponent?]
  · intro more start
    exact toDigits_append_ne (by decide) n start

/-! ### Texts -/

/-- What a character between quotes is read as. -/
def unitOf (c : Char) : TextUnit :=
  if escapeLetter? c = none ∧ c.toNat < 0x20 then .unit c.toNat else .char c

theorem shortEscape?_of_escapeLetter? {c letter : Char} (h : escapeLetter? c = some letter) :
    shortEscape? letter = some c ∧ letter ≠ 'u' := by
  unfold escapeLetter? at h
  split at h
  case h_8 => cases h
  all_goals
    cases h
    exact ⟨rfl, by decide⟩

theorem hexDigit?_digitChar {k : Nat} (h : k < 16) : hexDigit? (Nat.digitChar k) = some k := by
  have all : ∀ k < 16, hexDigit? (Nat.digitChar k) = some k := by decide
  exact all k h

/-- A character is read back from what stands for it. -/
theorem readUnits?_escape (c : Char) (cs : List Char) :
    readUnits? (escape c ++ cs) = (readUnits? cs).map fun (units, rest) =>
      (unitOf c :: units, rest) := by
  unfold escape
  split
  case h_1 letter short =>
    obtain ⟨back, ne⟩ := shortEscape?_of_escapeLetter? short
    rw [List.cons_append, List.cons_append, List.nil_append, readUnits?]
    · simp [back, unitOf, short, Option.map_eq_bind]
    · intro _ _ _ _ _ u
      exact absurd u ne
  case h_2 long =>
    split
    case isTrue control =>
      have high : c.toNat / 16 < 16 := by omega
      have code : c.toNat / 16 * 16 + c.toNat % 16 = c.toNat := by omega
      simp only [escapeUnit, List.cons_append, List.nil_append]
      rw [readUnits?]
      simp [hexDigit?_digitChar high, hexDigit?_digitChar (Nat.mod_lt c.toNat (by decide)),
        show hexDigit? '0' = some 0 from rfl, code, unitOf, long, control, Option.map_eq_bind]
    case isFalse plain =>
      have quote : c ≠ '"' := by rintro rfl; cases long
      have slash : c ≠ '\\' := by rintro rfl; cases long
      rw [List.cons_append, List.nil_append, readUnits?]
      · simp [plain, slash, unitOf, Option.map_eq_bind]
      · exact quote
      · intro _ _ _ _ _ start
        exact absurd start slash
      · intro _ _ start
        exact absurd start slash

theorem joinUnits?_unit {code : Nat} {units : List TextUnit} (h : code < 0x20) :
    joinUnits? (.unit code :: units) = (joinUnits? units).map (Char.ofNat code :: ·) := by
  have none_high : isHigh code = false := by simp [isHigh]; omega
  have none_low : isLow code = false := by simp [isLow]; omega
  rcases units with - | ⟨c | low, units⟩
  · simp [joinUnits?, none_high, none_low]
  · simp [joinUnits?, none_high, none_low]
  · rw [joinUnits?]
    simp [none_high, none_low]

/-- The characters of a text are joined again. -/
theorem joinUnits?_map_unitOf (cs : List Char) : joinUnits? (cs.map unitOf) = some cs := by
  induction cs with
  | nil => rfl
  | cons c cs ih =>
    rw [List.map_cons]
    by_cases control : escapeLetter? c = none ∧ c.toNat < 0x20
    · rw [unitOf, if_pos control, joinUnits?_unit control.2, ih, Option.map_some, Char.ofNat_toNat]
    · rw [unitOf, if_neg control, joinUnits?, ih, Option.map_some]

theorem readUnits?_flatMap_escape (cs rest : List Char) :
    readUnits? (cs.flatMap escape ++ '"' :: rest) = some (cs.map unitOf, rest) := by
  induction cs with
  | nil => rfl
  | cons c cs ih =>
    rw [List.flatMap_cons, List.append_assoc, readUnits?_escape, ih]
    rfl

/-- A text is read back, also the one that no string stands for. -/
theorem readText?_textChars (value : JsonText) (rest : List Char) :
    ∃ cs, textChars value ++ rest = '"' :: cs ∧ readText? cs = some (value, rest) := by
  cases value with
  | none =>
    refine ⟨'\\' :: 'u' :: 'd' :: '8' :: '0' :: '0' :: '"' :: rest, rfl, ?_⟩
    simp [readText?, readUnits?, joinUnits?, hexDigit?, isHigh, isLow]
  | some s =>
    refine ⟨s.toList.flatMap escape ++ '"' :: rest, by simp [textChars], ?_⟩
    rw [readText?, readUnits?_flatMap_escape]
    simp [joinUnits?_map_unitOf]

/-! ### Blanks -/

theorem skipSpace_cons {c : Char} {cs : List Char} (h : isSpace c = false) :
    skipSpace (c :: cs) = c :: cs := by
  simp [skipSpace, h]

theorem skipSpace_lineStart (depth : Option Nat) (cs : List Char) :
    skipSpace (lineStart depth ++ cs) = skipSpace cs := by
  apply List.dropWhile_append_of_pos
  intro c mem
  cases depth with
  | none => cases mem
  | some depth =>
    rcases List.mem_cons.1 mem with rfl | mem
    · rfl
    · rw [List.eq_of_mem_replicate mem]; rfl

theorem skipSpace_nameEnd (depth : Option Nat) (cs : List Char) :
    ∃ more, nameEnd depth ++ cs = ':' :: more ∧ skipSpace more = skipSpace cs := by
  cases depth with
  | none => exact ⟨cs, rfl, rfl⟩
  | some depth => exact ⟨' ' :: cs, rfl, rfl⟩

theorem follows_lineStart {c : Char} (h : c.isDigit = false ∧ c ≠ '.' ∧ c ≠ 'e' ∧ c ≠ 'E') :
    Follows (lineStart depth ++ c :: rest) := by
  cases depth with
  | none => exact follows_cons h
  | some depth => exact follows_cons (by decide)

/-! ### Documents -/

/-- All numbers of a document are natural numbers. -/
inductive Plain : Json → Prop
  | null : Plain .null
  | truth (value : Bool) : Plain (.truth value)
  | nat (n : Nat) : Plain (.nat n)
  | text (value : JsonText) : Plain (.text value)
  | array {items : List Json} (each : ∀ item ∈ items, Plain item) : Plain (.array items)
  | object {members : List (JsonText × Json)} (each : ∀ member ∈ members, Plain member.2) :
    Plain (.object members)

/-- What is written of the document is read back, whatever follows it. -/
def ReadsBack (document : Json) : Prop :=
  ∀ depth fuel rest, 2 * (chars depth document).length ≤ fuel → Follows rest →
    readDocument? fuel (chars depth document ++ rest) = some (document, rest)

variable {document item value : Json} {items : List Json} {name : JsonText}
  {members : List (JsonText × Json)} {fuel : Nat}

/-- A document starts neither with a blank nor as if an array ended. -/
theorem Plain.chars_eq_cons (h : Plain document) (depth : Option Nat) :
    ∃ c cs, chars depth document = c :: cs ∧ isSpace c = false ∧ c ≠ ']' := by
  cases h with
  | null => exact ⟨_, _, rfl, by decide⟩
  | truth value => cases value <;> exact ⟨_, _, rfl, by decide⟩
  | nat n =>
    obtain ⟨c, cs, digits, digit⟩ := toDigits_eq_cons n
    refine ⟨c, cs, digits, ?_, ?_⟩
    · rw [Bool.eq_false_iff]
      intro space
      simp only [isSpace, Bool.or_eq_true, decide_eq_true_eq] at space
      rcases space with ((rfl | rfl) | rfl) | rfl <;> exact absurd digit (by decide)
    · rintro rfl
      exact absurd digit (by decide)
  | text value => cases value <;> exact ⟨_, _, rfl, by decide⟩
  | @array items _ => cases items <;> exact ⟨_, _, rfl, by decide⟩
  | @object members _ => cases members <;> exact ⟨_, _, rfl, by decide⟩

theorem Plain.skipSpace_chars (h : Plain document) (inner depth : Option Nat) (cs : List Char) :
    skipSpace (lineStart inner ++ (chars depth document ++ cs)) = chars depth document ++ cs := by
  obtain ⟨c, more, start, space, -⟩ := h.chars_eq_cons depth
  rw [skipSpace_lineStart, start, List.cons_append, skipSpace_cons space]

theorem follows_itemChars (items : List Json) (inner outer : Option Nat) (rest : List Char) :
    Follows (itemChars inner items ++ (lineStart outer ++ ']' :: rest)) := by
  cases items with
  | nil => exact follows_lineStart (by decide)
  | cons item items => exact follows_cons (by decide)

theorem follows_memberChars (members : List (JsonText × Json)) (inner outer : Option Nat)
    (rest : List Char) :
    Follows (memberChars inner members ++ (lineStart outer ++ '\x7d' :: rest)) := by
  cases members with
  | nil => exact follows_lineStart (by decide)
  | cons member members => exact follows_cons (by decide)

/-- The items of an array are read back up to its closing bracket. -/
theorem readItems?_chars (plain : ∀ i ∈ item :: items, Plain i)
    (back : ∀ i ∈ item :: items, ReadsBack i) (inner outer : Option Nat) (rest : List Char)
    (fuel : Nat) (enough : 2 * ((chars inner item).length + (itemChars inner items).length) < fuel) :
    readItems? fuel (chars inner item ++ (itemChars inner items ++ (lineStart outer ++ ']' :: rest)))
      = some (item :: items, rest) := by
  induction items generalizing item fuel with
  | nil =>
    obtain ⟨fuel, rfl⟩ := Nat.exists_eq_succ_of_ne_zero (Nat.ne_zero_of_lt enough)
    rw [readItems?, back item List.mem_cons_self inner fuel _ (by omega)
      (follows_itemChars [] inner outer rest)]
    simp [itemChars, skipSpace_lineStart, skipSpace_cons (c := ']') rfl]
  | cons next items ih =>
    obtain ⟨fuel, rfl⟩ := Nat.exists_eq_succ_of_ne_zero (Nat.ne_zero_of_lt enough)
    rw [readItems?, back item List.mem_cons_self inner fuel _ (by omega)
      (follows_itemChars (next :: items) inner outer rest)]
    simp only [itemChars, List.length_cons, List.length_append] at enough
    have others := ih (fun i mem => plain i (List.mem_cons_of_mem _ mem))
      (fun i mem => back i (List.mem_cons_of_mem _ mem)) fuel (by omega)
    simp [itemChars, skipSpace_cons (c := ',') rfl,
      (plain next (by simp)).skipSpace_chars, others]

/-- A name, its mark and its value are read back, before the reader looks at what follows. -/
theorem readMembers?_member (plain : Plain value) (back : ReadsBack value) (outer inner : Option Nat)
    (enough : 2 * (chars inner value).length ≤ fuel) (follows : Follows rest) :
    readMembers? (fuel + 1) (textChars name ++ (nameEnd outer ++ (chars inner value ++ rest))) =
      match skipSpace rest with
      | '\x7d' :: rest => some ([(name, value)], rest)
      | ',' :: rest => (readMembers? fuel (skipSpace rest)).map fun (members, rest) =>
        ((name, value) :: members, rest)
      | _ => none := by
  obtain ⟨cs, start, text⟩ := readText?_textChars name
    (nameEnd outer ++ (chars inner value ++ rest))
  obtain ⟨more, mark, space⟩ := skipSpace_nameEnd outer (chars inner value ++ rest)
  have own := plain.skipSpace_chars none inner rest
  simp only [lineStart, List.nil_append] at own
  rw [start, readMembers?]
  simp only [text, mark, skipSpace_cons (c := ':') rfl, space, own,
    back inner fuel rest enough follows, Option.bind_eq_bind, Option.bind_some,
    Option.map_eq_bind]
  rfl

/-- The members of an object are read back up to its closing brace. -/
theorem readMembers?_chars (plain : ∀ m ∈ (name, value) :: members, Plain m.2)
    (back : ∀ m ∈ (name, value) :: members, ReadsBack m.2) (mark inner outer : Option Nat)
    (rest : List Char) (fuel : Nat)
    (enough : 2 * ((chars inner value).length + (memberChars inner members).length) < fuel) :
    readMembers? fuel (textChars name ++ (nameEnd mark ++ (chars inner value ++
      (memberChars inner members ++ (lineStart outer ++ '\x7d' :: rest))))) =
        some ((name, value) :: members, rest) := by
  induction members generalizing name value fuel mark with
  | nil =>
    obtain ⟨fuel, rfl⟩ := Nat.exists_eq_succ_of_ne_zero (Nat.ne_zero_of_lt enough)
    have head : Plain value := plain (name, value) List.mem_cons_self
    rw [readMembers?_member head (back (name, value) List.mem_cons_self) mark inner (by omega)
      (follows_memberChars [] inner outer rest)]
    simp [memberChars, skipSpace_lineStart, skipSpace_cons (c := '\x7d') rfl]
  | cons next members ih =>
    obtain ⟨nextName, nextValue⟩ := next
    obtain ⟨fuel, rfl⟩ := Nat.exists_eq_succ_of_ne_zero (Nat.ne_zero_of_lt enough)
    have head : Plain value := plain (name, value) List.mem_cons_self
    rw [readMembers?_member head (back (name, value) List.mem_cons_self) mark inner (by omega)
      (follows_memberChars (_ :: members) inner outer rest)]
    simp only [memberChars, List.length_cons, List.length_append] at enough
    have others := ih (fun m mem => plain m (List.mem_cons_of_mem _ mem))
      (fun m mem => back m (List.mem_cons_of_mem _ mem)) inner fuel (by omega)
    obtain ⟨cs, start, -⟩ := readText?_textChars nextName (nameEnd inner ++
      (chars inner nextValue ++ (memberChars inner members ++ (lineStart outer ++ '\x7d' :: rest))))
    rw [start] at others
    simp [memberChars, skipSpace_cons (c := ',') rfl, skipSpace_lineStart, start,
      skipSpace_cons (c := '"') rfl, others]

theorem readsBack_of_succ (plain : Plain document)
    (h : ∀ depth fuel rest, 2 * (chars depth document).length ≤ fuel + 1 → Follows rest →
      readDocument? (fuel + 1) (chars depth document ++ rest) = some (document, rest)) :
    ReadsBack document := by
  intro depth fuel rest enough follows
  obtain ⟨c, cs, start, -⟩ := plain.chars_eq_cons depth
  cases fuel with
  | zero => simp [start] at enough
  | succ fuel => exact h depth fuel rest enough follows

/-- An array is read back if its items are. -/
theorem readsBack_array (plain : ∀ i ∈ items, Plain i) (back : ∀ i ∈ items, ReadsBack i) :
    ReadsBack (.array items) := by
  refine readsBack_of_succ (.array plain) fun depth fuel rest enough _ => ?_
  cases items with
  | nil => simp [chars, readDocument?, skipSpace_cons (c := ']') rfl]
  | cons item items =>
    simp only [chars, List.length_cons, List.length_append] at enough
    have inner := readItems?_chars plain back (depth.map (· + 1)) depth rest fuel (by omega)
    simp only [chars, List.cons_append, List.append_assoc, List.nil_append]
    have first : Plain item := plain item List.mem_cons_self
    rw [readDocument?, first.skipSpace_chars]
    -- the reader looks for the end of an empty array first
    obtain ⟨c, cs, start, -, bracket⟩ := first.chars_eq_cons (depth.map (· + 1))
    rw [start, List.cons_append] at inner ⊢
    split
    case h_1 more heq => exact absurd (List.cons.inj heq).1 bracket
    case h_2 => rw [inner]; rfl

/-- An object is read back if the values of its members are. -/
theorem readsBack_object (plain : ∀ m ∈ members, Plain m.2) (back : ∀ m ∈ members, ReadsBack m.2) :
    ReadsBack (.object members) := by
  refine readsBack_of_succ (.object plain) fun depth fuel rest enough _ => ?_
  cases members with
  | nil => simp [chars, readDocument?, skipSpace_cons (c := '\x7d') rfl]
  | cons member members =>
    obtain ⟨name, value⟩ := member
    simp only [chars, List.length_cons, List.length_append] at enough
    have inner := readMembers?_chars plain back depth (depth.map (· + 1)) depth rest fuel (by omega)
    simp only [chars, List.cons_append, List.append_assoc, List.nil_append]
    obtain ⟨cs, start, -⟩ := readText?_textChars name (nameEnd depth ++
      (chars (depth.map (· + 1)) value ++ (memberChars (depth.map (· + 1)) members ++
        (lineStart depth ++ '\x7d' :: rest))))
    rw [start] at inner ⊢
    rw [readDocument?, skipSpace_lineStart, skipSpace_cons (c := '"') rfl]
    simp [inner]

/-- Documents without numbers but natural ones are read back. -/
theorem Plain.readsBack (h : Plain document) : ReadsBack document := by
  induction h with
  | null =>
    refine readsBack_of_succ .null fun depth fuel rest _ _ => ?_
    simp [chars, readDocument?]
  | truth value =>
    refine readsBack_of_succ (.truth value) fun depth fuel rest _ _ => ?_
    cases value <;> simp [chars, readDocument?]
  | nat n =>
    refine readsBack_of_succ (.nat n) fun depth fuel rest _ follows => ?_
    rw [Json.nat, chars, readDocument?, readNumber?_toDigits n follows]
    · rfl
    all_goals
      intro _
      exact toDigits_append_ne (by decide) n
  | text value =>
    refine readsBack_of_succ (.text value) fun depth fuel rest _ _ => ?_
    obtain ⟨cs, start, back⟩ := readText?_textChars value rest
    rw [chars, start, readDocument?, back]
    rfl
  | array plain back => exact readsBack_array plain back
  | object plain back => exact readsBack_object plain back

theorem Plain.read?_chars (h : Plain document) (depth : Option Nat) :
    read? (String.ofList (chars depth document)) = some document := by
  obtain ⟨c, cs, start, space, -⟩ := h.chars_eq_cons depth
  have own : skipSpace (chars depth document) = chars depth document := by
    rw [start, skipSpace_cons space]
  have back := h.readsBack depth (2 * (chars depth document).length + 2) [] (by omega) follows_nil
  rw [List.append_nil] at back
  have none_left : skipSpace [] = [] := rfl
  simp [read?, own, back, none_left]

/-- A document that is written on one line is read back. -/
theorem Plain.read?_compact (h : Plain document) : read? document.compact = some document :=
  h.read?_chars none

/-- A document that is written over lines is read back. -/
theorem Plain.read?_pretty (h : Plain document) : read? document.pretty = some document :=
  h.read?_chars (some 0)

/-! ### Records -/

theorem Plain.string (s : String) : Plain (.string s) := .text (some s)

theorem Plain.ofMembers {fields : List (String × Json)} (h : ∀ field ∈ fields, Plain field.2) :
    Plain (.ofMembers fields) := by
  refine .object fun member mem => ?_
  obtain ⟨field, own, rfl⟩ := List.mem_map.1 mem
  exact h field own

@[simp] theorem string?_string (s : String) : (Json.string s).string? = some s := rfl

@[simp] theorem items?_array : (Json.array items).items? = some items := rfl

theorem natBelow?_nat {n bound : Nat} (h : n < bound) : (Json.nat n).natBelow? bound = some n := by
  have digits : (Nat.toDigits 10 n).all Char.isDigit = true := by
    simpa using fun c => isDigit_of_mem_toDigits (c := c) (n := n)
  simp only [Json.nat, natBelow?, Nat.ofDigitChars_toDigits (b := 10) (by decide) (by decide), digits]
  simp [h]

variable {fields : List (String × Json)}

theorem named?_map (fields : List (String × Json)) :
    named? (fields.map fun field => (some field.1, field.2)) = some fields := by
  induction fields with
  | nil => rfl
  | cons field fields ih =>
    rw [named?] at ih
    simp [named?, ih]

/-- A name that occurs once has its value. -/
theorem member?_of_mem (nodup : (fields.map Prod.fst).Nodup) {field : String × Json}
    (mem : field ∈ fields) : member? fields field.1 = some (some field.2) := by
  have once : fields.filter (·.1 = field.1) = [field] := by
    induction fields with
    | nil => cases mem
    | cons other fields ih =>
      obtain ⟨fresh, nodup⟩ := List.nodup_cons.1 nodup
      rcases List.mem_cons.1 mem with rfl | mem
      · have none_left : fields.filter (·.1 = field.1) = [] := by
          simp only [List.filter_eq_nil_iff, decide_eq_true_eq]
          intro f own same
          exact fresh (same ▸ List.mem_map_of_mem own)
        rw [List.filter_cons_of_pos (by simp), none_left]
      · have ne : other.1 ≠ field.1 := fun same => fresh (same ▸ List.mem_map_of_mem mem)
        rw [List.filter_cons_of_neg (by simpa using ne), ih nodup mem]
  rw [member?, once]

theorem mapM_member? {sought : List (String × Json)}
    (h : ∀ field ∈ sought, member? fields field.1 = some (some field.2)) :
    (sought.map Prod.fst).mapM (member? fields) = some (sought.map (some ·.2)) := by
  induction sought with
  | nil => rfl
  | cons field more ih =>
    simp [h field List.mem_cons_self, ih fun f mem => h f (List.mem_cons_of_mem _ mem)]

/-- The fields of a record are read back, whatever their names are. -/
theorem fullRecord?_ofMembers (nodup : (fields.map Prod.fst).Nodup) :
    fullRecord? (fields.map Prod.fst) (ofMembers fields) = some (fields.map Prod.snd) := by
  have own : (fields.map Prod.fst).mapM (member? fields) = some (fields.map (some ·.2)) :=
    mapM_member? fun _ => member?_of_mem nodup
  have values : (fields.map fun field => some field.2).mapM id = some (fields.map Prod.snd) := by
    clear nodup own
    induction fields with
    | nil => rfl
    | cons field fields ih => simp [ih]
  simp only [fullRecord?, ofMembers, record?, named?_map]
  change (((fields.map Prod.fst).mapM (member? fields)).bind fun found => found.mapM id) = _
  rw [own, Option.bind_some, values]

end Statechart.Json
