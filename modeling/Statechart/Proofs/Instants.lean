import Statechart.Proofs.Numerals
import Statechart.Time.Text

/-!
# Instants are read back

What is written of an instant is read as a clock shows it: a year outside the four digits keeps its
sign, a fraction keeps its nanoseconds with three, six or nine digits, and a leap second at the end of
a minute stays one.  A leap second within a minute has no text of its own: it is written, and so read,
as the second after it.  The zero meridian's clock is not moved.

Every number ends at a mark, so the reader takes all of its digits and nothing else.
-/
namespace Statechart

/-! ### What clocks show -/

namespace TimeOfDay

/-- A clock can show the time: if it is within a leap second, a minute ends there. -/
def Showable (time : TimeOfDay) : Prop := time.isLeap = true → time.second = 59

/-- The time as a clock shows it: a leap second within a minute passes for the second after it. -/
def asShown (time : TimeOfDay) : TimeOfDay :=
  if h : time.isLeap = true ∧ time.second < 59 then
    ⟨time.hour, time.minute, time.second + 1, time.nanos - 1000000000, time.hour_lt, time.minute_lt,
      by omega, Nat.lt_of_le_of_lt (Nat.sub_le ..) time.nanos_lt⟩
  else time

variable {time : TimeOfDay}

theorem Showable.asShown_eq (h : time.Showable) : time.asShown = time := by
  rw [asShown, dif_neg]
  rintro ⟨leap, inside⟩
  have last := h leap
  omega

/-- What a clock shows, clocks can show. -/
theorem showable_asShown (time : TimeOfDay) : time.asShown.Showable := by
  unfold asShown
  split
  case isTrue within =>
    intro leap
    have nanos := time.nanos_lt
    simp only [isLeap, decide_eq_true_eq] at leap
    omega
  case isFalse other =>
    intro leap
    have second := time.second_lt
    have last : ¬time.second < 59 := fun inside => other ⟨leap, inside⟩
    omega

theorem shownNanos_lt (time : TimeOfDay) : time.shownNanos < 1000000000 := Nat.mod_lt _ (by decide)

theorem shownSecond_lt (time : TimeOfDay) : time.shownSecond < 100 := by
  have nanos := time.nanos_lt
  have second := time.second_lt
  rw [shownSecond]
  omega

theorem shown_of_isLeap (h : time.isLeap = true) :
    time.shownSecond = time.second + 1 ∧ time.shownNanos + 1000000000 = time.nanos := by
  have more : 1000000000 ≤ time.nanos := of_decide_eq_true h
  have nanos := time.nanos_lt
  rw [shownSecond, shownNanos]
  omega

theorem shown_of_not_isLeap (h : ¬time.isLeap = true) :
    time.shownSecond = time.second ∧ time.shownNanos = time.nanos := by
  have few : ¬1000000000 ≤ time.nanos := fun more => h (decide_eq_true more)
  rw [shownSecond, shownNanos]
  omega

/-- A clock that shows what is written of a time shows the time. -/
theorem ofClock?_shown (time : TimeOfDay) :
    ofClock? time.hour time.minute time.shownSecond time.shownNanos = some time.asShown := by
  have second := time.second_lt
  have fraction := time.shownNanos_lt
  by_cases leap : time.isLeap = true
  · obtain ⟨next, more⟩ := shown_of_isLeap leap
    rw [ofClock?, dif_pos ⟨time.hour_lt, time.minute_lt, by omega, fraction⟩]
    by_cases inside : time.second < 59
    · rw [dif_pos (by omega), asShown, dif_pos ⟨leap, inside⟩]
      simp only [next, ← more, Nat.add_sub_cancel]
    · rw [dif_neg (by omega), asShown, dif_neg fun h => inside h.2]
      simp only [next, more, Nat.add_sub_cancel]
  · obtain ⟨same, all⟩ := shown_of_not_isLeap leap
    rw [ofClock?, dif_pos ⟨time.hour_lt, time.minute_lt, by omega, fraction⟩, dif_pos (by omega),
      asShown, dif_neg fun h => leap h.1]
    simp only [same, all]

end TimeOfDay

namespace Instant

/-- A clock can show the instant. -/
def Showable (instant : Instant) : Prop := instant.time.Showable

/-- The instant as a clock shows it. -/
def asShown (instant : Instant) : Instant := { instant with time := instant.time.asShown }

theorem showable_asShown (instant : Instant) : instant.asShown.Showable :=
  instant.time.showable_asShown

theorem Showable.asShown_eq {instant : Instant} (h : instant.Showable) :
    instant.asShown = instant := by
  rw [asShown, TimeOfDay.Showable.asShown_eq h]

open Text (blanks dropBlanks isBlank)

variable {cs rest : List Char} {c : Char} {n width limit : Nat}

/-! ### Blanks -/

theorem isBlank_of_isDigit (h : c.isDigit = true) : isBlank c = false := by
  simp only [Char.isDigit, Bool.and_eq_true, decide_eq_true_eq] at h
  obtain ⟨low, high⟩ := h
  have low : 48 ≤ c.toNat := low
  have high : c.toNat ≤ 57 := high
  simp only [isBlank, blanks, List.contains_eq_mem, List.mem_cons, decide_eq_false_iff_not]
  simp
  omega

theorem dropBlanks_cons (h : isBlank c = false) : dropBlanks (c :: cs) = c :: cs := by
  simp [dropBlanks, h]

theorem dropBlanks_padded : dropBlanks (padded width n ++ rest) = padded width n ++ rest := by
  obtain ⟨c, cs, digits, digit⟩ := digits_eq_cons padded_ne_nil fun _ => isDigit_of_mem_padded
  rw [digits, List.cons_append, dropBlanks_cons (isBlank_of_isDigit digit)]

/-! ### Numbers -/

theorem takeNumber?_padded (fits : (padded width n).length ≤ limit) (ends : EndsDigits rest) :
    takeNumber? limit (padded width n ++ rest) = some (n, rest) := by
  have digits : ((padded width n ++ rest).take limit).takeWhile Char.isDigit = padded width n := by
    rw [List.take_append, List.take_of_length_le fits,
      takeWhile_digits (fun _ => isDigit_of_mem_padded) (ends.take _)]
  simp [takeNumber?, digits]

theorem readNumber?_padded (h : n < 100) (ends : EndsDigits rest) :
    readNumber? 2 (padded 2 n ++ rest) = some (n, rest) := by
  rw [readNumber?, dropBlanks_padded]
  exact takeNumber?_padded (Nat.le_of_eq (length_padded (by decide) h)) ends

theorem readMark?_cons (h : isBlank c = false) : readMark? c (c :: rest) = some rest := by
  simp [readMark?, dropBlanks_cons h]

/-! ### Dates -/

/-- A year is read back, with a sign or without. -/
theorem readYear?_yearChars (year : Int) (ends : EndsDigits rest) :
    readYear? (yearChars year ++ rest) = some (year, rest) := by
  have signed : takeNumber? (padded 4 year.natAbs ++ rest).length (padded 4 year.natAbs ++ rest) =
      some (year.natAbs, rest) := takeNumber?_padded (by simp) ends
  rw [yearChars]
  split
  case isTrue four =>
    have fits : (padded 4 year.toNat).length ≤ 4 :=
      Nat.le_of_eq (length_padded (by decide) (by omega))
    rw [readYear?, dropBlanks_padded]
    split
    case h_1 heq => exact absurd heq (padded_append_ne (by decide))
    case h_2 heq => exact absurd heq (padded_append_ne (by decide))
    case h_3 =>
      simp only [takeNumber?_padded fits ends, Option.map_some]
      congr 2
      omega
  case isFalse =>
    split
    case isTrue before =>
      rw [readYear?, List.cons_append, dropBlanks_cons (by decide)]
      simp only [signed, Option.map_some]
      congr 2
      omega
    case isFalse after =>
      rw [readYear?, List.cons_append, dropBlanks_cons (by decide)]
      simp only [signed, Option.map_some]
      congr 2
      omega

theorem month_lt (date : Date) : date.month < 100 := by
  have := date.month_mem
  omega

theorem day_lt (date : Date) : date.day < 100 := by
  have day := date.day_mem
  have month : daysInMonth date.year date.month ≤ 31 := by
    unfold daysInMonth
    split
    · split <;> decide
    all_goals decide
  omega

/-- A date is read back. -/
theorem readDate?_chars (date : Date) (ends : EndsDigits rest) :
    readDate? (yearChars date.year ++ '-' :: (padded 2 date.month ++ '-' ::
      (padded 2 date.day ++ rest))) = some (date, rest) := by
  have dash : ∀ more, EndsDigits ('-' :: more) := fun _ => endsDigits_cons (by decide)
  have mark : ∀ more, readMark? '-' ('-' :: more) = some more := fun _ => readMark?_cons (by decide)
  simp [readDate?, readYear?_yearChars date.year (dash _), mark,
    readNumber?_padded (month_lt date) (dash _), readNumber?_padded (day_lt date) ends]

/-! ### Times of day -/

theorem readFraction?_padded (pos : 0 < width) (few : width ≤ 9) (h : n < 10 ^ width)
    (ends : EndsDigits rest) :
    readFraction? ('.' :: (padded width n ++ rest)) = some (n * 10 ^ (9 - width), rest) := by
  have length := length_padded pos h
  have digits : ((padded width n ++ rest).take 9).takeWhile Char.isDigit = padded width n := by
    rw [List.take_append, List.take_of_length_le (by omega),
      takeWhile_digits (fun _ => isDigit_of_mem_padded) (ends.take _)]
  rw [readFraction?, digits, dropWhile_digits (fun _ => isDigit_of_mem_padded) ends]
  simp [length]

/-- A fraction is nothing, or a point and digits that are the nanoseconds but for zeros at the end. -/
theorem fractionChars_cases {nanos : Nat} (h : nanos < 1000000000) :
    (nanos = 0 ∧ fractionChars nanos = []) ∨
      ∃ width n, 0 < width ∧ width ≤ 9 ∧ n < 10 ^ width ∧ n * 10 ^ (9 - width) = nanos ∧
        fractionChars nanos = '.' :: padded width n := by
  unfold fractionChars
  split
  case isTrue whole => exact .inl ⟨whole, rfl⟩
  case isFalse =>
    refine .inr ?_
    split
    case isTrue millis => exact ⟨3, nanos / 1000000, by decide, by decide, by omega, by omega, rfl⟩
    case isFalse =>
      split
      case isTrue micros => exact ⟨6, nanos / 1000, by decide, by decide, by omega, by omega, rfl⟩
      case isFalse => exact ⟨9, nanos, by decide, by decide, h, by omega, rfl⟩

/-- A fraction is read back. -/
theorem readFraction?_fractionChars {nanos : Nat} (h : nanos < 1000000000) (mark : c ≠ '.')
    (ends : c.isDigit = false) (cs : List Char) :
    readFraction? (fractionChars nanos ++ c :: cs) = some (nanos, c :: cs) := by
  rcases fractionChars_cases h with ⟨rfl, none⟩ | ⟨width, n, pos, few, small, rfl, some⟩
  · rw [none, List.nil_append, readFraction?]
    intro more start
    exact mark (List.cons.inj start).1
  · rw [some, List.cons_append, readFraction?_padded pos few small (endsDigits_cons ends)]

/-- A time of day is read as a clock shows it. -/
theorem readTime?_chars (time : TimeOfDay) :
    readTime? (padded 2 time.hour ++ ':' :: (padded 2 time.minute ++ ':' ::
      (padded 2 time.shownSecond ++ (fractionChars time.shownNanos ++ ['Z'])))) =
        some (time.asShown, ['Z']) := by
  have colon : ∀ more, EndsDigits (':' :: more) := fun _ => endsDigits_cons (by decide)
  have mark : ∀ more, readMark? ':' (':' :: more) = some more := fun _ => readMark?_cons (by decide)
  have hour := time.hour_lt
  have minute := time.minute_lt
  have ends : EndsDigits (fractionChars time.shownNanos ++ ['Z']) := by
    rcases fractionChars_cases time.shownNanos_lt with ⟨-, none⟩ | ⟨_, _, -, -, -, -, some⟩
    · rw [none]
      exact endsDigits_cons (by decide)
    · rw [some]
      exact endsDigits_cons (by decide)
  simp [readTime?, mark, readNumber?_padded (n := time.hour) (by omega) (colon _),
    readNumber?_padded (n := time.minute) (by omega) (colon _),
    readNumber?_padded time.shownSecond_lt ends,
    readFraction?_fractionChars time.shownNanos_lt (show 'Z' ≠ '.' by decide),
    time.ofClock?_shown]

/-! ### Instants -/

theorem ofLocal?_zero (date : Date) (time : TimeOfDay) :
    ofLocal? date time 0 = some ⟨date, time⟩ := by
  have hour := time.hour_lt
  have minute := time.minute_lt
  have unmoved : time.minutesEarlier 0 = (time, 0) := by
    refine Prod.ext ?_ ?_
    · obtain ⟨h, m, s, nanos, _, _, _, _⟩ := time
      simp only [TimeOfDay.minutesEarlier, TimeOfDay.mk.injEq, and_true]
      omega
    · have euclidean := Int.fdiv_eq_ediv_of_nonneg (time.hour * 60 + time.minute - 0)
        (show (0 : Int) ≤ 1440 by decide)
      simp only [TimeOfDay.minutesEarlier, euclidean]
      omega
  simp [ofLocal?, unmoved]

/-- What is written of an instant is read as a clock shows it. -/
theorem read?_write (instant : Instant) : read? instant.write = some instant.asShown := by
  have ends : ∀ more, EndsDigits ('T' :: more) := fun _ => endsDigits_cons (by decide)
  have zero : readOffset? (dropBlanks ['Z']) = some (0, []) := rfl
  have none_left : dropBlanks [] = [] := rfl
  simp [read?, write, chars, readDate?_chars instant.date (ends _), isTimeMark, readTime?_chars,
    zero, none_left, ofLocal?_zero, asShown]

/-! ### Lengths -/

theorem length_yearChars_le (date : Date) : (yearChars date.year).length ≤ 7 := by
  have range : firstYear ≤ date.year ∧ date.year ≤ lastYear := date.year_mem
  rw [firstYear, lastYear] at range
  unfold yearChars
  split
  · have six : (padded 4 date.year.toNat).length ≤ max 4 6 :=
      length_padded_le (by decide) (by omega)
    omega
  · have six : (padded 4 date.year.natAbs).length ≤ max 4 6 :=
      length_padded_le (by decide) (by omega)
    rw [List.length_cons]
    omega

theorem length_fractionChars_le {nanos : Nat} (h : nanos < 1000000000) :
    (fractionChars nanos).length ≤ 10 := by
  rcases fractionChars_cases h with ⟨-, none⟩ | ⟨width, n, pos, few, small, -, some⟩
  · simp [none]
  · rw [some, List.length_cons, length_padded pos small]
    omega

/-- Whatever the instant is, its text is short. -/
theorem length_chars_le (instant : Instant) : instant.chars.length ≤ 33 := by
  have two : ∀ {n}, n < 100 → (padded 2 n).length = 2 := fun h => length_padded (by decide) h
  have hour := instant.time.hour_lt
  have minute := instant.time.minute_lt
  have year := length_yearChars_le instant.date
  have fraction := length_fractionChars_le instant.time.shownNanos_lt
  simp only [chars, List.length_append, List.length_cons, List.length_nil,
    two (month_lt instant.date), two (day_lt instant.date),
    two (show instant.time.hour < 100 by omega), two (show instant.time.minute < 100 by omega),
    two instant.time.shownSecond_lt]
  omega

end Instant

end Statechart
