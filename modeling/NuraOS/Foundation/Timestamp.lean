/-
Purpose: Numbers in decimal, and points in time as Go's `time` package prints and reads them in JSON.
-/
import Mathlib.Algebra.Ring.Nat
import Mathlib.Data.Char
import Mathlib.Data.List.DropRight
import Mathlib.Data.List.Lex

namespace Foundation

open List

/-- The decimal digits of a number, with zeros on the left up to the given width. -/
def padDigits (width value : Nat) : List Char :=
  List.replicate (width - (Nat.toDigits 10 value).length) '0' ++ Nat.toDigits 10 value

/-- A number in decimal, padded on the left with zeros to at least the given width. -/
def zeroPad (width value : Nat) : String :=
  String.ofList (padDigits width value)

@[simp] theorem toList_zeroPad (width value : Nat) :
    (zeroPad width value).toList = padDigits width value := by
  simp [zeroPad]

@[simp] theorem ofDigitChars_padDigits (width value : Nat) :
    Nat.ofDigitChars 10 (padDigits width value) 0 = value := by
  simp [padDigits, Nat.ofDigitChars_append]

variable {width first second value : Nat} {c stop : Char}

theorem padDigits_injective
    (equality : padDigits width first = padDigits width second) : first = second := by
  have values := congrArg (fun digits => Nat.ofDigitChars 10 digits 0) equality
  simpa using values

theorem length_padDigits (positive : 0 < width) (fits : value < 10 ^ width) :
    (padDigits width value).length = width := by
  have short : (Nat.toDigits 10 value).length ≤ width :=
    (Nat.length_toDigits_le_iff (by decide) positive).mpr fits
  simp only [padDigits, length_append, length_replicate]
  omega

theorem isDigit_of_mem_padDigits (member : c ∈ padDigits width value) : c.isDigit = true := by
  rcases mem_append.mp member with zero | digit
  · rw [eq_of_mem_replicate zero]
    rfl
  · exact Nat.isDigit_of_mem_toDigits (by decide) (by decide) digit

private theorem digit_bounds (digit : c.isDigit = true) : 48 ≤ c.toNat ∧ c.toNat ≤ 57 := by
  simp only [Char.isDigit, Bool.and_eq_true, decide_eq_true_eq, ge_iff_le] at digit
  exact ⟨UInt32.le_iff_toNat_le.mp digit.1, UInt32.le_iff_toNat_le.mp digit.2⟩

private theorem ofDigitChars_lt {digits : List Char} (allDigits : ∀ c ∈ digits, c.isDigit = true) :
    Nat.ofDigitChars 10 digits 0 < 10 ^ digits.length := by
  induction digits with
  | nil => simp
  | cons c digits ih =>
    have bounds := digit_bounds (allDigits c (by simp))
    have rest := ih fun d member => allDigits d (by simp [member])
    have zero : '0'.toNat = 48 := rfl
    rw [Nat.ofDigitChars_cons, Nat.ofDigitChars_eq_ofDigitChars_zero, length_cons,
      Nat.pow_succ, Nat.mul_zero, Nat.zero_add, zero]
    have digitBound : c.toNat - 48 ≤ 9 := by omega
    have scaled := Nat.mul_le_mul_left (10 ^ digits.length) digitBound
    omega

theorem lt_of_ofDigitChars_lt {first second : List Char}
    (firstDigits : ∀ c ∈ first, c.isDigit = true) (secondDigits : ∀ c ∈ second, c.isDigit = true)
    (sameLength : first.length = second.length)
    (less : Nat.ofDigitChars 10 first 0 < Nat.ofDigitChars 10 second 0) : first < second := by
  induction first generalizing second with
  | nil =>
    cases second with
    | nil => simp at less
    | cons d second => simp at sameLength
  | cons c first ih =>
    cases second with
    | nil => simp at sameLength
    | cons d second =>
      have dBounds := digit_bounds (secondDigits d (by simp))
      have firstRest : ∀ e ∈ first, e.isDigit = true :=
        fun e member => firstDigits e (by simp [member])
      have secondRest : ∀ e ∈ second, e.isDigit = true :=
        fun e member => secondDigits e (by simp [member])
      have lengths : first.length = second.length := by simpa using sameLength
      have zero : '0'.toNat = 48 := rfl
      rw [Nat.ofDigitChars_cons, Nat.ofDigitChars_cons, Nat.ofDigitChars_eq_ofDigitChars_zero,
        Nat.ofDigitChars_eq_ofDigitChars_zero (l := second), Nat.mul_zero, Nat.zero_add,
        Nat.zero_add, zero, ← lengths] at less
      -- The heads decide unless they agree; a larger head cannot be made up by the rest.
      rcases Nat.lt_trichotomy c.toNat d.toNat with smaller | equal | larger
      · exact List.Lex.rel (Char.lt_def.mpr (UInt32.lt_iff_toNat_lt.mpr smaller))
      · obtain rfl : c = d := Char.toNat_inj.mp equal
        exact List.Lex.cons (ih firstRest secondRest lengths (by omega))
      · exfalso
        have bound := ofDigitChars_lt secondRest
        rw [← lengths] at bound
        have heads : d.toNat - 48 + 1 ≤ c.toNat - 48 := by omega
        have scaled := Nat.mul_le_mul_left (10 ^ first.length) heads
        rw [Nat.mul_add, Nat.mul_one] at scaled
        omega

theorem padDigits_lt (fits : second < 10 ^ width)
    (less : first < second) : padDigits width first < padDigits width second := by
  have positive : 0 < width := by
    rcases Nat.eq_zero_or_pos width with zero | positive
    · subst zero
      omega
    · exact positive
  refine lt_of_ofDigitChars_lt (fun _ => isDigit_of_mem_padDigits)
    (fun _ => isDigit_of_mem_padDigits) ?_ (by simpa using less)
  rw [length_padDigits positive (Nat.lt_trans less fits), length_padDigits positive fits]

theorem append_lt_append {α : Type} [LT α] {first second : List α}
    (sameLength : first.length = second.length) (less : first < second) (rest others : List α) :
    first ++ rest < second ++ others := by
  induction first generalizing second with
  | nil =>
    cases second with
    | nil => cases less
    | cons d second => simp at sameLength
  | cons c first ih =>
    cases second with
    | nil => simp at sameLength
    | cons d second =>
      cases less with
      | rel headLess => exact List.Lex.rel headLess
      | cons tailLess =>
        exact List.Lex.cons (ih (by simpa using sameLength) tailLess)

theorem padDigits_of_wide (wide : 10 ^ width ≤ value) :
    padDigits width value = Nat.toDigits 10 value := by
  have long : width ≤ (Nat.toDigits 10 value).length := by
    rcases Nat.eq_zero_or_pos width with zero | positive
    · rw [zero]
      exact Nat.zero_le _
    · apply Nat.le_of_not_lt
      intro short
      have fits := (Nat.length_toDigits_le_iff (by decide) positive).mp (Nat.le_of_lt short)
      exact Nat.not_lt_of_le wide fits
  rw [padDigits, Nat.sub_eq_zero_of_le long]
  rfl

/-- A number with one digit more than the width is as good as padded to that many digits. -/
theorem padDigits_of_one_more (positive : 0 < width) (wide : 10 ^ width ≤ value)
    (fits : value < 10 ^ (width + 1)) : padDigits width value = padDigits (width + 1) value := by
  have exactly : (Nat.toDigits 10 value).length = width + 1 := by
    apply Nat.le_antisymm
    · exact (Nat.length_toDigits_le_iff (by decide) (Nat.succ_pos _)).mpr fits
    · apply Nat.lt_of_not_le
      intro short
      exact Nat.not_lt_of_le wide ((Nat.length_toDigits_le_iff (by decide) positive).mp short)
  rw [padDigits_of_wide wide, padDigits, exactly, Nat.sub_self]
  rfl

private theorem stop_lt_digit (below : stop < '0') (digit : c.isDigit = true) : stop < c :=
  lt_of_lt_of_le below (Char.le_def.mpr (UInt32.le_iff_toNat_le.mpr (digit_bounds digit).1))

/-- Of the texts of numbers that do not fit the width, the first number's comes first, when what
follows the digits sorts below them. -/
theorem wide_lt (positive : 0 < width) (wide : 10 ^ width < value)
    (below : stop < '0') (rest : List Char) :
    padDigits width (10 ^ width) ++ stop :: rest < padDigits width value ++ stop :: rest := by
  induction value using Nat.strongRecOn with
  | ind value ih =>
    by_cases oneMore : value < 10 ^ (width + 1)
    · -- Both have one digit more than the width, and so compare as numbers.
      have power : 10 ^ width < 10 ^ (width + 1) := Nat.lt_trans wide oneMore
      rw [padDigits_of_one_more positive (Nat.le_refl _) power,
        padDigits_of_one_more positive (Nat.le_of_lt wide) oneMore]
      apply append_lt_append
      · rw [length_padDigits (Nat.succ_pos _) power, length_padDigits (Nat.succ_pos _) oneMore]
      · exact padDigits_lt oneMore wide
    · -- With more digits still, the last one stands where the shorter number stops.
      have base : 10 ≤ value := by
        have tens : 10 ^ 1 ≤ 10 ^ width := Nat.pow_le_pow_right (by decide) positive
        exact Nat.le_trans tens (Nat.le_of_lt wide)
      have shorterWide : 10 ^ width ≤ value / 10 := by
        apply (Nat.le_div_iff_mul_le (by decide)).mpr
        exact Nat.le_of_not_lt oneMore
      have digits : padDigits width value =
          padDigits width (value / 10) ++ [Nat.digitChar (value % 10)] := by
        rw [padDigits_of_wide (Nat.le_of_lt wide), padDigits_of_wide shorterWide,
          Nat.toDigits_of_base_le (by decide) base]
      have last : Nat.digitChar (value % 10) ∈ padDigits width value := by simp [digits]
      have longer : padDigits width (value / 10) ++ stop :: rest <
          padDigits width value ++ stop :: rest := by
        rw [digits, append_assoc]
        apply append_left_lt
        exact List.Lex.rel (stop_lt_digit below (isDigit_of_mem_padDigits last))
      rcases Nat.lt_or_eq_of_le shorterWide with less | equal
      · exact List.lt_trans
          (ih _ (Nat.div_lt_self (by omega) (by decide)) less) longer
      · rw [equal]
        exact longer

def isLeap (year : Int) : Bool :=
  year % 4 = 0 && (year % 100 ≠ 0 || year % 400 = 0)

def daysIn (month : Nat) (year : Int) : Nat :=
  if month = 2 then
    if isLeap year then 29 else 28
  else if month = 4 ∨ month = 6 ∨ month = 9 ∨ month = 11 then
    30
  else
    31

structure Date where
  year : Int
  month : Nat
  day : Nat
deriving DecidableEq

def Date.Valid (date : Date) : Prop :=
  1 ≤ date.month ∧ date.month ≤ 12 ∧ 1 ≤ date.day ∧ date.day ≤ daysIn date.month date.year

instance (date : Date) : Decidable date.Valid :=
  inferInstanceAs (Decidable (_ ∧ _ ∧ _ ∧ _))

def Date.next (date : Date) : Date :=
  if date.day < daysIn date.month date.year then
    { date with day := date.day + 1 }
  else if date.month < 12 then
    { date with month := date.month + 1, day := 1 }
  else
    { year := date.year + 1, month := 1, day := 1 }

def Date.previous (date : Date) : Date :=
  if 1 < date.day then
    { date with day := date.day - 1 }
  else if 1 < date.month then
    { date with month := date.month - 1, day := daysIn (date.month - 1) date.year }
  else
    { year := date.year - 1, month := 12, day := 31 }

def Date.epochDays (date : Date) : Int :=
  let year := if date.month ≤ 2 then date.year - 1 else date.year
  let era := year / 400
  let yearOfEra := year - era * 400
  let dayOfYear := (153 * ((date.month + 9) % 12) + 2) / 5 + date.day - 1
  era * 146097 + yearOfEra * 365 + yearOfEra / 4 - yearOfEra / 100 + dayOfYear - 719468

example : Date.epochDays { year := 2024, month := 2, day := 29 } = 19782 := by decide

/-- `appendInt(year, 4)` and the month and day in two digits. -/
def Date.print (date : Date) : List Char :=
  (if date.year < 0 then ['-'] else []) ++ padDigits 4 date.year.natAbs ++
    '-' :: padDigits 2 date.month ++ '-' :: padDigits 2 date.day

/-- A point in time, in a zone that is `zone` minutes ahead of UTC. -/
structure Timestamp where
  date : Date
  hour : Nat
  minute : Nat
  second : Nat
  nanos : Nat
  zone : Int
  validDate : date.Valid
  validTime : hour < 24 ∧ minute < 60 ∧ second < 60 ∧ nanos < 10 ^ 9
deriving DecidableEq

def Timestamp.zero : Timestamp where
  date := { year := 1, month := 1, day := 1 }
  hour := 0
  minute := 0
  second := 0
  nanos := 0
  zone := 0
  validDate := by decide
  validTime := by decide

def Timestamp.utcDate (time : Timestamp) : Date :=
  let minutes : Int := time.hour * 60 + time.minute - time.zone
  if minutes < 0 then time.date.previous
  else if 1440 ≤ minutes then time.date.next
  else time.date

def Timestamp.instant (time : Timestamp) : Int :=
  (((time.date.epochDays * 24 + time.hour) * 60 + time.minute - time.zone) * 60 + time.second) *
    1000000000 + time.nanos

/-- `Before`. -/
def Timestamp.before (first second : Timestamp) : Bool :=
  first.instant < second.instant

def printFraction (nanos : Nat) : List Char :=
  if nanos = 0 then [] else '.' :: (padDigits 9 nanos).rdropWhile (· = '0')

def printZone (zone : Int) : List Char :=
  if zone = 0 then
    ['Z']
  else
    (if zone < 0 then '-' else '+') ::
      (padDigits 2 (zone.natAbs / 60) ++ ':' :: padDigits 2 (zone.natAbs % 60))

/-- The layout `time.RFC3339Nano`. -/
def Timestamp.print (time : Timestamp) : List Char :=
  padDigits 4 time.date.year.natAbs ++ '-' :: (padDigits 2 time.date.month ++
    '-' :: (padDigits 2 time.date.day ++ 'T' :: (padDigits 2 time.hour ++
    ':' :: (padDigits 2 time.minute ++ ':' :: (padDigits 2 time.second ++
    (printFraction time.nanos ++ printZone time.zone))))))

/-- `MarshalJSON` without the quotes: nothing for a year outside 0 to 9999, or a zone a day away. -/
def Timestamp.marshal (time : Timestamp) : Option (List Char) :=
  if 0 ≤ time.date.year ∧ time.date.year ≤ 9999 ∧ time.zone.natAbs < 1440 then
    some time.print
  else
    none

def readNum (width : Nat) (chars : List Char) : Option (Nat × List Char) :=
  if (chars.take width).length = width ∧ (chars.take width).all Char.isDigit then
    some (Nat.ofDigitChars 10 (chars.take width) 0, chars.drop width)
  else
    none

def readChar (expected : Char) : List Char → Option (List Char)
  | [] => none
  | c :: rest => if c = expected then some rest else none

def readFraction : List Char → Option (Nat × List Char)
  | '.' :: rest =>
    let digits := rest.takeWhile Char.isDigit
    let counted := digits.take 9
    if digits = [] then
      none
    else
      some (Nat.ofDigitChars 10 (counted ++ List.replicate (9 - counted.length) '0') 0,
        rest.dropWhile Char.isDigit)
  | rest => some (0, rest)

def readZone : List Char → Option (Int × List Char)
  | 'Z' :: rest => some (0, rest)
  | sign :: rest => do
    let (hours, rest) ← readNum 2 rest
    let rest ← readChar ':' rest
    let (minutes, rest) ← readNum 2 rest
    if hours < 24 ∧ minutes < 60 then
      if sign = '+' then some ((hours * 60 + minutes : Nat), rest)
      else if sign = '-' then some (-(hours * 60 + minutes : Nat), rest)
      else none
    else
      none
  | [] => none

/-- `UnmarshalJSON` without the quotes. -/
def Timestamp.unmarshal (chars : List Char) : Option Timestamp := do
  let (year, chars) ← readNum 4 chars
  let chars ← readChar '-' chars
  let (month, chars) ← readNum 2 chars
  let chars ← readChar '-' chars
  let (day, chars) ← readNum 2 chars
  let chars ← readChar 'T' chars
  let (hour, chars) ← readNum 2 chars
  let chars ← readChar ':' chars
  let (minute, chars) ← readNum 2 chars
  let chars ← readChar ':' chars
  let (second, chars) ← readNum 2 chars
  let (nanos, chars) ← readFraction chars
  let (zone, chars) ← readZone chars
  let date : Date := { year, month, day }
  if valid : date.Valid ∧ (hour < 24 ∧ minute < 60 ∧ second < 60 ∧ nanos < 10 ^ 9) ∧ chars = [] then
    some { date, hour, minute, second, nanos, zone, validDate := valid.1, validTime := valid.2.1 }
  else
    none

/-! ### Reading back what was printed -/

theorem readNum_padDigits {width value : Nat} (positive : 0 < width) (fits : value < 10 ^ width)
    (rest : List Char) : readNum width (padDigits width value ++ rest) = some (value, rest) := by
  have length := length_padDigits positive fits
  have front : (padDigits width value ++ rest).take width = padDigits width value :=
    take_left' length
  have back : (padDigits width value ++ rest).drop width = rest := drop_left' length
  have digits : (padDigits width value).all Char.isDigit = true :=
    all_eq_true.mpr fun _ member => isDigit_of_mem_padDigits member
  rw [readNum, front, back, if_pos ⟨length, digits⟩, ofDigitChars_padDigits]

@[simp] theorem readChar_self (c : Char) (rest : List Char) : readChar c (c :: rest) = some rest := by
  simp [readChar]

theorem printZone_head (zone : Int) :
    ∃ c rest, printZone zone = c :: rest ∧ c.isDigit = false ∧ c ≠ '.' := by
  unfold printZone
  split
  · exact ⟨'Z', [], rfl, by decide, by decide⟩
  · split
    · exact ⟨'-', _, rfl, by decide, by decide⟩
    · exact ⟨'+', _, rfl, by decide, by decide⟩

theorem readZone_printZone {zone : Int} (near : zone.natAbs < 1440) (rest : List Char) :
    readZone (printZone zone ++ rest) = some (zone, rest) := by
  unfold printZone
  generalize magnitude : zone.natAbs = size at near ⊢
  split
  · rename_i utc
    rw [utc]
    rfl
  · have hours := readNum_padDigits (show 0 < 2 by decide) (show size / 60 < 10 ^ 2 by omega)
    have minutes := readNum_padDigits (show 0 < 2 by decide) (show size % 60 < 10 ^ 2 by omega)
    have fits : size / 60 < 24 ∧ size % 60 < 60 := by omega
    split
    · simp [readZone, hours, minutes, fits]
      omega
    · simp [readZone, hours, minutes, fits]
      omega

theorem readFraction_printFraction {nanos : Nat} (small : nanos < 10 ^ 9) (zone : Int)
    (rest : List Char) :
    readFraction (printFraction nanos ++ (printZone zone ++ rest)) =
      some (nanos, printZone zone ++ rest) := by
  obtain ⟨c, more, shape, notDigit, notPoint⟩ := printZone_head zone
  rw [shape, cons_append]
  unfold printFraction
  split
  · rename_i zero
    rw [zero, nil_append, readFraction]
    · exact fun _ same => notPoint (List.cons.inj same).1
  · rename_i positive
    -- What is dropped are zeros, and reading puts them back.
    have split := rdropWhile_append_rtakeWhile (p := fun c => decide (c = '0'))
      (l := padDigits 9 nanos)
    have zeros : (padDigits 9 nanos).rtakeWhile (· = '0') =
        List.replicate ((padDigits 9 nanos).rtakeWhile (· = '0')).length '0' := by
      refine eq_replicate_of_mem fun c member => ?_
      exact of_decide_eq_true (mem_rtakeWhile_imp (p := fun c => decide (c = '0')) member)
    have length := length_padDigits (show 0 < 9 by decide) small
    have lengths := congrArg List.length split
    rw [length_append, length] at lengths
    have digits : ∀ c ∈ (padDigits 9 nanos).rdropWhile (· = '0'), c.isDigit = true := by
      intro c member
      exact isDigit_of_mem_padDigits ((List.rdropWhile_prefix _ _).subset member)
    have nonempty : (padDigits 9 nanos).rdropWhile (· = '0') ≠ [] := by
      intro empty
      rw [empty, nil_append] at split
      rw [split] at zeros
      have value := ofDigitChars_padDigits 9 nanos
      rw [zeros, length] at value
      exact positive (value.symm.trans (by decide))
    have taken : ((padDigits 9 nanos).rdropWhile (· = '0') ++ c :: (more ++ rest)).takeWhile
        Char.isDigit = (padDigits 9 nanos).rdropWhile (· = '0') := by
      rw [takeWhile_append_of_pos digits]
      simp [notDigit]
    have left : ((padDigits 9 nanos).rdropWhile (· = '0') ++ c :: (more ++ rest)).dropWhile
        Char.isDigit = c :: (more ++ rest) := by
      rw [dropWhile_append_of_pos digits]
      simp [notDigit]
    have counted : ((padDigits 9 nanos).rdropWhile (· = '0')).take 9 =
        (padDigits 9 nanos).rdropWhile (· = '0') := by
      refine take_of_length_le ?_
      omega
    have padded : (padDigits 9 nanos).rdropWhile (· = '0') ++ List.replicate
        (9 - ((padDigits 9 nanos).rdropWhile (· = '0')).length) '0' = padDigits 9 nanos := by
      rw [show 9 - ((padDigits 9 nanos).rdropWhile (· = '0')).length =
        ((padDigits 9 nanos).rtakeWhile (· = '0')).length by omega, ← zeros, split]
    rw [cons_append, readFraction, taken, left, counted, padded, if_neg nonempty,
      ofDigitChars_padDigits]

theorem unmarshal_marshal {time : Timestamp} {chars : List Char}
    (printed : time.marshal = some chars) : Timestamp.unmarshal chars = some time := by
  unfold Timestamp.marshal at printed
  split at printed
  · rename_i range
    cases printed
    obtain ⟨⟨monthLow, monthHigh, dayLow, dayHigh⟩, hour, minute, second, nanos⟩ :=
      And.intro time.validDate time.validTime
    have dayBound : daysIn time.date.month time.date.year ≤ 31 := by
      unfold daysIn
      split_ifs <;> decide
    have year : ((time.date.year.natAbs : Nat) : Int) = time.date.year := by omega
    have zoneRead := readZone_printZone range.2.2 []
    rw [append_nil] at zoneRead
    have fractionRead := readFraction_printFraction nanos time.zone []
    rw [append_nil] at fractionRead
    have two : 0 < 2 := by decide
    simp only [Timestamp.unmarshal, Timestamp.print, bind, Option.bind, readChar_self, fractionRead,
      zoneRead,
      readNum_padDigits (show 0 < 4 by decide) (show time.date.year.natAbs < 10 ^ 4 by omega),
      readNum_padDigits two (show time.date.month < 10 ^ 2 by omega),
      readNum_padDigits two (show time.date.day < 10 ^ 2 by omega),
      readNum_padDigits two (show time.hour < 10 ^ 2 by omega),
      readNum_padDigits two (show time.minute < 10 ^ 2 by omega),
      readNum_padDigits two (show time.second < 10 ^ 2 by omega)]
    simp only [year]
    rw [dif_pos ⟨time.validDate, time.validTime, trivial⟩]
  · cases printed

end Foundation
