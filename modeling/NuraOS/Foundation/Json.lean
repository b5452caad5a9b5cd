/-
Purpose: JSON values, their compact text and a reader for it; JSON as Go's `encoding/json` writes it and as
  Rust's `serde_json` holds it.
-/
import Mathlib.Algebra.Ring.Int.Defs
import NuraOS.Foundation.Text

namespace Foundation

open List

/-- A JSON value. Numbers are whole numbers; an object keeps its fields in order. -/
inductive Json where
  | null
  | bool (value : Bool)
  | num (value : Int)
  | str (value : String)
  | arr (items : List Json)
  | obj (fields : List (String × Json))

namespace Json

/-- One character of a string: quotes, backslashes and control characters are escaped. -/
def escapeChar (c : Char) : List Char :=
  if c = '"' then ['\\', '"']
  else if c = '\\' then ['\\', '\\']
  else if c = '\x08' then ['\\', 'b']
  else if c = '\t' then ['\\', 't']
  else if c = '\n' then ['\\', 'n']
  else if c = '\x0c' then ['\\', 'f']
  else if c = '\r' then ['\\', 'r']
  else if c.toNat < 32 then ['\\', 'u', '0', '0'] ++ (hexByte (UInt8.ofNat c.toNat))
  else [c]

def printString (text : String) : List Char :=
  '"' :: text.toList.flatMap escapeChar ++ ['"']

def printInt : Int → List Char
  | .ofNat value => Nat.toDigits 10 value
  | .negSucc value => '-' :: Nat.toDigits 10 (value + 1)

mutual

def print : Json → List Char
  | .null => ['n', 'u', 'l', 'l']
  | .bool true => ['t', 'r', 'u', 'e']
  | .bool false => ['f', 'a', 'l', 's', 'e']
  | .num value => printInt value
  | .str value => printString value
  | .arr [] => ['[', ']']
  | .arr (item :: items) => '[' :: print item ++ printItems items
  | .obj [] => ['{', '}']
  | .obj ((name, value) :: fields) =>
    '{' :: printString name ++ ':' :: print value ++ printFields fields

def printItems : List Json → List Char
  | [] => [']']
  | item :: items => ',' :: print item ++ printItems items

def printFields : List (String × Json) → List Char
  | [] => ['}']
  | (name, value) :: fields =>
    ',' :: printString name ++ ':' :: print value ++ printFields fields

end

/-! ### Reading -/

def isSpace (c : Char) : Bool :=
  c = ' ' || c = '\t' || c = '\n' || c = '\r'

def skipSpace (chars : List Char) : List Char :=
  chars.dropWhile isSpace

def hexValue (c : Char) : Option Nat :=
  if '0' ≤ c ∧ c ≤ '9' then some (c.toNat - 48)
  else if 'a' ≤ c ∧ c ≤ 'f' then some (c.toNat - 87)
  else if 'A' ≤ c ∧ c ≤ 'F' then some (c.toNat - 55)
  else none

def unicodeEscape (a b c d : Char) : Option Char := do
  let value := (((← hexValue a) * 16 + (← hexValue b)) * 16 + (← hexValue c)) * 16 + (← hexValue d)
  if value < 0xd800 ∨ 0xe000 ≤ value then some (Char.ofNat value) else none

def simpleEscape : Char → Option Char
  | '"' => some '"'
  | '\\' => some '\\'
  | '/' => some '/'
  | 'b' => some '\x08'
  | 'f' => some '\x0c'
  | 'n' => some '\n'
  | 'r' => some '\r'
  | 't' => some '\t'
  | _ => none

def parseString : List Char → Option (List Char × List Char)
  | [] => none
  | '"' :: rest => some ([], rest)
  | '\\' :: 'u' :: a :: b :: c :: d :: rest => do
    let escaped ← unicodeEscape a b c d
    let (text, rest) ← parseString rest
    return (escaped :: text, rest)
  | '\\' :: e :: rest => do
    let escaped ← simpleEscape e
    let (text, rest) ← parseString rest
    return (escaped :: text, rest)
  | c :: rest =>
    if c.toNat < 32 then
      none
    else do
      let (text, rest) ← parseString rest
      return (c :: text, rest)

/-- A natural number without leading zeros, not followed by a fraction or an exponent. -/
def parseNat (chars : List Char) : Option (Nat × List Char) :=
  let digits := chars.takeWhile Char.isDigit
  let rest := chars.dropWhile Char.isDigit
  let value := Nat.ofDigitChars 10 digits 0
  if Nat.toDigits 10 value = digits ∧ rest.head? ≠ some '.' ∧ rest.head? ≠ some 'e' ∧
      rest.head? ≠ some 'E' then
    some (value, rest)
  else
    none

mutual

def parseValue : Nat → List Char → Option (Json × List Char)
  | 0, _ => none
  | fuel + 1, chars =>
    match skipSpace chars with
    | 'n' :: 'u' :: 'l' :: 'l' :: rest => some (.null, rest)
    | 't' :: 'r' :: 'u' :: 'e' :: rest => some (.bool true, rest)
    | 'f' :: 'a' :: 'l' :: 's' :: 'e' :: rest => some (.bool false, rest)
    | '"' :: rest => do
      let (text, rest) ← parseString rest
      return (.str (String.ofList text), rest)
    | '[' :: rest =>
      match skipSpace rest with
      | ']' :: rest => some (.arr [], rest)
      | rest => do
        let (item, rest) ← parseValue fuel rest
        let (items, rest) ← parseItems fuel rest
        return (.arr (item :: items), rest)
    | '{' :: rest =>
      match skipSpace rest with
      | '}' :: rest => some (.obj [], rest)
      | rest => do
        let (field, rest) ← parseField fuel rest
        let (fields, rest) ← parseFields fuel rest
        return (.obj (field :: fields), rest)
    | '-' :: rest => do
      let (value, rest) ← parseNat rest
      return (.num (-(value : Int)), rest)
    | chars => do
      let (value, rest) ← parseNat chars
      return (.num value, rest)

def parseItems : Nat → List Char → Option (List Json × List Char)
  | 0, _ => none
  | fuel + 1, chars =>
    match skipSpace chars with
    | ']' :: rest => some ([], rest)
    | ',' :: rest => do
      let (item, rest) ← parseValue fuel rest
      let (items, rest) ← parseItems fuel rest
      return (item :: items, rest)
    | _ => none

def parseField : Nat → List Char → Option ((String × Json) × List Char)
  | 0, _ => none
  | fuel + 1, chars =>
    match skipSpace chars with
    | '"' :: rest => do
      let (name, rest) ← parseString rest
      match skipSpace rest with
      | ':' :: rest => do
        let (value, rest) ← parseValue fuel rest
        return ((String.ofList name, value), rest)
      | _ => none
    | _ => none

def parseFields : Nat → List Char → Option (List (String × Json) × List Char)
  | 0, _ => none
  | fuel + 1, chars =>
    match skipSpace chars with
    | '}' :: rest => some ([], rest)
    | ',' :: rest => do
      let (field, rest) ← parseField fuel rest
      let (fields, rest) ← parseFields fuel rest
      return (field :: fields, rest)
    | _ => none

end

def parse (chars : List Char) : Option Json :=
  match parseValue (chars.length + 1) chars with
  | some (value, rest) => if skipSpace rest = [] then some value else none
  | none => none

/-! ### Reading back what was printed -/

variable {c : Char} {value : Nat} {rest : List Char}

theorem skipSpace_cons (solid : isSpace c = false) (rest : List Char) :
    skipSpace (c :: rest) = c :: rest := by
  simp [skipSpace, solid]

theorem hexValue_hexDigit (bound : value < 16) : hexValue (hexDigit value) = some value := by
  have table : ∀ v < 16, hexValue (hexDigit v) = some v := by decide
  exact table value bound

theorem parseString_escapeChar (c : Char) (rest : List Char) :
    parseString (escapeChar c ++ rest) =
      (parseString rest).bind fun found => some (c :: found.1, found.2) := by
  unfold escapeChar
  split_ifs with quote backslash backspace tab newline formFeed carriageReturn control
  · simp [quote, parseString, simpleEscape]
  · simp [backslash, parseString, simpleEscape]
  · simp [backspace, parseString, simpleEscape]
  · simp [tab, parseString, simpleEscape]
  · simp [newline, parseString, simpleEscape]
  · simp [formFeed, parseString, simpleEscape]
  · simp [carriageReturn, parseString, simpleEscape]
  · have byte : (UInt8.ofNat c.toNat).toNat = c.toNat := by
      rw [UInt8.toNat_ofNat', Nat.mod_eq_of_lt (Nat.lt_trans control (by decide))]
    have zero : hexValue '0' = some 0 := rfl
    have high := hexValue_hexDigit (show c.toNat / 16 < 16 by omega)
    have low := hexValue_hexDigit (show c.toNat % 16 < 16 by omega)
    have value : c.toNat / 16 * 16 + c.toNat % 16 = c.toNat := by omega
    have small : c.toNat < 0xd800 := Nat.lt_trans control (by decide)
    simp [parseString, hexByte, byte, unicodeEscape, zero, high, low, value, small]
  · rw [singleton_append, parseString.eq_def]
    split
    · rename_i same
      cases same
    · rename_i same
      exact absurd (List.cons.inj same).1 quote
    · rename_i same
      exact absurd (List.cons.inj same).1 backslash
    · rename_i same
      exact absurd (List.cons.inj same).1 backslash
    · rename_i same
      obtain ⟨rfl, rfl⟩ := List.cons.inj same
      rw [if_neg control]
      rfl

theorem parseString_print (text : List Char) (rest : List Char) :
    parseString (text.flatMap escapeChar ++ '"' :: rest) = some (text, rest) := by
  induction text with
  | nil => rfl
  | cons c text ih =>
    rw [flatMap_cons, append_assoc, parseString_escapeChar, ih]
    rfl

def Delimited (rest : List Char) : Prop :=
  ∀ c, rest.head? = some c → c = ',' ∨ c = ']' ∨ c = '}'

theorem isDigit_toDigits (member : c ∈ Nat.toDigits 10 value) : c.isDigit = true :=
  Nat.isDigit_of_mem_toDigits (by decide) (by decide) member

theorem parseNat_toDigits (value : Nat) (delimited : Delimited rest) :
    parseNat (Nat.toDigits 10 value ++ rest) = some (value, rest) := by
  have stops : ∀ c, rest.head? = some c → c.isDigit = false ∧ c ≠ '.' ∧ c ≠ 'e' ∧ c ≠ 'E' := by
    intro c first
    rcases delimited c first with rfl | rfl | rfl <;> decide
  have digits : (Nat.toDigits 10 value ++ rest).takeWhile Char.isDigit = Nat.toDigits 10 value := by
    rw [takeWhile_append_of_pos fun c member => isDigit_toDigits member]
    cases rest with
    | nil => simp
    | cons c rest => simp [(stops c rfl).1]
  have remaining : (Nat.toDigits 10 value ++ rest).dropWhile Char.isDigit = rest := by
    rw [dropWhile_append_of_pos fun c member => isDigit_toDigits member]
    cases rest with
    | nil => rfl
    | cons c rest => simp [(stops c rfl).1]
  have noDot : rest.head? ≠ some '.' := fun first => (stops _ first).2.1 rfl
  have noExponent : rest.head? ≠ some 'e' := fun first => (stops _ first).2.2.1 rfl
  have noBigExponent : rest.head? ≠ some 'E' := fun first => (stops _ first).2.2.2 rfl
  simp [parseNat, digits, remaining, noDot, noExponent, noBigExponent]

theorem solid_of_isDigit (digit : c.isDigit = true) : isSpace c = false ∧ c ≠ ']' := by
  constructor
  · cases space : isSpace c with
    | false => rfl
    | true =>
      simp only [isSpace, Bool.or_eq_true, decide_eq_true_eq] at space
      rcases space with ((rfl | rfl) | rfl) | rfl <;> cases digit
  · rintro rfl
    cases digit

theorem print_cons (value : Json) :
    ∃ c rest, print value = c :: rest ∧ isSpace c = false ∧ c ≠ ']' := by
  match value with
  | .null => exact ⟨_, _, print.eq_1, by decide⟩
  | .bool true => exact ⟨_, _, print.eq_2, by decide⟩
  | .bool false => exact ⟨_, _, print.eq_3, by decide⟩
  | .num (.ofNat number) =>
    obtain ⟨c, rest, digits⟩ := exists_cons_of_ne_nil (Nat.toDigits_ne_nil (n := number) (b := 10))
    have member : c ∈ Nat.toDigits 10 number := by simp [digits]
    exact ⟨c, rest, by rw [print, printInt, digits], solid_of_isDigit (isDigit_toDigits member)⟩
  | .num (.negSucc number) => exact ⟨'-', _, by rw [print, printInt], by decide⟩
  | .str text => exact ⟨'"', _, by rw [print, printString, cons_append], by decide⟩
  | .arr [] => exact ⟨'[', _, by rw [print], by decide⟩
  | .arr (item :: items) => exact ⟨'[', _, by rw [print, cons_append], by decide⟩
  | .obj [] => exact ⟨'{', _, by rw [print], by decide⟩
  | .obj ((name, field) :: fields) => exact ⟨'{', _, by rw [print]; rfl, by decide⟩

theorem skipSpace_print (value : Json) (rest : List Char) :
    skipSpace (print value ++ rest) = print value ++ rest := by
  obtain ⟨c, more, text, solid, -⟩ := print_cons value
  rw [text, cons_append, skipSpace_cons solid]

theorem delimited_cons (ends : c = ',' ∨ c = ']' ∨ c = '}') : Delimited (c :: rest) := by
  rintro d ⟨⟩
  exact ends

theorem delimited_printItems (items : List Json) (rest : List Char) :
    Delimited (printItems items ++ rest) := by
  cases items <;> rw [printItems] <;> exact delimited_cons (by simp)

theorem delimited_printFields (fields : List (String × Json)) (rest : List Char) :
    Delimited (printFields fields ++ rest) := by
  cases fields <;> rw [printFields] <;> exact delimited_cons (by simp)

theorem parseValue_digit (digit : c.isDigit = true) (fuel : Nat) (rest : List Char) :
    parseValue (fuel + 1) (c :: rest) =
      (parseNat (c :: rest)).bind fun found => some (.num found.1, found.2) := by
  rw [parseValue, skipSpace_cons (solid_of_isDigit digit).1]
  split <;> simp_all

theorem parseValue_printInt (value : Int) (fuel : Nat) (delimited : Delimited rest) :
    parseValue (fuel + 1) (printInt value ++ rest) = some (.num value, rest) := by
  cases value with
  | ofNat number =>
    obtain ⟨c, more, digits⟩ := exists_cons_of_ne_nil (Nat.toDigits_ne_nil (n := number) (b := 10))
    have member : c ∈ Nat.toDigits 10 number := by simp [digits]
    rw [printInt, digits, cons_append, parseValue_digit (isDigit_toDigits member),
      ← cons_append, ← digits, parseNat_toDigits number delimited]
    rfl
  | negSucc number =>
    rw [printInt, cons_append, parseValue, skipSpace_cons (by decide)]
    simp [parseNat_toDigits (number + 1) delimited, Int.negSucc_eq]

/-- After its bracket, an array is read as the rest of one is after a comma. -/
theorem parseValue_array (item : Json) (fuel : Nat) (rest : List Char) :
    parseValue (fuel + 1) ('[' :: (print item ++ rest)) =
      (parseItems (fuel + 1) (',' :: (print item ++ rest))).map fun found => (.arr found.1, found.2) := by
  obtain ⟨c, tail, text, -, notClosing⟩ := print_cons item
  rw [parseValue, parseItems, skipSpace_cons (by decide), skipSpace_cons (by decide)]
  simp only [skipSpace_print]
  split
  · simp_all
  · simp only [Option.bind_eq_bind, Option.pure_def, Option.map_bind, Function.comp_def, Option.map_some]

theorem parseField_name (name : String) (fuel : Nat) (text : List Char) :
    parseField (fuel + 1) (printString name ++ ':' :: text) =
      (parseValue fuel text).bind fun found => some ((name, found.1), found.2) := by
  rw [printString, cons_append, cons_append, parseField, skipSpace_cons (by decide),
    append_assoc]
  simp [parseString_print, skipSpace, isSpace]

theorem parseFields_next (name : String) (fuel : Nat) (rest : List Char) :
    parseFields (fuel + 1) (',' :: (printString name ++ rest)) =
      (parseField fuel (printString name ++ rest)).bind fun found =>
        (parseFields fuel found.2).bind fun more => some (found.1 :: more.1, more.2) := by
  rfl

theorem parseValue_object (name : String) (fuel : Nat) (rest : List Char) :
    parseValue (fuel + 1) ('{' :: (printString name ++ rest)) =
      (parseFields (fuel + 1) (',' :: (printString name ++ rest))).map fun found => (.obj found.1, found.2) := by
  simp only [parseFields_next, Option.map_bind, Function.comp_def]
  simp [parseValue, printString, skipSpace, isSpace]

mutual

theorem parseValue_print : ∀ (value : Json) (fuel : Nat) (rest : List Char),
    (print value).length ≤ fuel → Delimited rest →
      parseValue fuel (print value ++ rest) = some (value, rest)
  | .null, fuel + 1, rest, _, _ => by
    simp [print, parseValue, skipSpace, isSpace]
  | .bool true, fuel + 1, rest, _, _ => by
    simp [print, parseValue, skipSpace, isSpace]
  | .bool false, fuel + 1, rest, _, _ => by
    simp [print, parseValue, skipSpace, isSpace]
  | .num value, fuel + 1, rest, _, delimited => by
    rw [print]
    exact parseValue_printInt value fuel delimited
  | .str value, fuel + 1, rest, _, _ => by
    rw [print, printString, cons_append, cons_append, parseValue,
      skipSpace_cons (by decide), append_assoc]
    simp [parseString_print]
  | .arr [], fuel + 1, rest, _, _ => by
    simp [print, parseValue, skipSpace, isSpace]
  | .arr (item :: items), fuel + 1, rest, enough, _ => by
    have listed := parseItems_print (item :: items) (fuel + 1) rest (by simpa [print, printItems] using enough)
    rw [printItems, cons_append, cons_append, append_assoc] at listed
    rw [print, cons_append, cons_append, append_assoc, parseValue_array, listed]
    rfl
  | .obj [], fuel + 1, rest, _, _ => by
    simp [print, parseValue, skipSpace, isSpace]
  | .obj ((name, value) :: fields), fuel + 1, rest, enough, _ => by
    have listed := parseFields_print ((name, value) :: fields) (fuel + 1) rest
      (by simpa [print, printFields] using enough)
    rw [printFields, cons_append, cons_append, cons_append, append_assoc, append_assoc] at listed
    rw [print, cons_append, cons_append, cons_append, append_assoc, append_assoc, parseValue_object, listed]
    rfl
  | value, 0, rest, enough, _ => by
    obtain ⟨c, more, text, -⟩ := print_cons value
    simp [text] at enough

theorem parseItems_print : ∀ (items : List Json) (fuel : Nat) (rest : List Char),
    (printItems items).length ≤ fuel →
      parseItems fuel (printItems items ++ rest) = some (items, rest)
  | [], fuel + 1, rest, _ => by
    simp [printItems, parseItems, skipSpace, isSpace]
  | item :: items, fuel + 1, rest, enough => by
    simp only [printItems, length_cons, length_append, cons_append] at enough
    have first := parseValue_print item fuel (printItems items ++ rest) (by omega)
      (delimited_printItems items rest)
    have later := parseItems_print items fuel rest (by omega)
    rw [printItems, cons_append, cons_append, append_assoc, parseItems, skipSpace_cons (by decide)]
    simp [first, later]
  | items, 0, rest, enough => by
    cases items <;> simp [printItems] at enough

theorem parseFields_print : ∀ (fields : List (String × Json)) (fuel : Nat) (rest : List Char),
    (printFields fields).length ≤ fuel →
      parseFields fuel (printFields fields ++ rest) = some (fields, rest)
  | [], fuel + 1, rest, _ => by
    simp [printFields, parseFields, skipSpace, isSpace]
  | (name, value) :: fields, fuel + 1, rest, enough => by
    simp only [printFields, length_cons, length_append, cons_append] at enough
    obtain ⟨less, rfl⟩ : ∃ less, fuel = less + 1 := ⟨fuel - 1, by omega⟩
    have first := parseValue_print value less (printFields fields ++ rest) (by omega)
      (delimited_printFields fields rest)
    have later := parseFields_print fields (less + 1) rest (by omega)
    have shape : printFields ((name, value) :: fields) ++ rest =
        ',' :: (printString name ++ ':' :: (print value ++ (printFields fields ++ rest))) := by
      simp [printFields]
    rw [shape, parseFields_next, parseField_name, first]
    simp [later]
  | fields, 0, rest, enough => by
    cases fields <;> simp [printFields] at enough

end

theorem parse_print (value : Json) : parse (print value) = some value := by
  have whole := parseValue_print value ((print value).length + 1) [] (Nat.le_succ _)
    (by simp [Delimited])
  rw [append_nil] at whole
  rw [parse, whole]
  rfl

theorem print_injective {first second : Json} (equality : print first = print second) :
    first = second := by
  have parsed := congrArg parse equality
  rw [parse_print, parse_print] at parsed
  exact Option.some.inj parsed

theorem newline_not_mem_escapeChar (c : Char) : '\n' ∉ escapeChar c := by
  have hexDigits : ∀ value < 16, '\n' ≠ hexDigit value := by decide
  unfold escapeChar
  split_ifs with quote backslash backspace tab newline formFeed carriageReturn control
  all_goals try decide
  · have byte : (UInt8.ofNat c.toNat).toNat = c.toNat := by
      rw [UInt8.toNat_ofNat', Nat.mod_eq_of_lt (Nat.lt_trans control (by decide))]
    have high := hexDigits (c.toNat / 16) (by omega)
    have low := hexDigits (c.toNat % 16) (by omega)
    simp [hexByte, byte, high, low]
  · simpa using Ne.symm newline

theorem newline_not_mem_printString (text : String) : '\n' ∉ printString text := by
  simp [printString, newline_not_mem_escapeChar]

theorem newline_not_mem_toDigits (value : Nat) : '\n' ∉ Nat.toDigits 10 value := by
  intro member
  cases isDigit_toDigits member

theorem newline_not_mem_printInt (value : Int) : '\n' ∉ printInt value := by
  cases value with
  | ofNat number => exact newline_not_mem_toDigits number
  | negSucc number => simp [printInt, newline_not_mem_toDigits]

mutual

theorem newline_not_mem_print : ∀ value : Json, '\n' ∉ print value
  | .null => by simp [print]
  | .bool true => by simp [print]
  | .bool false => by simp [print]
  | .num value => by simp [print, newline_not_mem_printInt]
  | .str value => by simp [print, newline_not_mem_printString]
  | .arr [] => by simp [print]
  | .arr (item :: items) => by
    simp [print, newline_not_mem_print item, newline_not_mem_printItems items]
  | .obj [] => by simp [print]
  | .obj ((name, value) :: fields) => by
    simp [print, newline_not_mem_printString, newline_not_mem_print value,
      newline_not_mem_printFields fields]

theorem newline_not_mem_printItems : ∀ items : List Json, '\n' ∉ printItems items
  | [] => by simp [printItems]
  | item :: items => by
    simp [printItems, newline_not_mem_print item, newline_not_mem_printItems items]

theorem newline_not_mem_printFields : ∀ fields : List (String × Json), '\n' ∉ printFields fields
  | [] => by simp [printFields]
  | (name, value) :: fields => by
    simp [printFields, newline_not_mem_printString, newline_not_mem_print value,
      newline_not_mem_printFields fields]

end

theorem printFields_concat (fields : List (String × Json)) :
    ∃ body, printFields fields = body ++ ['}'] := by
  induction fields with
  | nil => exact ⟨[], rfl⟩
  | cons field fields ih =>
    obtain ⟨body, rest⟩ := ih
    obtain ⟨name, value⟩ := field
    exact ⟨',' :: printString name ++ ':' :: print value ++ body, by simp [printFields, rest]⟩

theorem print_obj_braces (fields : List (String × Json)) :
    ∃ body, print (.obj fields) = '{' :: body ++ ['}'] := by
  cases fields with
  | nil => exact ⟨[], by simp [print]⟩
  | cons field fields =>
    obtain ⟨body, rest⟩ := printFields_concat fields
    obtain ⟨name, value⟩ := field
    exact ⟨printString name ++ ':' :: print value ++ body, by simp [print, rest]⟩

theorem length_le_escaped (text : List Char) : text.length ≤ (text.flatMap escapeChar).length := by
  induction text with
  | nil => simp
  | cons c text ih =>
    have one : 1 ≤ (escapeChar c).length := by
      unfold escapeChar
      split_ifs <;> simp
    rw [flatMap_cons, length_append, length_cons]
    omega

theorem length_le_print_str (text : String) : text.length ≤ (print (.str text)).length := by
  have escaped := length_le_escaped text.toList
  rw [String.length_toList] at escaped
  rw [print, printString, length_append, length_cons]
  omega

end Json

end Foundation

namespace Foundation.GoJson

open Json List

/-- The characters of a Go string; nothing stands for a byte that belongs to none. -/
def runesFrom : Nat → Bytes → List (Option Char)
  | 0, _ => []
  | _ + 1, [] => []
  | fuel + 1, byte :: rest =>
    match (byte :: rest).toByteArray.utf8DecodeChar? 0 with
    | some c => some c :: runesFrom fuel ((byte :: rest).drop c.utf8Size)
    | none => none :: runesFrom fuel rest

def runes (bytes : Bytes) : List (Option Char) :=
  runesFrom bytes.length bytes

/-- `utf8.RuneError`. -/
def replacement : Char :=
  Char.ofNat 0xFFFD

def toText (bytes : Bytes) : String :=
  String.ofList ((runes bytes).map (·.getD replacement))

theorem runesFrom_encoded (chars : List Char) (fuel : Nat)
    (enough : (chars.flatMap String.utf8EncodeChar).length ≤ fuel) :
    runesFrom fuel (chars.flatMap String.utf8EncodeChar) = chars.map some := by
  induction chars generalizing fuel with
  | nil => cases fuel <;> rfl
  | cons c chars ih =>
    have size : (String.utf8EncodeChar c).length = c.utf8Size := String.length_utf8EncodeChar c
    have positive := Char.utf8Size_pos c
    rw [flatMap_cons, length_append] at enough
    obtain ⟨less, rfl⟩ : ∃ less, fuel = less + 1 := ⟨fuel - 1, by omega⟩
    obtain ⟨byte, more, shape⟩ : ∃ byte more, String.utf8EncodeChar c = byte :: more := by
      apply exists_cons_of_length_pos
      omega
    have decoded : ((String.utf8EncodeChar c ++ chars.flatMap String.utf8EncodeChar).toByteArray
        ).utf8DecodeChar? 0 = some c := by
      rw [toByteArray_append]
      exact ByteArray.utf8DecodeChar?_utf8EncodeChar_append
    have remaining : (String.utf8EncodeChar c ++ chars.flatMap String.utf8EncodeChar).drop
        c.utf8Size = chars.flatMap String.utf8EncodeChar := by
      rw [← size, drop_left]
    rw [flatMap_cons]
    rw [shape, cons_append] at decoded remaining ⊢
    rw [runesFrom, decoded]
    simp only [remaining]
    rw [ih less (by omega), map_cons]

theorem runes_utf8 (text : String) : runes (utf8 text) = text.toList.map some :=
  runesFrom_encoded text.toList _ (Nat.le_refl _)

@[simp] theorem toText_utf8 (text : String) : toText (utf8 text) = text := by
  unfold toText
  rw [runes_utf8, map_map]
  simp [Function.comp_def]

theorem utf8_toText_eq_iff (bytes : Bytes) :
    utf8 (toText bytes) = bytes ↔ ∃ text, bytes = utf8 text := by
  constructor
  · intro kept
    exact ⟨toText bytes, kept.symm⟩
  · rintro ⟨text, rfl⟩
    rw [toText_utf8]

/-- One character, as `appendString` writes it. -/
def escapeRune : Option Char → List Char
  | none => ['\\', 'u', 'f', 'f', 'f', 'd']
  | some c =>
    if c = '<' ∨ c = '>' ∨ c = '&' then
      ['\\', 'u', '0', '0'] ++ hexByte (UInt8.ofNat c.toNat)
    else if c.toNat = 0x2028 ∨ c.toNat = 0x2029 then
      ['\\', 'u', '2', '0', '2', hexDigit (c.toNat % 16)]
    else
      escapeChar c

theorem parseString_escapeRune (rune : Option Char) (rest : List Char) :
    parseString (escapeRune rune ++ rest) =
      (parseString rest).bind fun found => some (rune.getD replacement :: found.1, found.2) := by
  cases rune with
  | none =>
    have escaped : unicodeEscape 'f' 'f' 'f' 'd' = some replacement := by decide
    simp [escapeRune, parseString, escaped]
  | some c =>
    rw [escapeRune]
    split_ifs with html separator
    · have escaped : ∀ d : Char, d = '<' ∨ d = '>' ∨ d = '&' →
          ∃ first second, hexByte (UInt8.ofNat d.toNat) = [first, second] ∧
            unicodeEscape '0' '0' first second = some d := by
        rintro d (rfl | rfl | rfl) <;> exact ⟨_, _, rfl, by decide⟩
      obtain ⟨first, second, digits, reads⟩ := escaped c html
      simp [digits, parseString, reads]
    · have escaped : unicodeEscape '2' '0' '2' (hexDigit (c.toNat % 16)) = some c := by
        rcases separator with code | code
        · have same : c = Char.ofNat 0x2028 := Char.toNat_inj.mp code
          rw [same]
          decide
        · have same : c = Char.ofNat 0x2029 := Char.toNat_inj.mp code
          rw [same]
          decide
      simp [parseString, escaped]
    · exact parseString_escapeChar c rest

theorem parseString_escapeRunes (found : List (Option Char)) (rest : List Char) :
    parseString (found.flatMap escapeRune ++ '"' :: rest) =
      some (found.map (·.getD replacement), rest) := by
  induction found with
  | nil => rfl
  | cons rune found ih =>
    rw [flatMap_cons, append_assoc, parseString_escapeRune, ih]
    rfl

theorem newline_not_mem_escapeRune (rune : Option Char) : '\n' ∉ escapeRune rune := by
  cases rune with
  | none => decide
  | some c =>
    rw [escapeRune]
    split_ifs with html separator
    · rcases html with rfl | rfl | rfl <;> decide
    · rcases separator with code | code <;> rw [code] <;> decide
    · exact newline_not_mem_escapeChar c

/-! ### Flat objects -/

inductive Value where
  | int (value : Int)
  | text (bytes : Bytes)

def Value.print : Value → List Char
  | .int value => printInt value
  | .text bytes => '"' :: (runes bytes).flatMap escapeRune ++ ['"']

def Value.json : Value → Json
  | .int value => .num value
  | .text bytes => .str (toText bytes)

def printRest : List (String × Value) → List Char
  | [] => ['}']
  | (name, value) :: fields => ',' :: printString name ++ ':' :: value.print ++ printRest fields

def printObject (name : String) (value : Value) (fields : List (String × Value)) : List Char :=
  '{' :: printString name ++ ':' :: value.print ++ printRest fields

theorem parseValue_value (value : Value) (fuel : Nat) {rest : List Char}
    (delimited : Delimited rest) :
    parseValue (fuel + 1) (value.print ++ rest) = some (value.json, rest) := by
  cases value with
  | int value => exact parseValue_printInt value fuel delimited
  | text bytes =>
    rw [Value.print, cons_append, cons_append, parseValue, skipSpace_cons (by decide),
      append_assoc]
    simp [parseString_escapeRunes, Value.json, toText]

theorem delimited_printRest (fields : List (String × Value)) (rest : List Char) :
    Delimited (printRest fields ++ rest) := by
  cases fields <;> exact delimited_cons (by simp)

theorem length_printRest (fields : List (String × Value)) :
    fields.length + 1 ≤ (printRest fields).length := by
  induction fields with
  | nil => simp [printRest]
  | cons field fields ih =>
    rw [printRest]
    simp only [cons_append, length_cons, length_append]
    omega

theorem parseFields_printRest (fields : List (String × Value)) (fuel : Nat) (rest : List Char)
    (enough : fields.length + 3 ≤ fuel) :
    parseFields fuel (printRest fields ++ rest) =
      some (fields.map fun field => (field.1, field.2.json), rest) := by
  induction fields generalizing fuel with
  | nil =>
    obtain ⟨less, rfl⟩ : ∃ less, fuel = less + 1 := ⟨fuel - 1, by simp at enough; omega⟩
    simp [printRest, parseFields, skipSpace, isSpace]
  | cons field fields ih =>
    rw [length_cons] at enough
    obtain ⟨less, rfl⟩ : ∃ less, fuel = less + 3 := ⟨fuel - 3, by omega⟩
    have shape : printRest (field :: fields) ++ rest =
        ',' :: (printString field.1 ++ ':' :: (field.2.print ++ (printRest fields ++ rest))) := by
      simp [printRest]
    have later := ih (less + 2) (by omega)
    rw [shape, parseFields_next, parseField_name,
      parseValue_value field.2 less (delimited_printRest fields rest)]
    simp [later]

theorem parse_printObject (name : String) (value : Value) (fields : List (String × Value)) :
    parse (printObject name value fields) =
      some (.obj ((name, value.json) :: fields.map fun field => (field.1, field.2.json))) := by
  have long := length_printRest fields
  have enough : ((name, value) :: fields).length + 3 ≤ (printObject name value fields).length + 1 := by
    simp only [printObject, printString, cons_append, length_cons, length_append]
    omega
  have listed := parseFields_printRest ((name, value) :: fields) _ [] enough
  rw [printRest, append_nil, cons_append, cons_append, append_assoc] at listed
  rw [parse, printObject, cons_append, cons_append, append_assoc, parseValue_object]
  rw [printObject, cons_append, cons_append, append_assoc] at listed
  rw [listed]
  simp [skipSpace]

theorem newline_not_mem_value (value : Value) : '\n' ∉ value.print := by
  cases value with
  | int value => exact newline_not_mem_printInt value
  | text bytes =>
    have body : '\n' ∉ (runes bytes).flatMap escapeRune := by
      intro member
      obtain ⟨rune, -, escaped⟩ := mem_flatMap.mp member
      exact newline_not_mem_escapeRune rune escaped
    simpa [Value.print] using body

theorem newline_not_mem_printRest (fields : List (String × Value)) : '\n' ∉ printRest fields := by
  induction fields with
  | nil => decide
  | cons field fields ih =>
    have name := newline_not_mem_printString field.1
    have value := newline_not_mem_value field.2
    simp [printRest, name, value, ih]

theorem newline_not_mem_printObject (name : String) (value : Value)
    (fields : List (String × Value)) : '\n' ∉ printObject name value fields := by
  have listed := newline_not_mem_printRest ((name, value) :: fields)
  simpa [printRest, printObject] using listed

theorem printObject_concat (name : String) (value : Value) (fields : List (String × Value)) :
    ∃ front, printObject name value fields = front ++ ['}'] := by
  have rest : ∃ front, printRest fields = front ++ ['}'] := by
    induction fields with
    | nil => exact ⟨[], rfl⟩
    | cons field fields ih =>
      obtain ⟨front, shape⟩ := ih
      exact ⟨_, by rw [printRest, shape, ← append_assoc]⟩
  obtain ⟨front, shape⟩ := rest
  exact ⟨_, by rw [printObject, shape, ← append_assoc]⟩

end Foundation.GoJson

namespace Foundation.GoIndent

open Json List

def newLine (depth : Nat) : List Char :=
  '\n' :: List.replicate (2 * depth) ' '

def block (opening closing : Char) (depth : Nat) (items : List (List Char)) : List Char :=
  if items = [] then
    [opening, closing]
  else
    opening :: List.intercalate [','] (items.map (newLine (depth + 1) ++ ·)) ++ newLine depth ++ [closing]

def field (name : String) (value : List Char) : List Char :=
  printString name ++ [':', ' '] ++ value

def encodedLength (chars : List Char) : Nat :=
  (utf8 (String.ofList chars)).length

theorem encodedLength_cons (c : Char) (chars : List Char) :
    encodedLength (c :: chars) = (String.utf8EncodeChar c).length + encodedLength chars := by
  simp [encodedLength, utf8]

theorem encodedLength_mono {fewer chars : List Char} (sublist : fewer.Sublist chars) :
    encodedLength fewer ≤ encodedLength chars := by
  induction sublist with
  | slnil => exact Nat.le_refl _
  | cons c _ ih =>
    rw [encodedLength_cons]
    exact Nat.le_trans ih (Nat.le_add_left _ _)
  | cons_cons c _ ih =>
    rw [encodedLength_cons, encodedLength_cons]
    exact Nat.add_le_add_left ih _

theorem intercalate_concat (separator : List Char) (front : List (List Char)) (last : List Char) :
    ∃ before, List.intercalate separator (front ++ [last]) = before ++ last := by
  induction front with
  | nil => exact ⟨[], by simp [List.intercalate]⟩
  | cons part front ih =>
    obtain ⟨before, whole⟩ := ih
    refine ⟨part ++ separator ++ before, ?_⟩
    rw [append_assoc, ← whole]
    cases front <;> simp [List.intercalate, List.intersperse]

theorem sublist_block (opening closing : Char) (depth : Nat) (front : List (List Char)) (last : List Char) :
    (block opening closing depth [last]).Sublist (block opening closing depth (front ++ [last])) := by
  obtain ⟨before, whole⟩ := intercalate_concat [','] (front.map (newLine (depth + 1) ++ ·))
    (newLine (depth + 1) ++ last)
  have single : block opening closing depth [last] =
      opening :: (newLine (depth + 1) ++ last ++ newLine depth ++ [closing]) := by
    simp [block, List.intercalate]
  have all : block opening closing depth (front ++ [last]) =
      opening :: (before ++ (newLine (depth + 1) ++ last) ++ newLine depth ++ [closing]) := by
    rw [block, if_neg (by simp), map_append, map_singleton, whole]
    rfl
  rw [single, all]
  refine List.Sublist.cons_cons _ ?_
  simp only [append_assoc]
  exact sublist_append_right _ _

theorem sublist_block_of_mem (opening closing : Char) (depth : Nat) {items : List (List Char)} {item : List Char}
    (member : item ∈ items) : item.Sublist (block opening closing depth items) := by
  have inside : ∀ {parts : List (List Char)} {part : List Char}, part ∈ parts →
      part.Sublist (List.intercalate [','] parts) := by
    intro parts part inParts
    induction parts with
    | nil => cases inParts
    | cons first parts ih =>
      have shape : ∃ between, List.intercalate [','] (first :: parts) =
          first ++ (between ++ List.intercalate [','] parts) := by
        cases parts with
        | nil => exact ⟨[], by simp [List.intercalate]⟩
        | cons second parts => exact ⟨[','], by simp [List.intercalate, List.intersperse]⟩
      obtain ⟨between, whole⟩ := shape
      rw [whole]
      rcases mem_cons.mp inParts with rfl | later
      · exact sublist_append_left _ _
      · exact ((ih later).trans (sublist_append_right _ _)).trans (sublist_append_right _ _)
  have nonempty : items ≠ [] := ne_nil_of_mem member
  rw [block, if_neg nonempty]
  have inLine : item.Sublist (newLine (depth + 1) ++ item) := sublist_append_right _ _
  have inLines := inLine.trans (inside (mem_map_of_mem (f := (newLine (depth + 1) ++ ·)) member))
  exact ((inLines.trans (sublist_cons_self _ _)).trans (sublist_append_left _ _)).trans
    (sublist_append_left _ _)

theorem length_le_encodedLength (chars : List Char) : chars.length ≤ encodedLength chars := by
  have counted := length_le_utf8 (String.ofList chars)
  rwa [String.length_ofList] at counted

end Foundation.GoIndent

namespace Foundation.Serde

open List

/-- `serde_json::Number`: whole numbers that fit in 64 bits, and the bits of a double for all others. -/
inductive Number where
  | posInt (value : UInt64)
  | negInt (value : Int64)
  | float (bits : UInt64)

/-- `serde_json::Value`. The fields of an object stand in the order of their keys, each key once. -/
inductive Value where
  | null
  | bool (value : Bool)
  | number (value : Number)
  | string (text : String)
  | array (items : List Value)
  | object (fields : List (String × Value))

namespace Value

/-- `value.get(key)`. -/
def get (value : Value) (key : String) : Option Value :=
  match value with
  | .object fields => (fields.find? (·.1 == key)).map Prod.snd
  | _ => none

/-- `value[key]`, which is null when there is no such field. -/
def index (value : Value) (key : String) : Value :=
  (value.get key).getD .null

def asStr : Value → Option String
  | .string text => some text
  | _ => none

def asU64 : Value → Option UInt64
  | .number (.posInt value) => some value
  | _ => none

def asBool : Value → Option Bool
  | .bool value => some value
  | _ => none

def asArray : Value → Option (List Value)
  | .array items => some items
  | _ => none

def asObject : Value → Option (List (String × Value))
  | .object fields => some fields
  | _ => none

def isNull : Value → Bool
  | .null => true
  | _ => false

@[simp] theorem index_null (key : String) : index .null key = .null := rfl

@[simp] theorem asStr_null : asStr .null = none := rfl

theorem index_of_get_none {value : Value} {key : String} (missing : value.get key = none) :
    value.index key = .null := by
  rw [index, missing]
  rfl

end Value

/-! ### Objects -/

/-- Put a field in its place; a later field of the same key replaces an earlier one. -/
def insertField (key : String) (value : Value) : List (String × Value) → List (String × Value)
  | [] => [(key, value)]
  | field :: fields =>
    if key < field.1 then (key, value) :: field :: fields
    else if key = field.1 then (key, value) :: fields
    else field :: insertField key value fields

theorem find?_insertField (key name : String) (value : Value) (fields : List (String × Value)) :
    (insertField key value fields).find? (·.1 == name) =
      if key = name then some (key, value) else fields.find? (·.1 == name) := by
  induction fields with
  | nil => by_cases same : key = name <;> simp [insertField, same]
  | cons field fields ih =>
    rw [insertField]
    by_cases same : key = name
    · split_ifs with less equal
      · simp [same]
      · simp [same]
      · have other : (field.1 == name) = false := beq_false_of_ne (same ▸ Ne.symm equal)
        rw [find?_cons_of_neg (by rw [other]; exact Bool.false_ne_true), ih, if_pos same]
    · have other : (key == name) = false := beq_false_of_ne same
      split_ifs with less equal
      · rw [find?_cons_of_neg (by rw [other]; exact Bool.false_ne_true)]
      · have skipped : (field.1 == name) = false := equal ▸ other
        rw [find?_cons_of_neg (by rw [other]; exact Bool.false_ne_true),
          find?_cons_of_neg (by rw [skipped]; exact Bool.false_ne_true)]
      · rw [find?_cons, find?_cons, ih, if_neg same]

/-- `json!` of an object: its fields, put in one after the other. -/
def object (fields : List (String × Value)) : Value :=
  .object (fields.foldl (fun placed field => insertField field.1 field.2 placed) [])

/-- `value[key] = field` for an object. -/
def Value.set (value : Value) (key : String) (field : Value) : Value :=
  match value with
  | .object fields => .object (insertField key field fields)
  | other => other

theorem get_object (fields : List (String × Value)) (name : String) :
    (object fields).get name = (fields.reverse.find? (·.1 == name)).map Prod.snd := by
  induction fields using List.reverseRecOn with
  | nil => rfl
  | append_singleton fields field ih =>
    simp only [object, Value.get] at ih
    rw [object, Value.get, foldl_append, foldl_cons, foldl_nil, find?_insertField,
      reverse_concat, find?_cons]
    by_cases same : field.1 = name
    · rw [if_pos same, beq_iff_eq.mpr same]
    · rw [if_neg same, beq_false_of_ne same, ih]

theorem set_object (fields : List (String × Value)) (key : String) (value : Value) :
    (object fields).set key value = object (fields ++ [(key, value)]) := by
  rw [object, object, foldl_append]
  rfl

/-- `serde_json::from_str`: the value of a text, or why it has none. -/
abbrev Reader := String → Except String Value

/-! ### A reader

Texts whose numbers are whole and fit in 64 bits. -/

mutual

def ofJson : Json → Option Value
  | .null => some .null
  | .bool value => some (.bool value)
  | .num value =>
    if 0 ≤ value ∧ value < 2 ^ 64 then some (.number (.posInt (UInt64.ofNat value.toNat)))
    else if -2 ^ 63 ≤ value ∧ value < 0 then some (.number (.negInt (Int64.ofInt value)))
    else none
  | .str text => some (.string text)
  | .arr items => (ofItems items).map .array
  | .obj fields => (ofFields [] fields).map .object

def ofItems : List Json → Option (List Value)
  | [] => some []
  | item :: items => do
    let value ← ofJson item
    let values ← ofItems items
    return value :: values

def ofFields (done : List (String × Value)) : List (String × Json) → Option (List (String × Value))
  | [] => some done
  | (key, item) :: fields => do
    let value ← ofJson item
    ofFields (insertField key value done) fields

end

def readPlain : Reader := fun text =>
  match (Json.parse text.toList).bind ofJson with
  | some value => .ok value
  | none => .error "expected value"

def plainValue (text : String) : Value :=
  match readPlain text with
  | .ok value => value
  | .error _ => .null

theorem readPlain_of_isOk {text : String} (readable : (readPlain text).isOk = true) :
    readPlain text = .ok (plainValue text) := by
  unfold plainValue
  cases read : readPlain text with
  | ok value => rfl
  | error failure =>
    rw [read] at readable
    cases readable

/-! ### Writing -/

/-- `serde_json::to_string` and `to_string` of a value. How doubles are written is left open; that texts tell values
apart and how strings are written is all that is used. -/
structure Writer where
  toText : Value → String
  injective : Function.Injective toText
  proper : ∀ value, toText value ≠ ""
  string : ∀ text, toText (.string text) = String.ofList (Json.printString text)

theorem Writer.string_append_inj (writer : Writer) {first second restFirst restSecond : String}
    (same : writer.toText (.string first) ++ restFirst = writer.toText (.string second) ++ restSecond) :
    first = second := by
  have chars := congrArg String.toList same
  simp only [writer.string, String.toList_append, String.toList_ofList, Json.printString, cons_append,
    append_assoc, nil_append, List.cons.injEq, true_and] at chars
  have parsed := congrArg Json.parseString chars
  rw [Json.parseString_print, Json.parseString_print] at parsed
  exact String.toList_injective (Prod.mk.inj (Option.some.inj parsed)).1

/-- Whole numbers stand for themselves and doubles for whole numbers beyond all of them. -/
def numberCode : Number → Int
  | .posInt value => value.toNat
  | .negInt value => if value.toInt < 0 then value.toInt else 2 ^ 64 + value.toInt
  | .float bits => 2 ^ 65 + bits.toNat

mutual

def toJson : Value → Json
  | .null => .null
  | .bool value => .bool value
  | .number value => .num (numberCode value)
  | .string text => .str text
  | .array items => .arr (toJsonItems items)
  | .object fields => .obj (toJsonFields fields)

def toJsonItems : List Value → List Json
  | [] => []
  | item :: items => toJson item :: toJsonItems items

def toJsonFields : List (String × Value) → List (String × Json)
  | [] => []
  | (key, value) :: fields => (key, toJson value) :: toJsonFields fields

end

theorem numberCode_injective : Function.Injective numberCode := by
  intro first second same
  have bound (value : UInt64) : value.toNat < 2 ^ 64 := value.toNat_lt
  have range (value : Int64) : -2 ^ 63 ≤ value.toInt ∧ value.toInt < 2 ^ 63 := ⟨value.le_toInt, value.toInt_lt⟩
  cases first with
  | posInt first =>
    cases second with
    | posInt second =>
      have equal : first.toNat = second.toNat := Int.ofNat.inj same
      exact congrArg Number.posInt (UInt64.toNat_inj.mp equal)
    | negInt second => grind [numberCode]
    | float second => grind [numberCode]
  | negInt first =>
    cases second with
    | posInt second => grind [numberCode]
    | negInt second =>
      have equal : first.toInt = second.toInt := by grind [numberCode]
      exact congrArg Number.negInt (Int64.toInt_inj.mp equal)
    | float second => grind [numberCode]
  | float first =>
    cases second with
    | posInt second => grind [numberCode]
    | negInt second => grind [numberCode]
    | float second =>
      have equal : first.toNat = second.toNat := by grind [numberCode]
      exact congrArg Number.float (UInt64.toNat_inj.mp equal)

mutual

theorem toJson_inj : ∀ first second : Value, toJson first = toJson second → first = second
  | .null, second, same => by cases second <;> simp_all [toJson]
  | .bool _, second, same => by cases second <;> simp_all [toJson]
  | .number _, second, same => by
    cases second with
    | number second =>
      rw [toJson, toJson, Json.num.injEq] at same
      exact congrArg Value.number (numberCode_injective same)
    | _ => simp [toJson] at same
  | .string _, second, same => by cases second <;> simp_all [toJson]
  | .array items, second, same => by
    cases second with
    | array others =>
      rw [toJson, toJson, Json.arr.injEq] at same
      exact congrArg Value.array (toJsonItems_inj items others same)
    | _ => simp [toJson] at same
  | .object fields, second, same => by
    cases second with
    | object others =>
      rw [toJson, toJson, Json.obj.injEq] at same
      exact congrArg Value.object (toJsonFields_inj fields others same)
    | _ => simp [toJson] at same

theorem toJsonItems_inj : ∀ first second : List Value, toJsonItems first = toJsonItems second → first = second
  | [], second, same => by cases second <;> simp_all [toJsonItems]
  | item :: items, second, same => by
    cases second with
    | nil => simp [toJsonItems] at same
    | cons other others =>
      rw [toJsonItems, toJsonItems, List.cons.injEq] at same
      rw [toJson_inj item other same.1, toJsonItems_inj items others same.2]

theorem toJsonFields_inj :
    ∀ first second : List (String × Value), toJsonFields first = toJsonFields second → first = second
  | [], second, same => by cases second <;> simp_all [toJsonFields]
  | (key, value) :: fields, second, same => by
    cases second with
    | nil => simp [toJsonFields] at same
    | cons other others =>
      rw [toJsonFields, toJsonFields, List.cons.injEq, Prod.mk.injEq] at same
      rw [toJson_inj value other.2 same.1.2, toJsonFields_inj fields others same.2, same.1.1]

end

def plainWriter : Writer where
  toText value := String.ofList (Json.print (toJson value))
  injective first second same :=
    toJson_inj first second (Json.print_injective (String.ofList_injective same))
  proper value same := by
    obtain ⟨c, rest, shape, -⟩ := Json.print_cons (toJson value)
    rw [shape] at same
    cases String.ofList_injective same
  string text := by rw [toJson, Json.print]

end Foundation.Serde
