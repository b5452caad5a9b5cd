/-
Purpose: Bytes, UTF-8, hexadecimal text and line reading; Go's `bufio.Scanner` and `strings.TrimSpace`; texts,
  lines and paths as Rust treats them.
-/
import Mathlib.Data.List.DropRight

namespace Foundation

open List

abbrev Bytes := List UInt8

def utf8 (text : String) : Bytes :=
  text.toList.flatMap String.utf8EncodeChar

def fromUtf8? (bytes : Bytes) : Option String :=
  String.fromUTF8? bytes.toByteArray

theorem utf8_toByteArray (text : String) : (utf8 text).toByteArray = text.toByteArray :=
  String.utf8Encode_toList

@[simp] theorem fromUtf8?_utf8 (text : String) : fromUtf8? (utf8 text) = some text := by
  have valid : (utf8 text).toByteArray.IsValidUTF8 := by
    rw [utf8_toByteArray]
    exact text.isValidUTF8
  unfold fromUtf8? String.fromUTF8?
  rw [dif_pos valid]
  congr 1
  apply String.toByteArray_inj.mp
  exact utf8_toByteArray text

theorem utf8_injective : Function.Injective utf8 := by
  intro first second equality
  have decoded := congrArg fromUtf8? equality
  simpa using decoded

@[simp] theorem utf8_append (first second : String) :
    utf8 (first ++ second) = utf8 first ++ utf8 second := by
  simp [utf8]

theorem length_le_utf8 (text : String) : text.length ≤ (utf8 text).length := by
  have chars : ∀ chars : List Char, chars.length ≤ (chars.flatMap String.utf8EncodeChar).length := by
    intro chars
    induction chars with
    | nil => exact Nat.le_refl _
    | cons c chars ih =>
      have one : 0 < (String.utf8EncodeChar c).length := by
        rw [String.length_utf8EncodeChar]
        exact Char.utf8Size_pos c
      rw [flatMap_cons, length_append, length_cons]
      omega
  have counted := chars text.toList
  rwa [String.length_toList] at counted

/-- Every byte of a character outside ASCII is at least `0x80`, so an ASCII byte of the encoding is
an ASCII character of the text. -/
theorem ascii_mem_utf8EncodeChar {c : Char} {byte : UInt8} (ascii : byte.toNat < 0x80)
    (member : byte ∈ String.utf8EncodeChar c) : c.toNat = byte.toNat := by
  unfold String.utf8EncodeChar at member
  have small : ∀ value : Nat, value < 256 → (UInt8.ofNat value).toNat = value := by
    intro value below
    simp [UInt8.toNat_ofNat', Nat.mod_eq_of_lt below]
  simp only at member
  split at member
  · rw [mem_singleton] at member
    subst member
    rw [small _ (by omega)]
    rfl
  · exfalso
    split at member
    · simp only [mem_cons, not_mem_nil, or_false] at member
      rcases member with rfl | rfl <;> rw [small _ (by omega)] at ascii <;> omega
    · split at member
      · simp only [mem_cons, not_mem_nil, or_false] at member
        rcases member with rfl | rfl | rfl <;> rw [small _ (by omega)] at ascii <;> omega
      · simp only [mem_cons, not_mem_nil, or_false] at member
        rcases member with rfl | rfl | rfl | rfl <;> rw [small _ (by omega)] at ascii <;> omega

def newline : UInt8 := 10

theorem not_mem_of_mem_splitOn {separator : UInt8} {text piece : Bytes} (member : piece ∈ text.splitOn separator) :
    separator ∉ piece := by
  by_cases inside : separator ∈ text
  · obtain ⟨front, rest, rfl, absent⟩ := List.eq_append_cons_of_mem inside
    rw [List.splitOn_append_cons_self_of_not_mem absent] at member
    rcases List.mem_cons.mp member with rfl | later
    · exact absent
    · exact not_mem_of_mem_splitOn later
  · rw [List.splitOn_eq_singleton inside, List.mem_singleton] at member
    exact member ▸ inside
termination_by text.length

theorem newline_not_mem_utf8 {text : String} (absent : '\n' ∉ text.toList) :
    newline ∉ utf8 text := by
  intro member
  obtain ⟨c, inText, encoded⟩ := mem_flatMap.mp member
  have code : c.toNat = newline.toNat := ascii_mem_utf8EncodeChar (by decide) encoded
  have same : c = '\n' := Char.toNat_inj.mp code
  exact absent (same ▸ inText)

/-! ### Hexadecimal text -/

def hexDigit (value : Nat) : Char :=
  if value < 10 then Char.ofNat (48 + value) else Char.ofNat (87 + value)

def hexByte (byte : UInt8) : List Char :=
  [hexDigit (byte.toNat / 16), hexDigit (byte.toNat % 16)]

def hexEncode (bytes : Bytes) : String :=
  String.ofList (bytes.flatMap hexByte)

theorem hexDigit_injective {first second : Nat} (firstBound : first < 16)
    (secondBound : second < 16) (equality : hexDigit first = hexDigit second) : first = second := by
  have table : ∀ a < 16, ∀ b < 16, hexDigit a = hexDigit b → a = b := by decide
  exact table first firstBound second secondBound equality

theorem hexByte_injective {first second : UInt8} (equality : hexByte first = hexByte second) :
    first = second := by
  simp only [hexByte, List.cons.injEq, and_true] at equality
  have firstBound := first.toNat_lt
  have secondBound := second.toNat_lt
  have high := hexDigit_injective (by omega) (by omega) equality.1
  have low := hexDigit_injective (by omega) (by omega) equality.2
  apply UInt8.toNat_inj.mp
  omega

theorem hexEncode_injective {first second : Bytes}
    (equality : hexEncode first = hexEncode second) : first = second := by
  have digits : first.flatMap hexByte = second.flatMap hexByte := String.ofList_injective equality
  clear equality
  induction first generalizing second with
  | nil =>
    cases second with
    | nil => rfl
    | cons byte rest => simp [hexByte] at digits
  | cons byte rest ih =>
    cases second with
    | nil => simp [hexByte] at digits
    | cons other others =>
      obtain ⟨head, tail⟩ := append_inj digits rfl
      rw [hexByte_injective head, ih tail]

theorem length_utf8_hexEncode (bytes : Bytes) :
    (utf8 (hexEncode bytes)).length = 2 * bytes.length := by
  have single : ∀ value < 16, (String.utf8EncodeChar (hexDigit value)).length = 1 := by decide
  simp only [utf8, hexEncode, String.toList_ofList]
  induction bytes with
  | nil => rfl
  | cons byte rest ih =>
    have bound := byte.toNat_lt
    simp only [flatMap_cons, flatMap_append, length_append, ih,
      length_cons]
    simp only [hexByte, flatMap_cons, flatMap_nil, append_nil, length_append,
      single _ (show byte.toNat / 16 < 16 by omega), single _ (show byte.toNat % 16 < 16 by omega)]
    omega

/-! ### Reading lines

A buffered reader hands out the bytes up to and including the next newline; the piece after the last
newline counts as a line when it is not empty. -/

def cutLines : Bytes → List Bytes
  | [] => []
  | byte :: rest =>
    if byte = newline then
      [byte] :: cutLines rest
    else
      match cutLines rest with
      | [] => [[byte]]
      | piece :: pieces => (byte :: piece) :: pieces

def chompLine (text : String) : String :=
  match text.toList.reverse with
  | '\n' :: '\r' :: reversed => String.ofList reversed.reverse
  | '\n' :: reversed => String.ofList reversed.reverse
  | _ => text

/-- The lines of a file; `none` stands for a line that is not valid UTF-8. -/
def readLines (bytes : Bytes) : List (Option String) :=
  (cutLines bytes).map fun piece => (fromUtf8? piece).map chompLine

theorem cutLines_cons {line : Bytes} (absent : newline ∉ line) (rest : Bytes) :
    cutLines (line ++ newline :: rest) = (line ++ [newline]) :: cutLines rest := by
  induction line with
  | nil => simp [cutLines]
  | cons byte line ih =>
    simp only [mem_cons, not_or] at absent
    have different : byte ≠ newline := fun same => absent.1 same.symm
    simp [cutLines, different, ih absent.2]

/-- A text that holds no newline and does not end in a carriage return is one line, read back as
written. -/
theorem readLines_cons {text : String} (absent : '\n' ∉ text.toList)
    (noReturn : text.toList.getLast? ≠ some '\r') (rest : Bytes) :
    readLines (utf8 text ++ newline :: rest) = some text :: readLines rest := by
  have encoded : utf8 text ++ [newline] = utf8 (text ++ "\n") := by
    rw [utf8_append]
    rfl
  have chomped : chompLine (text ++ "\n") = text := by
    have reversed : (text ++ "\n").toList.reverse = '\n' :: text.toList.reverse := by
      simp
    unfold chompLine
    rw [reversed]
    cases shape : text.toList.reverse with
    | nil =>
      have empty : text.toList = [] := by simpa using shape
      simp [empty, ← String.toList_inj]
    | cons last front =>
      have isLast : text.toList.getLast? = some last := by
        rw [← head?_reverse, shape]
        rfl
      have different : last ≠ '\r' := by
        intro same
        exact noReturn (same ▸ isLast)
      have whole : text.toList = (last :: front).reverse := by
        rw [← shape, reverse_reverse]
      split
      · rename_i other equality
        simp only [List.cons.injEq, true_and] at equality
        exact absurd equality.1 different
      · rename_i other equality
        simp only [List.cons.injEq, true_and] at equality
        rw [← equality, ← whole, String.ofList_toList]
      · rename_i unmatched
        exact False.elim (unmatched _ rfl)
  unfold readLines
  rw [cutLines_cons (newline_not_mem_utf8 absent), map_cons, encoded, fromUtf8?_utf8,
    Option.map_some, chomped]

end Foundation

/-! ### Go's line scanner -/

namespace Foundation.Scanner

open List

/-- `bufio.MaxScanTokenSize`: the buffer holds a line together with its newline. -/
def scanLimit : Nat := 64 * 1024

/-- `dropCR`. -/
def dropReturn (line : Bytes) : Bytes :=
  if line.getLast? = some 13 then line.dropLast else line

inductive ScanEnd where
  /-- The input has ended. -/
  | eof
  /-- `bufio.ErrTooLong`. -/
  | tooLong
  /-- The scanner waits for more input. -/
  | pending
deriving DecidableEq

structure Scan where
  tokens : List Bytes
  ending : ScanEnd

def Scan.cons (token : Bytes) (scan : Scan) : Scan :=
  { scan with tokens := token :: scan.tokens }

/-- Scan on, with the part of the current line that has been read. The last line counts without a
newline once the input is closed. -/
def scanFrom (closed : Bool) : Bytes → Bytes → Scan
  | line, [] =>
    if scanLimit ≤ line.length then
      { tokens := [], ending := .tooLong }
    else if closed then
      { tokens := if line = [] then [] else [dropReturn line], ending := .eof }
    else
      { tokens := [], ending := .pending }
  | line, byte :: rest =>
    if scanLimit ≤ line.length then
      { tokens := [], ending := .tooLong }
    else if byte = newline then
      (scanFrom closed [] rest).cons (dropReturn line)
    else
      scanFrom closed (line ++ [byte]) rest

/-- What a scanner makes of the bytes written so far, to an input that is closed or still open. -/
def scan (closed : Bool) (bytes : Bytes) : Scan :=
  scanFrom closed [] bytes

variable {closed : Bool} {line read bytes : Bytes}

theorem scanFrom_of_long (long : scanLimit ≤ line.length)
    (rest : Bytes) : scanFrom closed line rest = { tokens := [], ending := .tooLong } := by
  cases rest <;> rw [scanFrom, if_pos long]

theorem scanFrom_line (absent : newline ∉ line)
    (short : (read ++ line).length < scanLimit) (rest : Bytes) :
    scanFrom closed read (line ++ newline :: rest) =
      (scanFrom closed [] rest).cons (dropReturn (read ++ line)) := by
  induction line generalizing read with
  | nil =>
    rw [append_nil] at short ⊢
    rw [nil_append, scanFrom, if_neg (by omega), if_pos rfl]
  | cons byte line ih =>
    rw [mem_cons, not_or] at absent
    rw [append_cons read] at short ⊢
    have shorter : ¬ scanLimit ≤ read.length := by
      rw [length_append, length_append] at short
      omega
    rw [cons_append, scanFrom, if_neg shorter, if_neg (Ne.symm absent.1)]
    exact ih absent.2 short

theorem scanFrom_tooLong (absent : newline ∉ line)
    (long : scanLimit ≤ (read ++ line).length) (rest : Bytes) :
    scanFrom closed read (line ++ rest) = { tokens := [], ending := .tooLong } := by
  induction line generalizing read with
  | nil =>
    rw [append_nil] at long
    exact scanFrom_of_long long rest
  | cons byte line ih =>
    rw [mem_cons, not_or] at absent
    rw [append_cons read] at long
    by_cases already : scanLimit ≤ read.length
    · exact scanFrom_of_long already _
    · rw [cons_append, scanFrom, if_neg already, if_neg (Ne.symm absent.1)]
      exact ih absent.2 long

theorem scan_line (absent : newline ∉ line) (short : line.length < scanLimit) (rest : Bytes) :
    scan closed (line ++ newline :: rest) = (scan closed rest).cons (dropReturn line) :=
  scanFrom_line absent (show ([] ++ line).length < scanLimit from short) rest

theorem scan_tooLong (absent : newline ∉ line) (long : scanLimit ≤ line.length) (rest : Bytes) :
    scan closed (line ++ rest) = { tokens := [], ending := .tooLong } :=
  scanFrom_tooLong absent (show scanLimit ≤ ([] ++ line).length from long) rest

/-- A scanner that has stopped at a line too long does not see what is written later. -/
theorem scan_append_of_tooLong (stopped : (scan false bytes).ending = .tooLong)
    (closed : Bool) (more : Bytes) : scan closed (bytes ++ more) = scan false bytes := by
  unfold scan at stopped ⊢
  generalize ([] : Bytes) = read at stopped ⊢
  fun_induction scanFrom false read bytes with
  | case1 line long | case4 line byte rest long => exact scanFrom_of_long long _
  | case2 | case3 => cases stopped
  | case5 line rest short ih =>
    rw [cons_append, scanFrom, if_neg short, if_pos rfl, ih stopped]
  | case6 line byte rest short inside ih =>
    rw [cons_append, scanFrom, if_neg short, if_neg inside, ih stopped]

theorem scan_open_ending (bytes : Bytes) : (scan false bytes).ending ≠ .eof := by
  unfold scan
  generalize ([] : Bytes) = read
  fun_induction scanFrom false read bytes <;> simp_all [Scan.cons]

theorem lines_induction {Holds : Bytes → Prop} (last : ∀ line, newline ∉ line → Holds line)
    (line : ∀ line rest, newline ∉ line → Holds rest → Holds (line ++ newline :: rest))
    (bytes : Bytes) : Holds bytes := by
  by_cases member : newline ∈ bytes
  · obtain ⟨first, rest, shape, absent⟩ := eq_append_cons_of_mem member
    have shorter : rest.length < bytes.length := by
      rw [shape, length_append, length_cons]
      omega
    rw [shape]
    exact line first rest absent (lines_induction last line rest)
  · exact last bytes member
termination_by bytes.length

theorem scan_last (absent : newline ∉ line) (short : line.length < scanLimit) :
    scan true line = { tokens := if line = [] then [] else [dropReturn line], ending := .eof } := by
  have general : ∀ line read : Bytes, newline ∉ line → (read ++ line).length < scanLimit →
      scanFrom true read line =
        { tokens := if read ++ line = [] then [] else [dropReturn (read ++ line)], ending := .eof } := by
    intro line read absent short
    fun_induction scanFrom true read line <;> simp_all <;> omega
  exact general line [] absent short

/-- A closed stream whose lines all fit is scanned to its end; the tokens that are not empty are its
lines that are not. -/
theorem scan_closed_short (short : ∀ line ∈ bytes.splitOn newline, line.length < scanLimit) :
    (scan true bytes).ending = .eof ∧
      (scan true bytes).tokens.filter (· ≠ []) =
        ((bytes.splitOn newline).map dropReturn).filter (· ≠ []) := by
  induction bytes using lines_induction with
  | last line absent =>
    rw [splitOn_eq_singleton absent] at short ⊢
    rw [scan_last absent (short line (mem_singleton_self line))]
    refine ⟨rfl, ?_⟩
    by_cases empty : line = []
    · simp [empty, dropReturn]
    · simp [empty]
  | line line rest absent ih =>
    rw [splitOn_append_cons_self_of_not_mem absent] at short ⊢
    obtain ⟨first, others⟩ := forall_mem_cons.mp short
    obtain ⟨ends, tokens⟩ := ih others
    rw [scan_line absent first]
    refine ⟨ends, ?_⟩
    rw [Scan.cons, map_cons, filter_cons, filter_cons, tokens]

theorem scan_closed_long (long : ∃ line ∈ bytes.splitOn newline, scanLimit ≤ line.length) :
    (scan true bytes).ending = .tooLong := by
  induction bytes using lines_induction with
  | last line absent =>
    rw [splitOn_eq_singleton absent] at long
    obtain ⟨_, member, tooLong⟩ := long
    rw [mem_singleton.mp member] at tooLong
    have stopped : scan true (line ++ []) = _ := scan_tooLong absent tooLong []
    rw [append_nil] at stopped
    rw [stopped]
  | line line rest absent ih =>
    rw [splitOn_append_cons_self_of_not_mem absent] at long
    by_cases first : line.length < scanLimit
    · rw [scan_line absent first]
      obtain ⟨other, member, tooLong⟩ := long
      rcases mem_cons.mp member with rfl | later
      · omega
      · exact ih ⟨other, later, tooLong⟩
    · rw [scan_tooLong absent (Nat.le_of_not_lt first)]

/-- The number of bytes that are read on, with the part of the current line that has been read. -/
def readOn : Bytes → Bytes → Nat
  | _, [] => 0
  | line, byte :: rest =>
    if scanLimit ≤ line.length then 0
    else if byte = newline then readOn [] rest + 1
    else readOn (line ++ [byte]) rest + 1

def bytesRead (bytes : Bytes) : Nat :=
  readOn [] bytes

theorem bytesRead_of_eof (ends : (scan true bytes).ending = .eof) :
    bytesRead bytes = bytes.length := by
  unfold scan at ends
  unfold bytesRead
  generalize ([] : Bytes) = read at ends ⊢
  fun_induction scanFrom true read bytes with
  | case1 | case2 | case3 => rfl
  | case4 => cases ends
  | case5 line rest short ih => rw [readOn, if_neg short, if_pos rfl, ih ends, length_cons]
  | case6 line byte rest short inside ih =>
    rw [readOn, if_neg short, if_neg inside, ih ends, length_cons]

/-- The UTF-8 bytes of the characters `unicode.IsSpace` accepts. -/
def spaces : List Bytes :=
  [[9], [10], [11], [12], [13], [32], [0xC2, 0x85], [0xC2, 0xA0], [0xE1, 0x9A, 0x80]] ++
    (List.range 11).map (fun index => [0xE2, 0x80, UInt8.ofNat (0x80 + index)]) ++
    [[0xE2, 0x80, 0xA8], [0xE2, 0x80, 0xA9], [0xE2, 0x80, 0xAF], [0xE2, 0x81, 0x9F],
      [0xE3, 0x80, 0x80]]

/-- Drop the leading occurrences of these byte sequences, at most as many as `fuel`. -/
def dropAll (sequences : List Bytes) : Nat → Bytes → Bytes
  | 0, bytes => bytes
  | fuel + 1, bytes =>
    match sequences.find? (·.isPrefixOf bytes) with
    | some sequence => dropAll sequences fuel (bytes.drop sequence.length)
    | none => bytes

/-- `strings.TrimSpace`. -/
def trimSpace (bytes : Bytes) : Bytes :=
  let front := dropAll spaces bytes.length bytes
  (dropAll (spaces.map List.reverse) front.length front.reverse).reverse

example : trimSpace [0xC2, 0xA0, 32, 65, 32, 66, 13, 0xE2, 0x80, 0xA9] = [65, 32, 66] := by decide

end Foundation.Scanner

namespace Foundation.RustText

open List

/-- `char::is_whitespace`: the property `White_Space` of Unicode. -/
def isWhitespace (c : Char) : Bool :=
  let code := c.toNat
  (9 ≤ code && code ≤ 13) || code == 0x20 || code == 0x85 || code == 0xa0 || code == 0x1680 ||
    (0x2000 ≤ code && code ≤ 0x200a) || code == 0x2028 || code == 0x2029 || code == 0x202f ||
    code == 0x205f || code == 0x3000

/-- `str::trim`. -/
def trim (text : String) : String :=
  String.ofList ((text.toList.dropWhile isWhitespace).rdropWhile isWhitespace)

/-- `str::strip_prefix`. -/
def stripLead (lead text : String) : Option String :=
  (lead.toList.isPrefixOf? text.toList).map String.ofList

/-- `str::starts_with`. -/
def startsWith (text lead : String) : Bool :=
  lead.toList.isPrefixOf text.toList

variable {text lead padding : String}

theorem startsWith_iff : startsWith text lead = true ↔ ∃ tail, text = lead ++ tail := by
  rw [startsWith, List.isPrefixOf_iff_prefix]
  constructor
  · rintro ⟨tail, split⟩
    refine ⟨String.ofList tail, String.toList_inj.mp ?_⟩
    rw [String.toList_append, String.toList_ofList, split]
  · rintro ⟨tail, rfl⟩
    rw [String.toList_append]
    exact List.prefix_append _ _

theorem isPrefixOf?_append (lead tail : List Char) : lead.isPrefixOf? (lead ++ tail) = some tail := by
  induction lead with
  | nil => rfl
  | cons c lead ih =>
    rw [cons_append, List.isPrefixOf?, if_pos (beq_self_eq_true c), ih]

@[simp] theorem stripLead_append (lead tail : String) : stripLead lead (lead ++ tail) = some tail := by
  rw [stripLead, String.toList_append, isPrefixOf?_append, Option.map_some, String.ofList_toList]

def isContinuation (byte : UInt8) : Bool :=
  0x80 ≤ byte && byte ≤ 0xBF

/-- The second byte of a character of three or four bytes may follow the first. -/
def mayFollow (first second : UInt8) : Bool :=
  if first = 0xE0 then 0xA0 ≤ second && second ≤ 0xBF
  else if first = 0xED then 0x80 ≤ second && second ≤ 0x9F
  else if first = 0xF0 then 0x90 ≤ second && second ≤ 0xBF
  else if first = 0xF4 then 0x80 ≤ second && second ≤ 0x8F
  else 0xE1 ≤ first && first ≤ 0xF3 && isContinuation second

/-- How many bytes are replaced together where no character begins: all that could have begun one. -/
def invalidLength : Bytes → Nat
  | first :: second :: rest =>
    if mayFollow first second then
      if 0xF0 ≤ first && rest.head?.any isContinuation then 3 else 2
    else 1
  | _ => 1

/-- The characters of some bytes, with a replacement character where there is none. -/
def lossyChars : Nat → Bytes → List Char
  | 0, _ => []
  | _ + 1, [] => []
  | fuel + 1, byte :: rest =>
    match (byte :: rest).toByteArray.utf8DecodeChar? 0 with
    | some c => c :: lossyChars fuel ((byte :: rest).drop c.utf8Size)
    | none => Char.ofNat 0xFFFD :: lossyChars fuel ((byte :: rest).drop (invalidLength (byte :: rest)))

/-- `String::from_utf8_lossy`. -/
def fromUtf8Lossy (bytes : Bytes) : String :=
  String.ofList (lossyChars bytes.length bytes)

def White (text : String) : Prop :=
  ∀ c ∈ text.toList, isWhitespace c = true

theorem White.newline (white : White text) : White (text ++ "\n") := by
  intro c member
  rw [String.toList_append, mem_append] at member
  rcases member with member | member
  · exact white c member
  · rw [show c = '\n' by simpa using member]
    rfl

theorem trim_blank (white : White text) : trim text = "" := by
  rw [trim, dropWhile_eq_nil_iff.mpr white]
  rfl

def BeginsSolid (text : String) : Prop :=
  text.toList.head?.map isWhitespace = some false

def EndsSolid (text : String) : Prop :=
  text.toList.getLast?.map isWhitespace = some false

instance : DecidablePred BeginsSolid :=
  fun text => inferInstanceAs (Decidable (text.toList.head?.map isWhitespace = some false))

instance : DecidablePred EndsSolid :=
  fun text => inferInstanceAs (Decidable (text.toList.getLast?.map isWhitespace = some false))

theorem BeginsSolid.append (begins : BeginsSolid lead) (text : String) :
    BeginsSolid (lead ++ text) := by
  rw [BeginsSolid, String.toList_append, head?_append_of_ne_nil]
  · exact begins
  · intro empty
    rw [BeginsSolid, empty] at begins
    cases begins

theorem EndsSolid.append (ends : EndsSolid text) (lead : String) : EndsSolid (lead ++ text) := by
  rw [EndsSolid, String.toList_append, getLast?_append_of_ne_nil]
  · exact ends
  · intro empty
    rw [EndsSolid, empty] at ends
    cases ends

/-- White space after a text that neither begins nor ends with it is all that is taken away. -/
theorem trim_padded (begins : BeginsSolid text) (ends : EndsSolid text)
    (white : White padding) : trim (text ++ padding) = text := by
  have front : (text ++ padding).toList.dropWhile isWhitespace = text.toList ++ padding.toList := by
    rw [String.toList_append]
    unfold BeginsSolid at begins
    cases chars : text.toList with
    | nil =>
      rw [chars] at begins
      cases begins
    | cons c rest =>
      rw [chars, head?_cons, Option.map_some, Option.some.injEq] at begins
      rw [cons_append, dropWhile_cons_of_neg (by simp [begins])]
  have back : (text.toList ++ padding.toList).rdropWhile isWhitespace = text.toList := by
    rw [List.rdropWhile, reverse_append, dropWhile_append_of_pos fun c member =>
      white c (mem_reverse.mp member)]
    rw [EndsSolid, ← head?_reverse] at ends
    cases reversed : text.toList.reverse with
    | nil =>
      rw [reversed] at ends
      cases ends
    | cons c rest =>
      rw [reversed, head?_cons, Option.map_some, Option.some.injEq] at ends
      rw [dropWhile_cons_of_neg (by simp [ends]), ← reversed, reverse_reverse]
  rw [trim, front, back, String.ofList_toList]

theorem trim_field {keyword : String} (begins : BeginsSolid keyword) (ends : EndsSolid text)
    (white : White padding) : trim (keyword ++ text ++ padding ++ "\n") = keyword ++ text := by
  have split : keyword ++ text ++ padding ++ "\n" = (keyword ++ text) ++ (padding ++ "\n") :=
    String.append_assoc
  rw [split]
  exact trim_padded (begins.append text) (ends.append keyword) white.newline

structure Input where
  bytes : Bytes
  failure : Option String

def readLine (piece : Bytes) : Except String String :=
  match fromUtf8? piece with
  | some text => .ok text
  | none => .error "stream did not contain valid UTF-8"

/-- What the calls of `read_line` give one after the other, up to the end of the input. A failure takes the
place of a line that is not finished. -/
def Input.reads (input : Input) : List (Except String String) :=
  match input.failure with
  | none => (cutLines input.bytes).map readLine
  | some failure =>
    ((cutLines input.bytes).filter (·.getLast? == some newline)).map readLine ++ [.error failure]

@[simp] theorem readLine_utf8 (text : String) : readLine (utf8 text) = .ok text := by
  rw [readLine, fromUtf8?_utf8]

theorem reads_of_lines {lines : List String} (single : ∀ line ∈ lines, '\n' ∉ line.toList) :
    Input.reads ⟨(lines.map fun line => utf8 (line ++ "\n")).flatten, none⟩ =
      lines.map fun line => .ok (line ++ "\n") := by
  induction lines with
  | nil => rfl
  | cons line lines ih =>
    obtain ⟨here, rest⟩ := forall_mem_cons.mp single
    have next := ih rest
    unfold Input.reads at next ⊢
    dsimp only at next ⊢
    have encoded : utf8 (line ++ "\n") = utf8 line ++ [newline] := by
      rw [utf8_append]
      rfl
    rw [map_cons, map_cons, flatten_cons, encoded, append_assoc,
      singleton_append, cutLines_cons (newline_not_mem_utf8 here), map_cons, next,
      ← encoded, readLine_utf8]

end Foundation.RustText

namespace Foundation.RustPath

/-- `std::path::Component`, without the drive letters of other systems. -/
inductive Component where
  | rootDir
  | curDir
  | parentDir
  | normal (name : String)
deriving DecidableEq

def segments (path : String) : List (List Char) :=
  path.toList.splitOn '/'

/-- `Path::has_root`. -/
def hasRoot (path : String) : Bool :=
  path.toList.head? == some '/'

def component (segment : List Char) : Option Component :=
  if segment = [] ∨ segment = ['.'] then none
  else if segment = ['.', '.'] then some .parentDir
  else some (.normal (String.ofList segment))

/-- `Path::components`. A leading dot is the one dot that is kept. -/
def components (path : String) : List Component :=
  let named := (segments path).filterMap component
  if hasRoot path then .rootDir :: named
  else if (segments path).head? = some ['.'] then .curDir :: named
  else named

def enter (place : List String) : Component → List String
  | .rootDir => []
  | .curDir => place
  | .parentDir => place.dropLast
  | .normal name => place ++ [name]

def lexical (path : String) : List String :=
  (components path).foldl enter []

theorem component_eq_parentDir {segment : List Char} :
    component segment = some .parentDir ↔ segment = ['.', '.'] := by
  unfold component
  split_ifs with skipped parent
  · rcases skipped with rfl | rfl <;> simp
  · simp [parent]
  · simp [parent]

theorem parentDir_mem_components {path : String} :
    Component.parentDir ∈ components path ↔ ['.', '.'] ∈ segments path := by
  have named : Component.parentDir ∈ (segments path).filterMap component ↔
      ['.', '.'] ∈ segments path := by
    simp only [List.mem_filterMap, component_eq_parentDir, exists_eq_right]
  unfold components
  split_ifs
  · simpa using named
  · simpa using named
  · exact named

theorem prefix_foldl_enter {components : List Component} {place : List String}
    (descends : ∀ component ∈ components, ∃ name, component = .normal name) :
    place <+: components.foldl enter place := by
  induction components generalizing place with
  | nil => exact List.prefix_rfl
  | cons component components ih =>
    obtain ⟨⟨name, rfl⟩, rest⟩ := List.forall_mem_cons.mp descends
    exact (List.prefix_append place [name]).trans (ih rest)

theorem normal_of_mem_filterMap {pieces : List (List Char)} (level : ['.', '.'] ∉ pieces)
    {found : Component} (member : found ∈ pieces.filterMap component) :
    ∃ name, found = .normal name := by
  obtain ⟨segment, among, read⟩ := List.mem_filterMap.mp member
  unfold component at read
  split_ifs at read with skipped parent
  · exact absurd (parent ▸ among) level
  · exact ⟨_, (Option.some.inj read).symm⟩

end Foundation.RustPath
