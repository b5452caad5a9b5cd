/-
Purpose: What forwarded messages tell about a secret.
-/
import NuraOS.Journal.Journal

namespace NuraOS.Journal

open Foundation Foundation.Regexp Foundation.BytePattern List

/-- The first pass of `redact`. -/
abbrev maskAssignments (text : Bytes) : Bytes :=
  replaceAll assignment redactMatch text

abbrev maskHeaders (text : Bytes) : Bytes :=
  replaceAll bearerHeader redactMatch text

theorem redact_default (message : Bytes) :
    redact message defaultRedactPatterns = maskHeaders (maskAssignments message) :=
  rfl

theorem maskAssignments_nil : maskAssignments [] = [] :=
  replaceAll_nil _ _

theorem maskHeaders_nil : maskHeaders [] = [] :=
  replaceAll_nil _ _

variable {kept taken name word rest gap value front suffix first second : Bytes} {byte : UInt8}

theorem redactMatch_of_through {found : Bytes} (cut : through equalsSign found = some kept) :
    redactMatch found = kept ++ redactedText := by
  unfold redactMatch separators
  rw [findSome?_cons, cut]

theorem solid_of_takes {pattern : Regexp UInt8} (within : Within (· ∉ [equalsSign, 9, 10, 12, 13, 32]) pattern)
    (takes : Takes pattern name) : equalsSign ∉ name ∧ Solid name := by
  have outside := within.of_takes takes
  refine ⟨fun member => outside _ member mem_cons_self, fun byte member => ?_⟩
  have solid := (not_or.mp (mt mem_cons.mpr (outside byte member))).2
  simpa [isBlank] using solid

theorem name_of_takes (takes : Takes secretNames name) : equalsSign ∉ name ∧ Solid name :=
  solid_of_takes within_secretNames takes

theorem takes_token : Takes secretNames (utf8 "token") :=
  takes_choice.mpr (Or.inr ⟨ignoringCase "token", by simp, takes_ignoringCase "token"⟩)

/-! ### The first pattern, word by word -/

theorem takes_assignment :
    Takes assignment taken ↔
      ∃ name value, taken = name ++ equalsSign :: value ∧ Takes secretNames name ∧ value ≠ [] ∧ Solid value := by
  have solidValue : ∀ value : Bytes, (∀ byte ∈ value, isSolid byte = true) ↔ Solid value := by
    simp [Solid, isSolid]
  constructor
  · rintro ⟨name, back, rfl, takesName, sign, value, rfl, ⟨byte, isSign, rfl⟩, takesValue⟩
    obtain ⟨nonempty, fits⟩ := takes_plus.mp takesValue
    obtain rfl : byte = equalsSign := by simpa using isSign
    exact ⟨name, value, rfl, takesName, nonempty, (solidValue value).mp fits⟩
  · rintro ⟨name, value, rfl, takesName, nonempty, solidText⟩
    exact ⟨name, _, rfl, takesName, [equalsSign], value, rfl, ⟨equalsSign, by simp, rfl⟩,
      takes_plus.mpr ⟨nonempty, (solidValue value).mpr solidText⟩⟩

theorem solid_of_takes_assignment (takes : Takes assignment taken) : Solid taken := by
  obtain ⟨name, value, rfl, takesName, -, solidValue⟩ := takes_assignment.mp takes
  refine Solid.append (name_of_takes takesName).2 ?_
  exact forall_mem_cons.mpr ⟨by decide, solidValue⟩

theorem solid_of_takes_sign {sign : Bytes} (takes : Takes secretNames name)
    (takesSign : Takes (among [equalsSign]) sign) :
    Solid (name ++ sign) := by
  obtain ⟨byte, isSign, rfl⟩ := takesSign
  obtain rfl : byte = equalsSign := by simpa using isSign
  exact Solid.append (name_of_takes takes).2 (by decide +kernel)

theorem ends_assignment_word (isWord : Solid word) (parted : Parted rest) :
    ends assignment ⟨[], word ++ rest⟩ = [] ↔ ends assignment ⟨[], word⟩ = [] := by
  rw [← not_iff_not]
  show ends assignment ⟨[], word ++ rest⟩ ≠ [] ↔ ends assignment ⟨[], word⟩ ≠ []
  rw [ends_ne_nil_iff unanchored_assignment, ends_ne_nil_iff unanchored_assignment]
  constructor
  · rintro ⟨taken, more, takes, starts⟩
    obtain ⟨tail, inside⟩ := word_eq_append isWord parted (solid_of_takes_assignment takes) starts
    exact ⟨taken, tail, takes, inside⟩
  · rintro ⟨taken, tail, takes, rfl⟩
    exact ⟨taken, tail ++ rest, takes, append_assoc _ _ _⟩

/-- The part of a word up to the `=` of its first assignment. -/
def assignedPart : Bytes → Option Bytes
  | [] => none
  | byte :: rest =>
    if (ends assignment ⟨[], byte :: rest⟩).isEmpty then
      (assignedPart rest).map (byte :: ·)
    else
      through equalsSign (byte :: rest)

def mask (word : Bytes) : Bytes :=
  (assignedPart word).elim word (· ++ redactedText)

theorem mask_of_none (unassigned : assignedPart word = none) : mask word = word := by
  rw [mask, unassigned, Option.elim_none]

theorem mask_of_some (assigned : assignedPart word = some kept) :
    mask word = kept ++ redactedText := by
  rw [mask, assigned, Option.elim_some]

theorem assignedPart_cons_miss (missed : ends assignment ⟨[], byte :: rest⟩ = []) :
    assignedPart (byte :: rest) = (assignedPart rest).map (byte :: ·) := by
  rw [assignedPart, missed]
  rfl

theorem assignedPart_cons_hit (found : ends assignment ⟨[], byte :: rest⟩ ≠ []) :
    assignedPart (byte :: rest) = through equalsSign (byte :: rest) := by
  rw [assignedPart, if_neg]
  simpa using found

theorem through_of_ends (found : ends assignment ⟨[], word⟩ ≠ []) :
    ∃ name value, word = name ++ equalsSign :: value ∧ value.head?.any isSolid = true ∧
      through equalsSign word = some (name ++ [equalsSign]) := by
  obtain ⟨taken, rest, takes, starts⟩ := (ends_ne_nil_iff unanchored_assignment).mp found
  obtain ⟨name, value, rfl, takesName, nonempty, solidValue⟩ := takes_assignment.mp takes
  have absent := (name_of_takes takesName).1
  have whole : word = name ++ equalsSign :: (value ++ rest) := by
    rw [show word = _ from starts, append_assoc, cons_append]
  obtain ⟨byte, value, rfl⟩ := exists_cons_of_ne_nil nonempty
  exact ⟨name, byte :: value ++ rest, whole, solidValue.isSolid byte mem_cons_self,
    by rw [whole, through_append_cons absent]⟩

/-- The kept part is a beginning of the word that ends in `=`, with a value behind it. -/
theorem assignedPart_eq_some (assigned : assignedPart word = some kept) :
    ∃ front tail, kept = front ++ [equalsSign] ∧ word = kept ++ tail ∧ tail.head?.any isSolid = true := by
  induction word generalizing kept with
  | nil => cases assigned
  | cons byte rest ih =>
    by_cases missed : ends assignment ⟨[], byte :: rest⟩ = []
    · rw [assignedPart_cons_miss missed] at assigned
      obtain ⟨later, found, rfl⟩ := Option.map_eq_some_iff.mp assigned
      obtain ⟨front, tail, rfl, rfl, starts⟩ := ih found
      exact ⟨byte :: front, tail, rfl, rfl, starts⟩
    · rw [assignedPart_cons_hit missed] at assigned
      obtain ⟨name, value, whole, starts, cut⟩ := through_of_ends missed
      rw [cut] at assigned
      cases assigned
      refine ⟨name, value, rfl, ?_, starts⟩
      rw [whole, append_assoc, singleton_append]

theorem maskAssignments_word (isWord : Solid word) (parted : Parted rest) :
    maskAssignments (word ++ rest) = mask word ++ maskAssignments rest := by
  induction word with
  | nil => rfl
  | cons byte word ih =>
    have later := ih (forall_mem_cons.mp isWord).2
    by_cases missed : ends assignment ⟨[], byte :: word⟩ = []
    · have kept : mask (byte :: word) = byte :: mask word := by
        unfold mask
        rw [assignedPart_cons_miss missed]
        cases assignedPart word <;> rfl
      have nothing := (ends_assignment_word isWord parted).mpr missed
      rw [kept, cons_append, cons_append, ← later]
      exact replaceAll_cons_miss unanchored_assignment nothing
    · have found := mt (ends_assignment_word isWord parted).mp missed
      have endsWord := dropWhile_word isWord parted
      obtain ⟨reached, here, behind⟩ := exists_head?_ends_run found fun name sign more takes takesSign reads _ => by
        have solidName := solid_of_takes_sign takes takesSign
        rwa [show byte :: word ++ rest = _ from reads, dropWhile_append_of_pos solidName.isSolid] at endsWord
      obtain ⟨name, value, -, -, cut⟩ := through_of_ends missed
      have kept : mask (byte :: word) = redactMatch (byte :: word) := by
        rw [redactMatch_of_through cut]
        exact mask_of_some ((assignedPart_cons_hit missed).trans cut)
      rw [kept]
      exact replaceAll_hit unanchored_assignment (cons_ne_nil _ _) here behind

theorem maskAssignments_gap (white : Blank gap) (rest : Bytes) :
    maskAssignments (gap ++ rest) = gap ++ maskAssignments rest := by
  refine replaceAll_miss unanchored_assignment fun tail nonempty inGap => ?_
  by_contra found
  obtain ⟨taken, more, takes, starts⟩ := (ends_ne_nil_iff unanchored_assignment).mp found
  obtain ⟨byte, tail, rfl⟩ := exists_cons_of_ne_nil nonempty
  cases taken with
  | nil =>
    obtain ⟨name, value, same, -⟩ := takes_assignment.mp takes
    simp at same
  | cons first taken =>
    obtain rfl : byte = first := (List.cons.inj starts).1
    have solid := solid_of_takes_assignment takes byte mem_cons_self
    rw [white byte (inGap.subset mem_cons_self)] at solid
    cases solid

theorem solid_redactedText : Solid redactedText := by decide +kernel

theorem solid_mask (isWord : Solid word) : Solid (mask word) := by
  cases assigned : assignedPart word with
  | none => rwa [mask_of_none assigned]
  | some kept =>
    obtain ⟨-, tail, -, rfl, -⟩ := assignedPart_eq_some assigned
    rw [mask_of_some assigned]
    exact Solid.append (forall_mem_append.mp isWord).1 solid_redactedText

theorem mask_ne_nil (nonempty : word ≠ []) : mask word ≠ [] := by
  cases assigned : assignedPart word with
  | none => rwa [mask_of_none assigned]
  | some kept =>
    rw [mask_of_some assigned]
    exact append_ne_nil_of_right_ne_nil _ (by decide)

theorem through_mask (word : Bytes) : through equalsSign (mask word) = through equalsSign word := by
  cases assigned : assignedPart word with
  | none => rw [mask_of_none assigned]
  | some kept =>
    obtain ⟨front, tail, rfl, rfl, -⟩ := assignedPart_eq_some assigned
    have sign : equalsSign ∈ front ++ [equalsSign] := mem_append_right _ (mem_singleton.mpr rfl)
    rw [mask_of_some assigned, through_append sign, through_append sign]

/-! ### The second pattern -/

/-- The word `bearer` in any case. -/
abbrev bearer : Regexp UInt8 :=
  ignoringCase "bearer"

theorem solid_of_takes_bearer (takes : Takes bearer word) : Solid word :=
  (solid_of_takes within_bearer takes).2

theorem length_of_takes_bearer (takes : Takes bearer word) : word.length = 6 := by
  have letters : bearer = Regexp.sequence (([[98, 66], [101, 69], [97, 65], [114, 82], [101, 69],
      [114, 82]].map fun cases byte => cases.contains byte).map .one) := rfl
  rw [letters] at takes
  exact length_of_takes_sequence takes

/-- Whether the last six bytes of a word read `bearer`. -/
def endsBearer (word : Bytes) : Bool :=
  !(ends bearer ⟨[], word.drop (word.length - 6)⟩).isEmpty

theorem endsBearer_iff : endsBearer word = true ↔ ∃ front name, word = front ++ name ∧ Takes bearer name := by
  have nonempty : endsBearer word = true ↔ ends bearer ⟨[], word.drop (word.length - 6)⟩ ≠ [] := by
    simp [endsBearer]
  rw [nonempty, ends_ne_nil_iff unanchored_bearerHeader.1]
  constructor
  · rintro ⟨name, rest, takes, starts⟩
    have size := congrArg List.length (show word.drop (word.length - 6) = name ++ rest from starts)
    rw [length_drop, length_append, length_of_takes_bearer takes] at size
    have nothing : rest = [] := length_eq_zero_iff.mp (by omega)
    refine ⟨word.take (word.length - 6), name, ?_, takes⟩
    rw [nothing, append_nil] at starts
    rw [← starts, take_append_drop]
  · rintro ⟨front, name, rfl, takes⟩
    refine ⟨name, [], takes, ?_⟩
    have six := length_of_takes_bearer takes
    rw [append_nil]
    rw [length_append, six, Nat.add_sub_cancel, drop_left]

theorem endsBearer_mask (word : Bytes) :
    endsBearer (mask word) = (endsBearer word && (assignedPart word).isNone) := by
  cases assigned : assignedPart word with
  | none => rw [mask_of_none assigned, Option.isNone_none, Bool.and_true]
  | some kept =>
    rw [mask_of_some assigned, Option.isNone_some, Bool.and_false, endsBearer]
    have tail : (kept ++ redactedText).drop ((kept ++ redactedText).length - 6) = redactedText.drop 4 := by
      have size : (kept ++ redactedText).length - 6 = kept.length + 4 := by
        rw [length_append, show redactedText.length = 10 from rfl]
        omega
      rw [size, drop_append]
      simp
    rw [tail]
    decide

theorem takes_bearerHeader (takes : Takes bearerHeader taken) :
    ∃ name gap value, taken = name ++ gap ++ value ∧ Takes bearer name ∧ gap ≠ [] ∧ Blank gap ∧ value ≠ [] := by
  obtain ⟨name, back, rfl, takesName, gap, value, rfl, takesGap, takesValue⟩ := takes
  obtain ⟨gapNonempty, white⟩ := takes_plus.mp takesGap
  exact ⟨name, gap, value, (append_assoc _ _ _).symm, takesName, gapNonempty, white, (takes_plus.mp takesValue).1⟩

theorem ends_bearerHeader_word (isWord : Solid word) (parted : Parted rest)
    (notBearer : ¬ (Takes bearer word ∧ rest ≠ [])) : ends bearerHeader ⟨[], word ++ rest⟩ = [] := by
  by_contra found
  obtain ⟨taken, more, takes, starts⟩ := (ends_ne_nil_iff unanchored_bearerHeader).mp found
  obtain ⟨name, gap, value, rfl, takesName, gapNonempty, white, -⟩ := takes_bearerHeader takes
  obtain ⟨byte, gap, rfl⟩ := exists_cons_of_ne_nil gapNonempty
  have same : word ++ rest = name ++ (byte :: gap ++ value ++ more) := by
    rw [show word ++ rest = _ from starts]
    simp only [append_assoc]
  -- the gap ends the word, so the word is the name
  have cutsWord := takeWhile_word isWord parted
  have cutsName := takeWhile_word (solid_of_takes_bearer takesName)
    (show Parted (byte :: gap ++ value ++ more) from white byte mem_cons_self)
  rw [same, cutsName] at cutsWord
  rw [← cutsWord] at same
  have remaining := append_cancel_left same
  exact notBearer ⟨cutsWord ▸ takesName, by rw [remaining]; exact cons_ne_nil _ _⟩

theorem head?_ends_bearerHeader (takes : Takes bearer name) (gapNonempty : gap ≠ [])
    (white : Blank gap) (nonempty : value ≠ []) (isWord : Solid value) (parted : Parted rest) :
    ∃ reached, (ends bearerHeader ⟨[], name ++ gap ++ value ++ rest⟩).head? = some reached ∧ reached.rest = rest := by
  have valueStarts : (value ++ rest).head?.any isBlank = false := by
    obtain ⟨byte, value, rfl⟩ := exists_cons_of_ne_nil nonempty
    exact isWord byte mem_cons_self
  refine exists_head?_ends_run ?_ fun front back behind takesFront takesBack reads starts => ?_
  · refine (ends_ne_nil_iff unanchored_bearerHeader).mpr ?_
    exact ⟨name ++ gap ++ value, rest, ⟨name, gap ++ value, append_assoc _ _ _, takes, gap, value, rfl,
      takes_plus.mpr ⟨gapNonempty, white⟩, takes_plus.mpr ⟨nonempty, isWord.isSolid⟩⟩, rfl⟩
  · -- every spelling of the word is six bytes long, and the gap ends where the value starts
    simp only [append_assoc] at reads
    obtain ⟨rfl, same⟩ := append_inj reads
      ((length_of_takes_bearer takes).trans (length_of_takes_bearer takesFront).symm)
    have behindStarts : behind.head?.any isBlank = false := by
      cases behind with
      | nil => rfl
      | cons byte behind => simpa [isSolid] using starts
    have cut := congrArg (dropWhile isBlank) same
    rw [dropWhile_gap white valueStarts, dropWhile_gap (takes_plus.mp takesBack).2 behindStarts] at cut
    rw [← cut, dropWhile_word isWord parted]

theorem maskHeaders_gap (white : Blank gap) (rest : Bytes) :
    maskHeaders (gap ++ rest) = gap ++ maskHeaders rest := by
  refine replaceAll_miss unanchored_bearerHeader fun tail nonempty inGap => ?_
  have parted := Parted.of_blank (fun byte member => white byte (inGap.subset member)) nonempty rest
  apply @ends_bearerHeader_word [] (tail ++ rest) (forall_mem_nil _) parted
  rintro ⟨takes, -⟩
  cases length_of_takes_bearer takes

theorem maskHeaders_word (isWord : Solid word) (parted : Parted rest)
    (plain : endsBearer word = false ∨ rest = []) : maskHeaders (word ++ rest) = word ++ maskHeaders rest := by
  refine replaceAll_miss unanchored_bearerHeader fun tail _ ⟨front, inside⟩ => ?_
  apply ends_bearerHeader_word (forall_mem_append.mp (inside ▸ isWord)).2 parted
  rintro ⟨takes, more⟩
  have isBearer : endsBearer word = true := endsBearer_iff.mpr ⟨front, tail, inside.symm, takes⟩
  rw [isBearer] at plain
  exact plain.elim Bool.noConfusion more

theorem maskHeaders_header (isFront : Solid front) (takes : Takes bearer name)
    (gapNonempty : gap ≠ []) (white : Blank gap) (nonempty : value ≠ []) (isWord : Solid value) (parted : Parted rest) :
    maskHeaders (front ++ name ++ gap ++ value ++ rest) =
      front ++ redactMatch (name ++ gap ++ value) ++ maskHeaders rest := by
  have gapParted : Parted (gap ++ (value ++ rest)) := Parted.of_blank white gapNonempty _
  obtain ⟨reached, found, behind⟩ := head?_ends_bearerHeader takes gapNonempty white nonempty isWord parted
  have before : maskHeaders (front ++ (name ++ gap ++ value ++ rest)) =
      front ++ maskHeaders (name ++ gap ++ value ++ rest) := by
    refine replaceAll_miss unanchored_bearerHeader fun tail someTail inFront => ?_
    have solid := Solid.append (fun byte member => isFront byte (inFront.subset member)) (solid_of_takes_bearer takes)
    have missed := ends_bearerHeader_word solid gapParted fun ⟨whole, _⟩ => by
      have longer := length_of_takes_bearer whole
      have positive := length_pos_of_ne_nil someTail
      rw [length_append, length_of_takes_bearer takes] at longer
      omega
    simpa only [append_assoc] using missed
  rw [maskHeaders, maskHeaders, replaceAll_hit unanchored_bearerHeader (append_ne_nil_of_right_ne_nil _ nonempty) found
    behind] at before
  simpa only [append_assoc] using before

def fullWords (text : Bytes) : List Bytes :=
  (text.splitOnP isBlank).dropLast.filter (· ≠ [])

def lastWord (text : Bytes) : Bytes :=
  (text.splitOnP isBlank).getLastD []

theorem fullWords_word (isWord : Solid word) : fullWords word = [] := by
  rw [fullWords, splitOnP_eq_singleton isWord]
  rfl

theorem lastWord_word (isWord : Solid word) : lastWord word = word := by
  rw [lastWord, splitOnP_eq_singleton isWord]
  rfl

theorem words_cons (isWord : Solid word) (white : isBlank byte = true) (rest : Bytes) :
    fullWords (word ++ byte :: rest) = [word].filter (· ≠ []) ++ fullWords rest ∧
      lastWord (word ++ byte :: rest) = lastWord rest := by
  have parts := splitOnP_append_cons_of_forall_mem isWord byte white rest
  obtain ⟨part, others, more⟩ := exists_cons_of_ne_nil (splitOnP_ne_nil isBlank rest)
  rw [more] at parts
  refine ⟨?_, by rw [lastWord, lastWord, parts, more]; rfl⟩
  rw [fullWords, fullWords, parts, more, dropLast_cons_of_ne_nil (cons_ne_nil _ _), ← singleton_append, filter_append]

theorem words_append (isWord : Solid word) (gapNonempty : gap ≠ []) (white : Blank gap)
    (rest : Bytes) :
    fullWords (word ++ gap ++ rest) = [word].filter (· ≠ []) ++ fullWords rest ∧
      lastWord (word ++ gap ++ rest) = lastWord rest := by
  induction gap generalizing word with
  | nil => exact absurd rfl gapNonempty
  | cons byte gap ih =>
    rw [Blank, forall_mem_cons] at white
    obtain ⟨full, last⟩ := words_cons isWord white.1 (gap ++ rest)
    rw [append_assoc, cons_append, full, last]
    cases gap with
    | nil => exact ⟨rfl, rfl⟩
    | cons next gap => simpa using @ih [] (forall_mem_nil _) (cons_ne_nil _ _) white.2

/-- Whether the next word is taken for a value: the word before it opens a header and is no value itself. -/
def headerWaits (opens : Bytes → Bool) (waits : Bool) (words : List Bytes) : Bool :=
  words.foldl (fun waits word => !waits && opens word) waits

theorem headerWaits_cons (opens : Bytes → Bool) (waits : Bool) (word : Bytes) (words : List Bytes) :
    headerWaits opens waits (word :: words) = headerWaits opens (!waits && opens word) words :=
  rfl

/-- How the second pass goes on behind some text: over the next word and what follows it, or behind the next
word, whose text then no longer matters for what follows. -/
def Settled (waits : Bool) (last : Bytes) (output : Bytes → Bytes → Bytes) : Prop :=
  (waits = true → ∀ word, word ≠ [] → Solid word →
    ∃ done, ∀ rest, Parted rest → output word rest = done ++ maskHeaders rest) ∧
  (waits = false → ∃ done, ∀ word rest, word ≠ [] → Solid word → Parted rest →
    output word rest = done ++ maskHeaders (last ++ word ++ rest))

theorem Settled.after {waits : Bool} {last : Bytes} {output longer : Bytes → Bytes → Bytes}
    (settled : Settled waits last output) (front : Bytes)
    (same : ∀ word rest, word ≠ [] → Solid word → Parted rest → longer word rest = front ++ output word rest) :
    Settled waits last longer := by
  constructor
  · intro isWaiting word nonempty isWord
    obtain ⟨done, continues⟩ := settled.1 isWaiting word nonempty isWord
    refine ⟨front ++ done, fun rest parted => ?_⟩
    rw [same word rest nonempty isWord parted, continues rest parted, append_assoc]
  · intro notWaiting
    obtain ⟨done, continues⟩ := settled.2 notWaiting
    refine ⟨front ++ done, fun word rest nonempty isWord parted => ?_⟩
    rw [same word rest nonempty isWord parted, continues word rest nonempty isWord parted]
    simp only [append_assoc]

/-- The second pass over a text that starts afresh, and over one whose first word is the value of a header. -/
theorem settled_text (text : Bytes) :
    Settled (headerWaits endsBearer false (fullWords text)) (lastWord text)
        (fun word rest => maskHeaders (text ++ word ++ rest)) ∧
    (text.head?.any isBlank = false → ∀ front name gap, Solid front → Takes bearer name → gap ≠ [] → Blank gap →
      Settled (headerWaits endsBearer true (fullWords text)) (lastWord text)
        (fun word rest => maskHeaders (front ++ name ++ gap ++ (text ++ word ++ rest)))) := by
  induction text using words_induction isBlank with
  | word text isText =>
    rw [fullWords_word isText, lastWord_word isText]
    refine ⟨⟨Bool.noConfusion, fun _ => ⟨[], fun _ _ _ _ _ => rfl⟩⟩, ?_⟩
    intro _ front name gap isFront takes gapNonempty white
    refine ⟨fun _ word nonempty isWord => ?_, Bool.noConfusion⟩
    have value : text ++ word ≠ [] := append_ne_nil_of_right_ne_nil _ nonempty
    refine ⟨front ++ redactMatch (name ++ gap ++ (text ++ word)), fun rest parted => ?_⟩
    have masked := maskHeaders_header isFront takes gapNonempty white value (Solid.append isText isWord) parted
    rw [← masked]
    simp only [append_assoc]
  | gap word gap rest isWord gapNonempty white starts ih =>
    obtain ⟨fresh, waiting⟩ := ih
    obtain ⟨full, last⟩ := words_append isWord gapNonempty white rest
    rw [full, last]
    have gapParted : ∀ more, Parted (gap ++ more) := Parted.of_blank white gapNonempty
    constructor
    · by_cases empty : word = []
      · -- leading white space
        subst empty
        refine fresh.after gap fun next more _ _ _ => ?_
        simpa only [nil_append, append_assoc] using maskHeaders_gap white (rest ++ next ++ more)
      · rw [filter_cons_of_pos (by simpa using empty), filter_nil, singleton_append, headerWaits_cons]
        cases isBearer : endsBearer word with
        | false =>
          refine fresh.after (word ++ gap) fun next more _ _ _ => ?_
          have masked := maskHeaders_word isWord (gapParted (rest ++ next ++ more)) (Or.inl isBearer)
          rw [maskHeaders_gap white] at masked
          simpa only [append_assoc] using masked
        | true =>
          obtain ⟨front, name, rfl, takes⟩ := endsBearer_iff.mp isBearer
          have isFront : Solid front := (forall_mem_append.mp isWord).1
          refine (waiting starts front name gap isFront takes gapNonempty white).after [] fun next more _ _ _ => ?_
          simp only [append_assoc, nil_append]
    · intro textStarts front name headerGap isFront takes headerGapNonempty headerWhite
      have nonempty : word ≠ [] := by
        rintro rfl
        obtain ⟨byte, gap, rfl⟩ := exists_cons_of_ne_nil gapNonempty
        exact absurd (white byte mem_cons_self) (by simpa using textStarts)
      rw [filter_cons_of_pos (by simpa using nonempty), filter_nil, singleton_append, headerWaits_cons]
      refine fresh.after (front ++ redactMatch (name ++ headerGap ++ word) ++ gap) fun next more _ _ _ => ?_
      have masked := maskHeaders_header isFront takes headerGapNonempty headerWhite nonempty isWord
        (gapParted (rest ++ next ++ more))
      rw [maskHeaders_gap white] at masked
      simpa only [append_assoc] using masked

theorem maskAssignments_text (text : Bytes) :
    ∃ done, fullWords done = (fullWords text).map mask ∧ lastWord done = [] ∧
      ∀ word rest, Solid word → Parted rest →
        maskAssignments (text ++ word ++ rest) = done ++ mask (lastWord text ++ word) ++ maskAssignments rest := by
  induction text using words_induction isBlank with
  | word text isText =>
    refine ⟨[], by rw [fullWords_word isText]; rfl, rfl, fun word rest isWord parted => ?_⟩
    rw [lastWord_word isText, maskAssignments_word (Solid.append isText isWord) parted, nil_append]
  | gap word gap rest isWord gapNonempty white _ ih =>
    obtain ⟨done, full, last, masked⟩ := ih
    obtain ⟨fullText, lastText⟩ := words_append isWord gapNonempty white rest
    obtain ⟨fullDone, lastDone⟩ := words_append (solid_mask isWord) gapNonempty white done
    refine ⟨mask word ++ gap ++ done, ?_, lastDone.trans last, fun next more isNext parted => ?_⟩
    · rw [fullDone, fullText, map_append, full]
      by_cases empty : word = []
      · subst empty
        rfl
      · rw [filter_cons_of_pos (by simpa using mask_ne_nil empty), filter_cons_of_pos (by simpa using empty)]
        rfl
    · have first := maskAssignments_word isWord (Parted.of_blank white gapNonempty (rest ++ next ++ more))
      rw [maskAssignments_gap white, masked next more isNext parted] at first
      rw [lastText]
      simpa only [append_assoc] using first

/-! ### Values -/

structure IsValue (value : Bytes) : Prop where
  nonempty : value ≠ []
  isWord : Solid value

abbrev bearerText : Bytes :=
  utf8 "Bearer"

/-- A word that ends in `bearer` and holds no assignment. -/
def opensHeader (word : Bytes) : Bool :=
  endsBearer word && (assignedPart word).isNone

/-- Whether the header behind a text is read as one: it is part of no assignment, and it is not itself the
value of a header. -/
def HeaderStands (front : Bytes) : Prop :=
  headerWaits opensHeader false (fullWords front) = false ∧ assignedPart (lastWord front ++ bearerText) = none

instance (front : Bytes) : Decidable (HeaderStands front) :=
  inferInstanceAs (Decidable (_ ∧ _))

theorem headerWaits_map_mask (waits : Bool) (words : List Bytes) :
    headerWaits endsBearer waits (words.map mask) = headerWaits opensHeader waits words := by
  unfold headerWaits
  rw [foldl_map]
  simp only [endsBearer_mask, opensHeader]

theorem solid_lastWord (text : Bytes) : Solid (lastWord text) := by
  induction text using words_induction isBlank with
  | word text isText => rwa [lastWord_word isText]
  | gap word gap rest isWord gapNonempty white _ ih =>
    rwa [(words_append isWord gapNonempty white rest).2]

theorem blank_space : Blank [32] := by
  simp [Blank, isBlank]

theorem parted_space (rest : Bytes) : Parted ([32] ++ rest) :=
  Parted.of_blank blank_space (by decide) rest

theorem takes_bearerText : Takes bearer bearerText := by
  have upper : utf8 "Bearer" = [66, 101, 97, 114, 101, 114] := rfl
  have lower : utf8 "bearer" = [98, 101, 97, 114, 101, 114] := rfl
  have same : ignoringCase "bearer" = ignoringCase "Bearer" := by
    rw [ignoringCase, ignoringCase, upper, lower]
    rfl
  rw [bearer, same]
  exact takes_ignoringCase "Bearer"

theorem parted_maskAssignments (parted : Parted suffix) : Parted (maskAssignments suffix) := by
  cases suffix with
  | nil => exact parted
  | cons byte rest =>
    have white : isBlank byte = true := parted
    have kept := maskAssignments_gap (show Blank [byte] by simpa [Blank] using white) rest
    rw [singleton_append] at kept
    rw [kept]
    exact white

/-- The first pass leaves the parts in front of and behind a value as they are for every value. -/
theorem maskAssignments_bearer (front : Bytes) :
    ∃ done, fullWords done = (fullWords front).map mask ∧ lastWord done = [] ∧
      ∀ value suffix, IsValue value → Parted suffix →
        maskAssignments (front ++ utf8 "Bearer " ++ value ++ suffix) =
          done ++ mask (lastWord front ++ bearerText) ++ ([32] ++ (mask value ++ maskAssignments suffix)) := by
  obtain ⟨done, full, last, masked⟩ := maskAssignments_text front
  refine ⟨done, full, last, fun value suffix isValue parted => ?_⟩
  have header := masked bearerText ([32] ++ (value ++ suffix)) (by decide +kernel) (parted_space _)
  have space := maskAssignments_gap blank_space (value ++ suffix)
  rw [maskAssignments_word isValue.isWord parted] at space
  rw [space] at header
  have text : front ++ utf8 "Bearer " ++ value ++ suffix = front ++ bearerText ++ ([32] ++ (value ++ suffix)) := by
    rw [show utf8 "Bearer " = bearerText ++ [32] from rfl]
    simp only [append_assoc]
  rw [text]
  exact header

theorem redactMatch_header (value : Bytes) :
    redactMatch (bearerText ++ [32] ++ value) =
      bearerText ++ [32] ++ (through equalsSign value).getD [] ++ redactedText := by
  have cut := through_append_of_notMem (show equalsSign ∉ bearerText ++ [32] by decide) value
  cases found : through equalsSign value with
  | some kept =>
    rw [found, Option.map_some] at cut
    rw [redactMatch_of_through cut, Option.getD_some]
  | none =>
    have space : through 32 (bearerText ++ [32] ++ value) = some (bearerText ++ [32]) := by
      rw [append_assoc, singleton_append]
      exact through_append_cons (by decide) value
    rw [found, Option.map_none] at cut
    rw [redactMatch, separators, findSome?_cons, cut]
    simp only [findSome?_cons, space, Option.getD_none, append_nil]

theorem redact_bearer_of_stands (stands : HeaderStands front) :
    ∃ done, ∀ value suffix, IsValue value → Parted suffix →
      redact (front ++ utf8 "Bearer " ++ value ++ suffix) defaultRedactPatterns =
        done ++ (through equalsSign value).getD [] ++ (redactedText ++ maskHeaders (maskAssignments suffix)) := by
  obtain ⟨text, full, last, masked⟩ := maskAssignments_bearer front
  have fresh : headerWaits endsBearer false (fullWords text) = false := by
    rw [full, headerWaits_map_mask, stands.1]
  obtain ⟨done, continues⟩ := (settled_text text).1.2 fresh
  dsimp only at continues
  have isHeader : Solid (lastWord front ++ bearerText) := Solid.append (solid_lastWord front) (by decide +kernel)
  have someHeader : lastWord front ++ bearerText ≠ [] := append_ne_nil_of_right_ne_nil _ (by decide)
  refine ⟨done ++ lastWord front ++ bearerText ++ [32], fun value suffix isValue parted => ?_⟩
  have header := maskHeaders_header (solid_lastWord front) takes_bearerText (show ([32] : Bytes) ≠ [] by decide)
    blank_space (mask_ne_nil isValue.nonempty) (solid_mask isValue.isWord)
    (parted_maskAssignments parted)
  rw [redactMatch_header, through_mask] at header
  rw [redact_default, masked value suffix isValue parted, mask_of_none stands.2,
    continues _ _ someHeader isHeader (parted_space _), last]
  simp only [append_assoc, nil_append] at header ⊢
  rw [header]

theorem redact_bearer_of_not_stands (fallen : ¬ HeaderStands front) :
    ∃ done, ∀ value suffix, IsValue value → Parted suffix →
      redact (front ++ utf8 "Bearer " ++ value ++ suffix) defaultRedactPatterns =
        done ++ maskHeaders (mask value ++ maskAssignments suffix) := by
  obtain ⟨text, full, last, masked⟩ := maskAssignments_bearer front
  have isHeader : Solid (mask (lastWord front ++ bearerText)) :=
    solid_mask (Solid.append (solid_lastWord front) (by decide +kernel))
  have someHeader : mask (lastWord front ++ bearerText) ≠ [] :=
    mask_ne_nil (append_ne_nil_of_right_ne_nil _ (by decide))
  have space : ∀ rest, maskHeaders ([32] ++ rest) = [32] ++ maskHeaders rest :=
    maskHeaders_gap blank_space
  cases waits : headerWaits endsBearer false (fullWords text) with
  | true =>
    -- the header is the value of another one
    obtain ⟨done, continues⟩ := (settled_text text).1.1 waits _ someHeader isHeader
    dsimp only at continues
    refine ⟨done ++ [32], fun value suffix isValue parted => ?_⟩
    rw [redact_default, masked value suffix isValue parted, continues _ (parted_space _), space, append_assoc]
  | false =>
    -- the header is the value of an assignment
    obtain ⟨done, continues⟩ := (settled_text text).1.2 waits
    dsimp only at continues
    have assigned : assignedPart (lastWord front ++ bearerText) ≠ none := by
      intro unassigned
      rw [full, headerWaits_map_mask] at waits
      exact fallen ⟨waits, unassigned⟩
    have closed : endsBearer (mask (lastWord front ++ bearerText)) = false := by
      obtain ⟨kept, isAssigned⟩ := Option.ne_none_iff_exists'.mp assigned
      rw [endsBearer_mask, isAssigned, Option.isNone_some, Bool.and_false]
    refine ⟨done ++ mask (lastWord front ++ bearerText) ++ [32], fun value suffix isValue parted => ?_⟩
    rw [redact_default, masked value suffix isValue parted, continues _ _ someHeader isHeader (parted_space _),
      last, nil_append, maskHeaders_word isHeader (parted_space _) (Or.inl closed), space]
    simp only [append_assoc]

/-- An assignment starts where a secret name stands in front of the first `=` and a value behind it. -/
theorem ends_assignment_ne_nil_iff {more : Bytes} (absent : equalsSign ∉ name) :
    ends assignment ⟨[], name ++ equalsSign :: more⟩ ≠ [] ↔
      Takes secretNames name ∧ more.head?.any isSolid = true := by
  rw [ends_ne_nil_iff unanchored_assignment]
  constructor
  · rintro ⟨taken, rest, takes, starts⟩
    obtain ⟨other, value, rfl, takesOther, nonempty, solidValue⟩ := takes_assignment.mp takes
    have same : name ++ equalsSign :: more = other ++ equalsSign :: (value ++ rest) := by
      rw [show name ++ equalsSign :: more = _ from starts, append_assoc, cons_append]
    have cut := congrArg (through equalsSign) same
    rw [through_append_cons absent, through_append_cons (name_of_takes takesOther).1, Option.some_inj] at cut
    obtain rfl : name = other := append_cancel_right cut
    obtain ⟨-, rfl⟩ := List.cons.inj (append_cancel_left same)
    obtain ⟨byte, value, rfl⟩ := exists_cons_of_ne_nil nonempty
    exact ⟨takesOther, solidValue.isSolid byte mem_cons_self⟩
  · rintro ⟨takesName, starts⟩
    cases more with
    | nil => cases starts
    | cons byte more =>
      refine ⟨name ++ equalsSign :: [byte], more, ?_, by simp⟩
      have solidByte : Solid [byte] := by
        simpa [Solid, isSolid] using starts
      exact takes_assignment.mpr ⟨name, [byte], rfl, takesName, cons_ne_nil _ _, solidByte⟩

theorem IsValue.starts (isValue : IsValue value) : value.head?.any isSolid = true := by
  obtain ⟨byte, value, rfl⟩ := exists_cons_of_ne_nil isValue.nonempty
  exact isValue.isWord.isSolid byte mem_cons_self

/-- What stands behind an `=` does not decide whether an assignment starts in front of it. -/
theorem ends_assignment_swap {text : Bytes} (sign : equalsSign ∈ text)
    (firstStarts : first.head?.any isSolid = true) (secondStarts : second.head?.any isSolid = true)
    (missed : ends assignment ⟨[], text ++ first⟩ = []) : ends assignment ⟨[], text ++ second⟩ = [] := by
  obtain ⟨name, more, rfl, absent⟩ := eq_append_cons_of_mem sign
  have starts : ∀ {value : Bytes}, value.head?.any isSolid = true →
      (more ++ value).head?.any isSolid = more.head?.all isSolid := by
    intro value valueStarts
    cases more with
    | nil => exact valueStarts
    | cons byte more => rfl
  rw [append_assoc, cons_append] at missed ⊢
  by_contra found
  have assigned := (ends_assignment_ne_nil_iff absent).mp found
  rw [starts secondStarts, ← starts firstStarts] at assigned
  exact (ends_assignment_ne_nil_iff absent).mpr assigned missed

theorem assignedPart_token (front : Bytes) :
    ∃ kept, ∀ value, IsValue value → assignedPart (front ++ utf8 "token=" ++ value) = some kept := by
  induction front with
  | nil =>
    refine ⟨utf8 "token=", fun value isValue => ?_⟩
    have found := (@ends_assignment_ne_nil_iff (utf8 "token") value (by decide)).mpr
      ⟨takes_token, isValue.starts⟩
    have cut : through equalsSign (utf8 "token" ++ equalsSign :: value) = some (utf8 "token=") :=
      through_append_cons (by decide) value
    exact (assignedPart_cons_hit found).trans cut
  | cons byte front ih =>
    obtain ⟨kept, later⟩ := ih
    have sign : equalsSign ∈ byte :: front ++ utf8 "token=" := mem_append_right _ (by decide)
    by_cases missed : ends assignment ⟨[], byte :: front ++ utf8 "token=" ++ [120]⟩ = []
    · refine ⟨byte :: kept, fun value isValue => ?_⟩
      have here := ends_assignment_swap sign (by decide) isValue.starts missed
      rw [cons_append, cons_append] at here ⊢
      rw [assignedPart_cons_miss here, later value isValue, Option.map_some]
    · obtain ⟨name, more, text, absent⟩ := eq_append_cons_of_mem sign
      refine ⟨name ++ [equalsSign], fun value isValue => ?_⟩
      have found : ends assignment ⟨[], byte :: front ++ utf8 "token=" ++ value⟩ ≠ [] := fun nothing =>
        missed (ends_assignment_swap sign isValue.starts (by decide) nothing)
      have cut : through equalsSign (byte :: front ++ utf8 "token=" ++ value) = some (name ++ [equalsSign]) := by
        rw [text, append_assoc, cons_append, through_append_cons absent]
      rw [cons_append, cons_append] at found cut ⊢
      rw [assignedPart_cons_hit found, cut]

theorem redact_token (front : Bytes) (isFirst : IsValue first) (isSecond : IsValue second) (parted : Parted suffix) :
    redact (front ++ utf8 "token=" ++ first ++ suffix) defaultRedactPatterns =
      redact (front ++ utf8 "token=" ++ second ++ suffix) defaultRedactPatterns := by
  obtain ⟨done, -, -, masked⟩ := maskAssignments_text front
  obtain ⟨kept, cut⟩ := assignedPart_token (lastWord front)
  have same : ∀ value, IsValue value →
      maskAssignments (front ++ utf8 "token=" ++ value ++ suffix) =
        done ++ (kept ++ redactedText) ++ maskAssignments suffix := by
    intro value isValue
    have word : Solid (utf8 "token=" ++ value) := Solid.append (by decide +kernel) isValue.isWord
    have first := masked (utf8 "token=" ++ value) suffix word parted
    rw [← append_assoc, ← append_assoc, mask_of_some (cut value isValue)] at first
    exact first
  rw [redact_default, redact_default, same first isFirst, same second isSecond]

/-! ### What a message tells about the value -/

def Concealed (front lead first second : Bytes) : Prop :=
  ∀ suffix, Parted suffix →
    redact (front ++ lead ++ first ++ suffix) defaultRedactPatterns =
      redact (front ++ lead ++ second ++ suffix) defaultRedactPatterns

def SameUnassigned (first second : Bytes) : Prop :=
  assignedPart first = assignedPart second ∧ (assignedPart first = none → first = second)

instance (first second : Bytes) : Decidable (SameUnassigned first second) :=
  inferInstanceAs (Decidable (_ ∧ _))

theorem assignedPart_swap (firstStarts : first.head?.any isSolid = true)
    (secondStarts : second.head?.any isSolid = true) (assigned : assignedPart (kept ++ first) = some kept) :
    assignedPart (kept ++ second) = some kept := by
  have signed : ∀ {text kept : Bytes}, assignedPart text = some kept → equalsSign ∈ kept := by
    intro text kept found
    obtain ⟨front, -, rfl, -⟩ := assignedPart_eq_some found
    exact mem_append_right _ (mem_singleton.mpr rfl)
  induction kept with
  | nil => cases signed assigned
  | cons byte kept ih =>
    have sign := signed assigned
    by_cases missed : ends assignment ⟨[], byte :: kept ++ first⟩ = []
    · have here := ends_assignment_swap sign firstStarts secondStarts missed
      rw [cons_append] at assigned missed here ⊢
      rw [assignedPart_cons_miss missed] at assigned
      obtain ⟨other, found, same⟩ := Option.map_eq_some_iff.mp assigned
      rw [(List.cons.inj same).2] at found
      rw [assignedPart_cons_miss here, ih found, Option.map_some]
    · have found : ends assignment ⟨[], byte :: kept ++ second⟩ ≠ [] := fun nothing =>
        missed (ends_assignment_swap sign secondStarts firstStarts nothing)
      have same : through equalsSign (byte :: kept ++ second) = through equalsSign (byte :: kept ++ first) := by
        rw [through_append sign, through_append sign]
      rw [cons_append] at assigned missed found ⊢
      rw [assignedPart_cons_hit missed] at assigned
      rw [assignedPart_cons_hit found]
      exact same.trans assigned

theorem assignedPart_mask (assigned : assignedPart word = some kept) :
    assignedPart (kept ++ redactedText) = some kept := by
  obtain ⟨-, tail, -, rfl, starts⟩ := assignedPart_eq_some assigned
  exact assignedPart_swap starts (by decide) assigned

theorem mask_eq_mask_iff : mask first = mask second ↔ SameUnassigned first second := by
  have apart : ∀ {word other kept : Bytes}, assignedPart word = none → assignedPart other = some kept →
      word ≠ kept ++ redactedText := by
    intro word other kept unassigned assigned same
    rw [same, assignedPart_mask assigned] at unassigned
    cases unassigned
  unfold SameUnassigned
  cases firstCut : assignedPart first <;> cases secondCut : assignedPart second
  · simp [mask_of_none firstCut, mask_of_none secondCut]
  · simp [mask_of_none firstCut, mask_of_some secondCut, apart firstCut secondCut]
  · simp [mask_of_some firstCut, mask_of_none secondCut, (apart secondCut firstCut).symm]
  · simp [mask_of_some firstCut, mask_of_some secondCut]

theorem getD_nil_inj {one two : Option Bytes} (some₁ : one ≠ some []) (some₂ : two ≠ some []) :
    one.getD [] = two.getD [] ↔ one = two := by
  cases one <;> cases two <;> grind

/-- The default patterns hide a value behind `token=`. They hide one behind `Bearer ` just as far as the values
agree up to their first `=`; where the header was taken for part of something else, they have to agree in all
that stands outside an assignment. -/
theorem redact_conceals_iff (front first second : Bytes) (isFirst : IsValue first) (isSecond : IsValue second) :
    (Concealed front (utf8 "Bearer ") first second ∧ Concealed front (utf8 "token=") first second) ↔
      (HeaderStands front ∧ through equalsSign first = through equalsSign second) ∨
      (¬ HeaderStands front ∧ SameUnassigned first second) := by
  have hidden : Concealed front (utf8 "token=") first second := fun _ parted =>
    redact_token front isFirst isSecond parted
  rw [and_iff_left hidden]
  by_cases stands : HeaderStands front
  · obtain ⟨done, shown⟩ := redact_bearer_of_stands stands
    have visible : Concealed front (utf8 "Bearer ") first second ↔
        (through equalsSign first).getD [] = (through equalsSign second).getD [] := by
      constructor
      · intro concealed
        have same := concealed [] Parted.nil
        rw [shown first [] isFirst Parted.nil, shown second [] isSecond Parted.nil] at same
        exact append_cancel_left (append_cancel_right same)
      · intro same suffix parted
        rw [shown first suffix isFirst parted, shown second suffix isSecond parted, same]
    have kept : ∀ {value : Bytes}, through equalsSign value ≠ some [] := by
      intro value same
      by_cases sign : equalsSign ∈ value
      · obtain ⟨name, more, rfl, absent⟩ := eq_append_cons_of_mem sign
        simp [through_append_cons absent] at same
      · rw [through_of_notMem sign] at same
        cases same
    rw [visible, getD_nil_inj kept kept]
    simp [stands]
  · obtain ⟨done, shown⟩ := redact_bearer_of_not_stands stands
    have visible : Concealed front (utf8 "Bearer ") first second ↔ mask first = mask second := by
      constructor
      · intro concealed
        have same := concealed [] Parted.nil
        have last : ∀ {value : Bytes}, IsValue value → maskHeaders (mask value ++ maskAssignments []) = mask value := by
          intro value isValue
          rw [maskAssignments_nil, maskHeaders_word (solid_mask isValue.isWord) Parted.nil (Or.inr rfl),
            maskHeaders_nil, append_nil]
        rw [shown first [] isFirst Parted.nil, shown second [] isSecond Parted.nil, last isFirst, last isSecond] at same
        exact append_cancel_left same
      · intro same suffix parted
        rw [shown first suffix isFirst parted, shown second suffix isSecond parted, same]
    rw [visible, mask_eq_mask_iff]
    simp [stands]

/-- An authorization header with values that have no `=` in them. -/
theorem redact_conceals_authorization :
    IsValue (utf8 "abc") ∧ IsValue (utf8 "xyz") ∧
      Concealed (utf8 "Authorization: ") (utf8 "Bearer ") (utf8 "abc") (utf8 "xyz") ∧
      Concealed (utf8 "Authorization: ") (utf8 "token=") (utf8 "abc") (utf8 "xyz") := by
  have isFirst : IsValue (utf8 "abc") := ⟨by decide +kernel, by decide +kernel⟩
  have isSecond : IsValue (utf8 "xyz") := ⟨by decide +kernel, by decide +kernel⟩
  have stands : HeaderStands (utf8 "Authorization: ") := by decide +kernel
  have both := (redact_conceals_iff (utf8 "Authorization: ") (utf8 "abc") (utf8 "xyz") isFirst isSecond).mpr
    (Or.inl ⟨stands, by decide⟩)
  exact ⟨isFirst, isSecond, both⟩

/-- The padding of a token brings its text to light. -/
theorem redact_shows_padded_token :
    IsValue (utf8 "YQ==") ∧ IsValue (utf8 "Yg==") ∧
      redact (utf8 "Bearer YQ==") defaultRedactPatterns = utf8 "Bearer YQ=[REDACTED]" ∧
      redact (utf8 "Bearer Yg==") defaultRedactPatterns = utf8 "Bearer Yg=[REDACTED]" ∧
      ¬ Concealed [] (utf8 "Bearer ") (utf8 "YQ==") (utf8 "Yg==") := by
  have first : redact (utf8 "Bearer YQ==") defaultRedactPatterns = utf8 "Bearer YQ=[REDACTED]" := by decide +kernel
  have second : redact (utf8 "Bearer Yg==") defaultRedactPatterns = utf8 "Bearer Yg=[REDACTED]" := by decide +kernel
  refine ⟨⟨by decide +kernel, by decide +kernel⟩, ⟨by decide +kernel, by decide +kernel⟩,
    first, second, fun concealed => ?_⟩
  have same : redact (utf8 "Bearer YQ==") defaultRedactPatterns = redact (utf8 "Bearer Yg==") defaultRedactPatterns :=
    concealed [] Parted.nil
  exact absurd same (by decide)

end NuraOS.Journal
