/-
Purpose: Readers and writers of a stream, and images that are written block by block.
-/
import Mathlib.Data.List.Basic
import Mathlib.Data.List.Induction
import Mathlib.Order.MinMax

namespace Foundation.Codec

open List

theorem bind_eq_ok_iff {ε α β : Type} {first : Except ε α} {next : α → Except ε β} {value : β} :
    (first >>= next) = .ok value ↔ ∃ between, first = .ok between ∧ next between = .ok value := by
  cases first with
  | error e => simp [bind, Except.bind]
  | ok between => simp [bind, Except.bind]

section Inverts

variable {Failure Symbol Value : Type} {read : List Symbol → Except Failure (Value × List Symbol)}
  {write : Value → List Symbol} {Valid : Value → Prop}

/-- The reader takes off the front of a stream exactly the valid values, as the writer puts them
there. -/
def Inverts (read : List Symbol → Except Failure (Value × List Symbol))
    (write : Value → List Symbol) (Valid : Value → Prop) : Prop :=
  ∀ stream value rest,
    read stream = .ok (value, rest) ↔ Valid value ∧ stream = write value ++ rest

theorem Inverts.reads (inverts : Inverts read write Valid) {value : Value} (valid : Valid value)
    (rest : List Symbol) : read (write value ++ rest) = .ok (value, rest) :=
  (inverts _ _ _).mpr ⟨valid, rfl⟩

theorem Inverts.unique (inverts : Inverts read write Valid) {first second : Value}
    {rest more : List Symbol} (one : Valid first) (two : Valid second)
    (same : write first ++ rest = write second ++ more) : first = second ∧ rest = more := by
  have reads := inverts.reads one rest
  simp only [same, inverts.reads two more, Except.ok.injEq, Prod.mk.injEq] at reads
  exact ⟨reads.1.symm, reads.2.symm⟩

theorem Inverts.flatMap_unique (inverts : Inverts read write Valid) {first second : List Value}
    {rest more : List Symbol} (one : ∀ value ∈ first, Valid value)
    (two : ∀ value ∈ second, Valid value) (length : first.length = second.length)
    (same : first.flatMap write ++ rest = second.flatMap write ++ more) :
    first = second ∧ rest = more := by
  induction first generalizing second with
  | nil =>
    have empty : second = [] := eq_nil_of_length_eq_zero length.symm
    simpa [empty] using same
  | cons value first ih =>
    cases second with
    | nil => simp at length
    | cons other second =>
      simp only [flatMap_cons, append_assoc] at same
      rcases inverts.unique (one value mem_cons_self) (two other mem_cons_self) same with
        ⟨rfl, tails⟩
      rcases ih (fun value member => one value (mem_cons_of_mem _ member))
        (fun value member => two value (mem_cons_of_mem _ member)) (by simpa using length)
        tails with ⟨rfl, rests⟩
      exact ⟨rfl, rests⟩

end Inverts

/-! ### Codes -/

structure Code (Symbol Value : Type) where
  write : Value → List Symbol
  read : List Symbol → Except PUnit (Value × List Symbol)
  inverts : Inverts read write fun _ => True

namespace Code

variable {Symbol First Second Value : Type}

theorem read_eq_ok_iff (code : Code Symbol Value) {stream rest : List Symbol} {value : Value} :
    code.read stream = .ok (value, rest) ↔ stream = code.write value ++ rest := by
  rw [code.inverts, true_and]

theorem read_write (code : Code Symbol Value) (value : Value) (rest : List Symbol) :
    code.read (code.write value ++ rest) = .ok (value, rest) :=
  code.inverts.reads trivial rest

theorem read_part (code : Code Symbol Value) {value : Value} {part more : List Symbol}
    (whole : code.write value = part ++ more) (proper : more ≠ []) :
    ∃ failure, code.read part = .error failure := by
  cases reads : code.read part with
  | error failure => exact ⟨failure, rfl⟩
  | ok found =>
    rcases found with ⟨other, rest⟩
    rw [code.read_eq_ok_iff] at reads
    have same : code.write value ++ [] = code.write other ++ (rest ++ more) := by
      rw [append_nil, whole, reads, append_assoc]
    have nothing := (code.inverts.unique trivial trivial same).2
    simp [proper] at nothing

def symbol : Code Symbol Symbol where
  write value := [value]
  read
    | [] => .error ()
    | value :: rest => .ok (value, rest)
  inverts := by
    intro stream value rest
    cases stream with
    | nil => simp
    | cons head stream => simp

def pair (first : Code Symbol First) (second : Code Symbol Second) :
    Code Symbol (First × Second) where
  write value := first.write value.1 ++ second.write value.2
  read stream := do
    let (one, rest) ← first.read stream
    let (two, rest) ← second.read rest
    return ((one, two), rest)
  inverts := by
    rintro stream ⟨one, two⟩ rest
    simp only [bind_eq_ok_iff, Prod.exists, read_eq_ok_iff, pure, Except.pure, Except.ok.injEq,
      Prod.mk.injEq, true_and]
    constructor
    · rintro ⟨_, _, rfl, _, _, rfl, ⟨rfl, rfl⟩, rfl⟩
      simp
    · rintro rfl
      exact ⟨one, second.write two ++ rest, by simp, two, rest, rfl, ⟨rfl, rfl⟩, rfl⟩

def map (code : Code Symbol First) (into : Value → First) (back : First → Option Value)
    (exact : ∀ image value, back image = some value ↔ image = into value) : Code Symbol Value where
  write value := code.write (into value)
  read stream := do
    let (image, rest) ← code.read stream
    match back image with
    | none => .error ()
    | some value => return (value, rest)
  inverts := by
    intro stream value rest
    simp only [bind_eq_ok_iff, Prod.exists, read_eq_ok_iff, true_and]
    constructor
    · rintro ⟨image, more, rfl, found⟩
      cases known : back image with
      | none => simp [known] at found
      | some other =>
        simp only [known, pure, Except.pure, Except.ok.injEq, Prod.mk.injEq] at found
        rcases found with ⟨rfl, rfl⟩
        rw [(exact image other).mp known]
    · rintro rfl
      have known := (exact (into value) value).mpr rfl
      exact ⟨into value, rest, rfl, by simp [known, pure, Except.pure]⟩

section List

variable (code : Code Symbol Value) (item stop : Symbol)

def writeList : List Value → List Symbol
  | [] => [stop]
  | value :: values => item :: code.write value ++ writeList values

def readList [DecidableEq Symbol] : Nat → List Symbol → Except PUnit (List Value × List Symbol)
  | 0, _ => .error ()
  | _, [] => .error ()
  | fuel + 1, mark :: stream =>
    if mark = stop then
      .ok ([], stream)
    else if mark = item then do
      let (value, rest) ← code.read stream
      let (values, rest) ← readList fuel rest
      return (value :: values, rest)
    else
      .error ()

theorem length_lt_writeList (values : List Value) :
    values.length < (writeList code item stop values).length := by
  induction values with
  | nil => simp [writeList]
  | cons value values ih =>
    simp [writeList]
    omega

variable [DecidableEq Symbol]

theorem readList_sound {fuel : Nat} {stream rest : List Symbol} {values : List Value}
    (reads : readList code item stop fuel stream = .ok (values, rest)) :
    stream = writeList code item stop values ++ rest := by
  induction fuel generalizing stream values with
  | zero => simp [readList] at reads
  | succ fuel ih =>
    cases stream with
    | nil => simp [readList] at reads
    | cons mark stream =>
      unfold readList at reads
      by_cases ends : mark = stop
      · simp only [ends, if_true, Except.ok.injEq, Prod.mk.injEq] at reads
        rcases reads with ⟨rfl, rfl⟩
        simp [writeList, ends]
      · by_cases more : mark = item
        · subst more
          simp only [ends, if_false, if_true, bind_eq_ok_iff, Prod.exists, read_eq_ok_iff, pure,
            Except.pure, Except.ok.injEq, Prod.mk.injEq] at reads
          rcases reads with ⟨value, _, rfl, others, _, later, rfl, rfl⟩
          simp [writeList, ih later]
        · simp [ends, more] at reads

theorem readList_writeList (different : item ≠ stop) {fuel : Nat} (values : List Value)
    (enough : values.length < fuel) (rest : List Symbol) :
    readList code item stop fuel (writeList code item stop values ++ rest) = .ok (values, rest) := by
  induction values generalizing fuel with
  | nil =>
    cases fuel with
    | zero => simp at enough
    | succ fuel => simp [writeList, readList]
  | cons value values ih =>
    cases fuel with
    | zero => simp at enough
    | succ fuel =>
      have later := ih (Nat.lt_of_succ_lt_succ enough)
      simp [writeList, readList, different, read_write, later, bind, Except.bind, pure,
        Except.pure]

def list (different : item ≠ stop) : Code Symbol (List Value) where
  write := writeList code item stop
  read stream := readList code item stop stream.length stream
  inverts := by
    intro stream values rest
    rw [true_and]
    constructor
    · exact readList_sound code item stop
    · rintro rfl
      apply readList_writeList code item stop different
      have longer := length_lt_writeList code item stop values
      rw [length_append]
      omega

end List

def nat [DecidableEq Symbol] (item stop : Symbol) (different : item ≠ stop) : Code Symbol Nat :=
  let unit : Code Symbol PUnit :=
    { write := fun _ => []
      read := fun stream => .ok ((), stream)
      inverts := by simp [Inverts] }
  (unit.list item stop different).map (fun count => List.replicate count ())
    (fun marks => some marks.length) (by
      intro marks count
      simp [eq_replicate_iff])

end Code

end Foundation.Codec

/-! ### Blocks with positions -/

namespace Foundation.Placement

open List

variable {Block : Type*} (blank : Block)

def place (image : List Block) (position : Nat) (block : Block) : List Block :=
  (image ++ List.replicate (position + 1 - image.length) blank).set position block

def written (writes : List (Nat × Block)) : List Block :=
  writes.foldl (fun image write => place blank image write.1 write.2) []

@[simp] theorem written_concat (writes : List (Nat × Block)) (write : Nat × Block) :
    written blank (writes ++ [write]) = place blank (written blank writes) write.1 write.2 := by
  simp [written]

theorem length_place (image : List Block) (position : Nat) (block : Block) :
    (place blank image position block).length = max image.length (position + 1) := by
  simp [place]
  omega

theorem getElem?_place_self (image : List Block) (position : Nat) (block : Block) :
    (place blank image position block)[position]? = some block := by
  have inside : position < image.length + (position + 1 - image.length) := by omega
  simp [place, inside]

variable {position : Nat} {writes : List (Nat × Block)}

theorem getElem?_place_of_ne {image : List Block} {other : Nat} {block : Block}
    (different : other ≠ position) (inside : other < max image.length (position + 1)) :
    (place blank image position block)[other]? = some (image[other]?.getD blank) := by
  simp only [place, getElem?_set, Ne.symm different, if_false]
  by_cases old : other < image.length
  · simp [getElem?_append_left old, old]
  · have new : other - image.length < position + 1 - image.length := by omega
    have past : image.length ≤ other := by omega
    simp [getElem?_append_right past, new, past]

theorem lt_length_written :
    position < (written blank writes).length ↔ ∃ write ∈ writes, position ≤ write.1 := by
  induction writes using List.reverseRecOn with
  | nil => simp [written]
  | append_singleton writes write ih =>
    simp only [written_concat, length_place, lt_max_iff, ih, Nat.lt_succ_iff,
      mem_append, mem_singleton, or_and_right, exists_or, exists_eq_left]

/-- At each position of the image stands the block written there last, or a blank one. -/
theorem getElem?_written (inside : position < (written blank writes).length) :
    (written blank writes)[position]? = some ((writes.reverse.lookup position).getD blank) := by
  induction writes using List.reverseRecOn with
  | nil => simp [written] at inside
  | append_singleton writes write ih =>
    cases write with
    | mk target block =>
    simp only [written_concat, length_place] at inside
    by_cases here : position = target
    · simp [here, getElem?_place_self]
    · have last : ((writes ++ [(target, block)]).reverse.lookup position) =
          writes.reverse.lookup position := by
        have other : (position == target) = false := by simpa using here
        simp [lookup_cons, other]
      simp only [written_concat, getElem?_place_of_ne blank here inside, last]
      by_cases old : position < (written blank writes).length
      · simp [ih old]
      · have unwritten : writes.reverse.lookup position = none := by
          simp only [lookup_eq_none_iff, mem_reverse]
          intro other member
          have before := mt (lt_length_written blank).mpr old
          simp only [not_exists, not_and, Nat.not_le] at before
          have below := before other member
          simp
          omega
        simp [unwritten, old]

/-- What holds of the blank block and of all blocks that are written holds of the image's blocks. -/
theorem forall_mem_written {Good : Block → Prop} (blankGood : Good blank)
    (good : ∀ write ∈ writes, Good write.2) : ∀ block ∈ written blank writes, Good block := by
  intro block member
  rcases mem_iff_getElem?.mp member with ⟨position, found⟩
  have inside := (List.getElem?_eq_some_iff.mp found).1
  rw [getElem?_written blank inside] at found
  cases last : writes.reverse.lookup position with
  | none =>
    simp only [last, Option.getD_none, Option.some.injEq] at found
    exact found ▸ blankGood
  | some other =>
    simp only [last, Option.getD_some, Option.some.injEq] at found
    rcases List.lookup_eq_some_iff.mp last with ⟨later, earlier, split, -⟩
    have present : (position, other) ∈ writes := by
      rw [← mem_reverse, split]
      simp
    exact found ▸ good _ present

/-- Writing the blocks at their positions and putting them one after the other come to the same: no
position is past the end, the last one is written, and the block that is written last at a position,
or a blank block where there is none, is the block whose turn it is. -/
structure InOrder (writes : List (Nat × Block)) : Prop where
  within : ∀ write ∈ writes, write.1 < writes.length
  reaches : writes = [] ∨ ∃ write ∈ writes, write.1 + 1 = writes.length
  agrees : ∀ position write, writes[position]? = some write →
    (writes.reverse.lookup position).getD blank = write.2

theorem length_written_iff :
    (written blank writes).length = writes.length ↔
      (∀ write ∈ writes, write.1 < writes.length) ∧
        (writes = [] ∨ ∃ write ∈ writes, write.1 + 1 = writes.length) := by
  constructor
  · intro same
    constructor
    · intro write member
      rw [← same, lt_length_written]
      exact ⟨write, member, Nat.le_refl _⟩
    · cases count : writes.length with
      | zero => exact .inl (eq_nil_of_length_eq_zero count)
      | succ last =>
        have inside : last < (written blank writes).length := by omega
        rcases (lt_length_written blank).mp inside with ⟨write, member, above⟩
        have bound : write.1 < (written blank writes).length :=
          (lt_length_written blank).mpr ⟨write, member, Nat.le_refl _⟩
        exact .inr ⟨write, member, by omega⟩
  · rintro ⟨within, reaches⟩
    have below : (written blank writes).length ≤ writes.length := by
      by_contra longer
      rcases (lt_length_written blank).mp (Nat.lt_of_not_le longer) with ⟨write, member, above⟩
      have bound := within write member
      omega
    rcases reaches with rfl | ⟨write, member, last⟩
    · simp [written]
    · have inside : write.1 < (written blank writes).length :=
        (lt_length_written blank).mpr ⟨write, member, Nat.le_refl _⟩
      omega

theorem written_eq_iff : written blank writes = writes.map Prod.snd ↔ InOrder blank writes := by
  constructor
  · intro same
    have length : (written blank writes).length = writes.length := by simp [same]
    rcases (length_written_iff blank).mp length with ⟨within, reaches⟩
    refine ⟨within, reaches, ?_⟩
    intro position write found
    have inside : position < (written blank writes).length := by
      rw [length]
      exact (List.getElem?_eq_some_iff.mp found).1
    have block := getElem?_written blank inside
    simpa [same, found] using block.symm
  · intro order
    have length := (length_written_iff blank).mpr ⟨order.within, order.reaches⟩
    apply ext_getElem?
    intro position
    by_cases inside : position < writes.length
    · have found : writes[position]? = some writes[position] := getElem?_eq_getElem inside
      simp [getElem?_written blank (length ▸ inside), order.agrees position _ found, inside]
    · have past := Nat.le_of_not_lt inside
      simp [getElem?_eq_none (length ▸ past), past]

end Foundation.Placement
