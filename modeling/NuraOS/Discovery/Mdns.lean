/-
Purpose: How the mDNS responder reads names with compression pointers, and when it comes to an end.
-/
import NuraOS.Foundation.Machine
import NuraOS.Foundation.Text

namespace NuraOS.Discovery

open Foundation

def dnsTypePTR : Nat := 12

inductive Parsed (α : Type) where
  | returned (value : α)
  | panicked
  | running

/-- `.` -/
def period : UInt8 := 46

/-- `strings.Join` and `strings.Split` at the periods. -/
def joinLabels (labels : List Bytes) : Bytes := [period].intercalate labels

def splitLabels (name : Bytes) : List Bytes := name.splitOn period

/-- `binary.BigEndian.Uint16` at an offset that has two bytes. -/
def uint16At (pkt : Bytes) (off : Nat) : Nat :=
  (pkt.getD off 0).toNat * 256 + (pkt.getD (off + 1) 0).toNat

/-- `parseName`, with the labels collected so far: the name and the offset after it, or -1. -/
def parseName (pkt : Bytes) : Nat → List Bytes → Int → Parsed (Bytes × Int)
  | 0, _, _ => .running
  | steps + 1, labels, off =>
    if off ≥ pkt.length then .returned ([], -1)
    -- `pkt[off]`
    else if off < 0 then .panicked
    else
      let llen := (pkt.getD off.toNat 0).toNat
      if llen = 0 then .returned (joinLabels labels, off + 1)
      else if llen &&& 0xC0 = 0xC0 then
        if off + 1 ≥ pkt.length then .returned ([], -1)
        else
          let ptr := uint16At pkt off.toNat &&& 0x3FFF
          if (ptr : Int) ≥ off then .returned ([], -1)
          else
            match parseName pkt steps [] ptr with
            | .returned (rest, ok) =>
              if ok < 0 then .returned ([], -1)
              else
                let labels := if rest ≠ [] then labels ++ splitLabels rest else labels
                .returned (joinLabels labels, off + 2)
            | .panicked => .panicked
            | .running => .running
      else if off + 1 + llen > pkt.length then .returned ([], -1)
      else parseName pkt steps (labels ++ [(pkt.drop (off.toNat + 1)).take llen]) (off + 1 + llen)

/-- `strings.EqualFold` with a text none of whose letters has a case variant outside ASCII. -/
def equalFold (name : Bytes) (text : String) : Bool :=
  name.map (fun byte => if 65 ≤ byte ∧ byte ≤ 90 then byte + 32 else byte) = utf8 text

/-- `isQueryForService`. -/
def isQueryForService (pkt : Bytes) (steps : Nat) : Parsed Bool :=
  if pkt.length < 12 then .returned false
  else if uint16At pkt 2 &&& 0x8000 ≠ 0 then .returned false
  else if uint16At pkt 4 = 0 then .returned false
  else
    match parseName pkt steps [] 12 with
    | .returned (name, next) =>
      if next < 0 ∨ next + 2 > pkt.length then .returned false
      else .returned (uint16At pkt next.toNat = dnsTypePTR ∧ equalFold name "_nura._tcp.local")
    | .panicked => .panicked
    | .running => .running

/-! ### Termination -/

open Relation

def pointerAt (pkt : Bytes) (off : Nat) : Option Nat :=
  let ptr := uint16At pkt off &&& 0x3FFF
  if off + 1 < pkt.length ∧ (pkt.getD off 0).toNat &&& 0xC0 = 0xC0 ∧ ptr < off then some ptr else none

def labelAt (pkt : Bytes) (off : Nat) : Option Nat :=
  let llen := (pkt.getD off 0).toNat
  if off < pkt.length ∧ llen ≠ 0 ∧ llen &&& 0xC0 ≠ 0xC0 ∧ off + 1 + llen ≤ pkt.length then
    some (off + 1 + llen)
  else none

def hop (pkt : Bytes) (off : Nat) : Option Nat := (pointerAt pkt off).or (labelAt pkt off)

def PointersEscape (pkt : Bytes) (start : Nat) : Prop :=
  ∀ pointer target, ReflTransGen (Leads (hop pkt)) start pointer → pointerAt pkt pointer = some target →
    ¬ ReflTransGen (Leads (hop pkt)) target pointer

section Passes

variable {pkt : Bytes} {off next : Nat}

theorem hop_lt_length (defined : hop pkt off ≠ none) : off < pkt.length := by
  by_contra outside
  apply defined
  rw [hop, pointerAt, labelAt, if_neg (fun h => outside (by omega)), if_neg (fun h => outside h.1)]
  rfl

theorem hop_cases (steps : hop pkt off = some next) : pointerAt pkt off = some next ∨ off < next := by
  rcases Option.or_eq_some_iff.mp steps with pointer | ⟨-, label⟩
  · exact .inl pointer
  · rw [labelAt] at label
    split at label
    · cases label
      exact .inr (by omega)
    · cases label

theorem hop_pointer (inside : off + 1 < pkt.length) (pointer : (pkt.getD off 0).toNat &&& 0xC0 = 0xC0)
    (back : uint16At pkt off &&& 0x3FFF < off) : hop pkt off = some (uint16At pkt off &&& 0x3FFF) := by
  rw [hop, pointerAt, if_pos ⟨inside, pointer, back⟩, Option.some_or]

theorem hop_label (inside : off < pkt.length) (nonzero : (pkt.getD off 0).toNat ≠ 0)
    (label : (pkt.getD off 0).toNat &&& 0xC0 ≠ 0xC0) (fits : off + 1 + (pkt.getD off 0).toNat ≤ pkt.length) :
    hop pkt off = some (off + 1 + (pkt.getD off 0).toNat) := by
  rw [hop, pointerAt, labelAt, if_neg (fun h => label h.2.1), if_pos ⟨inside, nonzero, label, fits⟩,
    Option.none_or]

theorem hop_eq_none (noPointer : ¬ (off + 1 < pkt.length ∧ (pkt.getD off 0).toNat &&& 0xC0 = 0xC0 ∧
      uint16At pkt off &&& 0x3FFF < off))
    (noLabel : ¬ (off < pkt.length ∧ (pkt.getD off 0).toNat ≠ 0 ∧
      (pkt.getD off 0).toNat &&& 0xC0 ≠ 0xC0 ∧ off + 1 + (pkt.getD off 0).toNat ≤ pkt.length)) :
    hop pkt off = none := by
  rw [hop, pointerAt, labelAt, if_neg noPointer, if_neg noLabel]
  rfl

theorem parseName_succ (pkt : Bytes) (steps : Nat) (labels : List Bytes) (off : Nat) :
    parseName pkt (steps + 1) labels off =
      if pkt.length ≤ off then .returned ([], -1)
      else if (pkt.getD off 0).toNat = 0 then .returned (joinLabels labels, off + 1)
      else if (pkt.getD off 0).toNat &&& 0xC0 = 0xC0 then
        if pkt.length ≤ off + 1 then .returned ([], -1)
        else if off ≤ uint16At pkt off &&& 0x3FFF then .returned ([], -1)
        else
          match parseName pkt steps [] (uint16At pkt off &&& 0x3FFF : Nat) with
          | .returned (rest, ok) =>
            if ok < 0 then .returned ([], -1)
            else .returned (joinLabels (if rest ≠ [] then labels ++ splitLabels rest else labels), off + 2)
          | .panicked => .panicked
          | .running => .running
      else if pkt.length < off + 1 + (pkt.getD off 0).toNat then .returned ([], -1)
      else
        parseName pkt steps (labels ++ [(pkt.drop (off + 1)).take (pkt.getD off 0).toNat])
          (off + 1 + (pkt.getD off 0).toNat : Nat) := by
  have positive : ¬ (off : Int) < 0 := Int.not_lt.mpr (Int.natCast_nonneg off)
  rw [parseName, if_neg positive]
  norm_cast

theorem parseName_step (pkt : Bytes) (steps : Nat) (labels : List Bytes) (off : Nat) :
    (hop pkt off = none → ∃ result, parseName pkt (steps + 1) labels off = .returned result) ∧
      ∀ next, hop pkt off = some next →
        ∃ inner, (∃ result, parseName pkt (steps + 1) labels off = .returned result) ↔
          ∃ result, parseName pkt steps inner next = .returned result := by
  have stops : ∀ result : Bytes × Int, hop pkt off = none →
      (hop pkt off = none → ∃ other, Parsed.returned result = .returned other) ∧
        ∀ next, hop pkt off = some next →
          ∃ inner, (∃ other, Parsed.returned result = .returned other) ↔
            ∃ other, parseName pkt steps inner next = .returned other := by
    intro result none
    exact ⟨fun _ => ⟨result, rfl⟩, fun next some => nomatch none.symm.trans some⟩
  rw [parseName_succ]
  split_ifs with outside root pointer cut forward tooLong
  · exact stops _ (hop_eq_none (fun h => by omega) fun h => by omega)
  · refine stops _ (hop_eq_none (fun h => ?_) fun h => h.2.1 root)
    rw [root] at h
    exact absurd h.2.1 (by decide)
  · exact stops _ (hop_eq_none (fun h => by omega) fun h => h.2.2.1 pointer)
  · exact stops _ (hop_eq_none (fun h => by omega) fun h => h.2.2.1 pointer)
  · -- The pointer is followed by a recursive call, whose result is passed on.
    have follows := hop_pointer (Nat.lt_of_not_le cut) pointer (Nat.lt_of_not_le forward)
    refine ⟨fun none => (nomatch none.symm.trans follows), fun next some => ⟨[], ?_⟩⟩
    cases follows.symm.trans some
    cases parseName pkt steps [] (uint16At pkt off &&& 0x3FFF : Nat) with
    | returned value =>
      refine iff_of_true ?_ ⟨value, rfl⟩
      dsimp only
      split_ifs <;> exact ⟨_, rfl⟩
    | panicked => simp
    | running => simp
  · exact stops _ (hop_eq_none (fun h => pointer h.2.1) fun h => by omega)
  · have goesOn := hop_label (Nat.lt_of_not_le outside) root pointer (Nat.le_of_not_lt tooLong)
    refine ⟨fun none => (nomatch none.symm.trans goesOn), fun next some => ?_⟩
    cases goesOn.symm.trans some
    exact ⟨_, Iff.rfl⟩

/-- A call returns within a number of passes exactly if the way of its offsets ends within them. -/
theorem parseName_returns_iff (pkt : Bytes) (steps : Nat) (labels : List Bytes) (off : Nat) :
    (∃ result, parseName pkt steps labels off = .returned result) ↔ orbit (hop pkt) steps off = none := by
  induction steps generalizing labels off with
  | zero => simp [parseName, orbit]
  | succ steps ih =>
    have pass := parseName_step pkt steps labels off
    rw [orbit]
    cases step : hop pkt off with
    | none => exact iff_of_true (pass.1 step) rfl
    | some next =>
      obtain ⟨inner, same⟩ := pass.2 next step
      rw [same, ih, Option.bind_some]

end Passes

theorem pointer_of_leads {pkt : Bytes} {start last : Nat} (leads : TransGen (Leads (hop pkt)) start last) :
    start < last ∨ ∃ pointer target, ReflTransGen (Leads (hop pkt)) start pointer ∧
      pointerAt pkt pointer = some target ∧ ReflTransGen (Leads (hop pkt)) target last := by
  induction leads with
  | single step =>
    rcases hop_cases step with pointer | forward
    · exact .inr ⟨_, _, .refl, pointer, .refl⟩
    · exact .inl forward
  | tail before step ih =>
    rcases ih with forward | ⟨pointer, target, reached, followed, after⟩
    · rcases hop_cases step with pointer | further
      · exact .inr ⟨_, _, before.to_reflTransGen, pointer, .refl⟩
      · exact .inl (forward.trans further)
    · exact .inr ⟨pointer, target, reached, followed, after.tail step⟩

theorem acyclic_iff_pointersEscape (pkt : Bytes) (start : Nat) :
    (∀ off, ReflTransGen (Leads (hop pkt)) start off → ¬ TransGen (Leads (hop pkt)) off off) ↔
      PointersEscape pkt start := by
  constructor
  · intro acyclic pointer target reached followed back
    have step : Leads (hop pkt) pointer target := by
      rw [Leads, hop, followed, Option.some_or]
    exact acyclic pointer reached (.head' step back)
  · intro escape off reached cycle
    rcases pointer_of_leads cycle with forward | ⟨pointer, target, there, followed, back⟩
    · exact Nat.lt_irrefl off forward
    · exact escape pointer target (reached.trans there) followed (back.trans there)

theorem orbit_hop_iff (pkt : Bytes) (start : Nat) :
    orbit (hop pkt) (pkt.length + 1) start = none ↔ PointersEscape pkt start := by
  have bounded : ∀ off, hop pkt off ≠ none → off ∈ Finset.range pkt.length :=
    fun off defined => Finset.mem_range.mpr (hop_lt_length defined)
  have ends := orbit_eq_none_iff (a := start) bounded
  rw [Finset.card_range] at ends
  rw [ends, acyclic_iff_pointersEscape]

/-- The header of a packet that is not parsed any further: it is too short, a response, or has no question. -/
def HeaderDeclined (pkt : Bytes) : Prop :=
  pkt.length < 12 ∨ uint16At pkt 2 &&& 0x8000 ≠ 0 ∨ uint16At pkt 4 = 0

instance (pkt : Bytes) : Decidable (HeaderDeclined pkt) :=
  inferInstanceAs (Decidable (_ ∨ _ ∨ _))

theorem parseName_negative (pkt : Bytes) (steps : Nat) (labels : List Bytes) {off : Int} (negative : off < 0)
    (result : Bytes × Int) : parseName pkt steps labels off ≠ .returned result := by
  cases steps with
  | zero => simp [parseName]
  | succ steps => simp [parseName, negative, show ¬ (pkt.length : Int) ≤ off by omega]

theorem isQueryForService_returns_iff (pkt : Bytes) (steps : Nat) :
    (∃ answer, isQueryForService pkt steps = .returned answer) ↔
      HeaderDeclined pkt ∨ ∃ result, parseName pkt steps [] 12 = .returned result := by
  rw [isQueryForService, HeaderDeclined]
  by_cases short : pkt.length < 12
  · rw [if_pos short]
    exact iff_of_true ⟨_, rfl⟩ (.inl (.inl short))
  by_cases response : uint16At pkt 2 &&& 0x8000 ≠ 0
  · rw [if_neg short, if_pos response]
    exact iff_of_true ⟨_, rfl⟩ (.inl (.inr (.inl response)))
  by_cases empty : uint16At pkt 4 = 0
  · rw [if_neg short, if_neg response, if_pos empty]
    exact iff_of_true ⟨_, rfl⟩ (.inl (.inr (.inr empty)))
  simp only [short, response, empty, false_or]
  cases parseName pkt steps [] 12 with
  | returned value =>
    refine iff_of_true ?_ ⟨value, rfl⟩
    dsimp only
    split_ifs <;> exact ⟨_, rfl⟩
  | panicked => simp
  | running => simp

/-- A name is parsed within one pass per byte and one more, or never: it is parsed exactly if its offset is not
negative and no pointer on its way is reached again from its target. A packet is answered exactly if its header
declines it or its first name is parsed. -/
theorem parsing_returns_iff (pkt : Bytes) :
    (∀ off : Int,
      ((∃ result, parseName pkt (pkt.length + 1) [] off = .returned result) ↔
        0 ≤ off ∧ PointersEscape pkt off.toNat) ∧
      ((∃ steps result, parseName pkt steps [] off = .returned result) ↔
        0 ≤ off ∧ PointersEscape pkt off.toNat)) ∧
    ((∃ answer, isQueryForService pkt (pkt.length + 1) = .returned answer) ↔
      HeaderDeclined pkt ∨ PointersEscape pkt 12) := by
  have within : ∀ off : Nat, (∃ result, parseName pkt (pkt.length + 1) [] off = .returned result) ↔
      PointersEscape pkt off := by
    intro off
    rw [parseName_returns_iff, orbit_hop_iff]
  have ever : ∀ off : Nat, (∃ steps result, parseName pkt steps [] off = .returned result) ↔
      PointersEscape pkt off := by
    intro off
    refine ⟨?_, fun escape => ⟨_, (within off).mpr escape⟩⟩
    rintro ⟨steps, returned⟩
    rw [parseName_returns_iff] at returned
    exact (acyclic_iff_pointersEscape pkt off).mp fun _ => acyclic_of_orbit returned
  refine ⟨fun off => ?_, ?_⟩
  · cases off with
    | ofNat off => simpa using And.intro (within off) (ever off)
    | negSucc off =>
      have negative : Int.negSucc off < 0 := Int.negSucc_lt_zero off
      simp [parseName_negative pkt _ _ negative]
  · rw [isQueryForService_returns_iff]
    exact or_congr_right (within 12)

/-- A query whose name is the label `a` and a pointer back to it. -/
def loopingQuery : Bytes :=
  [0, 0, 0, 0, 0, 1, 0, 0, 0, 0, 0, 0, 1, 97, 0xC0, 12, 0, 12, 0, 1]

/-- No number of passes is enough to answer it. -/
theorem loopingQuery_never_answered :
    ¬ ∃ steps answer, isQueryForService loopingQuery steps = .returned answer := by
  have label : Leads (hop loopingQuery) 12 14 := show hop loopingQuery 12 = some 14 by decide
  have pointer : Leads (hop loopingQuery) 14 12 := show hop loopingQuery 14 = some 12 by decide
  rintro ⟨steps, answered⟩
  rcases (isQueryForService_returns_iff loopingQuery steps).mp answered with declined | parsed
  · exact absurd declined (by decide)
  · have ended := (parseName_returns_iff loopingQuery steps [] 12).mp parsed
    exact orbit_ne_none_of_cycle (.tail (.single label) pointer) steps ended

end NuraOS.Discovery
