/-
Purpose: SHA-256, written so that the kernel evaluates it, and hash-chained logs in general.
-/
import Mathlib.Algebra.Ring.Nat
import NuraOS.Foundation.Text

namespace Foundation

namespace Sha256

structure State where
  a : UInt32
  b : UInt32
  c : UInt32
  d : UInt32
  e : UInt32
  f : UInt32
  g : UInt32
  h : UInt32

def initial : State :=
  { a := 0x6a09e667, b := 0xbb67ae85, c := 0x3c6ef372, d := 0xa54ff53a
    e := 0x510e527f, f := 0x9b05688c, g := 0x1f83d9ab, h := 0x5be0cd19 }

def roundConstants : List UInt32 :=
  [0x428a2f98, 0x71374491, 0xb5c0fbcf, 0xe9b5dba5, 0x3956c25b, 0x59f111f1, 0x923f82a4, 0xab1c5ed5,
   0xd807aa98, 0x12835b01, 0x243185be, 0x550c7dc3, 0x72be5d74, 0x80deb1fe, 0x9bdc06a7, 0xc19bf174,
   0xe49b69c1, 0xefbe4786, 0x0fc19dc6, 0x240ca1cc, 0x2de92c6f, 0x4a7484aa, 0x5cb0a9dc, 0x76f988da,
   0x983e5152, 0xa831c66d, 0xb00327c8, 0xbf597fc7, 0xc6e00bf3, 0xd5a79147, 0x06ca6351, 0x14292967,
   0x27b70a85, 0x2e1b2138, 0x4d2c6dfc, 0x53380d13, 0x650a7354, 0x766a0abb, 0x81c2c92e, 0x92722c85,
   0xa2bfe8a1, 0xa81a664b, 0xc24b8b70, 0xc76c51a3, 0xd192e819, 0xd6990624, 0xf40e3585, 0x106aa070,
   0x19a4c116, 0x1e376c08, 0x2748774c, 0x34b0bcb5, 0x391c0cb3, 0x4ed8aa4a, 0x5b9cca4f, 0x682e6ff3,
   0x748f82ee, 0x78a5636f, 0x84c87814, 0x8cc70208, 0x90befffa, 0xa4506ceb, 0xbef9a3f7, 0xc67178f2]

def rotateRight (word amount : UInt32) : UInt32 :=
  (word >>> amount) ||| (word <<< (32 - amount))

/-- One round; `input` is the round's constant plus its schedule word. -/
def round (s : State) (input : UInt32) : State :=
  let sum1 := rotateRight s.e 6 ^^^ rotateRight s.e 11 ^^^ rotateRight s.e 25
  let choice := (s.e &&& s.f) ^^^ (~~~ s.e &&& s.g)
  let temp1 := s.h + sum1 + choice + input
  let sum0 := rotateRight s.a 2 ^^^ rotateRight s.a 13 ^^^ rotateRight s.a 22
  let majority := (s.a &&& s.b) ^^^ (s.a &&& s.c) ^^^ (s.b &&& s.c)
  { a := temp1 + (sum0 + majority), b := s.a, c := s.b, d := s.c
    e := s.d + temp1, f := s.e, g := s.f, h := s.g }

def nextWord : List UInt32 → UInt32
  | [w0, w1, _, _, _, _, _, _, _, w9, _, _, _, _, w14, _] =>
    let sigma0 := rotateRight w1 7 ^^^ rotateRight w1 18 ^^^ (w1 >>> 3)
    let sigma1 := rotateRight w14 17 ^^^ rotateRight w14 19 ^^^ (w14 >>> 10)
    w0 + sigma0 + w9 + sigma1
  | _ => 0

/-- The first `count` schedule words that start with the given window. -/
def schedule : Nat → List UInt32 → List UInt32
  | 0, _ => []
  | _ + 1, [] => []
  | count + 1, word :: window =>
    word :: schedule count (window ++ [nextWord (word :: window)])

def compress (s : State) (block : List UInt32) : State :=
  let r := (List.zipWith (· + ·) roundConstants (schedule 64 block)).foldl round s
  { a := s.a + r.a, b := s.b + r.b, c := s.c + r.c, d := s.d + r.d
    e := s.e + r.e, f := s.f + r.f, g := s.g + r.g, h := s.h + r.h }

/-- The big-endian bytes of a number, `count` of them. -/
def bigEndian (value : Nat) : Nat → Bytes
  | 0 => []
  | count + 1 => UInt8.ofNat (value / 256 ^ count) :: bigEndian value count

/-- The message, a one bit, zeros up to the last eight bytes of a block, and its length in bits. -/
def pad (message : Bytes) : Bytes :=
  message ++ 0x80 :: List.replicate ((119 - message.length % 64) % 64) 0 ++
    bigEndian (8 * message.length) 8

def toWords : Bytes → List UInt32
  | b0 :: b1 :: b2 :: b3 :: rest =>
    ((b0.toUInt32 <<< 24) ||| (b1.toUInt32 <<< 16) ||| (b2.toUInt32 <<< 8) ||| b3.toUInt32) ::
      toWords rest
  | _ => []

/-- The first `count` blocks of sixteen words. -/
def blocks : Nat → List UInt32 → List (List UInt32)
  | 0, _ => []
  | count + 1, words => words.take 16 :: blocks count (words.drop 16)

def sha256 (message : Bytes) : Bytes :=
  let words := toWords (pad message)
  let s := (blocks (words.length / 16) words).foldl compress initial
  [s.a, s.b, s.c, s.d, s.e, s.f, s.g, s.h].flatMap fun word => bigEndian word.toNat 4

@[simp] theorem length_sha256 (message : Bytes) : (sha256 message).length = 32 := rfl

/-- The hash of the three letters `abc`. -/
example : sha256 [0x61, 0x62, 0x63] =
    [0xba, 0x78, 0x16, 0xbf, 0x8f, 0x01, 0xcf, 0xea, 0x41, 0x41, 0x40, 0xde, 0x5d, 0xae, 0x22, 0x23,
     0xb0, 0x03, 0x61, 0xa3, 0x96, 0x17, 0x7a, 0x9c, 0xb4, 0x10, 0xff, 0x61, 0xf2, 0x00, 0x15,
     0xad] := by
  decide +kernel

def sha256Hex (message : Bytes) : String :=
  hexEncode (sha256 message)

theorem length_utf8_sha256Hex (message : Bytes) : (utf8 (sha256Hex message)).length = 64 := by
  rw [sha256Hex, length_utf8_hexEncode, length_sha256]

end Sha256

/-! ### Hash-chained logs -/

open List

structure ChainFormat (E D : Type) where
  /-- The number the entry says it has. -/
  seq : E → Nat
  /-- The digest it says the entry before it has. -/
  prev : E → D
  /-- The digest it says it has itself. -/
  stored : E → D
  /-- The digest its contents really have. -/
  recomputed : E → D

namespace ChainFormat

variable {E D : Type} (format : ChainFormat E D)

def tip (start : D) (entries : List E) : D :=
  (entries.getLast?.map format.stored).getD start

/-- Entries numbered from `number` on that chain up from the digest `start`. -/
def Linked : Nat → D → List E → Prop
  | _, _, [] => True
  | number, start, entry :: entries =>
    format.seq entry = number ∧ format.prev entry = start ∧
      format.stored entry = format.recomputed entry ∧
      Linked (number + 1) (format.stored entry) entries

variable {format}

variable {number : Nat} {start : D} {entry : E}

theorem linked_singleton :
    format.Linked number start [entry] ↔
      format.seq entry = number ∧ format.prev entry = start ∧
        format.stored entry = format.recomputed entry := by
  simp [Linked]

@[simp] theorem tip_nil (start : D) : format.tip start [] = start := rfl

@[simp] theorem tip_concat (start : D) (entries : List E) (entry : E) :
    format.tip start (entries ++ [entry]) = format.stored entry := by
  simp [tip]

theorem tip_cons (start : D) (entry : E) (entries : List E) :
    format.tip start (entry :: entries) = format.tip (format.stored entry) entries := by
  cases entries with
  | nil => rfl
  | cons next rest => simp [tip, getLast?_cons]

theorem tip_append (start : D) (first second : List E) :
    format.tip start (first ++ second) = format.tip (format.tip start first) second := by
  induction first generalizing start with
  | nil => rfl
  | cons entry entries ih =>
    rw [cons_append, tip_cons, tip_cons, ih]

/-- Chains compose: the second part starts at the number and the digest where the first ends. -/
theorem linked_append {first second : List E} :
    format.Linked number start (first ++ second) ↔
      format.Linked number start first ∧
        format.Linked (number + first.length) (format.tip start first) second := by
  induction first generalizing number start with
  | nil => simp [Linked]
  | cons entry entries ih =>
    simp only [cons_append, Linked, ih, tip_cons, length_cons]
    rw [show number + 1 + entries.length = number + (entries.length + 1) by omega]
    simp only [and_assoc]

theorem linked_concat {entries : List E} :
    format.Linked number start (entries ++ [entry]) ↔
      format.Linked number start entries ∧
        format.seq entry = number + entries.length ∧
        format.prev entry = format.tip start entries ∧
        format.stored entry = format.recomputed entry := by
  rw [linked_append, linked_singleton]

namespace Linked

variable {number : Nat} {start : D} {entries others : List E}

theorem of_prefix (linked : format.Linked number start entries) (beginning : others <+: entries) :
    format.Linked number start others := by
  obtain ⟨rest, rfl⟩ := beginning
  exact (linked_append.mp linked).1

theorem seq_getElem (linked : format.Linked number start entries) {index : Nat}
    (bound : index < entries.length) : format.seq entries[index] = number + index := by
  induction entries generalizing number start index with
  | nil => simp at bound
  | cons entry entries ih =>
    cases index with
    | zero => exact linked.1
    | succ index =>
      have later := ih linked.2.2.2 (by simpa using bound)
      rw [getElem_cons_succ, later]
      omega

variable {entry : E}

theorem sealed_of_mem (linked : format.Linked number start entries)
    (member : entry ∈ entries) : format.stored entry = format.recomputed entry := by
  induction entries generalizing number start with
  | nil => simp at member
  | cons head entries ih =>
    rcases mem_cons.mp member with rfl | later
    · exact linked.2.2.1
    · exact ih linked.2.2.2 later

/-- The digest before an entry of a linked log is the start or a digest that the log stores. -/
theorem prev_of_mem (linked : format.Linked number start entries) (member : entry ∈ entries) :
    format.prev entry = start ∨ ∃ earlier ∈ entries, format.prev entry = format.stored earlier := by
  induction entries generalizing number start with
  | nil => simp at member
  | cons head entries ih =>
    rcases mem_cons.mp member with rfl | later
    · exact Or.inl linked.2.1
    · right
      rcases ih linked.2.2.2 later with atHead | ⟨earlier, inRest, equality⟩
      · exact ⟨head, mem_cons_self, atHead⟩
      · exact ⟨earlier, mem_cons_of_mem _ inRest, equality⟩

/-- The last digest binds the log: two linked logs that end in the same digest are the same log, when
no two of their entries share a digest. -/
theorem eq_of_tip_eq (first : format.Linked number start entries)
    (second : format.Linked number start others)
    (binding : ∀ entry ∈ entries, ∀ other ∈ others,
      format.stored entry = format.stored other → entry = other)
    (nonempty : entries ≠ []) (otherNonempty : others ≠ [])
    (sameTip : format.tip start entries = format.tip start others) : entries = others := by
  -- Induction from the tail: equal last digests give equal last entries, hence equal lengths and
  -- equal digests one entry earlier.
  induction entries using List.reverseRecOn generalizing others with
  | nil => exact absurd rfl nonempty
  | append_singleton front last ih =>
    obtain ⟨otherFront, otherLast, rfl⟩ :=
      (eq_nil_or_concat others).resolve_left otherNonempty
    rw [concat_eq_append] at *
    simp only [tip_concat] at sameTip
    have same : last = otherLast :=
      binding last (by simp) otherLast (by simp) sameTip
    subst same
    obtain ⟨frontLinked, seqEq, prevEq, -⟩ := linked_concat.mp first
    obtain ⟨otherLinked, otherSeqEq, otherPrevEq, -⟩ := linked_concat.mp second
    have sameLength : front.length = otherFront.length := by omega
    by_cases empty : front = []
    · have otherEmpty : otherFront = [] :=
        length_eq_zero_iff.mp (by rw [← sameLength, empty]; rfl)
      rw [empty, otherEmpty]
    · have otherFull : otherFront ≠ [] := by
        intro otherEmpty
        exact empty (length_eq_zero_iff.mp (by rw [sameLength, otherEmpty]; rfl))
      have fronts : front = otherFront := by
        refine ih frontLinked otherLinked ?_ empty otherFull ?_
        · intro entry inFront other inOther
          exact binding entry (by simp [inFront]) other (by simp [inOther])
        · rw [← prevEq, ← otherPrevEq]
      rw [fronts]

/-- A linked log whose entries all come from another linked log is a beginning of it: deleting or
moving entries anywhere but at the end breaks the numbering. -/
theorem prefix_of_subset (whole : format.Linked number start entries)
    (part : format.Linked number start others) (subset : others ⊆ entries) :
    others <+: entries := by
  have position : ∀ index (bound : index < others.length),
      ∃ inside : index < entries.length, entries[index] = others[index] := by
    intro index bound
    obtain ⟨found, inside, equality⟩ :=
      getElem_of_mem (subset (getElem_mem bound))
    have number := whole.seq_getElem inside
    rw [equality, part.seq_getElem bound] at number
    have same : found = index := by omega
    subst same
    exact ⟨inside, equality⟩
  refine List.prefix_iff_getElem.mpr ⟨?_, ?_⟩
  · by_contra longer
    obtain ⟨inside, -⟩ := position entries.length (by omega)
    omega
  · intro index bound
    exact (position index bound).2.symm

end Linked

end ChainFormat

end Foundation
