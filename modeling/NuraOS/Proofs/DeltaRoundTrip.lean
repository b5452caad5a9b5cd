/-
Purpose: What the delta code does with every image and stream, the documented format and the statistics.
-/
import Mathlib.Algebra.BigOperators.Group.List.Basic
import Mathlib.Data.Set.Function
import NuraOS.Delta.Operations

namespace NuraOS.Delta

open Foundation List Sha256

variable {bs value count index : Nat} {data stream rest : Bytes} {blocks srcBlocks : List Bytes}
  {srcIdx : List (Bytes × Nat)}

theorem length_padBlock : (padBlock bs data).length = bs := by
  simp only [padBlock, length_append, length_take, length_replicate]
  omega

theorem padBlock_of_length (full : data.length = bs) : padBlock bs data = data := by
  rw [padBlock, full, Nat.sub_self, replicate_zero, append_nil, ← full,
    take_length]

theorem splitLoop_zero (fuel : Nat) (nonempty : data ≠ []) : splitLoop 0 fuel data = none := by
  induction fuel with
  | zero =>
    obtain ⟨byte, more, rfl⟩ := exists_cons_of_ne_nil nonempty
    rfl
  | succ fuel ih => rw [splitLoop.eq_3 _ _ _ nonempty, drop_zero, ih, Option.map_none]

/-- The bytes of an image that lie in its block of this number. -/
def piece (bs : Nat) (image : Bytes) (number : Nat) : Bytes :=
  (image.drop (number * bs)).take bs

/-- The blocks of an image, the last one filled up with zeros. -/
def paddedPieces (bs : Nat) (image : Bytes) : List Bytes :=
  (range ((image.length + bs - 1) / bs)).map fun number => padBlock bs (piece bs image number)

/-- The blocks of an image: each has the block size, there are no more than needed, and together they
are the image followed by zeros. -/
structure Splits (bs : Nat) (data : Bytes) (blocks : List Bytes) : Prop where
  lengths : ∀ blk ∈ blocks, blk.length = bs
  count : blocks.length = (data.length + bs - 1) / bs
  image : blocks.flatten = data ++ List.replicate (blocks.length * bs - data.length) 0

theorem blockCount_succ (positive : 0 < bs) {length : Nat} (nonempty : 0 < length) :
    (length + bs - 1) / bs = (length - bs + bs - 1) / bs + 1 := by
  rcases Nat.lt_or_ge bs length with long | short
  · rw [← Nat.add_div_right _ positive]
    congr 1
    omega
  · have one : length + bs - 1 = (length - 1) + bs := by omega
    rw [one, Nat.add_div_right _ positive, Nat.div_eq_of_lt (by omega), Nat.div_eq_of_lt (by omega)]

theorem paddedPieces_nil (positive : 0 < bs) : paddedPieces bs [] = [] := by
  rw [paddedPieces, length_nil, Nat.zero_add, Nat.div_eq_of_lt (by omega)]
  rfl

theorem paddedPieces_of_ne_nil (positive : 0 < bs) (nonempty : data ≠ []) :
    paddedPieces bs data = padBlock bs (data.take bs) :: paddedPieces bs (data.drop bs) := by
  have next : ∀ number, piece bs (data.drop bs) number = piece bs data (number + 1) := by
    intro number
    rw [piece, piece, drop_drop, Nat.add_mul, Nat.one_mul, Nat.add_comm]
  have first : piece bs data 0 = data.take bs := by rw [piece, Nat.zero_mul, drop_zero]
  rw [paddedPieces, blockCount_succ positive (length_pos_iff.mpr nonempty), range_succ_eq_map, map_cons,
    map_map, first, paddedPieces, length_drop]
  simp only [next, Function.comp_def]

theorem splitLoop_spec (positive : 0 < bs) {fuel : Nat} (enough : data.length ≤ fuel) :
    splitLoop bs fuel data = some (paddedPieces bs data) ∧ (paddedPieces bs data).flatten =
      data ++ List.replicate ((paddedPieces bs data).length * bs - data.length) 0 := by
  -- each round drops a whole block or ends the data
  fun_induction splitLoop bs fuel data with
  | case1 => simp [paddedPieces_nil positive]
  | case2 => simp at enough
  | case3 fuel data nonempty ih =>
    have shorter : (data.drop bs).length ≤ fuel := by
      rw [length_drop]
      omega
    obtain ⟨splits, image⟩ := ih shorter
    rw [splits, paddedPieces_of_ne_nil positive nonempty, Option.map_some, flatten_cons, image, length_cons,
      Nat.add_mul, Nat.one_mul, length_drop]
    refine ⟨rfl, ?_⟩
    rcases Nat.lt_or_ge data.length bs with short | long
    · rw [drop_eq_nil_of_le short.le, paddedPieces_nil positive, take_of_length_le short.le, padBlock,
        take_of_length_le short.le]
      simp
    · have full : (data.take bs).length = bs := by rw [length_take, Nat.min_eq_left long]
      rw [padBlock_of_length full, ← append_assoc, take_append_drop]
      congr 2
      omega

theorem splitBlocks_eq_none_iff (data : Bytes) (bs : Nat) :
    splitBlocks data bs = none ↔ bs = 0 ∧ data ≠ [] := by
  constructor
  · intro endless
    have zero : bs = 0 := by
      by_contra positive
      rw [splitBlocks, (splitLoop_spec (Nat.pos_of_ne_zero positive) (Nat.le_refl _)).1] at endless
      cases endless
    refine ⟨zero, ?_⟩
    rintro rfl
    cases endless
  · rintro ⟨rfl, nonempty⟩
    exact splitLoop_zero _ nonempty

/-! ### The readers take off exactly what the writers put there -/

theorem bigEndian_succ (value count : Nat) :
    bigEndian value (count + 1) = bigEndian (value / 256) count ++ [UInt8.ofNat value] := by
  induction count with
  | zero => simp [bigEndian]
  | succ count ih =>
    rw [bigEndian, ih, bigEndian, cons_append, Nat.div_div_eq_div_mul, Nat.pow_succ']

theorem length_bigEndian (value count : Nat) : (bigEndian value count).length = count := by
  induction count with
  | zero => rfl
  | succ count ih => rw [bigEndian, length_cons, ih]

theorem fromBigEndian_concat (bytes : Bytes) (byte : UInt8) :
    fromBigEndian (bytes ++ [byte]) = 256 * fromBigEndian bytes + byte.toNat := by
  simp [fromBigEndian]

theorem fromBigEndian_bigEndian (bound : value < 256 ^ count) :
    fromBigEndian (bigEndian value count) = value := by
  induction count generalizing value with
  | zero =>
    rw [Nat.pow_zero, Nat.lt_one_iff] at bound
    rw [bound]
    rfl
  | succ count ih =>
    have shorter : value / 256 < 256 ^ count :=
      Nat.div_lt_of_lt_mul (by rwa [← Nat.pow_succ'])
    rw [bigEndian_succ, fromBigEndian_concat, ih shorter, UInt8.toNat_ofNat']
    exact Nat.div_add_mod value 256

theorem bigEndian_fromBigEndian (bytes : Bytes) :
    fromBigEndian bytes < 256 ^ bytes.length ∧
      bigEndian (fromBigEndian bytes) bytes.length = bytes := by
  induction bytes using List.reverseRecOn with
  | nil => exact ⟨by decide, rfl⟩
  | append_singleton bytes byte ih =>
    have small : byte.toNat < 256 := byte.toNat_lt
    have high : (256 * fromBigEndian bytes + byte.toNat) / 256 = fromBigEndian bytes := by omega
    have low : UInt8.ofNat (256 * fromBigEndian bytes + byte.toNat) = byte :=
      UInt8.toNat.inj (by rw [UInt8.toNat_ofNat']; omega)
    rw [fromBigEndian_concat, length_append, length_singleton, bigEndian_succ, high, low, ih.2]
    exact ⟨by omega, rfl⟩

theorem readFull_eq_ok_iff {bytes : Bytes} :
    readFull count stream = .ok (bytes, rest) ↔ bytes.length = count ∧ stream = bytes ++ rest := by
  constructor
  · intro read
    by_cases enough : count ≤ stream.length
    · simp only [readFull, enough, if_true, Except.ok.injEq, Prod.mk.injEq] at read
      rcases read with ⟨rfl, rfl⟩
      simp [enough]
    · cases empty : stream.isEmpty <;> simp [readFull, enough, empty] at read
  · rintro ⟨rfl, rfl⟩
    rw [readFull, if_pos, take_left, drop_left]
    simp

theorem readNumber_eq_ok_iff :
    (do
      let (bytes, rest) ← readFull count stream
      return (fromBigEndian bytes, rest) : Except DeltaError (Nat × Bytes)) = .ok (value, rest) ↔
      value < 256 ^ count ∧ stream = bigEndian value count ++ rest := by
  simp only [Codec.bind_eq_ok_iff, Prod.exists, readFull_eq_ok_iff, pure, Except.pure,
    Except.ok.injEq, Prod.mk.injEq]
  constructor
  · rintro ⟨bytes, more, ⟨rfl, rfl⟩, rfl, rfl⟩
    obtain ⟨bound, same⟩ := bigEndian_fromBigEndian bytes
    exact ⟨bound, by rw [same]⟩
  · rintro ⟨bound, rfl⟩
    exact ⟨_, rest, ⟨length_bigEndian _ _, rfl⟩, fromBigEndian_bigEndian bound, rfl⟩

theorem readU16_eq_ok_iff :
    readU16 stream = .ok (value, rest) ↔ value < 2 ^ 16 ∧ stream = writeU16 value ++ rest :=
  readNumber_eq_ok_iff

theorem readU32_eq_ok_iff :
    readU32 stream = .ok (value, rest) ↔ value < 2 ^ 32 ∧ stream = writeU32 value ++ rest :=
  readNumber_eq_ok_iff

theorem readHeader_inverts : Codec.Inverts readHeader writeHeader Header.Fits := by
  intro stream hdr rest
  simp only [readHeader, Codec.bind_eq_ok_iff, Prod.exists, readFull_eq_ok_iff]
  constructor
  · rintro ⟨magicBuf, afterMagic, ⟨-, rfl⟩, read⟩
    by_cases good : magicBuf = magic
    · subst good
      simp only [ne_eq, not_true_eq_false, if_false, pure, Except.pure, Codec.bind_eq_ok_iff,
        Prod.exists, readFull_eq_ok_iff, readU16_eq_ok_iff, readU32_eq_ok_iff, Except.ok.injEq,
        Prod.mk.injEq] at read
      rcases read with ⟨version, _, ⟨versionFits, rfl⟩, blockSize, _, ⟨sizeFits, rfl⟩,
        src, _, ⟨srcLength, rfl⟩, dst, _, ⟨dstLength, rfl⟩, count, _, ⟨countFits, rfl⟩, rfl, rfl⟩
      exact ⟨⟨versionFits, sizeFits, srcLength, dstLength, countFits⟩, by simp [writeHeader]⟩
    · simp [good, throw, throwThe, MonadExceptOf.throw, Codec.bind_eq_ok_iff] at read
  · rintro ⟨fits, rfl⟩
    refine ⟨magic, _, ⟨rfl, by simp only [writeHeader, append_assoc]; rfl⟩, ?_⟩
    simp only [ne_eq, not_true_eq_false, if_false, pure, Except.pure, Codec.bind_eq_ok_iff,
        Prod.exists, readFull_eq_ok_iff, readU16_eq_ok_iff, readU32_eq_ok_iff, Except.ok.injEq,
        Prod.mk.injEq]
    exact ⟨_, _, ⟨fits.version, rfl⟩, _, _, ⟨fits.blockSize, rfl⟩, _, _, ⟨fits.srcSHA256, rfl⟩, _, _,
      ⟨fits.dstSHA256, rfl⟩, _, _, ⟨fits.opCount, rfl⟩, rfl, rfl⟩

theorem readOp_inverts : Codec.Inverts readOp writeOp Op.Fits := by
  intro stream op rest
  simp only [readOp, Codec.bind_eq_ok_iff, Prod.exists, readFull_eq_ok_iff, readU32_eq_ok_iff]
  constructor
  · rintro ⟨typeBuf, _, ⟨single, rfl⟩, targetIdx, _, ⟨target, rfl⟩, read⟩
    rcases length_eq_one_iff.mp single with ⟨opType, rfl⟩
    have value : fromBigEndian [opType] = opType.toNat := by simp [fromBigEndian]
    rw [value] at read
    split at read
    case h_1 copy =>
      have zero : opType = 0 := UInt8.toNat.inj copy
      simp only [Codec.bind_eq_ok_iff, Prod.exists, readU32_eq_ok_iff, pure, Except.pure,
        Except.ok.injEq, Prod.mk.injEq] at read
      rcases read with ⟨srcIdx, _, ⟨source, rfl⟩, rfl, rfl⟩
      exact ⟨⟨target, source⟩, by simp [writeOp, zero]⟩
    case h_2 data =>
      have one : opType = 1 := UInt8.toNat.inj data
      simp only [Codec.bind_eq_ok_iff, Prod.exists, readFull_eq_ok_iff, readU32_eq_ok_iff, pure,
        Except.pure, Except.ok.injEq, Prod.mk.injEq] at read
      rcases read with ⟨_, _, ⟨fits, rfl⟩, bytes, _, ⟨rfl, rfl⟩, rfl, rfl⟩
      have same : toUint32 bytes.length = bytes.length := Nat.mod_eq_of_lt fits
      exact ⟨⟨target, fits⟩, by simp [writeOp, one, same]⟩
    case h_3 => cases read
  · rintro ⟨fits, rfl⟩
    cases op with
    | copy targetIdx srcIdx =>
      simp only [writeOp, cons_append, append_assoc]
      exact ⟨[0], _, ⟨rfl, rfl⟩, targetIdx, _, ⟨fits.1, rfl⟩,
        Codec.bind_eq_ok_iff.mpr ⟨_, readU32_eq_ok_iff.mpr ⟨fits.2, rfl⟩, rfl⟩⟩
    | data targetIdx bytes =>
      have same : toUint32 bytes.length = bytes.length := Nat.mod_eq_of_lt fits.2
      simp only [writeOp, same, cons_append, append_assoc]
      exact ⟨[1], _, ⟨rfl, rfl⟩, targetIdx, _, ⟨fits.1, rfl⟩,
        Codec.bind_eq_ok_iff.mpr ⟨_, readU32_eq_ok_iff.mpr ⟨fits.2, rfl⟩,
          Codec.bind_eq_ok_iff.mpr ⟨_, readFull_eq_ok_iff.mpr ⟨rfl, rfl⟩, rfl⟩⟩⟩

theorem apply_eq_none_iff (stream srcImage : Bytes) :
    apply stream srcImage = none ↔
      ∃ hdr rest, readHeader stream = .ok (hdr, rest) ∧
        hdr.srcSHA256 = sha256 srcImage ∧ hdr.blockSize = 0 ∧ srcImage ≠ [] := by
  simp only [← splitBlocks_eq_none_iff]
  cases header : readHeader stream with
  | error cause => simp [apply, header]
  | ok found =>
    obtain ⟨hdr, rest⟩ := found
    by_cases source : sha256 srcImage = hdr.srcSHA256
    · cases blocks : splitBlocks srcImage hdr.blockSize with
      | none => simp [apply, header, source, blocks]
      | some srcBlocks =>
        simp only [apply, header, source, ne_eq, not_true_eq_false, if_false, blocks]
        constructor
        · intro endless
          split at endless
          · cases endless
          · split at endless <;> cases endless
        · rintro ⟨other, more, same, -, endless⟩
          cases same
          rw [blocks] at endless
          cases endless
    · simp [apply, header, source, Ne.symm source]

/-! ### The memory a process asks for -/

namespace Asking

variable {α β γ : Type} {sizes : List Nat}

theorem bind_ok (given : α) (next : α → Asking β) :
    (⟨sizes, .ok given⟩ : Asking α) >>= next = ⟨sizes ++ (next given).sizes, (next given).value⟩ := rfl

theorem bind_error (cause : DeltaError) (next : α → Asking β) :
    (⟨sizes, .error cause⟩ : Asking α) >>= next = ⟨sizes, .error cause⟩ := rfl

theorem bind_bind (asking : Asking α) (first : α → Asking β) (second : β → Asking γ) :
    asking >>= first >>= second = asking >>= fun given => first given >>= second := by
  obtain ⟨sizes, _ | given⟩ := asking
  · rfl
  · rw [bind_ok, bind_ok]
    obtain ⟨more, _ | result⟩ := first given
    · rfl
    · simp [bind_ok]

theorem splitLoopIn_eq (bs fuel done : Nat) (data : Bytes) :
    splitLoopIn bs fuel done data =
      (splitLoop bs fuel data).map fun blocks => ⟨blockRequests bs blocks.length done, .ok blocks⟩ := by
  induction fuel generalizing data done with
  | zero => cases data <;> rfl
  | succ fuel ih =>
    cases data with
    | nil => rfl
    | cons byte data =>
      have nonempty := cons_ne_nil byte data
      rw [splitLoopIn.eq_3 _ _ _ _ nonempty, splitLoop.eq_3 _ _ _ nonempty, ih]
      cases splitLoop bs fuel _ with
      | none => rfl
      | some blocks => simp [request, bind_ok, blockRequests, Pure.pure]

/-- A read that fails asks for nothing, and after one that does not fail the rest asks for these amounts. -/
theorem quiet_bind {read : Except DeltaError α} {next : α → Asking β} {result : α → Except DeltaError β}
    (failed : ∀ cause, read = .error cause → sizes = [])
    (rest : ∀ given, read = .ok given → next given = ⟨sizes, result given⟩) :
    quiet read >>= next = ⟨sizes, read >>= result⟩ := by
  cases read with
  | error cause =>
    rw [failed cause rfl]
    rfl
  | ok given =>
    rw [quiet, bind_ok, rest given rfl]
    rfl

end Asking

open Asking

theorem readFull_error {count : Nat} {cause : DeltaError} (short : readFull count stream = .error cause) :
    stream.length < count := by
  rw [readFull] at short
  split_ifs at short <;> omega

theorem readU32_error {cause : DeltaError} (short : readU32 stream = .error cause) : stream.length < 4 := by
  by_contra long
  rw [readU32, readFull, if_pos (Nat.not_lt.mp long)] at short
  cases short

theorem lengthField_eq (opType : UInt8) (targetIdx : Nat) (rest : Bytes) :
    lengthField ([opType] ++ (writeU32 targetIdx ++ rest)) =
      if opType = 1 ∧ 4 ≤ rest.length then [fromBigEndian (rest.take 4)] else [] := by
  have length : (writeU32 targetIdx).length = 4 := length_bigEndian _ _
  have dropped : ([opType] ++ (writeU32 targetIdx ++ rest)).drop 5 = rest := by
    rw [← append_assoc, drop_left' (by simp [length])]
  have long : 9 ≤ ([opType] ++ (writeU32 targetIdx ++ rest)).length ↔ 4 ≤ rest.length := by
    simp only [length_append, length_singleton, length]
    omega
  have kind : ([opType] ++ (writeU32 targetIdx ++ rest)).head? = some 1 ↔ opType = 1 := by
    rw [singleton_append, head?_cons, Option.some.injEq]
  simp only [lengthField, dropped, long, kind]

theorem readOpIn_eq (stream : Bytes) : readOpIn stream = ⟨lengthField stream, readOp stream⟩ := by
  unfold readOpIn readOp
  refine quiet_bind (fun cause short => if_neg fun both => ?_) fun ⟨typeBuf, one⟩ first => ?_
  · have := readFull_error short
    omega
  obtain ⟨single, rfl⟩ := readFull_eq_ok_iff.mp first
  obtain ⟨opType, rfl⟩ := length_eq_one_iff.mp single
  refine quiet_bind (fun cause short => if_neg fun both => ?_) fun ⟨targetIdx, two⟩ second => ?_
  · have := readU32_error short
    simp at both
    omega
  obtain ⟨-, rfl⟩ := readU32_eq_ok_iff.mp second
  have value : fromBigEndian [opType] = opType.toNat := by simp [fromBigEndian]
  rw [lengthField_eq]
  dsimp only
  generalize fromBigEndian [opType] = kind at value ⊢
  rcases kind with _ | _ | kind
  · have zero : opType = 0 := UInt8.toNat.inj value.symm
    rw [if_neg (by simp [zero])]
    exact quiet_bind (fun _ _ => rfl) fun _ _ => rfl
  · have one : opType = 1 := UInt8.toNat.inj value.symm
    refine quiet_bind (fun cause short => if_neg fun both => ?_) fun ⟨length, three⟩ third => ?_
    · have := readU32_error short
      omega
    obtain ⟨fits, rfl⟩ := readU32_eq_ok_iff.mp third
    have taken : (writeU32 length ++ three).take 4 = writeU32 length := take_left' (length_bigEndian _ _)
    rw [if_pos ⟨one, by simp [writeU32, length_bigEndian]⟩, taken, writeU32, fromBigEndian_bigEndian fits]
    dsimp only
    cases readFull length three <;> rfl
  · rw [if_neg fun both => ?_]
    · rfl
    · rw [both.1] at value
      exact absurd value (by simp)

theorem concatIn_eq {blocks : List Bytes} (lengths : ∀ blk ∈ blocks, blk.length = bs) (out : Bytes) :
    concatIn out blocks =
      ⟨(range blocks.length).map fun block => out.length + (block + 1) * bs, .ok (out ++ blocks.flatten)⟩ := by
  induction blocks generalizing out with
  | nil => simp [concatIn, pure]
  | cons blk blocks ih =>
    obtain ⟨here, later⟩ := forall_mem_cons.mp lengths
    have sizes : (out ++ blk).length :: (range blocks.length).map
          (fun block => (out ++ blk).length + (block + 1) * bs) =
        (range (blocks.length + 1)).map fun block => out.length + (block + 1) * bs := by
      rw [range_succ_eq_map, map_cons, map_map, length_append, here]
      refine congrArg₂ _ (by omega) (map_congr_left fun block _ => ?_)
      simp only [Function.comp_apply, Nat.succ_eq_add_one, Nat.add_mul]
      omega
    rw [concatIn, request, bind_ok, ih later, singleton_append, sizes, append_assoc, flatten_cons, length_cons]

/-- The loop over the operations and what comes after it, when that asks for the image. -/
theorem applyOpsIn_bind {β : Type} {next : List Bytes × ApplyStats → Asking β}
    {value : List Bytes × ApplyStats → Except DeltaError β}
    (rest : ∀ out, (∀ blk ∈ out.1, blk.length = bs) →
      next out = ⟨(range out.1.length).map fun block => (block + 1) * bs, value out⟩)
    (source : ∀ blk ∈ srcBlocks, blk.length = bs) (left index : Nat) (stream : Bytes) (result : List Bytes)
    (st : ApplyStats) (lengths : ∀ blk ∈ result, blk.length = bs) :
    applyOpsIn srcBlocks bs left index stream result st >>= next =
      ⟨opRequests srcBlocks.length bs left result.length stream,
        applyOps srcBlocks bs left index stream result st >>= value⟩ := by
  induction left generalizing index stream result st with
  | zero => exact rest (result, _) lengths
  | succ left ih =>
    rw [applyOpsIn, applyOps, opRequests, bind_bind, readOpIn_eq, wrap]
    cases parsed : readOp stream with
    | error cause =>
      rw [append_nil]
      rfl
    | ok found =>
      obtain ⟨op, more⟩ := found
      rw [Except.mapError, bind_ok]
      cases op with
      | copy targetIdx srcIdx =>
        dsimp only
        cases block : srcBlocks[srcIdx]? with
        | none =>
          rw [if_neg (Nat.not_lt.mpr (getElem?_eq_none_iff.mp block))]
          rfl
        | some block' =>
          have onward := ih (index + 1) more (result ++ [block']) { st with copiedBlocks := st.copiedBlocks + 1 }
            (forall_mem_append.mpr ⟨lengths, forall_mem_singleton.mpr (source _ (mem_of_getElem? block))⟩)
          rw [length_append, length_singleton] at onward
          rw [if_pos (List.getElem?_eq_some_iff.mp block).1, onward]
      | data targetIdx bytes =>
        have onward := ih (index + 1) more (result ++ [padBlock bs bytes]) { st with newBlocks := st.newBlocks + 1 }
          (forall_mem_append.mpr ⟨lengths, forall_mem_singleton.mpr length_padBlock⟩)
        rw [length_append, length_singleton] at onward
        dsimp only
        rw [bind_bind, onward, request, bind_ok]
        rfl

variable {stream srcImage : Bytes} {hdr : Header} {rest : Bytes}

/-- The blocks of a source whose loop ends. -/
theorem splitBlocks_lengths {blocks : List Bytes} (splits : splitBlocks srcImage bs = some blocks) :
    (∀ blk ∈ blocks, blk.length = bs) ∧ blocks.length = (srcImage.length + bs - 1) / bs := by
  by_cases positive : 0 < bs
  · cases (splitLoop_spec positive (Nat.le_refl _)).1.symm.trans splits
    exact ⟨forall_mem_map.mpr fun _ _ => length_padBlock, by simp [paddedPieces]⟩
  · obtain rfl := Nat.eq_zero_of_not_pos positive
    by_cases nonempty : srcImage = []
    · subst nonempty
      cases splits
      simp
    · rw [splitBlocks, splitLoop_zero _ nonempty] at splits
      cases splits

/-- With the right header and source the code asks for the amounts that header, operations and the length
of the source name, and returns what `apply` does. -/
theorem applyIn_eq (header : readHeader stream = .ok (hdr, rest)) (source : sha256 srcImage = hdr.srcSHA256) :
    applyIn stream srcImage =
      (apply stream srcImage).map fun value => ⟨requests hdr srcImage.length rest, value⟩ := by
  simp only [applyIn, apply, header, source, ne_eq, not_true_eq_false, if_false, splitLoopIn_eq]
  change Option.map _ (Option.map _ (splitBlocks srcImage hdr.blockSize)) = _
  cases splits : splitBlocks srcImage hdr.blockSize with
  | none => rfl
  | some blocks =>
    obtain ⟨lengths, count⟩ := splitBlocks_lengths splits
    have image : ∀ out : List Bytes × ApplyStats, (∀ blk ∈ out.1, blk.length = hdr.blockSize) →
        (concatIn [] out.1 >>= fun image => quiet (if sha256 image ≠ hdr.dstSHA256 then .error .applyFailed
          else .ok { image, stats := out.2 }) : Asking ApplyResult) =
          ⟨(range out.1.length).map fun block => (block + 1) * hdr.blockSize,
            if sha256 out.1.flatten ≠ hdr.dstSHA256 then .error .applyFailed
            else .ok { image := out.1.flatten, stats := out.2 }⟩ := by
      intro out whole
      rw [concatIn_eq whole, bind_ok]
      simp [quiet]
    have ops := applyOpsIn_bind image lengths hdr.opCount 0 rest [] ⟨0, 0, 0⟩ nofun
    simp only [ne_eq] at ops
    simp only [Option.map_some, bind_ok, request, requests, ← count, ops]
    cases applyOps blocks hdr.blockSize hdr.opCount 0 rest [] ⟨0, 0, 0⟩ with
    | error cause => rfl
    | ok out =>
      simp only [Bind.bind, Except.bind]
      split_ifs <;> rfl

/-- For another source, or without a header, the code asks for nothing. -/
theorem applyIn_of_unmatched
    (other : ∀ hdr rest, readHeader stream = .ok (hdr, rest) → hdr.srcSHA256 ≠ sha256 srcImage) :
    applyIn stream srcImage = (apply stream srcImage).map quiet := by
  unfold applyIn apply
  cases header : readHeader stream with
  | error cause => rfl
  | ok found =>
    have wrong : sha256 srcImage ≠ found.1.srcSHA256 := (other _ _ header).symm
    simp only [wrong, ne_eq, not_false_eq_true, if_true]
    rfl

/-- The applier returns on every stream and every source image, unless the stream starts with a header for
this source image and either says block size zero for an image that is not empty, so that the loop of
`splitBlocks` does not end after any number of rounds, or the process does not get the memory that its
fields and those of the operations name. Where it returns, it returns what `apply` does. -/
theorem apply_returns_iff (grants : List Nat → Bool) (stream srcImage : Bytes) :
    ((∃ outcome, applyWithin grants stream srcImage = some outcome) ↔
      ∀ hdr rest, readHeader stream = .ok (hdr, rest) → hdr.srcSHA256 = sha256 srcImage →
        (hdr.blockSize ≠ 0 ∨ srcImage = []) ∧
          grantsAll grants [] (requests hdr srcImage.length rest) = true) ∧
    (∀ outcome, applyWithin grants stream srcImage = some outcome →
      apply stream srcImage = some outcome) ∧
    (apply stream srcImage = none → ∀ rounds, splitLoop 0 rounds srcImage = none) := by
  have endless := apply_eq_none_iff stream srcImage
  suffices both : _ ∧ _ by
    refine ⟨both.1, both.2, fun none rounds => ?_⟩
    obtain ⟨-, -, -, -, -, nonempty⟩ := endless.mp none
    exact splitLoop_zero rounds nonempty
  by_cases matched : ∃ hdr rest, readHeader stream = .ok (hdr, rest) ∧ hdr.srcSHA256 = sha256 srcImage
  · obtain ⟨hdr, rest, header, source⟩ := matched
    have returns : ∀ outcome, applyWithin grants stream srcImage = some outcome ↔
        apply stream srcImage = some outcome ∧
          grantsAll grants [] (requests hdr srcImage.length rest) = true := by
      intro outcome
      rw [applyWithin, applyIn_eq header source.symm]
      cases apply stream srcImage <;> simp [and_comm]
    refine ⟨⟨?_, fun served => ?_⟩, fun outcome returned => ((returns outcome).mp returned).1⟩
    · rintro ⟨outcome, returned⟩ other more found -
      cases header.symm.trans found
      obtain ⟨applied, granted⟩ := (returns outcome).mp returned
      refine ⟨?_, granted⟩
      by_contra zero
      rw [not_or, not_not] at zero
      rw [endless.mpr ⟨hdr, rest, header, source, zero.1, zero.2⟩] at applied
      cases applied
    · obtain ⟨ends, granted⟩ := served hdr rest header source
      cases applied : apply stream srcImage with
      | none =>
        obtain ⟨_, _, found, -, zero, nonempty⟩ := endless.mp applied
        cases header.symm.trans found
        exact ends.elim (absurd zero) (absurd · nonempty)
      | some outcome => exact ⟨outcome, (returns outcome).mpr ⟨applied, granted⟩⟩
  · have other : ∀ hdr rest, readHeader stream = .ok (hdr, rest) → hdr.srcSHA256 ≠ sha256 srcImage :=
      fun hdr rest header source => matched ⟨hdr, rest, header, source⟩
    have same : applyWithin grants stream srcImage = apply stream srcImage := by
      rw [applyWithin, applyIn_of_unmatched other]
      cases apply stream srcImage <;> rfl
    rw [same]
    refine ⟨iff_of_true ?_ fun hdr rest header source => absurd source (other hdr rest header), fun _ => id⟩
    refine Option.ne_none_iff_exists'.mp fun none => ?_
    obtain ⟨hdr, rest, header, source, -⟩ := endless.mp none
    exact other hdr rest header source

/-- A header with the block size and the number of operations left open. -/
def bareHeader (blockSize opCount : Nat) : Header :=
  { version := 1
    blockSize := blockSize
    srcSHA256 := sha256 [1]
    dstSHA256 := sha256 [1]
    opCount := opCount }

/-- Block size zero keeps the loop of `splitBlocks` from ending, and a process with 64 GiB does not get past
the largest number of operations. -/
theorem bareHeader_unreturned :
    (∀ grants, applyWithin grants (writeHeader (bareHeader 0 0)) [1] = none) ∧
      (∀ rounds, splitLoop 0 rounds [1] = none) ∧
      applyWithin (fun asked => asked.sum ≤ 2 ^ 36) (writeHeader (bareHeader 1 (2 ^ 32 - 1))) [1] = none := by
  have nonempty : ([1] : Bytes) ≠ [] := List.cons_ne_nil _ _
  have reads (blockSize opCount : Nat) (size : blockSize < 2 ^ 32) (count : opCount < 2 ^ 32) :
      readHeader (writeHeader (bareHeader blockSize opCount)) = .ok (bareHeader blockSize opCount, []) := by
    have fits : (bareHeader blockSize opCount).Fits := ⟨Nat.one_lt_two_pow (by decide), size, rfl, rfl, count⟩
    have read := readHeader_inverts.reads fits []
    rwa [append_nil] at read
  refine ⟨fun grants => ?_, fun rounds => splitLoop_zero rounds nonempty, ?_⟩
  · rw [applyWithin, applyIn_eq (reads 0 0 (by decide) (by decide)) rfl,
      (apply_eq_none_iff _ _).mpr ⟨_, _, reads 0 0 (by decide) (by decide), rfl, rfl, nonempty⟩]
    rfl
  · rw [applyWithin, applyIn_eq (reads 1 (2 ^ 32 - 1) (by decide) (by decide)) rfl]
    cases apply _ [1] with
    | none => rfl
    | some value => simp [requests, bareHeader, blockRequests, grantsAll]

/-! ### The round trip -/

def blocksOf (image : Bytes) (bs : Nat) : List Bytes :=
  (splitBlocks image bs).getD []

theorem splitBlocks_blocksOf (positive : 0 < bs) (image : Bytes) :
    splitBlocks image bs = some (blocksOf image bs) ∧ Splits bs image (blocksOf image bs) := by
  obtain ⟨splits, whole⟩ := splitLoop_spec positive (Nat.le_refl image.length)
  have same : splitBlocks image bs = some (paddedPieces bs image) := splits
  rw [blocksOf, same]
  exact ⟨rfl, forall_mem_map.mpr fun _ _ => length_padBlock, by simp [paddedPieces], whole⟩

theorem blockSize_eq (positive : 0 < bs) :
    (if (bs : Int) ≤ 0 then defaultBlockSize else (bs : Int).toNat) = bs := by
  rw [if_neg (by omega), Int.toNat_natCast]

theorem lookup_indexBlocks
    {hash : Bytes} {si : Nat} (found : (indexBlocks index blocks srcIdx).lookup hash = some si) :
    (∃ offset blk, blocks[offset]? = some blk ∧ sha256 blk = hash ∧
      si = toUint32 (index + offset)) ∨ srcIdx.lookup hash = some si := by
  induction blocks generalizing index srcIdx with
  | nil => exact Or.inr found
  | cons blk blocks ih =>
    rcases ih found with ⟨offset, later, present, hashed, rfl⟩ | earlier
    · refine Or.inl ⟨offset + 1, later, present, hashed, ?_⟩
      rw [Nat.add_assoc, Nat.add_comm 1]
    · rw [lookup_cons] at earlier
      by_cases same : hash = sha256 blk
      · simp only [same, beq_self_eq_true, Option.some.injEq] at earlier
        exact Or.inl ⟨0, blk, rfl, same.symm, earlier.symm⟩
      · have different : (hash == sha256 blk) = false := by simpa using same
        rw [different] at earlier
        exact Or.inr earlier

/-- The index leads from the hash of a block to a source block that is that block. -/
def Locates (srcBlocks : List Bytes) (srcIdx : List (Bytes × Nat)) (blk : Bytes) : Prop :=
  ∀ si, srcIdx.lookup (sha256 blk) = some si → si < 2 ^ 32 ∧ srcBlocks[si]? = some blk

theorem locates_of_injOn {blk : Bytes} (few : srcBlocks.length < 2 ^ 32)
    (injective : ∀ other ∈ srcBlocks, sha256 other = sha256 blk → other = blk) :
    Locates srcBlocks (indexBlocks 0 srcBlocks []) blk := by
  intro si found
  rcases lookup_indexBlocks found with ⟨offset, other, present, hashed, rfl⟩ | impossible
  · obtain ⟨bound, -⟩ := List.getElem?_eq_some_iff.mp present
    rw [Nat.zero_add, toUint32, Nat.mod_eq_of_lt (Nat.lt_trans bound few), present,
      injective other (mem_of_getElem? present) hashed]
    exact ⟨Nat.lt_trans bound few, rfl⟩
  · cases impossible

/-- Applying the operations of some target blocks gives these blocks, with the same counts. -/
theorem applyOps_generateOps (small : bs < 2 ^ 32) (lengths : ∀ blk ∈ blocks, blk.length = bs)
    (locates : ∀ blk ∈ blocks, Locates srcBlocks srcIdx blk) (few : index + blocks.length ≤ 2 ^ 32)
    (ops : List Op) (stats : Stats) :
    ∃ new copied fresh,
      generateOps srcIdx index blocks ops stats =
        (ops ++ new,
          { stats with
            copiedBlocks := stats.copiedBlocks + copied
            newBlocks := stats.newBlocks + fresh
            newDataBytes := stats.newDataBytes + fresh * bs }) ∧
      new.length = blocks.length ∧
      ∀ position rest result st,
        applyOps srcBlocks bs new.length position (new.flatMap writeOp ++ rest) result st =
          .ok (result ++ blocks,
            { copiedBlocks := st.copiedBlocks + copied
              newBlocks := st.newBlocks + fresh
              totalBlocks := (result ++ blocks).length }) := by
  induction blocks generalizing index ops stats with
  | nil =>
    refine ⟨[], 0, 0, ?_, rfl, ?_⟩
    · simp [generateOps]
    · intro position rest result st
      simp [applyOps]
  | cons blk blocks ih =>
    have target : toUint32 index < 2 ^ 32 := Nat.mod_lt _ (by decide)
    have fewer : index + 1 + blocks.length ≤ 2 ^ 32 := by
      rw [length_cons] at few
      omega
    have tail := ih (fun blk member => lengths blk (mem_cons_of_mem _ member))
      (fun blk member => locates blk (mem_cons_of_mem _ member)) fewer
    cases found : srcIdx.lookup (sha256 blk) with
    | some si =>
      obtain ⟨bound, present⟩ := locates blk mem_cons_self si found
      obtain ⟨new, copied, fresh, generates, count, applies⟩ :=
        tail (ops ++ [.copy (toUint32 index) si])
          { stats with copiedBlocks := stats.copiedBlocks + 1 }
      refine ⟨.copy (toUint32 index) si :: new, copied + 1, fresh, ?_, ?_, ?_⟩
      · rw [generateOps, found]
        simp only [generates, append_assoc, singleton_append]
        rw [Nat.add_assoc, Nat.add_comm 1]
      · rw [length_cons, count, length_cons]
      · intro position rest result st
        have fits : (Op.copy (toUint32 index) si).Fits := ⟨target, bound⟩
        have reads := readOp_inverts.reads fits (new.flatMap writeOp ++ rest)
        rw [length_cons, flatMap_cons, append_assoc, applyOps, reads]
        simp only [present, applies, append_assoc, singleton_append]
        rw [Nat.add_assoc, Nat.add_comm 1]
    | none =>
      obtain ⟨new, copied, fresh, generates, count, applies⟩ :=
        tail (ops ++ [.data (toUint32 index) blk])
          { stats with
            newBlocks := stats.newBlocks + 1
            newDataBytes := stats.newDataBytes + blk.length }
      have length := lengths blk mem_cons_self
      refine ⟨.data (toUint32 index) blk :: new, copied, fresh + 1, ?_, ?_, ?_⟩
      · rw [generateOps, found]
        have freshBytes : stats.newDataBytes + bs + fresh * bs =
            stats.newDataBytes + (fresh + 1) * bs := by
          rw [Nat.add_mul, Nat.one_mul]
          omega
        simp only [generates, append_assoc, singleton_append]
        rw [length, freshBytes, Nat.add_assoc stats.newBlocks, Nat.add_comm 1]
      · rw [length_cons, count, length_cons]
      · intro position rest result st
        have fits : (Op.data (toUint32 index) blk).Fits := ⟨target, by rw [length]; exact small⟩
        have reads := readOp_inverts.reads fits (new.flatMap writeOp ++ rest)
        rw [length_cons, flatMap_cons, append_assoc, applyOps, reads]
        simp only [applies, padBlock_of_length length, append_assoc, singleton_append]
        rw [Nat.add_assoc, Nat.add_comm 1]

theorem length_flatten (lengths : ∀ blk ∈ blocks, blk.length = bs) :
    blocks.flatten.length = blocks.length * bs := by
  rw [List.length_flatten, map_congr_left lengths, map_const', sum_replicate_nat]

variable {bs : Nat} {stream srcImage : Bytes} {ops : List Op} {srcBlocks : List Bytes}
  {writes : List (Nat × Bytes)}

theorem Encodes.unique {hdr other : Header} {others : List Op} (one : Encodes stream hdr ops)
    (two : Encodes stream other others) : hdr = other ∧ ops = others := by
  rcases one.bytes with ⟨rest, bytes⟩
  rcases two.bytes with ⟨more, same⟩
  rcases readHeader_inverts.unique one.header two.header (bytes.symm.trans same) with ⟨rfl, tails⟩
  have length : ops.length = others.length := one.count.symm.trans two.count
  exact ⟨rfl, (readOp_inverts.flatMap_unique one.operations two.operations length tails).1⟩

/-! ### What the applier does with a delta -/

section Loop

variable {srcBlocks : List Bytes} {bs left index : Nat} {stream rest : Bytes} {op : Op}

/-- One operation of the loop: its block is appended, and the loop goes on with the next one. -/
theorem applyOps_block (read : readOp stream = .ok (op, rest)) {block : Bytes}
    (present : op.block srcBlocks bs = some block) (result : List Bytes) (st : ApplyStats) :
    ∃ counted, applyOps srcBlocks bs (left + 1) index stream result st =
      applyOps srcBlocks bs left (index + 1) rest (result ++ [block]) counted := by
  cases op with
  | copy targetIdx srcIdx =>
    simp only [Op.block] at present
    simp only [applyOps, read, present]
    exact ⟨_, rfl⟩
  | data targetIdx bytes =>
    simp only [Op.block, Option.some.injEq] at present
    simp only [applyOps, read, present]
    exact ⟨_, rfl⟩

theorem applyOps_no_block (read : readOp stream = .ok (op, rest))
    (missing : op.block srcBlocks bs = none) (left index : Nat) (result : List Bytes)
    (st : ApplyStats) :
    ∃ err, applyOps srcBlocks bs (left + 1) index stream result st = .error err := by
  cases op with
  | copy targetIdx srcIdx =>
    simp only [Op.block] at missing
    simp only [applyOps, read, missing]
    exact ⟨_, rfl⟩
  | data targetIdx bytes => simp [Op.block] at missing

theorem applyOps_eq_ok_iff {result image : List Bytes} {st : ApplyStats} :
    (∃ after, applyOps srcBlocks bs left index stream result st = .ok (image, after)) ↔
      ∃ ops rest writes, ops.length = left ∧ (∀ op ∈ ops, op.Fits) ∧
        stream = ops.flatMap writeOp ++ rest ∧ writesOf srcBlocks bs ops = some writes ∧
        image = result ++ writes.map Prod.snd := by
  induction left generalizing index stream result st with
  | zero =>
    constructor
    · rintro ⟨after, applied⟩
      simp only [applyOps, Except.ok.injEq, Prod.mk.injEq] at applied
      exact ⟨[], stream, [], rfl, by simp, by simp, rfl, by simp [applied.1]⟩
    · rintro ⟨ops, rest, writes, none, -, -, made, rfl⟩
      cases eq_nil_of_length_eq_zero none
      cases made
      rw [map_nil, append_nil, applyOps]
      exact ⟨_, rfl⟩
  | succ left ih =>
    constructor
    · rintro ⟨after, applied⟩
      cases read : readOp stream with
      | error cause => simp [applyOps, read] at applied
      | ok found =>
        rcases found with ⟨op, rest⟩
        cases present : op.block srcBlocks bs with
        | none =>
          rcases applyOps_no_block read present left index result st with ⟨err, failed⟩
          simp [failed] at applied
        | some block =>
          rcases applyOps_block read present result st with ⟨counted, step⟩
          rw [step] at applied
          rcases ih.mp ⟨after, applied⟩ with
            ⟨ops, more, writes, length, fits, rfl, made, rfl⟩
          rcases (readOp_inverts _ _ _).mp read with ⟨fit, rfl⟩
          refine ⟨op :: ops, more, (op.targetIdx, block) :: writes, by simp [length], ?_, ?_, ?_, ?_⟩
          · simpa [fit] using fits
          · simp
          · simp [writesOf, present, made]
          · simp
    · rintro ⟨ops, more, writes, length, fits, rfl, made, rfl⟩
      cases ops with
      | nil => simp at length
      | cons op ops =>
        simp only [forall_mem_cons] at fits
        simp only [writesOf, bind, Option.bind_eq_some_iff, pure, Option.some.injEq] at made
        rcases made with ⟨block, present, writes, made, rfl⟩
        have read := readOp_inverts.reads fits.1 (ops.flatMap writeOp ++ more)
        rcases applyOps_block read present result st with ⟨counted, step⟩
        rw [flatMap_cons, append_assoc, step]
        apply ih.mpr
        exact ⟨ops, more, writes, by simpa using length, fits.2, rfl, made, by simp⟩

end Loop

/-- A delta for this source image which gives, as the applier puts the blocks together, an image with
the hash in its header. -/
structure Accepted (hdr : Header) (ops : List Op) (srcImage : Bytes) (writes : List (Nat × Bytes)) :
    Prop where
  source : Sha256.sha256 srcImage = hdr.srcSHA256
  blocks : ∃ srcBlocks, splitBlocks srcImage hdr.blockSize = some srcBlocks ∧
    writesOf srcBlocks hdr.blockSize ops = some writes
  target : Sha256.sha256 (writes.map Prod.snd).flatten = hdr.dstSHA256

/-- The applier succeeds on the streams that start with an accepted delta, and puts its blocks one
after the other. -/
theorem apply_eq_ok_iff {image : Bytes} :
    (∃ stats, apply stream srcImage = some (.ok { image, stats })) ↔
      ∃ hdr ops writes, Encodes stream hdr ops ∧ Accepted hdr ops srcImage writes ∧
        image = (writes.map Prod.snd).flatten := by
  constructor
  · rintro ⟨stats, applied⟩
    cases read : readHeader stream with
    | error cause => simp [apply, read] at applied
    | ok found =>
      rcases found with ⟨hdr, rest⟩
      rcases (readHeader_inverts _ _ _).mp read with ⟨header, rfl⟩
      by_cases source : Sha256.sha256 srcImage = hdr.srcSHA256
      · cases split : splitBlocks srcImage hdr.blockSize with
        | none => simp [apply, read, source, split] at applied
        | some srcBlocks =>
          cases loop : applyOps srcBlocks hdr.blockSize hdr.opCount 0 rest []
            { copiedBlocks := 0, newBlocks := 0, totalBlocks := 0 } with
          | error cause => simp [apply, read, source, split, loop] at applied
          | ok done =>
            rcases done with ⟨result, after⟩
            rcases applyOps_eq_ok_iff.mp ⟨after, loop⟩ with
              ⟨ops, more, writes, length, fits, rfl, made, rfl⟩
            by_cases target : Sha256.sha256 (writes.map Prod.snd).flatten = hdr.dstSHA256
            · simp [apply, read, source, split, loop, target] at applied
              exact ⟨hdr, ops, writes, ⟨header, fits, length.symm, more, rfl⟩,
                ⟨source, ⟨srcBlocks, split, made⟩, target⟩, applied.1.symm⟩
            · simp [apply, read, source, split, loop, target] at applied
      · simp [apply, read, source] at applied
  · rintro ⟨hdr, ops, writes, encodes, accepted, rfl⟩
    rcases encodes.bytes with ⟨rest, rfl⟩
    rcases accepted.blocks with ⟨srcBlocks, split, made⟩
    have read := readHeader_inverts.reads encodes.header (ops.flatMap writeOp ++ rest)
    have loop : ∃ after, applyOps srcBlocks hdr.blockSize hdr.opCount 0 (ops.flatMap writeOp ++ rest) []
        { copiedBlocks := 0, newBlocks := 0, totalBlocks := 0 } =
          .ok (writes.map Prod.snd, after) :=
      applyOps_eq_ok_iff.mpr
        ⟨ops, rest, writes, encodes.count.symm, encodes.operations, rfl, made, rfl⟩
    rcases loop with ⟨after, loop⟩
    exact ⟨after, by simp [apply, read, accepted.source, split, loop, accepted.target]⟩

theorem length_of_mem_splitBlocks
    (split : splitBlocks srcImage bs = some srcBlocks) : ∀ block ∈ srcBlocks, block.length = bs := by
  rcases Nat.eq_zero_or_pos bs with rfl | positive
  · cases srcImage with
    | nil =>
      cases split
      simp
    | cons byte more =>
      have endless := (splitBlocks_eq_none_iff (byte :: more) 0).mpr ⟨rfl, by simp⟩
      simp [endless] at split
  · rcases splitBlocks_blocksOf positive srcImage with ⟨same, splits⟩
    simp only [split, Option.some.injEq] at same
    exact same ▸ splits.lengths

theorem length_of_mem_writesOf (lengths : ∀ block ∈ srcBlocks, block.length = bs)
    (made : writesOf srcBlocks bs ops = some writes) : ∀ write ∈ writes, write.2.length = bs := by
  induction ops generalizing writes with
  | nil =>
    cases made
    simp
  | cons op ops ih =>
    simp only [writesOf, bind, Option.bind_eq_some_iff, pure, Option.some.injEq] at made
    rcases made with ⟨block, present, writes, made, rfl⟩
    simp only [forall_mem_cons]
    refine ⟨?_, ih made⟩
    cases op with
    | copy targetIdx srcIdx => exact lengths block (mem_of_getElem? present)
    | data targetIdx bytes =>
      simp only [Op.block, Option.some.injEq] at present
      exact present ▸ length_padBlock

theorem flatten_inj (positive : 0 < bs) {first second : List Bytes}
    (one : ∀ block ∈ first, block.length = bs) (two : ∀ block ∈ second, block.length = bs) :
    first.flatten = second.flatten ↔ first = second := by
  constructor
  · intro same
    have lengths := congrArg List.length same
    rw [length_flatten one, length_flatten two] at lengths
    have count : first.length = second.length := Nat.eq_of_mul_eq_mul_right positive lengths
    rw [eq_iff_flatten_eq]
    have sizes : ∀ {blocks : List Bytes}, (∀ block ∈ blocks, block.length = bs) →
        blocks.map List.length = List.replicate blocks.length bs := by
      simp [eq_replicate_iff]
    exact ⟨same, by rw [sizes one, sizes two, count]⟩
  · intro same
    rw [same]

/-- Writing blocks at their positions and putting them one after the other give the same image when
the blocks come in order, or are empty. -/
theorem targetImage_eq_iff (lengths : ∀ write ∈ writes, write.2.length = bs) :
    (writes.map Prod.snd).flatten = targetImage bs writes ↔
      bs = 0 ∨ Placement.InOrder (List.replicate bs 0) writes := by
  have images : ∀ block ∈ Placement.written (List.replicate bs (0 : UInt8)) writes,
      block.length = bs :=
    Placement.forall_mem_written _ (by simp) lengths
  have blocks : ∀ block ∈ writes.map Prod.snd, block.length = bs :=
    forall_mem_map.mpr lengths
  rcases Nat.eq_zero_or_pos bs with rfl | positive
  · have empty : ∀ {all : List Bytes}, (∀ block ∈ all, block.length = 0) → all.flatten = [] := by
      intro all zero
      apply eq_nil_of_length_eq_zero
      rw [length_flatten zero, Nat.mul_zero]
    simp only [targetImage, empty images, empty blocks, true_or]
  · rw [targetImage, flatten_inj positive blocks images, eq_comm, Placement.written_eq_iff]
    simp [Nat.ne_of_gt positive]

/-! ### Any target hash -/

/-- The stream with another hash in the place of the target's. -/
def retarget (hash stream : Bytes) : Bytes :=
  stream.take 46 ++ hash ++ stream.drop 78

theorem Encodes.retarget {hdr : Header} {hash : Bytes} (encodes : Encodes stream hdr ops)
    (length : hash.length = 32) : Encodes (retarget hash stream) { hdr with dstSHA256 := hash } ops := by
  obtain ⟨rest, bytes⟩ := encodes.bytes
  let front := magic ++ writeU16 hdr.version ++ writeU32 hdr.blockSize ++ hdr.srcSHA256
  have frontLength : front.length = 46 := by
    simp [front, writeU16, writeU32, length_bigEndian, encodes.header.srcSHA256, show magic.length = 8 from rfl]
  have split : stream = front ++ (hdr.dstSHA256 ++ (writeU32 hdr.opCount ++ (ops.flatMap writeOp ++ rest))) := by
    rw [bytes]
    simp [front, writeHeader]
  have taken : stream.take 46 = front := by
    rw [split, take_left' frontLength]
  have dropped : stream.drop 78 = writeU32 hdr.opCount ++ (ops.flatMap writeOp ++ rest) := by
    rw [split, ← append_assoc, drop_left' (by rw [length_append, frontLength, encodes.header.dstSHA256])]
  refine ⟨{ encodes.header with dstSHA256 := length }, encodes.operations, encodes.count, rest, ?_⟩
  rw [Delta.retarget, taken, dropped]
  simp [front, writeHeader]

theorem Encodes.of_retarget {hdr : Header} {hash : Bytes} (length : hash.length = 32)
    (encodes : Encodes (Delta.retarget hash stream) hdr ops) :
    ∃ old, Encodes stream { hdr with dstSHA256 := old } ops := by
  have long : 78 ≤ stream.length := by
    obtain ⟨rest, bytes⟩ := encodes.bytes
    have whole := congrArg List.length bytes
    simp [Delta.retarget, writeHeader, writeU16, writeU32, length_bigEndian, encodes.header.srcSHA256,
      encodes.header.dstSHA256, length, show magic.length = 8 from rfl] at whole
    omega
  have again : Delta.retarget ((stream.drop 46).take 32) (Delta.retarget hash stream) = stream := by
    have front : (stream.take 46).length = 46 := by rw [length_take]; omega
    have middle : (stream.take 46 ++ hash).length = 78 := by rw [length_append, front, length]
    rw [Delta.retarget, Delta.retarget, drop_left' middle, append_assoc (stream.take 46), take_left' front,
      append_assoc, ← drop_drop (i := 32) (j := 46), take_append_drop, take_append_drop]
  have size : ((stream.drop 46).take 32).length = 32 := by
    rw [length_take, length_drop]
    omega
  have back := encodes.retarget size
  rw [again] at back
  exact ⟨_, back⟩

/-- The applier keeps to the wire format on a stream, whatever target hash stands in its header, exactly when this holds
of the header and the operations that are there: if the source hash is that of the image and the source has every block
that is copied, the version is one, no operation has more data than a block, and the operations come in the order of
their target indices, as far as that shows in the image. -/
theorem apply_conforms_iff (stream srcImage : Bytes) :
    (∀ hash, hash.length = 32 → Conforms (retarget hash stream) srcImage) ↔
      ∀ hdr ops srcBlocks writes, Encodes stream hdr ops → sha256 srcImage = hdr.srcSHA256 →
        splitBlocks srcImage hdr.blockSize = some srcBlocks → writesOf srcBlocks hdr.blockSize ops = some writes →
        hdr.version = 1 ∧ (∀ op ∈ ops, op.dataLength ≤ hdr.blockSize) ∧
          (hdr.blockSize = 0 ∨ Placement.InOrder (List.replicate hdr.blockSize 0) writes) := by
  constructor
  · intro conforms hdr ops srcBlocks writes encodes source split made
    -- the hash of the image that the applier will assemble
    have hashed := encodes.retarget (length_sha256 (writes.map Prod.snd).flatten)
    have accepted : Accepted { hdr with dstSHA256 := sha256 (writes.map Prod.snd).flatten } ops srcImage writes :=
      ⟨source, ⟨srcBlocks, split, made⟩, rfl⟩
    rcases apply_eq_ok_iff.mpr ⟨_, ops, writes, hashed, accepted, rfl⟩ with ⟨stats, applied⟩
    rcases conforms _ (length_sha256 _) _ applied with ⟨other, others, blocks, again, same, splits, makes, version,
      sizes, image⟩
    rcases hashed.unique same with ⟨rfl, rfl⟩
    cases split.symm.trans splits
    cases made.symm.trans makes
    have lengths := length_of_mem_writesOf (length_of_mem_splitBlocks split) made
    exact ⟨version, sizes, (targetImage_eq_iff lengths).mp image⟩
  · intro condition hash length result applied
    rcases apply_eq_ok_iff.mp ⟨result.stats, applied⟩ with ⟨hdr, ops, writes, encodes, accepted, image⟩
    rcases accepted.blocks with ⟨srcBlocks, split, made⟩
    obtain ⟨old, before⟩ := encodes.of_retarget length
    rcases condition _ ops srcBlocks writes before accepted.source split made with ⟨version, sizes, order⟩
    have lengths := length_of_mem_writesOf (length_of_mem_splitBlocks split) made
    exact ⟨hdr, ops, srcBlocks, writes, encodes, split, made, version, sizes,
      image.trans ((targetImage_eq_iff lengths).mpr order)⟩

/-- Two operations in the wrong order, the second with two bytes for blocks of one, under version
two. -/
def swappedOps : List Op :=
  [.data 1 [7], .data 0 [8, 9]]

def swappedHeader : Header :=
  { version := 2
    blockSize := 1
    srcSHA256 := Sha256.sha256 []
    dstSHA256 := Sha256.sha256 [7, 8]
    opCount := 2 }

/-- The applier takes the delta and gives the two blocks in the order in which they come; at their
target positions they are the other way round. -/
theorem swapped_not_conforms :
    (∃ stats, apply (writeHeader swappedHeader ++ swappedOps.flatMap writeOp) [] =
      some (.ok { image := [7, 8], stats })) ∧
      writesOf [] 1 swappedOps = some [(1, [7]), (0, [8])] ∧
      targetImage 1 [(1, [7]), (0, [8])] = [8, 7] ∧
      ¬ Conforms (writeHeader swappedHeader ++ swappedOps.flatMap writeOp) [] := by
  have encodes : Encodes (writeHeader swappedHeader ++ swappedOps.flatMap writeOp) swappedHeader
      swappedOps :=
    { header := ⟨by decide, by decide, rfl, rfl, by decide⟩
      operations := by simp [swappedOps, Op.Fits]
      count := rfl
      bytes := ⟨[], by simp⟩ }
  have accepted : Accepted swappedHeader swappedOps [] [(1, [7]), (0, [8])] :=
    { source := rfl
      blocks := ⟨[], rfl, rfl⟩
      target := by decide +kernel }
  have applied := apply_eq_ok_iff.mpr ⟨_, _, _, encodes, accepted, rfl⟩
  refine ⟨applied, rfl, rfl, ?_⟩
  intro conforms
  rcases applied with ⟨stats, applied⟩
  rcases conforms _ applied with ⟨hdr, ops, -, -, same, -, -, version, -, -⟩
  rcases encodes.unique same with ⟨rfl, rfl⟩
  exact absurd version (by decide)

open Sha256

variable {bs index : Nat} {data src dst : Bytes} {blocks : List Bytes} {srcIdx : List (Bytes × Nat)}

def Copied (src : Bytes) (bs : Nat) (blk : Bytes) : Prop :=
  ∃ other ∈ blocksOf src bs, sha256 other = sha256 blk

instance (src : Bytes) (bs : Nat) (blk : Bytes) : Decidable (Copied src bs blk) :=
  inferInstanceAs (Decidable (∃ other ∈ blocksOf src bs, _))

/-- The numbers of the blocks of the target that are not copied from the source. -/
def uncopied (src dst : Bytes) (bs : Nat) : List Nat :=
  (range ((dst.length + bs - 1) / bs)).filter fun number => ¬ Copied src bs (padBlock bs (piece bs dst number))

/-- The zeros that are stored with the last block of the target. -/
def padding (src dst : Bytes) (bs : Nat) : Nat :=
  if bs ∣ dst.length ∨ Copied src bs (padBlock bs (piece bs dst (dst.length / bs))) then 0
  else bs - dst.length % bs

/-- What the statistics say, with some zeros counted as new data. -/
structure Stats.Sound (stats : Stats) (src dst : Bytes) (bs zeros : Nat) : Prop where
  blocks : stats.copiedBlocks + stats.newBlocks = stats.targetBlocks
  target : stats.targetBlocks = (dst.length + bs - 1) / bs
  bounded : stats.newDataBytes ≤ stats.fullTargetBytes + zeros
  fresh : stats.newDataBytes =
    ((uncopied src dst bs).map fun number => (piece bs dst number).length).sum + zeros

theorem isSome_lookup_indexBlocks {hash : Bytes} :
    ((indexBlocks index blocks srcIdx).lookup hash).isSome ↔
      (∃ blk ∈ blocks, sha256 blk = hash) ∨ (srcIdx.lookup hash).isSome := by
  induction blocks generalizing index srcIdx with
  | nil => simp [indexBlocks]
  | cons blk blocks ih =>
    rw [indexBlocks, ih, lookup_cons]
    by_cases same : hash = sha256 blk
    · simp [same]
    · have different : (hash == sha256 blk) = false := by simpa using same
      simp [different, Ne.symm same]

theorem stats_generateOps (ops : List Op) (stats : Stats) :
    (generateOps srcIdx index blocks ops stats).2 =
      { stats with
        copiedBlocks := stats.copiedBlocks + blocks.countP fun blk => (srcIdx.lookup (sha256 blk)).isSome
        newBlocks := stats.newBlocks + blocks.countP fun blk => (srcIdx.lookup (sha256 blk)).isNone
        newDataBytes := stats.newDataBytes +
          ((blocks.filter fun blk => (srcIdx.lookup (sha256 blk)).isNone).map List.length).sum } := by
  induction blocks generalizing index ops stats with
  | nil => simp [generateOps]
  | cons blk blocks ih =>
    rw [generateOps]
    cases found : srcIdx.lookup (sha256 blk) with
    | none =>
      simp only [ih]
      simp [found, Nat.add_assoc, Nat.add_comm 1]
    | some si =>
      simp only [ih]
      simp [found, Nat.add_assoc, Nat.add_comm 1]

theorem generate_stats (positive : 0 < bs) (src dst : Bytes) :
    ∃ delta stats, generate src dst bs = some (delta, stats) ∧ stats.fullTargetBytes = dst.length ∧
      stats.targetBlocks = (dst.length + bs - 1) / bs ∧
      stats.copiedBlocks + stats.newBlocks = stats.targetBlocks ∧
      stats.newDataBytes = ((uncopied src dst bs).map fun _ => bs).sum := by
  obtain ⟨splitsSrc, -⟩ := splitBlocks_blocksOf positive src
  have splitsDst : splitBlocks dst bs = _ := (splitLoop_spec positive (Nat.le_refl dst.length)).1
  have copied : ∀ blk, ((indexBlocks 0 (blocksOf src bs) []).lookup (sha256 blk)).isSome =
      decide (Copied src bs blk) := by
    intro blk
    rw [Bool.eq_iff_iff, isSome_lookup_indexBlocks, decide_eq_true_iff]
    simp [Copied]
  have fresh : ∀ blk, ((indexBlocks 0 (blocksOf src bs) []).lookup (sha256 blk)).isNone =
      decide (¬ Copied src bs blk) := by
    intro blk
    rw [← Option.not_isSome, copied, decide_not]
  simp only [generate, blockSize_eq positive, splitsSrc, splitsDst, bind, Option.bind, pure]
  refine ⟨_, _, rfl, ?_⟩
  rw [stats_generateOps]
  refine ⟨rfl, by simp [paddedPieces], ?_, ?_⟩
  · simp only [copied, fresh, Nat.zero_add]
    rw [length_eq_countP_add_countP fun blk => decide (Copied src bs blk)]
    simp
  · simp only [paddedPieces, filter_map, map_map, Function.comp_def, fresh, length_padBlock, Nat.zero_add]
    rfl

theorem length_piece (number : Nat) : (piece bs dst number).length = min bs (dst.length - number * bs) := by
  rw [piece, length_take, length_drop]

theorem sum_pieces_le (counted : Nat → Bool) (count : Nat) :
    (((range count).filter counted).map fun number => (piece bs dst number).length).sum ≤
      min (count * bs) dst.length := by
  induction count with
  | zero => simp
  | succ count ih =>
    rw [range_succ, filter_append, map_append, sum_append, Nat.add_mul, Nat.one_mul]
    have last : (([count].filter counted).map fun number => (piece bs dst number).length).sum ≤
        min bs (dst.length - count * bs) := by
      rw [← length_piece]
      cases taken : counted count <;> simp [taken]
    omega

theorem sum_uncopied (positive : 0 < bs) (src dst : Bytes) :
    ((uncopied src dst bs).map fun _ => bs).sum =
      ((uncopied src dst bs).map fun number => (piece bs dst number).length).sum + padding src dst bs := by
  have parts := Nat.div_add_mod' dst.length bs
  have rest := Nat.mod_lt dst.length positive
  have whole : ∀ number ∈ (range (dst.length / bs)).filter fun number =>
      ¬ Copied src bs (padBlock bs (piece bs dst number)), bs = (piece bs dst number).length := by
    intro number member
    have before := Nat.mul_le_mul_right bs (mem_range.mp (mem_filter.mp member).1)
    rw [Nat.succ_mul] at before
    rw [length_piece]
    omega
  rcases Nat.eq_zero_or_pos (dst.length % bs) with even | uneven
  · have count : (dst.length + bs - 1) / bs = dst.length / bs :=
      Nat.div_eq_of_lt_le (by omega) (by rw [Nat.succ_mul]; omega)
    rw [padding, if_pos (.inl (Nat.dvd_of_mod_eq_zero even)), uncopied, count, map_congr_left whole]
    rfl
  · have count : (dst.length + bs - 1) / bs = dst.length / bs + 1 :=
      Nat.div_eq_of_lt_le (by rw [Nat.succ_mul]; omega) (by rw [Nat.succ_mul, Nat.succ_mul]; omega)
    have last : (piece bs dst (dst.length / bs)).length = dst.length % bs := by
      rw [length_piece]
      omega
    have odd : ¬ bs ∣ dst.length := fun divides => uneven.ne' (Nat.mod_eq_zero_of_dvd divides)
    rw [padding, uncopied, count, range_succ, filter_append, map_append, map_append, map_congr_left whole]
    by_cases copied : Copied src bs (padBlock bs (piece bs dst (dst.length / bs)))
    · simp [copied]
    · simp [copied, odd, last]
      omega

/-- Blocks that are copied and new ones make up the target, and the new data is the content of the blocks that are not
copied, with the zeros that fill up the last one. -/
theorem stats_sound (src dst : Bytes) (bs : Nat) (positive : 1 ≤ bs) :
    ∃ delta stats, generate src dst bs = some (delta, stats) ∧
      stats.Sound src dst bs (padding src dst bs) := by
  obtain ⟨delta, stats, generated, full, target, blocks, fresh⟩ := generate_stats positive src dst
  rw [sum_uncopied positive] at fresh
  refine ⟨delta, stats, generated, blocks, target, ?_, fresh⟩
  rw [fresh, full]
  exact Nat.add_le_add_right ((sum_pieces_le _ _).trans (Nat.min_le_right _ _)) _

/-- The last block is one byte and a zero, and so is a block of the source. -/
theorem stats_sound_copied :
    ∃ delta stats, generate [1, 0] [2, 3, 1] 2 = some (delta, stats) ∧
      stats.Sound [1, 0] [2, 3, 1] 2 (padding [1, 0] [2, 3, 1] 2) :=
  stats_sound [1, 0] [2, 3, 1] 2 (by decide)

/-- One byte of content is counted as two. -/
theorem stats_count_padding :
    ((generate [] [7] 2).map fun (_, stats) => (stats.newDataBytes, stats.fullTargetBytes)) = some (2, 1) ∧
      ∀ delta stats, generate [] [7] 2 = some (delta, stats) → ¬ stats.Sound [] [7] 2 0 := by
  have evaluated : ((generate [] [7] 2).map fun (_, stats) => (stats.newDataBytes, stats.fullTargetBytes)) =
      some (2, 1) := by decide +kernel
  refine ⟨evaluated, fun delta stats generated sound => ?_⟩
  rw [generated] at evaluated
  have bounded := sound.bounded
  simp only [Option.map_some, Option.some.injEq, Prod.mk.injEq] at evaluated
  omega

/-! ### Applying a generated delta -/

section RoundTrip

variable {src dst : Bytes} {bs : Nat}

/-- Among the blocks of the two images, different blocks have different hashes. -/
def BlocksInjective (src dst : Bytes) (bs : Nat) : Prop :=
  Set.InjOn sha256 { blk | blk ∈ blocksOf src bs ∨ blk ∈ blocksOf dst bs }

/-- What a generated delta does: it rebuilds the blocks of the target, and the applier compares the hash
of all of them, padding included, with the hash of the target. -/
theorem apply_generate (positive : 0 < bs) (small : bs < 2 ^ 32)
    (fewSrc : (blocksOf src bs).length < 2 ^ 32) (fewDst : (blocksOf dst bs).length < 2 ^ 32)
    (injective : BlocksInjective src dst bs) :
    ∃ delta stats applied, generate src dst bs = some (delta, stats) ∧
      applied.copiedBlocks = stats.copiedBlocks ∧ applied.newBlocks = stats.newBlocks ∧
      apply delta src =
        if sha256 (blocksOf dst bs).flatten ≠ sha256 dst then
          some (.error .applyFailed)
        else
          some (.ok { image := (blocksOf dst bs).flatten, stats := applied }) := by
  obtain ⟨splitsSrc, specSrc⟩ := splitBlocks_blocksOf positive src
  obtain ⟨splitsDst, specDst⟩ := splitBlocks_blocksOf positive dst
  have locates : ∀ blk ∈ blocksOf dst bs,
      Locates (blocksOf src bs) (indexBlocks 0 (blocksOf src bs) []) blk := by
    intro blk member
    apply locates_of_injOn fewSrc
    intro other source hashed
    exact injective (Or.inl source) (Or.inr member) hashed
  obtain ⟨ops, copied, fresh, generates, count, applies⟩ :=
    applyOps_generateOps small specDst.lengths locates
      (by rw [Nat.zero_add]; exact Nat.le_of_lt fewDst) []
      { sourceBlocks := (blocksOf src bs).length
        targetBlocks := (blocksOf dst bs).length
        copiedBlocks := 0
        newBlocks := 0
        newDataBytes := 0
        fullTargetBytes := dst.length }
  have sizeFits : toUint32 bs = bs := Nat.mod_eq_of_lt small
  have countFits : toUint32 ops.length = ops.length := by
    rw [count]
    exact Nat.mod_eq_of_lt fewDst
  have fits : (⟨1, bs, sha256 src, sha256 dst, ops.length⟩ : Header).Fits := by
    constructor
    · exact (by decide : 1 < 2 ^ 16)
    · exact small
    · exact length_sha256 src
    · exact length_sha256 dst
    · rw [count]
      exact fewDst
  have reads := readHeader_inverts.reads fits (ops.flatMap writeOp)
  have runs := applies 0 [] [] { copiedBlocks := 0, newBlocks := 0, totalBlocks := 0 }
  rw [append_nil, nil_append] at runs
  refine ⟨writeHeader ⟨1, bs, sha256 src, sha256 dst, ops.length⟩ ++
      ops.flatMap writeOp,
    ⟨(blocksOf src bs).length, (blocksOf dst bs).length, 0 + copied, 0 + fresh, 0 + fresh * bs,
      dst.length⟩,
    ⟨0 + copied, 0 + fresh, (blocksOf dst bs).length⟩, ?_, rfl, rfl, ?_⟩
  · simp only [generate, blockSize_eq positive, splitsSrc, splitsDst, generates, bind, Option.bind, pure,
      nil_append, sizeFits, countFits]
  · simp only [apply, reads, ne_eq, not_true_eq_false, if_false, splitsSrc, runs]

/-- A generated delta gives the target image back, with the generator's counts, exactly when the block
size divides the length of the target. -/
theorem apply_generate_iff (src dst : Bytes) (bs : Nat) (positive : 1 ≤ bs) (small : bs < 2 ^ 32)
    (fewSrc : (blocksOf src bs).length < 2 ^ 32) (fewDst : (blocksOf dst bs).length < 2 ^ 32)
    (injective : BlocksInjective src dst bs) :
    ∃ delta stats, generate src dst bs = some (delta, stats) ∧
      ((∃ result, apply delta src = some (.ok result) ∧ result.image = dst ∧
          result.stats.copiedBlocks = stats.copiedBlocks ∧
          result.stats.newBlocks = stats.newBlocks) ↔
        bs ∣ dst.length) := by
  obtain ⟨delta, stats, applied, generated, copied, fresh, applies⟩ :=
    apply_generate positive small fewSrc fewDst injective
  obtain ⟨-, spec⟩ := splitBlocks_blocksOf positive dst
  refine ⟨delta, stats, generated, ?_⟩
  constructor
  · rintro ⟨result, succeeds, same, -, -⟩
    rw [applies] at succeeds
    split at succeeds
    · cases succeeds
    · cases succeeds
      have length := length_flatten spec.lengths
      rw [show (blocksOf dst bs).flatten = dst from same] at length
      exact ⟨(blocksOf dst bs).length, by rw [length, Nat.mul_comm]⟩
  · rintro ⟨quotient, length⟩
    have count : (blocksOf dst bs).length = quotient := by
      rw [spec.count, length, Nat.add_sub_assoc positive, Nat.mul_add_div positive,
        Nat.div_eq_of_lt (by omega), Nat.add_zero]
    have image : (blocksOf dst bs).flatten = dst := by
      rw [spec.image, count, length, Nat.mul_comm, Nat.sub_self, replicate_zero,
        append_nil]
    refine ⟨{ image := (blocksOf dst bs).flatten, stats := applied }, ?_, image, copied, fresh⟩
    rw [applies, if_neg]
    rw [image, ne_eq, not_not]

end RoundTrip

/-- An image of two blocks from an image of one. -/
theorem apply_generate_two_blocks :
    ∃ delta stats, generate [7] [7, 7] (1 : Nat) = some (delta, stats) ∧
      ∃ result, apply delta [7] = some (.ok result) ∧ result.image = [7, 7] ∧
        result.stats.copiedBlocks = stats.copiedBlocks ∧
        result.stats.newBlocks = stats.newBlocks := by
  have blocks : ∀ blk, blk ∈ blocksOf [7] 1 ∨ blk ∈ blocksOf [7, 7] 1 → blk = [7] := by
    have source : blocksOf [7] 1 = [[7]] := rfl
    have target : blocksOf [7, 7] 1 = [[7], [7]] := rfl
    rw [source, target]
    simp
  have injective : BlocksInjective [7] [7, 7] 1 := by
    intro first inFirst second inSecond _
    rw [blocks first inFirst, blocks second inSecond]
  obtain ⟨delta, stats, generated, restores⟩ := apply_generate_iff [7] [7, 7] 1 (by decide)
    (by decide) (by decide) (by decide) injective
  exact ⟨delta, stats, generated, restores.mpr ⟨2, rfl⟩⟩

/-- A one-byte image with blocks of two bytes: the applier hashes the padded block. -/
theorem padded_target_fails :
    BlocksInjective [] [7] 2 ∧
      (generate [] [7] 2).bind (fun (delta, _) => apply delta []) = some (.error .applyFailed) := by
  constructor
  · intro first inFirst second inSecond _
    have blocks : ∀ blk, blk ∈ blocksOf [] 2 ∨ blk ∈ blocksOf [7] 2 → blk = [7, 0] := by
      have source : blocksOf [] 2 = [] := rfl
      have target : blocksOf [7] 2 = [[7, 0]] := rfl
      rw [source, target]
      simp
    rw [blocks first inFirst, blocks second inSecond]
  · decide +kernel

end NuraOS.Delta
