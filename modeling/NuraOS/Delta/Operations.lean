/-
Purpose: `delta.Apply`, `delta.Generate` and what the documented wire format says of a delta.
-/
import NuraOS.Foundation.Codec
import NuraOS.Foundation.HashChain

namespace NuraOS.Delta

open Foundation

/-- What `io.ReadFull` returns on a short stream. -/
inductive ReadError where
  | eof
  | unexpectedEOF
deriving DecidableEq

/-- The errors of `delta.Apply`; a wrapped error keeps its cause. -/
inductive DeltaError where
  | read (cause : ReadError)
  | badMagic
  | unknownOp (opType : Nat)
  | header (cause : DeltaError)
  | wrongSource
  | op (index : Nat) (cause : DeltaError)
  | srcOutOfRange (index srcIdx blocks : Nat)
  | applyFailed
deriving DecidableEq

def ReadError.text : ReadError → String
  | .eof => "EOF"
  | .unexpectedEOF => "unexpected EOF"

def DeltaError.text : DeltaError → String
  | .read cause => cause.text
  | .badMagic => "not a NuraOS delta file"
  | .unknownOp opType => "unknown op type " ++ Nat.repr opType
  | .header cause => "read delta header: " ++ cause.text
  | .wrongSource => "delta source SHA-256 does not match current image"
  | .op index cause => "read op " ++ Nat.repr index ++ ": " ++ cause.text
  | .srcOutOfRange index srcIdx blocks =>
    "op " ++ Nat.repr index ++ ": src block index " ++ Nat.repr srcIdx ++ " out of range (" ++
      Nat.repr blocks ++ " blocks)"
  | .applyFailed => "reconstructed image SHA-256 mismatch; delta application failed"

/-- `io.ReadFull`: the next `count` bytes, and what is left. -/
def readFull (count : Nat) (stream : Bytes) : Except DeltaError (Bytes × Bytes) :=
  if count ≤ stream.length then
    .ok (stream.take count, stream.drop count)
  else if stream.isEmpty then
    .error (.read .eof)
  else
    .error (.read .unexpectedEOF)

def fromBigEndian (bytes : Bytes) : Nat :=
  bytes.foldl (fun value byte => 256 * value + byte.toNat) 0

def readU16 (stream : Bytes) : Except DeltaError (Nat × Bytes) := do
  let (bytes, rest) ← readFull 2 stream
  return (fromBigEndian bytes, rest)

def readU32 (stream : Bytes) : Except DeltaError (Nat × Bytes) := do
  let (bytes, rest) ← readFull 4 stream
  return (fromBigEndian bytes, rest)

def magic : Bytes :=
  utf8 "NURADELT"

/-- `Header`, without the magic bytes. -/
structure Header where
  version : Nat
  blockSize : Nat
  srcSHA256 : Bytes
  dstSHA256 : Bytes
  opCount : Nat

def readHeader (stream : Bytes) : Except DeltaError (Header × Bytes) := do
  let (magicBuf, stream) ← readFull 8 stream
  if magicBuf ≠ magic then
    throw .badMagic
  let (version, stream) ← readU16 stream
  let (blockSize, stream) ← readU32 stream
  let (srcSHA256, stream) ← readFull 32 stream
  let (dstSHA256, stream) ← readFull 32 stream
  let (opCount, stream) ← readU32 stream
  return ({ version, blockSize, srcSHA256, dstSHA256, opCount }, stream)

/-- `Op`: reuse a source block, or write new content. -/
inductive Op where
  | copy (targetIdx srcIdx : Nat)
  | data (targetIdx : Nat) (bytes : Bytes)

def readOp (stream : Bytes) : Except DeltaError (Op × Bytes) := do
  let (typeBuf, stream) ← readFull 1 stream
  let opType := fromBigEndian typeBuf
  let (targetIdx, stream) ← readU32 stream
  match opType with
  | 0 =>
    let (srcIdx, stream) ← readU32 stream
    return (.copy targetIdx srcIdx, stream)
  | 1 =>
    let (length, stream) ← readU32 stream
    let (bytes, stream) ← readFull length stream
    return (.data targetIdx bytes, stream)
  | _ => throw (.unknownOp opType)

/-- A block of size `bs` that starts with the data; what does not fit is dropped. -/
def padBlock (bs : Nat) (data : Bytes) : Bytes :=
  data.take bs ++ List.replicate (bs - data.length) 0

/-- The loop of `splitBlocks`; nothing when it has not ended after `fuel` blocks. -/
def splitLoop (bs : Nat) : Nat → Bytes → Option (List Bytes)
  | _, [] => some []
  | 0, _ :: _ => none
  | fuel + 1, data => (splitLoop bs fuel (data.drop bs)).map (padBlock bs (data.take bs) :: ·)

/-- `splitBlocks`. A loop that makes progress ends after at most `data.length` blocks; with block size
zero it makes none. -/
def splitBlocks (data : Bytes) (bs : Nat) : Option (List Bytes) :=
  splitLoop bs data.length data

/-- `ApplyStats`. -/
structure ApplyStats where
  copiedBlocks : Nat
  newBlocks : Nat
  totalBlocks : Nat
deriving DecidableEq

/-- `ApplyResult`. -/
structure ApplyResult where
  image : Bytes
  stats : ApplyStats
deriving DecidableEq

/-- The loop over the operations: `left` of them are still to be read, `index` is the next one's. -/
def applyOps (srcBlocks : List Bytes) (bs : Nat) :
    (left index : Nat) → Bytes → List Bytes → ApplyStats →
      Except DeltaError (List Bytes × ApplyStats)
  | 0, _, _, result, st => .ok (result, { st with totalBlocks := result.length })
  | left + 1, index, stream, result, st =>
    match readOp stream with
    | .error cause => .error (.op index cause)
    | .ok (.copy _ srcIdx, stream) =>
      match srcBlocks[srcIdx]? with
      | none => .error (.srcOutOfRange index srcIdx srcBlocks.length)
      | some block =>
        applyOps srcBlocks bs left (index + 1) stream (result ++ [block])
          { st with copiedBlocks := st.copiedBlocks + 1 }
    | .ok (.data _ bytes, stream) =>
      applyOps srcBlocks bs left (index + 1) stream (result ++ [padBlock bs bytes])
        { st with newBlocks := st.newBlocks + 1 }

/-- `delta.Apply`; nothing when it does not return. -/
def apply (stream srcImage : Bytes) : Option (Except DeltaError ApplyResult) :=
  match readHeader stream with
  | .error cause => some (.error (.header cause))
  | .ok (hdr, stream) =>
    if Sha256.sha256 srcImage ≠ hdr.srcSHA256 then
      some (.error .wrongSource)
    else
      match splitBlocks srcImage hdr.blockSize with
      | none => none
      | some srcBlocks =>
        match applyOps srcBlocks hdr.blockSize hdr.opCount 0 stream []
          { copiedBlocks := 0, newBlocks := 0, totalBlocks := 0 } with
        | .error cause => some (.error cause)
        | .ok (result, stats) =>
          let image := result.flatten
          if Sha256.sha256 image ≠ hdr.dstSHA256 then
            some (.error .applyFailed)
          else
            some (.ok { image, stats })

/-- What a part of the code returns, and the memory it asks for before that where the amount comes from the
input, in bytes and in order. -/
structure Asking (α : Type) where
  sizes : List Nat
  value : Except DeltaError α

namespace Asking

instance : Monad Asking where
  pure value := ⟨[], .ok value⟩
  bind first next :=
    match first.value with
    | .error cause => ⟨first.sizes, .error cause⟩
    | .ok given => ⟨first.sizes ++ (next given).sizes, (next given).value⟩

/-- `make` of so many bytes, or `append` up to so many. -/
def request (size : Nat) : Asking Unit := ⟨[size], .ok ()⟩

/-- A part that asks for nothing. -/
def quiet {α : Type} (value : Except DeltaError α) : Asking α := ⟨[], value⟩

def wrap {α : Type} (asking : Asking α) (change : DeltaError → DeltaError) : Asking α :=
  { asking with value := asking.value.mapError change }

def splitLoopIn (bs : Nat) : (fuel done : Nat) → Bytes → Option (Asking (List Bytes))
  | _, _, [] => some (pure [])
  | 0, _, _ :: _ => none
  | fuel + 1, done, data =>
    (splitLoopIn bs fuel (done + 1) (data.drop bs)).map fun rest => do
      request bs
      request (24 * (done + 1))
      let blocks ← rest
      return padBlock bs (data.take bs) :: blocks

def readOpIn (stream : Bytes) : Asking (Op × Bytes) := do
  let (typeBuf, stream) ← quiet (readFull 1 stream)
  let opType := fromBigEndian typeBuf
  let (targetIdx, stream) ← quiet (readU32 stream)
  match opType with
  | 0 =>
    let (srcIdx, stream) ← quiet (readU32 stream)
    return (.copy targetIdx srcIdx, stream)
  | 1 =>
    let (length, stream) ← quiet (readU32 stream)
    request length
    let (bytes, stream) ← quiet (readFull length stream)
    return (.data targetIdx bytes, stream)
  | _ => quiet (.error (.unknownOp opType))

def applyOpsIn (srcBlocks : List Bytes) (bs : Nat) :
    (left index : Nat) → Bytes → List Bytes → ApplyStats → Asking (List Bytes × ApplyStats)
  | 0, _, _, result, st => return (result, { st with totalBlocks := result.length })
  | left + 1, index, stream, result, st => do
    match ← (readOpIn stream).wrap (.op index) with
    | (.copy _ srcIdx, stream) =>
      match srcBlocks[srcIdx]? with
      | none => quiet (.error (.srcOutOfRange index srcIdx srcBlocks.length))
      | some block =>
        applyOpsIn srcBlocks bs left (index + 1) stream (result ++ [block])
          { st with copiedBlocks := st.copiedBlocks + 1 }
    | (.data _ bytes, stream) =>
      request bs
      applyOpsIn srcBlocks bs left (index + 1) stream (result ++ [padBlock bs bytes])
        { st with newBlocks := st.newBlocks + 1 }

/-- The loop that puts the image together. -/
def concatIn (out : Bytes) : List Bytes → Asking Bytes
  | [] => return out
  | blk :: blocks => do
    request (out ++ blk).length
    concatIn (out ++ blk) blocks

end Asking

/-- `delta.Apply` with what it asks for. -/
def applyIn (stream srcImage : Bytes) : Option (Asking ApplyResult) :=
  match readHeader stream with
  | .error cause => some (.quiet (.error (.header cause)))
  | .ok (hdr, stream) =>
    if Sha256.sha256 srcImage ≠ hdr.srcSHA256 then
      some (.quiet (.error .wrongSource))
    else
      (Asking.splitLoopIn hdr.blockSize srcImage.length 0 srcImage).map fun splits => do
        let srcBlocks ← splits
        Asking.request (24 * hdr.opCount)
        let (result, stats) ← Asking.applyOpsIn srcBlocks hdr.blockSize hdr.opCount 0 stream []
          { copiedBlocks := 0, newBlocks := 0, totalBlocks := 0 }
        let image ← Asking.concatIn [] result
        .quiet (if Sha256.sha256 image ≠ hdr.dstSHA256 then .error .applyFailed else .ok { image, stats })

/-- Each of the amounts is granted after those before it. -/
def grantsAll (grants : List Nat → Bool) : (asked sizes : List Nat) → Bool
  | _, [] => true
  | asked, size :: sizes => grants (asked ++ [size]) && grantsAll grants (asked ++ [size]) sizes

/-- `delta.Apply` in a process, which dies of the first amount that it is not granted. -/
def applyWithin (grants : List Nat → Bool) (stream srcImage : Bytes) : Option (Except DeltaError ApplyResult) :=
  (applyIn stream srcImage).bind fun asking =>
    if grantsAll grants [] asking.sizes then some asking.value else none

def blockRequests (bs : Nat) : (count done : Nat) → List Nat
  | 0, _ => []
  | count + 1, done => bs :: 24 * (done + 1) :: blockRequests bs count (done + 1)

/-- The length field of a stream that starts with a data operation, if it is there. -/
def lengthField (stream : Bytes) : List Nat :=
  if stream.head? = some 1 ∧ 9 ≤ stream.length then [fromBigEndian ((stream.drop 5).take 4)] else []

/-- What the operations of a stream ask for, with so many blocks in the source and so many done. At the end
the image grows block by block. -/
def opRequests (blocks bs : Nat) : (left done : Nat) → Bytes → List Nat
  | 0, done, _ => (List.range done).map fun block => (block + 1) * bs
  | left + 1, done, stream =>
    lengthField stream ++
      match readOp stream with
      | .error _ => []
      | .ok (.copy _ srcIdx, stream) =>
        if srcIdx < blocks then opRequests blocks bs left (done + 1) stream else []
      | .ok (.data _ _, stream) => bs :: opRequests blocks bs left (done + 1) stream

def requests (hdr : Header) (length : Nat) (stream : Bytes) : List Nat :=
  let blocks := (length + hdr.blockSize - 1) / hdr.blockSize
  blockRequests hdr.blockSize blocks 0 ++
    24 * hdr.opCount :: opRequests blocks hdr.blockSize hdr.opCount 0 stream

/-- `BlockSize`, the default. -/
def defaultBlockSize : Nat := 4096

/-- `Stats`. -/
structure Stats where
  sourceBlocks : Nat
  targetBlocks : Nat
  copiedBlocks : Nat
  newBlocks : Nat
  newDataBytes : Nat
  fullTargetBytes : Nat

/-- The conversion `uint32(i)`. -/
def toUint32 (value : Nat) : Nat :=
  value % 2 ^ 32

def writeU16 (value : Nat) : Bytes :=
  Sha256.bigEndian value 2

def writeU32 (value : Nat) : Bytes :=
  Sha256.bigEndian value 4

def writeHeader (hdr : Header) : Bytes :=
  magic ++ writeU16 hdr.version ++ writeU32 hdr.blockSize ++ hdr.srcSHA256 ++ hdr.dstSHA256 ++
    writeU32 hdr.opCount

def writeOp : Op → Bytes
  | .copy targetIdx srcIdx => 0 :: (writeU32 targetIdx ++ writeU32 srcIdx)
  | .data targetIdx bytes => 1 :: (writeU32 targetIdx ++ writeU32 (toUint32 bytes.length) ++ bytes)

/-- The map from the hash of a source block to its index; the entry that was set last comes first. -/
def indexBlocks : (index : Nat) → List Bytes → List (Bytes × Nat) → List (Bytes × Nat)
  | _, [], srcIdx => srcIdx
  | index, blk :: blocks, srcIdx =>
    indexBlocks (index + 1) blocks ((Sha256.sha256 blk, toUint32 index) :: srcIdx)

def generateOps (srcIdx : List (Bytes × Nat)) :
    (index : Nat) → List Bytes → List Op → Stats → List Op × Stats
  | _, [], ops, stats => (ops, stats)
  | index, blk :: blocks, ops, stats =>
    match srcIdx.lookup (Sha256.sha256 blk) with
    | some si =>
      generateOps srcIdx (index + 1) blocks (ops ++ [.copy (toUint32 index) si])
        { stats with copiedBlocks := stats.copiedBlocks + 1 }
    | none =>
      generateOps srcIdx (index + 1) blocks (ops ++ [.data (toUint32 index) blk])
        { stats with
          newBlocks := stats.newBlocks + 1
          newDataBytes := stats.newDataBytes + blk.length }

/-- `delta.Generate`: the bytes it writes and its statistics; nothing when it does not return. -/
def generate (srcImage dstImage : Bytes) (blockSize : Int) : Option (Bytes × Stats) := do
  let bs := if blockSize ≤ 0 then defaultBlockSize else blockSize.toNat
  let srcBlocks ← splitBlocks srcImage bs
  let dstBlocks ← splitBlocks dstImage bs
  let (ops, stats) := generateOps (indexBlocks 0 srcBlocks []) 0 dstBlocks []
    { sourceBlocks := srcBlocks.length
      targetBlocks := dstBlocks.length
      copiedBlocks := 0
      newBlocks := 0
      newDataBytes := 0
      fullTargetBytes := dstImage.length }
  let hdr : Header :=
    { version := 1
      blockSize := toUint32 bs
      srcSHA256 := Sha256.sha256 srcImage
      dstSHA256 := Sha256.sha256 dstImage
      opCount := toUint32 ops.length }
  return (writeHeader hdr ++ ops.flatMap writeOp, stats)

structure Header.Fits (hdr : Header) : Prop where
  version : hdr.version < 2 ^ 16
  blockSize : hdr.blockSize < 2 ^ 32
  srcSHA256 : hdr.srcSHA256.length = 32
  dstSHA256 : hdr.dstSHA256.length = 32
  opCount : hdr.opCount < 2 ^ 32

def Op.Fits : Op → Prop
  | .copy targetIdx srcIdx => targetIdx < 2 ^ 32 ∧ srcIdx < 2 ^ 32
  | .data targetIdx bytes => targetIdx < 2 ^ 32 ∧ bytes.length < 2 ^ 32

/-- The stream starts with this header and these operations, as many as the header says. What follows
them is not part of the delta. -/
structure Encodes (stream : Bytes) (hdr : Header) (ops : List Op) : Prop where
  header : hdr.Fits
  operations : ∀ op ∈ ops, op.Fits
  count : hdr.opCount = ops.length
  bytes : ∃ rest, stream = writeHeader hdr ++ (ops.flatMap writeOp ++ rest)

def Op.targetIdx : Op → Nat
  | .copy targetIdx _ => targetIdx
  | .data targetIdx _ => targetIdx

def Op.dataLength : Op → Nat
  | .copy _ _ => 0
  | .data _ bytes => bytes.length

/-- The block an operation stands for; nothing when the source has no such block. -/
def Op.block (srcBlocks : List Bytes) (bs : Nat) : Op → Option Bytes
  | .copy _ srcIdx => srcBlocks[srcIdx]?
  | .data _ bytes => some (padBlock bs bytes)

def writesOf (srcBlocks : List Bytes) (bs : Nat) : List Op → Option (List (Nat × Bytes))
  | [] => some []
  | op :: ops => do
    let block ← op.block srcBlocks bs
    let writes ← writesOf srcBlocks bs ops
    return (op.targetIdx, block) :: writes

def targetImage (bs : Nat) (writes : List (Nat × Bytes)) : Bytes :=
  (Placement.written (List.replicate bs 0) writes).flatten

/-- What the wire format asks of the applier on one stream and one source image: it only succeeds on
version one, with no more data in an operation than a block holds, and then gives the image of the
writes. -/
def Conforms (stream srcImage : Bytes) : Prop :=
  ∀ result, apply stream srcImage = some (.ok result) →
    ∃ hdr ops srcBlocks writes, Encodes stream hdr ops ∧
      splitBlocks srcImage hdr.blockSize = some srcBlocks ∧
      writesOf srcBlocks hdr.blockSize ops = some writes ∧
      hdr.version = 1 ∧ (∀ op ∈ ops, op.dataLength ≤ hdr.blockSize) ∧
      result.image = targetImage hdr.blockSize writes

end NuraOS.Delta
