/-
Purpose: `Run`, which archives a data directory under a passphrase, and `Restore`.
Trusted boundary: `Platform` stands for archive/tar, compress/gzip, crypto/hmac and crypto/cipher
-/
import Mathlib.Data.List.ModifyLast
import NuraOS.Foundation.FileTree
import NuraOS.Foundation.HashChain

namespace NuraOS.Backup

open Foundation

def typeReg : UInt8 := 48

def typeDir : UInt8 := 53

structure Header where
  name : Bytes
  typeflag : UInt8
  mode : Nat
  size : Nat

structure Member where
  header : Header
  content : Bytes

/-- What a reader of an archive meets: the members in turn, each with what can be read of it and the error that
reading it ends with, and at last the end or an error. -/
inductive Members where
  | eof
  | failed (cause : String)
  | member (header : Header) (content : Bytes) (broken : Option String) (rest : Members)

def Members.ofList : List Member → Members
  | [] => .eof
  | m :: rest => .member m.header m.content none (.ofList rest)

/-- A header for a file or a directory that every tar format can hold, with extended records if need be. -/
structure Header.Legal (hdr : Header) : Prop where
  nonempty : hdr.name ≠ []
  noNul : 0 ∉ hdr.name
  plain : hdr.typeflag = typeReg ∨ hdr.typeflag = typeDir ∧ hdr.size = 0

structure Platform where
  /-- Why a header cannot be written, if it cannot. -/
  headerError : Header → Option String
  /-- The bytes that the tar writer and the gzip writer leave once both are closed. -/
  pack : List Member → Bytes
  /-- `gzip.NewReader` and what the tar reader meets after it. -/
  unpack : Bytes → Except String Members
  /-- HMAC-SHA256 under a key. -/
  hmac : (key message : Bytes) → Bytes
  /-- `Seal` and `Open` of AES-GCM under a key, with no additional data. -/
  gcmSeal : (key nonce plaintext : Bytes) → Bytes
  gcmOpen : (key nonce ciphertext : Bytes) → Option Bytes

structure Platform.Faithful (platform : Platform) : Prop where
  header : ∀ hdr, hdr.Legal → platform.headerError hdr = none
  unpack_pack : ∀ members,
    (∀ m ∈ members, m.header.Legal ∧ m.content.length = m.header.size) →
      platform.unpack (platform.pack members) = .ok (.ofList members)
  length_hmac : ∀ key message, (platform.hmac key message).length = 32
  gcmOpen_gcmSeal : ∀ key nonce plaintext,
    platform.gcmOpen key nonce (platform.gcmSeal key nonce plaintext) = some plaintext

inductive TarError where
  | missedWriting (count : Nat)
  | writeTooLong
  | header (cause : String)

structure Writer where
  members : List Member
  pending : Nat

namespace Writer

def empty : Writer := { members := [], pending := 0 }

def writeHeader (platform : Platform) (w : Writer) (hdr : Header) : Except TarError Writer :=
  if w.pending > 0 then .error (.missedWriting w.pending)
  else
    match platform.headerError hdr with
    | some cause => .error (.header cause)
    | none => .ok { members := w.members ++ [{ header := hdr, content := [] }], pending := hdr.size }

/-- `io.Copy` of a file into the writer. -/
def copy (w : Writer) (data : Bytes) : Writer × Option TarError :=
  let taken := data.take w.pending
  ({ members := w.members.modifyLast fun m => { m with content := m.content ++ taken }
     pending := w.pending - taken.length },
    if data.length > w.pending then some .writeTooLong else none)

/-- `Close`, with the members that are then in the archive. -/
def close (w : Writer) : Except TarError (List Member) :=
  if w.pending > 0 then .error (.missedWriting w.pending) else .ok w.members

theorem copy_after_header (members : List Member) (hdr : Header) {data : Bytes} (size : data.length = hdr.size) :
    copy { members := members ++ [{ header := hdr, content := [] }], pending := hdr.size } data =
      ({ members := members ++ [{ header := hdr, content := data }], pending := 0 }, none) := by
  have whole : data.take hdr.size = data := List.take_of_length_le (Nat.le_of_eq size)
  simp [copy, whole, size, List.modifyLast_concat]

end Writer

def saltSize : Nat := 16

def nonceSize : Nat := 12

def pbkdf2Iter : Nat := 10000

/-- The hash object of `hmac.New`: its key, and what was written to it since it was made or reset. -/
structure Hash where
  key : Bytes
  written : Bytes

namespace Hash

def reset (hash : Hash) : Hash := { hash with written := [] }

def write (hash : Hash) (data : Bytes) : Hash := { hash with written := hash.written ++ data }

/-- `Sum(nil)`, which leaves the object as it is. -/
def sum (platform : Platform) (hash : Hash) : Bytes := platform.hmac hash.key hash.written

end Hash

/-- What `deriveKey` works on: the hash object, the arrays made so far, and the numbers of the two that its
slices `dk` and `prev` lead to. -/
structure Derivation where
  prf : Hash
  arrays : List Bytes
  dk : Nat
  prev : Nat

namespace Derivation

def bytes (s : Derivation) (array : Nat) : Bytes := s.arrays.getD array []

/-- `dk[j] ^= prev[j]`, in place. -/
def xorAt (s : Derivation) (j : Nat) : Derivation :=
  { s with arrays := s.arrays.modify s.dk fun dk => dk.modify j (· ^^^ (s.bytes s.prev).getD j 0) }

/-- One round of the loop. `Sum(nil)` makes a new array, which `prev` then leads to. -/
def round (platform : Platform) (s : Derivation) : Derivation :=
  let prf := s.prf.reset.write (s.bytes s.prev)
  let s := { s with prf := prf, arrays := s.arrays ++ [prf.sum platform], prev := s.arrays.length }
  (List.range (s.bytes s.dk).length).foldl xorAt s

def rounds (platform : Platform) (s : Derivation) : Nat → Derivation
  | 0 => s
  | left + 1 => (s.round platform).rounds platform left

end Derivation

def deriveKey (platform : Platform) (passphrase salt : Bytes) : Bytes :=
  -- The salt is followed by the number of the block, one, in four bytes.
  let prf := ((Hash.mk passphrase []).write salt).write (Sha256.bigEndian 1 4)
  let dk := prf.sum platform
  -- `prev` is a copy of `dk` in an array of its own.
  let s : Derivation := { prf := prf, arrays := [dk, dk], dk := 0, prev := 1 }
  (s.rounds platform (pbkdf2Iter - 1)).bytes s.dk

inductive CipherError where
  | random (cause : String)
  | keySize (size : Nat)
  | tooShort
  | tooShortForNonce
  | authentication
deriving DecidableEq

/-- `aes.NewCipher` takes keys of these sizes. -/
def validKey (key : Bytes) : Bool := key.length = 16 || key.length = 24 || key.length = 32

/-- `encryptAESGCM`, with what the two reads of random bytes give. -/
def encryptAESGCM (platform : Platform) (salt : Except String (Vector UInt8 saltSize))
    (nonce : Except String (Vector UInt8 nonceSize)) (plaintext passphrase : Bytes) :
    Except CipherError Bytes :=
  match salt with
  | .error cause => .error (.random cause)
  | .ok salt =>
    let key := deriveKey platform passphrase salt.toList
    if !validKey key then .error (.keySize key.length)
    else
      match nonce with
      | .error cause => .error (.random cause)
      | .ok nonce => .ok (salt.toList ++ nonce.toList ++ platform.gcmSeal key nonce.toList plaintext)

def decryptAESGCM (platform : Platform) (ciphertext passphrase : Bytes) : Except CipherError Bytes :=
  if ciphertext.length < saltSize + 12 then .error .tooShort
  else
    let salt := ciphertext.take saltSize
    let rest := ciphertext.drop saltSize
    let key := deriveKey platform passphrase salt
    if !validKey key then .error (.keySize key.length)
    else if rest.length < nonceSize then .error .tooShortForNonce
    else
      match platform.gcmOpen key (rest.take nonceSize) (rest.drop nonceSize) with
      | some plaintext => .ok plaintext
      | none => .error .authentication

open Path Sha256

def defaultDataDir : Bytes := utf8 "/data"

/-! ### Run -/

structure Options where
  dataDir : Bytes
  outPath : Bytes
  excludeModels : Bool
  passphrase : Bytes

def Options.source (opts : Options) : Bytes :=
  if opts.dataDir = [] then defaultDataDir else opts.dataDir

structure Manifest where
  createdAt : Nat
  dataDir : Bytes
  encrypted : Bool
  excludedModels : Bool
  sha256 : String
  fileCount : Nat

/-- What `Run` meets: what stands at a path, the random bytes, the clock, and the error of writing the archive. -/
structure Host where
  files : Bytes → Option Hierarchy
  salt : Except String (Vector UInt8 saltSize)
  nonce : Except String (Vector UInt8 nonceSize)
  now : Nat
  writeError : Option String

inductive BackupError where
  | noOutPath
  | walk (dataDir : Bytes) (cause : TarError)
  | closeTar (cause : TarError)
  | encrypt (cause : CipherError)
  | writeArchive (cause : String)

structure Walked where
  writer : Writer
  fileCount : Nat

def modelsPrefix : Bytes := utf8 "models/"

def directoryHeader (name : Bytes) : Header :=
  { name := name ++ [slash], typeflag := typeDir, mode := 0o750, size := 0 }

/-- `tar.FileInfoHeader` of a regular file, under another name. -/
def fileHeader (name : Bytes) (mode : Nat) (content : Bytes) : Header :=
  { name := name, typeflag := typeReg, mode := mode, size := content.length }

def writeEntry (platform : Platform) (name : Bytes) (walked : Walked) : Visited → Walked × Verdict TarError
  | .failed => (walked, .next)
  | .directory =>
    match walked.writer.writeHeader platform (directoryHeader name) with
    | .error cause => (walked, .fail cause)
    | .ok writer => ({ walked with writer := writer }, .next)
  | .file mode content opens =>
    match walked.writer.writeHeader platform (fileHeader name mode content) with
    | .error cause => (walked, .fail cause)
    | .ok writer =>
      -- A file that cannot be opened leaves its header behind.
      if !opens then ({ walked with writer := writer }, .next)
      else
        match writer.copy content with
        | (writer, some cause) => ({ walked with writer := writer }, .fail cause)
        | (writer, none) => ({ writer := writer, fileCount := walked.fileCount + 1 }, .next)

/-- What `Run` does where its walk comes. -/
def visit (platform : Platform) (opts : Options) (path : Bytes) (shown : Visited) (walked : Walked) :
    Walked × Verdict TarError :=
  if shown = .failed then (walked, .next)
  else
    -- An error of `filepath.Rel` is dropped, and the path is then empty.
    let name := (rel opts.source path).getD []
    if name = [dot] then (walked, .next)
    else if opts.excludeModels ∧ modelsPrefix <+: name then
      (walked, if shown = .directory then .skipDir else .next)
    else writeEntry platform name walked shown

/-- `Run`, with the archive it writes. -/
def run (platform : Platform) (host : Host) (opts : Options) : Except BackupError (Manifest × Bytes) :=
  if opts.outPath = [] then .error .noOutPath
  else
    match walkRoot (visit platform opts) opts.source (host.files opts.source)
        { writer := .empty, fileCount := 0 } with
    | (_, .error cause) => .error (.walk opts.source cause)
    | (walked, .ok _) =>
      match walked.writer.close with
      | .error cause => .error (.closeTar cause)
      | .ok members =>
        let archiveBytes := platform.pack members
        let sealed :=
          if opts.passphrase ≠ [] then
            encryptAESGCM platform host.salt host.nonce archiveBytes opts.passphrase
          else .ok archiveBytes
        match sealed with
        | .error cause => .error (.encrypt cause)
        | .ok output =>
          match host.writeError with
          | some cause => .error (.writeArchive cause)
          | none =>
            .ok ({ createdAt := host.now
                   dataDir := opts.source
                   encrypted := opts.passphrase ≠ []
                   excludedModels := opts.excludeModels
                   sha256 := sha256Hex archiveBytes
                   fileCount := walked.fileCount }, output)

/-! ### Restore -/

structure RestoreOptions where
  archivePath : Bytes
  destDir : Bytes
  passphrase : Bytes
  dryRun : Bool
  expectedSHA256 : String

def RestoreOptions.target (opts : RestoreOptions) : Bytes :=
  if opts.destDir = [] then defaultDataDir else opts.destDir

structure Process where
  cwd : Location
  umask : Nat

structure RestoreResult where
  filesRestored : Nat
  preview : List Bytes
  verifiedSHA256 : String

def RestoreResult.zero : RestoreResult := { filesRestored := 0, preview := [], verifiedSHA256 := "" }

inductive RestoreError where
  | noArchivePath
  | readArchive (cause : Errno)
  | decrypt (cause : CipherError)
  | mismatch (got want : String)
  | gzipReader (cause : String)
  | tarNext (cause : String)
  | system (cause : Errno)
  | copy (cause : String)
deriving DecidableEq

/-- The files once `Restore` has returned, with its result and its error. -/
structure Restored where
  tree : FileTree
  result : RestoreResult
  error : Option RestoreError

/-- The mode `Restore` gives to every file it creates. -/
def restoreMode : Nat := 0o640

/-- What the loop of `Restore` does with one member. -/
def restoreMember (process : Process) (opts : RestoreOptions) (hdr : Header) (content : Bytes)
    (broken : Option String) (res : RestoreResult) (tree : FileTree) : Restored :=
  let name := clean hdr.name
  -- `strings.HasPrefix(rel, "..")`
  if dotdot <+: name then { tree := tree, result := res, error := none }
  else
    let dest := join opts.target name
    if opts.dryRun then
      { tree := tree, result := { res with preview := res.preview ++ [dest] }, error := none }
    else if hdr.typeflag = typeDir then
      match tree.mkdirAll (resolve process.cwd dest) with
      | .error cause => { tree := tree, result := res, error := some (.system cause) }
      | .ok tree => { tree := tree, result := res, error := none }
    else
      match tree.mkdirAll (resolve process.cwd (dir dest)) with
      | .error cause => { tree := tree, result := res, error := some (.system cause) }
      | .ok tree =>
        match tree.writeFile (resolve process.cwd dest) content (created process.umask restoreMode) with
        | .error cause => { tree := tree, result := res, error := some (.system cause) }
        | .ok tree =>
          match broken with
          | some cause => { tree := tree, result := res, error := some (.copy cause) }
          | none =>
            { tree := tree, result := { res with filesRestored := res.filesRestored + 1 }, error := none }

/-- The loop of `Restore`. -/
def extract (process : Process) (opts : RestoreOptions) : Members → RestoreResult → FileTree → Restored
  | .eof, res, tree => { tree := tree, result := res, error := none }
  | .failed cause, res, tree => { tree := tree, result := res, error := some (.tarNext cause) }
  | .member hdr content broken rest, res, tree =>
    let after := restoreMember process opts hdr content broken res tree
    match after.error with
    | some _ => after
    | none => extract process opts rest after.result after.tree

/-- `Restore`, with what reading the archive gives. -/
def restore (platform : Platform) (process : Process) (opts : RestoreOptions) (raw : Except Errno Bytes)
    (tree : FileTree) : Restored :=
  if opts.archivePath = [] then { tree := tree, result := .zero, error := some .noArchivePath }
  else
    match raw with
    | .error cause => { tree := tree, result := .zero, error := some (.readArchive cause) }
    | .ok raw =>
      let opened := if opts.passphrase ≠ [] then decryptAESGCM platform raw opts.passphrase else .ok raw
      match opened with
      | .error cause => { tree := tree, result := .zero, error := some (.decrypt cause) }
      | .ok archiveData =>
        let digest := sha256Hex archiveData
        if opts.expectedSHA256 ≠ "" ∧ digest ≠ opts.expectedSHA256 then
          { tree := tree, result := .zero, error := some (.mismatch digest opts.expectedSHA256) }
        else
          let res := { RestoreResult.zero with verifiedSHA256 := digest }
          match platform.unpack archiveData with
          | .error cause => { tree := tree, result := res, error := some (.gzipReader cause) }
          | .ok members => extract process opts members res tree

end NuraOS.Backup
