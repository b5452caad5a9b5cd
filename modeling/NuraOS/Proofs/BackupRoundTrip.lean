/-
Purpose: What `Run` archives, what `Restore` makes of it and of any archive, and `deriveKey` against PBKDF2.
-/
import Mathlib.Data.Nat.Digits.Defs
import NuraOS.Backup.Operations

namespace NuraOS.Backup

open Foundation Path Sha256 List

def relative (names : List Bytes) : Bytes := [slash].intercalate names

variable {names : List Bytes} {opts : Options} {tree : Hierarchy} {platform : Platform}

theorem elements_relative (legal : ∀ name ∈ names, LegalName name) (nonempty : names ≠ []) :
    elements (relative names) = names :=
  elements_intercalate (fun name member => (legal name member).2.1) nonempty

theorem relative_append {first second : List Bytes} (nonempty : first ≠ []) (more : second ≠ []) :
    relative (first ++ second) = relative first ++ slash :: relative second := by
  induction second using List.reverseRecOn with
  | nil => exact absurd rfl more
  | append_singleton front last ih =>
    rcases eq_or_ne front [] with rfl | someFront
    · rw [nil_append, relative, intercalate_concat nonempty, relative, relative,
        intercalate_singleton]
    · have step := ih someFront
      simp only [relative] at step ⊢
      rw [← append_assoc, intercalate_concat (by simp [nonempty]), step, intercalate_concat someFront]
      simp

theorem relative_ne (legal : ∀ name ∈ names, LegalName name) (nonempty : names ≠ []) :
    relative names ≠ [] ∧ relative names ≠ [dot] := by
  have whole := elements_relative legal nonempty
  constructor
  · intro empty
    rw [empty, show elements [] = [[]] by decide] at whole
    exact (legal [] (whole ▸ mem_singleton_self _)).1.1 rfl
  · intro here
    rw [here, show elements [dot] = [[dot]] by decide] at whole
    exact (legal [dot] (whole ▸ mem_singleton_self _)).1.2.1 rfl

theorem zero_notMem_relative (legal : ∀ name ∈ names, LegalName name) : 0 ∉ relative names := by
  induction names using List.reverseRecOn with
  | nil => exact not_mem_nil
  | append_singleton front last ih =>
    obtain ⟨frontLegal, lastLegal⟩ := forall_mem_append.mp legal
    have inLast : 0 ∉ last := (lastLegal last (mem_singleton_self last)).2.2
    rcases eq_or_ne front [] with rfl | someFront
    · simpa [relative] using inLast
    · have inFront : 0 ∉ [slash].intercalate front := ih frontLegal
      have notSlash : 0 ≠ slash := by decide
      rw [relative, intercalate_concat someFront]
      simp [inFront, inLast, notSlash]

/-! ### What the walk writes -/

def Excluded (opts : Options) (names : List Bytes) : Prop :=
  opts.excludeModels = true ∧ modelsPrefix <+: relative names

instance (opts : Options) (names : List Bytes) : Decidable (Excluded opts names) :=
  inferInstanceAs (Decidable (_ ∧ _))

theorem Excluded.below {more : List Bytes} (excluded : Excluded opts names)
    (nonempty : names ≠ []) : Excluded opts (names ++ more) := by
  rcases eq_or_ne more [] with rfl | someMore
  · rwa [append_nil]
  · refine ⟨excluded.1, ?_⟩
    rw [relative_append nonempty someMore]
    exact excluded.2.trans (List.prefix_append _ _)

def memberOf (opts : Options) (item : List Bytes × Visited) : Option Member :=
  if item.1 = [] ∨ Excluded opts item.1 then none
  else
    match item.2 with
    | .failed => none
    | .directory => some { header := directoryHeader (relative item.1), content := [] }
    | .file mode content _ =>
      some { header := fileHeader (relative item.1) mode content, content := content }

def Member.isFile (m : Member) : Bool := m.header.typeflag = typeReg

def Walked.add (walked : Walked) (members : List Member) : Walked :=
  { writer := { members := walked.writer.members ++ members, pending := 0 }
    fileCount := walked.fileCount + members.countP Member.isFile }

theorem filterMap_cons_toList {α β : Type} (f : α → Option β) (first : α) (rest : List α) :
    (first :: rest).filterMap f = (f first).toList ++ rest.filterMap f := by
  cases made : f first with
  | none => rw [filterMap_cons_none made, Option.toList_none, nil_append]
  | some value => rw [filterMap_cons_some made, Option.toList_some, singleton_append]

def Opens : Visited → Prop
  | .file _ _ opens => opens = true
  | .directory => True
  | .failed => False

theorem opens_visited {node : Hierarchy} (readable : node.readable = true) : Opens node.visited := by
  cases node with
  | file mode content opens => exact readable
  | directory lists children =>
    rw [Hierarchy.readable, Bool.and_eq_true] at readable
    obtain ⟨rfl, -⟩ := readable
    trivial

section Walk

variable {platform : Platform} {opts : Options} {names : List Bytes} {walked : Walked}

theorem source_ne_nil (opts : Options) : opts.source ≠ [] := by
  rw [Options.source]
  split
  · decide
  · assumption

theorem add_nil (calm : walked.writer.pending = 0) : walked.add [] = walked := by
  obtain ⟨⟨members, pending⟩, fileCount⟩ := walked
  cases calm
  simp [Walked.add]

theorem rel_source (legal : ∀ name ∈ names, LegalName name) (nonempty : names ≠ []) :
    (rel opts.source (pathBelow opts.source names)).getD [] = relative names := by
  rw [rel_pathBelow (source_ne_nil opts) legal nonempty]
  rfl

theorem visit_root (shown : Visited) (walked : Walked) :
    visit platform opts (pathBelow opts.source []) shown walked = (walked, .next) := by
  rw [visit, show pathBelow opts.source [] = opts.source from rfl, rel_self]
  simp

theorem visit_excluded (legal : ∀ name ∈ names, LegalName name) (nonempty : names ≠ [])
    (excluded : Excluded opts names) (shown : Visited) (walked : Walked) :
    visit platform opts (pathBelow opts.source names) shown walked =
      (walked, if shown = .directory then .skipDir else .next) := by
  rw [visit, rel_source legal nonempty]
  by_cases failed : shown = .failed
  · simp [failed]
  · have here : opts.excludeModels = true ∧ modelsPrefix <+: relative names := excluded
    simp only [if_neg failed, if_neg (relative_ne legal nonempty).2, if_pos here]

theorem legal_directoryHeader (legal : ∀ name ∈ names, LegalName name) :
    (directoryHeader (relative names)).Legal :=
  ⟨by simp [directoryHeader], by simp [directoryHeader, zero_notMem_relative legal]; decide, .inr ⟨rfl, rfl⟩⟩

theorem legal_fileHeader (legal : ∀ name ∈ names, LegalName name) (nonempty : names ≠ []) (mode : Nat)
    (content : Bytes) : (fileHeader (relative names) mode content).Legal :=
  ⟨(relative_ne legal nonempty).1, zero_notMem_relative legal, .inl rfl⟩

theorem writeHeader_legal (faithful : platform.Faithful) {hdr : Header} (legal : hdr.Legal)
    (calm : walked.writer.pending = 0) :
    walked.writer.writeHeader platform hdr =
      .ok { members := walked.writer.members ++ [{ header := hdr, content := [] }], pending := hdr.size } := by
  rw [Writer.writeHeader, if_neg (by omega), faithful.header hdr legal]

variable {shown : Visited}

theorem visit_written (faithful : platform.Faithful) (legal : ∀ name ∈ names, LegalName name)
    (nonempty : names ≠ []) (kept : ¬ Excluded opts names) (opens : Opens shown)
    (calm : walked.writer.pending = 0) :
    visit platform opts (pathBelow opts.source names) shown walked =
      (walked.add (memberOf opts (names, shown)).toList, .next) := by
  have written : ¬ (names = [] ∨ Excluded opts names) := not_or.mpr ⟨nonempty, kept⟩
  have notExcluded : ¬ (opts.excludeModels = true ∧ modelsPrefix <+: relative names) := kept
  have shows : shown ≠ .failed := by
    rintro rfl
    exact opens
  rw [visit, rel_source legal nonempty, if_neg shows]
  simp only [if_neg (relative_ne legal nonempty).2, if_neg notExcluded, memberOf, if_neg written]
  cases shown with
  | failed => exact opens.elim
  | directory =>
    rw [writeEntry, writeHeader_legal faithful (legal_directoryHeader legal) calm]
    simp [Walked.add, directoryHeader, Member.isFile, typeDir, typeReg]
  | file mode content readable =>
    cases opens
    rw [writeEntry, writeHeader_legal faithful (legal_fileHeader legal nonempty mode content) calm]
    simp only [Writer.copy_after_header _ (fileHeader (relative names) mode content) rfl]
    simp [Walked.add, fileHeader, Member.isFile]

theorem visitAt_eq (faithful : platform.Faithful) (legal : ∀ name ∈ names, LegalName name)
    (opens : Opens shown) (calm : walked.writer.pending = 0) :
    visitAt (visit platform opts) opts.source walked (names, shown) =
      walked.add (memberOf opts (names, shown)).toList := by
  rw [visitAt]
  by_cases root : names = []
  · have none : memberOf opts (names, shown) = none := if_pos (.inl root)
    rw [none, root, visit_root]
    exact (add_nil calm).symm
  by_cases excluded : Excluded opts names
  · have none : memberOf opts (names, shown) = none := if_pos (.inr excluded)
    rw [none, visit_excluded legal root excluded]
    exact (add_nil calm).symm
  · rw [visit_written faithful legal root excluded opens calm]

theorem visit_smooth (faithful : platform.Faithful) :
    Smooth (visit platform opts) opts.source (fun walked => walked.writer.pending = 0) where
  file names mode content walked legal calm := by
    refine ⟨by rw [visitAt_eq faithful legal (by exact rfl) calm]; rfl, ?_⟩
    by_cases root : names = []
    · rw [root, visit_root]
    by_cases excluded : Excluded opts names
    · rw [visit_excluded legal root excluded]
      rfl
    · rw [visit_written faithful legal root excluded (by exact rfl) calm]
  directory names walked legal calm := by
    refine ⟨by rw [visitAt_eq faithful legal (by trivial) calm]; rfl, ?_⟩
    by_cases root : names = []
    · rw [root, visit_root]
      exact .inl rfl
    by_cases excluded : Excluded opts names
    · rw [visit_excluded legal root excluded]
      refine .inr ⟨rfl, fun more shown walked _ legalMore => ?_⟩
      have legalAll : ∀ name ∈ names ++ more, LegalName name := forall_mem_append.mpr ⟨legal, legalMore⟩
      rw [visitAt, visit_excluded legalAll (by simp [root]) (excluded.below root)]
    · rw [visit_written faithful legal root excluded (by trivial) calm]
      exact .inl rfl

theorem foldl_visitAt (faithful : platform.Faithful) {items : List (List Bytes × Visited)}
    (visible : ∀ item ∈ items, (∀ name ∈ item.1, LegalName name) ∧ Opens item.2)
    (calm : walked.writer.pending = 0) :
    items.foldl (visitAt (visit platform opts) opts.source) walked = walked.add (items.filterMap (memberOf opts)) := by
  induction items generalizing walked with
  | nil => exact (add_nil calm).symm
  | cons item items ih =>
    obtain ⟨⟨legal, opens⟩, rest⟩ := forall_mem_cons.mp visible
    rw [foldl_cons, visitAt_eq faithful legal opens calm, ih rest rfl, filterMap_cons_toList]
    simp [Walked.add, Nat.add_assoc]

end Walk

theorem visible_listing (wellFormed : tree.wellFormed = true)
    (readable : tree.readable = true) {item : List Bytes × Visited} (listed : item ∈ listing [] tree) :
    (∀ name ∈ item.1, LegalName name) ∧ Opens item.2 := by
  obtain ⟨names, inner, rfl, leads⟩ := descend_of_mem_listing tree wellFormed readable listed
  obtain ⟨legal, -, opens⟩ := descend_sound wellFormed readable leads
  exact ⟨legal, opens_visited opens⟩

def archived (opts : Options) (tree : Hierarchy) : List Member :=
  (listing [] tree).filterMap (memberOf opts)

theorem walk_members (faithful : platform.Faithful) (opts : Options)
    (wellFormed : tree.wellFormed = true) (readable : tree.readable = true) :
    walkRoot (visit platform opts) opts.source (some tree) { writer := .empty, fileCount := 0 } =
      ({ writer := { members := archived opts tree, pending := 0 }
         fileCount := (archived opts tree).countP Member.isFile }, .ok ()) := by
  obtain ⟨walks, -⟩ := walkRoot_visits (visit_smooth faithful) wellFormed readable
    (show ({ writer := .empty, fileCount := 0 } : Walked).writer.pending = 0 from rfl)
  rw [walks, foldl_visitAt faithful (fun _ listed => visible_listing wellFormed readable listed) rfl]
  simp [Walked.add, Writer.empty, archived]

theorem legal_archived (wellFormed : tree.wellFormed = true)
    (readable : tree.readable = true) {m : Member} (member : m ∈ archived opts tree) :
    m.header.Legal ∧ m.content.length = m.header.size := by
  obtain ⟨⟨names, shown⟩, listed, made⟩ := mem_filterMap.mp member
  obtain ⟨legal, -⟩ := visible_listing wellFormed readable listed
  rw [memberOf] at made
  split at made
  · cases made
  · rename_i written
    have nonempty : names ≠ [] := (not_or.mp written).1
    cases shown with
    | failed => cases made
    | directory =>
      cases made
      exact ⟨legal_directoryHeader legal, rfl⟩
    | file mode content opens =>
      cases made
      exact ⟨legal_fileHeader legal nonempty mode content, rfl⟩

/-! ### Encryption -/

section Pbkdf2

variable (prf : (password message : Bytes) → Bytes) (password salt : Bytes)

/-- `U_(j+1)` for the block of this number. -/
def pbkdf2Output (block : Nat) : Nat → Bytes
  | 0 => prf password (salt ++ Sha256.bigEndian block 4)
  | j + 1 => prf password (pbkdf2Output block j)

/-- The exclusive or of `U_1` to `U_(j+1)`. -/
def pbkdf2Sum (block : Nat) : Nat → Bytes
  | 0 => pbkdf2Output prf password salt block 0
  | j + 1 => (pbkdf2Sum block j).zipWith (· ^^^ ·) (pbkdf2Output prf password salt block (j + 1))

/-- The block `T_block`, with `count` iterations. -/
def pbkdf2Block (count block : Nat) : Bytes :=
  pbkdf2Sum prf password salt block (count - 1)

/-- The derived key of `dkLen` bytes, from blocks of `hLen` bytes. -/
def pbkdf2 (hLen count dkLen : Nat) : Bytes :=
  ((range ((dkLen + hLen - 1) / hLen)).flatMap fun i =>
    pbkdf2Block prf password salt count (i + 1)).take dkLen

variable {prf password salt}

theorem length_pbkdf2Output (length : ∀ key message, (prf key message).length = 32) (block j : Nat) :
    (pbkdf2Output prf password salt block j).length = 32 := by
  cases j <;> exact length _ _

theorem length_pbkdf2Sum (length : ∀ key message, (prf key message).length = 32) (block j : Nat) :
    (pbkdf2Sum prf password salt block j).length = 32 := by
  induction j with
  | zero => exact length_pbkdf2Output length block 0
  | succ j ih =>
    rw [pbkdf2Sum, length_zipWith, ih, length_pbkdf2Output length, Nat.min_self]

end Pbkdf2

namespace Derivation

variable {platform : Platform} {s : Derivation}

theorem bytes_xorAt (apart : s.dk ≠ s.prev) (j : Nat) : (s.xorAt j).bytes s.prev = s.bytes s.prev := by
  simp [bytes, xorAt, getD_eq_getElem?_getD, apart]

/-- The loop changes the array of `dk` alone, from the bytes `prev` has before it. -/
theorem foldl_xorAt (apart : s.dk ≠ s.prev) (places : List Nat) :
    places.foldl xorAt s =
      { s with arrays := s.arrays.modify s.dk fun dk =>
          places.foldl (fun dk j => dk.modify j (· ^^^ (s.bytes s.prev).getD j 0)) dk } := by
  induction places generalizing s with
  | nil => simp [show (fun dk : Bytes => dk) = id from rfl]
  | cons j places ih =>
    rw [foldl_cons, ih (s := s.xorAt j) apart, show (s.xorAt j).prev = s.prev from rfl, bytes_xorAt apart]
    simp [xorAt, modify_modify_eq, Function.comp_def]

theorem foldl_modify (dk prev : Bytes) (count : Nat) (within : count ≤ dk.length ∧ count ≤ prev.length) :
    (range count).foldl (fun dk j => dk.modify j (· ^^^ prev.getD j 0)) dk =
      (dk.take count).zipWith (· ^^^ ·) prev ++ dk.drop count := by
  induction count with
  | zero => simp
  | succ count ih =>
    have next := ih (by omega)
    rw [range_succ, foldl_append, next, foldl_cons, foldl_nil]
    apply ext_getElem (by simp; omega)
    intro place one two
    simp [getElem_modify, getElem_append]
    grind

/-- The state before a round: the slices lead to different arrays, with these bytes. -/
structure Holds (s : Derivation) (key dk prev : Bytes) : Prop where
  key : s.prf.key = key
  first : s.dk = 0
  apart : s.prev ≠ 0
  dk : s.arrays[0]? = some dk
  prev : s.arrays[s.prev]? = some prev

theorem Holds.round {key dk prev : Bytes} (holds : s.Holds key dk prev) (length : dk.length = 32)
    (outputs : ∀ message, (platform.hmac key message).length = 32) :
    (s.round platform).Holds key (dk.zipWith (· ^^^ ·) (platform.hmac key prev)) (platform.hmac key prev) := by
  obtain ⟨rest, arrays⟩ : ∃ rest, s.arrays = dk :: rest := by
    have first := holds.dk
    cases made : s.arrays with
    | nil => simp [made] at first
    | cons other rest => simp_all
  have written : (s.prf.reset.write (s.bytes s.prev)).sum platform = platform.hmac key prev := by
    simp [Hash.sum, Hash.write, Hash.reset, holds.key, bytes, getD_eq_getElem?_getD, holds.prev]
  have latest : (s.arrays ++ [platform.hmac key prev]).getD s.arrays.length [] = platform.hmac key prev := by simp
  have apart : (0 : Nat) ≠ s.arrays.length := by simp [arrays]
  simp only [Derivation.round, written]
  rw [foldl_xorAt (by simpa [holds.first] using apart)]
  simp only [bytes, holds.first, latest]
  have sum := foldl_modify dk (platform.hmac key prev) 32 (by simp [length, outputs])
  rw [take_of_length_le (Nat.le_of_eq length), drop_of_length_le (Nat.le_of_eq length), append_nil] at sum
  refine ⟨holds.key, rfl, apart.symm, ?_, ?_⟩
  · simpa [arrays, length] using sum
  · simp [arrays]

/-- After `j` rounds `dk` has the sum of the outputs so far, and `prev` the last one. -/
theorem Holds.rounds {password salt : Bytes} {block j : Nat}
    (length : ∀ key message, (platform.hmac key message).length = 32)
    (holds : s.Holds password (pbkdf2Sum platform.hmac password salt block j)
      (pbkdf2Output platform.hmac password salt block j)) (left : Nat) :
    (s.rounds platform left).bytes 0 = pbkdf2Sum platform.hmac password salt block (j + left) := by
  induction left generalizing s j with
  | zero => simp [rounds, bytes, getD_eq_getElem?_getD, holds.dk]
  | succ left ih =>
    have next := holds.round (length_pbkdf2Sum length block j) (length password)
    rw [Derivation.rounds, ih (j := j + 1) next, Nat.add_assoc, Nat.add_comm 1]

end Derivation

/-- The four bytes after the salt are the number of the first block. -/
theorem deriveKey_eq {platform : Platform} (length : ∀ key message, (platform.hmac key message).length = 32)
    (passphrase salt : Bytes) :
    deriveKey platform passphrase salt = pbkdf2Sum platform.hmac passphrase salt 1 (pbkdf2Iter - 1) := by
  have start : (Derivation.mk (((Hash.mk passphrase []).write salt).write (Sha256.bigEndian 1 4))
      [pbkdf2Sum platform.hmac passphrase salt 1 0, pbkdf2Sum platform.hmac passphrase salt 1 0] 0 1).Holds
      passphrase (pbkdf2Sum platform.hmac passphrase salt 1 0) (pbkdf2Output platform.hmac passphrase salt 1 0) :=
    ⟨rfl, rfl, Nat.one_ne_zero, rfl, rfl⟩
  rw [← Nat.zero_add (pbkdf2Iter - 1)]
  exact start.rounds length (pbkdf2Iter - 1)

theorem validKey_deriveKey (faithful : platform.Faithful) (passphrase salt : Bytes) :
    validKey (deriveKey platform passphrase salt) = true := by
  have length : (deriveKey platform passphrase salt).length = 32 := by
    rw [deriveKey_eq faithful.length_hmac]
    exact length_pbkdf2Sum faithful.length_hmac 1 _
  simp [validKey, length]

theorem decrypt_encrypt (faithful : platform.Faithful) (salt) (nonce) (plaintext passphrase : Bytes) :
    ∃ ciphertext, encryptAESGCM platform (.ok salt) (.ok nonce) plaintext passphrase = .ok ciphertext ∧
      decryptAESGCM platform ciphertext passphrase = .ok plaintext := by
  have saltLength : salt.toList.length = saltSize := by simp
  have nonceLength : nonce.toList.length = nonceSize := by simp
  have valid := validKey_deriveKey faithful passphrase salt.toList
  generalize body : platform.gcmSeal (deriveKey platform passphrase salt.toList) nonce.toList plaintext = ct
  refine ⟨salt.toList ++ nonce.toList ++ ct, by simp [encryptAESGCM, valid, body], ?_⟩
  have opened := faithful.gcmOpen_gcmSeal (deriveKey platform passphrase salt.toList) nonce.toList plaintext
  rw [body] at opened
  have long : ¬ (salt.toList ++ nonce.toList ++ ct).length < saltSize + 12 := by
    rw [length_append, length_append, saltLength, nonceLength]
    simp [nonceSize]
  have front : (salt.toList ++ (nonce.toList ++ ct)).take saltSize = salt.toList := take_left' saltLength
  have back : (salt.toList ++ (nonce.toList ++ ct)).drop saltSize = nonce.toList ++ ct :=
    drop_left' saltLength
  have enough : ¬ (nonce.toList ++ ct).length < nonceSize := by
    rw [length_append, nonceLength]
    omega
  rw [decryptAESGCM, if_neg long]
  simp only [append_assoc, front, back, valid, if_neg enough, take_left' nonceLength,
    drop_left' nonceLength, opened]
  rfl

/-- The calls of `Run` outside the tree succeed. -/
structure Host.Quiet (host : Host) : Prop where
  salt : ∃ salt, host.salt = .ok salt
  nonce : ∃ nonce, host.nonce = .ok nonce
  written : host.writeError = none

/-- What `Restore` makes of the archive before it looks at its members. -/
def opened (platform : Platform) (passphrase output : Bytes) : Except CipherError Bytes :=
  if passphrase ≠ [] then decryptAESGCM platform output passphrase else .ok output

theorem run_archives (faithful : platform.Faithful) {host : Host} (quiet : host.Quiet) (out : opts.outPath ≠ [])
    (found : host.files opts.source = some tree)
    (wellFormed : tree.wellFormed = true) (readable : tree.readable = true) :
    ∃ manifest output, run platform host opts = .ok (manifest, output) ∧
      opened platform opts.passphrase output = .ok (platform.pack (archived opts tree)) ∧
      manifest.sha256 = sha256Hex (platform.pack (archived opts tree)) ∧
      manifest.fileCount = (archived opts tree).countP Member.isFile := by
  obtain ⟨salt, salted⟩ := quiet.salt
  obtain ⟨nonce, nonced⟩ := quiet.nonce
  rw [run, if_neg out, found, walk_members faithful opts wellFormed readable]
  simp only [Writer.close, Nat.lt_irrefl, if_false, quiet.written]
  by_cases plain : opts.passphrase = []
  · simp only [plain, ne_eq, not_true, if_false]
    exact ⟨_, _, rfl, by simp [opened], rfl, rfl⟩
  · obtain ⟨ciphertext, encrypts, decrypts⟩ :=
      decrypt_encrypt faithful salt nonce (platform.pack (archived opts tree)) opts.passphrase
    simp only [ne_eq, plain, not_false_iff, if_true, salted, nonced, encrypts]
    exact ⟨_, _, rfl, by simp [opened, plain, decrypts], rfl, rfl⟩

/-! ### The directory that is extracted to -/

/-- A name `Restore` takes for one that leads out of the directory. -/
def Skipped (names : List Bytes) : Prop := dotdot <+: relative names

instance (names : List Bytes) : Decidable (Skipped names) := inferInstanceAs (Decidable (_ <+: _))

def Process.mode (process : Process) : Nat := created process.umask restoreMode

/-- Whatever lies below the base is where the tree has it: a directory, or a file that is not skipped, with the
content it has in the tree. -/
structure Mirrors (process : Process) (tree : Hierarchy) (base : Location) (dest : FileTree) : Prop where
  rooted : dest.lookup base = some .directory
  directory : ∀ names, names ≠ [] → dest.lookup (base ++ names) = some .directory →
    ∃ node, tree.descend names = some node ∧ node.isDirectory = true
  file : ∀ names content mode, dest.lookup (base ++ names) = some (.file content mode) →
    (∃ original opens, tree.descend names = some (.file original content opens)) ∧
      ¬ Skipped names ∧ mode = process.mode

def Keeps (base : Location) (dest after : FileTree) : Prop :=
  ∀ names content mode, dest.lookup (base ++ names) = some (.file content mode) →
    after.lookup (base ++ names) = some (.file content mode)

variable {dest : FileTree}

theorem Keeps.trans {base : Location} {middle after : FileTree} (first : Keeps base dest middle)
    (second : Keeps base middle after) : Keeps base dest after :=
  fun names content mode found => second names content mode (first names content mode found)

section Calls

variable {process : Process} {tree : Hierarchy} {base : Location} {dest : FileTree}

variable {place : Location} {names : List Bytes}

theorem prefix_base_append (above : place <+: base ++ names) :
    place <+: base ∨ ∃ inner, place = base ++ inner ∧ inner <+: names := by
  rcases List.prefix_or_prefix_of_prefix above (List.prefix_append base names) with outside | ⟨inner, rfl⟩
  · exact .inl outside
  · exact .inr ⟨inner, rfl, (List.prefix_append_right_inj base).mp above⟩

theorem Mirrors.above_base (mirrors : Mirrors process tree base dest) (above : place <+: base) :
    dest.lookup place = some .directory := by
  by_cases same : place = base
  · exact same ▸ mirrors.rooted
  · exact FileTree.lookup_above above same (by simp [mirrors.rooted])

theorem Mirrors.mkdirAll (mirrors : Mirrors process tree base dest) (names : List Bytes)
    (directories : ∀ inner, inner <+: names → inner ≠ [] →
      ∃ node, tree.descend inner = some node ∧ node.isDirectory = true) :
    ∃ after, dest.mkdirAll (base ++ names) = .ok after ∧ Mirrors process tree base after ∧
      Keeps base dest after ∧ after.lookup (base ++ names) = some .directory := by
  have free : ∀ place, place <+: base ++ names → ∀ content mode,
      dest.lookup place ≠ some (.file content mode) := by
    intro place above content mode found
    rcases prefix_base_append above with outside | ⟨inner, rfl, inside⟩
    · rw [mirrors.above_base outside] at found
      cases found
    · obtain ⟨⟨original, opens, leads⟩, -⟩ := mirrors.file inner content mode found
      have below : inner ≠ [] := by
        rintro rfl
        rw [append_nil, mirrors.rooted] at found
        cases found
      obtain ⟨node, here, isDirectory⟩ := directories inner inside below
      rw [leads] at here
      cases here
      cases isDirectory
  obtain ⟨after, made⟩ := FileTree.mkdirAll_isOk free
  have lookup := FileTree.lookup_mkdirAll made
  refine ⟨after, made, ⟨?_, ?_, ?_⟩, ?_, ?_⟩
  · rw [lookup, mirrors.rooted, if_neg (by simp)]
  · intro inner below found
    rw [lookup] at found
    split at found
    · rename_i new
      exact directories inner ((List.prefix_append_right_inj base).mp new.2) below
    · exact mirrors.directory inner below found
  · intro inner content mode found
    rw [lookup] at found
    split at found
    · cases found
    · exact mirrors.file inner content mode found
  · intro inner content mode found
    rw [lookup, found, if_neg (by simp)]
  · rw [lookup]
    cases here : dest.lookup (base ++ names) with
    | none => rw [if_pos ⟨rfl, List.prefix_rfl⟩]
    | some node =>
      cases node with
      | directory => rw [if_neg (by simp)]
      | file content mode => exact absurd here (free _ List.prefix_rfl content mode)

theorem Mirrors.writeFile (mirrors : Mirrors process tree base dest) (below : names ≠ [])
    {original : Nat} {content : Bytes} {opens : Bool}
    (leads : tree.descend names = some (.file original content opens)) (kept : ¬ Skipped names)
    (parent : dest.lookup (base ++ names.dropLast) = some .directory) :
    ∃ after, dest.writeFile (base ++ names) content process.mode = .ok after ∧
      Mirrors process tree base after ∧ Keeps base dest after ∧
      after.lookup (base ++ names) = some (.file content process.mode) := by
  have free : dest.lookup (base ++ names) ≠ some .directory := by
    intro found
    obtain ⟨node, here, isDirectory⟩ := mirrors.directory names below found
    rw [leads] at here
    cases here
    cases isDirectory
  have place : base ++ names ≠ [] := by simp [below]
  obtain ⟨after, written⟩ := FileTree.writeFile_isOk place
    (by rw [dropLast_append_of_ne_nil below]; exact parent) free
  have lookup := FileTree.lookup_writeFile written
  -- A file that is already there has been restored before, with the same mode.
  have mode : dest.modeAfter (base ++ names) process.mode = process.mode := by
    rw [FileTree.modeAfter]
    split
    · rename_i found
      exact (mirrors.file _ _ _ found).2.2
    · rfl
  rw [mode] at lookup
  have here : after.lookup (base ++ names) = some (.file content process.mode) := by
    rw [lookup, if_pos rfl]
  refine ⟨after, written, ⟨?_, ?_, ?_⟩, ?_, here⟩
  · rw [lookup, if_neg (by simp [below]), mirrors.rooted]
  · intro inner someInner found
    rw [lookup] at found
    split at found
    · cases found
    · exact mirrors.directory inner someInner found
  · intro inner data bits found
    rw [lookup] at found
    split at found
    · rename_i same
      cases found
      cases append_cancel_left same
      exact ⟨⟨original, opens, leads⟩, kept, rfl⟩
    · exact mirrors.file inner data bits found
  · intro inner data bits found
    rw [lookup]
    split
    · rename_i same
      cases append_cancel_left same
      obtain ⟨⟨other, others, leadsToo⟩, -, bitsMode⟩ := mirrors.file _ _ _ found
      rw [leads] at leadsToo
      cases leadsToo
      rw [bitsMode]
    · exact found

end Calls

/-! ### The members one after the other -/

section Extraction

variable {process : Process} {ropts : RestoreOptions} {opts : Options} {tree : Hierarchy} {dest : FileTree}
  {res : RestoreResult}

theorem target_ne_nil (ropts : RestoreOptions) : ropts.target ≠ [] := by
  rw [RestoreOptions.target]
  split
  · decide
  · assumption

def RestoreOptions.place (ropts : RestoreOptions) (process : Process) : Location :=
  resolve process.cwd ropts.target

variable {names : List Bytes} {node : Hierarchy} {content : Bytes}

theorem clean_relative (legal : ∀ name ∈ names, LegalName name) (nonempty : names ≠ []) :
    clean (relative names) = relative names ∧ clean (relative names ++ [slash]) = relative names := by
  have cleaned : Cleaned false names :=
    .of_proper (fun name member => (legal name member).1) fun name member => (legal name member).2.1
  have text : render false names = relative names := by
    rw [render, if_neg (by simp), if_neg nonempty, relative]
  have same := clean_render cleaned
  rw [text] at same
  exact ⟨same, (clean_concat_slash (relative_ne legal nonempty).1).trans same⟩

theorem resolve_target (process : Process) (ropts : RestoreOptions) (legal : ∀ name ∈ names, LegalName name)
    (nonempty : names ≠ []) :
    resolve process.cwd (join ropts.target (relative names)) = ropts.place process ++ names ∧
      resolve process.cwd (dir (join ropts.target (relative names))) = ropts.place process ++ names.dropLast :=
  resolve_join_names process.cwd (target_ne_nil ropts) (fun name member => (legal name member).1)
    (fun name member => (legal name member).2.1) nonempty

theorem directories_above {inner : List Bytes} (leads : tree.descend names = some node)
    (above : inner <+: names) (isDirectory : inner = names → node.isDirectory = true) :
    ∃ node, tree.descend inner = some node ∧ node.isDirectory = true := by
  by_cases same : inner = names
  · exact ⟨node, same ▸ leads, isDirectory same⟩
  obtain ⟨rest, rfl⟩ := above
  have someRest : rest ≠ [] := fun nothing => same (by rw [nothing, append_nil])
  obtain ⟨next, here, -⟩ := Option.bind_eq_some_iff.mp (Hierarchy.descend_append .. ▸ leads)
  exact ⟨next, here, Hierarchy.isDirectory_of_descend someRest leads here⟩

/-- What the extraction of members leaves: files and directories of the tree only, and each file among the members
that is not skipped. -/
structure Extracted (process : Process) (ropts : RestoreOptions) (tree : Hierarchy) (dest : FileTree)
    (res : RestoreResult) (files : List (List Bytes)) (restored : Restored) : Prop where
  error : restored.error = none
  count : restored.result.filesRestored = res.filesRestored + files.length
  mirrors : Mirrors process tree (ropts.place process) restored.tree
  keeps : Keeps (ropts.place process) dest restored.tree
  present : ∀ names ∈ files, ∃ content,
    restored.tree.lookup (ropts.place process ++ names) = some (.file content process.mode)

/-- The file that is restored for what the walk came to, if it is a file that is archived and not skipped. -/
def restoredFile (opts : Options) (item : List Bytes × Visited) : Option (List Bytes) :=
  if item.1 = [] ∨ Excluded opts item.1 ∨ Skipped item.1 then none
  else
    match item.2 with
    | .file _ _ _ => some item.1
    | _ => none

theorem restoredFile_of_memberOf {item : List Bytes × Visited} (none : memberOf opts item = none) :
    restoredFile opts item = .none := by
  rw [memberOf] at none
  rw [restoredFile]
  split at none
  · rename_i left
    exact if_pos (left.imp_right .inl)
  · split
    · rfl
    · split at none
      · rename_i failed
        rw [failed]
      · cases none
      · cases none

theorem restoreMember_skipped (res : RestoreResult) (mirrors : Mirrors process tree (ropts.place process) dest)
    {hdr : Header} (skipped : dotdot <+: clean hdr.name) :
    Extracted process ropts tree dest res [] (restoreMember process ropts hdr content none res dest) := by
  rw [restoreMember, if_pos skipped]
  exact ⟨rfl, rfl, mirrors, fun _ _ _ found => found, by simp⟩

theorem restoreMember_directory (res : RestoreResult) (real : ropts.dryRun = false)
    (mirrors : Mirrors process tree (ropts.place process) dest)
    (legal : ∀ name ∈ names, LegalName name) (below : names ≠ []) (leads : tree.descend names = some node)
    (isDirectory : node.isDirectory = true) (kept : ¬ Skipped names) (content : Bytes) :
    Extracted process ropts tree dest res []
      (restoreMember process ropts (directoryHeader (relative names)) content none res dest) := by
  have stays : ¬ dotdot <+: relative names := kept
  obtain ⟨-, cleans⟩ := clean_relative legal below
  obtain ⟨place, -⟩ := resolve_target process ropts legal below
  obtain ⟨after, makes, mirrorsAfter, keeps, -⟩ := mirrors.mkdirAll names fun inner above _ =>
    directories_above leads above fun _ => isDirectory
  have extracted : Extracted process ropts tree dest res [] { tree := after, result := res, error := none } :=
    ⟨rfl, rfl, mirrorsAfter, keeps, by simp⟩
  simpa only [restoreMember, directoryHeader, cleans, if_neg stays, real, if_true, place, makes,
    Bool.false_eq_true, if_false] using extracted

theorem restoreMember_file (res : RestoreResult) (real : ropts.dryRun = false)
    (mirrors : Mirrors process tree (ropts.place process) dest) {mode : Nat}
    {opens : Bool} (legal : ∀ name ∈ names, LegalName name) (below : names ≠ [])
    (leads : tree.descend names = some (.file mode content opens)) (kept : ¬ Skipped names) :
    Extracted process ropts tree dest res [names]
      (restoreMember process ropts (fileHeader (relative names) mode content) content none res dest) := by
  have stays : ¬ dotdot <+: relative names := kept
  have regular : typeReg ≠ typeDir := by decide
  obtain ⟨cleans, -⟩ := clean_relative legal below
  obtain ⟨place, parent⟩ := resolve_target process ropts legal below
  obtain ⟨middle, makes, mirrorsMiddle, keepsMiddle, isDirectory⟩ :=
    mirrors.mkdirAll names.dropLast fun inner above _ => by
      refine directories_above leads (above.trans (List.dropLast_prefix names)) ?_
      rintro rfl
      have length := above.length_le
      have positive := length_pos_of_ne_nil below
      rw [length_dropLast] at length
      omega
  obtain ⟨after, writes, mirrorsAfter, keepsAfter, here⟩ :=
    mirrorsMiddle.writeFile below leads kept isDirectory
  have extracted : Extracted process ropts tree dest res [names]
      { tree := after, result := { res with filesRestored := res.filesRestored + 1 }, error := none } := by
    refine ⟨rfl, rfl, mirrorsAfter, keepsMiddle.trans keepsAfter, fun other member => ?_⟩
    cases mem_singleton.mp member
    exact ⟨content, here⟩
  have bits : created process.umask restoreMode = process.mode := rfl
  simpa only [restoreMember, fileHeader, cleans, if_neg stays, real, if_neg regular, place, parent, makes, bits,
    writes, Bool.false_eq_true, if_false] using extracted

theorem restoreMember_mirrors (res : RestoreResult) (real : ropts.dryRun = false)
    (mirrors : Mirrors process tree (ropts.place process) dest)
    (legal : ∀ name ∈ names, LegalName name) (leads : tree.descend names = some node) {m : Member}
    (made : memberOf opts (names, node.visited) = some m) :
    Extracted process ropts tree dest res (restoredFile opts (names, node.visited)).toList
      (restoreMember process ropts m.header m.content none res dest) := by
  rw [memberOf] at made
  split at made
  · cases made
  rename_i written
  have below : names ≠ [] := (not_or.mp written).1
  have included : ¬ Excluded opts names := (not_or.mp written).2
  obtain ⟨clean, cleanSlash⟩ := clean_relative legal below
  cases node with
  | directory lists children =>
    have nothing : restoredFile opts (names, .directory) = none := by
      rw [restoredFile]
      split <;> rfl
    cases lists with
    | false => cases made
    | true =>
      cases made
      rw [Hierarchy.visited, nothing, Option.toList_none]
      by_cases skipped : Skipped names
      · exact restoreMember_skipped res mirrors (by rw [directoryHeader, cleanSlash]; exact skipped)
      · exact restoreMember_directory res real mirrors legal below leads rfl skipped []
  | file mode content opens =>
    cases made
    by_cases skipped : Skipped names
    · have nothing : restoredFile opts (names, .file mode content opens) = none :=
        if_pos (.inr (.inr skipped))
      rw [Hierarchy.visited, nothing, Option.toList_none]
      exact restoreMember_skipped res mirrors (by rw [fileHeader, clean]; exact skipped)
    · have kept : restoredFile opts (names, .file mode content opens) = some names :=
        if_neg (not_or.mpr ⟨below, not_or.mpr ⟨included, skipped⟩⟩)
      rw [Hierarchy.visited, kept, Option.toList_some]
      exact restoreMember_file res real mirrors legal below leads skipped

theorem extract_mirrors (opts : Options) (res : RestoreResult) (real : ropts.dryRun = false)
    (wellFormed : tree.wellFormed = true)
    (readable : tree.readable = true) {items : List (List Bytes × Visited)}
    (listed : ∀ item ∈ items, item ∈ listing [] tree)
    (mirrors : Mirrors process tree (ropts.place process) dest) :
    Extracted process ropts tree dest res (items.filterMap (restoredFile opts))
      (extract process ropts (.ofList (items.filterMap (memberOf opts))) res dest) := by
  induction items generalizing dest res with
  | nil => exact ⟨rfl, rfl, mirrors, fun _ _ _ found => found, by simp⟩
  | cons item items ih =>
    obtain ⟨first, rest⟩ := forall_mem_cons.mp listed
    have files := filterMap_cons_toList (restoredFile opts) item items
    cases made : memberOf opts item with
    | none =>
      rw [files, restoredFile_of_memberOf made, filterMap_cons_none made]
      exact ih res rest mirrors
    | some m =>
      obtain ⟨names, node, rfl, leads⟩ := descend_of_mem_listing tree wellFormed readable first
      obtain ⟨legal, -⟩ := descend_sound wellFormed readable leads
      rw [nil_append] at made files
      have step := restoreMember_mirrors res real mirrors legal leads made
      have later := ih
        (restoreMember process ropts m.header m.content none res dest).result rest step.mirrors
      have goesOn : extract process ropts (.ofList (m :: items.filterMap (memberOf opts))) res dest =
          extract process ropts (.ofList (items.filterMap (memberOf opts)))
            (restoreMember process ropts m.header m.content none res dest).result
            (restoreMember process ropts m.header m.content none res dest).tree := by
        rw [Members.ofList, extract]
        simp only [step.error]
      rw [nil_append, files, filterMap_cons_some made, goesOn]
      refine ⟨later.error, ?_, later.mirrors, step.keeps.trans later.keeps, ?_⟩
      · rw [later.count, step.count, length_append, Nat.add_assoc]
      · intro other member
        rcases mem_append.mp member with here | there
        · obtain ⟨content, found⟩ := step.present other here
          exact ⟨content, later.keeps _ _ _ found⟩
        · exact later.present other there

end Extraction

/-! ### Round trips -/

/-- A file of the tree that `Run` archives. -/
structure Archived (opts : Options) (tree : Hierarchy) (names : List Bytes) (mode : Nat) (content : Bytes) :
    Prop where
  file : tree.descend names = some (.file mode content true)
  below : names ≠ []
  included : ¬ Excluded opts names

structure EmptyAt (dest : FileTree) (place : Location) : Prop where
  directory : dest.lookup place = some .directory
  nothing : ∀ names, names ≠ [] → dest.lookup (place ++ names) = none

theorem EmptyAt.mirrors {place : Location} (empty : EmptyAt dest place) (process : Process)
    (tree : Hierarchy) : Mirrors process tree place dest where
  rooted := empty.directory
  directory names below found := by
    rw [empty.nothing names below] at found
    cases found
  file names content mode found := by
    rcases eq_or_ne names [] with rfl | below
    · rw [append_nil, empty.directory] at found
      cases found
    · rw [empty.nothing names below] at found
      cases found

/-- The options of a restore from what `Run` has written, with the same passphrase and the hash of its manifest. -/
def restoreFrom (opts : Options) (archivePath destDir : Bytes) (sha256 : String) : RestoreOptions :=
  { archivePath := archivePath
    destDir := destDir
    passphrase := opts.passphrase
    dryRun := false
    expectedSHA256 := sha256 }

/-- `Run` and then `Restore` succeed, as many files are restored as were archived, and every archived file is there
again with its content and its mode. -/
def RoundTrips (platform : Platform) (host : Host) (opts : Options) (tree : Hierarchy) (process : Process)
    (archivePath destDir : Bytes) (dest : FileTree) : Prop :=
  ∃ manifest output, run platform host opts = .ok (manifest, output) ∧
    let ropts := restoreFrom opts archivePath destDir manifest.sha256
    let restored := restore platform process ropts (.ok output) dest
    restored.error = none ∧ restored.result.filesRestored = manifest.fileCount ∧
      ∀ names mode content, Archived opts tree names mode content →
        restored.tree.lookup (ropts.place process ++ names) = some (.file content mode)

section RoundTrip

variable {platform : Platform} {host : Host} {opts : Options} {tree : Hierarchy}

def restoredFiles (opts : Options) (tree : Hierarchy) : List (List Bytes) :=
  (listing [] tree).filterMap (restoredFile opts)

theorem mem_restoredFiles {names : List Bytes} {mode : Nat} {content : Bytes} (readable : tree.readable = true)
    (file : Archived opts tree names mode content) (kept : ¬ Skipped names) :
    names ∈ restoredFiles opts tree := by
  have listed : ([] ++ names, Visited.file mode content true) ∈ listing [] tree :=
    mem_listing_of_descend readable file.file
  exact mem_filterMap.mpr
    ⟨_, listed, if_neg (not_or.mpr ⟨file.below, not_or.mpr ⟨file.included, kept⟩⟩)⟩

theorem length_restoredFiles (wellFormed : tree.wellFormed = true) (readable : tree.readable = true)
    (kept : ∀ names mode content, Archived opts tree names mode content → ¬ Skipped names) :
    (restoredFiles opts tree).length = (archived opts tree).countP Member.isFile := by
  rw [restoredFiles, archived, length_filterMap_eq_countP, countP_filterMap]
  refine countP_congr fun item listed => ?_
  obtain ⟨names, node, rfl, leads⟩ := descend_of_mem_listing tree wellFormed readable listed
  obtain ⟨-, -, opens⟩ := descend_sound wellFormed readable leads
  rw [nil_append]
  by_cases out : names = [] ∨ Excluded opts names
  · have none : memberOf opts (names, node.visited) = .none := if_pos out
    simp [restoredFile_of_memberOf none, none]
  · obtain ⟨below, included⟩ := not_or.mp out
    cases node with
    | directory lists children =>
      rw [Hierarchy.readable, Bool.and_eq_true] at opens
      obtain ⟨rfl, -⟩ := opens
      simp [restoredFile, memberOf, Hierarchy.visited, out, Member.isFile, directoryHeader, typeDir, typeReg]
    | file mode content readable =>
      cases opens
      have stays := kept names mode content ⟨leads, below, included⟩
      simp [restoredFile, memberOf, Hierarchy.visited, below, included, stays, Member.isFile, fileHeader]

theorem restore_run (faithful : platform.Faithful) (quiet : host.Quiet) (out : opts.outPath ≠ [])
    (found : host.files opts.source = some tree) (wellFormed : tree.wellFormed = true)
    (readable : tree.readable = true) (process : Process) {archivePath : Bytes} (given : archivePath ≠ [])
    (destDir : Bytes) {dest : FileTree}
    (empty : EmptyAt dest ((restoreFrom opts archivePath destDir "").place process)) :
    ∃ manifest output, run platform host opts = .ok (manifest, output) ∧
      manifest.fileCount = (archived opts tree).countP Member.isFile ∧
      ∃ res, res.filesRestored = 0 ∧
        Extracted process (restoreFrom opts archivePath destDir manifest.sha256) tree dest res (restoredFiles opts tree)
          (restore platform process (restoreFrom opts archivePath destDir manifest.sha256) (.ok output) dest) := by
  obtain ⟨manifest, output, runs, opens, hash, count⟩ :=
    run_archives faithful quiet out found wellFormed readable
  have unpacks := faithful.unpack_pack (archived opts tree) fun m member =>
    legal_archived wellFormed readable member
  refine ⟨manifest, output, runs, count, { RestoreResult.zero with verifiedSHA256 := manifest.sha256 }, rfl, ?_⟩
  have extracts : restore platform process (restoreFrom opts archivePath destDir manifest.sha256) (.ok output) dest =
      extract process (restoreFrom opts archivePath destDir manifest.sha256) (.ofList (archived opts tree))
        { RestoreResult.zero with verifiedSHA256 := manifest.sha256 } dest := by
    rw [opened] at opens
    simp only [restore, restoreFrom, if_neg given, opens, hash, ne_eq, not_true, and_false, if_false, unpacks]
  rw [extracts]
  exact extract_mirrors opts _ rfl wellFormed readable (fun _ listed => listed)
    (empty.mirrors process tree)

end RoundTrip

/-- A readable tree makes the round trip exactly if every archived file has the mode that `Restore` gives to all files
and no path of one begins with two dots. -/
theorem round_trip_iff (platform : Platform) (faithful : platform.Faithful) (host : Host) (quiet : host.Quiet)
    (opts : Options) (out : opts.outPath ≠ []) (tree : Hierarchy) (found : host.files opts.source = some tree)
    (wellFormed : tree.wellFormed = true) (readable : tree.readable = true) (process : Process)
    (archivePath destDir : Bytes) (given : archivePath ≠ []) (dest : FileTree)
    (empty : EmptyAt dest ((restoreFrom opts archivePath destDir "").place process)) :
    RoundTrips platform host opts tree process archivePath destDir dest ↔
      ∀ names mode content, Archived opts tree names mode content →
        mode = created process.umask 0o640 ∧ ¬ dotdot <+: relative names := by
  obtain ⟨manifest, output, runs, count, res, start, extracted⟩ :=
    restore_run faithful quiet out found wellFormed readable process given destDir empty
  constructor
  · rintro ⟨manifest', output', runs', -, -, restores⟩ names mode content file
    rw [runs] at runs'
    cases runs'
    obtain ⟨-, kept, same⟩ := extracted.mirrors.file names content mode (restores names mode content file)
    exact ⟨same, kept⟩
  · intro alike
    refine ⟨manifest, output, runs, extracted.error, ?_, fun names mode content file => ?_⟩
    · rw [extracted.count, start, Nat.zero_add, count]
      exact length_restoredFiles wellFormed readable fun names mode content file => (alike names mode content file).2
    · obtain ⟨same, kept⟩ := alike names mode content file
      obtain ⟨data, there⟩ := extracted.present names (mem_restoredFiles readable file kept)
      -- What stands there has the content of the file in the tree.
      obtain ⟨⟨original, opens, leads⟩, -⟩ := extracted.mirrors.file names data process.mode there
      rw [file.file] at leads
      cases leads
      rw [same]
      exact there

def field (bytes : Bytes) : Bytes := bytes.flatMap (fun byte => [1, byte]) ++ [0]

def readField : Bytes → Option (Bytes × Bytes)
  | 0 :: rest => some ([], rest)
  | 1 :: byte :: rest => (readField rest).map fun (bytes, rest) => (byte :: bytes, rest)
  | _ => none

theorem readField_field (bytes rest : Bytes) : readField (field bytes ++ rest) = some (bytes, rest) := by
  induction bytes with
  | nil => rfl
  | cons byte bytes ih =>
    have shape : field (byte :: bytes) ++ rest = 1 :: byte :: (field bytes ++ rest) := by simp [field]
    rw [shape, readField, ih]
    rfl

def number (value : Nat) : Bytes := (Nat.digits 256 value).map UInt8.ofNat

theorem ofDigits_number (value : Nat) : Nat.ofDigits 256 ((number value).map UInt8.toNat) = value := by
  have same : (number value).map UInt8.toNat = Nat.digits 256 value := by
    rw [number, map_map]
    refine (map_congr_left fun digit member => ?_).trans (map_id _)
    exact Nat.mod_eq_of_lt (Nat.digits_lt_base (by decide) member)
  rw [same, Nat.ofDigits_digits]

def packMember (m : Member) : Bytes :=
  field m.header.name ++ (field [m.header.typeflag] ++ (field (number m.header.mode) ++ field m.content))

def unpackMembers : Nat → Bytes → Option (List Member)
  | 0, _ => none
  | _ + 1, [] => some []
  | fuel + 1, bytes => do
    let (name, bytes) ← readField bytes
    let (typeflag, bytes) ← readField bytes
    let (mode, bytes) ← readField bytes
    let (content, bytes) ← readField bytes
    let members ← unpackMembers fuel bytes
    return { header :=
               { name := name
                 typeflag := typeflag.headD 0
                 mode := Nat.ofDigits 256 (mode.map UInt8.toNat)
                 size := content.length }
             content := content } :: members

theorem unpackMembers_flatMap {members : List Member}
    (sized : ∀ m ∈ members, m.content.length = m.header.size) {fuel : Nat} (enough : members.length < fuel) :
    unpackMembers fuel (members.flatMap packMember) = some members := by
  induction members generalizing fuel with
  | nil =>
    obtain ⟨fuel, rfl⟩ := Nat.exists_eq_succ_of_ne_zero (Nat.ne_of_gt enough)
    rfl
  | cons m members ih =>
    obtain ⟨fuel, rfl⟩ := Nat.exists_eq_succ_of_ne_zero (Nat.ne_of_gt (Nat.zero_lt_of_lt enough))
    obtain ⟨size, rest⟩ := forall_mem_cons.mp sized
    have later := ih rest (Nat.lt_of_succ_lt_succ enough)
    obtain ⟨⟨name, typeflag, mode, length⟩, content⟩ := m
    dsimp only at size
    subst size
    rw [flatMap_cons, unpackMembers, packMember]
    · simp [append_assoc, readField_field, ofDigits_number, later]
    · simp [packMember, field]

/-- Archives without compression, and encryption that leaves the text as it is. -/
def plain : Platform where
  headerError _ := none
  pack members := members.flatMap packMember
  unpack bytes :=
    match unpackMembers (bytes.length + 1) bytes with
    | some members => .ok (.ofList members)
    | none => .error "gzip: invalid header"
  hmac key message := sha256 (key ++ message)
  gcmSeal _ _ plaintext := plaintext
  gcmOpen _ _ ciphertext := some ciphertext

theorem plain_faithful : plain.Faithful where
  header _ _ := rfl
  unpack_pack members legal := by
    have shorter : members.length ≤ (members.flatMap packMember).length := by
      clear legal
      induction members with
      | nil => exact Nat.le_refl 0
      | cons m members ih =>
        have some : 0 < (packMember m).length := by
          simp only [packMember, field, length_append, length_singleton]
          omega
        rw [flatMap_cons, length_append, length_cons]
        omega
    have reads := unpackMembers_flatMap (fun m member => (legal m member).2) (Nat.lt_succ_of_le shorter)
    simp only [plain, reads]
  length_hmac _ _ := length_sha256 _
  gcmOpen_gcmSeal _ _ _ := rfl

def quietHost (tree : Hierarchy) : Host :=
  { files := fun _ => some tree
    salt := .ok (Vector.replicate saltSize 0)
    nonce := .ok (Vector.replicate nonceSize 0)
    now := 0
    writeError := none }

theorem quietHost_quiet (tree : Hierarchy) : (quietHost tree).Quiet :=
  ⟨⟨_, rfl⟩, ⟨_, rfl⟩, rfl⟩

def plainOptions : Options :=
  { dataDir := [], outPath := utf8 "/backup.tar.gz", excludeModels := true, passphrase := [] }

def rootProcess : Process := { cwd := [], umask := 0o022 }

theorem bare_empty : EmptyAt .bare [] where
  directory := rfl
  nothing names below := by
    simp [FileTree.lookup, FileTree.bare, FileTree.nodeAt, Ne.symm below]

def configTree : Hierarchy :=
  .directory true
    [(utf8 "config", .directory true [(utf8 "nura.json", .file 0o640 (utf8 "\x7b\x7d") true)]),
     (utf8 "models", .directory true [(utf8 "big.gguf", .file 0o644 [1] true)])]

/-- The configuration comes back; the model is not archived. -/
theorem configTree_round_trips :
    RoundTrips plain (quietHost configTree) plainOptions configTree rootProcess (utf8 "/backup.tar.gz") (utf8 "/")
      .bare := by
  refine (round_trip_iff plain plain_faithful (quietHost configTree) (quietHost_quiet configTree) plainOptions
    (by decide) configTree rfl (by decide) (by decide) rootProcess (utf8 "/backup.tar.gz") (utf8 "/") (by decide)
    .bare bare_empty).mpr ?_
  intro names mode content file
  have listed : ([] ++ names, Visited.file mode content true) ∈ listing [] configTree :=
    mem_listing_of_descend (by decide) file.file
  have excluded : Excluded plainOptions [utf8 "models", utf8 "big.gguf"] := by decide
  simp only [configTree, listing, listingChildren, nil_append, append_nil, cons_append, mem_cons,
    Prod.mk.injEq, reduceCtorEq, and_false, false_or, not_mem_nil, or_false, Visited.file.injEq] at listed
  rcases listed with ⟨rfl, rfl, -⟩ | ⟨rfl, rfl, -⟩
  · decide
  · exact absurd excluded file.included

/-- A secret that only its owner may read, and a file whose name begins with two dots. -/
def secretTree : Hierarchy :=
  .directory true
    [(utf8 "..data", .file 0o640 [1] true), (utf8 "secrets.toml", .file 0o600 [2] true)]

/-- The one file is not restored, and the other one has become readable for the group. -/
theorem secretTree_not_restored :
    ¬ RoundTrips plain (quietHost secretTree) plainOptions secretTree rootProcess (utf8 "/backup.tar.gz") (utf8 "/")
        .bare ∧
      ((run plain (quietHost secretTree) plainOptions).toOption.map fun (manifest, output) =>
        let restored := restore plain rootProcess
          (restoreFrom plainOptions (utf8 "/backup.tar.gz") (utf8 "/") manifest.sha256) (.ok output) .bare
        (manifest.fileCount, restored.error, restored.result.filesRestored,
          restored.tree.lookup [utf8 "..data"], restored.tree.lookup [utf8 "secrets.toml"])) =
        some (2, none, 1, none, some (.file [2] 0o640)) := by
  refine (and_iff_right_of_imp ?_).mpr (by decide +kernel)
  rintro evaluated ⟨manifest, output, runs, -, counted, -⟩
  rw [runs] at evaluated
  simp only [Except.toOption, Option.map_some, Option.some.injEq, Prod.mk.injEq] at evaluated
  rw [evaluated.1, evaluated.2.2.1] at counted
  exact absurd counted (by decide)

/-! ### `Restore` of any archive -/

variable {process : Process} {opts : RestoreOptions} {hdr : Header} {location : Location}

/-- A cleaned path that does not begin with two dots has no element that leads up. -/
theorem prefix_walk_clean {path : Bytes} (base : Location) (kept : ¬ dotdot <+: clean path) :
    base <+: walk base (elements (clean path)) := by
  obtain ⟨⟨ups, names, split, proper, rooted⟩, free⟩ := cleaned_normal (isAbs path) path
  have stays : ups = 0 := by
    by_contra climbs
    obtain ⟨ups, rfl⟩ := Nat.exists_eq_succ_of_ne_zero climbs
    have relative : isAbs path = false := Bool.eq_false_iff.mpr fun isAbs => climbs (rooted isAbs)
    refine kept ?_
    rw [clean, relative, ← relative, split, replicate_succ, cons_append, relative, render,
      if_neg (by simp), if_neg (by simp)]
    cases replicate ups dotdot ++ names <;> simp [intercalate]
  rw [stays, replicate_zero, nil_append] at split
  rw [split] at free
  rw [clean, split]
  rcases eq_or_ne names [] with rfl | nonempty
  · cases isAbs path <;> exact prefix_rfl
  · have leads : walk base (elements (render (isAbs path) names)) = base ++ names := by
      rw [elements_render (.of_proper proper free) nonempty]
      cases isAbs path <;> exact walk_proper base proper
    exact leads ▸ prefix_append base names

/-- The file `Restore` opens for a member. -/
def opensFor (process : Process) (opts : RestoreOptions) (hdr : Header) : Option Location :=
  if dotdot <+: clean hdr.name ∨ opts.dryRun ∨ hdr.typeflag = typeDir then none
  else some (resolve process.cwd (join opts.target (clean hdr.name)))

theorem place_prefix_opensFor (opens : opensFor process opts hdr = some location) :
    opts.place process <+: location := by
  rw [opensFor] at opens
  split at opens
  · cases opens
  · rename_i kept
    cases opens
    rw [resolve_join process.cwd (target_ne_nil opts)]
    exact prefix_walk_clean _ fun skipped => kept (.inl skipped)

/-- At most a directory was made here. -/
def Unwritten (before after : FileTree) (location : Location) : Prop :=
  after.lookup location = before.lookup location ∨
    before.lookup location = none ∧ after.lookup location = some .directory

section Steps

variable {before middle after : FileTree}

theorem Unwritten.trans (first : Unwritten before middle location) (second : Unwritten middle after location) :
    Unwritten before after location := by
  unfold Unwritten at *
  grind

theorem unwritten_mkdirAll {path : Location} (made : before.mkdirAll path = .ok after) :
    Unwritten before after location := by
  rw [Unwritten, FileTree.lookup_mkdirAll made]
  split
  · exact .inr ⟨by tauto, rfl⟩
  · exact .inl rfl

theorem restoreMember_unwritten (content : Bytes) (broken : Option String) (res : RestoreResult)
    (elsewhere : opensFor process opts hdr ≠ some location) :
    Unwritten before (restoreMember process opts hdr content broken res before).tree location := by
  rw [opensFor] at elsewhere
  simp only [restoreMember]
  split
  · exact .inl rfl
  · rename_i named
    split
    · exact .inl rfl
    · rename_i dry
      split
      · split
        · exact .inl rfl
        · exact unwritten_mkdirAll ‹_›
      · rename_i file
        split
        · exact .inl rfl
        · refine (unwritten_mkdirAll ‹_›).trans ?_
          split
          · exact .inl rfl
          · rename_i written
            have other : location ≠ resolve process.cwd (join opts.target (clean hdr.name)) := by
              simpa [named, dry, file, eq_comm] using elsewhere
            have same := FileTree.lookup_writeFile written location
            rw [if_neg other] at same
            cases broken <;> exact .inl same

theorem extract_unwritten (elsewhere : ∀ hdr, opensFor process opts hdr ≠ some location)
    (members : Members) (res : RestoreResult) (tree : FileTree) :
    Unwritten tree (extract process opts members res tree).tree location := by
  fun_induction extract process opts members res tree with
  | case1 | case2 => exact .inl rfl
  | case3 hdr content broken rest res tree after cause fails => exact restoreMember_unwritten _ _ _ (elsewhere hdr)
  | case4 hdr content broken rest res tree after goesOn ih =>
    exact (restoreMember_unwritten _ _ _ (elsewhere hdr)).trans ih

end Steps

/-- Whatever the archive, no file outside the directory is opened, and none changes there. -/
theorem restore_contained (platform : Platform) (process : Process) (opts : RestoreOptions)
    (raw : Except Errno Bytes) (tree : FileTree) (location : Location)
    (outside : ¬ opts.place process <+: location) :
    (∀ hdr, opensFor process opts hdr ≠ some location) ∧
      Unwritten tree (restore platform process opts raw tree).tree location := by
  have elsewhere : ∀ hdr, opensFor process opts hdr ≠ some location :=
    fun hdr opens => outside (place_prefix_opensFor opens)
  refine ⟨elsewhere, ?_⟩
  unfold restore
  simp only
  repeat' split
  all_goals first
    | exact .inl rfl
    | exact extract_unwritten elsewhere _ _ tree

/-- A restore to the default directory, from the root. -/
def unnamed : RestoreOptions :=
  { archivePath := utf8 "b.tar.gz", destDir := [], passphrase := [], dryRun := false, expectedSHA256 := "" }

def escaping : List Member :=
  [⟨fileHeader (utf8 "x") 0 [1], [1]⟩, ⟨fileHeader (utf8 "../etc") 0 [2], [2]⟩]

theorem restore_contained_data :
    opensFor { cwd := [], umask := 0 } unnamed (fileHeader (utf8 "/a/../x/") 0 []) =
        some [utf8 "data", utf8 "x"] ∧
      (∀ hdr, opensFor { cwd := [], umask := 0 } unnamed hdr ≠ some [utf8 "etc"]) ∧
        Unwritten .bare (restore plain { cwd := [], umask := 0 } unnamed (.ok (plain.pack escaping)) .bare).tree
          [utf8 "etc"] :=
  ⟨by decide +kernel, restore_contained plain _ _ _ _ _ (by decide +kernel)⟩

/-- For any pseudorandom function of 32 bytes, `deriveKey` gives the first block of PBKDF2 with 10000 iterations,
which is its derived key of 32 bytes. -/
theorem deriveKey_eq_pbkdf2 (platform : Platform)
    (length : ∀ key message, (platform.hmac key message).length = 32) (passphrase salt : Bytes) :
    deriveKey platform passphrase salt = pbkdf2Block platform.hmac passphrase salt 10000 1 ∧
      deriveKey platform passphrase salt = pbkdf2 platform.hmac passphrase salt 32 10000 32 := by
  have first : deriveKey platform passphrase salt = pbkdf2Block platform.hmac passphrase salt 10000 1 :=
    deriveKey_eq length passphrase salt
  have whole : pbkdf2 platform.hmac passphrase salt 32 10000 32 =
      (pbkdf2Block platform.hmac passphrase salt 10000 1).take 32 := by
    rw [pbkdf2]
    simp
  refine ⟨first, ?_⟩
  rw [first, whole, pbkdf2Block, List.take_of_length_le (Nat.le_of_eq (length_pbkdf2Sum length 1 _))]

theorem deriveKey_plain :
    deriveKey plain (utf8 "secret") [7] = pbkdf2 plain.hmac (utf8 "secret") [7] 32 10000 32 :=
  (deriveKey_eq_pbkdf2 plain plain_faithful.length_hmac (utf8 "secret") [7]).2

end NuraOS.Backup
