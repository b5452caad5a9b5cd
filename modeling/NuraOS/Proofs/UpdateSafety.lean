/-
Purpose: What the updater does to the files, whatever its calls meet, and without faults.
-/
import NuraOS.Update.Operations

namespace NuraOS.Update

open Foundation

def DiskCall.quiet : DiskCall → Bool
  | .renameTx | .renameActiveSlot | .renameHistory | .renameStaged _ _ => false
  | .openStaged _ | .copyStaged _ _ | .removeStaging _ => false
  | _ => true

namespace Visible

variable (visible : Visible)

def restaged (staged : StagedPath → Option Bytes) : Visible :=
  { visible with staged := staged }

def saved (tx : Transaction) : Visible :=
  { visible with txRecord := some (.whole tx) }

def flipped (slot : Slot) : Visible :=
  { visible with activeSlotFile := some (.whole slot) }

def replaced (slot : Slot) (image : Bytes) : Visible :=
  { visible with rootfs := Function.update visible.rootfs slot (some image) }

@[simp] theorem active_flipped (slot : Slot) : (visible.flipped slot).active = slot := rfl

end Visible

/-- A relation between the visible files before and after a call, as a guard. -/
def Through (allowed : Visible → Visible → Prop) (before after : Disk) : Prop :=
  allowed before.toVisible after.toVisible

section Rules

variable {allowed : Visible → Visible → Prop} {disk : Disk}

theorem call_safe {request : DiskCall} {post : request.Reply → Disk → Prop}
    (served : allowed disk.toVisible (disk.serve request).2.toVisible)
    (partly : ∀ amount, allowed disk.toVisible (disk.partly amount request).toVisible)
    (passes : post (disk.serve request).1 (disk.serve request).2)
    (fails : ∀ amount, post (Disk.failure request) (disk.partly amount request)) :
    (call request).Safe (Through allowed) post disk := by
  refine ⟨⟨served, passes⟩, fun amount => ⟨partly amount, fails amount⟩, ?_⟩
  intro amount
  match amount with
  | 0 => exact partly 0
  | 1 => exact served
  | amount + 2 => exact partly (amount + 1)

/-- After a quiet call: nothing has changed that is visible, and it was served or returned an error. -/
def Replies (disk : Disk) (request : DiskCall) (reply : request.Reply) (after : Disk) : Prop :=
  after.toVisible = disk.toVisible ∧
    (reply = (disk.serve request).1 ∧ after = (disk.serve request).2 ∨ reply = Disk.failure request)

theorem quiet_safe {request : DiskCall} (quiet : request.quiet = true)
    (same : allowed disk.toVisible disk.toVisible) :
    (call request).Safe (Through allowed) (Replies disk request) disk := by
  have served : (disk.serve request).2.toVisible = disk.toVisible := by
    cases request <;> first | rfl | cases quiet
  have partly : ∀ amount, (disk.partly amount request).toVisible = disk.toVisible := by
    intro amount
    cases request <;> first | rfl | (simp only [Disk.partly]; split <;> rfl) | cases quiet
  apply call_safe
  · rw [served]
    exact same
  · intro amount
    rw [partly]
    exact same
  · exact ⟨served, Or.inl ⟨rfl, rfl⟩⟩
  · intro amount
    exact ⟨partly amount, Or.inr rfl⟩

theorem log_safe (same : allowed disk.toVisible disk.toVisible) (txID event detail : String) :
    (log txID event detail).Safe (Through allowed)
      (fun _ after => after.toVisible = disk.toVisible) disk := by
  apply (quiet_safe rfl same).bind
  intro reply after replies
  exact replies.1

/-- After a write through a temporary file: it is done, or it has failed and nothing has changed. -/
def Writes (before written : Visible) (result : Except OsError Unit) (after : Disk) : Prop :=
  match result with
  | .ok () => after.toVisible = written
  | .error _ => after.toVisible = before

theorem saveTx_safe {tx : Transaction} (same : allowed disk.toVisible disk.toVisible)
    (saves : allowed disk.toVisible (disk.saved tx)) :
    (saveTx tx).Safe (Through allowed)
      (Writes disk.toVisible (disk.saved tx)) disk := by
  apply (quiet_safe rfl same).andThen
  · intro cause after replies
    exact replies.1
  · rintro ⟨⟩ after ⟨-, ⟨-, rfl⟩ | ⟨⟨⟩⟩⟩
    apply call_safe
    · exact saves
    · intro amount
      exact same
    · rfl
    · intro amount
      rfl

theorem writeActiveSlot_safe {slot : Slot} (same : allowed disk.toVisible disk.toVisible)
    (flips : allowed disk.toVisible (disk.flipped slot)) :
    (writeActiveSlot slot).Safe (Through allowed)
      (Writes disk.toVisible (disk.flipped slot)) disk := by
  apply (quiet_safe rfl same).andThen
  · intro cause after replies
    exact replies.1
  rintro ⟨⟩ ready ⟨unchanged, -⟩
  rw [← unchanged] at same flips ⊢
  apply (quiet_safe rfl same).andThen
  · intro cause after replies
    exact replies.1
  · rintro ⟨⟩ after ⟨-, ⟨-, rfl⟩ | ⟨⟨⟩⟩⟩
    apply call_safe
    · exact flips
    · intro amount
      exact same
    · rfl
    · intro amount
      rfl

theorem readActiveSlot_safe (same : allowed disk.toVisible disk.toVisible) :
    readActiveSlot.Safe (Through allowed)
      (fun result after => after.toVisible = disk.toVisible ∧
        ∀ slot, result = .ok slot → slot = disk.active) disk := by
  apply (quiet_safe rfl same).bind
  rintro reply after ⟨unchanged, ⟨served, -⟩ | failed⟩
  · subst served
    rcases file : disk.activeSlotFile with _ | _ | slot <;> simp only [file, found]
    all_goals exact ⟨unchanged, by simp [Visible.active, file]⟩
  · subst failed
    exact ⟨unchanged, by simp⟩

theorem loadTx_safe (same : allowed disk.toVisible disk.toVisible) :
    loadTx.Safe (Through allowed)
      (fun result after => after.toVisible = disk.toVisible ∧
        ∀ tx, result = .ok tx → disk.txRecord = some (.whole tx)) disk := by
  apply (quiet_safe rfl same).bind
  rintro reply after ⟨unchanged, ⟨served, -⟩ | failed⟩
  · subst served
    rcases file : disk.txRecord with _ | _ | tx <;> simp only [file, found]
    all_goals exact ⟨unchanged, by simp⟩
  · subst failed
    exact ⟨unchanged, by simp⟩

variable (restage : ∀ visible staged, allowed visible (visible.restaged staged))
include restage

theorem removeStaging_safe (path : StagedPath) :
    (call (.removeStaging path)).Safe (Through allowed)
      (fun _ after => ∃ staged, after.toVisible = disk.restaged staged) disk := by
  have partly : ∀ amount, ∃ staged,
      (disk.partly amount (.removeStaging path)).toVisible = disk.restaged staged := by
    intro amount
    simp only [Disk.partly]
    split
    · exact ⟨disk.staged, rfl⟩
    · exact ⟨_, rfl⟩
  apply call_safe
  · exact restage _ _
  · intro amount
    obtain ⟨staged, shape⟩ := partly amount
    rw [shape]
    exact restage _ _
  · exact ⟨_, rfl⟩
  · exact partly

theorem abortTx_safe (clock : Clock) (tx : Transaction) (reason : String)
    (saves : ∀ staged record, record.state = .aborted →
      allowed (disk.restaged staged) ((disk.restaged staged).saved record)) :
    (abortTx clock tx reason).Safe (Through allowed) (fun _ _ => True) disk := by
  have same : ∀ visible, allowed visible visible := fun visible => restage visible visible.staged
  apply (removeStaging_safe restage tx.stagedPath).bind
  rintro reply dropped ⟨staged, shape⟩
  have saving := saves staged (tx.giveUp clock reason) rfl
  rw [← shape] at saving
  apply (saveTx_safe (same _) saving).bind
  intro result after _
  apply (log_safe (same _) _ _ _).bind
  intro _ _ _
  trivial

/-- After `stageImage`: what is staged under the path is the whole image, when it returns a hash. -/
theorem stageImage_safe (r : Reader) (dst : StagedPath) :
    (stageImage r dst).Safe (Through allowed)
      (fun result after => ∃ staged, after.toVisible = disk.restaged staged ∧
        ∀ sha, result = .ok sha → r.failure = none ∧ staged dst = some r.data ∧
          sha = Sha256.sha256Hex r.data) disk := by
  have same : ∀ visible, allowed visible visible := fun visible => restage visible visible.staged
  have opened : (call (.openStaged dst)).Safe (Through allowed)
      (fun _ after => ∃ staged, after.toVisible = disk.restaged staged) disk := by
    apply call_safe
    · exact restage _ _
    · intro amount
      exact same _
    · exact ⟨_, rfl⟩
    · intro amount
      exact ⟨disk.staged, rfl⟩
  apply opened.bind
  rintro reply ready ⟨staged, shape⟩
  cases reply with
  | error cause => exact ⟨staged, shape, by simp⟩
  | ok value =>
    have restaging : ∀ other, ready.restaged other = disk.restaged other := by
      intro other
      rw [shape]
      rfl
    have copied : (call (.copyStaged dst r.data)).Safe (Through allowed)
        (fun result after => ∃ staged, after.toVisible = disk.restaged staged ∧
          (result = .ok () → staged dst = some r.data)) ready := by
      apply call_safe
      · exact restage _ _
      · intro amount
        exact restage _ _
      · exact ⟨_, restaging _, fun _ => Function.update_self _ _ _⟩
      · intro amount
        exact ⟨_, restaging _, by simp⟩
    apply copied.bind
    rintro reply filled ⟨staged, shape, complete⟩
    cases reply with
    | error cause =>
      apply (quiet_safe rfl (same _)).bind
      rintro _ after ⟨unchanged, -⟩
      exact ⟨staged, unchanged.trans shape, by simp⟩
    | ok value =>
      apply (quiet_safe rfl (same _)).bind
      rintro closed after ⟨unchanged, -⟩
      cases r.failure with
      | some cause => exact ⟨staged, unchanged.trans shape, by simp⟩
      | none =>
        cases closed with
        | error cause => exact ⟨staged, unchanged.trans shape, by simp⟩
        | ok value =>
          refine ⟨staged, unchanged.trans shape, ?_⟩
          rintro sha ⟨⟩
          exact ⟨rfl, complete rfl, rfl⟩

theorem atomicReplace_safe {src : StagedPath} {dst : Slot} {image : Bytes}
    (staged : disk.staged src = some image)
    (replaces : ∀ staged, allowed disk.toVisible ((disk.replaced dst image).restaged staged)) :
    (atomicReplace src dst).Safe (Through allowed)
      (fun result after => match result with
        | .ok () => ∃ staged, after.toVisible = (disk.replaced dst image).restaged staged
        | .error _ => after.toVisible = disk.toVisible) disk := by
  have same : ∀ visible, allowed visible visible := fun visible => restage visible visible.staged
  apply (quiet_safe rfl (same _)).andThen
  · intro cause after replies
    exact replies.1
  rintro ⟨⟩ ready ⟨unchanged, -⟩
  have present : ready.staged src = some image := by
    rw [unchanged]
    exact staged
  have served : ready.serve (.renameStaged src dst) =
      (.ok (), ready.moveStaged src dst image) := by
    simp only [Disk.serve, present]
  have moved : (ready.moveStaged src dst image).toVisible =
      (disk.replaced dst image).restaged (Function.update disk.staged src none) :=
    congrArg
      (fun visible => (Visible.replaced visible dst image).restaged
        (Function.update visible.staged src none)) unchanged
  apply call_safe
  · rw [served, moved, unchanged]
    exact replaces _
  · intro amount
    exact same _
  · rw [served]
    exact ⟨_, moved⟩
  · intro amount
    exact unchanged

end Rules

/-- A call of `Apply` before the slot is flipped: staged images come and go, the record is saved in a
state other than committed, and the image moves to the slot that is not active. -/
inductive Preparing (args : ApplyArgs) (visible : Visible) : Visible → Prop where
  | restaged (staged : StagedPath → Option Bytes) :
      Preparing args visible (visible.restaged staged)
  | saved {tx : Transaction}
      (state : tx.state = .staging ∨ tx.state = .verifying ∨ tx.state = .aborted) :
      Preparing args visible (visible.saved tx)
  | replaced (staged : StagedPath → Option Bytes) :
      Preparing args visible
        ((visible.replaced visible.active.other args.r.data).restaged staged)

def Transaction.Reversible (tx : Transaction) : Prop :=
  ∃ health, tx.health = some health ∧ health.activeSlot = tx.targetSlot.other

/-- A call of `Apply`: besides, the slot is flipped when the other slot holds the verified image, and the
commit is recorded. -/
inductive Applying (args : ApplyArgs) (visible : Visible) : Visible → Prop where
  | preparing {after : Visible} (prepares : Preparing args visible after) :
      Applying args visible after
  | flipped (complete : args.r.failure = none)
      (image : visible.rootfs visible.active.other = some args.r.data)
      (verified : args.shaMatches (Sha256.sha256Hex args.r.data) = true) :
      Applying args visible (visible.flipped visible.active.other)
  | committed {tx : Transaction} (state : tx.state = .committed) (reversible : tx.Reversible) :
      Applying args visible (visible.saved tx)

def ApplyArgs.signatureValid (platform : Platform) (args : ApplyArgs) (actualSHA : String) : Bool :=
  !args.checksSignature ||
    (args.pubKey.length == 32 &&
      platform.ed25519Verify args.pubKey (utf8 actualSHA) (args.sigBytes.getD []))

def ApplyArgs.accepted (platform : Platform) (args : ApplyArgs) : Bool :=
  args.r.failure.isNone && args.shaMatches (Sha256.sha256Hex args.r.data) &&
    args.signatureValid platform (Sha256.sha256Hex args.r.data)

inductive Aborting (visible : Visible) : Visible → Prop where
  | restaged (staged : StagedPath → Option Bytes) : Aborting visible (visible.restaged staged)
  | saved {tx : Transaction} (state : tx.state = .aborted) : Aborting visible (visible.saved tx)

inductive RollingBack (visible : Visible) : Visible → Prop where
  | restaged (staged : StagedPath → Option Bytes) : RollingBack visible (visible.restaged staged)
  | flipped (slot : Slot) : RollingBack visible (visible.flipped slot)

def UpdateOp.Changes : UpdateOp → Visible → Visible → Prop
  | .apply args => Applying args
  | .applyDelta args => fun before after => ∃ r, Applying (args.toApply r) before after
  | .abort _ => Aborting
  | .checkRecovery _ => Aborting
  | .rollbackLastUpdate => RollingBack

/-! ### The operations keep to it -/

section Apply

variable {platform : Platform} {args : ApplyArgs} {disk : Disk}

theorem Preparing.same (visible : Visible) : Preparing args visible visible :=
  .restaged visible.staged

theorem abortTx_preparing (clock : Clock) (tx : Transaction) (reason : String) :
    (abortTx clock tx reason).Safe (Through (Preparing args)) (fun _ _ => True) disk := by
  apply abortTx_safe
  · exact fun visible => .restaged
  · intro staged record state
    exact .saved (Or.inr (Or.inr state))

/-- The transaction has begun, and the slot it was read from is the active one. -/
def Begun (disk : Disk) (result : Except UpdateError Slot) (after : Disk) : Prop :=
  match result with
  | .error cause => cause = .txExists → disk.txRecord.isSome = true
  | .ok slot => after.activeSlotFile = disk.activeSlotFile ∧ slot = disk.active

theorem beginTx_safe : (beginTx args).Safe (Through (Preparing args)) (Begun disk) disk := by
  apply (quiet_safe rfl (Preparing.same _)).bind
  rintro reply ready ⟨unchanged, answered⟩
  cases reply with
  | ok value =>
    intro _
    rcases answered with ⟨served, -⟩ | failed
    · cases file : disk.txRecord with
      | none => simp [file, found, Except.map] at served
      | some contents => rfl
    · cases failed
  | error cause =>
    apply (readActiveSlot_safe (Preparing.same _)).bind
    rintro result after ⟨stillSame, slotRead⟩
    cases result with
    | error cause =>
      intro impossible
      cases impossible
    | ok slot =>
      apply (quiet_safe rfl (Preparing.same _)).bind
      rintro made later ⟨same, -⟩
      cases made with
      | error cause =>
        intro impossible
        cases impossible
      | ok value =>
        apply (saveTx_safe (Preparing.same _) (.saved (Or.inl rfl))).bind
        intro saved last writes
        cases saved with
        | error cause =>
          intro impossible
          cases impossible
        | ok value =>
          apply (log_safe (Preparing.same _) _ _ _).bind
          intro _ final logged
          constructor
          · rw [logged, writes]
            change later.activeSlotFile = _
            rw [same, stillSame, unchanged]
          · rw [slotRead slot rfl, unchanged]

/-- After a later part of `Apply`: an error is not the refusal, and otherwise the active slot is what it
was and something holds of what was returned. -/
def Goes {α : Type} (disk : Disk) (holds : α → Disk → Prop) (result : Except UpdateError α)
    (after : Disk) : Prop :=
  match result with
  | .error cause => cause ≠ .txExists
  | .ok value => after.activeSlotFile = disk.activeSlotFile ∧ holds value after

theorem stage_safe (tx : Transaction) :
    (stage args tx).Safe (Through (Preparing args))
      (Goes disk fun actualSHA after => args.r.failure = none ∧
        after.staged tx.stagedPath = some args.r.data ∧
        actualSHA = Sha256.sha256Hex args.r.data) disk := by
  apply (stageImage_safe (fun visible => .restaged) args.r tx.stagedPath).bind
  rintro result after ⟨staged, shape, complete⟩
  cases result with
  | error cause =>
    apply (abortTx_preparing _ _ _).bind
    intro _ _ _ impossible
    cases impossible
  | ok actualSHA =>
    obtain ⟨ended, whole, hash⟩ := complete actualSHA rfl
    apply (log_safe (Preparing.same _) _ _ _).bind
    intro _ final logged
    refine ⟨?_, ended, ?_, hash⟩
    · rw [logged, shape]
      rfl
    · rw [logged, shape]
      exact whole

variable {tx : Transaction}

/-- Saving the record touches neither the slot nor what is staged, whether it succeeds or not. -/
theorem Writes.kept {result : Except OsError Unit} {after : Disk}
    (writes : Writes disk.toVisible (disk.saved tx) result after) :
    after.activeSlotFile = disk.activeSlotFile ∧ after.staged = disk.staged := by
  cases result with
  | error cause =>
    rw [show after.toVisible = disk.toVisible from writes]
    exact ⟨rfl, rfl⟩
  | ok value =>
    rw [show after.toVisible = disk.saved tx from writes]
    exact ⟨rfl, rfl⟩

theorem verifyImage_safe (state : tx.state = .verifying) (actualSHA : String) :
    (verifyImage platform args tx actualSHA).Safe (Through (Preparing args))
      (Goes disk fun _ after => after.staged = disk.staged ∧ args.shaMatches actualSHA = true ∧
        args.signatureValid platform actualSHA = true) disk := by
  have saving : Preparing args disk.toVisible (disk.saved tx) := .saved (Or.inr (Or.inl state))
  apply (saveTx_safe (Preparing.same _) saving).bind
  intro result after writes
  have kept := writes.kept
  split
  · apply (abortTx_preparing _ _ _).bind
    intro _ _ _ impossible
    cases impossible
  · rename_i notDifferent
    have verified : args.shaMatches actualSHA = true := by simpa using notDifferent
    split
    · rename_i unsigned
      exact ⟨kept.1, kept.2, verified, by simp [ApplyArgs.signatureValid, unsigned]⟩
    · split
      · trivial
      · rename_i keyLength
        split
        · apply (abortTx_preparing _ _ _).bind
          intro _ _ _ impossible
          cases impossible
        · rename_i notInvalid
          apply (log_safe (Preparing.same _) _ _ _).bind
          intro _ final logged
          refine ⟨?_, ?_, verified, by simp_all [ApplyArgs.signatureValid]⟩
          · rw [logged]
            exact kept.1
          · rw [logged]
            exact kept.2

theorem active_eq {first second : Visible} (same : first.activeSlotFile = second.activeSlotFile) :
    first.active = second.active := by
  rw [Visible.active, same, Visible.active]

theorem replaceImage_safe (state : tx.state = .verifying)
    (staged : disk.staged tx.stagedPath = some args.r.data)
    (target : tx.targetSlot = disk.active.other) :
    (replaceImage args tx).Safe (Through (Preparing args))
      (Goes disk fun result after => result = tx ∧ after.rootfs tx.targetSlot = some args.r.data)
      disk := by
  have saving : Preparing args disk.toVisible (disk.saved tx) := .saved (Or.inr (Or.inl state))
  apply (saveTx_safe (Preparing.same _) saving).bind
  intro result ready writes
  obtain ⟨slot, sameStaged⟩ := writes.kept
  rw [← active_eq slot] at target
  have replacing : ∀ staged, Preparing args ready.toVisible
      ((ready.replaced tx.targetSlot args.r.data).restaged staged) := by
    intro staged
    rw [target]
    exact .replaced staged
  have present : ready.staged tx.stagedPath = some args.r.data := by
    rw [sameStaged]
    exact staged
  apply (atomicReplace_safe (fun visible => .restaged) present replacing).bind
  intro moved after outcome
  cases moved with
  | error cause =>
    apply (abortTx_preparing _ _ _).bind
    intro _ _ _ impossible
    cases impossible
  | ok value =>
    obtain ⟨staged, shape⟩ := outcome
    refine ⟨?_, rfl, ?_⟩
    · rw [shape]
      exact slot
    · rw [shape]
      exact Function.update_self _ _ _

def Prepared (platform : Platform) (args : ApplyArgs) (disk : Disk)
    (result : Except UpdateError Transaction) (after : Disk) : Prop :=
  match result with
  | .error cause => cause = .txExists → disk.txRecord.isSome = true
  | .ok tx =>
    after.activeSlotFile = disk.activeSlotFile ∧ tx = args.healthyTx disk.active ∧
      after.rootfs disk.active.other = some args.r.data ∧ args.accepted platform = true

theorem prepare_safe :
    (prepare platform args).Safe (Through (Preparing args)) (Prepared platform args disk) disk := by
  apply beginTx_safe.andThen
  · intro cause after refused
    exact refused
  rintro slot begun ⟨begunSlot, rfl⟩
  apply (stage_safe _).andThen
  · intro cause after other impossible
    exact absurd impossible other
  rintro actualSHA staged ⟨stagedSlot, ended, complete, hash⟩
  apply (verifyImage_safe rfl actualSHA).andThen
  · intro cause after other impossible
    exact absurd impossible other
  rintro ⟨⟩ verified ⟨verifiedSlot, sameStaged, matchesSHA, valid⟩
  have sameSlot : verified.activeSlotFile = disk.activeSlotFile := by
    rw [verifiedSlot, stagedSlot, begunSlot]
  have target : (args.healthyTx disk.active).targetSlot = verified.active.other := by
    rw [active_eq sameSlot]
    rfl
  have present : verified.staged (args.healthyTx disk.active).stagedPath = some args.r.data := by
    rw [sameStaged]
    exact complete
  apply (replaceImage_safe rfl present target).mono (fun _ _ prepares => prepares)
  intro result after goes
  cases result with
  | error cause => exact fun impossible => absurd impossible goes
  | ok final =>
    obtain ⟨finalSlot, rfl, image⟩ := goes
    refine ⟨finalSlot.trans sameSlot, rfl, image, ?_⟩
    rw [hash] at matchesSHA valid
    simp [ApplyArgs.accepted, ended, matchesSHA, valid]

theorem healthyTx_reversible (slot : Slot) : (args.healthyTx slot).Reversible :=
  ⟨_, rfl, slot.other_other.symm⟩

theorem Applying.same (visible : Visible) : Applying args visible visible :=
  .preparing (Preparing.same visible)

theorem flipSlot_safe (target : tx.targetSlot = disk.active.other)
    (reversible : tx.Reversible) (image : disk.rootfs tx.targetSlot = some args.r.data)
    (accepted : args.accepted platform = true) :
    (flipSlot args tx).Safe (Through (Applying args)) (fun result _ => result ≠ .error .txExists)
      disk := by
  have flipping : Applying args disk.toVisible (disk.flipped tx.targetSlot) := by
    rw [target] at image ⊢
    simp only [ApplyArgs.accepted, Bool.and_eq_true, Option.isNone_iff_eq_none] at accepted
    exact .flipped accepted.1.1 image accepted.1.2
  apply (writeActiveSlot_safe (Applying.same _) flipping).bind
  intro result flipped _
  cases result with
  | error cause =>
    apply (log_safe (Applying.same _) _ _ _).bind
    intro _ _ _ impossible
    cases impossible
  | ok value =>
    have committing : Applying args flipped.toVisible (flipped.saved (tx.finish args.clock)) :=
      .committed rfl reversible
    apply (saveTx_safe (Applying.same _) committing).bind
    intro _ saved _
    apply (log_safe (Applying.same _) _ _ _).bind
    intro _ logged _
    apply (removeStaging_safe (fun visible staged => .preparing (.restaged staged)) _).bind
    intro _ _ _ impossible
    cases impossible

/-- Every call of `Apply` keeps to `Applying`, and it refuses only when there is a record. -/
theorem apply_safe :
    (apply platform args).Safe (Through (Applying args))
      (fun result _ => result = .error .txExists → disk.txRecord.isSome = true) disk := by
  have prepares : (prepare platform args).Safe (Through (Applying args))
      (Prepared platform args disk) disk :=
    prepare_safe.mono (fun _ _ change => .preparing change) (fun _ _ prepared => prepared)
  apply prepares.andThen
  · intro cause after refused isRefusal
    exact refused (Except.error.inj isRefusal)
  · rintro tx ready ⟨slot, rfl, image, accepted⟩
    have target : (args.healthyTx disk.active).targetSlot = ready.active.other := by
      rw [active_eq slot]
      rfl
    apply (flipSlot_safe target (healthyTx_reversible _) image accepted).mono
      (fun _ _ change => change)
    intro result _ other isRefusal
    exact absurd isRefusal other

end Apply

section Others

variable {platform : Platform} {disk : Disk}

theorem Aborting.same (visible : Visible) : Aborting visible visible :=
  .restaged visible.staged

theorem abortTx_aborting (clock : Clock) (tx : Transaction) (reason : String) :
    (abortTx clock tx reason).Safe (Through Aborting) (fun _ _ => True) disk := by
  apply abortTx_safe
  · exact fun visible => .restaged
  · intro staged record state
    exact .saved state

theorem abort_safe (clock : Clock) :
    (abort clock).Safe (Through Aborting) (fun _ _ => True) disk := by
  apply (loadTx_safe (Aborting.same _)).bind
  rintro result after -
  cases result with
  | error cause =>
    split
    · trivial
    · trivial
    · simp_all
  | ok tx =>
    apply (abortTx_aborting _ _ _).bind
    intro _ _ _
    trivial

theorem checkRecovery_safe (clock : Clock) :
    (checkRecovery clock).Safe (Through Aborting) (fun _ _ => True) disk := by
  apply (loadTx_safe (Aborting.same _)).bind
  rintro result after -
  cases result with
  | error cause =>
    split
    · trivial
    · trivial
    · simp_all
  | ok tx =>
    dsimp only
    cases tx.state with
    | committed | aborted | unknown => trivial
    | staging | verifying =>
      apply (abortTx_aborting _ _ _).bind
      intro _ _ _
      trivial

theorem RollingBack.same (visible : Visible) : RollingBack visible visible :=
  .restaged visible.staged

theorem rollbackLastUpdate_safe :
    rollbackLastUpdate.Safe (Through RollingBack) (fun _ _ => True) disk := by
  apply (loadTx_safe (RollingBack.same _)).bind
  rintro result after -
  cases result with
  | error cause =>
    split
    · trivial
    · trivial
    · simp_all
  | ok tx =>
    dsimp only
    split
    · trivial
    · cases tx.health with
      | none => trivial
      | some health =>
        apply (writeActiveSlot_safe (RollingBack.same _) (.flipped _)).bind
        intro written flipped _
        cases written with
        | error cause => trivial
        | ok value =>
          apply (log_safe (RollingBack.same _) _ _ _).bind
          intro _ _ _
          trivial

theorem applyDelta_safe (args : DeltaArgs) :
    (applyDelta platform args).Safe
      (Through fun before after => ∃ r, Applying (args.toApply r) before after)
      (fun _ _ => True) disk := by
  have same : ∀ visible, ∃ r, Applying (args.toApply r) visible visible := fun visible =>
    ⟨args.deltaReader, Applying.same visible⟩
  have applies : ∀ r after, (apply platform (args.toApply r)).Safe
      (Through fun before after => ∃ r, Applying (args.toApply r) before after)
      (fun _ _ => True) after := by
    intro r after
    exact apply_safe.mono (fun _ _ change => ⟨r, change⟩) (fun _ _ _ => trivial)
  apply (quiet_safe rfl (same _)).bind
  rintro reply after -
  cases reply with
  | error cause => trivial
  | ok srcData =>
    dsimp only
    cases args.deltaReader.failure with
    | some cause => trivial
    | none =>
      cases Delta.apply args.deltaReader.data srcData with
      | none => trivial
      | some outcome =>
        cases outcome with
        | error cause =>
          cases args.fullImageFallback with
          | none => trivial
          | some fullImage =>
            apply (log_safe (same _) _ _ _).bind
            intro _ logged _
            exact applies _ _
        | ok res =>
          apply (log_safe (same _) _ _ _).bind
          intro _ logged _
          exact applies _ _

variable (platform disk) in
theorem UpdateOp.safe (op : UpdateOp) :
    (op.program platform).Safe (Through op.Changes) (fun _ _ => True) disk := by
  cases op with
  | apply args => exact apply_safe.bind fun _ _ _ => trivial
  | applyDelta args => exact (applyDelta_safe args).bind fun _ _ _ => trivial
  | abort clock => exact (abort_safe clock).bind fun _ _ _ => trivial
  | checkRecovery clock => exact (checkRecovery_safe clock).bind fun _ _ _ => trivial
  | rollbackLastUpdate => exact rollbackLastUpdate_safe.bind fun _ _ _ => trivial

end Others

/-! ### The active image -/

variable {op : UpdateOp} {before after : Visible} {since start : Disk} {platform : Platform}

theorem UpdateOp.Changes.active_image (changes : op.Changes before after) :
    after.rootfs before.active = before.rootfs before.active := by
  have applying : ∀ {args}, Applying args before after →
      after.rootfs before.active = before.rootfs before.active := by
    intro args change
    cases change with
    | preparing prepares =>
      cases prepares with
      | restaged staged => rfl
      | saved state => rfl
      | replaced staged => exact Function.update_of_ne before.active.other_ne.symm _ _
    | flipped complete image verified => rfl
    | committed state reversible => rfl
  cases op with
  | apply args => exact applying changes
  | applyDelta args =>
    obtain ⟨r, change⟩ := changes
    exact applying change
  | abort | checkRecovery | rollbackLastUpdate => cases changes <;> rfl

/-- What is known of the image of a slot that an operation makes active: after an update it is the
complete image that was staged, and it has the hash that was asked for. -/
def UpdateOp.Activates (visible : Visible) : UpdateOp → Prop
  | .apply args =>
    args.r.failure = none ∧ visible.rootfs visible.active = some args.r.data ∧
      (args.expectedSHA ≠ "" →
        equalFold (Sha256.sha256Hex args.r.data) args.expectedSHA = true)
  | .applyDelta args => ∃ r : Reader,
      r.failure = none ∧ visible.rootfs visible.active = some r.data ∧
        (args.expectedDstSHA ≠ "" →
          equalFold (Sha256.sha256Hex r.data) args.expectedDstSHA = true)
  | .abort _ => False
  | .checkRecovery _ => False
  | .rollbackLastUpdate => True

theorem Applying.activates {args : ApplyArgs} (change : Applying args before after)
    (flips : after.active ≠ before.active) : (UpdateOp.apply args).Activates after := by
  cases change with
  | preparing prepares => cases prepares <;> exact absurd rfl flips
  | committed state reversible => exact absurd rfl flips
  | flipped complete image verified =>
    refine ⟨complete, image, ?_⟩
    intro nonempty
    simpa [ApplyArgs.shaMatches, nonempty] using verified

theorem UpdateOp.Changes.activates (changes : op.Changes before after)
    (flips : after.active ≠ before.active) : op.Activates after := by
  cases op with
  | apply args => exact Applying.activates changes flips
  | applyDelta args =>
    obtain ⟨r, change⟩ := changes
    exact ⟨r, change.activates flips⟩
  | abort | checkRecovery => cases changes <;> exact absurd rfl flips
  | rollbackLastUpdate => trivial

/-- The state in which the slot that is active at the end became active last. -/
def lastActivation (start : Disk) (steps : List UpdateStep) : Disk :=
  steps.foldl
    (fun since step => if step.after.active = step.before.active then since else step.after) start

def Unchanged (since now : Disk) : Prop :=
  now.active = since.active ∧ now.rootfs now.active = since.rootfs now.active

theorem Unchanged.step {before after : Disk}
    (changes : op.Changes before.toVisible after.toVisible) (unchanged : Unchanged since before) :
    Unchanged (if after.active = before.active then since else after) after := by
  split
  · rename_i same
    refine ⟨same.trans unchanged.1, ?_⟩
    rw [same, changes.active_image, unchanged.2]
  · exact ⟨rfl, rfl⟩

theorem changes_of_mem_trace {events : List UpdateEvent}
    {step : UpdateStep} (member : step ∈ start.trace platform events) :
    step.op.Changes step.before.toVisible step.after.toVisible := by
  induction events generalizing start with
  | nil => cases member
  | cons event events ih =>
    rcases List.mem_append.mp member with here | later
    · obtain ⟨⟨before, after⟩, inSteps, rfl⟩ := List.mem_map.mp here
      exact (event.op.safe platform start).of_mem_steps event.faults inSteps
    · exact ih later

theorem Unchanged.run (events : List UpdateEvent) (unchanged : Unchanged since start) :
    Unchanged (lastActivation since (start.trace platform events))
      (start.after platform events) := by
  induction events generalizing start since with
  | nil => exact unchanged
  | cons event events ih =>
    have stepped := Prog.Safe.foldl_steps Unchanged
      (fun since (change : Disk × Disk) =>
        if change.2.active = change.1.active then since else change.2)
      since (event.op.safe platform start) (fun _ _ _ changes kept => kept.step changes)
      unchanged event.faults
    rw [Disk.trace, lastActivation, List.foldl_append, List.foldl_map]
    exact ih stepped

/-- Whatever runs, and wherever it is interrupted: no call modifies the image of the active slot, the
active image is the one its slot held when it became active, and a slot that an update makes active
holds the complete staged image with the expected hash. -/
theorem active_image_safe (platform : Platform) (start : Disk) (events : List UpdateEvent) :
    (∀ step ∈ start.trace platform events,
      step.after.rootfs step.before.active = step.before.rootfs step.before.active) ∧
    Unchanged (lastActivation start (start.trace platform events))
      (start.after platform events) ∧
    ∀ step ∈ start.trace platform events, step.after.active ≠ step.before.active →
      step.op.Activates step.after.toVisible := by
  refine ⟨?_, Unchanged.run events ⟨rfl, rfl⟩, ?_⟩
  · intro step member
    exact (changes_of_mem_trace member).active_image
  · intro step member flips
    exact (changes_of_mem_trace member).activates flips

section Helpers

variable (disk : Disk)

theorem call_completes {request : DiskCall} {reply : request.Reply} {after : Disk}
    (served : disk.serve request = (reply, after)) :
    (call request).Completes disk 1 reply after := by
  constructor
  · rw [call, Prog.perform, Prog.run_call_pass rfl]
    simp only [served]
    rfl
  · rfl

theorem saveTx_completes (tx : Transaction) :
    (saveTx tx).Completes disk 2 (.ok ())
      { disk with txRecord := some (.whole tx), txTmp := none } :=
  ⟨rfl, rfl⟩

theorem log_completes (txID event detail : String) :
    (log txID event detail).Completes disk 1 ()
      { disk with auditLog := disk.auditLog ++ [{ txID, event, detail }] } :=
  ⟨rfl, rfl⟩

theorem writeActiveSlot_completes (slot : Slot) :
    (writeActiveSlot slot).Completes disk 3 (.ok ())
      { disk with activeSlotFile := some (.whole slot), activeSlotTmp := none } :=
  ⟨rfl, rfl⟩

theorem abortTx_completes (clock : Clock) (tx : Transaction) (reason : String) :
    (abortTx clock tx reason).Completes disk 4 (tx.giveUp clock reason)
      { disk.dropStaging tx.stagedPath with
        txRecord := some (.whole (tx.giveUp clock reason))
        txTmp := none
        auditLog := disk.auditLog ++ [{ txID := tx.id, event := "tx.aborted", detail := reason }] } :=
  ⟨rfl, rfl⟩

variable {disk}

theorem readActiveSlot_completes (readable : disk.activeSlotFile ≠ some .torn) :
    readActiveSlot.Completes disk 1 (.ok disk.active) disk := by
  have read : (call .readActiveSlot).Completes disk 1 (found disk.activeSlotFile) disk := ⟨rfl, rfl⟩
  apply read.bind (Nat.le_refl _)
  rw [Visible.active]
  cases file : disk.activeSlotFile with
  | none => exact ⟨rfl, rfl⟩
  | some contents =>
    cases contents with
    | torn => exact absurd file readable
    | whole slot => exact ⟨rfl, rfl⟩

theorem loadTx_completes {tx : Transaction} (record : disk.txRecord = some (.whole tx)) :
    loadTx.Completes disk 1 (.ok tx) disk := by
  have read : (call .readTx).Completes disk 1 (found disk.txRecord) disk := ⟨rfl, rfl⟩
  rw [record] at read
  exact read.bind (Nat.le_refl _) ⟨rfl, rfl⟩

theorem stageImage_completes {r : Reader} (complete : r.failure = none) (dst : StagedPath) :
    ∃ staged, (stageImage r dst).Completes disk 3 (.ok (Sha256.sha256Hex r.data))
      { disk with staged := staged } ∧ staged dst = some r.data := by
  obtain ⟨data, failure⟩ := r
  obtain rfl : failure = none := complete
  exact ⟨Function.update (Function.update disk.staged dst (some [])) dst (some data), ⟨rfl, rfl⟩,
    Function.update_self _ _ _⟩

theorem atomicReplace_completes {src : StagedPath} {image : Bytes}
    (present : disk.staged src = some image) (dst : Slot) :
    (atomicReplace src dst).Completes disk 2 (.ok ()) (disk.moveStaged src dst image) := by
  have renamed : (call (.renameStaged src dst)).Completes disk 1 (.ok ())
      (disk.moveStaged src dst image) := by
    apply call_completes
    simp only [Disk.serve, present]
  have made : (call .mkdirAll).Completes disk 1 (.ok ()) disk := ⟨rfl, rfl⟩
  exact made.andThen (by decide) renamed

end Helpers

/-! ### An accepted update -/

section Accepted

variable {platform : Platform} {args : ApplyArgs} {disk : Disk}

theorem beginTx_completes (free : disk.txRecord = none)
    (readable : disk.activeSlotFile ≠ some .torn) :
    ∃ after, (beginTx args).Completes disk 6 (.ok disk.active) after ∧
      after.toVisible = disk.saved (args.newTx disk.active) := by
  have stat : (call .statTx).Completes disk 1 (.error .notExist) disk := by
    apply call_completes
    simp only [Disk.serve, free]
    rfl
  have made : (call .mkdirAll).Completes disk 1 (.ok ()) disk := ⟨rfl, rfl⟩
  apply Exists.intro
  constructor
  · apply stat.bind (by decide)
    apply (readActiveSlot_completes readable).bind (by decide)
    apply made.bind (by decide)
    apply (saveTx_completes disk (args.newTx disk.active)).bind (by decide)
    apply (log_completes _ _ _ _).bind (by decide)
    exact ⟨rfl, rfl⟩
  · rfl

theorem stage_completes (complete : args.r.failure = none) (tx : Transaction) :
    ∃ after staged, (stage args tx).Completes disk 4 (.ok (Sha256.sha256Hex args.r.data)) after ∧
      after.toVisible = disk.restaged staged ∧ staged tx.stagedPath = some args.r.data := by
  obtain ⟨staged, completes, present⟩ := @stageImage_completes disk args.r complete tx.stagedPath
  apply Exists.intro
  refine ⟨staged, ?_, ?_, present⟩
  · apply completes.bind (by decide)
    apply (log_completes _ _ _ _).bind (by decide)
    exact ⟨rfl, rfl⟩
  · rfl

def ApplyArgs.signatureCalls (args : ApplyArgs) : Nat :=
  if args.checksSignature then 1 else 0

theorem verifyImage_completes (tx : Transaction) {actualSHA : String}
    (verified : args.shaMatches actualSHA = true)
    (valid : args.signatureValid platform actualSHA = true) :
    ∃ after, (verifyImage platform args tx actualSHA).Completes disk (2 + args.signatureCalls)
      (.ok ()) after ∧ after.toVisible = disk.saved tx := by
  have saved := saveTx_completes disk tx
  by_cases signed : args.checksSignature = true
  · simp only [ApplyArgs.signatureValid, signed, Bool.not_true, Bool.false_or, Bool.and_eq_true,
      beq_iff_eq] at valid
    apply Exists.intro
    constructor
    · apply saved.bind (Nat.le_add_right _ _)
      simp only [ApplyArgs.signatureCalls, verified, signed, valid, if_true, Bool.true_eq_false,
        if_false, ne_eq, not_true_eq_false]
      apply (log_completes _ _ _ _).bind (by decide)
      exact ⟨rfl, rfl⟩
    · rfl
  · apply Exists.intro
    constructor
    · apply saved.bind (Nat.le_add_right _ _)
      simp only [ApplyArgs.signatureCalls, verified, signed, Bool.true_eq_false, if_false,
        Bool.false_eq_true, if_true]
      exact ⟨rfl, rfl⟩
    · rfl

theorem replaceImage_completes {tx : Transaction}
    (present : disk.staged tx.stagedPath = some args.r.data) :
    ∃ after staged, (replaceImage args tx).Completes disk 4 (.ok tx) after ∧
      after.toVisible = ((disk.saved tx).replaced tx.targetSlot args.r.data).restaged staged := by
  have replaced := @atomicReplace_completes
    { disk with txRecord := some (.whole tx), txTmp := none } _ _ present tx.targetSlot
  apply Exists.intro
  apply Exists.intro
  constructor
  · apply (saveTx_completes disk tx).bind (by decide)
    apply replaced.bind (by decide)
    exact ⟨rfl, rfl⟩
  · rfl

def ApplyArgs.callsToPrepare (args : ApplyArgs) : Nat :=
  16 + args.signatureCalls

theorem prepare_completes (accepted : args.accepted platform = true) (free : disk.txRecord = none)
    (readable : disk.activeSlotFile ≠ some .torn) :
    ∃ after staged, (prepare platform args).Completes disk args.callsToPrepare
        (.ok (args.healthyTx disk.active)) after ∧
      after.toVisible = ((disk.saved (args.healthyTx disk.active)).replaced disk.active.other
        args.r.data).restaged staged := by
  simp only [ApplyArgs.accepted, Bool.and_eq_true, Option.isNone_iff_eq_none] at accepted
  obtain ⟨⟨complete, verified⟩, valid⟩ := accepted
  obtain ⟨begun, begins, begunShape⟩ := @beginTx_completes args disk free readable
  obtain ⟨staged, files, stages, stagedShape, present⟩ :=
    @stage_completes args begun complete (args.newTx disk.active)
  obtain ⟨checked, verifies, checkedShape⟩ := @verifyImage_completes platform args staged
    (args.verifyingTx disk.active) _ verified valid
  have stillPresent : checked.staged (args.healthyTx disk.active).stagedPath =
      some args.r.data := by
    rw [checkedShape, stagedShape]
    exact present
  obtain ⟨after, rest, replaces, shape⟩ := replaceImage_completes stillPresent
  refine ⟨after, rest, ?_, ?_⟩
  · have left : args.callsToPrepare - 6 - 4 - (2 + args.signatureCalls) = 4 := by
      rw [ApplyArgs.callsToPrepare]
      omega
    rw [← left] at replaces
    apply begins.andThen (by rw [ApplyArgs.callsToPrepare]; omega)
    apply stages.andThen (by rw [ApplyArgs.callsToPrepare]; omega)
    apply verifies.andThen (by rw [ApplyArgs.callsToPrepare]; omega)
    exact replaces
  · rw [shape, checkedShape, stagedShape, begunShape]
    rfl

theorem flipSlot_completes (tx : Transaction) :
    ∃ after staged, (flipSlot args tx).Completes disk 7 (.ok (tx.finish args.clock)) after ∧
      after.toVisible =
        ((disk.flipped tx.targetSlot).saved (tx.finish args.clock)).restaged staged := by
  refine ⟨_, _, ⟨rfl, rfl⟩, rfl⟩

def ApplyArgs.committedTx (args : ApplyArgs) (activeSlot : Slot) : Transaction :=
  (args.healthyTx activeSlot).finish args.clock

/-- An accepted update puts its image into the other slot and makes that slot active. -/
theorem apply_completes (accepted : args.accepted platform = true) (free : disk.txRecord = none)
    (readable : disk.activeSlotFile ≠ some .torn) :
    ∃ after staged, (apply platform args).Completes disk (args.callsToPrepare + 7)
        (.ok (args.committedTx disk.active)) after ∧
      after.toVisible = (((disk.replaced disk.active.other args.r.data).flipped
        disk.active.other).saved (args.committedTx disk.active)).restaged staged := by
  obtain ⟨ready, files, prepares, preparedShape⟩ := prepare_completes accepted free readable
  obtain ⟨after, staged, flips, shape⟩ :=
    @flipSlot_completes args ready (args.healthyTx disk.active)
  refine ⟨after, staged, ?_, ?_⟩
  · have left : args.callsToPrepare + 7 - args.callsToPrepare = 7 := Nat.add_sub_cancel_left _ _
    rw [← left] at flips
    exact prepares.andThen (Nat.le_add_right _ _) flips
  · rw [shape, preparedShape]
    rfl

end Accepted

/-! ### With a record -/

section Recorded

variable {platform : Platform} {disk : Disk}

theorem apply_refuses (args : ApplyArgs) (present : disk.txRecord.isSome = true) :
    (apply platform args).Completes disk 1 (.error .txExists) disk := by
  obtain ⟨file, record⟩ := Option.isSome_iff_exists.mp present
  have stat : (call .statTx).Completes disk 1 (.ok ()) disk := by
    apply call_completes
    simp only [Disk.serve, record]
    rfl
  have begins : (beginTx args).Completes disk 1 (.error .txExists) disk :=
    stat.bind (Nat.le_refl _) ⟨rfl, rfl⟩
  have prepares : (prepare platform args).Completes disk 1 (.error .txExists) disk :=
    begins.bind (Nat.le_refl _) ⟨rfl, rfl⟩
  exact prepares.bind (Nat.le_refl _) ⟨rfl, rfl⟩

theorem applyDelta_refuses (args : DeltaArgs) (present : disk.txRecord.isSome = true) :
    ((applyDelta platform args).run [] disk).store.toVisible = disk.toVisible := by
  have refuses : ∀ r txID event detail,
      (((log txID event detail).bind fun _ => apply platform (args.toApply r)).run []
        disk).store.toVisible = disk.toVisible := by
    intro r txID event detail
    have refused : ((log txID event detail).bind fun _ =>
        apply platform (args.toApply r)).Completes disk 2 (.error .txExists) _ :=
      (log_completes disk txID event detail).bind (by decide) (apply_refuses _ present)
    rw [refused.run]
  rw [applyDelta, Prog.bind_eq, call, Prog.perform, Prog.call_bind, Prog.run_call_pass rfl]
  simp only [Prog.ret_bind]
  cases found (disk.image args.srcSlotPath) with
  | error cause => rfl
  | ok srcData =>
    cases args.deltaReader.failure with
    | some cause => rfl
    | none =>
      dsimp only
      cases Delta.apply args.deltaReader.data srcData with
      | none => rfl
      | some outcome =>
        cases outcome with
        | error cause =>
          cases args.fullImageFallback with
          | none => rfl
          | some fullImage => exact refuses _ _ _ _
        | ok res => exact refuses _ _ _ _

variable {tx : Transaction}

theorem abort_completes (clock : Clock) (record : disk.txRecord = some (.whole tx)) :
    ∃ after, (abort clock).Completes disk 5 (.ok ()) after ∧
      after.txRecord = some (.whole (tx.giveUp clock "manual abort")) := by
  apply Exists.intro
  constructor
  · apply (loadTx_completes record).bind (by decide)
    apply (abortTx_completes disk clock tx "manual abort").bind (by decide)
    exact ⟨rfl, rfl⟩
  · rfl

theorem checkRecovery_keeps (clock : Clock) (record : disk.txRecord = some (.whole tx))
    (finished : tx.state = .committed ∨ tx.state = .aborted) :
    (checkRecovery clock).Completes disk 1 (.ok none) disk := by
  apply (loadTx_completes record).bind (Nat.le_refl _)
  rcases finished with state | state
  · simp only [state]
    exact ⟨rfl, rfl⟩
  · simp only [state]
    exact ⟨rfl, rfl⟩

theorem checkRecovery_gives_up (clock : Clock) (record : disk.txRecord = some (.whole tx))
    (inProgress : tx.state = .staging ∨ tx.state = .verifying) :
    ∃ after result reason, (checkRecovery clock).Completes disk 5 (.ok (some result)) after ∧
      after.txRecord = some (.whole (tx.giveUp clock reason)) ∧
      after.activeSlotFile = disk.activeSlotFile := by
  have gives := abortTx_completes disk clock tx
    ("interrupted in state " ++ tx.state.text ++ " (detected at boot)")
  apply Exists.intro
  refine ⟨{ found := true, txID := tx.id, state := .aborted, action := "aborted" },
    "interrupted in state " ++ tx.state.text ++ " (detected at boot)", ?_, ?_, ?_⟩
  · apply (loadTx_completes record).bind (by decide)
    dsimp only
    split
    · simp_all
    · simp_all
    · exact gives.bind (by decide) ⟨rfl, rfl⟩
    · exact gives.bind (by decide) ⟨rfl, rfl⟩
    · simp_all
  · rfl
  · rfl

theorem rollbackLastUpdate_completes {health : HealthSnapshot}
    (record : disk.txRecord = some (.whole tx)) (state : tx.state = .committed)
    (snapshot : tx.health = some health) :
    ∃ after, rollbackLastUpdate.Completes disk 5 (.ok health.activeSlot) after ∧
      after.toVisible = disk.flipped health.activeSlot := by
  apply Exists.intro
  constructor
  · apply (loadTx_completes record).bind (by decide)
    simp only [state, snapshot, ne_eq, not_true_eq_false, if_false]
    apply (writeActiveSlot_completes disk health.activeSlot).bind (by decide)
    apply (log_completes _ _ _ _).bind (by decide)
    exact ⟨rfl, rfl⟩
  · rfl

theorem rollbackLastUpdate_refuses (record : disk.txRecord = some (.whole tx))
    (state : tx.state ≠ .committed) :
    rollbackLastUpdate.Completes disk 1 (.error (.nothingToRollBack tx.state.text)) disk := by
  apply (loadTx_completes record).bind (Nat.le_refl _)
  simp only [ne_eq, state, not_false_eq_true, if_true]
  exact ⟨rfl, rfl⟩

end Recorded

end NuraOS.Update
