/-
Purpose: What a trampoline leaves behind, when `landlock.Apply` puts a ruleset in force, what the allowlist program
  does, and what is in force in tools and services.
-/
import NuraOS.Sandbox.Confinement

namespace NuraOS.Sandbox

open Foundation Path List

namespace Kernel

variable (kernel : Kernel)

def Passes (filters : List (List ClassicBpf.Instruction)) (call : SystemCall) : Prop :=
  (filters.findSome? fun filter => stopped filter (kernel.seccompData call)) = none

/-- A call is made: the filters let it through and the kernel does not refuse it. -/
def Makes (thread : Thread) (call : SystemCall) : Prop :=
  kernel.Passes thread.filters call ∧ kernel.refuse call.number (thread.made.count call.number) = none

instance (thread : Thread) (call : SystemCall) : Decidable (kernel.Makes thread call) :=
  inferInstanceAs (Decidable ((_ : Option Nat) = none ∧ (_ : Option Nat) = none))

end Kernel

def Thread.counting (thread : Thread) (call : SystemCall) : Thread :=
  { thread with made := call.number :: thread.made }

section Calls

variable {kernel : Kernel} {thread : Thread} {call : SystemCall}

theorem syscall_of_makes (makes : kernel.Makes thread call) :
    kernel.syscall call thread = kernel.perform (thread.counting call) call := by
  obtain ⟨passes, willing⟩ := makes
  rw [Kernel.Passes] at passes
  simp only [Kernel.syscall, passes, willing]
  rfl

theorem syscall_of_not_makes (fails : ¬ kernel.Makes thread call) :
    ∃ errno, kernel.syscall call thread = (.error errno, thread.counting call) := by
  rw [Kernel.syscall]
  cases passes : thread.filters.findSome? fun filter => stopped filter (kernel.seccompData call) with
  | some errno => exact ⟨errno, rfl⟩
  | none =>
    cases willing : kernel.refuse call.number (thread.made.count call.number) with
    | some errno => exact ⟨errno, rfl⟩
    | none => exact absurd ⟨passes, willing⟩ fails

end Calls

/-! ### What stays -/

structure SameConfinement (before after : Thread) : Prop where
  filters : after.filters = before.filters
  domain : after.domain = before.domain

namespace SameConfinement

theorem refl (thread : Thread) : SameConfinement thread thread := ⟨rfl, rfl⟩

theorem trans {before middle after : Thread} (first : SameConfinement before middle)
    (second : SameConfinement middle after) : SameConfinement before after :=
  ⟨second.filters.trans first.filters, second.domain.trans first.domain⟩

end SameConfinement

def SystemCall.Quiet : SystemCall → Prop
  | .setSeccomp _ => False
  | .restrictSelf _ => False
  | _ => True

theorem perform_quiet (kernel : Kernel) (thread : Thread) {call : SystemCall} (quiet : call.Quiet) :
    SameConfinement thread (kernel.perform thread call).2 := by
  cases call with
  | setSeccomp filter => exact quiet.elim
  | restrictSelf descriptor => exact quiet.elim
  | landlockVersion =>
    rw [Kernel.perform]
    split <;> exact .refl thread
  | addRule descriptor rights parent =>
    rw [Kernel.perform]
    split <;> exact ⟨rfl, rfl⟩
  | openPath path =>
    rw [Kernel.perform]
    split <;> exact ⟨rfl, rfl⟩
  | openFile path =>
    rw [Kernel.perform]
    split <;> exact ⟨rfl, rfl⟩
  | _ => exact ⟨rfl, rfl⟩

theorem syscall_quiet (kernel : Kernel) (thread : Thread) (call : SystemCall) (quiet : call.Quiet) :
    SameConfinement thread (kernel.syscall call thread).2 := by
  by_cases makes : kernel.Makes thread call
  · rw [syscall_of_makes makes]
    have same := perform_quiet kernel (thread.counting call) quiet
    exact ⟨same.filters, same.domain⟩
  · obtain ⟨errno, fails⟩ := syscall_of_not_makes makes
    rw [fails]
    exact ⟨rfl, rfl⟩

theorem drop_same (host : Host) (names : List String) (thread : Thread) :
    SameConfinement thread (Cap.drop host names thread).2 := by
  rw [Cap.drop]
  induction Cap.expandAll host names generalizing thread with
  | nil => exact .refl thread
  | cons name names ih =>
    rw [Cap.dropBounding]
    cases Cap.capabilityNumbers.lookup name with
    | none => exact .refl thread
    | some nr =>
      have same := syscall_quiet host.kernel thread (.dropBounding nr) trivial
      dsimp only
      rcases dropping : host.kernel.syscall (.dropBounding nr) thread with ⟨reply, after⟩
      rw [dropping] at same
      cases reply with
      | error errno => exact same
      | ok _ => exact same.trans (ih after)

theorem load_same {α : Type} (host : Host) (what path : String) (decoded : Except String α)
    (thread : Thread) : SameConfinement thread (load host what path decoded thread).2 := by
  have opened := syscall_quiet host.kernel thread (.openFile path) trivial
  rw [load]
  rcases opening : host.kernel.syscall (.openFile path) thread with ⟨reply, afterOpen⟩
  rw [opening] at opened
  cases reply with
  | error errno => exact opened
  | ok fd =>
    have done := opened.trans (syscall_quiet host.kernel afterOpen (.read fd) trivial)
    dsimp only
    rcases reading : host.kernel.syscall (.read fd) afterOpen with ⟨reply, afterRead⟩
    rw [reading] at done
    cases reply with
    | error errno => exact done.trans (syscall_quiet host.kernel afterRead (.close fd) trivial)
    | ok _ => exact done.trans (syscall_quiet host.kernel afterRead (.close fd) trivial)

theorem setSeccomp_spec (kernel : Kernel) (thread : Thread) (filter : List ClassicBpf.Instruction) :
    (kernel.syscall (.setSeccomp filter) thread).2.domain = thread.domain ∧
      ∀ reply, (kernel.syscall (.setSeccomp filter) thread).1 = .ok reply →
        (kernel.syscall (.setSeccomp filter) thread).2.filters = filter :: thread.filters := by
  by_cases makes : kernel.Makes thread (.setSeccomp filter)
  · rw [syscall_of_makes makes]
    exact ⟨rfl, fun _ _ => rfl⟩
  · obtain ⟨errno, fails⟩ := syscall_of_not_makes makes
    rw [fails]
    exact ⟨rfl, fun reply impossible => nomatch impossible⟩

theorem seccomp_apply_spec (kernel : Kernel) (p : Seccomp.Profile) (mode : Mode) (thread : Thread) :
    (Seccomp.apply kernel (some p) mode thread).2.domain = thread.domain ∧
      ((Seccomp.apply kernel (some p) mode thread).1 = .ok () →
        (Seccomp.apply kernel (some p) mode thread).2.filters =
          buildFilter (resolveNames p.syscalls).1 (Seccomp.defaultAction (p.effectiveMode mode)) ::
            thread.filters) := by
  have noNewPrivs := syscall_quiet kernel thread .setNoNewPrivs trivial
  rw [Seccomp.apply]
  rcases resolveNames p.syscalls with ⟨nrs, unknown⟩
  dsimp only
  split
  · exact ⟨rfl, fun impossible => nomatch impossible⟩
  split
  · exact ⟨rfl, fun impossible => nomatch impossible⟩
  rcases setting : kernel.syscall .setNoNewPrivs thread with ⟨reply, after⟩
  rw [setting] at noNewPrivs
  cases reply with
  | error errno => exact ⟨noNewPrivs.domain, fun impossible => nomatch impossible⟩
  | ok _ =>
    dsimp only
    obtain ⟨domain, filters⟩ := setSeccomp_spec kernel after
      (buildFilter nrs (Seccomp.defaultAction (p.effectiveMode mode)))
    rcases installing : kernel.syscall (.setSeccomp
      (buildFilter nrs (Seccomp.defaultAction (p.effectiveMode mode)))) after with ⟨reply, last⟩
    rw [installing] at domain filters
    cases reply with
    | error errno => exact ⟨domain.trans noNewPrivs.domain, fun impossible => nomatch impossible⟩
    | ok value =>
      exact ⟨domain.trans noNewPrivs.domain, fun _ =>
        (filters value rfl).trans (congrArg _ noNewPrivs.filters)⟩

/-- The ruleset of a descriptor has at most grown by rules that are granted, and nothing else that matters
to it has changed. -/
structure Grown (rfd : Nat) (granted : Location → UInt64 → Prop) (before after : Thread) : Prop
    extends SameConfinement before after where
  restricted : after.made.count 446 = before.made.count 446
  descriptors : before.nextDescriptor ≤ after.nextDescriptor
  ruleset : ∀ ruleset, before.object rfd = some (.ruleset ruleset) →
    ∃ more, after.object rfd = some (.ruleset { ruleset with rules := ruleset.rules ++ more }) ∧
      ∀ rule ∈ more, granted rule.1 rule.2

namespace Grown

variable {rfd : Nat} {granted wider : Location → UInt64 → Prop} {before middle after : Thread}

theorem mono (grown : Grown rfd granted before after)
    (allows : ∀ location rights, granted location rights → wider location rights) :
    Grown rfd wider before after where
  toSameConfinement := grown.toSameConfinement
  restricted := grown.restricted
  descriptors := grown.descriptors
  ruleset ruleset found := by
    obtain ⟨more, now, all⟩ := grown.ruleset ruleset found
    exact ⟨more, now, fun rule member => allows _ _ (all rule member)⟩

theorem trans (first : Grown rfd granted before middle) (second : Grown rfd granted middle after) :
    Grown rfd granted before after where
  filters := second.filters.trans first.filters
  domain := second.domain.trans first.domain
  restricted := second.restricted.trans first.restricted
  descriptors := first.descriptors.trans second.descriptors
  ruleset ruleset found := by
    obtain ⟨some, now, all⟩ := first.ruleset ruleset found
    obtain ⟨more, later, allMore⟩ := second.ruleset _ now
    refine ⟨some ++ more, ?_, ?_⟩
    · rw [later, append_assoc]
    · intro rule member
      rcases mem_append.mp member with early | late
      · exact all rule early
      · exact allMore rule late

theorem of_same (same : SameConfinement before after)
    (restricted : after.made.count 446 = before.made.count 446)
    (descriptors : before.nextDescriptor ≤ after.nextDescriptor)
    (object : after.object rfd = before.object rfd) : Grown rfd granted before after where
  toSameConfinement := same
  restricted := restricted
  descriptors := descriptors
  ruleset ruleset found := ⟨[], by rw [object, found, append_nil], by simp⟩

theorem refl (thread : Thread) : Grown rfd granted thread thread :=
  of_same ⟨rfl, rfl⟩ rfl le_rfl rfl

theorem counting (thread : Thread) {call : SystemCall} (other : call.number ≠ 446) :
    Grown rfd granted thread (thread.counting call) :=
  of_same ⟨rfl, rfl⟩ (count_cons_of_ne other) le_rfl rfl

end Grown

section Descriptors

variable {thread : Thread} {object : Object} {fd other : Nat}

theorem lookup_cons_of_ne {entries : List (Nat × Object)} (different : other ≠ fd) :
    List.lookup other ((fd, object) :: entries) = List.lookup other entries := by
  rw [lookup_cons, beq_false_of_ne different]

theorem object_install_self :
    (thread.install object).2.object thread.nextDescriptor = some object := by
  simp [Thread.install, Thread.object]

theorem object_close (different : other ≠ fd) :
    List.lookup other (thread.descriptors.filter fun entry => entry.1 ≠ fd) = thread.object other := by
  rw [Thread.object]
  induction thread.descriptors with
  | nil => rfl
  | cons entry entries ih =>
    by_cases closed : entry.1 = fd
    · rw [filter_cons_of_neg (by simpa using closed), ih,
        lookup_cons_of_ne (closed ▸ different)]
    · rw [filter_cons_of_pos (by simpa using closed), lookup_cons, lookup_cons,
        ih]

end Descriptors

section Rules

variable (kernel : Kernel) {thread : Thread} {rfd : Nat} {granted : Location → UInt64 → Prop}

theorem openPath_spec (path : String) (older : rfd < thread.nextDescriptor) :
    Grown rfd granted thread (kernel.syscall (.openPath path) thread).2 ∧
      ∀ fd, (kernel.syscall (.openPath path) thread).1 = .ok fd →
        rfd < fd ∧ ∃ location, kernel.resolve path = some location ∧
          (kernel.syscall (.openPath path) thread).2.object fd = some (.place location) := by
  have other : (SystemCall.openPath path).number ≠ 446 := by simp [SystemCall.number]
  by_cases makes : kernel.Makes thread (.openPath path)
  · rw [syscall_of_makes makes, Kernel.perform]
    cases resolved : kernel.resolve path with
    | none => exact ⟨.counting thread other, fun fd opened => nomatch opened⟩
    | some location =>
      refine ⟨.of_same ⟨rfl, rfl⟩ (count_cons_of_ne other) (Nat.le_succ _)
        (lookup_cons_of_ne older.ne), fun fd opened => ?_⟩
      cases opened
      exact ⟨older, location, rfl, object_install_self⟩
  · obtain ⟨errno, fails⟩ := syscall_of_not_makes makes
    rw [fails]
    exact ⟨.counting thread other, fun fd opened => nomatch opened⟩

variable {fd : Nat}

theorem addRule_grown (rfd : Nat) (rights : UInt64) {location : Location}
    (opened : thread.object fd = some (.place location)) :
    Grown rfd (fun place given => place = location ∧ given = rights) thread
      (kernel.syscall (.addRule rfd rights fd) thread).2 := by
  have other : (SystemCall.addRule rfd rights fd).number ≠ 446 := by simp [SystemCall.number]
  by_cases makes : kernel.Makes thread (.addRule rfd rights fd)
  · rw [syscall_of_makes makes, Kernel.perform]
    split
    · rename_i ruleset parent found place
      cases opened.symm.trans place
      refine ⟨⟨rfl, rfl⟩, count_cons_of_ne other, le_rfl, fun old before => ?_⟩
      cases before.symm.trans found
      exact ⟨[(location, rights)], lookup_cons_self, by simp⟩
    · exact .counting thread other
  · obtain ⟨errno, fails⟩ := syscall_of_not_makes makes
    rw [fails]
    exact .counting thread other

theorem close_grown (different : rfd ≠ fd) :
    Grown rfd granted thread (kernel.syscall (.close fd) thread).2 := by
  have other : (SystemCall.close fd).number ≠ 446 := by simp [SystemCall.number]
  by_cases makes : kernel.Makes thread (.close fd)
  · rw [syscall_of_makes makes]
    exact .of_same ⟨rfl, rfl⟩ (count_cons_of_ne other) le_rfl (object_close different)
  · obtain ⟨errno, fails⟩ := syscall_of_not_makes makes
    rw [fails]
    exact .counting thread other

end Rules

namespace Landlock

def NamesKnown (rules : List PathRule) : Prop :=
  ∀ rule ∈ rules, ∀ name ∈ rule.access, (accessNames.lookup name).isSome

instance (rules : List PathRule) : Decidable (NamesKnown rules) :=
  inferInstanceAs (Decidable (∀ rule ∈ rules, ∀ name ∈ rule.access, _ = true))

theorem in_bit_iff (right other : Right) : right.In other.bit ↔ right = other := by
  cases right <;> cases other <;> decide

theorem in_or_iff (right : Right) (rights more : UInt64) :
    right.In (rights ||| more) ↔ right.In rights ∨ right.In more := by
  have distributes : (rights ||| more) &&& right.bit = rights &&& right.bit ||| more &&& right.bit :=
    UInt64.eq_of_toBitVec_eq BitVec.and_or_distrib_right
  rw [Right.In, distributes, ne_eq, UInt64.or_eq_zero_iff]
  exact not_and_or

theorem not_in_zero (right : Right) : ¬ right.In 0 := by
  simp [Right.In]

theorem in_allFSAccessV1 (right : Right) : right.In allFSAccessV1 := by
  cases right <;> decide

theorem rightsOf_isOk_iff (start : UInt64) (names : List String) :
    (∃ rights, rightsOf start names = .ok rights) ↔ ∀ name ∈ names, (accessNames.lookup name).isSome := by
  induction names generalizing start with
  | nil => simp [rightsOf]
  | cons name names ih =>
    rw [rightsOf, forall_mem_cons]
    cases known : accessNames.lookup name with
    | none => simp
    | some right => simp [ih]

theorem in_rightsOf_iff {start rights : UInt64} {names : List String}
    (ok : rightsOf start names = .ok rights) (right : Right) :
    right.In rights ↔ right.In start ∨ ∃ name ∈ names, accessNames.lookup name = some right := by
  induction names generalizing start with
  | nil =>
    cases ok
    simp
  | cons name names ih =>
    rw [rightsOf] at ok
    cases known : accessNames.lookup name with
    | none =>
      rw [known] at ok
      cases ok
    | some given =>
      rw [known] at ok
      rw [ih ok, in_or_iff, in_bit_iff, or_assoc]
      simp [known, eq_comm]

/-! ### Rules -/

def Granted (kernel : Kernel) (rules : List PathRule) (location : Location) (rights : UInt64) : Prop :=
  ∃ rule ∈ rules, kernel.resolve rule.path = some location ∧ rightsOf 0 rule.access = .ok rights

section Apply

variable (kernel : Kernel) {thread : Thread} {rfd : Nat}

theorem addPathRule_grown (path : String) (rights : UInt64) (older : rfd < thread.nextDescriptor) :
    Grown rfd (fun place given => kernel.resolve path = some place ∧ given = rights) thread
      (addPathRule kernel rfd path rights thread).2 := by
  rw [addPathRule]
  obtain ⟨grown, opens⟩ := openPath_spec kernel path older
  rcases opening : kernel.syscall (.openPath path) thread with ⟨reply, afterOpen⟩
  rw [opening] at grown opens
  cases reply with
  | error errno => exact grown
  | ok fd =>
    obtain ⟨newer, location, resolved, opened⟩ := opens fd rfl
    have added : Grown rfd (fun place given => kernel.resolve path = some place ∧ given = rights) afterOpen
        (kernel.syscall (.addRule rfd rights fd) afterOpen).2 :=
      (addRule_grown kernel rfd rights opened).mono fun _ _ given => ⟨given.1 ▸ resolved, given.2⟩
    dsimp only
    rcases adding : kernel.syscall (.addRule rfd rights fd) afterOpen with ⟨reply, afterAdd⟩
    rw [adding] at added
    cases reply with
    | error errno => exact (grown.trans added).trans (close_grown kernel newer.ne)
    | ok _ => exact (grown.trans added).trans (close_grown kernel newer.ne)

theorem addRules_grown (rules : List PathRule) (older : rfd < thread.nextDescriptor) :
    Grown rfd (Granted kernel rules) thread (addRules kernel rfd rules thread).2 := by
  induction rules generalizing thread with
  | nil => exact .refl thread
  | cons rule rules ih =>
    have later : ∀ location rights, Granted kernel rules location rights →
        Granted kernel (rule :: rules) location rights := by
      rintro location rights ⟨other, member, granted⟩
      exact ⟨other, mem_cons_of_mem _ member, granted⟩
    rw [addRules]
    cases ok : rightsOf 0 rule.access with
    | error name => exact .refl thread
    | ok rights =>
      dsimp only
      split
      · exact (ih older).mono later
      · have added := addPathRule_grown kernel rule.path rights older
        refine (added.mono ?_).trans ((ih (older.trans_le added.descriptors)).mono later)
        rintro location given ⟨resolved, rfl⟩
        exact ⟨rule, mem_cons_self, resolved, ok⟩

theorem addRules_isOk_iff (rfd : Nat) (rules : List PathRule) (thread : Thread) :
    (addRules kernel rfd rules thread).1 = .ok () ↔ NamesKnown rules := by
  induction rules generalizing thread with
  | nil => simp [addRules, NamesKnown]
  | cons rule rules ih =>
    have split : NamesKnown (rule :: rules) ↔
        (∃ rights, rightsOf 0 rule.access = .ok rights) ∧ NamesKnown rules := by
      rw [NamesKnown, forall_mem_cons, rightsOf_isOk_iff, NamesKnown]
    rw [split, addRules]
    cases rightsOf 0 rule.access with
    | error name => simp
    | ok rights =>
      dsimp only
      split
      · rw [ih]
        simp
      · rw [ih]
        simp

theorem makes_restrictSelf_congr {before after : Thread} (filters : after.filters = before.filters)
    (restricted : after.made.count 446 = before.made.count 446) (fd : Nat) :
    kernel.Makes after (.restrictSelf fd) ↔ kernel.Makes before (.restrictSelf fd) := by
  have count : after.made.count (SystemCall.restrictSelf fd).number =
      before.made.count (SystemCall.restrictSelf fd).number := restricted
  rw [Kernel.Makes, filters, count, Kernel.Makes]

variable {rules : List PathRule} {p : Profile}

theorem restrict_enforced {ruleset : Ruleset}
    (older : rfd < thread.nextDescriptor) (created : thread.object rfd = some (.ruleset ruleset))
    (known : NamesKnown rules) (makes : kernel.Makes thread (.restrictSelf rfd)) :
    (restrict kernel rfd rules thread).2.filters = thread.filters ∧
      ∃ more, (∀ rule ∈ more, Granted kernel rules rule.1 rule.2) ∧
        (restrict kernel rfd rules thread).2.domain =
          { ruleset with rules := ruleset.rules ++ more } :: thread.domain := by
  have added := (addRules_isOk_iff kernel rfd rules thread).mpr known
  have grown := addRules_grown kernel rules older
  rw [restrict]
  rcases adding : addRules kernel rfd rules thread with ⟨reply, after⟩
  rw [adding] at added grown
  obtain rfl : reply = .ok () := added
  obtain ⟨more, now, granted⟩ := grown.ruleset ruleset created
  have makesAfter := (makes_restrictSelf_congr kernel grown.filters grown.restricted rfd).mpr makes
  have found : (after.counting (.restrictSelf rfd)).object rfd = _ := now
  dsimp only
  rw [syscall_of_makes makesAfter, Kernel.perform, found]
  exact ⟨grown.filters, more, granted, congrArg _ grown.domain⟩

theorem restrict_not_enforced (older : rfd < thread.nextDescriptor)
    (fails : ¬ (NamesKnown rules ∧ kernel.Makes thread (.restrictSelf rfd))) :
    SameConfinement thread (restrict kernel rfd rules thread).2 := by
  have added := addRules_isOk_iff kernel rfd rules thread
  have grown := addRules_grown kernel rules older
  rw [restrict]
  rcases adding : addRules kernel rfd rules thread with ⟨reply, after⟩
  rw [adding] at added grown
  cases reply with
  | error e => exact grown.toSameConfinement
  | ok _ =>
    have refused : ¬ kernel.Makes after (.restrictSelf rfd) := by
      rw [makes_restrictSelf_congr kernel grown.filters grown.restricted]
      exact fun makes => fails ⟨added.mp rfl, makes⟩
    obtain ⟨errno, stays⟩ := syscall_of_not_makes refused
    dsimp only
    rw [stays]
    exact ⟨grown.filters, grown.domain⟩

structure Enforced (kernel : Kernel) (p : Profile) (thread : Thread) : Prop where
  paths : p.paths ≠ []
  supported : kernel.abi ≠ 0
  version : kernel.Makes thread .landlockVersion
  creates : kernel.Makes (thread.counting .landlockVersion) (.createRuleset allFSAccessV1)
  known : NamesKnown p.paths
  restricts : kernel.Makes thread (.restrictSelf thread.nextDescriptor)

theorem probeABI_thread : (probeABI kernel thread).2 = thread.counting .landlockVersion := by
  rw [probeABI]
  by_cases makes : kernel.Makes thread .landlockVersion
  · rw [syscall_of_makes makes, Kernel.perform]
    by_cases supported : kernel.abi = 0 <;> simp [supported]
  · obtain ⟨errno, fails⟩ := syscall_of_not_makes makes
    rw [fails]

theorem probeABI_lt_one_iff :
    (probeABI kernel thread).1 < 1 ↔ ¬ (kernel.abi ≠ 0 ∧ kernel.Makes thread .landlockVersion) := by
  rw [probeABI]
  by_cases makes : kernel.Makes thread .landlockVersion
  · rw [syscall_of_makes makes, Kernel.perform]
    by_cases supported : kernel.abi = 0
    · simp [supported]
    · have version : ¬ (kernel.abi : Int) < 1 := by omega
      simp only [supported, if_false]
      exact iff_of_false version (not_not_intro ⟨supported, makes⟩)
  · obtain ⟨errno, fails⟩ := syscall_of_not_makes makes
    rw [fails]
    simp [makes]

theorem apply_of_paths (paths : p.paths ≠ []) :
    apply kernel (some p) thread =
      if (probeABI kernel thread).1 < 1 then (.error .unsupported, thread.counting .landlockVersion)
      else
        match kernel.syscall (.createRuleset allFSAccessV1) (thread.counting .landlockVersion) with
        | (.error errno, thread) => (.error (.createRuleset errno), thread)
        | (.ok rfd, thread) =>
          ((restrict kernel rfd p.paths thread).1,
            (kernel.syscall (.close rfd) (restrict kernel rfd p.paths thread).2).2) := by
  have nonempty : p.paths.length ≠ 0 := fun none => paths (length_eq_zero_iff.mp none)
  rw [← probeABI_thread kernel]
  exact if_neg nonempty

section Created

def created (thread : Thread) : Thread :=
  (((thread.counting .landlockVersion).counting (.createRuleset allFSAccessV1)).install
    (.ruleset { handled := allFSAccessV1, rules := [] })).2

theorem makes_created_iff (fd : Nat) :
    kernel.Makes (created thread) (.restrictSelf fd) ↔ kernel.Makes thread (.restrictSelf fd) :=
  makes_restrictSelf_congr kernel rfl
    ((count_cons_of_ne (by decide)).trans (count_cons_of_ne (by decide))) fd

/-- A profile with paths, on a kernel with Landlock that makes the first two calls, comes to its rules. -/
theorem apply_created {p : Profile} (paths : p.paths ≠ []) (supported : kernel.abi ≠ 0)
    (version : kernel.Makes thread .landlockVersion)
    (creates : kernel.Makes (thread.counting .landlockVersion) (.createRuleset allFSAccessV1)) :
    SameConfinement (restrict kernel thread.nextDescriptor p.paths (created thread)).2
      (apply kernel (some p) thread).2 := by
  have probed : ¬ (probeABI kernel thread).1 < 1 := by
    rw [probeABI_lt_one_iff]
    exact not_not_intro ⟨supported, version⟩
  rw [apply_of_paths kernel paths, if_neg probed, syscall_of_makes creates]
  exact syscall_quiet kernel _ _ trivial

end Created

theorem apply_enforced (enforced : Enforced kernel p thread) :
    (apply kernel (some p) thread).2.filters = thread.filters ∧
      ∃ rules, (∀ rule ∈ rules, Granted kernel p.paths rule.1 rule.2) ∧
        (apply kernel (some p) thread).2.domain =
          { handled := allFSAccessV1, rules := rules } :: thread.domain := by
  have same := apply_created kernel enforced.paths enforced.supported enforced.version enforced.creates
  obtain ⟨filters, rules, granted, domain⟩ := restrict_enforced kernel (Nat.lt_succ_self _)
    object_install_self enforced.known ((makes_created_iff kernel _).mpr enforced.restricts)
  exact ⟨same.filters.trans filters, rules, granted, same.domain.trans domain⟩

theorem apply_not_enforced (fails : ¬ Enforced kernel p thread) :
    SameConfinement thread (apply kernel (some p) thread).2 := by
  by_cases paths : p.paths = []
  · rw [apply, paths]
    exact .refl thread
  by_cases supported : kernel.abi ≠ 0 ∧ kernel.Makes thread .landlockVersion
  · by_cases creates : kernel.Makes (thread.counting .landlockVersion) (.createRuleset allFSAccessV1)
    · have refused : ¬ (NamesKnown p.paths ∧
          kernel.Makes (created thread) (.restrictSelf thread.nextDescriptor)) := by
        exact fun ⟨known, restricts⟩ =>
          fails ⟨paths, supported.1, supported.2, creates, known, restricts⟩
      have same := restrict_not_enforced kernel (Nat.lt_succ_self _) refused
      have after := apply_created kernel paths supported.1 supported.2 creates
      exact ⟨after.filters.trans same.filters, after.domain.trans same.domain⟩
    · obtain ⟨errno, stays⟩ := syscall_of_not_makes creates
      rw [apply_of_paths kernel paths, if_neg ((probeABI_lt_one_iff kernel).not.mpr (not_not_intro supported)),
        stays]
      exact ⟨rfl, rfl⟩
  · rw [apply_of_paths kernel paths, if_pos ((probeABI_lt_one_iff kernel).mpr supported)]
    exact ⟨rfl, rfl⟩

end Apply

end Landlock

/-- A kernel with Landlock on which every path exists, with the calls it refuses. -/
def openKernel (refuse : UInt32 → Nat → Option Nat) : Kernel where
  resolve path := some (elements (utf8 path))
  abi := 4
  refuse := refuse
  arguments _ _ := 0

def openHost (refuse : UInt32 → Nat → Option Nat) (seccomp : Seccomp.Profile) (landlock : Landlock.Profile) :
    Host where
  kernel := openKernel refuse
  seccompToml _ := .ok seccomp
  landlockToml _ := .ok landlock
  capabilities := Cap.capabilityNumbers
  capabilities_perm := .refl _
  strerror _ := "operation not permitted"

/-! ### The allowlist program -/

open ClassicBpf

def expectedAction (nrs : List UInt32) (defaultAction : UInt32) (data : SeccompData) : UInt32 :=
  if data.arch = auditArchAMD64 then
    if data.nr ∈ nrs then retAllow else defaultAction
  else retKillProcess

/-- The entries from which an offset of eight bits reaches the ALLOW instruction. -/
def reachableEntries (nrs : List UInt32) : List UInt32 := nrs.drop (nrs.length - 255)

section Program

variable (nrs : List UInt32) (defaultAction : UInt32)

theorem buildFilter_entry {i : Nat} {nr : UInt32} (found : nrs[i]? = some nr) :
    (buildFilter nrs defaultAction)[4 + i]? =
      some (bpfJump (bpfJmp ||| bpfJeq ||| bpfK) nr (UInt8.ofNat (nrs.length - i)) 0) := by
  obtain ⟨inside, -⟩ := List.getElem?_eq_some_iff.mp found
  rw [buildFilter, append_assoc, getElem?_append_right (by simp),
    getElem?_append_left (by simpa using inside)]
  simp [found]

theorem buildFilter_default :
    (buildFilter nrs defaultAction)[4 + nrs.length]? = some (bpfStmt (bpfRet ||| bpfK) defaultAction) := by
  rw [buildFilter, append_assoc, getElem?_append_right (by simp),
    getElem?_append_right (by simp)]
  simp

theorem buildFilter_allow :
    (buildFilter nrs defaultAction)[4 + nrs.length + 1]? = some (bpfStmt (bpfRet ||| bpfK) retAllow) := by
  rw [buildFilter, append_assoc, getElem?_append_right (by simp; omega),
    getElem?_append_right (by simp; omega)]
  simp [Nat.add_assoc]

end Program

section Run

variable {nrs : List UInt32} {defaultAction : UInt32} {data : SeccompData}

theorem exec_return {program : List Instruction} {state : State} {action : UInt32}
    (found : program[state.pc]? = some (bpfStmt (bpfRet ||| bpfK) action)) :
    exec program data.word state = .returned action := by
  rw [exec, run, step_of_getElem? found]
  rfl

theorem execute_entry (k : UInt32) (jt : UInt8) (state : State) :
    (bpfJump (bpfJmp ||| bpfJeq ||| bpfK) k jt 0).execute data.word state =
      .goto { state with pc := state.pc + 1 + if state.accumulator = k then jt.toNat else 0 } := by
  have decoded : operation (bpfJmp ||| bpfJeq ||| bpfK) = some (.jumpIf fun a k => a = k) := rfl
  rw [Instruction.execute, bpfJump, decoded]
  by_cases matching : state.accumulator = k <;> simp [matching]

theorem exec_entry_ne {i : Nat} {entry nr : UInt32} (found : nrs[i]? = some entry) (different : nr ≠ entry) :
    exec (buildFilter nrs defaultAction) data.word { pc := 4 + i, accumulator := nr } =
      exec (buildFilter nrs defaultAction) data.word { pc := 4 + (i + 1), accumulator := nr } := by
  refine exec_goto ((step_of_getElem? (buildFilter_entry nrs defaultAction found)).trans ?_)
  rw [execute_entry, if_neg different]
  rfl

/-- An entry that matches jumps by what is left of its distance to the ALLOW instruction in eight bits. -/
theorem exec_entry_eq {i : Nat} {nr : UInt32} (found : nrs[i]? = some nr) :
    exec (buildFilter nrs defaultAction) data.word { pc := 4 + i, accumulator := nr } =
      exec (buildFilter nrs defaultAction) data.word
        { pc := 4 + (i + 1 + (nrs.length - i) % 256), accumulator := nr } := by
  refine exec_goto ((step_of_getElem? (buildFilter_entry nrs defaultAction found)).trans ?_)
  rw [execute_entry, if_pos rfl, UInt8.toNat_ofNat', Nat.add_assoc, Nat.add_assoc, Nat.add_assoc]

theorem exec_entries (nr : UInt32) (i : Nat) (inside : i ≤ nrs.length) :
    exec (buildFilter nrs defaultAction) data.word { pc := 4 + i, accumulator := nr } =
      .returned (if nr ∈ nrs.drop (max i (nrs.length - 255)) then retAllow else defaultAction) := by
  -- Jumps go forward: induction on the number of entries that are left.
  induction left : nrs.length - i using Nat.strong_induction_on generalizing i with
  | h left ih =>
    rcases inside.eq_or_lt with atEnd | inside
    · subst atEnd
      rw [exec_return (buildFilter_default nrs defaultAction), Nat.max_eq_left (Nat.sub_le _ _),
        drop_length, if_neg not_mem_nil]
    have found : nrs[i]? = some nrs[i] := getElem?_eq_getElem inside
    by_cases matching : nr = nrs[i]
    · rw [exec_entry_eq (matching ▸ found)]
      by_cases near : nrs.length - i ≤ 255
      · -- The offset is the whole distance.
        have target : 4 + (i + 1 + (nrs.length - i) % 256) = 4 + nrs.length + 1 := by omega
        rw [target, exec_return (buildFilter_allow nrs defaultAction), Nat.max_eq_left (by omega),
          drop_eq_getElem_cons inside, matching, if_pos mem_cons_self]
      · -- The jump ends at or before the first entry that reaches the ALLOW instruction.
        rw [ih _ (by omega) (i + 1 + (nrs.length - i) % 256) (by omega) rfl]
        rw [Nat.max_eq_right (by omega), Nat.max_eq_right (by omega)]
    · rw [exec_entry_ne found matching, ih _ (by omega) (i + 1) inside rfl]
      by_cases near : nrs.length - 255 ≤ i
      · rw [Nat.max_eq_left (by omega), Nat.max_eq_left near, drop_eq_getElem_cons inside]
        simp only [mem_cons, matching, false_or]
      · rw [Nat.max_eq_right (by omega), Nat.max_eq_right (by omega)]

theorem runFilter_buildFilter (nrs : List UInt32) (defaultAction : UInt32) (data : SeccompData) :
    runFilter (buildFilter nrs defaultAction) data =
      .returned (expectedAction (reachableEntries nrs) defaultAction data) := by
  have loaded : step (buildFilter nrs defaultAction) data.word { pc := 0, accumulator := 0 } =
      .goto { pc := 1, accumulator := data.arch } := rfl
  have compared : step (buildFilter nrs defaultAction) data.word { pc := 1, accumulator := data.arch } =
      .goto { pc := 2 + if data.arch = auditArchAMD64 then 1 else 0, accumulator := data.arch } :=
    (step_of_getElem? rfl).trans (execute_entry auditArchAMD64 1 _)
  rw [runFilter, exec_goto loaded, exec_goto compared, expectedAction]
  by_cases amd64 : data.arch = auditArchAMD64
  · have number : step (buildFilter nrs defaultAction) data.word { pc := 3, accumulator := data.arch } =
        .goto { pc := 4, accumulator := data.nr } := rfl
    rw [if_pos amd64, if_pos amd64, exec_goto number, exec_entries data.nr 0 (Nat.zero_le _),
      Nat.zero_max, reachableEntries]
  · rw [if_neg amd64, if_neg amd64]
    exact exec_return rfl

end Run

/-- The program always comes to a return; a call gets the action it is to get unless it is one of the
numbers that are listed, but too far from the end, while the default is not to allow. -/
theorem filter_action_iff (nrs : List UInt32) (defaultAction : UInt32) (data : SeccompData) :
    (∃ action, runFilter (buildFilter nrs defaultAction) data = .returned action) ∧
      (runFilter (buildFilter nrs defaultAction) data =
          .returned (expectedAction nrs defaultAction data) ↔
        (data.arch = auditArchAMD64 → data.nr ∈ nrs →
          data.nr ∈ reachableEntries nrs ∨ defaultAction = retAllow)) := by
  refine ⟨⟨_, runFilter_buildFilter nrs defaultAction data⟩, ?_⟩
  rw [runFilter_buildFilter, ClassicBpf.Outcome.returned.injEq, expectedAction, expectedAction]
  by_cases amd64 : data.arch = auditArchAMD64
  · by_cases reached : data.nr ∈ reachableEntries nrs
    · have listed : data.nr ∈ nrs := mem_of_mem_drop reached
      simp [amd64, reached, listed]
    · by_cases listed : data.nr ∈ nrs
      · simp [amd64, reached, listed]
      · simp [reached, listed]
  · simp [amd64]

/-- With 256 numbers the first is not allowed. -/
theorem first_of_256_denied :
    runFilter (buildFilter ((List.range 256).map UInt32.ofNat) retDeny)
        { nr := 0, arch := auditArchAMD64, rest := fun _ => 0 } = .returned retDeny ∧
      expectedAction ((List.range 256).map UInt32.ofNat) retDeny
        { nr := 0, arch := auditArchAMD64, rest := fun _ => 0 } = retAllow := by
  rw [runFilter_buildFilter]
  decide +kernel

open Path Landlock

def PathGrant.gives (pg : PathGrant) : Right → Bool
  | .readFile | .readDir => pg.read
  | .writeFile | .makeReg | .makeDir | .removeFile | .removeDir => pg.write
  | .execute => pg.exec
  | _ => false

/-- Some entry of the grant gives a right at a place: its path leads there or above it. -/
def GrantedAt (kernel : Kernel) (g : Grant) (right : Right) (place : Location) : Prop :=
  ∃ pg ∈ g.paths, pg.gives right = true ∧ ∃ location, kernel.resolve pg.path = some location ∧ location <+: place

def GrantBounds (kernel : Kernel) (g : Grant) (thread : Thread) : Prop :=
  ∃ ruleset ∈ thread.domain, ∀ right place, ruleset.Allows right place → GrantedAt kernel g right place

/-- The kernel has Landlock, and answers the two calls of `landlock_create_ruleset` and the one of
`landlock_restrict_self` without an error. -/
def LandlockWilling (kernel : Kernel) : Prop :=
  kernel.abi ≠ 0 ∧ kernel.refuse 444 0 = none ∧ kernel.refuse 444 1 = none ∧ kernel.refuse 446 0 = none

def PathGrant.rights (pg : PathGrant) : List Right :=
  (if pg.read then [.readFile, .readDir] else []) ++
  (if pg.write then [.writeFile, .makeReg, .makeDir, .removeFile, .removeDir] else []) ++
  (if pg.exec then [.execute] else [])

theorem access_lookup (pg : PathGrant) :
    pg.access.map (accessNames.lookup ·) = pg.rights.map some := by
  have read : [accessReadFile, accessReadDir].map (accessNames.lookup ·) =
      [Right.readFile, .readDir].map some := by decide
  have write : [accessWriteFile, accessMakeReg, accessMakeDir, accessRemoveFile, accessRemoveDir].map
      (accessNames.lookup ·) = [Right.writeFile, .makeReg, .makeDir, .removeFile, .removeDir].map some := by
    decide
  have exec : [accessExecute].map (accessNames.lookup ·) = [Right.execute].map some := by decide
  rw [PathGrant.access, PathGrant.rights, map_append, map_append, map_append,
    map_append, apply_ite (List.map _), apply_ite (List.map _), apply_ite (List.map _),
    read, write, exec, apply_ite (List.map some), apply_ite (List.map some), apply_ite (List.map some)]
  rfl

theorem access_known (pg : PathGrant) {name : String} (listed : name ∈ pg.access) :
    (accessNames.lookup name).isSome := by
  have found := mem_map_of_mem (f := (accessNames.lookup ·)) listed
  rw [access_lookup] at found
  obtain ⟨right, -, same⟩ := mem_map.mp found
  exact same ▸ rfl

theorem gives_of_access {pg : PathGrant} {name : String} {right : Right} (listed : name ∈ pg.access)
    (named : accessNames.lookup name = some right) : pg.gives right = true := by
  have found := mem_map_of_mem (f := (accessNames.lookup ·)) listed
  rw [access_lookup, named] at found
  obtain ⟨other, member, same⟩ := mem_map.mp found
  cases same
  revert member
  cases right <;> simp [PathGrant.rights, PathGrant.gives]

theorem access_ne_nil_iff (pg : PathGrant) : pg.access ≠ [] ↔ pg.read ∨ pg.write ∨ pg.exec := by
  obtain ⟨path, read, write, exec⟩ := pg
  cases read <;> cases write <;> cases exec <;> simp [PathGrant.access]

section Profile

variable {g : Grant}

theorem mem_profile_iff (rule : PathRule) :
    rule ∈ (buildLandlockProfile g).paths ↔
      ∃ pg ∈ g.paths, pg.access ≠ [] ∧ rule = { path := pg.path, access := pg.access } := by
  simp only [buildLandlockProfile, mem_filterMap, length_pos_iff, Option.ite_none_right_eq_some,
    Option.some.injEq]
  exact exists_congr fun pg => and_congr_right fun _ => and_congr_right fun _ => eq_comm

theorem profile_known : NamesKnown (buildLandlockProfile g).paths := by
  intro rule member name listed
  obtain ⟨pg, -, -, rfl⟩ := (mem_profile_iff rule).mp member
  exact access_known pg listed

theorem profile_paths_ne_nil_iff :
    (buildLandlockProfile g).paths ≠ [] ↔ ∃ pg ∈ g.paths, pg.read ∨ pg.write ∨ pg.exec := by
  constructor
  · intro nonempty
    obtain ⟨rule, member⟩ := exists_mem_of_ne_nil _ nonempty
    obtain ⟨pg, listed, flagged, -⟩ := (mem_profile_iff rule).mp member
    exact ⟨pg, listed, (access_ne_nil_iff pg).mp flagged⟩
  · rintro ⟨pg, listed, flagged⟩
    exact ne_nil_of_mem
      ((mem_profile_iff _).mpr ⟨pg, listed, (access_ne_nil_iff pg).mpr flagged, rfl⟩)

theorem granted_profile {kernel : Kernel} {location : Location} {rights : UInt64} {right : Right}
    (granted : Granted kernel (buildLandlockProfile g).paths location rights) (has : right.In rights) :
    ∃ pg ∈ g.paths, pg.gives right = true ∧ kernel.resolve pg.path = some location := by
  obtain ⟨rule, member, resolved, ok⟩ := granted
  obtain ⟨pg, listed, -, rfl⟩ := (mem_profile_iff rule).mp member
  rcases (in_rightsOf_iff ok right).mp has with zero | ⟨name, nameListed, named⟩
  · exact absurd zero (not_in_zero right)
  · exact ⟨pg, listed, gives_of_access nameListed named, resolved⟩

end Profile

section Trampoline

variable {host : Host} {g : Grant} {args environ : List String} {thread : Thread}

theorem applyAndExec_domain {path : String} {argv env : List String} (nonempty : g.paths ≠ [])
    (execs : (applyAndExec host g args environ thread).ended = .exec path argv env) :
    (applyAndExec host g args environ thread).thread.domain =
      (Landlock.apply host.kernel (some (buildLandlockProfile g)) thread).2.domain := by
  have declared : g.paths.length > 0 := length_pos_iff.mpr nonempty
  rw [applyAndExec] at execs ⊢
  split at execs
  · rename_i toolPath toolArgs found
    simp only [if_pos declared] at execs ⊢
    by_cases listed : g.syscalls.length > 0
    · rw [if_pos listed] at execs ⊢
      obtain ⟨domain, -⟩ := seccomp_apply_spec host.kernel { mode := "", syscalls := g.syscalls } modeEnforce
        (Landlock.apply host.kernel (some (buildLandlockProfile g)) thread).2
      rcases applying : Seccomp.apply host.kernel (some { mode := "", syscalls := g.syscalls })
        modeEnforce (Landlock.apply host.kernel (some (buildLandlockProfile g)) thread).2
        with ⟨reply, after⟩
      rw [applying] at execs domain
      cases reply with
      | error e => cases execs
      | ok _ => exact (drop_same host ["all"] after).domain.trans domain
    · rw [if_neg listed]
      exact (drop_same host ["all"] _).domain
  · cases execs

/-- On a fresh thread the ruleset of the grant is enforced if an entry has a flag and the kernel is willing. -/
theorem enforced_fresh_iff (kernel : Kernel) (g : Grant) :
    Enforced kernel (buildLandlockProfile g) Thread.fresh ↔
      (∃ pg ∈ g.paths, pg.read ∨ pg.write ∨ pg.exec) ∧ LandlockWilling kernel := by
  rw [← profile_paths_ne_nil_iff]
  constructor
  · intro enforced
    exact ⟨enforced.paths, enforced.supported, enforced.version.2, enforced.creates.2, enforced.restricts.2⟩
  · rintro ⟨paths, supported, version, creates, restricts⟩
    exact ⟨paths, supported, ⟨rfl, version⟩, ⟨rfl, creates⟩, profile_known, ⟨rfl, restricts⟩⟩

end Trampoline

/-- Whenever the tool is exec'd, a ruleset bounds it by its grant exactly if some entry of the grant has a flag
and the Landlock calls go through. -/
theorem tool_bounded_iff (host : Host) (grantJson : String → Except String Grant) {g : Grant}
    {args environ : List String} {trampoline : Trampoline} {path : String} {argv env : List String}
    (asked : getenv environ envApply = "1") (given : getenv environ envGrant ≠ "")
    (decoded : grantJson (getenv environ envGrant) = .ok g) (nonempty : g.paths ≠ [])
    (ends : maybeApplyAndExec host grantJson args environ Thread.fresh = some trampoline)
    (execs : trampoline.ended = .exec path argv env) :
    GrantBounds host.kernel g trampoline.thread ↔
      (∃ pg ∈ g.paths, pg.read ∨ pg.write ∨ pg.exec) ∧ LandlockWilling host.kernel := by
  have runs : trampoline = applyAndExec host g args environ Thread.fresh := by
    rw [maybeApplyAndExec, if_neg (not_not_intro asked)] at ends
    dsimp only at ends
    rw [if_pos given, decoded] at ends
    exact (Option.some.inj ends).symm
  subst runs
  rw [← enforced_fresh_iff, GrantBounds, applyAndExec_domain nonempty execs]
  constructor
  · rintro ⟨ruleset, member, -⟩
    by_contra fails
    rw [(apply_not_enforced host.kernel fails).domain] at member
    cases member
  · intro enforced
    obtain ⟨-, rules, granted, domain⟩ := apply_enforced host.kernel enforced
    refine ⟨_, domain ▸ mem_cons_self, fun right place allows => ?_⟩
    obtain ⟨rule, member, beneath, has⟩ := allows (in_allFSAccessV1 right)
    obtain ⟨pg, listed, gives, resolved⟩ := granted_profile (granted rule member) has
    exact ⟨pg, listed, gives, rule.1, resolved, beneath⟩

def dataGrant (read : Bool) : Grant :=
  { paths := [{ path := "data", read := read, write := false, exec := false }], syscalls := [] }

/-- The end of the trampoline for `/bin/tool` with a grant, on a kernel that refuses some calls. -/
def toolRun (refuse : UInt32 → Nat → Option Nat) (g : Grant) : Option Trampoline :=
  maybeApplyAndExec (openHost refuse { mode := "", syscalls := [] } { paths := [] }) (fun _ => .ok g)
    ["nura-manager", "--", "/bin/tool"] ["NURA_SANDBOX_APPLY=1", "NURA_SANDBOX_GRANT=1"] Thread.fresh

theorem readable_data_bounded :
    ∃ trampoline, toolRun (fun _ _ => none) (dataGrant true) = some trampoline ∧
      GrantBounds (openKernel fun _ _ => none) (dataGrant true) trampoline.thread := by
  have ended : (toolRun (fun _ _ => none) (dataGrant true)).map (·.ended) =
      some (.exec "/bin/tool" ["/bin/tool"] []) := by
    decide +kernel
  obtain ⟨trampoline, ends, execs⟩ := Option.map_eq_some_iff.mp ended
  exact ⟨trampoline, ends, (tool_bounded_iff _ _ (by decide +kernel) (by decide +kernel) rfl (by simp [dataGrant])
    ends execs).mpr ⟨⟨_, mem_cons_self, .inl rfl⟩, by decide, rfl, rfl, rfl⟩⟩

theorem not_bounded_of_domain {run : Option Trampoline} {ended : Ended} (kernel : Kernel) (g : Grant)
    (ends : run.map (fun t => (t.ended, t.thread.domain)) = some (ended, [])) :
    ∃ trampoline, run = some trampoline ∧ trampoline.ended = ended ∧
      ¬ GrantBounds kernel g trampoline.thread := by
  obtain ⟨trampoline, rfl, seen⟩ := Option.map_eq_some_iff.mp ends
  have empty : trampoline.thread.domain = [] := congrArg Prod.snd seen
  refine ⟨trampoline, rfl, congrArg Prod.fst seen, ?_⟩
  rintro ⟨ruleset, member, -⟩
  rw [empty] at member
  cases member

/-- A grant whose entry has no flag, and a kernel that refuses to restrict the thread: the tool is exec'd, and
no ruleset is in force. -/
theorem unconfined_tool_execs :
    (∃ trampoline, toolRun (fun _ _ => none) (dataGrant false) = some trampoline ∧
      trampoline.ended = .exec "/bin/tool" ["/bin/tool"] [] ∧
        ¬ GrantBounds (openKernel fun _ _ => none) (dataGrant false) trampoline.thread) ∧
    ∃ trampoline, toolRun (fun nr _ => if nr = 446 then some EPERM else none) (dataGrant true) =
        some trampoline ∧
      trampoline.ended = .exec "/bin/tool" ["/bin/tool"] [] ∧
        ¬ GrantBounds (openKernel fun nr _ => if nr = 446 then some EPERM else none) (dataGrant true)
          trampoline.thread :=
  ⟨not_bounded_of_domain _ _ (by decide +kernel), not_bounded_of_domain _ _ (by decide +kernel)⟩

/-- The filter of the profile is in force, and a ruleset that takes away every right and gives back at most
those of the Landlock profile. -/
def ServiceConfined (kernel : Kernel) (profile : Seccomp.Profile) (mode : Mode) (ll : Landlock.Profile)
    (thread : Thread) : Prop :=
  buildFilter (resolveNames profile.syscalls).1 (Seccomp.defaultAction (profile.effectiveMode mode)) ∈
      thread.filters ∧
    ∃ ruleset ∈ thread.domain, ruleset.handled = allFSAccessV1 ∧
      ∀ rule ∈ ruleset.rules, Granted kernel ll.paths rule.1 rule.2

def SupportsLandlock (kernel : Kernel) : Prop :=
  kernel.abi ≠ 0 ∧ ∀ nth, kernel.refuse 444 nth = none ∧ kernel.refuse 446 nth = none

def GrantsSomething (kernel : Kernel) (ll : Landlock.Profile) : Prop :=
  ∃ rule ∈ ll.paths, (∃ name ∈ rule.access, (accessNames.lookup name).isSome) ∧
    (kernel.resolve rule.path).isSome

/-- The filter lets `landlock_create_ruleset` and `landlock_restrict_self` through: calls are only logged, or
both are among the entries from which the ALLOW instruction is reached. -/
def LandlockAllowed (profile : Seccomp.Profile) (mode : Mode) : Prop :=
  profile.effectiveMode mode = modeLog ∨
    444 ∈ reachableEntries (resolveNames profile.syscalls).1 ∧
      446 ∈ reachableEntries (resolveNames profile.syscalls).1

theorem stopped_buildFilter (nrs : List UInt32) (mode : Mode) {data : SeccompData}
    (amd64 : data.arch = auditArchAMD64) :
    stopped (buildFilter nrs (Seccomp.defaultAction mode)) data = none ↔
      mode = modeLog ∨ data.nr ∈ reachableEntries nrs := by
  rw [stopped, runFilter_buildFilter]
  simp only [expectedAction, if_pos amd64]
  by_cases reached : data.nr ∈ reachableEntries nrs
  · have allowed : retAllow &&& 0xffff0000 = retAllow := by decide
    simp [reached, allowed]
  · by_cases log : mode = modeLog
    · have logged : retLog &&& 0xffff0000 = retLog := by decide
      simp [reached, Seccomp.defaultAction, log, logged]
    · have denied : ¬ (retDeny &&& 0xffff0000 = retAllow ∨ retDeny &&& 0xffff0000 = retLog) := by decide
      simp [reached, Seccomp.defaultAction, log, denied]

section Enforcement

variable {kernel : Kernel} {profile : Seccomp.Profile} {mode : Mode} {ll : Landlock.Profile}
  {thread : Thread}

theorem passes_iff
    (filters : thread.filters =
      [buildFilter (resolveNames profile.syscalls).1 (Seccomp.defaultAction (profile.effectiveMode mode))])
    (call : SystemCall) :
    kernel.Passes thread.filters call ↔
      profile.effectiveMode mode = modeLog ∨
        call.number ∈ reachableEntries (resolveNames profile.syscalls).1 := by
  have decides := stopped_buildFilter (resolveNames profile.syscalls).1 (profile.effectiveMode mode)
    (show (kernel.seccompData call).arch = auditArchAMD64 from rfl)
  rw [Kernel.Passes, filters, findSome?_cons, findSome?_nil]
  rw [show (kernel.seccompData call).nr = call.number from rfl] at decides
  rw [← decides]
  cases stopped _ (kernel.seccompData call) <;> simp

/-- Under the filter of the profile alone, the ruleset is put in force if the filter lets it. -/
theorem enforced_iff (supports : SupportsLandlock kernel) (grants : GrantsSomething kernel ll)
    (filters : thread.filters =
      [buildFilter (resolveNames profile.syscalls).1 (Seccomp.defaultAction (profile.effectiveMode mode))]) :
    Enforced kernel ll thread ↔ LandlockAllowed profile mode ∧ NamesKnown ll.paths := by
  obtain ⟨supported, willing⟩ := supports
  have nonempty : ll.paths ≠ [] := by
    obtain ⟨rule, member, -⟩ := grants
    exact ne_nil_of_mem member
  constructor
  · intro enforced
    have creates := (passes_iff filters _).mp enforced.creates.1
    have restricts := (passes_iff filters _).mp enforced.restricts.1
    refine ⟨?_, enforced.known⟩
    rcases creates with log | creates
    · exact .inl log
    rcases restricts with log | restricts
    · exact .inl log
    exact .inr ⟨creates, restricts⟩
  · rintro ⟨allowed, known⟩
    have creates : ∀ call, call.number = 444 → kernel.Passes thread.filters call := by
      intro call number
      rw [passes_iff filters, number]
      exact allowed.imp id And.left
    have restricts : ∀ call, call.number = 446 → kernel.Passes thread.filters call := by
      intro call number
      rw [passes_iff filters, number]
      exact allowed.imp id And.right
    exact ⟨nonempty, supported, ⟨creates _ rfl, (willing _).1⟩, ⟨creates _ rfl, (willing _).1⟩, known,
      ⟨restricts _ rfl, (willing _).2⟩⟩

end Enforcement

/-! ### The steps of the trampoline -/

section Steps

variable {host : Host} {opts : SeccompExecOpts} {thread : Thread}

variable {path : String} {profile : Seccomp.Profile} {ll : Landlock.Profile}

theorem load_isOk {α : Type} {what : String} {decoded : Except String α} {value : α}
    (loaded : (load host what path decoded thread).1 = .ok value) : decoded = .ok value := by
  rw [load] at loaded
  split at loaded
  · cases loaded
  split at loaded
  · cases loaded
  · cases decoded with
    | error e => cases loaded
    | ok other => exact loaded

theorem applySeccomp_spec (given : opts.profilePath ≠ "")
    (file : host.seccompToml opts.profilePath = .ok profile)
    (ok : (applySeccomp host opts thread).1 = .ok ()) :
    (applySeccomp host opts thread).2.domain = thread.domain ∧
      (applySeccomp host opts thread).2.filters =
        buildFilter (resolveNames profile.syscalls).1
          (Seccomp.defaultAction (profile.effectiveMode opts.mode)) :: thread.filters := by
  have same := load_same host "seccomp" opts.profilePath (host.seccompToml opts.profilePath) thread
  rw [applySeccomp] at ok ⊢
  simp only [if_pos given] at ok ⊢
  rcases loading : Seccomp.load host opts.profilePath thread with ⟨reply, after⟩
  rw [loading] at ok
  rw [← Seccomp.load, loading] at same
  cases reply with
  | error e => cases ok
  | ok loaded =>
    have isProfile := load_isOk (congrArg Prod.fst loading)
    rw [file] at isProfile
    cases isProfile
    obtain ⟨domain, filters⟩ := seccomp_apply_spec host.kernel profile opts.mode after
    dsimp only [Except.map] at ok ⊢
    rcases applying : Seccomp.apply host.kernel (some profile) opts.mode after with ⟨reply, last⟩
    rw [applying] at ok domain filters
    cases reply with
    | error e => cases ok
    | ok _ => exact ⟨domain.trans same.domain, (filters rfl).trans (congrArg _ same.filters)⟩

theorem applyLandlock_spec (given : opts.landlockProfile ≠ "")
    (file : host.landlockToml opts.landlockProfile = .ok ll) {warnings : List String}
    (ok : (applyLandlock host opts thread).1 = .ok warnings) :
    ∃ middle, SameConfinement thread middle ∧
      (applyLandlock host opts thread).2 = (Landlock.apply host.kernel (some ll) middle).2 := by
  have same := load_same host "landlock" opts.landlockProfile (host.landlockToml opts.landlockProfile) thread
  rw [applyLandlock, if_pos given] at ok ⊢
  rcases loading : Landlock.load host opts.landlockProfile thread with ⟨reply, after⟩
  rw [loading] at ok
  rw [← Landlock.load, loading] at same
  cases reply with
  | error e => cases ok
  | ok loaded =>
    have isProfile := load_isOk (congrArg Prod.fst loading)
    rw [file] at isProfile
    cases isProfile
    refine ⟨after, same, ?_⟩
    dsimp only
    rcases Landlock.apply host.kernel (some ll) after with ⟨reply, last⟩
    cases reply <;> rfl

/-- The thread at the exec: Landlock was applied under the filter of the profile alone. -/
theorem seccompExec_spec {args environ : List String} {argv env : List String}
    (parsed : parseSeccompExecArgs args = .ok opts)
    (profileGiven : opts.profilePath ≠ "") (profileFile : host.seccompToml opts.profilePath = .ok profile)
    (landlockGiven : opts.landlockProfile ≠ "")
    (landlockFile : host.landlockToml opts.landlockProfile = .ok ll)
    (execs : (seccompExec host args environ Thread.fresh).ended = .exec path argv env) :
    ∃ middle : Thread,
      middle.filters = [buildFilter (resolveNames profile.syscalls).1
        (Seccomp.defaultAction (profile.effectiveMode opts.mode))] ∧
      middle.domain = [] ∧
      (seccompExec host args environ Thread.fresh).thread =
        (Landlock.apply host.kernel (some ll) middle).2 := by
  have dropped : ∀ result after,
      (if opts.capDrop.length > 0 then Cap.drop host opts.capDrop Thread.fresh else (.ok (), Thread.fresh)) =
        (result, after) → SameConfinement Thread.fresh after := by
    intro result after drops
    split at drops
    · have same := drop_same host opts.capDrop Thread.fresh
      rwa [drops] at same
    · cases drops
      exact .refl _
  rw [seccompExec, parsed] at execs ⊢
  dsimp only at execs ⊢
  rcases dropping : (if opts.capDrop.length > 0 then Cap.drop host opts.capDrop Thread.fresh
    else (.ok (), Thread.fresh)) with ⟨result, afterDrop⟩
  rw [dropping] at execs
  have same := dropped result afterDrop dropping
  cases result with
  | error e => cases execs
  | ok _ =>
    dsimp only at execs ⊢
    rcases applying : applySeccomp host opts afterDrop with ⟨result, filtered⟩
    rw [applying] at execs
    cases result with
    | error e => cases execs
    | ok _ =>
      obtain ⟨domain, filters⟩ := applySeccomp_spec profileGiven profileFile
        (congrArg Prod.fst applying)
      rw [applying] at domain filters
      dsimp only at execs ⊢
      rcases restricting : applyLandlock host opts filtered with ⟨result, last⟩
      rw [restricting] at execs
      cases result with
      | error e => cases execs
      | ok warnings =>
        obtain ⟨middle, kept, rest⟩ := applyLandlock_spec landlockGiven landlockFile
          (congrArg Prod.fst restricting)
        rw [restricting] at rest
        refine ⟨middle, ?_, ?_, rest⟩
        · rw [kept.filters, filters, same.filters]
          rfl
        · rw [kept.domain, domain, same.domain]
          rfl

end Steps

/-- Whenever the service is exec'd, both are in force exactly if the filter lets the two calls of Landlock
through and every access name of the Landlock profile is known. -/
theorem service_confined_iff (host : Host) {args environ : List String} {opts : SeccompExecOpts}
    {profile : Seccomp.Profile} {ll : Landlock.Profile} {path : String} {argv env : List String}
    (supports : SupportsLandlock host.kernel)
    (parsed : parseSeccompExecArgs args = .ok opts)
    (profileGiven : opts.profilePath ≠ "") (profileFile : host.seccompToml opts.profilePath = .ok profile)
    (landlockGiven : opts.landlockProfile ≠ "")
    (landlockFile : host.landlockToml opts.landlockProfile = .ok ll)
    (grants : GrantsSomething host.kernel ll)
    (execs : (seccompExec host args environ Thread.fresh).ended = .exec path argv env) :
    ServiceConfined host.kernel profile opts.mode ll (seccompExec host args environ Thread.fresh).thread ↔
      LandlockAllowed profile opts.mode ∧ NamesKnown ll.paths := by
  obtain ⟨middle, filters, domain, last⟩ := seccompExec_spec parsed profileGiven profileFile landlockGiven
    landlockFile execs
  rw [← enforced_iff supports grants filters, ServiceConfined, last]
  constructor
  · rintro ⟨-, ruleset, member, -⟩
    by_contra fails
    rw [(apply_not_enforced host.kernel fails).domain, domain] at member
    cases member
  · intro enforced
    obtain ⟨kept, rules, granted, domain⟩ := apply_enforced host.kernel enforced
    rw [kept, filters, domain]
    exact ⟨mem_cons_self, _, mem_cons_self, rfl, granted⟩

/-- The calls of `/etc/nura/seccomp/gateway.toml` that the trampoline makes itself. Like the whole file the
list has none of the calls of Landlock. -/
def gatewaySeccomp : Seccomp.Profile :=
  { mode := "enforce", syscalls := ["execve", "prctl", "read", "openat", "close"] }

/-- `/etc/nura/landlock/gateway.toml`. -/
def gatewayLandlock : Landlock.Profile :=
  { paths :=
      [{ path := "/bin", access := ["execute", "read_file", "read_dir"] },
      { path := "/sbin", access := ["execute", "read_file", "read_dir"] },
      { path := "/etc", access := ["read_file", "read_dir"] },
      { path := "/proc", access := ["read_file", "read_dir"] },
      { path := "/data/etc", access := ["read_file", "read_dir"] },
      { path := "/data/journal", access := ["read_file", "write_file", "read_dir", "make_reg"] },
      { path := "/data/logs", access := ["read_file", "write_file", "read_dir", "make_reg"] },
      { path := "/run", access := ["read_file", "read_dir", "make_sock"] },
      { path := "/tmp", access := ["read_file", "write_file", "read_dir", "make_reg", "remove_file"] }] }

def gatewayArgs : List String :=
  ["--profile", "/etc/nura/seccomp/gateway.toml", "--mode", "enforce",
    "--landlock-profile", "/etc/nura/landlock/gateway.toml", "--", "/bin/su"]

/-- The options of `gatewayArgs`. -/
def gatewayOpts : SeccompExecOpts :=
  { profilePath := "/etc/nura/seccomp/gateway.toml"
    landlockProfile := "/etc/nura/landlock/gateway.toml"
    cmd := "/bin/su" }

/-- A host that refuses nothing, with the gateway's Landlock profile and some seccomp profile. -/
def gatewayHost (profile : Seccomp.Profile) : Host :=
  openHost (fun _ _ => none) profile gatewayLandlock

theorem gatewayHost_supports (profile : Seccomp.Profile) :
    SupportsLandlock (gatewayHost profile).kernel ∧ GrantsSomething (gatewayHost profile).kernel gatewayLandlock :=
  ⟨⟨Nat.succ_ne_zero 3, fun _ => ⟨rfl, rfl⟩⟩, _, mem_cons_self, ⟨_, mem_cons_self, by decide⟩, rfl⟩

def Trampoline.summary (trampoline : Trampoline) : Ended × List Ruleset :=
  (trampoline.ended, trampoline.thread.domain)

def landlockAware : Seccomp.Profile :=
  { mode := "enforce"
    syscalls := ["openat", "read", "close", "landlock_create_ruleset", "landlock_add_rule",
      "landlock_restrict_self", "execve"] }

theorem landlockAware_confined :
    ServiceConfined (gatewayHost landlockAware).kernel landlockAware gatewayOpts.mode gatewayLandlock
      (seccompExec (gatewayHost landlockAware) gatewayArgs [] Thread.fresh).thread := by
  have execs : (seccompExec (gatewayHost landlockAware) gatewayArgs [] Thread.fresh).ended =
      .exec "/bin/su" ["/bin/su"] [] := by
    decide +kernel
  obtain ⟨supports, grants⟩ := gatewayHost_supports landlockAware
  have parsed : parseSeccompExecArgs gatewayArgs = .ok gatewayOpts := by decide +kernel
  have allowed : LandlockAllowed landlockAware gatewayOpts.mode :=
    .inr (by decide +kernel)
  have known : NamesKnown gatewayLandlock.paths := by decide +kernel
  exact (service_confined_iff (gatewayHost landlockAware) supports parsed (by decide) rfl (by decide) rfl
    grants execs).mpr ⟨allowed, known⟩

/-- With an allowlist that does not have them, the gateway is exec'd without a ruleset. -/
theorem gateway_not_confined :
    SupportsLandlock (gatewayHost gatewaySeccomp).kernel ∧
      GrantsSomething (gatewayHost gatewaySeccomp).kernel gatewayLandlock ∧
      (seccompExec (gatewayHost gatewaySeccomp) gatewayArgs [] Thread.fresh).ended =
        .exec "/bin/su" ["/bin/su"] [] ∧
      ¬ ServiceConfined (gatewayHost gatewaySeccomp).kernel gatewaySeccomp gatewayOpts.mode gatewayLandlock
        (seccompExec (gatewayHost gatewaySeccomp) gatewayArgs [] Thread.fresh).thread := by
  have ends : (seccompExec (gatewayHost gatewaySeccomp) gatewayArgs [] Thread.fresh).summary =
      (.exec "/bin/su" ["/bin/su"] [], []) := by
    decide +kernel
  obtain ⟨supports, grants⟩ := gatewayHost_supports gatewaySeccomp
  obtain ⟨ended, domain⟩ := Prod.mk.inj ends
  refine ⟨supports, grants, ended, ?_⟩
  rintro ⟨-, ruleset, member, -⟩
  cases member

end NuraOS.Sandbox
