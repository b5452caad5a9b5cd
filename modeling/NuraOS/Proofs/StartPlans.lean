/-
Purpose: Which cycle is reported, what the start order depends on, what a started unit has waited for, and when
  the shutdown sequence goes in reverse order.
-/
import NuraOS.Lifecycle.Supervisor
import NuraOS.Proofs.StartOrder

namespace NuraOS.Services.Resolver

open Foundation.DependencyOrder
open Relation (TransGen)
open List

/-- The units that the cycle error of `Resolve` names. -/
def reportedPath (units : List ServiceUnit) : Option (List String) :=
  match buildIndex units fun _ => none with
  | .error _ => none
  | .ok byName =>
    searchPath byName units.length units { visited := fun _ => .unvisited, path := [] }

structure IsCycle (units : List ServiceUnit) (path : List String) : Prop where
  chain : path.IsChain (DependsOn units)
  closes : ∃ first last, path.head? = some first ∧ path.getLast? = some last ∧
    DependsOn units last first

def ReportsCycle (units : List ServiceUnit) : Prop :=
  ∀ text, resolve units = some (.error (.dependencyCycleDetected text)) →
    ∃ path, reportedPath units = some path ∧ text = " -> ".intercalate path ∧ path ≠ [] ∧
      IsCycle units path

/-- The first dependency of a unit, in the order of its After and Requires lists, from which a cycle can
be reached. -/
def FirstCyclic (units : List ServiceUnit) (name dep : String) : Prop :=
  ∃ u ∈ units, u.name = name ∧ ∃ before after, allDeps u = before ++ dep :: after ∧
    (∀ other ∈ before, ¬ ReachesCycle (DependsOn units) other) ∧
    ReachesCycle (DependsOn units) dep

def Way (units : List ServiceUnit) (path : List String) : Prop :=
  ∃ before u after, units = before ++ u :: after ∧
    (∀ v ∈ before, ¬ ReachesCycle (DependsOn units) v.name) ∧
    ReachesCycle (DependsOn units) u.name ∧ Lasso (FirstCyclic units) u.name path

/-! ### The report -/

section Report

variable {units : List ServiceUnit} {byName : Index}

variable {path : List String}

theorem Indexed.lasso (indexed : Indexed units byName) {first : String}
    (lasso : Lasso (Follows byName) first path) : Lasso (FirstCyclic units) first path := by
  have depends : Lasso (DependsOn units) first path := by
    apply lasso.imp
    rintro name dep - ⟨before, after, deps, -⟩
    rw [← indexed.mem_depsOf, deps]
    simp
  apply lasso.imp
  rintro name dep listed ⟨before, after, deps, passed⟩
  have isDep : dep ∈ depsOf byName name := by simp [deps]
  rcases indexed.mem_depsOf.mp isDep with ⟨u, member, rfl, -⟩
  rw [indexed.depsOf_name member] at deps
  simp only [Cyclic, indexed.relation] at passed
  exact ⟨u, member, rfl, before, after, deps, passed, depends.reachesCycle listed⟩

theorem FirstCyclic.dependsOn {name dep : String}
    (first : FirstCyclic units name dep) : DependsOn units name dep := by
  rcases first with ⟨u, member, named, before, after, deps, -⟩
  exact ⟨u, member, named, mem_allDeps.mp (by simp [deps])⟩

end Report

section Distinct

variable {units : List ServiceUnit} (distinct : (units.map ServiceUnit.name).Nodup)

include distinct

theorem FirstCyclic.functional (name dep other : String) (one : FirstCyclic units name dep)
    (two : FirstCyclic units name other) : dep = other := by
  rcases one with ⟨u, member, rfl, before, after, deps, passed, reaches⟩
  rcases two with ⟨v, listed, named, more, rest, others, notMore, reachesOther⟩
  have same : v = u := inj_on_of_nodup_map distinct listed member named
  subst same
  exact first_unique _ (deps.symm.trans others) reaches reachesOther passed notMore

theorem Way.unique {path other : List String} (one : Way units path) (two : Way units other) :
    path = other := by
  rcases one with ⟨before, u, after, split, passed, reaches, lasso⟩
  rcases two with ⟨more, v, rest, again, notMore, reachesOther, otherLasso⟩
  have same : u = v :=
    first_unique (fun w => ReachesCycle (DependsOn units) w.name) (split.symm.trans again)
      reaches reachesOther passed notMore
  subst same
  exact lasso.unique otherLasso (FirstCyclic.functional distinct)

variable (known : ∀ u ∈ units, ∀ dep, dep ∈ u.after ∨ dep ∈ u.requires → ∃ v ∈ units, v.name = dep)

include known

/-- With a cycle among units of distinct names and known dependencies, the search ends on a way into it, and `Resolve`
fails with its text; without one it does not report anything. -/
theorem reportedPath_cases :
    (∃ path, Way units path ∧ reportedPath units = some path ∧
      resolve units = some (.error (.dependencyCycleDetected (" -> ".intercalate path)))) ∨
    (Acyclic (DependsOn units) ∧ reportedPath units = none) := by
  rcases buildIndex_of_nodup distinct with ⟨byName, built⟩
  have indexed := buildIndex_ok built
  have valid := indexed.validateDeps_iff.mpr known
  rcases searchUnits_spec (indexed.known valid) (length_map _).le (fun u => mem_map_of_mem) initial_clear rfl with
    ⟨before, u, after, path, split, passed, lasso, found, text⟩ | ⟨noCycle, found, -⟩
  · have way := indexed.lasso lasso
    have depends : Lasso (DependsOn units) u.name path := way.imp fun _ _ _ => FirstCyclic.dependsOn
    have starts := depends.reachesCycle (mem_of_head? way.starts)
    have cyclic : ¬ Acyclic (DependsOn units) := fun acyclic => acyclic _ starts.choose_spec.2
    rcases indexed.resolve_eq built valid with ⟨finished, -, -, -, fails⟩
    rcases fails cyclic with ⟨report, detects, failed⟩
    obtain rfl : report = " -> ".intercalate path := Option.some.inj (detects.symm.trans text)
    simp only [Cyclic, indexed.relation] at passed
    exact .inl ⟨path, ⟨before, u, after, split, passed, starts, way⟩,
      by simpa only [reportedPath, built] using found, failed⟩
  · simp only [Cyclic, indexed.relation] at noCycle
    refine .inr ⟨fun name cycle => ?_, by simpa only [reportedPath, built] using found⟩
    rcases TransGen.head'_iff.mp cycle with ⟨dep, ⟨u, member, rfl, -⟩, -⟩
    exact noCycle u member ⟨u.name, .refl, cycle⟩

/-- The cycle error names a dependency cycle exactly when the way from the first unit that reaches a
cycle, along the first dependencies that do, comes to its end at a unit that depends on that first
one. -/
theorem resolve_reports_cycle_iff :
    ReportsCycle units ↔
      ∀ path, Way units path → ∃ first last, path.head? = some first ∧ path.getLast? = some last ∧
        DependsOn units last first := by
  rcases reportedPath_cases distinct known with ⟨path, way, found, failed⟩ | ⟨acyclic, found⟩
  · constructor
    · intro reports other otherWay
      rcases reports _ failed with ⟨again, foundAgain, -, -, cycle⟩
      obtain rfl : path = again := Option.some.inj (found.symm.trans foundAgain)
      exact Way.unique distinct way otherWay ▸ cycle.closes
    · intro condition text failedWith
      have closes := condition path way
      rcases way with ⟨-, u, -, -, -, -, lasso⟩
      have same : text = " -> ".intercalate path := by
        simpa [failedWith] using failed
      have nonempty : path ≠ [] := by
        intro empty
        simpa [empty] using lasso.starts
      have chain : path.IsChain (DependsOn units) := lasso.follows.imp fun _ _ => FirstCyclic.dependsOn
      exact ⟨path, found, same, nonempty, chain, closes⟩
  · refine iff_of_true (fun text failed => ?_) fun path way => ?_
    · rcases (resolve_ok_iff units).2.1.mpr ⟨distinct, known, acyclic⟩ with ⟨plan, returns⟩
      simp [returns] at failed
    · rcases way with ⟨before, u, after, -, -, ⟨met, -, cycle⟩, -⟩
      exact (acyclic met cycle).elim

end Distinct

def eachOther : List ServiceUnit :=
  [.plain "a" ["b"] [], .plain "b" ["a"] []]

theorem eachOther_reports_iff :
    ReportsCycle eachOther ↔
      ∀ path, Way eachOther path → ∃ first last, path.head? = some first ∧
        path.getLast? = some last ∧ DependsOn eachOther last first :=
  resolve_reports_cycle_iff (by decide) (by simp [eachOther, ServiceUnit.plain])

def leadIn : List ServiceUnit :=
  [.plain "a" ["b"] [], .plain "b" ["b"] []]

/-- The report names the way into the cycle as well. -/
theorem leadIn_not_reported :
    resolve leadIn = some (.error (.dependencyCycleDetected "a -> b")) ∧
      reportedPath leadIn = some ["a", "b"] ∧ ¬ DependsOn leadIn "b" "a" ∧ ¬ ReportsCycle leadIn := by
  have failed : resolve leadIn = some (.error (.dependencyCycleDetected "a -> b")) := by
    decide +kernel
  have reported : reportedPath leadIn = some ["a", "b"] := by
    decide +kernel
  have independent : ¬ DependsOn leadIn "b" "a" := by
    simp [DependsOn, leadIn, ServiceUnit.plain]
  refine ⟨failed, reported, independent, ?_⟩
  intro reports
  rcases reports _ failed with ⟨path, found, -, -, cycle⟩
  rcases cycle.closes with ⟨first, last, starts, ends, depends⟩
  simp only [reported, Option.some.injEq] at found
  simp only [← found, head?_cons, Option.some.injEq] at starts
  simp only [← found, getLast?_cons_cons, getLast?_singleton, Option.some.injEq] at ends
  exact independent (starts ▸ ends ▸ depends)

/-! ### Determinism -/

open ServiceUnit

structure SameUnit (u v : ServiceUnit) : Prop where
  after : u.after.Perm v.after
  requires : u.requires.Perm v.requires
  others : { u with after := v.after, requires := v.requires } = v

def Rearranged (units others : List ServiceUnit) : Prop :=
  ∃ between, units.Perm between ∧ List.Forall₂ SameUnit between others

/-- The keys of the map `inDegree`, in some order. -/
structure RangesOver (keys : List String) (units : List ServiceUnit) : Prop where
  nodup : keys.Nodup
  mem : ∀ name, name ∈ keys ↔ name ∈ units.map ServiceUnit.name

structure Ready (units placed : List ServiceUnit) (u : ServiceUnit) : Prop where
  listed : u ∈ units
  waiting : u ∉ placed
  placed : ∀ dep, dep ∈ u.after ∨ dep ∈ u.requires → ∃ v ∈ placed, v.name = dep

def Plan.LeastReady (plan : Plan) (units : List ServiceUnit) : Prop :=
  ∀ before u after, plan.order = before ++ u :: after →
    Ready units before u ∧ ∀ v, Ready units before v → u.name ≤ v.name

variable {u v : ServiceUnit} {units : List ServiceUnit}

theorem SameUnit.name (same : SameUnit u v) : u.name = v.name :=
  (congrArg ServiceUnit.name same.others :)

theorem SameUnit.depends_iff (same : SameUnit u v) (dep : String) :
    (dep ∈ u.after ∨ dep ∈ u.requires) ↔ dep ∈ v.after ∨ dep ∈ v.requires := by
  rw [same.after.mem_iff, same.requires.mem_iff]

namespace Rearranged

variable {units others : List ServiceUnit}

theorem exists_right (rearranged : Rearranged units others) :
    ∀ u ∈ units, ∃ v ∈ others, SameUnit u v := by
  rcases rearranged with ⟨between, perm, same⟩
  intro u member
  have placed := perm.mem_iff.mp member
  clear perm
  induction same with
  | nil => simp at placed
  | cons head _ ih =>
    rcases mem_cons.mp placed with rfl | later
    · exact ⟨_, mem_cons_self, head⟩
    · rcases ih later with ⟨v, listed, same⟩
      exact ⟨v, mem_cons_of_mem _ listed, same⟩

theorem exists_left (rearranged : Rearranged units others) :
    ∀ v ∈ others, ∃ u ∈ units, SameUnit u v := by
  rcases rearranged with ⟨between, perm, same⟩
  intro v member
  have found : ∃ u ∈ between, SameUnit u v := by
    clear perm
    induction same with
    | nil => simp at member
    | cons head _ ih =>
      rcases mem_cons.mp member with rfl | later
      · exact ⟨_, mem_cons_self, head⟩
      · rcases ih later with ⟨u, listed, same⟩
        exact ⟨u, mem_cons_of_mem _ listed, same⟩
  rcases found with ⟨u, listed, same⟩
  exact ⟨u, perm.mem_iff.mpr listed, same⟩

theorem names (rearranged : Rearranged units others) :
    (units.map name).Perm (others.map name) := by
  rcases rearranged with ⟨between, perm, same⟩
  have named : List.Forall₂ (fun u v => u.name = v.name) between others :=
    same.imp fun _ _ same => same.name
  have equal : between.map name = others.map name := by
    simpa [← forall₂_eq_eq_eq] using named
  exact equal ▸ perm.map name

theorem dependsOn (rearranged : Rearranged units others) : DependsOn units = DependsOn others := by
  funext name dep
  apply propext
  constructor
  · rintro ⟨u, member, rfl, depends⟩
    rcases rearranged.exists_right u member with ⟨v, listed, same⟩
    exact ⟨v, listed, same.name.symm, (same.depends_iff dep).mp depends⟩
  · rintro ⟨v, member, rfl, depends⟩
    rcases rearranged.exists_left v member with ⟨u, listed, same⟩
    exact ⟨u, listed, same.name, (same.depends_iff dep).mpr depends⟩

theorem exists_name_iff (rearranged : Rearranged units others) (name : String) :
    (∃ v ∈ units, v.name = name) ↔ ∃ v ∈ others, v.name = name := by
  simpa using rearranged.names.mem_iff (a := name)

theorem resolvable_iff (rearranged : Rearranged units others) :
    Resolvable units ↔ Resolvable others := by
  constructor
  · intro resolvable
    refine ⟨rearranged.names.nodup_iff.mp resolvable.distinct, ?_,
      rearranged.dependsOn ▸ resolvable.acyclic⟩
    intro v member dep depends
    rcases rearranged.exists_left v member with ⟨u, listed, same⟩
    exact (rearranged.exists_name_iff dep).mp
      (resolvable.known u listed dep ((same.depends_iff dep).mpr depends))
  · intro resolvable
    refine ⟨rearranged.names.nodup_iff.mpr resolvable.distinct, ?_,
      rearranged.dependsOn ▸ resolvable.acyclic⟩
    intro u member dep depends
    rcases rearranged.exists_right u member with ⟨v, listed, same⟩
    exact (rearranged.exists_name_iff dep).mpr
      (resolvable.known v listed dep ((same.depends_iff dep).mp depends))

end Rearranged

theorem resolveOver_eq {keys : List String} (ranges : RangesOver keys units) :
    resolveOver keys units = resolve units := by
  cases built : buildIndex units fun _ => none with
  | error err => simp only [resolve, resolveOver, built]
  | ok byName =>
    have perm : keys.Perm (units.map name) :=
      (perm_ext_iff_of_nodup ranges.nodup (buildIndex_ok built).nodup).mpr ranges.mem
    have seeds := sortStrings_eq_of_perm
      (perm.filter fun name => (computeEdges units).inDegree name = 0)
    simp only [resolve, resolveOver, built, seeds]

theorem Resolvable.eq_of_name (resolvable : Resolvable units) (one : u ∈ units) (two : v ∈ units)
    (same : u.name = v.name) : u = v :=
  inj_on_of_nodup_map resolvable.distinct one two same

theorem Plan.Starts.leastReady {plan : Plan} (starts : plan.Starts units)
    (resolvable : Resolvable units)
    (least : LeastFirst (DependsOn units) (units.map name)
      (plan.order.map name)) : plan.LeastReady units := by
  intro before u after split
  have listed : ∀ v ∈ before ++ u :: after, v ∈ units := by
    intro v member
    exact starts.perm.mem_iff.mp (split ▸ member)
  have distinct : (before ++ u :: after).Nodup :=
    split ▸ (starts.perm.nodup_iff.mpr (List.Nodup.of_map _ resolvable.distinct))
  constructor
  · refine ⟨listed u (by simp), ?_, starts.earlier before u after split⟩
    intro old
    simp only [nodup_append, mem_cons] at distinct
    exact distinct.2.2 u old u (.inl rfl) rfl
  · intro v ready
    have names : plan.order.map name =
        before.map name ++ u.name :: after.map name := by
      simp [split]
    apply least _ _ _ names v.name (mem_map_of_mem ready.listed)
    · intro old
      rcases mem_map.mp old with ⟨w, placed, same⟩
      have equal := resolvable.eq_of_name (listed w (by simp [placed])) ready.listed same
      exact ready.waiting (equal ▸ placed)
    · rintro dep ⟨w, member, same, depends⟩
      have equal := resolvable.eq_of_name member ready.listed same
      rcases ready.placed dep (equal ▸ depends) with ⟨x, placed, rfl⟩
      exact mem_map_of_mem placed

theorem forall₂_of_names {Related : ServiceUnit → ServiceUnit → Prop}
    {first second : List ServiceUnit}
    (names : first.map name = second.map name)
    (related : ∀ u ∈ first, ∀ v ∈ second, u.name = v.name → Related u v) :
    List.Forall₂ Related first second := by
  induction first generalizing second with
  | nil =>
    cases second with
    | nil => exact .nil
    | cons v second => simp at names
  | cons u first ih =>
    cases second with
    | nil => simp at names
    | cons v second =>
      simp only [map_cons, List.cons.injEq] at names
      apply List.Forall₂.cons (related u mem_cons_self v mem_cons_self names.1)
      apply ih names.2
      intro w inFirst x inSecond
      exact related w (mem_cons_of_mem _ inFirst) x (mem_cons_of_mem _ inSecond)

/-- On two rearrangements of the same units, however the map is ranged over, `Resolve` fails both times
or returns the same units in the same order, at every step the ready unit with the least name. -/
theorem resolve_deterministic (units others : List ServiceUnit) (keys otherKeys : List String)
    (rearranged : Rearranged units others) (ranges : RangesOver keys units)
    (otherRanges : RangesOver otherKeys others) :
    ((∃ err, resolveOver keys units = some (.error err)) ∧
      ∃ err, resolveOver otherKeys others = some (.error err)) ∨
    ∃ plan other, resolveOver keys units = some (.ok plan) ∧
      resolveOver otherKeys others = some (.ok other) ∧
      List.Forall₂ SameUnit plan.order other.order ∧ (units.Perm others → plan = other) ∧
      plan.LeastReady units ∧ other.LeastReady others := by
  rw [resolveOver_eq ranges, resolveOver_eq otherRanges]
  rcases resolve_cases units with ⟨fails, error⟩ | ⟨resolvable, plan, returns, starts, ordered, least⟩
  · rcases resolve_cases others with ⟨-, otherError⟩ | ⟨otherResolvable, -⟩
    · exact .inl ⟨error, otherError⟩
    · exact absurd (rearranged.resolvable_iff.mpr otherResolvable) fails
  · rcases resolve_cases others with
      ⟨fails, -⟩ | ⟨otherResolvable, other, otherReturns, otherStarts, otherOrdered, otherLeast⟩
    · exact absurd (rearranged.resolvable_iff.mp resolvable) fails
    · have named : plan.order.map name = other.order.map name := by
        rw [← rearranged.dependsOn] at otherOrdered otherLeast
        have sameNames : LeastFirst (DependsOn units) (units.map name)
            (other.order.map name) := by
          intro before name after split next member
          exact otherLeast before name after split next (rearranged.names.mem_iff.mp member)
        exact least.unique sameNames ordered otherOrdered resolvable.distinct
          (starts.perm.map _) ((otherStarts.perm.map _).trans rearranged.names.symm)
      refine .inr ⟨plan, other, returns, otherReturns, ?_, ?_, starts.leastReady resolvable least,
        otherStarts.leastReady otherResolvable otherLeast⟩
      · apply forall₂_of_names named
        intro u inPlan v inOther same
        rcases rearranged.exists_right u (starts.perm.mem_iff.mp inPlan) with ⟨w, listed, alike⟩
        have equal := otherResolvable.eq_of_name listed (otherStarts.perm.mem_iff.mp inOther)
          (alike.name.symm.trans same)
        exact equal ▸ alike
      · intro perm
        have equal : List.Forall₂ Eq plan.order other.order := by
          apply forall₂_of_names named
          intro u inPlan v inOther same
          exact resolvable.eq_of_name (starts.perm.mem_iff.mp inPlan)
            (perm.mem_iff.mpr (otherStarts.perm.mem_iff.mp inOther)) same
        cases plan
        cases other
        simpa using equal

def threeUnits : List ServiceUnit :=
  [.plain "web" ["db", "cache"] [], .plain "db" [] [], .plain "cache" [] []]

def threeUnitsRearranged : List ServiceUnit :=
  [.plain "cache" [] [], .plain "web" ["cache", "db"] [], .plain "db" [] []]

theorem threeUnits_deterministic :
    ∃ plan other, resolveOver ["db", "web", "cache"] threeUnits = some (.ok plan) ∧
      resolveOver ["cache", "db", "web"] threeUnitsRearranged = some (.ok other) ∧
      List.Forall₂ SameUnit plan.order other.order ∧ plan.LeastReady threeUnits := by
  have rearranged : Rearranged threeUnits threeUnitsRearranged := by
    refine ⟨[.plain "cache" [] [], .plain "web" ["db", "cache"] [], .plain "db" [] []], ?_, ?_⟩
    · decide
    · refine .cons ?_ (.cons ?_ (.cons ?_ .nil))
      · exact ⟨.refl _, .refl _, rfl⟩
      · exact ⟨List.Perm.swap _ _ _, .refl _, rfl⟩
      · exact ⟨.refl _, .refl _, rfl⟩
  have ranges : RangesOver ["db", "web", "cache"] threeUnits := by
    refine ⟨by decide, ?_⟩
    simp [threeUnits, ServiceUnit.plain]
    tauto
  have otherRanges : RangesOver ["cache", "db", "web"] threeUnitsRearranged := by
    refine ⟨by decide, ?_⟩
    simp [threeUnitsRearranged, ServiceUnit.plain]
    tauto
  rcases resolve_deterministic threeUnits threeUnitsRearranged _ _ rearranged ranges otherRanges with
    ⟨⟨err, fails⟩, -⟩ | ⟨plan, other, returns, otherReturns, same, -, least, -⟩
  · have succeeds : ∃ plan, resolveOver ["db", "web", "cache"] threeUnits = some (.ok plan) :=
      ⟨{ order := [.plain "cache" [] [], .plain "db" [] [], .plain "web" ["db", "cache"] []] },
        by decide +kernel⟩
    rcases succeeds with ⟨plan, returns⟩
    simp [returns] at fails
  · exact ⟨plan, other, returns, otherReturns, same, least⟩

end NuraOS.Services.Resolver

namespace NuraOS.Lifecycle

open NuraOS.Services NuraOS.Services.Resolver List

theorem Probe.clock (probe : Probe) (round : Nat) :
    probe.start + 200 * round ≤ (probe.poll round).now := by
  induction round with
  | zero => simpa using probe.starts
  | succ round ih =>
    have slept := probe.sleeps round
    omega

theorem waitLoop_returns (type : ReadinessType) (deadline : Int) (probe : Probe) (fuel round : Nat)
    (enough : deadline ≤ probe.start + 200 * (round + fuel : Nat)) :
    ∃ ready, waitLoop type deadline probe fuel round = some ready := by
  induction fuel generalizing round with
  | zero =>
    unfold waitLoop
    have late : ¬ (probe.poll round).now < deadline := by
      have clock := probe.clock round
      omega
    rw [if_neg late]
    exact ⟨false, rfl⟩
  | succ fuel ih =>
    unfold waitLoop
    split
    · split
      · exact ⟨_, rfl⟩
      · split
        · exact ⟨false, rfl⟩
        · refine ih (round + 1) ?_
          rwa [Nat.add_right_comm, Nat.add_assoc]
    · exact ⟨false, rfl⟩

theorem waitReady_returns (u : ServiceUnit) (probe : Probe) :
    ∃ ready, waitReady u probe = some ready := by
  apply waitLoop_returns
  omega

def startEvent (u : ServiceUnit) : StartEvent :=
  if u.socketActivation.enabled then .socketActivated u.name else .launched u.name

def waitEvents (probes : String → Probe) (u : ServiceUnit) : List StartEvent :=
  if u.socketActivation.enabled = false ∧ u.requires ≠ [] then
    ((waitReady u (probes u.name)).map (StartEvent.waited u.name)).toList
  else
    []

theorem startPlan_cons (probes : String → Probe) (u : ServiceUnit) (plan : List ServiceUnit) :
    startPlan probes (u :: plan) =
      startEvent u :: (waitEvents probes u ++ startPlan probes plan) := by
  obtain ⟨ready, returns⟩ := waitReady_returns u (probes u.name)
  rw [startPlan]
  by_cases socket : u.socketActivation.enabled
  · simp [startEvent, waitEvents, socket]
  · by_cases requires : u.requires = []
    · simp [startEvent, waitEvents, socket, requires]
    · simp [startEvent, waitEvents, socket, requires, returns, length_pos_iff]

theorem startPlan_append (probes : String → Probe) (first second : List ServiceUnit) :
    startPlan probes (first ++ second) = startPlan probes first ++ startPlan probes second := by
  induction first with
  | nil => rfl
  | cons u first ih =>
    rw [cons_append, startPlan_cons, startPlan_cons, ih, cons_append,
      append_assoc]

variable {probes : String → Probe} {u v : ServiceUnit} {plan : List ServiceUnit}

theorem eq_waited_of_mem {event : StartEvent} (member : event ∈ waitEvents probes u) :
    (∃ ready, event = .waited u.name ready) ∧ u.requires ≠ [] := by
  unfold waitEvents at member
  split at member
  · rename_i gate
    rw [Option.mem_toList, Option.map_eq_some_iff] at member
    obtain ⟨ready, -, rfl⟩ := member
    exact ⟨⟨ready, rfl⟩, gate.2⟩
  · cases member

theorem startEvent_ne_waited (u : ServiceUnit) (name : String) (ready : Bool) :
    startEvent u ≠ .waited name ready := by
  unfold startEvent
  split <;> simp

theorem startEvent_inj (same : startEvent u = startEvent v) : u.name = v.name := by
  unfold startEvent at same
  split at same <;> split at same <;> simp_all

theorem startPlan_split {before after : List StartEvent}
    (split : startPlan probes plan = before ++ startEvent v :: after) :
    ∃ front u back, plan = front ++ u :: back ∧ startEvent u = startEvent v ∧
      before = startPlan probes front := by
  induction plan generalizing before with
  | nil => simp [startPlan] at split
  | cons u plan ih =>
    rw [startPlan_cons] at split
    cases before with
    | nil =>
      rw [nil_append, List.cons.injEq] at split
      exact ⟨[], u, plan, rfl, split.1, rfl⟩
    | cons first before =>
      rw [cons_append, List.cons.injEq] at split
      obtain ⟨rfl, rest⟩ := split
      suffices later : ∃ inner, before = waitEvents probes u ++ inner ∧
          startPlan probes plan = inner ++ startEvent v :: after by
        obtain ⟨inner, rfl, restEq⟩ := later
        obtain ⟨front, w, back, rfl, starts, rfl⟩ := ih restEq
        exact ⟨u :: front, w, back, rfl, starts, (startPlan_cons probes u front).symm⟩
      -- The start of `v` is no wait, so it comes after all that follows the start of `u`.
      rcases append_eq_append_iff.mp rest with ⟨inner, splits⟩ | ⟨inner, waits, restEq⟩
      · exact ⟨inner, splits⟩
      · cases inner with
        | nil => exact ⟨[], by simpa using waits.symm, by simpa using restEq.symm⟩
        | cons event inner =>
          rw [cons_append, List.cons.injEq] at restEq
          have member : startEvent v ∈ waitEvents probes u := by
            rw [waits, restEq.1]
            simp
          obtain ⟨⟨ready, isWait⟩, -⟩ := eq_waited_of_mem member
          exact absurd isWait (startEvent_ne_waited v u.name ready)

/-! ### Gating -/

/-- Whenever a unit is started, every unit it requires that is not socket-activated has been launched
before, and a wait for that unit's readiness has returned since. -/
def Gated (plan : List ServiceUnit) (trace : List StartEvent) : Prop :=
  ∀ v ∈ plan, ∀ before after, trace = before ++ startEvent v :: after →
    ∀ u ∈ plan, u.name ∈ v.requires → u.socketActivation.enabled = false →
      ∃ earlier since ready, before = earlier ++ .launched u.name :: since ∧
        .waited u.name ready ∈ since

theorem requires_of_waited {name : String}
    {ready : Bool} (member : .waited name ready ∈ startPlan probes plan) :
    ∃ u ∈ plan, u.name = name ∧ u.requires ≠ [] := by
  induction plan with
  | nil => simp [startPlan] at member
  | cons u plan ih =>
    rw [startPlan_cons, mem_cons, mem_append] at member
    rcases member with isStart | waits | later
    · exact absurd isStart.symm (startEvent_ne_waited u name ready)
    · obtain ⟨⟨_, isWait⟩, requires⟩ := eq_waited_of_mem waits
      cases isWait
      exact ⟨u, mem_cons_self, rfl, requires⟩
    · obtain ⟨w, member, named⟩ := ih later
      exact ⟨w, mem_cons_of_mem u member, named⟩

theorem waited_of_mem
    (member : u ∈ plan) (plain : u.socketActivation.enabled = false) (requires : u.requires ≠ []) :
    ∃ earlier since ready, startPlan probes plan = earlier ++ .launched u.name :: since ∧
      .waited u.name ready ∈ since := by
  obtain ⟨front, back, rfl⟩ := append_of_mem member
  obtain ⟨ready, returns⟩ := waitReady_returns u (probes u.name)
  refine ⟨startPlan probes front, waitEvents probes u ++ startPlan probes back, ready, ?_, ?_⟩
  · rw [startPlan_append, startPlan_cons]
    simp [startEvent, plain]
  · simp [waitEvents, plain, requires, returns]

/-- The units of a plan are gated, whatever the probes do, exactly when every unit that is required and
not socket-activated itself requires something. -/
theorem startPlan_gated_iff {units : List ServiceUnit} {plan : Plan}
    (resolved : resolve units = some (.ok plan)) (probes : String → Probe) :
    Gated plan.order (startPlan probes plan.order) ↔
      ∀ v ∈ plan.order, ∀ u ∈ plan.order, u.name ∈ v.requires →
        u.socketActivation.enabled = false → u.requires ≠ [] := by
  obtain ⟨resolvable, starts⟩ := resolve_plan resolved
  have sameUnit : ∀ u ∈ plan.order, ∀ w ∈ plan.order, u.name = w.name → u = w := by
    have distinct := (starts.perm.map ServiceUnit.name).nodup_iff.mpr resolvable.distinct
    exact fun u first w second => inj_on_of_nodup_map distinct first second
  constructor
  · intro gated v inPlan u required isRequired plain
    obtain ⟨front, back, order⟩ := append_of_mem inPlan
    have split : startPlan probes plan.order = startPlan probes front ++
        startEvent v :: (waitEvents probes v ++ startPlan probes back) := by
      rw [order, startPlan_append, startPlan_cons]
    obtain ⟨earlier, since, ready, before, waited⟩ :=
      gated v inPlan _ _ split u required isRequired plain
    have member : .waited u.name ready ∈ startPlan probes front := by
      rw [before]
      simp [waited]
    obtain ⟨w, inFront, named, requires⟩ := requires_of_waited member
    have inOrder : w ∈ plan.order := by
      rw [order]
      exact mem_append_left _ inFront
    rwa [← sameUnit w inOrder u required named]
  · intro allRequire v inPlan before after split u required isRequired plain
    obtain ⟨front, w, back, order, starts_, beforeEq⟩ := startPlan_split split
    have inOrder : w ∈ plan.order := by simp [order]
    have same : w = v := sameUnit w inOrder v inPlan (startEvent_inj starts_)
    subst same
    obtain ⟨x, inFront, named⟩ := starts.earlier front w back order u.name (.inr isRequired)
    have inOrder : x ∈ plan.order := by
      rw [order]
      exact mem_append_left _ inFront
    have same : x = u := sameUnit x inOrder u required named
    subst same
    rw [beforeEq]
    exact waited_of_mem inFront plain (allRequire w inPlan x required isRequired plain)

def promptProbe : Probe where
  start := 0
  poll round :=
    { now := 200 * round, httpStatus := none, dials := false, state := some .running,
      cancelled := false }
  starts := by simp
  sleeps round := by
    push_cast
    omega

/-- A unit behind a socket, one that requires it, and one that requires that. -/
def socketChain : List ServiceUnit :=
  [{ ServiceUnit.plain "cache" [] [] with socketActivation := { enabled := true } },
    ServiceUnit.plain "engine" [] ["cache"], ServiceUnit.plain "gateway" [] ["engine"]]

theorem socketChain_gated :
    resolve socketChain = some (.ok { order := socketChain }) ∧
      Gated socketChain (startPlan (fun _ => promptProbe) socketChain) := by
  have resolved : resolve socketChain = some (.ok { order := socketChain }) := by decide
  refine ⟨resolved, (startPlan_gated_iff resolved fun _ => promptProbe).mpr ?_⟩
  decide

def bareRequirement : List ServiceUnit :=
  [ServiceUnit.plain "engine" [] [], ServiceUnit.plain "gateway" [] ["engine"]]

/-- The gateway is launched right after the engine, which nobody waits for. -/
theorem bareRequirement_not_gated :
    resolve bareRequirement = some (.ok { order := bareRequirement }) ∧
      startPlan (fun _ => promptProbe) bareRequirement =
        [.launched "engine", .launched "gateway", .waited "gateway" true] ∧
      ¬ Gated bareRequirement (startPlan (fun _ => promptProbe) bareRequirement) := by
  have trace : startPlan (fun _ => promptProbe) bareRequirement =
      [.launched "engine", .launched "gateway", .waited "gateway" true] := by decide
  refine ⟨by decide, trace, fun gated => ?_⟩
  obtain ⟨earlier, since, ready, before, waited⟩ :=
    gated (ServiceUnit.plain "gateway" [] ["engine"]) (by decide) [.launched "engine"]
      [.waited "gateway" true] (by decide) (ServiceUnit.plain "engine" [] []) (by decide) (by decide)
      (by decide)
  have member : StartEvent.waited "engine" ready ∈ [StartEvent.launched "engine"] := by
    rw [before]
    exact mem_append_right _ (mem_cons_of_mem _ waited)
  simp at member

/-! ### Shutdown -/

open Foundation.Machine

variable {plan : List ServiceUnit}

variable {state next : Shutdown} {action : Action}

/-- After the `cancel()` no unit comes up that was not up. -/
theorem Shutdown.step_stopping (stopping : state.phase ≠ .serving)
    (steps : state.step plan action = some next) :
    next.phase ≠ .serving ∧ ∀ name, next.Up name → state.Up name := by
  cases action with
  | begin name | cancelRoot =>
    simp only [step] at steps
    cases steps
  | fork name =>
    simp only [step] at steps
    split at steps
    · rename_i starting
      cases steps
      refine ⟨stopping, fun other up => ?_⟩
      by_cases same : other = name
      · exact .inr (same ▸ starting)
      · simpa [Up, same] using up
    · cases steps
  | exit name =>
    cases steps
    refine ⟨stopping, fun other up => ?_⟩
    by_cases same : other = name
    · subst same
      simpa [Up] using up.imp_left (by simp)
    · simpa [Up, same] using up
  | record name =>
    cases steps
    exact ⟨stopping, fun _ => id⟩
  | contextKill | pass | terminate | waited | kill | release =>
    simp only [step] at steps
    repeat' split at steps
    all_goals cases steps
    all_goals exact ⟨by simp_all, fun _ => id⟩

theorem Shutdown.inOrder_of_atMostOneUp (one : state.AtMostOneUp plan) (action : Action) :
    state.InOrder plan action := by
  rintro front u back rfl reaches w later
  have single := (pairwise_cons.mp (pairwise_append.mp one).2.1).1 w later
  left
  by_contra running
  exact single ⟨.inl reaches.1, .inl (by simpa using running)⟩

theorem Shutdown.throughout_of_atMostOneUp (stopping : state.phase ≠ .serving)
    (one : state.AtMostOneUp plan) (actions : List Action) :
    Throughout (Shutdown.step plan) (Shutdown.InOrder plan) state actions := by
  induction actions generalizing state with
  | nil => trivial
  | cons action actions ih =>
    refine ⟨inOrder_of_atMostOneUp one action, fun next steps => ?_⟩
    obtain ⟨still, fewer⟩ := step_stopping stopping steps
    exact ih still (one.imp fun single both => single ⟨fewer _ both.1, fewer _ both.2⟩)

/-- A unit that is up can be brought to a running process, and nothing else is ended by that. -/
theorem Shutdown.exists_live (plan : List ServiceUnit) {name : String} (up : state.Up name) :
    ∃ actions next, run (Shutdown.step plan) state actions = some next ∧ next.phase = state.phase ∧
      next.killed = state.killed ∧ next.live name = true ∧
      (∀ other, state.live other = true → next.live other = true) ∧
      ∀ other, state.Up other → next.Up other := by
  rcases up with live | starting
  · exact ⟨[], state, rfl, rfl, rfl, live, fun _ => id, fun _ => id⟩
  refine ⟨[.fork name], { state with live := Function.update state.live name true
                                     starting := Function.update state.starting name false },
    by simp [run, step, starting], rfl, rfl, by simp, fun other live => ?_, fun other up => ?_⟩ <;>
    by_cases same : other = name
  · simp [same]
  · simpa [same] using live
  · exact .inl (by simp [same])
  · simpa [Up, same] using up

/-- Whatever the processes do, the manager ends them in order exactly when at most one unit of the plan
is up at the moment it cancels the root context. -/
theorem shutdown_ordered_iff (plan : List ServiceUnit) (live starting command : String → Bool) :
    (∀ actions last,
      run (Shutdown.step plan) (.serving live starting command) (.cancelRoot :: actions) = some last →
      Throughout (Shutdown.step plan) (Shutdown.InOrder plan) (.serving live starting command)
        (.cancelRoot :: actions)) ↔
      (Shutdown.serving live starting command).AtMostOneUp plan := by
  constructor
  · intro ordered
    by_contra several
    -- two units are up: the context of the earlier one ends it when both have a process
    obtain ⟨u, w, both, uUp, wUp⟩ : ∃ u w : ServiceUnit, [u, w] <+ plan ∧
        (Shutdown.serving live starting command).Up u.name ∧
        (Shutdown.serving live starting command).Up w.name := by
      simpa [Shutdown.AtMostOneUp, pairwise_iff_forall_sublist] using several
    let stopped : Shutdown := { Shutdown.serving live starting command with
      phase := .stopping plan.reverse }
    obtain ⟨first, one, firstRuns, onePhase, oneKilled, uLive, -, stillUp⟩ :=
      Shutdown.exists_live plan (show stopped.Up u.name from uUp)
    obtain ⟨second, two, secondRuns, twoPhase, twoKilled, wLive, stillLive, -⟩ :=
      Shutdown.exists_live plan (stillUp _ wUp)
    have runs : run (Shutdown.step plan) stopped (first ++ second) = some two :=
      run_append_eq_some.mpr ⟨one, firstRuns, secondRuns⟩
    have kills : two.step plan (.contextKill u.name) = some two := by
      simp [Shutdown.step, twoPhase, onePhase, stopped, stillLive _ uLive]
    have after := (ordered ((first ++ second) ++ [.contextKill u.name]) two (run_cons_eq_some.mpr
      ⟨stopped, rfl, run_append_eq_some.mpr ⟨two, runs, by simp [run, kills]⟩⟩)).2 stopped rfl
    have inOrder := (throughout_append after runs).2.1
    obtain ⟨front, back, rfl, uIn, wIn⟩ := cons_sublist_iff.mp both
    obtain ⟨earlier, between, rfl⟩ := append_of_mem uIn
    rcases inOrder earlier u (between ++ back) (by simp) ⟨stillLive _ uLive, rfl⟩ w
      (mem_append_right _ (singleton_sublist.mp wIn)) with exited | killed
    · rw [wLive] at exited
      cases exited
    · rw [twoKilled, oneKilled] at killed
      cases killed
  · intro one actions last runs
    refine ⟨Shutdown.inOrder_of_atMostOneUp one _, fun next steps => ?_⟩
    cases steps
    exact Shutdown.throughout_of_atMostOneUp (by simp) (by exact one) actions

def twoUnits : List ServiceUnit :=
  [ServiceUnit.plain "engine" [] [], ServiceUnit.plain "gateway" [] ["engine"]]

/-- Only the engine is running: it is cancelled, then stopped. -/
theorem engine_alone_ordered :
    Throughout (Shutdown.step twoUnits) (Shutdown.InOrder twoUnits)
      (.serving (· = "engine") (fun _ => false) (· = "engine"))
      [.cancelRoot, .pass, .terminate, .exit "engine", .waited, .release] :=
  (shutdown_ordered_iff twoUnits (· = "engine") (fun _ => false) (· = "engine")).mpr
    (by simp [Shutdown.AtMostOneUp, Shutdown.Up, Shutdown.serving, twoUnits, ServiceUnit.plain]) _ _ rfl

/-- With both units running, `cancel()` ends the process of the engine while the gateway runs. -/
theorem both_running_not_ordered :
    (run (Shutdown.step twoUnits) (.serving (fun _ => true) (fun _ => false) fun _ => true)
        [.cancelRoot]).isSome ∧
      ¬ Throughout (Shutdown.step twoUnits) (Shutdown.InOrder twoUnits)
        (.serving (fun _ => true) (fun _ => false) fun _ => true) [.cancelRoot] := by
  refine ⟨rfl, fun ordered => ?_⟩
  rcases ordered.1 [] _ _ rfl ⟨rfl, trivial⟩ _ mem_cons_self with exited | killed
  · cases exited
  · cases killed

end NuraOS.Lifecycle
