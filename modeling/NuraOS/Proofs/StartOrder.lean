/-
Purpose: What the search of `detectCycle` finds, the resolver's plan, and when there is one.
-/
import NuraOS.Foundation.DependencyOrder
import NuraOS.Services.Resolver

namespace NuraOS.Services.Resolver

open Foundation.DependencyOrder List

def depsOf (byName : Index) (name : String) : List String :=
  ((byName name).map allDeps).getD []

/-- The path that the outer loop of `detectCycle` ends with; nothing when there is no cycle. -/
def searchPath (byName : Index) (fuel : Nat) : List ServiceUnit → Search → Option (List String)
  | [], _ => none
  | u :: units, search =>
    match search.visited u.name with
    | .unvisited =>
      match dfs byName fuel u.name search with
      | none => none
      | some (true, search) => some search.path
      | some (false, search) => searchPath byName fuel units search
    | _ => searchPath byName fuel units search

variable (byName : Index)

abbrev Cyclic (name : String) : Prop :=
  ReachesCycle (fun name dep => dep ∈ depsOf byName name) name

def Follows (name dep : String) : Prop :=
  ∃ before after, depsOf byName name = before ++ dep :: after ∧ ∀ other ∈ before, ¬ Cyclic byName other

/-- What holds of the search while it has found nothing: the names in the stack are those of the path,
which follows dependencies, and no name that is done reaches a cycle. -/
structure Search.Clear (search : Search) : Prop where
  stack : ∀ name, search.visited name = .inStack ↔ name ∈ search.path
  done : ∀ name, search.visited name = .done → ¬ Cyclic byName name
  nodup : search.path.Nodup
  chain : search.path.IsChain (Follows byName)

/-- The outcome of a search that started with that path and looked at those names: it leaves the path as
it was and none of them reaches a cycle, or it has found something further along. -/
def Explored (path : List String) (names : List String) (grown : List String) : Bool × Search → Prop
  | (false, after) => after.Clear byName ∧ after.path = path ∧ ∀ name ∈ names, ¬ Cyclic byName name
  | (true, after) => (∃ first, Lasso (Follows byName) first after.path) ∧ grown <+: after.path

/-- How the outer loop ends: at the first unit that reaches a cycle, if there is one. -/
def Searched (units : List ServiceUnit) (found : Option (List String)) (text : Option String) : Prop :=
  (∃ before u after path, units = before ++ u :: after ∧ (∀ v ∈ before, ¬ Cyclic byName v.name) ∧
    Lasso (Follows byName) u.name path ∧ found = some path ∧ text = some (" -> ".intercalate path)) ∨
  ((∀ u ∈ units, ¬ Cyclic byName u.name) ∧ found = none ∧ ∃ report, text = some report)

variable {byName} {name : String} {names path : List String} {search : Search} {fuel : Nat} {units : List ServiceUnit}

theorem visitDeps_spec (inner : String → Search → Option (Bool × Search)) (seen : List String) {deps : List String}
    (spec : ∀ dep ∈ deps, ∀ search : Search, search.path = path ++ [name] → search.Clear byName →
      search.visited dep = .unvisited → (search.path ++ [dep]).IsChain (Follows byName) →
      ∃ outcome, inner dep search = some outcome ∧ Explored byName search.path [dep] (search.path ++ [dep]) outcome)
    (all : depsOf byName name = seen ++ deps) (passed : ∀ dep ∈ seen, ¬ Cyclic byName dep)
    (clear : search.Clear byName) (here : search.path = path ++ [name]) :
    ∃ outcome, visitDeps inner deps search = some outcome ∧ Explored byName search.path deps search.path outcome := by
  induction deps generalizing seen search with
  | nil => exact ⟨_, rfl, clear, rfl, by simp⟩
  | cons dep deps ih =>
    have follows : Follows byName name dep := ⟨seen, deps, all, passed⟩
    obtain ⟨specDep, spec⟩ := forall_mem_cons.mp spec
    -- Once the dependency is known to reach no cycle, the loop goes on.
    have goesOn {next : Search} (nextClear : next.Clear byName) (samePath : next.path = search.path)
        (noCycle : ¬ Cyclic byName dep) : ∃ outcome, visitDeps inner deps next = some outcome ∧
          Explored byName search.path (dep :: deps) search.path outcome := by
      obtain ⟨⟨found, after⟩, visits, explored⟩ := ih (seen ++ [dep]) spec (by simp [all])
        (by simpa [or_imp, forall_and] using ⟨passed, noCycle⟩) nextClear (samePath.trans here)
      rw [samePath] at explored
      refine ⟨_, visits, ?_⟩
      cases found with
      | true => exact explored
      | false => exact ⟨explored.1, explored.2.1, forall_mem_cons.mpr ⟨noCycle, explored.2.2⟩⟩
    unfold visitDeps
    cases mark : search.visited dep with
    | inStack =>
      obtain ⟨first, starts⟩ : ∃ first, search.path.head? = some first := by
        cases path <;> simp [here]
      have back : dep ∈ search.path := (clear.stack dep).mp mark
      exact ⟨_, rfl, ⟨first, starts, clear.chain, clear.nodup, name, dep, by simp [here], follows, back⟩,
        List.prefix_rfl⟩
    | done => exact goesOn clear rfl (clear.done dep mark)
    | unvisited =>
      have chain : (search.path ++ [dep]).IsChain (Follows byName) := by
        apply clear.chain.append (isChain_singleton dep)
        simp [here, follows]
      obtain ⟨⟨found, after⟩, call, explored⟩ := specDep search here clear mark chain
      simp only [call]
      cases found with
      | true => exact ⟨_, rfl, explored.1, (List.prefix_append _ _).trans explored.2⟩
      | false => exact goesOn explored.1 explored.2.1 (explored.2.2 dep (by simp))

theorem Search.Clear.enter (clear : search.Clear byName) (fresh : search.visited name = .unvisited)
    (chain : (search.path ++ [name]).IsChain (Follows byName)) :
    Search.Clear byName
      { visited := Function.update search.visited name .inStack, path := search.path ++ [name] } := by
  have new : name ∉ search.path := by
    intro old
    have mark := (clear.stack name).mpr old
    simp [fresh] at mark
  refine ⟨?_, ?_, ?_, chain⟩
  · intro other
    by_cases same : other = name
    · simp [same]
    · simpa [same] using clear.stack other
  · intro other mark
    by_cases same : other = name
    · simp [same] at mark
    · exact clear.done other (by simpa [same] using mark)
  · simpa [nodup_append] using ⟨clear.nodup, fun other old => ne_of_mem_of_not_mem old new⟩

theorem Search.Clear.leave (clear : search.Clear byName) (here : search.path = path ++ [name])
    (noCycle : ¬ Cyclic byName name) :
    Search.Clear byName
      { visited := Function.update search.visited name .done, path := search.path.dropLast } := by
  have distinct := clear.nodup
  have stack := clear.stack
  have chain := clear.chain
  simp only [here, nodup_append, mem_singleton, mem_append] at distinct stack chain
  have new : name ∉ path := fun old => distinct.2.2 name old name rfl rfl
  refine ⟨?_, ?_, by simp [here, distinct.1], by simpa [here] using chain.left_of_append⟩
  · intro other
    by_cases same : other = name
    · simp [same, here, new]
    · simpa [same, here] using stack other
  · intro other mark
    by_cases same : other = name
    · exact same ▸ noCycle
    · exact clear.done other (by simpa [same] using mark)

theorem Searched.cons {u : ServiceUnit} {found : Option (List String)} {text : Option String}
    (searched : Searched byName units found text) (noCycle : ¬ Cyclic byName u.name) :
    Searched byName (u :: units) found text := by
  rcases searched with ⟨before, v, after, path, rfl, passed, ended⟩ | ⟨passed, ended⟩
  · exact .inl ⟨u :: before, v, after, path, rfl, forall_mem_cons.mpr ⟨noCycle, passed⟩, ended⟩
  · exact .inr ⟨forall_mem_cons.mpr ⟨noCycle, passed⟩, ended⟩

section Known

variable (known : ∀ name dep, dep ∈ depsOf byName name → dep ∈ names)

include known

/-- The search from a name ends within its budget, since the names on its path are distinct; the name reaches no cycle,
or the search has come back to its path. -/
theorem dfs_spec (enough : names.length ≤ fuel + search.path.length)
    (inside : ∀ other ∈ search.path ++ [name], other ∈ names) (clear : search.Clear byName)
    (fresh : search.visited name = .unvisited) (chain : (search.path ++ [name]).IsChain (Follows byName)) :
    ∃ outcome, dfs byName fuel name search = some outcome ∧
      Explored byName search.path [name] (search.path ++ [name]) outcome := by
  induction fuel generalizing name search with
  | zero =>
    have short := ((clear.enter fresh chain).nodup.subperm inside).length_le
    rw [length_append, length_singleton] at short
    omega
  | succ fuel ih =>
    obtain ⟨⟨found, after⟩, visits, explored⟩ := visitDeps_spec (dfs byName fuel) []
      (fun dep depends search here => ih (by simp [here]; omega)
        (forall_mem_append.mpr ⟨here ▸ inside, by simpa using known name dep depends⟩))
      (nil_append (depsOf byName name)).symm (by simp) (clear.enter fresh chain) rfl
    unfold depsOf at visits
    unfold dfs
    simp only [visits]
    cases found with
    | true => exact ⟨_, rfl, explored⟩
    | false =>
      obtain ⟨clearAfter, here, deps⟩ := explored
      have noCycle : ¬ Cyclic byName name := by
        rw [Cyclic, reachesCycle_iff]
        rintro ⟨dep, depends, reaches⟩
        exact deps dep depends reaches
      exact ⟨_, rfl, clearAfter.leave here noCycle, by simp [here], by simpa using noCycle⟩

theorem searchUnits_spec (enough : names.length ≤ fuel) (listed : ∀ u ∈ units, u.name ∈ names)
    (clear : search.Clear byName) (empty : search.path = []) :
    Searched byName units (searchPath byName fuel units search) (searchUnits byName fuel units search) := by
  induction units generalizing search with
  | nil => exact .inr ⟨by simp, rfl, _, rfl⟩
  | cons u units ih =>
    obtain ⟨isName, listed⟩ := forall_mem_cons.mp listed
    simp only [searchUnits, searchPath]
    cases mark : search.visited u.name with
    | inStack => simpa [empty] using (clear.stack u.name).mp mark
    | done => exact (ih listed clear empty).cons (clear.done u.name mark)
    | unvisited =>
      obtain ⟨⟨found, after⟩, call, explored⟩ := dfs_spec known
        (enough.trans (Nat.le_add_right _ _)) (by simpa [empty] using isName) clear mark
        (by simp [empty])
      simp only [call]
      cases found with
      | true =>
        obtain ⟨⟨first, lasso⟩, rest, whole⟩ := explored
        have starts := lasso.starts
        rw [← whole, empty] at starts
        obtain rfl : u.name = first := by simpa using starts
        exact .inl ⟨[], u, units, _, rfl, by simp, lasso, rfl, rfl⟩
      | false => exact (ih listed explored.1 (explored.2.1.trans empty)).cons (explored.2.2 u.name (by simp))

end Known

theorem initial_clear : Search.Clear byName { visited := fun _ => .unvisited, path := [] } :=
  ⟨by simp, by simp, nodup_nil, isChain_nil⟩

def DependsOn (units : List ServiceUnit) (name dep : String) : Prop :=
  ∃ u ∈ units, u.name = name ∧ (dep ∈ u.after ∨ dep ∈ u.requires)

/-- The names are distinct, every dependency is a unit of the list, and no unit depends on itself
through others. -/
structure Resolvable (units : List ServiceUnit) : Prop where
  distinct : (units.map ServiceUnit.name).Nodup
  known : ∀ u ∈ units, ∀ dep, dep ∈ u.after ∨ dep ∈ u.requires → ∃ v ∈ units, v.name = dep
  acyclic : Acyclic (DependsOn units)

/-- The plan lists the same units, each after everything in its After and Requires. -/
structure Plan.Starts (plan : Plan) (units : List ServiceUnit) : Prop where
  perm : plan.order.Perm units
  earlier : ∀ before u after, plan.order = before ++ u :: after →
    ∀ dep, dep ∈ u.after ∨ dep ∈ u.requires → ∃ v ∈ before, v.name = dep

theorem dedup_spec (ds result : List String) (nodup : result.Nodup) :
    let merged := ds.foldl (fun result d => if d ∈ result then result else result ++ [d]) result
    merged.Nodup ∧ ∀ d, d ∈ merged ↔ d ∈ result ∨ d ∈ ds := by
  induction ds generalizing result with
  | nil => exact ⟨nodup, by simp⟩
  | cons head ds ih =>
    simp only [foldl_cons]
    split
    · have merged := ih result nodup
      grind
    · have merged := ih (result ++ [head]) (by grind)
      grind

theorem nodup_allDeps (u : ServiceUnit) : (allDeps u).Nodup :=
  (dedup_spec _ [] nodup_nil).1

@[simp] theorem mem_allDeps {u : ServiceUnit} {d : String} :
    d ∈ allDeps u ↔ d ∈ u.after ∨ d ∈ u.requires := by
  unfold allDeps
  rw [(dedup_spec _ [] nodup_nil).2, mem_append]
  simp

theorem insertKey_perm (sorted : List String) (key : String) :
    (insertKey sorted key).Perm (key :: sorted) := by
  refine perm_middle.trans (List.Perm.cons key ?_)
  rw [rdropWhile_append_rtakeWhile]

theorem sortStrings_perm (s : List String) : (sortStrings s).Perm s := by
  have fold : ∀ rest sorted : List String, (rest.foldl insertKey sorted).Perm (sorted ++ rest) := by
    intro rest
    induction rest with
    | nil => simp
    | cons key rest ih =>
      intro sorted
      refine (ih _).trans ?_
      refine ((insertKey_perm sorted key).append_right rest).trans ?_
      exact perm_middle.symm
  exact fold s []

theorem insertKey_sorted {sorted : List String} (key : String) (inOrder : sorted.Pairwise (· ≤ ·)) :
    (insertKey sorted key).Pairwise (· ≤ ·) := by
  -- Read from the right, it is the insertion into a descending list.
  have inserted : (insertKey sorted key).reverse = sorted.reverse.orderedInsert (· ≥ ·) key := by
    rw [orderedInsert_eq_take_drop]
    simp [insertKey, rdropWhile, rtakeWhile]
  rw [← reverse_reverse (insertKey sorted key), pairwise_reverse, inserted]
  exact Pairwise.orderedInsert key _ (pairwise_reverse.mpr inOrder)

theorem sortStrings_sorted (s : List String) : (sortStrings s).Pairwise (· ≤ ·) := by
  have fold : ∀ rest sorted : List String, sorted.Pairwise (· ≤ ·) →
      (rest.foldl insertKey sorted).Pairwise (· ≤ ·) := by
    intro rest
    induction rest with
    | nil => exact fun _ inOrder => inOrder
    | cons key rest ih =>
      exact fun sorted inOrder => ih _ (insertKey_sorted key inOrder)
  exact fold s [] List.Pairwise.nil

theorem sortStrings_eq_of_perm {first second : List String} (perm : first.Perm second) :
    sortStrings first = sortStrings second := by
  apply List.Perm.eq_of_pairwise' (sortStrings_sorted first) (sortStrings_sorted second)
  exact (sortStrings_perm first).trans (perm.trans (sortStrings_perm second).symm)

/-! ### The index and the edges -/

structure Indexed (units : List ServiceUnit) (byName : Index) : Prop where
  nodup : (units.map ServiceUnit.name).Nodup
  lookup : ∀ u ∈ units, byName u.name = some u
  absent : ∀ name, name ∉ units.map ServiceUnit.name → byName name = none

theorem buildIndex_spec (units : List ServiceUnit) (byName : Index) :
    match buildIndex units byName with
    | .ok index => (units.map ServiceUnit.name).Nodup ∧ (∀ u ∈ units, byName u.name = none) ∧
        (∀ u ∈ units, index u.name = some u) ∧
        ∀ name, name ∉ units.map ServiceUnit.name → index name = byName name
    | .error _ => ¬ ((units.map ServiceUnit.name).Nodup ∧ ∀ u ∈ units, byName u.name = none) := by
  induction units generalizing byName with
  | nil => simp [buildIndex]
  | cons u units ih =>
    unfold buildIndex
    by_cases taken : (byName u.name).isSome
    · rw [if_pos taken]
      rintro ⟨-, free⟩
      rw [free u mem_cons_self] at taken
      cases taken
    · rw [if_neg taken]
      have free : byName u.name = none := by simpa using taken
      have hypothesis := ih (Function.update byName u.name (some u))
      -- The name just entered is free in the rest exactly when it does not occur there again.
      have others : (∀ v ∈ units, Function.update byName u.name (some u) v.name = none) ↔
          u.name ∉ units.map ServiceUnit.name ∧ ∀ v ∈ units, byName v.name = none := by
        simp only [Function.update_apply, mem_map, not_exists, not_and, ← forall_and]
        refine forall_congr' fun v => ?_
        by_cases same : v.name = u.name <;> simp [same]
      split at hypothesis
      · obtain ⟨nodup, unset, lookup, absent⟩ := hypothesis
        obtain ⟨new, restFree⟩ := others.mp unset
        refine ⟨nodup_cons.mpr ⟨new, nodup⟩, ?_, ?_, ?_⟩
        · exact forall_mem_cons.mpr ⟨free, restFree⟩
        · refine forall_mem_cons.mpr ⟨?_, lookup⟩
          rw [absent _ new, Function.update_self]
        · intro name missing
          rw [map_cons, mem_cons, not_or] at missing
          rw [absent _ missing.2, Function.update_of_ne missing.1]
      · rintro ⟨nodup, unset⟩
        obtain ⟨new, nodup⟩ := nodup_cons.mp nodup
        exact hypothesis ⟨nodup, others.mpr ⟨new, fun v member =>
          unset v (mem_cons_of_mem u member)⟩⟩

variable {units : List ServiceUnit} {byName : Index} {names : List String}

theorem buildIndex_ok
    (built : buildIndex units (fun _ => none) = .ok byName) : Indexed units byName := by
  have spec := buildIndex_spec units fun _ => none
  rw [built] at spec
  exact ⟨spec.1, spec.2.2.1, spec.2.2.2⟩

theorem buildIndex_of_nodup (nodup : (units.map ServiceUnit.name).Nodup) :
    ∃ byName, buildIndex units (fun _ => none) = .ok byName := by
  have spec := buildIndex_spec units fun _ => none
  split at spec
  · rename_i byName built
    exact ⟨byName, built⟩
  · exact absurd ⟨nodup, fun _ _ => rfl⟩ spec

theorem validateDeps_ok_iff (byName : Index) (units : List ServiceUnit) :
    validateDeps byName units = .ok () ↔ ∀ u ∈ units, ∀ d ∈ allDeps u, (byName d).isSome := by
  induction units with
  | nil => simp [validateDeps]
  | cons u units ih =>
    unfold validateDeps
    rw [forall_mem_cons, ← ih]
    split
    · rename_i dep found
      have missing := find?_some found
      have listed := mem_of_find?_eq_some found
      grind [Option.isNone_iff_eq_none]
    · rename_i none
      have known := find?_eq_none.mp none
      grind [Option.isNone_iff_eq_none, Option.isSome_iff_ne_none]

theorem nodup_depsOf (byName : Index) (name : String) : (depsOf byName name).Nodup := by
  unfold depsOf
  cases byName name with
  | none => exact nodup_nil
  | some u => exact nodup_allDeps u

theorem foldl_add_spec (name : String) (ds : List String) (nodup : ds.Nodup) (edges : Edges) :
    (ds.foldl (Edges.add name) edges).inDegree =
        Function.update edges.inDegree name (edges.inDegree name + ds.length) ∧
      ∀ d, (ds.foldl (Edges.add name) edges).dependants d =
        edges.dependants d ++ if d ∈ ds then [name] else [] := by
  induction ds generalizing edges with
  | nil => simp
  | cons dep ds ih =>
    obtain ⟨new, nodup⟩ := nodup_cons.mp nodup
    obtain ⟨degrees, lists⟩ := ih nodup (edges.add name dep)
    rw [foldl_cons]
    constructor
    · rw [degrees]
      simp only [Edges.add, Function.update_self, Function.update_idem, length_cons]
      congr 1
      omega
    · intro d
      rw [lists]
      simp only [Edges.add, mem_cons]
      grind

structure Edges.Counts (edges : Edges) (deps : String → List String) : Prop where
  degree : ∀ name, edges.inDegree name = (deps name).length
  mem : ∀ name dep, name ∈ edges.dependants dep ↔ dep ∈ deps name
  nodup : ∀ dep, (edges.dependants dep).Nodup

theorem foldl_units_spec (units : List ServiceUnit) (nodup : (units.map ServiceUnit.name).Nodup)
    (edges : Edges) :
    let all := units.foldl (fun edges u => (allDeps u).foldl (Edges.add u.name) edges) edges
    (∀ u ∈ units, all.inDegree u.name = edges.inDegree u.name + (allDeps u).length) ∧
      (∀ name, name ∉ units.map ServiceUnit.name → all.inDegree name = edges.inDegree name) ∧
      ∀ d, all.dependants d =
        edges.dependants d ++ (units.filter fun u => d ∈ allDeps u).map ServiceUnit.name := by
  induction units generalizing edges with
  | nil => simp
  | cons u units ih =>
    obtain ⟨new, nodup⟩ := nodup_cons.mp nodup
    obtain ⟨degrees, lists⟩ := foldl_add_spec u.name (allDeps u) (nodup_allDeps u) edges
    obtain ⟨listed, absent, dependants⟩ :=
      ih nodup ((allDeps u).foldl (Edges.add u.name) edges)
    simp only [foldl_cons]
    refine ⟨?_, ?_, ?_⟩
    · rw [forall_mem_cons]
      constructor
      · rw [absent _ new, degrees, Function.update_self]
      · intro v member
        have distinct : v.name ≠ u.name := by
          intro same
          exact new (same ▸ mem_map_of_mem member)
        rw [listed v member, degrees, Function.update_of_ne distinct]
    · intro name missing
      rw [map_cons, mem_cons, not_or] at missing
      rw [absent _ missing.2, degrees, Function.update_of_ne missing.1]
    · intro d
      simp only [dependants, lists, append_assoc, filter_cons, decide_eq_true_eq]
      split <;> rfl

section Edges

variable {units : List ServiceUnit} {byName : Index} (indexed : Indexed units byName)

include indexed

theorem Indexed.depsOf_name {u : ServiceUnit} (member : u ∈ units) :
    depsOf byName u.name = allDeps u := by
  simp [depsOf, indexed.lookup u member]

variable {name : String}

theorem Indexed.depsOf_absent (absent : name ∉ units.map ServiceUnit.name) :
    depsOf byName name = [] := by
  simp [depsOf, indexed.absent name absent]

theorem Indexed.mem_depsOf {dep : String} :
    dep ∈ depsOf byName name ↔ DependsOn units name dep := by
  constructor
  · intro depends
    by_cases listed : name ∈ units.map ServiceUnit.name
    · obtain ⟨u, member, rfl⟩ := mem_map.mp listed
      rw [indexed.depsOf_name member, mem_allDeps] at depends
      exact ⟨u, member, rfl, depends⟩
    · rw [indexed.depsOf_absent listed] at depends
      cases depends
  · rintro ⟨u, member, rfl, depends⟩
    rw [indexed.depsOf_name member, mem_allDeps]
    exact depends

theorem Indexed.relation : (fun name dep => dep ∈ depsOf byName name) = DependsOn units := by
  funext name dep
  exact propext indexed.mem_depsOf

theorem Indexed.counts : (computeEdges units).Counts (depsOf byName) := by
  obtain ⟨listed, absent, dependants⟩ := foldl_units_spec units indexed.nodup
    { inDegree := fun _ => 0, dependants := fun _ => [] }
  refine ⟨?_, ?_, ?_⟩
  · intro name
    by_cases member : name ∈ units.map ServiceUnit.name
    · obtain ⟨u, inUnits, rfl⟩ := mem_map.mp member
      rw [indexed.depsOf_name inUnits]
      exact (listed u inUnits).trans (zero_add _)
    · rw [indexed.depsOf_absent member]
      exact absent name member
  · intro name dep
    unfold computeEdges
    rw [dependants, nil_append, indexed.mem_depsOf, mem_map]
    simp [DependsOn, and_assoc, and_comm]
  · intro dep
    unfold computeEdges
    rw [dependants, nil_append]
    exact indexed.nodup.sublist (filter_sublist.map ServiceUnit.name)

end Edges

/-! ### The loop over the queue -/

theorem foldl_release_spec (ds : List String) (nodup : ds.Nodup) (inDegree : String → Int)
    (queue : List String) :
    let released := ds.foldl release (inDegree, queue)
    (∀ name, released.1 name = inDegree name - if name ∈ ds then 1 else 0) ∧
      released.2.Perm (queue ++ ds.filter fun d => inDegree d = 1) := by
  induction ds generalizing inDegree queue with
  | nil => simp
  | cons d ds ih =>
    obtain ⟨new, nodup⟩ := nodup_cons.mp nodup
    let degrees := Function.update inDegree d (inDegree d - 1)
    -- The rest of the list does not hold `d`, so it sees the old degrees.
    have rest : ds.filter (fun d => degrees d = 1) = ds.filter (fun d => inDegree d = 1) := by
      refine filter_congr fun other member => ?_
      have distinct : other ≠ d := fun same => new (same ▸ member)
      simp only [degrees, Function.update_of_ne distinct]
    have counted : ∀ name, degrees name - (if name ∈ ds then 1 else 0) =
        inDegree name - if name ∈ d :: ds then 1 else 0 := by
      intro name
      by_cases same : name = d <;> simp_all [degrees]
    obtain ⟨longer, step, joins⟩ : ∃ longer, release (inDegree, queue) d = (degrees, longer) ∧
        longer.Perm (queue ++ [d].filter fun d => inDegree d = 1) := by
      by_cases last : inDegree d = 1
      · exact ⟨sortStrings (queue ++ [d]), by simp [release, degrees, last],
          by simpa [last] using sortStrings_perm (queue ++ [d])⟩
      · have positive : inDegree d - 1 ≠ 0 := by omega
        exact ⟨queue, by simp [release, degrees, positive], by simp [last]⟩
    obtain ⟨lowered, joined⟩ := ih nodup degrees longer
    simp only [foldl_cons, step]
    refine ⟨fun name => (lowered name).trans (counted name), joined.trans ?_⟩
    rw [rest, ← singleton_append (l := ds), filter_append, ← append_assoc]
    exact joins.append_right _

/-- What holds before each round: `done` has been taken from the queue, a name is done or queued
exactly when no dependency of it is left, and the degree counts the dependencies left. -/
structure Progress (deps : String → List String) (names done queue : List String)
    (inDegree : String → Int) : Prop where
  nodup : (done ++ queue).Nodup
  known : ∀ name ∈ done ++ queue, name ∈ names
  degree : ∀ name, inDegree name = (deps name).countP (· ∉ done)
  settled : ∀ name ∈ names, name ∈ done ++ queue ↔ inDegree name = 0
  ordered : Ordered (fun name dep => dep ∈ deps name) done

section Queue

variable {deps : String → List String} {names done queue : List String} {inDegree : String → Int}

variable {name : String} {edges : Edges}

theorem Progress.degree_eq_zero_iff (progress : Progress deps names done queue inDegree) :
    inDegree name = 0 ↔ ∀ dep ∈ deps name, dep ∈ done := by
  rw [progress.degree, Int.natCast_eq_zero, countP_eq_zero]
  simp

theorem Progress.ready (progress : Progress deps names done queue inDegree)
    (listed : name ∈ done ++ queue) : ∀ dep ∈ deps name, dep ∈ done :=
  progress.degree_eq_zero_iff.mp ((progress.settled name (progress.known name listed)).mp listed)

theorem countP_done_concat {ds : List String} (nodup : ds.Nodup) (new : name ∉ done) :
    (ds.countP (· ∉ done) : Int) - (if name ∈ ds then 1 else 0) = ds.countP (· ∉ done ++ [name]) := by
  induction ds with
  | nil => simp
  | cons d ds ih =>
    have rest := ih (nodup_cons.mp nodup).2
    grind

theorem Progress.step (counts : edges.Counts deps) (nodupDeps : ∀ name, (deps name).Nodup)
    (closed : ∀ name dep, dep ∈ deps name → name ∈ names)
    (progress : Progress deps names done (name :: queue) inDegree) :
    let released := (sortStrings (edges.dependants name)).foldl release (inDegree, queue)
    Progress deps names (done ++ [name]) released.2 released.1 := by
  have perm := sortStrings_perm (edges.dependants name)
  obtain ⟨lowered, joined⟩ :=
    foldl_release_spec _ (perm.nodup_iff.mpr (counts.nodup name)) inDegree queue
  intro released
  have dependant : ∀ other, other ∈ sortStrings (edges.dependants name) ↔ name ∈ deps other := by
    intro other
    rw [perm.mem_iff, counts.mem]
  have new : name ∉ done := by
    have := progress.nodup
    rw [nodup_append_comm, cons_append, nodup_cons] at this
    exact fun member => this.1 (mem_append_right queue member)
  have degree : ∀ other, released.1 other = (deps other).countP (· ∉ done ++ [name]) := by
    intro other
    rw [lowered, progress.degree, ← countP_done_concat (nodupDeps other) new]
    simp only [dependant]
  have members : ∀ other, other ∈ (done ++ [name]) ++ released.2 ↔
      other ∈ done ++ name :: queue ∨ name ∈ deps other ∧ inDegree other = 1 := by
    intro other
    have queued : other ∈ released.2 ↔ other ∈ queue ∨ name ∈ deps other ∧ inDegree other = 1 := by
      rw [joined.mem_iff, mem_append, mem_filter, dependant, decide_eq_true_eq]
    simp only [append_assoc, singleton_append, mem_append, mem_cons, queued,
      or_assoc]
  refine ⟨?_, ?_, degree, ?_, ?_⟩
  · have whole : ((done ++ [name]) ++ released.2).Perm ((done ++ name :: queue) ++
        (sortStrings (edges.dependants name)).filter fun d => inDegree d = 1) := by
      simpa using joined.append_left (done ++ [name])
    refine whole.nodup_iff.mpr (nodup_append'.mpr ⟨progress.nodup, ?_, ?_⟩)
    · exact (perm.nodup_iff.mpr (counts.nodup name)).filter _
    · intro other old joins
      have zero := (progress.settled other (progress.known other old)).mp old
      have one := (mem_filter.mp joins).2
      rw [decide_eq_true_eq, zero] at one
      cases one
  · intro other listed
    rcases (members other).mp listed with old | ⟨depends, -⟩
    · exact progress.known other old
    · exact closed other name depends
  · intro other isName
    have settled := progress.settled other isName
    rw [members, settled, lowered]
    simp only [dependant]
    by_cases depends : name ∈ deps other
    · -- `name` was left, so the degree was positive.
      have positive : 0 < (deps other).countP (· ∉ done) :=
        countP_pos_iff.mpr ⟨name, depends, by simpa using new⟩
      have degreeOther := progress.degree other
      rw [if_pos depends]
      constructor
      · rintro (zero | ⟨-, one⟩) <;> omega
      · intro zero
        exact .inr ⟨depends, by omega⟩
    · simp [depends]
  · exact progress.ordered.concat (progress.ready (by simp))

theorem foldl_release_sorted (ds : List String) (inDegree : String → Int) {queue : List String}
    (sorted : queue.Pairwise (· ≤ ·)) :
    (ds.foldl release (inDegree, queue)).2.Pairwise (· ≤ ·) := by
  induction ds generalizing inDegree queue with
  | nil => exact sorted
  | cons d ds ih =>
    simp only [foldl_cons, release]
    split
    · exact ih _ (sortStrings_sorted _)
    · exact ih _ sorted

theorem Progress.front_le (progress : Progress deps names done (name :: queue) inDegree)
    (sorted : (name :: queue).Pairwise (· ≤ ·)) {other : String} (isName : other ∈ names)
    (waiting : other ∉ done) (ready : ∀ dep, dep ∈ deps other → dep ∈ done) : name ≤ other := by
  have listed := (progress.settled other isName).mpr (progress.degree_eq_zero_iff.mpr ready)
  simp only [mem_append, waiting, false_or, mem_cons] at listed
  rcases listed with rfl | later
  · exact le_rfl
  · exact rel_of_pairwise_cons sorted later

/-- The loop ends within its budget, with nothing left in the queue, and has taken the least ready name
in each round. -/
theorem drainQueue_spec {byName : Index} (counts : edges.Counts deps)
    (nodupDeps : ∀ name, (deps name).Nodup) (closed : ∀ name dep, dep ∈ deps name → name ∈ names)
    {fuel : Nat} (budget : fuel + done.length = names.length)
    (progress : Progress deps names done queue inDegree) (sorted : queue.Pairwise (· ≤ ·))
    (least : LeastFirst (fun name dep => dep ∈ deps name) names done) :
    ∃ finished degrees, Progress deps names finished [] degrees ∧
      LeastFirst (fun name dep => dep ∈ deps name) names finished ∧
      drainQueue byName edges.dependants fuel inDegree queue (done.filterMap byName) =
        some (finished.filterMap byName) := by
  induction fuel generalizing done queue inDegree with
  | zero =>
    cases queue with
    | nil => exact ⟨done, inDegree, progress, least, rfl⟩
    | cons name queue =>
      have short := (progress.nodup.subperm progress.known).length_le
      rw [length_append, length_cons] at short
      omega
  | succ fuel ih =>
    cases queue with
    | nil => exact ⟨done, inDegree, progress, least, rfl⟩
    | cons name queue =>
      have stepped := progress.step counts nodupDeps closed
      have taken := least.concat fun other isName waiting ready =>
        progress.front_le sorted isName waiting ready
      obtain ⟨finished, degrees, ends, leastFirst, drains⟩ := ih
        (by rw [length_append, length_singleton]; omega) stepped
        (foldl_release_sorted _ _ (List.Pairwise.of_cons sorted)) taken
      refine ⟨finished, degrees, ends, leastFirst, ?_⟩
      rw [filterMap_append] at drains
      exact drains

theorem Progress.complete_iff (progress : Progress deps names done [] inDegree)
    (closed : ∀ name dep, dep ∈ deps name → name ∈ names)
    (known : ∀ name dep, dep ∈ deps name → dep ∈ names) :
    (∀ name ∈ names, name ∈ done) ↔ Acyclic (fun name dep => dep ∈ deps name) := by
  constructor
  · intro all
    exact progress.ordered.acyclic fun name dep depends => all name (closed name dep depends)
  · intro acyclic name listed
    by_contra undone
    obtain ⟨ready, isName, waiting, settled⟩ := acyclic.exists_ready known listed undone
    apply waiting
    simpa using (progress.settled ready isName).mpr (progress.degree_eq_zero_iff.mpr settled)

end Queue

/-! ### The resolver -/

section Resolve

variable {units : List ServiceUnit} {byName : Index} (indexed : Indexed units byName)

include indexed

theorem Indexed.progress :
    Progress (depsOf byName) (units.map ServiceUnit.name) []
      (sortStrings ((units.map ServiceUnit.name).filter
        fun name => (computeEdges units).inDegree name = 0))
      (computeEdges units).inDegree := by
  have perm := sortStrings_perm ((units.map ServiceUnit.name).filter
    fun name => (computeEdges units).inDegree name = 0)
  refine ⟨?_, ?_, ?_, ?_, Ordered.nil⟩
  · rw [nil_append, perm.nodup_iff]
    exact indexed.nodup.filter _
  · intro name listed
    rw [nil_append, perm.mem_iff] at listed
    exact (mem_filter.mp listed).1
  · intro name
    rw [indexed.counts.degree]
    simp
  · intro name isName
    rw [nil_append, perm.mem_iff, mem_filter, decide_eq_true_eq, and_iff_right isName]

theorem Indexed.known (valid : validateDeps byName units = .ok ())
    (name dep : String) (depends : dep ∈ depsOf byName name) : dep ∈ units.map ServiceUnit.name := by
  obtain ⟨u, member, rfl, -⟩ := indexed.mem_depsOf.mp depends
  rw [indexed.depsOf_name member] at depends
  have present := (validateDeps_ok_iff byName units).mp valid u member dep depends
  by_contra missing
  rw [indexed.absent dep missing] at present
  cases present

theorem Indexed.closed (name dep : String)
    (depends : dep ∈ depsOf byName name) : name ∈ units.map ServiceUnit.name := by
  obtain ⟨u, member, rfl, -⟩ := indexed.mem_depsOf.mp depends
  exact mem_map_of_mem member

theorem Indexed.filterMap_names : (units.map ServiceUnit.name).filterMap byName = units := by
  rw [filterMap_map]
  calc units.filterMap (byName ∘ ServiceUnit.name) = units.filterMap some :=
        filterMap_congr fun u member => indexed.lookup u member
    _ = units := filterMap_some

/-- What `Resolve` does once the index is built and the dependencies are valid: it computes an order
of names, and returns it when there is no cycle. -/
theorem Indexed.drains (valid : validateDeps byName units = .ok ()) :
    ∃ finished,
      drainQueue byName (computeEdges units).dependants units.length (computeEdges units).inDegree
          (sortStrings ((units.map ServiceUnit.name).filter
            fun name => (computeEdges units).inDegree name = 0)) [] =
        some (finished.filterMap byName) ∧
      Ordered (DependsOn units) finished ∧
      LeastFirst (DependsOn units) (units.map ServiceUnit.name) finished ∧
      ((finished.filterMap byName).length = units.length ↔ Acyclic (DependsOn units)) ∧
      (Acyclic (DependsOn units) → finished.Perm (units.map ServiceUnit.name)) := by
  obtain ⟨finished, degrees, ends, least, drains⟩ := drainQueue_spec indexed.counts
    (nodup_depsOf byName) indexed.closed (length_map _ : _ = units.length + 0).symm
    indexed.progress (sortStrings_sorted _) LeastFirst.nil
  have complete := ends.complete_iff indexed.closed (indexed.known valid)
  have ordered := ends.ordered
  rw [indexed.relation] at complete ordered least
  have nodup : finished.Nodup := by simpa using ends.nodup
  have listed : ∀ name ∈ finished, name ∈ units.map ServiceUnit.name := by
    simpa using ends.known
  have sub := nodup.subperm listed
  have permAll : (∀ name ∈ units.map ServiceUnit.name, name ∈ finished) →
      finished.Perm (units.map ServiceUnit.name) :=
    fun all => sub.antisymm (indexed.nodup.subperm all)
  have lengths : (finished.filterMap byName).length = finished.length := by
    rw [length_filterMap_eq_countP, countP_eq_length]
    intro name member
    obtain ⟨u, inUnits, rfl⟩ := mem_map.mp (listed name member)
    rw [indexed.lookup u inUnits]
    rfl
  refine ⟨finished, drains, ordered, least, ?_, fun acyclic => permAll (complete.mpr acyclic)⟩
  rw [lengths, ← complete]
  constructor
  · intro same name isName
    have perm := sub.perm_of_length_le (by rw [length_map, same])
    exact perm.mem_iff.mpr isName
  · intro all
    rw [(permAll all).length_eq, length_map]

theorem Indexed.resolve_eq (built : buildIndex units (fun _ => none) = .ok byName)
    (valid : validateDeps byName units = .ok ()) :
    ∃ finished, Ordered (DependsOn units) finished ∧
      LeastFirst (DependsOn units) (units.map ServiceUnit.name) finished ∧
      (Acyclic (DependsOn units) → finished.Perm (units.map ServiceUnit.name) ∧
        resolve units = some (.ok { order := finished.filterMap byName })) ∧
      (¬ Acyclic (DependsOn units) →
        ∃ cycle, detectCycle units byName = some cycle ∧
          resolve units = some (.error (.dependencyCycleDetected cycle))) := by
  obtain ⟨finished, drains, ordered, least, complete, perm⟩ := indexed.drains valid
  refine ⟨finished, ordered, least, fun acyclic => ⟨perm acyclic, ?_⟩, fun cyclic => ?_⟩
  · simp only [resolve, resolveOver, built, valid, drains]
    rw [if_neg (not_not.mpr (complete.mpr acyclic))]
  · obtain ⟨cycle, found⟩ : ∃ cycle, detectCycle units byName = some cycle := by
      rcases searchUnits_spec (indexed.known valid) (length_map _).le (fun u => mem_map_of_mem) initial_clear rfl with
        ⟨-, -, -, path, -, -, -, -, ends⟩ | ⟨-, -, ends⟩
      · exact ⟨_, ends⟩
      · exact ends
    refine ⟨cycle, found, ?_⟩
    simp only [resolve, resolveOver, built, valid, drains]
    rw [if_pos (mt complete.mp cyclic), found]
    rfl

theorem Indexed.validateDeps_iff :
    validateDeps byName units = .ok () ↔
      ∀ u ∈ units, ∀ dep, dep ∈ u.after ∨ dep ∈ u.requires → ∃ v ∈ units, v.name = dep := by
  rw [validateDeps_ok_iff]
  refine forall₂_congr fun u _ => forall_congr' fun dep => ?_
  rw [mem_allDeps]
  refine imp_congr_right fun _ => ⟨fun present => ?_, ?_⟩
  · by_contra missing
    rw [indexed.absent dep (by simpa using missing)] at present
    cases present
  · rintro ⟨v, member, rfl⟩
    rw [indexed.lookup v member]
    rfl

variable {finished : List String}

theorem Indexed.names_filterMap (perm : finished.Perm (units.map ServiceUnit.name)) :
    (finished.filterMap byName).map ServiceUnit.name = finished := by
  rw [map_filterMap]
  calc finished.filterMap (fun name => (byName name).map ServiceUnit.name)
      = finished.filterMap some := filterMap_congr fun name member => by
        obtain ⟨v, inUnits, rfl⟩ := mem_map.mp (perm.mem_iff.mp member)
        rw [indexed.lookup v inUnits, Option.map_some]
    _ = finished := filterMap_some

theorem Indexed.starts (ordered : Ordered (DependsOn units) finished)
    (perm : finished.Perm (units.map ServiceUnit.name)) :
    Plan.Starts { order := finished.filterMap byName } units := by
  have permUnits : (finished.filterMap byName).Perm units := by
    have mapped := perm.filterMap byName
    rwa [indexed.filterMap_names] at mapped
  refine ⟨permUnits, fun before u after split dep depends => ?_⟩
  have names := indexed.names_filterMap perm
  replace split : finished.filterMap byName = before ++ u :: after := split
  rw [split, map_append, map_cons] at names
  have inUnits : u ∈ units := by
    rw [← permUnits.mem_iff, split]
    simp
  have earlier := ordered _ _ _ names.symm dep ⟨u, inUnits, rfl, depends⟩
  simpa using earlier

end Resolve

/-- `Resolve` either fails on units that have no start order, or returns one in which the least ready
name always comes next. -/
theorem resolve_cases (units : List ServiceUnit) :
    (¬ Resolvable units ∧ ∃ err, resolve units = some (.error err)) ∨
      Resolvable units ∧ ∃ plan, resolve units = some (.ok plan) ∧ plan.Starts units ∧
        Ordered (DependsOn units) (plan.order.map ServiceUnit.name) ∧
        LeastFirst (DependsOn units) (units.map ServiceUnit.name)
          (plan.order.map ServiceUnit.name) := by
  cases built : buildIndex units fun _ => none with
  | error err =>
    refine .inl ⟨fun resolvable => ?_, err, by simp only [resolve, resolveOver, built]⟩
    obtain ⟨byName, builds⟩ := buildIndex_of_nodup resolvable.distinct
    rw [built] at builds
    cases builds
  | ok byName =>
    have indexed := buildIndex_ok built
    cases valid : validateDeps byName units with
    | error err =>
      refine .inl ⟨fun resolvable => ?_, err, by simp only [resolve, resolveOver, built, valid]⟩
      rw [indexed.validateDeps_iff.mpr resolvable.known] at valid
      cases valid
    | ok done =>
      obtain ⟨finished, ordered, least, succeeds, cycles⟩ := indexed.resolve_eq built valid
      by_cases acyclic : Acyclic (DependsOn units)
      · obtain ⟨perm, returns⟩ := succeeds acyclic
        refine .inr ⟨⟨indexed.nodup, indexed.validateDeps_iff.mp valid, acyclic⟩, _, returns,
          indexed.starts ordered perm, ?_⟩
        rw [indexed.names_filterMap perm]
        exact ⟨ordered, least⟩
      · obtain ⟨cycle, -, fails⟩ := cycles acyclic
        exact .inl ⟨fun resolvable => acyclic resolvable.acyclic, _, fails⟩

theorem resolve_plan {plan : Plan}
    (resolved : resolve units = some (.ok plan)) : Resolvable units ∧ plan.Starts units := by
  rcases resolve_cases units with ⟨-, err, fails⟩ | ⟨resolvable, other, returns, starts, -⟩
  · rw [fails] at resolved
    cases resolved
  · rw [returns] at resolved
    cases resolved
    exact ⟨resolvable, starts⟩

/-- `Resolve` always returns; it returns a plan exactly when the units have a start order, and the plan
then is one. -/
theorem resolve_ok_iff (units : List ServiceUnit) :
    (∃ outcome, resolve units = some outcome) ∧
    ((∃ plan, resolve units = some (.ok plan)) ↔ Resolvable units) ∧
    ∀ plan, resolve units = some (.ok plan) → plan.Starts units := by
  refine ⟨?_, ⟨fun ⟨_, resolved⟩ => (resolve_plan resolved).1, fun resolvable => ?_⟩,
    fun plan resolved => (resolve_plan resolved).2⟩
  · rcases resolve_cases units with ⟨-, err, fails⟩ | ⟨-, plan, returns, -⟩
    · exact ⟨_, fails⟩
    · exact ⟨_, returns⟩
  · rcases resolve_cases units with ⟨unresolvable, -⟩ | ⟨-, plan, returns, -⟩
    · exact absurd resolvable unresolvable
    · exact ⟨plan, returns⟩

end NuraOS.Services.Resolver
