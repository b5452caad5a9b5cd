/-
Purpose: Orders of a finite set of nodes in which dependencies come first.
-/
import Mathlib.Data.Fintype.Order

namespace Foundation.DependencyOrder

open Relation List

variable {Node : Type*} {DependsOn : Node → Node → Prop}

def Acyclic (DependsOn : Node → Node → Prop) : Prop :=
  ∀ node, ¬ TransGen DependsOn node node

def Ordered (DependsOn : Node → Node → Prop) (order : List Node) : Prop :=
  ∀ before node after, order = before ++ node :: after →
    ∀ dependency, DependsOn node dependency → dependency ∈ before

theorem Ordered.nil : Ordered DependsOn [] := by
  intro before node after split
  simp at split

variable {order : List Node} {node : Node}

theorem concat_eq_append_cons {before after : List Node} {other : Node}
    (split : order ++ [node] = before ++ other :: after) :
    (before = order ∧ other = node) ∨ ∃ front, order = before ++ other :: front := by
  rcases eq_nil_or_concat after with rfl | ⟨front, last, rfl⟩
  · rcases append_inj' split rfl with ⟨rfl, same⟩
    cases same
    exact .inl ⟨rfl, rfl⟩
  · rw [concat_eq_append, ← cons_append, ← append_assoc] at split
    exact .inr ⟨front, (append_inj' split rfl).1⟩

theorem Ordered.concat (ordered : Ordered DependsOn order)
    (ready : ∀ dependency, DependsOn node dependency → dependency ∈ order) :
    Ordered DependsOn (order ++ [node]) := by
  intro before other after split
  rcases concat_eq_append_cons split with ⟨rfl, rfl⟩ | ⟨front, inner⟩
  · exact ready
  · exact ordered before other front inner

section Least

/-- Each listed node is the least of the nodes that are ready when its turn comes. -/
def LeastFirst [LE Node] (DependsOn : Node → Node → Prop) (nodes order : List Node) : Prop :=
  ∀ before node after, order = before ++ node :: after → ∀ other ∈ nodes, other ∉ before →
    (∀ dependency, DependsOn other dependency → dependency ∈ before) → node ≤ other

variable {nodes : List Node}

theorem LeastFirst.nil [LE Node] : LeastFirst DependsOn nodes [] := by
  intro before node after split
  simp at split

theorem LeastFirst.concat [LE Node] {order : List Node} {node : Node}
    (leastFirst : LeastFirst DependsOn nodes order)
    (least : ∀ other ∈ nodes, other ∉ order →
      (∀ dependency, DependsOn other dependency → dependency ∈ order) → node ≤ other) :
    LeastFirst DependsOn nodes (order ++ [node]) := by
  intro before other after split
  rcases concat_eq_append_cons split with ⟨rfl, rfl⟩ | ⟨front, inner⟩
  · exact least
  · exact leastFirst before other front inner

/-- The nodes have at most one dependency order that takes the least ready node at each step. -/
theorem LeastFirst.unique [PartialOrder Node] {first second : List Node}
    (firstLeast : LeastFirst DependsOn nodes first) (secondLeast : LeastFirst DependsOn nodes second)
    (firstOrdered : Ordered DependsOn first) (secondOrdered : Ordered DependsOn second)
    (nodup : nodes.Nodup) (firstPerm : first.Perm nodes) (secondPerm : second.Perm nodes) :
    first = second := by
  -- Both go on in the same way from any common front.
  have agree : ∀ rest before more, first = before ++ rest → second = before ++ more → rest = more := by
    intro rest
    induction rest with
    | nil =>
      intro before more one two
      have lengths := (firstPerm.trans secondPerm.symm).length_eq
      simp only [one, two, append_nil, length_append] at lengths
      exact (eq_nil_of_length_eq_zero (by omega)).symm
    | cons node rest ih =>
      intro before more one two
      cases more with
      | nil =>
        have lengths := (firstPerm.trans secondPerm.symm).length_eq
        simp [one, two] at lengths
      | cons other more =>
        have fresh : ∀ {order tail : List Node} {next : Node}, order.Perm nodes →
            order = before ++ next :: tail → next ∈ nodes ∧ next ∉ before := by
          intro order tail next perm split
          subst split
          have distinct := perm.nodup_iff.mpr nodup
          simp only [nodup_append, mem_cons] at distinct
          exact ⟨perm.mem_iff.mp (by simp), fun old => distinct.2.2 _ old _ (.inl rfl) rfl⟩
        rcases fresh firstPerm one with ⟨nodeIn, nodeNew⟩
        rcases fresh secondPerm two with ⟨otherIn, otherNew⟩
        have below : node ≤ other :=
          firstLeast before node rest one other otherIn otherNew
            (secondOrdered before other more two)
        have above : other ≤ node :=
          secondLeast before other more two node nodeIn nodeNew
            (firstOrdered before node rest one)
        have same : node = other := le_antisymm below above
        subst same
        have tails := ih (before ++ [node]) more (by simpa using one)
          (by simpa using two)
        rw [tails]
  exact agree first [] second rfl rfl

end Least

section Positions

variable [DecidableEq Node]

variable {order : List Node}

theorem Ordered.idxOf_lt (ordered : Ordered DependsOn order)
    {node dependency : Node} (listed : node ∈ order) (depends : DependsOn node dependency) :
    order.idxOf dependency < order.idxOf node := by
  obtain ⟨before, after, split, first⟩ := eq_append_cons_of_mem listed
  have earlier := ordered before node after split dependency depends
  rw [split, idxOf_append_of_mem earlier, idxOf_append_of_notMem first,
    idxOf_cons_self, Nat.add_zero]
  exact idxOf_lt_length_of_mem earlier

/-- An order of all nodes that depend on something rules cycles out: along a chain of dependencies
the position falls. -/
theorem Ordered.acyclic (ordered : Ordered DependsOn order)
    (covers : ∀ node dependency, DependsOn node dependency → node ∈ order) : Acyclic DependsOn := by
  intro node cycle
  have falls : ∀ last, TransGen DependsOn node last → order.idxOf last < order.idxOf node := by
    intro last chain
    induction chain with
    | single depends => exact ordered.idxOf_lt (covers _ _ depends) depends
    | tail _ depends ih =>
      exact (ordered.idxOf_lt (covers _ _ depends) depends).trans ih
  exact Nat.lt_irrefl _ (falls node cycle)

end Positions

/-- Without a cycle, as long as some node is not done there is one whose dependencies all are. -/
theorem Acyclic.exists_ready (acyclic : Acyclic DependsOn) {nodes done : List Node}
    (closed : ∀ node dependency, DependsOn node dependency → dependency ∈ nodes)
    {waiting : Node} (node : waiting ∈ nodes) (undone : waiting ∉ done) :
    ∃ ready ∈ nodes, ready ∉ done ∧ ∀ dependency, DependsOn ready dependency → dependency ∈ done := by
  -- The chains between the finitely many nodes form a well-founded order; take a minimal undone one.
  let below : {node // node ∈ nodes} → {node // node ∈ nodes} → Prop :=
    fun first second => TransGen DependsOn second.1 first.1
  have irreflexive : Std.Irrefl below := ⟨fun one => acyclic one.1⟩
  have finite : Finite {node // node ∈ nodes} := finite_toSet nodes
  have wellFounded : WellFounded below := Finite.wellFounded_of_trans_of_irrefl below
  obtain ⟨⟨ready, inNodes⟩, notDone, least⟩ :=
    wellFounded.has_min {one | one.1 ∉ done} ⟨⟨waiting, node⟩, undone⟩
  refine ⟨ready, inNodes, notDone, fun dependency depends => ?_⟩
  by_contra missing
  exact least ⟨dependency, closed _ _ depends⟩ missing (TransGen.single depends)

def ReachesCycle (DependsOn : Node → Node → Prop) (node : Node) : Prop :=
  ∃ met, ReflTransGen DependsOn node met ∧ TransGen DependsOn met met

theorem reachesCycle_iff :
    ReachesCycle DependsOn node ↔ ∃ dependency, DependsOn node dependency ∧ ReachesCycle DependsOn dependency := by
  constructor
  · rintro ⟨met, reaches, cycle⟩
    rcases ReflTransGen.cases_head reaches with rfl | ⟨dependency, depends, rest⟩
    · rcases TransGen.head'_iff.mp cycle with ⟨dependency, depends, back⟩
      exact ⟨dependency, depends, node, back, cycle⟩
    · exact ⟨dependency, depends, met, rest, cycle⟩
  · rintro ⟨dependency, depends, met, reaches, cycle⟩
    exact ⟨met, reaches.head depends, cycle⟩

section Lasso

variable {Step : Node → Node → Prop} {first : Node}

/-- The way from a node up to where it comes back to a node that it has passed. -/
structure Lasso (Step : Node → Node → Prop) (first : Node) (path : List Node) : Prop where
  starts : path.head? = some first
  follows : path.IsChain Step
  fresh : path.Nodup
  returns : ∃ last back, path.getLast? = some last ∧ Step last back ∧ back ∈ path

variable {path : List Node} {node last : Node}

theorem Lasso.imp {Other : Node → Node → Prop} (lasso : Lasso Step first path)
    (implies : ∀ node next, next ∈ path → Step node next → Other node next) :
    Lasso Other first path := by
  rcases lasso.returns with ⟨last, back, ends, step, passed⟩
  refine ⟨lasso.starts, ?_, lasso.fresh, last, back, ends, implies last back passed step, passed⟩
  exact lasso.follows.imp_of_mem_imp fun node next _ listed => implies node next listed

theorem reaches_last (follows : path.IsChain Step)
    (ends : path.getLast? = some last) (listed : node ∈ path) : ReflTransGen Step node last := by
  rcases append_of_mem listed with ⟨before, after, rfl⟩
  have rest : (node :: after).IsChain Step := follows.right_of_append
  apply relationReflTransGen_of_exists_isChain_cons after rest
  rw [getLast?_append_of_ne_nil _ (by simp), getLast?_eq_some_getLast (by simp)] at ends
  exact Option.some.inj ends

theorem Lasso.reachesCycle (lasso : Lasso Step first path)
    (listed : node ∈ path) : ReachesCycle Step node := by
  rcases lasso.returns with ⟨last, back, ends, step, passed⟩
  exact ⟨last, reaches_last lasso.follows ends listed,
    TransGen.head' step (reaches_last lasso.follows ends passed)⟩

theorem step_of_append {front rest : List Node} (follows : (front ++ node :: rest).IsChain Step)
    (ends : front.getLast? = some last) : Step last node := by
  rcases getLast?_eq_some_iff.mp ends with ⟨before, rfl⟩
  have step := follows.rel_getLast_head_of_append (by simp) (by simp)
  simpa using step

theorem Lasso.not_longer {more : List Node} (lasso : Lasso Step first path)
    (functional : ∀ node next again, Step node next → Step node again → next = again) :
    ¬ Lasso Step first (path ++ node :: more) := by
  intro longer
  rcases lasso.returns with ⟨last, back, ends, step, passed⟩
  have same := functional last back node step (step_of_append longer.follows ends)
  have distinct := longer.fresh
  simp only [nodup_append, mem_cons] at distinct
  exact distinct.2.2 back passed node (.inl rfl) same

theorem Lasso.unique {other : List Node} (one : Lasso Step first path)
    (two : Lasso Step first other)
    (functional : ∀ node next again, Step node next → Step node again → next = again) :
    path = other := by
  -- Both go on in the same way from any common front.
  have agree : ∀ rest front more last, front.getLast? = some last → path = front ++ rest →
      other = front ++ more → rest = more := by
    intro rest
    induction rest with
    | nil =>
      intro front more last _ whole continued
      cases more with
      | nil => rfl
      | cons node more =>
        rw [append_nil] at whole
        exact absurd (continued ▸ two) (whole ▸ one |>.not_longer functional)
    | cons node rest ih =>
      intro front more last ends continued whole
      cases more with
      | nil =>
        rw [append_nil] at whole
        exact absurd (continued ▸ one) (whole ▸ two |>.not_longer functional)
      | cons next more =>
        have same : node = next := functional last node next
          (step_of_append (continued ▸ one.follows) ends)
          (step_of_append (whole ▸ two.follows) ends)
        subst same
        have tails := ih (front ++ [node]) more node (by simp)
          (by simpa using continued) (by simpa using whole)
        rw [tails]
  rcases head?_eq_some_iff.mp one.starts with ⟨rest, path⟩
  rcases head?_eq_some_iff.mp two.starts with ⟨more, other⟩
  rw [path, other, agree rest [first] more first rfl path other]

end Lasso

theorem first_unique {α : Type*} (Good : α → Prop) {before more after rest : List α} {one two : α}
    (split : before ++ one :: after = more ++ two :: rest) (goodOne : Good one) (goodTwo : Good two)
    (notBefore : ∀ other ∈ before, ¬ Good other) (notMore : ∀ other ∈ more, ¬ Good other) :
    one = two := by
  classical
  have first : (before ++ one :: after).find? (Good ·) = some one :=
    find?_eq_some_iff_append.mpr ⟨by simpa, before, after, rfl, by simpa using notBefore⟩
  have second : (more ++ two :: rest).find? (Good ·) = some two :=
    find?_eq_some_iff_append.mpr ⟨by simpa, more, rest, rfl, by simpa using notMore⟩
  rw [split] at first
  exact Option.some.inj (first.symm.trans second)

end Foundation.DependencyOrder
