/-
Purpose: Directory trees without symbolic links, the calls that change them, and `filepath.Walk` over them.
-/
import NuraOS.Foundation.Path

namespace Foundation

open Path List

/-- What stands at a place: a directory, or a file with its content and permission bits. -/
inductive Node where
  | directory
  | file (content : Bytes) (mode : Nat)
deriving DecidableEq

/-- The permission bits of a new file, for a process that masks some of them. -/
def created (umask mode : Nat) : Nat :=
  mode &&& (0o777 ^^^ (umask &&& 0o777))

inductive Errno where
  | notExist
  | notDirectory
  | isDirectory
  | notEmpty
  | device
deriving DecidableEq

namespace FileTree

/-! ### Entries -/

def nodeAt (entries : List (Location × Node)) (location : Location) : Option Node :=
  (entries.find? fun entry => entry.1 = location).map (·.2)

def put (location : Location) (node : Node) (entries : List (Location × Node)) :
    List (Location × Node) :=
  (location, node) :: entries.filter (·.1 ≠ location)

def drop (location : Location) (entries : List (Location × Node)) : List (Location × Node) :=
  entries.filter (·.1 ≠ location)

theorem nodeAt_drop (entries : List (Location × Node)) (location other : Location) :
    nodeAt (drop location entries) other = if other = location then none else nodeAt entries other := by
  simp only [nodeAt, drop, find?_filter]
  split
  next same => simp [same]
  next different =>
    congr 2
    funext entry
    by_cases found : entry.1 = other <;> simp [found, different]

theorem nodeAt_put (entries : List (Location × Node)) (location other : Location) (node : Node) :
    nodeAt (put location node entries) other =
      if other = location then some node else nodeAt entries other := by
  by_cases same : other = location
  · simp [put, nodeAt, same]
  · have later : nodeAt (put location node entries) other = nodeAt (drop location entries) other := by
      simp only [put, drop, nodeAt, find?_cons, Ne.symm same, decide_false]
    rw [later, nodeAt_drop, if_neg same, if_neg same]

end FileTree

/-- A directory tree: the root is a directory, and whatever there is lies in a directory. -/
structure FileTree where
  entries : List (Location × Node)
  root : FileTree.nodeAt entries [] = some .directory
  closed : ∀ location, location ≠ [] → FileTree.nodeAt entries location ≠ none →
    FileTree.nodeAt entries location.dropLast = some .directory

namespace FileTree

def lookup (tree : FileTree) (location : Location) : Option Node :=
  nodeAt tree.entries location

@[simp] theorem lookup_root (tree : FileTree) : tree.lookup [] = some .directory := tree.root

variable {tree after : FileTree} {location place done : Location} {names : List Bytes}
  {content : Bytes} {mode : Nat}

theorem lookup_dropLast (below : location ≠ [])
    (present : tree.lookup location ≠ none) : tree.lookup location.dropLast = some .directory :=
  tree.closed location below present

def bare : FileTree where
  entries := [([], .directory)]
  root := rfl
  closed location below present := by
    simp only [nodeAt, find?_cons, find?_nil] at present
    split at present
    · rename_i same
      exact absurd (of_decide_eq_true same).symm below
    · exact absurd rfl present

def set (tree : FileTree) (location : Location) (node : Node) (below : location ≠ [])
    (parent : tree.lookup location.dropLast = some .directory)
    (stays : tree.lookup location = some .directory → node = .directory) : FileTree where
  entries := put location node tree.entries
  root := by
    rw [nodeAt_put, if_neg (Ne.symm below)]
    exact tree.root
  closed other otherBelow present := by
    have old : nodeAt tree.entries other.dropLast = some .directory := by
      rw [nodeAt_put] at present
      split at present
      · rename_i same
        exact same ▸ parent
      · exact tree.closed other otherBelow present
    rw [nodeAt_put]
    split
    · rename_i same
      rw [stays (same ▸ old)]
    · exact old

theorem lookup_set {node : Node} {below : location ≠ []}
    {parent : tree.lookup location.dropLast = some .directory}
    {stays : tree.lookup location = some .directory → node = .directory} (other : Location) :
    (tree.set location node below parent stays).lookup other =
      if other = location then some node else tree.lookup other :=
  nodeAt_put tree.entries location other node

def children (tree : FileTree) (location : Location) : List Location :=
  (tree.entries.map (·.1)).filter fun place => place ≠ [] ∧ place.dropLast = location

theorem lookup_eq_none_of_childless (childless : tree.children location = []) (below : place ≠ [])
    (inside : place.dropLast = location) : tree.lookup place = none := by
  by_contra present
  obtain ⟨node, found⟩ := Option.ne_none_iff_exists'.mp present
  obtain ⟨entry, first, -⟩ := Option.map_eq_some_iff.mp found
  have listed : entry.1 ∈ tree.entries.map (·.1) :=
    mem_map_of_mem (mem_of_find?_eq_some first)
  have same : entry.1 = place := by simpa using find?_some first
  have child : place ∈ tree.children location :=
    mem_filter.mpr ⟨same ▸ listed, by simp [below, inside]⟩
  rw [childless] at child
  exact not_mem_nil child

def erase (tree : FileTree) (location : Location) (below : location ≠ [])
    (childless : ∀ place, place ≠ [] → place.dropLast = location → tree.lookup place = none) :
    FileTree where
  entries := drop location tree.entries
  root := by
    rw [nodeAt_drop, if_neg (Ne.symm below)]
    exact tree.root
  closed other otherBelow present := by
    rw [nodeAt_drop] at present ⊢
    split at present
    · exact absurd rfl present
    · rw [if_neg fun inside => present (childless other otherBelow inside)]
      exact tree.closed other otherBelow present

/-- Why a place cannot be reached: a file stands on the way, or something is missing. -/
def obstacle (tree : FileTree) (location : Location) : Errno :=
  if location.inits.any fun place => (tree.lookup place).any fun node => node ≠ .directory then
    .notDirectory
  else
    .notExist

/-- Make the directories with these names, each in the one before, where they are missing. -/
def mkdirFrom (tree : FileTree) (done : Location) (isDir : tree.lookup done = some .directory) :
    List Bytes → Except Errno FileTree
  | [] => .ok tree
  | name :: names =>
    match found : tree.lookup (done ++ [name]) with
    | some .directory => tree.mkdirFrom (done ++ [name]) found names
    | some (.file _ _) => .error .notDirectory
    | none =>
      let next := tree.set (done ++ [name]) .directory (by simp) (by simpa using isDir) fun _ => rfl
      next.mkdirFrom (done ++ [name]) (by simp [next, lookup_set]) names

/-- `os.MkdirAll`. When it meets a file it has not made anything: what lies above the file is there. -/
def mkdirAll (tree : FileTree) (location : Location) : Except Errno FileTree :=
  tree.mkdirFrom [] tree.root location

/-- `os.WriteFile`, or opening with `O_CREATE` and `O_TRUNC` and writing. A file that exists keeps its
permission bits. -/
def writeFile (tree : FileTree) (location : Location) (content : Bytes) (mode : Nat) :
    Except Errno FileTree :=
  if below : location = [] then .error .isDirectory
  else
    match parent : tree.lookup location.dropLast with
    | some .directory =>
      match found : tree.lookup location with
      | some .directory => .error .isDirectory
      | some (.file _ old) =>
        .ok (tree.set location (.file content old) below parent (by simp [found]))
      | none => .ok (tree.set location (.file content mode) below parent (by simp [found]))
    | _ => .error (tree.obstacle location.dropLast)

/-- `os.Remove`: a file, or a directory that is empty. -/
def remove (tree : FileTree) (location : Location) : Except Errno FileTree :=
  if below : location = [] then .error .notEmpty
  else
    match found : tree.lookup location with
    | none => .error (tree.obstacle location)
    | some (.file _ _) =>
      .ok (tree.erase location below fun place placeBelow inside => by
        by_contra present
        have parent := lookup_dropLast placeBelow present
        rw [inside, found] at parent
        cases parent)
    | some .directory =>
      if childless : tree.children location = [] then
        .ok (tree.erase location below fun _ placeBelow inside =>
          lookup_eq_none_of_childless childless placeBelow inside)
      else
        .error .notEmpty

/-! ### What the calls leave behind -/

theorem lookup_above (above : place <+: location) (different : place ≠ location)
    (present : tree.lookup location ≠ none) : tree.lookup place = some .directory := by
  induction location using List.reverseRecOn with
  | nil => exact absurd (List.prefix_nil.mp above) different
  | append_singleton front last ih =>
    have parent : tree.lookup front = some .directory := by
      simpa using lookup_dropLast (by simp) present
    have above : place <+: front := (List.prefix_concat_iff.mp above).resolve_left different
    by_cases same : place = front
    · exact same ▸ parent
    · exact ih above same (by simp [parent])

/-- A directory is made wherever one was missing on the way, and nothing else changes. -/
theorem lookup_mkdirFrom {isDir : tree.lookup done = some .directory}
    (made : tree.mkdirFrom done isDir names = .ok after) (place : Location) :
    after.lookup place =
      if tree.lookup place = none ∧ place <+: done ++ names then some .directory
      else tree.lookup place := by
  induction names generalizing tree done with
  | nil =>
    cases made
    rw [append_nil, if_neg]
    rintro ⟨missing, above⟩
    have different : place ≠ done := by
      rintro rfl
      rw [missing] at isDir
      cases isDir
    rw [lookup_above above different (by simp [isDir])] at missing
    cases missing
  | cons name names ih =>
    rw [mkdirFrom] at made
    split at made
    · rw [ih made, append_assoc, singleton_append]
    · cases made
    · rename_i missing
      rw [ih made, lookup_set, append_assoc, singleton_append]
      by_cases here : place = done ++ [name]
      · subst here
        have onTheWay : done ++ [name] <+: done ++ name :: names := by simp
        simp [missing, onTheWay]
      · simp only [if_neg here]

theorem lookup_mkdirAll (made : tree.mkdirAll location = .ok after) (place : Location) :
    after.lookup place =
      if tree.lookup place = none ∧ place <+: location then some .directory
      else tree.lookup place :=
  lookup_mkdirFrom made place

theorem mkdirFrom_isOk
    (isDir : tree.lookup done = some .directory)
    (free : ∀ place, place <+: done ++ names → ∀ content mode,
      tree.lookup place ≠ some (.file content mode)) :
    ∃ after, tree.mkdirFrom done isDir names = .ok after := by
  induction names generalizing tree done with
  | nil => exact ⟨tree, rfl⟩
  | cons name names ih =>
    have shape : done ++ name :: names = (done ++ [name]) ++ names := by simp
    rw [mkdirFrom]
    split
    · rename_i found
      exact ih found (shape ▸ free)
    · rename_i content mode found
      exact absurd found (free _ (by simp) content mode)
    · refine ih _ fun place onTheWay content mode => ?_
      rw [lookup_set]
      split
      · simp
      · exact free place (shape ▸ onTheWay) content mode

theorem mkdirAll_isOk
    (free : ∀ place, place <+: location → ∀ content mode,
      tree.lookup place ≠ some (.file content mode)) :
    ∃ after, tree.mkdirAll location = .ok after :=
  mkdirFrom_isOk tree.root free

def modeAfter (tree : FileTree) (location : Location) (mode : Nat) : Nat :=
  match tree.lookup location with
  | some (.file _ old) => old
  | _ => mode

theorem lookup_writeFile
    (written : tree.writeFile location content mode = .ok after) (place : Location) :
    after.lookup place =
      if place = location then some (.file content (tree.modeAfter location mode))
      else tree.lookup place := by
  rw [writeFile] at written
  repeat' split at written
  all_goals cases written
  all_goals
    rename_i found
    rw [lookup_set, modeAfter, found]

theorem writeFile_isOk
    (below : location ≠ []) (parent : tree.lookup location.dropLast = some .directory)
    (free : tree.lookup location ≠ some .directory) :
    ∃ after, tree.writeFile location content mode = .ok after := by
  rw [writeFile, dif_neg below]
  split
  · split
    · rename_i found
      exact absurd found free
    · exact ⟨_, rfl⟩
    · exact ⟨_, rfl⟩
  · rename_i other
    exact absurd parent other

theorem lookup_remove (removed : tree.remove location = .ok after) (place : Location) :
    after.lookup place = if place = location then none else tree.lookup place := by
  rw [remove] at removed
  repeat' split at removed
  all_goals cases removed
  all_goals exact nodeAt_drop tree.entries location place

theorem remove_file_isOk (found : tree.lookup location = some (.file content mode)) :
    ∃ after, tree.remove location = .ok after := by
  have below : location ≠ [] := by
    rintro rfl
    rw [lookup_root] at found
    cases found
  rw [remove, dif_neg below]
  split
  · simp_all
  · exact ⟨_, rfl⟩
  · simp_all

end FileTree

/-- A regular file, or a directory with what it holds in the order of the names. -/
inductive Hierarchy where
  | file (mode : Nat) (content : Bytes) (readable : Bool)
  | directory (readable : Bool) (children : List (Bytes × Hierarchy))

def LegalName (name : Bytes) : Prop :=
  Proper name ∧ slash ∉ name ∧ 0 ∉ name

instance : DecidablePred LegalName :=
  fun name => inferInstanceAs (Decidable (Proper name ∧ slash ∉ name ∧ 0 ∉ name))

namespace Hierarchy

mutual

def wellFormed : Hierarchy → Bool
  | .file _ _ _ => true
  | .directory _ children => childrenWellFormed children

def childrenWellFormed : List (Bytes × Hierarchy) → Bool
  | [] => true
  | (name, child) :: rest =>
    decide (LegalName name) && rest.all (fun other => decide (name < other.1)) && child.wellFormed &&
      childrenWellFormed rest

end

mutual

def readable : Hierarchy → Bool
  | .file _ _ opens => opens
  | .directory lists children => lists && childrenReadable children

def childrenReadable : List (Bytes × Hierarchy) → Bool
  | [] => true
  | (_, child) :: rest => child.readable && childrenReadable rest

end

def isDirectory : Hierarchy → Bool
  | .file _ _ _ => false
  | .directory _ _ => true

def child : Hierarchy → Bytes → Option Hierarchy
  | .file _ _ _, _ => none
  | .directory _ children, name => children.lookup name

def descend : Hierarchy → List Bytes → Option Hierarchy
  | node, [] => some node
  | node, name :: names => (node.child name).bind fun next => next.descend names

theorem descend_append (node : Hierarchy) (first second : List Bytes) :
    node.descend (first ++ second) = (node.descend first).bind fun next => next.descend second := by
  induction first generalizing node with
  | nil => rfl
  | cons name first ih =>
    rw [cons_append, descend, descend]
    cases node.child name with
    | none => rfl
    | some next => exact ih next

variable {node : Hierarchy}

theorem isDirectory_of_descend {inner last : Hierarchy} {first second : List Bytes}
    (nonempty : second ≠ []) (found : node.descend (first ++ second) = some last)
    (here : node.descend first = some inner) : inner.isDirectory = true := by
  obtain ⟨name, rest, rfl⟩ := exists_cons_of_ne_nil nonempty
  rw [descend_append, here, Option.bind_some, descend] at found
  cases inner with
  | file mode content opens => cases found
  | directory lists children => rfl

end Hierarchy

inductive Visited where
  | file (mode : Nat) (content : Bytes) (readable : Bool)
  | directory
  | failed
deriving DecidableEq

def Hierarchy.visited : Hierarchy → Visited
  | .file mode content opens => .file mode content opens
  | .directory true _ => .directory
  | .directory false _ => .failed

/-- What a visitor returns: nil, `filepath.SkipDir`, or another error. -/
inductive Verdict (Cause : Type) where
  | next
  | skipDir
  | fail (cause : Cause)

section Walk

variable {State Cause : Type} (visit : Bytes → Visited → State → State × Verdict Cause)

mutual

/-- The walk below a path. A visitor that skips a directory skips what it holds, and one that skips at a file
skips what is left of the directory the file is in. -/
def walk (path : Bytes) : Hierarchy → State → State × Verdict Cause
  | .file mode content opens, state => visit path (.file mode content opens) state
  | .directory false _, state => visit path .failed state
  | .directory true children, state =>
    match visit path .directory state with
    | (state, .next) => walkChildren path children state
    | (state, .skipDir) => (state, .skipDir)
    | (state, .fail cause) => (state, .fail cause)

def walkChildren (path : Bytes) : List (Bytes × Hierarchy) → State → State × Verdict Cause
  | [], state => (state, .next)
  | (name, child) :: rest, state =>
    match walk (join path name) child state with
    | (state, .next) => walkChildren path rest state
    | (state, .skipDir) =>
      if child.isDirectory then walkChildren path rest state else (state, .skipDir)
    | (state, .fail cause) => (state, .fail cause)

end

/-- `filepath.Walk` from a path at which something or nothing is. -/
def walkRoot (path : Bytes) (node : Option Hierarchy) (state : State) : State × Except Cause Unit :=
  let (state, verdict) :=
    match node with
    | some node => walk visit path node state
    | none => visit path .failed state
  match verdict with
  | .next | .skipDir => (state, .ok ())
  | .fail cause => (state, .error cause)

end Walk

mutual

def listing (above : List Bytes) : Hierarchy → List (List Bytes × Visited)
  | .file mode content opens => [(above, .file mode content opens)]
  | .directory false _ => [(above, .failed)]
  | .directory true children => (above, .directory) :: listingChildren above children

def listingChildren (above : List Bytes) : List (Bytes × Hierarchy) → List (List Bytes × Visited)
  | [] => []
  | (name, child) :: rest => listing (above ++ [name]) child ++ listingChildren above rest

end

def pathBelow (root : Bytes) (names : List Bytes) : Bytes :=
  names.foldl join root

theorem pathBelow_concat (root : Bytes) (names : List Bytes) (name : Bytes) :
    pathBelow root (names ++ [name]) = join (pathBelow root names) name := by
  simp [pathBelow]

theorem rel_pathBelow {root : Bytes} (nonempty : root ≠ []) {names : List Bytes}
    (legal : ∀ name ∈ names, LegalName name) (below : names ≠ []) :
    rel root (pathBelow root names) = some ([slash].intercalate names) := by
  have leads : pathBelow root names ≠ [] ∧ isAbs (pathBelow root names) = isAbs root ∧
      normal (isAbs root) (elements (pathBelow root names)) =
        normal (isAbs root) (elements root) ++ names := by
    clear below
    induction names using List.reverseRecOn with
    | nil => exact ⟨nonempty, rfl, (append_nil _).symm⟩
    | append_singleton front last ih =>
      obtain ⟨frontLegal, lastLegal⟩ := forall_mem_append.mp legal
      obtain ⟨path, sameRoot, leads⟩ := ih frontLegal
      have proper : LegalName last := lastLegal last (mem_singleton_self last)
      have joined := normal_join path proper.1 proper.2.1
      rw [sameRoot, leads, append_assoc] at joined
      rw [pathBelow_concat]
      exact joined
  simp [rel, leads, below, apart_append]

/-! ### What a walk comes to -/

section Members

variable {children : List (Bytes × Hierarchy)} {name : Bytes} {node inner : Hierarchy}
  {names : List Bytes}

theorem childrenWellFormed_mem {child : Hierarchy}
    (wellFormed : Hierarchy.childrenWellFormed children = true) (member : (name, child) ∈ children) :
    LegalName name ∧ child.wellFormed = true ∧ children.lookup name = some child := by
  induction children with
  | nil => cases member
  | cons entry rest ih =>
    obtain ⟨first, node⟩ := entry
    simp only [Hierarchy.childrenWellFormed, Bool.and_eq_true, decide_eq_true_eq, all_eq_true] at wellFormed
    obtain ⟨⟨⟨legal, before⟩, formed⟩, later⟩ := wellFormed
    rcases mem_cons.mp member with same | member
    · cases same
      exact ⟨legal, formed, by simp⟩
    · obtain ⟨legal, formed, found⟩ := ih later member
      have different : name ≠ first := fun same =>
        List.lt_irrefl first (same ▸ before _ member)
      exact ⟨legal, formed, by rw [lookup_cons, beq_false_of_ne different, found]⟩

theorem childrenReadable_mem {child : Hierarchy}
    (readable : Hierarchy.childrenReadable children = true) (member : (name, child) ∈ children) :
    child.readable = true := by
  induction children with
  | nil => cases member
  | cons entry rest ih =>
    rw [Hierarchy.childrenReadable, Bool.and_eq_true] at readable
    rcases mem_cons.mp member with same | member
    · cases same
      exact readable.1
    · exact ih readable.2 member

theorem mem_of_lookup {child : Hierarchy}
    (found : children.lookup name = some child) : (name, child) ∈ children := by
  obtain ⟨front, back, rfl, -⟩ := List.lookup_eq_some_iff.mp found
  simp

/-- What the names lead to is as well-formed and readable as the whole, and the names are legal. -/
theorem descend_sound (wellFormed : node.wellFormed = true)
    (readable : node.readable = true) (found : node.descend names = some inner) :
    (∀ name ∈ names, LegalName name) ∧ inner.wellFormed = true ∧ inner.readable = true := by
  induction names generalizing node with
  | nil =>
    cases found
    exact ⟨by simp, wellFormed, readable⟩
  | cons name names ih =>
    cases node with
    | file mode content opens => cases found
    | directory lists children =>
      obtain ⟨child, here, rest⟩ := Option.bind_eq_some_iff.mp found
      have member := mem_of_lookup here
      rw [Hierarchy.readable, Bool.and_eq_true] at readable
      obtain ⟨legal, formed, -⟩ := childrenWellFormed_mem wellFormed member
      obtain ⟨later, inside⟩ :=
        ih formed (childrenReadable_mem readable.2 member) rest
      exact ⟨forall_mem_cons.mpr ⟨legal, later⟩, inside⟩

theorem mem_listingChildren {above : List Bytes} {item : List Bytes × Visited} :
    item ∈ listingChildren above children ↔
      ∃ name child, (name, child) ∈ children ∧ item ∈ listing (above ++ [name]) child := by
  induction children with
  | nil => simp [listingChildren]
  | cons entry rest ih =>
    obtain ⟨first, node⟩ := entry
    rw [listingChildren, mem_append, ih]
    constructor
    · rintro (here | ⟨name, child, member, inside⟩)
      · exact ⟨first, node, mem_cons_self, here⟩
      · exact ⟨name, child, mem_cons_of_mem _ member, inside⟩
    · rintro ⟨name, child, member, inside⟩
      rcases mem_cons.mp member with same | member
      · cases same
        exact .inl inside
      · exact .inr ⟨name, child, member, inside⟩

theorem mem_listing_of_descend {above : List Bytes}
    (readable : node.readable = true) (found : node.descend names = some inner) :
    (above ++ names, inner.visited) ∈ listing above node := by
  induction names generalizing node above with
  | nil =>
    cases found
    cases inner with
    | file mode content opens => simp [listing, Hierarchy.visited]
    | directory lists children => cases lists <;> simp [listing, Hierarchy.visited]
  | cons name names ih =>
    cases node with
    | file mode content opens => cases found
    | directory lists children =>
      obtain ⟨child, here, rest⟩ := Option.bind_eq_some_iff.mp found
      rw [Hierarchy.readable, Bool.and_eq_true] at readable
      obtain ⟨rfl, readable⟩ := readable
      have member := mem_of_lookup here
      have inside : (above ++ [name] ++ names, inner.visited) ∈ listing (above ++ [name]) child :=
        ih (childrenReadable_mem readable member) rest
      rw [append_assoc, singleton_append] at inside
      exact mem_cons_of_mem _ (mem_listingChildren.mpr ⟨name, child, member, inside⟩)

theorem descend_of_mem_listing {item : List Bytes × Visited} (node : Hierarchy) {above : List Bytes}
    (wellFormed : node.wellFormed = true) (readable : node.readable = true) (listed : item ∈ listing above node) :
    ∃ names inner, item = (above ++ names, inner.visited) ∧ node.descend names = some inner := by
  match node with
  | .file mode content opens =>
    rw [listing, mem_singleton] at listed
    exact ⟨[], .file mode content opens, by simpa [Hierarchy.visited] using listed, rfl⟩
  | .directory lists children =>
    rw [Hierarchy.readable, Bool.and_eq_true] at readable
    obtain ⟨rfl, readable⟩ := readable
    rw [Hierarchy.wellFormed] at wellFormed
    rw [listing] at listed
    rcases mem_cons.mp listed with rfl | listed
    · exact ⟨[], .directory true children, by simp [Hierarchy.visited], rfl⟩
    · obtain ⟨name, child, member, inside⟩ := mem_listingChildren.mp listed
      obtain ⟨-, formed, found⟩ := childrenWellFormed_mem wellFormed member
      obtain ⟨names, inner, rfl, leads⟩ :=
        descend_of_mem_listing child formed (childrenReadable_mem readable member) inside
      refine ⟨name :: names, inner, by simp, ?_⟩
      rw [Hierarchy.descend, Hierarchy.child, found]
      exact leads
termination_by node
decreasing_by
  have smaller := sizeOf_lt_of_mem member
  simp only [Prod.mk.sizeOf_spec] at smaller
  simp only [Hierarchy.directory.sizeOf_spec]
  omega

end Members

section Visits

variable {State Cause : Type}

def visitAt (visit : Bytes → Visited → State → State × Verdict Cause) (root : Bytes) (state : State)
    (item : List Bytes × Visited) : State :=
  (visit (pathBelow root item.1) item.2 state).1

/-- Visits of files and directories below a root that keep an invariant and do not fail. Where a directory is
skipped, a visit to what lies below does nothing. -/
structure Smooth (visit : Bytes → Visited → State → State × Verdict Cause) (root : Bytes)
    (Calm : State → Prop) : Prop where
  file : ∀ names mode content state, (∀ name ∈ names, LegalName name) → Calm state →
    Calm (visitAt visit root state (names, .file mode content true)) ∧
      (visit (pathBelow root names) (.file mode content true) state).2 = .next
  directory : ∀ names state, (∀ name ∈ names, LegalName name) → Calm state →
    Calm (visitAt visit root state (names, .directory)) ∧
      ((visit (pathBelow root names) .directory state).2 = .next ∨
        (visit (pathBelow root names) .directory state).2 = .skipDir ∧
          ∀ more shown state, more ≠ [] → (∀ name ∈ more, LegalName name) →
            visitAt visit root state (names ++ more, shown) = state)

variable {visit : Bytes → Visited → State → State × Verdict Cause} {root : Bytes} {Calm : State → Prop}

theorem foldl_visitAt_idle {items : List (List Bytes × Visited)} {state : State}
    (idle : ∀ item ∈ items, ∀ state, visitAt visit root state item = state) :
    items.foldl (visitAt visit root) state = state := by
  induction items with
  | nil => rfl
  | cons item items ih =>
    obtain ⟨first, rest⟩ := forall_mem_cons.mp idle
    rw [foldl_cons, first, ih rest]

mutual

theorem walk_visits (smooth : Smooth visit root Calm) (node : Hierarchy) {above : List Bytes} {state : State}
    (legal : ∀ name ∈ above, LegalName name) (wellFormed : node.wellFormed = true)
    (readable : node.readable = true) (calm : Calm state) :
    (walk visit (pathBelow root above) node state).1 = (listing above node).foldl (visitAt visit root) state ∧
      Calm ((listing above node).foldl (visitAt visit root) state) ∧
      ((walk visit (pathBelow root above) node state).2 = .next ∨
        node.isDirectory = true ∧ (walk visit (pathBelow root above) node state).2 = .skipDir) := by
  match node with
  | .file mode content opens =>
    rw [Hierarchy.readable] at readable
    subst readable
    obtain ⟨kept, goes⟩ := smooth.file above mode content state legal calm
    exact ⟨rfl, kept, .inl goes⟩
  | .directory lists children =>
    rw [Hierarchy.readable, Bool.and_eq_true] at readable
    obtain ⟨rfl, readable⟩ := readable
    rw [Hierarchy.wellFormed] at wellFormed
    obtain ⟨kept, verdict⟩ := smooth.directory above state legal calm
    rw [walk, listing, foldl_cons]
    have first : visitAt visit root state (above, .directory) =
        (visit (pathBelow root above) .directory state).1 := rfl
    rw [first] at kept ⊢
    rcases shown : visit (pathBelow root above) .directory state with ⟨after, answer⟩
    rw [shown] at kept verdict
    rcases verdict with rfl | ⟨rfl, idle⟩
    · obtain ⟨same, later, goes⟩ := walkChildren_visits smooth children legal wellFormed readable kept
      exact ⟨same, later, .inl goes⟩
    · -- What the skipped directory holds is listed, but a visit there would do nothing.
      have spared : (listingChildren above children).foldl (visitAt visit root) after = after := by
        apply foldl_visitAt_idle
        rintro ⟨names, shown⟩ listed state
        obtain ⟨name, child, member, inside⟩ := mem_listingChildren.mp listed
        obtain ⟨named, formed, -⟩ := childrenWellFormed_mem wellFormed member
        have readableChild := childrenReadable_mem readable member
        obtain ⟨more, inner, same, leads⟩ := descend_of_mem_listing child formed readableChild inside
        obtain ⟨legalMore, -⟩ := descend_sound formed readableChild leads
        cases same
        rw [append_assoc]
        exact idle _ _ _ (by simp) (by simpa using ⟨named, legalMore⟩)
      exact ⟨spared.symm, spared.symm ▸ kept, .inr ⟨rfl, rfl⟩⟩

theorem walkChildren_visits (smooth : Smooth visit root Calm) (children : List (Bytes × Hierarchy))
    {above : List Bytes} {state : State} (legal : ∀ name ∈ above, LegalName name)
    (wellFormed : Hierarchy.childrenWellFormed children = true)
    (readable : Hierarchy.childrenReadable children = true) (calm : Calm state) :
    (walkChildren visit (pathBelow root above) children state).1 =
        (listingChildren above children).foldl (visitAt visit root) state ∧
      Calm ((listingChildren above children).foldl (visitAt visit root) state) ∧
      (walkChildren visit (pathBelow root above) children state).2 = .next := by
  match children with
  | [] => exact ⟨rfl, calm, rfl⟩
  | (name, child) :: rest =>
    simp only [Hierarchy.childrenWellFormed, Bool.and_eq_true, decide_eq_true_eq] at wellFormed
    obtain ⟨⟨⟨named, -⟩, formed⟩, restFormed⟩ := wellFormed
    rw [Hierarchy.childrenReadable, Bool.and_eq_true] at readable
    have legalHere : ∀ other ∈ above ++ [name], LegalName other :=
      forall_mem_append.mpr ⟨legal, by simpa using named⟩
    obtain ⟨same, kept, verdict⟩ := walk_visits smooth child legalHere formed readable.1 calm
    rw [pathBelow_concat] at same verdict
    rw [walkChildren, listingChildren, foldl_append]
    rcases walked : walk visit (join (pathBelow root above) name) child state with ⟨after, answer⟩
    rw [walked] at same verdict
    dsimp only at same
    rw [← same] at kept ⊢
    have later := walkChildren_visits smooth rest legal restFormed readable.2 kept
    rcases verdict with rfl | ⟨directory, rfl⟩
    · exact later
    · dsimp only
      rw [if_pos directory]
      exact later

end

theorem walkRoot_visits (smooth : Smooth visit root Calm) {state : State}
    (wellFormed : node.wellFormed = true) (readable : node.readable = true) (calm : Calm state) :
    walkRoot visit root (some node) state = ((listing [] node).foldl (visitAt visit root) state, .ok ()) ∧
      Calm ((listing [] node).foldl (visitAt visit root) state) := by
  have start : ∀ name ∈ ([] : List Bytes), LegalName name := by simp
  obtain ⟨same, kept, verdict⟩ := walk_visits smooth node start wellFormed readable calm
  refine ⟨?_, kept⟩
  rw [walkRoot]
  rw [show pathBelow root [] = root from rfl] at same verdict
  rcases walked : walk visit root node state with ⟨after, answer⟩
  rw [walked] at same verdict
  rcases verdict with rfl | ⟨-, rfl⟩ <;> rw [← same]

end Visits

end Foundation
