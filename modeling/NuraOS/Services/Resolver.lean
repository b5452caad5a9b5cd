/-
Purpose: The service unit (`internal/unit/unit.go`) and the start order (`internal/resolver/resolver.go`).
-/
import Mathlib.Data.List.DropRight
import Mathlib.Data.String.Basic

namespace NuraOS.Services

/-!
The three enumerations are strings in the source and the parser checks none of them, so each has a
constructor for any other text.
-/

/-- `Type`: how the service signals readiness. -/
inductive UnitType where
  | oneshot
  | longrun
  | notify
  | other (text : String)
deriving DecidableEq

/-- `RestartPolicy`: when the service manager restarts a unit. -/
inductive RestartPolicy where
  | no
  | onFailure
  | always
  | other (text : String)
deriving DecidableEq

/-- `ReadinessType`: how readiness is detected. -/
inductive ReadinessType where
  | http
  | socket
  | none
  | other (text : String)
deriving DecidableEq

/-- `Restart`, crash-recovery settings; durations in seconds. -/
structure Restart where
  policy : RestartPolicy
  backoffInit : Int
  backoffMax : Int
  crashLoopLimit : Int
  crashLoopWindow : Int
  crashLoopBackoff : Int
deriving DecidableEq

/-- `Readiness`; the timeout in seconds. -/
structure Readiness where
  type : ReadinessType
  timeout : Int
deriving DecidableEq

/-- `SocketActivation`; the idle timeout in seconds, 0 for no idle stop. -/
structure SocketActivation where
  enabled : Bool
  idleTimeout : Int := 0
deriving DecidableEq

/-- `Unit`, a parsed service unit file. -/
structure ServiceUnit where
  name : String
  type : UnitType
  /-- Units that must be started before this one (ordering only). -/
  after : List String
  /-- Units that must be started and healthy before this one. -/
  requires : List String
  restart : Restart
  readiness : Readiness
  socketActivation : SocketActivation
deriving DecidableEq

/-- The unit of that name with the settings `defaults` fills in, and these dependencies. -/
def ServiceUnit.plain (name : String) (after requires : List String) : ServiceUnit :=
  { name
    type := .longrun
    after
    requires
    restart :=
      { policy := .onFailure
        backoffInit := 1
        backoffMax := 30
        crashLoopLimit := 5
        crashLoopWindow := 60
        crashLoopBackoff := 120 }
    readiness := { type := .none, timeout := 30 }
    socketActivation := { enabled := false } }

end NuraOS.Services

namespace NuraOS.Services.Resolver

/-- The errors of `Resolve`, with the values their texts are made of. -/
inductive ResolveError where
  /-- `duplicate unit name: %s` -/
  | duplicateUnitName (name : String)
  /-- `unit %q depends on unknown unit %q` -/
  | dependsOnUnknownUnit (name dep : String)
  /-- `dependency cycle detected: %s` -/
  | dependencyCycleDetected (cycle : String)
deriving DecidableEq

/-- `Plan`. -/
structure Plan where
  order : List ServiceUnit
deriving DecidableEq

/-- `allDeps` merges After and Requires, deduplicating: what has been seen is what is in the result. -/
def allDeps (u : ServiceUnit) : List String :=
  (u.after ++ u.requires).foldl (fun result d => if d ∈ result then result else result ++ [d]) []

/-- One round of `sortStrings`: the key moves left past the greater entries at the end of the sorted
part. -/
def insertKey (sorted : List String) (key : String) : List String :=
  sorted.rdropWhile (key < ·) ++ key :: sorted.rtakeWhile (key < ·)

/-- `sortStrings`, an insertion sort. -/
def sortStrings (s : List String) : List String :=
  s.foldl insertKey []

/-- The map `byName`. -/
abbrev Index := String → Option ServiceUnit

def buildIndex : List ServiceUnit → Index → Except ResolveError Index
  | [], byName => .ok byName
  | u :: units, byName =>
    if (byName u.name).isSome then
      .error (.duplicateUnitName u.name)
    else
      buildIndex units (Function.update byName u.name (some u))

def validateDeps (byName : Index) : List ServiceUnit → Except ResolveError PUnit
  | [] => .ok ()
  | u :: units =>
    match (allDeps u).find? fun dep => (byName dep).isNone with
    | some dep => .error (.dependsOnUnknownUnit u.name dep)
    | none => validateDeps byName units

/-- The maps `inDegree` (zero where there is no entry) and `dependants`. -/
structure Edges where
  inDegree : String → Int
  dependants : String → List String

def Edges.add (name : String) (edges : Edges) (dep : String) : Edges :=
  { inDegree := Function.update edges.inDegree name (edges.inDegree name + 1)
    dependants := Function.update edges.dependants dep (edges.dependants dep ++ [name]) }

def computeEdges (units : List ServiceUnit) : Edges :=
  units.foldl (fun edges u => (allDeps u).foldl (Edges.add u.name) edges)
    { inDegree := fun _ => 0, dependants := fun _ => [] }

/-- One dependant of the unit just taken: its degree falls, and at zero it joins the queue. -/
def release (state : (String → Int) × List String) (d : String) : (String → Int) × List String :=
  let inDegree := Function.update state.1 d (state.1 d - 1)
  if inDegree d = 0 then (inDegree, sortStrings (state.2 ++ [d])) else (inDegree, state.2)

/-- The loop over the queue; nothing when it has not ended after `fuel` rounds. The queue only holds
names of units, so that `byName` has an entry for each. -/
def drainQueue (byName : Index) (dependants : String → List String) :
    Nat → (String → Int) → List String → List ServiceUnit → Option (List ServiceUnit)
  | _, _, [], order => some order
  | 0, _, _ :: _, _ => none
  | fuel + 1, inDegree, name :: queue, order =>
    let released := (sortStrings (dependants name)).foldl release (inDegree, queue)
    drainQueue byName dependants fuel released.1 released.2 (order ++ (byName name).toList)

/-- The values of the map `visited`. -/
inductive Visit where
  | unvisited
  | inStack
  | done
deriving DecidableEq

structure Search where
  visited : String → Visit
  path : List String

/-- The loop of `dfs` over the dependencies of a unit, with the recursive call as a parameter; the
Boolean says that a cycle was found. -/
def visitDeps (dfs : String → Search → Option (Bool × Search)) :
    List String → Search → Option (Bool × Search)
  | [], search => some (false, search)
  | dep :: deps, search =>
    match search.visited dep with
    | .inStack => some (true, search)
    | .done => visitDeps dfs deps search
    | .unvisited =>
      match dfs dep search with
      | none => none
      | some (true, search) => some (true, search)
      | some (false, search) => visitDeps dfs deps search

/-- `dfs`; nothing when the recursion is deeper than `fuel`. -/
def dfs (byName : Index) : Nat → String → Search → Option (Bool × Search)
  | 0, _, _ => none
  | fuel + 1, name, search =>
    let entered : Search :=
      { visited := Function.update search.visited name .inStack, path := search.path ++ [name] }
    match visitDeps (dfs byName fuel) (((byName name).map allDeps).getD []) entered with
    | none => none
    | some (true, search) => some (true, search)
    | some (false, search) =>
      some (false, { visited := Function.update search.visited name .done
                     path := search.path.dropLast })

/-- The outer loop of `detectCycle`. -/
def searchUnits (byName : Index) (fuel : Nat) : List ServiceUnit → Search → Option String
  | [], _ => some "(unknown cycle)"
  | u :: units, search =>
    match search.visited u.name with
    | .unvisited =>
      match dfs byName fuel u.name search with
      | none => none
      | some (true, search) => some (" -> ".intercalate search.path)
      | some (false, search) => searchUnits byName fuel units search
    | _ => searchUnits byName fuel units search

/-- `detectCycle`. A path of the search never holds a unit twice. -/
def detectCycle (units : List ServiceUnit) (byName : Index) : Option String :=
  searchUnits byName units.length units { visited := fun _ => .unvisited, path := [] }

/-- `Resolve`, where `keys` are the keys of the map `inDegree` in the order in which the source ranges
over it to seed the queue. Nothing would mean that one of its loops goes on past its budget. -/
def resolveOver (keys : List String) (units : List ServiceUnit) :
    Option (Except ResolveError Plan) :=
  match buildIndex units fun _ => none with
  | .error err => some (.error err)
  | .ok byName =>
    match validateDeps byName units with
    | .error err => some (.error err)
    | .ok _ =>
      let edges := computeEdges units
      let seeds := keys.filter fun name => edges.inDegree name = 0
      match drainQueue byName edges.dependants units.length edges.inDegree
        (sortStrings seeds) [] with
      | none => none
      | some order =>
        if order.length ≠ units.length then
          (detectCycle units byName).map fun cycle => .error (.dependencyCycleDetected cycle)
        else
          some (.ok { order })

/-- `Resolve`. The keys of `inDegree` are the names of the units, and their order does not matter, since
the queue is sorted once it is seeded. -/
def resolve (units : List ServiceUnit) : Option (Except ResolveError Plan) :=
  resolveOver (units.map ServiceUnit.name) units

end NuraOS.Services.Resolver
