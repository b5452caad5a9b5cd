/-
Purpose: Slash-separated paths as Go's `path/filepath` treats them on Unix.
-/
import NuraOS.Foundation.Text

namespace Foundation.Path

open List

abbrev Location := List Bytes

def slash : UInt8 := 47

def dot : UInt8 := 46

def dotdot : Bytes := [dot, dot]

def elements (path : Bytes) : List Bytes :=
  path.splitOn slash

/-- `filepath.IsAbs`. -/
def isAbs (path : Bytes) : Bool :=
  path.head? == some slash

def Proper (element : Bytes) : Prop :=
  element ≠ [] ∧ element ≠ [dot] ∧ element ≠ dotdot

instance : DecidablePred Proper :=
  fun element => inferInstanceAs (Decidable (element ≠ [] ∧ element ≠ [dot] ∧ element ≠ dotdot))

def enter (location : Location) (element : Bytes) : Location :=
  if element = [] ∨ element = [dot] then location
  else if element = dotdot then location.dropLast
  else location ++ [element]

def walk (location : Location) (elements : List Bytes) : Location :=
  elements.foldl enter location

/-- Where a path leads for a process in the directory `cwd`. -/
def resolve (cwd : Location) (path : Bytes) : Location :=
  walk (if isAbs path then [] else cwd) (elements path)

/-- One element of the path that `Clean` copies: a `..` takes the name before it away, and is kept when
there is none, except at the root. -/
def push (rooted : Bool) (done : List Bytes) (element : Bytes) : List Bytes :=
  if element = [] ∨ element = [dot] then done
  else if element = dotdot then
    match done.getLast? with
    | none => if rooted then [] else [dotdot]
    | some last => if last = dotdot then done ++ [dotdot] else done.dropLast
  else done ++ [element]

def normal (rooted : Bool) (elements : List Bytes) : List Bytes :=
  elements.foldl (push rooted) []

def render (rooted : Bool) (names : List Bytes) : Bytes :=
  if rooted then slash :: [slash].intercalate names
  else if names = [] then [dot]
  else [slash].intercalate names

/-- `filepath.Clean`. -/
def clean (path : Bytes) : Bytes :=
  render (isAbs path) (normal (isAbs path) (elements path))

/-- `filepath.Join` of two elements. -/
def join (first second : Bytes) : Bytes :=
  if first = [] then (if second = [] then [] else clean second)
  else clean (first ++ slash :: second)

/-- `filepath.Dir`: everything up to the last slash, cleaned. -/
def dir (path : Bytes) : Bytes :=
  clean (path.rdropWhile (· ≠ slash))

def apart : List Bytes → List Bytes → List Bytes × List Bytes
  | first :: base, second :: target =>
    if first = second then apart base target else (first :: base, second :: target)
  | base, target => (base, target)

/-- `filepath.Rel`: up from what only the base has, and down to the target. There is no way up from a `..`. -/
def rel (base target : Bytes) : Option Bytes :=
  let rooted := isAbs base
  let start := normal rooted (elements base)
  let goal := normal (isAbs target) (elements target)
  if isAbs target ≠ rooted then none
  else if goal = start then some [dot]
  else
    -- A target of "." is compared as it stands.
    let (up, down) := apart start (if goal = [] ∧ ¬ rooted then [[dot]] else goal)
    if up.head? = some dotdot then none
    else some ([slash].intercalate (up.map (fun _ => dotdot) ++ down))

/-- How many leading `..` a path keeps when it is cleaned as a relative path. -/
def climbs (path : Bytes) : Nat :=
  (normal false (elements path)).count dotdot

def names (path : Bytes) : List Bytes :=
  (normal false (elements path)).filter (· ≠ dotdot)

/-- Followed from `location`, the path does not climb out of it, or the names it goes on with lead back:
they begin with the names it has climbed over. -/
def Inward (location : Location) (path : Bytes) : Prop :=
  location.drop (location.length - climbs path) <+: names path

instance (location : Location) (path : Bytes) : Decidable (Inward location path) :=
  inferInstanceAs (Decidable (_ <+: _))

variable {path first last : Bytes} {pending : List Bytes} {location start : Location}

theorem elements_append (first second : Bytes) :
    elements (first ++ slash :: second) = elements first ++ elements second :=
  splitOn_append_cons_self _ _

theorem elements_intercalate {names : List Bytes} (free : ∀ name ∈ names, slash ∉ name)
    (nonempty : names ≠ []) : elements ([slash].intercalate names) = names :=
  splitOn_intercalate slash free nonempty

/-- Some `..`, none when the path is rooted, and then names. -/
structure Cleaned (rooted : Bool) (names : List Bytes) : Prop where
  shape : ∃ ups rest, names = List.replicate ups dotdot ++ rest ∧ (∀ name ∈ rest, Proper name) ∧
    (rooted = true → ups = 0)
  free : ∀ name ∈ names, slash ∉ name

theorem Cleaned.nil (rooted : Bool) : Cleaned rooted [] :=
  ⟨⟨0, [], rfl, by simp, fun _ => rfl⟩, by simp⟩

theorem Cleaned.of_proper {rooted : Bool} {names : List Bytes} (proper : ∀ name ∈ names, Proper name)
    (free : ∀ name ∈ names, slash ∉ name) : Cleaned rooted names :=
  ⟨⟨0, names, rfl, proper, fun _ => rfl⟩, free⟩

theorem dotdot_free : slash ∉ dotdot := by decide

section Push

variable {rooted : Bool} {done : List Bytes} {element : Bytes}

theorem push_of_skipped (skipped : element = [] ∨ element = [dot]) : push rooted done element = done :=
  if_pos skipped

theorem push_of_proper (proper : Proper element) : push rooted done element = done ++ [element] := by
  rw [push, if_neg (by rintro (h | h) <;> [exact proper.1 h; exact proper.2.1 h]), if_neg proper.2.2]

theorem push_dotdot_concat {last : Bytes} (proper : Proper last) :
    push rooted (done ++ [last]) dotdot = done := by
  have last? : (done ++ [last]).getLast? = some last := by simp
  rw [push, if_neg (by decide), if_pos rfl, last?]
  simp [proper.2.2]

theorem push_dotdot_replicate (ups : Nat) :
    push false (List.replicate ups dotdot) dotdot = List.replicate (ups + 1) dotdot := by
  rw [push, if_neg (by decide), if_pos rfl]
  cases ups with
  | zero => rfl
  | succ ups =>
    simp [replicate_succ']

theorem element_cases (element : Bytes) :
    (element = [] ∨ element = [dot]) ∨ element = dotdot ∨ Proper element := by
  by_cases skipped : element = [] ∨ element = [dot]
  · exact .inl skipped
  · by_cases up : element = dotdot
    · exact .inr (.inl up)
    · exact .inr (.inr ⟨fun h => skipped (.inl h), fun h => skipped (.inr h), up⟩)

theorem foldl_push_proper {names : List Bytes} (proper : ∀ name ∈ names, Proper name) :
    names.foldl (push rooted) done = done ++ names := by
  induction names generalizing done with
  | nil => simp
  | cons name names ih =>
    obtain ⟨first, later⟩ := forall_mem_cons.mp proper
    rw [foldl_cons, push_of_proper first, ih later]
    simp

theorem Cleaned.normal_eq (cleaned : Cleaned rooted done) : normal rooted done = done := by
  obtain ⟨⟨ups, rest, rfl, proper, atRoot⟩, -⟩ := cleaned
  have ascent : (List.replicate ups dotdot).foldl (push rooted) [] = List.replicate ups dotdot := by
    cases rooted with
    | true => rw [atRoot rfl]; rfl
    | false =>
      clear atRoot
      induction ups with
      | zero => rfl
      | succ ups ih =>
        rw [replicate_succ', foldl_append, ih]
        simpa [replicate_succ'] using push_dotdot_replicate ups
  rw [normal, foldl_append, ascent, foldl_push_proper proper]

end Push

/-! ### Cleaning does not change where a path leads -/

@[simp] theorem walk_nil (location : Location) : walk location [] = location := rfl

@[simp] theorem walk_append (location : Location) (first second : List Bytes) :
    walk location (first ++ second) = walk (walk location first) second :=
  foldl_append

theorem walk_concat (location : Location) (front : List Bytes) (last : Bytes) :
    walk location (front ++ [last]) = enter (walk location front) last := by
  rw [walk_append]
  rfl

theorem enter_of_skipped {element : Bytes}
    (skipped : element = [] ∨ element = [dot]) : enter location element = location :=
  if_pos skipped

theorem enter_of_proper {element : Bytes} (proper : Proper element) :
    enter location element = location ++ [element] := by
  rw [enter, if_neg (by rintro (h | h) <;> [exact proper.1 h; exact proper.2.1 h]),
    if_neg proper.2.2]

@[simp] theorem enter_dotdot (location : Location) : enter location dotdot = location.dropLast := by
  rw [enter, if_neg (by decide), if_pos rfl]

section Follow

variable {rooted : Bool} {done : List Bytes} (cleaned : Cleaned rooted done)
  (root : rooted = true → start = [])
include cleaned root

theorem Cleaned.push {element : Bytes} (free : slash ∉ element) : Cleaned rooted (push rooted done element) ∧
    walk start (Path.push rooted done element) = enter (walk start done) element := by
  obtain ⟨⟨ups, rest, rfl, proper, atRoot⟩, slashes⟩ := cleaned
  rcases element_cases element with skipped | rfl | named
  · rw [push_of_skipped skipped, enter_of_skipped skipped]
    exact ⟨⟨⟨ups, rest, rfl, proper, atRoot⟩, slashes⟩, rfl⟩
  · rcases eq_nil_or_concat rest with rfl | ⟨front, last, rfl⟩
    · rw [append_nil]
      cases rooted with
      | false =>
        rw [push_dotdot_replicate]
        refine ⟨⟨⟨ups + 1, [], by simp, by simp, by simp⟩, fun name member => ?_⟩, ?_⟩
        · rw [eq_of_mem_replicate member]
          exact dotdot_free
        · rw [replicate_succ', walk_concat]
      | true =>
        rw [atRoot rfl, root rfl]
        exact ⟨Cleaned.nil true, rfl⟩
    · have last? := proper last (by simp)
      rw [concat_eq_append, ← append_assoc] at slashes ⊢
      rw [push_dotdot_concat last?, walk_concat, enter_of_proper last?, enter_dotdot, dropLast_concat]
      exact ⟨⟨⟨ups, front, rfl, fun name member => proper name (by simp [member]), atRoot⟩,
        fun name member => slashes name (mem_append_left _ member)⟩, rfl⟩
  · rw [push_of_proper named, walk_concat]
    refine ⟨⟨⟨ups, rest ++ [element], by simp, ?_, atRoot⟩, ?_⟩, rfl⟩
    · exact forall_mem_append.mpr ⟨proper, by simpa using named⟩
    · exact forall_mem_append.mpr ⟨slashes, by simpa using free⟩

theorem Cleaned.foldl_push (free : ∀ element ∈ pending, slash ∉ element) :
    Cleaned rooted (pending.foldl (Path.push rooted) done) ∧
      walk start (pending.foldl (Path.push rooted) done) = walk (walk start done) pending := by
  induction pending generalizing done with
  | nil => exact ⟨cleaned, rfl⟩
  | cons element pending ih =>
    obtain ⟨first, rest⟩ := forall_mem_cons.mp free
    obtain ⟨pushed, same⟩ := cleaned.push root first
    obtain ⟨whole, leads⟩ := ih pushed rest
    rw [same] at leads
    exact ⟨whole, leads⟩

end Follow

theorem cleaned_normal (rooted : Bool) (path : Bytes) : Cleaned rooted (normal rooted (elements path)) :=
  ((Cleaned.nil rooted).foldl_push (fun _ => rfl) fun _ member => not_mem_of_mem_splitOn member).1

theorem walk_normal {rooted : Bool} (path : Bytes) (root : rooted = true → start = []) :
    walk start (normal rooted (elements path)) = walk start (elements path) :=
  ((Cleaned.nil rooted).foldl_push root fun _ member => not_mem_of_mem_splitOn member).2

section Render

variable {rooted : Bool} {names : List Bytes}

theorem isAbs_render (cleaned : Cleaned rooted names) : isAbs (render rooted names) = rooted := by
  cases rooted with
  | true => rfl
  | false =>
    cases names with
    | nil => rfl
    | cons name rest =>
      have free : slash ∉ name := cleaned.free name mem_cons_self
      have nonempty : name ≠ [] := by
        obtain ⟨⟨ups, tail, split, proper, -⟩, -⟩ := cleaned
        cases ups with
        | zero =>
          rw [replicate_zero, nil_append] at split
          exact (proper name (split ▸ mem_cons_self)).1
        | succ ups =>
          rw [(List.cons.inj split).1]
          decide
      obtain ⟨byte, bytes, rfl⟩ := exists_cons_of_ne_nil nonempty
      have different : byte ≠ slash := fun same => free (same ▸ mem_cons_self)
      have starts : ([slash].intercalate ((byte :: bytes) :: rest)).head? = some byte := by
        cases rest <;> simp [List.intercalate]
      rw [render, if_neg (by decide), if_neg (cons_ne_nil _ _), isAbs, starts]
      simpa using different

theorem elements_render (cleaned : Cleaned rooted names) (nonempty : names ≠ []) :
    elements (render rooted names) = if rooted then [] :: names else names := by
  have whole := elements_intercalate cleaned.free nonempty
  cases rooted with
  | true => exact (elements_append [] _).trans (congrArg ([[]] ++ ·) whole)
  | false => rwa [render, if_neg (by decide), if_neg nonempty]

theorem normal_elements_render (cleaned : Cleaned rooted names) :
    normal rooted (elements (render rooted names)) = names := by
  rcases eq_or_ne names [] with rfl | nonempty
  · cases rooted <;> decide
  · rw [elements_render cleaned nonempty]
    cases rooted <;> exact cleaned.normal_eq

theorem resolve_render (cwd : Location) (cleaned : Cleaned rooted names) :
    resolve cwd (render rooted names) = walk (if rooted then [] else cwd) names := by
  have root : rooted = true → (if rooted then [] else cwd) = ([] : Location) := fun h => if_pos h
  rw [resolve, isAbs_render cleaned, ← walk_normal _ root, normal_elements_render cleaned]

end Render

theorem resolve_clean (cwd : Location) (path : Bytes) : resolve cwd (clean path) = resolve cwd path := by
  rw [clean, resolve_render cwd (cleaned_normal _ _)]
  exact walk_normal path fun h => if_pos h

theorem isAbs_append (nonempty : first ≠ []) (rest : Bytes) : isAbs (first ++ rest) = isAbs first := by
  obtain ⟨byte, bytes, rfl⟩ := exists_cons_of_ne_nil nonempty
  rfl

theorem resolve_join (cwd : Location) (nonempty : first ≠ []) (second : Bytes) :
    resolve cwd (join first second) = walk (resolve cwd first) (elements second) := by
  rw [join, if_neg nonempty, resolve_clean, resolve, isAbs_append nonempty, elements_append, walk_append]
  rfl

theorem normal_eq_climbs_names (path : Bytes) :
    normal false (elements path) = List.replicate (climbs path) dotdot ++ names path ∧
      ∀ name ∈ names path, Proper name := by
  obtain ⟨⟨ups, rest, split, proper, -⟩, -⟩ := cleaned_normal false path
  have absent : dotdot ∉ rest := fun member => (proper _ member).2.2 rfl
  have climbed : climbs path = ups := by
    rw [climbs, split, count_append, count_replicate_self, count_eq_zero.mpr absent,
      Nat.add_zero]
  have named : names path = rest := by
    have kept : rest.filter (· ≠ dotdot) = rest :=
      filter_eq_self.mpr fun name member => by simpa using (proper name member).2.2
    rw [names, split, filter_append, kept]
    simp
  exact ⟨by rw [climbed, named, split], named ▸ proper⟩

theorem walk_proper (location : Location) {names : List Bytes} (proper : ∀ name ∈ names, Proper name) :
    walk location names = location ++ names := by
  induction names generalizing location with
  | nil => simp
  | cons name names ih =>
    obtain ⟨first, rest⟩ := forall_mem_cons.mp proper
    have := ih (enter location name) rest
    simpa [walk, enter_of_proper first] using this

theorem walk_replicate_dotdot (location : Location) (ups : Nat) :
    walk location (List.replicate ups dotdot) = location.take (location.length - ups) := by
  induction ups with
  | zero => simp
  | succ ups ih =>
    rw [replicate_succ', walk_concat, ih, enter_dotdot,
      dropLast_eq_take, take_take, length_take]
    congr 1
    omega

theorem walk_elements (location : Location) (path : Bytes) :
    walk location (elements path) =
      location.take (location.length - climbs path) ++ names path := by
  obtain ⟨split, proper⟩ := normal_eq_climbs_names path
  have cleaned : walk location (normal false (elements path)) = walk location (elements path) :=
    walk_normal path (by simp)
  rw [← cleaned, split, walk_append, walk_replicate_dotdot, walk_proper _ proper]

theorem prefix_walk_iff (location : Location) (path : Bytes) :
    location <+: walk location (elements path) ↔ Inward location path := by
  rw [walk_elements, Inward]
  generalize location.length - climbs path = kept
  have split : location.take kept ++ location.drop kept <+: location.take kept ++ names path ↔ _ :=
    List.prefix_append_right_inj (location.take kept)
  rwa [take_append_drop] at split

theorem intercalate_concat {front : List Bytes} (nonempty : front ≠ []) (last : Bytes) :
    [slash].intercalate (front ++ [last]) = [slash].intercalate front ++ slash :: last := by
  induction front with
  | nil => exact absurd rfl nonempty
  | cons name front ih =>
    cases front with
    | nil => simp [List.intercalate]
    | cons next rest =>
      have step := ih (cons_ne_nil _ _)
      simp only [cons_append, intercalate_cons_cons] at step ⊢
      simp [step]

theorem upTo_last_slash (path : Bytes) (free : slash ∉ last) :
    (path ++ slash :: last).rdropWhile (· ≠ slash) = path ++ [slash] := by
  induction last using List.reverseRecOn with
  | nil => exact rdropWhile_concat_neg _ _ _ (by simp)
  | append_singleton last byte ih =>
    simp only [mem_append, mem_singleton, not_or] at free
    rw [← cons_append, ← append_assoc, rdropWhile_concat_pos _ _ _ (by simpa using Ne.symm free.2), ih free.1]

theorem no_slash (free : slash ∉ last) : last.rdropWhile (· ≠ slash) = [] := by
  rw [rdropWhile_eq_nil_iff]
  exact fun byte member => decide_eq_true fun same => free (same ▸ member)

theorem clean_concat_slash (nonempty : path ≠ []) : clean (path ++ [slash]) = clean path := by
  have trailing : elements (path ++ [slash]) = elements path ++ [[]] := elements_append path []
  rw [clean, isAbs_append nonempty, trailing, normal, foldl_append]
  rfl

section Directory

variable {rooted : Bool} {names : List Bytes} (cleaned : Cleaned rooted names)
include cleaned

theorem clean_render :
    clean (render rooted names) = render rooted names := by
  rw [clean, isAbs_render cleaned, normal_elements_render cleaned]

theorem Cleaned.dropLast : Cleaned rooted names.dropLast := by
  obtain ⟨⟨ups, rest, rfl, proper, atRoot⟩, free⟩ := cleaned
  refine ⟨?_, fun name member => free name (dropLast_subset _ member)⟩
  rcases eq_nil_or_concat rest with rfl | ⟨front, last, rfl⟩
  · refine ⟨ups - 1, [], by simp, by simp, fun root => by rw [atRoot root]⟩
  · refine ⟨ups, front, ?_, fun name member => proper name (by simp [member]), atRoot⟩
    rw [concat_eq_append, ← append_assoc, dropLast_concat]

theorem dir_render :
    dir (render rooted names) = render rooted names.dropLast := by
  rcases eq_nil_or_concat names with rfl | ⟨front, last, rfl⟩
  · cases rooted <;> decide
  · rw [concat_eq_append] at cleaned ⊢
    have free : slash ∉ last := cleaned.free last (by simp)
    have front' : Cleaned rooted front := by simpa using cleaned.dropLast
    rw [dropLast_concat]
    rcases eq_or_ne front [] with rfl | nonempty
    · cases rooted with
      | true =>
        have whole : render true ([] ++ [last]) = [] ++ slash :: last := by
          simp [render, List.intercalate]
        rw [dir, whole, upTo_last_slash [] free]
        decide
      | false =>
        have whole : render false ([] ++ [last]) = last := by simp [render, List.intercalate]
        rw [dir, whole, no_slash free]
        decide
    · have whole : render rooted (front ++ [last]) = render rooted front ++ slash :: last := by
        cases rooted <;> simp [render, intercalate_concat nonempty, nonempty]
      have text : render rooted front ≠ [] := by
        intro empty
        have same := normal_elements_render front'
        rw [empty] at same
        exact nonempty (same.symm.trans (by cases rooted <;> decide))
      rw [dir, whole, upTo_last_slash _ free, clean_concat_slash text, clean_render front']

end Directory

/-- The directory of a cleaned path is the parent of where the path leads, or lies below the latter:
`Dir("..")` is `"."`. -/
theorem resolve_dir_clean (cwd : Location) (path : Bytes) :
    resolve cwd (dir (clean path)) = (resolve cwd path).dropLast ∨
      resolve cwd path <+: resolve cwd (dir (clean path)) := by
  have cleaned := cleaned_normal (isAbs path) path
  rw [← resolve_clean cwd path, clean, dir_render cleaned, resolve_render cwd cleaned,
    resolve_render cwd cleaned.dropLast]
  generalize normal (isAbs path) (elements path) = names at cleaned ⊢
  rcases eq_nil_or_concat names with rfl | ⟨front, last, rfl⟩
  · exact .inr List.prefix_rfl
  · rw [concat_eq_append, dropLast_concat, walk_concat]
    rcases element_cases last with skipped | rfl | named
    · exact .inr (by simp [enter_of_skipped skipped])
    · exact .inr (by rw [enter_dotdot]; exact List.dropLast_prefix _)
    · exact .inl (by rw [enter_of_proper named, dropLast_concat])

theorem apart_append (base names : List Bytes) : apart base (base ++ names) = ([], names) := by
  induction base with
  | nil => cases names <;> rfl
  | cons first base ih => simpa [apart] using ih

theorem rel_self (base : Bytes) : rel base base = some [dot] := by
  simp [rel]

theorem join_names (nonempty : first ≠ []) {names : List Bytes}
    (proper : ∀ name ∈ names, Proper name) (free : ∀ name ∈ names, slash ∉ name) (some : names ≠ []) :
    join first ([slash].intercalate names) =
        render (isAbs first) (normal (isAbs first) (elements first) ++ names) ∧
      Cleaned (isAbs first) (normal (isAbs first) (elements first) ++ names) := by
  have whole : normal (isAbs first) (elements (first ++ slash :: [slash].intercalate names)) =
      normal (isAbs first) (elements first) ++ names := by
    rw [elements_append, elements_intercalate free some, normal, foldl_append, foldl_push_proper proper]
    rfl
  refine ⟨?_, whole ▸ cleaned_normal (isAbs first) (first ++ slash :: [slash].intercalate names)⟩
  rw [join, if_neg nonempty, clean, isAbs_append nonempty, whole]

theorem normal_join {name : Bytes} (nonempty : first ≠ []) (proper : Proper name)
    (free : slash ∉ name) :
    join first name ≠ [] ∧ isAbs (join first name) = isAbs first ∧
      normal (isAbs first) (elements (join first name)) =
        normal (isAbs first) (elements first) ++ [name] := by
  obtain ⟨joined, cleaned⟩ :=
    join_names nonempty (show ∀ other ∈ [name], Proper other by simpa using proper) (by simpa using free)
      (cons_ne_nil _ _)
  rw [intercalate_singleton] at joined
  have names := normal_elements_render cleaned
  rw [← joined] at names
  refine ⟨fun empty => ?_, joined ▸ isAbs_render cleaned, names⟩
  rw [empty] at names
  cases rooted : isAbs first <;> simp [rooted, normal, elements, push] at names

theorem resolve_join_names (cwd : Location) (nonempty : first ≠ []) {names : List Bytes}
    (proper : ∀ name ∈ names, Proper name) (free : ∀ name ∈ names, slash ∉ name) (some : names ≠ []) :
    resolve cwd (join first ([slash].intercalate names)) = resolve cwd first ++ names ∧
      resolve cwd (dir (join first ([slash].intercalate names))) = resolve cwd first ++ names.dropLast := by
  obtain ⟨joined, cleaned⟩ := join_names nonempty proper free some
  have start : walk (if isAbs first then [] else cwd) (normal (isAbs first) (elements first)) =
      resolve cwd first :=
    walk_normal first fun h => if_pos h
  rw [joined, dir_render cleaned, resolve_render cwd cleaned, resolve_render cwd cleaned.dropLast,
    dropLast_append_of_ne_nil some, walk_append, walk_append, start]
  exact ⟨walk_proper _ proper, walk_proper _ fun name member => proper name (dropLast_subset _ member)⟩

end Foundation.Path
