/-
Purpose: Regular expressions as a backtracking search reads them, and Go's patterns over bytes.
-/
import NuraOS.Foundation.Text

namespace Foundation

open List hiding set

variable {α : Type}

/-- A pattern. The choice of the search stands in the pattern: the first alternative before the second, a
greedy repetition goes on before it stops. -/
inductive Regexp (α : Type) where
  | empty
  | one (set : α → Bool)
  | cat (first second : Regexp α)
  | alt (first second : Regexp α)
  | star (greedy : Bool) (body : Regexp α)
  | boundary (word : α → Bool)

/-- A place in a text: what was read, the last symbol first, and what is still to come. -/
@[ext] structure Spot (α : Type) where
  before : List α
  rest : List α

namespace Regexp

def among [BEq α] (symbols : List α) : Regexp α :=
  .one fun symbol => symbols.contains symbol

def sequence (patterns : List (Regexp α)) : Regexp α :=
  patterns.foldr .cat .empty

def choice (first : Regexp α) (others : List (Regexp α)) : Regexp α :=
  others.foldl .alt first

def plus (body : Regexp α) : Regexp α :=
  .cat body (.star true body)

def maybe (body : Regexp α) : Regexp α :=
  .alt body .empty

def times (count : Nat) (body : Regexp α) : Regexp α :=
  sequence (List.replicate count body)

/-- The ends of a repetition, the preferred one first. A round that takes nothing is not made. -/
def rounds (greedy : Bool) (step : Spot α → List (Spot α)) : Nat → Spot α → List (Spot α)
  | 0, spot => [spot]
  | fuel + 1, spot =>
    let further := ((step spot).filter fun reached => reached.rest.length < spot.rest.length).flatMap
      (rounds greedy step fuel)
    if greedy then further ++ [spot] else spot :: further

@[simp] def ends : Regexp α → Spot α → List (Spot α)
  | .empty, spot => [spot]
  | .one _, ⟨_, []⟩ => []
  | .one set, ⟨before, symbol :: rest⟩ => if set symbol then [⟨symbol :: before, rest⟩] else []
  | .cat first second, spot => (ends first spot).flatMap (ends second)
  | .alt first second, spot => ends first spot ++ ends second spot
  | .star greedy body, spot => rounds greedy (ends body) spot.rest.length spot
  | .boundary word, spot => if spot.before.head?.any word = spot.rest.head?.any word then [] else [spot]

/-- Rewrite the matches from a place on: the leftmost one, then those behind it. A match of no symbols is
left alone. -/
def rewrite (pattern : Regexp α) (change : List α → List α) : Nat → Spot α → List α
  | 0, spot => spot.rest
  | fuel + 1, spot =>
    match (ends pattern spot).head?.filter fun reached => reached.rest.length < spot.rest.length with
    | some reached =>
      change (spot.rest.take (spot.rest.length - reached.rest.length)) ++
        rewrite pattern change fuel reached
    | none =>
      match spot.rest with
      | [] => []
      | symbol :: rest => symbol :: rewrite pattern change fuel ⟨symbol :: spot.before, rest⟩

def replaceAll (pattern : Regexp α) (change : List α → List α) (text : List α) : List α :=
  rewrite pattern change text.length ⟨[], text⟩

end Regexp

namespace Spot

variable {spot middle reached : Spot α} {taken more : List α}

def Reads (spot : Spot α) (taken : List α) (reached : Spot α) : Prop :=
  spot.rest = taken ++ reached.rest ∧ reached.before = taken.reverse ++ spot.before

theorem Reads.refl (spot : Spot α) : spot.Reads [] spot :=
  ⟨rfl, rfl⟩

theorem Reads.trans (first : spot.Reads taken middle) (second : middle.Reads more reached) :
    spot.Reads (taken ++ more) reached := by
  constructor
  · rw [first.1, second.1, append_assoc]
  · rw [second.2, first.2, reverse_append, append_assoc]

/-- The same place with more text in front of it. -/
def behind (front : List α) (spot : Spot α) : Spot α :=
  ⟨spot.before ++ front, spot.rest⟩

end Spot

/-! ### What a match takes -/

namespace Regexp

variable {pattern first second body : Regexp α} {spot reached : Spot α} {kind : α → Bool}

def Takes : Regexp α → List α → Prop
  | .empty, taken => taken = []
  | .one set, taken => ∃ symbol, set symbol = true ∧ taken = [symbol]
  | .cat first second, taken => ∃ front back, taken = front ++ back ∧ Takes first front ∧ Takes second back
  | .alt first second, taken => Takes first taken ∨ Takes second taken
  | .star _ body, taken => ∃ pieces : List (List α), taken = pieces.flatten ∧ ∀ piece ∈ pieces, Takes body piece
  | .boundary _, taken => taken = []

def Unanchored : Regexp α → Prop
  | .empty => True
  | .one _ => True
  | .cat first second => Unanchored first ∧ Unanchored second
  | .alt first second => Unanchored first ∧ Unanchored second
  | .star _ body => Unanchored body
  | .boundary _ => False

instance decidableUnanchored : ∀ pattern : Regexp α, Decidable (Unanchored pattern)
  | .empty | .one _ => inferInstanceAs (Decidable True)
  | .cat first second | .alt first second =>
    have := decidableUnanchored first
    have := decidableUnanchored second
    inferInstanceAs (Decidable (Unanchored first ∧ Unanchored second))
  | .star _ body => decidableUnanchored body
  | .boundary _ => inferInstanceAs (Decidable False)

def Within (kind : α → Prop) : Regexp α → Prop
  | .empty => True
  | .one set => ∀ symbol, set symbol = true → kind symbol
  | .cat first second => Within kind first ∧ Within kind second
  | .alt first second => Within kind first ∧ Within kind second
  | .star _ body => Within kind body
  | .boundary _ => True

theorem Within.of_takes {kind : α → Prop} (within : Within kind pattern) {taken : List α}
    (takes : Takes pattern taken) : ∀ symbol ∈ taken, kind symbol := by
  induction pattern generalizing taken with
  | empty =>
    cases takes
    exact forall_mem_nil _
  | one set =>
    obtain ⟨symbol, fits, rfl⟩ := takes
    simpa using within symbol fits
  | cat first second ofFirst ofSecond =>
    obtain ⟨front, back, rfl, takesFront, takesBack⟩ := takes
    exact forall_mem_append.mpr ⟨ofFirst within.1 takesFront, ofSecond within.2 takesBack⟩
  | alt first second ofFirst ofSecond => exact takes.elim (ofFirst within.1) (ofSecond within.2)
  | star greedy body ofBody =>
    obtain ⟨pieces, rfl, takesPieces⟩ := takes
    intro symbol member
    obtain ⟨piece, inPieces, inPiece⟩ := mem_flatten.mp member
    exact ofBody within (takesPieces piece inPieces) symbol inPiece
  | boundary word =>
    cases takes
    exact forall_mem_nil _

/-- Every match takes a symbol of a kind. -/
def Needs (kind : α → Prop) : Regexp α → Prop
  | .one set => ∀ symbol, set symbol = true → kind symbol
  | .cat first second => Needs kind first ∨ Needs kind second
  | .alt first second => Needs kind first ∧ Needs kind second
  | _ => False

theorem Needs.of_takes {kind : α → Prop} (needs : Needs kind pattern) {taken : List α}
    (takes : Takes pattern taken) : ∃ symbol ∈ taken, kind symbol := by
  induction pattern generalizing taken with
  | one set =>
    obtain ⟨symbol, fits, rfl⟩ := takes
    exact ⟨symbol, mem_singleton_self symbol, needs symbol fits⟩
  | cat first second ofFirst ofSecond =>
    obtain ⟨front, back, rfl, takesFront, takesBack⟩ := takes
    rcases needs with inFirst | inSecond
    · obtain ⟨symbol, member, fits⟩ := ofFirst inFirst takesFront
      exact ⟨symbol, mem_append_left _ member, fits⟩
    · obtain ⟨symbol, member, fits⟩ := ofSecond inSecond takesBack
      exact ⟨symbol, mem_append_right _ member, fits⟩
  | alt first second ofFirst ofSecond => exact takes.elim (ofFirst needs.1) (ofSecond needs.2)
  | empty | star | boundary => exact needs.elim

section Avoiding

variable (symbols : List α)

instance decidableAvoids (set : α → Bool) : Decidable (∀ symbol, set symbol = true → symbol ∉ symbols) :=
  decidable_of_iff (∀ symbol ∈ symbols, set symbol = false) (by grind)

instance decidableWithin : ∀ pattern : Regexp α, Decidable (Within (· ∉ symbols) pattern)
  | .empty | .boundary _ => inferInstanceAs (Decidable True)
  | .one set => decidableAvoids symbols set
  | .cat first second | .alt first second =>
    have := decidableWithin first
    have := decidableWithin second
    inferInstanceAs (Decidable (Within _ first ∧ Within _ second))
  | .star _ body => decidableWithin body

instance decidableNeeds : ∀ pattern : Regexp α, Decidable (Needs (· ∉ symbols) pattern)
  | .one set => decidableAvoids symbols set
  | .cat first second =>
    have := decidableNeeds first
    have := decidableNeeds second
    inferInstanceAs (Decidable (Needs _ first ∨ Needs _ second))
  | .alt first second =>
    have := decidableNeeds first
    have := decidableNeeds second
    inferInstanceAs (Decidable (Needs _ first ∧ Needs _ second))
  | .empty | .star _ _ | .boundary _ => inferInstanceAs (Decidable False)

end Avoiding

variable {greedy : Bool} {step : Spot α → List (Spot α)} {fuel : Nat} {set : α → Bool}
  {symbol : α} {patterns others : List (Regexp α)} {rest : List α}

theorem mem_rounds_succ :
    reached ∈ rounds greedy step (fuel + 1) spot ↔
      reached = spot ∨ ∃ middle ∈ step spot, middle.rest.length < spot.rest.length ∧
        reached ∈ rounds greedy step fuel middle := by
  rw [rounds]
  cases greedy <;> simp [and_assoc, or_comm]

theorem mem_rounds_of_reads {body : Regexp α}
    (bodyEnds : ∀ {spot reached : Spot α} {taken : List α}, Takes body taken → spot.Reads taken reached →
      reached ∈ ends body spot)
    {pieces : List (List α)} (takes : ∀ piece ∈ pieces, Takes body piece)
    (reads : spot.Reads pieces.flatten reached) (enough : spot.rest.length ≤ fuel) :
    reached ∈ rounds greedy (ends body) fuel spot := by
  induction pieces generalizing spot fuel with
  | nil =>
    have same : reached = spot := Spot.ext reads.2 reads.1.symm
    cases fuel with
    | zero => exact mem_singleton.mpr same
    | succ fuel => exact mem_rounds_succ.mpr (Or.inl same)
  | cons piece pieces ih =>
    rw [forall_mem_cons] at takes
    cases piece with
    | nil => exact ih takes.2 reads enough
    | cons symbol piece =>
      -- the place behind the first piece, which is shorter
      have middle : spot.Reads (symbol :: piece) ⟨(symbol :: piece).reverse ++ spot.before,
          pieces.flatten ++ reached.rest⟩ := by
        refine ⟨?_, rfl⟩
        rw [reads.1, flatten_cons, append_assoc]
      have onward : Spot.Reads ⟨(symbol :: piece).reverse ++ spot.before, pieces.flatten ++ reached.rest⟩
          pieces.flatten reached := by
        refine ⟨rfl, ?_⟩
        rw [reads.2, flatten_cons, reverse_append, append_assoc]
      have size := congrArg List.length middle.1
      rw [length_append, length_cons] at size
      cases fuel with
      | zero => omega
      | succ fuel =>
        refine mem_rounds_succ.mpr (Or.inr ⟨_, bodyEnds takes.1 middle, by omega, ?_⟩)
        exact ih takes.2 onward (by omega)

theorem exists_pieces_of_mem_rounds {body : Regexp α}
    (bodyTakes : ∀ {spot reached : Spot α}, reached ∈ ends body spot →
      ∃ taken, Takes body taken ∧ spot.Reads taken reached)
    (member : reached ∈ rounds greedy (ends body) fuel spot) :
    ∃ pieces : List (List α), (∀ piece ∈ pieces, Takes body piece) ∧ spot.Reads pieces.flatten reached := by
  induction fuel generalizing spot with
  | zero =>
    obtain rfl := mem_singleton.mp member
    exact ⟨[], forall_mem_nil _, Spot.Reads.refl _⟩
  | succ fuel ih =>
    rcases mem_rounds_succ.mp member with rfl | ⟨middle, inBody, -, later⟩
    · exact ⟨[], forall_mem_nil _, Spot.Reads.refl _⟩
    · obtain ⟨taken, takes, reads⟩ := bodyTakes inBody
      obtain ⟨pieces, takesPieces, moreReads⟩ := ih later
      exact ⟨taken :: pieces, forall_mem_cons.mpr ⟨takes, takesPieces⟩, reads.trans moreReads⟩

theorem exists_takes (member : reached ∈ ends pattern spot) :
    ∃ taken, Takes pattern taken ∧ spot.Reads taken reached := by
  induction pattern generalizing spot reached with
  | empty =>
    obtain rfl := mem_singleton.mp member
    exact ⟨[], rfl, Spot.Reads.refl _⟩
  | one set =>
    obtain ⟨before, rest⟩ := spot
    cases rest with
    | nil => cases member
    | cons symbol rest =>
      rw [ends] at member
      split at member
      · rename_i fits
        obtain rfl := mem_singleton.mp member
        exact ⟨[symbol], ⟨symbol, fits, rfl⟩, rfl, rfl⟩
      · cases member
  | cat first second ofFirst ofSecond =>
    obtain ⟨middle, inFirst, inSecond⟩ := mem_flatMap.mp member
    obtain ⟨front, takesFront, reads⟩ := ofFirst inFirst
    obtain ⟨back, takesBack, moreReads⟩ := ofSecond inSecond
    exact ⟨front ++ back, ⟨front, back, rfl, takesFront, takesBack⟩, reads.trans moreReads⟩
  | alt first second ofFirst ofSecond =>
    rcases mem_append.mp member with inFirst | inSecond
    · obtain ⟨taken, takes, reads⟩ := ofFirst inFirst
      exact ⟨taken, Or.inl takes, reads⟩
    · obtain ⟨taken, takes, reads⟩ := ofSecond inSecond
      exact ⟨taken, Or.inr takes, reads⟩
  | star greedy body ofBody =>
    obtain ⟨pieces, takes, reads⟩ := exists_pieces_of_mem_rounds ofBody member
    exact ⟨pieces.flatten, ⟨pieces, rfl, takes⟩, reads⟩
  | boundary word =>
    rw [ends] at member
    split at member
    · cases member
    · obtain rfl := mem_singleton.mp member
      exact ⟨[], rfl, Spot.Reads.refl _⟩

theorem mem_ends_of_takes (unanchored : Unanchored pattern) {taken : List α} (takes : Takes pattern taken)
    (reads : spot.Reads taken reached) : reached ∈ ends pattern spot := by
  induction pattern generalizing spot reached taken with
  | empty =>
    cases takes
    exact mem_singleton.mpr (Spot.ext reads.2 reads.1.symm)
  | one set =>
    obtain ⟨symbol, fits, rfl⟩ := takes
    have start : spot = ⟨spot.before, symbol :: reached.rest⟩ := Spot.ext rfl reads.1
    rw [start, ends, if_pos fits]
    exact mem_singleton.mpr (Spot.ext reads.2 rfl)
  | cat first second ofFirst ofSecond =>
    obtain ⟨front, back, rfl, takesFront, takesBack⟩ := takes
    have middle : spot.Reads front ⟨front.reverse ++ spot.before, back ++ reached.rest⟩ :=
      ⟨by rw [reads.1, append_assoc], rfl⟩
    have onward : Spot.Reads ⟨front.reverse ++ spot.before, back ++ reached.rest⟩ back reached :=
      ⟨rfl, by rw [reads.2, reverse_append, append_assoc]⟩
    exact mem_flatMap.mpr ⟨_, ofFirst unanchored.1 takesFront middle, ofSecond unanchored.2 takesBack onward⟩
  | alt first second ofFirst ofSecond =>
    rcases takes with takesFirst | takesSecond
    · exact mem_append_left _ (ofFirst unanchored.1 takesFirst reads)
    · exact mem_append_right _ (ofSecond unanchored.2 takesSecond reads)
  | star greedy body ofBody =>
    obtain ⟨pieces, rfl, takesPieces⟩ := takes
    exact mem_rounds_of_reads (fun takes reads => ofBody unanchored takes reads) takesPieces reads (Nat.le_refl _)
  | boundary word => exact unanchored.elim

/-- A pattern that looks at nothing before it matches where the text starts with one of its texts. -/
theorem ends_ne_nil_iff (unanchored : Unanchored pattern) :
    ends pattern spot ≠ [] ↔ ∃ taken rest, Takes pattern taken ∧ spot.rest = taken ++ rest := by
  constructor
  · intro nonempty
    obtain ⟨reached, member⟩ := exists_mem_of_ne_nil _ nonempty
    obtain ⟨taken, takes, reads⟩ := exists_takes member
    exact ⟨taken, reached.rest, takes, reads.1⟩
  · rintro ⟨taken, rest, takes, starts⟩
    have reads : spot.Reads taken ⟨taken.reverse ++ spot.before, rest⟩ := ⟨starts, rfl⟩
    exact ne_nil_of_mem (mem_ends_of_takes unanchored takes reads)

/-- The greedy star of a set takes all symbols of the set that come first. -/
theorem head?_rounds_one (enough : spot.rest.length ≤ fuel) :
    (rounds true (ends (.one kind)) fuel spot).head?.map Spot.rest = some (spot.rest.dropWhile kind) := by
  induction fuel generalizing spot with
  | zero =>
    have nothing : spot.rest = [] := length_eq_zero_iff.mp (Nat.le_zero.mp enough)
    simp [rounds, nothing]
  | succ fuel ih =>
    obtain ⟨before, rest⟩ := spot
    cases rest with
    | nil => simp [rounds, ends]
    | cons symbol rest =>
      cases fits : kind symbol with
      | false => simp [rounds, ends, fits]
      | true =>
        obtain ⟨reached, first, behind⟩ := Option.map_eq_some_iff.mp
          (@ih ⟨symbol :: before, rest⟩ (Nat.le_of_succ_le_succ enough))
        simp [rounds, ends, fits, first, behind]

theorem head?_ends_plus (kind : α → Bool) (spot : Spot α) :
    (ends (plus (.one kind)) spot).head?.map Spot.rest =
      if spot.rest.head?.any kind then some (spot.rest.dropWhile kind) else none := by
  obtain ⟨before, rest⟩ := spot
  cases rest with
  | nil => rfl
  | cons symbol rest =>
    cases fits : kind symbol with
    | false => simp [plus, ends, fits]
    | true =>
      have run := @head?_rounds_one _ ⟨symbol :: before, rest⟩ kind _ (Nat.le_refl _)
      simpa [plus, ends, fits] using run

/-- Where a greedy run starts in one place only, whatever was taken before it, the first match ends behind that run. -/
theorem exists_head?_ends_run (found : ends (.cat first (.cat second (plus (.one kind)))) spot ≠ [])
    (each : ∀ front back behind, Takes first front → Takes second back → spot.rest = front ++ back ++ behind →
      behind.head?.any kind = true → behind.dropWhile kind = rest) :
    ∃ reached, (ends (.cat first (.cat second (plus (.one kind)))) spot).head? =
      some reached ∧ reached.rest = rest := by
  obtain ⟨reached, here⟩ := Option.ne_none_iff_exists'.mp (mt head?_eq_none_iff.mp found)
  refine ⟨reached, here, ?_⟩
  rw [ends, head?_flatMap] at here
  obtain ⟨middle, inFirst, leads⟩ := exists_of_findSome?_eq_some here
  rw [ends, head?_flatMap] at leads
  obtain ⟨behind, inSecond, run⟩ := exists_of_findSome?_eq_some leads
  obtain ⟨front, takesFront, reads⟩ := exists_takes inFirst
  obtain ⟨back, takesBack, more⟩ := exists_takes inSecond
  have ended := head?_ends_plus kind behind
  rw [run, Option.map_some] at ended
  split at ended
  · rename_i starts
    rw [Option.some.inj ended]
    exact each front back behind.rest takesFront takesBack (reads.trans more).1 starts
  · cases ended

theorem takes_plus {taken : List α} :
    Takes (plus (.one kind)) taken ↔ taken ≠ [] ∧ ∀ symbol ∈ taken, kind symbol = true := by
  constructor
  · rintro ⟨front, back, rfl, ⟨symbol, fits, rfl⟩, pieces, rfl, takes⟩
    refine ⟨cons_ne_nil _ _, forall_mem_cons.mpr ⟨fits, ?_⟩⟩
    intro other member
    obtain ⟨piece, inPieces, inPiece⟩ := mem_flatten.mp member
    obtain ⟨single, singleFits, rfl⟩ := takes piece inPieces
    rw [mem_singleton.mp inPiece]
    exact singleFits
  · rintro ⟨nonempty, fits⟩
    obtain ⟨symbol, rest, rfl⟩ := exists_cons_of_ne_nil nonempty
    rw [forall_mem_cons] at fits
    refine ⟨[symbol], rest, rfl, ⟨symbol, fits.1, rfl⟩, rest.map fun other => [other], ?_, ?_⟩
    · rw [← flatMap_def, flatMap_singleton']
    · intro piece member
      obtain ⟨other, inRest, rfl⟩ := mem_map.mp member
      exact ⟨other, fits.2 other inRest, rfl⟩

theorem takes_choice {taken : List α} :
    Takes (choice first others) taken ↔ Takes first taken ∨ ∃ part ∈ others, Takes part taken := by
  induction others generalizing first with
  | nil => simp [choice]
  | cons part others ih =>
    have unfolded : choice first (part :: others) = choice (.alt first part) others := rfl
    rw [unfolded, ih, Takes]
    simp [or_assoc]

theorem length_of_takes_sequence {sets : List (α → Bool)} {taken : List α}
    (takes : Takes (sequence (sets.map .one)) taken) : taken.length = sets.length := by
  induction sets generalizing taken with
  | nil => rw [show taken = [] from takes, length_nil, length_nil]
  | cons set sets ih =>
    obtain ⟨front, back, rfl, ⟨symbol, -, rfl⟩, takesBack⟩ := takes
    rw [singleton_append, length_cons, length_cons, ih takesBack]

/-! ### Rewriting a text -/

theorem rounds_behind {front : List α}
    (alike : ∀ spot : Spot α, step (spot.behind front) = (step spot).map (Spot.behind front)) (fuel : Nat) :
    rounds greedy step fuel (spot.behind front) = (rounds greedy step fuel spot).map (Spot.behind front) := by
  induction fuel generalizing spot with
  | zero => rfl
  | succ fuel ih =>
    have further (bound : Nat) :
        ((step (spot.behind front)).filter fun reached => reached.rest.length < bound).flatMap
          (rounds greedy step fuel) =
          (((step spot).filter fun reached => reached.rest.length < bound).flatMap (rounds greedy step fuel)).map
            (Spot.behind front) := by
      rw [alike, filter_map, flatMap_map, map_flatMap]
      exact flatMap_congr fun _ _ => ih
    rw [rounds, rounds, further, show (spot.behind front).rest = spot.rest from rfl]
    cases greedy <;> simp

/-- A pattern that looks at nothing before it finds the same ends behind any text. -/
theorem ends_behind (unanchored : Unanchored pattern) (front : List α) :
    ends pattern (spot.behind front) = (ends pattern spot).map (Spot.behind front) := by
  induction pattern generalizing spot with
  | empty => rfl
  | one set =>
    obtain ⟨before, rest⟩ := spot
    cases rest with
    | nil => rfl
    | cons symbol rest =>
      rw [Spot.behind, ends, ends]
      split <;> rfl
  | cat first second ofFirst ofSecond =>
    rw [ends, ends, ofFirst unanchored.1, flatMap_map, map_flatMap]
    exact flatMap_congr fun _ _ => ofSecond unanchored.2
  | alt first second ofFirst ofSecond => rw [ends, ends, ofFirst unanchored.1, ofSecond unanchored.2, map_append]
  | star greedy body ofBody => exact rounds_behind (fun _ => ofBody unanchored) _
  | boundary word => exact unanchored.elim

variable {change : List α → List α}

theorem rewrite_succ (enough : spot.rest.length ≤ fuel) :
    rewrite pattern change (fuel + 1) spot = rewrite pattern change fuel spot := by
  induction fuel generalizing spot with
  | zero =>
    have nothing : spot.rest = [] := length_eq_zero_iff.mp (Nat.le_zero.mp enough)
    simp [rewrite, nothing]
  | succ fuel ih =>
    rw [rewrite, rewrite]
    split
    · rename_i reached found
      have shorter : reached.rest.length < spot.rest.length := by simpa using (Option.filter_eq_some_iff.mp found).2
      rw [ih (by omega)]
    · cases rest : spot.rest with
      | nil => rfl
      | cons symbol rest' =>
        rw [rest] at enough
        exact congrArg (List.cons symbol) (@ih ⟨symbol :: spot.before, rest'⟩ (Nat.le_of_succ_le_succ enough))

theorem rewrite_fuel (enough : spot.rest.length ≤ fuel) :
    rewrite pattern change fuel spot = rewrite pattern change spot.rest.length spot := by
  induction fuel, enough using Nat.le_induction with
  | base => rfl
  | succ fuel enough ih => rw [rewrite_succ enough, ih]

theorem rewrite_behind (unanchored : Unanchored pattern) (front : List α) (fuel : Nat) :
    rewrite pattern change fuel (spot.behind front) = rewrite pattern change fuel spot := by
  induction fuel generalizing spot with
  | zero => rfl
  | succ fuel ih =>
    have found : (ends pattern (spot.behind front)).head?.filter
          (fun reached => reached.rest.length < (spot.behind front).rest.length) =
        ((ends pattern spot).head?.filter fun reached => reached.rest.length < spot.rest.length).map
          (Spot.behind front) := by
      rw [ends_behind unanchored, head?_map, Option.filter_map]
      rfl
    rw [rewrite, rewrite, found]
    cases (ends pattern spot).head?.filter fun reached => reached.rest.length < spot.rest.length with
    | some reached => exact congrArg (change _ ++ ·) ih
    | none =>
      obtain ⟨before, rest⟩ := spot
      cases rest with
      | nil => rfl
      | cons symbol rest => exact congrArg (List.cons symbol) (@ih ⟨symbol :: before, rest⟩)

/-- One round of a search whose matches all take something. -/
theorem rewrite_cases (nonempty : ∀ taken, Takes pattern taken → taken ≠ []) (change : List α → List α)
    (fuel : Nat) (spot : Spot α) :
    (∃ taken reached, Takes pattern taken ∧ spot.Reads taken reached ∧
      rewrite pattern change (fuel + 1) spot = change taken ++ rewrite pattern change fuel reached) ∨
    ends pattern spot = [] ∧
      (spot.rest = [] ∧ rewrite pattern change (fuel + 1) spot = [] ∨
        ∃ symbol rest, spot.rest = symbol :: rest ∧ rewrite pattern change (fuel + 1) spot =
          symbol :: rewrite pattern change fuel ⟨symbol :: spot.before, rest⟩) := by
  rw [rewrite]
  cases found : ends pattern spot with
  | nil =>
    refine .inr ⟨rfl, ?_⟩
    cases spot.rest <;> simp
  | cons reached others =>
    obtain ⟨taken, takes, reads⟩ := exists_takes (found ▸ mem_cons_self : reached ∈ ends pattern spot)
    have size : 0 < taken.length := length_pos_of_ne_nil (nonempty taken takes)
    exact .inl ⟨taken, reached, takes, reads, by simp [reads.1, Option.filter, size]⟩

/-- A text in which no match starts is left alone. -/
theorem replaceAll_of_missed {text : List α}
    (missed : ∀ front rest, text = front ++ rest → ends pattern ⟨front.reverse, rest⟩ = []) :
    replaceAll pattern change text = text := by
  have stays : ∀ fuel front rest, text = front ++ rest →
      rewrite pattern change fuel ⟨front.reverse, rest⟩ = rest := by
    intro fuel
    induction fuel with
    | zero => exact fun _ _ _ => rfl
    | succ fuel ih =>
      intro front rest parts
      rw [rewrite, missed front rest parts]
      cases rest with
      | nil => rfl
      | cons symbol rest =>
        have onward := ih (front ++ [symbol]) rest (by simpa using parts)
        rw [reverse_append, reverse_singleton, singleton_append] at onward
        exact congrArg (List.cons symbol) onward
  exact stays text.length [] text rfl

theorem replaceAll_eq_self {text : List α} (lacks : ∀ taken, Takes pattern taken → ∃ symbol ∈ taken, symbol ∉ text) :
    replaceAll pattern change text = text := by
  refine replaceAll_of_missed fun front rest parts => ?_
  by_contra found
  obtain ⟨reached, member⟩ := exists_mem_of_ne_nil _ found
  obtain ⟨taken, takes, reads⟩ := exists_takes member
  obtain ⟨symbol, inTaken, absent⟩ := lacks taken takes
  refine absent (parts ▸ mem_append_right front ?_)
  rw [show rest = _ from reads.1]
  exact mem_append_left _ inTaken

theorem replaceAll_nil (pattern : Regexp α) (change : List α → List α) : replaceAll pattern change [] = [] :=
  rfl

/-- Where the text starts with a match, the match is changed and the search goes on behind it. -/
theorem replaceAll_hit (unanchored : Unanchored pattern) {taken : List α} (nonempty : taken ≠ [])
    {reached : Spot α} (found : (ends pattern ⟨[], taken ++ rest⟩).head? = some reached)
    (behind : reached.rest = rest) :
    replaceAll pattern change (taken ++ rest) = change taken ++ replaceAll pattern change rest := by
  obtain ⟨symbol, others, rfl⟩ := exists_cons_of_ne_nil nonempty
  have shorter : reached.rest.length < (symbol :: others ++ rest).length := by
    rw [behind, cons_append, length_cons, length_append]
    omega
  have kept : (ends pattern ⟨[], symbol :: others ++ rest⟩).head?.filter
      (fun other => other.rest.length < (symbol :: others ++ rest).length) = some reached :=
    Option.filter_eq_some_iff.mpr ⟨found, by simpa using shorter⟩
  have takenPart : (symbol :: others ++ rest).take ((symbol :: others ++ rest).length - reached.rest.length) =
      symbol :: others := by
    rw [behind, length_append, Nat.add_sub_cancel, take_left]
  have further : rewrite pattern change (others ++ rest).length reached = replaceAll pattern change rest := by
    have bound : reached.rest.length ≤ (others ++ rest).length := by
      rw [behind, length_append]
      omega
    rw [rewrite_fuel bound, behind]
    subst behind
    exact @rewrite_behind _ _ ⟨[], reached.rest⟩ _ unanchored reached.before _
  unfold replaceAll
  rw [cons_append, length_cons, rewrite]
  rw [cons_append] at kept takenPart
  simp only [kept]
  rw [takenPart, further]
  rfl

theorem replaceAll_cons_miss (unanchored : Unanchored pattern) (missed : ends pattern ⟨[], symbol :: rest⟩ = []) :
    replaceAll pattern change (symbol :: rest) = symbol :: replaceAll pattern change rest := by
  unfold replaceAll
  rw [length_cons, rewrite, missed]
  exact congrArg (List.cons symbol) (@rewrite_behind _ _ ⟨[], rest⟩ _ unanchored [symbol] _)

/-- A part of the text in which no match starts is left alone. -/
theorem replaceAll_miss (unanchored : Unanchored pattern) {front : List α}
    (missed : ∀ tail, tail ≠ [] → tail <:+ front → ends pattern ⟨[], tail ++ rest⟩ = []) :
    replaceAll pattern change (front ++ rest) = front ++ replaceAll pattern change rest := by
  induction front with
  | nil => rfl
  | cons symbol front ih =>
    have later := ih fun tail nonempty inside => missed tail nonempty (inside.trans (suffix_cons _ _))
    rw [cons_append, cons_append, ← later]
    exact replaceAll_cons_miss unanchored (missed (symbol :: front) (cons_ne_nil _ _) suffix_rfl)

end Regexp

/-- A text is a word, or a word and a gap in front of a shorter text that starts with no gap. -/
theorem words_induction (blank : α → Bool) {Holds : List α → Prop}
    (word : ∀ word : List α, (∀ symbol ∈ word, blank symbol = false) → Holds word)
    (gap : ∀ word gap rest : List α, (∀ symbol ∈ word, blank symbol = false) → gap ≠ [] →
      (∀ symbol ∈ gap, blank symbol = true) → rest.head?.any blank = false → Holds rest →
      Holds (word ++ gap ++ rest))
    (text : List α) : Holds text := by
  -- along the text, with the word and the gap read so far in front of it
  suffices both : (∀ front : List α, (∀ symbol ∈ front, blank symbol = false) → Holds (front ++ text)) ∧
      ∀ front white : List α, (∀ symbol ∈ front, blank symbol = false) → white ≠ [] →
        (∀ symbol ∈ white, blank symbol = true) → Holds (front ++ white ++ text) from
    both.1 [] (forall_mem_nil _)
  induction text with
  | nil =>
    refine ⟨fun front solid => ?_, fun front white solid nonempty blanks => ?_⟩
    · rw [append_nil]
      exact word front solid
    · exact gap front white [] solid nonempty blanks rfl (word [] (forall_mem_nil _))
  | cons symbol rest ih =>
    cases kind : blank symbol with
    | false =>
      have onward : ∀ front : List α, (∀ symbol ∈ front, blank symbol = false) → Holds (front ++ symbol :: rest) := by
        intro front solid
        rw [append_cons]
        exact ih.1 _ (forall_mem_append.mpr ⟨solid, by simpa using kind⟩)
      exact ⟨onward, fun front white solid nonempty blanks =>
        gap front white _ solid nonempty blanks kind (onward [] (forall_mem_nil _))⟩
    | true =>
      refine ⟨fun front solid => ?_, fun front white solid _ blanks => ?_⟩
      · rw [append_cons]
        exact ih.2 front [symbol] solid (cons_ne_nil _ _) (by simpa using kind)
      · rw [append_cons, append_assoc front]
        exact ih.2 front (white ++ [symbol]) solid (by simp) (forall_mem_append.mpr ⟨blanks, by simpa using kind⟩)

end Foundation

namespace Foundation.BytePattern

open Regexp List

/-- The white space of `\s`. -/
def isBlank (byte : UInt8) : Bool :=
  [9, 10, 12, 13, 32].contains byte

/-- The rest, `\S`. -/
def isSolid (byte : UInt8) : Bool :=
  !isBlank byte

/-- `\s` -/
def blank : Regexp UInt8 :=
  .one isBlank

/-- `\S` -/
def solid : Regexp UInt8 :=
  .one isSolid

def between (low high byte : UInt8) : Bool :=
  low ≤ byte && byte ≤ high

/-- The bytes of a word for `\b`. -/
def isWord (byte : UInt8) : Bool :=
  between 48 57 byte || between 65 90 byte || between 97 122 byte || byte == 95

def toLower (byte : UInt8) : UInt8 :=
  if between 65 90 byte then byte + 32 else byte

def toUpper (byte : UInt8) : UInt8 :=
  if between 97 122 byte then byte - 32 else byte

/-- One character under `(?i)`. Besides the two cases, `s` is also the long s and `k` the Kelvin sign. -/
def foldCase (byte : UInt8) : Regexp UInt8 :=
  let cases := among [toLower byte, toUpper byte]
  if toLower byte = 115 then
    .alt cases (sequence [among [0xC5], among [0xBF]])
  else if toLower byte = 107 then
    .alt cases (sequence [among [0xE2], among [0x84], among [0xAA]])
  else
    cases

/-- A text under `(?i)`. -/
def ignoringCase (text : String) : Regexp UInt8 :=
  sequence ((utf8 text).map foldCase)

def literal (text : String) : Regexp UInt8 :=
  sequence ((utf8 text).map fun byte => among [byte])

/-- The part of a text up to a separator, with it: `m[:idx+1]` for `idx := strings.Index(m, sep)`. -/
def through (separator : UInt8) (text : Bytes) : Option Bytes :=
  if separator ∈ text then some (text.takeWhile (· ≠ separator) ++ [separator]) else none

theorem eq_toLower_or_eq_toUpper (byte : UInt8) : byte = toLower byte ∨ byte = toUpper byte := by
  unfold toLower toUpper between
  by_cases capital : byte ≤ 90
  · have notSmall : ¬ (97 ≤ byte) := by
      intro small
      exact absurd (UInt8.le_trans small capital) (by decide)
    exact Or.inr (by simp [notSmall])
  · exact Or.inl (by simp [capital])

theorem takes_ignoringCase (text : String) : Takes (ignoringCase text) (utf8 text) := by
  unfold ignoringCase
  induction utf8 text with
  | nil => rfl
  | cons byte rest ih =>
    refine ⟨[byte], rest, rfl, ?_, ih⟩
    have itself : Takes (among [toLower byte, toUpper byte]) [byte] := by
      refine ⟨byte, ?_, rfl⟩
      rcases eq_toLower_or_eq_toUpper byte with lower | upper
      · simp [← lower]
      · simp [← upper]
    unfold foldCase
    split_ifs
    · exact Or.inl itself
    · exact Or.inl itself
    · exact itself

def Solid (text : Bytes) : Prop :=
  ∀ byte ∈ text, isBlank byte = false

def Blank (text : Bytes) : Prop :=
  ∀ byte ∈ text, isBlank byte = true

def Parted (text : Bytes) : Prop :=
  text.head?.all isBlank = true

instance (text : Bytes) : Decidable (Solid text) :=
  inferInstanceAs (Decidable (∀ byte ∈ text, isBlank byte = false))

instance (text : Bytes) : Decidable (Parted text) :=
  inferInstanceAs (Decidable (text.head?.all isBlank = true))

variable {text gap word rest : Bytes} {separator : UInt8}

theorem Solid.isSolid (word : Solid text) : ∀ byte ∈ text, isSolid byte = true := by
  intro byte member
  rw [BytePattern.isSolid, word byte member]
  rfl

theorem Solid.append {first second : Bytes} (firstWord : Solid first) (secondWord : Solid second) :
    Solid (first ++ second) :=
  forall_mem_append.mpr ⟨firstWord, secondWord⟩

theorem Parted.nil : Parted [] := rfl

theorem Parted.of_blank (white : Blank gap) (nonempty : gap ≠ []) (rest : Bytes) :
    Parted (gap ++ rest) := by
  obtain ⟨byte, gap, rfl⟩ := exists_cons_of_ne_nil nonempty
  exact white byte mem_cons_self

theorem takeWhile_word (isWord : Solid word) (parted : Parted rest) :
    (word ++ rest).takeWhile isSolid = word := by
  rw [takeWhile_append_of_pos isWord.isSolid]
  cases rest with
  | nil => exact append_nil word
  | cons byte rest =>
    have stops : isBlank byte = true := parted
    rw [takeWhile_cons_of_neg (by simp [isSolid, stops]), append_nil]

theorem dropWhile_word (isWord : Solid word) (parted : Parted rest) :
    (word ++ rest).dropWhile isSolid = rest := by
  have parts := takeWhile_append_dropWhile (p := isSolid) (l := word ++ rest)
  rw [takeWhile_word isWord parted] at parts
  exact append_cancel_left parts

theorem dropWhile_gap (white : Blank gap) (starts : rest.head?.any isBlank = false) :
    (gap ++ rest).dropWhile isBlank = rest := by
  rw [dropWhile_append_of_pos white]
  cases rest with
  | nil => rfl
  | cons byte rest =>
    have stops : isBlank byte = false := starts
    rw [dropWhile_cons_of_neg (by simp [stops])]

/-- What is taken from the start of a text without white space lies in its first word. -/
theorem word_eq_append {taken more : Bytes} (isWord : Solid word) (parted : Parted rest)
    (takenSolid : Solid taken) (same : word ++ rest = taken ++ more) : ∃ tail, word = taken ++ tail := by
  have whole := takeWhile_word isWord parted
  rw [same, takeWhile_append_of_pos takenSolid.isSolid] at whole
  exact ⟨_, whole.symm⟩

theorem through_of_notMem (absent : separator ∉ text) : through separator text = none :=
  if_neg absent

theorem through_append_cons {front : Bytes} (absent : separator ∉ front) (back : Bytes) :
    through separator (front ++ separator :: back) = some (front ++ [separator]) := by
  have before : ∀ byte ∈ front, decide (byte ≠ separator) = true := by
    intro byte member
    exact decide_eq_true fun same => absent (same ▸ member)
  rw [through, if_pos (mem_append_right _ mem_cons_self), takeWhile_append_of_pos before,
    takeWhile_cons_of_neg (by simp), append_nil]

theorem through_append_of_notMem {front : Bytes} (absent : separator ∉ front) (back : Bytes) :
    through separator (front ++ back) = (through separator back).map (front ++ ·) := by
  by_cases sign : separator ∈ back
  · obtain ⟨name, more, rfl, first⟩ := eq_append_cons_of_mem sign
    have none : separator ∉ front ++ name := fun member => (mem_append.mp member).elim absent first
    rw [← append_assoc, through_append_cons none, through_append_cons first, Option.map_some, append_assoc]
  · rw [through_of_notMem sign, through_of_notMem fun member => (mem_append.mp member).elim absent sign,
      Option.map_none]

theorem through_append (member : separator ∈ text) (rest : Bytes) :
    through separator (text ++ rest) = through separator text := by
  obtain ⟨front, back, rfl, absent⟩ := eq_append_cons_of_mem member
  rw [append_assoc, cons_append, through_append_cons absent, through_append_cons absent]

end Foundation.BytePattern
