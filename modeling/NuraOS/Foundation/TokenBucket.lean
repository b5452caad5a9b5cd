/-
Purpose: A token bucket that may be forgotten once it must be full again.
-/
import Mathlib.Algebra.Order.Field.Basic
import Mathlib.Data.List.Basic
import Mathlib.Tactic.Linarith
import Mathlib.Tactic.Ring

namespace Foundation.TokenBucket

open List

variable {K : Type*} [Field K] [LinearOrder K]

structure Bucket (K : Type*) where
  tokens : K
  lastSeen : K

def refill (rate burst now : K) (bucket : Bucket K) : K :=
  min (bucket.tokens + (now - bucket.lastSeen) * rate) burst

def draw (rate burst now : K) : Option (Bucket K) → Bool × Bucket K
  | none => (true, ⟨burst - 1, now⟩)
  | some bucket =>
    let tokens := refill rate burst now bucket
    if 1 ≤ tokens then (true, ⟨tokens - 1, now⟩) else (false, ⟨tokens, now⟩)

/-- Forget a bucket last used more than `idle` ago. -/
def sweep (idle now : K) (slot : Option (Bucket K)) : Option (Bucket K) :=
  slot.filter fun bucket => ¬ bucket.lastSeen < now - idle

inductive Act (K : Type*) where
  | draw (time : K)
  | sweep (time : K)

def Act.time : Act K → K
  | .draw time | .sweep time => time

def grants (rate burst idle : K) : Option (Bucket K) → List (Act K) → List K
  | _, [] => []
  | slot, .draw time :: acts =>
    let drawn := draw rate burst time slot
    (if drawn.1 then [time] else []) ++ grants rate burst idle (some drawn.2) acts
  | slot, .sweep time :: acts => grants rate burst idle (sweep idle time slot) acts

def level (rate burst : K) (slot : Option (Bucket K)) (now : K) : K :=
  slot.elim burst (refill rate burst now)

def Sound (now : K) (slot : Option (Bucket K)) : Prop :=
  ∀ bucket ∈ slot, 0 ≤ bucket.tokens ∧ bucket.lastSeen ≤ now

theorem sound_none (now : K) : Sound now none := by
  intro bucket member
  cases member

variable {now rate burst idle : K} {slot : Option (Bucket K)} {acts : List (Act K)}

theorem Sound.mono {later : K} (sound : Sound now slot) (passes : now ≤ later) : Sound later slot :=
  fun bucket member => ⟨(sound bucket member).1, (sound bucket member).2.trans passes⟩

theorem Sound.sweep (sound : Sound now slot) (idle : K) : Sound now (sweep idle now slot) :=
  fun bucket member => sound bucket (Option.mem_filter_iff.mp member).1

theorem level_le (rate burst : K) (slot : Option (Bucket K)) (now : K) :
    level rate burst slot now ≤ burst := by
  cases slot with
  | none => exact le_refl _
  | some bucket => exact min_le_right _ _

theorem level_lastSeen {tokens : K} (full : tokens ≤ burst) :
    level rate burst (some ⟨tokens, now⟩) now = tokens := by
  change min (tokens + (now - now) * rate) burst = tokens
  rw [sub_self, zero_mul, add_zero]
  exact min_eq_left full

theorem time_of_mem_grants {time : K}
    (member : time ∈ grants rate burst idle slot acts) : ∃ act ∈ acts, act.time = time := by
  induction acts generalizing slot with
  | nil => cases member
  | cons act acts ih =>
    cases act with
    | draw moment =>
      rcases mem_append.mp member with here | there
      · have same := mem_singleton.mp (mem_ite_nil_right.mp here).2
        exact ⟨_, mem_cons_self, same.symm⟩
      · obtain ⟨act, among, same⟩ := ih there
        exact ⟨act, mem_cons_of_mem _ among, same⟩
    | sweep moment =>
      obtain ⟨act, among, same⟩ := ih member
      exact ⟨act, mem_cons_of_mem _ among, same⟩

theorem grants_filter_early {act : Act K} {stop : K}
    (ordered : (act :: acts).Pairwise fun first second => first.time ≤ second.time)
    (late : ¬ act.time ≤ stop) :
    (grants rate burst idle slot (act :: acts)).filter (· ≤ stop) = [] := by
  rw [filter_eq_nil_iff]
  intro time member kept
  obtain ⟨other, among, rfl⟩ := time_of_mem_grants member
  have after : act.time ≤ other.time := by
    rcases mem_cons.mp among with rfl | among
    · exact le_refl _
    · exact (pairwise_cons.mp ordered).1 other among
  exact late (after.trans (of_decide_eq_true kept))

section Flow

variable [IsStrictOrderedRing K] {rate burst idle now later : K} {slot : Option (Bucket K)}

theorem level_nonneg (flows : 0 ≤ rate) (holds : 0 ≤ burst) (sound : Sound now slot) :
    0 ≤ level rate burst slot now := by
  cases slot with
  | none => exact holds
  | some bucket =>
    obtain ⟨tokens, seen⟩ := sound bucket rfl
    have flowed : 0 ≤ (now - bucket.lastSeen) * rate := mul_nonneg (sub_nonneg.mpr seen) flows
    exact le_min (by linarith) holds

theorem level_advance (burst : K) (slot : Option (Bucket K)) (flows : 0 ≤ rate)
    (passes : now ≤ later) :
    level rate burst slot later ≤ level rate burst slot now + (later - now) * rate := by
  have flowed : 0 ≤ (later - now) * rate := mul_nonneg (sub_nonneg.mpr passes) flows
  cases slot with
  | none => exact le_add_of_nonneg_right flowed
  | some bucket =>
    change min _ _ ≤ min _ _ + _
    rw [← min_add_add_right]
    refine le_min ((min_le_left _ _).trans (le_of_eq ?_)) ((min_le_right _ _).trans ?_)
    · ring
    · linarith

theorem level_draw (rate burst now : K) (slot : Option (Bucket K)) :
    level rate burst (some (draw rate burst now slot).2) now =
      level rate burst slot now - if (draw rate burst now slot).1 then 1 else 0 := by
  cases slot with
  | none => exact level_lastSeen (sub_le_self _ zero_le_one)
  | some bucket =>
    have full : refill rate burst now bucket ≤ burst := min_le_right _ _
    by_cases enough : 1 ≤ refill rate burst now bucket
    · simp only [draw, enough, if_true]
      exact level_lastSeen ((sub_le_self _ zero_le_one).trans full)
    · simp only [draw, enough, if_false, Bool.false_eq_true, sub_zero]
      exact level_lastSeen full

theorem sound_draw (flows : 0 ≤ rate) (one : 1 ≤ burst) (sound : Sound now slot) :
    Sound now (some (draw rate burst now slot).2) := by
  rintro _ ⟨⟩
  cases slot with
  | none => exact ⟨sub_nonneg.mpr one, le_refl _⟩
  | some bucket =>
    have solvent : 0 ≤ refill rate burst now bucket :=
      level_nonneg flows (zero_le_one.trans one) sound
    by_cases enough : 1 ≤ refill rate burst now bucket
    · simp only [draw, enough, if_true]
      exact ⟨sub_nonneg.mpr enough, le_refl _⟩
    · simp only [draw, enough, if_false]
      exact ⟨solvent, le_refl _⟩

theorem level_sweep (flows : 0 ≤ rate) (fills : burst ≤ rate * idle) (sound : Sound now slot) :
    level rate burst (sweep idle now slot) now = level rate burst slot now := by
  cases slot with
  | none => rfl
  | some bucket =>
    by_cases stale : bucket.lastSeen < now - idle
    · have forgotten : sweep idle now (some bucket) = none :=
        Option.filter_some_neg (decide_eq_false (not_not_intro stale))
      have waited : idle * rate ≤ (now - bucket.lastSeen) * rate :=
        mul_le_mul_of_nonneg_right (by linarith) flows
      have tokens := (sound bucket rfl).1
      have full : burst ≤ bucket.tokens + (now - bucket.lastSeen) * rate := by
        linarith [mul_comm rate idle]
      rw [forgotten]
      exact (min_eq_right full).symm
    · have kept : sweep idle now (some bucket) = some bucket :=
        Option.filter_some_pos (decide_eq_true stale)
      rw [kept]

end Flow

section Runs

variable [IsStrictOrderedRing K] {rate burst idle : K}

variable {slot : Option (Bucket K)} {acts : List (Act K)} {stop : K}

/-- From a time on, no more is granted than what is on hand and what flows in until the end. -/
theorem length_grants_from (flows : 0 ≤ rate) (one : 1 ≤ burst) (fills : burst ≤ rate * idle)
    {now : K} (sound : Sound now slot)
    (ordered : acts.Pairwise fun first second => first.time ≤ second.time)
    (since : ∀ act ∈ acts, now ≤ act.time) (ends : now ≤ stop) :
    (((grants rate burst idle slot acts).filter (· ≤ stop)).length : K) ≤
      level rate burst slot now + (stop - now) * rate := by
  have nothing : ∀ {slot : Option (Bucket K)} {now : K}, Sound now slot → now ≤ stop →
      0 ≤ level rate burst slot now + (stop - now) * rate := fun sound ends =>
    add_nonneg (level_nonneg flows (zero_le_one.trans one) sound)
      (mul_nonneg (sub_nonneg.mpr ends) flows)
  induction acts generalizing slot now with
  | nil => simpa [grants] using nothing sound ends
  | cons act acts ih =>
    obtain ⟨after, orderedRest⟩ := pairwise_cons.mp ordered
    by_cases early : act.time ≤ stop
    · -- The level rises up to the act, and the act itself moves it by what it grants.
      have passes : now ≤ act.time := since act mem_cons_self
      have soundThen : Sound act.time slot := sound.mono passes
      have risen := level_advance burst slot flows passes
      have parts : (stop - now) * rate = (act.time - now) * rate + (stop - act.time) * rate := by
        ring
      cases act with
      | draw time =>
        have rest := ih (sound_draw flows one soundThen) orderedRest after early
        have cost := level_draw rate burst time slot
        simp only [Act.time] at early risen parts rest
        rw [grants, filter_append, length_append, Nat.cast_add]
        cases granted : (draw rate burst time slot).1 with
        | true =>
          rw [granted, if_pos rfl] at cost
          simp only [if_true, filter_cons, early, decide_true, filter_nil,
            length_singleton, Nat.cast_one]
          linarith
        | false =>
          rw [granted, if_neg Bool.false_ne_true] at cost
          simp only [Bool.false_eq_true, if_false, filter_nil, length_nil,
            Nat.cast_zero]
          linarith
      | sweep time =>
        have rest := ih (soundThen.sweep idle) orderedRest after early
        rw [level_sweep flows fills soundThen] at rest
        exact rest.trans (by linarith)
    · rw [grants_filter_early ordered early, length_nil, Nat.cast_zero]
      exact nothing sound ends

/-- In a closed interval no more is granted than the capacity and what flows in meanwhile. -/
theorem length_grants_within (flows : 0 ≤ rate) (one : 1 ≤ burst) (fills : burst ≤ rate * idle) {start : K}
    (sound : ∀ act ∈ acts, Sound act.time slot)
    (ordered : acts.Pairwise fun first second => first.time ≤ second.time) (ends : start ≤ stop) :
    (((grants rate burst idle slot acts).filter fun time => start ≤ time ∧ time ≤ stop).length : K) ≤
      burst + (stop - start) * rate := by
  have nothing : 0 ≤ burst + (stop - start) * rate :=
    add_nonneg (zero_le_one.trans one) (mul_nonneg (sub_nonneg.mpr ends) flows)
  induction acts generalizing slot with
  | nil => simpa [grants] using nothing
  | cons act acts ih =>
    obtain ⟨after, rest⟩ := pairwise_cons.mp ordered
    have soundThen : Sound act.time slot := sound act mem_cons_self
    by_cases reached : start ≤ act.time
    · -- From the first act inside the interval on, everything granted up to its end may count.
      have fewer : ((grants rate burst idle slot (act :: acts)).filter
          fun time => start ≤ time ∧ time ≤ stop).length ≤
            ((grants rate burst idle slot (act :: acts)).filter (· ≤ stop)).length :=
        (monotone_filter_right _ fun time inside =>
          decide_eq_true (of_decide_eq_true inside).2).length_le
      by_cases early : act.time ≤ stop
      · have since : ∀ other ∈ act :: acts, act.time ≤ other.time :=
          forall_mem_cons.mpr ⟨le_refl _, after⟩
        have bound := length_grants_from flows one fills soundThen ordered since early
        have full := level_le rate burst slot act.time
        have shorter : (stop - act.time) * rate ≤ (stop - start) * rate :=
          mul_le_mul_of_nonneg_right (by linarith) flows
        exact (Nat.cast_le.mpr fewer).trans (by linarith)
      · rw [grants_filter_early ordered early, length_nil, Nat.le_zero] at fewer
        rw [fewer, Nat.cast_zero]
        exact nothing
    · cases act with
      | draw time =>
        have left := ih (fun other member =>
          (sound_draw flows one soundThen).mono (after other member)) rest
        rw [grants, filter_append]
        have outside : (if (draw rate burst time slot).1 then [time] else []).filter
            (fun time => start ≤ time ∧ time ≤ stop) = [] := by
          rw [filter_eq_nil_iff]
          intro moment member inside
          rw [mem_singleton.mp (mem_ite_nil_right.mp member).2] at inside
          exact reached (of_decide_eq_true inside).1
        rw [outside, nil_append]
        exact left
      | sweep time =>
        exact ih (fun other member =>
          (soundThen.sweep idle).mono (after other member)) rest

end Runs

end Foundation.TokenBucket
