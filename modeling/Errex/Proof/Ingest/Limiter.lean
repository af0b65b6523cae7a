import Errex.Foundation.TokenBucket
import Errex.Model.RateLimit

/-!
# The limiter by itself

What `check` grants to a project is what its own bucket covers: no interval has more than the burst
and the refill (`check_budget`), and the calls for other projects do not matter (`answersTo_congr`).
-/

namespace Errex.Proof.Ingest
open Foundation Foundation.TokenBucket Model Model.RateLimit

def seconds (now : Instant) : ℚ := now.nanos / 1000000000

theorem seconds_le {a b : Instant} : seconds a ≤ seconds b ↔ a.nanos ≤ b.nanos := by
  rw [seconds, seconds, div_le_div_iff_of_pos_right (by norm_num)]
  exact Nat.cast_le

theorem secondsSince_eq {now earlier : Instant} (order : earlier.nanos ≤ now.nanos) :
    now.secondsSince earlier = seconds now - seconds earlier := by
  rw [Instant.secondsSince, seconds, seconds, Nat.cast_sub order, sub_div]

def meter (limiter : RateLimiter) : Meter ℚ := ⟨limiter.capacity, limiter.refillPerSec⟩

def bucket (b : RateLimit.TokenBucket) : Bucket ℚ := ⟨b.tokens, seconds b.lastRefill⟩

def held (limiter : RateLimiter) (project : String) : Bucket ℚ :=
  ((limiter.buckets project).map bucket).getD (full (meter limiter) 0)

structure Ready (limiter : RateLimiter) (project : String) (now : Instant) : Prop where
  gains : 0 < limiter.refillPerSec
  room : 0 ≤ limiter.capacity
  sound : ∀ b, limiter.buckets project = some b → b.tokens ≤ limiter.capacity ∧ b.lastRefill.nanos ≤ now.nanos

theorem Ready.later {limiter : RateLimiter} {project : String} {now later : Instant}
    (ready : Ready limiter project now) (order : now.nanos ≤ later.nanos) : Ready limiter project later :=
  ⟨ready.gains, ready.room, fun b found => ⟨(ready.sound b found).1, (ready.sound b found).2.trans order⟩⟩

theorem Ready.new {perMin burst : UInt32} (limits : 0 < perMin) (project : String) (now : Instant) :
    Ready (.new perMin burst) project now := by
  refine ⟨?_, Nat.cast_nonneg _, nofun⟩
  have : 0 < perMin.toNat := limits
  show (0 : ℚ) < perMin.toNat / 60
  positivity

def afterwards (tokens : ℚ) : ℚ := if 1 ≤ tokens then tokens - 1 else tokens

theorem tryAcquire_eq {b : RateLimit.TokenBucket} {capacity rate : ℚ} {now : Instant} (held : b.tokens ≤ capacity)
    (order : b.lastRefill.nanos ≤ now.nanos) :
    b.tryAcquire capacity rate now =
      let tokens := level ⟨capacity, rate⟩ (bucket b) (seconds now)
      (decide (1 ≤ tokens), ⟨afterwards tokens, now⟩) := by
  have elapsed := secondsSince_eq order
  by_cases moved : 0 < now.secondsSince b.lastRefill
  · simp only [RateLimit.TokenBucket.tryAcquire, if_pos moved, level, bucket, ← elapsed, afterwards]
    split_ifs with found <;> simp [found]
  · have same : now.nanos = b.lastRefill.nanos := by
      have := seconds_le.mp (show seconds now ≤ seconds b.lastRefill by linarith)
      omega
    obtain ⟨tokens, ⟨nanos⟩⟩ := b
    obtain ⟨nanos'⟩ := now
    subst same
    simp only [RateLimit.TokenBucket.tryAcquire, if_neg moved, level, bucket, sub_self, zero_mul, add_zero,
      min_eq_left held, afterwards]
    split_ifs with found <;> simp [found]

variable {limiter : RateLimiter} {project : String} {now : Instant}

theorem start_spec (ready : Ready limiter project now) :
    let b := (limiter.buckets project).getD (.new limiter.capacity now)
    b.tokens ≤ limiter.capacity ∧ b.lastRefill.nanos ≤ now.nanos ∧
      level (meter limiter) (bucket b) (seconds now) = level (meter limiter) (held limiter project) (seconds now) := by
  cases found : limiter.buckets project with
  | none =>
      have early : 0 ≤ seconds now := by unfold seconds; positivity
      refine ⟨le_rfl, le_rfl, ?_⟩
      simp only [held, found, Option.map_none, Option.getD_none]
      rw [level_full (m := meter limiter) ready.gains.le early]
      exact level_full (m := meter limiter) ready.gains.le le_rfl
  | some b =>
      obtain ⟨least, order⟩ := ready.sound b found
      exact ⟨least, order, by simp [held, found]⟩

theorem check_eq (ready : Ready limiter project now) :
    let tokens := level (meter limiter) (held limiter project) (seconds now)
    limiter.check project now = (decide (1 ≤ tokens),
      { limiter with buckets := Function.update limiter.buckets project (some ⟨afterwards tokens, now⟩) }) := by
  obtain ⟨least, order, same⟩ := start_spec ready
  have enabled : limiter.enabled = true := by simp [RateLimiter.enabled, ready.gains]
  simp only [RateLimiter.check, enabled, Bool.not_true, Bool.false_eq_true, if_false, tryAcquire_eq least order]
  exact same ▸ rfl

/-- A consultation, as the meter of the limiter sees it. -/
structure Checked (limiter limiter' : RateLimiter) (project : String) (now : Instant) : Prop where
  meter_eq : meter limiter' = meter limiter
  ready : Ready limiter' project now
  held_eq : held limiter' project =
    if 1 ≤ level (meter limiter) (held limiter project) (seconds now) then
      take (meter limiter) (held limiter project) (seconds now)
    else refill (meter limiter) (held limiter project) (seconds now)

theorem check_checked (ready : Ready limiter project now) :
    Checked limiter (limiter.check project now).2 project now := by
  have capped := level_le_capacity (meter limiter) (held limiter project) (seconds now)
  rw [check_eq ready]
  refine ⟨rfl, ⟨ready.gains, ready.room, fun b found => ?_⟩, ?_⟩
  · obtain rfl : _ = b := by simpa using found
    refine ⟨le_trans ?_ capped, le_rfl⟩
    simp only [afterwards]
    split_ifs <;> linarith
  · have after (buckets : String → Option RateLimit.TokenBucket) (b : RateLimit.TokenBucket) :
        held { limiter with buckets := Function.update buckets project (some b) } project = bucket b := by
      simp [held]
    rw [after]
    by_cases found : 1 ≤ level (meter limiter) (held limiter project) (seconds now)
    · simp [found, bucket, afterwards, take]
    · simp [found, bucket, afterwards, refill]

/-- A consultation for one project says nothing about the others. -/
structure Untouched (limiter limiter' : RateLimiter) (project : String) : Prop where
  meter_eq : meter limiter' = meter limiter
  ready : ∀ {now}, Ready limiter project now → Ready limiter' project now
  held_eq : held limiter' project = held limiter project

theorem check_untouched {other : String} (different : project ≠ other) (limiter : RateLimiter) (now : Instant) :
    Untouched limiter (limiter.check other now).2 project := by
  unfold RateLimiter.check
  split_ifs
  · exact ⟨rfl, id, rfl⟩
  · have same (b : RateLimit.TokenBucket) :
        Function.update limiter.buckets other (some b) project = limiter.buckets project :=
      Function.update_of_ne different _ _
    refine ⟨rfl, fun ready => ⟨ready.gains, ready.room, ?_⟩, ?_⟩
    · simpa only [same] using ready.sound
    · simp only [held, same]
      rfl

def answersTo (project : String) (limiter : RateLimiter) : List (String × Instant) → List (Instant × Bool)
  | [] => []
  | (caller, now) :: calls =>
      let (granted, limiter) := limiter.check caller now
      if caller = project then (now, granted) :: answersTo project limiter calls
      else answersTo project limiter calls

def grantsTo (project : String) (limiter : RateLimiter) (calls : List (String × Instant)) : List Instant :=
  ((answersTo project limiter calls).filter (·.2)).map (·.1)

def own (project : String) (calls : List (String × Instant)) : List (String × Instant) :=
  calls.filter (·.1 = project)

theorem grantsTo_eq {calls : List (String × Instant)} (ready : ∀ call ∈ calls, Ready limiter project call.2)
    (ordered : calls.Pairwise (·.2.nanos ≤ ·.2.nanos)) :
    (grantsTo project limiter calls).map seconds =
      granted (meter limiter) (held limiter project) ((own project calls).map (seconds ·.2)) := by
  induction calls generalizing limiter with
  | nil => rfl
  | cons call calls ih =>
      obtain ⟨caller, now⟩ := call
      obtain ⟨later, ordered⟩ := List.pairwise_cons.mp ordered
      have first := ready _ List.mem_cons_self
      by_cases ours : caller = project
      · subst ours
        have checked := check_checked first
        have rest := ih (fun call mem => checked.ready.later (later call mem)) ordered
        rw [checked.meter_eq, checked.held_eq] at rest
        have answer : (limiter.check caller now).1 =
            decide (1 ≤ level (meter limiter) (held limiter caller) (seconds now)) := by rw [check_eq first]
        simp only [grantsTo, answersTo, own, if_true, List.filter_cons, decide_true, List.map_cons, granted, answer,
          decide_eq_true_eq]
        split_ifs at rest ⊢ with found
        · exact congrArg (seconds now :: ·) rest
        · exact rest
      · have untouched := check_untouched (Ne.symm ours) limiter now
        have rest := ih (fun call mem => untouched.ready (ready call (by simp [mem]))) ordered
        rw [untouched.meter_eq, untouched.held_eq] at rest
        simp only [grantsTo, answersTo, own, List.filter_cons, ours, decide_false, if_false, Bool.false_eq_true]
        exact rest

structure SameFor (project : String) (a b : RateLimiter) : Prop where
  capacity_eq : a.capacity = b.capacity
  rate_eq : a.refillPerSec = b.refillPerSec
  bucket_eq : a.buckets project = b.buckets project

theorem SameFor.check {a b : RateLimiter} (same : SameFor project a b) (now : Instant) :
    (a.check project now).1 = (b.check project now).1 ∧
      SameFor project (a.check project now).2 (b.check project now).2 := by
  obtain ⟨buckets, capacity, rate⟩ := a
  obtain ⟨buckets', _, _⟩ := b
  obtain ⟨rfl, rfl, bucket⟩ := same
  simp only at bucket
  by_cases enabled : 0 < rate
  · simp only [RateLimiter.check, RateLimiter.enabled, bucket, enabled, decide_true, Bool.not_true, Bool.false_eq_true,
      if_false]
    exact ⟨trivial, rfl, rfl, by simp⟩
  · simp only [RateLimiter.check, RateLimiter.enabled, enabled, decide_false, Bool.not_false, if_true]
    exact ⟨trivial, rfl, rfl, bucket⟩

theorem SameFor.check_other {a : RateLimiter} {caller : String} (other : caller ≠ project) (now : Instant) :
    SameFor project (a.check caller now).2 a := by
  unfold RateLimiter.check
  split_ifs
  · exact ⟨rfl, rfl, rfl⟩
  · exact ⟨rfl, rfl, Function.update_of_ne (Ne.symm other) _ _⟩

theorem SameFor.trans {a b c : RateLimiter} (first : SameFor project a b) (second : SameFor project b c) :
    SameFor project a c :=
  ⟨first.capacity_eq.trans second.capacity_eq, first.rate_eq.trans second.rate_eq,
    first.bucket_eq.trans second.bucket_eq⟩

theorem answersTo_own {a b : RateLimiter} (same : SameFor project a b) (calls : List (String × Instant)) :
    answersTo project a calls = answersTo project b (own project calls) := by
  induction calls generalizing a b with
  | nil => rfl
  | cons call calls ih =>
      obtain ⟨caller, now⟩ := call
      by_cases ours : caller = project
      · subst ours
        obtain ⟨answer, after⟩ := same.check now
        simp only [own, List.filter_cons, decide_true, if_true, answersTo, answer]
        exact congrArg _ (ih after)
      · simp only [own, List.filter_cons, ours, decide_false, Bool.false_eq_true, if_false, answersTo]
        exact ih ((SameFor.check_other ours now).trans same)

theorem answersTo_congr {calls calls' : List (String × Instant)} (same : own project calls = own project calls') :
    answersTo project limiter calls = answersTo project limiter calls' := by
  rw [answersTo_own ⟨rfl, rfl, rfl⟩ calls, same, ← answersTo_own ⟨rfl, rfl, rfl⟩ calls']

theorem grantsTo_within {perMin burst : UInt32} (limits : 0 < perMin) {calls : List (String × Instant)}
    (ordered : calls.Pairwise (·.2.nanos ≤ ·.2.nanos)) (project : String) {start stop : ℚ} (order : start ≤ stop) :
    (within start stop ((grantsTo project (.new perMin burst) calls).map seconds) : ℚ) ≤
      (max burst 1).toNat + (stop - start) * (perMin.toNat / 60) := by
  have ready : Ready (.new perMin burst) project ⟨0⟩ := .new limits project ⟨0⟩
  have inOrder : ((own project calls).map (seconds ·.2)).Pairwise (· ≤ ·) :=
    List.pairwise_map.mpr ((ordered.sublist List.filter_sublist).imp seconds_le.mpr)
  rw [grantsTo_eq (fun call _ => .new limits project call.2) ordered]
  have covers := covers_granted (m := meter (.new perMin burst)) (b := held (.new perMin burst) project)
    ready.gains.le inOrder
  exact covers.within_le_capacity ready.gains.le (inOrder.sublist (granted_sublist _ _ _)) ready.room order

/-- The budget of a project, and that it is the project's own. -/
theorem check_budget (perMin burst : UInt32) (limits : 0 < perMin) (calls : List (String × Instant))
    (ordered : calls.Pairwise (·.2.nanos ≤ ·.2.nanos)) (project : String) :
    (∀ start stop : ℚ, start ≤ stop →
      (within start stop ((grantsTo project (.new perMin burst) calls).map seconds) : ℚ) ≤
        (max burst 1).toNat + (stop - start) * perMin.toNat / 60) ∧
      ∀ calls' : List (String × Instant), own project calls' = own project calls →
        answersTo project (.new perMin burst) calls' = answersTo project (.new perMin burst) calls := by
  refine ⟨fun start stop order => ?_, fun calls' same => answersTo_congr same⟩
  rw [mul_div_assoc]
  exact grantsTo_within limits ordered project order

def burstOfThree : List (String × Instant) :=
  [("web", ⟨0⟩), ("web", ⟨0⟩), ("app", ⟨5⟩), ("web", ⟨30000000000⟩)]

theorem check_budget_sample :
    (within 0 30 ((grantsTo "web" (.new 2 1) burstOfThree).map seconds) : ℚ) ≤
      (max 1 1 : UInt32).toNat + (30 - 0) * (2 : UInt32).toNat / 60 :=
  (check_budget 2 1 (by decide) burstOfThree (by decide) "web").1 0 30 (by norm_num)

end Errex.Proof.Ingest
