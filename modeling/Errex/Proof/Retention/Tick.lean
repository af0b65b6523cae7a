import Errex.Model.Api
import Errex.Model.Retention

/-!
# Panics of the retention task

The span that a tick goes back in time must not reach past the first instant chrono represents.
The stored override is not bounded, so that is a condition on it and on the date
(`runOneTick_ne_panic_iff`); the fixed spans of a tick always fit.
-/

namespace Errex.Proof.Retention
open Foundation Model Store Admin Model.Retention Process

variable {argon2 : Argon2}

theorem goBack_eq_none_iff (t : DateTime) {seconds : Int} (nonneg : 0 ≤ seconds) :
    (Duration.ofSeconds seconds).bind t.sub = none ↔
      t.nanos - minNanos < seconds * nanosPerSecond := by
  have last := t.le_max
  unfold Duration.ofSeconds
  split_ifs with range
  · have span : 0 ≤ seconds * nanosPerSecond := by
      simp only [nanosPerSecond]
      omega
    rw [Option.bind_some, ← Option.not_isSome_iff_eq_none, DateTime.sub_isSome span, Int.not_le]
  · simp only [maxNanos_eq] at last
    simp only [Option.bind_none, true_iff, minNanos_eq, nanosPerSecond]
    omega

theorem observe_cutoff (span : Option Duration) (environment : Nat → World × Db) :
    (cutoff span).observe (exec argon2) environment =
      .ofOption (span.bind (environment 0).1.now.instant.sub) := by
  show observe _ _ (ofOption span >>= fun d => ofOption ((environment 0).1.now.instant.sub d)) = _
  cases span with
  | none => rfl
  | some d =>
      simp only [ofOption_some, ret_bind, Option.bind_some]
      cases (environment 0).1.now.instant.sub d <;> rfl

theorem cutoff_panics_iff {seconds : Int} (nonneg : 0 ≤ seconds) (environment : Nat → World × Db) :
    (cutoff (Duration.ofSeconds seconds)).observe (exec argon2) environment = .panic ↔
      (environment 0).1.now.instant.nanos - minNanos < seconds * nanosPerSecond := by
  rw [observe_cutoff, ← goBack_eq_none_iff _ nonneg]
  cases (Duration.ofSeconds seconds).bind (environment 0).1.now.instant.sub <;> simp

theorem cutoff_neverPanics (seconds : Int) (nonneg : 0 ≤ seconds) (small : seconds ≤ 8334601228800) :
    (cutoff (Duration.ofSeconds seconds)).NeverPanics (exec argon2) := by
  intro environment
  rw [Ne, cutoff_panics_iff nonneg, minNanos_eq, nanosPerSecond]
  have := (environment 0).1.now.epoch_le
  omega

theorem purgeExcess_neverPanics (settings : RetentionSettings) :
    (purgeExcess settings).NeverPanics (exec argon2) := by
  intro environment
  simp only [purgeExcess]
  split_ifs <;> simp [observe]

theorem purgeAuth_neverPanics : purgeAuth.NeverPanics (exec argon2) := by
  have day : (cutoff (Duration.hours 24)).NeverPanics (exec argon2) :=
    cutoff_neverPanics (24 * 3600) (by omega) (by omega)
  have month : (cutoff (Duration.days 30)).NeverPanics (exec argon2) :=
    cutoff_neverPanics (30 * 86400) (by omega) (by omega)
  simp only [purgeAuth, ask_bind]
  refine day.bind fun _ => .call fun _ => ?_
  exact month.bind fun _ => .call fun _ => .ret _

theorem purgeAgedEvents_panics_iff (settings : RetentionSettings) (bootDays : UInt32)
    (environment : Nat → World × Db) :
    (purgeAgedEvents settings bootDays).observe (exec argon2) environment = .panic ↔
      0 < effectiveDays settings bootDays ∧ (environment 0).1.now.instant.nanos - minNanos <
        effectiveDays settings bootDays * secondsPerDay * nanosPerSecond := by
  unfold purgeAgedEvents
  split_ifs with positive
  · have nonneg : 0 ≤ effectiveDays settings bootDays * secondsPerDay := by
      simp only [secondsPerDay]
      omega
    simp only [positive, true_and, ask_bind, pure_eq]
    rw [observe_bind_eq_panic_iff fun _ => .call fun _ => .ret _]
    exact cutoff_panics_iff nonneg environment
  · simp [positive, observe]

def readSettings (argon2 : Argon2) (environment : Nat → World × Db) : Except DaemonError RetentionSettings :=
  (exec argon2 (environment 0).1 .getRetentionSettings (environment 0).2).1

/-- A tick reaches its end, in whatever states and at whatever times its calls are made, just when
the settings cannot be read or their effective days do not lead from the current time, which the
second call answers, past the first instant. -/
theorem runOneTick_ne_panic_iff (argon2 : Argon2) (bootDays : UInt32) (environment : Nat → World × Db) :
    (runOneTick bootDays).observe (exec argon2) environment ≠ .panic ↔
      ∀ settings, readSettings argon2 environment = .ok settings →
        effectiveDays settings bootDays ≤ 0 ∨
          effectiveDays settings bootDays * secondsPerDay * nanosPerSecond ≤
            (environment 1).1.now.instant.nanos - minNanos := by
  have split : (runOneTick bootDays).observe (exec argon2) environment =
      match readSettings argon2 environment with
      | .error _ => .ok ()
      | .ok settings => (purgeAgedEvents settings bootDays >>= fun _ => purgeExcess settings >>= fun _ =>
          purgeAuth).observe (exec argon2) fun n => environment (n + 1) := by
    simp only [runOneTick, ask_bind, observe, readSettings]
    cases (exec argon2 (environment 0).1 Call.getRetentionSettings (environment 0).2).1 <;> rfl
  rw [split]
  cases readSettings argon2 environment with
  | error error => simp
  | ok settings =>
      have rest : ∀ _ : Unit, (purgeExcess settings >>= fun _ => purgeAuth).NeverPanics (exec argon2) :=
        fun _ => (purgeExcess_neverPanics settings).bind fun _ => purgeAuth_neverPanics
      simp only [Except.ok.injEq, forall_eq', Ne]
      rw [observe_bind_eq_panic_iff rest, purgeAgedEvents_panics_iff, not_and_or, Int.not_lt, Int.not_lt]

/-- The handler stores `i64::MAX` days, and the next tick panics on it. -/
theorem runOneTick_panics_on_stored_settings :
    ¬ ∀ (argon2 : Argon2) (parsers : Webhook.Parsers) (state : AppState) (db : Db) (headers : HeaderMap)
      (body : RetentionBody) (schedule : List (Nat × World)) (response : Response),
      let served := (serve parsers state db [.putRetention headers (some body)]).run (exec argon2) schedule
      served.pool = [.ret response] → response.status = 200 →
      ∀ (bootDays : UInt32) (environment : Nat → World × Db),
        (environment 0).1.fault = none → (environment 0).2 = served.state →
        (runOneTick bootDays).observe (exec argon2) environment ≠ .panic := by
  intro reaches
  let body : RetentionBody := ⟨0, 0, 9223372036854775807⟩
  let served := (serve anyParsers localState rootDb [.putRetention rootHeaders (some body)]).run
    (exec plainArgon2) [(0, noonWorld 0), (0, noonWorld 0), (0, noonWorld 0)]
  exact reaches plainArgon2 anyParsers localState rootDb rootHeaders body
    [(0, noonWorld 0), (0, noonWorld 0), (0, noonWorld 0)] (.json 200 (.retention ⟨0, 0, 9223372036854775807⟩))
    rfl rfl 30 (fun _ => (noonWorld 0, served.state)) rfl rfl (by decide)

end Errex.Proof.Retention
