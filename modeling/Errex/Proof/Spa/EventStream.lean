import Errex.Foundation.SlidingWindow
import Errex.Model.Spa.EventStream

/-!
# Bounded buffers answer like the history

Each buffer agrees with the history within its horizon, whatever was pruned (`Logs.record`); what is counted in the
buffers is what the history has (`counts_of_history`).
-/

namespace Errex.Proof.Spa.EventStream
open Foundation SlidingWindow Model.Spa.EventStream EventStreamStore

abbrev History := List (Int × ℚ)

def arrivals (history : History) : List ℚ := history.map fun (_, t) => t

def arrivalsOf (issueId : Int) (history : History) : List ℚ := arrivals (history.filter fun (id, _) => id = issueId)

def recordAll (s : EventStreamStore) (history : History) : EventStreamStore :=
  history.foldl (fun s (issueId, when) => s.record issueId when) s

theorem arrivals_append (history : History) (issueId : Int) (when : ℚ) :
    arrivals (history ++ [(issueId, when)]) = arrivals history ++ [when] := by
  simp [arrivals]

theorem arrivalsOf_append (id : Int) (history : History) (issueId : Int) (when : ℚ) :
    arrivalsOf id (history ++ [(issueId, when)]) =
      if issueId = id then arrivalsOf id history ++ [when] else arrivalsOf id history := by
  by_cases same : issueId = id
  · simp [arrivalsOf, arrivals, same]
  · simp [arrivalsOf, arrivals, same]

theorem arrivalsOf_sublist (issueId : Int) (history : History) : (arrivalsOf issueId history).Sublist (arrivals history) :=
  List.filter_sublist.map _

/-- The buffers of a store hold a history. -/
structure Logs (history : History) (s : EventStreamStore) : Prop where
  global : Buffers HOUR_MS (arrivals history) s.global
  perIssue : ∀ issueId, Buffers HALF_HOUR_MS (arrivalsOf issueId history) ((s.perIssue issueId).getD [])

theorem Logs.clear (s : EventStreamStore) : Logs [] s.clear := ⟨.nil _, fun _ => .nil _⟩

theorem Logs.record {history : History} {s : EventStreamStore} (logs : Logs history s) (issueId : Int) (when : ℚ) :
    Logs (history ++ [(issueId, when)]) (s.record issueId when) where
  global := by
    rw [arrivals_append]
    exact logs.global.push when
  perIssue id := by
    rw [arrivalsOf_append]
    by_cases same : id = issueId
    · have pushed := (logs.perIssue issueId).push when
      simpa [EventStreamStore.record, same, prune] using pushed
    · simpa [EventStreamStore.record, same, Ne.symm same] using logs.perIssue id

theorem Logs.recordAll {past : History} {s : EventStreamStore} (logs : Logs past s) (history : History) :
    Logs (past ++ history) (recordAll s history) := by
  induction history generalizing past s with
  | nil =>
      rw [List.append_nil]
      exact logs
  | cons call history ih =>
      have later := ih (logs.record call.1 call.2)
      rw [List.append_assoc, List.singleton_append] at later
      exact later

theorem sum_modify {out : List Nat} {i : Nat} (inside : i < out.length) : (out.modify i (· + 1)).sum = out.sum + 1 := by
  induction out generalizing i with
  | nil => cases inside
  | cons n out ih =>
      cases i with
      | zero =>
          rw [List.modify_zero_cons, List.sum_cons, List.sum_cons]
          omega
      | succ i =>
          rw [List.modify_succ_cons, List.sum_cons, List.sum_cons, ih (Nat.lt_of_succ_lt_succ inside)]
          omega

theorem count_spec {slots : Nat} (some_ : 1 ≤ slots) (start bucketMs : ℚ) {out : List Nat} (length : out.length = slots) (t : ℚ) :
    (count slots start bucketMs out t).length = slots ∧
      (count slots start bucketMs out t).sum = out.sum + since start [t] := by
  unfold count
  split
  · rename_i early
    have none_ : since start [t] = 0 := by
      rw [since_eq_zero_iff]
      simpa using early
    exact ⟨length, by rw [none_, Nat.add_zero]⟩
  · rename_i late
    have one : since start [t] = 1 := by simp [since, not_lt.mp late]
    have inside : min (slots - 1) ⌊(t - start) / bucketMs⌋.toNat < out.length := by omega
    exact ⟨by rw [List.length_modify, length], by rw [sum_modify inside, one]⟩

theorem sum_foldl_count {slots : Nat} (some_ : 1 ≤ slots) (start bucketMs : ℚ) (arr : List ℚ) {out : List Nat}
    (length : out.length = slots) : (arr.foldl (count slots start bucketMs) out).sum = out.sum + since start arr := by
  induction arr generalizing out with
  | nil => rfl
  | cons t arr ih =>
      obtain ⟨length', sum⟩ := count_spec some_ start bucketMs length t
      rw [List.foldl_cons, ih length', sum, Nat.add_assoc, ← since_append, List.singleton_append]

theorem sum_buckets (s : EventStreamStore) (issueId : Int) {slots : Nat} (some_ : 1 ≤ slots) (window now : ℚ) :
    (s.buckets issueId slots window now).sum = since (now - window) ((s.perIssue issueId).getD []) := by
  unfold buckets
  cases s.perIssue issueId with
  | none => simp [since]
  | some arr =>
      have sum := sum_foldl_count some_ (now - window) (window / slots) arr (List.length_replicate (a := 0))
      simpa using sum

section
variable {history : History} {s : EventStreamStore} {now : ℚ}

theorem Logs.global_count (logs : Logs history s) (ordered : (arrivals history).Pairwise (· ≤ ·))
    (later : ∀ t ∈ arrivals history, t ≤ now) {window : ℚ} (inside : window ≤ HOUR_MS) :
    countAfter s.global (now - window) = since (now - window) (arrivals history) :=
  logs.global.length_takeWhile_reverse ordered later inside

theorem Logs.issue_count (logs : Logs history s) (ordered : (arrivals history).Pairwise (· ≤ ·))
    (later : ∀ t ∈ arrivals history, t ≤ now) (issueId : Int) {window : ℚ} (inside : window ≤ HALF_HOUR_MS) :
    countAfter ((s.perIssue issueId).getD []) (now - window) = since (now - window) (arrivalsOf issueId history) := by
  have sublist := arrivalsOf_sublist issueId history
  exact (logs.perIssue issueId).length_takeWhile_reverse (ordered.sublist sublist)
    (fun t mem => later t (sublist.subset mem)) inside

theorem Logs.recent_eq (logs : Logs history s) (ordered : (arrivals history).Pairwise (· ≤ ·))
    (later : ∀ t ∈ arrivals history, t ≤ now) (issueId : Int) {window : ℚ} (inside : 2 * window ≤ HALF_HOUR_MS) :
    recent ((s.perIssue issueId).getD []) window now = since (now - window) (arrivalsOf issueId history) := by
  have half : window ≤ HALF_HOUR_MS := by
    simp only [HALF_HOUR_MS] at inside ⊢
    linarith
  exact logs.issue_count ordered later issueId half

theorem Logs.prior_eq (logs : Logs history s) (ordered : (arrivals history).Pairwise (· ≤ ·))
    (later : ∀ t ∈ arrivals history, t ≤ now) (issueId : Int) {window : ℚ} (inside : 2 * window ≤ HALF_HOUR_MS) :
    prior ((s.perIssue issueId).getD []) window now =
      since (now - 2 * window) (arrivalsOf issueId history) - since (now - window) (arrivalsOf issueId history) := by
  rw [prior, logs.recent_eq ordered later issueId inside, logs.issue_count ordered later issueId inside]

theorem Logs.isSpiking_iff (logs : Logs history s) (ordered : (arrivals history).Pairwise (· ≤ ·))
    (later : ∀ t ∈ arrivals history, t ≤ now) (issueId : Int) (factor : ℚ) {window : ℚ} (inside : 2 * window ≤ HALF_HOUR_MS) :
    s.isSpiking issueId factor window now = true ↔
      6 ≤ ((s.perIssue issueId).getD []).length ∧ 5 ≤ since (now - window) (arrivalsOf issueId history) ∧
        factor * max ((since (now - 2 * window) (arrivalsOf issueId history) : Int) -
          since (now - window) (arrivalsOf issueId history) : Int) 1 ≤ since (now - window) (arrivalsOf issueId history) := by
  have recent_ := logs.recent_eq ordered later issueId inside
  have prior_ := logs.prior_eq ordered later issueId inside
  unfold isSpiking
  cases found : s.perIssue issueId with
  | none => simp
  | some arr =>
      rw [found, Option.getD_some] at recent_ prior_
      dsimp only
      rw [recent_, prior_, Option.getD_some]
      split_ifs with short
      · simp [Nat.not_le.mpr short]
      · rw [decide_eq_true_iff]
        simp [Nat.not_lt.mp short]

/-- For arrivals in order since the last `clear` and any later query, the rate over up to an hour is the number of
arrivals in the window, and the counts of an issue over up to half an hour are those of its whole history. Where the
source divides by the window, the window is not zero. -/
theorem counts_of_history (before : EventStreamStore) (history : History) (ordered : (arrivals history).Pairwise (· ≤ ·))
    {now : ℚ} (later : ∀ t ∈ arrivals history, t ≤ now) :
    (∀ window, window ≠ 0 → window ≤ HOUR_MS → (recordAll before.clear history).ratePerMin window now * window / 60000 =
      since (now - window) (arrivals history)) ∧
    (∀ issueId window, 2 * window ≤ HALF_HOUR_MS →
      recent (((recordAll before.clear history).perIssue issueId).getD []) window now =
        since (now - window) (arrivalsOf issueId history) ∧
      prior (((recordAll before.clear history).perIssue issueId).getD []) window now =
        since (now - 2 * window) (arrivalsOf issueId history) - since (now - window) (arrivalsOf issueId history)) ∧
    (∀ issueId slots window, 1 ≤ slots → window ≠ 0 → window ≤ HALF_HOUR_MS →
      ((recordAll before.clear history).buckets issueId slots window now).sum =
        since (now - window) (arrivalsOf issueId history)) := by
  have logs : Logs history (recordAll before.clear history) := (Logs.clear before).recordAll history
  refine ⟨fun window nonzero inside => ?_, fun issueId window inside => ?_, fun issueId slots window some_ _ inside => ?_⟩
  · rw [ratePerMin, logs.global_count ordered later inside]
    field_simp
  · exact ⟨logs.recent_eq ordered later issueId inside, logs.prior_eq ordered later issueId inside⟩
  · rw [sum_buckets _ _ some_]
    exact (logs.perIssue issueId).agrees _ fun t mem =>
      sub_le_sub (later t ((arrivalsOf_sublist issueId history).subset mem)) inside

theorem counts_of_history_sample : ((recordAll (clear ⟨[], fun _ => none, none⟩) [(1, 0), (2, 60000), (1, 1900000)]).buckets
    1 30 HALF_HOUR_MS 1900000).sum = since (1900000 - HALF_HOUR_MS) [0, 1900000] := by
  have counts := @counts_of_history ⟨[], fun _ => none, none⟩ [(1, 0), (2, 60000), (1, 1900000)]
    (by norm_num [arrivals]) 1900000 (by norm_num [arrivals])
  exact counts.2.2 1 30 HALF_HOUR_MS (by norm_num) (by norm_num [HALF_HOUR_MS]) le_rfl

end

end Errex.Proof.Spa.EventStream
