import Errex.Model.Store.Issues

/-!
# What an issue summarises

The history of an issue is what happened to it in turn: inputs of its key that arrived, and triage
decisions. `Summary.of` says what is to be remembered of a history, `of_arrival` and `of_triage` how
that changes with one more occurrence.
-/

namespace Errex.Spec
open Model Store

inductive Occurrence where
  | arrival (input : UpsertInput)
  | triage (status : IssueStatus)

def arrivals (history : List Occurrence) : List UpsertInput :=
  history.filterMap fun
    | .arrival input => some input
    | .triage _ => none

def advance : Option IssueStatus → Occurrence → Option IssueStatus
  | none, .arrival _ => some .unresolved
  | none, .triage _ => none
  | some .resolved, .arrival _ => some .unresolved
  | some status, .arrival _ => some status
  | some _, .triage status => some status

def statusAfter (history : List Occurrence) : Option IssueStatus := history.foldl advance none

structure Summary where
  title : String
  culprit : Option String
  level : Option String
  firstSeen : DateTime
  lastSeen : DateTime
  eventCount : Nat
  status : IssueStatus

namespace Summary

/-- The first input names the issue, the last one dates it, and all of them count. -/
def of (history : List Occurrence) : Option Summary :=
  match arrivals history with
  | [] => none
  | first :: rest => some
      { title := first.title
        culprit := first.culprit
        level := first.level
        firstSeen := first.now
        lastSeen := (rest.getLastD first).now
        eventCount := (first :: rest).length
        status := (statusAfter history).getD .unresolved }

def row (id : Int) (key : String × String) (s : Summary) : IssueRow where
  id := id
  project := key.1
  fingerprint := key.2
  title := s.title
  culprit := s.culprit
  level := s.level
  status := s.status.asDbStr
  eventCount := s.eventCount
  firstSeen := s.firstSeen.toRfc3339
  lastSeen := s.lastSeen.toRfc3339

def created (input : UpsertInput) : Summary :=
  ⟨input.title, input.culprit, input.level, input.now, input.now, 1, .unresolved⟩

def bumped (input : UpsertInput) (s : Summary) : Summary :=
  { s with
    lastSeen := input.now
    eventCount := s.eventCount + 1
    status := if s.status = .resolved then .unresolved else s.status }

def triaged (status : IssueStatus) (s : Summary) : Summary := { s with status }

end Summary

@[simp] theorem arrivals_append_arrival (history : List Occurrence) (input : UpsertInput) :
    arrivals (history ++ [.arrival input]) = arrivals history ++ [input] := by
  simp [arrivals]

@[simp] theorem arrivals_append_triage (history : List Occurrence) (status : IssueStatus) :
    arrivals (history ++ [.triage status]) = arrivals history := by
  simp [arrivals]

@[simp] theorem statusAfter_append (history : List Occurrence) (occurrence : Occurrence) :
    statusAfter (history ++ [occurrence]) = advance (statusAfter history) occurrence := by
  simp [statusAfter]

theorem statusAfter_eq_none_iff (history : List Occurrence) :
    statusAfter history = none ↔ arrivals history = [] := by
  induction history using List.reverseRecOn with
  | nil => simp [statusAfter, arrivals]
  | append_singleton history occurrence ih =>
      rw [statusAfter_append]
      cases occurrence with
      | arrival input =>
          rcases statusAfter history with _ | _ | _ | _ | _ <;> simp [advance]
      | triage status =>
          rw [arrivals_append_triage, ← ih]
          rcases statusAfter history with _ | _ <;> simp [advance]

namespace Summary

theorem of_eq_none_iff (history : List Occurrence) : Summary.of history = none ↔ arrivals history = [] := by
  unfold Summary.of
  cases arrivals history <;> simp

theorem statusAfter_eq (history : List Occurrence) :
    statusAfter history = (Summary.of history).map (·.status) := by
  unfold Summary.of
  cases inputs : arrivals history with
  | nil => simpa using (statusAfter_eq_none_iff history).mpr inputs
  | cons first rest =>
      have exists_ : statusAfter history ≠ none := by
        rw [Ne, statusAfter_eq_none_iff, inputs]
        simp
      obtain ⟨status, known⟩ := Option.ne_none_iff_exists'.mp exists_
      simp [known]

theorem of_arrival (history : List Occurrence) (input : UpsertInput) :
    Summary.of (history ++ [.arrival input]) =
      some (((Summary.of history).map (bumped input)).getD (created input)) := by
  have known := statusAfter_eq history
  unfold Summary.of at known ⊢
  rw [arrivals_append_arrival, statusAfter_append]
  cases inputs : arrivals history with
  | nil =>
      simp only [inputs, Option.map_none] at known
      simp [known, advance, created]
  | cons first rest =>
      simp only [inputs, Option.map_some] at known
      generalize (statusAfter history).getD .unresolved = status at known
      rw [known]
      cases status <;> simp [bumped, advance]

theorem of_triage (history : List Occurrence) (status : IssueStatus) :
    Summary.of (history ++ [.triage status]) = (Summary.of history).map (triaged status) := by
  have known := statusAfter_eq history
  unfold Summary.of at known ⊢
  rw [arrivals_append_triage, statusAfter_append]
  cases inputs : arrivals history with
  | nil => simp
  | cons first rest =>
      simp only [inputs, Option.map_some] at known
      rw [known]
      simp [advance, triaged]

end Summary

end Errex.Spec
