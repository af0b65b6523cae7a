import Errex.Foundation.Machine

/-!
# The selection of the SPA

`selectIssue` of `selection.ts`, between its await and the browser: the calls of the components, and the requests
that the network answers in any order.
-/

namespace Errex.Model.Spa.Selection
open Foundation

structure Request where
  ctrl : Nat
  id : Int
  deriving DecidableEq

inductive Answer (Stored : Type) where
  | succeeds (stored : Option Stored)
  | fails

structure SelectionStore (NormalizedEvent : Type) where
  issueId : Option Int
  event : Option NormalizedEvent
  eventLoading : Bool

/-- The store, the variable `inflight`, the controllers that were constructed and those among them that were aborted,
the requests without an answer, the answers so far, and the toasts. -/
structure State (Stored NormalizedEvent : Type) where
  selection : SelectionStore NormalizedEvent
  inflight : Option Nat
  controllers : Nat
  aborted : List Nat
  outstanding : List Request
  answered : List (Request × Answer Stored)
  toasts : List String

inductive Action (Stored : Type) where
  | selectIssue (id : Option Int)
  | settle (ctrl : Nat) (answer : Answer Stored)

variable {Stored NormalizedEvent : Type}

namespace State

def initial : State Stored NormalizedEvent := ⟨⟨none, none, false⟩, none, 0, [], [], [], []⟩

def setEvent (s : State Stored NormalizedEvent) (event : Option NormalizedEvent) : State Stored NormalizedEvent :=
  { s with selection := { s.selection with event } }

def abort (s : State Stored NormalizedEvent) : State Stored NormalizedEvent :=
  match s.inflight with
  | some ctrl => { s with aborted := ctrl :: s.aborted, inflight := none }
  | none => s

def request (s : State Stored NormalizedEvent) (id : Int) : State Stored NormalizedEvent :=
  { s with
    selection := { s.selection with eventLoading := true }
    inflight := some s.controllers
    controllers := s.controllers + 1
    outstanding := s.outstanding ++ [⟨s.controllers, id⟩] }

def selectIssue (s : State Stored NormalizedEvent) (id : Option Int) : State Stored NormalizedEvent :=
  if s.selection.issueId = id then s
  else
    let s := { s with selection := { s.selection with issueId := id, event := none } }.abort
    match id with
    | none => s
    | some id => s.request id

def caught (s : State Stored NormalizedEvent) (r : Request) : State Stored NormalizedEvent :=
  if r.ctrl ∈ s.aborted then s else { s with toasts := s.toasts ++ ["Failed to load event details"] }

/-- The block behind the await, and the `catch`; `normalize` may throw. -/
def resume (normalize : Stored → Option NormalizedEvent) (s : State Stored NormalizedEvent) (r : Request) :
    Answer Stored → State Stored NormalizedEvent
  | .succeeds stored =>
      if r.ctrl ∈ s.aborted ∨ s.selection.issueId ≠ some r.id then s
      else match stored with
        | none => s.setEvent none
        | some stored => match normalize stored with
          | some event => s.setEvent (some event)
          | none => s.caught r
  | .fails => s.caught r

def conclude (s : State Stored NormalizedEvent) (r : Request) : State Stored NormalizedEvent :=
  let s := if s.inflight = some r.ctrl then { s with inflight := none } else s
  if s.selection.issueId = some r.id then { s with selection := { s.selection with eventLoading := false } } else s

end State

/-- An answer comes once, to a request without one. -/
def step (normalize : Stored → Option NormalizedEvent) (s : State Stored NormalizedEvent) :
    Action Stored → State Stored NormalizedEvent
  | .selectIssue id => s.selectIssue id
  | .settle ctrl answer =>
      match s.outstanding.find? (·.ctrl == ctrl) with
      | none => s
      | some r =>
          let s := { s with outstanding := s.outstanding.erase r, answered := s.answered ++ [(r, answer)] }
          (s.resume normalize r answer).conclude r

end Errex.Model.Spa.Selection
