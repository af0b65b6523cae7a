import Errex.Model.Spa.Selection

/-!
# The detail pane

Whatever the order of the answers, the event that is shown was answered to a request for the selected issue
(`run_shows`). The loading flag follows the requests as long as no selection is taken back while its request is
outstanding, and none is made anew while an older request for the issue is (`run_settles_iff`).
-/

namespace Errex.Proof.Spa.Selection
open Foundation Machine Model.Spa.Selection State

variable {Stored NormalizedEvent : Type} {normalize : Stored → Option NormalizedEvent}
  {s : State Stored NormalizedEvent} {r : Request} {answer : Answer Stored}

section
variable (s : State Stored NormalizedEvent)

@[simp] theorem abort_selection : s.abort.selection = s.selection := by
  unfold abort
  split <;> rfl

@[simp] theorem abort_outstanding : s.abort.outstanding = s.outstanding := by
  unfold abort
  split <;> rfl

@[simp] theorem abort_controllers : s.abort.controllers = s.controllers := by
  unfold abort
  split <;> rfl

end

theorem resume_spec (normalize : Stored → Option NormalizedEvent) (s : State Stored NormalizedEvent) (r : Request)
    (answer : Answer Stored) : ∃ event toasts,
      s.resume normalize r answer = { s.setEvent event with toasts } ∧
        (event = s.selection.event ∨ event = none ∨ s.selection.issueId = some r.id ∧
          ∃ stored, answer = .succeeds (some stored) ∧ event = normalize stored) := by
  have caught_ : ∃ toasts, s.caught r = { s.setEvent s.selection.event with toasts } := by
    unfold caught
    split
    · exact ⟨s.toasts, rfl⟩
    · exact ⟨_, rfl⟩
  cases answer with
  | fails =>
      obtain ⟨toasts, same⟩ := caught_
      exact ⟨_, toasts, same, .inl rfl⟩
  | succeeds stored =>
      simp only [resume]
      split_ifs with late
      · exact ⟨s.selection.event, s.toasts, rfl, .inl rfl⟩
      · obtain ⟨-, current⟩ := not_or.mp late
        cases stored with
        | none => exact ⟨none, s.toasts, rfl, .inr (.inl rfl)⟩
        | some stored =>
            cases normal : normalize stored with
            | none =>
                simp only [normal]
                obtain ⟨toasts, same⟩ := caught_
                exact ⟨_, toasts, same, .inl rfl⟩
            | some event =>
                simp only [normal]
                exact ⟨some event, s.toasts, rfl, .inr (.inr ⟨not_not.mp current, stored, rfl, normal.symm⟩)⟩

theorem conclude_spec (s : State Stored NormalizedEvent) (r : Request) : ∃ inflight,
    s.conclude r = { s with
      inflight
      selection := { s.selection with
        eventLoading := if s.selection.issueId = some r.id then false else s.selection.eventLoading } } := by
  simp only [conclude]
  by_cases mine : s.inflight = some r.ctrl <;> by_cases current : s.selection.issueId = some r.id
  · exact ⟨none, by simp [mine, current]⟩
  · exact ⟨none, by simp [mine, current]⟩
  · exact ⟨s.inflight, by simp [mine, current]⟩
  · exact ⟨s.inflight, by simp [mine, current]⟩

theorem settle_spec (normalize : Stored → Option NormalizedEvent) {ctrl : Nat}
    (found : s.outstanding.find? (·.ctrl == ctrl) = some r) (answer : Answer Stored) :
    ∃ event, (step normalize s (.settle ctrl answer)).selection =
        ⟨s.selection.issueId, event, if s.selection.issueId = some r.id then false else s.selection.eventLoading⟩ ∧
      (event = s.selection.event ∨ event = none ∨ s.selection.issueId = some r.id ∧
        ∃ stored, answer = .succeeds (some stored) ∧ event = normalize stored) ∧
      (step normalize s (.settle ctrl answer)).outstanding = s.outstanding.erase r ∧
      (step normalize s (.settle ctrl answer)).answered = s.answered ++ [(r, answer)] ∧
      (step normalize s (.settle ctrl answer)).controllers = s.controllers := by
  simp only [step, found]
  obtain ⟨event, toasts, resumed, cases_⟩ := resume_spec normalize
    { s with outstanding := s.outstanding.erase r, answered := s.answered ++ [(r, answer)] } r answer
  obtain ⟨inflight, concluded⟩ := conclude_spec (resume normalize
    { s with outstanding := s.outstanding.erase r, answered := s.answered ++ [(r, answer)] } r answer) r
  rw [concluded, resumed]
  exact ⟨event, rfl, cases_, rfl, rfl, rfl⟩

theorem settle_missing (normalize : Stored → Option NormalizedEvent) {ctrl : Nat}
    (missing : s.outstanding.find? (·.ctrl == ctrl) = none) (answer : Answer Stored) :
    step normalize s (.settle ctrl answer) = s := by
  simp only [step, missing]

theorem selectIssue_same : s.selectIssue s.selection.issueId = s := if_pos rfl

theorem selectIssue_none (other : s.selection.issueId ≠ none) :
    (s.selectIssue none).selection = ⟨none, none, s.selection.eventLoading⟩ ∧
      (s.selectIssue none).outstanding = s.outstanding ∧ (s.selectIssue none).controllers = s.controllers := by
  simp [selectIssue, other]

theorem selectIssue_some {id : Int} (other : s.selection.issueId ≠ some id) :
    (s.selectIssue (some id)).selection = ⟨some id, none, true⟩ ∧
      (s.selectIssue (some id)).outstanding = s.outstanding ++ [⟨s.controllers, id⟩] ∧
      (s.selectIssue (some id)).controllers = s.controllers + 1 := by
  simp [selectIssue, other, request]

/-- The event is the normalised answer to a request for the selected issue. -/
def Shows (normalize : Stored → Option NormalizedEvent) (s : State Stored NormalizedEvent) : Prop :=
  ∀ event, s.selection.event = some event → ∃ r stored, s.selection.issueId = some r.id ∧
    (r, .succeeds (some stored)) ∈ s.answered ∧ normalize stored = some event

theorem Shows.step (shows_ : Shows normalize s) (action : Action Stored) : Shows normalize (step normalize s action) := by
  cases action with
  | selectIssue id =>
      simp only [Model.Spa.Selection.step]
      by_cases same : s.selection.issueId = id
      · rw [← same, selectIssue_same]
        exact shows_
      · cases id with
        | none =>
            intro event shown
            rw [(selectIssue_none same).1] at shown
            cases shown
        | some id =>
            intro event shown
            rw [(selectIssue_some same).1] at shown
            cases shown
  | settle ctrl answer =>
      cases found : s.outstanding.find? (·.ctrl == ctrl) with
      | none =>
          rw [settle_missing normalize found]
          exact shows_
      | some r =>
          obtain ⟨event, selection, cases_, -, answered, -⟩ := settle_spec normalize found answer
          intro shown same
          rw [selection] at same
          rw [selection, answered]
          rcases cases_ with old | none_ | ⟨current, stored, succeeded, new⟩
          · obtain ⟨r', stored, current, mem, normal⟩ := shows_ shown (old.symm.trans same)
            exact ⟨r', stored, current, List.mem_append_left _ mem, normal⟩
          · cases none_.symm.trans same
          · refine ⟨r, stored, current, List.mem_append_right _ ?_, new.symm.trans same⟩
            rw [succeeded]
            exact List.mem_singleton.mpr rfl

/-- In every state that calls and answers reach, in whatever order, the event belongs to the selected issue. -/
theorem run_shows (normalize : Stored → Option NormalizedEvent) (actions : List (Action Stored)) :
    Shows normalize (run (step normalize) initial actions) := by
  apply run_keeps (Shows normalize) fun s action shows_ => shows_.step action
  intro event shown
  cases shown

theorem run_shows_second :
    let s := run (step some) (initial : State String String) [.selectIssue (some 1), .selectIssue (some 2),
      .settle 1 (.succeeds (some "second")), .settle 0 (.succeeds (some "first"))]
    s.selection.event = some "second" ∧ ∃ r stored, s.selection.issueId = some r.id ∧
      (r, .succeeds (some stored)) ∈ s.answered ∧ some stored = some "second" := by
  intro s
  have shown : s.selection.event = some "second" := rfl
  exact ⟨shown, run_shows some _ "second" shown⟩

/-- No outstanding request leaves the flag down; one for the selected issue holds it up. -/
structure Settled (s : State Stored NormalizedEvent) : Prop where
  idle : s.outstanding = [] → s.selection.eventLoading = false
  waiting : ∀ r ∈ s.outstanding, s.selection.issueId = some r.id → s.selection.eventLoading = true

/-- A selection is not cleared while its request is outstanding, nor made while a request for the issue is. -/
def Awaits (s : State Stored NormalizedEvent) : Action Stored → Prop
  | .selectIssue none => ∀ r ∈ s.outstanding, s.selection.issueId ≠ some r.id
  | .selectIssue (some id) => s.selection.issueId ≠ some id → ∀ r ∈ s.outstanding, r.id ≠ id
  | .settle _ _ => True

structure Follows (s : State Stored NormalizedEvent) : Prop where
  flag : s.selection.eventLoading = true ↔ ∃ r ∈ s.outstanding, s.selection.issueId = some r.id
  ids : (s.outstanding.map Request.id).Nodup
  ctrls : (s.outstanding.map Request.ctrl).Nodup
  fresh : ∀ r ∈ s.outstanding, r.ctrl < s.controllers

theorem Follows.initial : Follows (initial : State Stored NormalizedEvent) := by
  constructor
  · simp [State.initial]
  · exact List.nodup_nil
  · exact List.nodup_nil
  · exact fun _ mem => absurd mem List.not_mem_nil

theorem Follows.settled (follows : Follows s) : Settled s where
  idle none_ := by
    rw [← Bool.not_eq_true, follows.flag]
    rintro ⟨r, mem, -⟩
    rw [none_] at mem
    exact absurd mem List.not_mem_nil
  waiting r mem current := follows.flag.mpr ⟨r, mem, current⟩

theorem Follows.select_none (follows : Follows s) (awaits : Awaits s (.selectIssue none)) :
    Follows (s.selectIssue none) := by
  by_cases same : s.selection.issueId = none
  · rw [← same, selectIssue_same]
    exact follows
  · obtain ⟨selection, outstanding, controllers⟩ := selectIssue_none same
    have down : ¬ s.selection.eventLoading = true := by
      rw [follows.flag]
      rintro ⟨r, mem, current⟩
      exact awaits r mem current
    constructor
    · rw [selection]
      exact iff_of_false down (by simp)
    · rw [outstanding]
      exact follows.ids
    · rw [outstanding]
      exact follows.ctrls
    · rw [outstanding, controllers]
      exact follows.fresh

theorem Follows.select_some (follows : Follows s) {id : Int} (awaits : Awaits s (.selectIssue (some id))) :
    Follows (s.selectIssue (some id)) := by
  by_cases same : s.selection.issueId = some id
  · rw [← same, selectIssue_same]
    exact follows
  · obtain ⟨selection, outstanding, controllers⟩ := selectIssue_some same
    constructor
    · rw [selection, outstanding]
      exact iff_of_true rfl ⟨⟨s.controllers, id⟩, by simp, rfl⟩
    · rw [outstanding, List.map_append]
      apply List.nodup_append.mpr ⟨follows.ids, List.nodup_singleton _, ?_⟩
      rintro _ mem _ single rfl
      obtain ⟨r, inside, same_⟩ := List.mem_map.mp mem
      exact awaits same r inside (same_.trans (List.mem_singleton.mp single))
    · rw [outstanding, List.map_append]
      apply List.nodup_append.mpr ⟨follows.ctrls, List.nodup_singleton _, ?_⟩
      rintro _ mem _ single rfl
      obtain ⟨r, inside, same_⟩ := List.mem_map.mp mem
      exact absurd (same_.trans (List.mem_singleton.mp single)) (follows.fresh r inside).ne
    · rw [outstanding, controllers]
      intro r mem
      rcases List.mem_append.mp mem with old | new
      · exact Nat.lt_succ_of_lt (follows.fresh r old)
      · rw [List.mem_singleton.mp new]
        exact Nat.lt_succ_self _

theorem Follows.settle (follows : Follows s) (ctrl : Nat) (answer : Answer Stored) :
    Follows (step normalize s (.settle ctrl answer)) := by
  cases found : s.outstanding.find? (·.ctrl == ctrl) with
  | none =>
      rw [settle_missing normalize found]
      exact follows
  | some r =>
      obtain ⟨event, selection, -, outstanding, -, controllers⟩ := settle_spec normalize found answer
      have mem : r ∈ s.outstanding := List.mem_of_find?_eq_some found
      have left : ∀ r' ∈ s.outstanding.erase r, r' ∈ s.outstanding ∧ r'.id ≠ r.id := by
        intro r' here
        obtain ⟨other, inside⟩ := (List.Nodup.mem_erase_iff follows.ids.of_map).mp here
        exact ⟨inside, fun same => other (List.inj_on_of_nodup_map follows.ids inside mem same)⟩
      constructor
      · rw [selection, outstanding]
        by_cases current : s.selection.issueId = some r.id
        · simp only [if_pos current]
          apply iff_of_false (by simp)
          rintro ⟨r', here, also_⟩
          exact (left r' here).2 (Option.some.inj (also_.symm.trans current))
        · simp only [if_neg current, follows.flag]
          constructor
          · rintro ⟨r', inside, also_⟩
            refine ⟨r', (List.mem_erase_of_ne ?_).mpr inside, also_⟩
            rintro rfl
            exact current also_
          · rintro ⟨r', here, also_⟩
            exact ⟨r', (left r' here).1, also_⟩
      · rw [outstanding]
        exact follows.ids.sublist (List.erase_sublist.map _)
      · rw [outstanding]
        exact follows.ctrls.sublist (List.erase_sublist.map _)
      · rw [outstanding, controllers]
        exact fun r' here => follows.fresh r' (left r' here).1

theorem Follows.step (follows : Follows s) (action : Action Stored) (awaits : Awaits s action) :
    Follows (step normalize s action) := by
  cases action with
  | selectIssue id =>
      cases id with
      | none => exact follows.select_none awaits
      | some id => exact follows.select_some awaits
  | settle ctrl answer => exact follows.settle ctrl answer

def settles (answers : List (Nat × Answer Stored)) : List (Action Stored) :=
  answers.map fun (ctrl, answer) => .settle ctrl answer

theorem permits_settles (s : State Stored NormalizedEvent) (answers : List (Nat × Answer Stored)) :
    Permits (step normalize) Awaits s (settles answers) := by
  induction answers generalizing s with
  | nil => trivial
  | cons first rest ih => exact ⟨trivial, ih _⟩

theorem exists_drained (normalize : Stored → Option NormalizedEvent) (s : State Stored NormalizedEvent)
    (none_ : s.selection.issueId = none) : ∃ answers, (run (step normalize) s (settles answers)).outstanding = [] ∧
      (run (step normalize) s (settles answers)).selection.eventLoading = s.selection.eventLoading := by
  generalize waiting : s.outstanding = requests
  induction requests generalizing s with
  | nil => exact ⟨[], waiting, rfl⟩
  | cons r requests ih =>
      have found : s.outstanding.find? (·.ctrl == r.ctrl) = some r := by
        rw [waiting, List.find?_cons_of_pos (by simp)]
      obtain ⟨event, selection, -, outstanding, -⟩ := settle_spec normalize found .fails
      have rest : (step normalize s (.settle r.ctrl .fails)).outstanding = requests := by
        rw [outstanding, waiting, List.erase_cons_head]
      obtain ⟨answers, empty, flag⟩ := ih _ (by rw [selection, none_]) rest
      refine ⟨(r.ctrl, .fails) :: answers, empty, flag.trans ?_⟩
      rw [selection, none_]
      rfl

theorem exists_unsettled (normalize : Stored → Option NormalizedEvent) (follows : Follows s) {action : Action Stored}
    (hasty : ¬ Awaits s action) : ∃ answers, ¬ Settled (run (step normalize) (step normalize s action) (settles answers)) := by
  cases action with
  | settle ctrl answer => exact absurd trivial hasty
  | selectIssue id =>
      simp only [Model.Spa.Selection.step]
      cases id with
      | none =>
          simp only [Awaits, not_forall, not_not] at hasty
          obtain ⟨r, mem, current⟩ := hasty
          obtain ⟨selection, -⟩ := selectIssue_none (s := s) (by simp [current])
          obtain ⟨answers, empty, flag⟩ := exists_drained normalize (s.selectIssue none) (by rw [selection])
          refine ⟨answers, fun settled => ?_⟩
          have down := settled.idle empty
          rw [flag, selection, follows.flag.mpr ⟨r, mem, current⟩] at down
          cases down
      | some id =>
          simp only [Awaits, not_forall, not_not] at hasty
          obtain ⟨other, r, mem, same⟩ := hasty
          obtain ⟨selection, outstanding, -⟩ := selectIssue_some other
          have found : (s.selectIssue (some id)).outstanding.find? (·.ctrl == r.ctrl) = some r := by
            rw [outstanding, List.find?_append]
            cases first : s.outstanding.find? (·.ctrl == r.ctrl) with
            | none => exact absurd (List.find?_eq_none.mp first r mem) (by simp)
            | some r' =>
                have equal : r'.ctrl = r.ctrl := by simpa using List.find?_some first
                exact congrArg some (List.inj_on_of_nodup_map follows.ctrls (List.mem_of_find?_eq_some first) mem equal)
          obtain ⟨event, selection', -, outstanding', -⟩ := settle_spec normalize found .fails
          refine ⟨[(r.ctrl, .fails)], fun settled => ?_⟩
          -- The later request for the issue is still outstanding.
          have later : (⟨s.controllers, id⟩ : Request) ∈ (s.selectIssue (some id)).outstanding.erase r := by
            rw [List.mem_erase_of_ne, outstanding]
            · simp
            · intro equal
              have := follows.fresh r mem
              rw [← equal] at this
              exact absurd this (lt_irrefl _)
          have up := settled.waiting ⟨s.controllers, id⟩ (by
            rw [← outstanding'] at later
            exact later) (congrArg SelectionStore.issueId selection' |>.trans (by rw [selection]))
          have down := congrArg SelectionStore.eventLoading selection'
          rw [selection] at down
          simp only [same, if_true] at down
          exact absurd (down.symm.trans up) (by simp)

/-- The flag is right at every point of a run, and however the requests that are outstanding there are answered, exactly
when every selection of the run awaits. -/
theorem run_settles_iff (normalize : Stored → Option NormalizedEvent) (actions : List (Action Stored)) :
    (∀ before after, actions = before ++ after → ∀ answers,
      Settled (run (step normalize) initial (before ++ settles answers))) ↔
      Permits (step normalize) Awaits initial actions := by
  constructor
  · intro settled
    by_contra hasty
    obtain ⟨before, action, after, rfl, permitted, refused⟩ := exists_of_not_permits hasty
    have follows : Follows (run (step normalize) initial before) :=
      run_invariant Follows (fun s action follows awaits => follows.step action awaits) permitted Follows.initial
    obtain ⟨answers, wrong⟩ := exists_unsettled normalize follows refused
    apply wrong
    have right := settled (before ++ [action]) after (by simp) answers
    rw [run_append, run_append] at right
    exact right
  · rintro permitted before after rfl answers
    have awaited : Permits (step normalize) Awaits initial (before ++ settles answers) :=
      permits_append.mpr ⟨(permits_append.mp permitted).1, permits_settles _ answers⟩
    have follows := run_invariant Follows (fun s action follows awaits => follows.step action awaits) awaited Follows.initial
    exact follows.settled

/-- Deselected while its event loads, an issue leaves the flag up for good. -/
theorem run_not_settled : ¬ ∀ actions : List (Action Unit),
    Settled (run (step fun stored => some stored) (initial : State Unit Unit) actions) := by
  intro settled
  have down := (settled [.selectIssue (some 1), .selectIssue none, .settle 0 (.succeeds none)]).idle rfl
  cases down

end Errex.Proof.Spa.Selection
