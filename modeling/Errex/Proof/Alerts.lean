import Errex.Model.WebhookTask
import Errex.Proof.Issues.ById

/-!
# Alerts of silenced issues

The webhook task looks at the copy of the issue in the trigger, which is always unresolved: a digest
makes triggers only of issues that it has created or reopened. So nothing is ever dropped, and an
issue that is silenced while its trigger waits is announced all the same (`run_posts_silenced`). As long as no
waiting issue is silenced, every POST is about an issue that was not (`run_spares_silenced`).
-/

namespace Errex.Proof.Alerts
open Foundation Transaction Model Model.Webhook Store Issues

def storedStatus (id : Int) (db : Db) : Option IssueStatus :=
  (issueOfId id db).map fun row => IssueStatus.fromDbStr row.status

/-- The issue is not Muted or Ignored in the store. -/
def Audible (id : Int) (db : Db) : Prop := (storedStatus id db).any silenced = false

variable {db db' : Db}

theorem upsertInput_audible (id : Int) (now : UtcNow) (received : SqliteTime) (input : BatchUpsertInput) :
    (upsertInput now received input).Keeps fun db => Integrity db ∧ Audible id db := by
  intro db result db' done ⟨sound, audible⟩
  refine ⟨Integrity.upsertInput_keeps now received input db result db' done sound, ?_⟩
  obtain ⟨row, -, written, others, status⟩ := upsertInput_written sound done
  by_cases same : row.id = id
  · subst same
    rw [Audible, storedStatus, written]
    rcases status with unresolved | ⟨-, -, old, before, kept⟩
    · simp [unresolved, IssueStatus.fromDbStr, silenced]
    · rw [Audible, storedStatus, before] at audible
      simpa [kept] using audible
  · rwa [Audible, storedStatus, others id same]

theorem batch_audible (id : Int) (now : UtcNow) (received : Nat → SqliteTime) (batch : List BatchUpsertInput) :
    (upsertBatchWithEvents now received batch).Keeps fun db => Integrity db ∧ Audible id db :=
  upsertBatchWithEvents_keeps (upsertInput_audible id now) received batch

def Fresh (trigger : Trigger) (db : Db) : Prop :=
  trigger.issue.status = .unresolved ∧ Audible trigger.issue.id db

theorem issue_of_trigger {result : UpsertResult} {trigger : Trigger} (triggered : Digest.trigger result = some trigger) :
    trigger.issue = result.issue := by
  unfold Digest.trigger at triggered
  split_ifs at triggered <;> cases triggered <;> rfl

theorem upsertInput_trigger (sound : Integrity db) {now : UtcNow} {received : SqliteTime}
    {input : BatchUpsertInput} {result : UpsertResult} {trigger : Trigger}
    (done : upsertInput now received input db = .ok (result, db'))
    (triggered : Digest.trigger result = some trigger) : Fresh trigger db' := by
  obtain ⟨row, reading, written, -, status⟩ := upsertInput_written sound done
  rcases status with unresolved | ⟨created, regressed, -⟩
  · rw [Fresh, issue_of_trigger triggered, reading]
    refine ⟨by simp [Issue.ofRow, unresolved, IssueStatus.fromDbStr], ?_⟩
    show (storedStatus row.id db').any silenced = false
    simp [storedStatus, written, unresolved, IssueStatus.fromDbStr, silenced]
  · simp [Digest.trigger, created, regressed] at triggered

theorem batch_triggers (now : UtcNow) (batch : List BatchUpsertInput) {received : Nat → SqliteTime}
    {results : List UpsertResult} (sound : Integrity db)
    (done : upsertBatchWithEvents now received batch db = .ok (results, db')) :
    ∀ trigger ∈ results.filterMap Digest.trigger, Fresh trigger db' := by
  induction batch generalizing received results db with
  | nil =>
      cases done
      exact fun _ none => absurd none List.not_mem_nil
  | cons input batch ih =>
      obtain ⟨result, db₁, first, rest⟩ := bind_eq_ok_iff.mp done
      obtain ⟨results, db₂, others, rest⟩ := bind_eq_ok_iff.mp rest
      cases rest
      have sound' : Integrity db₁ := Integrity.upsertInput_keeps now _ input db result db₁ first sound
      intro trigger mem
      obtain ⟨reported, mem, triggered⟩ := List.mem_filterMap.mp mem
      rcases List.mem_cons.mp mem with rfl | later
      · have fresh := upsertInput_trigger sound first triggered
        -- The inputs after it silence nothing.
        exact ⟨fresh.1, (batch_audible _ now _ batch db₁ _ _ others ⟨sound', fresh.2⟩).2⟩
      · exact ih sound' others trigger (List.mem_filterMap.mpr ⟨reported, later, triggered⟩)

theorem mem_trySend {channel : List Trigger} {new trigger : Trigger} (mem : trigger ∈ trySend channel new) :
    trigger ∈ channel ∨ trigger = new := by
  unfold trySend at mem
  split_ifs at mem
  · simpa using mem
  · exact .inl mem

theorem mem_foldl_trySend {new channel : List Trigger} {trigger : Trigger}
    (mem : trigger ∈ new.foldl trySend channel) : trigger ∈ channel ∨ trigger ∈ new := by
  induction new generalizing channel with
  | nil => exact .inl mem
  | cons first rest ih =>
      rcases ih mem with sent | later
      · rcases mem_trySend sent with old | rfl
        · exact .inl old
        · exact .inr List.mem_cons_self
      · exact .inr (List.mem_cons_of_mem _ later)

theorem digest_channel_cases {w : World} {batch : List BatchUpsertInput} {channel : List Trigger} {trigger : Trigger}
    (mem : trigger ∈ (Digest.processBatch
      (transact w (upsertBatchWithEvents w.now w.received batch) db).1).1.foldl trySend channel) :
    trigger ∈ channel ∨ ∃ results, trigger ∈ results.filterMap Digest.trigger ∧
      upsertBatchWithEvents w.now w.received batch db =
        .ok (results, (transact w (upsertBatchWithEvents w.now w.received batch) db).2) := by
  rcases mem_foldl_trySend mem with old | new
  · exact .inl old
  · cases reply : (transact w (upsertBatchWithEvents w.now w.received batch) db).1 with
    | error error =>
        rw [reply] at new
        exact absurd new List.not_mem_nil
    | ok results =>
        rw [reply] at new
        exact .inr ⟨results, new, transact_ok reply⟩

theorem digest_channel (sound : Integrity db) {w : World} {batch : List BatchUpsertInput} {channel : List Trigger}
    {trigger : Trigger} (mem : trigger ∈ (Digest.processBatch
      (transact w (upsertBatchWithEvents w.now w.received batch) db).1).1.foldl trySend channel) :
    trigger ∈ channel ∨ Fresh trigger (transact w (upsertBatchWithEvents w.now w.received batch) db).2 := by
  rcases digest_channel_cases mem with old | ⟨results, new, done⟩
  · exact .inl old
  · exact .inr (batch_triggers w.now batch sound done trigger new)

theorem setStatus_audible {id issueId : Int} {status : IssueStatus} (now : UtcNow)
    (spared : silenced status = true → id ≠ issueId) :
    (setStatus now issueId status).Keeps fun db => Integrity db ∧ Audible id db := by
  intro db issue db' done ⟨sound, audible⟩
  refine ⟨setStatus_keeps (fun _ sound => sound.updateStatus _ _) db issue db' done sound, ?_⟩
  obtain ⟨rfl, -⟩ := setStatus_written done
  rw [Audible, storedStatus, issueOfId_updateStatus]
  split_ifs with same
  · have loud : silenced status = false := by
      by_contra quiet
      exact spared (by simpa using quiet) same.symm
    cases issueOfId id db <;> simp [triageIssue, loud]
  · exact audible

structure Watched where
  state : State
  status : Option IssueStatus

def watch (s : Watched) (action : Action) : Watched where
  state := step s.state action
  status :=
    match action, s.state.task, s.state.channel with
    | .receive, .receiving, trigger :: _ => storedStatus trigger.issue.id s.state.db
    | _, _, _ => s.status

/-- No issue is muted or ignored while a trigger of it waits in the channel. -/
def SparesWaiting (s : Watched) : Action → Prop
  | .setStatus _ issueId status => silenced status = true → ∀ trigger ∈ s.state.channel, trigger.issue.id ≠ issueId
  | _ => True

instance (s : Watched) (action : Action) : Decidable (SparesWaiting s action) :=
  match action with
  | .setStatus _ issueId status =>
      inferInstanceAs (Decidable (silenced status = true → ∀ trigger ∈ s.state.channel, trigger.issue.id ≠ issueId))
  | .digest _ _ | .receive | .lookUp _ | .answer _ _ => .isTrue trivial

structure Quiet (s : Watched) : Prop where
  sound : Integrity s.state.db
  waiting : ∀ trigger ∈ s.state.channel, Fresh trigger s.state.db
  taken : s.state.task ≠ .receiving → s.status.any silenced = false

theorem Quiet.of_call {s : Watched} (quiet : Quiet s) {channel : List Trigger} (sound : Integrity db)
    (audible : ∀ trigger ∈ s.state.channel, Audible trigger.issue.id db)
    (sent : ∀ trigger ∈ channel, trigger ∈ s.state.channel ∨ Fresh trigger db) :
    Quiet ⟨{ s.state with db, channel }, s.status⟩ where
  sound := sound
  waiting trigger mem := by
    rcases sent trigger mem with old | fresh
    · exact ⟨(quiet.waiting trigger old).1, audible trigger old⟩
    · exact fresh
  taken := quiet.taken

theorem Fresh.of_same {trigger : Trigger} (fresh : Fresh trigger db) (issues : db'.issues = db.issues) :
    Fresh trigger db' := by
  refine ⟨fresh.1, ?_⟩
  rw [Audible, storedStatus, issueOfId, issues]
  exact fresh.2

theorem Quiet.receive {s : Watched} (quiet : Quiet s) : Quiet (watch s .receive) := by
  obtain ⟨⟨db, channel, task⟩, status⟩ := s
  cases task with
  | receiving =>
      cases channel with
      | nil => exact quiet
      | cons trigger rest =>
          have fresh := quiet.waiting trigger List.mem_cons_self
          exact ⟨quiet.sound, fun other mem => quiet.waiting other (List.mem_cons_of_mem _ mem), fun _ => fresh.2⟩
  | lookingUp trigger => exact quiet
  | posting trigger url => exact quiet

theorem Quiet.lookUp {s : Watched} (quiet : Quiet s) (w : World) : Quiet (watch s (.lookUp w)) := by
  obtain ⟨⟨db, channel, task⟩, status⟩ := s
  cases task with
  | lookingUp trigger =>
      have reads : (projectByName w.now trigger.issue.project).Keeps (· = db) := .read _
      have same := transact_keeps (w := w) reads rfl
      refine ⟨?_, ?_, fun _ => quiet.taken (by simp)⟩
      · simpa only [watch, Webhook.step, same] using quiet.sound
      · simpa only [watch, Webhook.step, same] using quiet.waiting
  | receiving => exact quiet
  | posting trigger url => exact quiet

theorem Quiet.answer {s : Watched} (quiet : Quiet s) (w : World) (code : UInt16) :
    Quiet (watch s (.answer w code)) := by
  obtain ⟨⟨db, channel, task⟩, status⟩ := s
  cases task with
  | posting trigger url =>
      have keeps : (recordWebhookAttempt w.now trigger.issue.project code).Keeps
          fun db' => Integrity db' ∧ db'.issues = db.issues :=
        .execute fun db' kept => ⟨kept.1.of_same ⟨rfl, rfl⟩ ⟨rfl, rfl⟩, kept.2⟩
      have kept := transact_keeps (w := w) keeps ⟨quiet.sound, rfl⟩
      exact ⟨kept.1, fun other mem => (quiet.waiting other mem).of_same kept.2, fun busy => absurd rfl busy⟩
  | receiving => exact quiet
  | lookingUp trigger => exact quiet

theorem Quiet.step {s : Watched} (quiet : Quiet s) (action : Action) (spares : SparesWaiting s action) :
    Quiet (watch s action) := by
  cases action with
  | digest w batch =>
      refine quiet.of_call ?_ (fun trigger mem => ?_) fun trigger mem => digest_channel quiet.sound mem
      · exact transact_keeps (upsertBatchWithEvents_keeps (Integrity.upsertInput_keeps _) _ _) quiet.sound
      · exact (transact_keeps (batch_audible trigger.issue.id _ _ _) ⟨quiet.sound, (quiet.waiting trigger mem).2⟩).2
  | setStatus w issueId status =>
      have stays : ∀ db, ∀ trigger ∈ s.state.channel, trigger ∈ s.state.channel ∨ Fresh trigger db :=
        fun _ _ mem => .inl mem
      refine quiet.of_call ?_ (fun trigger mem => ?_) (stays _)
      · exact transact_keeps (setStatus_keeps fun _ sound => sound.updateStatus _ _) quiet.sound
      · have audible := setStatus_audible w.now fun quiets => spares quiets trigger mem
        exact (transact_keeps audible ⟨quiet.sound, (quiet.waiting trigger mem).2⟩).2
  | receive => exact quiet.receive
  | lookUp w => exact quiet.lookUp w
  | answer w code => exact quiet.answer w code

def start (argon2 : Argon2) (calls : List (World × Call)) : Watched :=
  ⟨⟨performAll (exec argon2) calls Db.empty, [], .receiving⟩, none⟩

/-- Whenever a POST is under way, its issue was not silenced when the trigger was taken. -/
def SparesSilenced (s : Watched) : Prop :=
  ∀ trigger url, s.state.task = .posting trigger url → s.status.any silenced = false

/-- From any database that calls lead to: in every run in which no issue is muted or ignored while a
trigger of it waits, the task starts no POST for a silenced issue. -/
theorem run_spares_silenced (argon2 : Argon2) (calls : List (World × Call)) (actions : List Action)
    (permitted : Machine.Permits watch SparesWaiting (start argon2 calls) actions) :
    SparesSilenced (Machine.run watch (start argon2 calls) actions) := by
  have quiet : Quiet (start argon2 calls) := {
    sound := performAll_invariant (exec argon2) Integrity (exec_integrity argon2) calls Integrity.empty
    waiting := fun _ none => absurd none List.not_mem_nil
    taken := fun busy => absurd rfl busy }
  intro trigger url posting
  refine (Machine.run_invariant Quiet (fun _ action quiet spares => quiet.step action spares) permitted quiet).taken ?_
  rw [posting]
  simp

def hooked : List (World × Call) :=
  [(noonWorld 1, .createProject "web"), (noonWorld 2, .setProjectWebhook "web" (some "https://hooks.slack.com/x"))]

def firstEvent : Action :=
  .digest (noonWorld 3) [⟨"web", "f", "boom", none, none, "E", "f:1", noon, "e", "\x7b\x7d"⟩]

theorem run_spares_silenced_sample : SparesSilenced (Machine.run watch (start plainArgon2 hooked)
    [firstEvent, .receive, .setStatus (noonWorld 4) 1 .muted, .lookUp (noonWorld 5), .answer (noonWorld 6) 200,
      .setStatus (noonWorld 7) 1 .ignored]) :=
  run_spares_silenced _ _ _ (by decide +kernel)

def postedUrl : Task → Option String
  | .posting _ url => some url
  | _ => none

theorem postedUrl_eq_some {task : Task} {url : String} (posted : postedUrl task = some url) :
    ∃ trigger, task = .posting trigger url := by
  cases task <;> cases posted
  exact ⟨_, rfl⟩

/-- An issue that is muted while its trigger waits is announced. -/
theorem run_posts_silenced : ¬ ∀ actions : List Action,
    SparesSilenced (Machine.run watch (start plainArgon2 hooked) actions) := by
  intro spares
  let final := Machine.run watch (start plainArgon2 hooked)
    [firstEvent, .setStatus (noonWorld 4) 1 .muted, .receive, .lookUp (noonWorld 5)]
  have posted : postedUrl final.state.task = some "https://hooks.slack.com/x" := by decide +kernel
  obtain ⟨trigger, posting⟩ := postedUrl_eq_some posted
  have spared : final.status.any silenced = false := spares _ trigger _ posting
  have muted : final.status.any silenced = true := by decide +kernel
  exact absurd (muted.symm.trans spared) (by decide)

end Errex.Proof.Alerts
