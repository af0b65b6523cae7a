import Errex.Model.WebhookTask
import Errex.Proof.Frame

/-!
# Alerts in order

What the webhook task makes of the triggers that the digest task fires: each is queued, or dropped where the channel is
full, and each queued one is settled once and in its turn. A project row holds the outcome of the project's last POST.
-/

namespace Errex.Proof.Delivery
open Foundation Transaction Model Model.Webhook Store

/-- What happens to triggers. -/
inductive Report where
  | queued (trigger : Trigger)
  | dropped (trigger : Trigger)
  | silenced (trigger : Trigger)
  | unaddressed (trigger : Trigger)
  | posted (trigger : Trigger) (url : String)
  | answered (trigger : Trigger) (status : UInt16)

def offer : List Trigger → List Trigger → List Report
  | _, [] => []
  | channel, trigger :: rest =>
      (if channel.length < WEBHOOK_CHANNEL_CAPACITY then .queued trigger else .dropped trigger) ::
        offer (trySend channel trigger) rest

def fired (w : World) (batch : List Digest.IngestEvent) (db : Db) : List Trigger :=
  (Digest.processBatch (transact w (upsertBatchWithEvents w.now w.received (batch.map (·.input))) db).1).1

def reports (s : State) : Action → List Report
  | .digest w batch => offer s.channel (fired w batch s.db)
  | .setStatus _ _ _ => []
  | .receive =>
      match s.task, s.channel with
      | .receiving, trigger :: _ => if Webhook.silenced trigger.issue.status then [.silenced trigger] else []
      | _, _ => []
  | .lookUp w =>
      match s.task, (Webhook.step s (.lookUp w)).task with
      | .lookingUp trigger, .posting _ url => [.posted trigger url]
      | .lookingUp trigger, _ => [.unaddressed trigger]
      | _, _ => []
  | .answer _ status =>
      match s.task with
      | .posting trigger _ => [.answered trigger status]
      | _ => []

abbrev watch : State × List Report → Action → State × List Report := Machine.record Webhook.step reports

namespace Report

def queued? : Report → Option Trigger
  | queued trigger => some trigger
  | dropped _ | silenced _ | unaddressed _ | posted _ _ | answered _ _ => none

def settled? : Report → Option Trigger
  | silenced trigger | unaddressed trigger | answered trigger _ => some trigger
  | queued _ | dropped _ | posted _ _ => none

def posted? : Report → Option Trigger
  | posted trigger _ => some trigger
  | queued _ | dropped _ | silenced _ | unaddressed _ | answered _ _ => none

def answered? : Report → Option Trigger
  | answered trigger _ => some trigger
  | queued _ | dropped _ | silenced _ | unaddressed _ | posted _ _ => none

def outcome? (project : String) : Report → Option UInt16
  | answered trigger status => if trigger.issue.project = project then some status else none
  | queued _ | dropped _ | silenced _ | unaddressed _ | posted _ _ => none

end Report

def inHand : Task → List Trigger
  | .receiving => []
  | .lookingUp trigger | .posting trigger _ => [trigger]

def underWay : Task → List Trigger
  | .posting trigger _ => [trigger]
  | .receiving | .lookingUp _ => []

theorem filterMap_sublist {α β : Type} {f g : α → Option β} (fewer : ∀ a b, f a = some b → g a = some b) (log : List α) :
    (log.filterMap f).Sublist (log.filterMap g) := by
  induction log with
  | nil => exact .slnil
  | cons a log ih =>
      cases found : f a with
      | none =>
          rw [List.filterMap_cons_none found]
          exact ih.trans ((List.sublist_cons_self a log).filterMap g)
      | some b =>
          rw [List.filterMap_cons_some found, List.filterMap_cons_some (fewer a b found)]
          exact ih.cons_cons b

/-- Queued triggers are settled in order, but for the one in hand and those that wait, which are no more than the channel
holds; each POST is answered but for the one under way. -/
structure Conserved (s : State × List Report) : Prop where
  queue : s.2.filterMap Report.queued? = s.2.filterMap Report.settled? ++ (inHand s.1.task ++ s.1.channel)
  posts : s.2.filterMap Report.posted? = s.2.filterMap Report.answered? ++ underWay s.1.task
  bounded : s.1.channel.length ≤ WEBHOOK_CHANNEL_CAPACITY

theorem length_trySend {channel : List Trigger} (bounded : channel.length ≤ WEBHOOK_CHANNEL_CAPACITY) (trigger : Trigger) :
    (trySend channel trigger).length ≤ WEBHOOK_CHANNEL_CAPACITY := by
  unfold trySend
  split_ifs with room
  · simpa using room
  · exact bounded

theorem offer_spec (triggers : List Trigger) {channel : List Trigger} (bounded : channel.length ≤ WEBHOOK_CHANNEL_CAPACITY) :
    triggers.foldl trySend channel = channel ++ (offer channel triggers).filterMap Report.queued? ∧
      (triggers.foldl trySend channel).length ≤ WEBHOOK_CHANNEL_CAPACITY := by
  induction triggers generalizing channel with
  | nil => simpa [offer] using bounded
  | cons trigger rest ih =>
      obtain ⟨queue, bound⟩ := ih (length_trySend bounded trigger)
      refine ⟨?_, bound⟩
      rw [List.foldl_cons, queue, offer]
      unfold trySend
      split_ifs with room
      · rw [List.append_assoc]
        rfl
      · rw [List.filterMap_cons_none (f := Report.queued?) rfl]

theorem mem_offer {triggers channel : List Trigger} {report : Report} (mem : report ∈ offer channel triggers) :
    ∃ trigger, report = .queued trigger ∨ report = .dropped trigger := by
  induction triggers generalizing channel with
  | nil => cases mem
  | cons trigger rest ih =>
      rcases List.mem_cons.mp mem with rfl | later
      · refine ⟨trigger, ?_⟩
        split_ifs
        · exact .inl rfl
        · exact .inr rfl
      · exact ih later

theorem trySend_of_full {channel : List Trigger} (full : channel.length = WEBHOOK_CHANNEL_CAPACITY) (trigger : Trigger) :
    trySend channel trigger = channel := by
  rw [trySend, if_neg (by simp [full])]

theorem full_of_dropped {triggers channel : List Trigger} {trigger : Trigger}
    (bounded : channel.length ≤ WEBHOOK_CHANNEL_CAPACITY) (dropped : .dropped trigger ∈ offer channel triggers) :
    (triggers.foldl trySend channel).length = WEBHOOK_CHANNEL_CAPACITY := by
  induction triggers generalizing channel with
  | nil => cases dropped
  | cons first rest ih =>
      by_cases room : channel.length < WEBHOOK_CHANNEL_CAPACITY
      · rw [offer, if_pos room] at dropped
        exact ih (length_trySend bounded first) (by simpa using dropped)
      · have full : channel.length = WEBHOOK_CHANNEL_CAPACITY := le_antisymm bounded (Nat.le_of_not_lt room)
        have stays : ∀ triggers : List Trigger, triggers.foldl trySend channel = channel := by
          intro triggers
          induction triggers with
          | nil => rfl
          | cons trigger triggers same => rw [List.foldl_cons, trySend_of_full full, same]
        rw [stays, full]

theorem filterMap_offer {β : Type} {f : Report → Option β} (queued : ∀ trigger, f (.queued trigger) = none)
    (dropped : ∀ trigger, f (.dropped trigger) = none) (channel triggers : List Trigger) :
    (offer channel triggers).filterMap f = [] := by
  apply List.filterMap_eq_nil_iff.mpr
  intro report mem
  obtain ⟨trigger, rfl | rfl⟩ := mem_offer mem
  · exact queued trigger
  · exact dropped trigger

theorem Conserved.settle {s : State} {log new : List Report} (conserved : Conserved (s, log)) {s' : State}
    (queued : new.filterMap Report.queued? = []) (shorter : s'.channel.length ≤ s.channel.length)
    (queue : inHand s.task ++ s.channel = new.filterMap Report.settled? ++ (inHand s'.task ++ s'.channel))
    (posts : underWay s.task ++ new.filterMap Report.posted? = new.filterMap Report.answered? ++ underWay s'.task) :
    Conserved (s', log ++ new) where
  queue := by
    rw [List.filterMap_append, queued, List.append_nil, conserved.queue, queue, List.filterMap_append, List.append_assoc]
  posts := by
    rw [List.filterMap_append, conserved.posts, List.append_assoc, posts, List.filterMap_append, List.append_assoc]
  bounded := shorter.trans conserved.bounded

theorem Conserved.idle {s : State} {log : List Report} (conserved : Conserved (s, log)) : Conserved (s, log ++ []) := by
  rwa [List.append_nil]

theorem Conserved.receive {s : State × List Report} (conserved : Conserved s) : Conserved (watch s .receive) := by
  obtain ⟨⟨db, channel, task⟩, log⟩ := s
  cases task with
  | receiving =>
      cases channel with
      | nil => exact conserved.idle
      | cons trigger rest =>
          have report : reports ⟨db, trigger :: rest, .receiving⟩ .receive =
            if Webhook.silenced trigger.issue.status then [.silenced trigger] else [] := rfl
          have next : Webhook.step ⟨db, trigger :: rest, .receiving⟩ .receive =
            ⟨db, rest, if Webhook.silenced trigger.issue.status then .receiving else .lookingUp trigger⟩ := rfl
          rw [watch, Machine.record, report, next]
          split_ifs with mute
          · exact conserved.settle rfl (Nat.le_succ _) rfl rfl
          · exact conserved.settle rfl (Nat.le_succ _) rfl rfl
  | lookingUp trigger => exact conserved.idle
  | posting trigger url => exact conserved.idle

theorem digest_of_dropped {s : State} {action : Action} {trigger : Trigger} (dropped : .dropped trigger ∈ reports s action) :
    ∃ w batch, action = .digest w batch := by
  cases action with
  | digest w batch => exact ⟨w, batch, rfl⟩
  | setStatus w issueId status => cases dropped
  | receive | lookUp | answer =>
      simp only [reports] at dropped
      split at dropped <;> simp at dropped

theorem lookUp_cases (w : World) (db : Db) (channel : List Trigger) (trigger : Trigger) :
    ∃ db', (∃ url, Webhook.step ⟨db, channel, .lookingUp trigger⟩ (.lookUp w) = ⟨db', channel, .posting trigger url⟩) ∨
      Webhook.step ⟨db, channel, .lookingUp trigger⟩ (.lookUp w) = ⟨db', channel, .receiving⟩ := by
  refine ⟨(transact w (projectByName w.now trigger.issue.project) db).2, ?_⟩
  simp only [Webhook.step]
  split
  · exact .inl ⟨_, rfl⟩
  · exact .inr rfl

theorem Conserved.lookUp {s : State × List Report} (conserved : Conserved s) (w : World) : Conserved (watch s (.lookUp w)) := by
  obtain ⟨⟨db, channel, task⟩, log⟩ := s
  cases task with
  | lookingUp trigger =>
      obtain ⟨db', ⟨url, next⟩ | next⟩ := lookUp_cases w db channel trigger
      · have report : reports ⟨db, channel, .lookingUp trigger⟩ (.lookUp w) = [.posted trigger url] := by simp [reports, next]
        rw [watch, Machine.record, report, next]
        exact conserved.settle rfl le_rfl rfl rfl
      · have report : reports ⟨db, channel, .lookingUp trigger⟩ (.lookUp w) = [.unaddressed trigger] := by
          simp [reports, next]
        rw [watch, Machine.record, report, next]
        exact conserved.settle rfl le_rfl rfl rfl
  | receiving => exact conserved.idle
  | posting trigger url => exact conserved.idle

theorem Conserved.step {s : State × List Report} (conserved : Conserved s) (action : Action) : Conserved (watch s action) := by
  cases action with
  | digest w batch =>
      obtain ⟨⟨db, channel, task⟩, log⟩ := s
      obtain ⟨behind, bound⟩ := offer_spec (fired w batch db) conserved.bounded
      have quiet : ∀ f : Report → Option Trigger, (∀ trigger, f (.queued trigger) = none) →
          (∀ trigger, f (.dropped trigger) = none) →
          (log ++ offer channel (fired w batch db)).filterMap f = log.filterMap f := by
        intro f queued dropped
        rw [List.filterMap_append, filterMap_offer queued dropped, List.append_nil]
      have next : (watch (⟨db, channel, task⟩, log) (.digest w batch)).1.channel = (fired w batch db).foldl trySend channel := rfl
      refine ⟨?_, ?_, bound⟩
      · rw [next, behind]
        show (log ++ offer channel (fired w batch db)).filterMap Report.queued? =
          (log ++ offer channel (fired w batch db)).filterMap Report.settled? ++ _
        rw [List.filterMap_append, conserved.queue, quiet _ (fun _ => rfl) (fun _ => rfl)]
        simp only [List.append_assoc]
        rfl
      · show (log ++ offer channel (fired w batch db)).filterMap Report.posted? =
          (log ++ offer channel (fired w batch db)).filterMap Report.answered? ++ _
        rw [quiet _ (fun _ => rfl) (fun _ => rfl), quiet _ (fun _ => rfl) (fun _ => rfl)]
        exact conserved.posts
  | setStatus w issueId status =>
      have same := conserved.idle
      exact ⟨same.queue, same.posts, same.bounded⟩
  | receive => exact conserved.receive
  | lookUp w => exact conserved.lookUp w
  | answer w status =>
      obtain ⟨⟨db, channel, task⟩, log⟩ := s
      cases task with
      | posting trigger url => exact conserved.settle rfl le_rfl rfl rfl
      | receiving => exact conserved.idle
      | lookingUp trigger => exact conserved.idle

/-- The row of each project holds the status of the last answer about it, or that of before. -/
def Outcomes (before : Db) (s : State × List Report) : Prop :=
  ∀ name row, before.projects.find? name = some row → ∃ row', s.1.db.projects.find? name = some row' ∧
    row'.lastWebhookStatus =
      ((s.2.filterMap (Report.outcome? name)).getLast?.map fun status => (status.toNat : Int)).or row.lastWebhookStatus

def Noted : Action → Prop
  | .answer w _ => w.fault = none
  | .digest _ _ | .setStatus _ _ _ | .receive | .lookUp _ => True

theorem Outcomes.of_same {before : Db} {s : State} {log new : List Report} (outcomes : Outcomes before (s, log)) {s' : State}
    (same : s'.db.projects = s.db.projects) (none_ : ∀ name, new.filterMap (Report.outcome? name) = []) :
    Outcomes before (s', log ++ new) := by
  intro name row found
  rw [same, List.filterMap_append, none_, List.append_nil]
  exact outcomes name row found

theorem Outcomes.idle {before : Db} {s : State} {log : List Report} (outcomes : Outcomes before (s, log)) :
    Outcomes before (s, log ++ []) := by
  rwa [List.append_nil]

theorem Outcomes.answer {before : Db} {s : State × List Report} (outcomes : Outcomes before s) {w : World}
    (calm : w.fault = none) (status : UInt16) : Outcomes before (watch s (.answer w status)) := by
  obtain ⟨⟨db, channel, task⟩, log⟩ := s
  cases task with
  | posting trigger url =>
      intro name row found
      obtain ⟨row', stored, last⟩ := outcomes name row found
      have written : (watch (⟨db, channel, .posting trigger url⟩, log) (.answer w status)).1.db.projects =
          db.projects.update (·.name == trigger.issue.project) (withAttempt status w.now.instant.toRfc3339)
            (withAttempt_name _ _) := by
        show (transact w (recordWebhookAttempt w.now trigger.issue.project status) db).2.projects = _
        rw [transact_calm calm]
        rfl
      rw [written, Table.find?_update, stored]
      refine ⟨_, rfl, ?_⟩
      show _ = (((log ++ [Report.answered trigger status]).filterMap (Report.outcome? name)).getLast?.map _).or _
      have named : row'.name = name := Table.key_of_find? stored
      rw [List.filterMap_append]
      by_cases same : trigger.issue.project = name
      · simp [Report.outcome?, withAttempt, named, same]
      · have other : ¬ name = trigger.issue.project := fun equal => same equal.symm
        simpa [Report.outcome?, named, same, other] using last
  | receiving => exact outcomes.idle
  | lookingUp trigger => exact outcomes.idle

theorem Outcomes.step {before : Db} {s : State × List Report} (outcomes : Outcomes before s) (action : Action)
    (noted : Noted action) : Outcomes before (watch s action) := by
  obtain ⟨⟨db, channel, task⟩, log⟩ := s
  cases action with
  | digest w batch =>
      have same := (exec_frame plainArgon2 w (.upsertBatchWithEvents (batch.map (·.input))) db).projects rfl
      exact outcomes.of_same same fun name => filterMap_offer (fun _ => rfl) (fun _ => rfl) channel _
  | setStatus w issueId status =>
      have same := (exec_frame plainArgon2 w (.setStatus issueId status) db).projects rfl
      exact outcomes.of_same same fun name => rfl
  | receive =>
      cases task with
      | receiving =>
          cases channel with
          | nil => exact outcomes.idle
          | cons trigger rest =>
              refine outcomes.of_same rfl fun name => ?_
              show List.filterMap _ (if Webhook.silenced trigger.issue.status then [Report.silenced trigger] else []) = []
              split_ifs <;> rfl
      | lookingUp trigger => exact outcomes.idle
      | posting trigger url => exact outcomes.idle
  | lookUp w =>
      cases task with
      | lookingUp trigger =>
          have reads : (projectByName w.now trigger.issue.project).Keeps fun db' => db'.projects = db.projects := .read _
          refine outcomes.of_same (transact_keeps reads rfl) fun name => ?_
          obtain ⟨db', ⟨url, next⟩ | next⟩ := lookUp_cases w db channel trigger
          · simp [reports, next, Report.outcome?]
          · simp [reports, next, Report.outcome?]
      | receiving => exact outcomes.idle
      | posting trigger url => exact outcomes.idle
  | answer w status => exact outcomes.answer noted status

def turn (met : World × World × UInt16) : List Action := [.receive, .lookUp met.1, .answer met.2.1 met.2.2]

theorem run_turn (s : State) (met : World × World × UInt16) :
    let after := Machine.run Webhook.step s (turn met)
    after.task = .receiving ∧ after.channel = if s.task = .receiving then s.channel.tail else s.channel := by
  obtain ⟨db, channel, task⟩ := s
  obtain ⟨w, w', status⟩ := met
  have ends : ∀ (s : State), s.task ≠ .receiving → let after := Machine.run Webhook.step s [.lookUp w, .answer w' status]
      after.task = .receiving ∧ after.channel = s.channel := by
    rintro ⟨db, channel, task⟩ busy
    cases task with
    | receiving => exact absurd rfl busy
    | lookingUp trigger =>
        simp only [Machine.run, List.foldl_cons, List.foldl_nil]
        obtain ⟨db', ⟨url, next⟩ | next⟩ := lookUp_cases w db channel trigger
        · rw [next]
          exact ⟨rfl, rfl⟩
        · rw [next]
          exact ⟨rfl, rfl⟩
    | posting trigger url => exact ⟨rfl, rfl⟩
  cases task with
  | receiving =>
      cases channel with
      | nil => exact ⟨rfl, rfl⟩
      | cons trigger rest =>
          by_cases mute : Webhook.silenced trigger.issue.status = true
          · have next : Webhook.step ⟨db, trigger :: rest, .receiving⟩ .receive = ⟨db, rest, .receiving⟩ := by
              simp [Webhook.step, mute]
            rw [turn, Machine.run, List.foldl_cons, next]
            exact ⟨rfl, rfl⟩
          · have next : Webhook.step ⟨db, trigger :: rest, .receiving⟩ .receive = ⟨db, rest, .lookingUp trigger⟩ := by
              simp [Webhook.step, mute]
            rw [turn, Machine.run, List.foldl_cons, next]
            exact ends _ nofun
  | lookingUp trigger => exact ends ⟨db, channel, .lookingUp trigger⟩ nofun
  | posting trigger url => exact ends ⟨db, channel, .posting trigger url⟩ nofun

theorem run_turns {s : State} (idle : s.task = .receiving) (turns : List (World × World × UInt16))
    (enough : s.channel.length ≤ turns.length) :
    let after := Machine.run Webhook.step s (turns.flatMap turn)
    after.task = .receiving ∧ after.channel = [] := by
  induction turns generalizing s with
  | nil => exact ⟨idle, List.eq_nil_of_length_eq_zero (Nat.le_zero.mp enough)⟩
  | cons met rest ih =>
      obtain ⟨ends, shorter⟩ := run_turn s met
      rw [List.flatMap_cons, Machine.run_append]
      apply ih ends
      rw [shorter, if_pos idle, List.length_tail]
      simp only [List.length_cons] at enough
      omega

/-- The task queues nothing. -/
def Works : Action → Prop
  | .receive | .lookUp _ | .answer _ _ => True
  | .digest _ _ | .setStatus _ _ _ => False

theorem works_turns (turns : List (World × World × UInt16)) : ∀ action ∈ turns.flatMap turn, Works action := by
  intro action mem
  obtain ⟨met, -, mem⟩ := List.mem_flatMap.mp mem
  simp only [turn, List.mem_cons, List.not_mem_nil, or_false] at mem
  rcases mem with rfl | rfl | rfl <;> trivial

theorem queued_works (s : State) {action : Action} (works : Works action) :
    (reports s action).filterMap Report.queued? = [] := by
  cases action with
  | digest | setStatus => exact works.elim
  | receive | lookUp | answer =>
      simp only [reports]
      split <;> try split_ifs
      all_goals rfl

theorem queued_turns (s : State × List Report) (actions : List Action) (works : ∀ action ∈ actions, Works action) :
    (Machine.run watch s actions).2.filterMap Report.queued? = s.2.filterMap Report.queued? := by
  induction actions generalizing s with
  | nil => rfl
  | cons action rest ih =>
      obtain ⟨first, later⟩ := List.forall_mem_cons.mp works
      refine (ih (watch s action) later).trans ?_
      show (s.2 ++ reports s.1 action).filterMap _ = _
      rw [List.filterMap_append, queued_works s.1 first, List.append_nil]

def start (db : Db) : State × List Report := (⟨db, [], .receiving⟩, [])

theorem conserved_start (db : Db) : Conserved (start db) := ⟨rfl, rfl, Nat.zero_le _⟩

/-- In every run, a trigger is dropped only where the channel is full after its batch, queued triggers are settled once and
in their order, POSTs are about queued triggers in their order, and one turn of the loop more than triggers wait settles them
all; where the store notes the answers, a project row holds the last one. -/
theorem run_delivers (db : Db) (actions : List Action) :
    let s := Machine.run watch (start db) actions
    Conserved s ∧ (s.2.filterMap Report.posted?).Sublist (s.2.filterMap Report.queued?) ∧
      (∀ action trigger, .dropped trigger ∈ reports s.1 action →
        (Webhook.step s.1 action).channel.length = WEBHOOK_CHANNEL_CAPACITY) ∧
      ((∀ action ∈ actions, Noted action) → Outcomes db s) ∧
      ∀ turns : List (World × World × UInt16), s.1.channel.length < turns.length →
        let after := Machine.run watch s (turns.flatMap turn)
        after.2.filterMap Report.settled? = s.2.filterMap Report.queued? := by
  intro s
  have conserved : Conserved s :=
    Machine.run_keeps Conserved (fun _ action conserved => conserved.step action) actions (conserved_start db)
  refine ⟨conserved, ?_, fun action trigger dropped => ?_, fun noted => ?_, fun turns enough => ?_⟩
  · rw [conserved.posts, conserved.queue]
    refine (filterMap_sublist ?_ s.2).append ?_
    · rintro (_ | _ | _ | _ | _ | _) trigger answered <;> simp_all [Report.answered?, Report.settled?]
    · cases s.1.task with
      | receiving => exact List.nil_sublist _
      | lookingUp trigger => exact List.nil_sublist _
      | posting trigger url => exact List.sublist_append_left [trigger] s.1.channel
  · obtain ⟨w, batch, rfl⟩ := digest_of_dropped dropped
    exact full_of_dropped conserved.bounded dropped
  · refine Machine.run_keeps_of_forall (Outcomes db) (fun _ action outcomes noted => outcomes.step action noted) noted ?_
    intro name row found
    exact ⟨row, found, rfl⟩
  · obtain _ | ⟨met, rest⟩ := turns
    · cases enough
    intro after
    obtain ⟨ends, shorter⟩ := run_turn s.1 met
    have left : (Machine.run Webhook.step s.1 (turn met)).channel.length ≤ rest.length := by
      rw [shorter]
      simp only [List.length_cons] at enough
      split_ifs
      · rw [List.length_tail]
        omega
      · omega
    obtain ⟨task, channel⟩ := run_turns ends rest left
    rw [← Machine.run_append, ← List.flatMap_cons, ← Machine.run_record reports s] at task channel
    have settled : Conserved after :=
      Machine.run_keeps Conserved (fun _ action conserved => conserved.step action) _ conserved
    have empty := settled.queue
    rw [task, channel] at empty
    have same : after.2.filterMap Report.queued? = s.2.filterMap Report.queued? := queued_turns s _ (works_turns _)
    rw [← same]
    simpa [inHand] using empty.symm

def hookedDb : Db := performAll (exec plainArgon2)
  [(noonWorld 1, .createProject "web"), (noonWorld 2, .setProjectWebhook "web" (some "https://hooks.slack.com/x"))] Db.empty

def twoAlerts : List Action :=
  let event (fp id : String) : Digest.IngestEvent := ⟨"web", fp, "boom", none, none, "E", "f:1", noon, id, "\x7b\x7d"⟩
  [.digest (noonWorld 3) [event "f" "e1"], .receive, .lookUp (noonWorld 4), .digest (noonWorld 5) [event "g" "e2"],
    .answer (noonWorld 6) 204, .receive, .lookUp (noonWorld 7), .answer (noonWorld 8) 404]

theorem run_delivers_sample : ∃ row, (Machine.run watch (start hookedDb) twoAlerts).1.db.projects.find? "web" = some row ∧
    row.lastWebhookStatus = some 404 := by
  have found : (hookedDb.projects.find? "web").isSome := by decide +kernel
  obtain ⟨row, found⟩ := Option.isSome_iff_exists.mp found
  have noted : ∀ action ∈ twoAlerts, Noted action := by simp [twoAlerts, Noted, noonWorld]
  obtain ⟨row', stored, last⟩ := (run_delivers hookedDb twoAlerts).2.2.2.1 noted "web" row found
  have answers : ((Machine.run watch (start hookedDb) twoAlerts).2.filterMap (Report.outcome? "web")).getLast? = some 404 := by
    decide +kernel
  exact ⟨row', stored, by simp [last, answers]⟩

end Errex.Proof.Delivery
