import Errex.Model.Running
import Errex.Proof.Contract
import Errex.Proof.Frame

/-!
# What is stored has passed its checks

Names are trimmed and not empty, webhook addresses are what `validate_url` lets through, hashes are those of passwords that
are strong enough, and retention settings are not negative: the handlers check each before they store it, and nothing else
that writes to the tables changes it. So every POST goes to an address that was let through.
-/

namespace Errex.Proof.Stored
open Foundation Process Text Model Store Auth Admin Routes Contract

def Hashed (argon2 : Argon2) (hash : String) : Prop :=
  ∃ salt plain, validatePasswordStrength plain = .ok () ∧ argon2.hashPassword salt plain = .ok hash

structure CheckedProject (parsers : Webhook.Parsers) (row : ProjectRow) : Prop where
  name : Named row.name
  webhook : ∀ url, row.webhookUrl = some url → Webhook.validateUrl parsers url = .ok ()

structure CheckedUser (argon2 : Argon2) (row : UserRow) : Prop where
  name : Named row.username ∧ row.username.utf8ByteSize ≤ 64
  password : Hashed argon2 row.passwordHash

structure Checked (parsers : Webhook.Parsers) (argon2 : Argon2) (db : Db) : Prop where
  projects : ∀ row ∈ db.projects.rows, CheckedProject parsers row
  users : ∀ row ∈ db.users.rows, CheckedUser argon2 row
  retention : ∀ settings, db.retention = some settings → NotNegative settings

def Trusted (argon2 : Argon2) : (c : Call) → c.Reply → Prop
  | .hashPassword plain, .ok hash => ∃ salt, argon2.hashPassword salt plain = .ok hash
  | _, _ => True

variable {parsers : Webhook.Parsers} {argon2 : Argon2} {db : Db}

theorem Checked.of_same {db' : Db} (checked : Checked parsers argon2 db) (projects : db'.projects = db.projects)
    (users : db'.users = db.users) (retention : db'.retention = db.retention) : Checked parsers argon2 db' :=
  ⟨projects ▸ checked.projects, users ▸ checked.users, retention ▸ checked.retention⟩

theorem Checked.updateUser {db : Db} (checked : Checked parsers argon2 db) (username : String) {change : UserChange}
    (keeps : ∀ row, CheckedUser argon2 row → CheckedUser argon2 (change.apply row)) :
    Checked parsers argon2 (updateUser username change db).2 :=
  { checked with users := Table.forall_update checked.users change.apply_username keeps }

theorem Checked.updateProject {db : Db} (checked : Checked parsers argon2 db) (p : ProjectRow → Bool) {f : ProjectRow → ProjectRow}
    (same : ∀ row, (f row).name = row.name) (keeps : ∀ row, CheckedProject parsers row → CheckedProject parsers (f row)) :
    Checked parsers argon2 { db with projects := db.projects.update p f same } :=
  { checked with projects := Table.forall_update checked.projects same keeps }

theorem exec_checked (w : World) {c : Call} (justified : Justified parsers (Trusted argon2) c)
    (checked : Checked parsers argon2 db) : Checked parsers argon2 (exec argon2 w c db).2 := by
  have frame := exec_frame argon2 w c db
  cases justified with
  | neutral harmless =>
      cases c
      case deleteProject name =>
        refine transact_keeps (deleteProject_keeps (fun doomed db kept => kept.of_same rfl rfl rfl) fun doomed db kept => ?_) checked
        exact { kept with projects := Table.forall_delete kept.projects }
      case setUserRole username role =>
        refine transact_keeps (execute_check_keeps fun db kept => ?_) checked
        exact kept.updateUser username fun row old => ⟨old.name, old.password⟩
      case setUserDeactivated username deactivated =>
        refine transact_keeps (setUserDeactivated_keeps (fun db kept => ?_) fun db kept => kept.of_same rfl rfl rfl) checked
        exact kept.updateUser username fun row old => ⟨old.name, old.password⟩
      case deleteUser username =>
        refine transact_keeps (execute_check_keeps fun db kept => ?_) checked
        exact { kept with users := Table.forall_delete kept.users }
      case touchUserLogin username ip =>
        refine transact_keeps (.bind (.execute fun db kept => ?_) fun _ => .pure _) checked
        exact kept.updateUser username fun row old => ⟨old.name, old.password⟩
      all_goals first | exact checked.of_same (frame.projects rfl) (frame.users rfl) (frame.retention rfl) | cases harmless
  | createProject named =>
      refine transact_keeps (fun db project db' done kept => ?_) checked
      simp only [createProject] at done
      split at done
      · cases done
      · rename_i projects inserted
        cases done
        exact { kept with projects := Table.forall_insert kept.projects inserted ⟨named, fun url hook => by cases hook⟩ }
  | renameProject named =>
      refine transact_keeps (renameProject_keeps (fun projects db renamed kept => ?_) ?_) checked
      · exact { kept with projects := Table.forall_rekey kept.projects renamed fun row old => ⟨named, old.webhook⟩ }
      · intro db u db' done kept
        unfold renameIssues at done
        split at done <;> cases done
        exact kept.of_same rfl rfl rfl
  | setProjectWebhook valid =>
      refine transact_keeps (execute_check_keeps fun db kept => ?_) checked
      exact kept.updateProject _ (withWebhook_name _) fun row old => ⟨old.name, valid⟩
  | setRetentionSettings notNegative =>
      refine transact_keeps (.execute fun db kept => ?_) checked
      exact { kept with retention := fun stored same => Option.some.inj same ▸ notNegative }
  | createUser named short strong hashed =>
      refine transact_keeps (fun db user db' done kept => ?_) checked
      simp only [createUser] at done
      split at done
      · cases done
      · rename_i users inserted
        cases done
        obtain ⟨salt, hash⟩ := hashed
        exact { kept with users := Table.forall_insert kept.users inserted ⟨⟨named, short⟩, salt, _, strong, hash⟩ }
  | setUserPassword strong hashed =>
      refine transact_keeps (execute_check_keeps fun db kept => ?_) checked
      obtain ⟨salt, hash⟩ := hashed
      exact kept.updateUser _ fun row old => ⟨old.name, salt, _, strong, hash⟩
  | createSession drawn => exact checked.of_same (frame.projects rfl) (frame.users rfl) (frame.retention rfl)

theorem execQuery_checked {outside : Outside} (w : World) (c : Query) (sent : List ServerMessage)
    (checked : Checked parsers argon2 db) : Checked parsers argon2 (execQuery outside w c (db, sent)).2.1 := by
  by_cases rotates : ∃ name, c = .rotateToken name
  · obtain ⟨name, rfl⟩ := rotates
    have answer := @projectAnswer_keeps (Checked parsers argon2) w.now name s!"project {name} (post-rotate)"
    have keeps : (Store.rotateToken w.now w.uuid name).Keeps (Checked parsers argon2) := by
      refine .bind (.execute fun db kept => ?_) fun updated => ?_
      · exact kept.updateProject _ (withToken_name _) fun row old => ⟨old.name, old.webhook⟩
      split_ifs
      · exact .bind (.fail _) fun _ => answer
      · exact answer
    exact transact_keeps keeps checked
  · rw [execQuery_reads w sent fun name same => rotates ⟨name, same⟩]
    exact checked

theorem execHttp_checked (outside : Outside) (w : World) {c : Http.Call} (sent : List ServerMessage)
    (justified : JustifiedAny parsers (Trusted argon2) c) (checked : Checked parsers argon2 db) :
    Checked parsers argon2 (execHttp argon2 outside w c (db, sent)).2.1 := by
  rcases c with c | c
  · exact exec_checked w justified checked
  · exact execQuery_checked w c sent checked

theorem exec_trusted (w : World) (c : Call) (db : Db) : Trusted argon2 c (exec argon2 w c db).1 := by
  cases c
  case hashPassword plain =>
    show Trusted argon2 (.hashPassword plain) (hashPassword argon2 w plain)
    unfold hashPassword
    cases hashed : argon2.hashPassword w.uuid plain with
    | ok hash => exact ⟨w.uuid, hashed⟩
    | error message => trivial
  all_goals trivial

theorem execHttp_trusted (outside : Outside) (w : World) (c : Http.Call) (s : Db × List ServerMessage) :
    TrustedAny (Trusted argon2) c (execHttp argon2 outside w c s).1 := by
  rcases c with c | c
  · exact exec_trusted w c s.1
  · trivial

-- As for the handlers: the proofs go by the rules for `Honours`.
attribute [local irreducible] Honours

theorem cutoff_sound (span : Option Duration) : Sound parsers (Trusted argon2) (Retention.cutoff span) := by
  refine ask_sound (c := .utcNow) rfl fun now => .ofOption fun span => ?_
  cases UtcNow.instant now |>.sub span with
  | some cutoff => exact .ret _
  | none => exact .panic

theorem purgeAgedEvents_sound (settings : RetentionSettings) (bootDays : UInt32) :
    Sound parsers (Trusted argon2) (Retention.purgeAgedEvents settings bootDays) := by
  unfold Retention.purgeAgedEvents
  refine .ite (fun _ => (cutoff_sound _).bind fun cutoff => ?_) fun _ => .ret _
  exact ask_sound (c := .purgeEventsOlderThan cutoff) rfl fun _ => .ret _

theorem purgeExcess_sound (settings : RetentionSettings) : Sound parsers (Trusted argon2) (Retention.purgeExcess settings) := by
  unfold Retention.purgeExcess
  have second : Sound parsers (Trusted argon2) (do
      if 0 < settings.issuesPerProjectMax then
        let _ ← ask (.purgeExcessIssuesPerProject settings.issuesPerProjectMax)) :=
    .ite (fun _ => ask_sound (c := .purgeExcessIssuesPerProject settings.issuesPerProjectMax) rfl fun _ => .ret _)
      fun _ => .ret _
  refine .ite (fun _ => ?_) fun _ => second
  exact ask_sound (c := .purgeExcessEventsPerIssue settings.eventsPerIssueMax) rfl fun _ => second

theorem purgeAuth_sound : Sound parsers (Trusted argon2) Retention.purgeAuth := by
  refine (cutoff_sound _).bind fun attempts => ask_sound (c := .pruneAuthAttemptsOlderThan attempts) rfl fun _ => ?_
  exact (cutoff_sound _).bind fun sessions => ask_sound (c := .purgeSessionsIdleSince sessions) rfl fun _ => .ret _

theorem runOneTick_sound (bootDays : UInt32) : Sound parsers (Trusted argon2) (Retention.runOneTick bootDays) := by
  refine ask_sound (c := .getRetentionSettings) rfl fun reply => ?_
  cases reply with
  | error error => exact .ret _
  | ok settings =>
      refine (purgeAgedEvents_sound settings bootDays).bind fun _ => ?_
      exact (purgeExcess_sound settings).bind fun _ => purgeAuth_sound

theorem checked_webhook {w : World} {name : String} {project : Project} {url : String} (checked : Checked parsers argon2 db)
    (found : (transact w (projectByName w.now name) db).1 = .ok (some project)) (hook : project.webhookUrl = some url) :
    Webhook.validateUrl parsers url = .ok () := by
  have read := transact_ok found
  simp only [projectByName, Transaction.read_run, Except.ok.injEq, Prod.mk.injEq, Option.map_eq_some_iff] at read
  obtain ⟨⟨row, stored, rfl⟩, -⟩ := read
  exact (checked.projects row (Table.mem_of_find? stored)).webhook url hook

def Vetted (parsers : Webhook.Parsers) (task : Webhook.Task) : Prop :=
  ∀ trigger url, task = .posting trigger url → Webhook.validateUrl parsers url = .ok ()

theorem step_checked {s : Webhook.State} (action : Webhook.Action) (checked : Checked parsers argon2 s.db)
    (vetted : Vetted parsers s.task) :
    Checked parsers argon2 (Webhook.step s action).db ∧ Vetted parsers (Webhook.step s action).task := by
  obtain ⟨db, channel, task⟩ := s
  cases action with
  | digest w batch =>
      have harmless : Justified parsers (Trusted argon2) (.upsertBatchWithEvents (batch.map (·.input))) := .neutral rfl
      exact ⟨exec_checked w harmless checked, vetted⟩
  | setStatus w issueId status =>
      have harmless : Justified parsers (Trusted argon2) (.setStatus issueId status) := .neutral rfl
      exact ⟨exec_checked w harmless checked, vetted⟩
  | receive =>
      cases task with
      | receiving =>
          cases channel with
          | nil => exact ⟨checked, vetted⟩
          | cons trigger rest =>
              refine ⟨checked, fun trigger' url posting => ?_⟩
              simp only [Webhook.step] at posting
              split_ifs at posting
      | lookingUp trigger => exact ⟨checked, vetted⟩
      | posting trigger url => exact ⟨checked, vetted⟩
  | lookUp w =>
      cases task with
      | lookingUp trigger =>
          have reads : (projectByName w.now trigger.issue.project).Keeps (Checked parsers argon2) := .read _
          refine ⟨transact_keeps reads checked, fun trigger' url posting => ?_⟩
          simp only [Webhook.step] at posting
          cases found : (transact w (projectByName w.now trigger.issue.project) db).1 with
          | error error => simp [found] at posting
          | ok project? =>
              cases project? with
              | none => simp [found] at posting
              | some project =>
                  cases hook : project.webhookUrl with
                  | none => simp [found, hook] at posting
                  | some url' =>
                      simp only [found, hook, Webhook.Task.posting.injEq] at posting
                      obtain ⟨-, rfl⟩ := posting
                      exact checked_webhook checked found hook
      | receiving => exact ⟨checked, vetted⟩
      | posting trigger url => exact ⟨checked, vetted⟩
  | answer w status =>
      cases task with
      | posting trigger url =>
          refine ⟨transact_keeps (.execute fun db kept => ?_) checked, fun trigger url posting => by cases posting⟩
          exact kept.updateProject _ (withAttempt_name _ _) fun row old => ⟨old.name, old.webhook⟩
      | receiving => exact ⟨checked, vetted⟩
      | lookingUp trigger => exact ⟨checked, vetted⟩

structure Clean (parsers : Webhook.Parsers) (argon2 : Argon2) (s : Running) : Prop where
  checked : Checked parsers argon2 s.hooks.db
  vetted : Vetted parsers s.hooks.task
  pages : ∀ p ∈ s.pool, SoundPage parsers (Trusted argon2) p
  ticks : ∀ p ∈ s.ticks, Sound parsers (Trusted argon2) p

theorem Clean.step {outside : Outside} {s : Running} (clean : Clean parsers argon2 s) (turn : Turn) :
    Clean parsers argon2 (Running.step argon2 outside s turn) := by
  cases turn with
  | request i w =>
      obtain ⟨checked, pages⟩ := System.step_honours (fun state => Checked parsers argon2 state.1) (execHttp_trusted outside)
        (fun w c state justified kept => execHttp_checked outside w state.2 justified kept)
        ⟨(s.hooks.db, s.sent), s.pool⟩ clean.pages clean.checked (i, w)
      exact ⟨checked, clean.vetted, pages, clean.ticks⟩
  | tick i w =>
      obtain ⟨checked, ticks⟩ := System.step_honours (Checked parsers argon2) exec_trusted
        (fun w c db justified kept => exec_checked w justified kept) ⟨s.hooks.db, s.ticks⟩ clean.ticks clean.checked (i, w)
      exact ⟨checked, clean.vetted, clean.pages, ticks⟩
  | task action =>
      obtain ⟨checked, vetted⟩ := step_checked action clean.checked clean.vetted
      exact ⟨checked, vetted, clean.pages, clean.ticks⟩

/-- However requests, ticks and tasks take turns: what is stored has passed its check, and every POST goes to an address that
was let through. -/
theorem run_stores_checked (parsers : Webhook.Parsers) (state : AppState) (argon2 : Argon2) (outside : Outside) {db : Db}
    (checked : Checked parsers argon2 db) (routes : List Route) (bootDays : List UInt32) (turns : List Turn) :
    let s := Machine.run (Running.step argon2 outside) (.start parsers state db routes bootDays) turns
    Checked parsers argon2 s.hooks.db ∧ Vetted parsers s.hooks.task := by
  intro s
  have clean : Clean parsers argon2 s := by
    refine Machine.run_keeps (Clean parsers argon2) (fun _ turn clean => clean.step turn) turns ⟨checked, ?_, ?_, ?_⟩
    · intro trigger url posting
      cases posting
    · intro p mem
      obtain ⟨route, -, rfl⟩ := List.mem_map.mp mem
      exact route_sound parsers state route
    · intro p mem
      obtain ⟨days, -, rfl⟩ := List.mem_map.mp mem
      exact runOneTick_sound days
  exact ⟨clean.checked, clean.vetted⟩

def noOutside : Outside := ⟨⟨0, fun _ => 0⟩, fun _ => .error (.notFound "payload")⟩

theorem rootDb_checked : Checked anyParsers plainArgon2 rootDb where
  projects := nofun
  users := by
    intro row mem
    obtain rfl := List.mem_singleton.mp mem
    exact ⟨⟨⟨by decide, by decide⟩, by decide⟩, ⟨0⟩, "correct horse battery", rfl, rfl⟩
  retention settings stored := by
    cases stored
    exact ⟨by decide, by decide, by decide⟩

theorem run_stores_checked_root :
    let s := Machine.run (Running.step plainArgon2 noOutside)
      (.start anyParsers localState rootDb [.api (.createProject rootHeaders (some " web "))] [30])
      (.replicate 4 (.request 0 (noonWorld 0)))
    (∃ row ∈ s.hooks.db.projects.rows, row.name = "web") ∧ ∀ row ∈ s.hooks.db.projects.rows, Named row.name :=
  ⟨by decide +kernel, fun row mem => ((run_stores_checked anyParsers localState plainArgon2 noOutside rootDb_checked
    [.api (.createProject rootHeaders (some " web "))] [30] (.replicate 4 (.request 0 (noonWorld 0)))).1.projects row mem).name⟩

end Errex.Proof.Stored
