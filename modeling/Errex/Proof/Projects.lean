import Errex.Model.Pipeline
import Errex.Proof.Ingest.RateCap
import Errex.Proof.Issues.Integrity
import Errex.Proof.Issues.Rename

/-!
# Issues of registered projects

An ingest request is authorised for a project by name, and what it sends waits under that name. The
calls that delete or rename a project see the tables only. As long as they leave alone the projects
of which something is on its way, every issue belongs to a registered project (`run_housed`).
-/

namespace Errex.Proof.Projects
open Foundation Transaction Process Model Model.Pipeline Model.Ingest Store Issues

def Registered (name : String) (db : Db) : Prop := ∃ row ∈ db.projects.rows, row.name = name

def Housed (db : Db) : Prop := ∀ row ∈ db.issues.rows, Registered row.project db

variable {db db' : Db}

structure Grows (db db' : Db) : Prop where
  issues : db'.issues = db.issues ∧ db'.issueSeq = db.issueSeq
  events : db'.events = db.events ∧ db'.eventSeq = db.eventSeq
  names : ∀ name, Registered name db → Registered name db'

theorem Grows.refl (db : Db) : Grows db db := ⟨⟨rfl, rfl⟩, ⟨rfl, rfl⟩, fun _ => id⟩

theorem Grows.housed (grows : Grows db db') (housed : Housed db) : Housed db' := by
  intro row mem
  rw [grows.issues.1] at mem
  exact grows.names _ (housed row mem)

theorem Grows.update {before : Db} (grows : Grows before db) (p : ProjectRow → Bool) {f : ProjectRow → ProjectRow}
    (same : ∀ row, (f row).name = row.name) : Grows before { db with projects := db.projects.update p f same } := by
  refine ⟨grows.issues, grows.events, fun name registered => ?_⟩
  obtain ⟨row, mem, named⟩ := grows.names name registered
  refine ⟨_, (Table.mem_update same).mpr ⟨row, mem, rfl⟩, ?_⟩
  split_ifs
  · exact (same row).trans named
  · exact named

theorem createProject_grows (before : Db) (now : UtcNow) (uuid : Uuid) (name : String) :
    (createProject now uuid name).Keeps (Grows before) := by
  intro db project db' done grows
  simp only [createProject] at done
  split at done
  · cases done
  · rename_i projects inserted
    cases done
    refine ⟨grows.issues, grows.events, fun name registered => ?_⟩
    obtain ⟨row, mem, named⟩ := grows.names name registered
    exact ⟨row, by simp [Table.rows_of_insert inserted, mem], named⟩

theorem rotateToken_grows (before : Db) (now : UtcNow) (uuid : Uuid) (name : String) :
    (rotateToken now uuid name).Keeps (Grows before) := by
  have answer := @projectAnswer_keeps (Grows before) now name s!"project {name} (post-rotate)"
  refine .bind (.execute fun db grows => grows.update _ (withToken_name _)) fun updated => ?_
  split_ifs
  · exact .bind (.fail _) fun _ => answer
  · exact answer

theorem touchProjectUsed_grows (before : Db) (now : UtcNow) (name : String) :
    (touchProjectUsed now name).Keeps (Grows before) :=
  .execute fun _ grows => grows.update _ (withLastUsed_name _)

section Batches

variable {projects : Table ProjectRow String ProjectRow.name} {named : String → Prop}

def Within (projects : Table ProjectRow String ProjectRow.name) (named : String → Prop) (db : Db) : Prop :=
  db.projects = projects ∧ ∀ row ∈ db.issues.rows, named row.project

theorem insertIssue_within {input : UpsertInput} (known : named input.project) (db : Db)
    (within : Within projects named db) : Within projects named (insertIssue input db).2 := by
  unfold insertIssue
  split
  · rename_i issues inserted
    refine ⟨within.1, fun row mem => ?_⟩
    rw [show _ = _ from Table.rows_of_insert inserted, List.mem_append, List.mem_singleton] at mem
    rcases mem with old | rfl
    · exact within.2 row old
    · exact known
  · exact within

theorem updateIssue_within {input : UpsertInput} (status : Option String) (db : Db)
    (within : Within projects named db) : Within projects named (updateIssue input status db).2 := by
  refine ⟨within.1, fun row mem => ?_⟩
  obtain ⟨old, stored, rfl⟩ := (Table.mem_update (bumpIssue_key input status)).mp mem
  split_ifs <;> exact within.2 old stored

theorem insertEvent_within (received : SqliteTime) (issueId : Int) (eventId payload : String) :
    (insertEvent received issueId eventId payload).Keeps (Within projects named) := by
  intro db u db' done within
  unfold insertEvent at done
  split at done
  · cases done
    exact within
  · split_ifs at done
    cases done
    exact within

theorem upsertInput_within {now : UtcNow} {received : SqliteTime} {input : BatchUpsertInput}
    (known : named input.project) : (upsertInput now received input).Keeps (Within projects named) :=
  .bind (upsertRow_keeps (insertIssue_within known) updateIssue_within) fun _ =>
    .bind (insertEvent_within _ _ _ _) fun _ => .pure _

theorem batch_within {now : UtcNow} {batch : List BatchUpsertInput} (known : ∀ input ∈ batch, named input.project)
    (received : Nat → SqliteTime) : (upsertBatchWithEvents now received batch).Keeps (Within projects named) := by
  induction batch generalizing received with
  | nil => exact .pure _
  | cons input batch ih =>
      refine .bind (upsertInput_within (known input List.mem_cons_self)) fun _ => .bind (ih ?_ _) fun _ => .pure _
      exact fun other mem => known other (List.mem_cons_of_mem _ mem)

theorem Within.names (within : Within db.projects named db') (name : String) (registered : Registered name db) :
    Registered name db' := by
  rw [Registered, within.1]
  exact registered

end Batches

theorem deleteProject_ok {now : UtcNow} {name : String} {summary : DeleteSummary}
    (done : deleteProject now name db = .ok (summary, db')) :
    db'.issues = db.issues.delete (·.project == name) ∧ db'.projects = db.projects.delete (·.name == name) := by
  simp only [deleteProject, bind_run, projectByName, read_run, Except.bind, countProjectRows] at done
  split_ifs at done
  · cases done
  · cases done
    exact ⟨rfl, rfl⟩

theorem deleteProject_housed {now : UtcNow} {name : String} {summary : DeleteSummary}
    (done : deleteProject now name db = .ok (summary, db')) (housed : Housed db) :
    Housed db' ∧ ∀ other, other ≠ name → Registered other db → Registered other db' := by
  obtain ⟨issues, projects⟩ := deleteProject_ok done
  have kept : ∀ other, other ≠ name → Registered other db → Registered other db' := by
    intro other different ⟨row, mem, named⟩
    refine ⟨row, ?_, named⟩
    rw [projects]
    exact Table.mem_delete.mpr ⟨mem, by simp [named, different]⟩
  refine ⟨fun row mem => ?_, kept⟩
  rw [issues] at mem
  obtain ⟨stored, spared⟩ := Table.mem_delete.mp mem
  exact kept row.project (by simpa using spared) (housed row stored)

theorem renameProject_ok {now : UtcNow} {old new : String} {project : Project}
    (done : renameProject now old new db = .ok (project, db')) :
    db' = db ∨ old ≠ new ∧ ¬ Registered new db ∧
      db'.projects.rows = (db.projects.rows.map fun row => if row.name = old then { row with name := new } else row) ∧
      db'.issues.rows = (db.issues.rows.map fun row => if row.project = old then { row with project := new } else row) := by
  by_cases same : old = new
  · subst same
    rw [Issues.renameProject_same] at done
    cases found : db.projects.find? old <;> rw [found] at done <;> cases done
    exact .inl rfl
  · obtain ⟨renamed, clear, -⟩ := Issues.renameProject_renamed done
    refine .inr ⟨same, ?_, renamed.projects, renamed.issues⟩
    rintro ⟨row, mem, named⟩
    exact clear ⟨same, .inl ⟨row, mem, named⟩⟩

theorem renameProject_housed {now : UtcNow} {old new : String} {project : Project}
    (done : renameProject now old new db = .ok (project, db')) (housed : Housed db) :
    Housed db' ∧ ∀ other, other ≠ old ∨ old = new ∨ Registered new db → Registered other db → Registered other db' := by
  rcases renameProject_ok done with rfl | ⟨different, free, projects, issues⟩
  · exact ⟨housed, fun _ _ registered => registered⟩
  · have kept : ∀ other, other ≠ old → Registered other db → Registered other db' := by
      intro other apart ⟨row, mem, named⟩
      refine ⟨row, ?_, named⟩
      rw [projects]
      exact List.mem_map.mpr ⟨row, mem, by simp [named, apart]⟩
    have moved : Registered old db → Registered new db' := by
      intro ⟨row, mem, named⟩
      refine ⟨{ row with name := new }, ?_, rfl⟩
      rw [projects]
      exact List.mem_map.mpr ⟨row, mem, by simp [named]⟩
    refine ⟨fun row mem => ?_, fun other apart => kept other ?_⟩
    · rw [issues] at mem
      obtain ⟨before, stored, rfl⟩ := List.mem_map.mp mem
      split_ifs with renamed
      · have from_old : before.project = old := by simpa using renamed
        exact moved (from_old ▸ housed before stored)
      · exact kept _ (by simpa using renamed) (housed before stored)
    · rcases apart with apart | same | taken
      · exact apart
      · exact absurd same different
      · exact absurd taken free

/-- What a request may call once its token was checked, when it may send records of some projects. -/
def Vouches (named : String → Prop) : IngestCall → Prop
  | .projectByToken _ => False
  | .send rec => named rec.project
  | .check _ | .utcNow | .touchProjectUsed _ => True

theorem sendAll_vouches (route : Route) (project : String) (events : List Event) :
    (sendAll route project events).Calls (Vouches (· = project)) := by
  induction events with
  | nil => trivial
  | cons event events ih =>
      refine ⟨trivial, fun receivedAt => ⟨rfl, fun accepted => ?_⟩⟩
      cases accepted with
      | false => trivial
      | true => exact ih

theorem taken_vouches (request : IngestRequest) : (taken request).Calls (Vouches (· = request.project)) :=
  ⟨trivial, fun _ => trivial⟩

theorem forward_vouches (route : Route) (request : IngestRequest) :
    (forward route request).Calls (Vouches (· = request.project)) := by
  unfold forward
  split
  · trivial
  · split
    · trivial
    · trivial
    · trivial
    · split_ifs
      · exact taken_vouches request
      · refine (sendAll_vouches route request.project _).bind fun sent => ?_
        cases sent with
        | false => trivial
        | true => exact taken_vouches request

theorem accept_vouches (route : Route) (request : IngestRequest) :
    (accept route request).Calls (Vouches (· = request.project)) := by
  refine ⟨trivial, fun granted => ?_⟩
  cases granted with
  | false => trivial
  | true => exact forward_vouches route request

def asksToken : IngestHandler Response → Bool
  | .call (.projectByToken _) _ => true
  | _ => false

def Vouched (db : Db) (q : IngestHandler Response) : Prop :=
  q.Calls (Vouches (Registered · db)) ∨
    ∃ key, ∃ resume : IngestCall.Reply (.projectByToken key) → IngestHandler Response,
      q = .call (.projectByToken key) resume ∧ ∀ reply, (resume reply).Calls
        (Vouches fun name => ∃ project : Project, reply = .ok (some project) ∧ project.name = name)

theorem Vouches.mono {named named' : String → Prop} (names : ∀ name, named name → named' name) {c : IngestCall}
    (vouches : Vouches named c) : Vouches named' c := by
  cases c with
  | send rec => exact names _ vouches
  | projectByToken key => exact vouches
  | check project => trivial
  | utcNow => trivial
  | touchProjectUsed project => trivial

theorem calls_mono {named named' : String → Prop} (names : ∀ name, named name → named' name)
    {q : IngestHandler Response} (all : q.Calls (Vouches named)) : q.Calls (Vouches named') :=
  all.imp_of_and all fun _ vouches _ => vouches.mono names

theorem ingestEnvelope_vouched {route : Route} (auth : route.requireAuth = true) (request : IngestRequest) :
    Vouched db (ingestEnvelope route request) := by
  unfold ingestEnvelope authorize
  rw [if_neg (by simp [auth])]
  split
  · exact .inl trivial
  · rename_i key found
    refine .inr ⟨key, _, rfl, fun reply => ?_⟩
    rcases reply with error | _ | project
    · trivial
    · trivial
    · by_cases named : project.name = request.project
      · simp only [Process.bind, pure_eq, if_pos named]
        refine calls_mono ?_ (accept_vouches route request)
        rintro name rfl
        exact ⟨project, rfl, named⟩
      · simp only [Process.bind, pure_eq, if_neg named]
        trivial

theorem execIngest_grows (w : Surroundings) (c : IngestCall) (s : Shared) : Grows s.db (execIngest w c s).2.db := by
  cases c with
  | projectByToken token =>
      have reads : (projectByToken w.store.now token).Keeps (Grows s.db) := .read _
      exact transact_keeps reads (.refl _)
  | check project => exact .refl _
  | utcNow => exact .refl _
  | send rec =>
      simp only [execIngest]
      split_ifs <;> exact .refl _
  | touchProjectUsed project => exact transact_keeps (touchProjectUsed_grows s.db _ _) (.refl _)

theorem Vouched.mono {q : IngestHandler Response} (vouched : Vouched db q)
    (names : ∀ name, Registered name db → Registered name db') :
    Vouched db' q := by
  rcases vouched with checked | asking
  · exact .inl (calls_mono names checked)
  · exact .inr asking

theorem projectByToken_registered {w : World} {key : String} {project : Project}
    (found : (transact w (projectByToken w.now key) db).1 = .ok (some project)) : Registered project.name db := by
  have done := transact_ok found
  rw [projectByToken, read_run] at done
  have looked := (Prod.mk.inj (Except.ok.inj done)).1
  obtain ⟨row, mem, rfl⟩ := Option.map_eq_some_iff.mp looked
  exact ⟨row, List.mem_of_find?_eq_some mem, rfl⟩

variable {s : Shared} {c : IngestCall} {resume : c.Reply → IngestHandler Response}

theorem Vouched.answered (vouched : Vouched s.db (.call c resume)) (w : Surroundings) :
    Vouched (execIngest w c s).2.db (resume (execIngest w c s).1) := by
  have grows := execIngest_grows w c s
  rcases vouched with checked | ⟨key, asked, asking, answers⟩
  · exact .inl (calls_mono grows.names (checked.2 _))
  · cases asking
    refine .inl (calls_mono ?_ (answers _))
    rintro name ⟨project, found, rfl⟩
    exact grows.names _ (projectByToken_registered found)

theorem Vouched.sends (vouched : Vouched s.db (.call c resume)) (w : Surroundings) :
    ∀ rec ∈ (execIngest w c s).2.channel, rec ∈ s.channel ∨ Registered rec.project s.db := by
  intro rec mem
  cases c with
  | send sent =>
      rcases vouched with checked | ⟨key, asked, asking, -⟩
      · simp only [execIngest] at mem
        split_ifs at mem
        · exact .inl mem
        · rcases List.mem_append.mp mem with old | new
          · exact .inl old
          · obtain rfl := List.mem_singleton.mp new
            exact .inr checked.1
      · cases asking
  | projectByToken key => exact .inl mem
  | check project => exact .inl mem
  | utcNow => exact .inl mem
  | touchProjectUsed project => exact .inl mem

structure Sound (s : State) : Prop where
  integrity : Integrity s.shared.db
  housed : Housed s.shared.db
  records : ∀ rec ∈ s.shared.channel ++ s.buffer, Registered rec.project s.shared.db
  requests : ∀ q ∈ s.pool, Vouched s.shared.db q

/-- Nothing of the project is on its way: no record of it waits, and no request that is past its token
check has one to send. -/
structure Idle (s : State) (name : String) : Prop where
  records : ∀ rec ∈ s.shared.channel ++ s.buffer, rec.project ≠ name
  requests : ∀ q ∈ s.pool, asksToken q = true ∨ q.Calls (Vouches (· ≠ name))

variable {s : State}

theorem Sound.of_names (sound : Sound s) (integrity : Integrity db) (housed : Housed db)
    (names : ∀ name, Registered name s.shared.db → Registered name db) :
    Sound { s with shared := { s.shared with db } } where
  integrity := integrity
  housed := housed
  records rec mem := names _ (sound.records rec mem)
  requests q mem := (sound.requests q mem).mono names

theorem Sound.of_names_but (sound : Sound s) (integrity : Integrity db) (housed : Housed db) {gone : String}
    (idle : Idle s gone) (names : ∀ name, name ≠ gone → Registered name s.shared.db → Registered name db) :
    Sound { s with shared := { s.shared with db } } where
  integrity := integrity
  housed := housed
  records rec mem := names _ (idle.records rec mem) (sound.records rec mem)
  requests q mem := by
    rcases sound.requests q mem with checked | asking
    · rcases idle.requests q mem with asks | others
      · cases q with
        | call c resume => cases c <;> first | exact checked.1.elim | cases asks
        | ret value => cases asks
        | throw error => cases asks
        | panic => cases asks
      · refine .inl (checked.imp_of_and others fun c registered apart => ?_)
        cases c with
        | send rec => exact names _ apart registered
        | projectByToken key => exact registered
        | check project => trivial
        | utcNow => trivial
        | touchProjectUsed project => trivial
    · exact .inr asking

theorem Sound.ingest (sound : Sound s) (request : Nat) (w : Surroundings) :
    Sound (Pipeline.step s (.ingest request w)) := by
  simp only [Pipeline.step]
  split_ifs
  · exact sound
  · rcases System.step_cases execIngest ⟨s.shared, s.pool⟩ (request, w) with same | ⟨c, resume, next, after⟩
    · rw [same]
      exact sound
    · rw [after]
      have vouched : Vouched s.shared.db (.call c resume) := sound.requests _ (List.mem_of_getElem? next)
      have grows := execIngest_grows w c s.shared
      refine ⟨sound.integrity.of_same grows.issues grows.events, grows.housed sound.housed, fun rec mem => ?_,
        fun q mem => ?_⟩
      · rcases List.mem_append.mp mem with sent | taken
        · rcases vouched.sends w rec sent with old | new
          · exact grows.names _ (sound.records rec (List.mem_append_left _ old))
          · exact grows.names _ new
        · exact grows.names _ (sound.records rec (List.mem_append_right _ taken))
      · rcases List.mem_or_eq_of_mem_set mem with old | rfl
        · exact (sound.requests q old).mono grows.names
        · exact vouched.answered w

theorem Sound.commit_grows {α : Type} (sound : Sound s) (w : World) {tx : Tx α}
    (grows : tx.Keeps (Grows s.shared.db)) : Sound (commit s w tx) := by
  have grown := transact_keeps (w := w) grows (.refl _)
  exact sound.of_names (sound.integrity.of_same grown.issues grown.events) (grown.housed sound.housed) grown.names

theorem Sound.processBatch (sound : Sound s) (w : World) : Sound (Pipeline.step s (.processBatch w)) := by
  simp only [Pipeline.step]
  split_ifs
  · exact sound
  · have known : ∀ input ∈ s.buffer.map (·.input), Registered input.project s.shared.db := by
      intro input mem
      obtain ⟨rec, waiting, rfl⟩ := List.mem_map.mp mem
      exact sound.records rec (List.mem_append_right _ waiting)
    have keeps : (upsertBatchWithEvents w.now w.received (s.buffer.map (·.input))).Keeps
        (Within s.shared.db.projects (Registered · s.shared.db)) := batch_within known w.received
    have within := transact_keeps (w := w) keeps ⟨rfl, sound.housed⟩
    have integrity : Integrity _ := transact_keeps (w := w)
      (upsertBatchWithEvents_keeps (Integrity.upsertInput_keeps w.now) w.received (s.buffer.map (·.input))) sound.integrity
    have after := sound.of_names integrity (fun row mem => within.names _ (within.2 row mem)) within.names
    refine ⟨after.integrity, after.housed, fun rec mem => after.records rec ?_, after.requests⟩
    rw [List.append_nil] at mem
    exact List.mem_append_left _ mem

theorem Sound.renameProject (sound : Sound s) (w : World) (old new : String)
    (idle : old ≠ new → ¬ Registered new s.shared.db → Idle s old) :
    Sound (Pipeline.step s (.renameProject w old new)) := by
  have integrity : Integrity (transact w (Store.renameProject w.now old new) s.shared.db).2 :=
    transact_keeps (renameProject_keeps (fun _ _ _ sound => sound.of_same ⟨rfl, rfl⟩ ⟨rfl, rfl⟩)
      (Integrity.renameIssues_keeps _ _)) sound.integrity
  rcases transact_cases w (Store.renameProject w.now old new) s.shared.db with same | ⟨project, done⟩
  · simp only [Pipeline.step, commit, same]
    exact sound
  · obtain ⟨housed, names⟩ := renameProject_housed done sound.housed
    by_cases moves : old ≠ new ∧ ¬ Registered new s.shared.db
    · exact sound.of_names_but integrity housed (idle moves.1 moves.2) fun name apart => names name (.inl apart)
    · refine sound.of_names integrity housed fun name => names name (.inr ?_)
      tauto

theorem Sound.deleteProject (sound : Sound s) (w : World) (name : String) (idle : Idle s name) :
    Sound (Pipeline.step s (.deleteProject w name)) := by
  have integrity : Integrity (transact w (Store.deleteProject w.now name) s.shared.db).2 :=
    transact_keeps (deleteProject_keeps (fun _ _ sound => sound.deleteIssues _)
      fun _ _ sound => sound.of_same ⟨rfl, rfl⟩ ⟨rfl, rfl⟩) sound.integrity
  rcases transact_cases w (Store.deleteProject w.now name) s.shared.db with same | ⟨summary, done⟩
  · simp only [Pipeline.step, commit, same]
    exact sound
  · obtain ⟨housed, names⟩ := deleteProject_housed done sound.housed
    exact sound.of_names_but integrity housed idle names

def SparesBusy (s : State) : Action → Prop
  | .deleteProject _ name => Idle s name
  | .renameProject _ old new => old ≠ new → ¬ Registered new s.shared.db → Idle s old
  | _ => True

theorem Sound.step (sound : Sound s) (action : Action) (spares : SparesBusy s action) :
    Sound (Pipeline.step s action) := by
  cases action with
  | ingest request w => exact sound.ingest request w
  | receive =>
      simp only [Pipeline.step]
      split_ifs with empty
      · refine ⟨sound.integrity, sound.housed, fun rec mem => sound.records rec ?_, sound.requests⟩
        rcases List.mem_append.mp mem with rest | first
        · exact List.mem_append_left _ (List.mem_of_mem_drop rest)
        · exact List.mem_append_left _ (List.mem_of_mem_take first)
      · exact sound
  | processBatch w => exact sound.processBatch w
  | createProject w name => exact sound.commit_grows w (createProject_grows _ _ _ _)
  | renameProject w old new => exact sound.renameProject w old new spares
  | deleteProject w name => exact sound.deleteProject w name spares
  | rotateToken w name => exact sound.commit_grows w (rotateToken_grows _ _ _ _)

structure Tidy (db : Db) : Prop where
  housed : Housed db
  issues : ∀ name, ¬ Registered name db → ∀ row ∈ db.issues.rows, row.project ≠ name
  events : ∀ name, ¬ Registered name db → ∀ event ∈ db.events.rows,
    ∃ row ∈ db.issues.rows, row.id = event.issueId ∧ row.project ≠ name

theorem Sound.tidy (sound : Sound s) : Tidy s.shared.db := by
  have issues : ∀ name, ¬ Registered name s.shared.db → ∀ row ∈ s.shared.db.issues.rows, row.project ≠ name :=
    fun name free row mem same => free (same ▸ sound.housed row mem)
  refine ⟨sound.housed, issues, fun name free event stored => ?_⟩
  obtain ⟨row, mem, owner⟩ := sound.integrity.owned event stored
  exact ⟨row, mem, owner, issues name free row mem⟩

/-- From an empty database, with any requests on their way: in every run in which no project is deleted
or renamed while something of it is on its way, every issue and event belongs to a project. -/
theorem run_housed (route : Route) (auth : route.requireAuth = true) (requests : List IngestRequest)
    (limiter : RateLimit.RateLimiter) (actions : List Action)
    (permitted : Machine.Permits Pipeline.step SparesBusy (.initial route requests Db.empty limiter) actions) :
    Tidy (Machine.run Pipeline.step (.initial route requests Db.empty limiter) actions).shared.db := by
  have initial : Sound (.initial route requests Db.empty limiter) := by
    refine ⟨Integrity.empty, fun row none => absurd none List.not_mem_nil,
      fun rec none => absurd none List.not_mem_nil, fun q mem => ?_⟩
    obtain ⟨request, -, rfl⟩ := List.mem_map.mp mem
    exact ingestEnvelope_vouched auth request
  exact (Machine.run_invariant Sound (fun _ action sound spares => sound.step action spares) permitted initial).tidy

def gatedRoute : Route := { Ingest.openRoute with requireAuth := true }

def keyedRequest : IngestRequest := { Ingest.twoEvents.request with query := "sentry_key=" ++ (Uuid.mk 1).simple }

def registers : Action := .createProject (noonWorld 1) "web"

def turns (n : Nat) : List Action := .replicate n (.ingest 0 ⟨noonWorld 2, ⟨0⟩, false⟩)

def before : State := .initial gatedRoute [keyedRequest] Db.empty (.new 60 1)

theorem run_housed_sample : Tidy (Machine.run Pipeline.step before
    ([registers] ++ turns 7 ++ [.receive, .processBatch (noonWorld 3), .deleteProject (noonWorld 4) "web"])).shared.db := by
  refine run_housed gatedRoute rfl [keyedRequest] (.new 60 1) _ ?_
  let settled := Machine.run Pipeline.step before ([registers] ++ turns 7 ++ [.receive, .processBatch (noonWorld 3)])
  have idle : Idle settled "web" := by
    refine ⟨by decide +kernel, fun q mem => .inr ?_⟩
    have through : settled.pool.all (fun q => !q.waiting) = true := by decide +kernel
    cases q with
    | call c resume => exact absurd (List.all_eq_true.mp through _ mem) (by simp [Process.waiting])
    | _ => trivial
  exact ⟨trivial, trivial, trivial, trivial, trivial, trivial, trivial, trivial, trivial, trivial, idle, trivial⟩

/-- The project is deleted while the events wait in the channel; its issue comes after. -/
theorem run_orphans : ¬ ∀ (route : Route) (requests : List IngestRequest) (limiter : RateLimit.RateLimiter)
    (actions : List Action), route.requireAuth = true →
      Housed (Machine.run Pipeline.step (.initial route requests Db.empty limiter) actions).shared.db := by
  intro housed
  let final := Machine.run Pipeline.step before
    ([registers] ++ turns 7 ++ [.deleteProject (noonWorld 4) "web", .receive, .processBatch (noonWorld 3)])
  have housed : Housed final.shared.db := housed gatedRoute [keyedRequest] (.new 60 1) _ rfl
  have orphan : final.shared.db.issues.rows.length = 1 ∧ final.shared.db.projects.rows.length = 0 := by
    decide +kernel
  obtain ⟨row, only⟩ := List.length_eq_one_iff.mp orphan.1
  obtain ⟨project, mem, -⟩ := housed row (only ▸ List.mem_singleton_self row)
  rw [List.length_eq_zero_iff.mp orphan.2] at mem
  exact List.not_mem_nil mem

end Errex.Proof.Projects
