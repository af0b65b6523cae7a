import Errex.Foundation.Machine
import Errex.Model.Store.Queries
import Errex.Proof.Issues.ById

/-!
# Projects side by side

The rows of a project are its own, its issues and their events. Calls about other projects leave them alone, and its
deletion takes exactly them away, in the numbers that a preview has told before.
-/

namespace Errex.Proof.Tenants
open Foundation Transaction Model Store Issues

def issuesOf (name : String) (db : Db) : List IssueRow := db.issues.rows.filter (·.project == name)

def belongs (name : String) (db : Db) (event : EventRow) : Bool := (issuesOf name db).any (·.id == event.issueId)

structure Tenant where
  project : List ProjectRow
  issues : List IssueRow
  events : List EventRow

def tenant (name : String) (db : Db) : Tenant where
  project := db.projects.rows.filter (·.name == name)
  issues := issuesOf name db
  events := db.events.rows.filter (belongs name db)

theorem tenant_eq {name : String} {db db' : Db}
    (project : db'.projects.rows.filter (·.name == name) = db.projects.rows.filter (·.name == name))
    (issues : issuesOf name db' = issuesOf name db)
    (events : db'.events.rows.filter (belongs name db) = db.events.rows.filter (belongs name db)) :
    tenant name db' = tenant name db := by
  have same : belongs name db' = belongs name db := by
    funext event
    rw [belongs, issues, belongs]
  simp only [tenant, project, issues, same, events]

theorem belongs_iff {name : String} {db : Db} {event : EventRow} :
    belongs name db event = true ↔ ∃ row ∈ db.issues.rows, row.project = name ∧ row.id = event.issueId := by
  simp [belongs, issuesOf]

variable {name : String} {db db' : Db}

theorem not_belongs (sound : Integrity db) {row : IssueRow} (mem : row ∈ db.issues.rows) (other : row.project ≠ name)
    {event : EventRow} (owner : row.id = event.issueId) : belongs name db event = false := by
  by_contra belong
  obtain ⟨row', mem', named, owner'⟩ := belongs_iff.mp (by simpa using belong)
  obtain rfl := sound.eq_of_id_eq mem mem' (owner.trans owner'.symm)
  exact other named

/-- The call is about other projects. -/
def Spares (name : String) (db : Db) : Call → Prop
  | .upsertIssue input => input.project ≠ name
  | .upsertBatchWithEvents batch => ∀ input ∈ batch, input.project ≠ name
  | .setStatus issueId _ => ∀ row ∈ db.issues.rows, row.id = issueId → row.project ≠ name
  | .purgeExcessEventsPerIssue _ | .purgeExcessIssuesPerProject _ | .purgeEventsOlderThan _ => False
  | .createProject other | .setProjectWebhook other _ | .deleteProject other => other ≠ name
  | .renameProject old new => old ≠ name ∧ new ≠ name
  | _ => True

/-- The integrity, and the rows of the project. -/
structure Untouched (name : String) (rows : Tenant) (db : Db) : Prop where
  sound : Integrity db
  same : tenant name db = rows

variable {rows : Tenant}

theorem Untouched.of_projects (untouched : Untouched name rows db) {projects : Table ProjectRow String ProjectRow.name}
    (project : projects.rows.filter (·.name == name) = db.projects.rows.filter (·.name == name)) :
    Untouched name rows { db with projects } where
  sound := untouched.sound.of_same ⟨rfl, rfl⟩ ⟨rfl, rfl⟩
  same := by
    rw [← untouched.same]
    exact tenant_eq project rfl rfl

theorem Untouched.upsertRow (untouched : Untouched name rows db) {input : UpsertInput} (other : input.project ≠ name)
    {row : IssueRow} {created regressed : Bool} (done : upsertRow input db = .ok ((row, created, regressed), db')) :
    tenant name db' = rows ∧ row.project = input.project := by
  rw [← untouched.same]
  cases found : db.issues.find? input.key with
  | none =>
      obtain ⟨issues, inserted, upserted⟩ := upsertRow_of_new found
      cases upserted.symm.trans done
      refine ⟨tenant_eq rfl (Table.filter_insert inserted ?_) rfl, rfl⟩
      simpa [newIssue] using other
  | some old =>
      cases (upsertRow_of_old found).symm.trans done
      have key : old.key = input.key := Table.key_of_find? found
      refine ⟨tenant_eq rfl (Table.filter_update (bumpIssue_key input _) fun row _ hit => ?_) rfl, congrArg Prod.fst key⟩
      have project : row.project = input.project := congrArg Prod.fst (of_decide_eq_true hit)
      exact ⟨by simp [project, other], by simp [bumpIssue, project, other]⟩

theorem upsertIssue_untouched (now : UtcNow) {input : UpsertInput} (other : input.project ≠ name) :
    (upsertIssue now input).Keeps (Untouched name rows) := by
  intro db result db' done untouched
  have sound := Integrity.upsertIssue_keeps now input db result db' done untouched.sound
  obtain ⟨⟨row, created, regressed⟩, db₁, upserted, rest⟩ := bind_eq_ok_iff.mp done
  cases rest
  exact ⟨sound, (untouched.upsertRow other upserted).1⟩

theorem upsertInput_untouched (now : UtcNow) (received : SqliteTime) {input : BatchUpsertInput} (other : input.project ≠ name) :
    (upsertInput now received input).Keeps (Untouched name rows) := by
  intro db result db' done untouched
  have sound := Integrity.upsertInput_keeps now received input db result db' done untouched.sound
  obtain ⟨⟨row, created, regressed⟩, db₁, upserted, rest⟩ := bind_eq_ok_iff.mp done
  obtain ⟨u, db₂, inserted, rest⟩ := bind_eq_ok_iff.mp rest
  cases rest
  obtain ⟨sound₁, mem, -⟩ := untouched.sound.upsertRow upserted
  obtain ⟨same, project⟩ := untouched.upsertRow other upserted
  refine ⟨sound, ?_⟩
  rw [← same]
  unfold insertEvent at inserted
  split at inserted
  · cases inserted
    exact tenant_eq rfl rfl rfl
  · rename_i events stored
    split_ifs at inserted
    cases inserted
    refine tenant_eq rfl rfl (Table.filter_insert stored ?_)
    exact not_belongs sound₁ mem (project ▸ other) rfl

theorem batch_untouched (now : UtcNow) (received : Nat → SqliteTime) {batch : List BatchUpsertInput}
    (others : ∀ input ∈ batch, input.project ≠ name) :
    (upsertBatchWithEvents now received batch).Keeps (Untouched name rows) := by
  induction batch generalizing received with
  | nil => exact .pure _
  | cons input batch ih =>
      obtain ⟨first, later⟩ := List.forall_mem_cons.mp others
      exact .bind (upsertInput_untouched now _ first) fun _ => .bind (ih _ later) fun _ => .pure _

theorem Untouched.updateStatus (untouched : Untouched name rows db) {issueId : Int} (status : IssueStatus)
    (others : ∀ row ∈ db.issues.rows, row.id = issueId → row.project ≠ name) :
    Untouched name rows (updateStatus issueId status db).2 where
  sound := untouched.sound.updateStatus issueId status
  same := by
    rw [← untouched.same]
    refine tenant_eq rfl (Table.filter_update (triageIssue_key status) fun row mem hit => ?_) rfl
    have other := others row mem (by simpa using hit)
    exact ⟨by simp [other], by simp [triageIssue, other]⟩

theorem Untouched.deleteIssues {other : String} (apart : other ≠ name) (untouched : Untouched name rows db) :
    Untouched name rows (deleteIssues (·.project == other) db).2 where
  sound := untouched.sound.deleteIssues _
  same := by
    rw [← untouched.same]
    refine tenant_eq rfl (Table.filter_delete fun row mem named => ?_) (Table.filter_delete fun event mem belong => ?_)
    · have project : row.project = name := by simpa using named
      simpa [project] using apart.symm
    · rw [List.any_eq_false]
      rintro row stored doomed
      obtain ⟨gone, owner⟩ : row.project = other ∧ row.id = event.issueId := by simpa using doomed
      have foreign := not_belongs untouched.sound stored (gone ▸ apart) owner
      simp [foreign] at belong

theorem projectByName_isNone_iff {now : UtcNow} :
    ((db.projects.find? name).map (Project.ofRow now)).isNone = true ↔ (tenant name db).project = [] := by
  have rows : (tenant name db).project = (db.projects.find? name).toList := Table.filter_key db.projects name
  rw [rows]
  cases db.projects.find? name <;> simp

theorem countProjectRows_eq (name : String) (db : Db) :
    countProjectRows name db = .ok (((tenant name db).issues.length, (tenant name db).events.length), db) := by
  have events : ∀ event : EventRow, (db.issues.rows.any fun row => row.id == event.issueId && row.project == name) =
      belongs name db event := by
    intro event
    rw [belongs, issuesOf, List.any_filter]
    simp only [Bool.and_comm]
  simp only [countProjectRows, read_run, events]
  rw [Table.count, Table.count, List.countP_eq_length_filter, List.countP_eq_length_filter]
  rfl

theorem deletePreview_eq (now : UtcNow) (name : String) (db : Db) :
    deletePreview now name db = if (tenant name db).project = [] then .error (.notFound s!"project {name}")
      else .ok (⟨(tenant name db).events.length, (tenant name db).issues.length⟩, db) := by
  unfold deletePreview
  have found : projectByName now name db = .ok ((db.projects.find? name).map (Project.ofRow now), db) := rfl
  rw [bind_run_ok found]
  dsimp only
  split_ifs with missing gone gone
  · rfl
  · exact absurd (projectByName_isNone_iff.mp missing) gone
  · exact absurd (projectByName_isNone_iff.mpr gone) missing
  · rw [bind_run_ok (countProjectRows_eq name db)]
    rfl

def without (name : String) (db : Db) : Db :=
  { (Store.deleteIssues (·.project == name) db).2 with projects := db.projects.delete (·.name == name) }

theorem deleteProject_eq (now : UtcNow) (name : String) (db : Db) :
    deleteProject now name db = if (tenant name db).project = [] then .error (.notFound s!"project {name}")
      else .ok (⟨(tenant name db).events.length, (tenant name db).issues.length⟩, without name db) := by
  unfold deleteProject
  have found : projectByName now name db = .ok ((db.projects.find? name).map (Project.ofRow now), db) := rfl
  rw [bind_run_ok found]
  dsimp only
  split_ifs with missing gone gone
  · rfl
  · exact absurd (projectByName_isNone_iff.mp missing) gone
  · exact absurd (projectByName_isNone_iff.mpr gone) missing
  · rw [bind_run_ok (countProjectRows_eq name db)]
    rfl

theorem tenant_without (name : String) (db : Db) : tenant name (without name db) = ⟨[], [], []⟩ := by
  have issues : issuesOf name (without name db) = [] := by
    apply List.filter_eq_nil_iff.mpr
    intro row mem
    simpa using (Table.mem_delete.mp mem).2
  have project : (without name db).projects.rows.filter (·.name == name) = [] := by
    apply List.filter_eq_nil_iff.mpr
    intro row mem
    simpa using (Table.mem_delete.mp mem).2
  have events : (without name db).events.rows.filter (belongs name (without name db)) = [] := by
    apply List.filter_eq_nil_iff.mpr
    intro event mem
    simp [belongs, issues]
  simp only [tenant, project, issues, events]

theorem Untouched.without (untouched : Untouched name rows db) {other : String} (apart : other ≠ name) :
    Untouched name rows (without other db) := by
  refine (untouched.deleteIssues apart).of_projects (Table.filter_delete fun row mem named => ?_)
  have named : row.name = name := by simpa using named
  simpa [named] using Ne.symm apart

theorem renameIssues_untouched {old new : String} (apart : old ≠ name ∧ new ≠ name) :
    (renameIssues old new).Keeps (Untouched name rows) := by
  intro db u db' done untouched
  have sound := Integrity.renameIssues_keeps old new db u db' done untouched.sound
  unfold renameIssues at done
  split at done
  · cases done
  · rename_i issues renamed
    cases done
    refine ⟨sound, ?_⟩
    rw [← untouched.same]
    refine tenant_eq rfl (Table.filter_rekey renamed fun row mem hit => ?_) rfl
    have project : row.project = old := by simpa using hit
    exact ⟨by simp [project, apart.1], by simp [apart.2]⟩

theorem exec_untouched (argon2 : Argon2) (w : World) {c : Call} (spares : Spares name db c) (untouched : Untouched name rows db) :
    Untouched name rows (exec argon2 w c db).2 := by
  have frame := exec_frame argon2 w c db
  cases c
  case upsertIssue input => exact transact_keeps (upsertIssue_untouched _ spares) untouched
  case upsertBatchWithEvents batch => exact transact_keeps (batch_untouched _ _ spares) untouched
  case setStatus issueId status =>
    rcases transact_cases w (setStatus w.now issueId status) db with same | ⟨issue, done⟩
    · exact (congrArg (Untouched name rows) same).mpr untouched
    · obtain ⟨after, -⟩ := setStatus_written done
      exact (congrArg (Untouched name rows) after).mpr (untouched.updateStatus status spares)
  case purgeExcessEventsPerIssue max => exact spares.elim
  case purgeExcessIssuesPerProject max => exact spares.elim
  case purgeEventsOlderThan cutoff => exact spares.elim
  case createProject other =>
    refine transact_keeps (fun db project db' done kept => ?_) untouched
    simp only [createProject] at done
    split at done
    · cases done
    · rename_i projects inserted
      cases done
      have apart : other ≠ name := spares
      exact kept.of_projects (Table.filter_insert inserted (by simpa using apart))
  case setProjectWebhook other url =>
    refine transact_keeps (execute_check_keeps fun db kept => kept.of_projects ?_) untouched
    refine Table.filter_update (withWebhook_name url) fun row mem hit => ?_
    have named : row.name = other := by simpa using hit
    have apart : other ≠ name := spares
    exact ⟨by simp [named, apart], by simp [withWebhook, named, apart]⟩
  case deleteProject other =>
    refine transact_keeps (fun db summary db' done kept => ?_) untouched
    rw [deleteProject_eq] at done
    split_ifs at done
    cases done
    exact kept.without spares
  case renameProject old new =>
    refine transact_keeps (renameProject_keeps (fun projects db renamed kept => kept.of_projects ?_)
      (renameIssues_untouched spares)) untouched
    refine Table.filter_rekey renamed fun row mem hit => ?_
    have named : row.name = old := by simpa using hit
    exact ⟨by simp [named, spares.1], by simp [spares.2]⟩
  all_goals
    refine ⟨untouched.sound.of_same (frame.issues rfl) (frame.events rfl), ?_⟩
    rw [← untouched.same]
    exact tenant_eq (by rw [frame.projects rfl]) (by rw [issuesOf, (frame.issues rfl).1, issuesOf])
      (by rw [(frame.events rfl).1])

def perform (argon2 : Argon2) (db : Db) (call : World × Call) : Db := (exec argon2 call.1 call.2 db).2

/-- After any calls and, then, calls about other projects: the rows of the project are the same, and its deletion takes them
and no others away, in the numbers that a preview had told before the others' calls. -/
theorem deletion_is_exact (argon2 : Argon2) (calls others : List (World × Call)) (name : String) :
    let db := performAll (exec argon2) calls Db.empty
    let later := Machine.run (perform argon2) db others
    Machine.Permits (perform argon2) (fun db call => Spares name db call.2) db others →
      tenant name later = tenant name db ∧
        ∀ (now : UtcNow) (summary : DeleteSummary), deletePreview now name db = .ok (summary, db) →
          summary.issuesDeleted = (tenant name db).issues.length ∧ summary.eventsDeleted = (tenant name db).events.length ∧
          ∀ w : World, w.fault = none → exec argon2 w (.deleteProject name) later = (.ok summary, without name later) ∧
            tenant name (without name later) = ⟨[], [], []⟩ ∧
            ∀ other ≠ name, tenant other (without name later) = tenant other later := by
  intro db later spared
  have sound : Integrity db := performAll_invariant (exec argon2) Integrity (exec_integrity argon2) calls Integrity.empty
  have untouched : Untouched name (tenant name db) later :=
    Machine.run_invariant (Untouched name (tenant name db))
      (fun db call kept spares => exec_untouched argon2 call.1 spares kept) spared ⟨sound, rfl⟩
  refine ⟨untouched.same, fun now summary previewed => ?_⟩
  rw [deletePreview_eq] at previewed
  split_ifs at previewed with missing
  cases previewed
  refine ⟨rfl, rfl, fun w calm => ⟨?_, tenant_without name later, fun other apart => ?_⟩⟩
  · have done : deleteProject w.now name later =
        .ok (⟨(tenant name db).events.length, (tenant name db).issues.length⟩, without name later) := by
      rw [deleteProject_eq, untouched.same, if_neg missing]
    exact transact_of_ok calm done
  · have kept : Untouched other (tenant other later) later := ⟨untouched.sound, rfl⟩
    exact (kept.without apart.symm).same

def eventOf (project eventId : String) : BatchUpsertInput := ⟨⟨project, "f", "boom", none, none, noon.instant⟩, eventId, "\x7b\x7d"⟩

def twoProjects : List (World × Call) :=
  [(noonWorld 1, .createProject "web"), (noonWorld 2, .createProject "api"),
    (noonWorld 3, .upsertBatchWithEvents [eventOf "web" "e1", eventOf "api" "e2"])]

theorem deletion_is_exact_sample :
    let later := Machine.run (perform plainArgon2) (performAll (exec plainArgon2) twoProjects Db.empty)
      [(noonWorld 4, .upsertBatchWithEvents [eventOf "api" "e3"]), (noonWorld 5, .deleteProject "api")]
    (exec plainArgon2 (noonWorld 6) (.deleteProject "web") later).1 = .ok ⟨1, 1⟩ := by
  intro later
  have previewed : deletePreview noon "web" (performAll (exec plainArgon2) twoProjects Db.empty) =
      .ok (⟨1, 1⟩, performAll (exec plainArgon2) twoProjects Db.empty) := by
    have counts : (tenant "web" (performAll (exec plainArgon2) twoProjects Db.empty)).project.length = 1 ∧
        (tenant "web" (performAll (exec plainArgon2) twoProjects Db.empty)).events.length = 1 ∧
        (tenant "web" (performAll (exec plainArgon2) twoProjects Db.empty)).issues.length = 1 := by
      decide +kernel
    rw [deletePreview_eq, if_neg (fun none_ => by simp [none_] at counts), counts.2.1, counts.2.2]
  obtain ⟨-, -, exact_⟩ := (deletion_is_exact plainArgon2 twoProjects
    [(noonWorld 4, .upsertBatchWithEvents [eventOf "api" "e3"]), (noonWorld 5, .deleteProject "api")] "web"
    ⟨by simp [Spares, eventOf], by simp [Spares], trivial⟩).2 noon ⟨1, 1⟩ previewed
  exact congrArg Prod.fst (exact_ (noonWorld 6) rfl).1

end Errex.Proof.Tenants
