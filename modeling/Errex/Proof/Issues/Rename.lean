import Errex.Proof.Frame

/-!
# Renaming a project

The two updates of a rename are one transaction under two keys: the name of a project, and the
project with the fingerprint of an issue. Either both go through, or nothing has happened. The renamed
row is read back after the commit, where an error is about a rename that is there
(`renameProject_exact_iff`).
-/

namespace Errex.Proof.Issues
open Foundation Transaction Model Store

variable {db db' : Db} {now : UtcNow} {old new : String}

structure Renamed (old new : String) (db db' : Db) : Prop where
  projects : db'.projects.rows = db.projects.rows.map fun row =>
    if row.name = old then { row with name := new } else row
  issues : db'.issues.rows = db.issues.rows.map fun row =>
    if row.project = old then { row with project := new } else row
  rest : db' = { db with projects := db'.projects, issues := db'.issues }

/-- The name is taken, or an issue would meet one of the same fingerprint. -/
def Collides (old new : String) (db : Db) : Prop :=
  old ≠ new ∧ ((∃ row ∈ db.projects.rows, row.name = new) ∨
    ∃ a ∈ db.issues.rows, ∃ b ∈ db.issues.rows, a.project = old ∧ b.project = new ∧ a.fingerprint = b.fingerprint)

theorem renameProject_same (name : String) : renameProject now name name db =
    match db.projects.find? name with
    | some row => .ok (Project.ofRow now row, db)
    | none => .error (.notFound s!"project {name}") := by
  rw [renameProject, if_pos rfl, bind_run, projectByName, read_run]
  cases db.projects.find? name <;> rfl

theorem Renamed.refl (name : String) (db : Db) : Renamed name name db db where
  projects := by
    symm
    apply List.map_id''
    intro row
    split_ifs with same
    · rw [← same]
    · rfl
  issues := by
    symm
    apply List.map_id''
    intro row
    split_ifs with same
    · rw [← same]
    · rfl
  rest := rfl

theorem renameProject_updates (different : old ≠ new) {row : ProjectRow} (found : db.projects.find? old = some row) :
    renameProject now old new db =
      match db.projects.rekey (·.name == old) fun row => { row with name := new } with
      | none => .error (.sqlx .uniqueViolation)
      | some projects =>
          match db.issues.rekey (·.project == old) fun row => { row with project := new } with
          | none => .error (.sqlx .uniqueViolation)
          | some issues => .ok (Project.ofRow now { row with name := new }, { db with projects, issues }) := by
  rw [renameProject, if_neg different, bind_run, projectByName, read_run, found]
  simp only [Except.bind, Option.map_some, Option.isNone_some, Bool.false_eq_true, if_false]
  rw [bind_run, renameProjectRow]
  cases rekeyed : db.projects.rekey (·.name == old) fun row => { row with name := new } with
  | none => rfl
  | some projects =>
      simp only [Except.bind]
      rw [bind_run, renameIssues]
      cases db.issues.rekey (·.project == old) fun row => { row with project := new } with
      | none => rfl
      | some issues =>
          have moved : projects.find? new = some { row with name := new } := by
            have named : row.name = old := Table.key_of_find? found
            have mem : { row with name := new } ∈ projects.rows := by
              rw [Table.rows_of_rekey rekeyed]
              exact List.mem_map.mpr ⟨row, Table.mem_of_find? found, by simp [named]⟩
            exact Table.find?_of_mem mem
          simp only [Except.bind]
          rw [bind_run, projectByName, read_run]
          simp only [Except.bind, moved, Option.map_some]
          rfl

theorem rekey_iff (different : old ≠ new) {row : ProjectRow} (found : db.projects.find? old = some row) :
    ((∃ projects, db.projects.rekey (·.name == old) (fun row => { row with name := new }) = some projects) ∧
      ∃ issues, db.issues.rekey (·.project == old) (fun row => { row with project := new }) = some issues) ↔
      ¬ Collides old new db := by
  constructor
  · rintro ⟨⟨projects, renamed⟩, issues, moved⟩ ⟨-, taken | ⟨a, mem, b, mem', from_, at_, same⟩⟩
    · obtain ⟨taken, mem, named⟩ := taken
      have none_ : db.projects.rekey (·.name == old) (fun row => { row with name := new }) = none :=
        Table.rekey_eq_none (Table.mem_of_find? found) mem (by simpa using Table.key_of_find? found)
          (by simpa [named] using Ne.symm different) named.symm
      simp [none_] at renamed
    · have none_ : db.issues.rekey (·.project == old) (fun row => { row with project := new }) = none :=
        Table.rekey_eq_none mem mem' (by simpa using from_) (by simpa [at_] using Ne.symm different)
          (by simp [IssueRow.key, at_, same])
      simp [none_] at moved
  · intro clear
    constructor
    · apply Table.exists_rekey
      · rintro a - b mem - - rfl
        exact clear ⟨different, .inl ⟨b, mem, rfl⟩⟩
      · intro a b moves moves' _
        rw [show a.name = old by simpa using moves, show b.name = old by simpa using moves']
    · apply Table.exists_rekey
      · intro a mem b mem' moves _ same
        obtain ⟨at_, print⟩ := Prod.mk.inj same
        exact clear ⟨different, .inr ⟨a, mem, b, mem', by simpa using moves, at_.symm, print⟩⟩
      · intro a b moves moves' same
        have print : a.fingerprint = b.fingerprint := (Prod.mk.inj same).2
        rw [IssueRow.key, IssueRow.key, print, show a.project = old by simpa using moves,
          show b.project = old by simpa using moves']

theorem renameProject_renamed {project : Project} (done : renameProject now old new db = .ok (project, db')) :
    Renamed old new db db' ∧ ¬ Collides old new db ∧ ∃ row, db.projects.find? old = some row ∧
      project = Project.ofRow now { row with name := new } := by
  by_cases same : old = new
  · subst same
    rw [renameProject_same] at done
    cases found : db.projects.find? old with
    | none => simp [found] at done
    | some row =>
        rw [found] at done
        cases done
        have named : row.name = old := Table.key_of_find? found
        exact ⟨.refl old db, fun collides => collides.1 rfl, row, rfl, by rw [← named]⟩
  · cases found : db.projects.find? old with
    | none =>
        rw [renameProject, if_neg same, bind_run, projectByName, read_run, found] at done
        cases done
    | some row =>
        rw [renameProject_updates same found] at done
        split at done
        · cases done
        · rename_i projects renamed
          split at done
          · cases done
          · rename_i issues moved
            cases done
            refine ⟨⟨?_, ?_, rfl⟩, (rekey_iff same found).mp ⟨⟨_, renamed⟩, _, moved⟩, row, rfl, rfl⟩
            · simpa using Table.rows_of_rekey renamed
            · simpa using Table.rows_of_rekey moved

theorem renameProject_ok_iff : (∃ project db', renameProject now old new db = .ok (project, db')) ↔
    (∃ row, db.projects.find? old = some row) ∧ ¬ Collides old new db := by
  constructor
  · rintro ⟨project, db', done⟩
    obtain ⟨-, clear, row, found, -⟩ := renameProject_renamed done
    exact ⟨⟨row, found⟩, clear⟩
  · rintro ⟨⟨row, found⟩, clear⟩
    by_cases same : old = new
    · subst same
      exact ⟨_, db, by rw [renameProject_same, found]⟩
    · obtain ⟨⟨projects, renamed⟩, issues, moved⟩ := (rekey_iff same found).mpr clear
      exact ⟨_, _, by rw [renameProject_updates same found, renamed, moved]⟩

/-- What a call of `rename_project` came to is what its caller may take it for: the renamed project and the new name for the
old one, or an error and nothing changed, which a collision always is. -/
def RenamesExactly (now : UtcNow) (old new : String) (db : Db) (after : Except DaemonError Project × Db) : Prop :=
  ((∃ row, db.projects.find? old = some row ∧ after.1 = .ok (Project.ofRow now { row with name := new }) ∧
      Renamed old new db after.2) ∨
    (∃ error, after.1 = .error error) ∧ after.2 = db) ∧
    (Collides old new db → ∃ error, after.1 = .error error)

theorem Renamed.ne (renamed : Renamed old new db db') (different : old ≠ new) {row : ProjectRow}
    (found : db.projects.find? old = some row) : db' ≠ db := by
  rintro rfl
  have mem := Table.mem_of_find? found
  rw [renamed.projects] at mem
  obtain ⟨other, -, same⟩ := List.mem_map.mp mem
  have named : row.name = old := Table.key_of_find? found
  split_ifs at same with moved
  · exact different (named.symm.trans (congrArg ProjectRow.name same.symm))
  · exact moved (same ▸ named)

theorem renamesExactly_of_renamed {w : World} {row : ProjectRow} (found : db.projects.find? old = some row)
    (done : renameProject w.now old new db = .ok (Project.ofRow w.now { row with name := new }, db'))
    (renamed : Renamed old new db db') (clear : ¬ Collides old new db) :
    RenamesExactly w.now old new db (transact w (renameProject w.now old new) db) ↔
      (∀ error, w.fault ≠ some (.after error)) ∨ db' = db := by
  have others : Collides old new db → ∃ error, (transact w (renameProject w.now old new) db).1 = .error error :=
    fun collides => absurd collides clear
  rcases fault : w.fault with _ | error | error
  · have through : transact w (renameProject w.now old new) db = (.ok (Project.ofRow w.now { row with name := new }), db') := by
      rw [transact, done, fault]
    refine iff_of_true ⟨.inl ?_, others⟩ (.inl fun error same => by cases same)
    rw [through]
    exact ⟨row, found, rfl, renamed⟩
  · have lost : transact w (renameProject w.now old new) db = (.error error, db) := by
      rw [transact, done, fault]
    refine iff_of_true ⟨.inr ?_, others⟩ (.inl fun error same => by cases same)
    rw [lost]
    exact ⟨⟨error, rfl⟩, rfl⟩
  · have late : transact w (renameProject w.now old new) db = (.error error, db') := by
      rw [transact, done, fault]
    constructor
    · rintro ⟨⟨row, -, answer, -⟩ | ⟨-, same⟩, -⟩
      · rw [late] at answer
        cases answer
      · rw [late] at same
        exact .inr same
    · rintro (kept | same)
      · exact absurd rfl (kept error)
      · refine ⟨.inr ?_, others⟩
        rw [late]
        exact ⟨⟨error, rfl⟩, same⟩

/-- The call does so exactly unless the database fails on the read-back after the commit of a rename that went through and
changed something. -/
theorem renameProject_exact_iff (argon2 : Argon2) (w : World) (db : Db) (old new : String) :
    RenamesExactly w.now old new db (exec argon2 w (.renameProject old new) db) ↔
      (∀ error, w.fault ≠ some (.after error)) ∨ old = new ∨ db.projects.find? old = none ∨ Collides old new db := by
  show RenamesExactly w.now old new db (transact w (renameProject w.now old new) db) ↔ _
  cases result : renameProject w.now old new db with
  | error error =>
      have lost : transact w (renameProject w.now old new) db = (.error error, db) := by
        rw [transact, result]
      refine iff_of_true ?_ (.inr (.inr ?_))
      · rw [lost]
        exact ⟨.inr ⟨⟨error, rfl⟩, rfl⟩, fun _ => ⟨error, rfl⟩⟩
      · by_contra free
        rw [not_or] at free
        obtain ⟨row, found⟩ := Option.ne_none_iff_exists'.mp free.1
        obtain ⟨project, db', done⟩ := renameProject_ok_iff.mpr ⟨⟨row, found⟩, free.2⟩
        cases result.symm.trans done
  | ok r =>
      obtain ⟨project, db'⟩ := r
      obtain ⟨renamed, clear, row, found, rfl⟩ := renameProject_renamed result
      rw [renamesExactly_of_renamed found result renamed clear]
      by_cases same : old = new
      · subst same
        rw [renameProject_same, found] at result
        cases result
        simp
      · have changed : db' ≠ db := renamed.ne same found
        simp [changed, same, found, clear]

def webDb : Db := performAll (exec plainArgon2)
  [(noonWorld 0, .createProject "web"), (noonWorld 1, .upsertIssue ⟨"web", "f", "boom", none, none, noon.instant⟩)] Db.empty

theorem collides_webDb : ¬ Collides "web" "app" webDb := by
  have apart : (webDb.projects.rows.all (·.name != "app") && webDb.issues.rows.all (·.project != "app")) = true := by
    decide +kernel
  simp only [Bool.and_eq_true, List.all_eq_true, bne_iff_ne] at apart
  rintro ⟨-, ⟨row, mem, named⟩ | ⟨-, -, b, mem, -, named, -⟩⟩
  · exact apart.1 row mem named
  · exact apart.2 b mem named

theorem renameProject_exact_calm :
    let after := exec plainArgon2 (noonWorld 2) (.renameProject "web" "app") webDb
    RenamesExactly noon "web" "app" webDb after ∧ after.2.issues.rows.map (·.project) = ["app"] :=
  ⟨(renameProject_exact_iff plainArgon2 (noonWorld 2) webDb "web" "app").mpr (.inl nofun), by decide +kernel⟩

/-- The read-back fails, and the answer is an error about a rename that is there. -/
theorem renameProject_fails_after : ¬ ∀ (argon2 : Argon2) (w : World) (db : Db) (old new : String),
    RenamesExactly w.now old new db (exec argon2 w (.renameProject old new) db) := by
  intro exact_
  let w : World := { noonWorld 2 with fault := some (.after (.sqlx (.other "pool timed out"))) }
  have found : (webDb.projects.find? "web").isSome := by decide +kernel
  obtain ⟨project, db', done⟩ : ∃ project db', renameProject w.now "web" "app" webDb = .ok (project, db') :=
    renameProject_ok_iff.mpr ⟨Option.isSome_iff_exists.mp found, collides_webDb⟩
  obtain ⟨renamed, clear, row, found, rfl⟩ := renameProject_renamed done
  rcases (renamesExactly_of_renamed (w := w) found done renamed clear).mp (exact_ plainArgon2 w webDb "web" "app") with
    kept | same
  · exact kept _ rfl
  · exact renamed.ne (by decide) found same

end Errex.Proof.Issues
