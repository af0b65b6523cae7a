import Errex.Model.Api
import Errex.Proof.Accounts.Operations

/-!
# Reads that a handler expects to succeed

A handler that has just seen a row reads it once more and panics when it is gone. `Careful` says of
a handler that it panics in no other way; there is a rule for each way to build a handler.
-/

namespace Errex.Proof.Accounts
open Foundation Model Store Auth Admin Process

variable {α β : Type} {argon2 : Argon2}

inductive Row where
  | user (username : String)
  | project (name : String)

def Row.stored : Row → Db → Bool
  | .user username, db => (db.users.find? username).isSome
  | .project name, db => (db.projects.find? name).isSome

/-- The process is about to read the row, and panics when it is gone. -/
def Expects (row : Row) : Handler α → Prop
  | .call (.getUser username) resume => row = .user username ∧ resume (.ok none) = .panic
  | .call (.projectByName name) resume => row = .project name ∧ resume (.ok none) = .panic
  | _ => False

def Met (db : Db) (p : Handler α) : Prop := p ≠ .panic ∧ ∀ row, Expects row p → row.stored db

/-- Started where `pre` holds, the process meets every row it expects unless others remove it. -/
def Careful (argon2 : Argon2) (pre : Db → Prop) (p : Handler α) : Prop :=
  (∀ db, pre db → Met db p) ∧ System.Upholds (exec argon2) (fun _ => True) Met p

abbrev Anywhere (_ : Db) : Prop := True

theorem setUserPassword_stored {username hash : String} {db db' : Db} {done : Unit}
    (ok : setUserPassword username hash db = .ok (done, db')) : (Row.user username).stored db' := by
  obtain ⟨updated, rfl⟩ := execute_check_ok ok
  exact updateUser_found updated

theorem setUserRole_stored {username : String} {role : Role} {db db' : Db} {done : Unit}
    (ok : setUserRole username role db = .ok (done, db')) : (Row.user username).stored db' := by
  obtain ⟨updated, rfl⟩ := execute_check_ok ok
  exact updateUser_found updated

theorem setUserDeactivated_stored {now : UtcNow} {username : String} {deactivated : Bool} {db db' : Db}
    {done : Unit} (ok : setUserDeactivated now username deactivated db = .ok (done, db')) :
    (Row.user username).stored db' := by
  obtain ⟨updated, rfl⟩ := setUserDeactivated_ok ok
  split_ifs <;> exact updateUser_found updated

theorem createSession_stored {now : UtcNow} {id username : String} {ip ua : Option String} {db db' : Db}
    {session : Session} (ok : createSession now id username ip ua db = .ok (session, db')) :
    (Row.user username).stored db' := by
  simp only [createSession] at ok
  split at ok
  · cases ok
  · split_ifs at ok with known
    cases ok
    exact known

theorem setProjectWebhook_stored {name : String} {url : Option String} {db db' : Db} {done : Unit}
    (ok : setProjectWebhook name url db = .ok (done, db')) : (Row.project name).stored db' := by
  obtain ⟨updated, rfl⟩ := execute_check_ok ok
  obtain ⟨row, mem, same⟩ := List.countP_pos_iff.mp (Nat.pos_of_ne_zero updated)
  obtain rfl : row.name = name := by simpa using same
  have found : db.projects.find? row.name = some row := Table.find?_of_mem mem
  simp [Row.stored, Table.find?_update (withWebhook_name url), found]

theorem getUser_stored {now : UtcNow} {username : String} {db db' : Db} {user : User}
    (ok : getUser now username db = .ok (some user, db')) : (Row.user username).stored db' := by
  simp only [getUser, Transaction.read_run, Except.ok.injEq, Prod.mk.injEq, Option.map_eq_some_iff] at ok
  obtain ⟨⟨row, found, -⟩, rfl⟩ := ok
  simp [Row.stored, found]

section Rules

variable {pre : Db → Prop}

theorem Careful.ret (a : α) : Careful argon2 pre (.ret a : Handler α) := ⟨fun _ _ => ⟨nofun, nofun⟩, trivial⟩

theorem Careful.throw (e : DaemonError) : Careful argon2 pre (.throw e : Handler α) :=
  ⟨fun _ _ => ⟨nofun, nofun⟩, trivial⟩

theorem Careful.ite {condition : Prop} [Decidable condition] {p q : Handler α}
    (yes : condition → Careful argon2 pre p) (no : ¬condition → Careful argon2 pre q) :
    Careful argon2 pre (if condition then p else q) := by
  split_ifs with holds
  · exact yes holds
  · exact no holds

theorem Careful.call {c : Call} {resume : c.Reply → Handler α} (quiet : ∀ row, ¬ Expects row (.call c resume))
    (rest : ∀ w db, ∃ post : Db → Prop, post (exec argon2 w c db).2 ∧
      Careful argon2 post (resume (exec argon2 w c db).1)) : Careful argon2 pre (.call c resume) := by
  refine ⟨fun db _ => ⟨nofun, fun row expects => (quiet row expects).elim⟩, ?_⟩
  intro w db _ _
  obtain ⟨post, holds, met, upholds⟩ := rest w db
  exact ⟨trivial, met _ holds, upholds⟩

theorem Careful.ask {c : Call} {f : c.Reply → Handler α}
    (rest : ∀ reply, Careful argon2 Anywhere (f reply)) :
    Careful argon2 pre (Model.ask c >>= f) := by
  have quiet : ∀ row, ¬ Expects row (.call c f) := by
    intro row expects
    cases c <;> simp only [Expects] at expects
    case getUser => exact ((rest (.ok none)).1 Db.empty trivial).1 expects.2
    case projectByName => exact ((rest (.ok none)).1 Db.empty trivial).1 expects.2
  exact .call quiet fun w db => ⟨_, trivial, rest _⟩

theorem Careful.ofExcept {r : Except DaemonError α} {f : α → Handler β} (rest : ∀ a, Careful argon2 pre (f a)) :
    Careful argon2 pre (Process.ofExcept r >>= f) := by
  cases r with
  | ok a => exact rest a
  | error error => exact .throw error

theorem Careful.ofOption {o : Option α} {f : α → Handler β} (some : o.isSome)
    (rest : ∀ a, Careful argon2 pre (f a)) : Careful argon2 pre (Process.ofOption o >>= f) := by
  obtain ⟨a, rfl⟩ := Option.isSome_iff_exists.mp some
  exact rest a

theorem Careful.weaken {p : Handler α} (careful : Careful argon2 Anywhere p) : Careful argon2 pre p :=
  ⟨fun db _ => careful.1 db trivial, careful.2⟩

theorem expects_bind_iff {c : Call} (resume : c.Reply → Handler α) {f : α → Handler β}
    (calm : ∀ a, f a ≠ .panic) (row : Row) :
    Expects row (.call c fun reply => resume reply >>= f) ↔ Expects row (.call c resume) := by
  have panics : ∀ {q : Handler α}, q >>= f = .panic ↔ q = .panic := by
    intro q
    cases q <;> simp [calm]
  cases c <;> simp only [Expects]
  case getUser => rw [panics]
  case projectByName => rw [panics]

theorem Careful.bind {p : Handler α} {f : α → Handler β} (first : Careful argon2 pre p)
    (rest : ∀ a, Careful argon2 Anywhere (f a)) : Careful argon2 pre (p >>= f) := by
  have calm : ∀ a, f a ≠ .panic := fun a => ((rest a).1 Db.empty trivial).1
  induction p generalizing pre with
  | ret a => exact (rest a).weaken
  | throw error => exact .throw error
  | panic => exact ⟨fun db holds => ((first.1 db holds).1 rfl).elim, trivial⟩
  | call c resume ih =>
      have same := expects_bind_iff resume calm
      refine ⟨fun db holds => ⟨nofun, fun row expects => (first.1 db holds).2 row ((same row).mp expects)⟩, ?_⟩
      intro w db _ met
      obtain ⟨-, after, upholds⟩ :=
        first.2 w db trivial ⟨nofun, fun row expects => met.2 row ((same row).mpr expects)⟩
      have first : Careful argon2 (· = (exec argon2 w c db).2) (resume (exec argon2 w c db).1) :=
        ⟨fun db' same => same ▸ after, upholds⟩
      have careful := ih _ first
      exact ⟨trivial, careful.1 _ rfl, careful.2⟩

theorem Careful.answer {r : Except DaemonError α} : Careful argon2 pre (Process.ofExcept r) := by
  cases r with
  | ok a => exact .ret a
  | error error => exact .throw error

theorem careful_transact (tx : Tx α) {f : α → Handler β} {w : World} {db : Db}
    (rest : ∀ a db', tx db = .ok (a, db') → ∃ post : Db → Prop, post db' ∧ Careful argon2 post (f a)) :
    ∃ post : Db → Prop, post (transact w tx db).2 ∧
      Careful argon2 post (Process.ofExcept (transact w tx db).1 >>= f) := by
  cases answer : (transact w tx db).1 with
  | error error => exact ⟨Anywhere, trivial, .throw error⟩
  | ok a => exact rest a _ (transact_ok answer)

theorem careful_expected (tx : Tx (Option α)) {f : α → Handler β} {w : World} {db : Db}
    (found : ∀ answer db', tx db = .ok (answer, db') → answer.isSome)
    (rest : ∀ a db', tx db = .ok (some a, db') → ∃ post : Db → Prop, post db' ∧ Careful argon2 post (f a)) :
    let p := Process.ofExcept (transact w tx db).1 >>= fun answer => Process.ofOption answer >>= f
    Met (transact w tx db).2 p ∧ System.Upholds (exec argon2) (fun _ => True) Met p := by
  cases answer : (transact w tx db).1 with
  | error error => exact ⟨⟨nofun, nofun⟩, trivial⟩
  | ok a =>
      have ok := transact_ok answer
      obtain ⟨row, rfl⟩ := Option.isSome_iff_exists.mp (found _ _ ok)
      obtain ⟨post, holds, careful⟩ := rest row _ ok
      exact ⟨careful.1 _ holds, careful.2⟩

theorem Careful.expectUser {username : String} {f : User → Handler α}
    (rest : ∀ user, Careful argon2 (fun db => (Row.user username).stored db) (f user)) :
    Careful argon2 (fun db => (Row.user username).stored db) (do
      f (← Process.ofOption (← Process.ofExcept (← Model.ask (.getUser username))))) := by
  refine ⟨fun db stored => ⟨nofun, fun row expects => expects.1 ▸ stored⟩, ?_⟩
  intro w db _ met
  have stored : (Row.user username).stored db := met.2 _ ⟨rfl, rfl⟩
  refine ⟨trivial, careful_expected (getUser w.now username) ?_ fun user db' ok => ?_⟩
  · intro answer db' read
    cases read
    simpa [Row.stored] using stored
  · exact ⟨_, getUser_stored ok, rest user⟩

theorem Careful.expectProject {name : String} {f : Project → Handler α}
    (rest : ∀ project, Careful argon2 Anywhere (f project)) :
    Careful argon2 (fun db => (Row.project name).stored db) (do
      f (← Process.ofOption (← Process.ofExcept (← Model.ask (.projectByName name))))) := by
  refine ⟨fun db stored => ⟨nofun, fun row expects => expects.1 ▸ stored⟩, ?_⟩
  intro w db _ met
  have stored : (Row.project name).stored db := met.2 _ ⟨rfl, rfl⟩
  refine ⟨trivial, careful_expected (projectByName w.now name) ?_ fun project db' ok => ?_⟩
  · intro answer db' read
    cases read
    simpa [Row.stored] using stored
  · exact ⟨_, trivial, rest project⟩

end Rules

section Calls

variable {pre : Db → Prop}

theorem Careful.getUser {username : String} {f : Option User → Handler α} (absent : Careful argon2 Anywhere (f none))
    (present : ∀ user, Careful argon2 (fun db => (Row.user username).stored db) (f (some user))) :
    Careful argon2 pre (do f (← Process.ofExcept (← Model.ask (.getUser username)))) := by
  rw [ask_bind]
  refine .call (fun row expects => (absent.1 Db.empty trivial).1 expects.2) fun w db => ?_
  refine careful_transact (Store.getUser w.now username) fun answer db' ok => ?_
  cases answer with
  | none => exact ⟨_, trivial, absent⟩
  | some user => exact ⟨_, getUser_stored ok, present user⟩

theorem Careful.setUserPassword {username hash : String} {f : Unit → Handler α}
    (rest : Careful argon2 (fun db => (Row.user username).stored db) (f ())) :
    Careful argon2 pre (do f (← Process.ofExcept (← Model.ask (.setUserPassword username hash)))) := by
  rw [ask_bind]
  exact .call (fun _ expects => expects) fun w _ => careful_transact _ fun _ _ ok => ⟨_, setUserPassword_stored ok, rest⟩

theorem Careful.setUserRole {username : String} {role : Role} {f : Unit → Handler α}
    (rest : Careful argon2 (fun db => (Row.user username).stored db) (f ())) :
    Careful argon2 pre (do f (← Process.ofExcept (← Model.ask (.setUserRole username role)))) := by
  rw [ask_bind]
  exact .call (fun _ expects => expects) fun w _ => careful_transact _ fun _ _ ok => ⟨_, setUserRole_stored ok, rest⟩

theorem Careful.setUserDeactivated {username : String} {deactivated : Bool} {f : Unit → Handler α}
    (rest : Careful argon2 (fun db => (Row.user username).stored db) (f ())) :
    Careful argon2 pre (do f (← Process.ofExcept (← Model.ask (.setUserDeactivated username deactivated)))) := by
  rw [ask_bind]
  exact .call (fun _ expects => expects) fun w _ => careful_transact _ fun _ _ ok => ⟨_, setUserDeactivated_stored ok, rest⟩

theorem Careful.createSession {id username : String} {ip ua : Option String} {f : Session → Handler α}
    (rest : ∀ session, Careful argon2 (fun db => (Row.user username).stored db) (f session)) :
    Careful argon2 pre (do f (← Process.ofExcept (← Model.ask (.createSession id username ip ua)))) := by
  rw [ask_bind]
  exact .call (fun _ expects => expects) fun w _ =>
    careful_transact _ fun session _ ok => ⟨_, createSession_stored ok, rest session⟩

theorem Careful.setProjectWebhook {name : String} {url : Option String}
    {f : Except DaemonError Unit → Handler α}
    (done : Careful argon2 (fun db => (Row.project name).stored db) (f (.ok ())))
    (failed : ∀ error, Careful argon2 Anywhere (f (.error error))) :
    Careful argon2 pre (do f (← Model.ask (.setProjectWebhook name url))) := by
  rw [ask_bind]
  refine .call (fun _ expects => expects) fun w db => ?_
  simp only [exec]
  cases answer : (transact w (Store.setProjectWebhook name url) db).1 with
  | ok _ => exact ⟨_, setProjectWebhook_stored (transact_ok answer), done⟩
  | error error => exact ⟨_, trivial, failed error⟩

theorem Careful.generateSessionId {f : Call.generateSessionId.Reply → Handler α}
    (rest : ∀ uuid uuid', Careful argon2 Anywhere (f (Model.generateSessionId uuid uuid'))) :
    Careful argon2 pre (Model.ask .generateSessionId >>= f) := by
  rw [ask_bind]
  exact .call (fun _ expects => expects) fun w _ => ⟨_, trivial, rest w.uuid w.uuid'⟩

end Calls

end Errex.Proof.Accounts
