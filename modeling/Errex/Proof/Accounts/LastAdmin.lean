import Errex.Model.Api
import Errex.Proof.Accounts.Operations

/-!
# The last active admin

A request checks that another active admin remains and then demotes, deactivates or deletes a user
in later calls. An active admin remains throughout unless another request takes that other admin
away in between (`run_keeps_active_admin`).
-/

namespace Errex.Proof.Accounts
open Foundation Model Store Auth Admin Process

variable {α β : Type} {argon2 : Argon2} {db : Db}

def ActiveAdmin (username : String) (db : Db) : Prop :=
  ∃ row, db.users.find? username = some row ∧ isActiveAdmin row

def HasActiveAdmin (db : Db) : Prop := ∃ username, ActiveAdmin username db

def HasOther (u : String) (db : Db) : Prop := ∃ username, username ≠ u ∧ ActiveAdmin username db

theorem HasOther.hasActiveAdmin {u : String} (other : HasOther u db) : HasActiveAdmin db := by
  obtain ⟨username, -, active⟩ := other
  exact ⟨username, active⟩

theorem hasOther_of_count {u : String} (several : 1 < db.users.count isActiveAdmin) : HasOther u db := by
  by_contra alone
  have all : ∀ row ∈ db.users.rows, isActiveAdmin row → decide (row.username = u) := by
    intro row mem active
    by_contra different
    exact alone ⟨row.username, by simpa using different, row, Table.find?_of_mem mem, active⟩
  have bound : db.users.count isActiveAdmin ≤ 1 := by
    refine (List.countP_mono_left all).trans ?_
    rw [List.countP_eq_length_filter, Table.filter_key]
    cases db.users.find? u <;> simp
  omega

def takes (u : String) : Call → Bool
  | .deleteUser username => username == u
  | .setUserRole username role => username == u && role != .admin
  | .setUserDeactivated username deactivated => username == u && deactivated
  | _ => false

theorem ActiveAdmin.updateUser {v username : String} {change : UserChange} (active : ActiveAdmin v db)
    (keeps : username = v → ∀ row, isActiveAdmin row → isActiveAdmin (change.apply row)) :
    ActiveAdmin v (Store.updateUser username change db).2 := by
  obtain ⟨row, found, standing⟩ := active
  rw [ActiveAdmin, find?_updateUser]
  split_ifs with same
  · exact ⟨change.apply row, by rw [found, Option.map_some], keeps same row standing⟩
  · exact ⟨row, found, standing⟩

theorem ActiveAdmin.of_users {v : String} {db' : Db} (active : ActiveAdmin v db) (same : db'.users = db.users) :
    ActiveAdmin v db' := by
  rwa [ActiveAdmin, same]

theorem exec_keeps_admin {w : World} {c : Call} {v : String} (spares : takes v c = false)
    (active : ActiveAdmin v db) : ActiveAdmin v (exec argon2 w c db).2 := by
  have frame := exec_frame argon2 w c db
  cases c
  case createUser username hash role =>
    refine transact_keeps (createUser_keeps fun row users db inserted _ _ _ active => ?_) active
    obtain ⟨before, found, standing⟩ := active
    exact ⟨before, Table.find?_of_insert_of_found inserted found, standing⟩
  case setUserPassword username hash =>
    exact transact_keeps (execute_check_keeps fun _ active => active.updateUser fun _ _ h => h) active
  case setUserRole username role =>
    refine transact_keeps (execute_check_keeps fun _ active => active.updateUser fun same row standing => ?_) active
    have admin : role = .admin := by simpa [takes, same] using spares
    simp only [isActiveAdmin, Bool.and_eq_true] at standing
    simp [UserChange.apply, isActiveAdmin, admin, standing.2]
  case setUserDeactivated username deactivated =>
    refine transact_keeps (setUserDeactivated_keeps (fun _ active => active.updateUser fun same row standing => ?_)
      fun _ active => active.of_users rfl) active
    have reactivated : deactivated = false := by simpa [takes, same] using spares
    simp only [isActiveAdmin, Bool.and_eq_true] at standing
    simp [UserChange.apply, isActiveAdmin, reactivated, standing.1]
  case deleteUser username =>
    refine transact_keeps (execute_check_keeps fun db active => ?_) active
    have other : username ≠ v := by simpa [takes] using spares
    obtain ⟨row, found, standing⟩ := active
    exact ⟨row, ((find?_deleteUserRow username db v).trans (if_neg other)).trans found, standing⟩
  case touchUserLogin username ip =>
    exact transact_keeps (.bind (.execute fun _ active => active.updateUser fun _ _ h => h) fun _ => .pure _) active
  all_goals exact active.of_users (frame.users rfl)

def unchecked : Call → Bool
  | .hashPassword _ | .setUserPassword _ _ | .setUserRole _ _ | .setUserDeactivated _ _ => true
  | _ => false

def Pending (u : String) : Handler α → Prop
  | .call c resume => takes u c ∨ unchecked c ∧ ∃ reply, Pending u (resume reply)
  | _ => False

/-- Whom the process is still to take, there is another active admin. -/
def Guarded (db : Db) (p : Handler α) : Prop := ∀ u, Pending u p → HasOther u db

abbrev AnyDb (_ : Db) : Prop := True

/-- Started where `pre` holds, the process leaves an active admin unless others interfere. -/
def Guarding (argon2 : Argon2) (pre : Db → Prop) (p : Handler α) : Prop :=
  (∀ db, HasActiveAdmin db → pre db → Guarded db p) ∧ System.Upholds (exec argon2) HasActiveAdmin Guarded p

section Rules

variable {pre : Db → Prop}

theorem Guarding.ret (a : α) : Guarding argon2 pre (.ret a : Handler α) := ⟨fun _ _ _ _ => False.elim, trivial⟩

theorem Guarding.throw (e : DaemonError) : Guarding argon2 pre (.throw e : Handler α) :=
  ⟨fun _ _ _ _ => False.elim, trivial⟩

theorem Guarding.panic : Guarding argon2 pre (.panic : Handler α) := ⟨fun _ _ _ _ => False.elim, trivial⟩

theorem Guarding.ofExcept {r : Except DaemonError α} {f : α → Handler β} (rest : ∀ a, Guarding argon2 pre (f a)) :
    Guarding argon2 pre (Process.ofExcept r >>= f) := by
  cases r with
  | ok a => exact rest a
  | error error => exact .throw error

theorem Guarding.ite {condition : Prop} [Decidable condition] {p q : Handler α}
    (yes : condition → Guarding argon2 pre p) (no : ¬condition → Guarding argon2 pre q) :
    Guarding argon2 pre (if condition then p else q) := by
  split_ifs with holds
  · exact yes holds
  · exact no holds

theorem Guarding.call {c : Call} {resume : c.Reply → Handler α} (checked : unchecked c = false)
    (spares : ∀ u, takes u c = false)
    (rest : ∀ w db, HasActiveAdmin db → ∃ post : Db → Prop, post (exec argon2 w c db).2 ∧
      Guarding argon2 post (resume (exec argon2 w c db).1)) : Guarding argon2 pre (.call c resume) := by
  refine ⟨fun db _ _ u pending => ?_, ?_⟩
  · simp [Pending, checked, spares] at pending
  · intro w db active _
    obtain ⟨v, admin⟩ := active
    obtain ⟨post, holds, guards, upholds⟩ := rest w db ⟨v, admin⟩
    have active' : HasActiveAdmin (exec argon2 w c db).2 := ⟨v, exec_keeps_admin (spares v) admin⟩
    exact ⟨active', guards _ active' holds, upholds⟩

theorem Guarding.ask {c : Call} {f : c.Reply → Handler α} (checked : unchecked c = false)
    (spares : ∀ u, takes u c = false) (rest : ∀ reply, Guarding argon2 AnyDb (f reply)) :
    Guarding argon2 pre (Model.ask c >>= f) := by
  rw [ask_bind]
  exact .call checked spares fun w db _ => ⟨_, trivial, rest _⟩

theorem Guarding.bind {p : Handler α} {f : α → Handler β}
    (checks : p.Calls fun c => unchecked c = false ∧ ∀ u, takes u c = false)
    (rest : ∀ a, Guarding argon2 AnyDb (f a)) : Guarding argon2 AnyDb (p >>= f) := by
  induction p with
  | ret a => exact rest a
  | throw error => exact .throw error
  | panic => exact .panic
  | call c resume ih =>
      obtain ⟨⟨checked, spares⟩, more⟩ := checks
      exact .call checked spares fun w db _ => ⟨_, trivial, ih _ (more _)⟩

structure About (argon2 : Argon2) (u : String) (harmful : Prop) (p : Handler α) : Prop where
  pending : ∀ u', Pending u' p → u' = u ∧ harmful
  upholds : System.Upholds (exec argon2) HasActiveAdmin Guarded p

theorem About.ret {u : String} {harmful : Prop} (a : α) : About argon2 u harmful (.ret a : Handler α) := ⟨fun _ => False.elim, trivial⟩

theorem About.throw {u : String} {harmful : Prop} (e : DaemonError) : About argon2 u harmful (.throw e : Handler α) :=
  ⟨fun _ => False.elim, trivial⟩

theorem About.panic {u : String} {harmful : Prop} : About argon2 u harmful (.panic : Handler α) := ⟨fun _ => False.elim, trivial⟩

theorem About.ofExcept {u : String} {harmful : Prop} {r : Except DaemonError α} {f : α → Handler β}
    (rest : ∀ a, About argon2 u harmful (f a)) : About argon2 u harmful (Process.ofExcept r >>= f) := by
  cases r with
  | ok a => exact rest a
  | error error => exact .throw error

theorem About.ask {u : String} {harmful : Prop} {c : Call} {f : c.Reply → Handler α} (target : ∀ v, takes v c → v = u ∧ harmful)
    (rest : ∀ reply, About argon2 u harmful (f reply))
    (blind : unchecked c ∨ ∀ reply u', ¬ Pending u' (f reply)) : About argon2 u harmful (Model.ask c >>= f) := by
  have stays : ∀ {v db w}, v ≠ u → ActiveAdmin v db → ActiveAdmin v (exec argon2 w c db).2 := by
    intro v db w other active
    refine exec_keeps_admin ?_ active
    by_contra taken
    exact other (target v (by simpa using taken)).1
  rw [ask_bind]
  refine ⟨fun u' pending => ?_, ?_⟩
  · rcases pending with taken | ⟨-, reply, pending⟩
    · exact target u' taken
    · exact (rest reply).pending u' pending
  · intro w db active guarded
    have others : Pending u (.call c f) → HasOther u (exec argon2 w c db).2 := by
      intro pending
      obtain ⟨v, other, admin⟩ := guarded u pending
      exact ⟨v, other, stays other admin⟩
    refine ⟨?_, fun u' pending => ?_, (rest _).upholds⟩
    · cases taken : takes u c with
      | true => exact (others (.inl taken)).hasActiveAdmin
      | false =>
          obtain ⟨v, admin⟩ := active
          by_cases same : v = u
          · exact ⟨v, exec_keeps_admin (same ▸ taken) admin⟩
          · exact ⟨v, stays same admin⟩
    · obtain ⟨rfl, -⟩ := (rest _).pending u' pending
      rcases blind with blind | done
      · exact others (.inr ⟨blind, _, pending⟩)
      · exact (done _ _ pending).elim

theorem About.ifSome {u : String} {harmful : Prop} {field : Option α} {write : α → Handler Unit} {f : Unit → Handler β}
    (yes : ∀ a, field = some a → About argon2 u harmful (write a >>= f)) (no : About argon2 u harmful (f ())) :
    About argon2 u harmful (ifSome field write >>= f) := by
  cases field with
  | none => exact no
  | some a => exact yes a rfl

end Rules

section Handlers

theorem checkAdmin_guarding {headers : HeaderMap} {rest : Handler Response}
    (guarding : Guarding argon2 AnyDb rest) : Guarding argon2 AnyDb (checkAdmin headers rest) := by
  refine .bind ?_ fun result => ?_
  · unfold requireAdmin requireAuth
    split
    · exact trivial
    · refine ⟨⟨rfl, fun _ => rfl⟩, fun reply => ?_⟩
      rcases reply with error | _ | ⟨session, role, deactivated⟩
      · exact trivial
      · exact trivial
      · exact ⟨⟨rfl, fun _ => rfl⟩, fun _ => trivial⟩
  · cases result with
    | error response => exact .ret _
    | ok ctx => exact guarding

def harmful (body : PatchUserBody) : Prop := body.role.any (· != .admin) ∨ body.deactivated = some true

theorem applyPatch_about (u : String) (body : PatchUserBody) :
    About argon2 u (harmful body) (applyPatch u body) := by
  have final : About argon2 u (harmful body) (do
      let updated ← Process.ofOption (← Process.ofExcept (← ask (.getUser u)))
      return Response.json 200 (.user updated)) := by
    refine .ask (by simp [takes]) (fun reply => .ofExcept fun found => ?_) (.inr fun reply u' => ?_)
    · cases found with
      | none => exact .panic
      | some user => exact .ret _
    · rcases reply with error | _ | user <;> exact id
  have deactivating : About argon2 u (harmful body) (do
      ifSome body.deactivated fun deact => do ofExcept (← ask (.setUserDeactivated u deact))
      let updated ← Process.ofOption (← Process.ofExcept (← ask (.getUser u)))
      return Response.json 200 (.user updated)) := by
    refine .ifSome (fun deact set => ?_) final
    rw [bind_assoc]
    refine .ask (fun v taken => ?_) (fun reply => .ofExcept fun _ => final) (.inl rfl)
    simp only [takes, Bool.and_eq_true, beq_iff_eq] at taken
    exact ⟨taken.1.symm, .inr (by rw [set, taken.2])⟩
  have demoting : About argon2 u (harmful body) (do
      ifSome body.role fun role => do ofExcept (← ask (.setUserRole u role))
      ifSome body.deactivated fun deact => do ofExcept (← ask (.setUserDeactivated u deact))
      let updated ← Process.ofOption (← Process.ofExcept (← ask (.getUser u)))
      return Response.json 200 (.user updated)) := by
    refine .ifSome (fun role set => ?_) deactivating
    rw [bind_assoc]
    refine .ask (fun v taken => ?_) (fun reply => .ofExcept fun _ => deactivating) (.inl rfl)
    simp only [takes, Bool.and_eq_true, beq_iff_eq] at taken
    exact ⟨taken.1.symm, .inl (by rw [set]; exact taken.2)⟩
  refine .ifSome (fun p _ => ?_) demoting
  rw [bind_assoc]
  refine .ask (by simp [takes]) (fun reply => ?_) (.inl rfl)
  rw [bind_assoc]
  refine .ofExcept fun hash => ?_
  rw [bind_assoc]
  exact .ask (by simp [takes]) (fun reply => .ofExcept fun _ => demoting) (.inl rfl)

theorem getUser_row {w : World} {username : String} {user : User}
    (answer : (exec argon2 w (.getUser username) db).1 = .ok (some user)) :
    ∃ row, (exec argon2 w (.getUser username) db).2.users.find? username = some row ∧
      user = User.ofRow w.now row := by
  have ok := transact_ok answer
  simp only [getUser, Transaction.read_run, Except.ok.injEq, Prod.mk.injEq, Option.map_eq_some_iff] at ok
  obtain ⟨⟨row, found, rfl⟩, same⟩ := ok
  exact ⟨row, by rw [same] at found; exact found, rfl⟩

theorem countActiveAdmins_answer {w : World} {admins : Nat} (u : String)
    (answer : (exec argon2 w .countActiveAdmins db).1 = .ok admins) (several : 1 < admins) :
    HasOther u (exec argon2 w .countActiveAdmins db).2 := by
  have ok := transact_ok answer
  simp only [countActiveAdmins, Transaction.read_run, Except.ok.injEq, Prod.mk.injEq] at ok
  obtain ⟨rfl, same⟩ := ok
  exact hasOther_of_count (by rwa [same] at several)

theorem lastAdmin_guarding {pre : Db → Prop} (u : String) {refusal : Response} {p : Handler Response}
    (rest : Guarding argon2 (HasOther u) p) :
    Guarding argon2 pre (do
      let admins ← Process.ofExcept (← ask .countActiveAdmins)
      if admins ≤ 1 then return refusal
      p) := by
  rw [ask_bind]
  refine .call rfl (fun _ => rfl) fun w db _ => ⟨_, rfl, ?_⟩
  cases answer : (exec argon2 w .countActiveAdmins db).1 with
  | error error => exact .throw error
  | ok admins =>
      refine .ite (fun _ => .ret _) fun several => ⟨fun db active same => ?_, rest.2⟩
      subst same
      exact rest.1 _ active (countActiveAdmins_answer u answer (by omega))

theorem About.guarding {pre : Db → Prop} {u : String} {harmful : Prop} {p : Handler α}
    (about : About argon2 u harmful p) (safe : ∀ db, HasActiveAdmin db → pre db → harmful → HasOther u db) :
    Guarding argon2 pre p := by
  refine ⟨fun db active holds u' pending => ?_, about.upholds⟩
  obtain ⟨rfl, harms⟩ := about.pending u' pending
  exact safe db active holds harms

theorem hasOther_of_not_admin {u : String} {row : UserRow} (found : db.users.find? u = some row)
    (standing : isActiveAdmin row = false) (active : HasActiveAdmin db) : HasOther u db := by
  obtain ⟨v, row', found', standing'⟩ := active
  refine ⟨v, ?_, row', found', standing'⟩
  rintro rfl
  obtain rfl : row = row' := Option.some.inj (found.symm.trans found')
  exact absurd standing' (by simp [standing])

theorem isActiveAdmin_of_unguarded {body : PatchUserBody} {now : UtcNow} {row : UserRow} (harms : harmful body)
    (unguarded : ¬(demoting body (User.ofRow now row) || deactivating body (User.ofRow now row))) :
    isActiveAdmin row = false := by
  obtain ⟨password, role, deactivated⟩ := body
  simp only [Bool.or_eq_true, not_or, Bool.not_eq_true] at unguarded
  obtain ⟨demotes, deactivates⟩ := unguarded
  rcases harms with taken | deactivated
  · obtain ⟨r, rfl, taken⟩ := (Option.any_eq_true _ _).mp taken
    have : (row.role == .admin) = false := by
      simpa [demoting, User.ofRow, show r ≠ .admin by simpa using taken] using demotes
    simp [isActiveAdmin, this]
  · cases deactivated
    simpa [deactivating, User.ofRow, isActiveAdmin] using deactivates

theorem adminPatchUser_guarding (u : String) (headers : HeaderMap) (body : Option PatchUserBody) :
    Guarding argon2 AnyDb (adminPatchUser u headers body) := by
  refine checkAdmin_guarding ?_
  cases body with
  | none => exact .ret _
  | some body =>
    refine .ask rfl (fun _ => rfl) fun reply => .ofExcept fun user => .ite (fun _ => .ret _) fun _ => ?_
    split
    · exact .ret _
    rw [ask_bind]
    refine .call rfl (fun _ => rfl) fun w db _ => ⟨_, rfl, ?_⟩
    cases answer : (exec argon2 w (.getUser u) db).1 with
    | error error => exact .throw error
    | ok found =>
      cases found with
      | none => exact .panic
      | some current =>
        obtain ⟨row, stored, rfl⟩ := getUser_row answer
        refine .ite (fun _ => lastAdmin_guarding u ?_) fun unguarded => ?_
        · exact (applyPatch_about u body).guarding fun _ _ other _ => other
        · refine (applyPatch_about u body).guarding fun db active same harms => ?_
          subst same
          exact hasOther_of_not_admin stored (isActiveAdmin_of_unguarded harms unguarded) active

theorem deleteUser_about (u : String) : About argon2 u True (do
    Process.ofExcept (← ask (.deleteUser u))
    return Response.mk 204 [] .empty) := by
  refine .ask (fun v taken => ⟨?_, trivial⟩) (fun reply => .ofExcept fun _ => .ret _) (.inr fun reply u' => ?_)
  · exact (beq_iff_eq.mp taken).symm
  · rcases reply with error | ⟨⟩ <;> exact id

theorem adminDeleteUser_guarding (u : String) (headers : HeaderMap) :
    Guarding argon2 AnyDb (adminDeleteUser u headers) := by
  refine checkAdmin_guarding ?_
  rw [ask_bind]
  refine .call rfl (fun _ => rfl) fun w db _ => ⟨_, rfl, ?_⟩
  cases answer : (exec argon2 w (.getUser u) db).1 with
  | error error => exact .throw error
  | ok found =>
    cases found with
    | none => exact .ret _
    | some target =>
      obtain ⟨row, stored, rfl⟩ := getUser_row answer
      refine .ite (fun _ => lastAdmin_guarding u ?_) fun unguarded => ?_
      · exact (deleteUser_about u).guarding fun _ _ other _ => other
      · refine (deleteUser_about u).guarding fun db active same _ => ?_
        subst same
        exact hasOther_of_not_admin stored (by simpa [User.ofRow, isActiveAdmin, Option.isSome_iff_ne_none] using unguarded) active

end Handlers

inductive UserEdit where
  | patch (u : String) (headers : HeaderMap) (body : Option PatchUserBody)
  | delete (u : String) (headers : HeaderMap)

def UserEdit.request : UserEdit → Request
  | .patch u headers body => .patchUser u headers body
  | .delete u headers => .deleteUser u headers

theorem userEdit_guarding (parsers : Webhook.Parsers) (state : AppState) (edit : UserEdit) :
    Guarding argon2 AnyDb (edit.request.handle parsers state) := by
  cases edit with
  | patch u headers body => exact adminPatchUser_guarding u headers body
  | delete u headers => exact adminDeleteUser_guarding u headers

/-- Where another request has made its last check and is still to take a user, the turn leaves an
active admin besides that user. -/
def SparesLastOther (argon2 : Argon2) (s : Serving) (turn : Nat × World) : Prop :=
  ∀ j p u, j ≠ turn.1 → s.pool[j]? = some p → Pending u p → HasOther u s.state →
    HasOther u (s.step (exec argon2) turn).state

/-- An active admin remains when no turn takes the last admin on whom another request counts. -/
theorem run_keeps_active_admin (argon2 : Argon2) (parsers : Webhook.Parsers) (state : AppState) (db : Db)
    (active : HasActiveAdmin db) (edits : List UserEdit) (schedule : List (Nat × World))
    (permitted : System.Permits (exec argon2) (SparesLastOther argon2)
      (serve parsers state db (edits.map UserEdit.request)) schedule) :
    HasActiveAdmin ((serve parsers state db (edits.map UserEdit.request)).run (exec argon2) schedule).state := by
  have stable : ∀ (s : Serving) (turn : Nat × World) (c : Call) (resume : c.Reply → Handler Response) (j : Nat)
      (p : Handler Response), SparesLastOther argon2 s turn → s.pool[turn.1]? = some (.call c resume) →
      HasActiveAdmin s.state → Guarded s.state (.call c resume) → j ≠ turn.1 → s.pool[j]? = some p →
      Guarded s.state p → Guarded (exec argon2 turn.2 c s.state).2 p := by
    intro s turn c resume j p spares next _ _ other at_j guarded u pending
    have kept := spares j p u other at_j pending (guarded u pending)
    rwa [System.step_call next] at kept
  have each : ∀ p ∈ (serve parsers state db (edits.map UserEdit.request)).pool,
      Guarded db p ∧ System.Upholds (exec argon2) HasActiveAdmin Guarded p := by
    intro p mem
    obtain ⟨request, requested, rfl⟩ := List.mem_map.mp mem
    obtain ⟨edit, -, rfl⟩ := List.mem_map.mp requested
    have guarding : Guarding argon2 AnyDb (edit.request.handle parsers state) :=
      userEdit_guarding parsers state edit
    exact ⟨guarding.1 db active trivial, guarding.2⟩
  exact (System.run_rely_guarantee HasActiveAdmin Guarded stable permitted active each).1

instance : Decidable (HasActiveAdmin db) :=
  decidable_of_iff (db.users.rows.any isActiveAdmin) <| by
    rw [List.any_eq_true]
    exact ⟨fun ⟨row, mem, active⟩ => ⟨row.username, row, Table.find?_of_mem mem, active⟩,
      fun ⟨_, row, found, active⟩ => ⟨row, Table.mem_of_find? found, active⟩⟩

def twoAdmins : Db :=
  { rootDb with
    users := ⟨[⟨"root", "correct horse battery", .admin, "2026-04-28T12:00:00+00:00", none, none, none⟩,
      ⟨"eve", "correct horse battery", .admin, "2026-04-28T12:00:00+00:00", none, none, none⟩], by decide⟩
    sessions := ⟨[⟨"5e551", "root", "2026-04-28T12:00:00+00:00", "2026-04-28T12:00:00+00:00", none, none⟩,
      ⟨"5e552", "eve", "2026-04-28T12:00:00+00:00", "2026-04-28T12:00:00+00:00", none, none⟩], by decide⟩ }

def eveHeaders : HeaderMap := [("cookie", "errex_session=5e552".toUTF8.data.toList)]

def takesSome : Call → Bool
  | .deleteUser _ => true
  | .setUserRole _ role => role != .admin
  | .setUserDeactivated _ deactivated => deactivated
  | _ => false

theorem takes_eq_false {c : Call} (harmless : takesSome c = false) (u : String) : takes u c = false := by
  cases c
  case deleteUser username => cases harmless
  case setUserRole username role =>
    have same : (role != .admin) = false := harmless
    rw [takes, same, Bool.and_false]
  case setUserDeactivated username deactivated =>
    have same : deactivated = false := harmless
    rw [takes, same, Bool.and_false]
  all_goals rfl

def takesAlone (s : Serving) (turn : Nat × World) : Bool :=
  (s.nextCall turn).all fun c => !takesSome c || s.othersNext turn fun other => !takesSome other && !unchecked other

theorem sparesLastOther_of_takesAlone {s : Serving} {turn : Nat × World} (alone : takesAlone s turn = true) :
    SparesLastOther argon2 s turn := by
  intro j p u other at_j pending ⟨v, different, active⟩
  rcases System.step_cases (exec argon2) s turn with same | ⟨c, resume, next, after⟩
  · rw [same]
    exact ⟨v, different, active⟩
  · rw [after]
    rw [takesAlone, System.nextCall_eq next, Option.all_some, Bool.or_eq_true, Bool.not_eq_true'] at alone
    rcases alone with harmless | others
    · exact ⟨v, different, exec_keeps_admin (takes_eq_false harmless v) active⟩
    · cases p with
      | call c' resume' =>
          have before := System.check_of_othersNext others other at_j
          simp only [Bool.and_eq_true, Bool.not_eq_true'] at before
          rcases pending with takes_ | ⟨unchecked_, -⟩
          · exact absurd (takes_.symm.trans (takes_eq_false before.1 u)) (by decide)
          · exact absurd (unchecked_.symm.trans before.2) (by decide)
      | _ => exact pending.elim

theorem run_keeps_active_admin_interleaved :
    HasActiveAdmin ((serve anyParsers localState twoAdmins
      ([UserEdit.delete "eve" rootHeaders, .patch "root" eveHeaders (some ⟨none, some .viewer, none⟩)].map
        UserEdit.request)).run (exec plainArgon2) (List.replicate 4 (0, noonWorld 0) ++
          List.replicate 3 (1, noonWorld 0) ++ [(0, noonWorld 0)] ++ List.replicate 3 (1, noonWorld 0))).state := by
  have permitted : System.Permits (exec plainArgon2) (fun s turn => takesAlone s turn = true)
      (serve anyParsers localState twoAdmins
        ([UserEdit.delete "eve" rootHeaders, .patch "root" eveHeaders (some ⟨none, some .viewer, none⟩)].map
          UserEdit.request)) (List.replicate 4 (0, noonWorld 0) ++ List.replicate 3 (1, noonWorld 0) ++
            [(0, noonWorld 0)] ++ List.replicate 3 (1, noonWorld 0)) := by decide +kernel
  exact run_keeps_active_admin plainArgon2 anyParsers localState twoAdmins (by decide) _ _
    (permitted.mono fun _ _ alone => sparesLastOther_of_takesAlone alone)

/-- Two admins delete each other, each after the other's check. -/
theorem run_loses_active_admin :
    ¬ ∀ (argon2 : Argon2) (parsers : Webhook.Parsers) (state : AppState) (db : Db) (edits : List UserEdit)
      (schedule : List (Nat × World)), HasActiveAdmin db →
      HasActiveAdmin ((serve parsers state db (edits.map UserEdit.request)).run (exec argon2) schedule).state := by
  intro keeps
  have kept := keeps plainArgon2 anyParsers localState twoAdmins
    [.delete "eve" rootHeaders, .delete "root" eveHeaders]
    (List.replicate 4 (0, noonWorld 0) ++ List.replicate 4 (1, noonWorld 0) ++ [(0, noonWorld 0), (1, noonWorld 0)])
    (by decide)
  revert kept
  decide +kernel

end Errex.Proof.Accounts
