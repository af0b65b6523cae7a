import Errex.Proof.Contract
import Errex.Proof.Mediation

/-!
# Sessions that were ended

A session id comes from a random draw of a login or of the setup. Where the draw does not repeat it, a session that a
logout, an admin or a deactivation has ended never comes back, and its cookie opens nothing again.
-/

namespace Errex.Proof.Revocation
open Foundation Process Model Store Auth Admin Routes Accounts Mediation Contract

variable {α : Type} {sid u : String}

def Issues (sid : String) : Http.Call → Prop
  | .inl (.createSession id _ _ _) => id = sid
  | _ => False

def Draws (sid : String) : (c : Http.Call) → Http.Reply c → Prop
  | .inl .generateSessionId, id => id = sid
  | _, _ => False

abbrev Own (sid : String) (p : Page α) : Prop := p.Mediated (Issues sid) (Draws sid) fun _ => True

def Others (sid : String) : (c : Call) → c.Reply → Prop
  | .generateSessionId, id => id ≠ sid
  | _, _ => True

theorem not_issues_of_justified {parsers : Webhook.Parsers} {c : Http.Call} (justified : JustifiedAny parsers (Others sid) c) :
    ¬ Issues sid c := by
  rcases c with c | c
  · cases justified with
    | neutral harmless => cases c <;> first | exact id | cases harmless
    | createSession drawn => exact drawn
    | _ => exact id
  · exact id

theorem others_of_not_draws {c : Http.Call} {reply : Http.Reply c} (other : ¬ Draws sid c reply) :
    TrustedAny (Others sid) c reply := by
  rcases c with c | c
  · cases c <;> trivial
  · trivial

theorem route_own (parsers : Webhook.Parsers) (state : AppState) (route : Route) :
    Own sid (route.handle parsers state) :=
  (route_sound parsers state route).mediated (fun _ => not_issues_of_justified) fun _ _ => others_of_not_draws

def Sessions (holds : String → String → Prop) (db : Db) : Prop := ∀ row ∈ db.sessions.rows, holds row.id row.username

def Owned (sid u : String) : Db → Prop := Sessions fun id username => id = sid → username = u

def Gone (sid : String) : Db → Prop := Sessions fun id _ => id ≠ sid

inductive Ends (sid u : String) : (c : Http.Call) → Http.Reply c → Prop
  | session (done : Unit) : Ends sid u (.inl (.revokeSession sid)) (.ok done)
  | sessions (count : Nat) : Ends sid u (.inl (.revokeUserSessions u)) (.ok count)
  | deactivation (done : Unit) : Ends sid u (.inl (.setUserDeactivated u true)) (.ok done)
  | user (done : Unit) : Ends sid u (.inl (.deleteUser u)) (.ok done)

/-- Requests whose success ends the session of the user. -/
def Closes (sid u : String) : Route → Prop
  | .api (.logout headers) => extractSessionId headers = some sid
  | .api (.revokeUserSessions username _) => username = u
  | .api (.deleteUser username _) => username = u
  | .api (.patchUser username _ (some body)) => username = u ∧ body.deactivated = some true
  | _ => False

abbrev Closing (sid u : String) (p : Handler Response) : Prop :=
  p.Mediated (fun _ => False) (fun c reply => Ends sid u (.inl c) reply) fun response => ¬ response.status < 300

theorem requireAdmin_closing (headers : HeaderMap) :
    (requireAdmin headers).Mediated (fun _ => False) (fun c reply => Ends sid u (.inl c) reply)
      fun verdict => ∀ response, verdict = .error response → ¬ response.status < 300 := by
  unfold requireAdmin requireAuth
  split
  · refine .ret ?_
    rintro response ⟨⟩
    decide
  · refine .pass id fun reply => ?_
    match reply with
    | .error error =>
        refine .ret ?_
        rintro response ⟨⟩
        decide
    | .ok none =>
        refine .ret ?_
        rintro response ⟨⟩
        decide
    | .ok (some (session, .admin, deactivated)) =>
        refine .pass id fun _ => .ret ?_
        rintro response ⟨⟩
    | .ok (some (session, .viewer, deactivated)) =>
        refine .pass id fun _ => .ret ?_
        rintro response ⟨⟩
        decide

theorem checkAdmin_closing {headers : HeaderMap} {rest : Handler Response} (closing : Closing sid u rest) :
    Closing sid u (checkAdmin headers rest) := by
  refine (requireAdmin_closing headers).bind fun verdict fails => ?_
  cases verdict with
  | error response => exact .ret (fails response rfl)
  | ok _ => exact closing

theorem handle_closing (parsers : Webhook.Parsers) (state : AppState) {request : Request} (closes : Closes sid u (.api request)) :
    Closing sid u (request.handle parsers state) := by
  cases request with
  | logout headers =>
      have named : extractSessionId headers = some sid := closes
      simp only [Request.handle, handleLogout, named]
      refine .call id fun reply => ?_
      cases reply with
      | ok done => exact .inl (.session done)
      | error error => exact .inr (.throw error)
  | revokeUserSessions username headers =>
      obtain rfl : username = u := closes
      refine checkAdmin_closing (.pass id fun found => .ofExcept fun user => .ite (.ret (by decide)) (.call id fun reply => ?_))
      cases reply with
      | ok count => exact .inl (.sessions count)
      | error error => exact .inr (.throw error)
  | deleteUser username headers =>
      obtain rfl : username = u := closes
      refine checkAdmin_closing (.pass id fun found => .ofExcept fun target => ?_)
      have deletes : Closing sid username (do ofExcept (← ask (.deleteUser username)); return ⟨204, [], .empty⟩) := by
        refine .call id fun reply => ?_
        cases reply with
        | ok done => exact .inl (.user done)
        | error error => exact .inr (.throw error)
      cases target with
      | none => exact .ret (by decide)
      | some target =>
          exact .ite (.pass id fun counted => .ofExcept fun admins => .ite (.ret (by decide)) deletes) deletes
  | patchUser username headers body =>
      cases body with
      | none => exact closes.elim
      | some body =>
      obtain ⟨rfl, deactivates⟩ : username = u ∧ body.deactivated = some true := closes
      have patches : Closing sid username (applyPatch username body) := by
        unfold applyPatch
        rw [deactivates]
        refine (Mediated.any _).bind fun _ _ => (Mediated.any _).bind fun _ _ => ?_
        refine .call id fun reply => ?_
        cases reply with
        | ok done => exact .inl (.deactivation done)
        | error error => exact .inr (.throw error)
      refine checkAdmin_closing (.pass id fun found => .ofExcept fun user => .ite (.ret (by decide)) ?_)
      split
      · exact .ret (show ¬ 400 < 300 by decide)
      refine .pass id fun found => .ofExcept fun user => .ofOption fun current => .ite ?_ patches
      exact .pass id fun counted => .ofExcept fun admins => .ite (.ret (by decide)) patches
  | _ => exact closes.elim

variable {argon2 : Argon2} {outside : Outside} {holds : String → String → Prop} {db : Db}

theorem deleteSessions_sessions (doomed : SessionRow → Bool) (before : Sessions holds db) :
    Sessions holds (deleteSessions doomed db).2 :=
  Table.forall_delete before

theorem exec_sessions (w : World) (c : Call)
    (starts : ∀ id username ip ua, c = .createSession id username ip ua → holds id username) (before : Sessions holds db) :
    Sessions holds (exec argon2 w c db).2 := by
  have frame := exec_frame argon2 w c db
  cases c
  case setUserDeactivated username deactivated =>
    exact transact_keeps (setUserDeactivated_keeps (fun _ kept => kept) fun _ kept => deleteSessions_sessions _ kept) before
  case deleteUser username => exact transact_keeps (execute_check_keeps fun _ kept => Table.forall_delete kept) before
  case touchSession id =>
    refine transact_keeps (.execute fun db kept => ?_) before
    exact Table.forall_update kept (seenAt_id _) fun row kept => kept
  case revokeSession id =>
    exact transact_keeps (.bind (.execute fun _ kept => deleteSessions_sessions _ kept) fun _ => .pure _) before
  case revokeUserSessions username => exact transact_keeps (.execute fun _ kept => deleteSessions_sessions _ kept) before
  case purgeSessionsIdleSince cutoff => exact transact_keeps (.execute fun _ kept => deleteSessions_sessions _ kept) before
  case createSession id username ip ua =>
    refine transact_keeps (fun db session db' done kept => ?_) before
    simp only [createSession] at done
    split at done
    · cases done
    · rename_i sessions inserted
      split_ifs at done
      cases done
      intro row mem
      rw [Table.rows_of_insert inserted] at mem
      rcases List.mem_append.mp mem with old | new
      · exact kept row old
      · obtain rfl := List.mem_singleton.mp new
        exact starts id username ip ua rfl
  all_goals exact fun row mem => before row (frame.sessions rfl ▸ mem)

theorem execQuery_sessions (w : World) (c : Query) (sent : List ServerMessage) :
    (execQuery outside w c (db, sent)).2.1.sessions = db.sessions := by
  by_cases rotates : ∃ name, c = .rotateToken name
  · obtain ⟨name, rfl⟩ := rotates
    have answer := @projectAnswer_keeps (fun after => after.sessions = db.sessions) w.now name s!"project {name} (post-rotate)"
    have keeps : (Store.rotateToken w.now w.uuid name).Keeps fun after => after.sessions = db.sessions := by
      refine .bind (.execute fun after same => same) fun updated => ?_
      split_ifs
      · exact .bind (.fail _) fun _ => answer
      · exact answer
    exact transact_keeps keeps rfl
  · rw [execQuery_reads w sent fun name same => rotates ⟨name, same⟩]

theorem execHttp_sessions (w : World) (c : Http.Call) (sent : List ServerMessage)
    (starts : ∀ id username ip ua, c = .inl (.createSession id username ip ua) → holds id username) (before : Sessions holds db) :
    Sessions holds (execHttp argon2 outside w c (db, sent)).2.1 := by
  cases c with
  | inl c => exact exec_sessions w c (fun id username ip ua same => starts id username ip ua (same ▸ rfl)) before
  | inr c => exact fun row mem => before row (execQuery_sessions w c sent ▸ mem)

theorem deleteSessions_gone {doomed : SessionRow → Bool} (all : ∀ row ∈ db.sessions.rows, row.id = sid → doomed row = true) :
    Gone sid (deleteSessions doomed db).2 := by
  rintro row mem rfl
  obtain ⟨stored, kept⟩ := Table.mem_delete.mp mem
  exact Bool.false_ne_true (kept.symm.trans (all row stored rfl))

theorem revokeSession_gone {db' : Db} {done : Unit} (ok : revokeSession sid db = .ok (done, db')) : Gone sid db' := by
  cases ok
  exact deleteSessions_gone fun row _ same => beq_iff_eq.mpr same

theorem revokeUserSessions_gone {db' : Db} {count : Nat} (owned : Owned sid u db)
    (ok : revokeUserSessions u db = .ok (count, db')) : Gone sid db' := by
  cases ok
  exact deleteSessions_gone fun row mem same => beq_iff_eq.mpr (owned row mem same)

theorem setUserDeactivated_gone {now : UtcNow} {db' : Db} {done : Unit} (owned : Owned sid u db)
    (ok : setUserDeactivated now u true db = .ok (done, db')) : Gone sid db' := by
  obtain ⟨-, rfl⟩ := setUserDeactivated_ok ok
  exact deleteSessions_gone fun row mem same => beq_iff_eq.mpr (owned row mem same)

theorem deleteUser_gone {db' : Db} {done : Unit} (owned : Owned sid u db) (ok : deleteUser u db = .ok (done, db')) :
    Gone sid db' := by
  obtain ⟨deleted, rfl⟩ := execute_check_ok ok
  obtain ⟨user, stored, named⟩ := List.countP_pos_iff.mp (Nat.pos_of_ne_zero deleted)
  rintro row mem rfl
  obtain ⟨kept, spared⟩ := Table.mem_delete.mp mem
  have match_ : user.username = row.username := (beq_iff_eq.mp named).trans (owned row kept rfl).symm
  have doomed := List.any_eq_false.mp spared user stored
  exact doomed (Bool.and_eq_true_iff.mpr ⟨named, beq_iff_eq.mpr match_⟩)

theorem gone_of_ends {w : World} {c : Http.Call} {sent : List ServerMessage} (owned : Owned sid u db)
    (ends : Ends sid u c (execHttp argon2 outside w c (db, sent)).1) :
    Gone sid (execHttp argon2 outside w c (db, sent)).2.1 := by
  generalize answer : (execHttp argon2 outside w c (db, sent)).1 = reply at ends
  cases ends with
  | session done => exact revokeSession_gone (transact_ok answer)
  | sessions count => exact revokeUserSessions_gone owned (transact_ok answer)
  | deactivation done => exact setUserDeactivated_gone owned (transact_ok answer)
  | user done => exact deleteUser_gone owned (transact_ok answer)

variable {start : ServingAll} {schedule : List (Nat × World)}

def Undrawn (sid : String) (schedule : List (Nat × World)) : Prop :=
  ∀ turn ∈ schedule, generateSessionId turn.2.uuid turn.2.uuid' ≠ sid

theorem run_append (exec : Semantics Http World (Db × List ServerMessage)) (s : ServingAll) (before after : List (Nat × World)) :
    System.run exec s (before ++ after) = System.run exec (System.run exec s before) after := List.foldl_append

theorem run_one (exec : Semantics Http World (Db × List ServerMessage)) (s : ServingAll) (turn : Nat × World) :
    System.run exec s [turn] = System.step exec s turn := rfl

theorem run_issues_not (own : ∀ p ∈ start.pool, Own sid p) (undrawn : Undrawn sid schedule) {turn : Nat × World}
    {c : Http.Call} (next : (System.run (execHttp argon2 outside) start schedule).nextCall turn = some c) :
    ¬ Issues sid c := by
  intro issues
  have inside : turn.1 < start.pool.length := by
    by_contra beyond
    have nobody : (System.run (execHttp argon2 outside) start schedule).pool[turn.1]? = none := by
      rw [List.getElem?_eq_none_iff, System.length_run]
      omega
    simp [System.nextCall, nobody] at next
  have mediated := own _ (List.getElem_mem inside)
  obtain ⟨before, drawing, after, rfl, -, c', -, draws⟩ :=
    System.run_mediated (List.getElem?_eq_getElem inside) mediated next issues
  rcases c' with c' | c'
  · cases c'
    case generateSessionId => exact undrawn drawing (by simp) draws
    all_goals exact draws.elim
  · exact draws.elim

theorem run_sessions (own : ∀ p ∈ start.pool, Own sid p) (others : ∀ id username, id ≠ sid → holds id username)
    {before after : List (Nat × World)} (undrawn : Undrawn sid (before ++ after))
    (kept : Sessions holds (System.run (execHttp argon2 outside) start before).state.1) :
    Sessions holds (System.run (execHttp argon2 outside) start (before ++ after)).state.1 := by
  induction after generalizing before with
  | nil => rwa [List.append_nil]
  | cons turn after ih =>
      have whole : before ++ turn :: after = (before ++ [turn]) ++ after := by simp
      rw [whole] at undrawn ⊢
      refine ih undrawn ?_
      rw [run_append]
      rw [run_one]
      rcases System.step_cases (execHttp argon2 outside) (System.run (execHttp argon2 outside) start before) turn with
        same | ⟨c, resume, next, went⟩
      · rwa [same]
      · rw [went]
        refine execHttp_sessions turn.2 c _ (fun id username ip ua started => others id username ?_) kept
        intro same
        have earlier : Undrawn sid before := fun turn mem => undrawn turn (by simp [mem])
        exact run_issues_not own earlier (System.nextCall_eq next) (started ▸ same)

theorem run_gone {parsers : Webhook.Parsers} {state : AppState} {k : Nat} {done : Answer}
    (own : ∀ p ∈ start.pool, Own sid p) (owned : Owned sid u start.state.1) (undrawn : Undrawn sid schedule)
    {closing : Route} (at_k : start.pool[k]? = some (closing.handle parsers state)) (closes : Closes sid u closing)
    (answered : (System.run (execHttp argon2 outside) start schedule).pool[k]? = some (.ret done)) (succeeded : done.status < 300) :
    Gone sid (System.run (execHttp argon2 outside) start schedule).state.1 := by
  have mediated : (closing.handle parsers state).Mediated (fun _ => False) (Ends sid u) fun answer => ¬ answer.status < 300 := by
    cases closing with
    | api request =>
        refine (Mediated.inl (handle_closing parsers state closes)).bind fun response fails => .ret fails
    | _ => exact closes.elim
  obtain ⟨before, turn, after, rfl, turns, c, next, ends⟩ :=
    (System.run_refused at_k mediated answered).resolve_right (not_not_intro succeeded)
  have whole : before ++ turn :: after = (before ++ [turn]) ++ after := by simp
  have then_owned : Owned sid u (System.run (execHttp argon2 outside) start ([] ++ before)).state.1 :=
    run_sessions own (fun id username other same => absurd same other)
      (fun turn mem => undrawn turn (List.mem_append_left _ mem)) owned
  rw [whole] at undrawn ⊢
  refine run_sessions own (fun id username other => other) undrawn ?_
  rw [run_append, run_one, System.state_step next]
  exact gone_of_ends then_owned ends

theorem entered_before {before after : List (Nat × World)} {i : Nat} {route : Route} (own : ∀ p ∈ start.pool, Own sid p)
    (undrawn : Undrawn sid (before ++ after)) (gone : Gone sid (System.run (execHttp argon2 outside) start before).state.1)
    (cookie : extractSessionId (Mediation.headers route) = some sid)
    (entered : EnteredIn argon2 outside start (before ++ after) i route) : EnteredIn argon2 outside start before i route := by
  obtain ⟨first, turn, last, whole, turns, user, found, suits⟩ := entered
  have shut : ∀ more rest, after = more ++ rest → first ≠ before ++ more := by
    rintro more rest rfl rfl
    have still : Gone sid (System.run (execHttp argon2 outside) start (before ++ more)).state.1 :=
      run_sessions own (fun id username other => other) (fun turn mem => undrawn turn (by simp at mem ⊢; tauto)) gone
    have missing := Table.find?_eq_none_iff.mpr still
    simp [sessionUser, cookie, missing] at found
  rcases List.append_eq_append_iff.mp whole with ⟨more, rfl, tail⟩ | ⟨rest, rfl, tail⟩
  · exact absurd rfl (shut more _ tail)
  · cases rest with
    | nil => exact absurd (by simp) (shut [] after rfl)
    | cons head rest =>
        obtain ⟨rfl, rfl⟩ := List.cons.inj tail
        exact ⟨first, turn, rest, rfl, turns, user, found, suits⟩

/-- The session of a user that a successful request has ended stays ended: however the requests interleave, one with its
cookie gets past the gate only if it did so before. -/
theorem ended_sessions_stay_ended (parsers : Webhook.Parsers) (state : AppState) (argon2 : Argon2) (outside : Outside)
    (db : Db) (routes : List Route) (before after : List (Nat × World)) (owned : Owned sid u db)
    (undrawn : Undrawn sid (before ++ after)) {k i : Nat} {closing route : Route} {done : Answer}
    (at_k : routes[k]? = some closing) (closes : Closes sid u closing)
    (answered : (System.run (execHttp argon2 outside) (serveAll parsers state db routes) before).pool[k]? = some (.ret done))
    (succeeded : done.status < 300) (at_i : routes[i]? = some route) (limited : access route ≠ .everyone)
    (cookie : extractSessionId (Mediation.headers route) = some sid) :
    let start := serveAll parsers state db routes
    let later := System.run (execHttp argon2 outside) start (before ++ after)
    (∀ (w : World) c, later.nextCall (i, w) = some c → Privileged c → EnteredIn argon2 outside start before i route) ∧
      ∀ answer, later.pool[i]? = some (.ret answer) → EnteredIn argon2 outside start before i route ∨ Refusal answer := by
  intro start later
  have own : ∀ p ∈ start.pool, Own sid p := by
    intro p mem
    obtain ⟨route, -, rfl⟩ := List.mem_map.mp mem
    exact route_own parsers state route
  have in_pool : start.pool[k]? = some (closing.handle parsers state) := by simp [start, serveAll, at_k]
  have gone := run_gone own owned (fun turn mem => undrawn turn (List.mem_append_left _ mem)) in_pool closes answered succeeded
  have entered : EnteredIn argon2 outside start (before ++ after) i route → EnteredIn argon2 outside start before i route :=
    entered_before own undrawn gone cookie
  obtain ⟨calls, answers⟩ := limited_routes_are_mediated parsers state argon2 outside db routes (before ++ after) at_i limited
  refine ⟨fun w c next demands => ?_, fun answer done => ?_⟩
  · exact entered (calls w c next demands)
  · exact (answers answer done).imp_left entered

def noDisk : Outside := ⟨⟨0, fun _ => 0⟩, fun _ => .error (.notFound "payload")⟩

theorem ended_sessions_stay_ended_root :
    let start := serveAll anyParsers localState rootDb [.api (.logout rootHeaders), .me rootHeaders]
    ∀ answer, (System.run (execHttp plainArgon2 noDisk) start ([(0, noonWorld 0)] ++ [(1, noonWorld 0)])).pool[1]? =
        some (.ret answer) →
      EnteredIn plainArgon2 noDisk start [(0, noonWorld 0)] 1 (.me rootHeaders) ∨ Refusal answer := by
  have owned : Owned "5e551" "root" rootDb :=
    show ∀ row ∈ rootDb.sessions.rows, row.id = "5e551" → row.username = "root" by decide
  have undrawn : Undrawn "5e551" ([(0, noonWorld 0)] ++ [(1, noonWorld 0)]) := by
    intro turn mem
    have draws : generateSessionId ⟨0⟩ ⟨0⟩ ≠ "5e551" := by decide
    rcases List.mem_cons.mp mem with rfl | mem
    · exact draws
    · obtain rfl := List.mem_singleton.mp mem
      exact draws
  have cookie : extractSessionId (Mediation.headers (.me rootHeaders)) = some "5e551" := rfl
  have answered : (System.run (execHttp plainArgon2 noDisk)
      (serveAll anyParsers localState rootDb [.api (.logout rootHeaders), .me rootHeaders]) [(0, noonWorld 0)]).pool[0]? =
        some (.ret (.ofResponse ((⟨204, [], .empty⟩ : Response).append "set-cookie" (buildClearingCookie true)))) := rfl
  exact (ended_sessions_stay_ended anyParsers localState plainArgon2 noDisk rootDb
    [.api (.logout rootHeaders), .me rootHeaders] [(0, noonWorld 0)] [(1, noonWorld 0)] owned undrawn (k := 0) rfl cookie
    answered (by decide) rfl (by decide) cookie).2

end Errex.Proof.Revocation
