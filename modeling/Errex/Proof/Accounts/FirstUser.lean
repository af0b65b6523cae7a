import Errex.Model.Api
import Errex.Proof.Accounts.Operations

/-!
# The first user

A setup request finds no user and creates one in a later call. Setup creates a user once at most
when no two setup requests are between these calls at a time and the users are never all deleted
(`run_sets_up_once`).
-/

namespace Errex.Proof.Accounts
open Foundation Model Store Auth Process

variable {α β : Type} {argon2 : Argon2} {db : Db}

def HasUser (db : Db) : Prop := ∃ username, (db.users.find? username).isSome

theorem HasUser.of_users {db' : Db} (has : HasUser db) (same : db'.users = db.users) : HasUser db' := by
  rwa [HasUser, same]

theorem HasUser.updateUser {username : String} {change : UserChange} (has : HasUser db) :
    HasUser (Store.updateUser username change db).2 := by
  obtain ⟨v, found⟩ := has
  refine ⟨v, ?_⟩
  rw [find?_updateUser]
  split_ifs
  · simpa using found
  · exact found

theorem exec_keeps_hasUser {w : World} {c : Call} (stays : ∀ username, c ≠ .deleteUser username)
    (has : HasUser db) : HasUser (exec argon2 w c db).2 := by
  have frame := exec_frame argon2 w c db
  cases c
  case createUser username hash role =>
    refine transact_keeps (createUser_keeps fun row users db inserted _ _ _ has => ?_) has
    obtain ⟨v, found⟩ := has
    obtain ⟨before, found⟩ := Option.isSome_iff_exists.mp found
    exact ⟨v, by rw [Table.find?_of_insert_of_found inserted found]; rfl⟩
  case setUserPassword username hash =>
    exact transact_keeps (execute_check_keeps fun _ has => has.updateUser) has
  case setUserRole username role => exact transact_keeps (execute_check_keeps fun _ has => has.updateUser) has
  case setUserDeactivated username deactivated =>
    exact transact_keeps (setUserDeactivated_keeps (fun _ has => has.updateUser) fun _ has => has.of_users rfl) has
  case deleteUser username => exact absurd rfl (stays username)
  case touchUserLogin username ip =>
    exact transact_keeps (.bind (.execute fun _ has => has.updateUser) fun _ => .pure _) has
  all_goals exact has.of_users (frame.users rfl)

def creates : Call → Bool
  | .createUser _ _ _ => true
  | _ => false

def checks : Call → Bool
  | .userCount => true
  | _ => false

def CanCreate : Handler α → Prop
  | .call c resume => creates c ∨ ∃ reply, CanCreate (resume reply)
  | _ => False

def InFlight : Handler α → Prop
  | .call c resume => checks c = false ∧ CanCreate (.call c resume)
  | _ => False

theorem InFlight.canCreate {p : Handler α} (flying : InFlight p) : CanCreate p := by
  cases p with
  | call c resume => exact flying.2
  | _ => exact flying.elim

def Sober : Handler α → Prop
  | .call c resume =>
      (∀ reply, Sober (resume reply)) ∧ (creates c → ∀ reply, ¬ CanCreate (resume reply)) ∧
        (checks c → ∀ (argon2 : Argon2) (w : World) (db : Db), HasUser db →
          ¬ CanCreate (resume (exec argon2 w c db).1))
  | _ => True

theorem not_canCreate_of_calls {p : Handler α} (others : p.Calls fun c => creates c = false) : ¬ CanCreate p := by
  induction p with
  | call c resume ih =>
      rintro (now | ⟨reply, later⟩)
      · simp [others.1] at now
      · exact ih reply (others.2 reply) later
  | _ => exact id

theorem Sober.of_not_canCreate {p : Handler α} (never : ¬ CanCreate p) : Sober p := by
  induction p with
  | call c resume ih =>
      have later : ∀ reply, ¬ CanCreate (resume reply) := fun reply can => never (.inr ⟨reply, can⟩)
      exact ⟨fun reply => ih reply (later reply), fun _ => later, fun _ _ _ _ _ => later _⟩
  | _ => trivial

theorem Sober.ask {c : Call} {f : c.Reply → Handler α} (other : creates c = false) (blind : checks c = false)
    (rest : ∀ reply, Sober (f reply)) : Sober (Model.ask c >>= f) := by
  rw [ask_bind]
  exact ⟨rest, by simp [other], by simp [blind]⟩

theorem Sober.ofExcept {r : Except DaemonError α} {f : α → Handler β} (rest : ∀ a, Sober (f a)) :
    Sober (Process.ofExcept r >>= f) := by
  cases r with
  | ok a => exact rest a
  | error error => trivial

theorem Sober.ofOption {o : Option α} {f : α → Handler β} (rest : ∀ a, Sober (f a)) :
    Sober (Process.ofOption o >>= f) := by
  cases o with
  | some a => exact rest a
  | none => trivial

theorem Sober.ite {condition : Prop} [Decidable condition] {p q : Handler α} (yes : Sober p) (no : Sober q) :
    Sober (if condition then p else q) := by
  split_ifs
  · exact yes
  · exact no

theorem length_pos_of_hasUser (has : HasUser db) : 0 < db.users.rows.length := by
  obtain ⟨username, found⟩ := has
  obtain ⟨row, found⟩ := Option.isSome_iff_exists.mp found
  exact List.length_pos_of_mem (Table.mem_of_find? found)

theorem userCount_answer {w : World} {users : Nat} (has : HasUser db)
    (answer : (exec argon2 w .userCount db).1 = .ok users) : 0 < users := by
  have ok := transact_ok answer
  simp only [userCount, Transaction.read_run, Except.ok.injEq, Prod.mk.injEq] at ok
  rw [← ok.1]
  exact length_pos_of_hasUser has

theorem createFirst_sober (state : AppState) (username hash ip : String) (ua : Option String) : Sober (do
    let _ ← Process.ofExcept (← ask (.createUser username hash .admin))
    let id ← ask .generateSessionId
    let _ ← Process.ofExcept (← ask (.createSession id username (some ip) ua))
    ask (.touchUserLogin username (some ip))
    withCookie (.json 201 (.identity username .admin)) (buildSessionCookie id state.devMode)) := by
  have done : ∀ reply : Except DaemonError User, ¬ CanCreate (do
      let _ ← Process.ofExcept reply
      let id ← ask .generateSessionId
      let _ ← Process.ofExcept (← ask (.createSession id username (some ip) ua))
      ask (.touchUserLogin username (some ip))
      withCookie (.json 201 (.identity username .admin)) (buildSessionCookie id state.devMode)) := by
    intro reply
    apply not_canCreate_of_calls
    cases reply with
    | error error => trivial
    | ok user =>
        refine ⟨rfl, fun id => ⟨rfl, fun session => ?_⟩⟩
        cases session with
        | error error => trivial
        | ok session =>
            refine ⟨rfl, fun _ => ?_⟩
            show (withCookie _ _).Calls _
            unfold withCookie
            cases HeaderValue.fromStr (buildSessionCookie id state.devMode) <;> trivial
  rw [ask_bind]
  exact ⟨fun reply => .of_not_canCreate (done reply), fun _ => done, by simp [checks]⟩

theorem handleSetup_sober (state : AppState) (peer : Option String) (headers : HeaderMap)
    (body : Option SetupBody) : Sober (handleSetup state peer headers body) := by
  cases body with
  | none => trivial
  | some body =>
      unfold handleSetup
      dsimp only
      rw [ask_bind]
      refine ⟨fun reply => .ofExcept fun users => ?_, by simp [creates], fun _ argon2 w db has => ?_⟩
      · refine .ite trivial ?_
        cases state.setupToken with
        | none => trivial
        | some expected =>
            refine .ask rfl rfl fun now => .ofOption fun since => .ask rfl rfl fun failures => .ofExcept fun failures => ?_
            split
            · trivial
            refine .ite (.ask rfl rfl fun _ => trivial) (.ite trivial ?_)
            split
            · trivial
            refine .ask rfl rfl fun hashed => ?_
            cases hashed with
            | error error => trivial
            | ok hash => exact createFirst_sober state _ hash _ _
      · cases answer : (exec argon2 w .userCount db).1 with
        | error error => exact id
        | ok users =>
            have several := userCount_answer has answer
            show ¬ CanCreate (if 0 < users then _ else _)
            rw [if_pos several]
            exact id

def isSetup (requests : List Request) (i : Nat) : Bool :=
  match requests[i]? with
  | some (.setup _ _ _) => true
  | _ => false

def creator (argon2 : Argon2) (requests : List Request) (s : Serving) (turn : Nat × World) : List Nat :=
  match s.nextCall turn with
  | some (.createUser username _ _) =>
      if isSetup requests turn.1 ∧ (s.state.users.find? username).isNone ∧
          ((s.step (exec argon2) turn).state.users.find? username).isSome then [turn.1]
      else []
  | _ => []

/-- No user is created while another setup request is past its check, and the last user stays. -/
structure Orderly (argon2 : Argon2) (requests : List Request) (s : Serving) (turn : Nat × World) : Prop where
  alone : creator argon2 requests s turn ≠ [] →
    ∀ i p, isSetup requests i → i ≠ turn.1 → s.pool[i]? = some p → ¬ InFlight p
  stays : ∀ username, s.nextCall turn = some (.deleteUser username) → HasUser s.state →
    HasUser (s.step (exec argon2) turn).state

/-- Setup has created one user at most, and after that no request is past its check. -/
structure OnceSetUp (requests : List Request) (created : List Nat) (s : Serving) : Prop where
  sober : ∀ i p, isSetup requests i → s.pool[i]? = some p → Sober p
  once : created.length ≤ 1
  closed : created ≠ [] → HasUser s.state ∧ ∀ i p, isSetup requests i → s.pool[i]? = some p → ¬ InFlight p

section Step

variable {requests : List Request} {created : List Nat} {s : Serving} {turn : Nat × World}

theorem creator_cases (argon2 : Argon2) (requests : List Request) (s : Serving) (turn : Nat × World) :
    creator argon2 requests s turn = [] ∨ creator argon2 requests s turn = [turn.1] ∧ isSetup requests turn.1 ∧
      ∃ username hash role, s.nextCall turn = some (.createUser username hash role) ∧
        (s.state.users.find? username).isNone ∧
        ((s.step (exec argon2) turn).state.users.find? username).isSome := by
  unfold creator
  split
  case h_1 username hash role next =>
    split_ifs with made
    · exact .inr ⟨rfl, made.1, username, hash, role, next, made.2⟩
    · exact .inl rfl
  · exact .inl rfl

theorem inFlight_before {w : World} {c : Call} {resume : c.Reply → Handler Response} (sober : Sober (.call c resume))
    (has : HasUser db) (flying : InFlight (resume (exec argon2 w c db).1)) : InFlight (.call c resume) := by
  cases check : checks c with
  | true => exact absurd flying.canCreate (sober.2.2 check argon2 w db has)
  | false => exact ⟨check, .inr ⟨_, flying.canCreate⟩⟩

theorem OnceSetUp.step (setUp : OnceSetUp requests created s) (orderly : Orderly argon2 requests s turn) :
    OnceSetUp requests (created ++ creator argon2 requests s turn) (s.step (exec argon2) turn) := by
  rcases System.step_cases (exec argon2) s turn with same | ⟨c, resume, next, after⟩
  · rcases creator_cases argon2 requests s turn with none | ⟨-, -, username, -, -, -, absent, found⟩
    · rwa [none, List.append_nil, same]
    · rw [same, Option.isSome_iff_ne_none] at found
      exact absurd (Option.isNone_iff_eq_none.mp absent) found
  have nextCall : s.nextCall turn = some c := System.nextCall_eq next
  have sober : ∀ j p, isSetup requests j → (s.step (exec argon2) turn).pool[j]? = some p → Sober p := by
    intro j p setup at_j
    rw [after] at at_j
    rcases System.pool_after at_j with ⟨rfl, rfl⟩ | ⟨-, before⟩
    · exact (setUp.sober _ _ setup next).1 _
    · exact setUp.sober j p setup before
  rcases creator_cases argon2 requests s turn with none | ⟨made, setup, username, hash, role, create, -, found⟩
  · rw [none, List.append_nil]
    refine ⟨sober, setUp.once, fun some => ?_⟩
    obtain ⟨has, grounded⟩ := setUp.closed some
    constructor
    · by_cases deletes : ∃ username, c = .deleteUser username
      · obtain ⟨username, rfl⟩ := deletes
        exact orderly.stays username nextCall has
      · rw [after]
        exact exec_keeps_hasUser (fun username eq => deletes ⟨username, eq⟩) has
    · intro j p setup at_j flying
      rw [after] at at_j
      rcases System.pool_after at_j with ⟨rfl, rfl⟩ | ⟨-, before⟩
      · exact grounded _ _ setup next (inFlight_before (setUp.sober _ _ setup next) has flying)
      · exact grounded j p setup before flying
  · obtain rfl : c = .createUser username hash role := Option.some.inj (nextCall.symm.trans create)
    have first : created = [] := by
      by_contra some
      exact (setUp.closed some).2 _ _ setup next ⟨rfl, .inl rfl⟩
    rw [made, first]
    refine ⟨sober, le_rfl, fun _ => ⟨⟨username, found⟩, fun j p setup' at_j flying => ?_⟩⟩
    rw [after] at at_j
    rcases System.pool_after at_j with ⟨rfl, rfl⟩ | ⟨other, before⟩
    · exact (setUp.sober _ _ setup next).2.1 rfl _ flying.canCreate
    · exact orderly.alone (by simp [made]) j p setup' other before flying

end Step

/-- At most one setup request creates a user, when no user is created while another setup request is
past its check and the last user is not deleted. -/
theorem run_sets_up_once (argon2 : Argon2) (parsers : Webhook.Parsers) (state : AppState) (db : Db)
    (requests : List Request) (schedule : List (Nat × World))
    (permitted : System.Permits (exec argon2) (Orderly argon2 requests) (serve parsers state db requests) schedule) :
    ((serve parsers state db requests).history (exec argon2) (creator argon2 requests) schedule).length ≤ 1 := by
  have start : OnceSetUp requests [] (serve parsers state db requests) := by
    refine ⟨fun i p setup at_i => ?_, Nat.zero_le 1, fun some => absurd rfl some⟩
    rw [serve, List.getElem?_map] at at_i
    obtain ⟨request, requested, rfl⟩ := Option.map_eq_some_iff.mp at_i
    unfold isSetup at setup
    rw [requested] at setup
    cases request with
    | setup peer headers body => exact handleSetup_sober state peer headers body
    | _ => cases setup
  have setUp := System.run_history_invariant (OnceSetUp requests) (fun _ _ _ setUp orderly => setUp.step orderly)
    permitted start
  simpa using setUp.once

def undisturbed (s : Serving) (turn : Nat × World) : Bool :=
  s.othersNext turn checks &&
  match s.nextCall turn with
  | some (.deleteUser _) => false
  | _ => true

theorem orderly_of_undisturbed {requests : List Request} {s : Serving} {turn : Nat × World}
    (quiet : undisturbed s turn) : Orderly argon2 requests s turn := by
  obtain ⟨grounded, deletes⟩ := Bool.and_eq_true_iff.mp quiet
  refine ⟨fun _ i p _ other at_i flying => ?_, fun username next => ?_⟩
  · cases p with
    | call c resume => exact absurd flying.1 (by simpa using System.check_of_othersNext grounded other at_i)
    | _ => exact flying
  · simp [next] at deletes

theorem run_sets_up_once_in_turn :
    ((serve anyParsers localState .empty [setupRequest, setupRequest]).history (exec plainArgon2)
      (creator plainArgon2 [setupRequest, setupRequest])
      (List.replicate 8 (0, noonWorld 0) ++ List.replicate 8 (1, noonWorld 1))).length ≤ 1 :=
  run_sets_up_once plainArgon2 anyParsers localState .empty [setupRequest, setupRequest] _
    (System.Permits.mono (fun _ _ => orderly_of_undisturbed) (by decide +kernel))

/-- Two setup requests that both look for users before either creates one. -/
theorem run_sets_up_twice :
    ¬ ∀ (argon2 : Argon2) (parsers : Webhook.Parsers) (state : AppState) (db : Db) (requests : List Request)
      (schedule : List (Nat × World)), db.users.rows = [] →
      ((serve parsers state db requests).history (exec argon2) (creator argon2 requests) schedule).length ≤ 1 := by
  intro once
  have twice := once plainArgon2 anyParsers localState .empty
    [setupRequest, .setup none [] (some ⟨"secret", "eve", "correct horse battery"⟩)]
    (List.replicate 5 [(0, noonWorld 0), (1, noonWorld 1)]).flatten rfl
  revert twice
  decide +kernel

end Errex.Proof.Accounts
