import Errex.Foundation.Mediation
import Errex.Proof.Projects

/-!
# Tokens of ingest requests

With the check of tokens on, a request takes from the budget of a project, sends a record or notes the project as used only
after a moment at which the project had the token of the request, whatever happens to the projects meanwhile.
-/

namespace Errex.Proof.Projects
open Foundation Transaction Process Model Model.Pipeline Model.Ingest Store

def Demands (c : IngestCall) : Prop :=
  match c with
  | .projectByToken _ => False
  | _ => True

/-- The lookup of the token finds the project of the request. -/
def Vindicates (request : IngestRequest) : (c : IngestCall) → c.Reply → Prop
  | .projectByToken key, .ok (some project) =>
      extractSentryKey request.headers request.query = some key ∧ project.name = request.project
  | _, _ => False

def Unauthorized (response : Response) : Prop := response.status = 401 ∨ response.status = 500

def OwnProject (request : IngestRequest) : IngestCall → Prop
  | .check project | .touchProjectUsed project => project = request.project
  | .send rec => rec.project = request.project
  | _ => True

theorem ingestEnvelope_mediated {route : Route} (auth : route.requireAuth = true) (request : IngestRequest) :
    (ingestEnvelope route request).Mediated Demands (Vindicates request) Unauthorized := by
  unfold ingestEnvelope authorize
  rw [if_neg (by simp [auth])]
  split
  · exact Or.inl rfl
  · rename_i key found
    refine ⟨id, fun reply => ?_⟩
    rcases reply with error | _ | project
    · exact .inr (Or.inr rfl)
    · exact .inr (Or.inl rfl)
    · by_cases named : project.name = request.project
      · exact .inl ⟨found, named⟩
      · refine .inr ?_
        simp only [Process.bind, pure_eq, if_neg named]
        exact Or.inl rfl

theorem sendAll_own (route : Route) (request : IngestRequest) (events : List Event) :
    (sendAll route request.project events).Calls (OwnProject request) := by
  induction events with
  | nil => trivial
  | cons event events ih =>
      refine ⟨trivial, fun receivedAt => ⟨rfl, fun accepted => ?_⟩⟩
      cases accepted with
      | false => trivial
      | true => exact ih

theorem forward_own (route : Route) (request : IngestRequest) : (forward route request).Calls (OwnProject request) := by
  have noted : (taken request).Calls (OwnProject request) := ⟨rfl, fun _ => trivial⟩
  unfold forward
  split
  · trivial
  · split
    · trivial
    · trivial
    · trivial
    · split_ifs
      · exact noted
      · refine (sendAll_own route request _).bind fun sent => ?_
        cases sent with
        | false => trivial
        | true => exact noted

theorem ingestEnvelope_own (route : Route) (request : IngestRequest) :
    (ingestEnvelope route request).Calls (OwnProject request) := by
  have accepted : (accept route request).Calls (OwnProject request) := by
    refine ⟨rfl, fun granted => ?_⟩
    cases granted with
    | false => trivial
    | true => exact forward_own route request
  have checked : (authorize route request).Calls (OwnProject request) := by
    unfold authorize
    split_ifs
    · trivial
    · split
      · trivial
      · refine ⟨trivial, fun reply => ?_⟩
        rcases reply with error | _ | project <;> trivial
  refine checked.bind fun verdict => ?_
  cases verdict with
  | some refusal => trivial
  | none => exact accepted

def Authorized (request : IngestRequest) (db : Db) : Prop :=
  ∃ row ∈ db.projects.rows, extractSentryKey request.headers request.query = some row.token ∧ row.name = request.project

theorem authorized_of_vindicates {request : IngestRequest} {w : Surroundings} {c : IngestCall} {shared : Shared}
    (vindicates : Vindicates request c (execIngest w c shared).1) : Authorized request shared.db := by
  cases c with
  | projectByToken key =>
      have answers : (execIngest w (.projectByToken key) shared).1 =
          (transact w.store (projectByToken w.store.now key) shared.db).1 := rfl
      rw [answers] at vindicates
      cases reply : (transact w.store (projectByToken w.store.now key) shared.db).1 with
      | error error => exact (reply ▸ vindicates : Vindicates request (.projectByToken key) (.error error)).elim
      | ok found =>
          cases found with
          | none => exact (reply ▸ vindicates : Vindicates request (.projectByToken key) (.ok none)).elim
          | some project =>
              obtain ⟨extracted, named⟩ :=
                (reply ▸ vindicates : Vindicates request (.projectByToken key) (.ok (some project)))
              have looked := transact_ok reply
              rw [projectByToken, read_run] at looked
              obtain ⟨row, found, rfl⟩ := Option.map_eq_some_iff.mp (Prod.mk.inj (Except.ok.inj looked)).1
              have token : row.token = key := by simpa using List.find?_some found
              exact ⟨row, List.mem_of_find?_eq_some found, by rw [extracted, token], named⟩
  | check project => exact vindicates.elim
  | utcNow => exact vindicates.elim
  | send rec => exact vindicates.elim
  | touchProjectUsed project => exact vindicates.elim

/-- At some turn of the request, its project had its token. -/
def AuthorizedIn (start : State) (actions : List Action) (i : Nat) (request : IngestRequest) : Prop :=
  ∃ before w after, actions = before ++ .ingest i w :: after ∧
    Authorized request (Machine.run Pipeline.step start before).shared.db

theorem AuthorizedIn.append {start : State} {actions : List Action} {i : Nat} {request : IngestRequest}
    (authorized : AuthorizedIn start actions i request) (action : Action) :
    AuthorizedIn start (actions ++ [action]) i request := by
  obtain ⟨before, w, after, rfl, held⟩ := authorized
  exact ⟨before, w, after ++ [action], by simp, held⟩

def Pending (request : IngestRequest) (p : IngestHandler Response) : Prop :=
  p.Mediated Demands (Vindicates request) Unauthorized

theorem step_pool (s : State) (action : Action) {i : Nat} {p : IngestHandler Response} (at_i : s.pool[i]? = some p) :
    (Pipeline.step s action).pool[i]? = some p ∨ ∃ w c resume, action = .ingest i w ∧ p = .call c resume ∧
      (Pipeline.step s action).pool[i]? = some (resume (execIngest w c s.shared).1) := by
  cases action with
  | ingest request w =>
      by_cases full : blocked s request
      · exact .inl (by simpa only [Pipeline.step, if_pos full] using at_i)
      · rcases System.step_cases execIngest ⟨s.shared, s.pool⟩ (request, w) with same | ⟨c, resume, next, after⟩
        · exact .inl (by simpa only [Pipeline.step, if_neg full, same] using at_i)
        · simp only [Pipeline.step, if_neg full, after]
          rcases eq_or_ne request i with rfl | turns
          · obtain rfl := Option.some.inj (at_i.symm.trans next)
            have inside := (List.getElem?_eq_some_iff.mp at_i).1
            exact .inr ⟨w, c, resume, rfl, rfl, List.getElem?_set_self inside⟩
          · exact .inl ((List.getElem?_set_ne turns).trans at_i)
  | receive =>
      unfold Pipeline.step
      split_ifs <;> exact .inl at_i
  | processBatch w =>
      unfold Pipeline.step
      split_ifs <;> exact .inl at_i
  | createProject w name => exact .inl at_i
  | renameProject w old new => exact .inl at_i
  | deleteProject w name => exact .inl at_i
  | rotateToken w name => exact .inl at_i

theorem run_pending_or {route : Route} (auth : route.requireAuth = true) (requests : List IngestRequest) (db : Db)
    (limiter : RateLimit.RateLimiter) (actions : List Action) {i : Nat} {request : IngestRequest}
    (at_i : requests[i]? = some request) :
    let start := State.initial route requests db limiter
    ∃ p, (Machine.run Pipeline.step start actions).pool[i]? = some p ∧ p.Calls (OwnProject request) ∧
      (AuthorizedIn start actions i request ∨ Pending request p) := by
  intro start
  induction actions using List.reverseRecOn with
  | nil =>
      refine ⟨ingestEnvelope route request, ?_, ingestEnvelope_own route request, ?_⟩
      · simp [start, State.initial, Machine.run, at_i]
      · exact .inr (ingestEnvelope_mediated auth request)
  | append_singleton actions action ih =>
      obtain ⟨p, here, own, so_far⟩ := ih
      rw [Machine.run_append]
      rcases step_pool (Machine.run Pipeline.step start actions) action here with same | ⟨w, c, resume, rfl, rfl, next⟩
      · exact ⟨p, same, own, so_far.imp_left (·.append action)⟩
      · refine ⟨_, next, own.2 _, ?_⟩
        rcases so_far with authorized | pending
        · exact .inl (authorized.append _)
        · refine (pending.2 _).imp_left fun vindicates => ?_
          exact ⟨actions, w, [], rfl, authorized_of_vindicates vindicates⟩

/-- However requests, batches and changes of projects take turns: a call of a request other than the lookup of its token is
about its project, and comes after a turn of the request at which its project had its token; without such a turn, the
answer is 401 or 500. -/
theorem run_ingest_is_authorized {route : Route} (auth : route.requireAuth = true) (requests : List IngestRequest) (db : Db)
    (limiter : RateLimit.RateLimiter) (actions : List Action) {i : Nat} {request : IngestRequest}
    (at_i : requests[i]? = some request) :
    let start := State.initial route requests db limiter
    let s := Machine.run Pipeline.step start actions
    (∀ c resume, s.pool[i]? = some (.call c resume) → Demands c →
      OwnProject request c ∧ AuthorizedIn start actions i request) ∧
      ∀ response, s.pool[i]? = some (.ret response) → AuthorizedIn start actions i request ∨ Unauthorized response := by
  intro start s
  obtain ⟨p, here, own, so_far⟩ := run_pending_or auth requests db limiter actions at_i
  refine ⟨fun c resume next demands => ?_, fun response done => ?_⟩
  · obtain rfl := Option.some.inj (here.symm.trans next)
    exact ⟨own.1, so_far.resolve_right fun pending => pending.1 demands⟩
  · obtain rfl := Option.some.inj (here.symm.trans done)
    exact so_far

def asksBudget : IngestHandler Response → Bool
  | .call (.check _) _ => true
  | _ => false

theorem keyedRequest_is_authorized : AuthorizedIn before (registers :: turns 1) 0 keyedRequest := by
  have demanding : ((Machine.run Pipeline.step before (registers :: turns 1)).pool[0]?).any asksBudget := by decide +kernel
  obtain ⟨p, here, asks⟩ := Option.any_eq_true _ _ |>.mp demanding
  unfold asksBudget at asks
  split at asks
  · exact ((@run_ingest_is_authorized gatedRoute rfl [keyedRequest] Db.empty (.new 60 1) (registers :: turns 1) 0
      keyedRequest rfl).1 _ _ here trivial).2
  · cases asks

end Errex.Proof.Projects
