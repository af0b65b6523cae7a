import Errex.Proof.Accounts.Expect

/-!
# Every request is answered

Every handler is careful, so it is answered unless another request removes a row between the call
that sees it and the read that expects it (`run_answers`). Such a removal makes the read a panic.
-/

namespace Errex.Proof.Accounts
open Foundation Model Store Auth Admin Process

variable {α β : Type} {argon2 : Argon2}

theorem fromStr_isSome_iff {s : String} : (HeaderValue.fromStr s).isSome ↔
    ∀ c ∈ s.toList, (32 ≤ c.toNat ∧ c.toNat ≠ 127) ∨ c = '\t' := by
  simp only [HeaderValue.fromStr]
  split_ifs with h <;> simpa using h

theorem fromStr_append_isSome_iff {s t : String} : (HeaderValue.fromStr (s ++ t)).isSome ↔
    (HeaderValue.fromStr s).isSome ∧ (HeaderValue.fromStr t).isSome := by
  simp only [fromStr_isSome_iff, String.toList_append, List.forall_mem_append]

theorem fromStr_simple_isSome (uuid : Uuid) : (HeaderValue.fromStr uuid.simple).isSome := by
  have visible : ∀ d < 16, 32 ≤ (Nat.digitChar d).toNat ∧ (Nat.digitChar d).toNat ≠ 127 := by decide
  rw [fromStr_isSome_iff, Uuid.simple, String.toList_ofList]
  intro c mem
  obtain ⟨n, -, rfl⟩ := List.mem_map.mp mem
  exact .inl (visible _ (Nat.mod_lt _ (by omega)))

theorem sessionCookie_isSome (uuid uuid' : Uuid) (devMode : Bool) :
    (HeaderValue.fromStr (buildSessionCookie (generateSessionId uuid uuid') devMode)).isSome := by
  have whole : ∀ {s t : String}, (HeaderValue.fromStr s).isSome → (HeaderValue.fromStr t).isSome →
      (HeaderValue.fromStr (s ++ t)).isSome := fun hs ht => fromStr_append_isSome_iff.mpr ⟨hs, ht⟩
  have id : (HeaderValue.fromStr (toString (generateSessionId uuid uuid'))).isSome :=
    whole (fromStr_simple_isSome uuid) (fromStr_simple_isSome uuid')
  have secure : (HeaderValue.fromStr (toString (if devMode then "" else "; Secure"))).isSome := by
    cases devMode <;> decide
  have age : (HeaderValue.fromStr (toString sessionTtlSecs)).isSome := by decide
  rw [buildSessionCookie]
  refine whole (whole (whole (whole (whole (whole ?_ ?_) id) ?_) secure) ?_) age
  all_goals decide

theorem clearingCookie_isSome (devMode : Bool) :
    (HeaderValue.fromStr (buildClearingCookie devMode)).isSome := by
  cases devMode <;> decide

section Handlers

theorem requireAuth_careful (headers : HeaderMap) : Careful argon2 Anywhere (requireAuth headers) := by
  unfold requireAuth
  split
  · exact .ret _
  · refine .ask fun reply => ?_
    rcases reply with error | _ | ⟨session, role, deactivated⟩
    · exact .ret _
    · exact .ret _
    · exact .ask fun _ => .ret _

theorem requireAdmin_careful (headers : HeaderMap) : Careful argon2 Anywhere (requireAdmin headers) := by
  refine .bind (requireAuth_careful headers) fun result => ?_
  cases result <;> exact .ret _

theorem checkAdmin_careful {headers : HeaderMap} {rest : Handler Response}
    (careful : Careful argon2 Anywhere rest) : Careful argon2 Anywhere (checkAdmin headers rest) := by
  refine .bind (requireAdmin_careful headers) fun result => ?_
  cases result with
  | error response => exact .ret _
  | ok ctx => exact careful

theorem withBody_careful {body : Option α} {rest : α → Handler Response}
    (careful : ∀ body, Careful argon2 Anywhere (rest body)) : Careful argon2 Anywhere (withBody body rest) := by
  cases body with
  | none => exact .ret _
  | some body => exact careful body

theorem withCookie_careful {response : Response} {cookie : String}
    (fits : (HeaderValue.fromStr cookie).isSome) : Careful argon2 Anywhere (withCookie response cookie) :=
  .ofOption fits fun _ => .ret _

theorem window_isSome (now : UtcNow) : (now.instant.sub LockoutPolicy.default.window).isSome :=
  now.sub_isSome (by decide) (by decide)

theorem handleLogin_careful (state : AppState) (peer : Option String) (headers : HeaderMap)
    (body : Option LoginBody) : Careful argon2 Anywhere (handleLogin state peer headers body) := by
  cases body with
  | none => exact .ret _
  | some body =>
      have failures : ∀ since, Careful argon2 Anywhere (countUserFailures (Text.trim body.username) since) := by
        intro since
        unfold countUserFailures
        exact .ite (fun _ => .ret _) fun _ => .ask fun reply => .answer
      refine .ask fun now => .ofOption (window_isSome now) fun since => ?_
      refine .bind (failures since) fun userFailures => .ask fun reply => .ofExcept fun ipFailures => ?_
      split
      · exact .ret _
      refine .ask fun reply => .ofExcept fun storedHash => .ask fun (verified : Bool) => ?_
      refine .ask fun reply => .ofExcept fun user => .ite (fun _ => .ask fun _ => .ret _) fun _ => ?_
      refine .ask fun _ => .ask fun _ => ?_
      -- the session names the user, so the row is there when the session is
      refine .generateSessionId fun uuid uuid' => .createSession fun session => .expectUser fun user => ?_
      exact (withCookie_careful (sessionCookie_isSome uuid uuid' _)).weaken

theorem handleSetup_careful (state : AppState) (peer : Option String) (headers : HeaderMap)
    (body : Option SetupBody) : Careful argon2 Anywhere (handleSetup state peer headers body) := by
  cases body with
  | none => exact .ret _
  | some body =>
      refine .ask fun reply => .ofExcept fun users => .ite (fun _ => .ret _) fun _ => ?_
      split
      · exact .ret _
      refine .ask fun now => .ofOption (window_isSome now) fun since => .ask fun reply => .ofExcept fun _ => ?_
      split
      · exact .ret _
      refine .ite (fun _ => .ask fun _ => .ret _) fun _ => .ite (fun _ => .ret _) fun _ => ?_
      split
      · exact .ret _
      refine .ask fun reply => ?_
      split
      · exact .ret _
      refine .ask fun reply => .ofExcept fun user => .generateSessionId fun uuid uuid' => ?_
      refine .ask fun reply => .ofExcept fun session => .ask fun _ => ?_
      exact withCookie_careful (sessionCookie_isSome uuid uuid' _)

theorem handleLogout_careful (state : AppState) (headers : HeaderMap) :
    Careful argon2 Anywhere (handleLogout state headers) := by
  unfold handleLogout
  split
  · exact .ask fun _ => .ofExcept fun _ => withCookie_careful (clearingCookie_isSome _)
  · exact withCookie_careful (clearingCookie_isSome _)

theorem adminPutRetention_careful (headers : HeaderMap) (body : Option RetentionBody) :
    Careful argon2 Anywhere (adminPutRetention headers body) := by
  refine checkAdmin_careful (withBody_careful fun body => ?_)
  exact .ite (fun _ => .ret _) fun _ => .ask fun _ => .ofExcept fun _ => .ret _

theorem adminCreateProject_careful (state : AppState) (headers : HeaderMap) (body : Option String) :
    Careful argon2 Anywhere (adminCreateProject state headers body) := by
  refine checkAdmin_careful (withBody_careful fun body => ?_)
  refine .ite (fun _ => .ret _) fun _ => .ask fun reply => ?_
  split
  · exact .ret _
  · exact .ret _
  · exact .throw _

theorem adminSetWebhook_careful (parsers : Webhook.Parsers) (state : AppState) (name : String)
    (headers : HeaderMap) (body : Option WebhookBody) :
    Careful argon2 Anywhere (adminSetWebhook parsers state name headers body) := by
  refine checkAdmin_careful (withBody_careful fun body => ?_)
  split
  · exact .ret _
  refine .setProjectWebhook (.expectProject fun project => .ret _) fun error => ?_
  split
  · contradiction
  · exact .ret _
  · exact .throw _

theorem adminRenameProject_careful (state : AppState) (name : String) (headers : HeaderMap)
    (body : Option String) : Careful argon2 Anywhere (adminRenameProject state name headers body) := by
  refine checkAdmin_careful (withBody_careful fun body => ?_)
  refine .ite (fun _ => .ret _) fun _ => .ask fun reply => ?_
  split
  · exact .ret _
  · exact .ret _
  · exact .ret _
  · exact .throw _

theorem adminDeleteProject_careful (name : String) (headers : HeaderMap) :
    Careful argon2 Anywhere (adminDeleteProject name headers) := by
  refine checkAdmin_careful (.ask fun reply => ?_)
  split
  · exact .ret _
  · exact .ret _
  · exact .throw _

theorem adminCreateUser_careful (headers : HeaderMap) (body : Option CreateUserBody) :
    Careful argon2 Anywhere (adminCreateUser headers body) := by
  refine checkAdmin_careful (withBody_careful fun body => .ite (fun _ => .ret _) fun _ => ?_)
  split
  · exact .ret _
  refine .ask fun reply => .ofExcept fun hash => .ask fun reply => ?_
  split
  · exact .ret _
  · exact .ret _
  · exact .throw _

theorem ifSome_careful (row : Row) {field : Option α} {write : α → Handler Unit} {f : Unit → Handler β}
    {later : Prop} {pre : Db → Prop}
    (sees : ∀ a, Careful argon2 (fun db => row.stored db) (f ()) → Careful argon2 pre (write a >>= f))
    (rest : ∀ {pre : Db → Prop}, (∀ db, pre db → row.stored db) ∨ later → Careful argon2 pre (f ()))
    (seen : (∀ db, pre db → row.stored db) ∨ field.isSome ∨ later) :
    Careful argon2 pre (ifSome field write >>= f) := by
  cases field with
  | none => exact rest (by simpa using seen)
  | some a => exact sees a (rest (.inl fun _ stored => stored))

theorem applyPatch_careful {u : String} {body : PatchUserBody} {pre : Db → Prop}
    (seen : (∀ db, pre db → (Row.user u).stored db) ∨
      body.password.isSome ∨ body.role.isSome ∨ body.deactivated.isSome ∨ False) :
    Careful argon2 pre (applyPatch u body) := by
  refine ifSome_careful (.user u) (fun p rest => ?_) (ifSome_careful (.user u) (fun role rest => ?_)
    (ifSome_careful (.user u) (fun deact rest => ?_) fun seen => ?_)) seen
  · rw [bind_assoc]
    refine .ask fun reply => ?_
    rw [bind_assoc]
    exact .ofExcept fun hash => by
      rw [bind_assoc]
      exact .setUserPassword rest
  · rw [bind_assoc]
    exact .setUserRole rest
  · rw [bind_assoc]
    exact .setUserDeactivated rest
  · have final : Careful argon2 (fun db => (Row.user u).stored db) (do
        let updated ← Process.ofOption (← Process.ofExcept (← ask (.getUser u)))
        return Response.json 200 (.user updated)) := .expectUser fun user => .ret _
    exact ⟨fun db holds => final.1 db (seen.elim (· db holds) False.elim), final.2⟩

theorem adminPatchUser_careful (u : String) (headers : HeaderMap) (body : Option PatchUserBody) :
    Careful argon2 Anywhere (adminPatchUser u headers body) := by
  refine checkAdmin_careful (withBody_careful fun body => ?_)
  refine .getUser (.ret _) fun user => .ite nofun fun _ => ?_
  split
  · exact .ret _
  refine .expectUser fun current => .ite (fun changes => ?_) fun _ => applyPatch_careful (.inl fun _ h => h)
  refine .ask fun reply => .ofExcept fun admins => .ite (fun _ => .ret _) fun _ => applyPatch_careful ?_
  rw [Bool.or_eq_true, demoting, deactivating] at changes
  cases role : body.role <;> cases deact : body.deactivated <;> simp [role, deact] at changes ⊢

theorem adminDeleteUser_careful (u : String) (headers : HeaderMap) :
    Careful argon2 Anywhere (adminDeleteUser u headers) := by
  refine checkAdmin_careful (.ask fun reply => .ofExcept fun target => ?_)
  have delete : Careful argon2 Anywhere (do
      Process.ofExcept (← ask (.deleteUser u))
      return Response.mk 204 [] .empty) := .ask fun reply => .ofExcept fun _ => .ret _
  split
  · exact .ret _
  · refine .ite (fun _ => .ask fun reply => .ofExcept fun admins => ?_) fun _ => delete
    exact .ite (fun _ => .ret _) fun _ => delete

theorem adminRevokeUserSessions_careful (u : String) (headers : HeaderMap) :
    Careful argon2 Anywhere (adminRevokeUserSessions u headers) := by
  refine checkAdmin_careful (.ask fun reply => .ofExcept fun user => .ite (fun _ => .ret _) fun _ => ?_)
  exact .ask fun reply => .ofExcept fun revoked => .ret _

theorem handle_careful (parsers : Webhook.Parsers) (state : AppState) (request : Request) :
    Careful argon2 Anywhere (request.handle parsers state) := by
  cases request with
  | setup peer headers body => exact handleSetup_careful state peer headers body
  | login peer headers body => exact handleLogin_careful state peer headers body
  | logout headers => exact handleLogout_careful state headers
  | createUser headers body => exact adminCreateUser_careful headers body
  | patchUser u headers body => exact adminPatchUser_careful u headers body
  | deleteUser u headers => exact adminDeleteUser_careful u headers
  | revokeUserSessions u headers => exact adminRevokeUserSessions_careful u headers
  | createProject headers body => exact adminCreateProject_careful state headers body
  | setWebhook name headers body => exact adminSetWebhook_careful parsers state name headers body
  | renameProject name headers body => exact adminRenameProject_careful state name headers body
  | deleteProject name headers => exact adminDeleteProject_careful name headers
  | putRetention headers body => exact adminPutRetention_careful headers body

end Handlers

/-- The turn leaves the rows in place that other requests expect. -/
def SparesExpected (argon2 : Argon2) (s : Serving) (turn : Nat × World) : Prop :=
  ∀ j p row, j ≠ turn.1 → s.pool[j]? = some p → Expects row p → row.stored s.state →
    row.stored (s.step (exec argon2) turn).state

/-- When no turn removes a row that another request has seen and is about to read once more, every
request is answered as soon as it has made its calls. -/
theorem run_answers (argon2 : Argon2) (parsers : Webhook.Parsers) (state : AppState) (db : Db)
    (requests : List Request) (schedule : List (Nat × World))
    (permitted : System.Permits (exec argon2) (SparesExpected argon2) (serve parsers state db requests) schedule) :
    ∀ p ∈ ((serve parsers state db requests).run (exec argon2) schedule).pool,
      p.waiting ∨ (answered p).isSome := by
  have stable : ∀ (s : Serving) (turn : Nat × World) (c : Call) (resume : c.Reply → Handler Response) (j : Nat)
      (p : Handler Response), SparesExpected argon2 s turn → s.pool[turn.1]? = some (.call c resume) →
      True → Met s.state (.call c resume) → j ≠ turn.1 → s.pool[j]? = some p → Met s.state p →
      Met (exec argon2 turn.2 c s.state).2 p := by
    intro s turn c resume j p spares next _ _ other at_j met
    refine ⟨met.1, fun row expects => ?_⟩
    have kept := spares j p row other at_j expects (met.2 row expects)
    rwa [System.step_call next] at kept
  have each : ∀ p ∈ (serve parsers state db requests).pool,
      Met db p ∧ System.Upholds (exec argon2) (fun _ => True) Met p := by
    intro p mem
    obtain ⟨request, -, rfl⟩ := List.mem_map.mp mem
    have careful : Careful argon2 Anywhere (request.handle parsers state) := handle_careful parsers state request
    exact ⟨careful.1 db trivial, careful.2⟩
  have met := (System.run_rely_guarantee (fun _ => True) Met stable permitted trivial each).2
  intro p mem
  cases p with
  | ret response => exact .inr rfl
  | throw error => exact .inr rfl
  | panic => exact ((met _ mem).1 rfl).elim
  | call c resume => exact .inl rfl

theorem step_panics_of_missing {s : Serving} {j : Nat} {p : Handler Response} {row : Row} {w : World}
    (at_j : s.pool[j]? = some p) (expects : Expects row p) (gone : row.stored s.state = false)
    (calm : w.fault = none) : (s.step (exec argon2) (j, w)).pool[j]? = some .panic := by
  cases p with
  | call c resume =>
      have inside : j < s.pool.length := (List.getElem?_eq_some_iff.mp at_j).1
      have turns : s.pool[((j, w) : Nat × World).1]? = some (.call c resume) := at_j
      rw [System.step_call turns]
      simp only [List.getElem?_set_self inside, Option.some.injEq]
      cases c <;> simp only [Expects] at expects
      case getUser username =>
        obtain ⟨rfl, panics⟩ := expects
        have missing : s.state.users.find? username = none := by simpa [Row.stored] using gone
        have answer : (exec argon2 w (.getUser username) s.state).1 = .ok none := by
          simp only [exec, transact_calm calm, getUser, Transaction.read_run, missing, Option.map_none]
          rfl
        rw [answer, panics]
      case projectByName name =>
        obtain ⟨rfl, panics⟩ := expects
        have missing : s.state.projects.find? name = none := by simpa [Row.stored] using gone
        have answer : (exec argon2 w (.projectByName name) s.state).1 = .ok none := by
          simp only [exec, transact_calm calm, projectByName, Transaction.read_run, missing, Option.map_none]
          rfl
        rw [answer, panics]
  | ret response => exact expects.elim
  | throw error => exact expects.elim
  | panic => exact expects.elim

def sparesReads (argon2 : Argon2) (s : Serving) (turn : Nat × World) : Bool :=
  let kept (row : Row) := !row.stored s.state || row.stored (s.step (exec argon2) turn).state
  s.othersNext turn fun c => match c with
    | .getUser username => kept (.user username)
    | .projectByName name => kept (.project name)
    | _ => true

theorem sparesExpected_of_reads {s : Serving} {turn : Nat × World} (spares : sparesReads argon2 s turn = true) :
    SparesExpected argon2 s turn := by
  intro j p row other at_j expects stored
  cases p with
  | call c resume =>
      have kept := System.check_of_othersNext spares other at_j
      cases c
      case getUser username =>
        obtain ⟨rfl, -⟩ := expects
        simpa [stored] using kept
      case projectByName name =>
        obtain ⟨rfl, -⟩ := expects
        simpa [stored] using kept
      all_goals exact expects.elim
  | ret response => exact expects.elim
  | throw error => exact expects.elim
  | panic => exact expects.elim

theorem run_answers_interleaved :
    ((serve anyParsers localState rootDb
      [.createUser rootHeaders (some ⟨"alice", "correct horse battery", .viewer⟩),
        .patchUser "alice" rootHeaders (some ⟨none, none, none⟩), .deleteUser "alice" rootHeaders]).run
      (exec plainArgon2) (List.replicate 6 (0, noonWorld 0) ++ List.replicate 4 (1, noonWorld 0) ++
        List.replicate 3 (2, noonWorld 0) ++ [(1, noonWorld 0), (2, noonWorld 0)])).pool.all
          fun p => p.waiting || (answered p).isSome := by
  rw [List.all_eq_true]
  intro p mem
  rw [Bool.or_eq_true]
  have permitted : System.Permits (exec plainArgon2) (fun s turn => sparesReads plainArgon2 s turn = true)
      (serve anyParsers localState rootDb
        [.createUser rootHeaders (some ⟨"alice", "correct horse battery", .viewer⟩),
          .patchUser "alice" rootHeaders (some ⟨none, none, none⟩), .deleteUser "alice" rootHeaders])
      (List.replicate 6 (0, noonWorld 0) ++ List.replicate 4 (1, noonWorld 0) ++
        List.replicate 3 (2, noonWorld 0) ++ [(1, noonWorld 0), (2, noonWorld 0)]) := by decide +kernel
  exact run_answers plainArgon2 anyParsers localState rootDb _ _
    (permitted.mono fun _ _ spares => sparesExpected_of_reads spares) p mem

/-- Root deletes alice between the two reads of a PATCH of hers. -/
theorem run_panics_on_deleted_user :
    ¬ ∀ (argon2 : Argon2) (parsers : Webhook.Parsers) (state : AppState) (requests : List Request)
      (schedule : List (Nat × World)),
      ∀ p ∈ ((serve parsers state Db.empty requests).run (exec argon2) schedule).pool,
        p.waiting ∨ (answered p).isSome := by
  intro answers
  have all := answers plainArgon2 anyParsers localState
    [setupRequest, .createUser setupHeaders (some ⟨"alice", "correct horse battery", .viewer⟩),
      .patchUser "alice" setupHeaders (some ⟨none, none, none⟩), .deleteUser "alice" setupHeaders]
    (List.replicate 8 (0, noonWorld 0) ++ List.replicate 4 (1, noonWorld 0) ++
      List.replicate 4 (2, noonWorld 0) ++ List.replicate 4 (3, noonWorld 0) ++ [(2, noonWorld 0)])
  revert all
  decide +kernel

end Errex.Proof.Accounts
