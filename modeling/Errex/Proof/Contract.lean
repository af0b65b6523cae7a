import Errex.Foundation.Honours
import Errex.Model.Routes
import Errex.Proof.Frame
import Mathlib.Data.List.DropRight

/-!
# What the handlers check before they store

A call that stores a name, an address, a hash, settings or a session is made only after the check that belongs to it, or
with what an earlier call has answered.
-/

namespace Errex.Proof.Contract
open Foundation Process Text Model Store Auth Admin Routes

def Named (s : String) : Prop := s ≠ "" ∧ trim s = s

theorem dropWhile_trimBy (strip : Char → Bool) (s : List Char) : (trimBy strip s).dropWhile strip = trimBy strip s := by
  have kept : trimBy strip s <+: s.dropWhile strip := by
    rw [trimBy, ← List.reverse_suffix, List.reverse_reverse]
    exact List.dropWhile_suffix _
  obtain ⟨rest, whole⟩ := kept
  cases found : trimBy strip s with
  | nil => rfl
  | cons c trimmed =>
      rw [found, List.cons_append] at whole
      have front := List.dropWhile_idempotent (p := strip) (l := s)
      rw [← whole, List.dropWhile_cons] at front
      split_ifs at front with stripped
      · have shorter := congrArg List.length front
        have fewer := (List.dropWhile_suffix strip (l := trimmed ++ rest)).length_le
        simp only [List.length_cons] at shorter
        omega
      · rw [List.dropWhile_cons_of_neg stripped]

theorem trimBy_trimBy (strip : Char → Bool) (s : List Char) : trimBy strip (trimBy strip s) = trimBy strip s := by
  conv_lhs => rw [trimBy, dropWhile_trimBy]
  simp only [trimBy, List.reverse_reverse, List.dropWhile_idempotent]

theorem named_trim {s : String} (some_ : ¬ (trim s).isEmpty = true) : Named (trim s) := by
  refine ⟨by simpa using some_, ?_⟩
  simp only [trim, String.toList_ofList, trimBy_trimBy]

def neutral : Call → Bool
  | .createProject _ | .renameProject _ _ | .setProjectWebhook _ _ | .setRetentionSettings _ | .createUser _ _ _
  | .setUserPassword _ _ | .createSession _ _ _ _ => false
  | _ => true

def NotNegative (settings : RetentionSettings) : Prop :=
  0 ≤ settings.eventsPerIssueMax ∧ 0 ≤ settings.issuesPerProjectMax ∧ 0 ≤ settings.eventRetentionDays

/-- What a call rests on, where replies can be trusted. -/
inductive Justified (parsers : Webhook.Parsers) (trusted : (c : Call) → c.Reply → Prop) : Call → Prop
  | neutral {c : Call} (harmless : neutral c = true) : Justified parsers trusted c
  | createProject {name : String} (named : Named name) : Justified parsers trusted (.createProject name)
  | renameProject {old new : String} (named : Named new) : Justified parsers trusted (.renameProject old new)
  | setProjectWebhook {name : String} {url : Option String}
      (valid : ∀ url', url = some url' → Webhook.validateUrl parsers url' = .ok ()) :
      Justified parsers trusted (.setProjectWebhook name url)
  | setRetentionSettings {settings : RetentionSettings} (notNegative : NotNegative settings) :
      Justified parsers trusted (.setRetentionSettings settings)
  | createUser {username hash plain : String} {role : Role} (named : Named username) (short : username.utf8ByteSize ≤ 64)
      (strong : validatePasswordStrength plain = .ok ()) (hashed : trusted (.hashPassword plain) (.ok hash)) :
      Justified parsers trusted (.createUser username hash role)
  | setUserPassword {username hash plain : String} (strong : validatePasswordStrength plain = .ok ())
      (hashed : trusted (.hashPassword plain) (.ok hash)) : Justified parsers trusted (.setUserPassword username hash)
  | createSession {id username : String} {ip ua : Option String} (drawn : trusted .generateSessionId id) :
      Justified parsers trusted (.createSession id username ip ua)

variable {α β : Type} {parsers : Webhook.Parsers} {trusted : (c : Call) → c.Reply → Prop}

abbrev Sound (parsers : Webhook.Parsers) (trusted : (c : Call) → c.Reply → Prop) (p : Handler α) : Prop :=
  p.Honours trusted (Justified parsers trusted)

-- The proofs below go by the rules for `Honours`; unfolding it would run the handlers.
attribute [local irreducible] Honours

theorem ask_sound {c : Call} {f : c.Reply → Handler α} (harmless : neutral c = true)
    (rest : ∀ reply, Sound parsers trusted (f reply)) : Sound parsers trusted (ask c >>= f) :=
  .pass (.neutral harmless) rest

theorem ask_justified {c : Call} {f : c.Reply → Handler α} (justified : Justified parsers trusted c)
    (rest : ∀ reply, Sound parsers trusted (f reply)) : Sound parsers trusted (ask c >>= f) :=
  .pass justified rest

theorem answer_sound (r : Except DaemonError α) : Sound parsers trusted (Process.ofExcept r : Handler α) := by
  cases r with
  | ok a => exact .ret a
  | error error => exact .throw error

theorem withCookie_sound (response : Response) (cookie : String) : Sound parsers trusted (withCookie response cookie) :=
  .ofOption fun _ => .ret _

theorem countUserFailures_sound (username : String) (since : DateTime) :
    Sound parsers trusted (countUserFailures username since) := by
  unfold countUserFailures
  refine .ite (fun _ => .ret _) fun _ => ask_sound rfl fun reply => ?_
  exact answer_sound reply

theorem createSession_sound {username : String} {ip ua : Option String} {f : String → Except DaemonError Session → Handler α}
    (rest : ∀ id reply, Sound parsers trusted (f id reply)) :
    Sound parsers trusted (ask .generateSessionId >>= fun id => ask (.createSession id username ip ua) >>= f id) :=
  .call (.neutral rfl) fun id drawn => .pass (.createSession drawn) (rest id)

theorem handleLogin_sound (state : AppState) (peer : Option String) (headers : HeaderMap) (body : Option LoginBody) :
    Sound parsers trusted (handleLogin state peer headers body) := by
  unfold handleLogin
  cases body with
  | none => exact .ret _
  | some body =>
      refine ask_sound rfl fun now => .ofOption fun since => ?_
      refine (countUserFailures_sound _ since).bind fun userFailures => ?_
      refine ask_sound rfl fun counted => .ofExcept fun ipFailures _ => ?_
      split
      · exact .ret _
      refine ask_sound rfl fun hash => .ofExcept fun storedHash _ => ?_
      refine ask_sound rfl fun (verified : Bool) => ask_sound rfl fun found => .ofExcept fun user _ => ?_
      refine .ite (fun _ => ask_sound rfl fun _ => .ret _) fun _ => ?_
      refine ask_sound rfl fun _ => ask_sound rfl fun _ => createSession_sound fun id created => .ofExcept fun _ _ => ?_
      refine ask_sound rfl fun again => .ofExcept fun user _ => .ofOption fun user => ?_
      exact withCookie_sound _ _

theorem handleSetup_sound (state : AppState) (peer : Option String) (headers : HeaderMap) (body : Option SetupBody) :
    Sound parsers trusted (handleSetup state peer headers body) := by
  unfold handleSetup
  cases body with
  | none => exact .ret _
  | some body =>
      refine ask_sound rfl fun counted => .ofExcept fun users _ => .ite (fun _ => .ret _) fun _ => ?_
      split
      · exact .ret _
      refine ask_sound rfl fun now => .ofOption fun since => ?_
      refine ask_sound rfl fun counted => .ofExcept fun ipFailures _ => ?_
      split
      · exact .ret _
      refine .ite (fun _ => ask_sound rfl fun _ => .ret _) fun _ => .ite (fun _ => .ret _) fun fits => ?_
      obtain ⟨named, short⟩ := not_or.mp fits
      split
      · exact .ret _
      rename_i strong
      refine .call (.neutral rfl) fun reply hashed => ?_
      cases reply with
      | error error => exact .ret _
      | ok hash =>
          refine .pass (.createUser (named_trim named) (Nat.le_of_not_lt short) strong hashed) fun created => ?_
          refine .ofExcept fun _ _ => createSession_sound fun id started => .ofExcept fun _ _ => ask_sound rfl fun _ => ?_
          exact withCookie_sound _ _

theorem handleLogout_sound (state : AppState) (headers : HeaderMap) : Sound parsers trusted (handleLogout state headers) := by
  unfold handleLogout
  split
  · exact ask_sound rfl fun reply => .ofExcept fun _ _ => withCookie_sound _ _
  · exact withCookie_sound _ _

theorem requireAuth_sound (headers : HeaderMap) : Sound parsers trusted (requireAuth headers) := by
  unfold requireAuth
  split
  · exact .ret _
  · refine ask_sound rfl fun reply => ?_
    match reply with
    | .error error => exact .ret _
    | .ok none => exact .ret _
    | .ok (some (session, role, deactivated)) => exact ask_sound rfl fun _ => .ret _

theorem requireAdmin_sound (headers : HeaderMap) : Sound parsers trusted (requireAdmin headers) := by
  refine (requireAuth_sound headers).bind fun verdict => ?_
  cases verdict <;> exact .ret _

theorem checkAdmin_sound {headers : HeaderMap} {rest : Handler Response} (sound : Sound parsers trusted rest) :
    Sound parsers trusted (checkAdmin headers rest) := by
  refine (requireAdmin_sound headers).bind fun verdict => ?_
  cases verdict with
  | error response => exact .ret _
  | ok _ => exact sound

theorem withBody_sound {body : Option β} {rest : β → Handler Response} (sound : ∀ body, Sound parsers trusted (rest body)) :
    Sound parsers trusted (withBody body rest) := by
  cases body with
  | none => exact .ret _
  | some body => exact sound body

theorem ifSome_sound {field : Option β} {write : β → Handler Unit}
    (sound : ∀ a, field = some a → Sound parsers trusted (write a)) : Sound parsers trusted (ifSome field write) := by
  cases field with
  | none => exact .ret _
  | some a => exact sound a rfl

theorem applyPatch_sound (u : String) {body : PatchUserBody}
    (strong : ∀ p, body.password = some p → validatePasswordStrength p = .ok ()) :
    Sound parsers trusted (applyPatch u body) := by
  unfold applyPatch
  refine (ifSome_sound fun p new => ?_).bind fun _ => (ifSome_sound fun role _ => ?_).bind fun _ =>
    (ifSome_sound fun deact _ => ?_).bind fun _ => ?_
  · refine .call (.neutral rfl) fun reply hashed => .ofExcept fun hash same => ?_
    subst same
    exact .pass (.setUserPassword (strong p new) hashed) fun reply => answer_sound reply
  · exact ask_sound rfl fun reply => answer_sound reply
  · exact ask_sound rfl fun reply => answer_sound reply
  · exact ask_sound rfl fun found => .ofExcept fun user _ => .ofOption fun updated => .ret _

theorem handle_sound (parsers : Webhook.Parsers) (state : AppState) (request : Request) :
    Sound parsers trusted (request.handle parsers state) := by
  cases request with
  | setup peer headers body => exact handleSetup_sound state peer headers body
  | login peer headers body => exact handleLogin_sound state peer headers body
  | logout headers => exact handleLogout_sound state headers
  | createUser headers body =>
      refine checkAdmin_sound (withBody_sound fun body => .ite (fun _ => .ret _) fun fits => ?_)
      obtain ⟨named, short⟩ := not_or.mp fits
      split
      · exact .ret _
      rename_i strong
      refine .call (.neutral rfl) fun reply hashed => .ofExcept fun hash same => ?_
      subst same
      refine ask_justified (.createUser (named_trim named) (Nat.le_of_not_lt short) strong hashed) fun created => ?_
      split <;> first | exact .ret _ | exact .throw _
  | patchUser u headers body =>
      refine checkAdmin_sound (withBody_sound fun body => ask_sound rfl fun found => .ofExcept fun user _ =>
        .ite (fun _ => .ret _) fun _ => ?_)
      split
      · exact .ret _
      rename_i checked
      have strong : ∀ p, body.password = some p → validatePasswordStrength p = .ok () := by
        intro p new
        cases verdict : validatePasswordStrength p with
        | ok passed => rfl
        | error why => exact absurd (by rw [new, Option.map_some, verdict]) (checked why)
      refine ask_sound rfl fun found => .ofExcept fun user _ => .ofOption fun current =>
        .ite (fun _ => ?_) fun _ => applyPatch_sound u strong
      exact ask_sound rfl fun counted => .ofExcept fun admins _ => .ite (fun _ => .ret _) fun _ => applyPatch_sound u strong
  | deleteUser u headers =>
      refine checkAdmin_sound (ask_sound rfl fun found => .ofExcept fun target _ => ?_)
      cases target with
      | none => exact .ret _
      | some target =>
          refine .ite (fun _ => ask_sound rfl fun counted => .ofExcept fun admins _ => .ite (fun _ => .ret _) fun _ => ?_)
            fun _ => ?_
          · exact ask_sound rfl fun reply => .ofExcept fun _ _ => .ret _
          · exact ask_sound rfl fun reply => .ofExcept fun _ _ => .ret _
  | revokeUserSessions u headers =>
      refine checkAdmin_sound (ask_sound rfl fun found => .ofExcept fun user _ => .ite (fun _ => .ret _) fun _ => ?_)
      exact ask_sound rfl fun reply => .ofExcept fun revoked _ => .ret _
  | createProject headers body =>
      refine checkAdmin_sound (withBody_sound fun body => .ite (fun _ => .ret _) fun named => ?_)
      refine ask_justified (.createProject (named_trim named)) fun created => ?_
      split <;> first | exact .ret _ | exact .throw _
  | setWebhook name headers body =>
      refine checkAdmin_sound (withBody_sound fun body => ?_)
      split
      · exact .ret _
      rename_i checked
      have valid : ∀ url, body.url = some url → Webhook.validateUrl parsers url = .ok () := by
        intro url new
        cases verdict : Webhook.validateUrl parsers url with
        | ok passed => rfl
        | error why => exact absurd (by rw [new, Option.map_some, verdict]) (checked why)
      refine ask_justified (.setProjectWebhook valid) fun reply => ?_
      split
      · exact ask_sound rfl fun found => .ofExcept fun project _ => .ofOption fun p => .ret _
      · exact .ret _
      · exact .throw _
  | renameProject name headers body =>
      refine checkAdmin_sound (withBody_sound fun body => .ite (fun _ => .ret _) fun named => ?_)
      refine ask_justified (.renameProject (named_trim named)) fun renamed => ?_
      split <;> first | exact .ret _ | exact .throw _
  | deleteProject name headers =>
      refine checkAdmin_sound (ask_sound rfl fun deleted => ?_)
      split <;> first | exact .ret _ | exact .throw _
  | putRetention headers body =>
      refine checkAdmin_sound (withBody_sound fun body => .ite (fun _ => .ret _) fun notNegative => ?_)
      have settings : NotNegative ⟨body.eventsPerIssueMax, body.issuesPerProjectMax, body.eventRetentionDays⟩ := by
        simpa only [NotNegative, not_or, Int64.not_lt] using notNegative
      exact ask_justified (.setRetentionSettings settings) fun reply => .ofExcept fun _ _ => .ret _

def JustifiedAny (parsers : Webhook.Parsers) (trusted : (c : Call) → c.Reply → Prop) : Http.Call → Prop
  | .inl c => Justified parsers trusted c
  | .inr _ => True

def TrustedAny (trusted : (c : Call) → c.Reply → Prop) : (c : Http.Call) → Http.Reply c → Prop
  | .inl c, reply => trusted c reply
  | .inr _, _ => True

abbrev SoundPage (parsers : Webhook.Parsers) (trusted : (c : Call) → c.Reply → Prop) (p : Page α) : Prop :=
  p.Honours (TrustedAny trusted) (JustifiedAny parsers trusted)

theorem inl_sound {p : Handler α} (sound : Sound parsers trusted p) : SoundPage parsers trusted (p.inl : Page α) := sound.inl

theorem query_sound {c : Query} {f : c.Reply → Page α} (rest : ∀ reply, SoundPage parsers trusted (f reply)) :
    SoundPage parsers trusted (query c >>= f) :=
  .pass trivial rest

theorem daemon_sound {c : Call} {f : c.Reply → Page α} (harmless : neutral c = true)
    (rest : ∀ reply, SoundPage parsers trusted (f reply)) : SoundPage parsers trusted (daemon c >>= f) :=
  .pass (Justified.neutral harmless) rest

theorem signedIn_sound {headers : HeaderMap} {rest : AuthContext → Page Answer}
    (sound : ∀ ctx, SoundPage parsers trusted (rest ctx)) : SoundPage parsers trusted (signedIn headers rest) := by
  refine (inl_sound (requireAuth_sound headers)).bind fun verdict => ?_
  cases verdict with
  | error response => exact .ret _
  | ok ctx => exact sound ctx

theorem asAdmin_sound {headers : HeaderMap} {rest : Page Answer} (sound : SoundPage parsers trusted rest) :
    SoundPage parsers trusted (asAdmin headers rest) := by
  refine (inl_sound (requireAdmin_sound headers)).bind fun verdict => ?_
  cases verdict with
  | error response => exact .ret _
  | ok ctx => exact sound

theorem route_sound (parsers : Webhook.Parsers) (state : AppState) (route : Route) :
    SoundPage parsers trusted (route.handle parsers state) := by
  cases route with
  | api request => exact (inl_sound (handle_sound parsers state request)).bind fun response => .ret _
  | setupStatus => exact daemon_sound rfl fun counted => .ofExcept fun _ _ => .ret _
  | me headers => exact signedIn_sound fun ctx => .ret _
  | listProjects headers => exact signedIn_sound fun ctx => query_sound fun reply => .ofExcept fun _ _ => .ret _
  | listIssues headers project =>
      refine signedIn_sound fun ctx => ?_
      cases project with
      | none => exact query_sound fun reply => .ofExcept fun _ _ => .ret _
      | some project => exact query_sound fun reply => .ofExcept fun _ _ => .ret _
  | latestEvent id headers =>
      refine signedIn_sound fun ctx => query_sound fun reply => .ofExcept fun stored _ => ?_
      cases stored <;> exact .ret _
  | ws headers =>
      refine signedIn_sound fun ctx => ?_
      split
      · exact .ret _
      · exact query_sound fun _ => .ret _
  | putStatus id headers body =>
      refine asAdmin_sound ?_
      cases body with
      | none => exact .ret _
      | some status =>
          refine daemon_sound rfl fun reply => ?_
          split
          · exact query_sound fun _ => .ret _
          · exact .ret _
          · exact .throw _
  | getStorage headers => exact asAdmin_sound (query_sound fun reply => .ofExcept fun _ _ => .ret _)
  | getRetention headers => exact asAdmin_sound (daemon_sound rfl fun reply => .ofExcept fun _ _ => .ret _)
  | adminProjects headers => exact asAdmin_sound (query_sound fun reply => .ofExcept fun _ _ => .ret _)
  | rotateToken name headers =>
      refine asAdmin_sound (query_sound fun reply => ?_)
      split <;> first | exact .ret _ | exact .throw _
  | destroyPreview name headers =>
      refine asAdmin_sound (query_sound fun reply => ?_)
      split <;> first | exact .ret _ | exact .throw _
  | projectActivity name headers =>
      refine asAdmin_sound (daemon_sound rfl fun reply => .ofExcept fun project _ => .ite (fun _ => .ret _) fun _ => ?_)
      exact daemon_sound rfl fun now => query_sound fun reply => .ofExcept fun answer _ => .ofOption fun stats => .ret _
  | listUsers headers => exact asAdmin_sound (query_sound fun reply => .ofExcept fun _ _ => .ret _)
  | getUser u headers =>
      refine asAdmin_sound (daemon_sound rfl fun reply => .ofExcept fun user _ => ?_)
      cases user <;> exact .ret _
  | listUserSessions u headers =>
      refine asAdmin_sound (daemon_sound rfl fun reply => .ofExcept fun user _ => .ite (fun _ => .ret _) fun _ => ?_)
      exact query_sound fun reply => .ofExcept fun _ _ => .ret _

theorem execQuery_reads {outside : Outside} {db : Db} (w : World) {c : Query} (sent : List ServerMessage) (reads : ∀ name, c ≠ .rotateToken name) :
    (execQuery outside w c (db, sent)).2.1 = db := by
  have same : ∀ {α : Type} {tx : Tx α}, tx.Keeps (· = db) → (transact w tx db).2 = db := fun keeps => transact_keeps keeps rfl
  cases c
  case rotateToken name => exact absurd rfl (reads name)
  case latestEvent id =>
    refine same fun before found after done kept => ?_
    unfold Store.latestEvent at done
    split at done
    · cases done
      exact kept
    · rename_i row latest
      cases event : StoredEvent.ofRow outside.fromStr w.now row with
      | error error => simp [event, Except.map] at done
      | ok event' =>
          rw [event] at done
          cases done
          exact kept
  case deletePreview name =>
    refine same (.bind (.read _) fun project => ?_)
    split_ifs
    · exact .bind (.fail _) fun _ => .bind (.read _) fun counts => .pure _
    · exact .bind (.read _) fun counts => .pure _
  case broadcast message => rfl
  case subscribe => rfl
  all_goals exact same (.read _)

end Errex.Proof.Contract
