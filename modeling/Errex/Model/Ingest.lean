import Errex.Foundation.Uri
import Errex.Model.Digest
import Errex.Model.Envelope
import Errex.Model.Http
import Errex.Model.RateLimit

/-!
# The ingest route

`ingest_envelope` of `ingest.rs` and what it calls.
-/

namespace Errex.Model.Ingest
open Foundation Store Text Process Envelope RateLimit Digest

def extractSentryKey (headers : HeaderMap) (query : String) : Option String :=
  let fromHeader := (headers.text "x-sentry-auth").bind fun auth =>
    ((split auth (· == ',')).flatMap fun part => splitWhitespace (trim part)).findSome? fun kv =>
      (stripLead kv "sentry_key=").map (trimMatches '"')
  fromHeader.orElse fun _ => (split query (· == '&')).findSome? (stripLead · "sentry_key=")

def routeProject (path : List Char) : Option String :=
  if "/api/".toList.isPrefixOf path then
    let (segment, rest) := (path.drop 5).span (· != '/')
    if segment.isEmpty || rest != "/envelope/".toList then none else Uri.decodeText segment
  else none

def MAX_DECOMPRESSED : Nat := 8 * 1024 * 1024

/-- flate2's `GzDecoder` over a body: the bytes it yields, and the error that it ends in, if any. -/
structure Inflated where
  bytes : List UInt8
  error : Option String

def maybeGunzip (gunzip : List UInt8 → Inflated) (body : Slice) : Except String Slice :=
  match body.bytes with
  | 0x1f :: 0x8b :: _ =>
      let out := gunzip body.bytes
      if h : out.bytes.length ≤ MAX_DECOMPRESSED then
        match out.error with
        | some error => .error error
        | none => .ok ⟨out.bytes, lt_of_le_of_lt h (by decide)⟩
      else .error "decompressed payload exceeds limit"
  | _ => .ok body

inductive IngestCall where
  | projectByToken (token : String)
  | check (project : String)
  | utcNow
  | send (rec : IngestEvent)
  | touchProjectUsed (project : String)

def IngestCall.Reply : IngestCall → Type
  | .projectByToken _ => Except DaemonError (Option Project)
  | .check _ => Bool
  | .utcNow => UtcNow
  | .send _ => Bool
  | .touchProjectUsed _ => Unit

abbrev Intake : Interface := ⟨IngestCall, IngestCall.Reply⟩

/-- What the ingest route shares with other tasks; `channel` holds the records on their way to the
digest task. -/
structure Shared where
  db : Db
  limiter : RateLimiter
  channel : List IngestEvent

structure Surroundings where
  store : World
  instant : Instant
  receiverGone : Bool

def execIngest : Semantics Intake Surroundings Shared := fun w c s =>
  match c with
  | .projectByToken token =>
      let (found, db) := transact w.store (projectByToken w.store.now token) s.db
      (found, { s with db })
  | .check project =>
      let (granted, limiter) := s.limiter.check project w.instant
      (granted, { s with limiter })
  | .utcNow => (w.store.now, s)
  | .send rec => if w.receiverGone then (false, s) else (true, { s with channel := s.channel ++ [rec] })
  | .touchProjectUsed project =>
      let (_, db) := bestEffort w.store (touchProjectUsed w.store.now project) s.db
      ((), { s with db })

structure Route where
  requireAuth : Bool
  serde : SerdeJson
  toJson : Event → String
  gunzip : List UInt8 → Inflated

structure IngestRequest where
  project : String
  headers : HeaderMap
  query : String
  body : Slice

abbrev IngestHandler (α : Type) := Process Intake DaemonError α

def await (c : IngestCall) : IngestHandler c.Reply := .call c .ret

@[simp] theorem await_bind {α : Type} (c : IngestCall) (f : c.Reply → IngestHandler α) : (await c >>= f) = .call c f := rfl

def authorize (route : Route) (request : IngestRequest) : IngestHandler (Option Response) :=
  if !route.requireAuth then pure none
  else match extractSentryKey request.headers request.query with
    | none => pure (some (.text 401 "missing sentry_key"))
    | some key => do
        match ← await (.projectByToken key) with
        | .ok (some p) =>
            pure (if p.name = request.project then none else some (.text 401 "invalid sentry_key for project"))
        | .ok none => pure (some (.text 401 "invalid sentry_key for project"))
        | .error _ => pure (some (.text 500 "internal error"))

def sendAll (route : Route) (project : String) : List Event → IngestHandler Bool
  | [] => pure true
  | event :: events => do
      let receivedAt : UtcNow ← await .utcNow
      let accepted : Bool ← await (.send (prepare route.toJson receivedAt project event))
      if accepted then sendAll route project events else pure false

def taken (request : IngestRequest) : IngestHandler Response := do
  await (.touchProjectUsed request.project)
  return ⟨200, [], .empty⟩

def forward (route : Route) (request : IngestRequest) : IngestHandler Response :=
  match maybeGunzip route.gunzip request.body with
  | .error _ => pure (.text 400 "invalid gzip")
  | .ok raw =>
      match parseEnvelope route.serde raw with
      | .err _ => pure (.text 400 "invalid envelope")
      | .panic | .outOfFuel => .panic
      | .ok events =>
          if events.isEmpty then taken request
          else do
            let sent ← sendAll route request.project events
            if sent then taken request else pure (.text 503 "shutting down")

def accept (route : Route) (request : IngestRequest) : IngestHandler Response := do
  let granted : Bool ← await (.check request.project)
  if granted then forward route request else pure (.text 429 "rate limit exceeded")

def ingestEnvelope (route : Route) (request : IngestRequest) : IngestHandler Response := do
  match ← authorize route request with
  | some refusal => pure refusal
  | none => accept route request

end Errex.Model.Ingest
