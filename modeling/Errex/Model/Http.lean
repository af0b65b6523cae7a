import Errex.Model.Store.Calls

/-!
# Requests and responses

What the handlers read of a request and build of a response; JSON bodies stay typed.
-/

namespace Errex.Model
open Foundation Store Text

/-- Names in lower case, values as bytes. -/
abbrev HeaderMap := List (String × List UInt8)

def HeaderValue.toStr (value : List UInt8) : Option String :=
  if value.all fun b => (32 ≤ b && b < 127) || b == 9 then
    some (.ofList (value.map fun b => Char.ofNat b.toNat))
  else none

def HeaderValue.fromStr (s : String) : Option String :=
  if s.toList.all fun c => (32 ≤ c.toNat && c.toNat != 127) || c == '\t' then some s else none

def HeaderMap.text (headers : HeaderMap) (name : String) : Option String :=
  (headers.lookup name).bind HeaderValue.toStr

structure AdminProjectView where
  name : String
  token : String
  webhookUrl : Option String
  createdAt : Reading
  lastUsedAt : Option Reading
  dsn : String
  ingestUrl : String
  lastWebhookStatus : Option Int
  lastWebhookAt : Option Reading
  deriving DecidableEq

inductive Body where
  | empty
  | text (s : String)
  | identity (username : String) (role : Role)
  | user (user : User)
  | project (view : AdminProjectView)
  | deleted (summary : DeleteSummary)
  | retention (settings : RetentionSettings)
  | sessionsRevoked (count : Nat)
  deriving DecidableEq

structure Response where
  status : Nat
  headers : List (String × String)
  body : Body
  deriving DecidableEq

def Response.text (status : Nat) (s : String) : Response := ⟨status, [], .text s⟩

def Response.json (status : Nat) (body : Body) : Response := ⟨status, [], body⟩

def Response.append (response : Response) (name value : String) : Response :=
  { response with headers := response.headers ++ [(name, value)] }

structure AppState where
  setupToken : Option String
  publicUrl : String
  devMode : Bool
  trustProxyHeaders : Bool

/-- An `Err` of a handler is an `ApiError`, which axum answers with 500. -/
abbrev Handler (α : Type) := Process Daemon DaemonError α

def answered : Handler Response → Option Response
  | .ret response => some response
  | .throw _ => some (.text 500 "internal error")
  | _ => none

def ask (c : Call) : Handler c.Reply := .call c .ret

@[simp] theorem ask_bind {α : Type} (c : Call) (f : c.Reply → Handler α) :
    (ask c >>= f) = .call c f := rfl

end Errex.Model
