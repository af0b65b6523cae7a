import Errex.Foundation.Double
import Errex.Foundation.Utf8
import Errex.Model.Router

/-!
# The page of an issue

`handler` of `spa.rs`, which serves the SPA under the paths that the router does not know, and what the page
`/issues/[id]` asks the daemon for: `load` of its `+page.ts`, `latestEvent` of `api.ts` and the `Path<i64>` of the
handler.
-/

namespace Errex.Model.Spa
open Foundation Uri Utf16 Router

inductive Served where
  | endpointNotFound
  | file (path : List Char)
  | notBuilt
  deriving DecidableEq

def handler (assets : List Char → Bool) (rawPath : List Char) : Served :=
  if "/api/".toList.isPrefixOf rawPath then .endpointNotFound
  else
    let path := rawPath.dropWhile (· == '/')
    let path := if path.isEmpty then "index.html".toList else path
    if assets path then .file path
    else if assets "index.html".toList then .file "index.html".toList
    else .notBuilt

def splitSign : List Char → Bool × List Char
  | '-' :: rest => (true, rest)
  | '+' :: rest => (false, rest)
  | s => (false, s)

def parseI64 (s : List Char) : Option Int :=
  let (negative, digits) := splitSign s
  if digits.isEmpty || !digits.all Char.isDigit then none
  else
    let n : Int := Nat.ofDigitChars 10 digits 0
    let value := if negative then -n else n
    if -2 ^ 63 ≤ value ∧ value < 2 ^ 63 then some value else none

namespace IssuePage

def params (path : List Char) : Option Utf16 :=
  match segments path with
  | [page, id] | [page, id, []] =>
      if page = "issues".toList ∧ id ≠ [] then (decodeText id).map encode else none
  | _ => none

def load (id : Utf16) : Option (Bool × Double) :=
  (Double.parseInt id).bind fun (negative, x) =>
    match x with
    | .finite .. => some (negative, x)
    | .infinity => none

def numberText (id : Bool × Double) : Utf16 :=
  if id.1 && id.2 != .ofNat 0 then unit '-' :: id.2.toText else id.2.toText

def latestEventPath (id : Bool × Double) : List Char :=
  joinPath ["api".toList, "issues".toList, scalars (numberText id), "event".toList]

def follow (assets : List Char → Bool) (blank : Bool) (link : List Char) : Option (Handler × List String) := do
  let address ← Uri.split link
  if route blank .get address.path = .fallback ∧ handler assets address.path = .file "index.html".toList then
    let id ← params address.path
    let number ← load id
    (route blank .get (resolvePath (latestEventPath number))).call
  else none

end IssuePage

end Errex.Model.Spa
