import Mathlib.Tactic

/-!
# Web origins

Absolute `http` and `https` URLs in their parts, and the serialisation of their origins: scheme and host in lower case,
and the port unless it is the default one.
-/

namespace Errex.Foundation.Origin

inductive Scheme where
  | http
  | https
  deriving DecidableEq

namespace Scheme

def name : Scheme → List Char
  | .http => "http".toList
  | .https => "https".toList

def defaultPort : Scheme → Nat
  | .http => 80
  | .https => 443

end Scheme

def portNumber (digits : List Char) : Nat := digits.foldl (fun n c => 10 * n + (c.toNat - 48)) 0

def delimits (c : Char) : Bool := c == '/' || c == '?' || c == '#' || c == '@'

/-- An absolute URL as it is spelled, in the parts of RFC 3986. -/
structure WebUrl where
  scheme : Scheme
  schemeText : List Char
  userinfo : Option (List Char)
  host : List Char
  port : Option (List Char)
  path : List Char
  query : Option (List Char)
  fragment : Option (List Char)
  in_scheme : schemeText.map Char.toLower = scheme.name
  in_userinfo : ∀ text ∈ userinfo, ∀ c ∈ text, delimits c = false
  host_ne_nil : host ≠ []
  in_host : ∀ c ∈ host, delimits c = false
  in_port : ∀ digits ∈ port, ∀ c ∈ digits, c.isDigit
  port_le : ∀ digits ∈ port, portNumber digits ≤ 65535
  path_front : path.head?.all (· == '/')
  in_path : ∀ c ∈ path, c ≠ '?' ∧ c ≠ '#'
  in_query : ∀ text ∈ query, ∀ c ∈ text, c ≠ '#'

namespace WebUrl

variable (url : WebUrl)

def authority : List Char :=
  (url.userinfo.map (· ++ ['@'])).getD [] ++ (url.host ++ (url.port.map (':' :: ·)).getD [])

def rest : List Char :=
  url.path ++ ((url.query.map ('?' :: ·)).getD [] ++ (url.fragment.map ('#' :: ·)).getD [])

def text : String := .ofList (url.schemeText ++ (':' :: '/' :: '/' :: (url.authority ++ url.rest)))

def originPort : List Char :=
  match url.port with
  | none | some [] => []
  | some digits =>
      if portNumber digits = url.scheme.defaultPort then [] else ':' :: Nat.toDigits 10 (portNumber digits)

def origin : String :=
  .ofList (url.scheme.name ++ (':' :: '/' :: '/' :: (url.host.map Char.toLower ++ url.originPort)))

end WebUrl

end Errex.Foundation.Origin
