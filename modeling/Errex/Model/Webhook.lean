import Errex.Foundation.Text

/-!
# The check of webhook addresses

`validate_url` of `webhook.rs`, over the url crate and the address parser of the standard library.
-/

namespace Errex.Model.Webhook
open Foundation

structure Url where
  scheme : String
  username : String
  password : Option String
  hostStr : Option String

inductive IpAddr where
  | v4 (octets : Fin 4 → UInt8)
  | v6 (segments : Fin 8 → UInt16)

/-- `Url::parse` and `str::parse::<IpAddr>`. -/
structure Parsers where
  url : String → Option Url
  ip : String → Option IpAddr

/-- An address has a first octet. -/
instance fourOctets : NeZero 4 := ⟨by decide⟩

def isPrivateOrLocalV4 (o : Fin 4 → UInt8) : Bool :=
  -- loopback, private and link-local ranges
  o 0 == 127 ||
    (o 0 == 10 || (o 0 == 172 && 16 ≤ o 1 && o 1 ≤ 31) || (o 0 == 192 && o 1 == 168)) ||
    (o 0 == 169 && o 1 == 254) ||
    -- multicast, unspecified and broadcast
    (224 ≤ o 0 && o 0 ≤ 239) ||
    (o 0 == 0 && o 1 == 0 && o 2 == 0 && o 3 == 0) ||
    (o 0 == 255 && o 1 == 255 && o 2 == 255 && o 3 == 255) ||
    -- CGNAT 100.64.0.0/10
    (o 0 == 100 && o 1 &&& 0b11000000 == 64)

def isPrivateOrLocalV6 (s : Fin 8 → UInt16) : Bool :=
  let front := s 0 == 0 && s 1 == 0 && s 2 == 0 && s 3 == 0 && s 4 == 0 && s 5 == 0 && s 6 == 0
  (front && s 7 == 1) || (front && s 7 == 0) || s 0 &&& 0xff00 == 0xff00 ||
    s 0 &&& 0xfe00 == 0xfc00 || s 0 &&& 0xffc0 == 0xfe80

def ipIsPrivateOrLocal : IpAddr → Bool
  | .v4 octets => isPrivateOrLocalV4 octets
  | .v6 segments => isPrivateOrLocalV6 segments

def internalSuffixes : List String :=
  [".localhost", ".local", ".internal", ".lan", ".intranet", ".corp", ".home.arpa"]

def hostnameInInternalZone (host : String) : Bool :=
  internalSuffixes.any fun suffix => suffix.toList.isSuffixOf host.toList

def stripBrackets (host : String) : String :=
  .ofList ((host.toList.dropWhile (· == '[')).reverse.dropWhile (· == ']')).reverse

def validateUrl (parsers : Parsers) (raw : String) : Except String Unit :=
  match parsers.url raw with
  | none => .error "invalid url"
  | some url =>
      if url.scheme ≠ "http" ∧ url.scheme ≠ "https" then .error "scheme must be http or https"
      else if url.username ≠ "" ∨ url.password.isSome then
        .error "userinfo not allowed in webhook url"
      else match url.hostStr with
        | none => .error "missing host"
        | some host =>
            match parsers.ip (stripBrackets host) with
            | some ip =>
                if ipIsPrivateOrLocal ip then
                  .error "private, loopback, or link-local addresses not allowed"
                else .ok ()
            | none =>
                let lower := String.ofList (host.toList.map Char.toLower)
                if lower = "localhost" ∨ hostnameInInternalZone lower then
                  .error "loopback / internal-zone hostnames not allowed"
                else .ok ()

end Errex.Model.Webhook
