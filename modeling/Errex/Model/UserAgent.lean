import Errex.Model.Proto

/-!
# Tags from the User-Agent header

`user_agent.rs`: the operating system and the browser named by a User-Agent string, and their
insertion into the tags of an event.
-/

namespace Errex.Model.UserAgent
open Foundation Text

def afterToken (haystack needle : String) : Option String := (splitOnce haystack needle).map Prod.snd

def tokenUntilSpaceOrParen (s : String) : String :=
  takeWhile s fun c => !isWhitespace c && c != ')' && c != ';'

def tokenUntilSemiOrParen (s : String) : String :=
  trim (takeWhile s fun c => c != ';' && c != ')')

def parseWindowsNt (version : String) : Option String :=
  match trim version with
  | "10.0" => some "10"
  | "6.3" => some "8.1"
  | "6.2" => some "8"
  | "6.1" => some "7"
  | "6.0" => some "Vista"
  | "5.2" => some "XP"
  | "5.1" => some "XP"
  | "5.0" => some "2000"
  | "" => none
  | other => some other

def detectOs (ua : String) : Option (String × Option String) :=
  match afterToken ua "Windows NT " with
  | some rest => some ("Windows", ((split rest fun c => c == ';' || c == ')').head?.bind parseWindowsNt))
  | none =>
      if contains ua "Android " then
        some ("Android", (afterToken ua "Android ").map tokenUntilSemiOrParen)
      else if contains ua "iPhone" || contains ua "iPad" || contains ua "iPod" then
        some ("iOS", (afterToken ua "OS ").map fun v => replaceChar (tokenUntilSpaceOrParen v) '_' '.')
      else if contains ua "Mac OS X" then
        some ("macOS", (afterToken ua "Mac OS X ").map fun v =>
          replaceChar (tokenUntilSpaceOrParen v) '_' '.')
      else if contains ua "CrOS" then some ("Chrome OS", none)
      else if contains ua "Linux" then some ("Linux", none)
      else none

/-- The tokens of the browsers in the order of the tests: shells that also say `Chrome/` first. -/
def browserTokens : List (String × String) :=
  [("Edg/", "Edge"), ("OPR/", "Opera"), ("Firefox/", "Firefox"), ("CriOS/", "Chrome"),
    ("FxiOS/", "Firefox"), ("Chrome/", "Chrome")]

def detectBrowser (ua : String) : Option (String × Option String) :=
  match browserTokens.findSome? fun (token, name) => (afterToken ua token).map fun v =>
      (name, some (tokenUntilSpaceOrParen v)) with
  | some found => some found
  | none =>
      if contains ua "Safari/" then
        some ("Safari", (afterToken ua "Version/").map tokenUntilSpaceOrParen)
      else none

def familyTags (key : String) : Option (String × Option String) → List (String × String)
  | none => []
  | some (name, version) =>
      [(key ++ ".name", name), (key, match version with
        | some v => name ++ " " ++ v
        | none => name)]

def parseUserAgent (ua : String) : List (String × String) :=
  familyTags "os" (detectOs ua) ++ familyTags "browser" (detectBrowser ua)

def extractUserAgent (event : Event) : Option String := do
  let request ← event.request
  let headers ← request.get "headers"
  let members ← headers.asObject
  let (_, value) ← members.find? fun (name, _) => eqIgnoreAsciiCase name "user-agent"
  value.asStr

def ensureTagsObject (tags : Option Value) : Map :=
  match tags with
  | some (.object members) => members
  | _ => []

def augmentTagsFromUserAgent (event : Event) : Event :=
  match extractUserAgent event with
  | none => event
  | some ua =>
      match parseUserAgent ua with
      | [] => event
      | derived =>
          let tags := derived.foldl (fun tags (key, value) => tags.orInsert key (.string value))
            (ensureTagsObject event.tags)
          { event with tags := some (.object tags) }

example : parseUserAgent "Mozilla/5.0 (Android 14; Mobile; rv:122.0) Gecko/122.0 Firefox/122.0" =
    [("os.name", "Android"), ("os", "Android 14"),
      ("browser.name", "Firefox"), ("browser", "Firefox 122.0")] := by decide +kernel

end Errex.Model.UserAgent
