import Errex.Model.Admin

/-!
# The origin check

`origin_allowed` of `ws.rs`, which stands before every upgrade to a websocket.
-/

namespace Errex.Model.Ws
open Foundation Text Admin

def normalize (u : String) : Option String :=
  (splitOnce (trimEndSlashes u) "://").map fun (scheme, afterScheme) =>
    let authority := takeWhile afterScheme (· != '/')
    s!"{scheme}://{authority}"

def originAllowed (origin publicUrl : String) (devMode : Bool) : Bool :=
  match normalize publicUrl with
  | none => false
  | some publicOrigin => origin == publicOrigin || (devMode && origin == "http://localhost:5173")

end Errex.Model.Ws
