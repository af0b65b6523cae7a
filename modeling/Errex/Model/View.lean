import Errex.Foundation.Table
import Errex.Model.Proto

/-!
# What the SPA shows

The messages of a live connection and what the SPA's stores make of them.
-/

namespace Errex.Model
open Foundation

inductive ServerMessage where
  | hello (serverVersion : String)
  | snapshot (issues : List Issue)
  | issueCreated (issue : Issue)
  | issueUpdated (issue : Issue)
  deriving DecidableEq

structure View where
  byId : Table Issue Int Issue.id
  serverVersion : Option String
  initialLoad : Bool

def View.empty : View := ⟨.empty, none, true⟩

def View.upsert (view : View) (issue : Issue) : View := { view with byId := view.byId.set issue }

def View.reset (view : View) (issues : List Issue) : View :=
  { view with byId := issues.foldl Table.set .empty }

def View.handle (view : View) : ServerMessage → View
  | .hello serverVersion => { view with serverVersion := some serverVersion }
  | .snapshot issues => { view.reset issues with initialLoad := false }
  | .issueCreated issue => view.upsert issue
  | .issueUpdated issue => view.upsert issue

end Errex.Model
