import Scriptlet.Evaluation
import Scriptlet.Grammar.Parse
import Scriptlet.Value.Display

/-!
# Sessions

A session runs texts one after the other in one root scope, so that what one binds the next ones see. A text with mistakes in it
is rejected before anything of it is run. A text that fails while it runs is accepted: its value is the error, and what it bound
before stays bound.
-/

namespace Scriptlet

/-- A root scope in a world. -/
structure Session where
  root : ScopeId
  world : World

namespace Session

/-- A new root scope in an empty world. -/
def start : Session :=
  let (root, store) := Store.empty.addRoot
  ⟨root, { World.empty with store := store }⟩

/-- Writes the failure of a run down. -/
def noteFailure (v : Value) (w : World) : World := if v.isError then w.note (.failed v.display) else w

/-- Runs a text, with a limit on the calls that are open at once; there is no result if that is used up. -/
def run (limit : Nat) (text : String) (s : Session) : Option (Except Rejection Value × Session) :=
  let parsed := parse text
  match parsed.diagnostics with
  | [] => (parsed.program.eval limit s.root s.world).map fun (v, w) => (.ok v, { s with world := noteFailure v w })
  | ds => some (.error ⟨ds⟩, { s with world := s.world.note (.rejected ds.length) })

end Session

end Scriptlet
