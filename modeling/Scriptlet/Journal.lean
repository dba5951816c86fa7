import Scriptlet.Fault
import Scriptlet.Record
import Scriptlet.Store

/-!
# The journal

What evaluation does to the world is written down event by event. Some events are reported as log records; the making of a scope
and the binding of a name are not.

The `World` is what evaluation reads and changes: the store of scopes and the journal.
-/

namespace Scriptlet

/-- Something that evaluation does. -/
inductive Event where
  /-- A scope is made for a call. -/
  | opened (scope : ScopeId)
  /-- A name is bound in a scope. -/
  | bound (scope : ScopeId) (name : String)
  /-- A function with this number of parameters is entered, before the number of arguments is checked. -/
  | entered (arity : Nat)
  /-- A function is left, in whatever way. -/
  | exited (arity : Nat)
  /-- Evaluation fails. -/
  | raised (fault : Fault)
  /-- A run ends with an error. -/
  | failed (message : String)
  /-- A text is not run because of this number of mistakes in it. -/
  | rejected (count : Nat)
  deriving DecidableEq

/-- The log record of an event, if it is reported. -/
def Event.record? : Event → Option Record
  | opened _ | bound _ _ => none
  | entered n => some ⟨.trace, "enter apply_function", [("arity", toString n)]⟩
  | exited n => some ⟨.trace, "exit apply_function", [("arity", toString n)]⟩
  | raised f => some ⟨.debug, "event", [("message", "evaluation error"), ("message", f.message)]⟩
  | failed m => some ⟨.debug, "event", [("message", "evaluation failed"), ("error", m)]⟩
  | rejected n => some ⟨.debug, "event", [("message", "rejecting input with parse errors"), ("count", toString n)]⟩

/-- What evaluation reads and changes. -/
structure World where
  store : Store
  journal : Array Event

namespace World

/-- No scope, and nothing done. -/
def empty : World := ⟨Store.empty, #[]⟩

/-- Writes an event down. -/
def note (w : World) (e : Event) : World := { w with journal := w.journal.push e }

/-- The log records of the events after the first `n`. -/
def recordsFrom (w : World) (n : Nat) : List Record := (w.journal.toList.drop n).filterMap Event.record?

end World

end Scriptlet
