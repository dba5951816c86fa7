import Scriptlet.Proofs.Evaluation.Plain
import Scriptlet.Session

/-!
# Histories of a session

A session is reached if runs lead to it from the start, one after the other, whatever the texts are and whatever comes of them
(`Session.Reached`). Nothing but evaluation binds names in such a session, so its world is plain.
-/

namespace Scriptlet

/-- The value of a program, or the error that its fault is. -/
def Outcome.value : Except Unwind Value → Value
  | .ok v => v
  | .error u => u.value

/-- The value of a program comes from evaluating its statements. -/
theorem Program.eval_eq_map (p : Program) (limit : Nat) (scope : ScopeId) (w : World) :
    p.eval limit scope w = (Stmt.evalAll (applyWithin limit) scope .null p.statements w).map fun x => (Outcome.value x.1, x.2) := by
  rw [Program.eval]
  split
  all_goals
    next hp =>
      rw [show Stmt.evalAll (applyWithin limit) scope .null p.statements w = _ from hp]
      rfl

theorem Program.eval_eq_some {p : Program} {limit : Nat} {scope : ScopeId} {w w' : World} {v : Value}
    (h : p.eval limit scope w = some (v, w')) :
    ∃ x, Stmt.evalAll (applyWithin limit) scope .null p.statements w = some (x, w') ∧ v = Outcome.value x := by
  rw [eval_eq_map, Option.map_eq_some_iff] at h
  obtain ⟨⟨x, w₁⟩, hx, heq⟩ := h
  cases heq
  exact ⟨x, hx, rfl⟩

/-- Statements that are evaluated in a plain world have a plain value or fail, and leave a plain world behind. -/
theorem Eval.stmts_plain {limit : Nat} {scope : ScopeId} {ss : List Stmt} {w w' : World} {x : Except Unwind Value}
    (hw : w.store.Plain) (h : Stmt.evalAll (applyWithin limit) scope .null ss w = some (x, w')) :
    Outcome.Plain x ∧ w'.store.Plain :=
  (stmts_obey (L := plainLaw scope _) (applyWithin_plain limit).applies ss Value.plain_null (List.Subset.refl _)).plain hw h

namespace Session

/-- The sessions that runs lead to from the start. -/
inductive Reached : Session → Prop where
  | start : Reached start
  | run {s s' : Session} {limit : Nat} {text : String} {r : Except Rejection Value} : Reached s →
      s.run limit text = some (r, s') → Reached s'

/-- A text that has a value is read without a diagnostic, and evaluated in the root scope. -/
theorem run_ok {s s' : Session} {limit : Nat} {text : String} {v : Value} (h : s.run limit text = some (.ok v, s')) :
    (parse text).diagnostics = [] ∧
      ∃ w, (parse text).program.eval limit s.root s.world = some (v, w) ∧ s' = { s with world := noteFailure v w } := by
  unfold run at h
  dsimp only at h
  split at h
  · next hd =>
    obtain ⟨⟨u, w⟩, hw, heq⟩ := Option.map_eq_some_iff.mp h
    cases heq
    exact ⟨hd, w, hw, rfl⟩
  · cases h

/-- A text that is rejected has diagnostics, and nothing is done but to write their number down. -/
theorem run_error {s s' : Session} {limit : Nat} {text : String} {e : Rejection} (h : s.run limit text = some (.error e, s')) :
    (parse text).diagnostics ≠ [] ∧ e = ⟨(parse text).diagnostics⟩ ∧
      s' = { s with world := s.world.note (.rejected (parse text).diagnostics.length) } := by
  unfold run at h
  dsimp only at h
  split at h
  · obtain ⟨x, -, heq⟩ := Option.map_eq_some_iff.mp h
    cases heq
  · next hd =>
    cases h
    exact ⟨hd, rfl, rfl⟩

theorem store_noteFailure (v : Value) (w : World) : (noteFailure v w).store = w.store := by
  unfold noteFailure
  split <;> rfl

theorem scope_start (id : ScopeId) : start.world.store.scope id = Scope.empty [] := by
  show (Store.empty.add (Scope.empty [])).2.scope id = _
  rw [Store.scope_add]
  split <;> rfl

theorem plain_start : start.world.store.Plain := by
  intro id name v hv
  rw [scope_start] at hv
  cases hv

/-- No scope of a session binds an error or a returned value, as long as only its runs bind names. -/
theorem Reached.plain {s : Session} (h : s.Reached) : s.world.store.Plain := by
  induction h with
  | start => exact plain_start
  | @run s s' limit text r _ hrun ih =>
    cases r with
    | error e =>
      obtain ⟨-, -, rfl⟩ := run_error hrun
      exact ih
    | ok v =>
      obtain ⟨-, w, hw, rfl⟩ := run_ok hrun
      obtain ⟨x, hx, -⟩ := Program.eval_eq_some hw
      rw [store_noteFailure]
      exact (Eval.stmts_plain ih hx).2

end Session

end Scriptlet
