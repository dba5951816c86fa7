import Scriptlet.Proofs.Evaluation.Law

/-!
# Errors and returned values stay where they belong

A world is plain if no scope of it binds an error or a returned value. Evaluation that starts in a plain world ends in one. It has a
plain value, or leaves with a fault or with a plain value that is returned; and a return gets no further than the function it stands
in, or the program (`eval_plain`).

A host can bind an error or a returned value to a name, and then a name has it as its value: the world has to be plain.
-/

namespace Scriptlet

namespace Store

/-- All values that are bound have a property. -/
def Bound (s : Store) (P : Value → Prop) : Prop := ∀ id name v, (s.scope id).get? name = some v → P v

namespace Bound

variable {s : Store} {P Q : Value → Prop}

theorem imp (h : s.Bound P) (hPQ : ∀ v, P v → Q v) : s.Bound Q := fun id name v hv => hPQ v (h id name v hv)

theorem get? (h : s.Bound P) {id : ScopeId} {name : String} {v : Value} (hv : s.get? id name = some v) : P v := by
  obtain ⟨i, -, hi⟩ := List.exists_of_findSome?_eq_some hv
  exact h i name v hi

theorem set (h : s.Bound P) (id : ScopeId) (name : String) {v : Value} (hv : P v) : (s.set id name v).Bound P := by
  intro i n u hu
  rw [scope_set] at hu
  split at hu
  · rw [Scope.get?_set] at hu
    split at hu
    · cases hu
      exact hv
    · exact h i n u hu
  · exact h i n u hu

/-- A new scope binds what has the property. -/
theorem add (h : s.Bound P) {c : Scope} (hc : ∀ name v, c.get? name = some v → P v) : (s.add c).2.Bound P := by
  intro i n u hu
  rw [scope_add] at hu
  split at hu
  · exact hc n u hu
  · exact h i n u hu

end Bound

end Store

/-- No scope binds an error or a returned value. -/
def Store.Plain (s : Store) : Prop := ∀ id name v, (s.scope id).get? name = some v → v.Plain

/-- A return carries a plain value. -/
def Unwind.Plain : Unwind → Prop
  | .fault _ => True
  | .returned v => v.Plain

/-- A value, or what a return carries, is plain. -/
def Outcome.Plain : Except Unwind Value → Prop
  | .ok v => v.Plain
  | .error u => u.Plain

namespace Store.Plain

variable {s : Store}

theorem bound (h : s.Plain) : s.Bound Value.Plain := h

theorem get? (h : s.Plain) {id : ScopeId} {name : String} {v : Value} (hv : s.get? id name = some v) : v.Plain := h.bound.get? hv

/-- Binding a plain value keeps every scope plain. -/
theorem set (h : s.Plain) (id : ScopeId) (name : String) {v : Value} (hv : v.Plain) : (s.set id name v).Plain := h.bound.set id name hv

/-- A new scope binds nothing. -/
theorem addInside (h : s.Plain) (outer : ScopeId) : (s.addInside outer).2.Plain := h.bound.add nofun

end Store.Plain

namespace Eval

/-- In a plain world, values are plain and so is what a return carries. -/
def plainLaw (scope : ScopeId) (names : List String) : Law scope names where
  Inv w := w.store.Plain
  Good := Value.Plain
  Holds u? _ _ := ∀ u, u? = some u → u.Plain
  plain h := h
  refl _ := nofun
  trans _ h := h
  raise f h := by
    refine ⟨h, fun u hu => ?_⟩
    cases hu
    exact trivial
  leave _ hv u hu := by
    cases hu
    exact hv
  lookup h hv := h.get? hv
  bind _ h hv e := by
    subst e
    exact ⟨h.set _ _ hv, nofun⟩
  make _ _ h e := by
    subst e
    exact ⟨h, nofun⟩

variable {scope : ScopeId} {names : List String}

theorem outcome_plain {x : Except Unwind Value} {w w' : World} (h : (plainLaw scope names).Holds (reason? x) w w')
    (hv : ∀ v, x = .ok v → v.Plain) : Outcome.Plain x := by
  cases x with
  | ok v => exact hv v rfl
  | error u => exact h u rfl

/-- What evaluation in a plain world leaves behind. -/
theorem Obeys.plain {p : Eval Value} (hp : p.Obeys (plainLaw scope names) Value.Plain) {w w' : World}
    {x : Except Unwind Value} (hw : w.store.Plain) (h : p w = some (x, w')) : Outcome.Plain x ∧ w'.store.Plain := by
  obtain ⟨hw', hx, hv⟩ := hp w x w' hw h
  exact ⟨outcome_plain hx hv, hw'⟩

/-- Applying a function to plain values in a plain world has a plain value or fails, and leaves a plain world behind. -/
def AppliesPlainly (apply : Closure → List Value → Eval Value) : Prop :=
  ∀ (f : Closure) (args : List Value) (w w' : World) (x : Except Unwind Value), (∀ v ∈ args, v.Plain) → w.store.Plain →
    apply f args w = some (x, w') →
    ((∃ v, x = .ok v ∧ v.Plain) ∨ ∃ fault, x = .error (.fault fault)) ∧ w'.store.Plain

theorem AppliesPlainly.applies {apply : Closure → List Value → Eval Value} (ha : AppliesPlainly apply) :
    Applies (plainLaw scope names) apply := by
  intro f args hargs w x w' hw h
  obtain ⟨hx, hw'⟩ := ha f args w w' x hargs hw h
  obtain ⟨v, rfl, hv⟩ | ⟨fault, rfl⟩ := hx
  · exact ⟨hw', nofun, fun u hu => by cases hu; exact hv⟩
  · exact ⟨hw', fun u hu => by cases hu; exact trivial, nofun⟩

/-- Applying a function to plain values has a plain value or fails: a return in its body is the value of the call. By induction on
the limit, since the calls in the body have less of it. -/
theorem applyWithin_plain (limit : Nat) : AppliesPlainly (applyWithin limit) := by
  induction limit with
  | zero => exact nofun
  | succ limit ih =>
    intro f args w w' x hargs hw h
    have hbody := body_obeys (L := plainLaw w.store.scopes.size (f.names ++ f.body.targets)) ih.applies
      (List.Subset.refl _) hargs
    obtain ⟨y, w₁, hy, rfl, rfl⟩ := enter_of_applyWithin h
    rw [enter_apply] at hy
    have hplain : Outcome.Plain y ∧ w₁.store.Plain := by
      split at hy
      · exact hbody.plain (hw.addInside f.scope) hy
      · cases hy
        exact ⟨trivial, hw⟩
    refine ⟨?_, hplain.2⟩
    rcases y with (fault | v) | v
    · exact Or.inr ⟨fault, rfl⟩
    · exact Or.inl ⟨_, rfl, hplain.1⟩
    · exact Or.inl ⟨_, rfl, hplain.1⟩

/-- What every evaluation that starts in a world leaves behind, with a limit on the calls that are open at once. -/
structure StaysPlain (limit : Nat) (w : World) : Prop where
  expr (scope : ScopeId) (e : Expr) {x : Except Unwind Value} {w' : World} :
    e.eval (applyWithin limit) scope w = some (x, w') → Outcome.Plain x ∧ w'.store.Plain
  stmts (scope : ScopeId) (ss : List Stmt) {x : Except Unwind Value} {w' : World} :
    Stmt.evalAll (applyWithin limit) scope .null ss w = some (x, w') → Outcome.Plain x ∧ w'.store.Plain
  /-- The application of a function is not left by a return. -/
  application (f : Closure) (args : List Value) {x : Except Unwind Value} {w' : World} : (∀ v ∈ args, v.Plain) →
    applyWithin limit f args w = some (x, w') →
    ((∃ v, x = .ok v ∧ v.Plain) ∨ ∃ fault, x = .error (.fault fault)) ∧ w'.store.Plain
  /-- A program is not left by a return either, and its fault is an error. -/
  program (scope : ScopeId) (p : Program) {v : Value} {w' : World} : p.eval limit scope w = some (v, w') →
    (v.Plain ∨ ∃ message, v = .error message) ∧ w'.store.Plain

/-- Every evaluation that starts in a plain world ends in one, with a plain value, a fault or a return of a plain value. -/
theorem eval_plain (limit : Nat) {w : World} (hw : w.store.Plain) : StaysPlain limit w := by
  have stmts : ∀ (scope : ScopeId) (ss : List Stmt) {x w'},
      Stmt.evalAll (applyWithin limit) scope .null ss w = some (x, w') → Outcome.Plain x ∧ w'.store.Plain := by
    intro scope ss x w' h
    exact (stmts_obey (L := plainLaw scope _) (applyWithin_plain limit).applies ss Value.plain_null (List.Subset.refl _)).plain hw h
  refine ⟨fun scope e => ?_, stmts, fun f args x w' ha => applyWithin_plain limit f args w w' x ha hw, fun scope p v w' h => ?_⟩
  · exact (expr_obeys (L := plainLaw scope _) (applyWithin_plain limit).applies e (List.Subset.refl _)).plain hw
  · rw [Program.eval] at h
    split at h
    · next v' w₁ hp =>
      cases h
      obtain ⟨hv, hw'⟩ := stmts scope p.statements hp
      exact ⟨Or.inl hv, hw'⟩
    · next u w₁ hp =>
      cases h
      obtain ⟨hu, hw'⟩ := stmts scope p.statements hp
      refine ⟨?_, hw'⟩
      cases u with
      | fault f => exact Or.inr ⟨f.message, rfl⟩
      | returned v => exact Or.inl hu
    · cases h

theorem eval_plain_bound : (Store.empty.addRoot.2.set 0 "x" (.int 1)).Plain ∧
    StaysPlain 2 ⟨Store.empty.addRoot.2.set 0 "x" (.int 1), #[]⟩ :=
  have h : (Store.empty.addRoot.2.set 0 "x" (.int 1)).Plain := by
    refine Store.Plain.set (fun id name v hv => ?_) 0 "x" (Value.plain_int 1)
    rw [Store.addRoot, Store.scope_add] at hv
    split at hv
    · cases hv
    · cases hv
  ⟨h, eval_plain 2 h⟩

end Eval

end Scriptlet
