import Scriptlet.Evaluation

/-!
# What each step of evaluation does

A step of evaluation is a function of the world it starts from. Here, per step, what it gives: nothing if the limit on calls is
used up, and else its value, or the reason why it leaves, with the world after it. A sequence of two steps goes on with the
second one only if the first one has a value.
-/

namespace Scriptlet

namespace Eval

variable {α β : Type}

@[simp] theorem pure_apply (a : α) (w : World) : (pure a : Eval α) w = some (.ok a, w) := rfl

@[simp] theorem throw_apply (u : Unwind) (w : World) : (throw u : Eval α) w = some (.error u, w) := rfl

@[simp] theorem get_apply (w : World) : (get : Eval World) w = some (.ok w, w) := rfl

@[simp] theorem modify_apply (f : World → World) (w : World) : (modify f : Eval Unit) w = some (.ok (), f w) := rfl

@[simp] theorem exhausted_apply (w : World) : (exhausted : Eval α) w = none := rfl

/-- The second step starts where the first one ends; nothing follows a step that leaves. -/
theorem bind_apply (p : Eval α) (f : α → Eval β) (w : World) :
    (p >>= f) w = match p w with
      | none => none
      | some (.error u, w') => some (.error u, w')
      | some (.ok a, w') => f a w' := by
  show Option.bind (p w) _ = _
  rcases p w with _ | ⟨_ | a, w'⟩ <;> rfl

/-- Failing writes one event down. -/
@[simp] theorem raise_apply (f : Fault) (w : World) :
    (raise f : Eval α) w = some (.error (.fault f), w.note (.raised f)) := rfl

theorem settle_apply (r : Except Fault Value) (w : World) :
    settle r w = match r with
      | .ok v => some (.ok v, w)
      | .error f => some (.error (.fault f), w.note (.raised f)) := by
  cases r <;> rfl

theorem lookup_apply (scope : ScopeId) (name : String) (w : World) :
    lookup scope name w = match w.store.get? scope name with
      | some v => some (.ok v, w)
      | none => some (.error (.fault (.unbound name)), w.note (.raised (.unbound name))) := by
  simp only [lookup, bind_apply, get_apply]
  cases w.store.get? scope name <;> rfl

@[simp] theorem bindName_apply (scope : ScopeId) (name : String) (v : Value) (w : World) :
    bindName scope name v w = some (.ok (), { w with store := w.store.set scope name v }.note (.bound scope name)) := rfl

@[simp] theorem openScope_apply (outer : ScopeId) (w : World) :
    openScope outer w = some (.ok w.store.scopes.size,
      { w with store := (w.store.addInside outer).2 }.note (.opened w.store.scopes.size)) := rfl

@[simp] theorem makeFunction_apply (scope : ScopeId) (ps : List Identifier) (b : Block) (w : World) :
    makeFunction scope ps b w = some (.ok (.function (w.store.addFunction ps b scope).1),
      { w with store := (w.store.addFunction ps b scope).2 }) := rfl

/-- A call is entered before and left after its body, and takes a returned value as its own. -/
theorem call_apply (arity : Nat) (body : Eval Value) (w : World) :
    call arity body w = (body (w.note (.entered arity))).map fun x => (atCall x.1, x.2.note (.exited arity)) := by
  show Option.bind (body (w.note (.entered arity))) _ = _
  cases body (w.note (.entered arity)) <;> rfl

end Eval

end Scriptlet
