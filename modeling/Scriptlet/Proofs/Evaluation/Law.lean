import Scriptlet.Proofs.Evaluation.Course

/-!
# Laws of evaluation

A `Law` says something of the worlds before and after evaluation in one scope, and of the values on the way. It has to hold of
each single thing that evaluation does there: it fails, returns, looks a name up, binds one and makes a function; and what holds of
one part of evaluation and then of another one has to hold of both together.

Then it holds of every tree (`expr_obeys` and the others), if it holds of the application of functions: what a law says is a course
whose values are the same in all worlds (`Law.course`).
-/

namespace Scriptlet

namespace Eval

/-- What holds before and after each thing that evaluation does in a scope, where only some names are bound. -/
structure Law (scope : ScopeId) (names : List String) where
  /-- What evaluation may rely on, and keeps. -/
  Inv : World → Prop
  /-- What the values are that evaluation has and binds. -/
  Good : Value → Prop
  /-- What holds of the worlds before and after, and of the reason for leaving. -/
  Holds : Option Unwind → World → World → Prop
  plain {v : Value} : v.Plain → Good v
  refl {w : World} : Inv w → Holds none w w
  trans {u? : Option Unwind} {w w' w'' : World} : Holds none w w' → Holds u? w' w'' → Holds u? w w''
  raise {w : World} (f : Fault) : Inv w → Inv (w.note (.raised f)) ∧ Holds (some (.fault f)) w (w.note (.raised f))
  leave {w : World} {v : Value} : Inv w → Good v → Holds (some (.returned v)) w w
  lookup {w : World} {name : String} {v : Value} : Inv w → w.store.get? scope name = some v → Good v
  bind {w w' : World} {name : String} {v : Value} : name ∈ names → Inv w → Good v →
    w' = { w with store := w.store.set scope name v }.note (.bound scope name) → Inv w' ∧ Holds none w w'
  make {w w' : World} (ps : List Identifier) (b : Block) : Inv w →
    w' = { w with store := (w.store.addFunction ps b scope).2 } → Inv w' ∧ Holds none w w'

variable {α : Type} {scope : ScopeId} {names : List String}

/-- A part of evaluation obeys a law, and what it has as its value is of a kind. -/
def Obeys (L : Law scope names) (G : α → Prop) (p : Eval α) : Prop :=
  ∀ (w : World) (x : Except Unwind α) (w' : World), L.Inv w → p w = some (x, w') →
    L.Inv w' ∧ L.Holds (reason? x) w w' ∧ ∀ a, x = .ok a → G a

variable {L : Law scope names}

/-- A law is a course where a value is of the same kind in all worlds. -/
def Law.course (L : Law scope names) : Course scope names where
  Inv := L.Inv
  Good _ := L.Good
  Holds := L.Holds
  data h := L.plain h.plain
  null := L.plain Value.plain_null
  keep _ h := h
  refl := L.refl
  trans := L.trans
  raise := L.raise
  leave := L.leave
  lookup := L.lookup
  bind := L.bind
  make ps b hw hw' := ⟨(L.make ps b hw hw').1, (L.make ps b hw hw').2, L.plain (Value.plain_function _)⟩

/-- Functions that are applied to values of the law's kind obey the law. -/
def Applies (L : Law scope names) (apply : Closure → List Value → Eval Value) : Prop :=
  ∀ f args, (∀ v ∈ args, L.Good v) → (apply f args).Obeys L L.Good

theorem Applies.on {apply : Closure → List Value → Eval Value} (ha : Applies L apply) : AppliesOn L.course apply :=
  fun f args w hw _ hargs x w' h => ha f args hargs w x w' hw h

variable {apply : Closure → List Value → Eval Value}

theorem expr_obeys (ha : Applies L apply) (e : Expr) (he : e.targets ⊆ names) : (e.eval apply scope).Obeys L L.Good :=
  fun _ x w' hw h => expr_keeps ha.on e he hw x w' h

theorem stmts_obey (ha : Applies L apply) (ss : List Stmt) {last : Value} (hl : L.Good last) (hss : Stmt.targetsAll ss ⊆ names) :
    (Stmt.evalAll apply scope last ss).Obeys L L.Good :=
  fun _ x w' hw h => stmts_keep (C := L.course) ha.on ss hl hss hw x w' h

/-- In the scope of a call, the parameters are bound, and the names that the body binds. -/
theorem body_obeys (ha : Applies L apply) {f : Closure} {args : List Value} (hf : f.names ++ f.body.targets ⊆ names)
    (hv : ∀ v ∈ args, L.Good v) : (body apply f args scope).Obeys L L.Good :=
  fun _ x w' hw h => body_keeps ha.on hf hw hv x w' h

end Eval

end Scriptlet
