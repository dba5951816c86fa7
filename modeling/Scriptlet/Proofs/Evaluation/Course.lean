import Scriptlet.Evaluation.Steps
import Scriptlet.Proofs.Value.Plain

/-!
# The course of evaluation

A `Course` says something of the worlds before and after evaluation in one scope, and of the values there are in a world. It has to hold
of each single thing that evaluation does there: it fails, returns, looks a name up, binds one and makes a function; what holds of one
part of evaluation and then of another one has to hold of both together; and a value has to stay what it is while evaluation goes on,
since it may be used long after it was found.

Then every tree keeps the course, by induction on the tree (`expr_keeps` and the others), if the application of functions does. The
names that are bound on the way are the tree's `targets`: the names behind a `let` that stands outside every function literal of the
tree. A function literal binds nothing where it is made.
-/

namespace Scriptlet

/-! ## The names a tree binds -/

mutual

/-- The names that evaluating an expression may bind in its scope. -/
def Expr.targets : Expr → List String
  | .ident _ | .int _ _ | .float _ _ | .bool _ _ | .string _ _ | .function _ _ _ => []
  | .unary _ _ e => e.targets
  | .binary _ l _ r => l.targets ++ r.targets
  | .cond _ c a none => c.targets ++ a.targets
  | .cond _ c a (some b) => c.targets ++ a.targets ++ b.targets
  | .call _ f as => f.targets ++ Expr.targetsAll as

/-- The names that evaluating a list of expressions may bind in its scope. -/
def Expr.targetsAll : List Expr → List String
  | [] => []
  | e :: es => e.targets ++ Expr.targetsAll es

/-- The names that evaluating a statement may bind in its scope. -/
def Stmt.targets : Stmt → List String
  | .bind _ id e => id.name :: e.targets
  | .ret _ e | .expr _ e => e.targets
  | .block b => b.targets

/-- The names that evaluating a block may bind in its scope. -/
def Block.targets : Block → List String
  | ⟨_, ss⟩ => Stmt.targetsAll ss

/-- The names that evaluating a list of statements may bind in its scope. -/
def Stmt.targetsAll : List Stmt → List String
  | [] => []
  | s :: ss => s.targets ++ Stmt.targetsAll ss

end

namespace Eval

/-- Why a result leaves, if it does. -/
def reason? {α : Type} : Except Unwind α → Option Unwind
  | .ok _ => none
  | .error u => some u

/-- What holds before and after each thing that evaluation does in a scope, where only some names are bound. -/
structure Course (scope : ScopeId) (names : List String) where
  /-- What evaluation may rely on, and keeps. -/
  Inv : World → Prop
  /-- What the values are that evaluation has and binds in a world. -/
  Good : World → Value → Prop
  /-- What holds of the worlds before and after, and of the reason for leaving. -/
  Holds : Option Unwind → World → World → Prop
  data {w : World} {v : Value} : v.IsData → Good w v
  null {w : World} : Good w .null
  /-- A value stays what it is while evaluation goes on. -/
  keep {w w' : World} {v : Value} : Holds none w w' → Good w v → Good w' v
  refl {w : World} : Inv w → Holds none w w
  trans {u? : Option Unwind} {w w' w'' : World} : Holds none w w' → Holds u? w' w'' → Holds u? w w''
  raise {w : World} (f : Fault) : Inv w → Inv (w.note (.raised f)) ∧ Holds (some (.fault f)) w (w.note (.raised f))
  leave {w : World} {v : Value} : Inv w → Good w v → Holds (some (.returned v)) w w
  lookup {w : World} {name : String} {v : Value} : Inv w → w.store.get? scope name = some v → Good w v
  bind {w w' : World} {name : String} {v : Value} : name ∈ names → Inv w → Good w v →
    w' = { w with store := w.store.set scope name v }.note (.bound scope name) → Inv w' ∧ Holds none w w'
  make {w w' : World} (ps : List Identifier) (b : Block) : Inv w →
    w' = { w with store := (w.store.addFunction ps b scope).2 } →
    Inv w' ∧ Holds none w w' ∧ Good w' (.function (w.store.addFunction ps b scope).1)

variable {α β : Type} {scope : ScopeId} {names : List String}

/-- A part of evaluation keeps a course from a world on, and what it has as its value is of a kind there. -/
def Keeps (C : Course scope names) (G : World → α → Prop) (p : Eval α) (w : World) : Prop :=
  ∀ (x : Except Unwind α) (w' : World), p w = some (x, w') → C.Inv w' ∧ C.Holds (reason? x) w w' ∧ ∀ a, x = .ok a → G w' a

variable {C : Course scope names} {G : World → α → Prop} {H : World → β → Prop} {w : World}

theorem keeps_pure {a : α} (hw : C.Inv w) (h : G w a) : (pure a : Eval α).Keeps C G w := by
  intro x w' hp
  cases hp
  refine ⟨hw, C.refl hw, fun b hb => ?_⟩
  cases hb
  exact h

/-- A second part goes on from where the first one ends. -/
theorem Keeps.bind {p : Eval α} {f : α → Eval β} (hp : p.Keeps C G w)
    (hf : ∀ a w₁, C.Inv w₁ → C.Holds none w w₁ → G w₁ a → (f a).Keeps C H w₁) : (p >>= f).Keeps C H w := by
  intro x w' h
  rw [bind_apply] at h
  rcases hpw : p w with _ | ⟨u | a, w₁⟩
  · simp [hpw] at h
  · rw [hpw] at h
    cases h
    obtain ⟨hw₁, h₁, -⟩ := hp _ w' hpw
    exact ⟨hw₁, h₁, nofun⟩
  · rw [hpw] at h
    obtain ⟨hw₁, h₁, ha⟩ := hp _ w₁ hpw
    obtain ⟨hw', h', hb⟩ := hf a w₁ hw₁ h₁ (ha a rfl) x w' h
    exact ⟨hw', C.trans h₁ h', hb⟩

theorem keeps_raise (f : Fault) (hw : C.Inv w) : (raise f : Eval α).Keeps C G w := by
  intro x w' h
  cases h
  obtain ⟨hw', h'⟩ := C.raise f hw
  exact ⟨hw', h', nofun⟩

theorem keeps_leave {v : Value} (hw : C.Inv w) (hv : C.Good w v) : (throw (.returned v) : Eval α).Keeps C G w := by
  intro x w' h
  cases h
  exact ⟨hw, C.leave hw hv, nofun⟩

/-- Every value of an operator is data. -/
theorem keeps_settle {r : Except Fault Value} (hr : ∀ v, r = .ok v → v.IsData) (hw : C.Inv w) : (settle r).Keeps C C.Good w := by
  cases r with
  | error f => exact keeps_raise f hw
  | ok v => exact keeps_pure hw (C.data (hr v rfl))

theorem keeps_lookup (name : String) (hw : C.Inv w) : (lookup scope name).Keeps C C.Good w := by
  intro x w' h
  rw [lookup_apply] at h
  split at h
  · next v hv =>
    cases h
    refine ⟨hw, C.refl hw, fun b hb => ?_⟩
    cases hb
    exact C.lookup hw hv
  · exact keeps_raise _ hw x w' h

theorem keeps_bindName {name : String} {v : Value} (hn : name ∈ names) (hw : C.Inv w) (hv : C.Good w v) :
    (bindName scope name v).Keeps C (fun _ _ => True) w := by
  intro x w' h
  cases h
  obtain ⟨hw', h'⟩ := C.bind hn hw hv rfl
  exact ⟨hw', h', fun _ _ => trivial⟩

theorem keeps_makeFunction (ps : List Identifier) (b : Block) (hw : C.Inv w) : (makeFunction scope ps b).Keeps C C.Good w := by
  intro x w' h
  cases h
  obtain ⟨hw', h', hv⟩ := C.make ps b hw rfl
  refine ⟨hw', h', fun v h => ?_⟩
  cases h
  exact hv

/-- What is called is a function of the course's kind. -/
theorem keeps_callee {v : Value} (hw : C.Inv w) (hv : C.Good w v) : (callee v).Keeps C (fun w f => C.Good w (.function f)) w := by
  cases v with
  | function f => exact keeps_pure hw hv
  | int _ | float _ | bool _ | string _ | null | error _ | returned _ => exact keeps_raise _ hw

/-! ## Trees -/

/-- Functions of the course's kind, applied to values of that kind, keep the course. -/
def AppliesOn (C : Course scope names) (apply : Closure → List Value → Eval Value) : Prop :=
  ∀ f args w, C.Inv w → C.Good w (.function f) → (∀ v ∈ args, C.Good w v) → (apply f args).Keeps C C.Good w

variable {apply : Closure → List Value → Eval Value}

mutual

theorem expr_keeps (ha : AppliesOn C apply) : ∀ (e : Expr), e.targets ⊆ names → ∀ {w : World}, C.Inv w →
    (e.eval apply scope).Keeps C C.Good w
  | .ident id, _, _, hw => by
    rw [Expr.eval]
    exact keeps_lookup id.name hw
  | .int _ n, _, _, hw => by
    rw [Expr.eval]
    exact keeps_pure hw (C.data trivial)
  | .float _ x, _, _, hw => by
    rw [Expr.eval]
    exact keeps_pure hw (C.data trivial)
  | .bool _ b, _, _, hw => by
    rw [Expr.eval]
    exact keeps_pure hw (C.data trivial)
  | .string _ s, _, _, hw => by
    rw [Expr.eval]
    exact keeps_pure hw (C.data trivial)
  | .unary _ op e, h, _, hw => by
    rw [Expr.targets] at h
    rw [Expr.eval]
    exact (expr_keeps ha e h hw).bind fun v _ hw _ _ => keeps_settle (fun _ => Value.isData_of_unary) hw
  | .binary _ l op r, h, _, hw => by
    rw [Expr.targets, List.append_subset] at h
    rw [Expr.eval]
    refine (expr_keeps ha l h.1 hw).bind fun a _ hw _ _ => (expr_keeps ha r h.2 hw).bind fun b _ hw _ _ => ?_
    exact keeps_settle (fun _ => Value.isData_of_binary) hw
  | .cond _ c a none, h, _, hw => by
    rw [Expr.targets, List.append_subset] at h
    rw [Expr.eval]
    refine (expr_keeps ha c h.1 hw).bind fun v _ hw _ _ => ?_
    split
    · exact block_keeps ha a h.2 hw
    · exact keeps_pure hw C.null
  | .cond _ c a (some b), h, _, hw => by
    rw [Expr.targets, List.append_subset, List.append_subset] at h
    rw [Expr.eval]
    refine (expr_keeps ha c h.1.1 hw).bind fun v _ hw _ _ => ?_
    split
    · exact block_keeps ha a h.1.2 hw
    · exact block_keeps ha b h.2 hw
  | .function _ ps b, _, _, hw => by
    rw [Expr.eval]
    exact keeps_makeFunction ps b hw
  | .call _ f as, h, _, hw => by
    rw [Expr.targets, List.append_subset] at h
    rw [Expr.eval]
    refine (expr_keeps ha f h.1 hw).bind fun v _ hw _ hv => (keeps_callee hw hv).bind fun g _ hw _ hg => ?_
    exact (exprs_keep ha as h.2 hw).bind fun vs w' hw hstep hvs => ha g vs w' hw (C.keep hstep hg) hvs

theorem exprs_keep (ha : AppliesOn C apply) : ∀ (es : List Expr), Expr.targetsAll es ⊆ names → ∀ {w : World}, C.Inv w →
    (Expr.evalAll apply scope es).Keeps C (fun w vs => ∀ v ∈ vs, C.Good w v) w
  | [], _, _, hw => by
    rw [Expr.evalAll]
    exact keeps_pure hw nofun
  | e :: es, h, _, hw => by
    rw [Expr.targetsAll, List.append_subset] at h
    rw [Expr.evalAll]
    refine (expr_keeps ha e h.1 hw).bind fun v _ hw _ hv => (exprs_keep ha es h.2 hw).bind fun vs _ hw hstep hvs => ?_
    exact keeps_pure hw (List.forall_mem_cons.mpr ⟨C.keep hstep hv, hvs⟩)

theorem stmt_keeps (ha : AppliesOn C apply) : ∀ (s : Stmt), s.targets ⊆ names → ∀ {w : World}, C.Inv w →
    (s.eval apply scope).Keeps C C.Good w
  | .bind _ id e, h, _, hw => by
    rw [Stmt.targets, List.cons_subset] at h
    rw [Stmt.eval]
    refine (expr_keeps ha e h.2 hw).bind fun v _ hw _ hv => (keeps_bindName h.1 hw hv).bind fun _ _ hw _ _ => ?_
    exact keeps_pure hw C.null
  | .ret _ e, h, _, hw => by
    rw [Stmt.targets] at h
    rw [Stmt.eval]
    exact (expr_keeps ha e h hw).bind fun v _ hw _ hv => keeps_leave hw hv
  | .expr _ e, h, _, hw => by
    rw [Stmt.targets] at h
    rw [Stmt.eval]
    exact expr_keeps ha e h hw
  | .block b, h, _, hw => by
    rw [Stmt.targets] at h
    rw [Stmt.eval]
    exact block_keeps ha b h hw

theorem block_keeps (ha : AppliesOn C apply) : ∀ (b : Block), b.targets ⊆ names → ∀ {w : World}, C.Inv w →
    (b.eval apply scope).Keeps C C.Good w
  | ⟨_, ss⟩, h, _, hw => by
    rw [Block.targets] at h
    rw [Block.eval]
    exact stmts_keep ha ss C.null h hw

theorem stmts_keep (ha : AppliesOn C apply) : ∀ (ss : List Stmt) {last : Value} {w : World}, C.Good w last →
    Stmt.targetsAll ss ⊆ names → C.Inv w → (Stmt.evalAll apply scope last ss).Keeps C C.Good w
  | [], _, _, hl, _, hw => by
    rw [Stmt.evalAll]
    exact keeps_pure hw hl
  | s :: ss, _, _, _, h, hw => by
    rw [Stmt.targetsAll, List.append_subset] at h
    rw [Stmt.evalAll]
    exact (stmt_keeps ha s h.1 hw).bind fun v _ hw _ hv => stmts_keep ha ss hv h.2 hw

end

/-! ## Functions -/

theorem keeps_bindAll : ∀ {ns : List String} {vs : List Value} {w : World}, ns ⊆ names → C.Inv w → (∀ v ∈ vs, C.Good w v) →
    (bindAll scope ns vs).Keeps C (fun _ _ => True) w
  | [], _, _, _, hw, _ => by
    rw [bindAll]
    · exact keeps_pure hw trivial
    · nofun
  | _ :: _, [], _, _, hw, _ => by
    rw [bindAll]
    · exact keeps_pure hw trivial
    · nofun
  | n :: ns, v :: vs, _, hn, hw, hv => by
    rw [List.cons_subset] at hn
    rw [List.forall_mem_cons] at hv
    rw [bindAll]
    exact (keeps_bindName hn.1 hw hv.1).bind fun _ _ hw hstep _ => keeps_bindAll hn.2 hw fun u hu => C.keep hstep (hv.2 u hu)

/-- What a function does in the scope of a call. -/
def body (apply : Closure → List Value → Eval Value) (f : Closure) (args : List Value) (scope : ScopeId) : Eval Value := do
  bindAll scope f.names args
  f.body.eval apply scope

/-- In the scope of a call, the parameters are bound, and the names that the body binds. -/
theorem body_keeps (ha : AppliesOn C apply) {f : Closure} {args : List Value} (hf : f.names ++ f.body.targets ⊆ names)
    (hw : C.Inv w) (hv : ∀ v ∈ args, C.Good w v) : (body apply f args scope).Keeps C C.Good w := by
  rw [List.append_subset] at hf
  exact (keeps_bindAll hf.1 hw hv).bind fun _ _ hw _ _ => block_keeps ha f.body hf.2 hw

/-- A function is entered in a new scope, if it has as many parameters as there are arguments. -/
theorem enter_apply (f : Closure) (args : List Value) (w : World) :
    f.enter apply args w =
      if args.length = f.arity then
        body apply f args w.store.scopes.size
          ({ w with store := (w.store.addInside f.scope).2 }.note (.opened w.store.scopes.size))
      else raise (.wrongArity f.arity args.length) w := by
  unfold Closure.enter
  split
  · rw [bind_apply, openScope_apply]
    rfl
  · rfl

/-- The application of a function comes to what entering it does, between the events of its entry and exit. -/
theorem enter_of_applyWithin {limit : Nat} {f : Closure} {args : List Value} {w w' : World} {x : Except Unwind Value}
    (h : applyWithin (limit + 1) f args w = some (x, w')) :
    ∃ y w₁, f.enter (applyWithin limit) args (w.note (.entered f.arity)) = some (y, w₁) ∧ x = atCall y ∧
      w' = w₁.note (.exited f.arity) := by
  rw [applyWithin, call_apply] at h
  obtain ⟨⟨y, w₁⟩, hy, heq⟩ := Option.map_eq_some_iff.mp h
  cases heq
  exact ⟨y, w₁, hy, rfl, rfl⟩

end Eval

end Scriptlet
