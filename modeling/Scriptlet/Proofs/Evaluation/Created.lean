import Scriptlet.Proofs.Evaluation.Changes

/-!
# The functions that are created

A function is created where a function literal is evaluated, and nowhere else. The functions that some code creates are therefore those of
the literals that are evaluated on the way, one for each time, in their order (`Expr.created` and the others); looking a name up, binding
one, passing an argument and returning create none.

A `Roster` lists functions in the order in which they were created. A store enrolls a roster if its functions were numbered in that order,
and every function that is bound is one of them (`Store.Enrolls`). Evaluation adds the functions that it creates to the roster, and whatever
value it ends with, or returns with, carries functions of that roster only (`Eval.eval_creates`).
-/

namespace Scriptlet

/-- Functions, in the order in which they were created. -/
abbrev Roster := List Closure

/-- The functions that a value carries are in a roster. -/
def Value.Among (v : Value) (fs : Roster) : Prop := ∀ f, v.Carries f → f ∈ fs

/-- What a part of evaluation creates, from the value and the world where the part before it ends; nothing if that has no value. -/
def Eval.onward {α : Type} (p : Eval α) (created : α → World → Roster) (w : World) : Roster :=
  match p w with
  | some (.ok a, w') => created a w'
  | some (.error _, _) | none => []

/-! ## The functions that some code creates -/

section

variable (apply : Closure → List Value → Eval Value) (inside : Closure → List Value → World → Roster)

mutual

/-- The functions that an expression creates when it is evaluated in a scope of a world. What an application creates is `inside`. -/
def Expr.created (scope : ScopeId) : Expr → World → Roster
  | .ident _, _ | .int _ _, _ | .float _ _, _ | .bool _ _, _ | .string _ _, _ => []
  | .unary _ _ e, w => e.created scope w
  | .binary _ l _ r, w => l.created scope w ++ (l.eval apply scope).onward (fun _ => r.created scope) w
  | .cond _ c a none, w => c.created scope w ++
      (c.eval apply scope).onward (fun v w => if v.truthy then a.created scope w else []) w
  | .cond _ c a (some b), w => c.created scope w ++
      (c.eval apply scope).onward (fun v w => if v.truthy then a.created scope w else b.created scope w) w
  | .function _ ps b, w => [(w.store.addFunction ps b scope).1]
  | .call _ f as, w => f.created scope w ++ (f.eval apply scope >>= Eval.callee).onward
      (fun g w => Expr.createdAll scope as w ++ (Expr.evalAll apply scope as).onward (inside g) w) w

/-- The functions that a list of expressions creates. -/
def Expr.createdAll (scope : ScopeId) : List Expr → World → Roster
  | [], _ => []
  | e :: es, w => e.created scope w ++ (e.eval apply scope).onward (fun _ => Expr.createdAll scope es) w

/-- The functions that a statement creates. -/
def Stmt.created (scope : ScopeId) : Stmt → World → Roster
  | .bind _ _ e, w | .ret _ e, w | .expr _ e, w => e.created scope w
  | .block b, w => b.created scope w

/-- The functions that a block creates. -/
def Block.created (scope : ScopeId) : Block → World → Roster
  | ⟨_, ss⟩, w => Stmt.createdAll scope ss w

/-- The functions that a list of statements creates. -/
def Stmt.createdAll (scope : ScopeId) : List Stmt → World → Roster
  | [], _ => []
  | s :: ss, w => s.created scope w ++ (s.eval apply scope).onward (fun _ => Stmt.createdAll scope ss) w

end

/-- The functions that a call creates: those of its body, once the parameters are bound in a new scope. -/
def Closure.created (f : Closure) (args : List Value) (w : World) : Roster :=
  let scope := w.store.scopes.size
  if args.length = f.arity then
    (Eval.bindAll scope f.names args).onward (fun _ => f.body.created apply inside scope)
      ({ w with store := (w.store.addInside f.scope).2 }.note (.opened scope))
  else []

end

/-- The functions that the application of a function creates, with a limit on the calls that are open at once. -/
def createdWithin : Nat → Closure → List Value → World → Roster
  | 0, _, _, _ => []
  | n + 1, f, args, w => f.created (applyWithin n) (createdWithin n) args (w.note (.entered f.arity))

/-- The functions that a program creates when it is evaluated in a scope of a world. -/
def Program.created (limit : Nat) (scope : ScopeId) (p : Program) : World → Roster :=
  Stmt.createdAll (applyWithin limit) (createdWithin limit) scope p.statements

/-! ## Stores with a roster -/

/-- The functions of a store have the numbers at which they are in a roster, and all that are bound are in it. Scopes are made in scopes that
are there, and so are functions. -/
structure Store.Enrolls (s : Store) (fs : Roster) : Prop where
  numbers : fs.map Closure.id = List.range s.functions
  scopes : ∀ f ∈ fs, f.scope < s.scopes.size
  bound : s.Bound fun v => v.Among fs
  enclosing (i : ScopeId) : ∀ j ∈ (s.scope i).enclosing, j < s.scopes.size

namespace Value.Among

variable {v : Value} {fs : Roster}

theorem append (h : v.Among fs) (new : Roster) : v.Among (fs ++ new) := fun f hf => List.mem_append_left new (h f hf)

theorem of_isData (v : Value) (h : v.IsData) (fs : Roster) : v.Among fs := by
  intro f hf
  cases hf with
  | function f => cases h
  | returned hf => cases h

theorem null (fs : Roster) : Value.null.Among fs := nofun

theorem error (message : String) (fs : Roster) : (Value.error message).Among fs := nofun

theorem function_iff {f : Closure} : (Value.function f).Among fs ↔ f ∈ fs := by
  refine ⟨fun h => h f (.function f), fun h g hg => ?_⟩
  cases hg
  exact h

end Value.Among

namespace Store.Enrolls

variable {s : Store} {fs : Roster}

theorem empty : Store.empty.Enrolls [] := ⟨rfl, nofun, nofun, nofun⟩

theorem chain (h : s.Enrolls fs) {i : ScopeId} (hi : i < s.scopes.size) : ∀ j ∈ s.chain i, j < s.scopes.size :=
  List.forall_mem_cons.mpr ⟨hi, h.enclosing i⟩

theorem set (h : s.Enrolls fs) (i : ScopeId) (name : String) {v : Value} (hv : v.Among fs) : (s.set i name v).Enrolls fs := by
  refine ⟨h.numbers, ?_, h.bound.set i name hv, fun j => ?_⟩
  · rw [size_set]
    exact h.scopes
  · rw [size_set, scope_set]
    split
    · exact h.enclosing j
    · exact h.enclosing j

/-- One scope more, with what may be bound, and around it scopes that are there. -/
theorem add (h : s.Enrolls fs) {c : Scope} (hbound : ∀ name v, c.get? name = some v → v.Among fs)
    (henclosing : ∀ j ∈ c.enclosing, j < s.scopes.size) : (s.add c).2.Enrolls fs := by
  refine ⟨h.numbers, fun f hf => ?_, h.bound.add hbound, fun i => ?_⟩
  · rw [size_add]
    exact Nat.lt_succ_of_lt (h.scopes f hf)
  · rw [size_add, scope_add]
    split
    · exact fun j hj => Nat.lt_succ_of_lt (henclosing j hj)
    · exact fun j hj => Nat.lt_succ_of_lt (h.enclosing i j hj)

theorem addRoot (h : s.Enrolls fs) : s.addRoot.2.Enrolls fs := h.add nofun nofun

theorem addInside (h : s.Enrolls fs) {outer : ScopeId} (ho : outer < s.scopes.size) : (s.addInside outer).2.Enrolls fs :=
  h.add nofun (h.chain ho)

theorem addCopy (h : s.Enrolls fs) (i : ScopeId) : (s.addCopy i).2.Enrolls fs := h.add (h.bound i) (h.enclosing i)

/-- A function that is created has the next number. -/
theorem addFunction (h : s.Enrolls fs) (ps : List Identifier) (b : Block) {scope : ScopeId} (hscope : scope < s.scopes.size) :
    (s.addFunction ps b scope).2.Enrolls (fs ++ [(s.addFunction ps b scope).1]) := by
  refine ⟨?_, ?_, h.bound.imp fun v hv => hv.append _, h.enclosing⟩
  · rw [List.map_append, h.numbers]
    exact List.range_succ.symm
  · rw [List.forall_mem_append, List.forall_mem_singleton]
    exact ⟨h.scopes, hscope⟩

end Store.Enrolls

/-! ## What each step creates -/

namespace Eval

variable {α β : Type} {scope : ScopeId} {O : α → Roster → Prop} {O' : β → Roster → Prop} {fs : Roster}

/-- The end of a part of evaluation, with the roster there. -/
structure Enrolled (O : α → Roster → Prop) (fs : Roster) (w : World) (x : Except Unwind α) (w' : World) : Prop where
  size_le : w.store.scopes.size ≤ w'.store.scopes.size
  enrolls : w'.store.Enrolls fs
  value (a : α) : x = .ok a → O a fs
  left (u : Unwind) : x = .error u → u.value.Among fs

/-- What a part of evaluation in a scope that is there creates comes behind the roster, whatever comes of it. -/
def Creates (scope : ScopeId) (O : α → Roster → Prop) (fs : Roster) (p : Eval α) (created : World → Roster) : Prop :=
  ∀ (w : World) (x : Except Unwind α) (w' : World), scope < w.store.scopes.size → w.store.Enrolls fs → p w = some (x, w') →
    Enrolled O (fs ++ created w) w x w'

theorem onward_apply {p : Eval α} {created : α → World → Roster} {w w' : World} {a : α} (h : p w = some (.ok a, w')) :
    p.onward created w = created a w' := by
  unfold onward
  rw [h]

theorem onward_error {p : Eval α} {created : α → World → Roster} {w w' : World} {u : Unwind} (h : p w = some (.error u, w')) :
    p.onward created w = [] := by
  unfold onward
  rw [h]

/-- A second part creates what it does where the first one ends. -/
theorem Creates.bind {p : Eval α} {f : α → Eval β} {created : World → Roster} {created' : α → World → Roster}
    (hp : p.Creates scope O fs created) (hf : ∀ a new, O a (fs ++ new) → (f a).Creates scope O' (fs ++ new) (created' a)) :
    (p >>= f).Creates scope O' fs (fun w => created w ++ p.onward created' w) := by
  intro w x w' hscope hw h
  rw [bind_apply] at h
  rcases hpw : p w with _ | ⟨u | a, w₁⟩
  · simp [hpw] at h
  · rw [hpw] at h
    cases h
    have hfirst := hp w _ w' hscope hw hpw
    show Enrolled O' (fs ++ (created w ++ p.onward created' w)) w _ w'
    rw [onward_error hpw, List.append_nil]
    refine ⟨hfirst.size_le, hfirst.enrolls, nofun, fun u' hu => ?_⟩
    cases hu
    exact hfirst.left u rfl
  · rw [hpw] at h
    have hfirst := hp w _ w₁ hscope hw hpw
    have hsecond := hf a (created w) (hfirst.value a rfl) w₁ x w' (Nat.lt_of_lt_of_le hscope hfirst.size_le) hfirst.enrolls h
    show Enrolled O' (fs ++ (created w ++ p.onward created' w)) w x w'
    rw [onward_apply hpw, ← List.append_assoc]
    exact ⟨Nat.le_trans hfirst.size_le hsecond.size_le, hsecond.enrolls, hsecond.value, hsecond.left⟩

/-- A part that creates nothing. -/
theorem creates_nothing {p : Eval α} (h : ∀ (w : World) (x : Except Unwind α) (w' : World), scope < w.store.scopes.size →
    w.store.Enrolls fs → p w = some (x, w') → Enrolled O fs w x w') : p.Creates scope O fs fun _ => [] := by
  intro w x w' hscope hw hp
  show Enrolled O (fs ++ []) w x w'
  rw [List.append_nil]
  exact h w x w' hscope hw hp

/-- Nothing is created behind the first part. -/
theorem Creates.bind_nothing {p : Eval α} {f : α → Eval β} {created : World → Roster} (hp : p.Creates scope O fs created)
    (hf : ∀ a new, O a (fs ++ new) → (f a).Creates scope O' (fs ++ new) fun _ => []) : (p >>= f).Creates scope O' fs created := by
  intro w x w' hscope hw h
  have hnothing : p.onward (fun _ _ => []) w = [] := by
    unfold onward
    split <;> rfl
  have hend : Enrolled O' (fs ++ (created w ++ p.onward (fun _ _ => []) w)) w x w' := hp.bind hf w x w' hscope hw h
  rwa [hnothing, List.append_nil] at hend

/-- Only one of two parts is evaluated. -/
theorem Creates.choice {c : Prop} [Decidable c] {p q : Eval α} {created created' : World → Roster} (hp : p.Creates scope O fs created)
    (hq : q.Creates scope O fs created') :
    (if c then p else q).Creates scope O fs (fun w => if c then created w else created' w) := by
  split
  · exact hp
  · exact hq

theorem creates_pure {a : α} (ha : O a fs) : (pure a : Eval α).Creates scope O fs fun _ => [] := by
  refine creates_nothing fun w x w' _ hw h => ?_
  cases h
  refine ⟨Nat.le_refl _, hw, fun b hb => ?_, nofun⟩
  cases hb
  exact ha

/-- Leaving evaluation. -/
theorem creates_throw {u : Unwind} (hu : u.value.Among fs) : (throw u : Eval α).Creates scope O fs fun _ => [] := by
  refine creates_nothing fun w x w' _ hw h => ?_
  cases h
  refine ⟨Nat.le_refl _, hw, nofun, fun u' hu' => ?_⟩
  cases hu'
  exact hu

theorem creates_raise (f : Fault) : (raise f : Eval α).Creates scope O fs fun _ => [] := by
  refine creates_nothing fun w x w' _ hw h => ?_
  cases h
  refine ⟨Nat.le_refl _, hw, nofun, fun u hu => ?_⟩
  cases hu
  exact .error _ fs

theorem creates_settle {r : Except Fault Value} (hr : ∀ v, r = .ok v → v.IsData) :
    (settle r).Creates scope Value.Among fs fun _ => [] := by
  cases r with
  | error f => exact creates_raise f
  | ok v => exact creates_pure (.of_isData v (hr v rfl) fs)

theorem creates_lookup (name : String) : (lookup scope name).Creates scope Value.Among fs fun _ => [] := by
  refine creates_nothing fun w x w' _ hw h => ?_
  rw [lookup_apply] at h
  split at h
  · next v hv =>
    cases h
    refine ⟨Nat.le_refl _, hw, fun u hu => ?_, nofun⟩
    cases hu
    exact hw.bound.get? hv
  · cases h
    refine ⟨Nat.le_refl _, hw, nofun, fun u hu => ?_⟩
    cases hu
    exact .error _ fs

theorem creates_bindName (name : String) {v : Value} (hv : v.Among fs) :
    (bindName scope name v).Creates scope (fun _ _ => True) fs fun _ => [] := by
  refine creates_nothing fun w x w' _ hw h => ?_
  cases h
  exact ⟨Nat.le_of_eq (Store.size_set _ _ _ _).symm, hw.set scope name hv, fun _ _ => trivial, nofun⟩

theorem creates_makeFunction (ps : List Identifier) (b : Block) :
    (makeFunction scope ps b).Creates scope Value.Among fs fun w => [(w.store.addFunction ps b scope).1] := by
  intro w x w' hscope hw h
  cases h
  refine ⟨Nat.le_refl _, hw.addFunction ps b hscope, fun v hv => ?_, nofun⟩
  cases hv
  exact Value.Among.function_iff.mpr List.mem_concat_self

theorem creates_callee {v : Value} (hv : v.Among fs) : (callee v).Creates scope (fun f fs => f ∈ fs) fs fun _ => [] := by
  cases v with
  | function f => exact creates_pure (Value.Among.function_iff.mp hv)
  | int _ | float _ | bool _ | string _ | null | error _ | returned _ => exact creates_raise _

/-! ## Trees -/

/-- Functions of a roster that are applied to values of the roster create what is `inside` their application. -/
def AppliesCreating (apply : Closure → List Value → Eval Value) (inside : Closure → List Value → World → Roster) : Prop :=
  ∀ (scope : ScopeId) (f : Closure) (args : List Value) (fs : Roster), f ∈ fs → (∀ v ∈ args, v.Among fs) →
    (apply f args).Creates scope Value.Among fs (inside f args)

variable {apply : Closure → List Value → Eval Value} {inside : Closure → List Value → World → Roster}

mutual

theorem expr_creates (ha : AppliesCreating apply inside) : ∀ (e : Expr) (fs : Roster),
    (e.eval apply scope).Creates scope Value.Among fs (e.created apply inside scope)
  | .ident id, _ => by
    rw [Expr.eval]
    exact creates_lookup id.name
  | .int _ n, fs => by
    rw [Expr.eval]
    exact creates_pure (.of_isData (.int n) trivial fs)
  | .float _ x, fs => by
    rw [Expr.eval]
    exact creates_pure (.of_isData (.float x) trivial fs)
  | .bool _ b, fs => by
    rw [Expr.eval]
    exact creates_pure (.of_isData (.bool b) trivial fs)
  | .string _ s, fs => by
    rw [Expr.eval]
    exact creates_pure (.of_isData (.string s) trivial fs)
  | .unary _ op e, fs => by
    rw [Expr.eval]
    exact (expr_creates ha e fs).bind_nothing fun v _ _ => creates_settle fun _ => Value.isData_of_unary
  | .binary _ l op r, fs => by
    rw [Expr.eval]
    refine (expr_creates ha l fs).bind fun a new _ => (expr_creates ha r (fs ++ new)).bind_nothing fun b _ _ => ?_
    exact creates_settle fun _ => Value.isData_of_binary
  | .cond _ c a none, fs => by
    rw [Expr.eval]
    exact (expr_creates ha c fs).bind fun v new _ => (block_creates ha a (fs ++ new)).choice (creates_pure (.null _))
  | .cond _ c a (some b), fs => by
    rw [Expr.eval]
    exact (expr_creates ha c fs).bind fun v new _ => (block_creates ha a (fs ++ new)).choice (block_creates ha b (fs ++ new))
  | .function _ ps b, _ => by
    rw [Expr.eval]
    exact creates_makeFunction ps b
  | .call _ f as, fs => by
    rw [Expr.eval]
    have hcallee := (expr_creates ha f fs).bind_nothing fun v _ hv => creates_callee hv
    have hcall := hcallee.bind fun g new hg => (exprs_create ha as (fs ++ new)).bind fun vs new' hvs =>
      ha scope g vs (fs ++ new ++ new') (List.mem_append_left new' hg) hvs
    rw [bind_assoc] at hcall
    exact hcall

theorem exprs_create (ha : AppliesCreating apply inside) : ∀ (es : List Expr) (fs : Roster),
    (Expr.evalAll apply scope es).Creates scope (fun vs fs => ∀ v ∈ vs, v.Among fs) fs (Expr.createdAll apply inside scope es)
  | [], _ => by
    rw [Expr.evalAll]
    exact creates_pure nofun
  | e :: es, fs => by
    rw [Expr.evalAll]
    refine (expr_creates ha e fs).bind fun v new hv => (exprs_create ha es (fs ++ new)).bind_nothing fun vs new' hvs => ?_
    exact creates_pure (List.forall_mem_cons.mpr ⟨hv.append new', hvs⟩)

theorem stmt_creates (ha : AppliesCreating apply inside) : ∀ (s : Stmt) (fs : Roster),
    (s.eval apply scope).Creates scope Value.Among fs (s.created apply inside scope)
  | .bind _ id e, fs => by
    rw [Stmt.eval]
    refine (expr_creates ha e fs).bind_nothing fun v new hv => (creates_bindName id.name hv).bind_nothing fun _ new' _ => ?_
    exact creates_pure (.null _)
  | .ret _ e, fs => by
    rw [Stmt.eval]
    exact (expr_creates ha e fs).bind_nothing fun v _ hv => creates_throw hv
  | .expr _ e, fs => by
    rw [Stmt.eval]
    exact expr_creates ha e fs
  | .block b, fs => by
    rw [Stmt.eval]
    exact block_creates ha b fs

theorem block_creates (ha : AppliesCreating apply inside) : ∀ (b : Block) (fs : Roster),
    (b.eval apply scope).Creates scope Value.Among fs (b.created apply inside scope)
  | ⟨_, ss⟩, fs => by
    rw [Block.eval]
    exact stmts_create ha ss fs (.null fs)

theorem stmts_create (ha : AppliesCreating apply inside) : ∀ (ss : List Stmt) (fs : Roster) {last : Value}, last.Among fs →
    (Stmt.evalAll apply scope last ss).Creates scope Value.Among fs (Stmt.createdAll apply inside scope ss)
  | [], _, _, hlast => by
    rw [Stmt.evalAll]
    exact creates_pure hlast
  | s :: ss, fs, _, _ => by
    rw [Stmt.evalAll]
    exact (stmt_creates ha s fs).bind fun v new hv => stmts_create ha ss (fs ++ new) hv

end

/-! ## Functions -/

theorem creates_bindAll : ∀ (names : List String) (vs : List Value) (fs : Roster), (∀ v ∈ vs, v.Among fs) →
    (bindAll scope names vs).Creates scope (fun _ _ => True) fs fun _ => []
  | [], _, _, _ => by
    unfold bindAll
    exact creates_pure trivial
  | _ :: _, [], _, _ => by
    unfold bindAll
    exact creates_pure trivial
  | name :: names, v :: vs, fs, hvs => by
    rw [List.forall_mem_cons] at hvs
    unfold bindAll
    refine (creates_bindName name hvs.1).bind_nothing fun _ new _ => creates_bindAll names vs (fs ++ new) fun u hu => ?_
    exact (hvs.2 u hu).append new

/-- The body is evaluated in a new scope inside the one that the function was created in, which is there. -/
theorem enter_creates (ha : AppliesCreating apply inside) {f : Closure} {args : List Value} (hf : f ∈ fs)
    (hargs : ∀ v ∈ args, v.Among fs) : (f.enter apply args).Creates scope Value.Among fs (f.created apply inside args) := by
  intro w x w' _ hw h
  rw [enter_apply] at h
  unfold Closure.created
  split at h
  · next hlength =>
    rw [if_pos hlength]
    have hopen : (w.store.addInside f.scope).2.Enrolls fs := hw.addInside (hw.scopes f hf)
    have hsize := Store.size_addInside w.store f.scope
    have hbody : (body apply f args w.store.scopes.size).Creates w.store.scopes.size Value.Among fs _ :=
      (creates_bindAll f.names args fs hargs).bind fun _ new _ => block_creates ha f.body (fs ++ new)
    have hend := hbody _ x w' (Nat.lt_of_lt_of_eq (Nat.lt_succ_self _) hsize.symm) hopen h
    exact ⟨Nat.le_trans (hsize ▸ Nat.le_succ _) hend.size_le, hend.enrolls, hend.value, hend.left⟩
  · next hlength =>
    rw [if_neg hlength]
    exact creates_raise _ w x w' ‹_› hw h

/-- By induction on the limit, since the calls in the body have less of it. -/
theorem applyWithin_creates (limit : Nat) : AppliesCreating (applyWithin limit) (createdWithin limit) := by
  induction limit with
  | zero => exact fun _ _ _ _ _ _ _ _ _ _ _ => nofun
  | succ limit ih =>
    intro scope f args fs hf hargs w x w' hscope hw h
    obtain ⟨y, w₁, hy, rfl, rfl⟩ := enter_of_applyWithin h
    have hend := enter_creates ih hf hargs (w.note (.entered f.arity)) y w₁ hscope hw hy
    refine ⟨hend.size_le, hend.enrolls, fun v hv => ?_, fun u hu => ?_⟩
    · -- a call has the value of its body, or the one that it returns
      rcases y with (fault | u) | u <;> cases hv
      · exact hend.left (.returned v) rfl
      · exact hend.value v rfl
    · rcases y with (fault | v) | v <;> cases hu
      exact hend.left (.fault fault) rfl

/-- A program that is evaluated in a scope that is there adds the functions that it creates to the roster, whatever comes of it. -/
theorem eval_creates {limit : Nat} {p : Program} {w w' : World} {v : Value} (hw : w.store.Enrolls fs)
    (hscope : scope < w.store.scopes.size) (h : p.eval limit scope w = some (v, w')) :
    w'.store.Enrolls (fs ++ p.created limit scope w) ∧ v.Among (fs ++ p.created limit scope w) := by
  obtain ⟨x, hx, rfl⟩ := Program.eval_eq_some h
  have hend := stmts_create (applyWithin_creates limit) p.statements fs (.null fs) w x w' hscope hw hx
  refine ⟨hend.enrolls, ?_⟩
  cases x with
  | ok v => exact hend.value v rfl
  | error u => exact hend.left u rfl

end Eval

end Scriptlet
