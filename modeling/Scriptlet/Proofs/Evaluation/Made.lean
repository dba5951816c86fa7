import Scriptlet.Proofs.Evaluation.Locality

/-!
# What completed statements bind

A `let` binds its name when its value has been found, and not before; that is when it completes. The bindings of some code are those of all
the statements that complete while it is evaluated, one after the other, wherever they stand (`Expr.made` and the others): in a block, in
a choice, or in the body of a function that is called, whose parameters are bound first.

Whatever comes of evaluation, a value, a fault or a return, these are the bindings that are kept, and there are no others
(`Eval.eval_makes`): in every scope a name has the value of the last one of them, or else the value it had.
-/

namespace Scriptlet

/-- A name is bound to a value in a scope. -/
structure Binding where
  scope : ScopeId
  name : String
  value : Value

/-- What a name is bound to in a scope behind a binding, from what it was bound to before. -/
def Binding.over (id : ScopeId) (name : String) (before : Option Value) (b : Binding) : Option Value :=
  if b.scope = id ∧ b.name = name then some b.value else before

/-- What a part of evaluation binds, from the value and the world where the part before it ends; nothing if that has no value. -/
def Eval.after {α : Type} (p : Eval α) (made : α → World → List Binding) (w : World) : List Binding :=
  match p w with
  | some (.ok a, w') => made a w'
  | some (.error _, _) | none => []

/-! ## The bindings of some code -/

section

variable (apply : Closure → List Value → Eval Value) (inside : Closure → List Value → World → List Binding)

mutual

/-- The bindings of an expression that is evaluated in a scope of a world. What an application binds is `inside`. -/
def Expr.made (scope : ScopeId) : Expr → World → List Binding
  | .ident _, _ | .int _ _, _ | .float _ _, _ | .bool _ _, _ | .string _ _, _ | .function _ _ _, _ => []
  | .unary _ _ e, w => e.made scope w
  | .binary _ l _ r, w => l.made scope w ++ (l.eval apply scope).after (fun _ => r.made scope) w
  | .cond _ c a none, w => c.made scope w ++
      (c.eval apply scope).after (fun v w => if v.truthy then a.made scope w else []) w
  | .cond _ c a (some b), w => c.made scope w ++
      (c.eval apply scope).after (fun v w => if v.truthy then a.made scope w else b.made scope w) w
  | .call _ f as, w => f.made scope w ++
      (f.eval apply scope >>= Eval.callee).after (fun g w => Expr.madeAll scope as w ++ (Expr.evalAll apply scope as).after (inside g) w) w

/-- The bindings of a list of expressions. -/
def Expr.madeAll (scope : ScopeId) : List Expr → World → List Binding
  | [], _ => []
  | e :: es, w => e.made scope w ++ (e.eval apply scope).after (fun _ => Expr.madeAll scope es) w

/-- The bindings of a statement. -/
def Stmt.made (scope : ScopeId) : Stmt → World → List Binding
  | .bind _ id e, w => e.made scope w ++ (e.eval apply scope).after (fun v _ => [⟨scope, id.name, v⟩]) w
  | .ret _ e, w | .expr _ e, w => e.made scope w
  | .block b, w => b.made scope w

/-- The bindings of a block. -/
def Block.made (scope : ScopeId) : Block → World → List Binding
  | ⟨_, ss⟩, w => Stmt.madeAll scope ss w

/-- The bindings of a list of statements. -/
def Stmt.madeAll (scope : ScopeId) : List Stmt → World → List Binding
  | [], _ => []
  | s :: ss, w => s.made scope w ++ (s.eval apply scope).after (fun _ => Stmt.madeAll scope ss) w

end

/-- The bindings of a call: the parameters are bound in a new scope, and then the body is evaluated there. -/
def Closure.made (f : Closure) (args : List Value) (w : World) : List Binding :=
  let scope := w.store.scopes.size
  if args.length = f.arity then
    List.zipWith (Binding.mk scope) f.names args ++ (Eval.bindAll scope f.names args).after (fun _ => f.body.made apply inside scope)
      ({ w with store := (w.store.addInside f.scope).2 }.note (.opened scope))
  else []

end

/-- The bindings of the application of a function, with a limit on the calls that are open at once. -/
def madeWithin : Nat → Closure → List Value → World → List Binding
  | 0, _, _, _ => []
  | n + 1, f, args, w => f.made (applyWithin n) (madeWithin n) args (w.note (.entered f.arity))

/-! ## Stores with more bindings -/

/-- One store comes from another one by bindings: in every scope a name has the value it is bound to last. -/
structure Store.Binds (s : Store) (bs : List Binding) (t : Store) : Prop where
  size_le : s.scopes.size ≤ t.scopes.size
  bindings (id : ScopeId) (name : String) : (t.scope id).get? name = bs.foldl (Binding.over id name) ((s.scope id).get? name)

namespace Store.Binds

variable {s t u : Store} {bs cs : List Binding}

theorem refl (s : Store) : s.Binds [] s := ⟨Nat.le_refl _, fun _ _ => rfl⟩

theorem trans (h : s.Binds bs t) (h' : t.Binds cs u) : s.Binds (bs ++ cs) u := by
  refine ⟨Nat.le_trans h.size_le h'.size_le, fun id name => ?_⟩
  rw [h'.bindings, h.bindings, List.foldl_append]

/-- A scope that is there is bound in. -/
theorem set {scope : ScopeId} (h : scope < s.scopes.size) (name : String) (v : Value) : s.Binds [⟨scope, name, v⟩] (s.set scope name v) := by
  refine ⟨Nat.le_of_eq (size_set s scope name v).symm, fun id other => ?_⟩
  rw [scope_set]
  simp only [List.foldl_cons, List.foldl_nil, Binding.over]
  by_cases hid : id = scope
  · subst hid
    rw [if_pos ⟨rfl, h⟩, Scope.get?_set]
    simp only [true_and, eq_comm]
  · rw [if_neg fun hboth => hid hboth.1, if_neg fun hboth => hid hboth.1.symm]

/-- A new scope binds nothing, as little as before it was there. -/
theorem addInside (s : Store) (outer : ScopeId) : s.Binds [] (s.addInside outer).2 := by
  unfold Store.addInside
  refine ⟨?_, fun id name => ?_⟩
  · rw [size_add]
    exact Nat.le_succ _
  · rw [scope_add]
    split
    · next hid =>
      rw [hid, scope_of_size_le (Nat.le_refl _)]
      rfl
    · rfl

theorem addFunction (s : Store) (ps : List Identifier) (b : Block) (scope : ScopeId) : s.Binds [] (s.addFunction ps b scope).2 :=
  ⟨Nat.le_refl _, fun _ _ => rfl⟩

end Store.Binds

/-! ## What each step binds -/

namespace Eval

variable {α β : Type} {scope : ScopeId}

theorem after_apply {p : Eval α} {made : α → World → List Binding} {w w' : World} {a : α} (h : p w = some (.ok a, w')) :
    p.after made w = made a w' := by
  unfold after
  rw [h]

theorem after_error {p : Eval α} {made : α → World → List Binding} {w w' : World} {u : Unwind} (h : p w = some (.error u, w')) :
    p.after made w = [] := by
  unfold after
  rw [h]

/-- What a part of evaluation in a scope that is there binds, whatever comes of it. -/
def Makes (scope : ScopeId) (p : Eval α) (made : World → List Binding) : Prop :=
  ∀ (w : World) (x : Except Unwind α) (w' : World), scope < w.store.scopes.size → p w = some (x, w') →
    w.store.Binds (made w) w'.store

/-- A second part binds what it does where the first one ends. -/
theorem Makes.bind {p : Eval α} {f : α → Eval β} {made : World → List Binding} {made' : α → World → List Binding}
    (hp : p.Makes scope made) (hf : ∀ a, (f a).Makes scope (made' a)) :
    (p >>= f).Makes scope (fun w => made w ++ p.after made' w) := by
  intro w x w' hw h
  rw [bind_apply] at h
  rcases hpw : p w with _ | ⟨u | a, w₁⟩
  · simp [hpw] at h
  · rw [hpw] at h
    cases h
    show w.store.Binds (made w ++ p.after made' w) w'.store
    rw [after_error hpw, List.append_nil]
    exact hp _ _ _ hw hpw
  · rw [hpw] at h
    show w.store.Binds (made w ++ p.after made' w) w'.store
    rw [after_apply hpw]
    have hbinds := hp _ _ _ hw hpw
    exact hbinds.trans (hf a _ _ _ (Nat.lt_of_lt_of_le hw hbinds.size_le) h)

/-- Nothing is bound behind the first part. -/
theorem Makes.bind_nothing {p : Eval α} {f : α → Eval β} {made : World → List Binding} (hp : p.Makes scope made)
    (hf : ∀ a, (f a).Makes scope fun _ => []) : (p >>= f).Makes scope made := by
  intro w x w' hw h
  have hnothing : p.after (fun _ _ => []) w = [] := by
    unfold after
    split <;> rfl
  have hbinds : w.store.Binds (made w ++ p.after (fun _ _ => []) w) w'.store := hp.bind hf _ _ _ hw h
  rwa [hnothing, List.append_nil] at hbinds

/-- Only one of two parts is evaluated. -/
theorem Makes.choice {c : Prop} [Decidable c] {p q : Eval α} {made made' : World → List Binding} (hp : p.Makes scope made)
    (hq : q.Makes scope made') : (if c then p else q).Makes scope (fun w => if c then made w else made' w) := by
  split
  · exact hp
  · exact hq

theorem makes_pure (a : α) : (pure a : Eval α).Makes scope fun _ => [] := by
  intro w x w' _ h
  cases h
  exact .refl _

theorem makes_raise (f : Fault) : (raise f : Eval α).Makes scope fun _ => [] := by
  intro w x w' _ h
  cases h
  exact .refl _

theorem makes_settle (r : Except Fault Value) : (settle r).Makes scope fun _ => [] := by
  cases r with
  | error f => exact makes_raise f
  | ok v => exact makes_pure v

theorem makes_lookup (name : String) : (lookup scope name).Makes scope fun _ => [] := by
  intro w x w' _ h
  rw [lookup_apply] at h
  split at h <;> cases h <;> exact .refl _

theorem makes_bindName (name : String) (v : Value) : (bindName scope name v).Makes scope fun _ => [⟨scope, name, v⟩] := by
  intro w x w' hw h
  cases h
  exact .set hw name v

theorem makes_makeFunction (ps : List Identifier) (b : Block) : (makeFunction scope ps b).Makes scope fun _ => [] := by
  intro w x w' _ h
  cases h
  exact .addFunction _ ps b scope

theorem makes_callee (v : Value) : (callee v).Makes scope fun _ => [] := by
  cases v with
  | function f => exact makes_pure f
  | int _ | float _ | bool _ | string _ | null | error _ | returned _ => exact makes_raise _

theorem makes_throw (u : Unwind) : (throw u : Eval α).Makes scope fun _ => [] := by
  intro w x w' _ h
  cases h
  exact .refl _

/-! ## Trees -/

/-- The application of functions binds what is `inside` it, wherever it is used. -/
def AppliesMaking (apply : Closure → List Value → Eval Value) (inside : Closure → List Value → World → List Binding) : Prop :=
  ∀ (scope : ScopeId) (f : Closure) (args : List Value), (apply f args).Makes scope (inside f args)

variable {apply : Closure → List Value → Eval Value} {inside : Closure → List Value → World → List Binding}

mutual

theorem expr_makes (ha : AppliesMaking apply inside) : ∀ e : Expr, (e.eval apply scope).Makes scope (e.made apply inside scope)
  | .ident id => by
    rw [Expr.eval]
    exact makes_lookup id.name
  | .int _ n => by
    rw [Expr.eval]
    exact makes_pure _
  | .float _ x => by
    rw [Expr.eval]
    exact makes_pure _
  | .bool _ b => by
    rw [Expr.eval]
    exact makes_pure _
  | .string _ s => by
    rw [Expr.eval]
    exact makes_pure _
  | .unary _ op e => by
    rw [Expr.eval]
    exact (expr_makes ha e).bind_nothing fun v => makes_settle _
  | .binary _ l op r => by
    rw [Expr.eval]
    exact (expr_makes ha l).bind fun a => (expr_makes ha r).bind_nothing fun b => makes_settle _
  | .cond _ c a none => by
    rw [Expr.eval]
    exact (expr_makes ha c).bind fun v => (block_makes ha a).choice (makes_pure _)
  | .cond _ c a (some b) => by
    rw [Expr.eval]
    exact (expr_makes ha c).bind fun v => (block_makes ha a).choice (block_makes ha b)
  | .function _ ps b => by
    rw [Expr.eval]
    exact makes_makeFunction ps b
  | .call _ f as => by
    rw [Expr.eval]
    have hcallee := (expr_makes ha f).bind_nothing makes_callee
    have hcall := hcallee.bind fun g => (exprs_make ha as).bind fun vs => ha scope g vs
    rw [bind_assoc] at hcall
    exact hcall

theorem exprs_make (ha : AppliesMaking apply inside) : ∀ es : List Expr,
    (Expr.evalAll apply scope es).Makes scope (Expr.madeAll apply inside scope es)
  | [] => by
    rw [Expr.evalAll]
    exact makes_pure _
  | e :: es => by
    rw [Expr.evalAll]
    exact (expr_makes ha e).bind fun v => (exprs_make ha es).bind_nothing fun vs => makes_pure _

theorem stmt_makes (ha : AppliesMaking apply inside) : ∀ s : Stmt, (s.eval apply scope).Makes scope (s.made apply inside scope)
  | .bind _ id e => by
    rw [Stmt.eval]
    exact (expr_makes ha e).bind fun v => (makes_bindName id.name v).bind_nothing fun _ => makes_pure _
  | .ret _ e => by
    rw [Stmt.eval]
    exact (expr_makes ha e).bind_nothing fun v => makes_throw _
  | .expr _ e => by
    rw [Stmt.eval]
    exact expr_makes ha e
  | .block b => by
    rw [Stmt.eval]
    exact block_makes ha b

theorem block_makes (ha : AppliesMaking apply inside) : ∀ b : Block, (b.eval apply scope).Makes scope (b.made apply inside scope)
  | ⟨_, ss⟩ => by
    rw [Block.eval]
    exact stmts_make ha ss

theorem stmts_make (ha : AppliesMaking apply inside) : ∀ (ss : List Stmt) {last : Value},
    (Stmt.evalAll apply scope last ss).Makes scope (Stmt.madeAll apply inside scope ss)
  | [], _ => by
    rw [Stmt.evalAll]
    exact makes_pure _
  | s :: ss, _ => by
    rw [Stmt.evalAll]
    exact (stmt_makes ha s).bind fun v => stmts_make ha ss

end

/-! ## Functions -/

theorem makes_bindAll : ∀ (names : List String) (vs : List Value),
    (bindAll scope names vs).Makes scope fun _ => List.zipWith (Binding.mk scope) names vs
  | [], _ => by
    unfold bindAll
    exact makes_pure ()
  | _ :: _, [] => by
    unfold bindAll
    exact makes_pure ()
  | name :: names, v :: vs => by
    unfold bindAll
    exact (makes_bindName name v).bind fun _ => makes_bindAll names vs

/-- The scope of a call is new, so all that is there when the parameters are bound has been there before. -/
theorem enter_makes (ha : AppliesMaking apply inside) (f : Closure) (args : List Value) :
    (f.enter apply args).Makes scope (f.made apply inside args) := by
  intro w x w' _ h
  rw [enter_apply] at h
  unfold Closure.made
  split at h
  · next hlength =>
    rw [if_pos hlength]
    have hopen := Store.Binds.addInside w.store f.scope
    have hlt : w.store.scopes.size < (w.store.addInside f.scope).2.scopes.size :=
      Nat.lt_of_lt_of_eq (Nat.lt_succ_self _) (Store.size_add w.store _).symm
    have hbody : (body apply f args w.store.scopes.size).Makes w.store.scopes.size _ :=
      (makes_bindAll f.names args).bind fun _ => block_makes ha f.body
    exact hopen.trans (hbody _ x w' hlt h)
  · next hlength =>
    rw [if_neg hlength]
    cases h
    exact .refl _

/-- By induction on the limit, since the calls in the body have less of it. -/
theorem applyWithin_makes (limit : Nat) : AppliesMaking (applyWithin limit) (madeWithin limit) := by
  induction limit with
  | zero => exact fun _ _ _ _ _ _ _ => nofun
  | succ limit ih =>
    intro scope f args w x w' hw h
    obtain ⟨y, w₁, hy, rfl, rfl⟩ := enter_of_applyWithin h
    have henter : (f.enter (applyWithin limit) args).Makes scope _ := enter_makes ih f args
    exact henter (w.note (.entered f.arity)) y w₁ hw hy

end Eval

/-- Statements that leave: some complete, the next one leaves, and there are no bindings of those behind it. -/
theorem Stmt.madeAll_of_error {apply : Closure → List Value → Eval Value} (inside : Closure → List Value → World → List Binding)
    {scope : ScopeId} {ss : List Stmt} {last : Value} {w w' : World} {u : Unwind}
    (h : Stmt.evalAll apply scope last ss w = some (.error u, w')) : ∃ before s after v w₁, ss = before ++ s :: after ∧
      Stmt.evalAll apply scope last before w = some (.ok v, w₁) ∧ s.eval apply scope w₁ = some (.error u, w') ∧
      Stmt.madeAll apply inside scope ss w = Stmt.madeAll apply inside scope before w ++ s.made apply inside scope w₁ := by
  induction ss generalizing last w with
  | nil => cases h
  | cons s ss ih =>
    rw [Stmt.evalAll, Eval.bind_apply] at h
    rcases hs : s.eval apply scope w with _ | ⟨u' | v, w₁⟩
    · simp [hs] at h
    · rw [hs] at h
      cases h
      refine ⟨[], s, ss, last, w, rfl, rfl, hs, ?_⟩
      show s.made apply inside scope w ++ (s.eval apply scope).after _ w = s.made apply inside scope w
      rw [Eval.after_error hs, List.append_nil]
    · rw [hs] at h
      obtain ⟨before, t, after, v', w₂, rfl, hbefore, ht, hmade⟩ := ih h
      refine ⟨s :: before, t, after, v', w₂, rfl, ?_, ht, ?_⟩
      · rw [Stmt.evalAll, Eval.bind_apply, hs]
        exact hbefore
      · rw [Stmt.madeAll, Stmt.madeAll, Eval.after_apply hs, Eval.after_apply hs, hmade, List.append_assoc]

/-- The bindings of a program that is evaluated in a scope of a world. -/
def Program.made (limit : Nat) (scope : ScopeId) (p : Program) : World → List Binding :=
  Stmt.madeAll (applyWithin limit) (madeWithin limit) scope p.statements

/-- What a program binds in a scope that is there is what its statements bind that complete, whatever comes of it. -/
theorem Eval.eval_makes {limit : Nat} {scope : ScopeId} {p : Program} {w w' : World} {v : Value}
    (hscope : scope < w.store.scopes.size) (h : p.eval limit scope w = some (v, w')) :
    w.store.Binds (p.made limit scope w) w'.store := by
  obtain ⟨x, hx, -⟩ := Program.eval_eq_some h
  exact stmts_make (applyWithin_makes limit) p.statements w x w' hscope hx

end Scriptlet
