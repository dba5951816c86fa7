import Mathlib.Data.Option.Basic
import Mathlib.Logic.Relator
import Scriptlet.Proofs.Evaluation.Law
import Scriptlet.Proofs.Lists
import Scriptlet.Proofs.Tree.Nodes
import Scriptlet.Proofs.Tree.Tokens

/-!
# Evaluation in two stores, side by side

The numbers of scopes and of functions are names that evaluation gives out and never looks at. So evaluation in two stores goes the
same way if the stores are alike under a `Renaming`, which says what scopes and functions of the two correspond: the scopes that
correspond are enclosed by scopes that correspond and bind names to values that are alike (`Store.Alike`).

Both sides make scopes and functions in step, and those made next correspond as well (`Renaming.grow`). A renaming that has grown in
this way is the same before and after evaluation, whatever comes of it (`Store.Paired`, `Eval.Pairs`).

The code on the two sides may have different tokens, and what is bound to a name that stands nowhere in the code may be different
(`Likeness`).
-/

namespace Scriptlet

/-! ## What corresponds -/

/-- How the code and the bindings of two stores may differ. -/
structure Likeness where
  /-- The names that have the same values on both sides. -/
  names : String → Prop
  /-- What may be done to the tokens of some code on one side to get that of the other side. -/
  tokens : (Token → Token) → Prop

/-- No name in a piece of code is one that may have other values on the other side. -/
def Likeness.Knows (K : Likeness) (ns : List Node) : Prop := ∀ id, .name id ∈ ns → K.names id.name

/-- The scopes and the functions of two stores that correspond. A scope corresponds to one scope at most, on either side. -/
structure Renaming where
  scopes : ScopeId → ScopeId → Prop
  functions : Nat → Nat → Prop
  oneToOne : Relator.BiUnique scopes

/-- Two numbers below `m` and `n`, or as far behind `m` and `n` as each other. -/
def InStep (m n i j : Nat) : Prop := i < m ∧ j < n ∨ m ≤ i ∧ i + n = j + m

/-- Two functions with the same code that were made in scopes that correspond. -/
structure Closure.Alike (K : Likeness) (R : Renaming) (f g : Closure) : Prop where
  id : R.functions f.id g.id
  scope : R.scopes f.scope g.scope
  knows : K.Knows f.body.nodes
  code : ∃ tok, K.tokens tok ∧ g.parameters = f.parameters.map (Identifier.mapToken tok) ∧ g.body = f.body.mapTokens tok tok

/-- Two values that are the same but for the numbers of scopes and functions. -/
inductive Value.Alike (K : Likeness) (R : Renaming) : Value → Value → Prop where
  | int (n : Int64) : Value.Alike K R (.int n) (.int n)
  | float (x : Float) : Value.Alike K R (.float x) (.float x)
  | bool (b : Bool) : Value.Alike K R (.bool b) (.bool b)
  | string (s : String) : Value.Alike K R (.string s) (.string s)
  | null : Value.Alike K R .null .null
  | function {f g : Closure} : f.Alike K R g → Value.Alike K R (.function f) (.function g)
  | error (message : String) : Value.Alike K R (.error message) (.error message)
  | returned {v u : Value} : Value.Alike K R v u → Value.Alike K R (.returned v) (.returned u)

/-- Two stores whose corresponding scopes look the same. Of two scopes that correspond, both are there or neither is; one that is not
there yet corresponds to the one that will be made when it is made. So it is with functions. -/
structure Store.Alike (K : Likeness) (R : Renaming) (s s' : Store) : Prop where
  scopes {i j : ScopeId} : R.scopes i j → InStep s.scopes.size s'.scopes.size i j
  functions {f g : Nat} : R.functions f g → InStep s.functions s'.functions f g
  enclosing {i j : ScopeId} : R.scopes i j → List.Forall₂ R.scopes (s.scope i).enclosing (s'.scope j).enclosing
  bindings {i j : ScopeId} : R.scopes i j → ∀ name, K.names name →
    Option.Rel (Value.Alike K R) ((s.scope i).get? name) ((s'.scope j).get? name)

/-- Two stores that are alike, and whose next scopes and functions correspond. -/
structure Store.Paired (K : Likeness) (R : Renaming) (s s' : Store) : Prop extends s.Alike K R s' where
  nextScope (k : Nat) : R.scopes (s.scopes.size + k) (s'.scopes.size + k)
  nextFunction (k : Nat) : R.functions (s.functions + k) (s'.functions + k)

/-- Two results of the same kind, with values that are related or the same fault. -/
inductive Outcome.Alike {α β : Type} (K : Likeness) (R : Renaming) (S : α → β → Prop) : Except Unwind α → Except Unwind β → Prop where
  | ok {a : α} {b : β} : S a b → Outcome.Alike K R S (.ok a) (.ok b)
  | fault (f : Fault) : Outcome.Alike K R S (.error (.fault f)) (.error (.fault f))
  | returned {v u : Value} : v.Alike K R u → Outcome.Alike K R S (.error (.returned v)) (.error (.returned u))

/-- Two parts of evaluation that end with results that are alike in stores that are alike, or do not end at all. -/
def Eval.Pairs {α β : Type} (K : Likeness) (R : Renaming) (S : α → β → Prop) (p : Eval α) (q : Eval β) : Prop :=
  ∀ w w', w.store.Paired K R w'.store →
    Option.Rel (fun x y => Outcome.Alike K R S x.1 y.1 ∧ x.2.store.Paired K R y.2.store) (p w) (q w')

variable {K : Likeness} {R : Renaming}

/-! ## Values -/

namespace Closure.Alike

variable {f g : Closure}

theorem arity (h : f.Alike K R g) : g.arity = f.arity := by
  obtain ⟨tok, -, hps, -⟩ := h.code
  unfold Closure.arity
  rw [hps, List.length_map]

/-- Other tokens leave the names of the parameters as they are. -/
theorem names (h : f.Alike K R g) : g.names = f.names := by
  obtain ⟨tok, -, hps, -⟩ := h.code
  unfold Closure.names
  rw [hps, List.map_map]
  rfl

end Closure.Alike

/-- A function is like itself if its number and the scope it was made in correspond to themselves. -/
theorem Likeness.alike_closure {f : Closure} (hid : R.functions f.id f.id) (hscope : R.scopes f.scope f.scope)
    (hknows : K.Knows f.body.nodes) (ht : K.tokens id) : f.Alike K R f := by
  refine ⟨hid, hscope, hknows, id, ht, ?_, ?_⟩
  · rw [Identifier.mapToken_id, List.map_id]
  · rw [Block.mapTokens_id]

namespace Value

/-- A number, a truth value or a string is like itself. -/
theorem IsData.alike {v : Value} (h : v.IsData) : v.Alike K R v := by
  cases v with
  | int n => exact .int n
  | float x => exact .float x
  | bool b => exact .bool b
  | string s => exact .string s
  | null | function _ | error _ | returned _ => cases h

namespace Alike

variable {v u v' u' : Value}

theorem truthy (h : v.Alike K R u) : u.truthy = v.truthy := by
  cases h <;> rfl

/-- Operators do not look at the numbers of scopes and functions. -/
theorem unary (h : v.Alike K R u) (op : String) : Value.unary op u = Value.unary op v := by
  unfold Value.unary
  rcases UnaryOp.ofText? op with _ | _ | _ <;> cases h <;> rfl

theorem binary (h : v.Alike K R u) (h' : v'.Alike K R u') (op : String) : Value.binary op u u' = Value.binary op v v' := by
  cases h <;> cases h' <;> rfl

end Alike

end Value

/-! ## What is alike is the same -/

/-- Only what is the same corresponds: tokens are left as they are, and scopes and functions keep their numbers. -/
structure Renaming.Strict (K : Likeness) (R : Renaming) : Prop where
  tokens {tok : Token → Token} : K.tokens tok → tok = id
  scopes {i j : ScopeId} : R.scopes i j → j = i
  functions {f g : Nat} : R.functions f g → g = f

theorem Closure.Alike.eq {f g : Closure} (h : f.Alike K R g) (hR : R.Strict K) : g = f := by
  obtain ⟨tok, ht, hps, hb⟩ := h.code
  rw [hR.tokens ht] at hps hb
  rw [Identifier.mapToken_id, List.map_id] at hps
  rw [Block.mapTokens_id] at hb
  cases f
  cases g
  rw [Closure.mk.injEq]
  exact ⟨hR.functions h.id, hps, hb, hR.scopes h.scope⟩

theorem Value.Alike.eq {v u : Value} (h : v.Alike K R u) (hR : R.Strict K) : u = v := by
  induction h with
  | int n => rfl
  | float x => rfl
  | bool b => rfl
  | string s => rfl
  | null => rfl
  | function h => rw [h.eq hR]
  | error m => rfl
  | returned _ ih => rw [ih]

theorem Outcome.Alike.eq {x y : Except Unwind Value} (h : Outcome.Alike K R (Value.Alike K R) x y) (hR : R.Strict K) : y = x := by
  cases h with
  | ok h => rw [h.eq hR]
  | fault f => rfl
  | returned h => rw [h.eq hR]

/-! ## Stores -/

namespace InStep

variable {m n i j : Nat}

theorem succ (h : InStep m n i j) : InStep (m + 1) (n + 1) i j := by
  unfold InStep at h ⊢
  omega

theorem lt_iff (h : InStep m n i j) : i < m ↔ j < n := by
  unfold InStep at h
  omega

end InStep

namespace Store

variable {s s' : Store} {i j : ScopeId}

theorem Alike.chain (h : s.Alike K R s') (hij : R.scopes i j) : List.Forall₂ R.scopes (s.chain i) (s'.chain j) :=
  .cons hij (h.enclosing hij)

/-- A name has values that are alike in scopes that correspond. -/
theorem Alike.get? (h : s.Alike K R s') (hij : R.scopes i j) {name : String} (hname : K.names name) :
    Option.Rel (Value.Alike K R) (s.get? i name) (s'.get? j name) :=
  List.findSome?_rel (h.chain hij) fun _ _ hab => h.bindings hab name hname

/-- If only what is the same corresponds, scopes that correspond are inside the same scopes. -/
theorem Alike.enclosing_eq (h : s.Alike K R s') (hR : R.Strict K) (hij : R.scopes i j) :
    (s'.scope j).enclosing = (s.scope i).enclosing := by
  have hall : List.Forall₂ Eq (s'.scope j).enclosing (s.scope i).enclosing := (h.enclosing hij).flip.imp fun _ _ hkl => hR.scopes hkl
  rwa [List.forall₂_eq_eq_eq] at hall

/-- And names have the same values in them. -/
theorem Alike.get?_eq (h : s.Alike K R s') (hR : R.Strict K) (hij : R.scopes i j) {name : String} (hname : K.names name) :
    (s'.scope j).get? name = (s.scope i).get? name := by
  have hval := h.bindings hij name hname
  generalize (s.scope i).get? name = v? at hval
  generalize (s'.scope j).get? name = u? at hval
  cases hval with
  | none => rfl
  | some hvu => rw [hvu.eq hR]

namespace Paired

/-- Binding a name to values that are alike, in scopes that correspond. -/
theorem set (h : s.Paired K R s') (hij : R.scopes i j) (name : String) {v u : Value} (hv : v.Alike K R u) :
    (s.set i name v).Paired K R (s'.set j name u) := by
  -- a scope is the one that is changed on one side just if it is on the other side
  have hsame : ∀ {a b}, R.scopes a b → (a = i ∧ a < s.scopes.size ↔ b = j ∧ b < s'.scopes.size) := fun hab =>
    and_congr (Relator.rel_eq R.oneToOne hab hij) (h.scopes hab).lt_iff
  refine ⟨⟨fun hab => ?_, h.functions, fun {a b} hab => ?_, fun {a b} hab n hn => ?_⟩, fun k => ?_, h.nextFunction⟩
  · rw [size_set, size_set]
    exact h.scopes hab
  · rw [scope_set, scope_set]
    split <;> split <;> exact h.enclosing hab
  · have hold := h.bindings hab n hn
    rw [scope_set, scope_set]
    by_cases ha : a = i ∧ a < s.scopes.size
    · rw [if_pos ha, if_pos ((hsame hab).mp ha), Scope.get?_set, Scope.get?_set]
      split
      · exact .some hv
      · exact hold
    · rw [if_neg ha, if_neg fun hb => ha ((hsame hab).mpr hb)]
      exact hold
  · rw [size_set, size_set]
    exact h.nextScope k

/-- Making a scope inside scopes that correspond. -/
theorem addInside (h : s.Paired K R s') (hij : R.scopes i j) : (s.addInside i).2.Paired K R (s'.addInside j).2 := by
  have hnew : R.scopes s.scopes.size s'.scopes.size := h.nextScope 0
  have hsame : ∀ {a b}, R.scopes a b → (a = s.scopes.size ↔ b = s'.scopes.size) := fun hab =>
    Relator.rel_eq R.oneToOne hab hnew
  unfold Store.addInside
  refine ⟨⟨fun hab => ?_, h.functions, fun {a b} hab => ?_, fun {a b} hab n hn => ?_⟩, fun k => ?_, h.nextFunction⟩
  · rw [size_add, size_add]
    exact (h.scopes hab).succ
  · rw [scope_add, scope_add]
    by_cases ha : a = s.scopes.size
    · rw [if_pos ha, if_pos ((hsame hab).mp ha)]
      exact h.chain hij
    · rw [if_neg ha, if_neg fun hb => ha ((hsame hab).mpr hb)]
      exact h.enclosing hab
  · rw [scope_add, scope_add]
    by_cases ha : a = s.scopes.size
    · rw [if_pos ha, if_pos ((hsame hab).mp ha)]
      exact .none
    · rw [if_neg ha, if_neg fun hb => ha ((hsame hab).mpr hb)]
      exact h.bindings hab n hn
  · rw [size_add, size_add, Nat.add_assoc, Nat.add_assoc, Nat.add_comm 1 k]
    exact h.nextScope (k + 1)

theorem addFunction (h : s.Paired K R s') (ps ps' : List Identifier) (b b' : Block) (i j : ScopeId) :
    (s.addFunction ps b i).2.Paired K R (s'.addFunction ps' b' j).2 := by
  refine ⟨⟨h.scopes, fun hfg => (h.functions hfg).succ, h.enclosing, h.bindings⟩, h.nextScope, fun k => ?_⟩
  show R.functions (s.functions + 1 + k) (s'.functions + 1 + k)
  rw [Nat.add_assoc, Nat.add_assoc, Nat.add_comm 1 k]
  exact h.nextFunction (k + 1)

end Paired

end Store

/-! ## Steps of evaluation -/

namespace Eval

variable {α β γ δ : Type} {S : α → β → Prop} {T : γ → δ → Prop}

theorem pairs_pure {a : α} {b : β} (h : S a b) : (pure a : Eval α).Pairs K R S (pure b : Eval β) :=
  fun _ _ hw => .some ⟨.ok h, hw⟩

theorem pairs_raise (f : Fault) : (raise f : Eval α).Pairs K R S (raise f : Eval β) :=
  fun _ _ hw => .some ⟨.fault f, hw⟩

theorem pairs_leave {v u : Value} (h : v.Alike K R u) :
    (throw (.returned v) : Eval α).Pairs K R S (throw (.returned u) : Eval β) :=
  fun _ _ hw => .some ⟨.returned h, hw⟩

/-- A sequence goes on with its second part on both sides, or on neither. -/
theorem Pairs.bind {p : Eval α} {q : Eval β} {f : α → Eval γ} {g : β → Eval δ} (h : p.Pairs K R S q)
    (hfg : ∀ a b, S a b → (f a).Pairs K R T (g b)) : (p >>= f).Pairs K R T (q >>= g) := by
  intro w w' hw
  have hpq := h w w' hw
  rw [bind_apply, bind_apply]
  generalize p w = x? at hpq
  generalize q w' = y? at hpq
  cases hpq with
  | none => exact .none
  | @some x y hboth =>
    obtain ⟨r, w₁⟩ := x
    obtain ⟨r', w₁'⟩ := y
    obtain ⟨hr, hw₁⟩ := hboth
    cases hr with
    | ok hab => exact hfg _ _ hab w₁ w₁' hw₁
    | fault f => exact .some ⟨.fault f, hw₁⟩
    | returned hv => exact .some ⟨.returned hv, hw₁⟩

theorem pairs_settle {r : Except Fault Value} (h : ∀ v, r = .ok v → v.IsData) :
    (settle r).Pairs K R (Value.Alike K R) (settle r) := by
  cases r with
  | error f => exact pairs_raise f
  | ok v => exact pairs_pure (h v rfl).alike

theorem pairs_lookup {i j : ScopeId} (hij : R.scopes i j) {name : String} (hname : K.names name) :
    (lookup i name).Pairs K R (Value.Alike K R) (lookup j name) := by
  intro w w' hw
  have hval := hw.get? hij hname
  rw [lookup_apply, lookup_apply]
  generalize w.store.get? i name = v? at hval
  generalize w'.store.get? j name = u? at hval
  cases hval with
  | none => exact .some ⟨.fault _, hw⟩
  | some hvu => exact .some ⟨.ok hvu, hw⟩

theorem pairs_bindName {i j : ScopeId} (hij : R.scopes i j) (name : String) {v u : Value} (hv : v.Alike K R u) :
    (bindName i name v).Pairs K R (fun _ _ => True) (bindName j name u) :=
  fun _ _ hw => .some ⟨.ok trivial, hw.set hij name hv⟩

theorem pairs_openScope {i j : ScopeId} (hij : R.scopes i j) : (openScope i).Pairs K R R.scopes (openScope j) :=
  fun _ _ hw => .some ⟨.ok (hw.nextScope 0), hw.addInside hij⟩

theorem pairs_makeFunction {i j : ScopeId} (hij : R.scopes i j) {tok : Token → Token} (ht : K.tokens tok) (ps : List Identifier)
    {b : Block} (hb : K.Knows b.nodes) :
    (makeFunction i ps b).Pairs K R (Value.Alike K R)
      (makeFunction j (ps.map (Identifier.mapToken tok)) (b.mapTokens tok tok)) :=
  fun _ _ hw => .some ⟨.ok (.function ⟨hw.nextFunction 0, hij, hb, tok, ht, rfl, rfl⟩),
    hw.addFunction ps (ps.map (Identifier.mapToken tok)) b (b.mapTokens tok tok) i j⟩

theorem pairs_callee {v u : Value} (h : v.Alike K R u) : (callee v).Pairs K R (Closure.Alike K R) (callee u) := by
  cases h with
  | function hf => exact pairs_pure hf
  | int _ | float _ | bool _ | string _ | null | error _ | returned _ => exact pairs_raise _

/-- Binding names to values that are alike, in their order. -/
theorem pairs_bindAll {i j : ScopeId} (hij : R.scopes i j) : ∀ (names : List String) {vs us : List Value},
    List.Forall₂ (Value.Alike K R) vs us → (bindAll i names vs).Pairs K R (fun _ _ => True) (bindAll j names us)
  | [], _, _, _ => by
    unfold bindAll
    exact pairs_pure trivial
  | name :: names, _, _, .nil => by
    unfold bindAll
    exact pairs_pure trivial
  | name :: names, _, _, .cons hv hvs => by
    unfold bindAll
    exact (pairs_bindName hij name hv).bind fun _ _ _ => pairs_bindAll hij names hvs

/-! ## Trees -/

/-- Functions that are alike, applied to values that are alike. -/
def AppliesAlike (K : Likeness) (R : Renaming) (apply apply' : Closure → List Value → Eval Value) : Prop :=
  ∀ f g args args', f.Alike K R g → List.Forall₂ (Value.Alike K R) args args' →
    (apply f args).Pairs K R (Value.Alike K R) (apply' g args')

end Eval

namespace Likeness

theorem knows_append {ns ms : List Node} : K.Knows (ns ++ ms) ↔ K.Knows ns ∧ K.Knows ms := by
  unfold Knows
  simp only [List.mem_append, or_imp, forall_and]

theorem knows_cons {n : Node} {ns : List Node} : K.Knows (n :: ns) ↔ (∀ id, n = .name id → K.names id.name) ∧ K.Knows ns := by
  unfold Knows
  simp only [List.mem_cons, or_imp, forall_and, eq_comm]

end Likeness

namespace Eval

variable {apply apply' : Closure → List Value → Eval Value} {tok : Token → Token} {i j : ScopeId}

mutual

/-- The same expression with other tokens, in scopes that correspond. -/
theorem expr_pairs (ha : AppliesAlike K R apply apply') (ht : K.tokens tok) (hij : R.scopes i j) : ∀ (e : Expr),
    K.Knows e.nodes → (e.eval apply i).Pairs K R (Value.Alike K R) ((e.mapTokens tok tok).eval apply' j)
  | .ident id, h => by
    rw [Expr.mapTokens, Expr.eval, Expr.eval]
    rw [Expr.nodes, Likeness.knows_cons] at h
    exact pairs_lookup hij (h.1 id rfl)
  | .int _ n, _ => by
    rw [Expr.mapTokens, Expr.eval, Expr.eval]
    exact pairs_pure (.int n)
  | .float _ x, _ => by
    rw [Expr.mapTokens, Expr.eval, Expr.eval]
    exact pairs_pure (.float x)
  | .bool _ b, _ => by
    rw [Expr.mapTokens, Expr.eval, Expr.eval]
    exact pairs_pure (.bool b)
  | .string _ s, _ => by
    rw [Expr.mapTokens, Expr.eval, Expr.eval]
    exact pairs_pure (.string s)
  | .unary _ op e, h => by
    rw [Expr.mapTokens, Expr.eval, Expr.eval]
    rw [Expr.nodes, Likeness.knows_cons] at h
    refine (expr_pairs ha ht hij e h.2).bind fun v u hvu => ?_
    rw [hvu.unary]
    exact pairs_settle fun _ => Value.isData_of_unary
  | .binary _ l op r, h => by
    rw [Expr.mapTokens, Expr.eval, Expr.eval]
    rw [Expr.nodes, Likeness.knows_append, Likeness.knows_cons] at h
    refine (expr_pairs ha ht hij l h.1).bind fun a a' haa => (expr_pairs ha ht hij r h.2.2).bind fun b b' hbb => ?_
    rw [haa.binary hbb]
    exact pairs_settle fun _ => Value.isData_of_binary
  | .cond _ c a none, h => by
    rw [Expr.mapTokens, Expr.eval, Expr.eval]
    rw [Expr.nodes, Likeness.knows_cons, Likeness.knows_append] at h
    refine (expr_pairs ha ht hij c h.2.1).bind fun v u hvu => ?_
    rw [hvu.truthy]
    split
    · exact block_pairs ha ht hij a h.2.2
    · exact pairs_pure .null
  | .cond _ c a (some b), h => by
    rw [Expr.mapTokens, Expr.eval, Expr.eval]
    rw [Expr.nodes, Likeness.knows_cons, Likeness.knows_append, Likeness.knows_append] at h
    refine (expr_pairs ha ht hij c h.2.1).bind fun v u hvu => ?_
    rw [hvu.truthy]
    split
    · exact block_pairs ha ht hij a h.2.2.1
    · exact block_pairs ha ht hij b h.2.2.2
  | .function _ ps b, h => by
    rw [Expr.mapTokens, Expr.eval, Expr.eval]
    rw [Expr.nodes, Likeness.knows_cons, Likeness.knows_append] at h
    exact pairs_makeFunction hij ht ps h.2.2
  | .call _ f as, h => by
    rw [Expr.mapTokens, Expr.eval, Expr.eval]
    rw [Expr.nodes, Likeness.knows_append, Likeness.knows_cons] at h
    refine (expr_pairs ha ht hij f h.1).bind fun v u hvu => (pairs_callee hvu).bind fun g g' hg => ?_
    exact (exprs_pair ha ht hij as h.2.2).bind fun vs us hvs => ha g g' vs us hg hvs

theorem exprs_pair (ha : AppliesAlike K R apply apply') (ht : K.tokens tok) (hij : R.scopes i j) : ∀ (es : List Expr),
    K.Knows (Expr.nodesAll es) → (Expr.evalAll apply i es).Pairs K R (List.Forall₂ (Value.Alike K R))
      (Expr.evalAll apply' j (Expr.mapAllTokens tok tok es))
  | [], _ => by
    rw [Expr.mapAllTokens, Expr.evalAll, Expr.evalAll]
    exact pairs_pure .nil
  | e :: es, h => by
    rw [Expr.mapAllTokens, Expr.evalAll, Expr.evalAll]
    rw [Expr.nodesAll, Likeness.knows_append] at h
    refine (expr_pairs ha ht hij e h.1).bind fun v u hvu => (exprs_pair ha ht hij es h.2).bind fun vs us hvs => ?_
    exact pairs_pure (.cons hvu hvs)

theorem stmt_pairs (ha : AppliesAlike K R apply apply') (ht : K.tokens tok) (hij : R.scopes i j) : ∀ (s : Stmt),
    K.Knows s.nodes → (s.eval apply i).Pairs K R (Value.Alike K R) ((s.mapTokens tok tok).eval apply' j)
  | .bind _ id e, h => by
    rw [Stmt.mapTokens, Stmt.eval, Stmt.eval]
    rw [Stmt.nodes, Likeness.knows_cons, Likeness.knows_cons] at h
    refine (expr_pairs ha ht hij e h.2.2).bind fun v u hvu => (pairs_bindName hij id.name hvu).bind fun _ _ _ => ?_
    exact pairs_pure .null
  | .ret _ e, h => by
    rw [Stmt.mapTokens, Stmt.eval, Stmt.eval]
    rw [Stmt.nodes, Likeness.knows_cons] at h
    exact (expr_pairs ha ht hij e h.2).bind fun v u hvu => pairs_leave hvu
  | .expr _ e, h => by
    rw [Stmt.mapTokens, Stmt.eval, Stmt.eval]
    rw [Stmt.nodes, Likeness.knows_cons] at h
    exact expr_pairs ha ht hij e h.2
  | .block b, h => by
    rw [Stmt.mapTokens, Stmt.eval, Stmt.eval]
    rw [Stmt.nodes] at h
    exact block_pairs ha ht hij b h

theorem block_pairs (ha : AppliesAlike K R apply apply') (ht : K.tokens tok) (hij : R.scopes i j) : ∀ (b : Block),
    K.Knows b.nodes → (b.eval apply i).Pairs K R (Value.Alike K R) ((b.mapTokens tok tok).eval apply' j)
  | ⟨_, ss⟩, h => by
    rw [Block.mapTokens, Block.eval, Block.eval]
    rw [Block.nodes, Likeness.knows_cons] at h
    exact stmts_pair ha ht hij ss .null h.2

theorem stmts_pair (ha : AppliesAlike K R apply apply') (ht : K.tokens tok) (hij : R.scopes i j) : ∀ (ss : List Stmt)
    {last last' : Value}, last.Alike K R last' → K.Knows (Stmt.nodesAll ss) →
    (Stmt.evalAll apply i last ss).Pairs K R (Value.Alike K R) (Stmt.evalAll apply' j last' (Stmt.mapAllTokens tok tok ss))
  | [], _, _, hl, _ => by
    rw [Stmt.mapAllTokens, Stmt.evalAll, Stmt.evalAll]
    exact pairs_pure hl
  | s :: ss, _, _, _, h => by
    rw [Stmt.mapAllTokens, Stmt.evalAll, Stmt.evalAll]
    rw [Stmt.nodesAll, Likeness.knows_append] at h
    exact (stmt_pairs ha ht hij s h.1).bind fun v u hvu => stmts_pair ha ht hij ss hvu h.2

end

/-! ## Functions -/

/-- Entering functions that are alike. -/
theorem enter_pairs (ha : AppliesAlike K R apply apply') {f g : Closure} {args args' : List Value} (hf : f.Alike K R g)
    (hargs : List.Forall₂ (Value.Alike K R) args args') :
    (f.enter apply args).Pairs K R (Value.Alike K R) (g.enter apply' args') := by
  obtain ⟨tok, ht, -, hbody⟩ := hf.code
  unfold Closure.enter
  rw [hf.arity, hf.names, hbody, ← hargs.length_eq]
  split
  · refine (pairs_openScope hf.scope).bind fun a b hab => (pairs_bindAll hab f.names hargs).bind fun _ _ _ => ?_
    exact block_pairs ha ht hab f.body hf.knows
  · exact pairs_raise _

/-- A call takes the same returned value as its own on both sides. -/
theorem outcome_atCall {x y : Except Unwind Value} (h : Outcome.Alike K R (Value.Alike K R) x y) :
    Outcome.Alike K R (Value.Alike K R) (atCall x) (atCall y) := by
  cases h with
  | ok hv => exact .ok hv
  | fault f => exact .fault f
  | returned hv => exact .ok hv

theorem call_pairs (arity : Nat) {p q : Eval Value} (h : p.Pairs K R (Value.Alike K R) q) :
    (call arity p).Pairs K R (Value.Alike K R) (call arity q) := by
  intro w w' hw
  rw [call_apply, call_apply]
  exact Option.rel_map (h (w.note (.entered arity)) (w'.note (.entered arity)) hw) fun _ _ hxy => ⟨outcome_atCall hxy.1, hxy.2⟩

/-- Functions that are alike are applied alike, with the same limit: by induction on the limit, since the calls in the body have less of
it. -/
theorem applyWithin_pairs (K : Likeness) (R : Renaming) (limit : Nat) :
    AppliesAlike K R (applyWithin limit) (applyWithin limit) := by
  induction limit with
  | zero => exact fun _ _ _ _ _ _ _ _ _ => .none
  | succ limit ih =>
    intro f g args args' hf hargs
    rw [applyWithin, applyWithin, hf.arity]
    exact call_pairs f.arity (enter_pairs ih hf hargs)

end Eval

end Scriptlet
