import Scriptlet.Evaluation.Steps
import Scriptlet.Proofs.Value.Kinds

/-!
# Constant expressions

An expression made of literals and operators comes to the same value, or the same fault, wherever it is evaluated (`Expr.Computes`).

Its kind can be computed from the kinds of its literals, from the inside out and from left to right, up to the first operator that there
is not between its operands (`Expr.kind?`). Evaluation gives a value of that kind, or fails with the text of that operator's fault; only
where an integer is divided by zero before, it fails with that instead (`Expr.eval_foretold`).
-/

namespace Scriptlet

namespace Expr

/-- What comes of an expression in every scope of every world: a value, which leaves the world as it is, or a fault. -/
def Computes (e : Expr) (r : Except Fault Value) : Prop :=
  ∀ (apply : Closure → List Value → Eval Value) (scope : ScopeId) (w : World), e.eval apply scope w = Eval.settle r w

/-- What an expression of literals and operators comes to as far as the kinds of the literals tell: a kind, or the text of the first fault. -/
def kind? : Expr → Option (Except String ValueKind)
  | int _ _ => some (.ok .integer)
  | float _ _ => some (.ok .float)
  | bool _ _ => some (.ok .boolean)
  | string _ _ => some (.ok .string)
  | unary _ op e => do
    let k ← e.kind?
    return k >>= ValueKind.unary op
  | binary _ l op r => do
    let k ← l.kind?
    let k' ← r.kind?
    return do (← k).binary op (← k')
  | ident _ | cond _ _ _ _ | function _ _ _ | call _ _ _ => none

/-- The first thing in an expression that has no value is the division of an integer by zero: all that is evaluated before has a value. -/
inductive DividesByZero : Expr → Prop where
  | operand (t : Token) (op : String) {e : Expr} : e.DividesByZero → (unary t op e).DividesByZero
  | left (t : Token) (op : String) {l : Expr} (r : Expr) : l.DividesByZero → (binary t l op r).DividesByZero
  | right (t : Token) (op : String) {l r : Expr} {a : Value} :
      l.Computes (.ok a) → r.DividesByZero → (binary t l op r).DividesByZero
  | here (t : Token) {l r : Expr} {a : Int64} :
      l.Computes (.ok (.int a)) → r.Computes (.ok (.int 0)) → (binary t l "/" r).DividesByZero

/-! ## What comes of literals and operators -/

section

variable {e l r : Expr} {x y : Except Fault Value}

theorem computes_int (t : Token) (n : Int64) : (int t n).Computes (.ok (.int n)) := fun _ _ _ => rfl

theorem Computes.unary (t : Token) (op : String) (h : e.Computes x) : (unary t op e).Computes (x >>= Value.unary op) := by
  intro apply scope w
  simp only [eval, Eval.bind_apply, h apply scope w]
  cases x <;> rfl

theorem Computes.binary (t : Token) (op : String) (hl : l.Computes x) (hr : r.Computes y) :
    (binary t l op r).Computes (do Value.binary op (← x) (← y)) := by
  intro apply scope w
  simp only [eval, Eval.bind_apply, hl apply scope w]
  cases x with
  | error f => rfl
  | ok a =>
    simp only [Eval.settle_apply, hr apply scope w]
    cases y <;> rfl

/-- What comes of an expression is determined: it comes of it in the empty world, too. -/
theorem Computes.unique (hx : e.Computes x) (hy : e.Computes y) : x = y := by
  have h : Eval.settle x .empty = Eval.settle y .empty := (hx (fun _ _ => Eval.exhausted) 0 .empty).symm.trans (hy _ _ _)
  rw [Eval.settle_apply, Eval.settle_apply] at h
  cases x <;> cases y <;> cases h <;> rfl

end

/-! ## What the kinds tell -/

/-- An expression comes to what the kinds tell, or divides an integer by zero before. -/
structure Foretold (e : Expr) (p : Except String ValueKind) (r : Except Fault Value) : Prop where
  computes : e.Computes r
  zero : r = .error .divisionByZero ↔ e.DividesByZero
  otherwise : r ≠ .error .divisionByZero → Value.foretold r = p

namespace Foretold

variable {e l r : Expr} {p q : Except String ValueKind} {x y : Except Fault Value}

theorem literal {v : Value} (he : e.Computes (.ok v)) (hzero : ¬e.DividesByZero) : e.Foretold (.ok v.kind) (.ok v) :=
  ⟨he, ⟨nofun, fun h => absurd h hzero⟩, fun _ => rfl⟩

theorem unary (t : Token) (op : String) (h : e.Foretold p x) :
    (Expr.unary t op e).Foretold (p >>= ValueKind.unary op) (x >>= Value.unary op) := by
  refine ⟨h.computes.unary t op, ⟨fun hzero => ?_, fun hzero => ?_⟩, fun hne => ?_⟩
  · cases x with
    | error f => exact .operand t op (h.zero.mp hzero)
    | ok v => exact (Value.unary_ne_divisionByZero op v hzero).elim
  · cases hzero with
    | operand _ _ he => rw [h.zero.mpr he]; rfl
  · cases x with
    | error f =>
      rw [← h.otherwise hne]
      rfl
    | ok v =>
      rw [← h.otherwise nofun]
      exact Value.foretold_unary op v

theorem binary (t : Token) (op : String) (hl : l.Foretold p x) (hr : r.Foretold q y) :
    (Expr.binary t l op r).Foretold (do (← p).binary op (← q)) (do Value.binary op (← x) (← y)) := by
  refine ⟨hl.computes.binary t op hr.computes, ⟨fun hzero => ?_, fun hzero => ?_⟩, fun hne => ?_⟩
  · cases x with
    | error f => exact .left t op r (hl.zero.mp hzero)
    | ok a =>
      cases y with
      | error f => exact .right t op hl.computes (hr.zero.mp hzero)
      | ok b =>
        obtain ⟨rfl, hkind, rfl⟩ := Value.binary_eq_divisionByZero_iff.mp hzero
        cases a <;> cases hkind
        exact .here t hl.computes hr.computes
  · cases hzero with
    | left _ _ _ h => rw [hl.zero.mpr h]; rfl
    | right _ _ ha h => rw [hl.computes.unique ha, hr.zero.mpr h]; rfl
    | here _ ha hb => rw [hl.computes.unique ha, hr.computes.unique hb]; rfl
  · cases x with
    | error f =>
      rw [← hl.otherwise hne]
      rfl
    | ok a =>
      rw [← hl.otherwise nofun]
      cases y with
      | error f =>
        rw [← hr.otherwise hne]
        rfl
      | ok b =>
        rw [← hr.otherwise nofun]
        exact Value.foretold_binary fun h => hne (Value.binary_eq_divisionByZero_iff.mpr h)

end Foretold

/-- The kinds of the literals tell what an expression of literals and operators comes to, by induction from the literals upwards: evaluation
gives a value of the kind, or fails with the text, unless an integer is divided by zero before. -/
theorem eval_foretold {e : Expr} {p : Except String ValueKind} (h : e.kind? = some p) : ∃ r, e.Foretold p r := by
  fun_induction kind? e generalizing p with
  | case1 t n =>
    cases h
    exact ⟨_, .literal (computes_int t n) nofun⟩
  | case2 t x =>
    cases h
    exact ⟨_, .literal (v := .float x) (fun _ _ _ => rfl) nofun⟩
  | case3 t b =>
    cases h
    exact ⟨_, .literal (v := .bool b) (fun _ _ _ => rfl) nofun⟩
  | case4 t s =>
    cases h
    exact ⟨_, .literal (v := .string s) (fun _ _ _ => rfl) nofun⟩
  | case5 t op e ih =>
    obtain ⟨k, hk, hp⟩ := Option.bind_eq_some_iff.mp h
    cases hp
    obtain ⟨r, hr⟩ := ih hk
    exact ⟨_, hr.unary t op⟩
  | case6 t l op r ihl ihr =>
    obtain ⟨k, hk, h⟩ := Option.bind_eq_some_iff.mp h
    obtain ⟨k', hk', hp⟩ := Option.bind_eq_some_iff.mp h
    cases hp
    obtain ⟨x, hx⟩ := ihl hk
    obtain ⟨y, hy⟩ := ihr hk'
    exact ⟨_, hx.binary t op hy⟩
  | _ => cases h

/-- `("a" + "b") * (1 / 0)`, all at one place. -/
def joinedTimesQuotient : Expr :=
  .binary default (.binary default (.string default "a") "+" (.string default "b")) "*"
    (.binary default (.int default 1) "/" (.int default 0))

/-- The kinds tell of a mismatch, which comes after the division by zero on its right. -/
theorem eval_foretold_joinedTimesQuotient :
    joinedTimesQuotient.kind? = some (.error "type mismatch: STRING * INTEGER") ∧ joinedTimesQuotient.DividesByZero ∧
      ∃ r, joinedTimesQuotient.Foretold (.error "type mismatch: STRING * INTEGER") r := by
  have hkind : joinedTimesQuotient.kind? = some (.error "type mismatch: STRING * INTEGER") := rfl
  have hjoined : (binary default (.string default "a") "+" (.string default "b")).Computes (.ok (.string "ab")) := fun _ _ _ => rfl
  exact ⟨hkind, .right _ _ hjoined (.here _ (computes_int _ 1) (computes_int _ 0)), eval_foretold hkind⟩

end Expr

end Scriptlet
