import Scriptlet.Evaluation.Steps
import Scriptlet.Proofs.Value.Floats
import Scriptlet.Proofs.Value.Kinds

/-!
# Comparisons

The six comparisons agree with each other, whatever two values they stand between. Between integers, floats, truth values and strings, an
integer beside a float being made a float, `!=` says the opposite of `==`, and a comparison says the same as its mirror image
(`BinaryOp.mirror?`) between the same values in the other order (`BinaryOp.Tests`). Between any other values there is a fault, and its
class depends on the two kinds only (`Value.Meeting`). So the comparisons of any two values are coherent (`comparisons_coherent`).

The equality of floats is symmetric as well, although a float that is no number is not equal to itself.
-/

namespace Scriptlet

/-! ## Tests -/

namespace BinaryOp

/-- The comparison that says the same of two values in the other order. -/
def mirror? : BinaryOp → Option BinaryOp
  | lt => some gt
  | gt => some lt
  | le => some ge
  | ge => some le
  | eq => some eq
  | ne => some ne
  | add | sub | mul | div => none

/-- Two tests have the same truth value, or there are none. -/
def SameTest (v? u? : Option Value) : Prop := v? = none ∧ u? = none ∨ ∃ holds, v? = some (.bool holds) ∧ u? = some (.bool holds)

/-- What operators between two things have in common, `f` being their values in one order and `g` in the other. -/
structure Tests (f g : BinaryOp → Option Value) : Prop where
  mirror {o o' : BinaryOp} : o.mirror? = some o' → SameTest (f o) (g o')
  opposite : ∃ holds, f eq = some (.bool holds) ∧ f ne = some (.bool !holds)

theorem tests_integers (m n : Int64) : Tests (onIntegers? m n) (onIntegers? n m) := by
  refine ⟨fun {o o'} h => ?_, m == n, rfl, rfl⟩
  cases o <;> cases h
  case eq => exact .inr ⟨m == n, rfl, by rw [BEq.comm]; rfl⟩
  case ne => exact .inr ⟨m != n, rfl, by rw [bne_comm]; rfl⟩
  all_goals exact .inr ⟨_, rfl, rfl⟩

theorem tests_floats (x y : Float) : Tests (fun o => some (onFloats x y o)) fun o => some (onFloats y x o) := by
  refine ⟨fun {o o'} h => ?_, x == y, rfl, rfl⟩
  cases o <;> cases h
  case eq => exact .inr ⟨x == y, rfl, by rw [BEq.comm]; rfl⟩
  case ne => exact .inr ⟨!(x == y), rfl, by rw [BEq.comm]; rfl⟩
  all_goals exact .inr ⟨_, rfl, rfl⟩

/-- Truth values are not in any order. -/
theorem tests_booleans (p q : Bool) : Tests (onBooleans? p q) (onBooleans? q p) := by
  refine ⟨fun {o o'} h => ?_, p == q, rfl, rfl⟩
  cases o <;> cases h
  case eq => exact .inr ⟨p == q, rfl, by rw [BEq.comm]; rfl⟩
  case ne => exact .inr ⟨p != q, rfl, by rw [bne_comm]; rfl⟩
  all_goals exact .inl ⟨rfl, rfl⟩

/-- Strings are not in any order either. -/
theorem tests_strings (s t : String) : Tests (onStrings? s t) (onStrings? t s) := by
  refine ⟨fun {o o'} h => ?_, s == t, rfl, rfl⟩
  cases o <;> cases h
  case eq => exact .inr ⟨s == t, rfl, by rw [BEq.comm]; rfl⟩
  case ne => exact .inr ⟨s != t, rfl, by rw [bne_comm]; rfl⟩
  all_goals exact .inl ⟨rfl, rfl⟩

end BinaryOp

/-! ## How two values come together -/

namespace Value

/-- What a comparison finds between two values, in both orders. -/
inductive Meeting (a b : Value) : Prop where
  /-- They can be tested, both as they are or as floats. -/
  | tested {f g : BinaryOp → Option Value} : BinaryOp.Tests f g →
      (∀ o : BinaryOp, o.mirror?.isSome →
        binary o.text a b = orUnknown o.text a b (f o) ∧ binary o.text b a = orUnknown o.text b a (g o)) → Meeting a b
  /-- They are of one kind, and nothing can be asked of it. -/
  | unknown : (∀ op, binary op a b = .error (.unknownBinary a.kind op b.kind) ∧
      binary op b a = .error (.unknownBinary b.kind op a.kind)) → Meeting a b
  /-- They are of two kinds. -/
  | mismatch : (∀ op, binary op a b = .error (.mismatch a.kind op b.kind) ∧
      binary op b a = .error (.mismatch b.kind op a.kind)) → Meeting a b

theorem meeting (a b : Value) : Meeting a b := by
  cases a <;> cases b
  case int.int m n => exact .tested (BinaryOp.tests_integers m n) fun o ho => by cases o <;> first | exact ⟨rfl, rfl⟩ | cases ho
  case int.float m y => exact .tested (BinaryOp.tests_floats (nearestFloat m) y) fun o _ => by cases o <;> exact ⟨rfl, rfl⟩
  case float.int x n => exact .tested (BinaryOp.tests_floats x (nearestFloat n)) fun o _ => by cases o <;> exact ⟨rfl, rfl⟩
  case float.float x y => exact .tested (BinaryOp.tests_floats x y) fun o _ => by cases o <;> exact ⟨rfl, rfl⟩
  case bool.bool p q => exact .tested (BinaryOp.tests_booleans p q) fun o _ => by cases o <;> exact ⟨rfl, rfl⟩
  case string.string s t => exact .tested (BinaryOp.tests_strings s t) fun o _ => by cases o <;> exact ⟨rfl, rfl⟩
  all_goals first
    | exact .unknown fun _ => ⟨rfl, rfl⟩
    | exact .mismatch fun _ => ⟨rfl, rfl⟩

/-! ## What a comparison comes to -/

/-- What a comparison comes to: a truth value, or one of two classes of faults. -/
inductive Verdict where
  | answer (holds : Bool)
  | unknown
  | mismatch

namespace Verdict

/-- The opposite truth value; a fault stays. -/
def opposite : Verdict → Verdict
  | answer holds => answer !holds
  | v => v

/-- The result that a verdict is for an operator between two values: a fault names the operator and their kinds. -/
def result (a : Value) (op : String) (b : Value) : Verdict → Except Fault Value
  | answer holds => .ok (.bool holds)
  | unknown => .error (.unknownBinary a.kind op b.kind)
  | mismatch => .error (.mismatch a.kind op b.kind)

end Verdict

/-- A comparison comes to the same as another one, of the same values in the other order. -/
def Mirrored (a : Value) (op : String) (b : Value) (op' : String) : Prop :=
  ∃ v : Verdict, binary op a b = v.result a op b ∧ binary op' b a = v.result b op' a

/-- A comparison comes to the opposite of another one of the same values, or to a fault of the same class. -/
def Opposed (a : Value) (op : String) (b : Value) (op' : String) : Prop :=
  ∃ v : Verdict, binary op a b = v.result a op b ∧ binary op' a b = v.opposite.result a op' b

/-- A comparison comes to the same as its mirror image. -/
theorem mirrored {o o' : BinaryOp} (h : o.mirror? = some o') (a b : Value) : Mirrored a o.text b o'.text := by
  cases meeting a b with
  | @tested f g htests hbinary =>
    have ho : o.mirror?.isSome := h ▸ rfl
    have ho' : o'.mirror?.isSome := by cases o <;> cases h <;> rfl
    unfold Mirrored
    rw [(hbinary o ho).1, (hbinary o' ho').2]
    obtain ⟨hf, hg⟩ | ⟨holds, hf, hg⟩ := htests.mirror h
    · rw [hf, hg]
      exact ⟨.unknown, rfl, rfl⟩
    · rw [hf, hg]
      exact ⟨.answer holds, rfl, rfl⟩
  | unknown hbinary => exact ⟨.unknown, (hbinary _).1, (hbinary _).2⟩
  | mismatch hbinary => exact ⟨.mismatch, (hbinary _).1, (hbinary _).2⟩

theorem opposed (a b : Value) : Opposed a "==" b "!=" := by
  cases meeting a b with
  | @tested f g htests hbinary =>
    obtain ⟨holds, heq, hne⟩ := htests.opposite
    refine ⟨.answer holds, ?_, ?_⟩
    · rw [show "==" = BinaryOp.eq.text from rfl, (hbinary .eq rfl).1, heq]
      rfl
    · rw [show "!=" = BinaryOp.ne.text from rfl, (hbinary .ne rfl).1, hne]
      rfl
  | unknown hbinary => exact ⟨.unknown, (hbinary _).1, (hbinary _).1⟩
  | mismatch hbinary => exact ⟨.mismatch, (hbinary _).1, (hbinary _).1⟩

/-- What comparisons of two values have to do with each other. -/
structure Coherent (a b : Value) : Prop where
  opposite : Opposed a "==" b "!="
  equal : Mirrored a "==" b "=="
  less : Mirrored a "<" b ">"
  lessOrEqual : Mirrored a "<=" b ">="
  /-- Two integers are in exactly one of three orders, that of their numbers. -/
  integers (m n : Int64) : a = .int m → b = .int n → ∃ lt eq gt : Bool, [lt, eq, gt].count true = 1 ∧
    (lt ↔ m.toInt < n.toInt) ∧ (eq ↔ m.toInt = n.toInt) ∧ (gt ↔ n.toInt < m.toInt) ∧
    binary "<" a b = .ok (.bool lt) ∧ binary "==" a b = .ok (.bool eq) ∧ binary ">" a b = .ok (.bool gt) ∧
    binary "<=" a b = .ok (.bool (lt || eq))
  /-- This is what the operators come to in an expression, once both operands have their values. -/
  evaluated {apply : Closure → List Value → Eval Value} {scope : ScopeId} {l r : Expr} {w w₁ w₂ : World} (t : Token) (op : String) :
    l.eval apply scope w = some (.ok a, w₁) → r.eval apply scope w₁ = some (.ok b, w₂) →
    (Expr.binary t l op r).eval apply scope w = Eval.settle (binary op a b) w₂

/-- The three orders of integers exclude each other, and there is no fourth one. -/
theorem integers_ordered (m n : Int64) : ∃ lt eq gt : Bool, [lt, eq, gt].count true = 1 ∧
    (lt ↔ m.toInt < n.toInt) ∧ (eq ↔ m.toInt = n.toInt) ∧ (gt ↔ n.toInt < m.toInt) ∧
    binary "<" (.int m) (.int n) = .ok (.bool lt) ∧ binary "==" (.int m) (.int n) = .ok (.bool eq) ∧
    binary ">" (.int m) (.int n) = .ok (.bool gt) ∧ binary "<=" (.int m) (.int n) = .ok (.bool (lt || eq)) := by
  have hlt : decide (m < n) ↔ m.toInt < n.toInt := decide_eq_true_iff.trans Int64.lt_iff_toInt_lt
  have heq : (m == n) ↔ m.toInt = n.toInt := beq_iff_eq.trans Int64.toInt_inj.symm
  have hgt : decide (n < m) ↔ n.toInt < m.toInt := decide_eq_true_iff.trans Int64.lt_iff_toInt_lt
  have hle : decide (m ≤ n) = (decide (m < n) || m == n) := by
    rw [Bool.eq_iff_iff, Bool.or_eq_true, hlt, heq, decide_eq_true_iff, Int64.le_iff_toInt_le]
    omega
  refine ⟨decide (m < n), m == n, decide (n < m), ?_, hlt, heq, hgt, rfl, rfl, rfl, hle ▸ rfl⟩
  obtain h | h | h := Int.lt_trichotomy m.toInt n.toInt
  · have hne : (m == n) = false := Bool.eq_false_iff.mpr fun e => Int.ne_of_lt h (heq.mp e)
    have hnot : decide (n < m) = false := Bool.eq_false_iff.mpr fun e => Int.lt_asymm h (hgt.mp e)
    rw [hlt.mpr h, hne, hnot]
    rfl
  · have hnot : decide (m < n) = false := Bool.eq_false_iff.mpr fun e => Int.ne_of_lt (hlt.mp e) h
    have hnot' : decide (n < m) = false := Bool.eq_false_iff.mpr fun e => Int.ne_of_gt (hgt.mp e) h
    rw [hnot, heq.mpr h, hnot']
    rfl
  · have hnot : decide (m < n) = false := Bool.eq_false_iff.mpr fun e => Int.lt_asymm h (hlt.mp e)
    have hne : (m == n) = false := Bool.eq_false_iff.mpr fun e => Int.ne_of_gt h (heq.mp e)
    rw [hnot, hne, hgt.mpr h]
    rfl

end Value

/-- The value of an operator between two operands that have one. -/
theorem Eval.eval_binary {apply : Closure → List Value → Eval Value} {scope : ScopeId} {l r : Expr} {a b : Value} {w w₁ w₂ : World}
    (t : Token) (op : String) (hl : l.eval apply scope w = some (.ok a, w₁)) (hr : r.eval apply scope w₁ = some (.ok b, w₂)) :
    (Expr.binary t l op r).eval apply scope w = Eval.settle (Value.binary op a b) w₂ := by
  simp only [Expr.eval, Eval.bind_apply, hl, hr]

/-- The comparisons of any two values are coherent: `!=` is the opposite of `==`, and a comparison its mirror image between the same values
in the other order, where a fault is one for the same kinds; and two integers are less, equal or greater, as their numbers are. -/
theorem comparisons_coherent (a b : Value) : Value.Coherent a b where
  opposite := Value.opposed a b
  equal := Value.mirrored (o := .eq) rfl a b
  less := Value.mirrored (o := .lt) rfl a b
  lessOrEqual := Value.mirrored (o := .le) rfl a b
  integers m n ha hb := by
    subst ha hb
    exact Value.integers_ordered m n
  evaluated t op := Eval.eval_binary t op

end Scriptlet
