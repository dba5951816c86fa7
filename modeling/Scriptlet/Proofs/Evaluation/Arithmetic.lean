import Scriptlet.Proofs.Evaluation.Constant

/-!
# Integer arithmetic

Integers are computed modulo 2^64 at each operator, and that is the same as computing with numbers of any size and bringing the last one
between -2^63 and 2^63 - 1 (`Int.bmod`): sums, differences, products and opposites of numbers correspond to those of integers. A quotient
goes toward zero, and is brought there as well; only the least integer divided by -1 is out of range (`Eval.arithmetic_exact`).
-/

namespace Scriptlet

namespace Expr

/-- The number that an expression of integer literals, sums, differences, products and opposites stands for. -/
def number? : Expr → Option Int
  | int _ n => some n.toInt
  | unary _ "-" e => return -(← e.number?)
  | binary _ l "+" r => return (← l.number?) + (← r.number?)
  | binary _ l "-" r => return (← l.number?) - (← r.number?)
  | binary _ l "*" r => return (← l.number?) * (← r.number?)
  | _ => none

theorem number_operands {l r : Expr} {f : Int → Int → Int} {n : Int} (h : (do return f (← l.number?) (← r.number?)) = some n) :
    ∃ a b, l.number? = some a ∧ r.number? = some b ∧ n = f a b := by
  obtain ⟨a, ha, h⟩ := Option.bind_eq_some_iff.mp h
  obtain ⟨b, hb, hn⟩ := Option.bind_eq_some_iff.mp h
  cases hn
  exact ⟨a, b, ha, hb, rfl⟩

/-- By induction from the literals upwards, since the integers of numbers are added, subtracted, multiplied and negated as the numbers are. -/
theorem computes_number {e : Expr} {n : Int} (h : e.number? = some n) : e.Computes (.ok (.int (Int64.ofInt n))) := by
  fun_induction number? e generalizing n with
  | case1 t n =>
    cases h
    rw [Int64.ofInt_toInt]
    exact computes_int t n
  | case2 t e ih =>
    obtain ⟨a, ha, hn⟩ := Option.bind_eq_some_iff.mp h
    cases hn
    rw [Int64.ofInt_neg]
    exact (ih ha).unary t "-"
  | case3 t l r ihl ihr =>
    obtain ⟨a, b, ha, hb, rfl⟩ := number_operands h
    rw [Int64.ofInt_add]
    exact (ihl ha).binary t "+" (ihr hb)
  | case4 t l r ihl ihr =>
    obtain ⟨a, b, ha, hb, rfl⟩ := number_operands h
    rw [Int64.ofInt_sub]
    exact (ihl ha).binary t "-" (ihr hb)
  | case5 t l r ihl ihr =>
    obtain ⟨a, b, ha, hb, rfl⟩ := number_operands h
    rw [Int64.ofInt_mul]
    exact (ihl ha).binary t "*" (ihr hb)
  | case6 => cases h

end Expr

namespace Eval

/-- The value of a quotient of two integers, wherever they come from. -/
theorem eval_quotient {apply : Closure → List Value → Eval Value} {scope : ScopeId} {l r : Expr} {a b : Int64} {w w₁ w₂ : World}
    (hb : b ≠ 0) (t : Token) (hl : l.eval apply scope w = some (.ok (.int a), w₁))
    (hr : r.eval apply scope w₁ = some (.ok (.int b), w₂)) :
    (Expr.binary t l "/" r).eval apply scope w = some (.ok (.int (a / b)), w₂) := by
  simp only [Expr.eval, bind_apply, hl, hr, Value.binary_div a hb]
  rfl

/-- Integer arithmetic is exact modulo 2^64: an expression of sums, differences, products and opposites has a value in every scope of every
world, the number it stands for brought into range once; and a quotient by another number than zero is the one that goes toward zero,
brought into range. -/
theorem arithmetic_exact :
    (∀ {e : Expr} {n : Int}, e.number? = some n → ∃ m : Int64, e.Computes (.ok (.int m)) ∧ m.toInt = n.bmod Int64.size) ∧
    (∀ a {b : Int64}, b ≠ 0 → ∃ q : Int64, q.toInt = (a.toInt.tdiv b.toInt).bmod Int64.size ∧
      ∀ {apply : Closure → List Value → Eval Value} {scope : ScopeId} {l r : Expr} {w w₁ w₂ : World} (t : Token),
        l.eval apply scope w = some (.ok (.int a), w₁) → r.eval apply scope w₁ = some (.ok (.int b), w₂) →
        (Expr.binary t l "/" r).eval apply scope w = some (.ok (.int q), w₂)) := by
  refine ⟨fun {e n} he => ⟨Int64.ofInt n, Expr.computes_number he, Int64.toInt_ofInt⟩, fun a b hb => ⟨a / b, Int64.toInt_div a b, ?_⟩⟩
  intro apply scope l r w w₁ w₂ t hl hr
  exact eval_quotient hb t hl hr

/-- One more than the greatest integer is the least one, and so is the least one divided by -1. -/
theorem arithmetic_exact_least :
    (Expr.binary default (.int default Int64.maxValue) "+" (.int default 1)).number? = some 9223372036854775808 ∧
      (Expr.binary default (.int default Int64.maxValue) "+" (.int default 1)).Computes (.ok (.int Int64.minValue)) ∧
      (-1 : Int64) ≠ 0 ∧
      (Expr.binary default (.int default Int64.minValue) "/" (.int default (-1))).Computes (.ok (.int Int64.minValue)) := by
  have hnumber : (Expr.binary default (.int default Int64.maxValue) "+" (.int default 1)).number? = some 9223372036854775808 := rfl
  obtain ⟨m, hm, hleast⟩ := arithmetic_exact.1 hnumber
  obtain rfl : m = Int64.minValue := Int64.toInt.inj (hleast.trans (by decide))
  have hne : (-1 : Int64) ≠ 0 := by decide
  obtain ⟨q, hleast, hq⟩ := arithmetic_exact.2 Int64.minValue hne
  obtain rfl : q = Int64.minValue := Int64.toInt.inj (hleast.trans (by decide))
  exact ⟨hnumber, hm, hne, fun _ _ _ => hq _ rfl rfl⟩

end Eval

end Scriptlet
