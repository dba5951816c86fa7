import Scriptlet.Token

/-!
# Precedence

How strongly an operator binds its operands. The levels, from the weakest: nothing, `==` and `!=`, the four orders, `+` and `-`,
`*` and `/`, the operators before an operand, and the call.
-/

namespace Scriptlet

/-- The levels of binding, from the weakest. -/
inductive Precedence where
  | lowest | equality | order | sum | product | unary | call
  deriving DecidableEq

namespace Precedence

/-- The number of weaker levels. -/
def rank : Precedence → Nat
  | lowest => 0
  | equality => 1
  | order => 2
  | sum => 3
  | product => 4
  | unary => 5
  | call => 6

instance : LT Precedence := ⟨fun p q => p.rank < q.rank⟩

instance (p q : Precedence) : Decidable (p < q) := inferInstanceAs (Decidable (p.rank < q.rank))

instance : LE Precedence := ⟨fun p q => p.rank ≤ q.rank⟩

instance (p q : Precedence) : Decidable (p ≤ q) := inferInstanceAs (Decidable (p.rank ≤ q.rank))

/-- The weaker level is the one with the smaller rank. -/
theorem lt_iff {p q : Precedence} : p < q ↔ p.rank < q.rank := Iff.rfl

@[simp] theorem not_lt {p q : Precedence} : ¬p < q ↔ q ≤ p := Nat.not_lt

theorem le_refl (p : Precedence) : p ≤ p := Nat.le_refl p.rank

theorem le_trans {p q s : Precedence} (h : p ≤ q) (h' : q ≤ s) : p ≤ s := Nat.le_trans h h'

theorem le_of_lt {p q : Precedence} (h : p < q) : p ≤ q := Nat.le_of_lt h

theorem rank_inj {p q : Precedence} (h : p.rank = q.rank) : p = q := by
  revert h
  cases p <;> cases q <;> decide

theorem eq_or_lt_of_le {p q : Precedence} (h : p ≤ q) : p = q ∨ p < q :=
  (Nat.eq_or_lt_of_le h).imp_left rank_inj

theorem lowest_le (p : Precedence) : lowest ≤ p := Nat.zero_le p.rank

theorem le_call (p : Precedence) : p ≤ call := by cases p <;> decide

end Precedence

/-- How strongly a token binds the operand before it: a token that is no operator does not bind it. -/
def Kind.precedence : Kind → Precedence
  | .eq | .ne => .equality
  | .lt | .gt | .le | .ge => .order
  | .plus | .minus => .sum
  | .star | .slash => .product
  | .lparen => .call
  | _ => .lowest

end Scriptlet
