import Scriptlet.Operator

/-!
# What kinds say of operators

The kinds of the operands alone say what an operator comes to: the kind of its value, or the text of its fault. The ten operators between
operands are all there for two numbers, where a comparison has a truth value and a computation an integer only if both operands are
integers; two truth values can be tested for equality, and two strings joined as well. Whatever else stands between two operands is
unknown if their kinds are equal or both are numbers, and a mismatch otherwise.

The value of an operator is of that kind, and its fault has that text (`Value.foretold_unary`, `Value.foretold_binary`). The one fault that
no kind can tell is the division of an integer by zero.
-/

namespace Scriptlet

/-- The operators that compare two operands. -/
def comparisons : List String := ["<", ">", "<=", ">=", "==", "!="]

/-- The operators that compute a number. -/
def computations : List String := ["+", "-", "*", "/"]

/-- The operators that test for equality. -/
def equalities : List String := ["==", "!="]

theorem equalities_subset : equalities ⊆ comparisons := (List.suffix_append ["<", ">", "<=", ">="] _).subset

namespace ValueKind

/-- The kinds of numbers. -/
def isNumber : ValueKind → Bool
  | integer | float => true
  | boolean | null | string | error | function | returned => false

/-- What an operator comes to before an operand of a kind. -/
def unary (op : String) (k : ValueKind) : Except String ValueKind :=
  if op = "!" then .ok .boolean
  else if op = "-" ∧ k.isNumber then .ok k
  else .error ("unknown operator: " ++ op ++ k.name)

/-- The text that there is no operator between operands of two kinds, which are equal or both numbers. -/
def unknown (l : ValueKind) (op : String) (r : ValueKind) : String := "unknown operator: " ++ l.name ++ " " ++ op ++ " " ++ r.name

/-- What an operator comes to between operands of two kinds. -/
def binary (l : ValueKind) (op : String) (r : ValueKind) : Except String ValueKind :=
  if l.isNumber ∧ r.isNumber then
    if op ∈ comparisons then .ok .boolean
    else if op ∈ computations then .ok (if l = .integer ∧ r = .integer then .integer else .float)
    else .error (unknown l op r)
  else if l = .boolean ∧ r = .boolean ∧ op ∈ equalities then .ok .boolean
  else if l = .string ∧ r = .string ∧ op = "+" then .ok .string
  else if l = .string ∧ r = .string ∧ op ∈ equalities then .ok .boolean
  else if l = r then .error (unknown l op r)
  else .error ("type mismatch: " ++ l.name ++ " " ++ op ++ " " ++ r.name)

end ValueKind

/-! ## The text of an operator -/

namespace BinaryOp

/-- The text of an operator. -/
def text : BinaryOp → String
  | add => "+"
  | sub => "-"
  | mul => "*"
  | div => "/"
  | lt => "<"
  | gt => ">"
  | le => "<="
  | ge => ">="
  | eq => "=="
  | ne => "!="

theorem ofText?_text (o : BinaryOp) : ofText? o.text = some o := by cases o <;> rfl

theorem eq_text_of_ofText? {op : String} {o : BinaryOp} (h : ofText? op = some o) : op = o.text := by
  unfold ofText? at h
  split at h <;> cases h <;> rfl

/-- A text that is no operator's is neither a comparison nor a computation. -/
theorem notMem_of_ofText? {op : String} (h : ofText? op = none) : op ∉ comparisons ∧ op ∉ computations := by
  have hne : ∀ o : BinaryOp, op ≠ o.text := by
    rintro o rfl
    rw [ofText?_text] at h
    cases h
  simp only [comparisons, computations, List.mem_cons, List.not_mem_nil, or_false, not_or]
  exact ⟨⟨hne lt, hne gt, hne le, hne ge, hne eq, hne ne⟩, hne add, hne sub, hne mul, hne div⟩

/-- Of the operators between integers, only the division by zero has no value. -/
theorem eq_div_of_onIntegers? {o : BinaryOp} {l r : Int64} (h : o.onIntegers? l r = none) : o = div ∧ r = 0 := by
  cases o
  case div =>
    by_cases hr : r = 0
    · exact ⟨rfl, hr⟩
    · exact absurd ((if_neg hr).symm.trans h) (Option.some_ne_none _)
  all_goals cases h

end BinaryOp

/-! ## Operators between values -/

namespace Value

/-- What has come of some code, as far as kinds can tell: the kind of the value, or the text of the fault. -/
def foretold (r : Except Fault Value) : Except String ValueKind := (r.map kind).mapError Fault.message

/-- An integer is divided by zero. -/
def DividesByZero (l : Value) (op : String) (r : Value) : Prop := op = "/" ∧ l.kind = .integer ∧ r = .int 0

theorem foretold_unary (op : String) (v : Value) : foretold (unary op v) = v.kind.unary op := by
  by_cases hnot : op = "!"
  · subst hnot
    rfl
  by_cases hneg : op = "-"
  · subst hneg
    cases v <;> rfl
  have hnone : UnaryOp.ofText? op = none := by
    unfold UnaryOp.ofText?
    split
    · exact absurd rfl hnot
    · exact absurd rfl hneg
    · rfl
  unfold unary ValueKind.unary
  rw [hnone, if_neg hnot, if_neg fun h => hneg h.1]
  rfl

theorem binary_of_dividesByZero {l r : Value} {op : String} (h : DividesByZero l op r) : binary op l r = .error .divisionByZero := by
  obtain ⟨rfl, hl, rfl⟩ := h
  cases l <;> first | rfl | cases hl

theorem unary_ne_divisionByZero (op : String) (v : Value) : unary op v ≠ .error .divisionByZero := by
  unfold unary
  split <;> exact nofun

theorem orUnknown_ne_divisionByZero (op : String) (l r : Value) (v? : Option Value) : orUnknown op l r v? ≠ .error .divisionByZero := by
  cases v? <;> exact nofun

/-- An operator fails for a division by zero only where an integer is divided by zero. -/
theorem binary_eq_divisionByZero_iff {l r : Value} {op : String} : binary op l r = .error .divisionByZero ↔ DividesByZero l op r := by
  refine ⟨fun h => ?_, binary_of_dividesByZero⟩
  simp only [binary] at h
  split at h
  case h_1 a b =>
    split at h
    · next o ho =>
      split at h
      · cases h
      · next hnone =>
        obtain ⟨rfl, rfl⟩ := BinaryOp.eq_div_of_onIntegers? hnone
        exact ⟨BinaryOp.eq_text_of_ofText? ho, rfl, rfl⟩
    · cases h
  case h_7 =>
    split at h <;> cases h
  all_goals exact (orUnknown_ne_divisionByZero _ _ _ _ h).elim

theorem binary_div (a : Int64) {b : Int64} (hb : b ≠ 0) : binary "/" (.int a) (.int b) = .ok (.int (a / b)) := by
  simp [binary, BinaryOp.ofText?, BinaryOp.onIntegers?, hb]

/-- Two integers, but for a division by zero. -/
theorem foretold_integers {a b : Int64} {o : BinaryOp} (h : ¬DividesByZero (.int a) o.text (.int b)) :
    foretold (binary o.text (.int a) (.int b)) = ValueKind.integer.binary o.text .integer := by
  by_cases ho : o = .div
  · subst ho
    have hb : b ≠ 0 := by
      rintro rfl
      exact h ⟨rfl, rfl, rfl⟩
    show foretold (binary "/" (.int a) (.int b)) = _
    rw [binary_div a hb]
    rfl
  · cases o <;> first | rfl | exact absurd rfl ho

/-- Two operands that are not both integers. -/
theorem foretold_mixed (o : BinaryOp) {l r : Value} (h : ¬(l.kind = .integer ∧ r.kind = .integer)) :
    foretold (binary o.text l r) = l.kind.binary o.text r.kind := by
  cases l <;> cases r
  case int.int => exact absurd ⟨rfl, rfl⟩ h
  all_goals cases o <;> rfl

/-- With a text that is no operator's, it depends on the kinds only which of two faults there is. -/
theorem binary_of_unknown {op : String} (h : BinaryOp.ofText? op = none) (l r : Value) :
    binary op l r = .error (if l.kind = r.kind ∨ l.kind.isNumber ∧ r.kind.isNumber then .unknownBinary l.kind op r.kind
      else .mismatch l.kind op r.kind) := by
  unfold binary
  rw [h]
  cases l <;> cases r <;> rfl

/-- A text that is no operator's. -/
theorem foretold_unknown {op : String} (h : BinaryOp.ofText? op = none) (l r : Value) :
    foretold (binary op l r) = l.kind.binary op r.kind := by
  obtain ⟨hc, hm⟩ := BinaryOp.notMem_of_ofText? h
  have he : op ∉ equalities := fun he => hc (equalities_subset he)
  have hp : op ≠ "+" := by
    rintro rfl
    exact hm (.head _)
  rw [binary_of_unknown h]
  unfold ValueKind.binary
  simp only [hc, hm, he, hp, and_false, if_false]
  by_cases hn : l.kind.isNumber ∧ r.kind.isNumber
  · rw [if_pos (Or.inr hn), if_pos hn]
    rfl
  · rw [if_neg hn]
    by_cases hk : l.kind = r.kind
    · rw [if_pos (Or.inl hk), if_pos hk]
      rfl
    · rw [if_neg (not_or.mpr ⟨hk, hn⟩), if_neg hk]
      rfl

/-- The kinds of two operands say what an operator comes to between them, if it does not divide an integer by zero. -/
theorem foretold_binary {l r : Value} {op : String} (h : ¬DividesByZero l op r) :
    foretold (binary op l r) = l.kind.binary op r.kind := by
  cases ho : BinaryOp.ofText? op with
  | none => exact foretold_unknown ho l r
  | some o =>
    obtain rfl := BinaryOp.eq_text_of_ofText? ho
    by_cases hi : l.kind = .integer ∧ r.kind = .integer
    · obtain ⟨a, rfl⟩ : ∃ a, l = .int a := by
        cases l <;> first | exact ⟨_, rfl⟩ | cases hi.1
      obtain ⟨b, rfl⟩ : ∃ b, r = .int b := by
        cases r <;> first | exact ⟨_, rfl⟩ | cases hi.2
      exact foretold_integers h
    · exact foretold_mixed o hi

end Value

end Scriptlet
