import Scriptlet.Value

/-!
# Equal floats

Two floats are equal if they are numbers and stand for the same one (`Value.float_beq_iff`): the two zeros do, and a float that is no number
is not equal to any. So equality of floats is a partial equivalence, and a float is equal to itself exactly if it is a number.
-/

namespace Scriptlet

namespace Value

section Unpacked

open Float.Model UnpackedFloat

/-- What a float stands for, if it is a number: the two zeros stand for the same one. -/
def number? : UnpackedFloat → Option UnpackedFloat
  | notANumber => none
  | zero _ => some (zero .positive)
  | a => some a

/-- Of two finite floats with one sign the exponents are compared first. -/
theorem compare_finite_eq_iff {s : Sign} {m n : Nat} {e f : Int} {hm : 0 < m} {hn : 0 < n} :
    (finite s m e hm).compare (finite s n f hn) = some .eq ↔ finite s m e hm = finite s n f hn := by
  have hsize : (compare e f).then (compare m n) = .eq ↔ finite s m e hm = finite s n f hn := by
    rw [Ordering.then_eq_eq, Int.compare_eq_eq, Nat.compare_eq_eq]
    constructor
    · rintro ⟨rfl, rfl⟩
      rfl
    · intro h
      cases h
      exact ⟨rfl, rfl⟩
  rw [← hsize]
  cases s with
  | positive => exact Option.some_inj
  | negative => exact Option.some_inj.trans Ordering.swap_eq_eq

theorem compare_unpacked_eq_iff (a b : UnpackedFloat) :
    a.compare b = some .eq ↔ (number? a).isSome ∧ number? a = number? b := by
  -- but for two finite floats with one sign, the constructors and the signs decide
  rcases a with (_ | _) | _ | _ | ⟨_ | _, _, _, _⟩ <;> rcases b with (_ | _) | _ | _ | ⟨_ | _, _, _, _⟩ <;>
    first
    | exact compare_finite_eq_iff.trans ⟨fun h => ⟨rfl, congrArg some h⟩, fun h => Option.some_inj.mp h.2⟩
    | exact iff_of_true rfl ⟨rfl, rfl⟩
    | exact iff_of_false nofun (by rintro ⟨⟨⟩, ⟨⟩⟩)

end Unpacked

theorem float_beq_iff {x y : Float} :
    (x == y) ↔ (number? x.toModel.unpack).isSome ∧ number? x.toModel.unpack = number? y.toModel.unpack := by
  rw [← compare_unpacked_eq_iff]
  exact beq_iff_eq (a := x.toModel.unpack.compare y.toModel.unpack)

instance : PartialEquivBEq Float where
  symm h := by
    rw [float_beq_iff] at h ⊢
    rw [← h.2]
    exact ⟨h.1, rfl⟩
  trans hxy hyz := by
    rw [float_beq_iff] at hxy hyz ⊢
    exact ⟨hxy.1, hxy.2.trans hyz.2⟩

theorem number?_isSome (a : Float.Model.UnpackedFloat) : (number? a).isSome = !a.isNaN := by
  cases a <;> rfl

/-- A float is equal to itself unless it is no number. -/
theorem float_beq_self (x : Float) : (x == x) = !x.isNaN := by
  rw [Bool.eq_iff_iff, float_beq_iff, number?_isSome]
  exact and_iff_left rfl

end Value

end Scriptlet
