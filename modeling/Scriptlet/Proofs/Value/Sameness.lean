import Mathlib.Logic.Function.Iterate
import Scriptlet.Proofs.Value.Floats

/-!
# Sameness of values

Sameness of values (`==`) is symmetric and transitive, and nearly reflexive. It looks through returned values: below all layers of them is
the core of a value (`Value.layers`, `Value.core`), and two values are the same if they have as many layers and their cores are the same
(`Value.beq_iff_core`). A value is the same as itself unless its core is a float that is no number (`Value.beq_self`). Floats are where this
comes from: as numbers, they are only partially equivalent themselves.
-/

namespace Scriptlet

namespace Value

/-- Two values are the same. -/
inductive Same : Value → Value → Prop where
  | int (n : Int64) : Same (.int n) (.int n)
  | float {x y : Float} : x == y → Same (.float x) (.float y)
  | bool (b : Bool) : Same (.bool b) (.bool b)
  | string (s : String) : Same (.string s) (.string s)
  | null : Same .null .null
  | function {f g : Closure} : f.id = g.id → Same (.function f) (.function g)
  | error (m : String) : Same (.error m) (.error m)
  | returned {a b : Value} : Same a b → Same (.returned a) (.returned b)

theorem Same.of_beq {a b : Value} (h : a.same b) : a.Same b := by
  fun_induction Value.same a b with
  | case1 m n =>
    rw [eq_of_beq h]
    exact .int n
  | case2 x y => exact .float h
  | case3 p q =>
    rw [eq_of_beq h]
    exact .bool q
  | case4 s t =>
    rw [eq_of_beq h]
    exact .string t
  | case5 => exact .null
  | case6 f g => exact .function (eq_of_beq h)
  | case7 m n =>
    rw [eq_of_beq h]
    exact .error n
  | case8 a b ih => exact .returned (ih h)
  | case9 => cases h

theorem Same.beq {a b : Value} (h : a.Same b) : a.same b := by
  induction h with
  | int n => exact beq_self_eq_true n
  | float h => exact h
  | bool b => exact beq_self_eq_true b
  | string s => exact beq_self_eq_true s
  | null => rfl
  | function h => exact beq_iff_eq.mpr h
  | error m => exact beq_self_eq_true m
  | returned _ ih => exact ih

theorem beq_iff_same {a b : Value} : (a == b) ↔ a.Same b := ⟨Same.of_beq, Same.beq⟩

theorem Same.symm {a b : Value} (h : a.Same b) : b.Same a := by
  induction h with
  | int n => exact .int n
  | float h => exact .float (BEq.symm h)
  | bool b => exact .bool b
  | string s => exact .string s
  | null => exact .null
  | function h => exact .function h.symm
  | error m => exact .error m
  | returned _ ih => exact .returned ih

theorem Same.trans {a b c : Value} (hab : a.Same b) (hbc : b.Same c) : a.Same c := by
  induction hab generalizing c with
  | int | bool | string | null | error => exact hbc
  | float hxy =>
    cases hbc with
    | float hyz => exact .float (BEq.trans hxy hyz)
  | function hfg =>
    cases hbc with
    | function hgh => exact .function (hfg.trans hgh)
  | returned _ ih =>
    cases hbc with
    | returned hbc => exact .returned (ih hbc)

instance : PartialEquivBEq Value where
  symm h := beq_iff_same.mpr (beq_iff_same.mp h).symm
  trans hab hbc := beq_iff_same.mpr ((beq_iff_same.mp hab).trans (beq_iff_same.mp hbc))

/-! ## Layers -/

/-- How many times a value is a returned one. -/
def layers : Value → Nat
  | returned v => v.layers + 1
  | int _ | float _ | bool _ | string _ | null | function _ | error _ => 0

/-- What lies below all layers of returned values. -/
def core : Value → Value
  | returned v => v.core
  | v => v

theorem returned_layers_core (v : Value) : returned^[v.layers] v.core = v := by
  induction v with
  | returned v ih =>
    rw [layers, core, Function.iterate_succ_apply', ih]
  | int _ | float _ | bool _ | string _ | null | function _ | error _ => rfl

theorem kind_core_ne_returned (v : Value) : v.core.kind ≠ .returned := by
  induction v with
  | returned v ih => exact ih
  | int _ | float _ | bool _ | string _ | null | function _ | error _ => exact nofun

theorem Same.kind {a b : Value} (h : a.Same b) : a.kind = b.kind := by
  cases h <;> rfl

theorem Same.layers {a b : Value} (h : a.Same b) : a.layers = b.layers := by
  induction h with
  | returned _ ih => exact congrArg (· + 1) ih
  | int _ | float _ | bool _ | string _ | null | function _ | error _ => rfl

theorem Same.core {a b : Value} (h : a.Same b) : a.core.Same b.core := by
  induction h with
  | returned _ ih => exact ih
  | int n => exact .int n
  | float h => exact .float h
  | bool b => exact .bool b
  | string s => exact .string s
  | null => exact .null
  | function h => exact .function h
  | error m => exact .error m

theorem Same.iterate {a b : Value} (h : a.Same b) (n : Nat) : (Value.returned^[n] a).Same (Value.returned^[n] b) := by
  induction n with
  | zero => exact h
  | succ n ih =>
    rw [Function.iterate_succ_apply', Function.iterate_succ_apply']
    exact .returned ih

/-- Two values are the same if they have as many layers and their cores are the same. -/
theorem beq_iff_core {a b : Value} : (a == b) ↔ a.layers = b.layers ∧ a.core == b.core := by
  rw [beq_iff_same, beq_iff_same]
  refine ⟨fun h => ⟨h.layers, h.core⟩, fun ⟨hlayers, hcore⟩ => ?_⟩
  rw [← returned_layers_core a, ← returned_layers_core b, hlayers]
  exact hcore.iterate b.layers

/-- A float that is no number. -/
def isNaN : Value → Bool
  | float x => x.isNaN
  | int _ | bool _ | string _ | null | function _ | error _ | returned _ => false

/-- A value is the same as itself unless its core is no number. -/
theorem beq_self (v : Value) : (v == v) = !v.core.isNaN := by
  induction v with
  | returned v ih => exact ih
  | float x => exact float_beq_self x
  | int n => exact beq_self_eq_true n
  | bool b => exact beq_self_eq_true b
  | string s => exact beq_self_eq_true s
  | null => rfl
  | function f => exact beq_self_eq_true f.id
  | error m => exact beq_self_eq_true m

end Value

end Scriptlet
