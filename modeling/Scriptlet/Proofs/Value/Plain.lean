import Scriptlet.Operator

/-!
# Plain values

A value is plain if it is neither an error nor a returned value. Literals, `null` and functions are plain, and so is the value of
every operator, whatever its operands are: it is a number, a truth value or a string (`Value.IsData`).
-/

namespace Scriptlet

/-- Neither an error nor a returned value. -/
def Value.Plain (v : Value) : Prop := v.kind ≠ .error ∧ v.kind ≠ .returned

/-- A number, a truth value or a string. -/
def Value.IsData : Value → Prop
  | int _ | float _ | bool _ | string _ => True
  | _ => False

namespace Value

theorem plain_int (n : Int64) : (int n).Plain := ⟨nofun, nofun⟩

theorem plain_float (x : Float) : (float x).Plain := ⟨nofun, nofun⟩

theorem plain_bool (b : Bool) : (bool b).Plain := ⟨nofun, nofun⟩

theorem plain_string (s : String) : (string s).Plain := ⟨nofun, nofun⟩

theorem plain_null : null.Plain := ⟨nofun, nofun⟩

theorem plain_function (f : Closure) : (function f).Plain := ⟨nofun, nofun⟩

/-- A plain value is no error. -/
theorem Plain.isError {v : Value} (h : v.Plain) : v.isError = false := by
  cases v with
  | error m => exact absurd rfl h.1
  | int _ | float _ | bool _ | string _ | null | function _ | returned _ => rfl

theorem IsData.plain {v : Value} (h : v.IsData) : v.Plain := by
  cases v with
  | int n => exact plain_int n
  | float x => exact plain_float x
  | bool b => exact plain_bool b
  | string s => exact plain_string s
  | null | function _ | error _ | returned _ => cases h

/-! ## Operators -/

theorem isData_of_unary {op : String} {v u : Value} (h : unary op v = .ok u) : u.IsData := by
  unfold unary at h
  split at h <;> cases h <;> trivial

theorem isData_of_onIntegers? {op : BinaryOp} {l r : Int64} {v : Value} (h : op.onIntegers? l r = some v) : v.IsData := by
  cases op <;> simp only [BinaryOp.onIntegers?] at h
  case div =>
    split at h
    · cases h
    · cases h
      trivial
  all_goals cases h
  all_goals trivial

theorem isData_onFloats (op : BinaryOp) (l r : Float) : (op.onFloats l r).IsData := by
  cases op <;> trivial

theorem isData_of_onBooleans? {op : BinaryOp} {l r : Bool} {v : Value} (h : op.onBooleans? l r = some v) : v.IsData := by
  cases op <;> cases h <;> trivial

theorem isData_of_onStrings? {op : BinaryOp} {l r : String} {v : Value} (h : op.onStrings? l r = some v) : v.IsData := by
  cases op <;> cases h <;> trivial

/-- A value that an operator may have is data if every such value is. -/
theorem isData_of_orUnknown {op : String} {l r u : Value} {v? : Option Value} (h : orUnknown op l r v? = .ok u)
    (hv : ∀ v, v? = some v → v.IsData) : u.IsData := by
  cases v? with
  | none => cases h
  | some v =>
    cases h
    exact hv u rfl

theorem isData_of_binary {op : String} {l r u : Value} (h : binary op l r = .ok u) : u.IsData := by
  have floats : ∀ {x y : Float} (v : Value), (BinaryOp.ofText? op).map (BinaryOp.onFloats x y) = some v → v.IsData := by
    intro x y v hv
    obtain ⟨o, -, rfl⟩ := Option.map_eq_some_iff.mp hv
    exact isData_onFloats o x y
  unfold binary at h
  dsimp only at h
  split at h
  · split at h
    · split at h
      · next hv =>
        cases h
        exact isData_of_onIntegers? hv
      · cases h
    · cases h
  · exact isData_of_orUnknown h floats
  · exact isData_of_orUnknown h floats
  · exact isData_of_orUnknown h floats
  · refine isData_of_orUnknown h fun v hv => ?_
    obtain ⟨o, -, ho⟩ := Option.bind_eq_some_iff.mp hv
    exact isData_of_onBooleans? ho
  · refine isData_of_orUnknown h fun v hv => ?_
    obtain ⟨o, -, ho⟩ := Option.bind_eq_some_iff.mp hv
    exact isData_of_onStrings? ho
  · split at h
    · cases h
    · cases h

end Value

end Scriptlet
