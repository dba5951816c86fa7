import Scriptlet.Value

/-!
# Scopes

A store holds scopes under numbers. A scope binds names to values and knows the scopes it is enclosed by, the innermost first; a
name is looked up in the scope itself and then in those (`Store.get?`), and bound in the scope alone (`Store.set`). Scopes are
shared: whoever knows the number of a scope sees what is bound there later.

The scopes around a scope are fixed when it is made. A copy of a scope has its own bindings, equal to those of the other at that
moment, and the same scopes around it. No scope is ever removed.
-/

namespace Scriptlet

/-- Names with their values, and the scopes around. -/
structure Scope where
  /-- The bindings; no name is bound twice. -/
  bindings : List (String × Value)
  /-- The numbers of the scopes around, the innermost first. -/
  enclosing : List ScopeId

namespace Scope

/-- A scope without bindings. -/
def empty (enclosing : List ScopeId) : Scope := ⟨[], enclosing⟩

/-- The value bound to a name in the scope itself. -/
def get? (s : Scope) (name : String) : Option Value := s.bindings.lookup name

/-- Binds a name to a value, in place of the value bound to it before. -/
def set (s : Scope) (name : String) (v : Value) : Scope :=
  { s with bindings := (name, v) :: s.bindings.filter fun b => b.1 != name }

@[simp] theorem enclosing_set (s : Scope) (name : String) (v : Value) : (s.set name v).enclosing = s.enclosing := rfl

/-- Looking for a name among bindings of other names. -/
theorem lookup_filter_ne {bs : List (String × Value)} {name other : String} (h : other ≠ name) :
    (bs.filter fun b => b.1 != name).lookup other = bs.lookup other := by
  induction bs with
  | nil => rfl
  | cons b bs ih =>
    obtain ⟨k, v⟩ := b
    by_cases hk : k = name
    · have ho : (other == k) = false := by simp [hk, h]
      simp only [List.filter_cons, hk, bne_self_eq_false, Bool.false_eq_true, if_false, ih]
      simp only [List.lookup_cons, ← hk, ho]
    · simp only [List.filter_cons, bne_iff_ne, ne_eq, hk, not_false_eq_true, if_true, List.lookup_cons, ih]

/-- A name has the value it was bound to last, and the others keep theirs. -/
theorem get?_set (s : Scope) (name : String) (v : Value) (other : String) :
    (s.set name v).get? other = if other = name then some v else s.get? other := by
  by_cases h : other = name
  · subst h; simp [get?, set]
  · have hb : (other == name) = false := by simp [h]
    simp only [get?, set, List.lookup_cons, hb, h, ite_false, lookup_filter_ne h]

end Scope

/-- The scopes there are, and the number of functions made so far. -/
structure Store where
  scopes : Array Scope
  functions : Nat

namespace Store

/-- No scope, no function. -/
def empty : Store := ⟨#[], 0⟩

/-- The scope with a number; a number that was not given out has an empty one. -/
def scope (s : Store) (id : ScopeId) : Scope := s.scopes[id]?.getD (Scope.empty [])

/-- A scope and the scopes around it, the innermost first. -/
def chain (s : Store) (id : ScopeId) : List ScopeId := id :: (s.scope id).enclosing

/-- The value of a name in the nearest scope that binds it. -/
def get? (s : Store) (id : ScopeId) (name : String) : Option Value :=
  (s.chain id).findSome? fun i => (s.scope i).get? name

/-- Binds a name in a scope. -/
def set (s : Store) (id : ScopeId) (name : String) (v : Value) : Store :=
  { s with scopes := s.scopes.modify id fun c => c.set name v }

/-- The store with one scope more, and its number. -/
def add (s : Store) (c : Scope) : ScopeId × Store := (s.scopes.size, { s with scopes := s.scopes.push c })

/-- A new scope with nothing around it. -/
def addRoot (s : Store) : ScopeId × Store := s.add (Scope.empty [])

/-- A new scope inside another one. -/
def addInside (s : Store) (outer : ScopeId) : ScopeId × Store := s.add (Scope.empty (s.chain outer))

/-- A copy of a scope: bindings of its own, and the same scopes around it. -/
def addCopy (s : Store) (id : ScopeId) : ScopeId × Store := s.add (s.scope id)

/-- A new function that is made in a scope. -/
def addFunction (s : Store) (parameters : List Identifier) (body : Block) (scope : ScopeId) : Closure × Store :=
  (⟨s.functions, parameters, body, scope⟩, { s with functions := s.functions + 1 })

/-- A binding changes the scope it is made in, and no other one. -/
theorem scope_set (s : Store) (id : ScopeId) (name : String) (v : Value) (i : ScopeId) :
    (s.set id name v).scope i = if i = id ∧ i < s.scopes.size then (s.scope i).set name v else s.scope i := by
  unfold scope set
  by_cases hi : i < s.scopes.size
  · by_cases h : id = i
    · subst h
      simp [hi, Array.getElem_modify]
    · have h' : i ≠ id := fun e => h e.symm
      simp [Array.getElem?_modify, h, h']
  · simp [hi]

@[simp] theorem size_set (s : Store) (id : ScopeId) (name : String) (v : Value) :
    (s.set id name v).scopes.size = s.scopes.size :=
  Array.size_modify

/-- A new scope leaves the others as they are. -/
theorem scope_add (s : Store) (c : Scope) (i : ScopeId) :
    (s.add c).2.scope i = if i = s.scopes.size then c else s.scope i := by
  unfold scope add
  simp only [Array.getElem?_push]
  split
  · rfl
  · rfl

@[simp] theorem size_add (s : Store) (c : Scope) : (s.add c).2.scopes.size = s.scopes.size + 1 := Array.size_push c

end Store

end Scriptlet
