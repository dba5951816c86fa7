import Scriptlet.Proofs.Evaluation.Frame
import Scriptlet.Proofs.Evaluation.Locality

/-!
# Names that are not mentioned

A name that stands nowhere in a program, nor in a function that can be got at from the scope where the program is evaluated, has no part
in the evaluation: whatever it is bound to, in one store and in another one that is the same otherwise (`Store.SameBut`), what comes of
the evaluation is the same, and so are the bindings of all other names afterwards (`Eval.eval_unmentioned`).

Both evaluations go on side by side. The scopes that can be got at, and those made on the way, correspond to themselves there, and so do
all functions; a scope that cannot be got at is left as it is on either side.
-/

namespace Scriptlet

/-- Two stores that are the same but for what one name is bound to. -/
structure Store.SameBut (name : String) (s s' : Store) : Prop where
  size : s'.scopes.size = s.scopes.size
  functions : s'.functions = s.functions
  enclosing (i : ScopeId) : (s'.scope i).enclosing = (s.scope i).enclosing
  bindings (i : ScopeId) {other : String} : other ≠ name → (s'.scope i).get? other = (s.scope i).get? other

/-- The nodes of a function: the names of its parameters, and the nodes of its body. -/
def Closure.nodes (f : Closure) : List Node := f.parameters.map .name ++ f.body.nodes

/-- The code on both sides is the same, and so are the values of all names but one. -/
def Likeness.but (name : String) : Likeness := ⟨fun other => other ≠ name, fun tok => tok = id⟩

/-- A name stands nowhere in some code: no variable, no parameter and nothing that is bound has it. -/
def Unmentioned (name : String) (ns : List Node) : Prop := ∀ id, .name id ∈ ns → id.name ≠ name

/-- A name stands nowhere in the functions that can be got at from a scope. -/
def Store.Omits (s : Store) (scope : ScopeId) (name : String) : Prop :=
  ∀ {i : ScopeId} {other : String} {v : Value} {f : Closure}, s.Reaches scope i → (s.scope i).get? other = some v → v.Carries f →
    Unmentioned name f.nodes

/-- The scopes that can be got at from a scope correspond to themselves, and so do those that are made from now on and all functions. -/
def Renaming.reached (s : Store) (scope : ScopeId) : Renaming where
  scopes i j := i = j ∧ (s.Reaches scope i ∨ s.scopes.size ≤ i)
  functions := Eq
  oneToOne := ⟨fun _ _ _ ha hb => ha.1.trans hb.1.symm, fun _ _ _ ha hb => ha.1.symm.trans hb.1⟩

/-- The name that a node is, if it is one. -/
def Node.name? : Node → Option String
  | name id => some id.name
  | expr _ | stmt _ | block _ => none

theorem unmentioned_iff {name : String} {ns : List Node} : Unmentioned name ns ↔ ∀ n ∈ ns, n.name? ≠ some name := by
  refine ⟨fun h n hn heq => ?_, fun h id hid heq => h (.name id) hid (congrArg some heq)⟩
  cases n with
  | name id => exact h id hn (Option.some_inj.mp heq)
  | expr _ | stmt _ | block _ => cases heq

instance (name : String) (ns : List Node) : Decidable (Unmentioned name ns) := decidable_of_iff _ unmentioned_iff.symm

variable {K : Likeness} {R : Renaming} {name : String} {scope : ScopeId} {s s' : Store}

/-! ## Stores that are the same but for a name -/

namespace Store.SameBut

/-- A binding of the name is a difference of this kind. -/
theorem set (s : Store) (i : ScopeId) (name : String) (v : Value) : s.SameBut name (s.set i name v) := by
  refine ⟨size_set s i name v, rfl, fun j => ?_, fun j other hne => ?_⟩
  · rw [scope_set]
    split
    · exact Scope.enclosing_set _ _ _
    · rfl
  · rw [scope_set]
    split
    · rw [Scope.get?_set, if_neg hne]
    · rfl

/-- In what can be got at, the functions of one store are like themselves in the other one. -/
theorem paired (h : s.SameBut name s') (hs : s.Omits scope name) : s.Paired (.but name) (.reached s scope) s' := by
  refine ⟨⟨?_, ?_, ?_, ?_⟩, fun k => ⟨congrArg (· + k) h.size.symm, Or.inr (Nat.le_add_right _ k)⟩,
    fun k => congrArg (· + k) h.functions.symm⟩
  · rintro i _ ⟨rfl, -⟩
    have hsize := h.size
    unfold InStep
    omega
  · rintro f _ rfl
    have hfunctions := h.functions
    unfold InStep
    omega
  · rintro i _ ⟨rfl, hi | hi⟩
    · rw [h.enclosing i]
      exact List.forall₂_same.mpr fun j hj => ⟨rfl, Or.inl (hi.outer hj)⟩
    · rw [h.enclosing i, scope_of_size_le hi]
      exact .nil
  · rintro i _ ⟨rfl, hi | hi⟩ other hother
    · rw [h.bindings i hother]
      cases hv : (s.scope i).get? other with
      | none => exact .none
      | some v =>
        refine .some (Value.alike_self fun f hf => Likeness.alike_closure rfl ⟨rfl, Or.inl (hi.captured hv hf)⟩ ?_ rfl)
        exact ((Likeness.knows_append (K := .but name)).mp (hs hi hv hf)).2
    · rw [h.bindings i hother, scope_of_size_le hi]
      exact .none

end Store.SameBut

theorem Renaming.strict_reached (s : Store) (scope : ScopeId) (name : String) : (Renaming.reached s scope).Strict (.but name) :=
  ⟨fun h => h, fun h => h.1.symm, Eq.symm⟩

/-- After evaluation in the scope on both sides, the stores are the same again but for the one name: a scope that does not correspond to
itself was there before, and is left alone. -/
theorem Store.SameBut.of_paired {t t' : Store} {names : List String} (h : s.SameBut name s') (hs : s.Frame scope names t)
    (hs' : s'.Frame scope names t') (ht : t.Paired (.but name) (.reached s scope) t') : t.SameBut name t' := by
  have halone : ∀ {i}, ¬(Renaming.reached s scope).scopes i i → t.scope i = s.scope i ∧ t'.scope i = s'.scope i := by
    intro i hi
    have hlt : i < s.scopes.size := Nat.lt_of_not_le fun hle => hi ⟨rfl, Or.inr hle⟩
    have hne : i ≠ scope := fun heq => hi ⟨rfl, Or.inl (heq ▸ .refl)⟩
    exact ⟨hs.other i hlt hne, hs'.other i (h.size.symm ▸ hlt) hne⟩
  refine ⟨(ht.nextScope 0).1.symm, (ht.nextFunction 0).symm, fun i => ?_, fun i other hne => ?_⟩
  · by_cases hi : (Renaming.reached s scope).scopes i i
    · exact ht.enclosing_eq (Renaming.strict_reached ..) hi
    · rw [(halone hi).1, (halone hi).2]
      exact h.enclosing i
  · by_cases hi : (Renaming.reached s scope).scopes i i
    · exact ht.get?_eq (Renaming.strict_reached ..) hi hne
    · rw [(halone hi).1, (halone hi).2]
      exact h.bindings i hne

/-! ## Evaluation -/

namespace Eval

/-- Two ends of evaluation with the same outcome, in stores that are the same but for what one name is bound to. -/
structure SameEnd {α : Type} (name : String) (x y : α × World) : Prop where
  outcome : y.1 = x.1
  stores : x.2.store.SameBut name y.2.store

/-- What a name is bound to makes no difference to what comes of a program, whether it is a value, a fault, a return or no end at all. -/
structure Unaffected (limit : Nat) (scope : ScopeId) (name : String) (p : Program) (w w' : World) : Prop where
  statements : Option.Rel (SameEnd name) (Stmt.evalAll (applyWithin limit) scope .null p.statements w)
    (Stmt.evalAll (applyWithin limit) scope .null p.statements w')
  program : Option.Rel (SameEnd name) (p.eval limit scope w) (p.eval limit scope w')

/-- A name that is not mentioned makes no difference: neither in the program, nor in the functions that can be got at from the scope. -/
theorem eval_unmentioned (limit : Nat) {name : String} {scope : ScopeId} {p : Program} {w w' : World}
    (h : w.store.SameBut name w'.store) (hp : Unmentioned name p.nodes) (hs : w.store.Omits scope name) :
    Unaffected limit scope name p w w' := by
  have statements : Option.Rel (SameEnd name) (Stmt.evalAll (applyWithin limit) scope .null p.statements w)
      (Stmt.evalAll (applyWithin limit) scope .null p.statements w') := by
    have hpairs := stmts_pair (applyWithin_pairs (.but name) (.reached w.store scope) limit) (rfl : (Likeness.but name).tokens id)
      ⟨rfl, Or.inl .refl⟩ p.statements .null hp
    rw [Stmt.mapAllTokens_id] at hpairs
    have hrel := hpairs w w' (h.paired hs)
    generalize hx : Stmt.evalAll (applyWithin limit) scope .null p.statements w = x? at hrel
    generalize hy : Stmt.evalAll (applyWithin limit) scope .null p.statements w' = y? at hrel
    cases hrel with
    | none => exact .none
    | @some x y hxy => exact .some ⟨hxy.1.eq (Renaming.strict_reached ..), h.of_paired (stmts_frame hx) (stmts_frame hy) hxy.2⟩
  refine ⟨statements, ?_⟩
  rw [p.eval_eq_map, p.eval_eq_map]
  exact Option.rel_map statements fun x y hxy => ⟨congrArg Outcome.value hxy.outcome, hxy.stores⟩

/-- In the root of `ownFunction`, the only function is the one that `f` is bound to. -/
theorem omits_ownFunction : (ownFunction Store.empty).store.Omits 0 "z" := by
  intro i other v g _ hv hg
  have hroot : Store.empty.addRoot.2.scope i = Scope.empty [] := by
    rw [Store.addRoot, Store.scope_add]
    split <;> rfl
  have hbound : v = .function ⟨0, [], nameBlock, 0⟩ := by
    have hscope : (ownFunction Store.empty).store.scope i =
        if i = 0 ∧ i < 1 then (Scope.empty []).set "f" (.function ⟨0, [], nameBlock, 0⟩) else Scope.empty [] := by
      rw [← hroot]
      exact Store.scope_set _ 0 "f" _ i
    rw [hscope] at hv
    split at hv
    · rw [Scope.get?_set] at hv
      split at hv
      · exact (Option.some_inj.mp hv).symm
      · cases hv
    · cases hv
  subst hbound
  cases hg
  decide

/-- In one of the two worlds, `z` is bound in the root as well. -/
theorem eval_unmentioned_bound : ∃ w, (ownFunction Store.empty).store.SameBut "z" w.store ∧
    ((ownFunction Store.empty).store.get? 0 "z").isNone ∧ (w.store.get? 0 "z").isSome ∧
    Unmentioned "z" (parse "let g = f; g()").program.nodes ∧ (ownFunction Store.empty).store.Omits 0 "z" ∧
    ((parse "let g = f; g()").program.eval 3 0 w).isSome ∧
    Unaffected 3 0 "z" (parse "let g = f; g()").program (ownFunction Store.empty) w := by
  have hsame := Store.SameBut.set (ownFunction Store.empty).store 0 "z" (.bool true)
  have hp : Unmentioned "z" (parse "let g = f; g()").program.nodes := by decide +kernel
  exact ⟨⟨_, #[]⟩, hsame, by decide +kernel, by decide +kernel, hp, omits_ownFunction, by decide +kernel,
    eval_unmentioned 3 hsame hp omits_ownFunction⟩

end Eval

end Scriptlet
