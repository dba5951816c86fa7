import Scriptlet.Proofs.Evaluation.Pairing
import Scriptlet.Proofs.Session.Reached

/-!
# Evaluation is local

What comes of evaluation in a scope depends on what can be got at from there: the scopes around it, and those that function values
bound in these scopes were made in (`Store.Reaches`). Whatever other scopes there are, and whatever numbers the scopes and the functions
have, evaluation in two stores that are alike has values that are alike, the same fault or the same return, or no end in both
(`eval_local`). Afterwards the stores are alike again, the scopes and functions made on the way being renamed in the order in which they
were made.

In a fresh root nothing else can be got at, so a program does the same there in every store, and every time.
-/

namespace Scriptlet

/-- The code on both sides is the same, and so are the values of all names. -/
def Likeness.exact : Likeness := ⟨fun _ => True, fun tok => tok = id⟩

theorem Likeness.exact_knows (ns : List Node) : Likeness.exact.Knows ns := fun _ _ => trivial

variable {K : Likeness} {R : Renaming}

/-! ## Renamings that grow -/

/-- A relation between numbers below `m` and below `n`, and between those that follow on `m` and `n` in their order. -/
def Grown (m n : Nat) (r : Nat → Nat → Prop) (i j : Nat) : Prop := r i j ∨ m ≤ i ∧ i + n = j + m

namespace Grown

variable {m n : Nat} {r : Nat → Nat → Prop}

theorem next (r : Nat → Nat → Prop) (k : Nat) : Grown m n r (m + k) (n + k) :=
  Or.inr ⟨Nat.le_add_right m k, by omega⟩

theorem inStep (h : ∀ {i j}, r i j → InStep m n i j) {i j : Nat} (hij : Grown m n r i j) : InStep m n i j :=
  hij.elim h Or.inr

/-- What is one-to-one and in step stays one-to-one. -/
theorem biUnique (hr : Relator.BiUnique r) (h : ∀ {i j}, r i j → InStep m n i j) : Relator.BiUnique (Grown m n r) := by
  refine ⟨fun a b c hac hbc => ?_, fun a b c hab hac => ?_⟩
  · obtain hac | hac := hac <;> obtain hbc | hbc := hbc
    · exact hr.1 hac hbc
    · have := h hac
      unfold InStep at this
      omega
    · have := h hbc
      unfold InStep at this
      omega
    · omega
  · obtain hab | hab := hab <;> obtain hac | hac := hac
    · exact hr.2 hab hac
    · have := h hab
      unfold InStep at this
      omega
    · have := h hac
      unfold InStep at this
      omega
    · omega

end Grown

/-- The renaming that also takes the scopes and functions made from now on for each other, in the order in which they are made. -/
def Renaming.grow (R : Renaming) {s s' : Store} (h : s.Alike K R s') : Renaming where
  scopes := Grown s.scopes.size s'.scopes.size R.scopes
  functions := Grown s.functions s'.functions R.functions
  oneToOne := Grown.biUnique R.oneToOne h.scopes

/-- Values that are alike stay so when more is renamed. -/
theorem Value.Alike.mono {R' : Renaming} (hs : ∀ i j, R.scopes i j → R'.scopes i j) (hf : ∀ f g, R.functions f g → R'.functions f g)
    {v u : Value} (h : v.Alike K R u) : v.Alike K R' u := by
  induction h with
  | int n => exact .int n
  | float x => exact .float x
  | bool b => exact .bool b
  | string s => exact .string s
  | null => exact .null
  | function h => exact .function ⟨hf _ _ h.id, hs _ _ h.scope, h.knows, h.code⟩
  | error m => exact .error m
  | returned _ ih => exact .returned ih

namespace Store

/-- A number that was not given out has an empty scope. -/
theorem scope_of_size_le {s : Store} {i : ScopeId} (h : s.scopes.size ≤ i) : s.scope i = Scope.empty [] := by
  unfold scope
  rw [Array.getElem?_eq_none h]
  rfl

variable {s s' : Store}

/-- Stores that are alike are paired under the renaming that grows with them. -/
theorem Alike.paired (h : s.Alike K R s') : s.Paired K (R.grow h) s' := by
  refine ⟨⟨Grown.inStep h.scopes, Grown.inStep h.functions, fun {i j} hij => ?_, fun {i j} hij name hname => ?_⟩,
    Grown.next R.scopes, Grown.next R.functions⟩
  · obtain hij | ⟨hi, hj⟩ := hij
    · exact (h.enclosing hij).imp fun _ _ => Or.inl
    · rw [scope_of_size_le hi, scope_of_size_le (by omega)]
      exact .nil
  · obtain hij | ⟨hi, hj⟩ := hij
    · exact Option.rel_imp (h.bindings hij name hname) fun _ _ hvu => hvu.mono (fun _ _ => Or.inl) fun _ _ => Or.inl
    · rw [scope_of_size_le hi, scope_of_size_le (by omega)]
      exact .none

end Store

/-! ## The other way round -/

/-- The renaming from the right to the left. -/
def Renaming.swap (R : Renaming) : Renaming where
  scopes := flip R.scopes
  functions := flip R.functions
  oneToOne := ⟨fun _ _ _ hac hbc => R.oneToOne.2 hac hbc, fun _ _ _ hab hac => R.oneToOne.1 hab hac⟩

theorem InStep.symm {m n i j : Nat} (h : InStep m n i j) : InStep n m j i := by
  unfold InStep at h ⊢
  omega

theorem Closure.Alike.symm {f g : Closure} (h : f.Alike .exact R g) : g.Alike .exact R.swap f := by
  obtain ⟨tok, rfl, hps, hb⟩ := h.code
  rw [Identifier.mapToken_id, List.map_id] at hps
  rw [Block.mapTokens_id] at hb
  refine ⟨h.id, h.scope, Likeness.exact_knows _, _, rfl, ?_, ?_⟩
  · rw [Identifier.mapToken_id, List.map_id, hps]
  · rw [Block.mapTokens_id, hb]

theorem Value.Alike.symm {v u : Value} (h : v.Alike .exact R u) : u.Alike .exact R.swap v := by
  induction h with
  | int n => exact .int n
  | float x => exact .float x
  | bool b => exact .bool b
  | string s => exact .string s
  | null => exact .null
  | function h => exact .function h.symm
  | error m => exact .error m
  | returned _ ih => exact .returned ih

/-- Stores whose code is the same are alike the other way round as well. -/
theorem Store.Alike.symm {s s' : Store} (h : s.Alike .exact R s') : s'.Alike .exact R.swap s := by
  refine ⟨fun hij => (h.scopes hij).symm, fun hfg => (h.functions hfg).symm, fun hij => (h.enclosing hij).flip, fun hij name hname => ?_⟩
  exact Option.rel_swap (h.bindings hij name hname) fun _ _ hvu => hvu.symm

/-! ## What can be got at -/

/-- A value is a function, or carries one as a returned value. -/
inductive Value.Carries : Value → Closure → Prop where
  | function (f : Closure) : Value.Carries (.function f) f
  | returned {v : Value} {f : Closure} : v.Carries f → Value.Carries (.returned v) f

/-- A value is like itself if the function that it carries is. -/
theorem Value.alike_self {v : Value} (h : ∀ f, v.Carries f → f.Alike K R f) : v.Alike K R v := by
  induction v with
  | int n => exact .int n
  | float x => exact .float x
  | bool b => exact .bool b
  | string s => exact .string s
  | null => exact .null
  | function f => exact .function (h f (.function f))
  | error m => exact .error m
  | returned v ih => exact .returned (ih fun f hf => h f (.returned hf))

/-- The scopes that can be got at from a scope: itself, the scopes around one of them, and those that functions bound in one of them were
made in. -/
inductive Store.Reaches (s : Store) (i : ScopeId) : ScopeId → Prop where
  | refl : Store.Reaches s i i
  | outer {j k : ScopeId} : Store.Reaches s i j → k ∈ (s.scope j).enclosing → Store.Reaches s i k
  | captured {j : ScopeId} {name : String} {v : Value} {f : Closure} : Store.Reaches s i j →
      (s.scope j).get? name = some v → v.Carries f → Store.Reaches s i f.scope

theorem Value.Alike.carries {v u : Value} {f : Closure} (h : v.Alike K R u) (hf : v.Carries f) :
    ∃ g, u.Carries g ∧ f.Alike K R g := by
  induction hf generalizing u with
  | function f =>
    cases h with
    | @function _ g hfg => exact ⟨g, .function g, hfg⟩
  | returned _ ih =>
    cases h with
    | returned hvu =>
      obtain ⟨g, hg, hfg⟩ := ih hvu
      exact ⟨g, .returned hg, hfg⟩

/-- A scope that can be got at on one side corresponds to one that can be got at on the other side. -/
theorem Store.Alike.reaches {s s' : Store} (h : s.Alike .exact R s') {i j : ScopeId} (hij : R.scopes i j) {k : ScopeId}
    (hk : s.Reaches i k) : ∃ l, R.scopes k l ∧ s'.Reaches j l := by
  induction hk with
  | refl => exact ⟨j, hij, .refl⟩
  | outer _ hk ih =>
    obtain ⟨l, hl, hreach⟩ := ih
    obtain ⟨l', hl', hkl⟩ := List.exists_of_forall₂ (h.enclosing hl) hk
    exact ⟨l', hkl, .outer hreach hl'⟩
  | @captured _ name v f _ hv hf ih =>
    obtain ⟨l, hl, hreach⟩ := ih
    have hval := h.bindings hl name trivial
    rw [hv] at hval
    generalize hu : (s'.scope l).get? name = u? at hval
    cases hval with
    | some hvu =>
      obtain ⟨g, hg, hfg⟩ := hvu.carries hf
      exact ⟨g.scope, hfg.scope, .captured hreach hu hg⟩

/-! ## Evaluation -/

/-- Two ends of evaluation, one in each store: what came of it corresponds, the stores are alike, and so what can be got at from the two
scopes corresponds. -/
structure Eval.Ends {α β : Type} (R : Renaming) (S : α → β → Prop) (i j : ScopeId) (x : α × World) (y : β × World) : Prop where
  result : S x.1 y.1
  stores : x.2.store.Alike .exact R y.2.store
  reached {k : ScopeId} : x.2.store.Reaches i k → ∃ l, R.scopes k l ∧ y.2.store.Reaches j l
  covered {l : ScopeId} : y.2.store.Reaches j l → ∃ k, R.scopes k l ∧ x.2.store.Reaches i k

/-- Evaluates a program in a new root. -/
def Program.evalAfresh (limit : Nat) (p : Program) (w : World) : Option (Value × World) :=
  p.eval limit w.store.addRoot.1 { w with store := w.store.addRoot.2 }

/-- The renaming of one scope, and of no function. -/
def Renaming.single (i j : ScopeId) : Renaming where
  scopes a b := a = i ∧ b = j
  functions _ _ := False
  oneToOne := ⟨fun _ _ _ ha hb => ha.1.trans hb.1.symm, fun _ _ _ ha hb => ha.2.trans hb.2.symm⟩

/-- New roots are alike in any two stores. -/
theorem Store.alike_addRoot (s s' : Store) : s.addRoot.2.Alike K (.single s.addRoot.1 s'.addRoot.1) s'.addRoot.2 := by
  have hroot : ∀ t : Store, t.addRoot.2.scope t.addRoot.1 = Scope.empty [] := by
    intro t
    rw [addRoot, scope_add]
    exact if_pos rfl
  refine ⟨?_, False.elim, ?_, ?_⟩
  · rintro _ _ ⟨rfl, rfl⟩
    refine Or.inl ⟨?_, ?_⟩
    · rw [addRoot, size_add]
      exact Nat.lt_succ_self _
    · rw [addRoot, size_add]
      exact Nat.lt_succ_self _
  · rintro _ _ ⟨rfl, rfl⟩
    rw [hroot, hroot]
    exact .nil
  · rintro _ _ ⟨rfl, rfl⟩ name -
    rw [hroot, hroot]
    exact .none

theorem Outcome.Alike.value {x y : Except Unwind Value} (h : Outcome.Alike K R (Value.Alike K R) x y) :
    (Outcome.value x).Alike K R (Outcome.value y) := by
  cases h with
  | ok h => exact h
  | fault f => exact .error f.message
  | returned h => exact h

namespace Eval

/-- Evaluation of a program does not depend on anything that cannot be got at, nor on numbers. -/
structure Local (limit : Nat) (p : Program) : Prop where
  /-- In scopes that correspond, in stores that are alike, evaluation has values that are alike or leaves in the same way, or there is
  no end on either side. -/
  statements {R : Renaming} {i j : ScopeId} {w w' : World} (h : w.store.Alike .exact R w'.store) : R.scopes i j →
    Option.Rel (Ends (R.grow h) (Outcome.Alike .exact (R.grow h) (Value.Alike .exact (R.grow h))) i j)
      (Stmt.evalAll (applyWithin limit) i .null p.statements w) (Stmt.evalAll (applyWithin limit) j .null p.statements w')
  program {R : Renaming} {i j : ScopeId} {w w' : World} (h : w.store.Alike .exact R w'.store) : R.scopes i j →
    Option.Rel (Ends (R.grow h) (Value.Alike .exact (R.grow h)) i j) (p.eval limit i w) (p.eval limit j w')
  /-- If the functions correspond one to one, so do those there are afterwards. -/
  functions {R : Renaming} {w w' : World} (h : w.store.Alike .exact R w'.store) :
    Relator.BiUnique R.functions → Relator.BiUnique (R.grow h).functions
  /-- In a new root the same comes of it in every store, and so each time it is repeated. -/
  afresh (w w' : World) : ∃ R : Renaming, Relator.BiUnique R.functions ∧ R.scopes w.store.addRoot.1 w'.store.addRoot.1 ∧
    Option.Rel (Ends R (Value.Alike .exact R) w.store.addRoot.1 w'.store.addRoot.1) (p.evalAfresh limit w) (p.evalAfresh limit w')

variable {i j : ScopeId} {w w' : World}

/-- Evaluation in stores that are paired ends with what can be got at corresponding. -/
theorem Pairs.ends {α β : Type} {S : α → β → Prop} {p : Eval α} {q : Eval β} (hpq : p.Pairs .exact R S q)
    (hij : R.scopes i j) (hw : w.store.Paired .exact R w'.store) :
    Option.Rel (Ends R (Outcome.Alike .exact R S) i j) (p w) (q w') :=
  Option.rel_imp (hpq w w' hw) fun _ _ h => ⟨h.1, h.2.toAlike, h.2.toAlike.reaches hij, h.2.toAlike.symm.reaches hij⟩

/-- The outcome of evaluation in the scope of one store is that in the scope of the other, whatever else there is. -/
theorem eval_local (limit : Nat) (p : Program) : Local limit p := by
  have statements : ∀ {R : Renaming} {i j : ScopeId} {w w' : World} (h : w.store.Alike .exact R w'.store), R.scopes i j →
      Option.Rel (Ends (R.grow h) (Outcome.Alike .exact (R.grow h) (Value.Alike .exact (R.grow h))) i j)
        (Stmt.evalAll (applyWithin limit) i .null p.statements w) (Stmt.evalAll (applyWithin limit) j .null p.statements w') := by
    intro R i j w w' h hij
    have hpairs := stmts_pair (applyWithin_pairs .exact (R.grow h) limit) (rfl : Likeness.exact.tokens id) (Or.inl hij)
      p.statements .null (Likeness.exact_knows _)
    rw [Stmt.mapAllTokens_id] at hpairs
    exact hpairs.ends (Or.inl hij) h.paired
  have program : ∀ {R : Renaming} {i j : ScopeId} {w w' : World} (h : w.store.Alike .exact R w'.store), R.scopes i j →
      Option.Rel (Ends (R.grow h) (Value.Alike .exact (R.grow h)) i j) (p.eval limit i w) (p.eval limit j w') := by
    intro R i j w w' h hij
    rw [p.eval_eq_map, p.eval_eq_map]
    exact Option.rel_map (statements h hij) fun x y hxy => ⟨hxy.result.value, hxy.stores, hxy.reached, hxy.covered⟩
  have functions : ∀ {R : Renaming} {w w' : World} (h : w.store.Alike .exact R w'.store),
      Relator.BiUnique R.functions → Relator.BiUnique (R.grow h).functions :=
    fun h hR => Grown.biUnique hR h.functions
  refine ⟨statements, program, functions, fun w w' => ?_⟩
  let fresh (u : World) : World := { u with store := u.store.addRoot.2 }
  have hroots : (fresh w).store.Alike .exact (.single w.store.addRoot.1 w'.store.addRoot.1) (fresh w').store :=
    Store.alike_addRoot w.store w'.store
  exact ⟨_, functions hroots ⟨nofun, nofun⟩, Or.inl ⟨rfl, rfl⟩, program hroots ⟨rfl, rfl⟩⟩

/-- A block that has what `f` is bound to as its value. -/
def nameBlock : Block := ⟨default, [.expr default (.ident ⟨default, "f"⟩)]⟩

/-- A world with a new root, where `f` is bound to a function that was made there and has itself as its value. -/
def ownFunction (s : Store) : World :=
  let (root, s) := s.addRoot
  let (f, s) := s.addFunction [] nameBlock root
  ⟨s.set root "f" (.function f), #[]⟩

/-- The function is bound in scope 0 of one store and in scope 1 of the other one, where there are five functions before it. -/
theorem eval_local_renumbered : ∃ (R : Renaming)
    (h : (ownFunction ⟨#[], 0⟩).store.Alike .exact R (ownFunction ⟨#[Scope.empty []], 5⟩).store), R.scopes 0 1 ∧ R.functions 0 5 ∧
      ((parse "let g = f; g()").program.eval 3 0 (ownFunction ⟨#[], 0⟩)).isSome ∧
      Option.Rel (Ends (R.grow h) (Value.Alike .exact (R.grow h)) 0 1)
        ((parse "let g = f; g()").program.eval 3 0 (ownFunction ⟨#[], 0⟩))
        ((parse "let g = f; g()").program.eval 3 1 (ownFunction ⟨#[Scope.empty []], 5⟩)) := by
  have hempty := Store.alike_addRoot (K := .exact) ⟨#[], 0⟩ ⟨#[Scope.empty []], 5⟩
  have hij : (Renaming.grow _ hempty).scopes 0 1 := Or.inl ⟨rfl, rfl⟩
  have hid := hempty.paired.nextFunction 0
  have hf : Closure.Alike .exact (Renaming.grow _ hempty) ⟨0, [], nameBlock, 0⟩ ⟨5, [], nameBlock, 1⟩ :=
    ⟨hid, hij, Likeness.exact_knows _, id, rfl, rfl, (Block.mapTokens_id nameBlock).symm⟩
  have h : (ownFunction ⟨#[], 0⟩).store.Alike .exact (Renaming.grow _ hempty) (ownFunction ⟨#[Scope.empty []], 5⟩).store :=
    ((hempty.paired.addFunction [] [] nameBlock nameBlock 0 1).set hij "f" (.function hf)).toAlike
  exact ⟨_, h, hij, hid, by decide +kernel, (eval_local 3 (parse "let g = f; g()").program).program h hij⟩

end Eval

end Scriptlet
