import Scriptlet.Proofs.Evaluation.Law

/-!
# What evaluation leaves alone

Evaluation in a scope changes no other scope that was there before, and in its own scope only what the names are bound to that the
code binds (`Expr.targets`). Scopes stay inside the scopes they were made in, and no name is unbound. A call works in a scope of its
own, so it changes no scope that was there before (`Store.Extends`): not the one of its caller, and not the one its function was made
in (`eval_frames`).

All this holds in every world and whatever comes of evaluation: a value, a fault or a return.
-/

namespace Scriptlet

namespace Store

/-- All the scopes of one store are in another, with the same bindings and the same scopes around them. -/
structure Extends (s t : Store) : Prop where
  size_le : s.scopes.size ≤ t.scopes.size
  scope : ∀ id < s.scopes.size, t.scope id = s.scope id

/-- All the scopes of one store are in another and equal, but that one scope may bind some names to other values. -/
structure Frame (scope : ScopeId) (names : List String) (s t : Store) : Prop where
  size_le : s.scopes.size ≤ t.scopes.size
  other : ∀ id < s.scopes.size, id ≠ scope → t.scope id = s.scope id
  enclosing : ∀ id < s.scopes.size, (t.scope id).enclosing = (s.scope id).enclosing
  bound : ∀ id < s.scopes.size, ∀ name, (s.scope id).get? name ≠ none → (t.scope id).get? name ≠ none
  kept : scope < s.scopes.size → ∀ name ∉ names, (t.scope scope).get? name = (s.scope scope).get? name

variable {scope : ScopeId} {names : List String} {s t u : Store}

theorem Extends.of_scopes_eq (h : t.scopes = s.scopes) : s.Extends t := by
  refine ⟨Nat.le_of_eq (by rw [h]), fun id _ => ?_⟩
  unfold Store.scope
  rw [h]

/-- A function is made without a scope. -/
theorem Extends.addFunction (s : Store) (ps : List Identifier) (b : Block) (scope : ScopeId) :
    s.Extends (s.addFunction ps b scope).2 :=
  .of_scopes_eq rfl

theorem Extends.frame (h : s.Extends t) : s.Frame scope names t := by
  refine ⟨h.size_le, fun id hid _ => h.scope id hid, fun id hid => ?_, fun id hid name hn => ?_, fun hs name _ => ?_⟩
  · rw [h.scope id hid]
  · rw [h.scope id hid]
    exact hn
  · rw [h.scope scope hs]

theorem Frame.refl (s : Store) : s.Frame scope names s :=
  ⟨Nat.le_refl _, fun _ _ _ => rfl, fun _ _ => rfl, fun _ _ _ h => h, fun _ _ _ => rfl⟩

theorem Frame.trans (h : s.Frame scope names t) (h' : t.Frame scope names u) : s.Frame scope names u := by
  have hlt : ∀ {id : ScopeId}, id < s.scopes.size → id < t.scopes.size := fun hid => Nat.lt_of_lt_of_le hid h.size_le
  refine ⟨Nat.le_trans h.size_le h'.size_le, fun id hid hne => ?_, fun id hid => ?_, fun id hid name hn => ?_,
    fun hs name hn => ?_⟩
  · rw [h'.other id (hlt hid) hne, h.other id hid hne]
  · rw [h'.enclosing id (hlt hid), h.enclosing id hid]
  · exact h'.bound id (hlt hid) name (h.bound id hid name hn)
  · rw [h'.kept (hlt hs) name hn, h.kept hs name hn]

/-- Binding one of the names in the scope. -/
theorem Frame.set (s : Store) {name : String} (hname : name ∈ names) (v : Value) :
    s.Frame scope names (s.set scope name v) := by
  refine ⟨Nat.le_of_eq (size_set s scope name v).symm, fun id _ hne => ?_, fun id _ => ?_, fun id _ n hn => ?_,
    fun _ n hn => ?_⟩
  · rw [scope_set, if_neg fun h => hne h.1]
  · rw [scope_set]
    split
    · exact Scope.enclosing_set _ _ _
    · rfl
  · rw [scope_set]
    split
    · rw [Scope.get?_set]
      split
      · exact Option.some_ne_none v
      · exact hn
    · exact hn
  · have hne : n ≠ name := fun h => hn (h ▸ hname)
    rw [scope_set]
    split
    · rw [Scope.get?_set, if_neg hne]
    · rfl

/-- A new scope leaves all others alone. -/
theorem Extends.add (s : Store) (c : Scope) : s.Extends (s.add c).2 := by
  refine ⟨?_, fun id hid => ?_⟩
  · rw [size_add]
    exact Nat.le_succ _
  · rw [scope_add, if_neg (Nat.ne_of_lt hid)]

/-- What is left alone by everything but one scope is left alone entirely if that scope was not there. -/
theorem Extends.frame_trans (h : s.Extends t) (h' : t.Frame scope names u) (hs : s.scopes.size ≤ scope) : s.Extends u := by
  refine ⟨Nat.le_trans h.size_le h'.size_le, fun id hid => ?_⟩
  rw [h'.other id (Nat.lt_of_lt_of_le hid h.size_le) (Nat.ne_of_lt (Nat.lt_of_lt_of_le hid hs)), h.scope id hid]

end Store

namespace Eval

/-- Only the scope itself is changed, and only in what the names are bound to. -/
def frameLaw (scope : ScopeId) (names : List String) : Law scope names where
  Inv _ := True
  Good _ := True
  Holds _ w w' := w.store.Frame scope names w'.store
  plain _ := trivial
  refl _ := .refl _
  trans := .trans
  raise _ _ := ⟨trivial, .refl _⟩
  leave _ _ := .refl _
  lookup _ _ := trivial
  bind hn _ _ e := by
    subst e
    exact ⟨trivial, .set _ hn _⟩
  make {w} _ ps b _ e := by
    subst e
    exact ⟨trivial, (Store.Extends.addFunction w.store ps b scope).frame⟩

variable {scope : ScopeId} {names : List String}

theorem Obeys.frame {α : Type} {G : α → Prop} {p : Eval α} (hp : p.Obeys (frameLaw scope names) G) {w w' : World}
    {x : Except Unwind α} (h : p w = some (x, w')) : w.store.Frame scope names w'.store :=
  (hp w x w' trivial h).2.1

/-- Applying a function leaves every scope that was there before as it is. -/
def AppliesApart (apply : Closure → List Value → Eval Value) : Prop :=
  ∀ (f : Closure) (args : List Value) (w w' : World) (x : Except Unwind Value), apply f args w = some (x, w') →
    w.store.Extends w'.store

theorem AppliesApart.applies {apply : Closure → List Value → Eval Value} (ha : AppliesApart apply) :
    Applies (frameLaw scope names) apply := by
  intro f args _ w x w' _ h
  exact ⟨trivial, (ha f args w w' x h).frame, fun _ _ => trivial⟩

/-- By induction on the limit, since the calls in the body have less of it: the body changes the scope of the call only, which
is new. -/
theorem applyWithin_apart (limit : Nat) : AppliesApart (applyWithin limit) := by
  induction limit with
  | zero => exact nofun
  | succ limit ih =>
    intro f args w w' x h
    have hargs : ∀ v ∈ args, (frameLaw w.store.scopes.size (f.names ++ f.body.targets)).Good v := fun _ _ => trivial
    have hbody := body_obeys ih.applies (List.Subset.refl _) hargs
    obtain ⟨y, w₁, hy, rfl, rfl⟩ := enter_of_applyWithin h
    rw [enter_apply] at hy
    split at hy
    · have hopen : w.store.Extends (w.store.addInside f.scope).2 := .add _ _
      exact hopen.frame_trans (hbody.frame hy) (Nat.le_refl _)
    · cases hy
      exact .of_scopes_eq rfl

theorem stmts_frame {limit : Nat} {last : Value} {ss : List Stmt} {w w' : World} {x : Except Unwind Value}
    (h : Stmt.evalAll (applyWithin limit) scope last ss w = some (x, w')) : w.store.Frame scope (Stmt.targetsAll ss) w'.store := by
  have hlast : (frameLaw scope (Stmt.targetsAll ss)).Good last := trivial
  exact (stmts_obey (applyWithin_apart limit).applies ss hlast (List.Subset.refl _)).frame h

/-- What every evaluation leaves alone, with a limit on the calls that are open at once. -/
structure Frames (limit : Nat) : Prop where
  expr (scope : ScopeId) (e : Expr) {w w' : World} {x : Except Unwind Value} :
    e.eval (applyWithin limit) scope w = some (x, w') → w.store.Frame scope e.targets w'.store
  stmts (scope : ScopeId) (last : Value) (ss : List Stmt) {w w' : World} {x : Except Unwind Value} :
    Stmt.evalAll (applyWithin limit) scope last ss w = some (x, w') →
    w.store.Frame scope (Stmt.targetsAll ss) w'.store
  application (f : Closure) (args : List Value) {w w' : World} {x : Except Unwind Value} :
    applyWithin limit f args w = some (x, w') → w.store.Extends w'.store

/-- Evaluation changes its own scope only, and there only the names that the code binds; applying a function changes no scope. -/
theorem eval_frames (limit : Nat) : Frames limit := by
  refine ⟨fun scope e w w' x h => ?_, fun scope last ss w w' x h => ?_, fun f args w w' x => ?_⟩
  · exact (expr_obeys (L := frameLaw scope _) (applyWithin_apart limit).applies e (List.Subset.refl _)).frame h
  · have hlast : (frameLaw scope (Stmt.targetsAll ss)).Good last := trivial
    exact (stmts_obey (applyWithin_apart limit).applies ss hlast (List.Subset.refl _)).frame h
  · exact applyWithin_apart limit f args w w' x

end Eval

end Scriptlet
