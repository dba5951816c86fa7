import Scriptlet.Proofs.Evaluation.Changes
import Scriptlet.Proofs.Lists

/-!
# Lookup after any history

Scopes are made, copied and written to in any order, by a host and by the programs it evaluates. The changes made so far, the latest
first, are a `History`, and what it has made is a world (`History.Makes`).

A history alone says where a scope was made (`History.outer`) and what was bound in it last (`History.binding`). The scope that a scope
is made in is older than the scope itself, so the way outwards comes to an end (`History.Chain`), and nothing that happens later changes
it. A name has the value that was bound to it last in the nearest scope on this way that binds it, and no value if none of them does. A
copy has the bindings of the original up to that moment, and neither of the two is on the way outwards from the other
(`History.Makes.scoped`).
-/

namespace Scriptlet

/-- Some changes, the latest first. -/
abbrev History := List Change

namespace History

/-- The number of scopes made. They are numbered in the order in which they are made. -/
def size : History → Nat
  | [] => 0
  | .root :: h | .inside _ :: h | .copy _ :: h => size h + 1
  | .set _ _ _ :: h => size h

/-- The scope that a scope was made in. A copy is where the original is. -/
def outer : History → ScopeId → Option ScopeId
  | [], _ => none
  | .root :: h, i => if i = size h then none else outer h i
  | .inside o :: h, i => if i = size h then some o else outer h i
  | .copy j :: h, i => if i = size h then outer h j else outer h i
  | .set _ _ _ :: h, i => outer h i

/-- The value that was bound to a name last in a scope. A copy starts with the bindings that the original has at that moment. -/
def binding : History → ScopeId → String → Option Value
  | [], _, _ => none
  | .root :: h, i, name | .inside _ :: h, i, name => if i = size h then none else binding h i name
  | .copy j :: h, i, name => if i = size h then binding h j name else binding h i name
  | .set j n v :: h, i, name => if i = j ∧ name = n then some v else binding h i name

/-- The way from a scope outwards. -/
inductive Chain (h : History) : ScopeId → List ScopeId → Prop where
  | root {i : ScopeId} : outer h i = none → Chain h i [i]
  | inside {i o : ScopeId} {l : List ScopeId} : outer h i = some o → Chain h o l → Chain h i (i :: l)

/-- Every change is about scopes that are there when it is made. -/
def Sound : History → Prop
  | [] => True
  | .root :: h => Sound h
  | .inside i :: h | .copy i :: h | .set i _ _ :: h => i < size h ∧ Sound h

/-- The world that a host has after some changes. It makes scopes, copies them, binds names in them, and evaluates programs in them; a
function that it binds has to come from a scope that is there. -/
inductive Makes : History → World → Prop where
  | start : Makes [] World.empty
  | root {h : History} {w : World} : Makes h w → Makes (.root :: h) { w with store := w.store.addRoot.2 }
  | inside {h : History} {w : World} {outer : ScopeId} : Makes h w → outer < w.store.scopes.size →
      Makes (.inside outer :: h) { w with store := (w.store.addInside outer).2 }
  | copy {h : History} {w : World} {original : ScopeId} : Makes h w → original < w.store.scopes.size →
      Makes (.copy original :: h) { w with store := (w.store.addCopy original).2 }
  | set {h : History} {w : World} {scope : ScopeId} {name : String} {v : Value} : Makes h w → scope < w.store.scopes.size →
      v.Within w.store.scopes.size → Makes (.set scope name v :: h) { w with store := w.store.set scope name v }
  /-- Whatever comes of evaluation, its changes are those that it has written down. -/
  | evaluated {h h' : History} {w w' : World} {limit : Nat} {scope : ScopeId} {p : Program} {v : Value} : Makes h w →
      scope < w.store.scopes.size → p.eval limit scope w = some (v, w') → w.Writes h' w' → Makes (h' ++ h) w'

/-! ## What a history says -/

variable {h h' : History} {i j o : ScopeId} {name : String}

theorem size_le_append (h' h : History) : size h ≤ size (h' ++ h) := by
  induction h' with
  | nil => exact Nat.le_refl _
  | cons c h' ih =>
    cases c with
    | root | inside _ | copy _ => exact Nat.le_succ_of_le ih
    | set _ _ _ => exact ih

theorem Sound.of_append (hs : Sound (h' ++ h)) : Sound h := by
  induction h' with
  | nil => exact hs
  | cons c h' ih =>
    cases c with
    | root => exact ih hs
    | inside _ | copy _ | set _ _ _ => exact ih hs.2

/-- Where a scope was made is decided when it is made. -/
theorem outer_append (h' : History) (hi : i < size h) : outer (h' ++ h) i = outer h i := by
  induction h' with
  | nil => rfl
  | cons c h' ih =>
    have hne : i ≠ size (h' ++ h) := Nat.ne_of_lt (Nat.lt_of_lt_of_le hi (size_le_append h' h))
    cases c with
    | root | inside _ | copy _ => exact (if_neg hne).trans ih
    | set _ _ _ => exact ih

/-- A scope is younger than the one it was made in. -/
theorem outer_lt (hs : Sound h) (ho : outer h i = some o) : o < i ∧ i < size h := by
  induction h generalizing i with
  | nil => cases ho
  | cons c h ih =>
    cases c with
    | root =>
      rw [outer] at ho
      split at ho
      · cases ho
      · exact (ih hs ho).imp_right Nat.lt_succ_of_lt
    | inside k =>
      rw [outer] at ho
      split at ho
      · next hi =>
        cases ho
        exact ⟨hi ▸ hs.1, hi ▸ Nat.lt_succ_self _⟩
      · exact (ih hs.2 ho).imp_right Nat.lt_succ_of_lt
    | copy k =>
      rw [outer] at ho
      split at ho
      · next hi =>
        have hlt := ih hs.2 ho
        exact ⟨hi ▸ Nat.lt_trans hlt.1 hs.1, hi ▸ Nat.lt_succ_self _⟩
      · exact (ih hs.2 ho).imp_right Nat.lt_succ_of_lt
    | set k n v => exact ih hs.2 ho

/-- There is one way outwards. -/
theorem Chain.unique {l l' : List ScopeId} (hl : Chain h i l) (hl' : Chain h i l') : l = l' := by
  induction hl generalizing l' with
  | root ho =>
    cases hl' with
    | root => rfl
    | inside ho' => rw [ho] at ho'; cases ho'
  | inside ho _ ih =>
    cases hl' with
    | root ho' => rw [ho] at ho'; cases ho'
    | inside ho' hrest =>
      rw [ho] at ho'
      cases ho'
      rw [ih hrest]

/-- The way outwards leads from younger scopes to older ones, so it comes through no scope twice. -/
theorem Chain.falling {l : List ScopeId} (hs : Sound h) (hl : Chain h i l) : l.Pairwise (· > ·) ∧ ∀ j ∈ l, j ≤ i := by
  induction hl with
  | @root i _ => exact ⟨List.pairwise_singleton _ i, List.forall_mem_singleton.mpr (Nat.le_refl i)⟩
  | @inside i o l ho _ ih =>
    have hlt : ∀ j ∈ l, j < i := fun j hj => Nat.lt_of_le_of_lt (ih.2 j hj) (outer_lt hs ho).1
    exact ⟨List.pairwise_cons.mpr ⟨hlt, ih.1⟩, List.forall_mem_cons.mpr ⟨Nat.le_refl i, fun j hj => Nat.le_of_lt (hlt j hj)⟩⟩

/-- Later changes leave the way outwards as it is. -/
theorem Chain.append {l : List ScopeId} (hs : Sound h) (hl : Chain h i l) (hi : i < size h) (h' : History) : Chain (h' ++ h) i l := by
  induction hl with
  | root ho => exact .root ((outer_append h' hi).trans ho)
  | inside ho _ ih => exact .inside ((outer_append h' hi).trans ho) (ih (Nat.lt_trans (outer_lt hs ho).1 hi))

end History

/-! ## What a history makes -/

open History

/-- A store is as its history says. -/
structure Store.Recalls (h : History) (s : Store) : Prop where
  sound : Sound h
  closed : s.Closed
  size : s.scopes.size = size h
  bindings (i : ScopeId) (name : String) : (s.scope i).get? name = binding h i name
  enclosing (i : ScopeId) : (s.scope i).enclosing = ((outer h i).map s.chain).getD []

namespace Store

variable {h : History} {s : Store} {i : ScopeId}

theorem chain_add (s : Store) (c : Scope) (hi : i < s.scopes.size) : (s.add c).2.chain i = s.chain i := by
  rw [chain, chain, scope_add, if_neg (Nat.ne_of_lt hi)]

theorem chain_set (s : Store) (i : ScopeId) (name : String) (v : Value) (j : ScopeId) : (s.set i name v).chain j = s.chain j := by
  rw [chain, chain, scope_set]
  split
  · rw [Scope.enclosing_set]
  · rfl

namespace Recalls

theorem empty : Recalls [] Store.empty := ⟨trivial, nofun, rfl, fun _ _ => rfl, fun _ => rfl⟩

theorem outer_lt_size (hs : s.Recalls h) {o : ScopeId} (ho : outer h i = some o) : o < s.scopes.size := by
  have hlt := outer_lt hs.sound ho
  rw [hs.size]
  exact Nat.lt_trans hlt.1 hlt.2

/-- One scope more, made in a scope that is there or in none, with what the history says is bound in it. -/
theorem add (hs : s.Recalls h) {c : Scope} {change : Change} {o? : Option ScopeId} (hsound : Sound (change :: h))
    (hsize : History.size (change :: h) = History.size h + 1) (hclosed : ∀ name v, c.get? name = some v → v.Within s.scopes.size)
    (ho : ∀ o ∈ o?, o < s.scopes.size) (henclosing : c.enclosing = (o?.map s.chain).getD [])
    (hbinding : ∀ i name, binding (change :: h) i name = if i = History.size h then c.get? name else binding h i name)
    (houter : ∀ i, outer (change :: h) i = if i = History.size h then o? else outer h i) : (s.add c).2.Recalls (change :: h) := by
  refine ⟨hsound, hs.closed.add hclosed, ?_, fun i name => ?_, fun i => ?_⟩
  · rw [size_add, hs.size, hsize]
  · rw [scope_add, hs.size, hbinding]
    split
    · rfl
    · exact hs.bindings i name
  · rw [scope_add, hs.size, houter]
    split
    · rw [henclosing, Option.map_congr fun o hmem => chain_add s c (ho o hmem)]
    · rw [hs.enclosing i, Option.map_congr fun o hmem => chain_add s c (hs.outer_lt_size hmem)]

theorem root (hs : s.Recalls h) : s.addRoot.2.Recalls (.root :: h) :=
  hs.add hs.sound rfl nofun (fun _ hmem => absurd hmem (Option.not_mem_none _)) rfl (fun _ _ => rfl) fun _ => rfl

theorem inside (hs : s.Recalls h) {o : ScopeId} (ho : o < s.scopes.size) : (s.addInside o).2.Recalls (.inside o :: h) :=
  hs.add ⟨hs.size ▸ ho, hs.sound⟩ rfl nofun (fun _ hmem => Option.some_inj.mp hmem ▸ ho) rfl (fun _ _ => rfl) fun _ => rfl

theorem copy (hs : s.Recalls h) {j : ScopeId} (hj : j < s.scopes.size) : (s.addCopy j).2.Recalls (.copy j :: h) := by
  have hbinding : ∀ i name, binding (.copy j :: h) i name = if i = History.size h then (s.scope j).get? name else binding h i name := by
    intro i name
    rw [hs.bindings j name, binding]
  exact hs.add ⟨hs.size ▸ hj, hs.sound⟩ rfl (hs.closed j) (fun o hmem => hs.outer_lt_size hmem) (hs.enclosing j) hbinding fun _ => rfl

theorem set (hs : s.Recalls h) {j : ScopeId} (hj : j < s.scopes.size) (n : String) {v : Value} (hv : v.Within s.scopes.size) :
    (s.set j n v).Recalls (.set j n v :: h) := by
  refine ⟨⟨hs.size ▸ hj, hs.sound⟩, hs.closed.set j n hv, ?_, fun i name => ?_, fun i => ?_⟩
  · rw [size_set, hs.size]
    rfl
  · rw [scope_set, binding, ← hs.bindings i name]
    by_cases hi : i = j
    · subst hi
      rw [if_pos ⟨rfl, hj⟩, Scope.get?_set]
      simp only [true_and]
    · rw [if_neg fun hij => hi hij.1, if_neg fun hij => hi hij.1]
  · have hchain : (s.set j n v).chain = s.chain := funext (chain_set s j n v)
    have hself := chain_set s j n v i
    rw [chain, chain, List.cons.injEq] at hself
    rw [hself.2, hchain]
    exact hs.enclosing i

/-- The way outwards is what a store has as the chain of a scope: by induction on the number of the scope, since the scope that it was
made in has a smaller one. -/
theorem chain (hs : s.Recalls h) (i : ScopeId) : Chain h i (s.chain i) := by
  induction i using Nat.strongRecOn with
  | ind i ih =>
    rw [Store.chain, hs.enclosing i]
    cases ho : outer h i with
    | none => exact .root ho
    | some o => exact .inside ho (ih o (outer_lt hs.sound ho).1)

/-- What evaluation writes down is a history. -/
theorem writes {w w' : World} {h' : History} (hs : w.store.Recalls h) (hw : w.Writes h' w') : w'.store.Recalls (h' ++ h) := by
  induction hw with
  | none => exact hs
  | inside _ ho ih => exact ih.inside ho
  | set _ hj hv ih => exact ih.set hj _ hv
  | function ps b scope _ ih => exact ⟨ih.sound, ih.closed, ih.size, ih.bindings, ih.enclosing⟩
  | note _ _ ih => exact ih

end Recalls

end Store

theorem History.Makes.recalls {h : History} {w : World} (hw : h.Makes w) : w.store.Recalls h := by
  induction hw with
  | start => exact .empty
  | root _ ih => exact ih.root
  | inside _ ho ih => exact ih.inside ho
  | copy _ hj ih => exact ih.copy hj
  | set _ hj hv ih => exact ih.set hj _ hv
  | evaluated _ _ _ hwrites ih => exact ih.writes hwrites

/-! ## Lookup -/

/-- A scope and its copy, from the moment on when it is made. -/
structure Store.Copied (s : Store) (original copy : ScopeId) : Prop where
  there : original < s.scopes.size ∧ copy < s.scopes.size
  enclosing : (s.scope copy).enclosing = (s.scope original).enclosing
  /-- What is bound in one of the two is not seen from the other one. -/
  apart (name other : String) (v : Value) : (s.set original name v).get? copy other = s.get? copy other ∧
    (s.set copy name v).get? original other = s.get? original other
  /-- What is bound in a scope around both is seen from both, unless the name is bound nearer. -/
  shared {o : ScopeId} {before after : List ScopeId} {name : String} (v : Value) :
    (s.scope original).enclosing = before ++ o :: after → (∀ k ∈ original :: copy :: before, (s.scope k).get? name = none) →
    (s.set o name v).get? original name = some v ∧ (s.set o name v).get? copy name = some v

/-- What a history says of the scopes in the world that it has made. -/
structure Scoped (h : History) (w : World) : Prop where
  size : w.store.scopes.size = History.size h
  /-- The functions bound were made in scopes that are there. -/
  closed : w.store.Closed
  /-- A name is looked up in the scopes on the way outwards. It comes to an end, and through no scope twice. -/
  chain (i : ScopeId) : Chain h i (w.store.chain i) ∧ (w.store.chain i).Pairwise (· > ·)
  /-- The way outwards from a scope stays the same whatever happens later. -/
  kept {h' : History} {w' : World} : Makes (h' ++ h) w' → ∀ i < w.store.scopes.size, w'.store.chain i = w.store.chain i
  /-- A name has the value bound to it last in the nearest scope that binds it. -/
  found {i : ScopeId} {name : String} {v : Value} : w.store.get? i name = some v ↔ ∃ before j after,
    w.store.chain i = before ++ j :: after ∧ binding h j name = some v ∧ ∀ k ∈ before, binding h k name = none
  missing {i : ScopeId} {name : String} : w.store.get? i name = none ↔ ∀ j ∈ w.store.chain i, binding h j name = none
  /-- What is bound in a scope is seen from every scope that it is on the way outwards from, unless the name is bound nearer. -/
  seen {i o : ScopeId} {before after : List ScopeId} {name : String} (v : Value) : i < w.store.scopes.size →
    w.store.chain i = before ++ o :: after → (∀ k ∈ before, binding h k name = none) → (w.store.set o name v).get? i name = some v
  unseen {i o : ScopeId} {name other : String} (v : Value) : o ∉ w.store.chain i ∨ other ≠ name →
    (w.store.set o name v).get? i other = w.store.get? i other
  copied {h₀ h' : History} {original : ScopeId} : h = h' ++ .copy original :: h₀ → w.store.Copied original (History.size h₀)
  /-- Evaluating a program in a scope that is there goes on with the history, whatever comes of it. -/
  evaluated {limit : Nat} {scope : ScopeId} {p : Program} {v : Value} {w' : World} : scope < w.store.scopes.size →
    p.eval limit scope w = some (v, w') → v.Within w'.store.scopes.size ∧ ∃ h', w.Writes h' w' ∧ Makes (h' ++ h) w'

namespace Store

variable {s : Store} {i o : ScopeId} {name other : String}

theorem get?_eq_none_iff : s.get? i name = none ↔ ∀ j ∈ s.chain i, (s.scope j).get? name = none := List.findSome?_eq_none_iff

theorem get?_eq_some_iff {v : Value} : s.get? i name = some v ↔ ∃ before j after,
    s.chain i = before ++ j :: after ∧ (s.scope j).get? name = some v ∧ ∀ k ∈ before, (s.scope k).get? name = none :=
  List.findSome?_eq_some_iff

theorem get?_scope_set_self (h : o < s.scopes.size) (v : Value) : ((s.set o name v).scope o).get? name = some v := by
  rw [scope_set, if_pos ⟨rfl, h⟩, Scope.get?_set, if_pos rfl]

theorem get?_scope_set_ne {k : ScopeId} (h : k ≠ o ∨ other ≠ name) (v : Value) :
    ((s.set o name v).scope k).get? other = (s.scope k).get? other := by
  rw [scope_set]
  split
  · next hk => rw [Scope.get?_set, if_neg (h.resolve_left fun hne => hne hk.1)]
  · rfl

/-- A binding that is not on the way outwards is not seen. -/
theorem get?_set_of_notMem (h : o ∉ s.chain i ∨ other ≠ name) (v : Value) : (s.set o name v).get? i other = s.get? i other := by
  unfold get?
  rw [chain_set]
  exact List.findSome?_congr fun k hk => get?_scope_set_ne (h.imp_left fun hnot hko => hnot (hko ▸ hk)) v

namespace Recalls

variable {h : History}

theorem falling (hs : s.Recalls h) (i : ScopeId) : (s.chain i).Pairwise (· > ·) ∧ ∀ j ∈ s.chain i, j ≤ i :=
  (hs.chain i).falling hs.sound

/-- A binding on the way outwards is seen, unless the name is bound nearer. -/
theorem get?_set (hs : s.Recalls h) (hi : i < s.scopes.size) {before after : List ScopeId} (hchain : s.chain i = before ++ o :: after)
    (hbefore : ∀ k ∈ before, (s.scope k).get? name = none) (v : Value) : (s.set o name v).get? i name = some v := by
  obtain ⟨hfalling, hle⟩ := hs.falling i
  rw [hchain] at hfalling hle
  have ho : o < s.scopes.size := Nat.lt_of_le_of_lt (hle o (by simp)) hi
  rw [get?_eq_some_iff]
  refine ⟨before, o, after, (chain_set s o name v i).trans hchain, get?_scope_set_self ho v, fun k hk => ?_⟩
  have hne : k ≠ o := Nat.ne_of_gt ((List.pairwise_append.mp hfalling).2.2 k hk o List.mem_cons_self)
  rw [get?_scope_set_ne (.inl hne)]
  exact hbefore k hk

/-- A copy stands where the original does. -/
theorem enclosing_copy {h' h₀ : History} (hs : s.Recalls (h' ++ .copy i :: h₀)) :
    (s.scope (History.size h₀)).enclosing = (s.scope i).enclosing := by
  have hi : i < History.size h₀ := hs.sound.of_append.1
  have hcopy : outer (h' ++ .copy i :: h₀) (History.size h₀) = outer h₀ i :=
    (outer_append h' (Nat.lt_succ_self _)).trans (if_pos rfl)
  have horiginal : outer (h' ++ .copy i :: h₀) i = outer h₀ i :=
    (outer_append h' (Nat.lt_succ_of_lt hi)).trans (if_neg (Nat.ne_of_lt hi))
  rw [hs.enclosing, hs.enclosing, hcopy, horiginal]

theorem copied {h' h₀ : History} (hs : s.Recalls (h' ++ .copy i :: h₀)) : s.Copied i (History.size h₀) := by
  have hi : i < History.size h₀ := hs.sound.of_append.1
  have hcopy : History.size h₀ < s.scopes.size := by
    rw [hs.size]
    exact size_le_append h' (.copy i :: h₀)
  have hthere : i < s.scopes.size := Nat.lt_trans hi hcopy
  have henclosing := hs.enclosing_copy
  -- the scopes around both are older than the original, and the original is older than the copy
  have holder : ∀ j ∈ (s.scope i).enclosing, j < i := fun j hj => (List.pairwise_cons.mp (hs.falling i).1).1 j hj
  have hnotOriginal : History.size h₀ ∉ s.chain i := fun hmem => absurd ((hs.falling i).2 _ hmem) (Nat.not_le.mpr hi)
  have hnotCopy : i ∉ s.chain (History.size h₀) := by
    rw [Store.chain, henclosing, List.mem_cons]
    exact not_or.mpr ⟨Nat.ne_of_lt hi, fun hmem => absurd (holder i hmem) (Nat.lt_irrefl i)⟩
  refine ⟨⟨hthere, hcopy⟩, henclosing, fun name other v => ?_, fun {o before after name} v hchain hbefore => ?_⟩
  · exact ⟨get?_set_of_notMem (.inl hnotCopy) v, get?_set_of_notMem (.inl hnotOriginal) v⟩
  · rw [List.forall_mem_cons, List.forall_mem_cons] at hbefore
    have horiginal : s.chain i = (i :: before) ++ o :: after := congrArg (List.cons i) hchain
    have hcopy' : s.chain (History.size h₀) = (History.size h₀ :: before) ++ o :: after :=
      congrArg (List.cons _) (henclosing.trans hchain)
    exact ⟨hs.get?_set hthere horiginal (List.forall_mem_cons.mpr ⟨hbefore.1, hbefore.2.2⟩) v,
      hs.get?_set hcopy hcopy' (List.forall_mem_cons.mpr hbefore.2) v⟩

end Recalls

end Store

/-- After any history, a name has the value that was bound to it last in the nearest scope that binds it, on a way outwards that was
decided when the scope was made. -/
theorem History.Makes.scoped {h : History} {w : World} (hw : h.Makes w) : Scoped h w where
  size := hw.recalls.size
  closed := hw.recalls.closed
  chain i := ⟨hw.recalls.chain i, (hw.recalls.falling i).1⟩
  kept {h' w'} hw' i hi := by
    rw [hw.recalls.size] at hi
    exact (hw'.recalls.chain i).unique ((hw.recalls.chain i).append hw.recalls.sound hi h')
  found {i name v} := by
    simp only [← hw.recalls.bindings]
    exact Store.get?_eq_some_iff
  missing {i name} := by
    simp only [← hw.recalls.bindings]
    exact Store.get?_eq_none_iff
  seen {i o before after name} v hi hchain hbefore := by
    simp only [← hw.recalls.bindings] at hbefore
    exact hw.recalls.get?_set hi hchain hbefore v
  unseen v ho := Store.get?_set_of_notMem ho v
  copied := by
    rintro h₀ h' original rfl
    exact hw.recalls.copied
  evaluated hscope heval := by
    obtain ⟨⟨h', hwrites⟩, hv⟩ := Eval.eval_writes hw.recalls.closed hscope heval
    exact ⟨hv, h', hwrites, .evaluated hw hscope heval hwrites⟩

/-- A root where `x` is bound, a scope inside it, and a copy of that one. -/
def copiedWorld : World := ⟨((Store.empty.addRoot.2.set 0 "x" (.int 1)).addInside 0).2.addCopy 1 |>.2, #[]⟩

theorem makes_copiedWorld : History.Makes [.copy 1, .inside 0, .set 0 "x" (.int 1), .root] copiedWorld := by
  have hv : (Value.int 1).IsData := trivial
  exact .copy (.inside (.set (.root .start) (by decide) hv.within) (by decide)) (by decide)

/-- A text that makes a function and calls it. -/
def enclosedText : String := "let y = x; let f = fn(n) \x7b let m = n; m + x \x7d; f(y)"

/-- The text is evaluated in the copy, so its function is made there, and the call has a scope inside it. -/
theorem scoped_copied : ∃ v w h, (parse enclosedText).program.eval 2 2 copiedWorld = some (v, w) ∧
    History.Makes (h ++ [.copy 1, .inside 0, .set 0 "x" (.int 1), .root]) w ∧
    Scoped (h ++ [.copy 1, .inside 0, .set 0 "x" (.int 1), .root]) w := by
  have hends : ((parse enclosedText).program.eval 2 2 copiedWorld).isSome := by decide +kernel
  obtain ⟨⟨v, w⟩, hw⟩ := Option.isSome_iff_exists.mp hends
  obtain ⟨-, h, -, hmakes⟩ := makes_copiedWorld.scoped.evaluated (by decide) hw
  exact ⟨v, w, h, hw, hmakes, hmakes.scoped⟩

end Scriptlet
