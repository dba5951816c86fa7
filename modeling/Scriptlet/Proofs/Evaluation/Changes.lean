import Scriptlet.Proofs.Evaluation.Locality

/-!
# What evaluation does to scopes

Evaluation does two things to the scopes there are: it makes a scope inside another one, for a call, and it binds a name in a scope. Each
of these is written down (`World.Writes`), and nothing else happens to any scope. The scopes it uses are there, and so is the scope that
a function it binds was made in, provided that this is so when evaluation starts (`eval_writes`), as it is in a session.

So the journal tells when the scopes were what they are in the end: as soon as no event about a scope follows (`World.Writes.split`).
-/

namespace Scriptlet

/-- A change to the scopes there are. -/
inductive Change where
  /-- A scope with nothing around it is made. -/
  | root
  /-- A scope is made inside another one. -/
  | inside (outer : ScopeId)
  /-- A copy of a scope is made. -/
  | copy (original : ScopeId)
  /-- A name is bound in a scope. -/
  | set (scope : ScopeId) (name : String) (value : Value)

/-- The functions that a value carries were made in scopes with numbers below `n`. -/
def Value.Within (n : Nat) (v : Value) : Prop := ∀ f, v.Carries f → f.scope < n

/-- The functions that are bound were made in scopes that are there. -/
def Store.Closed (s : Store) : Prop := ∀ id name v, (s.scope id).get? name = some v → v.Within s.scopes.size

/-- The event is about a scope: one is made, or a name is bound in one. -/
def Event.isChange : Event → Bool
  | opened _ | bound _ _ => true
  | entered _ | exited _ | raised _ | failed _ | rejected _ => false

/-- One world comes from another by some changes, the latest first. Each is written down, and no other event is about a scope. -/
inductive World.Writes (w : World) : List Change → World → Prop where
  | none : World.Writes w [] w
  | inside {cs : List Change} {w' : World} {outer : ScopeId} : World.Writes w cs w' → outer < w'.store.scopes.size →
      World.Writes w (.inside outer :: cs)
        ({ w' with store := (w'.store.addInside outer).2 }.note (.opened w'.store.scopes.size))
  | set {cs : List Change} {w' : World} {scope : ScopeId} {name : String} {v : Value} : World.Writes w cs w' →
      scope < w'.store.scopes.size → v.Within w'.store.scopes.size →
      World.Writes w (.set scope name v :: cs) ({ w' with store := w'.store.set scope name v }.note (.bound scope name))
  /-- Making a function changes no scope. -/
  | function {cs : List Change} {w' : World} (ps : List Identifier) (b : Block) (scope : ScopeId) : World.Writes w cs w' →
      World.Writes w cs { w' with store := (w'.store.addFunction ps b scope).2 }
  | note {cs : List Change} {w' : World} {e : Event} : World.Writes w cs w' → e.isChange = false → World.Writes w cs (w'.note e)

/-! ## Values and stores -/

namespace Value

variable {m n : Nat} {v : Value}

theorem Within.mono (h : v.Within m) (hmn : m ≤ n) : v.Within n := fun f hf => Nat.lt_of_lt_of_le (h f hf) hmn

theorem within_null : null.Within n := nofun

theorem within_error (message : String) : (error message).Within n := nofun

theorem IsData.within (h : v.IsData) : v.Within n := by
  intro f hf
  cases hf with
  | function f => cases h
  | returned hf => cases h

theorem within_function {f : Closure} : (function f).Within n ↔ f.scope < n := by
  refine ⟨fun h => h f (.function f), fun h g hg => ?_⟩
  cases hg
  exact h

end Value

namespace Store

variable {s : Store}

theorem size_addInside (s : Store) (outer : ScopeId) : (s.addInside outer).2.scopes.size = s.scopes.size + 1 :=
  size_add s _

theorem Closed.bound (h : s.Closed) : s.Bound fun v => v.Within s.scopes.size := h

theorem Closed.get? (h : s.Closed) {id : ScopeId} {name : String} {v : Value} (hv : s.get? id name = some v) :
    v.Within s.scopes.size :=
  h.bound.get? hv

theorem Closed.set (h : s.Closed) (id : ScopeId) (name : String) {v : Value} (hv : v.Within s.scopes.size) :
    (s.set id name v).Closed := by
  unfold Closed
  rw [size_set]
  exact h.bound.set id name hv

/-- A new scope binds what a scope that was there binds, or nothing. -/
theorem Closed.add (h : s.Closed) {c : Scope} (hc : ∀ name v, c.get? name = some v → v.Within s.scopes.size) :
    (s.add c).2.Closed := by
  unfold Closed
  rw [size_add]
  exact (h.bound.add hc).imp fun _ hv => hv.mono (Nat.le_succ _)

theorem Closed.addInside (h : s.Closed) (outer : ScopeId) : (s.addInside outer).2.Closed := h.add nofun

end Store

/-- An event that is written down last is the last one, whatever part of the journal it is in. -/
theorem World.note_eq_append {w w' : World} {e : Event} {es fs : List Event}
    (h : (w'.note e).journal.toList = w.journal.toList ++ (es ++ fs)) :
    fs = [] ∨ ∃ gs, fs = gs ++ [e] ∧ w'.journal.toList = w.journal.toList ++ (es ++ gs) := by
  rcases List.eq_nil_or_concat' fs with rfl | ⟨gs, f, rfl⟩
  · exact .inl rfl
  · rw [← List.append_assoc es, ← List.append_assoc] at h
    have hpush : w'.journal.toList ++ [e] = w.journal.toList ++ (es ++ gs) ++ [f] := Array.toList_push.symm.trans h
    obtain ⟨hjournal, hlast⟩ := List.append_inj' hpush rfl
    cases hlast
    exact .inr ⟨gs, rfl, hjournal⟩

namespace World.Writes

variable {w w' w'' : World} {cs cs' : List Change}

theorem trans (h : w.Writes cs w') (h' : w'.Writes cs' w'') : w.Writes (cs' ++ cs) w'' := by
  induction h' with
  | none => exact h
  | inside _ hlt ih => exact .inside ih hlt
  | set _ hlt hv ih => exact .set ih hlt hv
  | function ps b scope _ ih => exact .function ps b scope ih
  | note _ he ih => exact .note ih he

/-- No scope is ever removed. -/
theorem size_le (h : w.Writes cs w') : w.store.scopes.size ≤ w'.store.scopes.size := by
  induction h with
  | none => exact Nat.le_refl _
  | @inside cs w' outer _ _ ih =>
    show _ ≤ (w'.store.addInside outer).2.scopes.size
    rw [Store.size_addInside]
    exact Nat.le_succ_of_le ih
  | @set cs w' scope name v _ _ _ ih =>
    show _ ≤ (w'.store.set scope name v).scopes.size
    rw [Store.size_set]
    exact ih
  | function _ _ _ _ ih => exact ih
  | note _ _ ih => exact ih

theorem closed (h : w.Writes cs w') (hw : w.store.Closed) : w'.store.Closed := by
  induction h with
  | none => exact hw
  | inside _ _ ih => exact ih.addInside _
  | set _ _ hv ih => exact ih.set _ _ hv
  | function _ _ _ _ ih => exact ih
  | note _ _ ih => exact ih

/-- Behind the last event about a scope, all scopes are as they are in the end. -/
theorem split (h : w.Writes cs w') {es fs : List Event} (hes : w'.journal.toList = w.journal.toList ++ (es ++ fs))
    (hfs : ∀ e ∈ fs, e.isChange = false) :
    ∃ w₁, w.Writes cs w₁ ∧ w₁.journal.toList = w.journal.toList ++ es ∧ w₁.store.scopes = w'.store.scopes := by
  induction h generalizing fs with
  | none =>
    obtain ⟨rfl, -⟩ := List.append_eq_nil_iff.mp (List.self_eq_append_right.mp hes)
    exact ⟨w, .none, (List.append_nil _).symm, rfl⟩
  | inside h hlt ih =>
    obtain rfl | ⟨gs, rfl, -⟩ := note_eq_append hes
    · rw [List.append_nil] at hes
      exact ⟨_, .inside h hlt, hes, rfl⟩
    · exact absurd (hfs _ (List.mem_append_right _ List.mem_cons_self)) nofun
  | set h hlt hv ih =>
    obtain rfl | ⟨gs, rfl, -⟩ := note_eq_append hes
    · rw [List.append_nil] at hes
      exact ⟨_, .set h hlt hv, hes, rfl⟩
    · exact absurd (hfs _ (List.mem_append_right _ List.mem_cons_self)) nofun
  | function ps b scope h ih => exact ih hes hfs
  | note h he ih =>
    obtain rfl | ⟨gs, rfl, hgs⟩ := note_eq_append hes
    · rw [List.append_nil] at hes
      exact ⟨_, .note h he, hes, rfl⟩
    · exact ih hgs fun e he => hfs e (List.mem_append_left _ he)

end World.Writes

/-! ## Evaluation -/

namespace Eval

/-- Evaluation in a scope that is there makes changes one by one, and what it returns with carries functions of scopes that are there. -/
def writesCourse (scope : ScopeId) (names : List String) : Course scope names where
  Inv w := scope < w.store.scopes.size ∧ w.store.Closed
  Good w v := v.Within w.store.scopes.size
  Holds u? w w' := (∃ cs, w.Writes cs w') ∧ ∀ u, u? = some u → u.value.Within w'.store.scopes.size
  data h := h.within
  null := Value.within_null
  keep := by
    rintro w w' v ⟨⟨cs, h⟩, -⟩ hv
    exact hv.mono h.size_le
  refl _ := ⟨⟨[], .none⟩, nofun⟩
  trans := by
    rintro u? w w' w'' ⟨⟨cs, h⟩, -⟩ ⟨⟨cs', h'⟩, hu⟩
    exact ⟨⟨cs' ++ cs, h.trans h'⟩, hu⟩
  raise f hw := by
    refine ⟨hw, ⟨[], .note .none rfl⟩, fun u hu => ?_⟩
    cases hu
    exact Value.within_error _
  leave _ hv := by
    refine ⟨⟨[], .none⟩, fun u hu => ?_⟩
    cases hu
    exact hv
  lookup hw hv := hw.2.get? hv
  bind {w _ name v} _ hw hv e := by
    subst e
    have hwrite : w.Writes [.set scope name v] ({ w with store := w.store.set scope name v }.note (.bound scope name)) :=
      .set .none hw.1 hv
    exact ⟨⟨Nat.lt_of_lt_of_le hw.1 hwrite.size_le, hwrite.closed hw.2⟩, ⟨_, hwrite⟩, nofun⟩
  make ps b hw e := by
    subst e
    exact ⟨hw, ⟨⟨[], .function ps b _ .none⟩, nofun⟩, Value.within_function.mpr hw.1⟩

/-- What evaluation has done when it ends, with a value or with a reason for leaving. -/
structure Written (w : World) (x : Except Unwind Value) (w' : World) : Prop where
  writes : ∃ cs, w.Writes cs w'
  result : (Outcome.value x).Within w'.store.scopes.size

theorem Written.closed {w w' : World} {x : Except Unwind Value} (h : Written w x w') (hw : w.store.Closed) : w'.store.Closed := by
  obtain ⟨cs, hcs⟩ := h.writes
  exact hcs.closed hw

variable {scope : ScopeId} {names : List String}

theorem Keeps.written {p : Eval Value} {w w' : World} {x : Except Unwind Value}
    (hp : p.Keeps (writesCourse scope names) (writesCourse scope names).Good w) (h : p w = some (x, w')) : Written w x w' := by
  obtain ⟨-, ⟨hwrites, hu⟩, hv⟩ := hp x w' h
  refine ⟨hwrites, ?_⟩
  cases x with
  | ok v => exact hv v rfl
  | error u => exact hu u rfl

/-- Applying a function of a scope that is there. -/
def AppliesWritten (apply : Closure → List Value → Eval Value) : Prop :=
  ∀ (f : Closure) (args : List Value) (w w' : World) (x : Except Unwind Value), w.store.Closed → f.scope < w.store.scopes.size →
    (∀ v ∈ args, v.Within w.store.scopes.size) → apply f args w = some (x, w') → Written w x w'

theorem AppliesWritten.applies {apply : Closure → List Value → Eval Value} (ha : AppliesWritten apply) :
    AppliesOn (writesCourse scope names) apply := by
  intro f args w hw hf hargs x w' h
  have hwritten := ha f args w w' x hw.2 (Value.within_function.mp hf) hargs h
  obtain ⟨cs, hcs⟩ := hwritten.writes
  refine ⟨⟨Nat.lt_of_lt_of_le hw.1 hcs.size_le, hwritten.closed hw.2⟩, ⟨⟨cs, hcs⟩, fun u hu => ?_⟩, fun v hv => ?_⟩
  · cases x with
    | ok v => cases hu
    | error u' =>
      cases hu
      exact hwritten.result
  · subst hv
    exact hwritten.result

/-- By induction on the limit, since the calls in the body have less of it. The scope of a call is made inside the one that the function
was made in, and it is there when the body is evaluated in it. -/
theorem applyWithin_written (limit : Nat) : AppliesWritten (applyWithin limit) := by
  induction limit with
  | zero => exact nofun
  | succ limit ih =>
    intro f args w w' x hw hf hargs h
    obtain ⟨y, w₁, hy, rfl, rfl⟩ := enter_of_applyWithin h
    have hentered : w.Writes [] (w.note (.entered f.arity)) := .note .none rfl
    have hbody : Written (w.note (.entered f.arity)) y w₁ := by
      rw [enter_apply] at hy
      split at hy
      · have hopen := World.Writes.inside (.none (w := w.note (.entered f.arity))) hf
        have hsize := Store.size_addInside w.store f.scope
        have hinv : (writesCourse w.store.scopes.size (f.names ++ f.body.targets)).Inv _ :=
          ⟨Nat.lt_of_lt_of_eq (Nat.lt_succ_self _) hsize.symm, hopen.closed hw⟩
        have hkeeps := body_keeps ih.applies (List.Subset.refl _) hinv fun v hv => (hargs v hv).mono hopen.size_le
        have hwritten := hkeeps.written hy
        obtain ⟨cs, hcs⟩ := hwritten.writes
        exact ⟨⟨_, hopen.trans hcs⟩, hwritten.result⟩
      · cases hy
        exact ⟨⟨[], .note .none rfl⟩, Value.within_error _⟩
    obtain ⟨cs, hcs⟩ := hbody.writes
    refine ⟨⟨_, .note (hentered.trans hcs) rfl⟩, ?_⟩
    rcases y with (fault | v) | v
    · exact hbody.result
    · exact hbody.result
    · exact hbody.result

/-- Evaluation of a program in a scope that is there makes changes one by one, whatever comes of it. -/
theorem eval_writes {limit : Nat} {p : Program} {w w' : World} {v : Value} (hw : w.store.Closed) (hscope : scope < w.store.scopes.size)
    (h : p.eval limit scope w = some (v, w')) : (∃ cs, w.Writes cs w') ∧ v.Within w'.store.scopes.size := by
  obtain ⟨x, hx, rfl⟩ := Program.eval_eq_some h
  have hinv : (writesCourse scope (Stmt.targetsAll p.statements)).Inv w := ⟨hscope, hw⟩
  have hwritten := (stmts_keep (applyWithin_written limit).applies p.statements Value.within_null (List.Subset.refl _) hinv).written hx
  exact ⟨hwritten.writes, hwritten.result⟩

end Eval

namespace Session

/-- In a session, the root is there, and so are the scopes that functions were made in. -/
theorem Reached.closed {s : Session} (h : s.Reached) : s.root < s.world.store.scopes.size ∧ s.world.store.Closed := by
  induction h with
  | start =>
    refine ⟨Nat.lt_succ_self 0, fun id name v hv => ?_⟩
    rw [scope_start] at hv
    cases hv
  | @run s s' limit text r _ hrun ih =>
    cases r with
    | error e =>
      obtain ⟨-, -, rfl⟩ := run_error hrun
      exact ih
    | ok v =>
      obtain ⟨-, w, hw, rfl⟩ := run_ok hrun
      obtain ⟨⟨cs, hcs⟩, -⟩ := Eval.eval_writes ih.2 ih.1 hw
      rw [store_noteFailure]
      exact ⟨Nat.lt_of_lt_of_le ih.1 hcs.size_le, hcs.closed ih.2⟩

end Session

end Scriptlet
