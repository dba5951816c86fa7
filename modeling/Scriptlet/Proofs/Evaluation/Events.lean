import Scriptlet.Proofs.Evaluation.Law

/-!
# The events of an evaluation

What evaluation writes down is read from left to right, with the calls that are open at each event (`Event.openCalls?`): a call is
entered, and only the innermost one can be left.

The events of an evaluation that goes on to the end, or is left by a return, are steps, and they leave every call that they enter
(`Event.Calm`). Those of an evaluation that fails are steps up to the one event of the failure, and behind it the calls that are still
open are left, the innermost first; nothing else is written down there (`Event.Breaks`). A scope is made only where a call has just been
entered (`Event.OpensInCalls`). So it is for every tree and every application of a function (`Eval.applyWithin_tells`).
-/

namespace Scriptlet

namespace Event

/-- The open calls after an event, each known by its arity and the innermost one first. Only that one can be left. -/
def turn? (calls : List Nat) : Event → Option (List Nat)
  | entered n => some (n :: calls)
  | exited n => if calls.head? = some n then some calls.tail else none
  | opened _ | bound _ _ | raised _ | failed _ | rejected _ => some calls

/-- The open calls after some events, from those that are open before them; there is no answer if a call is left that is not the
innermost one. -/
def openCalls? (calls : List Nat) (es : List Event) : Option (List Nat) := es.foldlM turn? calls

/-- What evaluation does as long as nothing fails: it makes a scope, binds a name, or enters or leaves a call. -/
def isStep : Event → Bool
  | opened _ | bound _ _ | entered _ | exited _ => true
  | raised _ | failed _ | rejected _ => false

/-- Steps that leave every call they enter. -/
structure Calm (es : List Event) : Prop where
  steps : ∀ e ∈ es, e.isStep
  nested : openCalls? [] es = some []

/-- Steps, then a failure, and then the exits of the calls that are still open. -/
def Breaks (f : Fault) (es : List Event) : Prop :=
  ∃ before calls, es = before ++ raised f :: calls.map exited ∧ (∀ e ∈ before, e.isStep) ∧ openCalls? [] before = some calls

/-- Every scope is made for a call: the event right before it is the entry of one. -/
def OpensInCalls (es : List Event) : Prop :=
  ∀ before scope after, es = before ++ opened scope :: after → ∃ n, before.getLast? = some (entered n)

/-! ## Open calls -/

theorem openCalls?_append (calls : List Nat) (es fs : List Event) :
    openCalls? calls (es ++ fs) = (openCalls? calls es).bind fun calls' => openCalls? calls' fs :=
  List.foldlM_append

theorem openCalls?_cons (calls : List Nat) (e : Event) (es : List Event) :
    openCalls? calls (e :: es) = (turn? calls e).bind fun calls' => openCalls? calls' es :=
  List.foldlM_cons

theorem turn?_around {calls calls' : List Nat} {e : Event} (h : turn? calls e = some calls') (outer : List Nat) :
    turn? (calls ++ outer) e = some (calls' ++ outer) := by
  cases e with
  | entered n =>
    cases h
    rfl
  | exited n =>
    cases calls with
    | nil => cases h
    | cons m calls =>
      simp only [turn?, List.head?_cons, Option.some.injEq, List.tail_cons, Option.ite_none_right_eq_some] at h
      simp [turn?, h]
  | opened _ | bound _ _ | raised _ | failed _ | rejected _ =>
    cases h
    rfl

/-- Calls that are open around the events stay open. -/
theorem openCalls?_around {calls calls' : List Nat} {es : List Event} (h : openCalls? calls es = some calls') (outer : List Nat) :
    openCalls? (calls ++ outer) es = some (calls' ++ outer) := by
  induction es generalizing calls with
  | nil =>
    cases h
    rfl
  | cons e es ih =>
    rw [openCalls?_cons] at h ⊢
    obtain ⟨inner, hinner, hrest⟩ := Option.bind_eq_some_iff.mp h
    rw [turn?_around hinner outer]
    exact ih hrest

/-- The exits of the open calls, the innermost first, leave all of them. -/
theorem openCalls?_exits (calls : List Nat) : openCalls? calls (calls.map exited) = some [] := by
  induction calls with
  | nil => rfl
  | cons n calls ih =>
    rw [List.map_cons, openCalls?_cons]
    simpa [turn?] using ih

namespace Calm

variable {es fs : List Event}

theorem nil : Calm [] := ⟨nofun, rfl⟩

theorem append (h : Calm es) (h' : Calm fs) : Calm (es ++ fs) := by
  refine ⟨List.forall_mem_append.mpr ⟨h.steps, h'.steps⟩, ?_⟩
  rw [openCalls?_append, h.nested]
  exact h'.nested

theorem opened (scope : ScopeId) : Calm [.opened scope] := ⟨List.forall_mem_singleton.mpr rfl, rfl⟩

theorem bound (scope : ScopeId) (name : String) : Calm [.bound scope name] := ⟨List.forall_mem_singleton.mpr rfl, rfl⟩

/-- A call is left after what is done in it. -/
theorem call (n : Nat) (h : Calm es) : Calm (.entered n :: (es ++ [.exited n])) := by
  refine ⟨?_, ?_⟩
  · rw [List.forall_mem_cons, List.forall_mem_append, List.forall_mem_singleton]
    exact ⟨rfl, h.steps, rfl⟩
  · have hopen : openCalls? [n] es = some [n] := openCalls?_around h.nested [n]
    rw [openCalls?_cons]
    show openCalls? [n] (es ++ [.exited n]) = some []
    rw [openCalls?_append, hopen]
    exact openCalls?_exits [n]

end Calm

namespace Breaks

variable {f : Fault} {es fs : List Event}

theorem raised (f : Fault) : Breaks f [.raised f] := ⟨[], [], rfl, nofun, rfl⟩

/-- What is done before a failure does not change it. -/
theorem append (h : Calm es) (h' : Breaks f fs) : Breaks f (es ++ fs) := by
  obtain ⟨before, calls, rfl, hsteps, hnested⟩ := h'
  refine ⟨es ++ before, calls, (List.append_assoc _ _ _).symm, List.forall_mem_append.mpr ⟨h.steps, hsteps⟩, ?_⟩
  rw [openCalls?_append, h.nested]
  exact hnested

/-- A failure inside a call goes on outside of it, once the call is left. -/
theorem call (n : Nat) (h : Breaks f es) : Breaks f (.entered n :: (es ++ [.exited n])) := by
  obtain ⟨before, calls, rfl, hsteps, hnested⟩ := h
  refine ⟨.entered n :: before, calls ++ [n], ?_, List.forall_mem_cons.mpr ⟨rfl, hsteps⟩, ?_⟩
  · simp
  · rw [openCalls?_cons]
    exact openCalls?_around hnested [n]

end Breaks

namespace OpensInCalls

variable {es fs : List Event}

theorem of_notMem (h : ∀ scope, .opened scope ∉ es) : OpensInCalls es := by
  intro before scope after heq
  refine absurd ?_ (h scope)
  rw [heq]
  exact List.mem_append_right _ List.mem_cons_self

theorem nil : OpensInCalls [] := of_notMem fun _ => List.not_mem_nil

/-- An event by itself makes no scope, unless it is that. -/
theorem single {e : Event} (he : ∀ scope, .opened scope ≠ e) : OpensInCalls [e] :=
  of_notMem fun scope => mt List.mem_singleton.mp (he scope)

/-- The entry of a call, and the scope for it. -/
theorem call (n : Nat) (scope : ScopeId) : OpensInCalls [.entered n, .opened scope] := by
  intro before scope' after h
  match before, h with
  | [_], h =>
    cases h
    exact ⟨n, rfl⟩
  | _ :: _ :: _, h =>
    injection h with _ h
    injection h with _ h
    exact absurd h.symm (List.append_ne_nil_of_right_ne_nil _ (List.cons_ne_nil _ _))

/-- No scope is made first of all, so the entry before it is among the same events. -/
theorem append (h : OpensInCalls es) (h' : OpensInCalls fs) : OpensInCalls (es ++ fs) := by
  intro before scope after heq
  obtain ⟨more, rfl, hfs⟩ | ⟨more, hes, hmore⟩ := List.append_eq_append_iff.mp heq
  · obtain ⟨n, hn⟩ := h' more scope after hfs
    refine ⟨n, ?_⟩
    rw [List.getLast?_append, hn]
    rfl
  · cases more with
    | nil =>
      obtain ⟨n, hn⟩ := h' [] scope after hmore.symm
      cases hn
    | cons e more =>
      cases hmore
      exact h before scope more hes

end OpensInCalls

/-- What the events say of the reason for leaving, if there is one: a fault breaks them off. -/
def Tells : Option Unwind → List Event → Prop
  | some (.fault f), es => Breaks f es
  | some (.returned _), es | none, es => Calm es

theorem Tells.append {u? : Option Unwind} {es fs : List Event} (h : Calm es) (h' : Tells u? fs) : Tells u? (es ++ fs) := by
  rcases u? with _ | ⟨f | v⟩
  · exact Calm.append h h'
  · exact Breaks.append h h'
  · exact Calm.append h h'

/-- A call passes a fault on, and nothing else. -/
theorem Tells.call {x : Except Unwind Value} {es : List Event} (n : Nat) (h : Tells (Eval.reason? x) es) :
    Tells (Eval.reason? (Eval.atCall x)) (.entered n :: (es ++ [.exited n])) := by
  rcases x with ⟨f | v⟩ | v
  · exact Breaks.call n h
  · exact Calm.call n h
  · exact Calm.call n h

end Event

/-- One world comes from another by writing events down, and these tell why evaluation is left. -/
def World.Tells (u? : Option Unwind) (w w' : World) : Prop :=
  ∃ es, w'.journal.toList = w.journal.toList ++ es ∧ Event.Tells u? es ∧ Event.OpensInCalls es

namespace Eval

/-- Every reason for leaving can be read off the events. -/
def eventLaw (scope : ScopeId) (names : List String) : Law scope names where
  Inv _ := True
  Good _ := True
  Holds := World.Tells
  plain _ := trivial
  refl _ := ⟨[], (List.append_nil _).symm, .nil, .nil⟩
  trans := by
    rintro u? w w' w'' ⟨es, hes, h, hopens⟩ ⟨fs, hfs, h', hopens'⟩
    exact ⟨es ++ fs, by rw [hfs, hes, List.append_assoc], Event.Tells.append h h', hopens.append hopens'⟩
  raise f _ := ⟨trivial, [.raised f], Array.toList_push, .raised f, .single nofun⟩
  leave _ _ := ⟨[], (List.append_nil _).symm, .nil, .nil⟩
  lookup _ _ := trivial
  bind _ _ _ e := by
    subst e
    exact ⟨trivial, [_], Array.toList_push, .bound _ _, .single nofun⟩
  make _ _ _ e := by
    subst e
    exact ⟨trivial, [], (List.append_nil _).symm, .nil, .nil⟩

variable {scope : ScopeId} {names : List String}

theorem Obeys.tells {α : Type} {G : α → Prop} {p : Eval α} (hp : p.Obeys (eventLaw scope names) G) {w w' : World}
    {x : Except Unwind α} (h : p w = some (x, w')) : World.Tells (reason? x) w w' :=
  (hp w x w' trivial h).2.1

/-- The events of applying a function tell why the application is left. -/
def AppliesTold (apply : Closure → List Value → Eval Value) : Prop :=
  ∀ (f : Closure) (args : List Value) (w w' : World) (x : Except Unwind Value), apply f args w = some (x, w') →
    World.Tells (reason? x) w w'

theorem AppliesTold.applies {apply : Closure → List Value → Eval Value} (ha : AppliesTold apply) :
    Applies (eventLaw scope names) apply := by
  intro f args _ w x w' _ h
  exact ⟨trivial, ha f args w w' x h, fun _ _ => trivial⟩

/-- By induction on the limit, since the calls in the body have less of it. A call whose arguments do not fit is entered, fails and
is left; any other one does in between what its body does in a new scope. -/
theorem applyWithin_tells (limit : Nat) : AppliesTold (applyWithin limit) := by
  induction limit with
  | zero => exact nofun
  | succ limit ih =>
    intro f args w w' x h
    have hargs : ∀ v ∈ args, (eventLaw w.store.scopes.size (f.names ++ f.body.targets)).Good v := fun _ _ => trivial
    have hbody := body_obeys ih.applies (List.Subset.refl _) hargs
    obtain ⟨y, w₁, hy, rfl, rfl⟩ := enter_of_applyWithin h
    have hinside : ∃ es, w₁.journal.toList = (w.note (.entered f.arity)).journal.toList ++ es ∧ Event.Tells (reason? y) es ∧
        Event.OpensInCalls (.entered f.arity :: es) := by
      rw [enter_apply] at hy
      split at hy
      · obtain ⟨es, hes, htells, hopens⟩ := hbody.tells hy
        refine ⟨.opened w.store.scopes.size :: es, ?_, Event.Tells.append (.opened _) htells, .append (.call _ _) hopens⟩
        rw [hes]
        simp [World.note]
      · cases hy
        have hentered : Event.OpensInCalls [.entered f.arity] := .single nofun
        exact ⟨[_], Array.toList_push, .raised _, hentered.append (.single nofun)⟩
    obtain ⟨es, hes, htells, hopens⟩ := hinside
    refine ⟨.entered f.arity :: (es ++ [.exited f.arity]), ?_, htells.call f.arity, ?_⟩
    · show (w₁.journal.push _).toList = _
      rw [Array.toList_push, hes]
      simp [World.note]
    · exact hopens.append (.single nofun)

end Eval

end Scriptlet
