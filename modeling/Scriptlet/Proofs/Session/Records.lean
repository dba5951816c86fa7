import Scriptlet.Proofs.Evaluation.Events

/-!
# What the log has of events

The log has a record of each event, in their order, except that the making of a scope and the binding of a name are not reported
(`Event.Log`). So what can be read in the events can be read in the records: which calls are open (`Record.Calls`), that evaluation fails
and for what reason, and what comes before the failure and behind it (`Event.split_filterMap`).
-/

namespace Scriptlet

namespace Record

/-- A function with this number of parameters is entered. -/
def entered (n : Nat) : Record := ⟨.trace, "enter apply_function", [("arity", toString n)]⟩

/-- Such a function is left. -/
def exited (n : Nat) : Record := ⟨.trace, "exit apply_function", [("arity", toString n)]⟩

/-- Evaluation fails, with this text. -/
def raised (message : String) : Record := ⟨.debug, "event", [("message", "evaluation error"), ("message", message)]⟩

/-- A run ends with an error that has this text. -/
def failed (message : String) : Record := ⟨.debug, "event", [("message", "evaluation failed"), ("error", message)]⟩

/-- A text is not run because of this number of mistakes in it. -/
def rejected (count : Nat) : Record := ⟨.debug, "event", [("message", "rejecting input with parse errors"), ("count", toString count)]⟩

/-- A record of a call. -/
def isCall (r : Record) : Bool := r.what == "enter apply_function" || r.what == "exit apply_function"

/-- A record of a failure. -/
def isRaised (r : Record) : Bool := r.fields.head? == some ("message", "evaluation error")

/-- Records of calls that are entered and left, with the calls that are open before them and behind them. Each call is known by its arity,
the innermost one comes first, and only that one can be left. -/
inductive Calls : List Nat → List Record → List Nat → Prop where
  | none (calls : List Nat) : Calls calls [] calls
  | enter {n : Nat} {calls calls' : List Nat} {rs : List Record} : Calls (n :: calls) rs calls' → Calls calls (entered n :: rs) calls'
  | exit {n : Nat} {calls calls' : List Nat} {rs : List Record} : Calls calls rs calls' → Calls (n :: calls) (exited n :: rs) calls'

end Record

namespace Event

/-- The log of events. -/
inductive Log : List Event → List Record → Prop where
  | nil : Log [] []
  | opened {es : List Event} {rs : List Record} (scope : ScopeId) : Log es rs → Log (.opened scope :: es) rs
  | bound {es : List Event} {rs : List Record} (scope : ScopeId) (name : String) : Log es rs → Log (.bound scope name :: es) rs
  | entered {es : List Event} {rs : List Record} (n : Nat) : Log es rs → Log (.entered n :: es) (.entered n :: rs)
  | exited {es : List Event} {rs : List Record} (n : Nat) : Log es rs → Log (.exited n :: es) (.exited n :: rs)
  | raised {es : List Event} {rs : List Record} (f : Fault) : Log es rs → Log (.raised f :: es) (.raised f.message :: rs)
  | failed {es : List Event} {rs : List Record} (m : String) : Log es rs → Log (.failed m :: es) (.failed m :: rs)
  | rejected {es : List Event} {rs : List Record} (n : Nat) : Log es rs → Log (.rejected n :: es) (.rejected n :: rs)

/-- The events that are reported are reported as the log has them. -/
theorem log_filterMap (es : List Event) : Log es (es.filterMap record?) := by
  induction es with
  | nil => exact .nil
  | cons e es ih =>
    cases e with
    | opened scope => exact ih.opened scope
    | bound scope name => exact ih.bound scope name
    | entered n => exact ih.entered n
    | exited n => exact ih.exited n
    | raised f => exact ih.raised f
    | failed m => exact ih.failed m
    | rejected n => exact ih.rejected n

variable {es : List Event} {m : String}

/-- The records of calls say which calls are open. -/
theorem calls_filterMap {calls calls' : List Nat} (h : openCalls? calls es = some calls') :
    Record.Calls calls ((es.filterMap record?).filter Record.isCall) calls' := by
  induction es generalizing calls with
  | nil =>
    cases h
    exact .none _
  | cons e es ih =>
    cases e with
    | entered n => exact .enter (ih h)
    | exited n =>
      rw [openCalls?_cons] at h
      obtain ⟨inner, hturn, h⟩ := Option.bind_eq_some_iff.mp h
      cases calls with
      | nil => cases hturn
      | cons m calls =>
        simp only [turn?, List.head?_cons, Option.some.injEq, List.tail_cons, Option.ite_none_right_eq_some] at hturn
        obtain ⟨rfl, rfl⟩ := hturn
        exact .exit (ih h)
    | opened _ | bound _ _ | raised _ | failed _ | rejected _ => exact ih h

/-- Steps are reported as calls, if at all. -/
theorem isCall_filterMap (h : ∀ e ∈ es, e.isStep) : ∀ r ∈ es.filterMap record?, r.isCall := by
  intro r hr
  obtain ⟨e, he, hr⟩ := List.mem_filterMap.mp hr
  have hstep := h e he
  cases e <;> cases hr <;> first | rfl | cases hstep

theorem record?_eq_raised_iff {e : Event} : e.record? = some (.raised m) ↔ ∃ f, e = .raised f ∧ f.message = m := by
  cases e <;> simp [record?, Record.raised]

/-- A failure is reported with its text, and nothing else is reported as one. -/
theorem raised_mem_filterMap : .raised m ∈ es.filterMap record? ↔ ∃ f, .raised f ∈ es ∧ f.message = m := by
  rw [List.mem_filterMap]
  constructor
  · rintro ⟨e, he, hr⟩
    obtain ⟨f, rfl, hf⟩ := record?_eq_raised_iff.mp hr
    exact ⟨f, he, hf⟩
  · rintro ⟨f, hf, rfl⟩
    exact ⟨_, hf, rfl⟩

/-- So the records around the report of a failure are those of the events around it. -/
theorem split_filterMap {before after : List Record} (h : es.filterMap record? = before ++ .raised m :: after) :
    ∃ f es₀ es₁, es = es₀ ++ .raised f :: es₁ ∧ f.message = m ∧ es₀.filterMap record? = before ∧ es₁.filterMap record? = after := by
  obtain ⟨es₀, es', rfl, rfl, h'⟩ := List.filterMap_eq_append_iff.mp h
  obtain ⟨silent, e, es₁, rfl, hsilent, he, rfl⟩ := List.filterMap_eq_cons_iff.mp h'
  obtain ⟨f, rfl, hf⟩ := record?_eq_raised_iff.mp he
  refine ⟨f, es₀ ++ silent, es₁, (List.append_assoc _ _ _).symm, hf, ?_, rfl⟩
  rw [List.filterMap_append, List.filterMap_eq_nil_iff.mpr hsilent, List.append_nil]

end Event

end Scriptlet
