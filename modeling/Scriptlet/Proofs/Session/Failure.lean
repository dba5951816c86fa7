import Mathlib.Data.List.Basic
import Scriptlet.Proofs.Evaluation.Changes
import Scriptlet.Proofs.Session.Records

/-!
# What a run writes down about a failure

The events of a run that has a value are those of an evaluation. If it fails it does so once: behind the event of the failure nothing
is entered, made or bound and nothing else fails, but the calls that are still open are left, the innermost first. The value of the run
is an error exactly if there is such an event, an error with the text of that fault, and then a last event gives this text
(`Event.Unwinds`). All that happens to scopes is among these events (`World.Writes`), so at the failure the scopes are as they are in the
end. The log says the same: its records are calls that are entered and left, and if the run fails, one report of that with the text of the
error, then the exits from the calls that are open there, and a last record with the same text (`Record.Unwinds`). So it is for every run
in a session (`Session.run_unwinds`).

A value of a program may not be an error that a name is bound to. In a session nothing binds a name to an error, as long as only its
runs bind names.
-/

namespace Scriptlet

namespace Event

/-- An event of a failure. -/
def isRaised : Event → Bool
  | raised _ => true
  | _ => false

/-- What the events of a run that has the value `v` say. -/
structure Unwinds (v : Value) (es : List Event) : Prop where
  /-- Every call is left, and an inner one before an outer one. -/
  nested : openCalls? [] es = some []
  /-- A scope is made only where a call is entered. -/
  opens : OpensInCalls es
  countP_isRaised_le : es.countP isRaised ≤ 1
  isError_iff : v.isError ↔ ∃ f, raised f ∈ es
  /-- Without a failure there are steps alone. -/
  steps : (∀ f, raised f ∉ es) → ∀ e ∈ es, e.isStep
  /-- Before a failure there are steps; behind it the open calls are left, and the failure of the run is written down. -/
  failure {f : Fault} {before after : List Event} : es = before ++ raised f :: after →
    v = .error f.message ∧ (∀ e ∈ before, e.isStep) ∧
      ∃ calls, openCalls? [] before = some calls ∧ after = calls.map exited ++ [failed f.message]

variable {es : List Event}

theorem isRaised_of_isStep {e : Event} (h : e.isStep) : e.isRaised = false := by
  cases e <;> first | rfl | cases h

theorem raised_notMem {f : Fault} (h : ∀ e ∈ es, e.isRaised = false) : raised f ∉ es :=
  fun he => absurd (h _ he) nofun

theorem countP_isRaised (h : ∀ e ∈ es, e.isRaised = false) : es.countP isRaised = 0 := by
  rw [List.countP_eq_zero]
  intro e he
  rw [h e he]
  exact nofun

/-- What is left to be done behind a failure. -/
theorem mem_exits {calls : List Nat} {m : String} {e : Event} (h : e ∈ calls.map exited ++ [failed m]) :
    (∃ n, e = exited n) ∨ e = failed m := by
  obtain h | h := List.mem_append.mp h
  · obtain ⟨n, -, rfl⟩ := List.mem_map.mp h
    exact .inl ⟨n, rfl⟩
  · exact .inr (List.mem_singleton.mp h)

theorem isRaised_of_mem_exits {calls : List Nat} {m : String} {e : Event} (h : e ∈ calls.map exited ++ [failed m]) :
    e.isRaised = false := by
  obtain ⟨n, rfl⟩ | rfl := mem_exits h <;> rfl

theorem isChange_of_mem_exits {calls : List Nat} {m : String} {e : Event} (h : e ∈ calls.map exited ++ [failed m]) :
    e.isChange = false := by
  obtain ⟨n, rfl⟩ | rfl := mem_exits h <;> rfl

/-- A run without a failure. -/
theorem Calm.unwinds {v : Value} (h : Calm es) (hopens : OpensInCalls es) (hv : v.isError = false) : Unwinds v es := by
  have hquiet : ∀ e ∈ es, e.isRaised = false := fun e he => isRaised_of_isStep (h.steps e he)
  refine ⟨h.nested, hopens, ?_, ?_, fun _ => h.steps, ?_⟩
  · rw [countP_isRaised hquiet]
    exact Nat.zero_le 1
  · rw [hv]
    exact ⟨nofun, fun ⟨f, hf⟩ => absurd hf (raised_notMem hquiet)⟩
  · intro f before after heq
    refine absurd ?_ (raised_notMem (f := f) hquiet)
    rw [heq]
    exact List.mem_append_right _ List.mem_cons_self

/-- A run with a failure. There is no other failure, so the events can be split at a failure in one way only. -/
theorem Breaks.unwinds {f : Fault} (h : Breaks f es) (hopens : OpensInCalls es) :
    Unwinds (.error f.message) (es ++ [failed f.message]) := by
  have hopens : OpensInCalls (es ++ [failed f.message]) := hopens.append (.single nofun)
  obtain ⟨before, calls, rfl, hsteps, hnested⟩ := h
  have hbefore : ∀ e ∈ before, e.isRaised = false := fun e he => isRaised_of_isStep (hsteps e he)
  have hafter : ∀ e ∈ calls.map exited ++ [failed f.message], e.isRaised = false := fun e => isRaised_of_mem_exits
  rw [List.append_assoc, List.cons_append] at hopens ⊢
  have hmem : Event.raised f ∈ before ++ .raised f :: (calls.map exited ++ [failed f.message]) :=
    List.mem_append_right _ List.mem_cons_self
  refine ⟨?_, hopens, ?_, ⟨fun _ => ⟨f, hmem⟩, fun _ => rfl⟩, fun hnone => absurd hmem (hnone f), ?_⟩
  · rw [openCalls?_append, hnested, Option.bind_some, openCalls?_cons]
    show openCalls? calls (calls.map exited ++ [failed f.message]) = some []
    rw [openCalls?_append, openCalls?_exits]
    rfl
  · refine Nat.le_of_eq ?_
    rw [List.countP_append, countP_isRaised hbefore, List.countP_cons_of_pos rfl, countP_isRaised hafter]
  · intro g before' after' heq
    obtain ⟨rfl, hfault, rfl⟩ :=
      (List.append_cons_inj_of_notMem (raised_notMem hbefore) (raised_notMem hafter)).mp heq
    cases hfault
    exact ⟨rfl, hsteps, calls, hnested, rfl⟩

end Event

/-- What the log records of a run that has the value `v` say. -/
structure Record.Unwinds (v : Value) (rs : List Record) : Prop where
  /-- Every call is left, and an inner one before an outer one. -/
  nested : Calls [] (rs.filter isCall) []
  countP_isRaised_le : rs.countP isRaised ≤ 1
  isError_iff : v.isError ↔ ∃ m, raised m ∈ rs
  /-- Without a failure there are calls alone. -/
  calls : (∀ m, raised m ∉ rs) → Calls [] rs []
  /-- Before a failure there are calls; behind it the open ones are left, and the failure of the run is reported, with the same text. -/
  failure {m : String} {before after : List Record} : rs = before ++ raised m :: after →
    v = .error m ∧ ∃ calls, Calls [] before calls ∧ after = calls.map exited ++ [failed m]

namespace Event

theorem isRaised_record? (e : Event) : (e.record?.map Record.isRaised).getD false = e.isRaised := by
  cases e <;> simp [record?, Record.isRaised, isRaised]

/-- The exits of calls are reported as exits. -/
theorem filterMap_exits (calls : List Nat) (m : String) :
    (calls.map exited ++ [failed m]).filterMap record? = calls.map Record.exited ++ [Record.failed m] := by
  have hexits : record? ∘ exited = some ∘ Record.exited := rfl
  rw [List.filterMap_append, List.filterMap_map, hexits, List.filterMap_eq_map]
  rfl

theorem Unwinds.records {v : Value} {es : List Event} (h : Unwinds v es) : Record.Unwinds v (es.filterMap record?) where
  nested := calls_filterMap h.nested
  countP_isRaised_le := by
    rw [List.countP_filterMap]
    simp only [isRaised_record?]
    exact h.countP_isRaised_le
  isError_iff := by
    rw [h.isError_iff]
    constructor
    · rintro ⟨f, hf⟩
      exact ⟨f.message, raised_mem_filterMap.mpr ⟨f, hf, rfl⟩⟩
    · rintro ⟨m, hm⟩
      obtain ⟨f, hf, -⟩ := raised_mem_filterMap.mp hm
      exact ⟨f, hf⟩
  calls hnone := by
    have hsteps := h.steps fun f hf => hnone f.message (raised_mem_filterMap.mpr ⟨f, hf, rfl⟩)
    have hcalls := calls_filterMap h.nested
    rwa [List.filter_eq_self.mpr (isCall_filterMap hsteps)] at hcalls
  failure heq := by
    obtain ⟨f, es₀, es₁, rfl, rfl, rfl, rfl⟩ := split_filterMap heq
    obtain ⟨hv, hsteps, calls, hopen, rfl⟩ := h.failure rfl
    have hcalls := calls_filterMap hopen
    rw [List.filter_eq_self.mpr (isCall_filterMap hsteps)] at hcalls
    exact ⟨hv, calls, hcalls, filterMap_exits calls f.message⟩

end Event

namespace Session

/-- What a run with a value adds to the journal and to the log. -/
structure Logs (v : Value) (w w' : World) (es : List Event) (rs : List Record) : Prop where
  journal : w'.journal.toList = w.journal.toList ++ es
  log : w'.recordsFrom w.journal.size = rs
  /-- The records are those of the events, in their order. -/
  reported : Event.Log es rs
  events : Event.Unwinds v es
  records : Record.Unwinds v rs
  /-- Scopes are made and names are bound one after the other, and each time there is an event. -/
  changes : ∃ cs, w.Writes cs w'
  /-- When evaluation fails, all scopes are as they are in the end. -/
  settled {f : Fault} {before after : List Event} : es = before ++ .raised f :: after →
    ∃ cs w₁, w.Writes cs w₁ ∧ w₁.journal.toList = w.journal.toList ++ before ∧ w₁.store.scopes = w'.store.scopes

theorem Logs.of_journal {v : Value} {w w' : World} {es : List Event} (h : w'.journal.toList = w.journal.toList ++ es)
    (hes : Event.Unwinds v es) (hw : ∃ cs, w.Writes cs w') : ∃ es rs, Logs v w w' es rs := by
  refine ⟨es, es.filterMap Event.record?, h, ?_, Event.log_filterMap es, hes, hes.records, hw, ?_⟩
  · unfold World.recordsFrom
    rw [h, ← Array.length_toList, List.drop_left]
  · rintro f before after rfl
    obtain ⟨-, -, calls, -, rfl⟩ := hes.failure rfl
    obtain ⟨cs, hcs⟩ := hw
    exact ⟨cs, hcs.split h (List.forall_mem_cons.mpr ⟨rfl, fun e => Event.isChange_of_mem_exits⟩)⟩

/-- In a session that runs alone have led to, the events of a run that has a value, and its log records, tell of one failure at most, and
then the value is that error and nothing happens to a scope any more. -/
theorem run_unwinds {s s' : Session} {limit : Nat} {text : String} {v : Value} (hs : s.Reached)
    (h : s.run limit text = some (.ok v, s')) : ∃ es rs, Logs v s.world s'.world es rs := by
  obtain ⟨-, w, hw, rfl⟩ := run_ok h
  obtain ⟨x, hx, rfl⟩ := Program.eval_eq_some hw
  have hlast : (Eval.eventLaw s.root (Stmt.targetsAll (parse text).program.statements)).Good .null := trivial
  obtain ⟨es, hes, htells, hopens⟩ :=
    (Eval.stmts_obey (Eval.applyWithin_tells limit).applies _ hlast (List.Subset.refl _)).tells hx
  obtain ⟨⟨cs, hcs⟩, -⟩ := Eval.eval_writes hs.closed.2 hs.closed.1 hw
  have hplain := (Eval.stmts_plain hs.plain hx).1
  have calm : ∀ u : Value, u.Plain → Event.Calm es → ∃ es rs, Logs u s.world (noteFailure u w) es rs := by
    intro u hu hcalm
    unfold noteFailure
    rw [hu.isError]
    exact Logs.of_journal hes (hcalm.unwinds hopens hu.isError) ⟨cs, hcs⟩
  rcases x with ⟨f | u⟩ | u
  · show ∃ es rs, Logs (.error f.message) s.world (noteFailure (.error f.message) w) es rs
    refine Logs.of_journal ?_ (Event.Breaks.unwinds htells hopens) ⟨cs, .note hcs rfl⟩
    show (w.journal.push _).toList = _
    rw [Array.toList_push, hes, List.append_assoc]
    rfl
  · exact calm u hplain htells
  · exact calm u hplain htells

/-- The name is not found two calls deep. -/
theorem run_unwinds_unbound : ∃ v s',
    start.run 3 "let f = fn(x) \x7b x + y \x7d; let g = fn(x) \x7b f(x) \x7d; g(1)" = some (.ok v, s') ∧ v.isError ∧
      ∃ es rs, Logs v start.world s'.world es rs := by
  have herror : ((start.run 3 "let f = fn(x) \x7b x + y \x7d; let g = fn(x) \x7b f(x) \x7d; g(1)").any fun out =>
      match out.1 with
      | .ok v => v.isError
      | .error _ => false) = true := by
    decide +kernel
  rw [Option.any_eq_true] at herror
  obtain ⟨⟨r, s'⟩, hrun, hr⟩ := herror
  rcases r with ds | v
  · cases hr
  · exact ⟨v, s', hrun, hr, run_unwinds .start hrun⟩

end Session

end Scriptlet
