import Scriptlet.Proofs.Evaluation.Changes
import Scriptlet.Proofs.Evaluation.Made
import Scriptlet.Proofs.Session.Resumed

/-!
# Rejected texts

A text is rejected exactly if it has diagnostics, and then it is as if it had not been there: no scope is changed, whatever has been run
before. So in any history of a session, with all its texts and all their failures, the rejected texts can be left out. What comes of the
accepted ones is the same, and so are all bindings in the end (`Session.reached_steady`); only the journal tells of the others.

A text that fails while it runs is accepted, and nothing is taken back: it binds what its statements bind that complete before the failure,
and nothing else.
-/

namespace Scriptlet

/-! ## Stores that cannot be told apart -/

/-- Two stores with the same scopes, in which all names have the same values. -/
structure Store.Same (s t : Store) : Prop where
  size : t.scopes.size = s.scopes.size
  functions : t.functions = s.functions
  enclosing (i : ScopeId) : (t.scope i).enclosing = (s.scope i).enclosing
  bindings (i : ScopeId) (name : String) : (t.scope i).get? name = (s.scope i).get? name

namespace Store

variable {s t : Store}

theorem Same.refl (s : Store) : s.Same s := ⟨rfl, rfl, fun _ => rfl, fun _ _ => rfl⟩

/-- Every scope and every function corresponds to itself. -/
theorem Same.paired (h : s.Same t) : s.Paired .exact .same t := by
  have hself := s.paired_refl (K := .exact) rfl fun _ => trivial
  refine ⟨⟨?_, ?_, ?_, ?_⟩, fun k => congrArg (· + k) h.size.symm, fun k => congrArg (· + k) h.functions.symm⟩
  · rw [h.size]
    exact hself.scopes
  · rw [h.functions]
    exact hself.functions
  · rintro i _ rfl
    rw [h.enclosing i]
    exact hself.enclosing rfl
  · rintro i _ rfl name hname
    rw [h.bindings i name]
    exact hself.bindings rfl name hname

end Store

theorem Renaming.strict_same : Renaming.same.Strict .exact := ⟨fun h => h, Eq.symm, Eq.symm⟩

theorem Store.Paired.same {s t : Store} (h : s.Paired .exact .same t) : s.Same t where
  size := (h.nextScope 0).symm
  functions := (h.nextFunction 0).symm
  enclosing _ := h.enclosing_eq Renaming.strict_same rfl
  bindings _ _ := h.get?_eq Renaming.strict_same rfl trivial

namespace Session

/-! ## Runs -/

/-- Two sessions that cannot be told apart but for their journals. -/
structure Same (s t : Session) : Prop where
  root : t.root = s.root
  store : s.world.store.Same t.world.store

theorem Same.refl (s : Session) : s.Same s := ⟨rfl, .refl _⟩

/-- Two ends of a run with the same outcome. -/
structure SameRun (x y : Except Rejection Value × Session) : Prop where
  outcome : y.1 = x.1
  session : x.2.Same y.2

/-- A text with diagnostics is rejected with all of them, and only the journal tells of it. -/
theorem run_rejected (limit : Nat) {text : String} (s : Session) (h : (parse text).diagnostics ≠ []) :
    s.run limit text = some (.error ⟨(parse text).diagnostics⟩,
      { s with world := s.world.note (.rejected (parse text).diagnostics.length) }) := by
  unfold run
  dsimp only
  split
  · next hd => exact absurd hd h
  · rfl

/-- What comes of a text that is accepted does not depend on the journal. -/
theorem Same.run {s t : Session} (h : s.Same t) (limit : Nat) {text : String} (hd : (parse text).diagnostics = []) :
    Option.Rel (fun x y => SameRun x y ∧ x.1.isOk) (s.run limit text) (t.run limit text) := by
  rw [run_eq_map limit s hd, run_eq_map limit t hd, h.root]
  have hpairs := Eval.stmts_pair (Eval.applyWithin_pairs .exact .same limit) (rfl : Likeness.exact.tokens id) (rfl : s.root = s.root)
    (parse text).program.statements .null (Likeness.exact_knows _)
  rw [Stmt.mapAllTokens_id] at hpairs
  refine Option.rel_map (hpairs s.world t.world h.store.paired) fun x y hxy => ?_
  obtain ⟨x, w⟩ := x
  obtain ⟨y, w'⟩ := y
  obtain rfl : y = x := hxy.1.eq Renaming.strict_same
  refine ⟨⟨rfl, h.root, ?_⟩, rfl⟩
  unfold ended
  rw [store_noteFailure, store_noteFailure]
  exact hxy.2.same

/-! ## Histories -/

/-- Runs texts one after the other, each with its own limit on the calls that are open at once. -/
def runAll (s : Session) : List (Nat × String) → Option (List (Except Rejection Value) × Session)
  | [] => some ([], s)
  | (limit, text) :: rest => do
    let (r, s) ← s.run limit text
    let (rs, s) ← s.runAll rest
    return (r :: rs, s)

/-- The texts of a history that are read without a diagnostic. -/
def accepted (history : List (Nat × String)) : List (Nat × String) := history.filter fun x => (parse x.2).diagnostics.isEmpty

/-- Two ends of histories, the second one without the rejected texts of the first one: the outcomes of the others are the same. -/
structure SameRuns (x y : List (Except Rejection Value) × Session) : Prop where
  outcomes : y.1 = x.1.filter Except.isOk
  session : x.2.Same y.2

theorem runAll_cons (s : Session) (limit : Nat) (text : String) (rest : List (Nat × String)) :
    s.runAll ((limit, text) :: rest) =
      (s.run limit text).bind fun x => (x.2.runAll rest).map fun y => (x.1 :: y.1, y.2) := by
  rw [runAll]
  rcases s.run limit text with _ | ⟨r, s'⟩
  · rfl
  · show (s'.runAll rest).bind _ = (s'.runAll rest).map _
    rcases s'.runAll rest with _ | y <;> rfl

/-- By induction on the history. The sessions cannot be told apart all the way, though their journals are different. -/
theorem Same.runAll {s t : Session} (h : s.Same t) (history : List (Nat × String)) :
    Option.Rel SameRuns (s.runAll history) (t.runAll (accepted history)) := by
  induction history generalizing s t with
  | nil => exact .some ⟨rfl, h⟩
  | cons x rest ih =>
    obtain ⟨limit, text⟩ := x
    by_cases hd : (parse text).diagnostics = []
    · have hkept : accepted ((limit, text) :: rest) = (limit, text) :: accepted rest :=
        List.filter_cons_of_pos (List.isEmpty_iff.mpr hd)
      rw [hkept, runAll_cons, runAll_cons]
      refine Option.rel_bind (h.run limit hd) fun x y ⟨hxy, hok⟩ => ?_
      refine Option.rel_map (ih hxy.session) fun xs ys hrest => ⟨?_, hrest.session⟩
      rw [List.filter_cons_of_pos hok, hxy.outcome, hrest.outcomes]
    · have hdropped : accepted ((limit, text) :: rest) = accepted rest :=
        List.filter_cons_of_neg fun hempty => hd (List.isEmpty_iff.mp hempty)
      rw [hdropped, runAll_cons, run_rejected limit s hd, Option.bind_some]
      have hsame : Same { s with world := s.world.note (.rejected (parse text).diagnostics.length) } t := ⟨h.root, h.store⟩
      rw [← Option.map_id' (x := t.runAll (accepted rest))]
      exact Option.rel_map (ih hsame) fun xs ys hrest => ⟨hrest.outcomes, hrest.session⟩

/-! ## Reached sessions -/

/-- A text fails: some of its statements complete and the next one fails. What is bound then is what those have bound, and what was bound
inside the one that fails before it did. -/
def Fails (limit : Nat) (s : Session) (text : String) (f : Fault) (s' : Session) : Prop :=
  ∃ before stmt after v w w', (parse text).program.statements = before ++ stmt :: after ∧
    Stmt.evalAll (applyWithin limit) s.root .null before s.world = some (.ok v, w) ∧
    stmt.eval (applyWithin limit) s.root w = some (.error (.fault f), w') ∧ s'.world.store = w'.store ∧
    s.world.store.Binds (Stmt.madeAll (applyWithin limit) (madeWithin limit) s.root before s.world ++
      stmt.made (applyWithin limit) (madeWithin limit) s.root w) s'.world.store

/-- What runs do in a session, and in particular those of texts that are rejected, and of texts that fail. -/
structure Steady (s : Session) : Prop where
  /-- The texts with diagnostics are rejected, and no others. -/
  rejected_iff (limit : Nat) (text : String) : (∃ e s', s.run limit text = some (.error e, s')) ↔ (parse text).diagnostics ≠ []
  /-- A rejection has all diagnostics in their order, and leaves every scope as it is. -/
  rejected {limit : Nat} {text : String} {e : Rejection} {s' : Session} : s.run limit text = some (.error e, s') →
    e.diagnostics = (parse text).diagnostics ∧ s'.root = s.root ∧ s'.world.store = s.world.store
  /-- The rejected texts of a history can be left out. -/
  purged (history : List (Nat × String)) : Option.Rel SameRuns (s.runAll history) (s.runAll (accepted history))
  /-- A text that is accepted binds what its statements bind that complete. -/
  kept {limit : Nat} {text : String} {v : Value} {s' : Session} : s.run limit text = some (.ok v, s') →
    s.world.store.Binds ((parse text).program.made limit s.root s.world) s'.world.store
  /-- An error is a failure of one of the statements. -/
  failed {limit : Nat} {text : String} {v : Value} {s' : Session} : s.run limit text = some (.ok v, s') → v.isError →
    ∃ f, v = .error f.message ∧ Fails limit s text f s'

theorem fails_of_isError {limit : Nat} {s s' : Session} {text : String} {v : Value} (hs : s.Reached)
    (h : s.run limit text = some (.ok v, s')) (hv : v.isError) : ∃ f, v = .error f.message ∧ Fails limit s text f s' := by
  obtain ⟨-, w, hw, rfl⟩ := run_ok h
  have hbinds := Eval.eval_makes hs.closed.1 hw
  obtain ⟨x, hx, rfl⟩ := Program.eval_eq_some hw
  have hplain := (Eval.stmts_plain hs.plain hx).1
  -- neither the value of statements is an error nor a value that is returned
  obtain ⟨f, rfl⟩ : ∃ f, x = .error (.fault f) := by
    rcases x with (f | u) | u
    · exact ⟨f, rfl⟩
    · exact absurd (hv.symm.trans (Value.Plain.isError hplain)) nofun
    · exact absurd (hv.symm.trans (Value.Plain.isError hplain)) nofun
  refine ⟨f, rfl, ?_⟩
  obtain ⟨before, stmt, after, u, w₁, hsplit, hbefore, hstmt, hmade⟩ := Stmt.madeAll_of_error (madeWithin limit) hx
  refine ⟨before, stmt, after, u, w₁, w, hsplit, hbefore, hstmt, store_noteFailure _ _, ?_⟩
  rw [store_noteFailure, ← hmade]
  exact hbinds

/-- A session that runs alone have led to goes on as if the texts that were rejected had not been there, and keeps what was bound by the
statements that completed. -/
theorem reached_steady {s : Session} (hs : s.Reached) : Steady s where
  rejected_iff limit text := by
    refine ⟨fun ⟨e, s', h⟩ => (run_error h).1, fun hd => ⟨_, _, run_rejected limit s hd⟩⟩
  rejected h := by
    obtain ⟨-, rfl, rfl⟩ := run_error h
    exact ⟨rfl, rfl, rfl⟩
  purged := (Same.refl s).runAll
  kept h := by
    obtain ⟨-, w, hw, rfl⟩ := run_ok h
    rw [store_noteFailure]
    exact Eval.eval_makes hs.closed.1 hw
  failed := fails_of_isError hs

/-- A text that binds a name, one that is rejected behind its first statement, and one that fails inside a block. -/
theorem reached_steady_mixed : ∃ s, s.Reached ∧ (∃ e s', s.run 1 "let x = 2; let = 3;" = some (.error e, s')) ∧
    (∃ v s', s.run 1 "\x7b let y = x; let z = nope \x7d" = some (.ok v, s') ∧ v.isError) ∧ Steady s := by
  have hfails : ((start.run 1 "let x = 1;").any fun out => (out.2.run 1 "\x7b let y = x; let z = nope \x7d").any fun out =>
      match out.1 with
      | .ok v => v.isError
      | .error _ => false) = true := by
    decide +kernel
  have hd : (parse "let x = 2; let = 3;").diagnostics ≠ [] := by decide +kernel
  rw [Option.any_eq_true] at hfails
  obtain ⟨⟨r, s⟩, hs, hfails⟩ := hfails
  rw [Option.any_eq_true] at hfails
  obtain ⟨⟨_ | v, s'⟩, hrun, hv⟩ := hfails
  · cases hv
  · have hreached : s.Reached := .run .start hs
    exact ⟨s, hreached, ⟨_, _, run_rejected 1 s hd⟩, ⟨v, s', hrun, hv⟩, reached_steady hreached⟩

end Session

end Scriptlet
