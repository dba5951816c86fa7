import Scriptlet.Proofs.Evaluation.Frame
import Scriptlet.Proofs.Evaluation.Locality
import Scriptlet.Proofs.Evaluation.Sequence
import Scriptlet.Proofs.Spelling.Braces

/-!
# Running texts one by one

Two texts with a newline between them have one and the same outcome whether they are run at once or one after the other, if the first
one ends with a semicolon and both are read without a diagnostic. If the first one does not complete, the second one is not reached when
both are run at once: what comes of it is what comes of the first one alone, and what was bound until then stays bound
(`run_resumes`).

The functions that the second text makes keep tokens of other lines if both are run at once; there is no other difference.
-/

namespace Scriptlet

/-- The code on the right may be that on the left some lines below. All names have the same values. -/
def Likeness.lines (n : Nat) : Likeness := ⟨fun _ => True, fun tok => tok = id ∨ tok = Token.move (Pos.down n)⟩

/-- Every scope and every function keeps its number. -/
def Renaming.same : Renaming := ⟨Eq, Eq, ⟨fun _ _ _ ha hb => ha.trans hb.symm, fun _ _ _ ha hb => ha.symm.trans hb⟩⟩

variable {K : Likeness}

theorem Value.alike_refl (ht : K.tokens id) (hn : ∀ name, K.names name) (v : Value) : v.Alike K .same v :=
  Value.alike_self fun _ _ => Likeness.alike_closure rfl rfl (fun _ _ => hn _) ht

theorem Store.paired_refl (ht : K.tokens id) (hn : ∀ name, K.names name) (s : Store) : s.Paired K .same s := by
  refine ⟨⟨?_, ?_, ?_, ?_⟩, fun _ => rfl, fun _ => rfl⟩
  · rintro i _ rfl
    unfold InStep
    omega
  · rintro i _ rfl
    unfold InStep
    omega
  · rintro i _ rfl
    exact List.forall₂_same.mpr fun _ _ => rfl
  · rintro i _ rfl name -
    rcases (s.scope i).get? name with _ | v
    · exact .none
    · exact .some (v.alike_refl ht hn)

/-! ## Texts behind other ones -/

/-- What the first statements have bound is there when the others end. -/
theorem Stmt.frame_of_append {limit : Nat} {scope : ScopeId} {before after : List Stmt} {last v : Value} {w w₁ w' : World}
    {x : Except Unwind Value} (hbefore : Stmt.evalAll (applyWithin limit) scope last before w = some (.ok v, w₁))
    (h : Stmt.evalAll (applyWithin limit) scope last (before ++ after) w = some (x, w')) :
    w₁.store.Frame scope (Stmt.targetsAll after) w'.store := by
  rw [Stmt.evalAll_append, Eval.bind_apply, hbefore] at h
  exact Eval.stmts_frame h

namespace Session

/-- The end of a run, from that of its statements. -/
def ended (s : Session) (x : Except Unwind Value × World) : Except Rejection Value × Session :=
  (.ok (Outcome.value x.1), { s with world := noteFailure (Outcome.value x.1) x.2 })

/-- A text without diagnostics is run by evaluating its statements. -/
theorem run_eq_map (limit : Nat) {text : String} (s : Session) (h : (parse text).diagnostics = []) :
    s.run limit text = (Stmt.evalAll (applyWithin limit) s.root .null (parse text).program.statements s.world).map s.ended := by
  unfold run
  dsimp only
  rw [h, Program.eval_eq_map, Option.map_map]
  rfl

/-- Two ends of runs: values that are the same but for the lines of the tokens in functions, and sessions whose bindings are. -/
structure SameEnd (n : Nat) (x y : Except Rejection Value × Session) : Prop where
  value : ∃ v u, x.1 = .ok v ∧ y.1 = .ok u ∧ v.Alike (.lines n) .same u
  root : y.2.root = x.2.root
  bindings (name : String) : Option.Rel (Value.Alike (.lines n) .same)
    ((x.2.world.store.scope x.2.root).get? name) ((y.2.world.store.scope y.2.root).get? name)
  stores : x.2.world.store.Alike (.lines n) .same y.2.world.store

/-- What comes of running a text and then another one, and of running both at once. -/
structure Resumes (limit : Nat) (s : Session) (s₁ s₂ : String) : Prop where
  /-- If the statements of the first text have a value, the second text goes on where the first one ends. -/
  completed {v : Value} {w : World} :
    Stmt.evalAll (applyWithin limit) s.root .null (parse s₁).program.statements s.world = some (.ok v, w) →
    s.run limit s₁ = some (.ok v, { s with world := w }) ∧
      Option.Rel (SameEnd (s₁.toList.count '\n' + 1)) (run limit s₂ { s with world := w }) (s.run limit (s₁ ++ "\n" ++ s₂))
  /-- If they leave, by a fault or a return, the second text is not reached. -/
  stopped {u : Unwind} {w : World} :
    Stmt.evalAll (applyWithin limit) s.root .null (parse s₁).program.statements s.world = some (.error u, w) →
    s.run limit s₁ = some (.ok u.value, { s with world := noteFailure u.value w }) ∧ s.run limit (s₁ ++ "\n" ++ s₂) = s.run limit s₁
  /-- If they do not end, both texts do not end. -/
  endless : Stmt.evalAll (applyWithin limit) s.root .null (parse s₁).program.statements s.world = none →
    s.run limit s₁ = none ∧ s.run limit (s₁ ++ "\n" ++ s₂) = none
  /-- However the first text ends, what its first statements have bound stays bound, and a name keeps its value unless the other
  statements bind it again. -/
  kept {before after : List Stmt} {v : Value} {w : World} {r : Except Rejection Value} {s' : Session} :
    (parse s₁).program.statements = before ++ after →
    Stmt.evalAll (applyWithin limit) s.root .null before s.world = some (.ok v, w) → s.run limit s₁ = some (r, s') →
    w.store.Frame s.root (Stmt.targetsAll after) s'.world.store

/-- A value of statements that are evaluated in a plain world is not an error, so no failure is written down. -/
theorem noteFailure_of_plain {limit : Nat} {scope : ScopeId} {ss : List Stmt} {w w' : World} {v : Value} (hw : w.store.Plain)
    (h : Stmt.evalAll (applyWithin limit) scope .null ss w = some (.ok v, w')) : noteFailure v w' = w' := by
  have hv : v.Plain := (Eval.stmts_plain hw h).1
  unfold noteFailure
  rw [hv.isError]
  rfl

/-- Running the statements of a text, and those of the same text in other lines behind some value. -/
theorem sameEnd_of_move (limit n : Nat) {ss : List Stmt} (hne : ss ≠ []) (v : Value) (s : Session) :
    Option.Rel (SameEnd n) ((Stmt.evalAll (applyWithin limit) s.root .null ss s.world).map s.ended)
      ((Stmt.evalAll (applyWithin limit) s.root v (ss.map (Stmt.move (Pos.down n))) s.world).map s.ended) := by
  have hknows : Likeness.Knows (.lines n) (Stmt.nodesAll ss) := fun _ _ => trivial
  have hpairs := Eval.stmts_pair (Eval.applyWithin_pairs (.lines n) .same limit) (Or.inr rfl) (rfl : s.root = s.root) ss .null hknows
  rw [Stmt.mapAllTokens_eq_map] at hpairs
  rw [Stmt.evalAll_of_ne_nil (fun h => hne (List.map_eq_nil_iff.mp h)) v .null]
  refine Option.rel_map (hpairs s.world s.world (s.world.store.paired_refl (Or.inl rfl) fun _ => trivial)) fun x y hxy => ?_
  have hstores : (s.ended x).2.world.store.Alike (.lines n) .same (s.ended y).2.world.store := by
    unfold ended
    rw [store_noteFailure, store_noteFailure]
    exact hxy.2.toAlike
  exact ⟨⟨_, _, rfl, rfl, hxy.1.value⟩, rfl, fun name => hstores.bindings rfl name trivial, hstores⟩

/-- Where no error and no returned value is bound, it makes no difference whether a text that ends with a semicolon is run together with
a text that has a statement, or before it. -/
theorem run_resumes (limit : Nat) {s : Session} {s₁ s₂ : String} (hs : s.world.store.Plain) (h₁ : (parse s₁).diagnostics = [])
    (hlast : ∃ t ∈ (Lexer.ofText s₁).tokens.getLast?, t.kind = .semicolon) (h₂ : (parse s₂).diagnostics = [])
    (hne : (parse s₂).program.statements ≠ []) : Resumes limit s s₁ s₂ := by
  have hboth : parse (s₁ ++ "\n" ++ s₂) = (parse s₁).followedBy ((parse s₂).move (Pos.down (s₁.toList.count '\n' + 1))) :=
    parseTraced_lines Tracer.silent () hlast (parse_balanced h₁)
  have hquiet : (parse (s₁ ++ "\n" ++ s₂)).diagnostics = [] := by
    rw [hboth]
    show (parse s₁).diagnostics ++ (parse s₂).diagnostics.map _ = []
    rw [h₁, h₂]
    rfl
  have hstatements : (parse (s₁ ++ "\n" ++ s₂)).program.statements = (parse s₁).program.statements ++
      (parse s₂).program.statements.map (Stmt.move (Pos.down (s₁.toList.count '\n' + 1))) := by
    rw [hboth]
    rfl
  have hfirst := run_eq_map limit s h₁
  have hwhole := run_eq_map limit s hquiet
  rw [hstatements, Stmt.evalAll_append, Eval.bind_apply] at hwhole
  refine ⟨fun {v w} hv => ?_, fun {u w} hu => ?_, fun hnone => ?_, fun {before after v w r s'} hsplit hbefore hrun => ?_⟩
  · rw [hv] at hfirst hwhole
    refine ⟨?_, ?_⟩
    · rw [hfirst]
      show some (Except.ok v, { s with world := noteFailure v w }) = _
      rw [noteFailure_of_plain hs hv]
    · rw [hwhole, run_eq_map limit { s with world := w } h₂]
      exact sameEnd_of_move limit _ hne v { s with world := w }
  · rw [hu] at hfirst hwhole
    exact ⟨hfirst, hwhole.trans hfirst.symm⟩
  · rw [hnone] at hfirst hwhole
    exact ⟨hfirst, hwhole⟩
  · rw [hfirst, Option.map_eq_some_iff] at hrun
    obtain ⟨⟨x, w'⟩, hx, heq⟩ := hrun
    cases heq
    rw [hsplit] at hx
    rw [store_noteFailure]
    exact Stmt.frame_of_append hbefore hx

/-- A binding, and a function that reads it. -/
def readerText : String := "let x = 1;\nlet f = fn(n) \x7b n + x \x7d;"

/-- A function that is made by the first text and called by the second one finds what the second one binds. -/
theorem run_resumes_reader : start.world.store.Plain ∧ (parse readerText).diagnostics = [] ∧
    (∃ t ∈ (Lexer.ofText readerText).tokens.getLast?, t.kind = .semicolon) ∧ (parse "let x = 5; f(2)").diagnostics = [] ∧
    (parse "let x = 5; f(2)").program.statements ≠ [] ∧
    (∃ v w, Stmt.evalAll (applyWithin 2) start.root .null (parse readerText).program.statements start.world = some (.ok v, w)) ∧
    Resumes 2 start readerText "let x = 5; f(2)" := by
  have h₁ : (parse readerText).diagnostics = [] := by decide +kernel
  have hlast : ∃ t ∈ (Lexer.ofText readerText).tokens.getLast?, t.kind = .semicolon := by decide +kernel
  have h₂ : (parse "let x = 5; f(2)").diagnostics = [] := by decide +kernel
  have hne : (parse "let x = 5; f(2)").program.statements ≠ [] := by
    have hlength : (parse "let x = 5; f(2)").program.statements.length = 2 := by decide +kernel
    exact List.ne_nil_of_length_pos (by omega)
  have hcompletes : (Stmt.evalAll (applyWithin 2) start.root .null (parse readerText).program.statements start.world).any
      (fun x => x.1.isOk) = true := by
    decide +kernel
  rw [Option.any_eq_true] at hcompletes
  obtain ⟨⟨_ | v, w⟩, hw, hok⟩ := hcompletes
  · cases hok
  · exact ⟨plain_start, h₁, hlast, h₂, hne, ⟨v, w, hw⟩, run_resumes 2 plain_start h₁ hlast h₂ hne⟩

end Session

end Scriptlet
