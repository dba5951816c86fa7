import Scriptlet.Proofs.Reading.Rounds

/-!
# What is announced

Each announced phrase is tried, found or not, and inside it others are tried, one after the other. An `Attempt` keeps the tree of that, and
is what every tracer is told: the phrase starts, all inside it is tried, and it ends (`Attempt.replay`). Every rule tells the tracer a list
of attempts (`attemptsLaw`), so whatever is told is well nested, also where a rule refuses.

A statement tells it exactly one, which the first token says the name of (`Grammar.statement_attempt`), and skipping tells it nothing. So
there is one attempt for each round of the loop over the statements of a program, and the lines that are written on the way are those of
these attempts, each indented by the attempts it is in (`parse_announced`).
-/

namespace Scriptlet

variable {σ α : Type}

/-- The trial of a phrase, found or not, with the trials of the phrases inside it, in their order. -/
structure Attempt where
  phrase : Phrase
  inside : List Attempt

namespace Attempt

mutual

/-- What an attempt does to the state of a tracer. -/
def replay (tr : Tracer σ) : Attempt → σ → σ
  | ⟨phrase, inside⟩, s => tr.leave phrase.name (replayAll tr inside (tr.enter phrase.name s))

/-- What attempts do to the state of a tracer, one after the other. -/
def replayAll (tr : Tracer σ) : List Attempt → σ → σ
  | [], s => s
  | a :: as, s => replayAll tr as (a.replay tr s)

end

/-- A line that starts with a number of tabs. -/
def tabbed (depth : Nat) (text : String) : String := String.ofList (List.replicate depth '\t') ++ text

mutual

/-- The lines of an attempt that is inside a number of others: its start and its end are on one level, what is inside it one deeper. -/
def lines (depth : Nat) : Attempt → List String
  | ⟨phrase, inside⟩ => tabbed depth ("BEGIN " ++ phrase.name) :: linesAll (depth + 1) inside ++ [tabbed depth ("END " ++ phrase.name)]

/-- The lines of attempts, one after the other. -/
def linesAll (depth : Nat) : List Attempt → List String
  | [] => []
  | a :: as => a.lines depth ++ linesAll depth as

end

theorem replayAll_append (tr : Tracer σ) (as bs : List Attempt) (s : σ) :
    replayAll tr (as ++ bs) s = replayAll tr bs (replayAll tr as s) := by
  induction as generalizing s with
  | nil => rfl
  | cons a as ih => exact ih _

mutual

/-- An attempt writes its lines on the level it starts on, and leaves that level as it was. -/
theorem replay_indent (s : IndentTrace) : ∀ a : Attempt,
    a.replay IndentTrace.tracer s = ⟨s.level, s.lines ++ (a.lines s.level).toArray⟩
  | ⟨phrase, inside⟩ => by
    rw [replay, replayAll_indent, lines]
    simp only [IndentTrace.tracer, IndentTrace.line, beginText, endText, tabbed, Nat.add_sub_cancel, IndentTrace.mk.injEq, true_and]
    simp

theorem replayAll_indent (s : IndentTrace) : ∀ as : List Attempt,
    replayAll IndentTrace.tracer as s = ⟨s.level, s.lines ++ (linesAll s.level as).toArray⟩
  | [] => by simp [replayAll, linesAll]
  | a :: as => by
    rw [replayAll, replay_indent s a, replayAll_indent _ as, linesAll]
    simp

end

end Attempt

/-! ## Every rule tells a list of attempts -/

/-- What the tracer is told from one reading to another is a list of attempts. -/
def Reading.Tells (tr : Tracer σ) (r s : Reading σ) : Prop := ∃ as, s.trace = Attempt.replayAll tr as r.trace

namespace Reading.Tells

variable {tr : Tracer σ} {r s t : Reading σ}

theorem nothing (h : s.trace = r.trace) : Tells tr r s := ⟨[], h⟩

theorem trans (h : Tells tr r s) (h' : Tells tr s t) : Tells tr r t := by
  obtain ⟨as, has⟩ := h
  obtain ⟨bs, hbs⟩ := h'
  exact ⟨as ++ bs, by rw [hbs, has, Attempt.replayAll_append]⟩

theorem closeBlock (h : Tells tr r s) : Tells tr r s.closeBlock := by
  refine h.trans (nothing ?_)
  by_cases hk : s.current.kind = .eof
  · rw [closeBlock_of_eof hk]
  · rw [closeBlock_of_ne_eof hk]

end Reading.Tells

/-- If a phrase with attempts inside it is told as attempts again, so is every rule. -/
def tellsLaw (tr tr' : Tracer σ) (h : ∀ (phrase : Phrase) {r s : Reading σ},
    Reading.Tells tr { r with trace := tr'.enter phrase.name r.trace } s →
      Reading.Tells tr r { s with trace := tr'.leave phrase.name s.trace }) : Law tr' where
  Holds _ := Reading.Tells tr
  refl _ := .nothing rfl
  trans := .trans
  advance _ := .nothing rfl
  report _ := .nothing rfl
  announced phrase := h phrase
  resync h _ := h
  block h _ := h.closeBlock

/-- A phrase is one attempt, with those inside it. -/
def attemptsLaw (tr : Tracer σ) : Law tr :=
  tellsLaw tr tr fun phrase _ _ ⟨as, h⟩ => ⟨[⟨phrase, as⟩], congrArg (tr.leave phrase.name) h⟩

/-- A tracer that does nothing with what it is told. -/
def Tracer.idle : Tracer σ := ⟨fun _ s => s, fun _ s => s⟩

/-- Without the phrase around them, there are the attempts inside it. -/
def insideLaw (tr : Tracer σ) : Law (Tracer.idle (σ := σ)) := tellsLaw tr .idle fun _ _ _ h => h

/-! ## A statement is one attempt -/

/-- What a statement is, as far as its first token says. -/
def Kind.statementPhrase : Kind → Phrase
  | .kwLet => .letStatement
  | .kwReturn => .returnStatement
  | .lbrace => .blockStatement
  | _ => .expressionStatement

namespace Grammar

variable {tr : Tracer σ}

/-- The idle tracer takes no part in a parse. -/
theorem traced_idle (phrase : Phrase) (p : Parse σ α) : traced Tracer.idle phrase p = p :=
  announced_of_idle (fun _ _ => rfl) (fun _ _ => rfl) phrase p.run

/-- A phrase is one attempt, if what is inside it is told as attempts. -/
theorem traced_attempt {phrase : Phrase} {p : Parse σ α} {a? : Option α} {r s : Reading σ}
    (hp : ∀ r, (traced Tracer.idle phrase p).Obeys (insideLaw tr) r) (h : traced tr phrase p r = some (a?, s)) :
    ∃ inside, s.trace = Attempt.replay tr ⟨phrase, inside⟩ r.trace := by
  rw [traced_apply] at h
  obtain ⟨⟨b?, u⟩, hu, heq⟩ := Option.map_eq_some_iff.mp h
  cases heq
  rw [← traced_idle phrase p] at hu
  obtain ⟨as, has⟩ := hp _ _ _ hu
  exact ⟨as, congrArg (tr.leave phrase.name) has⟩

/-- A block is one attempt. -/
theorem block_attempt {n : Nat} {b : Block} {r s : Reading σ} (h : block tr n r = some (b, s)) :
    ∃ inside, s.trace = Attempt.replay tr ⟨.blockStatement, inside⟩ r.trace := by
  cases n with
  | zero => simp [block] at h
  | succ n =>
    obtain ⟨ss, u, hi, -, rfl⟩ := block_items h
    have htells : Reading.Tells tr (Reading.openBlock { r with trace := tr.enter Phrase.blockStatement.name r.trace }) u :=
      (rulesObey (attemptsLaw tr) n).items _ ss u hi
    obtain ⟨as, has⟩ := htells.closeBlock
    exact ⟨as, congrArg (tr.leave Phrase.blockStatement.name) has⟩

/-- A statement is one attempt, found or not, at the phrase that its first token says. -/
theorem statement_attempt {n : Nat} {x? : Option Stmt} {r s : Reading σ} (h : statement tr n r = some (x?, s)) :
    ∃ inside, s.trace = Attempt.replay tr ⟨r.current.kind.statementPhrase, inside⟩ r.trace := by
  cases n with
  | zero => simp [statement] at h
  | succ n =>
    -- what is inside the statement is its own rule with an idle tracer, while its expressions still tell what they do
    have he : ∀ {c : Reading σ} {p : Precedence} {r : Reading σ}, (insideLaw tr).course.Starts c r →
        (expression tr n p).Leads ((insideLaw tr).course.Refuses c) ((insideLaw tr).course.Stops c) r :=
      (rulesLead (attemptsLaw tr).course n).expression
    have hat := at_course (insideLaw tr)
    rw [statement_apply] at h
    split at h
    · next hk =>
      rw [hk]
      exact traced_attempt (fun r => Parse.obeys_of_leads (letStatement_leads he (hat r))) h
    · next hk =>
      rw [hk]
      exact traced_attempt (fun r => Parse.obeys_of_leads (returnStatement_leads he (hat r))) h
    · next hk =>
      rw [hk]
      obtain ⟨⟨b, u⟩, hb, heq⟩ := Option.map_eq_some_iff.mp h
      cases heq
      exact block_attempt hb
    · next hlet hreturn hbrace =>
      have hphrase : r.current.kind.statementPhrase = .expressionStatement := by
        unfold Kind.statementPhrase
        split
        · next hk => exact absurd hk hlet
        · next hk => exact absurd hk hreturn
        · next hk => exact absurd hk hbrace
        · rfl
      rw [hphrase]
      exact traced_attempt (fun r => Parse.obeys_of_leads (expressionStatement_leads he (hat r).1)) h

/-- The statements tried on the way through the rounds of a program, each with the one attempt that it is. -/
inductive Tries (tr : Tracer σ) : List Attempt → Reading σ → Reading σ → Prop where
  | none (r : Reading σ) : Tries tr [] r r
  | more {a : Attempt} {as : List Attempt} {r s t : Reading σ} : (programLoop tr).Round r s →
      a.phrase = r.current.kind.statementPhrase → s.trace = a.replay tr r.trace → Tries tr as s t → Tries tr (a :: as) r t

/-- The tracer is told these attempts, and nothing else. -/
theorem Tries.trace {as : List Attempt} {r t : Reading σ} (h : Tries tr as r t) : t.trace = Attempt.replayAll tr as r.trace := by
  induction h with
  | none r => rfl
  | more _ _ htrace _ ih => rw [ih, htrace, Attempt.replayAll]

/-- By induction on the limit, as the rounds are gone through: nothing is told between one statement and the next. -/
theorem program_tries {n : Nat} {ss : List Stmt} {r t : Reading σ} (h : program tr n r = some (ss, t)) :
    ∃ as, Tries tr as r t ∧ t.current.kind = .eof := by
  induction n generalizing r ss with
  | zero => simp [program] at h
  | succ n ih =>
    rw [program_apply] at h
    split at h
    · next hk =>
      cases h
      exact ⟨[], .none _, hk⟩
    · next hk =>
      rcases hs : statement tr n r with _ | ⟨_ | x, s⟩
      · simp [hs] at h
      · simp only [hs] at h
        obtain ⟨inside, htrace⟩ := statement_attempt hs
        obtain ⟨as, htries, hend⟩ := ih h
        exact ⟨⟨_, inside⟩ :: as, .more (.skipped hk hs) rfl htrace htries, hend⟩
      · simp only [hs, Option.map_eq_some_iff, Prod.mk.injEq] at h
        obtain ⟨y, hy, -, rfl⟩ := h
        obtain ⟨inside, htrace⟩ := statement_attempt hs
        obtain ⟨as, htries, hend⟩ := ih hy
        exact ⟨⟨_, inside⟩ :: as, .more (.found hk hs) rfl htrace htries, hend⟩

end Grammar

/-! ## Whole texts -/

/-- The text of the lines is one line after the other. -/
theorem IndentTrace.output_eq_join (s : IndentTrace) : s.output = String.join (s.lines.toList.map (· ++ "\n")) := by
  unfold output String.join
  rw [List.foldl_map, ← Array.foldl_toList]
  simp only [String.append_assoc]

/-- The lines written while a text is read, whatever it is, are those of some attempts: the start and the end of each stand on one level,
with the lines of the attempts inside it, one level deeper, in between. The attempts on the lowest level are the statements of the
program that are tried, one for each, up to the end of the text. Nothing is open in the end. -/
theorem parse_announced (text : String) : ∃ as : List Attempt,
    Grammar.Tries IndentTrace.tracer as ((Lexer.ofText text).reading .empty)
      (((Lexer.ofText text).reading .empty).readAll IndentTrace.tracer).2 ∧
    (((Lexer.ofText text).reading .empty).readAll IndentTrace.tracer).2.current.kind = .eof ∧
    (parseTraced IndentTrace.tracer .empty text).trace = ⟨0, (Attempt.linesAll 0 as).toArray⟩ ∧
    (parseTraced IndentTrace.tracer .empty text).trace.output = String.join ((Attempt.linesAll 0 as).map (· ++ "\n")) := by
  obtain ⟨as, htries, hend⟩ := Grammar.program_tries
    (Reading.readAll_spec IndentTrace.tracer (Lexer.reading_ready (Lexer.ofText text) IndentTrace.empty))
  have htrace : (parseTraced IndentTrace.tracer .empty text).trace = ⟨0, (Attempt.linesAll 0 as).toArray⟩ := by
    have hstart : ((Lexer.ofText text).reading IndentTrace.empty).trace = ⟨0, #[]⟩ := rfl
    have htrace := htries.trace.trans (Attempt.replayAll_indent _ as)
    rw [hstart, Array.empty_append] at htrace
    exact htrace
  exact ⟨as, htries, hend, htrace, by rw [htrace, IndentTrace.output_eq_join]⟩

/-- The second statement is tried up to its missing operand. -/
example : (parseTraced IndentTrace.tracer .empty "1; !").trace.lines = #[
    "BEGIN parse_expression_statement", "\tBEGIN parse_expression", "\t\tBEGIN parse_integer_literal",
    "\t\tEND parse_integer_literal", "\tEND parse_expression", "END parse_expression_statement",
    "BEGIN parse_expression_statement", "\tBEGIN parse_expression", "\t\tBEGIN parse_prefix_expression",
    "\t\t\tBEGIN parse_expression", "\t\t\tEND parse_expression", "\t\tEND parse_prefix_expression",
    "\tEND parse_expression", "END parse_expression_statement"] := by
  decide +kernel

end Scriptlet
