import Scriptlet.Grammar.Rules

/-!
# What each step of reading does

A step is a function of the reading it starts from. Here, per step, what it gives: nothing if a limit is used up, and else its
result, or `none` where no phrase is found, with the reading after it. A sequence of two steps goes on with the second one only
if the first one has a result.
-/

namespace Scriptlet

variable {σ α β : Type}

namespace Reading

/-- A block that ends at its closing brace notes nothing. -/
theorem closeBlock_of_ne_eof {r : Reading σ} (h : r.current.kind ≠ .eof) : r.closeBlock = { r with depth := r.depth - 1 } :=
  if_neg h

/-- A block that ends with the text notes that. -/
theorem closeBlock_of_eof {r : Reading σ} (h : r.current.kind = .eof) :
    r.closeBlock = { r with
      depth := r.depth - 1
      diagnostics := r.diagnostics.push ⟨.unexpected .rbrace .eof, r.current.pos⟩
      unclosed := r.unclosed + 1 } :=
  if_pos h

end Reading

namespace Step

@[simp] theorem pure_apply (a : α) (r : Reading σ) : (pure a : Step σ α) r = some (a, r) := rfl

@[simp] theorem get_apply (r : Reading σ) : (get : Step σ (Reading σ)) r = some (r, r) := rfl

@[simp] theorem modify_apply (f : Reading σ → Reading σ) (r : Reading σ) : (modify f : Step σ Unit) r = some ((), f r) := rfl

@[simp] theorem exhausted_apply (r : Reading σ) : (Grammar.exhausted : Step σ α) r = none := rfl

/-- The second step starts where the first one stops. -/
theorem bind_apply (p : Step σ α) (f : α → Step σ β) (r : Reading σ) :
    (p >>= f) r = match p r with
      | none => none
      | some (a, r') => f a r' := by
  show Option.bind (p r) _ = _
  rcases p r with _ | ⟨a, r'⟩ <;> rfl

end Step

namespace Parse

@[simp] theorem pure_apply (a : α) (r : Reading σ) : (pure a : Parse σ α) r = some (some a, r) := rfl

@[simp] theorem get_apply (r : Reading σ) : (get : Parse σ (Reading σ)) r = some (some r, r) := rfl

@[simp] theorem modify_apply (f : Reading σ → Reading σ) (r : Reading σ) :
    (modify f : Parse σ Unit) r = some (some (), f r) := rfl

@[simp] theorem failure_apply (r : Reading σ) : (failure : Parse σ α) r = some (none, r) := rfl

@[simp] theorem run_apply (p : Parse σ α) (r : Reading σ) : p.run r = p r := rfl

@[simp] theorem exhausted_apply (r : Reading σ) : (Grammar.exhausted : Parse σ α) r = none := rfl

/-- The second step starts where the first one finds its phrase; nothing follows a phrase that is not found. -/
theorem bind_apply (p : Parse σ α) (f : α → Parse σ β) (r : Reading σ) :
    (p >>= f) r = match p r with
      | none => none
      | some (none, r') => some (none, r')
      | some (some a, r') => f a r' := by
  show Option.bind (p r) _ = _
  rcases p r with _ | ⟨_ | a, r'⟩ <;> rfl

/-- A step that always has a result always finds its phrase. -/
theorem lift_apply (p : Step σ α) (r : Reading σ) :
    (liftM p : Parse σ α) r = (p r).map fun x => (some x.1, x.2) := by
  show Option.bind (p r) _ = _
  rcases p r with _ | ⟨a, r'⟩ <;> rfl

end Parse

namespace Grammar

/-- A refusal notes one diagnostic and finds no phrase. -/
@[simp] theorem refuse_apply (problem : Problem) (pos : Pos) (r : Reading σ) :
    (refuse problem pos : Parse σ α) r = some (none, r.report ⟨problem, pos⟩) := rfl

@[simp] theorem identifier_apply (r : Reading σ) :
    identifier r = some (some ⟨r.current, r.current.literal⟩, r) := rfl

/-- The token that has to follow is moved on to, or a diagnostic stands at the one that follows instead. -/
theorem expect_apply (kind : Kind) (r : Reading σ) :
    expect kind r = if r.following.kind = kind then some (some (), r.advance)
      else some (none, r.report ⟨.unexpected kind r.following.kind, r.following.pos⟩) := by
  simp only [expect, Parse.bind_apply, Parse.get_apply]
  split <;> rfl

theorem skipOver_apply (kind : Kind) (r : Reading σ) :
    skipOver kind r = some (some (), if r.following.kind = kind then r.advance else r) := by
  simp only [skipOver, Parse.bind_apply, Parse.get_apply]
  split <;> rfl

/-- Only the tracer takes part in an announcement. -/
theorem announced_apply (tr : Tracer σ) (phrase : Phrase) (p : Step σ α) (r : Reading σ) :
    announced tr phrase p r = (p { r with trace := tr.enter phrase.name r.trace }).map
      fun x => (x.1, { x.2 with trace := tr.leave phrase.name x.2.trace }) := by
  simp only [announced, Step.bind_apply, Step.modify_apply, Step.pure_apply]
  cases p { r with trace := tr.enter phrase.name r.trace } <;> rfl

theorem traced_apply (tr : Tracer σ) (phrase : Phrase) (p : Parse σ α) (r : Reading σ) :
    traced tr phrase p r = (p { r with trace := tr.enter phrase.name r.trace }).map
      fun x => (x.1, { x.2 with trace := tr.leave phrase.name x.2.trace }) :=
  announced_apply tr phrase p.run r

/-- A tracer that does nothing takes no part in a step. -/
theorem announced_of_idle {tr : Tracer σ} (he : ∀ name s, tr.enter name s = s) (hl : ∀ name s, tr.leave name s = s) (phrase : Phrase)
    (p : Step σ α) : announced tr phrase p = p := by
  funext r
  rw [announced_apply]
  simp only [he, hl]
  exact Option.map_id_apply

/-- The current token says what an operand is. -/
theorem operand_apply (tr : Tracer σ) (n : Nat) (r : Reading σ) :
    operand tr (n + 1) r =
      match r.current.kind with
      | .ident => variableName tr r
      | .int => integerLiteral tr r
      | .float => floatLiteral tr r
      | .string => stringLiteral r
      | .kwTrue | .kwFalse => boolean tr r
      | .bang | .minus => unaryExpression tr (expression tr n) r
      | .lparen => groupedExpression (expression tr n) r
      | .kwIf => conditional tr (expression tr n) (block tr n) r
      | .kwFn => functionLiteral tr (block tr n) n r
      | k => refuse (.noOperand k) r.current.pos r := by
  rw [operand]
  simp only [Parse.bind_apply, Parse.get_apply]
  cases r.current.kind <;> rfl

/-- The current token says what a statement is. -/
theorem statement_apply (tr : Tracer σ) (n : Nat) (r : Reading σ) :
    statement tr (n + 1) r =
      match r.current.kind with
      | .kwLet => letStatement tr (expression tr n) r
      | .kwReturn => returnStatement tr (expression tr n) r
      | .lbrace => (block tr n r).map fun x => (some (.block x.1), x.2)
      | _ => expressionStatement tr (expression tr n) r := by
  rw [statement]
  simp only [Parse.bind_apply, Parse.get_apply]
  by_cases hk : r.current.kind = .lbrace
  · rw [hk]
    simp only [Parse.bind_apply, Parse.lift_apply]
    cases block tr n r <;> rfl
  · cases h : r.current.kind <;> first | rfl | exact absurd h hk

/-- A block takes its first token, its statements and its closing brace. -/
theorem block_apply (tr : Tracer σ) (n : Nat) (r : Reading σ) :
    block tr (n + 1) r = announced tr .blockStatement (fun r => (items tr n r.openBlock).map
      fun x => (⟨r.current, x.1⟩, x.2.closeBlock)) r := by
  have h : block tr (n + 1) = announced tr .blockStatement (do
      let t := (← get).current
      modify Reading.openBlock
      let ss ← items tr n
      modify Reading.closeBlock
      return ⟨t, ss⟩) := by rw [block]
  rw [h]
  congr 1
  funext r
  simp only [Step.bind_apply, Step.get_apply, Step.modify_apply, Step.pure_apply]
  cases items tr n r.openBlock <;> rfl

/-- The statements of a block, one after the other; a statement that is not read is skipped. -/
theorem items_apply (tr : Tracer σ) (n : Nat) (r : Reading σ) :
    items tr (n + 1) r =
      if r.current.kind = .rbrace ∨ r.current.kind = .eof then some ([], r)
      else match statement tr n r with
        | none => none
        | some (some s, r') => (items tr n r'.advance).map fun x => (s :: x.1, x.2)
        | some (none, r') =>
          if r'.resync.current.kind = .rbrace then some ([], r'.resync) else items tr n r'.resync.advance := by
  rw [items]
  simp only [Step.bind_apply, Step.get_apply]
  split
  · rfl
  · rw [Step.bind_apply, Parse.run_apply]
    rcases statement tr n r with _ | ⟨_ | s, r'⟩
    · rfl
    · simp only [Step.bind_apply, Step.modify_apply, Step.get_apply]
      split <;> rfl
    · simp only [Step.bind_apply, Step.modify_apply]
      cases items tr n r'.advance <;> rfl

/-- The statements of a program, one after the other; a statement that is not read is skipped. -/
theorem program_apply (tr : Tracer σ) (n : Nat) (r : Reading σ) :
    program tr (n + 1) r =
      if r.current.kind = .eof then some ([], r)
      else match statement tr n r with
        | none => none
        | some (some s, r') => (program tr n r'.advance).map fun x => (s :: x.1, x.2)
        | some (none, r') => program tr n r'.resync.advance := by
  rw [program]
  simp only [Step.bind_apply, Step.get_apply]
  split
  · rfl
  · rw [Step.bind_apply, Parse.run_apply]
    rcases statement tr n r with _ | ⟨_ | s, r'⟩
    · rfl
    · rfl
    · simp only [Step.bind_apply, Step.modify_apply]
      cases program tr n r'.advance <;> rfl

end Grammar

end Scriptlet
