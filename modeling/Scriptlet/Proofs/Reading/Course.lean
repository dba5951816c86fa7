import Scriptlet.Grammar.Steps

/-!
# The course of reading

A `Course` says what holds where a phrase starts, its first token being the current one, where a phrase stops, at its last token, where
the statements of a block end, and where a rule refuses after noting a diagnostic. It has to be kept by the few steps that all rules are
made of: reading a token that is no brace, moving on behind a phrase, noting a diagnostic about one of the two tokens in view, announcing
a phrase, reading a block, and skipping the rest of a statement. Then every rule keeps it, whatever the text: a phrase that starts as the
course says stops as it says, or is refused as it says (`Grammar.rulesLead`, `Grammar.program_leads`).

What is said may depend on a context, which is another one inside a block or an announced phrase.
-/

namespace Scriptlet

variable {σ α β : Type}

/-- A diagnostic that a rule may note about the current token. -/
inductive Reading.Rejects (r : Reading σ) : Diagnostic → Prop where
  | noOperand : Rejects r ⟨.noOperand r.current.kind, r.current.pos⟩
  | badInteger : r.current.kind = .int → Numeral.integer? r.current.literal = none →
      Rejects r ⟨.badInteger r.current.literal, r.current.pos⟩
  | badFloat : r.current.kind = .float → Numeral.float? r.current.literal = none →
      Rejects r ⟨.badFloat r.current.literal, r.current.pos⟩

/-- A statement has been tried before the end of the text and was not found: this is where the rule left the reading. -/
def Grammar.LeavesUnread (tr : Tracer σ) (s : Reading σ) : Prop := ∃ n r, r.current.kind ≠ .eof ∧ statement tr n r = some (none, s)

/-- What holds of the readings that the rules go through. -/
structure Course (tr : Tracer σ) where
  Context : Type
  /-- A phrase starts: the current token is its first one, and has not been read. -/
  Starts : Context → Reading σ → Prop
  /-- A phrase stops: the current token is its last one. -/
  Stops : Context → Reading σ → Prop
  /-- The statements of a block end: the current token is the closing brace, or the end of the text. -/
  Closes : Context → Reading σ → Prop
  /-- A diagnostic has been noted, and no phrase is found. -/
  Refuses : Context → Reading σ → Prop
  token {c : Context} {r : Reading σ} : Starts c r → r.current.kind ≠ .lbrace ∧ r.current.kind ≠ .rbrace → Stops c r
  advance {c : Context} {r : Reading σ} : Stops c r → Starts c r.advance
  reject {c : Context} {r : Reading σ} {d : Diagnostic} : Starts c r → r.Rejects d → Refuses c (r.report d)
  unexpected {c : Context} {r : Reading σ} {kind : Kind} : Stops c r → r.following.kind ≠ kind →
    Refuses c (r.report ⟨.unexpected kind r.following.kind, r.following.pos⟩)
  announce {c : Context} {r : Reading σ} (phrase : Phrase) : Starts c r → ∃ c',
    Starts c' { r with trace := tr.enter phrase.name r.trace } ∧
      (Stops c r → Stops c' { r with trace := tr.enter phrase.name r.trace }) ∧
      (∀ s, Stops c' s → Stops c { s with trace := tr.leave phrase.name s.trace }) ∧
      ∀ s, Refuses c' s → Refuses c { s with trace := tr.leave phrase.name s.trace }
  block {c : Context} {r : Reading σ} : Starts c r → r.current.kind = .lbrace → ∃ c', Starts c' r.openBlock ∧
    ∀ s, Closes c' s → s.current.kind = .rbrace ∨ s.current.kind = .eof → Stops c s.closeBlock
  close {c : Context} {r : Reading σ} : Starts c r → r.current.kind = .rbrace ∨ r.current.kind = .eof → Closes c r
  /-- A block ends at the closing brace that the skipping of a statement stops at. -/
  closeEarly {c : Context} {r : Reading σ} : Refuses c r → Grammar.LeavesUnread tr r → r.resync.current.kind = .rbrace → Closes c r.resync
  resume {c : Context} {r : Reading σ} : Refuses c r → Grammar.LeavesUnread tr r → r.resync.current.kind ≠ .rbrace →
    Starts c r.resync.advance

variable {tr : Tracer σ}

namespace Course

variable {C : Course tr} {c : C.Context} {r : Reading σ}

/-- The current token has been read, and a phrase starts with it. -/
def At (C : Course tr) (c : C.Context) (r : Reading σ) : Prop := C.Starts c r ∧ C.Stops c r

/-- A token that is no brace is read as soon as it is the current one. -/
theorem at_token {kind : Kind} (h : C.Starts c r) (hk : r.current.kind = kind) (hne : kind ≠ .lbrace ∧ kind ≠ .rbrace) : C.At c r := by
  subst hk
  exact ⟨h, C.token h hne⟩

/-- The token ahead, if it is no brace. -/
theorem at_following {kind : Kind} (h : C.Stops c r) (hk : r.following.kind = kind) (hne : kind ≠ .lbrace ∧ kind ≠ .rbrace) :
    C.At c r.advance :=
  at_token (C.advance h) hk hne

end Course

/-- Where a step leads, if its limit is not used up. -/
def Step.Leads (S : Reading σ → Prop) (p : Step σ α) (r : Reading σ) : Prop := ∀ a s, p r = some (a, s) → S s

/-- Where a parse leads: `S` where it finds its phrase, and `R` where it refuses. -/
def Parse.Leads (R S : Reading σ → Prop) (p : Parse σ α) (r : Reading σ) : Prop :=
  ∀ a? s, p r = some (a?, s) → if a?.isSome then S s else R s

/-! ## Steps and parses made of others -/

variable {R S S' : Reading σ → Prop} {r : Reading σ}

namespace Parse

theorem Leads.found {p : Parse σ α} {a : α} {s : Reading σ} (h : p.Leads R S r) (hp : p r = some (some a, s)) : S s := h (some a) s hp

theorem Leads.refused {p : Parse σ α} {s : Reading σ} (h : p.Leads R S r) (hp : p r = some (none, s)) : R s := by
  have h := h none s hp
  rwa [if_neg (by simp)] at h

theorem Leads.bind {p : Parse σ α} {f : α → Parse σ β} (hp : p.Leads R S r) (hf : ∀ a s, S s → (f a).Leads R S' s) :
    (p >>= f).Leads R S' r := by
  intro b? t h
  rw [bind_apply] at h
  rcases hpr : p r with _ | ⟨_ | a, s⟩
  · simp [hpr] at h
  · simp only [hpr, Option.some.injEq, Prod.mk.injEq] at h
    obtain ⟨rfl, rfl⟩ := h
    exact hp none s hpr
  · simp only [hpr] at h
    exact hf a s (hp (some a) s hpr) b? t h

theorem leads_pure (hr : S r) (a : α) : (pure a : Parse σ α).Leads R S r := by
  intro a? s h
  cases h
  exact hr

theorem leads_get_bind {f : Reading σ → Parse σ β} (h : (f r).Leads R S r) : (get >>= f).Leads R S r := h

theorem leads_advance_bind {f : Unit → Parse σ β} (h : (f ()).Leads R S r.advance) :
    (modify Reading.advance >>= f).Leads R S r := h

theorem leads_exhausted : Parse.Leads R S (Grammar.exhausted : Parse σ α) r := nofun

theorem leads_refuse {problem : Problem} {pos : Pos} (h : R (r.report ⟨problem, pos⟩)) :
    (Grammar.refuse problem pos : Parse σ α).Leads R S r := by
  intro a? s hp
  cases hp
  exact h

/-- A step that always has a result, used where a phrase may be missing. -/
theorem leads_lift {p : Step σ α} (h : p.Leads S r) : (liftM p : Parse σ α).Leads R S r := by
  intro a? s hp
  rw [lift_apply, Option.map_eq_some_iff] at hp
  obtain ⟨⟨a, s⟩, hpr, heq⟩ := hp
  cases heq
  exact h a s hpr

end Parse

namespace Grammar

variable {C : Course tr} {c : C.Context}

/-- A phrase that is announced is read in a context of its own. -/
theorem traced_leads (phrase : Phrase) {p : Parse σ α} (hr : C.Starts c r)
    (hp : ∀ c' x, C.Starts c' { r with trace := x } → (C.Stops c r → C.Stops c' { r with trace := x }) →
      p.Leads (C.Refuses c') (C.Stops c') { r with trace := x }) :
    (traced tr phrase p).Leads (C.Refuses c) (C.Stops c) r := by
  intro a? s h
  rw [traced_apply, Option.map_eq_some_iff] at h
  obtain ⟨⟨a', s⟩, hpr, heq⟩ := h
  cases heq
  obtain ⟨c', hr', hat, hstop, hrefuse⟩ := C.announce phrase hr
  have h := hp c' _ hr' hat a' s hpr
  cases a' with
  | none => exact hrefuse s h
  | some a => exact hstop s h

/-- A phrase that is announced when its first token has been read. -/
theorem traced_leads_at (phrase : Phrase) {p : Parse σ α} (hr : C.At c r)
    (hp : ∀ c' x, C.At c' { r with trace := x } → p.Leads (C.Refuses c') (C.Stops c') { r with trace := x }) :
    (traced tr phrase p).Leads (C.Refuses c) (C.Stops c) r :=
  traced_leads phrase hr.1 fun c' x hs hat => hp c' x ⟨hs, hat hr.2⟩

theorem identifier_leads (hr : S r) : identifier.Leads R S r := by
  intro a? s h
  cases h
  exact hr

/-- The token that has to follow is the current one behind it. -/
theorem expect_leads (kind : Kind) (hr : C.Stops c r) :
    (expect kind).Leads (C.Refuses c) (fun s => C.Starts c s ∧ s.current.kind = kind) r := by
  intro a? s h
  rw [expect_apply] at h
  split at h
  · next hk =>
    cases h
    exact ⟨C.advance hr, hk⟩
  · next hk =>
    cases h
    exact C.unexpected hr hk

/-- The token that has to follow is read, if it is no brace. -/
theorem expect_leads_at {kind : Kind} (hne : kind ≠ .lbrace ∧ kind ≠ .rbrace) (hr : C.Stops c r) :
    (expect kind).Leads (C.Refuses c) (C.At c) r := by
  intro a? s h
  have h := expect_leads kind hr a? s h
  cases a? with
  | none => exact h
  | some a => exact Course.at_token h.1 h.2 hne

theorem skipOver_leads {kind : Kind} (hne : kind ≠ .lbrace ∧ kind ≠ .rbrace) (hr : C.Stops c r) :
    (skipOver kind).Leads (C.Refuses c) (C.Stops c) r := by
  intro a? s h
  rw [skipOver_apply] at h
  cases h
  show C.Stops c _
  split
  · next hk => exact (Course.at_following hr hk hne).2
  · exact hr

/-! ## Phrases without parts -/

theorem variableName_leads (hr : C.At c r) : (variableName tr).Leads (C.Refuses c) (C.Stops c) r := by
  refine traced_leads_at _ hr ?_
  intro c' x hr
  refine .bind (identifier_leads hr.2) ?_
  intro id s hs
  exact Parse.leads_pure hs _

/-- A numeral without a value is refused as its problem says. -/
theorem numeralLiteral_leads {ν : Type} {phrase : Phrase} {value? : String → Option ν} {literal : Token → ν → Expr}
    {problem : String → Problem} (hr : C.At c r) (hreject : value? r.current.literal = none →
      ∀ x : σ, Reading.Rejects { r with trace := x } ⟨problem r.current.literal, r.current.pos⟩) :
    (numeralLiteral tr phrase value? literal problem).Leads (C.Refuses c) (C.Stops c) r := by
  refine traced_leads_at _ hr ?_
  intro c' x hr
  refine Parse.leads_get_bind ?_
  dsimp only
  split
  · exact Parse.leads_pure hr.2 _
  · next hn => exact Parse.leads_refuse (C.reject hr.1 (hreject hn x))

theorem stringLiteral_leads (hr : S r) : stringLiteral.Leads R S r := Parse.leads_get_bind (Parse.leads_pure hr _)

theorem boolean_leads (hr : C.At c r) : (boolean tr).Leads (C.Refuses c) (C.Stops c) r := by
  refine traced_leads_at _ hr ?_
  intro c' x hr
  exact Parse.leads_get_bind (Parse.leads_pure hr.2 _)

theorem moreParameters_leads (n : Nat) {r : Reading σ} (hr : C.Stops c r) :
    (moreParameters n).Leads (C.Refuses c) (C.Stops c) r := by
  induction n generalizing r with
  | zero => exact Parse.leads_exhausted
  | succ n ih =>
    refine Parse.leads_get_bind ?_
    dsimp only
    split
    · next hk =>
      have hcomma := Course.at_following hr hk (by decide)
      refine Parse.leads_advance_bind (.bind (expect_leads_at (by decide) hcomma.2) ?_)
      intro _ s hs
      refine .bind (identifier_leads hs.2) ?_
      intro id s hs
      refine .bind (ih hs) ?_
      intro ids s hs
      exact Parse.leads_pure hs _
    · exact Parse.leads_pure hr _

theorem parameters_leads (limit : Nat) (hr : C.At c r) : (parameters tr limit).Leads (C.Refuses c) (C.Stops c) r := by
  refine traced_leads_at _ hr ?_
  intro c' x hr
  refine Parse.leads_get_bind ?_
  dsimp only
  split
  · next hk => exact Parse.leads_advance_bind (Parse.leads_pure (Course.at_following hr.2 hk (by decide)).2 _)
  · refine .bind (expect_leads_at (by decide) hr.2) ?_
    intro _ s hs
    refine .bind (identifier_leads hs.2) ?_
    intro id s hs
    refine .bind (moreParameters_leads _ hs) ?_
    intro ids s hs
    refine .bind (expect_leads_at (by decide) hs) ?_
    intro _ s hs
    exact Parse.leads_pure hs.2 _

/-! ## Phrases with parts -/

section

variable {expression : Precedence → Parse σ Expr} {block : Step σ Block}
  (he : ∀ {c p r}, C.Starts c r → (expression p).Leads (C.Refuses c) (C.Stops c) r)
  (hb : ∀ {c r}, C.Starts c r → r.current.kind = .lbrace → block.Leads (C.Stops c) r)

include he

theorem letStatement_leads (hr : C.At c r) : (letStatement tr expression).Leads (C.Refuses c) (C.Stops c) r := by
  refine traced_leads_at _ hr ?_
  intro c' x hr
  refine Parse.leads_get_bind (.bind (expect_leads_at (by decide) hr.2) ?_)
  intro _ s hs
  refine .bind (identifier_leads hs.2) ?_
  intro id s hs
  refine .bind (expect_leads_at (by decide) hs) ?_
  intro _ s hs
  refine Parse.leads_advance_bind (.bind (he (C.advance hs.2)) ?_)
  intro value s hs
  refine .bind (skipOver_leads (by decide) hs) ?_
  intro _ s hs
  exact Parse.leads_pure hs _

theorem returnStatement_leads (hr : C.At c r) : (returnStatement tr expression).Leads (C.Refuses c) (C.Stops c) r := by
  refine traced_leads_at _ hr ?_
  intro c' x hr
  refine Parse.leads_get_bind (Parse.leads_advance_bind (.bind (he (C.advance hr.2)) ?_))
  intro value s hs
  refine .bind (skipOver_leads (by decide) hs) ?_
  intro _ s hs
  exact Parse.leads_pure hs _

theorem expressionStatement_leads (hr : C.Starts c r) :
    (expressionStatement tr expression).Leads (C.Refuses c) (C.Stops c) r := by
  refine traced_leads _ hr ?_
  intro c' x hr _
  refine Parse.leads_get_bind (.bind (he hr) ?_)
  intro e s hs
  refine .bind (skipOver_leads (by decide) hs) ?_
  intro _ s hs
  exact Parse.leads_pure hs _

theorem unaryExpression_leads (hr : C.At c r) : (unaryExpression tr expression).Leads (C.Refuses c) (C.Stops c) r := by
  refine traced_leads_at _ hr ?_
  intro c' x hr
  refine Parse.leads_get_bind (Parse.leads_advance_bind (.bind (he (C.advance hr.2)) ?_))
  intro e s hs
  exact Parse.leads_pure hs _

theorem binaryExpression_leads (left : Expr) (hr : C.At c r) :
    (binaryExpression tr expression left).Leads (C.Refuses c) (C.Stops c) r := by
  refine traced_leads_at _ hr ?_
  intro c' x hr
  refine Parse.leads_get_bind (Parse.leads_advance_bind (.bind (he (C.advance hr.2)) ?_))
  intro right s hs
  exact Parse.leads_pure hs _

theorem groupedExpression_leads (hr : C.At c r) : (groupedExpression expression).Leads (C.Refuses c) (C.Stops c) r := by
  refine Parse.leads_advance_bind (.bind (he (C.advance hr.2)) ?_)
  intro e s hs
  refine .bind (expect_leads_at (by decide) hs) ?_
  intro _ s hs
  exact Parse.leads_pure hs.2 _

omit he in
include hb in
theorem alternative_leads (hr : C.Stops c r) : (alternative block).Leads (C.Refuses c) (C.Stops c) r := by
  refine Parse.leads_get_bind ?_
  dsimp only
  split
  · next hk =>
    have helse := Course.at_following hr hk (by decide)
    refine Parse.leads_advance_bind (.bind (expect_leads _ helse.2) ?_)
    intro _ s hs
    refine .bind (Parse.leads_lift (hb hs.1 hs.2)) ?_
    intro b s hs
    exact Parse.leads_pure hs _
  · exact Parse.leads_pure hr _

include hb in
theorem conditional_leads (hr : C.At c r) : (conditional tr expression block).Leads (C.Refuses c) (C.Stops c) r := by
  refine traced_leads_at _ hr ?_
  intro c' x hr
  refine Parse.leads_get_bind (.bind (expect_leads_at (by decide) hr.2) ?_)
  intro _ s hs
  refine Parse.leads_advance_bind (.bind (he (C.advance hs.2)) ?_)
  intro condition s hs
  refine .bind (expect_leads_at (by decide) hs) ?_
  intro _ s hs
  refine .bind (expect_leads _ hs.2) ?_
  intro _ s hs
  refine .bind (Parse.leads_lift (hb hs.1 hs.2)) ?_
  intro consequence s hs
  refine .bind (alternative_leads hb hs) ?_
  intro other s hs
  exact Parse.leads_pure hs _

omit he in
include hb in
theorem functionLiteral_leads (limit : Nat) (hr : C.At c r) :
    (functionLiteral tr block limit).Leads (C.Refuses c) (C.Stops c) r := by
  refine traced_leads_at _ hr ?_
  intro c' x hr
  refine Parse.leads_get_bind (.bind (expect_leads_at (by decide) hr.2) ?_)
  intro _ s hs
  refine .bind (parameters_leads _ hs) ?_
  intro ps s hs
  refine .bind (expect_leads _ hs) ?_
  intro _ s hs
  refine .bind (Parse.leads_lift (hb hs.1 hs.2)) ?_
  intro body s hs
  exact Parse.leads_pure hs _

omit he in
theorem callExpression_leads {arguments : Parse σ (List Expr)}
    (ha : ∀ {c r}, C.Stops c r → arguments.Leads (C.Refuses c) (C.Stops c) r) (callee : Expr) (hr : C.At c r) :
    (callExpression tr arguments callee).Leads (C.Refuses c) (C.Stops c) r := by
  refine traced_leads_at _ hr ?_
  intro c' x hr
  refine Parse.leads_get_bind (.bind (ha hr.2) ?_)
  intro args s hs
  exact Parse.leads_pure hs _

end

/-! ## Phrases that contain each other -/

/-- The rules that contain each other keep a course under the limit `n`. -/
structure RulesLead (C : Course tr) (n : Nat) : Prop where
  expression {c : C.Context} {p : Precedence} {r : Reading σ} : C.Starts c r →
    (expression tr n p).Leads (C.Refuses c) (C.Stops c) r
  operand {c : C.Context} {r : Reading σ} : C.Starts c r → (operand tr n).Leads (C.Refuses c) (C.Stops c) r
  climb {c : C.Context} {p : Precedence} {left : Expr} {r : Reading σ} : C.Stops c r →
    (climb tr n p left).Leads (C.Refuses c) (C.Stops c) r
  extension {c : C.Context} {kind : Kind} {left : Expr} {r : Reading σ} : C.At c r →
    (extension tr n kind left).Leads (C.Refuses c) (C.Stops c) r
  arguments {c : C.Context} {r : Reading σ} : C.Stops c r → (arguments tr n).Leads (C.Refuses c) (C.Stops c) r
  moreArguments {c : C.Context} {r : Reading σ} : C.Stops c r → (moreArguments tr n).Leads (C.Refuses c) (C.Stops c) r
  statement {c : C.Context} {r : Reading σ} : C.Starts c r → (statement tr n).Leads (C.Refuses c) (C.Stops c) r
  block {c : C.Context} {r : Reading σ} : C.Starts c r → r.current.kind = .lbrace → (block tr n).Leads (C.Stops c) r
  items {c : C.Context} {r : Reading σ} : C.Starts c r → (items tr n).Leads (C.Closes c) r

/-- The statements of a block end at its closing brace or at the end of the text. -/
theorem items_stops {n : Nat} {r r' : Reading σ} {ss : List Stmt} (h : items tr n r = some (ss, r')) :
    r'.current.kind = .rbrace ∨ r'.current.kind = .eof := by
  induction n generalizing r ss with
  | zero => simp [items] at h
  | succ n ih =>
    rw [items_apply] at h
    split at h
    · next hk =>
      cases h
      exact hk
    · rcases hs : statement tr n r with _ | ⟨_ | s, r₁⟩
      · simp [hs] at h
      · simp only [hs] at h
        split at h
        · next hk =>
          cases h
          exact Or.inl hk
        · exact ih h
      · simp only [hs, Option.map_eq_some_iff, Prod.mk.injEq] at h
        obtain ⟨x, hx, -, rfl⟩ := h
        exact ih hx

/-- A block is announced and opened, and closed behind its statements. -/
theorem block_items {n : Nat} {b : Block} {r s : Reading σ} (h : block tr (n + 1) r = some (b, s)) : ∃ ss u,
    items tr n (Reading.openBlock { r with trace := tr.enter Phrase.blockStatement.name r.trace }) = some (ss, u) ∧
      b = ⟨r.current, ss⟩ ∧ s = { u.closeBlock with trace := tr.leave Phrase.blockStatement.name u.closeBlock.trace } := by
  rw [block_apply, announced_apply] at h
  obtain ⟨⟨b, s⟩, hb, heq⟩ := Option.map_eq_some_iff.mp h
  cases heq
  obtain ⟨⟨ss, u⟩, hi, heq⟩ := Option.map_eq_some_iff.mp hb
  cases heq
  exact ⟨ss, u, hi, rfl, rfl⟩

/-- A token that binds is no brace. -/
theorem not_brace_of_lt_precedence {p : Precedence} {k : Kind} (h : p < k.precedence) : k ≠ .lbrace ∧ k ≠ .rbrace := by
  refine ⟨?_, ?_⟩ <;> rintro rfl <;> exact absurd h (Nat.not_lt_zero _)

namespace RulesLead

variable {n : Nat} (h : RulesLead C n)

include h

theorem expression_succ {p : Precedence} (hr : C.Starts c r) :
    (Grammar.expression tr (n + 1) p).Leads (C.Refuses c) (C.Stops c) r := by
  rw [Grammar.expression]
  refine traced_leads _ hr ?_
  intro c' x hr _
  refine .bind (h.operand hr) ?_
  intro e s hs
  exact h.climb hs

theorem operand_succ (hr : C.Starts c r) : (Grammar.operand tr (n + 1)).Leads (C.Refuses c) (C.Stops c) r := by
  intro e? s hs
  rw [operand_apply] at hs
  split at hs
  · next hk => exact variableName_leads (Course.at_token hr hk (by decide)) e? s hs
  · next hk => exact numeralLiteral_leads (Course.at_token hr hk (by decide)) (fun hn _ => .badInteger hk hn) e? s hs
  · next hk => exact numeralLiteral_leads (Course.at_token hr hk (by decide)) (fun hn _ => .badFloat hk hn) e? s hs
  · next hk => exact stringLiteral_leads (Course.at_token hr hk (by decide)).2 e? s hs
  · next hk => exact boolean_leads (Course.at_token hr hk (by decide)) e? s hs
  · next hk => exact boolean_leads (Course.at_token hr hk (by decide)) e? s hs
  · next hk => exact unaryExpression_leads h.expression (Course.at_token hr hk (by decide)) e? s hs
  · next hk => exact unaryExpression_leads h.expression (Course.at_token hr hk (by decide)) e? s hs
  · next hk => exact groupedExpression_leads h.expression (Course.at_token hr hk (by decide)) e? s hs
  · next hk => exact conditional_leads h.expression h.block (Course.at_token hr hk (by decide)) e? s hs
  · next hk => exact functionLiteral_leads h.block n (Course.at_token hr hk (by decide)) e? s hs
  · exact Parse.leads_refuse (C.reject hr .noOperand) e? s hs

theorem climb_succ {p : Precedence} {left : Expr} (hr : C.Stops c r) :
    (Grammar.climb tr (n + 1) p left).Leads (C.Refuses c) (C.Stops c) r := by
  rw [Grammar.climb]
  refine Parse.leads_get_bind ?_
  dsimp only
  split
  · next hp =>
    have hop := Course.at_following hr rfl (not_brace_of_lt_precedence hp)
    refine Parse.leads_advance_bind (.bind (h.extension hop) ?_)
    intro e s hs
    exact h.climb hs
  · exact Parse.leads_pure hr _

theorem extension_succ {kind : Kind} {left : Expr} (hr : C.At c r) :
    (Grammar.extension tr (n + 1) kind left).Leads (C.Refuses c) (C.Stops c) r := by
  rw [Grammar.extension]
  split
  · exact callExpression_leads h.arguments left hr
  · exact binaryExpression_leads h.expression left hr

theorem arguments_succ (hr : C.Stops c r) : (Grammar.arguments tr (n + 1)).Leads (C.Refuses c) (C.Stops c) r := by
  rw [Grammar.arguments]
  refine Parse.leads_get_bind ?_
  dsimp only
  split
  · next hk => exact Parse.leads_advance_bind (Parse.leads_pure (Course.at_following hr hk (by decide)).2 _)
  · refine Parse.leads_advance_bind (.bind (h.expression (C.advance hr)) ?_)
    intro e s hs
    refine .bind (h.moreArguments hs) ?_
    intro es s hs
    refine .bind (expect_leads_at (by decide) hs) ?_
    intro _ s hs
    exact Parse.leads_pure hs.2 _

theorem moreArguments_succ (hr : C.Stops c r) :
    (Grammar.moreArguments tr (n + 1)).Leads (C.Refuses c) (C.Stops c) r := by
  rw [Grammar.moreArguments]
  refine Parse.leads_get_bind ?_
  dsimp only
  split
  · next hk =>
    have hcomma := Course.at_following hr hk (by decide)
    refine Parse.leads_advance_bind (Parse.leads_advance_bind (.bind (h.expression (C.advance hcomma.2)) ?_))
    intro e s hs
    refine .bind (h.moreArguments hs) ?_
    intro es s hs
    exact Parse.leads_pure hs _
  · exact Parse.leads_pure hr _

theorem statement_succ (hr : C.Starts c r) : (Grammar.statement tr (n + 1)).Leads (C.Refuses c) (C.Stops c) r := by
  intro x? s hs
  rw [statement_apply] at hs
  split at hs
  · next hk => exact letStatement_leads h.expression (Course.at_token hr hk (by decide)) x? s hs
  · next hk => exact returnStatement_leads h.expression (Course.at_token hr hk (by decide)) x? s hs
  · next hk =>
    obtain ⟨⟨b, u⟩, hb, heq⟩ := Option.map_eq_some_iff.mp hs
    cases heq
    exact h.block hr hk b u hb
  · exact expressionStatement_leads h.expression hr x? s hs

/-- The statements of a block are read in a context of their own, inside that of the announced phrase. -/
theorem block_succ (hr : C.Starts c r) (hk : r.current.kind = .lbrace) : (Grammar.block tr (n + 1)).Leads (C.Stops c) r := by
  intro b t hb
  obtain ⟨ss, u, hi, -, rfl⟩ := block_items hb
  obtain ⟨c₁, hr₁, -, hleave, -⟩ := C.announce .blockStatement hr
  obtain ⟨c₂, hr₂, hclose⟩ := C.block hr₁ hk
  exact hleave _ (hclose u (h.items hr₂ ss u hi) (items_stops hi))

theorem items_succ (hr : C.Starts c r) : (Grammar.items tr (n + 1)).Leads (C.Closes c) r := by
  intro ss t hx
  rw [items_apply] at hx
  split at hx
  · next hk =>
    cases hx
    exact C.close hr hk
  · next hgo =>
    rcases hp : Grammar.statement tr n r with _ | ⟨_ | x, s⟩
    · simp [hp] at hx
    · have hs := (h.statement hr).refused hp
      have hunread : LeavesUnread tr s := ⟨n, r, (not_or.mp hgo).2, hp⟩
      simp only [hp] at hx
      split at hx
      · next hk =>
        cases hx
        exact C.closeEarly hs hunread hk
      · next hk => exact h.items (C.resume hs hunread hk) ss t hx
    · have hs := (h.statement hr).found hp
      simp only [hp, Option.map_eq_some_iff, Prod.mk.injEq] at hx
      obtain ⟨y, hi, -, rfl⟩ := hx
      exact h.items (C.advance hs) y.1 y.2 hi

end RulesLead

/-- Every rule keeps a course, whatever the limit. -/
theorem rulesLead (C : Course tr) (n : Nat) : RulesLead C n := by
  induction n with
  | zero =>
    exact ⟨fun _ => Parse.leads_exhausted, fun _ => Parse.leads_exhausted, fun _ => Parse.leads_exhausted,
      fun _ => Parse.leads_exhausted, fun _ => Parse.leads_exhausted, fun _ => Parse.leads_exhausted,
      fun _ => Parse.leads_exhausted, fun _ _ => nofun, fun _ => nofun⟩
  | succ n ih =>
    exact ⟨ih.expression_succ, ih.operand_succ, ih.climb_succ, ih.extension_succ, ih.arguments_succ,
      ih.moreArguments_succ, ih.statement_succ, ih.block_succ, ih.items_succ⟩

/-- Reading the statements of a program keeps a course, if it goes on behind every statement that is skipped outside of blocks. -/
theorem program_leads (n : Nat) {r : Reading σ} (hresume : ∀ s, C.Refuses c s → LeavesUnread tr s → C.Starts c s.resync.advance)
    (hr : C.Starts c r) : (program tr n).Leads (C.Starts c) r := by
  induction n generalizing r with
  | zero => exact nofun
  | succ n ih =>
    intro ss t hx
    rw [program_apply] at hx
    split at hx
    · cases hx
      exact hr
    · next hk =>
      rcases hp : statement tr n r with _ | ⟨_ | x, s⟩
      · simp [hp] at hx
      · have hs := ((rulesLead C n).statement hr).refused hp
        simp only [hp] at hx
        exact ih (hresume s hs ⟨n, r, hk, hp⟩) ss t hx
      · have hs := ((rulesLead C n).statement hr).found hp
        simp only [hp, Option.map_eq_some_iff, Prod.mk.injEq] at hx
        obtain ⟨y, hi, -, rfl⟩ := hx
        exact ih (C.advance hs) y.1 y.2 hi

end Grammar

end Scriptlet
