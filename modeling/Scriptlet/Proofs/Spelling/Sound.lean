import Scriptlet.Proofs.Reading.Found
import Scriptlet.Proofs.Reading.Limit
import Scriptlet.Proofs.Spelling

/-!
# What is read is in the grammar

A text that is read without a diagnostic is derived from the grammar: its tokens, all of them and in their order, are a derivation
of `program`, and the program that is given is the tree of that derivation (`parse_spelled`).

Every rule that finds its phrase spells it by the tokens it reads (`RulesSpell`). `r.Took ts s` says that `ts` are the tokens read
from `r` to `s`: a rule stops at the last token of its phrase, so these are the tokens up to the current one of `s`. A rule starts
at its first token, but for those whose phrase may be empty or goes on behind another one; these start before it, and read what
`r.advance` has left.

Nothing is noted up to a reading that is `Quiet`, so no statement was dropped on the way to it and no block was left open.
-/

namespace Scriptlet

variable {σ : Type}

namespace Reading

/-- Nothing has been noted. -/
def Quiet (r : Reading σ) : Prop := r.diagnostics.size = 0

/-- Nothing is taken back that has been noted. -/
theorem Reaches.quiet {owed : Nat} {r s : Reading σ} (h : r.Reaches owed s) (hs : s.Quiet) : r.Quiet := by
  have hle := h.size_le
  unfold Quiet at hs ⊢
  omega

/-- A refusal notes something. -/
theorem Reaches.not_quiet {r s : Reading σ} (h : r.Reaches 1 s) : ¬s.Quiet := by
  intro hs
  have hlt := h.size_lt
  unfold Quiet at hs
  omega

/-- The tokens read from one reading up to the current token of another. -/
def Took (r : Reading σ) (ts : List Token) (s : Reading σ) : Prop := r.rest = ts ++ s.rest.tail

variable {r s t : Reading σ} {ts us : List Token}

theorem Took.nil (r : Reading σ) : r.advance.Took [] r := rfl

theorem Took.append (h : r.Took ts s) (h' : s.advance.Took us t) : r.Took (ts ++ us) t := by
  unfold Took at h h' ⊢
  have e : s.rest.tail = us ++ t.rest.tail := h'
  rw [h, e, List.append_assoc]

theorem Ready.took_current {k : Kind} (hr : r.Ready) (hk : r.current.kind = k) (he : k ≠ .eof) :
    r.Took [r.current] r :=
  hr.rest_eq (by rw [hk]; exact he)

/-- The current token comes before the others. -/
theorem Ready.took_cons {k : Kind} (hr : r.Ready) (hk : r.current.kind = k) (he : k ≠ .eof) (h : r.advance.Took ts s) :
    r.Took (r.current :: ts) s :=
  (hr.took_current hk he).append h

/-- The token that follows comes after the others. -/
theorem Took.snoc {k : Kind} (h : r.Took ts s) (hs : s.Ready) (hk : s.following.kind = k) (he : k ≠ .eof) :
    r.Took (ts ++ [s.following]) s.advance :=
  h.append (hs.advance.took_current (r := s.advance) hk he)

/-- What may end a statement is taken with it. -/
theorem Ready.took_end (hs : s.Ready) :
    ∃ us, s.advance.Took us (if s.following.kind = .semicolon then s.advance else s) ∧ OptionalSemicolon us := by
  by_cases hk : s.following.kind = .semicolon
  · rw [if_pos hk]
    exact ⟨[s.following], hs.advance.took_current (r := s.advance) hk (by decide), Or.inr ⟨_, hk, rfl⟩⟩
  · rw [if_neg hk]
    exact ⟨[], .nil s, Or.inl rfl⟩

/-- Nothing is noted at the end of a block only if the block is closed. -/
theorem quiet_closeBlock (h : s.closeBlock.Quiet) : s.current.kind ≠ .eof ∧ s.Quiet := by
  by_cases hk : s.current.kind = .eof
  · rw [closeBlock_of_eof hk] at h
    unfold Quiet at h
    rw [Array.size_push] at h
    exact absurd h (Nat.succ_ne_zero _)
  · rw [closeBlock_of_ne_eof hk] at h
    exact ⟨hk, h⟩

theorem quiet_end (h : Quiet (if s.following.kind = .semicolon then s.advance else s)) : s.Quiet := by
  split at h
  · exact h
  · exact h

end Reading

namespace Grammar

variable {r s : Reading Unit}

/-! ## Phrases without parts -/

/-- The parameters of a function after the first one, each with its comma. -/
theorem moreParameters_spelled {n : Nat} {ids : List Identifier} (h : moreParameters n r = some (some ids, s))
    (hr : r.Ready) : ∃ ts, r.advance.Took ts s ∧ Identifier.SpelledMore ts ids := by
  induction n generalizing r ids with
  | zero => cases h
  | succ n ih =>
    obtain ⟨rfl, rfl⟩ | ⟨m, ids', hc, hi, hm, rfl, hn⟩ := moreParameters_found h
    · exact ⟨[], .nil _, .nil⟩
    · cases hn
      obtain ⟨ts, ht, hts⟩ := ih hm hr.advance.advance
      have hname := hr.advance.advance.took_cons (r := r.advance.advance) hi (by decide) ht
      exact ⟨_, hr.advance.took_cons (r := r.advance) hc (by decide) hname, .cons hc hi hts⟩

/-- The parameters of a function, after its opening parenthesis and with its closing one. -/
theorem parameters_spelled {limit : Nat} {ids : List Identifier}
    (h : parameters Tracer.silent limit r = some (some ids, s)) (hr : r.Ready) :
    ∃ ts c, r.advance.Took (ts ++ [c]) s ∧ c.kind = .rparen ∧ Identifier.SpelledAll ts ids := by
  obtain ⟨hk, rfl, rfl⟩ | ⟨ids', r₁, hi, hm, hk, rfl, rfl⟩ := parameters_found h
  · exact ⟨[], r.following, hr.advance.took_current (r := r.advance) hk (by decide), hk, .nil⟩
  · obtain ⟨ts, ht, hts⟩ := moreParameters_spelled hm hr.advance
    have hr₁ : r₁.Ready := hr.advance.reaches (moreParameters_obeys (L := reachesLaw Tracer.silent) _ _ (some ids') r₁ hm)
    have hname := hr.advance.took_cons (r := r.advance) hi (by decide) ht
    exact ⟨_, _, hname.snoc hr₁ hk (by decide), hk, .cons hi hts⟩

/-! ## Phrases with parts -/

section

variable {expression : Precedence → Parse Unit Expr} {block : Step Unit Block}
  (hle : ∀ p r, (expression p).Obeys (reachesLaw Tracer.silent) r)
  (he : ∀ {p e r s}, expression p r = some (some e, s) → r.Ready → s.Quiet → ∃ ts, r.Took ts s ∧
    Expr.Spelled OptionalSemicolon p.operandLevel ts e ∧ s.following.kind.precedence ≤ p)
  (hlb : ∀ r, block.Obeys (reachesLaw Tracer.silent) r)
  (hb : ∀ {b r s}, block r = some (b, s) → r.Ready → r.current.kind = .lbrace → s.Quiet → ∃ ts, r.Took ts s ∧
    Block.Spelled OptionalSemicolon ts b)

include hle he

theorem letStatement_spelled {x : Stmt} (h : letStatement Tracer.silent expression r = some (some x, s))
    (hk : r.current.kind = .kwLet) (hr : r.Ready) (hs : s.Quiet) :
    ∃ ts, r.Took ts s ∧ Stmt.Spelled OptionalSemicolon ts x := by
  obtain ⟨hi, ha, e, r₁, hx, rfl, rfl⟩ := letStatement_found h
  have hr₁ := hr.advance.advance.advance.reaches (hle _ _ (some e) r₁ hx)
  obtain ⟨ts, ht, hts, -⟩ := he hx hr.advance.advance.advance (Reading.quiet_end hs)
  obtain ⟨us, hu, hus⟩ := hr₁.took_end
  have hassign := hr.advance.advance.took_cons (r := r.advance.advance) ha (by decide) (ht.append hu)
  have hname := hr.advance.took_cons (r := r.advance) hi (by decide) hassign
  exact ⟨_, hr.took_cons hk (by decide) hname, .bind hk hi ha hts.lowest hus⟩

theorem returnStatement_spelled {x : Stmt} (h : returnStatement Tracer.silent expression r = some (some x, s))
    (hk : r.current.kind = .kwReturn) (hr : r.Ready) (hs : s.Quiet) :
    ∃ ts, r.Took ts s ∧ Stmt.Spelled OptionalSemicolon ts x := by
  obtain ⟨e, r₁, hx, rfl, rfl⟩ := returnStatement_found h
  have hr₁ := hr.advance.reaches (hle _ _ (some e) r₁ hx)
  obtain ⟨ts, ht, hts, -⟩ := he hx hr.advance (Reading.quiet_end hs)
  obtain ⟨us, hu, hus⟩ := hr₁.took_end
  exact ⟨_, hr.took_cons hk (by decide) (ht.append hu), .ret hk hts.lowest hus⟩

/-- An expression used as a statement starts at the token it keeps. -/
theorem expressionStatement_spelled {x : Stmt}
    (h : expressionStatement Tracer.silent expression r = some (some x, s)) (hr : r.Ready) (hs : s.Quiet) :
    ∃ ts, r.Took ts s ∧ Stmt.Spelled OptionalSemicolon ts x := by
  obtain ⟨e, r₁, hx, rfl, rfl⟩ := expressionStatement_found h
  have hr₁ := hr.reaches (hle _ _ (some e) r₁ hx)
  obtain ⟨ts, ht, hts, -⟩ := he hx hr (Reading.quiet_end hs)
  obtain ⟨us, hu, hus⟩ := hr₁.took_end
  obtain ⟨t, ts', rfl, -⟩ := hts.first
  have hcur : r.current = t := by
    unfold Reading.current
    rw [show r.rest = _ from ht]
    rfl
  rw [hcur]
  exact ⟨_, ht.append hu, .expr hts.lowest hus⟩

omit hle in
theorem unaryExpression_spelled {x : Expr} (h : unaryExpression Tracer.silent expression r = some (some x, s))
    (hk : r.current.kind.isUnary = true) (hr : r.Ready) (hs : s.Quiet) :
    ∃ ts, r.Took ts s ∧ Expr.Spelled OptionalSemicolon .unary ts x ∧ s.following.kind.precedence ≤ .unary := by
  obtain ⟨e, hx, rfl⟩ := unaryExpression_found h
  obtain ⟨ts, ht, hts, hstop⟩ := he hx hr.advance hs
  have hne : r.current.kind ≠ .eof := fun e => by rw [e] at hk; cases hk
  exact ⟨_, hr.took_cons rfl hne ht, .unary hk hts, hstop⟩

omit hle in
/-- The operator and its right operand, behind the left one. -/
theorem binaryExpression_spelled {p : Precedence} {left x : Expr} {ls : List Token}
    (h : binaryExpression Tracer.silent expression left r = some (some x, s)) (hk : r.current.kind.infixLevel? = some p)
    (hl : Expr.Spelled OptionalSemicolon p ls left) (hr : r.Ready) (hs : s.Quiet) :
    ∃ ts, r.Took ts s ∧ Expr.Spelled OptionalSemicolon p (ls ++ ts) x ∧ s.following.kind.precedence ≤ p := by
  obtain ⟨right, hx, rfl⟩ := binaryExpression_found h
  obtain ⟨ts, ht, hts, hstop⟩ := he hx hr.advance hs
  rw [(Kind.infixLevel?_eq_some_iff.mp hk).1] at hts hstop
  have hne : r.current.kind ≠ .eof := fun e => by rw [e] at hk; cases hk
  have hlt := Precedence.lt_operandLevel (Precedence.lt_unary_of_infixLevel? hk)
  exact ⟨_, hr.took_cons rfl hne ht, .binary hk hl hlt hts, hstop⟩

theorem groupedExpression_spelled {x : Expr} (h : groupedExpression expression r = some (some x, s))
    (hk : r.current.kind = .lparen) (hr : r.Ready) (hs : s.Quiet) :
    ∃ ts, r.Took ts s ∧ Expr.Spelled OptionalSemicolon .call ts x := by
  obtain ⟨r₁, hx, hc, rfl⟩ := groupedExpression_found h
  have hr₁ := hr.advance.reaches (hle _ _ (some x) r₁ hx)
  obtain ⟨ts, ht, hts, -⟩ := he hx hr.advance hs
  exact ⟨_, hr.took_cons hk (by decide) (ht.snoc hr₁ hc (by decide)), .group hk hts.lowest hc⟩

omit hle he in
include hb in
/-- The block after `else`, behind the one before it. -/
theorem alternative_spelled {b? : Option Block} (h : alternative block r = some (some b?, s)) (hr : r.Ready)
    (hs : s.Quiet) : ∃ ts, r.advance.Took ts s ∧ Block.SpelledElse OptionalSemicolon ts b? := by
  obtain ⟨rfl, rfl⟩ | ⟨b, hk, hl, hx, rfl⟩ := alternative_found h
  · exact ⟨[], .nil _, .none⟩
  · obtain ⟨ts, ht, hts⟩ := hb hx hr.advance.advance hl hs
    exact ⟨_, hr.advance.took_cons (r := r.advance) hk (by decide) ht, .some hk hts⟩

include hb hlb in
theorem conditional_spelled {x : Expr} (h : conditional Tracer.silent expression block r = some (some x, s))
    (hk : r.current.kind = .kwIf) (hr : r.Ready) (hs : s.Quiet) :
    ∃ ts, r.Took ts s ∧ Expr.Spelled OptionalSemicolon .call ts x := by
  obtain ⟨hl, c, r₁, hx, hc, ho, a, r₂, ha, b?, hb?, rfl⟩ := conditional_found h
  have hr₁ := hr.advance.advance.reaches (hle _ _ (some c) r₁ hx)
  have hab : r₁.advance.advance.Reaches 0 r₂ := hlb _ a r₂ ha
  have hq₂ : r₂.Quiet := Reading.Reaches.quiet (alternative_obeys hlb (some b?) s hb?) hs
  have hq₁ : r₁.advance.advance.Quiet := hab.quiet hq₂
  obtain ⟨cs, htc, hcs, -⟩ := he hx hr.advance.advance hq₁
  obtain ⟨as, hta, has⟩ := hb ha hr₁.advance.advance ho hq₂
  obtain ⟨bs, htb, hbs⟩ := alternative_spelled hb hb? (hr₁.advance.advance.reaches hab) hs
  have hclose := hr₁.advance.took_cons (r := r₁.advance) hc (by decide) (hta.append htb)
  have hopen := hr.advance.took_cons (r := r.advance) hl (by decide) (htc.append hclose)
  exact ⟨_, hr.took_cons hk (by decide) hopen, .cond hk hl hcs.lowest hc has hbs⟩

omit hle he in
include hb in
theorem functionLiteral_spelled {limit : Nat} {x : Expr}
    (h : functionLiteral Tracer.silent block limit r = some (some x, s)) (hk : r.current.kind = .kwFn) (hr : r.Ready)
    (hs : s.Quiet) : ∃ ts, r.Took ts s ∧ Expr.Spelled OptionalSemicolon .call ts x := by
  obtain ⟨hl, ids, r₁, hi, ho, b, hx, rfl⟩ := functionLiteral_found h
  have hr₁ := hr.advance.reaches (parameters_obeys (L := reachesLaw Tracer.silent) _ (some ids) r₁ hi)
  obtain ⟨is, c, hti, hc, his⟩ := parameters_spelled hi hr.advance
  obtain ⟨bs, htb, hbs⟩ := hb hx hr₁.advance ho hs
  have hopen := hr.advance.took_cons (r := r.advance) hl (by decide) (hti.append htb)
  rw [List.append_assoc] at hopen
  exact ⟨_, hr.took_cons hk (by decide) hopen, .function hk hl his hc hbs⟩

end

/-! ## Phrases that contain each other -/

/-- What the rules that contain each other find is spelled by the tokens they read. An expression stops before an operator that
binds more than the place where it stands; the operators after an expression may be any that bind no more than the expression
itself. -/
structure RulesSpell (n : Nat) : Prop where
  expression {p : Precedence} {e : Expr} {r s : Reading Unit} : expression Tracer.silent n p r = some (some e, s) →
    r.Ready → s.Quiet →
    ∃ ts, r.Took ts s ∧ Expr.Spelled OptionalSemicolon p.operandLevel ts e ∧ s.following.kind.precedence ≤ p
  operand {e : Expr} {r s : Reading Unit} : operand Tracer.silent n r = some (some e, s) → r.Ready → s.Quiet →
    ∃ ts q, r.Took ts s ∧ Expr.Spelled OptionalSemicolon q ts e ∧ .unary ≤ q ∧ s.following.kind.precedence ≤ q
  climb {p q : Precedence} {left e : Expr} {ls : List Token} {r s : Reading Unit} :
    climb Tracer.silent n p left r = some (some e, s) → Expr.Spelled OptionalSemicolon q ls left →
    p.operandLevel ≤ q → r.following.kind.precedence ≤ q → r.Ready → s.Quiet →
    ∃ ts, r.advance.Took ts s ∧ Expr.Spelled OptionalSemicolon p.operandLevel (ls ++ ts) e ∧
      s.following.kind.precedence ≤ p
  extension {left e : Expr} {ls : List Token} {r s : Reading Unit} :
    extension Tracer.silent n r.current.kind left r = some (some e, s) → .lowest < r.current.kind.precedence →
    Expr.Spelled OptionalSemicolon r.current.kind.precedence ls left → r.Ready → s.Quiet →
    ∃ ts, r.Took ts s ∧ Expr.Spelled OptionalSemicolon r.current.kind.precedence (ls ++ ts) e ∧
      s.following.kind.precedence ≤ r.current.kind.precedence
  arguments {es : List Expr} {r s : Reading Unit} : arguments Tracer.silent n r = some (some es, s) → r.Ready →
    s.Quiet → ∃ ts c, r.advance.Took (ts ++ [c]) s ∧ c.kind = .rparen ∧ Expr.SpelledAll OptionalSemicolon ts es
  moreArguments {es : List Expr} {r s : Reading Unit} : moreArguments Tracer.silent n r = some (some es, s) → r.Ready →
    s.Quiet → ∃ ts, r.advance.Took ts s ∧ Expr.SpelledMore OptionalSemicolon ts es
  statement {x : Stmt} {r s : Reading Unit} : statement Tracer.silent n r = some (some x, s) → r.Ready → s.Quiet →
    ∃ ts, r.Took ts s ∧ Stmt.Spelled OptionalSemicolon ts x
  block {b : Block} {r s : Reading Unit} : block Tracer.silent n r = some (b, s) → r.Ready → r.current.kind = .lbrace →
    s.Quiet → ∃ ts, r.Took ts s ∧ Block.Spelled OptionalSemicolon ts b
  /-- The statements of a block stop before its closing brace. -/
  items {ss : List Stmt} {r s : Reading Unit} : items Tracer.silent n r = some (ss, s) → r.Ready → s.Quiet →
    ∃ ts, r.rest = ts ++ s.rest ∧ Stmt.SpelledAll OptionalSemicolon ts ss

namespace RulesSpell

variable {n : Nat} (h : RulesSpell n)

include h

theorem expression_succ {p : Precedence} {e : Expr} (hx : Grammar.expression Tracer.silent (n + 1) p r = some (some e, s))
    (hr : r.Ready) (hs : s.Quiet) :
    ∃ ts, r.Took ts s ∧ Expr.Spelled OptionalSemicolon p.operandLevel ts e ∧ s.following.kind.precedence ≤ p := by
  obtain ⟨e₁, r₁, ho, hc⟩ := expression_found hx
  have hr₁ := hr.reaches ((rulesObey (reachesLaw Tracer.silent) n).operand r (some e₁) r₁ ho)
  have hcs : r₁.Reaches 0 s := (rulesObey (reachesLaw Tracer.silent) n).climb p e₁ r₁ (some e) s hc
  obtain ⟨ls, q, htl, hls, hq, hnext⟩ := h.operand ho hr (hcs.quiet hs)
  obtain ⟨ts, ht, hts, hstop⟩ := h.climb hc hls (Precedence.le_trans p.operandLevel_le_unary hq) hnext hr₁ hs
  exact ⟨ls ++ ts, htl.append ht, hts, hstop⟩

theorem operand_succ {e : Expr} (hx : Grammar.operand Tracer.silent (n + 1) r = some (some e, s)) (hr : r.Ready)
    (hs : s.Quiet) :
    ∃ ts q, r.Took ts s ∧ Expr.Spelled OptionalSemicolon q ts e ∧ .unary ≤ q ∧ s.following.kind.precedence ≤ q := by
  have hle := (rulesObey (reachesLaw Tracer.silent) n).expression
  have hlb := (rulesObey (reachesLaw Tracer.silent) n).block
  have primary : (∃ ts, r.Took ts s ∧ Expr.Spelled OptionalSemicolon .call ts e) →
      ∃ ts q, r.Took ts s ∧ Expr.Spelled OptionalSemicolon q ts e ∧ .unary ≤ q ∧ s.following.kind.precedence ≤ q := by
    rintro ⟨ts, ht, hts⟩
    exact ⟨ts, .call, ht, hts, by decide, Precedence.le_call _⟩
  have unary : r.current.kind.isUnary = true →
      unaryExpression Tracer.silent (Grammar.expression Tracer.silent n) r = some (some e, s) →
      ∃ ts q, r.Took ts s ∧ Expr.Spelled OptionalSemicolon q ts e ∧ .unary ≤ q ∧ s.following.kind.precedence ≤ q := by
    intro hk hu
    obtain ⟨ts, ht, hts, hstop⟩ := unaryExpression_spelled h.expression hu hk hr hs
    exact ⟨ts, .unary, ht, hts, by decide, hstop⟩
  rw [operand_apply] at hx
  split at hx
  · next hk =>
    obtain ⟨rfl, rfl⟩ := variableName_found hx
    exact primary ⟨_, hr.took_current hk (by decide), .ident hk⟩
  · next hk =>
    obtain ⟨v, hv, rfl, rfl⟩ := numeralLiteral_found hx
    exact primary ⟨_, hr.took_current hk (by decide), .int hk hv⟩
  · next hk =>
    obtain ⟨v, hv, rfl, rfl⟩ := numeralLiteral_found hx
    exact primary ⟨_, hr.took_current hk (by decide), .float hk hv⟩
  · next hk =>
    obtain ⟨rfl, rfl⟩ := stringLiteral_found hx
    exact primary ⟨_, hr.took_current hk (by decide), .string hk⟩
  · next hk =>
    obtain ⟨rfl, rfl⟩ := boolean_found hx
    exact primary ⟨_, hr.took_current hk (by decide), by rw [hk]; exact .true hk⟩
  · next hk =>
    obtain ⟨rfl, rfl⟩ := boolean_found hx
    exact primary ⟨_, hr.took_current hk (by decide), by rw [hk]; exact .false hk⟩
  · next hk => exact unary (by rw [hk]; rfl) hx
  · next hk => exact unary (by rw [hk]; rfl) hx
  · next hk => exact primary (groupedExpression_spelled hle h.expression hx hk hr hs)
  · next hk => exact primary (conditional_spelled hle h.expression hlb h.block hx hk hr hs)
  · next hk => exact primary (functionLiteral_spelled h.block hx hk hr hs)
  · exact absurd hx refuse_found

theorem climb_succ {p q : Precedence} {left e : Expr} {ls : List Token}
    (hx : Grammar.climb Tracer.silent (n + 1) p left r = some (some e, s))
    (hl : Expr.Spelled OptionalSemicolon q ls left) (hpq : p.operandLevel ≤ q)
    (hnext : r.following.kind.precedence ≤ q) (hr : r.Ready) (hs : s.Quiet) :
    ∃ ts, r.advance.Took ts s ∧ Expr.Spelled OptionalSemicolon p.operandLevel (ls ++ ts) e ∧
      s.following.kind.precedence ≤ p := by
  obtain ⟨hstop, rfl, rfl⟩ | ⟨e₁, r₁, hp, he, hc⟩ := climb_found hx
  · rw [Precedence.not_lt] at hstop
    refine ⟨[], .nil _, ?_, hstop⟩
    rw [List.append_nil]
    exact hl.weaken hpq
  · have hlow : .lowest < r.following.kind.precedence := Nat.lt_of_le_of_lt (Precedence.lowest_le p) hp
    have hr₁ := hr.advance.reaches ((rulesObey (reachesLaw Tracer.silent) n).extension _ _ _ (some e₁) r₁ he)
    have hcs : r₁.Reaches 0 s := (rulesObey (reachesLaw Tracer.silent) n).climb p e₁ r₁ (some e) s hc
    obtain ⟨us, hu, hus, hnext₁⟩ := h.extension (r := r.advance) he hlow (hl.weaken hnext) hr.advance (hcs.quiet hs)
    obtain ⟨ts, ht, hts, hstop⟩ := h.climb hc hus (Precedence.operandLevel_le_of_lt hp) hnext₁ hr₁ hs
    rw [List.append_assoc] at hts
    exact ⟨us ++ ts, hu.append ht, hts, hstop⟩

theorem extension_succ {left e : Expr} {ls : List Token}
    (hx : Grammar.extension Tracer.silent (n + 1) r.current.kind left r = some (some e, s))
    (hlow : .lowest < r.current.kind.precedence)
    (hl : Expr.Spelled OptionalSemicolon r.current.kind.precedence ls left) (hr : r.Ready) (hs : s.Quiet) :
    ∃ ts, r.Took ts s ∧ Expr.Spelled OptionalSemicolon r.current.kind.precedence (ls ++ ts) e ∧
      s.following.kind.precedence ≤ r.current.kind.precedence := by
  rw [Grammar.extension] at hx
  split at hx
  · next hk =>
    obtain ⟨args, ha, rfl⟩ := callExpression_found hx
    obtain ⟨as, c, hta, hc, has⟩ := h.arguments ha hr hs
    rw [hk] at hl ⊢
    exact ⟨_, hr.took_cons hk (by decide) hta, .call hl hk has hc, Precedence.le_call _⟩
  · next hk =>
    have hne : r.current.kind.precedence ≠ .lowest := fun e => by rw [e] at hlow; exact absurd hlow (by decide)
    exact binaryExpression_spelled h.expression hx (Kind.infixLevel?_eq_some_iff.mpr ⟨rfl, hne, hk⟩) hl hr hs

theorem arguments_succ {es : List Expr} (hx : Grammar.arguments Tracer.silent (n + 1) r = some (some es, s))
    (hr : r.Ready) (hs : s.Quiet) :
    ∃ ts c, r.advance.Took (ts ++ [c]) s ∧ c.kind = .rparen ∧ Expr.SpelledAll OptionalSemicolon ts es := by
  obtain ⟨hk, rfl, rfl⟩ | ⟨e, r₁, es', r₂, he, hm, hk, rfl, rfl⟩ := arguments_found hx
  · exact ⟨[], r.following, hr.advance.took_current (r := r.advance) hk (by decide), hk, .nil⟩
  · have hr₁ := hr.advance.reaches ((rulesObey (reachesLaw Tracer.silent) n).expression _ _ (some e) r₁ he)
    have hm₂ : r₁.Reaches 0 r₂ := (rulesObey (reachesLaw Tracer.silent) n).moreArguments r₁ (some es') r₂ hm
    have hs₂ : r₂.Quiet := hs
    obtain ⟨ts, ht, hts, -⟩ := h.expression he hr.advance (hm₂.quiet hs₂)
    obtain ⟨us, hu, hus⟩ := h.moreArguments hm hr₁ hs₂
    exact ⟨_, _, (ht.append hu).snoc (hr₁.reaches hm₂) hk (by decide), hk, .cons hts.lowest hus⟩

theorem moreArguments_succ {es : List Expr} (hx : Grammar.moreArguments Tracer.silent (n + 1) r = some (some es, s))
    (hr : r.Ready) (hs : s.Quiet) : ∃ ts, r.advance.Took ts s ∧ Expr.SpelledMore OptionalSemicolon ts es := by
  obtain ⟨rfl, rfl⟩ | ⟨e, r₁, es', hk, he, hm, rfl⟩ := moreArguments_found hx
  · exact ⟨[], .nil _, .nil⟩
  · have hr₁ := hr.advance.advance.reaches ((rulesObey (reachesLaw Tracer.silent) n).expression _ _ (some e) r₁ he)
    have hms : r₁.Reaches 0 s := (rulesObey (reachesLaw Tracer.silent) n).moreArguments r₁ (some es') s hm
    obtain ⟨ts, ht, hts, -⟩ := h.expression he hr.advance.advance (hms.quiet hs)
    obtain ⟨us, hu, hus⟩ := h.moreArguments hm hr₁ hs
    exact ⟨_, hr.advance.took_cons (r := r.advance) hk (by decide) (ht.append hu), .cons hk hts.lowest hus⟩

theorem statement_succ {x : Stmt} (hx : Grammar.statement Tracer.silent (n + 1) r = some (some x, s)) (hr : r.Ready)
    (hs : s.Quiet) : ∃ ts, r.Took ts s ∧ Stmt.Spelled OptionalSemicolon ts x := by
  have hle := (rulesObey (reachesLaw Tracer.silent) n).expression
  rw [statement_apply] at hx
  split at hx
  · next hk => exact letStatement_spelled hle h.expression hx hk hr hs
  · next hk => exact returnStatement_spelled hle h.expression hx hk hr hs
  · next hk =>
    obtain ⟨⟨b, r₁⟩, hb, heq⟩ := Option.map_eq_some_iff.mp hx
    cases heq
    obtain ⟨ts, ht, hts⟩ := h.block hb hr hk hs
    exact ⟨ts, ht, .block hts⟩
  · exact expressionStatement_spelled hle h.expression hx hr hs

theorem block_succ {b : Block} (hx : Grammar.block Tracer.silent (n + 1) r = some (b, s)) (hr : r.Ready)
    (hk : r.current.kind = .lbrace) (hs : s.Quiet) : ∃ ts, r.Took ts s ∧ Block.Spelled OptionalSemicolon ts b := by
  rw [block_apply, announced_silent] at hx
  obtain ⟨⟨ss, r₁⟩, hi, heq⟩ := Option.map_eq_some_iff.mp hx
  cases heq
  obtain ⟨hclosed, hs₁⟩ := Reading.quiet_closeBlock hs
  have hr₀ : r.openBlock.Ready := ⟨hr.advance.eof, hr.advance.rest⟩
  have hr₁ : r₁.Ready := hr₀.reaches ((rulesObey (reachesLaw Tracer.silent) n).items r.openBlock ss r₁ hi)
  obtain ⟨ts, ht, hts⟩ := h.items hi hr₀ hs₁
  have hinside : r.advance.Took (ts ++ [r₁.current]) r₁ := by
    unfold Reading.Took
    rw [List.append_assoc, List.singleton_append, ← hr₁.rest_eq hclosed]
    exact ht
  have hwhole := hr.took_cons hk (by decide) hinside
  rw [Reading.closeBlock_of_ne_eof hclosed]
  exact ⟨_, hwhole, .mk hk hts ((items_stops hi).resolve_right hclosed)⟩

/-- A dropped statement has left its diagnostic, so nothing was dropped. -/
theorem items_succ {ss : List Stmt} (hx : Grammar.items Tracer.silent (n + 1) r = some (ss, s)) (hr : r.Ready)
    (hs : s.Quiet) : ∃ ts, r.rest = ts ++ s.rest ∧ Stmt.SpelledAll OptionalSemicolon ts ss := by
  have hlaw := rulesObey (reachesLaw Tracer.silent) n
  rw [items_apply] at hx
  split at hx
  · cases hx
    exact ⟨[], rfl, .nil⟩
  · rcases hst : Grammar.statement Tracer.silent n r with _ | ⟨_ | x, r₁⟩
    · simp [hst] at hx
    · have hnote : r.Reaches 1 r₁ := hlaw.statement r none r₁ hst
      simp only [hst] at hx
      split at hx
      · cases hx
        exact absurd hs hnote.not_quiet
      · have hrest : r₁.resync.advance.Reaches 0 s := hlaw.items _ ss s hx
        exact absurd (hrest.quiet hs) hnote.not_quiet
    · have hst' : r.Reaches 0 r₁ := hlaw.statement r (some x) r₁ hst
      simp only [hst, Option.map_eq_some_iff, Prod.mk.injEq] at hx
      obtain ⟨⟨ss', s'⟩, hi, rfl, rfl⟩ := hx
      have hrest : r₁.advance.Reaches 0 s' := hlaw.items _ ss' s' hi
      have hs₁ : r₁.Quiet := hrest.quiet hs
      obtain ⟨ts, ht, hts⟩ := h.statement hst hr hs₁
      obtain ⟨us, hu, hus⟩ := h.items hi (hr.reaches hst').advance hs
      refine ⟨ts ++ us, ?_, .cons hts hus⟩
      rw [List.append_assoc, ← hu]
      exact ht

end RulesSpell

/-- Every rule spells what it finds, whatever the limit: by induction on the limit, since every part is read with less of it. -/
theorem rulesSpell (n : Nat) : RulesSpell n := by
  induction n with
  | zero =>
    exact ⟨nofun, nofun, nofun, nofun, nofun, nofun, nofun, nofun, nofun⟩
  | succ n ih =>
    exact ⟨ih.expression_succ, ih.operand_succ, ih.climb_succ, ih.extension_succ, ih.arguments_succ,
      ih.moreArguments_succ, ih.statement_succ, ih.block_succ, ih.items_succ⟩

/-- The statements of a program are spelled by all the tokens that are left. -/
theorem program_spelled {n : Nat} {ss : List Stmt} (h : program Tracer.silent n r = some (ss, s)) (hr : r.Ready)
    (hs : s.Quiet) : Stmt.SpelledAll OptionalSemicolon r.rest ss := by
  induction n generalizing r ss with
  | zero => cases h
  | succ n ih =>
    have hlaw := rulesObey (reachesLaw Tracer.silent) n
    rw [program_apply] at h
    split at h
    · next hk =>
      cases h
      rw [hr.rest_eq_nil hk]
      exact .nil
    · rcases hst : statement Tracer.silent n r with _ | ⟨_ | x, r₁⟩
      · simp [hst] at h
      · have hnote : r.Reaches 1 r₁ := hlaw.statement r none r₁ hst
        simp only [hst] at h
        have hrest : r₁.resync.advance.Reaches 0 s := program_obeys (reachesLaw Tracer.silent) n _ ss s h
        exact absurd (hrest.quiet hs) hnote.not_quiet
      · have hst' : r.Reaches 0 r₁ := hlaw.statement r (some x) r₁ hst
        simp only [hst, Option.map_eq_some_iff, Prod.mk.injEq] at h
        obtain ⟨⟨ss', s'⟩, hp, rfl, rfl⟩ := h
        have hrest : r₁.advance.Reaches 0 s' := program_obeys (reachesLaw Tracer.silent) n _ ss' s' hp
        have hs₁ : r₁.Quiet := hrest.quiet hs
        obtain ⟨ts, ht, hts⟩ := (rulesSpell n).statement hst hr hs₁
        rw [show r.rest = _ from ht]
        exact .cons hts (ih hp (hr.reaches hst').advance)

end Grammar

/-- Where a text without diagnostics ends, nothing has been noted. -/
theorem quiet_of_parse {text : String} (h : (parse text).diagnostics = []) :
    (((Lexer.ofText text).reading ()).readAll Tracer.silent).2.Quiet := by
  unfold Reading.Quiet
  rw [← Array.length_toList]
  exact congrArg List.length h

/-- The tokens of a text that is read without a diagnostic are, all of them and in their order, a derivation of the program that is
given. -/
theorem parse_spelled (text : String) (h : (parse text).diagnostics = []) :
    Program.Spelled OptionalSemicolon (Lexer.ofText text).tokens (parse text).program := by
  have hr := Lexer.reading_ready (Lexer.ofText text) ()
  have hp := Reading.readAll_spec Tracer.silent hr
  refine Grammar.program_spelled hp hr ?_
  have hnil : (((Lexer.ofText text).reading ()).readAll Tracer.silent).2.diagnostics.toList = [] := h
  have hlen := congrArg List.length hnil
  rwa [Array.length_toList] at hlen

theorem parse_spelled_call : (parse "let f = fn(a, b) { a + b * 2 }; f(1, -2) == 5").diagnostics = [] ∧
    Program.Spelled OptionalSemicolon (Lexer.ofText "let f = fn(a, b) { a + b * 2 }; f(1, -2) == 5").tokens
      (parse "let f = fn(a, b) { a + b * 2 }; f(1, -2) == 5").program :=
  have h : (parse "let f = fn(a, b) { a + b * 2 }; f(1, -2) == 5").diagnostics = [] := by decide +kernel
  ⟨h, parse_spelled _ h⟩

end Scriptlet
