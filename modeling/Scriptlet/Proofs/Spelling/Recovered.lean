import Scriptlet.Proofs.Spelling.Sound
import Scriptlet.Proofs.Spelling.Span
import Scriptlet.Proofs.Token.Place

/-!
# What is read from any text

Reading goes on after a mistake: it drops a statement with the nodes read so far, closes a block early, and goes on in the middle of
what it has not understood. Even so the tree that is given is made of the tokens of the text, each of them used at most once, in their
order and for what it is (`parse_intact`).

Every rule that finds its phrase has read tokens that span it, whatever has been noted on the way (`RulesSpan`). A statement that is
dropped has taken tokens off the text and left nothing in the tree.
-/

namespace Scriptlet

namespace Reading

variable {r s : Reading Unit}

/-- The tokens read from one reading to another are of some form, and reading can go on. -/
structure Reads (r : Reading Unit) (P : List Token → Prop) (s : Reading Unit) : Prop where
  ready : s.Ready
  took : ∃ ts, r.Took ts s ∧ P ts

/-- Nothing is read. -/
theorem Ready.reads_nil {P : List Token → Prop} (hr : r.Ready) (hP : P []) : r.advance.Reads P r := ⟨hr, [], .nil r, hP⟩

theorem Ready.reads_current {k : Kind} {P : List Token → Prop} (hr : r.Ready) (hk : r.current.kind = k) (he : k ≠ .eof)
    (hP : P [r.current]) : r.Reads P r :=
  ⟨hr, _, hr.took_current hk he, hP⟩

theorem Ready.ready_end (hr : r.Ready) : Ready (if r.following.kind = .semicolon then r.advance else r) := by
  split
  · exact hr.advance
  · exact hr

end Reading

namespace Grammar

variable {r s : Reading Unit}

/-! ## Phrases with parts -/

section

variable {expression : Precedence → Parse Unit Expr} {block : Step Unit Block}
  (he : ∀ {p e r s}, expression p r = some (some e, s) → r.Ready → r.Reads (Expr.Spans · e) s)
  (hb : ∀ {b r s}, block r = some (b, s) → r.Ready → r.current.kind = .lbrace → r.Reads (Block.Spans · b) s)

include he

theorem letStatement_spans {x : Stmt} (h : letStatement Tracer.silent expression r = some (some x, s))
    (hk : r.current.kind = .kwLet) (hr : r.Ready) : r.Reads (Stmt.Spans · x) s := by
  obtain ⟨hi, ha, e, r₁, hx, rfl, rfl⟩ := letStatement_found h
  obtain ⟨hr₁, ts, ht, hts⟩ := he hx hr.advance.advance.advance
  obtain ⟨us, hu, hus⟩ := hr₁.took_end
  have hassign := hr.advance.advance.took_cons (r := r.advance.advance) ha (by decide) (ht.append hu)
  have hname := hr.advance.took_cons (r := r.advance) hi (by decide) hassign
  exact ⟨hr₁.ready_end, _, hr.took_cons hk (by decide) hname, .bind hk hi ha hts hus⟩

theorem returnStatement_spans {x : Stmt} (h : returnStatement Tracer.silent expression r = some (some x, s))
    (hk : r.current.kind = .kwReturn) (hr : r.Ready) : r.Reads (Stmt.Spans · x) s := by
  obtain ⟨e, r₁, hx, rfl, rfl⟩ := returnStatement_found h
  obtain ⟨hr₁, ts, ht, hts⟩ := he hx hr.advance
  obtain ⟨us, hu, hus⟩ := hr₁.took_end
  exact ⟨hr₁.ready_end, _, hr.took_cons hk (by decide) (ht.append hu), .ret hk hts hus⟩

/-- An expression statement keeps the token it is read from. -/
theorem expressionStatement_spans {x : Stmt}
    (h : expressionStatement Tracer.silent expression r = some (some x, s)) (hr : r.Ready) : r.Reads (Stmt.Spans · x) s := by
  obtain ⟨e, r₁, hx, rfl, rfl⟩ := expressionStatement_found h
  obtain ⟨hr₁, ts, ht, hts⟩ := he hx hr
  obtain ⟨us, hu, hus⟩ := hr₁.took_end
  obtain ⟨opens, t, ⟨rest, hrest⟩, -, -⟩ := hts.leads
  have hcur : ts = r.current :: ts.tail := by
    unfold Reading.current
    rw [show r.rest = _ from ht, hrest]
    cases opens <;> rfl
  rw [hcur] at ht hts
  exact ⟨hr₁.ready_end, _, ht.append hu, .expr hts hus⟩

theorem unaryExpression_spans {x : Expr} (h : unaryExpression Tracer.silent expression r = some (some x, s))
    (hk : r.current.kind.isUnary = true) (hr : r.Ready) : r.Reads (Expr.Spans · x) s := by
  obtain ⟨e, hx, rfl⟩ := unaryExpression_found h
  obtain ⟨hs, ts, ht, hts⟩ := he hx hr.advance
  have hne : r.current.kind ≠ .eof := fun e => by rw [e] at hk; cases hk
  exact ⟨hs, _, hr.took_cons rfl hne ht, .unary hk hts⟩

/-- The operator and its right operand, behind the left one. -/
theorem binaryExpression_spans {p : Precedence} {left x : Expr} {ls : List Token}
    (h : binaryExpression Tracer.silent expression left r = some (some x, s)) (hk : r.current.kind.infixLevel? = some p)
    (hl : Expr.Spans ls left) (hr : r.Ready) : r.Reads (fun ts => Expr.Spans (ls ++ ts) x) s := by
  obtain ⟨right, hx, rfl⟩ := binaryExpression_found h
  obtain ⟨hs, ts, ht, hts⟩ := he hx hr.advance
  have hne : r.current.kind ≠ .eof := fun e => by rw [e] at hk; cases hk
  exact ⟨hs, _, hr.took_cons rfl hne ht, .binary hk hl hts⟩

theorem groupedExpression_spans {x : Expr} (h : groupedExpression expression r = some (some x, s))
    (hk : r.current.kind = .lparen) (hr : r.Ready) : r.Reads (Expr.Spans · x) s := by
  obtain ⟨r₁, hx, hc, rfl⟩ := groupedExpression_found h
  obtain ⟨hr₁, ts, ht, hts⟩ := he hx hr.advance
  exact ⟨hr₁.advance, _, hr.took_cons hk (by decide) (ht.snoc hr₁ hc (by decide)), .group hk hts hc⟩

omit he in
include hb in
/-- The block after `else`, behind the one before it. -/
theorem alternative_spans {b? : Option Block} (h : alternative block r = some (some b?, s)) (hr : r.Ready) :
    r.advance.Reads (Block.SpansElse · b?) s := by
  obtain ⟨rfl, rfl⟩ | ⟨b, hk, hl, hx, rfl⟩ := alternative_found h
  · exact hr.reads_nil .none
  · obtain ⟨hs, ts, ht, hts⟩ := hb hx hr.advance.advance hl
    exact ⟨hs, _, hr.advance.took_cons (r := r.advance) hk (by decide) ht, .some hk hts⟩

include hb in
theorem conditional_spans {x : Expr} (h : conditional Tracer.silent expression block r = some (some x, s))
    (hk : r.current.kind = .kwIf) (hr : r.Ready) : r.Reads (Expr.Spans · x) s := by
  obtain ⟨hl, c, r₁, hx, hc, ho, a, r₂, ha, b?, hb?, rfl⟩ := conditional_found h
  obtain ⟨hr₁, cs, htc, hcs⟩ := he hx hr.advance.advance
  obtain ⟨hr₂, as, hta, has⟩ := hb ha hr₁.advance.advance ho
  obtain ⟨hs, bs, htb, hbs⟩ := alternative_spans hb hb? hr₂
  have hclose := hr₁.advance.took_cons (r := r₁.advance) hc (by decide) (hta.append htb)
  have hopen := hr.advance.took_cons (r := r.advance) hl (by decide) (htc.append hclose)
  exact ⟨hs, _, hr.took_cons hk (by decide) hopen, .cond hk hl hcs hc has hbs⟩

omit he in
include hb in
theorem functionLiteral_spans {limit : Nat} {x : Expr}
    (h : functionLiteral Tracer.silent block limit r = some (some x, s)) (hk : r.current.kind = .kwFn) (hr : r.Ready) :
    r.Reads (Expr.Spans · x) s := by
  obtain ⟨hl, ids, r₁, hi, ho, b, hx, rfl⟩ := functionLiteral_found h
  have hr₁ := hr.advance.reaches (parameters_obeys (L := reachesLaw Tracer.silent) _ (some ids) r₁ hi)
  obtain ⟨is, c, hti, hc, his⟩ := parameters_spelled hi hr.advance
  obtain ⟨hs, bs, htb, hbs⟩ := hb hx hr₁.advance ho
  have hopen := hr.advance.took_cons (r := r.advance) hl (by decide) (hti.append htb)
  rw [List.append_assoc] at hopen
  exact ⟨hs, _, hr.took_cons hk (by decide) hopen, .function hk hl his hc hbs⟩

end

/-! ## Phrases that contain each other -/

/-- A statement that is not read is left behind. -/
theorem statement_dropped {n : Nat} (h : statement Tracer.silent n r = some (none, s)) : r.Reaches 0 s.resync :=
  Reading.Reaches.resync ((rulesObey (reachesLaw Tracer.silent) n).statement r none s h)

/-- What the rules that contain each other find is spanned by the tokens they read. -/
structure RulesSpan (n : Nat) : Prop where
  expression {p : Precedence} {e : Expr} {r s : Reading Unit} : expression Tracer.silent n p r = some (some e, s) →
    r.Ready → r.Reads (Expr.Spans · e) s
  operand {e : Expr} {r s : Reading Unit} : operand Tracer.silent n r = some (some e, s) → r.Ready →
    r.Reads (Expr.Spans · e) s
  climb {p : Precedence} {left e : Expr} {ls : List Token} {r s : Reading Unit} :
    climb Tracer.silent n p left r = some (some e, s) → Expr.Spans ls left → r.Ready →
    r.advance.Reads (fun ts => Expr.Spans (ls ++ ts) e) s
  extension {left e : Expr} {ls : List Token} {r s : Reading Unit} :
    extension Tracer.silent n r.current.kind left r = some (some e, s) → .lowest < r.current.kind.precedence →
    Expr.Spans ls left → r.Ready → r.Reads (fun ts => Expr.Spans (ls ++ ts) e) s
  arguments {es : List Expr} {r s : Reading Unit} : arguments Tracer.silent n r = some (some es, s) → r.Ready →
    r.advance.Reads (fun ts => ∃ us c, ts = us ++ [c] ∧ c.kind = .rparen ∧ Expr.SpansAll us es) s
  moreArguments {es : List Expr} {r s : Reading Unit} : moreArguments Tracer.silent n r = some (some es, s) → r.Ready →
    r.advance.Reads (Expr.SpansMore · es) s
  statement {x : Stmt} {r s : Reading Unit} : statement Tracer.silent n r = some (some x, s) → r.Ready →
    r.Reads (Stmt.Spans · x) s
  block {b : Block} {r s : Reading Unit} : block Tracer.silent n r = some (b, s) → r.Ready → r.current.kind = .lbrace →
    r.Reads (Block.Spans · b) s
  /-- The statements of a block stop before its closing brace. -/
  items {ss : List Stmt} {r s : Reading Unit} : items Tracer.silent n r = some (ss, s) → r.Ready →
    s.Ready ∧ ∃ ts, r.rest = ts ++ s.rest ∧ Stmt.SpansAll ts ss

namespace RulesSpan

variable {n : Nat} (h : RulesSpan n)

include h

theorem expression_succ {p : Precedence} {e : Expr} (hx : Grammar.expression Tracer.silent (n + 1) p r = some (some e, s))
    (hr : r.Ready) : r.Reads (Expr.Spans · e) s := by
  obtain ⟨e₁, r₁, ho, hc⟩ := expression_found hx
  obtain ⟨hr₁, ls, htl, hls⟩ := h.operand ho hr
  obtain ⟨hs, ts, ht, hts⟩ := h.climb hc hls hr₁
  exact ⟨hs, ls ++ ts, htl.append ht, hts⟩

theorem operand_succ {e : Expr} (hx : Grammar.operand Tracer.silent (n + 1) r = some (some e, s)) (hr : r.Ready) :
    r.Reads (Expr.Spans · e) s := by
  rw [operand_apply] at hx
  split at hx
  · next hk =>
    obtain ⟨rfl, rfl⟩ := variableName_found hx
    exact hr.reads_current hk (by decide) (.ident hk)
  · next hk =>
    obtain ⟨v, hv, rfl, rfl⟩ := numeralLiteral_found hx
    exact hr.reads_current hk (by decide) (.int hk hv)
  · next hk =>
    obtain ⟨v, hv, rfl, rfl⟩ := numeralLiteral_found hx
    exact hr.reads_current hk (by decide) (.float hk hv)
  · next hk =>
    obtain ⟨rfl, rfl⟩ := stringLiteral_found hx
    exact hr.reads_current hk (by decide) (.string hk)
  · next hk =>
    obtain ⟨rfl, rfl⟩ := boolean_found hx
    exact hr.reads_current hk (by decide) (by rw [hk]; exact .true hk)
  · next hk =>
    obtain ⟨rfl, rfl⟩ := boolean_found hx
    exact hr.reads_current hk (by decide) (by rw [hk]; exact .false hk)
  · next hk => exact unaryExpression_spans h.expression hx (by rw [hk]; rfl) hr
  · next hk => exact unaryExpression_spans h.expression hx (by rw [hk]; rfl) hr
  · next hk => exact groupedExpression_spans h.expression hx hk hr
  · next hk => exact conditional_spans h.expression h.block hx hk hr
  · next hk => exact functionLiteral_spans h.block hx hk hr
  · exact absurd hx refuse_found

theorem climb_succ {p : Precedence} {left e : Expr} {ls : List Token}
    (hx : Grammar.climb Tracer.silent (n + 1) p left r = some (some e, s)) (hl : Expr.Spans ls left) (hr : r.Ready) :
    r.advance.Reads (fun ts => Expr.Spans (ls ++ ts) e) s := by
  obtain ⟨-, rfl, rfl⟩ | ⟨e₁, r₁, hp, he, hc⟩ := climb_found hx
  · refine hr.reads_nil ?_
    rw [List.append_nil]
    exact hl
  · have hlow : .lowest < r.following.kind.precedence := Nat.lt_of_le_of_lt (Precedence.lowest_le p) hp
    obtain ⟨hr₁, us, hu, hus⟩ := h.extension (r := r.advance) he hlow hl hr.advance
    obtain ⟨hs, ts, ht, hts⟩ := h.climb hc hus hr₁
    rw [List.append_assoc] at hts
    exact ⟨hs, us ++ ts, hu.append ht, hts⟩

theorem extension_succ {left e : Expr} {ls : List Token}
    (hx : Grammar.extension Tracer.silent (n + 1) r.current.kind left r = some (some e, s))
    (hlow : .lowest < r.current.kind.precedence) (hl : Expr.Spans ls left) (hr : r.Ready) :
    r.Reads (fun ts => Expr.Spans (ls ++ ts) e) s := by
  rw [Grammar.extension] at hx
  split at hx
  · next hk =>
    obtain ⟨args, ha, rfl⟩ := callExpression_found hx
    obtain ⟨hs, _, hta, as, c, rfl, hc, has⟩ := h.arguments ha hr
    exact ⟨hs, _, hr.took_cons hk (by decide) hta, .call hl hk has hc⟩
  · next hk =>
    have hne : r.current.kind.precedence ≠ .lowest := fun e => by rw [e] at hlow; exact absurd hlow (by decide)
    exact binaryExpression_spans h.expression hx (Kind.infixLevel?_eq_some_iff.mpr ⟨rfl, hne, hk⟩) hl hr

theorem arguments_succ {es : List Expr} (hx : Grammar.arguments Tracer.silent (n + 1) r = some (some es, s))
    (hr : r.Ready) : r.advance.Reads (fun ts => ∃ us c, ts = us ++ [c] ∧ c.kind = .rparen ∧ Expr.SpansAll us es) s := by
  obtain ⟨hk, rfl, rfl⟩ | ⟨e, r₁, es', r₂, he, hm, hk, rfl, rfl⟩ := arguments_found hx
  · exact hr.advance.reads_current (r := r.advance) hk (by decide) ⟨[], _, rfl, hk, .nil⟩
  · obtain ⟨hr₁, ts, ht, hts⟩ := h.expression he hr.advance
    obtain ⟨hr₂, us, hu, hus⟩ := h.moreArguments hm hr₁
    exact ⟨hr₂.advance, _, (ht.append hu).snoc hr₂ hk (by decide), _, _, rfl, hk, .cons hts hus⟩

theorem moreArguments_succ {es : List Expr} (hx : Grammar.moreArguments Tracer.silent (n + 1) r = some (some es, s))
    (hr : r.Ready) : r.advance.Reads (Expr.SpansMore · es) s := by
  obtain ⟨rfl, rfl⟩ | ⟨e, r₁, es', hk, he, hm, rfl⟩ := moreArguments_found hx
  · exact hr.reads_nil .nil
  · obtain ⟨hr₁, ts, ht, hts⟩ := h.expression he hr.advance.advance
    obtain ⟨hs, us, hu, hus⟩ := h.moreArguments hm hr₁
    exact ⟨hs, _, hr.advance.took_cons (r := r.advance) hk (by decide) (ht.append hu), .cons hk hts hus⟩

theorem statement_succ {x : Stmt} (hx : Grammar.statement Tracer.silent (n + 1) r = some (some x, s)) (hr : r.Ready) :
    r.Reads (Stmt.Spans · x) s := by
  rw [statement_apply] at hx
  split at hx
  · next hk => exact letStatement_spans h.expression hx hk hr
  · next hk => exact returnStatement_spans h.expression hx hk hr
  · next hk =>
    obtain ⟨⟨b, r₁⟩, hb, heq⟩ := Option.map_eq_some_iff.mp hx
    cases heq
    obtain ⟨hs, ts, ht, hts⟩ := h.block hb hr hk
    exact ⟨hs, ts, ht, .block hts⟩
  · exact expressionStatement_spans h.expression hx hr

/-- A block that the end of the text leaves open has no closing brace. -/
theorem block_succ {b : Block} (hx : Grammar.block Tracer.silent (n + 1) r = some (b, s)) (hr : r.Ready)
    (hk : r.current.kind = .lbrace) : r.Reads (Block.Spans · b) s := by
  have hready : s.Ready := hr.reaches ((rulesObey (reachesLaw Tracer.silent) (n + 1)).block r b s hx)
  rw [block_apply, announced_silent] at hx
  obtain ⟨⟨ss, r₁⟩, hi, heq⟩ := Option.map_eq_some_iff.mp hx
  cases heq
  obtain ⟨hr₁, ts, ht, hts⟩ := h.items hi ⟨hr.advance.eof, hr.advance.rest⟩
  by_cases hclosed : r₁.current.kind = .eof
  · have hinside : r.advance.Took ts r₁ := by
      unfold Reading.Took
      rw [hr₁.rest_eq_nil hclosed] at ht ⊢
      exact ht
    have hwhole := hr.took_cons hk (by decide) hinside
    rw [Reading.closeBlock_of_eof hclosed] at hready ⊢
    exact ⟨hready, _, hwhole, .cut hk hts⟩
  · have hinside : r.advance.Took (ts ++ [r₁.current]) r₁ := by
      unfold Reading.Took
      rw [List.append_assoc, List.singleton_append, ← hr₁.rest_eq hclosed]
      exact ht
    have hwhole := hr.took_cons hk (by decide) hinside
    rw [Reading.closeBlock_of_ne_eof hclosed] at hready ⊢
    exact ⟨hready, _, hwhole, .closed hk hts ((items_stops hi).resolve_right hclosed)⟩

/-- A statement that is dropped has taken tokens off, and leaves nothing else. -/
theorem items_succ {ss : List Stmt} (hx : Grammar.items Tracer.silent (n + 1) r = some (ss, s)) (hr : r.Ready) :
    s.Ready ∧ ∃ ts, r.rest = ts ++ s.rest ∧ Stmt.SpansAll ts ss := by
  rw [items_apply] at hx
  split at hx
  · cases hx
    exact ⟨hr, [], rfl, .nil⟩
  · rcases hst : Grammar.statement Tracer.silent n r with _ | ⟨_ | x, r₁⟩
    · simp [hst] at hx
    · have hskip := statement_dropped hst
      simp only [hst] at hx
      split at hx
      · cases hx
        obtain ⟨ts, hts⟩ := hskip.rest
        exact ⟨hr.reaches hskip, ts ++ [], by rw [List.append_nil]; exact hts.symm, .skip ts .nil⟩
      · obtain ⟨ts, hts⟩ := (hskip.trans (.advance _)).rest
        obtain ⟨hs, us, hu, hus⟩ := h.items hx (hr.reaches hskip).advance
        refine ⟨hs, ts ++ us, ?_, .skip ts hus⟩
        rw [List.append_assoc, ← hu]
        exact hts.symm
    · simp only [hst, Option.map_eq_some_iff, Prod.mk.injEq] at hx
      obtain ⟨⟨ss', s'⟩, hi, rfl, rfl⟩ := hx
      obtain ⟨hr₁, ts, ht, hts⟩ := h.statement hst hr
      obtain ⟨hs, us, hu, hus⟩ := h.items hi hr₁.advance
      refine ⟨hs, ts ++ us, ?_, .cons hts hus⟩
      rw [List.append_assoc, ← hu]
      exact ht

end RulesSpan

/-- What every rule finds is spanned by the tokens it reads, whatever the limit: by induction on the limit, since every part is read
with less of it. -/
theorem rulesSpan (n : Nat) : RulesSpan n := by
  induction n with
  | zero =>
    exact ⟨nofun, nofun, nofun, nofun, nofun, nofun, nofun, nofun, nofun⟩
  | succ n ih =>
    exact ⟨ih.expression_succ, ih.operand_succ, ih.climb_succ, ih.extension_succ, ih.arguments_succ,
      ih.moreArguments_succ, ih.statement_succ, ih.block_succ, ih.items_succ⟩

/-- The statements of a program are spanned by the tokens that are left. -/
theorem program_spans {n : Nat} {ss : List Stmt} (h : program Tracer.silent n r = some (ss, s)) (hr : r.Ready) :
    Stmt.SpansAll r.rest ss := by
  induction n generalizing r ss with
  | zero => cases h
  | succ n ih =>
    rw [program_apply] at h
    split at h
    · next hk =>
      cases h
      rw [hr.rest_eq_nil hk]
      exact .nil
    · rcases hst : statement Tracer.silent n r with _ | ⟨_ | x, r₁⟩
      · simp [hst] at h
      · have hskip := statement_dropped hst
        simp only [hst] at h
        obtain ⟨ts, hts⟩ := (hskip.trans (.advance _)).rest
        rw [← hts]
        exact .skip ts (ih h (hr.reaches hskip).advance)
      · simp only [hst, Option.map_eq_some_iff, Prod.mk.injEq] at h
        obtain ⟨⟨ss', s'⟩, hp, rfl, rfl⟩ := h
        obtain ⟨hr₁, ts, ht, hts⟩ := (rulesSpan n).statement hst hr
        rw [show r.rest = _ from ht]
        exact .cons hts (ih hp hr₁.advance)

end Grammar

/-! ## The tree of a text -/

/-- The tokens of a text span the tree that is read from it, with mistakes in the text or without. -/
theorem parse_spans (text : String) : Stmt.SpansAll (Lexer.ofText text).tokens (parse text).program.statements := by
  have hr := Lexer.reading_ready (Lexer.ofText text) ()
  exact Grammar.program_spans (Reading.readAll_spec Tracer.silent hr) hr

/-- The nodes of the tree that is read from a text stand in the order of its tokens. -/
theorem parse_listed (text : String) : Listed (Lexer.ofText text).tokens (parse text).program.nodes := (parse_spans text).listed

/-- An expression statement of a tree that is read from a text: its token is the first one of its expression's text, and stands at or
before the first token of the expression's nodes. Between the two there are only parentheses. -/
def Stmt.StartsAt (ts : List Token) (t : Token) (e : Expr) : Prop :=
  ∃ text opens first, text <:+: ts ∧ Expr.Spans text e ∧ text.head? = some t ∧ e.Leads text opens first ∧ t.pos ≤ first.pos

/-- Where tokens stand at rising places, the first token of a text stands at or before every other one. -/
theorem Stmt.StartsIn.startsAt {ts : List Token} {t : Token} {e : Expr} (h : Stmt.StartsIn ts t e) (hts : Rising ts) :
    Stmt.StartsAt ts t e := by
  obtain ⟨text, opens, first, hin, hspans, hhead, hleads⟩ := h
  refine ⟨text, opens, first, hin, hspans, hhead, hleads, ?_⟩
  obtain ⟨rest, rfl⟩ := hleads.text
  have hrising := hts.sublist hin.sublist
  cases opens with
  | nil =>
    cases hhead
    exact le_rfl
  | cons o opens =>
    cases hhead
    exact ((List.pairwise_cons.mp hrising).1 first (List.mem_append_right _ List.mem_cons_self)).le

/-- A tree whose nodes are what the tokens of a text say, in the order of the text. -/
structure Intact (text : String) (p : Program) : Prop where
  /-- Phrase by phrase, the tree is that of the tokens, but for what is left out between statements. -/
  spans : Stmt.SpansAll (Lexer.ofText text).tokens p.statements
  /-- The nodes' tokens are some of the tokens of the text, in their order. -/
  sublist : p.tokens.Sublist (Lexer.ofText text).tokens
  /-- No token is kept twice, and none stands before one that comes earlier in the tree. -/
  rising : Rising p.tokens
  agrees : ∀ n ∈ p.nodes, n.Agrees
  starts : ∀ t e, .stmt (.expr t e) ∈ p.nodes → Stmt.StartsAt (Lexer.ofText text).tokens t e

/-- The tree that is read from a text, with mistakes in it or without, is intact: no token is used twice, out of order or for something
else than what it is. -/
theorem parse_intact (text : String) : Intact text (parse text).program := by
  have hrising := (Lexer.ofText text).rising_tokens
  have hlisted := parse_listed text
  exact ⟨parse_spans text, hlisted.sublist, hrising.sublist hlisted.sublist, hlisted.agrees,
    fun t e hmem => (hlisted.starts t e hmem).startsAt hrising⟩

end Scriptlet
