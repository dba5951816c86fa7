import Scriptlet.Proofs.Reading.Gives
import Scriptlet.Proofs.Reading.Limit
import Scriptlet.Proofs.Spelling

/-!
# What is in the grammar is read

Tokens that the grammar derives a program from are read as that program, without a diagnostic, if every statement that can end
with a semicolon does (`Program.Spelled.readAll`).

Each phrase is found at the front of whatever follows it. An expression of a level may be followed by any token that binds no more
than the level, and only a choice has a part that the next token might start: the token is not `else` (`Kind.Closes`). A place that
binds less than the level takes the whole expression and then goes on with the tokens behind it: reading it from the start comes to
the same as climbing from its end (`Grammar.Resumes`), so the left operand of an operator is read as if it stood alone.
-/

namespace Scriptlet

variable {σ : Type}

/-- The reading with other tokens left. -/
def Reading.on (r : Reading σ) (ts : List Token) : Reading σ := { r with rest := ts }

/-- A token does not go on with an expression of a level before it. -/
def Kind.Closes (k : Kind) (p : Precedence) : Prop := k.precedence ≤ p ∧ k ≠ .kwElse

namespace Kind

theorem Closes.mono {k : Kind} {p q : Precedence} (h : k.Closes p) (hpq : p ≤ q) : k.Closes q :=
  ⟨Precedence.le_trans h.1 hpq, h.2⟩

/-- A token that binds nothing closes every level, unless it is `else`. -/
theorem closes_of_lowest {k : Kind} {p : Precedence} (h : k.precedence = .lowest) (he : k ≠ .kwElse) : k.Closes p :=
  ⟨h ▸ Precedence.lowest_le p, he⟩

theorem closes_rparen {k : Kind} {p : Precedence} (h : k = .rparen) : k.Closes p := by
  subst h
  exact closes_of_lowest rfl (by decide)

theorem closes_comma {k : Kind} {p : Precedence} (h : k = .comma) : k.Closes p := by
  subst h
  exact closes_of_lowest rfl (by decide)

theorem closes_semicolon {k : Kind} {p : Precedence} (h : k = .semicolon) : k.Closes p := by
  subst h
  exact closes_of_lowest rfl (by decide)

theorem closes_lparen {k : Kind} (h : k = .lparen) : k.Closes .call := by
  subst h
  exact ⟨Precedence.le_refl _, by decide⟩

theorem closes_infix {k : Kind} {p : Precedence} (h : k.infixLevel? = some p) : k.Closes p := by
  refine ⟨?_, fun e => by rw [e] at h; cases h⟩
  rw [(infixLevel?_eq_some_iff.mp h).1]
  exact Precedence.le_refl p

end Kind

namespace Precedence

/-- A place takes every expression of a level: the level binds more than the place, or the place binds nothing. -/
def Takes (p q : Precedence) : Prop := p = lowest ∨ p.operandLevel ≤ q

theorem Takes.mono {p q q' : Precedence} (h : p.Takes q) (hq : q ≤ q') : p.Takes q' :=
  h.imp_right fun h => le_trans h hq

theorem Takes.lt {p q : Precedence} (h : p.Takes q) (hq : q ≠ lowest) (hlt : q < unary) : p < q := by
  revert h hq hlt
  unfold Takes
  cases p <;> cases q <;> decide

end Precedence

namespace Grammar

variable {p : Precedence} {r s t : Reading Unit} {e e' : Expr}

/-! ## Operands and operators -/

/-- Reading an expression from one reading comes to the same as climbing on with an expression at another, if it ends. -/
def Resumes (p : Precedence) (r : Reading Unit) (e : Expr) (s : Reading Unit) : Prop :=
  ∀ n x, expression Tracer.silent n p r = some x → ∃ m, climb Tracer.silent m p e s = some x

theorem resumes_of_operand (h : ∀ n, (operand Tracer.silent n).Gives r e s) : Resumes p r e s := by
  intro n x hx
  cases n with
  | zero => cases hx
  | succ n =>
    rw [expression, traced_silent, Parse.bind_apply] at hx
    rcases ho : operand Tracer.silent n r with _ | y
    · rw [ho] at hx
      cases hx
    · obtain rfl := h n y ho
      rw [ho] at hx
      exact ⟨n, hx⟩

/-- Climbing takes one operator more. -/
theorem Resumes.extend (h : Resumes p r e s) (hp : p < s.following.kind.precedence)
    (he : ∀ n, (extension Tracer.silent n s.following.kind e).Gives s.advance e' t) : Resumes p r e' t := by
  intro n x hx
  obtain ⟨m, hm⟩ := h n x hx
  cases m with
  | zero => cases hm
  | succ m =>
    rw [climb, Parse.get_bind, if_pos hp, Parse.advance_bind, Parse.bind_apply] at hm
    rcases ho : extension Tracer.silent m s.following.kind e s.advance with _ | y
    · rw [ho] at hm
      cases hm
    · obtain rfl := he m y ho
      rw [ho] at hm
      exact ⟨m, hm⟩

/-- Climbing ends before a token that binds no more than the place. -/
theorem Resumes.gives (h : Resumes p r e s) (hs : s.following.kind.precedence ≤ p) (n : Nat) :
    (expression Tracer.silent n p).Gives r e s := by
  intro x hx
  obtain ⟨m, hm⟩ := h n x hx
  cases m with
  | zero => cases hm
  | succ m =>
    rw [climb, Parse.get_bind, if_neg (Precedence.not_lt.mpr hs)] at hm
    exact Parse.gives_pure e x hm

/-- An operand is what its first token says. -/
theorem operand_gives {q : Nat → Parse Unit Expr} (h : ∀ n, operand Tracer.silent (n + 1) r = q n r)
    (hq : ∀ n, (q n).Gives r e s) (n : Nat) : (operand Tracer.silent n).Gives r e s := by
  cases n with
  | zero => exact nofun
  | succ n =>
    intro x hx
    rw [h] at hx
    exact hq n x hx

theorem operand_ident (hk : r.current.kind = .ident) (n : Nat) :
    (operand Tracer.silent n).Gives r (.ident ⟨r.current, r.current.literal⟩) r :=
  operand_gives (fun n => by rw [operand_apply, hk]) (fun _ => variableName_gives) n

theorem operand_int {v : Int64} (hk : r.current.kind = .int) (hv : Numeral.integer? r.current.literal = some v) (n : Nat) :
    (operand Tracer.silent n).Gives r (.int r.current v) r :=
  operand_gives (q := fun _ => integerLiteral Tracer.silent) (fun n => by rw [operand_apply, hk]) (fun _ => numeralLiteral_gives hv) n

theorem operand_float {v : Float} (hk : r.current.kind = .float) (hv : Numeral.float? r.current.literal = some v)
    (n : Nat) : (operand Tracer.silent n).Gives r (.float r.current v) r :=
  operand_gives (q := fun _ => floatLiteral Tracer.silent) (fun n => by rw [operand_apply, hk]) (fun _ => numeralLiteral_gives hv) n

theorem operand_string (hk : r.current.kind = .string) (n : Nat) :
    (operand Tracer.silent n).Gives r (.string r.current r.current.literal) r :=
  operand_gives (fun n => by rw [operand_apply, hk]) (fun _ => stringLiteral_gives) n

theorem operand_true (hk : r.current.kind = .kwTrue) (n : Nat) :
    (operand Tracer.silent n).Gives r (.bool r.current true) r := by
  have h := boolean_gives (r := r)
  rw [hk] at h
  exact operand_gives (fun n => by rw [operand_apply, hk]) (fun _ => h) n

theorem operand_false (hk : r.current.kind = .kwFalse) (n : Nat) :
    (operand Tracer.silent n).Gives r (.bool r.current false) r := by
  have h := boolean_gives (r := r)
  rw [hk] at h
  exact operand_gives (fun n => by rw [operand_apply, hk]) (fun _ => h) n

theorem operand_group (hk : r.current.kind = .lparen) (he : ∀ n, (expression Tracer.silent n .lowest).Gives r.advance e s)
    (hs : s.following.kind = .rparen) (n : Nat) : (operand Tracer.silent n).Gives r e s.advance :=
  operand_gives (fun n => by rw [operand_apply, hk]) (fun n => groupedExpression_gives (he n) hs) n

theorem operand_cond {c : Expr} {a : Block} {b? : Option Block} {r₁ r₂ : Reading Unit} (hk : r.current.kind = .kwIf)
    (hl : r.following.kind = .lparen) (he : ∀ n, (expression Tracer.silent n .lowest).Gives r.advance.advance c r₁)
    (hc : r₁.following.kind = .rparen) (ho : r₁.advance.following.kind = .lbrace)
    (ha : ∀ n, (block Tracer.silent n).Gives r₁.advance.advance a r₂)
    (hb : ∀ n, (alternative (block Tracer.silent n)).Gives r₂ b? s) (n : Nat) :
    (operand Tracer.silent n).Gives r (.cond r.current c a b?) s :=
  operand_gives (fun n => by rw [operand_apply, hk]) (fun n => conditional_gives hl (he n) hc ho (ha n) (hb n)) n

theorem operand_function {ids : List Identifier} {b : Block} {r₁ : Reading Unit} (hk : r.current.kind = .kwFn)
    (hl : r.following.kind = .lparen) (hi : ∀ n, (parameters Tracer.silent n).Gives r.advance ids r₁)
    (ho : r₁.following.kind = .lbrace) (hb : ∀ n, (block Tracer.silent n).Gives r₁.advance b s) (n : Nat) :
    (operand Tracer.silent n).Gives r (.function r.current ids b) s :=
  operand_gives (fun n => by rw [operand_apply, hk]) (fun n => functionLiteral_gives hl (hi n) ho (hb n)) n

theorem operand_unary (hk : r.current.kind.isUnary) (he : ∀ n, (expression Tracer.silent n .unary).Gives r.advance e s)
    (n : Nat) : (operand Tracer.silent n).Gives r (.unary r.current r.current.literal e) s := by
  refine operand_gives (fun n => ?_) (fun n => unaryExpression_gives (he n)) n
  rw [operand_apply]
  cases h : r.current.kind <;> rw [h] at hk <;> cases hk

/-- A statement is what its first token says. -/
theorem statement_gives {q : Nat → Parse Unit Stmt} {st : Stmt} (h : ∀ n, statement Tracer.silent (n + 1) r = q n r)
    (hq : ∀ n, (q n).Gives r st s) (n : Nat) : (statement Tracer.silent n).Gives r st s := by
  cases n with
  | zero => exact nofun
  | succ n =>
    intro x hx
    rw [h] at hx
    exact hq n x hx

theorem statement_let (hk : r.current.kind = .kwLet) (hi : r.following.kind = .ident)
    (ha : r.advance.following.kind = .assign)
    (he : ∀ n, (expression Tracer.silent n .lowest).Gives r.advance.advance.advance e s)
    (hs : s.following.kind = .semicolon) (n : Nat) :
    (statement Tracer.silent n).Gives r (.bind r.current ⟨r.following, r.following.literal⟩ e) s.advance :=
  statement_gives (fun n => by rw [statement_apply, hk]) (fun n => letStatement_gives hi ha (he n) hs) n

theorem statement_return (hk : r.current.kind = .kwReturn)
    (he : ∀ n, (expression Tracer.silent n .lowest).Gives r.advance e s) (hs : s.following.kind = .semicolon) (n : Nat) :
    (statement Tracer.silent n).Gives r (.ret r.current e) s.advance :=
  statement_gives (fun n => by rw [statement_apply, hk]) (fun n => returnStatement_gives (he n) hs) n

/-- A statement that starts like an expression is one. -/
theorem statement_startsExpr (hk : r.current.kind.startsExpr) (n : Nat) :
    statement Tracer.silent (n + 1) r = expressionStatement Tracer.silent (expression Tracer.silent n) r := by
  rw [statement_apply]
  cases h : r.current.kind <;> rw [h] at hk <;> cases hk

theorem statement_expr (hk : r.current.kind.startsExpr) (he : ∀ n, (expression Tracer.silent n .lowest).Gives r e s)
    (hs : s.following.kind = .semicolon) (n : Nat) : (statement Tracer.silent n).Gives r (.expr r.current e) s.advance :=
  statement_gives (statement_startsExpr hk) (fun n => expressionStatement_gives (he n) hs) n

/-- Without a semicolon, a statement ends where its expression does. -/
theorem statement_bare (hk : r.current.kind.startsExpr) (he : ∀ n, (expression Tracer.silent n .lowest).Gives r e s)
    (hs : s.following.kind ≠ .semicolon) (n : Nat) : (statement Tracer.silent n).Gives r (.expr r.current e) s :=
  statement_gives (statement_startsExpr hk) (fun n => expressionStatement_gives_bare (he n) hs) n

theorem statement_block {b : Block} (hk : r.current.kind = .lbrace) (hb : ∀ n, (block Tracer.silent n).Gives r b s)
    (n : Nat) : (statement Tracer.silent n).Gives r (.block b) s := by
  cases n with
  | zero => exact nofun
  | succ n =>
    intro x hx
    rw [statement_apply, hk, Option.map_eq_some_iff] at hx
    obtain ⟨y, hy, rfl⟩ := hx
    rw [hb n y hy]

/-- A block ends at its closing brace, as deep as it started. -/
theorem block_gives {ss : List Stmt} {c : Token} {rest : List Token} (hc : c.kind = .rbrace)
    (hi : ∀ n, (items Tracer.silent n).Gives r.openBlock ss (r.openBlock.on (c :: rest))) (n : Nat) :
    (block Tracer.silent n).Gives r ⟨r.current, ss⟩ (r.on (c :: rest)) := by
  cases n with
  | zero => exact nofun
  | succ n =>
    intro x hx
    rw [block_apply, announced_silent, Option.map_eq_some_iff] at hx
    obtain ⟨y, hy, rfl⟩ := hx
    have hne : (r.openBlock.on (c :: rest)).current.kind ≠ .eof := by
      show c.kind ≠ .eof
      rw [hc]
      decide
    rw [hi n y hy, Reading.closeBlock_of_ne_eof hne]
    rfl

theorem items_nil (hk : r.current.kind = .rbrace) (n : Nat) : (items Tracer.silent n).Gives r [] r := by
  cases n with
  | zero => exact nofun
  | succ n =>
    intro x hx
    rw [items_apply, if_pos (Or.inl hk)] at hx
    cases hx
    rfl

theorem items_cons {st : Stmt} {ss : List Stmt} (hk : r.current.kind ≠ .rbrace) (hk' : r.current.kind ≠ .eof)
    (hst : ∀ n, (statement Tracer.silent n).Gives r st s) (hss : ∀ n, (items Tracer.silent n).Gives s.advance ss t)
    (n : Nat) : (items Tracer.silent n).Gives r (st :: ss) t := by
  cases n with
  | zero => exact nofun
  | succ n =>
    intro x hx
    rw [items_apply, if_neg (not_or.mpr ⟨hk, hk'⟩)] at hx
    rcases h : statement Tracer.silent n r with _ | y
    · rw [h] at hx
      cases hx
    · obtain rfl := hst n y h
      rw [h] at hx
      obtain ⟨z, hz, rfl⟩ := Option.map_eq_some_iff.mp hx
      rw [hss n z hz]

theorem program_nil (hk : r.current.kind = .eof) (n : Nat) : (program Tracer.silent n).Gives r [] r := by
  cases n with
  | zero => exact nofun
  | succ n =>
    intro x hx
    rw [program_apply, if_pos hk] at hx
    cases hx
    rfl

theorem program_cons {st : Stmt} {ss : List Stmt} (hk : r.current.kind ≠ .eof)
    (hst : ∀ n, (statement Tracer.silent n).Gives r st s) (hss : ∀ n, (program Tracer.silent n).Gives s.advance ss t)
    (n : Nat) : (program Tracer.silent n).Gives r (st :: ss) t := by
  cases n with
  | zero => exact nofun
  | succ n =>
    intro x hx
    rw [program_apply, if_neg hk] at hx
    rcases h : statement Tracer.silent n r with _ | y
    · rw [h] at hx
      cases hx
    · obtain rfl := hst n y h
      rw [h] at hx
      obtain ⟨z, hz, rfl⟩ := Option.map_eq_some_iff.mp hx
      rw [hss n z hz]

theorem extension_binary {k : Kind} {p : Precedence} {left : Expr} (hk : r.current.kind = k)
    (hp : k.infixLevel? = some p) (he : ∀ n, (expression Tracer.silent n p).Gives r.advance e s) (n : Nat) :
    (extension Tracer.silent n k left).Gives r (.binary r.current left r.current.literal e) s := by
  cases n with
  | zero => exact nofun
  | succ n =>
    obtain ⟨hprec, -, hne⟩ := Kind.infixLevel?_eq_some_iff.mp hp
    rw [extension, if_neg hne]
    refine binaryExpression_gives left ?_
    rw [hk, hprec]
    exact he n

theorem extension_call {callee : Expr} {args : List Expr} (ha : ∀ n, (arguments Tracer.silent n).Gives r args s) (n : Nat) :
    (extension Tracer.silent n .lparen callee).Gives r (.call r.current callee args) s := by
  cases n with
  | zero => exact nofun
  | succ n =>
    rw [extension, if_pos rfl]
    exact callExpression_gives callee (ha n)

/-! ## Parameters -/

theorem moreParameters_gives {ts : List Token} {ids : List Identifier} (h : Identifier.SpelledMore ts ids)
    (r : Reading Unit) (t : Token) {c : Token} (rest : List Token) (hc : c.kind = .rparen) :
    ∃ t', ∀ n, (moreParameters n).Gives (r.on (t :: (ts ++ c :: rest))) ids (r.on (t' :: c :: rest)) := by
  induction h generalizing t with
  | nil =>
    refine ⟨t, fun n => moreParameters_none n ?_⟩
    show c.kind ≠ .comma
    rw [hc]
    decide
  | @cons k i ts ids hk hi _ ih =>
    obtain ⟨t', ht'⟩ := ih i
    exact ⟨t', fun n => moreParameters_cons (r := r.on (t :: k :: i :: (ts ++ c :: rest))) n hk hi ht'⟩

theorem parameters_gives {ts : List Token} {ids : List Identifier} (h : Identifier.SpelledAll ts ids) (r : Reading Unit)
    (o : Token) {c : Token} (rest : List Token) (hc : c.kind = .rparen) (n : Nat) :
    (parameters Tracer.silent n).Gives (r.on (o :: (ts ++ c :: rest))) ids (r.on (c :: rest)) := by
  cases h with
  | nil => exact parameters_none (r := r.on (o :: c :: rest)) n hc
  | @cons i ts ids hi hts =>
    obtain ⟨t', ht'⟩ := moreParameters_gives hts r i rest hc
    exact parameters_cons (r := r.on (o :: i :: (ts ++ c :: rest))) n hi ht' hc

end Grammar

/-! ## Derivations -/

open Grammar

/-- What follows an argument closes it: a comma, or the parenthesis. -/
theorem Expr.SpelledMore.closes {ts : List Token} {es : List Expr} (h : Expr.SpelledMore Semicolon ts es)
    (r : Reading Unit) {c : Token} (rest : List Token) (hc : c.kind = .rparen) :
    ((ts ++ c :: rest).headD r.eof).kind.Closes .lowest := by
  cases h with
  | nil => exact Kind.closes_rparen hc
  | cons hk _ _ => exact Kind.closes_comma hk

mutual

/-- An expression is taken by every place that takes its level, in front of any token that closes the level. -/
theorem Expr.Spelled.resumes : ∀ {q : Precedence} {ts : List Token} {e : Expr}, Expr.Spelled Semicolon q ts e →
    ∀ (r : Reading Unit) (rest : List Token) (p : Precedence), p.Takes q → p < .call →
      (rest.headD r.eof).kind.Closes q → ∃ t, Resumes p (r.on (ts ++ rest)) e (r.on (t :: rest))
  | _, _, _, .stronger hlt h, r, rest, p, hp, hcall, hrest =>
    h.resumes r rest p (hp.mono (Precedence.le_of_lt hlt)) hcall (hrest.mono (Precedence.le_of_lt hlt))
  | _, _, _, .ident (t := t) hk, r, rest, _, _, _, _ => ⟨t, resumes_of_operand (operand_ident (r := r.on (t :: rest)) hk)⟩
  | _, _, _, .int (t := t) hk hv, r, rest, _, _, _, _ =>
    ⟨t, resumes_of_operand (operand_int (r := r.on (t :: rest)) hk hv)⟩
  | _, _, _, .float (t := t) hk hv, r, rest, _, _, _, _ =>
    ⟨t, resumes_of_operand (operand_float (r := r.on (t :: rest)) hk hv)⟩
  | _, _, _, .string (t := t) hk, r, rest, _, _, _, _ =>
    ⟨t, resumes_of_operand (operand_string (r := r.on (t :: rest)) hk)⟩
  | _, _, _, .true (t := t) hk, r, rest, _, _, _, _ => ⟨t, resumes_of_operand (operand_true (r := r.on (t :: rest)) hk)⟩
  | _, _, _, .false (t := t) hk, r, rest, _, _, _, _ =>
    ⟨t, resumes_of_operand (operand_false (r := r.on (t :: rest)) hk)⟩
  | _, _, _, @Expr.Spelled.group _ o c ts _ ho h hc, r, rest, p, _, _, _ => by
    have hclose : c.kind.Closes .lowest := Kind.closes_rparen hc
    obtain ⟨t, ht⟩ := h.resumes r (c :: rest) .lowest (Or.inl rfl) (by decide) hclose
    refine ⟨c, resumes_of_operand fun n => ?_⟩
    rw [List.cons_append, List.append_assoc, List.singleton_append]
    exact operand_group (r := r.on (o :: (ts ++ c :: rest))) ho (ht.gives hclose.1) hc n
  | _, _, _, @Expr.Spelled.unary _ t ts _ hk h, r, rest, p, _, _, hrest => by
    obtain ⟨t', ht'⟩ := h.resumes r rest .unary (Or.inr (by decide)) (by decide) hrest
    exact ⟨t', resumes_of_operand (operand_unary (r := r.on (t :: (ts ++ rest))) hk (ht'.gives hrest.1))⟩
  | _, _, _, @Expr.Spelled.binary _ s q o ls rs _ _ hs hl hlt hr, r, rest, p, hp, hcall, hrest => by
    have hprec := (Kind.infixLevel?_eq_some_iff.mp hs).1
    have hne := (Kind.infixLevel?_eq_some_iff.mp hs).2.1
    obtain ⟨t, ht⟩ := hl.resumes r (o :: (rs ++ rest)) p hp hcall (Kind.closes_infix hs)
    obtain ⟨t', ht'⟩ := hr.resumes r rest s (Or.inr (Precedence.operandLevel_le_of_lt hlt))
      (Nat.lt_trans (Precedence.lt_unary_of_infixLevel? hs) (by decide)) (hrest.mono (Precedence.le_of_lt hlt))
    have hps : p < o.kind.precedence := by
      rw [hprec]
      exact hp.lt hne (Precedence.lt_unary_of_infixLevel? hs)
    refine ⟨t', ?_⟩
    rw [List.append_assoc, List.cons_append]
    exact ht.extend hps (extension_binary (r := r.on (o :: (rs ++ rest))) rfl hs (ht'.gives hrest.1))
  | _, _, _, @Expr.Spelled.call _ o c fs as _ _ hf ho ha hc, r, rest, p, hp, hcall, _ => by
    have hopen : o.kind.Closes .call := Kind.closes_lparen ho
    obtain ⟨t, ht⟩ := hf.resumes r (o :: (as ++ c :: rest)) p hp hcall hopen
    have hpo : p < o.kind.precedence := by
      rw [ho]
      exact hcall
    refine ⟨c, ?_⟩
    rw [List.append_assoc, List.cons_append, List.append_assoc, List.singleton_append]
    refine ht.extend hpo fun n => ?_
    rw [show (r.on (t :: o :: (as ++ c :: rest))).following.kind = .lparen from ho]
    exact extension_call (r := r.on (o :: (as ++ c :: rest))) (ha.gives r o rest hc) n
  | _, _, _, @Expr.Spelled.cond _ t o c cs as bs _ _ _ hk ho he hc ha hb, r, rest, _, _, _, hrest => by
    have hclose : c.kind.Closes .lowest := Kind.closes_rparen hc
    obtain ⟨o', as', has, ho'⟩ := ha.first
    obtain ⟨t₁, ht₁⟩ := he.resumes r (c :: (as ++ (bs ++ rest))) .lowest (Or.inl rfl) (by decide) hclose
    obtain ⟨t₂, ht₂⟩ := ha.gives r (bs ++ rest)
    obtain ⟨t₃, ht₃⟩ := hb.gives r t₂ rest hrest.2
    have hbrace : (r.on (c :: (as ++ (bs ++ rest)))).following.kind = .lbrace := by
      rw [has]
      exact ho'
    refine ⟨t₃, resumes_of_operand fun n => ?_⟩
    simp only [List.cons_append, List.append_assoc]
    exact operand_cond (r := r.on (t :: o :: (cs ++ c :: (as ++ (bs ++ rest))))) hk ho (ht₁.gives hclose.1) hc hbrace
      ht₂ ht₃ n
  | _, _, _, @Expr.Spelled.function _ t o c is bs _ _ hk ho hi hc hb, r, rest, _, _, _, _ => by
    obtain ⟨o', bs', hbs, ho'⟩ := hb.first
    obtain ⟨t', ht'⟩ := hb.gives r rest
    have hbrace : (r.on (c :: (bs ++ rest))).following.kind = .lbrace := by
      rw [hbs]
      exact ho'
    refine ⟨t', resumes_of_operand fun n => ?_⟩
    simp only [List.cons_append, List.append_assoc]
    exact operand_function (r := r.on (t :: o :: (is ++ c :: (bs ++ rest)))) hk ho (parameters_gives hi r o _ hc) hbrace
      ht' n

/-- The arguments of a call, between its parentheses. -/
theorem Expr.SpelledAll.gives : ∀ {ts : List Token} {es : List Expr}, Expr.SpelledAll Semicolon ts es →
    ∀ (r : Reading Unit) (o : Token) {c : Token} (rest : List Token), c.kind = .rparen → ∀ n,
      (arguments Tracer.silent n).Gives (r.on (o :: (ts ++ c :: rest))) es (r.on (c :: rest))
  | _, _, .nil, r, o, c, rest, hc, n => arguments_none (r := r.on (o :: c :: rest)) hc
  | _, _, @Expr.SpelledAll.cons _ ts us _ _ he hes, r, o, c, rest, hc, n => by
    obtain ⟨t, ts', hts, ht⟩ := he.first
    have hne : (r.on (o :: (ts ++ (us ++ c :: rest)))).following.kind ≠ .rparen := by
      rw [hts]
      intro hk
      rw [show t.kind = _ from hk] at ht
      cases ht
    obtain ⟨t₁, ht₁⟩ := he.resumes r (us ++ c :: rest) .lowest (Or.inl rfl) (by decide) (hes.closes r rest hc)
    obtain ⟨t₂, ht₂⟩ := hes.gives r t₁ rest hc
    rw [List.append_assoc]
    exact arguments_cons (r := r.on (o :: (ts ++ (us ++ c :: rest)))) hne
      (ht₁.gives (hes.closes r rest hc).1) ht₂ hc

/-- The arguments of a call behind the first one, up to its closing parenthesis. -/
theorem Expr.SpelledMore.gives : ∀ {ts : List Token} {es : List Expr}, Expr.SpelledMore Semicolon ts es →
    ∀ (r : Reading Unit) (t : Token) {c : Token} (rest : List Token), c.kind = .rparen →
      ∃ t', ∀ n, (moreArguments Tracer.silent n).Gives (r.on (t :: (ts ++ c :: rest))) es (r.on (t' :: c :: rest))
  | _, _, .nil, r, t, c, rest, hc => by
    refine ⟨t, fun n => moreArguments_none ?_⟩
    show c.kind ≠ .comma
    rw [hc]
    decide
  | _, _, @Expr.SpelledMore.cons _ k ts us _ _ hk he hes, r, t, c, rest, hc => by
    obtain ⟨t₁, ht₁⟩ := he.resumes r (us ++ c :: rest) .lowest (Or.inl rfl) (by decide) (hes.closes r rest hc)
    obtain ⟨t₂, ht₂⟩ := hes.gives r t₁ rest hc
    refine ⟨t₂, fun n => ?_⟩
    rw [List.cons_append, List.append_assoc]
    exact moreArguments_cons (r := r.on (t :: k :: (ts ++ (us ++ c :: rest)))) hk
      (ht₁.gives (hes.closes r rest hc).1) ht₂

/-- A statement, in front of anything. -/
theorem Stmt.Spelled.gives : ∀ {ts : List Token} {s : Stmt}, Stmt.Spelled Semicolon ts s →
    ∀ (r : Reading Unit) (rest : List Token),
      ∃ t, ∀ n, (statement Tracer.silent n).Gives (r.on (ts ++ rest)) s (r.on (t :: rest))
  | _, _, @Stmt.Spelled.bind _ t i a ts _ _ hk hi ha he ⟨u, hu, hus⟩, r, rest => by
    subst hus
    have hclose : u.kind.Closes .lowest := Kind.closes_semicolon hu
    obtain ⟨t', ht'⟩ := he.resumes r (u :: rest) .lowest (Or.inl rfl) (by decide) hclose
    refine ⟨u, fun n => ?_⟩
    simp only [List.cons_append, List.append_assoc, List.nil_append]
    exact statement_let (r := r.on (t :: i :: a :: (ts ++ u :: rest))) hk hi ha (ht'.gives hclose.1) hu n
  | _, _, @Stmt.Spelled.ret _ t ts _ _ hk he ⟨u, hu, hus⟩, r, rest => by
    subst hus
    have hclose : u.kind.Closes .lowest := Kind.closes_semicolon hu
    obtain ⟨t', ht'⟩ := he.resumes r (u :: rest) .lowest (Or.inl rfl) (by decide) hclose
    refine ⟨u, fun n => ?_⟩
    simp only [List.cons_append, List.append_assoc, List.nil_append]
    exact statement_return (r := r.on (t :: (ts ++ u :: rest))) hk (ht'.gives hclose.1) hu n
  | _, _, @Stmt.Spelled.expr _ t ts _ _ he ⟨u, hu, hus⟩, r, rest => by
    subst hus
    have hclose : u.kind.Closes .lowest := Kind.closes_semicolon hu
    obtain ⟨t₀, ts₀, heq, ht₀⟩ := he.first
    cases heq
    obtain ⟨t', ht'⟩ := he.resumes r (u :: rest) .lowest (Or.inl rfl) (by decide) hclose
    refine ⟨u, fun n => ?_⟩
    simp only [List.cons_append, List.append_assoc, List.nil_append]
    exact statement_expr (r := r.on (t :: (ts ++ u :: rest))) ht₀ (ht'.gives hclose.1) hu n
  | _, _, @Stmt.Spelled.block _ ts _ hb, r, rest => by
    obtain ⟨o, ts', hts, ho⟩ := hb.first
    obtain ⟨t, ht⟩ := hb.gives r rest
    refine ⟨t, statement_block ?_ ht⟩
    rw [hts]
    exact ho

/-- The statements of a block, in front of its closing brace. -/
theorem Stmt.SpelledAll.gives : ∀ {ts : List Token} {ss : List Stmt}, Stmt.SpelledAll Semicolon ts ss →
    ∀ (r : Reading Unit) {c : Token} (rest : List Token), c.kind = .rbrace → ∀ n,
      (items Tracer.silent n).Gives (r.on (ts ++ c :: rest)) ss (r.on (c :: rest))
  | _, _, .nil, r, c, rest, hc, n => items_nil (r := r.on (c :: rest)) hc n
  | _, _, @Stmt.SpelledAll.cons _ ts us _ _ hs hss, r, c, rest, hc, n => by
    obtain ⟨t, ts', hts, hbrace, heof⟩ := hs.first
    obtain ⟨t', ht'⟩ := hs.gives r (us ++ c :: rest)
    have hcur : (r.on (ts ++ (us ++ c :: rest))).current = t := by
      rw [hts]
      rfl
    rw [List.append_assoc]
    refine items_cons ?_ ?_ ht' (hss.gives r rest hc) n
    · rw [hcur]
      exact hbrace
    · rw [hcur]
      exact heof

theorem Block.Spelled.gives : ∀ {ts : List Token} {b : Block}, Block.Spelled Semicolon ts b →
    ∀ (r : Reading Unit) (rest : List Token),
      ∃ t, ∀ n, (block Tracer.silent n).Gives (r.on (ts ++ rest)) b (r.on (t :: rest))
  | _, _, @Block.Spelled.mk _ o c ts _ ho hss hc, r, rest => by
    refine ⟨c, fun n => ?_⟩
    rw [List.cons_append, List.append_assoc, List.singleton_append]
    exact block_gives (r := r.on (o :: (ts ++ c :: rest))) hc
      (hss.gives (r.on (o :: (ts ++ c :: rest))).openBlock rest hc) n

/-- The block after `else`, in front of a token that is not `else`. -/
theorem Block.SpelledElse.gives : ∀ {ts : List Token} {b? : Option Block}, Block.SpelledElse Semicolon ts b? →
    ∀ (r : Reading Unit) (t : Token) (rest : List Token), (rest.headD r.eof).kind ≠ .kwElse →
      ∃ t', ∀ n, (alternative (block Tracer.silent n)).Gives (r.on (t :: (ts ++ rest))) b? (r.on (t' :: rest))
  | _, _, .none, r, t, rest, hrest => ⟨t, fun _ => alternative_none (r := r.on (t :: rest)) hrest⟩
  | _, _, @Block.SpelledElse.some _ k ts _ hk hb, r, t, rest, _ => by
    obtain ⟨o, ts', hts, ho⟩ := hb.first
    obtain ⟨t', ht'⟩ := hb.gives r rest
    have hbrace : (r.on (k :: (ts ++ rest))).following.kind = .lbrace := by
      rw [hts]
      exact ho
    exact ⟨t', fun n => alternative_some (r := r.on (t :: k :: (ts ++ rest))) hk hbrace (ht' n)⟩

end

/-- One statement more at the front of a program. -/
theorem Stmt.Spelled.program_gives {ts us : List Token} {st : Stmt} {ss : List Stmt} (h : Stmt.Spelled Semicolon ts st)
    {r s : Reading Unit} (hus : ∀ n, (program Tracer.silent n).Gives (r.on us) ss s) (n : Nat) :
    (program Tracer.silent n).Gives (r.on (ts ++ us)) (st :: ss) s := by
  obtain ⟨t, ts', hts, -, heof⟩ := h.first
  obtain ⟨t', ht'⟩ := h.gives r us
  refine program_cons ?_ ht' hus n
  rw [hts]
  exact heof

/-- The statements of a program, up to the end of the text. -/
theorem Stmt.SpelledAll.program_gives {ts : List Token} {ss : List Stmt} (h : Stmt.SpelledAll Semicolon ts ss)
    {r : Reading Unit} (hr : r.Ready) (n : Nat) : (program Tracer.silent n).Gives (r.on ts) ss (r.on []) := by
  induction ss generalizing ts n with
  | nil =>
    cases h
    exact program_nil (r := r.on []) hr.eof n
  | cons s ss ih =>
    cases h with
    | cons hs hss => exact hs.program_gives (ih hss) n

/-- An expression at the end of the text, without a semicolon. -/
theorem Expr.Spelled.program_gives {t : Token} {ts : List Token} {e : Expr} (h : Expr.Spelled Semicolon .lowest (t :: ts) e)
    {r : Reading Unit} (hr : r.Ready) (n : Nat) :
    (program Tracer.silent n).Gives (r.on (t :: ts)) [.expr t e] (r.on []) := by
  obtain ⟨t₀, ts₀, heq, ht₀⟩ := h.first
  cases heq
  have hend : (([] : List Token).headD r.eof).kind = .eof := hr.eof
  have hclose : (([] : List Token).headD r.eof).kind.Closes .lowest := by
    rw [hend]
    exact Kind.closes_of_lowest rfl (by decide)
  obtain ⟨t', ht'⟩ := h.resumes r [] .lowest (Or.inl rfl) (by decide) hclose
  rw [List.append_nil] at ht'
  have hne : (r.on [t']).following.kind ≠ .semicolon := by
    rw [show (r.on [t']).following.kind = .eof from hend]
    decide
  refine program_cons (fun hk => ?_) (statement_bare (r := r.on (t :: ts)) ht₀ (ht'.gives hclose.1) hne)
    (program_nil (r := r.on []) hend) n
  rw [show t.kind = .eof from hk] at ht₀
  cases ht₀

/-- Tokens that a program is derived from, each statement with its semicolon, are read as that program, and nothing is noted. -/
theorem Program.Spelled.readAll {r : Reading Unit} {p : Program} (h : Program.Spelled Semicolon r.rest p) (hr : r.Ready) :
    r.readAll Tracer.silent = (p.statements, r.on []) :=
  Stmt.SpelledAll.program_gives h hr _ _ (Reading.readAll_spec Tracer.silent hr)

end Scriptlet
