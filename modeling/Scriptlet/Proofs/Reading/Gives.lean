import Scriptlet.Proofs.Reading.Found

/-!
# What a phrase is found from

The other direction of what a phrase is made of: where its parts are found one after the other, with the tokens between them, the
phrase is found.

`p.Gives r a s` says that `p`, read from `r`, finds `a` and stops at `s`, if it ends at all. That it ends, a limit has to see to;
here the limit plays no part. The tracer is the silent one.
-/

namespace Scriptlet

variable {σ α β : Type}

/-- If a step ends, it gives a result and stops at a reading. -/
def Step.Gives (p : Step σ α) (r : Reading σ) (a : α) (s : Reading σ) : Prop := ∀ x, p r = some x → x = (a, s)

/-- If a parse ends, it finds a phrase and stops at a reading. -/
def Parse.Gives (p : Parse σ α) (r : Reading σ) (a : α) (s : Reading σ) : Prop := ∀ x, p r = some x → x = (some a, s)

namespace Parse

variable {r s t : Reading σ} {a : α} {b : β}

theorem Gives.bind {p : Parse σ α} {f : α → Parse σ β} (hp : p.Gives r a s) (hf : (f a).Gives s b t) :
    (p >>= f).Gives r b t := by
  intro x hx
  rw [bind_apply] at hx
  rcases h : p r with _ | y
  · rw [h] at hx
    cases hx
  · obtain rfl := hp y h
    rw [h] at hx
    exact hf x hx

theorem gives_pure (a : α) : (pure a : Parse σ α).Gives r a r := by
  intro x hx
  cases hx
  rfl

theorem gives_get_bind {f : Reading σ → Parse σ β} (h : (f r).Gives r b s) : (get >>= f).Gives r b s := by
  intro x hx
  rw [get_bind] at hx
  exact h x hx

theorem gives_advance_bind {f : Unit → Parse σ β} (h : (f ()).Gives r.advance b s) :
    (modify Reading.advance >>= f).Gives r b s := by
  intro x hx
  rw [advance_bind] at hx
  exact h x hx

theorem gives_lift {p : Step σ α} (h : p.Gives r a s) : (liftM p : Parse σ α).Gives r a s := by
  intro x hx
  rw [lift_apply, Option.map_eq_some_iff] at hx
  obtain ⟨y, hy, rfl⟩ := hx
  rw [h y hy]

end Parse

namespace Grammar

section

variable {r s : Reading σ} {b : β}

theorem gives_identifier_bind {f : Identifier → Parse σ β} (h : (f ⟨r.current, r.current.literal⟩).Gives r b s) :
    (identifier >>= f).Gives r b s := by
  intro x hx
  rw [identifier_bind] at hx
  exact h x hx

theorem gives_expect_bind {kind : Kind} {f : Unit → Parse σ β} (hk : r.following.kind = kind)
    (h : (f ()).Gives r.advance b s) : (expect kind >>= f).Gives r b s := by
  intro x hx
  rw [Parse.bind_apply, expect_apply, if_pos hk] at hx
  exact h x hx

/-- A token that may follow is there. -/
theorem gives_skipOver_bind {kind : Kind} {f : Unit → Parse σ β} (hk : r.following.kind = kind)
    (h : (f ()).Gives r.advance b s) : (skipOver kind >>= f).Gives r b s := by
  intro x hx
  rw [skipOver_bind, if_pos hk] at hx
  exact h x hx

/-- A token that may follow is missing. -/
theorem gives_skipOver_none_bind {kind : Kind} {f : Unit → Parse σ β} (hk : r.following.kind ≠ kind)
    (h : (f ()).Gives r b s) : (skipOver kind >>= f).Gives r b s := by
  intro x hx
  rw [skipOver_bind, if_neg hk] at hx
  exact h x hx

end

variable {r s : Reading Unit}

/-! ## Phrases without parts -/

theorem variableName_gives : (variableName Tracer.silent).Gives r (.ident ⟨r.current, r.current.literal⟩) r := by
  rw [variableName, traced_silent]
  exact gives_identifier_bind (Parse.gives_pure _)

theorem numeralLiteral_gives {ν : Type} {phrase : Phrase} {value? : String → Option ν} {literal : Token → ν → Expr}
    {problem : String → Problem} {v : ν} (hv : value? r.current.literal = some v) :
    (numeralLiteral Tracer.silent phrase value? literal problem).Gives r (literal r.current v) r := by
  rw [numeralLiteral, traced_silent]
  refine Parse.gives_get_bind ?_
  dsimp only
  rw [hv]
  exact Parse.gives_pure _

theorem stringLiteral_gives : stringLiteral.Gives r (.string r.current r.current.literal) r :=
  Parse.gives_get_bind (Parse.gives_pure _)

theorem boolean_gives : (boolean Tracer.silent).Gives r (.bool r.current (r.current.kind == .kwTrue)) r := by
  rw [boolean, traced_silent]
  exact Parse.gives_get_bind (Parse.gives_pure _)

theorem moreParameters_none (n : Nat) (hk : r.following.kind ≠ .comma) : (moreParameters n).Gives r [] r := by
  cases n with
  | zero => exact nofun
  | succ n =>
    refine Parse.gives_get_bind ?_
    rw [if_neg hk]
    exact Parse.gives_pure _

theorem moreParameters_cons (n : Nat) {ids : List Identifier} (hk : r.following.kind = .comma)
    (hi : r.advance.following.kind = .ident) (hm : ∀ n, (moreParameters n).Gives r.advance.advance ids s) :
    (moreParameters n).Gives r (⟨r.advance.following, r.advance.following.literal⟩ :: ids) s := by
  cases n with
  | zero => exact nofun
  | succ n =>
    refine Parse.gives_get_bind ?_
    rw [if_pos hk]
    refine Parse.gives_advance_bind (gives_expect_bind hi (gives_identifier_bind ?_))
    exact (hm n).bind (Parse.gives_pure _)

theorem parameters_none (limit : Nat) (hk : r.following.kind = .rparen) :
    (parameters Tracer.silent limit).Gives r [] r.advance := by
  rw [parameters, traced_silent]
  refine Parse.gives_get_bind ?_
  rw [if_pos hk]
  exact Parse.gives_advance_bind (Parse.gives_pure _)

theorem parameters_cons (limit : Nat) {ids : List Identifier} (hi : r.following.kind = .ident)
    (hm : ∀ n, (moreParameters n).Gives r.advance ids s) (hk : s.following.kind = .rparen) :
    (parameters Tracer.silent limit).Gives r (⟨r.following, r.following.literal⟩ :: ids) s.advance := by
  have hne : r.following.kind ≠ .rparen := by
    rw [hi]
    decide
  rw [parameters, traced_silent]
  refine Parse.gives_get_bind ?_
  rw [if_neg hne]
  refine gives_expect_bind hi (gives_identifier_bind ((hm limit).bind ?_))
  exact gives_expect_bind hk (Parse.gives_pure _)

/-! ## Phrases with parts -/

section

variable {expression : Precedence → Parse Unit Expr} {block : Step Unit Block} {e : Expr}

/-- A binding that ends with a semicolon. -/
theorem letStatement_gives (hi : r.following.kind = .ident) (ha : r.advance.following.kind = .assign)
    (he : (expression .lowest).Gives r.advance.advance.advance e s) (hs : s.following.kind = .semicolon) :
    (letStatement Tracer.silent expression).Gives r (.bind r.current ⟨r.following, r.following.literal⟩ e) s.advance := by
  rw [letStatement, traced_silent]
  refine Parse.gives_get_bind (gives_expect_bind hi (gives_identifier_bind (gives_expect_bind ha ?_)))
  exact Parse.gives_advance_bind (he.bind (gives_skipOver_bind hs (Parse.gives_pure _)))

/-- A return that ends with a semicolon. -/
theorem returnStatement_gives (he : (expression .lowest).Gives r.advance e s) (hs : s.following.kind = .semicolon) :
    (returnStatement Tracer.silent expression).Gives r (.ret r.current e) s.advance := by
  rw [returnStatement, traced_silent]
  refine Parse.gives_get_bind (Parse.gives_advance_bind (he.bind ?_))
  exact gives_skipOver_bind hs (Parse.gives_pure _)

/-- An expression used as a statement, with a semicolon after it. -/
theorem expressionStatement_gives (he : (expression .lowest).Gives r e s) (hs : s.following.kind = .semicolon) :
    (expressionStatement Tracer.silent expression).Gives r (.expr r.current e) s.advance := by
  rw [expressionStatement, traced_silent]
  exact Parse.gives_get_bind (he.bind (gives_skipOver_bind hs (Parse.gives_pure _)))

/-- An expression used as a statement, with no semicolon after it. -/
theorem expressionStatement_gives_bare (he : (expression .lowest).Gives r e s) (hs : s.following.kind ≠ .semicolon) :
    (expressionStatement Tracer.silent expression).Gives r (.expr r.current e) s := by
  rw [expressionStatement, traced_silent]
  exact Parse.gives_get_bind (he.bind (gives_skipOver_none_bind hs (Parse.gives_pure _)))

theorem unaryExpression_gives (he : (expression .unary).Gives r.advance e s) :
    (unaryExpression Tracer.silent expression).Gives r (.unary r.current r.current.literal e) s := by
  rw [unaryExpression, traced_silent]
  exact Parse.gives_get_bind (Parse.gives_advance_bind (he.bind (Parse.gives_pure _)))

theorem binaryExpression_gives (left : Expr) (he : (expression r.current.kind.precedence).Gives r.advance e s) :
    (binaryExpression Tracer.silent expression left).Gives r (.binary r.current left r.current.literal e) s := by
  rw [binaryExpression, traced_silent]
  exact Parse.gives_get_bind (Parse.gives_advance_bind (he.bind (Parse.gives_pure _)))

theorem groupedExpression_gives (he : (expression .lowest).Gives r.advance e s) (hk : s.following.kind = .rparen) :
    (groupedExpression expression).Gives r e s.advance :=
  Parse.gives_advance_bind (he.bind (gives_expect_bind hk (Parse.gives_pure _)))

theorem alternative_none (hk : r.following.kind ≠ .kwElse) : (alternative block).Gives r none r := by
  refine Parse.gives_get_bind ?_
  rw [if_neg hk]
  exact Parse.gives_pure _

theorem alternative_some {b : Block} (hk : r.following.kind = .kwElse) (hl : r.advance.following.kind = .lbrace)
    (hb : block.Gives r.advance.advance b s) : (alternative block).Gives r (some b) s := by
  refine Parse.gives_get_bind ?_
  rw [if_pos hk]
  exact Parse.gives_advance_bind (gives_expect_bind hl ((Parse.gives_lift hb).bind (Parse.gives_pure _)))

theorem conditional_gives {r₁ r₂ : Reading Unit} {a : Block} {b? : Option Block} (hl : r.following.kind = .lparen)
    (he : (expression .lowest).Gives r.advance.advance e r₁) (hc : r₁.following.kind = .rparen)
    (ho : r₁.advance.following.kind = .lbrace) (ha : block.Gives r₁.advance.advance a r₂)
    (hb : (alternative block).Gives r₂ b? s) :
    (conditional Tracer.silent expression block).Gives r (.cond r.current e a b?) s := by
  rw [conditional, traced_silent]
  refine Parse.gives_get_bind (gives_expect_bind hl (Parse.gives_advance_bind (he.bind ?_)))
  refine gives_expect_bind hc (gives_expect_bind ho ((Parse.gives_lift ha).bind ?_))
  exact hb.bind (Parse.gives_pure _)

theorem functionLiteral_gives {limit : Nat} {r₁ : Reading Unit} {ids : List Identifier} {b : Block}
    (hl : r.following.kind = .lparen) (hi : (parameters Tracer.silent limit).Gives r.advance ids r₁)
    (ho : r₁.following.kind = .lbrace) (hb : block.Gives r₁.advance b s) :
    (functionLiteral Tracer.silent block limit).Gives r (.function r.current ids b) s := by
  rw [functionLiteral, traced_silent]
  refine Parse.gives_get_bind (gives_expect_bind hl (hi.bind (gives_expect_bind ho ?_)))
  exact (Parse.gives_lift hb).bind (Parse.gives_pure _)

theorem callExpression_gives {arguments : Parse Unit (List Expr)} {args : List Expr} (callee : Expr)
    (ha : arguments.Gives r args s) :
    (callExpression Tracer.silent arguments callee).Gives r (.call r.current callee args) s := by
  rw [callExpression, traced_silent]
  exact Parse.gives_get_bind (ha.bind (Parse.gives_pure _))

end

/-! ## Phrases that contain each other -/

variable {n : Nat}

theorem arguments_none (hk : r.following.kind = .rparen) : (arguments Tracer.silent n).Gives r [] r.advance := by
  cases n with
  | zero => exact nofun
  | succ n =>
    rw [arguments]
    refine Parse.gives_get_bind ?_
    rw [if_pos hk]
    exact Parse.gives_advance_bind (Parse.gives_pure _)

theorem arguments_cons {e : Expr} {es : List Expr} {r₁ : Reading Unit} (hne : r.following.kind ≠ .rparen)
    (he : ∀ n, (expression Tracer.silent n .lowest).Gives r.advance e r₁)
    (hes : ∀ n, (moreArguments Tracer.silent n).Gives r₁ es s) (hk : s.following.kind = .rparen) :
    (arguments Tracer.silent n).Gives r (e :: es) s.advance := by
  cases n with
  | zero => exact nofun
  | succ n =>
    rw [arguments]
    refine Parse.gives_get_bind ?_
    rw [if_neg hne]
    refine Parse.gives_advance_bind ((he n).bind ((hes n).bind ?_))
    exact gives_expect_bind hk (Parse.gives_pure _)

theorem moreArguments_none (hk : r.following.kind ≠ .comma) : (moreArguments Tracer.silent n).Gives r [] r := by
  cases n with
  | zero => exact nofun
  | succ n =>
    rw [moreArguments]
    refine Parse.gives_get_bind ?_
    rw [if_neg hk]
    exact Parse.gives_pure _

theorem moreArguments_cons {e : Expr} {es : List Expr} {r₁ : Reading Unit} (hk : r.following.kind = .comma)
    (he : ∀ n, (expression Tracer.silent n .lowest).Gives r.advance.advance e r₁)
    (hes : ∀ n, (moreArguments Tracer.silent n).Gives r₁ es s) :
    (moreArguments Tracer.silent n).Gives r (e :: es) s := by
  cases n with
  | zero => exact nofun
  | succ n =>
    rw [moreArguments]
    refine Parse.gives_get_bind ?_
    rw [if_pos hk]
    refine Parse.gives_advance_bind (Parse.gives_advance_bind ((he n).bind ((hes n).bind ?_)))
    exact Parse.gives_pure _

end Grammar

end Scriptlet
