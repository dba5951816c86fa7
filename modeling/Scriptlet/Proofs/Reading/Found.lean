import Scriptlet.Grammar.Steps

/-!
# What a phrase is made of

A rule that finds its phrase has found each of its parts, one after the other, and moved on by the tokens between them. Here, rule
by rule, the parts of a phrase that is found, with the readings between them. The tracer is the silent one, which takes no part
(`traced_silent`).
-/

namespace Scriptlet

variable {α β : Type}

namespace Parse

variable {σ : Type}

/-- A sequence finds its phrase where both parts find theirs. -/
theorem bind_found {p : Parse σ α} {f : α → Parse σ β} {b : β} {r r' : Reading σ} :
    (p >>= f) r = some (some b, r') ↔ ∃ a r₁, p r = some (some a, r₁) ∧ f a r₁ = some (some b, r') := by
  rw [bind_apply]
  constructor
  · intro h
    rcases hp : p r with _ | ⟨_ | a, r₁⟩
    · simp [hp] at h
    · simp [hp] at h
    · rw [hp] at h
      exact ⟨a, r₁, rfl, h⟩
  · rintro ⟨a, r₁, hp, hf⟩
    rw [hp]
    exact hf

theorem pure_found {a b : α} {r r' : Reading σ} : (pure a : Parse σ α) r = some (some b, r') ↔ a = b ∧ r = r' := by
  simp

theorem get_bind {f : Reading σ → Parse σ β} {r : Reading σ} : (get >>= f) r = f r r := by
  rw [bind_apply]
  rfl

theorem advance_bind {f : Unit → Parse σ β} {r : Reading σ} : (modify Reading.advance >>= f) r = f () r.advance := by
  rw [bind_apply]
  rfl

theorem lift_found {p : Step σ α} {a : α} {r r' : Reading σ} :
    (liftM p : Parse σ α) r = some (some a, r') ↔ p r = some (a, r') := by
  rw [lift_apply]
  rcases p r with _ | ⟨b, s⟩
  · simp
  · simp

end Parse

namespace Grammar

variable {σ : Type}

theorem refuse_found {problem : Problem} {pos : Pos} {a : α} {r r' : Reading σ} :
    ¬(refuse problem pos : Parse σ α) r = some (some a, r') := by
  simp

theorem identifier_bind {f : Identifier → Parse σ β} {r : Reading σ} :
    (identifier >>= f) r = f ⟨r.current, r.current.literal⟩ r := by
  rw [Parse.bind_apply]
  rfl

/-- The token that has to follow is there. -/
theorem expect_bind_found {kind : Kind} {f : Unit → Parse σ β} {b : β} {r r' : Reading σ} :
    (expect kind >>= f) r = some (some b, r') ↔ r.following.kind = kind ∧ f () r.advance = some (some b, r') := by
  rw [Parse.bind_apply, expect_apply]
  by_cases h : r.following.kind = kind
  · simp [h]
  · simp [h]

theorem skipOver_bind {kind : Kind} {f : Unit → Parse σ β} {r : Reading σ} :
    (skipOver kind >>= f) r = f () (if r.following.kind = kind then r.advance else r) := by
  rw [Parse.bind_apply, skipOver_apply]

/-- The silent tracer takes no part in a step. -/
theorem announced_silent (phrase : Phrase) (p : Step Unit α) : announced Tracer.silent phrase p = p :=
  announced_of_idle (fun _ _ => rfl) (fun _ _ => rfl) phrase p

/-- The silent tracer takes no part in a parse. -/
theorem traced_silent (phrase : Phrase) (p : Parse Unit α) : traced Tracer.silent phrase p = p :=
  announced_silent phrase p.run

/-! ## Phrases without parts -/

variable {r r' : Reading Unit}

theorem variableName_found {e : Expr} (h : variableName Tracer.silent r = some (some e, r')) :
    e = .ident ⟨r.current, r.current.literal⟩ ∧ r' = r := by
  rw [variableName, traced_silent, identifier_bind, Parse.pure_found] at h
  exact ⟨h.1.symm, h.2.symm⟩

theorem numeralLiteral_found {ν : Type} {phrase : Phrase} {value? : String → Option ν} {literal : Token → ν → Expr}
    {problem : String → Problem} {e : Expr}
    (h : numeralLiteral Tracer.silent phrase value? literal problem r = some (some e, r')) :
    ∃ v, value? r.current.literal = some v ∧ e = literal r.current v ∧ r' = r := by
  rw [numeralLiteral, traced_silent, Parse.get_bind] at h
  rcases hv : value? r.current.literal with _ | v
  · rw [hv] at h
    exact absurd h refuse_found
  · rw [hv, Parse.pure_found] at h
    exact ⟨v, rfl, h.1.symm, h.2.symm⟩

theorem stringLiteral_found {e : Expr} (h : stringLiteral r = some (some e, r')) :
    e = .string r.current r.current.literal ∧ r' = r := by
  rw [stringLiteral, Parse.get_bind, Parse.pure_found] at h
  exact ⟨h.1.symm, h.2.symm⟩

theorem boolean_found {e : Expr} (h : boolean Tracer.silent r = some (some e, r')) :
    e = .bool r.current (r.current.kind == .kwTrue) ∧ r' = r := by
  rw [boolean, traced_silent, Parse.get_bind, Parse.pure_found] at h
  exact ⟨h.1.symm, h.2.symm⟩

/-- There is no further parameter, or a comma and a name stand before the others. -/
theorem moreParameters_found {n : Nat} {ids : List Identifier} (h : moreParameters n r = some (some ids, r')) :
    ids = [] ∧ r' = r ∨
      ∃ m ids', r.following.kind = .comma ∧ r.advance.following.kind = .ident ∧
        moreParameters m r.advance.advance = some (some ids', r') ∧
        ids = ⟨r.advance.following, r.advance.following.literal⟩ :: ids' ∧ n = m + 1 := by
  cases n with
  | zero => cases h
  | succ n =>
    rw [moreParameters, Parse.get_bind] at h
    split at h
    · next hk =>
      rw [Parse.advance_bind, expect_bind_found, identifier_bind, Parse.bind_found] at h
      obtain ⟨hi, ids', r₁, hm, hp⟩ := h
      obtain ⟨rfl, rfl⟩ := Parse.pure_found.mp hp
      exact Or.inr ⟨n, ids', hk, hi, hm, rfl, rfl⟩
    · rw [Parse.pure_found] at h
      exact Or.inl ⟨h.1.symm, h.2.symm⟩

theorem parameters_found {limit : Nat} {ids : List Identifier}
    (h : parameters Tracer.silent limit r = some (some ids, r')) :
    r.following.kind = .rparen ∧ ids = [] ∧ r' = r.advance ∨
      ∃ ids' r₁, r.following.kind = .ident ∧ moreParameters limit r.advance = some (some ids', r₁) ∧
        r₁.following.kind = .rparen ∧ ids = ⟨r.following, r.following.literal⟩ :: ids' ∧ r' = r₁.advance := by
  rw [parameters, traced_silent, Parse.get_bind] at h
  split at h
  · next hk =>
    rw [Parse.advance_bind, Parse.pure_found] at h
    exact Or.inl ⟨hk, h.1.symm, h.2.symm⟩
  · rw [expect_bind_found, identifier_bind, Parse.bind_found] at h
    obtain ⟨hi, ids', r₁, hm, hp⟩ := h
    rw [expect_bind_found, Parse.pure_found] at hp
    exact Or.inr ⟨ids', r₁, hi, hm, hp.1, hp.2.1.symm, hp.2.2.symm⟩

/-! ## Phrases with parts -/

section

variable {expression : Precedence → Parse Unit Expr} {block : Step Unit Block}

theorem letStatement_found {s : Stmt} (h : letStatement Tracer.silent expression r = some (some s, r')) :
    r.following.kind = .ident ∧ r.advance.following.kind = .assign ∧ ∃ e r₁,
      expression .lowest r.advance.advance.advance = some (some e, r₁) ∧
      s = .bind r.current ⟨r.following, r.following.literal⟩ e ∧
      r' = if r₁.following.kind = .semicolon then r₁.advance else r₁ := by
  rw [letStatement, traced_silent, Parse.get_bind, expect_bind_found, identifier_bind, expect_bind_found,
    Parse.advance_bind, Parse.bind_found] at h
  obtain ⟨hi, ha, e, r₁, he, hs⟩ := h
  rw [skipOver_bind, Parse.pure_found] at hs
  exact ⟨hi, ha, e, r₁, he, hs.1.symm, hs.2.symm⟩

theorem returnStatement_found {s : Stmt} (h : returnStatement Tracer.silent expression r = some (some s, r')) :
    ∃ e r₁, expression .lowest r.advance = some (some e, r₁) ∧ s = .ret r.current e ∧
      r' = if r₁.following.kind = .semicolon then r₁.advance else r₁ := by
  rw [returnStatement, traced_silent, Parse.get_bind, Parse.advance_bind, Parse.bind_found] at h
  obtain ⟨e, r₁, he, hs⟩ := h
  rw [skipOver_bind, Parse.pure_found] at hs
  exact ⟨e, r₁, he, hs.1.symm, hs.2.symm⟩

theorem expressionStatement_found {s : Stmt}
    (h : expressionStatement Tracer.silent expression r = some (some s, r')) :
    ∃ e r₁, expression .lowest r = some (some e, r₁) ∧ s = .expr r.current e ∧
      r' = if r₁.following.kind = .semicolon then r₁.advance else r₁ := by
  rw [expressionStatement, traced_silent, Parse.get_bind, Parse.bind_found] at h
  obtain ⟨e, r₁, he, hs⟩ := h
  rw [skipOver_bind, Parse.pure_found] at hs
  exact ⟨e, r₁, he, hs.1.symm, hs.2.symm⟩

theorem unaryExpression_found {e : Expr} (h : unaryExpression Tracer.silent expression r = some (some e, r')) :
    ∃ e₁, expression .unary r.advance = some (some e₁, r') ∧ e = .unary r.current r.current.literal e₁ := by
  rw [unaryExpression, traced_silent, Parse.get_bind, Parse.advance_bind, Parse.bind_found] at h
  obtain ⟨e₁, r₁, he, hp⟩ := h
  obtain ⟨rfl, rfl⟩ := Parse.pure_found.mp hp
  exact ⟨e₁, he, rfl⟩

theorem binaryExpression_found {left e : Expr}
    (h : binaryExpression Tracer.silent expression left r = some (some e, r')) :
    ∃ right, expression r.current.kind.precedence r.advance = some (some right, r') ∧
      e = .binary r.current left r.current.literal right := by
  rw [binaryExpression, traced_silent, Parse.get_bind, Parse.advance_bind, Parse.bind_found] at h
  obtain ⟨right, r₁, he, hp⟩ := h
  obtain ⟨rfl, rfl⟩ := Parse.pure_found.mp hp
  exact ⟨right, he, rfl⟩

theorem groupedExpression_found {e : Expr} (h : groupedExpression expression r = some (some e, r')) :
    ∃ r₁, expression .lowest r.advance = some (some e, r₁) ∧ r₁.following.kind = .rparen ∧ r' = r₁.advance := by
  rw [groupedExpression, Parse.advance_bind, Parse.bind_found] at h
  obtain ⟨e₁, r₁, he, hp⟩ := h
  rw [expect_bind_found, Parse.pure_found] at hp
  obtain ⟨hk, rfl, rfl⟩ := hp
  exact ⟨r₁, he, hk, rfl⟩

theorem alternative_found {b? : Option Block} (h : alternative block r = some (some b?, r')) :
    b? = none ∧ r' = r ∨
      ∃ b, r.following.kind = .kwElse ∧ r.advance.following.kind = .lbrace ∧
        block r.advance.advance = some (b, r') ∧ b? = some b := by
  rw [alternative, Parse.get_bind] at h
  split at h
  · next hk =>
    rw [Parse.advance_bind, expect_bind_found, Parse.bind_found] at h
    obtain ⟨hl, b, r₁, hb, hp⟩ := h
    obtain ⟨rfl, rfl⟩ := Parse.pure_found.mp hp
    exact Or.inr ⟨b, hk, hl, Parse.lift_found.mp hb, rfl⟩
  · rw [Parse.pure_found] at h
    exact Or.inl ⟨h.1.symm, h.2.symm⟩

theorem conditional_found {e : Expr} (h : conditional Tracer.silent expression block r = some (some e, r')) :
    r.following.kind = .lparen ∧ ∃ c r₁, expression .lowest r.advance.advance = some (some c, r₁) ∧
      r₁.following.kind = .rparen ∧ r₁.advance.following.kind = .lbrace ∧ ∃ a r₂,
      block r₁.advance.advance = some (a, r₂) ∧ ∃ b?, alternative block r₂ = some (some b?, r') ∧
      e = .cond r.current c a b? := by
  rw [conditional, traced_silent, Parse.get_bind, expect_bind_found, Parse.advance_bind, Parse.bind_found] at h
  obtain ⟨hl, c, r₁, hc, h⟩ := h
  rw [expect_bind_found, expect_bind_found, Parse.bind_found] at h
  obtain ⟨hr, ho, a, r₂, ha, h⟩ := h
  rw [Parse.bind_found] at h
  obtain ⟨b?, r₃, hb, hp⟩ := h
  obtain ⟨rfl, rfl⟩ := Parse.pure_found.mp hp
  exact ⟨hl, c, r₁, hc, hr, ho, a, r₂, Parse.lift_found.mp ha, b?, hb, rfl⟩

theorem functionLiteral_found {limit : Nat} {e : Expr}
    (h : functionLiteral Tracer.silent block limit r = some (some e, r')) :
    r.following.kind = .lparen ∧ ∃ ids r₁, parameters Tracer.silent limit r.advance = some (some ids, r₁) ∧
      r₁.following.kind = .lbrace ∧ ∃ b, block r₁.advance = some (b, r') ∧ e = .function r.current ids b := by
  rw [functionLiteral, traced_silent, Parse.get_bind, expect_bind_found, Parse.bind_found] at h
  obtain ⟨hl, ids, r₁, hi, h⟩ := h
  rw [expect_bind_found, Parse.bind_found] at h
  obtain ⟨ho, b, r₂, hb, hp⟩ := h
  obtain ⟨rfl, rfl⟩ := Parse.pure_found.mp hp
  exact ⟨hl, ids, r₁, hi, ho, b, Parse.lift_found.mp hb, rfl⟩

theorem callExpression_found {arguments : Parse Unit (List Expr)} {callee e : Expr}
    (h : callExpression Tracer.silent arguments callee r = some (some e, r')) :
    ∃ args, arguments r = some (some args, r') ∧ e = .call r.current callee args := by
  rw [callExpression, traced_silent, Parse.get_bind, Parse.bind_found] at h
  obtain ⟨args, r₁, ha, hp⟩ := h
  obtain ⟨rfl, rfl⟩ := Parse.pure_found.mp hp
  exact ⟨args, ha, rfl⟩

end

/-! ## Phrases that contain each other -/

variable {n : Nat}

theorem expression_found {p : Precedence} {e : Expr}
    (h : expression Tracer.silent (n + 1) p r = some (some e, r')) :
    ∃ e₁ r₁, operand Tracer.silent n r = some (some e₁, r₁) ∧ climb Tracer.silent n p e₁ r₁ = some (some e, r') := by
  rw [expression, traced_silent, Parse.bind_found] at h
  exact h

/-- No operator binds the expression strongly enough, or one does and the climb goes on after it. -/
theorem climb_found {p : Precedence} {left e : Expr}
    (h : climb Tracer.silent (n + 1) p left r = some (some e, r')) :
    ¬p < r.following.kind.precedence ∧ e = left ∧ r' = r ∨
      ∃ e₁ r₁, p < r.following.kind.precedence ∧
        extension Tracer.silent n r.following.kind left r.advance = some (some e₁, r₁) ∧
        climb Tracer.silent n p e₁ r₁ = some (some e, r') := by
  rw [climb, Parse.get_bind] at h
  split at h
  · next hp =>
    rw [Parse.advance_bind, Parse.bind_found] at h
    obtain ⟨e₁, r₁, hx, hc⟩ := h
    exact Or.inr ⟨e₁, r₁, hp, hx, hc⟩
  · next hp =>
    rw [Parse.pure_found] at h
    exact Or.inl ⟨hp, h.1.symm, h.2.symm⟩

theorem arguments_found {es : List Expr} (h : arguments Tracer.silent (n + 1) r = some (some es, r')) :
    r.following.kind = .rparen ∧ es = [] ∧ r' = r.advance ∨
      ∃ e r₁ es' r₂, expression Tracer.silent n .lowest r.advance = some (some e, r₁) ∧
        moreArguments Tracer.silent n r₁ = some (some es', r₂) ∧ r₂.following.kind = .rparen ∧
        es = e :: es' ∧ r' = r₂.advance := by
  rw [arguments, Parse.get_bind] at h
  split at h
  · next hk =>
    rw [Parse.advance_bind, Parse.pure_found] at h
    exact Or.inl ⟨hk, h.1.symm, h.2.symm⟩
  · rw [Parse.advance_bind, Parse.bind_found] at h
    obtain ⟨e, r₁, he, h⟩ := h
    rw [Parse.bind_found] at h
    obtain ⟨es', r₂, hes, hp⟩ := h
    rw [expect_bind_found, Parse.pure_found] at hp
    exact Or.inr ⟨e, r₁, es', r₂, he, hes, hp.1, hp.2.1.symm, hp.2.2.symm⟩

theorem moreArguments_found {es : List Expr} (h : moreArguments Tracer.silent (n + 1) r = some (some es, r')) :
    es = [] ∧ r' = r ∨
      ∃ e r₁ es', r.following.kind = .comma ∧
        expression Tracer.silent n .lowest r.advance.advance = some (some e, r₁) ∧
        moreArguments Tracer.silent n r₁ = some (some es', r') ∧ es = e :: es' := by
  rw [moreArguments, Parse.get_bind] at h
  split at h
  · next hk =>
    rw [Parse.advance_bind, Parse.advance_bind, Parse.bind_found] at h
    obtain ⟨e, r₁, he, h⟩ := h
    rw [Parse.bind_found] at h
    obtain ⟨es', r₂, hes, hp⟩ := h
    obtain ⟨rfl, rfl⟩ := Parse.pure_found.mp hp
    exact Or.inr ⟨e, r₁, es', hk, he, hes, rfl⟩
  · rw [Parse.pure_found] at h
    exact Or.inl ⟨h.1.symm, h.2.symm⟩

end Grammar

end Scriptlet
