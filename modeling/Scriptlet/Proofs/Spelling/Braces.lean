import Scriptlet.Proofs.Reading.Composition
import Scriptlet.Proofs.Spelling.Sound

/-!
# Braces of the grammar

The tokens that the grammar derives have balanced braces: the grammar has braces around a block only, and a block has both. So a text
that is read without a diagnostic has balanced braces, and nothing behind it can change how it is read.
-/

namespace Scriptlet

namespace Balanced

variable {ts us : List Token} {t o c : Token}

theorem nil : Balanced [] := ⟨fun us hus => by rw [List.prefix_nil.mp hus]; exact Nat.le_refl 0, rfl⟩

/-- A token that is no brace. -/
theorem single (ho : t.kind ≠ .lbrace) (hc : t.kind ≠ .rbrace) : Balanced [t] := by
  have hopen : openings [t] = 0 := by rw [openings_cons, if_neg ho]; rfl
  have hclose : closings [t] = 0 := by rw [closings_cons, if_neg hc]; rfl
  refine ⟨fun us hus => ?_, by rw [hopen, hclose]⟩
  obtain rfl | ⟨vs, rfl, hvs⟩ := List.prefix_cons_iff.mp hus
  · exact Nat.le_refl 0
  · rw [List.prefix_nil.mp hvs, hopen, hclose]

/-- A beginning of two parts is one of the first part, or the first part with a beginning of the second one. -/
theorem append (h : Balanced ts) (h' : Balanced us) : Balanced (ts ++ us) := by
  refine ⟨fun vs hvs => ?_, ?_⟩
  · obtain hvs' | ⟨ws, rfl⟩ := List.prefix_or_prefix_of_prefix hvs (List.prefix_append ts us)
    · exact h.closings_le vs hvs'
    · have hle := h'.closings_le ws ((List.prefix_append_right_inj ts).mp hvs)
      rw [closings_append, openings_append, h.settled]
      exact Nat.add_le_add_left hle _
  · rw [closings_append, openings_append, h.settled, h'.settled]

/-- A token of a kind that is no brace, and others behind it. -/
theorem token {k : Kind} (hk : t.kind = k) (ho : k ≠ .lbrace) (hc : k ≠ .rbrace) (h : Balanced ts) : Balanced (t :: ts) :=
  (single (hk ▸ ho) (hk ▸ hc)).append h

/-- A pair of braces around balanced tokens. -/
theorem enclosed (ho : o.kind = .lbrace) (h : Balanced ts) (hc : c.kind = .rbrace) : Balanced (o :: (ts ++ [c])) := by
  have hclosings : ∀ vs, closings (o :: vs) = closings vs := fun vs => by rw [closings_cons, ho]; rfl
  have hopenings : ∀ vs, openings (o :: vs) = openings vs + 1 := fun vs => by rw [openings_cons, ho]; rfl
  have hend : closings (ts ++ [c]) = openings (ts ++ [c]) + 1 := by
    rw [closings_append, openings_append, h.settled, closings_cons, openings_cons, hc]
    rfl
  refine ⟨fun vs hvs => ?_, by rw [hclosings, hopenings, hend]⟩
  obtain rfl | ⟨ws, rfl, hws⟩ := List.prefix_cons_iff.mp hvs
  · exact Nat.le_refl 0
  · rw [hclosings, hopenings]
    obtain rfl | hws := List.prefix_concat_iff.mp hws
    · exact Nat.le_of_eq hend
    · exact Nat.le_succ_of_le (h.closings_le ws hws)

end Balanced

theorem Kind.ne_brace_of_isUnary {k : Kind} (h : k.isUnary = true) : k ≠ .lbrace ∧ k ≠ .rbrace := by
  cases k <;> first | decide | cases h

theorem Kind.ne_brace_of_infixLevel? {k : Kind} {p : Precedence} (h : k.infixLevel? = some p) : k ≠ .lbrace ∧ k ≠ .rbrace := by
  cases k <;> first | decide | cases h

namespace Identifier

theorem SpelledMore.balanced {ts : List Token} {ids : List Identifier} (h : SpelledMore ts ids) : Balanced ts := by
  induction h with
  | nil => exact .nil
  | cons hc hi _ ih => exact .token hc nofun nofun (.token hi nofun nofun ih)

theorem SpelledAll.balanced {ts : List Token} {ids : List Identifier} (h : SpelledAll ts ids) : Balanced ts := by
  cases h with
  | nil => exact .nil
  | cons hi h => exact .token hi nofun nofun h.balanced

end Identifier

variable {End : List Token → Prop}

mutual

/-- The tokens of an expression have balanced braces, if those at the end of a statement have. -/
theorem Expr.Spelled.balanced (hend : ∀ us, End us → Balanced us) : ∀ {p : Precedence} {ts : List Token} {e : Expr},
    Expr.Spelled End p ts e → Balanced ts
  | _, _, _, .stronger _ h => h.balanced hend
  | _, _, _, .ident hk | _, _, _, .int hk _ | _, _, _, .float hk _ | _, _, _, .string hk | _, _, _, .true hk
  | _, _, _, .false hk => .token hk nofun nofun .nil
  | _, _, _, .group ho h hc => .token ho nofun nofun ((h.balanced hend).append (.token hc nofun nofun .nil))
  | _, _, _, .unary hk h => .token rfl (Kind.ne_brace_of_isUnary hk).1 (Kind.ne_brace_of_isUnary hk).2 (h.balanced hend)
  | _, _, _, .binary hk hl _ hr => (hl.balanced hend).append
      (.token rfl (Kind.ne_brace_of_infixLevel? hk).1 (Kind.ne_brace_of_infixLevel? hk).2 (hr.balanced hend))
  | _, _, _, .cond hk ho he hc ha hb => .token hk nofun nofun (.token ho nofun nofun ((he.balanced hend).append
      (.token hc nofun nofun ((ha.balanced hend).append (hb.balanced hend)))))
  | _, _, _, .function hk ho hi hc hb => .token hk nofun nofun (.token ho nofun nofun (hi.balanced.append
      (.token hc nofun nofun (hb.balanced hend))))
  | _, _, _, .call hf ho ha hc => (hf.balanced hend).append
      (.token ho nofun nofun ((ha.balanced hend).append (.token hc nofun nofun .nil)))

theorem Expr.SpelledAll.balanced (hend : ∀ us, End us → Balanced us) : ∀ {ts : List Token} {es : List Expr},
    Expr.SpelledAll End ts es → Balanced ts
  | _, _, .nil => .nil
  | _, _, .cons he hes => (he.balanced hend).append (hes.balanced hend)

theorem Expr.SpelledMore.balanced (hend : ∀ us, End us → Balanced us) : ∀ {ts : List Token} {es : List Expr},
    Expr.SpelledMore End ts es → Balanced ts
  | _, _, .nil => .nil
  | _, _, .cons hc he hes => .token hc nofun nofun ((he.balanced hend).append (hes.balanced hend))

theorem Stmt.Spelled.balanced (hend : ∀ us, End us → Balanced us) : ∀ {ts : List Token} {s : Stmt},
    Stmt.Spelled End ts s → Balanced ts
  | _, _, .bind hk hi ha he hus => .token hk nofun nofun (.token hi nofun nofun (.token ha nofun nofun
      ((he.balanced hend).append (hend _ hus))))
  | _, _, .ret hk he hus => .token hk nofun nofun ((he.balanced hend).append (hend _ hus))
  | _, _, .expr he hus => (he.balanced hend).append (hend _ hus)
  | _, _, .block hb => hb.balanced hend

theorem Stmt.SpelledAll.balanced (hend : ∀ us, End us → Balanced us) : ∀ {ts : List Token} {ss : List Stmt},
    Stmt.SpelledAll End ts ss → Balanced ts
  | _, _, .nil => .nil
  | _, _, .cons hs hss => (hs.balanced hend).append (hss.balanced hend)

theorem Block.Spelled.balanced (hend : ∀ us, End us → Balanced us) : ∀ {ts : List Token} {b : Block},
    Block.Spelled End ts b → Balanced ts
  | _, _, .mk ho hss hc => .enclosed ho (hss.balanced hend) hc

theorem Block.SpelledElse.balanced (hend : ∀ us, End us → Balanced us) : ∀ {ts : List Token} {b? : Option Block},
    Block.SpelledElse End ts b? → Balanced ts
  | _, _, .none => .nil
  | _, _, .some hk hb => .token hk nofun nofun (hb.balanced hend)

end

theorem OptionalSemicolon.balanced {ts : List Token} (h : OptionalSemicolon ts) : Balanced ts := by
  obtain rfl | ⟨t, hk, rfl⟩ := h
  · exact .nil
  · exact .token hk nofun nofun .nil

/-- A text that is read without a diagnostic has balanced braces. -/
theorem parse_balanced {text : String} (h : (parse text).diagnostics = []) : Balanced (Lexer.ofText text).tokens := by
  have hr := Lexer.reading_ready (Lexer.ofText text) ()
  have hs := Grammar.program_spelled (Reading.readAll_spec Tracer.silent hr) hr (quiet_of_parse h)
  exact hs.balanced fun _ => OptionalSemicolon.balanced

end Scriptlet
