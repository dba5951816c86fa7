import Scriptlet.Proofs.Spelling.Sound
import Scriptlet.Proofs.Spelling.Write
import Scriptlet.Proofs.Token.Form

/-!
# What is read can be written

The program of a text that is read without a diagnostic can be written (`parse_writable`): every node of it keeps a token of the text,
and what a token of a text stands for is decided by its kind, or has the form that its kind asks for (`Token.Genuine`).

The tokens of such a text are a derivation of the program, so this is shown along the derivation.
-/

namespace Scriptlet

/-! ## Tokens of a text -/

/-- The token has the kind and the literal of a lexeme in one of the forms. -/
def Token.Genuine (t : Token) : Prop := ∃ x : Lexeme, x.Form ∧ t.kind = x.kind ∧ t.literal = x.literal

/-- Every token of a text is genuine. -/
theorem Lexer.tokens_genuine (l : Lexer) : ∀ t ∈ l.tokens, t.Genuine := by
  refine forall_tokens (fun l t l' h => ?_) l
  obtain ⟨x, hx, heq⟩ := Option.map_eq_some_iff.mp h
  cases heq
  exact ⟨x, Lexeme.form_of_ofText? hx, rfl, rfl⟩

namespace Kind

/-- A keyword is the only word of its kind. -/
theorem eq_of_ofWord_eq {s w : String} (h : ofWord s = ofWord w) (hw : ofWord w ≠ .ident) : s = w := by
  unfold ofWord at h hw
  split at hw <;> split at h <;> first | exact absurd rfl hw | rfl | cases h

theorem isSymbol_ofWord (s : String) : (ofWord s).isSymbol = false := by
  unfold ofWord
  split <;> rfl

end Kind

namespace Token.Genuine

variable {t : Token} (h : t.Genuine)

include h

/-- A name is made of letters, and no keyword. -/
theorem name (hk : t.kind = .ident) : Identifier.Writable ⟨t, t.literal⟩ := by
  obtain ⟨x, hx, hkind, hlit⟩ := h
  rw [hk] at hkind
  cases hx with
  | @word w rest hne hw =>
    have hliteral : t.literal = String.ofList w := by
      rw [hlit, Lexeme.Form.literal_of_ne_string (Kind.ofWord_ne rfl _)]
    refine ⟨⟨hk, rfl⟩, ?_, ?_, ?_⟩
    · intro hempty
      rw [show t.literal = "" from hempty] at hliteral
      have hnil : w = [] := by
        rw [← String.toList_ofList (l := w), ← hliteral]
        rfl
      exact hne hnil
    · rw [show t.literal = _ from hliteral, String.toList_ofList]
      exact hw
    · rw [show t.literal = _ from hliteral]
      exact hkind.symm
  | symbol hsym => exact absurd ((congrArg Kind.isSymbol hkind).trans hsym) (by decide)
  | integer | float | string | unclosed | stray => cases hkind

/-- A keyword is always written the same. -/
theorem keyword {k : Kind} {w : String} (hk : t.kind = k) (hw : Kind.ofWord w = k ∧ k ≠ .ident) : t.Is k w := by
  refine ⟨hk, ?_⟩
  obtain ⟨x, hx, hkind, hlit⟩ := h
  obtain ⟨rfl, hne⟩ := hw
  rw [hk] at hkind
  cases hx with
  | @word v rest _ _ =>
    rw [hlit, Lexeme.Form.literal_of_ne_string (Kind.ofWord_ne rfl _)]
    exact Kind.eq_of_ofWord_eq hkind.symm hne
  | symbol hsym => exact absurd ((congrArg Kind.isSymbol hkind).trans hsym) (by rw [Kind.isSymbol_ofWord]; decide)
  | integer | float | string | unclosed | stray => exact absurd hkind (Kind.ofWord_ne rfl _)

/-- A symbol is written as its name. -/
theorem symbol {k : Kind} (hk : t.kind = k) (hsym : k.isSymbol) : t.Is k k.name := by
  refine ⟨hk, ?_⟩
  obtain ⟨x, hx, hkind, hlit⟩ := h
  subst hk
  rw [hkind] at hsym
  cases hx with
  | symbol _ =>
    rw [hlit, hkind, Lexeme.Form.literal_of_ne_string (fun e => by rw [e] at hsym; cases hsym), String.ofList_toList]
  | word => exact absurd hsym (by rw [Kind.isSymbol_ofWord]; decide)
  | integer | float | string | unclosed | stray => cases hsym

/-- No quote stands between the quotes of a string. -/
theorem string (hk : t.kind = .string) : '"' ∉ t.literal.toList := by
  obtain ⟨x, hx, hkind, hlit⟩ := h
  rw [hk] at hkind
  cases hx with
  | @string w rest hw =>
    have hliteral : t.literal.toList = w := by
      rw [hlit]
      simp [Lexeme.literal]
    rw [hliteral]
    exact hw
  | word => exact absurd hkind.symm (Kind.ofWord_ne rfl _)
  | symbol hsym => exact absurd ((congrArg Kind.isSymbol hkind).trans hsym) (by decide)
  | integer | float | unclosed | stray => cases hkind

end Token.Genuine

/-! ## Derivations from the tokens of a text -/

namespace Identifier

theorem SpelledMore.writable {ts : List Token} {ids : List Identifier} (h : SpelledMore ts ids) (hts : ∀ t ∈ ts, t.Genuine) :
    ∀ id ∈ ids, id.Writable := by
  induction h with
  | nil => nofun
  | cons _ hk _ ih =>
    simp only [List.forall_mem_cons] at hts ⊢
    exact ⟨hts.2.1.name hk, ih hts.2.2⟩

theorem SpelledAll.writable {ts : List Token} {ids : List Identifier} (h : SpelledAll ts ids) (hts : ∀ t ∈ ts, t.Genuine) :
    ∀ id ∈ ids, id.Writable := by
  cases h with
  | nil => nofun
  | cons hk h =>
    rw [List.forall_mem_cons] at hts ⊢
    exact ⟨hts.1.name hk, h.writable hts.2⟩

end Identifier

variable {End : List Token → Prop}

mutual

/-- An expression that genuine tokens spell can be written. -/
theorem Expr.Spelled.writable : ∀ {p : Precedence} {ts : List Token} {e : Expr}, Expr.Spelled End p ts e →
    (∀ t ∈ ts, t.Genuine) → e.Writable
  | _, _, _, .stronger _ h, hts => h.writable hts
  | _, _, _, .ident hk, hts => by
    rw [List.forall_mem_singleton] at hts
    simp only [Expr.Writable]
    exact hts.name hk
  | _, _, _, .int hk hv, _ => by
    simp only [Expr.Writable]
    exact ⟨hk, hv⟩
  | _, _, _, .float hk hv, _ => by
    simp only [Expr.Writable]
    exact ⟨hk, hv⟩
  | _, _, _, .string hk, hts => by
    rw [List.forall_mem_singleton] at hts
    simp only [Expr.Writable]
    exact ⟨⟨hk, rfl⟩, hts.string hk⟩
  | _, _, _, .true hk, hts => by
    rw [List.forall_mem_singleton] at hts
    simp only [Expr.Writable, if_true]
    exact hts.keyword hk (by decide)
  | _, _, _, .false hk, hts => by
    rw [List.forall_mem_singleton] at hts
    simp only [Expr.Writable, Bool.false_eq_true, if_false]
    exact hts.keyword hk (by decide)
  | _, _, _, .group _ h _, hts => by
    simp only [List.forall_mem_cons, List.forall_mem_append] at hts
    exact h.writable hts.2.1
  | _, _, _, .unary hk h, hts => by
    rw [List.forall_mem_cons] at hts
    simp only [Expr.Writable]
    exact ⟨hk, (hts.1.symbol rfl (Kind.isSymbol_of_isUnary hk)).2, trivial, h.writable hts.2⟩
  | _, _, _, .binary hp hl _ hr, hts => by
    rw [List.forall_mem_append, List.forall_mem_cons] at hts
    have hk := Option.isSome_of_eq_some hp
    simp only [Expr.Writable]
    exact ⟨hk, (hts.2.1.symbol rfl (Kind.isSymbol_of_infixLevel? hk)).2, trivial, hl.writable hts.1, hr.writable hts.2.2⟩
  | _, _, _, .cond hk _ hc _ ha .none, hts => by
    simp only [List.forall_mem_cons, List.forall_mem_append] at hts
    obtain ⟨hif, -, hcs, -, has, -⟩ := hts
    simp only [Expr.Writable]
    exact ⟨hif.keyword hk (by decide), hc.writable hcs, ha.writable has⟩
  | _, _, _, .cond hk _ hc _ ha (.some _ hb), hts => by
    simp only [List.forall_mem_cons, List.forall_mem_append] at hts
    obtain ⟨hif, -, hcs, -, has, -, hbs⟩ := hts
    simp only [Expr.Writable]
    exact ⟨hif.keyword hk (by decide), hc.writable hcs, ha.writable has, hb.writable hbs⟩
  | _, _, _, .function hk _ hi _ hb, hts => by
    simp only [List.forall_mem_cons, List.forall_mem_append] at hts
    obtain ⟨hfn, -, his, -, hbs⟩ := hts
    simp only [Expr.Writable]
    exact ⟨hfn.keyword hk (by decide), hi.writable his, hb.writable hbs⟩
  | _, _, _, .call hf ho ha _, hts => by
    simp only [List.forall_mem_cons, List.forall_mem_append] at hts
    obtain ⟨hfs, hopen, has, -⟩ := hts
    simp only [Expr.Writable]
    exact ⟨hopen.symbol ho rfl, hf.writable hfs, ha.writable has⟩

theorem Expr.SpelledAll.writable : ∀ {ts : List Token} {es : List Expr}, Expr.SpelledAll End ts es →
    (∀ t ∈ ts, t.Genuine) → Expr.AllWritable es
  | _, _, .nil, _ => by
    simp only [Expr.AllWritable]
  | _, _, .cons he hes, hts => by
    rw [List.forall_mem_append] at hts
    simp only [Expr.AllWritable]
    exact ⟨he.writable hts.1, hes.writable hts.2⟩

theorem Expr.SpelledMore.writable : ∀ {ts : List Token} {es : List Expr}, Expr.SpelledMore End ts es →
    (∀ t ∈ ts, t.Genuine) → Expr.AllWritable es
  | _, _, .nil, _ => by
    simp only [Expr.AllWritable]
  | _, _, .cons _ he hes, hts => by
    rw [List.forall_mem_cons, List.forall_mem_append] at hts
    simp only [Expr.AllWritable]
    exact ⟨he.writable hts.2.1, hes.writable hts.2.2⟩

/-- A statement that genuine tokens spell can be written. -/
theorem Stmt.Spelled.writable : ∀ {ts : List Token} {s : Stmt}, Stmt.Spelled End ts s → (∀ t ∈ ts, t.Genuine) → s.Writable
  | _, _, .bind hk hi _ he _, hts => by
    simp only [List.forall_mem_cons, List.forall_mem_append] at hts
    obtain ⟨hlet, hname, -, hes, -⟩ := hts
    simp only [Stmt.Writable]
    exact ⟨hlet.keyword hk (by decide), hname.name hi, he.writable hes⟩
  | _, _, .ret hk he _, hts => by
    simp only [List.forall_mem_cons, List.forall_mem_append] at hts
    obtain ⟨hret, hes, -⟩ := hts
    simp only [Stmt.Writable]
    exact ⟨hret.keyword hk (by decide), he.writable hes⟩
  | _, _, .expr he _, hts => by
    rw [← List.cons_append, List.forall_mem_append] at hts
    simp only [Stmt.Writable]
    exact he.writable hts.1
  | _, _, .block hb, hts => by
    simp only [Stmt.Writable]
    exact hb.writable hts

theorem Stmt.SpelledAll.writable : ∀ {ts : List Token} {ss : List Stmt}, Stmt.SpelledAll End ts ss →
    (∀ t ∈ ts, t.Genuine) → Stmt.AllWritable ss
  | _, _, .nil, _ => by
    simp only [Stmt.AllWritable]
  | _, _, .cons hs hss, hts => by
    rw [List.forall_mem_append] at hts
    simp only [Stmt.AllWritable]
    exact ⟨hs.writable hts.1, hss.writable hts.2⟩

theorem Block.Spelled.writable : ∀ {ts : List Token} {b : Block}, Block.Spelled End ts b → (∀ t ∈ ts, t.Genuine) →
    b.Writable
  | _, _, .mk ho hss _, hts => by
    simp only [List.forall_mem_cons, List.forall_mem_append] at hts
    simp only [Block.Writable]
    exact ⟨hts.1.symbol ho rfl, hss.writable hts.2.1⟩

end

/-- The program of a text that is read without a diagnostic can be written. -/
theorem parse_writable {text : String} (h : (parse text).diagnostics = []) : (parse text).program.Writable := by
  have hr := Lexer.reading_ready (Lexer.ofText text) ()
  have hs := Grammar.program_spelled (Reading.readAll_spec Tracer.silent hr) hr (quiet_of_parse h)
  exact hs.writable (Lexer.ofText text).tokens_genuine

end Scriptlet
