import Scriptlet.Proofs.Spelling.Genuine
import Scriptlet.Proofs.Spelling.RoundTrip

/-!
# Reading what is shown

The text that a tree is shown as (`Program.render`) puts parentheses around every operator and nothing at the end of an expression
statement, so in general it is no text of the language. It is one for bindings and returns, and one expression after them, as long as
no block stands in them (`Program.isDelimited`): the text is then read without a diagnostic, and the program that is read is the one
that was shown (`parse_render`).

The pieces of that text are glued together, so each token has to be cut off in front of the very next character
(`Expr.Renders.cuts`).
-/

namespace Scriptlet

/-! ## Trees that are shown as they are read -/

mutual

/-- No block stands in the expression. -/
def Expr.isBlockless : Expr → Bool
  | .ident _ | .int _ _ | .float _ _ | .bool _ _ | .string _ _ => true
  | .unary _ _ e => e.isBlockless
  | .binary _ l _ r => l.isBlockless && r.isBlockless
  | .cond _ _ _ _ | .function _ _ _ => false
  | .call _ f args => f.isBlockless && Expr.areBlockless args

/-- No block stands in one of the expressions. -/
def Expr.areBlockless : List Expr → Bool
  | [] => true
  | e :: es => e.isBlockless && Expr.areBlockless es

end

/-- Bindings and returns, and one expression after them or none. -/
def Stmt.areDelimited : List Stmt → Bool
  | [] => true
  | [.expr _ e] => e.isBlockless
  | .bind _ _ e :: ss | .ret _ e :: ss => e.isBlockless && Stmt.areDelimited ss
  | _ => false

/-- The program consists of bindings and returns, and one expression after them or none, without a block. -/
def Program.isDelimited (p : Program) : Bool := Stmt.areDelimited p.statements

/-! ## Expressions -/

/-- The text of an expression is cut into tokens that spell the expression, whatever ends the last one of them. -/
structure Expr.Renders (e : Expr) (ts : List Token) : Prop where
  spelled : Expr.Spelled Semicolon .call ts e
  /-- The text can follow an operator. -/
  head : ∃ c cs, e.render.toList = c :: cs ∧ c ≠ '='
  cuts {cs : List Char} {us : List Token} : BreakAhead cs → Cuts cs us → Cuts (e.render.toList ++ cs) (ts ++ us)

/-- What starts with an equals sign is an operator. -/
theorem Lexeme.kind_of_equals {cs : List Char} {x : Lexeme} (h : ofText? ('=' :: cs) = some x) : x.kind = .assign ∨ x.kind = .eq := by
  have hx : x = symbol '=' cs := (Option.some_inj.mp h).symm
  rw [hx]
  unfold symbol
  split
  · split
    · next d _ k hk =>
      right
      unfold pairKind? at hk
      split at hk <;> simp_all
    · exact Or.inl rfl
  · exact Or.inl rfl

/-- A delimiter more in front of a text. -/
theorem Token.Is.cuts {t : Token} {k : Kind} {cs : List Char} {ts : List Token} (h : t.Is k k.name)
    (hk : k ∈ [Kind.lparen, .rparen, .comma, .semicolon]) (hcuts : Cuts cs ts) : Cuts (k.name.toList ++ cs) (t :: ts) := by
  obtain ⟨rfl, hl⟩ := h
  have hne : t.kind ≠ .string := by
    intro e
    rw [e] at hk
    exact absurd hk (by decide)
  have hcut := (Token.cutBefore_delimiter hk hl cs).cuts hcuts
  rwa [Token.text_of_ne_string hne, hl] at hcut

/-- What a token of its own is written as, if it is no string. -/
theorem Token.Is.text {t : Token} {k : Kind} {w : String} (h : t.Is k w) (hk : k ≠ .string) : t.text = w := by
  rw [Token.text_of_ne_string (by rw [h.1]; exact hk), h.2]

theorem Kind.written_is (k : Kind) : k.written.Is k k.name := ⟨rfl, rfl⟩

namespace Expr.Renders

variable {e l r f : Expr} {ts us : List Token} {t : Token}

/-- An expression that is shown as a single token. -/
theorem atom (hs : Expr.Spelled Semicolon .call [t] e) (ht : t.Separable) (htext : e.render = t.text) : e.Renders [t] := by
  refine ⟨hs, ?_, fun hcs h => ?_⟩
  · have hcut := (ht [] breakAhead_nil).cut
    have hne : t.text.toList ≠ [] := (Lexeme.spelling_append_rest hcut).1
    obtain ⟨c, cs, hc⟩ := List.exists_cons_of_ne_nil hne
    refine ⟨c, cs, by rw [htext, hc], ?_⟩
    rintro rfl
    -- an operator starts no expression
    obtain ⟨u, us, heq, hstart⟩ := hs.first
    cases heq
    rw [hc] at hcut
    obtain hk | hk := Lexeme.kind_of_equals hcut
    · rw [show t.kind = .assign from hk] at hstart
      cases hstart
    · rw [show t.kind = .eq from hk] at hstart
      cases hstart
  · rw [htext]
    exact ht.cuts hcs h

theorem unary (h : e.Renders ts) (hk : t.kind.isUnary) (hl : t.literal = t.kind.name) :
    (Expr.unary t t.literal e).Renders (Kind.lparen.written :: (t :: ts ++ [Kind.rparen.written])) := by
  refine ⟨?_, ⟨'(', _, by rw [Expr.render, String.append_assoc, String.append_assoc, String.toList_append]; rfl, by decide⟩,
    fun {cs us} hcs hcuts => ?_⟩
  · exact .group rfl (Expr.Spelled.unary hk (h.spelled.weaken (Precedence.le_call _))).lowest rfl
  · have hoperand := h.cuts (breakAhead_cons rfl) (Kind.rparen.written_is.cuts (by decide) hcuts)
    have hne : t.kind ≠ .string := by
      intro e
      rw [e] at hk
      cases hk
    have hop : t.CutBefore (e.render.toList ++ (Kind.rparen.name.toList ++ cs)) := by
      refine Token.cutBefore_symbol (Kind.isSymbol_of_isUnary hk) hl ?_ fun hdot => ?_
      · obtain ⟨c, w, hw, hc⟩ := h.head
        rw [hw]
        intro d hd
        cases hd
        exact hc
      · rw [hdot] at hk
        cases hk
    have hcut := Kind.lparen.written_is.cuts (by decide) (hop.cuts hoperand)
    rw [Token.text_of_ne_string hne] at hcut
    simp only [Expr.render, String.toList_append, List.append_assoc, List.cons_append, List.nil_append]
    exact hcut

theorem binary {p : Precedence} (h : l.Renders ts) (h' : r.Renders us) (hp : t.kind.infixLevel? = some p)
    (hl : t.literal = t.kind.name) :
    (Expr.binary t l t.literal r).Renders (Kind.lparen.written :: (ts ++ t :: us ++ [Kind.rparen.written])) := by
  have hsym := Kind.isSymbol_of_infixLevel? (Option.isSome_of_eq_some hp)
  refine ⟨?_, ⟨'(', _, by simp only [Expr.render, String.append_assoc, String.toList_append]; rfl, by decide⟩,
    fun {cs vs} hcs hcuts => ?_⟩
  · have hlt := Precedence.lt_unary_of_infixLevel? hp
    have hlt' : p < .call := Nat.lt_trans hlt (by decide)
    exact .group rfl (Expr.Spelled.binary hp (h.spelled.weaken (Precedence.le_call _)) hlt' h'.spelled).lowest rfl
  · have hne : t.kind ≠ .string := by
      intro e
      rw [e] at hsym
      cases hsym
    have hright := h'.cuts (breakAhead_cons rfl) (Kind.rparen.written_is.cuts (by decide) hcuts)
    have hop := (Token.separable_symbol hsym hl).cuts (breakAhead_cons (c := ' ') rfl) (hright.blank rfl)
    have hleft := h.cuts (breakAhead_cons (c := ' ') rfl) (hop.blank rfl)
    have hcut := Kind.lparen.written_is.cuts (by decide) hleft
    rw [Token.text_of_ne_string hne] at hcut
    simp only [Expr.render, String.toList_append, List.append_assoc, List.cons_append, List.nil_append]
    exact hcut

end Expr.Renders

/-- The text of arguments is cut into tokens that spell them, in front of the parenthesis that closes them. -/
structure Expr.RendersAll (es : List Expr) (ts : List Token) : Prop where
  spelled : Expr.SpelledAll Semicolon ts es
  cuts {cs : List Char} {us : List Token} : BreakAhead cs → Cuts cs us →
    Cuts ((", ".intercalate (Expr.renderAll es)).toList ++ cs) (ts ++ us)

/-- One argument and those after it. -/
theorem Expr.exists_rendersMore {e : Expr} {es : List Expr} (he : ∃ ts, e.Renders ts) (hes : ∀ e ∈ es, ∃ ts, e.Renders ts) :
    ∃ ts us, Expr.Spelled Semicolon .lowest ts e ∧ Expr.SpelledMore Semicolon us es ∧
      ∀ {cs vs}, BreakAhead cs → Cuts cs vs →
        Cuts ((", ".intercalate (Expr.renderAll (e :: es))).toList ++ cs) (ts ++ (us ++ vs)) := by
  induction es generalizing e with
  | nil =>
    obtain ⟨ts, h⟩ := he
    refine ⟨ts, [], h.spelled.lowest, .nil, fun hcs hcuts => ?_⟩
    rw [Expr.renderAll, Expr.renderAll, String.intercalate_singleton]
    exact h.cuts hcs hcuts
  | cons e' es ih =>
    rw [List.forall_mem_cons] at hes
    obtain ⟨ts, h⟩ := he
    obtain ⟨ts', us, hs, hmore, hrest⟩ := ih hes.1 hes.2
    refine ⟨ts, Kind.comma.written :: (ts' ++ us), h.spelled.lowest, .cons rfl hs hmore, fun {cs vs} hcs hcuts => ?_⟩
    have hcomma := Kind.comma.written_is.cuts (by decide) ((hrest hcs hcuts).blank (c := ' ') rfl)
    have hcut := h.cuts (breakAhead_cons rfl) hcomma
    rw [Expr.renderAll] at hcut ⊢
    rw [Expr.renderAll, String.intercalate_cons_cons]
    simp only [String.toList_append, List.append_assoc, List.cons_append]
    exact hcut

theorem Expr.exists_rendersAll {es : List Expr} (h : ∀ e ∈ es, ∃ ts, e.Renders ts) : ∃ ts, Expr.RendersAll es ts := by
  cases es with
  | nil => exact ⟨[], .nil, fun _ hcuts => hcuts⟩
  | cons e es =>
    rw [List.forall_mem_cons] at h
    obtain ⟨ts, us, hs, hmore, hcuts⟩ := Expr.exists_rendersMore h.1 h.2
    refine ⟨ts ++ us, .cons hs hmore, fun hcs h => ?_⟩
    rw [List.append_assoc]
    exact hcuts hcs h

theorem Expr.Renders.call {t : Token} {f : Expr} {args : List Expr} {ts us : List Token} (h : f.Renders ts)
    (hargs : Expr.RendersAll args us) (ht : t.Is .lparen "(") :
    (Expr.call t f args).Renders (ts ++ t :: (us ++ [Kind.rparen.written])) := by
  refine ⟨.call h.spelled ht.1 hargs.spelled rfl, ?_, fun {cs vs} hcs hcuts => ?_⟩
  · obtain ⟨c, w, hw, hc⟩ := h.head
    rw [Expr.render, String.append_assoc, String.append_assoc, String.toList_append, hw]
    exact ⟨c, _, rfl, hc⟩
  · have hclose := hargs.cuts (breakAhead_cons rfl) (Kind.rparen.written_is.cuts (by decide) hcuts)
    have hopen : t.Is .lparen Kind.lparen.name := ht
    have hcut := h.cuts (breakAhead_cons rfl) (hopen.cuts (by decide) hclose)
    simp only [Expr.render, String.toList_append, List.append_assoc, List.cons_append, List.nil_append]
    exact hcut

mutual

/-- What can be written and has no block in it is shown as tokens that spell it. -/
theorem Expr.Writable.exists_renders : ∀ {e : Expr}, e.Writable → e.isBlockless → ∃ ts, e.Renders ts
  | .ident id, h, _ => by
    simp only [Expr.Writable] at h
    refine ⟨[id.token], .atom ?_ h.separable ?_⟩
    · rw [h.eq]
      exact .ident h.token.1
    · rw [Expr.render, Token.text_of_ne_string (by rw [h.token.1]; decide), h.token.2]
  | .int t n, h, _ => by
    simp only [Expr.Writable] at h
    refine ⟨[t], .atom (.int h.1 h.2) (Token.separable_int h.1 h.2) ?_⟩
    rw [Expr.render, Token.text_of_ne_string (by rw [h.1]; decide)]
  | .float t x, h, _ => by
    simp only [Expr.Writable] at h
    refine ⟨[t], .atom (.float h.1 h.2) (Token.separable_float h.1 h.2) ?_⟩
    rw [Expr.render, Token.text_of_ne_string (by rw [h.1]; decide)]
  | .bool t true, h, _ => by
    simp only [Expr.Writable, if_true] at h
    refine ⟨[t], .atom (.true h.1) (h.separable (by decide)) ?_⟩
    rw [Expr.render, Token.text_of_ne_string (by rw [h.1]; decide)]
  | .bool t false, h, _ => by
    simp only [Expr.Writable, Bool.false_eq_true, if_false] at h
    refine ⟨[t], .atom (.false h.1) (h.separable (by decide)) ?_⟩
    rw [Expr.render, Token.text_of_ne_string (by rw [h.1]; decide)]
  | .string t v, h, _ => by
    simp only [Expr.Writable] at h
    obtain ⟨⟨hk, rfl⟩, hq⟩ := h
    refine ⟨[t], .atom (.string hk) (Token.separable_string hk hq) ?_⟩
    rw [Expr.render, Token.text, if_pos hk]
  | .unary t op e, h, hb => by
    simp only [Expr.Writable] at h
    simp only [Expr.isBlockless] at hb
    obtain ⟨hk, hl, rfl, he⟩ := h
    obtain ⟨ts, hts⟩ := he.exists_renders hb
    exact ⟨_, hts.unary hk hl⟩
  | .binary t l op r, h, hb => by
    simp only [Expr.Writable] at h
    simp only [Expr.isBlockless, Bool.and_eq_true] at hb
    obtain ⟨hk, hl, rfl, hleft, hright⟩ := h
    obtain ⟨p, hp⟩ := Option.isSome_iff_exists.mp hk
    obtain ⟨ts, hts⟩ := hleft.exists_renders hb.1
    obtain ⟨us, hus⟩ := hright.exists_renders hb.2
    exact ⟨_, hts.binary hus hp hl⟩
  | .cond _ _ _ _, _, hb | .function _ _ _, _, hb => by
    simp only [Expr.isBlockless, Bool.false_eq_true] at hb
  | .call t f args, h, hb => by
    simp only [Expr.Writable] at h
    simp only [Expr.isBlockless, Bool.and_eq_true] at hb
    obtain ⟨hk, hf, hargs⟩ := h
    obtain ⟨ts, hts⟩ := hf.exists_renders hb.1
    obtain ⟨us, hus⟩ := Expr.exists_rendersAll (hargs.exists_renders hb.2)
    exact ⟨_, hts.call hus hk⟩

theorem Expr.AllWritable.exists_renders : ∀ {es : List Expr}, Expr.AllWritable es → Expr.areBlockless es →
    ∀ e ∈ es, ∃ ts, e.Renders ts
  | [], _, _ => nofun
  | e :: es, h, hb => by
    simp only [Expr.AllWritable] at h
    simp only [Expr.areBlockless, Bool.and_eq_true] at hb
    rw [List.forall_mem_cons]
    exact ⟨h.1.exists_renders hb.1, h.2.exists_renders hb.2⟩

end

/-! ## Statements -/

/-- The text of statements is cut into tokens that are read as these statements, but for the tokens that expression statements
keep. -/
structure Stmt.RendersAll (ss : List Stmt) (ts : List Token) (ss' : List Stmt) : Prop where
  cuts : Cuts (Stmt.renderAll ss).toList ts
  gives {r : Reading Unit} : r.Ready → ∀ n, (Grammar.program Tracer.silent n).Gives (r.on ts) ss' (r.on [])
  bare : ss'.map Stmt.bare = ss.map Stmt.bare

namespace Stmt.RendersAll

variable {ss ss' : List Stmt} {e : Expr} {ts us : List Token} {t : Token}

theorem nil : RendersAll [] [] [] :=
  ⟨.nil nofun, fun {r} hr n => Grammar.program_nil (r := r.on []) hr.eof n, rfl⟩

/-- An expression at the end. -/
theorem last (he : e.Renders ts) : ∃ u, RendersAll [.expr t e] ts [.expr u e] := by
  obtain ⟨u, us, rfl, -⟩ := he.spelled.first
  refine ⟨u, ?_, fun hr n => he.spelled.lowest.program_gives hr n, rfl⟩
  have hcut := he.cuts breakAhead_nil (.nil nofun)
  rw [List.append_nil, List.append_nil] at hcut
  rw [Stmt.renderAll, Stmt.renderAll, Stmt.render, String.append_empty]
  exact hcut

/-- One statement more at the front. -/
theorem cons {s : Stmt} (hs : Stmt.Spelled Semicolon us s) (h : RendersAll ss ts ss')
    (hcuts : Cuts (s.render.toList ++ (Stmt.renderAll ss).toList) (us ++ ts)) :
    RendersAll (s :: ss) (us ++ ts) (s :: ss') := by
  refine ⟨?_, fun hr n => hs.program_gives (h.gives hr) n, by rw [List.map_cons, List.map_cons, h.bare]⟩
  rw [Stmt.renderAll, String.toList_append]
  exact hcuts

theorem bind {id : Identifier} (he : e.Renders us) (ht : t.Is .kwLet "let") (hid : id.Writable) (h : RendersAll ss ts ss') :
    ∃ vs, RendersAll (.bind t id e :: ss) vs (.bind t id e :: ss') := by
  refine ⟨t :: id.token :: Kind.assign.written :: (us ++ [Kind.semicolon.written]) ++ ts, cons ?_ h ?_⟩
  · rw [hid.eq]
    exact .bind ht.1 hid.token.1 rfl he.spelled.lowest semicolon_written
  · have hvalue := he.cuts (breakAhead_cons rfl) (Kind.semicolon.written_is.cuts (by decide) h.cuts)
    have hassign := (Kind.written_separable (k := .assign) rfl).cuts (breakAhead_cons (c := ' ') rfl) (hvalue.blank rfl)
    have hname := hid.separable.cuts (breakAhead_cons (c := ' ') rfl) (hassign.blank rfl)
    have hlet := (ht.separable (by decide)).cuts (breakAhead_cons (c := ' ') rfl) (hname.blank rfl)
    rw [ht.text (by decide), hid.token.text (by decide)] at hlet
    simp only [Stmt.render, ht.2, String.toList_append, List.append_assoc, List.cons_append, List.nil_append]
    exact hlet

theorem ret (he : e.Renders us) (ht : t.Is .kwReturn "return") (h : RendersAll ss ts ss') :
    ∃ vs, RendersAll (.ret t e :: ss) vs (.ret t e :: ss') := by
  refine ⟨t :: (us ++ [Kind.semicolon.written]) ++ ts, cons (.ret ht.1 he.spelled.lowest semicolon_written) h ?_⟩
  have hvalue := he.cuts (breakAhead_cons rfl) (Kind.semicolon.written_is.cuts (by decide) h.cuts)
  have hret := (ht.separable (by decide)).cuts (breakAhead_cons (c := ' ') rfl) (hvalue.blank rfl)
  rw [ht.text (by decide)] at hret
  simp only [Stmt.render, ht.2, String.toList_append, List.append_assoc, List.cons_append, List.nil_append]
  exact hret

end Stmt.RendersAll

/-- What can be written and is delimited is shown as tokens that are read as it. -/
theorem Stmt.AllWritable.exists_renders : ∀ {ss : List Stmt}, Stmt.AllWritable ss → Stmt.areDelimited ss →
    ∃ ts ss', Stmt.RendersAll ss ts ss'
  | [], _, _ => ⟨_, _, .nil⟩
  | .bind t id e :: ss, h, hd => by
    simp only [Stmt.AllWritable, Stmt.Writable] at h
    simp only [Stmt.areDelimited, Bool.and_eq_true] at hd
    obtain ⟨⟨hk, hid, he⟩, hss⟩ := h
    obtain ⟨us, hus⟩ := he.exists_renders hd.1
    obtain ⟨ts, ss', hts⟩ := hss.exists_renders hd.2
    obtain ⟨vs, hvs⟩ := hts.bind hus hk hid
    exact ⟨vs, _, hvs⟩
  | .ret t e :: ss, h, hd => by
    simp only [Stmt.AllWritable, Stmt.Writable] at h
    simp only [Stmt.areDelimited, Bool.and_eq_true] at hd
    obtain ⟨⟨hk, he⟩, hss⟩ := h
    obtain ⟨us, hus⟩ := he.exists_renders hd.1
    obtain ⟨ts, ss', hts⟩ := hss.exists_renders hd.2
    obtain ⟨vs, hvs⟩ := hts.ret hus hk
    exact ⟨vs, _, hvs⟩
  | [.expr t e], h, hd => by
    simp only [Stmt.AllWritable, Stmt.Writable] at h
    simp only [Stmt.areDelimited] at hd
    obtain ⟨us, hus⟩ := h.1.exists_renders hd
    obtain ⟨u, hu⟩ := Stmt.RendersAll.last (t := t) hus
    exact ⟨us, _, hu⟩
  | .expr _ _ :: _ :: _, _, hd | .block _ :: _, _, hd => by
    simp only [Stmt.areDelimited, Bool.false_eq_true] at hd

/-! ## Programs -/

/-- The text that a delimited program is shown as is read as the program, and without a diagnostic. -/
theorem Program.Writable.parse_render {p : Program} (h : p.Writable) (hd : p.isDelimited) :
    (parse p.render).diagnostics = [] ∧ (parse p.render).program.bare = p.bare := by
  obtain ⟨ts, ss', hts⟩ := Stmt.AllWritable.exists_renders h hd
  have hread := @parse_of_unplaced p.render _ _ (hts.cuts.tokens Pos.start) hts.gives
  rwa [hts.bare] at hread

/-- Programs that are the same without the places of their tokens are shown as the same text. -/
theorem Program.render_eq_of_bare_eq {p q : Program} (h : p.bare = q.bare) : p.render = q.render := by
  rw [← p.render_bare, h, q.render_bare]

/-- What comes of reading the text that a program is shown as. -/
structure Program.Restored (p : Program) : Prop where
  diagnostics : (parse p.render).diagnostics = []
  bare : (parse p.render).program.bare = p.bare
  render : (parse p.render).program.render = p.render

/-- A delimited program that is read without a diagnostic is restored from the text it is shown as, and another such program that is
shown as the same text is the same. -/
theorem restored_of_isDelimited {text : String} (h : (parse text).diagnostics = []) (hd : (parse text).program.isDelimited) :
    (parse text).program.Restored ∧
      ∀ text' : String, (parse text').diagnostics = [] → (parse text').program.isDelimited →
        (parse text').program.render = (parse text).program.render → (parse text').program.bare = (parse text).program.bare := by
  obtain ⟨hquiet, hbare⟩ := (parse_writable h).parse_render hd
  refine ⟨⟨hquiet, hbare, Program.render_eq_of_bare_eq hbare⟩, fun text' h' hd' heq => ?_⟩
  obtain ⟨-, hbare'⟩ := (parse_writable h').parse_render hd'
  rw [← hbare, ← heq, hbare']

/-- A binding, a return and an expression, with tokens that are shown without a space between them. -/
def gluedText : String := "let a = -.5 * (x + 5.) return f(a, \"b\nc\")(!true); g() == 1"

theorem restored_gluedText :
    (parse gluedText).diagnostics = [] ∧ (parse gluedText).program.isDelimited ∧ (parse gluedText).program.Restored ∧
      (parse "let a = ((-.5) * (x + 5.)); return (f(a, \"b\nc\"))((!true)); (g() == 1);").program.bare =
        (parse gluedText).program.bare := by
  have h : (parse gluedText).diagnostics = [] := by decide +kernel
  have hd : (parse gluedText).program.isDelimited := by decide +kernel
  obtain ⟨hrestored, hinj⟩ := restored_of_isDelimited h hd
  exact ⟨h, hd, hrestored, hinj _ (by decide +kernel) (by decide +kernel) (by decide +kernel)⟩

end Scriptlet
