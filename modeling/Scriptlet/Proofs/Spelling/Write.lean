import Scriptlet.Proofs.Spelling
import Scriptlet.Proofs.Token.Cut
import Scriptlet.Proofs.Tree.Tokens

/-!
# Writing a tree

A tree is written as tokens (`Program.spell`), and these as a text with a space between two of them (`Program.text`). Every binding,
return and expression statement ends with a semicolon, and a block has nothing after it. Parentheses stand only where the tree needs
them: around a left operand of a weaker level than its operator, around a right operand of a level that is not stronger, and
around the operand of an operator before it or the callee of a call if that is an operator that binds less.

A tree that can be written (`Program.Writable`) keeps in each node the token that the node is written as, and the token's literal
says what the node holds. What is written is a derivation of the tree itself, but for the tokens that expression statements keep
(`Program.spell_spelled`), and every token of it can be cut off the text again (`Program.spell_separable`).
-/

namespace Scriptlet

/-! ## The tokens of a tree -/

/-- A token that no node keeps. -/
def Kind.written (k : Kind) : Token := ⟨k, k.name, Pos.start⟩

/-- The token before the second block of a choice. -/
def elseToken : Token := ⟨.kwElse, "else", Pos.start⟩

/-- Parentheses around tokens, where they are needed. -/
def enclose (needed : Bool) (ts : List Token) : List Token :=
  if needed then Kind.lparen.written :: (ts ++ [Kind.rparen.written]) else ts

/-- How strongly the parts of an expression are bound together. -/
def Expr.level : Expr → Precedence
  | .unary _ _ _ => .unary
  | .binary t _ _ _ => t.kind.precedence
  | _ => .call

namespace Identifier

/-- The tokens of names, each after a comma. -/
def spellMore : List Identifier → List Token
  | [] => []
  | id :: ids => Kind.comma.written :: id.token :: spellMore ids

/-- The tokens of names with a comma between two of them. -/
def spellAll : List Identifier → List Token
  | [] => []
  | id :: ids => id.token :: spellMore ids

end Identifier

mutual

/-- The tokens of an expression, without parentheses around it. -/
def Expr.spell : Expr → List Token
  | .ident id => [id.token]
  | .int t _ | .float t _ | .bool t _ | .string t _ => [t]
  | .unary t _ e => t :: enclose (e.level < .unary) e.spell
  | .binary t l _ r =>
    enclose (l.level < t.kind.precedence) l.spell ++ t :: enclose (r.level ≤ t.kind.precedence) r.spell
  | .cond t c a none => t :: Kind.lparen.written :: (c.spell ++ Kind.rparen.written :: a.spell)
  | .cond t c a (some b) =>
    t :: Kind.lparen.written :: (c.spell ++ Kind.rparen.written :: (a.spell ++ elseToken :: b.spell))
  | .function t ids b =>
    t :: Kind.lparen.written :: (Identifier.spellAll ids ++ Kind.rparen.written :: b.spell)
  | .call t f args => enclose (f.level < .call) f.spell ++ t :: (Expr.spellAll args ++ [Kind.rparen.written])

/-- The tokens of expressions with a comma between two of them. -/
def Expr.spellAll : List Expr → List Token
  | [] => []
  | e :: es => e.spell ++ Expr.spellMore es

/-- The tokens of expressions, each after a comma. -/
def Expr.spellMore : List Expr → List Token
  | [] => []
  | e :: es => Kind.comma.written :: (e.spell ++ Expr.spellMore es)

/-- The tokens of a statement. -/
def Stmt.spell : Stmt → List Token
  | .bind t id e => t :: id.token :: Kind.assign.written :: (e.spell ++ [Kind.semicolon.written])
  | .ret t e => t :: (e.spell ++ [Kind.semicolon.written])
  | .expr _ e => e.spell ++ [Kind.semicolon.written]
  | .block b => b.spell

/-- The tokens of a block. -/
def Block.spell : Block → List Token
  | ⟨t, ss⟩ => t :: (Stmt.spellAll ss ++ [Kind.rbrace.written])

/-- The tokens of statements, one after the other. -/
def Stmt.spellAll : List Stmt → List Token
  | [] => []
  | s :: ss => s.spell ++ Stmt.spellAll ss

end

/-- The tokens of a program. -/
def Program.spell (p : Program) : List Token := Stmt.spellAll p.statements

/-- The text of a program: its tokens with a space between two of them. -/
def Program.text (p : Program) : String := " ".intercalate (p.spell.map Token.text)

/-! ## Trees that can be written -/

/-- A token of a kind that is always written the same. -/
def Token.Is (t : Token) (k : Kind) (literal : String) : Prop := t.kind = k ∧ t.literal = literal

/-- A name: letters and underscores, and no keyword, in a token of its own. -/
structure Identifier.Writable (id : Identifier) : Prop where
  token : id.token.Is .ident id.name
  nonempty : id.name ≠ ""
  letters : ∀ c ∈ id.name.toList, isLetter c
  noKeyword : Kind.ofWord id.name = .ident

mutual

/-- An expression whose nodes keep the tokens that they are written as. -/
def Expr.Writable : Expr → Prop
  | .ident id => id.Writable
  | .int t n => t.kind = .int ∧ Numeral.integer? t.literal = some n
  | .float t x => t.kind = .float ∧ Numeral.float? t.literal = some x
  | .bool t b => if b then t.Is .kwTrue "true" else t.Is .kwFalse "false"
  | .string t v => t.Is .string v ∧ '"' ∉ v.toList
  | .unary t op e => t.kind.isUnary ∧ t.literal = t.kind.name ∧ op = t.literal ∧ e.Writable
  | .binary t l op r => t.kind.infixLevel?.isSome ∧ t.literal = t.kind.name ∧ op = t.literal ∧ l.Writable ∧ r.Writable
  | .cond t c a none => t.Is .kwIf "if" ∧ c.Writable ∧ a.Writable
  | .cond t c a (some b) => t.Is .kwIf "if" ∧ c.Writable ∧ a.Writable ∧ b.Writable
  | .function t ids b => t.Is .kwFn "fn" ∧ (∀ id ∈ ids, id.Writable) ∧ b.Writable
  | .call t f args => t.Is .lparen "(" ∧ f.Writable ∧ Expr.AllWritable args

/-- Expressions that can be written. -/
def Expr.AllWritable : List Expr → Prop
  | [] => True
  | e :: es => e.Writable ∧ Expr.AllWritable es

/-- A statement whose nodes keep the tokens that they are written as; the token of an expression statement may be any. -/
def Stmt.Writable : Stmt → Prop
  | .bind t id e => t.Is .kwLet "let" ∧ id.Writable ∧ e.Writable
  | .ret t e => t.Is .kwReturn "return" ∧ e.Writable
  | .expr _ e => e.Writable
  | .block b => b.Writable

/-- A block whose nodes keep the tokens that they are written as. -/
def Block.Writable : Block → Prop
  | ⟨t, ss⟩ => t.Is .lbrace "\x7b" ∧ Stmt.AllWritable ss

/-- Statements that can be written. -/
def Stmt.AllWritable : List Stmt → Prop
  | [] => True
  | s :: ss => s.Writable ∧ Stmt.AllWritable ss

end

/-- A program whose nodes keep the tokens that they are written as. -/
def Program.Writable (p : Program) : Prop := Stmt.AllWritable p.statements

/-! ## What is written is a derivation -/

section

variable {End : List Token → Prop}

/-- Parentheses may stand around any expression; where there are none, the expression has to be of the level itself. -/
theorem Expr.Spelled.enclose {needed : Bool} {p q : Precedence} {ts : List Token} {e : Expr}
    (h : Expr.Spelled End p ts e) (hq : ¬needed → q ≤ p) : Expr.Spelled End q (enclose needed ts) e := by
  cases needed with
  | false => exact h.weaken (hq nofun)
  | true =>
    have hgroup : Expr.Spelled End .call (Kind.lparen.written :: (ts ++ [Kind.rparen.written])) e := .group rfl h.lowest rfl
    exact hgroup.weaken (Precedence.le_call q)

/-- An operand before an operator, with the parentheses it needs. -/
theorem Expr.Spelled.left {p : Precedence} {ts : List Token} {e e' : Expr} (h : Expr.Spelled End e.level ts e') :
    Expr.Spelled End p (Scriptlet.enclose (e.level < p) ts) e' := by
  refine h.enclose fun hp => ?_
  exact Precedence.not_lt.mp fun hlt => hp (decide_eq_true hlt)

/-- An operand after an operator, with the parentheses it needs. -/
theorem Expr.Spelled.right {p : Precedence} {ts : List Token} {e e' : Expr} (h : Expr.Spelled End e.level ts e') :
    Expr.Spelled End p.operandLevel (Scriptlet.enclose (e.level ≤ p) ts) e' := by
  refine h.enclose fun hp => Precedence.operandLevel_le_of_lt ?_
  exact Nat.lt_of_not_le fun hle => hp (decide_eq_true hle)

end

namespace Identifier

theorem Writable.eq {id : Identifier} (h : id.Writable) : id = ⟨id.token, id.token.literal⟩ := by
  rw [h.token.2]

theorem spelledMore {ids : List Identifier} (h : ∀ id ∈ ids, id.Writable) : SpelledMore (spellMore ids) ids := by
  induction ids with
  | nil => exact .nil
  | cons id ids ih =>
    rw [List.forall_mem_cons] at h
    rw [spellMore, h.1.eq]
    exact .cons rfl h.1.token.1 (ih h.2)

theorem spelledAll {ids : List Identifier} (h : ∀ id ∈ ids, id.Writable) : SpelledAll (spellAll ids) ids := by
  cases ids with
  | nil => exact .nil
  | cons id ids =>
    rw [List.forall_mem_cons] at h
    rw [spellAll, h.1.eq]
    exact .cons h.1.token.1 (spelledMore h.2)

end Identifier

theorem semicolon_written : Semicolon [Kind.semicolon.written] := ⟨_, rfl, rfl⟩

mutual

/-- The tokens of an expression are derived from its level. -/
theorem Expr.Writable.spelled : ∀ {e : Expr}, e.Writable →
    ∃ e', Expr.Spelled Semicolon e.level e.spell e' ∧ e'.bare = e.bare
  | .ident id, h => by
    simp only [Expr.Writable] at h
    refine ⟨.ident id, ?_, rfl⟩
    rw [Expr.spell, h.eq]
    exact .ident h.token.1
  | .int t n, h => by
    simp only [Expr.Writable] at h
    rw [Expr.spell]
    exact ⟨.int t n, .int h.1 h.2, rfl⟩
  | .float t x, h => by
    simp only [Expr.Writable] at h
    rw [Expr.spell]
    exact ⟨.float t x, .float h.1 h.2, rfl⟩
  | .bool t true, h => by
    simp only [Expr.Writable] at h
    rw [Expr.spell]
    exact ⟨.bool t true, .true h.1, rfl⟩
  | .bool t false, h => by
    simp only [Expr.Writable] at h
    rw [Expr.spell]
    exact ⟨.bool t false, .false h.1, rfl⟩
  | .string t v, h => by
    simp only [Expr.Writable] at h
    obtain ⟨⟨hk, rfl⟩, -⟩ := h
    rw [Expr.spell]
    exact ⟨.string t t.literal, .string hk, rfl⟩
  | .unary t op e, h => by
    simp only [Expr.Writable] at h
    obtain ⟨hk, -, rfl, he⟩ := h
    obtain ⟨e', hs, hbare⟩ := Expr.Writable.spelled he
    refine ⟨.unary t t.literal e', ?_, ?_⟩
    · rw [Expr.spell]
      exact .unary hk hs.left
    · simp only [Expr.bare, Expr.mapTokens] at hbare ⊢
      rw [hbare]
  | .binary t l op r, h => by
    simp only [Expr.Writable] at h
    obtain ⟨hk, -, rfl, hl, hr⟩ := h
    obtain ⟨p, hp⟩ := Option.isSome_iff_exists.mp hk
    obtain ⟨l', hls, hlb⟩ := Expr.Writable.spelled hl
    obtain ⟨r', hrs, hrb⟩ := Expr.Writable.spelled hr
    refine ⟨.binary t l' t.literal r', ?_, ?_⟩
    · rw [Expr.spell, Expr.level, (Kind.infixLevel?_eq_some_iff.mp hp).1]
      exact .binary hp hls.left (Precedence.lt_operandLevel (Precedence.lt_unary_of_infixLevel? hp)) hrs.right
    · simp only [Expr.bare, Expr.mapTokens] at hlb hrb ⊢
      rw [hlb, hrb]
  | .cond t c a none, h => by
    simp only [Expr.Writable] at h
    obtain ⟨hk, hc, ha⟩ := h
    obtain ⟨c', hcs, hcb⟩ := Expr.Writable.spelled hc
    obtain ⟨a', has, hab⟩ := Block.Writable.spelled ha
    refine ⟨.cond t c' a' none, ?_, ?_⟩
    · rw [Expr.spell, ← List.append_nil a.spell]
      exact .cond hk.1 rfl hcs.lowest rfl has .none
    · simp only [Expr.bare, Block.bare, Expr.mapTokens] at hcb hab ⊢
      rw [hcb, hab]
  | .cond t c a (some b), h => by
    simp only [Expr.Writable] at h
    obtain ⟨hk, hc, ha, hb⟩ := h
    obtain ⟨c', hcs, hcb⟩ := Expr.Writable.spelled hc
    obtain ⟨a', has, hab⟩ := Block.Writable.spelled ha
    obtain ⟨b', hbs, hbb⟩ := Block.Writable.spelled hb
    refine ⟨.cond t c' a' (some b'), ?_, ?_⟩
    · rw [Expr.spell]
      exact .cond hk.1 rfl hcs.lowest rfl has (.some rfl hbs)
    · simp only [Expr.bare, Block.bare, Expr.mapTokens] at hcb hab hbb ⊢
      rw [hcb, hab, hbb]
  | .function t ids b, h => by
    simp only [Expr.Writable] at h
    obtain ⟨hk, hids, hb⟩ := h
    obtain ⟨b', hbs, hbb⟩ := Block.Writable.spelled hb
    refine ⟨.function t ids b', ?_, ?_⟩
    · rw [Expr.spell]
      exact .function hk.1 rfl (Identifier.spelledAll hids) rfl hbs
    · simp only [Expr.bare, Block.bare, Expr.mapTokens] at hbb ⊢
      rw [hbb]
  | .call t f args, h => by
    simp only [Expr.Writable] at h
    obtain ⟨hk, hf, hargs⟩ := h
    obtain ⟨f', hfs, hfb⟩ := Expr.Writable.spelled hf
    obtain ⟨args', has, hab⟩ := Expr.AllWritable.spelledAll hargs
    refine ⟨.call t f' args', ?_, ?_⟩
    · rw [Expr.spell]
      exact .call hfs.left hk.1 has rfl
    · simp only [Expr.bare, Expr.mapTokens] at hfb hab ⊢
      rw [hfb, hab]

theorem Expr.AllWritable.spelledAll : ∀ {es : List Expr}, Expr.AllWritable es → ∃ es',
    Expr.SpelledAll Semicolon (Expr.spellAll es) es' ∧
      Expr.mapAllTokens Token.unplaced (fun _ => default) es' = Expr.mapAllTokens Token.unplaced (fun _ => default) es
  | [], _ => ⟨[], by rw [Expr.spellAll]; exact .nil, rfl⟩
  | e :: es, h => by
    simp only [Expr.AllWritable] at h
    obtain ⟨e', hs, hb⟩ := Expr.Writable.spelled h.1
    obtain ⟨es', hss, hbs⟩ := Expr.AllWritable.spelledMore h.2
    refine ⟨e' :: es', ?_, ?_⟩
    · rw [Expr.spellAll]
      exact .cons hs.lowest hss
    · simp only [Expr.mapAllTokens, hbs]
      rw [show e'.mapTokens _ _ = _ from hb]

theorem Expr.AllWritable.spelledMore : ∀ {es : List Expr}, Expr.AllWritable es → ∃ es',
    Expr.SpelledMore Semicolon (Expr.spellMore es) es' ∧
      Expr.mapAllTokens Token.unplaced (fun _ => default) es' = Expr.mapAllTokens Token.unplaced (fun _ => default) es
  | [], _ => ⟨[], by rw [Expr.spellMore]; exact .nil, rfl⟩
  | e :: es, h => by
    simp only [Expr.AllWritable] at h
    obtain ⟨e', hs, hb⟩ := Expr.Writable.spelled h.1
    obtain ⟨es', hss, hbs⟩ := Expr.AllWritable.spelledMore h.2
    refine ⟨e' :: es', ?_, ?_⟩
    · rw [Expr.spellMore]
      exact .cons rfl hs.lowest hss
    · simp only [Expr.mapAllTokens, hbs]
      rw [show e'.mapTokens _ _ = _ from hb]

/-- The tokens of a statement are derived from it. -/
theorem Stmt.Writable.spelled : ∀ {s : Stmt}, s.Writable → ∃ s', Stmt.Spelled Semicolon s.spell s' ∧ s'.bare = s.bare
  | .bind t id e, h => by
    simp only [Stmt.Writable] at h
    obtain ⟨hk, hid, he⟩ := h
    obtain ⟨e', hs, hb⟩ := Expr.Writable.spelled he
    refine ⟨.bind t id e', ?_, ?_⟩
    · rw [Stmt.spell, hid.eq]
      exact .bind hk.1 hid.token.1 rfl hs.lowest semicolon_written
    · simp only [Stmt.bare, Expr.bare, Stmt.mapTokens] at hb ⊢
      rw [hb]
  | .ret t e, h => by
    simp only [Stmt.Writable] at h
    obtain ⟨hk, he⟩ := h
    obtain ⟨e', hs, hb⟩ := Expr.Writable.spelled he
    refine ⟨.ret t e', ?_, ?_⟩
    · rw [Stmt.spell]
      exact .ret hk.1 hs.lowest semicolon_written
    · simp only [Stmt.bare, Expr.bare, Stmt.mapTokens] at hb ⊢
      rw [hb]
  | .expr t e, h => by
    simp only [Stmt.Writable] at h
    obtain ⟨e', hs, hb⟩ := Expr.Writable.spelled h
    -- the statement that is read keeps the first token of the expression, whatever `t` is
    obtain ⟨t', ts, hts, -⟩ := hs.first
    refine ⟨.expr t' e', ?_, ?_⟩
    · rw [Stmt.spell, hts]
      rw [hts] at hs
      exact .expr hs.lowest semicolon_written
    · simp only [Stmt.bare, Expr.bare, Stmt.mapTokens] at hb ⊢
      rw [hb]
  | .block b, h => by
    simp only [Stmt.Writable] at h
    obtain ⟨b', hs, hb⟩ := Block.Writable.spelled h
    refine ⟨.block b', ?_, ?_⟩
    · rw [Stmt.spell]
      exact .block hs
    · simp only [Stmt.bare, Block.bare, Stmt.mapTokens] at hb ⊢
      rw [hb]

/-- The tokens of a block are derived from it. -/
theorem Block.Writable.spelled : ∀ {b : Block}, b.Writable → ∃ b', Block.Spelled Semicolon b.spell b' ∧ b'.bare = b.bare
  | ⟨t, ss⟩, h => by
    simp only [Block.Writable] at h
    obtain ⟨ss', hs, hb⟩ := Stmt.AllWritable.spelledAll h.2
    refine ⟨⟨t, ss'⟩, ?_, ?_⟩
    · rw [Block.spell]
      exact .mk h.1.1 hs rfl
    · simp only [Block.bare, Block.mapTokens, hb]

theorem Stmt.AllWritable.spelledAll : ∀ {ss : List Stmt}, Stmt.AllWritable ss → ∃ ss',
    Stmt.SpelledAll Semicolon (Stmt.spellAll ss) ss' ∧
      Stmt.mapAllTokens Token.unplaced (fun _ => default) ss' = Stmt.mapAllTokens Token.unplaced (fun _ => default) ss
  | [], _ => ⟨[], by rw [Stmt.spellAll]; exact .nil, rfl⟩
  | s :: ss, h => by
    simp only [Stmt.AllWritable] at h
    obtain ⟨s', hs, hb⟩ := Stmt.Writable.spelled h.1
    obtain ⟨ss', hss, hbs⟩ := Stmt.AllWritable.spelledAll h.2
    refine ⟨s' :: ss', ?_, ?_⟩
    · rw [Stmt.spellAll]
      exact .cons hs hss
    · simp only [Stmt.mapAllTokens, hbs]
      rw [show s'.mapTokens _ _ = _ from hb]

end

/-- What is written is a derivation of the program, but for the tokens that expression statements keep. -/
theorem Program.spell_spelled {p : Program} (h : p.Writable) :
    ∃ q : Program, Program.Spelled Semicolon p.spell q ∧ q.bare = p.bare := by
  obtain ⟨ss, hs, hb⟩ := Stmt.AllWritable.spelledAll h
  refine ⟨⟨ss⟩, hs, ?_⟩
  rw [Stmt.mapAllTokens_eq_map, Stmt.mapAllTokens_eq_map] at hb
  exact congrArg Program.mk hb

/-! ## What is written can be cut apart -/

theorem Kind.written_separable {k : Kind} (hk : k.isSymbol) : k.written.Separable :=
  Token.separable_symbol (t := k.written) hk rfl

/-- A word in its own token. -/
theorem Token.Is.separable {t : Token} {k : Kind} {w : String} (h : t.Is k w)
    (hw : Kind.ofWord w = k ∧ w.toList ≠ [] ∧ w.toList.all isLetter) : t.Separable := by
  obtain ⟨rfl, rfl⟩ := h
  obtain ⟨hk, hne, hall⟩ := hw
  exact separable_word hk.symm hne (List.all_eq_true.mp hall)

/-- A delimiter in its own token. -/
theorem Token.Is.separable_symbol {t : Token} {k : Kind} (h : t.Is k k.name) (hk : k.isSymbol) : t.Separable := by
  obtain ⟨rfl, hl⟩ := h
  exact Token.separable_symbol hk hl

theorem elseToken_separable : elseToken.Separable := by
  have h : elseToken.Is .kwElse "else" := ⟨rfl, rfl⟩
  exact h.separable (by decide)

theorem enclose_separable {needed : Bool} {ts : List Token} (h : ∀ t ∈ ts, t.Separable) :
    ∀ t ∈ enclose needed ts, t.Separable := by
  cases needed with
  | false => exact h
  | true =>
    intro t ht
    simp only [enclose, if_true, List.mem_cons, List.mem_append, List.mem_nil_iff, or_false] at ht
    rcases ht with rfl | ht | rfl
    · exact Kind.written_separable rfl
    · exact h t ht
    · exact Kind.written_separable rfl

theorem Kind.isSymbol_of_isUnary {k : Kind} (h : k.isUnary) : k.isSymbol := by
  cases k <;> first | rfl | cases h

theorem Kind.isSymbol_of_infixLevel? {k : Kind} (h : k.infixLevel?.isSome) : k.isSymbol := by
  cases k <;> first | rfl | cases h

namespace Identifier

theorem Writable.separable {id : Identifier} (h : id.Writable) : id.token.Separable := by
  refine h.token.separable ⟨h.noKeyword, fun hnil => h.nonempty ?_, List.all_eq_true.mpr h.letters⟩
  rw [← String.ofList_toList (s := id.name), hnil]

theorem spellMore_separable {ids : List Identifier} (h : ∀ id ∈ ids, id.Writable) :
    ∀ t ∈ spellMore ids, t.Separable := by
  induction ids with
  | nil => nofun
  | cons id ids ih =>
    rw [List.forall_mem_cons] at h
    rw [spellMore, List.forall_mem_cons, List.forall_mem_cons]
    exact ⟨Kind.written_separable rfl, h.1.separable, ih h.2⟩

theorem spellAll_separable {ids : List Identifier} (h : ∀ id ∈ ids, id.Writable) : ∀ t ∈ spellAll ids, t.Separable := by
  cases ids with
  | nil => nofun
  | cons id ids =>
    rw [List.forall_mem_cons] at h
    rw [spellAll, List.forall_mem_cons]
    exact ⟨h.1.separable, spellMore_separable h.2⟩

end Identifier

mutual

/-- Every token of an expression can be cut off. -/
theorem Expr.Writable.separable : ∀ {e : Expr}, e.Writable → ∀ t ∈ e.spell, t.Separable
  | .ident id, h => by
    simp only [Expr.Writable] at h
    rw [Expr.spell, List.forall_mem_singleton]
    exact h.separable
  | .int t n, h => by
    simp only [Expr.Writable] at h
    rw [Expr.spell, List.forall_mem_singleton]
    exact Token.separable_int h.1 h.2
  | .float t x, h => by
    simp only [Expr.Writable] at h
    rw [Expr.spell, List.forall_mem_singleton]
    exact Token.separable_float h.1 h.2
  | .bool t true, h => by
    simp only [Expr.Writable, if_true] at h
    rw [Expr.spell, List.forall_mem_singleton]
    exact h.separable (by decide)
  | .bool t false, h => by
    simp only [Expr.Writable, Bool.false_eq_true, if_false] at h
    rw [Expr.spell, List.forall_mem_singleton]
    exact h.separable (by decide)
  | .string t v, h => by
    simp only [Expr.Writable] at h
    obtain ⟨⟨hk, rfl⟩, hq⟩ := h
    rw [Expr.spell, List.forall_mem_singleton]
    exact Token.separable_string hk hq
  | .unary t op e, h => by
    simp only [Expr.Writable] at h
    obtain ⟨hk, hl, -, he⟩ := h
    rw [Expr.spell, List.forall_mem_cons]
    exact ⟨Token.separable_symbol (Kind.isSymbol_of_isUnary hk) hl, enclose_separable he.separable⟩
  | .binary t l op r, h => by
    simp only [Expr.Writable] at h
    obtain ⟨hk, hl, -, hleft, hright⟩ := h
    rw [Expr.spell, List.forall_mem_append, List.forall_mem_cons]
    exact ⟨enclose_separable hleft.separable, Token.separable_symbol (Kind.isSymbol_of_infixLevel? hk) hl,
      enclose_separable hright.separable⟩
  | .cond t c a none, h => by
    simp only [Expr.Writable] at h
    obtain ⟨hk, hc, ha⟩ := h
    simp only [Expr.spell, List.forall_mem_cons, List.forall_mem_append]
    exact ⟨hk.separable (by decide), Kind.written_separable rfl, hc.separable,
      Kind.written_separable rfl, ha.separable⟩
  | .cond t c a (some b), h => by
    simp only [Expr.Writable] at h
    obtain ⟨hk, hc, ha, hb⟩ := h
    simp only [Expr.spell, List.forall_mem_cons, List.forall_mem_append]
    exact ⟨hk.separable (by decide), Kind.written_separable rfl, hc.separable,
      Kind.written_separable rfl, ha.separable, elseToken_separable, hb.separable⟩
  | .function t ids b, h => by
    simp only [Expr.Writable] at h
    obtain ⟨hk, hids, hb⟩ := h
    simp only [Expr.spell, List.forall_mem_cons, List.forall_mem_append]
    exact ⟨hk.separable (by decide), Kind.written_separable rfl,
      Identifier.spellAll_separable hids, Kind.written_separable rfl, hb.separable⟩
  | .call t f args, h => by
    simp only [Expr.Writable] at h
    obtain ⟨hk, hf, hargs⟩ := h
    simp only [Expr.spell, List.forall_mem_cons, List.forall_mem_append]
    exact ⟨enclose_separable hf.separable, hk.separable_symbol rfl, hargs.spellAll_separable,
      Kind.written_separable rfl, nofun⟩

theorem Expr.AllWritable.spellAll_separable : ∀ {es : List Expr}, Expr.AllWritable es →
    ∀ t ∈ Expr.spellAll es, t.Separable
  | [], _ => by
    rw [Expr.spellAll]
    nofun
  | e :: es, h => by
    simp only [Expr.AllWritable] at h
    rw [Expr.spellAll, List.forall_mem_append]
    exact ⟨h.1.separable, Expr.AllWritable.spellMore_separable h.2⟩

theorem Expr.AllWritable.spellMore_separable : ∀ {es : List Expr}, Expr.AllWritable es →
    ∀ t ∈ Expr.spellMore es, t.Separable
  | [], _ => by
    rw [Expr.spellMore]
    nofun
  | e :: es, h => by
    simp only [Expr.AllWritable] at h
    rw [Expr.spellMore, List.forall_mem_cons, List.forall_mem_append]
    exact ⟨Kind.written_separable rfl, h.1.separable, Expr.AllWritable.spellMore_separable h.2⟩

/-- Every token of a statement can be cut off. -/
theorem Stmt.Writable.separable : ∀ {s : Stmt}, s.Writable → ∀ t ∈ s.spell, t.Separable
  | .bind t id e, h => by
    simp only [Stmt.Writable] at h
    obtain ⟨hk, hid, he⟩ := h
    simp only [Stmt.spell, List.forall_mem_cons, List.forall_mem_append]
    exact ⟨hk.separable (by decide), hid.separable, Kind.written_separable rfl, he.separable,
      Kind.written_separable rfl, nofun⟩
  | .ret t e, h => by
    simp only [Stmt.Writable] at h
    obtain ⟨hk, he⟩ := h
    simp only [Stmt.spell, List.forall_mem_cons, List.forall_mem_append]
    exact ⟨hk.separable (by decide), he.separable, Kind.written_separable rfl, nofun⟩
  | .expr _ e, h => by
    simp only [Stmt.Writable] at h
    simp only [Stmt.spell, List.forall_mem_append, List.forall_mem_singleton]
    exact ⟨h.separable, Kind.written_separable rfl⟩
  | .block b, h => by
    simp only [Stmt.Writable] at h
    rw [Stmt.spell]
    exact h.separable

/-- Every token of a block can be cut off. -/
theorem Block.Writable.separable : ∀ {b : Block}, b.Writable → ∀ t ∈ b.spell, t.Separable
  | ⟨t, ss⟩, h => by
    simp only [Block.Writable] at h
    simp only [Block.spell, List.forall_mem_cons, List.forall_mem_append]
    exact ⟨h.1.separable_symbol rfl, h.2.spellAll_separable, Kind.written_separable rfl, nofun⟩

theorem Stmt.AllWritable.spellAll_separable : ∀ {ss : List Stmt}, Stmt.AllWritable ss →
    ∀ t ∈ Stmt.spellAll ss, t.Separable
  | [], _ => by
    rw [Stmt.spellAll]
    nofun
  | s :: ss, h => by
    simp only [Stmt.AllWritable] at h
    rw [Stmt.spellAll, List.forall_mem_append]
    exact ⟨h.1.separable, Stmt.AllWritable.spellAll_separable h.2⟩

end

/-- Every token of what is written can be cut off the text again. -/
theorem Program.spell_separable {p : Program} (h : p.Writable) : ∀ t ∈ p.spell, t.Separable :=
  Stmt.AllWritable.spellAll_separable h

end Scriptlet
