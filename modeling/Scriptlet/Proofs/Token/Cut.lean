import Scriptlet.Numeral.Digits
import Scriptlet.Proofs.Lists
import Scriptlet.Proofs.Token.Drain
import Scriptlet.Proofs.Tree.Tokens

/-!
# Cutting a text into the tokens it is written as

A token is spelled by its literal, a string with its two quotes. A text that spells tokens one after the other, with blanks between
them or not, has these tokens, but for their places, if each one is cut off as itself in front of what follows it (`Cuts.tokens`).

What may follow a token depends on the token. A token is `Separable` if it is cut off in front of a blank, a parenthesis, a comma, a
semicolon and the end of the text: so is every symbol, keyword, name, numeral and string that can be written at all. A delimiter is
cut off in front of everything (`Token.cutBefore_delimiter`).
-/

namespace Scriptlet

/-- A character that ends every token before it: a blank, a parenthesis, a comma or a semicolon. -/
def isBreak (c : Char) : Bool := isBlank c || c == '(' || c == ')' || c == ',' || c == ';'

/-- The text begins with a character that ends every token, if there is any text. -/
def BreakAhead (cs : List Char) : Prop := ∀ c ∈ cs.head?, isBreak c

/-- The text that a token is written as. -/
def Token.text (t : Token) : String := if t.kind = .string then "\"" ++ t.literal ++ "\"" else t.literal

/-- The token is cut off its text in front of `rest`. -/
structure Token.CutBefore (t : Token) (rest : List Char) : Prop where
  legal : t.kind ≠ .illegal
  cut : Lexeme.ofText? (t.text.toList ++ rest) = some ⟨t.kind, t.text.toList, rest⟩

/-- The token is cut off its text in front of a character that ends every token. -/
def Token.Separable (t : Token) : Prop := ∀ rest, BreakAhead rest → t.CutBefore rest

/-- A text that spells tokens, each cut off in front of what follows it, with any blanks between them and at both ends. -/
inductive Cuts : List Char → List Token → Prop where
  | nil {bs : List Char} : (∀ c ∈ bs, isBlank c) → Cuts bs []
  | cons {bs cs : List Char} {t : Token} {ts : List Token} : (∀ c ∈ bs, isBlank c) → t.CutBefore cs → Cuts cs ts →
      Cuts (bs ++ (t.text.toList ++ cs)) (t :: ts)

/-! ## Cutting -/

theorem isBlank_iff {c : Char} : isBlank c ↔ c = ' ' ∨ c = '\t' ∨ c = '\n' ∨ c = '\r' := by
  simp [isBlank, or_assoc]

theorem isBreak_iff {c : Char} : isBreak c ↔ isBlank c ∨ c = '(' ∨ c = ')' ∨ c = ',' ∨ c = ';' := by
  simp [isBreak, or_assoc]

theorem isBreak_of_isBlank {c : Char} (h : isBlank c) : isBreak c := isBreak_iff.mpr (Or.inl h)

/-- What ends every token is no character of a word or a numeral, and no second character of an operator. -/
theorem not_of_isBreak {c : Char} (h : isBreak c) : isLetter c = false ∧ c.isDigit = false ∧ c ≠ '.' ∧ c ≠ '=' := by
  obtain hb | rfl | rfl | rfl | rfl := isBreak_iff.mp h
  · obtain rfl | rfl | rfl | rfl := isBlank_iff.mp hb <;> decide
  all_goals decide

/-- Nothing legal starts with a blank. -/
theorem Lexeme.not_isBlank_of_legal {c : Char} {rest : List Char} {x : Lexeme} (h : ofText? (c :: rest) = some x)
    (hx : x.kind ≠ .illegal) : ¬isBlank c := by
  intro hc
  refine hx ?_
  obtain rfl | rfl | rfl | rfl := isBlank_iff.mp hc <;> cases rest <;> cases h <;> rfl

namespace Token

/-- The literal is the spelling, without the quotes of a string. -/
theorem literal_lexeme (t : Token) (rest : List Char) : Lexeme.literal ⟨t.kind, t.text.toList, rest⟩ = t.literal := by
  unfold Lexeme.literal Token.text
  by_cases h : t.kind = .string
  · simp [h]
  · simp [h]

end Token

namespace Lexer

/-- A token that is cut off in front of the rest is the next one, behind blanks. -/
theorem next?_cutBefore {t : Token} {bs cs : List Char} (ht : t.CutBefore cs) (hbs : ∀ c ∈ bs, isBlank c) (pos : Pos) :
    ∃ pos' pos'', next? ⟨bs ++ (t.text.toList ++ cs), pos⟩ = some (⟨t.kind, t.literal, pos'⟩, ⟨cs, pos''⟩) := by
  have hcut := ht.cut
  have hne : t.text.toList ≠ [] := (Lexeme.spelling_append_rest hcut).1
  have hdrop : (bs ++ (t.text.toList ++ cs)).dropWhile isBlank = t.text.toList ++ cs := by
    refine (List.takeWhile_append_stop _ hbs fun c hc => ?_).2
    obtain ⟨d, w, hw⟩ := List.exists_cons_of_ne_nil hne
    rw [hw] at hc hcut
    cases hc
    exact Lexeme.not_isBlank_of_legal hcut ht.legal
  unfold next? skipBlanks
  simp only [hdrop, hcut, Option.map_some, Token.literal_lexeme]
  exact ⟨_, _, rfl⟩

end Lexer

/-- The tokens of a text that can be cut into tokens are these, but for their places. -/
theorem Cuts.tokens {cs : List Char} {ts : List Token} (h : Cuts cs ts) (pos : Pos) :
    (Lexer.tokens ⟨cs, pos⟩).map Token.unplaced = ts.map Token.unplaced := by
  induction h generalizing pos with
  | @nil bs hbs =>
    have hdrop : bs.dropWhile isBlank = [] := by
      have h := (List.takeWhile_append_stop [] hbs nofun).2
      rwa [List.append_nil] at h
    have hnone : Lexer.next? ⟨bs, pos⟩ = none := by
      unfold Lexer.next? Lexer.skipBlanks
      simp only [hdrop]
      rfl
    rw [Lexer.tokens_none hnone]
  | @cons bs cs t ts hbs ht _ ih =>
    obtain ⟨pos', pos'', hnext⟩ := Lexer.next?_cutBefore ht hbs pos
    rw [Lexer.tokens_some hnext, List.map_cons, List.map_cons, ih pos'']
    rfl

/-- One blank more in front. -/
theorem Cuts.blank {c : Char} {cs : List Char} {ts : List Token} (hc : isBlank c) (h : Cuts cs ts) : Cuts (c :: cs) ts := by
  cases h with
  | nil hbs => exact .nil (List.forall_mem_cons.mpr ⟨hc, hbs⟩)
  | @cons bs cs t ts hbs ht hts => exact @Cuts.cons (c :: bs) cs t ts (List.forall_mem_cons.mpr ⟨hc, hbs⟩) ht hts

/-- One token more in front. -/
theorem Token.CutBefore.cuts {t : Token} {cs : List Char} {ts : List Token} (ht : t.CutBefore cs) (h : Cuts cs ts) :
    Cuts (t.text.toList ++ cs) (t :: ts) :=
  @Cuts.cons [] cs t ts nofun ht h

/-- A separable token more in front of a character that ends it. -/
theorem Token.Separable.cuts {t : Token} {cs : List Char} {ts : List Token} (ht : t.Separable) (hcs : BreakAhead cs)
    (h : Cuts cs ts) : Cuts (t.text.toList ++ cs) (t :: ts) :=
  (ht cs hcs).cuts h

theorem breakAhead_nil : BreakAhead [] := nofun

theorem breakAhead_cons {c : Char} {cs : List Char} (h : isBreak c) : BreakAhead (c :: cs) := by
  intro d hd
  cases hd
  exact h

/-- The texts of tokens, with a space between two of them. -/
theorem cuts_intercalate {ts : List Token} (hts : ∀ t ∈ ts, t.Separable) :
    Cuts (" ".intercalate (ts.map Token.text)).toList ts := by
  induction ts with
  | nil => exact .nil nofun
  | cons t ts ih =>
    rw [List.forall_mem_cons] at hts
    cases ts with
    | nil =>
      rw [List.map_singleton, String.intercalate_singleton, ← List.append_nil t.text.toList]
      exact hts.1.cuts breakAhead_nil (.nil nofun)
    | cons u ts =>
      rw [List.map_cons] at ih ⊢
      rw [List.map_cons, String.intercalate_cons_cons, String.toList_append, String.toList_append, List.append_assoc]
      exact hts.1.cuts (breakAhead_cons rfl) ((ih hts.2).blank rfl)

/-! ## What is separable -/

/-- The kinds of operators and delimiters, each written as its name. -/
def Kind.isSymbol : Kind → Bool
  | .assign | .plus | .minus | .bang | .star | .slash | .lt | .gt | .le | .ge | .eq | .ne | .comma | .semicolon | .dot
  | .lparen | .rparen | .lbrace | .rbrace => true
  | _ => false

namespace Kind

/-- The kinds of words: a name, or one of the keywords. -/
def isWord : Kind → Bool
  | .ident | .kwFn | .kwLet | .kwTrue | .kwFalse | .kwIf | .kwElse | .kwReturn => true
  | _ => false

theorem isWord_ofWord (s : String) : (ofWord s).isWord := by
  unfold ofWord
  split <;> rfl

theorem ofWord_ne {k : Kind} (hk : k.isWord = false) (s : String) : ofWord s ≠ k := by
  intro h
  rw [← h, isWord_ofWord] at hk
  cases hk

/-- A numeral without a point is an integer. -/
theorem ofNumeral_digits {w : List Char} (hw : ∀ c ∈ w, c.isDigit) : ofNumeral (String.ofList w) = .int := by
  unfold ofNumeral
  rw [String.toList_ofList, if_neg]
  intro h
  exact absurd (hw '.' (List.contains_iff_mem.mp h)) (by decide)

/-- A numeral with a point is a float. -/
theorem ofNumeral_point (w f : List Char) : ofNumeral (String.ofList (w ++ '.' :: f)) = .float := by
  unfold ofNumeral
  rw [String.toList_ofList, if_pos]
  exact List.contains_iff_mem.mpr (List.mem_append_right _ List.mem_cons_self)

end Kind

namespace Lexeme

variable {c : Char} {k : Kind} {rest : List Char}

/-- Only an equals sign can be the second character of an operator. -/
theorem pairKind?_of_ne {d : Char} (h : d ≠ '=') : pairKind? c d = none := by
  unfold pairKind?
  split <;> first | rfl | exact absurd rfl h

/-- A character that stands for itself, in front of one that makes no operator with it; a point has no digit behind it. -/
theorem cut_single (hl : isLetter c = false) (hd : c.isDigit = false) (hq : (c == '"') = false) (hk : singleKind c = k)
    (hrest : ∀ d ∈ rest.head?, pairKind? c d = none) (hdot : c = '.' → startsWithDigit rest = false) :
    ofText? (c :: rest) = some ⟨k, [c], rest⟩ := by
  have hpoint : (c == '.' && startsWithDigit rest) = false := by
    by_cases h : c = '.'
    · rw [hdot h, Bool.and_false]
    · rw [beq_eq_false_iff_ne.mpr h, Bool.false_and]
  have hsymbol : symbol c rest = ⟨k, [c], rest⟩ := by
    cases rest with
    | nil => rw [symbol, hk]
    | cons d rest => rw [symbol, hrest d rfl, hk]
  simp [ofText?, hl, hd, hq, hpoint, hsymbol]

/-- Two characters that are one operator. -/
theorem cut_pair (hl : isLetter c = false) (hd : c.isDigit = false) (hq : (c == '"') = false) (hdot : (c == '.') = false)
    (hk : pairKind? c '=' = some k) : ofText? (c :: '=' :: rest) = some ⟨k, [c, '='], rest⟩ := by
  simp [ofText?, hl, hd, hq, hdot, symbol, hk]

/-- A symbol is one character that stands for itself, or two that are one operator. -/
theorem symbol_cases (h : k.isSymbol) :
    (∃ c, k.name.toList = [c] ∧ singleKind c = k ∧ isLetter c = false ∧ c.isDigit = false ∧ (c == '"') = false) ∨
    ∃ c, k.name.toList = [c, '='] ∧ pairKind? c '=' = some k ∧ isLetter c = false ∧ c.isDigit = false ∧
      (c == '"') = false ∧ (c == '.') = false := by
  cases k <;> first
    | exact Or.inl ⟨_, rfl, rfl, rfl, rfl, rfl⟩
    | exact Or.inr ⟨_, rfl, rfl, rfl, rfl, rfl, rfl⟩
    | cases h

/-- A symbol in front of a character that is no equals sign; a point has no digit behind it. -/
theorem cut_symbol (h : k.isSymbol) (hrest : ∀ d ∈ rest.head?, d ≠ '=') (hdot : k = .dot → startsWithDigit rest = false) :
    ofText? (k.name.toList ++ rest) = some ⟨k, k.name.toList, rest⟩ := by
  obtain ⟨c, hname, hk, hl, hd, hq⟩ | ⟨c, hname, hk, hl, hd, hq, hne⟩ := symbol_cases h
  · rw [hname]
    refine cut_single hl hd hq hk (fun d hd => pairKind?_of_ne (hrest d hd)) fun hc => hdot ?_
    rw [← hk, hc]
    rfl
  · rw [hname]
    exact cut_pair hl hd hq hne hk

theorem startsWithDigit_of_breakAhead (h : BreakAhead rest) : startsWithDigit rest = false := by
  cases rest with
  | nil => rfl
  | cons d rest => exact (not_of_isBreak (h d rfl)).2.1

/-- A word in front of a character that ends it. -/
theorem cut_word {w : List Char} (hne : w ≠ []) (hw : ∀ c ∈ w, isLetter c) (hrest : BreakAhead rest) :
    ofText? (w ++ rest) = some ⟨Kind.ofWord (String.ofList w), w, rest⟩ := by
  obtain ⟨c, w', rfl⟩ := List.exists_cons_of_ne_nil hne
  obtain ⟨htake, hdrop⟩ := List.takeWhile_append_stop rest hw fun d hd => by
    rw [(not_of_isBreak (hrest d hd)).1]
    decide
  rw [List.cons_append] at htake hdrop ⊢
  simp only [ofText?, hw c List.mem_cons_self, if_true, word, htake, hdrop]

theorem isLetter_of_isDigit {c : Char} (h : c.isDigit) : isLetter c = false := by
  have hne : c ≠ '_' := by
    rintro rfl
    exact absurd h (by decide)
  have hle : c.toNat ≤ 57 := (Char.isDigit_iff_toNat.mp h).2
  have hupper : c.isUpper = false := by
    refine decide_eq_false ?_
    rintro ⟨h65, -⟩
    exact absurd (Nat.le_trans (UInt32.le_iff_toNat_le.mp h65) hle) (by decide)
  have hlower : c.isLower = false := by
    refine Bool.and_eq_false_iff.mpr (Or.inl (decide_eq_false fun h97 => ?_))
    exact absurd (Nat.le_trans (UInt32.le_iff_toNat_le.mp h97) hle) (by decide)
  have halpha : c.isAlpha = false := Bool.or_eq_false_iff.mpr ⟨hupper, hlower⟩
  simp [isLetter, halpha, hne]

/-- Digits in front of a character that ends them. -/
theorem cut_integer {w : List Char} (hne : w ≠ []) (hw : ∀ c ∈ w, c.isDigit) (hrest : BreakAhead rest) :
    ofText? (w ++ rest) = some ⟨.int, w, rest⟩ := by
  obtain ⟨c, w', rfl⟩ := List.exists_cons_of_ne_nil hne
  have hc : c.isDigit := hw c List.mem_cons_self
  obtain ⟨htake, hdrop⟩ := List.takeWhile_append_stop rest hw fun d hd => by
    rw [(not_of_isBreak (hrest d hd)).2.1]
    decide
  have hnum : numeral (c :: w' ++ rest) = ⟨.int, c :: w', rest⟩ := by
    unfold numeral
    rw [htake, hdrop]
    dsimp only
    split
    · exact absurd rfl (not_of_isBreak (hrest '.' rfl)).2.2.1
    · rw [Kind.ofNumeral_digits hw]
  rw [List.cons_append] at hnum ⊢
  simp [ofText?, isLetter_of_isDigit hc, hc, hnum]

/-- Digits with a point among them, in front of a character that ends them. -/
theorem cut_float {w f : List Char} (hne : w ++ f ≠ []) (hw : ∀ c ∈ w, c.isDigit) (hf : ∀ c ∈ f, c.isDigit)
    (hrest : BreakAhead rest) : ofText? (w ++ '.' :: f ++ rest) = some ⟨.float, w ++ '.' :: f, rest⟩ := by
  obtain ⟨htake, hdrop⟩ := List.takeWhile_append_stop ('.' :: (f ++ rest)) hw fun d hd => by
    cases hd
    decide
  obtain ⟨htake', hdrop'⟩ := List.takeWhile_append_stop rest hf fun d hd => by
    rw [(not_of_isBreak (hrest d hd)).2.1]
    decide
  have hnum : numeral (w ++ '.' :: (f ++ rest)) = ⟨.float, w ++ '.' :: f, rest⟩ := by
    unfold numeral
    rw [htake, hdrop]
    simp only [htake', hdrop', Kind.ofNumeral_point]
  rw [List.append_assoc, List.cons_append]
  cases w with
  | cons c w =>
    have hc : c.isDigit := hw c List.mem_cons_self
    rw [List.cons_append] at hnum ⊢
    simp [ofText?, isLetter_of_isDigit hc, hc, hnum]
  | nil =>
    obtain ⟨d, f, rfl⟩ := List.exists_cons_of_ne_nil hne
    have hd : d.isDigit := hf d List.mem_cons_self
    have hstart : startsWithDigit (d :: f ++ rest) = true := hd
    have hl : isLetter '.' = false := by decide
    rw [List.nil_append] at hnum ⊢
    simp only [ofText?, hl, hstart, hnum]
    rfl

/-- A quotation in front of anything. -/
theorem cut_string {w : List Char} (hw : '"' ∉ w) (rest : List Char) :
    ofText? ('"' :: (w ++ ['"']) ++ rest) = some ⟨.string, '"' :: (w ++ ['"']), rest⟩ := by
  have hp : ∀ c ∈ w, (c != '"') = true := by
    intro c hc
    rw [bne_iff_ne]
    rintro rfl
    exact hw hc
  obtain ⟨htake, hdrop⟩ := List.takeWhile_append_stop ('"' :: rest) hp fun d hd => by
    cases hd
    decide
  have hq : quotation (w ++ '"' :: rest) = ⟨.string, '"' :: (w ++ ['"']), rest⟩ := by
    unfold quotation
    rw [htake, hdrop]
  have hl : isLetter '"' = false := by decide
  have hd : '"'.isDigit = false := by decide
  rw [List.cons_append, List.append_assoc, List.singleton_append]
  simp [ofText?, hl, hd, hq]

end Lexeme

namespace Token

open Lexeme

variable {t : Token}

theorem text_of_ne_string (h : t.kind ≠ .string) : t.text = t.literal := if_neg h

/-- A symbol in front of a character that is no equals sign; a point has no digit behind it. -/
theorem cutBefore_symbol (hk : t.kind.isSymbol) (hl : t.literal = t.kind.name) {rest : List Char}
    (hrest : ∀ d ∈ rest.head?, d ≠ '=') (hdot : t.kind = .dot → startsWithDigit rest = false) : t.CutBefore rest := by
  have hne : ∀ {k}, k.isSymbol = false → t.kind ≠ k := by
    intro k h e
    rw [e, h] at hk
    cases hk
  refine ⟨hne rfl, ?_⟩
  rw [text_of_ne_string (hne rfl), hl]
  exact cut_symbol hk hrest hdot

theorem separable_symbol (hk : t.kind.isSymbol) (hl : t.literal = t.kind.name) : t.Separable := fun _ hrest =>
  cutBefore_symbol hk hl (fun d hd => (not_of_isBreak (hrest d hd)).2.2.2) fun _ => startsWithDigit_of_breakAhead hrest

/-- A delimiter that begins no operator, in front of anything. -/
theorem cutBefore_delimiter (hk : t.kind ∈ [Kind.lparen, .rparen, .comma, .semicolon]) (hl : t.literal = t.kind.name)
    (rest : List Char) : t.CutBefore rest := by
  have hcut : Lexeme.ofText? (t.kind.name.toList ++ rest) = some ⟨t.kind, t.kind.name.toList, rest⟩ := by
    simp only [List.mem_cons, List.mem_nil_iff, or_false] at hk
    rcases hk with h | h | h | h <;> rw [h] <;> exact cut_single rfl rfl rfl rfl (fun _ _ => rfl) nofun
  have hsymbol : t.kind ≠ .illegal ∧ t.kind ≠ .string := by
    refine ⟨?_, ?_⟩ <;> intro h <;> rw [h] at hk <;> exact absurd hk (by decide)
  refine ⟨hsymbol.1, ?_⟩
  rw [text_of_ne_string hsymbol.2, hl]
  exact hcut

/-- A word is a keyword or a name. -/
theorem separable_word (hk : t.kind = Kind.ofWord t.literal) (hne : t.literal.toList ≠ [])
    (hw : ∀ c ∈ t.literal.toList, isLetter c) : t.Separable := by
  refine fun rest hrest => ⟨by rw [hk]; exact Kind.ofWord_ne rfl _, ?_⟩
  rw [text_of_ne_string (by rw [hk]; exact Kind.ofWord_ne rfl _), cut_word hne hw hrest, String.ofList_toList, ← hk]

theorem separable_int {n : Int64} (hk : t.kind = .int) (hn : Numeral.integer? t.literal = some n) : t.Separable := by
  have hdigits : t.literal.toList ≠ [] ∧ ∀ c ∈ t.literal.toList, c.isDigit := by
    unfold Numeral.integer? at hn
    dsimp only at hn
    split at hn
    · next h => exact ⟨h.1, List.all_eq_true.mp h.2.1⟩
    · cases hn
  refine fun rest hrest => ⟨by rw [hk]; decide, ?_⟩
  rw [text_of_ne_string (by rw [hk]; decide), hk]
  exact cut_integer hdigits.1 hdigits.2 hrest

theorem separable_float {x : Float} (hk : t.kind = .float) (hx : Numeral.float? t.literal = some x) : t.Separable := by
  refine fun rest hrest => ⟨by rw [hk]; decide, ?_⟩
  rw [text_of_ne_string (by rw [hk]; decide), hk]
  unfold Numeral.float? at hx
  dsimp only at hx
  split at hx
  · next fraction hdrop =>
    split at hx
    · next h =>
      have hw : ∀ c ∈ t.literal.toList.takeWhile Char.isDigit, c.isDigit := List.all_eq_true.mp List.all_takeWhile
      have hcut := cut_float h.2 hw (List.all_eq_true.mp h.1) hrest
      rwa [← hdrop, List.takeWhile_append_dropWhile] at hcut
    · cases hx
  · cases hx

theorem separable_string (hk : t.kind = .string) (hq : '"' ∉ t.literal.toList) : t.Separable := by
  refine fun rest _ => ⟨by rw [hk]; decide, ?_⟩
  have htext : t.text.toList = '"' :: (t.literal.toList ++ ['"']) := by
    unfold text
    rw [if_pos hk, String.toList_append, String.toList_append]
    rfl
  rw [htext, hk]
  exact cut_string hq rest

end Token

end Scriptlet
