import Scriptlet.Proofs.Token.Spacing

/-!
# The longest piece

A piece at the front of a text has one of a few forms (`Piece`): a keyword or another run of letters, a numeral with or without a
point, an operator or a delimiter, a string up to the next quote or, if there is none, up to the end, or a single character that starts
nothing else. The forms overlap: `fn` is a piece of `fnord`, `1` one of `1.5`, and `=` one of `==`.

The next token is always the longest piece behind the blanks, with the kind of its form (`next_longest`). Wherever a piece stands, the
lexeme that is cut off there is that piece or a longer one (`Piece.cutOver`).
-/

namespace Scriptlet

namespace Kind

/-- The keywords with their kinds. -/
def keywords : List (String × Kind) :=
  [("fn", kwFn), ("let", kwLet), ("true", kwTrue), ("false", kwFalse), ("if", kwIf), ("else", kwElse), ("return", kwReturn)]

/-- The operators and delimiters with their kinds. -/
def symbols : List (String × Kind) :=
  [("==", eq), ("!=", ne), ("<=", le), (">=", ge), ("=", assign), ("+", plus), ("-", minus), ("!", bang), ("*", star), ("/", slash),
    ("<", lt), (">", gt), (",", comma), (";", semicolon), (".", dot), ("(", lparen), (")", rparen), ("\x7b", lbrace), ("\x7d", rbrace)]

/-- A word is a keyword of its kind, or a name. -/
theorem ofWord_cases (s : String) : (s, ofWord s) ∈ keywords ∨ ofWord s = ident ∧ ∀ k, (s, k) ∉ keywords := by
  unfold ofWord
  split
  case h_8 => exact Or.inr ⟨rfl, by simp_all [keywords]⟩
  all_goals exact Or.inl (by decide)

theorem ofWord_of_mem {s : String} {k : Kind} (h : (s, k) ∈ keywords) : ofWord s = k := by
  simp only [keywords, List.mem_cons, Prod.mk.injEq, List.not_mem_nil, or_false] at h
  obtain ⟨rfl, rfl⟩ | ⟨rfl, rfl⟩ | ⟨rfl, rfl⟩ | ⟨rfl, rfl⟩ | ⟨rfl, rfl⟩ | ⟨rfl, rfl⟩ | ⟨rfl, rfl⟩ := h <;> rfl

/-- A keyword is made of letters. -/
theorem isLetter_of_mem {s : String} {k : Kind} (h : (s, k) ∈ keywords) : s.toList ≠ [] ∧ ∀ c ∈ s.toList, isLetter c := by
  have hall : ∀ x ∈ keywords, x.1.toList ≠ [] ∧ x.1.toList.all isLetter := by decide
  exact (hall (s, k) h).imp_right List.all_eq_true.mp

theorem name_mem_symbols {k : Kind} (h : k.isSymbol) : (k.name, k) ∈ symbols := by
  cases k <;> first | exact absurd h (by decide) | decide

theorem isSymbol_of_mem {s : String} {k : Kind} (h : (s, k) ∈ symbols) : k.isSymbol ∧ s = k.name := by
  have hall : ∀ x ∈ symbols, x.2.isSymbol ∧ x.1 = x.2.name := by decide
  exact hall (s, k) h

end Kind

namespace Lexeme

/-- The forms of a piece at the front of a text: its kind, its characters, and the text behind it. -/
inductive Piece : Kind → List Char → List Char → Prop where
  | keyword {s : String} {k : Kind} {rest : List Char} : (s, k) ∈ Kind.keywords → Piece k s.toList rest
  | name {w rest : List Char} : w ≠ [] → (∀ c ∈ w, isLetter c) → (∀ k, (String.ofList w, k) ∉ Kind.keywords) →
      Piece .ident w rest
  | integer {w rest : List Char} : w ≠ [] → (∀ c ∈ w, c.isDigit) → Piece .int w rest
  /-- Digits on at least one side of a point. -/
  | float {w f rest : List Char} : w ++ f ≠ [] → (∀ c ∈ w, c.isDigit) → (∀ c ∈ f, c.isDigit) →
      Piece .float (w ++ '.' :: f) rest
  | symbol {s : String} {k : Kind} {rest : List Char} : (s, k) ∈ Kind.symbols → Piece k s.toList rest
  /-- A string goes up to the next quote, whatever lies between. -/
  | string {w rest : List Char} : '"' ∉ w → Piece .string ('"' :: (w ++ ['"'])) rest
  /-- Without a next quote everything up to the end is illegal. -/
  | unclosed {w : List Char} : '"' ∉ w → Piece .illegal ('"' :: w) []
  /-- Any other single character is illegal. -/
  | stray {c : Char} {rest : List Char} : isBlank c = false → isLetter c = false → c.isDigit = false → c ≠ '"' →
      (∀ k, (String.singleton c, k) ∉ Kind.symbols) → Piece .illegal [c] rest

/-- The piece is the longest one at the front of the text: no other one is as long. -/
structure Longest (k : Kind) (w rest : List Char) : Prop where
  piece : Piece k w rest
  longest {k' : Kind} {w' rest' : List Char} : Piece k' w' rest' → w' ++ rest' = w ++ rest → k' = k ∧ w' = w ∨ w'.length < w.length

/-! ## A lexeme is a piece -/

/-- A symbol of one character is the kind of that character. -/
theorem singleKind_of_mem {c : Char} {k : Kind} (h : (String.singleton c, k) ∈ Kind.symbols) : singleKind c = k := by
  obtain ⟨hsym, hname⟩ := Kind.isSymbol_of_mem h
  obtain ⟨d, hd, hk, -⟩ | ⟨d, hd, -⟩ := symbol_cases hsym
  · rw [← hname, String.toList_singleton, List.singleton_inj] at hd
    rw [hd, hk]
  · rw [← hname, String.toList_singleton] at hd
    cases hd

/-- What is no symbol stands for itself, and is no first character of an operator. -/
theorem stray_of_notMem {c : Char} (h : ∀ k, (String.singleton c, k) ∉ Kind.symbols) :
    singleKind c = .illegal ∧ ∀ d, pairKind? c d = none := by
  have hc : singleKind c = .illegal := by
    obtain hk | ⟨hsym, hname⟩ := singleKind_isSymbol c
    · exact hk
    · have hs : (singleKind c).name = String.singleton c := String.toList_inj.mp (by rw [hname, String.toList_singleton])
      exact absurd (hs ▸ Kind.name_mem_symbols hsym) (h _)
  refine ⟨hc, fun d => ?_⟩
  unfold pairKind?
  split
  case h_5 => rfl
  all_goals cases hc

/-- A lexeme that is cut off a text without blanks in front has one of the forms. -/
theorem piece_of_ofText? {text : List Char} {x : Lexeme} (h : ofText? text = some x) (hb : ∀ c ∈ text.head?, isBlank c = false) :
    Piece x.kind x.spelling x.rest := by
  have htext := (spelling_append_rest h).2
  cases form_of_ofText? h with
  | @word w rest hne hw =>
    obtain hk | ⟨hk, hnot⟩ := Kind.ofWord_cases (String.ofList w)
    · have hpiece : Piece _ (String.ofList w).toList rest := .keyword hk
      rwa [String.toList_ofList] at hpiece
    · rw [hk]
      exact .name hne hw hnot
  | integer hne hw => exact .integer hne hw
  | float hne hw hf => exact .float hne hw hf
  | string hw => exact .string hw
  | unclosed hw => exact .unclosed hw
  | symbol hk => exact .symbol (Kind.name_mem_symbols hk)
  | @stray c rest =>
    subst htext
    obtain rfl | ⟨hl, hd, hq, hk⟩ := stray_cases h
    · -- a quote alone is an illegal lexeme only if nothing is left behind it
      have hcut : quotation rest = ⟨.illegal, ['"'], rest⟩ := Option.some_inj.mp h
      unfold quotation at hcut
      dsimp only at hcut
      split at hcut
      · cases congrArg Lexeme.kind hcut
      · have hrest : [] = rest := congrArg Lexeme.rest hcut
        subst hrest
        exact .unclosed List.not_mem_nil
    · refine .stray (hb c rfl) hl hd (beq_eq_false_iff_ne.mp hq) fun k hmem => ?_
      have hsym := (Kind.isSymbol_of_mem hmem).1
      rw [← singleKind_of_mem hmem, hk] at hsym
      cases hsym

/-! ## No piece is longer than the lexeme -/

/-- The lexeme at the front of a text is a piece, or longer than it. -/
def Outdoes (x : Lexeme) (k : Kind) (w rest : List Char) : Prop := x = ⟨k, w, rest⟩ ∨ w.length < x.spelling.length

theorem word_outdoes {w : List Char} (rest : List Char) (hw : ∀ c ∈ w, isLetter c) :
    (word (w ++ rest)).Outdoes (Kind.ofWord (String.ofList w)) w rest := by
  unfold Outdoes word
  rw [List.takeWhile_append_of_pos hw, List.dropWhile_append_of_pos hw]
  obtain ⟨hrun, hrest⟩ | hrun := List.takeWhile_cases isLetter rest
  · rw [hrun, hrest, List.append_nil]
    exact Or.inl rfl
  · right
    rw [List.length_append]
    omega

theorem integer_outdoes {w : List Char} (rest : List Char) (hw : ∀ c ∈ w, c.isDigit) :
    (numeral (w ++ rest)).Outdoes .int w rest := by
  unfold Outdoes numeral
  rw [List.takeWhile_append_of_pos hw, List.dropWhile_append_of_pos hw]
  dsimp only
  split
  · -- a point behind the digits makes the numeral longer
    right
    simp only [List.length_append, List.length_cons]
    omega
  · obtain ⟨hrun, hrest⟩ | hrun := List.takeWhile_cases Char.isDigit rest
    · rw [hrun, hrest, List.append_nil, Kind.ofNumeral_digits hw]
      exact Or.inl rfl
    · right
      rw [List.length_append]
      omega

theorem float_outdoes {w f : List Char} (rest : List Char) (hw : ∀ c ∈ w, c.isDigit) (hf : ∀ c ∈ f, c.isDigit) :
    (numeral (w ++ '.' :: f ++ rest)).Outdoes .float (w ++ '.' :: f) rest := by
  obtain ⟨htake, hdrop⟩ := List.takeWhile_append_stop ('.' :: (f ++ rest)) hw fun d hd => by
    cases hd
    decide
  have hnum : numeral (w ++ '.' :: f ++ rest) =
      ⟨.float, w ++ '.' :: (f ++ rest.takeWhile Char.isDigit), rest.dropWhile Char.isDigit⟩ := by
    unfold numeral
    rw [List.append_assoc, List.cons_append, htake, hdrop]
    simp only [List.takeWhile_append_of_pos hf, List.dropWhile_append_of_pos hf, Kind.ofNumeral_point]
  rw [hnum]
  obtain ⟨hrun, hrest⟩ | hrun := List.takeWhile_cases Char.isDigit rest
  · rw [hrun, hrest, List.append_nil]
    exact Or.inl rfl
  · right
    simp only [List.length_append, List.length_cons]
    omega

/-- A character that stands for itself makes an operator with the next one, or is the lexeme. -/
theorem symbol_outdoes (c : Char) (rest : List Char) : (symbol c rest).Outdoes (singleKind c) [c] rest := by
  unfold symbol
  split
  · split
    · exact Or.inr (Nat.lt_succ_self 1)
    · exact Or.inl rfl
  · exact Or.inl rfl

/-! ## Where a piece stands -/

/-- A lexeme is cut off a text, and it is the piece at the front or longer. -/
def CutOver (k : Kind) (w rest : List Char) : Prop := ∃ x, ofText? (w ++ rest) = some x ∧ x.Outdoes k w rest

theorem cutOver_word {w : List Char} (rest : List Char) (hne : w ≠ []) (hw : ∀ c ∈ w, isLetter c) :
    CutOver (Kind.ofWord (String.ofList w)) w rest := by
  obtain ⟨c, w', rfl⟩ := List.exists_cons_of_ne_nil hne
  refine ⟨_, ?_, word_outdoes rest hw⟩
  rw [List.cons_append, ofText?, if_pos (hw c List.mem_cons_self)]

/-- A digit begins a numeral, and so does a point in front of a digit. -/
theorem ofText?_numeral {c : Char} {cs : List Char} (h : c.isDigit ∨ c = '.' ∧ startsWithDigit cs) :
    ofText? (c :: cs) = some (numeral (c :: cs)) := by
  have hl : isLetter c = false := by
    obtain hc | ⟨rfl, -⟩ := h
    · exact isLetter_of_isDigit hc
    · decide
  have hstart : (c.isDigit || (c == '.' && startsWithDigit cs)) = true := by
    simpa using h
  rw [ofText?, hl, if_neg (by decide), if_pos hstart]

theorem cutOver_integer {w : List Char} (rest : List Char) (hne : w ≠ []) (hw : ∀ c ∈ w, c.isDigit) : CutOver .int w rest := by
  obtain ⟨c, w', rfl⟩ := List.exists_cons_of_ne_nil hne
  exact ⟨_, ofText?_numeral (Or.inl (hw c List.mem_cons_self)), integer_outdoes rest hw⟩

theorem cutOver_float {w f : List Char} (rest : List Char) (hne : w ++ f ≠ []) (hw : ∀ c ∈ w, c.isDigit)
    (hf : ∀ c ∈ f, c.isDigit) : CutOver .float (w ++ '.' :: f) rest := by
  refine ⟨_, ?_, float_outdoes rest hw hf⟩
  cases w with
  | cons c w => exact ofText?_numeral (Or.inl (hw c List.mem_cons_self))
  | nil =>
    obtain ⟨d, f', rfl⟩ := List.exists_cons_of_ne_nil hne
    exact ofText?_numeral (Or.inr ⟨rfl, hf d List.mem_cons_self⟩)

/-- A point in front of a digit begins a numeral, which is longer than the point. -/
theorem cutOver_point {rest : List Char} (h : startsWithDigit rest) : CutOver .dot ['.'] rest := by
  cases rest with
  | nil => cases h
  | cons d ds =>
    obtain ⟨x, hx, hlong⟩ := cutOver_float (w := []) ds (List.cons_ne_nil d []) nofun (List.forall_mem_singleton.mpr h)
    refine ⟨x, hx, Or.inr ?_⟩
    obtain rfl | hlt := hlong
    · exact Nat.lt_succ_self 1
    · exact Nat.lt_trans (Nat.lt_succ_self 1) hlt

theorem cutOver_symbol {k : Kind} (rest : List Char) (h : k.isSymbol) : CutOver k k.name.toList rest := by
  obtain ⟨c, hname, hsingle, hl, hd, hq⟩ | ⟨c, hname, hpair, hl, hd, hq, hne⟩ := symbol_cases h
  · rw [hname]
    by_cases hpoint : c = '.' ∧ startsWithDigit rest
    · obtain ⟨rfl, hstart⟩ := hpoint
      rw [← hsingle]
      exact cutOver_point hstart
    · refine ⟨symbol c rest, ?_, hsingle ▸ symbol_outdoes c rest⟩
      have hnot : (c.isDigit || (c == '.' && startsWithDigit rest)) = false := by
        simpa [hd] using hpoint
      simp [ofText?, hl, hnot, hq]
  · rw [hname]
    exact ⟨_, cut_pair hl hd hq hne hpair, Or.inl rfl⟩

/-- Wherever a piece stands at the front of a text, it is the lexeme that is cut off there, or shorter than that. -/
theorem Piece.cutOver {k : Kind} {w rest : List Char} (h : Piece k w rest) : CutOver k w rest := by
  cases h with
  | @keyword s k rest hk =>
    obtain ⟨hne, hs⟩ := Kind.isLetter_of_mem hk
    have hcut := cutOver_word rest hne hs
    rwa [String.ofList_toList, Kind.ofWord_of_mem hk] at hcut
  | @name w rest hne hw hnot =>
    obtain hk | ⟨hk, -⟩ := Kind.ofWord_cases (String.ofList w)
    · exact absurd hk (hnot _)
    · rw [← hk]
      exact cutOver_word rest hne hw
  | integer hne hw => exact cutOver_integer rest hne hw
  | float hne hw hf => exact cutOver_float rest hne hw hf
  | symbol hk =>
    obtain ⟨hsym, rfl⟩ := Kind.isSymbol_of_mem hk
    exact cutOver_symbol rest hsym
  | string hw => exact ⟨_, cut_string hw rest, Or.inl rfl⟩
  | unclosed hw => exact ⟨_, by rw [List.append_nil]; exact cut_unclosed hw, Or.inl rfl⟩
  | @stray c rest _ hl hd hq hk =>
    obtain ⟨hc, hpair⟩ := stray_of_notMem hk
    refine ⟨_, cut_single hl hd (beq_eq_false_iff_ne.mpr hq) hc (fun d _ => hpair d) ?_, Or.inl rfl⟩
    rintro rfl
    cases hc

/-- A lexeme that is cut off a text without blanks in front is the longest piece there. -/
theorem longest_of_ofText? {text : List Char} {x : Lexeme} (h : ofText? text = some x) (hb : ∀ c ∈ text.head?, isBlank c = false) :
    Longest x.kind x.spelling x.rest := by
  refine ⟨piece_of_ofText? h hb, fun {k w rest} hpiece heq => ?_⟩
  obtain ⟨y, hy, hlong⟩ := hpiece.cutOver
  rw [heq, (spelling_append_rest h).2, h, Option.some_inj] at hy
  subst hy
  obtain rfl | hlt := hlong
  · exact Or.inl ⟨rfl, rfl⟩
  · exact Or.inr hlt

end Lexeme

namespace Lexer

/-- What asking for the next token at a place gives. -/
inductive Munches (l : Lexer) : Prop where
  /-- Behind the blanks the longest piece is taken off, as a token of its kind that is written as its characters. -/
  | token {bs w rest : List Char} : (∀ c ∈ bs, isBlank c) → l.rest = bs ++ (w ++ rest) → Lexeme.Longest l.next.1.kind w rest →
      l.next.1.text.toList = w → l.next.2.rest = rest → Munches l
  /-- Where there are only blanks, the text ends. -/
  | eof : (∀ c ∈ l.rest, isBlank c) → l.next.1.kind = .eof ∧ l.next.1.literal = "" → l.next.2.rest = [] → Munches l

theorem munches (l : Lexer) : l.Munches := by
  rcases hl : l.next? with _ | ⟨t, l'⟩
  · have hblank := isBlank_of_next?_none hl
    refine .eof hblank ?_ ?_
    · rw [next_none hl]
      exact ⟨rfl, rfl⟩
    · rw [next_none hl]
      exact List.dropWhile_eq_nil_iff.mpr hblank
  · obtain ⟨x, hx, heq⟩ := Option.map_eq_some_iff.mp hl
    cases heq
    have hrest := (Lexeme.spelling_append_rest hx).2
    have hhead : ∀ c ∈ l.skipBlanks.rest.head?, isBlank c = false := by
      intro c hc
      have hnot := List.head?_dropWhile_not isBlank l.rest
      rw [show l.rest.dropWhile isBlank = l.skipBlanks.rest from rfl, hc] at hnot
      simpa using hnot
    have hnext := next_some hl
    have hsplit : l.rest = l.rest.takeWhile isBlank ++ (x.spelling ++ x.rest) := by
      rw [hrest]
      exact List.takeWhile_append_dropWhile.symm
    refine .token (List.all_eq_true.mp List.all_takeWhile) hsplit ?_ ?_ ?_
    · rw [hnext]
      exact Lexeme.longest_of_ofText? hx hhead
    · rw [hnext]
      exact (Lexeme.form_of_ofText? hx).text _
    · rw [hnext]

/-- What is left after some tokens is the end of the text. -/
theorem rest_skip_suffix (l : Lexer) (n : Nat) : (l.skip n).rest <:+ l.rest := by
  induction n generalizing l with
  | zero => exact List.suffix_refl _
  | succ n ih =>
    refine (ih l.next.2).trans ?_
    rcases hl : l.next? with _ | ⟨t, l'⟩
    · rw [next_none hl]
      exact List.dropWhile_suffix _
    · rw [next_some hl]
      obtain ⟨-, bs, -, hrest, -⟩ := rest_of_next? hl
      rw [hrest, ← List.append_assoc]
      exact List.suffix_append _ _

end Lexer

/-- Each token of a text, asked for one after the other, is the longest piece at the front of what is left of the text behind the
blanks, and is of the kind of that piece. -/
theorem next_longest (text : String) (n : Nat) :
    ((Lexer.ofText text).skip n).rest <:+ text.toList ∧ ((Lexer.ofText text).skip n).Munches :=
  ⟨(Lexer.ofText text).rest_skip_suffix n, Lexer.munches _⟩

/-- Points go to the numeral in front of them, and three equals signs are two and one. -/
example : (Lexer.ofText "1..2 5.x .5.5 ===").tokens.map Token.text = ["1.", ".2", "5.", "x", ".5", ".5", "==", "="] := by
  decide +kernel

end Scriptlet
