import Scriptlet.Proofs.Token.Cut

/-!
# The forms of a lexeme

A lexeme is a word, a numeral with or without a point, a closed string, an operator or delimiter, or something illegal: all that is
left of a text behind a quote that nothing closes, or a single character that starts nothing (`Lexeme.Form`). In each form the token
of a lexeme is written as the characters that were cut off (`Lexeme.Form.text`).
-/

namespace Scriptlet

namespace Lexeme

/-- The forms that a lexeme can have, with the characters each is spelled with. -/
inductive Form : Lexeme → Prop where
  | word {w rest : List Char} : w ≠ [] → (∀ c ∈ w, isLetter c) → Form ⟨Kind.ofWord (String.ofList w), w, rest⟩
  | integer {w rest : List Char} : w ≠ [] → (∀ c ∈ w, c.isDigit) → Form ⟨.int, w, rest⟩
  | float {w f rest : List Char} : w ++ f ≠ [] → (∀ c ∈ w, c.isDigit) → (∀ c ∈ f, c.isDigit) →
      Form ⟨.float, w ++ '.' :: f, rest⟩
  | string {w rest : List Char} : '"' ∉ w → Form ⟨.string, '"' :: (w ++ ['"']), rest⟩
  /-- Nothing closes the string, and nothing is left. -/
  | unclosed {w : List Char} : '"' ∉ w → Form ⟨.illegal, '"' :: w, []⟩
  | symbol {k : Kind} {rest : List Char} : k.isSymbol → Form ⟨k, k.name.toList, rest⟩
  | stray (c : Char) {rest : List Char} : Form ⟨.illegal, [c], rest⟩

theorem form_numeral {c : Char} {cs : List Char} (h : c.isDigit || (c == '.' && startsWithDigit cs)) :
    (numeral (c :: cs)).Form := by
  have hw : ∀ d ∈ (c :: cs).takeWhile Char.isDigit, d.isDigit := List.all_eq_true.mp List.all_takeWhile
  unfold numeral
  dsimp only
  split
  · next rest hdrop =>
    have hf : ∀ d ∈ rest.takeWhile Char.isDigit, d.isDigit := List.all_eq_true.mp List.all_takeWhile
    rw [Kind.ofNumeral_point]
    refine .float (fun hnil => ?_) hw hf
    -- a point at the front has a digit behind it, so there is a digit on one side
    obtain ⟨hwhole, hfrac⟩ := List.append_eq_nil_iff.mp hnil
    by_cases hd : c.isDigit
    · simp [hd] at hwhole
    · simp only [hd, Bool.false_or, Bool.and_eq_true] at h
      rw [List.dropWhile_cons_of_neg hd] at hdrop
      cases hdrop
      cases cs with
      | nil => exact absurd h.2 (by decide)
      | cons d ds =>
        have hd' : d.isDigit := h.2
        simp [hd'] at hfrac
  · next hdrop =>
    rw [Kind.ofNumeral_digits hw]
    refine .integer (fun hnil => ?_) hw
    by_cases hd : c.isDigit
    · simp [hd] at hnil
    · simp only [hd, Bool.false_or, Bool.and_eq_true, beq_iff_eq] at h
      rw [List.dropWhile_cons_of_neg hd, h.1] at hdrop
      exact hdrop cs rfl

theorem form_quotation (cs : List Char) : (quotation cs).Form := by
  have hw : '"' ∉ cs.takeWhile (· != '"') := by
    intro h
    have := List.all_eq_true.mp (List.all_takeWhile (p := (· != '"')) (l := cs)) '"' h
    exact absurd this (by decide)
  unfold quotation
  dsimp only
  split
  · next close rest hdrop =>
    have hclose : close = '"' := by
      have hne : cs.dropWhile (· != '"') ≠ [] := by
        rw [hdrop]
        exact List.cons_ne_nil _ _
      have hhead := List.head_dropWhile_not (· != '"') hne
      simpa [hdrop] using hhead
    rw [hclose]
    exact .string hw
  · exact .unclosed hw

theorem pairKind?_isSymbol {c d : Char} {k : Kind} (h : pairKind? c d = some k) : k.isSymbol ∧ k.name.toList = [c, d] := by
  unfold pairKind? at h
  split at h <;> cases h <;> exact ⟨rfl, rfl⟩

theorem singleKind_isSymbol (c : Char) : singleKind c = .illegal ∨ (singleKind c).isSymbol ∧ (singleKind c).name.toList = [c] := by
  unfold singleKind
  split <;> first | exact Or.inl rfl | exact Or.inr ⟨rfl, rfl⟩

theorem form_single (c : Char) (rest : List Char) : Form ⟨singleKind c, [c], rest⟩ := by
  obtain h | ⟨hk, hname⟩ := singleKind_isSymbol c
  · rw [h]
    exact .stray c
  · rw [← hname]
    exact .symbol hk

theorem form_symbol (c : Char) (cs : List Char) : (symbol c cs).Form := by
  unfold symbol
  split
  · next d rest =>
    split
    · next k hk =>
      obtain ⟨hsym, hname⟩ := pairKind?_isSymbol hk
      rw [← hname]
      exact .symbol hsym
    · exact form_single c _
  · exact form_single c _

/-- Every lexeme has one of the forms. -/
theorem form_of_ofText? {text : List Char} {x : Lexeme} (h : ofText? text = some x) : x.Form := by
  cases text with
  | nil => cases h
  | cons c cs =>
    simp only [ofText?] at h
    split at h
    · next hc =>
      cases h
      refine .word ?_ (List.all_eq_true.mp List.all_takeWhile)
      simp [hc]
    · split at h
      · next hd =>
        cases h
        exact form_numeral hd
      · split at h
        · cases h
          exact form_quotation cs
        · cases h
          exact form_symbol c cs

namespace Form

variable {x : Lexeme}

theorem literal_of_ne_string (h : x.kind ≠ .string) : x.literal = String.ofList x.spelling := by
  unfold literal
  rw [if_neg h]

/-- Outside a string, the literal is written as it is. -/
theorem text_of_ne_string (h : x.kind ≠ .string) (pos : Pos) : (Token.text ⟨x.kind, x.literal, pos⟩).toList = x.spelling := by
  rw [Token.text_of_ne_string h, literal_of_ne_string h, String.toList_ofList]

/-- The token of a lexeme is written as the characters of the lexeme. -/
theorem text (h : x.Form) (pos : Pos) : (Token.text ⟨x.kind, x.literal, pos⟩).toList = x.spelling := by
  cases h with
  | word _ _ => exact text_of_ne_string (Kind.ofWord_ne rfl _) pos
  | integer _ _ | float _ _ _ | unclosed _ | stray _ => exact text_of_ne_string (by simp) pos
  | @symbol k _ hk => exact text_of_ne_string (fun e => by rw [show k = .string from e] at hk; cases hk) pos
  | @string w rest _ => simp [Token.text, literal]

end Form

end Lexeme

end Scriptlet
