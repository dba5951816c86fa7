import Scriptlet.Proofs.Token.Lossless

/-!
# The tokens of one text behind another

The tokens of two texts with a blank between them are those of the first text, and behind them those of the second one, if no string
is left open at the end of the first text (`Lexer.drain_append`). The tokens of the second text stand further on; with a newline
between the texts, they stand in lower lines (`Lexer.drain_lines`).
-/

namespace Scriptlet

namespace Lexeme

variable {text rest : List Char} {x : Lexeme}

theorem numeral_append (h : BreakAhead rest) (text : List Char) :
    numeral (text ++ rest) = { numeral text with rest := (numeral text).rest ++ rest } := by
  have hstop : ∀ c ∈ rest.head?, ¬c.isDigit := by
    intro c hc
    rw [(not_of_isBreak (h c hc)).2.1]
    decide
  obtain ⟨htake, hdrop⟩ := List.takeWhile_append_eq text rest fun _ => hstop
  unfold numeral
  rw [htake, hdrop]
  rcases hd : text.dropWhile Char.isDigit with _ | ⟨c, cs⟩
  · dsimp only [List.nil_append]
    split
    · exact absurd rfl (not_of_isBreak (h '.' rfl)).2.2.1
    · rfl
  · rw [List.cons_append]
    by_cases hc : c = '.'
    · subst hc
      obtain ⟨htake', hdrop'⟩ := List.takeWhile_append_eq cs rest fun _ => hstop
      simp only [htake', hdrop']
    · split
      · next heq => exact absurd (List.cons.inj heq).1 hc
      · split
        · next heq => exact absurd (List.cons.inj heq).1 hc
        · rfl

theorem symbol_append (h : BreakAhead rest) (c : Char) (text : List Char) :
    symbol c (text ++ rest) = { symbol c text with rest := (symbol c text).rest ++ rest } := by
  cases text with
  | nil =>
    cases rest with
    | nil => rfl
    | cons d rest =>
      rw [List.nil_append, symbol, pairKind?_of_ne (not_of_isBreak (h d rfl)).2.2.2]
      rfl
  | cons d text =>
    rw [List.cons_append, symbol, symbol]
    cases pairKind? c d <;> rfl

/-- A string that is closed is closed with more text behind it. -/
theorem quotation_append (h : (quotation text).kind ≠ .illegal) (rest : List Char) :
    quotation (text ++ rest) = { quotation text with rest := (quotation text).rest ++ rest } := by
  unfold quotation at h ⊢
  dsimp only at h ⊢
  rcases hd : text.dropWhile (· != '"') with _ | ⟨c, cs⟩
  · rw [hd] at h
    exact absurd rfl h
  · obtain ⟨htake, hdrop⟩ := List.takeWhile_append_eq (p := (· != '"')) text rest (by rw [hd]; nofun)
    rw [htake, hdrop, hd]
    rfl

/-- A lexeme is cut off in the same way with more text behind it, behind a character that ends every token. -/
theorem ofText?_append (h : ofText? text = some x) (hx : x.kind = .illegal → x.rest ≠ []) (hrest : BreakAhead rest) :
    ofText? (text ++ rest) = some { x with rest := x.rest ++ rest } := by
  cases text with
  | nil => cases h
  | cons c cs =>
    have hdigit : startsWithDigit (cs ++ rest) = startsWithDigit cs := by
      cases cs with
      | nil => exact startsWithDigit_of_breakAhead hrest
      | cons d cs => rfl
    rw [List.cons_append]
    simp only [ofText?, hdigit] at h ⊢
    split at h
    · next hc =>
      cases h
      rw [if_pos hc]
      have hstop : ∀ d ∈ rest.head?, ¬isLetter d := by
        intro d hd
        rw [(not_of_isBreak (hrest d hd)).1]
        decide
      obtain ⟨htake, hdrop⟩ := List.takeWhile_append_eq (c :: cs) rest fun _ => hstop
      rw [List.cons_append] at htake hdrop
      simp only [word, htake, hdrop]
    · next hc =>
      rw [if_neg hc]
      split at h
      · next hd =>
        cases h
        rw [if_pos hd, ← List.cons_append, numeral_append hrest]
      · next hd =>
        rw [if_neg hd]
        split at h
        · next hq =>
          cases h
          rw [if_pos hq, quotation_append fun hk => hx hk ?_]
          -- nothing is left behind a string that nothing closes
          unfold quotation at hk ⊢
          dsimp only at hk ⊢
          split
          · next heq =>
            rw [heq] at hk
            cases hk
          · rfl
        · next hq =>
          cases h
          rw [if_neg hq, symbol_append hrest]

end Lexeme

namespace Lexer

variable {l l' : Lexer} {t : Token}

/-! ## A text behind another -/

/-- The next token is the same with more text behind it. -/
theorem next?_append (h : l.next? = some (t, l')) (ht : t.kind = .illegal → l'.rest ≠ []) {rest : List Char}
    (hrest : BreakAhead rest) : next? ⟨l.rest ++ rest, l.pos⟩ = some (t, ⟨l'.rest ++ rest, l'.pos⟩) := by
  obtain ⟨x, hx, heq⟩ := Option.map_eq_some_iff.mp h
  cases heq
  have hne : l.rest.dropWhile isBlank ≠ [] := by
    intro hnil
    rw [show l.skipBlanks.rest = [] from hnil] at hx
    cases hx
  obtain ⟨htake, hdrop⟩ := List.takeWhile_append_eq (p := isBlank) l.rest rest fun hnil => absurd hnil hne
  have hcut := Lexeme.ofText?_append hx ht hrest
  unfold next? skipBlanks
  simp only [htake, hdrop]
  rw [show Lexeme.ofText? (l.rest.dropWhile isBlank ++ rest) = _ from hcut]
  rfl

/-- Where a token is taken off, the text ends at the same place. -/
theorem skip_of_next? (h : l.next? = some (t, l')) (cs : List Char) : l.pos.skip (l.rest ++ cs) = l'.pos.skip (l'.rest ++ cs) := by
  obtain ⟨x, hx, heq⟩ := Option.map_eq_some_iff.mp h
  cases heq
  obtain ⟨-, hrest⟩ := Lexeme.spelling_append_rest hx
  have htext : l.rest = l.rest.takeWhile isBlank ++ (x.spelling ++ x.rest) := by
    rw [hrest]
    exact List.takeWhile_append_dropWhile.symm
  rw [htext, List.append_assoc, List.append_assoc, Pos.skip_append, Pos.skip_append]
  rfl

/-- Readers that are at the same place behind the blanks have the same tokens. -/
theorem drain_congr (h : l.skipBlanks = l'.skipBlanks) : l.drain = l'.drain := by
  have hnext : l'.next? = l.next? := by rw [next?, next?, h]
  rcases hl : l.next? with _ | ⟨t, m⟩
  · rw [drain_none hl, drain_none (hnext.trans hl), h]
  · rw [drain_some hl, drain_some (hnext.trans hl)]

theorem drain_blanks {bs : List Char} (hbs : ∀ c ∈ bs, isBlank c) (cs : List Char) (pos : Pos) :
    drain ⟨bs ++ cs, pos⟩ = drain ⟨cs, pos.skip bs⟩ := by
  refine drain_congr ?_
  unfold skipBlanks
  simp only [List.takeWhile_append_of_pos hbs, List.dropWhile_append_of_pos hbs, Pos.skip_append]

/-- The tokens of a text behind another one, with a blank between them, come after the tokens of that. -/
theorem drain_append (l : Lexer) (h : ∀ t ∈ l.tokens.getLast?, t.kind ≠ .illegal) {c : Char} (hc : isBlank c) (cs : List Char) :
    drain ⟨l.rest ++ c :: cs, l.pos⟩ =
      (l.tokens ++ (drain ⟨cs, l.pos.skip (l.rest ++ [c])⟩).1, (drain ⟨cs, l.pos.skip (l.rest ++ [c])⟩).2) := by
  induction l using drain.induct with
  | case1 l t l' hl ih =>
    rw [tokens_some hl] at h
    have hopen : t.kind = .illegal → l'.rest ≠ [] := by
      intro hk hnil
      have hnone : l'.tokens = [] := by
        rw [show l' = ⟨[], l'.pos⟩ by rw [← hnil]]
        exact tokens_none rfl
      rw [hnone] at h
      exact h t rfl hk
    have hlast : ∀ u ∈ l'.tokens.getLast?, u.kind ≠ .illegal := by
      intro u hu
      refine h u ?_
      rw [List.getLast?_cons, show l'.tokens.getLast? = some u from hu]
      rfl
    rw [drain_some (next?_append hl hopen (breakAhead_cons (isBreak_of_isBlank hc))), ih hlast, tokens_some hl,
      skip_of_next? hl]
    rfl
  | case2 l hl =>
    have hblank : ∀ d ∈ l.rest ++ [c], isBlank d := by
      rw [List.forall_mem_append, List.forall_mem_singleton]
      exact ⟨isBlank_of_next?_none hl, hc⟩
    rw [tokens_none hl, List.nil_append, ← drain_blanks hblank, List.append_assoc]
    rfl

/-! ## The same text at another place -/

/-- The same text at another place. -/
def move (g : Pos → Pos) (l : Lexer) : Lexer := ⟨l.rest, g l.pos⟩

theorem drain_move {g : Pos → Pos} (hg : ∀ p c, (g p).next c = g (p.next c)) (l : Lexer) :
    (l.move g).drain = (l.tokens.map (Token.move g), l.finish.move g) := by
  have hskip : ∀ (cs : List Char) (p : Pos), (g p).skip cs = g (p.skip cs) := by
    intro cs
    induction cs with
    | nil => exact fun _ => rfl
    | cons c cs ih =>
      intro p
      rw [Pos.skip_cons, hg, ih, Pos.skip_cons]
  have hblanks : ∀ l : Lexer, (l.move g).skipBlanks = l.skipBlanks.move g := by
    intro l
    unfold skipBlanks move
    simp only [hskip]
  induction l using drain.induct with
  | case1 l t l' hl ih =>
    have hnext : (l.move g).next? = some (t.move g, l'.move g) := by
      obtain ⟨x, hx, heq⟩ := Option.map_eq_some_iff.mp hl
      cases heq
      rw [next?, hblanks, show Lexeme.ofText? (l.skipBlanks.move g).rest = _ from hx, Option.map_some]
      simp only [move, Token.move, hskip]
    rw [drain_some hnext, ih, tokens_some hl, finish_some hl, List.map_cons]
  | case2 l hl =>
    have hnext : (l.move g).next? = none := by
      rw [next?, hblanks, show Lexeme.ofText? (l.skipBlanks.move g).rest = _ from Option.map_eq_none_iff.mp hl]
      rfl
    rw [drain_none hnext, hblanks, tokens_none hl, finish_none hl]
    rfl

end Lexer

/-- The place a number of lines below. -/
def Pos.down (n : Nat) (p : Pos) : Pos := ⟨p.line + n, p.column⟩

theorem Pos.next_down (n : Nat) (p : Pos) (c : Char) : (p.down n).next c = (p.next c).down n := by
  unfold Pos.next Pos.down
  split
  · simp only [Nat.add_right_comm]
  · rfl

/-- Behind a text there are as many lines more as the text has newlines. -/
theorem Pos.line_skip (cs : List Char) (p : Pos) : (p.skip cs).line = p.line + cs.count '\n' := by
  induction cs generalizing p with
  | nil => rfl
  | cons c cs ih =>
    rw [Pos.skip_cons, ih, List.count_cons]
    unfold Pos.next
    by_cases hc : c = '\n'
    · simp only [hc, if_true, beq_self_eq_true]
      omega
    · simp only [hc, if_false, beq_iff_eq]
      rfl

/-- Behind a text and a newline, a line starts. -/
theorem Pos.skip_newline (cs : List Char) : Pos.start.skip (cs ++ ['\n']) = Pos.start.down (cs.count '\n' + 1) := by
  have hline := Pos.line_skip cs Pos.start
  rw [Pos.skip_append, Pos.skip_cons, Pos.skip_nil]
  show Pos.mk ((Pos.start.skip cs).line + 1) 1 = _
  rw [hline, Nat.add_assoc]
  rfl

/-- The tokens of two texts with a newline between them, if no string is left open at the end of the first one. -/
theorem Lexer.drain_lines {s₁ s₂ : String} (h : ∀ t ∈ (Lexer.ofText s₁).tokens.getLast?, t.kind ≠ .illegal) :
    (Lexer.ofText (s₁ ++ "\n" ++ s₂)).drain =
      ((Lexer.ofText s₁).tokens ++ (Lexer.ofText s₂).tokens.map (Token.move (Pos.down (s₁.toList.count '\n' + 1))),
        (Lexer.ofText s₂).finish.move (Pos.down (s₁.toList.count '\n' + 1))) := by
  have htext : Lexer.ofText (s₁ ++ "\n" ++ s₂) = ⟨(Lexer.ofText s₁).rest ++ '\n' :: s₂.toList, (Lexer.ofText s₁).pos⟩ := by
    unfold Lexer.ofText
    simp [String.toList_append]
  have hmove := Lexer.drain_move (Pos.next_down (s₁.toList.count '\n' + 1)) (Lexer.ofText s₂)
  rw [htext, Lexer.drain_append _ h (by decide)]
  rw [show (Lexer.ofText s₁).pos.skip ((Lexer.ofText s₁).rest ++ ['\n']) = _ from Pos.skip_newline s₁.toList]
  rw [show (⟨s₂.toList, Pos.start.down _⟩ : Lexer) = (Lexer.ofText s₂).move _ from rfl, hmove]

end Scriptlet
