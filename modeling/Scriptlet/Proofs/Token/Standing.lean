import Mathlib.Data.List.DropRight
import Scriptlet.Proofs.Token.Append
import Scriptlet.Proofs.Token.Place

/-!
# Where tokens stand

A token stands behind the part of the text in front of it: its line is one more than that part has newlines, and its column is one more
than that part has characters behind its last newline (`Pos.behind`). The part in front of a token is the tokens before it with the blanks
around them, and the end of the text stands behind all of the text (`tokens_standing`).

The columns are those of characters, however many bytes a character takes. Newlines count inside a string as well as between tokens, and
what starts no token takes its place like a token.
-/

namespace Scriptlet

namespace Pos

/-- The place behind a piece of text at the front of a text. -/
def behind (cs : List Char) : Pos where
  line := 1 + cs.count '\n'
  column := 1 + (cs.rtakeWhile (· ≠ '\n')).length

theorem column_skip (cs : List Char) : (start.skip cs).column = 1 + (cs.rtakeWhile (· ≠ '\n')).length := by
  -- only the end of the piece decides, so the induction takes characters off there
  induction cs using List.reverseRecOn with
  | nil => rfl
  | append_singleton cs c ih =>
    rw [skip_append, skip_cons, skip_nil, next]
    by_cases hc : c = '\n'
    · rw [if_pos hc, List.rtakeWhile_concat_neg _ _ _ (by simp [hc])]
      rfl
    · rw [if_neg hc, List.rtakeWhile_concat_pos _ _ _ (by simp [hc]), List.length_append, ← Nat.add_assoc, ← ih]
      rfl

theorem skip_start (cs : List Char) : start.skip cs = behind cs := by
  have hline := line_skip cs start
  have hcolumn := column_skip cs
  cases hp : start.skip cs
  rw [hp] at hline hcolumn
  exact congrArg₂ Pos.mk hline hcolumn

end Pos

namespace Lexer

variable {l : Lexer}

/-- The `n`-th token stands behind what is written in front of it. -/
theorem pos_getElem_tokens (l : Lexer) {n : Nat} (h : n < l.tokens.length) : ∃ front,
    l.rest = front ++ (l.tokens[n].text.toList ++ (l.skip (n + 1)).rest) ∧ Woven front (l.tokens.take n) ∧
      (l.skip (n + 1)).tokens = l.tokens.drop (n + 1) ∧ l.tokens[n].pos = l.pos.skip front := by
  induction n generalizing l with
  | zero =>
    rcases hl : l.next? with _ | ⟨t, l'⟩
    · rw [tokens_none hl] at h
      cases h
    · obtain ⟨-, bs, hbs, hrest, hpos, -⟩ := rest_of_next? hl
      have hskip : l.skip 1 = l' := congrArg Prod.snd (next_some hl)
      simp only [tokens_some hl, List.getElem_cons_zero, List.take_zero, List.drop_one, List.tail_cons, Nat.zero_add, hskip]
      exact ⟨bs, hrest, .nil hbs, trivial, hpos⟩
  | succ n ih =>
    rcases hl : l.next? with _ | ⟨t, l'⟩
    · rw [tokens_none hl] at h
      cases h
    · have hn : n < l'.tokens.length := by
        rw [tokens_some hl, List.length_cons] at h
        exact Nat.lt_of_succ_lt_succ h
      obtain ⟨-, bs, hbs, hrest, hpos, hpos'⟩ := rest_of_next? hl
      obtain ⟨front, hfront, hwoven, hdrop, hplace⟩ := ih l' hn
      have hskip : l.skip (n + 1 + 1) = l'.skip (n + 1) := by rw [skip, next_some hl]
      simp only [tokens_some hl, List.getElem_cons_succ, List.take_succ_cons, List.drop_succ_cons, hskip]
      refine ⟨bs ++ (t.text.toList ++ front), ?_, .cons hbs hwoven, hdrop, ?_⟩
      · rw [hrest, hfront]
        simp only [List.append_assoc]
      · rw [hplace, hpos', hpos, Pos.skip_append, Pos.skip_append]

/-- The end of a text stands behind all of it. -/
theorem pos_finish (l : Lexer) : l.finish.pos = l.pos.skip l.rest := by
  fun_induction drain l with
  | case1 l t l' h r ih =>
    obtain ⟨-, bs, -, hrest, hpos, hpos'⟩ := rest_of_next? h
    rw [finish_some h, ih, hrest, hpos', hpos, Pos.skip_append, Pos.skip_append]
  | case2 l h =>
    rw [finish_none h]
    show l.pos.skip (l.rest.takeWhile isBlank) = _
    rw [List.takeWhile_eq_self_iff.mpr (isBlank_of_next?_none h)]

end Lexer

/-- Where the tokens of a text stand. -/
structure Standing (text : String) : Prop where
  /-- A token stands behind what is written as the tokens before it, with blanks around them. -/
  token {n : Nat} (h : n < (Lexer.ofText text).tokens.length) : ∃ front rest : List Char,
    text.toList = front ++ ((Lexer.ofText text).tokens[n].text.toList ++ rest) ∧
      Woven front ((Lexer.ofText text).tokens.take n) ∧ Woven rest ((Lexer.ofText text).tokens.drop (n + 1)) ∧
      ((Lexer.ofText text).skip n).next.1 = (Lexer.ofText text).tokens[n] ∧
      (Lexer.ofText text).tokens[n].pos = Pos.behind front
  /-- The end of the text, given after the last token and ever after, stands behind all of the text. -/
  eof {n : Nat} (h : (Lexer.ofText text).tokens.length ≤ n) :
    ((Lexer.ofText text).skip n).next.1 = ⟨.eof, "", Pos.behind text.toList⟩
  rising : Rising ((Lexer.ofText text).tokens ++ [⟨.eof, "", Pos.behind text.toList⟩])

/-- Every token of a text stands where the newlines and the characters in front of it say, and so does the end of the text. The places
rise from each token to the next. -/
theorem tokens_standing (text : String) : Standing text := by
  have heof : (Lexer.ofText text).finish.eof = ⟨.eof, "", Pos.behind text.toList⟩ := by
    have hpos : (Lexer.ofText text).finish.pos = Pos.behind text.toList :=
      (Lexer.ofText text).pos_finish.trans (Pos.skip_start _)
    rw [Lexer.eof, hpos]
  refine ⟨?_, ?_, heof ▸ (Lexer.ofText text).rising⟩
  · intro n h
    obtain ⟨front, hrest, hwoven, hdrop, hpos⟩ := (Lexer.ofText text).pos_getElem_tokens h
    refine ⟨front, _, hrest, hwoven, ?_, ?_, hpos.trans (Pos.skip_start front)⟩
    · rw [← hdrop]
      exact Lexer.woven _
    · rw [Lexer.next_some ((Lexer.ofText text).next?_skip h)]
  · intro n h
    rw [((Lexer.ofText text).skip_of_length_le h).2]
    exact heof

/-- A string over two lines, with characters of several bytes, and a character that starts no token. -/
example : (Lexer.ofText "\"日\n本\" § x\n").tokens.map Token.pos = [⟨1, 1⟩, ⟨2, 4⟩, ⟨2, 6⟩] ∧
    (Lexer.ofText "\"日\n本\" § x\n").finish.eof.pos = ⟨3, 1⟩ := by
  decide +kernel

end Scriptlet
