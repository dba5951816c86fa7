import Mathlib.Data.List.DropRight
import Scriptlet.Proofs.Token.Form

/-!
# Nothing of a text is lost

Cutting a text into tokens keeps every character of it: the text is what its tokens are written as, one after the other, with
nothing but blanks before, between and behind them (`Woven`). No token is written as nothing, so there are at most as many tokens as
characters. Asking for one token after the other gives these tokens and then, however often it is asked again, the one token at the
end of the text (`tokens_lossless`).

This holds of every text: of letters beyond ASCII and of NUL, of strings that nothing closes, and of a text that ends inside a token.
-/

namespace Scriptlet

/-- A text that is written as tokens, with nothing but blanks before, between and behind them. -/
inductive Woven : List Char → List Token → Prop where
  | nil {bs : List Char} : (∀ c ∈ bs, isBlank c) → Woven bs []
  | cons {bs cs : List Char} {t : Token} {ts : List Token} : (∀ c ∈ bs, isBlank c) → Woven cs ts →
      Woven (bs ++ (t.text.toList ++ cs)) (t :: ts)

/-- Where no token is written as nothing, there are no more tokens than characters. -/
theorem Woven.length_le {cs : List Char} {ts : List Token} (h : Woven cs ts) (hne : ∀ t ∈ ts, t.text.toList ≠ []) :
    ts.length ≤ cs.length := by
  induction h with
  | nil _ => exact Nat.zero_le _
  | @cons bs cs t ts _ _ ih =>
    rw [List.forall_mem_cons] at hne
    have hpos : 0 < t.text.toList.length := List.length_pos_iff.mpr hne.1
    have hrest : ts.length ≤ cs.length := ih hne.2
    simp only [List.length_cons, List.length_append]
    omega

namespace Lexer

variable {l l' : Lexer} {t : Token}

/-! ## One token -/

/-- The next token takes blanks off the text, and then the characters that it is written as, at least one. It stands behind the blanks,
and reading goes on behind it. -/
theorem rest_of_next? (h : l.next? = some (t, l')) :
    t.text.toList ≠ [] ∧ ∃ bs, (∀ c ∈ bs, isBlank c) ∧ l.rest = bs ++ (t.text.toList ++ l'.rest) ∧
      t.pos = l.pos.skip bs ∧ l'.pos = t.pos.skip t.text.toList := by
  obtain ⟨x, hx, heq⟩ := Option.map_eq_some_iff.mp h
  cases heq
  obtain ⟨hne, hrest⟩ := Lexeme.spelling_append_rest hx
  have htext := (Lexeme.form_of_ofText? hx).text l.skipBlanks.pos
  rw [htext]
  refine ⟨hne, l.rest.takeWhile isBlank, List.all_eq_true.mp List.all_takeWhile, ?_, rfl, rfl⟩
  rw [hrest]
  exact List.takeWhile_append_dropWhile.symm

/-- Where there is no next token, only blanks are left. -/
theorem isBlank_of_next?_none (h : l.next? = none) : ∀ c ∈ l.rest, isBlank c := by
  have hnil : l.rest.dropWhile isBlank = [] := by
    have hnone : Lexeme.ofText? (l.rest.dropWhile isBlank) = none := Option.map_eq_none_iff.mp h
    cases hd : l.rest.dropWhile isBlank with
    | nil => rfl
    | cons c cs =>
      rw [hd] at hnone
      unfold Lexeme.ofText? at hnone
      dsimp only at hnone
      repeat' split at hnone
      all_goals cases hnone
  exact List.dropWhile_eq_nil_iff.mp hnil

/-! ## All tokens -/

/-- A text is written as its tokens, with blanks around them. -/
theorem woven (l : Lexer) : Woven l.rest l.tokens := by
  fun_induction drain l with
  | case1 l t l' h r ih =>
    obtain ⟨-, bs, hbs, hrest, -⟩ := rest_of_next? h
    rw [tokens_some h, hrest]
    exact .cons hbs ih
  | case2 l h =>
    rw [tokens_none h]
    exact .nil (isBlank_of_next?_none h)

theorem text_ne_nil (l : Lexer) : ∀ t ∈ l.tokens, t.text.toList ≠ [] :=
  forall_tokens (fun _ _ _ h => (rest_of_next? h).1) l

/-! ## Token after token -/

theorem next_some (h : l.next? = some (t, l')) : l.next = (t, l') := by
  rw [next, h]
  rfl

theorem next_none (h : l.next? = none) : l.next = (l.skipBlanks.eof, l.skipBlanks) := by
  rw [next, h]
  rfl

/-- Behind the blanks there are none to skip. -/
theorem skipBlanks_skipBlanks (l : Lexer) : l.skipBlanks.skipBlanks = l.skipBlanks := by
  have hdrop : (l.rest.dropWhile isBlank).dropWhile isBlank = l.rest.dropWhile isBlank := List.dropWhile_idempotent isBlank _
  have htake : (l.rest.dropWhile isBlank).takeWhile isBlank = [] := by
    have h := List.takeWhile_append_dropWhile (p := isBlank) (l := l.rest.dropWhile isBlank)
    rw [hdrop] at h
    exact List.append_left_eq_self.mp h
  unfold skipBlanks
  simp only [hdrop, htake, Pos.skip_nil]

theorem next?_skipBlanks (l : Lexer) : l.skipBlanks.next? = l.next? := by
  rw [next?, next?, skipBlanks_skipBlanks]

/-- The `n`-th token is the next one after the tokens before it. -/
theorem next?_skip (l : Lexer) {n : Nat} (h : n < l.tokens.length) :
    (l.skip n).next? = some (l.tokens[n], l.skip (n + 1)) := by
  induction n generalizing l with
  | zero =>
    rcases hl : l.next? with _ | ⟨t, l'⟩
    · rw [tokens_none hl] at h
      cases h
    · have ht : l.tokens[0] = t := by simp only [tokens_some hl, List.getElem_cons_zero]
      rw [skip, skip, skip, next_some hl, hl, ht]
  | succ n ih =>
    rcases hl : l.next? with _ | ⟨t, l'⟩
    · rw [tokens_none hl] at h
      cases h
    · have hn : n < l'.tokens.length := by
        rw [tokens_some hl, List.length_cons] at h
        exact Nat.lt_of_succ_lt_succ h
      have ht : l.tokens[n + 1] = l'.tokens[n] := by simp only [tokens_some hl, List.getElem_cons_succ]
      rw [skip, skip, next_some hl, ih l' hn, ht]

/-- Where there is no next token there is none later, and the end of the text stays where it is. -/
theorem skip_of_next?_none (h : l.next? = none) (n : Nat) :
    (l.skip n).next? = none ∧ (l.skip n).next = (l.skipBlanks.eof, l.skipBlanks) := by
  induction n generalizing l with
  | zero => exact ⟨h, next_none h⟩
  | succ n ih =>
    have hb : l.skipBlanks.next? = none := by rwa [next?_skipBlanks]
    have hn := ih hb
    rw [skipBlanks_skipBlanks] at hn
    rw [skip, next_none h]
    exact hn

/-- After the last token there is no other, and asking again gives the end of the text. -/
theorem skip_of_length_le (l : Lexer) {n : Nat} (h : l.tokens.length ≤ n) :
    (l.skip n).next? = none ∧ (l.skip n).next = (l.finish.eof, l.finish) := by
  induction l using drain.induct generalizing n with
  | case1 l t l' hl ih =>
    rw [tokens_some hl, List.length_cons] at h
    obtain ⟨m, rfl⟩ := Nat.exists_eq_add_of_lt h
    have hm : l'.tokens.length ≤ l'.tokens.length + m := Nat.le_add_right _ _
    rw [skip, next_some hl, finish_some hl]
    exact ih hm
  | case2 l hl =>
    rw [finish_none hl]
    exact skip_of_next?_none hl n

end Lexer

/-- What cutting a text into tokens keeps. -/
structure Lossless (text : String) : Prop where
  /-- The text is written as its tokens, with blanks around them. -/
  woven : Woven text.toList (Lexer.ofText text).tokens
  text_ne_empty : ∀ t ∈ (Lexer.ofText text).tokens, t.kind ≠ .eof ∧ t.text ≠ ""
  length_le : (Lexer.ofText text).tokens.length ≤ text.length
  /-- Asked for one after the other, these tokens come first. -/
  next {n : Nat} (h : n < (Lexer.ofText text).tokens.length) :
    ((Lexer.ofText text).skip n).next? = some ((Lexer.ofText text).tokens[n], (Lexer.ofText text).skip (n + 1)) ∧
      ((Lexer.ofText text).skip n).next = ((Lexer.ofText text).tokens[n], (Lexer.ofText text).skip (n + 1))
  /-- After them there is no token, and the end of the text is given again and again. -/
  stays {n : Nat} (h : (Lexer.ofText text).tokens.length ≤ n) :
    ((Lexer.ofText text).skip n).next? = none ∧
      ((Lexer.ofText text).skip n).next = ((Lexer.ofText text).finish.eof, (Lexer.ofText text).finish)

/-- A text can be put together again from its tokens and the blanks around them, and reading token by token ends. -/
theorem tokens_lossless (text : String) : Lossless text := by
  have hne := (Lexer.ofText text).text_ne_nil
  have hwoven : Woven text.toList (Lexer.ofText text).tokens := (Lexer.ofText text).woven
  refine ⟨hwoven, fun t ht => ⟨(Lexer.ofText text).kind_ne_eof t ht, fun hempty => ?_⟩, ?_, fun {n} h => ?_, fun h => ?_⟩
  · exact hne t ht (by rw [hempty]; rfl)
  · rw [← String.length_toList]
    exact hwoven.length_le hne
  · have hnext := (Lexer.ofText text).next?_skip h
    exact ⟨hnext, Lexer.next_some hnext⟩
  · exact (Lexer.ofText text).skip_of_length_le h

end Scriptlet
