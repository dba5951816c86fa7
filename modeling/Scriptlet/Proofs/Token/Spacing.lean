import Mathlib.Logic.Function.Basic
import Scriptlet.Proofs.Token.Lossless
import Scriptlet.Proofs.Token.Place

/-!
# Tokens cut loose from their neighbours

A token of a text is cut off as itself wherever it stands alone: in front of a blank or of the end, whatever stood behind it in its own
text (`Lexer.detached`). This holds of the parts of what was written without a gap, such as the two numerals of `1.2.3`, and of
illegal characters. A string that nothing closes takes all that is left, so it has to stay the last one.

So a text that is written as the tokens of another one, with blanks between every two of them, has these tokens, of the same kinds and
with the same literals (`Apart.tokens`). They stand at other places, and since no two tokens of a text stand at the same place, the
places are given by a function (`exists_move`).
-/

namespace Scriptlet

/-- A string that nothing closes: an illegal token that starts with a quote. -/
def Token.Open (t : Token) : Prop := t.kind = .illegal ∧ t.text.toList.head? = some '"'

/-- A text that is written as tokens, with blanks between every two of them, and maybe in front and behind. Nothing stands behind a
string that is left open. -/
inductive Apart : List Char → List Token → Prop where
  | nil {bs : List Char} : (∀ c ∈ bs, isBlank c) → Apart bs []
  | cons {bs cs : List Char} {t : Token} {ts : List Token} : (∀ c ∈ bs, isBlank c) →
      (ts ≠ [] → ∃ c ∈ cs.head?, isBlank c) → (t.Open → cs = []) → Apart cs ts → Apart (bs ++ (t.text.toList ++ cs)) (t :: ts)

/-- A token that is cut off as itself in front of whatever ends every token, an open string in front of the end only. -/
structure Token.Detached (t : Token) : Prop where
  head : ∀ c ∈ t.text.toList.head?, ¬isBlank c
  cut {rest : List Char} : BreakAhead rest → (t.Open → rest = []) →
    Lexeme.ofText? (t.text.toList ++ rest) = some ⟨t.kind, t.text.toList, rest⟩

/-! ## One token -/

namespace Lexeme

theorem kind_numeral_ne_illegal (text : List Char) : (numeral text).kind ≠ .illegal := by
  have hkind : ∀ s, Kind.ofNumeral s ≠ .illegal := by
    intro s
    unfold Kind.ofNumeral
    split <;> decide
  unfold numeral
  dsimp only
  split
  · exact hkind _
  · exact hkind _

/-- A character that starts nothing else stands for itself, and so it is no letter, digit or quote. -/
theorem stray_cases {c : Char} {cs rest : List Char} (h : ofText? (c :: cs) = some ⟨.illegal, [c], rest⟩) :
    c = '"' ∨ isLetter c = false ∧ c.isDigit = false ∧ (c == '"') = false ∧ singleKind c = .illegal := by
  simp only [ofText?] at h
  split at h
  · exact absurd (congrArg Lexeme.kind (Option.some_inj.mp h)) (Kind.ofWord_ne rfl _)
  · next hl =>
    split at h
    · exact absurd (congrArg Lexeme.kind (Option.some_inj.mp h)) (kind_numeral_ne_illegal _)
    · next hd =>
      split at h
      · next hq => exact Or.inl (beq_iff_eq.mp hq)
      · next hq =>
        have hsingle : singleKind c = .illegal := by
          unfold symbol at h
          split at h
          · split at h
            · cases h
            · exact congrArg Lexeme.kind (Option.some_inj.mp h)
          · exact congrArg Lexeme.kind (Option.some_inj.mp h)
        simp only [Bool.or_eq_true, not_or, Bool.not_eq_true] at hl hd hq
        exact Or.inr ⟨hl, hd.1, hq, hsingle⟩

/-- A string that nothing closes is all that is left. -/
theorem cut_unclosed {w : List Char} (hw : '"' ∉ w) : ofText? ('"' :: w) = some ⟨.illegal, '"' :: w, []⟩ := by
  have hp : ∀ c ∈ w, (c != '"') = true := by
    intro c hc
    rw [bne_iff_ne]
    rintro rfl
    exact hw hc
  obtain ⟨htake, hdrop⟩ := List.takeWhile_append_stop (p := (· != '"')) [] hp nofun
  rw [List.append_nil] at htake hdrop
  have hq : quotation w = ⟨.illegal, '"' :: w, []⟩ := by
    unfold quotation
    rw [htake, hdrop]
  have hl : isLetter '"' = false := by decide
  have hd : '"'.isDigit = false := by decide
  simp [ofText?, hl, hd, hq]

/-- A lexeme is cut off as itself in front of what ends every token. If it is a string that nothing closes, nothing may be left. -/
theorem recut {text rest : List Char} {x : Lexeme} (h : ofText? text = some x) (hrest : BreakAhead rest)
    (hopen : x.kind = .illegal ∧ x.spelling.head? = some '"' → rest = []) :
    ofText? (x.spelling ++ rest) = some ⟨x.kind, x.spelling, rest⟩ := by
  have htext := (spelling_append_rest h).2
  cases form_of_ofText? h with
  | word hne hw => exact cut_word hne hw hrest
  | integer hne hw => exact cut_integer hne hw hrest
  | float hne hw hf => exact cut_float hne hw hf hrest
  | string hw => exact cut_string hw rest
  | unclosed hw =>
    obtain rfl := hopen ⟨rfl, rfl⟩
    rw [List.append_nil]
    exact cut_unclosed hw
  | symbol hk =>
    exact cut_symbol hk (fun d hd => (not_of_isBreak (hrest d hd)).2.2.2) fun _ => startsWithDigit_of_breakAhead hrest
  | stray c =>
    rw [← htext] at h
    obtain rfl | ⟨hl, hd, hq, hsingle⟩ := stray_cases h
    · obtain rfl := hopen ⟨rfl, rfl⟩
      exact cut_unclosed (w := []) nofun
    · refine cut_single hl hd hq hsingle (fun d hd => pairKind?_of_ne (not_of_isBreak (hrest d hd)).2.2.2) ?_
      rintro rfl
      cases hsingle

end Lexeme

namespace Lexer

/-- Every token of a text is cut off as itself if it is cut loose from what stands behind it. -/
theorem detached (l : Lexer) : ∀ t ∈ l.tokens, t.Detached := by
  refine forall_tokens (fun l t l' h => ?_) l
  obtain ⟨x, hx, heq⟩ := Option.map_eq_some_iff.mp h
  cases heq
  obtain ⟨hne, hrest⟩ := Lexeme.spelling_append_rest hx
  have htext := (Lexeme.form_of_ofText? hx).text l.skipBlanks.pos
  refine ⟨fun c hc => ?_, fun {rest} hbreak hopen => ?_⟩
  · -- the token starts behind the blanks
    have hhead : l.skipBlanks.rest.head? = some c := by
      rw [← hrest, List.head?_append, ← htext, hc]
      rfl
    have hblank := List.head?_dropWhile_not isBlank l.rest
    rw [show l.rest.dropWhile isBlank = l.skipBlanks.rest from rfl, hhead] at hblank
    simpa using hblank
  · unfold Token.Open at hopen
    rw [htext] at hopen ⊢
    exact Lexeme.recut hx hbreak hopen

end Lexer

/-! ## All tokens -/

/-- A detached token is the next one, behind blanks and in front of what ends every token. -/
theorem Token.Detached.next? {t : Token} (ht : t.Detached) {bs cs : List Char} (hbs : ∀ c ∈ bs, isBlank c) (hcs : BreakAhead cs)
    (hopen : t.Open → cs = []) (pos : Pos) :
    ∃ pos' pos'', Lexer.next? ⟨bs ++ (t.text.toList ++ cs), pos⟩ = some (⟨t.kind, t.literal, pos'⟩, ⟨cs, pos''⟩) := by
  have hcut := ht.cut hcs hopen
  have hne : t.text.toList ≠ [] := (Lexeme.spelling_append_rest hcut).1
  have hdrop : (bs ++ (t.text.toList ++ cs)).dropWhile isBlank = t.text.toList ++ cs := by
    refine (List.takeWhile_append_stop _ hbs fun c hc => ht.head c ?_).2
    rwa [List.head?_append_of_ne_nil _ hne] at hc
  unfold Lexer.next? Lexer.skipBlanks
  simp only [hdrop, hcut, Option.map_some, Token.literal_lexeme]
  exact ⟨_, _, rfl⟩

/-- A text that is written as tokens that can stand alone, with blanks between them, has these tokens, but for their places. -/
theorem Apart.tokens {cs : List Char} {ts : List Token} (h : Apart cs ts) (hts : ∀ t ∈ ts, t.Detached) (pos : Pos) :
    (Lexer.tokens ⟨cs, pos⟩).map Token.unplaced = ts.map Token.unplaced := by
  induction h generalizing pos with
  | nil hbs => exact Cuts.tokens (.nil hbs) pos
  | @cons bs cs t ts hbs hgap hopen hcs ih =>
    rw [List.forall_mem_cons] at hts
    have hbreak : BreakAhead cs := by
      intro c hc
      refine isBreak_of_isBlank ?_
      cases hcs with
      | nil hbs => exact hbs c (List.mem_of_mem_head? hc)
      | cons _ _ _ _ =>
        obtain ⟨d, hd, hblank⟩ := hgap (List.cons_ne_nil _ _)
        rwa [Option.mem_unique hc hd]
    obtain ⟨pos', pos'', hnext⟩ := hts.1.next? hbs hbreak hopen pos
    rw [Lexer.tokens_some hnext, List.map_cons, List.map_cons, ih hts.2 pos'']
    rfl

/-- Tokens of the same kinds and literals stand at places that a function gives, if the first ones stand at different places. -/
theorem exists_move {ts us : List Token} (h : us.map Token.unplaced = ts.map Token.unplaced) (hts : (ts.map Token.pos).Nodup) :
    ∃ g, us = ts.map (Token.move g) := by
  induction ts generalizing us with
  | nil => exact ⟨id, List.map_eq_nil_iff.mp h⟩
  | cons t ts ih =>
    obtain ⟨u, us, rfl, hu, hus⟩ := List.map_eq_cons_iff.mp h
    rw [List.map_cons, List.nodup_cons] at hts
    obtain ⟨g, rfl⟩ := ih hus hts.2
    have hfirst : u = t.move (Function.update g t.pos u.pos) := by
      obtain ⟨kind, literal, pos⟩ := u
      obtain ⟨hkind, hliteral, -⟩ := Token.mk.inj hu
      rw [Token.move, Function.update_self, ← hkind, ← hliteral]
    -- no other token stands where the first one does
    have hothers : ∀ v ∈ ts, v.move g = v.move (Function.update g t.pos u.pos) := by
      intro v hv
      have hne : v.pos ≠ t.pos := fun heq => hts.1 (heq ▸ List.mem_map_of_mem hv)
      rw [Token.move, Token.move, Function.update_of_ne hne]
    refine ⟨Function.update g t.pos u.pos, ?_⟩
    rw [List.map_cons, ← hfirst, List.map_congr_left hothers]

/-- The tokens of a text that is written as the tokens of another one, with blanks between them, are those of the other one at other
places; so is its end. -/
theorem Lexer.tokens_apart {s s' : String} (h : Apart s'.toList (Lexer.ofText s).tokens) :
    ∃ g, (Lexer.ofText s').tokens = (Lexer.ofText s).tokens.map (Token.move g) ∧
      (Lexer.ofText s').finish.eof = (Lexer.ofText s).finish.eof.move g := by
  have htokens : (Lexer.ofText s').tokens.map Token.unplaced = (Lexer.ofText s).tokens.map Token.unplaced :=
    h.tokens (Lexer.ofText s).detached Pos.start
  have hall : ((Lexer.ofText s').tokens ++ [(Lexer.ofText s').finish.eof]).map Token.unplaced =
      ((Lexer.ofText s).tokens ++ [(Lexer.ofText s).finish.eof]).map Token.unplaced := by
    rw [List.map_append, List.map_append, htokens]
    rfl
  obtain ⟨g, hg⟩ := exists_move hall (Lexer.ofText s).rising.nodup_pos
  rw [List.map_append] at hg
  obtain ⟨hmap, heof⟩ := List.append_inj' hg rfl
  exact ⟨g, hmap, List.singleton_inj.mp heof⟩

end Scriptlet
