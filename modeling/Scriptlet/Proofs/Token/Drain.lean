import Scriptlet.Token.Lexer

/-!
# The tokens of a text

`Lexer.drain` takes tokens as long as there is one. Here, what it gives in either case, and what holds of every token of a text as
soon as it holds of every lexeme: no token before the end is of the kind `eof` (`kind_ne_eof`).
-/

namespace Scriptlet

namespace Lexeme

theorem kind_ofWord_ne_eof (s : String) : Kind.ofWord s ≠ .eof := by
  unfold Kind.ofWord
  split <;> decide

theorem kind_ofNumeral_ne_eof (s : String) : Kind.ofNumeral s ≠ .eof := by
  unfold Kind.ofNumeral
  split <;> decide

theorem singleKind_ne_eof (c : Char) : singleKind c ≠ .eof := by
  unfold singleKind
  split <;> decide

theorem pairKind?_ne_eof {c d : Char} {k : Kind} (h : pairKind? c d = some k) : k ≠ .eof := by
  unfold pairKind? at h
  split at h <;> cases h <;> decide

/-- No piece of a text is the end of it. -/
theorem kind_ne_eof {text : List Char} {x : Lexeme} (h : ofText? text = some x) : x.kind ≠ .eof := by
  unfold ofText? at h
  split at h
  · cases h
  · split at h
    · cases h
      exact kind_ofWord_ne_eof _
    · split at h
      · cases h
        unfold numeral
        dsimp only
        split
        · exact kind_ofNumeral_ne_eof _
        · exact kind_ofNumeral_ne_eof _
      · split at h
        · cases h
          unfold quotation
          dsimp only
          split <;> simp
        · cases h
          unfold symbol
          split
          · split
            · next hk => exact pairKind?_ne_eof hk
            · exact singleKind_ne_eof _
          · exact singleKind_ne_eof _

end Lexeme

namespace Lexer

theorem drain_some {l l' : Lexer} {t : Token} (h : l.next? = some (t, l')) :
    l.drain = (t :: l'.drain.1, l'.drain.2) := by
  rw [drain]
  split
  · next h' =>
    rw [h] at h'
    cases h'
    rfl
  · next h' =>
    rw [h] at h'
    cases h'

theorem drain_none {l : Lexer} (h : l.next? = none) : l.drain = ([], l.skipBlanks) := by
  rw [drain]
  split
  · next h' =>
    rw [h] at h'
    cases h'
  · rfl

theorem tokens_some {l l' : Lexer} {t : Token} (h : l.next? = some (t, l')) : l.tokens = t :: l'.tokens := by
  rw [tokens, drain_some h, tokens]

theorem finish_some {l l' : Lexer} {t : Token} (h : l.next? = some (t, l')) : l.finish = l'.finish := by
  rw [finish, drain_some h, finish]

theorem tokens_none {l : Lexer} (h : l.next? = none) : l.tokens = [] := by
  rw [tokens, drain_none h]

theorem finish_none {l : Lexer} (h : l.next? = none) : l.finish = l.skipBlanks := by
  rw [finish, drain_none h]

/-- What holds of the next token at every place holds of all tokens. -/
theorem forall_tokens {P : Token → Prop} (hP : ∀ (l : Lexer) t l', l.next? = some (t, l') → P t) (l : Lexer) :
    ∀ t ∈ l.tokens, P t := by
  fun_induction drain l with
  | case1 l t l' h r ih =>
    intro u hu
    rw [tokens_some h] at hu
    rcases List.mem_cons.mp hu with rfl | hu
    · exact hP l _ l' h
    · exact ih u hu
  | case2 l h =>
    intro u hu
    rw [tokens_none h] at hu
    cases hu

/-- No token before the end is of the kind `eof`. -/
theorem kind_ne_eof (l : Lexer) : ∀ t ∈ l.tokens, t.kind ≠ .eof := by
  refine forall_tokens (fun l t l' h => ?_) l
  obtain ⟨x, hx, heq⟩ := Option.map_eq_some_iff.mp h
  cases heq
  exact Lexeme.kind_ne_eof hx

end Lexer

end Scriptlet
