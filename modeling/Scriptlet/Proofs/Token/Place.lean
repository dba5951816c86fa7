import Mathlib.Data.List.Nodup
import Mathlib.Data.Prod.Lex
import Mathlib.Order.Basic
import Scriptlet.Proofs.Token.Drain

/-!
# The order of places

A place comes before another one if it is in a higher line, or further left in the same line. Every character of a text leads to a
later place, so the tokens of a text stand at rising places, and the end of the text stands behind them all (`Lexer.rising`). No two
of them stand at the same place.
-/

namespace Scriptlet

namespace Pos

/-- Places are ordered by the line first, and then by the column. -/
instance : PartialOrder Pos :=
  PartialOrder.lift (fun p => toLex (p.line, p.column)) fun p q h => by
    obtain ⟨hline, hcolumn⟩ := Prod.mk.inj (toLex.injective h)
    cases p
    cases q
    exact congrArg₂ Pos.mk hline hcolumn

theorem lt_iff {p q : Pos} : p < q ↔ p.line < q.line ∨ p.line = q.line ∧ p.column < q.column :=
  Prod.Lex.toLex_lt_toLex

/-- A character leads to a later place. -/
theorem lt_next (p : Pos) (c : Char) : p < p.next c := by
  rw [lt_iff]
  unfold next
  split
  · exact Or.inl (Nat.lt_succ_self p.line)
  · exact Or.inr ⟨rfl, Nat.lt_succ_self p.column⟩

theorem le_skip (p : Pos) (cs : List Char) : p ≤ p.skip cs := by
  induction cs generalizing p with
  | nil => exact le_refl p
  | cons c cs ih => exact (p.lt_next c).le.trans (ih (p.next c))

/-- A piece of text that is not empty leads to a later place. -/
theorem lt_skip (p : Pos) {cs : List Char} (h : cs ≠ []) : p < p.skip cs := by
  cases cs with
  | nil => exact absurd rfl h
  | cons c cs => exact (p.lt_next c).trans_le ((p.next c).le_skip cs)

end Pos

/-- Tokens at rising places. -/
def Rising (ts : List Token) : Prop := ts.Pairwise fun t u => t.pos < u.pos

namespace Rising

/-- In a part of the tokens the places are rising as well. -/
theorem sublist {ts us : List Token} (h : Rising us) (hs : ts.Sublist us) : Rising ts := List.Pairwise.sublist hs h

/-- No place is that of two tokens. -/
theorem nodup_pos {ts : List Token} (h : Rising ts) : (ts.map Token.pos).Nodup :=
  List.pairwise_map.mpr (h.imp fun hlt => hlt.ne)

end Rising

namespace Lexer

variable {l l' : Lexer} {t : Token}

/-- The next token stands where reading goes on or later, and reading goes on behind it. -/
theorem le_pos_lt (h : l.next? = some (t, l')) : l.pos ≤ t.pos ∧ t.pos < l'.pos := by
  obtain ⟨x, hx, heq⟩ := Option.map_eq_some_iff.mp h
  cases heq
  exact ⟨l.pos.le_skip _, Pos.lt_skip _ (Lexeme.spelling_append_rest hx).1⟩

/-- No token of a text, and not its end, stands before the place where reading starts. -/
theorem le_pos (l : Lexer) : ∀ t ∈ l.tokens ++ [l.finish.eof], l.pos ≤ t.pos := by
  fun_induction drain l with
  | case1 l t l' h r ih =>
    obtain ⟨hle, hlt⟩ := le_pos_lt h
    rw [tokens_some h, finish_some h, List.cons_append, List.forall_mem_cons]
    exact ⟨hle, fun u hu => (hle.trans hlt.le).trans (ih u hu)⟩
  | case2 l h =>
    rw [tokens_none h, finish_none h, List.nil_append, List.forall_mem_singleton]
    exact l.pos.le_skip _

/-- The tokens of a text and its end stand at rising places. -/
theorem rising (l : Lexer) : Rising (l.tokens ++ [l.finish.eof]) := by
  fun_induction drain l with
  | case1 l t l' h r ih =>
    rw [tokens_some h, finish_some h, List.cons_append]
    exact List.pairwise_cons.mpr ⟨fun u hu => (le_pos_lt h).2.trans_le (l'.le_pos u hu), ih⟩
  | case2 l h =>
    rw [tokens_none h]
    exact List.pairwise_singleton _ _

theorem rising_tokens (l : Lexer) : Rising l.tokens := l.rising.sublist (List.sublist_append_left _ _)

end Lexer

end Scriptlet
