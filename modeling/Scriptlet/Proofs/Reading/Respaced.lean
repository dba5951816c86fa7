import Scriptlet.Proofs.Reading.About
import Scriptlet.Proofs.Reading.Alike
import Scriptlet.Proofs.Spelling.Recovered
import Scriptlet.Proofs.Token.Spacing

/-!
# Reading a text with other spacing

Blanks between the tokens of a text play no part in what is read from it: whatever blanks stand between every two tokens, and in front
of the first one, the same program is read, and the same diagnostics are noted, each at the place where its token stands now
(`parse_respaced`). This holds of every text, and of gaps where there were none: no rule, and no step that is taken after a mistake, looks
at a place.
-/

namespace Scriptlet

/-- A text and the same one with other spacing: `g` gives the place where a token of the first text stands in the second one. -/
structure Respaced (g : Pos → Pos) (s s' : String) : Prop where
  /-- The tokens have the same kinds and literals. -/
  tokens : (Lexer.ofText s').tokens = (Lexer.ofText s).tokens.map (Token.move g)
  eof : (Lexer.ofText s').finish.eof = (Lexer.ofText s).finish.eof.move g
  program : (parse s').program = (parse s).program.move g
  /-- Every token of the program is one of the text. -/
  token_mem : ∀ n ∈ (parse s).program.nodes, n.token ∈ (Lexer.ofText s).tokens
  diagnostics : (parse s').diagnostics = (parse s).diagnostics.map (Diagnostic.move g)
  /-- Every diagnostic stands at a token of the text, or at its end. -/
  about : ∀ d ∈ (parse s).diagnostics, ∃ t ∈ (Lexer.ofText s).tokens ++ [(Lexer.ofText s).finish.eof], d.About t

/-- With other blanks between its tokens, a text has the same tokens, the same program and the same diagnostics, but for the places;
each place is that of the same token, or of the end. -/
theorem parse_respaced {s s' : String} (h : Apart s'.toList (Lexer.ofText s).tokens) : ∃ g, Respaced g s s' := by
  obtain ⟨g, htokens, heof⟩ := Lexer.tokens_apart h
  have halike : Reading.Alike g .none Eq ((Lexer.ofText s).reading ()) ((Lexer.ofText s').reading ()) :=
    ⟨htokens, heof, rfl, rfl, rfl, rfl, rfl⟩
  obtain ⟨hss, hend⟩ := halike.readAll Tracer.silent.alike_refl (Lexer.reading_ready _ _)
  exact ⟨g, htokens, heof, congrArg Program.mk hss, fun n hn => (parse_listed s).token_mem hn, hend.diagnostics, parse_about s⟩

/-- Two numerals without a gap between them, and a string that nothing closes. -/
def gluedTokens : String := "1.2.3\"a b"

/-- The same tokens with blanks between them. -/
def looseTokens : String := "\t1.2 .3\r\n\"a b"

theorem parse_respaced_loose :
    Apart looseTokens.toList (Lexer.ofText gluedTokens).tokens ∧ ∃ g, Respaced g gluedTokens looseTokens := by
  have htokens : (Lexer.ofText gluedTokens).tokens =
      [⟨.float, "1.2", ⟨1, 1⟩⟩, ⟨.float, ".3", ⟨1, 4⟩⟩, ⟨.illegal, "\"a b", ⟨1, 6⟩⟩] := by
    decide +kernel
  have htext : looseTokens.toList =
      ['\t'] ++ ((Token.text ⟨.float, "1.2", ⟨1, 1⟩⟩).toList ++ ([' '] ++ ((Token.text ⟨.float, ".3", ⟨1, 4⟩⟩).toList ++
        (['\r', '\n'] ++ ((Token.text ⟨.illegal, "\"a b", ⟨1, 6⟩⟩).toList ++ []))))) := by
    decide +kernel
  have hapart : Apart looseTokens.toList (Lexer.ofText gluedTokens).tokens := by
    rw [htokens, htext]
    have hclosed : ∀ {t : Token}, t.kind = .float → ∀ {cs : List Char}, t.Open → cs = [] :=
      fun hk _ ho => absurd (hk.symm.trans ho.1) (by decide)
    refine .cons (List.all_eq_true.mp rfl) (fun _ => ⟨' ', rfl, rfl⟩) (hclosed rfl) ?_
    refine .cons (List.all_eq_true.mp rfl) (fun _ => ⟨'\r', rfl, rfl⟩) (hclosed rfl) ?_
    exact .cons (List.all_eq_true.mp rfl) (fun h => absurd rfl h) (fun _ => rfl) (.nil nofun)
  exact ⟨hapart, parse_respaced hapart⟩

end Scriptlet
