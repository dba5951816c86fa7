import Scriptlet.Proofs.Reading.Alike
import Scriptlet.Proofs.Spelling.Complete
import Scriptlet.Proofs.Spelling.Write

/-!
# Reading what is written

The text of a program that can be written is read without a diagnostic, and the program that is read is the one that was written,
but for the places of the tokens and for the tokens that expression statements keep (`parse_text`).

The tokens of the text are those of the tree at other places, and the places decide nothing: readings that are the same without
the places of their tokens find the same statements (`Reading.readAll_bare_eq`). So the text may be read as the tokens that were
written, and these are a derivation of the program.
-/

namespace Scriptlet

namespace Reading

variable {σ : Type}

/-- The reading without the places of its tokens and diagnostics. -/
def unplaced (r : Reading σ) : Reading σ :=
  { r with
    rest := r.rest.map Token.unplaced
    eof := r.eof.unplaced
    diagnostics := r.diagnostics.map (Diagnostic.move fun _ => Pos.start) }

theorem alike_unplaced (r : Reading σ) : r.Alike (fun _ => Pos.start) .none (fun _ _ => True) r.unplaced := by
  refine ⟨rfl, rfl, rfl, ?_, (Nat.zero_add _).symm, (Nat.zero_add _).symm, trivial⟩
  exact Array.toList_map

/-- Without the places, reading to the end gives the same statements and notes as many diagnostics. -/
theorem readAll_unplaced (tr : Tracer σ) {r : Reading σ} (hr : r.Ready) :
    (r.unplaced.readAll tr).1.map Stmt.bare = (r.readAll tr).1.map Stmt.bare ∧
      (r.unplaced.readAll tr).2.diagnostics.size = (r.readAll tr).2.diagnostics.size := by
  have htr : Tracer.Alike (fun _ _ => True) tr tr := ⟨fun _ _ _ _ => trivial, fun _ _ _ _ => trivial⟩
  obtain ⟨hss, hs⟩ := r.alike_unplaced.readAll htr hr
  refine ⟨?_, ?_⟩
  · rw [hss, List.map_map]
    exact List.map_congr_left fun x _ => Stmt.bare_move _ x
  · rw [← Array.length_toList, hs.diagnostics, ← Array.length_toList]
    exact List.length_map _

/-- Readings that are the same without the places find the same statements and note as many diagnostics. -/
theorem readAll_bare_eq (tr : Tracer σ) {r r' : Reading σ} (hr : r.Ready) (hr' : r'.Ready) (h : r.unplaced = r'.unplaced) :
    (r.readAll tr).1.map Stmt.bare = (r'.readAll tr).1.map Stmt.bare ∧
      (r.readAll tr).2.diagnostics.size = (r'.readAll tr).2.diagnostics.size := by
  have hu := readAll_unplaced tr hr
  have hu' := readAll_unplaced tr hr'
  rw [h] at hu
  exact ⟨hu.1.symm.trans hu'.1, hu.2.symm.trans hu'.2⟩

end Reading

/-- A text is read like tokens that are those of the text at other places. -/
theorem parse_of_unplaced {text : String} {ts : List Token} {ss : List Stmt}
    (htokens : (Lexer.ofText text).tokens.map Token.unplaced = ts.map Token.unplaced)
    (hts : ∀ {r : Reading Unit}, r.Ready → ∀ n, (Grammar.program Tracer.silent n).Gives (r.on ts) ss (r.on [])) :
    (parse text).diagnostics = [] ∧ (parse text).program.bare = ⟨ss.map Stmt.bare⟩ := by
  let read : Reading Unit := (Lexer.ofText text).reading ()
  have hkind : ∀ t ∈ ts, t.kind ≠ .eof := by
    intro t ht
    have hmem : t.unplaced ∈ ts.map Token.unplaced := List.mem_map_of_mem ht
    rw [← htokens] at hmem
    obtain ⟨u, hu, heq⟩ := List.mem_map.mp hmem
    rw [show t.kind = u.kind from (congrArg Token.kind heq).symm]
    exact (Lexer.ofText text).kind_ne_eof u hu
  have hready : (read.on ts).Ready := ⟨rfl, hkind⟩
  have hsame : read.unplaced = (read.on ts).unplaced := by
    unfold Reading.unplaced
    rw [show read.rest.map Token.unplaced = (read.on ts).rest.map Token.unplaced from htokens]
    rfl
  have hread : (read.on ts).readAll Tracer.silent = (ss, read.on []) :=
    hts hready _ _ (Reading.readAll_spec Tracer.silent hready)
  obtain ⟨hss, hd⟩ := Reading.readAll_bare_eq Tracer.silent (Lexer.reading_ready _ ()) hready hsame
  rw [hread] at hss hd
  refine ⟨List.eq_nil_of_length_eq_zero ?_, congrArg Program.mk hss⟩
  rw [← show (read.readAll Tracer.silent).2.diagnostics.toList = (parse text).diagnostics from rfl, Array.length_toList, hd]
  rfl

/-- The text of a program has the tokens of the program, but for their places. -/
theorem Program.tokens_text {p : Program} (h : p.Writable) :
    (Lexer.ofText p.text).tokens.map Token.unplaced = p.spell.map Token.unplaced :=
  (cuts_intercalate (p.spell_separable h)).tokens Pos.start

/-- A program that is written is read back as it was, and without a diagnostic. -/
theorem parse_text {p : Program} (h : p.Writable) :
    (parse p.text).diagnostics = [] ∧ (parse p.text).program.bare = p.bare := by
  obtain ⟨q, hq, hbare⟩ := p.spell_spelled h
  rw [← hbare]
  exact parse_of_unplaced (p.tokens_text h) fun hr n => Stmt.SpelledAll.program_gives hq hr n

/-- A function that multiplies its argument by the number after it, and a call of it. -/
def risingProgram : Program where
  statements :=
    let name (s : String) : Identifier := ⟨⟨.ident, s, Pos.start⟩, s⟩
    let int (s : String) (n : Int64) : Expr := .int ⟨.int, s, Pos.start⟩ n
    [ .bind ⟨.kwLet, "let", Pos.start⟩ (name "f")
        (.function ⟨.kwFn, "fn", Pos.start⟩ [name "a"]
          ⟨Kind.lbrace.written,
            [.ret ⟨.kwReturn, "return", Pos.start⟩
              (.binary Kind.star.written (.ident (name "a")) "*"
                (.binary Kind.plus.written (.ident (name "a")) "+" (int "1" 1)))]⟩),
      .expr default (.call Kind.lparen.written (.ident (name "f")) [int "2" 2]) ]

theorem parse_text_rising :
    risingProgram.text = "let f = fn ( a ) \x7b return a * ( a + 1 ) ; \x7d ; f ( 2 ) ;" ∧ risingProgram.Writable ∧
      (parse risingProgram.text).diagnostics = [] ∧ (parse risingProgram.text).program.bare = risingProgram.bare := by
  have htext : risingProgram.text = "let f = fn ( a ) \x7b return a * ( a + 1 ) ; \x7d ; f ( 2 ) ;" := by decide +kernel
  have hf : Identifier.Writable ⟨⟨.ident, "f", Pos.start⟩, "f"⟩ :=
    ⟨⟨rfl, rfl⟩, by decide, List.all_eq_true.mp rfl, by decide⟩
  have ha : Identifier.Writable ⟨⟨.ident, "a", Pos.start⟩, "a"⟩ :=
    ⟨⟨rfl, rfl⟩, by decide, List.all_eq_true.mp rfl, by decide⟩
  have h : risingProgram.Writable := by
    simp only [risingProgram, Program.Writable, Stmt.AllWritable, Stmt.Writable, Block.Writable, Expr.Writable,
      Expr.AllWritable, List.forall_mem_singleton, hf, ha, Token.Is]
    decide +kernel
  exact ⟨htext, h, parse_text h⟩

end Scriptlet
