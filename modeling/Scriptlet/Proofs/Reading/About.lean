import Scriptlet.Proofs.Reading.Limit

/-!
# What a diagnostic is about

Every diagnostic is about a token of the text, or about its end: it stands where the token stands, and names the kind of the token or
quotes its literal (`Diagnostic.About`). The token is one that is still left when the diagnostic is noted (`aboutLaw`), so nothing that
is noted while a text is read is about anything else (`parse_about`).
-/

namespace Scriptlet

variable {σ : Type}

/-- A diagnostic is about a token: it names its kind or quotes its literal, at its place. -/
structure Diagnostic.About (d : Diagnostic) (t : Token) : Prop where
  pos : d.pos = t.pos
  problem : match d.problem with
    | .unexpected _ got => t.kind = got
    | .noOperand kind => t.kind = kind
    | .badInteger literal => t.kind = .int ∧ t.literal = literal
    | .badFloat literal => t.kind = .float ∧ t.literal = literal

namespace Reading

/-- The tokens that are left, with the end of the text. -/
def ahead (r : Reading σ) : List Token := r.rest ++ [r.eof]

theorem current_mem_ahead (r : Reading σ) : r.current ∈ r.ahead := by
  unfold current ahead
  cases r.rest <;> simp

theorem ahead_subset {r s : Reading σ} (heof : s.eof = r.eof) (hrest : s.rest <:+ r.rest) : s.ahead ⊆ r.ahead := by
  unfold ahead
  rw [heof]
  exact List.append_subset.mpr
    ⟨fun t ht => List.mem_append_left _ (hrest.subset ht), List.subset_append_right _ _⟩

theorem following_mem_ahead (r : Reading σ) : r.following ∈ r.ahead :=
  ahead_subset (r := r) (s := r.advance) rfl (List.tail_suffix r.rest) r.advance.current_mem_ahead

/-- What a rule notes is about a token ahead. -/
theorem Complains.about {r : Reading σ} {d : Diagnostic} (h : r.Complains d) : ∃ t ∈ r.ahead, d.About t := by
  cases h with
  | current h =>
    refine ⟨r.current, r.current_mem_ahead, ?_⟩
    cases h with
    | noOperand => exact ⟨rfl, rfl⟩
    | badInteger hk _ => exact ⟨rfl, hk, rfl⟩
    | badFloat hk _ => exact ⟨rfl, hk, rfl⟩
  | unexpected _ => exact ⟨r.following, r.following_mem_ahead, rfl, rfl⟩

/-- Tokens are taken off the front, and what is noted is about one that was ahead. -/
structure NotesAbout (r s : Reading σ) : Prop where
  eof : s.eof = r.eof
  rest : s.rest <:+ r.rest
  about : ∀ d ∈ s.diagnostics.toList, d ∈ r.diagnostics.toList ∨ ∃ t ∈ r.ahead, d.About t

namespace NotesAbout

theorem refl (r : Reading σ) : r.NotesAbout r := ⟨rfl, List.suffix_refl _, fun _ => Or.inl⟩

theorem trans {r s t : Reading σ} (h : r.NotesAbout s) (h' : s.NotesAbout t) : r.NotesAbout t := by
  refine ⟨h'.eof.trans h.eof, h'.rest.trans h.rest, fun d hd => ?_⟩
  obtain hd | ⟨u, hu, hdu⟩ := h'.about d hd
  · exact h.about d hd
  · exact Or.inr ⟨u, ahead_subset h.eof h.rest hu, hdu⟩

theorem report {r : Reading σ} {d : Diagnostic} (h : ∃ t ∈ r.ahead, d.About t) : r.NotesAbout (r.report d) := by
  refine ⟨rfl, List.suffix_refl _, fun e he => ?_⟩
  rw [Reading.report, Array.toList_push, List.mem_append, List.mem_singleton] at he
  obtain he | rfl := he
  · exact Or.inl he
  · exact Or.inr h

/-- A block that is not closed is about the end of the text. -/
theorem closeBlock (r : Reading σ) : r.NotesAbout r.closeBlock := by
  by_cases hk : r.current.kind = .eof
  · have hnote := report (r := r) (d := ⟨.unexpected .rbrace .eof, r.current.pos⟩) ⟨r.current, r.current_mem_ahead, rfl, hk⟩
    rw [closeBlock_of_eof hk]
    exact ⟨rfl, List.suffix_refl _, hnote.about⟩
  · rw [closeBlock_of_ne_eof hk]
    exact ⟨rfl, List.suffix_refl _, fun _ => Or.inl⟩

end NotesAbout

end Reading

/-- Every rule takes tokens off the front and notes what is about one of them. -/
def aboutLaw (tr : Tracer σ) : Law tr where
  Holds _ r s := r.NotesAbout s
  refl := .refl
  trans := .trans
  advance r := ⟨rfl, List.tail_suffix _, fun _ => Or.inl⟩
  report h := .report h.about
  announced _ h := ⟨h.eof, h.rest, h.about⟩
  resync h _ := h.trans ⟨rfl, Reading.resyncTokens_suffix _ _, fun _ => Or.inl⟩
  block {r s} h _ := by
    have hopen : r.NotesAbout r.openBlock := ⟨rfl, List.tail_suffix _, fun _ => Or.inl⟩
    exact (hopen.trans h).trans (.closeBlock s)

/-- Every diagnostic of a text is about one of its tokens, or about its end. -/
theorem parse_about (text : String) :
    ∀ d ∈ (parse text).diagnostics, ∃ t ∈ (Lexer.ofText text).tokens ++ [(Lexer.ofText text).finish.eof], d.About t := by
  intro d hd
  have hread := Reading.readAll_spec Tracer.silent (Lexer.reading_ready (Lexer.ofText text) ())
  have hnotes : Reading.NotesAbout _ _ := Grammar.program_obeys (aboutLaw Tracer.silent) _ _ _ _ hread
  exact (hnotes.about d hd).resolve_left (List.not_mem_nil (a := d))

end Scriptlet
