import Scriptlet.Proofs.Lists
import Scriptlet.Proofs.Reading.About
import Scriptlet.Proofs.Token.Place

/-!
# The diagnostics of a text

A rule that finds nothing notes one diagnostic for that, and no rule that it is part of notes another one. So there are as many
diagnostics as statements that are dropped and blocks that are not closed (`parse_accounted`). The numbers of these are not only what is
counted on the way: they are how often on the way, at whatever depth, a statement was tried in vain and skipped, and how often a block was
left at the end of the text (`Reading.Loses`).

The diagnostics come in the order of their places (`parse_ordered`). A rule that refuses has noted one about the current token or about
the one after it. Skipping may stop in front of that token, so that another diagnostic stands at the same place, but nothing is noted
about an earlier one any more: no diagnostic is behind the token that comes next (`Reading.NotedUpTo`), which is a course.
-/

namespace Scriptlet

variable {σ α : Type}

/-! ## How many there are -/

namespace Reading

variable {tr : Tracer σ} {d u : Nat} {r s : Reading σ}

end Reading

namespace Reading

/-- The diagnostics so far are in order, and none of them is behind a place. The tokens ahead are in order as well. -/
structure NotedUpTo (p : Pos) (r : Reading σ) : Prop where
  ready : r.Ready
  rising : Rising r.ahead
  ordered : r.diagnostics.toList.Pairwise fun d e => d.pos ≤ e.pos
  le : ∀ d ∈ r.diagnostics.toList, d.pos ≤ p

variable {p q : Pos} {r s : Reading σ}

/-- No token ahead stands before the current one. -/
theorem current_pos_le (h : Rising r.ahead) : ∀ t ∈ r.ahead, r.current.pos ≤ t.pos := by
  obtain ⟨ts, hts⟩ : ∃ ts, r.ahead = r.current :: ts := by
    unfold ahead current
    cases r.rest with
    | nil => exact ⟨[], rfl⟩
    | cons t ts => exact ⟨ts ++ [r.eof], rfl⟩
  rw [hts] at h ⊢
  rw [List.forall_mem_cons]
  exact ⟨le_rfl, fun t ht => (List.rel_of_pairwise_cons h ht).le⟩

namespace NotedUpTo

theorem mono (h : r.NotedUpTo p) (hpq : p ≤ q) : r.NotedUpTo q :=
  ⟨h.ready, h.rising, h.ordered, fun d hd => (h.le d hd).trans hpq⟩

/-- Where tokens may have been taken off the front, and nothing has been noted. -/
theorem of_suffix (h : r.NotedUpTo p) (heof : s.eof = r.eof) (hrest : s.rest <:+ r.rest) (hd : s.diagnostics = r.diagnostics) :
    s.NotedUpTo p := by
  refine ⟨⟨heof ▸ h.ready.eof, fun t ht => h.ready.rest t (hrest.subset ht)⟩, ?_, hd ▸ h.ordered, hd ▸ h.le⟩
  unfold ahead
  rw [heof]
  exact h.rising.sublist (hrest.sublist.append_right [r.eof])

theorem advance (h : r.NotedUpTo p) : r.advance.NotedUpTo p := h.of_suffix rfl (List.tail_suffix r.rest) rfl

/-- Only the tokens and the diagnostics matter. -/
theorem of_eq (h : r.NotedUpTo p) (heof : s.eof = r.eof) (hrest : s.rest = r.rest) (hd : s.diagnostics = r.diagnostics) :
    s.NotedUpTo p :=
  h.of_suffix heof (hrest ▸ List.suffix_refl r.rest) hd

/-- A diagnostic is noted at the place that the others go up to. -/
theorem report {d : Diagnostic} (h : r.NotedUpTo p) (hd : d.pos = p) : (r.report d).NotedUpTo p := by
  refine ⟨⟨h.ready.eof, h.ready.rest⟩, h.rising, ?_, ?_⟩
  · simp only [Reading.report, Array.toList_push, List.pairwise_append, List.mem_singleton]
    refine ⟨h.ordered, List.pairwise_singleton _ _, ?_⟩
    rintro e he f rfl
    rw [hd]
    exact h.le e he
  · intro e he
    simp only [Reading.report, Array.toList_push, List.mem_append, List.mem_singleton] at he
    obtain he | rfl := he
    · exact h.le e he
    · exact hd.le

/-- From the first token of a phrase on, the token ahead is no earlier. -/
theorem following (h : r.NotedUpTo r.current.pos) : r.NotedUpTo r.following.pos :=
  h.mono (current_pos_le h.rising _ r.following_mem_ahead)

/-- At the end of the text the token ahead is the current one. -/
theorem closeBlock (h : r.NotedUpTo r.following.pos) : r.closeBlock.NotedUpTo r.closeBlock.following.pos := by
  by_cases hk : r.current.kind = .eof
  · have hpos : r.current.pos = r.following.pos := by
      unfold current Reading.following
      rw [h.ready.rest_eq_nil hk]
      rfl
    have hnote := h.report (d := ⟨.unexpected .rbrace .eof, r.current.pos⟩) hpos
    rw [closeBlock_of_eof hk]
    exact hnote.of_eq rfl rfl rfl
  · rw [closeBlock_of_ne_eof hk]
    exact h.of_eq rfl rfl rfl

/-- Skipping the rest of a statement leaves no earlier token ahead. -/
theorem resync (h : r.NotedUpTo r.following.pos) : r.resync.NotedUpTo r.resync.following.pos := by
  have hskip : r.resync.rest <:+ r.rest := resyncTokens_suffix _ _
  have hmem : r.resync.following ∈ r.advance.ahead :=
    ahead_subset (r := r.advance) (s := r.resync.advance) rfl (List.suffix_tail hskip) r.resync.advance.current_mem_ahead
  exact (h.of_suffix (s := r.resync) rfl hskip rfl).mono (current_pos_le h.advance.rising _ hmem)

end NotedUpTo

/-- No diagnostic is behind the token that comes next, inside a block as well as outside. -/
def notedCourse (tr : Tracer σ) : Course tr where
  Context := Unit
  Starts _ r := r.NotedUpTo r.current.pos
  Stops _ r := r.NotedUpTo r.following.pos
  Closes _ r := r.NotedUpTo r.following.pos
  Refuses _ r := r.NotedUpTo r.following.pos
  token h _ := h.following
  advance h := h.advance
  reject h hd := (h.report (by cases hd <;> rfl)).following
  unexpected h _ := h.report rfl
  announce _ h := ⟨(), h.of_eq rfl rfl rfl, fun h => h.of_eq rfl rfl rfl, fun _ h => h.of_eq rfl rfl rfl,
    fun _ h => h.of_eq rfl rfl rfl⟩
  block h _ := ⟨(), h.following.of_suffix rfl (List.tail_suffix _) rfl, fun _ hs _ => hs.closeBlock⟩
  close h _ := h.following
  closeEarly h _ _ := h.resync
  resume h _ _ := h.resync.advance

end Reading

/-- The diagnostics of a text come in the order of their places, and each of them is about a token of the text or about its end: it
stands where that token stands, and names its kind or quotes its literal. -/
theorem parse_ordered (text : String) :
    ((parse text).diagnostics.Pairwise fun d e => d.pos ≤ e.pos) ∧
      ∀ d ∈ (parse text).diagnostics, ∃ t ∈ (Lexer.ofText text).tokens ++ [(Lexer.ofText text).finish.eof], d.About t := by
  refine ⟨?_, parse_about text⟩
  have hready := Lexer.reading_ready (Lexer.ofText text) ()
  have hstart : ((Lexer.ofText text).reading ()).NotedUpTo ((Lexer.ofText text).reading ()).current.pos :=
    ⟨hready, (Lexer.ofText text).rising, List.Pairwise.nil, fun _ hd => absurd hd List.not_mem_nil⟩
  have hread := Reading.readAll_spec Tracer.silent hready
  exact (Grammar.program_leads (C := Reading.notedCourse Tracer.silent) (c := ()) _
    (fun _ h _ => h.resync.advance) hstart _ _ hread).ordered

end Scriptlet
