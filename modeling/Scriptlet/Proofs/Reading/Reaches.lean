import Scriptlet.Proofs.Reading.Law

/-!
# Where reading leads

`r.Reaches owed s` says what every rule keeps on the way from `r` to `s`: the end of the text and the number of open blocks are
the same, tokens are only taken off the front, diagnostics are only added at the end, and the number of diagnostics added is the
number of statements dropped and blocks left open, and `owed` more. A rule that finds its phrase owes nothing and one that
refuses owes one diagnostic (`reachesLaw`), which is settled when the statement it belongs to is dropped.

A reading is `Ready` if its end is of the kind `eof` and no other token is. Then moving on from a token that is not the end takes
a token off, which is what keeps the rules within their limit.
-/

namespace Scriptlet

variable {σ α : Type}

namespace Reading

/-- What the rules keep on the way from one reading to another. -/
structure Reaches (owed : Nat) (r s : Reading σ) : Prop where
  eof : s.eof = r.eof
  depth : s.depth = r.depth
  rest : s.rest <:+ r.rest
  diagnostics : r.diagnostics.toList <+: s.diagnostics.toList
  dropped : r.dropped ≤ s.dropped
  unclosed : r.unclosed ≤ s.unclosed
  balance : s.diagnostics.size + r.dropped + r.unclosed = r.diagnostics.size + s.dropped + s.unclosed + owed

namespace Reaches

theorem refl (r : Reading σ) : r.Reaches 0 r :=
  ⟨rfl, rfl, List.suffix_refl _, List.prefix_refl _, Nat.le_refl _, Nat.le_refl _, rfl⟩

theorem trans {m n : Nat} {r s t : Reading σ} (h : r.Reaches m s) (h' : s.Reaches n t) : r.Reaches (m + n) t := by
  refine ⟨h'.eof.trans h.eof, h'.depth.trans h.depth, h'.rest.trans h.rest, h.diagnostics.trans h'.diagnostics,
    Nat.le_trans h.dropped h'.dropped, Nat.le_trans h.unclosed h'.unclosed, ?_⟩
  have e := h.balance
  have e' := h'.balance
  omega

theorem advance (r : Reading σ) : r.Reaches 0 r.advance :=
  ⟨rfl, rfl, List.tail_suffix _, List.prefix_refl _, Nat.le_refl _, Nat.le_refl _, rfl⟩

theorem report (r : Reading σ) (d : Diagnostic) : r.Reaches 1 (r.report d) := by
  refine ⟨rfl, rfl, List.suffix_refl _, ?_, Nat.le_refl _, Nat.le_refl _, ?_⟩
  · simp only [Reading.report, Array.toList_push]
    exact List.prefix_append _ _
  · simp only [Reading.report, Array.size_push]
    omega

/-- The diagnostics can only become more. -/
theorem size_le {owed : Nat} {r s : Reading σ} (h : r.Reaches owed s) : r.diagnostics.size ≤ s.diagnostics.size := by
  rw [← Array.length_toList, ← Array.length_toList]
  exact h.diagnostics.length_le

/-- A refusal adds at least one diagnostic. -/
theorem size_lt {r s : Reading σ} (h : r.Reaches 1 s) : r.diagnostics.size < s.diagnostics.size := by
  have e := h.balance
  have hd := h.dropped
  have hu := h.unclosed
  omega

end Reaches

/-- Skipping takes tokens off the front. -/
theorem resyncTokens_suffix (inBlock : Bool) (ts : List Token) : resyncTokens inBlock ts <:+ ts := by
  fun_induction resyncTokens inBlock ts with
  | case1 t u rest h => exact List.suffix_refl _
  | case2 t u rest h ih => exact ih.trans (List.suffix_cons _ _)
  | case3 ts h => exact List.suffix_refl _

/-- Dropping a statement settles the diagnostic that its refusal owes. -/
theorem Reaches.resync {r s : Reading σ} (h : r.Reaches 1 s) : r.Reaches 0 s.resync := by
  have e := h.balance
  refine ⟨h.eof, h.depth, (resyncTokens_suffix _ _).trans h.rest, h.diagnostics, ?_, h.unclosed, ?_⟩
  · exact Nat.le_succ_of_le h.dropped
  · simp only [Reading.resync]
    omega

/-- A block is left as deep as it was entered, and one that is not closed has its own diagnostic. -/
theorem Reaches.block {r s : Reading σ} (h : r.openBlock.Reaches 0 s) : r.Reaches 0 s.closeBlock := by
  obtain ⟨heof, hdepth, hrest, hdiag, hdropped, hunclosed, e⟩ := h
  have hrest' : s.rest <:+ r.rest := hrest.trans (List.tail_suffix _)
  simp only [Reading.openBlock, Reading.advance] at heof hdepth hdiag hdropped hunclosed e
  unfold Reading.closeBlock
  simp only
  split
  · refine ⟨heof, ?_, hrest', ?_, hdropped, Nat.le_succ_of_le hunclosed, ?_⟩
    · simp only [Reading.report]
      omega
    · simp only [Reading.report, Array.toList_push]
      exact hdiag.trans (List.prefix_append _ _)
    · simp only [Reading.report, Array.size_push]
      omega
  · refine ⟨heof, ?_, hrest', hdiag, hdropped, hunclosed, e⟩
    show s.depth - 1 = r.depth
    omega

end Reading

/-- Every rule keeps what `Reaches` says, and owes one diagnostic exactly when it refuses. -/
def reachesLaw (tr : Tracer σ) : Law tr where
  Holds found r s := r.Reaches (if found then 0 else 1) s
  refl := .refl
  trans h h' := by simpa using h.trans h'
  advance := .advance
  report _ := .report _ _
  announced _ h := ⟨h.eof, h.depth, h.rest, h.diagnostics, h.dropped, h.unclosed, h.balance⟩
  resync h _ := .resync h
  block h _ := .block h

theorem Reading.depth_resync (r : Reading σ) : r.resync.depth = r.depth := rfl

/-- A statement is left as deep as it was started, found or not. -/
theorem Grammar.depth_statement {tr : Tracer σ} {n : Nat} {r s : Reading σ} {x? : Option Stmt}
    (h : statement tr n r = some (x?, s)) : s.depth = r.depth :=
  ((rulesObey (reachesLaw tr) n).statement r x? s h).depth

/-! ## Moving on before the end -/

namespace Reading

/-- Only the end of the text is of the kind `eof`. -/
structure Ready (r : Reading σ) : Prop where
  eof : r.eof.kind = .eof
  rest : ∀ t ∈ r.rest, t.kind ≠ .eof

theorem Ready.reaches {owed : Nat} {r s : Reading σ} (hr : r.Ready) (h : r.Reaches owed s) : s.Ready :=
  ⟨by rw [h.eof]; exact hr.eof, fun t ht => hr.rest t (h.rest.subset ht)⟩

theorem Ready.advance {r : Reading σ} (hr : r.Ready) : r.advance.Ready := hr.reaches (.advance r)

/-- The tracer has no part in it. -/
theorem Ready.retrace {r : Reading σ} (hr : r.Ready) (trace : σ) : Reading.Ready { r with trace := trace } :=
  ⟨hr.eof, hr.rest⟩

/-- A current token that is not the end is the first one left. -/
theorem Ready.rest_eq {r : Reading σ} (hr : r.Ready) (hk : r.current.kind ≠ .eof) :
    r.rest = r.current :: r.rest.tail := by
  unfold current at hk ⊢
  cases hrest : r.rest with
  | nil => simp [hrest, hr.eof] at hk
  | cons t ts => rfl

/-- A token ahead that is not the end is the second one left. -/
theorem Ready.tail_eq {r : Reading σ} (hr : r.Ready) (hk : r.following.kind ≠ .eof) :
    r.rest.tail = r.following :: r.rest.tail.tail :=
  hr.advance.rest_eq hk

/-- The end of the text is the current token only if no token is left. -/
theorem Ready.rest_eq_nil {r : Reading σ} (hr : r.Ready) (hk : r.current.kind = .eof) : r.rest = [] := by
  unfold current at hk
  cases hrest : r.rest with
  | nil => rfl
  | cons t ts =>
    rw [hrest, List.headD_cons] at hk
    exact absurd hk (hr.rest t (by rw [hrest]; exact List.mem_cons_self))

end Reading

end Scriptlet
