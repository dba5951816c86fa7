import Scriptlet.Proofs.Reading.Limit
import Scriptlet.Proofs.Reading.Pairing

/-!
# Reading two texts that are alike

Two readings are alike if the second one has the same tokens at other places: the places are given by a function, and a tracer watches
each of the two, in states that are related. What has been noted is the same, but for what was noted before the second reading started.
From readings that are alike every rule leads to readings that are alike (`Reading.alikePairing`), and so does reading to the end
(`Reading.Alike.readAll`).

So what is read from a text depends on the kinds and the literals of its tokens alone, and not on a tracer. Nor does it depend on the
limit, once that is large enough for reading to end (`Grammar.program_mono`).
-/

namespace Scriptlet

variable {σ τ α β : Type}

/-- What has been noted up to some place in a text. -/
structure Notes where
  diagnostics : List Diagnostic
  dropped : Nat
  unclosed : Nat

/-- Nothing has been noted. -/
def Notes.none : Notes := ⟨[], 0, 0⟩

/-- What has been noted up to a reading. -/
def Reading.notes (r : Reading σ) : Notes := ⟨r.diagnostics.toList, r.dropped, r.unclosed⟩

/-- Two readings with the same tokens at other places, watched by tracers in related states; before the second one, something has been
noted already. -/
structure Reading.Alike (g : Pos → Pos) (before : Notes) (T : σ → τ → Prop) (r : Reading σ) (r' : Reading τ) : Prop where
  rest : r'.rest = r.rest.map (Token.move g)
  eof : r'.eof = r.eof.move g
  depth : r'.depth = r.depth
  diagnostics : r'.diagnostics.toList = before.diagnostics ++ r.diagnostics.toList.map (Diagnostic.move g)
  dropped : r'.dropped = before.dropped + r.dropped
  unclosed : r'.unclosed = before.unclosed + r.unclosed
  trace : T r.trace r'.trace

/-- Two tracers that keep related states related. -/
structure Tracer.Alike (T : σ → τ → Prop) (tr : Tracer σ) (tr' : Tracer τ) : Prop where
  enter (name : String) {x : σ} {y : τ} : T x y → T (tr.enter name x) (tr'.enter name y)
  leave (name : String) {x : σ} {y : τ} : T x y → T (tr.leave name x) (tr'.leave name y)

/-- A tracer keeps equal states equal. -/
theorem Tracer.alike_refl (tr : Tracer σ) : Tracer.Alike Eq tr tr :=
  ⟨fun name _ _ h => congrArg (tr.enter name) h, fun name _ _ h => congrArg (tr.leave name) h⟩

namespace Reading

theorem alike_refl (r : Reading σ) : r.Alike id .none Eq r := by
  refine ⟨(List.map_id _).symm, rfl, rfl, ?_, (Nat.zero_add _).symm, (Nat.zero_add _).symm, rfl⟩
  exact (List.map_id _).symm

/-- Readings are the same if no place is another one and nothing has been noted before. -/
theorem Alike.eq {r r' : Reading σ} (h : r.Alike id .none Eq r') : r' = r := by
  obtain ⟨hrest, heof, hdepth, hdiag, hdropped, hunclosed, htrace⟩ := h
  obtain ⟨rest, eof, depth, diagnostics, dropped, unclosed, trace⟩ := r
  obtain ⟨rest', eof', depth', diagnostics', dropped', unclosed', trace'⟩ := r'
  obtain rfl : rest' = rest := hrest.trans (List.map_id _)
  obtain rfl : eof' = eof := heof
  obtain rfl : depth' = depth := hdepth
  obtain rfl : diagnostics' = diagnostics := Array.toList_inj.mp (hdiag.trans (List.map_id _))
  obtain rfl : dropped' = dropped := hdropped.trans (Nat.zero_add _)
  obtain rfl : unclosed' = unclosed := hunclosed.trans (Nat.zero_add _)
  obtain rfl : trace = trace' := htrace
  rfl

end Reading

namespace Reading.Alike

variable {g : Pos → Pos} {before : Notes} {T : σ → τ → Prop} {r : Reading σ} {r' : Reading τ} (h : r.Alike g before T r')

include h

theorem current : r'.current = r.current.move g := by
  unfold Reading.current
  rw [h.rest, h.eof]
  cases r.rest <;> rfl

theorem advance : r.advance.Alike g before T r'.advance := by
  refine ⟨?_, h.eof, h.depth, h.diagnostics, h.dropped, h.unclosed, h.trace⟩
  show r'.rest.tail = r.rest.tail.map _
  rw [h.rest, List.map_tail]

theorem report (problem : Problem) (pos : Pos) :
    (r.report ⟨problem, pos⟩).Alike g before T (r'.report ⟨problem, g pos⟩) := by
  refine ⟨h.rest, h.eof, h.depth, ?_, h.dropped, h.unclosed, h.trace⟩
  show (r'.diagnostics.push _).toList = _ ++ (r.diagnostics.push _).toList.map _
  rw [Array.toList_push, Array.toList_push, List.map_append, ← List.append_assoc, h.diagnostics]
  rfl

theorem retrace {x : σ} {y : τ} (hxy : T x y) : Reading.Alike g before T { r with trace := x } { r' with trace := y } :=
  ⟨h.rest, h.eof, h.depth, h.diagnostics, h.dropped, h.unclosed, hxy⟩

omit h in
theorem resyncTokens_map (inBlock : Bool) (ts : List Token) :
    resyncTokens inBlock (ts.map (Token.move g)) = (resyncTokens inBlock ts).map (Token.move g) := by
  fun_induction resyncTokens inBlock ts with
  | case1 t u rest hk =>
    simp only [List.map_cons]
    rw [resyncTokens]
    exact if_pos hk
  | case2 t u rest hk ih =>
    simp only [List.map_cons] at ih ⊢
    rw [resyncTokens]
    exact (if_neg hk).trans ih
  | case3 ts hts =>
    match ts, hts with
    | [], _ => rfl
    | [t], _ => rfl
    | t :: u :: rest, hts => exact absurd rfl (hts t u rest)

theorem resync : r.resync.Alike g before T r'.resync := by
  refine ⟨?_, h.eof, h.depth, h.diagnostics, ?_, h.unclosed, h.trace⟩
  · show resyncTokens _ _ = (resyncTokens _ _).map _
    rw [h.rest, h.depth, resyncTokens_map]
  · show r'.dropped + 1 = before.dropped + (r.dropped + 1)
    rw [h.dropped, Nat.add_assoc]

theorem openBlock : r.openBlock.Alike g before T r'.openBlock := by
  have ha := h.advance
  refine ⟨ha.rest, h.eof, ?_, h.diagnostics, h.dropped, h.unclosed, h.trace⟩
  show r'.depth + 1 = r.depth + 1
  rw [h.depth]

theorem closeBlock : r.closeBlock.Alike g before T r'.closeBlock := by
  have hkind : r'.current.kind = r.current.kind := by
    rw [h.current]
    rfl
  have hd : r'.depth - 1 = r.depth - 1 := by rw [h.depth]
  by_cases hk : r.current.kind = .eof
  · have hn := h.report (.unexpected .rbrace .eof) r.current.pos
    rw [Reading.closeBlock_of_eof hk, Reading.closeBlock_of_eof (hkind.trans hk), h.current]
    refine ⟨h.rest, h.eof, hd, hn.diagnostics, h.dropped, ?_, h.trace⟩
    show r'.unclosed + 1 = before.unclosed + (r.unclosed + 1)
    rw [h.unclosed, Nat.add_assoc]
  · rw [Reading.closeBlock_of_ne_eof hk, Reading.closeBlock_of_ne_eof (hkind ▸ hk)]
    exact ⟨h.rest, h.eof, hd, h.diagnostics, h.dropped, h.unclosed, h.trace⟩

/-- Readings that are alike are ready at the same time. -/
theorem ready (hr : r.Ready) : r'.Ready := by
  refine ⟨?_, ?_⟩
  · rw [h.eof]
    exact hr.eof
  · rw [h.rest, List.forall_mem_map]
    exact hr.rest

end Reading.Alike

/-- Readings that are alike, side by side. -/
def Reading.alikePairing (g : Pos → Pos) (before : Notes) {T : σ → τ → Prop} {tr : Tracer σ} {tr' : Tracer τ}
    (ht : Tracer.Alike T tr tr') : Pairing tr tr' where
  place := g
  Holds := Reading.Alike g before T
  current h := h.current
  advance h _ _ := h.advance
  report problem pos h := h.report problem pos
  enter name h := h.retrace (ht.enter name h.trace)
  leave name h := h.retrace (ht.leave name h.trace)
  resync h := h.resync
  openBlock h _ := h.openBlock
  closeBlock h _ _ := ⟨h.closeBlock, h.closeBlock.advance⟩

variable {g : Pos → Pos} {before : Notes} {T : σ → τ → Prop} {tr : Tracer σ} {tr' : Tracer τ}

namespace Grammar

/-- The statements of two programs whose tokens are alike. -/
theorem program_alike (ht : Tracer.Alike T tr tr') {n n' : Nat} (hn : n ≤ n') {r : Reading σ} {r' : Reading τ}
    (hr : r.Alike g before T r') :
    Step.Pairs (fun _ => Reading.Alike g before T) (List.map (Stmt.move g)) (program tr n) r (program tr' n') r' := by
  induction n generalizing n' r r' with
  | zero => exact nofun
  | succ n ih =>
    obtain ⟨n', rfl⟩ := Nat.exists_eq_add_of_le' (Nat.lt_of_lt_of_le (Nat.succ_pos n) hn)
    have hn := Nat.le_of_succ_le_succ hn
    intro ss t hx
    rw [program_apply] at hx
    rw [program_apply, hr.current, Token.kind_move]
    split at hx
    · next hk =>
      cases hx
      rw [if_pos hk]
      exact ⟨r', rfl, hr⟩
    · next hk =>
      rw [if_neg hk]
      rcases hp : statement tr n r with _ | ⟨x?, s⟩
      · rw [hp] at hx
        cases hx
      · obtain ⟨s', hp', hs⟩ := (rulesPair (Reading.alikePairing g before ht) hn).statement r r' hr x? s hp
        rw [hp] at hx
        rw [show statement tr' n' r' = _ from hp']
        cases x? with
        | none =>
          have hs : s.Alike g before T s' := hs
          exact ih hn hs.resync.advance ss t hx
        | some x =>
          have hs : s.Alike g before T s' := hs.1
          obtain ⟨⟨ss', u⟩, hi, heq⟩ := Option.map_eq_some_iff.mp hx
          cases heq
          obtain ⟨u', hi', hu⟩ := ih hn hs.advance ss' u hi
          simp only [Option.map_some, hi']
          exact ⟨u', rfl, hu⟩

/-- With a larger limit the same statements are read. -/
theorem program_mono {n n' : Nat} (hn : n ≤ n') {r s : Reading σ} {ss : List Stmt} (h : program tr n r = some (ss, s)) :
    program tr n' r = some (ss, s) := by
  obtain ⟨s', hs', hs⟩ := program_alike tr.alike_refl hn r.alike_refl ss s h
  rw [hs', hs.eq, Stmt.map_move_id]

end Grammar

/-- Reading to the end, from readings that are alike. -/
theorem Reading.Alike.readAll {r : Reading σ} {r' : Reading τ} (h : r.Alike g before T r') (ht : Tracer.Alike T tr tr')
    (hr : r.Ready) :
    (r'.readAll tr').1 = (r.readAll tr).1.map (Stmt.move g) ∧ (r.readAll tr).2.Alike g before T (r'.readAll tr').2 := by
  have hlimit : r'.limit = r.limit := by
    unfold Reading.limit
    rw [h.rest, List.length_map]
  obtain ⟨s', hs', hs⟩ := Grammar.program_alike ht (Nat.le_refl r.limit) h _ _ (Reading.readAll_spec tr hr)
  have hread := Reading.readAll_spec tr' (h.ready hr)
  rw [hlimit, hs', Option.some_inj] at hread
  rw [← hread]
  exact ⟨rfl, hs⟩

end Scriptlet
