import Scriptlet.Proofs.Reading.Alike
import Scriptlet.Proofs.Reading.Limit

/-!
# Reading comes to an end

Three loops go through the tokens: the one over the statements of a program, the one over the statements of a block, and the skipping of
a statement that is not read. Each is taken apart here into its rounds (`Loop`). A round reads at least one token more, or leaves its
loop, so there are never more rounds than tokens left, wherever a loop starts (`Loop.rounds_le`), and each loop comes to its end.

A whole text is read to its last token, outside of every block (`parse_finishes`). On the way every rule, whether it finds its phrase or
refuses, leaves as many blocks open as there were before it.
-/

namespace Scriptlet

variable {σ α : Type}

/-! ## Loops -/

/-- A loop over readings. -/
structure Loop (σ : Type) where
  /-- A round that another one follows. -/
  Round : Reading σ → Reading σ → Prop
  /-- The loop is left, from where its last round starts. -/
  Leaves : Reading σ → Reading σ → Prop

namespace Loop

/-- Rounds of a loop, one after the other. -/
inductive Rounds (L : Loop σ) : Nat → Reading σ → Reading σ → Prop where
  | none (r : Reading σ) : Rounds L 0 r r
  | more {k : Nat} {r s t : Reading σ} : L.Round r s → Rounds L k s t → Rounds L (k + 1) r t

/-- A loop is left after a number of rounds. -/
def Runs (L : Loop σ) (k : Nat) (r t : Reading σ) : Prop := ∃ s, L.Rounds k r s ∧ L.Leaves s t

/-- A loop is left, and after no more rounds than there are tokens left where it starts. -/
def Ends (L : Loop σ) (r t : Reading σ) : Prop := ∃ k, k ≤ r.rest.length ∧ L.Runs k r t

/-- Each round takes tokens off the front, at least one. -/
def ReadsOn (L : Loop σ) : Prop :=
  ∀ {r s : Reading σ}, r.Ready → L.Round r s → s.Ready ∧ s.rest <:+ r.rest ∧ s.rest.length < r.rest.length

variable {L : Loop σ}

theorem Runs.leave {r t : Reading σ} (h : L.Leaves r t) : L.Runs 0 r t := ⟨r, .none r, h⟩

theorem Runs.round {k : Nat} {r s t : Reading σ} (h : L.Round r s) (h' : L.Runs k s t) : L.Runs (k + 1) r t := by
  obtain ⟨u, hrounds, hleave⟩ := h'
  exact ⟨u, .more h hrounds, hleave⟩

/-- A loop whose rounds read on goes through no more rounds than there are tokens left. -/
theorem rounds_le (hL : L.ReadsOn) {k : Nat} {r s : Reading σ} (hr : r.Ready) (h : L.Rounds k r s) : k ≤ r.rest.length := by
  induction h with
  | none r => exact Nat.zero_le _
  | @more k r s t hround _ ih =>
    obtain ⟨hs, -, hlt⟩ := hL hr hround
    have hle := ih hs
    omega

theorem ends_of_runs (hL : L.ReadsOn) {r t : Reading σ} (hr : r.Ready) : (∃ k, L.Runs k r t) → L.Ends r t := by
  rintro ⟨k, s, hrounds, hleave⟩
  exact ⟨k, rounds_le hL hr hrounds, s, hrounds, hleave⟩

end Loop

namespace Grammar

variable (tr : Tracer σ)

/-- The statements of a program: each is read or skipped, and the next one starts at the token behind it, up to the end of the text. -/
inductive ProgramRound : Reading σ → Reading σ → Prop where
  | found {n : Nat} {x : Stmt} {r s : Reading σ} : r.current.kind ≠ .eof → statement tr n r = some (some x, s) →
      ProgramRound r s.advance
  | skipped {n : Nat} {r s : Reading σ} : r.current.kind ≠ .eof → statement tr n r = some (none, s) →
      ProgramRound r s.resync.advance

/-- The statements of a block, up to its closing brace or the end of the text. -/
inductive BlockRound : Reading σ → Reading σ → Prop where
  | found {n : Nat} {x : Stmt} {r s : Reading σ} : ¬(r.current.kind = .rbrace ∨ r.current.kind = .eof) →
      statement tr n r = some (some x, s) → BlockRound r s.advance
  | skipped {n : Nat} {r s : Reading σ} : ¬(r.current.kind = .rbrace ∨ r.current.kind = .eof) →
      statement tr n r = some (none, s) → s.resync.current.kind ≠ .rbrace → BlockRound r s.resync.advance

/-- A block is left at its end, or at the brace that the skipping of a statement stops at. -/
inductive BlockLeaves : Reading σ → Reading σ → Prop where
  | ended {r : Reading σ} : r.current.kind = .rbrace ∨ r.current.kind = .eof → BlockLeaves r r
  | skipped {n : Nat} {r s : Reading σ} : ¬(r.current.kind = .rbrace ∨ r.current.kind = .eof) →
      statement tr n r = some (none, s) → s.resync.current.kind = .rbrace → BlockLeaves r s.resync

/-- The loop over the statements of a program. -/
def programLoop : Loop σ := ⟨ProgramRound tr, fun r t => r.current.kind = .eof ∧ t = r⟩

/-- The loop over the statements of a block. -/
def blockLoop : Loop σ := ⟨BlockRound tr, BlockLeaves tr⟩

end Grammar

/-- Where the skipping of a statement stops: at its semicolon, at the end of the text or in front of it, and inside a block also at a
closing brace or in front of one. -/
def Reading.SkipStops (r : Reading σ) : Prop :=
  r.current.kind = .semicolon ∨ r.current.kind = .eof ∨ r.following.kind = .eof ∨
    0 < r.depth ∧ (r.current.kind = .rbrace ∨ r.following.kind = .rbrace)

/-- The loop that skips a statement, token by token; in the end the statement is counted. -/
def Reading.skipLoop : Loop σ where
  Round r s := ¬r.SkipStops ∧ s = r.advance
  Leaves r t := r.SkipStops ∧ t = { r with dropped := r.dropped + 1 }

/-- The loops of reading. -/
def Grammar.loops (tr : Tracer σ) : List (Loop σ) := [programLoop tr, blockLoop tr, Reading.skipLoop]

/-! ## Each round reads on -/

namespace Grammar

variable {tr : Tracer σ}

/-- Moving on behind a statement, read or skipped, leaves fewer tokens than there were before it. -/
theorem advance_reads {r s : Reading σ} (hr : r.Ready) (hk : r.current.kind ≠ .eof) (h : r.Reaches 0 s) :
    s.advance.Ready ∧ s.advance.rest <:+ r.rest ∧ s.advance.rest.length < r.rest.length := by
  have hb := advance_below hr hk (hr.reaches h) h.rest
  exact ⟨hb.ready, (List.tail_suffix s.rest).trans h.rest, hb.length_lt⟩

theorem statement_reads {n : Nat} {x? : Option Stmt} {r s : Reading σ} (hr : r.Ready) (hk : r.current.kind ≠ .eof)
    (h : statement tr n r = some (x?, s)) :
    let t := (if x?.isSome then s else s.resync).advance
    t.Ready ∧ t.rest <:+ r.rest ∧ t.rest.length < r.rest.length := by
  have hreach := (rulesObey (reachesLaw tr) n).statement r x? s h
  cases x? with
  | some x => exact advance_reads hr hk hreach
  | none => exact advance_reads hr hk (Reading.Reaches.resync hreach)

theorem programLoop_readsOn : (programLoop tr).ReadsOn := by
  intro r s hr h
  cases h with
  | found hk hs => exact statement_reads hr hk hs
  | skipped hk hs => exact statement_reads hr hk hs

theorem blockLoop_readsOn : (blockLoop tr).ReadsOn := by
  intro r s hr h
  cases h with
  | found hk hs => exact statement_reads hr (not_or.mp hk).2 hs
  | skipped hk hs _ => exact statement_reads hr (not_or.mp hk).2 hs

end Grammar

theorem Reading.skipLoop_readsOn : (skipLoop (σ := σ)).ReadsOn := by
  rintro r s hr ⟨hnot, rfl⟩
  have hk : r.current.kind ≠ .eof := fun hk => hnot (Or.inr (Or.inl hk))
  exact ⟨hr.advance, List.tail_suffix r.rest, (hr.below_advance hk).length_lt⟩

/-- Each round of each loop reads on. -/
theorem Grammar.loops_readOn (tr : Tracer σ) : ∀ L ∈ loops tr, L.ReadsOn := by
  intro L hL
  simp only [loops, List.mem_cons, List.not_mem_nil, or_false] at hL
  obtain rfl | rfl | rfl := hL
  · exact programLoop_readsOn
  · exact blockLoop_readsOn
  · exact Reading.skipLoop_readsOn

/-! ## What the loops lead to -/

namespace Grammar

variable {tr : Tracer σ}

/-- Reading the statements of a program is going through the rounds of its loop. -/
theorem program_runs {n : Nat} {ss : List Stmt} {r t : Reading σ} (h : program tr n r = some (ss, t)) :
    ∃ k, (programLoop tr).Runs k r t := by
  induction n generalizing r ss with
  | zero => simp [program] at h
  | succ n ih =>
    rw [program_apply] at h
    split at h
    · next hk =>
      cases h
      exact ⟨0, .leave ⟨hk, rfl⟩⟩
    · next hk =>
      rcases hs : statement tr n r with _ | ⟨_ | x, s⟩
      · simp [hs] at h
      · simp only [hs] at h
        obtain ⟨k, hrun⟩ := ih h
        exact ⟨k + 1, .round (.skipped hk hs) hrun⟩
      · simp only [hs, Option.map_eq_some_iff, Prod.mk.injEq] at h
        obtain ⟨y, hy, -, rfl⟩ := h
        obtain ⟨k, hrun⟩ := ih hy
        exact ⟨k + 1, .round (.found hk hs) hrun⟩

/-- So it is with the statements of a block. -/
theorem items_runs {n : Nat} {ss : List Stmt} {r t : Reading σ} (h : items tr n r = some (ss, t)) :
    ∃ k, (blockLoop tr).Runs k r t := by
  induction n generalizing r ss with
  | zero => simp [items] at h
  | succ n ih =>
    rw [items_apply] at h
    split at h
    · next hk =>
      cases h
      exact ⟨0, .leave (.ended hk)⟩
    · next hk =>
      rcases hs : statement tr n r with _ | ⟨_ | x, s⟩
      · simp [hs] at h
      · simp only [hs] at h
        split at h
        · next hstop =>
          cases h
          exact ⟨0, .leave (.skipped hk hs hstop)⟩
        · next hgo =>
          obtain ⟨k, hrun⟩ := ih h
          exact ⟨k + 1, .round (.skipped hk hs hgo) hrun⟩
      · simp only [hs, Option.map_eq_some_iff, Prod.mk.injEq] at h
        obtain ⟨y, hy, -, rfl⟩ := h
        obtain ⟨k, hrun⟩ := ih hy
        exact ⟨k + 1, .round (.found hk hs) hrun⟩

end Grammar

namespace Reading

/-- Skipping stops at once where its loop is left. -/
theorem resync_of_skipStops {r : Reading σ} (hr : r.Ready) (h : r.SkipStops) : r.resync = { r with dropped := r.dropped + 1 } := by
  unfold resync
  congr 1
  match hrest : r.rest with
  | [] => rfl
  | [t] => rfl
  | t :: u :: ts =>
    have ht : r.current = t := by rw [current, hrest, List.headD_cons]
    have hu : r.following = u := by rw [following, hrest, List.tail_cons, List.headD_cons]
    have htk : t.kind ≠ .eof := hr.rest t (by simp [hrest])
    have huk : u.kind ≠ .eof := hr.rest u (by simp [hrest])
    rw [SkipStops, ht, hu] at h
    rw [resyncTokens, if_pos (by simpa [htk, huk] using h)]

/-- Elsewhere it goes on from the next token. -/
theorem resync_of_not_skipStops {r : Reading σ} (hr : r.Ready) (h : ¬r.SkipStops) : r.resync = r.advance.resync := by
  have hcur : r.current.kind ≠ .eof := fun hk => h (.inr (.inl hk))
  have hfol : r.following.kind ≠ .eof := fun hk => h (.inr (.inr (.inl hk)))
  have hrest : r.rest = r.current :: r.following :: r.rest.tail.tail := by rw [← hr.tail_eq hfol, ← hr.rest_eq hcur]
  have hgo : resyncTokens (0 < r.depth) r.rest = resyncTokens (0 < r.depth) r.rest.tail := by
    rw [hrest, resyncTokens, List.tail_cons, if_neg]
    intro hstop
    simp only [decide_eq_true_eq] at hstop
    exact h (hstop.imp_right fun hb => .inr (.inr hb))
  exact congrArg (fun ts => { r with rest := ts, dropped := r.dropped + 1 }) hgo

/-- Skipping a statement is going through the rounds of its loop. -/
theorem resync_runs {r : Reading σ} (hr : r.Ready) : ∃ k, skipLoop.Runs k r r.resync := by
  induction hm : r.rest.length using Nat.strongRecOn generalizing r with
  | ind m ih =>
    by_cases hstop : r.SkipStops
    · exact ⟨0, .leave ⟨hstop, resync_of_skipStops hr hstop⟩⟩
    · obtain ⟨hs, -, hlt⟩ := skipLoop_readsOn hr ⟨hstop, rfl⟩
      obtain ⟨k, hrun⟩ := ih _ (hm ▸ hlt) hs rfl
      rw [resync_of_not_skipStops hr hstop]
      exact ⟨k + 1, .round ⟨hstop, rfl⟩ hrun⟩

end Reading

/-! ## Open blocks -/

/-- A parse leaves as many blocks open as there were before it, whether it finds its phrase or refuses. -/
def Parse.KeepsDepth (p : Parse σ α) : Prop := ∀ {a? : Option α} {r s : Reading σ}, p r = some (a?, s) → s.depth = r.depth

/-- So does a step. -/
def Step.KeepsDepth (p : Step σ α) : Prop := ∀ {a : α} {r s : Reading σ}, p r = some (a, s) → s.depth = r.depth

namespace Grammar

variable {tr : Tracer σ}

theorem keepsDepth_of_leads {p : Parse σ α}
    (h : ∀ r, p.Leads (fun s => s.depth = r.depth) (fun s => s.depth = r.depth) r) : p.KeepsDepth := by
  intro a? r s hp
  cases a? with
  | none => exact (h r).refused hp
  | some a => exact (h r).found hp

/-- What leads from a reading as every rule does keeps its depth. -/
theorem keepsDepth_of_reaches (tr : Tracer σ) {p : Parse σ α}
    (h : ∀ r, p.Leads ((reachesLaw tr).course.Refuses r) ((reachesLaw tr).course.Stops r) r) : p.KeepsDepth := by
  intro a? r s hp
  exact (Parse.obeys_of_leads (L := reachesLaw tr) (h r) a? s hp).depth

theorem traced_keepsDepth {phrase : Phrase} {p : Parse σ α} (h : p.KeepsDepth) : (traced tr phrase p).KeepsDepth := by
  intro a? r s hp
  rw [traced_apply] at hp
  obtain ⟨⟨x?, u⟩, hu, heq⟩ := Option.map_eq_some_iff.mp hp
  cases heq
  have hdepth := h hu
  exact hdepth

/-- Every rule leaves as many blocks open as there were before it. -/
structure RulesKeepDepth (tr : Tracer σ) : Prop where
  program (n : Nat) : (program tr n).KeepsDepth
  statement (n : Nat) : (statement tr n).KeepsDepth
  letStatement (n : Nat) : (letStatement tr (Grammar.expression tr n)).KeepsDepth
  returnStatement (n : Nat) : (returnStatement tr (Grammar.expression tr n)).KeepsDepth
  expressionStatement (n : Nat) : (expressionStatement tr (Grammar.expression tr n)).KeepsDepth
  block (n : Nat) : (Grammar.block tr n).KeepsDepth
  items (n : Nat) : (items tr n).KeepsDepth
  expression (n : Nat) (p : Precedence) : (Grammar.expression tr n p).KeepsDepth
  operand (n : Nat) : (operand tr n).KeepsDepth
  climb (n : Nat) (p : Precedence) (left : Expr) : (climb tr n p left).KeepsDepth
  extension (n : Nat) (kind : Kind) (left : Expr) : (extension tr n kind left).KeepsDepth
  variableName : (variableName tr).KeepsDepth
  integerLiteral : (integerLiteral tr).KeepsDepth
  floatLiteral : (floatLiteral tr).KeepsDepth
  stringLiteral : (stringLiteral : Parse σ Expr).KeepsDepth
  boolean : (boolean tr).KeepsDepth
  unaryExpression (n : Nat) : (unaryExpression tr (Grammar.expression tr n)).KeepsDepth
  binaryExpression (n : Nat) (left : Expr) : (binaryExpression tr (Grammar.expression tr n) left).KeepsDepth
  groupedExpression (n : Nat) : (groupedExpression (Grammar.expression tr n)).KeepsDepth
  conditional (n : Nat) : (conditional tr (Grammar.expression tr n) (Grammar.block tr n)).KeepsDepth
  alternative (n : Nat) : (alternative (Grammar.block tr n)).KeepsDepth
  functionLiteral (n limit : Nat) : (functionLiteral tr (Grammar.block tr n) limit).KeepsDepth
  parameters (limit : Nat) : (parameters tr limit).KeepsDepth
  moreParameters (limit : Nat) : (moreParameters limit : Parse σ (List Identifier)).KeepsDepth
  callExpression (n : Nat) (callee : Expr) : (callExpression tr (Grammar.arguments tr n) callee).KeepsDepth
  arguments (n : Nat) : (Grammar.arguments tr n).KeepsDepth
  moreArguments (n : Nat) : (moreArguments tr n).KeepsDepth

theorem numeralLiteral_keepsDepth {ν : Type} {phrase : Phrase} {value? : String → Option ν} {literal : Token → ν → Expr}
    {problem : String → Problem} : (numeralLiteral tr phrase value? literal problem).KeepsDepth := by
  refine traced_keepsDepth (keepsDepth_of_leads fun r => Parse.leads_get_bind ?_)
  dsimp only
  split
  · exact Parse.leads_pure (S := fun s => s.depth = r.depth) rfl _
  · exact Parse.leads_refuse rfl

theorem rulesKeepDepth (tr : Tracer σ) : RulesKeepDepth tr :=
  let L := reachesLaw tr
  have hobey := rulesObey L
  have hat := at_course L
  have he (n : Nat) {c : L.course.Context} {p : Precedence} {r : Reading σ} := (rulesLead L.course n).expression (c := c) (p := p) (r := r)
  have hb (n : Nat) {c : L.course.Context} {r : Reading σ} := (rulesLead L.course n).block (c := c) (r := r)
  { program := fun n _ r s hp => (program_obeys L n r _ s hp).depth
    statement := fun n _ r s hp => ((hobey n).statement r _ s hp).depth
    letStatement := fun n => keepsDepth_of_reaches tr fun r => letStatement_leads (he n) (hat r)
    returnStatement := fun n => keepsDepth_of_reaches tr fun r => returnStatement_leads (he n) (hat r)
    expressionStatement := fun n => keepsDepth_of_reaches tr fun r => expressionStatement_leads (he n) (hat r).1
    block := fun n _ r s hp => ((hobey n).block r _ s hp).depth
    items := fun n _ r s hp => ((hobey n).items r _ s hp).depth
    expression := fun n p _ r s hp => ((hobey n).expression p r _ s hp).depth
    operand := fun n _ r s hp => ((hobey n).operand r _ s hp).depth
    climb := fun n p left _ r s hp => ((hobey n).climb p left r _ s hp).depth
    extension := fun n kind left _ r s hp => ((hobey n).extension kind left r _ s hp).depth
    variableName := keepsDepth_of_reaches tr fun r => variableName_leads (hat r)
    integerLiteral := numeralLiteral_keepsDepth
    floatLiteral := numeralLiteral_keepsDepth
    stringLiteral := keepsDepth_of_reaches tr fun r => stringLiteral_leads (L.refl r)
    boolean := keepsDepth_of_reaches tr fun r => boolean_leads (hat r)
    unaryExpression := fun n => keepsDepth_of_reaches tr fun r => unaryExpression_leads (he n) (hat r)
    binaryExpression := fun n left => keepsDepth_of_reaches tr fun r => binaryExpression_leads (he n) left (hat r)
    groupedExpression := fun n => keepsDepth_of_reaches tr fun r => groupedExpression_leads (he n) (hat r)
    conditional := fun n => keepsDepth_of_reaches tr fun r => conditional_leads (he n) (hb n) (hat r)
    alternative := fun n => keepsDepth_of_reaches tr fun r => alternative_leads (hb n) (hat r).2
    functionLiteral := fun n limit => keepsDepth_of_reaches tr fun r => functionLiteral_leads (hb n) limit (hat r)
    parameters := fun limit _ _ s hp => (parameters_obeys (L := L) limit _ s hp).depth
    moreParameters := fun limit _ r s hp => (moreParameters_obeys (L := L) limit r _ s hp).depth
    callExpression := fun n callee => keepsDepth_of_reaches tr fun r => callExpression_leads (rulesLead L.course n).arguments callee (hat r)
    arguments := fun n _ r s hp => ((hobey n).arguments r _ s hp).depth
    moreArguments := fun n _ r s hp => ((hobey n).moreArguments r _ s hp).depth }

end Grammar

/-! ## Reading comes to an end -/

namespace Grammar

variable {tr : Tracer σ}

/-- The statements of a program are read, and with every limit that is large enough the same ones. -/
theorem program_finishes (tr : Tracer σ) {r : Reading σ} (hr : r.Ready) :
    ∃ ss t, (∀ n, 4 * r.rest.length + 4 ≤ n → program tr n r = some (ss, t)) ∧ (programLoop tr).Ends r t := by
  obtain ⟨⟨ss, t⟩, h⟩ := program_ends tr hr (Nat.le_refl _)
  exact ⟨ss, t, fun n hn => program_mono hn h, Loop.ends_of_runs programLoop_readsOn hr (program_runs h)⟩

/-- With a larger limit the same statements of a block are read. -/
theorem items_mono {n n' : Nat} (hn : n ≤ n') {r s : Reading σ} {ss : List Stmt} (hd : 0 < r.depth)
    (h : items tr n r = some (ss, s)) : items tr n' r = some (ss, s) := by
  have hpair := (rulesPair (Reading.alikePairing id .none tr.alike_refl) hn).items r r r.alike_refl hd
  obtain ⟨s', hs', hs⟩ := hpair ss s h
  have heq : s' = s := Reading.Alike.eq hs
  rw [hs', heq]
  exact congrArg (fun xs => some (xs, s)) (Stmt.map_move_id ss)

/-- So it is with the statements of a block. -/
theorem items_finishes (tr : Tracer σ) {r : Reading σ} (hr : r.Ready) (hd : 0 < r.depth) :
    ∃ ss t, (∀ n, 4 * r.rest.length + 4 ≤ n → items tr n r = some (ss, t)) ∧ (blockLoop tr).Ends r t := by
  obtain ⟨⟨ss, t⟩, h⟩ := (rulesEnd tr _).items hr (Nat.le_refl _)
  exact ⟨ss, t, fun n hn => items_mono hn hd h, Loop.ends_of_runs blockLoop_readsOn hr (items_runs h)⟩

end Grammar

/-- Reading a text comes to its end. -/
structure Finishes (tr : Tracer σ) (trace : σ) (text : String) : Prop where
  /-- Each round of each loop reads on. -/
  readsOn : ∀ L ∈ Grammar.loops tr, L.ReadsOn
  /-- Wherever a loop starts, it goes through no more rounds than there are tokens left. -/
  rounds_le : ∀ L ∈ Grammar.loops tr, ∀ {k : Nat} {r s : Reading σ}, r.Ready → L.Rounds k r s → k ≤ r.rest.length
  program : ∀ {r : Reading σ}, r.Ready →
    ∃ ss t, (∀ n, 4 * r.rest.length + 4 ≤ n → Grammar.program tr n r = some (ss, t)) ∧ (Grammar.programLoop tr).Ends r t
  block : ∀ {r : Reading σ}, r.Ready → 0 < r.depth →
    ∃ ss t, (∀ n, 4 * r.rest.length + 4 ≤ n → Grammar.items tr n r = some (ss, t)) ∧ (Grammar.blockLoop tr).Ends r t
  skip : ∀ {r : Reading σ}, r.Ready → Reading.skipLoop.Ends r r.resync
  /-- Every rule comes to an end where it has a limit that is fixed by the number of tokens left. -/
  rules : ∀ n, Grammar.RulesEnd tr n
  depth : Grammar.RulesKeepDepth tr
  /-- The whole text is read, and every block is left. -/
  all : let r := (Lexer.ofText text).reading trace
    let t := (r.readAll tr).2
    r.Ready ∧ (Grammar.programLoop tr).Ends r t ∧ t.rest = [] ∧ t.current.kind = .eof ∧
      t.current = (Lexer.ofText text).finish.eof ∧ t.depth = 0

/-- Reading comes to an end whatever the text: each loop reads on with each round, and so goes through no more rounds than there are
tokens left; then the current token is the end of the text, no token is left and no block is open. -/
theorem parse_finishes (tr : Tracer σ) (trace : σ) (text : String) : Finishes tr trace text where
  readsOn := Grammar.loops_readOn tr
  rounds_le L hL _ _ _ hr h := Loop.rounds_le (Grammar.loops_readOn tr L hL) hr h
  program hr := Grammar.program_finishes tr hr
  block hr hd := Grammar.items_finishes tr hr hd
  skip hr := Loop.ends_of_runs Reading.skipLoop_readsOn hr (Reading.resync_runs hr)
  rules := Grammar.rulesEnd tr
  depth := Grammar.rulesKeepDepth tr
  all := by
    intro r t
    have hr : r.Ready := (Lexer.ofText text).reading_ready trace
    have hread : Grammar.program tr r.limit r = some ((r.readAll tr).1, t) := Reading.readAll_spec tr hr
    have hreach := Grammar.program_obeys (reachesLaw tr) r.limit r _ t hread
    obtain ⟨k, s, hrounds, heof, rfl⟩ := Grammar.program_runs hread
    have hrest : t.rest = [] := (hr.reaches hreach).rest_eq_nil heof
    refine ⟨hr, ⟨k, Loop.rounds_le Grammar.programLoop_readsOn hr hrounds, t, hrounds, heof, rfl⟩, hrest, heof, ?_, hreach.depth⟩
    rw [Reading.current, hrest, List.headD_nil, hreach.eof]
    rfl

end Scriptlet
