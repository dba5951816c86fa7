import Mathlib.Data.List.Infix
import Scriptlet.Proofs.Reading.Alike
import Scriptlet.Proofs.Token.Append

/-!
# Reading one text behind another

A text that ends with a semicolon and whose braces are balanced is read as if it stood alone, whatever stands behind it and however many
mistakes are in it; and what stands behind it is read as if that stood alone, some lines lower (`parseTraced_lines`).

Two things carry this. No rule moves on from a semicolon outside a block, so the last token of the first text is never passed inside a
phrase. And reading is never deeper in blocks than the braces are: a block that ends too early leaves braces behind, and skipping the
rest of a statement passes opening braces without a block, but inside a block no closing brace. So no block is open at the last token
(`Within`).
-/

namespace Scriptlet

/-! ## Braces -/

/-- The number of opening braces. -/
def openings (ts : List Token) : Nat := ts.countP (·.kind == .lbrace)

/-- The number of closing braces. -/
def closings (ts : List Token) : Nat := ts.countP (·.kind == .rbrace)

/-- The braces of tokens are balanced. -/
structure Balanced (ts : List Token) : Prop where
  /-- Nowhere have more braces been closed than opened. -/
  closings_le : ∀ us, us <+: ts → closings us ≤ openings us
  settled : closings ts = openings ts

instance decidableBalanced (ts : List Token) : Decidable (Balanced ts) :=
  decidable_of_iff ((∀ us ∈ ts.inits, closings us ≤ openings us) ∧ closings ts = openings ts)
    ⟨fun ⟨h, he⟩ => ⟨fun us hus => h us ((List.mem_inits us ts).mpr hus), he⟩,
     fun ⟨h, he⟩ => ⟨fun us hus => h us ((List.mem_inits us ts).mp hus), he⟩⟩

variable {ts : List Token} {t : Token}

theorem openings_append (ts us : List Token) : openings (ts ++ us) = openings ts + openings us := List.countP_append

theorem closings_append (ts us : List Token) : closings (ts ++ us) = closings ts + closings us := List.countP_append

theorem openings_cons (t : Token) (ts : List Token) : openings (t :: ts) = openings ts + if t.kind = .lbrace then 1 else 0 := by
  unfold openings
  rw [List.countP_cons]
  simp only [beq_iff_eq]

theorem closings_cons (t : Token) (ts : List Token) : closings (t :: ts) = closings ts + if t.kind = .rbrace then 1 else 0 := by
  unfold closings
  rw [List.countP_cons]
  simp only [beq_iff_eq]

/-- The tokens that are left of a text with balanced braces and a semicolon at its end, and a number of blocks that is no larger than
the number of braces that are open. -/
structure Within (depth : Nat) (ts : List Token) : Prop where
  last : ∃ us t, ts = us ++ [t] ∧ t.kind = .semicolon
  depth_le : depth + openings ts ≤ closings ts
  openings_le : ∀ us, us <:+ ts → openings us ≤ closings us

namespace Within

variable {depth : Nat}

/-- A text with balanced braces and a semicolon at its end. -/
theorem of_balanced (h : Balanced ts) (hlast : ∃ t ∈ ts.getLast?, t.kind = .semicolon) : Within 0 ts := by
  have hsuffix : ∀ us, us <:+ ts → openings us ≤ closings us := by
    rintro us ⟨vs, rfl⟩
    have hle := h.closings_le vs (List.prefix_append vs us)
    have heq := h.settled
    rw [openings_append, closings_append] at heq
    omega
  obtain ⟨t, ht, hk⟩ := hlast
  obtain ⟨us, hus⟩ := List.getLast?_eq_some_iff.mp ht
  refine ⟨⟨us, t, hus, hk⟩, ?_, hsuffix⟩
  rw [Nat.zero_add]
  exact hsuffix ts (List.suffix_refl ts)

theorem exists_cons (h : Within depth ts) : ∃ t us, ts = t :: us := by
  obtain ⟨us, t, rfl, -⟩ := h.last
  cases us with
  | nil => exact ⟨t, [], rfl⟩
  | cons u us => exact ⟨u, us ++ [t], rfl⟩

/-- Inside a block, or before the last token, there is another token. -/
theorem ne_nil (h : Within depth (t :: ts)) (hk : t.kind = .semicolon → 0 < depth) : ts ≠ [] := by
  rintro rfl
  obtain ⟨us, u, heq, hu⟩ := h.last
  obtain ⟨rfl, rfl⟩ : us = [] ∧ t = u := by
    cases us with
    | nil => exact ⟨rfl, (List.cons.inj heq).1⟩
    | cons v vs => exact absurd (congrArg List.length heq) (by simp)
  -- the semicolon at the end closes no brace, so no block can be open
  have hpos := hk hu
  have hle := h.depth_le
  rw [openings_cons, closings_cons, hu] at hle
  exact absurd hle (by simp [openings, closings]; omega)

/-- One token on, with as many blocks as there are braces left open. -/
theorem tail_of_le {d : Nat} (h : Within depth (t :: ts)) (hne : ts ≠ []) (hle : d + openings ts ≤ closings ts) : Within d ts := by
  refine ⟨?_, hle, fun us hus => h.openings_le us (hus.trans (List.suffix_cons t ts))⟩
  obtain ⟨us, u, heq, hu⟩ := h.last
  cases us with
  | nil => exact absurd (List.cons.inj heq).2 hne
  | cons v vs => exact ⟨vs, u, (List.cons.inj heq).2, hu⟩

/-- One token on; a brace may have been closed only if no block is open. -/
theorem tail (h : Within depth (t :: ts)) (hne : ts ≠ []) (hk : t.kind = .rbrace → depth = 0) : Within depth ts := by
  refine h.tail_of_le hne ?_
  by_cases hb : t.kind = .rbrace
  · rw [hk hb, Nat.zero_add]
    exact h.openings_le ts (List.suffix_cons t ts)
  · have hle := h.depth_le
    rw [openings_cons, closings_cons, if_neg hb] at hle
    omega

/-- An opening brace opens a block. -/
theorem openBlock (h : Within depth (t :: ts)) (hk : t.kind = .lbrace) : Within (depth + 1) ts := by
  refine h.tail_of_le (h.ne_nil (by rw [hk]; nofun)) ?_
  have hle := h.depth_le
  rw [openings_cons, closings_cons, if_pos hk, if_neg (by rw [hk]; decide)] at hle
  omega

/-- A closing brace ends a block. -/
theorem closeBlock (h : Within depth (t :: ts)) (hd : 0 < depth) : Within (depth - 1) (t :: ts) ∧ Within (depth - 1) ts := by
  have hle := h.depth_le
  refine ⟨⟨h.last, by omega, h.openings_le⟩, h.tail_of_le (h.ne_nil fun _ => hd) ?_⟩
  rw [openings_cons, closings_cons] at hle
  split at hle <;> split at hle <;> omega

/-- Skipping the rest of a statement ends before the last token or there, with the same blocks open, and what stands behind the text
plays no part. -/
theorem resyncTokens (h : Within depth ts) (rest : List Token) :
    Reading.resyncTokens (0 < depth) (ts ++ rest) = Reading.resyncTokens (0 < depth) ts ++ rest ∧
      Within depth (Reading.resyncTokens (0 < depth) ts) := by
  fun_induction Reading.resyncTokens (decide (0 < depth)) ts with
  | case1 t u ts hk =>
    rw [List.cons_append, List.cons_append, Reading.resyncTokens, if_pos hk]
    exact ⟨rfl, h⟩
  | case2 t u ts hk ih =>
    -- a closing brace is skipped only where no block is open
    have hnext : Within depth (u :: ts) := by
      refine h.tail (List.cons_ne_nil _ _) fun hb => ?_
      by_contra hd
      exact hk (Or.inr ⟨decide_eq_true (Nat.pos_of_ne_zero hd), Or.inl hb⟩)
    rw [List.cons_append, List.cons_append, Reading.resyncTokens, if_neg hk]
    exact ih hnext
  | case3 ts hts =>
    refine ⟨?_, h⟩
    obtain ⟨t, us, rfl⟩ := h.exists_cons
    cases us with
    | cons u us => exact absurd rfl (hts t u us)
    -- the last token ends the skipping, whatever stands behind it
    | nil =>
      have hsemi : t.kind = .semicolon := by
        by_contra hne
        exact h.ne_nil (fun e => absurd e hne) rfl
      cases rest with
      | nil => rfl
      | cons u us =>
        show Reading.resyncTokens _ (t :: u :: us) = _
        rw [Reading.resyncTokens, if_pos (Or.inl hsemi)]
        rfl

end Within

/-! ## In front of other tokens -/

variable {σ : Type}

namespace Reading

/-- The reading in a text that goes on with other tokens. -/
def before (r : Reading σ) (rest : List Token) (eof : Token) : Reading σ := { r with rest := r.rest ++ rest, eof := eof }

/-- Where reading is within a text with balanced braces and a semicolon at its end. -/
def Within (r : Reading σ) : Prop := Scriptlet.Within r.depth r.rest

variable {r : Reading σ} {rest : List Token} {eof : Token}

theorem Within.rest_eq (h : r.Within) : r.rest = r.current :: r.rest.tail := by
  obtain ⟨t, us, heq⟩ := h.exists_cons
  unfold current
  rw [heq]
  rfl

/-- The tokens that are left, with the current one first. -/
theorem Within.cons (h : r.Within) : Scriptlet.Within r.depth (r.current :: r.rest.tail) := by
  rw [← h.rest_eq]
  exact h

theorem Within.current_before (h : r.Within) : (r.before rest eof).current = r.current := by
  unfold current before
  rw [h.rest_eq]
  rfl

theorem Within.advance_before (h : r.Within) : (r.before rest eof).advance = r.advance.before rest eof := by
  unfold advance before
  rw [h.rest_eq]
  rfl

theorem Within.resync_before (h : r.Within) : (r.before rest eof).resync = r.resync.before rest eof := by
  have heq := (h.resyncTokens rest).1
  unfold resync before
  dsimp only
  rw [heq]

theorem Within.resync (h : r.Within) : r.resync.Within := (h.resyncTokens []).2

theorem Within.openBlock_before (h : r.Within) : (r.before rest eof).openBlock = r.openBlock.before rest eof := by
  unfold openBlock
  rw [h.advance_before]
  rfl

theorem Within.closeBlock_before (h : r.Within) : (r.before rest eof).closeBlock = r.closeBlock.before rest eof := by
  have hcur : (r.before rest eof).current = r.current := h.current_before
  by_cases hk : r.current.kind = .eof
  · rw [closeBlock_of_eof hk, closeBlock_of_eof (by rw [hcur, hk]), hcur]
    rfl
  · rw [closeBlock_of_ne_eof hk, closeBlock_of_ne_eof (by rw [hcur]; exact hk)]
    rfl

theorem rest_closeBlock (r : Reading σ) : r.closeBlock.rest = r.rest ∧ r.closeBlock.depth = r.depth - 1 := by
  by_cases hk : r.current.kind = .eof
  · rw [closeBlock_of_eof hk]
    exact ⟨rfl, rfl⟩
  · rw [closeBlock_of_ne_eof hk]
    exact ⟨rfl, rfl⟩

theorem Within.closeBlock (h : r.Within) (hd : 0 < r.depth) : r.closeBlock.Within ∧ r.closeBlock.advance.Within := by
  obtain ⟨hrest, hdepth⟩ := r.rest_closeBlock
  have hclose := h.cons.closeBlock hd
  rw [← h.rest_eq] at hclose
  unfold Within
  rw [show r.closeBlock.advance.rest = r.closeBlock.rest.tail from rfl,
    show r.closeBlock.advance.depth = r.closeBlock.depth from rfl, hrest, hdepth]
  exact hclose

/-- Reading within a text, and within the same text in front of other tokens, side by side. -/
def beforePairing (tr : Tracer σ) (rest : List Token) (eof : Token) : Pairing tr tr where
  place := id
  Holds r r' := r.Within ∧ r' = r.before rest eof
  current := by
    rintro r _ ⟨h, rfl⟩
    exact h.current_before
  advance := by
    rintro r _ ⟨h, rfl⟩ hb hs
    exact ⟨h.cons.tail (h.cons.ne_nil hs) fun hk => absurd hk hb, h.advance_before⟩
  report := by
    rintro r _ problem pos ⟨h, rfl⟩
    exact ⟨h, rfl⟩
  enter := by
    rintro r _ name ⟨h, rfl⟩
    exact ⟨h, rfl⟩
  leave := by
    rintro r _ name ⟨h, rfl⟩
    exact ⟨h, rfl⟩
  resync := by
    rintro r _ ⟨h, rfl⟩
    exact ⟨h.resync, h.resync_before⟩
  openBlock := by
    rintro r _ ⟨h, rfl⟩ hk
    exact ⟨h.cons.openBlock hk, h.openBlock_before⟩
  closeBlock := by
    rintro r _ ⟨h, rfl⟩ - hd
    obtain ⟨hclose, hnext⟩ := h.closeBlock hd
    refine ⟨⟨hclose, h.closeBlock_before⟩, hnext, ?_⟩
    rw [h.closeBlock_before, hclose.advance_before]

/-- Outside of blocks, behind each token the text goes on or has ended. -/
theorem Within.advance_or (h : r.Within) (hd : r.depth = 0) : r.advance.rest = [] ∨ r.advance.Within := by
  by_cases hne : r.rest.tail = []
  · exact Or.inl hne
  · exact Or.inr (h.cons.tail hne fun _ => hd)

/-- At the end of the text, what it goes on with is what is left. -/
theorem before_of_rest_nil (h : r.rest = []) (rest : List Token) (eof : Token) :
    r.before rest eof = { r with rest := rest, eof := eof } := by
  unfold before
  rw [h, List.nil_append]

theorem Ready.kind_current_of_rest_nil (hr : r.Ready) (h : r.rest = []) : r.current.kind = .eof := by
  unfold current
  rw [h]
  exact hr.eof

theorem Within.kind_current_ne_eof (h : r.Within) (hr : r.Ready) : r.current.kind ≠ .eof := by
  refine hr.rest _ ?_
  rw [h.rest_eq]
  exact List.mem_cons_self

end Reading

namespace Grammar

variable {tr : Tracer σ} {rest : List Token} {eof : Token} {ss us : List Stmt} {r s u : Reading σ} {n : Nat}

/-- A statement of a text in front of other tokens is read as in the text alone, and reading does not leave the text. -/
theorem statement_before (hw : r.Within) (m : Nat) {x? : Option Stmt} (h : statement tr n r = some (x?, s)) :
    statement tr (n + m) (r.before rest eof) = some (x?, s.before rest eof) ∧ s.Within := by
  have hpair := rulesPair (Reading.beforePairing tr rest eof) (Nat.le_add_right n m)
  obtain ⟨s', hs', hstop⟩ := hpair.statement r _ ⟨hw, rfl⟩ x? s h
  have hsame : x?.map (Stmt.move (Reading.beforePairing tr rest eof).place) = x? := by
    cases x? with
    | none => rfl
    | some x => exact congrArg some (Stmt.mapTokens_id x)
  have hboth : s.Within ∧ s' = s.before rest eof := by
    cases x? with
    | none => exact hstop
    | some x => exact hstop.1
  rw [hsame, hboth.2] at hs'
  exact ⟨hs', hboth.1⟩

/-- The statements of a text in front of other tokens are those of the text, and then those of the tokens. -/
theorem program_before {m : Nat} (hr : r.Ready) (hd : r.depth = 0) (hw : r.rest = [] ∨ r.Within)
    (h : program tr n r = some (ss, s)) (hm : program tr m { s with rest := rest, eof := eof } = some (us, u)) :
    program tr (n + m) (r.before rest eof) = some (ss ++ us, u) := by
  -- statement by statement; between two of them no block is open, so moving on stays within the text or ends it
  induction n generalizing r ss with
  | zero => cases h
  | succ n ih =>
    rw [program_apply] at h
    obtain hnil | hw := hw
    -- the text has ended, so only the other tokens are left
    · rw [if_pos (hr.kind_current_of_rest_nil hnil)] at h
      cases h
      rw [Reading.before_of_rest_nil hnil]
      exact program_mono (Nat.le_add_left m (n + 1)) hm
    · have hne := hw.kind_current_ne_eof hr
      rw [if_neg hne] at h
      rw [Nat.add_right_comm, program_apply, hw.current_before, if_neg hne]
      rcases hp : statement tr n r with _ | ⟨x?, q⟩
      · rw [hp] at h
        cases h
      · obtain ⟨hp', hqw⟩ := statement_before hw m hp
        have hqd : q.depth = 0 := (depth_statement hp).trans hd
        have hreaches := (rulesObey (reachesLaw tr) n).statement r x? q hp
        rw [hp] at h
        rw [hp']
        cases x? with
        | none =>
          have hskip : q.resync.Ready := hr.reaches (Reading.Reaches.resync hreaches)
          have hnext := ih hskip.advance hqd (hqw.resync.advance_or hqd) h
          rw [← hqw.resync.advance_before, ← hqw.resync_before] at hnext
          exact hnext
        | some x =>
          obtain ⟨⟨ss', q'⟩, hi, heq⟩ := Option.map_eq_some_iff.mp h
          cases heq
          have hnext := ih (hr.reaches hreaches).advance hqd (hqw.advance_or hqd) hi
          rw [← hqw.advance_before] at hnext
          simp only [Option.map_some, hnext]
          rfl

end Grammar

namespace Reading

/-- Reading to the end of a text and then on through other tokens. -/
theorem readAll_before {tr : Tracer σ} {r q u : Reading σ} {rest : List Token} {eof : Token} {ss us : List Stmt} (hr : r.Ready)
    (hd : r.depth = 0) (hw : r.rest = [] ∨ r.Within) (hready : Reading.Ready { q with rest := rest, eof := eof })
    (hfirst : r.readAll tr = (ss, q)) (hsecond : Reading.readAll tr { q with rest := rest, eof := eof } = (us, u)) :
    (r.before rest eof).readAll tr = (ss ++ us, u) := by
  have h := readAll_spec tr hr
  have hm := readAll_spec tr hready
  rw [hfirst] at h
  rw [hsecond] at hm
  have hboth := Grammar.program_before hr hd hw h hm
  have hbefore : (r.before rest eof).Ready := by
    refine ⟨hready.eof, fun t ht => ?_⟩
    obtain ht | ht := List.mem_append.mp ht
    · exact hr.rest t ht
    · exact hready.rest t ht
  have hlimit : (r.before rest eof).limit ≤ r.limit + Reading.limit { q with rest := rest, eof := eof } := by
    show 4 * (r.rest ++ rest).length + 8 ≤ (4 * r.rest.length + 8) + (4 * rest.length + 8)
    rw [List.length_append]
    omega
  rw [Grammar.program_mono hlimit (readAll_spec tr hbefore)] at hboth
  exact Option.some_inj.mp hboth

end Reading

/-! ## Two texts with a newline between them -/

/-- What has been read, at other places. -/
def Parsed.move (g : Pos → Pos) (p : Parsed σ) : Parsed σ :=
  { p with program := p.program.move g, diagnostics := p.diagnostics.map (Diagnostic.move g) }

/-- What has been read, and then something else. -/
def Parsed.followedBy (p q : Parsed σ) : Parsed σ where
  program := ⟨p.program.statements ++ q.program.statements⟩
  diagnostics := p.diagnostics ++ q.diagnostics
  dropped := p.dropped + q.dropped
  unclosed := p.unclosed + q.unclosed
  trace := q.trace

/-- Behind a text with balanced braces and a semicolon at its end, and a newline, a text is read as it is read alone. -/
theorem parseTraced_lines (tr : Tracer σ) (x : σ) {s₁ s₂ : String}
    (hlast : ∃ t ∈ (Lexer.ofText s₁).tokens.getLast?, t.kind = .semicolon) (hb : Balanced (Lexer.ofText s₁).tokens) :
    parseTraced tr x (s₁ ++ "\n" ++ s₂) =
      (parseTraced tr x s₁).followedBy
        ((parseTraced tr (parseTraced tr x s₁).trace s₂).move (Pos.down (s₁.toList.count '\n' + 1))) := by
  let g := Pos.down (s₁.toList.count '\n' + 1)
  let r := (Lexer.ofText s₁).reading x
  let q := (r.readAll tr).2
  let r₂ := (Lexer.ofText s₂).reading q.trace
  let s : Reading σ := { q with rest := r₂.rest.map (Token.move g), eof := r₂.eof.move g }
  have hr : r.Ready := Lexer.reading_ready _ x
  have hjoined : (Lexer.ofText (s₁ ++ "\n" ++ s₂)).reading x = r.before s.rest s.eof := by
    have hlegal : ∀ t ∈ (Lexer.ofText s₁).tokens.getLast?, t.kind ≠ .illegal := by
      intro t ht
      obtain ⟨u, hu, hk⟩ := hlast
      rw [Option.mem_unique ht hu, hk]
      decide
    unfold Lexer.reading
    rw [Lexer.tokens, Lexer.finish, Lexer.drain_lines hlegal]
    rfl
  have hq : r.Reaches 0 q := Grammar.program_obeys (reachesLaw tr) r.limit r _ _ (Reading.readAll_spec tr hr)
  have halike : r₂.Alike g q.notes Eq s := by
    refine ⟨rfl, rfl, hq.depth, ?_, rfl, rfl, rfl⟩
    exact (List.append_nil _).symm
  have hw : r.rest = [] ∨ r.Within := Or.inr (.of_balanced hb hlast)
  have hall : (r.before s.rest s.eof).readAll tr = ((r.readAll tr).1 ++ (s.readAll tr).1, (s.readAll tr).2) :=
    Reading.readAll_before hr rfl hw (halike.ready (Lexer.reading_ready _ _)) rfl rfl
  obtain ⟨hss, hend⟩ := halike.readAll tr.alike_refl (Lexer.reading_ready _ _)
  unfold parseTraced Lexer.parse
  rw [hjoined]
  dsimp only
  rw [hall, hss, hend.diagnostics, hend.dropped, hend.unclosed, ← hend.trace]
  rfl

/-- Behind a text with balanced braces and a semicolon at its end, the statements and the diagnostics are those of the text in the lines
below it, and in front of them there are those of the text itself. Mistakes on one side change nothing on the other. -/
theorem parse_lines {s₁ s₂ : String} (hlast : ∃ t ∈ (Lexer.ofText s₁).tokens.getLast?, t.kind = .semicolon)
    (hb : Balanced (Lexer.ofText s₁).tokens) :
    (parse (s₁ ++ "\n" ++ s₂)).program.statements =
        (parse s₁).program.statements ++
          (parse s₂).program.statements.map (Stmt.move (Pos.down (s₁.toList.count '\n' + 1))) ∧
      (parse (s₁ ++ "\n" ++ s₂)).diagnostics =
        (parse s₁).diagnostics ++ (parse s₂).diagnostics.map (Diagnostic.move (Pos.down (s₁.toList.count '\n' + 1))) := by
  have h : parse (s₁ ++ "\n" ++ s₂) = (parse s₁).followedBy ((parse s₂).move _) := parseTraced_lines Tracer.silent () hlast hb
  rw [h]
  exact ⟨rfl, rfl⟩

/-- A function whose block ends too early, at a brace inside a binding that has no name, and an addition without an operand. -/
def strayText : String := "fn() \x7b let = \x7b 1 \x7d ; 2 \x7d ;\nx + ;"

theorem parse_lines_strayText :
    (∃ t ∈ (Lexer.ofText strayText).tokens.getLast?, t.kind = .semicolon) ∧ Balanced (Lexer.ofText strayText).tokens ∧
      (parse (strayText ++ "\n" ++ "y; let 2")).program.statements =
        (parse strayText).program.statements ++ (parse "y; let 2").program.statements.map (Stmt.move (Pos.down 2)) ∧
      (parse (strayText ++ "\n" ++ "y; let 2")).diagnostics =
        (parse strayText).diagnostics ++ (parse "y; let 2").diagnostics.map (Diagnostic.move (Pos.down 2)) := by
  have hlast : ∃ t ∈ (Lexer.ofText strayText).tokens.getLast?, t.kind = .semicolon := by decide +kernel
  have hb : Balanced (Lexer.ofText strayText).tokens := by decide +kernel
  have hlines : strayText.toList.count '\n' + 1 = 2 := by decide +kernel
  have h := @parse_lines strayText "y; let 2" hlast hb
  rw [hlines] at h
  exact ⟨hlast, hb, h⟩

end Scriptlet
