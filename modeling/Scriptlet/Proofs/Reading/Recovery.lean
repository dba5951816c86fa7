import Scriptlet.Proofs.Reading.Composition

/-!
# Recovery inside a block

After a mistake in a block, reading skips tokens up to a semicolon or to the first closing brace. It counts no braces on the way, so the
brace may be that of a block inside the skipped statement, and a statement that is refused right behind a block takes that block's brace
for the one of its own block. Either way the block around it ends too early, and what is left of it is read as if it stood outside
(`block_cut_short`).

Nothing of this happens as long as mistakes keep clear of blocks (`Diagnostic.KeepsClear`). Then there are always as many blocks open as
braces are left to close them (`Reading.Deep`), whatever else is wrong with the text, so a text in braces is read as one block
(`parse_block`).
-/

namespace Scriptlet

/-! ## Mistakes that keep clear of blocks -/

/-- The tokens that skipping passes for sure: those in front of the first semicolon or closing brace. -/
def skipped (ts : List Token) : List Token := ts.takeWhile fun t => t.kind != .semicolon && t.kind != .rbrace

/-- No block opens in front of the first semicolon or closing brace. -/
def Flat (ts : List Token) : Prop := ∀ t ∈ skipped ts, t.kind ≠ .lbrace

/-- A token should have been of another kind. -/
def Problem.isUnexpected : Problem → Bool
  | .unexpected _ _ => true
  | _ => false

/-- A mistake in a text keeps clear of the blocks there: no block opens between the token that it is about and the next semicolon or
closing brace, and a token that should have been another one does not stand right behind a block. -/
structure Diagnostic.KeepsClear (d : Diagnostic) (ts : List Token) : Prop where
  ahead : ∀ us, us <:+ ts → ∀ t ∈ us.head?, t.pos = d.pos → Flat us
  behind : d.problem.isUnexpected → ∀ us, us <:+ ts → ∀ t ∈ us.tail.head?, t.pos = d.pos → ∀ u ∈ us.head?, u.kind ≠ .rbrace

instance decidableFlat (ts : List Token) : Decidable (Flat ts) := inferInstanceAs (Decidable (∀ t ∈ skipped ts, t.kind ≠ .lbrace))

instance Diagnostic.decidableKeepsClear (d : Diagnostic) (ts : List Token) : Decidable (d.KeepsClear ts) :=
  decidable_of_iff
    ((∀ us ∈ ts.tails, ∀ t ∈ us.head?, t.pos = d.pos → Flat us) ∧
      (d.problem.isUnexpected → ∀ us ∈ ts.tails, ∀ t ∈ us.tail.head?, t.pos = d.pos → ∀ u ∈ us.head?, u.kind ≠ .rbrace))
    ⟨fun ⟨h, h'⟩ => ⟨fun us hus => h us ((List.mem_tails us ts).mpr hus), fun hd us hus => h' hd us ((List.mem_tails us ts).mpr hus)⟩,
     fun ⟨h, h'⟩ => ⟨fun us hus => h us ((List.mem_tails us ts).mp hus), fun hd us hus => h' hd us ((List.mem_tails us ts).mp hus)⟩⟩

namespace Flat

variable {t : Token} {ts : List Token}

/-- What is skipped does not start with an opening brace. -/
theorem head_ne (h : Flat (t :: ts)) : t.kind ≠ .lbrace := by
  intro hk
  refine h t ?_ hk
  unfold skipped
  rw [List.takeWhile_cons_of_pos (by rw [hk]; decide)]
  exact List.mem_cons_self

/-- One token on, if skipping passes it. -/
theorem tail (h : Flat (t :: ts)) (hs : t.kind ≠ .semicolon) (hb : t.kind ≠ .rbrace) : Flat ts := by
  intro u hu
  refine h u ?_
  unfold skipped at hu ⊢
  rw [List.takeWhile_cons_of_pos (by simp [hs, hb])]
  exact List.mem_cons_of_mem t hu

end Flat

/-! ## As many blocks as braces -/

/-- With so many blocks open, the braces that are left close each of them. -/
def Matched (depth : Nat) (ts : List Token) : Prop := depth + openings ts = closings ts

namespace Matched

variable {depth : Nat} {t : Token} {ts : List Token}

/-- Inside a block there is another token. -/
theorem exists_cons (h : Matched depth ts) (hd : 0 < depth) : ∃ t us, ts = t :: us := by
  cases ts with
  | nil =>
    have h : depth + 0 = 0 := h
    omega
  | cons t us => exact ⟨t, us, rfl⟩

theorem token (h : Matched depth (t :: ts)) (hk : t.kind ≠ .lbrace ∧ t.kind ≠ .rbrace) : Matched depth ts := by
  unfold Matched at h ⊢
  rw [openings_cons, closings_cons, if_neg hk.1, if_neg hk.2] at h
  exact h

theorem openBlock (h : Matched depth (t :: ts)) (hk : t.kind = .lbrace) : Matched (depth + 1) ts := by
  unfold Matched at h ⊢
  rw [openings_cons, closings_cons, if_pos hk, if_neg (by rw [hk]; decide)] at h
  omega

theorem closeBlock (h : Matched (depth + 1) (t :: ts)) (hk : t.kind = .rbrace) : Matched depth ts := by
  unfold Matched at h ⊢
  rw [openings_cons, closings_cons, if_neg (by rw [hk]; decide), if_pos hk] at h
  omega

/-- A closing brace by itself. -/
theorem count_brace (hk : t.kind = .rbrace) : openings [t] = 0 ∧ closings [t] = 1 := by
  rw [openings_cons, closings_cons, if_neg (by rw [hk]; decide), if_pos hk]
  exact ⟨rfl, rfl⟩

/-- A text in braces closes the block that it opens. -/
theorem of_balanced {close : Token} (h : Balanced ts) (hc : close.kind = .rbrace) : Matched 1 (ts ++ [close]) := by
  obtain ⟨hopen, hclose⟩ := count_brace hc
  have hs := h.settled
  unfold Matched
  rw [openings_append, closings_append, hopen, hclose]
  omega

/-- The brace that closes the block of a text in braces is the last one. -/
theorem eq_nil_of_balanced {close : Token} {us pre : List Token} (hb : Balanced ts) (hc : close.kind = .rbrace)
    (hsplit : pre ++ t :: us = ts ++ [close]) (hk : t.kind = .rbrace) (h : Matched 1 (t :: us)) : us = [] := by
  by_contra hne
  -- otherwise the text in the braces would start with more closing braces than opening ones
  have hpre : pre ++ [t] <+: ts := by
    have hsplit' : (pre ++ [t]) ++ us = ts ++ [close] := by simpa using hsplit
    have hwhole : pre ++ [t] <+: ts ++ [close] := ⟨us, hsplit'⟩
    refine List.prefix_of_prefix_length_le hwhole (List.prefix_append ts [close]) ?_
    have hlen := congrArg List.length hsplit'
    have hpos := List.length_pos_iff.mpr hne
    simp only [List.length_append, List.length_cons, List.length_nil] at hlen ⊢
    omega
  have hle := hb.closings_le _ hpre
  have hall : Matched 1 (pre ++ t :: us) := hsplit ▸ of_balanced hb hc
  unfold Matched at h hall
  obtain ⟨hopen, hclose⟩ := count_brace hk
  rw [openings_append, closings_append] at hall
  rw [openings_append, closings_append, hopen, hclose] at hle
  omega

/-- Where skipping ends inside a block: in front of the block's brace nothing has been missed. -/
structure Recovers (depth : Nat) (ts : List Token) : Prop where
  exists_cons : ∃ t us, ts = t :: us
  brace : ∀ t ∈ ts.head?, t.kind = .rbrace → Matched depth ts
  tail : ∀ t ∈ ts.head?, t.kind ≠ .rbrace → Matched depth ts.tail

/-- Skipping from a token that has not been read. -/
theorem recovers (h : Matched depth ts) (hd : 0 < depth) (hflat : Flat ts) : Recovers depth (Reading.resyncTokens true ts) := by
  -- the tokens that are passed are no braces, and skipping stops in front of the first brace there is
  fun_induction Reading.resyncTokens true ts with
  | case1 t u us hk =>
    refine ⟨⟨t, u :: us, rfl⟩, fun _ _ _ => h, ?_⟩
    rintro v ⟨⟩ hne
    exact h.token ⟨hflat.head_ne, hne⟩
  | case2 t u us hk ih =>
    simp only [not_or, true_and] at hk
    exact ih (h.token ⟨hflat.head_ne, hk.2.1⟩) (hflat.tail hk.1 hk.2.1)
  | case3 ts hts =>
    obtain ⟨t, us, rfl⟩ := h.exists_cons hd
    cases us with
    | cons u us => exact absurd rfl (hts t u us)
    | nil =>
      refine ⟨⟨t, [], rfl⟩, fun _ _ _ => h, ?_⟩
      rintro v ⟨⟩ hne
      exact h.token ⟨hflat.head_ne, hne⟩

/-- Skipping from a token that has been read, and that is not the brace of another block. -/
theorem recovers_behind (h : Matched depth ts) (hd : 0 < depth) (ht : t.kind ≠ .rbrace) (hflat : Flat ts) :
    Recovers depth (Reading.resyncTokens true (t :: ts)) := by
  obtain ⟨u, us, rfl⟩ := h.exists_cons hd
  rw [Reading.resyncTokens]
  split
  · refine ⟨⟨t, u :: us, rfl⟩, ?_, fun _ _ _ => h⟩
    rintro v ⟨⟩ hk
    exact absurd hk ht
  · exact h.recovers hd hflat

end Matched

/-! ## Reading inside a block -/

variable {σ : Type}

namespace Reading

/-- Reading is inside `depth` blocks of a text, and the tokens `us` close each of them, if all mistakes so far keep clear of blocks. -/
structure Deep (ts us : List Token) (depth : Nat) (r : Reading σ) : Prop where
  depth_eq : r.depth = depth
  depth_pos : 0 < depth
  rest : r.rest <:+ ts
  matched : (∀ d ∈ r.diagnostics.toList, d.KeepsClear ts) → Matched depth us

variable {ts us : List Token} {depth : Nat} {r : Reading σ}

theorem current_of_rest {t : Token} (h : r.rest = t :: us) : r.current = t := by
  unfold current
  rw [h]
  rfl

/-- Inside a block the current token is the first one left. -/
theorem rest_eq_of_matched (h : Matched depth r.rest) (hd : 0 < depth) : r.rest = r.current :: r.rest.tail := by
  obtain ⟨t, us, heq⟩ := h.exists_cons hd
  rw [current_of_rest heq, heq]
  rfl

theorem Deep.retrace (h : r.Deep ts us depth) (x : σ) : Deep ts us depth { r with trace := x } :=
  ⟨h.depth_eq, h.depth_pos, h.rest, h.matched⟩

theorem Deep.advance (h : r.Deep ts r.rest.tail depth) : r.advance.Deep ts r.advance.rest depth :=
  ⟨h.depth_eq, h.depth_pos, (List.tail_suffix r.rest).trans h.rest, h.matched⟩

/-- What is left behind a statement that is skipped, if the skipping recovers. -/
structure Recovering (ts : List Token) (depth : Nat) (r : Reading σ) : Prop where
  brace : r.resync.current.kind = .rbrace → r.resync.Deep ts r.resync.rest depth
  tail : r.resync.current.kind ≠ .rbrace → r.resync.Deep ts r.resync.rest.tail depth

theorem Recovering.of_recovers (hdepth : r.depth = depth) (hd : 0 < depth) (hrest : r.rest <:+ ts)
    (h : (∀ d ∈ r.diagnostics.toList, d.KeepsClear ts) → Matched.Recovers depth (resyncTokens true r.rest)) :
    r.Recovering ts depth := by
  have hskip : r.resync.rest = resyncTokens true r.rest := by
    show resyncTokens (decide (0 < r.depth)) r.rest = _
    rw [decide_eq_true (hdepth ▸ hd)]
  have hsuffix : r.resync.rest <:+ ts := (resyncTokens_suffix _ _).trans hrest
  constructor
  · intro hk
    refine ⟨hdepth, hd, hsuffix, ?_⟩
    intro hclear
    have hr := h hclear
    obtain ⟨t, us, heq⟩ := hr.exists_cons
    rw [hskip]
    exact hr.brace t (by rw [heq]; rfl) (current_of_rest (hskip.trans heq) ▸ hk)
  · intro hk
    refine ⟨hdepth, hd, hsuffix, ?_⟩
    intro hclear
    have hr := h hclear
    obtain ⟨t, us, heq⟩ := hr.exists_cons
    rw [hskip]
    exact hr.tail t (by rw [heq]; rfl) (current_of_rest (hskip.trans heq) ▸ hk)

/-- Skipping recovers from a mistake about the current token. -/
theorem Deep.reject {d : Diagnostic} (h : r.Deep ts r.rest depth) (hd : r.Rejects d) : (r.report d).Recovering ts depth := by
  refine .of_recovers h.depth_eq h.depth_pos h.rest ?_
  intro hclear
  have hmem : ∀ e, e ∈ (r.report d).diagnostics.toList ↔ e ∈ r.diagnostics.toList ∨ e = d := by simp [report]
  have hm := h.matched fun e he => hclear e ((hmem e).mpr (Or.inl he))
  have hpos : r.current.pos = d.pos := by cases hd <;> rfl
  have hhead : r.current ∈ r.rest.head? := by
    rw [rest_eq_of_matched hm h.depth_pos]
    rfl
  exact hm.recovers h.depth_pos ((hclear d ((hmem d).mpr (Or.inr rfl))).ahead r.rest h.rest r.current hhead hpos)

/-- Skipping recovers from a mistake about the token ahead. -/
theorem Deep.unexpected (h : r.Deep ts r.rest.tail depth) (kind : Kind) :
    (r.report ⟨.unexpected kind r.following.kind, r.following.pos⟩).Recovering ts depth := by
  refine .of_recovers h.depth_eq h.depth_pos h.rest ?_
  intro hclear
  have hmem : ∀ e, e ∈ (r.report ⟨.unexpected kind r.following.kind, r.following.pos⟩).diagnostics.toList ↔
      e ∈ r.diagnostics.toList ∨ e = ⟨.unexpected kind r.following.kind, r.following.pos⟩ := by simp [report]
  have hm := h.matched fun e he => hclear e ((hmem e).mpr (Or.inl he))
  have hd := hclear _ ((hmem _).mpr (Or.inr rfl))
  have hnext : r.following ∈ r.rest.tail.head? := by
    rw [show r.rest.tail = r.following :: r.rest.tail.tail from rest_eq_of_matched (r := r.advance) hm h.depth_pos]
    rfl
  have hflat : Flat r.rest.tail := hd.ahead _ ((List.tail_suffix r.rest).trans h.rest) r.following hnext rfl
  show Matched.Recovers depth (resyncTokens true r.rest)
  cases hrest : r.rest with
  | nil =>
    rw [hrest] at hnext
    cases hnext
  | cons t us =>
    have hbehind : t.kind ≠ .rbrace := hd.behind rfl r.rest h.rest r.following hnext rfl t (by rw [hrest]; rfl)
    rw [hrest] at hm hflat
    exact hm.recovers_behind h.depth_pos hbehind hflat

theorem Deep.openBlock (h : r.Deep ts r.rest depth) (hk : r.current.kind = .lbrace) :
    r.openBlock.Deep ts r.openBlock.rest (depth + 1) := by
  refine ⟨congrArg (· + 1) h.depth_eq, Nat.succ_pos depth, (List.tail_suffix r.rest).trans h.rest, ?_⟩
  intro hclear
  have hm := h.matched hclear
  rw [rest_eq_of_matched hm h.depth_pos] at hm
  exact hm.openBlock hk

/-- Reading the first token of a phrase, if it is no brace. -/
theorem Deep.token (h : r.Deep ts r.rest depth) (hk : r.current.kind ≠ .lbrace ∧ r.current.kind ≠ .rbrace) :
    r.Deep ts r.rest.tail depth := by
  refine ⟨h.depth_eq, h.depth_pos, h.rest, ?_⟩
  intro hclear
  have hm := h.matched hclear
  rw [rest_eq_of_matched hm h.depth_pos] at hm
  exact hm.token hk

/-- Ending a block takes no diagnostic away. -/
theorem mem_closeBlock (r : Reading σ) {d : Diagnostic} (hd : d ∈ r.diagnostics.toList) :
    d ∈ r.closeBlock.diagnostics.toList := by
  by_cases hk : r.current.kind = .eof
  · rw [closeBlock_of_eof hk]
    simp only [Array.toList_push]
    exact List.mem_append_left _ hd
  · rw [closeBlock_of_ne_eof hk]
    exact hd

/-- The brace that a block ends at closes it, and the block around it goes on behind the brace. -/
theorem Deep.closeBlock (hts : ∀ t ∈ ts, t.kind ≠ .eof) (hd : 0 < depth) (h : r.Deep ts r.rest (depth + 1))
    (hk : r.current.kind = .rbrace ∨ r.current.kind = .eof) : r.closeBlock.Deep ts r.closeBlock.rest.tail depth := by
  obtain ⟨hrest, hdepth⟩ := r.rest_closeBlock
  refine ⟨by rw [hdepth, h.depth_eq]; rfl, hd, hrest ▸ h.rest, ?_⟩
  intro hclear
  have hm := h.matched fun d hd => hclear d (r.mem_closeBlock hd)
  have hcons := rest_eq_of_matched hm h.depth_pos
  have hbefore : r.current.kind ≠ .eof := by
    refine hts r.current (h.rest.subset ?_)
    rw [hcons]
    exact List.mem_cons_self
  rw [hcons] at hm
  rw [hrest]
  exact hm.closeBlock (hk.resolve_right hbefore)

/-- Reading inside the blocks of a text, phrase by phrase. -/
def deepCourse (tr : Tracer σ) {ts : List Token} (hts : ∀ t ∈ ts, t.kind ≠ .eof) : Course tr where
  Context := Nat
  Starts depth r := r.Deep ts r.rest depth
  Stops depth r := r.Deep ts r.rest.tail depth
  Closes depth r := r.Deep ts r.rest depth
  Refuses depth r := r.Recovering ts depth
  token h hk := h.token hk
  advance h := h.advance
  reject h hd := h.reject hd
  unexpected h _ := h.unexpected _
  announce _ h := ⟨_, h.retrace _, fun h => h.retrace _, fun _ h => h.retrace _,
    fun _ h => ⟨fun hk => (h.brace hk).retrace _, fun hk => (h.tail hk).retrace _⟩⟩
  block h hk := ⟨_, h.openBlock hk, fun _ hs hk => hs.closeBlock hts h.depth_pos hk⟩
  close h _ := h
  closeEarly h _ hk := h.brace hk
  resume h _ hk := (h.tail hk).advance

end Reading

namespace Grammar

variable {tr : Tracer σ} {n : Nat} {r s : Reading σ} {o c : Token} {body : List Token}

/-- A block that all of the text stands in ends at the last token, if all mistakes keep clear of blocks. -/
theorem block_of_clear {b : Block} (hr : r.Ready) (hd : r.depth = 0) (hrest : r.rest = o :: (body ++ [c])) (hb : Balanced body)
    (hc : c.kind = .rbrace) (h : block tr n r = some (b, s)) (hclear : ∀ d ∈ s.diagnostics.toList, d.KeepsClear r.rest) :
    b.token = o ∧ s.advance.rest = [] := by
  cases n with
  | zero => cases h
  | succ n =>
    obtain ⟨ss, u, hi, rfl, rfl⟩ := block_items h
    set r₁ := Reading.openBlock { r with trace := tr.enter Phrase.blockStatement.name r.trace }
    have hinner : r₁.rest = body ++ [c] := by
      show r.rest.tail = _
      rw [hrest]
      rfl
    have hopen : r₁.Deep r.rest r₁.rest 1 := by
      refine ⟨congrArg (· + 1) hd, Nat.one_pos, List.tail_suffix r.rest, ?_⟩
      intro _
      rw [hinner]
      exact .of_balanced hb hc
    have hu : u.Deep r.rest u.rest 1 := (rulesLead (Reading.deepCourse tr hr.rest) n).items hopen ss u hi
    have hm := hu.matched fun d hd => hclear d (u.mem_closeBlock hd)
    have hcons := Reading.rest_eq_of_matched hm Nat.one_pos
    have hbrace : u.current.kind = .rbrace := by
      refine (items_stops hi).resolve_right (hr.rest _ (hu.rest.subset ?_))
      rw [hcons]
      exact List.mem_cons_self
    obtain ⟨pre, hpre⟩ := ((rulesObey (reachesLaw tr) n).items _ ss u hi).rest
    rw [hinner, hcons] at hpre
    rw [hcons] at hm
    have hnil := Matched.eq_nil_of_balanced hb hc hpre hbrace hm
    refine ⟨Reading.current_of_rest hrest, ?_⟩
    show u.closeBlock.rest.tail = []
    rw [u.rest_closeBlock.1, hnil]

/-- A text in braces is read as one block, if all mistakes keep clear of blocks. -/
theorem program_of_clear {ss : List Stmt} (hr : r.Ready) (hd : r.depth = 0) (hrest : r.rest = o :: (body ++ [c]))
    (ho : o.kind = .lbrace) (hb : Balanced body) (hc : c.kind = .rbrace) (h : program tr n r = some (ss, s))
    (hclear : ∀ d ∈ s.diagnostics.toList, d.KeepsClear r.rest) : ∃ xs, ss = [.block ⟨o, xs⟩] := by
  have hcur : r.current.kind = .lbrace := by rw [Reading.current_of_rest hrest, ho]
  match n with
  | 0 => cases h
  | 1 =>
    rw [program_apply, hcur, if_neg (by decide)] at h
    cases h
  | n + 2 =>
    rw [program_apply, statement_apply, hcur, if_neg (by decide)] at h
    rcases hp : block tr n r with _ | ⟨b, v⟩
    · simp [hp] at h
    · simp only [hp, Option.map_some] at h
      obtain ⟨⟨ss', s'⟩, hi, heq⟩ := Option.map_eq_some_iff.mp h
      cases heq
      have hlater : v.advance.Reaches 0 s' := program_obeys (reachesLaw tr) (n + 1) _ _ _ hi
      obtain ⟨htoken, hend⟩ := block_of_clear hr hd hrest hb hc hp fun d hd => hclear d (hlater.diagnostics.subset hd)
      have hready : v.advance.Ready := (hr.reaches ((rulesObey (reachesLaw tr) n).block r b v hp)).advance
      rw [program_apply, if_pos (hready.kind_current_of_rest_nil hend)] at hi
      cases hi
      obtain ⟨t, xs⟩ := b
      cases htoken
      exact ⟨xs, rfl⟩

end Grammar

/-! ## A text in braces -/

/-- A text in braces is read as one block and nothing else, however malformed the statements in it are, as long as all mistakes keep clear
of the blocks inside. -/
theorem parse_block {text : String} {o c : Token} {body : List Token} (htext : (Lexer.ofText text).tokens = o :: (body ++ [c]))
    (ho : o.kind = .lbrace) (hb : Balanced body) (hc : c.kind = .rbrace)
    (hclear : ∀ d ∈ (parse text).diagnostics, d.KeepsClear (Lexer.ofText text).tokens) :
    ∃ ss, (parse text).program.statements = [.block ⟨o, ss⟩] := by
  have hr := Lexer.reading_ready (Lexer.ofText text) ()
  exact Grammar.program_of_clear hr rfl htext ho hb hc (Reading.readAll_spec Tracer.silent hr) hclear

/-- A block with three mistakes: a binding without a name in a function, a sum without its second operand in the block of a choice, and
a closing parenthesis that nothing opens. -/
def mistakenBlock : String := "\x7b fn(x) \x7b let = 1 + x; x \x7d (2); if (y) \x7b 3 + \x7d ) \x7d"

theorem parse_block_mistaken : ∃ o c body, (Lexer.ofText mistakenBlock).tokens = o :: (body ++ [c]) ∧ o.kind = .lbrace ∧
    Balanced body ∧ c.kind = .rbrace ∧
    (∀ d ∈ (parse mistakenBlock).diagnostics, d.KeepsClear (Lexer.ofText mistakenBlock).tokens) ∧
    (parse mistakenBlock).diagnostics.length = 3 ∧ ∃ ss, (parse mistakenBlock).program.statements = [.block ⟨o, ss⟩] := by
  have htext : (Lexer.ofText mistakenBlock).tokens = ⟨.lbrace, "\x7b", ⟨1, 1⟩⟩ ::
      ((Lexer.ofText mistakenBlock).tokens.tail.dropLast ++ [⟨.rbrace, "\x7d", ⟨1, 50⟩⟩]) := by
    decide +kernel
  have hb : Balanced (Lexer.ofText mistakenBlock).tokens.tail.dropLast := by decide +kernel
  have hclear : ∀ d ∈ (parse mistakenBlock).diagnostics, d.KeepsClear (Lexer.ofText mistakenBlock).tokens := by decide +kernel
  exact ⟨_, _, _, htext, rfl, hb, rfl, hclear, by decide +kernel, parse_block htext rfl hb rfl hclear⟩

/-- A binding without a name in front of a block: skipping the binding passes the block's opening brace, and takes its closing brace for
the one of the block around it. -/
def strayBlock : String := "\x7b let \x7b \x7d 1 \x7d"

/-- A text in braces is not always read as one block: after a mistake the block may end at the brace of a block inside, and what is left
of it is read as further statements. -/
theorem block_cut_short : ¬∀ (text : String) (o c : Token) (body : List Token), (Lexer.ofText text).tokens = o :: (body ++ [c]) →
    o.kind = .lbrace → Balanced body → c.kind = .rbrace → ∃ b, (parse text).program.statements = [.block b] := by
  intro h
  have htext : (Lexer.ofText strayBlock).tokens = ⟨.lbrace, "\x7b", ⟨1, 1⟩⟩ ::
      ((Lexer.ofText strayBlock).tokens.tail.dropLast ++ [⟨.rbrace, "\x7d", ⟨1, 13⟩⟩]) := by
    decide +kernel
  obtain ⟨b, hb⟩ := h strayBlock _ _ _ htext rfl (by decide +kernel) rfl
  have htwo : (parse strayBlock).program.statements.length = 2 := by decide +kernel
  rw [hb] at htwo
  cases htwo

/-- A statement that is refused right behind a block inside ends the block around it as well. -/
example : (parse "\x7b (fn() \x7b 1 \x7d 2 \x7d").program.statements.length = 2 := by decide +kernel

end Scriptlet
