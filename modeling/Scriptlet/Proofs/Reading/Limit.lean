import Scriptlet.Grammar.Parse
import Scriptlet.Proofs.Reading.Reaches
import Scriptlet.Proofs.Token.Drain

/-!
# The limit is enough

The rules contain each other under a limit, and have no result if it is used up. Between two uses of one rule at least one token
is read, and in between at most four rules contain each other, so a limit of four for each token left and four more is never used
up (`program_ends`). A whole text is read with more than that: `readAll` is what the rules give (`readAll_spec`).
-/

namespace Scriptlet

variable {σ α β : Type}

/-- A step has a result. -/
def Step.Ends (p : Step σ α) (r : Reading σ) : Prop := ∃ x, p r = some x

/-- A parse has a result, whether it finds its phrase or refuses. -/
def Parse.Ends (p : Parse σ α) (r : Reading σ) : Prop := ∃ x, p r = some x

namespace Reading

/-- Fewer than `m` tokens are left. -/
structure Below (m : Nat) (r : Reading σ) : Prop where
  ready : r.Ready
  length_lt : r.rest.length < m

theorem Below.reaches {m owed : Nat} {r s : Reading σ} (h : r.Below m) (h' : r.Reaches owed s) : s.Below m :=
  ⟨h.ready.reaches h', Nat.lt_of_le_of_lt h'.rest.length_le h.length_lt⟩

theorem Below.advance {m : Nat} {r : Reading σ} (h : r.Below m) : r.advance.Below m := h.reaches (.advance r)

theorem Below.expect {m : Nat} {kind : Kind} {r s : Reading σ} {u : Unit} (h : r.Below m)
    (h' : Grammar.expect kind r = some (some u, s)) : s.Below m := by
  rw [Grammar.expect_apply] at h'
  split at h'
  · cases h'
    exact h.advance
  · cases h'

/-- Moving on from a token that is not the end leaves fewer tokens. -/
theorem Ready.below_advance {r : Reading σ} (hr : r.Ready) (hk : r.current.kind ≠ .eof) :
    r.advance.Below r.rest.length := by
  refine ⟨hr.advance, ?_⟩
  rw [hr.rest_eq hk]
  exact Nat.lt_succ_self _

/-- Moving on to a token that has to follow leaves fewer tokens. -/
theorem Ready.below_expect {kind : Kind} {r s : Reading σ} {u : Unit} (hr : r.Ready) (hk : kind ≠ .eof)
    (h : Grammar.expect kind r = some (some u, s)) : s.Below r.rest.length := by
  rw [Grammar.expect_apply] at h
  split at h
  · next hf =>
    cases h
    have htail : r.rest.tail ≠ [] := by
      rw [hr.tail_eq (by rw [hf]; exact hk)]
      exact List.cons_ne_nil _ _
    have hpos := List.length_pos_iff.mpr htail
    have hlen : r.rest.tail.length = r.rest.length - 1 := List.length_tail
    refine ⟨hr.advance, ?_⟩
    show r.rest.tail.length < r.rest.length
    omega
  · cases h

end Reading

/-! ## Steps and parses made of others -/

namespace Parse

variable {r : Reading σ}

theorem Ends.bind {p : Parse σ α} {f : α → Parse σ β} (hp : p.Ends r)
    (hf : ∀ a s, p r = some (some a, s) → (f a).Ends s) : (p >>= f).Ends r := by
  obtain ⟨⟨_ | a, s⟩, hpr⟩ := hp
  · exact ⟨(none, s), by rw [bind_apply, hpr]⟩
  · obtain ⟨x, hx⟩ := hf a s hpr
    exact ⟨x, by rw [bind_apply, hpr]; exact hx⟩

theorem ends_pure (a : α) : (pure a : Parse σ α).Ends r := ⟨_, rfl⟩

theorem ends_refuse (problem : Problem) (pos : Pos) : (Grammar.refuse problem pos : Parse σ α).Ends r := ⟨_, rfl⟩

theorem ends_get_bind {f : Reading σ → Parse σ β} (h : (f r).Ends r) : (get >>= f).Ends r :=
  Ends.bind ⟨_, rfl⟩ fun _ _ e => by cases e; exact h

theorem ends_advance_bind {f : Unit → Parse σ β} (h : (f ()).Ends r.advance) : (modify Reading.advance >>= f).Ends r :=
  Ends.bind ⟨_, rfl⟩ fun _ _ e => by cases e; exact h

theorem ends_lift {p : Step σ α} (h : p.Ends r) : (liftM p : Parse σ α).Ends r := by
  obtain ⟨x, hx⟩ := h
  exact ⟨(some x.1, x.2), by rw [lift_apply, hx]; rfl⟩

end Parse

namespace Grammar

variable {tr : Tracer σ} {r : Reading σ}

theorem identifier_ends : identifier.Ends r := ⟨_, rfl⟩

theorem expect_ends (kind : Kind) : (expect kind).Ends r := by
  unfold Parse.Ends
  rw [expect_apply]
  split
  · exact ⟨_, rfl⟩
  · exact ⟨_, rfl⟩

theorem skipOver_ends (kind : Kind) : (skipOver kind).Ends r := ⟨_, skipOver_apply kind r⟩

theorem announced_ends (phrase : Phrase) {p : Step σ α} (h : ∀ trace, p.Ends { r with trace := trace }) :
    (announced tr phrase p).Ends r := by
  obtain ⟨x, hx⟩ := h (tr.enter phrase.name r.trace)
  exact ⟨_, by rw [announced_apply, hx]; rfl⟩

theorem traced_ends (phrase : Phrase) {p : Parse σ α} (h : ∀ trace, p.Ends { r with trace := trace }) :
    (traced tr phrase p).Ends r := by
  obtain ⟨x, hx⟩ := h (tr.enter phrase.name r.trace)
  exact ⟨_, by rw [traced_apply, hx]; rfl⟩

/-- The token that had to follow is the current one now. -/
theorem expect_current {kind : Kind} {r s : Reading σ} {u : Unit} (h : expect kind r = some (some u, s)) :
    s.current.kind = kind := by
  rw [expect_apply] at h
  split at h
  · next hf =>
    cases h
    exact hf
  · cases h

/-- A part that is lifted leads where the step leads. -/
theorem lift_reaches {p : Step σ α} (hp : ∀ r, p.Obeys (reachesLaw tr) r) {a : α} {s : Reading σ}
    (h : (liftM p : Parse σ α) r = some (some a, s)) : r.Reaches 0 s :=
  Parse.obeys_lift (hp r) (some a) s h

/-! ## Phrases without parts -/

theorem variableName_ends : (variableName tr).Ends r :=
  traced_ends _ fun _ => .bind identifier_ends fun _ _ _ => Parse.ends_pure _

theorem numeralLiteral_ends {ν : Type} (phrase : Phrase) (value? : String → Option ν) (literal : Token → ν → Expr)
    (problem : String → Problem) : (numeralLiteral tr phrase value? literal problem).Ends r := by
  refine traced_ends _ fun _ => Parse.ends_get_bind ?_
  dsimp only
  split
  · exact Parse.ends_pure _
  · exact Parse.ends_refuse _ _

theorem stringLiteral_ends : stringLiteral.Ends r := ⟨_, rfl⟩

theorem boolean_ends : (boolean tr).Ends r :=
  traced_ends _ fun _ => Parse.ends_get_bind (Parse.ends_pure _)

theorem moreParameters_ends {n : Nat} {r : Reading σ} (hr : r.Below n) : (moreParameters n).Ends r := by
  induction n generalizing r with
  | zero => exact absurd hr.length_lt (Nat.not_lt_zero _)
  | succ n ih =>
    refine Parse.ends_get_bind ?_
    dsimp only
    split
    · refine Parse.ends_advance_bind (.bind (expect_ends _) fun _ s hs => .bind identifier_ends fun _ t ht => ?_)
      cases ht
      have hs := hr.ready.advance.below_expect (by decide) hs
      have hlen : r.advance.rest.length ≤ n := by
        have hlt := hr.length_lt
        have htail : r.rest.tail.length = r.rest.length - 1 := List.length_tail
        show r.rest.tail.length ≤ n
        omega
      exact .bind (ih ⟨hs.ready, Nat.lt_of_lt_of_le hs.length_lt hlen⟩) fun _ _ _ => Parse.ends_pure _
    · exact Parse.ends_pure _

theorem parameters_ends {limit : Nat} (hr : r.Below limit) : (parameters tr limit).Ends r := by
  refine traced_ends _ fun trace => Parse.ends_get_bind ?_
  have hr : Reading.Below limit { r with trace := trace } := ⟨hr.ready.retrace trace, hr.length_lt⟩
  dsimp only
  split
  · exact Parse.ends_advance_bind (Parse.ends_pure _)
  · refine .bind (expect_ends _) fun _ s hs => .bind identifier_ends fun _ t ht => ?_
    cases ht
    refine .bind (moreParameters_ends (hr.expect hs)) fun _ _ _ => ?_
    exact .bind (expect_ends _) fun _ _ _ => Parse.ends_pure _

/-! ## Phrases with parts

The parts of a phrase are read where fewer tokens are left than at its start, but for the expression of an expression
statement. -/

section

variable {expression : Precedence → Parse σ Expr} {block : Step σ Block} {m : Nat}
  (hr : r.Ready) (hk : r.current.kind ≠ .eof) (hm : r.rest.length ≤ m)
  (he : ∀ p s, s.Below m → (expression p).Ends s) (hle : ∀ p s, (expression p).Obeys (reachesLaw tr) s)
  (hb : ∀ s, s.Below m → s.current.kind = .lbrace → block.Ends s) (hlb : ∀ s, block.Obeys (reachesLaw tr) s)

include hr in
/-- Moving on from the first token of a phrase leaves fewer tokens than the limit of its parts. -/
theorem below_retrace_advance (hk : r.current.kind ≠ .eof) (hm : r.rest.length ≤ m) (trace : σ) :
    Reading.Below m (Reading.advance { r with trace := trace }) := by
  have h := (hr.retrace trace).below_advance hk
  exact ⟨h.ready, Nat.lt_of_lt_of_le h.length_lt hm⟩

include hr in
theorem below_retrace_expect {kind : Kind} (hkind : kind ≠ .eof) (hm : r.rest.length ≤ m) {trace : σ} {u : Unit}
    {s : Reading σ} (h : expect kind { r with trace := trace } = some (some u, s)) : s.Below m := by
  have h := (hr.retrace trace).below_expect hkind h
  exact ⟨h.ready, Nat.lt_of_lt_of_le h.length_lt hm⟩

include hr hm he in
theorem letStatement_ends : (letStatement tr expression).Ends r := by
  refine traced_ends _ fun trace => Parse.ends_get_bind (.bind (expect_ends _) fun _ s hs => ?_)
  refine .bind identifier_ends fun _ t ht => .bind (expect_ends _) fun _ u hu => Parse.ends_advance_bind ?_
  cases ht
  have hb := (below_retrace_expect hr (by decide) hm hs).expect hu
  exact .bind (he _ _ hb.advance) fun _ _ _ => .bind (skipOver_ends _) fun _ _ _ => Parse.ends_pure _

include hr hk hm he in
theorem returnStatement_ends : (returnStatement tr expression).Ends r := by
  refine traced_ends _ fun trace => Parse.ends_get_bind (Parse.ends_advance_bind ?_)
  have hb := below_retrace_advance hr hk hm trace
  exact .bind (he _ _ hb) fun _ _ _ => .bind (skipOver_ends _) fun _ _ _ => Parse.ends_pure _

theorem expressionStatement_ends (he : ∀ trace, (expression .lowest).Ends { r with trace := trace }) :
    (expressionStatement tr expression).Ends r := by
  refine traced_ends _ fun trace => Parse.ends_get_bind ?_
  exact .bind (he trace) fun _ _ _ => .bind (skipOver_ends _) fun _ _ _ => Parse.ends_pure _

include hr hk hm he in
theorem unaryExpression_ends : (unaryExpression tr expression).Ends r := by
  refine traced_ends _ fun trace => Parse.ends_get_bind (Parse.ends_advance_bind ?_)
  exact .bind (he _ _ (below_retrace_advance hr hk hm trace)) fun _ _ _ => Parse.ends_pure _

include hr hk hm he in
theorem binaryExpression_ends (left : Expr) : (binaryExpression tr expression left).Ends r := by
  refine traced_ends _ fun trace => Parse.ends_get_bind (Parse.ends_advance_bind ?_)
  exact .bind (he _ _ (below_retrace_advance hr hk hm trace)) fun _ _ _ => Parse.ends_pure _

include hr hk hm he in
theorem groupedExpression_ends : (groupedExpression expression).Ends r := by
  refine Parse.ends_advance_bind (.bind (he _ _ (below_retrace_advance hr hk hm r.trace)) fun _ _ _ => ?_)
  exact .bind (expect_ends _) fun _ _ _ => Parse.ends_pure _

include hb in
theorem alternative_ends {s : Reading σ} (hs : s.Below m) : (alternative block).Ends s := by
  refine Parse.ends_get_bind ?_
  dsimp only
  split
  · refine Parse.ends_advance_bind (.bind (expect_ends _) fun _ t ht => ?_)
    exact .bind (Parse.ends_lift (hb _ (hs.advance.expect ht) (expect_current ht))) fun _ _ _ => Parse.ends_pure _
  · exact Parse.ends_pure _

include hr hm he hle hb hlb in
theorem conditional_ends : (conditional tr expression block).Ends r := by
  refine traced_ends _ fun trace => Parse.ends_get_bind (.bind (expect_ends _) fun _ s hs => ?_)
  have hs := below_retrace_expect hr (by decide) hm hs
  refine Parse.ends_advance_bind (.bind (he _ _ hs.advance) fun c t ht => .bind (expect_ends _) fun _ u hu => ?_)
  have hu := (hs.advance.reaches (hle _ _ (some c) t ht)).expect hu
  refine .bind (expect_ends _) fun _ v hv => ?_
  refine .bind (Parse.ends_lift (hb _ (hu.expect hv) (expect_current hv))) fun a w hw => ?_
  have hw := (hu.expect hv).reaches (lift_reaches hlb hw)
  exact .bind (alternative_ends hb hw) fun _ _ _ => Parse.ends_pure _

include hr hm hb in
theorem functionLiteral_ends {limit : Nat} (hlimit : m ≤ limit) : (functionLiteral tr block limit).Ends r := by
  refine traced_ends _ fun trace => Parse.ends_get_bind (.bind (expect_ends _) fun _ s hs => ?_)
  have hs := below_retrace_expect hr (by decide) hm hs
  refine .bind (parameters_ends ⟨hs.ready, Nat.lt_of_lt_of_le hs.length_lt hlimit⟩) fun ps t ht => ?_
  have ht := hs.reaches (parameters_obeys (L := reachesLaw tr) limit (some ps) t ht)
  refine .bind (expect_ends _) fun _ u hu => ?_
  exact .bind (Parse.ends_lift (hb _ (ht.expect hu) (expect_current hu))) fun _ _ _ => Parse.ends_pure _

theorem callExpression_ends {arguments : Parse σ (List Expr)} (ha : ∀ trace, arguments.Ends { r with trace := trace })
    (callee : Expr) : (callExpression tr arguments callee).Ends r :=
  traced_ends _ fun trace => Parse.ends_get_bind <| .bind (ha trace) fun _ _ _ => Parse.ends_pure _

end

/-! ## Phrases that contain each other -/

/-- After a statement, read or skipped, there is less left than before it. -/
theorem advance_below {r s : Reading σ} (hr : r.Ready) (hk : r.current.kind ≠ .eof) (hs : s.Ready)
    (hrest : s.rest <:+ r.rest) : s.advance.Below r.rest.length := by
  have hpos : 0 < r.rest.length := by
    rw [hr.rest_eq hk]
    exact Nat.succ_pos _
  have hlen : s.rest.tail.length = s.rest.length - 1 := List.length_tail
  have hle := hrest.length_le
  refine ⟨hs.advance, ?_⟩
  show s.rest.tail.length < r.rest.length
  omega

/-- The limits under which the rules that contain each other have a result. -/
structure RulesEnd (tr : Tracer σ) (n : Nat) : Prop where
  expression (p : Precedence) {r : Reading σ} : r.Ready → 4 * r.rest.length + 2 ≤ n → (expression tr n p).Ends r
  operand {r : Reading σ} : r.Ready → 4 * r.rest.length + 1 ≤ n → (operand tr n).Ends r
  climb (p : Precedence) (left : Expr) {r : Reading σ} : r.Ready → 4 * r.rest.length + 1 ≤ n → (climb tr n p left).Ends r
  extension (kind : Kind) (left : Expr) {r : Reading σ} : r.Ready → r.current.kind ≠ .eof →
    4 * r.rest.length + 2 ≤ n → (extension tr n kind left).Ends r
  arguments {r : Reading σ} : r.Ready → r.current.kind ≠ .eof → 4 * r.rest.length + 1 ≤ n → (arguments tr n).Ends r
  moreArguments {r : Reading σ} : r.Ready → 4 * r.rest.length + 1 ≤ n → (moreArguments tr n).Ends r
  statement {r : Reading σ} : r.Ready → 4 * r.rest.length + 3 ≤ n → (statement tr n).Ends r
  block {r : Reading σ} : r.Ready → r.current.kind = .lbrace → 4 * r.rest.length + 1 ≤ n → (block tr n).Ends r
  items {r : Reading σ} : r.Ready → 4 * r.rest.length + 4 ≤ n → (items tr n).Ends r

namespace RulesEnd

variable {n : Nat} (h : RulesEnd tr n)

include h

/-- What is left of the limit of an operand is enough for expressions that start later. -/
theorem expression_below {m : Nat} (hm : 4 * m ≤ n + 2) (p : Precedence) (s : Reading σ) (hs : s.Below m) :
    (Grammar.expression tr n p).Ends s := by
  have hlt := hs.length_lt
  exact h.expression p hs.ready (by omega)

theorem expression_succ (p : Precedence) {r : Reading σ} (hr : r.Ready) (hn : 4 * r.rest.length + 2 ≤ n + 1) :
    (Grammar.expression tr (n + 1) p).Ends r := by
  refine traced_ends _ fun trace => .bind (h.operand (hr.retrace trace) (by show 4 * r.rest.length + 1 ≤ n; omega)) ?_
  intro e s hs
  have hreach := (rulesObey (reachesLaw tr) n).operand _ (some e) s hs
  have hlen : s.rest.length ≤ r.rest.length := hreach.rest.length_le
  exact h.climb p e ((hr.retrace trace).reaches hreach) (by omega)

theorem block_below {m : Nat} (hm : 4 * m ≤ n + 3) (s : Reading σ) (hs : s.Below m) (hk : s.current.kind = .lbrace) :
    (Grammar.block tr n).Ends s := by
  have hlt := hs.length_lt
  exact h.block hs.ready hk (by omega)

theorem operand_succ {r : Reading σ} (hr : r.Ready) (hn : 4 * r.rest.length + 1 ≤ n + 1) :
    (Grammar.operand tr (n + 1)).Ends r := by
  have he := h.expression_below (m := r.rest.length) (by omega)
  have hb := h.block_below (m := r.rest.length) (by omega)
  have hle := (rulesObey (reachesLaw tr) n).expression
  have hlb := (rulesObey (reachesLaw tr) n).block
  refine Parse.ends_get_bind ?_
  dsimp only
  split
  · exact variableName_ends
  · exact numeralLiteral_ends ..
  · exact numeralLiteral_ends ..
  · exact stringLiteral_ends
  · exact boolean_ends
  · exact boolean_ends
  · next hk => exact unaryExpression_ends hr (by rw [hk]; decide) (Nat.le_refl _) he
  · next hk => exact unaryExpression_ends hr (by rw [hk]; decide) (Nat.le_refl _) he
  · next hk => exact groupedExpression_ends hr (by rw [hk]; decide) (Nat.le_refl _) he
  · exact conditional_ends hr (Nat.le_refl _) he hle hb hlb
  · exact functionLiteral_ends hr (Nat.le_refl _) hb (by omega)
  · exact Parse.ends_refuse _ _

theorem climb_succ (p : Precedence) (left : Expr) {r : Reading σ} (hr : r.Ready)
    (hn : 4 * r.rest.length + 1 ≤ n + 1) : (Grammar.climb tr (n + 1) p left).Ends r := by
  refine Parse.ends_get_bind ?_
  dsimp only
  split
  · next hp =>
    -- an operator that binds is not the end of the text
    have hk : r.following.kind ≠ .eof := by
      intro hk
      rw [hk] at hp
      exact absurd hp (Nat.not_lt_zero _)
    have htail := hr.tail_eq hk
    have hlen : r.advance.rest.length + 1 ≤ r.rest.length := by
      have hpos : r.rest.tail.length = r.rest.length - 1 := List.length_tail
      have hcons : r.rest.tail.length = r.rest.tail.tail.length + 1 := by
        conv => lhs; rw [htail]
        rfl
      show r.rest.tail.length + 1 ≤ r.rest.length
      omega
    refine Parse.ends_advance_bind (.bind (h.extension _ _ hr.advance hk (by omega)) fun e s hs => ?_)
    have hreach := (rulesObey (reachesLaw tr) n).extension _ _ _ (some e) s hs
    have hlen' := hreach.rest.length_le
    exact h.climb p e (hr.advance.reaches hreach) (by omega)
  · exact Parse.ends_pure _

theorem extension_succ (kind : Kind) (left : Expr) {r : Reading σ} (hr : r.Ready) (hk : r.current.kind ≠ .eof)
    (hn : 4 * r.rest.length + 2 ≤ n + 1) : (Grammar.extension tr (n + 1) kind left).Ends r := by
  unfold Grammar.extension
  split
  · refine callExpression_ends (fun trace => h.arguments (hr.retrace trace) hk ?_) left
    show 4 * r.rest.length + 1 ≤ n
    omega
  · exact binaryExpression_ends hr hk (Nat.le_refl _) (h.expression_below (by omega)) left

theorem arguments_succ {r : Reading σ} (hr : r.Ready) (hk : r.current.kind ≠ .eof)
    (hn : 4 * r.rest.length + 1 ≤ n + 1) : (Grammar.arguments tr (n + 1)).Ends r := by
  have hb := hr.below_advance hk
  have hlt := hb.length_lt
  refine Parse.ends_get_bind ?_
  dsimp only
  split
  · exact Parse.ends_advance_bind (Parse.ends_pure _)
  · refine Parse.ends_advance_bind (.bind (h.expression _ hb.ready (by omega)) fun e s hs => ?_)
    have hs := hb.reaches ((rulesObey (reachesLaw tr) n).expression _ _ (some e) s hs)
    have hlt' := hs.length_lt
    exact .bind (h.moreArguments hs.ready (by omega)) fun _ _ _ => .bind (expect_ends _) fun _ _ _ => Parse.ends_pure _

theorem moreArguments_succ {r : Reading σ} (hr : r.Ready) (hn : 4 * r.rest.length + 1 ≤ n + 1) :
    (Grammar.moreArguments tr (n + 1)).Ends r := by
  refine Parse.ends_get_bind ?_
  dsimp only
  split
  · next hk =>
    have hk : r.advance.current.kind ≠ .eof := by
      show r.following.kind ≠ .eof
      rw [hk]
      decide
    have hb := hr.advance.below_advance hk
    have hlt := hb.length_lt
    have hle : r.advance.rest.length ≤ r.rest.length := (List.tail_suffix r.rest).length_le
    refine Parse.ends_advance_bind (Parse.ends_advance_bind (.bind (h.expression _ hb.ready (by omega)) ?_))
    intro e s hs
    have hs := hb.reaches ((rulesObey (reachesLaw tr) n).expression _ _ (some e) s hs)
    have hlt' := hs.length_lt
    exact .bind (h.moreArguments hs.ready (by omega)) fun _ _ _ => Parse.ends_pure _
  · exact Parse.ends_pure _

theorem statement_succ {r : Reading σ} (hr : r.Ready) (hn : 4 * r.rest.length + 3 ≤ n + 1) :
    (Grammar.statement tr (n + 1)).Ends r := by
  have he := h.expression_below (m := r.rest.length) (by omega)
  refine Parse.ends_get_bind ?_
  dsimp only
  split
  · exact letStatement_ends hr (Nat.le_refl _) he
  · next hk => exact returnStatement_ends hr (by rw [hk]; decide) (Nat.le_refl _) he
  · next hk => exact .bind (Parse.ends_lift (h.block hr hk (by omega))) fun _ _ _ => Parse.ends_pure _
  · refine expressionStatement_ends fun trace => h.expression _ (hr.retrace trace) ?_
    show 4 * r.rest.length + 2 ≤ n
    omega

theorem block_succ {r : Reading σ} (hr : r.Ready) (hk : r.current.kind = .lbrace)
    (hn : 4 * r.rest.length + 1 ≤ n + 1) : (Grammar.block tr (n + 1)).Ends r := by
  unfold Step.Ends
  rw [block_apply]
  refine announced_ends _ fun trace => ?_
  have hb := below_retrace_advance hr (by rw [hk]; decide) (Nat.le_refl _) trace
  have hlt : r.advance.rest.length < r.rest.length := hb.length_lt
  have hlimit : 4 * (Reading.openBlock { r with trace := trace }).rest.length + 4 ≤ n := by
    show 4 * r.advance.rest.length + 4 ≤ n
    omega
  have hready : (Reading.openBlock { r with trace := trace }).Ready := ⟨hb.ready.eof, hb.ready.rest⟩
  obtain ⟨x, hx⟩ := h.items hready hlimit
  exact ⟨_, Option.map_eq_some_iff.mpr ⟨x, hx, rfl⟩⟩

theorem items_succ {r : Reading σ} (hr : r.Ready) (hn : 4 * r.rest.length + 4 ≤ n + 1) :
    (Grammar.items tr (n + 1)).Ends r := by
  unfold Step.Ends
  rw [items_apply]
  split
  · exact ⟨_, rfl⟩
  · next hk =>
    rw [not_or] at hk
    obtain ⟨⟨s?, s⟩, hs⟩ := h.statement hr (by omega)
    have hreach := (rulesObey (reachesLaw tr) n).statement r s? s hs
    rw [hs]
    cases s? with
    | some st =>
      have hb := advance_below hr hk.2 (hr.reaches hreach) hreach.rest
      have hlt := hb.length_lt
      obtain ⟨x, hx⟩ := h.items hb.ready (by omega)
      exact ⟨_, Option.map_eq_some_iff.mpr ⟨x, hx, rfl⟩⟩
    | none =>
      have hreach : r.Reaches 0 s.resync := Reading.Reaches.resync hreach
      have hb := advance_below hr hk.2 (hr.reaches hreach) hreach.rest
      have hlt := hb.length_lt
      dsimp only
      split
      · exact ⟨_, rfl⟩
      · exact h.items hb.ready (by omega)

end RulesEnd

/-- The limits are enough. -/
theorem rulesEnd (tr : Tracer σ) (n : Nat) : RulesEnd tr n := by
  induction n with
  | zero => constructor <;> intros <;> omega
  | succ n ih =>
    exact ⟨ih.expression_succ, ih.operand_succ, ih.climb_succ, ih.extension_succ, ih.arguments_succ,
      ih.moreArguments_succ, ih.statement_succ, ih.block_succ, ih.items_succ⟩

/-- A limit of four for each token left and four more is enough for the statements of a program. -/
theorem program_ends (tr : Tracer σ) {n : Nat} {r : Reading σ} (hr : r.Ready) (hn : 4 * r.rest.length + 4 ≤ n) :
    (program tr n).Ends r := by
  induction n generalizing r with
  | zero => omega
  | succ n ih =>
    unfold Step.Ends
    rw [program_apply]
    split
    · exact ⟨_, rfl⟩
    · next hk =>
      obtain ⟨⟨s?, s⟩, hs⟩ := (rulesEnd tr n).statement hr (by omega)
      have hreach := (rulesObey (reachesLaw tr) n).statement r s? s hs
      rw [hs]
      cases s? with
      | some st =>
        have hb := advance_below hr hk (hr.reaches hreach) hreach.rest
        have hlt := hb.length_lt
        obtain ⟨x, hx⟩ := ih hb.ready (by omega)
        exact ⟨_, Option.map_eq_some_iff.mpr ⟨x, hx, rfl⟩⟩
      | none =>
        have hreach : r.Reaches 0 s.resync := Reading.Reaches.resync hreach
        have hb := advance_below hr hk (hr.reaches hreach) hreach.rest
        have hlt := hb.length_lt
        exact ih hb.ready (by omega)

end Grammar

/-! ## Whole texts -/

/-- A text is read with a limit that is enough. -/
theorem Reading.readAll_spec (tr : Tracer σ) {r : Reading σ} (hr : r.Ready) :
    Grammar.program tr r.limit r = some (r.readAll tr) := by
  obtain ⟨x, hx⟩ := Grammar.program_ends tr (n := r.limit) hr (by unfold Reading.limit; omega)
  unfold Reading.readAll
  rw [show (Grammar.program tr r.limit).run r = some x from hx]
  exact hx

/-- Reading a text starts with tokens that are not its end. -/
theorem Lexer.reading_ready (l : Lexer) (trace : σ) : (l.reading trace).Ready := ⟨rfl, l.kind_ne_eof⟩

end Scriptlet
