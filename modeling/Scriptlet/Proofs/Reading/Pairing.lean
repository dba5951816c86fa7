import Scriptlet.Proofs.Reading.Reaches
import Scriptlet.Proofs.Tree.Tokens

/-!
# Two readings side by side

A `Pairing` relates readings of two texts, watched by a tracer each. Related readings have the same current token, but for its place;
the relation has to be kept by the few steps that all rules are made of: moving on by one token, noting a diagnostic, announcing a
phrase, skipping the rest of a statement, and opening and closing a block. Then every rule that ends on the first text ends on the
second one, finds the same phrase with its tokens at their other places or refuses as well, and leads to related readings
(`Grammar.rulesPair`). The limit for the second text may be larger.

Moving on is what may fail, where one of the texts ends and the other does not. A rule moves on from a closing brace only by ending
its block, and from a semicolon only inside a block, so no more is asked of a pairing. A phrase that is found ends where the readings
stay related when both move on (`Pairing.Past`); a statement may also end at a semicolon (`Pairing.Ended`).
-/

namespace Scriptlet

variable {σ τ α β : Type}

/-- A relation between readings of two texts that the steps of reading keep. -/
structure Pairing (tr : Tracer σ) (tr' : Tracer τ) where
  /-- The place in the second text of what stands at a place in the first one. -/
  place : Pos → Pos
  Holds : Reading σ → Reading τ → Prop
  current {r : Reading σ} {r' : Reading τ} : Holds r r' → r'.current = r.current.move place
  advance {r : Reading σ} {r' : Reading τ} : Holds r r' → r.current.kind ≠ .rbrace →
    (r.current.kind = .semicolon → 0 < r.depth) → Holds r.advance r'.advance
  report {r : Reading σ} {r' : Reading τ} (problem : Problem) (pos : Pos) : Holds r r' →
    Holds (r.report ⟨problem, pos⟩) (r'.report ⟨problem, place pos⟩)
  enter {r : Reading σ} {r' : Reading τ} (name : String) : Holds r r' →
    Holds { r with trace := tr.enter name r.trace } { r' with trace := tr'.enter name r'.trace }
  leave {r : Reading σ} {r' : Reading τ} (name : String) : Holds r r' →
    Holds { r with trace := tr.leave name r.trace } { r' with trace := tr'.leave name r'.trace }
  resync {r : Reading σ} {r' : Reading τ} : Holds r r' → Holds r.resync r'.resync
  openBlock {r : Reading σ} {r' : Reading τ} : Holds r r' → r.current.kind = .lbrace → Holds r.openBlock r'.openBlock
  closeBlock {r : Reading σ} {r' : Reading τ} : Holds r r' → r.current.kind = .rbrace ∨ r.current.kind = .eof → 0 < r.depth →
    Holds r.closeBlock r'.closeBlock ∧ Holds r.closeBlock.advance r'.closeBlock.advance

variable {tr : Tracer σ} {tr' : Tracer τ}

namespace Pairing

variable (P : Pairing tr tr') {r : Reading σ} {r' : Reading τ}

/-- The readings are related, and they still are when both move on. -/
def Past (r : Reading σ) (r' : Reading τ) : Prop := P.Holds r r' ∧ P.Holds r.advance r'.advance

/-- The readings are related, and they still are when both move on, unless they are at a semicolon. -/
def Ended (r : Reading σ) (r' : Reading τ) : Prop := P.Holds r r' ∧ (r.current.kind ≠ .semicolon → P.Holds r.advance r'.advance)

variable {P}

theorem Past.following (h : P.Past r r') : r'.following = r.following.move P.place := P.current h.2

theorem Past.ended (h : P.Past r r') : P.Ended r r' := ⟨h.1, fun _ => h.2⟩

theorem Past.leave (name : String) (h : P.Past r r') :
    P.Past { r with trace := tr.leave name r.trace } { r' with trace := tr'.leave name r'.trace } :=
  ⟨P.leave name h.1, P.leave name h.2⟩

theorem Past.enter (name : String) (h : P.Past r r') :
    P.Past { r with trace := tr.enter name r.trace } { r' with trace := tr'.enter name r'.trace } :=
  ⟨P.enter name h.1, P.enter name h.2⟩

theorem Ended.leave (name : String) (h : P.Ended r r') :
    P.Ended { r with trace := tr.leave name r.trace } { r' with trace := tr'.leave name r'.trace } :=
  ⟨P.leave name h.1, fun hk => P.leave name (h.2 hk)⟩

/-- Readings that are related inside a phrase can move on. -/
theorem past {k : Kind} (h : P.Holds r r') (hk : r.current.kind = k) (hne : k ≠ .rbrace ∧ k ≠ .semicolon) : P.Past r r' := by
  subst hk
  exact ⟨h, P.advance h hne.1 fun e => absurd e hne.2⟩

/-- Inside a block, the readings can move on behind a statement. -/
theorem Ended.advance (h : P.Ended r r') (hd : 0 < r.depth) : P.Holds r.advance r'.advance := by
  by_cases hk : r.current.kind = .semicolon
  · exact P.advance h.1 (by rw [hk]; decide) fun _ => hd
  · exact h.2 hk

end Pairing

/-! ## Steps and parses -/

/-- If the first step ends, the second one ends with the same result, but for the places, and the readings are related. -/
def Step.Pairs (E : α → Reading σ → Reading τ → Prop) (f : α → β) (p : Step σ α) (r : Reading σ) (p' : Step τ β)
    (r' : Reading τ) : Prop :=
  ∀ a s, p r = some (a, s) → ∃ s', p' r' = some (f a, s') ∧ E a s s'

/-- What holds of readings behind a phrase that is found, or where it is refused. -/
def Pairing.Stops (P : Pairing tr tr') (E : Reading σ → Reading τ → Prop) : Option α → Reading σ → Reading τ → Prop
  | some _ => E
  | none => P.Holds

/-- If the first parse ends, the second one ends with the same phrase, but for the places, or both refuse. -/
def Parse.Pairs (P : Pairing tr tr') (E : Reading σ → Reading τ → Prop) (f : α → β) (p : Parse σ α) (r : Reading σ)
    (p' : Parse τ β) (r' : Reading τ) : Prop :=
  Step.Pairs (P.Stops E) (Option.map f) p.run r p'.run r'

variable {P : Pairing tr tr'} {E E' : Reading σ → Reading τ → Prop} {f : α → β} {r : Reading σ} {r' : Reading τ}

namespace Parse

variable {γ δ : Type} {g : γ → δ}

theorem Pairs.bind {p : Parse σ α} {p' : Parse τ β} {k : α → Parse σ γ} {k' : β → Parse τ δ}
    (hp : Parse.Pairs P E f p r p' r') (hk : ∀ a s s', E s s' → Parse.Pairs P E' g (k a) s (k' (f a)) s') :
    Parse.Pairs P E' g (p >>= k) r (p' >>= k') r' := by
  intro c? t ht
  rw [run_apply, bind_apply] at ht
  rw [run_apply, bind_apply]
  rcases hpr : p r with _ | ⟨_ | a, s⟩
  · rw [hpr] at ht
    cases ht
  · rw [hpr] at ht
    cases ht
    obtain ⟨s', hs', hE⟩ := hp none _ hpr
    rw [show p' r' = _ from hs']
    exact ⟨s', rfl, hE⟩
  · rw [hpr] at ht
    obtain ⟨s', hs', hE⟩ := hp (some a) s hpr
    rw [show p' r' = _ from hs']
    exact hk a s s' hE c? t ht

theorem pairs_pure (hr : E r r') {a : α} {b : β} (hb : b = f a) :
    Parse.Pairs P E f (pure a : Parse σ α) r (pure b : Parse τ β) r' := by
  intro a? s hs
  cases hs
  exact ⟨r', by rw [hb]; rfl, hr⟩

theorem pairs_get_bind {k : Reading σ → Parse σ γ} {k' : Reading τ → Parse τ δ}
    (hk : Parse.Pairs P E g (k r) r (k' r') r') : Parse.Pairs P E g (get >>= k) r (get >>= k') r' := hk

theorem pairs_advance_bind {k : Unit → Parse σ γ} {k' : Unit → Parse τ δ}
    (hk : Parse.Pairs P E g (k ()) r.advance (k' ()) r'.advance) :
    Parse.Pairs P E g (modify Reading.advance >>= k) r (modify Reading.advance >>= k') r' := hk

theorem pairs_refuse (hr : P.Holds r r') (problem : Problem) {pos pos' : Pos} (hpos : pos' = P.place pos) :
    Parse.Pairs P E f (Grammar.refuse problem pos : Parse σ α) r (Grammar.refuse problem pos' : Parse τ β) r' := by
  subst hpos
  intro a? s hs
  cases hs
  exact ⟨_, rfl, P.report problem pos hr⟩

theorem pairs_lift {p : Step σ α} {p' : Step τ β} (hp : Step.Pairs (fun _ => E) f p r p' r') :
    Parse.Pairs P E f (liftM p : Parse σ α) r (liftM p' : Parse τ β) r' := by
  intro a? s hs
  rw [run_apply, lift_apply, Option.map_eq_some_iff] at hs
  obtain ⟨⟨a, u⟩, hpr, heq⟩ := hs
  cases heq
  obtain ⟨u', hu', hE⟩ := hp a u hpr
  rw [run_apply, lift_apply, hu']
  exact ⟨u', rfl, hE⟩

end Parse

namespace Grammar

/-- An announced step, if what holds behind it does not depend on the tracers. -/
theorem announced_pairs {E : α → Reading σ → Reading τ → Prop} (phrase : Phrase) {p : Step σ α} {p' : Step τ β}
    (hE : ∀ a s s', E a s s' →
      E a { s with trace := tr.leave phrase.name s.trace } { s' with trace := tr'.leave phrase.name s'.trace })
    (hp : Step.Pairs E f p { r with trace := tr.enter phrase.name r.trace } p'
      { r' with trace := tr'.enter phrase.name r'.trace }) :
    Step.Pairs E f (announced tr phrase p) r (announced tr' phrase p') r' := by
  intro a s hs
  rw [announced_apply, Option.map_eq_some_iff] at hs
  obtain ⟨⟨b, u⟩, hpr, heq⟩ := hs
  cases heq
  obtain ⟨u', hu', hb⟩ := hp b u hpr
  rw [announced_apply, hu']
  exact ⟨_, rfl, hE b u u' hb⟩

/-- An announced phrase, if what holds before it and behind it does not depend on the tracers. -/
theorem traced_pairs {A : Reading σ → Reading τ → Prop} (phrase : Phrase) {p : Parse σ α} {p' : Parse τ β}
    (hA : ∀ {s s'}, A s s' →
      A { s with trace := tr.enter phrase.name s.trace } { s' with trace := tr'.enter phrase.name s'.trace })
    (hE : ∀ {s s'}, E s s' →
      E { s with trace := tr.leave phrase.name s.trace } { s' with trace := tr'.leave phrase.name s'.trace })
    (hr : A r r') (hp : ∀ s s', A s s' → Parse.Pairs P E f p s p' s') :
    Parse.Pairs P E f (traced tr phrase p) r (traced tr' phrase p') r' := by
  refine announced_pairs phrase (fun a? s s' h => ?_) (hp _ _ (hA hr))
  cases a? with
  | none => exact P.leave phrase.name h
  | some a => exact hE h

/-- An announced phrase that the readings can move on from, before it is read and behind it. -/
theorem traced_past (phrase : Phrase) {p : Parse σ α} {p' : Parse τ β} (hr : P.Past r r')
    (hp : ∀ s s', P.Past s s' → Parse.Pairs P P.Past f p s p' s') :
    Parse.Pairs P P.Past f (traced tr phrase p) r (traced tr' phrase p') r' :=
  traced_pairs phrase (Pairing.Past.enter phrase.name) (Pairing.Past.leave phrase.name) hr hp

theorem identifier_pairs (hr : P.Past r r') :
    Parse.Pairs P P.Past (Identifier.move P.place) identifier r identifier r' := by
  intro a? s hs
  cases hs
  refine ⟨r', ?_, hr⟩
  rw [Parse.run_apply, identifier_apply, P.current hr.1]
  rfl

/-- The token that has to follow is no closing brace and no semicolon, so the readings can move on from it. -/
theorem expect_pairs {kind : Kind} (hk : kind ≠ .rbrace ∧ kind ≠ .semicolon) (hr : P.Past r r') :
    Parse.Pairs P (fun s s' => P.Past s s' ∧ s.current.kind = kind) id (expect kind) r (expect kind) r' := by
  intro a? s hs
  rw [Parse.run_apply, expect_apply] at hs
  rw [Parse.run_apply, expect_apply, hr.following, Token.kind_move]
  split at hs
  · next h =>
    cases hs
    rw [if_pos h]
    exact ⟨_, rfl, Pairing.past hr.2 h hk, h⟩
  · next h =>
    cases hs
    rw [if_neg h]
    exact ⟨_, rfl, P.report _ _ hr.1⟩

/-- A semicolon may end a statement. -/
theorem skipOver_pairs (hr : P.Past r r') :
    Parse.Pairs P P.Ended id (skipOver .semicolon) r (skipOver .semicolon) r' := by
  intro a? s hs
  rw [Parse.run_apply, skipOver_apply] at hs
  rw [Parse.run_apply, skipOver_apply, hr.following, Token.kind_move]
  cases hs
  refine ⟨_, rfl, ?_⟩
  split
  · next h => exact ⟨hr.2, fun hk => absurd h hk⟩
  · exact hr.ended

/-! ## Phrases without parts -/

theorem variableName_pairs (hr : P.Past r r') :
    Parse.Pairs P P.Past (Expr.move P.place) (variableName tr) r (variableName tr') r' := by
  refine traced_past _ hr fun s s' hs => (identifier_pairs hs).bind fun id _ _ hs => Parse.pairs_pure hs ?_
  simp [Expr.mapTokens]

theorem numeralLiteral_pairs {ν : Type} {phrase : Phrase} {value? : String → Option ν} {literal : Token → ν → Expr}
    {problem : String → Problem} (hr : P.Past r r') (hmove : ∀ t v, literal (t.move P.place) v = (literal t v).move P.place) :
    Parse.Pairs P P.Past (Expr.move P.place) (numeralLiteral tr phrase value? literal problem) r
      (numeralLiteral tr' phrase value? literal problem) r' := by
  refine traced_past _ hr fun s s' hs => Parse.pairs_get_bind ?_
  dsimp only
  rw [P.current hs.1, Token.literal_move]
  split
  · exact Parse.pairs_pure hs (hmove _ _)
  · exact Parse.pairs_refuse hs.1 _ rfl

theorem stringLiteral_pairs (hr : P.Past r r') :
    Parse.Pairs P P.Past (Expr.move P.place) stringLiteral r stringLiteral r' := by
  refine Parse.pairs_get_bind (Parse.pairs_pure hr ?_)
  rw [P.current hr.1]
  simp [Expr.mapTokens]

theorem boolean_pairs (hr : P.Past r r') : Parse.Pairs P P.Past (Expr.move P.place) (boolean tr) r (boolean tr') r' := by
  refine traced_past _ hr fun s s' hs => Parse.pairs_get_bind (Parse.pairs_pure hs ?_)
  rw [P.current hs.1]
  simp [Expr.mapTokens]

theorem moreParameters_pairs {n n' : Nat} (hn : n ≤ n') (hr : P.Past r r') :
    Parse.Pairs P P.Past (List.map (Identifier.move P.place)) (moreParameters n) r (moreParameters n') r' := by
  induction n generalizing n' r r' with
  | zero => exact nofun
  | succ n ih =>
    obtain ⟨n', rfl⟩ := Nat.exists_eq_add_of_le' (Nat.lt_of_lt_of_le (Nat.succ_pos n) hn)
    refine Parse.pairs_get_bind ?_
    dsimp only
    rw [hr.following, Token.kind_move]
    split
    · next hk =>
      have hcomma := Pairing.past hr.2 hk (by decide)
      refine Parse.pairs_advance_bind ((expect_pairs (by decide) hcomma).bind fun _ _ _ hs => ?_)
      refine (identifier_pairs hs.1).bind fun _ _ _ hs => (ih (Nat.le_of_succ_le_succ hn) hs).bind fun _ _ _ hs => ?_
      exact Parse.pairs_pure hs rfl
    · exact Parse.pairs_pure hr rfl

theorem parameters_pairs {limit limit' : Nat} (hlimit : limit ≤ limit') (hr : P.Past r r') :
    Parse.Pairs P P.Past (List.map (Identifier.move P.place)) (parameters tr limit) r (parameters tr' limit') r' := by
  refine traced_past _ hr fun s s' hs => Parse.pairs_get_bind ?_
  dsimp only
  rw [hs.following, Token.kind_move]
  split
  · next hk => exact Parse.pairs_advance_bind (Parse.pairs_pure (Pairing.past hs.2 hk (by decide)) rfl)
  · refine (expect_pairs (by decide) hs).bind fun _ _ _ hs => (identifier_pairs hs.1).bind fun _ _ _ hs => ?_
    refine (moreParameters_pairs hlimit hs).bind fun _ _ _ hs => (expect_pairs (by decide) hs).bind fun _ _ _ hs => ?_
    exact Parse.pairs_pure hs.1 rfl

/-! ## Phrases with parts -/

section

variable {expression : Precedence → Parse σ Expr} {expression' : Precedence → Parse τ Expr} {block : Step σ Block}
  {block' : Step τ Block}
  (he : ∀ p s s', P.Holds s s' → Parse.Pairs P P.Past (Expr.move P.place) (expression p) s (expression' p) s')
  (hb : ∀ s s', P.Holds s s' → s.current.kind = .lbrace →
    Step.Pairs (fun _ => P.Past) (Block.move P.place) block s block' s')

include he

theorem letStatement_pairs (hr : P.Past r r') :
    Parse.Pairs P P.Ended (Stmt.move P.place) (letStatement tr expression) r (letStatement tr' expression') r' := by
  refine traced_pairs _ (Pairing.Past.enter _) (Pairing.Ended.leave _) hr fun r r' hr => Parse.pairs_get_bind ?_
  refine (expect_pairs (by decide) hr).bind fun _ _ _ hs => (identifier_pairs hs.1).bind fun _ _ _ hs => ?_
  refine (expect_pairs (by decide) hs).bind fun _ _ _ hs => Parse.pairs_advance_bind ?_
  refine (he _ _ _ hs.1.2).bind fun _ _ _ hs => (skipOver_pairs hs).bind fun _ _ _ hs => Parse.pairs_pure hs ?_
  rw [P.current hr.1]
  simp [Stmt.mapTokens]

theorem returnStatement_pairs (hr : P.Past r r') :
    Parse.Pairs P P.Ended (Stmt.move P.place) (returnStatement tr expression) r (returnStatement tr' expression') r' := by
  refine traced_pairs _ (Pairing.Past.enter _) (Pairing.Ended.leave _) hr fun r r' hr => Parse.pairs_get_bind ?_
  refine Parse.pairs_advance_bind ((he _ _ _ hr.2).bind fun _ _ _ hs => (skipOver_pairs hs).bind fun _ _ _ hs => ?_)
  refine Parse.pairs_pure hs ?_
  rw [P.current hr.1]
  simp [Stmt.mapTokens]

theorem expressionStatement_pairs (hr : P.Holds r r') :
    Parse.Pairs P P.Ended (Stmt.move P.place) (expressionStatement tr expression) r
      (expressionStatement tr' expression') r' := by
  refine traced_pairs _ (P.enter _) (Pairing.Ended.leave _) hr fun r r' hr => Parse.pairs_get_bind ?_
  refine (he _ _ _ hr).bind fun _ _ _ hs => (skipOver_pairs hs).bind fun _ _ _ hs => Parse.pairs_pure hs ?_
  rw [P.current hr]
  simp [Stmt.mapTokens]

theorem unaryExpression_pairs (hr : P.Past r r') :
    Parse.Pairs P P.Past (Expr.move P.place) (unaryExpression tr expression) r (unaryExpression tr' expression') r' := by
  refine traced_past _ hr fun r r' hr => Parse.pairs_get_bind (Parse.pairs_advance_bind ?_)
  refine (he _ _ _ hr.2).bind fun _ _ _ hs => Parse.pairs_pure hs ?_
  rw [P.current hr.1]
  simp [Expr.mapTokens]

theorem binaryExpression_pairs (left : Expr) (hr : P.Past r r') :
    Parse.Pairs P P.Past (Expr.move P.place) (binaryExpression tr expression left) r
      (binaryExpression tr' expression' (left.move P.place)) r' := by
  refine traced_past _ hr fun r r' hr => Parse.pairs_get_bind (Parse.pairs_advance_bind ?_)
  rw [P.current hr.1, Token.kind_move]
  refine (he _ _ _ hr.2).bind fun _ _ _ hs => Parse.pairs_pure hs ?_
  simp [Expr.mapTokens]

theorem groupedExpression_pairs (hr : P.Past r r') :
    Parse.Pairs P P.Past (Expr.move P.place) (groupedExpression expression) r (groupedExpression expression') r' := by
  refine Parse.pairs_advance_bind ((he _ _ _ hr.2).bind fun _ _ _ hs => ?_)
  exact (expect_pairs (by decide) hs).bind fun _ _ _ hs => Parse.pairs_pure hs.1 rfl

omit he in
include hb in
theorem alternative_pairs (hr : P.Past r r') :
    Parse.Pairs P P.Past (Option.map (Block.move P.place)) (alternative block) r (alternative block') r' := by
  refine Parse.pairs_get_bind ?_
  dsimp only
  rw [hr.following, Token.kind_move]
  split
  · next hk =>
    have helse := Pairing.past hr.2 hk (by decide)
    refine Parse.pairs_advance_bind ((expect_pairs (by decide) helse).bind fun _ _ _ hs => ?_)
    exact (Parse.pairs_lift (hb _ _ hs.1.1 hs.2)).bind fun _ _ _ hs => Parse.pairs_pure hs rfl
  · exact Parse.pairs_pure hr rfl

include hb in
theorem conditional_pairs (hr : P.Past r r') :
    Parse.Pairs P P.Past (Expr.move P.place) (conditional tr expression block) r (conditional tr' expression' block') r' := by
  refine traced_past _ hr fun r r' hr => Parse.pairs_get_bind ((expect_pairs (by decide) hr).bind fun _ _ _ hs => ?_)
  refine Parse.pairs_advance_bind ((he _ _ _ hs.1.2).bind fun _ _ _ hs => ?_)
  refine (expect_pairs (by decide) hs).bind fun _ _ _ hs => (expect_pairs (by decide) hs.1).bind fun _ _ _ hs => ?_
  refine (Parse.pairs_lift (hb _ _ hs.1.1 hs.2)).bind fun _ _ _ hs => (alternative_pairs hb hs).bind fun _ _ _ hs => ?_
  refine Parse.pairs_pure hs ?_
  rw [P.current hr.1]
  exact (Expr.mapTokens_cond _ _ _ _ _ _).symm

omit he in
include hb in
theorem functionLiteral_pairs {limit limit' : Nat} (hlimit : limit ≤ limit') (hr : P.Past r r') :
    Parse.Pairs P P.Past (Expr.move P.place) (functionLiteral tr block limit) r (functionLiteral tr' block' limit') r' := by
  refine traced_past _ hr fun r r' hr => Parse.pairs_get_bind ((expect_pairs (by decide) hr).bind fun _ _ _ hs => ?_)
  refine (parameters_pairs hlimit hs.1).bind fun _ _ _ hs => (expect_pairs (by decide) hs).bind fun _ _ _ hs => ?_
  refine (Parse.pairs_lift (hb _ _ hs.1.1 hs.2)).bind fun _ _ _ hs => Parse.pairs_pure hs ?_
  rw [P.current hr.1]
  simp [Expr.mapTokens]

omit he in
theorem callExpression_pairs {arguments : Parse σ (List Expr)} {arguments' : Parse τ (List Expr)}
    (ha : ∀ s s', P.Past s s' → Parse.Pairs P P.Past (List.map (Expr.move P.place)) arguments s arguments' s') (callee : Expr)
    (hr : P.Past r r') :
    Parse.Pairs P P.Past (Expr.move P.place) (callExpression tr arguments callee) r
      (callExpression tr' arguments' (callee.move P.place)) r' := by
  refine traced_past _ hr fun r r' hr => Parse.pairs_get_bind ((ha _ _ hr).bind fun _ _ _ hs => ?_)
  refine Parse.pairs_pure hs ?_
  rw [P.current hr.1]
  simp [Expr.mapTokens, Expr.mapAllTokens_eq_map]

end

/-! ## Phrases that contain each other -/

/-- The rules that contain each other lead from related readings to related readings, under the limits `n` and `n'`. -/
structure RulesPair (P : Pairing tr tr') (n n' : Nat) : Prop where
  expression (p : Precedence) (r : Reading σ) (r' : Reading τ) : P.Holds r r' →
    Parse.Pairs P P.Past (Expr.move P.place) (expression tr n p) r (expression tr' n' p) r'
  operand (r : Reading σ) (r' : Reading τ) : P.Holds r r' →
    Parse.Pairs P P.Past (Expr.move P.place) (operand tr n) r (operand tr' n') r'
  climb (p : Precedence) (left : Expr) (r : Reading σ) (r' : Reading τ) : P.Past r r' →
    Parse.Pairs P P.Past (Expr.move P.place) (climb tr n p left) r (climb tr' n' p (left.move P.place)) r'
  extension (kind : Kind) (left : Expr) (r : Reading σ) (r' : Reading τ) : P.Past r r' →
    Parse.Pairs P P.Past (Expr.move P.place) (extension tr n kind left) r (extension tr' n' kind (left.move P.place)) r'
  arguments (r : Reading σ) (r' : Reading τ) : P.Past r r' →
    Parse.Pairs P P.Past (List.map (Expr.move P.place)) (arguments tr n) r (arguments tr' n') r'
  moreArguments (r : Reading σ) (r' : Reading τ) : P.Past r r' →
    Parse.Pairs P P.Past (List.map (Expr.move P.place)) (moreArguments tr n) r (moreArguments tr' n') r'
  statement (r : Reading σ) (r' : Reading τ) : P.Holds r r' →
    Parse.Pairs P P.Ended (Stmt.move P.place) (statement tr n) r (statement tr' n') r'
  block (r : Reading σ) (r' : Reading τ) : P.Holds r r' → r.current.kind = .lbrace →
    Step.Pairs (fun _ => P.Past) (Block.move P.place) (block tr n) r (block tr' n') r'
  items (r : Reading σ) (r' : Reading τ) : P.Holds r r' → 0 < r.depth →
    Step.Pairs (fun _ => P.Holds) (List.map (Stmt.move P.place)) (items tr n) r (items tr' n') r'

/-- A token that binds is no closing brace and no semicolon. -/
theorem ne_of_lt_precedence {p : Precedence} {k : Kind} (h : p < k.precedence) : k ≠ .rbrace ∧ k ≠ .semicolon := by
  refine ⟨?_, ?_⟩ <;> rintro rfl <;> exact absurd h (Nat.not_lt_zero _)

namespace RulesPair

variable {n n' : Nat} (h : RulesPair P n n')

include h

theorem expression_succ (p : Precedence) (r : Reading σ) (r' : Reading τ) (hr : P.Holds r r') :
    Parse.Pairs P P.Past (Expr.move P.place) (Grammar.expression tr (n + 1) p) r (Grammar.expression tr' (n' + 1) p) r' := by
  rw [Grammar.expression, Grammar.expression]
  refine traced_pairs _ (P.enter _) (Pairing.Past.leave _) hr fun _ _ hs => (h.operand _ _ hs).bind fun _ _ _ hs => ?_
  exact h.climb _ _ _ _ hs

theorem operand_succ (hn : n ≤ n') (r : Reading σ) (r' : Reading τ) (hr : P.Holds r r') :
    Parse.Pairs P P.Past (Expr.move P.place) (Grammar.operand tr (n + 1)) r (Grammar.operand tr' (n' + 1)) r' := by
  unfold Parse.Pairs Step.Pairs
  rw [Parse.run_apply, Parse.run_apply, operand_apply, operand_apply, P.current hr, Token.kind_move]
  split
  · next hk => exact variableName_pairs (Pairing.past hr hk (by decide))
  · next hk => exact numeralLiteral_pairs (Pairing.past hr hk (by decide)) fun t v => by simp [Expr.mapTokens]
  · next hk => exact numeralLiteral_pairs (Pairing.past hr hk (by decide)) fun t v => by simp [Expr.mapTokens]
  · next hk => exact stringLiteral_pairs (Pairing.past hr hk (by decide))
  · next hk => exact boolean_pairs (Pairing.past hr hk (by decide))
  · next hk => exact boolean_pairs (Pairing.past hr hk (by decide))
  · next hk => exact unaryExpression_pairs h.expression (Pairing.past hr hk (by decide))
  · next hk => exact unaryExpression_pairs h.expression (Pairing.past hr hk (by decide))
  · next hk => exact groupedExpression_pairs h.expression (Pairing.past hr hk (by decide))
  · next hk => exact conditional_pairs h.expression h.block (Pairing.past hr hk (by decide))
  · next hk => exact functionLiteral_pairs h.block hn (Pairing.past hr hk (by decide))
  · exact Parse.pairs_refuse hr _ rfl

theorem climb_succ (p : Precedence) (left : Expr) (r : Reading σ) (r' : Reading τ) (hr : P.Past r r') :
    Parse.Pairs P P.Past (Expr.move P.place) (Grammar.climb tr (n + 1) p left) r
      (Grammar.climb tr' (n' + 1) p (left.move P.place)) r' := by
  rw [Grammar.climb, Grammar.climb]
  refine Parse.pairs_get_bind ?_
  dsimp only
  rw [hr.following, Token.kind_move]
  split
  · next hk =>
    have hop := Pairing.past hr.2 rfl (ne_of_lt_precedence hk)
    exact Parse.pairs_advance_bind ((h.extension _ _ _ _ hop).bind fun _ _ _ hs => h.climb _ _ _ _ hs)
  · exact Parse.pairs_pure hr rfl

theorem extension_succ (kind : Kind) (left : Expr) (r : Reading σ) (r' : Reading τ) (hr : P.Past r r') :
    Parse.Pairs P P.Past (Expr.move P.place) (Grammar.extension tr (n + 1) kind left) r
      (Grammar.extension tr' (n' + 1) kind (left.move P.place)) r' := by
  rw [Grammar.extension, Grammar.extension]
  split
  · exact callExpression_pairs h.arguments left hr
  · exact binaryExpression_pairs h.expression left hr

theorem arguments_succ (r : Reading σ) (r' : Reading τ) (hr : P.Past r r') :
    Parse.Pairs P P.Past (List.map (Expr.move P.place)) (Grammar.arguments tr (n + 1)) r
      (Grammar.arguments tr' (n' + 1)) r' := by
  rw [Grammar.arguments, Grammar.arguments]
  refine Parse.pairs_get_bind ?_
  dsimp only
  rw [hr.following, Token.kind_move]
  split
  · next hk => exact Parse.pairs_advance_bind (Parse.pairs_pure (Pairing.past hr.2 hk (by decide)) rfl)
  · refine Parse.pairs_advance_bind ((h.expression _ _ _ hr.2).bind fun _ _ _ hs => ?_)
    refine (h.moreArguments _ _ hs).bind fun _ _ _ hs => (expect_pairs (by decide) hs).bind fun _ _ _ hs => ?_
    exact Parse.pairs_pure hs.1 rfl

theorem moreArguments_succ (r : Reading σ) (r' : Reading τ) (hr : P.Past r r') :
    Parse.Pairs P P.Past (List.map (Expr.move P.place)) (Grammar.moreArguments tr (n + 1)) r
      (Grammar.moreArguments tr' (n' + 1)) r' := by
  rw [Grammar.moreArguments, Grammar.moreArguments]
  refine Parse.pairs_get_bind ?_
  dsimp only
  rw [hr.following, Token.kind_move]
  split
  · next hk =>
    have hcomma := Pairing.past hr.2 hk (by decide)
    refine Parse.pairs_advance_bind (Parse.pairs_advance_bind ((h.expression _ _ _ hcomma.2).bind fun _ _ _ hs => ?_))
    exact (h.moreArguments _ _ hs).bind fun _ _ _ hs => Parse.pairs_pure hs rfl
  · exact Parse.pairs_pure hr rfl

theorem statement_succ (r : Reading σ) (r' : Reading τ) (hr : P.Holds r r') :
    Parse.Pairs P P.Ended (Stmt.move P.place) (Grammar.statement tr (n + 1)) r (Grammar.statement tr' (n' + 1)) r' := by
  unfold Parse.Pairs Step.Pairs
  rw [Parse.run_apply, Parse.run_apply, statement_apply, statement_apply, P.current hr, Token.kind_move]
  split
  · next hk => exact letStatement_pairs h.expression (Pairing.past hr hk (by decide))
  · next hk => exact returnStatement_pairs h.expression (Pairing.past hr hk (by decide))
  · next hk =>
    intro a? s hs
    obtain ⟨⟨b, u⟩, hp, heq⟩ := Option.map_eq_some_iff.mp hs
    cases heq
    obtain ⟨u', hp', hu⟩ := h.block r r' hr hk b u hp
    rw [hp']
    exact ⟨u', by simp [Stmt.mapTokens], hu.ended⟩
  · exact expressionStatement_pairs h.expression hr

theorem block_succ (r : Reading σ) (r' : Reading τ) (hr : P.Holds r r') (hk : r.current.kind = .lbrace) :
    Step.Pairs (fun _ => P.Past) (Block.move P.place) (Grammar.block tr (n + 1)) r (Grammar.block tr' (n' + 1)) r' := by
  unfold Step.Pairs
  rw [block_apply, block_apply]
  refine announced_pairs _ (fun _ _ _ hs => hs.leave _) ?_
  have hs := P.enter Phrase.blockStatement.name hr
  intro b s hb
  obtain ⟨⟨ss, u⟩, hp, heq⟩ := Option.map_eq_some_iff.mp hb
  cases heq
  obtain ⟨u', hp', hu⟩ := h.items _ _ (P.openBlock hs hk) (Nat.succ_pos _) ss u hp
  -- the block ends as deep as it was opened
  have hdepth : u.depth = r.depth + 1 := ((rulesObey (reachesLaw tr) n).items _ ss u hp).depth
  refine ⟨u'.closeBlock, ?_, P.closeBlock hu (items_stops hp) (by rw [hdepth]; exact Nat.succ_pos _)⟩
  dsimp only
  rw [hp', P.current hs]
  simp [Block.mapTokens, Stmt.mapAllTokens_eq_map]

theorem items_succ (r : Reading σ) (r' : Reading τ) (hr : P.Holds r r') (hd : 0 < r.depth) :
    Step.Pairs (fun _ => P.Holds) (List.map (Stmt.move P.place)) (Grammar.items tr (n + 1)) r
      (Grammar.items tr' (n' + 1)) r' := by
  intro ss t hx
  rw [items_apply] at hx
  rw [items_apply, P.current hr, Token.kind_move]
  split at hx
  · next hk =>
    cases hx
    rw [if_pos hk]
    exact ⟨r', rfl, hr⟩
  · next hk =>
    rw [if_neg hk]
    rcases hp : Grammar.statement tr n r with _ | ⟨_ | x, s⟩
    · rw [hp] at hx
      cases hx
    · obtain ⟨s', hp', hs⟩ := h.statement r r' hr none s hp
      have hskip := P.resync hs
      have hd' : 0 < s.resync.depth := by
        rw [Reading.depth_resync, depth_statement hp]
        exact hd
      rw [hp] at hx
      rw [show Grammar.statement tr' n' r' = _ from hp']
      simp only [Option.map_none] at hx ⊢
      rw [P.current hskip, Token.kind_move]
      split at hx
      · next hend =>
        cases hx
        rw [if_pos hend]
        exact ⟨_, rfl, hskip⟩
      · next hend =>
        rw [if_neg hend]
        exact h.items _ _ (P.advance hskip hend fun _ => hd') hd' ss t hx
    · obtain ⟨s', hp', hs⟩ := h.statement r r' hr (some x) s hp
      have hd' : 0 < s.depth := by
        rw [depth_statement hp]
        exact hd
      rw [hp] at hx
      rw [show Grammar.statement tr' n' r' = _ from hp']
      simp only [Option.map_some] at hx ⊢
      obtain ⟨⟨ss', u⟩, hi, heq⟩ := Option.map_eq_some_iff.mp hx
      cases heq
      obtain ⟨u', hi', hu⟩ := h.items _ _ (Pairing.Ended.advance hs hd') hd' ss' u hi
      rw [hi']
      exact ⟨u', rfl, hu⟩

end RulesPair

/-- Every rule leads from related readings to related readings, if the second limit is no smaller than the first one. -/
theorem rulesPair (P : Pairing tr tr') {n n' : Nat} (hn : n ≤ n') : RulesPair P n n' := by
  induction n generalizing n' with
  | zero =>
    exact ⟨fun _ _ _ _ => nofun, fun _ _ _ => nofun, fun _ _ _ _ _ => nofun, fun _ _ _ _ _ => nofun, fun _ _ _ => nofun,
      fun _ _ _ => nofun, fun _ _ _ => nofun, fun _ _ _ _ => nofun, fun _ _ _ _ => nofun⟩
  | succ n ih =>
    obtain ⟨n', rfl⟩ := Nat.exists_eq_add_of_le' (Nat.lt_of_lt_of_le (Nat.succ_pos n) hn)
    have h := Nat.le_of_succ_le_succ hn
    have ih := ih h
    exact ⟨ih.expression_succ, ih.operand_succ h, ih.climb_succ, ih.extension_succ, ih.arguments_succ, ih.moreArguments_succ,
      ih.statement_succ, ih.block_succ, ih.items_succ⟩

end Grammar

end Scriptlet
