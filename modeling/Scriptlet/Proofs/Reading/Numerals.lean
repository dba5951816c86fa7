import Scriptlet.Proofs.Reading.Diagnostics
import Scriptlet.Proofs.Spelling.Genuine
import Scriptlet.Proofs.Token.Numeral

/-!
# The numerals of a text

A numeral of a text is cut off in a form that can be read. With a point in it there is exactly one, and a digit beside it, so it is a
float (`Token.Genuine.float`); without one it is made of digits (`Token.Genuine.integer`). So only an integer can be refused, and that
only if it is too large.

Where an operand starts with an integer, it is the number that the digits stand for in base ten, if that is at most 2^63 - 1. Otherwise
one diagnostic is noted there, with the digits as they are written (`Reading.JudgesInteger`). From then on that token has been read, so
no second one is noted there: over a whole text such diagnostics stand at rising places (`Reading.Judged`), which is a course.
-/

namespace Scriptlet

variable {σ : Type}

/-! ## The numerals among the tokens of a text -/

namespace Token

/-- The numeral of an integer: digits, and at least one. -/
structure IntegerForm (t : Token) : Prop where
  nonempty : t.literal.toList ≠ []
  digits : ∀ c ∈ t.literal.toList, c.isDigit

/-- The numeral of a float: digits, at least one of them, and exactly one point. -/
structure FloatForm (t : Token) : Prop where
  digit : ∃ c ∈ t.literal.toList, c.isDigit
  point : t.literal.toList.count '.' = 1
  digits : ∀ c ∈ t.literal.toList, c = '.' ∨ c.isDigit
  /-- Such a numeral has a value. -/
  value : (Numeral.float? t.literal).isSome

/-- An integer that is above the greatest one of the language. -/
structure TooLarge (t : Token) : Prop where
  kind : t.kind = .int
  value : 2 ^ 63 - 1 < Numeral.decimal t.literal

/-- Digits on both sides of a point, and one on either side at least, are the numeral of a float. -/
theorem floatForm_of_digits {t : Token} {w f : List Char} (ht : t.literal.toList = w ++ '.' :: f) (hne : w ++ f ≠ [])
    (hw : ∀ c ∈ w, c.isDigit) (hf : ∀ c ∈ f, c.isDigit) : t.FloatForm := by
  have hdigits : ∀ c ∈ w ++ f, c.isDigit := List.forall_mem_append.mpr ⟨hw, hf⟩
  have hnone : '.' ∉ w ++ f := fun h => absurd (hdigits '.' h) (by decide)
  have hperm : (w ++ '.' :: f).Perm ('.' :: (w ++ f)) := List.perm_middle
  refine ⟨?_, ?_, ?_, Numeral.float?_of_digits ht hne hw hf⟩ <;> rw [ht]
  · obtain ⟨c, hc⟩ := List.exists_mem_of_ne_nil _ hne
    exact ⟨c, hperm.mem_iff.mpr (List.mem_cons_of_mem _ hc), hdigits c hc⟩
  · rw [hperm.count_eq, List.count_cons_self, List.count_eq_zero_of_not_mem hnone]
  · intro c hc
    obtain rfl | hc := List.mem_cons.mp (hperm.mem_iff.mp hc)
    · exact Or.inl rfl
    · exact Or.inr (hdigits c hc)

namespace Genuine

variable {t : Token} (h : t.Genuine)

include h

/-- An integer of a text is written with digits only. -/
theorem integer (hk : t.kind = .int) : t.IntegerForm := by
  obtain ⟨x, hx, hkind, hlit⟩ := h
  rw [hk] at hkind
  cases hx with
  | @integer w rest hne hw =>
    have hliteral : t.literal.toList = w := by
      rw [hlit, Lexeme.Form.literal_of_ne_string (by simp), String.toList_ofList]
    exact ⟨hliteral ▸ hne, hliteral ▸ hw⟩
  | word => exact absurd hkind.symm (Kind.ofWord_ne rfl _)
  | symbol hsym => exact absurd ((congrArg Kind.isSymbol hkind).trans hsym) (by decide)
  | float | string | unclosed | stray => cases hkind

/-- A float of a text is written with digits and one point. -/
theorem float (hk : t.kind = .float) : t.FloatForm := by
  obtain ⟨x, hx, hkind, hlit⟩ := h
  rw [hk] at hkind
  cases hx with
  | @float w f rest hne hw hf =>
    refine floatForm_of_digits ?_ hne hw hf
    rw [hlit, Lexeme.Form.literal_of_ne_string (by simp), String.toList_ofList]
  | word => exact absurd hkind.symm (Kind.ofWord_ne rfl _)
  | symbol hsym => exact absurd ((congrArg Kind.isSymbol hkind).trans hsym) (by decide)
  | integer | string | unclosed | stray => cases hkind

end Genuine

end Token

/-! ## An operand that starts with an integer -/

namespace Reading

/-- A phrase has been announced, without another one inside it. -/
def announce (tr : Tracer σ) (phrase : Phrase) (r : Reading σ) : Reading σ :=
  { r with trace := tr.leave phrase.name (tr.enter phrase.name r.trace) }

/-- What reading does with an integer at the start of an operand: it is the literal of its value, or it is refused for being too large,
with one diagnostic that quotes it where it stands. -/
structure JudgesInteger (tr : Tracer σ) (r : Reading σ) : Prop where
  fits : Numeral.decimal r.current.literal ≤ 2 ^ 63 - 1 → ∃ v : Int64, v.toInt = Numeral.decimal r.current.literal ∧
    ∀ n, Grammar.operand tr (n + 1) r = some (some (.int r.current v), r.announce tr .integerLiteral)
  tooLarge : 2 ^ 63 - 1 < Numeral.decimal r.current.literal → ∀ n, Grammar.operand tr (n + 1) r =
    some (none, (r.report ⟨.badInteger r.current.literal, r.current.pos⟩).announce tr .integerLiteral)

/-- The announcement changes neither the tokens nor the diagnostics, so the numeral decides. -/
theorem operand_integer (tr : Tracer σ) (n : Nat) {r : Reading σ} (hk : r.current.kind = .int) :
    Grammar.operand tr (n + 1) r = match Numeral.integer? r.current.literal with
      | some v => some (some (.int r.current v), r.announce tr .integerLiteral)
      | none => some (none, (r.report ⟨.badInteger r.current.literal, r.current.pos⟩).announce tr .integerLiteral) := by
  have hcurrent (x : σ) : ({ r with trace := x } : Reading σ).current = r.current := rfl
  rw [Grammar.operand_apply, hk]
  show Grammar.integerLiteral tr r = _
  rw [Grammar.integerLiteral, Grammar.numeralLiteral, Grammar.traced_apply, Parse.get_bind]
  simp only [hcurrent]
  cases Numeral.integer? r.current.literal <;> rfl

theorem judgesInteger (tr : Tracer σ) {r : Reading σ} (hk : r.current.kind = .int) (hform : r.current.IntegerForm) :
    r.JudgesInteger tr := by
  refine ⟨fun hle => ?_, fun hlt n => ?_⟩
  · obtain ⟨v, hv, hint⟩ := Numeral.integer?_of_le hform.nonempty hform.digits hle
    refine ⟨v, hint, fun n => ?_⟩
    rw [operand_integer tr n hk, hv]
  · rw [operand_integer tr n hk, Numeral.integer?_of_lt hlt]

end Reading

/-! ## The diagnostics of numerals -/

/-- A mistake in a numeral. -/
def Problem.isNumeral : Problem → Bool
  | .badInteger _ | .badFloat _ => true
  | .unexpected _ _ | .noOperand _ => false

/-- The diagnostic of an integer that is too large. -/
def Token.tooLarge (t : Token) : Diagnostic := ⟨.badInteger t.literal, t.pos⟩

namespace Reading

/-- The diagnostics so far that are about numerals. -/
def numerals (r : Reading σ) : List Diagnostic := r.diagnostics.toList.filter fun d => d.problem.isNumeral

theorem numerals_report {r : Reading σ} (d : Diagnostic) :
    (r.report d).numerals = r.numerals ++ if d.problem.isNumeral then [d] else [] := by
  unfold numerals report
  rw [Array.toList_push, List.filter_append, List.filter_singleton]
  cases d.problem.isNumeral <;> rfl

/-- What has been noted about numerals: each is an integer that is too large, at places that rise and are in front of what is `unread`. -/
structure Judged (text unread : List Token) (r : Reading σ) : Prop where
  eof : r.eof.kind = .eof
  rest : r.rest <:+ text
  cause : ∀ d ∈ r.numerals, ∃ t ∈ text, t.TooLarge ∧ d = t.tooLarge
  rising : r.numerals.Pairwise fun d e => d.pos < e.pos
  before : ∀ d ∈ r.numerals, ∀ t ∈ unread, d.pos < t.pos

namespace Judged

variable {text unread unread' : List Token} {r s : Reading σ}

/-- Where tokens have been taken off the front, or read, and no numeral has been noted. -/
theorem of_suffix (h : r.Judged text unread) (heof : s.eof = r.eof) (hrest : s.rest <:+ r.rest) (hd : s.numerals = r.numerals)
    (hsub : unread' <:+ unread) : s.Judged text unread' :=
  ⟨heof ▸ h.eof, hrest.trans h.rest, hd ▸ h.cause, hd ▸ h.rising, fun d hmem t ht => h.before d (hd ▸ hmem) t (hsub.subset ht)⟩

/-- Only the tokens and the diagnostics matter. -/
theorem of_eq (h : r.Judged text unread) (heof : s.eof = r.eof) (hrest : s.rest = r.rest) (hd : s.numerals = r.numerals) :
    s.Judged text unread :=
  h.of_suffix heof (hrest ▸ List.suffix_refl _) hd (List.suffix_refl _)

/-- Other mistakes do not matter. -/
theorem report_other {d : Diagnostic} (h : r.Judged text unread) (hd : d.problem.isNumeral = false) :
    (r.report d).Judged text unread :=
  h.of_eq rfl rfl (by rw [numerals_report, hd]; exact List.append_nil _)

/-- A block that is not closed is no mistake in a numeral. -/
theorem closeBlock (h : r.Judged text r.rest.tail) : r.closeBlock.Judged text r.closeBlock.rest.tail := by
  by_cases hk : r.current.kind = .eof
  · have hnote := h.report_other (d := ⟨.unexpected .rbrace .eof, r.current.pos⟩) rfl
    rw [closeBlock_of_eof hk]
    exact hnote.of_eq rfl rfl rfl
  · rw [closeBlock_of_ne_eof hk]
    exact h.of_eq rfl rfl rfl

/-- A numeral that is refused at the current token has not been refused before, and that token has been read now. -/
theorem report_tooLarge {t : Token} {ts : List Token} (h : r.Judged text (t :: ts)) (hr : r.rest = t :: ts) (hrise : Rising text)
    (ht : t.TooLarge) : (r.report t.tooLarge).Judged text ts := by
  have hnumerals : (r.report t.tooLarge).numerals = r.numerals ++ [t.tooLarge] := numerals_report _
  have hrest : Rising (t :: ts) := hrise.sublist (hr ▸ h.rest.sublist)
  refine ⟨h.eof, h.rest, ?_, ?_, ?_⟩ <;> rw [hnumerals]
  · refine List.forall_mem_append.mpr ⟨h.cause, List.forall_mem_singleton.mpr ⟨t, ?_, ht, rfl⟩⟩
    exact h.rest.subset (hr ▸ List.mem_cons_self)
  · refine List.pairwise_append.mpr ⟨h.rising, List.pairwise_singleton _ _, fun d hd => ?_⟩
    exact List.forall_mem_singleton.mpr (h.before d hd t List.mem_cons_self)
  · refine List.forall_mem_append.mpr ⟨fun d hd u hu => h.before d hd u (List.mem_cons_of_mem _ hu), ?_⟩
    exact List.forall_mem_singleton.mpr fun u hu => List.rel_of_pairwise_cons hrest hu

/-- A rule that refuses the current token notes a numeral only if it is an integer that is too large. -/
theorem reject {d : Diagnostic} (h : r.Judged text r.rest) (hrise : Rising text) (hgen : ∀ t ∈ text, t.Genuine) (hd : r.Rejects d) :
    (r.report d).Judged text r.rest.tail := by
  -- a numeral is no end of the text
  have hcons {k : Kind} (hk : r.current.kind = k) (hne : k ≠ .eof) : r.rest = r.current :: r.rest.tail := by
    unfold current at hk ⊢
    cases hr : r.rest with
    | nil =>
      rw [hr] at hk
      exact absurd (hk.symm.trans h.eof) hne
    | cons t ts => rfl
  have hmem {k : Kind} (hk : r.current.kind = k) (hne : k ≠ .eof) : r.current ∈ text :=
    h.rest.subset (hcons hk hne ▸ List.mem_cons_self)
  cases hd with
  | noOperand =>
    exact (h.report_other rfl).of_suffix rfl (List.suffix_refl _) rfl (List.tail_suffix _)
  | badInteger hk hnone =>
    have hform := (hgen _ (hmem hk nofun)).integer hk
    have hlarge : r.current.TooLarge := ⟨hk, Numeral.lt_of_integer?_eq_none hform.nonempty hform.digits hnone⟩
    exact report_tooLarge (hcons hk nofun ▸ h) (hcons hk nofun) hrise hlarge
  | badFloat hk hnone =>
    have hvalue := ((hgen _ (hmem hk nofun)).float hk).value
    rw [hnone] at hvalue
    cases hvalue

end Judged

/-- What has been noted about numerals is in front of the tokens that have not been read. -/
def judgedCourse (tr : Tracer σ) {text : List Token} (hrise : Rising text) (hgen : ∀ t ∈ text, t.Genuine) : Course tr where
  Context := Unit
  Starts _ r := r.Judged text r.rest
  Stops _ r := r.Judged text r.rest.tail
  Closes _ r := r.Judged text r.rest.tail
  Refuses _ r := r.Judged text r.rest.tail
  token h _ := h.of_suffix rfl (List.suffix_refl _) rfl (List.tail_suffix _)
  advance h := h.of_suffix rfl (List.tail_suffix _) rfl (List.suffix_refl _)
  reject h hd := h.reject hrise hgen hd
  unexpected h _ := h.report_other rfl
  announce _ h := ⟨(), h.of_eq rfl rfl rfl, fun h => h.of_eq rfl rfl rfl, fun _ h => h.of_eq rfl rfl rfl,
    fun _ h => h.of_eq rfl rfl rfl⟩
  block h _ := ⟨(), h.of_suffix rfl (List.tail_suffix _) rfl (List.tail_suffix _), fun _ hs _ => hs.closeBlock⟩
  close h _ := h.of_suffix rfl (List.suffix_refl _) rfl (List.tail_suffix _)
  closeEarly h _ _ := h.of_suffix rfl (resyncTokens_suffix _ _) rfl (List.suffix_tail (resyncTokens_suffix _ _))
  resume h _ _ := h.of_suffix rfl ((List.tail_suffix _).trans (resyncTokens_suffix _ _)) rfl (List.suffix_tail (resyncTokens_suffix _ _))

end Reading

/-- What becomes of the numerals of a text. -/
structure NumeralsJudged (tr : Tracer σ) (trace : σ) (text : String) : Prop where
  float : ∀ t ∈ (Lexer.ofText text).tokens, t.kind = .float → t.FloatForm
  integer : ∀ t ∈ (Lexer.ofText text).tokens, t.kind = .int → t.IntegerForm
  /-- Wherever an operand starts with an integer, it is read or refused by its value. -/
  operand : ∀ r : Reading σ, r.current ∈ (Lexer.ofText text).tokens → r.current.kind = .int → r.JudgesInteger tr
  noFloat : ∀ d ∈ (parseTraced tr trace text).diagnostics, ∀ literal, d.problem ≠ .badFloat literal
  tooLarge : ∀ d ∈ (parseTraced tr trace text).diagnostics, ∀ literal, d.problem = .badInteger literal →
    ∃ t ∈ (Lexer.ofText text).tokens, t.TooLarge ∧ t.literal = literal ∧ t.pos = d.pos
  /-- At no place is an integer refused twice. -/
  once : ((parseTraced tr trace text).diagnostics.filter fun d => d.problem.isNumeral).Pairwise fun d e => d.pos < e.pos

/-- A float of a text is never refused, and an integer at the start of an operand is what its digits stand for, unless it is too large:
then it is refused, once. -/
theorem parse_judges_numerals (tr : Tracer σ) (trace : σ) (text : String) : NumeralsJudged tr trace text := by
  have hgen := (Lexer.ofText text).tokens_genuine
  have hready := Lexer.reading_ready (Lexer.ofText text) trace
  have hstart : ((Lexer.ofText text).reading trace).Judged (Lexer.ofText text).tokens ((Lexer.ofText text).reading trace).rest :=
    ⟨hready.eof, List.suffix_refl _, fun _ hd => absurd hd List.not_mem_nil, List.Pairwise.nil, fun _ hd => absurd hd List.not_mem_nil⟩
  have hjudged := Grammar.program_leads (C := Reading.judgedCourse tr (Lexer.ofText text).rising_tokens hgen) (c := ()) _
    (fun _ h _ => h.of_suffix rfl ((List.tail_suffix _).trans (Reading.resyncTokens_suffix _ _)) rfl
      (List.suffix_tail (Reading.resyncTokens_suffix _ _)))
    hstart _ _ (Reading.readAll_spec tr hready)
  -- a diagnostic about a numeral has its cause in the text
  have hcause : ∀ d ∈ (parseTraced tr trace text).diagnostics, d.problem.isNumeral →
      ∃ t ∈ (Lexer.ofText text).tokens, t.TooLarge ∧ d = t.tooLarge :=
    fun d hd hn => hjudged.cause d (List.mem_filter.mpr ⟨hd, hn⟩)
  refine ⟨fun t ht => (hgen t ht).float, fun t ht => (hgen t ht).integer, ?_, ?_, ?_, hjudged.rising⟩
  · intro r hr hk
    exact r.judgesInteger tr hk ((hgen _ hr).integer hk)
  · intro d hd literal hp
    obtain ⟨t, -, -, rfl⟩ := hcause d hd (by rw [hp]; rfl)
    cases hp
  · intro d hd literal hp
    obtain ⟨t, ht, hlarge, rfl⟩ := hcause d hd (by rw [hp]; rfl)
    cases hp
    exact ⟨t, ht, hlarge, rfl, rfl⟩

/-- Zeros at the front do not make a numeral large, and a number that is too large is refused each time it stands in the text. -/
example : (parse "09223372036854775807; .5; 9223372036854775808 + 1; 9223372036854775808").diagnostics =
    [⟨.badInteger "9223372036854775808", ⟨1, 27⟩⟩, ⟨.badInteger "9223372036854775808", ⟨1, 52⟩⟩] := by
  decide +kernel

end Scriptlet
