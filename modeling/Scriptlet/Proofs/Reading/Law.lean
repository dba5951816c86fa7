import Scriptlet.Proofs.Reading.Course

/-!
# Laws of reading

A `Law` relates a reading to the readings that a rule leads to, in one of two ways: where the rule finds its phrase, or where it
refuses after noting a diagnostic. A law has to hold of the few steps that all rules are made of: moving on by one token, noting
a diagnostic about one of the two tokens in view, announcing a phrase, skipping the rest of a statement, and opening and closing
a block. Then it holds of every rule (`Grammar.rulesObey`, `Grammar.program_obeys`), whatever the text: what a law says of the way
from a reading is a course, with that reading as the context (`Law.course`).
-/

namespace Scriptlet

variable {σ α β : Type}

namespace Reading

/-- A diagnostic that a rule may note: it is about the current token, or about the one after it. -/
inductive Complains (r : Reading σ) : Diagnostic → Prop where
  | current {d : Diagnostic} : r.Rejects d → Complains r d
  | unexpected {kind : Kind} : r.following.kind ≠ kind →
      Complains r ⟨.unexpected kind r.following.kind, r.following.pos⟩

end Reading

/-- What holds between a reading and the readings after it: `Holds true` where a phrase is found in between, `Holds false` where
the rule refuses. -/
structure Law (tr : Tracer σ) where
  Holds : Bool → Reading σ → Reading σ → Prop
  refl (r : Reading σ) : Holds true r r
  trans {found : Bool} {r s t : Reading σ} : Holds true r s → Holds found s t → Holds found r t
  advance (r : Reading σ) : Holds true r r.advance
  report {r : Reading σ} {d : Diagnostic} : r.Complains d → Holds false r (r.report d)
  announced {found : Bool} {r s : Reading σ} (phrase : Phrase) :
    Holds found { r with trace := tr.enter phrase.name r.trace } s →
      Holds found r { s with trace := tr.leave phrase.name s.trace }
  resync {r s : Reading σ} : Holds false r s → Grammar.LeavesUnread tr s → Holds true r s.resync
  block {r s : Reading σ} : Holds true r.openBlock s → s.current.kind = .rbrace ∨ s.current.kind = .eof →
    Holds true r s.closeBlock

variable {tr : Tracer σ}

/-- The readings on the way from another one. Inside a block or an announced phrase, the way starts anew. -/
def Law.course (L : Law tr) : Course tr where
  Context := Reading σ
  Starts := L.Holds true
  Stops := L.Holds true
  Closes := L.Holds true
  Refuses := L.Holds false
  token h _ := h
  advance h := L.trans h (L.advance _)
  reject h hd := L.trans h (L.report (.current hd))
  unexpected h hk := L.trans h (L.report (.unexpected hk))
  announce phrase h := ⟨_, L.refl _, fun _ => L.refl _, fun _ hs => L.trans h (L.announced phrase hs),
    fun _ hs => L.trans h (L.announced phrase hs)⟩
  block h _ := ⟨_, L.refl _, fun _ hs hk => L.trans h (L.block hs hk)⟩
  close h _ := h
  closeEarly h hs _ := L.resync h hs
  resume h hs _ := L.trans (L.resync h hs) (L.advance _)

/-- A step obeys a law at a reading: the law holds of where the step leads to. -/
def Step.Obeys (L : Law tr) (p : Step σ α) (r : Reading σ) : Prop :=
  ∀ a r', p r = some (a, r') → L.Holds true r r'

/-- A parse obeys a law at a reading, whether it finds its phrase there or refuses. -/
def Parse.Obeys (L : Law tr) (p : Parse σ α) (r : Reading σ) : Prop :=
  ∀ a? r', p r = some (a?, r') → L.Holds a?.isSome r r'

variable {L : Law tr} {r : Reading σ}

namespace Parse

/-- A parse obeys a law where it leads to what the law allows. -/
theorem obeys_of_leads {p : Parse σ α} (h : p.Leads (L.Holds false r) (L.Holds true r) r) : p.Obeys L r := by
  intro a? s hp
  cases a? with
  | none => exact h.refused hp
  | some a => exact h.found hp

/-- A step that always has a result, used where a phrase may be missing. -/
theorem obeys_lift {p : Step σ α} (h : p.Obeys L r) : (liftM p : Parse σ α).Obeys L r := obeys_of_leads (leads_lift h)

end Parse

namespace Grammar

theorem at_course (L : Law tr) (r : Reading σ) : L.course.At r r := ⟨L.refl r, L.refl r⟩

theorem moreParameters_obeys (n : Nat) (r : Reading σ) : (moreParameters n).Obeys L r :=
  Parse.obeys_of_leads (moreParameters_leads (C := L.course) n (L.refl r))

theorem parameters_obeys (limit : Nat) : (parameters tr limit).Obeys L r :=
  Parse.obeys_of_leads (parameters_leads limit (at_course L r))

theorem alternative_obeys {block : Step σ Block} (hb : ∀ r, block.Obeys L r) : (alternative block).Obeys L r := by
  refine Parse.obeys_of_leads (alternative_leads (C := L.course) ?_ (L.refl r))
  intro o s hs _ b t hp
  exact L.trans hs (hb s b t hp)

/-- The rules that contain each other obey a law under the limit `n`. -/
structure RulesObey (L : Law tr) (n : Nat) : Prop where
  expression (p : Precedence) (r : Reading σ) : (expression tr n p).Obeys L r
  operand (r : Reading σ) : (operand tr n).Obeys L r
  climb (p : Precedence) (left : Expr) (r : Reading σ) : (climb tr n p left).Obeys L r
  extension (kind : Kind) (left : Expr) (r : Reading σ) : (extension tr n kind left).Obeys L r
  arguments (r : Reading σ) : (arguments tr n).Obeys L r
  moreArguments (r : Reading σ) : (moreArguments tr n).Obeys L r
  statement (r : Reading σ) : (statement tr n).Obeys L r
  block (r : Reading σ) : (block tr n).Obeys L r
  items (r : Reading σ) : (items tr n).Obeys L r

/-- A block obeys a law wherever it is read, not only at an opening brace. -/
theorem block_obeys (L : Law tr) (n : Nat) (r : Reading σ) : (block tr n).Obeys L r := by
  cases n with
  | zero => exact nofun
  | succ n =>
    intro b t hb
    obtain ⟨ss, u, hi, -, rfl⟩ := block_items hb
    exact L.announced .blockStatement (L.block ((rulesLead L.course n).items (L.refl _) ss u hi) (items_stops hi))

/-- A law holds of every rule, whatever the limit. -/
theorem rulesObey (L : Law tr) (n : Nat) : RulesObey L n where
  expression _ r := Parse.obeys_of_leads ((rulesLead L.course n).expression (L.refl r))
  operand r := Parse.obeys_of_leads ((rulesLead L.course n).operand (L.refl r))
  climb _ _ r := Parse.obeys_of_leads ((rulesLead L.course n).climb (L.refl r))
  extension _ _ r := Parse.obeys_of_leads ((rulesLead L.course n).extension (at_course L r))
  arguments r := Parse.obeys_of_leads ((rulesLead L.course n).arguments (L.refl r))
  moreArguments r := Parse.obeys_of_leads ((rulesLead L.course n).moreArguments (L.refl r))
  statement r := Parse.obeys_of_leads ((rulesLead L.course n).statement (L.refl r))
  block := block_obeys L n
  items r := (rulesLead L.course n).items (L.refl r)

/-- A law holds of the statements of a program. -/
theorem program_obeys (L : Law tr) (n : Nat) (r : Reading σ) : (program tr n).Obeys L r :=
  program_leads (C := L.course) n (fun _ h hs => L.trans (L.resync h hs) (L.advance _)) (L.refl r)

end Grammar

end Scriptlet
