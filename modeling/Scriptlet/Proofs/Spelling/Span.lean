import Mathlib.Data.List.Infix
import Scriptlet.Proofs.Spelling
import Scriptlet.Proofs.Tree.Nodes

/-!
# The grammar with parts left out

Tokens span a tree if they are those of the tree, phrase by phrase, with other tokens left out between the statements of a program or a
block, and without the closing brace of a block (`Stmt.SpansAll`). Inside an expression nothing is left out but in its blocks. There
are no levels here: that an expression is grouped as it should be is a matter of the grammar alone (`Expr.Spelled`).

The tokens of a tree's nodes, in the order of the text, are some of the tokens that span the tree, each node agrees with its token, and
an expression statement keeps the first token of its text (`Listed`).
-/

namespace Scriptlet

/-! ## Tokens that span a tree -/

mutual

/-- The tokens of an expression. -/
inductive Expr.Spans : List Token → Expr → Prop where
  | ident {t : Token} : t.kind = .ident → Expr.Spans [t] (.ident ⟨t, t.literal⟩)
  | int {t : Token} {n : Int64} : t.kind = .int → Numeral.integer? t.literal = some n → Expr.Spans [t] (.int t n)
  | float {t : Token} {x : Float} : t.kind = .float → Numeral.float? t.literal = some x → Expr.Spans [t] (.float t x)
  | string {t : Token} : t.kind = .string → Expr.Spans [t] (.string t t.literal)
  | true {t : Token} : t.kind = .kwTrue → Expr.Spans [t] (.bool t true)
  | false {t : Token} : t.kind = .kwFalse → Expr.Spans [t] (.bool t false)
  | group {o c : Token} {ts : List Token} {e : Expr} : o.kind = .lparen → Expr.Spans ts e → c.kind = .rparen →
      Expr.Spans (o :: (ts ++ [c])) e
  | unary {t : Token} {ts : List Token} {e : Expr} : t.kind.isUnary = true → Expr.Spans ts e →
      Expr.Spans (t :: ts) (.unary t t.literal e)
  | binary {p : Precedence} {t : Token} {ls rs : List Token} {l r : Expr} : t.kind.infixLevel? = some p → Expr.Spans ls l →
      Expr.Spans rs r → Expr.Spans (ls ++ t :: rs) (.binary t l t.literal r)
  | cond {t o c : Token} {cs as bs : List Token} {e : Expr} {a : Block} {b? : Option Block} : t.kind = .kwIf →
      o.kind = .lparen → Expr.Spans cs e → c.kind = .rparen → Block.Spans as a → Block.SpansElse bs b? →
      Expr.Spans (t :: o :: (cs ++ c :: (as ++ bs))) (.cond t e a b?)
  | function {t o c : Token} {is bs : List Token} {ids : List Identifier} {b : Block} : t.kind = .kwFn → o.kind = .lparen →
      Identifier.SpelledAll is ids → c.kind = .rparen → Block.Spans bs b →
      Expr.Spans (t :: o :: (is ++ c :: bs)) (.function t ids b)
  | call {o c : Token} {fs as : List Token} {f : Expr} {args : List Expr} : Expr.Spans fs f → o.kind = .lparen →
      Expr.SpansAll as args → c.kind = .rparen → Expr.Spans (fs ++ o :: (as ++ [c])) (.call o f args)

/-- Expressions with a comma between two of them. -/
inductive Expr.SpansAll : List Token → List Expr → Prop where
  | nil : Expr.SpansAll [] []
  | cons {ts us : List Token} {e : Expr} {es : List Expr} : Expr.Spans ts e → Expr.SpansMore us es →
      Expr.SpansAll (ts ++ us) (e :: es)

/-- Expressions, each after a comma. -/
inductive Expr.SpansMore : List Token → List Expr → Prop where
  | nil : Expr.SpansMore [] []
  | cons {c : Token} {ts us : List Token} {e : Expr} {es : List Expr} : c.kind = .comma → Expr.Spans ts e →
      Expr.SpansMore us es → Expr.SpansMore (c :: (ts ++ us)) (e :: es)

/-- The tokens of a statement. -/
inductive Stmt.Spans : List Token → Stmt → Prop where
  | bind {t i a : Token} {ts us : List Token} {e : Expr} : t.kind = .kwLet → i.kind = .ident → a.kind = .assign →
      Expr.Spans ts e → OptionalSemicolon us → Stmt.Spans (t :: i :: a :: (ts ++ us)) (.bind t ⟨i, i.literal⟩ e)
  | ret {t : Token} {ts us : List Token} {e : Expr} : t.kind = .kwReturn → Expr.Spans ts e → OptionalSemicolon us →
      Stmt.Spans (t :: (ts ++ us)) (.ret t e)
  | expr {t : Token} {ts us : List Token} {e : Expr} : Expr.Spans (t :: ts) e → OptionalSemicolon us →
      Stmt.Spans (t :: (ts ++ us)) (.expr t e)
  | block {ts : List Token} {b : Block} : Block.Spans ts b → Stmt.Spans ts (.block b)

/-- The tokens of statements one after the other, and others that are left out. -/
inductive Stmt.SpansAll : List Token → List Stmt → Prop where
  | nil : Stmt.SpansAll [] []
  | cons {ts us : List Token} {s : Stmt} {ss : List Stmt} : Stmt.Spans ts s → Stmt.SpansAll us ss →
      Stmt.SpansAll (ts ++ us) (s :: ss)
  | skip (ts : List Token) {us : List Token} {ss : List Stmt} : Stmt.SpansAll us ss → Stmt.SpansAll (ts ++ us) ss

/-- The tokens of a block, whose closing brace may be missing. -/
inductive Block.Spans : List Token → Block → Prop where
  | closed {o c : Token} {ts : List Token} {ss : List Stmt} : o.kind = .lbrace → Stmt.SpansAll ts ss → c.kind = .rbrace →
      Block.Spans (o :: (ts ++ [c])) ⟨o, ss⟩
  | cut {o : Token} {ts : List Token} {ss : List Stmt} : o.kind = .lbrace → Stmt.SpansAll ts ss → Block.Spans (o :: ts) ⟨o, ss⟩

/-- The tokens of the block after `else`, or none. -/
inductive Block.SpansElse : List Token → Option Block → Prop where
  | none : Block.SpansElse [] none
  | some {t : Token} {ts : List Token} {b : Block} : t.kind = .kwElse → Block.Spans ts b → Block.SpansElse (t :: ts) (some b)

end

/-- The text of an expression begins with parentheses that leave no node, if with any, and then with the first token of its nodes. -/
structure Expr.Leads (e : Expr) (text opens : List Token) (first : Token) : Prop where
  text : ∃ rest, text = opens ++ first :: rest
  opens : ∀ o ∈ opens, o.kind = .lparen
  first : e.tokens.head? = some first

namespace Expr

/-- An operand leads the expression that it is the first part of. -/
theorem Leads.append {e e' : Expr} {ts opens : List Token} {t : Token} {ns : List Node} (h : e.Leads ts opens t)
    (us : List Token) (hnodes : e'.nodes = e.nodes ++ ns) : e'.Leads (ts ++ us) opens t := by
  obtain ⟨⟨rest, rfl⟩, hopens, ht⟩ := h
  refine ⟨⟨rest ++ us, List.append_assoc _ _ _⟩, hopens, ?_⟩
  unfold tokens at ht ⊢
  rw [hnodes, List.filterMap_append, List.head?_append, ht]
  rfl

/-- An expression that spans tokens has a first token. -/
theorem Spans.leads : ∀ {ts : List Token} {e : Expr}, Spans ts e → ∃ opens t, e.Leads ts opens t
  | _, _, .ident _ | _, _, .int _ _ | _, _, .float _ _ | _, _, .string _ | _, _, .true _ | _, _, .false _ | _, _, .unary _ _
  | _, _, .function _ _ _ _ _ => ⟨[], _, ⟨_, rfl⟩, List.forall_mem_nil _, rfl⟩
  | _, _, .cond _ _ _ _ _ _ => ⟨[], _, ⟨_, rfl⟩, List.forall_mem_nil _, by rw [tokens, nodes_cond]; rfl⟩
  | _, _, .group (c := c) ho h _ => by
    obtain ⟨opens, t, ⟨rest, rfl⟩, hopens, ht⟩ := h.leads
    refine ⟨_, t, ⟨rest ++ [c], ?_⟩, List.forall_mem_cons.mpr ⟨ho, hopens⟩, ht⟩
    rw [List.append_assoc]
    rfl
  | _, _, .binary _ hl _ => by
    obtain ⟨opens, t, h⟩ := hl.leads
    exact ⟨opens, t, h.append _ rfl⟩
  | _, _, .call hf _ _ _ => by
    obtain ⟨opens, t, h⟩ := hf.leads
    exact ⟨opens, t, h.append _ rfl⟩

end Expr

/-! ## The nodes of a tree that tokens span -/

/-- An expression statement keeps the first token of its text, a stretch of the tokens that are given. -/
def Stmt.StartsIn (ts : List Token) (t : Token) (e : Expr) : Prop :=
  ∃ text opens first, text <:+: ts ∧ Expr.Spans text e ∧ text.head? = some t ∧ e.Leads text opens first

/-- Nodes in the order of the tokens they are read from. -/
structure Listed (ts : List Token) (ns : List Node) : Prop where
  /-- The nodes' tokens are some of the tokens, in the same order. -/
  sublist : (ns.filterMap Node.token?).Sublist ts
  agrees : ∀ n ∈ ns, n.Agrees
  starts : ∀ t e, .stmt (.expr t e) ∈ ns → Stmt.StartsIn ts t e

namespace Listed

variable {ts us : List Token} {ns ms : List Node} {t : Token} {n : Node}

/-- Tokens without nodes. -/
theorem nil (ts : List Token) : Listed ts [] := ⟨List.nil_sublist ts, nofun, nofun⟩

theorem append (h : Listed ts ns) (h' : Listed us ms) : Listed (ts ++ us) (ns ++ ms) := by
  refine ⟨?_, ?_, fun t e hmem => ?_⟩
  · rw [List.filterMap_append]
    exact h.sublist.append h'.sublist
  · rw [List.forall_mem_append]
    exact ⟨h.agrees, h'.agrees⟩
  · obtain hmem | hmem := List.mem_append.mp hmem
    · obtain ⟨text, opens, first, hin, hrest⟩ := h.starts t e hmem
      exact ⟨text, opens, first, hin.trans (List.prefix_append ts us).isInfix, hrest⟩
    · obtain ⟨text, opens, first, hin, hrest⟩ := h'.starts t e hmem
      exact ⟨text, opens, first, hin.trans (List.suffix_append ts us).isInfix, hrest⟩

/-- Tokens in front that leave no node. -/
theorem behind (us : List Token) (h : Listed ts ns) : Listed (us ++ ts) ns := (nil us).append h

/-- Tokens behind that leave no node. -/
theorem before (us : List Token) (h : Listed ts ns) : Listed (ts ++ us) ns := by
  have := h.append (nil us)
  rwa [List.append_nil] at this

/-- One token in front that leaves no node. -/
theorem skip (t : Token) (h : Listed ts ns) : Listed (t :: ts) ns := h.behind [t]

/-- One token in front, with its node. -/
theorem cons (ht : n.token? = some t) (hn : n.Agrees) (h : Listed ts ns) : Listed (t :: ts) (n :: ns) := by
  have hone : Listed [t] [n] := by
    refine ⟨?_, List.forall_mem_singleton.mpr hn, fun u e hmem => ?_⟩
    · rw [List.filterMap_cons_some ht, List.filterMap_nil]
    · rw [← List.mem_singleton.mp hmem] at ht
      cases ht
  exact hone.append h

/-- A name in front, with its token. -/
theorem name (hk : t.kind = .ident) (h : Listed ts ns) : Listed (t :: ts) (.name ⟨t, t.literal⟩ :: ns) :=
  h.cons (n := .name ⟨t, t.literal⟩) rfl ⟨hk, rfl⟩

/-- Every node keeps one of the tokens. -/
theorem token_mem (h : Listed ts ns) (hn : n ∈ ns) : n.token ∈ ts := by
  have hown : n.token? = some n.token → n.token ∈ ts := fun ht => h.sublist.subset (List.mem_filterMap.mpr ⟨n, hn, ht⟩)
  cases n with
  | name _ | expr _ | block _ => exact hown rfl
  | stmt s =>
    cases s with
    | bind _ _ _ | ret _ _ | block _ => exact hown rfl
    | expr t e =>
      obtain ⟨text, -, -, hin, -, hhead, -⟩ := h.starts t e hn
      exact hin.subset (List.mem_of_head? hhead)

/-- The node of an expression statement, in front of the nodes of its expression. -/
theorem statement {e : Expr} (ht : ts.head? = some t) (he : Expr.Spans ts e) (h : Listed ts e.nodes) :
    Listed ts (Stmt.expr t e).nodes := by
  rw [Stmt.nodes]
  refine ⟨h.sublist, List.forall_mem_cons.mpr ⟨trivial, h.agrees⟩, fun u e' hmem => ?_⟩
  obtain heq | hmem := List.mem_cons.mp hmem
  · cases heq
    obtain ⟨opens, first, hleads⟩ := he.leads
    exact ⟨ts, opens, first, List.infix_refl ts, he, ht, hleads⟩
  · exact h.starts u e' hmem

end Listed

/-- Names in the order of their tokens. -/
theorem Identifier.SpelledMore.listed {ts : List Token} {ids : List Identifier} (h : SpelledMore ts ids) :
    Listed ts (ids.map Node.name) := by
  induction h with
  | nil => exact .nil []
  | cons _ hk _ ih => exact (ih.name hk).skip _

theorem Identifier.SpelledAll.listed {ts : List Token} {ids : List Identifier} (h : SpelledAll ts ids) :
    Listed ts (ids.map Node.name) := by
  cases h with
  | nil => exact .nil []
  | cons hk h => exact h.listed.name hk

theorem Kind.mem_of_isUnary {k : Kind} (h : k.isUnary = true) : k ∈ [bang, minus] := by
  cases k <;> first | decide | cases h

theorem Kind.mem_of_infixLevel? {k : Kind} {p : Precedence} (h : k.infixLevel? = some p) :
    k ∈ [plus, minus, star, slash, lt, gt, le, ge, eq, ne] := by
  cases k <;> first | decide | cases h

mutual

/-- The nodes of an expression stand in the order of the tokens that span it. -/
theorem Expr.Spans.listed {e : Expr} : ∀ {ts : List Token}, Expr.Spans ts e → Listed ts e.nodes
  | _, .ident hk => by
    rw [Expr.nodes]
    exact (Listed.nil []).name hk
  | _, .int hk hn => by
    rw [Expr.nodes]
    exact (Listed.nil []).cons (n := .expr _) rfl ⟨hk, Numeral.toInt_of_integer? hn⟩
  | _, .float hk hx => by
    rw [Expr.nodes]
    exact (Listed.nil []).cons (n := .expr _) rfl ⟨hk, hx⟩
  | _, .string hk => by
    rw [Expr.nodes]
    exact (Listed.nil []).cons (n := .expr _) rfl ⟨hk, rfl⟩
  | _, .true hk | _, .false hk => by
    rw [Expr.nodes]
    exact (Listed.nil []).cons (n := .expr _) rfl hk
  | _, .group _ h _ => (h.listed.before [_]).skip _
  | _, .unary hk h => by
    rw [Expr.nodes]
    exact h.listed.cons (n := .expr _) rfl ⟨Kind.mem_of_isUnary hk, rfl⟩
  | _, .binary hk hl hr => by
    rw [Expr.nodes]
    exact hl.listed.append (hr.listed.cons (n := .expr _) rfl ⟨Kind.mem_of_infixLevel? hk, rfl⟩)
  | _, .cond (c := c) hk _ hc _ ha hb => by
    rw [Expr.nodes_cond]
    have hblocks := (ha.listed.append hb.listed).skip c
    exact ((hc.listed.append hblocks).skip _).cons (n := .expr _) rfl hk
  | _, .function hk _ hids _ hb => by
    rw [Expr.nodes]
    exact ((hids.listed.append (hb.listed.skip _)).skip _).cons (n := .expr _) rfl hk
  | _, .call hf hk has _ => by
    rw [Expr.nodes]
    exact hf.listed.append ((has.listed.before [_]).cons (n := .expr _) rfl hk)

theorem Expr.SpansAll.listed {es : List Expr} : ∀ {ts : List Token}, Expr.SpansAll ts es → Listed ts (Expr.nodesAll es)
  | _, .nil => .nil []
  | _, .cons h hs => by
    rw [Expr.nodesAll]
    exact h.listed.append hs.listed

theorem Expr.SpansMore.listed {es : List Expr} : ∀ {ts : List Token}, Expr.SpansMore ts es → Listed ts (Expr.nodesAll es)
  | _, .nil => .nil []
  | _, .cons _ h hs => by
    rw [Expr.nodesAll]
    exact (h.listed.append hs.listed).skip _

/-- The nodes of a statement stand in the order of the tokens that span it. -/
theorem Stmt.Spans.listed {s : Stmt} : ∀ {ts : List Token}, Stmt.Spans ts s → Listed ts s.nodes
  | _, .bind hk hi _ h _ => by
    rw [Stmt.nodes]
    exact (((h.listed.before _).skip _).name hi).cons (n := .stmt _) rfl hk
  | _, .ret hk h _ => by
    rw [Stmt.nodes]
    exact (h.listed.before _).cons (n := .stmt _) rfl hk
  | _, .expr h _ => (Listed.statement rfl h h.listed).before _
  | _, .block h => by
    rw [Stmt.nodes]
    exact h.listed

theorem Stmt.SpansAll.listed {ss : List Stmt} : ∀ {ts : List Token}, Stmt.SpansAll ts ss → Listed ts (Stmt.nodesAll ss)
  | _, .nil => .nil []
  | _, .cons h hs => by
    rw [Stmt.nodesAll]
    exact h.listed.append hs.listed
  | _, .skip ts hs => hs.listed.behind ts

theorem Block.Spans.listed {b : Block} : ∀ {ts : List Token}, Block.Spans ts b → Listed ts b.nodes
  | _, .closed hk hs _ => by
    rw [Block.nodes]
    exact (hs.listed.before [_]).cons (n := .block _) rfl hk
  | _, .cut hk hs => by
    rw [Block.nodes]
    exact hs.listed.cons (n := .block _) rfl hk

theorem Block.SpansElse.listed {b? : Option Block} :
    ∀ {ts : List Token}, Block.SpansElse ts b? → Listed ts (b?.elim [] Block.nodes)
  | _, .none => .nil []
  | _, .some _ h => h.listed.skip _

end

end Scriptlet
