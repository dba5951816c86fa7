import Scriptlet.Diagnostic
import Scriptlet.Tree.Render

/-!
# Trees with other tokens

The same tree with other tokens in its nodes (`Expr.mapTokens`): one function gives the token of a node, and another one the token
that an expression used as a statement keeps. A move gives every token another place in the text (`Token.move`); a tree is `bare`
when its tokens have no place and its expression statements no token of their own.
-/

namespace Scriptlet

namespace Token

/-- The token at another place. -/
def move (g : Pos → Pos) (t : Token) : Token := { t with pos := g t.pos }

@[simp] theorem kind_move (g : Pos → Pos) (t : Token) : (t.move g).kind = t.kind := rfl

@[simp] theorem literal_move (g : Pos → Pos) (t : Token) : (t.move g).literal = t.literal := rfl

@[simp] theorem pos_move (g : Pos → Pos) (t : Token) : (t.move g).pos = g t.pos := rfl

/-- The token without its place. -/
def unplaced (t : Token) : Token := t.move fun _ => Pos.start

end Token

/-- The diagnostic at another place. -/
def Diagnostic.move (g : Pos → Pos) (d : Diagnostic) : Diagnostic := { d with pos := g d.pos }

/-- The same name in another token. -/
def Identifier.mapToken (f : Token → Token) (id : Identifier) : Identifier := { id with token := f id.token }

section

variable (f s : Token → Token)

mutual

/-- The same expression with other tokens. -/
def Expr.mapTokens : Expr → Expr
  | .ident id => .ident (id.mapToken f)
  | .int t n => .int (f t) n
  | .float t x => .float (f t) x
  | .bool t b => .bool (f t) b
  | .string t v => .string (f t) v
  | .unary t op e => .unary (f t) op e.mapTokens
  | .binary t l op r => .binary (f t) l.mapTokens op r.mapTokens
  | .cond t c a none => .cond (f t) c.mapTokens a.mapTokens none
  | .cond t c a (some b) => .cond (f t) c.mapTokens a.mapTokens (some b.mapTokens)
  | .function t ps b => .function (f t) (ps.map (Identifier.mapToken f)) b.mapTokens
  | .call t e as => .call (f t) e.mapTokens (Expr.mapAllTokens as)

/-- The same expressions with other tokens. -/
def Expr.mapAllTokens : List Expr → List Expr
  | [] => []
  | e :: es => e.mapTokens :: Expr.mapAllTokens es

/-- The same statement with other tokens. -/
def Stmt.mapTokens : Stmt → Stmt
  | .bind t id e => .bind (f t) (id.mapToken f) e.mapTokens
  | .ret t e => .ret (f t) e.mapTokens
  | .expr t e => .expr (s t) e.mapTokens
  | .block b => .block b.mapTokens

/-- The same block with other tokens. -/
def Block.mapTokens : Block → Block
  | ⟨t, ss⟩ => ⟨f t, Stmt.mapAllTokens ss⟩

/-- The same statements with other tokens. -/
def Stmt.mapAllTokens : List Stmt → List Stmt
  | [] => []
  | s :: ss => s.mapTokens :: Stmt.mapAllTokens ss

end

theorem Expr.mapTokens_cond (t : Token) (c : Expr) (a : Block) (b? : Option Block) :
    (Expr.cond t c a b?).mapTokens f s =
      .cond (f t) (c.mapTokens f s) (a.mapTokens f s) (b?.map (Block.mapTokens f s)) := by
  cases b? <;> simp [Expr.mapTokens]

theorem Expr.mapAllTokens_eq_map (es : List Expr) : Expr.mapAllTokens f s es = es.map (Expr.mapTokens f s) := by
  induction es with
  | nil => simp [Expr.mapAllTokens]
  | cons e es ih => simp [Expr.mapAllTokens, ih]

theorem Stmt.mapAllTokens_eq_map (ss : List Stmt) : Stmt.mapAllTokens f s ss = ss.map (Stmt.mapTokens f s) := by
  induction ss with
  | nil => simp [Stmt.mapAllTokens]
  | cons x ss ih => simp [Stmt.mapAllTokens, ih]

end

section

variable (f s f' s' : Token → Token)

mutual

/-- The tokens of a tree can be given at once or one after the other. -/
theorem Expr.mapTokens_mapTokens : ∀ (e : Expr), (e.mapTokens f s).mapTokens f' s' = e.mapTokens (f' ∘ f) (s' ∘ s)
  | .ident _ | .int _ _ | .float _ _ | .bool _ _ | .string _ _ => by simp [Expr.mapTokens, Identifier.mapToken]
  | .unary _ _ e => by simp [Expr.mapTokens, Expr.mapTokens_mapTokens e]
  | .binary _ l _ r => by simp [Expr.mapTokens, Expr.mapTokens_mapTokens l, Expr.mapTokens_mapTokens r]
  | .cond _ c a none => by simp [Expr.mapTokens, Expr.mapTokens_mapTokens c, Block.mapTokens_mapTokens a]
  | .cond _ c a (some b) => by
    simp [Expr.mapTokens, Expr.mapTokens_mapTokens c, Block.mapTokens_mapTokens a, Block.mapTokens_mapTokens b]
  | .function _ ps b => by
    simp [Expr.mapTokens, Block.mapTokens_mapTokens b, Function.comp_def, Identifier.mapToken]
  | .call _ e as => by simp [Expr.mapTokens, Expr.mapTokens_mapTokens e, Expr.mapAllTokens_mapAllTokens as]

theorem Expr.mapAllTokens_mapAllTokens : ∀ (es : List Expr),
    Expr.mapAllTokens f' s' (Expr.mapAllTokens f s es) = Expr.mapAllTokens (f' ∘ f) (s' ∘ s) es
  | [] => by simp [Expr.mapAllTokens]
  | e :: es => by simp [Expr.mapAllTokens, Expr.mapTokens_mapTokens e, Expr.mapAllTokens_mapAllTokens es]

theorem Stmt.mapTokens_mapTokens : ∀ (x : Stmt), (x.mapTokens f s).mapTokens f' s' = x.mapTokens (f' ∘ f) (s' ∘ s)
  | .bind _ id e => by simp [Stmt.mapTokens, Expr.mapTokens_mapTokens e, Identifier.mapToken]
  | .ret _ e => by simp [Stmt.mapTokens, Expr.mapTokens_mapTokens e]
  | .expr _ e => by simp [Stmt.mapTokens, Expr.mapTokens_mapTokens e]
  | .block b => by simp [Stmt.mapTokens, Block.mapTokens_mapTokens b]

theorem Block.mapTokens_mapTokens : ∀ (b : Block), (b.mapTokens f s).mapTokens f' s' = b.mapTokens (f' ∘ f) (s' ∘ s)
  | ⟨_, ss⟩ => by simp [Block.mapTokens, Stmt.mapAllTokens_mapAllTokens ss]

theorem Stmt.mapAllTokens_mapAllTokens : ∀ (ss : List Stmt),
    Stmt.mapAllTokens f' s' (Stmt.mapAllTokens f s ss) = Stmt.mapAllTokens (f' ∘ f) (s' ∘ s) ss
  | [] => by simp [Stmt.mapAllTokens]
  | x :: ss => by simp [Stmt.mapAllTokens, Stmt.mapTokens_mapTokens x, Stmt.mapAllTokens_mapAllTokens ss]

end

end

section

variable (g : Pos → Pos)

/-- The name with its token at another place. -/
abbrev Identifier.move : Identifier → Identifier := Identifier.mapToken (Token.move g)

/-- The expression with its tokens at other places. -/
abbrev Expr.move : Expr → Expr := Expr.mapTokens (Token.move g) (Token.move g)

/-- The statement with its tokens at other places. -/
abbrev Stmt.move : Stmt → Stmt := Stmt.mapTokens (Token.move g) (Token.move g)

/-- The block with its tokens at other places. -/
abbrev Block.move : Block → Block := Block.mapTokens (Token.move g) (Token.move g)

/-- The program with its tokens at other places. -/
def Program.move (p : Program) : Program := ⟨p.statements.map (Stmt.move g)⟩

end

/-- The expression without the places of its tokens and without the tokens of its expression statements. -/
abbrev Expr.bare : Expr → Expr := Expr.mapTokens Token.unplaced fun _ => default

/-- The statement without the places of its tokens and without the tokens of its expression statements. -/
abbrev Stmt.bare : Stmt → Stmt := Stmt.mapTokens Token.unplaced fun _ => default

/-- The block without the places of its tokens and without the tokens of its expression statements. -/
abbrev Block.bare : Block → Block := Block.mapTokens Token.unplaced fun _ => default

/-- The program without the places of its tokens and without the tokens of its expression statements. -/
def Program.bare (p : Program) : Program := ⟨p.statements.map Stmt.bare⟩

theorem Identifier.mapToken_id : Identifier.mapToken id = id := rfl

mutual

/-- A tree with the tokens that it has is the same. -/
theorem Expr.mapTokens_id : ∀ (e : Expr), e.mapTokens id id = e
  | .ident _ | .int _ _ | .float _ _ | .bool _ _ | .string _ _ => by simp [Expr.mapTokens, Identifier.mapToken]
  | .unary _ _ e => by simp [Expr.mapTokens, Expr.mapTokens_id e]
  | .binary _ l _ r => by simp [Expr.mapTokens, Expr.mapTokens_id l, Expr.mapTokens_id r]
  | .cond _ c a none => by simp [Expr.mapTokens, Expr.mapTokens_id c, Block.mapTokens_id a]
  | .cond _ c a (some b) => by simp [Expr.mapTokens, Expr.mapTokens_id c, Block.mapTokens_id a, Block.mapTokens_id b]
  | .function _ ps b => by simp [Expr.mapTokens, Block.mapTokens_id b, Identifier.mapToken_id]
  | .call _ e as => by simp [Expr.mapTokens, Expr.mapTokens_id e, Expr.mapAllTokens_id as]

theorem Expr.mapAllTokens_id : ∀ (es : List Expr), Expr.mapAllTokens id id es = es
  | [] => by simp [Expr.mapAllTokens]
  | e :: es => by simp [Expr.mapAllTokens, Expr.mapTokens_id e, Expr.mapAllTokens_id es]

theorem Stmt.mapTokens_id : ∀ (x : Stmt), x.mapTokens id id = x
  | .bind _ _ e => by simp [Stmt.mapTokens, Expr.mapTokens_id e, Identifier.mapToken]
  | .ret _ e => by simp [Stmt.mapTokens, Expr.mapTokens_id e]
  | .expr _ e => by simp [Stmt.mapTokens, Expr.mapTokens_id e]
  | .block b => by simp [Stmt.mapTokens, Block.mapTokens_id b]

theorem Block.mapTokens_id : ∀ (b : Block), b.mapTokens id id = b
  | ⟨_, ss⟩ => by simp [Block.mapTokens, Stmt.mapAllTokens_id ss]

theorem Stmt.mapAllTokens_id : ∀ (ss : List Stmt), Stmt.mapAllTokens id id ss = ss
  | [] => by simp [Stmt.mapAllTokens]
  | x :: ss => by simp [Stmt.mapAllTokens, Stmt.mapTokens_id x, Stmt.mapAllTokens_id ss]

end

section

variable {f s : Token → Token}

mutual

/-- The text of a tree depends on the literals of its tokens alone, and not on the tokens that expression statements keep. -/
theorem Expr.render_mapTokens (hf : ∀ t, (f t).literal = t.literal) : ∀ (e : Expr), (e.mapTokens f s).render = e.render
  | .ident _ | .string _ _ => by simp [Expr.mapTokens, Expr.render, Identifier.mapToken]
  | .int t _ | .float t _ | .bool t _ => by simp [Expr.mapTokens, Expr.render, hf t]
  | .unary _ _ e => by simp [Expr.mapTokens, Expr.render, Expr.render_mapTokens hf e]
  | .binary _ l _ r => by simp [Expr.mapTokens, Expr.render, Expr.render_mapTokens hf l, Expr.render_mapTokens hf r]
  | .cond _ c a none => by simp [Expr.mapTokens, Expr.render, Expr.render_mapTokens hf c, Block.render_mapTokens hf a]
  | .cond _ c a (some b) => by
    simp [Expr.mapTokens, Expr.render, Expr.render_mapTokens hf c, Block.render_mapTokens hf a, Block.render_mapTokens hf b]
  | .function t ps b => by
    simp [Expr.mapTokens, Expr.render, Identifier.renderAll, Identifier.mapToken, Function.comp_def, hf t,
      Block.render_mapTokens hf b]
  | .call _ e as => by simp [Expr.mapTokens, Expr.render, Expr.render_mapTokens hf e, Expr.renderAll_mapAllTokens hf as]

theorem Expr.renderAll_mapAllTokens (hf : ∀ t, (f t).literal = t.literal) :
    ∀ (es : List Expr), Expr.renderAll (Expr.mapAllTokens f s es) = Expr.renderAll es
  | [] => by simp [Expr.mapAllTokens]
  | e :: es => by simp [Expr.mapAllTokens, Expr.renderAll, Expr.render_mapTokens hf e, Expr.renderAll_mapAllTokens hf es]

theorem Stmt.render_mapTokens (hf : ∀ t, (f t).literal = t.literal) : ∀ (x : Stmt), (x.mapTokens f s).render = x.render
  | .bind t _ e => by simp [Stmt.mapTokens, Stmt.render, Identifier.mapToken, hf t, Expr.render_mapTokens hf e]
  | .ret t e => by simp [Stmt.mapTokens, Stmt.render, hf t, Expr.render_mapTokens hf e]
  | .expr _ e => by simp [Stmt.mapTokens, Stmt.render, Expr.render_mapTokens hf e]
  | .block b => by simp [Stmt.mapTokens, Stmt.render, Block.render_mapTokens hf b]

theorem Block.render_mapTokens (hf : ∀ t, (f t).literal = t.literal) : ∀ (b : Block), (b.mapTokens f s).render = b.render
  | ⟨_, ss⟩ => by simp [Block.mapTokens, Block.render, Stmt.renderAll_mapAllTokens hf ss]

theorem Stmt.renderAll_mapAllTokens (hf : ∀ t, (f t).literal = t.literal) :
    ∀ (ss : List Stmt), Stmt.renderAll (Stmt.mapAllTokens f s ss) = Stmt.renderAll ss
  | [] => by simp [Stmt.mapAllTokens]
  | x :: ss => by simp [Stmt.mapAllTokens, Stmt.renderAll, Stmt.render_mapTokens hf x, Stmt.renderAll_mapAllTokens hf ss]

end

end

/-- The text of a program is that of the bare one. -/
theorem Program.render_bare (p : Program) : p.bare.render = p.render := by
  unfold Program.render Program.bare
  have hunplaced : ∀ t : Token, t.unplaced.literal = t.literal := fun _ => rfl
  rw [← Stmt.mapAllTokens_eq_map]
  exact Stmt.renderAll_mapAllTokens hunplaced _

/-- Statements whose tokens stay at their places are the same. -/
theorem Stmt.map_move_id (ss : List Stmt) : ss.map (Stmt.move id) = ss := by
  rw [← Stmt.mapAllTokens_eq_map]
  exact Stmt.mapAllTokens_id ss

theorem Stmt.bare_move (g : Pos → Pos) (x : Stmt) : (x.move g).bare = x.bare := by
  simp only [Stmt.bare, Stmt.move, Stmt.mapTokens_mapTokens]
  rfl

end Scriptlet
