import Scriptlet.Evaluation.Steps

/-!
# Statements in sequence

Statements behind others are evaluated if these have a value, and go on from it (`Stmt.evalAll_append`). A block makes no scope, and has
the value of its last statement, so it makes no difference whether statements stand in a block or in its place, at any depth
(`Stmt.Unwraps.evalAll`). Only a block that is empty has to stay: it has the value `null`, whatever the statement before it has.

In particular all other blocks can be replaced at once (`Stmt.unwrapAll`).
-/

namespace Scriptlet

namespace Stmt

section

variable {apply : Closure → List Value → Eval Value} {scope : ScopeId}

/-- Statements are evaluated behind others if these have a value. -/
theorem evalAll_append (ss us : List Stmt) (last : Value) : evalAll apply scope last (ss ++ us) =
    (do let v ← evalAll apply scope last ss; evalAll apply scope v us) := by
  induction ss generalizing last with
  | nil =>
    rw [List.nil_append, evalAll, pure_bind]
  | cons s ss ih =>
    rw [List.cons_append, evalAll, evalAll, bind_assoc]
    simp only [ih]

/-- The value before the first statement is not the value of any statements. -/
theorem evalAll_of_ne_nil {ss : List Stmt} (h : ss ≠ []) (last last' : Value) :
    evalAll apply scope last ss = evalAll apply scope last' ss := by
  cases ss with
  | nil => exact absurd rfl h
  | cons s ss => rw [evalAll, evalAll]

/-- A block is evaluated like its statements, in the scope where it stands. -/
theorem eval_block (b : Block) : (Stmt.block b).eval apply scope = evalAll apply scope .null b.statements := by
  cases b
  rw [Stmt.eval, Block.eval]

end

/-! ## Statements in the place of a block -/

/-- Some blocks are replaced by their statements, wherever blocks stand directly inside each other. A block that is empty stays. -/
inductive Unwraps : List Stmt → List Stmt → Prop where
  | nil : Unwraps [] []
  | keep (s : Stmt) {ss us : List Stmt} : Unwraps ss us → Unwraps (s :: ss) (s :: us)
  /-- The block stays, and some of those in it are replaced. -/
  | inside (t : Token) {bs vs ss us : List Stmt} : Unwraps bs vs → Unwraps ss us →
      Unwraps (.block ⟨t, bs⟩ :: ss) (.block ⟨t, vs⟩ :: us)
  | splice (t : Token) {bs vs ss us : List Stmt} : bs ≠ [] → Unwraps bs vs → Unwraps ss us →
      Unwraps (.block ⟨t, bs⟩ :: ss) (vs ++ us)

namespace Unwraps

/-- Something is left of any statements. -/
theorem ne_nil {ss us : List Stmt} (h : Unwraps ss us) (hne : ss ≠ []) : us ≠ [] := by
  induction h with
  | nil => exact absurd rfl hne
  | keep | inside => exact List.cons_ne_nil _ _
  | splice _ hbs _ _ ih _ => exact List.append_ne_nil_of_left_ne_nil (ih hbs) _

/-- Statements are evaluated in the same way in a block and in its place. -/
theorem evalAll {ss us : List Stmt} (h : Unwraps ss us) (apply : Closure → List Value → Eval Value) (scope : ScopeId) (last : Value) :
    Stmt.evalAll apply scope last ss = Stmt.evalAll apply scope last us := by
  induction h generalizing last with
  | nil => rfl
  | keep s _ ih =>
    rw [Stmt.evalAll, Stmt.evalAll]
    simp only [ih]
  | inside t _ _ ihb ih =>
    rw [Stmt.evalAll, Stmt.evalAll, eval_block, eval_block]
    simp only [ihb, ih]
  | @splice t bs vs ss us hbs hb _ ihb ih =>
    -- the value of the block is that of its last statement, so what stood before it does not matter
    have hvs : Stmt.evalAll apply scope .null vs = Stmt.evalAll apply scope last vs := evalAll_of_ne_nil (hb.ne_nil hbs) .null last
    rw [Stmt.evalAll, eval_block, ihb, hvs, evalAll_append]
    simp only [ih]

end Unwraps

/-! ## Every block at once -/

mutual

/-- The statements in the place of a statement: a block is replaced unless it is empty. -/
def unwrap : Stmt → List Stmt
  | .block ⟨t, []⟩ => [.block ⟨t, []⟩]
  | .block ⟨_, s :: ss⟩ => unwrap s ++ unwrapAll ss
  | s => [s]

/-- The statements in the place of statements. -/
def unwrapAll : List Stmt → List Stmt
  | [] => []
  | s :: ss => unwrap s ++ unwrapAll ss

end

theorem unwrap_of_not_block {s : Stmt} (h : ∀ b, s ≠ .block b) : unwrap s = [s] := by
  cases s with
  | bind | ret | expr => rw [unwrap] <;> nofun
  | block b => exact absurd rfl (h b)

mutual

theorem unwraps_unwrap : ∀ (s : Stmt) {ss us : List Stmt}, Unwraps ss us → Unwraps (s :: ss) (unwrap s ++ us)
  | .bind .., _, _, h | .ret .., _, _, h | .expr .., _, _, h => by
    rw [unwrap_of_not_block (by simp)]
    exact .keep _ h
  | .block ⟨_, []⟩, _, _, h => by
    rw [unwrap]
    exact .keep _ h
  | .block ⟨t, s :: ss⟩, _, _, h => by
    rw [unwrap]
    exact .splice t (List.cons_ne_nil s ss) (unwraps_unwrap s (unwraps_unwrapAll ss)) h

/-- All blocks that are not empty can be replaced at once. -/
theorem unwraps_unwrapAll : ∀ ss : List Stmt, Unwraps ss (unwrapAll ss)
  | [] => by
    rw [unwrapAll]
    exact .nil
  | s :: ss => by
    rw [unwrapAll]
    exact unwraps_unwrap s (unwraps_unwrapAll ss)

end

mutual

theorem eq_nil_of_mem_unwrap : ∀ {s : Stmt} {b : Block}, .block b ∈ unwrap s → b.statements = []
  | .bind .., _, h | .ret .., _, h | .expr .., _, h => by
    rw [unwrap_of_not_block (by simp), List.mem_singleton] at h
    cases h
  | .block ⟨_, []⟩, _, h => by
    rw [unwrap, List.mem_singleton] at h
    cases h
    rfl
  | .block ⟨_, s :: ss⟩, _, h => by
    rw [unwrap, List.mem_append] at h
    exact h.elim eq_nil_of_mem_unwrap eq_nil_of_mem_unwrapAll

/-- No other blocks are left then. -/
theorem eq_nil_of_mem_unwrapAll : ∀ {ss : List Stmt} {b : Block}, .block b ∈ unwrapAll ss → b.statements = []
  | [], _, h => by
    rw [unwrapAll] at h
    cases h
  | s :: ss, _, h => by
    rw [unwrapAll, List.mem_append] at h
    exact h.elim eq_nil_of_mem_unwrap eq_nil_of_mem_unwrapAll

end

end Stmt

/-! ## What is evaluated in the same way -/

/-- Two lists of statements do the same: from every world they end in the same way, by a value, a fault or a return, with the same scopes
and the same events. -/
structure Stmt.SameRuns (ss us : List Stmt) : Prop where
  statements (apply : Closure → List Value → Eval Value) (scope : ScopeId) (last : Value) (w : World) :
    Stmt.evalAll apply scope last ss w = Stmt.evalAll apply scope last us w
  /-- Between braces the one list does what the other one does without, in the same scope. -/
  block (apply : Closure → List Value → Eval Value) (scope : ScopeId) (t : Token) (w : World) :
    (Stmt.block ⟨t, ss⟩).eval apply scope w = Stmt.evalAll apply scope .null us w
  program (limit : Nat) (scope : ScopeId) (w : World) : Program.eval limit scope ⟨ss⟩ w = Program.eval limit scope ⟨us⟩ w
  /-- As the bodies of a function they do the same in every call. -/
  call (limit : Nat) (f : Closure) (t u : Token) (args : List Value) (w : World) :
    applyWithin limit { f with body := ⟨t, ss⟩ } args w = applyWithin limit { f with body := ⟨u, us⟩ } args w

/-- A program and a call do with a list of statements nothing but evaluate it. -/
theorem Stmt.Unwraps.sameRuns {ss us : List Stmt} (h : Unwraps ss us) : SameRuns ss us := by
  refine ⟨fun apply scope last w => ?_, fun apply scope t w => ?_, fun limit scope w => ?_, fun limit f t u args w => ?_⟩
  · rw [h.evalAll]
  · rw [eval_block, h.evalAll]
  · unfold Program.eval
    dsimp only
    rw [h.evalAll]
  · cases limit with
    | zero => rfl
    | succ n =>
      have hbody (scope : ScopeId) : Block.eval (applyWithin n) scope ⟨t, ss⟩ = Block.eval (applyWithin n) scope ⟨u, us⟩ := by
        rw [Block.eval, Block.eval, h.evalAll]
      rw [applyWithin, applyWithin]
      unfold Closure.enter
      simp only [hbody]
      rfl

/-- Blocks that are not empty can be replaced by their statements, as many of them and as deep inside each other as one likes; if all of
them are replaced, only empty blocks are left. -/
theorem blocks_transparent (ss : List Stmt) : (∀ us, Stmt.Unwraps ss us → Stmt.SameRuns ss us) ∧
    Stmt.Unwraps ss (Stmt.unwrapAll ss) ∧ ∀ b, .block b ∈ Stmt.unwrapAll ss → b.statements = [] :=
  ⟨fun _ h => h.sameRuns, Stmt.unwraps_unwrapAll ss, fun _ => Stmt.eq_nil_of_mem_unwrapAll⟩

/-- A binding, an empty block and a return between braces, and a statement that is not reached. -/
def nestedReturn : List Stmt :=
  [.block ⟨default, [.bind default ⟨default, "a"⟩ (.int default 3), .block ⟨default, []⟩,
    .block ⟨default, [.ret default (.ident ⟨default, "a"⟩)]⟩]⟩, .expr default (.int default 2)]

/-- The return leaves the program from inside two blocks, with what is bound in the outer one. -/
theorem blocks_transparent_nestedReturn : Stmt.Unwraps nestedReturn (Stmt.unwrapAll nestedReturn) ∧
    (Stmt.unwrapAll nestedReturn).length = 4 ∧ Stmt.SameRuns nestedReturn (Stmt.unwrapAll nestedReturn) ∧
    (Program.eval 0 0 ⟨nestedReturn⟩ ⟨Store.empty.addRoot.2, #[]⟩).map Prod.fst = some (.int 3) := by
  have h : Stmt.Unwraps nestedReturn (Stmt.unwrapAll nestedReturn) := Stmt.unwraps_unwrapAll nestedReturn
  refine ⟨h, ?_, (blocks_transparent nestedReturn).1 _ h, ?_⟩
  · rfl
  · rfl

end Scriptlet
