import Scriptlet.Proofs.Evaluation.Created
import Scriptlet.Proofs.Evaluation.History
import Scriptlet.Proofs.Session.Rejected
import Scriptlet.Proofs.Value.Sameness

/-!
# The identity of functions

A function is the same as its copies, and as no other function. A host makes scopes and copies them, creates functions, binds names to
copies of what there is, and evaluates programs; what it has come to is a world, with the roster of the functions created on the way
(`Roster.Records`). All functions there are in that roster, and two of them are the same exactly if they are copies of one that was created
(`Roster.Identifies`).

Whatever is passed on stays what it is (`Value.Passes`): the value that a `let` binds to a name is the value of the name, in that scope and
the scopes inside it, until the name is bound again; an argument is the value of its parameter; what a function returns is the value of its
call, and what a program returns is its value. A copy of a scope has the same values under the same names.
-/

namespace Scriptlet

/-- The world that a host has come to, with the functions that were created on the way, by itself or by the programs it has evaluated. What
it binds to a name carries functions that have been created; and it may write down what it does. -/
inductive Roster.Records : Roster → World → Prop where
  | start : Records [] World.empty
  | root {fs : Roster} {w : World} : Records fs w → Records fs { w with store := w.store.addRoot.2 }
  | inside {fs : Roster} {w : World} {outer : ScopeId} : Records fs w → outer < w.store.scopes.size →
      Records fs { w with store := (w.store.addInside outer).2 }
  | copy {fs : Roster} {w : World} {original : ScopeId} : Records fs w → original < w.store.scopes.size →
      Records fs { w with store := (w.store.addCopy original).2 }
  | function {fs : Roster} {w : World} {scope : ScopeId} (ps : List Identifier) (b : Block) : Records fs w →
      scope < w.store.scopes.size →
      Records (fs ++ [(w.store.addFunction ps b scope).1]) { w with store := (w.store.addFunction ps b scope).2 }
  | set {fs : Roster} {w : World} {v : Value} (scope : ScopeId) (name : String) : Records fs w → v.Among fs →
      Records fs { w with store := w.store.set scope name v }
  | note {fs : Roster} {w : World} (e : Event) : Records fs w → Records fs (w.note e)
  /-- Whatever comes of evaluation, it creates the functions of the function literals that are evaluated. -/
  | evaluated {fs : Roster} {w w' : World} {limit : Nat} {scope : ScopeId} {p : Program} {v : Value} : Records fs w →
      scope < w.store.scopes.size → p.eval limit scope w = some (v, w') → Records (fs ++ p.created limit scope w) w'

theorem Roster.Records.enrolls {fs : Roster} {w : World} (hw : fs.Records w) : w.store.Enrolls fs := by
  induction hw with
  | start => exact .empty
  | root _ ih => exact ih.addRoot
  | inside _ ho ih => exact ih.addInside ho
  | copy _ _ ih => exact ih.addCopy _
  | function ps b _ hscope ih => exact ih.addFunction ps b hscope
  | set scope name _ hv ih => exact ih.set scope name hv
  | note _ _ ih => exact ih
  | evaluated _ hscope heval ih => exact (Eval.eval_creates ih hscope heval).1

/-- A session is such a host. -/
theorem Session.Reached.records {s : Session} (h : s.Reached) : ∃ fs : Roster, fs.Records s.world := by
  induction h with
  | start => exact ⟨[], .root .start⟩
  | @run s s' limit text r hs hrun ih =>
    obtain ⟨fs, hfs⟩ := ih
    cases r with
    | error e =>
      obtain ⟨-, -, rfl⟩ := run_error hrun
      exact ⟨fs, .note _ hfs⟩
    | ok v =>
      obtain ⟨-, w, hw, rfl⟩ := run_ok hrun
      have hrecords := Roster.Records.evaluated hfs hs.closed.1 hw
      refine ⟨fs ++ (parse text).program.created limit s.root s.world, ?_⟩
      show Roster.Records _ (noteFailure v w)
      unfold noteFailure
      split
      · exact .note _ hrecords
      · exact hrecords

/-! ## Functions of a roster -/

namespace Store.Enrolls

variable {s : Store} {fs : Roster} {f g : Closure}

/-- A function is in the roster at its number. -/
theorem id_eq (h : s.Enrolls fs) {k : Nat} (hk : fs[k]? = some f) : f.id = k := by
  have hid : (fs.map Closure.id)[k]? = some f.id := by rw [List.getElem?_map, hk, Option.map_some]
  rw [h.numbers] at hid
  obtain ⟨hlt, hget⟩ := List.getElem?_eq_some_iff.mp hid
  rw [← hget, List.getElem_range]

/-- Functions of the roster are the same if they are copies of one. -/
theorem beq_iff (h : s.Enrolls fs) (hf : f ∈ fs) (hg : g ∈ fs) :
    (Value.function f == .function g) ↔ ∃ k : Nat, fs[k]? = some f ∧ fs[k]? = some g := by
  obtain ⟨k, hk⟩ := List.mem_iff_getElem?.mp hf
  obtain ⟨l, hl⟩ := List.mem_iff_getElem?.mp hg
  rw [Value.beq_iff_same]
  constructor
  · intro hsame
    cases hsame with
    | function hid =>
      rw [h.id_eq hk, h.id_eq hl] at hid
      exact ⟨k, hk, hid ▸ hl⟩
  · rintro ⟨n, hnf, hng⟩
    exact .function ((h.id_eq hnf).trans (h.id_eq hng).symm)

/-- A function that is created is not the same as any that there is. -/
theorem beq_addFunction (h : s.Enrolls fs) (hf : f ∈ fs) (ps : List Identifier) (b : Block) (scope : ScopeId) :
    (Value.function f == .function (s.addFunction ps b scope).1) = false := by
  have hlt : f.id < s.functions := by
    rw [← List.mem_range, ← h.numbers]
    exact List.mem_map_of_mem hf
  exact beq_false_of_ne (a := f.id) (Nat.ne_of_lt hlt)

/-- A copy of a scope has the same values under the same names. -/
theorem get?_addCopy (h : s.Enrolls fs) (i : ScopeId) (name : String) :
    (s.addCopy i).2.get? s.scopes.size name = s.get? i name := by
  have hcopy : (s.addCopy i).2.scope s.scopes.size = s.scope i := (scope_add s (s.scope i) s.scopes.size).trans (if_pos rfl)
  have hold : ∀ j ∈ (s.scope i).enclosing, ((s.addCopy i).2.scope j).get? name = (s.scope j).get? name := by
    intro j hj
    rw [Store.addCopy, scope_add, if_neg (Nat.ne_of_lt (h.enclosing i j hj))]
  rw [Store.get?, Store.get?, Store.chain, Store.chain, List.findSome?_cons, List.findSome?_cons, hcopy, List.findSome?_congr hold]

end Store.Enrolls

/-! ## Passing values on -/

namespace Eval

variable {limit : Nat} {scope : ScopeId} {e : Expr} {v : Value} {w w₁ w₂ : World}

/-- A name has the value that the nearest scope binds it to. -/
theorem eval_ident {apply : Closure → List Value → Eval Value} {id : Identifier} (h : w.store.get? scope id.name = some v) :
    (Expr.ident id).eval apply scope w = some (.ok v, w) := by
  rw [Expr.eval, lookup_apply, h]

/-- A `let` binds the name to the value. -/
theorem eval_let (t : Token) (id : Identifier) (hscope : scope < w.store.scopes.size)
    (he : e.eval (applyWithin limit) scope w = some (.ok v, w₁)) :
    ∃ w₂, (Stmt.bind t id e).eval (applyWithin limit) scope w = some (.ok .null, w₂) ∧
      (w₂.store.scope scope).get? id.name = some v := by
  have hscope₁ : scope < w₁.store.scopes.size :=
    Nat.lt_of_lt_of_le hscope (expr_makes (applyWithin_makes limit) e w _ w₁ hscope he).size_le
  refine ⟨{ w₁ with store := w₁.store.set scope id.name v }.note (.bound scope id.name), ?_, ?_⟩
  · rw [Stmt.eval, bind_apply, he]
    rfl
  · exact Store.get?_scope_set_self hscope₁ v

/-- Of names that are bound one after the other, each has the value that it is bound to last. -/
theorem bindAll_apply : ∀ (names : List String) (vs : List Value) (w : World), scope < w.store.scopes.size →
    ∃ w', bindAll scope names vs w = some (.ok (), w') ∧
      ∀ name, (w'.store.scope scope).get? name = ((names.zip vs).reverse.lookup name).or ((w.store.scope scope).get? name)
  | [], _, w, _ => by
    unfold bindAll
    exact ⟨w, rfl, fun _ => rfl⟩
  | _ :: _, [], w, _ => by
    unfold bindAll
    exact ⟨w, rfl, fun _ => rfl⟩
  | n :: names, v :: vs, w, hscope => by
    have hscope' : scope < (w.store.set scope n v).scopes.size := Nat.lt_of_lt_of_eq hscope (Store.size_set _ _ _ _).symm
    obtain ⟨w', hrest, hget⟩ :=
      bindAll_apply names vs ({ w with store := w.store.set scope n v }.note (.bound scope n)) hscope'
    refine ⟨w', ?_, fun name => ?_⟩
    · unfold bindAll
      rw [bind_apply, bindName_apply]
      exact hrest
    · have hfirst : ((w.store.set scope n v).scope scope).get? name = ([(n, v)].lookup name).or ((w.store.scope scope).get? name) := by
        rw [Store.scope_set, if_pos ⟨rfl, hscope⟩, Scope.get?_set, List.lookup_cons]
        by_cases hname : name = n
        · rw [if_pos hname, hname, beq_self_eq_true]
          rfl
        · rw [if_neg hname, beq_false_of_ne hname]
          rfl
      rw [hget, List.zip_cons_cons, List.reverse_cons, List.lookup_append, Option.or_assoc]
      exact congrArg _ hfirst

/-- The parameters of a call have the arguments as their values, the last parameter of a name counting; and what comes of the body comes of
the call, a returned value being its value. -/
theorem eval_call {g : Closure} {as : List Expr} {vs : List Value} (t : Token)
    (he : e.eval (applyWithin (limit + 1)) scope w = some (.ok (.function g), w₁))
    (has : Expr.evalAll (applyWithin (limit + 1)) scope as w₁ = some (.ok vs, w₂)) (hlength : vs.length = g.arity) :
    ∃ inner w₃, (∀ name v, (g.names.zip vs).reverse.lookup name = some v → (w₃.store.scope inner).get? name = some v) ∧
      (Expr.call t e as).eval (applyWithin (limit + 1)) scope w =
        (g.body.eval (applyWithin limit) inner w₃).map fun x => (atCall x.1, x.2.note (.exited g.arity)) := by
  have hsize := Store.size_addInside w₂.store g.scope
  obtain ⟨w₃, hbind, hget⟩ := bindAll_apply g.names vs
    ({ w₂.note (.entered g.arity) with store := (w₂.store.addInside g.scope).2 }.note (.opened w₂.store.scopes.size))
    (Nat.lt_of_lt_of_eq (Nat.lt_succ_self w₂.store.scopes.size) hsize.symm)
  refine ⟨w₂.store.scopes.size, w₃, fun name v hv => ?_, ?_⟩
  · rw [hget, hv, Option.some_or]
  · have hbody : body (applyWithin limit) g vs w₂.store.scopes.size
        ({ w₂.note (.entered g.arity) with store := (w₂.store.addInside g.scope).2 }.note (.opened w₂.store.scopes.size)) =
          g.body.eval (applyWithin limit) w₂.store.scopes.size w₃ := by
      rw [body, bind_apply, hbind]
    have happly : applyWithin (limit + 1) g vs w₂ =
        (g.body.eval (applyWithin limit) w₂.store.scopes.size w₃).map fun x => (atCall x.1, x.2.note (.exited g.arity)) := by
      rw [applyWithin, call_apply, enter_apply, if_pos hlength, ← hbody]
      rfl
    rw [Expr.eval, bind_apply, he]
    show (callee (.function g) >>= _) w₁ = _
    rw [callee, pure_bind, bind_apply, has]
    exact happly

end Eval

/-! ## Sameness -/

/-- What sameness of values is like. -/
structure Value.Equates : Prop where
  symm {a b : Value} : a == b → b == a
  trans {a b c : Value} : a == b → b == c → a == c
  /-- A value is the same as itself unless what lies below all layers of returned values is no number. -/
  self (v : Value) : (v == v) = !v.core.isNaN
  layered (v : Value) : Value.returned^[v.layers] v.core = v ∧ v.core.kind ≠ .returned
  /-- Sameness looks through returned values, and only as deep into the one value as into the other. -/
  core {a b : Value} : (a == b) ↔ a.layers = b.layers ∧ a.core == b.core
  apart {a b : Value} : a.kind ≠ b.kind ∨ a.layers ≠ b.layers ∨ a.core.kind ≠ b.core.kind → (a == b) = false

/-- A value that is passed on stays what it is. -/
structure Value.Passes (v : Value) : Prop where
  /-- By a `let`, to its name. -/
  bound {limit : Nat} {scope : ScopeId} {e : Expr} {w w₁ : World} (t : Token) (id : Identifier) : scope < w.store.scopes.size →
    e.eval (applyWithin limit) scope w = some (.ok v, w₁) →
    ∃ w₂, (Stmt.bind t id e).eval (applyWithin limit) scope w = some (.ok .null, w₂) ∧ (w₂.store.scope scope).get? id.name = some v
  /-- From the nearest scope that binds a name, to the name. -/
  named {limit : Nat} {i o : ScopeId} {before after : List ScopeId} {id : Identifier} {w : World} :
    w.store.chain i = before ++ o :: after → (∀ k ∈ before, (w.store.scope k).get? id.name = none) →
    (w.store.scope o).get? id.name = some v → (Expr.ident id).eval (applyWithin limit) i w = some (.ok v, w)
  /-- Through any statements, in a scope where they do not bind the name. -/
  kept {limit : Nat} {scope i : ScopeId} {ss : List Stmt} {last : Value} {name : String} {w w₁ : World} {x : Except Unwind Value} :
    Stmt.evalAll (applyWithin limit) scope last ss w = some (x, w₁) → i < w.store.scopes.size →
    i ≠ scope ∨ name ∉ Stmt.targetsAll ss → (w.store.scope i).get? name = some v → (w₁.store.scope i).get? name = some v
  /-- From an argument to its parameter, where the last parameter of a name counts; and from the body to the call. -/
  called {limit : Nat} {scope : ScopeId} {e : Expr} {as : List Expr} {g : Closure} {vs : List Value} {w w₁ w₂ : World} (t : Token) :
    e.eval (applyWithin (limit + 1)) scope w = some (.ok (.function g), w₁) →
    Expr.evalAll (applyWithin (limit + 1)) scope as w₁ = some (.ok vs, w₂) → vs.length = g.arity →
    ∃ inner w₃, (∀ name, (g.names.zip vs).reverse.lookup name = some v → (w₃.store.scope inner).get? name = some v) ∧
      ∀ w₄, g.body.eval (applyWithin limit) inner w₃ = some (.ok v, w₄) ∨
          g.body.eval (applyWithin limit) inner w₃ = some (.error (.returned v), w₄) →
        (Expr.call t e as).eval (applyWithin (limit + 1)) scope w = some (.ok v, w₄.note (.exited g.arity))
  /-- By a return, out of the function or the program. -/
  returned {limit : Nat} {scope : ScopeId} {e : Expr} {w w₁ : World} (t : Token) :
    e.eval (applyWithin limit) scope w = some (.ok v, w₁) →
    (Stmt.ret t e).eval (applyWithin limit) scope w = some (.error (.returned v), w₁)
  ended {limit : Nat} {scope : ScopeId} {p : Program} {w w₁ : World} {x : Except Unwind Value} :
    Stmt.evalAll (applyWithin limit) scope .null p.statements w = some (x, w₁) → x = .ok v ∨ x = .error (.returned v) →
    p.eval limit scope w = some (v, w₁)

/-- What sameness says of the functions of a world, from the roster of those that were created. -/
structure Roster.Identifies (fs : Roster) (w : World) : Prop where
  /-- Two functions are the same exactly if they are copies of one that was created. -/
  same {f g : Closure} : f ∈ fs → g ∈ fs → ((Value.function f == .function g) ↔ ∃ k : Nat, fs[k]? = some f ∧ fs[k]? = some g)
  /-- All functions that are bound are in the roster. -/
  bound {i : ScopeId} {name : String} {v : Value} : w.store.get? i name = some v → v.Among fs
  /-- Each time that a function literal is evaluated, the function is a new one. -/
  fresh (limit : Nat) (scope : ScopeId) (t : Token) (ps : List Identifier) (b : Block) : ∃ f w',
    (Expr.function t ps b).eval (applyWithin limit) scope w = some (.ok (.function f), w') ∧
    ∀ g ∈ fs, (Value.function g == .function f) = false
  /-- A copy of a scope has the same values under the same names. -/
  copied (i : ScopeId) (name : String) : (w.store.addCopy i).2.get? w.store.scopes.size name = w.store.get? i name
  /-- Evaluation goes on with the roster, and there are no other functions in what comes of it. -/
  evaluated {limit : Nat} {scope : ScopeId} {p : Program} {v : Value} {w' : World} : scope < w.store.scopes.size →
    p.eval limit scope w = some (v, w') →
    (fs ++ p.created limit scope w).Records w' ∧ v.Among (fs ++ p.created limit scope w)

theorem Value.equates : Value.Equates where
  symm := BEq.symm
  trans := BEq.trans
  self := beq_self
  layered v := ⟨returned_layers_core v, kind_core_ne_returned v⟩
  core := beq_iff_core
  apart {a b} h := by
    rw [Bool.eq_false_iff]
    intro hab
    have hsame := beq_iff_same.mp hab
    obtain h | h | h := h
    · exact h hsame.kind
    · exact h hsame.layers
    · exact h hsame.core.kind

theorem Value.passes (v : Value) : v.Passes where
  bound := Eval.eval_let
  named hchain hbefore ho := Eval.eval_ident (Store.get?_eq_some_iff.mpr ⟨_, _, _, hchain, ho, hbefore⟩)
  kept {limit scope i ss last name w w₁ x} heval hi hapart hv := by
    have hframe := Eval.stmts_frame heval
    rw [← hv]
    by_cases hi' : i = scope
    · subst hi'
      exact hframe.kept hi name (hapart.resolve_left fun h => h rfl)
    · rw [hframe.other i hi hi']
  called t he has hlength := by
    obtain ⟨inner, w₃, hparams, hcall⟩ := Eval.eval_call t he has hlength
    refine ⟨inner, w₃, fun name => hparams name v, fun w₄ hbody => ?_⟩
    obtain hbody | hbody := hbody
    · rw [hcall, hbody]
      rfl
    · rw [hcall, hbody]
      rfl
  returned t he := by
    rw [Stmt.eval, Eval.bind_apply, he]
    rfl
  ended hx hv := by
    rw [Program.eval_eq_map, hx]
    obtain rfl | rfl := hv
    · rfl
    · rfl

theorem Roster.Records.identifies {fs : Roster} {w : World} (hw : fs.Records w) : fs.Identifies w where
  same := hw.enrolls.beq_iff
  bound := hw.enrolls.bound.get?
  fresh _ scope t ps b := by
    have hmake := Eval.makeFunction_apply scope ps b w
    rw [← Expr.eval] at hmake
    exact ⟨_, _, hmake, fun g hg => hw.enrolls.beq_addFunction hg ps b scope⟩
  copied := hw.enrolls.get?_addCopy
  evaluated hscope heval := ⟨.evaluated hw hscope heval, (Eval.eval_creates hw.enrolls hscope heval).2⟩

/-- Sameness is a partial equivalence of values, and it tells functions apart by their creation, however they are passed on. -/
theorem Roster.Records.sameness {fs : Roster} {w : World} (hw : fs.Records w) :
    Value.Equates ∧ fs.Identifies w ∧ ∀ v : Value, v.Passes :=
  ⟨Value.equates, hw.identifies, Value.passes⟩

/-- A text with three function literals. The first function is bound, handed to the second one, returned by it and bound again; the third
one is written as the first one is. -/
def passingText : String := "let f = fn(x) \x7b x \x7d; let g = fn(h) \x7b return h; \x7d(f); let k = fn(x) \x7b x \x7d;"

/-- A world with one root. -/
def rootWorld : World := { World.empty with store := Store.empty.addRoot.2 }

/-- The text is evaluated in the root, and the root is copied. In the copy, the first function is found under its second name, and it is
not the one that is written like it. -/
theorem sameness_passedOn : ∃ v w, (parse passingText).program.eval 1 0 rootWorld = some (v, w) ∧
    ∃ (fs : Roster) (w' : World), w' = { w with store := (w.store.addCopy 0).2 } ∧ fs.length = 3 ∧ fs.Records w' ∧
      ((w'.store.get? 0 "f").any fun f => (w'.store.get? 1 "g").any fun g => (w'.store.get? 1 "k").any fun k => f == g && f != k) ∧
      Value.Equates ∧ fs.Identifies w' ∧ ∀ v : Value, v.Passes := by
  have hlength : ((parse passingText).program.created 1 0 rootWorld).length = 3 := by decide +kernel
  have hsame : ((parse passingText).program.eval 1 0 rootWorld).any fun x =>
      let s := (x.2.store.addCopy 0).2
      (s.get? 0 "f").any fun f => (s.get? 1 "g").any fun g => (s.get? 1 "k").any fun k => f == g && f != k := by
    decide +kernel
  rw [Option.any_eq_true] at hsame
  obtain ⟨⟨v, w⟩, hw, hsame⟩ := hsame
  have hroot : 0 < rootWorld.store.scopes.size := by decide
  have hthere : 0 < w.store.scopes.size := Nat.lt_of_lt_of_le hroot (Eval.eval_makes hroot hw).size_le
  have hrecords : Roster.Records ((parse passingText).program.created 1 0 rootWorld) { w with store := (w.store.addCopy 0).2 } :=
    .copy (.evaluated (.root .start) hroot hw) hthere
  exact ⟨v, w, hw, _, _, rfl, hlength, hrecords, hsame, hrecords.sameness⟩

end Scriptlet
