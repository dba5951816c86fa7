import Scriptlet.Proofs.Lists
import Scriptlet.Proofs.Reading.Alike
import Scriptlet.Proofs.Reading.Announced

/-!
# Who watches a reading

What is read from a text does not depend on the tracer: the program, the diagnostics and the counts are the same for every two tracers, in
whatever states they start (`SameReading`).

The lines and the log records are two forms of one account. A tracer is told `Notice`s, and each of them stands at a depth that the ones
before it determine: a start is counted before it is written down, an end after that, and an end without a start counts nothing
(`Notice.entries`). Each notice is one log record with that depth and one line with a tab less than that, whether ends and starts match or
not (`tracers_agree`).
-/

namespace Scriptlet

variable {σ τ : Type}

/-! ## What is read -/

/-- Two readings of a text with the same outcome, whatever their tracers were told. -/
structure SameReading (x : Parsed σ) (y : Parsed τ) : Prop where
  program : y.program = x.program
  diagnostics : y.diagnostics = x.diagnostics
  dropped : y.dropped = x.dropped
  unclosed : y.unclosed = x.unclosed

/-- Every two tracers keep states related that nothing is asked of. -/
theorem Tracer.alike_any (tr : Tracer σ) (tr' : Tracer τ) : Tracer.Alike (fun _ _ => True) tr tr' :=
  ⟨fun _ _ _ _ => trivial, fun _ _ _ _ => trivial⟩

/-- A text is read the same way, whoever watches. -/
theorem parseTraced_same (tr : Tracer σ) (s : σ) (tr' : Tracer τ) (t : τ) (text : String) :
    SameReading (parseTraced tr s text) (parseTraced tr' t text) := by
  have hstart : Reading.Alike id .none (fun _ _ => True) ((Lexer.ofText text).reading s) ((Lexer.ofText text).reading t) :=
    ⟨(List.map_id _).symm, rfl, rfl, rfl, rfl, rfl, trivial⟩
  obtain ⟨hss, hend⟩ := hstart.readAll (tr.alike_any tr') (Lexer.reading_ready _ _)
  rw [Stmt.map_move_id] at hss
  refine ⟨congrArg Program.mk hss, ?_, ?_, ?_⟩
  · exact hend.diagnostics.trans (List.map_id _)
  · exact hend.dropped.trans (Nat.zero_add _)
  · exact hend.unclosed.trans (Nat.zero_add _)

/-! ## What is told -/

/-- What a tracer is told: that something with a name starts, or that it ends. -/
inductive Notice where
  | start (name : String)
  | finish (name : String)

namespace Notice

/-- The name of what starts or ends. -/
def name : Notice → String
  | start s | finish s => s

/-- The text of a notice. -/
def text : Notice → String
  | start s => "BEGIN " ++ s
  | finish s => "END " ++ s

/-- Notices with their depths, from a depth on: a start is one deeper than what is open before it, and an end is as deep as its start. -/
def entries : Nat → List Notice → List (Nat × Notice)
  | _, [] => []
  | depth, start s :: ns => (depth + 1, start s) :: entries (depth + 1) ns
  | depth, finish s :: ns => (depth, finish s) :: entries (depth - 1) ns

/-- The characters of a line for a notice at a depth: a tab for each level that it is inside of, and its text. -/
def line (e : Nat × Notice) : List Char := List.replicate (e.1 - 1) '\t' ++ e.2.text.toList

/-- The log record of a notice at a depth: an event of the finest level, with the text and the depth. -/
def logged (e : Nat × Notice) : Record where
  level := .trace
  what := "event"
  fields := [("message", e.2.text), ("depth", toString e.1)]

end Notice

/-- Tells a tracer of something. -/
def Tracer.hear (tr : Tracer σ) (s : σ) : Notice → σ
  | .start name => tr.enter name s
  | .finish name => tr.leave name s

/-- Tells a tracer of one thing after the other. -/
def Tracer.hearAll (tr : Tracer σ) (s : σ) (ns : List Notice) : σ := ns.foldl tr.hear s

namespace Notice

/-- Every notice has one entry. -/
theorem map_snd_entries (depth : Nat) (ns : List Notice) : (entries depth ns).map Prod.snd = ns := by
  induction ns generalizing depth with
  | nil => rfl
  | cons n ns ih => cases n <;> simp only [entries, List.map_cons, ih]

/-- The text of a notice starts with a word. -/
theorem exists_text (n : Notice) : ∃ c cs, n.text.toList = c :: cs ∧ c ≠ '\t' := by
  cases n with
  | start s => exact ⟨'B', _, by simp [text]; rfl, by decide⟩
  | finish s => exact ⟨'E', _, by simp [text]; rfl, by decide⟩

/-- The tabs at the front of a line are those for its depth. -/
theorem takeWhile_line (e : Nat × Notice) : (line e).takeWhile (· = '\t') = List.replicate (e.1 - 1) '\t' := by
  obtain ⟨c, cs, htext, hc⟩ := e.2.exists_text
  rw [line, htext, List.takeWhile_append_of_pos (by simp), List.takeWhile_cons_of_neg (by simpa using hc), List.append_nil]

/-- A line has no newline in it if the name has none. -/
theorem newline_notMem_line {e : Nat × Notice} (h : '\n' ∉ e.2.name.toList) : '\n' ∉ line e := by
  obtain ⟨depth, n⟩ := e
  cases n with
  | start s =>
    have hs : '\n' ∉ s.toList := h
    simpa [line, text] using hs
  | finish s =>
    have hs : '\n' ∉ s.toList := h
    simpa [line, text] using hs

end Notice

/-- A tracer that counts depths and writes each notice down in some form, behind those before it. -/
structure Tracer.WritesDown {α : Type} (tr : Tracer σ) (depth : σ → Nat) (written : σ → List α) (form : Nat × Notice → α) : Prop where
  enter (name : String) (s : σ) : depth (tr.enter name s) = depth s + 1 ∧
    written (tr.enter name s) = written s ++ [form (depth s + 1, .start name)]
  leave (name : String) (s : σ) : depth (tr.leave name s) = depth s - 1 ∧
    written (tr.leave name s) = written s ++ [form (depth s, .finish name)]

/-- Such a tracer writes down the entries of what it is told, one after the other. -/
theorem Tracer.WritesDown.hearAll {α : Type} {tr : Tracer σ} {depth : σ → Nat} {written : σ → List α} {form : Nat × Notice → α}
    (h : tr.WritesDown depth written form) (s : σ) (ns : List Notice) :
    written (tr.hearAll s ns) = written s ++ (Notice.entries (depth s) ns).map form := by
  induction ns generalizing s with
  | nil => exact (List.append_nil _).symm
  | cons n ns ih =>
    cases n with
    | start name =>
      obtain ⟨hdepth, hwritten⟩ := h.enter name s
      refine (ih (tr.enter name s)).trans ?_
      rw [hdepth, hwritten, List.append_assoc, List.singleton_append, ← List.map_cons, Notice.entries]
    | finish name =>
      obtain ⟨hdepth, hwritten⟩ := h.leave name s
      refine (ih (tr.leave name s)).trans ?_
      rw [hdepth, hwritten, List.append_assoc, List.singleton_append, ← List.map_cons, Notice.entries]

theorem IndentTrace.writesDown :
    tracer.WritesDown level (fun s => s.lines.toList) (fun e => line e.1 e.2.text) :=
  ⟨fun _ _ => ⟨rfl, Array.toList_push⟩, fun _ _ => ⟨rfl, Array.toList_push⟩⟩

theorem LogTrace.writesDown :
    tracer.WritesDown depth (fun s => s.records.toList) Notice.logged :=
  ⟨fun _ _ => ⟨rfl, Array.toList_push⟩, fun _ _ => ⟨rfl, Array.toList_push⟩⟩

/-- The characters of the text of the lines. -/
theorem IndentTrace.toList_output (s : IndentTrace) : s.output.toList = (s.lines.toList.map String.toList).flatMap (· ++ ['\n']) := by
  rw [output_eq_join, String.toList_join, List.flatMap_map, List.flatMap_map]
  simp

/-- What is written and what is logged when a tracer is told some notices, from the start. -/
structure Reported (ns : List Notice) : Prop where
  /-- There is an entry for each notice, in their order. -/
  notices : (Notice.entries 0 ns).map Prod.snd = ns
  /-- Each entry is a record, with its text and its depth. -/
  records : (LogTrace.tracer.hearAll .empty ns).records.toList = (Notice.entries 0 ns).map Notice.logged
  /-- Each entry is a line of the text, which ends with the last of them. -/
  lines : (IndentTrace.tracer.hearAll .empty ns).output.toList.splitOn '\n' = (Notice.entries 0 ns).map Notice.line ++ [[]]
  /-- The lines start with as many tabs as their depths say. -/
  tabs : ∀ e ∈ Notice.entries 0 ns, (Notice.line e).takeWhile (· = '\t') = List.replicate (e.1 - 1) '\t'

/-- No tracer changes what is read from a text. And whatever the tracers for lines and for log records are told, in whatever order, as long
as no name has a newline, they give the same account: a line and a record for each notice, with its text and its depth. -/
theorem tracers_agree :
    (∀ {σ τ : Type} (tr : Tracer σ) (s : σ) (tr' : Tracer τ) (t : τ) (text : String),
      SameReading (parseTraced tr s text) (parseTraced tr' t text)) ∧
    ∀ ns : List Notice, (∀ n ∈ ns, '\n' ∉ n.name.toList) → Reported ns := by
  refine ⟨parseTraced_same, fun ns hns => ⟨Notice.map_snd_entries 0 ns, LogTrace.writesDown.hearAll .empty ns, ?_, ?_⟩⟩
  · have hlines : (IndentTrace.tracer.hearAll .empty ns).lines.toList.map String.toList = (Notice.entries 0 ns).map Notice.line := by
      rw [IndentTrace.writesDown.hearAll .empty ns]
      simp [IndentTrace.empty, IndentTrace.line, Notice.line]
    rw [IndentTrace.toList_output, hlines]
    refine List.splitOn_lines (List.forall_mem_map.mpr fun e he => Notice.newline_notMem_line (hns _ ?_))
    rw [← Notice.map_snd_entries 0 ns]
    exact List.mem_map_of_mem he
  · exact fun e _ => Notice.takeWhile_line e

/-- Ends without starts, before and between what starts. -/
def strayEnds : List Notice := [.finish "a", .start "b", .start "c", .finish "c", .finish "b", .finish "d", .start "e"]

/-- An end without a start is written as on the lowest level, and counts nothing. -/
theorem tracers_agree_strayEnds : (∀ n ∈ strayEnds, '\n' ∉ n.name.toList) ∧
    (Notice.entries 0 strayEnds).map Prod.fst = [0, 1, 2, 2, 1, 0, 1] ∧ Reported strayEnds := by
  have hnames : ∀ n ∈ strayEnds, '\n' ∉ n.name.toList := by decide +kernel
  exact ⟨hnames, rfl, tracers_agree.2 strayEnds hnames⟩

end Scriptlet
