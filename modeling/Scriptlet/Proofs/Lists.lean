import Mathlib.Data.List.Forall2

/-!
# Lists and options

What the proofs use of lists and options, whatever is in them: characters at the front of a list, lines, and things that are related one
by one.
-/

namespace Scriptlet

variable {α β γ δ : Type}

namespace List

/-! ## Fronts and lines -/

/-- What is taken off the front of a list is the same with more behind the list, unless it goes on there. -/
theorem takeWhile_append_eq {p : α → Bool} (l rest : List α) (h : l.dropWhile p = [] → ∀ a ∈ rest.head?, ¬p a) :
    (l ++ rest).takeWhile p = l.takeWhile p ∧ (l ++ rest).dropWhile p = l.dropWhile p ++ rest := by
  induction l with
  | nil =>
    cases rest with
    | nil => exact ⟨rfl, rfl⟩
    | cons a rest =>
      have ha : ¬p a := h rfl a rfl
      rw [List.nil_append, List.takeWhile_cons_of_neg ha, List.dropWhile_cons_of_neg ha]
      exact ⟨rfl, rfl⟩
  | cons a l ih =>
    rw [List.cons_append]
    by_cases ha : p a
    · rw [List.dropWhile_cons_of_pos ha] at h
      simp only [List.takeWhile_cons_of_pos ha, List.dropWhile_cons_of_pos ha, ih h, and_self]
    · simp only [List.takeWhile_cons_of_neg ha, List.dropWhile_cons_of_neg ha, List.cons_append, and_self]

/-- What is taken off the front ends where the first other element stands. -/
theorem takeWhile_append_stop {p : α → Bool} {l : List α} (rest : List α) (hl : ∀ a ∈ l, p a) (hrest : ∀ a ∈ rest.head?, ¬p a) :
    (l ++ rest).takeWhile p = l ∧ (l ++ rest).dropWhile p = rest := by
  rw [List.takeWhile_append_of_pos hl, List.dropWhile_append_of_pos hl]
  obtain ⟨htake, hdrop⟩ := takeWhile_append_eq [] rest fun _ => hrest
  rw [List.nil_append] at htake hdrop
  rw [htake, hdrop]
  exact ⟨List.append_nil l, rfl⟩

/-- Something is taken off the front, or nothing. -/
theorem takeWhile_cases (p : α → Bool) (l : List α) : l.takeWhile p = [] ∧ l.dropWhile p = l ∨ 0 < (l.takeWhile p).length := by
  rcases htake : l.takeWhile p with _ | ⟨a, front⟩
  · have hall := List.takeWhile_append_dropWhile (p := p) (l := l)
    rw [htake] at hall
    exact Or.inl ⟨rfl, hall⟩
  · exact Or.inr (Nat.succ_pos _)

theorem suffix_tail {l l' : List α} (h : l <:+ l') : l.tail <:+ l'.tail := by
  obtain ⟨front, rfl⟩ := h
  cases front with
  | nil => exact List.suffix_refl _
  | cons a front => exact (List.tail_suffix l).trans (List.suffix_append front l)

/-- Lines with a newline behind each of them are found again between the newlines. -/
theorem splitOn_lines {ls : List (List Char)} (h : ∀ l ∈ ls, '\n' ∉ l) :
    (ls.flatMap (· ++ ['\n'])).splitOn '\n' = ls ++ [[]] := by
  induction ls with
  | nil => rfl
  | cons l ls ih =>
    rw [List.forall_mem_cons] at h
    have hl : ∀ c ∈ l, (c == '\n') = false := fun c hc => beq_false_of_ne fun e => h.1 (e ▸ hc)
    have hsplit := List.splitOnP_append_cons_of_forall_mem hl '\n' (beq_self_eq_true _) (ls.flatMap (· ++ ['\n']))
    rw [List.flatMap_cons, List.append_assoc, List.singleton_append, List.cons_append, ← ih h.2]
    exact hsplit

end List

/-! ## Related things -/

namespace Option

variable {r : α → β → Prop} {x? : Option α} {y? : Option β}

theorem rel_imp {r' : α → β → Prop} (h : Option.Rel r x? y?) (hr : ∀ x y, r x y → r' x y) : Option.Rel r' x? y? := by
  cases h with
  | none => exact .none
  | some h => exact .some (hr _ _ h)

theorem rel_swap {r' : β → α → Prop} (h : Option.Rel r x? y?) (hr : ∀ x y, r x y → r' y x) : Option.Rel r' y? x? := by
  cases h with
  | none => exact .none
  | some h => exact .some (hr _ _ h)

theorem rel_map {r' : γ → δ → Prop} {f : α → γ} {g : β → δ} (h : Option.Rel r x? y?) (hfg : ∀ x y, r x y → r' (f x) (g y)) :
    Option.Rel r' (x?.map f) (y?.map g) := by
  cases h with
  | none => exact .none
  | some h => exact .some (hfg _ _ h)

theorem rel_bind {r' : γ → δ → Prop} {f : α → Option γ} {g : β → Option δ} (h : Option.Rel r x? y?)
    (hfg : ∀ x y, r x y → Option.Rel r' (f x) (g y)) : Option.Rel r' (x?.bind f) (y?.bind g) := by
  cases h with
  | none => exact .none
  | some h => exact hfg _ _ h

end Option

namespace List

theorem exists_of_forall₂ {r : α → β → Prop} {l : List α} {l' : List β} (h : List.Forall₂ r l l') {a : α} (ha : a ∈ l) :
    ∃ b ∈ l', r a b := by
  induction h with
  | nil => cases ha
  | @cons a' b l l' hab _ ih =>
    obtain rfl | ha := List.mem_cons.mp ha
    · exact ⟨b, List.mem_cons_self, hab⟩
    · obtain ⟨c, hc, hac⟩ := ih ha
      exact ⟨c, List.mem_cons_of_mem b hc, hac⟩

theorem findSome?_congr {f g : α → Option β} {l : List α} (h : ∀ a ∈ l, f a = g a) : l.findSome? f = l.findSome? g := by
  induction l with
  | nil => rfl
  | cons a l ih =>
    rw [List.forall_mem_cons] at h
    rw [List.findSome?_cons, List.findSome?_cons, h.1, ih h.2]

theorem findSome?_rel {r : α → β → Prop} {S : γ → δ → Prop} {f : α → Option γ} {g : β → Option δ} {l : List α} {l' : List β}
    (h : List.Forall₂ r l l') (hfg : ∀ a b, r a b → Option.Rel S (f a) (g b)) :
    Option.Rel S (l.findSome? f) (l'.findSome? g) := by
  induction h with
  | nil => exact .none
  | @cons a b l l' hab _ ih =>
    rw [List.findSome?_cons, List.findSome?_cons]
    have hval := hfg a b hab
    generalize f a = x? at hval
    generalize g b = y? at hval
    cases hval with
    | none => exact ih
    | some hxy => exact .some hxy

end List

end Scriptlet
