import Mathlib

/-!
# Vellar.Lib.Machine — runs of a deterministic machine

A machine is a total step function `step : σ → α → σ`; an operation that fails is a step that leaves the
state alone.  `run` is the state after a list of operations, `Along G` says that every step of a run meets
the guard `G` at the state it starts from, and `logOf` collects what the steps emit.  The rules:

* `inv_run` / `inv_prefix`: an invariant kept by every guarded step holds after the run and after every
  prefix of it;
* `inv_prefix_iff`: where the guard is exactly what keeps the invariant;
* `inv_log`: an invariant that ties the state to the history emitted so far;
* `each_snoc`: what every event of a history meets, one more event;
* `last_event`: from the first state where nothing was recorded to a state where something is, some
  operation recorded it and none after it did.
-/

set_option autoImplicit false

namespace Vellar.Machine

variable {σ α β : Type*}

section Runs

variable (step : σ → α → σ)

/-- The state after the operations `l`. -/
def run (s : σ) (l : List α) : σ := l.foldl step s

/-- Every step of the run meets the guard `G`. -/
def Along (G : σ → α → Prop) : σ → List α → Prop
  | _, [] => True
  | s, a :: l => G s a ∧ Along G (step s a) l

/-- What the steps of the run emit, in order. -/
def logOf (f : σ → α → List β) : σ → List α → List β
  | _, [] => []
  | s, a :: l => f s a ++ logOf f (step s a) l

@[simp] theorem run_nil (s : σ) : run step s [] = s := rfl

@[simp] theorem run_cons (s : σ) (a : α) (l : List α) : run step s (a :: l) = run step (step s a) l := rfl

theorem run_append (s : σ) (l l' : List α) : run step s (l ++ l') = run step (run step s l) l' := by
  simp [run, List.foldl_append]

theorem run_snoc (s : σ) (l : List α) (a : α) : run step s (l ++ [a]) = step (run step s l) a := by
  rw [run_append]; rfl

variable {step}

theorem along_append {G : σ → α → Prop} {s : σ} {l l' : List α} :
    Along step G s (l ++ l') ↔ Along step G s l ∧ Along step G (run step s l) l' := by
  induction l generalizing s with
  | nil => simp [Along]
  | cons a l ih => simp only [List.cons_append, Along, ih, run_cons, and_assoc]

/-- A guard met along a run is met at each step of it. -/
theorem along_iff {G : σ → α → Prop} {s : σ} {l : List α} :
    Along step G s l ↔ ∀ pre a post, l = pre ++ a :: post → G (run step s pre) a := by
  induction l generalizing s with
  | nil => simp [Along]
  | cons b l ih =>
    simp only [Along]
    constructor
    · rintro ⟨h1, h2⟩ pre a post he
      cases pre with
      | nil =>
        obtain ⟨rfl, rfl⟩ := List.cons_eq_cons.mp he
        exact h1
      | cons c pre =>
        obtain ⟨rfl, rfl⟩ := List.cons_eq_cons.mp he
        exact ih.mp h2 pre a post rfl
    · intro h
      refine ⟨h [] b l rfl, ih.mpr fun pre a post he => ?_⟩
      subst he
      exact h (b :: pre) a post rfl

theorem along_and {G G' : σ → α → Prop} {s : σ} {l : List α} :
    Along step (fun s a => G s a ∧ G' s a) s l ↔ Along step G s l ∧ Along step G' s l := by
  induction l generalizing s with
  | nil => simp [Along]
  | cons a l ih => simp only [Along, ih, and_and_and_comm]

theorem along_true {s : σ} {l : List α} : Along step (fun _ _ => True) s l := by
  induction l generalizing s with
  | nil => trivial
  | cons a l ih => exact ⟨trivial, ih⟩

instance {G : σ → α → Prop} [hG : ∀ s a, Decidable (G s a)] : ∀ s l, Decidable (Along step G s l)
  | _, [] => isTrue trivial
  | s, a :: l => @instDecidableAnd _ _ (hG s a) (instDecidableAlong (step s a) l)

theorem logOf_append (f : σ → α → List β) (s : σ) (l l' : List α) :
    logOf step f s (l ++ l') = logOf step f s l ++ logOf step f (run step s l) l' := by
  induction l generalizing s with
  | nil => rfl
  | cons a l ih => simp only [List.cons_append, logOf, ih, run_cons, List.append_assoc]

/-- **Run rule**: what every guarded step keeps holds after a guarded run. -/
theorem inv_run {P : σ → Prop} {G : σ → α → Prop} (hstep : ∀ s a, P s → G s a → P (step s a)) {s : σ}
    {l : List α} (h0 : P s) (hG : Along step G s l) : P (run step s l) := by
  induction l generalizing s with
  | nil => exact h0
  | cons a l ih => exact ih (hstep s a h0 hG.1) hG.2

/-- **Run rule for every state on the way**. -/
theorem inv_prefix {P : σ → Prop} {G : σ → α → Prop} (hstep : ∀ s a, P s → G s a → P (step s a)) {s : σ}
    {l : List α} (h0 : P s) (hG : Along step G s l) : ∀ pre, pre <+: l → P (run step s pre) := by
  rintro pre ⟨post, rfl⟩
  exact inv_run hstep h0 (along_append.mp hG).1

/-- **Run rule for an exact guard**: where a step keeps `P` just when it meets `G`, `P` holds on the way just when every
step meets `G`. -/
theorem inv_prefix_iff {P : σ → Prop} {G H : σ → α → Prop} (hstep : ∀ s a, P s → H s a → (P (step s a) ↔ G s a))
    {s : σ} {l : List α} (h0 : P s) (hH : Along step H s l) :
    (∀ pre, pre <+: l → P (run step s pre)) ↔ Along step G s l := by
  constructor
  · intro hall
    rw [along_iff] at hH ⊢
    intro pre a post he
    have hnext : P (run step s (pre ++ [a])) := hall _ ⟨post, by simp [he]⟩
    rw [run_snoc] at hnext
    exact (hstep _ a (hall pre ⟨a :: post, he.symm⟩) (hH pre a post he)).mp hnext
  · intro hG
    exact inv_prefix (fun s a hP hboth => (hstep s a hP hboth.1).mpr hboth.2) h0 (along_and.mpr ⟨hH, hG⟩)

/-- **History rule**: an invariant between the state and what was emitted so far. -/
theorem inv_log {f : σ → α → List β} {P : σ → List β → Prop} {G : σ → α → Prop}
    (hstep : ∀ s h a, P s h → G s a → P (step s a) (h ++ f s a)) {s : σ} {h : List β} {l : List α}
    (h0 : P s h) (hG : Along step G s l) : P (run step s l) (h ++ logOf step f s l) := by
  induction l generalizing s h with
  | nil => simpa [logOf] using h0
  | cons a l ih =>
    have := ih (hstep s h a h0 hG.1) hG.2
    simpa [logOf, List.append_assoc] using this

/-- **Last event**: if only operations with `E` can change `v`, a run that ends with another `v` than it
started with contains a last operation with `E`, and `v` is what that operation left. -/
theorem last_event {κ : Type*} {v : σ → κ} {E : σ → α → Prop}
    (hkeep : ∀ s a, ¬ E s a → v (step s a) = v s) {s : σ} {l : List α} (hne : v (run step s l) ≠ v s) :
    ∃ pre a post, l = pre ++ a :: post ∧ E (run step s pre) a ∧
      v (run step s l) = v (step (run step s pre) a) ∧
      Along step (fun s a => ¬ E s a) (step (run step s pre) a) post := by
  induction l using List.reverseRecOn with
  | nil => exact absurd rfl hne
  | append_singleton l b ih =>
    rw [run_snoc] at hne ⊢
    by_cases hE : E (run step s l) b
    · exact ⟨l, b, [], rfl, hE, rfl, trivial⟩
    · have hk := hkeep _ _ hE
      rw [hk] at hne ⊢
      obtain ⟨pre, a, post, rfl, h1, h2, h3⟩ := ih hne
      refine ⟨pre, a, post ++ [b], by simp, h1, h2, along_append.mpr ⟨h3, ?_, trivial⟩⟩
      rwa [run_append] at hE

/-- What no operation with `E` touches is what it was. -/
theorem keep_run {κ : Type*} {v : σ → κ} {E : σ → α → Prop} (hkeep : ∀ s a, ¬ E s a → v (step s a) = v s)
    {s : σ} {l : List α} (h : Along step (fun s a => ¬ E s a) s l) : v (run step s l) = v s :=
  inv_run (P := fun s' => v s' = v s) (fun s' a h1 h2 => (hkeep s' a h2).trans h1) rfl h

end Runs

/-! ## Histories -/

section Histories

variable {P P' : List β → β → Prop} {h : List β} {b : β}

/-- Every event of a history meets `P` with what came before it. -/
def Each (P : List β → β → Prop) (h : List β) : Prop := ∀ pre b post, h = pre ++ b :: post → P pre b

theorem each_nil : Each P [] := fun pre b post he => absurd he (by simp)

theorem each_snoc : Each P (h ++ [b]) ↔ Each P h ∧ P h b := by
  constructor
  · intro hall
    exact ⟨fun pre c post he => hall pre c (post ++ [b]) (by rw [he]; simp), hall h b [] rfl⟩
  · rintro ⟨hall, hlast⟩ pre c post he
    rcases List.eq_nil_or_concat post with rfl | ⟨post, d, rfl⟩
    · obtain ⟨rfl, hcons⟩ := List.append_inj' he rfl
      obtain rfl := (List.cons_eq_cons.mp hcons).1
      exact hlast
    · have he' : h ++ [b] = (pre ++ c :: post) ++ [d] := by rw [he]; simp
      exact hall pre c post (List.append_inj' he' rfl).1

theorem each_append {l : List β} (hh : Each P h) (hl : ∀ pre, ∀ b ∈ l, P pre b) : Each P (h ++ l) := by
  induction l using List.reverseRecOn with
  | nil => rwa [List.append_nil]
  | append_singleton l b ih =>
    rw [← List.append_assoc]
    exact each_snoc.mpr ⟨ih fun pre c hc => hl pre c (List.mem_append_left _ hc),
      hl _ b (List.mem_append_right _ (List.mem_singleton_self b))⟩

end Histories

end Vellar.Machine
