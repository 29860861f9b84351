import Vellar.Lib.Machine

/-!
# Vellar.Lib.Lockstep — two machines over the same operations

Two implementations of one interface, each with its own states.  `Forall₂` relates the rows of the one to the rows of
the other in their order; the lemmas carry it through rewriting, counting and selecting rows.  `lockstep`: a relation
that every step keeps, where the guard of the two states is met, holds after the run.
-/

set_option autoImplicit false

namespace Vellar.Machine

/-! ## Rows in the same order -/

section Rows

variable {α β γ : Type*} {R S : α → β → Prop} {l : List α} {u : List β}

/-- Each machine rewrites its rows. -/
theorem Forall₂.rewrite (h : List.Forall₂ R l u) {f : α → α} {g : β → β}
    (hfg : ∀ a ∈ l, ∀ b, R a b → S (f a) (g b)) : List.Forall₂ S (l.map f) (u.map g) := by
  rw [List.forall₂_map_left_iff, List.forall₂_map_right_iff]
  have hmem := (List.forall₂_and_left (p := fun a => a ∈ l) l u).mpr ⟨fun a ha => ha, h⟩
  exact hmem.imp fun a b hab => hfg a hab.1 b hab.2

theorem Forall₂.countP (h : List.Forall₂ R l u) {p : α → Bool} {q : β → Bool}
    (hpq : ∀ a ∈ l, ∀ b, R a b → p a = q b) : l.countP p = u.countP q := by
  induction h with
  | nil => rfl
  | @cons a b l u hab _ ih =>
    rw [List.countP_cons, List.countP_cons, hpq a List.mem_cons_self b hab,
      ih fun a' ha' => hpq a' (List.mem_cons_of_mem _ ha')]

/-- Each machine selects rows and reads what the two have in common. -/
theorem Forall₂.select (h : List.Forall₂ R l u) {p : α → Bool} {q : β → Bool} {f : α → γ} {g : β → γ}
    (hpq : ∀ a b, R a b → p a = q b) (hfg : ∀ a b, R a b → f a = g b) :
    (l.filter p).map f = (u.filter q).map g := by
  induction h with
  | nil => rfl
  | @cons a b l u hab _ ih =>
    rw [List.filter_cons, List.filter_cons, hpq a b hab]
    split_ifs
    · rw [List.map_cons, List.map_cons, hfg a b hab, ih]
    · exact ih

end Rows

/-! ## Runs -/

section Runs

variable {σ τ α : Type*} {step : σ → α → σ} {step' : τ → α → τ} {R : σ → τ → Prop} {G : σ → τ → α → Prop}

/-- **Lockstep rule**: what a guarded step of both machines keeps holds after a guarded run of both. -/
theorem lockstep (hstep : ∀ s t a, R s t → G s t a → R (step s a) (step' t a)) {s : σ} {t : τ} (h0 : R s t)
    {l : List α} (hG : ∀ pre a post, l = pre ++ a :: post → G (run step s pre) (run step' t pre) a) :
    R (run step s l) (run step' t l) := by
  induction l using List.reverseRecOn with
  | nil => exact h0
  | append_singleton l a ih =>
    rw [run_snoc, run_snoc]
    have hbefore := ih fun pre b post heq => hG pre b (post ++ [a]) (by rw [heq, List.append_assoc, List.cons_append])
    exact hstep _ _ a hbefore (hG l a [] rfl)

/-- A guard of both machines is met along the run of the two together. -/
theorem along_both {s : σ} {t : τ} {l : List α} :
    Along (fun (p : σ × τ) a => (step p.1 a, step' p.2 a)) (fun p a => G p.1 p.2 a) (s, t) l ↔
      ∀ pre a post, l = pre ++ a :: post → G (run step s pre) (run step' t pre) a := by
  have hrun : ∀ pre (s : σ) (t : τ),
      run (fun (p : σ × τ) a => (step p.1 a, step' p.2 a)) (s, t) pre = (run step s pre, run step' t pre) := by
    intro pre
    induction pre with
    | nil => exact fun _ _ => rfl
    | cons a pre ih => exact fun s t => ih (step s a) (step' t a)
  rw [along_iff]
  simp only [hrun]

end Runs

end Vellar.Machine
