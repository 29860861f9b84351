import Mathlib

/-!
# Vellar.Lib.Reach — what a walk over a graph meets

`next a` is what a walk goes to from `a`.  `Met next a d b` says that `b` is met `d` steps after `a`, and
`Throughout next P a` that `P` holds of all that is met.  The graph may have cycles; a cycle is met at every depth.
-/

set_option autoImplicit false

namespace Vellar.Reach

variable {α : Type*} (next : α → List α)

inductive Met : α → ℕ → α → Prop
  | here (a : α) : Met a 0 a
  | step {a b c : α} {d : ℕ} (hc : c ∈ next a) (h : Met c d b) : Met a (d + 1) b

/-- `P` of all that is met, and of how far it is. -/
def Throughout (P : ℕ → α → Prop) (a : α) : Prop := ∀ d b, Met next a d b → P d b

variable {next}

theorem Met.trans {a b c : α} {d e : ℕ} (hab : Met next a d b) (hbc : Met next b e c) : Met next a (d + e) c := by
  induction hab with
  | here a =>
    rw [Nat.zero_add]
    exact hbc
  | step hc h ih =>
    rw [Nat.add_right_comm]
    exact .step hc (ih hbc)

theorem Met.snoc {a b c : α} {d : ℕ} (h : Met next a d b) (hc : c ∈ next b) : Met next a (d + 1) c :=
  h.trans (.step hc (.here c))

/-- The last step of a walk. -/
theorem Met.last {a b : α} {d : ℕ} (h : Met next a d b) : a = b ∨ ∃ e c, Met next a e c ∧ b ∈ next c := by
  induction h with
  | here a => exact Or.inl rfl
  | step hc _ ih =>
    rcases ih with rfl | ⟨e, c', hmet, hb⟩
    · exact Or.inr ⟨0, _, .here _, hc⟩
    · exact Or.inr ⟨e + 1, c', .step hc hmet, hb⟩

theorem throughout_iff {P : ℕ → α → Prop} {a : α} :
    Throughout next P a ↔ P 0 a ∧ ∀ c ∈ next a, Throughout next (fun d => P (d + 1)) c := by
  constructor
  · intro h
    exact ⟨h 0 a (.here a), fun c hc d b hb => h (d + 1) b (.step hc hb)⟩
  · rintro ⟨hhere, hbelow⟩ d b (_ | ⟨hc, hb⟩)
    · exact hhere
    · exact hbelow _ hc _ b hb

/-- A cycle is met at every depth. -/
theorem met_cycle {a : α} {d : ℕ} (h : Met next a (d + 1) a) (n : ℕ) : ∃ m, n ≤ m ∧ Met next a m a := by
  induction n with
  | zero => exact ⟨0, le_rfl, .here a⟩
  | succ n ih =>
    obtain ⟨m, hm, hmet⟩ := ih
    exact ⟨m + (d + 1), by omega, hmet.trans h⟩

end Vellar.Reach
