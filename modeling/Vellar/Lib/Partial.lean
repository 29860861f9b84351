import Mathlib

/-!
# Vellar.Lib.Partial — computations that may fail

Rules for `Option`: a run of steps that may fail, as a fold; a map whose function may fail; and the slices of a list in
order.  `foldlM_ends` finds the step at which what held before a run stops holding.
-/

set_option autoImplicit false

namespace Vellar.Partial

universe u

variable {α : Type*} {β : Type u}

/-! ## Runs -/

section Runs

variable {f : β → α → Option β}

theorem foldlM_cons_some {a : α} {l : List α} {b r : β} :
    (a :: l).foldlM f b = some r ↔ ∃ b', f b a = some b' ∧ l.foldlM f b' = some r := by
  rw [List.foldlM_cons]
  exact Option.bind_eq_some_iff

theorem foldlM_append_some {l l' : List α} {b r : β} :
    (l ++ l').foldlM f b = some r ↔ ∃ b', l.foldlM f b = some b' ∧ l'.foldlM f b' = some r := by
  rw [List.foldlM_append]
  exact Option.bind_eq_some_iff

/-- What holds before a run and not after it ends at one of its steps. -/
theorem foldlM_ends {P : β → Prop} {l : List α} {b r : β} (h : l.foldlM f b = some r) (hb : P b) (hr : ¬ P r) :
    ∃ pre a post b₁ b₂, l = pre ++ a :: post ∧ pre.foldlM f b = some b₁ ∧ f b₁ a = some b₂ ∧ P b₁ ∧ ¬ P b₂ := by
  induction l generalizing b with
  | nil =>
    obtain rfl : b = r := Option.some.inj h
    exact absurd hb hr
  | cons a l ih =>
    obtain ⟨b', hstep, hrest⟩ := foldlM_cons_some.mp h
    by_cases hb' : P b'
    · obtain ⟨pre, a', post, b₁, b₂, rfl, hpre, hlast⟩ := ih hrest hb'
      exact ⟨a :: pre, a', post, b₁, b₂, rfl, foldlM_cons_some.mpr ⟨b', hstep, hpre⟩, hlast⟩
    · exact ⟨[], a, l, b, b', rfl, rfl, hstep, hb, hb'⟩

/-- A run that ends has made every step. -/
theorem foldlM_mem_some {l : List α} {b r : β} (h : l.foldlM f b = some r) : ∀ a ∈ l, ∃ b₁ b₂, f b₁ a = some b₂ := by
  induction l generalizing b with
  | nil => exact fun a ha => absurd ha List.not_mem_nil
  | cons a l ih =>
    obtain ⟨b', hstep, hrest⟩ := foldlM_cons_some.mp h
    intro a' ha'
    rcases List.mem_cons.mp ha' with rfl | ha'
    · exact ⟨b, b', hstep⟩
    · exact ih hrest a' ha'

end Runs

/-! ## Related lists -/

section Related

variable {γ δ : Type*} {R : γ → δ → Prop} {xs : List γ} {ys : List δ}

theorem exists_right (h : List.Forall₂ R xs ys) : ∀ x ∈ xs, ∃ y ∈ ys, R x y := by
  induction h with
  | nil => exact fun x hx => absurd hx List.not_mem_nil
  | cons hr hrel ih =>
    intro x hx
    rcases List.mem_cons.mp hx with rfl | hx
    · exact ⟨_, List.mem_cons_self, hr⟩
    · obtain ⟨y, hy, hxy⟩ := ih x hx
      exact ⟨y, List.mem_cons_of_mem _ hy, hxy⟩

theorem exists_left (h : List.Forall₂ R xs ys) : ∀ y ∈ ys, ∃ x ∈ xs, R x y := exists_right h.flip

theorem forall_iff (h : List.Forall₂ R xs ys) {P : γ → Prop} {Q : δ → Prop} (hPQ : ∀ x y, R x y → (P x ↔ Q y)) :
    (∀ x ∈ xs, P x) ↔ ∀ y ∈ ys, Q y := by
  constructor
  · intro hP y hy
    obtain ⟨x, hx, hxy⟩ := exists_left h y hy
    exact (hPQ x y hxy).mp (hP x hx)
  · intro hQ x hx
    obtain ⟨y, hy, hxy⟩ := exists_right h x hx
    exact (hPQ x y hxy).mpr (hQ y hy)

end Related

/-! ## Maps -/

section Maps

variable {f : α → Option β}

theorem mapM_eq_some {xs : List α} {ys : List β} :
    xs.mapM f = some ys ↔ List.Forall₂ (fun x y => f x = some y) xs ys := by
  induction xs generalizing ys with
  | nil => cases ys <;> simp
  | cons x xs ih =>
    rw [List.mapM_cons]
    constructor
    · intro h
      obtain ⟨y, hy, h⟩ := Option.bind_eq_some_iff.mp h
      obtain ⟨ys', hys, h⟩ := Option.bind_eq_some_iff.mp h
      obtain rfl := Option.some.inj h
      exact .cons hy (ih.mp hys)
    · rintro (_ | ⟨hy, hys⟩)
      show (f x).bind _ = _
      rw [hy, Option.bind_some, ih.mpr hys]
      rfl

theorem exists_mapM_iff {xs : List α} : (∃ ys, xs.mapM f = some ys) ↔ ∀ x ∈ xs, ∃ y, f x = some y := by
  constructor
  · rintro ⟨ys, hys⟩ x hx
    obtain ⟨y, -, hy⟩ := exists_right (mapM_eq_some.mp hys) x hx
    exact ⟨y, hy⟩
  · intro h
    induction xs with
    | nil => exact ⟨[], rfl⟩
    | cons x xs ih =>
      obtain ⟨y, hy⟩ := h x List.mem_cons_self
      obtain ⟨ys, hys⟩ := ih fun x' hx' => h x' (List.mem_cons_of_mem _ hx')
      exact ⟨y :: ys, mapM_eq_some.mpr (.cons hy (mapM_eq_some.mp hys))⟩

/-- A map over elements related to others, by what its results look like. -/
theorem mapM_of_forall₂ {γ δ : Type*} {R : α → γ → Prop} {g : β → δ} {h : γ → δ} {xs : List α} {rows : List γ}
    (hrel : List.Forall₂ R xs rows) (hf : ∀ x r, r ∈ rows → R x r → ∃ y, f x = some y ∧ g y = h r) :
    ∃ ys, xs.mapM f = some ys ∧ ys.map g = rows.map h := by
  induction hrel with
  | nil => exact ⟨[], rfl, rfl⟩
  | @cons x r xs rows hr hrel ih =>
    obtain ⟨y, hy, hgy⟩ := hf x r List.mem_cons_self hr
    obtain ⟨ys, hys, hgys⟩ := ih fun x r hr => hf x r (List.mem_cons_of_mem _ hr)
    refine ⟨y :: ys, mapM_eq_some.mpr (.cons hy (mapM_eq_some.mp hys)), ?_⟩
    rw [List.map_cons, List.map_cons, hgy, hgys]

/-- The length of a map to lists, by the length of each. -/
theorem length_flatten_mapM {γ : Type u} {f : α → Option (List γ)} {g : α → ℕ} {xs : List α} {ys : List (List γ)}
    (h : xs.mapM f = some ys) (hf : ∀ x y, f x = some y → y.length = g x) : ys.flatten.length = (xs.map g).sum := by
  have hrel := mapM_eq_some.mp h
  clear h
  induction hrel with
  | nil => rfl
  | cons hy hrel ih => rw [List.flatten_cons, List.length_append, List.map_cons, List.sum_cons, hf _ _ hy, ih]

end Maps

/-! ## Slices -/

/-- The slices of `n` elements in order are the list, when there are enough. -/
theorem flatMap_slices (n : ℕ) (l : List α) (m : ℕ) :
    (List.range m).flatMap (fun k => (l.drop (k * n)).take n) = l.take (m * n) := by
  induction m with
  | zero => simp
  | succ m ih =>
    rw [List.range_succ, List.flatMap_append, ih, List.flatMap_singleton, Nat.succ_mul, List.take_add]

end Vellar.Partial
