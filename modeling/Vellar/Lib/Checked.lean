import Mathlib

/-!
# Vellar.Lib.Checked — computations that may stop with an error

Rules for `Except` programs written as a sequence of checks: `ensure` is one check, `bind_ok` peels a
sequence apart, and the `foldlM` rules reason about a loop whose body may stop.  Nothing here depends on
what is checked.
-/

set_option autoImplicit false

namespace Vellar.Checked

universe u

variable {ε : Type*} {α β : Type u}

/-- Go on when `p` holds, otherwise stop with `e`. -/
def ensure (p : Prop) [Decidable p] (e : ε) : Except ε Unit := if p then .ok () else .error e

/-- The value of an `Option`, or stop with `e`. -/
def orStop (x : Option α) (e : ε) : Except ε α :=
  match x with
  | some a => .ok a
  | none => .error e

/-- Run `f` on the value, if there is one. -/
def whenSome (x : Option α) (f : α → Except ε PUnit) : Except ε PUnit :=
  match x with
  | some a => f a
  | none => .ok ⟨⟩

@[simp] theorem ensure_ok {p : Prop} [Decidable p] {e : ε} {u : Unit} : ensure p e = .ok u ↔ p := by
  unfold ensure
  split_ifs with h <;> simp [h]

@[simp] theorem orStop_ok {x : Option α} {e : ε} {a : α} : orStop x e = .ok a ↔ x = some a := by
  cases x <;> simp [orStop]

@[simp] theorem whenSome_ok {x : Option α} {f : α → Except ε PUnit} {u : PUnit} :
    whenSome x f = .ok u ↔ ∀ a, x = some a → f a = .ok ⟨⟩ := by
  cases x <;> simp [whenSome]

theorem bind_ok {x : Except ε α} {f : α → Except ε β} {b : β} :
    (x >>= f) = .ok b ↔ ∃ a, x = .ok a ∧ f a = .ok b := by
  cases x with
  | error e => simp [bind, Except.bind]
  | ok a => simp [bind, Except.bind]

theorem check_bind_ok {x : Except ε PUnit} {f : PUnit → Except ε β} {b : β} :
    (x >>= f) = .ok b ↔ x = .ok ⟨⟩ ∧ f ⟨⟩ = .ok b :=
  bind_ok.trans ⟨fun ⟨_, h⟩ => h, fun h => ⟨⟨⟩, h⟩⟩

@[simp] theorem pure_ok {a b : α} : (pure a : Except ε α) = .ok b ↔ a = b := by
  simp [pure, Except.pure]

/-! ## Mapping a result -/

section Map

variable {γ : Type u}

theorem bind_map (x : Except ε α) (f : α → Except ε β) (g : β → γ) :
    (x >>= f).map g = x >>= fun a => (f a).map g := by
  cases x <;> rfl

theorem map_bind (x : Except ε α) (g : α → β) (f : β → Except ε γ) : x.map g >>= f = x >>= fun a => f (g a) := by
  cases x <;> rfl

theorem orStop_map (x : Option α) (g : α → β) (e : ε) : orStop (x.map g) e = (orStop x e).map g := by
  cases x <;> rfl

end Map

/-! ## Loops -/

section Loops

variable {ε' : Type*} {f : β → α → Except ε β} {g : β → α → Except ε' β}

theorem foldlM_cons_ok {b r : β} {a : α} {l : List α} :
    (a :: l).foldlM f b = .ok r ↔ ∃ b', f b a = .ok b' ∧ l.foldlM f b' = .ok r := by
  rw [List.foldlM_cons, bind_ok]

/-- A loop whose body does what another body does, on the elements met, ends where the other ends. -/
theorem foldlM_mono {l : List α} (hfg : ∀ a ∈ l, ∀ b b', f b a = .ok b' → g b a = .ok b') {b r : β}
    (h : l.foldlM f b = .ok r) : l.foldlM g b = .ok r := by
  induction l generalizing b with
  | nil =>
    obtain rfl : b = r := by simpa using h
    rfl
  | cons a l ih =>
    obtain ⟨b', h1, h2⟩ := foldlM_cons_ok.mp h
    exact foldlM_cons_ok.mpr ⟨b', hfg a (by simp) b b' h1,
      ih (fun a' ha' => hfg a' (by simp [ha'])) h2⟩

/-- A loop that ends has run its body on every element. -/
theorem foldlM_ok_mem {l : List α} {b r : β} (h : l.foldlM f b = .ok r) :
    ∀ a ∈ l, ∃ b₁ b₂, f b₁ a = .ok b₂ := by
  induction l generalizing b with
  | nil => simp
  | cons a l ih =>
    obtain ⟨b', h1, h2⟩ := foldlM_cons_ok.mp h
    intro a' ha'
    rcases List.mem_cons.mp ha' with rfl | ha'
    · exact ⟨b, b', h1⟩
    · exact ih h2 a' ha'

/-- **Loop rule**: an invariant indexed by the elements still to come. -/
theorem foldlM_inv (I : List α → β → Prop) {l : List α} {b r : β}
    (hstep : ∀ a l' b b', I (a :: l') b → f b a = .ok b' → I l' b') (h0 : I l b)
    (h : l.foldlM f b = .ok r) : I [] r := by
  induction l generalizing b with
  | nil =>
    have hr : b = r := by simpa using h
    exact hr ▸ h0
  | cons a l ih =>
    obtain ⟨b', h1, h2⟩ := foldlM_cons_ok.mp h
    exact ih (hstep a l b b' h0 h1) h2

/-- A loop over checks alone ends exactly when every check passes. -/
theorem forM_ok {l : List α} {c : α → Except ε Unit} {u : Unit} :
    forM l c = .ok u ↔ ∀ a ∈ l, c a = .ok () := by
  induction l with
  | nil => simp
  | cons a l ih =>
    rw [List.forM_cons, bind_ok]
    constructor
    · rintro ⟨_, h1, h2⟩
      exact List.forall_mem_cons.mpr ⟨h1, ih.mp h2⟩
    · intro h
      obtain ⟨h1, h2⟩ := List.forall_mem_cons.mp h
      exact ⟨(), h1, ih.mpr h2⟩

end Loops

end Vellar.Checked
