import Mathlib

/-!
# Vellar.Lib.Effect — computations that change a state and may throw

A computation of type `Effect ε σ α` runs on a state of type `σ` and ends with a value or an error, in the
state it has reached either way: what was done before a throw stays done.  `Returns x s a s'` says that `x`
run at `s` returns `a` and leaves `s'`, `Keeps I x` that `x` leaves the invariant `I` however it ends;
`attempt` is try and catch.  `Ends x Q R s` is the weakest precondition of both ends, with an equation for every form.
-/

set_option autoImplicit false

namespace Vellar

variable {ε σ α β : Type}

abbrev Effect (ε σ α : Type) := EStateM ε σ α

namespace Effect

/-- The computation returns a value. -/
def Returns (x : Effect ε σ α) (s : σ) (a : α) (s' : σ) : Prop := x.run s = .ok a s'

/-- Try `x`; on an error go on with the handler, at the state where it was thrown. -/
def attempt (x : Effect ε σ α) (handler : ε → Effect ε σ α) : Effect ε σ α := fun s =>
  match x s with
  | .ok a s' => .ok a s'
  | .error e s' => handler e s'

/-- The value, or the error where there is none. -/
def ofOption (e : ε) : Option α → Effect ε σ α
  | some a => pure a
  | none => throw e

/-- One more entry in a log. -/
def tell {τ : Type} (x : τ) : Effect ε (List τ) Unit := fun log => .ok () (log ++ [x])

/-- The computation throws nowhere. -/
def NoThrow (x : Effect ε σ α) (s : σ) : Prop := ∃ a s', Returns x s a s'

instance {x : Effect ε σ α} {s : σ} : Decidable (NoThrow x s) :=
  decidable_of_iff ((match x s with
      | .ok _ _ => true
      | .error _ _ => false) = true) (by
    show _ ↔ ∃ a s', x s = .ok a s'
    cases x s <;> simp)

/-- The state the computation leaves, with a value or an error. -/
def after (x : Effect ε σ α) (s : σ) : σ :=
  match x s with
  | .ok _ s' => s'
  | .error _ s' => s'

/-- However the computation ends, `I` still holds. -/
def Keeps (I : σ → Prop) (x : Effect ε σ α) : Prop := ∀ s, I s → I (x.after s)

/-! ## What returns -/

theorem returns_pure {s s' : σ} {a b : α} : Returns (pure a : Effect ε σ α) s b s' ↔ b = a ∧ s' = s := by
  show EStateM.Result.ok a s = .ok b s' ↔ _
  rw [EStateM.Result.ok.injEq, @eq_comm _ a, @eq_comm _ s]

theorem returns_bind {x : Effect ε σ α} {f : α → Effect ε σ β} {s s'' : σ} {b : β} :
    Returns (x >>= f) s b s'' ↔ ∃ a s', Returns x s a s' ∧ Returns (f a) s' b s'' := by
  show EStateM.bind x f s = .ok b s'' ↔ ∃ a s', x s = .ok a s' ∧ f a s' = .ok b s''
  unfold EStateM.bind
  cases x s with
  | ok a s' => simp
  | error e s' => simp

theorem returns_throw {s s' : σ} {e : ε} {a : α} : ¬ Returns (throw e : Effect ε σ α) s a s' := by
  show ¬ (EStateM.Result.error e s : EStateM.Result ε σ α) = .ok a s'
  simp

@[simp] theorem returns_ofOption {e : ε} {x : Option α} {s s' : σ} {a : α} :
    Returns (ofOption e x) s a s' ↔ x = some a ∧ s' = s := by
  cases x with
  | none => simpa [ofOption] using returns_throw
  | some b => rw [ofOption, returns_pure, Option.some.injEq, @eq_comm _ a]

@[simp] theorem returns_ofExcept {x : Except ε α} {s s' : σ} {a : α} : Returns (ofExcept x : Effect ε σ α) s a s' ↔ x = .ok a ∧ s' = s := by
  cases x with
  | error e => exact ⟨fun h => absurd h returns_throw, fun h => (nomatch h.1)⟩
  | ok b =>
    show Returns (pure b : Effect ε σ α) s a s' ↔ _
    rw [returns_pure, Except.ok.injEq, @eq_comm _ a]

@[simp] theorem returns_tell {τ : Type} {x : τ} {log log' : List τ} {u : Unit} :
    Returns (tell x : Effect ε (List τ) Unit) log u log' ↔ log' = log ++ [x] := by
  show (EStateM.Result.ok () (log ++ [x]) : EStateM.Result ε (List τ) Unit) = .ok u log' ↔ _
  rw [EStateM.Result.ok.injEq, @eq_comm _ _ log']
  exact and_iff_right rfl

/-- What returns needs no handler. -/
theorem Returns.attempt {x : Effect ε σ α} {handler : ε → Effect ε σ α} {s s' : σ} {a : α}
    (h : Returns x s a s') : Returns (attempt x handler) s a s' := by
  show Effect.attempt x handler s = _
  unfold Effect.attempt
  rw [show x s = .ok a s' from h]

theorem Returns.unique {x : Effect ε σ α} {s s' s'' : σ} {a b : α} (h : Returns x s a s') (h' : Returns x s b s'') :
    a = b ∧ s' = s'' := by
  have heq : (EStateM.Result.ok a s' : EStateM.Result ε σ α) = .ok b s'' := h.symm.trans h'
  simpa using heq

theorem Returns.after_eq {x : Effect ε σ α} {s s' : σ} {a : α} (h : Returns x s a s') : x.after s = s' := by
  unfold after
  rw [show x s = .ok a s' from h]

/-! ## What is kept -/

variable {I : σ → Prop}

theorem keeps_pure {a : α} : Keeps I (pure a : Effect ε σ α) := fun _ hs => hs

theorem keeps_throw {e : ε} : Keeps I (throw e : Effect ε σ α) := fun _ hs => hs

theorem keeps_ofOption {e : ε} {x : Option α} : Keeps I (ofOption e x) := by
  cases x with
  | none => exact keeps_throw
  | some a => exact keeps_pure

theorem keeps_tell {τ : Type} {P : τ → Prop} {x : τ} (h : P x) : Keeps (fun log => ∀ y ∈ log, P y) (tell x : Effect ε (List τ) Unit) := by
  intro log hlog y hy
  rcases List.mem_append.mp hy with hy | hy
  · exact hlog y hy
  · exact List.mem_singleton.mp hy ▸ h

theorem keeps_ofExcept {x : Except ε α} : Keeps I (ofExcept x : Effect ε σ α) := by
  cases x with
  | error e => exact keeps_throw
  | ok a => exact keeps_pure

/-- What follows `x` may rest on what `x` returns. -/
theorem Keeps.bind_of {x : Effect ε σ α} {f : α → Effect ε σ β} (hx : Keeps I x)
    (hf : ∀ a, (∃ s s', Returns x s a s') → Keeps I (f a)) : Keeps I (x >>= f) := by
  intro s hs
  have hx' := hx s hs
  show I (Effect.after (EStateM.bind x f) s)
  unfold after EStateM.bind at *
  cases hres : x s with
  | ok a s' =>
    rw [hres] at hx'
    exact hf a ⟨s, s', hres⟩ s' hx'
  | error e s' =>
    rw [hres] at hx'
    exact hx'

theorem Keeps.bind {x : Effect ε σ α} {f : α → Effect ε σ β} (hx : Keeps I x) (hf : ∀ a, Keeps I (f a)) : Keeps I (x >>= f) :=
  hx.bind_of fun a _ => hf a

theorem Keeps.attempt {x : Effect ε σ α} {handler : ε → Effect ε σ α} (hx : Keeps I x)
    (hh : ∀ e, Keeps I (handler e)) : Keeps I (attempt x handler) := by
  intro s hs
  have hx' := hx s hs
  unfold after Effect.attempt at *
  cases hres : x s with
  | ok a s' =>
    rw [hres] at hx'
    exact hx'
  | error e s' =>
    rw [hres] at hx'
    exact hh e s' hx'

/-! ## How a computation ends -/

section Ends

variable {Q : α → σ → Prop} {R : ε → σ → Prop} {s : σ}

/-- Run at `s`, the computation returns with `Q` or throws with `R`. -/
def Ends (x : Effect ε σ α) (Q : α → σ → Prop) (R : ε → σ → Prop) (s : σ) : Prop :=
  match x s with
  | .ok a s' => Q a s'
  | .error e s' => R e s'

theorem ends_after {x : Effect ε σ α} {P : σ → Prop} : P (x.after s) ↔ Ends x (fun _ => P) (fun _ => P) s := by
  unfold after Ends
  cases x s <;> exact Iff.rfl

@[simp] theorem ends_pure {a : α} : Ends (pure a) Q R s ↔ Q a s := Iff.rfl

@[simp] theorem ends_throw {e : ε} : Ends (throw e : Effect ε σ α) Q R s ↔ R e s := Iff.rfl

@[simp] theorem ends_modify {f : σ → σ} {Q : Unit → σ → Prop} : Ends (modify f : Effect ε σ Unit) Q R s ↔ Q () (f s) :=
  Iff.rfl

@[simp] theorem ends_bind {x : Effect ε σ β} {f : β → Effect ε σ α} :
    Ends (x >>= f) Q R s ↔ Ends x (fun b s' => Ends (f b) Q R s') R s := by
  show Ends (EStateM.bind x f) Q R s ↔ _
  unfold Ends EStateM.bind
  cases x s <;> exact Iff.rfl

@[simp] theorem ends_attempt {x : Effect ε σ α} {handler : ε → Effect ε σ α} :
    Ends (attempt x handler) Q R s ↔ Ends x Q (fun e s' => Ends (handler e) Q R s') s := by
  unfold Ends attempt
  cases x s <;> exact Iff.rfl

@[simp] theorem ends_ofExcept {x : Except ε α} :
    Ends (ofExcept x) Q R s ↔ (∀ a, x = .ok a → Q a s) ∧ ∀ e, x = .error e → R e s := by
  cases x with
  | ok a =>
    show Q a s ↔ _
    simp
  | error e =>
    show R e s ↔ _
    simp

@[simp] theorem ends_ofOption {e : ε} {x : Option α} :
    Ends (ofOption e x) Q R s ↔ (∀ a, x = some a → Q a s) ∧ (x = none → R e s) := by
  cases x with
  | some a =>
    show Q a s ↔ _
    simp
  | none =>
    show R e s ↔ _
    simp

end Ends

end Effect

end Vellar
