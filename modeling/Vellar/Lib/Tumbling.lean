import Vellar.Lib.Machine

/-!
# Vellar.Lib.Tumbling — a cumulative allowance over a tumbling window

A meter remembers when its window opened and what the window has admitted.  A charge at `now` first opens
a new window when the old one is over (`start + W ≤ now`), then is admitted when the window's total stays
at most `L`.  Times and amounts are arbitrary ordered additive monoids.

* `Inv`: what ties a meter to the history of admitted charges; `inv_charge`: an admitted charge keeps it;
* `windowSum_le`: one window admits at most `L`;
* `sum_near_le`: charges whose times are less than `W` apart lie in at most two windows, so they add up to
  at most `L + L`;
* `inv_metered`: the invariant along the runs of a machine that charges a meter.
-/

set_option autoImplicit false

namespace Vellar.Tumbling

/-- A window: when it opened, what it has admitted. -/
structure Meter (T M : Type*) where
  start : T
  spent : M

/-- An admitted charge: its time, the start of its window, its amount. -/
structure Charge (T M : Type*) where
  time : T
  window : T
  amount : M

variable {T M : Type*}

/-- The window a charge at `now` falls in. -/
def openAt [Add T] [LE T] [DecidableLE T] [Zero M] (W now : T) : Option (Meter T M) → Meter T M
  | none => ⟨now, 0⟩
  | some m => if m.start + W ≤ now then ⟨now, 0⟩ else m

/-- Admit `amount` at `now`, or refuse it. -/
def charge [Add T] [LE T] [DecidableLE T] [AddMonoid M] [LE M] [DecidableLE M] (L : M) (W now : T)
    (amount : M) (m : Option (Meter T M)) : Option (Meter T M) :=
  let c := openAt W now m
  if c.spent + amount ≤ L then some ⟨c.start, c.spent + amount⟩ else none

/-- The total of the charges with `p`. -/
def sumOf [AddMonoid M] (p : Charge T M → Prop) [DecidablePred p] (h : List (Charge T M)) : M :=
  ((h.filter (fun e => p e)).map Charge.amount).sum

/-- The total of one window. -/
def windowSum [DecidableEq T] [AddMonoid M] (w : T) (h : List (Charge T M)) : M :=
  sumOf (fun e => e.window = w) h

/-! ## Sums -/

section Sums

variable [AddCommMonoid M] {p q r : Charge T M → Prop} [DecidablePred p] [DecidablePred q] [DecidablePred r]
  {h : List (Charge T M)}

@[simp] theorem sumOf_nil : sumOf p ([] : List (Charge T M)) = 0 := rfl

theorem sumOf_cons (e : Charge T M) :
    sumOf p (e :: h) = (if p e then e.amount else 0) + sumOf p h := by
  unfold sumOf
  by_cases he : p e <;> simp [he]

theorem sumOf_snoc (e : Charge T M) :
    sumOf p (h ++ [e]) = sumOf p h + (if p e then e.amount else 0) := by
  unfold sumOf
  by_cases he : p e <;> simp [he]

theorem windowSum_snoc [DecidableEq T] (w : T) (e : Charge T M) :
    windowSum w (h ++ [e]) = windowSum w h + (if e.window = w then e.amount else 0) := by
  unfold windowSum
  exact sumOf_snoc e

theorem sumOf_eq_zero (hp : ∀ e ∈ h, ¬ p e) : sumOf p h = 0 := by
  induction h with
  | nil => rfl
  | cons e h ih =>
    obtain ⟨h1, h2⟩ := List.forall_mem_cons.mp hp
    rw [sumOf_cons, if_neg h1, ih h2, add_zero]

variable [LinearOrder M] [IsOrderedCancelAddMonoid M]

theorem sumOf_nonneg (hpos : ∀ e ∈ h, 0 ≤ e.amount) : 0 ≤ sumOf p h := by
  induction h with
  | nil => exact le_rfl
  | cons e h ih =>
    obtain ⟨h1, h2⟩ := List.forall_mem_cons.mp hpos
    rw [sumOf_cons]
    refine add_nonneg ?_ (ih h2)
    split_ifs
    · exact h1
    · exact le_rfl

/-- A total over charges of two kinds is at most the two kinds' totals. -/
theorem sumOf_le_add (hpos : ∀ e ∈ h, 0 ≤ e.amount) (hpq : ∀ e ∈ h, p e → q e ∨ r e) :
    sumOf p h ≤ sumOf q h + sumOf r h := by
  induction h with
  | nil => simp
  | cons e h ih =>
    obtain ⟨h1, h2⟩ := List.forall_mem_cons.mp hpos
    obtain ⟨k1, k2⟩ := List.forall_mem_cons.mp hpq
    rw [sumOf_cons, sumOf_cons, sumOf_cons, add_add_add_comm]
    refine add_le_add ?_ (ih h2 k2)
    by_cases hp : p e
    · rw [if_pos hp]
      rcases k1 hp with hq | hr
      · rw [if_pos hq]
        exact le_add_of_nonneg_right (by split_ifs <;> first | exact h1 | exact le_rfl)
      · rw [if_pos hr]
        exact le_add_of_nonneg_left (by split_ifs <;> first | exact h1 | exact le_rfl)
    · rw [if_neg hp]
      exact add_nonneg (by split_ifs <;> first | exact h1 | exact le_rfl)
        (by split_ifs <;> first | exact h1 | exact le_rfl)

end Sums

/-! ## The invariant -/

section Invariant

variable [AddCommMonoid T] [LinearOrder T] [IsOrderedCancelAddMonoid T] [AddCommMonoid M] [LinearOrder M]
  [IsOrderedCancelAddMonoid M] {L : M} {W : T} {m : Option (Meter T M)} {h : List (Charge T M)}

/-- What a meter says about the charges admitted so far. -/
structure Inv (L : M) (W : T) (m : Option (Meter T M)) (h : List (Charge T M)) : Prop where
  fresh : m = none → h = []
  spent : ∀ c, m = some c → windowSum c.start h = c.spent
  nonneg : ∀ c, m = some c → 0 ≤ c.spent
  last : ∀ c, m = some c → ∀ e ∈ h, e.window = c.start ∨ e.window + W ≤ c.start
  spaced : ∀ e ∈ h, ∀ f ∈ h, e.window = f.window ∨ e.window + W ≤ f.window ∨ f.window + W ≤ e.window
  inside : ∀ e ∈ h, e.window ≤ e.time ∧ e.time < e.window + W
  amount : ∀ e ∈ h, 0 ≤ e.amount
  limit : ∀ w, windowSum w h ≤ L

set_option linter.unusedSectionVars false

theorem inv_none (hL : 0 ≤ L) : Inv L W (none : Option (Meter T M)) [] where
  fresh := fun _ => rfl
  spent := by simp
  nonneg := by simp
  last := by simp
  spaced := by simp
  inside := by simp
  amount := by simp
  limit := fun _ => hL

/-- The window a charge falls in, seen from the history. -/
theorem openAt_facts (now : T) (hW : 0 < W) (hI : Inv L W m h) (hnow : ∀ c, m = some c → c.start ≤ now) :
    let c := openAt W now m
    c.start ≤ now ∧ now < c.start + W ∧ 0 ≤ c.spent ∧ windowSum c.start h = c.spent ∧
      ∀ e ∈ h, e.window = c.start ∨ e.window + W ≤ c.start := by
  cases m with
  | none =>
    have hnil := hI.fresh rfl
    subst hnil
    exact ⟨le_rfl, lt_add_of_pos_right now hW, le_rfl, rfl, by simp⟩
  | some c =>
    simp only [openAt]
    by_cases hover : c.start + W ≤ now
    · rw [if_pos hover]
      have hend : ∀ e ∈ h, e.window + W ≤ now := by
        intro e he
        rcases hI.last c rfl e he with heq | hle
        · rw [heq]; exact hover
        · exact hle.trans (hnow c rfl)
      have hnone : ∀ e ∈ h, ¬ e.window = now := by
        intro e he heq
        have := hend e he
        rw [heq] at this
        exact absurd this (not_le.mpr (lt_add_of_pos_right now hW))
      exact ⟨le_rfl, lt_add_of_pos_right now hW, le_rfl, sumOf_eq_zero hnone, fun e he => Or.inr (hend e he)⟩
    · rw [if_neg hover]
      exact ⟨hnow c rfl, not_le.mp hover, hI.nonneg c rfl, hI.spent c rfl, hI.last c rfl⟩

/-- **Step**: an admitted charge keeps the invariant, the history growing by that charge. -/
theorem inv_charge {now : T} (hW : 0 < W) (hI : Inv L W m h) (hnow : ∀ c, m = some c → c.start ≤ now) {amount : M}
    (hpos : 0 ≤ amount) {m' : Meter T M} (hc : charge L W now amount m = some m') :
    Inv L W (some m') (h ++ [⟨now, m'.start, amount⟩]) ∧ m'.start ≤ now := by
  obtain ⟨hle, hlt, h0, hsum, hlast⟩ := openAt_facts now hW hI hnow
  simp only [charge] at hc
  split_ifs at hc with hok
  obtain rfl := Option.some.inj hc
  refine ⟨⟨by simp, ?_, ?_, ?_, ?_, ?_, ?_, ?_⟩, hle⟩
  · intro c hc
    obtain rfl := Option.some.inj hc
    rw [windowSum_snoc, if_pos rfl, hsum]
  · intro c hc
    obtain rfl := Option.some.inj hc
    exact add_nonneg h0 hpos
  · intro c hc e he
    obtain rfl := Option.some.inj hc
    rcases List.mem_append.mp he with he | he
    · exact hlast e he
    · obtain rfl := List.mem_singleton.mp he
      exact Or.inl rfl
  · intro e he f hf
    rcases List.mem_append.mp he with he | he <;> rcases List.mem_append.mp hf with hf | hf
    · exact hI.spaced e he f hf
    · obtain rfl := List.mem_singleton.mp hf
      exact (hlast e he).imp id Or.inl
    · obtain rfl := List.mem_singleton.mp he
      exact (hlast f hf).imp Eq.symm Or.inr
    · obtain rfl := List.mem_singleton.mp he
      obtain rfl := List.mem_singleton.mp hf
      exact Or.inl rfl
  · intro e he
    rcases List.mem_append.mp he with he | he
    · exact hI.inside e he
    · obtain rfl := List.mem_singleton.mp he
      exact ⟨hle, hlt⟩
  · intro e he
    rcases List.mem_append.mp he with he | he
    · exact hI.amount e he
    · obtain rfl := List.mem_singleton.mp he
      exact hpos
  · intro w
    rw [windowSum_snoc]
    split_ifs with hw
    · subst hw
      rw [hsum]
      exact hok
    · rw [add_zero]
      exact hI.limit w

/-! ## What the invariant bounds -/

theorem Inv.windowSum_le (hI : Inv L W m h) (w : T) : windowSum w h ≤ L := hI.limit w

theorem Inv.spent_le (hI : Inv L W m h) {c : Meter T M} (hc : m = some c) : 0 ≤ c.spent ∧ c.spent ≤ L :=
  ⟨hI.nonneg c hc, (hI.spent c hc) ▸ hI.limit c.start⟩

/-- Charges with a whole window between theirs are at least `W` apart. -/
theorem Inv.far_apart (hI : Inv L W m h) {e f : Charge T M} (he : e ∈ h) (hf : f ∈ h) {w : T}
    (h1 : e.window + W ≤ w) (h2 : w + W ≤ f.window) : e.time + W < f.time := by
  have h3 : e.time < w := (hI.inside e he).2.trans_le h1
  calc e.time + W < w + W := by simpa using h3
    _ ≤ f.window := h2
    _ ≤ f.time := (hI.inside f hf).1

/-- Charges less than `W` apart lie in at most two windows. -/
theorem Inv.two_windows (hI : Inv L W m h) {near : T → Prop} (hnear : ∀ x y, near x → near y → y < x + W) :
    ∃ a b, ∀ g ∈ h, near g.time → g.window = a ∨ g.window = b := by
  by_cases h1 : ∃ e ∈ h, near e.time
  · obtain ⟨e, he, hen⟩ := h1
    by_cases h2 : ∃ f ∈ h, near f.time ∧ f.window ≠ e.window
    · obtain ⟨f, hf, hfn, hne⟩ := h2
      refine ⟨e.window, f.window, fun g hg hgn => ?_⟩
      by_contra hc
      rw [not_or] at hc
      have key : ∀ x ∈ h, ∀ y ∈ h, ∀ w, near x.time → near y.time → x.window + W ≤ w → w + W ≤ y.window →
          False := fun x hx y hy w hxn hyn k1 k2 =>
        absurd (hI.far_apart hx hy k1 k2) (not_lt.mpr (hnear _ _ hxn hyn).le)
      rcases (hI.spaced e he f hf).resolve_left (fun k => hne k.symm) with ef | ef <;>
      rcases (hI.spaced e he g hg).resolve_left (fun k => hc.1 k.symm) with eg | eg <;>
      rcases (hI.spaced f hf g hg).resolve_left (fun k => hc.2 k.symm) with fg | fg
      · exact key e he g hg f.window hen hgn ef fg
      · exact key e he f hf g.window hen hfn eg fg
      · exact key g hg f hf e.window hgn hfn eg ef
      · exact key g hg f hf e.window hgn hfn eg ef
      · exact key f hf g hg e.window hfn hgn ef eg
      · exact key f hf g hg e.window hfn hgn ef eg
      · exact key f hf e he g.window hfn hen fg eg
      · exact key g hg e he f.window hgn hen fg ef
    · refine ⟨e.window, e.window, fun g hg hgn => Or.inl ?_⟩
      by_contra hc
      exact h2 ⟨g, hg, hgn, hc⟩
  · exact ⟨0, 0, fun g hg hgn => absurd ⟨g, hg, hgn⟩ h1⟩

/-- **Boundary bound**: charges less than `W` apart add up to at most `L + L`. -/
theorem Inv.sum_near_le (hI : Inv L W m h) (near : T → Prop) [DecidablePred near]
    (hnear : ∀ x y, near x → near y → y < x + W) : sumOf (fun e => near e.time) h ≤ L + L := by
  obtain ⟨a, b, hab⟩ := hI.two_windows hnear
  exact (sumOf_le_add (q := fun e => e.window = a) (r := fun e => e.window = b) hI.amount hab).trans
    (add_le_add (hI.limit a) (hI.limit b))

/-! ## Machines with a meter -/

section Machines

open Machine

variable {σ α : Type*} {step : σ → α → σ} {meter : σ → Option (Meter T M)} {time : α → T} {out : σ → α → List (Charge T M)}

/-- A step leaves the meter alone, or charges it. -/
def Metered (L : M) (W : T) (step : σ → α → σ) (meter : σ → Option (Meter T M)) (time : α → T)
    (out : σ → α → List (Charge T M)) (s : σ) (a : α) : Prop :=
  (out s a = [] ∧ meter (step s a) = meter s) ∨
    ∃ amount m', 0 ≤ amount ∧ charge L W (time a) amount (meter s) = some m' ∧ meter (step s a) = some m' ∧
      out s a = [⟨time a, m'.start, amount⟩]

theorem inv_metered_step (hW : 0 < W) {s : σ} {a : α} (hI : Inv L W (meter s) h)
    (hnow : ∀ m, meter s = some m → m.start ≤ time a) (hs : Metered L W step meter time out s a) :
    Inv L W (meter (step s a)) (h ++ out s a) ∧ ∀ m, meter (step s a) = some m → m.start ≤ time a := by
  rcases hs with ⟨hout, hmeter⟩ | ⟨amount, m', hpos, hcharge, hmeter, hout⟩
  · rw [hout, hmeter, List.append_nil]
    exact ⟨hI, hnow⟩
  · obtain ⟨hinv, hle⟩ := inv_charge hW hI hnow hpos hcharge
    rw [hout, hmeter]
    refine ⟨hinv, fun m hm => ?_⟩
    obtain rfl := Option.some.inj hm
    exact hle

/-- **Run rule for meters**: where the clock does not run back. -/
theorem inv_metered {P : σ → Prop} {G : σ → α → Prop} (hW : 0 < W)
    (hstep : ∀ s a, P s → G s a → P (step s a) ∧ Metered L W step meter time out s a) {s : σ} {l : List α} (hP : P s)
    (hI : Inv L W (meter s) h) (hnow : ∀ a ∈ l, ∀ m, meter s = some m → m.start ≤ time a)
    (hclock : l.Pairwise fun a b => time a ≤ time b) (hG : Along step G s l) :
    Inv L W (meter (run step s l)) (h ++ logOf step out s l) := by
  induction l generalizing s h with
  | nil => simpa [logOf] using hI
  | cons a l ih =>
    obtain ⟨hfirst, hrest⟩ := List.pairwise_cons.mp hclock
    obtain ⟨hP', hmetered⟩ := hstep s a hP hG.1
    obtain ⟨hI', hnow'⟩ := inv_metered_step hW hI (hnow a List.mem_cons_self) hmetered
    have hrun := ih hP' hI' (fun b hb m hm => (hnow' m hm).trans (hfirst b hb)) hrest hG.2
    simpa [logOf, List.append_assoc] using hrun

end Machines

end Invariant

end Vellar.Tumbling
