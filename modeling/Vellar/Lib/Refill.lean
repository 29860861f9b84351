import Vellar.Lib.SlidingWindow

/-!
# Vellar.Lib.Refill — a level that is refilled at a rate and spent from

A bucket has a level, at most its capacity, that grows at a rate and is spent from.  What was spent since any time `x` and
what is left is together at most the capacity and what the rate adds from `x` on (`Bounded.since`); this
potential bounds what is spent in any window (`Bounded.window`).
-/

set_option autoImplicit false

namespace Vellar.Refill

open SlidingWindow (total total_append total_singleton total_mono)

variable {K : Type*}

structure Bucket (K : Type*) where
  level : K
  time : K

/-- A payment out of a bucket. -/
structure Payment (K : Type*) where
  time : K
  cost : K

section Operations

variable [Field K] [LinearOrder K]

def full (capacity now : K) : Bucket K := ⟨capacity, now⟩

def refill (capacity rate now : K) (b : Bucket K) : Bucket K :=
  ⟨min capacity (b.level + (now - b.time) * rate), now⟩

def spend (cost : K) (b : Bucket K) : Bucket K := { b with level := b.level - cost }

/-- What was paid from `x` to `y`. -/
def paid (x y : K) (es : List (Payment K)) : K := total Payment.cost (fun e => x ≤ e.time ∧ e.time ≤ y) es

/-- What was paid from `x` on. -/
def paidSince (x : K) (es : List (Payment K)) : K := total Payment.cost (fun e => x ≤ e.time) es

/-- The payments that have been made out of a bucket of this capacity, and what is left in it. -/
structure Bounded (capacity rate : K) (b : Bucket K) (es : List (Payment K)) : Prop where
  level_nonneg : 0 ≤ b.level
  level_le : b.level ≤ capacity
  cost_nonneg : ∀ e ∈ es, 0 ≤ e.cost
  past : ∀ e ∈ es, e.time ≤ b.time
  since : ∀ x ≤ b.time, paidSince x es + b.level ≤ capacity + (b.time - x) * rate
  window : ∀ x y, x ≤ y → paid x y es ≤ capacity + (y - x) * rate

end Operations

section Rules

variable [Field K] [LinearOrder K] {capacity rate : K} {b : Bucket K} {es : List (Payment K)}

theorem paidSince_of_past {x : K} (h : ∀ e ∈ es, e.time < x) : paidSince x es = 0 := by
  have hnone : es.filter (fun e => decide (x ≤ e.time)) = [] :=
    List.filter_eq_nil_iff.mpr fun e he => by simpa using h e he
  rw [paidSince, total, hnone]
  rfl

variable [IsStrictOrderedRing K]

theorem bounded_full (hcapacity : 0 ≤ capacity) (hrate : 0 ≤ rate) (now : K) :
    Bounded capacity rate (full capacity now) [] where
  level_nonneg := hcapacity
  level_le := le_rfl
  cost_nonneg := by simp
  past := by simp
  since x hx := by
    have hgrown : 0 ≤ (now - x) * rate := mul_nonneg (sub_nonneg.mpr hx) hrate
    show 0 + capacity ≤ capacity + (now - x) * rate
    linarith
  window x y hxy := add_nonneg hcapacity (mul_nonneg (sub_nonneg.mpr hxy) hrate)

/-- **Refill**: the level grows by no more than the rate allows, and not above the capacity. -/
theorem Bounded.refill (h : Bounded capacity rate b es) (hrate : 0 ≤ rate) {now : K} (hnow : b.time ≤ now) :
    Bounded capacity rate (refill capacity rate now b) es where
  level_nonneg := by
    have hgrown : 0 ≤ (now - b.time) * rate := mul_nonneg (sub_nonneg.mpr hnow) hrate
    exact le_min (h.level_nonneg.trans h.level_le) (add_nonneg h.level_nonneg hgrown)
  level_le := min_le_left _ _
  cost_nonneg := h.cost_nonneg
  past e he := (h.past e he).trans hnow
  since x hx := by
    show paidSince x es + min capacity (b.level + (now - b.time) * rate) ≤ capacity + (now - x) * rate
    rcases le_or_gt x b.time with hold | hnew
    · have hbefore := h.since x hold
      calc paidSince x es + min capacity (b.level + (now - b.time) * rate)
          ≤ paidSince x es + (b.level + (now - b.time) * rate) := by
            gcongr
            exact min_le_right _ _
        _ ≤ capacity + (b.time - x) * rate + (now - b.time) * rate := by linarith
        _ = capacity + (now - x) * rate := by ring
    · -- nothing was paid since `x`
      rw [paidSince_of_past fun e he => (h.past e he).trans_lt hnew, zero_add]
      have hgrown : 0 ≤ (now - x) * rate := mul_nonneg (sub_nonneg.mpr hx) hrate
      exact (min_le_left _ _).trans (le_add_of_nonneg_right hgrown)
  window := h.window

/-- **Spend**: what leaves the bucket is paid. -/
theorem Bounded.spend (h : Bounded capacity rate b es) (hrate : 0 ≤ rate) {cost : K} (hcost : 0 ≤ cost)
    (henough : cost ≤ b.level) : Bounded capacity rate (spend cost b) (es ++ [⟨b.time, cost⟩]) where
  level_nonneg := sub_nonneg.mpr henough
  level_le := (sub_le_self _ hcost).trans h.level_le
  cost_nonneg e he := by
    rcases List.mem_append.mp he with he | he
    · exact h.cost_nonneg e he
    · rw [List.mem_singleton.mp he]
      exact hcost
  past e he := by
    rcases List.mem_append.mp he with he | he
    · exact h.past e he
    · rw [List.mem_singleton.mp he]
      exact le_rfl
  since x hx := by
    have hbefore := h.since x hx
    have hpaid : paidSince x (es ++ [⟨b.time, cost⟩]) = paidSince x es + cost := by
      rw [paidSince, total_append, total_singleton]
      exact congrArg _ (if_pos hx)
    rw [hpaid]
    show paidSince x es + cost + (b.level - cost) ≤ capacity + (b.time - x) * rate
    linarith
  window x y hxy := by
    rw [paid, total_append, total_singleton]
    by_cases hin : x ≤ b.time ∧ b.time ≤ y
    · have hbefore := h.since x hin.1
      have hpart : total Payment.cost (fun e => x ≤ e.time ∧ e.time ≤ y) es ≤ paidSince x es :=
        total_mono h.cost_nonneg fun e _ he => he.1
      have hgrown : (b.time - x) * rate ≤ (y - x) * rate :=
        mul_le_mul_of_nonneg_right (sub_le_sub_right hin.2 x) hrate
      rw [if_pos hin]
      linarith
    · rw [if_neg hin, add_zero]
      exact h.window x y hxy

end Rules

end Vellar.Refill
