import Mathlib

/-!
# Vellar.Lib.SlidingWindow — a ceiling on every window of a ledger kept out of order

Entries are recorded one at a time, each with a time of its own choosing.  An entry is admitted when what is
already recorded after its window start, and the entry itself, stay under the ceiling.  The times need not grow:
what bounds a window is the entry of it that was recorded last, since that one counted all the others
(`Metered.window_le`).
-/

set_option autoImplicit false

namespace Vellar.SlidingWindow

variable {ε T M : Type*}

section Total

variable [AddCommMonoid M] (amount : ε → M) (p : ε → Prop) [DecidablePred p]

/-- The total of the entries with `p`. -/
def total (es : List ε) : M := ((es.filter (p ·)).map amount).sum

@[simp] theorem total_nil : total amount p [] = 0 := rfl

theorem total_append (es es' : List ε) : total amount p (es ++ es') = total amount p es + total amount p es' := by
  unfold total
  rw [List.filter_append, List.map_append, List.sum_append]

theorem total_singleton (e : ε) : total amount p [e] = if p e then amount e else 0 := by
  unfold total
  by_cases h : p e
  · simp [h]
  · simp [h]

/-- Entries with the same times and amounts have the same total. -/
theorem total_map {δ : Type*} (f : δ → ε) (ds : List δ) :
    total amount p (ds.map f) = total (fun d => amount (f d)) (fun d => p (f d)) ds := by
  unfold total
  rw [List.filter_map, List.map_map]
  rfl

theorem total_filter (q : ε → Prop) [DecidablePred q] (es : List ε) :
    total amount p (es.filter (q ·)) = total amount (fun e => q e ∧ p e) es := by
  unfold total
  rw [List.filter_filter]
  congr 2
  refine List.filter_congr fun e _ => ?_
  simp [and_comm]

variable {amount p} [PartialOrder M] [IsOrderedAddMonoid M]

theorem total_nonneg {es : List ε} (h : ∀ e ∈ es, 0 ≤ amount e) : 0 ≤ total amount p es := by
  refine List.sum_nonneg fun x hx => ?_
  obtain ⟨e, he, rfl⟩ := List.mem_map.mp hx
  exact h e (List.mem_filter.mp he).1

/-- More entries count when `p` is weaker. -/
theorem total_mono {q : ε → Prop} [DecidablePred q] {es : List ε} (h : ∀ e ∈ es, 0 ≤ amount e)
    (hpq : ∀ e ∈ es, p e → q e) : total amount p es ≤ total amount q es := by
  induction es with
  | nil => exact le_rfl
  | cons e es ih =>
    have hrest := ih (fun e' he' => h e' (List.mem_cons_of_mem _ he')) fun e' he' =>
      hpq e' (List.mem_cons_of_mem _ he')
    rw [← List.singleton_append, total_append, total_append, total_singleton, total_singleton]
    refine add_le_add ?_ hrest
    by_cases hp : p e
    · rw [if_pos hp, if_pos (hpq e List.mem_cons_self hp)]
    · rw [if_neg hp]
      by_cases hq : q e
      · rw [if_pos hq]
        exact h e List.mem_cons_self
      · rw [if_neg hq]

end Total

section Metered

variable [LinearOrder T] [AddCommMonoid M] [PartialOrder M]

/-- Every entry was admitted against the entries recorded before it, on top of what `base` counts after its
window start. -/
def Metered (time start : ε → T) (amount : ε → M) (ceiling : M) (base : T → M) (es : List ε) : Prop :=
  ∀ pre e post, es = pre ++ e :: post →
    base (start e) + total amount (fun e' => start e < time e') pre + amount e ≤ ceiling

variable {time start : ε → T} {amount : ε → M} {ceiling : M} {base : T → M} {es : List ε}

theorem metered_nil : Metered time start amount ceiling base [] := by
  intro pre e post h
  simp at h

/-- **Step**: one more admitted entry. -/
theorem Metered.snoc (h : Metered time start amount ceiling base es) {e : ε}
    (he : base (start e) + total amount (fun e' => start e < time e') es + amount e ≤ ceiling) :
    Metered time start amount ceiling base (es ++ [e]) := by
  intro pre e' post heq
  rcases List.eq_nil_or_concat post with rfl | ⟨post', last, rfl⟩
  · obtain ⟨rfl, hlast⟩ := List.append_inj' heq rfl
    obtain rfl := List.singleton_injective hlast
    exact he
  · have hcut : es ++ [e] = (pre ++ e' :: post') ++ [last] := by simpa using heq
    obtain ⟨rfl, -⟩ := List.append_inj' hcut rfl
    exact h pre e' post' rfl

variable [IsOrderedAddMonoid M]

/-- **The bound**: a window `(x, y]` holds at most the ceiling, if every entry of time at most `y` starts its
window at or before `x`. -/
theorem Metered.window_le (h : Metered time start amount ceiling base es) (hceiling : 0 ≤ ceiling)
    (hbase : ∀ t, 0 ≤ base t) (hamount : ∀ e ∈ es, 0 ≤ amount e) {x y : T}
    (hstart : ∀ e ∈ es, time e ≤ y → start e ≤ x) :
    total amount (fun e => x < time e ∧ time e ≤ y) es ≤ ceiling := by
  induction es using List.reverseRecOn with
  | nil => exact hceiling
  | append_singleton es e ih =>
    have hpos : ∀ e' ∈ es, 0 ≤ amount e' := fun e' he' => hamount e' (List.mem_append_left _ he')
    rw [total_append, total_singleton]
    by_cases hin : x < time e ∧ time e ≤ y
    · -- The last entry of the window counted every other one.
      have hlast : start e ≤ x := hstart e (by simp) hin.2
      have hcounted : total amount (fun e' => x < time e' ∧ time e' ≤ y) es ≤
          total amount (fun e' => start e < time e') es :=
        total_mono hpos fun e' _ hp => hlast.trans_lt hp.1
      have hadmitted := h es e [] rfl
      rw [if_pos hin]
      calc total amount (fun e' => x < time e' ∧ time e' ≤ y) es + amount e
          ≤ total amount (fun e' => start e < time e') es + amount e := by gcongr
        _ ≤ base (start e) + total amount (fun e' => start e < time e') es + amount e := by
            gcongr
            exact le_add_of_nonneg_left (hbase _)
        _ ≤ ceiling := hadmitted
    · rw [if_neg hin, add_zero]
      refine ih (fun pre e' post heq => ?_) hpos fun e' he' => hstart e' (List.mem_append_left _ he')
      exact h pre e' (post ++ [e]) (by rw [heq]; simp)

end Metered

end Vellar.SlidingWindow
