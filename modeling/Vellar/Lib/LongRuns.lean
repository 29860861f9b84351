import Mathlib

/-!
# Vellar.Lib.LongRuns — the long runs of a list

The runs of at least `k` elements that satisfy `p`, and the list with each of them replaced by a mark.  A run is taken
as long as it goes, from the left.  No result here is about what the elements are.
-/

set_option autoImplicit false

namespace Vellar.LongRuns

variable {α : Type*} (p : α → Bool) (k : ℕ)

/-- Somewhere `k` elements in a row satisfy `p`. -/
def hasRun : List α → Bool
  | [] => false
  | a :: l => decide (k ≤ ((a :: l).takeWhile p).length) || hasRun l

def replaceFrom (mark : List α) : ℕ → List α → List α
  | 0, l => l
  | _, [] => []
  | n + 1, a :: l =>
    if k ≤ ((a :: l).takeWhile p).length then mark ++ replaceFrom mark n ((a :: l).dropWhile p)
    else a :: replaceFrom mark n l

/-- The list with the mark in place of each long run. -/
def replaceRuns (mark l : List α) : List α := replaceFrom p k mark l.length l

variable {p k}

theorem hasRun_cons {a : α} {l : List α} :
    hasRun p k (a :: l) = false ↔ ((a :: l).takeWhile p).length < k ∧ hasRun p k l = false := by
  rw [hasRun, Bool.or_eq_false_iff, decide_eq_false_iff_not, not_le]

theorem hasRun_of_length {l : List α} (h : l.length < k) : hasRun p k l = false := by
  induction l with
  | nil => rfl
  | cons a l ih =>
    have hrun := (List.takeWhile_prefix p (l := a :: l)).length_le
    have hl : l.length < k := (Nat.lt_succ_self _).trans h
    exact hasRun_cons.mpr ⟨hrun.trans_lt h, ih hl⟩

/-- No run goes past an element that does not satisfy `p`. -/
theorem hasRun_stop (hk : 0 < k) {a : α} (ha : p a = false) (l m : List α) :
    hasRun p k (l ++ a :: m) = (hasRun p k l || hasRun p k m) := by
  have hstop : ∀ l : List α, (l ++ a :: m).takeWhile p = l.takeWhile p := by
    intro l
    rw [List.takeWhile_append, List.takeWhile_cons_of_neg (by rw [ha]; exact Bool.false_ne_true), List.append_nil]
    split_ifs with h
    · exact ((List.takeWhile_prefix p).eq_of_length h).symm
    · rfl
  induction l with
  | nil =>
    have hnil : ((a :: m).takeWhile p).length = 0 := congrArg List.length (hstop [])
    show (decide (k ≤ ((a :: m).takeWhile p).length) || hasRun p k m) = (false || hasRun p k m)
    rw [hnil, decide_eq_false (not_le.mpr hk)]
  | cons b l ih =>
    rw [List.cons_append, hasRun, hasRun, ← List.cons_append, hstop, ih, Bool.or_assoc]

/-! ## Replacing -/

section Replace

variable {mark : List α}

/-- A short run at the front stays as it is. -/
theorem takeWhile_replaceFrom {n : ℕ} {l : List α} (h : (l.takeWhile p).length < k) :
    (replaceFrom p k mark n l).takeWhile p = l.takeWhile p := by
  induction n generalizing l with
  | zero => rfl
  | succ n ih =>
    cases l with
    | nil => rfl
    | cons a l =>
      rw [replaceFrom, if_neg (not_le.mpr h)]
      by_cases ha : p a = true
      · rw [List.takeWhile_cons_of_pos ha, List.length_cons] at h
        rw [List.takeWhile_cons_of_pos ha, List.takeWhile_cons_of_pos ha, ih (by omega)]
      · rw [List.takeWhile_cons_of_neg ha, List.takeWhile_cons_of_neg ha]

theorem replaceFrom_of_not_hasRun {n : ℕ} {l : List α} (h : hasRun p k l = false) : replaceFrom p k mark n l = l := by
  induction n generalizing l with
  | zero => rfl
  | succ n ih =>
    cases l with
    | nil => rfl
    | cons a l =>
      obtain ⟨hshort, hl⟩ := hasRun_cons.mp h
      rw [replaceFrom, if_neg (not_le.mpr hshort), ih hl]

theorem replaceRuns_of_not_hasRun {l : List α} (h : hasRun p k l = false) : replaceRuns p k mark l = l :=
  replaceFrom_of_not_hasRun h

theorem hasRun_replaceFrom {init : List α} {stop : α} (hk : 0 < k) (hstop : p stop = false)
    (hinit : hasRun p k init = false) {n : ℕ} {l : List α} (hn : l.length ≤ n) :
    hasRun p k (replaceFrom p k (init ++ [stop]) n l) = false := by
  induction n generalizing l with
  | zero =>
    obtain rfl := List.length_eq_zero_iff.mp (Nat.le_zero.mp hn)
    rfl
  | succ n ih =>
    cases l with
    | nil => rfl
    | cons a l =>
      rw [List.length_cons] at hn
      by_cases hrun : k ≤ ((a :: l).takeWhile p).length
      · rw [replaceFrom, if_pos hrun, List.append_assoc, List.singleton_append, hasRun_stop hk hstop, hinit]
        -- the run is not empty, so less than the whole list is left
        have hsplit : (a :: l).length = ((a :: l).takeWhile p).length + ((a :: l).dropWhile p).length := by
          rw [← List.length_append, List.takeWhile_append_dropWhile]
        rw [List.length_cons] at hsplit
        exact ih (by omega)
      · have hfront : (replaceFrom p k (init ++ [stop]) (n + 1) (a :: l)).takeWhile p = (a :: l).takeWhile p :=
          takeWhile_replaceFrom (not_le.mp hrun)
        rw [replaceFrom, if_neg hrun] at hfront ⊢
        rw [hasRun_cons, hfront]
        exact ⟨not_le.mp hrun, ih (by omega)⟩

/-- A mark without a long run that ends outside any run leaves none. -/
theorem hasRun_replaceRuns {init : List α} {stop : α} (hk : 0 < k) (hstop : p stop = false)
    (hinit : hasRun p k init = false) (l : List α) : hasRun p k (replaceRuns p k (init ++ [stop]) l) = false :=
  hasRun_replaceFrom hk hstop hinit le_rfl

end Replace

end Vellar.LongRuns
