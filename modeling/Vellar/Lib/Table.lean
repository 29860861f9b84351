import Mathlib

/-!
# Vellar.Lib.Table — rows with a unique key

A `Table key` is a list of rows, no key twice, in insertion order: a JavaScript `Map` iterated over its
values, or a database table with a primary key.  `find` reads a row by its key, `put` replaces a row in
place or appends it, `modify` rewrites every row without touching its key, `removeWhere` deletes rows and `insertNew`
inserts the rows whose key is free.  The `find` lemmas are the interface; `find_of_mem` and `mem_of_find` go from
the rows to `find` and back.  `Agree R` relates two tables key by key.
-/

set_option autoImplicit false

namespace Vellar

variable {κ ρ : Type*}

/-- Rows in insertion order, no key twice. -/
structure Table (key : ρ → κ) where
  rows : List ρ
  nodup : (rows.map key).Nodup

namespace Table

variable {key : ρ → κ}

theorem ext_rows {t t' : Table key} (h : t.rows = t'.rows) : t = t' := by
  cases t
  cases t'
  cases h
  rfl

def empty : Table key := ⟨[], List.nodup_nil⟩

/-- Rewrite every row; `f` keeps the keys. -/
def modify (t : Table key) (f : ρ → ρ) (hf : ∀ r, key (f r) = key r) : Table key :=
  ⟨t.rows.map f, by
    have hkeys : (t.rows.map f).map key = t.rows.map key := by
      rw [List.map_map]
      exact List.map_congr_left fun r _ => hf r
    rw [hkeys]
    exact t.nodup⟩

/-- Rewrite the rows that satisfy `p`. -/
def updateWhere (t : Table key) (p : ρ → Bool) (f : ρ → ρ) (hf : ∀ r, key (f r) = key r) : Table key :=
  t.modify (fun r => if p r then f r else r) fun r => by split_ifs <;> simp [hf]

variable [DecidableEq κ]

/-- The row with key `k`. -/
def find (t : Table key) (k : κ) : Option ρ := t.rows.find? fun r => key r = k

/-- Replace the row with that key in place, or append the row. -/
def put (t : Table key) (r : ρ) : Table key :=
  if h : key r ∈ t.rows.map key then
    ⟨t.rows.map fun r' => if key r' = key r then r else r', by
      have hkeys : (t.rows.map fun r' => if key r' = key r then r else r').map key = t.rows.map key := by
        rw [List.map_map]
        refine List.map_congr_left fun r' _ => ?_
        by_cases hr : key r' = key r <;> simp [hr]
      rw [hkeys]
      exact t.nodup⟩
  else
    ⟨t.rows ++ [r], by
      rw [List.map_append, List.map_singleton]
      exact List.nodup_append.mpr ⟨t.nodup, List.nodup_singleton _, by
        intro a ha b hb hab
        rw [List.mem_singleton.mp hb] at hab
        exact h (hab ▸ ha)⟩⟩

/-! ## Reading a row -/

variable {t : Table key} {k : κ} {r : ρ}

theorem mem_of_find (h : t.find k = some r) : r ∈ t.rows ∧ key r = k :=
  ⟨List.mem_of_find?_eq_some h, by simpa using List.find?_some h⟩

theorem find_of_mem (h : r ∈ t.rows) : t.find (key r) = some r := by
  obtain ⟨rows, nodup⟩ := t
  unfold find
  simp only at h ⊢
  induction rows with
  | nil => simp at h
  | cons a rows ih =>
    obtain ⟨hnot, hnodup⟩ := List.nodup_cons.mp (List.map_cons ▸ nodup)
    rcases List.mem_cons.mp h with rfl | hmem
    · simp
    · have hne : key a ≠ key r := fun heq => hnot (heq ▸ List.mem_map_of_mem hmem)
      rw [List.find?_cons_of_neg (by simpa using hne)]
      exact ih hnodup hmem

theorem find_eq_none : t.find k = none ↔ ∀ r ∈ t.rows, key r ≠ k := by
  unfold find
  simp [List.find?_eq_none]

@[simp] theorem find_empty : (empty : Table key).find k = none := rfl

theorem find_modify {f : ρ → ρ} {hf : ∀ r, key (f r) = key r} : (t.modify f hf).find k = (t.find k).map f := by
  unfold find modify
  rw [List.find?_map]
  refine congrArg (Option.map f) ?_
  congr 1
  funext r
  simp [hf]

theorem find_updateWhere {p : ρ → Bool} {f : ρ → ρ} {hf : ∀ r, key (f r) = key r} :
    (t.updateWhere p f hf).find k = (t.find k).map fun r => if p r then f r else r := find_modify

theorem find_put : (t.put r).find k = if key r = k then some r else t.find k := by
  by_cases hk : key r = k
  · rw [if_pos hk]
    subst hk
    refine find_of_mem ?_
    unfold put
    split_ifs with h
    · obtain ⟨r', hr', hkey⟩ := List.mem_map.mp h
      exact List.mem_map.mpr ⟨r', hr', if_pos hkey⟩
    · simp
  · rw [if_neg hk]
    unfold put
    split_ifs with h
    · unfold find
      rw [List.find?_map]
      induction t.rows with
      | nil => rfl
      | cons a rows ih =>
        by_cases ha : key a = key r
        · have hak : key a ≠ k := fun h' => hk (ha ▸ h')
          rw [List.find?_cons_of_neg (by simpa [ha] using hk), List.find?_cons_of_neg (by simpa using hak), ih]
        · by_cases hak : key a = k
          · rw [List.find?_cons_of_pos (by simpa [ha] using hak), List.find?_cons_of_pos (by simpa using hak)]
            simp [ha]
          · rw [List.find?_cons_of_neg (by simpa [ha] using hak), List.find?_cons_of_neg (by simpa using hak), ih]
    · unfold find
      rw [List.find?_append]
      simp [hk]

theorem rows_put_new (h : t.find (key r) = none) : (t.put r).rows = t.rows ++ [r] := by
  have hnot : key r ∉ t.rows.map key := by
    intro hmem
    obtain ⟨r', hr', hkey⟩ := List.mem_map.mp hmem
    exact find_eq_none.mp h r' hr' hkey
  unfold put
  rw [dif_neg hnot]

theorem mem_put {r' : ρ} (h : r' ∈ (t.put r).rows) : r' ∈ t.rows ∨ r' = r := by
  unfold put at h
  split at h
  · obtain ⟨r₀, hr₀, rfl⟩ := List.mem_map.mp h
    by_cases hkey : key r₀ = key r
    · rw [if_pos hkey]
      exact .inr rfl
    · rw [if_neg hkey]
      exact .inl hr₀
  · exact (List.mem_append.mp h).imp_right List.mem_singleton.mp

/-! ## Deleting, and inserting where no row is -/

/-- `DELETE … WHERE p`. -/
def removeWhere (t : Table key) (p : ρ → Bool) : Table key :=
  ⟨t.rows.filter fun r => !p r, t.nodup.sublist (List.filter_sublist.map _)⟩

omit [DecidableEq κ] in
theorem mem_removeWhere {p : ρ → Bool} : r ∈ (t.removeWhere p).rows ↔ r ∈ t.rows ∧ p r = false := by
  unfold removeWhere
  rw [List.mem_filter, Bool.not_eq_true']

/-- Deleting the first row by its key leaves the rows after it. -/
theorem rows_removeWhere_head {rows : List ρ} (h : t.rows = r :: rows) :
    (t.removeWhere fun r' => key r' = key r).rows = rows := by
  have hnodup : ((r :: rows).map key).Nodup := h ▸ t.nodup
  have hhead := (List.nodup_cons.mp hnodup).1
  show t.rows.filter _ = rows
  rw [h, List.filter_cons_of_neg (by simp), List.filter_eq_self]
  intro r' hr'
  have hne : key r' ≠ key r := fun heq => hhead (heq ▸ List.mem_map_of_mem hr')
  simp [hne]

theorem find_removeWhere {p : ρ → Bool} : (t.removeWhere p).find k = (t.find k).filter fun r => !p r := by
  cases hfind : t.find k with
  | none =>
    rw [Option.filter_none, find_eq_none]
    exact fun r hr => find_eq_none.mp hfind r (mem_removeWhere.mp hr).1
  | some r =>
    obtain ⟨hr, rfl⟩ := mem_of_find hfind
    cases hp : p r with
    | true =>
      rw [Option.filter_some_neg (by simp [hp]), find_eq_none]
      intro r' hr' hkey
      obtain ⟨hmem, hp'⟩ := mem_removeWhere.mp hr'
      have hsame := (find_of_mem hmem).symm.trans (hkey ▸ hfind)
      rw [Option.some.inj hsame, hp] at hp'
      cases hp'
    | false =>
      rw [Option.filter_some_pos (by simp [hp])]
      exact find_of_mem (mem_removeWhere.mpr ⟨hr, hp⟩)

/-- `INSERT … VALUES … ON CONFLICT DO NOTHING`, and how many rows it inserted. -/
def insertNew (t : Table key) : List ρ → Table key × ℕ
  | [] => (t, 0)
  | r :: rs =>
    match t.find (key r) with
    | some _ => insertNew t rs
    | none => ((insertNew (t.put r) rs).1, (insertNew (t.put r) rs).2 + 1)

theorem insertNew_le (t : Table key) (rs : List ρ) : (t.insertNew rs).2 ≤ rs.length := by
  induction rs generalizing t with
  | nil => exact le_refl 0
  | cons r rs ih =>
    cases hfind : t.find (key r) with
    | some r' =>
      simp only [insertNew, hfind]
      exact (ih t).trans (Nat.le_succ _)
    | none =>
      simp only [insertNew, hfind]
      exact Nat.succ_le_succ (ih (t.put r))

/-- A row is there afterwards if it was, or else the first inserted under its key. -/
theorem find_insertNew (t : Table key) (rs : List ρ) :
    (t.insertNew rs).1.find k = (t.find k).or (rs.find? fun r => key r = k) := by
  induction rs generalizing t with
  | nil => exact Option.or_none.symm
  | cons r rs ih =>
    cases hfind : t.find (key r) with
    | some r' =>
      simp only [insertNew, hfind, ih]
      by_cases hk : key r = k
      · rw [← hk, hfind, Option.some_or, Option.some_or]
      · rw [List.find?_cons_of_neg (by simpa using hk)]
    | none =>
      simp only [insertNew, hfind, ih, find_put]
      by_cases hk : key r = k
      · rw [if_pos hk, List.find?_cons_of_pos (by simpa using hk), ← hk, hfind, Option.some_or, Option.none_or]
      · rw [if_neg hk, List.find?_cons_of_neg (by simpa using hk)]

/-- Where all rows were inserted, none was there. -/
theorem fresh_of_insertNew {t : Table key} {rs : List ρ} (h : (t.insertNew rs).2 = rs.length) :
    ∀ r ∈ rs, t.find (key r) = none := by
  induction rs generalizing t with
  | nil => exact fun r hr => by cases hr
  | cons r rs ih =>
    cases hfind : t.find (key r) with
    | some r' =>
      simp only [insertNew, hfind, List.length_cons] at h
      have hle := insertNew_le t rs
      omega
    | none =>
      simp only [insertNew, hfind, List.length_cons] at h
      intro r' hr'
      rcases List.mem_cons.mp hr' with rfl | hr'
      · exact hfind
      · have hput := ih (Nat.succ.inj h) r' hr'
        rw [find_put] at hput
        split at hput
        · cases hput
        · exact hput

/-- Rows under new keys are all inserted, behind the others. -/
theorem insertNew_of_fresh {t : Table key} {rs : List ρ} (hnodup : (rs.map key).Nodup)
    (hfresh : ∀ r ∈ rs, t.find (key r) = none) :
    (t.insertNew rs).1.rows = t.rows ++ rs ∧ (t.insertNew rs).2 = rs.length := by
  induction rs generalizing t with
  | nil => exact ⟨(List.append_nil _).symm, rfl⟩
  | cons r rs ih =>
    obtain ⟨hnot, hrest⟩ := List.nodup_cons.mp (List.map_cons ▸ hnodup)
    have hr : t.find (key r) = none := hfresh r List.mem_cons_self
    have hput : ∀ r' ∈ rs, (t.put r).find (key r') = none := by
      intro r' hr'
      have hne : key r ≠ key r' := fun heq => hnot (heq ▸ List.mem_map_of_mem hr')
      rw [find_put, if_neg hne]
      exact hfresh r' (List.mem_cons_of_mem _ hr')
    obtain ⟨hrows, hcount⟩ := ih hrest hput
    simp only [insertNew, hr]
    rw [hrows, hcount, rows_put_new hr, List.append_assoc]
    exact ⟨rfl, rfl⟩

/-! ## Two tables with the same keys -/

section Agree

variable {ρ' : Type*} {key' : ρ' → κ} {t' : Table key'} {R : ρ → ρ' → Prop}

/-- The two tables have rows under the same keys, and rows under one key are related. -/
def Agree (R : ρ → ρ' → Prop) (t : Table key) (t' : Table key') : Prop :=
  ∀ k, Option.Rel R (t.find k) (t'.find k)

theorem agree_empty : Agree R (empty : Table key) (empty : Table key') := fun _ => Option.Rel.none

theorem Agree.left (h : Agree R t t') (hr : t.find k = some r) : ∃ r', t'.find k = some r' ∧ R r r' := by
  have hk := h k
  rw [hr] at hk
  cases hfind : t'.find k with
  | none =>
    rw [hfind] at hk
    cases hk
  | some r' =>
    rw [hfind] at hk
    cases hk with
    | some hR => exact ⟨r', rfl, hR⟩

theorem Agree.right {r' : ρ'} (h : Agree R t t') (hr : t'.find k = some r') : ∃ r, t.find k = some r ∧ R r r' := by
  have hk := h k
  rw [hr] at hk
  cases hfind : t.find k with
  | none =>
    rw [hfind] at hk
    cases hk
  | some r =>
    rw [hfind] at hk
    cases hk with
    | some hR => exact ⟨r, rfl, hR⟩

/-- Rewriting the rows of both tables alike. -/
theorem Agree.map {u : Table key} {u' : Table key'} {f : ρ → ρ} {g : ρ' → ρ'} (h : Agree R t t')
    (hu : ∀ k, u.find k = (t.find k).map f) (hu' : ∀ k, u'.find k = (t'.find k).map g)
    (hR : ∀ r r', t.find (key r) = some r → t'.find (key r) = some r' → R r r' → R (f r) (g r')) :
    Agree R u u' := by
  intro k
  rw [hu, hu']
  cases hfind : t.find k with
  | none =>
    have hk := h k
    rw [hfind] at hk
    cases hfind' : t'.find k with
    | none => exact Option.Rel.none
    | some r' =>
      rw [hfind'] at hk
      cases hk
  | some r =>
    obtain ⟨r', hr', hrel⟩ := h.left hfind
    obtain ⟨-, rfl⟩ := mem_of_find hfind
    rw [hr']
    exact Option.Rel.some (hR r r' hfind hr' hrel)

theorem Agree.put {r' : ρ'} (h : Agree R t t') (hkey : key r = key' r') (hR : R r r') :
    Agree R (t.put r) (t'.put r') := by
  intro k
  rw [find_put, find_put, hkey]
  split_ifs
  · exact Option.Rel.some hR
  · exact h k

/-- The keys of the rows that satisfy matching predicates. -/
theorem Agree.keys_perm {p : ρ → Bool} {q : ρ' → Bool} (h : Agree R t t') (hpq : ∀ r r', R r r' → p r = q r') :
    ((t.rows.filter p).map key).Perm ((t'.rows.filter q).map key') := by
  rw [List.perm_ext_iff_of_nodup (t.nodup.sublist (List.filter_sublist.map key))
    (t'.nodup.sublist (List.filter_sublist.map key'))]
  intro k
  refine ⟨fun hk => ?_, fun hk => ?_⟩
  · obtain ⟨r, hr, rfl⟩ := List.mem_map.mp hk
    obtain ⟨hmem, hp⟩ := List.mem_filter.mp hr
    obtain ⟨r', hr', hrel⟩ := h.left (find_of_mem hmem)
    obtain ⟨hmem', hkey⟩ := mem_of_find hr'
    exact List.mem_map.mpr ⟨r', List.mem_filter.mpr ⟨hmem', by rw [← hpq r r' hrel]; exact hp⟩, hkey⟩
  · obtain ⟨r', hr', rfl⟩ := List.mem_map.mp hk
    obtain ⟨hmem', hq⟩ := List.mem_filter.mp hr'
    obtain ⟨r, hr, hrel⟩ := h.right (find_of_mem hmem')
    obtain ⟨hmem, hkey⟩ := mem_of_find hr
    exact List.mem_map.mpr ⟨r, List.mem_filter.mpr ⟨hmem, by rw [hpq r r' hrel]; exact hq⟩, hkey⟩

theorem Agree.countP {p : ρ → Bool} {q : ρ' → Bool} (h : Agree R t t') (hpq : ∀ r r', R r r' → p r = q r') :
    t.rows.countP p = t'.rows.countP q := by
  have hlen := (h.keys_perm hpq).length_eq
  rwa [List.length_map, List.length_map, ← List.countP_eq_length_filter, ← List.countP_eq_length_filter] at hlen

theorem Agree.any {p : ρ → Bool} {q : ρ' → Bool} (h : Agree R t t') (hpq : ∀ r r', R r r' → p r = q r') :
    t.rows.any p = t'.rows.any q := by
  have hcount := h.countP hpq
  rw [Bool.eq_iff_iff, List.any_eq_true, List.any_eq_true, ← List.countP_pos_iff, ← List.countP_pos_iff, hcount]

end Agree

end Table

end Vellar
