/-
Tables under a primary key.

A table is the list of its rows in physical order together with the proof that no
two rows share a key, so a table that violates its key cannot be built.  What a
query can observe of a table by key is `find?`, and every operation is specified
by what it does to `find?`: an insert that does nothing on a conflict keeps the
old row, a bulk insert keeps the first row offered under each key, a delete keeps
the rows its predicate spares.  Two tables with the same `find?` hold the same
rows up to their order (`Same.perm`), so they agree on every count as well.
-/
import Mathlib.Data.List.Perm.Basic
import Mathlib.Data.List.Nodup
import Mathlib.Data.List.Perm.Subperm

namespace Relational

variable {V K : Type} {key : V → K}

/-- Rows under the primary key `key`, in physical order. -/
structure Table (key : V → K) where
  rows : List V
  /-- No two rows share a key. -/
  nodup : (rows.map key).Nodup

namespace Table

/-- The table with no rows. -/
def empty : Table key := ⟨[], by simp⟩

instance : Inhabited (Table key) := ⟨empty⟩

/-- Equality of rows is equality of tables. -/
theorem ext_rows {t u : Table key} (h : t.rows = u.rows) : t = u := by
  cases t; cases u; cases h; rfl

/-- Delete the rows `p` selects. -/
def deleteWhere (t : Table key) (p : V → Bool) : Table key where
  rows := t.rows.filter fun v => !p v
  nodup := t.nodup.sublist (List.filter_sublist.map key)

/-- How many rows `p` selects. -/
def count (t : Table key) (p : V → Bool) : Nat := (t.rows.filter p).length

theorem rows_nodup (t : Table key) : t.rows.Nodup := t.nodup.of_map

section Keyed

variable [DecidableEq K]

/-- The row stored under a key. -/
def find? (t : Table key) (k : K) : Option V := t.rows.find? fun v => key v = k

/-- Whether a key is taken. -/
def contains (t : Table key) (k : K) : Bool := (t.find? k).isSome

theorem find?_eq_some {t : Table key} {k : K} {v : V} :
    t.find? k = some v ↔ v ∈ t.rows ∧ key v = k := by
  constructor
  · intro h
    refine ⟨List.mem_of_find?_eq_some h, ?_⟩
    simpa using List.find?_some h
  · rintro ⟨hmem, rfl⟩
    rcases hf : t.find? (key v) with _ | u
    · have := List.find?_eq_none.mp hf v hmem
      simp at this
    · have hu : u ∈ t.rows := List.mem_of_find?_eq_some hf
      have hk : key u = key v := by simpa using List.find?_some hf
      rw [List.inj_on_of_nodup_map t.nodup hu hmem hk]

theorem mem_rows {t : Table key} {v : V} : v ∈ t.rows ↔ t.find? (key v) = some v := by
  rw [find?_eq_some]
  exact ⟨fun h => ⟨h, rfl⟩, fun h => h.1⟩

theorem find?_key {t : Table key} {k : K} {v : V} (h : t.find? k = some v) : key v = k :=
  (find?_eq_some.mp h).2

theorem contains_iff {t : Table key} {k : K} :
    t.contains k = true ↔ ∃ v, t.find? k = some v := by
  rw [contains, Option.isSome_iff_exists]

theorem find?_eq_none {t : Table key} {k : K} :
    t.find? k = none ↔ t.contains k = false := by
  rw [contains]
  cases t.find? k <;> simp

theorem contains_of_find? {t : Table key} {k : K} {v : V} (h : t.find? k = some v) :
    t.contains k = true := contains_iff.mpr ⟨v, h⟩

@[simp] theorem find?_empty (k : K) : (empty : Table key).find? k = none := rfl

@[simp] theorem contains_empty (k : K) : (empty : Table key).contains k = false := rfl

omit [DecidableEq K] in
@[simp] theorem rows_empty : (empty : Table key).rows = [] := rfl

private theorem not_mem_keys {t : Table key} {v : V} (h : ¬ t.contains (key v) = true) :
    key v ∉ t.rows.map key := by
  intro hmem
  obtain ⟨u, hu, hk⟩ := List.mem_map.mp hmem
  exact h (contains_iff.mpr ⟨u, find?_eq_some.mpr ⟨hu, hk⟩⟩)

/-- `INSERT .. ON CONFLICT (key) DO NOTHING` of one row. -/
def insertNew (t : Table key) (v : V) : Table key :=
  if h : t.contains (key v) = true then t else
    ⟨t.rows ++ [v], by
      rw [List.map_append, List.map_singleton, List.nodup_append]
      refine ⟨t.nodup, List.nodup_singleton _, ?_⟩
      intro a ha b hb hab
      obtain rfl : b = key v := by simpa using hb
      exact not_mem_keys h (hab ▸ ha)⟩

/-- Change the row stored under `k`, keeping its key. -/
def modify (t : Table key) (k : K) (f : V → V) (hf : ∀ v, key (f v) = key v) : Table key where
  rows := t.rows.map fun v => if key v = k then f v else v
  nodup := by
    rw [List.map_map]
    have hcomp : (key ∘ fun v => if key v = k then f v else v) = key := by
      funext v
      by_cases hv : key v = k <;> simp [hv, hf]
    rw [hcomp]
    exact t.nodup

/-- `INSERT .. ON CONFLICT (key) DO UPDATE`: a new row, or `merge` of the row already there. -/
def upsert (t : Table key) (v : V) (merge : V → V) (hm : ∀ u, key (merge u) = key u) :
    Table key :=
  if t.contains (key v) then t.modify (key v) merge hm else t.insertNew v

theorem insertNew_of_contains {t : Table key} {v : V} (h : t.contains (key v) = true) :
    t.insertNew v = t := dif_pos h

/-- A row under a free key goes to the end. -/
theorem rows_insertNew {t : Table key} {v : V} (h : t.contains (key v) = false) :
    (t.insertNew v).rows = t.rows ++ [v] := by
  unfold insertNew
  rw [dif_neg (by simp [h])]

/-- **An insert keeps the row already there.** -/
@[simp] theorem find?_insertNew (t : Table key) (v : V) (k : K) :
    (t.insertNew v).find? k = (t.find? k).or (if key v = k then some v else none) := by
  unfold insertNew
  by_cases h : t.contains (key v) = true
  · rw [dif_pos h]
    obtain ⟨u, hu⟩ := contains_iff.mp h
    by_cases hk : key v = k
    · subst hk; simp [hu]
    · simp [hk]
  · rw [dif_neg h]
    show (t.rows ++ [v]).find? _ = _
    rw [List.find?_append]
    congr 1
    by_cases hk : key v = k <;> simp [hk]

/-- `INSERT .. ON CONFLICT (key) DO NOTHING` of several rows, one after another. -/
def insertAll (t : Table key) (vs : List V) : Table key := vs.foldl insertNew t

@[simp] theorem insertAll_nil (t : Table key) : t.insertAll [] = t := rfl

@[simp] theorem insertAll_cons (t : Table key) (v : V) (vs : List V) :
    t.insertAll (v :: vs) = (t.insertNew v).insertAll vs := rfl

theorem insertAll_append (t : Table key) (us vs : List V) :
    t.insertAll (us ++ vs) = (t.insertAll us).insertAll vs := List.foldl_append ..

/-- **A bulk insert keeps the first row offered under each key.** -/
theorem find?_insertAll (vs : List V) :
    ∀ (t : Table key) (k : K),
      (t.insertAll vs).find? k = (t.find? k).or (vs.find? fun v => key v = k) := by
  induction vs with
  | nil => intro t k; simp
  | cons v rest ih =>
      intro t k
      rw [insertAll_cons, ih, find?_insertNew, List.find?_cons, Option.or_assoc]
      by_cases hk : key v = k <;> simp [hk]

theorem contains_insertNew (t : Table key) (v : V) (k : K) :
    (t.insertNew v).contains k = (t.contains k || decide (key v = k)) := by
  unfold contains
  rw [find?_insertNew]
  by_cases hk : key v = k <;> cases t.find? k <;> simp [hk]

theorem contains_insertAll (t : Table key) (vs : List V) (k : K) :
    (t.insertAll vs).contains k = true ↔ t.contains k = true ∨ ∃ v ∈ vs, key v = k := by
  unfold contains
  rw [find?_insertAll, Option.isSome_or, Bool.or_eq_true]
  simp

@[simp] theorem find?_deleteWhere (t : Table key) (p : V → Bool) (k : K) :
    (t.deleteWhere p).find? k = (t.find? k).filter fun v => !p v := by
  rcases hf : t.find? k with _ | v
  · rw [Option.filter_none]
    rcases hd : (t.deleteWhere p).find? k with _ | u
    · rfl
    · obtain ⟨hu, hk⟩ := find?_eq_some.mp hd
      have := find?_eq_some.mpr ⟨(List.mem_filter.mp hu).1, hk⟩
      rw [hf] at this
      exact absurd this (by simp)
  · obtain ⟨hv, hk⟩ := find?_eq_some.mp hf
    by_cases hp : p v = true
    · have hnone : (t.deleteWhere p).find? k = none := by
        rcases hd : (t.deleteWhere p).find? k with _ | u
        · rfl
        · obtain ⟨hu, hku⟩ := find?_eq_some.mp hd
          obtain ⟨hmem, hkeep⟩ := List.mem_filter.mp hu
          have huv : u = v := by
            have := find?_eq_some.mpr ⟨hmem, hku⟩
            rw [hf] at this
            exact (Option.some.inj this).symm
          subst huv
          simp [hp] at hkeep
      rw [hnone, Option.filter_some, if_neg (by simp [hp])]
    · have hmem : v ∈ (t.deleteWhere p).rows := List.mem_filter.mpr ⟨hv, by simp [hp]⟩
      rw [find?_eq_some.mpr ⟨hmem, hk⟩, Option.filter_some, if_pos (by simp [hp])]

@[simp] theorem find?_modify (t : Table key) (k' : K) (f : V → V)
    (hf : ∀ v, key (f v) = key v) (k : K) :
    (t.modify k' f hf).find? k = (t.find? k).map fun v => if key v = k' then f v else v := by
  unfold find? modify
  rw [List.find?_map]
  have hcomp : ((fun v => decide (key v = k)) ∘ fun v => if key v = k' then f v else v)
      = fun v => decide (key v = k) := by
    funext v
    by_cases hv : key v = k' <;> simp [hv, hf]
  rw [hcomp]

@[simp] theorem contains_modify (t : Table key) (k' : K) (f : V → V)
    (hf : ∀ v, key (f v) = key v) (k : K) : (t.modify k' f hf).contains k = t.contains k := by
  unfold contains
  rw [find?_modify, Option.isSome_map]

/-- Nothing is changed where nothing is stored. -/
theorem modify_of_find?_none {t : Table key} {k : K} {f : V → V} {hf : ∀ v, key (f v) = key v}
    (h : t.find? k = none) : t.modify k f hf = t := by
  have hrow : ∀ v ∈ t.rows, (if key v = k then f v else v) = id v := by
    intro v hv
    have hne : ¬ key v = k := by simpa using List.find?_eq_none.mp h v hv
    rw [if_neg hne]
    rfl
  exact ext_rows ((List.map_congr_left hrow).trans (List.map_id _))

/-- An upsert changes the row under its own key only. -/
theorem find?_upsert (t : Table key) (v : V) (merge : V → V)
    (hm : ∀ u, key (merge u) = key u) (k : K) :
    (t.upsert v merge hm).find? k =
      if key v = k then some ((t.find? k).elim v merge) else t.find? k := by
  unfold upsert
  by_cases hk : key v = k
  · subst hk
    rw [if_pos rfl]
    rcases hf : t.find? (key v) with _ | u
    · rw [if_neg (by simp [find?_eq_none.mp hf]), find?_insertNew, hf]
      simp
    · rw [if_pos (contains_of_find? hf), find?_modify, hf]
      simp [find?_key hf]
  · rw [if_neg hk]
    by_cases hc : t.contains (key v) = true
    · rw [if_pos hc, find?_modify]
      rcases hf : t.find? k with _ | u
      · rfl
      · have hu : key u ≠ key v := fun h => hk (h.symm.trans (find?_key hf))
        simp [hu]
    · rw [if_neg hc, find?_insertNew]
      simp [hk]

omit [DecidableEq K] in
/-- The only row that meets a predicate is the one a search finds. -/
theorem find?_of_unique {l : List V} {p : V → Bool} {v : V} (hv : v ∈ l) (hp : p v = true)
    (huniq : ∀ u ∈ l, p u = true → u = v) : l.find? p = some v := by
  rcases hf : l.find? p with _ | u
  · exact absurd hp (List.find?_eq_none.mp hf v hv)
  · rw [huniq u (List.mem_of_find?_eq_some hf) (List.find?_some hf)]

omit [DecidableEq K] in
/-- Counting rows by listing them once each. -/
theorem count_eq_length {t : Table key} {p : V → Bool} {l : List V} (hl : l.Nodup)
    (hmem : ∀ v, v ∈ l ↔ v ∈ t.rows ∧ p v = true) : t.count p = l.length := by
  have hperm : (t.rows.filter p).Perm l :=
    (List.perm_ext_iff_of_nodup (t.rows_nodup.filter p) hl).mpr fun v => by
      rw [List.mem_filter, hmem v]
  exact hperm.length_eq

/-! ### Tables that hold the same rows -/

/-- The two tables answer every key alike. -/
def Same (t u : Table key) : Prop := ∀ k, t.find? k = u.find? k

theorem Same.refl (t : Table key) : Same t t := fun _ => rfl

theorem Same.symm {t u : Table key} (h : Same t u) : Same u t := fun k => (h k).symm

theorem Same.trans {t u s : Table key} (h : Same t u) (h' : Same u s) : Same t s :=
  fun k => (h k).trans (h' k)

theorem Same.contains {t u : Table key} (h : Same t u) (k : K) :
    t.contains k = u.contains k := by unfold Table.contains; rw [h k]

theorem Same.mem {t u : Table key} (h : Same t u) {v : V} : v ∈ t.rows ↔ v ∈ u.rows := by
  rw [mem_rows, mem_rows, h (key v)]

theorem Same.insertAll {t u : Table key} (h : Same t u) (vs : List V) :
    Same (t.insertAll vs) (u.insertAll vs) := by
  intro k
  rw [find?_insertAll, find?_insertAll, h k]

theorem Same.deleteWhere {t u : Table key} (h : Same t u) (p : V → Bool) :
    Same (t.deleteWhere p) (u.deleteWhere p) := by
  intro k
  rw [find?_deleteWhere, find?_deleteWhere, h k]

/-- Tables that answer every key alike hold the same rows up to their order. -/
theorem Same.perm {t u : Table key} (h : Same t u) : t.rows.Perm u.rows :=
  (List.perm_ext_iff_of_nodup t.rows_nodup u.rows_nodup).mpr fun _ => h.mem

theorem Same.count {t u : Table key} (h : Same t u) (p : V → Bool) : t.count p = u.count p :=
  (h.perm.filter p).length_eq

/-! ### Tables that only gain rows -/

/-- Every row of `t` is still stored in `u`. -/
def Le (t u : Table key) : Prop := ∀ k v, t.find? k = some v → u.find? k = some v

theorem Le.refl (t : Table key) : Le t t := fun _ _ h => h

theorem Le.trans {t u s : Table key} (h : Le t u) (h' : Le u s) : Le t s :=
  fun k v hv => h' k v (h k v hv)

theorem Le.contains {t u : Table key} (h : Le t u) {k : K} (hk : t.contains k = true) :
    u.contains k = true := by
  obtain ⟨v, hv⟩ := contains_iff.mp hk
  exact contains_of_find? (h k v hv)

theorem le_insertAll (t : Table key) (vs : List V) : Le t (t.insertAll vs) := by
  intro k v hv
  rw [find?_insertAll, hv]
  rfl

theorem Le.mem {t u : Table key} (h : Le t u) {v : V} (hv : v ∈ t.rows) : v ∈ u.rows :=
  mem_rows.mpr (h _ _ (mem_rows.mp hv))

/-- A row a bulk insert leaves was there before or is one of the rows offered. -/
theorem mem_insertAll {t : Table key} {vs : List V} {v : V} (h : v ∈ (t.insertAll vs).rows) :
    v ∈ t.rows ∨ (v ∈ vs ∧ t.find? (key v) = none) := by
  rw [mem_rows, find?_insertAll] at h
  rcases hf : t.find? (key v) with _ | u
  · rw [hf, Option.none_or] at h
    exact Or.inr ⟨List.mem_of_find?_eq_some h, rfl⟩
  · rw [hf, Option.some_or] at h
    exact Or.inl (mem_rows.mpr (hf.trans h))

/-- Rows offered under free keys, no two under one, are all stored. -/
theorem mem_insertAll_of_fresh {t : Table key} {vs : List V}
    (hfree : ∀ v ∈ vs, t.contains (key v) = false) (hdist : (vs.map key).Nodup) {v : V} :
    v ∈ (t.insertAll vs).rows ↔ v ∈ t.rows ∨ v ∈ vs := by
  refine ⟨fun h => (mem_insertAll h).imp_right fun h => h.1, fun h => ?_⟩
  rcases h with hold | hnew
  · exact (le_insertAll t vs).mem hold
  · rw [mem_rows, find?_insertAll, find?_eq_none.mpr (hfree v hnew), Option.none_or]
    refine find?_of_unique hnew (decide_eq_true rfl) fun u hu hk => ?_
    exact List.inj_on_of_nodup_map hdist hu hnew (of_decide_eq_true hk)

/-- Deleting all the rows offered last leaves those offered before. -/
theorem same_deleteWhere_append {us vs : List V} {p : V → Bool} (hus : ∀ u ∈ us, p u = false)
    (hvs : ∀ v ∈ vs, p v = true) :
    Same (((empty : Table key).insertAll (us ++ vs)).deleteWhere p) (empty.insertAll us) := by
  intro k
  rw [find?_deleteWhere, find?_insertAll, find?_insertAll, find?_empty, Option.none_or,
    Option.none_or, List.find?_append]
  rcases hu : us.find? fun v => key v = k with _ | u
  · rw [Option.none_or]
    rcases hv : vs.find? fun v => key v = k with _ | v
    · rfl
    · rw [Option.filter_some, if_neg (by simp [hvs v (List.mem_of_find?_eq_some hv)])]
  · rw [Option.some_or, Option.filter_some,
      if_pos (by simp [hus u (List.mem_of_find?_eq_some hu)])]

end Keyed

end Table

end Relational
