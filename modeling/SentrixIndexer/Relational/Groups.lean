/-
Grouping the rows of a table.

`GROUP BY key` splits the rows into groups, one for each key there is.  Every row is in one
group, so what is added up group by group adds up to the whole.
-/
import Mathlib.Algebra.BigOperators.Group.List.Lemmas
import Mathlib.Data.List.Dedup

namespace Relational

variable {V κ M : Type} [DecidableEq κ] {key : V → κ} {rows rows' : List V} {ks : List κ}

/-- The groups of the rows, each under its key. -/
def groupBy (key : V → κ) (rows : List V) : List (κ × List V) :=
  (rows.map key).dedup.map fun k => (k, rows.filter fun v => key v = k)

/-- No two groups have one key. -/
theorem nodup_groupBy : ((groupBy key rows).map Prod.fst).Nodup := by
  unfold groupBy
  rw [List.map_map]
  have hkeys : (Prod.fst ∘ fun k => (k, rows.filter fun v => key v = k)) = id := rfl
  rw [hkeys, List.map_id]
  exact List.nodup_dedup _

theorem mem_groupBy {g : κ × List V} :
    g ∈ groupBy key rows ↔ (∃ v ∈ rows, key v = g.1) ∧ g.2 = rows.filter fun v => key v = g.1 := by
  unfold groupBy
  rw [List.mem_map]
  constructor
  · rintro ⟨k, hk, rfl⟩
    exact ⟨List.mem_map.mp (List.mem_dedup.mp hk), rfl⟩
  · rintro ⟨hk, hrows⟩
    exact ⟨g.1, List.mem_dedup.mpr (List.mem_map.mpr hk), Prod.ext rfl hrows.symm⟩

/-- **Every row is under one of the keys**: the rows under each of them are all the rows. -/
theorem perm_flatMap_filter (hnodup : ks.Nodup) (hkeys : ∀ v ∈ rows, key v ∈ ks) :
    (ks.flatMap fun k => rows.filter fun v => key v = k).Perm rows := by
  induction ks generalizing rows with
  | nil =>
      have hnone : rows = [] := List.eq_nil_iff_forall_not_mem.mpr fun v hv => by
        simpa using hkeys v hv
      rw [hnone]
      exact .nil
  | cons k ks ih =>
      obtain ⟨hk, hnodup⟩ := List.nodup_cons.mp hnodup
      -- Under the other keys it makes no difference to leave out the rows of `k`.
      have hothers : (ks.flatMap fun k' => rows.filter fun v => key v = k') =
          ks.flatMap fun k' => (rows.filter fun v => !decide (key v = k)).filter
            fun v => key v = k' := by
        refine List.flatMap_congr fun k' hk' => ?_
        rw [List.filter_filter]
        refine List.filter_congr fun v _ => ?_
        by_cases hv : key v = k'
        · have hne : ¬ key v = k := fun h => hk (h ▸ hv ▸ hk')
          simp [hv, hv ▸ hne]
        · simp [hv]
      have hrest := @ih (rows.filter fun v => !decide (key v = k)) hnodup fun v hv => by
        obtain ⟨hmem, hne⟩ := List.mem_filter.mp hv
        exact (List.mem_cons.mp (hkeys v hmem)).resolve_left (by simpa using hne)
      rw [List.flatMap_cons, hothers]
      exact (hrest.append_left _).trans (List.filter_append_perm _ rows)

/-- **The groups are all the rows.** -/
theorem groupBy_perm (key : V → κ) (rows : List V) :
    ((groupBy key rows).flatMap Prod.snd).Perm rows := by
  unfold groupBy
  rw [List.flatMap_map]
  exact perm_flatMap_filter (List.nodup_dedup _) fun v hv =>
    List.mem_dedup.mpr (List.mem_map_of_mem hv)

/-- What is added up group by group adds up to the whole. -/
theorem sum_groupBy [AddCommMonoid M] (f : V → M) :
    ((groupBy key rows).map fun g => (g.2.map f).sum).sum = (rows.map f).sum := by
  have hperm := (groupBy_perm key rows).map f
  rw [← hperm.sum_eq, List.map_flatMap, List.flatMap, List.sum_flatten, List.map_map]
  rfl

/-! ### Rows made one by one -/

section Made

variable {α β γ ε : Type} {f : α → Except ε β} {l : List α} {rs : List β}

/-- Each of the results was made of the row at its place. -/
abbrev MadeOf (f : α → Except ε β) (l : List α) (rs : List β) : Prop :=
  List.Forall₂ (fun a r => f a = .ok r) l rs

theorem madeOf_of_mapM : ∀ {rs : List β}, l.mapM f = .ok rs → MadeOf f l rs := by
  induction l with
  | nil =>
      intro rs h
      rw [List.mapM_nil] at h
      obtain rfl := Except.ok.inj h
      exact .nil
  | cons a l ih =>
      intro rs h
      rw [List.mapM_cons] at h
      cases hr : f a with
      | error e =>
          rw [hr] at h
          exact absurd h (by simp [bind, Except.bind])
      | ok r =>
          cases hrs : l.mapM f with
          | error e =>
              rw [hr, hrs] at h
              exact absurd h (by simp [bind, Except.bind])
          | ok rs' =>
              rw [hr, hrs] at h
              obtain rfl := Except.ok.inj h
              exact .cons hr (ih hrs)

theorem MadeOf.map_eq (h : MadeOf f l rs) {g : α → γ} {g' : β → γ}
    (hg : ∀ a r, f a = .ok r → g' r = g a) : rs.map g' = l.map g := by
  induction h with
  | nil => rfl
  | cons hr _ ih => rw [List.map_cons, List.map_cons, hg _ _ hr, ih]

theorem MadeOf.of_mem (h : MadeOf f l rs) {r : β} (hr : r ∈ rs) : ∃ a ∈ l, f a = .ok r := by
  induction h with
  | nil => exact absurd hr (by simp)
  | @cons a r' l rs har _ ih =>
      rcases List.mem_cons.mp hr with rfl | hmem
      · exact ⟨a, List.mem_cons_self .., har⟩
      · obtain ⟨a', ha', har'⟩ := ih hmem
        exact ⟨a', List.mem_cons_of_mem _ ha', har'⟩

theorem MadeOf.mem (h : MadeOf f l rs) {a : α} (ha : a ∈ l) : ∃ r ∈ rs, f a = .ok r := by
  induction h with
  | nil => exact absurd ha (by simp)
  | @cons a' r l rs har _ ih =>
      rcases List.mem_cons.mp ha with rfl | hmem
      · exact ⟨r, List.mem_cons_self .., har⟩
      · obtain ⟨r', hr', har'⟩ := ih hmem
        exact ⟨r', List.mem_cons_of_mem _ hr', har'⟩

end Made

end Relational
