/-
Sorting the rows of a bulk insert.

A stable sort moves rows past each other only when their sort keys differ the
other way round, so the rows that share a primary key keep their order as long as
they were already in sort order among themselves.  A bulk insert looks at nothing
else: it stores the first row offered under each key.  Sorting its input is
therefore invisible in the table it leaves.
-/
import Mathlib.Data.List.Sort
import SentrixIndexer.Relational.Table

namespace Relational

variable {V K κ : Type} [LinearOrder κ]

/-- Stable sort by a key. -/
def sortByKey (f : V → κ) (l : List V) : List V := l.insertionSort fun a b => f a ≤ f b

theorem mem_sortByKey {f : V → κ} {l : List V} {v : V} : v ∈ sortByKey f l ↔ v ∈ l :=
  List.mem_insertionSort _

theorem sortByKey_perm (f : V → κ) (l : List V) : (sortByKey f l).Perm l :=
  List.perm_insertionSort _ l

/-- Sorting a list already in order changes nothing. -/
theorem sortByKey_of_sorted {f : V → κ} {l : List V}
    (h : l.Pairwise fun a b => f a ≤ f b) : sortByKey f l = l := h.insertionSort_eq

theorem sortByKey_sorted (f : V → κ) (l : List V) :
    (sortByKey f l).Pairwise fun a b => f a ≤ f b := by
  have : Std.Total fun a b : V => f a ≤ f b := ⟨fun a b => le_total (f a) (f b)⟩
  have : IsTrans V fun a b => f a ≤ f b := ⟨fun _ _ _ => le_trans⟩
  exact List.pairwise_insertionSort _ l

/-- The row a search in the sorted list finds is lowest of those it could find. -/
theorem le_of_find?_sortByKey {f : V → κ} {l : List V} {p : V → Bool} {v u : V}
    (h : (sortByKey f l).find? p = some v) (hu : u ∈ l) (hp : p u = true) : f v ≤ f u := by
  obtain ⟨-, before, after, hsplit, hnone⟩ := List.find?_eq_some_iff_append.mp h
  have hmem : u ∈ before ++ v :: after := hsplit ▸ mem_sortByKey.mpr hu
  have hsorted := sortByKey_sorted f l
  rw [hsplit] at hsorted
  rcases List.mem_append.mp hmem with hbefore | hrest
  · have := hnone u hbefore
    simp [hp] at this
  · rcases List.mem_cons.mp hrest with rfl | hafter
    · exact le_rfl
    · exact (List.pairwise_cons.mp (List.pairwise_append.mp hsorted).2.1).1 u hafter

/-- Rows already in order among themselves keep that order. -/
theorem filter_sortByKey {f : V → κ} {l : List V} {p : V → Bool}
    (h : (l.filter p).Pairwise fun a b => f a ≤ f b) :
    (sortByKey f l).filter p = l.filter p := by
  have : Std.Total fun a b : V => f a ≤ f b := ⟨fun a b => le_total (f a) (f b)⟩
  have : IsTrans V fun a b => f a ≤ f b := ⟨fun _ _ _ => le_trans⟩
  have hsub : (l.filter p).Sublist (sortByKey f l) :=
    List.sublist_insertionSort h List.filter_sublist
  have hsub' : (l.filter p).Sublist ((sortByKey f l).filter p) := by
    simpa using hsub.filter p
  exact (hsub'.eq_of_length ((sortByKey_perm f l).filter p).length_eq.symm).symm

theorem find?_sortByKey {f : V → κ} {l : List V} {p : V → Bool}
    (h : (l.filter p).Pairwise fun a b => f a ≤ f b) :
    (sortByKey f l).find? p = l.find? p := by
  rw [← List.head?_filter, ← List.head?_filter, filter_sortByKey h]

namespace Table

variable {key : V → K} [DecidableEq K]

/-- **Sorting the rows of a bulk insert is invisible** when the rows of each key are in order. -/
theorem insertAll_sortByKey (t : Table key) {f : V → κ} {l : List V}
    (h : l.Pairwise fun a b => key a = key b → f a ≤ f b) :
    Same (t.insertAll (sortByKey f l)) (t.insertAll l) := by
  intro k
  rw [find?_insertAll, find?_insertAll, find?_sortByKey]
  refine (h.filter _).imp_of_mem fun {a b} ha hb hle => hle ?_
  have hka : key a = k := of_decide_eq_true (List.mem_filter.mp ha).2
  have hkb : key b = k := of_decide_eq_true (List.mem_filter.mp hb).2
  exact hka.trans hkb.symm

end Table

end Relational
