/-
Reading a table page by page.

Rows with distinct keys come in one descending order.  A page is so many of them from the
front, and the rows after it are those below its last; so a reader who goes on below the last
row of each page meets every row once.
-/
import SentrixIndexer.Relational.StableSort

namespace Relational

variable {V κ : Type} [LinearOrder κ] {key : V → κ} {l l₁ l₂ : List V}

/-- Strictly descending by a key. -/
def Descending (key : V → κ) (l : List V) : Prop := l.Pairwise fun a b => key b < key a

/-- `ORDER BY key DESC`, the key being one. -/
def orderByDesc (key : V → κ) (l : List V) : List V := (sortByKey key l).reverse

theorem orderByDesc_perm (key : V → κ) (l : List V) : (orderByDesc key l).Perm l :=
  (List.reverse_perm _).trans (sortByKey_perm key l)

theorem mem_orderByDesc {v : V} : v ∈ orderByDesc key l ↔ v ∈ l := (orderByDesc_perm key l).mem_iff

/-- Rows with distinct keys are put in descending order. -/
theorem descending_orderByDesc (h : (l.map key).Nodup) : Descending key (orderByDesc key l) := by
  have hsorted : (sortByKey key l).Pairwise fun a b => key a ≤ key b := sortByKey_sorted key l
  have hnodup : ((sortByKey key l).map key).Nodup :=
    ((sortByKey_perm key l).map key).nodup_iff.mpr h
  have hne : (sortByKey key l).Pairwise fun a b => key a ≠ key b := List.pairwise_map.mp hnodup
  refine List.pairwise_reverse.mpr ((hsorted.and hne).imp ?_)
  intro a b hab
  exact lt_of_le_of_ne hab.1 hab.2

/-- **There is one such order.** -/
theorem Descending.eq_of_perm (h₁ : Descending key l₁) (h₂ : Descending key l₂)
    (hperm : l₁.Perm l₂) : l₁ = l₂ :=
  hperm.eq_of_pairwise (fun _ _ _ _ hab hba => absurd hab (lt_asymm hba)) h₁ h₂

theorem Descending.filter (h : Descending key l) (p : V → Bool) : Descending key (l.filter p) :=
  List.Pairwise.filter p h

/-- **What is below the last row of a page comes after the page.** -/
theorem Descending.filter_lt_last (h : Descending key l) {n : Nat} {v : V}
    (hv : (l.take n).getLast? = some v) : l.filter (fun u => key u < key v) = l.drop n := by
  obtain ⟨page, hpage⟩ := List.getLast?_eq_some_iff.mp hv
  have hsplit : l = page ++ v :: l.drop n := by
    rw [List.append_cons, ← hpage, List.take_append_drop]
  have hdesc := h
  unfold Descending at hdesc
  rw [hsplit, List.pairwise_append] at hdesc
  obtain ⟨-, hrest, habove⟩ := hdesc
  have hbelow := (List.pairwise_cons.mp hrest).1
  have hnone : (page ++ [v]).filter (fun u => key u < key v) = [] := by
    refine List.filter_eq_nil_iff.mpr fun u hu => ?_
    rcases List.mem_append.mp hu with hu | hu
    · have hlt := habove u hu v (List.mem_cons_self ..)
      simpa using hlt.le
    · rw [List.mem_singleton.mp hu]
      simp
  have hall : (l.drop n).filter (fun u => key u < key v) = l.drop n :=
    List.filter_eq_self.mpr fun u hu => by simpa using hbelow u hu
  calc l.filter (fun u => key u < key v)
      = (page ++ [v] ++ l.drop n).filter (fun u => key u < key v) := by
        rw [← List.append_cons, ← hsplit]
    _ = l.drop n := by rw [List.filter_append, hnone, List.nil_append, hall]

end Relational
