/-
Chains of blocks that name the hash of the block below them.

A view is what a chain shows at one moment: at each height up to a tip a hash, and the
hash the block names as its parent.  Views of a chain that reorganises differ, but a hash
stands for one block, so two views that share a hash share everything below it.
`Ancestor` is the relation that makes this usable without a view at hand: one block is
below another along the parents of blocks of any of the views.
-/
import Mathlib.Order.Lattice
import Mathlib.Data.Int.Init

namespace HashChain

variable {H : Type}

/-- What a chain shows at one moment. -/
structure View (H : Type) where
  tip : Int
  hash : Int → H
  parent : Int → H
  linked : ∀ n, 0 ≤ n → n < tip → parent (n + 1) = hash n

/-- A hash stands for one block: where two views share it they share its parent. -/
def HashLinked (views : View H → Prop) : Prop :=
  ∀ V V', views V → views V' → ∀ n, 0 < n → n ≤ V.tip → n ≤ V'.tip →
    V.hash n = V'.hash n → V.parent n = V'.parent n

/-- The block `x` at height `n` is below the block `y` at height `m`, or is that block. -/
inductive Ancestor (views : View H → Prop) (n : Int) (x : H) : Int → H → Prop
  | self : Ancestor views n x n x
  | child {V : View H} {m : Int} (hV : views V) (h0 : 0 ≤ m) (hm : m < V.tip)
      (h : Ancestor views n x m (V.hash m)) : Ancestor views n x (m + 1) (V.hash (m + 1))

variable {views : View H → Prop} {n m : Int} {x y : H} {V : View H}

theorem Ancestor.le (h : Ancestor views n x m y) : n ≤ m := by
  induction h with
  | self => exact le_refl n
  | child _ _ _ _ ih => omega

/-- Within a view every block is below the ones above it. -/
theorem View.ancestor (hV : views V) (h0 : 0 ≤ n) (k : Nat) (htip : n + k ≤ V.tip) :
    Ancestor views n (V.hash n) (n + k) (V.hash (n + k)) := by
  induction k with
  | zero =>
      rw [Int.natCast_zero, Int.add_zero]
      exact .self
  | succ k ih =>
      have hstep := Ancestor.child hV (by omega) (by omega) (ih (by omega))
      rwa [Int.add_assoc] at hstep

/-- **A view that shows a block shows its ancestors.** -/
theorem Ancestor.hash_eq (hlinked : HashLinked views) (h : Ancestor views n x m y)
    (hV : views V) (htip : m ≤ V.tip) (hy : V.hash m = y) : V.hash n = x := by
  induction h with
  | self => exact hy
  | @child V' m hV' h0 hm h ih =>
      have hparent := hlinked V V' hV hV' (m + 1) (by omega) htip (by omega) hy
      rw [V.linked m h0 (by omega), V'.linked m h0 hm] at hparent
      exact ih (by omega) hparent

end HashChain
