/-
A run of writes as a replay of its bundles.

However the bundles are grouped into transactions, and whether a group is written row
by row or sorted and in pages, the tables end up as if the rows of the bundles had been
offered one after another in bundle order.  What that takes is that the bundles come in
height order and that every row carries the height of its bundle: then no sort moves a
row past another one with the same key.
-/
import SentrixIndexer.Proofs.Bundles
import SentrixIndexer.Proofs.Writes

namespace SentrixIndexer

open Relational

/-- Well-formed bundles in the order of their heights. -/
structure InOrder (bundles : List BlockBundle) : Prop where
  placed : ∀ b ∈ bundles, Placed b
  ascending : bundles.Pairwise fun a b => a.block.height < b.block.height

theorem InOrder.of_append_left {us vs : List BlockBundle} (h : InOrder (us ++ vs)) :
    InOrder us :=
  ⟨fun b hb => h.placed b (List.mem_append_left _ hb), (List.pairwise_append.mp h.ascending).1⟩

theorem InOrder.of_append_right {us vs : List BlockBundle} (h : InOrder (us ++ vs)) :
    InOrder vs :=
  ⟨fun b hb => h.placed b (List.mem_append_right _ hb),
    (List.pairwise_append.mp h.ascending).2.1⟩

/-- The tables hold the rows of the bundles on top of those of `s`, whatever their order. -/
structure Wrote (s : Store) (bundles : List BlockBundle) (s' : Store) : Prop where
  blocks : Table.Same s'.blocks (s.blocks.insertAll (bundles.map BlockBundle.block))
  transactions : Table.Same s'.transactions
    (s.transactions.insertAll (bundles.flatMap BlockBundle.txs))
  logs : Table.Same s'.logs (s.logs.insertAll (bundles.flatMap BlockBundle.logs))
  tokenTransfers : Table.Same s'.tokenTransfers
    (s.tokenTransfers.insertAll (bundles.flatMap BlockBundle.tokenTransfers))

/-- The four tables hold the same rows. -/
structure SameTables (s s' : Store) : Prop where
  blocks : Table.Same s.blocks s'.blocks
  transactions : Table.Same s.transactions s'.transactions
  logs : Table.Same s.logs s'.logs
  tokenTransfers : Table.Same s.tokenTransfers s'.tokenTransfers

/-! ### One transaction -/

section Sorts

variable {bundles : List BlockBundle} (h : InOrder bundles)
include h

theorem InOrder.txs_sorted : (bundles.flatMap BlockBundle.txs).Pairwise fun a b =>
    a.hash = b.hash → toLex (a.blockHeight, a.txIndex) ≤ toLex (b.blockHeight, b.txIndex) := by
  rw [List.pairwise_flatMap]
  constructor
  · intro b hb
    have hplaced := h.placed b hb
    refine hplaced.txSorted.imp_of_mem fun {x y} hx hy hlt _ => ?_
    rw [Prod.Lex.toLex_le_toLex, hplaced.txHeight x hx, hplaced.txHeight y hy]
    exact Or.inr ⟨rfl, le_of_lt hlt⟩
  · refine h.ascending.imp_of_mem fun {a b} ha hb hlt x hx y hy _ => ?_
    rw [Prod.Lex.toLex_le_toLex, (h.placed a ha).txHeight x hx, (h.placed b hb).txHeight y hy]
    exact Or.inl hlt

theorem InOrder.transfers_sorted : (bundles.flatMap BlockBundle.tokenTransfers).Pairwise
    fun a b => a.key = b.key →
      toLex (a.blockHeight, a.logIndex) ≤ toLex (b.blockHeight, b.logIndex) := by
  rw [List.pairwise_flatMap]
  constructor
  · intro b hb
    have hplaced := h.placed b hb
    refine List.pairwise_iff_forall_sublist.mpr fun {x y} hsub hkey => ?_
    have hx : x ∈ b.tokenTransfers := hsub.subset (by simp)
    have hy : y ∈ b.tokenTransfers := hsub.subset (by simp)
    rw [hplaced.transferHeight hx, hplaced.transferHeight hy, (Prod.mk.inj hkey).2]
  · refine h.ascending.imp_of_mem fun {a b} ha hb hlt x hx y hy _ => ?_
    rw [Prod.Lex.toLex_le_toLex, (h.placed a ha).transferHeight hx,
      (h.placed b hb).transferHeight hy]
    exact Or.inl hlt

end Sorts

/-- **One transaction is a replay of its bundles.** -/
theorem Txn.run_wrote {t : Txn} {s s' : Store} (hf : t.Forward) (ho : InOrder t.bundles)
    (h : t.run s = .ok s') : Wrote s t.bundles s' := by
  cases t with
  | writeBlock b =>
      have hw := writeBlockTx_written h
      refine ⟨?_, ?_, ?_, ?_⟩
      · rw [hw.blocks]; exact Table.Same.refl _
      · rw [hw.transactions, Txn.bundles, List.flatMap_singleton]; exact Table.Same.refl _
      · rw [hw.logs, Txn.bundles, List.flatMap_singleton]; exact Table.Same.refl _
      · rw [hw.tokenTransfers, Txn.bundles, List.flatMap_singleton]; exact Table.Same.refl _
  | batchWriteBlocks bundles =>
      have hw := batchWriteBlocksTx_written h
      refine ⟨?_, ?_, ?_, ?_⟩
      · rw [hw.blocks]
        exact Table.insertAll_sortByKey _ (List.pairwise_of_forall fun _ _ hk => le_of_eq hk)
      · rw [hw.transactions]
        exact Table.insertAll_sortByKey _ ho.txs_sorted
      · rw [hw.logs]
        exact Table.insertAll_sortByKey _
          (List.pairwise_of_forall fun _ _ hk => le_of_eq (congrArg toLex hk))
      · rw [hw.tokenTransfers]
        exact Table.insertAll_sortByKey _ ho.transfers_sorted
  | writeCursor g nowTs =>
      have hw := writeCursor_written h
      refine ⟨?_, ?_, ?_, ?_⟩
      · rw [hw.blocks]; exact Table.Same.refl _
      · rw [hw.transactions]; exact Table.Same.refl _
      · rw [hw.logs]; exact Table.Same.refl _
      · rw [hw.tokenTransfers]; exact Table.Same.refl _
  | rewindTo g => exact absurd hf fun hf => hf

/-! ### Runs of transactions -/

theorem Wrote.refl (s : Store) : Wrote s [] s :=
  ⟨Table.Same.refl _, Table.Same.refl _, Table.Same.refl _, Table.Same.refl _⟩

theorem Wrote.trans {s₁ s₂ s₃ : Store} {us vs : List BlockBundle} (h : Wrote s₁ us s₂)
    (h' : Wrote s₂ vs s₃) : Wrote s₁ (us ++ vs) s₃ := by
  refine ⟨?_, ?_, ?_, ?_⟩
  · rw [List.map_append, Table.insertAll_append]
    exact h'.blocks.trans (h.blocks.insertAll _)
  · rw [List.flatMap_append, Table.insertAll_append]
    exact h'.transactions.trans (h.transactions.insertAll _)
  · rw [List.flatMap_append, Table.insertAll_append]
    exact h'.logs.trans (h.logs.insertAll _)
  · rw [List.flatMap_append, Table.insertAll_append]
    exact h'.tokenTransfers.trans (h.tokenTransfers.insertAll _)

/-- Two replays of the same bundles leave the same tables. -/
theorem Wrote.same {s s₁ s₂ : Store} {bundles : List BlockBundle} (h : Wrote s bundles s₁)
    (h' : Wrote s bundles s₂) : SameTables s₁ s₂ :=
  ⟨h.blocks.trans h'.blocks.symm, h.transactions.trans h'.transactions.symm,
    h.logs.trans h'.logs.symm, h.tokenTransfers.trans h'.tokenTransfers.symm⟩

/-- **A run of forward transactions is a replay of its bundles.** -/
theorem run_wrote {ts : List Txn} (hf : ∀ t ∈ ts, t.Forward) :
    ∀ {s s' : Store}, InOrder (ts.flatMap Txn.bundles) → forEach Txn.run ts s = .ok s' →
      Wrote s (ts.flatMap Txn.bundles) s' := by
  induction ts with
  | nil =>
      intro s s' _ h
      obtain rfl := Except.ok.inj h
      exact Wrote.refl s
  | cons t rest ih =>
      intro s s' ho h
      rw [List.flatMap_cons] at ho ⊢
      obtain ⟨s₁, h₁, h⟩ := bind_ok.mp h
      have hfirst := t.run_wrote (hf t (List.mem_cons_self ..)) ho.of_append_left h₁
      exact hfirst.trans (ih (fun u hu => hf u (List.mem_cons_of_mem _ hu)) ho.of_append_right h)

/-! ### Runs from an empty store -/

/-- The run of writes is committed from an empty store and leaves `s`. -/
def Committed (ts : List Txn) (s : Store) : Prop := forEach Txn.run ts .empty = .ok s

theorem committed_concat {ts : List Txn} {t : Txn} {s : Store} :
    Committed (ts ++ [t]) s ↔ ∃ s₁, Committed ts s₁ ∧ t.run s₁ = .ok s := by
  unfold Committed
  rw [forEach_append, bind_ok]
  constructor
  · intro h
    obtain ⟨s₁, h₁, h⟩ := h
    obtain ⟨s₂, h₂, h⟩ := bind_ok.mp h
    obtain rfl := Except.ok.inj h
    exact ⟨s₁, h₁, h₂⟩
  · intro h
    obtain ⟨s₁, h₁, h₂⟩ := h
    exact ⟨s₁, h₁, bind_ok.mpr ⟨s, h₂, rfl⟩⟩

/-- Where a run is committed, so is every run it continues. -/
theorem Committed.of_append {us vs : List Txn} {s : Store} (h : Committed (us ++ vs) s) :
    ∃ s₁, Committed us s₁ := by
  unfold Committed at h
  rw [forEach_append] at h
  obtain ⟨s₁, h₁, -⟩ := bind_ok.mp h
  exact ⟨s₁, h₁⟩

end SentrixIndexer
