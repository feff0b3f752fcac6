/-
Rewinding and writing the other chain.

The rewind deletes blocks, and the foreign keys take their transactions and logs along;
writing the canonical blocks then leaves these three tables as if the other chain had
never been there.  `token_transfers` has no foreign key.  Its rows of abandoned blocks
stay, and where the canonical chain has a transfer under the same key it is not stored.
-/
import SentrixIndexer.Proofs.Replay
import SentrixIndexer.Proofs.TransferCodec
import SentrixIndexer.Sync.Nodes

namespace SentrixIndexer

open Relational

/-- The run of writes is a run over these bundles. -/
structure Writes (ts : List Txn) (bundles : List BlockBundle) : Prop where
  forward : ∀ t ∈ ts, t.Forward
  covers : ts.flatMap Txn.bundles = bundles

theorem Writes.wrote {ts : List Txn} {bundles : List BlockBundle} (h : Writes ts bundles)
    (ho : InOrder bundles) {s s' : Store} (hrun : forEach Txn.run ts s = .ok s') :
    Wrote s bundles s' := by
  obtain ⟨hf, rfl⟩ := h
  exact run_wrote hf ho hrun

/-! ### What a rewind leaves of a chain -/

/-- A transaction offered by bundles in order carries the height of one of them. -/
theorem InOrder.tx_height {bundles : List BlockBundle} (ho : InOrder bundles) {x : Transaction}
    (hx : x ∈ bundles.flatMap BlockBundle.txs) : ∃ b ∈ bundles, x.blockHeight = b.block.height := by
  obtain ⟨b, hb, hxb⟩ := List.mem_flatMap.mp hx
  exact ⟨b, hb, (ho.placed b hb).txHeight x hxb⟩

section Rewind

variable {d : Int} {low high : List BlockBundle} (hlow : ∀ b ∈ low, b.block.height < d)
variable (hhigh : ∀ b ∈ high, d ≤ b.block.height) (ho : InOrder (low ++ high))
include hlow ho

theorem lowTxs_kept : ∀ x ∈ low.flatMap BlockBundle.txs, ¬ d ≤ x.blockHeight := by
  intro x hx
  obtain ⟨b, hb, hheight⟩ := ho.of_append_left.tx_height hx
  rw [hheight]
  exact not_le.mpr (hlow b hb)

/-- A log below the fork belongs to a transaction that is stored below the fork. -/
theorem lowLogs_kept {s : Store} (hw : Wrote .empty (low ++ high) s) :
    ∀ l ∈ low.flatMap BlockBundle.logs, dropsLog d s l = false := by
  intro l hl
  obtain ⟨b, hb, hlb⟩ := List.mem_flatMap.mp hl
  have hplaced := ho.placed b (List.mem_append_left _ hb)
  have hheight : ¬ d ≤ l.blockHeight := by
    rw [hplaced.logHeight l hlb]
    exact not_le.mpr (hlow b hb)
  unfold dropsLog
  rw [Bool.or_eq_false_iff]
  refine ⟨decide_eq_false hheight, ?_⟩
  by_contra hany
  obtain ⟨t, ht, hhash⟩ := List.any_eq_true.mp (Bool.not_eq_false _ ▸ hany)
  obtain ⟨hrow, hdrop⟩ := List.mem_filter.mp ht
  -- The row under the hash is the first one offered, and the bundle of the log offers one.
  obtain ⟨u, hu, huh⟩ := hplaced.backed l hlb
  have hmem : u ∈ low.flatMap BlockBundle.txs := List.mem_flatMap.mpr ⟨b, hb, hu⟩
  have hfind := Table.mem_rows.mp hrow
  rw [hw.transactions, Table.find?_insertAll, List.flatMap_append, List.find?_append] at hfind
  rcases hf : (low.flatMap BlockBundle.txs).find? fun v => v.hash = t.hash with _ | v
  · have hne := List.find?_eq_none.mp hf u hmem
    exact hne (decide_eq_true (huh.trans (of_decide_eq_true hhash).symm))
  · have hv : v = t := by
      rw [hf] at hfind
      exact Option.some.inj hfind
    rw [hv] at hf
    exact lowTxs_kept hlow ho t (List.mem_of_find?_eq_some hf) (of_decide_eq_true hdrop)

include hhigh

/-- **After the rewind three of the tables hold the chain below the fork.** -/
theorem rewound_same {s s' : Store} (hw : Wrote .empty (low ++ high) s) (hr : RewoundTo d s s') :
    Table.Same s'.blocks (Table.empty.insertAll (low.map BlockBundle.block)) ∧
    Table.Same s'.transactions (Table.empty.insertAll (low.flatMap BlockBundle.txs)) ∧
    Table.Same s'.logs (Table.empty.insertAll (low.flatMap BlockBundle.logs)) := by
  refine ⟨?_, ?_, ?_⟩
  · rw [hr.blocks]
    refine (hw.blocks.deleteWhere _).trans ?_
    rw [List.map_append]
    refine Table.same_deleteWhere_append ?_ ?_
    · intro r hr
      obtain ⟨b, hb, rfl⟩ := List.mem_map.mp hr
      exact decide_eq_false (not_le.mpr (hlow b hb))
    · intro r hr
      obtain ⟨b, hb, rfl⟩ := List.mem_map.mp hr
      exact decide_eq_true (hhigh b hb)
  · rw [hr.transactions]
    refine (hw.transactions.deleteWhere _).trans ?_
    rw [List.flatMap_append]
    refine Table.same_deleteWhere_append
      (fun x hx => decide_eq_false (lowTxs_kept hlow ho x hx)) fun x hx => ?_
    obtain ⟨b, hb, hheight⟩ := ho.of_append_right.tx_height hx
    exact decide_eq_true (hheight ▸ hhigh b hb)
  · rw [hr.logs]
    refine (hw.logs.deleteWhere _).trans ?_
    rw [List.flatMap_append]
    refine Table.same_deleteWhere_append (lowLogs_kept hlow ho hw) ?_
    intro l hl
    obtain ⟨b, hb, hlb⟩ := List.mem_flatMap.mp hl
    have hheight := (ho.placed b (List.mem_append_right _ hb)).logHeight l hlb
    unfold dropsLog
    rw [hheight, decide_eq_true (hhigh b hb), Bool.true_or]

end Rewind

/-! ### Convergence -/

/-- The transfer the bundles have first under the key. -/
def firstTransfer (bundles : List BlockBundle) (k : Hash × Int) : Option TokenTransfer :=
  (bundles.flatMap BlockBundle.tokenTransfers).find? fun t => t.key = k

/--
Every transfer the abandoned blocks have stored is, row for row, the one the canonical
blocks have under its key.
-/
def Reincluded (low abandoned canonical : List BlockBundle) : Prop :=
  ∀ k t, firstTransfer low k = none → firstTransfer abandoned k = some t →
    firstTransfer canonical k = some t

/--
**Rewinding and writing the canonical chain converges** to what the canonical chain
alone leaves if and only if every transfer of the abandoned blocks is re-included as it
was.  The blocks, the transactions and the logs always converge.
-/
theorem reingest_converges_iff {d : Int} {low abandoned canonical : List BlockBundle}
    {ts us vs : List Txn} {s₁ s₂ s₃ s : Store} (hlow : ∀ b ∈ low, b.block.height < d)
    (hhigh : ∀ b ∈ abandoned, d ≤ b.block.height) (hA : InOrder (low ++ abandoned))
    (hB : InOrder (low ++ canonical)) (hts : Writes ts (low ++ abandoned))
    (hus : Writes us canonical) (hvs : Writes vs (low ++ canonical))
    (hingest : Committed ts s₁) (hrewind : rewindTx d s₁ = .ok s₂)
    (hreingest : forEach Txn.run us s₂ = .ok s₃) (hplain : Committed vs s) :
    SameTables s₃ s ↔ Reincluded low abandoned canonical := by
  have hwA := hts.wrote hA hingest
  have hr := rewindTx_rewoundTo hrewind
  have hw := hus.wrote hB.of_append_right hreingest
  have hwB := hvs.wrote hB hplain
  obtain ⟨hblocks, htxs, hlogs⟩ := rewound_same hlow hhigh hA hwA hr
  have hblocks' : Table.Same s₃.blocks s.blocks := by
    refine (hw.blocks.trans (hblocks.insertAll _)).trans (Table.Same.trans ?_ hwB.blocks.symm)
    rw [List.map_append, ← Table.insertAll_append]
    exact Table.Same.refl _
  have htxs' : Table.Same s₃.transactions s.transactions := by
    refine (hw.transactions.trans (htxs.insertAll _)).trans
      (Table.Same.trans ?_ hwB.transactions.symm)
    rw [List.flatMap_append, ← Table.insertAll_append]
    exact Table.Same.refl _
  have hlogs' : Table.Same s₃.logs s.logs := by
    refine (hw.logs.trans (hlogs.insertAll _)).trans (Table.Same.trans ?_ hwB.logs.symm)
    rw [List.flatMap_append, ← Table.insertAll_append]
    exact Table.Same.refl _
  -- Key by key: what the transfers hold after the rewind, and what they should hold.
  have hleft : ∀ k, s₃.tokenTransfers.find? k =
      ((firstTransfer low k).or (firstTransfer abandoned k)).or (firstTransfer canonical k) := by
    intro k
    rw [hw.tokenTransfers, Table.find?_insertAll, hr.tokenTransfers, hwA.tokenTransfers,
      Table.find?_insertAll, List.flatMap_append, List.find?_append]
    rfl
  have hright : ∀ k, s.tokenTransfers.find? k =
      (firstTransfer low k).or (firstTransfer canonical k) := by
    intro k
    rw [hwB.tokenTransfers, Table.find?_insertAll, List.flatMap_append, List.find?_append]
    rfl
  constructor
  · intro hsame k t hlowk hk
    have heq := hsame.tokenTransfers k
    rw [hleft, hright, hlowk, hk] at heq
    exact heq.symm
  · intro hall
    refine ⟨hblocks', htxs', hlogs', fun k => ?_⟩
    rw [hleft, hright]
    rcases hlowk : firstTransfer low k with _ | t
    · rcases hk : firstTransfer abandoned k with _ | t
      · rfl
      · rw [hall k t hlowk hk]
        rfl
    · rfl

/-! ### An abandoned transfer -/

/-- A `Transfer` log of one unit, emitted in block 0 by the transaction with the hash `ff..ff`. -/
def transferLog : RpcLog where
  address := Vector.replicate 20 1
  topics := [transferSelector, Vector.replicate 32 2, Vector.replicate 32 3]
  data := List.replicate 31 0 ++ [1]
  blockNumber := some 0
  blockHash := none
  transactionHash := some (Vector.replicate 32 255)
  logIndex := some 0

def transferTx : NativeBlockTx := bareTx (hexEncode (List.replicate 32 255)) "0xann" "0xbob"

theorem inOrder_genesis {hash : String} {txs : List NativeBlockTx} {logs : List RpcLog}
    {b : BlockBundle} (h : assemble (bareBlock 0 hash txs) logs = .ok b)
    (hlogs : ∀ l ∈ b.logs, l.blockHeight = 0) : InOrder [b] := by
  obtain ⟨hwf, hheight, -⟩ := assemble_ok h
  refine ⟨fun b' hb => ?_, List.pairwise_singleton _ _⟩
  obtain rfl := List.mem_singleton.mp hb
  exact ⟨hwf, fun l hl => (hlogs l hl).trans hheight.symm⟩

/-- Three versions of block 0: two with the transfer and one without transactions. -/
def transferIn : BlockBundle :=
  valueOf (assemble (bareBlock 0 "a0" [transferTx]) [transferLog]) (by decide +kernel)

def transferAgain : BlockBundle :=
  valueOf (assemble (bareBlock 0 "b0" [transferTx]) [transferLog]) (by decide +kernel)

def noTransfer : BlockBundle :=
  valueOf (assemble (bareBlock 0 "b0" []) []) (by decide +kernel)

theorem inOrder_transferIn : InOrder [transferIn] :=
  inOrder_genesis (eq_valueOf _) (by decide +kernel)

theorem inOrder_transferAgain : InOrder [transferAgain] :=
  inOrder_genesis (eq_valueOf _) (by decide +kernel)

theorem inOrder_noTransfer : InOrder [noTransfer] :=
  inOrder_genesis (eq_valueOf _) (by decide +kernel)

theorem writes_single (b : BlockBundle) : Writes [.writeBlock b] [b] :=
  ⟨by simp [Txn.Forward], rfl⟩

/-- The store after the one version is written, rewound, and the other one written. -/
def rewritten (one other : BlockBundle) : Except DbError Store := do
  let s₁ ← forEach Txn.run [.writeBlock one] .empty
  let s₂ ← rewindTx 0 s₁
  forEach Txn.run [.writeBlock other] s₂

/-- What is left of the version with the transfer, and what there should be. -/
def stranded : Store := valueOf (rewritten transferIn noTransfer) (by decide +kernel)
def expected : Store :=
  valueOf (forEach Txn.run [.writeBlock noTransfer] .empty) (by decide +kernel)

/--
Block 0 is written with its transfer, rewound, and written again as a block without
transactions: the transfer of the abandoned block is still stored.
-/
theorem abandoned_transfer_survives :
    ∃ d low abandoned canonical ts us vs s₁ s₂ s₃ s,
      (∀ b ∈ low, b.block.height < d) ∧ (∀ b ∈ abandoned, d ≤ b.block.height) ∧
      InOrder (low ++ abandoned) ∧ InOrder (low ++ canonical) ∧
      Writes ts (low ++ abandoned) ∧ Writes us canonical ∧ Writes vs (low ++ canonical) ∧
      Committed ts s₁ ∧ rewindTx d s₁ = .ok s₂ ∧ forEach Txn.run us s₂ = .ok s₃ ∧
      Committed vs s ∧ ¬ SameTables s₃ s := by
  have hrewritten : rewritten transferIn noTransfer = .ok stranded := eq_valueOf _
  have hplain : Committed [.writeBlock noTransfer] expected := eq_valueOf _
  obtain ⟨s₁, hingest, h⟩ := bind_ok.mp hrewritten
  obtain ⟨s₂, hrewind, hreingest⟩ := bind_ok.mp h
  refine ⟨0, [], [transferIn], [noTransfer], _, _, _, s₁, s₂, stranded, expected, by simp,
    by decide +kernel, inOrder_transferIn, inOrder_noTransfer, writes_single _, writes_single _,
    writes_single _, hingest, hrewind, hreingest, hplain, fun hsame => ?_⟩
  have hlength : stranded.tokenTransfers.rows.length ≠ expected.tokenTransfers.rows.length := by
    decide +kernel
  exact hlength hsame.tokenTransfers.perm.length_eq

/-- A transfer that is re-included as it was does no harm. -/
theorem reingest_converges_transfer : ∃ s₃ s, rewritten transferIn transferAgain = .ok s₃ ∧
    Committed [.writeBlock transferAgain] s ∧ SameTables s₃ s := by
  have hleft : (rewritten transferIn transferAgain).toOption.isSome = true := by decide +kernel
  have hright : (forEach Txn.run [.writeBlock transferAgain] .empty).toOption.isSome = true := by
    decide +kernel
  obtain ⟨s₁, hingest, h⟩ := bind_ok.mp (eq_valueOf hleft)
  obtain ⟨s₂, hrewind, hreingest⟩ := bind_ok.mp h
  refine ⟨_, _, eq_valueOf hleft, eq_valueOf hright, ?_⟩
  have hlow : ∀ b ∈ ([] : List BlockBundle), b.block.height < 0 := by simp
  have hhigh : ∀ b ∈ [transferIn], 0 ≤ b.block.height := by decide +kernel
  refine (reingest_converges_iff hlow hhigh inOrder_transferIn inOrder_transferAgain
    (writes_single _) (writes_single _) (writes_single _) hingest hrewind hreingest
    (eq_valueOf hright)).mpr ?_
  intro k t _ ht
  have hsame : transferIn.tokenTransfers = transferAgain.tokenTransfers := by decide +kernel
  unfold firstTransfer at ht ⊢
  rw [List.flatMap_singleton] at ht ⊢
  rw [← hsame]
  exact ht

end SentrixIndexer
