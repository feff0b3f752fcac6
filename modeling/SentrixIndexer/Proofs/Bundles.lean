/-
What a fetched bundle looks like.

A bundle is assembled from one block response and one list of logs, so its parts fit
together: every transaction carries the height of the block and its position in it,
the block row counts them, every log belongs to one of them, and the transfers are
the decoded logs.  The height of a log is the one the node put on it, and nothing in
the code compares it with the block's.
-/
import SentrixIndexer.Proofs.Statements
import SentrixIndexer.Sync.Backfill

namespace SentrixIndexer

/-! ### Conversions -/

theorem toDomainBlockFromNative_ok {b : NativeBlockResponse} {d : Block}
    (h : toDomainBlockFromNative b = .ok d) :
    d.height = b.index ∧ 0 ≤ d.height ∧ d.txCount = b.transactions.length ∧
      d.hash = with0x b.hash := by
  unfold toDomainBlockFromNative at h
  by_cases hneg : b.index < 0
  · simp [hneg, bind, Except.bind] at h
  · by_cases hcount : i32Max < (b.transactions.length : Int)
    · simp [hneg, hcount, bind, Except.bind] at h
    · simp only [hneg, hcount, if_false] at h
      obtain rfl := Except.ok.inj h
      exact ⟨rfl, Int.not_lt.mp hneg, rfl, rfl⟩

theorem convertNativeTxs_ok {height : Int} {ts : List NativeBlockTx} :
    ∀ {idx : Nat} {txs : List Transaction}, convertNativeTxs height idx ts = .ok txs →
      txs.length = ts.length ∧ (∀ t ∈ txs, t.blockHeight = height ∧ (idx : Int) ≤ t.txIndex) ∧
      txs.Pairwise (fun a b => a.txIndex < b.txIndex) := by
  induction ts with
  | nil =>
      intro idx txs h
      obtain rfl := Except.ok.inj h
      exact ⟨rfl, fun t ht => absurd ht (by simp), List.Pairwise.nil⟩
  | cons t rest ih =>
      intro idx txs h
      unfold convertNativeTxs at h
      obtain ⟨tx, htx, h⟩ := bind_ok.mp h
      obtain ⟨txs', htxs, h⟩ := bind_ok.mp h
      obtain rfl := Except.ok.inj h
      obtain ⟨-, ⟨hheight, hidx, -⟩, -⟩ := convertNativeTx_ok htx
      obtain ⟨hlen, hall, hsorted⟩ := ih htxs
      refine ⟨by simp [hlen], ?_, ?_⟩
      · intro t' ht'
        rcases List.mem_cons.mp ht' with rfl | hmem
        · exact ⟨hheight, by omega⟩
        · obtain ⟨hh, hi⟩ := hall t' hmem
          exact ⟨hh, by omega⟩
      · rw [List.pairwise_cons]
        refine ⟨fun t' ht' => ?_, hsorted⟩
        obtain ⟨-, hi⟩ := hall t' ht'
        omega

theorem convertNativeTxs_hashes {height : Int} {ts : List NativeBlockTx} :
    ∀ {idx : Nat} {txs : List Transaction}, convertNativeTxs height idx ts = .ok txs →
      txs.map Transaction.hash = ts.map fun t => with0x t.txid := by
  induction ts with
  | nil =>
      intro idx txs h
      obtain rfl := Except.ok.inj h
      rfl
  | cons t rest ih =>
      intro idx txs h
      unfold convertNativeTxs at h
      obtain ⟨tx, htx, h⟩ := bind_ok.mp h
      obtain ⟨txs', htxs, h⟩ := bind_ok.mp h
      obtain rfl := Except.ok.inj h
      rw [List.map_cons, List.map_cons, ih htxs, (convertNativeTx_ok htx).2.2.1]

/-- Every converted log is the image of one of the logs. -/
theorem mapM_toDomainLog_ok {logs : List RpcLog} :
    ∀ {ds : List Log}, logs.mapM toDomainLog = .ok ds →
      ∀ d ∈ ds, ∃ l ∈ logs, toDomainLog l = .ok d := by
  induction logs with
  | nil =>
      intro ds h d hd
      rw [List.mapM_nil] at h
      obtain rfl := Except.ok.inj h
      exact absurd hd (by simp)
  | cons l rest ih =>
      intro ds h d hd
      rw [List.mapM_cons] at h
      obtain ⟨d₀, hd₀, h⟩ := bind_ok.mp h
      obtain ⟨ds', hds, h⟩ := bind_ok.mp h
      obtain rfl := Except.ok.inj h
      rcases List.mem_cons.mp hd with rfl | hmem
      · exact ⟨l, List.mem_cons_self .., hd₀⟩
      · obtain ⟨l', hl', hd'⟩ := ih hds d hmem
        exact ⟨l', List.mem_cons_of_mem _ hl', hd'⟩

theorem toDomainLog_height {l : RpcLog} {d : Log} (h : toDomainLog l = .ok d) :
    ∃ n, l.blockNumber = some n ∧ d.blockHeight = heightOfU64 n := by
  unfold toDomainLog at h
  obtain ⟨n, hn, h⟩ := bind_ok.mp h
  obtain ⟨rawIndex, -, h⟩ := bind_ok.mp h
  rcases hb : l.blockNumber with _ | m
  · rw [hb] at hn
    exact absurd hn (by simp)
  · rw [hb] at hn
    obtain rfl := Except.ok.inj hn
    refine ⟨m, rfl, ?_⟩
    by_cases hidx : i32Max < (rawIndex.toNat : Int)
    · simp [hidx, bind, Except.bind] at h
    · simp only [hidx, if_false] at h
      obtain ⟨txHash, -, h⟩ := bind_ok.mp h
      obtain rfl := Except.ok.inj h
      rfl

/-- A decoded transfer carries the position of its log. -/
theorem decodeTransfer_position {l : Log} {t : TokenTransfer} (h : decodeTransfer l = some t) :
    t.blockHeight = l.blockHeight ∧ t.txHash = l.txHash ∧ t.logIndex = l.logIndex := by
  unfold decodeTransfer at h
  by_cases htopic : l.topic0 = some transferTopic0
  · simp only [htopic, ne_eq, not_true_eq_false, if_false] at h
    obtain ⟨fromAddr, -, h⟩ := Option.bind_eq_some_iff.mp h
    obtain ⟨toAddr, -, h⟩ := Option.bind_eq_some_iff.mp h
    obtain ⟨payload, -, h⟩ := Option.bind_eq_some_iff.mp h
    obtain rfl := Option.some.inj h
    exact ⟨rfl, rfl, rfl⟩
  · simp [htopic] at h

/-! ### Bundles -/

/-- The parts of the bundle fit together. -/
structure WellFormed (b : BlockBundle) : Prop where
  nonneg : 0 ≤ b.block.height
  txCount : b.block.txCount = b.txs.length
  txHeight : ∀ t ∈ b.txs, t.blockHeight = b.block.height
  txSorted : b.txs.Pairwise fun t u => t.txIndex < u.txIndex
  backed : ∀ l ∈ b.logs, ∃ t ∈ b.txs, t.hash = l.txHash
  transfers : b.tokenTransfers = b.logs.filterMap decodeTransfer

/-- A well-formed bundle whose logs carry its height. -/
structure Placed (b : BlockBundle) : Prop extends WellFormed b where
  logHeight : ∀ l ∈ b.logs, l.blockHeight = b.block.height

theorem orInvalid_ok {α : Type} {x : Except ConvertError α} {a : α} (h : orInvalid x = .ok a) :
    x = .ok a := by
  cases x with
  | error e => exact absurd h (by simp [orInvalid, Except.mapError])
  | ok b => exact congrArg Except.ok (Except.ok.inj h)

/-- **What `assemble` makes of a block and its logs.** -/
theorem assemble_ok {block : NativeBlockResponse} {logs : List RpcLog} {b : BlockBundle}
    (h : assemble block logs = .ok b) :
    WellFormed b ∧ b.block.height = block.index ∧
      ∀ d ∈ b.logs, ∃ l ∈ logs, toDomainLog l = .ok d := by
  unfold assemble at h
  obtain ⟨domBlock, hblock, h⟩ := bind_ok.mp h
  obtain ⟨domTxs, htxs, h⟩ := bind_ok.mp h
  obtain ⟨domLogs, hlogs, h⟩ := bind_ok.mp h
  obtain rfl := Except.ok.inj h
  obtain ⟨hheight, hnonneg, hcount, -⟩ := toDomainBlockFromNative_ok (orInvalid_ok hblock)
  obtain ⟨hlen, hall, hsorted⟩ := convertNativeTxs_ok (orInvalid_ok htxs)
  refine ⟨⟨hnonneg, ?_, ?_, hsorted, ?_, rfl⟩, hheight, ?_⟩
  · show domBlock.txCount = domTxs.length
    rw [hcount, hlen]
  · intro t ht
    exact (hall t ht).1.trans hheight.symm
  · intro l hl
    have hbacked := (List.mem_filter.mp hl).2
    obtain ⟨t, ht, heq⟩ := List.any_eq_true.mp hbacked
    exact ⟨t, ht, of_decide_eq_true heq⟩
  · intro d hd
    exact mapM_toDomainLog_ok (orInvalid_ok hlogs) d (List.mem_filter.mp hd).1

theorem assemble_hashes {block : NativeBlockResponse} {logs : List RpcLog} {b : BlockBundle}
    (h : assemble block logs = .ok b) :
    b.txs.map Transaction.hash = block.transactions.map fun t => with0x t.txid := by
  unfold assemble at h
  obtain ⟨domBlock, -, h⟩ := bind_ok.mp h
  obtain ⟨domTxs, htxs, h⟩ := bind_ok.mp h
  obtain ⟨domLogs, -, h⟩ := bind_ok.mp h
  obtain rfl := Except.ok.inj h
  exact convertNativeTxs_hashes (orInvalid_ok htxs)

/-- A transfer of the bundle comes from one of its logs. -/
theorem WellFormed.transfer {b : BlockBundle} (h : WellFormed b) {t : TokenTransfer}
    (ht : t ∈ b.tokenTransfers) : ∃ l ∈ b.logs, decodeTransfer l = some t := by
  rw [h.transfers] at ht
  exact List.mem_filterMap.mp ht

theorem Placed.transferHeight {b : BlockBundle} (h : Placed b) {t : TokenTransfer}
    (ht : t ∈ b.tokenTransfers) : t.blockHeight = b.block.height := by
  obtain ⟨l, hl, hd⟩ := h.transfer ht
  exact (decodeTransfer_position hd).1.trans (h.logHeight l hl)

end SentrixIndexer
