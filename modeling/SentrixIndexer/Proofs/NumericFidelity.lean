/-
What the conversions do to numbers.

A row is to denote the numbers of the response it was made of, and a number its column
cannot hold is to fail the conversion.  The lengths, positions, indexes and nonces are
narrowed by a checked conversion.  The height of a log is not: it is cast, so a height from
`2 ^ 63` on becomes a negative one.
-/
import SentrixIndexer.Proofs.Bundles

namespace SentrixIndexer

/-! ### Casting a height -/

theorem asI64_toNat {n : UInt64} (h : (n.toNat : Int) ≤ i64Max) : asI64 n = n.toNat := by
  unfold asI64 i64Max at *
  rw [BitVec.toInt_eq_toNat_cond]
  simp only [UInt64.toNat_toBitVec]
  rw [if_pos (by omega)]

/-! ### Logs -/

variable {rpc : RpcLog} {row : Log} {block : NativeBlockResponse}

/-- The numbers of the log fit the columns they go to. -/
structure RpcLog.Fits (rpc : RpcLog) : Prop where
  blockNumber : ∀ n, rpc.blockNumber = some n → (n.toNat : Int) ≤ i64Max
  logIndex : ∀ n, rpc.logIndex = some n → (n.toNat : Int) ≤ i32Max

/-- The row denotes the numbers of the log. -/
structure Log.Denotes (row : Log) (rpc : RpcLog) : Prop where
  blockHeight : ∃ n, rpc.blockNumber = some n ∧ row.blockHeight = n.toNat
  logIndex : ∃ n, rpc.logIndex = some n ∧ row.logIndex = n.toNat

/-- The conversion of the log is lossless or fails. -/
structure RpcLog.Lossless (rpc : RpcLog) : Prop where
  denotes : ∀ row, toDomainLog rpc = .ok row → row.Denotes rpc
  fails : ¬ rpc.Fits → ∃ e, toDomainLog rpc = .error e

/-- Everything but the block number is as the conversion asks for. -/
def RpcLog.Convertible (rpc : RpcLog) : Prop :=
  (∃ n, rpc.logIndex = some n ∧ (n.toNat : Int) ≤ i32Max) ∧ ∃ h, rpc.transactionHash = some h

private theorem elim_ok {α : Type} {o : Option α} {e : ConvertError} {a : α} :
    o.elim (.error e) .ok = Except.ok a ↔ o = some a := by
  cases o with
  | none => simp
  | some b => simp [eq_comm]

/-- **When a log is converted**, and what becomes of its numbers. -/
theorem toDomainLog_ok (h : toDomainLog rpc = .ok row) :
    rpc.Convertible ∧ (∃ n, rpc.blockNumber = some n ∧ row.blockHeight = heightOfU64 n) ∧
      ∃ n, rpc.logIndex = some n ∧ row.logIndex = n.toNat := by
  unfold toDomainLog at h
  obtain ⟨height, hheight, h⟩ := bind_ok.mp h
  obtain ⟨rawIndex, hindex, h⟩ := bind_ok.mp h
  rw [elim_ok] at hheight hindex
  by_cases hbig : i32Max < (rawIndex.toNat : Int)
  · simp [hbig, bind, Except.bind] at h
  · simp only [hbig, if_false] at h
    obtain ⟨txHash, htxHash, h⟩ := bind_ok.mp h
    rw [elim_ok] at htxHash
    obtain rfl := Except.ok.inj h
    exact ⟨⟨⟨rawIndex, hindex, by omega⟩, txHash, htxHash⟩, ⟨height, hheight, rfl⟩,
      rawIndex, hindex, rfl⟩

theorem toDomainLog_of_convertible (h : rpc.Convertible) {n : UInt64}
    (hn : rpc.blockNumber = some n) : ∃ row, toDomainLog rpc = .ok row := by
  obtain ⟨⟨rawIndex, hindex, hsmall⟩, txHash, htxHash⟩ := h
  have hfits : ¬ i32Max < (rawIndex.toNat : Int) := by omega
  unfold toDomainLog
  rw [hn, hindex, htxHash]
  simp only [Option.elim_some, bind, Except.bind, hfits, if_false]
  exact ⟨_, rfl⟩

/-- **A log is converted without loss, or not at all**, exactly when its block number fits or
something else of it does not. -/
theorem lossless_log_iff :
    rpc.Lossless ↔ (∀ n, rpc.blockNumber = some n → (n.toNat : Int) ≤ i64Max) ∨
      ¬ rpc.Convertible := by
  constructor
  · intro h
    by_cases hconv : rpc.Convertible
    · refine Or.inl fun n hn => ?_
      obtain ⟨row, hrow⟩ := toDomainLog_of_convertible hconv hn
      by_contra hbig
      obtain ⟨e, he⟩ := h.fails fun hfits => hbig (hfits.blockNumber n hn)
      rw [hrow] at he
      exact absurd he (by simp)
    · exact Or.inr hconv
  · intro h
    refine ⟨fun row hrow => ?_, fun hfits => ?_⟩
    · obtain ⟨hconv, ⟨n, hn, hheight⟩, hindex⟩ := toDomainLog_ok hrow
      have hsmall := h.resolve_right (not_not_intro hconv) n hn
      exact ⟨⟨n, hn, hheight.trans (asI64_toNat hsmall)⟩, hindex⟩
    · rcases hrow : toDomainLog rpc with e | row
      · exact ⟨e, rfl⟩
      · obtain ⟨hconv, -, -⟩ := toDomainLog_ok hrow
        refine absurd ⟨h.resolve_right (not_not_intro hconv), fun n hn => ?_⟩ hfits
        obtain ⟨⟨n', hn', hsmall⟩, -⟩ := hconv
        obtain rfl := Option.some.inj (hn.symm.trans hn')
        exact hsmall

/-! ### Blocks and transactions -/

/-- The row denotes the numbers of the transaction at position `idx`. -/
structure Transaction.Denotes (row : Transaction) (height : Int) (idx : Nat)
    (t : NativeBlockTx) : Prop where
  blockHeight : row.blockHeight = height
  txIndex : row.txIndex = idx
  nonce : row.nonce = t.nonce.toNat
  value : row.value.toNat = t.amount.toNat
  fee : row.fee.toNat = t.fee.toNat

/-- The conversions of the block are lossless or fail. -/
structure NativeBlockResponse.Lossless (block : NativeBlockResponse) : Prop where
  height : ∀ row, toDomainBlockFromNative block = .ok row → row.height = block.index
  txCount : ∀ row, toDomainBlockFromNative block = .ok row →
    row.txCount = block.transactions.length
  txs : ∀ rows, toDomainTxsFromNative block = .ok rows →
    rows.length = block.transactions.length ∧
      ∀ (i : Nat) (hrow : i < rows.length) (ht : i < block.transactions.length),
        rows[i].Denotes block.index i block.transactions[i]
  countFails : i32Max < (block.transactions.length : Int) →
    ∃ e, toDomainBlockFromNative block = .error e
  txsFail : ∀ (i : Nat) (ht : i < block.transactions.length),
    i32Max < (i : Int) ∨ i64Max < (block.transactions[i].nonce.toNat : Int) →
      ∃ e, toDomainTxsFromNative block = .error e

variable {height : Int} {idx : Nat} {t : NativeBlockTx}

private theorem toNat_ofU64 (n : UInt64) : (BitVec.ofNat 256 n.toNat).toNat = n.toNat := by
  have := n.toNat_lt
  rw [BitVec.toNat_ofNat, Nat.mod_eq_of_lt (by omega)]

/-- The numbers of a converted transaction. -/
theorem convertNativeTx_denotes {tx : Transaction} (h : convertNativeTx height idx t = .ok tx) :
    tx.Denotes height idx t ∧ (idx : Int) ≤ i32Max ∧ (t.nonce.toNat : Int) ≤ i64Max := by
  obtain ⟨hfits, ⟨hheight, hidx, hnonce, hvalue, hfee⟩, -⟩ := convertNativeTx_ok h
  exact ⟨⟨hheight, hidx, hnonce, hvalue ▸ toNat_ofU64 _, hfee ▸ toNat_ofU64 _⟩, hfits⟩

/-- The rows of the transactions from position `idx` on. -/
theorem convertNativeTxs_denotes {ts : List NativeBlockTx} :
    ∀ {idx : Nat} {rows : List Transaction}, convertNativeTxs height idx ts = .ok rows →
      rows.length = ts.length ∧
        ∀ (i : Nat) (hrow : i < rows.length) (ht : i < ts.length),
          rows[i].Denotes height (idx + i) ts[i] ∧ ((idx + i : Nat) : Int) ≤ i32Max ∧
            (ts[i].nonce.toNat : Int) ≤ i64Max := by
  induction ts with
  | nil =>
      intro idx rows h
      obtain rfl := Except.ok.inj h
      exact ⟨rfl, fun i hrow => absurd hrow (Nat.not_lt_zero i)⟩
  | cons t rest ih =>
      intro idx rows h
      unfold convertNativeTxs at h
      obtain ⟨tx, htx, h⟩ := bind_ok.mp h
      obtain ⟨txs, htxs, h⟩ := bind_ok.mp h
      obtain rfl := Except.ok.inj h
      obtain ⟨hlen, hrest⟩ := ih htxs
      refine ⟨by simp [hlen], fun i hrow ht => ?_⟩
      cases i with
      | zero => exact convertNativeTx_denotes htx
      | succ i =>
          have hi := hrest i (by simpa using hrow) (by simpa using ht)
          rw [Nat.add_right_comm, Nat.add_assoc] at hi
          exact hi

/-- **A block is always converted without loss, or not at all.** -/
theorem lossless_block (block : NativeBlockResponse) : block.Lossless where
  height row h := (toDomainBlockFromNative_ok h).1
  txCount row h := (toDomainBlockFromNative_ok h).2.2.1
  txs rows h := by
    obtain ⟨hlen, hall⟩ := convertNativeTxs_denotes h
    refine ⟨hlen, fun i hrow ht => ?_⟩
    have hi := (hall i hrow ht).1
    rwa [Nat.zero_add] at hi
  countFails hbig := by
    unfold toDomainBlockFromNative
    by_cases hneg : block.index < 0
    · simp only [hneg, if_true]
      exact ⟨_, rfl⟩
    · simp only [hneg, hbig, if_true, if_false]
      exact ⟨_, rfl⟩
  txsFail i ht hbig := by
    rcases h : toDomainTxsFromNative block with e | rows
    · exact ⟨e, rfl⟩
    · obtain ⟨hlen, hall⟩ := convertNativeTxs_denotes h
      obtain ⟨-, hidx, hnonce⟩ := hall i (by omega) ht
      rw [Nat.zero_add] at hidx
      omega

/-- **The numbers of a log and of a block reach the rows unchanged, or there is no row**,
exactly when the block number of the log is below `2 ^ 63` or something else of the log keeps
it from being converted. -/
theorem conversions_lossless_iff (rpc : RpcLog) (block : NativeBlockResponse) :
    rpc.Lossless ∧ block.Lossless ↔
      (∀ n, rpc.blockNumber = some n → n.toNat < 2 ^ 63) ∨ ¬ rpc.Convertible := by
  rw [and_iff_left (lossless_block block), lossless_log_iff]
  have hfits : ∀ n : UInt64, (n.toNat : Int) ≤ i64Max ↔ n.toNat < 2 ^ 63 := fun n => by
    unfold i64Max
    omega
  simp only [hfits]

/-- A log of block `2 ^ 63`. -/
def wrappedLog : RpcLog where
  address := Vector.replicate 20 1
  topics := []
  data := []
  blockNumber := some 0x8000000000000000
  blockHash := none
  transactionHash := some (Vector.replicate 32 255)
  logIndex := some 0

/-- **Its row is one of block `- 2 ^ 63`.** -/
theorem wrapped_height_stored :
    (∃ row, toDomainLog wrappedLog = .ok row ∧ row.blockHeight = -2 ^ 63) ∧
      ¬ ∀ (rpc : RpcLog) (block : NativeBlockResponse), rpc.Lossless ∧ block.Lossless := by
  have hrow : ∃ row, toDomainLog wrappedLog = .ok row ∧ row.blockHeight = -2 ^ 63 :=
    ⟨_, rfl, by decide⟩
  refine ⟨hrow, fun h => ?_⟩
  obtain ⟨row, hok, hheight⟩ := hrow
  obtain ⟨n, -, hn⟩ := ((h wrappedLog
    ⟨0, "", "", 0, "", 0, none, []⟩).1.denotes row hok).blockHeight
  omega

end SentrixIndexer
