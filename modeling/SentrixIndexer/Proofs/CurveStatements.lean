/-
What the CoinBlast statements do to the tables.

A statement that succeeds is described by the store it leaves: an insert adds its row
unless the key is taken, a trade adds its row and changes the row of its curve, or, if its
key is taken, does nothing at all.
-/
import SentrixIndexer.Coinblast.Handlers
import SentrixIndexer.Proofs.Statements

namespace SentrixIndexer

open Relational

variable {s s' : CbStore} {abi : Abi} {l : RpcLog}

/-! ### Single statements -/

theorem insertToken_ok {t : InsertCbToken} {u : Unit} (h : CbTokens.insert t s = .ok (u, s')) :
    s' = { s with tokens := s.tokens.insertNew t.row } := by
  unfold CbTokens.insert at h
  by_cases hnul : HasNul t.name ∨ HasNul t.symbol
  · rw [if_pos hnul] at h
    exact absurd h (by simp)
  · rw [if_neg hnul] at h
    by_cases hstored : s.tokens.contains t.curveAddress = true
    · rw [if_pos hstored] at h
      obtain ⟨-, rfl⟩ := Prod.mk.inj (Except.ok.inj h)
      rw [Table.insertNew_of_contains (v := t.row) hstored]
    · rw [if_neg hstored] at h
      split at h
      · exact absurd h (by simp)
      · exact (Prod.mk.inj (Except.ok.inj h)).2.symm

/-- A row that is changed only under its own key leaves the other tables alone. -/
theorem bumpTradeAggregate_ok {curve : Address} {srx lastPrice : Wei} {u : Unit}
    (h : CbTokens.bumpTradeAggregate curve srx lastPrice s = .ok (u, s')) :
    s' = { s with
      tokens := s.tokens.modify curve (CbTokens.bumped srx lastPrice)
        (CbTokens.curveAddress_bumped srx lastPrice) } := by
  unfold CbTokens.bumpTradeAggregate at h
  rcases hrow : s.tokens.find? curve with _ | r
  · rw [hrow] at h
    obtain ⟨-, rfl⟩ := Prod.mk.inj (Except.ok.inj h)
    rw [Table.modify_of_find?_none hrow]
  · rw [hrow] at h
    simp only at h
    split at h
    · exact absurd h (by simp)
    · split at h
      · exact absurd h (by simp)
      · exact (Prod.mk.inj (Except.ok.inj h)).2.symm

/-- **A trade is written as a whole or not at all.** -/
theorem insertThen_ok {t : CbTrade} {update : CbStatement Unit} {b : Bool}
    (h : insertThen t update s = .ok (b, s')) :
    (s.trades.contains t.key = true ∧ b = false ∧ s' = s) ∨
    (s.trades.contains t.key = false ∧ b = true ∧
      ∃ u, update { s with trades := s.trades.insertNew t } = .ok (u, s')) := by
  unfold insertThen CbTrades.insert at h
  by_cases hstored : s.trades.contains t.key = true
  · simp only [hstored] at h
    obtain ⟨rfl, rfl⟩ := Prod.mk.inj (Except.ok.inj h)
    refine Or.inl ⟨hstored, rfl, ?_⟩
    rw [Table.insertNew_of_contains hstored]
  · rw [Bool.not_eq_true] at hstored
    refine Or.inr ⟨hstored, ?_⟩
    rcases hu : update { s with trades := s.trades.insertNew t } with e | ⟨u, s₁⟩
    · simp [hstored, hu, bind, Except.bind] at h
    · simp [hstored, hu, bind, Except.bind, pure, Except.pure] at h
      obtain ⟨rfl, rfl⟩ := h
      exact ⟨rfl, u, rfl⟩

/-! ### Whole transactions -/

/-- The trade a transaction writes, and what it makes of the row of the trade's curve. -/
def CbTxn.trade? : CbTxn → Option CbTrade
  | .writeTrade t _ _ => some t
  | .writeGraduated t => some t
  | _ => none

/-- A transaction that succeeds. -/
inductive TxnEffect (s : CbStore) : CbTxn → CbStore → Prop
  | token (t : InsertCbToken) :
      TxnEffect s (.insertToken t) { s with tokens := s.tokens.insertNew t.row }
  | old {t : CbTxn} {trade : CbTrade} (htrade : t.trade? = some trade)
      (hstored : s.trades.contains trade.key = true) : TxnEffect s t s
  | trade (t : CbTrade) (srx lastPrice : Wei) (hnew : s.trades.contains t.key = false) :
      TxnEffect s (.writeTrade t srx lastPrice)
        { s with
          trades := s.trades.insertNew t
          tokens := s.tokens.modify t.curveAddress (CbTokens.bumped srx lastPrice)
            (CbTokens.curveAddress_bumped srx lastPrice) }
  | graduated (t : CbTrade) (hnew : s.trades.contains t.key = false) :
      TxnEffect s (.writeGraduated t)
        { s with
          trades := s.trades.insertNew t
          tokens := s.tokens.modify t.curveAddress (fun r => { r with isGraduated := true })
            fun _ => rfl }
  | cursor (height : Int) {s' : CbStore} (htokens : s'.tokens = s.tokens)
      (htrades : s'.trades = s.trades) : TxnEffect s (.setCursor height) s'

/-- **What a transaction that succeeds has done.** -/
theorem CbTxn.run_effect {t : CbTxn} {a : t.Result} (h : t.run s = .ok (a, s')) :
    TxnEffect s t s' := by
  cases t with
  | insertToken t =>
      rw [insertToken_ok h]
      exact .token t
  | writeTrade t srx lastPrice =>
      rcases insertThen_ok h with ⟨hstored, -, rfl⟩ | ⟨hnew, -, u, hupdate⟩
      · exact .old rfl hstored
      · rw [bumpTradeAggregate_ok hupdate]
        exact .trade t srx lastPrice hnew
  | writeGraduated t =>
      rcases insertThen_ok h with ⟨hstored, -, rfl⟩ | ⟨hnew, -, u, hupdate⟩
      · exact .old rfl hstored
      · obtain ⟨-, rfl⟩ := Prod.mk.inj (Except.ok.inj hupdate)
        exact .graduated t hnew
  | setCursor height =>
      obtain ⟨-, rfl⟩ := Prod.mk.inj (Except.ok.inj h)
      exact .cursor height rfl rfl

/-- Rows are never deleted. -/
theorem TxnEffect.contains {t : CbTxn} (h : TxnEffect s t s') {a : Address}
    (ha : s.tokens.contains a = true) : s'.tokens.contains a = true := by
  cases h with
  | token t =>
      rw [Table.contains_insertNew, ha]
      rfl
  | old htrade hstored => exact ha
  | trade t srx lastPrice hnew => simpa using ha
  | graduated t hnew => simpa using ha
  | cursor height htokens htrades =>
      rw [htokens]
      exact ha

theorem TxnEffect.trades_contains {t : CbTxn} (h : TxnEffect s t s') {key : Hash × Int}
    (hkey : s.trades.contains key = true) : s'.trades.contains key = true := by
  cases h with
  | token t => exact hkey
  | old htrade hstored => exact hkey
  | trade t srx lastPrice hnew =>
      rw [Table.contains_insertNew, hkey]
      rfl
  | graduated t hnew =>
      rw [Table.contains_insertNew, hkey]
      rfl
  | cursor height htokens htrades =>
      rw [htrades]
      exact hkey

/-- The trade of a transaction is stored after it. -/
theorem trades_contains_of_effect {t : CbTxn} (h : TxnEffect s t s') {trade : CbTrade}
    (ht : t.trade? = some trade) : s'.trades.contains trade.key = true := by
  cases h with
  | token t => exact absurd ht (by simp [CbTxn.trade?])
  | old htrade hstored =>
      obtain rfl := Option.some.inj (ht.symm.trans htrade)
      exact hstored
  | trade t srx lastPrice hnew =>
      obtain rfl := Option.some.inj ht
      rw [Table.contains_insertNew]
      simp
  | graduated t hnew =>
      obtain rfl := Option.some.inj ht
      rw [Table.contains_insertNew]
      simp
  | cursor height htokens htrades => exact absurd ht (by simp [CbTxn.trade?])

/-- Only its own transaction moves the cursor. -/
theorem TxnEffect.cursor_eq {t : CbTxn} (h : TxnEffect s t s')
    (ht : ∀ height, t ≠ .setCursor height) : s'.cursor = s.cursor := by
  cases h with
  | token t => rfl
  | old htrade hstored => rfl
  | trade t srx lastPrice hnew => rfl
  | graduated t hnew => rfl
  | cursor height htokens htrades => exact absurd rfl (ht height)

theorem cursor_setCursor {height : Int} (h : SentrixIndexer.setCursor height s = .ok ((), s')) :
    s'.cursor = some height := by
  obtain ⟨-, rfl⟩ := Prod.mk.inj (Except.ok.inj h)
  rw [CbStore.cursor, Table.find?_upsert, if_pos rfl]
  rcases s.metaRows.find? metaKeyCoinblastCursor with _ | r <;> rfl

/-! ### Rows made of logs -/

theorem requireBlockNumber_ok {block : Int} :
    requireBlockNumber l = .ok block ↔
      ∃ n, l.blockNumber = some n ∧ (n.toNat : Int) ≤ i64Max ∧ block = n.toNat := by
  unfold requireBlockNumber
  rcases l.blockNumber with _ | n
  · simp
  · by_cases hbig : i64Max < n.toNat
    · simp [hbig, Int.not_le.mpr hbig]
    · simp [hbig, Int.not_lt.mp hbig, eq_comm]

theorem requireLogIndex_ok {index : Int} :
    requireLogIndex l = .ok index ↔
      ∃ n, l.logIndex = some n ∧ (n.toNat : Int) ≤ i32Max ∧ index = n.toNat := by
  unfold requireLogIndex
  rcases l.logIndex with _ | n
  · simp
  · by_cases hbig : i32Max < n.toNat
    · simp [hbig, Int.not_le.mpr hbig]
    · simp [hbig, Int.not_lt.mp hbig, eq_comm]

theorem requireTxHash_ok {txHash : Hash} :
    requireTxHash l = .ok txHash ↔ ∃ h, l.transactionHash = some h ∧ txHash = hex0x h.toList := by
  unfold requireTxHash
  rcases l.transactionHash with _ | h
  · simp
  · simp [eq_comm]

theorem decodeLog_ok {α : Type} {decoder : List B256 → List UInt8 → Except String α} {a : α} :
    decodeLog decoder l = .ok a ↔ decoder l.topics l.data = .ok a := by
  unfold decodeLog
  rcases decoder l.topics l.data with e | b
  · simp [Except.mapError]
  · simp [Except.mapError]

theorem curveCreatedRow_ok {row : InsertCbToken}
    (h : curveCreatedRow abi l = .ok row) :
    ∃ event, decodeLog abi.decodeCurveCreated l = .ok event ∧
      row.curveAddress = hexAddr event.curve := by
  unfold curveCreatedRow at h
  obtain ⟨block, -, h⟩ := bind_ok.mp h
  obtain ⟨txHash, -, h⟩ := bind_ok.mp h
  obtain ⟨event, hevent, h⟩ := bind_ok.mp h
  refine ⟨event, hevent, ?_⟩
  rw [← Except.ok.inj h]

theorem tradeRow_ok {kind : TradeKind} {fields : RpcLog → Except CbError TradeFields}
    {t : CbTrade} (h : tradeRow kind fields l = .ok t) :
    t.curveAddress = hexAddr l.address ∧ t.kind = kind := by
  unfold tradeRow at h
  obtain ⟨block, -, h⟩ := bind_ok.mp h
  obtain ⟨logIndex, -, h⟩ := bind_ok.mp h
  obtain ⟨txHash, -, h⟩ := bind_ok.mp h
  obtain ⟨event, -, h⟩ := bind_ok.mp h
  rw [← Except.ok.inj h]
  exact ⟨rfl, rfl⟩

/-- The row stands where its log does. -/
theorem tradeRow_place {kind : TradeKind} {fields : RpcLog → Except CbError TradeFields}
    {t : CbTrade} (h : tradeRow kind fields l = .ok t) :
    ∃ n i, l.blockNumber = some n ∧ l.logIndex = some i ∧ t.blockNumber = n.toNat ∧
      t.logIndex = i.toNat := by
  unfold tradeRow at h
  obtain ⟨block, hblock, h⟩ := bind_ok.mp h
  obtain ⟨logIndex, hindex, h⟩ := bind_ok.mp h
  obtain ⟨txHash, -, h⟩ := bind_ok.mp h
  obtain ⟨event, -, h⟩ := bind_ok.mp h
  obtain ⟨n, hn, -, rfl⟩ := requireBlockNumber_ok.mp hblock
  obtain ⟨i, hi, -, rfl⟩ := requireLogIndex_ok.mp hindex
  rw [← Except.ok.inj h]
  exact ⟨n, i, hn, hi, rfl, rfl⟩

/-- **What is written for a curve event**: a deal or a graduation. -/
theorem curveTxn_ok {t0 : B256} {t : CbTxn} (h : curveTxn abi t0 l = .ok t) :
    ∃ kind fields row, tradeRow kind fields l = .ok row ∧
      (kind ≠ .graduated ∧ t = row.bumping ∨ kind = .graduated ∧ t = .writeGraduated row) := by
  unfold curveTxn at h
  split at h
  · obtain ⟨row, hrow, h⟩ := bind_ok.mp h
    exact ⟨_, _, row, hrow, Or.inl ⟨by simp, (Except.ok.inj h).symm⟩⟩
  · split at h
    · obtain ⟨row, hrow, h⟩ := bind_ok.mp h
      exact ⟨_, _, row, hrow, Or.inl ⟨by simp, (Except.ok.inj h).symm⟩⟩
    · obtain ⟨row, hrow, h⟩ := bind_ok.mp h
      exact ⟨_, _, row, hrow, Or.inr ⟨rfl, (Except.ok.inj h).symm⟩⟩

theorem curveTxn_cursor {t0 : B256} {t : CbTxn} (h : curveTxn abi t0 l = .ok t) :
    (∀ row, t ≠ .insertToken row) ∧ ∀ height, t ≠ .setCursor height := by
  obtain ⟨kind, fields, row, -, ⟨-, rfl⟩ | ⟨-, rfl⟩⟩ := curveTxn_ok h
  · simp [CbTrade.bumping]
  · simp

end SentrixIndexer
