/-
The CoinBlast tables and the statements issued against them.

`cb_tokens` has one row for each curve, under `curve_address`, and `token_address` is
`UNIQUE` as well.  `cb_trades` has one row for each event, under `(tx_hash, log_index)`.
Amounts are `numeric(78, 0)` columns, `trade_count` is an `integer`; text that holds a NUL
is refused before anything else is looked at.
-/
import SentrixIndexer.Coinblast.Events
import SentrixIndexer.Db

namespace SentrixIndexer

open Relational

/-! ### Rows -/

/-- Row of `cb_tokens`, without the columns no statement of the worker names. -/
structure CbToken where
  curveAddress : Address
  tokenAddress : Address
  ownerAddress : Address
  name : String
  symbol : String
  curveSupply : Wei
  graduationThreshold : Wei
  isGraduated : Bool
  createdBlock : Int
  createdTxHash : Hash
  totalVolumeSrx : Nat
  tradeCount : Nat
  lastPriceSrx : Wei
  deriving DecidableEq, Repr

/-- Row to insert into `cb_tokens`. -/
structure InsertCbToken where
  curveAddress : Address
  tokenAddress : Address
  ownerAddress : Address
  name : String
  symbol : String
  curveSupply : Wei
  graduationThreshold : Wei
  createdBlock : Int
  createdTxHash : Hash
  deriving DecidableEq, Repr

/-- The row as it is inserted: its aggregates are zero. -/
def InsertCbToken.row (t : InsertCbToken) : CbToken where
  curveAddress := t.curveAddress
  tokenAddress := t.tokenAddress
  ownerAddress := t.ownerAddress
  name := t.name
  symbol := t.symbol
  curveSupply := t.curveSupply
  graduationThreshold := t.graduationThreshold
  isGraduated := false
  createdBlock := t.createdBlock
  createdTxHash := t.createdTxHash
  totalVolumeSrx := 0
  tradeCount := 0
  lastPriceSrx := 0

inductive TradeKind
  | buy
  | sell
  | graduated
  deriving DecidableEq, Repr

/-- Row of `cb_trades`. -/
structure CbTrade where
  curveAddress : Address
  tokenAddress : Option Address
  kind : TradeKind
  traderAddress : Address
  srxAmount : Wei
  tokenAmount : Wei
  fee : Wei
  blockNumber : Int
  txHash : Hash
  logIndex : Int
  deriving DecidableEq, Repr

def CbTrade.key (t : CbTrade) : Hash × Int := (t.txHash, t.logIndex)

structure CbStore where
  tokens : Table CbToken.curveAddress
  trades : Table CbTrade.key
  metaRows : Table MetaRow.key

/-- The store right after the migrations. -/
def CbStore.empty : CbStore := ⟨.empty, .empty, .empty⟩

/-- What no row stores. -/
inductive CbDbError
  | db (e : DbError)
  /-- A `numeric(78, 0)` or `integer` value out of range. -/
  | outOfRange (column : String)
  /-- Text with a NUL. -/
  | invalidText
  deriving DecidableEq, Repr

/-- A statement: its result and the store it leaves, or why it failed. -/
abbrev CbStatement (α : Type) := CbStore → Except CbDbError (α × CbStore)

/-! ### Statements -/

/-- The bound of a `numeric(78, 0)` column. -/
def numericBound : Nat := 10 ^ 78

/-- Postgres cannot store the text. -/
def HasNul (s : String) : Prop := Char.ofNat 0 ∈ s.toList

instance (s : String) : Decidable (HasNul s) := by
  unfold HasNul
  infer_instance

namespace CbTokens

/-- `INSERT INTO cb_tokens .. ON CONFLICT (curve_address) DO NOTHING`. -/
def insert (t : InsertCbToken) : CbStatement Unit := fun s =>
  if HasNul t.name ∨ HasNul t.symbol then .error .invalidText
  else if s.tokens.contains t.curveAddress then .ok ((), s)
  else if s.tokens.rows.any fun r => r.tokenAddress = t.tokenAddress then
    .error (.db (.uniqueViolation "cb_tokens_token_address_key"))
  else .ok ((), { s with tokens := s.tokens.insertNew t.row })

/-- The row after one more trade. -/
def bumped (srx lastPrice : Wei) (r : CbToken) : CbToken :=
  { r with
    totalVolumeSrx := r.totalVolumeSrx + srx.toNat
    tradeCount := r.tradeCount + 1
    lastPriceSrx := lastPrice }

theorem curveAddress_bumped (srx lastPrice : Wei) (r : CbToken) :
    (bumped srx lastPrice r).curveAddress = r.curveAddress := rfl

/-- `UPDATE cb_tokens SET total_volume_srx = total_volume_srx + $2, trade_count = trade_count + 1,
last_price_srx = $3 WHERE curve_address = $1`. -/
def bumpTradeAggregate (curve : Address) (srx lastPrice : Wei) : CbStatement Unit := fun s =>
  match s.tokens.find? curve with
  | none => .ok ((), s)
  | some r =>
      if numericBound ≤ r.totalVolumeSrx + srx.toNat then .error (.outOfRange "total_volume_srx")
      else if i32Max < r.tradeCount + 1 then .error (.outOfRange "trade_count")
      else .ok ((), { s with
        tokens := s.tokens.modify curve (bumped srx lastPrice) (curveAddress_bumped srx lastPrice) })

/-- `UPDATE cb_tokens SET is_graduated = true WHERE curve_address = $1`. -/
def markGraduated (curve : Address) : CbStatement Unit := fun s =>
  .ok ((), { s with
    tokens := s.tokens.modify curve (fun r => { r with isGraduated := true }) fun _ => rfl })

/-- `SELECT curve_address FROM cb_tokens`. -/
def knownCurveAddresses (s : CbStore) : List Address := s.tokens.rows.map CbToken.curveAddress

end CbTokens

namespace CbTrades

/-- `INSERT INTO cb_trades .. ON CONFLICT (tx_hash, log_index) DO NOTHING`; whether it inserted. -/
def insert (t : CbTrade) : CbStatement Bool := fun s =>
  .ok (!s.trades.contains t.key, { s with trades := s.trades.insertNew t })

end CbTrades

/-! ### The worker's cursor -/

/-- `META_KEY_COINBLAST_CURSOR`. -/
def metaKeyCoinblastCursor : String := "last_synced_coinblast_height"

/-- `meta::get_i64`. -/
def CbStore.cursor (s : CbStore) : Option Int :=
  (s.metaRows.find? metaKeyCoinblastCursor).map MetaRow.value

/-- `meta::set_i64`. -/
def setCursor (height : Int) : CbStatement Unit := fun s =>
  .ok ((), { s with
    metaRows := s.metaRows.upsert
      { key := metaKeyCoinblastCursor, value := height, updatedAt := 0 }
      (fun r => { r with value := height, updatedAt := 0 }) fun _ => rfl })

end SentrixIndexer
