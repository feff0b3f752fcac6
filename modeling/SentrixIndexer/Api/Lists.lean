/-
The list queries by address and by rank, and the block nearest to a time.

Each selects rows, orders them by a key that several rows may have, and takes the first of
them.  What it comes to is therefore a relation.
-/
import Mathlib.Data.Prod.Lex
import SentrixIndexer.Api.Cached
import SentrixIndexer.Api.Lookups
import SentrixIndexer.Relational.Ties

namespace SentrixIndexer

open Relational

/-- `TokenStandard::as_str`, the text in the column. -/
def TokenStandard.asStr : TokenStandard → String
  | .erc20 => "erc20"
  | .erc721 => "erc721"
  | .erc1155 => "erc1155"

namespace Transactions

/-- `for_address`, newest first by block height. -/
def ForAddress (s : Store) (addr : Address) (limit : Int) : Option (List Transaction) → Prop :=
  PageOf Transaction.blockHeight limit (ofAddress s addr)

/-- One way to answer it. -/
def forAddress (s : Store) (addr : Address) (limit : Int) : Except DbError (List Transaction) :=
  if 0 ≤ limit then .ok ((orderByDesc Transaction.blockHeight (ofAddress s addr)).take limit.toNat)
  else .error (.transport "LIMIT must not be negative")

theorem forAddress_allowed {s : Store} {addr : Address} {limit : Int} {rows : List Transaction}
    (h : forAddress s addr limit = .ok rows) : ForAddress s addr limit (some rows) := by
  unfold forAddress at h
  split at h
  · rw [← Except.ok.inj h]
    exact .page ‹_› (orderByDesc_perm _ _) (nonAscending_orderByDesc _ _)
  · exact absurd h (by simp)

/-- `GROUP BY from_addr`, with `COUNT(*)`. -/
def senderCounts (s : Store) : List (Address × Int) :=
  let senders := s.transactions.rows.map Transaction.fromAddr
  senders.dedup.map fun a => (a, (senders.count a : Int))

/-- `top_senders`. -/
def TopSenders (s : Store) (limit : Int) : Option (List (Address × Int)) → Prop :=
  PageOf Prod.snd limit (senderCounts s)

/-- `transactions t JOIN blocks b ON b.height = t.block_height`. -/
def withBlock (s : Store) : List (Transaction × Block) :=
  s.transactions.rows.flatMap fun t =>
    (s.blocks.rows.filter fun b => b.height = t.blockHeight).map fun b => (t, b)

/-- `ORDER BY t.value DESC, t.block_height DESC`. -/
def valueRank (row : Transaction × Block) : Nat ×ₗ Int :=
  toLex (row.1.value.toNat, row.1.blockHeight)

def topTxRow (row : Transaction × Block) : TopTxRow where
  hash := row.1.hash
  fromAddr := row.1.fromAddr
  toAddr := row.1.toAddr
  value := row.1.value.toNat.repr
  blockHeight := row.1.blockHeight
  timestamp := row.2.timestamp

/-- `top_by_value`. -/
def TopByValue (s : Store) (limit : Int) (result : Option (List TopTxRow)) : Prop :=
  ∃ page, PageOf valueRank limit (withBlock s) page ∧ result = page.map (List.map topTxRow)

end Transactions

namespace TokenTransfers

/-- The selection of `for_address`, narrowed to the rows with this text for a standard. -/
def ofAddressNamed (s : Store) (addr : Address) (standard : Option String) :
    List TokenTransfer :=
  (ofAddress s addr none).filter fun t => standard.all fun name => t.standard.asStr = name

/-- `for_address`, newest first by block height. -/
def ForAddress (s : Store) (addr : Address) (standard : Option String) (limit : Int) :
    Option (List TokenTransfer) → Prop :=
  PageOf TokenTransfer.blockHeight limit (ofAddressNamed s addr standard)

end TokenTransfers

namespace Blocks

/-- `WHERE timestamp >= $1`, or `<= $1`. -/
def besideTime (s : Store) (after : Bool) (ts : Int) : List Block :=
  s.blocks.rows.filter fun b => if after then ts ≤ b.timestamp else b.timestamp ≤ ts

/-- `ORDER BY timestamp ASC`, which is descending in the negated time, or `DESC`. -/
def timeRank (after : Bool) (b : Block) : Int := if after then -b.timestamp else b.timestamp

/-- The height of the first row, the limit being one. -/
def ByTime (s : Store) (after : Bool) (ts : Int) (row : Option Int) : Prop :=
  ∃ page, PageOf (timeRank after) 1 (besideTime s after ts) (some page) ∧
    row = page.head?.map Block.height

end Blocks

end SentrixIndexer
