/-
The lookups by hash and by address that the API answers.

Every route lowercases what the client sends and compares the result with the stored
text as it is.  The selections below are the `WHERE` clauses; the order and the size of
a page are left to the routes.
-/
import SentrixIndexer.Db

namespace SentrixIndexer

/-- `str::to_lowercase` of ASCII text.  Beyond ASCII the source's maps more letters, none of them
to a digit of a hash or an address. -/
def toLowercase (s : String) : String := s.map Char.toLower

namespace Transactions

/-- `get_by_hash`. -/
def getByHash (s : Store) (hash : Hash) : Option Transaction := s.transactions.find? hash

/-- The selection of `for_address`: sender or receiver. -/
def ofAddress (s : Store) (addr : Address) : List Transaction :=
  s.transactions.rows.filter fun t => t.fromAddr = addr || t.toAddr = some addr

end Transactions

namespace Logs

/-- The selection of `for_tx`. -/
def ofTx (s : Store) (txHash : Hash) : List Log :=
  s.logs.rows.filter fun l => l.txHash = txHash

end Logs

namespace TokenTransfers

/-- The selection of `for_address`, narrowed to one standard if there is a name for it. -/
def ofAddress (s : Store) (addr : Address) (standard : Option TokenStandard) :
    List TokenTransfer :=
  s.tokenTransfers.rows.filter fun t =>
    (t.fromAddr = addr || t.toAddr = addr) && standard.all fun std => t.standard = std

end TokenTransfers

/-! ### Routes -/

/-- `/tx/:hash`: the transaction, its logs and the time of its block. -/
def txDetail (s : Store) (hash : String) : Option (Transaction × List Log × Int) := do
  let hash := toLowercase hash
  let tx ← Transactions.getByHash s hash
  let timestamp := ((Blocks.getByHeight s tx.blockHeight).map Block.timestamp).getD 0
  return (tx, Logs.ofTx s hash, timestamp)

/-- `/address/:addr/txs`. -/
def addressTxs (s : Store) (addr : String) : List Transaction :=
  Transactions.ofAddress s (toLowercase addr)

/-- `/address/:addr/transfers`. -/
def addressTransfers (s : Store) (addr : String) (standard : Option TokenStandard) :
    List TokenTransfer := TokenTransfers.ofAddress s (toLowercase addr) standard

/-- `module=account&action=txlist` of the Etherscan shim, its address being given. -/
def txlist (s : Store) (address : String) : List Transaction :=
  Transactions.ofAddress s (toLowercase address)

end SentrixIndexer
