/-
The SQL statements of the block writers, one by one.

`write_block` issues a statement for each row, and one for all its addresses;
`batch_write_blocks` issues one for each page of rows.  A statement binds a parameter for
every column of every row it inserts.  Issued in order, the statements are the
transactions of the writers.
-/
import SentrixIndexer.Proofs.Statements

namespace SentrixIndexer

/-- A statement, with the rows it inserts. -/
inductive SqlStatement
  | insertBlocks (rows : List Block)
  | insertTransactions (rows : List Transaction)
  | upsertAddresses (seen : List (Address × Int))
  | insertLogs (rows : List Log)
  | insertTransfers (rows : List TokenTransfer)
  | writeCursor (h : Int) (nowTs : Int)

namespace SqlStatement

/-- How many parameters the statement binds. -/
def binds : SqlStatement → Nat
  | insertBlocks rows => 12 * rows.length
  | insertTransactions rows => 15 * rows.length
  | upsertAddresses seen => 3 * seen.length
  | insertLogs rows => 9 * rows.length
  | insertTransfers rows => 9 * rows.length
  | writeCursor _ _ => 3

/-- What the statement does. -/
def exec : SqlStatement → Statement
  | insertBlocks rows => Blocks.insertBatch rows
  | insertTransactions rows => Transactions.insertBatch rows
  | upsertAddresses seen => Addresses.upsertBatch seen
  | insertLogs rows => Logs.insertBatch rows
  | insertTransfers rows => TokenTransfers.insertBatch rows
  | writeCursor h nowTs => SentrixIndexer.writeCursor h nowTs

/-- `upsert_batch`, which issues nothing for no sightings. -/
def upsertBatch (seen : List (Address × Int)) : List SqlStatement :=
  if seen.isEmpty then [] else [upsertAddresses seen]

end SqlStatement

/-- How rows are cut into pages. -/
structure Paging where
  pages : {V : Type} → List V → List (List V)
  flatten_pages : ∀ {V : Type} (rows : List V), (pages rows).flatten = rows

/-- `rows.chunks(BATCH_INSERT_CHUNK)`. -/
def Paging.chunks : Paging where
  pages := SentrixIndexer.chunks
  flatten_pages := flatten_chunks

open SqlStatement in
/-- The statements of `write_block`. -/
def writeBlockStatements (b : BlockBundle) : List SqlStatement :=
  insertBlocks [b.block] :: b.txs.map (fun t => insertTransactions [t]) ++
    SqlStatement.upsertBatch (txAddresses b.txs) ++ b.logs.map (fun l => insertLogs [l]) ++
    b.tokenTransfers.map (fun t => insertTransfers [t]) ++
    [.writeCursor b.block.height b.block.timestamp]

open SqlStatement in
/-- The statements of `batch_write_blocks` that write rows. -/
def rowStatements (paging : Paging) (bundles : List BlockBundle) : List SqlStatement :=
  (paging.pages (blocksOf bundles)).map insertBlocks ++
    (paging.pages (txsOf bundles)).map insertTransactions ++
    (paging.pages (txAddresses (txsOf bundles))).map upsertAddresses ++
    (paging.pages (logsOf bundles)).map insertLogs ++
    (paging.pages (transfersOf bundles)).map insertTransfers

/-- The statements of `batch_write_blocks`, the rows paged in some way. -/
def batchStatements (paging : Paging) (bundles : List BlockBundle) : List SqlStatement :=
  match (bundles.map fun b => b.block.height).max? with
  | none => []
  | some maxHeight =>
      let cursorTs := ((bundles.find? fun b => b.block.height = maxHeight).map
        fun b => b.block.timestamp).getD 0
      rowStatements paging bundles ++ [.writeCursor maxHeight cursorTs]

/-! ### Issued in order -/

/-- The statements of a transaction. -/
def issue (statements : List SqlStatement) : Statement := forEach SqlStatement.exec statements

theorem issue_append (us vs : List SqlStatement) (s : Store) :
    issue (us ++ vs) s = (issue us s >>= issue vs) := forEach_append us vs s

theorem issue_map {V : Type} (f : V → SqlStatement) (rows : List V) (s : Store) :
    issue (rows.map f) s = forEach (fun v => (f v).exec) rows s := by
  induction rows generalizing s with
  | nil => rfl
  | cons v rest ih =>
      show ((f v).exec s >>= issue (rest.map f)) = ((f v).exec s >>= _)
      congr 1
      funext s'
      exact ih s'

theorem forEach_singleton {V : Type} (stmt : V → Statement) (v : V) (s : Store) :
    forEach stmt [v] s = stmt v s := by
  show (stmt v s >>= fun s => Except.ok s) = stmt v s
  cases stmt v s <;> rfl

theorem issue_singleton (st : SqlStatement) (s : Store) : issue [st] s = st.exec s :=
  forEach_singleton _ st s

theorem issue_upsertBatch (seen : List (Address × Int)) (s : Store) :
    issue (SqlStatement.upsertBatch seen) s = Addresses.upsertBatch seen s := by
  cases seen with
  | nil => rfl
  | cons p rest => exact issue_singleton _ s

/-- One statement a row. -/
theorem issue_each {V : Type} (f : List V → SqlStatement) (stmt : V → Statement)
    (hf : ∀ rows, (f rows).exec = forEach stmt rows) (rows : List V) (s : Store) :
    issue (rows.map fun v => f [v]) s = forEach stmt rows s := by
  rw [issue_map]
  congr 1
  funext v s'
  rw [hf, forEach_singleton]

/-- One statement a page. -/
theorem issue_pages {V : Type} (paging : Paging) (f : List V → SqlStatement)
    (stmt : V → Statement) (hf : ∀ rows, (f rows).exec = forEach stmt rows) (rows : List V)
    (s : Store) : issue ((paging.pages rows).map f) s = forEach stmt rows s := by
  rw [issue_map]
  simp only [hf]
  rw [forEach_flatten, paging.flatten_pages]

/-- **The statements of `write_block` are its transaction.** -/
theorem issue_writeBlockStatements (b : BlockBundle) (s : Store) :
    issue (writeBlockStatements b) s = writeBlockTx b s := by
  unfold writeBlockStatements writeBlockTx
  rw [← List.singleton_append (l := b.txs.map _)]
  simp only [issue_append, issue_singleton, issue_upsertBatch,
    issue_each .insertTransactions _ (fun _ => rfl), issue_each .insertLogs _ (fun _ => rfl),
    issue_each .insertTransfers _ (fun _ => rfl), bind_assoc]
  show (forEach Blocks.insert [b.block] s >>= _) = _
  rw [forEach_singleton]
  rfl

/-- **The statements of `batch_write_blocks` are its transaction.** -/
theorem issue_batchStatements (bundles : List BlockBundle) (s : Store) :
    issue (batchStatements .chunks bundles) s = batchWriteBlocksTx bundles s := by
  unfold batchStatements batchWriteBlocksTx
  cases (bundles.map fun b => b.block.height).max? with
  | none => rfl
  | some maxHeight =>
      simp only [rowStatements, issue_append, issue_map, bind_assoc]
      rfl

end SentrixIndexer
