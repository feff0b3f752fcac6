/-
The writers never violate a foreign key.

A row is inserted after the rows it refers to.  The block of a bundle comes first, and a row
that is skipped because its key is taken leaves another one under that key; so when a
transaction comes, its block is there, and when a log comes, so is its transaction.  That
holds of every bundle that was made of a block and of logs of its height: the logs of
transactions the block does not list have been dropped.
-/
import SentrixIndexer.BlockStatements
import SentrixIndexer.Proofs.AskedFor

namespace SentrixIndexer

open Relational

/-- The store satisfies its foreign keys. -/
structure ForeignKeys (s : Store) : Prop where
  txBlock : ∀ t ∈ s.transactions.rows, s.blocks.contains t.blockHeight = true
  logBlock : ∀ l ∈ s.logs.rows, s.blocks.contains l.blockHeight = true
  logTx : ∀ l ∈ s.logs.rows, s.transactions.contains l.txHash = true

/-- No foreign key was violated, and what is left is a `Q`. -/
def Spares (Q : Store → Prop) : Except DbError Store → Prop
  | .ok s => Q s
  | .error e => ∀ constraint, e ≠ .foreignKeyViolation constraint

section Rules

variable {Q Q' : Store → Prop} {x : Except DbError Store} {s : Store}

theorem Spares.mono (h : Spares Q x) (hQ : ∀ s, Q s → Q' s) : Spares Q' x := by
  cases x with
  | ok s => exact hQ s h
  | error e => exact h

/-- Sequencing. -/
theorem Spares.bind {stmt : Statement} (h : Spares Q x) (hstmt : ∀ s, Q s → Spares Q' (stmt s)) :
    Spares Q' (x >>= stmt) := by
  cases x with
  | ok s => exact hstmt s h
  | error e => exact h

/-- **The rule for rows**: `I` is kept while more and more of them are done. -/
theorem spares_forEach {V : Type} {stmt : V → Statement} {I : List V → Store → Prop}
    {rows : List V} (hstep : ∀ v ∈ rows, ∀ written s, I written s →
      Spares (I (written ++ [v])) (stmt v s)) (written : List V) {s : Store}
    (hs : I written s) : Spares (I (written ++ rows)) (forEach stmt rows s) := by
  induction rows generalizing written s with
  | nil =>
      rw [List.append_nil]
      exact hs
  | cons v rest ih =>
      refine (hstep v (List.mem_cons_self ..) written s hs).bind fun s' hs' => ?_
      rw [List.append_cons]
      exact ih (fun u hu => hstep u (List.mem_cons_of_mem _ hu)) _ hs'

/-- The rule for rows that keep `Q`. -/
theorem spares_each {V : Type} {stmt : V → Statement} {rows : List V}
    (hstep : ∀ v ∈ rows, ∀ s, Q s → Spares Q (stmt v s)) {s : Store} (hs : Q s) :
    Spares Q (forEach stmt rows s) :=
  spares_forEach (I := fun _ => Q) (fun v hv _ => hstep v hv) [] hs

end Rules

/-! ### The statements -/

/-- The foreign keys hold, these blocks are there, and so are these transactions. -/
structure Referable (blocks : List Block) (txs : List Transaction) (s : Store) : Prop where
  keys : ForeignKeys s
  blocks : ∀ b ∈ blocks, s.blocks.contains b.height = true
  txs : ∀ t ∈ txs, s.transactions.contains t.hash = true

section Statements

variable {blocks : List Block} {txs : List Transaction} {s : Store}

/-- A row that was there, or the new one. -/
private theorem mem_insertNew {V K : Type} [DecidableEq K] {key : V → K} {t : Table key}
    {v u : V} (h : u ∈ (t.insertNew v).rows) : u ∈ t.rows ∨ u = v := by
  have hmem : u ∈ (t.insertAll [v]).rows := h
  rcases Table.mem_insertAll hmem with hold | ⟨hnew, -⟩
  · exact .inl hold
  · exact .inr (List.mem_singleton.mp hnew)

theorem spares_insertBlock {b : Block} (h : Referable blocks txs s) :
    Spares (Referable (blocks ++ [b]) txs) (Blocks.insert b s) := by
  unfold Blocks.insert
  by_cases hstored : s.blocks.contains b.height = true
  · rw [if_pos hstored]
    refine ⟨h.keys, fun b' hb' => ?_, h.txs⟩
    rcases List.mem_append.mp hb' with hold | hnew
    · exact h.blocks b' hold
    · rw [List.mem_singleton.mp hnew]
      exact hstored
  · rw [if_neg hstored]
    split
    · exact fun constraint => by simp
    · have hgrow : ∀ {k}, s.blocks.contains k = true → (s.blocks.insertNew b).contains k = true :=
        fun hk => by rw [Table.contains_insertNew, hk, Bool.true_or]
      refine ⟨⟨fun t ht => hgrow (h.keys.txBlock t ht), fun l hl => hgrow (h.keys.logBlock l hl),
        h.keys.logTx⟩, fun b' hb' => ?_, h.txs⟩
      rcases List.mem_append.mp hb' with hold | hnew
      · exact hgrow (h.blocks b' hold)
      · rw [List.mem_singleton.mp hnew, Table.contains_insertNew]
        simp

theorem spares_insertTransaction {t : Transaction} (hblock : ∃ b ∈ blocks, b.height = t.blockHeight)
    (h : Referable blocks txs s) :
    Spares (Referable blocks (txs ++ [t])) (Transactions.insert t s) := by
  obtain ⟨b, hb, hheight⟩ := hblock
  have hparent : s.blocks.contains t.blockHeight = true := hheight ▸ h.blocks b hb
  unfold Transactions.insert
  by_cases hstored : s.transactions.contains t.hash = true
  · rw [if_pos hstored]
    refine ⟨h.keys, h.blocks, fun t' ht' => ?_⟩
    rcases List.mem_append.mp ht' with hold | hnew
    · exact h.txs t' hold
    · rw [List.mem_singleton.mp hnew]
      exact hstored
  · rw [if_neg hstored, if_pos hparent]
    have hgrow : ∀ {k}, s.transactions.contains k = true →
        (s.transactions.insertNew t).contains k = true :=
      fun hk => by rw [Table.contains_insertNew, hk, Bool.true_or]
    refine ⟨⟨fun t' ht' => ?_, h.keys.logBlock, fun l hl => hgrow (h.keys.logTx l hl)⟩, h.blocks,
      fun t' ht' => ?_⟩
    · rcases mem_insertNew ht' with hold | rfl
      · exact h.keys.txBlock t' hold
      · exact hparent
    · rcases List.mem_append.mp ht' with hold | hnew
      · exact hgrow (h.txs t' hold)
      · rw [List.mem_singleton.mp hnew, Table.contains_insertNew]
        simp

theorem spares_upsertBatch {seen : List (Address × Int)} (h : Referable blocks txs s) :
    Spares (Referable blocks txs) (Addresses.upsertBatch seen s) := by
  unfold Addresses.upsertBatch
  split
  · exact ⟨⟨h.keys.txBlock, h.keys.logBlock, h.keys.logTx⟩, h.blocks, h.txs⟩
  · exact fun constraint => by simp

theorem spares_insertLog {l : Log} (hblock : ∃ b ∈ blocks, b.height = l.blockHeight)
    (htx : ∃ t ∈ txs, t.hash = l.txHash) (h : Referable blocks txs s) :
    Spares (Referable blocks txs) (Logs.insert l s) := by
  obtain ⟨b, hb, hheight⟩ := hblock
  obtain ⟨t, ht, hhash⟩ := htx
  have hparent : s.blocks.contains l.blockHeight = true := hheight ▸ h.blocks b hb
  have hsender : s.transactions.contains l.txHash = true := hhash ▸ h.txs t ht
  unfold Logs.insert
  by_cases hstored : s.logs.contains l.key = true
  · rw [if_pos hstored]
    exact h
  · rw [if_neg hstored, if_neg (by simp [hparent]), if_neg (by simp [hsender])]
    refine ⟨⟨h.keys.txBlock, fun l' hl' => ?_, fun l' hl' => ?_⟩, h.blocks, h.txs⟩
    · rcases mem_insertNew hl' with hold | rfl
      · exact h.keys.logBlock l' hold
      · exact hparent
    · rcases mem_insertNew hl' with hold | rfl
      · exact h.keys.logTx l' hold
      · exact hsender

theorem spares_insertTransfer {t : TokenTransfer} (h : Referable blocks txs s) :
    Spares (Referable blocks txs) (TokenTransfers.insert t s) :=
  ⟨⟨h.keys.txBlock, h.keys.logBlock, h.keys.logTx⟩, h.blocks, h.txs⟩

theorem spares_writeCursor {height nowTs : Int} (h : Referable blocks txs s) :
    Spares (Referable blocks txs) (writeCursor height nowTs s) :=
  ⟨⟨h.keys.txBlock, h.keys.logBlock, h.keys.logTx⟩, h.blocks, h.txs⟩

end Statements

/-! ### The writers -/

/-- Every row refers to one of the rows before it. -/
structure Referring (blocks : List Block) (txs : List Transaction) (logs : List Log) : Prop where
  txBlock : ∀ t ∈ txs, ∃ b ∈ blocks, b.height = t.blockHeight
  logBlock : ∀ l ∈ logs, ∃ b ∈ blocks, b.height = l.blockHeight
  logTx : ∀ l ∈ logs, ∃ t ∈ txs, t.hash = l.txHash

/-- **Rows written in the order of the tables** violate no foreign key. -/
theorem spares_rows {blocks : List Block} {txs : List Transaction} {logs : List Log}
    (transfers : List TokenTransfer) (sightings : List (List (Address × Int)))
    {height nowTs : Int} {us vs as ls ts : List SqlStatement} (hrefs : Referring blocks txs logs)
    (hus : issue us = forEach Blocks.insert blocks)
    (hvs : issue vs = forEach Transactions.insert txs)
    (has : issue as = forEach Addresses.upsertBatch sightings)
    (hls : issue ls = forEach Logs.insert logs)
    (hts : issue ts = forEach TokenTransfers.insert transfers) {s : Store} (hs : ForeignKeys s) :
    Spares ForeignKeys (issue (us ++ vs ++ as ++ ls ++ ts ++ [.writeCursor height nowTs]) s) := by
  simp only [issue_append, hus, hvs, has, hls, hts]
  have hblocks : Spares (Referable blocks []) (forEach Blocks.insert blocks s) :=
    spares_forEach (I := fun written => Referable written [])
      (fun b _ _ _ h => spares_insertBlock h) []
      ⟨hs, fun b hb => absurd hb List.not_mem_nil, fun t ht => absurd ht List.not_mem_nil⟩
  have htxs : ∀ s, Referable blocks [] s →
      Spares (Referable blocks txs) (forEach Transactions.insert txs s) := fun s h =>
    spares_forEach (I := Referable blocks)
      (fun t ht _ _ h => spares_insertTransaction (hrefs.txBlock t ht) h) [] h
  have haddresses : ∀ s, Referable blocks txs s →
      Spares (Referable blocks txs) (forEach Addresses.upsertBatch sightings s) := fun s h =>
    spares_each (fun _ _ _ h => spares_upsertBatch h) h
  have hlogs : ∀ s, Referable blocks txs s →
      Spares (Referable blocks txs) (forEach Logs.insert logs s) := fun s h =>
    spares_each (fun l hl _ h => spares_insertLog (hrefs.logBlock l hl) (hrefs.logTx l hl) h) h
  have htransfers : ∀ s, Referable blocks txs s →
      Spares (Referable blocks txs) (forEach TokenTransfers.insert transfers s) := fun s h =>
    spares_each (fun _ _ _ h => spares_insertTransfer h) h
  refine ((((hblocks.bind htxs).bind haddresses).bind hlogs).bind htransfers).bind fun s h => ?_
  rw [issue_singleton]
  exact (spares_writeCursor h).mono fun _ h => h.keys

/-- The parts of a placed bundle refer to each other. -/
theorem Placed.referring {b : BlockBundle} (h : Placed b) : Referring [b.block] b.txs b.logs where
  txBlock t ht := ⟨b.block, List.mem_singleton.mpr rfl, (h.txHeight t ht).symm⟩
  logBlock l hl := ⟨b.block, List.mem_singleton.mpr rfl, (h.logHeight l hl).symm⟩
  logTx := h.backed

/-- So do the parts of several, in whatever order they are written. -/
theorem referring_bundles {bundles : List BlockBundle} (h : ∀ b ∈ bundles, Placed b) :
    Referring (blocksOf bundles) (txsOf bundles) (logsOf bundles) := by
  have hblock : ∀ b ∈ bundles, b.block ∈ blocksOf bundles := fun b hb =>
    (sortByKey_perm _ _).mem_iff.mpr (List.mem_map.mpr ⟨b, hb, rfl⟩)
  refine ⟨fun t ht => ?_, fun l hl => ?_, fun l hl => ?_⟩
  · obtain ⟨b, hb, htb⟩ := List.mem_flatMap.mp ((sortByKey_perm _ _).mem_iff.mp ht)
    exact ⟨b.block, hblock b hb, ((h b hb).txHeight t htb).symm⟩
  · obtain ⟨b, hb, hlb⟩ := List.mem_flatMap.mp ((sortByKey_perm _ _).mem_iff.mp hl)
    exact ⟨b.block, hblock b hb, ((h b hb).logHeight l hlb).symm⟩
  · obtain ⟨b, hb, hlb⟩ := List.mem_flatMap.mp ((sortByKey_perm _ _).mem_iff.mp hl)
    obtain ⟨t, ht, hhash⟩ := (h b hb).backed l hlb
    exact ⟨t, (sortByKey_perm _ _).mem_iff.mpr (List.mem_flatMap.mpr ⟨b, hb, ht⟩), hhash⟩

theorem Placed.spares_writeBlock {b : BlockBundle} (h : Placed b) {s : Store}
    (hs : ForeignKeys s) : Spares ForeignKeys (issue (writeBlockStatements b) s) := by
  unfold writeBlockStatements
  rw [← List.singleton_append (l := b.txs.map _)]
  refine spares_rows b.tokenTransfers [txAddresses b.txs] h.referring ?_ ?_ ?_ ?_ ?_ hs
  · exact funext (issue_singleton _)
  · exact funext (issue_each .insertTransactions _ (fun _ => rfl) _)
  · funext s
    rw [issue_upsertBatch, forEach_singleton]
  · exact funext (issue_each .insertLogs _ (fun _ => rfl) _)
  · exact funext (issue_each .insertTransfers _ (fun _ => rfl) _)

theorem spares_batch {bundles : List BlockBundle} (h : ∀ b ∈ bundles, Placed b) (paging : Paging)
    {s : Store} (hs : ForeignKeys s) :
    Spares ForeignKeys (issue (batchStatements paging bundles) s) := by
  unfold batchStatements
  cases (bundles.map fun b => b.block.height).max? with
  | none => exact hs
  | some maxHeight =>
      refine spares_rows (transfersOf bundles) (paging.pages (txAddresses (txsOf bundles)))
        (referring_bundles h) ?_ ?_ ?_ ?_ ?_ hs
      · exact funext (issue_pages paging .insertBlocks _ (fun _ => rfl) _)
      · exact funext (issue_pages paging .insertTransactions _ (fun _ => rfl) _)
      · exact funext (issue_map _ _)
      · exact funext (issue_pages paging .insertLogs _ (fun _ => rfl) _)
      · exact funext (issue_pages paging .insertTransfers _ (fun _ => rfl) _)

/-! ### Fetched bundles -/

/-- A bundle made of the answers for some height: its block, and logs of that block number. -/
structure FetchedFor (b : BlockBundle) (h : Int) (block : NativeBlockResponse)
    (logs : List RpcLog) : Prop where
  index : block.index = h
  number : ∀ l ∈ logs, l.blockNumber.map heightOfU64 = some h
  assembled : assemble block logs = .ok b

theorem FetchedFor.placed {b : BlockBundle} {h : Int} {block : NativeBlockResponse}
    {logs : List RpcLog} (hf : FetchedFor b h block logs) : Placed b := by
  obtain ⟨hwf, hheight, hfrom⟩ := assemble_ok hf.assembled
  refine ⟨hwf, fun d hd => ?_⟩
  obtain ⟨l, hl, hconv⟩ := hfrom d hd
  obtain ⟨n, hn, hd⟩ := toDomainLog_height hconv
  have hnumber := hf.number l hl
  rw [hn] at hnumber
  rw [hd, hheight, hf.index]
  exact Option.some.inj hnumber

/-- The store when a transaction has committed or has been rolled back. -/
def Store.settle (t : Txn) (s : Store) : Store := (t.run s).toOption.getD s

theorem Placed.settle {b : BlockBundle} (h : Placed b) {s : Store} (hs : ForeignKeys s) :
    ForeignKeys (s.settle (.writeBlock b)) := by
  have hspared := h.spares_writeBlock hs
  rw [issue_writeBlockStatements] at hspared
  show ForeignKeys ((writeBlockTx b s).toOption.getD s)
  cases hrun : writeBlockTx b s with
  | error e => exact hs
  | ok s' =>
      rw [hrun] at hspared
      exact hspared

theorem foreignKeys_settled {bundles : List BlockBundle} (h : ∀ b ∈ bundles, Placed b) {s : Store}
    (hs : ForeignKeys s) :
    ForeignKeys (bundles.foldl (fun s b => s.settle (.writeBlock b)) s) := by
  induction bundles generalizing s with
  | nil => exact hs
  | cons b rest ih =>
      exact ih (fun u hu => h u (List.mem_cons_of_mem _ hu))
        ((h b (List.mem_cons_self ..)).settle hs)

/-- Nothing the writers issue for the bundles violates a foreign key, and every token transfer
is that of a log. -/
structure SparesForeignKeys (bundles : List BlockBundle) (s : Store) : Prop where
  each : ∀ written b rest, bundles = written ++ b :: rest → Spares ForeignKeys
    (issue (writeBlockStatements b) (written.foldl (fun s b => s.settle (.writeBlock b)) s))
  batch : ∀ paging : Paging, Spares ForeignKeys (issue (batchStatements paging bundles) s)
  transfers : ∀ b ∈ bundles, ∀ t ∈ b.tokenTransfers, ∃ l ∈ b.logs, decodeTransfer l = some t ∧
    t.blockHeight = l.blockHeight ∧ t.txHash = l.txHash ∧ t.logIndex = l.logIndex

/-- **Bundles never break a foreign key**: not one by one, and not together. -/
theorem fetched_spare_foreign_keys {bundles : List BlockBundle} {s : Store}
    (hfetched : ∀ b ∈ bundles, ∃ h block logs, FetchedFor b h block logs) (hs : ForeignKeys s) :
    SparesForeignKeys bundles s := by
  have hplaced : ∀ b ∈ bundles, Placed b := fun b hb => by
    obtain ⟨h, block, logs, hf⟩ := hfetched b hb
    exact hf.placed
  refine ⟨fun written b rest hsplit => ?_, fun paging => spares_batch hplaced paging hs,
    fun b hb t ht => ?_⟩
  · have hmem : ∀ u ∈ written ++ b :: rest, Placed u := hsplit ▸ hplaced
    exact (hmem b (by simp)).spares_writeBlock
      (foreignKeys_settled (fun u hu => hmem u (List.mem_append_left _ hu)) hs)
  · obtain ⟨l, hl, hdecoded⟩ := (hplaced b hb).transfer ht
    exact ⟨l, hl, hdecoded, decodeTransfer_position hdecoded⟩

/-- A log of block 7. -/
def logAt7 (txHash : B256) : RpcLog where
  address := Vector.replicate 20 1
  topics := []
  data := []
  blockNumber := some 7
  blockHash := none
  transactionHash := some txHash
  logIndex := some 0

/-- Block 7, which lists the transaction of one of its two logs. -/
def blockAt7 : BlockBundle :=
  valueOf (assemble (bareBlock 7 "a7" [bareTx (hexEncode (List.replicate 32 5)) "0xann" "0xbob"])
    [logAt7 (Vector.replicate 32 5), logAt7 (Vector.replicate 32 6)]) (by decide +kernel)

theorem fetched_spare_foreign_keys_orphan :
    blockAt7.logs.length = 1 ∧ SparesForeignKeys [blockAt7] .empty := by
  refine ⟨by decide +kernel, fetched_spare_foreign_keys (fun b hb => ?_) ⟨?_, ?_, ?_⟩⟩
  · rw [List.mem_singleton.mp hb]
    exact ⟨7, _, _, rfl, by simp [logAt7, heightOfU64, asI64], eq_valueOf _⟩
  all_goals simp [Store.empty]

end SentrixIndexer
