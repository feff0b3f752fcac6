/-
What a committed transaction leaves.

Every forward transaction adds rows to the tables and moves the cursor up, and it is
described by the rows it offers to each table and the height it advances to
(`Written`).  The row-by-row and the batched writer differ only in the order in
which they offer the same rows.
-/
import SentrixIndexer.Proofs.Statements

namespace SentrixIndexer

open Relational

/-! ### The cursor -/

theorem readCursor_writeCursor {h : Int} {nowTs : Int} {s s' : Store}
    (hw : writeCursor h nowTs s = .ok s') :
    readCursor s' = some ((readCursor s).elim h fun c => max c h) := by
  obtain rfl := Except.ok.inj hw
  unfold readCursor
  rw [Table.find?_upsert, if_pos rfl]
  cases s.metaRows.find? lastSyncedHeightKey <;> rfl

/-- The cursor after it has been advanced to `target`. -/
def advanced (target : Option Int) (cursor : Option Int) : Option Int :=
  match target with
  | none => cursor
  | some h => some (cursor.elim h fun c => max c h)

theorem getD_advanced {h : Int} (hh : -1 ≤ h) (cursor : Option Int) :
    (advanced (some h) cursor).getD (-1) = max (cursor.getD (-1)) h := by
  cases cursor with
  | none => exact (max_eq_right hh).symm
  | some c => rfl

/-! ### Rows offered to the tables -/

/-- The store `s'` is `s` with these rows offered and the cursor advanced. -/
structure Written (s : Store) (blocks : List Block) (txs : List Transaction) (logs : List Log)
    (transfers : List TokenTransfer) (target : Option Int) (s' : Store) : Prop where
  blocks : s'.blocks = s.blocks.insertAll blocks
  transactions : s'.transactions = s.transactions.insertAll txs
  logs : s'.logs = s.logs.insertAll logs
  tokenTransfers : s'.tokenTransfers = s.tokenTransfers.insertAll transfers
  addresses : s'.addresses = (txAddresses txs).foldl Addresses.upsert s.addresses
  cursor : readCursor s' = advanced target (readCursor s)

theorem writeCursor_written {h : Int} {nowTs : Int} {s s' : Store}
    (hw : writeCursor h nowTs s = .ok s') : Written s [] [] [] [] (some h) s' := by
  have hc := readCursor_writeCursor hw
  obtain rfl := Except.ok.inj hw
  exact ⟨rfl, rfl, rfl, rfl, rfl, hc⟩

/-- The rows of one bundle, in the order of `write_block`. -/
theorem writeBlockTx_written {b : BlockBundle} {s s' : Store} (h : writeBlockTx b s = .ok s') :
    Written s [b.block] b.txs b.logs b.tokenTransfers (some b.block.height) s' := by
  unfold writeBlockTx at h
  obtain ⟨s₁, h₁, h⟩ := bind_ok.mp h
  obtain ⟨s₂, h₂, h⟩ := bind_ok.mp h
  obtain ⟨s₃, h₃, h⟩ := bind_ok.mp h
  obtain ⟨s₄, h₄, h⟩ := bind_ok.mp h
  obtain ⟨s₅, h₅, h⟩ := bind_ok.mp h
  have hcur := readCursor_writeCursor h
  obtain rfl := (Blocks.insert_ok.mp h₁).2
  obtain rfl := forEach_insertTransactions_ok h₂
  obtain rfl := (Addresses.upsertBatch_ok.mp h₃).2
  obtain rfl := forEach_insertLogs_ok h₄
  obtain rfl := forEach_insertTransfers_ok h₅
  obtain rfl := Except.ok.inj h
  exact ⟨rfl, rfl, rfl, rfl, rfl, hcur⟩

/-- The rows of a batch, sorted and paged. -/
theorem batchWriteBlocksTx_written {bundles : List BlockBundle} {s s' : Store}
    (h : batchWriteBlocksTx bundles s = .ok s') :
    Written s (blocksOf bundles) (txsOf bundles) (logsOf bundles) (transfersOf bundles)
      (bundles.map fun b => b.block.height).max? s' := by
  unfold batchWriteBlocksTx at h
  rcases hmax : (bundles.map fun b => b.block.height).max? with _ | maxHeight
  · have hnil : bundles = [] := by
      cases bundles with
      | nil => rfl
      | cons b rest => simp at hmax
    subst hnil
    obtain rfl := Except.ok.inj h
    exact ⟨rfl, rfl, rfl, rfl, rfl, rfl⟩
  · rw [hmax] at h
    obtain ⟨s₁, h₁, h⟩ := bind_ok.mp h
    obtain ⟨s₂, h₂, h⟩ := bind_ok.mp h
    obtain ⟨s₃, h₃, h⟩ := bind_ok.mp h
    obtain ⟨s₄, h₄, h⟩ := bind_ok.mp h
    obtain ⟨s₅, h₅, h⟩ := bind_ok.mp h
    have hcur := readCursor_writeCursor h
    obtain rfl := forEach_insertBlocks_ok ((forEach_chunks _ _).symm.trans h₁)
    obtain rfl := forEach_insertTransactions_ok ((forEach_chunks _ _).symm.trans h₂)
    obtain rfl := forEach_upsertBatch_ok h₃
    obtain rfl := forEach_insertLogs_ok ((forEach_chunks _ _).symm.trans h₄)
    obtain rfl := forEach_insertTransfers_ok ((forEach_chunks _ _).symm.trans h₅)
    obtain rfl := Except.ok.inj h
    refine ⟨rfl, rfl, rfl, rfl, ?_, ?_⟩
    · rw [flatten_chunks]
      rfl
    · rw [hmax]
      exact hcur

/-! ### Forward transactions -/

namespace Txn

/-- Whether the transaction only adds rows. -/
def Forward : Txn → Prop
  | .rewindTo _ => False
  | _ => True

/-- The bundles the transaction writes. -/
def bundles : Txn → List BlockBundle
  | .writeBlock b => [b]
  | .batchWriteBlocks bundles => bundles
  | _ => []

/-- The height the transaction advances the cursor to. -/
def target : Txn → Option Int
  | .writeBlock b => some b.block.height
  | .batchWriteBlocks bundles => (bundles.map fun b => b.block.height).max?
  | .writeCursor h _ => some h
  | .rewindTo _ => none

end Txn

/-- **Every forward transaction** offers the rows of its bundles and advances to its target. -/
theorem Txn.run_written {t : Txn} {s s' : Store} (hf : t.Forward) (h : t.run s = .ok s') :
    ∃ blocks txs logs transfers,
      blocks.Perm (t.bundles.map BlockBundle.block) ∧
      txs.Perm (t.bundles.flatMap BlockBundle.txs) ∧
      logs.Perm (t.bundles.flatMap BlockBundle.logs) ∧
      transfers.Perm (t.bundles.flatMap BlockBundle.tokenTransfers) ∧
      Written s blocks txs logs transfers t.target s' := by
  cases t with
  | writeBlock b =>
      refine ⟨_, _, _, _, ?_, ?_, ?_, ?_, writeBlockTx_written h⟩
      · exact List.Perm.refl _
      · simp [Txn.bundles]
      · simp [Txn.bundles]
      · simp [Txn.bundles]
  | batchWriteBlocks bundles =>
      exact ⟨_, _, _, _, sortByKey_perm _ _, sortByKey_perm _ _, sortByKey_perm _ _,
        sortByKey_perm _ _, batchWriteBlocksTx_written h⟩
  | writeCursor g nowTs =>
      refine ⟨[], [], [], [], ?_, ?_, ?_, ?_, writeCursor_written h⟩
      · exact List.Perm.refl _
      · exact List.Perm.refl _
      · exact List.Perm.refl _
      · exact List.Perm.refl _
  | rewindTo g => exact absurd hf (fun hf => hf)

/-! ### What forward transactions keep and add -/

/-- Every row of `s` is still stored in `s'`. -/
structure Extends (s s' : Store) : Prop where
  blocks : Table.Le s.blocks s'.blocks
  transactions : Table.Le s.transactions s'.transactions
  logs : Table.Le s.logs s'.logs
  tokenTransfers : Table.Le s.tokenTransfers s'.tokenTransfers

theorem Extends.refl (s : Store) : Extends s s :=
  ⟨Table.Le.refl _, Table.Le.refl _, Table.Le.refl _, Table.Le.refl _⟩

theorem Extends.trans {s₁ s₂ s₃ : Store} (h : Extends s₁ s₂) (h' : Extends s₂ s₃) :
    Extends s₁ s₃ :=
  ⟨h.blocks.trans h'.blocks, h.transactions.trans h'.transactions, h.logs.trans h'.logs,
    h.tokenTransfers.trans h'.tokenTransfers⟩

theorem Written.extends {s s' : Store} {blocks : List Block} {txs : List Transaction}
    {logs : List Log} {transfers : List TokenTransfer} {target : Option Int}
    (h : Written s blocks txs logs transfers target s') : Extends s s' := by
  refine ⟨?_, ?_, ?_, ?_⟩
  · rw [h.blocks]; exact Table.le_insertAll _ _
  · rw [h.transactions]; exact Table.le_insertAll _ _
  · rw [h.logs]; exact Table.le_insertAll _ _
  · rw [h.tokenTransfers]; exact Table.le_insertAll _ _

theorem Txn.run_extends {t : Txn} {s s' : Store} (hf : t.Forward) (h : t.run s = .ok s') :
    Extends s s' := by
  obtain ⟨_, _, _, _, -, -, -, -, hw⟩ := t.run_written hf h
  exact hw.extends

/-- Every row of the bundle has its key taken. -/
structure RowsStored (s : Store) (b : BlockBundle) : Prop where
  block : s.blocks.contains b.block.height = true
  txs : ∀ t ∈ b.txs, s.transactions.contains t.hash = true
  logs : ∀ l ∈ b.logs, s.logs.contains l.key = true
  transfers : ∀ t ∈ b.tokenTransfers, s.tokenTransfers.contains t.key = true

theorem RowsStored.mono {s s' : Store} {b : BlockBundle} (h : RowsStored s b)
    (he : Extends s s') : RowsStored s' b :=
  ⟨he.blocks.contains h.block, fun t ht => he.transactions.contains (h.txs t ht),
    fun l hl => he.logs.contains (h.logs l hl),
    fun t ht => he.tokenTransfers.contains (h.transfers t ht)⟩

/-- **A committed transaction stores its bundles.** -/
theorem Txn.run_rowsStored {t : Txn} {s s' : Store} (hf : t.Forward) (h : t.run s = .ok s')
    {b : BlockBundle} (hb : b ∈ t.bundles) : RowsStored s' b := by
  obtain ⟨blocks, txs, logs, transfers, hpb, hpt, hpl, hptt, hw⟩ := t.run_written hf h
  refine ⟨?_, ?_, ?_, ?_⟩
  · rw [hw.blocks, Table.contains_insertAll]
    exact Or.inr ⟨b.block, hpb.mem_iff.mpr (List.mem_map_of_mem hb), rfl⟩
  · intro t ht
    rw [hw.transactions, Table.contains_insertAll]
    exact Or.inr ⟨t, hpt.mem_iff.mpr (List.mem_flatMap.mpr ⟨b, hb, ht⟩), rfl⟩
  · intro l hl
    rw [hw.logs, Table.contains_insertAll]
    exact Or.inr ⟨l, hpl.mem_iff.mpr (List.mem_flatMap.mpr ⟨b, hb, hl⟩), rfl⟩
  · intro t ht
    rw [hw.tokenTransfers, Table.contains_insertAll]
    exact Or.inr ⟨t, hptt.mem_iff.mpr (List.mem_flatMap.mpr ⟨b, hb, ht⟩), rfl⟩

/-- A block row a committed transaction leaves was there before or heads one of its bundles. -/
theorem Txn.run_block {t : Txn} {s s' : Store} (hf : t.Forward) (h : t.run s = .ok s')
    {r : Block} (hr : r ∈ s'.blocks.rows) :
    r ∈ s.blocks.rows ∨
      ∃ b ∈ t.bundles, b.block = r ∧ s.blocks.contains r.height = false := by
  obtain ⟨blocks, _, _, _, hpb, -, -, -, hw⟩ := t.run_written hf h
  rw [hw.blocks] at hr
  rcases Table.mem_insertAll hr with hold | ⟨hnew, hfree⟩
  · exact Or.inl hold
  · obtain ⟨b, hb, rfl⟩ := List.mem_map.mp (hpb.mem_iff.mp hnew)
    exact Or.inr ⟨b, hb, rfl, Table.find?_eq_none.mp hfree⟩

/-- A log row a committed transaction leaves was there before or belongs to one of its bundles. -/
theorem Txn.run_log {t : Txn} {s s' : Store} (hf : t.Forward) (h : t.run s = .ok s')
    {l : Log} (hl : l ∈ s'.logs.rows) :
    l ∈ s.logs.rows ∨ s.logs.contains l.key = false ∧ ∃ b ∈ t.bundles, l ∈ b.logs := by
  obtain ⟨_, _, logs, _, -, -, hpl, -, hw⟩ := t.run_written hf h
  rw [hw.logs] at hl
  rcases Table.mem_insertAll hl with hold | ⟨hnew, hfree⟩
  · exact Or.inl hold
  · obtain ⟨b, hb, hmem⟩ := List.mem_flatMap.mp (hpl.mem_iff.mp hnew)
    exact Or.inr ⟨Table.find?_eq_none.mp hfree, b, hb, hmem⟩

/-- Each bundle's transactions carry its height. -/
def TxHeights (bundles : List BlockBundle) : Prop :=
  ∀ b ∈ bundles, ∀ x ∈ b.txs, x.blockHeight = b.block.height

/--
A transaction row a committed transaction leaves was there before, or is offered by one
of its bundles and under its hash by none of a lower height.
-/
theorem Txn.run_transaction {t : Txn} {s s' : Store} (hf : t.Forward) (h : t.run s = .ok s')
    (hheights : TxHeights t.bundles) {x : Transaction} (hx : x ∈ s'.transactions.rows) :
    x ∈ s.transactions.rows ∨ s.transactions.contains x.hash = false ∧
      ∃ b ∈ t.bundles, x ∈ b.txs ∧
        ∀ b' ∈ t.bundles, ∀ y ∈ b'.txs, y.hash = x.hash → b.block.height ≤ b'.block.height := by
  cases t with
  | writeBlock b =>
      rw [(writeBlockTx_written h).transactions] at hx
      rcases Table.mem_insertAll hx with hold | ⟨hnew, hfree⟩
      · exact Or.inl hold
      · refine Or.inr ⟨Table.find?_eq_none.mp hfree, b, List.mem_singleton.mpr rfl, hnew, ?_⟩
        intro b' hb' _ _ _
        obtain rfl := List.mem_singleton.mp hb'
        exact le_rfl
  | batchWriteBlocks bundles =>
      rw [(batchWriteBlocksTx_written h).transactions, Table.mem_rows, Table.find?_insertAll] at hx
      rcases hf : s.transactions.find? x.hash with _ | u
      · rw [hf, Option.none_or] at hx
        have hmem : x ∈ bundles.flatMap BlockBundle.txs :=
          mem_sortByKey.mp (List.mem_of_find?_eq_some hx)
        obtain ⟨b, hb, hxb⟩ := List.mem_flatMap.mp hmem
        refine Or.inr ⟨Table.find?_eq_none.mp hf, b, hb, hxb, fun b' hb' y hy heq => ?_⟩
        -- The sort puts the lowest height first.
        have hle := le_of_find?_sortByKey hx (List.mem_flatMap.mpr ⟨b', hb', hy⟩)
          (decide_eq_true heq)
        have hheight := (Prod.Lex.toLex_le_toLex.mp hle)
        have hxh := hheights b hb x hxb
        have hyh := hheights b' hb' y hy
        simp only at hheight
        omega
      · rw [hf, Option.some_or] at hx
        exact Or.inl (Table.mem_rows.mpr (hf.trans hx))
  | writeCursor g nowTs =>
      rw [(writeCursor_written h).transactions] at hx
      exact Or.inl hx
  | rewindTo g => exact absurd hf fun hf => hf

/-! ### Rewinds -/

/-- A log goes with its block or with its transaction. -/
def dropsLog (d : Int) (s : Store) (l : Log) : Bool :=
  d ≤ l.blockHeight ||
    (s.transactions.rows.filter fun t => d ≤ t.blockHeight).any fun t => t.hash = l.txHash

/-- What the rewind to `d` leaves: `token_transfers` has no foreign key and keeps its rows. -/
structure RewoundTo (d : Int) (s s' : Store) : Prop where
  blocks : s'.blocks = s.blocks.deleteWhere fun b => d ≤ b.height
  transactions : s'.transactions = s.transactions.deleteWhere fun t => d ≤ t.blockHeight
  logs : s'.logs = s.logs.deleteWhere (dropsLog d s)
  tokenTransfers : s'.tokenTransfers = s.tokenTransfers
  cursor : readCursor s' =
    some ((readCursor s).elim (saturatingSub d 1) fun c => max c (saturatingSub d 1))

theorem rewindTx_rewoundTo {d : Int} {s s' : Store} (h : rewindTx d s = .ok s') :
    RewoundTo d s s' := by
  unfold rewindTx at h
  obtain ⟨s₁, hdel, hcur⟩ := bind_ok.mp h
  have hcursor := readCursor_writeCursor hcur
  obtain rfl := Except.ok.inj hdel
  obtain rfl := Except.ok.inj hcur
  exact ⟨rfl, rfl, rfl, rfl, hcursor⟩

end SentrixIndexer
