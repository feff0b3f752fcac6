/-
How many parameters the statements of the writers bind.

Postgres takes at most 65535 parameters in one statement.  The batched writer pages its
rows, and no page comes near the limit.  The writer of one block does not page the addresses
of the block: they go into one statement, three parameters each.
-/
import SentrixIndexer.BlockStatements
import SentrixIndexer.Proofs.Registry
import SentrixIndexer.Sync.Nodes

namespace SentrixIndexer

/-- The parameters one statement may bind. -/
def bindLimit : Nat := 65535

/-- Every statement stays within the limit. -/
def WithinLimit (statements : List SqlStatement) : Prop := ∀ st ∈ statements, st.binds ≤ bindLimit

theorem withinLimit_append {us vs : List SqlStatement} :
    WithinLimit (us ++ vs) ↔ WithinLimit us ∧ WithinLimit vs := List.forall_mem_append

theorem withinLimit_map {V : Type} {f : V → SqlStatement} {rows : List V} :
    WithinLimit (rows.map f) ↔ ∀ v ∈ rows, (f v).binds ≤ bindLimit := List.forall_mem_map

/-! ### The batched writer -/

theorem length_le_of_mem_chunksOf {V : Type} {n : Nat} {page : List V} :
    ∀ {fuel : Nat} {rows : List V}, rows.length ≤ fuel → 0 < n →
      page ∈ chunksOf n fuel rows → page.length ≤ n := by
  intro fuel
  induction fuel with
  | zero =>
      intro rows hlen _ hpage
      obtain rfl := List.length_eq_zero_iff.mp (Nat.le_zero.mp hlen)
      exact absurd hpage List.not_mem_nil
  | succ fuel ih =>
      intro rows hlen hn hpage
      cases rows with
      | nil => exact absurd hpage List.not_mem_nil
      | cons v rest =>
          rcases List.mem_cons.mp hpage with rfl | hmem
          · exact List.length_take_le _ _
          · refine ih ?_ hn hmem
            rw [List.length_drop]
            omega

/-- A page has at most 500 rows. -/
theorem length_le_of_mem_chunks {V : Type} {rows page : List V} (h : page ∈ chunks rows) :
    page.length ≤ 500 := length_le_of_mem_chunksOf le_rfl (by decide) h

/-- **The batched writer stays within the limit**, whatever it writes. -/
theorem withinLimit_batch (bundles : List BlockBundle) :
    WithinLimit (batchStatements .chunks bundles) := by
  have hpages : ∀ {V : Type} {f : List V → SqlStatement} {k : Nat} (rows : List V),
      (∀ page, (f page).binds = k * page.length) → k ≤ 15 →
      WithinLimit ((Paging.chunks.pages rows).map f) := by
    intro V f k rows hf hk
    refine withinLimit_map.mpr fun page hpage => ?_
    have hlen := length_le_of_mem_chunks hpage
    have hbinds : k * page.length ≤ 15 * 500 := Nat.mul_le_mul hk hlen
    rw [hf]
    unfold bindLimit
    omega
  unfold batchStatements
  cases (bundles.map fun b => b.block.height).max? with
  | none => exact fun st hst => absurd hst List.not_mem_nil
  | some maxHeight =>
      refine withinLimit_append.mpr ⟨?_, List.forall_mem_singleton.mpr (by decide : 3 ≤ 65535)⟩
      unfold rowStatements
      simp only [withinLimit_append]
      exact ⟨⟨⟨⟨hpages _ (fun _ => rfl) (by decide), hpages _ (fun _ => rfl) (by decide)⟩,
        hpages _ (fun _ => rfl) (by decide)⟩, hpages _ (fun _ => rfl) (by decide)⟩,
        hpages _ (fun _ => rfl) (by decide)⟩

/-! ### The writer of one block -/

/-- Every sender and receiver, as often as the transactions name it. -/
def namedAddresses (txs : List Transaction) : List Address :=
  txs.flatMap fun t => t.fromAddr :: t.toAddr.toList

theorem mem_namedAddresses {txs : List Transaction} {a : Address} :
    a ∈ namedAddresses txs ↔ ∃ t ∈ txs, t.Mentions a := by
  unfold namedAddresses Transaction.Mentions
  rw [List.mem_flatMap]
  refine exists_congr fun t => and_congr_right fun _ => ?_
  cases t.toAddr <;> simp [eq_comm]

/-- **`tx_addresses` names each address once.** -/
theorem length_txAddresses (txs : List Transaction) :
    (txAddresses txs).length = (namedAddresses txs).dedup.length := by
  rw [← List.length_map (f := Prod.fst)]
  refine (List.perm_ext_iff_of_nodup (txAddresses_nodup txs) (List.nodup_dedup _)).mpr
    (fun a => ?_) |>.length_eq
  rw [List.mem_dedup, mem_namedAddresses]
  have hleast := txAddresses_least txs a
  constructor
  · intro hmem
    obtain ⟨p, hp, rfl⟩ := List.mem_map.mp hmem
    cases hfind : (txAddresses txs).find? fun q => q.1 = p.1 with
    | none => exact absurd (decide_eq_true rfl) (List.find?_eq_none.mp hfind p hp)
    | some q =>
        rw [hfind] at hleast
        obtain ⟨t, ht, hmentions, -⟩ := hleast.1
        exact ⟨t, ht, hmentions⟩
  · rintro ⟨t, ht, hmentions⟩
    cases hfind : (txAddresses txs).find? fun q => q.1 = a with
    | none =>
        rw [hfind] at hleast
        have hno : heightsOf txs a = ∅ := hleast
        exact absurd (mem_heightsOf ht hmentions) (by simp [hno])
    | some q =>
        have hkey := List.find?_some hfind
        exact List.mem_map.mpr ⟨q, List.mem_of_find?_eq_some hfind, of_decide_eq_true hkey⟩

/-- **When the writer of one block stays within the limit**: three parameters an address. -/
theorem withinLimit_writeBlock {b : BlockBundle} :
    WithinLimit (writeBlockStatements b) ↔ (namedAddresses b.txs).dedup.length ≤ 21845 := by
  have hrow : ∀ {V : Type} {f : V → SqlStatement} (rows : List V),
      (∀ v, (f v).binds ≤ 15) → WithinLimit (rows.map f) := by
    intro V f rows hf
    exact withinLimit_map.mpr fun v _ => (hf v).trans (by decide)
  have hone : ∀ {st : SqlStatement}, WithinLimit [st] ↔ st.binds ≤ bindLimit :=
    List.forall_mem_singleton
  have hupsert : ∀ seen, WithinLimit (SqlStatement.upsertBatch seen) ↔
      3 * seen.length ≤ bindLimit := by
    intro seen
    cases seen with
    | nil => simp [SqlStatement.upsertBatch, WithinLimit]
    | cons p rest => exact hone
  unfold writeBlockStatements
  rw [← List.singleton_append (l := b.txs.map _)]
  simp only [withinLimit_append, hone, hupsert, length_txAddresses]
  constructor
  · rintro ⟨⟨⟨⟨-, hlimit⟩, -⟩, -⟩, -⟩
    unfold bindLimit at hlimit
    omega
  · intro hlen
    have hlogs : 9 ≤ 15 := by decide
    refine ⟨⟨⟨⟨⟨?_, hrow _ fun _ => le_rfl⟩, ?_⟩, hrow _ fun _ => hlogs⟩,
      hrow _ fun _ => hlogs⟩, ?_⟩
    · exact (by decide : 12 ≤ 65535)
    · unfold bindLimit
      omega
    · exact (by decide : 3 ≤ 65535)

/-- Both writers stay within the limit, so that the tail can store what a batch can. -/
structure BindsWithinLimit (bundles : List BlockBundle) : Prop where
  each : ∀ b ∈ bundles, WithinLimit (writeBlockStatements b)
  batch : WithinLimit (batchStatements .chunks bundles)
  storable : ∀ b ∈ bundles, WithinLimit (batchStatements .chunks [b]) →
    WithinLimit (writeBlockStatements b)

/-- **No statement binds too many parameters** exactly when no block names more than 21845
different addresses. -/
theorem binds_within_limit_iff (bundles : List BlockBundle) :
    BindsWithinLimit bundles ↔ ∀ b ∈ bundles, (namedAddresses b.txs).dedup.length ≤ 21845 := by
  constructor
  · intro h b hb
    exact withinLimit_writeBlock.mp (h.each b hb)
  · intro h
    exact ⟨fun b hb => withinLimit_writeBlock.mpr (h b hb), withinLimit_batch bundles,
      fun b hb _ => withinLimit_writeBlock.mpr (h b hb)⟩

/-! ### A block of strangers -/

/-- A transaction to nobody. -/
def strangerTx (i : Nat) : Transaction where
  hash := hex0x (strangerAddress i).toList
  blockHeight := 1
  txIndex := i
  fromAddr := hex0x (strangerAddress i).toList
  toAddr := none
  value := 0
  gasLimit := 0
  gasUsed := none
  gasPrice := none
  fee := 0
  nonce := 0
  data := none
  status := 1
  contractAddress := none
  txType := .evm

/-- A block of so many transactions, each of another sender. -/
def strangersBlock (n : Nat) : BlockBundle where
  block :=
    { height := 1, hash := "0x01", parentHash := "0x00", timestamp := 0, validator := "0xval",
      gasUsed := 0, gasLimit := 0, baseFee := none, txCount := n, stateRoot := none, round := 0,
      justificationSigners := [] }
  txs := (List.range n).map strangerTx
  logs := []
  tokenTransfers := []

theorem namedAddresses_strangers {n : Nat} (hn : n ≤ 65536) :
    (namedAddresses (strangersBlock n).txs).dedup.length = n := by
  have hnamed : namedAddresses (strangersBlock n).txs =
      (List.range n).map fun i => hex0x (strangerAddress i).toList := by
    show ((List.range n).map strangerTx).flatMap _ = _
    rw [List.flatMap_map, List.map_eq_flatMap]
    rfl
  have hnodup : ((List.range n).map fun i => hex0x (strangerAddress i).toList).Nodup := by
    refine List.Nodup.map_on (fun i hi j hj h => ?_) List.nodup_range
    rw [List.mem_range] at hi hj
    exact strangerAddress_injOn (by omega) (by omega) (Vector.toList_inj.mp (hex0x_injective h))
  rw [hnamed, hnodup.dedup, List.length_map, List.length_range]

/-- **A block of 21846 senders is too much for the tail, though a batch can store it.** -/
theorem block_of_strangers_unstorable :
    WithinLimit (batchStatements .chunks [strangersBlock 21846]) ∧
      ¬ WithinLimit (writeBlockStatements (strangersBlock 21846)) ∧
      ¬ ∀ bundles, BindsWithinLimit bundles := by
  have hover : ¬ WithinLimit (writeBlockStatements (strangersBlock 21846)) := by
    rw [withinLimit_writeBlock, namedAddresses_strangers (by decide)]
    decide
  exact ⟨withinLimit_batch _, hover,
    fun h => hover ((h [strangersBlock 21846]).each _ (List.mem_singleton.mpr rfl))⟩

end SentrixIndexer
