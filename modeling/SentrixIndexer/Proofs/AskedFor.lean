/-
Whether a bundle is about the height it was fetched for.

A block comes from one call and its logs from another, and nothing ties the two
answers to each other or to the height but the filter on transaction hashes.  What is
accepted is therefore about the height asked for only as far as the nodes say so: the
block its index, each retained log its block number and block hash.
-/
import SentrixIndexer.Proofs.PlainLoop
import SentrixIndexer.Proofs.TransferCodec

namespace SentrixIndexer

open Effect

/-! ### Which answers convert -/

/-- Every number of the answers fits its column, and every log has a position. -/
structure Convertible (block : NativeBlockResponse) (logs : List RpcLog) : Prop where
  index_nonneg : 0 ≤ block.index
  count_le : (block.transactions.length : Int) ≤ i32Max
  nonce_le : ∀ t ∈ block.transactions, (t.nonce.toNat : Int) ≤ i64Max
  positioned : ∀ l ∈ logs, l.Positioned

theorem toDomainBlockFromNative_isOk {block : NativeBlockResponse} :
    (∃ d, toDomainBlockFromNative block = .ok d) ↔
      0 ≤ block.index ∧ (block.transactions.length : Int) ≤ i32Max := by
  unfold toDomainBlockFromNative
  by_cases hneg : block.index < 0
  · simp [hneg, bind, Except.bind]
  · by_cases hcount : i32Max < (block.transactions.length : Int)
    · simp [hneg, hcount, bind, Except.bind]
    · simp [hneg, hcount, pure, Except.pure, Int.not_lt.mp hneg, Int.not_lt.mp hcount]

theorem convertNativeTx_isOk {height : Int} {idx : Nat} {t : NativeBlockTx} :
    (∃ tx, convertNativeTx height idx t = .ok tx) ↔
      (idx : Int) ≤ i32Max ∧ (t.nonce.toNat : Int) ≤ i64Max := by
  unfold convertNativeTx
  by_cases hidx : i32Max < (idx : Int)
  · simp [hidx, bind, Except.bind]
  · by_cases hnonce : i64Max < (t.nonce.toNat : Int)
    · simp [hidx, hnonce, bind, Except.bind]
    · simp [hidx, hnonce, pure, Except.pure, Int.not_lt.mp hidx, Int.not_lt.mp hnonce]

theorem convertNativeTxs_isOk {height : Int} {ts : List NativeBlockTx} :
    ∀ {idx : Nat}, (idx + ts.length : Int) ≤ i32Max + 1 →
      ((∃ txs, convertNativeTxs height idx ts = .ok txs) ↔
        ∀ t ∈ ts, (t.nonce.toNat : Int) ≤ i64Max) := by
  induction ts with
  | nil =>
      intro idx _
      simp [convertNativeTxs]
  | cons t rest ih =>
      intro idx hidx
      have hone := @convertNativeTx_isOk height idx t
      have hrest := @ih (idx + 1) (by simp at hidx ⊢; omega)
      rw [List.forall_mem_cons, ← hrest]
      constructor
      · rintro ⟨txs, h⟩
        unfold convertNativeTxs at h
        obtain ⟨tx, htx, h⟩ := bind_ok.mp h
        obtain ⟨txs', htxs, -⟩ := bind_ok.mp h
        exact ⟨(hone.mp ⟨tx, htx⟩).2, txs', htxs⟩
      · rintro ⟨hnonce, txs, htxs⟩
        obtain ⟨tx, htx⟩ := hone.mpr ⟨by simp at hidx; omega, hnonce⟩
        refine ⟨tx :: txs, ?_⟩
        unfold convertNativeTxs
        exact bind_ok.mpr ⟨tx, htx, bind_ok.mpr ⟨txs, htxs, rfl⟩⟩

theorem mapM_toDomainLog_isOk {logs : List RpcLog} :
    (∃ ds, logs.mapM toDomainLog = .ok ds) ↔ ∀ l ∈ logs, l.Positioned := by
  induction logs with
  | nil => simp [List.mapM_nil, pure, Except.pure]
  | cons l rest ih =>
      rw [List.forall_mem_cons, ← ih, positioned_iff, List.mapM_cons]
      constructor
      · rintro ⟨ds, h⟩
        obtain ⟨d, hd, h⟩ := bind_ok.mp h
        obtain ⟨ds', hds, -⟩ := bind_ok.mp h
        exact ⟨⟨d, hd⟩, ds', hds⟩
      · rintro ⟨⟨d, hd⟩, ds, hds⟩
        exact ⟨d :: ds, bind_ok.mpr ⟨d, hd, bind_ok.mpr ⟨ds, hds, rfl⟩⟩⟩

/-- The image of every log is among the converted ones. -/
theorem mem_of_mapM_toDomainLog {logs : List RpcLog} :
    ∀ {ds : List Log}, logs.mapM toDomainLog = .ok ds →
      ∀ l ∈ logs, ∃ d ∈ ds, toDomainLog l = .ok d := by
  induction logs with
  | nil => intro ds _ l hl; exact absurd hl (by simp)
  | cons l₀ rest ih =>
      intro ds h l hl
      rw [List.mapM_cons] at h
      obtain ⟨d, hd, h⟩ := bind_ok.mp h
      obtain ⟨ds', hds, h⟩ := bind_ok.mp h
      obtain rfl := Except.ok.inj h
      rcases List.mem_cons.mp hl with rfl | hmem
      · exact ⟨d, List.mem_cons_self .., hd⟩
      · obtain ⟨d', hd', hl'⟩ := ih hds l hmem
        exact ⟨d', List.mem_cons_of_mem _ hd', hl'⟩

theorem orInvalid_eq_ok {α : Type} {x : Except ConvertError α} {a : α} :
    orInvalid x = .ok a ↔ x = .ok a :=
  ⟨orInvalid_ok, fun h => by rw [h]; rfl⟩

/-- **Answers are rejected only for a number out of range or a log without a position.** -/
theorem assemble_isOk {block : NativeBlockResponse} {logs : List RpcLog} :
    (∃ b, assemble block logs = .ok b) ↔ Convertible block logs := by
  constructor
  · rintro ⟨b, h⟩
    unfold assemble at h
    obtain ⟨d, hd, h⟩ := bind_ok.mp h
    obtain ⟨txs, htxs, h⟩ := bind_ok.mp h
    obtain ⟨ds, hds, -⟩ := bind_ok.mp h
    obtain ⟨hindex, hcount⟩ := toDomainBlockFromNative_isOk.mp ⟨d, orInvalid_eq_ok.mp hd⟩
    refine ⟨hindex, hcount, ?_, mapM_toDomainLog_isOk.mp ⟨ds, orInvalid_eq_ok.mp hds⟩⟩
    exact (convertNativeTxs_isOk (by simp; omega)).mp ⟨txs, orInvalid_eq_ok.mp htxs⟩
  · intro h
    obtain ⟨d, hd⟩ := toDomainBlockFromNative_isOk.mpr ⟨h.index_nonneg, h.count_le⟩
    have hcount := h.count_le
    obtain ⟨txs, htxs⟩ := (@convertNativeTxs_isOk block.index _ 0
      (by simp; omega)).mpr h.nonce_le
    obtain ⟨ds, hds⟩ := mapM_toDomainLog_isOk.mpr h.positioned
    let kept := ds.filter (backedByTx txs)
    refine ⟨⟨d, txs, kept, kept.filterMap decodeTransfer⟩, ?_⟩
    unfold assemble
    exact bind_ok.mpr ⟨d, orInvalid_eq_ok.mpr hd, bind_ok.mpr ⟨txs, orInvalid_eq_ok.mpr htxs,
      bind_ok.mpr ⟨ds, orInvalid_eq_ok.mpr hds, rfl⟩⟩⟩

/-- The log is of a transaction the block lists. -/
def RpcLog.OfBlock (l : RpcLog) (block : NativeBlockResponse) : Prop :=
  ∃ t ∈ block.transactions, l.transactionHash.map (fun h => hex0x h.toList) = some (with0x t.txid)

/-- **The logs that are kept** are the images of those that the block's transactions back. -/
theorem assemble_keeps {block : NativeBlockResponse} {logs : List RpcLog} {b : BlockBundle}
    (h : assemble block logs = .ok b) {l : RpcLog} (hl : l ∈ logs) {row : Log}
    (hrow : toDomainLog l = .ok row) : row ∈ b.logs ↔ l.OfBlock block := by
  have hhashes := assemble_hashes h
  have htx := (converts_of_ok hrow).txHash
  have hbacked : backedByTx b.txs row = true ↔ l.OfBlock block := by
    have hmem : backedByTx b.txs row = true ↔ row.txHash ∈ b.txs.map Transaction.hash := by
      simp [backedByTx, List.mem_map]
    rw [hmem, hhashes, List.mem_map, RpcLog.OfBlock, htx]
    simp only [Option.some.injEq, eq_comm]
  rw [← hbacked]
  unfold assemble at h
  obtain ⟨d, -, h⟩ := bind_ok.mp h
  obtain ⟨txs, -, h⟩ := bind_ok.mp h
  obtain ⟨ds, hds, h⟩ := bind_ok.mp h
  obtain rfl := Except.ok.inj h
  obtain ⟨row', hmem, hrow'⟩ := mem_of_mapM_toDomainLog (orInvalid_eq_ok.mp hds) l hl
  obtain rfl : row = row' := Except.ok.inj (hrow.symm.trans hrow')
  rw [List.mem_filter]
  exact ⟨fun hm => hm.2, fun hb => ⟨hmem, hb⟩⟩

/-! ### What it is to be about a height -/

/-- The node says that the log was emitted in the block. -/
def RpcLog.EmittedIn (l : RpcLog) (block : NativeBlockResponse) : Prop :=
  l.blockHash.map (fun h => hex0x h.toList) = some ((with0x block.hash).map Char.toLower)

/-- The bundle describes the height: its rows are of that height, and what it keeps of the
logs was emitted in its block. -/
structure Describes (h : Int) (block : NativeBlockResponse) (logs : List RpcLog)
    (b : BlockBundle) : Prop where
  block_height : b.block.height = h
  tx_height : ∀ t ∈ b.txs, t.blockHeight = h
  log_height : ∀ d ∈ b.logs, d.blockHeight = h
  emitted : ∀ l ∈ logs, ∀ d ∈ b.logs, toDomainLog l = .ok d → l.EmittedIn block

/-- The answers are about the height: the block has it for its index, and each log of one of
its transactions has it for its block number and the block's hash for its block hash. -/
structure About (h : Int) (block : NativeBlockResponse) (logs : List RpcLog) : Prop where
  index : block.index = h
  number : ∀ l ∈ logs, l.OfBlock block → l.blockNumber.map heightOfU64 = some h
  emitted : ∀ l ∈ logs, l.OfBlock block → l.EmittedIn block

theorem describes_iff {h : Int} {block : NativeBlockResponse} {logs : List RpcLog}
    {b : BlockBundle} (hb : assemble block logs = .ok b) :
    Describes h block logs b ↔ About h block logs := by
  obtain ⟨hwf, hindex, hfrom⟩ := assemble_ok hb
  constructor
  · intro hd
    have hof : ∀ l ∈ logs, l.OfBlock block → ∃ d ∈ b.logs, toDomainLog l = .ok d := by
      intro l hl hl'
      obtain ⟨d, hconv⟩ := positioned_iff.mp ((assemble_isOk.mp ⟨b, hb⟩).positioned l hl)
      exact ⟨d, (assemble_keeps hb hl hconv).mpr hl', hconv⟩
    refine ⟨hindex.symm.trans hd.block_height, fun l hl hl' => ?_, fun l hl hl' => ?_⟩
    · obtain ⟨d, hmem, hconv⟩ := hof l hl hl'
      rw [(converts_of_ok hconv).blockHeight, hd.log_height d hmem]
    · obtain ⟨d, hmem, hconv⟩ := hof l hl hl'
      exact hd.emitted l hl d hmem hconv
  · intro ha
    refine ⟨hindex.trans ha.index, fun t ht => ?_, fun d hd => ?_, fun l hl d hd hconv => ?_⟩
    · rw [hwf.txHeight t ht, hindex, ha.index]
    · obtain ⟨l, hl, hconv⟩ := hfrom d hd
      have hnum := ha.number l hl ((assemble_keeps hb hl hconv).mp hd)
      rw [(converts_of_ok hconv).blockHeight] at hnum
      exact Option.some.inj hnum
    · exact ha.emitted l hl ((assemble_keeps hb hl hconv).mp hd)

/-! ### Fetching one height -/

/-- Nodes that answer every height with this block and these logs. -/
def answering (block : NativeBlockResponse) (logs : List RpcLog) : NodeTables where
  tip := .error (.rpc "")
  block := fun _ => .ok (some block)
  logs := fun _ => .ok logs
  header := fun _ => .ok none

/-- The answers for the height are rejected: it is negative, or they do not convert. -/
def Rejected (h : Int) (block : NativeBlockResponse) (logs : List RpcLog) : Prop :=
  h < 0 ∨ ¬ Convertible block logs

theorem heightAsU64_eq_none {h : Int} : heightAsU64 h = none ↔ h < 0 := by
  unfold heightAsU64
  split
  · simp
    omega
  · simp
    omega

/-- A fetch comes to the bundle of the answers, or to an error. -/
theorem answering_outcome (h : Int) (block : NativeBlockResponse) (logs : List RpcLog) :
    (Rejected h block logs ∧ ∃ e, (answering block logs).outcome h = .error e) ∨
      ¬ Rejected h block logs ∧ ∃ b, assemble block logs = .ok b ∧
        (answering block logs).outcome h = .ok (some b) := by
  rcases ho : (answering block logs).outcome h with e | o
  · refine .inl ⟨?_, e, rfl⟩
    by_contra hrej
    simp only [Rejected, not_or, not_not] at hrej
    obtain ⟨b, hb⟩ := assemble_isOk.mpr hrej.2
    have hlogs : (answering block logs).logsAt h = .ok logs :=
      if_neg (mt heightAsU64_eq_none.mp hrej.1)
    rw [NodeTables.outcome_of_some rfl hlogs hb] at ho
    exact absurd ho (by simp)
  · cases o with
    | none => exact absurd (NodeTables.outcome_none ho) (by simp [answering])
    | some b =>
        obtain ⟨block', logs', hblock, hlogs, hb⟩ := NodeTables.outcome_some ho
        obtain rfl := Option.some.inj (Except.ok.inj hblock)
        unfold NodeTables.logsAt at hlogs
        by_cases hneg : heightAsU64 h = none
        · simp [hneg] at hlogs
        · rw [if_neg hneg] at hlogs
          obtain rfl : logs = logs' := Except.ok.inj hlogs
          refine .inr ⟨?_, b, hb, rfl⟩
          simp only [Rejected, not_or, not_not]
          exact ⟨mt heightAsU64_eq_none.mpr hneg, assemble_isOk.mp ⟨b, hb⟩⟩

section Runs

variable {block : NativeBlockResponse} {logs : List RpcLog} {i : TaskId} {h : Int}

/-- A fetch that is not rejected can come to its bundle. -/
theorem run_fetchOne {b : BlockBundle} (hb : assemble block logs = .ok b) (hh : 0 ≤ h)
    (w : World Stream) :
    ∃ w', Run (undisturbed (answering block logs).rpc i) w (fetchOne h).run.toProg w'
      (.ok (some b)) := by
  have hlogs : (answering block logs).logsAt h = .ok logs :=
    if_neg (mt heightAsU64_eq_none.mp (not_lt.mpr hh))
  obtain ⟨w₁, hblock, -⟩ := run_chainCall (n := answering block logs) (i := i) (c := .restBlock h) w
  obtain ⟨w₂, hrun, -⟩ := run_logs (i := i) hlogs w₁
  refine ⟨w₂, run_seq (run_withRetry hblock) (run_seq (run_withRetry hrun) ?_)⟩
  have hlift : Run (undisturbed (answering block logs).rpc i) w₂
      (Script.toProgE (liftM (assemble block logs) : SyncScript BlockBundle)).run w₂ (.ok b) := by
    rw [hb]
    exact Run.pure _ _
  exact run_seq hlift (Run.pure _ _)

/-- What ingesting the height may leave. -/
theorem alone_ingestOne_answering (analytics : Bool) (w : World Stream) :
    Alone (answering block logs).rpc i (Script.toProgE (ingestOne analytics h)).run (fun r w' =>
      ((∃ e, r = .error e) ∧ w'.store = w.store) ∨ ¬ Rejected h block logs ∧
        ∃ b, assemble block logs = .ok b ∧ (Txn.writeBlock b).run w.store = .ok w'.store) w := by
  refine wp_scriptE_bind (wp_mono (fun r w₁ hr => ?_)
    (reading_withRetry (x := (answering block logs).block h) (reading_chainCall fun _ => rfl)
      w).alone)
  obtain ⟨hq₁, rfl⟩ := hr
  refine wp_scriptE_bind (wp_mono (fun r w₂ hr => ?_)
    (reading_withRetry (reading_logs h) w₁).alone)
  obtain ⟨hq₂, rfl⟩ := hr
  have hs := hq₁.trans hq₂
  unfold NodeTables.logsAt
  by_cases hneg : heightAsU64 h = none
  · rw [if_pos hneg]
    exact .inl ⟨⟨_, rfl⟩, hs.store⟩
  · rw [if_neg hneg]
    show Alone _ i (Script.toProgE (liftM (assemble block logs) >>= _)).run _ w₂
    refine wp_scriptE_bind ?_
    rcases hb : assemble block logs with e | b
    · exact .inl ⟨⟨_, rfl⟩, hs.store⟩
    · show Alone _ i (Script.toProgE (writeBlock analytics b)).run _ w₂
      refine wp_mono (fun r w₃ hr => ?_) (alone_write (.writeBlock b) analytics _ w₂)
      rw [← hs.store]
      rcases hr.store with hrun | ⟨he, hsame⟩
      · refine .inr ⟨?_, b, rfl, hrun⟩
        simp only [Rejected, not_or, not_not]
        exact ⟨mt heightAsU64_eq_none.mpr hneg, assemble_isOk.mp ⟨b, hb⟩⟩
      · exact .inl ⟨he, hsame⟩

end Runs

/-- What either writer accepts for the height describes it; anything else it refuses with an
error, and the store keeps its rows and its cursor. -/
structure DescribesAskedFor (h : Int) (block : NativeBlockResponse) (logs : List RpcLog) :
    Prop where
  fetch : ∀ (i : TaskId) (w w' : World Stream) (r : Except SyncError (Option BlockBundle)),
    Run (undisturbed (answering block logs).rpc i) w (fetchOne h).run.toProg w' r →
      w'.store = w.store ∧
        ((∃ e, r = .error e) ∨ ∃ b, r = .ok (some b) ∧ Describes h block logs b)
  ingest : ∀ (i : TaskId) (analytics : Bool) (w w' : World Stream) (r : Except SyncError Unit),
    Run (undisturbed (answering block logs).rpc i) w (ingestOne analytics h).run.toProg w' r →
      ((∃ e, r = .error e) ∧ w'.store = w.store) ∨
        ∃ b, assemble block logs = .ok b ∧ Describes h block logs b ∧
          (Txn.writeBlock b).run w.store = .ok w'.store

theorem about_of_fetch {h : Int} {block : NativeBlockResponse} {logs : List RpcLog}
    (hd : DescribesAskedFor h block logs) (hrej : ¬ Rejected h block logs) :
    About h block logs := by
  simp only [Rejected, not_or, not_not] at hrej
  obtain ⟨b, hb⟩ := assemble_isOk.mpr hrej.2
  obtain ⟨w', hrun⟩ := run_fetchOne (i := 0) hb (not_lt.mp hrej.1) (World.init [])
  rcases (hd.fetch 0 _ w' _ hrun).2 with ⟨e, he⟩ | ⟨b', hb', hdesc⟩
  · exact absurd he (by simp)
  · obtain rfl : b = b' := Option.some.inj (Except.ok.inj hb')
    exact (describes_iff hb).mp hdesc

/-- **A bundle describes the height it was asked for** exactly when the answers do, or are
rejected for something else: index, block numbers and block hashes are taken on trust. -/
theorem describes_asked_for_iff (h : Int) (block : NativeBlockResponse) (logs : List RpcLog) :
    DescribesAskedFor h block logs ↔ Rejected h block logs ∨ About h block logs := by
  constructor
  · intro hd
    by_cases hrej : Rejected h block logs
    · exact .inl hrej
    · exact .inr (about_of_fetch hd hrej)
  · intro hcond
    have hdesc : ¬ Rejected h block logs → ∀ b, assemble block logs = .ok b →
        Describes h block logs b :=
      fun hrej b hb => (describes_iff hb).mpr (hcond.resolve_left hrej)
    refine ⟨fun i w w' r hrun => ?_, fun i analytics w w' r hrun => ?_⟩
    · obtain ⟨hq, rfl⟩ := wpAlone_run hrun (reading_fetchOne h w).alone
      refine ⟨hq.store, ?_⟩
      rcases answering_outcome h block logs with ⟨-, e, he⟩ | ⟨hrej, b, hb, ho⟩
      · exact .inl ⟨e, he⟩
      · exact .inr ⟨b, ho, hdesc hrej b hb⟩
    · rcases wpAlone_run hrun (alone_ingestOne_answering analytics w) with hsame | ⟨hrej, b, hb, hrun⟩
      · exact .inl hsame
      · exact .inr ⟨b, hb, hdesc hrej b hb, hrun⟩

/-- **Asked for 7, a node answers with block 9**, and the fetch hands out its bundle. -/
theorem wrong_index_accepted : ¬ ∀ h block logs, DescribesAskedFor h block logs := by
  intro hall
  have hrej : ¬ Rejected 7 (bareBlock 9 "aa" []) [] := by
    simp only [Rejected, not_or, not_not]
    exact ⟨by decide, ⟨by decide, by decide, by simp [bareBlock], by simp⟩⟩
  exact absurd (about_of_fetch (hall 7 (bareBlock 9 "aa" []) []) hrej).index (by decide)

end SentrixIndexer
