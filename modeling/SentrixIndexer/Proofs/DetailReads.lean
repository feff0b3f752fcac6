/-
What the detail routes answer while the indexer goes on.

A request reads the store by several statements, and the indexer may commit between any two
of them.  Over nodes that serve one chain this does not show: what a statement finds is a part
of the chain, and nothing found before is lost, so the parts of an answer belong to one block.
-/
import SentrixIndexer.Api.Detail
import SentrixIndexer.Proofs.OneChain

namespace SentrixIndexer

open Effect Relational

variable {χ : Type} {rpc : Rpc χ} {moves : χ → χ → Prop} {chain : χ}

theorem assemble_parts {block : NativeBlockResponse} {logs : List RpcLog} {b : BlockBundle}
    (h : assemble block logs = .ok b) :
    toDomainBlockFromNative block = .ok b.block ∧ toDomainTxsFromNative block = .ok b.txs := by
  unfold assemble at h
  obtain ⟨domBlock, hblock, h⟩ := bind_ok.mp h
  obtain ⟨domTxs, htxs, h⟩ := bind_ok.mp h
  obtain ⟨domLogs, -, h⟩ := bind_ok.mp h
  obtain rfl := Except.ok.inj h
  exact ⟨orInvalid_ok hblock, orInvalid_ok htxs⟩

/-! ### Requests -/

/-- The database while the indexer goes on. -/
abbrev liveReads (rpc : Rpc χ) (moves : χ → χ → Prop) (chain : χ) : Handler DetailSig Store :=
  readHandle.under (Meanwhile rpc moves chain)

/-- What a request comes to, whatever the indexer does meanwhile. -/
abbrev Reads (rpc : Rpc χ) (moves : χ → χ → Prop) (chain : χ) {α : Type} (p : DetailScript α)
    (Q : α → Store → Prop) (s : Store) : Prop :=
  wp readHandle (fun _ => True) (Meanwhile rpc moves chain) (fun _ _ => True) p.toProg Q s

/-- **The rule of statements**: each finds what is in a later store, a part of the chain too. -/
theorem reads_call (hone : OneChain rpc) {α : Type} {call : DetailRead}
    {k : call.Answer → DetailScript α} {Q : α → Store → Prop} {s : Store}
    (h : ∀ s₁ answer, Extends s s₁ → StoresChain rpc s₁ →
      (call.Finds s₁ answer ∨ ∃ e, call.Failed e answer) → Reads rpc moves chain (k answer) Q s₁) :
    Reads rpc moves chain (.call call k) Q s := by
  intro s₁ hmeanwhile _ answer s₂ hanswer
  obtain ⟨rfl, hanswer⟩ := hanswer
  obtain ⟨hext, hchain⟩ := hone.meanwhile hmeanwhile
  exact ⟨trivial, trivial, h s₂ answer hext hchain hanswer⟩

/-! ### Requests while nothing happens -/

/-- One way to find the rows. -/
def readServe : Server DetailSig Store
  | s, .getByHeight h => (.ok (Blocks.getByHeight s h), s)
  | s, .forBlock h => (.ok (sortByKey Transaction.txIndex (Transactions.ofBlock s h)), s)
  | s, .getByHash hash => (.ok (Transactions.getByHash s hash), s)
  | s, .forTx hash => (.ok (sortByKey Log.logIndex (Logs.ofTx s hash)), s)
  | s, .listBefore before limit => (.ok (Blocks.listBefore s before limit), s)

theorem readHandle_readServe (s : Store) (r : DetailRead) :
    readHandle s r (readServe s r).1 (readServe s r).2 := by
  cases r with
  | getByHeight h => exact ⟨rfl, Or.inl rfl⟩
  | forBlock h => exact ⟨rfl, Or.inl ⟨_, ⟨sortByKey_perm _ _, sortByKey_sorted _ _⟩, rfl⟩⟩
  | getByHash hash => exact ⟨rfl, Or.inl rfl⟩
  | forTx hash => exact ⟨rfl, Or.inl ⟨_, ⟨sortByKey_perm _ _, sortByKey_sorted _ _⟩, rfl⟩⟩
  | listBefore before limit => exact ⟨rfl, Or.inl rfl⟩

/-- What follows the first statement of a request is answered at a later moment. -/
def interrupted (later : Store) : Server DetailSig Store
  | _, .forBlock h => readServe later (.forBlock h)
  | _, .forTx hash => readServe later (.forTx hash)
  | s, r => readServe s r

/-- So it may be, while the indexer goes on. -/
theorem run_interrupted {s later : Store} (hs : Meanwhile rpc moves chain s s)
    (hlater : Meanwhile rpc moves chain s later)
    (hend : Meanwhile rpc moves chain later later) {α : Type} {p : DetailScript α} {a : α} :
    ∀ {t t' : Store}, t = s ∨ t = later → Run (interrupted later).toHandler t p.toProg t' a →
      Run (liveReads rpc moves chain) t p.toProg t' a ∧ (t' = s ∨ t' = later) := by
  induction p with
  | pure b =>
      intro t t' ht h
      obtain ⟨rfl, rfl⟩ := run_pure.mp h
      exact ⟨Run.pure _ _, ht⟩
  | call call k ih =>
      intro t t' ht h
      obtain ⟨answer, t₁, hanswer, hk⟩ := run_call.mp h
      have hstay : Meanwhile rpc moves chain t t := by
        rcases ht with rfl | rfl
        · exact hs
        · exact hend
      have hmove : Meanwhile rpc moves chain t later := by
        rcases ht with rfl | rfl
        · exact hlater
        · exact hend
      -- The statement is answered here, or where the indexer has come meanwhile.
      have hwhere : ∃ t₀, Meanwhile rpc moves chain t t₀ ∧ (t₀ = s ∨ t₀ = later) ∧
          (answer, t₁) = readServe t₀ call := by
        cases call with
        | forBlock h => exact ⟨later, hmove, Or.inr rfl, hanswer⟩
        | forTx hash => exact ⟨later, hmove, Or.inr rfl, hanswer⟩
        | _ => exact ⟨t, hstay, ht, hanswer⟩
      obtain ⟨t₀, hmeanwhile, ht₀, hserved⟩ := hwhere
      obtain ⟨rfl, hfinds⟩ : readHandle t₀ call answer t₁ := by
        have hread := readHandle_readServe t₀ call
        rwa [← hserved] at hread
      obtain ⟨hrun, hend⟩ := ih answer ht₀ hk
      exact ⟨Run.call ⟨t₁, hmeanwhile, rfl, hfinds⟩ hrun, hend⟩

/-- A request that is interrupted so, executed. -/
def readAcross (s later : Store) {α : Type} (p : DetailScript α) : Option (Store × α) :=
  exec (interrupted later) 10 s p.toProg

theorem run_across {w w' : World χ}
    (hw : Reachable (indexer rpc moves) (World.init chain) (.idle w))
    (hpath : Relation.ReflTransGen (Move (indexer rpc moves)) (.idle w) (.idle w')) {α : Type}
    {p : DetailScript α} {check : Store × α → Bool}
    (h : (readAcross w.store w'.store p).any check = true) :
    ∃ s' a, Run (liveReads rpc moves chain) w.store p.toProg s' a ∧
      Meanwhile rpc moves chain s' w'.store ∧ check (s', a) = true := by
  obtain ⟨s', a, hrun, hcheck⟩ := exists_run_of_execWhile
    (H := (interrupted w'.store).toHandler) (fun _ _ _ => rfl) 10 w.store p.toProg check h
  have hlater : Meanwhile rpc moves chain w.store w'.store := ⟨_, _, hw, hpath, rfl, rfl⟩
  have hend : Meanwhile rpc moves chain w'.store w'.store :=
    ⟨_, _, hw.moves hpath, .refl, rfl, rfl⟩
  obtain ⟨hlive, hwhere⟩ :=
    run_interrupted ⟨_, _, hw, .refl, rfl, rfl⟩ hlater hend (Or.inl rfl) hrun
  refine ⟨s', a, hlive, ?_, hcheck⟩
  rcases hwhere with rfl | rfl
  · exact hlater
  · exact hend

/-! ### Blocks -/

/-- The transactions of a block are found in the order of the block. -/
theorem StoredWhole.txs_found {s : Store} {b : BlockBundle} (h : StoredWhole s b)
    (hwf : WellFormed b) (hhashes : (b.txs.map Transaction.hash).Nodup) {rows : List Transaction}
    (hrows : OrderedBy Transaction.txIndex (Transactions.ofBlock s b.block.height) rows) :
    rows = b.txs := by
  refine hrows.eq ?_ hwf.txSorted
  refine (List.perm_ext_iff_of_nodup (s.transactions.rows_nodup.filter _) hhashes.of_map).mpr ?_
  intro x
  rw [h.txs, List.mem_filter, decide_eq_true_eq]

/-- What `/blocks/:height` may answer to a client that asks in this state: the block the nodes
serve at the height, with all its transactions in order; that there is none, and then none is
stored and the height is above the cursor or was stepped over; or an error. -/
inductive BlockAnswered (rpc : Rpc χ) (w : World χ) (raw : String) :
    Except ApiError DetailResponse → Prop
  | found {h : Int} {served : NativeBlockResponse} {block : Block} {txs : List Transaction}
      (hraw : parseI64 raw = some h) (hserved : Served rpc h served)
      (hblock : toDomainBlockFromNative served = .ok block)
      (htxs : toDomainTxsFromNative served = .ok txs) :
      BlockAnswered rpc w raw (.ok ⟨⟨.ofBlock block, txs.map .ofTransaction⟩⟩)
  | missing {h : Int} (hraw : parseI64 raw = some h) (hgone : w.store.blocks.contains h = false)
      (hskipped : 0 ≤ h → h ≤ w.store.cursor → SteppedOver w h) :
      BlockAnswered rpc w raw (.error (.notFound "block"))
  | invalid (hraw : parseI64 raw = none) : BlockAnswered rpc w raw
      (.error (.invalidQuery "invalid height: must be a non-negative integer"))
  | failed (e : String) : BlockAnswered rpc w raw (.error (.db e))

section

variable {c : Config SyncSig TaskId (World χ) Unit}

/-- A height up to the cursor that has no block row was stepped over. -/
theorem OneChain.steppedOver (hone : OneChain rpc)
    (hc : Reachable (indexer rpc moves) (World.init chain) c) {h : Int} (h0 : 0 ≤ h)
    (hle : h ≤ c.world.store.cursor) (hgone : c.world.store.blocks.contains h = false) :
    SteppedOver c.world h := by
  have hbelow := ((indexer_verified hone.heights moves chain).reachable hc).1.below
  rcases (reachable_accounted hone.heights hc).covers (hbelow h h0 (by omega)) with hhas | hskip
  · obtain ⟨b, -, hfind, -⟩ := hhas
    rw [Table.contains_of_find? hfind] at hgone
    exact absurd hgone (by decide)
  · exact hskip

/-- A request for a block, statement by statement; a block that was found is stored. -/
theorem reads_blockDetail (hone : OneChain rpc)
    (hc : Reachable (indexer rpc moves) (World.init chain) c) (raw : String) :
    Reads rpc moves chain (blockDetail raw)
      (fun answer s' => BlockAnswered rpc c.world raw answer ∧
        ∀ r, answer = .ok r → ∀ h, parseI64 raw = some h → s'.blocks.contains h = true)
      c.world.store := by
  unfold blockDetail
  cases hraw : parseI64 raw with
  | none => exact ⟨.invalid hraw, fun _ h => by cases h⟩
  | some h =>
      refine reads_call hone fun s₁ found hext hchain hfound => ?_
      rcases hfound with rfl | ⟨e, rfl⟩
      · cases hrow : Blocks.getByHeight s₁ h with
        | none =>
            -- What is not there now was not there when the request came in.
            have hgone : c.world.store.blocks.contains h = false := by
              refine Bool.eq_false_iff.mpr fun hcon => ?_
              have := hext.blocks.contains hcon
              rw [Table.find?_eq_none.mp hrow] at this
              exact absurd this (by decide)
            exact ⟨.missing hraw hgone fun h0 hle => hone.steppedOver hc h0 hle hgone,
              fun _ h => by cases h⟩
        | some row =>
            refine reads_call hone fun s₂ txs hext₂ hchain₂ hfound₂ => ?_
            rcases hfound₂ with ⟨rows, hrows, rfl⟩ | ⟨e, rfl⟩
            · have hstored := hext₂.blocks _ _ hrow
              obtain ⟨hmem, rfl⟩ := Table.find?_eq_some.mp hstored
              obtain ⟨b, hb, rfl, hwhole⟩ := hchain₂.blocks row hmem
              have hco := hone.coherent hb
              obtain rfl := hwhole.txs_found hco.toWellFormed hco.hashes hrows
              obtain ⟨served, logs, hserved, -, ha⟩ := hb
              refine ⟨.found hraw hserved (assemble_parts ha).1 (assemble_parts ha).2, ?_⟩
              intro _ _ h hh
              rw [← Option.some.inj hh]
              exact Table.contains_of_find? hstored
            · exact ⟨.failed e, fun _ h => by cases h⟩
      · exact ⟨.failed e, fun _ h => by cases h⟩

/--
**`/blocks/:height` serves the chain.**  Whatever the indexer commits between the statements of
the request, a block is answered as the nodes serve it, with all its transactions in order; and
only a height that is above the cursor or was stepped over is answered not to be there.
-/
theorem block_detail_serves_chain (hone : OneChain rpc)
    (hc : Reachable (indexer rpc moves) (World.init chain) c) {raw : String} {s' : Store}
    {answer : Except ApiError DetailResponse}
    (hrun : Run (liveReads rpc moves chain) c.world.store (blockDetail raw).toProg s' answer) :
    BlockAnswered rpc c.world raw answer :=
  (wp_run_under hrun (reads_blockDetail hone hc raw)).1

/-- The block at height 0; the next one is committed while the request is answered. -/
theorem block_detail_serves_chain_gap :
    ∃ c, Reachable (indexer gapNodes.rpc fun _ _ => False) (World.init []) c ∧
      c.world.store.blocks.rows.length = 1 ∧ ∃ s' r, s'.blocks.rows.length = 2 ∧
        Run (liveReads gapNodes.rpc (fun _ _ => False) []) c.world.store
          (blockDetail "0").toProg s' (.ok r) ∧
        BlockAnswered gapNodes.rpc c.world "0" (.ok r) := by
  obtain ⟨w, w', hw, -, hpath, hcheck⟩ := gapNodes.exists_twoMoments 0
    (fun s s' => s.blocks.rows.length = 1 &&
      (readAcross s s' (blockDetail "0")).any fun a =>
        a.1.blocks.rows.length = 2 && a.2.toOption.isSome) (by decide +kernel)
  obtain ⟨hone, hacross⟩ := Bool.and_eq_true_iff.mp hcheck
  obtain ⟨s', answer, hrun, -, hanswer⟩ := run_across hw hpath hacross
  obtain ⟨htwo, hsome⟩ := Bool.and_eq_true_iff.mp hanswer
  obtain ⟨r, rfl⟩ : ∃ r, answer = .ok r := ⟨_, eq_valueOf hsome⟩
  exact ⟨_, hw, of_decide_eq_true hone, s', r, of_decide_eq_true htwo, hrun,
    block_detail_serves_chain gapNodes_oneChain hw hrun⟩

/-! ### Transactions -/

/-- The transaction with this hash in the bundle, and its logs by their index. -/
structure OnChain (rpc : Rpc χ) (hash : Hash) (b : BlockBundle) (t : Transaction)
    (logs : List Log) : Prop where
  fetched : Fetched rpc b
  tx : t ∈ b.txs
  hashed : t.hash = hash
  perm : logs.Perm (b.logs.filter fun l => l.txHash = hash)
  sorted : logs.Pairwise fun l m => l.logIndex < m.logIndex

/-- **A hash is on the chain once**, with one list of logs. -/
theorem OnChain.unique (hone : OneChain rpc) {hash : Hash} {b b' : BlockBundle}
    {t t' : Transaction} {logs logs' : List Log} (h : OnChain rpc hash b t logs)
    (h' : OnChain rpc hash b' t' logs') : b = b' ∧ t = t' ∧ logs = logs' := by
  have hsame : t.hash = t'.hash := h.hashed.trans h'.hashed.symm
  obtain rfl := hone.bundle_eq_of_hash h.fetched h'.fetched h.tx h'.tx hsame
  refine ⟨rfl, List.inj_on_of_nodup_map (hone.coherent h.fetched).hashes h.tx h'.tx hsame, ?_⟩
  refine (h.perm.trans h'.perm.symm).eq_of_pairwise ?_ h.sorted h'.sorted
  exact fun _ _ _ _ hab hba => absurd hab (lt_asymm hba)

/-- **What the statements of a request find of a transaction is what the chain has of it.** -/
theorem StoresChain.onChain {s s₁ : Store} (hone : OneChain rpc) (h₁ : StoresChain rpc s₁)
    (hext : Extends s s₁) {hash : Hash} {t : Transaction}
    (ht : Transactions.getByHash s hash = some t) {logs : List Log}
    (hlogs : OrderedBy Log.logIndex (Logs.ofTx s₁ hash) logs) :
    ∃ b, b.block.height = t.blockHeight ∧ b.block ∈ s₁.blocks.rows ∧ OnChain rpc hash b t logs := by
  obtain ⟨hmem, rfl⟩ := Table.find?_eq_some.mp (hext.transactions _ _ ht)
  obtain ⟨b, hb, hheight, hwhole, htb⟩ := h₁.bundle_of_tx hmem
  have hco := hone.coherent hb
  have hnodup := hone.logIndexes_nodup hb
  -- A log of the hash stands in a bundle that has the hash, and there is one.
  have hperm : (Logs.ofTx s₁ t.hash).Perm (b.logs.filter fun l => l.txHash = t.hash) := by
    refine (List.perm_ext_iff_of_nodup (s₁.logs.rows_nodup.filter _)
      (hnodup.of_map.filter _)).mpr fun l => ?_
    rw [List.mem_filter, List.mem_filter]
    refine and_congr_left fun hl => ?_
    have hlhash : l.txHash = t.hash := of_decide_eq_true hl
    constructor
    · intro hrow
      obtain ⟨b', hb', -, -, hlb⟩ := h₁.bundle_of_log hrow
      obtain ⟨u, hu, hul⟩ := (hone.coherent hb').backed l hlb
      obtain rfl := hone.bundle_eq_of_hash hb' hb hu htb (hul.trans hlhash)
      exact hlb
    · exact fun hlb => ((hwhole.logs l).mp hlb).1
  have hall := hlogs.perm.trans hperm
  refine ⟨b, hheight, hwhole.block, hb, htb, rfl, hall, ?_⟩
  have hkeys : (logs.map Log.logIndex).Nodup :=
    (hall.map _).nodup_iff.mpr (hnodup.sublist (List.filter_sublist.map _))
  exact (hlogs.sorted.and (List.pairwise_map.mp hkeys)).imp fun h => lt_of_le_of_ne h.1 h.2

/-- A client that asks in this state may be told that there is no such transaction: none is
stored, and the nodes serve none at a height the cursor has passed without stepping over it. -/
structure NotIndexed (rpc : Rpc χ) (w : World χ) (hash : Hash) : Prop where
  gone : w.store.transactions.contains hash = false
  skipped : ∀ h block, 0 ≤ h → h ≤ w.store.cursor → Served rpc h block →
    (∃ t ∈ block.transactions, with0x t.txid = hash) → SteppedOver w h

theorem OneChain.notIndexed (hone : OneChain rpc)
    (hc : Reachable (indexer rpc moves) (World.init chain) c) {hash : Hash}
    (hgone : c.world.store.transactions.contains hash = false) :
    NotIndexed rpc c.world hash := by
  refine ⟨hgone, fun h served h0 hle hserved hlists => ?_⟩
  cases hrow : c.world.store.blocks.find? h with
  | none => exact hone.steppedOver hc h0 hle (Table.find?_eq_none.mp hrow)
  | some row =>
      -- The stored block is the one served, so its transactions are stored.
      obtain ⟨hmem, rfl⟩ := Table.find?_eq_some.mp hrow
      obtain ⟨b, hb, rfl, hwhole⟩ := (hone.storesChain hc).blocks row hmem
      obtain ⟨served', logs, hserved', -, ha⟩ := hb
      obtain rfl := hone.block _ _ _ hserved hserved'
      obtain ⟨t, ht, rfl⟩ := hlists
      have hhash : with0x t.txid ∈ b.txs.map Transaction.hash := by
        rw [assemble_hashes ha]
        exact List.mem_map_of_mem ht
      obtain ⟨x, hx, hxt⟩ := List.mem_map.mp hhash
      have hstored := Table.contains_of_find? (Table.mem_rows.mp ((hwhole.txs x).mp hx).1)
      rw [hxt, hgone] at hstored
      exact absurd hstored (by decide)

/-- What `/tx/:hash` may answer to a client that asks in this state: the transaction as the
nodes serve it, with its logs by their index and the time of its block; that there is none; or
an error. -/
inductive TxAnswered (rpc : Rpc χ) (w : World χ) (raw : String) : Except ApiError TxResponse → Prop
  | found {b : BlockBundle} {t : Transaction} {logs : List Log}
      (h : OnChain rpc (toLowercase raw) b t logs) :
      TxAnswered rpc w raw (.ok ⟨.ofTransaction t, logs.map .ofLog, b.block.timestamp⟩)
  | missing (h : NotIndexed rpc w (toLowercase raw)) :
      TxAnswered rpc w raw (.error (.notFound "tx"))
  | failed (e : String) : TxAnswered rpc w raw (.error (.db e))

/-- What GraphQL may answer to `transaction(hash)` in this state. -/
inductive TxResolved (rpc : Rpc χ) (w : World χ) (raw : String) :
    Except String (Option TransactionWithLogs) → Prop
  | found {b : BlockBundle} {t : Transaction} {logs : List Log}
      (h : OnChain rpc (toLowercase raw) b t logs) :
      TxResolved rpc w raw (.ok (some ⟨.ofTransaction t, logs.map .ofLog⟩))
  | missing (h : NotIndexed rpc w (toLowercase raw)) : TxResolved rpc w raw (.ok none)
  | failed : TxResolved rpc w raw (.error sanitizeDbErr)

/-- A hash that is not found later was not stored when the request came in. -/
theorem gone_of_getByHash {s s₁ : Store} (hext : Extends s s₁) {hash : Hash}
    (h : Transactions.getByHash s₁ hash = none) : s.transactions.contains hash = false := by
  refine Bool.eq_false_iff.mpr fun hcon => ?_
  have := hext.transactions.contains hcon
  rw [Table.find?_eq_none.mp h] at this
  exact absurd this (by decide)

theorem reads_transactionDetail (hone : OneChain rpc)
    (hc : Reachable (indexer rpc moves) (World.init chain) c) (raw : String) :
    Reads rpc moves chain (transactionDetail raw)
      (fun answer s' => TxAnswered rpc c.world raw answer ∧
        ∀ r, answer = .ok r → ∃ t, Transactions.getByHash s' (toLowercase raw) = some t)
      c.world.store := by
  refine reads_call hone fun s₁ found hext hchain hfound => ?_
  rcases hfound with rfl | ⟨e, rfl⟩
  · cases htx : Transactions.getByHash s₁ (toLowercase raw) with
    | none =>
        exact ⟨.missing (hone.notIndexed hc (gone_of_getByHash hext htx)), fun _ h => by cases h⟩
    | some t =>
        refine reads_call hone fun s₂ logs hext₂ hchain₂ hfound₂ => ?_
        rcases hfound₂ with ⟨rows, hrows, rfl⟩ | ⟨e, rfl⟩
        · refine reads_call hone fun s₃ row hext₃ hchain₃ hfound₃ => ?_
          rcases hfound₃ with rfl | ⟨e, rfl⟩
          · obtain ⟨b, hheight, hblock, hon⟩ := hchain₂.onChain hone hext₂ htx hrows
            have hfind : Blocks.getByHeight s₃ t.blockHeight = some b.block := by
              rw [← hheight]
              exact hext₃.blocks _ _ (Table.mem_rows.mp hblock)
            rw [hfind]
            exact ⟨.found hon, fun _ _ => ⟨t, (hext₂.trans hext₃).transactions _ _ htx⟩⟩
          · exact ⟨.failed e, fun _ h => by cases h⟩
        · exact ⟨.failed e, fun _ h => by cases h⟩
  · exact ⟨.failed e, fun _ h => by cases h⟩

theorem reads_transaction (hone : OneChain rpc)
    (hc : Reachable (indexer rpc moves) (World.init chain) c) (raw : String) :
    Reads rpc moves chain (QueryRoot.transaction raw)
      (fun answer s' => TxResolved rpc c.world raw answer ∧
        ∀ r, answer = .ok (some r) →
          ∃ t, Transactions.getByHash s' (toLowercase raw) = some t) c.world.store := by
  refine reads_call hone fun s₁ found hext hchain hfound => ?_
  rcases hfound with rfl | ⟨e, rfl⟩
  · cases htx : Transactions.getByHash s₁ (toLowercase raw) with
    | none =>
        exact ⟨.missing (hone.notIndexed hc (gone_of_getByHash hext htx)), fun _ h => by cases h⟩
    | some t =>
        refine reads_call hone fun s₂ logs hext₂ hchain₂ hfound₂ => ?_
        rcases hfound₂ with ⟨rows, hrows, rfl⟩ | ⟨e, rfl⟩
        · obtain ⟨b, -, -, hon⟩ := hchain₂.onChain hone hext₂ htx hrows
          exact ⟨.found hon, fun _ _ => ⟨t, hext₂.transactions _ _ htx⟩⟩
        · exact ⟨.failed, fun _ h => by cases h⟩
  · exact ⟨.failed, fun _ h => by cases h⟩

/--
**`/tx/:hash` and `transaction(hash)` serve the chain.**  Whatever the indexer commits between
the statements of the request, a transaction is answered as the nodes serve it, with all its
logs in order and the time of its block; and one on a height the cursor has passed is answered
not to be there only if the height was stepped over.
-/
theorem tx_detail_serves_chain (hone : OneChain rpc)
    (hc : Reachable (indexer rpc moves) (World.init chain) c) (raw : String) :
    (∀ s' answer, Run (liveReads rpc moves chain) c.world.store (transactionDetail raw).toProg s'
      answer → TxAnswered rpc c.world raw answer) ∧
    (∀ s' answer, Run (liveReads rpc moves chain) c.world.store
      (QueryRoot.transaction raw).toProg s' answer → TxResolved rpc c.world raw answer) :=
  ⟨fun _ _ hrun => (wp_run_under hrun (reads_transactionDetail hone hc raw)).1,
    fun _ _ hrun => (wp_run_under hrun (reads_transaction hone hc raw)).1⟩

/-- The transaction of the block, asked for in capitals, over both transports; the next block
is committed while the requests are answered. -/
theorem tx_detail_serves_chain_gap :
    ∃ c, Reachable (indexer gapNodes.rpc fun _ _ => False) (World.init []) c ∧
      c.world.store.blocks.rows.length = 1 ∧
      (∃ s' r, s'.blocks.rows.length = 2 ∧
        Run (liveReads gapNodes.rpc (fun _ _ => False) []) c.world.store
          (transactionDetail "0xT0").toProg s' (.ok r) ∧
        TxAnswered gapNodes.rpc c.world "0xT0" (.ok r)) ∧
      ∃ s' r, s'.blocks.rows.length = 2 ∧
        Run (liveReads gapNodes.rpc (fun _ _ => False) []) c.world.store
          (QueryRoot.transaction "0xT0").toProg s' (.ok (some r)) ∧
        TxResolved gapNodes.rpc c.world "0xT0" (.ok (some r)) := by
  obtain ⟨w, w', hw, -, hpath, hcheck⟩ := gapNodes.exists_twoMoments 0
    (fun s s' => s.blocks.rows.length = 1 &&
      ((readAcross s s' (transactionDetail "0xT0")).any (fun a =>
        a.1.blocks.rows.length = 2 && a.2.toOption.isSome) &&
      (readAcross s s' (QueryRoot.transaction "0xT0")).any fun a =>
        a.1.blocks.rows.length = 2 && (a.2.toOption.getD none).isSome)) (by decide +kernel)
  obtain ⟨hone, hacross⟩ := Bool.and_eq_true_iff.mp hcheck
  obtain ⟨hrest, hgraph⟩ := Bool.and_eq_true_iff.mp hacross
  obtain ⟨s₁, answer, hrun, -, hanswer⟩ := run_across hw hpath hrest
  obtain ⟨s₂, answer', hrun', -, hanswer'⟩ := run_across hw hpath hgraph
  obtain ⟨htwo, hsome⟩ := Bool.and_eq_true_iff.mp hanswer
  obtain ⟨htwo', hsome'⟩ := Bool.and_eq_true_iff.mp hanswer'
  obtain ⟨r, rfl⟩ : ∃ r, answer = .ok r := ⟨_, eq_valueOf hsome⟩
  obtain ⟨r', rfl⟩ : ∃ r, answer' = .ok (some r) := by
    rcases answer' with e | _ | r
    · exact absurd hsome' (by simp [Except.toOption])
    · exact absurd hsome' (by simp [Except.toOption])
    · exact ⟨r, rfl⟩
  obtain ⟨htx, hresolved⟩ := tx_detail_serves_chain gapNodes_oneChain hw "0xT0"
  exact ⟨_, hw, of_decide_eq_true hone, ⟨s₁, r, of_decide_eq_true htwo, hrun, htx _ _ hrun⟩,
    s₂, r', of_decide_eq_true htwo', hrun', hresolved _ _ hrun'⟩

/-! ### Later requests -/

/-- A REST block as GraphQL shows it. -/
def BlockGql.ofWire (b : WireBlock) : BlockGql where
  height := b.height
  hash := b.hash
  parentHash := b.parentHash
  timestamp := b.timestamp
  validator := b.validator
  gasUsed := b.gasUsed
  gasLimit := b.gasLimit
  baseFee := b.baseFee.map weiText
  txCount := b.txCount
  stateRoot := b.stateRoot
  round := b.round

/-- A REST transaction as GraphQL shows it. -/
def TransactionGql.ofWire (t : WireTransaction) : TransactionGql where
  hash := t.hash
  blockHeight := t.blockHeight
  txIndex := t.txIndex
  sender := t.sender
  receiver := t.receiver
  value := weiText t.value
  gasLimit := t.gasLimit
  gasUsed := t.gasUsed
  gasPrice := t.gasPrice.map weiText
  fee := weiText t.fee
  nonce := t.nonce
  data := t.data
  status := t.status
  contractAddress := t.contractAddress
  txType := t.txType

/-- A REST answer as GraphQL shows it. -/
def TransactionWithLogs.ofResponse (r : TxResponse) : TransactionWithLogs :=
  ⟨.ofWire r.tx, r.logs⟩

/-- Whoever asks for the block of this height now is shown this one, unless a statement fails. -/
structure BlockAgain (rpc : Rpc χ) (moves : χ → χ → Prop) (chain : χ) (s : Store) (h : Int)
    (shown : BlockGql) : Prop where
  rest : ∀ raw s' answer, parseI64 raw = some h →
    Run (liveReads rpc moves chain) s (blockDetail raw).toProg s' answer →
      (∃ r, answer = .ok r ∧ BlockGql.ofWire r.block.block = shown) ∨ ∃ e, answer = .error (.db e)
  graphql : ∀ s' answer, Run (liveReads rpc moves chain) s (QueryRoot.block h).toProg s' answer →
    answer = .ok (some shown) ∨ answer = .error sanitizeDbErr

/-- Whoever asks for the transaction now is shown this one with these logs, unless a statement
fails. -/
structure TxAgain (rpc : Rpc χ) (moves : χ → χ → Prop) (chain : χ) (s : Store) (raw : String)
    (shown : TransactionWithLogs) : Prop where
  rest : ∀ s' answer, Run (liveReads rpc moves chain) s (transactionDetail raw).toProg s' answer →
    (∃ r, answer = .ok r ∧ TransactionWithLogs.ofResponse r = shown) ∨
      ∃ e, answer = .error (.db e)
  graphql : ∀ s' answer,
    Run (liveReads rpc moves chain) s (QueryRoot.transaction raw).toProg s' answer →
      answer = .ok (some shown) ∨ answer = .error sanitizeDbErr

/-- What GraphQL may answer to `block(height)` in this state. -/
inductive BlockResolved (rpc : Rpc χ) (w : World χ) (h : Int) :
    Except String (Option BlockGql) → Prop
  | found {served : NativeBlockResponse} {block : Block} (hserved : Served rpc h served)
      (hblock : toDomainBlockFromNative served = .ok block) :
      BlockResolved rpc w h (.ok (some (.ofBlock block)))
  | missing (hgone : w.store.blocks.contains h = false) : BlockResolved rpc w h (.ok none)
  | failed : BlockResolved rpc w h (.error sanitizeDbErr)

theorem resolves_block (hone : OneChain rpc) (h : Int) :
    Reads rpc moves chain (QueryRoot.block h)
      (fun answer s' => BlockResolved rpc c.world h answer ∧
        ∀ r, answer = .ok (some r) → s'.blocks.contains h = true) c.world.store := by
  refine reads_call hone fun s₁ found hext hchain hfound => ?_
  rcases hfound with rfl | ⟨e, rfl⟩
  · cases hrow : Blocks.getByHeight s₁ h with
    | none =>
        refine ⟨.missing (Bool.eq_false_iff.mpr fun hcon => ?_), fun _ h => by cases h⟩
        have hthere := hext.blocks.contains hcon
        rw [Table.find?_eq_none.mp hrow] at hthere
        exact absurd hthere (by decide)
    | some row =>
        obtain ⟨hmem, rfl⟩ := Table.find?_eq_some.mp hrow
        obtain ⟨b, hb, rfl, -⟩ := hchain.blocks row hmem
        obtain ⟨served, logs, hserved, -, ha⟩ := hb
        exact ⟨.found hserved (assemble_parts ha).1, fun _ _ => Table.contains_of_find? hrow⟩
  · exact ⟨.failed, fun _ h => by cases h⟩

section

variable (hone : OneChain rpc) (hc : Reachable (indexer rpc moves) (World.init chain) c)
include hone hc

/-- A stored block is shown to everybody. -/
theorem OneChain.blockAgain {h : Int} {served : NativeBlockResponse} {block : Block}
    (hthere : c.world.store.blocks.contains h = true) (hserved : Served rpc h served)
    (hblock : toDomainBlockFromNative served = .ok block) :
    BlockAgain rpc moves chain c.world.store h (.ofBlock block) where
  rest raw s' answer hraw hrun := by
    cases (wp_run_under hrun (reads_blockDetail hone hc raw)).1 with
    | found hraw' hserved' hblock' _ =>
        obtain rfl := Option.some.inj (hraw.symm.trans hraw')
        obtain rfl := hone.block _ _ _ hserved hserved'
        obtain rfl := Except.ok.inj (hblock.symm.trans hblock')
        exact Or.inl ⟨_, rfl, rfl⟩
    | missing hraw' hgone _ =>
        obtain rfl := Option.some.inj (hraw.symm.trans hraw')
        rw [hthere] at hgone
        exact absurd hgone (by decide)
    | invalid hraw' => exact absurd (hraw.symm.trans hraw') (by simp)
    | failed e => exact Or.inr ⟨e, rfl⟩
  graphql s' answer hrun := by
    cases (wp_run_under hrun (resolves_block hone h)).1 with
    | found hserved' hblock' =>
        obtain rfl := hone.block _ _ _ hserved hserved'
        obtain rfl := Except.ok.inj (hblock.symm.trans hblock')
        exact Or.inl rfl
    | missing hgone =>
        rw [hthere] at hgone
        exact absurd hgone (by decide)
    | failed => exact Or.inr rfl

/-- A stored transaction is shown to everybody, with the logs the chain has for it. -/
theorem OneChain.txAgain {raw : String} {b : BlockBundle} {t : Transaction} {logs : List Log}
    (hthere : c.world.store.transactions.contains (toLowercase raw) = true)
    (hon : OnChain rpc (toLowercase raw) b t logs) :
    TxAgain rpc moves chain c.world.store raw ⟨.ofTransaction t, logs.map .ofLog⟩ where
  rest s' answer hrun := by
    cases (wp_run_under hrun (reads_transactionDetail hone hc raw)).1 with
    | found hon' =>
        obtain ⟨rfl, rfl, rfl⟩ := hon.unique hone hon'
        exact Or.inl ⟨_, rfl, rfl⟩
    | missing hnot =>
        rw [hnot.gone] at hthere
        exact absurd hthere (by decide)
    | failed e => exact Or.inr ⟨e, rfl⟩
  graphql s' answer hrun := by
    cases (wp_run_under hrun (reads_transaction hone hc raw)).1 with
    | found hon' =>
        obtain ⟨rfl, rfl, rfl⟩ := hon.unique hone hon'
        exact Or.inl rfl
    | missing hnot =>
        rw [hnot.gone] at hthere
        exact absurd hthere (by decide)
    | failed => exact Or.inr rfl

end

/--
**What was answered once is answered from then on.**  A block or a transaction that a request
has found, over REST or over GraphQL, is found by every later request over either of them, the
same to the last field that both show, unless a statement fails.
-/
theorem found_answers_stay (hone : OneChain rpc) {c c' : Config SyncSig TaskId (World χ) Unit}
    (hc : Reachable (indexer rpc moves) (World.init chain) c)
    (hc' : Reachable (indexer rpc moves) (World.init chain) c') {s : Store}
    (hlater : Meanwhile rpc moves chain s c'.world.store) (raw : String) :
    (∀ h r, parseI64 raw = some h →
      Run (liveReads rpc moves chain) c.world.store (blockDetail raw).toProg s (.ok r) →
      (∀ s' answer, Run (liveReads rpc moves chain) c'.world.store (blockDetail raw).toProg s'
        answer → answer = .ok r ∨ ∃ e, answer = .error (.db e)) ∧
      BlockAgain rpc moves chain c'.world.store h (.ofWire r.block.block)) ∧
    (∀ h shown,
      Run (liveReads rpc moves chain) c.world.store (QueryRoot.block h).toProg s
        (.ok (some shown)) →
      BlockAgain rpc moves chain c'.world.store h shown) ∧
    (∀ r, Run (liveReads rpc moves chain) c.world.store (transactionDetail raw).toProg s (.ok r) →
      (∀ s' answer, Run (liveReads rpc moves chain) c'.world.store
        (transactionDetail raw).toProg s' answer →
        answer = .ok r ∨ ∃ e, answer = .error (.db e)) ∧
      TxAgain rpc moves chain c'.world.store raw (.ofResponse r)) ∧
    (∀ shown, Run (liveReads rpc moves chain) c.world.store (QueryRoot.transaction raw).toProg s
        (.ok (some shown)) → TxAgain rpc moves chain c'.world.store raw shown) := by
  obtain ⟨hext, -⟩ := hone.meanwhile hlater
  refine ⟨fun h r hraw hrun => ?_, fun h shown hrun => ?_, fun r hrun => ?_, fun shown hrun => ?_⟩
  · obtain ⟨hfound, hstored⟩ := wp_run_under hrun (reads_blockDetail hone hc raw)
    have hthere := hext.blocks.contains (hstored r rfl h hraw)
    cases hfound with
    | @found h' served block txs hraw' hserved hblock htxs =>
        obtain rfl := Option.some.inj (hraw.symm.trans hraw')
        refine ⟨fun s' answer hagain => ?_, hone.blockAgain hc' hthere hserved hblock⟩
        cases (wp_run_under hagain (reads_blockDetail hone hc' raw)).1 with
        | found hraw' hserved' hblock' htxs' =>
            obtain rfl := Option.some.inj (hraw.symm.trans hraw')
            obtain rfl := hone.block _ _ _ hserved hserved'
            obtain rfl := Except.ok.inj (hblock.symm.trans hblock')
            obtain rfl := Except.ok.inj (htxs.symm.trans htxs')
            exact Or.inl rfl
        | missing hraw' hgone _ =>
            obtain rfl := Option.some.inj (hraw.symm.trans hraw')
            rw [hthere] at hgone
            exact absurd hgone (by decide)
        | invalid hraw' => exact absurd (hraw.symm.trans hraw') (by simp)
        | failed e => exact Or.inr ⟨e, rfl⟩
  · obtain ⟨hfound, hstored⟩ := wp_run_under hrun (resolves_block (c := c) hone h)
    cases hfound with
    | found hserved hblock =>
        exact hone.blockAgain hc' (hext.blocks.contains (hstored _ rfl)) hserved hblock
  · obtain ⟨hfound, hstored⟩ := wp_run_under hrun (reads_transactionDetail hone hc raw)
    obtain ⟨u, hu⟩ := hstored r rfl
    have hthere := Table.contains_of_find? (hext.transactions _ _ hu)
    cases hfound with
    | found hon =>
        refine ⟨fun s' answer hagain => ?_, hone.txAgain hc' hthere hon⟩
        cases (wp_run_under hagain (reads_transactionDetail hone hc' raw)).1 with
        | found hon' =>
            obtain ⟨rfl, rfl, rfl⟩ := hon.unique hone hon'
            exact Or.inl rfl
        | missing hnot =>
            rw [hnot.gone] at hthere
            exact absurd hthere (by decide)
        | failed e => exact Or.inr ⟨e, rfl⟩
  · obtain ⟨hfound, hstored⟩ := wp_run_under hrun (reads_transaction hone hc raw)
    obtain ⟨u, hu⟩ := hstored shown rfl
    cases hfound with
    | found hon =>
        exact hone.txAgain hc' (Table.contains_of_find? (hext.transactions _ _ hu)) hon

/-- The block at height 0 over REST and its transaction over GraphQL, asked for again after the
next block has been committed. -/
theorem found_answers_stay_gap :
    ∃ c c', Reachable (indexer gapNodes.rpc fun _ _ => False) (World.init []) c ∧
      Reachable (indexer gapNodes.rpc fun _ _ => False) (World.init []) c' ∧
      c.world.store.blocks.rows.length = 1 ∧ c'.world.store.blocks.rows.length = 2 ∧
      (∃ s r, Run (liveReads gapNodes.rpc (fun _ _ => False) []) c.world.store
          (blockDetail "0").toProg s (.ok r) ∧
        BlockAgain gapNodes.rpc (fun _ _ => False) [] c'.world.store 0 (.ofWire r.block.block)) ∧
      ∃ s shown, Run (liveReads gapNodes.rpc (fun _ _ => False) []) c.world.store
          (QueryRoot.transaction "0xT0").toProg s (.ok (some shown)) ∧
        TxAgain gapNodes.rpc (fun _ _ => False) [] c'.world.store "0xT0" shown := by
  obtain ⟨w, w', hw, hw', hpath, hcheck⟩ := gapNodes.exists_twoMoments 0
    (fun s s' => (s.blocks.rows.length = 1 && s'.blocks.rows.length = 2) &&
      ((readAcross s s' (blockDetail "0")).any (fun a => a.2.toOption.isSome) &&
      (readAcross s s' (QueryRoot.transaction "0xT0")).any fun a =>
        (a.2.toOption.getD none).isSome)) (by decide +kernel)
  obtain ⟨hcounts, hreads⟩ := Bool.and_eq_true_iff.mp hcheck
  obtain ⟨hone, htwo⟩ := Bool.and_eq_true_iff.mp hcounts
  obtain ⟨hblock, htx⟩ := Bool.and_eq_true_iff.mp hreads
  obtain ⟨s₁, answer, hrun, hlater, hsome⟩ := run_across hw hpath hblock
  obtain ⟨s₂, answer', hrun', hlater', hsome'⟩ := run_across hw hpath htx
  obtain ⟨r, rfl⟩ : ∃ r, answer = .ok r := ⟨_, eq_valueOf hsome⟩
  obtain ⟨shown, rfl⟩ : ∃ shown, answer' = .ok (some shown) := by
    rcases answer' with e | _ | shown
    · exact absurd hsome' (by simp [Except.toOption])
    · exact absurd hsome' (by simp [Except.toOption])
    · exact ⟨shown, rfl⟩
  refine ⟨_, _, hw, hw', of_decide_eq_true hone, of_decide_eq_true htwo, ⟨s₁, r, hrun, ?_⟩,
    s₂, shown, hrun', ?_⟩
  · exact ((found_answers_stay gapNodes_oneChain hw hw' hlater "0").1 0 r
      (by decide +kernel) hrun).2
  · exact (found_answers_stay gapNodes_oneChain hw hw' hlater' "0xT0").2.2.2 shown hrun'

end

end SentrixIndexer
