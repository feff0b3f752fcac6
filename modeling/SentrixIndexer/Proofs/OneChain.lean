/-
Nodes that all serve one chain.

Nothing stands in the way of the keys then: a height committed twice is committed with one
bundle, and no hash is on two heights.  So every commit is clean, and in every state of every
run the store is a part of the chain, made of whole blocks.

The store only grows, also while somebody reads it.  What is read by several statements comes
from several stores, each of them a part of the chain.
-/
import SentrixIndexer.Proofs.CursorSafety
import SentrixIndexer.Proofs.MixedForks

namespace SentrixIndexer

open Effect Relational

variable {χ : Type} {rpc : Rpc χ}

/-- All nodes serve one chain, with every transaction on one height and every log of a height
under an index of its own. -/
structure OneChain (rpc : Rpc χ) : Prop where
  block : ∀ h b b', Served rpc h b → Served rpc h b' → b = b'
  logs : ∀ h ls ls', ServedLogs rpc h ls → ServedLogs rpc h ls' → ls = ls'
  heights : FaithfulHeights rpc
  logHeights : FaithfulLogs rpc
  txids : DistinctTxids rpc
  apart : ∀ h h' b b', Served rpc h b → Served rpc h' b' → ∀ t ∈ b.transactions,
    ∀ t' ∈ b'.transactions, with0x t.txid = with0x t'.txid → h = h'
  logIndexes : ∀ h ls, ServedLogs rpc h ls → (ls.map RpcLog.logIndex).Nodup

theorem firstBundle_height {w : World χ} {h : Int} {b : BlockBundle}
    (hf : firstBundle w h = some b) : b.block.height = h := by
  have hp := List.find?_some hf
  exact of_decide_eq_true hp

/-! ### Bundles of one chain -/

theorem toDomainLog_index {l : RpcLog} {d : Log} (h : toDomainLog l = .ok d) :
    ∃ n, l.logIndex = some n ∧ d.logIndex = n.toNat := by
  unfold toDomainLog at h
  obtain ⟨height, -, h⟩ := bind_ok.mp h
  obtain ⟨rawIndex, hindex, h⟩ := bind_ok.mp h
  rcases hl : l.logIndex with _ | n
  · rw [hl] at hindex
    exact absurd hindex (by simp)
  · rw [hl] at hindex
    obtain rfl := Except.ok.inj hindex
    refine ⟨n, rfl, ?_⟩
    by_cases hidx : i32Max < (n.toNat : Int)
    · simp [hidx, bind, Except.bind] at h
    · simp only [hidx, if_false] at h
      obtain ⟨txHash, -, h⟩ := bind_ok.mp h
      obtain rfl := Except.ok.inj h
      rfl

/-- Logs with distinct indexes keep them apart in their rows. -/
theorem nodup_of_mapM_toDomainLog {ls : List RpcLog} :
    ∀ {ds : List Log}, (ls.map RpcLog.logIndex).Nodup → ls.mapM toDomainLog = .ok ds →
      (ds.map Log.logIndex).Nodup := by
  induction ls with
  | nil =>
      intro ds _ h
      rw [List.mapM_nil] at h
      obtain rfl := Except.ok.inj h
      exact List.nodup_nil
  | cons l rest ih =>
      intro ds hnodup h
      rw [List.mapM_cons] at h
      obtain ⟨d, hd, h⟩ := bind_ok.mp h
      obtain ⟨ds', hds, h⟩ := bind_ok.mp h
      obtain rfl := Except.ok.inj h
      rw [List.map_cons, List.nodup_cons] at hnodup ⊢
      refine ⟨fun hmem => hnodup.1 ?_, ih hnodup.2 hds⟩
      obtain ⟨d', hd', hindex⟩ := List.mem_map.mp hmem
      obtain ⟨l', hl', hconv⟩ := mapM_toDomainLog_ok hds d' hd'
      obtain ⟨n, hn, hdn⟩ := toDomainLog_index hd
      obtain ⟨n', hn', hdn'⟩ := toDomainLog_index hconv
      have hsame : n = n' := UInt64.toNat_inj.mp (by omega)
      exact List.mem_map.mpr ⟨l', hl', by rw [hn', hn, hsame]⟩

namespace OneChain

variable (hone : OneChain rpc)
include hone

/-- **There is one bundle for a height.** -/
theorem bundle_eq {b b' : BlockBundle} (h : Fetched rpc b) (h' : Fetched rpc b')
    (heq : b.block.height = b'.block.height) : b = b' := by
  obtain ⟨block, ls, hs, hl, ha⟩ := h
  obtain ⟨block', ls', hs', hl', ha'⟩ := h'
  rw [← heq] at hs' hl'
  obtain rfl := hone.block _ _ _ hs hs'
  obtain rfl := hone.logs _ _ _ hl hl'
  exact Except.ok.inj (ha.symm.trans ha')

/-- **No hash is in two bundles.** -/
theorem bundle_eq_of_hash {b b' : BlockBundle} (h : Fetched rpc b) (h' : Fetched rpc b')
    {x y : Transaction} (hx : x ∈ b.txs) (hy : y ∈ b'.txs) (hxy : x.hash = y.hash) : b = b' := by
  have hhash : ∀ {b : BlockBundle} {block : NativeBlockResponse} {ls : List RpcLog}
      {x : Transaction}, assemble block ls = .ok b → x ∈ b.txs →
      ∃ t ∈ block.transactions, with0x t.txid = x.hash := by
    intro b block ls x ha hx
    have hmem : x.hash ∈ b.txs.map Transaction.hash := List.mem_map_of_mem hx
    rw [assemble_hashes ha] at hmem
    exact List.mem_map.mp hmem
  obtain ⟨block, ls, hs, hl, ha⟩ := h
  obtain ⟨block', ls', hs', hl', ha'⟩ := h'
  obtain ⟨t, ht, htx⟩ := hhash ha hx
  obtain ⟨t', ht', hty⟩ := hhash ha' hy
  have heq := hone.apart _ _ _ _ hs hs' t ht t' ht' (htx.trans (hxy.trans hty.symm))
  exact hone.bundle_eq ⟨block, ls, hs, hl, ha⟩ ⟨block', ls', hs', hl', ha'⟩ heq

theorem coherent {b : BlockBundle} (h : Fetched rpc b) : Coherent b :=
  h.coherent hone.logHeights hone.txids

/-- No two logs of a bundle have one index. -/
theorem logIndexes_nodup {b : BlockBundle} (h : Fetched rpc b) :
    (b.logs.map Log.logIndex).Nodup := by
  obtain ⟨block, ls, hs, hl, ha⟩ := h
  unfold assemble at ha
  obtain ⟨domBlock, -, ha⟩ := bind_ok.mp ha
  obtain ⟨domTxs, -, ha⟩ := bind_ok.mp ha
  obtain ⟨domLogs, hlogs, ha⟩ := bind_ok.mp ha
  obtain rfl := Except.ok.inj ha
  have hnodup := nodup_of_mapM_toDomainLog (hone.logIndexes _ _ hl) (orInvalid_ok hlogs)
  exact hnodup.sublist (List.filter_sublist.map _)

/-! ### Every commit is clean -/

/-- **A justified commit is clean** where what is stored belongs to the chain. -/
theorem clean {w : World χ} (hs : Sourced rpc w) {i : TaskId} {t : Txn}
    (hj : Justified rpc 0 w i t) : Clean w.store t.bundles := by
  refine ⟨fun b hb hc => ?_, fun b hb hc x hx => ⟨?_, fun b' hb' hlt y hy hxy => ?_⟩⟩
  · obtain ⟨b₀, hfirst⟩ := hs.contains_iff.mp hc
    have hheight := firstBundle_height hfirst
    obtain rfl := hone.bundle_eq (hs.firstFetched hfirst) (hj.fetched hb) hheight
    refine ⟨fun x hx hfree => ?_, hs.logKeys _ _ hfirst⟩
    have hstored := Table.contains_of_find? (Table.mem_rows.mp (hs.kept _ _ hfirst x hx))
    rw [hfree.1] at hstored
    exact absurd hstored (by decide)
  · refine Bool.eq_false_iff.mpr fun hcon => ?_
    obtain ⟨y, hy⟩ := Table.contains_iff.mp hcon
    obtain ⟨hmem, hyx⟩ := Table.find?_eq_some.mp hy
    obtain ⟨b₀, hfirst, hyb⟩ := hs.txs y hmem
    obtain rfl := hone.bundle_eq_of_hash (hs.firstFetched hfirst) (hj.fetched hb) hyb hx hyx
    have hheight := (hone.coherent (hj.fetched hb)).txHeight y hyb
    rw [hheight, hs.firstBundle_none hc] at hfirst
    exact absurd hfirst (by simp)
  · obtain rfl := hone.bundle_eq_of_hash (hj.fetched hb') (hj.fetched hb) hy hx hxy
    exact absurd hlt (lt_irrefl _)

variable {moves : χ → χ → Prop} {chain : χ} {c c' : Config SyncSig TaskId (World χ) Unit}

/-- In every state of every run, each row belongs to the first version of its height. -/
theorem sourced (hc : Reachable (indexer rpc moves) (World.init chain) c) :
    Sourced rpc c.world := by
  refine (indexer_verified hone.heights moves chain).inv (Sourced rpc) (sourced_init chain)
    ?_ ?_ ?_ hc
  · intro w w' _ hs hstep
    cases hstep with
    | commit i hj hrun =>
        exact hs.commit hone.logHeights hone.txids hj hrun (hone.clean hs hj)
    | idle => exact hs
    | chain i hr =>
        exact (WriterStep.chain i hr).sourced hone.logHeights hone.txids
          (fun _ _ h => absurd h noteAnswer_ne_commit) hs
    | gate g =>
        exact (WriterStep.gate w g).sourced hone.logHeights hone.txids
          (fun _ _ h => absurd h (by simp)) hs
    | push i row =>
        exact (WriterStep.push w i row).sourced hone.logHeights hone.txids
          (fun _ _ h => absurd h (by simp)) hs
  · intro w w' _ hs he
    cases he with
    | chain _ => exact hs.record rfl rfl
    | cancel => exact hs.record rfl rfl
  · intro w w' _ hs hcr
    obtain rfl : w' = w.restart := hcr
    exact hs.record rfl rfl

end OneChain

/-! ### The store as a part of the chain -/

/-- The rows stored at the height of the bundle are those of the bundle. -/
structure StoredWhole (s : Store) (b : BlockBundle) : Prop where
  block : b.block ∈ s.blocks.rows
  txs : ∀ x, x ∈ b.txs ↔ x ∈ s.transactions.rows ∧ x.blockHeight = b.block.height
  logs : ∀ l, l ∈ b.logs ↔ l ∈ s.logs.rows ∧ l.blockHeight = b.block.height

/-- The store is a part of the chain, made of whole blocks. -/
structure StoresChain (rpc : Rpc χ) (s : Store) : Prop where
  blocks : ∀ r ∈ s.blocks.rows, ∃ b, Fetched rpc b ∧ b.block = r ∧ StoredWhole s b
  txs : ∀ x ∈ s.transactions.rows, s.blocks.contains x.blockHeight = true
  logs : ∀ l ∈ s.logs.rows, s.blocks.contains l.blockHeight = true

namespace OneChain

variable (hone : OneChain rpc)
include hone

theorem storesChain_of_sourced {w : World χ} (hs : Sourced rpc w) : StoresChain rpc w.store := by
  refine ⟨fun r hr => ?_, fun x hx => ?_, fun l hl => ?_⟩
  · obtain ⟨b, hb, hfrom⟩ := hs.unmixed hone.logHeights hone.txids r hr
    obtain ⟨hfirst, rfl, htxs, hlogs, -⟩ := hfrom
    have hco := hone.coherent hb
    refine ⟨b, hb, rfl, hr, fun x => ⟨fun hx => ?_, fun hx => htxs x hx.1 hx.2⟩,
      fun l => ⟨fun hl => ?_, fun hl => hlogs l hl.1 hl.2⟩⟩
    · exact ⟨hs.kept _ b hfirst x hx, hco.txHeight x hx⟩
    · -- Some row is stored under the key, and it belongs to the same bundle.
      have hheight := hco.logHeight l hl
      obtain ⟨l', hl'⟩ := Table.contains_iff.mp (hs.logKeys _ b hfirst l hl)
      obtain ⟨hmem, hkey⟩ := Table.find?_eq_some.mp hl'
      obtain ⟨hkeyHeight, hkeyIndex⟩ := Prod.mk.inj hkey
      have hlb := hlogs l' hmem (hkeyHeight.trans hheight)
      obtain rfl := List.inj_on_of_nodup_map (hone.logIndexes_nodup hb) hlb hl hkeyIndex
      exact ⟨hmem, hheight⟩
  · obtain ⟨b, hfirst, -⟩ := hs.txs x hx
    exact hs.contains_iff.mpr ⟨b, hfirst⟩
  · obtain ⟨b, hfirst, -⟩ := hs.logs l hl
    exact hs.contains_iff.mpr ⟨b, hfirst⟩

/-- **In every state of every run the store is a part of the chain, made of whole blocks.** -/
theorem storesChain {moves : χ → χ → Prop} {chain : χ}
    {c : Config SyncSig TaskId (World χ) Unit}
    (hc : Reachable (indexer rpc moves) (World.init chain) c) : StoresChain rpc c.world.store :=
  hone.storesChain_of_sourced (hone.sourced hc)

end OneChain

namespace StoresChain

variable {s : Store}

/-- The bundle of a stored transaction. -/
theorem bundle_of_tx (h : StoresChain rpc s) {x : Transaction} (hx : x ∈ s.transactions.rows) :
    ∃ b, Fetched rpc b ∧ b.block.height = x.blockHeight ∧ StoredWhole s b ∧ x ∈ b.txs := by
  obtain ⟨r, hr⟩ := Table.contains_iff.mp (h.txs x hx)
  obtain ⟨hmem, hheight⟩ := Table.find?_eq_some.mp hr
  obtain ⟨b, hb, rfl, hwhole⟩ := h.blocks r hmem
  exact ⟨b, hb, hheight, hwhole, (hwhole.txs x).mpr ⟨hx, hheight.symm⟩⟩

/-- The bundle of a stored log. -/
theorem bundle_of_log (h : StoresChain rpc s) {l : Log} (hl : l ∈ s.logs.rows) :
    ∃ b, Fetched rpc b ∧ b.block.height = l.blockHeight ∧ StoredWhole s b ∧ l ∈ b.logs := by
  obtain ⟨r, hr⟩ := Table.contains_iff.mp (h.logs l hl)
  obtain ⟨hmem, hheight⟩ := Table.find?_eq_some.mp hr
  obtain ⟨b, hb, rfl, hwhole⟩ := h.blocks r hmem
  exact ⟨b, hb, hheight, hwhole, (hwhole.logs l).mpr ⟨hl, hheight.symm⟩⟩

end StoresChain

/-! ### The store while somebody reads it -/

section

variable {moves : χ → χ → Prop} {chain : χ} {c c' : Config SyncSig TaskId (World χ) Unit}

/-- One move of the indexer keeps every stored row. -/
theorem move_extends (hrest : FaithfulHeights rpc)
    (hc : Reachable (indexer rpc moves) (World.init chain) c) (hm : Move (indexer rpc moves) c c') :
    Extends c.world.store c'.world.store := by
  rcases (indexer_verified hrest moves chain).move hc hm with hs | he | hcr
  · generalize c'.world = w' at hs
    cases hs with
    | commit i hj hrun => exact Txn.run_extends hj.forward hrun
    | _ => exact Extends.refl _
  · rw [he.unchanged.1]
    exact Extends.refl _
  · rw [show c'.world = c.world.restart from hcr]
    exact Extends.refl _

/-- **Stored rows stay stored.** -/
theorem moves_extends (hrest : FaithfulHeights rpc)
    (hc : Reachable (indexer rpc moves) (World.init chain) c)
    (hm : Relation.ReflTransGen (Move (indexer rpc moves)) c c') :
    Extends c.world.store c'.world.store := by
  induction hm with
  | refl => exact Extends.refl _
  | tail hms hm ih => exact ih.trans (move_extends hrest (hc.moves hms) hm)

/-- A store read meanwhile has the rows of the store before, and is a part of the chain. -/
theorem OneChain.meanwhile (hone : OneChain rpc) {s s' : Store}
    (h : Meanwhile rpc moves chain s s') : Extends s s' ∧ StoresChain rpc s' := by
  obtain ⟨c, c', hc, hm, rfl, rfl⟩ := h
  exact ⟨moves_extends hone.heights hc hm, hone.storesChain (hc.moves hm)⟩

end

/-! ### Fixed tables -/

namespace NodeTables

variable {n : NodeTables}

theorem served_iff {h : Int} {block : NativeBlockResponse} :
    Served n.rpc h block ↔ n.block h = .ok (some block) :=
  ⟨fun h => by obtain ⟨_, _, hr⟩ := h; exact (Prod.mk.inj hr).1.symm,
    fun h => ⟨[], [], Prod.ext h.symm rfl⟩⟩

theorem servedLogs_iff {h : Int} {logs : List RpcLog} :
    ServedLogs n.rpc h logs ↔ n.logs h = .ok logs :=
  ⟨fun h => by obtain ⟨_, _, hr⟩ := h; exact (Prod.mk.inj hr).1.symm,
    fun h => ⟨[], [], Prod.ext h.symm rfl⟩⟩

/-! Two moments of a run -/

/-- A backfill pass that stops at a height. -/
def passUpTo (cap : Option Int) : Prog SyncSig Unit :=
  discard (runBackfill { noLag with maxBackfillHeight := cap } (Tuning.ofEnv none none) false)

/-- The store after a pass up to a height, and after a whole pass. -/
def twoMoments (n : NodeTables) (cap : Int) : Option (Store × Store) := do
  let before ← exec (serve n.respond 0) 100 (World.init []) (passUpTo (some cap))
  let after ← exec (serve n.respond 0) 100 before.1 (passUpTo none)
  return (before.1.store, after.1.store)

/-- They are two moments of one run. -/
theorem exists_twoMoments (n : NodeTables) (cap : Int) (check : Store → Store → Bool)
    (h : (n.twoMoments cap).any (fun x => check x.1 x.2) = true) :
    ∃ w w', Reachable (indexer n.rpc fun _ _ => False) (World.init []) (.idle w) ∧
      Reachable (indexer n.rpc fun _ _ => False) (World.init []) (.idle w') ∧
      Relation.ReflTransGen (Move (indexer n.rpc fun _ _ => False)) (.idle w) (.idle w') ∧
      check w.store w'.store = true := by
  unfold twoMoments at h
  rcases hbefore : exec (serve n.respond 0) 100 (World.init []) (passUpTo (some cap)) with
    _ | ⟨w, u⟩
  · rw [hbefore] at h
    exact absurd h (by simp)
  · rcases hafter : exec (serve n.respond 0) 100 w (passUpTo none) with _ | ⟨w', u'⟩
    · simp only [hbefore, Option.bind_eq_bind, Option.bind_some, hafter] at h
      exact absurd h (by simp)
    · simp only [hbefore, Option.bind_eq_bind, Option.bind_some, hafter] at h
      have hserve : ∀ w c, true = true → handle n.rpc 0 w c (serve n.respond 0 w c).1
          (serve n.respond 0 w c).2 := fun w c _ => handle_serve n.answers 0 w c
      have hpass : ∀ cap w₀ w, Run (handle n.rpc 0) w₀ (passUpTo cap) w () →
          Reachable (indexer n.rpc fun _ _ => False) w₀ (.idle w) :=
        fun _ _ _ hrun => Reachable.init.run rfl (WriterTask.backfill _ _ false) hrun
      have hfirst := hpass _ _ _ (execWhile_run hserve 100 hbefore)
      have hpath := (hpass _ _ _ (execWhile_run hserve 100 hafter)).path
      exact ⟨w, w', hfirst, hfirst.moves hpath, hpath, h⟩

end NodeTables

/-- The two blocks and the gap are one chain. -/
theorem gapNodes_oneChain : OneChain gapNodes.rpc := by
  have hblock : ∀ h b, Served gapNodes.rpc h b →
      h = 0 ∧ b = bareBlock 0 "a0" [bareTx "t0" "0xann" "0xbob"] ∨
        h = 1 ∧ b = bareBlock 1 "a1" [] := by
    intro h b hs
    have hb := NodeTables.served_iff.mp hs
    unfold gapNodes at hb
    by_cases h0 : h = 0
    · simp only [h0, if_true] at hb
      exact Or.inl ⟨h0, (Option.some.inj (Except.ok.inj hb)).symm⟩
    · by_cases h1 : h = 1
      · simp only [h1] at hb
        exact Or.inr ⟨h1, (Option.some.inj (Except.ok.inj hb)).symm⟩
      · simp only [h0, h1, if_false] at hb
        exact absurd (Except.ok.inj hb) (by simp)
  have hlogs : ∀ h ls, ServedLogs gapNodes.rpc h ls → ls = [] := fun h ls hs =>
    (Except.ok.inj (NodeTables.servedLogs_iff.mp hs)).symm
  refine ⟨?_, ?_, gapNodes_faithful.heights, ?_, ?_, ?_, ?_⟩
  · intro h b b' hs hs'
    exact Option.some.inj (Except.ok.inj
      ((NodeTables.served_iff.mp hs).symm.trans (NodeTables.served_iff.mp hs')))
  · intro h ls ls' hs hs'
    rw [hlogs h ls hs, hlogs h ls' hs']
  · intro h ls hs l hl
    rw [hlogs h ls hs] at hl
    exact absurd hl (by simp)
  · intro h b hs
    rcases hblock h b hs with ⟨-, rfl⟩ | ⟨-, rfl⟩
    · exact List.nodup_singleton _
    · exact List.nodup_nil
  · intro h h' b b' hs hs' t ht t' ht' _
    rcases hblock h b hs with ⟨rfl, rfl⟩ | ⟨rfl, rfl⟩
    · rcases hblock h' b' hs' with ⟨rfl, rfl⟩ | ⟨rfl, rfl⟩
      · rfl
      · exact absurd ht' (by simp [bareBlock])
    · exact absurd ht (by simp [bareBlock])
  · intro h ls hs
    rw [hlogs h ls hs]
    exact List.nodup_nil

end SentrixIndexer
