/-
Two versions of one height.

Every table keeps the first row offered under its own key, and the keys differ, so the
version of a height that is committed first wins as a whole only if nothing of a later
version gets past the keys.  The block row always comes from the first version.  A
transaction of a later version gets in when its hash is new, a log when its index is;
and a transaction of the first version stays out when its hash was stored at another
height already.
-/
import SentrixIndexer.Proofs.Refinement
import SentrixIndexer.Sync.Nodes

namespace SentrixIndexer

open Effect Relational

variable {χ : Type} {rpc : Rpc χ}

/-! ### What the chain promises -/

/-- The nodes put on every log the height it was asked for. -/
def FaithfulLogs (rpc : Rpc χ) : Prop :=
  ∀ h logs, ServedLogs rpc h logs → ∀ l ∈ logs, ∀ n, l.blockNumber = some n → heightOfU64 n = h

/-- No block lists a transaction twice. -/
def DistinctTxids (rpc : Rpc χ) : Prop :=
  ∀ h block, Served rpc h block → (block.transactions.map fun t => with0x t.txid).Nodup

/-- A well-formed bundle whose logs carry its height and whose hashes are distinct. -/
structure Coherent (b : BlockBundle) : Prop extends Placed b where
  hashes : (b.txs.map Transaction.hash).Nodup

theorem Fetched.coherent (hlogs : FaithfulLogs rpc) (htxids : DistinctTxids rpc)
    {b : BlockBundle} (h : Fetched rpc b) : Coherent b := by
  obtain ⟨block, logs, hs, hl, ha⟩ := h
  obtain ⟨hwf, -, hconv⟩ := assemble_ok ha
  refine ⟨⟨hwf, fun d hd => ?_⟩, ?_⟩
  · obtain ⟨l, hmem, hd'⟩ := hconv d hd
    obtain ⟨n, hn, hh⟩ := toDomainLog_height hd'
    rw [hh]
    exact hlogs _ _ hl l hmem n hn
  · rw [assemble_hashes ha]
    exact htxids _ _ hs

/-! ### The versions of a height -/

/-- The bundles an entry of the record wrote. -/
def Event.bundles : Event → List BlockBundle
  | .committed _ t => t.bundles
  | _ => []

/-- The bundles committed so far, oldest first. -/
def committedBundles (w : World χ) : List BlockBundle := w.events.reverse.flatMap Event.bundles

/-- The version of the height that was committed first. -/
def firstBundle (w : World χ) (h : Int) : Option BlockBundle :=
  (committedBundles w).find? fun b => b.block.height = h

/-- All that is stored at the height of the block row comes from this first version of it. -/
structure FromFirst (w : World χ) (r : Block) (b : BlockBundle) : Prop where
  first : firstBundle w r.height = some b
  block : b.block = r
  txs : ∀ x ∈ w.store.transactions.rows, x.blockHeight = r.height → x ∈ b.txs
  logs : ∀ l ∈ w.store.logs.rows, l.blockHeight = r.height → l ∈ b.logs
  count : w.store.transactions.count (fun x => x.blockHeight = r.height) = r.txCount

/-- No height mixes versions. -/
def Unmixed (rpc : Rpc χ) (w : World χ) : Prop :=
  ∀ r ∈ w.store.blocks.rows, ∃ b, Fetched rpc b ∧ FromFirst w r b

/-! ### Commits that do not mix -/

/-- Nothing stored and no lower block of the batch has the hash of the transaction. -/
def Unclaimed (s : Store) (bundles : List BlockBundle) (b : BlockBundle) (x : Transaction) :
    Prop :=
  s.transactions.contains x.hash = false ∧
    ∀ b' ∈ bundles, b'.block.height < b.block.height → ∀ y ∈ b'.txs, y.hash ≠ x.hash

/--
The keys keep the versions apart: a version of a height already stored offers no free
key, and the first version of a height offers free hashes only.
-/
structure Clean (s : Store) (bundles : List BlockBundle) : Prop where
  later : ∀ b ∈ bundles, s.blocks.contains b.block.height = true →
    (∀ x ∈ b.txs, ¬ Unclaimed s bundles b x) ∧ ∀ l ∈ b.logs, s.logs.contains l.key = true
  first : ∀ b ∈ bundles, s.blocks.contains b.block.height = false →
    ∀ x ∈ b.txs, Unclaimed s bundles b x

theorem clean_iff {s : Store} {bundles : List BlockBundle} :
    Clean s bundles ↔
      (∀ b ∈ bundles, s.blocks.contains b.block.height = true →
        (∀ x ∈ b.txs, ¬ Unclaimed s bundles b x) ∧ ∀ l ∈ b.logs, s.logs.contains l.key = true) ∧
      ∀ b ∈ bundles, s.blocks.contains b.block.height = false →
        ∀ x ∈ b.txs, Unclaimed s bundles b x :=
  ⟨fun h => ⟨h.later, h.first⟩, fun h => ⟨h.1, h.2⟩⟩

instance (s : Store) (bundles : List BlockBundle) (b : BlockBundle) (x : Transaction) :
    Decidable (Unclaimed s bundles b x) := inferInstanceAs (Decidable (_ ∧ _))

instance (s : Store) (bundles : List BlockBundle) : Decidable (Clean s bundles) :=
  decidable_of_iff _ clean_iff.symm

/-- If the step commits bundles, the keys keep their versions apart. -/
def CommitsClean (w w' : World χ) : Prop :=
  ∀ i t, w'.events = .committed i t :: w.events → Clean w.store t.bundles

/-! ### The record of versions -/

/-- Every stored row belongs to the first version of its height. -/
structure Sourced (rpc : Rpc χ) (w : World χ) : Prop where
  fetched : ∀ b ∈ committedBundles w, Fetched rpc b
  head : ∀ h, w.store.blocks.find? h = (firstBundle w h).map BlockBundle.block
  txs : ∀ x ∈ w.store.transactions.rows, ∃ b, firstBundle w x.blockHeight = some b ∧ x ∈ b.txs
  kept : ∀ h b, firstBundle w h = some b → ∀ x ∈ b.txs, x ∈ w.store.transactions.rows
  logs : ∀ l ∈ w.store.logs.rows, ∃ b, firstBundle w l.blockHeight = some b ∧ l ∈ b.logs
  logKeys : ∀ h b, firstBundle w h = some b → ∀ l ∈ b.logs, w.store.logs.contains l.key = true

theorem Sourced.firstFetched {w : World χ} (hs : Sourced rpc w) {h : Int} {b : BlockBundle}
    (hf : firstBundle w h = some b) : Fetched rpc b :=
  hs.fetched b (List.mem_of_find?_eq_some hf)

/-- A height is stored as soon as a version of it has been committed. -/
theorem Sourced.contains_iff {w : World χ} (hs : Sourced rpc w) {h : Int} :
    w.store.blocks.contains h = true ↔ ∃ b, firstBundle w h = some b := by
  rw [Table.contains, hs.head h, Option.isSome_map, Option.isSome_iff_exists]

theorem Sourced.firstBundle_none {w : World χ} (hs : Sourced rpc w) {h : Int}
    (hc : w.store.blocks.contains h = false) : firstBundle w h = none := by
  rcases hf : firstBundle w h with _ | b
  · rfl
  · rw [hs.contains_iff.mpr ⟨b, hf⟩] at hc
    exact absurd hc (by decide)

section

variable (hlogs : FaithfulLogs rpc) (htxids : DistinctTxids rpc)
include hlogs htxids

theorem Sourced.coherent {w : World χ} (hs : Sourced rpc w) {h : Int} {b : BlockBundle}
    (hf : firstBundle w h = some b) : Coherent b := (hs.firstFetched hf).coherent hlogs htxids

/-- **Where every row belongs to a first version, no height mixes versions.** -/
theorem Sourced.unmixed {w : World χ} (hs : Sourced rpc w) : Unmixed rpc w := by
  intro r hr
  have hfind := Table.mem_rows.mp hr
  rw [hs.head] at hfind
  obtain ⟨b, hf, rfl⟩ := Option.map_eq_some_iff.mp hfind
  have hb := hs.coherent hlogs htxids hf
  have htx : ∀ x ∈ w.store.transactions.rows, x.blockHeight = b.block.height → x ∈ b.txs := by
    intro x hx hh
    obtain ⟨b', hf', hx'⟩ := hs.txs x hx
    rw [hh, hf] at hf'
    exact Option.some.inj hf' ▸ hx'
  refine ⟨b, hs.firstFetched hf, hf, rfl, htx, ?_, ?_⟩
  · intro l hl hh
    obtain ⟨b', hf', hl'⟩ := hs.logs l hl
    rw [hh, hf] at hf'
    exact Option.some.inj hf' ▸ hl'
  · have hcount : w.store.transactions.count (fun x => x.blockHeight = b.block.height) =
        b.txs.length := by
      refine Table.count_eq_length hb.hashes.of_map fun x => ⟨fun hx => ?_, fun hx => ?_⟩
      · exact ⟨hs.kept _ b hf x hx, decide_eq_true (hb.txHeight x hx)⟩
      · exact htx x hx.1 (of_decide_eq_true hx.2)
    rw [hcount, hb.txCount]

end

/-! ### What a commit does to the versions -/

theorem committedBundles_commit (w : World χ) (i : TaskId) (t : Txn) (s : Store) :
    committedBundles (w.commit i t s) = committedBundles w ++ t.bundles := by
  show (Event.committed i t :: w.events).reverse.flatMap Event.bundles = _
  rw [List.reverse_cons, List.flatMap_append, List.flatMap_singleton]
  rfl

theorem firstBundle_commit (w : World χ) (i : TaskId) (t : Txn) (s : Store) (h : Int) :
    firstBundle (w.commit i t s) h =
      (firstBundle w h).or (t.bundles.find? fun b => b.block.height = h) := by
  unfold firstBundle
  rw [committedBundles_commit, List.find?_append]

/-- A version committed first stays the first. -/
theorem firstBundle_commit_of_some {w : World χ} {i : TaskId} {t : Txn} {s : Store} {h : Int}
    {b : BlockBundle} (hf : firstBundle w h = some b) :
    firstBundle (w.commit i t s) h = some b := by
  rw [firstBundle_commit, hf, Option.some_or]

/-- The bundle of a transaction for a new height becomes the first version. -/
theorem Justified.firstBundle_commit {w : World χ} {i : TaskId} {t : Txn} {s : Store}
    (hj : Justified rpc 0 w i t) {b : BlockBundle} (hb : b ∈ t.bundles)
    (hf : firstBundle w b.block.height = none) :
    firstBundle (w.commit i t s) b.block.height = some b := by
  rw [SentrixIndexer.firstBundle_commit, hf, Option.none_or]
  refine Table.find?_of_unique hb (decide_eq_true rfl) fun b' hb' hh => ?_
  exact hj.bundle_unique hb' hb (of_decide_eq_true hh)

theorem Justified.heights (hlogs : FaithfulLogs rpc) (htxids : DistinctTxids rpc)
    {w : World χ} {i : TaskId} {t : Txn} (hj : Justified rpc 0 w i t) : TxHeights t.bundles :=
  fun _ hb => ((hj.fetched hb).coherent hlogs htxids).txHeight

/-- **The block row comes from the first version**, whatever is committed. -/
theorem Sourced.head_commit {w : World χ} (hs : Sourced rpc w) {i : TaskId} {t : Txn} {s : Store}
    (hj : Justified rpc 0 w i t) (hrun : t.run w.store = .ok s) (h : Int) :
    s.blocks.find? h = (firstBundle (w.commit i t s) h).map BlockBundle.block := by
  obtain ⟨blocks, _, _, _, hpb, -, -, -, hw⟩ := t.run_written hj.forward hrun
  rw [hw.blocks, Table.find?_insertAll, hs.head h, firstBundle_commit, Option.map_or]
  congr 1
  rcases hf : t.bundles.find? fun b => b.block.height = h with _ | b
  · rw [hf, Option.map_none, List.find?_eq_none]
    intro r hr
    obtain ⟨b, hb, rfl⟩ := List.mem_map.mp (hpb.mem_iff.mp hr)
    exact List.find?_eq_none.mp hf b hb
  · have hb := List.mem_of_find?_eq_some hf
    have hp := List.find?_some hf
    have hh : b.block.height = h := of_decide_eq_true hp
    rw [hf, Option.map_some]
    refine Table.find?_of_unique (hpb.mem_iff.mpr (List.mem_map_of_mem hb)) hp fun r hr hrh => ?_
    obtain ⟨b', hb', rfl⟩ := List.mem_map.mp (hpb.mem_iff.mp hr)
    have heq := (of_decide_eq_true hrh).trans hh.symm
    rw [hj.bundle_unique hb' hb heq]

section

variable (hlogs : FaithfulLogs rpc) (htxids : DistinctTxids rpc)
include hlogs htxids

/-- **A clean commit keeps every row with the first version of its height.** -/
theorem Sourced.commit {w : World χ} (hs : Sourced rpc w) {i : TaskId} {t : Txn} {s : Store}
    (hj : Justified rpc 0 w i t) (hrun : t.run w.store = .ok s) (hclean : Clean w.store t.bundles) :
    Sourced rpc (w.commit i t s) := by
  have hf := hj.forward
  have hext := Txn.run_extends hf hrun
  have hheights := hj.heights hlogs htxids
  -- A bundle that brings a free key is the first version of its height.
  have hfirst : ∀ b ∈ t.bundles, w.store.blocks.contains b.block.height = false →
      firstBundle (w.commit i t s) b.block.height = some b :=
    fun b hb hc => hj.firstBundle_commit hb (hs.firstBundle_none hc)
  have hnew : ∀ h b, firstBundle (w.commit i t s) h = some b → firstBundle w h = some b ∨
      b ∈ t.bundles ∧ b.block.height = h ∧ w.store.blocks.contains h = false := by
    intro h b hb
    rw [firstBundle_commit] at hb
    rcases hw : firstBundle w h with _ | b₀
    · rw [hw, Option.none_or] at hb
      have hp := List.find?_some hb
      refine Or.inr ⟨List.mem_of_find?_eq_some hb, of_decide_eq_true hp, ?_⟩
      rw [← Table.find?_eq_none, hs.head, hw, Option.map_none]
    · rw [hw, Option.some_or] at hb
      exact Or.inl hb
  refine ⟨?_, hs.head_commit hj hrun, ?_, ?_, ?_, ?_⟩
  · intro b hb
    rw [committedBundles_commit] at hb
    rcases List.mem_append.mp hb with hold | hmem
    · exact hs.fetched b hold
    · exact hj.fetched hmem
  · intro x hx
    rcases Txn.run_transaction hf hrun hheights hx with hold | ⟨hfree, b, hb, hxb, hlow⟩
    · obtain ⟨b, hb, hxb⟩ := hs.txs x hold
      exact ⟨b, firstBundle_commit_of_some hb, hxb⟩
    · refine ⟨b, ?_, hxb⟩
      rw [hheights b hb x hxb]
      refine hfirst b hb (Bool.eq_false_iff.mpr fun hc => ?_)
      refine (hclean.later b hb hc).1 x hxb ⟨hfree, fun b' hb' hlt y hy heq => ?_⟩
      have := hlow b' hb' y hy heq
      omega
  · intro h b hb x hx
    rcases hnew h b hb with hold | ⟨hmem, rfl, hc⟩
    · exact hext.transactions.mem (hs.kept h b hold x hx)
    · -- Some row is stored under the hash, and only this one can have come first.
      obtain ⟨hfree, hlow⟩ := hclean.first b hmem hc x hx
      obtain ⟨u, hu⟩ := Table.contains_iff.mp ((Txn.run_rowsStored hf hrun hmem).txs x hx)
      obtain ⟨humem, huh⟩ := Table.find?_eq_some.mp hu
      rcases Txn.run_transaction hf hrun hheights humem with hold | ⟨-, b', hb', hub', hlow'⟩
      · rw [← huh, Table.contains_of_find? (Table.mem_rows.mp hold)] at hfree
        exact absurd hfree (by decide)
      · have hle := hlow' b hmem x hx huh.symm
        have hge : ¬ b'.block.height < b.block.height := fun hlt => hlow b' hb' hlt u hub' huh
        obtain rfl := hj.bundle_unique hb' hmem (by omega)
        have hnodup := ((hj.fetched hmem).coherent hlogs htxids).hashes
        rwa [← List.inj_on_of_nodup_map hnodup hub' hx huh]
  · intro l hl
    rcases Txn.run_log hf hrun hl with hold | ⟨hfree, b, hb, hlb⟩
    · obtain ⟨b, hb, hlb⟩ := hs.logs l hold
      exact ⟨b, firstBundle_commit_of_some hb, hlb⟩
    · refine ⟨b, ?_, hlb⟩
      rw [((hj.fetched hb).coherent hlogs htxids).logHeight l hlb]
      refine hfirst b hb (Bool.eq_false_iff.mpr fun hc => ?_)
      rw [(hclean.later b hb hc).2 l hlb] at hfree
      exact absurd hfree (by decide)
  · intro h b hb l hl
    rcases hnew h b hb with hold | ⟨hmem, -, -⟩
    · exact hext.logs.contains (hs.logKeys h b hold l hl)
    · exact (Txn.run_rowsStored hf hrun hmem).logs l hl

/-- **A commit that is not clean leaves a mixed height.** -/
theorem Sourced.clean_of_unmixed {w : World χ} (hs : Sourced rpc w) {i : TaskId} {t : Txn}
    {s : Store} (hj : Justified rpc 0 w i t) (hrun : t.run w.store = .ok s)
    (hu : Unmixed rpc (w.commit i t s)) : Clean w.store t.bundles := by
  have hf := hj.forward
  have hext := Txn.run_extends hf hrun
  have hheights := hj.heights hlogs htxids
  -- What the commit leaves at the height of a bundle belongs to the first version.
  have hfrom : ∀ b ∈ t.bundles, ∃ b₀, firstBundle (w.commit i t s) b.block.height = some b₀ ∧
      (∀ x ∈ s.transactions.rows, x.blockHeight = b.block.height → x ∈ b₀.txs) ∧
      (∀ l ∈ s.logs.rows, l.blockHeight = b.block.height → l ∈ b₀.logs) ∧
      (s.transactions.count (fun x => x.blockHeight = b.block.height) : Int) = b₀.block.txCount := by
    intro b hb
    obtain ⟨r, hr⟩ := Table.contains_iff.mp (Txn.run_rowsStored hf hrun hb).block
    obtain ⟨hmem, hh⟩ := Table.find?_eq_some.mp hr
    obtain ⟨b₀, -, hfirst, rfl, htxs, hlg, hcount⟩ := hu r hmem
    rw [hh] at hfirst htxs hlg hcount
    exact ⟨b₀, hfirst, htxs, hlg, hcount⟩
  refine ⟨fun b hb hc => ?_, fun b hb hc => ?_⟩
  · obtain ⟨b₀, hb₀⟩ := hs.contains_iff.mp hc
    obtain ⟨b₁, hfirst, htxs, hlg, -⟩ := hfrom b hb
    obtain rfl := Option.some.inj ((firstBundle_commit_of_some hb₀).symm.trans hfirst)
    refine ⟨fun x hx hfree => ?_, fun l hl => ?_⟩
    · obtain ⟨u, hu⟩ := Table.contains_iff.mp ((Txn.run_rowsStored hf hrun hb).txs x hx)
      obtain ⟨humem, huh⟩ := Table.find?_eq_some.mp hu
      have hnot : u ∉ w.store.transactions.rows := fun hold => by
        have := Table.contains_of_find? (Table.mem_rows.mp hold)
        rw [huh, hfree.1] at this
        exact absurd this (by decide)
      rcases Txn.run_transaction hf hrun hheights humem with hold | ⟨-, b', hb', hub', hlow'⟩
      · exact hnot hold
      · have hle := hlow' b hb x hx huh.symm
        have hge : ¬ b'.block.height < b.block.height :=
          fun hlt => hfree.2 b' hb' hlt u hub' huh
        have huheight := hheights b' hb' u hub'
        exact hnot (hs.kept _ b₀ hb₀ u (htxs u humem (by omega)))
    · obtain ⟨l', hl'⟩ := Table.contains_iff.mp ((Txn.run_rowsStored hf hrun hb).logs l hl)
      obtain ⟨hmem, hkey⟩ := Table.find?_eq_some.mp hl'
      have hheight : l'.blockHeight = b.block.height :=
        (Prod.mk.inj hkey).1.trans (((hj.fetched hb).coherent hlogs htxids).logHeight l hl)
      rw [← hkey]
      exact hs.logKeys _ b₀ hb₀ l' (hlg l' hmem hheight)
  · intro x hx
    have hnone := hs.firstBundle_none hc
    have hco := (hj.fetched hb).coherent hlogs htxids
    obtain ⟨b₀, hfirst, htxs, -, hcount⟩ := hfrom b hb
    obtain rfl := Option.some.inj ((hj.firstBundle_commit hb hnone).symm.trans hfirst)
    -- As many rows as the block has transactions, so this one is among them.
    have hxs : x ∈ s.transactions.rows := by
      have hnodup := s.transactions.rows_nodup.filter fun x => x.blockHeight = b.block.height
      have hsubset : (s.transactions.rows.filter fun x => x.blockHeight = b.block.height) ⊆
          b.txs := by
        intro y hy
        obtain ⟨hy, hh⟩ := List.mem_filter.mp hy
        exact htxs y hy (of_decide_eq_true hh)
      have hsub := List.subperm_of_subset hnodup hsubset
      have hlen : b.txs.length ≤
          (s.transactions.rows.filter fun x => x.blockHeight = b.block.height).length := by
        rw [hco.txCount] at hcount
        unfold Table.count at hcount
        omega
      exact (List.mem_filter.mp ((hsub.perm_of_length_le hlen).mem_iff.mpr hx)).1
    have hnot : x ∉ w.store.transactions.rows := fun hold => by
      obtain ⟨b', hb', -⟩ := hs.txs x hold
      rw [hheights b hb x hx, hnone] at hb'
      exact absurd hb' (by simp)
    refine ⟨Bool.eq_false_iff.mpr fun hcon => ?_, fun b' hb' hlt y hy heq => ?_⟩
    · obtain ⟨u, hu⟩ := Table.contains_iff.mp hcon
      have hus := hext.transactions _ _ hu
      have hxu := Table.mem_rows.mp hxs
      rw [hus] at hxu
      exact hnot (Option.some.inj hxu ▸ (Table.find?_eq_some.mp hu).1)
    · rcases Txn.run_transaction hf hrun hheights hxs with hold | ⟨-, b₁, hb₁, hxb₁, hlow⟩
      · exact hnot hold
      · have hle := hlow b' hb' y hy heq
        have h₁ := hheights b₁ hb₁ x hxb₁
        have h₂ := hheights b hb x hx
        omega

end

/-! ### Runs -/

/-- Events that are not commits commit no version. -/
theorem Sourced.record {w w' : World χ} (hs : Sourced rpc w) (hstore : w'.store = w.store)
    (hb : committedBundles w' = committedBundles w) : Sourced rpc w' := by
  have hfirst : firstBundle w' = firstBundle w := by
    funext h
    unfold firstBundle
    rw [hb]
  refine ⟨?_, ?_, ?_, ?_, ?_, ?_⟩
  · rw [hb]; exact hs.fetched
  · rw [hstore, hfirst]; exact hs.head
  · rw [hstore, hfirst]; exact hs.txs
  · rw [hstore, hfirst]; exact hs.kept
  · rw [hstore, hfirst]; exact hs.logs
  · rw [hstore, hfirst]; exact hs.logKeys

theorem committedBundles_noteAnswer (w : World χ) (i : TaskId) (c : ChainCall) (r : c.Answer)
    (chain' : χ) :
    committedBundles { w with chain := chain', events := noteAnswer i c r ++ w.events } =
      committedBundles w := by
  show (noteAnswer i c r ++ w.events).reverse.flatMap Event.bundles = _
  rw [List.reverse_append, List.flatMap_append]
  unfold noteAnswer
  split
  · exact List.append_nil _
  · exact List.append_nil _

theorem sourced_init (chain : χ) : Sourced rpc (World.init chain) := by
  refine ⟨?_, fun _ => rfl, ?_, ?_, ?_, ?_⟩
  · intro b hb
    exact absurd hb (by simp [committedBundles, World.init])
  · intro x hx
    exact absurd hx (by simp [World.init, Store.empty])
  · intro h b hb
    exact absurd hb (by simp [firstBundle, committedBundles, World.init])
  · intro l hl
    exact absurd hl (by simp [World.init, Store.empty])
  · intro h b hb
    exact absurd hb (by simp [firstBundle, committedBundles, World.init])

section

variable (hlogs : FaithfulLogs rpc) (htxids : DistinctTxids rpc)
include hlogs htxids

/-- **One step whose commit is clean keeps every row with its version.** -/
theorem WriterStep.sourced {w w' : World χ} (hstep : WriterStep rpc 0 w w')
    (hclean : CommitsClean w w') (hs : Sourced rpc w) : Sourced rpc w' := by
  cases hstep with
  | idle => exact hs
  | chain i _ => exact hs.record rfl (committedBundles_noteAnswer w i _ _ _)
  | gate g => exact hs.record rfl rfl
  | push i row =>
      refine hs.record rfl ?_
      show (Event.pushed i row :: w.events).reverse.flatMap Event.bundles = _
      rw [List.reverse_cons, List.flatMap_append]
      exact List.append_nil _
  | @commit i t s hj hrun => exact hs.commit hlogs htxids hj hrun (hclean i t rfl)

/-- In a run whose commits are all clean, every row belongs to the first version of its height. -/
theorem sourced_of_commitsClean (hrest : FaithfulHeights rpc) {moves : χ → χ → Prop}
    {chain : χ} {c : Config SyncSig TaskId (World χ) Unit}
    (hc : Reachable ((indexer rpc moves).restrict CommitsClean) (World.init chain) c) :
    Sourced rpc c.world := by
  refine (indexer_verified hrest moves chain).restrict_inv (Sourced rpc) (sourced_init chain)
    (fun _ _ _ hs hstep hclean => hstep.sourced hlogs htxids hclean hs) ?_ ?_ hc
  · intro w w' _ hs he
    cases he with
    | chain _ => exact hs.record rfl rfl
    | cancel => exact hs.record rfl rfl
  · intro w w' _ hs hcr
    obtain rfl : w' = w.restart := hcr
    exact hs.record rfl rfl

end

/--
**No height mixes versions, exactly in the clean runs.**  In every run whose commits
are all clean, each stored height comes as a whole from the version committed first, and
its transactions are as many as the block row counts; and the first commit of a run that
is not clean leaves a mixed height.
-/
theorem no_mixed_height_iff (hrest : FaithfulHeights rpc) (hlogs : FaithfulLogs rpc)
    (htxids : DistinctTxids rpc) (moves : χ → χ → Prop) (chain : χ) :
    (∀ c, Reachable ((indexer rpc moves).restrict CommitsClean) (World.init chain) c →
      Unmixed rpc c.world) ∧
    (∀ c c', Reachable ((indexer rpc moves).restrict CommitsClean) (World.init chain) c →
      Move (indexer rpc moves) c c' → ¬ CommitsClean c.world c'.world →
      ¬ Unmixed rpc c'.world) := by
  refine ⟨fun c hc => (sourced_of_commitsClean hlogs htxids hrest hc).unmixed hlogs htxids,
    fun c c' hc hm hclean => ?_⟩
  have hs := sourced_of_commitsClean hlogs htxids hrest hc
  unfold CommitsClean at hclean
  push Not at hclean
  obtain ⟨i, t, hevents, hnot⟩ := hclean
  obtain ⟨s, hj, hrun, hw⟩ := commit_justified hrest hc.of_restrict hm hevents
  rw [hw]
  exact fun hu => hnot (hs.clean_of_unmixed hlogs htxids hj hrun hu)

/-! ### Two versions of one block -/

/-- Nodes that serve a single block with a single transaction. -/
def oneBlock (hash txid : String) : NodeTables where
  tip := .ok 0
  block h :=
    if h = 0 then .ok (some (bareBlock 0 hash [bareTx txid "0xann" "0xbob"])) else .ok none
  logs _ := .ok []
  header _ := .ok none

/-- Nodes of either fork may answer a call. -/
def eitherFork (n m : NodeTables) : Rpc Stream := fun stream c r stream' =>
  n.rpc stream c r stream' ∨ m.rpc stream c r stream'

theorem oneBlock_served {hash txid : String} {h : Int} {block : NativeBlockResponse}
    {stream stream' : Stream}
    (hr : (oneBlock hash txid).rpc stream (.restBlock h) (.ok (some block)) stream') :
    h = 0 ∧ block = bareBlock 0 hash [bareTx txid "0xann" "0xbob"] := by
  have hblock : Except.ok (some block) = (oneBlock hash txid).block h := (Prod.mk.inj hr).1
  unfold oneBlock at hblock
  by_cases h0 : h = 0
  · simp only [h0, if_true] at hblock
    exact ⟨h0, Option.some.inj (Except.ok.inj hblock)⟩
  · simp only [h0, if_false] at hblock
    exact absurd (Except.ok.inj hblock) (by simp)

/-- The block row at height 0 does not count the transactions stored there. -/
def miscounts (s : Store) : Bool :=
  (s.blocks.find? 0).any fun r =>
    (s.transactions.count fun x => x.blockHeight = 0 : Int) ≠ r.txCount

theorem not_unmixed_of_miscounts {w : World χ} (h : miscounts w.store = true) :
    ¬ Unmixed rpc w := by
  intro hu
  obtain ⟨r, hr, hne⟩ := (Option.any_eq_true _ _).mp h
  obtain ⟨hmem, hh⟩ := Table.find?_eq_some.mp hr
  obtain ⟨b, -, hb⟩ := hu r hmem
  have hcount := hb.count
  rw [hh] at hcount
  exact of_decide_eq_true hne hcount

/-- Nodes of two forks that disagree on block 0. -/
def forkA : NodeTables := oneBlock "a0" "t0"
def forkB : NodeTables := oneBlock "b0" "u0"

theorem forks_served {h : Int} {block : NativeBlockResponse}
    (hs : Served (eitherFork forkA forkB) h block) :
    h = 0 ∧ ∃ hash txid, block = bareBlock 0 hash [bareTx txid "0xann" "0xbob"] := by
  obtain ⟨stream, stream', hr | hr⟩ := hs
  · exact ⟨(oneBlock_served hr).1, _, _, (oneBlock_served hr).2⟩
  · exact ⟨(oneBlock_served hr).1, _, _, (oneBlock_served hr).2⟩

theorem forks_heights : FaithfulHeights (eitherFork forkA forkB) := by
  intro stream h block stream' hr
  obtain ⟨rfl, hash, txid, rfl⟩ := forks_served ⟨stream, stream', hr⟩
  rfl

theorem forks_logs : FaithfulLogs (eitherFork forkA forkB) := by
  intro h logs hs l hl
  obtain ⟨stream, stream', hr | hr⟩ := hs
  · obtain rfl : logs = [] := Except.ok.inj (Prod.mk.inj hr).1
    exact absurd hl (by simp)
  · obtain rfl : logs = [] := Except.ok.inj (Prod.mk.inj hr).1
    exact absurd hl (by simp)

theorem forks_txids : DistinctTxids (eitherFork forkA forkB) := by
  intro h block hs
  obtain ⟨-, hash, txid, rfl⟩ := forks_served hs
  exact List.nodup_singleton _

theorem forks_answers_left : Answers (eitherFork forkA forkB) forkA.respond :=
  fun _ _ => Or.inl rfl

theorem forks_answers_right : Answers (eitherFork forkA forkB) forkB.respond :=
  fun _ _ => Or.inr rfl

/-- Follow the tip without a lag. -/
def noLag : SyncConfig := { SyncConfig.default with safeLag := 0 }

/-- A backfill pass and a tail walk. -/
def backfillTo : Prog SyncSig Unit := discard (runBackfill noLag (Tuning.ofEnv none none) false)
def walkTo (tip : Int) : Prog SyncSig Unit := discard (handleFinalized noLag false tip)

/-- The backfill, stopped when it is about to commit what it fetched from fork A. -/
def aboutToCommit : World Stream × Prog SyncSig Unit :=
  advanceN (serve forkA.respond 0) 16 (World.init [], backfillTo)

/--
The backfill fetches block 0 from fork A; the tail walks to it on fork B and commits
first; the backfill commits what it holds.  The block row is that of fork B, and the
transactions of both forks are stored under it.
-/
theorem two_versions_mix :
    FaithfulHeights (eitherFork forkA forkB) ∧ FaithfulLogs (eitherFork forkA forkB) ∧
    DistinctTxids (eitherFork forkA forkB) ∧
    ∃ c, Reachable (indexer (eitherFork forkA forkB) fun _ _ => False) (World.init []) c ∧
      ¬ Unmixed (eitherFork forkA forkB) c.world := by
  refine ⟨forks_heights, forks_logs, forks_txids, ?_⟩
  have hstart : Reachable (indexer (eitherFork forkA forkB) fun _ _ => False) (World.init []) _ :=
    (Reachable.init).move (Move.start 0 backfillTo rfl (WriterTask.backfill _ _ false))
  have hfetched := hstart.steps (by simp)
    (advanceN_steps (handle_serve forks_answers_left 0) 16 (World.init []) backfillTo)
  obtain ⟨w, _, hwalk, hcheck⟩ := run_of_exec forks_answers_right 1 100 aboutToCommit.1
    (walkTo 0) (fun r => (exec (serve forkA.respond 0) 100 r.1 aboutToCommit.2).any
      fun r => miscounts r.1.store) (by decide +kernel)
  have hwalked := hfetched.run (i := 1) (by simp [Config.idle]) (WriterTask.finalized _ false 0) hwalk
  obtain ⟨w', _, hrest, hmixed⟩ := run_of_exec forks_answers_left 0 100 w aboutToCommit.2 _ hcheck
  exact ⟨_, hwalked.steps (by simp [aboutToCommit]) hrest.steps, not_unmixed_of_miscounts hmixed⟩

/-- Whether the call commits cleanly, if it commits. -/
def cleanCall (w : World χ) : SyncCall → Bool
  | .transact t => decide (Clean w.store t.bundles)
  | _ => true

/-- Answers to calls that commit cleanly are answers of the clean runs. -/
theorem serve_commitsClean {respond : Server ChainSig χ} (hr : Answers rpc respond)
    (moves : χ → χ → Prop) (i : TaskId) (w : World χ) (c : SyncCall)
    (hok : cleanCall w c = true) :
    ((indexer rpc moves).restrict CommitsClean).handler i w c
      (serve respond i w c).1 (serve respond i w c).2 := by
  refine ⟨handle_serve hr i w c, fun j t hevents => ?_⟩
  obtain ⟨rfl, -⟩ := commit_of_handle (handle_serve hr i w c) hevents
  exact of_decide_eq_true hok

/-- A backfill over one fork commits cleanly, and what it stores is not mixed. -/
theorem no_mixed_height_fork :
    ∃ c, Reachable ((indexer (eitherFork forkA forkB) fun _ _ => False).restrict CommitsClean)
        (World.init []) c ∧
      c.world.store.transactions.count (fun x => x.blockHeight = 0) = 1 ∧
      Unmixed (eitherFork forkA forkB) c.world := by
  obtain ⟨w, _, hrun, hcheck⟩ := exists_run_of_execWhile
    (serve_commitsClean forks_answers_left (fun _ _ => False) 0) 100 (World.init []) backfillTo
    (fun r => r.1.store.transactions.count (fun x => x.blockHeight = 0) = 1)
    (by decide +kernel)
  have hstart : Reachable ((indexer (eitherFork forkA forkB) fun _ _ => False).restrict
      CommitsClean) (World.init []) _ := Reachable.init
  have hreach := hstart.run rfl (WriterTask.backfill _ _ false) hrun
  exact ⟨_, hreach, of_decide_eq_true hcheck,
    (no_mixed_height_iff forks_heights forks_logs forks_txids _ _).1 _ hreach⟩

end SentrixIndexer
