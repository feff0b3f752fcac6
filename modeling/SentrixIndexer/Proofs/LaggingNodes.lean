/-
Heights skipped because a node was behind.

A 404 is read as a gap in the chain, but a node also answers it for a block it has not
seen yet.  When the tip comes from one node and the block is asked of another, a writer
steps over a block the chain does have.  A height is lost exactly when a writer steps
over it while no writer has stored it.
-/
import SentrixIndexer.Proofs.Refinement
import SentrixIndexer.Sync.Fleet

namespace SentrixIndexer

open Effect Relational

variable {χ : Type} {rpc : Rpc χ}

/-- Every height up to the cursor has a block row. -/
def AllStored (w : World χ) : Prop :=
  ∀ h, 0 ≤ h → h ≤ w.store.cursor → w.store.blocks.contains h = true

/-- If the step takes the 404 arm to its end, the height it steps over is stored already. -/
def StepsOverStored (w w' : World χ) : Prop :=
  ∀ i h nowTs, w'.events = .committed i (.writeCursor h nowTs) :: w.events →
    w.store.blocks.contains h = true

/-- What is settled has a block row. -/
def SettledStored (w : World χ) : Prop := ∀ h, Settled w h → w.store.blocks.contains h = true

theorem SettledStored.record {w w' : World χ} (h : SettledStored w)
    (hstore : w'.store = w.store)
    (hold : ∀ i t, Event.committed i t ∈ w'.events → Event.committed i t ∈ w.events) :
    SettledStored w' := by
  intro k hk
  obtain ⟨i, t, he, ht⟩ := hk
  rw [hstore]
  exact h k ⟨i, t, hold i t he, ht⟩

/-- A bundle a transaction writes settles its own height only. -/
theorem Txn.settles_bundle {t : Txn} {h : Int} (ht : t.Settles h) :
    (∃ b ∈ t.bundles, b.block.height = h) ∨ ∃ nowTs, t = .writeCursor h nowTs := by
  cases t with
  | writeBlock b => exact Or.inl ⟨b, List.mem_singleton.mpr rfl, ht⟩
  | batchWriteBlocks bundles => exact Or.inl ht
  | writeCursor g nowTs =>
      obtain rfl : g = h := ht
      exact Or.inr ⟨nowTs, rfl⟩
  | rewindTo g => exact absurd ht fun ht => ht

/-- **One step that steps over stored heights only keeps what is settled stored.** -/
theorem WriterStep.settledStored {w w' : World χ} (hs : WriterStep rpc 0 w w')
    (hp : StepsOverStored w w') (h : SettledStored w) : SettledStored w' := by
  cases hs with
  | idle => exact h
  | chain i _ => exact h.record rfl fun _ _ => committed_of_noteAnswer
  | gate g => exact h.record rfl fun _ _ he => he
  | push i row => exact h.record rfl fun _ _ he => by simpa using he
  | @commit i t s hj hrun =>
      have hext := Txn.run_extends hj.forward hrun
      intro k hk
      obtain ⟨j, u, he, hu⟩ := hk
      show s.blocks.contains k = true
      rcases List.mem_cons.mp he with heq | hold
      · obtain ⟨rfl, rfl⟩ := Event.committed.inj heq
        rcases Txn.settles_bundle hu with ⟨b, hb, hh⟩ | ⟨nowTs, ht⟩
        · rw [← hh]
          exact (Txn.run_rowsStored hj.forward hrun hb).block
        · subst ht
          exact hext.blocks.contains (hp j k nowTs rfl)
      · exact hext.blocks.contains (h k ⟨j, u, hold, hu⟩)

/-- In a run that steps over stored heights only, every height up to the cursor is stored. -/
theorem allStored_of_stepsOverStored (hrest : FaithfulHeights rpc) {moves : χ → χ → Prop}
    {chain : χ} {c : Config SyncSig TaskId (World χ) Unit}
    (hc : Reachable ((indexer rpc moves).restrict StepsOverStored) (World.init chain) c) :
    AllStored c.world := by
  have hv := indexer_verified hrest moves chain
  have hsettled : SettledStored c.world := by
    refine hv.restrict_inv SettledStored ?_ (fun _ _ _ hJ hs hp => hs.settledStored hp hJ)
      ?_ ?_ hc
    · intro h hh
      obtain ⟨i, t, he, -⟩ := hh
      exact absurd he (by simp [World.init])
    · intro w w' _ hJ he
      cases he with
      | chain _ => exact hJ
      | cancel => exact hJ
    · intro w w' _ hJ hcr
      obtain rfl : w' = w.restart := hcr
      exact hJ
  intro h h0 hle
  exact hsettled h ((hv.reachable hc.of_restrict).1.below h (by omega) (by omega))

/-- A step over a height that is not stored leaves a hole below the cursor. -/
theorem not_allStored_of_stepOver {w : World χ} {i : TaskId} {h nowTs : Int} {s : Store}
    (hj : Justified rpc 0 w i (.writeCursor h nowTs))
    (hrun : (Txn.writeCursor h nowTs).run w.store = .ok s)
    (hmissing : ¬ w.store.blocks.contains h = true) :
    ¬ AllStored (w.commit i (.writeCursor h nowTs) s) := by
  have hge := hj.2.1
  have h0 : 0 ≤ h := by omega
  have hcur := hj.cursor rfl hj.2.1 hrun
  have hw := writeCursor_written hrun
  intro hall
  have hstored : s.blocks.contains h = true := hall h h0 (by
    show h ≤ s.cursor
    omega)
  rw [hw.blocks] at hstored
  exact hmissing hstored

/-! ### Several nodes -/

/--
**No available block is skipped, exactly in the runs without a harmful 404.**  Nodes
serve one chain up to tips of their own.  In every run in which each writer that takes
the 404 arm for a height finds its row stored already, every height up to the cursor
has a block row; and a step that does otherwise leaves a hole.
-/
theorem no_block_skipped_iff (chain : CanonicalChain) (fleet : Fleet) :
    (∀ c, Reachable ((indexer (Fleet.rpc chain) Fleet.Grows).restrict StepsOverStored)
        (World.init fleet) c → AllStored c.world) ∧
    (∀ c c', Reachable (indexer (Fleet.rpc chain) Fleet.Grows) (World.init fleet) c →
      Move (indexer (Fleet.rpc chain) Fleet.Grows) c c' →
      ¬ StepsOverStored c.world c'.world → ¬ AllStored c'.world) := by
  have hrest := Fleet.faithfulHeights chain
  refine ⟨fun c hc => allStored_of_stepsOverStored hrest hc, fun c c' hc hm hp => ?_⟩
  unfold StepsOverStored at hp
  push Not at hp
  obtain ⟨i, h, nowTs, hevents, hmissing⟩ := hp
  obtain ⟨s, hj, hrun, hw⟩ := commit_justified hrest hc hm hevents
  rw [hw]
  exact not_allStored_of_stepOver hj hrun hmissing

/-- A chain of empty blocks. -/
def emptyBlocks : CanonicalChain where
  block h := bareBlock h (toString h) []
  logs _ := []
  header _ := ⟨Vector.replicate 32 0⟩
  index_block _ := rfl

/--
A REST node nine blocks behind the RPC node.  The tip is 9 and the default safe lag 8,
so block 1 is asked for, answered 404, and stepped over.
-/
theorem lagging_node_loses_block :
    ∃ c, Reachable (indexer (Fleet.rpc emptyBlocks) Fleet.Grows) (World.init ⟨[0], [9]⟩) c ∧
      ¬ AllStored c.world := by
  obtain ⟨w, _, hrun, hcheck⟩ := run_of_exec (Fleet.firstNode_answers emptyBlocks) 0 100
    (World.init ⟨[0], [9]⟩) (discard (runBackfill .default (Tuning.ofEnv none none) false))
    (fun r => r.1.store.cursor = 1 ∧ r.1.store.blocks.contains 1 = false) (by decide +kernel)
  have hend : w.store.cursor = 1 ∧ w.store.blocks.contains 1 = false := of_decide_eq_true hcheck
  obtain ⟨hcursor, hmissing⟩ := hend
  have hstart : Reachable (indexer (Fleet.rpc emptyBlocks) Fleet.Grows)
      (World.init ⟨[0], [9]⟩) _ := Reachable.init
  refine ⟨_, hstart.run rfl (WriterTask.backfill _ _ false) hrun, fun hall => ?_⟩
  have hstored := hall 1 (by decide) (by
    show 1 ≤ w.store.cursor
    omega)
  rw [hmissing] at hstored
  exact absurd hstored (by decide)

end SentrixIndexer
