/-
The cursor is never ahead of the data.

Over the steps of the writers' protocol: a committed bundle stays stored, a block row
always heads a committed bundle, and a step over a height always follows the 404 that
made the writer take it.  Since every height up to the cursor is settled, each of them
is covered in one of these two ways.
-/
import SentrixIndexer.Proofs.Refinement
import SentrixIndexer.Sync.Nodes

namespace SentrixIndexer

open Effect Relational

variable {χ : Type} {rpc : Rpc χ}

/-! ### The record and the store -/

/-- Some task committed a transaction that writes the bundle. -/
def CommittedBundle (w : World χ) (b : BlockBundle) : Prop :=
  ∃ i t, Event.committed i t ∈ w.events ∧ b ∈ t.bundles

/-- The stored block at the height heads a committed bundle, and all its rows are stored. -/
def HasBundle (w : World χ) (h : Int) : Prop :=
  ∃ b, CommittedBundle w b ∧ w.store.blocks.find? h = some b.block ∧ RowsStored w.store b

/-- A task was answered 404 for the height and advanced the cursor over it afterwards. -/
def SteppedOver (w : World χ) (h : Int) : Prop :=
  ∃ i nowTs after before, w.events = after ++ .committed i (.writeCursor h nowTs) :: before ∧
    Event.notFound i h ∈ before

/-- The record explains the store. -/
structure Accounted (w : World χ) : Prop where
  stored : ∀ b, CommittedBundle w b → RowsStored w.store b
  headed : ∀ r ∈ w.store.blocks.rows, ∃ b, CommittedBundle w b ∧ b.block = r
  asked : ∀ i h nowTs, Event.committed i (.writeCursor h nowTs) ∈ w.events → SteppedOver w h

theorem CommittedBundle.later {w w' : World χ} {b : BlockBundle} (h : CommittedBundle w b)
    (hl : Later w w') : CommittedBundle w' b := by
  obtain ⟨i, t, he, hb⟩ := h
  exact ⟨i, t, hl.mem he, hb⟩

theorem SteppedOver.later {w w' : World χ} {h : Int} (hs : SteppedOver w h)
    (hl : Later w w') : SteppedOver w' h := by
  obtain ⟨i, nowTs, after, before, he, hmem⟩ := hs
  obtain ⟨new, hnew⟩ := hl
  exact ⟨i, nowTs, new ++ after, before, by rw [← hnew, he, List.append_assoc], hmem⟩

/-- Events that are not commits account for nothing new. -/
theorem Accounted.record {w w' : World χ} (h : Accounted w) (hstore : w'.store = w.store)
    (hl : Later w w')
    (hold : ∀ i t, Event.committed i t ∈ w'.events → Event.committed i t ∈ w.events) :
    Accounted w' := by
  refine ⟨?_, ?_, ?_⟩
  · intro b hb
    obtain ⟨i, t, he, hb⟩ := hb
    rw [hstore]
    exact h.stored b ⟨i, t, hold i t he, hb⟩
  · intro r hr
    rw [hstore] at hr
    obtain ⟨b, hb, hbr⟩ := h.headed r hr
    exact ⟨b, hb.later hl, hbr⟩
  · intro i k nowTs he
    exact (h.asked i k nowTs (hold _ _ he)).later hl

/-- **One step of a writer keeps the record and the store in step.** -/
theorem WriterStep.accounted {w w' : World χ} (hs : WriterStep rpc 0 w w') (h : Accounted w) :
    Accounted w' := by
  have hl := hs.later
  cases hs with
  | idle => exact h
  | chain i _ => exact h.record rfl hl fun _ _ => committed_of_noteAnswer
  | gate g => exact h.record rfl hl fun _ _ he => he
  | push i row => exact h.record rfl hl fun _ _ he => by simpa using he
  | @commit i t s hj hrun =>
      have hf := hj.forward
      have hext := Txn.run_extends hf hrun
      refine ⟨?_, ?_, ?_⟩
      · intro b hb
        obtain ⟨j, u, he, hbu⟩ := hb
        rcases List.mem_cons.mp he with heq | hold
        · obtain ⟨rfl, rfl⟩ := Event.committed.inj heq
          exact Txn.run_rowsStored hf hrun hbu
        · exact (h.stored b ⟨j, u, hold, hbu⟩).mono hext
      · intro r hr
        rcases Txn.run_block hf hrun hr with hold | ⟨b, hb, hbr, -⟩
        · obtain ⟨b, hb, hbr⟩ := h.headed r hold
          exact ⟨b, hb.later hl, hbr⟩
        · exact ⟨b, ⟨i, t, List.mem_cons_self .., hb⟩, hbr⟩
      · intro j k nowTs he
        rcases List.mem_cons.mp he with heq | hold
        · obtain ⟨rfl, rfl⟩ := Event.committed.inj heq
          exact ⟨j, nowTs, [], w.events, rfl, hj.1⟩
        · exact (h.asked j k nowTs hold).later hl

theorem accounted_init (chain : χ) : Accounted (World.init chain) := by
  refine ⟨?_, ?_, ?_⟩
  · intro b hb
    obtain ⟨i, t, he, -⟩ := hb
    exact absurd he (by simp [World.init])
  · intro r hr
    exact absurd hr (by simp [World.init, Store.empty])
  · intro i h nowTs he
    exact absurd he (by simp [World.init])

/-- In every state any interleaving reaches, the record explains the store. -/
theorem reachable_accounted (hrest : FaithfulHeights rpc) {moves : χ → χ → Prop} {chain : χ}
    {c : Config SyncSig TaskId (World χ) Unit}
    (h : Reachable (indexer rpc moves) (World.init chain) c) : Accounted c.world := by
  refine (indexer_verified hrest moves chain).inv Accounted (accounted_init chain)
    (fun _ _ _ ha hs => hs.accounted ha) ?_ ?_ h
  · intro w w' _ ha he
    cases he with
    | chain _ => exact ⟨ha.stored, ha.headed, ha.asked⟩
    | cancel => exact ⟨ha.stored, ha.headed, ha.asked⟩
  · intro w w' _ ha hc
    obtain rfl : w' = w.restart := hc
    exact ⟨ha.stored, ha.headed, ha.asked⟩

/-- A settled height has a stored bundle or was stepped over. -/
theorem Accounted.covers {w : World χ} (ha : Accounted w) {h : Int} (hs : Settled w h) :
    HasBundle w h ∨ SteppedOver w h := by
  obtain ⟨i, t, he, ht⟩ := hs
  -- The row stored at the height heads some committed bundle, not always the settling one.
  have hbundle : ∀ b ∈ t.bundles, b.block.height = h → HasBundle w h := by
    intro b hb hh
    have hrow := (ha.stored b ⟨i, t, he, hb⟩).block
    rw [hh] at hrow
    obtain ⟨r, hr⟩ := Table.contains_iff.mp hrow
    obtain ⟨b', hb', rfl⟩ := ha.headed r (Table.find?_eq_some.mp hr).1
    exact ⟨b', hb', hr, ha.stored b' hb'⟩
  cases t with
  | writeBlock b => exact Or.inl (hbundle b (List.mem_singleton.mpr rfl) ht)
  | batchWriteBlocks bundles =>
      obtain ⟨b, hb, hh⟩ := ht
      exact Or.inl (hbundle b hb hh)
  | writeCursor g nowTs =>
      obtain rfl : g = h := ht
      exact Or.inr (ha.asked i g nowTs he)
  | rewindTo g => exact absurd ht fun ht => ht

/-! ### Cursor safety -/

/--
**The cursor is never ahead of the data.**  In every state any interleaving of
backfill passes and tail walks reaches, with any call failing and crashes at any
point, each height up to the persisted cursor has its block row stored together with
the committed bundle it heads, or was answered 404 to a task that then advanced over it.
-/
theorem cursor_never_ahead_of_data (hrest : FaithfulHeights rpc) {moves : χ → χ → Prop}
    {chain : χ} {c : Config SyncSig TaskId (World χ) Unit}
    (hc : Reachable (indexer rpc moves) (World.init chain) c) :
    ∀ h, 0 ≤ h → h ≤ c.world.store.cursor →
      HasBundle c.world h ∨ SteppedOver c.world h := by
  intro h h0 hle
  have hsettled := ((indexer_verified hrest moves chain).reachable hc).1.below
  exact (reachable_accounted hrest hc).covers (hsettled h (by omega) (by omega))

/-- Two blocks and a gap, with the tip right above it. -/
def gapNodes : NodeTables where
  tip := .ok 2
  block h :=
    if h = 0 then .ok (some (bareBlock h "a0" [bareTx "t0" "0xann" "0xbob"]))
    else if h = 1 then .ok (some (bareBlock h "a1" []))
    else .ok none
  logs _ := .ok []
  header _ := .ok none

theorem gapNodes_faithful : gapNodes.Faithful := by
  intro h block hb
  unfold gapNodes at hb
  by_cases h0 : h = 0
  · simp only [h0, if_true] at hb
    obtain rfl := Option.some.inj (Except.ok.inj hb)
    exact h0.symm
  · by_cases h1 : h = 1
    · simp only [h1] at hb
      obtain rfl := Option.some.inj (Except.ok.inj hb)
      exact h1.symm
    · simp only [h0, h1, if_false] at hb
      exact absurd (Except.ok.inj hb) (by simp)

/-- A backfill pass over the gap: the cursor reaches it, and every height is covered. -/
theorem cursor_never_ahead_of_data_gap :
    ∃ c, Reachable (indexer gapNodes.rpc fun _ _ => False) (World.init []) c ∧
      c.world.store.cursor = 2 ∧
      ∀ h, 0 ≤ h → h ≤ 2 → HasBundle c.world h ∨ SteppedOver c.world h := by
  let cfg : SyncConfig := { SyncConfig.default with safeLag := 0 }
  obtain ⟨w, _, hrun, hcheck⟩ := run_of_exec gapNodes.answers 0 100 (World.init [])
    (discard (runBackfill cfg (Tuning.ofEnv none none) false))
    (fun r => r.1.store.cursor = 2) (by decide +kernel)
  have hcursor : w.store.cursor = 2 := of_decide_eq_true hcheck
  have hstart : Reachable (indexer gapNodes.rpc fun _ _ => False) (World.init []) _ :=
    Reachable.init
  have hreach := hstart.run rfl (WriterTask.backfill cfg _ false) hrun
  refine ⟨_, hreach, hcursor, fun h h0 hle => ?_⟩
  exact cursor_never_ahead_of_data gapNodes_faithful.heights hreach h h0 (hcursor ▸ hle)

end SentrixIndexer
