/-
A rewind does not move the cursor back.

The rewind deletes every block from the divergence on and then writes the height
below it to the cursor, with the same statement every forward writer uses.  That
statement never lowers the cursor, so the cursor stays above the blocks that were
deleted, and a backfill pass starts right above the cursor and asks for none of them.
-/
import SentrixIndexer.Proofs.Refinement
import SentrixIndexer.Sync.Nodes
import SentrixIndexer.Sync.Reorg

namespace SentrixIndexer

open Effect Relational

variable {χ : Type} {rpc : Rpc χ} {i : TaskId}

/-! ### What a pass of the check does -/

/-- Neither the store nor the record has changed. -/
def Untouched (w w' : World χ) : Prop := w'.store = w.store ∧ w'.events = w.events

theorem Untouched.trans {w₁ w₂ w₃ : World χ} (h : Untouched w₁ w₂) (h' : Untouched w₂ w₃) :
    Untouched w₁ w₃ := ⟨h'.1.trans h.1, h'.2.trans h.2⟩

theorem alone_getByHeight (h : Int) (w : World χ) :
    wpAlone (handle rpc i) (Script.toProgE (getByHeightCall h)).run
      (fun _ w' => Untouched w w') w := by
  refine wpAlone_call.mpr fun r w₁ hH => ?_
  obtain ⟨rfl, -⟩ := hH
  exact ⟨rfl, rfl⟩

theorem alone_remoteBlock (h : Int) (w : World χ) :
    wpAlone (handle rpc i) (Script.toProgE (remoteBlock h)).run
      (fun _ w' => Untouched w w') w := by
  refine wp_script_bind (wp_mono (Q := fun _ w' => Untouched w w') (fun r w₁ hw₁ => ?_) ?_)
  · rcases r with e | b
    · exact hw₁
    · exact hw₁
  · unfold ChainProvider.blockWithTxs
    by_cases hneg : heightAsU64 h = none
    · rw [if_pos hneg]
      exact ⟨rfl, rfl⟩
    · rw [if_neg hneg]
      refine wpAlone_call.mpr fun r w₁ hH => ?_
      obtain ⟨chain', -, rfl⟩ := hH
      exact ⟨rfl, rfl⟩

/-- The walk back reads, and ends at or below the height it starts from. -/
theorem alone_walkBack (n : Nat) :
    ∀ w : World χ, wpAlone (handle rpc i) (Script.toProgE (walkBackToDivergence n)).run
      (fun r w' => Untouched w w' ∧ ∀ d, r = .ok d → 0 ≤ d ∧ d ≤ n) w := by
  induction n with
  | zero =>
      intro w
      refine ⟨⟨rfl, rfl⟩, fun d hd => ?_⟩
      obtain rfl := Except.ok.inj hd
      omega
  | succ parent ih =>
      intro w
      have hstop : ∀ w', Untouched w w' → Untouched w w' ∧
          ∀ d, (Except.ok (parent + 1 : Int) : Except SyncError Int) = .ok d →
            0 ≤ d ∧ d ≤ (parent + 1 : Nat) := by
        intro w' hw'
        refine ⟨hw', fun d hd => ?_⟩
        obtain rfl := Except.ok.inj hd
        omega
      unfold walkBackToDivergence
      refine wp_scriptE_bind (wp_mono (fun stored w₁ h₁ => ?_) (alone_getByHeight parent w))
      rcases stored with e | stored
      · exact ⟨h₁, fun d hd => absurd hd (by simp)⟩
      refine wp_scriptE_bind (wp_mono (fun remote w₂ h₂ => ?_) (alone_remoteBlock parent w₁))
      have h₂ := h₁.trans h₂
      rcases remote with e | remote
      · exact ⟨h₂, fun d hd => absurd hd (by simp)⟩
      rcases stored with _ | l
      · exact hstop w₂ h₂
      rcases remote with _ | r
      · exact hstop w₂ h₂
      by_cases heq : r.hashText = l.hash
      · simp only [heq, if_true]
        exact hstop w₂ h₂
      · simp only [heq, if_false]
        refine wp_mono (fun r w₃ h₃ => ?_) (ih w₂)
        refine ⟨h₂.trans h₃.1, fun d hd => ?_⟩
        obtain ⟨h0, hle⟩ := h₃.2 d hd
        omega

/-- The pass committed a rewind to `d`, and this was the last thing it did. -/
def Rewound (w : World χ) (i : TaskId) (d : Int) (w' : World χ) : Prop :=
  ∃ before, w.events <:+ before ∧ w'.events = .committed i (.rewindTo d) :: before

/-- A pass leaves everything alone, or rewinds to a height at or below the probe. -/
theorem alone_checkOnce (cfg : SyncConfig) (cursor : Int) (w : World χ) :
    wpAlone (handle rpc i) (Script.toProgE (checkOnce cfg cursor)).run (fun r w' =>
      Untouched w w' ∨ ∃ d, 0 ≤ d ∧ d ≤ probeHeight cfg cursor ∧ Rewound w i d w' ∧
        rewindTx d w.store = .ok w'.store ∧ ∀ n, r = .ok n → n = saturatingSub d 1) w := by
  have hsame : Untouched w w := ⟨rfl, rfl⟩
  unfold checkOnce
  by_cases hneg : cursor < 0
  · simp only [hneg, if_true]
    exact Or.inl hsame
  simp only [hneg, if_false]
  refine wp_scriptE_bind (wp_mono (fun stored w₁ h₁ => ?_) (alone_getByHeight _ w))
  rcases stored with e | _ | stored
  · exact Or.inl h₁
  · exact Or.inl h₁
  refine wp_scriptE_bind (wp_mono (fun remote w₂ h₂ => ?_) (alone_remoteBlock _ w₁))
  have h₂ := h₁.trans h₂
  rcases remote with e | _ | remote
  · exact Or.inl h₂
  · exact Or.inl h₂
  by_cases heq : remote.hashText = stored.hash
  · simp only [heq, if_true]
    exact Or.inl h₂
  simp only [heq, if_false]
  refine wp_scriptE_bind (wp_mono (fun divergence w₃ h₃ => ?_) (alone_walkBack _ w₂))
  obtain ⟨h₃, hd⟩ := h₃
  have h₃ := h₂.trans h₃
  rcases divergence with e | d
  · exact Or.inl h₃
  obtain ⟨h0, hle⟩ := hd d rfl
  have hprobe : d ≤ probeHeight cfg cursor := by
    have : 0 ≤ probeHeight cfg cursor := le_max_right _ _
    omega
  refine wp_scriptE_bind (wpAlone_call.mpr fun r w₄ hH => ?_)
  rcases hH with ⟨s, hrun, rfl⟩ | ⟨⟨e, rfl⟩, rfl⟩
  · rw [h₃.1] at hrun
    have hrewound : Rewound w i d (w₃.commit i (.rewindTo d) s) :=
      ⟨w₃.events, h₃.2 ▸ List.suffix_refl _, rfl⟩
    rcases r with e | u
    · exact Or.inr ⟨d, h0, hprobe, hrewound, hrun, fun n hn => absurd hn (by simp)⟩
    · exact Or.inr ⟨d, h0, hprobe, hrewound, hrun, fun n hn => (Except.ok.inj hn).symm⟩
  · exact Or.inl h₃

/-! ### What a rewind leaves -/

/-- The rewind deletes the blocks from `d` on. -/
theorem RewoundTo.deleted {d : Int} {s s' : Store} (h : RewoundTo d s s') {k : Int}
    (hk : d ≤ k) : s'.blocks.contains k = false := by
  rw [← Table.find?_eq_none, h.blocks, Table.find?_deleteWhere]
  rcases hf : s.blocks.find? k with _ | r
  · rfl
  · rw [← Table.find?_key hf] at hk
    rw [Option.filter_some, if_neg (by simp [hk])]

/-- **The rewind keeps the cursor** it finds at or above the height it rewinds to. -/
theorem RewoundTo.cursor_kept {d c : Int} {s s' : Store} (h : RewoundTo d s s')
    (hc : readCursor s = some c) (hd : saturatingSub d 1 ≤ c) : readCursor s' = some c := by
  rw [h.cursor, hc]
  exact congrArg some (max_eq_left hd)

/-! ### What the next backfill pass does -/

/-- A writer leaves every height below its floor alone. -/
theorem WriterStep.below_floor {floor : Nat} {w w' : World χ} (hs : WriterStep rpc floor w w')
    {k : Int} (hk : k < floor) (hc : w.store.blocks.contains k = false) :
    w'.store.blocks.contains k = false := by
  cases hs with
  | idle => exact hc
  | chain i _ => exact hc
  | gate g => exact hc
  | push i row => exact hc
  | @commit i t s hj hrun =>
      rw [← Table.find?_eq_none]
      rcases hf : s.blocks.find? k with _ | r
      · exact hf
      · obtain ⟨hr, hkey⟩ := Table.find?_eq_some.mp hf
        rcases Txn.run_block hj.forward hrun hr with hold | ⟨b, hb, rfl, -⟩
        · have := Table.contains_of_find? (Table.mem_rows.mp hold)
          rw [hkey, hc] at this
          exact absurd this (by decide)
        · -- A bundle of a justified transaction is at or above the floor.
          have hge := hj.floor_le hb
          omega

/-- A backfill pass stores nothing at or below the cursor it starts from. -/
theorem runBackfill_above (hrest : FaithfulHeights rpc) {cfg : SyncConfig} {tuning : Tuning}
    {analytics : Bool} {w w' : World χ} {r : Except SyncError Int} {c : Int}
    (hrun : Run (handle rpc i) w (runBackfill cfg tuning analytics).run w' r)
    (hc : readCursor w.store = some c) (h0 : 0 ≤ c) {k : Int} (hk : k ≤ c)
    (hfree : w.store.blocks.contains k = false) : w'.store.blocks.contains k = false := by
  have hfloor : ((c + 1).toNat : Int) = c + 1 := Int.toNat_of_nonneg (by omega)
  have hcursor : w.store.cursor = c := by
    unfold Store.cursor
    rw [hc]
    rfl
  have hstart : CursorSettled (c + 1).toNat w := by
    refine ⟨by omega, fun h hge hlt => ?_⟩
    omega
  have hkeeps : ∀ w₁ w₂ : World χ, CursorSettled (c + 1).toNat w₁ →
      w₁.store.blocks.contains k = false → WriterStep rpc (c + 1).toNat w₁ w₂ →
      w₂.store.blocks.contains k = false :=
    fun _ _ _ hc hs => hs.below_floor (by omega) hc
  exact (wp_run Later.refl hrun ⟨hstart, hfree⟩
    (wp_strengthen hkeeps (keeps_runBackfill hrest cfg tuning analytics w))).1.2

/-! ### The rewind of a reorg -/

/--
**A rewind never moves the cursor back.**  Whatever is stored and whatever the nodes
serve, a pass that rewinds to `d` at or below the persisted cursor `c` returns `d - 1`
and leaves the persisted cursor at `c`, above every block it deleted; and the next
backfill pass, however far it goes, stores none of the heights `d..c` again.
-/
theorem rewind_never_moves_cursor (hrest : FaithfulHeights rpc) {cfg : SyncConfig}
    {w w' : World χ} {c d : Int} {r : Except SyncError Int}
    (hcursor : readCursor w.store = some c) (h0 : 0 ≤ d) (hd : d ≤ c)
    (hrun : Run (handle rpc i) w (Script.toProgE (checkOnce cfg c)).run w' r)
    (hrewound : Rewound w i d w') :
    (∀ n, r = .ok n → n = d - 1) ∧ readCursor w'.store = some c ∧ c ≠ d - 1 ∧
    (∀ k, d ≤ k → w'.store.blocks.contains k = false) ∧
    ∀ cfg' tuning analytics w'' r',
      Run (handle rpc i) w' (runBackfill cfg' tuning analytics).run w'' r' →
      ∀ k, d ≤ k → k ≤ c → w''.store.blocks.contains k = false := by
  rcases wpAlone_run hrun (alone_checkOnce cfg c w) with hsame | ⟨d', -, hprobe, hwas, htx, hret⟩
  · -- A pass that committed nothing has not rewound.
    obtain ⟨before, hsuffix, hevents⟩ := hrewound
    rw [hsame.2] at hevents
    have hlen := hsuffix.length_le
    rw [hevents, List.length_cons] at hlen
    omega
  · obtain ⟨before, -, hevents⟩ := hrewound
    obtain ⟨before', -, hevents'⟩ := hwas
    rw [hevents] at hevents'
    obtain ⟨-, hsame⟩ := Event.committed.inj (List.cons.inj hevents').1
    obtain rfl : d = d' := Txn.rewindTo.inj hsame
    have hsub : saturatingSub d 1 = d - 1 := by
      unfold probeHeight saturatingSub i64Min i64Max at hprobe
      unfold saturatingSub i64Min i64Max
      omega
    have hkept := (rewindTx_rewoundTo htx).cursor_kept hcursor (by omega)
    have hdeleted : ∀ k, d ≤ k → w'.store.blocks.contains k = false :=
      fun k hk => (rewindTx_rewoundTo htx).deleted hk
    refine ⟨fun n hn => by rw [hret n hn, hsub], hkept, by omega, hdeleted, ?_⟩
    intro cfg' tuning analytics w'' r' hback k hk hkc
    exact runBackfill_above hrest hback hkept (by omega) hkc (hdeleted k hk)

/-! ### A reorg of two blocks -/

/-- The header hash of block 0 on both chains. -/
def genesisHash : B256 := Vector.replicate 32 0

/-- Three blocks on top of the same genesis; blocks 1 and 2 carry the given hashes. -/
def threeBlocks (one two : String) : NodeTables where
  tip := .ok 2
  block h :=
    if h = 0 then .ok (some (bareBlock 0 (hexEncode genesisHash.toList) []))
    else if h = 1 then .ok (some (bareBlock 1 one []))
    else if h = 2 then .ok (some (bareBlock 2 two []))
    else .ok none
  logs _ := .ok []
  header h := .ok (some ⟨if h = 0 then genesisHash else Vector.replicate 32 1⟩)

theorem threeBlocks_faithful (one two : String) : (threeBlocks one two).Faithful := by
  intro h block hb
  unfold threeBlocks at hb
  by_cases h0 : h = 0
  · simp only [h0, if_true] at hb
    obtain rfl := Option.some.inj (Except.ok.inj hb)
    exact h0.symm
  by_cases h1 : h = 1
  · subst h1
    obtain rfl := Option.some.inj (Except.ok.inj hb)
    rfl
  by_cases h2 : h = 2
  · subst h2
    obtain rfl := Option.some.inj (Except.ok.inj hb)
    rfl
  simp only [h0, h1, h2, if_false] at hb
  exact absurd (Except.ok.inj hb) (by simp)

/-- Follow the tip without a lag, and probe at the cursor itself. -/
def probeTip : SyncConfig := { SyncConfig.default with safeLag := 0, reorgProbeDepth := 0 }

/-- The chain that was indexed, and the one the nodes serve now. -/
def abandoned : NodeTables := threeBlocks "a1" "a2"
def canonical : NodeTables := threeBlocks "b1" "b2"

def backfillPassOf (cfg : SyncConfig) : SyncProg Int :=
  runBackfill cfg (Tuning.ofEnv none none) false

/-- A fresh process over the store a backfill of the abandoned chain leaves. -/
def indexed : World Stream :=
  match exec (serve abandoned.respond 0) 200 (World.init []) (backfillPassOf probeTip).run with
  | some (w, _) => { World.init [] with store := w.store }
  | none => World.init []

theorem indexed_cursor : readCursor indexed.store = some 2 := by decide +kernel

theorem indexed_events : indexed.events = [] := by
  unfold indexed
  split
  · rfl
  · rfl

/-- The pass over it: it returns height 0, and the cursor is still 2. -/
theorem checkOnce_indexed : ∃ w', Run (handle canonical.rpc 0) indexed
    (Script.toProgE (checkOnce probeTip 2)).run w' (.ok 0) ∧ Rewound indexed 0 1 w' ∧
    readCursor w'.store = some 2 ∧
    ∃ w'', Run (handle canonical.rpc 0) w' (backfillPassOf probeTip).run w'' (.ok 2) ∧
      w''.store.blocks.contains 1 = false := by
  obtain ⟨w', r, hrun, hcheck⟩ := run_of_exec canonical.answers 0 100 indexed
    (Script.toProgE (checkOnce probeTip 2)).run
    (fun x => x.2 = .ok 0 ∧ x.1.events = [.committed 0 (.rewindTo 1)] ∧
      readCursor x.1.store = some 2 ∧
      (exec (serve canonical.respond 0) 100 x.1 (backfillPassOf probeTip).run).any
        fun y => y.2 = .ok 2 ∧ y.1.store.blocks.contains 1 = false) (by decide +kernel)
  have hcheck := of_decide_eq_true hcheck
  obtain ⟨rfl, hevents, hcursor, hnext⟩ := hcheck
  obtain ⟨w'', r', hback, hend⟩ := run_of_exec canonical.answers 0 100 w'
    (backfillPassOf probeTip).run _ hnext
  have hend : r' = .ok 2 ∧ w''.store.blocks.contains 1 = false := of_decide_eq_true hend
  obtain ⟨rfl, hmissing⟩ := hend
  exact ⟨w', hrun, ⟨[], indexed_events ▸ List.suffix_refl _, hevents⟩, hcursor, w'', hback, hmissing⟩

/--
A reorg of blocks 1 and 2 at cursor 2.  The pass deletes both and returns 0, the
persisted cursor stays 2, and the backfill that follows finds nothing to do.
-/
theorem rewound_blocks_stay_lost :
    ∃ w w' : World Stream, readCursor w.store = some 2 ∧
      Run (handle canonical.rpc 0) w (Script.toProgE (checkOnce probeTip 2)).run w' (.ok 0) ∧
      Rewound w 0 1 w' ∧ readCursor w'.store ≠ some 0 ∧
      ∃ w'', Run (handle canonical.rpc 0) w' (backfillPassOf probeTip).run w'' (.ok 2) ∧
        w''.store.blocks.contains 1 = false := by
  obtain ⟨w', hrun, hrewound, hcursor, hback⟩ := checkOnce_indexed
  refine ⟨indexed, w', indexed_cursor, hrun, hrewound, ?_, hback⟩
  rw [hcursor]
  decide

theorem rewind_never_moves_cursor_indexed : ∃ w', Rewound indexed 0 1 w' ∧
    readCursor w'.store = some 2 ∧ ∀ k, 1 ≤ k → w'.store.blocks.contains k = false := by
  obtain ⟨w', hrun, hrewound, -⟩ := checkOnce_indexed
  obtain ⟨-, hcursor, -, hdeleted, -⟩ :=
    rewind_never_moves_cursor (threeBlocks_faithful _ _).heights indexed_cursor
      (by decide) (by decide) hrun hrewound
  exact ⟨w', hrewound, hcursor, hdeleted⟩

end SentrixIndexer
