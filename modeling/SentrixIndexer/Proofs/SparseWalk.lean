/-
Where the walk back ends on a table with gaps.

The walk goes down from the probe as long as it finds stored blocks that differ.  It
stops at a block that agrees, at a missing height and at the bottom, and takes each of
the three for the fork.  So the rewind deletes the diverged blocks that lie right below
the probe without a gap, and all diverged blocks only if there are no others.
-/
import SentrixIndexer.Effect.Succeeds
import SentrixIndexer.Proofs.Rewind

namespace SentrixIndexer

open Effect Relational

/-! ### The walk as a search -/

/-- The remote hash of the height differs from the stored one. -/
def Diverged (remote : Int → RpcBlock) (b : Block) : Prop :=
  (remote b.height).hashText ≠ b.hash

instance (remote : Int → RpcBlock) (b : Block) : Decidable (Diverged remote b) :=
  inferInstanceAs (Decidable (_ ≠ _))

/-- The height the walk ends at. -/
def divergenceFrom (s : Store) (remote : Int → RpcBlock) : Nat → Int
  | 0 => 0
  | parent + 1 =>
      match Blocks.getByHeight s parent with
      | some l =>
          if (remote parent).hashText = l.hash then (parent + 1 : Int)
          else divergenceFrom s remote parent
      | none => (parent + 1 : Int)

theorem mem_blocks {s : Store} {h : Int} {b : Block} :
    Blocks.getByHeight s h = some b ↔ b ∈ s.blocks.rows ∧ b.height = h := by
  constructor
  · intro hb
    have hkey : b.height = h := Table.find?_key hb
    subst hkey
    exact ⟨Table.mem_rows.mpr hb, rfl⟩
  · rintro ⟨hmem, rfl⟩
    exact Table.mem_rows.mp hmem

/-- **What the walk has seen** where it ends: diverged blocks all the way down, and below them
the bottom, a gap, or a block that agrees. -/
theorem divergenceFrom_spec (s : Store) (remote : Int → RpcBlock) (p : Nat) :
    0 ≤ divergenceFrom s remote p ∧ divergenceFrom s remote p ≤ p ∧
      (∀ h, divergenceFrom s remote p ≤ h → h < p →
        ∃ b ∈ s.blocks.rows, b.height = h ∧ Diverged remote b) ∧
      (divergenceFrom s remote p = 0 ∨
        ∀ b ∈ s.blocks.rows, b.height = divergenceFrom s remote p - 1 → ¬ Diverged remote b) := by
  induction p with
  | zero =>
      have hzero : divergenceFrom s remote 0 = 0 := rfl
      rw [hzero]
      exact ⟨le_rfl, le_rfl, fun h h0 hlt => absurd hlt (by omega), .inl rfl⟩
  | succ p ih =>
      unfold divergenceFrom
      rcases hb : Blocks.getByHeight s p with _ | l
      · simp only
        refine ⟨by omega, by omega, fun h hle hlt => absurd hlt (by omega), .inr ?_⟩
        intro b hmem hheight
        rw [mem_blocks.mpr ⟨hmem, show b.height = p by omega⟩] at hb
        exact absurd hb (by simp)
      · obtain ⟨hl, hheight⟩ := mem_blocks.mp hb
        by_cases heq : (remote p).hashText = l.hash
        · simp only [heq, if_true]
          refine ⟨by omega, by omega, fun h hle hlt => absurd hlt (by omega), .inr ?_⟩
          intro b hmem hbh
          rw [mem_blocks.mpr ⟨hmem, show b.height = p by omega⟩] at hb
          obtain rfl := Option.some.inj hb
          rw [Diverged, hheight]
          exact not_not.mpr heq
        · simp only [heq, if_false]
          obtain ⟨h0, hle, hseen, hend⟩ := ih
          refine ⟨h0, by omega, fun h hdh hlt => ?_, hend⟩
          by_cases hp : h = p
          · refine ⟨l, hl, by omega, ?_⟩
            rw [Diverged, hheight]
            exact heq
          · exact hseen h hdh (by omega)

/-! ### A fork and a table with gaps -/

/-- Stored and remote hashes agree below `d₀` and differ from there on, the remote serves every
height up to the probe, and the probe finds them different. -/
structure ForkedAt (n : NodeTables) (s : Store) (probe d₀ : Int) (remote : Int → RpcBlock) :
    Prop where
  served : ∀ h, 0 ≤ h → h ≤ probe → n.header h = .ok (some (remote h))
  agree : ∀ b ∈ s.blocks.rows, b.height < d₀ → ¬ Diverged remote b
  differ : ∀ b ∈ s.blocks.rows, d₀ ≤ b.height → Diverged remote b
  probed : ∃ b ∈ s.blocks.rows, b.height = probe ∧ Diverged remote b

/-- No gap lies between a diverged block and the probe. -/
def GapFree (s : Store) (probe d₀ : Int) : Prop :=
  ∀ b ∈ s.blocks.rows, d₀ ≤ b.height → 0 ≤ b.height ∧
    ∀ g, b.height < g → g < probe → s.blocks.contains g = true

theorem ForkedAt.le_probe {n : NodeTables} {s : Store} {probe d₀ : Int}
    {remote : Int → RpcBlock} (h : ForkedAt n s probe d₀ remote) : d₀ ≤ probe := by
  obtain ⟨b, hmem, rfl, hdiv⟩ := h.probed
  by_contra hlt
  exact h.agree b hmem (by omega) hdiv

/-- **The walk ends at the fork** exactly when there is no gap above a diverged block. -/
theorem divergenceFrom_exact_iff {n : NodeTables} {s : Store} {d₀ : Int} {p : Nat}
    {remote : Int → RpcBlock} (hf : ForkedAt n s p d₀ remote) :
    (∀ b ∈ s.blocks.rows, divergenceFrom s remote p ≤ b.height ↔ d₀ ≤ b.height) ↔
      GapFree s p d₀ := by
  obtain ⟨h0, hle, hseen, hend⟩ := divergenceFrom_spec s remote p
  generalize divergenceFrom s remote p = d at h0 hle hseen hend
  have hprobe := hf.le_probe
  constructor
  · intro hexact b hmem hb
    have hdb := (hexact b hmem).mpr hb
    refine ⟨by omega, fun g hlt hgp => ?_⟩
    obtain ⟨b', hb', rfl, -⟩ := hseen g (by omega) hgp
    exact Table.contains_iff.mpr ⟨b', mem_blocks.mpr ⟨hb', rfl⟩⟩
  · intro hfree b hmem
    constructor
    · intro hdb
      by_contra hlt
      obtain ⟨b', hb', hheight, hdiv⟩ := hseen b.height hdb (by omega)
      exact hf.agree b' hb' (by omega) hdiv
    · intro hb
      obtain ⟨hnonneg, hbetween⟩ := hfree b hmem hb
      by_contra hlt
      have hend := hend.resolve_left (by omega)
      by_cases hparent : b.height = d - 1
      · exact hend b hmem hparent (hf.differ b hmem hb)
      · obtain ⟨b', hfind⟩ := Table.contains_iff.mp (hbetween (d - 1) (by omega) (by omega))
        obtain ⟨hb', hheight⟩ := mem_blocks.mp hfind
        exact hend b' hb' hheight (hf.differ b' hb' (by omega))

/-! ### Runs of the check -/

section Runs

variable {n : NodeTables} {i : TaskId} {remote : Int → RpcBlock}

theorem reads_block (h : Int) (w : World Stream) :
    wpAlone (handle n.rpc i) (Script.toProgE (getByHeightCall h)).run (fun r w' =>
      w'.store = w.store ∧ ∀ b, r = .ok b → b = Blocks.getByHeight w.store h) w := by
  refine wpAlone_call.mpr fun r w₁ hH => ?_
  obtain ⟨rfl, hr⟩ := hH
  refine ⟨rfl, fun b hb => ?_⟩
  rcases hr with hr | ⟨e, hr⟩
  · exact Except.ok.inj (hb.symm.trans hr)
  · exact absurd (hb.symm.trans hr) (by simp)

theorem reads_remote {h : Int} (h0 : 0 ≤ h) (hserved : n.header h = .ok (some (remote h)))
    (w : World Stream) :
    wpAlone (handle n.rpc i) (Script.toProgE (remoteBlock h)).run (fun r w' =>
      w'.store = w.store ∧ r = .ok (some (remote h))) w := by
  have hnot : ¬ heightAsU64 h = none := by simp [heightAsU64, h0]
  refine wp_script_bind (wp_mono (Q := fun r w' => w'.store = w.store ∧ r = n.header h)
    (fun r w₁ hr => ?_) ?_)
  · obtain ⟨hs, rfl⟩ := hr
    rw [hserved]
    exact ⟨hs, rfl⟩
  · unfold ChainProvider.blockWithTxs
    rw [if_neg hnot]
    refine wpAlone_call.mpr fun r w₁ hH => ?_
    obtain ⟨chain', hr, rfl⟩ := hH
    exact ⟨rfl, (Prod.mk.inj hr).1⟩

/-- The walk back, where the remote serves every height it looks at. -/
theorem walks_back (p : Nat) :
    (∀ h : Int, 0 ≤ h → h < p → n.header h = .ok (some (remote h))) → ∀ w : World Stream,
      wpAlone (handle n.rpc i) (Script.toProgE (walkBackToDivergence p)).run (fun r w' =>
        w'.store = w.store ∧ ∀ d, r = .ok d → d = divergenceFrom w.store remote p) w := by
  induction p with
  | zero =>
      intro _ w
      exact ⟨rfl, fun d hd => (Except.ok.inj hd).symm⟩
  | succ parent ih =>
      intro hserved w
      unfold walkBackToDivergence divergenceFrom
      refine wp_scriptE_bind (wp_mono (fun stored w₁ h₁ => ?_) (reads_block parent w))
      obtain ⟨hs₁, hstored⟩ := h₁
      rcases stored with e | stored
      · exact ⟨hs₁, fun d hd => absurd hd (by simp)⟩
      obtain rfl := hstored stored rfl
      refine wp_scriptE_bind (wp_mono (fun r w₂ h₂ => ?_)
        (reads_remote (by omega) (hserved parent (by omega) (by omega)) w₁))
      obtain ⟨hs₂, rfl⟩ := h₂
      have hs := hs₂.trans hs₁
      rcases Blocks.getByHeight w.store parent with _ | l
      · exact ⟨hs, fun d hd => (Except.ok.inj hd).symm⟩
      · by_cases heq : (remote parent).hashText = l.hash
        · simp only [heq, if_true]
          exact ⟨hs, fun d hd => (Except.ok.inj hd).symm⟩
        · simp only [heq, if_false]
          refine wp_mono (fun r w₃ h₃ => ?_)
            (ih (fun h h0 hlt => hserved h h0 (by omega)) w₂)
          rw [hs] at h₃
          exact h₃

/-- **A pass that finds a mismatch** rewinds to where the walk ends. -/
theorem checks_once {cfg : SyncConfig} {cursor d₀ : Int} {w : World Stream} (hc : 0 ≤ cursor)
    (hf : ForkedAt n w.store (probeHeight cfg cursor) d₀ remote) :
    wpAlone (handle n.rpc i) (Script.toProgE (checkOnce cfg cursor)).run (fun r w' => ∀ v, r = .ok v →
      rewindTx (divergenceFrom w.store remote (probeHeight cfg cursor).toNat) w.store =
        .ok w'.store) w := by
  have hprobe : 0 ≤ probeHeight cfg cursor := le_max_right _ _
  obtain ⟨b, hmem, hheight, hdiv⟩ := hf.probed
  have hb := mem_blocks.mpr ⟨hmem, hheight⟩
  unfold checkOnce
  simp only [not_lt.mpr hc, if_false]
  refine wp_scriptE_bind (wp_mono (fun stored w₁ h₁ => ?_) (reads_block _ w))
  obtain ⟨hs₁, hstored⟩ := h₁
  rcases stored with e | stored
  · exact fun v hv => absurd hv (by simp)
  obtain rfl := hstored stored rfl
  rw [hb]
  refine wp_scriptE_bind (wp_mono (fun r w₂ h₂ => ?_)
    (reads_remote hprobe (hf.served _ hprobe le_rfl) w₁))
  obtain ⟨hs₂, rfl⟩ := h₂
  have hs := hs₂.trans hs₁
  have hne : ¬ (remote (probeHeight cfg cursor)).hashText = b.hash := by
    rw [← hheight]
    exact hdiv
  simp only [hne, if_false]
  refine wp_scriptE_bind (wp_mono (fun r w₃ h₃ => ?_)
    (walks_back _ (fun h h0 hlt => hf.served h h0 (by omega)) w₂))
  obtain ⟨hs₃, hd⟩ := h₃
  rcases r with e | d
  · exact fun v hv => absurd hv (by simp)
  obtain rfl := hd d rfl
  rw [hs] at hs₃ ⊢
  refine wp_scriptE_bind (wpAlone_call.mpr fun r w₄ hH => ?_)
  rcases hH with ⟨s, hrun, rfl⟩ | ⟨⟨e, rfl⟩, -⟩
  · rcases r with e | u
    · exact fun v hv => absurd hv (by simp)
    · intro v _
      rw [hs₃] at hrun
      exact hrun
  · exact fun v hv => absurd hv (by simp)

/-! ### The check runs -/

theorem run_getByHeight (h : Int) (w : World Stream) :
    Run (handle n.rpc i) w (getByHeightCall h).run.toProg w
      (.ok (Blocks.getByHeight w.store h)) :=
  Run.call ⟨rfl, Or.inl rfl⟩ (Run.pure _ _)

theorem run_remoteBlock {h : Int} (h0 : 0 ≤ h) (hserved : n.header h = .ok (some (remote h)))
    (w : World Stream) :
    ∃ w', Run (handle n.rpc i) w (remoteBlock h).run.toProg w' (.ok (some (remote h))) ∧
      w'.store = w.store := by
  have hnot : ¬ heightAsU64 h = none := by simp [heightAsU64, h0]
  unfold remoteBlock ChainProvider.blockWithTxs
  rw [if_neg hnot]
  let w₁ : World Stream :=
    { w with events := noteAnswer i (.blockWithTxs h) (n.header h) ++ w.events }
  have hcall : Run (handle n.rpc i) w (chainCall (.blockWithTxs h)).toProg w₁ (n.header h) :=
    Run.call ⟨w.chain, rfl, rfl⟩ (Run.pure _ _)
  refine ⟨w₁, ?_, rfl⟩
  show Run _ w (Script.bind (chainCall (.blockWithTxs h)) _).toProg w₁ _
  rw [Script.toProg_bind]
  refine run_bind.mpr ⟨w₁, _, hcall, ?_⟩
  rw [hserved]
  exact Run.pure _ _

theorem run_walkBack (p : Nat) :
    (∀ h : Int, 0 ≤ h → h < p → n.header h = .ok (some (remote h))) → ∀ w : World Stream,
      ∃ w', Run (handle n.rpc i) w (walkBackToDivergence p).run.toProg w'
        (.ok (divergenceFrom w.store remote p)) ∧ w'.store = w.store := by
  induction p with
  | zero => exact fun _ w => ⟨w, Run.pure _ _, rfl⟩
  | succ parent ih =>
      intro hserved w
      obtain ⟨w₁, hremote, hs₁⟩ := run_remoteBlock (n := n) (i := i) (by omega)
        (hserved parent (by omega) (by omega)) w
      have hlook : ∀ {w' : World Stream} {r : Except SyncError Int},
          Run (handle n.rpc i) w₁ (match Blocks.getByHeight w.store parent with
            | some l => if (remote parent).hashText = l.hash then
                (pure (parent + 1 : Int) : SyncScript Int) else walkBackToDivergence parent
            | none => pure (parent + 1 : Int)).run.toProg w' r →
          Run (handle n.rpc i) w (walkBackToDivergence (parent + 1)).run.toProg w' r := by
        intro w' r hrun
        refine run_scriptE_bind.mpr (Or.inl ⟨w, _, run_getByHeight parent w, ?_⟩)
        refine run_scriptE_bind.mpr (Or.inl ⟨w₁, _, hremote, ?_⟩)
        rcases hl : Blocks.getByHeight w.store parent with _ | l
        · rw [hl] at hrun
          exact hrun
        · rw [hl] at hrun
          exact hrun
      unfold divergenceFrom
      rcases hl : Blocks.getByHeight w.store parent with _ | l
      · refine ⟨w₁, hlook ?_, hs₁⟩
        rw [hl]
        exact Run.pure _ _
      · by_cases heq : (remote parent).hashText = l.hash
        · refine ⟨w₁, hlook ?_, hs₁⟩
          rw [hl]
          simp only [heq, if_true]
          exact Run.pure _ _
        · obtain ⟨w₂, hrun, hs₂⟩ := ih (fun h h0 hlt => hserved h h0 (by omega)) w₁
          refine ⟨w₂, hlook ?_, hs₂.trans hs₁⟩
          rw [hl]
          simp only [heq, if_false]
          rw [hs₁] at hrun
          exact hrun

theorem run_checkOnce {cfg : SyncConfig} {cursor d₀ : Int} {w : World Stream} (hc : 0 ≤ cursor)
    (hf : ForkedAt n w.store (probeHeight cfg cursor) d₀ remote) :
    ∃ w' v, Run (handle n.rpc i) w (checkOnce cfg cursor).run.toProg w' (.ok v) := by
  have hprobe : 0 ≤ probeHeight cfg cursor := le_max_right _ _
  obtain ⟨b, hmem, hheight, hdiv⟩ := hf.probed
  have hb := mem_blocks.mpr ⟨hmem, hheight⟩
  obtain ⟨w₁, hremote, hs₁⟩ := run_remoteBlock (i := i) hprobe (hf.served _ hprobe le_rfl) w
  obtain ⟨w₂, hwalk, hs₂⟩ := @run_walkBack n i remote
    (probeHeight cfg cursor).toNat (fun h h0 hlt => hf.served h h0 (by omega)) w₁
  have hne : ¬ (remote (probeHeight cfg cursor)).hashText = b.hash := by
    rw [← hheight]
    exact hdiv
  generalize divergenceFrom w₁.store remote (probeHeight cfg cursor).toNat = d at hwalk
  obtain ⟨s, hrewind⟩ : ∃ s, rewindTx d w₂.store = .ok s := ⟨_, rfl⟩
  refine ⟨w₂.commit i (.rewindTo d) s, saturatingSub d 1, ?_⟩
  unfold checkOnce
  simp only [not_lt.mpr hc, if_false]
  refine run_scriptE_bind.mpr (Or.inl ⟨w, _, run_getByHeight _ w, ?_⟩)
  rw [hb]
  refine run_scriptE_bind.mpr (Or.inl ⟨w₁, _, hremote, ?_⟩)
  simp only [hne, if_false]
  refine run_scriptE_bind.mpr (Or.inl ⟨w₂, _, hwalk, ?_⟩)
  exact run_scriptE_bind.mpr (Or.inl ⟨_, (), Run.call (Or.inl ⟨s, hrewind, rfl⟩) (Run.pure _ _),
    Run.pure _ _⟩)

end Runs

/-! ### What a rewind removes -/

/-- A pass that finds a mismatch deletes the stored blocks from `d₀` on and no others. -/
def RewindsExactly (n : NodeTables) (cfg : SyncConfig) (cursor d₀ : Int) (s : Store) : Prop :=
  ∀ (i : TaskId) (w w' : World Stream) (v : Int), w.store = s →
    Run (handle n.rpc i) w (checkOnce cfg cursor).run.toProg w' (.ok v) →
      ∀ b, b ∈ w'.store.blocks.rows ↔ b ∈ s.blocks.rows ∧ b.height < d₀

/-- The rows that are left once the walk has ended. -/
theorem rows_rewound {n : NodeTables} {i : TaskId} {remote : Int → RpcBlock} {cfg : SyncConfig}
    {cursor d₀ v : Int} {w w' : World Stream} (hc : 0 ≤ cursor)
    (hf : ForkedAt n w.store (probeHeight cfg cursor) d₀ remote)
    (hrun : Run (handle n.rpc i) w (checkOnce cfg cursor).run.toProg w' (.ok v)) (b : Block) :
    b ∈ w'.store.blocks.rows ↔ b ∈ w.store.blocks.rows ∧
      b.height < divergenceFrom w.store remote (probeHeight cfg cursor).toNat := by
  have hrewind := wpAlone_run hrun (checks_once hc hf) v rfl
  rw [(rewindTx_rewoundTo hrewind).blocks]
  show b ∈ List.filter _ _ ↔ _
  rw [List.mem_filter]
  simp

/-- **The rewind removes every diverged block and nothing else** exactly when no gap lies
between a diverged block and the probe. -/
theorem rewind_exact_iff {n : NodeTables} {remote : Int → RpcBlock} {cfg : SyncConfig}
    {cursor d₀ : Int} {s : Store} (hc : 0 ≤ cursor)
    (hf : ForkedAt n s (probeHeight cfg cursor) d₀ remote) :
    RewindsExactly n cfg cursor d₀ s ↔ GapFree s (probeHeight cfg cursor) d₀ := by
  have hprobe : ((probeHeight cfg cursor).toNat : Int) = probeHeight cfg cursor :=
    Int.toNat_of_nonneg (le_max_right _ _)
  have hiff := divergenceFrom_exact_iff (p := (probeHeight cfg cursor).toNat)
    (by rw [hprobe]; exact hf)
  rw [hprobe] at hiff
  rw [← hiff]
  constructor
  · intro hexact b hmem
    obtain ⟨w', v, hrun⟩ := run_checkOnce (i := 0) (w := { World.init [] with store := s }) hc hf
    have hrows := rows_rewound hc hf hrun b
    rw [hexact 0 _ w' v rfl hrun b] at hrows
    have hleft : b.height < d₀ ↔ b.height < divergenceFrom s remote (probeHeight cfg cursor).toNat :=
      ⟨fun hlt => (hrows.mp ⟨hmem, hlt⟩).2, fun hlt => (hrows.mpr ⟨hmem, hlt⟩).2⟩
    omega
  · intro hiff i w w' v hs hrun b
    subst hs
    rw [rows_rewound hc hf hrun b]
    refine and_congr_right fun hmem => ?_
    have := hiff b hmem
    omega

/-- The remote chain of a fork right above height 0. -/
def forkRemote (h : Int) : RpcBlock := ⟨Vector.replicate 32 (if h = 0 then 0 else 0xbb)⟩

/-- Nodes that serve its headers. -/
def forkNodes : NodeTables where
  tip := .ok 3
  block _ := .ok none
  logs _ := .ok []
  header h := .ok (some (forkRemote h))

/-- The stored row of the height, from before the fork. -/
def forkRow (h : Int) : Block where
  height := h
  hash := if h = 0 then (forkRemote 0).hashText else "0xaa"
  parentHash := "0x00"
  timestamp := 0
  validator := "0xval"
  gasUsed := 0
  gasLimit := 0
  baseFee := none
  txCount := 0
  stateRoot := none
  round := 0
  justificationSigners := []

/-- A store with the rows of these heights. -/
def forkStore (hs : List Int) : Store :=
  { Store.empty with blocks := Table.empty.insertAll (hs.map forkRow) }

/-- The configuration that probes the cursor itself. -/
def probeAtCursor : SyncConfig := { SyncConfig.default with reorgProbeDepth := 0 }

theorem forkStore_forkedAt : ForkedAt forkNodes (forkStore [0, 1, 3])
    (probeHeight probeAtCursor 3) 1 forkRemote where
  served := fun _ _ _ => rfl
  agree := by decide +kernel
  differ := by decide +kernel
  probed := ⟨forkRow 3, by decide +kernel, by decide, by decide +kernel⟩

/-- **With height 2 missing, the diverged block 1 survives the rewind.** -/
theorem gap_hides_divergence :
    ¬ ∀ (n : NodeTables) (remote : Int → RpcBlock) (cfg : SyncConfig) (cursor d₀ : Int)
        (s : Store), 0 ≤ cursor → ForkedAt n s (probeHeight cfg cursor) d₀ remote →
        RewindsExactly n cfg cursor d₀ s := by
  intro hall
  have hexact := hall forkNodes forkRemote probeAtCursor 3 1 _ (by decide) forkStore_forkedAt
  obtain ⟨w', v, hrun⟩ := run_checkOnce (i := 0)
    (w := { World.init [] with store := forkStore [0, 1, 3] }) (by decide) forkStore_forkedAt
  have hrows := rows_rewound (by decide) forkStore_forkedAt hrun (forkRow 1)
  rw [hexact 0 _ w' v rfl hrun] at hrows
  have hkept : (forkRow 1).height < divergenceFrom (forkStore [0, 1, 3]) forkRemote
      (probeHeight probeAtCursor 3).toNat := by decide +kernel
  have hmem : forkRow 1 ∈ (forkStore [0, 1, 3]).blocks.rows := by decide +kernel
  exact absurd (hrows.mpr ⟨hmem, hkept⟩).2 (by decide)

/-- Without the gap the rewind is exact. -/
theorem rewind_exact_gapFree :
    ForkedAt forkNodes (forkStore [0, 1, 2, 3]) (probeHeight probeAtCursor 3) 1 forkRemote ∧
      RewindsExactly forkNodes probeAtCursor 3 1 (forkStore [0, 1, 2, 3]) := by
  have hf : ForkedAt forkNodes (forkStore [0, 1, 2, 3]) (probeHeight probeAtCursor 3) 1
      forkRemote := ⟨fun _ _ _ => rfl, by decide +kernel, by decide +kernel,
    forkRow 3, by decide +kernel, by decide, by decide +kernel⟩
  refine ⟨hf, (rewind_exact_iff (by decide) hf).mpr ?_⟩
  intro b hmem hb
  have hheights : ∀ b ∈ (forkStore [0, 1, 2, 3]).blocks.rows, b.height ∈ [(0 : Int), 1, 2, 3] := by
    decide +kernel
  have hall : ∀ g ∈ [(0 : Int), 1, 2, 3],
      (forkStore [0, 1, 2, 3]).blocks.contains g = true := by decide +kernel
  have hprobe : probeHeight probeAtCursor 3 = 3 := by decide
  refine ⟨by omega, fun g hlt hg => hall g ?_⟩
  rw [hprobe] at hg
  simp only [List.mem_cons, List.not_mem_nil, or_false]
  omega

end SentrixIndexer
