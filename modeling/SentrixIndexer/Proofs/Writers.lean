/-
What a writer of blocks is for.

This is the writers' side of the indexer in its own terms, without loops, buffers or
retries.  A height is *settled* once some writer has committed a bundle for it or
has stepped over it.  A writer commits only what is *justified*: bundles it fetched,
for consecutive heights right above settled ones, or a step over a height that was
answered 404 to itself, again with everything below settled.  Heights get settled in
no order across writers; nothing says that two writers do not settle the same one.

All of it is counted from a `floor`: the height right above the cursor the writers
started from, `0` for an empty store.  What lies below is not theirs.
-/
import SentrixIndexer.Proofs.Writes
import SentrixIndexer.Sync.Indexer

namespace SentrixIndexer

open Effect

variable {χ : Type} {floor : Nat}

/-- The transaction moves the writers past height `h`. -/
def Txn.Settles : Txn → Int → Prop
  | .writeBlock b, h => b.block.height = h
  | .batchWriteBlocks bundles, h => ∃ b ∈ bundles, b.block.height = h
  | .writeCursor g _, h => g = h
  | .rewindTo _, _ => False

/-- Some writer has committed a bundle for the height, or has stepped over it. -/
def Settled (w : World χ) (h : Int) : Prop :=
  ∃ i t, Event.committed i t ∈ w.events ∧ t.Settles h

/-- Every height from the floor to right below `n` is settled. -/
def SettledBelow (floor : Nat) (w : World χ) (n : Int) : Prop :=
  ∀ h : Int, floor ≤ h → h < n → Settled w h

/-- Every height up to the persisted cursor is settled. -/
structure CursorSettled (floor : Nat) (w : World χ) : Prop where
  floor_le : floor - 1 ≤ w.store.cursor
  below : SettledBelow floor w (w.store.cursor + 1)

/-- Some node may answer the height with this block. -/
def Served (rpc : Rpc χ) (h : Int) (block : NativeBlockResponse) : Prop :=
  ∃ chain chain', rpc chain (.restBlock h) (.ok (some block)) chain'

/-- Some node may answer the height with these logs. -/
def ServedLogs (rpc : Rpc χ) (h : Int) (logs : List RpcLog) : Prop :=
  ∃ chain chain', rpc chain (.getLogs h h) (.ok logs) chain'

/-- The bundle was made of what the chain answered for its height. -/
def Fetched (rpc : Rpc χ) (b : BlockBundle) : Prop :=
  ∃ block logs, Served rpc b.block.height block ∧ ServedLogs rpc b.block.height logs ∧
    assemble block logs = .ok b

/-- Bundles for the heights `n`, `n + 1`, .. in this order. -/
def Consecutive : Int → List BlockBundle → Prop
  | _, [] => True
  | n, b :: rest => b.block.height = n ∧ Consecutive (n + 1) rest

/-- A writer may commit the transaction. -/
def Justified (rpc : Rpc χ) (floor : Nat) (w : World χ) (i : TaskId) : Txn → Prop
  | .writeBlock b =>
      Fetched rpc b ∧ floor ≤ b.block.height ∧ SettledBelow floor w b.block.height
  | .batchWriteBlocks bundles => ∃ n : Int, floor ≤ n ∧ bundles ≠ [] ∧ Consecutive n bundles ∧
      (∀ b ∈ bundles, Fetched rpc b) ∧ SettledBelow floor w n
  | .writeCursor h _ => Event.notFound i h ∈ w.events ∧ floor ≤ h ∧ SettledBelow floor w h
  | .rewindTo _ => False

/-- One step of a writer. -/
inductive WriterStep (rpc : Rpc χ) (floor : Nat) : World χ → World χ → Prop
  | idle (w : World χ) : WriterStep rpc floor w w
  | chain {w : World χ} (i : TaskId) {c : ChainCall} {r : c.Answer} {chain' : χ}
      (h : rpc w.chain c r chain') :
      WriterStep rpc floor w { w with chain := chain', events := noteAnswer i c r ++ w.events }
  | commit {w : World χ} (i : TaskId) {t : Txn} {s : Store} (hj : Justified rpc floor w i t)
      (h : t.run w.store = .ok s) : WriterStep rpc floor w (w.commit i t s)
  | gate (w : World χ) (g : SingleFlight) : WriterStep rpc floor w { w with gate := g }
  | push (w : World χ) (i : TaskId) (row : RawTxRow) :
      WriterStep rpc floor w { w with events := .pushed i row :: w.events }

/-! ### What stays true as the record grows -/

/-- Nothing that happened is forgotten. -/
def Later (w w' : World χ) : Prop := w.events <:+ w'.events

theorem Later.refl (w : World χ) : Later w w := List.suffix_refl _

theorem Later.trans {w₁ w₂ w₃ : World χ} (h : Later w₁ w₂) (h' : Later w₂ w₃) : Later w₁ w₃ :=
  List.IsSuffix.trans h h'

theorem later_trans (w₁ w₂ w₃ : World χ) : Later w₁ w₂ → Later w₂ w₃ → Later w₁ w₃ :=
  Later.trans

theorem Later.mem {w w' : World χ} (h : Later w w') {e : Event} (he : e ∈ w.events) :
    e ∈ w'.events := h.subset he

theorem Settled.later {w w' : World χ} {h : Int} (hs : Settled w h)
    (hl : Later w w') : Settled w' h := by
  obtain ⟨i, t, he, ht⟩ := hs
  exact ⟨i, t, hl.mem he, ht⟩

theorem SettledBelow.later {w w' : World χ} {n : Int} (hs : SettledBelow floor w n)
    (hl : Later w w') : SettledBelow floor w' n :=
  fun h h0 hn => (hs h h0 hn).later hl

theorem settledBelow_commit {w : World χ} (i : TaskId) (t : Txn) (s : Store)
    {n : Int} (hs : SettledBelow floor w n) : SettledBelow floor (w.commit i t s) n :=
  hs.later (List.suffix_cons _ _)

/-- A committed transaction settles its heights. -/
theorem settled_commit {w : World χ} (i : TaskId) {t : Txn} (s : Store) {h : Int}
    (ht : t.Settles h) : Settled (w.commit i t s) h :=
  ⟨i, t, List.mem_cons_self .., ht⟩

theorem SettledBelow.succ {w : World χ} {n : Int} (hs : SettledBelow floor w n)
    (hn : Settled w n) : SettledBelow floor w (n + 1) := by
  intro h h0 hlt
  by_cases hh : h < n
  · exact hs h h0 hh
  · have : h = n := by omega
    exact this ▸ hn

/-- The height right above a consecutive run of bundles. -/
theorem Consecutive.mem_iff {bundles : List BlockBundle} :
    ∀ {n : Int}, Consecutive n bundles → ∀ h,
      (∃ b ∈ bundles, b.block.height = h) ↔ n ≤ h ∧ h < n + bundles.length := by
  induction bundles with
  | nil =>
      intro n _ h
      simp
  | cons b rest ih =>
      intro n hc h
      obtain ⟨hb, hrest⟩ := hc
      have ih := ih hrest h
      rw [List.length_cons]
      constructor
      · intro hex
        obtain ⟨b', hb', hh⟩ := hex
        rcases List.mem_cons.mp hb' with rfl | hmem
        · omega
        · have := ih.mp ⟨b', hmem, hh⟩
          omega
      · intro hrange
        by_cases hn : h = n
        · exact ⟨b, List.mem_cons_self .., by omega⟩
        · obtain ⟨b', hb', hh⟩ := ih.mpr (by omega)
          exact ⟨b', List.mem_cons_of_mem _ hb', hh⟩

/-- The heights of a consecutive run increase. -/
theorem Consecutive.pairwise {bundles : List BlockBundle} :
    ∀ {n : Int}, Consecutive n bundles →
      bundles.Pairwise fun a b => a.block.height < b.block.height := by
  induction bundles with
  | nil => intro n _; exact List.Pairwise.nil
  | cons b rest ih =>
      intro n hc
      rw [List.pairwise_cons]
      refine ⟨fun b' hb' => ?_, ih hc.2⟩
      have hrange := (hc.2.mem_iff b'.block.height).mp ⟨b', hb', rfl⟩
      have hhead := hc.1
      omega

theorem Consecutive.append {bundles : List BlockBundle} {b : BlockBundle} :
    ∀ {n : Int}, Consecutive n bundles → b.block.height = n + bundles.length →
      Consecutive n (bundles ++ [b]) := by
  induction bundles with
  | nil =>
      intro n _ hb
      exact ⟨by simpa using hb, trivial⟩
  | cons b' rest ih =>
      intro n hc hb
      refine ⟨hc.1, ih hc.2 ?_⟩
      rw [hb, List.length_cons]
      omega

/-- The highest of a consecutive run is the last. -/
theorem Consecutive.max? {bundles : List BlockBundle} {n : Int}
    (hc : Consecutive n bundles) (hne : bundles ≠ []) :
    (bundles.map fun b => b.block.height).max? = some (n + bundles.length - 1) := by
  have hmem := hc.mem_iff
  have hlen : 0 < bundles.length := List.length_pos_of_ne_nil hne
  rw [List.max?_eq_some_iff]
  refine ⟨List.mem_map.mpr ((hmem _).mpr (by omega)), fun h hh => ?_⟩
  have := (hmem h).mp (List.mem_map.mp hh)
  omega

/-- A justified transaction writes at most one bundle for each height. -/
theorem Justified.bundle_unique {rpc : Rpc χ} {w : World χ} {i : TaskId} {t : Txn}
    (hj : Justified rpc floor w i t) {b b' : BlockBundle} (hb : b ∈ t.bundles) (hb' : b' ∈ t.bundles)
    (heq : b.block.height = b'.block.height) : b = b' := by
  cases t with
  | writeBlock b₀ =>
      obtain rfl := List.mem_singleton.mp hb
      obtain rfl := List.mem_singleton.mp hb'
      rfl
  | batchWriteBlocks bundles =>
      obtain ⟨n, -, -, hc, -, -⟩ := hj
      have hnodup : (bundles.map fun b => b.block.height).Nodup :=
        List.pairwise_map.mpr (hc.pairwise.imp fun hlt => ne_of_lt hlt)
      exact List.inj_on_of_nodup_map hnodup hb hb' heq
  | writeCursor h nowTs => exact absurd hb (by simp [Txn.bundles])
  | rewindTo h => exact absurd hb (by simp [Txn.bundles])

/-- No bundle of a justified transaction is below the floor. -/
theorem Justified.floor_le {rpc : Rpc χ} {w : World χ} {i : TaskId} {t : Txn}
    (hj : Justified rpc floor w i t) {b : BlockBundle} (hb : b ∈ t.bundles) :
    floor ≤ b.block.height := by
  cases t with
  | writeBlock b₀ =>
      obtain rfl := List.mem_singleton.mp hb
      exact hj.2.1
  | batchWriteBlocks bundles =>
      obtain ⟨n, hn, -, hc, -, -⟩ := hj
      have := (hc.mem_iff b.block.height).mp ⟨b, hb, rfl⟩
      omega
  | writeCursor h nowTs => exact absurd hb (by simp [Txn.bundles])
  | rewindTo h => exact absurd hb (by simp [Txn.bundles])

/-- Every bundle of a justified transaction was fetched. -/
theorem Justified.fetched {rpc : Rpc χ} {w : World χ} {i : TaskId} {t : Txn}
    (hj : Justified rpc floor w i t) {b : BlockBundle} (hb : b ∈ t.bundles) : Fetched rpc b := by
  cases t with
  | writeBlock b₀ =>
      obtain rfl := List.mem_singleton.mp hb
      exact hj.1
  | batchWriteBlocks bundles =>
      obtain ⟨n, -, -, -, hfetched, -⟩ := hj
      exact hfetched b hb
  | writeCursor h nowTs => exact absurd hb (by simp [Txn.bundles])
  | rewindTo h => exact absurd hb (by simp [Txn.bundles])

/-- **A justified transaction that commits leaves everything up to its target settled.** -/
theorem Justified.settled {rpc : Rpc χ} {w : World χ} {i : TaskId} {t : Txn} {s : Store}
    (hj : Justified rpc floor w i t) :
    ∃ h : Int, t.target = some h ∧ floor ≤ h ∧ SettledBelow floor (w.commit i t s) (h + 1) := by
  cases t with
  | writeBlock b =>
      obtain ⟨-, h0, hbelow⟩ := hj
      exact ⟨_, rfl, h0, (settledBelow_commit i _ s hbelow).succ (settled_commit i s rfl)⟩
  | batchWriteBlocks bundles =>
      obtain ⟨n, h0, hne, hc, -, hbelow⟩ := hj
      have hlen : 0 < bundles.length := List.length_pos_of_ne_nil hne
      refine ⟨_, hc.max? hne, by omega, fun h hh hlt => ?_⟩
      by_cases hn : h < n
      · exact settledBelow_commit i _ s hbelow h hh hn
      · exact settled_commit i s ((hc.mem_iff h).mpr (by omega))
  | writeCursor h nowTs =>
      obtain ⟨-, h0, hbelow⟩ := hj
      exact ⟨h, rfl, h0, (settledBelow_commit i _ s hbelow).succ (settled_commit i s rfl)⟩
  | rewindTo h => exact absurd hj fun hj => hj

end SentrixIndexer
