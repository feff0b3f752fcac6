/-
The indexer refines the writers' protocol.

Every step of a backfill pass or of a tail walk, under any interference of the other
tasks, is a step of the abstract writer: what it commits is justified at the moment
it commits it.  The local facts a program carries from call to call are all of one
kind, that something is on the record, and the record only grows.
-/
import SentrixIndexer.Proofs.Bundles
import SentrixIndexer.Proofs.Pipeline
import SentrixIndexer.Proofs.Writers

namespace SentrixIndexer

open Effect

variable {χ : Type} {rpc : Rpc χ} {floor : Nat}

/-! ### Writer steps -/

theorem WriterStep.later {w w' : World χ} (h : WriterStep rpc floor w w') : Later w w' := by
  cases h with
  | idle => exact Later.refl _
  | chain i h => exact List.suffix_append _ _
  | commit i hj h => exact List.suffix_cons _ _
  | gate g => exact Later.refl _
  | push i row => exact List.suffix_cons _ _

/-- What the chain answers commits nothing. -/
theorem committed_of_noteAnswer {i j : TaskId} {t : Txn} {c : ChainCall} {r : c.Answer}
    {events : List Event} (h : Event.committed j t ∈ noteAnswer i c r ++ events) :
    Event.committed j t ∈ events := by
  rcases List.mem_append.mp h with hnote | hold
  · unfold noteAnswer at hnote
    split at hnote
    · simp at hnote
    · simp at hnote
  · exact hold

/-- No answer of the chain is recorded as a commit. -/
theorem noteAnswer_ne_commit {i j : TaskId} {t : Txn} {c : ChainCall} {r : c.Answer}
    {events : List Event} : noteAnswer i c r ++ events ≠ .committed j t :: events := by
  intro h
  have hnote : noteAnswer i c r = [.committed j t] :=
    List.append_cancel_right (h.trans (List.singleton_append).symm)
  have hmem : Event.committed j t ∈ noteAnswer i c r ++ [] := by
    rw [hnote]
    exact List.mem_singleton.mpr rfl
  exact absurd (committed_of_noteAnswer hmem) (by simp)

/-- Only the call for a transaction is answered by its commit. -/
theorem commit_of_handle {i j : TaskId} {t : Txn} {w w' : World χ} {c : SyncCall} {r : c.Answer}
    (h : handle rpc i w c r w') (hevents : w'.events = .committed j t :: w.events) :
    c = .transact t ∧ ∃ s, t.run w.store = .ok s := by
  cases handle_step h with
  | stay => exact absurd hevents (by simp)
  | chain _ => exact absurd hevents noteAnswer_ne_commit
  | commit hrun =>
      obtain ⟨-, rfl⟩ := Event.committed.inj (List.cons.inj hevents).1
      exact ⟨rfl, _, hrun⟩
  | offer tip gate => exact absurd hevents (by simp)
  | take gate => exact absurd hevents (by simp)
  | push row => exact absurd hevents (by simp)

/-- What happens around the tasks leaves the store and the record alone. -/
theorem Surroundings.unchanged {moves : χ → χ → Prop} {w w' : World χ}
    (h : Surroundings moves w w') : w'.store = w.store ∧ w'.events = w.events := by
  cases h with
  | chain _ => exact ⟨rfl, rfl⟩
  | cancel => exact ⟨rfl, rfl⟩

theorem Justified.forward {w : World χ} {i : TaskId} {t : Txn} (hj : Justified rpc floor w i t) :
    t.Forward := by
  cases t with
  | rewindTo h => exact hj
  | _ => exact trivial

/-- The cursor a justified commit leaves. -/
theorem Justified.cursor {w : World χ} {i : TaskId} {t : Txn} {s : Store} {h : Int}
    (hj : Justified rpc floor w i t) (ht : t.target = some h) (h0 : floor ≤ h)
    (hrun : t.run w.store = .ok s) : s.cursor = max w.store.cursor h := by
  obtain ⟨_, _, _, _, -, -, -, -, hw⟩ := t.run_written hj.forward hrun
  unfold Store.cursor
  rw [hw.cursor, ht, getD_advanced (by omega)]

/-- **A writer step keeps everything up to the cursor settled.** -/
theorem WriterStep.cursorSettled {w w' : World χ} (h : WriterStep rpc floor w w')
    (hc : CursorSettled floor w) : CursorSettled floor w' := by
  have hl := h.later
  cases h with
  | idle => exact hc
  | chain i h => exact ⟨hc.floor_le, hc.below.later hl⟩
  | @commit i t s hj hrun =>
      obtain ⟨h, ht, h0, hbelow⟩ := hj.settled
      have hcur := hj.cursor ht h0 hrun
      refine ⟨?_, ?_⟩
      · show floor - 1 ≤ s.cursor
        omega
      · show SettledBelow floor _ (s.cursor + 1)
        rw [hcur]
        intro k hk hlt
        by_cases hkh : k < h + 1
        · exact hbelow k hk hkh
        · exact (hc.below k hk (by omega)).later hl
  | gate g => exact ⟨hc.floor_le, hc.below.later hl⟩
  | push i row => exact ⟨hc.floor_le, hc.below.later hl⟩

/-! ### What each call guarantees -/

/-- The precondition of a writer's code. -/
abbrev Keeps (rpc : Rpc χ) (floor : Nat) (i : TaskId) {α : Type} (p : Prog SyncSig α)
    (Q : α → World χ → Prop) (w : World χ) : Prop :=
  wp (handle rpc i) (CursorSettled floor) Later (WriterStep rpc floor) p Q w

variable {i : TaskId} {α : Type}

/-- A call keeps the protocol if every answer to it is a writer step. -/
theorem keeps_call {c : SyncCall} {k : c.Answer → Prog SyncSig α} {Q : α → World χ → Prop}
    {w : World χ}
    (h : ∀ w₁, Later w w₁ → CursorSettled floor w₁ → ∀ r w₂, handle rpc i w₁ c r w₂ →
      WriterStep rpc floor w₁ w₂ ∧ Keeps rpc floor i (k r) Q w₂) :
    Keeps rpc floor i (.call c k) Q w := by
  intro w₁ hl hc r w₂ hH
  obtain ⟨hstep, hk⟩ := h w₁ hl hc r w₂ hH
  exact ⟨hstep.cursorSettled hc, hstep, hk⟩

/-- What has happened since the start may be used at the end. -/
theorem Keeps.since {p : Prog SyncSig α} {Q : α → World χ → Prop} {w : World χ}
    (h : Keeps rpc floor i p Q w) : Keeps rpc floor i p (fun a w' => Later w w' ∧ Q a w') w :=
  wp_since Later.refl later_trans (fun _ _ => WriterStep.later) h

theorem Keeps.mono {p : Prog SyncSig α} {Q Q' : α → World χ → Prop} {w : World χ}
    (h : Keeps rpc floor i p Q w) (hQ : ∀ a w, Q a w → Q' a w) : Keeps rpc floor i p Q' w :=
  wp_mono hQ h

theorem keeps_chain (c : ChainCall) {Q : c.Answer → World χ → Prop} {w : World χ}
    (h : ∀ (w₁ : World χ) (r : c.Answer) (chain' : χ), rpc w₁.chain c r chain' →
      Q r { w₁ with chain := chain', events := noteAnswer i c r ++ w₁.events }) :
    Keeps rpc floor i (chainCall c).toProg Q w := by
  refine keeps_call fun w₁ _ _ r w₂ hH => ?_
  obtain ⟨chain', hr, rfl⟩ := hH
  exact ⟨WriterStep.chain i hr, h w₁ r chain' hr⟩

theorem keeps_sleep (nanos : Nat) {w : World χ} :
    Keeps rpc floor i (sleepFor nanos).toProg (fun _ _ => True) w := by
  refine keeps_call fun w₁ _ _ r w₂ hH => ?_
  obtain rfl : w₂ = w₁ := hH
  exact ⟨WriterStep.idle _, trivial⟩

theorem keeps_readCursor {w : World χ} :
    Keeps rpc floor i (Script.toProgE readCursorCall).run (fun r w' =>
      ∀ c, r = .ok c → floor - 1 ≤ c.getD (-1) ∧ SettledBelow floor w' (c.getD (-1) + 1)) w := by
  refine keeps_call fun w₁ _ hc r w₂ hH => ?_
  obtain ⟨rfl, hr⟩ := hH
  refine ⟨WriterStep.idle _, fun c hok => ?_⟩
  rcases hr with rfl | ⟨e, rfl⟩
  · obtain rfl := Except.ok.inj hok
    exact ⟨hc.floor_le, hc.below⟩
  · exact absurd hok (by simp)

/-- **Only justified transactions are sent.** -/
theorem keeps_transact {t : Txn} {w : World χ}
    (hj : ∀ w₁, Later w w₁ → Justified rpc floor w₁ i t) :
    Keeps rpc floor i (Script.toProgE (transact t)).run (fun r w' =>
      ∀ u, r = .ok u → Event.committed i t ∈ w'.events) w := by
  refine keeps_call fun w₁ hl _ r w₂ hH => ?_
  rcases hH with ⟨s, hrun, rfl⟩ | ⟨⟨e, rfl⟩, rfl⟩
  · exact ⟨WriterStep.commit i (hj w₁ hl) hrun, fun u _ => List.mem_cons_self ..⟩
  · exact ⟨WriterStep.idle _, fun u hok => absurd hok (by simp)⟩

theorem keeps_pushAll (rows : List RawTxRow) :
    ∀ {w : World χ}, Keeps rpc floor i (pushAll rows).toProg (fun _ _ => True) w := by
  induction rows with
  | nil => exact trivial
  | cons row rest ih =>
      intro w
      refine keeps_call fun w₁ _ _ r w₂ hH => ?_
      rcases hH with ⟨rfl, rfl⟩ | ⟨rfl, rfl⟩
      · exact ⟨WriterStep.push _ i row, ih⟩
      · exact ⟨WriterStep.idle _, trivial⟩

theorem keeps_isCancelled {w : World χ} :
    Keeps rpc floor i SyncCall.isCancelled.await (fun _ _ => True) w := by
  refine keeps_call fun w₁ _ _ r w₂ hH => ?_
  obtain ⟨-, rfl⟩ := hH
  exact ⟨WriterStep.idle _, trivial⟩

theorem keeps_schedule (hs : List Int) {w : World χ} :
    Keeps rpc floor i (SyncCall.schedule hs).await (fun _ _ => True) w := by
  refine keeps_call fun w₁ _ _ r w₂ hH => ?_
  obtain rfl : w₂ = w₁ := hH
  exact ⟨WriterStep.idle _, trivial⟩

theorem keeps_offer (tip : Int) {w : World χ} :
    Keeps rpc floor i (SyncCall.offer tip).await (fun _ _ => True) w := by
  refine keeps_call fun w₁ _ _ r w₂ hH => ?_
  obtain ⟨-, rfl⟩ := hH
  exact ⟨WriterStep.gate _ _, trivial⟩

theorem keeps_takePending {w : World χ} :
    Keeps rpc floor i SyncCall.takePendingAndRelease.ask.toProg (fun _ _ => True) w := by
  refine keeps_call fun w₁ _ _ r w₂ hH => ?_
  obtain ⟨-, rfl⟩ := hH
  exact ⟨WriterStep.gate _ _, trivial⟩

/-! ### Chain calls with retries -/

/-- A retried call promises of its value what a single attempt promises. -/
theorem keeps_withRetry {op : Script SyncSig (Except ChainError α)} {Q : α → World χ → Prop}
    (hop : ∀ w, Keeps rpc floor i op.toProg (fun r w' => ∀ v, r = .ok v → Q v w') w)
    (w : World χ) :
    Keeps rpc floor i (Script.toProgE (withRetry op)).run
      (fun r w' => ∀ v, r = .ok v → Q v w') w := by
  refine wp_script_bind (Keeps.mono
    (wp_retryFrom hop (fun nanos _ => keeps_sleep nanos) _ _ w) fun r w₁ hr => ?_)
  cases r with
  | ok v =>
      intro v' hv
      exact hr v' (congrArg Except.ok (Except.ok.inj hv))
  | error e => exact fun v hv => absurd hv (by simp)

theorem keeps_restBlock (h : Int) (w : World χ) :
    Keeps rpc floor i (Script.toProgE (withRetry (RestClient.block h))).run (fun r w' =>
      ∀ v, r = .ok v → match v with
        | none => Event.notFound i h ∈ w'.events
        | some block => Served rpc h block) w := by
  refine keeps_withRetry (fun w => keeps_chain _ fun w₁ r chain' hr => ?_) w
  intro v hv
  subst hv
  cases v with
  | none => exact List.mem_cons_self ..
  | some block => exact ⟨_, _, hr⟩

theorem keeps_logs (h : Int) (w : World χ) :
    Keeps rpc floor i (Script.toProgE (withRetry (ChainProvider.logsInRange h h))).run (fun r _ =>
      ∀ logs, r = .ok logs → ServedLogs rpc h logs) w := by
  refine keeps_withRetry (fun w => ?_) w
  unfold ChainProvider.logsInRange logsInRange
  rw [if_neg (lt_irrefl h)]
  by_cases hneg : heightAsU64 h = none
  · rw [if_pos hneg]
    exact fun v hv => absurd hv (by simp)
  · rw [if_neg hneg, if_neg hneg]
    refine keeps_chain _ fun w₁ r chain' hr => ?_
    intro logs hlogs
    subst hlogs
    exact ⟨_, _, hr⟩

/-! ### One block -/

/-- A block served at its height assembles to a fetched bundle for it. -/
theorem fetched_of_served (hrest : FaithfulHeights rpc) {h : Int} {block : NativeBlockResponse}
    {logs : List RpcLog} {b : BlockBundle} (hs : Served rpc h block)
    (hl : ServedLogs rpc h logs) (ha : assemble block logs = .ok b) :
    Fetched rpc b ∧ b.block.height = h := by
  have hh : b.block.height = h := by
    obtain ⟨chain, chain', hr⟩ := hs
    exact (assemble_ok ha).2.1.trans (hrest _ _ _ _ hr)
  subst hh
  exact ⟨⟨block, logs, hs, hl, ha⟩, rfl⟩

/-- What a fetch of the height comes to. -/
def FetchPost (rpc : Rpc χ) (i : TaskId) (h : Int) :
    Except SyncError (Option BlockBundle) → World χ → Prop
  | .ok (some b), _ => Fetched rpc b ∧ b.block.height = h
  | .ok none, w => Event.notFound i h ∈ w.events
  | .error _, _ => True

theorem FetchPost.later {h : Int} {r : Except SyncError (Option BlockBundle)}
    {w w' : World χ} (hp : FetchPost rpc i h r w) (hl : Later w w') : FetchPost rpc i h r w' := by
  rcases r with e | none | b
  · exact trivial
  · exact hl.mem hp
  · exact hp

theorem keeps_fetchOne (hrest : FaithfulHeights rpc) (h : Int) (w : World χ) :
    Keeps rpc floor i (fetchOne h).run.toProg (FetchPost rpc i h) w := by
  refine wp_scriptE_bind (Keeps.mono (keeps_restBlock h w) fun r w₁ hr => ?_)
  rcases r with e | none | block
  · exact trivial
  · exact hr none rfl
  · have hserved := hr (some block) rfl
    refine wp_scriptE_bind (Keeps.mono (keeps_logs h w₁) fun r w₂ hr₂ => ?_)
    rcases r with e | logs
    · exact trivial
    · have hlogs := hr₂ logs rfl
      show Keeps rpc floor i (Script.toProgE (liftM (assemble block logs) >>= _)).run _ w₂
      refine wp_scriptE_bind ?_
      rcases ha : assemble block logs with e | b
      · exact trivial
      · exact fetched_of_served hrest hserved hlogs ha

/-- A commit that writes the bundle. -/
theorem keeps_writeBlock (analytics : Bool) {b : BlockBundle} {w : World χ}
    (hj : ∀ w₁, Later w w₁ → Justified rpc floor w₁ i (.writeBlock b)) :
    Keeps rpc floor i (Script.toProgE (writeBlock analytics b)).run (fun r w' =>
      ∀ u, r = .ok u → Event.committed i (.writeBlock b) ∈ w'.events) w := by
  refine wp_scriptE_bind (Keeps.mono (keeps_transact hj) fun r w₁ hr => ?_)
  rcases r with e | ⟨⟩
  · exact fun u hu => absurd hu (by simp)
  · have hmem := hr () rfl
    cases analytics with
    | false => exact fun _ _ => hmem
    | true =>
        show Keeps rpc floor i (Script.toProgE (ExceptT.lift (pushAll (analyticsRows b)))).run _ w₁
        refine wp_script_bind (Keeps.mono (keeps_pushAll _).since fun _ w₂ hw₂ => ?_)
        exact fun _ _ => hw₂.1.mem hmem

theorem keeps_batchWriteBlocks (analytics : Bool) {bundles : List BlockBundle} {w : World χ}
    (hne : bundles ≠ [])
    (hj : ∀ w₁, Later w w₁ → Justified rpc floor w₁ i (.batchWriteBlocks bundles)) :
    Keeps rpc floor i (Script.toProgE (batchWriteBlocks analytics bundles)).run (fun r w' =>
      ∀ u, r = .ok u → Event.committed i (.batchWriteBlocks bundles) ∈ w'.events) w := by
  have hempty : bundles.isEmpty = false := by simpa using hne
  unfold batchWriteBlocks
  rw [hempty]
  refine wp_scriptE_bind (Keeps.mono (keeps_transact hj) fun r w₁ hr => ?_)
  rcases r with e | ⟨⟩
  · exact fun u hu => absurd hu (by simp)
  · have hmem := hr () rfl
    cases analytics with
    | false => exact fun _ _ => hmem
    | true =>
        refine wp_script_bind (Keeps.mono (keeps_pushAll _).since fun _ w₂ hw₂ => ?_)
        exact fun _ _ => hw₂.1.mem hmem

theorem settles_of_committed {w : World χ} {t : Txn} {h : Int}
    (hc : Event.committed i t ∈ w.events) (ht : t.Settles h) : Settled w h := ⟨i, t, hc, ht⟩

/-! ### The tail walk -/

/-- **One block of the tail walk**: with everything below settled, the height is too. -/
theorem keeps_ingestOne (hrest : FaithfulHeights rpc) (analytics : Bool) {h : Int}
    (h0 : floor ≤ h) {w : World χ} (hbelow : SettledBelow floor w h) :
    Keeps rpc floor i (Script.toProgE (ingestOne analytics h)).run
      (fun r w' => ∀ u, r = .ok u → SettledBelow floor w' (h + 1)) w := by
  refine wp_scriptE_bind (Keeps.mono (keeps_restBlock h w).since fun r w₁ hr => ?_)
  obtain ⟨hl₁, hr⟩ := hr
  have hbelow₁ := hbelow.later hl₁
  rcases r with e | none | block
  · exact fun u hu => absurd hu (by simp)
  · have hseen := hr none rfl
    have hj : ∀ w₂, Later w₁ w₂ → Justified rpc floor w₂ i (.writeCursor h 0) :=
      fun w₂ hl => ⟨hl.mem hseen, h0, hbelow₁.later hl⟩
    refine Keeps.mono (keeps_transact hj).since fun r w₂ hw₂ => ?_
    obtain ⟨hl₂, hok⟩ := hw₂
    intro u hu
    exact (hbelow₁.later hl₂).succ (settles_of_committed (hok u hu) rfl)
  · have hserved := hr (some block) rfl
    refine wp_scriptE_bind (Keeps.mono (keeps_logs h w₁).since fun r w₂ hr₂ => ?_)
    obtain ⟨hl₂, hr₂⟩ := hr₂
    have hbelow₂ := hbelow₁.later hl₂
    rcases r with e | logs
    · exact fun u hu => absurd hu (by simp)
    · have hlogs := hr₂ logs rfl
      refine wp_scriptE_bind ?_
      rcases ha : assemble block logs with e | b
      · exact fun u hu => absurd hu (by simp)
      · obtain ⟨hfetched, hheight⟩ := fetched_of_served hrest hserved hlogs ha
        subst hheight
        have hj : ∀ w₃, Later w₂ w₃ → Justified rpc floor w₃ i (.writeBlock b) :=
          fun w₃ hl => ⟨hfetched, h0, hbelow₂.later hl⟩
        show Keeps rpc floor i (Script.toProgE (writeBlock analytics b)).run _ w₂
        refine Keeps.mono (keeps_writeBlock analytics hj).since fun r w₃ hw₃ => ?_
        obtain ⟨hl₃, hok⟩ := hw₃
        intro u hu
        exact (hbelow₂.later hl₃).succ (settles_of_committed (hok u hu) rfl)

theorem keeps_ingestAll (hrest : FaithfulHeights rpc) (analytics : Bool) (hs : List Int) :
    ∀ {start cap : Int} {w : World χ}, hs = inclusive start cap → floor ≤ start →
      SettledBelow floor w start →
      Keeps rpc floor i (Script.toProgE (ingestAll analytics hs)).run (fun _ _ => True) w := by
  induction hs with
  | nil => intro _ _ _ _ _ _; exact trivial
  | cons h rest ih =>
      intro start cap w hrange h0 hbelow
      obtain ⟨rfl, -, hrest'⟩ := inclusive_eq_cons hrange.symm
      refine wp_scriptE_bind (Keeps.mono (keeps_ingestOne hrest analytics h0 hbelow) ?_)
      intro r w₁ hr
      rcases r with e | u
      · exact trivial
      · exact ih hrest' (by omega) (hr u rfl)

theorem keeps_walkPass (hrest : FaithfulHeights rpc) (cfg : SyncConfig) (analytics : Bool)
    (current : Int) (w : World χ) :
    Keeps rpc floor i (Script.toProgE (walkPass cfg analytics current)).run (fun _ _ => True) w := by
  have htake : ∀ w₁ : World χ, Keeps rpc floor i
      (Script.toProgE (ExceptT.lift SyncCall.takePendingAndRelease.ask : SyncScript _)).run
      (fun _ _ => True) w₁ :=
    fun w₁ => wp_script_bind (Keeps.mono keeps_takePending fun _ _ _ => trivial)
  have hdone : ∀ w₁ : World χ, Keeps rpc floor i (Script.toProgE takeNext).run (fun _ _ => True) w₁ := by
    intro w₁
    refine wp_scriptE_bind (Keeps.mono (htake w₁) fun r w₂ _ => ?_)
    rcases r with e | none | next
    · exact trivial
    · exact trivial
    · exact trivial
  refine wp_scriptE_bind (Keeps.mono keeps_readCursor fun r w₁ hr => ?_)
  rcases r with e | cursor
  · exact trivial
  · obtain ⟨hge, hbelow⟩ := hr cursor rfl
    by_cases hwalk : cursor.getD (-1) < saturatingSub current (asI64 cfg.safeLag)
    · simp only [hwalk, if_true]
      refine wp_scriptE_bind (Keeps.mono
        (keeps_ingestAll hrest analytics _ rfl (by omega) hbelow) fun r w₂ _ => ?_)
      cases r with
      | error e => exact trivial
      | ok u => exact hdone w₂
    · simp only [hwalk, if_false]
      exact hdone w₁

theorem keeps_handleFinalized (hrest : FaithfulHeights rpc) (cfg : SyncConfig)
    (analytics : Bool) (tip : Int) (w : World χ) :
    Keeps rpc floor i (handleFinalized cfg analytics tip).run (fun _ _ => True) w := by
  refine wp_bindE (wp_bind (Keeps.mono (keeps_offer tip) fun offer w₁ _ => ?_))
  cases offer with
  | stashed => exact trivial
  | acquired h =>
      refine wp_iterateE (fun _ _ => True) (fun _ _ _ _ _ _ => trivial) trivial ?_
      intro current w₂ _ _
      refine Keeps.mono (keeps_walkPass hrest cfg analytics current w₂) fun r w₃ _ => ?_
      rcases r with e | next | u
      · exact trivial
      · exact trivial
      · exact trivial

/-! ### The backfill loop -/

/--
What the backfill loop holds: everything below `base` is settled, the buffer has the
bundles from `base` on, and the pipeline continues right above them.
-/
structure Held (rpc : Rpc χ) (floor : Nat) (cap base : Int) (s : BackfillState) (w : World χ) : Prop where
  floor_le : floor ≤ base
  below : SettledBelow floor w base
  buf : Consecutive base s.buf
  fetched : ∀ b ∈ s.buf, Fetched rpc b
  heights : s.pipe.heights = inclusive (base + s.buf.length) cap

theorem Held.later {cap base : Int} {s : BackfillState} {w w' : World χ}
    (h : Held rpc floor cap base s w) (hl : Later w w') : Held rpc floor cap base s w' :=
  ⟨h.floor_le, h.below.later hl, h.buf, h.fetched, h.heights⟩

/-- The whole buffer is committed: what it held is settled. -/
theorem Held.settled_buf {cap base : Int} {s : BackfillState} {w : World χ}
    (h : Held rpc floor cap base s w)
    (hc : Event.committed i (.batchWriteBlocks s.buf) ∈ w.events) :
    SettledBelow floor w (base + s.buf.length) := by
  intro k h0 hlt
  by_cases hk : k < base
  · exact h.below k h0 hk
  · exact settles_of_committed hc ((h.buf.mem_iff k).mpr (by omega))

theorem Held.justified {cap base : Int} {s : BackfillState} {w : World χ}
    (h : Held rpc floor cap base s w) (hne : s.buf ≠ []) :
    ∀ w₁, Later w w₁ → Justified rpc floor w₁ i (.batchWriteBlocks s.buf) :=
  fun _ hl => ⟨base, h.floor_le, hne, h.buf, h.fetched, h.below.later hl⟩

/-- After a flush the buffer is empty and the loop holds the same pipeline. -/
theorem keeps_flush (analytics : Bool) {cap base : Int} {s : BackfillState} {w : World χ}
    (h : Held rpc floor cap base s w) :
    Keeps rpc floor i (Script.toProgE (flush analytics s)).run (fun r w' =>
      ∀ s', r = .ok s' → s'.pipe = s.pipe ∧ ∃ base', Held rpc floor cap base' s' w') w := by
  unfold flush
  rcases hmax : highest s.buf with _ | top
  · intro s' hs'
    obtain rfl := Except.ok.inj hs'
    exact ⟨rfl, base, h⟩
  · have hne : s.buf ≠ [] := by
      intro hnil
      rw [hnil] at hmax
      exact absurd hmax (by simp [highest])
    refine wp_scriptE_bind (Keeps.mono
      (keeps_batchWriteBlocks analytics hne (h.justified hne)).since fun r w₁ hr => ?_)
    obtain ⟨hl, hok⟩ := hr
    rcases r with e | u
    · exact fun s' hs' => absurd hs' (by simp)
    · intro s' hs'
      obtain rfl := Except.ok.inj hs'
      have h₁ := h.later hl
      refine ⟨rfl, base + s.buf.length, ?_, h₁.settled_buf (hok u rfl), trivial, ?_, ?_⟩
      · have := h.floor_le
        omega
      · exact fun b hb => absurd hb (by simp)
      · show s.pipe.heights = inclusive (base + s.buf.length + (0 : Nat)) cap
        rw [h.heights]
        simp

/-- Taking the next result keeps the loop's invariant. -/
theorem keeps_takeResult (analytics : Bool) {cap base : Int} {s : BackfillState}
    {rest : Pipeline} {fetched : Option BlockBundle} {w : World χ}
    (h : Held rpc floor cap base s w) {k : Int}
    (hnext : s.pipe.heights = k :: rest.heights)
    (hpost : FetchPost rpc i k (.ok fetched) w) :
    Keeps rpc floor i (Script.toProgE (takeResult analytics { s with pipe := rest } k fetched)).run
      (fun r w' => ∀ s', r = .ok s' → s'.pipe = rest ∧ ∃ base', Held rpc floor cap base' s' w') w := by
  obtain ⟨rfl, -, hrest⟩ := inclusive_eq_cons (h.heights.symm.trans hnext)
  have hfloor := h.floor_le
  cases fetched with
  | some bundle =>
      obtain ⟨hfetched, hheight⟩ := hpost
      intro s' hs'
      obtain rfl := Except.ok.inj hs'
      refine ⟨rfl, base, h.floor_le, h.below, h.buf.append hheight, ?_, ?_⟩
      · intro b hb
        rcases List.mem_append.mp hb with hold | hnew
        · exact h.fetched b hold
        · obtain rfl := List.mem_singleton.mp hnew
          exact hfetched
      · show rest.heights = inclusive (base + (s.buf ++ [bundle]).length) cap
        rw [hrest, List.length_append, List.length_singleton]
        congr 1
        push_cast
        omega
  | none =>
      -- With the buffer committed the height is right above settled ones.
      have hgap : ∀ w₁, Later w w₁ → SettledBelow floor w₁ (base + s.buf.length) →
          Keeps rpc floor i (Script.toProgE (do
            transact (.writeCursor (base + s.buf.length) 0)
            return { s with pipe := rest, buf := [], cursor := base + s.buf.length }
              : SyncScript BackfillState)).run
            (fun r w' => ∀ s', r = .ok s' →
              s'.pipe = rest ∧ ∃ base', Held rpc floor cap base' s' w') w₁ := by
        intro w₁ hl₁ hbelow
        have hj : ∀ w₂, Later w₁ w₂ →
            Justified rpc floor w₂ i (.writeCursor (base + s.buf.length) 0) :=
          fun w₂ hl => ⟨(hl₁.trans hl).mem hpost, by omega, hbelow.later hl⟩
        refine wp_scriptE_bind (Keeps.mono (keeps_transact hj).since fun r w₂ hr => ?_)
        obtain ⟨hl₂, hok⟩ := hr
        rcases r with e | u
        · exact fun s' hs' => absurd hs' (by simp)
        · intro s' hs'
          obtain rfl := Except.ok.inj hs'
          refine ⟨rfl, base + s.buf.length + 1, by omega, ?_, trivial, ?_, ?_⟩
          · exact (hbelow.later hl₂).succ (settles_of_committed (hok u rfl) rfl)
          · exact fun b hb => absurd hb (by simp)
          · show rest.heights = inclusive (base + s.buf.length + 1 + (0 : Nat)) cap
            rw [hrest]
            simp
      by_cases hnil : s.buf = []
      · rw [takeResult_none_of_nil (s := { s with pipe := rest }) analytics hnil]
        refine hgap w (Later.refl w) ?_
        rw [hnil]
        simpa using h.below
      · rw [takeResult_none_of_ne_nil (s := { s with pipe := rest }) analytics hnil]
        refine wp_scriptE_bind (Keeps.mono
          (keeps_batchWriteBlocks analytics hnil (h.justified hnil)).since fun r w₁ hr => ?_)
        obtain ⟨hl, hok⟩ := hr
        rcases r with e | u
        · exact fun s' hs' => absurd hs' (by simp)
        · exact hgap w₁ hl ((h.later hl).settled_buf (hok u rfl))

/-- The fetches in flight, each on its way to what its height comes to. -/
abbrev InFlight (rpc : Rpc χ) (floor : Nat) (i : TaskId) (inflight : Fetches) (w : World χ) : Prop :=
  PoolOk (handle rpc i) (CursorSettled floor) Later (WriterStep rpc floor) (FetchPost rpc i) inflight w

theorem fetchPost_stable (k : Int) (r : Except SyncError (Option BlockBundle))
    (w w' : World χ) (hp : FetchPost rpc i k r w) (hl : Later w w') (_ : CursorSettled floor w') :
    FetchPost rpc i k r w' := hp.later hl

theorem InFlight.later {inflight : Fetches} {w w' : World χ} (h : InFlight rpc floor i inflight w)
    (hl : Later w w') (hc : CursorSettled floor w') : InFlight rpc floor i inflight w' :=
  PoolOk.stable later_trans fetchPost_stable h hl hc

/-- The invariant of the backfill loop. -/
def BackfillInv (rpc : Rpc χ) (floor : Nat) (i : TaskId) (cap : Int) (s : BackfillState) (w : World χ) :
    Prop := (∃ base, Held rpc floor cap base s w) ∧ InFlight rpc floor i s.pipe.inflight w

theorem keeps_nextItem (hrest : FaithfulHeights rpc) (tuning : Tuning) {p : Pipeline}
    {w : World χ} (hp : InFlight rpc floor i p.inflight w) :
    Keeps rpc floor i (Prog.iterate (pollNext tuning) p) (fun next w' => Later w w' ∧
      NextPost (handle rpc i) (CursorSettled floor) (fun _ => True) Later (WriterStep rpc floor)
        (FetchPost rpc i) p.heights next w') w := by
  have hcall : ∀ {α : Type} {p : Prog SyncSig α} {w : World χ}, CursorSettled floor w →
      Keeps rpc floor i p (fun _ _ => True) w →
      Keeps rpc floor i p (fun _ w' => CursorSettled floor w' ∧ Later w w') w :=
    fun hc h => Keeps.mono (wp_with_inv hc h.since) fun _ _ h => ⟨h.1, h.2.1⟩
  exact wp_nextItem Later.refl later_trans later_trans (fun _ _ h => h)
    (fun _ _ h => ⟨h.later, h⟩) (fun _ _ h => h) fetchPost_stable
    (fun w hc => Keeps.mono (hcall hc keeps_isCancelled) fun _ _ h => ⟨h.1, h.2, fun _ => trivial⟩)
    (fun hs w hc => hcall hc (keeps_schedule hs))
    (fun h _ w _ => keeps_fetchOne hrest h w) hp

/-- **One pass of the backfill loop keeps its invariant.** -/
theorem keeps_backfillPass (hrest : FaithfulHeights rpc) (tuning : Tuning) (analytics : Bool)
    {cap : Int} {s : BackfillState} {w : World χ} (hc : CursorSettled floor w)
    (h : BackfillInv rpc floor i cap s w) :
    Keeps rpc floor i (backfillPass tuning analytics s).run (fun r w' =>
      ∀ s', r = .ok (.inl s') → BackfillInv rpc floor i cap s' w') w := by
  obtain ⟨⟨base, hheld⟩, hflight⟩ := h
  refine wp_bindE (wp_bind (Keeps.mono (wp_with_inv hc (keeps_nextItem hrest tuning hflight)) ?_))
  intro next w₁ hnext
  obtain ⟨hc₁, hl₁, hpost⟩ := hnext
  have hheld₁ := hheld.later hl₁
  -- Leaving the loop only needs the flush itself to be a writer's code.
  have hleave : Keeps rpc floor i (do
      let s ← Script.toProgE (flush analytics s)
      return .inr s.cursor : SyncProg (BackfillState ⊕ Int)).run
      (fun r w' => ∀ s', r = .ok (.inl s') → BackfillInv rpc floor i cap s' w') w₁ := by
    refine wp_bindE (Keeps.mono (keeps_flush analytics hheld₁) fun r w₂ _ => ?_)
    cases r with
    | error e => exact fun s' hs' => absurd hs' (by simp)
    | ok s'' => exact fun s' hs' => absurd hs' (by simp)
  cases next with
  | cancelled => exact hleave
  | finished => exact hleave
  | item k result rest =>
      obtain ⟨hkeys, hfetch, hrestOk⟩ := hpost
      rcases result with e | fetched
      · exact fun s' hs' => absurd hs' (by simp)
      · refine wp_bindE ?_
        show Keeps rpc floor i (Script.toProgE
          (takeResult analytics { s with pipe := rest } k fetched) >>= _).run _ w₁
        refine wp_bindE (Keeps.mono (wp_with_inv hc₁
          (keeps_takeResult analytics hheld₁ hkeys hfetch).since) fun r w₂ hr => ?_)
        obtain ⟨hc₂, hl₂, hr⟩ := hr
        rcases r with e | s₂
        · exact fun s' hs' => absurd hs' (by simp)
        · obtain ⟨hpipe, base₂, hheld₂⟩ := hr s₂ rfl
          have hflight₂ : InFlight rpc floor i s₂.pipe.inflight w₂ := by
            rw [hpipe]
            exact InFlight.later hrestOk hl₂ hc₂
          by_cases hfull : tuning.batchSize ≤ s₂.buf.length
          · simp only [hfull, if_true]
            refine wp_bindE (Keeps.mono (wp_with_inv hc₂
              (keeps_flush analytics hheld₂).since) fun r w₃ hr₃ => ?_)
            obtain ⟨hc₃, hl₃, hr₃⟩ := hr₃
            rcases r with e | s₃
            · exact fun s' hs' => absurd hs' (by simp)
            · intro s' hs'
              obtain rfl := Sum.inl.inj (Except.ok.inj hs')
              obtain ⟨hpipe₃, hheld₃⟩ := hr₃ _ rfl
              refine ⟨hheld₃, ?_⟩
              rw [hpipe₃]
              exact hflight₂.later hl₃ hc₃
          · simp only [hfull, if_false]
            intro s' hs'
            obtain rfl := Sum.inl.inj (Except.ok.inj hs')
            exact ⟨⟨base₂, hheld₂⟩, hflight₂⟩

theorem keeps_blockNumber {w : World χ} :
    Keeps rpc floor i (Script.toProgE (withRetry ChainProvider.blockNumber)).run
      (fun _ _ => True) w := by
  refine Keeps.mono (keeps_withRetry (Q := fun _ _ => True) (fun w => ?_) w) fun _ _ _ => trivial
  exact keeps_chain _ fun _ _ _ _ => fun _ _ => trivial

theorem keeps_runBackfill (hrest : FaithfulHeights rpc) (cfg : SyncConfig) (tuning : Tuning)
    (analytics : Bool) (w : World χ) :
    Keeps rpc floor i (runBackfill cfg tuning analytics).run (fun _ _ => True) w := by
  refine wp_bindE (Keeps.mono keeps_readCursor fun r w₁ hr => ?_)
  rcases r with e | cursor
  · exact trivial
  · obtain ⟨hge, hbelow⟩ := hr cursor rfl
    refine wp_bindE (Keeps.mono keeps_blockNumber.since fun r w₂ hr₂ => ?_)
    rcases r with e | tip
    · exact trivial
    · by_cases hcap : backfillCap cfg tip ≤ cursor.getD (-1)
      · simp only [hcap, if_true]
        exact trivial
      · simp only [hcap, if_false]
        refine wp_iterateE (BackfillInv rpc floor i (backfillCap cfg tip)) ?_ ⟨⟨cursor.getD (-1) + 1,
          by omega, hbelow.later hr₂.1, trivial, fun b hb => absurd hb (by simp), ?_⟩,
          fun e he => absurd he (by simp)⟩ ?_
        · intro s w w' h hl hc
          obtain ⟨⟨base, hheld⟩, hflight⟩ := h
          exact ⟨⟨base, hheld.later hl⟩, hflight.later hl hc⟩
        · show [] ++ inclusive _ _ = _
          simp
        · intro s w₃ hc h
          refine Keeps.mono (keeps_backfillPass hrest tuning analytics hc h) fun r w₄ hr => ?_
          rcases r with e | s' | c
          · exact trivial
          · exact hr s' rfl
          · exact trivial

/-! ### The system -/

/-- **The indexer refines the writers' protocol.** -/
theorem indexer_verified (hrest : FaithfulHeights rpc) (moves : χ → χ → Prop) (chain : χ) :
    Verified (indexer rpc moves) (World.init chain) (CursorSettled 0) Later (WriterStep rpc 0) where
  rely_refl := Later.refl
  rely_trans := later_trans
  guar_refl := WriterStep.idle
  guar_rely _ _ := WriterStep.later
  init := by
    have hunset : (World.init chain).store.cursor = -1 := rfl
    refine ⟨by omega, fun h h0 hlt => ?_⟩
    omega
  spawn i p w hp _ := by
    cases hp with
    | backfill cfg tuning analytics =>
        exact wp_bind (Keeps.mono (keeps_runBackfill hrest cfg tuning analytics w)
          fun _ _ _ => trivial)
    | finalized cfg analytics tip =>
        exact wp_bind (Keeps.mono (keeps_handleFinalized hrest cfg analytics tip w)
          fun _ _ _ => trivial)
  env w w' hc he := by
    cases he with
    | chain h => exact ⟨⟨hc.floor_le, hc.below⟩, Later.refl w⟩
    | cancel => exact ⟨⟨hc.floor_le, hc.below⟩, Later.refl w⟩
  crash w w' hc hcr := by
    obtain rfl : w' = w.restart := hcr
    exact ⟨hc.floor_le, hc.below⟩

/-- **Every commit of every interleaving is justified** when it is made. -/
theorem commit_justified (hrest : FaithfulHeights rpc) {moves : χ → χ → Prop} {chain : χ}
    {c c' : Config SyncSig TaskId (World χ) Unit}
    (hc : Reachable (indexer rpc moves) (World.init chain) c)
    (hm : Move (indexer rpc moves) c c') {i : TaskId} {t : Txn}
    (hevents : c'.world.events = .committed i t :: c.world.events) :
    ∃ s, Justified rpc 0 c.world i t ∧ t.run c.world.store = .ok s ∧
      c'.world = c.world.commit i t s := by
  rcases (indexer_verified hrest moves chain).move hc hm with hs | he | hcr
  · generalize c'.world = w' at hs hevents ⊢
    cases hs with
    | idle => exact absurd hevents (by simp)
    | chain j _ => exact absurd hevents noteAnswer_ne_commit
    | gate g => exact absurd hevents (by simp)
    | push j row => exact absurd hevents (by simp)
    | @commit j u s hj hrun =>
        obtain ⟨rfl, rfl⟩ := Event.committed.inj (List.cons.inj hevents).1
        exact ⟨s, hj, hrun, rfl⟩
  · rw [he.unchanged.2] at hevents
    exact absurd hevents (by simp)
  · rw [show c'.world = c.world.restart from hcr] at hevents
    exact absurd hevents (by simp [World.restart])

end SentrixIndexer
