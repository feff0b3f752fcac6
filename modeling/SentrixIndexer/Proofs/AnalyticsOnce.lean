/-
One analytics row for each transaction.

Every write that is answered `Ok` pushes a row for each transaction of its bundles,
whether its inserts did anything or not.  So a transaction that two such writes contain is
pushed twice, and nothing keeps the backfill and the tail from writing one height both.
Where no write repeats a transaction of an earlier one the books balance: each row owed is
pushed once, unless the channel was closed.

That a task pays its rows before it does anything else is a fact of its program alone.
-/
import SentrixIndexer.Analytics.Ledger
import SentrixIndexer.Proofs.Bundles
import SentrixIndexer.Proofs.MixedForks
import SentrixIndexer.Proofs.Refinement

namespace SentrixIndexer

open Effect

/-! ### What a write owes -/

theorem analyticsRows_hashes {b : BlockBundle} (h : 0 ≤ b.block.height) :
    (analyticsRows b).map RawTxRow.txHash = b.txs.map Transaction.hash := by
  have hheight : heightAsU64 b.block.height = some (UInt64.ofNat b.block.height.toNat) := by
    simp [heightAsU64, h]
  unfold analyticsRows
  rw [hheight]
  simp [rawTxRow]

/-- **One row for each transaction of the write.** -/
theorem Txn.rows_hashes {t : Txn} (h : t.Indexed) : t.rows.map RawTxRow.txHash = t.hashes := by
  cases t with
  | writeBlock b => exact analyticsRows_hashes h
  | batchWriteBlocks bundles =>
      show (bundles.flatMap analyticsRows).map _ = bundles.flatMap _
      rw [List.map_flatMap]
      exact List.flatMap_congr fun b hb => analyticsRows_hashes (h b hb)
  | writeCursor h nowTs => rfl
  | rewindTo h => rfl

/-! ### The programs pay their rows -/

/-- A call that moves no rows. -/
def SyncCall.IsQuiet : SyncCall → Prop
  | .push _ => False
  | .transact _ => False
  | _ => True

theorem rowsOwed_quiet {c : SyncCall} (hc : c.IsQuiet) :
    rowsOwed.Allows [] c ∧ ∀ r, rowsOwed.next [] c r = [] := by
  cases c with
  | push row => exact absurd hc fun h => h
  | transact t => exact absurd hc fun h => h
  | _ => exact ⟨rfl, fun _ => rfl⟩

/-- The program owes nothing before or after. -/
abbrev Settling {α : Type} (p : Prog SyncSig α) : Prop :=
  rowsOwed.Obeys p (fun _ owed => owed = []) []

theorem owes_quiet {α : Type} {p : Script SyncSig α} (hp : p.Only SyncCall.IsQuiet) :
    rowsOwed.Keeps [] p.toProg fun _ => True :=
  Monitor.keeps_of_only (fun _ => rowsOwed_quiet) hp

theorem quiet_withRetry {α : Type} {op : Script SyncSig (Except ChainError α)}
    (hop : op.Only SyncCall.IsQuiet) : (withRetry op).run.Only SyncCall.IsQuiet := by
  refine Script.Only.bind (retryFrom_only hop (fun _ => Script.only_ask trivial) _ _) fun r => ?_
  cases r with
  | ok v => exact trivial
  | error e => exact trivial

theorem quiet_logs (h : Int) :
    (withRetry (ChainProvider.logsInRange h h)).run.Only SyncCall.IsQuiet := by
  refine quiet_withRetry ?_
  unfold ChainProvider.logsInRange logsInRange
  rw [if_neg (lt_irrefl h)]
  by_cases hneg : heightAsU64 h = none
  · rw [if_pos hneg]
    exact trivial
  · rw [if_neg hneg, if_neg hneg]
    exact Script.only_ask trivial

theorem quiet_restBlock (h : Int) :
    (withRetry (RestClient.block h)).run.Only SyncCall.IsQuiet :=
  quiet_withRetry (Script.only_ask trivial)

/-- A fetched bundle has a height that is not below zero. -/
theorem indexed_fetchOne (h : Int) :
    rowsOwed.Keeps [] (fetchOne h).run.toProg fun r =>
      ∀ b, r = .ok (some b) → 0 ≤ b.block.height := by
  show rowsOwed.Keeps [] (Script.toProgE (fetchOne h)).run _
  unfold fetchOne
  rw [Script.toProgE_bind]
  refine Monitor.keeps_bindE (owes_quiet (quiet_restBlock h)) (fun o _ => ?_)
    fun e b hb => by simp at hb
  cases o with
  | none => exact Monitor.keeps_pure fun b hb => by simp at hb
  | some block =>
      rw [Script.toProgE_bind]
      refine Monitor.keeps_bindE (owes_quiet (quiet_logs h)) (fun logs _ => ?_)
        fun e b hb => by simp at hb
      rw [Script.toProgE_bind]
      refine Monitor.keeps_bindE (Q := fun r => r = assemble block logs) (Monitor.keeps_pure rfl)
        (fun b hb => ?_) fun e b hb => by simp at hb
      refine Monitor.keeps_pure fun b' hb' => ?_
      obtain rfl := Option.some.inj (Except.ok.inj hb')
      exact (assemble_ok hb.symm).1.nonneg

variable {α β : Type}

theorem obeys_sync {c : SyncCall} {k : c.Answer → Prog SyncSig α}
    {Q : α → List RawTxRow → Prop} {owed : List RawTxRow} (hc : rowsOwed.Allows owed c)
    (hk : ∀ r, rowsOwed.Obeys (k r) Q (rowsOwed.next owed c r)) :
    rowsOwed.Obeys (.call c k) Q owed := Monitor.obeys_call hc hk

/-- A step that moves no rows, and what follows. -/
theorem obeys_quiet_bind {p : SyncScript α} {f : α → SyncScript β}
    {Q : Except SyncError β → List RawTxRow → Prop} (hp : p.run.Only SyncCall.IsQuiet)
    (hok : ∀ a, rowsOwed.Obeys (Script.toProgE (f a)).run Q []) (herror : ∀ e, Q (.error e) []) :
    rowsOwed.Obeys (Script.toProgE (p >>= f)).run Q [] := by
  rw [Script.toProgE_bind]
  refine Monitor.obeys_bindE ((owes_quiet hp).obeys.mono ?_)
  rintro r _ ⟨rfl, -⟩
  cases r with
  | ok a => exact hok a
  | error e => exact herror e

/-- A transaction that owes no rows, and what follows. -/
theorem obeys_transact_bind {t : Txn} {f : Unit → SyncScript β}
    {Q : Except SyncError β → List RawTxRow → Prop} (ht : t.Indexed)
    (hok : rowsOwed.Obeys (Script.toProgE (f ())).run Q t.rows) (herror : ∀ e, Q (.error e) []) :
    rowsOwed.Obeys (Script.toProgE (transact t >>= f)).run Q [] := by
  rw [Script.toProgE_bind]
  refine Monitor.obeys_bindE (obeys_sync (c := .transact t) ⟨rfl, ht⟩ fun r => ?_)
  cases r with
  | ok u => exact Monitor.obeys_pure hok
  | error e => exact Monitor.obeys_pure (herror e)

/-- The loop over the rows pushes them all, or stops at a closed channel. -/
theorem obeys_pushAll (rows : List RawTxRow) :
    rowsOwed.Obeys (pushAll rows).toProg (fun _ owed => owed = []) rows := by
  induction rows with
  | nil => exact Monitor.obeys_pure rfl
  | cons row rest ih =>
      refine obeys_sync (c := .push row) rfl fun accepted => ?_
      cases accepted with
      | true => exact ih
      | false => exact Monitor.obeys_pure rfl

/-- **A write pays what it owes.** -/
theorem settling_thenPush {t : Txn} {rows : List RawTxRow} (ht : t.Indexed) (hrows : t.rows = rows) :
    Settling (Script.toProgE (do
      transact t
      if true then ExceptT.lift (pushAll rows) : SyncScript Unit)).run := by
  refine obeys_transact_bind ht ?_ fun _ => rfl
  rw [hrows, if_pos rfl]
  show rowsOwed.Obeys
    ((pushAll rows).bind fun u => .pure (.ok u : Except SyncError Unit)).toProg _ rows
  rw [Script.toProg_bind]
  exact Monitor.obeys_bind ((obeys_pushAll rows).mono fun _ _ h => Monitor.obeys_pure h)

theorem settling_writeBlock {b : BlockBundle} (hb : 0 ≤ b.block.height) :
    Settling (Script.toProgE (writeBlock true b)).run :=
  settling_thenPush hb rfl

theorem settling_batchWriteBlocks {bundles : List BlockBundle}
    (hb : ∀ b ∈ bundles, 0 ≤ b.block.height) :
    Settling (Script.toProgE (batchWriteBlocks true bundles)).run := by
  unfold batchWriteBlocks
  by_cases hempty : bundles.isEmpty = true
  · rw [if_pos hempty]
    exact Monitor.obeys_pure rfl
  · rw [if_neg hempty]
    exact settling_thenPush hb rfl

theorem settling_ingestOne (h : Int) : Settling (Script.toProgE (ingestOne true h)).run := by
  refine obeys_quiet_bind (quiet_restBlock h) (fun o => ?_) fun _ => rfl
  cases o with
  | none =>
      refine obeys_sync (c := .transact (.writeCursor h 0)) ⟨rfl, trivial⟩ fun r => ?_
      cases r with
      | ok u => exact Monitor.obeys_pure rfl
      | error e => exact Monitor.obeys_pure rfl
  | some block =>
      refine obeys_quiet_bind (quiet_logs h) (fun logs => ?_) fun _ => rfl
      rw [Script.toProgE_bind]
      refine Monitor.obeys_bindE ?_
      show rowsOwed.Obeys (Prog.pure (assemble block logs)) _ []
      rcases hb : assemble block logs with e | b
      · exact Monitor.obeys_pure rfl
      · exact Monitor.obeys_pure (settling_writeBlock (assemble_ok hb).1.nonneg)

theorem settling_ingestAll (hs : List Int) : Settling (Script.toProgE (ingestAll true hs)).run := by
  induction hs with
  | nil => exact Monitor.obeys_pure rfl
  | cons h rest ih =>
      unfold ingestAll
      rw [Script.toProgE_bind]
      refine Monitor.obeys_bindE ((settling_ingestOne h).mono ?_)
      rintro r _ rfl
      cases r with
      | ok u => exact ih
      | error e => exact rfl

/-! ### The backfill loop -/

/-- No bundle in hand has a height below zero, and the fetches bring in no other. -/
structure HandIndexed (s : BackfillState) : Prop where
  buf : ∀ b ∈ s.buf, 0 ≤ b.block.height
  inflight : ∀ e ∈ s.pipe.inflight,
    rowsOwed.Keeps [] e.2.toProg fun r => ∀ b, r = .ok (some b) → 0 ≤ b.block.height

/-- What is left of the hand after a part of a pass: the pipeline as it was, and indexed bundles. -/
def HandAfter (s : BackfillState) (r : Except SyncError BackfillState) (owed : List RawTxRow) :
    Prop :=
  owed = [] ∧ ∀ s', r = .ok s' → s'.pipe = s.pipe ∧ ∀ b ∈ s'.buf, 0 ≤ b.block.height

theorem settling_flush {s : BackfillState} (hbuf : ∀ b ∈ s.buf, 0 ≤ b.block.height) :
    rowsOwed.Obeys (Script.toProgE (flush true s)).run (HandAfter s) [] := by
  unfold flush
  rcases highest s.buf with _ | top
  · refine Monitor.obeys_pure ⟨rfl, fun s' hs' => ?_⟩
    obtain rfl := Except.ok.inj hs'
    exact ⟨rfl, hbuf⟩
  · show rowsOwed.Obeys (Script.toProgE (batchWriteBlocks true s.buf >>= _)).run _ []
    rw [Script.toProgE_bind]
    refine Monitor.obeys_bindE ((settling_batchWriteBlocks hbuf).mono ?_)
    rintro r _ rfl
    cases r with
    | ok u =>
        refine Monitor.obeys_pure ⟨rfl, fun s' hs' => ?_⟩
        obtain rfl := Except.ok.inj hs'
        exact ⟨rfl, by simp⟩
    | error e => exact ⟨rfl, fun s' hs' => by simp at hs'⟩

theorem settling_takeResult {s : BackfillState} {h : Int} {fetched : Option BlockBundle}
    (hbuf : ∀ b ∈ s.buf, 0 ≤ b.block.height)
    (hfetched : ∀ b, fetched = some b → 0 ≤ b.block.height) :
    rowsOwed.Obeys (Script.toProgE (takeResult true s h fetched)).run (HandAfter s) [] := by
  cases fetched with
  | some bundle =>
      refine Monitor.obeys_pure ⟨rfl, fun s' hs' => ?_⟩
      obtain rfl := Except.ok.inj hs'
      refine ⟨rfl, fun b hb => ?_⟩
      rcases List.mem_append.mp hb with hold | hnew
      · exact hbuf b hold
      · obtain rfl := List.mem_singleton.mp hnew
        exact hfetched b rfl
  | none =>
      have hgap : rowsOwed.Obeys (Script.toProgE (do
          transact (.writeCursor h 0)
          return { s with buf := [], cursor := h } : SyncScript BackfillState)).run
          (HandAfter s) [] := by
        refine obeys_transact_bind (t := .writeCursor h 0) trivial ?_
          fun e => ⟨rfl, fun s' hs' => by simp at hs'⟩
        refine Monitor.obeys_pure ⟨rfl, fun s' hs' => ?_⟩
        obtain rfl := Except.ok.inj hs'
        exact ⟨rfl, by simp⟩
      by_cases hnil : s.buf = []
      · rw [takeResult_none_of_nil true hnil]
        exact hgap
      · rw [takeResult_none_of_ne_nil true hnil, Script.toProgE_bind]
        refine Monitor.obeys_bindE ((settling_batchWriteBlocks hbuf).mono ?_)
        rintro r _ rfl
        cases r with
        | ok u => exact hgap
        | error e => exact ⟨rfl, fun s' hs' => by simp at hs'⟩

/-- What the `select!` of the loop yields. -/
theorem indexed_nextItem {tuning : Tuning} {s : BackfillState} (hs : HandIndexed s) :
    rowsOwed.Keeps [] (Prog.iterate (pollNext tuning) s.pipe) fun next =>
      match next with
      | .item _ result rest => HandIndexed { s with pipe := rest } ∧
          ∀ b, result = .ok (some b) → 0 ≤ b.block.height
      | _ => True := by
  have htrans : ∀ o₁ o₂ o₃ : Option (List RawTxRow), o₁ = o₂ → o₂ = o₃ → o₁ = o₃ :=
    fun _ _ _ => Eq.trans
  have hquiet : ∀ c : SyncCall, c.IsQuiet → ∀ o, o = some [] → wp rowsOwed.handler (· = some [])
      Eq Eq c.await (fun _ o' => o' = some [] ∧ o = o') o := by
    rintro c hc o rfl
    exact wp_mono (fun _ _ h => ⟨h.1, h.1.symm⟩) (wp_with_inv rfl
      (owes_quiet (Script.only_ask hc) (some [])))
  refine Monitor.keeps_of_state (wp_mono ?_ (wp_nextItem (C := fun _ => True)
    (Q := fun _ r _ => ∀ b, r = .ok (some b) → 0 ≤ b.block.height)
    (fun _ => rfl) htrans htrans (fun _ _ h => h) (fun _ _ h => ⟨h, h⟩) (fun _ _ h => h)
    (fun _ _ _ _ hq _ _ => hq)
    (fun o ho => wp_mono (fun _ _ h => ⟨h.1, h.2, fun _ => trivial⟩)
      (hquiet .isCancelled trivial o ho))
    (fun hs o ho => hquiet (.schedule hs) trivial o ho)
    (fun h _ o _ => indexed_fetchOne h o) fun e he => hs.inflight e he (some [])))
  rintro next o ⟨rfl, hpost⟩
  cases next with
  | cancelled => exact trivial
  | finished => exact trivial
  | item k result rest =>
      obtain ⟨-, hresult, hpool⟩ := hpost
      exact ⟨⟨hs.buf, fun e he => Monitor.keeps_of_state (hpool e he)⟩, hresult⟩

/-- What a pass of the loop leaves: no debt, and an indexed hand to go on with. -/
def PassSettled (r : Except SyncError (BackfillState ⊕ Int)) (owed : List RawTxRow) : Prop :=
  owed = [] ∧ ∀ s', r = .ok (.inl s') → HandIndexed s'

/-- Leaving the loop with what is in the buffer. -/
theorem settling_leave {s : BackfillState} (hbuf : ∀ b ∈ s.buf, 0 ≤ b.block.height) :
    rowsOwed.Obeys (do
      let s ← Script.toProgE (flush true s)
      return .inr s.cursor : SyncProg (BackfillState ⊕ Int)).run PassSettled [] := by
  refine Monitor.obeys_bindE ((settling_flush hbuf).mono ?_)
  rintro r _ ⟨rfl, -⟩
  cases r with
  | ok s' => exact Monitor.obeys_pure ⟨rfl, fun s' hs' => by simp at hs'⟩
  | error e => exact ⟨rfl, fun s' hs' => by simp at hs'⟩

/-- **One pass of the backfill loop.** -/
theorem settling_backfillPass (tuning : Tuning) {s : BackfillState} (hs : HandIndexed s) :
    rowsOwed.Obeys (backfillPass tuning true s).run PassSettled [] := by
  refine Monitor.obeys_bindE (Monitor.obeys_bind ((indexed_nextItem hs).obeys.mono ?_))
  rintro next _ ⟨rfl, hpost⟩
  cases next with
  | cancelled => exact Monitor.obeys_pure (settling_leave hs.buf)
  | finished => exact Monitor.obeys_pure (settling_leave hs.buf)
  | item k result rest =>
      obtain ⟨hrest, hresult⟩ := hpost
      refine Monitor.obeys_pure (Monitor.obeys_bindE ?_)
      show rowsOwed.Obeys (Prog.pure result) _ []
      cases result with
      | error e => exact Monitor.obeys_pure ⟨rfl, fun s' hs' => by simp at hs'⟩
      | ok fetched =>
          refine Monitor.obeys_pure (Monitor.obeys_bindE ((settling_takeResult hrest.buf
            fun b hb => hresult b (congrArg Except.ok hb)).mono ?_))
          rintro r _ ⟨rfl, htaken⟩
          cases r with
          | error e => exact ⟨rfl, fun s' hs' => by simp at hs'⟩
          | ok s₁ =>
              obtain ⟨hpipe, hbuf⟩ := htaken s₁ rfl
              have hflight : s₁.pipe.inflight = rest.inflight := congrArg Pipeline.inflight hpipe
              by_cases hfull : tuning.batchSize ≤ s₁.buf.length
              · simp only [hfull, if_true]
                refine Monitor.obeys_bindE ((settling_flush hbuf).mono ?_)
                rintro r _ ⟨rfl, hflushed⟩
                cases r with
                | error e => exact ⟨rfl, fun s' hs' => by simp at hs'⟩
                | ok s₂ =>
                    obtain ⟨hpipe₂, hbuf₂⟩ := hflushed s₂ rfl
                    refine Monitor.obeys_pure ⟨rfl, fun s' hs' => ?_⟩
                    obtain rfl := Sum.inl.inj (Except.ok.inj hs')
                    refine ⟨hbuf₂, ?_⟩
                    rw [hpipe₂, hflight]
                    exact hrest.inflight
              · simp only [hfull, if_false]
                refine Monitor.obeys_pure ⟨rfl, fun s' hs' => ?_⟩
                obtain rfl := Sum.inl.inj (Except.ok.inj hs')
                refine ⟨hbuf, ?_⟩
                rw [hflight]
                exact hrest.inflight

theorem quiet_readCursor : readCursorCall.run.Only SyncCall.IsQuiet := Script.only_ask trivial

theorem settling_runBackfill (cfg : SyncConfig) (tuning : Tuning) :
    Settling (runBackfill cfg tuning true).run := by
  refine Monitor.obeys_bindE ((owes_quiet quiet_readCursor).obeys.mono ?_)
  rintro r _ ⟨rfl, -⟩
  cases r with
  | error e => exact rfl
  | ok cursor =>
      have hnumber : ChainProvider.blockNumber.Only SyncCall.IsQuiet := Script.only_ask trivial
      refine Monitor.obeys_bindE ((owes_quiet (quiet_withRetry hnumber)).obeys.mono ?_)
      rintro r _ ⟨rfl, -⟩
      cases r with
      | error e => exact rfl
      | ok tip =>
          by_cases hcap : backfillCap cfg tip ≤ cursor.getD (-1)
          · simp only [hcap, if_true]
            exact Monitor.obeys_pure rfl
          · simp only [hcap, if_false]
            refine Monitor.obeys_iterateE (fun s owed => owed = [] ∧ HandIndexed s)
              ⟨rfl, by simp, by simp⟩ ?_
            rintro s _ ⟨rfl, hs⟩
            refine (settling_backfillPass tuning hs).mono fun r owed hr => ?_
            rcases r with e | s' | n
            · exact hr.1
            · exact ⟨hr.1, hr.2 s' rfl⟩
            · exact hr.1

theorem settling_walkPass (cfg : SyncConfig) (current : Int) :
    Settling (Script.toProgE (walkPass cfg true current)).run := by
  refine obeys_quiet_bind quiet_readCursor (fun cursor => ?_) fun _ => rfl
  have hdone : Settling (Script.toProgE takeNext).run := by
    refine obeys_sync (c := .takePendingAndRelease) rfl fun o => ?_
    cases o with
    | none => exact Monitor.obeys_pure rfl
    | some next => exact Monitor.obeys_pure rfl
  by_cases hwalk : cursor.getD (-1) < saturatingSub current (asI64 cfg.safeLag)
  · simp only [hwalk, if_true]
    rw [Script.toProgE_bind]
    refine Monitor.obeys_bindE ((settling_ingestAll _).mono ?_)
    rintro r _ rfl
    cases r with
    | ok u => exact hdone
    | error e => exact rfl
  · simp only [hwalk, if_false]
    exact hdone

theorem settling_handleFinalized (cfg : SyncConfig) (tip : Int) :
    Settling (handleFinalized cfg true tip).run := by
  refine Monitor.obeys_bindE (Monitor.obeys_bind (obeys_sync (c := .offer tip) rfl fun o => ?_))
  cases o with
  | stashed => exact Monitor.obeys_pure (Monitor.obeys_pure (Monitor.obeys_pure rfl))
  | acquired h =>
      refine Monitor.obeys_pure (Monitor.obeys_pure ?_)
      refine Monitor.obeys_iterateE (fun _ owed => owed = []) rfl ?_
      rintro current _ rfl
      refine (settling_walkPass cfg current).mono fun r owed hr => ?_
      rcases r with e | next | u
      · exact hr
      · exact hr
      · exact hr

/-- **A writer task owes nothing when it starts, and nothing when it has finished.** -/
theorem AnalyticsTask.settling {p : Prog SyncSig Unit} (h : AnalyticsTask p) : Settling p := by
  cases h with
  | backfill cfg tuning =>
      exact Monitor.obeys_bind ((settling_runBackfill cfg tuning).mono
        fun _ _ h => Monitor.obeys_pure h)
  | finalized cfg tip =>
      exact Monitor.obeys_bind ((settling_handleFinalized cfg tip).mono
        fun _ _ h => Monitor.obeys_pure h)

/-! ### The books -/

@[simp] theorem Ledger.note_owed_self (l : Ledger) (i : TaskId) (c : SyncCall) (r : c.Answer) :
    (l.note i c r).owed i = rowsOwed.next (l.owed i) c r := Function.update_self ..

theorem Ledger.note_owed_of_ne (l : Ledger) {i j : TaskId} (hji : j ≠ i) (c : SyncCall)
    (r : c.Answer) : (l.note i c r).owed j = l.owed j := Function.update_of_ne hji _ _

/-- Every row that has ever been owed, with its task. -/
def Ledger.promised (l : Ledger) : List (TaskId × RawTxRow) :=
  l.acked.flatMap fun e => e.2.rows.map fun row => (e.1, row)

theorem Ledger.mem_promised {l : Ledger} {i : TaskId} {row : RawTxRow} :
    (i, row) ∈ l.promised ↔ ∃ t, (i, t) ∈ l.acked ∧ row ∈ t.rows := by
  unfold Ledger.promised
  rw [List.mem_flatMap]
  constructor
  · rintro ⟨⟨j, t⟩, hmem, hrow⟩
    obtain ⟨row', hrow', heq⟩ := List.mem_map.mp hrow
    obtain ⟨rfl, rfl⟩ := Prod.mk.inj heq
    exact ⟨t, hmem, hrow'⟩
  · rintro ⟨t, hmem, hrow⟩
    exact ⟨(i, t), hmem, List.mem_map.mpr ⟨row, hrow, rfl⟩⟩

/--
**The books balance.**  No two rows promised are for the same transaction; a row promised
is still owed, or lost to a closed channel, or pushed, and what has been pushed was pushed
once and is owed no more.
-/
structure Balanced (l : Ledger) (pushed : List (TaskId × RawTxRow)) : Prop where
  indexed : ∀ e ∈ l.acked, e.2.rows.map RawTxRow.txHash = e.2.hashes
  once : (l.promised.map fun e => e.2.txHash).Nodup
  owed : ∀ i row, row ∈ l.owed i → (i, row) ∈ l.promised
  owed_nodup : ∀ i, (l.owed i).Nodup
  paid : ∀ e ∈ pushed, e ∈ l.promised ∧ e.2 ∉ l.owed e.1
  pushed_nodup : pushed.Nodup
  settled : ∀ i row, (i, row) ∈ l.promised →
    row ∈ l.owed i ∨ row ∈ l.missed ∨ (i, row) ∈ pushed

theorem balanced_empty : Balanced .empty [] where
  indexed e he := absurd he (by simp [Ledger.empty])
  once := by simp [Ledger.promised, Ledger.empty]
  owed i row hrow := absurd hrow (by simp [Ledger.empty])
  owed_nodup i := List.nodup_nil
  paid e he := absurd he (by simp)
  pushed_nodup := List.nodup_nil
  settled i row hrow := absurd hrow (by simp [Ledger.promised, Ledger.empty])

section Books

variable {l l' : Ledger} {pushed : List (TaskId × RawTxRow)} {i : TaskId}

/-- A transaction of new hashes is answered `Ok` to a task that owes nothing. -/
theorem Balanced.ack (h : Balanced l pushed) {t : Txn} (howed : l.owed i = []) (ht : t.Indexed)
    (hnew : WritesNew l.acked t) : Balanced (l.note i (.transact t) (.ok ())) pushed := by
  have hacked : (l.note i (.transact t) (.ok ())).acked = (i, t) :: l.acked := rfl
  have howedSelf : (l.note i (.transact t) (.ok ())).owed i = t.rows := by
    rw [Ledger.note_owed_self]
    rfl
  have howedOther : ∀ j, j ≠ i → (l.note i (.transact t) (.ok ())).owed j = l.owed j :=
    fun j hji => l.note_owed_of_ne hji _ _
  have hpromised : (l.note i (.transact t) (.ok ())).promised =
      t.rows.map (fun row => (i, row)) ++ l.promised := rfl
  have hhashes : t.rows.map RawTxRow.txHash = t.hashes := Txn.rows_hashes ht
  have hold : ∀ e, e ∈ l.promised → e ∈ (l.note i (.transact t) (.ok ())).promised := by
    intro e he
    rw [hpromised]
    exact List.mem_append_right _ he
  refine ⟨?_, ?_, ?_, ?_, ?_, h.pushed_nodup, ?_⟩
  · intro e he
    rcases List.mem_cons.mp (hacked ▸ he) with rfl | hmem
    · exact hhashes
    · exact h.indexed e hmem
  · rw [hpromised, List.map_append, List.map_map, List.nodup_append]
    refine ⟨?_, h.once, ?_⟩
    · show (t.rows.map RawTxRow.txHash).Nodup
      rw [hhashes]
      exact hnew.1
    · intro hash hmem hash' hmem' heq
      subst heq
      have hin : hash ∈ t.hashes := by
        rw [← hhashes]
        exact hmem
      obtain ⟨⟨j, row⟩, hrow, rfl⟩ := List.mem_map.mp hmem'
      obtain ⟨u, hu, hrow⟩ := Ledger.mem_promised.mp hrow
      refine hnew.2 _ hin (j, u) hu ?_
      rw [← h.indexed (j, u) hu]
      exact List.mem_map_of_mem hrow
  · intro j row hrow
    by_cases hji : j = i
    · subst hji
      rw [howedSelf] at hrow
      exact Ledger.mem_promised.mpr ⟨t, List.mem_cons_self .., hrow⟩
    · rw [howedOther j hji] at hrow
      exact hold _ (h.owed j row hrow)
  · intro j
    by_cases hji : j = i
    · subst hji
      rw [howedSelf]
      exact List.Nodup.of_map RawTxRow.txHash (hhashes ▸ hnew.1)
    · rw [howedOther j hji]
      exact h.owed_nodup j
  · rintro ⟨j, row⟩ he
    obtain ⟨hpromise, hpaid⟩ := h.paid _ he
    refine ⟨hold _ hpromise, ?_⟩
    by_cases hji : j = i
    · -- The row was promised by an earlier write, so its hash is not one of this write's.
      subst hji
      show row ∉ (l.note j (.transact t) (.ok ())).owed j
      rw [howedSelf]
      intro hrow
      obtain ⟨u, hu, hrow'⟩ := Ledger.mem_promised.mp hpromise
      refine hnew.2 row.txHash ?_ (j, u) hu ?_
      · rw [← hhashes]
        exact List.mem_map_of_mem hrow
      · rw [← h.indexed (j, u) hu]
        exact List.mem_map_of_mem hrow'
    · show row ∉ (l.note i (.transact t) (.ok ())).owed j
      rw [howedOther j hji]
      exact hpaid
  · intro j row hrow
    rw [hpromised] at hrow
    rcases List.mem_append.mp hrow with hnewRow | holdRow
    · obtain ⟨row', hrow', heq⟩ := List.mem_map.mp hnewRow
      obtain ⟨rfl, rfl⟩ := Prod.mk.inj heq
      exact Or.inl (howedSelf ▸ hrow')
    · rcases h.settled j row holdRow with howes | hmissed | hpushed
      · by_cases hji : j = i
        · subst hji
          rw [howed] at howes
          exact absurd howes (by simp)
        · exact Or.inl ((howedOther j hji).symm ▸ howes)
      · exact Or.inr (Or.inl hmissed)
      · exact Or.inr (Or.inr hpushed)

/-- The first row owed is pushed. -/
theorem Balanced.pay (h : Balanced l pushed) {row : RawTxRow} {rest : List RawTxRow}
    (howed : l.owed i = row :: rest) :
    Balanced (l.note i (.push row) true) ((i, row) :: pushed) := by
  have howedSelf : (l.note i (.push row) true).owed i = rest := by
    rw [Ledger.note_owed_self]
    show (l.owed i).tail = rest
    rw [howed]
    rfl
  have howedOther : ∀ j, j ≠ i → (l.note i (.push row) true).owed j = l.owed j :=
    fun j hji => l.note_owed_of_ne hji _ _
  have hnodup : (row :: rest).Nodup := howed ▸ h.owed_nodup i
  have hless : ∀ j r, r ∈ (l.note i (.push row) true).owed j → r ∈ l.owed j := by
    intro j r hr
    by_cases hji : j = i
    · subst hji
      rw [howed]
      exact List.mem_cons_of_mem _ (howedSelf ▸ hr)
    · exact howedOther j hji ▸ hr
  have hhead : row ∈ l.owed i := by
    rw [howed]
    exact List.mem_cons_self ..
  refine ⟨h.indexed, h.once, fun j r hr => h.owed j r (hless j r hr), ?_, ?_, ?_, ?_⟩
  · intro j
    by_cases hji : j = i
    · subst hji
      rw [howedSelf]
      exact (List.nodup_cons.mp hnodup).2
    · rw [howedOther j hji]
      exact h.owed_nodup j
  · intro e he
    rcases List.mem_cons.mp he with rfl | hmem
    · refine ⟨h.owed i row hhead, ?_⟩
      show row ∉ (l.note i (.push row) true).owed i
      rw [howedSelf]
      exact (List.nodup_cons.mp hnodup).1
    · exact ⟨(h.paid e hmem).1, fun hr => (h.paid e hmem).2 (hless _ _ hr)⟩
  · refine List.nodup_cons.mpr ⟨fun hmem => ?_, h.pushed_nodup⟩
    exact (h.paid _ hmem).2 hhead
  · intro j r hr
    rcases h.settled j r hr with howes | hmissed | hpushed
    · by_cases hji : j = i
      · subst hji
        rw [howed] at howes
        rcases List.mem_cons.mp howes with rfl | hmem
        · exact Or.inr (Or.inr (List.mem_cons_self ..))
        · exact Or.inl (howedSelf.symm ▸ hmem)
      · exact Or.inl ((howedOther j hji).symm ▸ howes)
    · exact Or.inr (Or.inl hmissed)
    · exact Or.inr (Or.inr (List.mem_cons_of_mem _ hpushed))

/-- The channel is closed, and the rest of the rows is lost. -/
theorem Balanced.close (h : Balanced l pushed) (row : RawTxRow) :
    Balanced (l.note i (.push row) false) pushed := by
  have howedSelf : (l.note i (.push row) false).owed i = [] := by
    rw [Ledger.note_owed_self]
    rfl
  have howedOther : ∀ j, j ≠ i → (l.note i (.push row) false).owed j = l.owed j :=
    fun j hji => l.note_owed_of_ne hji _ _
  have hmissed : (l.note i (.push row) false).missed = l.owed i ++ l.missed := rfl
  have hless : ∀ j r, r ∈ (l.note i (.push row) false).owed j → r ∈ l.owed j := by
    intro j r hr
    by_cases hji : j = i
    · subst hji
      rw [howedSelf] at hr
      exact absurd hr (by simp)
    · exact howedOther j hji ▸ hr
  refine ⟨h.indexed, h.once, fun j r hr => h.owed j r (hless j r hr), ?_, ?_, h.pushed_nodup, ?_⟩
  · intro j
    by_cases hji : j = i
    · subst hji
      rw [howedSelf]
      exact List.nodup_nil
    · rw [howedOther j hji]
      exact h.owed_nodup j
  · exact fun e he => ⟨(h.paid e he).1, fun hr => (h.paid e he).2 (hless _ _ hr)⟩
  · intro j r hr
    rcases h.settled j r hr with howes | hlost | hpushed
    · by_cases hji : j = i
      · subst hji
        exact Or.inr (Or.inl (hmissed ▸ List.mem_append_left _ howes))
      · exact Or.inl ((howedOther j hji).symm ▸ howes)
    · exact Or.inr (Or.inl (hmissed ▸ List.mem_append_right _ hlost))
    · exact Or.inr (Or.inr hpushed)

end Books

/-! ### The interleavings -/

variable {χ : Type} {rpc : Rpc χ} {moves : χ → χ → Prop} {i : TaskId}

/-- A call that moves no rows leaves the books as they are. -/
theorem Ledger.note_quiet (l : Ledger) {c : SyncCall} (hc : c.IsQuiet) (r : c.Answer) :
    l.note i c r = l := by
  cases c with
  | push row => exact absurd hc fun h => h
  | transact t => exact absurd hc fun h => h
  | _ =>
      have hself : Function.update l.owed i (l.owed i) = l.owed := Function.update_eq_self ..
      show (⟨l.acked, Function.update l.owed i (l.owed i), l.missed⟩ : Ledger) = l
      rw [hself]

/-- Nor does it push a row. -/
theorem pushedRows_quiet {w w' : World χ} {c : SyncCall} {r : c.Answer} (hc : c.IsQuiet)
    (h : handle rpc i w c r w') : pushedRows w'.events = pushedRows w.events := by
  cases handle_step h with
  | stay => rfl
  | @chain c answer chain' _ =>
      have hnote : pushedRows (noteAnswer i c answer) = [] := by
        unfold noteAnswer
        split <;> rfl
      show pushedRows (noteAnswer i c answer ++ w.events) = _
      unfold pushedRows at hnote ⊢
      rw [List.filterMap_append, hnote, List.nil_append]
  | commit _ => exact absurd hc fun h => h
  | offer tip gate => rfl
  | take gate => rfl
  | push row => exact absurd hc fun h => h

/-- **Every call keeps the books in balance**, if it writes new hashes only. -/
theorem Balanced.call {x x' : Booked χ} {c : SyncCall} {r : c.Answer}
    (h : Balanced x.ledger (pushedRows x.world.events))
    (hallows : rowsOwed.Allows (x.ledger.owed i) c) (hH : handle rpc i x.world c r x'.world)
    (hnote : x'.ledger = x.ledger.note i c r) (hnew : AcksNew x x') :
    Balanced x'.ledger (pushedRows x'.world.events) := by
  rw [hnote]
  by_cases hquiet : c.IsQuiet
  · rw [pushedRows_quiet hquiet hH, Ledger.note_quiet _ hquiet]
    exact h
  · cases c with
    | push row =>
        obtain ⟨rest, howed⟩ : ∃ rest, x.ledger.owed i = row :: rest :=
          List.head?_eq_some_iff.mp hallows
        rcases hH with ⟨rfl, hw⟩ | ⟨rfl, hw⟩
        · rw [hw]
          exact h.pay howed
        · rw [hw]
          exact h.close row
    | transact t =>
        obtain ⟨howed, hindexed⟩ : x.ledger.owed i = [] ∧ t.Indexed := hallows
        have hevents : pushedRows x'.world.events = pushedRows x.world.events := by
          rcases hH with ⟨s, -, hw⟩ | ⟨-, hw⟩
          · rw [hw]
            rfl
          · rw [hw]
        rw [hevents]
        cases r with
        | ok u => exact h.ack howed hindexed (hnew i t (congrArg Ledger.acked hnote))
        | error e =>
            have hsame : x.ledger.note i (.transact t) (.error e) = x.ledger := by
              have hself : Function.update x.ledger.owed i (x.ledger.owed i) = x.ledger.owed :=
                Function.update_eq_self ..
              show (⟨x.ledger.acked, Function.update x.ledger.owed i (x.ledger.owed i),
                x.ledger.missed⟩ : Ledger) = x.ledger
              rw [hself]
            rw [hsame]
            exact h
    | _ => exact absurd trivial hquiet

/-- What holds in the runs whose writes repeat no hash. -/
structure BooksKept (c : Config SyncSig TaskId (Booked χ) Unit) : Prop where
  balanced : Balanced c.world.ledger (pushedRows c.world.world.events)
  busy : ∀ i p, c.prog i = some p →
    rowsOwed.Obeys p (fun _ owed => owed = []) (c.world.ledger.owed i)
  idle : ∀ i, c.prog i = none → c.world.ledger.owed i = []

theorem booksKept_init (chain : χ) :
    BooksKept (.idle (.init chain) : Config SyncSig TaskId (Booked χ) Unit) where
  balanced := balanced_empty
  busy i p hp := absurd hp (by simp [Config.idle])
  idle i _ := rfl

/-- The program of one task changes, and the books do not. -/
theorem BooksKept.update {c : Config SyncSig TaskId (Booked χ) Unit} (h : BooksKept c)
    {o : Option (Prog SyncSig Unit)}
    (hbusy : ∀ p, o = some p → rowsOwed.Obeys p (fun _ owed => owed = []) (c.world.ledger.owed i))
    (hidle : o = none → c.world.ledger.owed i = []) :
    BooksKept ⟨c.world, Function.update c.prog i o⟩ where
  balanced := h.balanced
  busy j p hp := by
    by_cases hji : j = i
    · subst hji
      exact hbusy p (by simpa using hp)
    · exact h.busy j p (by simpa [Function.update_of_ne hji] using hp)
  idle j hj := by
    by_cases hji : j = i
    · subst hji
      exact hidle (by simpa using hj)
    · exact h.idle j (by simpa [Function.update_of_ne hji] using hj)

/-- **Every move of a run whose writes repeat no hash.** -/
theorem BooksKept.move {c c' : Config SyncSig TaskId (Booked χ) Unit} (h : BooksKept c)
    (hm : Move ((bookedIndexer rpc moves).restrict AcksNew) c c') : BooksKept c' := by
  cases hm with
  | start i p hidle hs =>
      refine h.update (fun q hq => ?_) (by simp)
      obtain rfl := Option.some.inj hq
      rw [h.idle i hidle]
      exact hs.settling
  | @step i p p' x hp hs =>
      cases hs with
      | @call _ _ _ call r k hH =>
          obtain ⟨⟨hhandle, hnote⟩, hnew⟩ := hH
          obtain ⟨hallows, hrest⟩ := (h.busy i _ hp).call r
          have howed : ∀ j, j ≠ i → x.ledger.owed j = c.world.ledger.owed j := by
            intro j hji
            rw [hnote]
            exact Ledger.note_owed_of_ne _ hji _ _
          refine ⟨h.balanced.call hallows hhandle hnote hnew, fun j q hq => ?_, fun j hj => ?_⟩
          · by_cases hji : j = i
            · subst hji
              obtain rfl := Option.some.inj ((by simpa using hq) : some _ = some q)
              show rowsOwed.Obeys _ _ (x.ledger.owed j)
              rw [hnote, Ledger.note_owed_self]
              exact hrest
            · show rowsOwed.Obeys _ _ (x.ledger.owed j)
              rw [howed j hji]
              exact h.busy j q (by simpa [Function.update_of_ne hji] using hq)
          · by_cases hji : j = i
            · subst hji
              exact absurd hj (by simp)
            · show x.ledger.owed j = []
              rw [howed j hji]
              exact h.idle j (by simpa [Function.update_of_ne hji] using hj)
      | loop _ body s k =>
          refine h.update (fun q hq => ?_) (by simp)
          obtain rfl := Option.some.inj hq
          exact (h.busy i _ hp).loop
  | finish i hp =>
      exact h.update (fun q hq => absurd hq (by simp)) fun _ => (h.busy i _ hp).pure
  | @env x he =>
      obtain ⟨hs, hledger⟩ := he
      obtain ⟨-, hevents⟩ := hs.unchanged
      refine ⟨?_, fun j p hp => ?_, fun j hj => ?_⟩
      · show Balanced x.ledger (pushedRows x.world.events)
        rw [hledger, hevents]
        exact h.balanced
      · show rowsOwed.Obeys p _ (x.ledger.owed j)
        rw [hledger]
        exact h.busy j p hp
      · show x.ledger.owed j = []
        rw [hledger]
        exact h.idle j hj
  | crash hc => exact absurd hc fun h => h

theorem booksKept {chain : χ} {c : Config SyncSig TaskId (Booked χ) Unit}
    (hc : Reachable ((bookedIndexer rpc moves).restrict AcksNew) (.init chain) c) :
    BooksKept c := by
  induction hc with
  | init => exact booksKept_init chain
  | move _ hm ih => exact ih.move hm

/-! ### At most one row, and exactly one -/

/-- Two promised rows for one transaction are one row of one task. -/
theorem Balanced.promised_unique {l : Ledger} {pushed : List (TaskId × RawTxRow)}
    (h : Balanced l pushed) {e e' : TaskId × RawTxRow} (he : e ∈ l.promised) (he' : e' ∈ l.promised)
    (heq : e.2.txHash = e'.2.txHash) : e = e' :=
  List.inj_on_of_nodup_map h.once he he' heq

theorem Balanced.hashes_nodup {l : Ledger} {pushed : List (TaskId × RawTxRow)}
    (h : Balanced l pushed) : (pushed.map fun e => e.2.txHash).Nodup := by
  refine List.Nodup.map_on (fun e he e' he' heq => ?_) h.pushed_nodup
  exact h.promised_unique (h.paid e he).1 (h.paid e' he').1 heq

theorem pushedFor_eq_count (hash : Hash) (events : List Event) :
    pushedFor hash events = ((pushedRows events).map fun e => e.2.txHash).count hash := by
  unfold pushedFor
  rw [List.count, List.countP_map]
  exact List.countP_congr fun e _ => by simp

/--
**One analytics row for each transaction**, in the runs whose writes repeat no hash: in
every state reached at most one row has been pushed for any hash, and exactly one for a
transaction of a write that was answered `Ok`, once its task has nothing left to push for
it and unless the channel was closed.  A task that has something left to push makes no
other call before.
-/
theorem one_row_per_transaction {chain : χ} {c : Config SyncSig TaskId (Booked χ) Unit}
    (hc : Reachable ((bookedIndexer rpc moves).restrict AcksNew) (.init chain) c) :
    (∀ hash, pushedFor hash c.world.world.events ≤ 1) ∧
    (∀ i t, (i, t) ∈ c.world.ledger.acked →
      (∀ row ∈ t.rows, row ∉ c.world.ledger.owed i ∧ row ∉ c.world.ledger.missed) →
      ∀ hash ∈ t.hashes, pushedFor hash c.world.world.events = 1) ∧
    ∀ i row rest, c.world.ledger.owed i = row :: rest →
      c.prog i ≠ none ∧ c.prog i ≠ some (.pure ()) ∧
      ∀ call k r w', c.prog i = some (.call call k) →
        handle rpc i c.world.world call r w' → call = .push row := by
  have hbooks := booksKept hc
  have hnodup := hbooks.balanced.hashes_nodup
  refine ⟨fun hash => ?_, fun i t hacked hdone hash hmem => ?_, fun i row rest howed => ?_⟩
  · rw [pushedFor_eq_count]
    exact List.nodup_iff_count_le_one.mp hnodup hash
  · obtain ⟨row, hrow, rfl⟩ : ∃ row ∈ t.rows, row.txHash = hash := by
      rw [← hbooks.balanced.indexed (i, t) hacked] at hmem
      exact List.mem_map.mp hmem
    have hpushed : (i, row) ∈ pushedRows c.world.world.events := by
      obtain ⟨hpaid, hopen⟩ := hdone row hrow
      rcases hbooks.balanced.settled i row (Ledger.mem_promised.mpr ⟨t, hacked, hrow⟩) with
        howes | hmissed | hpushed
      · exact absurd howes hpaid
      · exact absurd hmissed hopen
      · exact hpushed
    rw [pushedFor_eq_count]
    exact List.count_eq_one_of_mem hnodup (List.mem_map.mpr ⟨(i, row), hpushed, rfl⟩)
  · refine ⟨fun hp => ?_, fun hp => ?_, fun call k r w' hp hH => ?_⟩
    · exact absurd (hbooks.idle i hp) (by simp [howed])
    · exact absurd (hbooks.busy i _ hp).pure (by simp [howed])
    · have hallows := ((hbooks.busy i _ hp).call r).1
      rw [howed] at hallows
      cases call with
      | push row' =>
          obtain rfl := Option.some.inj (hallows : some row = some row')
          rfl
      | transact t => exact absurd hallows.1 (by simp)
      | _ => exact absurd hallows (List.cons_ne_nil row rest)

/-! ### Two writers of one height -/

/-- The single answer to each call, with the books kept. -/
def bookServe (respond : Server ChainSig χ) (i : TaskId) : Server SyncSig (Booked χ) :=
  fun x call =>
    let answer := serve respond i x.world call
    (answer.1, ⟨answer.2, x.ledger.note i call answer.1⟩)

theorem book_bookServe {respond : Server ChainSig χ} (h : Answers rpc respond)
    (moves : χ → χ → Prop) (i : TaskId) (x : Booked χ) (call : SyncCall) :
    (bookedIndexer rpc moves).handler i x call (bookServe respond i x call).1
      (bookServe respond i x call).2 :=
  ⟨handle_serve h i x.world call, rfl⟩

theorem run_of_bookExec {respond : Server ChainSig χ} (hr : Answers rpc respond)
    (moves : χ → χ → Prop) (i : TaskId) (fuel : Nat) (x : Booked χ) (p : Prog SyncSig Unit)
    (check : Booked χ × Unit → Bool) (h : (exec (bookServe respond i) fuel x p).any check = true) :
    ∃ x' a, Run ((bookedIndexer rpc moves).handler i) x p x' a ∧ check (x', a) = true :=
  exists_run_of_execWhile (fun x call _ => book_bookServe hr moves i x call) fuel x p check h

/-- A backfill pass and a tail walk that push analytics rows. -/
def analyticsBackfill : Prog SyncSig Unit :=
  discard (runBackfill noLag (Tuning.ofEnv none none) true)
def analyticsWalk (tip : Int) : Prog SyncSig Unit := discard (handleFinalized noLag true tip)

/-- The backfill has fetched block 0 and is about to commit it. -/
def backfillHolding : Booked Stream × Prog SyncSig Unit :=
  advanceN (bookServe forkA.respond 0) 16 (.init [], analyticsBackfill)

/--
The backfill holds block 0 when the tail walks to it, commits it and pushes its row.  The
backfill then commits the same block: every insert is suppressed, and the row is pushed
again.
-/
theorem backfill_and_walk_push_twice :
    ∃ c, Reachable (bookedIndexer forkA.rpc fun _ _ => False) (.init []) c ∧
      pushedFor (with0x "t0") c.world.world.events = 2 := by
  have hstart : Reachable (bookedIndexer forkA.rpc fun _ _ => False) (.init []) _ :=
    (Reachable.init).move (Move.start 0 analyticsBackfill rfl (AnalyticsTask.backfill _ _))
  have hfetched := hstart.steps (by simp)
    (advanceN_steps (book_bookServe forkA.answers (fun _ _ => False) 0) 16 (.init [])
      analyticsBackfill)
  obtain ⟨x, _, hwalk, hcheck⟩ := run_of_bookExec forkA.answers (fun _ _ => False) 1 100
    backfillHolding.1 (analyticsWalk 0)
    (fun r => (exec (bookServe forkA.respond 0) 100 r.1 backfillHolding.2).any
      fun r => pushedFor (with0x "t0") r.1.world.events = 2) (by decide +kernel)
  have hwalked := hfetched.run (i := 1) (by simp [Config.idle]) (AnalyticsTask.finalized _ 0) hwalk
  obtain ⟨x', _, hrest, htwice⟩ := run_of_bookExec forkA.answers (fun _ _ => False) 0
    100 x backfillHolding.2 _ hcheck
  exact ⟨_, hwalked.steps (by simp [backfillHolding]) hrest.steps, of_decide_eq_true htwice⟩

instance (acked : List (TaskId × Txn)) (t : Txn) : Decidable (WritesNew acked t) :=
  inferInstanceAs (Decidable (_ ∧ _))

/-- Whether the call writes new hashes only, if it writes. -/
def newCall (x : Booked χ) : SyncCall → Bool
  | .transact t => decide (WritesNew x.ledger.acked t)
  | _ => true

/-- Answers to calls that write new hashes only are answers of the conditioned runs. -/
theorem bookServe_acksNew {respond : Server ChainSig χ} (hr : Answers rpc respond)
    (moves : χ → χ → Prop) (i : TaskId) (x : Booked χ) (call : SyncCall)
    (hok : newCall x call = true) :
    ((bookedIndexer rpc moves).restrict AcksNew).handler i x call
      (bookServe respond i x call).1 (bookServe respond i x call).2 := by
  refine ⟨book_bookServe hr moves i x call, fun j t hacked => ?_⟩
  by_cases hquiet : call.IsQuiet
  · have hsame : (x.ledger.note i call (bookServe respond i x call).1).acked = x.ledger.acked := by
      rw [Ledger.note_quiet _ hquiet]
    exact absurd (hsame.symm.trans hacked) (by simp)
  · cases call with
    | push row => exact absurd hacked (by simp [bookServe, serve, Ledger.note])
    | transact u =>
        have hnew : WritesNew x.ledger.acked u := of_decide_eq_true hok
        rcases hr : (serve respond i x.world (.transact u)).1 with e | v
        · exact absurd hacked (by simp [bookServe, hr, Ledger.note])
        · have hhead : (i, u) :: x.ledger.acked = (j, t) :: x.ledger.acked := by
            simpa [bookServe, hr, Ledger.note] using hacked
          obtain ⟨-, rfl⟩ := Prod.mk.inj (List.cons.inj hhead).1
          exact hnew
    | _ => exact absurd trivial hquiet

/-- A backfill that runs by itself pushes one row for the transaction of block 0. -/
theorem one_row_per_transaction_backfill :
    ∃ c, Reachable ((bookedIndexer forkA.rpc fun _ _ => False).restrict AcksNew) (.init []) c ∧
      pushedFor (with0x "t0") c.world.world.events = 1 ∧
      ∀ hash, pushedFor hash c.world.world.events ≤ 1 := by
  obtain ⟨x, _, hrun, hcheck⟩ := exists_run_of_execWhile
    (bookServe_acksNew forkA.answers (fun _ _ => False) 0) 100 (.init []) analyticsBackfill
    (fun r => pushedFor (with0x "t0") r.1.world.events = 1) (by decide +kernel)
  have hstart : Reachable ((bookedIndexer forkA.rpc fun _ _ => False).restrict AcksNew)
      (Booked.init []) _ := Reachable.init
  have hreach := hstart.run rfl (AnalyticsTask.backfill _ _) hrun
  exact ⟨_, hreach, of_decide_eq_true hcheck, (one_row_per_transaction hreach).1⟩

end SentrixIndexer
