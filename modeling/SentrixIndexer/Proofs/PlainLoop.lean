/-
The plain loop: ingest the heights one after another.

When each height has one answer, ingesting it is one transaction, which `ingestTxn` names.
`Reached n s₀ p s` says of a store `s` that some transactions have written to `s₀` just
the bundles of the heights up to `p`, and left the cursor there.  Such a store is
determined but for the order of its rows (`Reached.alike`), and the plain loop can always
get to it (`Reached.plain`): whether a block row is refused depends on the rows before
it only, not on how they were grouped.
-/
import SentrixIndexer.Proofs.Pipeline
import SentrixIndexer.Proofs.Replay
import SentrixIndexer.Sync.Nodes
import SentrixIndexer.Sync.Tail

namespace SentrixIndexer

open Effect Relational

/-! ### Block rows that fit -/

/-- Each row finds its height taken or its hash free, when its turn comes. -/
def Fits : List Block → Table Block.height → Prop
  | [], _ => True
  | b :: rest, t =>
      (t.contains b.height = true ∨ ∀ r ∈ t.rows, r.hash ≠ b.hash) ∧ Fits rest (t.insertNew b)

theorem InOrder.blocksOf {bundles : List BlockBundle} (h : InOrder bundles) :
    blocksOf bundles = bundles.map BlockBundle.block := by
  refine sortByKey_of_sorted (List.pairwise_map.mpr ?_)
  exact h.ascending.imp fun hlt => le_of_lt hlt

namespace NodeTables

/-- Every log of the tables carries the height it is listed under. -/
def FaithfulLogs (n : NodeTables) : Prop :=
  ∀ h logs, n.logs h = .ok logs → ∀ l ∈ logs, ∀ m, l.blockNumber = some m → heightOfU64 m = h

/-- The answer of `logs_in_range` for the single height. -/
def logsAt (n : NodeTables) (h : Int) : Except ChainError (List RpcLog) :=
  if heightAsU64 h = none then
    .error (.invalidArgument ("logs_in_range: negative from " ++ heightDebug h))
  else n.logs h

/-- What fetching the height comes to. -/
def outcome (n : NodeTables) (h : Int) : Except SyncError (Option BlockBundle) := do
  match ← (n.block h).mapError .chain with
  | none => return none
  | some block =>
      let logs ← (n.logsAt h).mapError .chain
      let bundle ← assemble block logs
      return some bundle

/-- The bundle at the height, if there is one. -/
def bundleAt (n : NodeTables) (h : Int) : Option BlockBundle :=
  match n.outcome h with
  | .ok o => o
  | .error _ => none

theorem bundleAt_of_ok {n : NodeTables} {h : Int} {o : Option BlockBundle}
    (ho : n.outcome h = .ok o) : n.bundleAt h = o := by
  unfold bundleAt
  rw [ho]

private theorem mapError_ok {α : Type} {x : Except ChainError α} {a : α}
    (h : x.mapError SyncError.chain = .ok a) : x = .ok a := by
  cases x with
  | error e => exact absurd h (by simp [Except.mapError])
  | ok b => exact congrArg Except.ok (Except.ok.inj h)

theorem outcome_none {n : NodeTables} {h : Int} (ho : n.outcome h = .ok none) :
    n.block h = .ok none := by
  unfold outcome at ho
  obtain ⟨answer, hblock, ho⟩ := bind_ok.mp ho
  rcases answer with _ | block
  · exact mapError_ok hblock
  · obtain ⟨logs, -, ho⟩ := bind_ok.mp ho
    obtain ⟨bundle, -, ho⟩ := bind_ok.mp ho
    exact absurd (Except.ok.inj ho) (by simp)

theorem outcome_some {n : NodeTables} {h : Int} {b : BlockBundle}
    (ho : n.outcome h = .ok (some b)) :
    ∃ block logs, n.block h = .ok (some block) ∧ n.logsAt h = .ok logs ∧
      assemble block logs = .ok b := by
  unfold outcome at ho
  obtain ⟨answer, hblock, ho⟩ := bind_ok.mp ho
  rcases answer with _ | block
  · exact absurd (Except.ok.inj ho) (by simp)
  · obtain ⟨logs, hlogs, ho⟩ := bind_ok.mp ho
    obtain ⟨bundle, hb, ho⟩ := bind_ok.mp ho
    obtain rfl := Option.some.inj (Except.ok.inj ho)
    exact ⟨block, logs, mapError_ok hblock, mapError_ok hlogs, hb⟩

theorem outcome_of_some {n : NodeTables} {h : Int} {block : NativeBlockResponse}
    {logs : List RpcLog} {b : BlockBundle} (hblock : n.block h = .ok (some block))
    (hlogs : n.logsAt h = .ok logs) (hb : assemble block logs = .ok b) :
    n.outcome h = .ok (some b) := by
  unfold outcome
  rw [hblock, hlogs]
  show (assemble block logs >>= _ : Except SyncError (Option BlockBundle)) = _
  rw [hb]
  rfl

theorem outcome_height {n : NodeTables} (hn : n.Faithful) {h : Int} {b : BlockBundle}
    (ho : n.outcome h = .ok (some b)) : b.block.height = h := by
  obtain ⟨block, logs, hblock, -, hb⟩ := outcome_some ho
  exact (assemble_ok hb).2.1.trans (hn h block hblock)

end NodeTables

/-- The transaction that ingests what the height came to. -/
def ingestTxn (h : Int) : Option BlockBundle → Txn
  | none => .writeCursor h 0
  | some b => .writeBlock b

theorem ingestTxn_forward (h : Int) (o : Option BlockBundle) : (ingestTxn h o).Forward := by
  cases o with
  | none => exact trivial
  | some b => exact trivial

theorem ingestTxn_bundles (h : Int) (o : Option BlockBundle) :
    (ingestTxn h o).bundles = o.toList := by
  cases o with
  | none => rfl
  | some b => rfl

/-! ### Stores the plain loop gets to -/

namespace NodeTables

/-- The bundles at the heights, in order. -/
def bundlesOn (n : NodeTables) (hs : List Int) : List BlockBundle := hs.filterMap n.bundleAt

end NodeTables

/-- The same rows, and the same cursor. -/
structure Alike (s s' : Store) : Prop where
  tables : SameTables s s'
  cursor : readCursor s = readCursor s'

/--
From `s₀` on, transactions have written the bundles of the heights up to `p` and
nothing else, and the cursor is at `p`.
-/
structure Reached (n : NodeTables) (s₀ : Store) (p : Int) (s : Store) : Prop where
  le : s₀.cursor ≤ p
  fine : ∀ h, s₀.cursor < h → h ≤ p → ∃ o, n.outcome h = .ok o
  written : ∃ ts, (∀ t ∈ ts, t.Forward) ∧ forEach Txn.run ts s₀ = .ok s ∧
    ts.flatMap Txn.bundles = n.bundlesOn (inclusive (s₀.cursor + 1) p)
  cursor : readCursor s = if p = s₀.cursor then readCursor s₀ else some p

namespace Reached

variable {n : NodeTables} {s₀ s s' : Store} {p : Int}

theorem refl (n : NodeTables) (s₀ : Store) : Reached n s₀ s₀.cursor s₀ where
  le := le_rfl
  fine h hlt hle := absurd hlt (by omega)
  written := by
    refine ⟨[], fun t ht => absurd ht (by simp), rfl, ?_⟩
    rw [inclusive_of_lt (by omega)]
    rfl
  cursor := by rw [if_pos rfl]

theorem store_cursor (h : Reached n s₀ p s) : s.cursor = p := by
  unfold Store.cursor
  rw [h.cursor]
  by_cases hp : p = s₀.cursor
  · rw [if_pos hp, hp]
    rfl
  · rw [if_neg hp]
    rfl

/-- **One more transaction**, which writes the next heights and advances over them. -/
theorem step (h : Reached n s₀ p s) {t : Txn} {q : Int} (hf : t.Forward)
    (hrun : t.run s = .ok s') (hpq : p < q) (htarget : t.target = some q)
    (hbundles : t.bundles = n.bundlesOn (inclusive (p + 1) q))
    (hfine : ∀ k, p < k → k ≤ q → ∃ o, n.outcome k = .ok o) : Reached n s₀ q s' where
  le := by have := h.le; omega
  fine k hlt hle := by
    by_cases hk : k ≤ p
    · exact h.fine k hlt hk
    · exact hfine k (by omega) hle
  written := by
    obtain ⟨ts, hfs, hruns, hall⟩ := h.written
    refine ⟨ts ++ [t], ?_, ?_, ?_⟩
    · intro u hu
      rcases List.mem_append.mp hu with hold | hnew
      · exact hfs u hold
      · exact List.mem_singleton.mp hnew ▸ hf
    · rw [forEach_append]
      exact bind_ok.mpr ⟨s, hruns, bind_ok.mpr ⟨s', hrun, rfl⟩⟩
    · have hle := h.le
      have hsplit : inclusive (s₀.cursor + 1) q = _ :=
        inclusive_append p (by omega) (le_of_lt hpq)
      rw [List.flatMap_append, hall, List.flatMap_singleton, hbundles, hsplit]
      exact List.filterMap_append.symm
  cursor := by
    have hle := h.le
    obtain ⟨_, _, _, _, -, -, -, -, hw⟩ := t.run_written hf hrun
    rw [hw.cursor, htarget, if_neg (by omega)]
    have hcur := h.store_cursor
    unfold Store.cursor at hcur
    rcases hr : readCursor s with _ | c
    · rfl
    · rw [hr] at hcur
      obtain rfl : c = p := hcur
      exact congrArg some (max_eq_right (le_of_lt hpq))

end Reached

/-! ### Programs that run with no other writer -/

section Undisturbed

variable {χ : Type}

/-- Cancellation, at any moment, is all that happens from outside. -/
def Cancels (w w' : World χ) : Prop := w' = w ∨ w' = { w with cancelled := true }

/-- The surroundings of a program that is the only writer. -/
abbrev undisturbed (rpc : Rpc χ) (i : TaskId) : Handler SyncSig (World χ) :=
  (handle rpc i).under Cancels

/-- Nothing is written, and a cancellation stays. -/
structure Quiet (w w' : World χ) : Prop where
  store : w'.store = w.store
  cancelled : w.cancelled = true → w'.cancelled = true

theorem Quiet.refl (w : World χ) : Quiet w w := ⟨rfl, fun h => h⟩

theorem Quiet.trans {w₁ w₂ w₃ : World χ} (h : Quiet w₁ w₂) (h' : Quiet w₂ w₃) : Quiet w₁ w₃ :=
  ⟨h'.store.trans h.store, fun hc => h'.cancelled (h.cancelled hc)⟩

theorem quiet_trans (w₁ w₂ w₃ : World χ) : Quiet w₁ w₂ → Quiet w₂ w₃ → Quiet w₁ w₃ :=
  Quiet.trans

theorem Cancels.quiet {w w' : World χ} (h : Cancels w w') : Quiet w w' := by
  rcases h with rfl | rfl
  · exact Quiet.refl _
  · exact ⟨rfl, fun _ => rfl⟩

/-- Calls that write nothing. -/
def SyncCall.Reads : SyncCall → Prop
  | .transact _ => False
  | _ => True

theorem SyncCall.Reads.quiet {rpc : Rpc χ} {i : TaskId} {w w' : World χ} {c : SyncCall}
    {r : c.Answer} (hc : c.Reads) (h : undisturbed rpc i w c r w') : Quiet w w' := by
  obtain ⟨w₁, hcancel, hH⟩ := h
  refine hcancel.quiet.trans ?_
  cases handle_step hH with
  | stay => exact Quiet.refl _
  | chain _ => exact ⟨rfl, fun h => h⟩
  | commit _ => exact absurd hc fun hc => hc
  | offer tip gate => exact ⟨rfl, fun h => h⟩
  | take gate => exact ⟨rfl, fun h => h⟩
  | push row => exact ⟨rfl, fun h => h⟩

/-- The precondition of a program that only reads, whatever runs besides it. -/
abbrev Reading (rpc : Rpc χ) (i : TaskId) {α : Type} (p : Prog SyncSig α)
    (Q : α → World χ → Prop) (w : World χ) : Prop :=
  wp (undisturbed rpc i) (fun _ => True) (fun _ _ => True) Quiet p Q w

/-- The precondition of a program that is the only one to run. -/
abbrev Alone (rpc : Rpc χ) (i : TaskId) {α : Type} (p : Prog SyncSig α)
    (Q : α → World χ → Prop) (w : World χ) : Prop := wpAlone (undisturbed rpc i) p Q w

variable {rpc : Rpc χ} {i : TaskId} {α : Type}

theorem reading_ask {c : SyncCall} {Q : c.Answer → World χ → Prop} {w : World χ}
    (hc : c.Reads) (h : ∀ w₁ r w₂, undisturbed rpc i w₁ c r w₂ → Q r w₂) :
    Reading rpc i (Prog.ask c) Q w :=
  fun w₁ _ _ r w₂ hH => ⟨trivial, hc.quiet hH, h w₁ r w₂ hH⟩

/-- A program that only reads leaves the store as it is. -/
theorem Reading.alone {p : Prog SyncSig α} {Q : α → World χ → Prop} {w : World χ}
    (h : Reading rpc i p Q w) : Alone rpc i p (fun a w' => Quiet w w' ∧ Q a w') w := by
  have hamong : wp (undisturbed rpc i) (fun _ => True) Quiet Quiet p Q w :=
    wp_weaken (fun _ _ _ => trivial) (fun _ _ h => h) h
  refine wp_weaken ?_ (fun _ _ _ => trivial)
    (wp_since Quiet.refl quiet_trans (fun _ _ h => h) hamong)
  rintro w w' rfl
  exact Quiet.refl w

/-- What a transaction leaves: it commits, or fails and changes nothing. -/
structure TxnPost (t : Txn) (w : World χ) (r : Except SyncError Unit) (w' : World χ) : Prop where
  cancelled : w.cancelled = true → w'.cancelled = true
  store : t.run w.store = .ok w'.store ∨ (∃ e, r = .error e) ∧ w'.store = w.store

theorem TxnPost.committed {t : Txn} {w w' : World χ} (h : TxnPost t w (.ok ()) w') :
    t.run w.store = .ok w'.store := by
  rcases h.store with hrun | ⟨⟨e, he⟩, -⟩
  · exact hrun
  · exact absurd he (by simp)

theorem alone_transact (t : Txn) (w : World χ) :
    Alone rpc i (Script.toProgE (transact t)).run (TxnPost t w) w := by
  refine wpAlone_ask.mpr fun r w' hH => ?_
  obtain ⟨w₁, hcancel, hH⟩ := hH
  have hq := hcancel.quiet
  rcases hH with ⟨s, hs, rfl⟩ | ⟨he, rfl⟩
  · exact ⟨hq.cancelled, Or.inl (by rw [← hq.store]; exact hs)⟩
  · exact ⟨hq.cancelled, Or.inr ⟨he, hq.store⟩⟩

theorem reading_pushAll (rows : List RawTxRow) :
    ∀ w : World χ, Reading rpc i (pushAll rows).toProg (fun _ _ => True) w := by
  induction rows with
  | nil => exact fun _ => trivial
  | cons row rest ih =>
      intro w
      refine wp_script_bind (reading_ask trivial fun w₁ accepted w₂ _ => ?_)
      cases accepted with
      | true => exact ih w₂
      | false => exact trivial

/-- A transaction, and what the analytics buffer takes of its rows. -/
theorem alone_write (t : Txn) (analytics : Bool) (rows : List RawTxRow) (w : World χ) :
    Alone rpc i (Script.toProgE (do
      transact t
      if analytics then ExceptT.lift (pushAll rows) : SyncScript Unit)).run (TxnPost t w) w := by
  refine wp_scriptE_bind (wp_mono (fun r w₁ hr => ?_) (alone_transact t w))
  rcases r with e | u
  · exact hr
  · cases analytics with
    | false => exact hr
    | true =>
        refine wp_script_bind (wp_mono (fun _ w₂ hpush => ?_) (reading_pushAll rows w₁).alone)
        refine ⟨fun hc => hpush.1.cancelled (hr.cancelled hc), Or.inl ?_⟩
        rw [hpush.1.store]
        exact hr.committed

end Undisturbed

/-! ### Fixed answers -/

section Fixed

variable {n : NodeTables} {i : TaskId} {α : Type}

theorem reading_chainCall {c : ChainCall} {x : c.Answer} (hx : ∀ stream, (n.respond stream c).1 = x)
    (w : World Stream) : Reading n.rpc i (chainCall c).toProg (fun r _ => r = x) w := by
  refine reading_ask trivial fun w₁ r w₂ hH => ?_
  obtain ⟨w₃, -, chain', hr, -⟩ := hH
  exact (Prod.mk.inj hr).1.trans (hx w₃.chain)

/-- A retried call with a fixed answer comes to this answer. -/
theorem reading_withRetry {op : Script SyncSig (Except ChainError α)} {x : Except ChainError α}
    (hop : ∀ w, Reading n.rpc i op.toProg (fun r _ => r = x) w) (w : World Stream) :
    Reading n.rpc i (Script.toProgE (withRetry op)).run
      (fun r _ => r = x.mapError SyncError.chain) w := by
  have hsleep : ∀ nanos w, Reading n.rpc i (sleepFor nanos).toProg (fun _ _ => True) w :=
    fun nanos w => reading_ask trivial fun _ _ _ _ => trivial
  refine wp_script_bind (wp_mono (fun r w₁ hr => ?_) (wp_retryFrom hop hsleep _ _ w))
  subst hr
  cases r with
  | ok v => rfl
  | error e => rfl

theorem reading_logs (h : Int) (w : World Stream) :
    Reading n.rpc i (ChainProvider.logsInRange h h).toProg (fun r _ => r = n.logsAt h) w := by
  unfold ChainProvider.logsInRange logsInRange NodeTables.logsAt
  rw [if_neg (lt_irrefl h)]
  by_cases hneg : heightAsU64 h = none
  · rw [if_pos hneg, if_pos hneg]
    exact rfl
  · rw [if_neg hneg, if_neg hneg, if_neg hneg]
    exact reading_chainCall (fun _ => rfl) w

/-- **A fetch comes to the outcome of its height**, whatever runs besides it. -/
theorem reading_fetchOne (h : Int) (w : World Stream) :
    Reading n.rpc i (fetchOne h).run.toProg (fun r _ => r = n.outcome h) w := by
  refine wp_scriptE_bind (wp_mono (fun r w₁ hr => ?_)
    (reading_withRetry (x := n.block h) (reading_chainCall fun _ => rfl) w))
  subst hr
  unfold NodeTables.outcome
  rcases n.block h with e | none | block
  · rfl
  · rfl
  · refine wp_scriptE_bind (wp_mono (fun r w₂ hr => ?_) (reading_withRetry (reading_logs h) w₁))
    subst hr
    rcases n.logsAt h with e | logs
    · rfl
    · show Reading n.rpc i (Script.toProgE (liftM (assemble block logs) >>= _)).run _ w₂
      refine wp_scriptE_bind ?_
      rcases hb : assemble block logs with e | b
      · show _ = (assemble block logs >>= _ : Except SyncError (Option BlockBundle))
        rw [hb]
        rfl
      · show _ = (assemble block logs >>= _ : Except SyncError (Option BlockBundle))
        rw [hb]
        rfl

theorem ingestTxn_target (hn : n.Faithful) {h : Int}
    {o : Option BlockBundle} (ho : n.outcome h = .ok o) : (ingestTxn h o).target = some h := by
  cases o with
  | none => rfl
  | some b => exact congrArg some (NodeTables.outcome_height hn ho)

/-- Ingesting one height is one step of the plain loop. -/
theorem Reached.ingest (hn : n.Faithful) {s₀ s s' : Store} {p : Int}
    (h : Reached n s₀ p s) {o : Option BlockBundle} (ho : n.outcome (p + 1) = .ok o)
    (hrun : (ingestTxn (p + 1) o).run s = .ok s') : Reached n s₀ (p + 1) s' := by
  refine h.step (ingestTxn_forward _ o) hrun (by omega) (ingestTxn_target hn ho) ?_ ?_
  · rw [ingestTxn_bundles, inclusive_of_le le_rfl, inclusive_of_lt (by omega)]
    unfold NodeTables.bundlesOn
    rw [List.filterMap_cons, NodeTables.bundleAt_of_ok ho]
    cases o with
    | none => rfl
    | some b => rfl
  · intro k hlt hle
    obtain rfl : k = p + 1 := by omega
    exact ⟨o, ho⟩

theorem run_chainCall {c : ChainCall} (w : World Stream) :
    ∃ w', Run (undisturbed n.rpc i) w (chainCall c).toProg w' (n.respond w.chain c).1 ∧
      w'.store = w.store :=
  ⟨_, Run.call ⟨w, Or.inl rfl, _, rfl, rfl⟩ (Run.pure _ _), rfl⟩

/-- A call that succeeds at once is not retried. -/
theorem run_withRetry {op : Script SyncSig (Except ChainError α)} {w w' : World Stream} {v : α}
    (h : Run (undisturbed n.rpc i) w op.toProg w' (.ok v)) :
    Run (undisturbed n.rpc i) w (Script.toProgE (withRetry op)).run w' (.ok v) := by
  have hretry : Run (undisturbed n.rpc i) w
      (retryWithBackoff sleepFor .default op).toProg w' (.ok v) := by
    unfold retryWithBackoff
    generalize BackoffConfig.default.maxAttempts - 1 = left
    unfold retryFrom
    show Run _ w (Script.bind op _).toProg w' _
    rw [Script.toProg_bind]
    exact run_bind.mpr ⟨w', .ok v, h, Run.pure _ _⟩
  show Run _ w (Script.bind _ _).toProg w' _
  rw [Script.toProg_bind]
  exact run_bind.mpr ⟨w', .ok v, hretry, Run.pure _ _⟩

/-- Two scripts that succeed in a row. -/
theorem run_seq {β : Type} {p : SyncScript α} {f : α → SyncScript β} {w w₁ w' : World Stream}
    {a : α} {r : Except SyncError β}
    (hp : Run (undisturbed n.rpc i) w (Script.toProgE p).run w₁ (.ok a))
    (hf : Run (undisturbed n.rpc i) w₁ (Script.toProgE (f a)).run w' r) :
    Run (undisturbed n.rpc i) w (Script.toProgE (p >>= f)).run w' r := by
  rw [Script.toProgE_bind]
  exact run_bindE.mpr (Or.inl ⟨w₁, a, hp, hf⟩)

theorem run_logs {h : Int} {logs : List RpcLog} (hlogs : n.logsAt h = .ok logs)
    (w : World Stream) :
    ∃ w', Run (undisturbed n.rpc i) w (ChainProvider.logsInRange h h).toProg w' (.ok logs) ∧
      w'.store = w.store := by
  unfold NodeTables.logsAt at hlogs
  unfold ChainProvider.logsInRange logsInRange
  rw [if_neg (lt_irrefl h)]
  by_cases hneg : heightAsU64 h = none
  · exact absurd hlogs (by simp [hneg])
  · rw [if_neg hneg] at hlogs
    rw [if_neg hneg, if_neg hneg, ← hlogs]
    exact run_chainCall w

end Fixed

end SentrixIndexer
