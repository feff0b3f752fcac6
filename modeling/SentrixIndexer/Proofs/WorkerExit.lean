/-
When the background workers end.

The CoinBlast worker and the contract detector pass over most failures and go on, but a few
of their calls are made with `?`: the curves at boot, the cursor, the tip once its retries
are spent, the candidates of a tick.  A failure of one of these ends the worker.
`SteadyAnswer` and `DetectorAnswer` say that none of them fails for good before the token is
cancelled; every other call may fail as often as it likes.
-/
import SentrixIndexer.Coinblast.Nodes
import SentrixIndexer.Effect.Partway
import SentrixIndexer.Proofs.CurveStatements
import SentrixIndexer.Proofs.WorkerRules
import SentrixIndexer.Sync.ContractDetect

namespace SentrixIndexer

open Effect

variable {χ : Type}

/-! ### The CoinBlast worker -/

/-- While the token is not cancelled the answer does not end the worker: no read of the curves
or the cursor and no write of the cursor fails, and no tip is refused for good or for the sixth
time in a row. -/
def SteadyAnswer (w : CbWorld χ) : (c : CbCall) → c.Answer → CbWorld χ → Prop
  | .knownCurveAddresses, r, _ => (∃ e, r = .error e) → w.cancelled = true
  | .readCursor, r, _ => (∃ e, r = .error e) → w.cancelled = true
  | .transact (.setCursor _), r, _ => (∃ e, r = .error e) → w.cancelled = true
  | .chain .blockNumber, r, _ => ∀ e, r = .error e →
      w.cancelled = true ∨ e.isTransient = true ∧ w.record.tipFailures < 5
  | _, _, _ => True

section Worker

variable {abi : Abi} {cfg : WorkerConfig} {rpc : CbRpc χ} {moves : χ → χ → Prop}
variable {w w' : CbWorld χ} {α : Type}

/-- What goes on around the worker between two of its calls. -/
abbrev CbMeanwhile (moves : χ → χ → Prop) : CbWorld χ → CbWorld χ → Prop :=
  Relation.ReflTransGen (CbSurroundings moves)

theorem CbMeanwhile.kept (h : CbMeanwhile moves w w') :
    w'.store = w.store ∧ w'.record = w.record ∧ (w.cancelled = true → w'.cancelled = true) := by
  induction h with
  | refl => exact ⟨rfl, rfl, id⟩
  | tail _ hstep ih =>
      cases hstep with
      | chain hmove => exact ih
      | cancel => exact ⟨ih.1, ih.2.1, fun _ => rfl⟩

/-- How the surroundings answer in the runs of the condition. -/
def steadyHandle (rpc : CbRpc χ) : Handler CbSig (CbWorld χ) :=
  fun w c r w' => cbHandle rpc w c r w' ∧ SteadyAnswer w c r w'

/-- No call of the worker takes a cancellation back. -/
theorem cancelled_of_call {c : CbCall} {r : c.Answer} (h : cbHandle rpc w c r w') :
    w'.cancelled = w.cancelled := by
  cases cbHandle_step h with
  | stay => rfl
  | chain _ => rfl
  | transact _ _ => rfl
  | initSets curves => rfl
  | insertKnown a => rfl
  | cacheNonCurve _ => rfl

/-- The script ends with a `Q`, whatever the surroundings do. -/
abbrev Steadily (rpc : CbRpc χ) (moves : χ → χ → Prop) {α : Type} (p : CbScript α)
    (Q : Except CbError α → CbWorld χ → Prop) (w : CbWorld χ) : Prop :=
  wp (steadyHandle rpc) (fun _ => True) (CbMeanwhile moves) (fun _ _ => True)
    (Script.toProgE p).run Q w

theorem steadily_ask {c : CbCall} {Q : c.Answer → CbWorld χ → Prop}
    (hQ : ∀ w₁ r w₂, CbMeanwhile moves w w₁ → steadyHandle rpc w₁ c r w₂ → Q r w₂) :
    wp (steadyHandle rpc) (fun _ => True) (CbMeanwhile moves) (fun _ _ => True) c.ask.toProg Q w :=
  fun w₁ hR _ r w₂ hH => ⟨trivial, trivial, hQ w₁ r w₂ hR hH⟩

/-- An error only after the cancellation. -/
def ErrorCancelled (r : Except CbError α) (w : CbWorld χ) : Prop :=
  (∃ e, r = .error e) → w.cancelled = true

/-- A call whose error ends the worker. -/
theorem steadily_fallible {c : CbCall} {f : c.Answer → Except CbError α}
    (hsteady : ∀ (w : CbWorld χ) r w', SteadyAnswer w c r w' → (∃ e, f r = .error e) →
      w.cancelled = true) :
    wp (steadyHandle rpc) (fun _ => True) (CbMeanwhile moves) (fun _ _ => True) c.ask.toProg
      (fun r w' => ErrorCancelled (f r) w') w := by
  refine steadily_ask fun w₁ r w₂ _ hH he => ?_
  rw [cancelled_of_call hH.1]
  exact hsteady w₁ r w₂ hH.2 he

/-- **The tip is had within six attempts.** -/
theorem steadily_tip :
    Steadily rpc moves (cbRetry (CbCall.chain .blockNumber).ask) ErrorCancelled w := by
  -- Before the `k`-th attempt the tip has been refused at least `k - 1` times in a row.
  refine wp_cbRetry (J := fun k w => w.cancelled = true ∨ k ≤ w.record.tipFailures + 1)
    (fun k w hJ => ?_) (fun k nanos w hJ => ?_) (Or.inr (by omega))
  · refine steadily_ask fun w₁ r w₂ hR hH => ?_
    obtain ⟨-, hrecord, hcancelled⟩ := hR.kept
    obtain ⟨⟨chain', -, rfl⟩, hsteady⟩ := hH
    cases r with
    | ok tip => exact fun he => absurd he (by simp)
    | error e =>
        rcases hsteady e rfl with hstopped | ⟨htransient, hfew⟩
        · show if _ then _ else _
          split
          · exact Or.inl hstopped
          · exact fun _ => hstopped
        · rcases hJ with hstopped | hattempt
          · show if _ then _ else _
            split
            · exact Or.inl (hcancelled hstopped)
            · exact fun _ => hcancelled hstopped
          · rw [hrecord] at hfew
            have hmore : k < 6 := by omega
            simp only [htransient, hmore, and_self, if_true]
            refine Or.inr ?_
            show k + 1 ≤ w₁.record.tipFailures + 1 + 1
            rw [hrecord]
            omega
  · refine steadily_ask fun w₁ r w₂ hR hH => ?_
    obtain ⟨-, hrecord, hcancelled⟩ := hR.kept
    obtain rfl : w₂ = w₁ := hH.1
    rw [hrecord]
    exact hJ.imp_left hcancelled

/-- A pass through the loop goes on, or the token is cancelled. -/
def GoesOn (r : Except CbError (Unit ⊕ Unit)) (w : CbWorld χ) : Prop :=
  r = .ok (.inl ()) ∨ w.cancelled = true

theorem steadily_idle (nanos : Nat) : Steadily rpc moves (idle nanos) GoesOn w := by
  refine wp_liftAsk (steadily_ask fun w₁ r w₂ _ hH => ?_)
  obtain ⟨hcancelled, rfl⟩ := hH.1
  cases r with
  | true => exact Or.inr (hcancelled rfl)
  | false => exact Or.inl rfl

theorem steadily_afterChunk (toBlock : Int) (result : Except CbError Unit) :
    Steadily rpc moves (afterChunk cfg toBlock result) GoesOn w := by
  cases result with
  | error e => exact steadily_idle _
  | ok u =>
      refine wp_scriptE_bind (wp_mono (fun r w₁ hr => ?_)
        (steadily_fallible (c := .transact (.setCursor toBlock)) (f := id)
          fun w r w' hsteady => hsteady))
      cases r with
      | ok u => exact steadily_idle _
      | error e => exact Or.inr (hr ⟨e, rfl⟩)

theorem steadily_workerPass : Steadily rpc moves (workerPass abi cfg) GoesOn w := by
  unfold workerPass
  refine wp_liftAsk (steadily_ask fun w₁ r w₂ _ hH => ?_)
  obtain ⟨hcancelled, rfl⟩ := hH.1
  cases r with
  | true => exact Or.inr hcancelled.symm
  | false =>
      have hcursor : Steadily rpc moves (readCoinblastCursor cfg.network) ErrorCancelled w₂ := by
        refine wp_scriptE_bind (wp_mono (fun r w₃ hr => ?_)
          (steadily_fallible (c := .readCursor) (f := id) fun w r w' hsteady => hsteady))
        cases r with
        | ok cursor => exact fun he => absurd he (by simp)
        | error e => exact fun _ => hr ⟨e, rfl⟩
      refine wp_scriptE_bind (wp_mono (fun r w₃ hr => ?_) hcursor)
      cases r with
      | error e => exact Or.inr (hr ⟨e, rfl⟩)
      | ok cursor =>
          refine wp_scriptE_bind (wp_mono (fun r w₄ hr => ?_) steadily_tip)
          cases r with
          | error e => exact Or.inr (hr ⟨e, rfl⟩)
          | ok tip =>
              by_cases hidle : saturatingSub tip (asI64 cfg.safeLag) ≤ cursor
              · simp only [hidle, if_true]
                exact steadily_idle _
              · simp only [hidle, if_false]
                exact wp_liftRun (wp_mono (fun result w₅ _ => steadily_afterChunk _ result)
                  Script.wp_any)

theorem steadily_runCoinblastWorker :
    wp (steadyHandle rpc) (fun _ => True) (CbMeanwhile moves) (fun _ _ => True)
      (runCoinblastWorker abi cfg).run (fun _ w' => w'.cancelled = true) w := by
  have hboot : Steadily rpc moves hydrateKnownCurves ErrorCancelled w := by
    refine wp_scriptE_bind (wp_mono (fun r w₁ hr => ?_)
      (steadily_fallible (c := .knownCurveAddresses) (f := id) fun w r w' hsteady => hsteady))
    cases r with
    | error e => exact fun _ => hr ⟨e, rfl⟩
    | ok curves =>
        exact wp_script_bind (wp_mono (fun _ _ _ he => absurd he (by simp)) Script.wp_any)
  refine wp_bindE (wp_mono (fun r w₁ hr => ?_) hboot)
  cases r with
  | error e => exact hr ⟨e, rfl⟩
  | ok u =>
      refine wp_iterateE (fun _ _ => True) (fun _ _ _ _ _ _ => trivial) trivial fun _ w₂ _ _ => ?_
      refine wp_mono (fun r w₃ hr => ?_) steadily_workerPass
      rcases r with e | _ | _
      · exact hr.resolve_left (by simp)
      · exact trivial
      · exact hr.resolve_left (by simp)

theorem steady_verified (chain : χ) (s : CbStore) :
    VerifiedSingle ((coinblast abi cfg rpc moves).answering SteadyAnswer) (.init chain s)
      (fun _ => True) (CbMeanwhile moves) (fun _ w => w.cancelled = true) where
  rely_refl _ := .refl
  rely_trans _ _ _ := .trans
  init := trivial
  spawn i p w hs _ := by
    obtain rfl : p = _ := hs
    exact steadily_runCoinblastWorker
  post _ _ _ hQ hR _ := hR.kept.2.2 hQ
  env _ _ _ he := ⟨trivial, .single he⟩
  crash _ _ _ _ := trivial

/-- **A chunk leaves the cursor alone**, whether it fails or not. -/
theorem cursor_of_chunk {fromBlock toBlock : Int} {factory : EvmAddress}
    {r : Except CbError Unit}
    (h : Run ((steadyHandle rpc).under (CbMeanwhile moves)) w
      (runChunk abi fromBlock toBlock factory).run.toProg w' r) :
    w'.store.cursor = w.store.cursor := by
  refine (runChunk_only fromBlock toBlock factory).run_keeps
    (J := fun w' => w'.store.cursor = w.store.cursor) ?_ rfl h
  intro w₁ c r w₃ hc hcursor hH
  obtain ⟨w₂, hR, hH, -⟩ := hH
  rw [← hcursor, ← hR.kept.1]
  cases cbHandle_step hH with
  | stay => rfl
  | chain _ => rfl
  | transact hrun _ =>
      refine (CbTxn.run_effect hrun).cursor_eq fun height ht => ?_
      subst ht
      exact hc
  | initSets curves => rfl
  | insertKnown a => rfl
  | cacheNonCurve _ => rfl

/-- After a failed chunk the loop goes on and the cursor is where it was. -/
theorem afterChunk_error {toBlock : Int} {e : CbError} {r : Except CbError (Unit ⊕ Unit)}
    (h : Run ((steadyHandle rpc).under (CbMeanwhile moves)) w
      (afterChunk cfg toBlock (.error e)).run.toProg w' r) :
    w'.store.cursor = w.store.cursor ∧ GoesOn r w' := by
  have hgoes : Steadily rpc moves (afterChunk cfg toBlock (.error e)) GoesOn w :=
    steadily_afterChunk toBlock (.error e)
  refine ⟨?_, wp_run_under h hgoes⟩
  obtain ⟨cancelled, w₁, ⟨w₂, hR, hH, -⟩, hk⟩ := run_call.mp h
  obtain ⟨-, rfl⟩ := hH
  rw [← hR.kept.1]
  cases cancelled with
  | true => rw [(run_pure.mp hk).1]
  | false => rw [(run_pure.mp hk).1]

end Worker

/-! ### The contract detector -/

/-- While the token is not cancelled the candidates can be read; and the reply to an update is
not lost. -/
def DetectorAnswer (w : DetectWorld χ) :
    (c : DetectCall) → c.Answer → DetectWorld χ → Prop
  | .unclassifiedBatch _, r, _ => (∃ e, r = .error e) → w.cancelled = true
  | .classify _ _ _, r, w' => (∃ e, r = .error e) → w'.store = w.store
  | _, _, _ => True

section Detector

variable {keccak256 : List UInt8 → B256} {batch : Int} {rpc : CodeRpc χ} {moves : χ → χ → Prop}
variable {others : Store → Store → Prop} {w w' : DetectWorld χ}

abbrev DetectMeanwhile (moves : χ → χ → Prop) (others : Store → Store → Prop) :
    DetectWorld χ → DetectWorld χ → Prop :=
  Relation.ReflTransGen (DetectSurroundings moves others)

theorem DetectMeanwhile.kept (h : DetectMeanwhile moves others w w') :
    Relation.ReflTransGen others w.store w'.store ∧
      (w.cancelled = true → w'.cancelled = true) := by
  induction h with
  | refl => exact ⟨.refl, id⟩
  | tail _ hstep ih =>
      cases hstep with
      | chain hmove => exact ih
      | others hothers => exact ⟨ih.1.tail hothers, ih.2⟩
      | cancel => exact ⟨ih.1, fun _ => rfl⟩

def detectorHandle (rpc : CodeRpc χ) : Handler DetectSig (DetectWorld χ) :=
  fun w c r w' => detectHandle rpc w c r w' ∧ DetectorAnswer w c r w'

abbrev Detects (rpc : CodeRpc χ) (moves : χ → χ → Prop) (others : Store → Store → Prop)
    {α : Type} (p : DetectScript α) (Q : Except SyncError α → DetectWorld χ → Prop)
    (w : DetectWorld χ) : Prop :=
  wp (detectorHandle rpc) (fun _ => True) (DetectMeanwhile moves others) (fun _ _ => True)
    (Script.toProgE p).run Q w

/-- A failure leaves the tables as the other tasks make them. -/
def OthersOnly (others : Store → Store → Prop) (s : Store) (r : Except SyncError Unit)
    (w : DetectWorld χ) : Prop :=
  (∃ e, r = .error e) → Relation.ReflTransGen others s w.store

theorem detects_classify {address : Address} {isContract : Bool} {codeHash : String} {s : Store}
    (hs : Relation.ReflTransGen others s w.store) :
    Detects rpc moves others (classify address isContract codeHash)
      (OthersOnly others s) w := by
  refine wp_script_bind fun w₁ hR _ r w₂ hH => ⟨trivial, trivial, ?_⟩
  cases r with
  | ok u => exact fun he => absurd he (by simp)
  | error e =>
      intro _
      have hstore : w₂.store = w₁.store := hH.2 ⟨e, rfl⟩
      rw [hstore]
      exact hs.trans hR.kept.1

/-- **A failed classification changes nothing.** -/
theorem detects_classifyOne (address : Address) :
    Detects rpc moves others (classifyOne keccak256 address) (OthersOnly others w.store) w := by
  unfold classifyOne
  cases parseAddress address with
  | none => exact detects_classify .refl
  | some parsed =>
      refine wp_scriptE_bind fun w₁ hR _ r w₂ hH => ⟨trivial, trivial, ?_⟩
      obtain ⟨⟨chain', -, rfl⟩, -⟩ := hH
      cases r with
      | error e => exact fun _ => hR.kept.1
      | ok code =>
          show wp _ _ _ _ (Script.toProgE (if _ then _ else _)).run _ _
          split
          · exact detects_classify hR.kept.1
          · exact detects_classify hR.kept.1

/-- A tick goes on, or the token is cancelled. -/
def TicksOn (r : Except SyncError (Unit ⊕ Unit)) (w : DetectWorld χ) : Prop :=
  r = .ok (.inl ()) ∨ w.cancelled = true

theorem detects_classifyAll {candidates : List Address} :
    ∀ {w : DetectWorld χ}, Detects rpc moves others (classifyAll keccak256 candidates) TicksOn w := by
  induction candidates with
  | nil => exact Or.inl rfl
  | cons address rest ih =>
      intro w
      unfold classifyAll
      refine wp_scriptE_bind fun w₁ _ _ r w₂ hH => ⟨trivial, trivial, ?_⟩
      obtain ⟨hcancelled, rfl⟩ := hH.1
      cases r with
      | true => exact Or.inr hcancelled.symm
      | false =>
          exact wp_scriptE_bind (wp_script_bind (wp_mono (fun _ w₃ _ => ih) Script.wp_any))

theorem detects_detectorPass :
    Detects rpc moves others (detectorPass keccak256 batch) TicksOn w := by
  unfold detectorPass
  refine wp_scriptE_bind fun w₁ _ _ r w₂ hH => ⟨trivial, trivial, ?_⟩
  obtain ⟨hcancelled, rfl⟩ := hH.1
  cases r with
  | true => exact Or.inr (hcancelled rfl)
  | false =>
      refine wp_scriptE_bind (wp_script_bind fun w₃ _ _ r w₄ hH => ⟨trivial, trivial, ?_⟩)
      obtain ⟨⟨rfl, -⟩, hsteady⟩ := hH
      cases r with
      | error e => exact Or.inr (hsteady ⟨e, rfl⟩)
      | ok candidates => exact detects_classifyAll

theorem detector_verified (chain : χ) (s : Store) :
    VerifiedSingle ((detector keccak256 batch rpc moves others).answering DetectorAnswer)
      ⟨chain, s, false⟩ (fun _ => True) (DetectMeanwhile moves others)
      (fun _ w => w.cancelled = true) where
  rely_refl _ := .refl
  rely_trans _ _ _ := .trans
  init := trivial
  spawn i p w hs _ := by
    obtain rfl : p = _ := hs
    refine wp_iterateE (fun _ _ => True) (fun _ _ _ _ _ _ => trivial) trivial fun _ w₁ _ _ => ?_
    refine wp_mono (fun r w₂ hr => ?_) detects_detectorPass
    rcases r with e | _ | _
    · exact hr.resolve_left (by simp)
    · exact trivial
    · exact hr.resolve_left (by simp)
  post _ _ _ hQ hR _ := hR.kept.2 hQ
  env _ _ _ he := ⟨trivial, .single he⟩
  crash _ _ _ _ := trivial

end Detector

/-! ### Both workers -/

/-- The token is cancelled whenever a program of the system has finished. -/
def StopsCancelled {S : Signature} {W α : Type} (sys : System S Unit W α) (w₀ : W)
    (cancelled : W → Bool) : Prop :=
  ∀ c, Reachable sys w₀ c → ∀ r, c.prog () = some (.pure r) → cancelled c.world = true

/--
**The workers end only when they are told to** in the runs of the conditions.  A failed chunk
leaves the cursor where it was and the loop goes on; a failed classification leaves the tables
as the other tasks make them, and the tick goes on.
-/
theorem workers_stop_when_cancelled (abi : Abi) (cfg : WorkerConfig) (rpc : CbRpc χ)
    (moves : χ → χ → Prop) (keccak256 : List UInt8 → B256) (batch : Int) (code : CodeRpc χ)
    (others : Store → Store → Prop) (chain : χ) (s : CbStore) (tables : Store) :
    StopsCancelled ((coinblast abi cfg rpc moves).answering SteadyAnswer) (.init chain s)
      CbWorld.cancelled ∧
    (∀ w w₁ w' fromBlock toBlock factory e r,
      Run ((steadyHandle rpc).under (CbMeanwhile moves)) w
        (runChunk abi fromBlock toBlock factory).run.toProg w₁ (.error e) →
      Run ((steadyHandle rpc).under (CbMeanwhile moves)) w₁
        (afterChunk cfg toBlock (.error e)).run.toProg w' r →
      w'.store.cursor = w.store.cursor ∧ (r = .ok (.inl ()) ∨ w'.cancelled = true)) ∧
    StopsCancelled ((detector keccak256 batch code moves others).answering DetectorAnswer)
      ⟨chain, tables, false⟩ DetectWorld.cancelled ∧
    (∀ w w' address e,
      Run ((detectorHandle code).under (DetectMeanwhile moves others)) w
        (classifyOne keccak256 address).run.toProg w' (.error e) →
      Relation.ReflTransGen others w.store w'.store) ∧
    ∀ w w' r,
      Run ((detectorHandle code).under (DetectMeanwhile moves others)) w
        (detectorPass keccak256 batch).run.toProg w' r →
      r = .ok (.inl ()) ∨ w'.cancelled = true := by
  refine ⟨fun c hc r hp => (steady_verified chain s).finished hc hp, ?_,
    fun c hc r hp => (detector_verified chain tables).finished hc hp, ?_,
    fun w w' r hrun => wp_run_under hrun detects_detectorPass⟩
  · intro w w₁ w' fromBlock toBlock factory e r hchunk hafter
    obtain ⟨hcursor, hgoes⟩ := afterChunk_error hafter
    exact ⟨hcursor.trans (cursor_of_chunk hchunk), hgoes⟩
  · intro w w' address e hrun
    exact wp_run_under hrun (detects_classifyOne address) ⟨e, rfl⟩

/-- Nodes that always know the tip. -/
def patchyRespond (n : CbChain) : Server CbChainSig Outages
  | outages, .blockNumber => (.ok n.tip, outages)
  | outages, c => n.respond outages c

theorem cbServe_steady (n : CbChain) (w : CbWorld Outages) (c : CbCall) :
    steadyHandle (patchyRespond n).toHandler w c (cbServe (patchyRespond n) w c).1
      (cbServe (patchyRespond n) w c).2 := by
  refine ⟨cbHandle_cbServe (fun _ _ => rfl) w c, ?_⟩
  cases c with
  | chain c =>
      cases c with
      | blockNumber => exact fun e he => absurd he (by simp [cbServe, patchyRespond])
      | _ => exact trivial
  | transact t =>
      cases t with
      | setCursor height =>
          exact fun he => absurd he (by simp [cbServe, CbTxn.run, setCursor])
      | _ => exact trivial
  | knownCurveAddresses => exact fun he => absurd he (by simp [cbServe])
  | readCursor => exact fun he => absurd he (by simp [cbServe])
  | _ => exact trivial

/-- The worker after a first chunk that fails for want of logs. -/
def failedChunk : CbWorld Outages × Prog CbSig (Except CbError Unit) :=
  mainnetSteps (patchyRespond oneBuy) 18 (List.replicate 6 true)

/-- The same worker told to stop. -/
def toldToStop : CbWorld Outages × Prog CbSig (Except CbError Unit) :=
  advanceN (cbServe (patchyRespond oneBuy)) 2
    ({ failedChunk.1 with cancelled := true }, failedChunk.2)

theorem toldToStop_reachable :
    Reachable ((coinblast wordAbi mainnetConfig (patchyRespond oneBuy).toHandler
        fun _ _ => False).answering SteadyAnswer) (.init (List.replicate 6 true) .empty)
      ⟨toldToStop.1, fun _ => some toldToStop.2⟩ := by
  have hfailed : Reachable ((coinblast wordAbi mainnetConfig (patchyRespond oneBuy).toHandler
      fun _ _ => False).answering SteadyAnswer) (.init (List.replicate 6 true) .empty)
      ⟨failedChunk.1, fun _ => some failedChunk.2⟩ :=
    mainnetSteps_reachable rfl (cbServe_steady oneBuy) 18 (List.replicate 6 true)
  have hsteps := (hfailed.move (Move.env (CbSurroundings.cancel _))).steps (i := ())
    (p := failedChunk.2) rfl (advanceN_steps (cbServe_steady oneBuy) 2 _ _)
  have hprog : Function.update (fun _ => some failedChunk.2) () (some toldToStop.2) =
      fun _ => some toldToStop.2 := funext fun _ => rfl
  rw [← hprog]
  exact hsteps

/-- The first chunk fails for want of logs, the worker goes on, and ends when it is told to. -/
theorem toldToStop_ended : toldToStop.1.record.phase = .passOne ∧
    ∃ r, some toldToStop.2 = some (.pure r) := by
  have hresult : toldToStop.2.result?.isSome = true := by decide +kernel
  obtain ⟨r, hr⟩ := Option.isSome_iff_exists.mp hresult
  exact ⟨by decide +kernel, r, congrArg some (Prog.eq_pure_of_result? hr)⟩

/-- How the surroundings answer a worker of `oneBuy` that is left in peace. -/
abbrev patchyHandle : Handler CbSig (CbWorld Outages) :=
  (steadyHandle (patchyRespond oneBuy).toHandler).under (CbMeanwhile fun _ _ => False)

/-- A chunk fails for want of logs, and the loop goes on from there. -/
theorem exists_failed_chunk :
    ∃ w w₁ w' e r, Run patchyHandle w (runChunk wordAbi 1 2 curveA).run.toProg w₁ (.error e) ∧
      Run patchyHandle w₁ (afterChunk mainnetConfig 2 (.error e)).run.toProg w' r := by
  have hserve : ∀ w c, true = true → patchyHandle w c (cbServe (patchyRespond oneBuy) w c).1
      (cbServe (patchyRespond oneBuy) w c).2 := fun w c _ => ⟨w, .refl, cbServe_steady oneBuy w c⟩
  obtain ⟨w₁, r, hchunk, hfailed⟩ := exists_run_of_execWhile hserve 40
    (.init (List.replicate 6 true) .empty) (runChunk wordAbi 1 2 curveA).run.toProg
    (fun x => !x.2.isOk) (by decide +kernel)
  cases r with
  | ok u => exact absurd hfailed (by simp [Except.isOk, Except.toBool])
  | error e =>
      obtain ⟨w', r, hafter, -⟩ := Script.exists_run (J := fun _ => True)
        (p := (afterChunk mainnetConfig 2 (.error e)).run)
        (fun w c _ => ⟨_, _, hserve w c rfl, trivial⟩) (w := w₁) trivial
      exact ⟨_, w₁, w', e, r, hchunk, hafter⟩

/-- A database that fails every statement, and nodes that fail every probe. -/
def failingQuery : Server DetectSig (DetectWorld χ)
  | w, .tickOrCancel => (false, w)
  | w, .isCancelled => (w.cancelled, w)
  | w, .unclassifiedBatch _ => (.error (.transport "connection reset"), w)
  | w, .getCode _ => (.error (.rpc "connection reset"), w)
  | w, .classify _ _ _ => (.error (.transport "connection reset"), w)

theorem failingQuery_answers (w : DetectWorld χ) (c : DetectCall) :
    detectHandle (fun _ _ r _ => r = .error (.rpc "connection reset")) w c
      (failingQuery w c).1 (failingQuery w c).2 := by
  cases c with
  | tickOrCancel => exact ⟨fun h => absurd h (by simp [failingQuery]), rfl⟩
  | isCancelled => exact ⟨rfl, rfl⟩
  | unclassifiedBatch limit => exact ⟨rfl, Or.inr ⟨_, rfl⟩⟩
  | getCode a => exact ⟨_, rfl, rfl⟩
  | classify address isContract codeHash => exact Or.inr ⟨⟨_, rfl⟩, rfl⟩

/-- The same nodes beside a database that knows the candidates. -/
def failingProbe : Server DetectSig (DetectWorld χ)
  | w, .tickOrCancel => (w.cancelled, w)
  | w, .unclassifiedBatch limit =>
      (.ok ((Addresses.unclassified w.store).take limit.toNat), w)
  | w, c => failingQuery w c

/-- Asked for a batch of a size. -/
def asksProperly (_ : DetectWorld χ) : DetectCall → Bool
  | .unclassifiedBatch limit => 0 ≤ limit
  | _ => true

abbrev failingProbeHandle : Handler DetectSig (DetectWorld χ) :=
  detectorHandle fun _ _ r _ => r = .error (.rpc "connection reset")

theorem failingProbe_answers (w : DetectWorld χ) (c : DetectCall)
    (hc : asksProperly w c = true) :
    failingProbeHandle w c (failingProbe w c).1 (failingProbe w c).2 := by
  cases c with
  | tickOrCancel => exact ⟨⟨id, rfl⟩, trivial⟩
  | unclassifiedBatch limit =>
      exact ⟨⟨rfl, Or.inl ⟨_, ⟨of_decide_eq_true hc, (List.take_sublist _ _).subperm,
        List.length_take⟩, rfl⟩⟩, fun he => absurd he (by simp [failingProbe])⟩
  | isCancelled => exact ⟨failingQuery_answers w .isCancelled, trivial⟩
  | getCode a => exact ⟨failingQuery_answers w (.getCode a), trivial⟩
  | classify address isContract codeHash =>
      exact ⟨failingQuery_answers w (.classify address isContract codeHash), fun _ => rfl⟩

/-- One address waits for the detector. -/
def oneWaiting : Store :=
  { Store.empty with
    addresses := Store.empty.addresses.insertNew ⟨hexAddr curveA, 0, 0, false, none⟩ }

/-- A detector over nodes that fail every probe. -/
abbrev deafDetector : System DetectSig Unit (DetectWorld Outages) (Except SyncError Unit) :=
  (detector (fun _ => buyTopic) 100 (fun _ _ r _ => r = .error (.rpc "connection reset"))
    (fun _ _ => False) fun _ _ => False).answering DetectorAnswer

/-- A tick whose one probe fails. -/
def failedTick : Option (DetectWorld Outages × Prog DetectSig (Except SyncError Unit)) :=
  advanceWhile asksProperly failingProbe 6
    (⟨List.replicate 6 true, oneWaiting, false⟩, (runContractDetector (fun _ => buyTopic) 100).run)

/-- The detector told to stop after that tick. -/
def detectorTold : Option (DetectWorld Outages × Prog DetectSig (Except SyncError Unit)) :=
  failedTick.bind fun x =>
    advanceWhile asksProperly failingProbe 2 ({ x.1 with cancelled := true }, x.2)

theorem exists_detectorTold :
    ∃ c, Reachable deafDetector ⟨List.replicate 6 true, oneWaiting, false⟩ c ∧
      (∃ r, c.prog () = some (.pure r)) ∧
      Addresses.unclassified c.world.store = [hexAddr curveA] := by
  have hend : (detectorTold.any fun x => x.2.result?.isSome &&
      Addresses.unclassified x.1.store = [hexAddr curveA]) = true := by decide +kernel
  rcases htold : detectorTold with _ | ⟨w', p'⟩
  · rw [htold] at hend
    exact absurd hend (by simp)
  rw [htold] at hend
  obtain ⟨hended, hleft⟩ := Bool.and_eq_true_iff.mp hend
  obtain ⟨r, hr⟩ := Option.isSome_iff_exists.mp hended
  obtain ⟨⟨w, p⟩, htick, htold⟩ := Option.bind_eq_some_iff.mp htold
  have hstart : Reachable deafDetector ⟨List.replicate 6 true, oneWaiting, false⟩ _ :=
    (Reachable.init).move (Move.start () (runContractDetector (fun _ => buyTopic) 100).run rfl rfl)
  have hfailed := hstart.steps (i := ()) (by simp)
    (advanceWhile_steps failingProbe_answers 6 htick)
  have hreach := (hfailed.move (Move.env (DetectSurroundings.cancel _))).steps (i := ()) (by simp)
    (advanceWhile_steps failingProbe_answers 2 htold)
  obtain rfl : p' = .pure r := Prog.eq_pure_of_result? hr
  exact ⟨_, hreach, ⟨r, by simp only [Function.update_self]⟩, of_decide_eq_true hleft⟩

/--
A first chunk fails for want of logs and leaves the cursor alone, the worker goes on, and ends
when it is told to; the one probe of a tick fails and leaves its address waiting, the detector
goes on, and ends when it is told to.
-/
theorem workers_stop_when_cancelled_patchy :
    (∃ c, Reachable ((coinblast wordAbi mainnetConfig (patchyRespond oneBuy).toHandler
        fun _ _ => False).answering SteadyAnswer) (.init (List.replicate 6 true) .empty) c ∧
      (∃ r, c.prog () = some (.pure r)) ∧ c.world.record.phase = .passOne ∧
      c.world.cancelled = true) ∧
    (∃ w w₁ w' e r, Run patchyHandle w (runChunk wordAbi 1 2 curveA).run.toProg w₁ (.error e) ∧
      Run patchyHandle w₁ (afterChunk mainnetConfig 2 (.error e)).run.toProg w' r ∧
      w'.store.cursor = w.store.cursor ∧ (r = .ok (.inl ()) ∨ w'.cancelled = true)) ∧
    (∃ c, Reachable deafDetector ⟨List.replicate 6 true, oneWaiting, false⟩ c ∧
      (∃ r, c.prog () = some (.pure r)) ∧
      Addresses.unclassified c.world.store = [hexAddr curveA] ∧ c.world.cancelled = true) := by
  obtain ⟨hcoinblast, hchunk, hdetector, -, -⟩ := workers_stop_when_cancelled wordAbi
    mainnetConfig (patchyRespond oneBuy).toHandler (fun _ _ => False) (fun _ => buyTopic) 100
    (fun _ _ r _ => r = .error (.rpc "connection reset")) (fun _ _ => False)
    (List.replicate 6 true) .empty oneWaiting
  obtain ⟨hphase, r, hr⟩ := toldToStop_ended
  obtain ⟨w, w₁, w', e, r', hfailed, hafter⟩ := exists_failed_chunk
  obtain ⟨c, hc, ⟨r'', hr''⟩, hleft⟩ := exists_detectorTold
  exact ⟨⟨_, toldToStop_reachable, ⟨r, hr⟩, hphase, hcoinblast _ toldToStop_reachable r hr⟩,
    ⟨w, w₁, w', e, r', hfailed, hafter, hchunk w w₁ w' 1 2 curveA e r' hfailed hafter⟩,
    c, hc, ⟨r'', hr''⟩, hleft, hdetector c hc r'' hr''⟩

/-! ### Failures that end a worker -/

/-- Six transient failures of the tip end the CoinBlast worker, and one failure of the query
ends the detector, and nobody has cancelled either. -/
theorem transient_failures_end_workers :
    ¬ StopsCancelled (coinblast wordAbi mainnetConfig oneBuy.rpc fun _ _ => False)
        (.init (List.replicate 6 true) .empty) CbWorld.cancelled ∧
    ∀ keccak256, ¬ StopsCancelled
        (detector keccak256 100 (fun _ _ r _ => r = .error (.rpc "connection reset"))
          (fun _ _ => False) fun _ _ => False)
        ⟨(), .empty, false⟩ DetectWorld.cancelled := by
  refine ⟨fun h => ?_, fun keccak256 h => ?_⟩
  · have hreach := mainnetSteps_coinblast oneBuy 16 (List.replicate 6 true)
    have hended : (mainnetSteps oneBuy.respond 16 (List.replicate 6 true)).2.result?.isSome =
        true := by decide +kernel
    have hrunning : (mainnetSteps oneBuy.respond 16 (List.replicate 6 true)).1.cancelled =
        false := by decide +kernel
    obtain ⟨r, hr⟩ := Option.isSome_iff_exists.mp hended
    have hcancelled := h _ hreach r (congrArg some (Prog.eq_pure_of_result? hr))
    exact absurd (hrunning.symm.trans hcancelled) (by simp)
  · have hstart : Reachable (detector keccak256 100
        (fun _ _ r _ => r = .error (.rpc "connection reset")) (fun _ _ => False) fun _ _ => False)
        ⟨(), .empty, false⟩ _ :=
      (Reachable.init).move (Move.start () (runContractDetector keccak256 100).run rfl rfl)
    have hreach := hstart.steps (i := ()) (by simp)
      (advanceN_steps failingQuery_answers 3 ⟨(), .empty, false⟩
        (runContractDetector keccak256 100).run)
    have hended : (advanceN failingQuery 3 (⟨(), .empty, false⟩,
        (runContractDetector keccak256 100).run)).2 =
          .pure (.error (.db (.transport "connection reset"))) := rfl
    have hcancelled := h _ hreach (.error (.db (.transport "connection reset")))
      (by rw [← hended]; simp only [Function.update_self])
    exact Bool.false_ne_true hcancelled

end SentrixIndexer
