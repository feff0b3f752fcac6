/-
Rules for the scripts of the CoinBlast worker.

They hold for any surroundings and under any interference, so each invariant of the worker
is proved with them over its own handler: calls that may fail, calls that may not, results
that are looked at, retried calls.  `EthCalls` are the calls of a probe.
-/
import SentrixIndexer.Coinblast.Worker
import SentrixIndexer.Proofs.Pipeline

namespace SentrixIndexer

open Effect

section Rules

variable {W α β : Type} {H : Handler CbSig W} {I : W → Prop} {R G : W → W → Prop}

/-- A call that cannot fail, and what follows. -/
theorem wp_liftAsk {c : CbCall} {f : c.Answer → CbScript β} {Q : Except CbError β → W → Prop}
    {w : W}
    (h : wp H I R G c.ask.toProg (fun r w' => wp H I R G (Script.toProgE (f r)).run Q w') w) :
    wp H I R G (Script.toProgE (ExceptT.lift c.ask >>= f)).run Q w := by
  refine wp_scriptE_bind ?_
  exact h

/-- A result that is looked at, whether it is an error or not. -/
theorem wp_liftRun {p : CbScript α} {f : Except CbError α → CbScript β}
    {Q : Except CbError β → W → Prop} {w : W}
    (h : wp H I R G (Script.toProgE p).run
      (fun r w' => wp H I R G (Script.toProgE (f r)).run Q w') w) :
    wp H I R G (Script.toProgE (ExceptT.lift p.run >>= f)).run Q w := by
  refine wp_scriptE_bind ?_
  exact wp_script_bind h

/-- A value computed without a call. -/
theorem wp_computed {x : Except CbError α} {f : α → CbScript β}
    {Q : Except CbError β → W → Prop} {w : W}
    (hok : ∀ a, x = .ok a → wp H I R G (Script.toProgE (f a)).run Q w)
    (herror : ∀ e, x = .error e → Q (.error e) w) :
    wp H I R G (Script.toProgE (ExceptT.mk (Script.pure x) >>= f)).run Q w := by
  refine wp_scriptE_bind ?_
  cases x with
  | ok a => exact hok a rfl
  | error e => exact herror e rfl

/-- A retried call; `J k` holds before the `k`-th of its six attempts. -/
theorem wp_cbRetry {op : Script CbSig (Except ChainError α)} {J : Nat → W → Prop}
    {Q : Except CbError α → W → Prop} {w : W}
    (hop : ∀ k w, J k w → wp H I R G op.toProg (fun r w' => match r with
      | .ok v => Q (.ok v) w'
      | .error e => if e.isTransient = true ∧ k < 6 then J (k + 1) w'
          else Q (.error (.chain e)) w') w)
    (hsleep : ∀ k nanos w, J k w →
      wp H I R G (CbCall.sleep nanos).ask.toProg (fun _ w' => J k w') w)
    (hw : J 1 w) : wp H I R G (Script.toProgE (cbRetry op)).run Q w := by
  have hsix : 1 + 5 = 6 := rfl
  refine wp_script_bind (wp_mono (fun r w' hr => ?_) (wp_retryFrom_inv
    (Q := fun r w' => Q (r.mapError .chain) w') (J := J) (fun k w hJ => ?_) hsleep 5 1 w hsix hw))
  · cases r with
    | ok v => exact hr
    | error e => exact hr
  · refine wp_mono (fun r w' hr => ?_) (hop k w hJ)
    cases r with
    | ok v => exact hr
    | error e => exact hr

/-- A retried call promises what every single attempt promises. -/
theorem wp_cbRetry_each {op : Script CbSig (Except ChainError α)} {J : W → Prop}
    {Q : Except CbError α → W → Prop} {w : W}
    (hop : ∀ w, J w → wp H I R G op.toProg
      (fun r w' => (∀ e, r = .error e → J w') ∧ Q (r.mapError .chain) w') w)
    (hsleep : ∀ nanos w, J w → wp H I R G (CbCall.sleep nanos).ask.toProg (fun _ w' => J w') w)
    (hw : J w) : wp H I R G (Script.toProgE (cbRetry op)).run Q w := by
  refine wp_cbRetry (J := fun _ => J) (fun k w hJ => wp_mono (fun r w' hr => ?_) (hop w hJ))
    (fun _ => hsleep) hw
  cases r with
  | ok v => exact hr.2
  | error e =>
      show if _ then J w' else Q (.error (.chain e)) w'
      split
      · exact hr.1 e rfl
      · exact hr.2

/-- The logs of a range: whatever is checked first, logs come from a call only. -/
theorem wp_cbLogsInRange {fromBlock toBlock : Int} {address : Option EvmAddress}
    {Q : Except ChainError (List RpcLog) → W → Prop} {w : W}
    (hinvalid : ∀ msg, Q (.error (.invalidArgument msg)) w)
    (hcall : wp H I R G (CbCall.chain (.getLogs fromBlock toBlock address)).ask.toProg Q w) :
    wp H I R G (cbLogsInRange fromBlock toBlock address).toProg Q w := by
  unfold cbLogsInRange logsInRange
  split
  · exact hinvalid _
  · split
    · exact hinvalid _
    · split
      · exact hinvalid _
      · exact hcall

end Rules

/-! ### The calls of a probe -/

/-- A call of a view. -/
def CbCall.IsEthCall : CbCall → Prop
  | .chain (.ethCall _ _) => True
  | _ => False

variable {abi : Abi} {α : Type}

theorem callView_only (decoder : List UInt8 → Except String α) (target : EvmAddress)
    (view : ViewFn) : (callView decoder target view).run.Only CbCall.IsEthCall := by
  refine Script.Only.bindE (Script.Only.bind (Script.only_ask trivial) fun r => ?_) fun raw => ?_
  · cases r with
    | ok raw => exact trivial
    | error e => exact trivial
  · exact trivial

theorem orText_only {text : String} {p : CbScript String}
    (hp : p.run.Only CbCall.IsEthCall) : (orText text p).run.Only CbCall.IsEthCall :=
  Script.Only.bind (Script.Only.bind hp fun _ => trivial) fun _ => trivial

/-- A result that is looked at. -/
theorem only_liftRun {A : CbCall → Prop} {β : Type} {p : CbScript α}
    {f : Except CbError α → CbScript β} (hp : p.run.Only A) (hf : ∀ r, (f r).run.Only A) :
    (ExceptT.lift p.run >>= f).run.Only A :=
  Script.Only.bindE (Script.Only.bind hp fun _ => trivial) hf

theorem curveViews_only (candidate : EvmAddress) :
    (curveViews abi candidate).run.Only CbCall.IsEthCall := by
  refine only_liftRun (callView_only _ _ _) fun r => ?_
  cases r with
  | error e => exact trivial
  | ok token =>
      refine only_liftRun (callView_only _ _ _) fun r => ?_
      cases r with
      | error e => exact trivial
      | ok curveSupply =>
          refine only_liftRun (callView_only _ _ _) fun r => ?_
          cases r with
          | error e => exact trivial
          | ok graduationThreshold => exact trivial

/-! ### The calls of a chunk -/

/-- A call a pass over the logs of a chunk makes. -/
def CbCall.IsPassCall : CbCall → Prop
  | .chain (.ethCall _ _) => True
  | .transact (.setCursor _) => False
  | .transact _ => True
  | .isKnown _ => True
  | .insertKnown _ => True
  | .isNonCurve _ => True
  | .cacheNonCurve _ => True
  | _ => False

/-- A call a chunk makes: of logs it asks for those of its own range, it fetches no tip and it
leaves the cursor alone. -/
def CbCall.IsChunkCall (fromBlock toBlock : Int) : CbCall → Prop
  | .chain (.getLogs start stop _) => start = fromBlock ∧ stop = toBlock
  | .sleep _ => True
  | c => c.IsPassCall

theorem CbCall.IsEthCall.isPassCall {c : CbCall} (h : c.IsEthCall) : c.IsPassCall := by
  cases c with
  | chain c =>
      cases c with
      | ethCall target view => exact trivial
      | _ => exact absurd h fun h => h
  | _ => exact absurd h fun h => h

theorem CbCall.IsPassCall.isChunkCall {c : CbCall} (h : c.IsPassCall) {fromBlock toBlock : Int} :
    c.IsChunkCall fromBlock toBlock := by
  cases c with
  | chain c =>
      cases c with
      | ethCall target view => exact trivial
      | _ => exact absurd h fun h => h
  | sleep nanos => exact trivial
  | _ => exact h

theorem only_liftAsk {A : CbCall → Prop} {c : CbCall} {f : c.Answer → CbScript α} (hc : A c)
    (hf : ∀ r, (f r).run.Only A) : (ExceptT.lift c.ask >>= f).run.Only A :=
  Script.Only.bindE ⟨hc, fun _ => trivial⟩ hf

theorem only_computed {A : CbCall → Prop} {β : Type} {x : Except CbError α} {f : α → CbScript β}
    (hf : ∀ a, (f a).run.Only A) : (ExceptT.mk (Script.pure x) >>= f).run.Only A :=
  Script.Only.bindE (p := ExceptT.mk (Script.pure x)) trivial hf

theorem cbLogsInRange_only (fromBlock toBlock : Int) (address : Option EvmAddress) :
    (cbRetry (cbLogsInRange fromBlock toBlock address)).run.Only
      (CbCall.IsChunkCall fromBlock toBlock) := by
  refine Script.Only.bind (retryFrom_only ?_ ?_ _ _) fun r => ?_
  · unfold cbLogsInRange logsInRange
    split
    · exact trivial
    · split
      · exact trivial
      · split
        · exact trivial
        · exact ⟨⟨rfl, rfl⟩, fun _ => trivial⟩
  · exact fun _ => ⟨trivial, fun _ => trivial⟩
  · cases r with
    | ok logs => exact trivial
    | error e => exact trivial

theorem passOne_only (logs : List RpcLog) : (passOne abi logs).run.Only CbCall.IsPassCall := by
  induction logs with
  | nil => exact trivial
  | cons l rest ih =>
      unfold passOne
      by_cases htopic : l.topics.head? = some abi.curveCreatedHash
      · simp only [htopic, if_true]
        refine Script.Only.bindE ?_ fun _ => only_liftAsk trivial fun _ => ih
        exact only_computed fun row => ⟨trivial, fun _ => trivial⟩
      · simp only [htopic, if_false]
        exact ih

theorem tryAdopt_only (candidate : EvmAddress) (block : Int) (txHash : Hash) :
    (tryAdopt abi candidate block txHash).run.Only CbCall.IsPassCall := by
  refine Script.Only.bindE
    ((curveViews_only candidate).mono fun _ => CbCall.IsEthCall.isPassCall) fun views => ?_
  rcases views with _ | ⟨token, curveSupply, graduationThreshold⟩
  · exact trivial
  · have htext : ∀ text view, (orText text (callString abi token view)).run.Only
        CbCall.IsPassCall :=
      fun _ _ => (orText_only (callView_only _ _ _)).mono fun _ => CbCall.IsEthCall.isPassCall
    refine Script.Only.bindE (htext _ _) fun name => Script.Only.bindE (htext _ _) fun symbol => ?_
    exact Script.Only.bindE ⟨trivial, fun _ => trivial⟩ fun _ => trivial

theorem vetEmitter_only (l : RpcLog) : (vetEmitter abi l).run.Only CbCall.IsPassCall := by
  unfold vetEmitter
  refine only_liftAsk trivial fun known => ?_
  by_cases hknown : known = true
  · simp only [hknown, if_true]
    exact trivial
  · simp only [hknown]
    refine only_liftAsk trivial fun cached => ?_
    by_cases hcached : cached = true
    · simp only [hcached, if_true]
      exact trivial
    · simp only [hcached]
      refine only_liftRun (tryAdopt_only _ _ _) fun r => ?_
      rcases r with e | adopted
      · exact only_liftAsk trivial fun _ => trivial
      · cases adopted with
        | true => exact only_liftAsk trivial fun _ => trivial
        | false => exact only_liftAsk trivial fun _ => trivial

theorem dispatch_only (t0 : B256) (l : RpcLog) :
    (dispatch abi t0 l).run.Only CbCall.IsPassCall := by
  have htrade : ∀ kind fields, (applyTrade kind fields l).run.Only CbCall.IsPassCall :=
    fun kind fields => only_computed fun row => ⟨trivial, fun _ => trivial⟩
  unfold dispatch
  by_cases hbuy : t0 = abi.buyHash
  · simp only [hbuy, if_true]
    exact Script.Only.bindE (htrade _ _) fun _ => trivial
  · simp only [hbuy, if_false]
    by_cases hsell : t0 = abi.sellHash
    · simp only [hsell, if_true]
      exact Script.Only.bindE (htrade _ _) fun _ => trivial
    · simp only [hsell, if_false]
      by_cases hgraduated : t0 = abi.graduatedHash
      · simp only [hgraduated, if_true]
        exact Script.Only.bindE (only_computed fun row => ⟨trivial, fun _ => trivial⟩)
          fun _ => trivial
      · simp only [hgraduated, if_false]
        exact trivial

theorem passTwo_only (logs : List RpcLog) : (passTwo abi logs).run.Only CbCall.IsPassCall := by
  induction logs with
  | nil => exact trivial
  | cons l rest ih =>
      refine Script.Only.bindE ?_ fun _ => ih
      unfold curveLog
      rcases l.topics.head? with _ | t0
      · exact trivial
      · by_cases hcurve : abi.IsCurveTopic t0
        · simp only [hcurve, if_true]
          refine Script.Only.bindE (vetEmitter_only l) fun admitted => ?_
          cases admitted with
          | true => exact dispatch_only t0 l
          | false => exact trivial
        · simp only [hcurve, if_false]
          exact trivial

theorem runChunk_only (fromBlock toBlock : Int) (factory : EvmAddress) :
    (runChunk abi fromBlock toBlock factory).run.Only (CbCall.IsChunkCall fromBlock toBlock) :=
  Script.Only.bindE (cbLogsInRange_only _ _ _) fun factoryLogs =>
    Script.Only.bindE ((passOne_only factoryLogs).mono fun _ h => h.isChunkCall) fun _ =>
      Script.Only.bindE (cbLogsInRange_only _ _ _) fun curveLogs =>
        (passTwo_only curveLogs).mono fun _ h => h.isChunkCall

section Adoption

variable {W : Type} {H : Handler CbSig W} {I J : W → Prop} {R G : W → W → Prop}

/-- **The rule of adoption**: some views are asked, and perhaps a row is inserted. -/
theorem wp_tryAdopt {candidate : EvmAddress} {block : Int} {txHash : Hash}
    {Q : Except CbError Bool → W → Prop} {w : W}
    (hstable : ∀ w w', J w → R w w' → I w' → J w')
    (hprobe : ∀ w c r w', CbCall.IsEthCall c → I w → J w → H w c r w' → I w' ∧ G w w' ∧ J w')
    (hrefused : ∀ w, J w → Q (.ok false) w) (hfailed : ∀ e w, J w → Q (.error e) w)
    (hinsert : ∀ row w, row.curveAddress = hexAddr candidate → J w →
      wp H I R G (Script.toProgE (cbTransact (.insertToken row))).run (fun r w' => match r with
        | .ok _ => Q (.ok true) w'
        | .error e => Q (.error e) w') w)
    (hw : J w) : wp H I R G (Script.toProgE (tryAdopt abi candidate block txHash)).run Q w := by
  have hquiet : ∀ {α : Type} {p : CbScript α}, p.run.Only CbCall.IsEthCall → ∀ w, J w →
      wp H I R G (Script.toProgE p).run (fun _ w' => J w') w :=
    fun hp w hJ => Script.Only.wp_keeps hstable hprobe hp hJ
  refine wp_scriptE_bind (wp_mono (fun views w₁ hJ₁ => ?_) (hquiet (curveViews_only _) w hw))
  rcases views with e | _ | ⟨token, curveSupply, graduationThreshold⟩
  · exact hfailed e w₁ hJ₁
  · exact hrefused w₁ hJ₁
  · refine wp_scriptE_bind (wp_mono (fun name w₂ hJ₂ => ?_)
      (hquiet (orText_only (callView_only _ _ _)) w₁ hJ₁))
    cases name with
    | error e => exact hfailed e w₂ hJ₂
    | ok name =>
        refine wp_scriptE_bind (wp_mono (fun symbol w₃ hJ₃ => ?_)
          (hquiet (orText_only (callView_only _ _ _)) w₂ hJ₂))
        cases symbol with
        | error e => exact hfailed e w₃ hJ₃
        | ok symbol =>
            refine wp_scriptE_bind (wp_mono (fun r w₄ hr => ?_) (hinsert _ w₃ rfl hJ₃))
            cases r with
            | ok u => exact hr
            | error e => exact hr

/-- **The rule of vetting**: an emitter is known, turned away earlier, turned away now, or
adopted. -/
theorem wp_vet {l : RpcLog} {K : W → Prop} {Q : Except CbError Bool → W → Prop} {w : W}
    (hknown : wp H I R G (CbCall.isKnown (hexAddr l.address)).ask.toProg
      (fun known w' => if known then Q (.ok true) w' else K w') w)
    (hcached : ∀ w, K w → wp H I R G (CbCall.isNonCurve (hexAddr l.address)).ask.toProg
      (fun cached w' => if cached then Q (.ok false) w' else J w') w)
    (hprobe : ∀ w, J w → wp H I R G (Script.toProgE (tryAdopt abi l.address
        (asI64 (l.blockNumber.getD 0))
        ((l.transactionHash.map fun h => hex0x h.toList).getD ""))).run
      (fun r w' => if r = .ok true
        then wp H I R G (CbCall.insertKnown (hexAddr l.address)).ask.toProg
          (fun _ w'' => Q (.ok true) w'') w'
        else wp H I R G (CbCall.cacheNonCurve (hexAddr l.address)).ask.toProg
          (fun _ w'' => Q (.ok false) w'') w') w) :
    wp H I R G (Script.toProgE (vetEmitter abi l)).run Q w := by
  unfold vetEmitter
  refine wp_liftAsk (wp_mono (fun known w₁ hw₁ => ?_) hknown)
  cases known with
  | true => exact hw₁
  | false =>
      refine wp_liftAsk (wp_mono (fun cached w₂ hw₂ => ?_) (hcached w₁ hw₁))
      cases cached with
      | true => exact hw₂
      | false =>
          refine wp_liftRun (wp_mono (fun r w₃ hr => ?_) (hprobe w₂ hw₂))
          rcases r with e | adopted
          · exact wp_liftAsk (wp_mono (fun _ _ h => h) (by simpa using hr))
          · cases adopted with
            | true => exact wp_liftAsk (wp_mono (fun _ _ h => h) (by simpa using hr))
            | false => exact wp_liftAsk (wp_mono (fun _ _ h => h) (by simpa using hr))

/-- The same where it does not matter what the views answer. -/
theorem wp_vetEmitter {l : RpcLog} {K : W → Prop} {Q : Except CbError Bool → W → Prop} {w : W}
    (hstable : ∀ w w', J w → R w w' → I w' → J w')
    (hprobe : ∀ w c r w', CbCall.IsEthCall c → I w → J w → H w c r w' → I w' ∧ G w w' ∧ J w')
    (hknown : wp H I R G (CbCall.isKnown (hexAddr l.address)).ask.toProg
      (fun known w' => if known then Q (.ok true) w' else K w') w)
    (hcached : ∀ w, K w → wp H I R G (CbCall.isNonCurve (hexAddr l.address)).ask.toProg
      (fun cached w' => if cached then Q (.ok false) w' else J w') w)
    (hreject : ∀ w, J w → wp H I R G (CbCall.cacheNonCurve (hexAddr l.address)).ask.toProg
      (fun _ w' => Q (.ok false) w') w)
    (hinsert : ∀ row w, row.curveAddress = hexAddr l.address → J w →
      wp H I R G (Script.toProgE (cbTransact (.insertToken row))).run (fun r w' => match r with
        | .ok _ => wp H I R G (CbCall.insertKnown (hexAddr l.address)).ask.toProg
            (fun _ w'' => Q (.ok true) w'') w'
        | .error _ => J w') w) :
    wp H I R G (Script.toProgE (vetEmitter abi l)).run Q w := by
  refine wp_vet hknown hcached fun w hJ => wp_tryAdopt hstable hprobe (fun w hJ => ?_)
    (fun e w hJ => ?_) (fun row w hrow hJ => wp_mono (fun r w' hr => ?_) (hinsert row w hrow hJ)) hJ
  · rw [if_neg (by simp)]
    exact hreject w hJ
  · rw [if_neg (by simp)]
    exact hreject w hJ
  · cases r with
    | ok u =>
        show if _ then _ else _
        rw [if_pos rfl]
        exact hr
    | error e =>
        show if (Except.error e : Except CbError Bool) = .ok true then _ else _
        rw [if_neg (by simp)]
        exact hreject w' hr

end Adoption

/-! ### Curve events -/

section Events

variable {W : Type} {H : Handler CbSig W} {I : W → Prop} {R G : W → W → Prop}

/-- **The rule of dispatch**: a curve event is made into its one transaction. -/
theorem wp_dispatch {t0 : B256} (ht0 : abi.IsCurveTopic t0) {l : RpcLog}
    {Q : Except CbError Unit → W → Prop} {w : W}
    (htxn : ∀ t, curveTxn abi t0 l = .ok t →
      wp H I R G (Script.toProgE (cbTransact t)).run (fun r w' => Q (r.map fun _ => ()) w') w)
    (hbad : ∀ e, curveTxn abi t0 l = .error e → Q (.error e) w) :
    wp H I R G (Script.toProgE (dispatch abi t0 l)).run Q w := by
  have hthen : ∀ {p : CbScript Bool},
      wp H I R G (Script.toProgE p).run (fun r w' => Q (r.map fun _ => ()) w') w →
      wp H I R G (Script.toProgE (p >>= fun _ => pure ())).run Q w := by
    intro p hp
    refine wp_scriptE_bind (wp_mono (fun r w' hr => ?_) hp)
    cases r with
    | ok a => exact hr
    | error e => exact hr
  have htrade : ∀ {kind fields},
      curveTxn abi t0 l = (do return (← tradeRow kind fields l).bumping) →
      wp H I R G (Script.toProgE (applyTrade kind fields l)).run
        (fun r w' => Q (r.map fun _ => ()) w') w := by
    intro kind fields hcurve
    refine wp_computed (fun row hrow => htxn row.bumping ?_) fun e he => hbad e ?_
    · rw [hcurve, hrow]
      rfl
    · rw [hcurve, he]
      rfl
  unfold dispatch
  by_cases hbuy : t0 = abi.buyHash
  · rw [if_pos hbuy]
    exact hthen (htrade (by rw [curveTxn, if_pos hbuy]))
  · by_cases hsell : t0 = abi.sellHash
    · rw [if_neg hbuy, if_pos hsell]
      exact hthen (htrade (by rw [curveTxn, if_neg hbuy, if_pos hsell]))
    · have hcurve : curveTxn abi t0 l =
          (do return .writeGraduated (← tradeRow .graduated (graduatedFields abi) l)) := by
        rw [curveTxn, if_neg hbuy, if_neg hsell]
      rw [if_neg hbuy, if_neg hsell, if_pos ((ht0.resolve_left hbuy).resolve_left hsell)]
      refine hthen (wp_computed (fun row hrow => htxn (.writeGraduated row) ?_)
        fun e he => hbad e ?_)
      · rw [hcurve, hrow]
        rfl
      · rw [hcurve, he]
        rfl

/-- **The rule of a log**: a curve event goes to the emitter and, if that is let in, is
dispatched; any other log is skipped. -/
theorem wp_curveLog {l : RpcLog} {Q : Except CbError Unit → W → Prop} {w : W}
    (hskip : (∀ t0, l.topics.head? = some t0 → ¬ abi.IsCurveTopic t0) → Q (.ok ()) w)
    (hevent : ∀ t0, l.topics.head? = some t0 → abi.IsCurveTopic t0 →
      wp H I R G (Script.toProgE (vetEmitter abi l)).run (fun r w' => match r with
        | .ok admitted => if admitted
            then wp H I R G (Script.toProgE (dispatch abi t0 l)).run Q w'
            else Q (.ok ()) w'
        | .error e => Q (.error e) w') w) :
    wp H I R G (Script.toProgE (curveLog abi l)).run Q w := by
  unfold curveLog
  rcases htopic : l.topics.head? with _ | t0
  · exact hskip fun t0 ht0 => absurd (htopic.symm.trans ht0) (by simp)
  · by_cases hcurve : abi.IsCurveTopic t0
    · simp only [hcurve, if_true]
      refine wp_scriptE_bind (wp_mono (fun r w' hr => ?_) (hevent t0 htopic hcurve))
      rcases r with e | admitted
      · exact hr
      · cases admitted with
        | true => exact hr
        | false => exact hr
    · simp only [hcurve, if_false]
      refine hskip fun t0' ht0' => ?_
      obtain rfl := Option.some.inj (htopic.symm.trans ht0')
      exact hcurve

end Events

end SentrixIndexer
