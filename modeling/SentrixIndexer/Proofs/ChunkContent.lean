/-
What a chunk chokes on.

The nodes answer every call and the database refuses a statement only for its content.  A
chunk then goes through exactly if each log in turn is digestible in the state the logs before
it have left: a creation whose fields are there and decode, whose text has no NUL and whose
token is not another curve's, and, from an emitter that is let in, an event whose fields are
there and decode and that fits the columns of its curve's row.  Anything else fails the chunk
from the same cursor again and again.
-/
import SentrixIndexer.Coinblast.Nodes
import SentrixIndexer.Effect.Succeeds
import SentrixIndexer.Proofs.CurveStatements

namespace SentrixIndexer

open Effect Relational

variable {abi : Abi} {s s' : CbStore} {l : RpcLog}

/-! ### Digestible logs -/

/-- The block number is there and fits a `bigint`. -/
def HasBlock (l : RpcLog) : Prop := ∃ n, l.blockNumber = some n ∧ (n.toNat : Int) ≤ i64Max

/-- The insert does not run into a NUL or into the token of another curve. -/
def Insertable (s : CbStore) (curve token : Address) (name symbol : String) : Prop :=
  ¬ HasNul name ∧ ¬ HasNul symbol ∧
    (s.tokens.contains curve = true ∨ ∀ r ∈ s.tokens.rows, r.tokenAddress ≠ token)

/-- A creation the store takes. -/
def AcceptsCreated (abi : Abi) (s : CbStore) (l : RpcLog) : Prop :=
  HasBlock l ∧ l.transactionHash.isSome ∧
    ∃ event, abi.decodeCurveCreated l.topics l.data = .ok event ∧
      Insertable s (hexAddr event.curve) (hexAddr event.token) event.name event.symbol

/-- What is read of a curve event with this topic. -/
def curveFields (abi : Abi) (t0 : B256) (l : RpcLog) : Except CbError TradeFields :=
  if t0 = abi.buyHash then buyFields abi l
  else if t0 = abi.sellHash then sellFields abi l
  else graduatedFields abi l

/-- One more deal fits the columns of the curve's row. -/
def FitsRow (s : CbStore) (curve : Address) (srx : Wei) : Prop :=
  ∀ r, s.tokens.find? curve = some r →
    r.totalVolumeSrx + srx.toNat < numericBound ∧ (r.tradeCount + 1 : Int) ≤ i32Max

/-- A curve event the store takes. -/
def AcceptsTrade (abi : Abi) (s : CbStore) (t0 : B256) (l : RpcLog) : Prop :=
  HasBlock l ∧ ∃ index txHash fields, l.logIndex = some index ∧ (index.toNat : Int) ≤ i32Max ∧
    l.transactionHash = some txHash ∧ curveFields abi t0 l = .ok fields ∧
    (t0 = abi.buyHash ∨ t0 = abi.sellHash →
      s.trades.contains (hex0x txHash.toList, (index.toNat : Int)) = true ∨
      FitsRow s (hexAddr l.address) fields.srx)

/-! ### When a statement succeeds -/

theorem insertToken_isOk {t : InsertCbToken} :
    (∃ a s', CbTokens.insert t s = .ok (a, s')) ↔
      Insertable s t.curveAddress t.tokenAddress t.name t.symbol := by
  unfold CbTokens.insert Insertable
  by_cases hnul : HasNul t.name ∨ HasNul t.symbol
  · rw [if_pos hnul]
    constructor
    · rintro ⟨a, s', h⟩
      exact absurd h (by simp)
    · rintro ⟨hname, hsymbol, -⟩
      exact absurd hnul (by simp [hname, hsymbol])
  · rw [if_neg hnul]
    obtain ⟨hname, hsymbol⟩ := not_or.mp hnul
    by_cases hstored : s.tokens.contains t.curveAddress = true
    · rw [if_pos hstored]
      exact ⟨fun _ => ⟨hname, hsymbol, Or.inl hstored⟩, fun _ => ⟨_, _, rfl⟩⟩
    · rw [if_neg hstored]
      by_cases htaken : (s.tokens.rows.any fun r => r.tokenAddress = t.tokenAddress) = true
      · rw [if_pos htaken]
        obtain ⟨r, hr, hsame⟩ := List.any_eq_true.mp htaken
        constructor
        · rintro ⟨a, s', h⟩
          exact absurd h (by simp)
        · rintro ⟨-, -, h | h⟩
          · exact absurd h hstored
          · exact absurd (of_decide_eq_true hsame) (h r hr)
      · rw [if_neg htaken]
        refine ⟨fun _ => ⟨hname, hsymbol, Or.inr fun r hr hsame => ?_⟩, fun _ => ⟨_, _, rfl⟩⟩
        exact htaken (List.any_eq_true.mpr ⟨r, hr, decide_eq_true hsame⟩)

theorem bumpTradeAggregate_isOk {curve : Address} {srx lastPrice : Wei} :
    (∃ a s', CbTokens.bumpTradeAggregate curve srx lastPrice s = .ok (a, s')) ↔
      FitsRow s curve srx := by
  unfold CbTokens.bumpTradeAggregate FitsRow
  rcases s.tokens.find? curve with _ | r
  · exact ⟨fun _ r hr => absurd hr (by simp), fun _ => ⟨_, _, rfl⟩⟩
  · simp only [Option.some.injEq, forall_eq']
    by_cases hvolume : numericBound ≤ r.totalVolumeSrx + srx.toNat
    · simp only [hvolume, if_true]
      refine ⟨?_, fun h => absurd h.1 (by omega)⟩
      rintro ⟨a, s', h⟩
      exact absurd h (by simp)
    · simp only [hvolume, if_false]
      by_cases hcount : i32Max < r.tradeCount + 1
      · simp only [hcount, if_true]
        refine ⟨?_, fun h => absurd h.2 (by omega)⟩
        rintro ⟨a, s', h⟩
        exact absurd h (by simp)
      · simp only [hcount, if_false]
        exact ⟨fun _ => ⟨by omega, by omega⟩, fun _ => ⟨_, _, rfl⟩⟩

theorem insertThen_isOk {t : CbTrade} {update : CbStatement Unit} :
    (∃ a s', insertThen t update s = .ok (a, s')) ↔
      s.trades.contains t.key = true ∨
        ∃ a s', update { s with trades := s.trades.insertNew t } = .ok (a, s') := by
  unfold insertThen CbTrades.insert
  by_cases hstored : s.trades.contains t.key = true
  · simp [hstored, bind, Except.bind, pure, Except.pure]
  · rw [Bool.not_eq_true] at hstored
    simp only [hstored]
    rcases hu : update { s with trades := s.trades.insertNew t } with e | ⟨u, s₁⟩
    · simp [hu, bind, Except.bind]
    · simp [hu, bind, Except.bind, pure, Except.pure]

/-! ### When a row can be made -/

theorem curveCreatedRow_isOk :
    (∃ row, curveCreatedRow abi l = .ok row ∧
      Insertable s row.curveAddress row.tokenAddress row.name row.symbol) ↔
      AcceptsCreated abi s l := by
  unfold curveCreatedRow AcceptsCreated
  simp only [bind_ok, requireBlockNumber_ok, requireTxHash_ok, decodeLog_ok]
  constructor
  · rintro ⟨row, ⟨block, ⟨n, hn, hfits, -⟩, txHash, ⟨h, hh, -⟩, event, hevent, hrow⟩, hok⟩
    rw [← Except.ok.inj hrow] at hok
    exact ⟨⟨n, hn, hfits⟩, by rw [hh]; rfl, event, hevent, hok⟩
  · rintro ⟨⟨n, hn, hfits⟩, hh, event, hevent, hok⟩
    obtain ⟨h, hh⟩ := Option.isSome_iff_exists.mp hh
    exact ⟨_, ⟨n.toNat, ⟨n, hn, hfits, rfl⟩, _, ⟨h, hh, rfl⟩, event, hevent, rfl⟩, hok⟩

/-- A row can be made of the log, and `P` holds of its key and its amount. -/
theorem tradeRow_isOk (kind : TradeKind) (fields : RpcLog → Except CbError TradeFields)
    (P : Hash × Int → Wei → Prop) :
    (∃ row, tradeRow kind fields l = .ok row ∧ P row.key row.srxAmount) ↔
      HasBlock l ∧ ∃ index txHash event, l.logIndex = some index ∧
        (index.toNat : Int) ≤ i32Max ∧ l.transactionHash = some txHash ∧ fields l = .ok event ∧
        P (hex0x txHash.toList, (index.toNat : Int)) event.srx := by
  unfold tradeRow
  simp only [bind_ok, requireBlockNumber_ok, requireLogIndex_ok, requireTxHash_ok]
  constructor
  · rintro ⟨row, ⟨_, ⟨block, hb, hbfits, rfl⟩, _, ⟨index, hi, hifits, rfl⟩, _, ⟨txHash, ht, rfl⟩,
      event, hevent, hrow⟩, hP⟩
    rw [← Except.ok.inj hrow] at hP
    exact ⟨⟨block, hb, hbfits⟩, index, txHash, event, hi, hifits, ht, hevent, hP⟩
  · rintro ⟨⟨block, hb, hbfits⟩, index, txHash, event, hi, hifits, ht, hevent, hP⟩
    exact ⟨_, ⟨_, ⟨block, hb, hbfits, rfl⟩, _, ⟨index, hi, hifits, rfl⟩, _, ⟨txHash, ht, rfl⟩,
      event, hevent, rfl⟩, hP⟩

/-! ### Surroundings that never fail -/

variable {χ : Type}

/-- What the views of a contract may return. -/
abbrev Views := EvmAddress → ViewFn → Except ChainError (List UInt8) → Prop

/-- Nodes that deliver these logs of the factory and of everybody. -/
def delivering (factoryLogs curveLogs : List RpcLog) (views : Views) : CbRpc χ
  | chain, .blockNumber, r, chain' => (∃ tip, r = .ok tip) ∧ chain' = chain
  | chain, .getLogs _ _ (some _), r, chain' => r = .ok factoryLogs ∧ chain' = chain
  | chain, .getLogs _ _ none, r, chain' => r = .ok curveLogs ∧ chain' = chain
  | chain, .ethCall target view, r, chain' => views target view r ∧ chain' = chain

/-- A transaction is refused only for its content. -/
def ContentOnly (w : CbWorld χ) : (c : CbCall) → c.Answer → Prop
  | .transact t, r => (∃ e, r = .error e) → ∃ e, t.run w.store = .error e
  | _, _ => True

def contentHandle (rpc : CbRpc χ) : Handler CbSig (CbWorld χ) :=
  fun w c r w' => cbHandle rpc w c r w' ∧ ContentOnly w c r

section Transactions

variable {rpc : CbRpc χ} {w w' : CbWorld χ}

/-- **A transaction succeeds exactly if its statements do.** -/
theorem run_transact_ok {t : CbTxn} {a : t.Result} :
    Run (contentHandle rpc) w (cbTransact t).run.toProg w' (.ok a) ↔
      ∃ s, t.run w.store = .ok (a, s) ∧
        w' = { w with store := s, record := w.record.noteTxn t (.ok a) } := by
  show Run _ w (Prog.ask (S := CbSig) (.transact t)) w' (.ok a) ↔ _
  rw [run_ask]
  constructor
  · rintro ⟨⟨b, s, hrun, hr | ⟨e, he⟩, rfl⟩ | ⟨⟨e, he⟩, -⟩, -⟩
    · obtain rfl := Except.ok.inj hr
      exact ⟨s, hrun, rfl⟩
    · exact absurd he (by simp)
    · exact absurd he (by simp)
  · rintro ⟨s, hrun, rfl⟩
    exact ⟨Or.inl ⟨a, s, hrun, Or.inl rfl, rfl⟩, fun he => absurd he (by simp)⟩

theorem succeeds_transact {t : CbTxn} :
    Succeeds (contentHandle rpc) (cbTransact t) w ↔ ∃ a s, t.run w.store = .ok (a, s) := by
  constructor
  · intro h
    rcases hrun : t.run w.store with e | ⟨a, s⟩
    · have hfails : Run (contentHandle rpc) w (cbTransact t).run.toProg w (.error (.db e)) :=
        run_ask.mpr ⟨Or.inr ⟨⟨_, rfl⟩, rfl⟩, fun _ => ⟨e, hrun⟩⟩
      obtain ⟨a, ha⟩ := h _ _ hfails
      exact absurd ha (by simp)
    · exact ⟨a, s, rfl⟩
  · rintro ⟨a, s, hrun⟩ w' r h
    cases r with
    | ok b => exact ⟨b, rfl⟩
    | error e =>
        obtain ⟨e', he'⟩ := (run_ask.mp h).2 ⟨e, rfl⟩
        exact absurd (hrun.symm.trans he') (by simp)

end Transactions

/-! ### Handlers -/

section Handlers

variable {rpc : CbRpc χ} {w w' : CbWorld χ} {α : Type}

/-- A handler whose result is dropped. -/
theorem succeeds_drop {p : CbScript α} :
    Succeeds (contentHandle rpc) (p >>= fun _ => pure ()) w ↔ Succeeds (contentHandle rpc) p w := by
  rw [succeeds_bind]
  exact ⟨fun h => h.1, fun h => ⟨h, fun _ _ _ => succeeds_pure _ _⟩⟩

theorem succeeds_applyCurveCreated :
    Succeeds (contentHandle rpc) (applyCurveCreated abi l) w ↔ AcceptsCreated abi w.store l := by
  rw [← curveCreatedRow_isOk]
  refine succeeds_computed.trans (exists_congr fun row => and_congr_right fun _ => ?_)
  exact succeeds_transact.trans insertToken_isOk

/-- A buy or a sell. -/
theorem succeeds_applyTrade {kind : TradeKind} {fields : RpcLog → Except CbError TradeFields} :
    Succeeds (contentHandle rpc) (applyTrade kind fields l) w ↔
      HasBlock l ∧ ∃ index txHash event, l.logIndex = some index ∧
        (index.toNat : Int) ≤ i32Max ∧ l.transactionHash = some txHash ∧ fields l = .ok event ∧
        (w.store.trades.contains (hex0x txHash.toList, (index.toNat : Int)) = true ∨
          FitsRow w.store (hexAddr l.address) event.srx) := by
  rw [← tradeRow_isOk kind fields fun key srx =>
    w.store.trades.contains key = true ∨ FitsRow w.store (hexAddr l.address) srx]
  refine succeeds_computed.trans (exists_congr fun row => and_congr_right fun hrow => ?_)
  rw [← (tradeRow_ok hrow).1]
  exact succeeds_transact.trans (insertThen_isOk.trans (or_congr_right bumpTradeAggregate_isOk))

theorem succeeds_applyGraduated :
    Succeeds (contentHandle rpc) (applyGraduated abi l) w ↔
      HasBlock l ∧ ∃ index txHash event, l.logIndex = some index ∧
        (index.toNat : Int) ≤ i32Max ∧ l.transactionHash = some txHash ∧
        graduatedFields abi l = .ok event ∧ True := by
  rw [← tradeRow_isOk .graduated (graduatedFields abi) fun _ _ => True]
  refine succeeds_computed.trans (exists_congr fun row => and_congr_right fun _ => ?_)
  exact succeeds_transact.trans (iff_true_intro (insertThen_isOk.mpr (Or.inr ⟨_, _, rfl⟩)))

/-- **A curve event goes through exactly if the store takes it.** -/
theorem succeeds_dispatch {t0 : B256} (ht0 : abi.IsCurveTopic t0) :
    Succeeds (contentHandle rpc) (dispatch abi t0 l) w ↔ AcceptsTrade abi w.store t0 l := by
  unfold dispatch AcceptsTrade curveFields
  by_cases hbuy : t0 = abi.buyHash
  · simp only [hbuy, if_true, true_or, true_implies]
    exact succeeds_drop.trans succeeds_applyTrade
  · by_cases hsell : t0 = abi.sellHash
    · have hother : abi.sellHash ≠ abi.buyHash := fun h => hbuy (hsell.trans h)
      simp only [hsell, hother, if_true, if_false, or_true, true_implies]
      exact succeeds_drop.trans succeeds_applyTrade
    · have hgraduated : t0 = abi.graduatedHash := (ht0.resolve_left hbuy).resolve_left hsell
      simp only [hbuy, hsell, if_false, or_self, false_implies]
      rw [if_pos hgraduated]
      exact succeeds_drop.trans succeeds_applyGraduated

end Handlers

/-! ### Vetting an emitter -/

/-- The view may return the value. -/
def Returns {α : Type} (views : Views) (decoder : List UInt8 → Except String α)
    (target : EvmAddress) (view : ViewFn) (a : α) : Prop :=
  ∃ x, views target view x ∧ viewResult decoder x = .ok a

/-- The text a view may return, or the text that stands for it. -/
def ReturnsText (abi : Abi) (views : Views) (target : EvmAddress) (view : ViewFn)
    (text : String) (name : String) : Prop :=
  ∃ x, views target view x ∧ name = (viewResult abi.decodeName x).toOption.getD text

/-- The row an emitter may be adopted with. -/
structure Offers (abi : Abi) (views : Views) (candidate : EvmAddress) (row : InsertCbToken) :
    Prop where
  curve : row.curveAddress = hexAddr candidate
  owner : row.ownerAddress = zeroAddr
  views : ∃ token, row.tokenAddress = hexAddr token ∧
    Returns views abi.decodeToken candidate .token token ∧
    Returns views decodeUint256 candidate .curveSupply row.curveSupply ∧
    Returns views decodeUint256 candidate .graduationSrxThreshold row.graduationThreshold ∧
    ReturnsText abi views token .name "Unknown" row.name ∧
    ReturnsText abi views token .symbol "???" row.symbol

/-- The views may answer so that the emitter is adopted. -/
def Adoptable (abi : Abi) (views : Views) (s : CbStore) (candidate : EvmAddress) : Prop :=
  ∃ row, Offers abi views candidate row ∧
    Insertable s row.curveAddress row.tokenAddress row.name row.symbol

/-- The emitter is let in: it is known, or it has not been turned away and may be adopted. -/
def Admitted (abi : Abi) (views : Views) (w : CbWorld χ) (emitter : EvmAddress) : Prop :=
  hexAddr emitter ∈ w.knownCurves ∨
    hexAddr emitter ∉ w.knownNonCurves ∧ Adoptable abi views w.store emitter

section Vetting

variable {factoryLogs curveLogs : List RpcLog} {views : Views} {w w' : CbWorld χ} {α : Type}

/-- The surroundings of the chunk. -/
abbrev ServedChunk (factoryLogs curveLogs : List RpcLog) (views : Views) : Handler CbSig (CbWorld χ) :=
  contentHandle (delivering factoryLogs curveLogs views)

theorem run_callView {decoder : List UInt8 → Except String α} {target : EvmAddress}
    {view : ViewFn} {r : Except CbError α} :
    Run (ServedChunk factoryLogs curveLogs views) w (callView decoder target view).run.toProg w' r ↔
      w' = w ∧ ∃ x, views target view x ∧ r = viewResult decoder x := by
  show Run _ w (Prog.call (S := CbSig) (.chain (.ethCall target view)) _) w' r ↔ _
  rw [run_call]
  constructor
  · rintro ⟨x, w₁, ⟨⟨chain', ⟨hx, rfl⟩, rfl⟩, -⟩, hk⟩
    rcases x with e | raw
    · obtain ⟨rfl, rfl⟩ := run_pure.mp hk
      exact ⟨rfl, _, hx, rfl⟩
    · obtain ⟨rfl, rfl⟩ := run_pure.mp hk
      exact ⟨rfl, _, hx, rfl⟩
  · rintro ⟨rfl, x, hx, rfl⟩
    refine ⟨x, w', ⟨⟨w'.chain, ⟨hx, rfl⟩, rfl⟩, trivial⟩, ?_⟩
    rcases x with e | raw
    · exact Run.pure _ _
    · exact Run.pure _ _

theorem run_orText {text : String} {p : CbScript String} {r : Except CbError String} :
    Run (ServedChunk factoryLogs curveLogs views) w (orText text p).run.toProg w' r ↔
      ∃ x, Run (ServedChunk factoryLogs curveLogs views) w p.run.toProg w' x ∧
        r = .ok (x.toOption.getD text) := by
  show Run _ w ((p.run.bind fun x => .pure (x.toOption.getD text)).bind
    fun x => .pure (Except.ok x)).toProg w' r ↔ _
  rw [Script.bind_assoc, Script.toProg_bind, run_bind]
  constructor
  · rintro ⟨w₁, x, hx, hk⟩
    obtain ⟨rfl, rfl⟩ := run_pure.mp hk
    exact ⟨x, hx, rfl⟩
  · rintro ⟨x, hx, rfl⟩
    exact ⟨w', x, hx, Run.pure _ _⟩

/-- A text is read without a change of state. -/
theorem run_readText {target : EvmAddress} {view : ViewFn} {text name : String} :
    Run (ServedChunk factoryLogs curveLogs views) w
        (orText text (callString abi target view)).run.toProg w' (.ok name) ↔
      w' = w ∧ ReturnsText abi views target view text name := by
  rw [run_orText]
  constructor
  · rintro ⟨x, hx, hname⟩
    obtain ⟨rfl, y, hy, rfl⟩ := run_callView.mp hx
    exact ⟨rfl, y, hy, Except.ok.inj hname⟩
  · rintro ⟨rfl, y, hy, rfl⟩
    exact ⟨_, run_callView.mpr ⟨rfl, y, hy, rfl⟩, rfl⟩

/-- A view that is looked at, whether it fails or not. -/
theorem run_look {β : Type} {decoder : List UInt8 → Except String α} {target : EvmAddress}
    {view : ViewFn} {f : Except CbError α → CbScript β} {r : Except CbError β} :
    Run (ServedChunk factoryLogs curveLogs views) w
        (ExceptT.lift (callView decoder target view).run >>= f).run.toProg w' r ↔
      ∃ x, views target view x ∧ Run (ServedChunk factoryLogs curveLogs views) w
        (f (viewResult decoder x)).run.toProg w' r := by
  rw [run_scriptE_bind]
  constructor
  · rintro (⟨w₁, y, hy, hk⟩ | ⟨e, he, rfl⟩)
    · obtain ⟨z, hz, hyz⟩ := run_liftRun.mp hy
      obtain ⟨rfl, x, hx, rfl⟩ := run_callView.mp hz
      rw [Except.ok.inj hyz] at hk
      exact ⟨x, hx, hk⟩
    · obtain ⟨z, -, hz⟩ := run_liftRun.mp he
      exact absurd hz (by simp)
  · rintro ⟨x, hx, hk⟩
    exact Or.inl ⟨w, _, run_liftRun.mpr ⟨_, run_callView.mpr ⟨rfl, x, hx, rfl⟩, rfl⟩, hk⟩

/-- All three views answer. -/
theorem run_curveViews {candidate token : EvmAddress} {curveSupply threshold : Wei} :
    Run (ServedChunk factoryLogs curveLogs views) w (curveViews abi candidate).run.toProg w'
        (.ok (some (token, curveSupply, threshold))) ↔
      w' = w ∧ Returns views abi.decodeToken candidate .token token ∧
        Returns views decodeUint256 candidate .curveSupply curveSupply ∧
        Returns views decodeUint256 candidate .graduationSrxThreshold threshold := by
  unfold curveViews callToken callUint256
  rw [run_look]
  constructor
  · rintro ⟨x, hx, h⟩
    rcases hxr : viewResult abi.decodeToken x with e | token'
    · rw [hxr] at h
      exact absurd (run_script_pure.mp h).2 (by simp)
    · rw [hxr] at h
      obtain ⟨y, hy, h⟩ := run_look.mp h
      rcases hyr : viewResult decodeUint256 y with e | curveSupply'
      · rw [hyr] at h
        exact absurd (run_script_pure.mp h).2 (by simp)
      · rw [hyr] at h
        obtain ⟨z, hz, h⟩ := run_look.mp h
        rcases hzr : viewResult decodeUint256 z with e | threshold'
        · rw [hzr] at h
          exact absurd (run_script_pure.mp h).2 (by simp)
        · rw [hzr] at h
          obtain ⟨rfl, hall⟩ := run_script_pure.mp h
          obtain ⟨rfl, rfl, rfl⟩ : token = token' ∧ curveSupply = curveSupply' ∧
            threshold = threshold' := by simpa using hall
          exact ⟨rfl, ⟨x, hx, hxr⟩, ⟨y, hy, hyr⟩, ⟨z, hz, hzr⟩⟩
  · rintro ⟨rfl, ⟨x, hx, hxr⟩, ⟨y, hy, hyr⟩, ⟨z, hz, hzr⟩⟩
    refine ⟨x, hx, ?_⟩
    rw [hxr]
    refine run_look.mpr ⟨y, hy, ?_⟩
    rw [hyr]
    refine run_look.mpr ⟨z, hz, ?_⟩
    rw [hzr]
    exact Run.pure _ _

/-- **An adoption** asks the views and inserts the row they offer. -/
theorem run_tryAdopt {candidate : EvmAddress} {block : Int} {txHash : Hash} :
    Run (ServedChunk factoryLogs curveLogs views) w
        (tryAdopt abi candidate block txHash).run.toProg w' (.ok true) ↔
      ∃ row s, Offers abi views candidate row ∧ row.createdBlock = block ∧
        row.createdTxHash = txHash ∧ CbTokens.insert row w.store = .ok ((), s) ∧
        w' = { w with store := s, record := w.record.noteTxn (.insertToken row) (.ok ()) } := by
  constructor
  · intro h
    rcases run_scriptE_bind.mp h with ⟨w₁, found, hviews, hfound⟩ | ⟨e, -, he⟩
    · rcases found with _ | ⟨token, curveSupply, threshold⟩
      · exact absurd (run_script_pure.mp hfound).2 (by simp)
      · obtain ⟨rfl, htoken, hsupply, hthreshold⟩ := run_curveViews.mp hviews
        rcases run_scriptE_bind.mp hfound with ⟨w₂, name, hasked, hnamed⟩ | ⟨e, -, he⟩
        · obtain ⟨rfl, hname⟩ := run_readText.mp hasked
          rcases run_scriptE_bind.mp hnamed with ⟨w₃, symbol, hasked', hboth⟩ | ⟨e, -, he⟩
          · obtain ⟨rfl, hsymbol⟩ := run_readText.mp hasked'
            rcases run_scriptE_bind.mp hboth with ⟨w₄, u, hinsert, hdone⟩ | ⟨e, -, he⟩
            · obtain ⟨s, hs, rfl⟩ := run_transact_ok.mp hinsert
              obtain ⟨rfl, -⟩ := run_script_pure.mp hdone
              exact ⟨_, s, ⟨rfl, rfl, token, rfl, htoken, hsupply, hthreshold, hname, hsymbol⟩,
                rfl, rfl, hs, rfl⟩
            · exact absurd he (by simp)
          · exact absurd he (by simp)
        · exact absurd he (by simp)
    · exact absurd he (by simp)
  · rintro ⟨row, s, ⟨hcurve, howner, token, htokenAddr, htoken, hsupply, hthreshold, hname,
      hsymbol⟩, hblock, htx, hs, rfl⟩
    have hrow : row = {
        curveAddress := hexAddr candidate
        tokenAddress := hexAddr token
        ownerAddress := zeroAddr
        name := row.name
        symbol := row.symbol
        curveSupply := row.curveSupply
        graduationThreshold := row.graduationThreshold
        createdBlock := block
        createdTxHash := txHash } := by
      rw [← hcurve, ← howner, ← htokenAddr, ← hblock, ← htx]
    refine run_scriptE_bind.mpr (Or.inl ⟨w, _, run_curveViews.mpr ⟨rfl, htoken, hsupply,
      hthreshold⟩, ?_⟩)
    refine run_scriptE_bind.mpr (Or.inl ⟨w, _, run_readText.mpr ⟨rfl, hname⟩, ?_⟩)
    refine run_scriptE_bind.mpr (Or.inl ⟨w, _, run_readText.mpr ⟨rfl, hsymbol⟩, ?_⟩)
    rw [← hrow]
    exact run_scriptE_bind.mpr (Or.inl ⟨_, (), run_transact_ok.mpr ⟨s, hs, rfl⟩, Run.pure _ _⟩)

/-- The store once the emitter is let in: as it was, or with a row for it. -/
def LetIn (s : CbStore) (emitter : EvmAddress) (s' : CbStore) : Prop :=
  s' = s ∨ ∃ row : InsertCbToken, row.curveAddress = hexAddr emitter ∧
    s' = { s with tokens := s.tokens.insertNew row.row }

/-- A turned away emitter goes into the cache. -/
theorem not_run_turnAway {a : Address} :
    ¬ Run (ServedChunk factoryLogs curveLogs views) w
      (ExceptT.lift (CbCall.cacheNonCurve a).ask >>= fun _ => pure false : CbScript Bool).run.toProg
        w' (.ok true) := by
  intro h
  rcases run_scriptE_bind.mp h with ⟨w₁, u, -, hfalse⟩ | ⟨e, -, he⟩
  · exact absurd (run_script_pure.mp hfalse).2 (by simp)
  · exact absurd he (by simp)

/-- **Who is let in is admitted.** -/
theorem vetEmitter_lets_in
    (h : Run (ServedChunk factoryLogs curveLogs views) w (vetEmitter abi l).run.toProg w' (.ok true)) :
    Admitted abi views w l.address ∧ LetIn w.store l.address w'.store := by
  unfold vetEmitter at h
  rcases run_scriptE_bind.mp h with ⟨w₁, known, hasked, hknown⟩ | ⟨e, -, he⟩
  · obtain ⟨b, ⟨⟨rfl, rfl⟩, -⟩, hb⟩ := run_liftAsk.mp hasked
    obtain rfl := Except.ok.inj hb
    by_cases hmem : hexAddr l.address ∈ w₁.knownCurves
    · simp only [hmem, decide_true, if_true] at hknown
      obtain ⟨rfl, -⟩ := run_script_pure.mp hknown
      exact ⟨Or.inl hmem, Or.inl rfl⟩
    · simp only [hmem, decide_false] at hknown
      rcases run_scriptE_bind.mp hknown with ⟨w₂, cached, hasked', hcached⟩ | ⟨e, -, he⟩
      · obtain ⟨c, ⟨⟨rfl, rfl⟩, -⟩, hc⟩ := run_liftAsk.mp hasked'
        obtain rfl := Except.ok.inj hc
        by_cases hnon : hexAddr l.address ∈ w₂.knownNonCurves
        · simp only [hnon, decide_true, if_true] at hcached
          exact absurd (run_script_pure.mp hcached).2 (by simp)
        · simp only [hnon, decide_false] at hcached
          rcases run_scriptE_bind.mp hcached with ⟨w₃, found, hfound, hlast⟩ | ⟨e, -, he⟩
          · obtain ⟨x, hadopt, hx⟩ := run_liftRun.mp hfound
            obtain rfl := Except.ok.inj hx
            rcases found with e | adopted
            · exact absurd hlast not_run_turnAway
            · cases adopted with
              | false => exact absurd hlast not_run_turnAway
              | true =>
                  obtain ⟨row, s, hoffer, -, -, hinsert, rfl⟩ := run_tryAdopt.mp hadopt
                  have hstore : w'.store = s := by
                    rcases run_scriptE_bind.mp hlast with ⟨w₄, u, hset, htrue⟩ | ⟨e, -, he⟩
                    · obtain ⟨u', ⟨hH, -⟩, -⟩ := run_liftAsk.mp hset
                      obtain ⟨rfl, -⟩ := run_script_pure.mp htrue
                      rw [show w' = _ from hH]
                    · exact absurd he (by simp)
                  rw [hstore, insertToken_ok hinsert]
                  exact ⟨Or.inr ⟨hnon, row, hoffer, insertToken_isOk.mp ⟨_, _, hinsert⟩⟩,
                    Or.inr ⟨row, hoffer.curve, rfl⟩⟩
          · exact absurd he (by simp)
      · exact absurd he (by simp)
  · exact absurd he (by simp)

/-- And whoever is admitted may be let in. -/
theorem exists_vetEmitter (h : Admitted abi views w l.address) :
    ∃ w', Run (ServedChunk factoryLogs curveLogs views) w (vetEmitter abi l).run.toProg w'
      (.ok true) := by
  unfold vetEmitter
  by_cases hmem : hexAddr l.address ∈ w.knownCurves
  · refine ⟨w, run_scriptE_bind.mpr (Or.inl ⟨w, true, ?_, ?_⟩)⟩
    · exact run_liftAsk.mpr ⟨true, ⟨⟨(decide_eq_true hmem).symm, rfl⟩, trivial⟩, rfl⟩
    · exact Run.pure _ _
  · obtain ⟨hnon, row, hoffer, hok⟩ := h.resolve_left hmem
    -- The row as it is offered, with the block and the transaction of this log.
    let row' : InsertCbToken := { row with
      createdBlock := asI64 (l.blockNumber.getD 0)
      createdTxHash := (l.transactionHash.map fun h => hex0x h.toList).getD "" }
    obtain ⟨u, s, hinsert⟩ := (insertToken_isOk (t := row')).mpr hok
    let w₁ : CbWorld χ :=
      { w with store := s, record := w.record.noteTxn (.insertToken row') (.ok ()) }
    let w₂ : CbWorld χ :=
      { w₁ with knownCurves := insertAddress w₁.knownCurves (hexAddr l.address) }
    have hadopt : Run (ServedChunk factoryLogs curveLogs views) w
        (tryAdopt abi l.address row'.createdBlock row'.createdTxHash).run.toProg w₁ (.ok true) :=
      run_tryAdopt.mpr ⟨row', s, ⟨hoffer.curve, hoffer.owner, hoffer.views⟩, rfl, rfl, hinsert, rfl⟩
    have hset : Run (ServedChunk factoryLogs curveLogs views) w₁
        (ExceptT.lift (CbCall.insertKnown (hexAddr l.address)).ask >>=
          fun _ => pure true : CbScript Bool).run.toProg w₂ (.ok true) :=
      run_scriptE_bind.mpr (Or.inl ⟨w₂, (), run_liftAsk.mpr ⟨(), ⟨rfl, trivial⟩, rfl⟩,
        Run.pure _ _⟩)
    refine ⟨w₂, run_scriptE_bind.mpr (Or.inl ⟨w, false, ?_, ?_⟩)⟩
    · exact run_liftAsk.mpr ⟨false, ⟨⟨(decide_eq_false hmem).symm, rfl⟩, trivial⟩, rfl⟩
    · refine run_scriptE_bind.mpr (Or.inl ⟨w, false, ?_, ?_⟩)
      · exact run_liftAsk.mpr ⟨false, ⟨⟨(decide_eq_false hnon).symm, rfl⟩, trivial⟩, rfl⟩
      · exact run_scriptE_bind.mpr
          (Or.inl ⟨w₁, .ok true, run_liftRun.mpr ⟨.ok true, hadopt, rfl⟩, hset⟩)

/-- Vetting an emitter never fails the chunk. -/
theorem succeeds_vetEmitter : Succeeds (ServedChunk factoryLogs curveLogs views) (vetEmitter abi l) w := by
  have hturn : ∀ (a : Address) (w : CbWorld χ), Succeeds (ServedChunk factoryLogs curveLogs views)
      (ExceptT.lift (CbCall.cacheNonCurve a).ask >>= fun _ => pure false : CbScript Bool) w :=
    fun a w => succeeds_bind.mpr ⟨succeeds_liftAsk _ _, fun _ _ _ => succeeds_pure _ _⟩
  unfold vetEmitter
  refine succeeds_bind.mpr ⟨succeeds_liftAsk _ _, fun w₁ known _ => ?_⟩
  by_cases hknown : known = true
  · simp only [hknown, if_true]
    exact succeeds_pure _ _
  · simp only [hknown]
    refine succeeds_bind.mpr ⟨succeeds_liftAsk _ _, fun w₂ cached _ => ?_⟩
    by_cases hcached : cached = true
    · simp only [hcached, if_true]
      exact succeeds_pure _ _
    · simp only [hcached]
      refine succeeds_bind.mpr ⟨succeeds_liftRun _ _, fun w₃ found _ => ?_⟩
      rcases found with e | adopted
      · exact hturn _ _
      · cases adopted with
        | false => exact hturn _ _
        | true => exact succeeds_bind.mpr ⟨succeeds_liftAsk _ _, fun _ _ _ => succeeds_pure _ _⟩

/-- A row of the emitter's own does not change what the store takes of it. -/
theorem LetIn.acceptsTrade {t0 : B256} (h : LetIn s l.address s') :
    AcceptsTrade abi s' t0 l ↔ AcceptsTrade abi s t0 l := by
  rcases h with rfl | ⟨row, hcurve, rfl⟩
  · exact Iff.rfl
  · have hfits : ∀ srx : Wei, FitsRow { s with tokens := s.tokens.insertNew row.row }
        (hexAddr l.address) srx ↔ FitsRow s (hexAddr l.address) srx := by
      intro srx
      unfold FitsRow
      simp only [Table.find?_insertNew, show row.row.curveAddress = row.curveAddress from rfl,
        hcurve, if_true]
      rcases s.tokens.find? (hexAddr l.address) with _ | r
      · -- A fresh row has room for any first deal.
        have hfresh : (0 : Nat) + srx.toNat < numericBound :=
          lt_of_lt_of_le (by simpa using srx.isLt) (by simp [numericBound])
        constructor
        · exact fun _ r hr => absurd hr (by simp)
        · intro _ r hr
          obtain rfl : row.row = r := by simpa using hr
          exact ⟨hfresh, by simp [InsertCbToken.row, i32Max]⟩
      · simp
    unfold AcceptsTrade
    simp only [hfits]

/-- **One log of pass 2** goes through exactly if it is no curve event, or its emitter is not let
in, or the store takes it. -/
theorem succeeds_curveLog :
    Succeeds (ServedChunk factoryLogs curveLogs views) (curveLog abi l) w ↔
      ∀ t0, l.topics.head? = some t0 → abi.IsCurveTopic t0 → Admitted abi views w l.address →
        AcceptsTrade abi w.store t0 l := by
  unfold curveLog
  rcases l.topics.head? with _ | t0
  · exact iff_of_true (succeeds_pure _ _) fun t0 h => absurd h (by simp)
  · simp only [Option.some.injEq, forall_eq']
    by_cases hcurve : abi.IsCurveTopic t0
    · simp only [hcurve, if_true, true_implies]
      rw [succeeds_bind]
      constructor
      · rintro ⟨-, h⟩ hadmitted
        have hletIn : ∃ w', Run (ServedChunk factoryLogs curveLogs views) w
          (vetEmitter abi l).run.toProg w' (.ok true) := exists_vetEmitter hadmitted
        obtain ⟨w', hrun⟩ := hletIn
        have hdispatch := h w' true hrun
        simp only [if_true] at hdispatch
        exact (vetEmitter_lets_in hrun).2.acceptsTrade.mp ((succeeds_dispatch hcurve).mp hdispatch)
      · refine fun h => ⟨succeeds_vetEmitter, fun w₁ admitted hrun => ?_⟩
        cases admitted with
        | false => exact succeeds_pure _ _
        | true =>
            obtain ⟨hadmitted, hletIn⟩ := vetEmitter_lets_in hrun
            exact (succeeds_dispatch hcurve).mpr (hletIn.acceptsTrade.mpr (h hadmitted))
    · simp only [hcurve, if_false, false_implies, iff_true]
      exact succeeds_pure _ _

/-! ### The passes -/

/-- One log of pass 1. -/
def factoryLog (abi : Abi) (l : RpcLog) : CbScript Unit := do
  if l.topics.head? = some abi.curveCreatedHash then
    applyCurveCreated abi l
    ExceptT.lift (CbCall.insertKnown (hexAddr l.address)).ask

theorem passOne_cons (l : RpcLog) (rest : List RpcLog) :
    passOne abi (l :: rest) = factoryLog abi l >>= fun _ => passOne abi rest := by
  unfold factoryLog
  rw [passOne]
  by_cases htopic : l.topics.head? = some abi.curveCreatedHash
  · simp only [htopic, if_true, bind_assoc]
  · simp only [htopic, if_false, pure_bind]

/-- **One log of pass 1** goes through exactly if it is no creation, or the store takes it. -/
theorem succeeds_factoryLog :
    Succeeds (ServedChunk factoryLogs curveLogs views) (factoryLog abi l) w ↔
      (l.topics.head? = some abi.curveCreatedHash → AcceptsCreated abi w.store l) := by
  unfold factoryLog
  by_cases htopic : l.topics.head? = some abi.curveCreatedHash
  · simp only [htopic, if_true, true_implies]
    rw [succeeds_bind, succeeds_applyCurveCreated]
    exact ⟨fun h => h.1, fun h => ⟨h, fun _ _ _ => succeeds_liftAsk _ _⟩⟩
  · simp only [htopic, if_false, false_implies, iff_true]
    exact succeeds_pure _ _

/-! ### A whole chunk -/

/-- The state once the nodes have answered. -/
def CbWorld.heard (w : CbWorld χ) (c : CbChainCall) (r : c.Answer) : CbWorld χ :=
  { w with record := w.record.noteChain c r }

/-- A call that is answered at the first attempt. -/
theorem run_cbRetry {op : Script CbSig (Except ChainError α)} {H : Handler CbSig (CbWorld χ)}
    {a : α} {w₁ : CbWorld χ}
    (hop : ∀ w' r, Run H w op.toProg w' r ↔ w' = w₁ ∧ r = .ok a) {r : Except CbError α} :
    Run H w (cbRetry op).run.toProg w' r ↔ w' = w₁ ∧ r = .ok a := by
  show Run H w (Script.bind _ _).toProg w' r ↔ _
  rw [Script.toProg_bind, run_bind]
  unfold retryWithBackoff retryFrom
  show (∃ w₂ x, Run H w (Script.bind op _).toProg w₂ x ∧ _) ↔ _
  rw [Script.toProg_bind]
  constructor
  · rintro ⟨w₂, x, hx, hr⟩
    obtain ⟨w₃, y, hy, hx⟩ := run_bind.mp hx
    obtain ⟨rfl, rfl⟩ := (hop _ _).mp hy
    obtain ⟨rfl, rfl⟩ := run_pure.mp hx
    exact run_pure.mp hr
  · rintro ⟨rfl, rfl⟩
    refine ⟨w', .ok a, run_bind.mpr ⟨w', .ok a, (hop _ _).mpr ⟨rfl, rfl⟩, Run.pure _ _⟩, ?_⟩
    exact Run.pure _ _

/-- The logs of a range that is one. -/
theorem run_rangeLogs {fromBlock toBlock : Int} {address : Option EvmAddress} {logs : List RpcLog}
    (hfrom : 0 ≤ fromBlock) (hto : fromBlock ≤ toBlock)
    (hlogs : ∀ chain r chain', delivering factoryLogs curveLogs views chain
      (.getLogs fromBlock toBlock address) r chain' ↔ r = .ok logs ∧ chain' = (chain : χ))
    {r : Except CbError (List RpcLog)} :
    Run (ServedChunk factoryLogs curveLogs views) w
        (cbRetry (cbLogsInRange fromBlock toBlock address)).run.toProg w' r ↔
      w' = w.heard (.getLogs fromBlock toBlock address) (.ok logs) ∧ r = .ok logs := by
  refine run_cbRetry fun w' r => ?_
  unfold cbLogsInRange logsInRange
  have hfrom' : heightAsU64 fromBlock ≠ none := by simp [heightAsU64, hfrom]
  have hto' : heightAsU64 toBlock ≠ none := by simp [heightAsU64, hfrom.trans hto]
  rw [if_neg (by omega), if_neg hfrom', if_neg hto']
  show Run _ w (Prog.ask (S := CbSig) (.chain (.getLogs fromBlock toBlock address))) w' r ↔ _
  rw [run_ask]
  constructor
  · rintro ⟨⟨chain', hr, rfl⟩, -⟩
    obtain ⟨rfl, rfl⟩ := (hlogs _ _ _).mp hr
    exact ⟨rfl, rfl⟩
  · rintro ⟨rfl, rfl⟩
    exact ⟨⟨w.chain, (hlogs _ _ _).mpr ⟨rfl, rfl⟩, rfl⟩, trivial⟩

/-- What follows the logs of a range. -/
theorem succeeds_afterLogs {fromBlock toBlock : Int} {address : Option EvmAddress}
    {logs : List RpcLog} {f : List RpcLog → CbScript α}
    (hfrom : 0 ≤ fromBlock) (hto : fromBlock ≤ toBlock)
    (hlogs : ∀ chain r chain', delivering factoryLogs curveLogs views chain
      (.getLogs fromBlock toBlock address) r chain' ↔ r = .ok logs ∧ chain' = (chain : χ)) :
    Succeeds (ServedChunk factoryLogs curveLogs views)
        (cbRetry (cbLogsInRange fromBlock toBlock address) >>= f) w ↔
      Succeeds (ServedChunk factoryLogs curveLogs views) (f logs)
        (w.heard (.getLogs fromBlock toBlock address) (.ok logs)) := by
  rw [succeeds_bind]
  constructor
  · exact fun h => h.2 _ _ ((run_rangeLogs hfrom hto hlogs).mpr ⟨rfl, rfl⟩)
  · refine fun h => ⟨fun w' r hrun => ⟨logs, ((run_rangeLogs hfrom hto hlogs).mp hrun).2⟩, ?_⟩
    intro w₁ a hrun
    obtain ⟨rfl, ha⟩ := (run_rangeLogs hfrom hto hlogs).mp hrun
    rwa [Except.ok.inj ha]

theorem succeeds_passOne {logs : List RpcLog} :
    Succeeds (ServedChunk factoryLogs curveLogs views) (passOne abi logs) w ↔
      ∀ before l after, logs = before ++ l :: after →
      ∀ w₁, Run (ServedChunk factoryLogs curveLogs views) w (passOne abi before).run.toProg w₁
          (.ok ()) →
        l.topics.head? = some abi.curveCreatedHash → AcceptsCreated abi w₁.store l := by
  rw [succeeds_walk (passOne abi) rfl passOne_cons]
  simp only [succeeds_factoryLog]

theorem succeeds_passTwo {logs : List RpcLog} :
    Succeeds (ServedChunk factoryLogs curveLogs views) (passTwo abi logs) w ↔
      ∀ before l after, logs = before ++ l :: after →
      ∀ w₁, Run (ServedChunk factoryLogs curveLogs views) w (passTwo abi before).run.toProg w₁
          (.ok ()) →
        ∀ t0, l.topics.head? = some t0 → abi.IsCurveTopic t0 → Admitted abi views w₁ l.address →
          AcceptsTrade abi w₁.store t0 l := by
  rw [succeeds_walk (passTwo abi) rfl fun _ _ => rfl]
  simp only [succeeds_curveLog]

/--
Every log of the chunk is digestible when its turn comes.  `w` is the state in which the chunk
begins; what a log meets is what the logs before it have made of it.
-/
structure Digestible (abi : Abi) (factoryLogs curveLogs : List RpcLog) (views : Views)
    (w : CbWorld χ) (fromBlock toBlock : Int) (factory : EvmAddress) : Prop where
  created : ∀ before l after, factoryLogs = before ++ l :: after →
    ∀ w₁, Run (ServedChunk factoryLogs curveLogs views)
        (w.heard (.getLogs fromBlock toBlock (some factory)) (.ok factoryLogs))
        (passOne abi before).run.toProg w₁ (.ok ()) →
      l.topics.head? = some abi.curveCreatedHash → AcceptsCreated abi w₁.store l
  curve : ∀ w₁, Run (ServedChunk factoryLogs curveLogs views)
      (w.heard (.getLogs fromBlock toBlock (some factory)) (.ok factoryLogs))
      (passOne abi factoryLogs).run.toProg w₁ (.ok ()) →
    ∀ before l after, curveLogs = before ++ l :: after →
    ∀ w₂, Run (ServedChunk factoryLogs curveLogs views)
        (w₁.heard (.getLogs fromBlock toBlock none) (.ok curveLogs))
        (passTwo abi before).run.toProg w₂ (.ok ()) →
      ∀ t0, l.topics.head? = some t0 → abi.IsCurveTopic t0 → Admitted abi views w₂ l.address →
        AcceptsTrade abi w₂.store t0 l

/--
**A chunk goes through exactly if every log of it is digestible**: with every call answered and
no statement refused but for its content, `run_chunk` returns `Ok` in every run if and only if
each creation and each curve event that is let in is one the store takes.
-/
theorem chunk_ok_iff_digestible {fromBlock toBlock : Int} (hfrom : 0 ≤ fromBlock)
    (hto : fromBlock ≤ toBlock) (factory : EvmAddress) :
    (∀ w' r, Run (ServedChunk factoryLogs curveLogs views) w
        (runChunk abi fromBlock toBlock factory).run.toProg w' r → r = .ok ()) ↔
      Digestible abi factoryLogs curveLogs views w fromBlock toBlock factory := by
  have hall : (∀ w' r, Run (ServedChunk factoryLogs curveLogs views) w
      (runChunk abi fromBlock toBlock factory).run.toProg w' r → r = .ok ()) ↔
        Succeeds (ServedChunk factoryLogs curveLogs views)
          (runChunk abi fromBlock toBlock factory) w :=
    ⟨fun h w' r hrun => ⟨(), h w' r hrun⟩, fun h w' r hrun => (h w' r hrun).elim fun _ => id⟩
  rw [hall]
  unfold runChunk
  have hcurves : ∀ w₁ : CbWorld χ, Succeeds (ServedChunk factoryLogs curveLogs views)
      (cbRetry (cbLogsInRange fromBlock toBlock none) >>= passTwo abi) w₁ ↔
        Succeeds (ServedChunk factoryLogs curveLogs views) (passTwo abi curveLogs)
          (w₁.heard (.getLogs fromBlock toBlock none) (.ok curveLogs)) :=
    fun w₁ => succeeds_afterLogs hfrom hto fun _ _ _ => Iff.rfl
  rw [succeeds_afterLogs hfrom hto fun chain r chain' =>
    (Iff.rfl : delivering factoryLogs curveLogs views chain (.getLogs fromBlock toBlock
      (some factory)) r chain' ↔ r = .ok factoryLogs ∧ chain' = chain), succeeds_bind,
    succeeds_passOne]
  constructor
  · rintro ⟨hone, htwo⟩
    exact ⟨hone, fun w₁ hrun => succeeds_passTwo.mp ((hcurves w₁).mp (htwo w₁ () hrun))⟩
  · rintro ⟨hone, htwo⟩
    exact ⟨hone, fun w₁ _ hrun => (hcurves w₁).mpr (succeeds_passTwo.mpr (htwo w₁ hrun))⟩

/-! ### A log that fails its chunk for ever -/

/-- An event that does not decode fails whatever comes to it. -/
theorem dispatch_undecodable {t0 : B256} (ht0 : abi.IsCurveTopic t0) {e : CbError}
    (hbad : curveFields abi t0 l = .error e) {H : Handler CbSig (CbWorld χ)}
    {r : Except CbError Unit} (h : Run H w (dispatch abi t0 l).run.toProg w' r) : r ≠ .ok () := by
  have hrow : ∀ {kind : TradeKind} {fields : RpcLog → Except CbError TradeFields},
      fields l = .error e → ∃ e', tradeRow kind fields l = .error e' := by
    intro kind fields hfields
    rcases hmade : tradeRow kind fields l with e' | row
    · exact ⟨e', rfl⟩
    · obtain ⟨-, index, txHash, event, -, -, -, hevent, -⟩ :=
        (tradeRow_isOk kind fields fun _ _ => True).mp ⟨row, hmade, trivial⟩
      exact absurd (hfields.symm.trans hevent) (by simp)
  have hstuck : ∀ {β : Type} {x : Except CbError CbTrade} {f : CbTrade → CbScript β} {w w' r},
      (∃ e', x = .error e') →
      Run H w ((ExceptT.mk (Script.pure x) >>= f) >>= fun _ => pure () : CbScript Unit).run.toProg
        w' r → r ≠ .ok () := by
    rintro β x f w w' r ⟨e', rfl⟩ hrun
    have hend : Run H w (.pure (.error e')) w' r := hrun
    rw [(run_pure.mp hend).2]
    simp
  unfold curveFields at hbad
  unfold dispatch at h
  by_cases hbuy : t0 = abi.buyHash
  · simp only [hbuy, if_true] at h hbad
    exact hstuck (hrow hbad) h
  · by_cases hsell : t0 = abi.sellHash
    · rw [if_neg hbuy, if_pos hsell] at h hbad
      exact hstuck (hrow hbad) h
    · rw [if_neg hbuy, if_neg hsell] at h hbad
      rw [if_pos ((ht0.resolve_left hbuy).resolve_left hsell)] at h
      exact hstuck (hrow hbad) h

/-- So a chunk with such an event of a known emitter never goes through. -/
theorem known_undecodable_stuck {t0 : B256} (htopic : l.topics.head? = some t0)
    (ht0 : abi.IsCurveTopic t0) {e : CbError} (hbad : curveFields abi t0 l = .error e)
    (hknown : hexAddr l.address ∈ w.knownCurves) {rest : List RpcLog} {fromBlock toBlock : Int}
    (hfrom : 0 ≤ fromBlock) (hto : fromBlock ≤ toBlock) (factory : EvmAddress)
    {r : Except CbError Unit}
    (h : Run (ServedChunk [] (l :: rest) views) w
      (runChunk abi fromBlock toBlock factory).run.toProg w' r) : r ≠ .ok () := by
  rintro rfl
  rcases run_scriptE_bind.mp h with ⟨w₁, factoryLogs, hlogs, hpassOne⟩ | ⟨e, -, he⟩
  · obtain ⟨rfl, hnone⟩ := (run_rangeLogs hfrom hto fun _ _ _ => Iff.rfl).mp hlogs
    obtain rfl := Except.ok.inj hnone
    rcases run_scriptE_bind.mp hpassOne with ⟨w₂, u, hnothing, hcurves⟩ | ⟨e, -, he⟩
    · obtain ⟨rfl, -⟩ := run_script_pure.mp hnothing
      rcases run_scriptE_bind.mp hcurves with ⟨w₃, curveLogs, hlogs', hpassTwo⟩ | ⟨e, -, he⟩
      · obtain ⟨rfl, hall⟩ := (run_rangeLogs hfrom hto fun _ _ _ => Iff.rfl).mp hlogs'
        obtain rfl := Except.ok.inj hall
        rcases run_scriptE_bind.mp hpassTwo with ⟨w₄, u', hfirst, -⟩ | ⟨e, -, he⟩
        · unfold curveLog at hfirst
          simp only [htopic, ht0, if_true] at hfirst
          rcases run_scriptE_bind.mp hfirst with ⟨w₅, admitted, hadmit, hdispatch⟩ | ⟨e, -, he⟩
          · unfold vetEmitter at hadmit
            rcases run_scriptE_bind.mp hadmit with ⟨w₆, known, hasked, hletIn⟩ | ⟨e, -, he⟩
            · obtain ⟨b, ⟨⟨rfl, rfl⟩, -⟩, hb⟩ := run_liftAsk.mp hasked
              obtain rfl := Except.ok.inj hb
              split at hletIn
              · obtain ⟨rfl, rfl⟩ := run_script_pure.mp hletIn
                exact dispatch_undecodable ht0 hbad hdispatch rfl
              · exact absurd (decide_eq_true hknown) ‹_›
            · exact absurd he (by simp)
          · exact absurd he (by simp)
        · exact absurd he (by simp)
      · exact absurd he (by simp)
    · exact absurd he (by simp)
  · exact absurd he (by simp)

end Vetting

/-! ### Concrete chunks -/

section Deliveries

variable {factoryLogs curveLogs : List RpcLog}
variable {answers : EvmAddress → ViewFn → Except ChainError (List UInt8)}

/-- The single answer to each call of a chunk. -/
def deliverRespond (factoryLogs curveLogs : List RpcLog)
    (answers : EvmAddress → ViewFn → Except ChainError (List UInt8)) : Server CbChainSig χ
  | chain, .blockNumber => (.ok 0, chain)
  | chain, .getLogs _ _ (some _) => (.ok factoryLogs, chain)
  | chain, .getLogs _ _ none => (.ok curveLogs, chain)
  | chain, .ethCall target view => (answers target view, chain)

theorem deliverRespond_answers :
    CbAnswers (delivering factoryLogs curveLogs (fun a v r => r = answers a v) : CbRpc χ)
      (deliverRespond factoryLogs curveLogs answers) := by
  intro chain c
  cases c with
  | blockNumber => exact ⟨⟨0, rfl⟩, rfl⟩
  | getLogs fromBlock toBlock address =>
      cases address with
      | none => exact ⟨rfl, rfl⟩
      | some a => exact ⟨rfl, rfl⟩
  | ethCall target view => exact ⟨rfl, rfl⟩

theorem contentHandle_cbServe {rpc : CbRpc χ} {respond : Server CbChainSig χ}
    (h : CbAnswers rpc respond) (w : CbWorld χ) (c : CbCall) :
    contentHandle rpc w c (cbServe respond w c).1 (cbServe respond w c).2 := by
  refine ⟨cbHandle_cbServe h w c, ?_⟩
  cases c with
  | transact t =>
      rintro ⟨e, he⟩
      rcases hrun : t.run w.store with e' | ⟨a, s⟩
      · exact ⟨e', rfl⟩
      · simp only [cbServe, hrun] at he
        exact absurd he (by simp)
  | _ => exact trivial

end Deliveries

/-- The chunk of one block. -/
def oneBlockChunk : CbScript Unit :=
  runChunk wordAbi 1178667 1178667 (coinblastFactoryAddress .mainnet)

/-- The answers of one contract that looks like a curve. -/
def curveViewsOf : Views := fun a v r => r = curveAnswers curveA tokenA a v

/-- The first buy of an adopted curve goes through. -/
theorem chunk_ok_iff_digestible_buy :
    Digestible wordAbi [] [buyLog curveA (word 5) 1] curveViewsOf (.init ([] : Outages) .empty)
        1178667 1178667 (coinblastFactoryAddress .mainnet) ∧
      ∀ w' r, Run (ServedChunk [] [buyLog curveA (word 5) 1] curveViewsOf)
        (.init ([] : Outages) .empty) oneBlockChunk.run.toProg w' r → r = .ok () := by
  refine (fun h => ⟨h, (chunk_ok_iff_digestible (by decide) (by decide) _).mpr h⟩) ⟨?_, ?_⟩
  · exact fun before l after hsplit => absurd hsplit (by simp)
  · intro w₁ hrun before l after hsplit w₂ hrun₂ t0 ht0 hcurve _
    obtain ⟨rfl, -⟩ := run_script_pure.mp hrun
    obtain ⟨rfl, rfl, rfl⟩ : before = [] ∧ l = buyLog curveA (word 5) 1 ∧ after = [] := by
      rcases before with _ | ⟨l', before⟩
      · simpa [eq_comm] using hsplit
      · exact absurd hsplit (by simp)
    obtain ⟨rfl, -⟩ := run_script_pure.mp hrun₂
    obtain rfl : buyTopic = t0 := Option.some.inj ht0
    have hfields : (curveFields wordAbi buyTopic (buyLog curveA (word 5) 1)).isOk = true := by
      decide +kernel
    rcases hread : curveFields wordAbi buyTopic (buyLog curveA (word 5) 1) with e | fields
    · rw [hread] at hfields
      exact absurd hfields (by simp [Except.isOk, Except.toBool])
    · refine ⟨⟨1178667, rfl, by decide⟩, 0, _, fields, rfl, by decide, rfl, hread, fun _ => ?_⟩
      exact Or.inr fun r hr => absurd hr (by simp [CbWorld.heard, CbWorld.init, CbStore.empty])

/-- A log with the topic of a buy and nothing else. -/
def emptyBuy : RpcLog := bareLog curveA [buyTopic] [] 1

/-- The state of a worker that has just started over an empty database. -/
def bootedWorld : CbWorld Outages := (mainnetSteps oneBuy.respond 3 []).1

theorem exists_failing_chunk :
    ∃ w' r, Run (ServedChunk [] [emptyBuy] curveViewsOf) bootedWorld oneBlockChunk.run.toProg w' r ∧
      r ≠ .ok () ∧ hexAddr curveA ∈ w'.knownCurves := by
  have hserve : CbAnswers (delivering [] [emptyBuy] curveViewsOf : CbRpc Outages)
      (deliverRespond [] [emptyBuy] (curveAnswers curveA tokenA)) := deliverRespond_answers
  have hfails : (exec (cbServe (deliverRespond [] [emptyBuy] (curveAnswers curveA tokenA))) 60
      bootedWorld oneBlockChunk.run.toProg).any
        (fun x => !x.2.isOk && decide (hexAddr curveA ∈ x.1.knownCurves)) = true := by
    decide +kernel
  obtain ⟨w', r, hrun, hcheck⟩ := exists_run_of_execWhile
    (fun w c _ => contentHandle_cbServe hserve w c) 60 _ _ _ hfails
  rw [Bool.and_eq_true, decide_eq_true_eq] at hcheck
  exact ⟨w', r, hrun, by rintro rfl; simp [Except.isOk, Except.toBool] at hcheck, hcheck.2⟩

/--
A contract that answers like a curve and emits a buy without its fields fails the chunk in a
reachable state.  It is a known curve from then on, and the chunk fails on every retry.
-/
theorem empty_buy_wedges_chunk :
    (∃ c, Reachable (coinblast wordAbi mainnetConfig oneBuy.rpc fun _ _ => False)
        (.init [] .empty) c ∧
      ∃ w' r, Run (ServedChunk [] [emptyBuy] curveViewsOf) c.world oneBlockChunk.run.toProg w' r ∧
        r ≠ .ok () ∧ hexAddr curveA ∈ w'.knownCurves) ∧
    ∀ w : CbWorld Outages, hexAddr curveA ∈ w.knownCurves →
      ∀ w' r, Run (ServedChunk [] [emptyBuy] curveViewsOf) w oneBlockChunk.run.toProg w' r →
        r ≠ .ok () := by
  refine ⟨⟨_, mainnetSteps_coinblast oneBuy 3 [], exists_failing_chunk⟩, ?_⟩
  intro w hknown w' r hrun
  have hbad : (curveFields wordAbi buyTopic emptyBuy).isOk = false := by decide +kernel
  rcases hfields : curveFields wordAbi buyTopic emptyBuy with e | fields
  · exact known_undecodable_stuck (l := emptyBuy) rfl (Or.inl rfl) hfields hknown (by decide)
      (by decide) _ hrun
  · rw [hfields] at hbad
    exact absurd hbad (by simp [Except.isOk, Except.toBool])

end SentrixIndexer
