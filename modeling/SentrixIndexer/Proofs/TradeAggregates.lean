/-
The aggregates of a curve are the fold of its stored trades.

A trade and the update of its curve's row commit together, and a trade that is stored
already changes nothing, so replays are harmless.  What is left to show is that the row is
there when a trade of its curve is written: the UPDATE of a missing row touches nothing,
and the trade would never be counted.  The worker takes a curve event only from a known
emitter; every known address has a row, except the factory's, which emits no curve event.
-/
import SentrixIndexer.Coinblast.Nodes
import SentrixIndexer.Proofs.CurveStatements
import SentrixIndexer.Proofs.WorkerRules

namespace SentrixIndexer

open Effect Relational

variable {χ : Type} {abi : Abi} {cfg : WorkerConfig} {rpc : CbRpc χ} {moves : χ → χ → Prop}

/-! ### The fold -/

/-- The stored trades of a curve. -/
def CbStore.tradesOf (s : CbStore) (curve : Address) : List CbTrade :=
  s.trades.rows.filter fun t => t.curveAddress = curve

/-- The buys and sells of a curve. -/
def CbStore.dealsOf (s : CbStore) (curve : Address) : List CbTrade :=
  (s.tradesOf curve).filter fun t => t.kind ≠ .graduated

/-- The aggregates of a row are those of the stored trades. -/
structure Folded (s : CbStore) (r : CbToken) : Prop where
  count : r.tradeCount = (s.dealsOf r.curveAddress).length
  volume : r.totalVolumeSrx = ((s.dealsOf r.curveAddress).map fun t => t.srxAmount.toNat).sum
  graduated : r.isGraduated = true ↔ ∃ t ∈ s.tradesOf r.curveAddress, t.kind = .graduated

/-- What holds of the tables at any time. -/
structure Accounts (s : CbStore) : Prop where
  folded : ∀ r ∈ s.tokens.rows, Folded s r
  /-- Every trade is one of a stored curve. -/
  stored : ∀ t ∈ s.trades.rows, s.tokens.contains t.curveAddress = true
  /-- Curve addresses are spelled in lowercase. -/
  lower : ∀ r ∈ s.tokens.rows, lowercase r.curveAddress = r.curveAddress

theorem accounts_empty : Accounts .empty where
  folded r hr := absurd hr (by simp [CbStore.empty])
  stored t ht := absurd ht (by simp [CbStore.empty])
  lower r hr := absurd hr (by simp [CbStore.empty])

/-- Folds over the same trades. -/
theorem Folded.congr {s s' : CbStore} {r : CbToken} (h : Folded s r)
    (htrades : s'.trades = s.trades) : Folded s' r := by
  obtain ⟨hcount, hvolume, hgraduated⟩ := h
  constructor <;> simp only [CbStore.dealsOf, CbStore.tradesOf, htrades] <;> assumption

variable {s s' : CbStore}

/-- The trades of the curve of a new trade. -/
theorem tradesOf_insertNew {t : CbTrade} (hnew : s.trades.contains t.key = false)
    (tokens : Table CbToken.curveAddress) (curve : Address) :
    CbStore.tradesOf { s with trades := s.trades.insertNew t, tokens := tokens } curve =
      s.tradesOf curve ++ if t.curveAddress = curve then [t] else [] := by
  simp only [CbStore.tradesOf, Table.rows_insertNew hnew, List.filter_append]
  by_cases hcurve : t.curveAddress = curve <;> simp [hcurve]

/-- **A new trade and the update of its curve's row.** -/
theorem Accounts.trade (h : Accounts s) {t : CbTrade}
    (hnew : s.trades.contains t.key = false) (hcurve : s.tokens.contains t.curveAddress = true)
    {f : CbToken → CbToken} {hf : ∀ r, (f r).curveAddress = r.curveAddress}
    (hfold : ∀ r, Folded s r → r.curveAddress = t.curveAddress →
      Folded { s with
        trades := s.trades.insertNew t
        tokens := s.tokens.modify t.curveAddress f hf } (f r)) :
    Accounts { s with
      trades := s.trades.insertNew t
      tokens := s.tokens.modify t.curveAddress f hf } where
  folded r' hr' := by
    obtain ⟨r, hr, rfl⟩ := List.mem_map.mp hr'
    by_cases hsame : r.curveAddress = t.curveAddress
    · rw [if_pos hsame]
      exact hfold r (h.folded r hr) hsame
    · rw [if_neg hsame]
      obtain ⟨hcount, hvolume, hgraduated⟩ := h.folded r hr
      have htrades : ∀ tokens, CbStore.tradesOf
          { s with trades := s.trades.insertNew t, tokens := tokens } r.curveAddress =
            s.tradesOf r.curveAddress := by
        intro tokens
        rw [tradesOf_insertNew hnew, if_neg (Ne.symm hsame), List.append_nil]
      constructor <;> simp only [CbStore.dealsOf, htrades] <;> assumption
  stored t' ht' := by
    simp only [Table.rows_insertNew hnew, List.mem_append, List.mem_singleton] at ht'
    rw [Table.contains_modify]
    rcases ht' with hold | rfl
    · exact h.stored t' hold
    · exact hcurve
  lower r' hr' := by
    obtain ⟨r, hr, rfl⟩ := List.mem_map.mp hr'
    by_cases hsame : r.curveAddress = t.curveAddress
    · rw [if_pos hsame, hf]
      exact h.lower r hr
    · rw [if_neg hsame]
      exact h.lower r hr

/-- A buy or a sell. -/
theorem Folded.bumped {r : CbToken} {t : CbTrade} {lastPrice : Wei}
    {tokens : Table CbToken.curveAddress} (h : Folded s r)
    (hnew : s.trades.contains t.key = false) (hsame : r.curveAddress = t.curveAddress)
    (hkind : t.kind ≠ .graduated) :
    Folded { s with trades := s.trades.insertNew t, tokens := tokens }
      (CbTokens.bumped t.srxAmount lastPrice r) := by
  obtain ⟨hcount, hvolume, hgraduated⟩ := h
  have htrades := tradesOf_insertNew hnew tokens r.curveAddress
  rw [if_pos hsame.symm] at htrades
  constructor
  · simp [CbStore.dealsOf, CbTokens.bumped, htrades, hkind, hcount]
  · simp [CbStore.dealsOf, CbTokens.bumped, htrades, hkind, hvolume]
  · simp only [CbTokens.bumped, htrades, List.mem_append, List.mem_singleton]
    rw [hgraduated]
    constructor
    · rintro ⟨t', ht', hk⟩
      exact ⟨t', Or.inl ht', hk⟩
    · rintro ⟨t', ht' | rfl, hk⟩
      · exact ⟨t', ht', hk⟩
      · exact absurd hk hkind

/-- A graduation. -/
theorem Folded.markGraduated {r : CbToken} {t : CbTrade} {tokens : Table CbToken.curveAddress}
    (h : Folded s r) (hnew : s.trades.contains t.key = false)
    (hsame : r.curveAddress = t.curveAddress) (hkind : t.kind = .graduated) :
    Folded { s with trades := s.trades.insertNew t, tokens := tokens }
      { r with isGraduated := true } := by
  obtain ⟨hcount, hvolume, -⟩ := h
  have htrades := tradesOf_insertNew hnew tokens r.curveAddress
  rw [if_pos hsame.symm] at htrades
  constructor
  · simp [CbStore.dealsOf, htrades, hkind, hcount]
  · simp [CbStore.dealsOf, htrades, hkind, hvolume]
  · simp only [true_iff, htrades]
    exact ⟨t, by simp, hkind⟩

/-- **A new row starts at nothing**: its curve has no trade yet. -/
theorem Accounts.token (h : Accounts s) {t : InsertCbToken}
    (hlower : lowercase t.curveAddress = t.curveAddress) :
    Accounts { s with tokens := s.tokens.insertNew t.row } := by
  by_cases hstored : s.tokens.contains t.row.curveAddress = true
  · rw [Table.insertNew_of_contains hstored]
    exact h
  · rw [Bool.not_eq_true] at hstored
    have hnone : s.tradesOf t.row.curveAddress = [] := by
      refine List.filter_eq_nil_iff.mpr fun t' ht' hcurve => ?_
      have htrade := h.stored t' ht'
      rw [of_decide_eq_true hcurve, hstored] at htrade
      exact absurd htrade (by simp)
    refine ⟨fun r hr => ?_, fun t' ht' => ?_, fun r hr => ?_⟩
    · rw [Table.rows_insertNew hstored] at hr
      rcases List.mem_append.mp hr with hold | hrow
      · exact (h.folded r hold).congr rfl
      · obtain rfl := List.mem_singleton.mp hrow
        have hdeals : s.dealsOf t.row.curveAddress = [] := by
          rw [CbStore.dealsOf, hnone]
          rfl
        refine Folded.congr (s := s) ⟨?_, ?_, ?_⟩ rfl
        · rw [hdeals]
          rfl
        · rw [hdeals]
          rfl
        · rw [hnone]
          simp [InsertCbToken.row]
    · rw [Table.contains_insertNew, h.stored t' ht']
      rfl
    · rw [Table.rows_insertNew hstored] at hr
      rcases List.mem_append.mp hr with hold | hrow
      · exact h.lower r hold
      · obtain rfl := List.mem_singleton.mp hrow
        exact hlower

/-- A transaction as the worker makes them. -/
inductive Orderly (s : CbStore) : CbTxn → Prop
  | token {t : InsertCbToken} (hlower : lowercase t.curveAddress = t.curveAddress) :
      Orderly s (.insertToken t)
  | deal {t : CbTrade} {lastPrice : Wei} (hcurve : s.tokens.contains t.curveAddress = true)
      (hkind : t.kind ≠ .graduated) : Orderly s (.writeTrade t t.srxAmount lastPrice)
  | graduated {t : CbTrade} (hcurve : s.tokens.contains t.curveAddress = true)
      (hkind : t.kind = .graduated) : Orderly s (.writeGraduated t)
  | cursor (height : Int) : Orderly s (.setCursor height)

/-- **An orderly transaction keeps the accounts.** -/
theorem Accounts.effect (h : Accounts s) {t : CbTxn} (ht : Orderly s t) (he : TxnEffect s t s') :
    Accounts s' := by
  cases he with
  | token t =>
      cases ht with
      | token hlower => exact h.token hlower
  | old htrade hstored => exact h
  | trade t srx lastPrice hnew =>
      cases ht with
      | deal hcurve hkind =>
          exact h.trade hnew hcurve fun r hr hsame => hr.bumped hnew hsame hkind
  | graduated t hnew =>
      cases ht with
      | graduated hcurve hkind =>
          exact h.trade hnew hcurve fun r hr hsame => hr.markGraduated hnew hsame hkind
  | cursor height htokens htrades =>
      obtain ⟨hfolded, hstored, hlower⟩ := h
      refine ⟨fun r hr => ?_, fun t ht => ?_, fun r hr => ?_⟩
      · rw [htokens] at hr
        exact (hfolded r hr).congr htrades
      · rw [htrades] at ht
        rw [htokens]
        exact hstored t ht
      · rw [htokens] at hr
        exact hlower r hr

/-! ### The worker -/

/-- The nodes serve, for an address, logs of that address only. -/
def HonoursFilter (rpc : CbRpc χ) : Prop :=
  ∀ chain fromBlock toBlock a logs chain',
    rpc chain (.getLogs fromBlock toBlock (some a)) (.ok logs) chain' → ∀ l ∈ logs, l.address = a

/-- A curve event. -/
def RpcLog.IsCurveEvent (abi : Abi) (l : RpcLog) : Prop :=
  ∃ t0, l.topics.head? = some t0 ∧ abi.IsCurveTopic t0

/-- The factory emits no curve events. -/
def FactorySilent (abi : Abi) (factory : EvmAddress) (rpc : CbRpc χ) : Prop :=
  ∀ chain fromBlock toBlock logs chain',
    rpc chain (.getLogs fromBlock toBlock none) (.ok logs) chain' →
      ∀ l ∈ logs, l.address = factory → ¬ l.IsCurveEvent abi

/-- The accounts are right, and every known address but the factory's has a row. -/
structure Sound (factory : EvmAddress) (w : CbWorld χ) : Prop where
  accounts : Accounts w.store
  known : ∀ a ∈ w.knownCurves, a = hexAddr factory ∨ w.store.tokens.contains a = true

/-- No row is lost. -/
def Grows (w w' : CbWorld χ) : Prop :=
  ∀ a, w.store.tokens.contains a = true → w'.store.tokens.contains a = true

theorem Grows.refl (w : CbWorld χ) : Grows w w := fun _ h => h

theorem Grows.trans {w₁ w₂ w₃ : CbWorld χ} (h : Grows w₁ w₂) (h' : Grows w₂ w₃) : Grows w₁ w₃ :=
  fun a ha => h' a (h a ha)

variable {factory : EvmAddress} {w w' : CbWorld χ}

/-- The worker may make the call. -/
def Permitted (factory : EvmAddress) (w : CbWorld χ) : CbCall → Prop
  | .transact t => Orderly w.store t
  | .insertKnown a => a = hexAddr factory ∨ w.store.tokens.contains a = true
  | .initSets curves => ∀ a ∈ curves, w.store.tokens.contains a = true
  | _ => True

/-- **A permitted call keeps the worker sound.** -/
theorem Sound.call (h : Sound factory w) {c : CbCall} (hc : Permitted factory w c)
    {r : c.Answer} (hH : cbHandle rpc w c r w') : Sound factory w' ∧ Grows w w' := by
  cases cbHandle_step hH with
  | stay => exact ⟨h, .refl _⟩
  | chain _ => exact ⟨⟨h.accounts, h.known⟩, .refl _⟩
  | @transact t _ s hrun answer =>
      have heffect := CbTxn.run_effect hrun
      have hgrows : Grows w { w with store := s, record := w.record.noteTxn t answer } :=
        fun a ha => heffect.contains ha
      exact ⟨⟨h.accounts.effect hc heffect, fun a ha => (h.known a ha).imp_right (hgrows a)⟩,
        hgrows⟩
  | initSets curves => exact ⟨⟨h.accounts, fun a ha => Or.inr (hc a ha)⟩, .refl _⟩
  | insertKnown a =>
      refine ⟨⟨h.accounts, fun b hb => ?_⟩, .refl _⟩
      rcases mem_insertAddress.mp hb with hold | rfl
      · exact h.known b hold
      · exact hc
  | cacheNonCurve _ => exact ⟨⟨h.accounts, h.known⟩, .refl _⟩

/-- The script keeps the worker sound, and ends with a `Q`. -/
abbrev Safe (factory : EvmAddress) (rpc : CbRpc χ) {α : Type} (p : CbScript α)
    (Q : Except CbError α → CbWorld χ → Prop) (w : CbWorld χ) : Prop :=
  wp (cbHandle rpc) (Sound factory) Grows Grows (Script.toProgE p).run Q w

/-- A permitted call. -/
theorem safe_ask {c : CbCall} {Q : c.Answer → CbWorld χ → Prop}
    (hc : ∀ w₁, Grows w w₁ → Permitted factory w₁ c)
    (hQ : ∀ w₁ r w₂, Grows w w₂ → Sound factory w₁ → cbHandle rpc w₁ c r w₂ → Q r w₂) :
    wp (cbHandle rpc) (Sound factory) Grows Grows c.ask.toProg Q w := by
  intro w₁ hR hI r w₂ hH
  obtain ⟨hI₂, hG⟩ := hI.call (hc w₁ hR) hH
  exact ⟨hI₂, hG, hQ w₁ r w₂ (hR.trans hG) hI hH⟩

/-- A call that needs no permission. -/
theorem safe_free {c : CbCall} (hc : ∀ w : CbWorld χ, Permitted factory w c) :
    wp (cbHandle rpc) (Sound factory) Grows Grows c.ask.toProg (fun _ w' => Grows w w') w :=
  safe_ask (fun w₁ _ => hc w₁) fun _ _ _ hG _ _ => hG

/-- The logs a retried call delivers. -/
theorem safe_logs {fromBlock toBlock : Int} {address : Option EvmAddress} {P : RpcLog → Prop}
    (hP : ∀ chain logs chain', rpc chain (.getLogs fromBlock toBlock address) (.ok logs) chain' →
      ∀ l ∈ logs, P l) :
    Safe factory rpc (cbRetry (cbLogsInRange fromBlock toBlock address))
      (fun r _ => ∀ logs, r = .ok logs → ∀ l ∈ logs, P l) w := by
  refine wp_cbRetry_each (J := fun _ => True) (fun w _ => ?_)
    (fun nanos w _ => safe_ask (fun _ _ => trivial) fun _ _ _ _ _ _ => trivial) trivial
  refine wp_cbLogsInRange (fun msg => ⟨fun _ _ => trivial, fun logs h => by simp [Except.mapError] at h⟩) ?_
  refine safe_ask (fun _ _ => trivial) fun w₁ r w₂ _ _ hH => ⟨fun _ _ => trivial, ?_⟩
  obtain ⟨chain', hr, -⟩ := hH
  intro logs hlogs
  cases r with
  | error e => simp [Except.mapError] at hlogs
  | ok logs' =>
      obtain rfl : logs' = logs := by simpa [Except.mapError] using hlogs
      exact hP _ _ _ hr

/-- One orderly transaction. -/
theorem safe_transact {t : CbTxn} (ht : ∀ w₁ : CbWorld χ, Grows w w₁ → Orderly w₁.store t) :
    Safe factory rpc (cbTransact t) (fun _ w' => Grows w w') w :=
  safe_ask ht fun _ _ _ hG _ _ => hG

/-- After a successful insert the row is there. -/
theorem safe_insertToken {t : InsertCbToken} (hlower : lowercase t.curveAddress = t.curveAddress) :
    Safe factory rpc (cbTransact (.insertToken t))
      (fun r w' => ∀ u, r = .ok u → w'.store.tokens.contains t.curveAddress = true) w := by
  refine safe_ask (fun _ _ => Orderly.token hlower) fun w₁ r w₂ _ _ hH u hu => ?_
  subst hu
  rcases hH with ⟨a, s, hrun, -, rfl⟩ | ⟨⟨e, he⟩, -⟩
  · rw [insertToken_ok hrun]
    show (w₁.store.tokens.insertNew t.row).contains t.curveAddress = true
    rw [Table.contains_insertNew, show t.row.curveAddress = t.curveAddress from rfl]
    simp
  · exact absurd he (by simp)

theorem safe_insertKnown {a : Address}
    (ha : ∀ w₁ : CbWorld χ, Grows w w₁ → a = hexAddr factory ∨ w₁.store.tokens.contains a = true) :
    wp (cbHandle rpc) (Sound factory) Grows Grows (CbCall.insertKnown a).ask.toProg
      (fun _ w' => Grows w w') w :=
  safe_ask ha fun _ _ _ hG _ _ => hG

/-! ### The passes of a chunk -/

theorem safe_applyCurveCreated (l : RpcLog) :
    Safe factory rpc (applyCurveCreated abi l) (fun _ _ => True) w := by
  refine wp_computed (fun row hrow => ?_) fun _ _ => trivial
  obtain ⟨event, -, hcurve⟩ := curveCreatedRow_ok hrow
  refine wp_mono (fun _ _ _ => trivial) (safe_insertToken ?_)
  rw [hcurve, lowercase_hexAddr]

theorem safe_passOne {logs : List RpcLog} (hlogs : ∀ l ∈ logs, l.address = factory) :
    ∀ {w : CbWorld χ}, Safe factory rpc (passOne abi logs) (fun _ _ => True) w := by
  induction logs with
  | nil => exact trivial
  | cons l rest ih =>
      intro w
      have hrest : ∀ w, Safe factory rpc (passOne abi rest) (fun _ _ => True) w :=
        fun w => ih fun l' hl' => hlogs l' (List.mem_cons_of_mem _ hl')
      unfold passOne
      by_cases htopic : l.topics.head? = some abi.curveCreatedHash
      · simp only [htopic, if_true]
        refine wp_scriptE_bind (wp_mono (fun r w₁ _ => ?_) (safe_applyCurveCreated l))
        cases r with
        | error e => exact trivial
        | ok u =>
            refine wp_liftAsk (wp_mono (fun _ w₂ _ => hrest w₂) (safe_insertKnown fun _ _ => ?_))
            rw [hlogs l (List.mem_cons_self ..)]
            exact Or.inl rfl
      · simp only [htopic, if_false]
        exact hrest w

/-- **Whoever is let in has a row.** -/
theorem safe_vetEmitter {l : RpcLog} (hl : l.address ≠ factory) :
    Safe factory rpc (vetEmitter abi l)
      (fun r w' => r = .ok true → w'.store.tokens.contains (hexAddr l.address) = true) w := by
  refine wp_vetEmitter (J := fun _ => True) (K := fun _ => True) (fun _ _ _ _ _ => trivial)
    ?_ ?_ ?_ ?_ ?_
  · intro w c r w' hc hI _ hH
    cases c with
    | chain c =>
        obtain ⟨hI', hG⟩ := hI.call (c := .chain c) trivial hH
        exact ⟨hI', hG, trivial⟩
    | _ => exact absurd hc fun h => h
  · refine safe_ask (fun _ _ => trivial) fun w₁ known w₂ _ hI hH => ?_
    obtain ⟨hr, rfl⟩ := hH
    cases known with
    | false => exact trivial
    | true =>
        -- The factory is ruled out, so a known emitter has a row.
        intro _
        rcases hI.known _ (of_decide_eq_true hr.symm) with hfactory | hstored
        · exact absurd (hexAddr_injective hfactory) hl
        · exact hstored
  · refine fun w _ => wp_mono (fun cached w' _ => ?_) (safe_free fun _ => trivial)
    cases cached with
    | true => exact fun h => absurd h (by simp)
    | false => exact trivial
  · exact fun w _ => wp_mono (fun _ _ _ h => absurd h (by simp)) (safe_free fun _ => trivial)
  · intro row w hrow _
    refine wp_mono (fun r w' hr => ?_) (safe_insertToken (by rw [hrow, lowercase_hexAddr]))
    cases r with
    | error e => exact trivial
    | ok u =>
        have hstored := hr u rfl
        rw [hrow] at hstored
        exact wp_mono (fun _ w₂ hG _ => hG _ hstored)
          (safe_insertKnown fun w₁ hG => Or.inr (hG _ hstored))

theorem safe_dispatch {t0 : B256} (ht0 : abi.IsCurveTopic t0) {l : RpcLog}
    (hstored : w.store.tokens.contains (hexAddr l.address) = true) :
    Safe factory rpc (dispatch abi t0 l) (fun _ _ => True) w := by
  refine wp_dispatch ht0 (fun t ht => ?_) fun _ _ => trivial
  obtain ⟨kind, fields, row, hrow, ⟨hkind, rfl⟩ | ⟨hkind, rfl⟩⟩ := curveTxn_ok ht
  · obtain ⟨hcurve, hk⟩ := tradeRow_ok hrow
    refine wp_mono (fun _ _ _ => trivial) (safe_transact fun w₁ hG => Orderly.deal ?_ ?_)
    · rw [hcurve]
      exact hG _ hstored
    · rw [hk]
      exact hkind
  · obtain ⟨hcurve, hk⟩ := tradeRow_ok hrow
    refine wp_mono (fun _ _ _ => trivial)
      (safe_transact fun w₁ hG => Orderly.graduated ?_ (hk.trans hkind))
    rw [hcurve]
    exact hG _ hstored

theorem safe_curveLog {l : RpcLog} (hl : l.address = factory → ¬ l.IsCurveEvent abi) :
    Safe factory rpc (curveLog abi l) (fun _ _ => True) w := by
  refine wp_curveLog (fun _ => trivial) fun t0 htopic ht0 => ?_
  have hemitter : l.address ≠ factory := fun h => hl h ⟨t0, htopic, ht0⟩
  refine wp_mono (fun r w₁ hr => ?_) (safe_vetEmitter hemitter)
  rcases r with e | admitted
  · exact trivial
  · cases admitted with
    | true => exact safe_dispatch ht0 (hr rfl)
    | false => exact trivial

theorem safe_passTwo {logs : List RpcLog}
    (hlogs : ∀ l ∈ logs, l.address = factory → ¬ l.IsCurveEvent abi) :
    ∀ {w : CbWorld χ}, Safe factory rpc (passTwo abi logs) (fun _ _ => True) w := by
  induction logs with
  | nil => exact trivial
  | cons l rest ih =>
      intro w
      refine wp_scriptE_bind (wp_mono (fun r w₁ _ => ?_)
        (safe_curveLog (hlogs l (List.mem_cons_self ..))))
      cases r with
      | ok u => exact ih fun l' hl' => hlogs l' (List.mem_cons_of_mem _ hl')
      | error e => exact trivial

theorem safe_runChunk (hfilter : HonoursFilter rpc) (hsilent : FactorySilent abi factory rpc)
    (fromBlock toBlock : Int) :
    Safe factory rpc (runChunk abi fromBlock toBlock factory) (fun _ _ => True) w := by
  refine wp_scriptE_bind (wp_mono (fun r w₁ hr => ?_)
    (safe_logs (P := fun l => l.address = factory) fun chain logs chain' =>
      hfilter chain _ _ _ logs chain'))
  cases r with
  | error e => exact trivial
  | ok factoryLogs =>
      refine wp_scriptE_bind (wp_mono (fun r w₂ _ => ?_) (safe_passOne (hr _ rfl)))
      cases r with
      | error e => exact trivial
      | ok u =>
          refine wp_scriptE_bind (wp_mono (fun r w₃ hr => ?_)
            (safe_logs (P := fun l => l.address = factory → ¬ l.IsCurveEvent abi)
              fun chain logs chain' => hsilent chain _ _ logs chain'))
          cases r with
          | error e => exact trivial
          | ok curveLogs => exact safe_passTwo (hr _ rfl)

/-! ### The loop -/

theorem safe_idle (nanos : Nat) : Safe factory rpc (idle nanos) (fun _ _ => True) w := by
  refine wp_liftAsk (wp_mono (fun cancelled w₁ _ => ?_) (safe_free fun _ => trivial))
  by_cases hcancelled : cancelled = true
  · simp only [hcancelled, if_true]
    exact trivial
  · simp only [hcancelled]
    exact trivial

theorem safe_workerPass (hfilter : HonoursFilter rpc)
    (hsilent : FactorySilent abi (coinblastFactoryAddress cfg.network) rpc) :
    Safe (coinblastFactoryAddress cfg.network) rpc (workerPass abi cfg) (fun _ _ => True) w := by
  unfold workerPass
  refine wp_liftAsk (wp_mono (fun cancelled w₁ _ => ?_) (safe_free fun _ => trivial))
  by_cases hcancelled : cancelled = true
  · simp only [hcancelled, if_true]
    exact trivial
  · simp only [hcancelled]
    have hcursor : Safe (coinblastFactoryAddress cfg.network) rpc
        (readCoinblastCursor cfg.network) (fun _ _ => True) w₁ := by
      refine wp_scriptE_bind (wp_mono (fun r w₂ _ => ?_)
        (safe_free (c := .readCursor) fun _ => trivial))
      cases r with
      | ok cursor => exact trivial
      | error e => exact trivial
    refine wp_scriptE_bind (wp_mono (fun r w₂ _ => ?_) hcursor)
    cases r with
    | error e => exact trivial
    | ok cursor =>
        have htip : Safe (coinblastFactoryAddress cfg.network) rpc
            (cbRetry (CbCall.chain .blockNumber).ask) (fun _ _ => True) w₂ :=
          wp_cbRetry_each (J := fun _ => True)
            (fun w _ => wp_mono (fun _ _ _ => ⟨fun _ _ => trivial, trivial⟩)
              (safe_free fun _ => trivial))
            (fun nanos w _ => wp_mono (fun _ _ _ => trivial) (safe_free fun _ => trivial)) trivial
        refine wp_scriptE_bind (wp_mono (fun r w₃ _ => ?_) htip)
        cases r with
        | error e => exact trivial
        | ok tip =>
            by_cases hidle : saturatingSub tip (asI64 cfg.safeLag) ≤ cursor
            · simp only [hidle, if_true]
              exact safe_idle _
            · simp only [hidle, if_false]
              refine wp_liftRun (wp_mono (fun result w₄ _ => ?_)
                (safe_runChunk hfilter hsilent _ _))
              cases result with
              | error e => exact safe_idle _
              | ok u =>
                  refine wp_scriptE_bind (wp_mono (fun r w₅ _ => ?_)
                    (safe_transact fun _ _ => .cursor _))
                  cases r with
                  | ok u => exact safe_idle _
                  | error e => exact trivial

theorem safe_hydrateKnownCurves :
    Safe factory rpc hydrateKnownCurves (fun _ _ => True) w := by
  refine wp_scriptE_bind (wp_mono (fun r w₁ hr => ?_) (safe_ask (c := .knownCurveAddresses)
    (Q := fun r w₁ => ∀ curves, r = .ok curves →
      ∀ a ∈ curves.map lowercase, w₁.store.tokens.contains a = true)
    (fun _ _ => trivial) fun w₁ r w₂ _ hI hH curves hcurves a ha => ?_))
  · cases r with
    | error e => exact trivial
    | ok curves =>
        refine wp_script_bind (wp_mono (fun _ _ _ => trivial)
          (safe_ask (c := .initSets (curves.map lowercase)) (Q := fun _ _ => True)
            (fun w₂ hG a ha => ?_) fun _ _ _ _ _ _ => trivial))
        exact hG _ (hr curves rfl a ha)
  · obtain ⟨rfl, hr | ⟨e, he⟩⟩ := hH
    · obtain rfl : curves = _ := Except.ok.inj (hcurves.symm.trans hr)
      obtain ⟨b, hb, rfl⟩ := List.mem_map.mp ha
      obtain ⟨row, hrow, rfl⟩ := List.mem_map.mp hb
      rw [hI.accounts.lower row hrow]
      exact Table.contains_of_find? (Table.mem_rows.mp hrow)
    · exact absurd (hcurves.symm.trans he) (by simp)

theorem safe_runCoinblastWorker (hfilter : HonoursFilter rpc)
    (hsilent : FactorySilent abi (coinblastFactoryAddress cfg.network) rpc) :
    wp (cbHandle rpc) (Sound (coinblastFactoryAddress cfg.network)) Grows Grows
      (runCoinblastWorker abi cfg).run (fun _ _ => True) w := by
  refine wp_bindE (wp_mono (fun r w₁ _ => ?_) safe_hydrateKnownCurves)
  cases r with
  | error e => exact trivial
  | ok u =>
      refine wp_iterateE (fun _ _ => True) (fun _ _ _ _ _ _ => trivial) trivial fun _ w₂ _ _ => ?_
      refine wp_mono (fun r _ _ => ?_) (safe_workerPass hfilter hsilent)
      rcases r with e | _ | _ <;> exact trivial

/-! ### Every reachable state -/

theorem coinblast_verified (hfilter : HonoursFilter rpc)
    (hsilent : FactorySilent abi (coinblastFactoryAddress cfg.network) rpc) (chain : χ) :
    Verified (coinblast abi cfg rpc moves) (.init chain .empty)
      (Sound (coinblastFactoryAddress cfg.network)) Grows Grows where
  rely_refl := Grows.refl
  rely_trans _ _ _ := Grows.trans
  guar_refl := Grows.refl
  guar_rely _ _ h := h
  init := ⟨accounts_empty, fun a ha => absurd ha (by simp [CbWorld.init])⟩
  spawn i p w hs _ := by
    obtain rfl : p = _ := hs
    exact safe_runCoinblastWorker hfilter hsilent
  env w w' hI he := by
    cases he with
    | chain h => exact ⟨⟨hI.accounts, hI.known⟩, .refl _⟩
    | cancel => exact ⟨⟨hI.accounts, hI.known⟩, .refl _⟩
  crash w w' hI hc := by
    obtain rfl : w' = w.restart := hc
    exact ⟨hI.accounts, fun a ha => absurd ha (by simp [CbWorld.restart, CbWorld.init])⟩

/--
**The aggregates are the fold of the stored trades** in every reachable state of the worker,
over failed chunks, replays, duplicated logs and crashes.
-/
theorem aggregates_are_fold (hfilter : HonoursFilter rpc)
    (hsilent : FactorySilent abi (coinblastFactoryAddress cfg.network) rpc) {chain : χ}
    {c : Config CbSig Unit (CbWorld χ) (Except CbError Unit)}
    (hc : Reachable (coinblast abi cfg rpc moves) (.init chain .empty) c) :
    ∀ r ∈ c.world.store.tokens.rows,
      r.tradeCount = (c.world.store.dealsOf r.curveAddress).length ∧
      r.totalVolumeSrx =
        ((c.world.store.dealsOf r.curveAddress).map fun t => t.srxAmount.toNat).sum ∧
      (r.isGraduated = true ↔
        ∃ t ∈ c.world.store.tradesOf r.curveAddress, t.kind = .graduated) := by
  intro r hr
  have hsound := ((coinblast_verified hfilter hsilent chain).reachable hc).1
  obtain ⟨hcount, hvolume, hgraduated⟩ := hsound.accounts.folded r hr
  exact ⟨hcount, hvolume, hgraduated⟩

theorem oneBuy_silent : FactorySilent wordAbi (coinblastFactoryAddress .mainnet) oneBuy.rpc := by
  intro outages fromBlock toBlock logs outages' h l hl hfactory
  obtain rfl := CbChain.getLogs_ok h
  obtain rfl := List.mem_singleton.mp (List.mem_filter.mp hl).1
  exact absurd hfactory (by decide)

/-- The buy is stored, and it is the whole volume of its curve. -/
theorem aggregates_are_fold_oneBuy :
    ∃ c, Reachable (coinblast wordAbi mainnetConfig oneBuy.rpc fun _ _ => False)
        (.init [] .empty) c ∧
      ∃ r ∈ c.world.store.tokens.rows, r.totalVolumeSrx = 5 ∧
        r.totalVolumeSrx =
          ((c.world.store.dealsOf r.curveAddress).map fun t => t.srxAmount.toNat).sum := by
  have hreach := mainnetSteps_coinblast oneBuy 18 []
  obtain ⟨r, hr, hvolume⟩ : ∃ r ∈ (mainnetSteps oneBuy.respond 18 []).1.store.tokens.rows,
      r.totalVolumeSrx = 5 := by
    have hany : (mainnetSteps oneBuy.respond 18 []).1.store.tokens.rows.any
        (fun r => r.totalVolumeSrx = 5) = true := by decide +kernel
    obtain ⟨r, hr, hvolume⟩ := List.any_eq_true.mp hany
    exact ⟨r, hr, of_decide_eq_true hvolume⟩
  have hfold := aggregates_are_fold (fun _ _ _ _ _ _ h => oneBuy.honoursFilter h) oneBuy_silent
    hreach r hr
  exact ⟨_, hreach, r, hr, hvolume, hfold.2.1⟩

end SentrixIndexer
