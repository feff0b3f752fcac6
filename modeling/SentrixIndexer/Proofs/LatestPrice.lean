/-
The last price of a curve is that of its latest trade.

The column is overwritten by each buy and sell as it is inserted.  The logs come in the order
of their positions, so the last deal inserted is the latest one, unless a deal is inserted late:
it was passed over in one attempt at its chunk, in which a later deal of the curve went in,
and the attempt was repeated.  An emitter that has been passed over is in the set of those
turned away, so it is let in again in the same attempt only if the full set has dropped it
in between.

An observer notes the emitters passed over in each attempt.  In the runs that let in none of
them the deals stored of a curve are, above the cursor, the first ones (`Gapless`), so every deal
that is inserted is the latest.
-/
import Mathlib.Data.Prod.Lex
import SentrixIndexer.Coinblast.Reference
import SentrixIndexer.Effect.Observed
import SentrixIndexer.Proofs.TradeAggregates

namespace SentrixIndexer

open Effect Relational

variable {χ : Type} {abi : Abi} {cfg : WorkerConfig} {rpc : CbRpc χ} {moves : χ → χ → Prop}

/-! ### Positions -/

/-- Where the event of the trade stands in the chain. -/
def CbTrade.position (t : CbTrade) : Int ×ₗ Int := toLex (t.blockNumber, t.logIndex)

/-- Where the log stands in the chain, if it says so. -/
def RpcLog.position? (l : RpcLog) : Option (Int ×ₗ Int) := do
  let n ← l.blockNumber
  let i ← l.logIndex
  return toLex ((n.toNat : Int), (i.toNat : Int))

/-- The logs of the range that have been emitted, in the order of their positions. -/
structure Delivery (emitted : RpcLog → Prop) (fromBlock toBlock : Int) (logs : List RpcLog) :
    Prop where
  delivered : ∀ l, l ∈ logs ↔ emitted l ∧ History.InRange fromBlock toBlock l
  ordered : logs.Pairwise fun l l' => ∀ p ∈ l.position?, ∀ p' ∈ l'.position?, p ≤ p'

/-- The nodes deliver the logs of one chain, and each time in order. -/
def DeliversInOrder (rpc : CbRpc χ) (emitted : RpcLog → Prop) : Prop :=
  ∀ {chain fromBlock toBlock logs chain'},
    rpc chain (.getLogs fromBlock toBlock none) (.ok logs) chain' →
      Delivery emitted fromBlock toBlock logs

/-- If the curve of the row has deals, the row has the price of the latest. -/
def LatestPriced (s : CbStore) (r : CbToken) : Prop :=
  s.dealsOf r.curveAddress ≠ [] → ∃ t ∈ s.dealsOf r.curveAddress,
    (∀ t' ∈ s.dealsOf r.curveAddress, t'.position ≤ t.position) ∧
      r.lastPriceSrx = pricePerToken t.srxAmount t.tokenAmount

/-! ### The observer -/

/-- The emitters that have had a curve event passed over since logs were asked for last. -/
def passOver (passed : List Address) : (c : CbCall) → c.Answer → List Address
  | .chain (.getLogs _ _ _), _ => []
  | .isNonCurve a, true => a :: passed
  | .cacheNonCurve a, _ => a :: passed
  | _, _ => passed

/-- The state of the worker, and the emitters passed over in the attempt at hand. -/
abbrev Noted (χ : Type) := CbWorld χ × List Address

/-- The call lets in no emitter that has been passed over. -/
def LetsInNew (x : Noted χ) : CbCall → Prop
  | .insertKnown a => a ∉ x.2
  | _ => True

/-- The runs in which no emitter is let in that has been passed over in the same attempt. -/
abbrev steadfast (abi : Abi) (cfg : WorkerConfig) (rpc : CbRpc χ) (moves : χ → χ → Prop) :
    System CbSig Unit (Noted χ) (Except CbError Unit) :=
  ((coinblast abi cfg rpc moves).observe passOver []).answering fun x c _ _ => LetsInNew x c

/-! ### Deals and their logs -/

/-- The worker makes the deal of the log. -/
def DealOf (abi : Abi) (l : RpcLog) (t : CbTrade) : Prop :=
  ∃ t0, l.topics.head? = some t0 ∧ abi.IsCurveTopic t0 ∧ curveTxn abi t0 l = .ok t.bumping

theorem CbTrade.bumping_inj {t t' : CbTrade} (h : t.bumping = t'.bumping) : t = t' := by
  unfold CbTrade.bumping at h
  exact (CbTxn.writeTrade.inj h).1

variable {l : RpcLog} {t t' : CbTrade}

theorem dealOf_ok (h : DealOf abi l t) :
    t.curveAddress = hexAddr l.address ∧ t.kind ≠ .graduated ∧ t.position ∈ l.position? ∧
      ∃ n, l.blockNumber = some n ∧ t.blockNumber = n.toNat := by
  obtain ⟨t0, -, -, htxn⟩ := h
  obtain ⟨kind, fields, row, hrow, ⟨hkind, hdeal⟩ | ⟨-, hgraduated⟩⟩ := curveTxn_ok htxn
  · obtain rfl := CbTrade.bumping_inj hdeal
    obtain ⟨hcurve, rfl⟩ := tradeRow_ok hrow
    obtain ⟨n, i, hn, hi, hblock, hindex⟩ := tradeRow_place hrow
    refine ⟨hcurve, hkind, ?_, n, hn, hblock⟩
    simp [RpcLog.position?, CbTrade.position, hn, hi, hblock, hindex]
  · exact absurd hgraduated (by simp [CbTrade.bumping])

theorem DealOf.unique (h : DealOf abi l t) (h' : DealOf abi l t') : t = t' := by
  obtain ⟨t0, htopic, -, htxn⟩ := h
  obtain ⟨t0', htopic', -, htxn'⟩ := h'
  obtain rfl := Option.some.inj (htopic.symm.trans htopic')
  exact CbTrade.bumping_inj (Except.ok.inj (htxn.symm.trans htxn'))

/-- Above the cursor, the deals stored of a curve are its first ones. -/
def Gapless (abi : Abi) (emitted : RpcLog → Prop) (cursor : Int) (s : CbStore) : Prop :=
  ∀ d ∈ s.trades.rows, d.kind ≠ .graduated → ∀ l t, emitted l → DealOf abi l t →
    t.curveAddress = d.curveAddress → cursor < t.blockNumber → t.position < d.position →
      s.trades.contains t.key = true

/-! ### A transaction of pass 2 -/

/-- The deals before this one are stored. -/
def Awaited (abi : Abi) (emitted : RpcLog → Prop) (cursor : Int) (s : CbStore) (d : CbTrade) :
    Prop :=
  ∀ l t, emitted l → DealOf abi l t → t.curveAddress = d.curveAddress → cursor < t.blockNumber →
    t.position < d.position → s.trades.contains t.key = true

/-- A transaction as it is made in pass 2. -/
inductive Due (abi : Abi) (emitted : RpcLog → Prop) (cursor : Int) (s : CbStore) : CbTxn → Prop
  | token (row : InsertCbToken) : Due abi emitted cursor s (.insertToken row)
  | deal {l : RpcLog} {t : CbTrade} (hl : emitted l) (ht : DealOf abi l t)
      (habove : cursor < t.blockNumber) (hbefore : Awaited abi emitted cursor s t) :
      Due abi emitted cursor s (.writeTrade t t.srxAmount (pricePerToken t.srxAmount t.tokenAmount))
  | graduated {t : CbTrade} (hkind : t.kind = .graduated) :
      Due abi emitted cursor s (.writeGraduated t)

variable {emitted : RpcLog → Prop} {cursor : Int} {s s' : CbStore}

theorem mem_dealsOf {curve : Address} :
    t ∈ s.dealsOf curve ↔ t ∈ s.trades.rows ∧ t.curveAddress = curve ∧ t.kind ≠ .graduated := by
  simp only [CbStore.dealsOf, CbStore.tradesOf, List.mem_filter, decide_eq_true_eq, and_assoc]

theorem dealsOf_insertNew (hnew : s.trades.contains t.key = false)
    (tokens : Table CbToken.curveAddress) (curve : Address) :
    CbStore.dealsOf { s with trades := s.trades.insertNew t, tokens := tokens } curve =
      s.dealsOf curve ++
        if t.curveAddress = curve ∧ t.kind ≠ .graduated then [t] else [] := by
  rw [CbStore.dealsOf, tradesOf_insertNew hnew, List.filter_append, ← CbStore.dealsOf]
  by_cases hcurve : t.curveAddress = curve <;> by_cases hkind : t.kind = .graduated <;>
    simp [hcurve, hkind]

/-- **A transaction of pass 2 leaves no gap.** -/
theorem Gapless.effect (h : Gapless abi emitted cursor s) {t : CbTxn}
    (ht : Due abi emitted cursor s t) (he : TxnEffect s t s') : Gapless abi emitted cursor s' := by
  cases he with
  | token t => exact h
  | old htrade hstored => exact h
  | trade t srx lastPrice hnew =>
      cases ht with
      | deal hl hdeal habove hbefore =>
          intro d hd hkind l' t' hl' ht' hcurve hcursor hlt
          simp only [Table.rows_insertNew hnew, List.mem_append, List.mem_singleton] at hd
          rw [Table.contains_insertNew, Bool.or_eq_true]
          rcases hd with hold | rfl
          · exact Or.inl (h d hold hkind l' t' hl' ht' hcurve hcursor hlt)
          · exact Or.inl (hbefore l' t' hl' ht' hcurve hcursor hlt)
  | graduated t hnew =>
      cases ht with
      | graduated hgraduated =>
          intro d hd hkind l' t' hl' ht' hcurve hcursor hlt
          simp only [Table.rows_insertNew hnew, List.mem_append, List.mem_singleton] at hd
          rw [Table.contains_insertNew, Bool.or_eq_true]
          rcases hd with hold | rfl
          · exact Or.inl (h d hold hkind l' t' hl' ht' hcurve hcursor hlt)
          · exact absurd hgraduated hkind
  | cursor height htokens htrades => nomatch ht

/-- Every row has the price of its latest deal. -/
def Priced (s : CbStore) : Prop := ∀ r ∈ s.tokens.rows, LatestPriced s r

/-- **A deal that goes in is the latest**: the later ones would have had to wait for it. -/
theorem Gapless.latest (h : Gapless abi emitted cursor s) {l : RpcLog} (hl : emitted l)
    (ht : DealOf abi l t) (habove : cursor < t.blockNumber)
    (hnew : s.trades.contains t.key = false) :
    ∀ d ∈ s.dealsOf t.curveAddress, d.position ≤ t.position := by
  intro d hd
  obtain ⟨hstored, hcurve, hkind⟩ := mem_dealsOf.mp hd
  refine le_of_not_gt fun hlt => ?_
  have := h d hstored hkind l t hl ht hcurve.symm habove hlt
  rw [hnew] at this
  exact absurd this (by simp)

/-- A row and its deals stay as they are. -/
theorem LatestPriced.congr {r r' : CbToken} (h : LatestPriced s r)
    (hcurve : r'.curveAddress = r.curveAddress) (hprice : r'.lastPriceSrx = r.lastPriceSrx)
    (hdeals : s'.dealsOf r.curveAddress = s.dealsOf r.curveAddress) : LatestPriced s' r' := by
  unfold LatestPriced
  rw [hcurve, hprice, hdeals]
  exact h

/-- **A transaction of pass 2 keeps the prices.** -/
theorem Priced.effect (h : Priced s) (hgapless : Gapless abi emitted cursor s)
    (hs : Accounts s) {t : CbTxn} (ht : Due abi emitted cursor s t)
    (he : TxnEffect s t s') : Priced s' := by
  cases he with
  | token t =>
      intro r hr
      by_cases hstored : s.tokens.contains t.row.curveAddress = true
      · rw [Table.insertNew_of_contains hstored] at hr
        exact h r hr
      · rw [Bool.not_eq_true] at hstored
        rw [Table.rows_insertNew hstored] at hr
        rcases List.mem_append.mp hr with hold | hrow
        · exact (h r hold).congr rfl rfl rfl
        · -- A curve that is not stored has no deals.
          obtain rfl := List.mem_singleton.mp hrow
          intro hdeals
          obtain ⟨d, hd⟩ := List.exists_mem_of_ne_nil _ hdeals
          obtain ⟨hd, hcurve, -⟩ := mem_dealsOf.mp hd
          have hcontains := hs.stored d hd
          rw [hcurve, hstored] at hcontains
          exact absurd hcontains (by simp)
  | old htrade hstored => exact h
  | trade t srx lastPrice hnew =>
      cases ht with
      | deal hl hdeal habove hbefore =>
          intro r' hr'
          obtain ⟨r, hr, rfl⟩ := List.mem_map.mp hr'
          by_cases hsame : r.curveAddress = t.curveAddress
          · rw [if_pos hsame]
            intro _
            have hmine : t.curveAddress = r.curveAddress ∧ t.kind ≠ .graduated :=
              ⟨hsame.symm, (dealOf_ok hdeal).2.1⟩
            rw [CbTokens.curveAddress_bumped, dealsOf_insertNew hnew, if_pos hmine]
            refine ⟨t, by simp, ?_, rfl⟩
            · intro d hd
              rcases List.mem_append.mp hd with hold | hnow
              · rw [hsame] at hold
                exact hgapless.latest hl hdeal habove hnew d hold
              · exact (List.mem_singleton.mp hnow).symm ▸ le_rfl
          · rw [if_neg hsame]
            refine (h r hr).congr rfl rfl ?_
            rw [dealsOf_insertNew hnew, if_neg fun hc => hsame hc.1.symm, List.append_nil]
  | graduated t hnew =>
      cases ht with
      | graduated hgraduated =>
          intro r' hr'
          obtain ⟨r, hr, rfl⟩ := List.mem_map.mp hr'
          refine (h r hr).congr ?_ ?_ ?_
          · split <;> rfl
          · split <;> rfl
          · rw [dealsOf_insertNew hnew, if_neg fun hc => hc.2 hgraduated, List.append_nil]
  | cursor height htokens htrades => nomatch ht

/-! ### The worker -/

/-- How the surroundings answer in the runs of the condition; the accounts are known to be right. -/
abbrev steadfastHandle (rpc : CbRpc χ) : Handler CbSig (Noted χ) := fun x c r x' =>
  ((cbHandle rpc x.1 c r x'.1 ∧ x'.2 = passOver x.2 c r) ∧ LetsInNew x c) ∧ Accounts x.1.store

/-- What holds whatever the worker is doing. -/
structure PricesKept (abi : Abi) (network : Network) (emitted : RpcLog → Prop) (x : Noted χ) :
    Prop where
  gapless : Gapless abi emitted (x.1.store.readCursor network) x.1.store
  priced : Priced x.1.store

/-- Store, known curves and emitters passed over are the same. -/
structure Still (x x' : Noted χ) : Prop where
  store : x'.1.store = x.1.store
  known : x'.1.knownCurves = x.1.knownCurves
  passed : x'.2 = x.2

theorem Still.refl (x : Noted χ) : Still x x := ⟨rfl, rfl, rfl⟩

theorem Still.trans {x₁ x₂ x₃ : Noted χ} (h : Still x₁ x₂) (h' : Still x₂ x₃) : Still x₁ x₃ :=
  ⟨h'.store.trans h.store, h'.known.trans h.known, h'.passed.trans h.passed⟩

variable {network : Network} {x x' : Noted χ} {α : Type}

theorem PricesKept.of_store (h : PricesKept abi network emitted x) (hs : x'.1.store = x.1.store) :
    PricesKept abi network emitted x' := by
  obtain ⟨hgapless, hpriced⟩ := h
  constructor <;> rw [hs] <;> assumption

/-- What the script leaves, in the runs of the condition. -/
abbrev KeepsPrices (abi : Abi) (network : Network) (emitted : RpcLog → Prop) (rpc : CbRpc χ)
    (p : CbScript α) (Q : Except CbError α → Noted χ → Prop) (x : Noted χ) : Prop :=
  wp (steadfastHandle rpc) (PricesKept abi network emitted) Still (fun _ _ => True)
    (Script.toProgE p).run Q x

/-- The answer to one call. -/
theorem prices_ask {c : CbCall} {Q : c.Answer → Noted χ → Prop}
    (h : ∀ x₁ r x₂, Still x x₁ → PricesKept abi network emitted x₁ →
      steadfastHandle rpc x₁ c r x₂ → PricesKept abi network emitted x₂ ∧ Q r x₂) :
    wp (steadfastHandle rpc) (PricesKept abi network emitted) Still (fun _ _ => True)
      c.ask.toProg Q x := by
  intro x₁ hR hI r x₂ hH
  obtain ⟨hI₂, hQ⟩ := h x₁ r x₂ hR hI hH
  exact ⟨hI₂, trivial, hQ⟩

/-- The call changes nothing the invariant speaks of. -/
def CbCall.IsCalm : CbCall → Prop
  | .chain .blockNumber => True
  | .chain (.ethCall _ _) => True
  | .sleep _ => True
  | .isCancelled => True
  | .sleepOrCancel _ => True
  | .knownCurveAddresses => True
  | .readCursor => True
  | .isKnown _ => True
  | _ => False

theorem still_of_calm {c : CbCall} (hc : c.IsCalm) {r : c.Answer}
    (h : steadfastHandle rpc x c r x') : Still x x' := by
  obtain ⟨⟨⟨hH, hpassed⟩, -⟩, -⟩ := h
  cases c with
  | chain c =>
      obtain ⟨chain', -, hx⟩ := hH
      cases c with
      | getLogs fromBlock toBlock address => exact absurd hc fun h => h
      | _ => exact ⟨by rw [hx], by rw [hx], hpassed⟩
  | sleep nanos => exact ⟨by rw [show x'.1 = x.1 from hH], by rw [show x'.1 = x.1 from hH], hpassed⟩
  | isCancelled => exact ⟨by rw [hH.2], by rw [hH.2], hpassed⟩
  | sleepOrCancel nanos => exact ⟨by rw [hH.2], by rw [hH.2], hpassed⟩
  | knownCurveAddresses => exact ⟨by rw [hH.1], by rw [hH.1], hpassed⟩
  | readCursor => exact ⟨by rw [hH.1], by rw [hH.1], hpassed⟩
  | isKnown a => exact ⟨by rw [hH.2], by rw [hH.2], hpassed⟩
  | _ => exact absurd hc fun h => h

theorem prices_calm {c : CbCall} (hc : c.IsCalm) :
    wp (steadfastHandle rpc) (PricesKept abi network emitted) Still (fun _ _ => True)
      c.ask.toProg (fun _ x' => Still x x') x := by
  refine prices_ask fun x₁ r x₂ hR hI hH => ?_
  have hs := still_of_calm hc hH
  exact ⟨hI.of_store hs.store, hR.trans hs⟩

theorem isCalm_of_isEthCall {c : CbCall} (h : c.IsEthCall) : c.IsCalm := by
  cases c with
  | chain c =>
      cases c with
      | ethCall target view => exact trivial
      | _ => exact absurd h fun h => h
  | _ => exact absurd h fun h => h

/-! ### Transactions -/

/-- What a transaction of a pass leaves. -/
structure AfterTxn (network : Network) (x : Noted χ) (t : CbTxn) (r : Except CbError t.Result)
    (x' : Noted χ) : Prop where
  cursor : x'.1.store.readCursor network = x.1.store.readCursor network
  known : x'.1.knownCurves = x.1.knownCurves
  passed : x'.2 = x.2
  kept : ∀ key, x.1.store.trades.contains key = true → x'.1.store.trades.contains key = true
  written : ∀ a, r = .ok a → TxnEffect x.1.store t x'.1.store

/-- **A transaction of a pass.** -/
theorem prices_transact {t : CbTxn} (ht : ∀ height, t ≠ .setCursor height)
    (hdue : Due abi emitted (x.1.store.readCursor network) x.1.store t) :
    KeepsPrices abi network emitted rpc (cbTransact t) (AfterTxn network x t) x := by
  refine prices_ask fun x₁ r x₂ hR hI hH => ?_
  obtain ⟨⟨⟨hH, hpassed⟩, -⟩, haccounts⟩ := hH
  have hpassed' : x₂.2 = x.2 := hpassed.trans hR.passed
  rcases hH with ⟨a, s, hrun, -, hx⟩ | ⟨⟨e, he⟩, hx⟩
  · have heffect := CbTxn.run_effect hrun
    rw [← hR.store] at hdue
    have hcursor : s.readCursor network = x₁.1.store.readCursor network := by
      rw [CbStore.readCursor, heffect.cursor_eq ht, CbStore.readCursor]
    refine ⟨⟨?_, ?_⟩, ?_, ?_, hpassed', ?_, ?_⟩
    · rw [hx]
      show Gapless abi emitted (s.readCursor network) s
      rw [hcursor]
      exact hI.gapless.effect hdue heffect
    · rw [hx]
      exact hI.priced.effect hI.gapless haccounts hdue heffect
    · rw [hx, ← hR.store]
      exact hcursor
    · rw [hx, ← hR.known]
    · rw [hx, ← hR.store]
      exact fun key hkey => heffect.trades_contains hkey
    · rw [hx, ← hR.store]
      exact fun _ _ => heffect
  · refine ⟨hI.of_store (by rw [hx]), ?_, ?_, hpassed', ?_, fun a ha => ?_⟩
    · rw [hx, hR.store]
    · rw [hx, hR.known]
    · rw [hx, hR.store]
      exact fun _ h => h
    · exact absurd (he.symm.trans ha) (by simp)

/-! ### The passes of a chunk -/

/-- A chunk from `fromBlock` on has been begun, and nobody has been passed over in it. -/
structure Begun (network : Network) (fromBlock : Int) (x : Noted χ) : Prop where
  cursor : x.1.store.readCursor network = fromBlock - 1
  nobody : x.2 = []

/-- Pass 2 has met these logs: the deals of each are stored, or its emitter is passed over. -/
structure Midway (abi : Abi) (network : Network) (fromBlock : Int) (met : List RpcLog)
    (x : Noted χ) : Prop where
  cursor : x.1.store.readCursor network = fromBlock - 1
  taken : ∀ l ∈ met, ∀ t, DealOf abi l t →
    x.1.store.trades.contains t.key = true ∨ hexAddr l.address ∈ x.2
  shut : ∀ a ∈ x.2, a ∉ x.1.knownCurves

variable {fromBlock toBlock : Int} {met : List RpcLog}

theorem Midway.still (h : Midway abi network fromBlock met x) (hs : Still x x') :
    Midway abi network fromBlock met x' := by
  obtain ⟨hcursor, htaken, hshut⟩ := h
  constructor
  · rw [hs.store, hcursor]
  · rw [hs.store, hs.passed]
    exact htaken
  · rw [hs.passed, hs.known]
    exact hshut

theorem Midway.after (h : Midway abi network fromBlock met x) {t : CbTxn}
    {r : Except CbError t.Result} (ht : AfterTxn network x t r x') :
    Midway abi network fromBlock met x' where
  cursor := ht.cursor.trans h.cursor
  taken l hl d hd := by
    rw [ht.passed]
    exact (h.taken l hl d hd).imp_left (ht.kept d.key)
  shut := by
    rw [ht.passed, ht.known]
    exact h.shut

/-- A log of no deal. -/
theorem Midway.skip (h : Midway abi network fromBlock met x) (hl : ∀ t, ¬ DealOf abi l t) :
    Midway abi network fromBlock (met ++ [l]) x where
  cursor := h.cursor
  taken l' hl' t ht := by
    rcases List.mem_append.mp hl' with hold | hnow
    · exact h.taken l' hold t ht
    · rw [List.mem_singleton.mp hnow] at ht
      exact absurd ht (hl t)
  shut := h.shut

/-- A log whose emitter is passed over. -/
theorem Midway.passedOver (h : Midway abi network fromBlock met x)
    (hl : hexAddr l.address ∈ x.2) : Midway abi network fromBlock (met ++ [l]) x where
  cursor := h.cursor
  taken l' hl' t ht := by
    rcases List.mem_append.mp hl' with hold | hnow
    · exact h.taken l' hold t ht
    · rw [List.mem_singleton.mp hnow]
      exact Or.inr hl
  shut := h.shut

/-- A log whose deal is stored. -/
theorem Midway.stored (h : Midway abi network fromBlock met x)
    (hl : ∀ t, DealOf abi l t → x.1.store.trades.contains t.key = true) :
    Midway abi network fromBlock (met ++ [l]) x where
  cursor := h.cursor
  taken l' hl' t ht := by
    rcases List.mem_append.mp hl' with hold | hnow
    · exact h.taken l' hold t ht
    · rw [List.mem_singleton.mp hnow] at ht
      exact Or.inl (hl t ht)
  shut := h.shut

theorem prices_insertKnown {a : Address} {Q : Noted χ → Prop}
    (hQ : ∀ x', x'.1.store = x.1.store → x'.2 = x.2 → a ∉ x.2 →
      x'.1.knownCurves = insertAddress x.1.knownCurves a → Q x') :
    wp (steadfastHandle rpc) (PricesKept abi network emitted) Still (fun _ _ => True)
      (CbCall.insertKnown a).ask.toProg (fun _ x' => Q x') x := by
  refine prices_ask fun x₁ r x₂ hR hI hH => ?_
  obtain ⟨⟨⟨hH, hpassed⟩, hnew⟩, -⟩ := hH
  have hx : x₂.1 = _ := hH
  refine ⟨hI.of_store (by rw [hx]), hQ x₂ ?_ (hpassed.trans hR.passed) ?_ ?_⟩
  · rw [hx, ← hR.store]
  · rw [← hR.passed]
    exact hnew
  · rw [hx, ← hR.known]

theorem prices_passOne {logs : List RpcLog} :
    ∀ {x : Noted χ}, Begun network fromBlock x →
      KeepsPrices abi network emitted rpc (passOne abi logs)
        (fun _ x' => Begun network fromBlock x') x := by
  induction logs with
  | nil => exact fun h => h
  | cons l rest ih =>
      intro x h
      unfold passOne
      by_cases htopic : l.topics.head? = some abi.curveCreatedHash
      · simp only [htopic, if_true]
        have hcreated : KeepsPrices abi network emitted rpc (applyCurveCreated abi l)
            (fun _ x' => Begun network fromBlock x') x := by
          refine wp_computed (fun row _ => ?_) fun _ _ => h
          refine wp_mono (fun r x' hx => ?_) (prices_transact (by simp) (.token row))
          exact ⟨hx.cursor.trans h.cursor, hx.passed.trans h.nobody⟩
        refine wp_scriptE_bind (wp_mono (fun r x₁ h₁ => ?_) hcreated)
        cases r with
        | error e => exact h₁
        | ok u =>
            refine wp_liftAsk (prices_insertKnown fun x₂ hstore hpassed _ _ => ih ?_)
            exact ⟨by rw [hstore, h₁.cursor], by rw [hpassed, h₁.nobody]⟩
      · simp only [htopic, if_false]
        exact ih h

/-- **Whoever is let in has not been passed over, and whoever is not is passed over now.** -/
theorem prices_vetEmitter (h : Midway abi network fromBlock met x) :
    KeepsPrices abi network emitted rpc (vetEmitter abi l)
      (fun r x' => Midway abi network fromBlock met x' ∧
        (r = .ok true → hexAddr l.address ∈ x'.1.knownCurves) ∧
        (r = .ok false → hexAddr l.address ∈ x'.2)) x := by
  -- A stranger is passed over.
  have hpass : ∀ x x' : Noted χ, Midway abi network fromBlock met x →
      hexAddr l.address ∉ x.1.knownCurves → x'.1.store = x.1.store →
      x'.1.knownCurves = x.1.knownCurves → x'.2 = hexAddr l.address :: x.2 →
      Midway abi network fromBlock met x' := by
    rintro x x' ⟨hcursor, htaken, hshut⟩ hunknown hstore hknown hpassed
    constructor
    · rw [hstore, hcursor]
    · rw [hstore, hpassed]
      exact fun l' hl' t ht => (htaken l' hl' t ht).imp_right (List.mem_cons_of_mem _)
    · rw [hpassed, hknown]
      intro a ha
      rcases List.mem_cons.mp ha with rfl | hold
      · exact hunknown
      · exact hshut a hold
  let J : Noted χ → Prop := fun x =>
    Midway abi network fromBlock met x ∧ hexAddr l.address ∉ x.1.knownCurves
  have hJ : ∀ {x x' : Noted χ}, J x → Still x x' → J x' := by
    rintro x x' ⟨h, hunknown⟩ hs
    exact ⟨h.still hs, by rw [hs.known]; exact hunknown⟩
  refine wp_vetEmitter (J := J) (K := J) (fun x x' h hs _ => hJ h hs) ?_ ?_ ?_ ?_ ?_
  · intro x c r x' hc hI h hH
    have hs := still_of_calm (isCalm_of_isEthCall hc) hH
    exact ⟨hI.of_store hs.store, trivial, hJ h hs⟩
  · refine prices_ask fun x₁ r x₂ hR hI hH => ?_
    have hs := still_of_calm (c := .isKnown _) trivial hH
    obtain ⟨⟨⟨⟨hr, -⟩, -⟩, -⟩, -⟩ := hH
    refine ⟨hI.of_store hs.store, ?_⟩
    have h₂ := h.still (hR.trans hs)
    cases r with
    | true => exact ⟨h₂, fun _ => hs.known ▸ of_decide_eq_true hr.symm, fun h => by simp at h⟩
    | false => exact ⟨h₂, hs.known ▸ of_decide_eq_false hr.symm⟩
  · rintro x ⟨h, hunknown⟩
    refine prices_ask fun x₁ r x₂ hR hI hH => ?_
    obtain ⟨⟨⟨⟨-, hx⟩, hpassed⟩, -⟩, -⟩ := hH
    refine ⟨hI.of_store (by rw [hx]), ?_⟩
    have h₁ := h.still hR
    have hunknown₁ : hexAddr l.address ∉ x₁.1.knownCurves := hR.known ▸ hunknown
    cases r with
    | true =>
        refine ⟨hpass x₁ x₂ h₁ hunknown₁ (by rw [hx]) (by rw [hx]) hpassed, fun h => by simp at h, ?_⟩
        intro _
        rw [hpassed]
        exact List.mem_cons_self ..
    | false => exact hJ ⟨h₁, hunknown₁⟩ ⟨by rw [hx], by rw [hx], hpassed⟩
  · rintro x ⟨h, hunknown⟩
    refine prices_ask fun x₁ r x₂ hR hI hH => ?_
    obtain ⟨⟨⟨⟨set, -, hx⟩, hpassed⟩, -⟩, -⟩ := hH
    refine ⟨hI.of_store (by rw [hx]), ?_, fun h => by simp at h, ?_⟩
    · exact hpass x₁ x₂ (h.still hR) (hR.known ▸ hunknown) (by rw [hx]) (by rw [hx]) hpassed
    · intro _
      rw [hpassed]
      exact List.mem_cons_self ..
  · rintro row x - ⟨h, hunknown⟩
    refine wp_mono (fun r x₁ hx => ?_) (prices_transact (by simp) (.token row))
    have h₁ := h.after hx
    cases r with
    | error e => exact ⟨h₁, hx.known ▸ hunknown⟩
    | ok u =>
        refine prices_insertKnown fun x₂ hstore hpassed hnew hknown => ⟨⟨?_, ?_, ?_⟩, ?_, ?_⟩
        · rw [hstore, h₁.cursor]
        · rw [hstore, hpassed]
          exact h₁.taken
        · rw [hpassed, hknown]
          intro a ha hmem
          rcases mem_insertAddress.mp hmem with hold | rfl
          · exact h₁.shut a ha hold
          · exact hnew ha
        · intro _
          rw [hknown]
          exact mem_insertAddress.mpr (Or.inr rfl)
        · intro h
          simp at h

variable {rest : List RpcLog}

/-- **When the turn of a deal comes, the deals before it are stored**, if its emitter has not been
passed over: they have been met. -/
theorem Midway.awaited (h : Midway abi network fromBlock met x)
    (hlogs : Delivery emitted fromBlock toBlock (met ++ l :: rest)) (ht : DealOf abi l t)
    (hknown : hexAddr l.address ∈ x.1.knownCurves) :
    Awaited abi emitted (x.1.store.readCursor network) x.1.store t := by
  intro l' t' hl' ht' hcurve hcursor hlt
  obtain ⟨hcurve₁, -, hplace, n, hn, hblock⟩ := dealOf_ok ht
  obtain ⟨hcurve₁', -, hplace', n', hn', hblock'⟩ := dealOf_ok ht'
  rw [h.cursor, hblock'] at hcursor
  have hmet : l' ∈ met ++ l :: rest := by
    refine (hlogs.delivered l').mpr ⟨hl', n', hn', by omega, ?_⟩
    obtain ⟨-, m, hm, -, hto⟩ := (hlogs.delivered l).mp (by simp)
    obtain rfl := Option.some.inj (hn.symm.trans hm)
    have hle : t'.blockNumber ≤ t.blockNumber := by
      rcases Prod.Lex.toLex_lt_toLex.mp hlt with hlt | ⟨heq, -⟩
      · exact hlt.le
      · exact heq.le
    omega
  rcases List.mem_append.mp hmet with hearlier | hlater
  · rcases h.taken l' hearlier t' ht' with hstored | hpassed
    · exact hstored
    · rw [← hcurve₁', hcurve, hcurve₁] at hpassed
      exact absurd hknown (h.shut _ hpassed)
  · rcases List.mem_cons.mp hlater with rfl | hafter
    · rw [ht.unique ht'] at hlt
      exact absurd hlt (lt_irrefl _)
    · have hpairs := (List.pairwise_append.mp hlogs.ordered).2.1
      have hle := (List.pairwise_cons.mp hpairs).1 l' hafter _ hplace _ hplace'
      exact absurd hlt (not_lt.mpr hle)

/-- **A curve event of an emitter that was let in.** -/
theorem prices_dispatch {t0 : B256} (htopic : l.topics.head? = some t0)
    (ht0 : abi.IsCurveTopic t0) (h : Midway abi network fromBlock met x)
    (hlogs : Delivery emitted fromBlock toBlock (met ++ l :: rest))
    (hknown : hexAddr l.address ∈ x.1.knownCurves) :
    KeepsPrices abi network emitted rpc (dispatch abi t0 l)
      (fun r x' => r = .ok () → Midway abi network fromBlock (met ++ [l]) x') x := by
  refine wp_dispatch ht0 (fun t htxn => ?_) fun e _ h => by simp at h
  have hdeal : ∀ {d}, t = d.bumping → DealOf abi l d := fun hd => ⟨t0, htopic, ht0, hd ▸ htxn⟩
  have hemitted := (hlogs.delivered l).mp (by simp)
  have hfinish : ∀ {r x'}, AfterTxn network x t r x' → Except.map (fun _ => ()) r = .ok () →
      Midway abi network fromBlock (met ++ [l]) x' := by
    intro r x' hx hr
    refine (h.after hx).stored fun d hd => ?_
    obtain ⟨t0', htopic', -, htxn'⟩ := hd
    obtain rfl := Option.some.inj (htopic.symm.trans htopic')
    obtain rfl := Except.ok.inj (htxn.symm.trans htxn')
    cases r with
    | error e => exact absurd hr (by simp [Except.map])
    | ok a => exact trades_contains_of_effect (hx.written a rfl) rfl
  obtain ⟨kind, fields, row, hrow, ⟨hkind, rfl⟩ | ⟨hkind, rfl⟩⟩ := curveTxn_ok htxn
  · have hd := hdeal rfl
    obtain ⟨-, -, -, n, hn, hblock⟩ := dealOf_ok hd
    obtain ⟨m, hm, hfrom, -⟩ := hemitted.2
    obtain rfl := Option.some.inj (hn.symm.trans hm)
    have hdue := Due.deal hemitted.1 hd (by rw [h.cursor, hblock]; omega)
      (h.awaited hlogs hd hknown)
    exact wp_mono (fun r x' hx => hfinish hx) (prices_transact (by simp [CbTrade.bumping]) hdue)
  · have hdue : Due abi emitted (x.1.store.readCursor network) x.1.store (.writeGraduated row) :=
      .graduated ((tradeRow_ok hrow).2.trans hkind)
    exact wp_mono (fun r x' hx => hfinish hx) (prices_transact (by simp) hdue)

theorem prices_curveLog (h : Midway abi network fromBlock met x)
    (hlogs : Delivery emitted fromBlock toBlock (met ++ l :: rest)) :
    KeepsPrices abi network emitted rpc (curveLog abi l)
      (fun r x' => r = .ok () → Midway abi network fromBlock (met ++ [l]) x') x := by
  refine wp_curveLog (fun hnone _ => h.skip ?_) fun t0 htopic ht0 => ?_
  · rintro t ⟨t0, htopic, ht0, -⟩
    exact hnone t0 htopic ht0
  · refine wp_mono (fun r x₁ hr => ?_) (prices_vetEmitter h)
    obtain ⟨h₁, hin, hout⟩ := hr
    rcases r with e | admitted
    · exact fun h => by simp at h
    · cases admitted with
      | true => exact prices_dispatch htopic ht0 h₁ hlogs (hin rfl)
      | false => exact fun _ => h₁.passedOver (hout rfl)

/-- **Pass 2.** -/
theorem prices_passTwo : ∀ {met rest : List RpcLog} {x : Noted χ},
    Midway abi network fromBlock met x → Delivery emitted fromBlock toBlock (met ++ rest) →
      KeepsPrices abi network emitted rpc (passTwo abi rest)
        (fun r x' => r = .ok () → x'.1.store.readCursor network = fromBlock - 1) x := by
  intro met rest
  induction rest generalizing met with
  | nil => exact fun h _ _ => h.cursor
  | cons l rest ih =>
      intro x h hlogs
      refine wp_scriptE_bind (wp_mono (fun r x₁ hr => ?_) (prices_curveLog h hlogs))
      cases r with
      | error e => exact fun h => by simp at h
      | ok u =>
          refine ih (hr rfl) ?_
          rwa [List.append_assoc]

/-- The logs of a range leave a chunk in which nobody has been passed over. -/
theorem prices_logs {address : Option EvmAddress} (h : x.1.store.readCursor network = fromBlock - 1) :
    KeepsPrices abi network emitted rpc (cbRetry (cbLogsInRange fromBlock toBlock address))
      (fun r x' => x'.1.store.readCursor network = fromBlock - 1 ∧ ∀ logs, r = .ok logs →
        x'.2 = [] ∧ fromBlock ≤ toBlock ∧ ∃ chain chain',
          rpc chain (.getLogs fromBlock toBlock address) (.ok logs) chain') x := by
  refine wp_cbRetry_each (J := fun x => x.1.store.readCursor network = fromBlock - 1)
    (fun x h => ?_) (fun nanos x h => ?_) h
  · by_cases hrange : toBlock < fromBlock
    · unfold cbLogsInRange logsInRange
      rw [if_pos hrange]
      exact ⟨fun _ _ => h, h, fun logs hlogs => by simp [Except.mapError] at hlogs⟩
    · refine wp_cbLogsInRange (fun msg => ⟨fun _ _ => h, h, fun logs hlogs => ?_⟩)
        (prices_ask fun x₁ r x₂ hR hI hH => ?_)
      · simp [Except.mapError] at hlogs
      · obtain ⟨⟨⟨⟨chain', hr, hx⟩, hpassed⟩, -⟩, -⟩ := hH
        have hstore : x₂.1.store = x₁.1.store := by rw [hx]
        have hcursor : x₂.1.store.readCursor network = fromBlock - 1 := by
          rw [hstore, hR.store, h]
        refine ⟨hI.of_store hstore, fun _ _ => hcursor, hcursor, fun logs hlogs => ?_⟩
        cases r with
        | error e => simp [Except.mapError] at hlogs
        | ok logs' =>
            obtain rfl : logs' = logs := by simpa [Except.mapError] using hlogs
            exact ⟨hpassed, not_lt.mp hrange, _, _, hr⟩
  · exact wp_mono (fun _ _ hs => by rw [hs.store, h]) (prices_calm (c := .sleep nanos) trivial)

variable {factory : EvmAddress}

theorem prices_runChunk (hdelivers : DeliversInOrder rpc emitted)
    (h : x.1.store.readCursor network = fromBlock - 1) :
    KeepsPrices abi network emitted rpc (runChunk abi fromBlock toBlock factory)
      (fun r x' => r = .ok () →
        x'.1.store.readCursor network = fromBlock - 1 ∧ fromBlock ≤ toBlock) x := by
  refine wp_scriptE_bind (wp_mono (fun r x₁ hr => ?_) (prices_logs h))
  rcases r with e | factoryLogs
  · exact fun h => by simp at h
  · obtain ⟨hcursor₁, hbegun⟩ := hr
    obtain ⟨hnobody, hrange, -⟩ := hbegun _ rfl
    refine wp_scriptE_bind (wp_mono (fun r x₂ h₂ => ?_) (prices_passOne ⟨hcursor₁, hnobody⟩))
    cases r with
    | error e => exact fun h => by simp at h
    | ok u =>
        refine wp_scriptE_bind (wp_mono (fun r x₃ hr => ?_) (prices_logs h₂.cursor))
        rcases r with e | curveLogs
        · exact fun h => by simp at h
        · obtain ⟨hcursor₃, hbegun⟩ := hr
          obtain ⟨hnobody, -, chain, chain', hanswer⟩ := hbegun _ rfl
          have hmidway : Midway abi network fromBlock [] x₃ :=
            ⟨hcursor₃, by simp, by simp [hnobody]⟩
          have hlogs : Delivery emitted fromBlock toBlock ([] ++ curveLogs) := hdelivers hanswer
          exact wp_mono (fun r x' h hr => ⟨h hr, hrange⟩) (prices_passTwo hmidway hlogs)

/-! ### The loop -/

theorem prices_idle (nanos : Nat) :
    KeepsPrices abi network emitted rpc (idle nanos) (fun _ _ => True) x := by
  refine wp_liftAsk (wp_mono (fun cancelled x₁ _ => ?_)
    (prices_calm (c := .sleepOrCancel nanos) trivial))
  cases cancelled with
  | true => exact trivial
  | false => exact trivial

/-- The worker reads the cursor of the store, and the tip moves nothing. -/
theorem prices_readCursor :
    KeepsPrices abi network emitted rpc (readCoinblastCursor network)
      (fun r x' => ∀ cursor, r = .ok cursor → x'.1.store.readCursor network = cursor) x := by
  refine wp_scriptE_bind (prices_ask fun x₁ r x₂ hR hI hH => ?_)
  have hs := still_of_calm (c := .readCursor) trivial hH
  obtain ⟨⟨⟨⟨-, hr⟩, -⟩, -⟩, -⟩ := hH
  refine ⟨hI.of_store hs.store, ?_⟩
  cases r with
  | error e => exact fun cursor h => by simp at h
  | ok stored =>
      intro cursor hcursor
      obtain rfl : stored = x₁.1.store.cursor := by simpa using hr
      rw [hs.store]
      exact Except.ok.inj hcursor

/-- **The cursor moves up**, so less is asked of the deals. -/
theorem prices_setCursor {height : Int} (h : x.1.store.readCursor network ≤ height) :
    KeepsPrices abi network emitted rpc (cbTransact (.setCursor height)) (fun _ _ => True) x := by
  refine prices_ask fun x₁ r x₂ hR hI hH => ?_
  obtain ⟨⟨⟨hH, -⟩, -⟩, -⟩ := hH
  rcases hH with ⟨a, s, hrun, -, hx⟩ | ⟨-, hx⟩
  · have hup : x₁.1.store.readCursor network ≤ s.readCursor network := by
      rw [hR.store]
      refine h.trans ?_
      rw [CbStore.readCursor, cursor_setCursor hrun]
      exact le_max_left _ _
    obtain ⟨-, rfl⟩ := Prod.mk.inj (Except.ok.inj hrun)
    refine ⟨⟨?_, ?_⟩, trivial⟩
    · rw [hx]
      intro d hd hkind l t hl ht hcurve hcursor hlt
      exact hI.gapless d hd hkind l t hl ht hcurve (hup.trans_lt hcursor) hlt
    · rw [hx]
      exact hI.priced
  · exact ⟨hI.of_store (by rw [hx]), trivial⟩

theorem prices_workerPass (hdelivers : DeliversInOrder rpc emitted) :
    KeepsPrices abi cfg.network emitted rpc (workerPass abi cfg) (fun _ _ => True) x := by
  unfold workerPass
  refine wp_liftAsk (wp_mono (fun cancelled x₁ _ => ?_) (prices_calm (c := .isCancelled) trivial))
  cases cancelled with
  | true => exact trivial
  | false =>
      refine wp_scriptE_bind (wp_mono (fun r x₂ hr => ?_) prices_readCursor)
      rcases r with e | cursor
      · exact trivial
      · have hcursor := hr cursor rfl
        have htip : KeepsPrices abi cfg.network emitted rpc
            (cbRetry (CbCall.chain .blockNumber).ask)
            (fun _ x' => x'.1.store.readCursor cfg.network = cursor) x₂ :=
          wp_cbRetry_each (J := fun x => x.1.store.readCursor cfg.network = cursor)
            (fun x h => wp_mono (fun _ _ hs => ⟨fun _ _ => by rw [hs.store, h], by rw [hs.store, h]⟩)
              (prices_calm (c := .chain .blockNumber) trivial))
            (fun nanos x h => wp_mono (fun _ _ hs => by rw [hs.store, h])
              (prices_calm (c := .sleep nanos) trivial)) hcursor
        refine wp_scriptE_bind (wp_mono (fun r x₃ h₃ => ?_) htip)
        rcases r with e | tip
        · exact trivial
        · by_cases hidle : saturatingSub tip (asI64 cfg.safeLag) ≤ cursor
          · simp only [hidle, if_true]
            exact prices_idle _
          · simp only [hidle, if_false]
            refine wp_liftRun (wp_mono (fun result x₄ h₄ => ?_)
              (prices_runChunk hdelivers (by rw [h₃]; omega)))
            cases result with
            | error e => exact prices_idle _
            | ok u =>
                obtain ⟨hcursor₄, hrange⟩ := h₄ rfl
                refine wp_scriptE_bind (wp_mono (fun r x₅ _ => ?_) (prices_setCursor ?_))
                · cases r with
                  | ok u => exact prices_idle _
                  | error e => exact trivial
                · rw [hcursor₄]
                  omega

theorem prices_hydrateKnownCurves :
    KeepsPrices abi network emitted rpc hydrateKnownCurves (fun _ _ => True) x := by
  refine wp_scriptE_bind (wp_mono (fun r x₁ _ => ?_)
    (prices_calm (c := .knownCurveAddresses) trivial))
  cases r with
  | error e => exact trivial
  | ok curves =>
      refine wp_script_bind (prices_ask fun x₂ r x₃ hR hI hH => ?_)
      obtain ⟨⟨⟨hH, -⟩, -⟩, -⟩ := hH
      have hx : x₃.1 = _ := hH
      exact ⟨hI.of_store (by rw [hx]), trivial⟩

theorem prices_runCoinblastWorker (hdelivers : DeliversInOrder rpc emitted) :
    wp (steadfastHandle rpc) (PricesKept abi cfg.network emitted) Still (fun _ _ => True)
      (runCoinblastWorker abi cfg).run (fun _ _ => True) x := by
  refine wp_bindE (wp_mono (fun r x₁ _ => ?_) prices_hydrateKnownCurves)
  cases r with
  | error e => exact trivial
  | ok u =>
      refine wp_iterateE (fun _ _ => True) (fun _ _ _ _ _ _ => trivial) trivial fun _ x₂ _ _ => ?_
      refine wp_mono (fun r _ _ => ?_) (prices_workerPass hdelivers)
      rcases r with e | _ | _ <;> exact trivial

/-! ### Every reachable state -/

theorem pricesKept_empty (chain : χ) : PricesKept abi network emitted (.init chain .empty, []) where
  gapless d hd := absurd hd (by simp [CbWorld.init, CbStore.empty])
  priced r hr := absurd hr (by simp [CbWorld.init, CbStore.empty])

theorem steadfast_verified (hdelivers : DeliversInOrder rpc emitted) (chain : χ) :
    VerifiedSingle ((steadfast abi cfg rpc moves).answering fun x _ _ _ => Accounts x.1.store)
      (.init chain .empty, []) (PricesKept abi cfg.network emitted) Still (fun _ _ => True) where
  rely_refl := Still.refl
  rely_trans _ _ _ := Still.trans
  init := pricesKept_empty chain
  spawn i p x hs _ := by
    obtain rfl : p = _ := hs
    exact prices_runCoinblastWorker hdelivers
  post _ _ _ _ _ _ := trivial
  env x x' hI he := by
    obtain ⟨henv, hpassed⟩ := he
    have hstill : x'.1.store = x.1.store ∧ x'.1.knownCurves = x.1.knownCurves := by
      generalize x'.1 = w' at henv
      cases henv with
      | chain h => exact ⟨rfl, rfl⟩
      | cancel => exact ⟨rfl, rfl⟩
    exact ⟨hI.of_store hstill.1, hstill.1, hstill.2, hpassed⟩
  crash x x' hI hc := by
    refine hI.of_store ?_
    rw [show x'.1 = x.1.restart from hc.1]
    rfl

/--
**The last price is that of the latest trade** in every state of every run in which no emitter
is let in that has been passed over in the same attempt at a chunk: over failed chunks, later
probes, evictions and crashes.
-/
theorem last_price_is_latest (hfilter : HonoursFilter rpc)
    (hsilent : FactorySilent abi (coinblastFactoryAddress cfg.network) rpc)
    (hdelivers : DeliversInOrder rpc emitted) {chain : χ}
    {c : Config CbSig Unit (Noted χ) (Except CbError Unit)}
    (hc : Reachable (((coinblast abi cfg rpc moves).observe passOver []).answering
      fun x c _ _ => LetsInNew x c) (.init chain .empty, []) c) :
    ∀ r ∈ c.world.1.store.tokens.rows, LatestPriced c.world.1.store r := by
  have haccounts : ∀ c, Reachable (steadfast abi cfg rpc moves) (.init chain .empty, []) c →
      Accounts c.world.1.store := fun c hc =>
    ((coinblast_verified hfilter hsilent chain).reachable hc.of_answering.unobserved).1.accounts
  have hkept := ((steadfast_verified hdelivers chain).reachable
    (Reachable.assuming (P := fun x => Accounts x.1.store) haccounts hc)).1
  exact hkept.priced

/-! ### Nodes of a fixed chain -/

/-- A chain whose logs are in order is delivered in order. -/
theorem CbChain.deliversInOrder {n : CbChain} (h : n.logs.Pairwise fun l l' =>
    ∀ p ∈ l.position?, ∀ p' ∈ l'.position?, p ≤ p') : DeliversInOrder n.rpc (· ∈ n.logs) := by
  intro outages fromBlock toBlock logs outages' hanswer
  obtain rfl := CbChain.getLogs_ok hanswer
  refine ⟨fun l => ?_, h.filter _⟩
  rw [List.mem_filter, Option.all_none, Bool.and_true, CbChain.inRange_iff]

instance (x : Noted χ) (c : CbCall) : Decidable (LetsInNew x c) :=
  match c with
  | .insertKnown a => inferInstanceAs (Decidable (a ∉ x.2))
  | .chain _ | .sleep _ | .isCancelled | .sleepOrCancel _ | .knownCurveAddresses | .readCursor
  | .transact _ | .initSets _ | .isKnown _ | .isNonCurve _ | .cacheNonCurve _ => .isTrue trivial

/-- The single answer to each call, noted. -/
def notedServe (respond : Server CbChainSig χ) : Server CbSig (Noted χ) := fun x c =>
  ((cbServe respond x.1 c).1,
    ((cbServe respond x.1 c).2, passOver x.2 c (cbServe respond x.1 c).1))

/-- The worker over one curve with one buy. -/
def notedBuy : Option (Noted Outages × Prog CbSig (Except CbError Unit)) :=
  advanceWhile (fun x c => LetsInNew x c) (notedServe oneBuy.respond) 20
    ((.init [] .empty, []), mainnetWorker)

/-- The curve has the price of its buy. -/
theorem last_price_is_latest_oneBuy :
    ∃ c, Reachable (((coinblast wordAbi mainnetConfig oneBuy.rpc fun _ _ => False).observe
        passOver []).answering fun x c _ _ => LetsInNew x c) (.init [] .empty, []) c ∧
      c.world.1.record.phase = .between ∧
      ∃ r ∈ c.world.1.store.tokens.rows, r.lastPriceSrx = 5 ∧ LatestPriced c.world.1.store r := by
  have hend : (notedBuy.any fun x => x.1.1.record.phase = .between ∧
      x.1.1.store.tokens.rows.any fun r => r.lastPriceSrx = 5) = true := by decide +kernel
  rcases hsteps : notedBuy with _ | ⟨x, p⟩
  · rw [hsteps] at hend
    exact absurd hend (by simp)
  · rw [hsteps] at hend
    obtain ⟨hphase, hprice⟩ := of_decide_eq_true hend
    obtain ⟨r, hr, hprice⟩ := List.any_eq_true.mp hprice
    have hstart : Reachable (((coinblast wordAbi mainnetConfig oneBuy.rpc
        fun _ _ => False).observe passOver []).answering fun x c _ _ => LetsInNew x c)
        (.init [] .empty, []) _ :=
      (Reachable.init).move (Move.start () mainnetWorker rfl rfl)
    have hreach := hstart.steps (i := ()) (by simp) (advanceWhile_steps (fun x c hok =>
      ⟨⟨cbHandle_cbServe oneBuy.answers x.1 c, rfl⟩, of_decide_eq_true hok⟩) 20 hsteps)
    exact ⟨_, hreach, hphase, r, hr, of_decide_eq_true hprice,
      last_price_is_latest (fun _ _ _ _ _ _ h => oneBuy.honoursFilter h) oneBuy_silent
        (CbChain.deliversInOrder (by simp [oneBuy])) hreach r hr⟩

end SentrixIndexer
