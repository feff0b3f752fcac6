/-
What the CoinBlast worker talks to.

The worker calls the chain client and the database, and it keeps two sets of addresses in
memory.  The sets are part of the state here, so that an invariant can relate them to the
tables; a restart loses them.  Each trade is one transaction: the insert and the update of
its aggregates commit together or not at all.  The database may refuse a statement for
reasons of its own, and it may lose the reply to one that took effect.

The state keeps a record of how far the worker has come in its chunk.
-/
import SentrixIndexer.Coinblast.Db
import SentrixIndexer.Effect.Tasks

namespace SentrixIndexer

open Effect

inductive CbError
  | chain (e : ChainError)
  | db (e : CbDbError)
  | sqlx (e : CbDbError)
  | decode (msg : String)
  | invalid (msg : String)
  deriving DecidableEq, Repr

/-! ### Calls -/

/-- Calls to the chain client. -/
inductive CbChainCall
  | blockNumber
  | getLogs (fromBlock toBlock : Int) (address : Option EvmAddress)
  | ethCall (target : EvmAddress) (view : ViewFn)
  deriving DecidableEq

@[reducible] def CbChainCall.Answer : CbChainCall → Type
  | .blockNumber => Except ChainError Int
  | .getLogs _ _ _ => Except ChainError (List RpcLog)
  | .ethCall _ _ => Except ChainError (List UInt8)

abbrev CbChainSig : Signature := ⟨CbChainCall, CbChainCall.Answer⟩

/-- What the worker sends to the database as one transaction. -/
inductive CbTxn
  | insertToken (t : InsertCbToken)
  /-- `write_trade`. -/
  | writeTrade (t : CbTrade) (srxAmount lastPrice : Wei)
  /-- The transaction of `apply_graduated`. -/
  | writeGraduated (t : CbTrade)
  | setCursor (height : Int)
  deriving DecidableEq

@[reducible] def CbTxn.Result : CbTxn → Type
  | .insertToken _ => Unit
  | .writeTrade _ _ _ => Bool
  | .writeGraduated _ => Bool
  | .setCursor _ => Unit

/-- A trade and, if it is a new one, the update of its curve's row. -/
def insertThen (t : CbTrade) (update : CbStatement Unit) : CbStatement Bool := fun s => do
  let (inserted, s) ← CbTrades.insert t s
  if inserted then
    let (_, s) ← update s
    return (true, s)
  else return (false, s)

def CbTxn.run : (t : CbTxn) → CbStatement t.Result
  | .insertToken t => CbTokens.insert t
  | .writeTrade t srxAmount lastPrice =>
      insertThen t (CbTokens.bumpTradeAggregate t.curveAddress srxAmount lastPrice)
  | .writeGraduated t => insertThen t (CbTokens.markGraduated t.curveAddress)
  | .setCursor height => SentrixIndexer.setCursor height

/-- Calls of the worker. -/
inductive CbCall
  | chain (c : CbChainCall)
  | sleep (nanos : Nat)
  | isCancelled
  /-- `select!` between the cancellation and a sleep; whether the cancellation won. -/
  | sleepOrCancel (nanos : Nat)
  | knownCurveAddresses
  | readCursor
  | transact (t : CbTxn)
  /-- The two sets, as the worker makes them when it boots. -/
  | initSets (curves : List Address)
  | isKnown (a : Address)
  | insertKnown (a : Address)
  | isNonCurve (a : Address)
  | cacheNonCurve (a : Address)

@[reducible] def CbCall.Answer : CbCall → Type
  | .chain c => c.Answer
  | .sleep _ => Unit
  | .isCancelled => Bool
  | .sleepOrCancel _ => Bool
  | .knownCurveAddresses => Except CbError (List Address)
  | .readCursor => Except CbError (Option Int)
  | .transact t => Except CbError t.Result
  | .initSets _ => Unit
  | .isKnown _ => Bool
  | .insertKnown _ => Unit
  | .isNonCurve _ => Bool
  | .cacheNonCurve _ => Unit

abbrev CbSig : Signature := ⟨CbCall, CbCall.Answer⟩

/-- Straight-line worker code that may fail. -/
abbrev CbScript := ExceptT CbError (Script CbSig)

/-- Worker code with loops that may fail. -/
abbrev CbProg := ExceptT CbError (Prog CbSig)

/-- The answer to a call. -/
def CbCall.ask (c : CbCall) : Script CbSig c.Answer := .call c .pure

/-! ### The state -/

variable {χ : Type}

/-- How the nodes may answer, as the chain moves. -/
abbrev CbRpc (χ : Type) := Handler CbChainSig χ

/-- How far the worker has come since its process started. -/
inductive ChunkPhase
  /-- The sets are not made yet. -/
  | booting
  /-- No chunk has been begun since the sets were made or the last one succeeded. -/
  | between
  | passOne
  | passTwo
  deriving DecidableEq, Repr

/-- What the worker has done. -/
structure CbRecord where
  phase : ChunkPhase
  /-- The curves inserted in pass 1 of the chunk. -/
  created : List Address
  /-- How often in a row the tip has been asked for in vain. -/
  tipFailures : Nat

structure CbWorld (χ : Type) where
  chain : χ
  store : CbStore
  knownCurves : List Address
  knownNonCurves : List Address
  cancelled : Bool
  /-- No program reads it. -/
  record : CbRecord

def CbWorld.init (chain : χ) (store : CbStore) : CbWorld χ :=
  ⟨chain, store, [], [], false, ⟨.booting, [], 0⟩⟩

/-- What a crash and a restart leave: the store, and a fresh process. -/
def CbWorld.restart (w : CbWorld χ) : CbWorld χ := .init w.chain w.store

/-- `KNOWN_NON_CURVES_MAX`. -/
def knownNonCurvesMax : Nat := 10000

/-- The set with one more address. -/
def insertAddress (set : List Address) (a : Address) : List Address :=
  if a ∈ set then set else a :: set

theorem mem_insertAddress {set : List Address} {a b : Address} :
    b ∈ insertAddress set a ↔ b ∈ set ∨ b = a := by
  unfold insertAddress
  by_cases ha : a ∈ set
  · rw [if_pos ha]
    exact ⟨Or.inl, fun h => h.elim id fun hb => hb ▸ ha⟩
  · rw [if_neg ha, List.mem_cons, or_comm]

/-- `cache_non_curve`: over the cap some entry is dropped first. -/
def CachedNonCurve (set : List Address) (a : Address) (set' : List Address) : Prop :=
  if knownNonCurvesMax ≤ set.length then
    ∃ victim ∈ set, set' = insertAddress (set.erase victim) a
  else set' = insertAddress set a

namespace CbRecord

/-- The record after an answer of the nodes. -/
def noteChain (n : CbRecord) : (c : CbChainCall) → c.Answer → CbRecord
  | .blockNumber, .ok _ => { n with tipFailures := 0 }
  | .blockNumber, .error _ => { n with tipFailures := n.tipFailures + 1 }
  | .getLogs _ _ (some _), _ => { n with phase := .passOne, created := [] }
  | .getLogs _ _ none, _ => { n with phase := .passTwo }
  | .ethCall _ _, _ => n

/-- The record after a transaction has been answered. -/
def noteTxn (n : CbRecord) : (t : CbTxn) → Except CbError t.Result → CbRecord
  | .insertToken t, .ok _ =>
      if n.phase = .passOne then { n with created := t.curveAddress :: n.created } else n
  | .setCursor _, .ok _ => { n with phase := .between }
  | _, _ => n

end CbRecord

/-- How the surroundings answer the worker. -/
def cbHandle (rpc : CbRpc χ) : Handler CbSig (CbWorld χ)
  | w, .chain c, r, w' => ∃ chain', rpc w.chain c r chain' ∧
      w' = { w with chain := chain', record := w.record.noteChain c r }
  | w, .sleep _, _, w' => w' = w
  | w, .isCancelled, r, w' => r = w.cancelled ∧ w' = w
  | w, .sleepOrCancel _, r, w' => (r = true → w.cancelled = true) ∧ w' = w
  | w, .knownCurveAddresses, r, w' =>
      w' = w ∧ (r = .ok (CbTokens.knownCurveAddresses w.store) ∨ ∃ e, r = .error e)
  | w, .readCursor, r, w' => w' = w ∧ (r = .ok w.store.cursor ∨ ∃ e, r = .error e)
  | w, .transact t, r, w' =>
      (∃ a s, t.run w.store = .ok (a, s) ∧ (r = .ok a ∨ ∃ e, r = .error e) ∧
        w' = { w with store := s, record := w.record.noteTxn t r }) ∨
      ((∃ e, r = .error e) ∧ w' = w)
  | w, .initSets curves, _, w' =>
      w' = { w with
        knownCurves := curves
        knownNonCurves := []
        record := { w.record with phase := .between, created := [] } }
  | w, .isKnown a, r, w' => r = decide (a ∈ w.knownCurves) ∧ w' = w
  | w, .insertKnown a, _, w' => w' = { w with knownCurves := insertAddress w.knownCurves a }
  | w, .isNonCurve a, r, w' => r = decide (a ∈ w.knownNonCurves) ∧ w' = w
  | w, .cacheNonCurve a, _, w' => ∃ set, CachedNonCurve w.knownNonCurves a set ∧
      w' = { w with knownNonCurves := set }

/-! ### What an answer does to the world -/

/-- The ways the world goes on from a call, whatever the answer. -/
inductive CbWorldStep (rpc : CbRpc χ) (w : CbWorld χ) : CbCall → CbWorld χ → Prop
  | stay (c : CbCall) : CbWorldStep rpc w c w
  | chain {c : CbChainCall} {r : c.Answer} {chain' : χ} (h : rpc w.chain c r chain') :
      CbWorldStep rpc w (.chain c) { w with chain := chain', record := w.record.noteChain c r }
  | transact {t : CbTxn} {a : t.Result} {s : CbStore} (h : t.run w.store = .ok (a, s))
      (r : Except CbError t.Result) :
      CbWorldStep rpc w (.transact t) { w with store := s, record := w.record.noteTxn t r }
  | initSets (curves : List Address) :
      CbWorldStep rpc w (.initSets curves)
        { w with
          knownCurves := curves
          knownNonCurves := []
          record := { w.record with phase := .between, created := [] } }
  | insertKnown (a : Address) :
      CbWorldStep rpc w (.insertKnown a) { w with knownCurves := insertAddress w.knownCurves a }
  | cacheNonCurve {a : Address} {set : List Address} (h : CachedNonCurve w.knownNonCurves a set) :
      CbWorldStep rpc w (.cacheNonCurve a) { w with knownNonCurves := set }

theorem cbHandle_step {rpc : CbRpc χ} {w w' : CbWorld χ} {c : CbCall} {r : c.Answer}
    (h : cbHandle rpc w c r w') : CbWorldStep rpc w c w' := by
  cases c with
  | chain c =>
      obtain ⟨chain', hrpc, rfl⟩ := h
      exact .chain hrpc
  | transact t =>
      rcases h with ⟨a, s, hrun, -, rfl⟩ | ⟨-, rfl⟩
      · exact .transact hrun r
      · exact .stay _
  | initSets curves =>
      obtain rfl : w' = _ := h
      exact .initSets curves
  | insertKnown a =>
      obtain rfl : w' = _ := h
      exact .insertKnown a
  | cacheNonCurve a =>
      obtain ⟨set, hset, rfl⟩ := h
      exact .cacheNonCurve hset
  | sleep nanos =>
      obtain rfl : w' = w := h
      exact .stay _
  | isCancelled =>
      obtain ⟨-, rfl⟩ := h
      exact .stay _
  | sleepOrCancel nanos =>
      obtain ⟨-, rfl⟩ := h
      exact .stay _
  | knownCurveAddresses =>
      obtain ⟨rfl, -⟩ := h
      exact .stay _
  | readCursor =>
      obtain ⟨rfl, -⟩ := h
      exact .stay _
  | isKnown a =>
      obtain ⟨-, rfl⟩ := h
      exact .stay _
  | isNonCurve a =>
      obtain ⟨-, rfl⟩ := h
      exact .stay _

end SentrixIndexer
