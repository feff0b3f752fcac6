/-
Nodes whose answers to the CoinBlast worker are fixed.

The chain is a list of logs and what each view returns.  The state of the nodes says which
of the calls to come fail; every other call is answered from the chain.  With them, and a
database that refuses a statement only for its content, every call of the worker has
exactly one answer, so the worker can be executed.
-/
import SentrixIndexer.Coinblast.Worker
import SentrixIndexer.Effect.Exec

namespace SentrixIndexer

open Effect

structure CbChain where
  tip : Int
  logs : List RpcLog
  views : EvmAddress → ViewFn → Except ChainError (List UInt8)

/-- Which of the calls to come fail. -/
abbrev Outages := List Bool

namespace CbChain

/-- The log is one of the blocks of the range. -/
def inRange (fromBlock toBlock : Int) (l : RpcLog) : Bool :=
  l.blockNumber.any fun n => fromBlock ≤ n.toNat && (n.toNat : Int) ≤ toBlock

/-- The answer to a call that does not fail. -/
def answer (n : CbChain) : (c : CbChainCall) → c.Answer
  | .blockNumber => .ok n.tip
  | .getLogs fromBlock toBlock address => .ok (n.logs.filter fun l =>
      inRange fromBlock toBlock l && address.all fun a => l.address = a)
  | .ethCall target view => n.views target view

/-- A transport error. -/
def outage : (c : CbChainCall) → c.Answer
  | .blockNumber => .error (.rpc "connection reset")
  | .getLogs _ _ _ => .error (.rpc "connection reset")
  | .ethCall _ _ => .error (.rpc "connection reset")

def respond (n : CbChain) : Server CbChainSig Outages := fun outages c =>
  (if outages.head? = some true then outage c else n.answer c, outages.tail)

def rpc (n : CbChain) : CbRpc Outages := n.respond.toHandler

end CbChain

variable {χ : Type}

/-- The entry a full cache drops: the one cached last. -/
def dropVictim (set : List Address) : List Address :=
  if knownNonCurvesMax ≤ set.length then set.tail else set

/-- The single answer to each call. -/
def cbServe (respond : Server CbChainSig χ) : Server CbSig (CbWorld χ)
  | w, .chain c =>
      let answer := respond w.chain c
      (answer.1, { w with chain := answer.2, record := w.record.noteChain c answer.1 })
  | w, .sleep _ => ((), w)
  | w, .isCancelled => (w.cancelled, w)
  | w, .sleepOrCancel _ => (w.cancelled, w)
  | w, .knownCurveAddresses => (.ok (CbTokens.knownCurveAddresses w.store), w)
  | w, .readCursor => (.ok w.store.cursor, w)
  | w, .transact t =>
      match t.run w.store with
      | .ok (a, s) => (.ok a, { w with store := s, record := w.record.noteTxn t (.ok a) })
      | .error e => (.error (.db e), w)
  | w, .initSets curves =>
      ((), { w with
        knownCurves := curves
        knownNonCurves := []
        record := { w.record with phase := .between, created := [] } })
  | w, .isKnown a => (decide (a ∈ w.knownCurves), w)
  | w, .insertKnown a => ((), { w with knownCurves := insertAddress w.knownCurves a })
  | w, .isNonCurve a => (decide (a ∈ w.knownNonCurves), w)
  | w, .cacheNonCurve a =>
      ((), { w with knownNonCurves := insertAddress (dropVictim w.knownNonCurves) a })

/-- The single answer is one of those the nodes may give. -/
def CbAnswers (rpc : CbRpc χ) (respond : Server CbChainSig χ) : Prop :=
  ∀ chain c, rpc chain c (respond chain c).1 (respond chain c).2

theorem cachedNonCurve_dropVictim (set : List Address) (a : Address) :
    CachedNonCurve set a (insertAddress (dropVictim set) a) := by
  unfold CachedNonCurve dropVictim
  by_cases hfull : knownNonCurvesMax ≤ set.length
  · rw [if_pos hfull, if_pos hfull]
    cases set with
    | nil => exact absurd hfull (by simp [knownNonCurvesMax])
    | cons victim rest =>
        refine ⟨victim, List.mem_cons_self .., ?_⟩
        rw [List.erase_cons_head]
        rfl
  · rw [if_neg hfull, if_neg hfull]

theorem cbHandle_cbServe {rpc : CbRpc χ} {respond : Server CbChainSig χ}
    (h : CbAnswers rpc respond) (w : CbWorld χ) (c : CbCall) :
    cbHandle rpc w c (cbServe respond w c).1 (cbServe respond w c).2 := by
  cases c with
  | chain c => exact ⟨_, h w.chain c, rfl⟩
  | sleep nanos => exact rfl
  | isCancelled => exact ⟨rfl, rfl⟩
  | sleepOrCancel nanos => exact ⟨id, rfl⟩
  | knownCurveAddresses => exact ⟨rfl, Or.inl rfl⟩
  | readCursor => exact ⟨rfl, Or.inl rfl⟩
  | transact t =>
      rcases ht : t.run w.store with e | ⟨a, s⟩
      · have hs : cbServe respond w (.transact t) = (.error (.db e), w) := by
          simp only [cbServe, ht]
        rw [hs]
        exact Or.inr ⟨⟨_, rfl⟩, rfl⟩
      · have hs : cbServe respond w (.transact t) =
            (.ok a, { w with store := s, record := w.record.noteTxn t (.ok a) }) := by
          simp only [cbServe, ht]
        rw [hs]
        exact Or.inl ⟨a, s, ht, Or.inl rfl, rfl⟩
  | initSets curves => exact rfl
  | isKnown a => exact ⟨rfl, rfl⟩
  | insertKnown a => exact rfl
  | isNonCurve a => exact ⟨rfl, rfl⟩
  | cacheNonCurve a => exact ⟨_, cachedNonCurve_dropVictim _ _, rfl⟩

theorem CbChain.answers (n : CbChain) : CbAnswers n.rpc n.respond := fun _ _ => rfl

/-! ### Small chains -/

/-- The word at an offset. -/
def wordAt (data : List UInt8) (offset : Nat) : List UInt8 := (data.drop offset).take 32

/-- The address in the low bytes of a word. -/
def addressOfWord (word : List UInt8) : Except String EvmAddress :=
  if h : (word.drop 12).length = 20 then .ok ⟨(word.drop 12).toArray, by simpa using h⟩
  else .error "type check failed"

/-- ASCII text: its length in a word, then its bytes. -/
def textAt (data : List UInt8) (offset : Nat) : Except String String :=
  let length := (ofBytesBE (wordAt data offset)).toNat
  let bytes := (data.drop (offset + 32)).take length
  if bytes.length = length then .ok (String.ofList (bytes.map fun b => Char.ofNat b.toNat))
  else .error "buffer overrun"

/-- The text a word points to. -/
def textOf (data : List UInt8) (offset : Nat) : Except String String :=
  textAt data (ofBytesBE (wordAt data offset)).toNat

/-- An event with one indexed address and three words. -/
def decodeWords {α : Type} (hash : B256) (event : EvmAddress → Wei → Wei → Wei → α)
    (topics : List B256) (data : List UInt8) : Except String α :=
  match topics with
  | [t0, a] =>
      if t0 ≠ hash then .error "invalid signature hash"
      else if data.length < 96 then .error "buffer overrun"
      else do
        let who ← addressOfWord a.toList
        return event who (ofBytesBE (wordAt data 0)) (ofBytesBE (wordAt data 32))
          (ofBytesBE (wordAt data 64))
  | _ => .error "topic list length mismatch"

/-- The topic of `CurveCreated(address,address,address,string,string,uint256,uint256)`. -/
def curveCreatedTopic : B256 := ⟨#[0x93, 0xea, 0xfa, 0x4c, 0xb4, 0x5c, 0xa6, 0x78, 0x1a, 0xce, 0xb3,
  0xa7, 0xa0, 0x6e, 0x4d, 0x00, 0x6a, 0x20, 0x71, 0x28, 0xb5, 0x60,
  0x4b, 0x3c, 0x3b, 0xd4, 0x9b, 0x4e, 0x81, 0x4a, 0x3f, 0x2b], rfl⟩

/-- The topic of `Buy(address,uint256,uint256,uint256)`. -/
def buyTopic : B256 := ⟨#[0xbe, 0xae, 0x04, 0x8c, 0x6d, 0x27, 0x0d, 0x94, 0x69, 0xf8, 0x6c,
  0xf6, 0xe8, 0xfe, 0xdd, 0xa3, 0xc6, 0x0a, 0xd7, 0x70, 0xf1, 0x6c,
  0x24, 0xc9, 0xfc, 0x13, 0x1c, 0x8e, 0x9a, 0x09, 0x10, 0x1d], rfl⟩

/-- The topic of `Sell(address,uint256,uint256,uint256)`. -/
def sellTopic : B256 := ⟨#[0x84, 0x6c, 0x37, 0xee, 0xf6, 0x31, 0xe0, 0x94, 0x36, 0x82, 0xd8,
  0x73, 0x52, 0xec, 0x11, 0x7c, 0x20, 0x00, 0x8e, 0xb7, 0xf4, 0x25,
  0xc9, 0xb8, 0x5a, 0xc0, 0x11, 0xa6, 0xd4, 0x77, 0x4c, 0xc0], rfl⟩

/-- The topic of `Graduated(address,uint256,uint256,uint256)`. -/
def graduatedTopic : B256 := ⟨#[0xcb, 0x64, 0xf2, 0x43, 0x60, 0x60, 0xc9, 0x57, 0x5d, 0xb2, 0x0c,
  0x5d, 0xcf, 0x9c, 0xdc, 0x11, 0x65, 0x70, 0x17, 0xee, 0x5b, 0x03,
  0x01, 0x94, 0x9f, 0x53, 0x1b, 0x3d, 0xd7, 0xda, 0x6b, 0x19], rfl⟩

/-- The ABI on words and ASCII text. -/
def wordAbi : Abi where
  curveCreatedHash := curveCreatedTopic
  buyHash := buyTopic
  sellHash := sellTopic
  graduatedHash := graduatedTopic
  decodeCurveCreated topics data :=
    match topics with
    | [_, curve, token, owner] =>
        if data.length < 128 then .error "buffer overrun"
        else do
          return {
            curve := ← addressOfWord curve.toList
            token := ← addressOfWord token.toList
            owner := ← addressOfWord owner.toList
            name := ← textOf data 0
            symbol := ← textOf data 32
            curveSupply := ofBytesBE (wordAt data 64)
            graduationSrxThreshold := ofBytesBE (wordAt data 96) }
    | _ => .error "topic list length mismatch"
  decodeBuy := decodeWords buyTopic fun buyer srxIn fee tokensOut => ⟨buyer, srxIn, fee, tokensOut⟩
  decodeSell := decodeWords sellTopic fun seller tokensIn fee srxOut =>
    ⟨seller, tokensIn, fee, srxOut⟩
  decodeGraduated := decodeWords graduatedTopic fun pair srxLiquidity tokenLiquidity lpBurned =>
    ⟨pair, srxLiquidity, tokenLiquidity, lpBurned⟩
  decodeToken raw := addressOfWord (wordAt raw 0)
  decodeName raw := textOf raw 0

/-- A word that holds a small number. -/
def word (n : UInt8) : List UInt8 := List.replicate 31 0 ++ [n]

/-- An address that is a small number. -/
def smallAddress (n : UInt8) : EvmAddress := ⟨(List.replicate 19 0 ++ [n]).toArray, rfl⟩

/-- A word that holds an address. -/
def topicOf (a : EvmAddress) : B256 := ⟨(List.replicate 12 0 ++ a.toList).toArray, by simp⟩

/-- A log of the first block after the deployment, in a transaction of its own. -/
def bareLog (emitter : EvmAddress) (topics : List B256) (data : List UInt8) (txHash : UInt8) :
    RpcLog where
  address := emitter
  topics := topics
  data := data
  blockNumber := some 1178667
  blockHash := none
  transactionHash := some ⟨(List.replicate 31 0 ++ [txHash]).toArray, rfl⟩
  logIndex := some 0

/-- A buy for `srx`. -/
def buyLog (curve : EvmAddress) (srx : List UInt8) (txHash : UInt8) : RpcLog :=
  bareLog curve [buyTopic, topicOf (smallAddress 9)] (srx ++ word 0 ++ word 1) txHash

/-- The creation of a curve with the given addresses, named `A`. -/
def curveCreatedLog (factory curve token : EvmAddress) (txHash : UInt8) : RpcLog :=
  bareLog factory [curveCreatedTopic, topicOf curve, topicOf token, topicOf (smallAddress 8)]
    (word 128 ++ word 192 ++ word 50 ++ word 7 ++
      (word 1 ++ 65 :: List.replicate 31 0) ++ (word 1 ++ 65 :: List.replicate 31 0)) txHash

/-- What the views of a curve return, and the metadata of its token. -/
def curveAnswers (curve token : EvmAddress) (target : EvmAddress) (view : ViewFn) :
    Except ChainError (List UInt8) :=
  match view with
  | .token => if target = curve then .ok (topicOf token).toList else .error (.rpc "reverted")
  | .curveSupply => if target = curve then .ok (word 50) else .error (.rpc "reverted")
  | .graduationSrxThreshold => if target = curve then .ok (word 7) else .error (.rpc "reverted")
  | _ => .error (.rpc "reverted")

/-- The worker on the main network, when its process starts. -/
def mainnetConfig : WorkerConfig := .forNetwork .mainnet

def mainnetWorker : Prog CbSig (Except CbError Unit) :=
  (runCoinblastWorker wordAbi mainnetConfig).run

/-- The worker after some steps from an empty database. -/
def mainnetSteps (respond : Server CbChainSig χ) (n : Nat) (chain : χ) :
    CbWorld χ × Prog CbSig (Except CbError Unit) :=
  advanceN (cbServe respond) n (.init chain .empty, mainnetWorker)

theorem mainnetSteps_reachable {respond : Server CbChainSig χ}
    {sys : System CbSig Unit (CbWorld χ) (Except CbError Unit)} (hspawn : sys.spawn () mainnetWorker)
    (hserve : ∀ w c, sys.handler () w c (cbServe respond w c).1 (cbServe respond w c).2)
    (n : Nat) (chain : χ) :
    Reachable sys (.init chain .empty)
      ⟨(mainnetSteps respond n chain).1, fun _ => some (mainnetSteps respond n chain).2⟩ := by
  have hstart : Reachable sys (.init chain .empty) _ :=
    (Reachable.init).move (Move.start () mainnetWorker rfl hspawn)
  have hsteps := hstart.steps (i := ()) (by simp)
    (advanceN_steps hserve n (.init chain .empty) mainnetWorker)
  have hprog : Function.update (Function.update (fun _ => none) () (some mainnetWorker)) ()
      (some (mainnetSteps respond n chain).2) = fun _ => some (mainnetSteps respond n chain).2 :=
    funext fun _ => rfl
  rw [← hprog]
  exact hsteps

/-- The worker over fixed nodes after some steps. -/
theorem mainnetSteps_coinblast (n : CbChain) (k : Nat) (outages : Outages) :
    Reachable (coinblast wordAbi mainnetConfig n.rpc fun _ _ => False) (.init outages .empty)
      ⟨(mainnetSteps n.respond k outages).1, fun _ => some (mainnetSteps n.respond k outages).2⟩ :=
  mainnetSteps_reachable rfl (cbHandle_cbServe n.answers) k outages

/-- One curve with one buy. -/
def curveA : EvmAddress := smallAddress 1
def tokenA : EvmAddress := smallAddress 2
def oneBuy : CbChain := ⟨1178700, [buyLog curveA (word 5) 1], curveAnswers curveA tokenA⟩

/-- A range query that does not fail returns the logs of the range and the address. -/
theorem CbChain.getLogs_ok {n : CbChain} {fromBlock toBlock : Int} {address : Option EvmAddress}
    {outages outages' : Outages} {logs : List RpcLog}
    (h : n.rpc outages (.getLogs fromBlock toBlock address) (.ok logs) outages') :
    logs = n.logs.filter fun l =>
      inRange fromBlock toBlock l && address.all fun a => l.address = a := by
  have hlogs := (Prod.mk.inj h).1
  split at hlogs
  · exact absurd hlogs (by simp [CbChain.outage])
  · exact Except.ok.inj hlogs

theorem CbChain.honoursFilter (n : CbChain) {fromBlock toBlock : Int} {a : EvmAddress}
    {outages outages' : Outages} {logs : List RpcLog}
    (h : n.rpc outages (.getLogs fromBlock toBlock (some a)) (.ok logs) outages') :
    ∀ l ∈ logs, l.address = a := by
  obtain rfl := CbChain.getLogs_ok h
  intro l hl
  have hpass := (List.mem_filter.mp hl).2
  simp only [Bool.and_eq_true, Option.all_some, decide_eq_true_eq] at hpass
  exact hpass.2

end SentrixIndexer
