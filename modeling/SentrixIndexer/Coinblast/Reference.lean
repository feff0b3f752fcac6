/-
The CoinBlast worker without failures.

A `History` is what a run of the worker finds and cannot change: the tip at each position of
the cursor, the logs, what each view returns, and what a full cache keeps.  A `Replica` is the
state the worker works on, and `Replica.pass` is one pass of its loop as a function: what the
pass comes to when no call to the nodes fails.  A transaction that is refused for its content
still ends the chunk, as it does in the worker.
-/
import SentrixIndexer.Coinblast.Nodes

namespace SentrixIndexer

/-- What a run finds and cannot change. -/
structure History where
  tipAt : Option Int → Int
  logs : List RpcLog
  views : EvmAddress → ViewFn → Except ChainError (List UInt8)
  /-- The entries a full cache keeps before one more is put in. -/
  keep : List Address → List Address

namespace History

/-- The log is one of the blocks of the range. -/
def InRange (fromBlock toBlock : Int) (l : RpcLog) : Prop :=
  ∃ n, l.blockNumber = some n ∧ fromBlock ≤ n.toNat ∧ (n.toNat : Int) ≤ toBlock

instance (fromBlock toBlock : Int) (l : RpcLog) : Decidable (InRange fromBlock toBlock l) :=
  match h : l.blockNumber with
  | none => .isFalse (by simp [InRange, h])
  | some n => decidable_of_iff (fromBlock ≤ n.toNat ∧ (n.toNat : Int) ≤ toBlock)
      (by simp [InRange, h])

/-- The logs of a range. -/
def logsIn (n : History) (fromBlock toBlock : Int) (address : Option EvmAddress) : List RpcLog :=
  n.logs.filter fun l => InRange fromBlock toBlock l && address.all fun a => l.address = a

/-- The name or the symbol of a token, or the text that stands for it. -/
def text (n : History) (abi : Abi) (target : EvmAddress) (view : ViewFn) (text : String) : String :=
  (viewResult abi.decodeName (n.views target view)).toOption.getD text

/-- The three views of a curve, if all of them answer. -/
def curveViews (n : History) (abi : Abi) (candidate : EvmAddress) :
    Option (EvmAddress × Wei × Wei) := do
  let token ← (viewResult abi.decodeToken (n.views candidate .token)).toOption
  let curveSupply ← (viewResult decodeUint256 (n.views candidate .curveSupply)).toOption
  let threshold ← (viewResult decodeUint256 (n.views candidate .graduationSrxThreshold)).toOption
  return (token, curveSupply, threshold)

/-- The row an emitter is adopted with. -/
def offer (n : History) (abi : Abi) (candidate : EvmAddress) (createdBlock : Int)
    (createdTxHash : Hash) : Option InsertCbToken := do
  let (token, curveSupply, threshold) ← n.curveViews abi candidate
  return {
    curveAddress := hexAddr candidate
    tokenAddress := hexAddr token
    ownerAddress := zeroAddr
    name := n.text abi token .name "Unknown"
    symbol := n.text abi token .symbol "???"
    curveSupply := curveSupply
    graduationThreshold := threshold
    createdBlock := createdBlock
    createdTxHash := createdTxHash }

end History

/-- The cursor as the worker reads it: never below the block before the deployment. -/
def CbStore.readCursor (network : Network) (s : CbStore) : Int :=
  let floor := coinblastDeployBlock network - 1
  max (s.cursor.getD floor) floor

/-- What the worker works on. -/
structure Replica where
  store : CbStore
  knownCurves : List Address
  knownNonCurves : List Address

namespace Replica

/-- The worker starts over a store. -/
def boot (s : CbStore) : Replica := ⟨s, (CbTokens.knownCurveAddresses s).map lowercase, []⟩

/-- One transaction, and whether it went through. -/
def transact (ρ : Replica) (t : CbTxn) : Replica × Bool :=
  match t.run ρ.store with
  | .ok (_, s) => ({ ρ with store := s }, true)
  | .error _ => (ρ, false)

def insertKnown (ρ : Replica) (a : Address) : Replica :=
  { ρ with knownCurves := insertAddress ρ.knownCurves a }

def turnAway (n : History) (ρ : Replica) (a : Address) : Replica :=
  { ρ with knownNonCurves := insertAddress (n.keep ρ.knownNonCurves) a }

/-- One log of pass 1, and whether it went through. -/
def create (abi : Abi) (ρ : Replica) (l : RpcLog) : Replica × Bool :=
  if l.topics.head? = some abi.curveCreatedHash then
    match curveCreatedRow abi l with
    | .error _ => (ρ, false)
    | .ok row =>
        match ρ.transact (.insertToken row) with
        | (ρ', true) => (ρ'.insertKnown (hexAddr l.address), true)
        | (ρ', false) => (ρ', false)
  else (ρ, true)

/-- Probe an unknown emitter. -/
def adopt (abi : Abi) (n : History) (ρ : Replica) (l : RpcLog) : Replica × Bool :=
  match n.offer abi l.address (asI64 (l.blockNumber.getD 0))
      ((l.transactionHash.map fun h => hex0x h.toList).getD "") with
  | none => (ρ, false)
  | some row => ρ.transact (.insertToken row)

/-- Vet the emitter of a curve event, and whether it is let in. -/
def vet (abi : Abi) (n : History) (ρ : Replica) (l : RpcLog) : Replica × Bool :=
  let emitter := hexAddr l.address
  if emitter ∈ ρ.knownCurves then (ρ, true)
  else if emitter ∈ ρ.knownNonCurves then (ρ, false)
  else
    match ρ.adopt abi n l with
    | (ρ', true) => (ρ'.insertKnown emitter, true)
    | (ρ', false) => (ρ'.turnAway n emitter, false)

/-- One log of pass 2, and whether it went through. -/
def take (abi : Abi) (n : History) (ρ : Replica) (l : RpcLog) : Replica × Bool :=
  match l.topics.head? with
  | none => (ρ, true)
  | some t0 =>
      if abi.IsCurveTopic t0 then
        match ρ.vet abi n l with
        | (ρ', false) => (ρ', true)
        | (ρ', true) =>
            match curveTxn abi t0 l with
            | .error _ => (ρ', false)
            | .ok t => ρ'.transact t
      else (ρ, true)

/-- Log after log, until one does not go through. -/
def walk (step : Replica → RpcLog → Replica × Bool) : Replica → List RpcLog → Replica × Bool
  | ρ, [] => (ρ, true)
  | ρ, l :: rest =>
      match step ρ l with
      | (ρ', true) => walk step ρ' rest
      | (ρ', false) => (ρ', false)

/-- A chunk, and whether it went through. -/
def chunk (abi : Abi) (n : History) (factory : EvmAddress) (ρ : Replica) (fromBlock toBlock : Int) :
    Replica × Bool :=
  if toBlock < fromBlock then (ρ, false)
  else match ρ.walk (create abi) (n.logsIn fromBlock toBlock (some factory)) with
  | (ρ', true) => ρ'.walk (take abi n) (n.logsIn fromBlock toBlock none)
  | (ρ', false) => (ρ', false)

/-- The cursor as the worker reads it. -/
def cursor (cfg : WorkerConfig) (ρ : Replica) : Int := ρ.store.readCursor cfg.network

/-- The lagging tip. -/
def target (cfg : WorkerConfig) (n : History) (ρ : Replica) : Int :=
  saturatingSub (n.tipAt ρ.store.cursor) (asI64 cfg.safeLag)

/-- The last block of the next chunk. -/
def chunkEnd (cfg : WorkerConfig) (n : History) (ρ : Replica) : Int :=
  SentrixIndexer.chunkEnd cfg (ρ.cursor cfg) (ρ.target cfg n)

/-- One pass of the loop. -/
def pass (abi : Abi) (cfg : WorkerConfig) (n : History) (ρ : Replica) : Replica :=
  if ρ.target cfg n ≤ ρ.cursor cfg then ρ
  else
    match ρ.chunk abi n (coinblastFactoryAddress cfg.network) (ρ.cursor cfg + 1)
        (ρ.chunkEnd cfg n) with
    | (ρ', true) => (ρ'.transact (.setCursor (ρ.chunkEnd cfg n))).1
    | (ρ', false) => ρ'

/-- So many passes. -/
def passes (abi : Abi) (cfg : WorkerConfig) (n : History) (ρ : Replica) : Nat → Replica
  | 0 => ρ
  | k + 1 => (ρ.passes abi cfg n k).pass abi cfg n

end Replica

/-! ### Fixed chains -/

namespace CbChain

theorem inRange_iff {fromBlock toBlock : Int} {l : RpcLog} :
    inRange fromBlock toBlock l = true ↔ History.InRange fromBlock toBlock l := by
  unfold inRange History.InRange
  rcases l.blockNumber with _ | m
  · simp
  · simp

/-- The history of a fixed chain. -/
def history (n : CbChain) : History := ⟨fun _ => n.tip, n.logs, n.views, dropVictim⟩

end CbChain

end SentrixIndexer
