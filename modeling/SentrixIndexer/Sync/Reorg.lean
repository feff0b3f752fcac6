/-
Reorg detection and rewind.

A pass probes one height some blocks below the cursor.  When the hash the chain
serves there is not the stored one it walks down, block by block, to the lowest
height at which the two still differ, deletes every block from there on and resets
the cursor.
-/
import SentrixIndexer.Sync.Backfill

namespace SentrixIndexer

open Effect

def getByHeightCall (h : Int) : SyncScript (Option Block) :=
  ExceptT.mk (SyncCall.getByHeight h).ask

/-- `provider.block_with_txs(h).await?`, without retries. -/
def remoteBlock (h : Int) : SyncScript (Option RpcBlock) :=
  ExceptT.mk do
    match ← ChainProvider.blockWithTxs h with
    | .ok b => return .ok b
    | .error e => return .error (.chain e)

/-- The hash of a remote block, spelled like a stored one. -/
def RpcBlock.hashText (b : RpcBlock) : Hash := hex0x b.hash.toList

/-- `walk_back_to_divergence`, from a height that is known to differ. -/
def walkBackToDivergence : Nat → SyncScript Int
  | 0 => return 0
  | parent + 1 => do
      let stored ← getByHeightCall parent
      let remote ← remoteBlock parent
      match stored, remote with
      | some l, some r =>
          if r.hashText = l.hash then return (parent + 1 : Int)
          else walkBackToDivergence parent
      -- A gap below the height, or a remote shorter than the store.
      | none, _ => return (parent + 1 : Int)
      | _, none => return (parent + 1 : Int)

/-- `rewind_to`. -/
def rewindTo (h : Int) : SyncScript Unit := transact (.rewindTo h)

/-- The height `check_once` probes. -/
def probeHeight (cfg : SyncConfig) (cursor : Int) : Int :=
  max (saturatingSub cursor (asI64 cfg.reorgProbeDepth)) 0

/-- `check_once`: the cursor after the pass. -/
def checkOnce (cfg : SyncConfig) (cursor : Int) : SyncScript Int := do
  if cursor < 0 then return cursor
  let probe := probeHeight cfg cursor
  let some stored ← getByHeightCall probe | return cursor
  let some remote ← remoteBlock probe | return cursor
  if remote.hashText = stored.hash then return cursor
  let divergence ← walkBackToDivergence probe.toNat
  rewindTo divergence
  return saturatingSub divergence 1

end SentrixIndexer
