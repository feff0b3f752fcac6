/-
A chain that reorganises while it is indexed.

All nodes serve one chain, and at any moment it may become another one: the two may
differ from any height on.  Writers and reorg checks run side by side over it.
-/
import SentrixIndexer.Relational.HashChain
import SentrixIndexer.Sync.Fleet
import SentrixIndexer.Sync.Reorg

namespace SentrixIndexer

open Effect

/-- The hash of a block response, spelled like a stored one. -/
def NativeBlockResponse.hashText (b : NativeBlockResponse) : Hash := with0x b.hash

def NativeBlockResponse.parentText (b : NativeBlockResponse) : Hash := with0x b.previousHash

/-- The chain at one moment. -/
structure Fork where
  tip : Int
  block : Int → NativeBlockResponse
  logs : Int → List RpcLog
  header : Int → RpcBlock
  linked : ∀ h, 0 ≤ h → h < tip → (block (h + 1)).parentText = (block h).hashText
  /-- Both clients serve the same block. -/
  hash_header : ∀ h, 0 ≤ h → h ≤ tip → (header h).hashText = (block h).hashText

namespace Fork

/-- The hashes the chain shows. -/
def view (f : Fork) : HashChain.View Hash where
  tip := f.tip
  hash h := (f.block h).hashText
  parent h := (f.block h).parentText
  linked := f.linked

/-- What a node answers. -/
def answer (f : Fork) : (c : ChainCall) → c.Answer
  | .blockNumber => .ok f.tip
  | .restBlock h => .ok (if 0 ≤ h ∧ h ≤ f.tip then some (f.block h) else none)
  | .blockWithTxs h => .ok (if 0 ≤ h ∧ h ≤ f.tip then some (f.header h) else none)
  | .getLogs fromBlock _ => .ok (f.logs fromBlock)
  | .connect => .ok ()
  | .streamEvents => .ok ()
  | .streamMessage => none

/-- The chain answers, or the call fails. -/
def rpc : Rpc Fork := fun f c r f' => f' = f ∧ (r = f.answer c ∨ Fleet.Failed c r)

def respond : Server ChainSig Fork := fun f c => (f.answer c, f)

theorem answers : Answers rpc respond := fun _ _ => ⟨rfl, Or.inl rfl⟩

/-- The views of the forks the chain may become. -/
def Views (forks : Fork → Prop) (V : HashChain.View Hash) : Prop := ∃ f, forks f ∧ f.view = V

end Fork

/-- What a task may start: a writer, or a pass of the reorg check. -/
inductive CheckedTask : Prog SyncSig Unit → Prop
  | writer {p : Prog SyncSig Unit} (h : WriterTask p) : CheckedTask p
  | check (cfg : SyncConfig) (cursor : Int) :
      CheckedTask (discard (Script.toProgE (checkOnce cfg cursor)))

/-- The writers and the reorg check over a chain that may become any of the forks. -/
def checkedIndexer (forks : Fork → Prop) : System SyncSig TaskId (World Fork) Unit :=
  { indexer Fork.rpc (fun _ f => forks f) with spawn := fun _ p => CheckedTask p }

/-- The writers and the reorg check over nodes that answer by `rpc` and move by `moves`. -/
def reorgIndexer {χ : Type} (rpc : Rpc χ) (moves : χ → χ → Prop) :
    System SyncSig TaskId (World χ) Unit :=
  { indexer rpc moves with spawn := fun _ p => CheckedTask p }

/-- The pass finds the hash it has stored at its probe height on the chain. -/
def ProbeMatches (w : World Fork) (cfg : SyncConfig) (cursor : Int) : Prop :=
  0 ≤ cursor ∧ ∃ stored remote,
    Blocks.getByHeight w.store (probeHeight cfg cursor) = some stored ∧
    w.chain.answer (.blockWithTxs (probeHeight cfg cursor)) = .ok (some remote) ∧
    remote.hashText = stored.hash

end SentrixIndexer
