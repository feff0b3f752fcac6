/-
Which heights a task is ingesting.

A walk starts with a cursor read and goes on until the task reads the cursor again or its
program ends.  The state is that of the indexer with a record for each task: the cursor
its walk read and the heights it has asked to index since.  No program reads the record.
-/
import SentrixIndexer.Effect.Labelled
import SentrixIndexer.Sync.Indexer

namespace SentrixIndexer

open Effect

/-- The heights a transaction writes or steps over. -/
def Txn.heights : Txn → List Int
  | .writeBlock b => [b.block.height]
  | .batchWriteBlocks bundles => bundles.map fun b => b.block.height
  | .writeCursor h _ => [h]
  | .rewindTo _ => []

/-- The heights a call indexes: those it fetches for the writers to store, and those it writes
or steps over.  The reorg check indexes nothing: its probes (`blockWithTxs`, `getByHeight`)
only compare hashes and its rewind only deletes. -/
def SyncCall.indexHeights : SyncCall → List Int
  | .chain (.restBlock h) => [h]
  | .chain (.getLogs fromBlock toBlock) => inclusive fromBlock toBlock
  | .transact t => t.heights
  | _ => []

def SyncCall.IsRead : SyncCall → Prop
  | .readCursor => True
  | _ => False

/-- The walk of a task. -/
structure Walk where
  /-- The cursor it has read. -/
  cursor : Int
  /-- The heights it has asked to index since. -/
  touched : List Int

/-- The walk after a call has been answered. -/
def Walk.note (v : Walk) : (c : SyncCall) → c.Answer → Walk
  | .readCursor, .ok cursor => ⟨cursor.getD (-1), []⟩
  | .readCursor, .error _ => ⟨v.cursor, []⟩
  | c, _ => ⟨v.cursor, c.indexHeights ++ v.touched⟩

variable {χ : Type}

/-- The state of the indexer with the walk of each task. -/
structure Watched (χ : Type) where
  world : World χ
  walk : TaskId → Walk

def Watched.init (chain : χ) : Watched χ := ⟨.init chain, fun _ => ⟨-1, []⟩⟩

/-- How the surroundings answer a task whose walk is recorded. -/
def watch (rpc : Rpc χ) (i : TaskId) : Handler SyncSig (Watched χ) := fun x c r x' =>
  handle rpc i x.world c r x'.world ∧
    x'.walk = Function.update x.walk i ((x.walk i).note c r)

/-- The indexer with its walks recorded. -/
def watchedIndexer (rpc : Rpc χ) (moves : χ → χ → Prop) :
    System SyncSig TaskId (Watched χ) Unit where
  handler := watch rpc
  spawn _ p := WriterTask p
  env x x' := Surroundings moves x.world x'.world ∧ x'.walk = x.walk
  crash x x' := x'.world = x.world.restart ∧ x'.walk = x.walk

section Ingesting

variable (rpc : Rpc χ) (c : Config SyncSig TaskId (Watched χ) Unit)

/-- The task may still come to a call that `B` picks in this walk. -/
def StillMay (i : TaskId) (B : SyncCall → Prop) : Prop :=
  ∃ p, c.prog i = some p ∧ MayCall (watch rpc i) SyncCall.IsRead B p

/-- The task has begun to fetch the height and is not done with it. -/
def Ingesting (i : TaskId) (h : Int) : Prop :=
  h ∈ (c.world.walk i).touched ∧ StillMay rpc c i fun call => h ∈ call.indexHeights

/-- The task has begun to fetch some height and may still fetch or write one. -/
def InWalk (i : TaskId) : Prop :=
  (c.world.walk i).touched ≠ [] ∧ StillMay rpc c i fun call => call.indexHeights ≠ []

/--
A walk starts alone: when a task first fetches a height after it has read the cursor, the
cursor is still the one it read and no other task is in a walk.
-/
def StartsAlone : Label SyncSig TaskId → Prop
  | .silent => True
  | .call i call => call.indexHeights ≠ [] → (c.world.walk i).touched = [] →
      c.world.world.store.cursor = (c.world.walk i).cursor ∧ ∀ j, j ≠ i → ¬ InWalk rpc c j

end Ingesting

end SentrixIndexer
