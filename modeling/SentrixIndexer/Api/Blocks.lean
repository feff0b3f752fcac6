/-
`/blocks`: the list of blocks, newest first, a page at a time.

The query comes as text.  A limit that cannot be used is replaced, a cursor that cannot be
parsed is refused.  A page names the height below its last block for the next one, unless
there is none or it is the genesis block.
-/
import SentrixIndexer.Db
import SentrixIndexer.Numeric.Text
import SentrixIndexer.Relational.Pages

namespace SentrixIndexer

open Relational Numeric

/-- An error of the API. -/
inductive ApiError
  | invalidQuery (msg : String)
  | notFound (what : String)
  | db (msg : String)
  | sqlx (msg : String)
  deriving DecidableEq, Repr

/-- `str::parse::<i64>`. -/
def parseI64 (s : String) : Option Int :=
  (parseInteger s).filter fun n => i64Min ≤ n ∧ n ≤ i64Max

def defaultLimit : Int := 25
def maxLimit : Int := 100

/-- `clamp_limit`. -/
def clampLimit (raw : Option String) : Int :=
  match raw.bind parseI64 with
  | some n => if 0 < n then min n maxLimit else defaultLimit
  | none => defaultLimit

/-- A block as the API shows it. -/
structure WireBlock where
  height : String
  hash : String
  parentHash : String
  timestamp : String
  validator : String
  gasUsed : String
  gasLimit : String
  baseFee : Option Wei
  txCount : Int
  stateRoot : Option String
  round : Int
  deriving DecidableEq, Repr

/-- `impl From<&Block> for WireBlock`. -/
def WireBlock.ofBlock (b : Block) : WireBlock where
  height := b.height.repr
  hash := b.hash
  parentHash := b.parentHash
  timestamp := b.timestamp.repr
  validator := b.validator
  gasUsed := b.gasUsed.repr
  gasLimit := b.gasLimit.repr
  baseFee := b.baseFee
  txCount := b.txCount
  stateRoot := b.stateRoot
  round := b.round

/-- The query of `/blocks`. -/
structure BlocksQuery where
  limit : Option String
  before : Option String
  deriving DecidableEq, Repr

/-- A page of `/blocks`. -/
structure ListResponse where
  blocks : List WireBlock
  nextCursor : Option String
  deriving DecidableEq, Repr

/-- `list_before`: at most `limit` blocks, from `before` down. -/
def Blocks.listBefore (s : Store) (before : Option Int) (limit : Int) : List Block :=
  match before with
  | some b => (orderByDesc Block.height (s.blocks.rows.filter fun r => r.height ≤ b)).take limit.toNat
  | none => (orderByDesc Block.height s.blocks.rows).take limit.toNat

/-- The response made of the rows of a page. -/
def ListResponse.ofRows (rows : List Block) : ListResponse where
  blocks := rows.map .ofBlock
  nextCursor := ((rows.getLast?.map Block.height).filter fun h => 0 < h).map fun h => (h - 1).repr

/-- The cursor of the query. -/
def BlocksQuery.parseBefore (q : BlocksQuery) : Except ApiError (Option Int) :=
  match q.before with
  | none => .ok none
  | some s =>
      match parseI64 s with
      | some b => .ok (some b)
      | none => .error (.invalidQuery "invalid before: must be a non-negative integer")

/-- `list`, as its loader answers it. -/
def listBlocks (s : Store) (q : BlocksQuery) : Except ApiError ListResponse := do
  let before ← q.parseBefore
  return .ofRows (Blocks.listBefore s before (clampLimit q.limit))

/-- The limit is clamped to 1..100. -/
theorem clampLimit_bounds (raw : Option String) : 1 ≤ clampLimit raw ∧ clampLimit raw ≤ 100 := by
  unfold clampLimit defaultLimit maxLimit
  split
  · split <;> omega
  · omega

/-- A number is read back from its text. -/
theorem parseI64_repr {n : Int} (hmin : i64Min ≤ n) (hmax : n ≤ i64Max) :
    parseI64 n.repr = some n := by
  unfold parseI64
  rw [parseInteger_repr]
  simp [hmin, hmax]

end SentrixIndexer
