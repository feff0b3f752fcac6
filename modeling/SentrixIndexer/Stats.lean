/-
The daily statistics.

`stats_daily_mv` is a materialised view: it holds what its query came to when it was refreshed
last, or nothing at all if it was never populated.  A loop of the indexer refreshes it on a
timer while the writers go on.  Its first refreshes are plain ones, until one succeeds; from
then on it refreshes `CONCURRENTLY`, which Postgres rejects on a view that is not populated.
-/
import SentrixIndexer.Api.Cached
import SentrixIndexer.Relational.Groups
import SentrixIndexer.Relational.Ties
import SentrixIndexer.Sync.Indexer

namespace SentrixIndexer

open Effect Relational

/-! ### The view -/

/-- Row of `stats_daily_mv`. -/
structure StatsDayRow where
  dayBucket : Int
  blockCount : Int
  txCount : Int
  gasUsed : Int
  firstHeight : Int
  lastHeight : Int
  deriving DecidableEq, Repr

/-- `timestamp / 86400`: the division of integers truncates. -/
def dayBucket (timestamp : Int) : Int := timestamp.tdiv 86400

/-- `::bigint`. -/
def toBigint (n : Int) : Except String Int :=
  if i64Min ≤ n ∧ n ≤ i64Max then .ok n else .error "bigint out of range"

/-- The row of one group. -/
def statsDayRow (group : Int × List Block) : Except String StatsDayRow := do
  let blockCount ← toBigint group.2.length
  let txCount ← toBigint (group.2.map Block.txCount).sum
  let gasUsed ← toBigint (group.2.map Block.gasUsed).sum
  let heights := group.2.map Block.height
  return {
    dayBucket := group.1
    blockCount := blockCount
    txCount := txCount
    gasUsed := gasUsed
    firstHeight := heights.min?.getD 0
    lastHeight := heights.max?.getD 0 }

/-- The query of the view. -/
def statsDaily (s : Store) : Except String (List StatsDayRow) :=
  (groupBy (fun b : Block => dayBucket b.timestamp) s.blocks.rows).mapM statsDayRow

/-- The row as `daily` selects it; `dateOf` is the date Postgres makes of a day. -/
def StatsDayRow.shown (dateOf : Int → String) (row : StatsDayRow) : StatsDailyRow where
  date := dateOf row.dayBucket
  blocks := row.blockCount
  transactions := row.txCount

/-- `stats::daily`, newest first; a view that was never populated cannot be read. -/
def Daily (dateOf : Int → String) (view : Option (List StatsDayRow)) (limit : Int)
    (result : Option (List StatsDailyRow)) : Prop :=
  match view with
  | none => result = none
  | some rows => ∃ page, PageOf StatsDayRow.dayBucket limit rows page ∧
      result = page.map (List.map (StatsDayRow.shown dateOf))

/-! ### The refresh loop -/

/-- What the loop waits for. -/
inductive StatsWake
  | cancelled
  | tick
  deriving DecidableEq

inductive StatsCall
  /-- `tokio::select!` on the token and the timer. -/
  | select
  /-- `refresh`, with `CONCURRENTLY`, or `refresh_full`. -/
  | refresh (concurrently : Bool)

abbrev StatsSig : Signature where
  Call := StatsCall
  Answer
    | .select => StatsWake
    | .refresh _ => Except String Unit

/-- One turn of the loop; `populated` says whether a refresh has succeeded. -/
def statsTurn (populated : Bool) : Prog StatsSig (Bool ⊕ Unit) := do
  match ← Prog.ask (S := StatsSig) .select with
  | .cancelled => return .inr ()
  | .tick =>
      match ← Prog.ask (S := StatsSig) (.refresh populated) with
      | .ok () => return .inl true
      | .error _ => return .inl populated

/-- The stats refresh task. -/
def statsRefresh : Prog StatsSig Unit := Prog.iterate statsTurn false

structure StatsWorld where
  store : Store
  /-- `none` while the view is not populated. -/
  view : Option (List StatsDayRow)
  cancelled : Bool
  /-- Whether Postgres ever rejected a refresh for the view not being populated. -/
  rejected : Bool

/-- The view as the migration leaves it, or as a dump without data does. -/
def StatsWorld.init (populated : Bool) : StatsWorld where
  store := .empty
  view := if populated then some [] else none
  cancelled := false
  rejected := false

/-- How the surroundings answer the loop.  The reply to a refresh that took effect may be lost. -/
def statsHandle : Handler StatsSig StatsWorld
  | w, .select, r, w' => w' = w ∧ (r = .cancelled → w.cancelled = true)
  | w, .refresh concurrently, r, w' =>
      if concurrently = true ∧ w.view = none then
        (∃ e, r = .error e) ∧ w' = { w with rejected := true }
      else
        (∃ rows, statsDaily w.store = .ok rows ∧ w' = { w with view := some rows }) ∨
        ((∃ e, r = .error e) ∧ w' = w)

/-- What happens around the loop: the indexer goes on, the process is told to stop. -/
inductive StatsSurroundings {χ : Type} (rpc : Rpc χ) (moves : χ → χ → Prop) (chain : χ) :
    StatsWorld → StatsWorld → Prop
  | indexer {w : StatsWorld} {s : Store} (h : Meanwhile rpc moves chain w.store s) :
      StatsSurroundings rpc moves chain w { w with store := s }
  | cancel (w : StatsWorld) : StatsSurroundings rpc moves chain w { w with cancelled := true }

/-- The refresh loop next to the indexer.  A crash leaves the database. -/
def statsSystem {χ : Type} (rpc : Rpc χ) (moves : χ → χ → Prop) (chain : χ) :
    System StatsSig Unit StatsWorld Unit where
  handler _ := statsHandle
  spawn _ p := p = statsRefresh
  env := StatsSurroundings rpc moves chain
  crash w w' := w' = { w with cancelled := false }

end SentrixIndexer
