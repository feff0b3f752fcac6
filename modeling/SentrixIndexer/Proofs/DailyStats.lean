/-
What the daily statistics say.

The view is read at any time, so what it says is about the store at the last refresh.  Of that
store it gives every day once, with the blocks of the day and the transactions they hold: the
number on the block row is the number of rows in `transactions`, since the store is made of
whole blocks.
-/
import Mathlib.Algebra.BigOperators.Ring.Finset
import SentrixIndexer.Proofs.OneChain
import SentrixIndexer.Stats

namespace SentrixIndexer

open Effect Relational

variable {χ : Type} {rpc : Rpc χ}

/-- The day of the block of a transaction. -/
def txDay (s : Store) (t : Transaction) : Option Int :=
  (s.blocks.find? t.blockHeight).map fun b => dayBucket b.timestamp

/-- The row is about the blocks of its day, and the transactions in them. -/
structure DayTotals (s : Store) (row : StatsDayRow) : Prop where
  blocks : row.blockCount = s.blocks.count fun b => dayBucket b.timestamp = row.dayBucket
  txs : row.txCount = s.transactions.count fun t => txDay s t = some row.dayBucket
  within : ∀ b ∈ s.blocks.rows, dayBucket b.timestamp = row.dayBucket →
    row.firstHeight ≤ b.height ∧ b.height ≤ row.lastHeight
  first : ∃ b ∈ s.blocks.rows, dayBucket b.timestamp = row.dayBucket ∧ b.height = row.firstHeight
  last : ∃ b ∈ s.blocks.rows, dayBucket b.timestamp = row.dayBucket ∧ b.height = row.lastHeight

/-- The rows tell the store day by day. -/
structure Tallies (s : Store) (rows : List StatsDayRow) : Prop where
  days : (rows.map StatsDayRow.dayBucket).Nodup
  each : ∀ row ∈ rows, DayTotals s row
  complete : ∀ b ∈ s.blocks.rows, ∃ row ∈ rows, row.dayBucket = dayBucket b.timestamp
  allBlocks : (rows.map StatsDayRow.blockCount).sum = s.blocks.rows.length
  allTxs : (rows.map StatsDayRow.txCount).sum = s.transactions.rows.length

/-! ### One day -/

theorem toBigint_ok {n m : Int} (h : toBigint n = .ok m) : m = n := by
  unfold toBigint at h
  split at h
  · exact (Except.ok.inj h).symm
  · exact absurd h (by simp)

/-- What the row of a group says. -/
theorem statsDayRow_ok {g : Int × List Block} {row : StatsDayRow} (h : statsDayRow g = .ok row) :
    row.dayBucket = g.1 ∧ row.blockCount = g.2.length ∧
      row.txCount = (g.2.map Block.txCount).sum ∧
      row.firstHeight = (g.2.map Block.height).min?.getD 0 ∧
      row.lastHeight = (g.2.map Block.height).max?.getD 0 := by
  unfold statsDayRow at h
  obtain ⟨blockCount, hblocks, h⟩ := bind_ok.mp h
  obtain ⟨txCount, htxs, h⟩ := bind_ok.mp h
  obtain ⟨gasUsed, -, h⟩ := bind_ok.mp h
  obtain rfl := Except.ok.inj h
  exact ⟨rfl, toBigint_ok hblocks, toBigint_ok htxs, rfl, rfl⟩

/-- A block row counts the transactions stored at its height. -/
theorem StoresChain.txCount {s : Store} (hone : OneChain rpc) (h : StoresChain rpc s) {b : Block}
    (hb : b ∈ s.blocks.rows) :
    b.txCount = ((s.transactions.rows.filter fun t => t.blockHeight = b.height).length : Nat) := by
  obtain ⟨bundle, hfetched, rfl, hwhole⟩ := h.blocks b hb
  have hco := hone.coherent hfetched
  have hperm : (s.transactions.rows.filter fun t => t.blockHeight = bundle.block.height).Perm
      bundle.txs := by
    refine (List.perm_ext_iff_of_nodup (s.transactions.rows_nodup.filter _)
      hco.hashes.of_map).mpr fun x => ?_
    rw [List.mem_filter, decide_eq_true_eq, hwhole.txs]
  rw [hperm.length_eq, hco.txCount]

/-- The counts on some block rows add up to the transactions of these blocks. -/
theorem StoresChain.sum_txCount {s : Store} (hone : OneChain rpc) (h : StoresChain rpc s)
    (p : Block → Bool) :
    ((s.blocks.rows.filter p).map Block.txCount).sum =
      (s.transactions.count (fun t => (s.blocks.find? t.blockHeight).any p) : Int) := by
  let blocks := s.blocks.rows.filter p
  let txs := s.transactions.rows.filter fun t => (s.blocks.find? t.blockHeight).any p
  have hnodup : (blocks.map Block.height).Nodup :=
    s.blocks.nodup.sublist (List.filter_sublist.map _)
  have hheight : ∀ t ∈ txs, t.blockHeight ∈ blocks.map Block.height := by
    intro t ht
    obtain ⟨b, hfind, hp⟩ := (Option.any_eq_true _ _).mp (List.mem_filter.mp ht).2
    obtain ⟨hmem, hb⟩ := Table.find?_eq_some.mp hfind
    exact List.mem_map.mpr ⟨b, List.mem_filter.mpr ⟨hmem, hp⟩, hb⟩
  -- At the height of one of these blocks, every transaction is one of its own.
  have hsame : ∀ b ∈ blocks, (txs.filter fun t => t.blockHeight = b.height).length =
      (s.transactions.rows.filter fun t => t.blockHeight = b.height).length := by
    intro b hb
    obtain ⟨hmem, hp⟩ := List.mem_filter.mp hb
    show ((s.transactions.rows.filter _).filter _).length = _
    rw [List.filter_filter]
    congr 1
    refine List.filter_congr fun t _ => ?_
    by_cases ht : t.blockHeight = b.height
    · have hfind : s.blocks.find? b.height = some b := Table.mem_rows.mp hmem
      simp [ht, hfind, hp]
    · simp [ht]
  have hsum := (perm_flatMap_filter hnodup hheight).length_eq
  rw [List.length_flatMap, List.map_map] at hsum
  show (blocks.map Block.txCount).sum = (txs.length : Int)
  rw [← hsum, Nat.cast_list_sum, List.map_map]
  congr 1
  refine List.map_congr_left fun b hb => ?_
  show b.txCount = _
  rw [h.txCount hone (List.mem_filter.mp hb).1, ← hsame b hb]
  rfl

/-- All the counts add up to all the transactions. -/
theorem StoresChain.sum_txCount_all {s : Store} (hone : OneChain rpc) (h : StoresChain rpc s) :
    (s.blocks.rows.map Block.txCount).sum = (s.transactions.rows.length : Int) := by
  have hsum := h.sum_txCount hone fun _ => true
  have hall : s.transactions.rows.filter
      (fun t => (s.blocks.find? t.blockHeight).any fun _ => true) = s.transactions.rows := by
    refine List.filter_eq_self.mpr fun t ht => ?_
    obtain ⟨b, hb⟩ := Table.contains_iff.mp (h.txs t ht)
    rw [hb]
    rfl
  unfold Table.count at hsum
  rwa [hall, List.filter_true] at hsum

theorem any_day_eq (s : Store) (day : Int) (t : Transaction) :
    (s.blocks.find? t.blockHeight).any (fun b => dayBucket b.timestamp = day) =
      decide (txDay s t = some day) := by
  unfold txDay
  cases s.blocks.find? t.blockHeight with
  | none => rfl
  | some b => simp

/-- **A row of the view is about its day.** -/
theorem dayTotals_of_group {s : Store} (hone : OneChain rpc) (h : StoresChain rpc s)
    {g : Int × List Block} {row : StatsDayRow}
    (hg : g ∈ groupBy (fun b : Block => dayBucket b.timestamp) s.blocks.rows)
    (hrow : statsDayRow g = .ok row) : DayTotals s row := by
  obtain ⟨⟨b₀, hb₀, hday₀⟩, hrows⟩ := mem_groupBy.mp hg
  obtain ⟨hday, hblocks, htxs, hfirst, hlast⟩ := statsDayRow_ok hrow
  rw [← hday] at hday₀ hrows
  rw [hrows] at hblocks htxs hfirst hlast
  have hmem : ∀ b, b ∈ (s.blocks.rows.filter fun b => dayBucket b.timestamp = row.dayBucket) ↔
      b ∈ s.blocks.rows ∧ dayBucket b.timestamp = row.dayBucket := by
    intro b
    rw [List.mem_filter, decide_eq_true_eq]
  let heights := (s.blocks.rows.filter fun b =>
    dayBucket b.timestamp = row.dayBucket).map Block.height
  have hsome : b₀.height ∈ heights := List.mem_map_of_mem ((hmem b₀).mpr ⟨hb₀, hday₀⟩)
  obtain ⟨low, hlow⟩ : ∃ n, heights.min? = some n := by
    cases hm : heights.min? with
    | none => rw [List.min?_eq_none_iff.mp hm] at hsome; exact absurd hsome (by simp)
    | some n => exact ⟨n, rfl⟩
  obtain ⟨high, hhigh⟩ : ∃ n, heights.max? = some n := by
    cases hm : heights.max? with
    | none => rw [List.max?_eq_none_iff.mp hm] at hsome; exact absurd hsome (by simp)
    | some n => exact ⟨n, rfl⟩
  obtain ⟨hlowMem, hlowLe⟩ := List.min?_eq_some_iff.mp hlow
  obtain ⟨hhighMem, hhighLe⟩ := List.max?_eq_some_iff.mp hhigh
  have hfirstLow : row.firstHeight = low := hfirst.trans (by rw [hlow]; rfl)
  have hlastHigh : row.lastHeight = high := hlast.trans (by rw [hhigh]; rfl)
  refine ⟨hblocks, ?_, fun b hb hday => ?_, ?_, ?_⟩
  · rw [htxs, h.sum_txCount hone]
    simp only [any_day_eq]
  · have hin : b.height ∈ heights := List.mem_map_of_mem ((hmem b).mpr ⟨hb, hday⟩)
    rw [hfirstLow, hlastHigh]
    exact ⟨hlowLe _ hin, hhighLe _ hin⟩
  · obtain ⟨b, hb, hheight⟩ := List.mem_map.mp hlowMem
    exact ⟨b, ((hmem b).mp hb).1, ((hmem b).mp hb).2, hheight.trans hfirstLow.symm⟩
  · obtain ⟨b, hb, hheight⟩ := List.mem_map.mp hhighMem
    exact ⟨b, ((hmem b).mp hb).1, ((hmem b).mp hb).2, hheight.trans hlastHigh.symm⟩

/-! ### All days -/

/-- **The view tells the store it was made of.** -/
theorem tallies_of_statsDaily {s : Store} (hone : OneChain rpc) (h : StoresChain rpc s)
    {rows : List StatsDayRow} (hrows : statsDaily s = .ok rows) : Tallies s rows := by
  have hrel := madeOf_of_mapM hrows
  have hof : ∀ g row, statsDayRow g = .ok row → row.dayBucket = g.1 ∧
      row.blockCount = (g.2.length : Int) ∧ row.txCount = (g.2.map Block.txCount).sum :=
    fun g row hrow => by
      obtain ⟨hday, hblocks, htxs, -⟩ := statsDayRow_ok hrow
      exact ⟨hday, hblocks, htxs⟩
  refine ⟨?_, ?_, ?_, ?_, ?_⟩
  · rw [hrel.map_eq fun g row hrow => (hof g row hrow).1]
    exact nodup_groupBy
  · intro row hrow
    obtain ⟨g, hg, hgrow⟩ := hrel.of_mem hrow
    exact dayTotals_of_group hone h hg hgrow
  · intro b hb
    have hg : (dayBucket b.timestamp, s.blocks.rows.filter
        fun u => dayBucket u.timestamp = dayBucket b.timestamp) ∈
        groupBy (fun b : Block => dayBucket b.timestamp) s.blocks.rows :=
      mem_groupBy.mpr ⟨⟨b, hb, rfl⟩, rfl⟩
    obtain ⟨row, hrow, hgrow⟩ := hrel.mem hg
    exact ⟨row, hrow, (hof _ row hgrow).1⟩
  · rw [hrel.map_eq fun g row hrow => (hof g row hrow).2.1]
    have hlength := (groupBy_perm (fun b : Block => dayBucket b.timestamp) s.blocks.rows).length_eq
    rw [← hlength, List.length_flatMap, Nat.cast_list_sum, List.map_map]
    rfl
  · rw [hrel.map_eq fun g row hrow => (hof g row hrow).2.2, sum_groupBy]
    exact h.sum_txCount_all hone

/-! ### The refresh loop -/

variable {moves : χ → χ → Prop} {chain : χ}

/-- What the loop keeps: the view is that of an earlier store, and no refresh was rejected. -/
structure ViewOk (rpc : Rpc χ) (w : StatsWorld) : Prop where
  store : StoresChain rpc w.store
  accepted : w.rejected = false
  view : ∀ rows, w.view = some rows →
    ∃ s, StoresChain rpc s ∧ Extends s w.store ∧ statsDaily s = .ok rows

/-- A populated view stays populated. -/
def StaysPopulated (w w' : StatsWorld) : Prop := w.view ≠ none → w'.view ≠ none

/-- **One turn of the loop**: it refreshes `CONCURRENTLY` only what is populated. -/
theorem wp_statsTurn {populated : Bool} {w : StatsWorld}
    (hpop : populated = true → w.view ≠ none) :
    wp statsHandle (ViewOk rpc) StaysPopulated (fun _ _ => True) (statsTurn populated)
      (fun r w' => match r with
        | .inl populated' => populated' = true → w'.view ≠ none
        | .inr _ => True) w := by
  rintro w₁ hR₁ hI₁ wake w₂ ⟨rfl, -⟩
  refine ⟨hI₁, trivial, ?_⟩
  cases wake with
  | cancelled => exact trivial
  | tick =>
      rintro w₃ hR₃ hI₃ r w₄ hanswer
      have hpop₃ : populated = true → w₃.view ≠ none := fun h => hR₃ (hR₁ (hpop h))
      have hnot : ¬ (populated = true ∧ w₃.view = none) := fun h => hpop₃ h.1 h.2
      simp only [statsHandle, hnot, if_false] at hanswer
      rcases hanswer with ⟨rows, hrows, rfl⟩ | ⟨⟨e, rfl⟩, rfl⟩
      · refine ⟨⟨hI₃.store, hI₃.accepted, fun rows' h => ?_⟩, trivial, ?_⟩
        · obtain rfl := Option.some.inj h
          exact ⟨_, hI₃.store, Extends.refl _, hrows⟩
        · cases r with
          | ok u => exact fun _ => by simp
          | error e => exact fun _ => by simp
      · exact ⟨hI₃, trivial, hpop₃⟩

theorem statsSystem_verified (hone : OneChain rpc) (populated : Bool) :
    VerifiedSingle (statsSystem rpc moves chain) (StatsWorld.init populated) (ViewOk rpc)
      StaysPopulated (fun _ _ => True) where
  rely_refl _ h := h
  rely_trans _ _ _ h h' hw := h' (h hw)
  init := by
    have hempty : StoresChain rpc Store.empty :=
      hone.storesChain (.init : Reachable (indexer rpc moves) (World.init chain) _)
    refine ⟨hempty, rfl, fun rows h => ⟨_, hempty, Extends.refl _, ?_⟩⟩
    cases populated with
    | false => exact absurd h (by simp [StatsWorld.init])
    | true =>
        obtain rfl := Option.some.inj h
        rfl
  spawn i p w hp _ := by
    obtain rfl : p = statsRefresh := hp
    refine wp_iterate (fun populated w => populated = true → w.view ≠ none) ?_ (by simp) ?_
    · exact fun _ _ _ hJ hR _ h => hR (hJ h)
    · intro populated w _ hJ
      refine wp_mono (fun r w' hr => ?_) (wp_statsTurn hJ)
      cases r with
      | inl populated' => exact hr
      | inr _ => exact trivial
  post _ _ _ _ _ _ := trivial
  env w w' hI he := by
    cases he with
    | indexer h =>
        obtain ⟨hext, hchain⟩ := hone.meanwhile h
        refine ⟨⟨hchain, hI.accepted, fun rows hrows => ?_⟩, fun h => h⟩
        obtain ⟨s, hs, hle, hview⟩ := hI.view rows hrows
        exact ⟨s, hs, hle.trans hext, hview⟩
    | cancel => exact ⟨⟨hI.store, hI.accepted, hI.view⟩, fun h => h⟩
  crash w w' hI hcr := by
    obtain rfl : w' = { w with cancelled := false } := hcr
    exact ⟨hI.store, hI.accepted, hI.view⟩

/--
**The daily statistics tell a store the indexer has had.**  In every state of every run of the
refresh loop next to the indexer, crashes and failed refreshes included, Postgres has rejected
no refresh for the view not being populated; and what the view holds tells some earlier store
day by day: each day once, with its blocks, the transactions stored in them and its first and
last height, and all days add up to all blocks and transactions.  A page of it, newest days
first, is determined.
-/
theorem daily_stats_tell_a_store (hone : OneChain rpc) {populated : Bool}
    {c : Config StatsSig Unit StatsWorld Unit}
    (hc : Reachable (statsSystem rpc moves chain) (StatsWorld.init populated) c) :
    c.world.rejected = false ∧
    ∀ rows, c.world.view = some rows →
      (∃ s, StoresChain rpc s ∧ Extends s c.world.store ∧ Tallies s rows) ∧
      ∀ dateOf limit, ∃! result, Daily dateOf c.world.view limit result := by
  have hI := ((statsSystem_verified hone populated).reachable hc).1
  refine ⟨hI.accepted, fun rows hrows => ?_⟩
  obtain ⟨s, hs, hext, hview⟩ := hI.view rows hrows
  have htallies := tallies_of_statsDaily hone hs hview
  refine ⟨⟨s, hs, hext, htallies⟩, fun dateOf limit => ?_⟩
  have hnone : ¬ Tied StatsDayRow.dayBucket limit rows := by
    rintro ⟨a, ha, b, hb, hne, hday, -⟩
    exact hne (List.inj_on_of_nodup_map htallies.days ha hb hday)
  obtain ⟨page, hpage, hunique⟩ := existsUnique_pageOf.mpr hnone
  rw [hrows]
  refine ⟨_, ⟨page, hpage, rfl⟩, ?_⟩
  rintro result ⟨page', hpage', rfl⟩
  rw [hunique page' hpage']

/-- The first refresh, after a backfill pass, of a view that came without data. -/
theorem daily_stats_tell_a_store_gap :
    ∃ c, Reachable (statsSystem gapNodes.rpc (fun _ _ => False) []) (StatsWorld.init false) c ∧
      c.world.rejected = false ∧ ∃ rows, c.world.view = some rows ∧
      ∃ s, StoresChain gapNodes.rpc s ∧ Extends s c.world.store ∧ Tallies s rows := by
  obtain ⟨w, _, hrun, hcheck⟩ := run_of_exec gapNodes.answers 0 100 (World.init [])
    backfillTo (fun r => (statsDaily r.1.store).toOption.isSome) (by decide +kernel)
  obtain ⟨rows, hrows⟩ : ∃ rows, statsDaily w.store = .ok rows := ⟨_, eq_valueOf hcheck⟩
  have hstart : Reachable (indexer gapNodes.rpc fun _ _ => False) (World.init []) _ :=
    Reachable.init
  have hindexed := hstart.run rfl (WriterTask.backfill noLag _ false) hrun
  have hmeanwhile : Meanwhile gapNodes.rpc (fun _ _ => False) [] Store.empty w.store :=
    ⟨_, _, hstart, hindexed.path, rfl, rfl⟩
  have hstats : Reachable (statsSystem gapNodes.rpc (fun _ _ => False) [])
      (StatsWorld.init false) _ := Reachable.init
  have hstarted := (hstats.move (.env (.indexer hmeanwhile))).move (.start () statsRefresh rfl rfl)
  -- The timer fires, and the refresh succeeds.
  have htick : statsHandle { StatsWorld.init false with store := w.store } .select
      StatsWake.tick { StatsWorld.init false with store := w.store } := ⟨rfl, by simp⟩
  have hrefresh : statsHandle { StatsWorld.init false with store := w.store } (.refresh false)
      (Except.ok ()) { StatsWorld.init false with store := w.store, view := some rows } :=
    Or.inl ⟨rows, hrows, rfl⟩
  have hsteps : Steps statsHandle { StatsWorld.init false with store := w.store } statsRefresh
      { StatsWorld.init false with store := w.store, view := some rows }
      (.loop statsTurn true .pure) :=
    .head (Step.loop _ statsTurn false .pure)
      (.head (Step.call _ htick) (.head (Step.call _ hrefresh) (.refl _ _)))
  have hc := hstarted.steps (i := ()) rfl hsteps
  obtain ⟨haccepted, hview⟩ := daily_stats_tell_a_store gapNodes_oneChain hc
  exact ⟨_, hc, haccepted, rows, rfl, (hview rows rfl).1⟩

end SentrixIndexer
