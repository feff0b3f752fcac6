/-
A client that follows the cursors of `/blocks` while the indexer goes on.

The pages come from different stores, and blocks are added below the place the client has
reached as well as above it.  Nothing is lost for that, as long as no page is older than some
common state: a page skips no block between its start and its last, and the next page starts
right below.  A page out of the cache may well be older than the page before it.
-/
import SentrixIndexer.Proofs.OneChain
import SentrixIndexer.Proofs.Pagination

namespace SentrixIndexer

open Effect Relational

section Walk

variable {stores : Nat → Store} {base : Store} {limit : Option String}

/-- The pages list these blocks from a height down: each once, in descending order, each of one
of the stores, and among them all blocks of the base. -/
structure PagesCover (stores : Nat → Store) (base : Store) (limit : Option String) (h : Int)
    (rows : List Block) (pages : List ListResponse) : Prop where
  lists : Lists limit rows pages
  desc : Descending Block.height rows
  below : ∀ b ∈ rows, b.height ≤ h
  stored : ∀ b ∈ rows, ∃ k, b ∈ (stores k).blocks.rows
  all : ∀ b ∈ base.blocks.rows, b.height ≤ h → b ∈ rows

/-- The last block of a page is its lowest. -/
theorem last_le_of_mem {l : List Block} (hdesc : Descending Block.height l) {b u : Block}
    (hlast : l.getLast? = some b) (hu : u ∈ l) : b.height ≤ u.height := by
  obtain ⟨front, rfl⟩ := List.getLast?_eq_some_iff.mp hlast
  rcases List.mem_append.mp hu with hfront | hend
  · exact ((List.pairwise_append.mp hdesc).2.2 u hfront b (List.mem_singleton.mpr rfl)).le
  · rw [List.mem_singleton.mp hend]

/-- **A page skips no block** between its start and its last. -/
theorem mem_page_of_le {s : Store} {h : Int} {n : Nat} {b u : Block}
    (hlast : ((blocksDown s h).take n).getLast? = some b) (hu : u ∈ s.blocks.rows)
    (hle : u.height ≤ h) (hge : b.height ≤ u.height) : u ∈ (blocksDown s h).take n := by
  have hmem : u ∈ (blocksDown s h).take n ++ (blocksDown s h).drop n := by
    rw [List.take_append_drop]
    exact mem_blocksDown.mpr ⟨hu, hle⟩
  rcases List.mem_append.mp hmem with hpage | hrest
  · exact hpage
  · rw [← blocksDown_pred hlast] at hrest
    have hbelow := (mem_blocksDown.mp hrest).2
    omega

/-- The last page, if it has all blocks of the base there are to show. -/
theorem pagesCover_single {h : Int} {k : Nat}
    (hall : ∀ b ∈ base.blocks.rows, b.height ≤ h →
      b ∈ (blocksDown (stores k) h).take (clampLimit limit).toNat) :
    PagesCover stores base limit h ((blocksDown (stores k) h).take (clampLimit limit).toNat)
      [.ofRows ((blocksDown (stores k) h).take (clampLimit limit).toNat)] where
  lists := lists_single limit _
  desc := (descending_blocksDown (stores k) h).sublist (List.take_sublist _ _)
  below _ hb := (mem_blocksDown.mp (List.mem_of_mem_take hb)).2
  stored _ hb := ⟨k, (mem_blocksDown.mp (List.mem_of_mem_take hb)).1⟩
  all := hall

/-- **One page, and the pages from right below its last block.** -/
theorem PagesCover.cons {h : Int} {k : Nat} {b : Block} {rows : List Block}
    {pages : List ListResponse} (hcover : PagesCover stores base limit (b.height - 1) rows pages)
    (hbase : Table.Le base.blocks (stores k).blocks)
    (hlast : ((blocksDown (stores k) h).take (clampLimit limit).toNat).getLast? = some b) :
    PagesCover stores base limit h
      ((blocksDown (stores k) h).take (clampLimit limit).toNat ++ rows)
      (.ofRows ((blocksDown (stores k) h).take (clampLimit limit).toNat) :: pages) := by
  have hdesc : Descending Block.height
      ((blocksDown (stores k) h).take (clampLimit limit).toNat) :=
    (descending_blocksDown (stores k) h).sublist (List.take_sublist _ _)
  have hrow : ∀ u ∈ (blocksDown (stores k) h).take (clampLimit limit).toNat,
      u ∈ (stores k).blocks.rows ∧ u.height ≤ h :=
    fun u hu => mem_blocksDown.mp (List.mem_of_mem_take hu)
  have hle := (hrow b (List.mem_of_getLast? hlast)).2
  refine ⟨hcover.lists.cons _, List.pairwise_append.mpr ⟨hdesc, hcover.desc, ?_⟩, ?_, ?_, ?_⟩
  · intro u hu v hv
    have hlow := last_le_of_mem hdesc hlast hu
    have hbelow := hcover.below v hv
    omega
  · intro u hu
    rcases List.mem_append.mp hu with hpage | hrest
    · exact (hrow u hpage).2
    · have hbelow := hcover.below u hrest
      omega
  · intro u hu
    rcases List.mem_append.mp hu with hpage | hrest
    · exact ⟨k, (hrow u hpage).1⟩
    · exact hcover.stored u hrest
  · intro u hu hule
    by_cases hge : b.height ≤ u.height
    · exact List.mem_append_left _ (mem_page_of_le hlast (hbase.mem hu) hule hge)
    · exact List.mem_append_right _ (hcover.all u hu (by omega))

/-- **The pages from any height down**, by the height. -/
theorem followPages_cover
    (hheights : ∀ k, ∀ b ∈ (stores k).blocks.rows, 0 ≤ b.height ∧ b.height ≤ i64Max)
    (hbase : ∀ k, Table.Le base.blocks (stores k).blocks) :
    ∀ (count : Nat) (h : Int) (k : Nat) (before : Option String), (h + 1).toNat = count →
      listBlocks (stores k) ⟨limit, before⟩ =
        .ok (.ofRows ((blocksDown (stores k) h).take (clampLimit limit).toNat)) →
      ∃ fuel pages rows, followPages stores limit fuel k before = some pages ∧
        PagesCover stores base limit h rows pages := by
  intro count
  induction count using Nat.strong_induction_on with
  | _ count ih =>
      intro h k before hcount hpage
      cases hlast : ((blocksDown (stores k) h).take (clampLimit limit).toNat).getLast? with
      | none =>
          have hcursor : (ListResponse.ofRows ((blocksDown (stores k) h).take
              (clampLimit limit).toNat)).nextCursor = none := nextCursor_eq_none (by simp [hlast])
          refine ⟨1, _, _, followPages_stop hpage hcursor, pagesCover_single fun b hb hle => ?_⟩
          have hlimit := (clampLimit_bounds limit).1
          have hthere := mem_blocksDown.mpr ⟨(hbase k).mem hb, hle⟩
          rcases List.take_eq_nil_iff.mp (List.getLast?_eq_none_iff.mp hlast) with hzero | hnil
          · omega
          · rw [hnil] at hthere
            exact absurd hthere (by simp)
      | some b =>
          obtain ⟨hb, hle⟩ :=
            mem_blocksDown.mp (List.mem_of_mem_take (List.mem_of_getLast? hlast))
          by_cases hpos : 0 < b.height
          · -- The next page starts right below `b`.
            have hnext := listBlocks_below limit (stores (k + 1)) hpos (hheights k b hb).2
            obtain ⟨fuel, pages, rows, hwalk, hcover⟩ :=
              ih _ (by omega) (b.height - 1) (k + 1) _ rfl hnext
            exact ⟨fuel + 1, _, _, followPages_next hpage (nextCursor_eq_some hlast hpos) hwalk,
              hcover.cons (hbase k) hlast⟩
          · -- Nothing lies below the genesis block.
            have hgenesis : ∀ u ∈ ((blocksDown (stores k) h).take
                (clampLimit limit).toNat).getLast?, u.height ≤ 0 :=
              fun u hu => Option.mem_unique hlast hu ▸ not_lt.mp hpos
            refine ⟨1, _, _, followPages_stop hpage (nextCursor_eq_none hgenesis),
              pagesCover_single fun u hu hule => ?_⟩
            have hu0 := (hheights k u ((hbase k).mem hu)).1
            exact mem_page_of_le hlast ((hbase k).mem hu) hule (by omega)

end Walk

/-! ### The indexer meanwhile -/

variable {χ : Type} {rpc : Rpc χ} {moves : χ → χ → Prop} {chain : χ}

/-- No block is served with an index beyond its type. -/
def FitsI64 (rpc : Rpc χ) : Prop := ∀ h block, Served rpc h block → block.index ≤ i64Max

/-- What is stored while the indexer goes on has heights that can be told in a cursor. -/
theorem heights_of_reachable (hrest : FaithfulHeights rpc) (hfits : FitsI64 rpc)
    {c : Config SyncSig TaskId (World χ) Unit}
    (hc : Reachable (indexer rpc moves) (World.init chain) c) :
    ∀ b ∈ c.world.store.blocks.rows, 0 ≤ b.height ∧ b.height ≤ i64Max := by
  have hbundles : ∀ b, CommittedBundle c.world b → Fetched rpc b := by
    refine (indexer_verified hrest moves chain).inv
      (fun w => ∀ b, CommittedBundle w b → Fetched rpc b) ?_ ?_ ?_ ?_ hc
    · rintro b ⟨i, t, he, -⟩
      exact absurd he (by simp [World.init])
    · rintro w w' _ hall hstep b ⟨i, t, he, hb⟩
      cases hstep with
      | idle => exact hall b ⟨i, t, he, hb⟩
      | chain j _ => exact hall b ⟨i, t, committed_of_noteAnswer he, hb⟩
      | gate g => exact hall b ⟨i, t, he, hb⟩
      | push j row => exact hall b ⟨i, t, by simpa using he, hb⟩
      | commit j hj hrun =>
          rcases List.mem_cons.mp he with heq | hold
          · obtain ⟨rfl, rfl⟩ := Event.committed.inj heq
            exact hj.fetched hb
          · exact hall b ⟨i, t, hold, hb⟩
    · rintro w w' _ hall he b ⟨i, t, hmem, hb⟩
      rw [he.unchanged.2] at hmem
      exact hall b ⟨i, t, hmem, hb⟩
    · rintro w w' _ hall hcr b ⟨i, t, hmem, hb⟩
      obtain rfl : w' = w.restart := hcr
      exact hall b ⟨i, t, hmem, hb⟩
  intro r hr
  obtain ⟨b, hb, rfl⟩ := (reachable_accounted hrest hc).headed r hr
  obtain ⟨served, logs, hserved, -, ha⟩ := hbundles b hb
  obtain ⟨hwf, hindex, -⟩ := assemble_ok ha
  exact ⟨hwf.nonneg, hindex ▸ hfits _ _ hserved⟩

/-- Where the client starts: at the height it names, else above everything. -/
def startOf (before : Option String) : Option Int :=
  match before with
  | none => some i64Max
  | some text => parseI64 text

/--
**Following the cursors misses nothing.**  While the indexer writes, above and below, a client
that follows the cursors comes to an end, and whatever store since the base each page was read
from, it is shown every block of the base from its start down, and no block twice.
-/
theorem live_pages_miss_nothing (hrest : FaithfulHeights rpc) (hfits : FitsI64 rpc)
    {base : Store} {stores : Nat → Store}
    (hlive : ∀ k, Meanwhile rpc moves chain base (stores k)) {q : BlocksQuery} {start : Int}
    (hstart : startOf q.before = some start) :
    ∃ (fuel : Nat) (pages : List ListResponse),
      followPages stores q.limit fuel 0 q.before = some pages ∧
      (∀ page ∈ pages, (page.blocks.length : Int) ≤ clampLimit q.limit) ∧
      Falling (pages.flatMap ListResponse.blocks) ∧
      (∀ e ∈ pages.flatMap ListResponse.blocks,
        ∃ k, ∃ b ∈ (stores k).blocks.rows, b.height ≤ start ∧ e.Shows b) ∧
      ∀ b ∈ base.blocks.rows, b.height ≤ start →
        ∃! e, e ∈ pages.flatMap ListResponse.blocks ∧ e.Shows b := by
  obtain ⟨limit, before⟩ := q
  have hheights : ∀ k, ∀ b ∈ (stores k).blocks.rows, 0 ≤ b.height ∧ b.height ≤ i64Max := by
    intro k
    obtain ⟨c, c', hc, hm, -, hstore⟩ := hlive k
    rw [← hstore]
    exact heights_of_reachable hrest hfits (hc.moves hm)
  have hbase : ∀ k, Table.Le base.blocks (stores k).blocks := by
    intro k
    obtain ⟨c, c', hc, hm, rfl, hstore⟩ := hlive k
    rw [← hstore]
    exact (moves_extends hrest hc hm).blocks
  have hstarts : StartsAt (stores 0) before start := by
    cases before with
    | none =>
        obtain rfl : i64Max = start := Option.some.inj hstart
        exact fun b hb => (hheights 0 b hb).2
    | some text => exact hstart
  obtain ⟨fuel, pages, rows, hwalk, hcover⟩ :=
    followPages_cover hheights hbase _ start 0 before rfl (listBlocks_first hstarts)
  have hrows : ∀ b ∈ rows, 0 ≤ b.height ∧ b.height ≤ i64Max := by
    intro b hb
    obtain ⟨k, hk⟩ := hcover.stored b hb
    exact hheights k b hk
  refine ⟨fuel, pages, hwalk, hcover.lists.size, ?_, fun e he => ?_, fun b hb hle => ?_⟩
  · rw [hcover.lists.blocks]
    exact falling_ofBlock hrows hcover.desc
  · rw [hcover.lists.blocks] at he
    obtain ⟨b, hb, rfl⟩ := List.mem_map.mp he
    obtain ⟨k, hk⟩ := hcover.stored b hb
    exact ⟨k, b, hk, hcover.below b hb, shows_ofBlock (hrows b hb).1 (hrows b hb).2⟩
  · rw [hcover.lists.blocks]
    exact existsUnique_shows hrows hcover.desc (hcover.all b hb hle)

/-- Three blocks, the last of them at the tip. -/
def risingNodes : NodeTables where
  tip := .ok 2
  block h := if 0 ≤ h ∧ h ≤ 2 then .ok (some (bareBlock h ("b" ++ h.repr) [])) else .ok none
  logs _ := .ok []
  header _ := .ok none

theorem risingNodes_served {h : Int} {block : NativeBlockResponse}
    (hs : Served risingNodes.rpc h block) : block.index = h ∧ h ≤ 2 := by
  have hb := NodeTables.served_iff.mp hs
  unfold risingNodes at hb
  by_cases hrange : 0 ≤ h ∧ h ≤ 2
  · simp only [hrange, if_true, and_self] at hb
    obtain rfl := Option.some.inj (Except.ok.inj hb)
    exact ⟨rfl, hrange.2⟩
  · simp only [hrange, if_false] at hb
    exact absurd (Except.ok.inj hb) (by simp)

/-- The store as it was, then the store as it is. -/
def thenLater (s later : Store) : Nat → Store
  | 0 => s
  | _ + 1 => later

/-- A page of one block, then another; the third block is written between them. -/
theorem live_pages_miss_nothing_rising :
    ∃ s later, s.blocks.rows.length = 2 ∧ later.blocks.rows.length = 3 ∧
      Meanwhile risingNodes.rpc (fun _ _ => False) [] s later ∧
      ∃ (fuel : Nat) (pages : List ListResponse),
        followPages (thenLater s later) (some "1") fuel 0 none = some pages ∧
        (∀ page ∈ pages, (page.blocks.length : Int) ≤ clampLimit (some "1")) ∧
        Falling (pages.flatMap ListResponse.blocks) ∧
        (∀ e ∈ pages.flatMap ListResponse.blocks,
          ∃ k, ∃ b ∈ (thenLater s later k).blocks.rows, b.height ≤ i64Max ∧ e.Shows b) ∧
        ∀ b ∈ s.blocks.rows, b.height ≤ i64Max →
          ∃! e, e ∈ pages.flatMap ListResponse.blocks ∧ e.Shows b := by
  obtain ⟨w, w', hw, hw', hpath, hcheck⟩ := risingNodes.exists_twoMoments 1
    (fun s s' => s.blocks.rows.length = 2 && s'.blocks.rows.length = 3) (by decide +kernel)
  obtain ⟨htwo, hthree⟩ := Bool.and_eq_true_iff.mp hcheck
  have hlater : Meanwhile risingNodes.rpc (fun _ _ => False) [] w.store w'.store :=
    ⟨_, _, hw, hpath, rfl, rfl⟩
  have hlive : ∀ k, Meanwhile risingNodes.rpc (fun _ _ => False) [] w.store
      (thenLater w.store w'.store k) := by
    intro k
    cases k with
    | zero => exact ⟨_, _, hw, .refl, rfl, rfl⟩
    | succ k => exact hlater
  have hheights : FaithfulHeights risingNodes.rpc :=
    fun chain h block chain' hr => (risingNodes_served ⟨chain, chain', hr⟩).1
  have hfits : FitsI64 risingNodes.rpc := by
    intro h block hs
    obtain ⟨hindex, hle⟩ := risingNodes_served hs
    unfold i64Max
    omega
  exact ⟨w.store, w'.store, of_decide_eq_true htwo, of_decide_eq_true hthree, hlater,
    live_pages_miss_nothing hheights hfits (q := ⟨some "1", none⟩) hlive rfl⟩

end SentrixIndexer
