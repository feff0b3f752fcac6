/-
A client that follows the cursors of `/blocks` reads every block once.

Each page may be read from another store, or be the answer of an earlier one out of the
cache: all that matters is that the stores agree up to the start.  The pages that are left
are those of the blocks from some height down, of which there are fewer after each page.
-/
import SentrixIndexer.Api.Blocks

namespace SentrixIndexer

open Relational

/-- The pages a client reads from the `k`-th on, until there is no cursor. -/
def followPages (stores : Nat → Store) (limit : Option String) :
    Nat → Nat → Option String → Option (List ListResponse)
  | 0, _, _ => none
  | fuel + 1, k, before => do
      let page ← (listBlocks (stores k) ⟨limit, before⟩).toOption
      match page.nextCursor with
      | none => return [page]
      | some cursor =>
          let rest ← followPages stores limit fuel (k + 1) (some cursor)
          return page :: rest

/-! ### What the pages show -/

/-- The entry shows the block, and its height can be read back. -/
structure WireBlock.Shows (e : WireBlock) (b : Block) : Prop where
  height : parseI64 e.height = some b.height
  hash : e.hash = b.hash
  parentHash : e.parentHash = b.parentHash
  timestamp : e.timestamp = b.timestamp.repr
  validator : e.validator = b.validator
  gasUsed : e.gasUsed = b.gasUsed.repr
  gasLimit : e.gasLimit = b.gasLimit.repr
  baseFee : e.baseFee = b.baseFee
  txCount : e.txCount = b.txCount
  stateRoot : e.stateRoot = b.stateRoot
  round : e.round = b.round

/-- The height on the entry is above the one on the other. -/
def WireBlock.Above (e e' : WireBlock) : Prop :=
  ∃ h h', parseI64 e.height = some h ∧ parseI64 e'.height = some h' ∧ h' < h

/-- The heights on the entries fall strictly, from each to all that come later. -/
def Falling (entries : List WireBlock) : Prop := entries.Pairwise WireBlock.Above

/-- Two entries with one height on them are one. -/
theorem Falling.eq_of_height {entries : List WireBlock} (h : Falling entries) {e e' : WireBlock}
    (he : e ∈ entries) (he' : e' ∈ entries) {height : Int}
    (hheight : parseI64 e.height = some height)
    (hheight' : parseI64 e'.height = some height) : e = e' := by
  have hnever : ∀ u v : WireBlock, u.Above v → parseI64 u.height = some height →
      parseI64 v.height ≠ some height := by
    rintro u v ⟨k, k', hk, hk', hlt⟩ hu hv
    obtain rfl := Option.some.inj (hk.symm.trans hu)
    obtain rfl := Option.some.inj (hk'.symm.trans hv)
    exact lt_irrefl _ hlt
  exact List.Pairwise.forall_of_forall_of_flip
    (R := fun u v => parseI64 u.height = some height → parseI64 v.height = some height → u = v)
    (fun _ _ _ _ => rfl) (h.imp fun hlt hu hv => absurd hv (hnever _ _ hlt hu))
    (h.imp fun hlt hv hu => absurd hv (hnever _ _ hlt hu)) he he' hheight hheight'

section Entries

variable {b : Block} {rows : List Block}

theorem shows_ofBlock (hnonneg : 0 ≤ b.height) (hmax : b.height ≤ i64Max) :
    (WireBlock.ofBlock b).Shows b where
  height := parseI64_repr (by unfold i64Min; omega) hmax
  hash := rfl
  parentHash := rfl
  timestamp := rfl
  validator := rfl
  gasUsed := rfl
  gasLimit := rfl
  baseFee := rfl
  txCount := rfl
  stateRoot := rfl
  round := rfl

variable (hheights : ∀ b ∈ rows, 0 ≤ b.height ∧ b.height ≤ i64Max)
include hheights

/-- Blocks in descending order are shown with falling heights. -/
theorem falling_ofBlock (hdesc : Descending Block.height rows) :
    Falling (rows.map .ofBlock) := by
  refine List.pairwise_map.mpr (List.Pairwise.imp_of_mem (fun {a b} ha hb hlt => ?_) hdesc)
  have hshows := fun {b} (hb : b ∈ rows) => shows_ofBlock (hheights b hb).1 (hheights b hb).2
  exact ⟨a.height, b.height, (hshows ha).height, (hshows hb).height, hlt⟩

/-- Each of them is shown by exactly one entry. -/
theorem existsUnique_shows (hdesc : Descending Block.height rows) (hb : b ∈ rows) :
    ∃! e, e ∈ rows.map WireBlock.ofBlock ∧ e.Shows b := by
  have hshows := shows_ofBlock (hheights b hb).1 (hheights b hb).2
  have hmem : WireBlock.ofBlock b ∈ rows.map WireBlock.ofBlock := List.mem_map_of_mem hb
  refine ⟨.ofBlock b, ⟨hmem, hshows⟩, fun e he => ?_⟩
  exact (falling_ofBlock hheights hdesc).eq_of_height he.1 hmem he.2.height hshows.height

end Entries

/-! ### The blocks from a height down -/

/-- The blocks from a height down, newest first. -/
def blocksDown (s : Store) (h : Int) : List Block :=
  orderByDesc Block.height (s.blocks.rows.filter fun r => r.height ≤ h)

section Stores

variable {s s' : Store} {h h' : Int}

theorem descending_blocksDown (s : Store) (h : Int) : Descending Block.height (blocksDown s h) :=
  descending_orderByDesc (s.blocks.nodup.sublist (List.filter_sublist.map _))

theorem mem_blocksDown {b : Block} : b ∈ blocksDown s h ↔ b ∈ s.blocks.rows ∧ b.height ≤ h := by
  unfold blocksDown
  rw [mem_orderByDesc, List.mem_filter]
  simp

/-- Two lists of blocks from a height down are one if they have the same blocks. -/
theorem Descending.eq_blocksDown {l : List Block} (hl : Descending Block.height l)
    (hmem : ∀ b, b ∈ l ↔ b ∈ blocksDown s h) : l = blocksDown s h := by
  have hnodup : ∀ {l : List Block}, Descending Block.height l → l.Nodup := fun hl =>
    List.Pairwise.imp (fun hlt heq => by rw [heq] at hlt; exact lt_irrefl _ hlt) hl
  exact hl.eq_of_perm (descending_blocksDown s h)
    ((List.perm_ext_iff_of_nodup (hnodup hl) (hnodup (descending_blocksDown s h))).mpr hmem)

/-- Stores that agree up to a height have the same blocks from there down. -/
theorem blocksDown_congr (hagree : ∀ k ≤ h, s'.blocks.find? k = s.blocks.find? k) :
    blocksDown s' h = blocksDown s h := by
  refine Descending.eq_blocksDown (descending_blocksDown s' h) fun b => ?_
  rw [mem_blocksDown, mem_blocksDown, Table.mem_rows, Table.mem_rows]
  constructor
  · intro hb
    exact ⟨(hagree _ hb.2).symm.trans hb.1, hb.2⟩
  · intro hb
    exact ⟨(hagree _ hb.2).trans hb.1, hb.2⟩

/-- What is left below the last block of a page. -/
theorem blocksDown_pred {n : Nat} {b : Block} (hb : ((blocksDown s h).take n).getLast? = some b) :
    blocksDown s (b.height - 1) = (blocksDown s h).drop n := by
  have hdesc := descending_blocksDown s h
  have hmem : b ∈ blocksDown s h := List.mem_of_mem_take (List.mem_of_getLast? hb)
  have hle := (mem_blocksDown.mp hmem).2
  rw [← hdesc.filter_lt_last hb]
  refine (Descending.eq_blocksDown (hdesc.filter _) fun u => ?_).symm
  rw [List.mem_filter, mem_blocksDown, mem_blocksDown]
  simp only [decide_eq_true_eq]
  constructor
  · intro hu
    exact ⟨hu.1.1, by omega⟩
  · intro hu
    exact ⟨⟨hu.1, by omega⟩, by omega⟩

end Stores

section Walk

variable {stores : Nat → Store} {limit : Option String} {start : Int}

/-- The pages list these blocks, and none has more than the limit. -/
structure Lists (limit : Option String) (rows : List Block) (pages : List ListResponse) : Prop where
  size : ∀ page ∈ pages, (page.blocks.length : Int) ≤ clampLimit limit
  blocks : pages.flatMap ListResponse.blocks = rows.map .ofBlock

/-- No page has more blocks than the limit. -/
theorem length_page (limit : Option String) (rows : List Block) :
    ((ListResponse.ofRows (rows.take (clampLimit limit).toNat)).blocks.length : Int) ≤
      clampLimit limit := by
  have hlimit := clampLimit_bounds limit
  have hlength : (rows.take (clampLimit limit).toNat).length ≤ (clampLimit limit).toNat :=
    List.length_take_le _ _
  show ((List.map _ _).length : Int) ≤ _
  rw [List.length_map]
  omega

/-- The last page. -/
theorem lists_single (limit : Option String) (rows : List Block) :
    Lists limit (rows.take (clampLimit limit).toNat)
      [.ofRows (rows.take (clampLimit limit).toNat)] where
  size page hp := by
    rw [List.mem_singleton.mp hp]
    exact length_page limit rows
  blocks := List.flatMap_singleton ..

/-- One page, and the pages after it. -/
theorem Lists.cons {below : List Block} {pages : List ListResponse}
    (h : Lists limit below pages) (rows : List Block) :
    Lists limit (rows.take (clampLimit limit).toNat ++ below)
      (.ofRows (rows.take (clampLimit limit).toNat) :: pages) where
  size page hp := by
    rcases List.mem_cons.mp hp with rfl | hrest
    · exact length_page limit rows
    · exact h.size page hrest
  blocks := by
    rw [List.flatMap_cons, h.blocks, List.map_append]
    rfl

/-- A page whose last block is above the genesis block has a cursor, right below it. -/
theorem nextCursor_eq_some {rows : List Block} {b : Block} (hlast : rows.getLast? = some b)
    (hpos : 0 < b.height) : (ListResponse.ofRows rows).nextCursor = some (b.height - 1).repr := by
  simp [ListResponse.ofRows, hlast, hpos]

/-- The others have none. -/
theorem nextCursor_eq_none {rows : List Block} (hlast : ∀ b ∈ rows.getLast?, b.height ≤ 0) :
    (ListResponse.ofRows rows).nextCursor = none := by
  cases hrows : rows.getLast? with
  | none => simp [ListResponse.ofRows, hrows]
  | some b => simp [ListResponse.ofRows, hrows, hlast b hrows]

/-- A page from a height down. -/
theorem listBlocks_before {s : Store} {text : String} {h : Int} (hparsed : parseI64 text = some h) :
    listBlocks s ⟨limit, some text⟩ =
      .ok (.ofRows ((blocksDown s h).take (clampLimit limit).toNat)) := by
  unfold listBlocks BlocksQuery.parseBefore
  simp only
  rw [hparsed]
  rfl

/-- The page such a cursor asks for. -/
theorem listBlocks_below (limit : Option String) (s : Store) {b : Block} (hpos : 0 < b.height)
    (hmax : b.height ≤ i64Max) :
    listBlocks s ⟨limit, some (b.height - 1).repr⟩ =
      .ok (.ofRows ((blocksDown s (b.height - 1)).take (clampLimit limit).toNat)) :=
  listBlocks_before (parseI64_repr (by unfold i64Min; omega) (by omega))

/-- The walk ends with a page that has no cursor. -/
theorem followPages_stop {k : Nat} {before : Option String} {page : ListResponse}
    (hpage : listBlocks (stores k) ⟨limit, before⟩ = .ok page) (hcursor : page.nextCursor = none) :
    followPages stores limit 1 k before = some [page] := by
  unfold followPages
  rw [hpage, Except.toOption, Option.bind_eq_bind, Option.bind_some, hcursor]
  rfl

/-- It goes on with the cursor of a page that has one. -/
theorem followPages_next {fuel k : Nat} {before : Option String} {page : ListResponse}
    {cursor : String} {pages : List ListResponse}
    (hpage : listBlocks (stores k) ⟨limit, before⟩ = .ok page)
    (hcursor : page.nextCursor = some cursor)
    (hrest : followPages stores limit fuel (k + 1) (some cursor) = some pages) :
    followPages stores limit (fuel + 1) k before = some (page :: pages) := by
  rw [followPages, hpage, Except.toOption, Option.bind_eq_bind, Option.bind_some, hcursor]
  show (followPages stores limit fuel (k + 1) (some cursor) >>= _) = _
  rw [hrest]
  rfl

/-- A page that is the last. -/
theorem followPages_last {before : Option String} {k : Nat} {rows : List Block}
    (hpage : listBlocks (stores k) ⟨limit, before⟩ =
      .ok (.ofRows (rows.take (clampLimit limit).toNat)))
    (hlast : (ListResponse.ofRows (rows.take (clampLimit limit).toNat)).nextCursor = none)
    (hall : rows.take (clampLimit limit).toNat = rows) :
    ∃ fuel pages, followPages stores limit fuel k before = some pages ∧ Lists limit rows pages := by
  have hsingle := lists_single limit rows
  rw [hall] at hsingle
  rw [hall] at hpage hlast
  exact ⟨1, _, followPages_stop hpage hlast, hsingle⟩

/-- **The pages from any height down**, by the number of blocks there. -/
theorem followPages_down (hheights : ∀ k, ∀ b ∈ (stores k).blocks.rows,
      0 ≤ b.height ∧ b.height ≤ i64Max)
    (hagree : ∀ k, ∀ h ≤ start, (stores k).blocks.find? h = (stores 0).blocks.find? h) :
    ∀ (count : Nat) (h : Int) (k : Nat) (before : Option String),
      (blocksDown (stores 0) h).length = count → h ≤ start →
      listBlocks (stores k) ⟨limit, before⟩ =
        .ok (.ofRows ((blocksDown (stores 0) h).take (clampLimit limit).toNat)) →
      ∃ fuel pages, followPages stores limit fuel k before = some pages ∧
        Lists limit (blocksDown (stores 0) h) pages := by
  intro count
  induction count using Nat.strong_induction_on with
  | _ count ih =>
      intro h k before hcount hstart hpage
      have hlimit := (clampLimit_bounds limit).1
      cases hlast : ((blocksDown (stores 0) h).take (clampLimit limit).toNat).getLast? with
      | none =>
          refine followPages_last hpage (nextCursor_eq_none (by simp [hlast])) ?_
          have hempty := List.getLast?_eq_none_iff.mp hlast
          rcases List.take_eq_nil_iff.mp hempty with hzero | hnil
          · omega
          · rw [hnil, List.take_nil]
      | some b =>
          have hleft := blocksDown_pred hlast
          have hmem : b ∈ blocksDown (stores 0) h :=
            List.mem_of_mem_take (List.mem_of_getLast? hlast)
          obtain ⟨hrow, hle⟩ := mem_blocksDown.mp hmem
          obtain ⟨hnonneg, hmax⟩ := hheights 0 b hrow
          by_cases hpos : 0 < b.height
          · -- The next page starts below `b`, with fewer blocks left.
            have hnext : listBlocks (stores (k + 1)) ⟨limit, some (b.height - 1).repr⟩ =
                .ok (.ofRows ((blocksDown (stores 0) (b.height - 1)).take
                  (clampLimit limit).toNat)) := by
              have hsame : blocksDown (stores (k + 1)) (b.height - 1) =
                  blocksDown (stores 0) (b.height - 1) :=
                blocksDown_congr fun j hj => hagree (k + 1) j (by omega)
              rw [← hsame]
              exact listBlocks_below _ _ hpos hmax
            have hfewer : (blocksDown (stores 0) (b.height - 1)).length < count := by
              have hsome : 0 < (blocksDown (stores 0) h).length := List.length_pos_of_mem hmem
              rw [hleft, List.length_drop]
              omega
            obtain ⟨fuel, pages, hwalk, hlists⟩ := ih _ hfewer _ (k + 1) _ rfl (by omega) hnext
            have hmore := hlists.cons (blocksDown (stores 0) h)
            rw [hleft, List.take_append_drop] at hmore
            exact ⟨fuel + 1, _, followPages_next hpage (nextCursor_eq_some hlast hpos) hwalk, hmore⟩
          · -- Nothing lies below the genesis block.
            have hgenesis : ∀ u ∈ ((blocksDown (stores 0) h).take
                (clampLimit limit).toNat).getLast?, u.height ≤ 0 :=
              fun u hu => Option.mem_unique hlast hu ▸ not_lt.mp hpos
            refine followPages_last hpage (nextCursor_eq_none hgenesis) ?_
            have hnone : blocksDown (stores 0) (b.height - 1) = [] := by
              refine List.eq_nil_iff_forall_not_mem.mpr fun u hu => ?_
              obtain ⟨hu, hbelow⟩ := mem_blocksDown.mp hu
              have := (hheights 0 u hu).1
              omega
            rw [hleft] at hnone
            rw [← List.append_nil (List.take _ _), ← hnone, List.take_append_drop]

end Walk

/-- Where the client starts: at the height it names, else at the top of what is there. -/
def StartsAt (s : Store) (before : Option String) (start : Int) : Prop :=
  match before with
  | none => ∀ b ∈ s.blocks.rows, b.height ≤ start
  | some text => parseI64 text = some start

/-- **The first page.** -/
theorem listBlocks_first {s : Store} {limit before : Option String} {start : Int}
    (hstart : StartsAt s before start) :
    listBlocks s ⟨limit, before⟩ =
      .ok (.ofRows ((blocksDown s start).take (clampLimit limit).toNat)) := by
  cases before with
  | none =>
      have hall : s.blocks.rows.filter (fun r => r.height ≤ start) = s.blocks.rows :=
        List.filter_eq_self.mpr fun b hb => decide_eq_true (hstart b hb)
      unfold blocksDown
      rw [hall]
      rfl
  | some text => exact listBlocks_before hstart

/-- **Pagination is exact**: following the cursors ends, and what the pages show is every block
from the start down, each once, its height below those before it, whatever is appended above
the start meanwhile. -/
theorem pages_list_every_block {stores : Nat → Store} {q : BlocksQuery} {start : Int}
    (hheights : ∀ k, ∀ b ∈ (stores k).blocks.rows, 0 ≤ b.height ∧ b.height ≤ i64Max)
    (hstart : StartsAt (stores 0) q.before start)
    (hagree : ∀ k, ∀ h ≤ start, (stores k).blocks.find? h = (stores 0).blocks.find? h) :
    ∃ (fuel : Nat) (pages : List ListResponse),
      followPages stores q.limit fuel 0 q.before = some pages ∧
      (∀ page ∈ pages, (page.blocks.length : Int) ≤ clampLimit q.limit) ∧
      (1 ≤ clampLimit q.limit ∧ clampLimit q.limit ≤ 100) ∧
      Falling (pages.flatMap ListResponse.blocks) ∧
      (∀ e ∈ pages.flatMap ListResponse.blocks,
        ∃ b ∈ (stores 0).blocks.rows, b.height ≤ start ∧ e.Shows b) ∧
      ∀ b ∈ (stores 0).blocks.rows, b.height ≤ start →
        ∃! e, e ∈ pages.flatMap ListResponse.blocks ∧ e.Shows b := by
  obtain ⟨limit, before⟩ := q
  obtain ⟨fuel, pages, hwalk, hlists⟩ :=
    followPages_down hheights hagree _ start 0 before rfl (le_refl start)
      (listBlocks_first hstart)
  have hdesc := descending_blocksDown (stores 0) start
  have hdown : ∀ b ∈ blocksDown (stores 0) start, 0 ≤ b.height ∧ b.height ≤ i64Max :=
    fun b hb => hheights 0 b (mem_blocksDown.mp hb).1
  refine ⟨fuel, pages, hwalk, hlists.size, clampLimit_bounds limit, ?_, fun e he => ?_,
    fun b hb hle => ?_⟩
  · rw [hlists.blocks]
    exact falling_ofBlock hdown hdesc
  · rw [hlists.blocks] at he
    obtain ⟨b, hb, rfl⟩ := List.mem_map.mp he
    obtain ⟨hrow, hle⟩ := mem_blocksDown.mp hb
    exact ⟨b, hrow, hle, shows_ofBlock (hdown b hb).1 (hdown b hb).2⟩
  · rw [hlists.blocks]
    exact existsUnique_shows hdown hdesc (mem_blocksDown.mpr ⟨hb, hle⟩)

/-- A block with a height and a hash. -/
def plainBlock (height : Int) (hash : Hash) : Block where
  height := height
  hash := hash
  parentHash := "0x"
  timestamp := height
  validator := "0xval"
  gasUsed := 0
  gasLimit := 0
  baseFee := none
  txCount := 0
  stateRoot := none
  round := 0
  justificationSigners := []

/-- Three blocks with a gap, and a fourth that comes after the first page. -/
def growingBlocks : Nat → List Block
  | 0 => [plainBlock 0 "0xa", plainBlock 3 "0xb", plainBlock 4 "0xc"]
  | _ + 1 => [plainBlock 0 "0xa", plainBlock 3 "0xb", plainBlock 4 "0xc", plainBlock 5 "0xd"]

def growing (k : Nat) : Store :=
  { Store.empty with blocks := Table.insertAll .empty (growingBlocks k) }

theorem pages_list_every_block_growing :
    ∃ (fuel : Nat) (pages : List ListResponse),
      followPages growing (some "2") fuel 0 none = some pages ∧
      (∀ page ∈ pages, (page.blocks.length : Int) ≤ clampLimit (some "2")) ∧
      (1 ≤ clampLimit (some "2") ∧ clampLimit (some "2") ≤ 100) ∧
      Falling (pages.flatMap ListResponse.blocks) ∧
      (∀ e ∈ pages.flatMap ListResponse.blocks,
        ∃ b ∈ (growing 0).blocks.rows, b.height ≤ 4 ∧ e.Shows b) ∧
      ∀ b ∈ (growing 0).blocks.rows, b.height ≤ 4 →
        ∃! e, e ∈ pages.flatMap ListResponse.blocks ∧ e.Shows b := by
  refine pages_list_every_block (q := ⟨some "2", none⟩) (fun k b hb => ?_) (fun b hb => ?_)
    fun k h hh => ?_
  · rcases k with _ | k
    · revert b
      decide
    · have hrows : (growing (k + 1)).blocks = (growing 1).blocks := rfl
      rw [hrows] at hb
      revert b
      decide
  · revert b
    decide
  · rcases k with _ | k
    · rfl
    · have hnew : (5 : Int) ≠ h := by omega
      simp [growing, growingBlocks, plainBlock, hnew]

end SentrixIndexer
