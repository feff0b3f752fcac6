/-
List queries over rows in any order.

A table has no order of its own, and rows that share a sort key come as the database likes.
What a query answers is a function of the contents exactly when no two of the rows it selects
tie before its page is full.  Several transactions of one block do, and so do equal values,
counts and times; the queries that add a second column to their order avoid it.
-/
import Mathlib.Order.Bounds.Defs
import SentrixIndexer.Api.Etherscan
import SentrixIndexer.Api.Lists

namespace SentrixIndexer

open Relational Numeric Etherscan

/-- The same tables, their rows in another order. -/
structure Reordered (s s' : Store) : Prop where
  blocks : s.blocks.rows.Perm s'.blocks.rows
  transactions : s.transactions.rows.Perm s'.transactions.rows
  tokenTransfers : s.tokenTransfers.rows.Perm s'.tokenTransfers.rows

theorem Reordered.refl (s : Store) : Reordered s s := ⟨.refl _, .refl _, .refl _⟩

/-- Whatever the order of the rows, there is one result, and it is right. -/
def OrderFree {R : Type} (s : Store) (result : Store → R → Prop) (right : R → Prop) : Prop :=
  ∃ r, right r ∧ ∀ s', Reordered s s' → ∀ r', result s' r' ↔ r' = r

theorem orderFree_iff {R : Type} {s : Store} {result : Store → R → Prop} {right : R → Prop}
    {settles : Prop} (horder : ∀ {s'}, Reordered s s' → ∀ r, result s' r ↔ result s r)
    (hunique : (∃! r, result s r) ↔ settles) (hright : settles → ∀ r, result s r → right r) :
    OrderFree s result right ↔ settles := by
  constructor
  · intro h
    obtain ⟨r, -, hr⟩ := h
    exact hunique.mp ⟨r, (hr s (.refl s) r).mpr rfl, fun r' => (hr s (.refl s) r').mp⟩
  · intro hsettles
    obtain ⟨r, hr, hothers⟩ := hunique.mpr hsettles
    refine ⟨r, hright hsettles r hr, ?_⟩
    intro s' hs r'
    rw [horder hs]
    exact ⟨hothers r', fun h => h ▸ hr⟩

/-! ### Pages of the tables -/

section Orders

variable {s s' : Store} (hs : Reordered s s')

include hs

theorem Transactions.ofAddress_perm (addr : Address) :
    (ofAddress s' addr).Perm (ofAddress s addr) := (hs.transactions.filter _).symm

theorem TokenTransfers.ofAddressNamed_perm (addr : Address) (standard : Option String) :
    (ofAddressNamed s' addr standard).Perm (ofAddressNamed s addr standard) :=
  ((hs.tokenTransfers.filter _).filter _).symm

theorem Transactions.senderCounts_perm : (senderCounts s').Perm (senderCounts s) := by
  have hsenders := (hs.transactions.map Transaction.fromAddr).symm
  unfold senderCounts
  simp only [hsenders.count_eq]
  exact hsenders.dedup.map _

theorem Transactions.withBlock_perm : (withBlock s').Perm (withBlock s) :=
  hs.transactions.symm.flatMap fun _ _ => (hs.blocks.symm.filter _).map _

theorem Blocks.besideTime_perm (after : Bool) (ts : Int) :
    (besideTime s' after ts).Perm (besideTime s after ts) := (hs.blocks.filter _).symm

end Orders

/-- **A page of a table** has one result exactly when nothing ties within it. -/
theorem orderFree_page {V κ : Type} [LinearOrder κ] {s : Store} {rows : Store → List V}
    {key : V → κ} {limit : Int} (hperm : ∀ {s'}, Reordered s s' → (rows s').Perm (rows s)) :
    OrderFree s (fun s => PageOf key limit (rows s)) (FirstPage key limit (rows s)) ↔
      ¬ Tied key limit (rows s) :=
  orderFree_iff (fun hs _ => pageOf_perm (hperm hs)) existsUnique_pageOf fun _ _ => PageOf.firstPage

/-! ### Joined rows -/

namespace Transactions

variable {s : Store}

theorem mem_withBlock {row : Transaction × Block} : row ∈ withBlock s ↔
    row.1 ∈ s.transactions.rows ∧ row.2 ∈ s.blocks.rows ∧ row.2.height = row.1.blockHeight := by
  obtain ⟨t, b⟩ := row
  simp [withBlock]

/-- The hash is in the row shown, so the rows can be told apart. -/
theorem topTxRow_inj {row row' : Transaction × Block} (h : row ∈ withBlock s)
    (h' : row' ∈ withBlock s) (heq : topTxRow row = topTxRow row') : row = row' := by
  obtain ⟨ht, hb, hheight⟩ := mem_withBlock.mp h
  obtain ⟨ht', hb', hheight'⟩ := mem_withBlock.mp h'
  have htx : row.1 = row'.1 :=
    List.inj_on_of_nodup_map s.transactions.nodup ht ht' (congrArg TopTxRow.hash heq)
  have hblock : row.2 = row'.2 :=
    List.inj_on_of_nodup_map s.blocks.nodup hb hb' (by rw [hheight, hheight', htx])
  exact Prod.ext htx hblock

/-- A page of joined rows, as it is shown. -/
def TopShown (s : Store) (limit : Int) (result : Option (List TopTxRow)) : Prop :=
  ∃ page, FirstPage valueRank limit (withBlock s) page ∧ result = page.map (List.map topTxRow)

theorem orderFree_topByValue {limit : Int} :
    OrderFree s (fun s => TopByValue s limit) (TopShown s limit) ↔
      ¬ Tied valueRank limit (withBlock s) := by
  refine orderFree_iff ?_ ?_ ?_
  · intro s' hs r
    unfold TopByValue
    simp only [pageOf_perm (withBlock_perm hs)]
  · exact existsUnique_shown fun _ h _ h' => topTxRow_inj h h'
  · intro _ r h
    obtain ⟨page, hpage, rfl⟩ := h
    exact ⟨page, hpage.firstPage, rfl⟩

end Transactions

/-! ### The block nearest to a time -/

namespace Blocks

variable {s : Store} {after : Bool} {ts : Int}

/-- The time does not go back from a block to a higher one. -/
def TimesFollow (s : Store) : Prop :=
  ∀ b ∈ s.blocks.rows, ∀ c ∈ s.blocks.rows, b.height ≤ c.height → b.timestamp ≤ c.timestamp

def heightsBeside (s : Store) (after : Bool) (ts : Int) : Set Int :=
  {h | ∃ b ∈ besideTime s after ts, b.height = h}

/-- The lowest height at or after the time, or the highest at or before it, or none at all. -/
def Nearest (s : Store) (after : Bool) (ts : Int) : Option Int → Prop
  | some h =>
      if after then IsLeast (heightsBeside s true ts) h else IsGreatest (heightsBeside s false ts) h
  | none => besideTime s after ts = []

theorem byTime_iff {row : Option Int} : ByTime s after ts row ↔
    ∃ page, PageOf (timeRank after) 1 (besideTime s after ts) page ∧
      row = (page.bind List.head?).map Block.height := by
  constructor
  · intro h
    obtain ⟨page, hpage, rfl⟩ := h
    exact ⟨some page, hpage, rfl⟩
  · intro h
    obtain ⟨page, hpage, rfl⟩ := h
    cases page with
    | none =>
        have hlimit : (1 : Int) < 0 := hpage.firstPage
        omega
    | some page => exact ⟨page, hpage, rfl⟩

theorem exists_byTime (s : Store) (after : Bool) (ts : Int) : ∃ row, ByTime s after ts row := by
  obtain ⟨page, hpage⟩ := exists_pageOf (timeRank after) 1 (besideTime s after ts)
  exact ⟨_, byTime_iff.mpr ⟨page, hpage, rfl⟩⟩

theorem besideTime_subset : besideTime s after ts ⊆ s.blocks.rows := List.filter_subset_self _

/-- A page of one row at most is its head. -/
theorem page_eq_head {page : List Block}
    (h : PageOf (timeRank after) 1 (besideTime s after ts) (some page)) :
    page = page.head?.toList := by
  have hlength : page.length ≤ 1 := h.firstPage.2.length ▸ Nat.min_le_left _ _
  cases page with
  | nil => rfl
  | cons b rest =>
      have hrest : rest.length = 0 := by simpa using hlength
      rw [List.eq_nil_of_length_eq_zero hrest]
      rfl

/-- So it is known by a height. -/
theorem page_eq_of_height {page page' : List Block}
    (h : PageOf (timeRank after) 1 (besideTime s after ts) (some page))
    (h' : PageOf (timeRank after) 1 (besideTime s after ts) (some page'))
    (heq : page.head?.map Block.height = page'.head?.map Block.height) : page = page' := by
  have hinj : ∀ b ∈ besideTime s after ts, ∀ c ∈ besideTime s after ts,
      b.height = c.height → b = c := fun b hb c hc =>
    List.inj_on_of_nodup_map s.blocks.nodup (besideTime_subset hb) (besideTime_subset hc)
  refine map_inj_of_subset hinj h.subset h'.subset ?_
  rw [page_eq_head h, page_eq_head h', ← Option.toList_map, ← Option.toList_map, heq]

theorem existsUnique_byTime : (∃! row, ByTime s after ts row) ↔
    ¬ Tied (timeRank after) 1 (besideTime s after ts) := by
  simp only [byTime_iff]
  refine (existsUnique_image ?_).trans existsUnique_pageOf
  intro page page' h h' heq
  cases page with
  | none => exact absurd (show (1 : Int) < 0 from h.firstPage) (by decide)
  | some page =>
      cases page' with
      | none => exact absurd (show (1 : Int) < 0 from h'.firstPage) (by decide)
      | some page' => rw [page_eq_of_height h h' heq]

/-- **The one row is the nearest block** if the time does not go back. -/
theorem ByTime.nearest {row : Option Int} (h : ByTime s after ts row)
    (htied : ¬ Tied (timeRank after) 1 (besideTime s after ts)) (htimes : TimesFollow s) :
    Nearest s after ts row := by
  obtain ⟨page, hpage, rfl⟩ := h
  cases page with
  | nil =>
      have hlength := hpage.firstPage.2.length
      show besideTime s after ts = []
      refine List.eq_nil_of_length_eq_zero ?_
      simp only [List.length_nil] at hlength
      omega
  | cons b rest =>
      have hb : b ∈ besideTime s after ts := hpage.subset (List.mem_cons_self ..)
      have habove : ∀ c ∈ besideTime s after ts, c ≠ b → timeRank after c < timeRank after b :=
        fun c hc hne => hpage.head_above htied (List.mem_cons_self ..) hc hne
      have hfollow := htimes b (besideTime_subset hb)
      cases after with
      | false =>
          refine ⟨⟨b, hb, rfl⟩, ?_⟩
          rintro h ⟨c, hc, rfl⟩
          by_cases hne : c = b
          · exact hne ▸ le_rfl
          · by_contra hlt
            have hearlier := habove c hc hne
            have hlater := hfollow c (besideTime_subset hc) (by omega)
            simp only [timeRank, Bool.false_eq_true, if_false] at hearlier
            omega
      | true =>
          refine ⟨⟨b, hb, rfl⟩, ?_⟩
          rintro h ⟨c, hc, rfl⟩
          by_cases hne : c = b
          · exact hne ▸ le_rfl
          · by_contra hlt
            have hlater := habove c hc hne
            have hearlier := htimes c (besideTime_subset hc) b (besideTime_subset hb) (by omega)
            simp only [timeRank, if_true] at hlater
            omega

end Blocks

namespace Etherscan

variable {q : EsQuery} {after : Bool} {ts : Int} {s : Store}

/-- The side and the time the query asks about. -/
def timeAsked (q : EsQuery) : Option (Bool × Int) :=
  (q.timestamp.bind parseI64).map fun ts => (decide (q.closest = some "after"), ts)

/-- What `getblocknobytime` may answer as long as the database does. -/
def BlockAnswer (s : Store) (q : EsQuery) (answer : EsEnvelope) : Prop :=
  ∃ byTime : Bool → Int → Option Int, (∀ after ts, Blocks.ByTime s after ts (byTime after ts)) ∧
    answer = getblocknobytime (fun after ts => .ok (byTime after ts)) q

/-- The answer is made of the nearest block. -/
def BlockRight (s : Store) (q : EsQuery) (answer : EsEnvelope) : Prop :=
  ∀ after ts, timeAsked q = some (after, ts) → Blocks.TimesFollow s →
    ∃ row, Blocks.Nearest s after ts row ∧ answer = getblocknobytime (fun _ _ => .ok row) q

/-- Two blocks on the side asked about have the time nearest to the one given. -/
def TimeTied (s : Store) (q : EsQuery) : Prop :=
  ∃ after ts, timeAsked q = some (after, ts) ∧
    Tied (Blocks.timeRank after) 1 (Blocks.besideTime s after ts)

theorem timeAsked_eq_some (h : timeAsked q = some (after, ts)) : ∃ tsStr,
    q.timestamp = some tsStr ∧ parseI64 tsStr = some ts ∧
      decide (q.closest.getD "before" = "after") = after := by
  obtain ⟨n, hn, hpair⟩ := Option.map_eq_some_iff.mp h
  obtain ⟨tsStr, hts, hparse⟩ := Option.bind_eq_some_iff.mp hn
  simp only [Prod.mk.injEq] at hpair
  obtain ⟨rfl, rfl⟩ := hpair
  refine ⟨tsStr, hts, hparse, ?_⟩
  rcases q.closest with _ | closest
  · simp
  · simp

/-- The one query made decides the answer, -/
theorem getblocknobytime_asked (h : timeAsked q = some (after, ts))
    (byTime : Bool → Int → Except DbError (Option Int)) :
    getblocknobytime byTime q = getblocknobytime (fun _ _ => byTime after ts) q := by
  obtain ⟨tsStr, hts, hparse, hafter⟩ := timeAsked_eq_some h
  unfold getblocknobytime
  simp only [hts, hparse, hafter]

/-- and none is made if the time is missing or no integer. -/
theorem getblocknobytime_unasked (h : timeAsked q = none)
    (byTime byTime' : Bool → Int → Except DbError (Option Int)) :
    getblocknobytime byTime q = getblocknobytime byTime' q := by
  have hnone : q.timestamp.bind parseI64 = none := Option.map_eq_none_iff.mp h
  unfold getblocknobytime
  cases hts : q.timestamp with
  | none => rfl
  | some tsStr =>
      rw [hts, Option.bind_some] at hnone
      simp only [hnone]

/-- An answer tells the height. -/
theorem getblocknobytime_inj (h : timeAsked q = some (after, ts)) {row row' : Option Int}
    (heq : getblocknobytime (fun _ _ => .ok row) q = getblocknobytime (fun _ _ => .ok row') q) :
    row = row' := by
  obtain ⟨tsStr, hts, hparse, -⟩ := timeAsked_eq_some h
  unfold getblocknobytime at heq
  simp only [hts, hparse] at heq
  cases row with
  | none =>
      cases row' with
      | none => rfl
      | some height => simp [ok, err] at heq
  | some height =>
      cases row' with
      | none => simp [ok, err] at heq
      | some height' =>
          simp only [ok, EsEnvelope.mk.injEq, EsResult.text.injEq, true_and] at heq
          rw [repr_injective heq]

theorem blockAnswer_iff (h : timeAsked q = some (after, ts)) {answer : EsEnvelope} :
    BlockAnswer s q answer ↔ ∃ row, Blocks.ByTime s after ts row ∧
      answer = getblocknobytime (fun _ _ => .ok row) q := by
  constructor
  · intro hanswer
    obtain ⟨byTime, hbyTime, rfl⟩ := hanswer
    exact ⟨byTime after ts, hbyTime after ts, getblocknobytime_asked h _⟩
  · intro hanswer
    obtain ⟨row, hrow, rfl⟩ := hanswer
    choose others hothers using Blocks.exists_byTime s
    refine ⟨fun a t => if a = after ∧ t = ts then row else others a t, ?_, ?_⟩
    · intro a t
      dsimp only
      split
      · rename_i hsame
        rw [hsame.1, hsame.2]
        exact hrow
      · exact hothers a t
    · rw [getblocknobytime_asked h fun a t => .ok (if a = after ∧ t = ts then row else others a t)]
      simp

/-- **`getblocknobytime` has one answer**, that of the nearest block, exactly when no two blocks
tie for it. -/
theorem orderFree_getblocknobytime :
    OrderFree s (fun s => BlockAnswer s q) (BlockRight s q) ↔ ¬ TimeTied s q := by
  refine orderFree_iff ?_ ?_ ?_
  · intro s' hs answer
    have hrows : ∀ after ts row, Blocks.ByTime s' after ts row ↔ Blocks.ByTime s after ts row := by
      intro after ts row
      unfold Blocks.ByTime
      simp only [pageOf_perm (Blocks.besideTime_perm hs after ts)]
    unfold BlockAnswer
    simp only [hrows]
  · cases hasked : timeAsked q with
    | none =>
        have huntied : ¬ TimeTied s q := by
          rintro ⟨after, ts, hts, -⟩
          rw [hasked] at hts
          exact absurd hts (by simp)
        refine ⟨fun _ => huntied, fun _ => ?_⟩
        choose byTime hbyTime using Blocks.exists_byTime s
        refine ⟨_, ⟨byTime, hbyTime, rfl⟩, ?_⟩
        rintro answer ⟨byTime', -, rfl⟩
        exact getblocknobytime_unasked hasked _ _
    | some asked =>
        obtain ⟨after, ts⟩ := asked
        simp only [blockAnswer_iff hasked]
        refine (existsUnique_image fun _ _ _ _ => getblocknobytime_inj hasked).trans ?_
        rw [Blocks.existsUnique_byTime]
        simp only [TimeTied, hasked, Option.some.injEq, Prod.mk.injEq]
        constructor
        · rintro h ⟨_, _, ⟨rfl, rfl⟩, htied⟩
          exact h htied
        · intro h htied
          exact h ⟨after, ts, ⟨rfl, rfl⟩, htied⟩
  · intro huntied answer hanswer after ts hasked htimes
    obtain ⟨row, hrow, rfl⟩ := (blockAnswer_iff hasked).mp hanswer
    exact ⟨row, hrow.nearest (fun htied => huntied ⟨after, ts, hasked, htied⟩) htimes, rfl⟩

end Etherscan

/-! ### The five queries -/

/-- **A list query answers by the contents of the tables alone, with the first rows, exactly when
no two rows it selects tie before its page is full.** -/
theorem list_queries_order_free (s : Store) (addr : Address) (standard : Option String)
    (limit : Int) (q : EsQuery) :
    (OrderFree s (fun s => Transactions.ForAddress s addr limit)
        (FirstPage Transaction.blockHeight limit (Transactions.ofAddress s addr)) ↔
      ¬ Tied Transaction.blockHeight limit (Transactions.ofAddress s addr)) ∧
    (OrderFree s (fun s => Transactions.TopSenders s limit)
        (FirstPage Prod.snd limit (Transactions.senderCounts s)) ↔
      ¬ Tied Prod.snd limit (Transactions.senderCounts s)) ∧
    (OrderFree s (fun s => Transactions.TopByValue s limit) (Transactions.TopShown s limit) ↔
      ¬ Tied Transactions.valueRank limit (Transactions.withBlock s)) ∧
    (OrderFree s (fun s => TokenTransfers.ForAddress s addr standard limit)
        (FirstPage TokenTransfer.blockHeight limit
          (TokenTransfers.ofAddressNamed s addr standard)) ↔
      ¬ Tied TokenTransfer.blockHeight limit (TokenTransfers.ofAddressNamed s addr standard)) ∧
    (OrderFree s (fun s => BlockAnswer s q) (BlockRight s q) ↔ ¬ TimeTied s q) :=
  ⟨orderFree_page fun hs => Transactions.ofAddress_perm hs addr,
    orderFree_page Transactions.senderCounts_perm, Transactions.orderFree_topByValue,
    orderFree_page fun hs => TokenTransfers.ofAddressNamed_perm hs addr standard,
    orderFree_getblocknobytime⟩

/-! ### One block, two transactions -/

/-- A transfer of one address at some height. -/
def sentAt (height : Int) (hash : Hash) : Transaction where
  hash := hash
  blockHeight := height
  txIndex := 0
  fromAddr := "0xa"
  toAddr := some "0xb"
  value := 0
  gasLimit := 21000
  gasUsed := none
  gasPrice := none
  fee := 0
  nonce := 0
  data := none
  status := 1
  contractAddress := none
  txType := .evm

def firstBlock : Block where
  height := 1
  hash := "0xb1"
  parentHash := "0xb0"
  timestamp := 10
  validator := "0xc"
  gasUsed := 42000
  gasLimit := 30000000
  baseFee := none
  txCount := 2
  stateRoot := none
  round := 0
  justificationSigners := []

/-- Two transactions in the only block. -/
def twoSent : Store :=
  { Store.empty with
    blocks := ⟨[firstBlock], by decide⟩
    transactions := ⟨[sentAt 1 "0x1", sentAt 1 "0x2"], by decide⟩ }

/-- **Either transaction of a block may be the newest one of its sender.** -/
theorem newest_of_block_open : ¬ OrderFree twoSent (fun s => Transactions.ForAddress s "0xa" 1)
    (FirstPage Transaction.blockHeight 1 (Transactions.ofAddress twoSent "0xa")) := by
  intro h
  obtain ⟨r, -, hresult⟩ := h
  have hpage : ∀ l : List Transaction, l.Perm [sentAt 1 "0x1", sentAt 1 "0x2"] →
      NonAscending Transaction.blockHeight l → some (l.take 1) = r := fun l hl hdesc =>
    (hresult twoSent (.refl _) _).mp (.page (by decide) hl hdesc)
  have hfirst := hpage [sentAt 1 "0x1", sentAt 1 "0x2"] (.refl _) (by simp [NonAscending, sentAt])
  have hsecond := hpage [sentAt 1 "0x2", sentAt 1 "0x1"] (.swap ..) (by simp [NonAscending, sentAt])
  have heq := hfirst.trans hsecond.symm
  simp [sentAt] at heq

end SentrixIndexer
