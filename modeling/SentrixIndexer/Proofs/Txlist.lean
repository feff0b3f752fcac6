/-
What `txlist` honours.

The shim refuses the heights and the pages it cannot serve, by their spelling, and answers
whatever else it is asked.  So what it answers is the first page of everything the address has,
newest first, and that is what was asked for unless the query wants the oldest first.
-/
import SentrixIndexer.Proofs.RowOrder

namespace SentrixIndexer

open Relational Numeric

namespace Etherscan

/-! ### What a query asks for -/

/-- From `startblock` to `endblock`; no height is below the genesis block's. -/
def inRange (q : EsQuery) (h : Int) : Bool :=
  ((q.startBlock.bind parseI64).all fun n => n ≤ 0 || n ≤ h) &&
    (q.endBlock.bind parseI64).all fun n => h ≤ n

/-- The pages are numbered from one. -/
def askedPage (q : EsQuery) : Nat := (max 1 ((q.page.bind parseI64).getD 1)).toNat

/-- How many to a page: `offset` says, 25 if it says nothing, between 1 and 100. -/
def askedSize (q : EsQuery) : Nat :=
  (max 1 (min 100 ((q.offset.bind parseI64).getD 25))).toNat

/-- The order asked for, as what to rank the transactions by. -/
def rankAsked (q : EsQuery) (t : Transaction) : Int :=
  if q.sort = some "asc" then -t.blockHeight else t.blockHeight

/-- The page asked for of the transactions of the address in the range, ranked so. -/
def Prescribed (toLower : String → String) (s : Store) (q : EsQuery) (rank : Transaction → Int)
    (rows : List Transaction) : Prop :=
  ∃ addr front, q.address = some addr ∧
    FirstRows rank (askedPage q * askedSize q)
      ((Transactions.ofAddress s (toLower addr)).filter fun t => inRange q t.blockHeight) front ∧
    rows = front.drop ((askedPage q - 1) * askedSize q)

/-- The spellings that are accepted. -/
structure Supported (q : EsQuery) : Prop where
  startBlock : q.startBlock ∈ [none, some "", some "0"]
  endBlock : q.endBlock ∈ [none, some "", some "0"]
  page : q.page ∈ [none, some "", some "0", some "1"]

/-! ### What is refused -/

/-- A parameter passes if it is missing or its text does. -/
theorem refused_eq_none {v : Option String} {name : String} {p : String → Prop}
    [DecidablePred p] : (v.bind fun s => if p s then some name else none) = none ↔
      ∀ s, v = some s → ¬ p s := by
  cases v <;> simp

/-- **A query is refused nothing exactly when its spellings are accepted.** -/
theorem unsupported_eq_nil {q : EsQuery} : unsupported q = [] ↔ Supported q := by
  have hheight : ∀ (v : Option String) (name : String), name ≠ "page" →
      ((∀ s, v = some s → ¬ (s ≠ "" ∧ s ≠ "0" ∧ (name ≠ "page" ∨ s ≠ "1"))) ↔
        v ∈ [none, some "", some "0"]) := by
    intro v name hname
    cases v <;> simp [or_iff_not_imp_left, hname]
  have hpage : ∀ v : Option String,
      (∀ s, v = some s → ¬ (s ≠ "" ∧ s ≠ "0" ∧ ("page" ≠ "page" ∨ s ≠ "1"))) ↔
        v ∈ [none, some "", some "0", some "1"] := by
    intro v
    cases v <;> simp [or_iff_not_imp_left]
  unfold unsupported
  rw [List.filterMap_eq_nil_iff]
  simp only [List.forall_mem_cons, refused_eq_none, hheight _ "startblock" (by decide),
    hheight _ "endblock" (by decide), hpage]
  constructor
  · rintro ⟨hstart, hend, hpage, -⟩
    exact ⟨hstart, hend, hpage⟩
  · rintro ⟨hstart, hend, hpage⟩
    exact ⟨hstart, hend, hpage, by simp⟩

section Answers

variable {toLower : String → String}
  {forAddress : Address → Int → Except DbError (List Transaction)} {q : EsQuery}

/-- An answer with status 1 was given to a supported query by the database. -/
theorem txlist_status_one (h : (txlist toLower forAddress q).status = "1") : ∃ addr rows,
    q.address = some addr ∧ Supported q ∧ forAddress (toLower addr) (pageSize q) = .ok rows ∧
      txlist toLower forAddress q = ok (.txs (rows.map .ofTransaction)) := by
  unfold txlist at h ⊢
  cases haddr : q.address with
  | none => simp [haddr, err] at h
  | some addr =>
      simp only [haddr] at h ⊢
      by_cases hrefused : unsupported q = []
      · rw [if_neg (by simpa using hrefused)] at h ⊢
        cases hrows : forAddress (toLower addr) (pageSize q) with
        | error e => simp [hrows, dbErr, err] at h
        | ok rows => exact ⟨addr, rows, rfl, unsupported_eq_nil.mp hrefused, hrows, rfl⟩
      · rw [if_pos hrefused] at h
        simp [err] at h

end Answers

/-! ### What is answered -/

/-- An accepted range leaves nothing out, unless it ends at `0`. -/
theorem Supported.inRange {q : EsQuery} (h : Supported q) (hend : q.endBlock ≠ some "0") (n : Int) :
    inRange q n = true := by
  have hstart : ∀ v ∈ [none, some "", some "0"],
      (v.bind parseI64).all (fun m => m ≤ 0 || m ≤ n) = true := by
    have hempty : parseI64 "" = none := by decide
    have hzero : parseI64 "0" = some 0 := by decide
    simp [hempty, hzero]
  have hends : q.endBlock.bind parseI64 = none := by
    have hspelled := h.endBlock
    simp only [List.mem_cons, List.not_mem_nil, or_false] at hspelled
    rcases hspelled with hv | hv | hv
    · rw [hv]; rfl
    · rw [hv]; decide
    · exact absurd hv hend
  unfold Etherscan.inRange
  rw [hstart _ h.startBlock, hends]
  rfl

/-- Only the first page is accepted. -/
theorem Supported.askedPage {q : EsQuery} (h : Supported q) : askedPage q = 1 := by
  have hpages : ∀ v ∈ [none, some "", some "0", some "1"],
      (max 1 ((v.bind parseI64).getD 1)).toNat = 1 := by decide
  exact hpages _ h.page

/-- The database answers `for_address`, if it does, as it may. -/
def AnswersForAddress (s : Store)
    (forAddress : Address → Int → Except DbError (List Transaction)) : Prop :=
  ∀ addr limit rows, forAddress addr limit = .ok rows →
    Transactions.ForAddress s addr limit (some rows)

/-- **`txlist` answers with the page asked for, newest first, or with status 0.** -/
theorem txlist_newest_first (toLower : String → String) (s : Store)
    (forAddress : Address → Int → Except DbError (List Transaction)) (q : EsQuery)
    (hdb : AnswersForAddress s forAddress) :
    ((txlist toLower forAddress q).status = "1" → q.endBlock ≠ some "0" →
      ∃ rows, (txlist toLower forAddress q).result = .txs (rows.map .ofTransaction) ∧
        Prescribed toLower s q Transaction.blockHeight rows) ∧
    (q.address = none ∨ ¬ Supported q → (txlist toLower forAddress q).status = "0") := by
  constructor
  · intro hstatus hend
    obtain ⟨addr, rows, haddr, hsupported, hrows, hanswer⟩ := txlist_status_one hstatus
    obtain ⟨-, hfirst⟩ := (hdb _ _ _ hrows).firstPage
    refine ⟨rows, by rw [hanswer]; rfl, addr, rows, haddr, ?_, ?_⟩
    · rw [hsupported.askedPage, Nat.one_mul,
        List.filter_eq_self.mpr fun t _ => hsupported.inRange hend t.blockHeight]
      exact hfirst
    · rw [hsupported.askedPage, Nat.sub_self, Nat.zero_mul, List.drop_zero]
  · intro hunhonoured
    refine (built_txlist toLower forAddress q).status.resolve_right fun hstatus => ?_
    obtain ⟨addr, -, haddr, hsupported, -⟩ := txlist_status_one hstatus
    rcases hunhonoured with hnone | hnot
    · rw [hnone] at haddr
      exact absurd haddr (by simp)
    · exact hnot hsupported

/-! ### Two heights -/

/-- A transaction in each of two blocks. -/
def twoHeights : Store :=
  { Store.empty with
    blocks := ⟨[firstBlock, { firstBlock with height := 2, hash := "0xb2" }], by decide⟩
    transactions := ⟨[sentAt 1 "0x1", sentAt 2 "0x2"], by decide⟩ }

/-- `GET /api?module=account&action=txlist&address=0xA`, in some order. -/
def txlistQuery (sort : Option String) : EsQuery :=
  { moduleName := some "account", action := some "txlist", address := some "0xA", sort := sort }

theorem txlist_newest_first_plain :
    (∃ rows, (txlist toLowercase (Transactions.forAddress twoHeights) (txlistQuery none)).result =
        .txs (rows.map .ofTransaction) ∧
      Prescribed toLowercase twoHeights (txlistQuery none) Transaction.blockHeight rows) ∧
    (txlist toLowercase (Transactions.forAddress twoHeights) {}).status = "0" := by
  have hdb : AnswersForAddress twoHeights (Transactions.forAddress twoHeights) :=
    fun _ _ _ => Transactions.forAddress_allowed
  exact ⟨(txlist_newest_first _ _ _ (txlistQuery none) hdb).1 (by decide) (by decide),
    (txlist_newest_first _ _ _ {} hdb).2 (.inl rfl)⟩

/-- **A query for the oldest first is answered newest first.** -/
theorem oldest_first_ignored :
    AnswersForAddress twoHeights (Transactions.forAddress twoHeights) ∧
    (txlist toLowercase (Transactions.forAddress twoHeights) (txlistQuery (some "asc"))).status =
      "1" ∧
    ¬ ∃ rows, (txlist toLowercase (Transactions.forAddress twoHeights)
        (txlistQuery (some "asc"))).result = .txs (rows.map .ofTransaction) ∧
      Prescribed toLowercase twoHeights (txlistQuery (some "asc"))
        (rankAsked (txlistQuery (some "asc"))) rows := by
  refine ⟨fun _ _ _ => Transactions.forAddress_allowed, by decide, ?_⟩
  rintro ⟨rows, hresult, addr, front, -, hfirst, hfront⟩
  have hshown : (txlist toLowercase (Transactions.forAddress twoHeights)
      (txlistQuery (some "asc"))).result =
      .txs [.ofTransaction (sentAt 2 "0x2"), .ofTransaction (sentAt 1 "0x1")] := by decide +kernel
  have hpage : askedPage (txlistQuery (some "asc")) = 1 := by decide
  rw [hpage, Nat.sub_self, Nat.zero_mul, List.drop_zero] at hfront
  rw [hshown, hfront] at hresult
  have hrows := EsResult.txs.inj hresult
  obtain ⟨a, rest, rfl, ha, hrest⟩ := List.map_eq_cons_iff.mp hrows.symm
  obtain ⟨b, _, rfl, hb, -⟩ := List.map_eq_cons_iff.mp hrest
  have haheight : a.blockHeight = 2 := repr_injective (congrArg EsTx.blockNumber ha)
  have hbheight : b.blockHeight = 1 := repr_injective (congrArg EsTx.blockNumber hb)
  have hdesc := (List.pairwise_cons.mp hfirst.desc).1 b (List.mem_cons_self ..)
  have hasc : ∀ t, rankAsked (txlistQuery (some "asc")) t = -t.blockHeight := fun t => if_pos rfl
  rw [hasc, hasc] at hdesc
  omega

end Etherscan

end SentrixIndexer
