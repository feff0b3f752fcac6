/-
When the seeding loses an address.

The seeding is one statement among the commits of the block writers.  A commit that names
an address before the seeding has put it in place creates the row itself, with its own
height as the first one, and the seeding then leaves that row alone; and a registry that
is not empty any more makes the task skip the seeding altogether, in this process and in
every later one.  What remains of the promise is what holds in the runs where neither
happens to an address of the history.
-/
import SentrixIndexer.Proofs.Registry
import SentrixIndexer.Sync.Seeding

namespace SentrixIndexer

open Effect Relational

variable {history : List Transaction} {c c' : Seeding}

/-- The address occurs in the history. -/
def Historic (history : List Transaction) (a : Address) : Prop := ∃ x ∈ history, x.Mentions a

/-- The transactions a commit lists. -/
def Txn.listed (t : Txn) : List Transaction := t.bundles.flatMap BlockBundle.txs

/-- Every address of the history has a row. -/
def AllSeen (history : List Transaction) (s : Store) : Prop :=
  ∀ a, Historic history a → s.addresses.contains a = true

/--
The steps that keep the history whole.  A commit lists no address of the history below
its least stored height, and one that has no row yet it lists at that height; and the task
ends without its insert only when every address of the history has a row.
-/
def Timely (history : List Transaction) (c : Seeding) : SeedAct → Prop
  | .commit t => ∀ a, Historic history a → (heightsOf t.listed a).Nonempty →
      ∃ h, IsLeast (heightsOf c.store.transactions.rows a) h ∧
        (∀ k ∈ heightsOf t.listed a, h ≤ k) ∧
        (c.store.addresses.contains a = false → h ∈ heightsOf t.listed a)
  | .query => c.pc = .counting → Addresses.count c.store ≠ 0 → AllSeen history c.store
  | .fail => AllSeen history c.store
  | .restart => True

/-- The row of the address has its least stored height as the first one. -/
def FirstSeenExact (s : Store) (a : Address) : Option AddressRow → Prop
  | none => False
  | some r => IsLeast (heightsOf s.transactions.rows a) r.firstSeenBlock

/-! ### The statements of the seeding -/

theorem mem_sightingsOf {txs : List Transaction} {a : Address} {h : Int} :
    (a, h) ∈ Addresses.sightingsOf txs ↔ h ∈ heightsOf txs a := by
  unfold Addresses.sightingsOf
  rw [List.mem_append, List.mem_map, List.mem_filterMap]
  constructor
  · intro hmem
    rcases hmem with ⟨x, hx, heq⟩ | ⟨x, hx, heq⟩
    · obtain ⟨rfl, rfl⟩ := Prod.mk.inj heq
      exact ⟨x, hx, Or.inl rfl, rfl⟩
    · obtain ⟨b, hb, heq⟩ := Option.map_eq_some_iff.mp heq
      obtain ⟨rfl, rfl⟩ := Prod.mk.inj heq
      exact ⟨x, hx, Or.inr hb, rfl⟩
  · intro hmem
    obtain ⟨x, hx, hfrom | hto, rfl⟩ := hmem
    · exact Or.inl ⟨x, hx, by rw [hfrom]⟩
    · exact Or.inr ⟨x, hx, by rw [hto]; rfl⟩

/-- The first height of a group is its least one. -/
theorem groupRow_least {txs : List Transaction} {a : Address}
    (ha : (heightsOf txs a).Nonempty) :
    IsLeast (heightsOf txs a)
      (Addresses.groupRow (Addresses.sightingsOf txs) a).firstSeenBlock := by
  have hmem : ∀ h, h ∈ ((Addresses.sightingsOf txs).filter fun p => p.1 = a).map Prod.snd ↔
      h ∈ heightsOf txs a := by
    intro h
    rw [← mem_sightingsOf, List.mem_map]
    constructor
    · intro hp
      obtain ⟨⟨b, k⟩, hfilter, rfl⟩ := hp
      obtain ⟨hseen, hb⟩ := List.mem_filter.mp hfilter
      obtain rfl : b = a := of_decide_eq_true hb
      exact hseen
    · intro hp
      exact ⟨(a, h), List.mem_filter.mpr ⟨hp, decide_eq_true rfl⟩, rfl⟩
  obtain ⟨k, hk⟩ := ha
  rcases hmin : (((Addresses.sightingsOf txs).filter fun p => p.1 = a).map Prod.snd).min? with
    _ | m
  · rw [List.min?_eq_none_iff] at hmin
    have hk' := (hmem k).mpr hk
    rw [hmin] at hk'
    exact absurd hk' (by simp)
  · have hfirst : (Addresses.groupRow (Addresses.sightingsOf txs) a).firstSeenBlock = m := by
      simp [Addresses.groupRow, hmin]
    obtain ⟨hin, hle⟩ := List.min?_eq_some_iff.mp hmin
    rw [hfirst]
    exact ⟨(hmem m).mp hin, fun h hh => hle h ((hmem h).mpr hh)⟩

/-- **The seeding select** returns one row for each address, with its least height. -/
theorem find?_historyRows {s : Store} {a : Address}
    (ha : (heightsOf s.transactions.rows a).Nonempty) :
    FirstSeenExact s a ((Addresses.historyRows s).find? fun r => r.address = a) := by
  obtain ⟨h, hh⟩ := ha
  have hmem : a ∈ ((Addresses.sightingsOf s.transactions.rows).map Prod.fst).dedup :=
    List.mem_dedup.mpr (List.mem_map.mpr ⟨(a, h), mem_sightingsOf.mpr hh, rfl⟩)
  unfold Addresses.historyRows
  rw [List.find?_map]
  rcases hf : List.find? ((fun r : AddressRow => decide (r.address = a)) ∘
    Addresses.groupRow (Addresses.sightingsOf s.transactions.rows))
    ((Addresses.sightingsOf s.transactions.rows).map Prod.fst).dedup with _ | b
  · have := List.find?_eq_none.mp hf a hmem
    simp [Addresses.groupRow] at this
  · have hb := List.find?_some hf
    obtain rfl : b = a := of_decide_eq_true hb
    rw [Option.map_some]
    exact groupRow_least ⟨h, hh⟩

/-! ### A commit -/

/-- What a commit does to the heights and to the row of an address. -/
theorem Txn.run_sightings {t : Txn} {s s' : Store} (hf : t.Forward) (h : t.run s = .ok s')
    (a : Address) :
    heightsOf s.transactions.rows a ⊆ heightsOf s'.transactions.rows a ∧
    heightsOf s'.transactions.rows a ⊆
      heightsOf s.transactions.rows a ∪ heightsOf t.listed a ∧
    ((heightsOf t.listed a = ∅ ∧ s'.addresses.find? a = s.addresses.find? a) ∨
      ∃ m, IsLeast (heightsOf t.listed a) m ∧
        s'.addresses.find? a = some ((s.addresses.find? a).elim
          (Addresses.firstSighting a m) (Addresses.seeAgain m))) := by
  obtain ⟨_, txs, _, _, -, hperm, -, -, hw⟩ := t.run_written hf h
  have hlisted : heightsOf txs a = heightsOf t.listed a := by
    ext k
    exact exists_congr fun x => and_congr_left' hperm.mem_iff
  refine ⟨?_, ?_, ?_⟩
  · intro k hk
    obtain ⟨x, hx, hxa⟩ := hk
    exact ⟨x, (Txn.run_extends hf h).transactions.mem hx, hxa⟩
  · intro k hk
    obtain ⟨x, hx, hxa⟩ := hk
    rw [hw.transactions] at hx
    rcases Table.mem_insertAll hx with hold | ⟨hnew, -⟩
    · exact Or.inl ⟨x, hold, hxa⟩
    · exact Or.inr (hlisted ▸ ⟨x, hnew, hxa⟩)
  · have hleast := txAddresses_least txs a
    rw [hlisted] at hleast
    rw [hw.addresses, find?_foldl_upsert _ _ (txAddresses_nodup txs)]
    rcases hseen : (txAddresses txs).find? fun p => p.1 = a with _ | p
    · rw [hseen] at hleast ⊢
      exact Or.inl ⟨hleast, rfl⟩
    · rw [hseen] at hleast ⊢
      exact Or.inr ⟨p.2, hleast, rfl⟩

/-! ### The invariant -/

/-- What the timely steps keep. -/
structure HistoryKept (history : List Transaction) (c : Seeding) : Prop where
  stored : ∀ x ∈ history, x ∈ c.store.transactions.rows
  exact : ∀ a, Historic history a → ∀ r, c.store.addresses.find? a = some r →
    FirstSeenExact c.store a (some r)
  /-- Where a row is missing, the rows that have been selected bring it. -/
  selected : ∀ rows, c.pc = .inserting rows → ∀ a, Historic history a →
    c.store.addresses.contains a = false →
    FirstSeenExact c.store a (rows.find? fun r => r.address = a)
  ended : c.pc = .ended → AllSeen history c.store

theorem HistoryKept.nonempty (h : HistoryKept history c) {a : Address}
    (ha : Historic history a) : (heightsOf c.store.transactions.rows a).Nonempty := by
  obtain ⟨x, hx, hxa⟩ := ha
  exact ⟨_, mem_heightsOf (h.stored x hx) hxa⟩

/-- The least height stays the least when only greater ones are added. -/
theorem isLeast_extend {old listed new : Set Int} {h : Int} (hl : IsLeast old h)
    (hsub : old ⊆ new) (hnew : new ⊆ old ∪ listed) (hle : ∀ k ∈ listed, h ≤ k) :
    IsLeast new h := by
  refine ⟨hsub hl.1, fun k hk => ?_⟩
  rcases hnew hk with hold | hmem
  · exact hl.2 hold
  · exact hle k hmem

/-- **A timely commit** keeps what is known of an address of the history. -/
theorem HistoryKept.commit (h : HistoryKept history c) {t : Txn} {s : Store}
    (hf : t.Forward) (hrun : t.run c.store = .ok s) (ht : Timely history c (.commit t)) :
    HistoryKept history { c with store := s } := by
  have hext := Txn.run_extends hf hrun
  have hkeeps : ∀ a, Historic history a → ∀ o, FirstSeenExact c.store a o →
      FirstSeenExact s a o := by
    intro a ha o ho
    obtain ⟨hsub, hnew, -⟩ := Txn.run_sightings hf hrun a
    cases o with
    | none => exact ho
    | some r =>
        by_cases hne : (heightsOf t.listed a).Nonempty
        · obtain ⟨k, hk, hbelow, -⟩ := ht a ha hne
          have heq : r.firstSeenBlock = k := IsLeast.unique ho hk
          exact isLeast_extend ho hsub hnew (heq ▸ hbelow)
        · rw [Set.not_nonempty_iff_eq_empty] at hne
          exact isLeast_extend ho hsub hnew (by simp [hne])
  have hcontains : ∀ a, c.store.addresses.contains a = true → s.addresses.contains a = true := by
    intro a hc
    obtain ⟨r, hr⟩ := Table.contains_iff.mp hc
    obtain ⟨-, -, ⟨-, hsame⟩ | ⟨m, -, hrow⟩⟩ := Txn.run_sightings hf hrun a
    · exact Table.contains_of_find? (hsame.trans hr)
    · exact Table.contains_of_find? hrow
  refine ⟨fun x hx => hext.transactions.mem (h.stored x hx), ?_, ?_, ?_⟩
  · intro a ha r hr
    obtain ⟨hsub, hnew, ⟨-, hsame⟩ | ⟨m, hm, hrow⟩⟩ := Txn.run_sightings hf hrun a
    · exact hkeeps a ha _ (h.exact a ha r (hsame ▸ hr))
    · obtain rfl := Option.some.inj (hrow.symm.trans hr)
      obtain ⟨k, hk, hbelow, hat⟩ := ht a ha ⟨m, hm.1⟩
      rcases hold : c.store.addresses.find? a with _ | r
      · -- The commit creates the row, and it does so at the least height.
        have hkm : k = m := IsLeast.unique ⟨hat (Table.find?_eq_none.mp hold), hbelow⟩ hm
        subst hkm
        rw [Option.elim_none]
        exact isLeast_extend hk hsub hnew hbelow
      · rw [Option.elim_some]
        exact hkeeps a ha (some r) (h.exact a ha r hold)
  · intro rows hpc a ha hc
    refine hkeeps a ha _ (h.selected rows hpc a ha ?_)
    by_contra hold
    rw [hcontains a (by simpa using hold)] at hc
    exact absurd hc (by decide)
  · intro hpc a ha
    exact hcontains a (h.ended hpc a ha)

/-- **The insert** brings every address of the history that is missing. -/
theorem HistoryKept.insert (h : HistoryKept history c) {rows : List AddressRow} {s : Store}
    (hpc : c.pc = .inserting rows) (hrun : Addresses.insertHistory rows c.store = .ok s) :
    HistoryKept history ⟨s, .ended⟩ := by
  obtain rfl := Except.ok.inj hrun
  have hrow : ∀ a, Historic history a →
      FirstSeenExact c.store a ((c.store.addresses.insertAll rows).find? a) := by
    intro a ha
    rw [Table.find?_insertAll]
    rcases hf : c.store.addresses.find? a with _ | r
    · rw [Option.none_or]
      exact h.selected rows hpc a ha (Table.find?_eq_none.mp hf)
    · rw [Option.some_or]
      exact h.exact a ha r hf
  refine ⟨h.stored, ?_, by simp, ?_⟩
  · intro a ha r hr
    have hexact := hrow a ha
    rw [hr] at hexact
    exact hexact
  · intro _ a ha
    have hexact := hrow a ha
    rcases hf : (c.store.addresses.insertAll rows).find? a with _ | r
    · rw [hf] at hexact
      exact absurd hexact fun hexact => hexact
    · exact Table.contains_of_find? hf

/-- **A timely step keeps the history.** -/
theorem SeedStep.historyKept {act : SeedAct} (hs : SeedStep c act c')
    (ht : Timely history c act) (h : HistoryKept history c) : HistoryKept history c' := by
  cases hs with
  | commit hblocks hrun =>
      refine h.commit ?_ hrun ht
      unfold Txn.Forward
      split
      · exact absurd rfl (hblocks _)
      · trivial
  | countZero hpc hcount => exact ⟨h.stored, h.exact, by simp, by simp⟩
  | countSome hpc hcount => exact ⟨h.stored, h.exact, by simp, fun _ => ht hpc hcount⟩
  | select hpc =>
      refine ⟨h.stored, h.exact, ?_, by simp⟩
      intro rows hrows a ha _
      obtain rfl := SeederPc.inserting.inj hrows
      exact find?_historyRows (h.nonempty ha)
  | insert hpc hrun => exact h.insert hpc hrun
  | fail hpc => exact ⟨h.stored, h.exact, by simp, fun _ => ht⟩
  | restart => exact ⟨h.stored, h.exact, by simp [Seeding.boot], by simp [Seeding.boot]⟩

/-! ### Startup seeding -/

/--
**The seeding loses no address of the history** in the runs whose steps are all timely:
once the task of the current process has ended, every address of a transaction stored at
the first boot has a row, and its first height is the least among its transactions.
-/
theorem seeding_loses_no_address {s : Store} (hempty : s.addresses = .empty)
    (hc : RunOf SeedStep (Timely s.transactions.rows) (.boot s) c) (hended : c.pc = .ended) :
    ∀ x ∈ s.transactions.rows, ∀ a, x.Mentions a → ∃ r, c.store.addresses.find? a = some r ∧
      IsLeast (heightsOf c.store.transactions.rows a) r.firstSeenBlock := by
  intro x hx a hxa
  have hinit : HistoryKept s.transactions.rows (.boot s) := by
    refine ⟨fun _ hx => hx, ?_, by simp [Seeding.boot], by simp [Seeding.boot]⟩
    intro a _ r hr
    rw [show (Seeding.boot s).store = s from rfl, hempty] at hr
    exact absurd hr (by simp)
  have hkept : HistoryKept s.transactions.rows c :=
    hc.inv _ hinit fun c act c' h hs ht => hs.historyKept ht h
  have ha : Historic s.transactions.rows a := ⟨x, hx, hxa⟩
  obtain ⟨r, hr⟩ := Table.contains_iff.mp (hkept.ended hended a ha)
  exact ⟨r, hr, hkept.exact a ha r hr⟩

/-! ### A commit before the count -/

/-- A store from before the registry: one block, with a transaction of Ann's. -/
def annHistory : Store :=
  { valueOf (writeBlockTx annAt0 .empty) (by decide +kernel) with addresses := .empty }

/-- The next block, in which Ann does not occur. -/
def carolAt1 : BlockBundle :=
  valueOf (assemble (bareBlock 1 "c1" [bareTx "t1" "0xcarol" "0xdave"]) []) (by decide +kernel)

/-- The store after that block. -/
def carolCommitted : Store := valueOf (writeBlockTx carolAt1 annHistory) (by decide +kernel)

/-- The block is committed before the task counts: it skips the seeding, and Ann never gets a
row. -/
theorem commit_before_count_loses_address :
    ∃ s c, s.addresses = .empty ∧ Reaches SeedStep (.boot s) c ∧ c.pc = .ended ∧
      ∃ x ∈ s.transactions.rows, ∃ a, x.Mentions a ∧ c.store.addresses.find? a = none := by
  have hcommit : Reaches SeedStep (.boot annHistory) ⟨carolCommitted, .counting⟩ :=
    .next .init (.commit (t := .writeBlock carolAt1) (by simp) (eq_valueOf _)) trivial
  have hcount : Addresses.count carolCommitted ≠ 0 := by decide +kernel
  have hsent : ∃ x ∈ annHistory.transactions.rows, x.fromAddr = "0xann" := by decide +kernel
  have hlost : carolCommitted.addresses.find? "0xann" = none := by decide +kernel
  obtain ⟨x, hx, hfrom⟩ := hsent
  exact ⟨_, _, rfl, hcommit.next (.countSome rfl hcount) trivial, rfl, x, hx, "0xann",
    Or.inl hfrom, hlost⟩

/-- The task runs before the next block: Ann has her row. -/
theorem seeding_loses_no_address_first :
    ∃ x ∈ annHistory.transactions.rows, ∃ a, ∃ c : Seeding, x.Mentions a ∧ c.pc = .ended ∧
      ∃ r, c.store.addresses.find? a = some r ∧
        IsLeast (heightsOf c.store.transactions.rows a) r.firstSeenBlock := by
  have hcount : Addresses.count annHistory = 0 := rfl
  have hcounted : RunOf SeedStep (Timely annHistory.transactions.rows) (.boot annHistory)
      ⟨annHistory, .selecting⟩ :=
    .next .init (.countZero rfl hcount) fun _ hnot => absurd hcount hnot
  have hselected := hcounted.next (.select rfl) fun hpc => by simp at hpc
  have hended := hselected.next (.insert rfl rfl) fun hpc => by simp at hpc
  have hsent : ∃ x ∈ annHistory.transactions.rows, x.fromAddr = "0xann" := by decide +kernel
  obtain ⟨x, hx, hfrom⟩ := hsent
  have hmentions : x.Mentions "0xann" := Or.inl hfrom
  exact ⟨x, hx, "0xann", _, hmentions, rfl,
    seeding_loses_no_address rfl hended rfl x hx _ hmentions⟩

end SentrixIndexer
