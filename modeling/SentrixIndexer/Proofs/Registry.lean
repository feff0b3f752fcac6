/-
The addresses registry against the transactions.

`first_seen_block` should be the least and `last_seen_block` the greatest height among
the stored transactions that name an address.  Each write offers one height for each
address, the least of its transactions, and the upsert uses it for both columns.  That
is exact as long as no write names an address at two heights; a batch that does leaves
`last_seen_block` behind.
-/
import Mathlib.Order.Bounds.Basic
import SentrixIndexer.Proofs.Replay
import SentrixIndexer.Sync.Nodes

namespace SentrixIndexer

open Relational

/-! ### Sightings -/

/-- The transaction sends from the address or to it. -/
def Transaction.Mentions (x : Transaction) (a : Address) : Prop :=
  x.fromAddr = a ∨ x.toAddr = some a

/-- The heights at which transactions of the list mention the address. -/
def heightsOf (txs : List Transaction) (a : Address) : Set Int :=
  {h | ∃ x ∈ txs, x.Mentions a ∧ x.blockHeight = h}

theorem mem_heightsOf {txs : List Transaction} {a : Address} {x : Transaction} (hx : x ∈ txs)
    (ha : x.Mentions a) : x.blockHeight ∈ heightsOf txs a := ⟨x, hx, ha, rfl⟩

/-- Every address the transaction mentions, with its height. -/
def sightings (x : Transaction) : List (Address × Int) :=
  (x.fromAddr, x.blockHeight) :: (x.toAddr.map fun a => (a, x.blockHeight)).toList

theorem mem_sightings {x : Transaction} {a : Address} {h : Int} :
    (a, h) ∈ sightings x ↔ x.Mentions a ∧ x.blockHeight = h := by
  unfold sightings Transaction.Mentions
  rw [List.mem_cons, Option.mem_toList, Prod.mk.injEq]
  constructor
  · intro hmem
    rcases hmem with ⟨rfl, rfl⟩ | hto
    · exact ⟨Or.inl rfl, rfl⟩
    · obtain ⟨b, hb, heq⟩ := Option.map_eq_some_iff.mp (Option.mem_def.mp hto)
      obtain ⟨rfl, rfl⟩ := Prod.mk.inj heq
      exact ⟨Or.inr hb, rfl⟩
  · intro hmem
    obtain ⟨hfrom | hto, rfl⟩ := hmem
    · exact Or.inl ⟨hfrom.symm, rfl⟩
    · refine Or.inr (Option.mem_def.mpr ?_)
      rw [hto]
      rfl

/-- The sightings of an address in a list of transactions are at these heights. -/
theorem sighted_iff {txs : List Transaction} {a : Address} {h : Int} :
    (a, h) ∈ txs.flatMap sightings ↔ h ∈ heightsOf txs a := by
  rw [List.mem_flatMap]
  constructor
  · intro hmem
    obtain ⟨x, hx, hs⟩ := hmem
    exact ⟨x, hx, mem_sightings.mp hs⟩
  · intro hmem
    obtain ⟨x, hx, hs⟩ := hmem
    exact ⟨x, hx, mem_sightings.mpr hs⟩

/-- The least element of the set, or nothing when there is none. -/
def LeastOf (s : Set Int) : Option Int → Prop
  | none => s = ∅
  | some m => IsLeast s m

theorem LeastOf.insert {s : Set Int} {o : Option Int} (h : LeastOf s o) (k : Int) :
    LeastOf (insert k s) (some (o.elim k fun m => min m k)) := by
  cases o with
  | none =>
      obtain rfl : s = ∅ := h
      show IsLeast _ k
      rw [insert_empty_eq]
      exact isLeast_singleton
  | some m =>
      show IsLeast _ (min m k)
      rw [min_comm]
      exact IsLeast.insert k h

/-- `tx_addresses` under construction, over the sightings so far. -/
def noteAll (seen : Sightings) (ps : List (Address × Int)) : Sightings :=
  ps.foldl (fun seen p => noteAddress p.2 seen p.1) seen

theorem noteTx_eq (seen : Sightings) (x : Transaction) :
    noteTx seen x = noteAll seen (sightings x) := by
  unfold noteTx noteAll sightings
  cases x.toAddr <;> rfl

theorem foldl_noteTx (txs : List Transaction) :
    ∀ seen, txs.foldl noteTx seen = noteAll seen (txs.flatMap sightings) := by
  induction txs with
  | nil => intro seen; rfl
  | cons x rest ih =>
      intro seen
      rw [List.foldl_cons, ih, noteTx_eq, List.flatMap_cons]
      exact (List.foldl_append ..).symm

/-- **Each address is kept with the least height it was sighted at.** -/
theorem noteAll_least (ps : List (Address × Int)) (a : Address) :
    LeastOf {h | (a, h) ∈ ps} (((noteAll .empty ps).find? a).map Prod.snd) := by
  induction ps using List.reverseRecOn generalizing a with
  | nil =>
      show {h | (a, h) ∈ []} = ∅
      simp
  | append_singleton ps p ih =>
      obtain ⟨b, k⟩ := p
      have hfold : noteAll .empty (ps ++ [(b, k)]) = noteAddress k (noteAll .empty ps) b := by
        unfold noteAll
        rw [List.foldl_append]
        rfl
      rw [hfold]
      unfold noteAddress
      rw [Table.find?_upsert]
      by_cases hab : b = a
      · subst hab
        have hset : {h | (b, h) ∈ ps ++ [(b, k)]} = insert k {h | (b, h) ∈ ps} := by
          ext h
          simp [or_comm]
        rw [if_pos rfl, hset]
        have hins := (ih b).insert k
        rcases hf : (noteAll .empty ps).find? b with _ | q
        · rw [hf] at hins
          exact hins
        · rw [hf] at hins
          exact hins
      · have hset : {h | (a, h) ∈ ps ++ [(b, k)]} = {h | (a, h) ∈ ps} := by
          ext h
          simp [Ne.symm hab]
        rw [if_neg hab, hset]
        exact ih a

/-- What `tx_addresses` says of an address: the least height that mentions it. -/
theorem txAddresses_least (txs : List Transaction) (a : Address) :
    LeastOf (heightsOf txs a)
      (((txAddresses txs).find? fun p => p.1 = a).map Prod.snd) := by
  have hset : heightsOf txs a = {h | (a, h) ∈ txs.flatMap sightings} := by
    ext h
    exact sighted_iff.symm
  unfold txAddresses
  rw [foldl_noteTx, hset]
  exact noteAll_least _ a

theorem txAddresses_nodup (txs : List Transaction) :
    ((txAddresses txs).map Prod.fst).Nodup := (txs.foldl noteTx .empty).nodup

/-- **An upsert of distinct addresses** changes each of their rows once. -/
theorem find?_foldl_upsert (seen : List (Address × Int)) :
    ∀ (t : Table AddressRow.address), (seen.map Prod.fst).Nodup → ∀ a,
      (seen.foldl Addresses.upsert t).find? a =
        match seen.find? fun p => p.1 = a with
        | none => t.find? a
        | some p => some ((t.find? a).elim (Addresses.firstSighting a p.2)
            (Addresses.seeAgain p.2)) := by
  induction seen with
  | nil => intro t _ a; rfl
  | cons p rest ih =>
      intro t hnodup a
      rw [List.map_cons, List.nodup_cons] at hnodup
      rw [List.foldl_cons, ih _ hnodup.2, List.find?_cons]
      unfold Addresses.upsert
      rw [Table.find?_upsert]
      by_cases hp : p.1 = a
      · -- The address is not among the rest.
        have hrest : (rest.find? fun q => q.1 = a) = none := by
          rw [List.find?_eq_none]
          intro q hq hqa
          have hmem : q.1 ∈ rest.map Prod.fst := List.mem_map_of_mem hq
          rw [of_decide_eq_true hqa, ← hp] at hmem
          exact hnodup.1 hmem
        subst hp
        simp [hrest, Addresses.firstSighting]
      · have hkey : (Addresses.firstSighting p.1 p.2).address ≠ a := hp
        simp [hp, hkey]

/-! ### One write -/

/-- The row is the exact aggregate of the heights; without a row there are none. -/
def RowExact (heights : Set Int) : Option AddressRow → Prop
  | none => heights = ∅
  | some r => IsLeast heights r.firstSeenBlock ∧ IsGreatest heights r.lastSeenBlock

/-- Every row of the registry is the exact aggregate of the stored transactions. -/
def RegistryExact (s : Store) : Prop :=
  ∀ a, RowExact (heightsOf s.transactions.rows a) (s.addresses.find? a)

/-- No address is mentioned at two heights. -/
def OneHeightEach (txs : List Transaction) : Prop :=
  ∀ a, ∀ x ∈ txs, ∀ y ∈ txs, x.Mentions a → y.Mentions a → x.blockHeight = y.blockHeight

/-- **One sighting of an address** is exact if and only if it stands for all of them. -/
theorem rowExact_sighting {old new : Set Int} {o : Option AddressRow} {a : Address} {m : Int}
    (h : RowExact old o) (hm : IsLeast new m) (hbelow : ∀ x ∈ old, ∀ y ∈ new, x < y) :
    RowExact (old ∪ new) (some (o.elim (Addresses.firstSighting a m) (Addresses.seeAgain m))) ↔
      ∀ y ∈ new, y = m := by
  cases o with
  | none =>
      obtain rfl : old = ∅ := h
      rw [Set.empty_union]
      constructor
      · intro hexact y hy
        exact le_antisymm (hexact.2.2 hy) (hm.2 hy)
      · intro hall
        exact ⟨hm, hm.1, fun y hy => le_of_eq (hall y hy)⟩
  | some r =>
      obtain ⟨hleast, hgreatest⟩ := h
      have hlt := hbelow _ hgreatest.1 _ hm.1
      have hmax : max r.lastSeenBlock m = m := max_eq_right (le_of_lt hlt)
      constructor
      · intro hexact y hy
        have hle : y ≤ max r.lastSeenBlock m := hexact.2.2 (Or.inr hy)
        rw [hmax] at hle
        exact le_antisymm hle (hm.2 hy)
      · intro hall
        refine ⟨⟨Or.inl hleast.1, ?_⟩, ?_⟩
        · intro y hy
          rcases hy with hold | hnew
          · exact hleast.2 hold
          · exact le_of_lt (hbelow _ hleast.1 _ hnew)
        · show IsGreatest _ (max r.lastSeenBlock m)
          rw [hmax]
          refine ⟨Or.inr hm.1, ?_⟩
          intro y hy
          rcases hy with hold | hnew
          · exact le_of_lt (hbelow _ hold _ hm.1)
          · exact le_of_eq (hall y hnew)

/-- **A write keeps the registry exact** if and only if it names each address at one height. -/
theorem registryExact_write {s s' : Store} {txs : List Transaction} (h : RegistryExact s)
    (hstored : ∀ x, x ∈ s'.transactions.rows ↔ x ∈ s.transactions.rows ∨ x ∈ txs)
    (haddr : s'.addresses = (txAddresses txs).foldl Addresses.upsert s.addresses)
    (hbelow : ∀ x ∈ s.transactions.rows, ∀ y ∈ txs, x.blockHeight < y.blockHeight) :
    RegistryExact s' ↔ OneHeightEach txs := by
  have hunion : ∀ a, heightsOf s'.transactions.rows a =
      heightsOf s.transactions.rows a ∪ heightsOf txs a := by
    intro a
    ext k
    constructor
    · intro hk
      obtain ⟨x, hx, hxa⟩ := hk
      exact ((hstored x).mp hx).imp (fun hx => ⟨x, hx, hxa⟩) fun hx => ⟨x, hx, hxa⟩
    · intro hk
      rcases hk with ⟨x, hx, hxa⟩ | ⟨x, hx, hxa⟩
      · exact ⟨x, (hstored x).mpr (Or.inl hx), hxa⟩
      · exact ⟨x, (hstored x).mpr (Or.inr hx), hxa⟩
  have hlt : ∀ a, ∀ x ∈ heightsOf s.transactions.rows a, ∀ y ∈ heightsOf txs a, x < y := by
    intro a k hk l hl
    obtain ⟨x, hx, -, rfl⟩ := hk
    obtain ⟨y, hy, -, rfl⟩ := hl
    exact hbelow x hx y hy
  -- Address by address: exact if and only if all its new heights are one.
  have hrow : ∀ a, RowExact (heightsOf s'.transactions.rows a) (s'.addresses.find? a) ↔
      ∀ k ∈ heightsOf txs a, ∀ l ∈ heightsOf txs a, k = l := by
    intro a
    have hleast := txAddresses_least txs a
    rw [hunion, haddr, find?_foldl_upsert _ _ (txAddresses_nodup txs)]
    rcases hf : (txAddresses txs).find? fun p => p.1 = a with _ | p
    · rw [hf] at hleast ⊢
      have hnone : heightsOf txs a = ∅ := hleast
      rw [hnone, Set.union_empty]
      exact ⟨fun _ k hk => absurd hk (Set.notMem_empty k), fun _ => h a⟩
    · rw [hf] at hleast ⊢
      have hm : IsLeast (heightsOf txs a) p.2 := hleast
      show RowExact _ (some _) ↔ _
      rw [rowExact_sighting (h a) hm (hlt a)]
      constructor
      · intro hall k hk l hl
        rw [hall k hk, hall l hl]
      · intro hall k hk
        exact hall k hk _ hm.1
  constructor
  · intro hexact a x hx y hy hxa hya
    exact (hrow a).mp (hexact a) _ (mem_heightsOf hx hxa) _ (mem_heightsOf hy hya)
  · intro hone a
    refine (hrow a).mpr fun k hk l hl => ?_
    obtain ⟨x, hx, hxa, rfl⟩ := hk
    obtain ⟨y, hy, hya, rfl⟩ := hl
    exact hone a x hx y hy hxa hya

/-! ### Runs of writes -/

/-- The transactions a run of writes offers. -/
def offeredTxs (ts : List Txn) : List Transaction :=
  ts.flatMap fun t => t.bundles.flatMap BlockBundle.txs

/-- A run of writes as the sync loops make them. -/
structure Writing (ts : List Txn) : Prop where
  forward : ∀ t ∈ ts, t.Forward
  heights : ∀ t ∈ ts, TxHeights t.bundles
  /-- Heights are written in increasing order. -/
  ascending : (ts.flatMap Txn.bundles).Pairwise fun a b => a.block.height < b.block.height
  distinct : ((offeredTxs ts).map Transaction.hash).Nodup

theorem offeredTxs_concat (ts : List Txn) (t : Txn) :
    offeredTxs (ts ++ [t]) = offeredTxs ts ++ t.bundles.flatMap BlockBundle.txs := by
  unfold offeredTxs
  rw [List.flatMap_append, List.flatMap_singleton]

theorem Writing.of_prefix {us ts : List Txn} (h : Writing ts) (hp : us <+: ts) : Writing us := by
  obtain ⟨vs, rfl⟩ := hp
  refine ⟨fun t ht => h.forward t (List.mem_append_left _ ht),
    fun t ht => h.heights t (List.mem_append_left _ ht), ?_, ?_⟩
  · have hall := h.ascending
    rw [List.flatMap_append] at hall
    exact (List.pairwise_append.mp hall).1
  · have hall := h.distinct
    unfold offeredTxs at hall
    rw [List.flatMap_append, List.map_append] at hall
    exact (List.nodup_append.mp hall).1

theorem Writing.of_concat {ts : List Txn} {t : Txn} (h : Writing (ts ++ [t])) : Writing ts :=
  h.of_prefix (List.prefix_append _ _)

/-- What the last write of a run does. -/
theorem Writing.last {ts : List Txn} {t : Txn} (h : Writing (ts ++ [t])) {s s' : Store}
    (hstored : ∀ x, x ∈ s.transactions.rows ↔ x ∈ offeredTxs ts) (hrun : t.run s = .ok s') :
    ∃ txs, (∀ x, x ∈ txs ↔ x ∈ t.bundles.flatMap BlockBundle.txs) ∧
      (∀ x, x ∈ s'.transactions.rows ↔ x ∈ s.transactions.rows ∨ x ∈ txs) ∧
      s'.addresses = (txAddresses txs).foldl Addresses.upsert s.addresses ∧
      ∀ x ∈ s.transactions.rows, ∀ y ∈ txs, x.blockHeight < y.blockHeight := by
  have hmem : t ∈ ts ++ [t] := by simp
  obtain ⟨_, txs, _, _, -, hperm, -, -, hw⟩ := t.run_written (h.forward t hmem) hrun
  have hdistinct := h.distinct
  rw [offeredTxs_concat, List.map_append, List.nodup_append] at hdistinct
  obtain ⟨-, hdist, hdisj⟩ := hdistinct
  have hnodup : (txs.map Transaction.hash).Nodup := (hperm.map _).nodup_iff.mpr hdist
  refine ⟨txs, fun x => hperm.mem_iff, fun x => ?_, hw.addresses, fun x hx y hy => ?_⟩
  · rw [hw.transactions]
    refine Table.mem_insertAll_of_fresh (fun y hy => ?_) hnodup
    by_contra hc
    obtain ⟨u, hu⟩ := Table.contains_iff.mp (Bool.not_eq_false _ ▸ hc)
    obtain ⟨humem, huh⟩ := Table.find?_eq_some.mp hu
    exact hdisj _ (List.mem_map_of_mem ((hstored u).mp humem)) _
      (List.mem_map_of_mem (hperm.mem_iff.mp hy)) huh
  · obtain ⟨u, hu, hxu⟩ := List.mem_flatMap.mp ((hstored x).mp hx)
    obtain ⟨b, hb, hxb⟩ := List.mem_flatMap.mp hxu
    obtain ⟨b', hb', hyb'⟩ := List.mem_flatMap.mp (hperm.mem_iff.mp hy)
    have hasc := h.ascending
    rw [List.flatMap_append, List.flatMap_singleton, List.pairwise_append] at hasc
    rw [h.heights u (List.mem_append_left _ hu) b hb x hxb, h.heights t hmem b' hb' y hyb']
    exact hasc.2.2 b (List.mem_flatMap.mpr ⟨u, hu, hb⟩) b' hb'

/-- A run stores the transactions it offers. -/
theorem Writing.stored {ts : List Txn} (h : Writing ts) {s : Store} (hc : Committed ts s)
    (x : Transaction) : x ∈ s.transactions.rows ↔ x ∈ offeredTxs ts := by
  induction ts using List.reverseRecOn generalizing s x with
  | nil =>
      obtain rfl := Except.ok.inj hc
      exact Iff.rfl
  | append_singleton ts t ih =>
      obtain ⟨s₁, hc₁, hrun⟩ := committed_concat.mp hc
      obtain ⟨txs, hmem, hrows, -, -⟩ := h.last (ih h.of_concat hc₁) hrun
      rw [hrows, ih h.of_concat hc₁, hmem, offeredTxs_concat, List.mem_append]

/-- The last write of a run keeps an exact registry exact if and only if its heights agree. -/
theorem Writing.exact_last {ts : List Txn} {t : Txn} (h : Writing (ts ++ [t])) {s s' : Store}
    (hc : Committed ts s) (hrun : t.run s = .ok s') (hexact : RegistryExact s) :
    RegistryExact s' ↔ OneHeightEach (t.bundles.flatMap BlockBundle.txs) := by
  obtain ⟨txs, hmem, hrows, haddr, hbelow⟩ := h.last (h.of_concat.stored hc) hrun
  rw [registryExact_write hexact hrows haddr hbelow]
  unfold OneHeightEach
  simp only [hmem]

/-- With one height for each address in every write, the registry is exact at the end. -/
theorem Writing.exact {ts : List Txn} (h : Writing ts)
    (hone : ∀ t ∈ ts, OneHeightEach (t.bundles.flatMap BlockBundle.txs)) {s : Store}
    (hc : Committed ts s) : RegistryExact s := by
  induction ts using List.reverseRecOn generalizing s with
  | nil =>
      obtain rfl := Except.ok.inj hc
      intro a
      show heightsOf [] a = ∅
      simp [heightsOf]
  | append_singleton ts t ih =>
      obtain ⟨s₁, hc₁, hrun⟩ := committed_concat.mp hc
      have hexact := ih h.of_concat (fun u hu => hone u (List.mem_append_left _ hu)) hc₁
      exact (h.exact_last hc₁ hrun hexact).mpr (hone t (by simp))

/--
**The registry is the exact aggregate of the transactions**, after every write of a run
that starts from an empty store, if and only if no write mentions an address at two
heights.
-/
theorem registry_exact_iff {ts : List Txn} {s : Store} (h : Writing ts) (hc : Committed ts s) :
    (∀ us s', us <+: ts → Committed us s' → RegistryExact s') ↔
      ∀ t ∈ ts, OneHeightEach (t.bundles.flatMap BlockBundle.txs) := by
  constructor
  · intro hexact t ht
    obtain ⟨us, vs, rfl⟩ := List.append_of_mem ht
    have hsplit : us ++ t :: vs = (us ++ [t]) ++ vs := by simp
    rw [hsplit] at h hc hexact
    obtain ⟨s', hc'⟩ := hc.of_append
    obtain ⟨s₁, hc₁, hrun⟩ := committed_concat.mp hc'
    have hp : us ++ [t] <+: (us ++ [t]) ++ vs := List.prefix_append _ _
    have hold := hexact us s₁ ((List.prefix_append us [t]).trans hp) hc₁
    exact ((h.of_prefix hp).exact_last hc₁ hrun hold).mp (hexact _ s' hp hc')
  · intro hone us s' hp hc'
    exact (h.of_prefix hp).exact (fun t ht => hone t (hp.subset ht)) hc'

/-! ### One sender in two blocks -/

/-- The bundle of a block with one transaction of Ann's. -/
def annAt0 : BlockBundle :=
  valueOf (assemble (bareBlock 0 "a0" [bareTx "t0" "0xann" "0xbob"]) []) (by decide +kernel)

def annAt1 : BlockBundle :=
  valueOf (assemble (bareBlock 1 "a1" [bareTx "t1" "0xann" "0xbob"]) []) (by decide +kernel)

theorem writing_batch : Writing [.batchWriteBlocks [annAt0, annAt1]] where
  forward := by simp [Txn.Forward]
  heights := by
    show ∀ t ∈ [Txn.batchWriteBlocks [annAt0, annAt1]], ∀ b ∈ t.bundles, ∀ x ∈ b.txs, _
    decide +kernel
  ascending := by decide +kernel
  distinct := by decide +kernel

theorem writing_each : Writing [.writeBlock annAt0, .writeBlock annAt1] where
  forward := by simp [Txn.Forward]
  heights := by
    show ∀ t ∈ [Txn.writeBlock annAt0, Txn.writeBlock annAt1], ∀ b ∈ t.bundles, ∀ x ∈ b.txs, _
    decide +kernel
  ascending := by decide +kernel
  distinct := by decide +kernel

/-- What one batch of both leaves. -/
def annBatched : Store :=
  valueOf (forEach Txn.run [.batchWriteBlocks [annAt0, annAt1]] .empty) (by decide +kernel)

/--
Ann sends in blocks 0 and 1, and both are written in one batch: her row says she was
last seen in block 0.
-/
theorem batch_leaves_last_seen_behind :
    ∃ ts s, Writing ts ∧ Committed ts s ∧ ¬ RegistryExact s := by
  have hc : Committed [.batchWriteBlocks [annAt0, annAt1]] annBatched := eq_valueOf _
  have hrow : (annBatched.addresses.find? "0xann").any (fun r => r.lastSeenBlock = 0) = true := by
    decide +kernel
  refine ⟨_, _, writing_batch, hc, fun hexact => ?_⟩
  obtain ⟨r, hr, hlast⟩ := (Option.any_eq_true _ _).mp hrow
  have hgreatest := hexact "0xann"
  rw [hr] at hgreatest
  -- Her transaction in block 1 is stored.
  have hsent : ∃ x ∈ annAt1.txs, x.fromAddr = "0xann" ∧ x.blockHeight = 1 := by decide +kernel
  obtain ⟨x, hx, hfrom, hheight⟩ := hsent
  have hstored := (writing_batch.stored hc x).mpr
    (List.mem_flatMap.mpr ⟨_, List.mem_singleton.mpr rfl,
      List.mem_flatMap.mpr ⟨annAt1, by simp [Txn.bundles], hx⟩⟩)
  have hle := hgreatest.2.2 (mem_heightsOf hstored (Or.inl hfrom))
  rw [hheight, of_decide_eq_true hlast] at hle
  exact absurd hle (by decide)

theorem registry_exact_each :
    ∃ s, Committed [.writeBlock annAt0, .writeBlock annAt1] s ∧ RegistryExact s := by
  have hok : (forEach Txn.run [.writeBlock annAt0, .writeBlock annAt1] .empty).toOption.isSome =
    true := by decide +kernel
  have hc : Committed _ _ := eq_valueOf hok
  refine ⟨_, hc, (registry_exact_iff writing_each hc).mpr ?_ _ _ (List.prefix_refl _) hc⟩
  have hone : ∀ t ∈ [Txn.writeBlock annAt0, Txn.writeBlock annAt1],
      ∀ x ∈ t.bundles.flatMap BlockBundle.txs, ∀ y ∈ t.bundles.flatMap BlockBundle.txs,
        x.blockHeight = y.blockHeight := by decide +kernel
  exact fun t ht a x hx y hy _ _ => hone t ht x hx y hy

end SentrixIndexer
