/-
What the contract detector makes of an address.

Code that has been deployed stays, so an address that is stored as a contract is one.  A row
leaves the candidates with its first probe and no sighting brings it back: an address that was
probed by the light of a node that did not know its code yet stays an account.  Every other
address of an indexed transaction is told apart rightly.
-/
import SentrixIndexer.Effect.Exec
import SentrixIndexer.Proofs.Registry
import SentrixIndexer.Sync.ContractDetect

namespace SentrixIndexer

open Effect Relational

/-! ### The chain -/

/-- Code and the height it was deployed at. -/
structure Deployment where
  height : Int
  code : List UInt8
  nonempty : code ≠ []

/-- What is deployed at each address, once and for all. -/
structure CodeHistory where
  deployed : EvmAddress → Option Deployment

/-- The code of an address as of a height. -/
def CodeHistory.codeAt (n : CodeHistory) (height : Int) (a : EvmAddress) : List UInt8 :=
  match n.deployed a with
  | none => []
  | some d => if d.height ≤ height then d.code else []

theorem CodeHistory.codeAt_ne_nil {n : CodeHistory} {height : Int} {a : EvmAddress} :
    n.codeAt height a ≠ [] ↔ ∃ d, n.deployed a = some d ∧ d.height ≤ height := by
  unfold codeAt
  rcases n.deployed a with _ | d
  · simp
  · by_cases hd : d.height ≤ height
    · simp [hd, d.nonempty]
    · simp [hd]

/-- How high the chain is, and for each probe that was answered the height of the node. -/
structure ProbedChain where
  tip : Int
  probes : List (EvmAddress × Int)

/-- The probe fails, or a node answers that may lag behind the chain. -/
def CodeHistory.rpc (n : CodeHistory) : CodeRpc ProbedChain := fun chain a r chain' =>
  (∃ height, height ≤ chain.tip ∧ r = .ok (n.codeAt height a) ∧
    chain' = { chain with probes := (a, height) :: chain.probes }) ∨
  ((∃ e, r = .error e) ∧ chain' = chain)

/-- The chain grows. -/
structure ChainGrows (chain chain' : ProbedChain) : Prop where
  tip : chain.tip ≤ chain'.tip
  probes : chain'.probes = chain.probes

/-- What the other tasks do to the tables: the transactions of the sync loops, and the seeding
of the registry with what some earlier state gave. -/
inductive IndexerWrites (s : Store) : Store → Prop
  | commit {t : Txn} {s' : Store} (h : t.run s = .ok s') : IndexerWrites s s'
  | seed {s₀ s' : Store} (h : Addresses.insertHistory (Addresses.historyRows s₀) s = .ok s') :
      IndexerWrites s s'

/-! ### Rows of the registry -/

/-- Every address an indexed transaction mentions has a row. -/
def Registered (s : Store) : Prop :=
  ∀ x ∈ s.transactions.rows, ∀ a, x.Mentions a → s.addresses.contains a = true

/-- The row is as it was inserted, or classified as a row before. -/
def SameVerdict (s : Store) (r' : AddressRow) : Prop :=
  (r'.isContract = false ∧ r'.codeHash = none) ∨
    ∃ r ∈ s.addresses.rows, r.address = r'.address ∧ r.isContract = r'.isContract ∧
      r.codeHash = r'.codeHash

/-- **Sightings classify nothing.** -/
theorem sameVerdict_upsert {s : Store} {seen : List (Address × Int)}
    (hseen : (seen.map Prod.fst).Nodup) {r' : AddressRow}
    (hr' : r' ∈ (seen.foldl Addresses.upsert s.addresses).rows) : SameVerdict s r' := by
  rw [Table.mem_rows, find?_foldl_upsert _ _ hseen] at hr'
  rcases hfind : seen.find? fun p => p.1 = r'.address with _ | p
  · rw [hfind] at hr'
    exact Or.inr ⟨r', Table.mem_rows.mpr hr', rfl, rfl, rfl⟩
  · rw [hfind] at hr'
    have hrow : (s.addresses.find? r'.address).elim (Addresses.firstSighting r'.address p.2)
        (Addresses.seeAgain p.2) = r' := Option.some.inj hr'
    rcases hold : s.addresses.find? r'.address with _ | r
    · rw [hold] at hrow
      exact Or.inl ⟨(congrArg AddressRow.isContract hrow).symm,
        (congrArg AddressRow.codeHash hrow).symm⟩
    · rw [hold] at hrow
      have hkey := Table.find?_key hold
      have hsame : Addresses.seeAgain p.2 r = r' := hrow
      refine Or.inr ⟨r, Table.mem_rows.mpr (hkey ▸ hold), hkey, ?_, ?_⟩
      · rw [← hsame]
        rfl
      · rw [← hsame]
        rfl

/-- A sighted address has a row. -/
theorem contains_upsert {t : Table AddressRow.address} {txs : List Transaction} {a : Address}
    (h : t.contains a = true ∨ ∃ x ∈ txs, x.Mentions a) :
    ((txAddresses txs).foldl Addresses.upsert t).contains a = true := by
  rw [Table.contains, find?_foldl_upsert _ _ (txAddresses_nodup txs)]
  rcases hfind : (txAddresses txs).find? fun p => p.1 = a with _ | p
  · rw [hfind]
    rcases h with hold | ⟨x, hx, ha⟩
    · exact hold
    · have hleast := txAddresses_least txs a
      rw [hfind] at hleast
      have hnone : heightsOf txs a = ∅ := hleast
      exact absurd (mem_heightsOf hx ha) (by simp [hnone])
  · rw [hfind]
    rfl

/-- A rewind leaves the registry alone. -/
theorem rewindTx_addresses {d : Int} {s s' : Store} (h : rewindTx d s = .ok s') :
    s'.addresses = s.addresses := by
  obtain ⟨s₁, hdel, hcur⟩ := bind_ok.mp h
  obtain rfl := Except.ok.inj hdel
  obtain rfl := Except.ok.inj hcur
  rfl

/-- **What the other tasks write classifies nothing** and registers what it indexes. -/
theorem IndexerWrites.kept {s s' : Store} (h : IndexerWrites s s') :
    (∀ r' ∈ s'.addresses.rows, SameVerdict s r') ∧ (Registered s → Registered s') := by
  cases h with
  | @commit t s' h =>
      by_cases hf : t.Forward
      · obtain ⟨_, txs, _, _, -, -, -, -, hw⟩ := t.run_written hf h
        refine ⟨fun r' hr' => ?_, fun hreg x hx a ha => ?_⟩
        · rw [hw.addresses] at hr'
          exact sameVerdict_upsert (txAddresses_nodup txs) hr'
        · rw [hw.addresses]
          rw [hw.transactions] at hx
          rcases Table.mem_insertAll hx with hold | ⟨hnew, -⟩
          · exact contains_upsert (Or.inl (hreg x hold a ha))
          · exact contains_upsert (Or.inr ⟨x, hnew, ha⟩)
      · cases t with
        | rewindTo d =>
            have haddresses := rewindTx_addresses h
            refine ⟨fun r' hr' => Or.inr ⟨r', haddresses ▸ hr', rfl, rfl, rfl⟩,
              fun hreg x hx a ha => ?_⟩
            rw [haddresses]
            rw [(rewindTx_rewoundTo h).transactions] at hx
            exact hreg x (List.mem_filter.mp hx).1 a ha
        | _ => exact absurd trivial hf
  | @seed s₀ s' h =>
      obtain rfl := Except.ok.inj h
      refine ⟨fun r' hr' => ?_, fun hreg x hx a ha => ?_⟩
      · rcases Table.mem_insertAll hr' with hold | ⟨hnew, -⟩
        · exact Or.inr ⟨r', hold, rfl, rfl, rfl⟩
        · obtain ⟨a, -, rfl⟩ := List.mem_map.mp hnew
          exact Or.inl ⟨rfl, rfl⟩
      · exact (Table.contains_insertAll _ _ _).mpr (Or.inl (hreg x hx a ha))

/-! ### Verdicts -/

/-- What the row says is so, unless a node that answered did not know better. -/
structure RowTrue (n : CodeHistory) (chain : ProbedChain) (r : AddressRow) : Prop where
  contract : r.isContract = true →
    ∃ a, parseAddress r.address = some a ∧ n.codeAt chain.tip a ≠ []
  account : r.codeHash ≠ none → r.isContract = false → ∀ a d, parseAddress r.address = some a →
    n.deployed a = some d → ∃ height, height < d.height ∧ (a, height) ∈ chain.probes

/-- The chain is as high at least, and has been probed as before at least. -/
structure MoreProbed (chain chain' : ProbedChain) : Prop where
  tip : chain.tip ≤ chain'.tip
  probes : chain.probes ⊆ chain'.probes

theorem MoreProbed.refl (chain : ProbedChain) : MoreProbed chain chain :=
  ⟨le_refl _, List.Subset.refl _⟩

theorem MoreProbed.trans {c₁ c₂ c₃ : ProbedChain} (h : MoreProbed c₁ c₂) (h' : MoreProbed c₂ c₃) :
    MoreProbed c₁ c₃ := ⟨h.tip.trans h'.tip, fun _ hp => h'.probes (h.probes hp)⟩

variable {n : CodeHistory} {chain chain' : ProbedChain}

theorem CodeHistory.codeAt_later (h : MoreProbed chain chain') {a : EvmAddress} {height : Int}
    (hle : height ≤ chain.tip) (hcode : n.codeAt height a ≠ []) : n.codeAt chain'.tip a ≠ [] := by
  obtain ⟨d, hd, hdeployed⟩ := codeAt_ne_nil.mp hcode
  exact codeAt_ne_nil.mpr ⟨d, hd, (hdeployed.trans hle).trans h.tip⟩

theorem RowTrue.later {r : AddressRow} (hr : RowTrue n chain r) (h : MoreProbed chain chain') :
    RowTrue n chain' r := by
  refine ⟨fun hcontract => ?_, fun hclassified haccount a d ha hd => ?_⟩
  · obtain ⟨a, ha, hcode⟩ := hr.contract hcontract
    exact ⟨a, ha, n.codeAt_later h (le_refl _) hcode⟩
  · obtain ⟨height, hlt, hp⟩ := hr.account hclassified haccount a d ha hd
    exact ⟨height, hlt, h.probes hp⟩

/-- The invariant: every row is true, and the registry complete. -/
structure Verdicts (n : CodeHistory) (w : DetectWorld ProbedChain) : Prop where
  rows : ∀ r ∈ w.store.addresses.rows, RowTrue n w.chain r
  registered : Registered w.store

/-- Nothing is unlearnt. -/
abbrev Learns (w w' : DetectWorld ProbedChain) : Prop := MoreProbed w.chain w'.chain

theorem Verdicts.write {w w' : DetectWorld ProbedChain} (h : Verdicts n w)
    (hw : IndexerWrites w.store w'.store) (hchain : w'.chain = w.chain) : Verdicts n w' := by
  obtain ⟨hrows, hreg⟩ := hw.kept
  refine ⟨fun r' hr' => ?_, hreg h.registered⟩
  rw [hchain]
  rcases hrows r' hr' with ⟨hcontract, hhash⟩ | ⟨r, hr, haddress, hcontract, hhash⟩
  · exact ⟨fun htrue => absurd (hcontract.symm.trans htrue) (by simp),
      fun hclassified => absurd hhash hclassified⟩
  · have htrue := h.rows r hr
    exact ⟨haddress ▸ hcontract ▸ htrue.contract, haddress ▸ hcontract ▸ hhash ▸ htrue.account⟩

/-- **A true verdict may be written.** -/
theorem Verdicts.classify {w w' : DetectWorld ProbedChain} (h : Verdicts n w) {address : Address}
    {isContract : Bool} {codeHash : String}
    (hverdict : ∀ r : AddressRow, r.address = address → r.isContract = isContract →
      RowTrue n w.chain r)
    (hw : Addresses.classify address isContract codeHash w.store = .ok w'.store)
    (hchain : w'.chain = w.chain) : Verdicts n w' := by
  have hstore := (Except.ok.inj hw).symm
  refine ⟨fun r' hr' => ?_, fun x hx a ha => ?_⟩
  · rw [hstore] at hr'
    rw [hchain]
    obtain ⟨r, hr, rfl⟩ := List.mem_map.mp hr'
    by_cases hkey : r.address = address
    · rw [if_pos hkey]
      exact hverdict _ hkey rfl
    · rw [if_neg hkey]
      exact h.rows r hr
  · rw [hstore] at hx ⊢
    rw [Table.contains_modify]
    exact h.registered x hx a ha

/-! ### The detector -/

variable {keccak256 : List UInt8 → B256} {batch : Int} {w : DetectWorld ProbedChain}

/-- Verified to keep the verdicts true, for `Q`. -/
abbrev KeepsVerdicts (n : CodeHistory) {α : Type} (p : DetectScript α)
    (Q : Except SyncError α → DetectWorld ProbedChain → Prop) (w : DetectWorld ProbedChain) :
    Prop :=
  wp (detectHandle n.rpc) (Verdicts n) Learns (fun _ _ => True) (Script.toProgE p).run Q w

/-- **A verdict that is true stays true until it is written.** -/
theorem verdicts_classify {address : Address} {isContract : Bool} {codeHash : String}
    (hverdict : ∀ r : AddressRow, r.address = address → r.isContract = isContract →
      RowTrue n w.chain r) :
    KeepsVerdicts n (classify address isContract codeHash) (fun _ _ => True) w := by
  refine wp_script_bind fun w₁ hR hI r w₂ hH => ?_
  have hI₂ : Verdicts n w₂ := by
    rcases hH with ⟨s, hrun, -, rfl⟩ | ⟨-, rfl⟩
    · exact hI.classify (fun r ha hc => (hverdict r ha hc).later hR) hrun rfl
    · exact hI
  cases r with
  | ok u => exact ⟨hI₂, trivial, trivial⟩
  | error e => exact ⟨hI₂, trivial, trivial⟩

/-- **What a node answers is the truth**, as far as the node is. -/
theorem verdicts_classifyOne (address : Address) :
    KeepsVerdicts n (classifyOne keccak256 address) (fun _ _ => True) w := by
  unfold classifyOne
  rcases haddress : parseAddress address with _ | a
  · refine verdicts_classify fun r hr hc => ⟨fun htrue => ?_, fun _ _ a d ha => ?_⟩
    · exact absurd (hc.symm.trans htrue) (by simp)
    · rw [hr, haddress] at ha
      exact absurd ha (by simp)
  · refine wp_scriptE_bind fun w₁ hR hI r w₂ hH => ?_
    obtain ⟨chain', hrpc, rfl⟩ := hH
    rcases hrpc with ⟨height, hle, rfl, rfl⟩ | ⟨⟨e, rfl⟩, rfl⟩
    · have hlater : MoreProbed w₁.chain
          { w₁.chain with probes := (a, height) :: w₁.chain.probes } :=
        ⟨le_refl _, List.subset_cons_self _ _⟩
      refine ⟨⟨fun r hr => (hI.rows r hr).later hlater, hI.registered⟩, trivial, ?_⟩
      show wp _ _ _ _ (Script.toProgE (if _ then _ else _)).run _ _
      by_cases hcode : n.codeAt height a = []
      · rw [if_pos (List.isEmpty_iff.mpr hcode)]
        refine verdicts_classify fun r hr hc => ⟨fun htrue => ?_, fun _ _ a' d ha hd => ?_⟩
        · exact absurd (hc.symm.trans htrue) (by simp)
        · rw [hr, haddress] at ha
          obtain rfl := Option.some.inj ha
          refine ⟨height, ?_, List.mem_cons_self ..⟩
          by_contra hdeployed
          exact CodeHistory.codeAt_ne_nil.mpr ⟨d, hd, not_lt.mp hdeployed⟩ hcode
      · rw [if_neg (fun hempty => hcode (List.isEmpty_iff.mp hempty))]
        refine verdicts_classify fun r hr hc => ⟨fun _ => ?_, fun _ hfalse => ?_⟩
        · obtain ⟨d, hd, hdeployed⟩ := CodeHistory.codeAt_ne_nil.mp hcode
          exact ⟨a, hr ▸ haddress, CodeHistory.codeAt_ne_nil.mpr ⟨d, hd, hdeployed.trans hle⟩⟩
        · exact absurd (hc.symm.trans hfalse) (by simp)
    · exact ⟨⟨hI.rows, hI.registered⟩, trivial, trivial⟩

theorem verdicts_classifyAll (candidates : List Address) :
    KeepsVerdicts n (classifyAll keccak256 candidates) (fun _ _ => True) w := by
  induction candidates generalizing w with
  | nil => exact trivial
  | cons address rest ih =>
      refine wp_scriptE_bind fun w₁ _ hI r w₂ hH => ?_
      obtain ⟨-, rfl⟩ := hH
      refine ⟨hI, trivial, ?_⟩
      cases r with
      | true => exact trivial
      | false =>
          refine wp_scriptE_bind (wp_script_bind (wp_mono (fun r w₃ _ => ?_)
            (verdicts_classifyOne address)))
          exact ih

theorem verdicts_detectorPass :
    KeepsVerdicts n (detectorPass keccak256 batch) (fun _ _ => True) w := by
  unfold detectorPass
  refine wp_scriptE_bind fun w₁ _ hI r w₂ hH => ?_
  obtain ⟨-, rfl⟩ := hH
  refine ⟨hI, trivial, ?_⟩
  cases r with
  | true => exact trivial
  | false =>
      refine wp_scriptE_bind (wp_script_bind fun w₃ _ hI r w₄ hH => ?_)
      obtain ⟨rfl, -⟩ := hH
      refine ⟨hI, trivial, ?_⟩
      cases r with
      | error e => exact trivial
      | ok candidates => exact verdicts_classifyAll candidates

/-- The detector among the other tasks, over a chain that grows. -/
abbrev detectorOver (keccak256 : List UInt8 → B256) (batch : Int) (n : CodeHistory) :
    System DetectSig Unit (DetectWorld ProbedChain) (Except SyncError Unit) :=
  detector keccak256 batch n.rpc ChainGrows IndexerWrites

/-- An indexer that starts from nothing. -/
def DetectWorld.fresh (tip : Int) : DetectWorld ProbedChain := ⟨⟨tip, []⟩, .empty, false⟩

theorem verdicts_verified (tip : Int) :
    VerifiedSingle (detectorOver keccak256 batch n) (.fresh tip) (Verdicts n) Learns
      (fun _ _ => True) where
  rely_refl w := MoreProbed.refl w.chain
  rely_trans _ _ _ := MoreProbed.trans
  init := ⟨fun r hr => absurd hr (by simp [DetectWorld.fresh, Store.empty]),
    fun x hx => absurd hx (by simp [DetectWorld.fresh, Store.empty])⟩
  spawn i p w hs _ := by
    obtain rfl : p = _ := hs
    refine wp_iterateE (fun _ _ => True) (fun _ _ _ _ _ _ => trivial) trivial fun _ w₁ _ _ => ?_
    refine wp_mono (fun r w₂ _ => ?_) verdicts_detectorPass
    rcases r with e | _ | _ <;> exact trivial
  post _ _ _ _ _ _ := trivial
  env w w' hI he := by
    cases he with
    | chain h =>
        have hlater : MoreProbed w.chain _ := ⟨h.tip, h.probes ▸ List.Subset.refl _⟩
        exact ⟨⟨fun r hr => (hI.rows r hr).later hlater, hI.registered⟩, hlater⟩
    | others h => exact ⟨hI.write h rfl, MoreProbed.refl _⟩
    | cancel => exact ⟨⟨hI.rows, hI.registered⟩, MoreProbed.refl _⟩
  crash w w' hI hc := by
    obtain rfl : w' = _ := hc
    exact ⟨hI.rows, hI.registered⟩

/--
**Classification agrees with the chain** in every state without an unclassified row: what is
stored as a contract has code, and an address of a transaction indexed since its code was
deployed is stored as a contract, unless a node that had not come to the deployment has
answered for it.
-/
theorem classification_agrees {tip : Int}
    {c : Config DetectSig Unit (DetectWorld ProbedChain) (Except SyncError Unit)}
    (hc : Reachable (detectorOver keccak256 batch n) (.fresh tip) c)
    (hclassified : ∀ r ∈ c.world.store.addresses.rows, r.codeHash ≠ none) :
    (∀ r ∈ c.world.store.addresses.rows, r.isContract = true →
      ∃ a, parseAddress r.address = some a ∧ n.codeAt c.world.chain.tip a ≠ []) ∧
    ∀ x ∈ c.world.store.transactions.rows, ∀ address, x.Mentions address →
      ∀ a d, parseAddress address = some a → n.deployed a = some d → d.height ≤ x.blockHeight →
        (∀ height, (a, height) ∈ c.world.chain.probes → d.height ≤ height) →
        ∃ r ∈ c.world.store.addresses.rows, r.address = address ∧ r.isContract = true := by
  have hverified : VerifiedSingle (detectorOver keccak256 batch n) (.fresh tip) (Verdicts n)
      Learns (fun _ _ => True) := verdicts_verified tip
  have hverdicts := (hverified.reachable hc).1
  refine ⟨fun r hr => (hverdicts.rows r hr).contract,
    fun x hx address ha a d haddress hd _ hprobes => ?_⟩
  obtain ⟨r, hr⟩ := Table.contains_iff.mp (hverdicts.registered x hx address ha)
  obtain ⟨hmem, hkey⟩ := Table.find?_eq_some.mp hr
  refine ⟨r, hmem, hkey, ?_⟩
  by_contra haccount
  obtain ⟨height, hlt, hprobe⟩ := (hverdicts.rows r hmem).account (hclassified r hmem)
    (Bool.eq_false_iff.mpr haccount) a d (hkey ▸ haddress) hd
  exact absurd (hprobes height hprobe) (not_le.mpr hlt)

/-! ### A detector alone with its nodes -/

/-- A node that is as high as the chain, and a database that loses no reply. -/
def probeServe (n : CodeHistory) : Server DetectSig (DetectWorld ProbedChain)
  | w, .tickOrCancel => (false, w)
  | w, .isCancelled => (w.cancelled, w)
  | w, .unclassifiedBatch limit =>
      if 0 ≤ limit then (.ok ((Addresses.unclassified w.store).take limit.toNat), w)
      else (.error (.transport "LIMIT must not be negative"), w)
  | w, .getCode a =>
      (.ok (n.codeAt w.chain.tip a),
        { w with chain := { w.chain with probes := (a, w.chain.tip) :: w.chain.probes } })
  | w, .classify address isContract codeHash =>
      match Addresses.classify address isContract codeHash w.store with
      | .ok s => (.ok (), { w with store := s })
      | .error e => (.error e, w)

theorem probeServe_answers (w : DetectWorld ProbedChain) (c : DetectCall) :
    detectHandle n.rpc w c (probeServe n w c).1 (probeServe n w c).2 := by
  cases c with
  | tickOrCancel => exact ⟨fun h => absurd h (by simp [probeServe]), rfl⟩
  | isCancelled => exact ⟨rfl, rfl⟩
  | unclassifiedBatch limit =>
      by_cases hlimit : 0 ≤ limit
      · have hserve : probeServe n w (.unclassifiedBatch limit) =
            (.ok ((Addresses.unclassified w.store).take limit.toNat), w) := if_pos hlimit
        rw [hserve]
        exact ⟨rfl, Or.inl ⟨_, ⟨hlimit, (List.take_sublist _ _).subperm, List.length_take⟩, rfl⟩⟩
      · have hserve : probeServe n w (.unclassifiedBatch limit) =
            (.error (.transport "LIMIT must not be negative"), w) := if_neg hlimit
        rw [hserve]
        exact ⟨rfl, Or.inr ⟨_, rfl⟩⟩
  | getCode a => exact ⟨_, Or.inl ⟨w.chain.tip, le_refl _, rfl, rfl⟩, rfl⟩
  | classify address isContract codeHash => exact Or.inl ⟨_, rfl, Or.inl rfl, rfl⟩

/-- An account that pays, and one that is a contract from height 1 on. -/
def payerAccount : EvmAddress := strangerAddress 1
def factoryAccount : EvmAddress := strangerAddress 2

def factoryCode : Deployment := ⟨1, [0x60], by decide⟩

def factoryHistory : CodeHistory := ⟨fun a => if a = factoryAccount then some factoryCode else none⟩

theorem deployed_factory : factoryHistory.deployed factoryAccount = some factoryCode := by
  show (if factoryAccount = factoryAccount then some factoryCode else none) = some factoryCode
  exact if_pos rfl

/-- A payment to the factory. -/
def paymentTx (txid : String) : NativeBlockTx :=
  bareTx txid (hex0x payerAccount.toList) (hex0x factoryAccount.toList)

def paymentAt0 : BlockBundle :=
  valueOf (assemble (bareBlock 0 "a0" [paymentTx "t0"]) []) (by decide +kernel)

def paymentAt1 : BlockBundle :=
  valueOf (assemble (bareBlock 1 "a1" [paymentTx "t1"]) []) (by decide +kernel)

/-- A hash of the code; it does not matter which. -/
def someHash : List UInt8 → B256 := fun _ => .replicate 32 0

/-- The detector after some steps from these tables. -/
def detectorSteps (k : Nat) (tip : Int) (s : Store) :
    DetectWorld ProbedChain × Prog DetectSig (Except SyncError Unit) :=
  advanceN (probeServe factoryHistory) k
    (⟨⟨tip, []⟩, s, false⟩, (runContractDetector someHash 100).run)

/-- A block is indexed, and then the detector runs. -/
theorem detectorSteps_reachable {b : BlockBundle} {s : Store}
    (hs : (Txn.writeBlock b).run .empty = .ok s) (k : Nat) (tip : Int) :
    Reachable (detectorOver someHash 100 factoryHistory) (.fresh tip)
      ⟨(detectorSteps k tip s).1, fun _ => some (detectorSteps k tip s).2⟩ := by
  have hindexed : Reachable (detectorOver someHash 100 factoryHistory) (.fresh tip)
      ⟨⟨⟨tip, []⟩, s, false⟩, fun _ => none⟩ :=
    (Reachable.init).move (Move.env (DetectSurroundings.others (IndexerWrites.commit hs)))
  have hstart := hindexed.move (Move.start () (runContractDetector someHash 100).run rfl rfl)
  have hsteps := hstart.steps (i := ()) (by simp)
    (advanceN_steps probeServe_answers k _ (runContractDetector someHash 100).run)
  have hprog : Function.update (Function.update (fun _ => none) ()
      (some (runContractDetector someHash 100).run)) () (some (detectorSteps k tip s).2) =
        fun _ => some (detectorSteps k tip s).2 := funext fun _ => rfl
  rw [← hprog]
  exact hsteps

def afterPayment1 : Store := valueOf ((Txn.writeBlock paymentAt1).run .empty) (by decide +kernel)

/-- A factory that is probed after its deployment is told apart. -/
theorem classification_agrees_factory :
    ∃ c, Reachable (detectorOver someHash 100 factoryHistory) (.fresh 1) c ∧
      ∃ r ∈ c.world.store.addresses.rows, r.address = hex0x factoryAccount.toList ∧
        r.isContract = true := by
  have hreach := detectorSteps_reachable (eq_valueOf (by decide +kernel)) 12 1
    (b := paymentAt1) (s := afterPayment1)
  refine ⟨_, hreach, ?_⟩
  have hx : ∃ x ∈ (detectorSteps 12 1 afterPayment1).1.store.transactions.rows,
      x.toAddr = some (hex0x factoryAccount.toList) ∧ factoryCode.height ≤ x.blockHeight := by
    decide +kernel
  obtain ⟨x, hx, hto, hheight⟩ := hx
  refine (classification_agrees hreach ?_).2 x hx _ (Or.inr hto) factoryAccount factoryCode
    ?_ ?_ hheight ?_
  · show ∀ r ∈ (detectorSteps 12 1 afterPayment1).1.store.addresses.rows, _
    decide +kernel
  · decide +kernel
  · exact deployed_factory
  · have hprobes : ∀ p ∈ (detectorSteps 12 1 afterPayment1).1.chain.probes,
        factoryCode.height ≤ p.2 := by decide +kernel
    exact fun height hp => hprobes _ hp

/-! ### A probe before the deployment -/

def afterPayment0 : Store := valueOf ((Txn.writeBlock paymentAt0).run .empty) (by decide +kernel)

/-- The payment is indexed and both accounts are probed; then the factory is deployed. -/
def afterBoth : Store :=
  valueOf ((Txn.writeBlock paymentAt1).run (detectorSteps 12 0 afterPayment0).1.store)
    (by decide +kernel)

theorem afterBoth_reachable :
    ∃ c, Reachable (detectorOver someHash 100 factoryHistory) (.fresh 0) c ∧
      c.world.store = afterBoth := by
  have hprobed := detectorSteps_reachable (eq_valueOf (by decide +kernel)) 12 0
    (b := paymentAt0) (s := afterPayment0)
  have hgrows : ChainGrows (detectorSteps 12 0 afterPayment0).1.chain
      ⟨1, (detectorSteps 12 0 afterPayment0).1.chain.probes⟩ := ⟨by decide +kernel, rfl⟩
  have hgrown := hprobed.move (Move.env (DetectSurroundings.chain hgrows))
  have hcommit : (Txn.writeBlock paymentAt1).run (detectorSteps 12 0 afterPayment0).1.store =
      .ok afterBoth := eq_valueOf (by decide +kernel)
  exact ⟨_, hgrown.move (Move.env (DetectSurroundings.others (IndexerWrites.commit hcommit))), rfl⟩

/-- **A factory that is probed before its deployment stays an account**, with every row
classified and a payment to it indexed at the height of the deployment. -/
theorem early_probe_stays :
    ¬ ∀ (n : CodeHistory) (tip : Int)
      (c : Config DetectSig Unit (DetectWorld ProbedChain) (Except SyncError Unit)),
      Reachable (detectorOver someHash 100 n) (.fresh tip) c →
      (∀ r ∈ c.world.store.addresses.rows, r.codeHash ≠ none) →
      ∀ x ∈ c.world.store.transactions.rows, ∀ address, x.Mentions address →
        ∀ a d, parseAddress address = some a → n.deployed a = some d → d.height ≤ x.blockHeight →
        ∃ r ∈ c.world.store.addresses.rows, r.address = address ∧ r.isContract = true := by
  intro hclaim
  obtain ⟨c, hreach, hstore⟩ := afterBoth_reachable
  have hclaim := hclaim factoryHistory 0 c hreach
  rw [hstore] at hclaim
  have hx : ∃ x ∈ afterBoth.transactions.rows,
      x.toAddr = some (hex0x factoryAccount.toList) ∧ factoryCode.height ≤ x.blockHeight := by
    decide +kernel
  obtain ⟨x, hx, hto, hheight⟩ := hx
  obtain ⟨r, hr, -, hcontract⟩ := hclaim (by decide +kernel) x hx _ (Or.inr hto) factoryAccount
    factoryCode (by decide +kernel) deployed_factory hheight
  have haccounts : ∀ r ∈ afterBoth.addresses.rows, r.isContract = false := by decide +kernel
  exact absurd hcontract (by simp [haccounts r hr])

end SentrixIndexer
