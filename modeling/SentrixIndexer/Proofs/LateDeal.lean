/-
A deal that goes in late, and sets the price.

The chain has one curve with two buys, and between them more strangers than the set of those
turned away can hold.  When the worker meets the first buy, `token()` fails once and the curve is
turned away; the last stranger makes the full set drop it; at the second buy it is probed again
and let in.  The process crashes before the chunk is done.  After the restart the curve is known,
the first buy goes in after the second, and the chunk is done: the curve has the price of its
first buy.
-/
import SentrixIndexer.Effect.Partway
import SentrixIndexer.Proofs.LatestPrice
import SentrixIndexer.Proofs.TransientFailures
import SentrixIndexer.Sync.Nodes

namespace SentrixIndexer

open Effect Relational

/-! ### The chain -/

/-- A buy at a place in the block. -/
def placedBuy (curve : EvmAddress) (srx : List UInt8) (txHash : UInt8) (index : Nat) : RpcLog :=
  { buyLog curve srx txHash with logIndex := some (UInt64.ofNat index) }

/-- The first buy, for 5. -/
def earlierBuy : RpcLog := placedBuy curveA (word 5) 1 0

/-- So many strangers. -/
def crowd (k : Nat) : List RpcLog :=
  (List.range k).map fun i => placedBuy (strangerAddress i) (word 1) 3 (i + 1)

/-- The second buy, for 7. -/
def laterBuy : RpcLog := placedBuy curveA (word 7) 2 (knownNonCurvesMax + 1)

/-- One curve with two buys, and a crowd between them. -/
def crowdedChain : CbChain where
  tip := 1178700
  logs := earlierBuy :: (crowd knownNonCurvesMax ++ [laterBuy])
  views := curveAnswers curveA tokenA

/-- The full set drops the curve, if it has it. -/
def dropCurve (set : List Address) : List Address :=
  if hexAddr curveA ∈ set ∧ knownNonCurvesMax ≤ set.length then set.erase (hexAddr curveA)
  else dropVictim set

theorem strangerAddress_ne (i : Nat) {a : EvmAddress} (ha : a.toList.getD 17 0 ≠ 1) :
    strangerAddress i ≠ a := by
  rintro rfl
  exact ha (by simp [strangerAddress])

theorem position_placedBuy {curve : EvmAddress} {srx : List UInt8} {txHash : UInt8} {index : Nat}
    (h : index < 2 ^ 64) :
    (placedBuy curve srx txHash index).position? = some (toLex (1178667, (index : Int))) := by
  have hindex : (UInt64.ofNat index).toNat = index := by
    rw [UInt64.toNat_ofNat']
    exact Nat.mod_eq_of_lt h
  show some (toLex (((1178667 : UInt64).toNat : Int), ((UInt64.ofNat index).toNat : Int))) = _
  rw [hindex]
  rfl

/-- The logs of the chain are in order. -/
theorem crowdedChain_ordered : crowdedChain.logs.Pairwise fun l l' =>
    ∀ p ∈ l.position?, ∀ p' ∈ l'.position?, p ≤ p' := by
  have hplaced : ∀ {a a' srx srx' txHash txHash' i j}, i ≤ j → j < 2 ^ 64 →
      ∀ p ∈ (placedBuy a srx txHash i).position?, ∀ p' ∈ (placedBuy a' srx' txHash' j).position?,
        p ≤ p' := by
    intro a a' srx srx' txHash txHash' i j hij hj p hp p' hp'
    rw [position_placedBuy (by omega), Option.mem_some_iff] at hp
    rw [position_placedBuy hj, Option.mem_some_iff] at hp'
    rw [← hp, ← hp', Prod.Lex.toLex_le_toLex]
    exact Or.inr ⟨rfl, Int.ofNat_le.mpr hij⟩
  have hcrowd : ∀ l ∈ crowd knownNonCurvesMax, ∃ a i, i < knownNonCurvesMax ∧
      l = placedBuy a (word 1) 3 (i + 1) := by
    intro l hl
    obtain ⟨i, hi, rfl⟩ := List.mem_map.mp hl
    exact ⟨_, i, List.mem_range.mp hi, rfl⟩
  have hmax : knownNonCurvesMax = 10000 := rfl
  refine List.pairwise_cons.mpr ⟨fun l hl => ?_, List.pairwise_append.mpr ⟨?_, by simp, ?_⟩⟩
  · rcases List.mem_append.mp hl with hl | hl
    · obtain ⟨a, i, hi, rfl⟩ := hcrowd l hl
      exact hplaced (by omega) (by omega)
    · rw [List.mem_singleton.mp hl]
      exact hplaced (by omega) (by omega)
  · refine List.pairwise_map.mpr (List.pairwise_lt_range.imp_of_mem fun {i j} hi hj hlt => ?_)
    have := List.mem_range.mp hj
    exact hplaced (by omega) (by omega)
  · intro l hl l' hl'
    obtain ⟨a, i, hi, rfl⟩ := hcrowd l hl
    rw [List.mem_singleton.mp hl']
    exact hplaced (by omega) (by omega)

/-- Every log is in the first block after the deployment, and none is the factory's. -/
theorem crowdedChain_logs : ∀ l ∈ crowdedChain.logs,
    History.InRange 1178667 1178695 l ∧ l.address ≠ coinblastFactoryAddress .mainnet := by
  have hrange : ∀ a srx txHash index, History.InRange 1178667 1178695 (placedBuy a srx txHash index) :=
    fun _ _ _ _ => ⟨1178667, rfl, by decide, by decide⟩
  intro l hl
  rcases List.mem_cons.mp hl with rfl | hl
  · exact ⟨hrange _ _ _ _, by decide⟩
  · rcases List.mem_append.mp hl with hl | hl
    · obtain ⟨i, -, rfl⟩ := List.mem_map.mp hl
      exact ⟨hrange _ _ _ _, strangerAddress_ne i (by decide)⟩
    · rw [List.mem_singleton.mp hl]
      exact ⟨hrange _ _ _ _, by decide⟩

theorem crowdedChain_silent :
    FactorySilent wordAbi (coinblastFactoryAddress .mainnet) crowdedChain.rpc := by
  intro outages fromBlock toBlock logs outages' h l hl hfactory
  obtain rfl := CbChain.getLogs_ok h
  exact absurd hfactory (crowdedChain_logs l (List.mem_filter.mp hl).1).2

/-! ### The walk over the crowd -/

/-- The history of the chain. -/
def crowdedHistory : History := { crowdedChain.history with keep := dropCurve }

variable {n : History} {ρ ρ' : Replica} {l : RpcLog}

/-- A curve event of an emitter that does not answer as a curve. -/
def IsStrange (n : History) (l : RpcLog) : Prop :=
  (∃ t0, l.topics.head? = some t0 ∧ wordAbi.IsCurveTopic t0) ∧ n.curveViews wordAbi l.address = none

theorem take_strange (h : IsStrange n l) (hknown : hexAddr l.address ∉ ρ.knownCurves)
    (hcached : hexAddr l.address ∉ ρ.knownNonCurves) :
    ρ.take wordAbi n l = (ρ.turnAway n (hexAddr l.address), true) := by
  obtain ⟨⟨t0, htopic, hcurve⟩, hviews⟩ := h
  have hadopt : ρ.adopt wordAbi n l = (ρ, false) := by
    unfold Replica.adopt History.offer
    rw [hviews]
    rfl
  have hvet : ρ.vet wordAbi n l = (ρ.turnAway n (hexAddr l.address), false) := by
    rw [Replica.vet, if_neg hknown, if_neg hcached, hadopt]
  unfold Replica.take
  rw [htopic]
  simp only [hcurve, if_true, hvet]

/-- **Strangers are turned away one after the other**, as long as there is room for them. -/
theorem walk_strangers (hkeep : ∀ set : List Address, set.length < knownNonCurvesMax → n.keep set = set)
    (logs : List RpcLog) :
    ∀ {ρ : Replica}, (∀ l ∈ logs, IsStrange n l ∧ hexAddr l.address ∉ ρ.knownCurves ∧
        hexAddr l.address ∉ ρ.knownNonCurves) →
      (logs.map fun l => hexAddr l.address).Nodup →
      ρ.knownNonCurves.length + logs.length ≤ knownNonCurvesMax →
      ρ.walk (Replica.take wordAbi n) logs = ({ ρ with
        knownNonCurves := (logs.map fun l => hexAddr l.address).reverse ++ ρ.knownNonCurves }, true) := by
  induction logs with
  | nil => exact fun _ _ _ => rfl
  | cons l rest ih =>
      intro ρ hlogs hnodup hroom
      obtain ⟨⟨hstrange, hknown, hcached⟩, hrest⟩ := List.forall_mem_cons.mp hlogs
      obtain ⟨hnew, hnodup⟩ := List.nodup_cons.mp hnodup
      rw [List.length_cons] at hroom
      have hturned : ρ.turnAway n (hexAddr l.address) =
          { ρ with knownNonCurves := hexAddr l.address :: ρ.knownNonCurves } := by
        rw [Replica.turnAway, hkeep _ (by omega), insertAddress, if_neg hcached]
      rw [Replica.walk, take_strange hstrange hknown hcached, hturned]
      simp only
      rw [ih (fun l' hl' => ?_) hnodup (by rw [List.length_cons]; omega)]
      · simp
      · obtain ⟨hstrange', hknown', hcached'⟩ := hrest l' hl'
        refine ⟨hstrange', hknown', fun hmem => ?_⟩
        rcases List.mem_cons.mp hmem with heq | hold
        · exact hnew (List.mem_map.mpr ⟨l', hl', heq⟩)
        · exact hcached' hold

theorem walk_append {step : Replica → RpcLog → Replica × Bool} {logs logs' : List RpcLog} :
    ∀ {ρ ρ' : Replica}, ρ.walk step logs = (ρ', true) →
      ρ.walk step (logs ++ logs') = ρ'.walk step logs' := by
  induction logs with
  | nil =>
      intro ρ ρ' h
      obtain rfl := (Prod.mk.inj h).1
      rfl
  | cons l rest ih =>
      intro ρ ρ' h
      rw [List.cons_append, Replica.walk]
      rw [Replica.walk] at h
      rcases hstep : step ρ l with ⟨ρ₁, done⟩
      rw [hstep] at h
      cases done with
      | true => exact ih h
      | false => exact absurd (Prod.mk.inj h).2 (by simp)

/-- The strangers of the crowd are strangers, and no two of them are the same. -/
theorem crowd_strange {k : Nat} : ∀ l ∈ crowd k, IsStrange crowdedHistory l ∧
    hexAddr l.address ≠ hexAddr curveA := by
  intro l hl
  obtain ⟨i, -, rfl⟩ := List.mem_map.mp hl
  have hne : strangerAddress i ≠ curveA := strangerAddress_ne i (by decide)
  refine ⟨⟨⟨buyTopic, rfl, Or.inl rfl⟩, ?_⟩, fun h => hne (hexAddr_injective h)⟩
  have hfails : curveAnswers curveA tokenA (strangerAddress i) .token = .error (.rpc "reverted") := by
    rw [curveAnswers, if_neg hne]
  show Option.bind (viewResult _ (curveAnswers curveA tokenA (strangerAddress i) .token)).toOption _ = _
  rw [hfails]
  rfl

theorem crowd_nodup {k : Nat} (hk : k ≤ knownNonCurvesMax) :
    ((crowd k).map fun l => hexAddr l.address).Nodup := by
  rw [crowd, List.map_map]
  refine List.Nodup.map_on (fun i hi j hj h => ?_) List.nodup_range
  have hmax : knownNonCurvesMax = 10000 := rfl
  have hi := List.mem_range.mp hi
  have hj := List.mem_range.mp hj
  exact strangerAddress_injOn (by omega) (by omega) (hexAddr_injective h)

@[simp] theorem length_crowd (k : Nat) : (crowd k).length = k := by simp [crowd]

theorem crowd_succ (k : Nat) :
    crowd (k + 1) = crowd k ++ [placedBuy (strangerAddress k) (word 1) 3 (k + 1)] := by
  rw [crowd, List.range_succ, List.map_append]
  rfl

/-! ### The two walks -/

section Frame

variable {set : List Address}

theorem transact_nonCurves (t : CbTxn) :
    ({ ρ with knownNonCurves := set } : Replica).transact t =
      ({ (ρ.transact t).1 with knownNonCurves := set }, (ρ.transact t).2) := by
  unfold Replica.transact
  rcases t.run ρ.store with e | x
  · rfl
  · rfl

theorem adopt_nonCurves :
    ({ ρ with knownNonCurves := set } : Replica).adopt wordAbi n l =
      ({ (ρ.adopt wordAbi n l).1 with knownNonCurves := set }, (ρ.adopt wordAbi n l).2) := by
  unfold Replica.adopt
  split
  · rfl
  · exact transact_nonCurves _

/-- An emitter that is let in with nobody turned away is let in whoever else is. -/
theorem vet_nonCurves (hnone : ρ.knownNonCurves = []) (h : ρ.vet wordAbi n l = (ρ', true))
    (hset : hexAddr l.address ∉ set) :
    ({ ρ with knownNonCurves := set } : Replica).vet wordAbi n l =
      ({ ρ' with knownNonCurves := set }, true) := by
  unfold Replica.vet at h ⊢
  by_cases hknown : hexAddr l.address ∈ ρ.knownCurves
  · simp only [hknown, if_true] at h ⊢
    rw [← (Prod.mk.inj h).1]
  · simp only [hknown, hnone, hset, List.not_mem_nil, if_false, adopt_nonCurves] at h ⊢
    rcases hadopt : ρ.adopt wordAbi n l with ⟨ρ₁, adopted⟩
    rw [hadopt] at h
    cases adopted with
    | true => rw [← (Prod.mk.inj h).1]; rfl
    | false => exact absurd (Prod.mk.inj h).2 (by simp)

/-- So is its event. -/
theorem take_nonCurves (hnone : ρ.knownNonCurves = []) (hvet : (ρ.vet wordAbi n l).2 = true)
    (h : ρ.take wordAbi n l = (ρ', true)) (hset : hexAddr l.address ∉ set) :
    ({ ρ with knownNonCurves := set } : Replica).take wordAbi n l =
      ({ ρ' with knownNonCurves := set }, true) := by
  unfold Replica.take at h ⊢
  generalize l.topics.head? = topic at h ⊢
  rcases topic with _ | t0
  · rw [← (Prod.mk.inj h).1]
  · simp only at h ⊢
    by_cases hcurve : wordAbi.IsCurveTopic t0
    · simp only [hcurve, if_true] at h ⊢
      rcases hv : ρ.vet wordAbi n l with ⟨ρ₁, letIn⟩
      obtain rfl : letIn = true := by rw [hv] at hvet; exact hvet
      rw [hv] at h
      rw [vet_nonCurves hnone hv hset]
      simp only at h ⊢
      generalize curveTxn wordAbi t0 l = x at h ⊢
      rcases x with e | t
      · exact absurd (Prod.mk.inj h).2 (by simp)
      · simp only [transact_nonCurves] at h ⊢
        rw [h]
    · simp only [hcurve, if_false] at h ⊢
      rw [← (Prod.mk.inj h).1]

end Frame

/-- Nothing is known and nobody has been turned away. -/
def blankReplica : Replica := ⟨.empty, [], []⟩

/-- What the second buy alone comes to. -/
def laterReplica : Replica := (blankReplica.take wordAbi crowdedHistory laterBuy).1

/-- What the first buy after it comes to. -/
def earlierReplica : Replica :=
  ((Replica.boot laterReplica.store).take wordAbi crowdedHistory earlierBuy).1

/-- And the second buy once more. -/
def bothReplica : Replica := (earlierReplica.take wordAbi crowdedHistory laterBuy).1

theorem dropCurve_of_room {set : List Address} (h : set.length < knownNonCurvesMax) :
    dropCurve set = set := by
  rw [dropCurve, if_neg fun hc => absurd hc.2 (by omega), dropVictim, if_neg (by omega)]

/-- **The last stranger makes the full set drop the curve.** -/
theorem walk_full {logs : List RpcLog} {last : RpcLog} (hknown : ρ.knownCurves = [])
    (hcurve : ρ.knownNonCurves = [hexAddr curveA]) (hroom : 1 + logs.length = knownNonCurvesMax)
    (hall : ∀ l ∈ logs ++ [last], IsStrange crowdedHistory l ∧
      hexAddr l.address ≠ hexAddr curveA)
    (hnodup : ((logs ++ [last]).map fun l => hexAddr l.address).Nodup) :
    ∃ set, hexAddr curveA ∉ set ∧ ρ.walk (Replica.take wordAbi crowdedHistory) (logs ++ [last]) =
      ({ ρ with knownNonCurves := set }, true) := by
  rw [List.map_append, List.nodup_append] at hnodup
  obtain ⟨hnodup, -, hlast⟩ := hnodup
  have hwalk := walk_strangers (n := crowdedHistory) (fun _ => dropCurve_of_room) logs
    (ρ := ρ) (fun l hl => ?_) hnodup (by rw [hcurve, List.length_singleton, hroom])
  · rw [hcurve] at hwalk
    generalize hfull : (logs.map fun l => hexAddr l.address).reverse ++ [hexAddr curveA] = full
      at hwalk
    have hmem : hexAddr curveA ∈ full := by simp [← hfull]
    have hlength : full.length = knownNonCurvesMax := by
      rw [← hroom, ← hfull]
      simp [Nat.add_comm]
    have hfullNodup : full.Nodup := by
      rw [← hfull]
      refine List.nodup_append.mpr ⟨List.nodup_reverse.mpr hnodup, by simp, fun a ha b hb => ?_⟩
      obtain ⟨l, hl, rfl⟩ := List.mem_map.mp (List.mem_reverse.mp ha)
      rw [List.mem_singleton.mp hb]
      exact (hall l (List.mem_append_left _ hl)).2
    obtain ⟨hstrange, hne⟩ := hall last (by simp)
    have hfresh : hexAddr last.address ∉ full := by
      rw [← hfull]
      intro h
      rcases List.mem_append.mp h with hold | hcurve
      · exact hlast _ (List.mem_reverse.mp hold) _ (by simp) rfl
      · exact hne (List.mem_singleton.mp hcurve)
    have hdrop : dropCurve full = full.erase (hexAddr curveA) := by
      rw [dropCurve, if_pos ⟨hmem, hlength.ge⟩]
    refine ⟨insertAddress (full.erase (hexAddr curveA)) (hexAddr last.address), fun h => ?_, ?_⟩
    · rcases mem_insertAddress.mp h with hold | heq
      · exact hfullNodup.not_mem_erase hold
      · exact hne heq.symm
    · have htake := take_strange (ρ := { ρ with knownNonCurves := full }) hstrange
        (by rw [hknown]; exact List.not_mem_nil) hfresh
      rw [walk_append hwalk, Replica.walk, htake]
      show (({ ρ with knownNonCurves := insertAddress (dropCurve full) _ } : Replica), true) = _
      rw [hdrop]
  · obtain ⟨hstrange, hne⟩ := hall l (List.mem_append_left _ hl)
    rw [hknown, hcurve]
    exact ⟨hstrange, List.not_mem_nil, by simpa using hne⟩

/-- **In the first attempt** the curve is let in at its second buy. -/
theorem walk_first : ∃ set, ({ blankReplica with knownNonCurves := [hexAddr curveA] } : Replica).walk
    (Replica.take wordAbi crowdedHistory) (crowd knownNonCurvesMax ++ [laterBuy]) =
      ({ laterReplica with knownNonCurves := set }, true) := by
  have hcrowd : crowd knownNonCurvesMax = crowd 9999 ++ _ := crowd_succ 9999
  have hnodup := crowd_nodup (k := knownNonCurvesMax) le_rfl
  have hall : ∀ l ∈ crowd knownNonCurvesMax, _ := crowd_strange
  rw [hcrowd] at hnodup hall
  obtain ⟨set, hgone, hwalk⟩ := walk_full
    (ρ := { blankReplica with knownNonCurves := [hexAddr curveA] }) rfl rfl
    (by rw [length_crowd]; rfl) hall hnodup
  have hlater : blankReplica.take wordAbi crowdedHistory laterBuy = (laterReplica, true) :=
    Prod.ext rfl (by decide +kernel)
  refine ⟨set, ?_⟩
  rw [← hcrowd] at hwalk
  have htake := take_nonCurves rfl (by decide +kernel) hlater hgone
  rw [walk_append hwalk, Replica.walk]
  simp only
  rw [htake]
  rfl

/-- **In the second attempt** the curve is known, and the first buy goes in. -/
theorem walk_second : ∃ set, (Replica.boot laterReplica.store).walk
    (Replica.take wordAbi crowdedHistory) crowdedChain.logs =
      ({ bothReplica with knownNonCurves := set }, true) := by
  have hearlier : (Replica.boot laterReplica.store).take wordAbi crowdedHistory earlierBuy =
      (earlierReplica, true) := Prod.ext rfl (by decide +kernel)
  have hlater : earlierReplica.take wordAbi crowdedHistory laterBuy = (bothReplica, true) :=
    Prod.ext rfl (by decide +kernel)
  have hknown : earlierReplica.knownCurves = [hexAddr curveA] := by decide +kernel
  have hnone : earlierReplica.knownNonCurves = [] := by decide +kernel
  have hall : ∀ l ∈ crowd knownNonCurvesMax, IsStrange crowdedHistory l ∧
      hexAddr l.address ∉ earlierReplica.knownCurves ∧
      hexAddr l.address ∉ earlierReplica.knownNonCurves := by
    intro l hl
    obtain ⟨hstrange, hne⟩ := crowd_strange l hl
    rw [hknown, hnone]
    exact ⟨hstrange, by simpa using hne, List.not_mem_nil⟩
  have hcrowd := walk_strangers (n := crowdedHistory) (fun _ => dropCurve_of_room) _ hall
    (crowd_nodup le_rfl) (by rw [length_crowd, hnone]; simp)
  let set := ((crowd knownNonCurvesMax).map fun l => hexAddr l.address).reverse ++
    earlierReplica.knownNonCurves
  have hout : hexAddr laterBuy.address ∉ set := by
    show _ ∉ _ ++ _
    rw [hnone, List.append_nil, List.mem_reverse]
    intro hmem
    obtain ⟨l, hl, heq⟩ := List.mem_map.mp hmem
    exact (crowd_strange l hl).2 heq
  refine ⟨set, ?_⟩
  show Replica.walk _ _ (earlierBuy :: _) = _
  rw [Replica.walk, hearlier]
  show Replica.walk _ earlierReplica _ = _
  rw [walk_append hcrowd, Replica.walk,
    take_nonCurves hnone (by decide +kernel) hlater hout]
  rfl

/-! ### The runs -/

/-- The nodes of the chain answer everything once no outage is to come. -/
theorem exists_harmless (w : CbWorld Outages) (c : CbCall) (h : w.chain = []) :
    ∃ r w', harmlessHandle wordAbi crowdedHistory crowdedChain.rpc w c r w' ∧ w'.chain = [] := by
  by_cases hc : ∃ a, c = .cacheNonCurve a
  · obtain ⟨a, rfl⟩ := hc
    refine ⟨(), { w with knownNonCurves := insertAddress (dropCurve w.knownNonCurves) a },
      ⟨⟨_, ?_, rfl⟩, rfl⟩, h⟩
    unfold dropCurve
    by_cases hfull : hexAddr curveA ∈ w.knownNonCurves ∧
        knownNonCurvesMax ≤ w.knownNonCurves.length
    · rw [if_pos hfull, CachedNonCurve, if_pos hfull.2]
      exact ⟨_, hfull.1, rfl⟩
    · rw [if_neg hfull]
      exact cachedNonCurve_dropVictim _ _
  · refine ⟨_, _, ⟨cbHandle_cbServe crowdedChain.answers w c, CbChain.answers_cbServe (fun c => ?_) c
      fun a ha => hc ⟨a, ha⟩⟩, ?_⟩
    · rw [h]
      exact Or.inl rfl
    · cases c with
      | chain c => exact congrArg List.tail h
      | transact t =>
          rcases ht : t.run w.store with e | x
          · simp only [cbServe, ht, h]
          · simp only [cbServe, ht, h]
      | _ => exact h

/-- **Pass 2 over logs without outages** has a run, and it comes to what the replica comes to. -/
theorem exists_passTwo {w : CbWorld Outages} {logs : List RpcLog} (hchain : w.chain = [])
    (hlogs : ∀ l ∈ logs, History.InRange 1178667 1178695 l) (h : Agrees w ρ)
    (hwalk : ρ.walk (Replica.take wordAbi crowdedHistory) logs = (ρ', true)) :
    ∃ w', Run (cbHandle crowdedChain.rpc) w (passTwo wordAbi logs).run.toProg w' (.ok ()) ∧
      Agrees w' ρ' ∧ w'.chain = [] := by
  obtain ⟨w', r, hrun, hchain'⟩ := Script.exists_run (J := fun w : CbWorld Outages => w.chain = [])
    exists_harmless hchain
    (p := (passTwo wordAbi logs).run)
  have hfollow := (wp_run .refl hrun (I := Beyond 1178666 w.store) ⟨.refl _ _, rfl⟩
    (follow_passTwo (by decide) hlogs h)).2
  rw [hwalk] at hfollow
  obtain ⟨hagrees, hdone⟩ := hfollow
  cases r with
  | ok u => exact ⟨w', hrun.mono fun _ _ _ _ hH => hH.1, hagrees, hchain'⟩
  | error e => exact absurd hdone (by simp [Except.isOk, Except.toBool])

/-- A probe whose first call fails. -/
theorem run_tryAdopt_failed {H : Handler CbSig (CbWorld Outages)} {w w' : CbWorld Outages}
    {candidate : EvmAddress} {block : Int} {txHash : Hash} {e : ChainError}
    (h : H w (.chain (.ethCall candidate .token)) (.error e) w') :
    Run H w (tryAdopt wordAbi candidate block txHash).run.toProg w' (.ok false) := by
  have htoken : Run H w (callToken wordAbi candidate).run.toProg w' (.error (.chain e)) := by
    show Run H w (Prog.call (S := CbSig) (.chain (.ethCall candidate .token)) _) w' _
    exact run_call.mpr ⟨.error e, w', h, Run.pure _ _⟩
  have hviews : Run H w (curveViews wordAbi candidate).run.toProg w' (.ok none) :=
    run_scriptE_bind.mpr (Or.inl ⟨w', .error (.chain e), run_liftRun.mpr ⟨_, htoken, rfl⟩,
      Run.pure _ _⟩)
  exact run_scriptE_bind.mpr (Or.inl ⟨w', none, hviews, Run.pure _ _⟩)

/-- An outage makes the emitter of an event be turned away. -/
theorem run_outage {w : CbWorld Outages} {chain : Outages} {t0 : B256}
    (hchain : w.chain = true :: chain) (htopic : l.topics.head? = some t0)
    (hcurve : wordAbi.IsCurveTopic t0) (hknown : hexAddr l.address ∉ w.knownCurves)
    (hnone : w.knownNonCurves = []) :
    Run (cbHandle crowdedChain.rpc) w (curveLog wordAbi l).run.toProg
      { w with chain := chain, knownNonCurves := [hexAddr l.address] } (.ok ()) := by
  have hisKnown : Run (cbHandle crowdedChain.rpc) w
      (ExceptT.lift (CbCall.isKnown (hexAddr l.address)).ask : CbScript Bool).run.toProg w
      (.ok false) :=
    run_liftAsk.mpr ⟨false, ⟨(decide_eq_false hknown).symm, rfl⟩, rfl⟩
  have hisNonCurve : Run (cbHandle crowdedChain.rpc) w
      (ExceptT.lift (CbCall.isNonCurve (hexAddr l.address)).ask : CbScript Bool).run.toProg w
      (.ok false) := by
    refine run_liftAsk.mpr ⟨false, ⟨(decide_eq_false ?_).symm, rfl⟩, rfl⟩
    rw [hnone]
    exact List.not_mem_nil
  have hprobe : ∀ block txHash, Run (cbHandle crowdedChain.rpc) w
      (tryAdopt wordAbi l.address block txHash).run.toProg { w with chain := chain } (.ok false) := by
    refine fun block txHash => run_tryAdopt_failed (e := .rpc "connection reset") ⟨chain, ?_, rfl⟩
    rw [hchain]
    rfl
  have hturned : Run (cbHandle crowdedChain.rpc) { w with chain := chain }
      (ExceptT.lift (CbCall.cacheNonCurve (hexAddr l.address)).ask : CbScript Unit).run.toProg
      { w with chain := chain, knownNonCurves := [hexAddr l.address] } (.ok ()) := by
    refine run_liftAsk.mpr ⟨(), ⟨_, ?_, rfl⟩, rfl⟩
    show CachedNonCurve w.knownNonCurves _ _
    rw [hnone]
    exact cachedNonCurve_dropVictim [] _
  have hadmit : Run (cbHandle crowdedChain.rpc) w (vetEmitter wordAbi l).run.toProg
      { w with chain := chain, knownNonCurves := [hexAddr l.address] } (.ok false) := by
    refine run_scriptE_bind.mpr (Or.inl ⟨w, false, hisKnown, ?_⟩)
    refine run_scriptE_bind.mpr (Or.inl ⟨w, false, hisNonCurve, ?_⟩)
    refine run_scriptE_bind.mpr (Or.inl ⟨_, .ok false, run_liftRun.mpr ⟨_, hprobe _ _, rfl⟩, ?_⟩)
    exact run_scriptE_bind.mpr (Or.inl ⟨_, (), hturned, Run.pure _ _⟩)
  unfold curveLog
  simp only [htopic, hcurve, if_true]
  exact run_scriptE_bind.mpr (Or.inl ⟨_, false, hadmit, Run.pure _ _⟩)

/-! ### A pass -/

/-- The state after an answer of the nodes. -/
def CbWorld.asked (n : CbChain) (w : CbWorld Outages) (c : CbChainCall) : CbWorld Outages :=
  { w with chain := w.chain.tail, record := w.record.noteChain c (n.answer c) }

theorem handle_asked {n : CbChain} {w : CbWorld Outages} (h : w.chain.head? ≠ some true)
    (c : CbChainCall) : cbHandle n.rpc w (.chain c) (n.answer c) (w.asked n c) := by
  refine ⟨w.chain.tail, ?_, rfl⟩
  show _ = (if w.chain.head? = some true then _ else _, _)
  rw [if_neg h]

/-- A retried call whose first attempt is answered. -/
theorem run_cbRetry_ok {α : Type} {H : Handler CbSig (CbWorld Outages)} {w w' : CbWorld Outages}
    {op : Script CbSig (Except ChainError α)} {v : α} (h : Run H w op.toProg w' (.ok v)) :
    Run H w (cbRetry op).run.toProg w' (.ok v) := by
  have hretry : Run H w (retryWithBackoff (fun nanos => (CbCall.sleep nanos).ask)
      BackoffConfig.default op).toProg w' (.ok v) := by
    unfold retryWithBackoff retryFrom
    show Run H w (op.bind _).toProg w' _
    rw [Script.toProg_bind]
    exact run_bind.mpr ⟨w', .ok v, h, Run.pure _ _⟩
  show Run H w (Script.bind _ _).toProg w' _
  rw [Script.toProg_bind]
  exact run_bind.mpr ⟨w', .ok v, hretry, Run.pure _ _⟩

theorem run_logsInRange {n : CbChain} {w : CbWorld Outages} (h : w.chain.head? ≠ some true)
    (fromBlock toBlock : Int) (address : Option EvmAddress) (hrange : ¬ toBlock < fromBlock)
    (hfrom : heightAsU64 fromBlock ≠ none) (hto : heightAsU64 toBlock ≠ none) :
    Run (cbHandle n.rpc) w (cbRetry (cbLogsInRange fromBlock toBlock address)).run.toProg
      (w.asked n (.getLogs fromBlock toBlock address))
      (.ok (n.history.logsIn fromBlock toBlock address)) := by
  refine run_cbRetry_ok ?_
  rw [cbLogsInRange, logsInRange, if_neg hrange, if_neg hfrom, if_neg hto]
  have hanswer : (Except.ok (n.history.logsIn fromBlock toBlock address)) =
      n.answer (.getLogs fromBlock toBlock address) :=
    n.history_answer .empty (.getLogs fromBlock toBlock address)
  rw [hanswer]
  exact run_ask.mpr (handle_asked h _)

/-- The chunk the worker takes from an empty database. -/
theorem run_crowdedChunk {w w' : CbWorld Outages} (h₁ : w.chain.head? ≠ some true)
    (h₂ : w.chain.tail.head? ≠ some true)
    (hpass : Run (cbHandle crowdedChain.rpc)
      ((w.asked crowdedChain (.getLogs 1178667 1178695 (some (coinblastFactoryAddress .mainnet)))).asked
        crowdedChain (.getLogs 1178667 1178695 none))
      (passTwo wordAbi crowdedChain.logs).run.toProg w' (.ok ())) :
    Run (cbHandle crowdedChain.rpc) w
      (runChunk wordAbi 1178667 1178695 (coinblastFactoryAddress .mainnet)).run.toProg w'
      (.ok ()) := by
  have hfactory : crowdedChain.history.logsIn 1178667 1178695
      (some (coinblastFactoryAddress .mainnet)) = [] := by
    refine List.filter_eq_nil_iff.mpr fun l hl => ?_
    simp [(crowdedChain_logs l hl).2]
  have hall : crowdedChain.history.logsIn 1178667 1178695 none = crowdedChain.logs := by
    refine List.filter_eq_self.mpr fun l hl => ?_
    simp [(crowdedChain_logs l hl).1]
  have hlogs := run_logsInRange (n := crowdedChain) (w := w) h₁ 1178667 1178695
    (some (coinblastFactoryAddress .mainnet)) (by decide) (by decide) (by decide)
  rw [hfactory] at hlogs
  have hlogs' := run_logsInRange (n := crowdedChain)
    (w := w.asked crowdedChain (.getLogs 1178667 1178695 (some (coinblastFactoryAddress .mainnet))))
    h₂ 1178667 1178695 none (by decide) (by decide) (by decide)
  rw [hall] at hlogs'
  refine run_scriptE_bind.mpr (Or.inl ⟨_, [], hlogs, ?_⟩)
  refine run_scriptE_bind.mpr (Or.inl ⟨_, (), Run.pure _ _, ?_⟩)
  exact run_scriptE_bind.mpr (Or.inl ⟨_, crowdedChain.logs, hlogs', hpass⟩)

/-- The pass the worker begins with an empty database, up to the end of its chunk. -/
theorem getsTo_afterChunk {w w₁ w' : CbWorld Outages} (hrunning : w.cancelled = false)
    (hcursor : w.store.cursor = none) (h₁ : w.chain.head? ≠ some true)
    (hchunk : Run (cbHandle crowdedChain.rpc) (w.asked crowdedChain .blockNumber)
      (runChunk wordAbi 1178667 1178695 (coinblastFactoryAddress .mainnet)).run.toProg w₁ (.ok ()))
    (h : GetsTo (cbHandle crowdedChain.rpc) w₁
      (Script.toProgE (afterChunk mainnetConfig 1178695 (.ok ()))).run w') :
    GetsTo (cbHandle crowdedChain.rpc) w
      (Script.toProgE (workerPass wordAbi mainnetConfig)).run w' := by
  have hread : Run (cbHandle crowdedChain.rpc) w
      (readCoinblastCursor .mainnet).run.toProg w (.ok 1178666) := by
    refine run_scriptE_bind.mpr (Or.inl ⟨w, none, ?_, Run.pure _ _⟩)
    exact run_ask.mpr ⟨rfl, Or.inl (by rw [hcursor])⟩
  have htip : Run (cbHandle crowdedChain.rpc) w (cbRetry (CbCall.chain .blockNumber).ask).run.toProg
      (w.asked crowdedChain .blockNumber) (.ok 1178700) :=
    run_cbRetry_ok (run_ask.mpr (handle_asked h₁ _))
  unfold workerPass
  refine getsTo_scriptE_bind (run_liftAsk.mpr ⟨false, ⟨hrunning.symm, rfl⟩, rfl⟩) ?_
  refine getsTo_scriptE_bind hread (getsTo_scriptE_bind htip ?_)
  exact getsTo_scriptE_bind (run_liftRun.mpr ⟨_, hchunk, rfl⟩) h

/-- The state of a process that has started. -/
def CbWorld.booted {χ : Type} (w : CbWorld χ) : CbWorld χ :=
  { w with
    knownCurves := (CbTokens.knownCurveAddresses w.store).map lowercase
    knownNonCurves := []
    record := { w.record with phase := .between, created := [] } }

theorem getsTo_mainnetWorker {w w' : CbWorld Outages}
    (h : GetsTo (cbHandle crowdedChain.rpc) w.booted
      (Script.toProgE (workerPass wordAbi mainnetConfig)).run w') :
    GetsTo (cbHandle crowdedChain.rpc) w mainnetWorker w' := by
  have hhydrate : Run (cbHandle crowdedChain.rpc) w hydrateKnownCurves.run.toProg w.booted
      (.ok ()) := by
    refine run_scriptE_bind.mpr (Or.inl ⟨w, _, run_ask.mpr ⟨rfl, Or.inl rfl⟩, ?_⟩)
    exact run_liftAsk.mpr ⟨(), rfl, rfl⟩
  exact getsTo_bindE hhydrate (getsTo_iterateE h)

/-- **The first process** lets the curve in at its second buy. -/
theorem first_process : ∃ w set, GetsTo (cbHandle crowdedChain.rpc)
      (.init [false, false, false, true] .empty) mainnetWorker w ∧
    Agrees w { laterReplica with knownNonCurves := set } ∧ w.chain = [] := by
  obtain ⟨set, hwalk⟩ := walk_first
  let w₁ : CbWorld Outages :=
    (((CbWorld.init [false, false, false, true] .empty).booted.asked crowdedChain .blockNumber).asked
      crowdedChain (.getLogs 1178667 1178695 (some (coinblastFactoryAddress .mainnet)))).asked
      crowdedChain (.getLogs 1178667 1178695 none)
  have houtage : Run (cbHandle crowdedChain.rpc) w₁ (curveLog wordAbi earlierBuy).run.toProg
      { w₁ with chain := [], knownNonCurves := [hexAddr curveA] } (.ok ()) :=
    run_outage (l := earlierBuy) rfl rfl (Or.inl rfl) List.not_mem_nil rfl
  obtain ⟨w₂, hrun, hagrees, hchain⟩ := exists_passTwo
    (w := { w₁ with chain := [], knownNonCurves := [hexAddr curveA] }) rfl
    (fun l hl => (crowdedChain_logs l (List.mem_cons_of_mem _ hl)).1) ⟨rfl, rfl, rfl⟩ hwalk
  have hchunk := run_crowdedChunk
    (w := (CbWorld.init [false, false, false, true] .empty).booted.asked crowdedChain .blockNumber)
    (by decide) (by decide) (run_scriptE_bind.mpr (Or.inl ⟨_, (), houtage, hrun⟩))
  refine ⟨w₂, set, getsTo_mainnetWorker ?_, hagrees, hchain⟩
  exact getsTo_afterChunk rfl rfl (by decide) hchunk ⟨_, .refl _ _⟩

theorem knownCurveAddresses_unnamed (s : CbStore) :
    CbTokens.knownCurveAddresses s.unnamed = CbTokens.knownCurveAddresses s := by
  show (s.tokens.rows.map CbToken.unnamed).map CbToken.curveAddress = _
  rw [List.map_map]
  rfl

/-- **The second process** writes the first buy after the second, and is done with the chunk. -/
theorem second_process {s : CbStore} (hs : s.unnamed = laterReplica.store.unnamed) :
    ∃ w, GetsTo (cbHandle crowdedChain.rpc) (.init [] s) mainnetWorker w ∧
      w.record.phase = .between ∧ w.store.trades = bothReplica.store.trades ∧
      w.store.tokens.rows.map CbToken.unnamed =
        bothReplica.store.tokens.rows.map CbToken.unnamed := by
  obtain ⟨set, hwalk⟩ := walk_second
  let w₁ : CbWorld Outages :=
    (((CbWorld.init [] s).booted.asked crowdedChain .blockNumber).asked
      crowdedChain (.getLogs 1178667 1178695 (some (coinblastFactoryAddress .mainnet)))).asked
      crowdedChain (.getLogs 1178667 1178695 none)
  have hknown : CbTokens.knownCurveAddresses s = CbTokens.knownCurveAddresses laterReplica.store := by
    rw [← knownCurveAddresses_unnamed, hs, knownCurveAddresses_unnamed]
  have hboot : Agrees w₁ (Replica.boot laterReplica.store) := by
    refine ⟨hs, ?_, rfl⟩
    show (CbTokens.knownCurveAddresses s).map lowercase = _
    rw [hknown]
    rfl
  obtain ⟨w₂, hrun, hagrees, -⟩ := exists_passTwo (w := w₁) rfl
    (fun l hl => (crowdedChain_logs l hl).1) hboot hwalk
  have hcursor : s.cursor = none := by
    rw [← cursor_unnamed (s := s), hs, cursor_unnamed]
    decide +kernel
  have hchunk := run_crowdedChunk (w := (CbWorld.init [] s).booted.asked crowdedChain .blockNumber)
    (by simp [CbWorld.booted, CbWorld.asked, CbWorld.init])
    (by simp [CbWorld.booted, CbWorld.asked, CbWorld.init]) hrun
  obtain ⟨s', hset, htokens, htrades⟩ : ∃ s', setCursor 1178695 w₂.store = .ok ((), s') ∧
      s'.tokens = w₂.store.tokens ∧ s'.trades = w₂.store.trades := ⟨_, rfl, rfl, rfl⟩
  have hdone : Run (cbHandle crowdedChain.rpc) w₂ (cbTransact (.setCursor 1178695)).run.toProg
      { w₂ with store := s', record := { w₂.record with phase := .between } } (.ok ()) :=
    run_ask.mpr (Or.inl ⟨(), s', hset, Or.inl rfl, rfl⟩)
  refine ⟨_, getsTo_mainnetWorker (getsTo_afterChunk rfl hcursor
    (by simp [CbWorld.booted, CbWorld.init]) hchunk (getsTo_scriptE_bind hdone ⟨_, .refl _ _⟩)),
    rfl, ?_, ?_⟩
  · show s'.trades = _
    rw [htrades, ← trades_unnamed (s := w₂.store), hagrees.store]
    rfl
  · show s'.tokens.rows.map CbToken.unnamed = _
    rw [htokens]
    exact congrArg (fun s : CbStore => s.tokens.rows) hagrees.store

/-- The deals of both buys are stored, and the curve has the price of the first. -/
theorem both_mispriced {s : CbStore} (htrades : s.trades = bothReplica.store.trades)
    (htokens : s.tokens.rows.map CbToken.unnamed =
      bothReplica.store.tokens.rows.map CbToken.unnamed) :
    ∃ r ∈ s.tokens.rows, ¬ LatestPriced s r := by
  have hrow : ∃ r ∈ bothReplica.store.tokens.rows, r.curveAddress = hexAddr curveA ∧
      r.lastPriceSrx = 5 := by
    have hany : (bothReplica.store.tokens.rows.any fun r =>
        r.curveAddress = hexAddr curveA ∧ r.lastPriceSrx = 5) = true := by decide +kernel
    simpa using hany
  have hlater : ∃ t ∈ bothReplica.store.trades.rows, (t.curveAddress = hexAddr curveA ∧
      t.kind ≠ .graduated) ∧ t.blockNumber = 1178667 ∧ t.logIndex = 10001 := by
    have hany : (bothReplica.store.trades.rows.any fun t => (t.curveAddress = hexAddr curveA ∧
        t.kind ≠ .graduated) ∧ t.blockNumber = 1178667 ∧ t.logIndex = 10001) = true := by
      decide +kernel
    simpa using hany
  have hprices : ∀ t ∈ bothReplica.store.trades.rows,
      pricePerToken t.srxAmount t.tokenAmount = 5 → t.blockNumber = 1178667 ∧ t.logIndex = 0 := by
    have hall : (bothReplica.store.trades.rows.all fun t =>
        pricePerToken t.srxAmount t.tokenAmount = 5 → t.blockNumber = 1178667 ∧ t.logIndex = 0) =
          true := by decide +kernel
    exact fun t ht => of_decide_eq_true (List.all_eq_true.mp hall t ht)
  obtain ⟨r', hr', hcurve, hprice⟩ := hrow
  have hmem : r'.unnamed ∈ s.tokens.rows.map CbToken.unnamed := by
    rw [htokens]
    exact List.mem_map_of_mem hr'
  obtain ⟨r, hr, hsame⟩ := List.mem_map.mp hmem
  have hcurve' : r.curveAddress = hexAddr curveA :=
    (congrArg CbToken.curveAddress hsame).trans hcurve
  have hprice' : r.lastPriceSrx = 5 := (congrArg CbToken.lastPriceSrx hsame).trans hprice
  refine ⟨r, hr, fun h => ?_⟩
  obtain ⟨later, hmem, hdeal, hblock, hindex⟩ := hlater
  rw [← htrades] at hmem hprices
  have hlaterDeal : later ∈ s.dealsOf r.curveAddress :=
    mem_dealsOf.mpr ⟨hmem, hdeal.1.trans hcurve'.symm, hdeal.2⟩
  obtain ⟨t, ht, hlatest, hpriced⟩ := h (List.ne_nil_of_mem hlaterDeal)
  obtain ⟨hblock', hindex'⟩ := hprices t (mem_dealsOf.mp ht).1 (hpriced.symm.trans hprice')
  have hle := hlatest later hlaterDeal
  rw [CbTrade.position, CbTrade.position, hblock, hindex, hblock', hindex'] at hle
  exact absurd hle (by decide)

/-- **A deal that goes in late sets the price**: between two chunks the curve has the price of its
first buy, though its second is stored. -/
theorem late_deal_sets_price :
    HonoursFilter crowdedChain.rpc ∧
    FactorySilent wordAbi (coinblastFactoryAddress .mainnet) crowdedChain.rpc ∧
    DeliversInOrder crowdedChain.rpc (· ∈ crowdedChain.logs) ∧
    ∃ c, Reachable (coinblast wordAbi mainnetConfig crowdedChain.rpc fun _ _ => False)
        (.init [false, false, false, true] .empty) c ∧ c.world.record.phase = .between ∧
      ∃ r ∈ c.world.store.tokens.rows, ¬ LatestPriced c.world.store r := by
  refine ⟨fun _ _ _ _ _ _ h => crowdedChain.honoursFilter h, crowdedChain_silent,
    CbChain.deliversInOrder crowdedChain_ordered, ?_⟩
  obtain ⟨w, set, ⟨p, hfirst⟩, hagrees, hchain⟩ := first_process
  obtain ⟨w', ⟨p', hsecond⟩, hphase, htrades, htokens⟩ := second_process (s := w.store) hagrees.store
  have hcrashed : Reachable (coinblast wordAbi mainnetConfig crowdedChain.rpc fun _ _ => False)
      (.init [false, false, false, true] .empty) (.idle w.restart) :=
    (((Reachable.init).move (Move.start () mainnetWorker rfl rfl)).steps (i := ()) (by simp)
      hfirst).move (Move.crash rfl)
  have hrestarted : w.restart = .init [] w.store := by rw [CbWorld.restart, hchain]
  rw [hrestarted] at hcrashed
  have hreach := (hcrashed.move (Move.start () mainnetWorker rfl rfl)).steps (i := ()) (by simp)
    hsecond
  exact ⟨_, hreach, hphase, both_mispriced htrades htokens⟩

end SentrixIndexer
