/-
How the contract detector works off its queue.

A sweep takes some unclassified addresses, in whatever order the database gives them, and
each of them leaves the queue unless its probe fails.  Addresses whose probe always fails
stay, and nothing keeps a sweep from taking them again.  As long as they are fewer than a
batch every sweep brings some other address off, and the queue drains but for them; as soon
as they fill a batch, the sweeps may go on over them for ever and classify nothing.
-/
import SentrixIndexer.Effect.Partway
import SentrixIndexer.Proofs.Classification

namespace SentrixIndexer

open Effect Relational

variable {χ : Type} {rpc : CodeRpc χ} {fails : EvmAddress → Bool}
variable {keccak256 : List UInt8 → B256} {batch : Int} {w w' : DetectWorld χ}

/-! ### The surroundings -/

/-- Each probe has an answer, and it is the addresses in `fails` whose probes fail. -/
structure SteadyNodes (rpc : CodeRpc χ) (fails : EvmAddress → Bool) : Prop where
  answers : ∀ chain a, ∃ r chain', rpc chain a r chain'
  fails_iff : ∀ chain a r chain', rpc chain a r chain' → (fails a = true ↔ ∃ e, r = .error e)

/-- No statement fails, and no reply is lost. -/
def StatementRuns : (c : DetectCall) → c.Answer → Prop
  | .unclassifiedBatch _, .error _ => False
  | .classify _ _ _, .error _ => False
  | _, _ => True

/-- The detector alone with its nodes and a database that serves it. -/
def undisturbedDetect (rpc : CodeRpc χ) : Handler DetectSig (DetectWorld χ) := fun w c r w' =>
  detectHandle rpc w c r w' ∧ StatementRuns c r

/-- Whose probe fails every time. -/
def stuck (fails : EvmAddress → Bool) (address : Address) : Bool :=
  (parseAddress address).any fails

/-- Any number of sweeps that are not cancelled. -/
inductive Sweeps (rpc : CodeRpc χ) (keccak256 : List UInt8 → B256) (batch : Int) :
    Nat → DetectWorld χ → DetectWorld χ → Prop
  | none (w : DetectWorld χ) : Sweeps rpc keccak256 batch 0 w w
  | next {k : Nat} {w w₁ w' : DetectWorld χ} (h : Sweeps rpc keccak256 batch k w w₁)
      (hs : Run (undisturbedDetect rpc) w₁ (Script.toProgE (detectorPass keccak256 batch)).run w'
        (.ok (.inl ()))) : Sweeps rpc keccak256 batch (k + 1) w w'

/-! ### The queue -/

theorem unclassified_nodup (s : Store) : (Addresses.unclassified s).Nodup :=
  s.addresses.nodup.sublist (List.filter_sublist.map _)

/-- **A classified address leaves the queue**, and no other does. -/
theorem unclassified_classify {address : Address} {isContract : Bool} {codeHash : String}
    {s s' : Store} (h : Addresses.classify address isContract codeHash s = .ok s') :
    Addresses.unclassified s' = (Addresses.unclassified s).filter (· ≠ address) := by
  obtain rfl := Except.ok.inj h
  unfold Addresses.unclassified
  show ((s.addresses.rows.map fun r => if r.address = address
    then { r with isContract := isContract, codeHash := some codeHash } else r).filter _).map _ = _
  induction s.addresses.rows with
  | nil => rfl
  | cons r rest ih =>
      rw [List.map_cons]
      by_cases hr : r.address = address
      · rw [if_pos hr, List.filter_cons_of_neg (by simp [Addresses.IsUnclassified]), ih]
        by_cases hun : r.codeHash = none
        · rw [List.filter_cons_of_pos (by simp [Addresses.IsUnclassified, hun]), List.map_cons,
            List.filter_cons_of_neg (by simp [hr])]
        · rw [List.filter_cons_of_neg (by simp [Addresses.IsUnclassified, hun])]
      · rw [if_neg hr]
        by_cases hun : r.codeHash = none
        · have hkeep : decide (Addresses.IsUnclassified r) = true := by
            simp [Addresses.IsUnclassified, hun]
          rw [List.filter_cons_of_pos (p := fun r => decide (Addresses.IsUnclassified r)) hkeep,
            List.filter_cons_of_pos (p := fun r => decide (Addresses.IsUnclassified r)) hkeep,
            List.map_cons, List.map_cons, List.filter_cons_of_pos (by simp [hr]), ih]
        · have hdrop : ¬ decide (Addresses.IsUnclassified r) = true := by
            simp [Addresses.IsUnclassified, hun]
          rw [List.filter_cons_of_neg (p := fun r => decide (Addresses.IsUnclassified r)) hdrop,
            List.filter_cons_of_neg (p := fun r => decide (Addresses.IsUnclassified r)) hdrop, ih]

/-- What is left of the queue when these have been taken. -/
def leftBy (fails : EvmAddress → Bool) (taken queue : List Address) : List Address :=
  queue.filter fun a => stuck fails a || !taken.contains a

theorem leftBy_nil (queue : List Address) : leftBy fails [] queue = queue := by
  unfold leftBy
  simp

theorem leftBy_cons (a : Address) (rest queue : List Address) :
    leftBy fails (a :: rest) queue = leftBy fails rest (leftBy fails [a] queue) := by
  unfold leftBy
  rw [List.filter_filter]
  refine List.filter_congr fun b _ => ?_
  cases stuck fails b with
  | true => rfl
  | false => simp [Bool.and_comm]

/-! ### A sweep -/

/-- The detector goes on, and the queue has become `left`. -/
def LeftQueue (left : List Address) (w' : DetectWorld χ) : Prop :=
  w'.cancelled = false ∧ Addresses.unclassified w'.store = left

/-- A statement of the sweep. -/
theorem alone_classify (address : Address) (isContract : Bool) (codeHash : String)
    (hw : w.cancelled = false) :
    wpAlone (undisturbedDetect rpc) (Script.toProgE (classify address isContract codeHash)).run
      (fun _ w' => LeftQueue ((Addresses.unclassified w.store).filter (· ≠ address)) w') w := by
  refine wpAlone_call.mpr fun r w₁ hH => ?_
  obtain ⟨⟨s, hrun, -, rfl⟩ | ⟨⟨e, rfl⟩, -⟩, hserved⟩ := hH
  · have hleft : LeftQueue ((Addresses.unclassified w.store).filter (· ≠ address))
        { w with store := s } := ⟨hw, unclassified_classify hrun⟩
    cases r with
    | ok u => exact hleft
    | error e => exact hleft
  · exact absurd hserved id

/-- **One probe** takes the address off the queue, unless it fails. -/
theorem alone_classifyOne (hrpc : SteadyNodes rpc fails) (address : Address)
    (hw : w.cancelled = false) :
    wpAlone (undisturbedDetect rpc) (Script.toProgE (classifyOne keccak256 address)).run
      (fun _ w' => LeftQueue (leftBy fails [address] (Addresses.unclassified w.store)) w') w := by
  have hoff : stuck fails address = false →
      leftBy fails [address] (Addresses.unclassified w.store) =
        (Addresses.unclassified w.store).filter (· ≠ address) := by
    intro hfree
    refine List.filter_congr fun b _ => ?_
    by_cases hb : b = address
    · simp [hb, hfree]
    · simp [hb]
  have hstay : stuck fails address = true →
      leftBy fails [address] (Addresses.unclassified w.store) = Addresses.unclassified w.store := by
    intro hstuck
    refine List.filter_eq_self.mpr fun b _ => ?_
    by_cases hb : b = address
    · simp [hb, hstuck]
    · simp [hb]
  unfold classifyOne
  rcases hparse : parseAddress address with _ | a
  · rw [hoff (by simp [stuck, hparse])]
    exact alone_classify address false noCode hw
  · refine wp_scriptE_bind (wpAlone_call.mpr fun r w₁ hH => ?_)
    obtain ⟨⟨chain', hprobe, rfl⟩, -⟩ := hH
    have hfails := hrpc.fails_iff _ _ _ _ hprobe
    cases r with
    | error e =>
        have hstuck : stuck fails address = true := by
          simp [stuck, hparse, hfails.mpr ⟨e, rfl⟩]
        rw [hstay hstuck]
        exact ⟨hw, rfl⟩
    | ok code =>
        have hfree : fails a = false := by
          rw [Bool.eq_false_iff]
          intro htrue
          obtain ⟨e, he⟩ := hfails.mp htrue
          exact absurd he (by simp)
        rw [hoff (by simp [stuck, hparse, hfree])]
        show wpAlone _ (Script.toProgE (if _ then _ else _)).run _ _
        by_cases hcode : code.isEmpty = true
        · rw [if_pos hcode]
          exact alone_classify (w := { w with chain := chain' }) address false noCode hw
        · rw [if_neg hcode]
          exact alone_classify (w := { w with chain := chain' }) address true _ hw

theorem alone_classifyAll (hrpc : SteadyNodes rpc fails) (taken : List Address) :
    ∀ {w : DetectWorld χ}, w.cancelled = false →
      wpAlone (undisturbedDetect rpc) (Script.toProgE (classifyAll keccak256 taken)).run
        (fun _ w' => LeftQueue (leftBy fails taken (Addresses.unclassified w.store)) w') w := by
  induction taken with
  | nil =>
      intro w hw
      rw [leftBy_nil]
      exact ⟨hw, rfl⟩
  | cons address rest ih =>
      intro w hw
      refine wp_scriptE_bind (wpAlone_call.mpr fun stop w₁ hH => ?_)
      obtain ⟨⟨rfl, rfl⟩, -⟩ := hH
      show wpAlone _ (Script.toProgE (if w₁.cancelled = true then _ else _)).run _ _
      rw [if_neg (by simp [hw])]
      refine wp_scriptE_bind (wp_script_bind (wp_mono (fun r w₂ hw₂ => ?_)
        (alone_classifyOne hrpc address hw)))
      obtain ⟨hw₂, hleft⟩ := hw₂
      rw [leftBy_cons, ← hleft]
      exact ih hw₂

/-- **What a sweep does**: it takes a batch, and leaves of it what is stuck. -/
theorem alone_detectorPass (hrpc : SteadyNodes rpc fails) (hw : w.cancelled = false) :
    wpAlone (undisturbedDetect rpc) (Script.toProgE (detectorPass keccak256 batch)).run
      (fun _ w' => ∃ taken, Addresses.UnclassifiedBatch batch w.store taken ∧
        LeftQueue (leftBy fails taken (Addresses.unclassified w.store)) w') w := by
  unfold detectorPass
  refine wp_scriptE_bind (wpAlone_call.mpr fun stop w₁ hH => ?_)
  obtain ⟨⟨hstop, rfl⟩, -⟩ := hH
  cases stop with
  | true => exact absurd (hstop rfl) (by simp [hw])
  | false =>
      refine wp_scriptE_bind (wp_script_bind (wpAlone_call.mpr fun r w₂ hH => ?_))
      obtain ⟨⟨rfl, ⟨taken, htaken, rfl⟩ | ⟨e, rfl⟩⟩, hserved⟩ := hH
      · have hall : wpAlone (undisturbedDetect rpc)
            (Script.toProgE (classifyAll keccak256 taken)).run (fun _ w' =>
              ∃ taken, Addresses.UnclassifiedBatch batch w₂.store taken ∧
                LeftQueue (leftBy fails taken (Addresses.unclassified w₂.store)) w') w₂ :=
          wp_mono (fun _ _ h => ⟨taken, htaken, h⟩) (alone_classifyAll hrpc taken hw)
        exact hall
      · exact absurd hserved id

/-! ### What the sweeps achieve -/

/-- The addresses the sweeps are to classify. -/
def pending (fails : EvmAddress → Bool) (s : Store) : Nat :=
  (Addresses.unclassified s).countP fun a => !stuck fails a

/-- The addresses that stay. -/
def stuckCount (fails : EvmAddress → Bool) (s : Store) : Nat :=
  (Addresses.unclassified s).countP (stuck fails)

theorem length_eq_stuck_add (fails : EvmAddress → Bool) (l : List Address) :
    l.length = l.countP (stuck fails) + l.countP fun a => !stuck fails a := by
  rw [l.length_eq_countP_add_countP (stuck fails)]
  simp

/-- What is stuck stays in the queue. -/
theorem countP_stuck_leftBy (taken queue : List Address) :
    (leftBy fails taken queue).countP (stuck fails) = queue.countP (stuck fails) := by
  unfold leftBy
  rw [List.countP_filter]
  refine List.countP_congr fun a _ => ?_
  cases stuck fails a with
  | true => simp
  | false => simp

/-- **What is taken off the queue** are the addresses of the batch that are not stuck. -/
theorem countP_leftBy (fails : EvmAddress → Bool) {taken queue : List Address}
    (hqueue : queue.Nodup) (htaken : taken.Subperm queue) :
    (leftBy fails taken queue).countP (fun a => !stuck fails a) +
      taken.countP (fun a => !stuck fails a) = queue.countP fun a => !stuck fails a := by
  have hnodup : taken.Nodup := by
    obtain ⟨l, hperm, hsub⟩ := htaken
    exact hperm.nodup_iff.mp (hqueue.sublist hsub)
  have hsame : (queue.filter (taken.contains ·)).Perm taken := by
    refine (List.perm_ext_iff_of_nodup (hqueue.filter _) hnodup).mpr fun a => ?_
    rw [List.mem_filter, List.contains_iff_mem]
    exact ⟨fun h => h.2, fun h => ⟨htaken.subset h, h⟩⟩
  have hleft : leftBy fails taken queue =
      queue.filter fun a => stuck fails a || !taken.contains a := rfl
  rw [queue.countP_eq_countP_filter_add _ (taken.contains ·), hsame.countP_eq, Nat.add_comm, hleft,
    List.countP_filter, List.countP_filter]
  congr 1
  refine List.countP_congr fun a _ => ?_
  cases stuck fails a with
  | true => simp
  | false => simp

/-- **Every sweep brings some address off** that is not stuck, if those that are leave room for
one in the batch. -/
theorem sweep_progress (hrpc : SteadyNodes rpc fails) (hw : w.cancelled = false)
    {r : Except SyncError (Unit ⊕ Unit)}
    (hrun : Run (undisturbedDetect rpc) w
      (Script.toProgE (detectorPass keccak256 batch)).run w' r) :
    w'.cancelled = false ∧ stuckCount fails w'.store = stuckCount fails w.store ∧
      pending fails w'.store + min (batch.toNat - stuckCount fails w.store)
        (pending fails w.store) ≤ pending fails w.store := by
  obtain ⟨taken, ⟨-, htaken, hlen⟩, hw', hleft⟩ := wpAlone_run hrun (alone_detectorPass hrpc hw)
  refine ⟨hw', ?_, ?_⟩
  · unfold stuckCount
    rw [hleft, countP_stuck_leftBy]
  · have hoff := countP_leftBy fails (unclassified_nodup w.store) htaken
    rw [← hleft] at hoff
    have hstuck : taken.countP (stuck fails) ≤ stuckCount fails w.store := htaken.countP_le _
    have hbatch := length_eq_stuck_add fails taken
    have hqueue := length_eq_stuck_add fails (Addresses.unclassified w.store)
    unfold pending
    unfold stuckCount at hstuck ⊢
    omega

/-- The sweeps bring the queue down at that rate. -/
theorem Sweeps.progress (hrpc : SteadyNodes rpc fails) (hw : w.cancelled = false) {k : Nat}
    (h : Sweeps rpc keccak256 batch k w w') :
    w'.cancelled = false ∧ stuckCount fails w'.store = stuckCount fails w.store ∧
      (pending fails w'.store = 0 ∨ pending fails w'.store +
        k * (batch.toNat - stuckCount fails w.store) ≤ pending fails w.store) := by
  induction h with
  | none w => exact ⟨hw, rfl, Or.inr (by simp)⟩
  | @next k w w₁ w' _ hs ih =>
      obtain ⟨hw₁, hsame, hdone⟩ := ih hw
      obtain ⟨hw', hsame', hstep⟩ := sweep_progress hrpc hw₁ hs
      refine ⟨hw', hsame'.trans hsame, ?_⟩
      rw [hsame] at hstep
      have hmul : (k + 1) * (batch.toNat - stuckCount fails w.store) =
          k * (batch.toNat - stuckCount fails w.store) +
            (batch.toNat - stuckCount fails w.store) := Nat.succ_mul _ _
      omega

/-! ### How many addresses are classified -/

/-- The addresses the detector has classified. -/
def classified (s : Store) : Nat :=
  s.addresses.rows.countP fun r => !decide (Addresses.IsUnclassified r)

/-- An address is classified, or to be classified, or stuck. -/
theorem classified_add (fails : EvmAddress → Bool) (s : Store) :
    classified s + (stuckCount fails s + pending fails s) = s.addresses.rows.length := by
  have hqueue := length_eq_stuck_add fails (Addresses.unclassified s)
  have hrows := s.addresses.rows.length_eq_countP_add_countP
    fun r => decide (Addresses.IsUnclassified r)
  have hlen : (Addresses.unclassified s).length =
      s.addresses.rows.countP fun r => decide (Addresses.IsUnclassified r) := by
    rw [Addresses.unclassified, List.length_map, List.countP_eq_length_filter]
  unfold stuckCount pending
  rw [← hqueue, hlen, hrows, Nat.add_comm]
  simp [classified]

/-- No call of the detector adds an address or takes one away. -/
theorem detectHandle_rows {m : Nat} {c : DetectCall} {r : c.Answer}
    (hm : w.store.addresses.rows.length = m) (hH : detectHandle rpc w c r w') :
    w'.store.addresses.rows.length = m := by
  cases c with
  | tickOrCancel => exact hH.2 ▸ hm
  | isCancelled => exact hH.2 ▸ hm
  | unclassifiedBatch limit => exact hH.1 ▸ hm
  | getCode a =>
      obtain ⟨chain', -, rfl⟩ := hH
      exact hm
  | classify address isContract codeHash =>
      obtain ⟨s, hrun, -, rfl⟩ | ⟨-, rfl⟩ := hH
      · obtain rfl := Except.ok.inj hrun
        exact (List.length_map _).trans hm
      · exact hm

theorem Sweeps.rows {k : Nat} (h : Sweeps rpc keccak256 batch k w w') :
    w'.store.addresses.rows.length = w.store.addresses.rows.length := by
  induction h with
  | none w => rfl
  | @next k w w₁ w' _ hs ih =>
      exact hs.inv (I := fun v => v.store.addresses.rows.length = w.store.addresses.rows.length)
        (fun _ _ _ _ hm hH => detectHandle_rows hm hH.1) ih

/-- **The rate of the sweeps**: each of them classifies as many addresses as there is room for
in the batch beside the stuck ones, until none is left to be classified. -/
theorem Sweeps.classifies (hrpc : SteadyNodes rpc fails) (hw : w.cancelled = false) {k : Nat}
    (h : Sweeps rpc keccak256 batch k w w') :
    classified w.store + min (k * (batch.toNat - stuckCount fails w.store))
      (pending fails w.store) ≤ classified w'.store := by
  obtain ⟨-, hstuck, hdone⟩ := h.progress hrpc hw
  have hbefore := classified_add fails w.store
  have hafter := classified_add fails w'.store
  rw [h.rows] at hafter
  omega

/-! ### Any batch may be taken -/

theorem exists_classifyOne (keccak256 : List UInt8 → B256) (hrpc : SteadyNodes rpc fails)
    (w : DetectWorld χ) (address : Address) :
    ∃ w' r, Run (undisturbedDetect rpc) w
      (Script.toProgE (classifyOne keccak256 address)).run w' r := by
  have hclassify : ∀ (w : DetectWorld χ) isContract codeHash, ∃ w', Run (undisturbedDetect rpc) w
      (Script.toProgE (classify address isContract codeHash)).run w' (.ok ()) := fun w _ _ =>
    ⟨_, Run.call ⟨Or.inl ⟨_, rfl, Or.inl rfl, rfl⟩, trivial⟩ (Run.pure _ _)⟩
  unfold classifyOne
  rcases hparse : parseAddress address with _ | a
  · obtain ⟨w', hrun⟩ := hclassify w false noCode
    exact ⟨w', _, hrun⟩
  · obtain ⟨r, chain', hprobe⟩ := hrpc.answers w.chain a
    have hcall : Run (undisturbedDetect rpc) w (ExceptT.lift (DetectCall.getCode a).ask :
        DetectScript _).run.toProg { w with chain := chain' } (.ok r) :=
      run_liftAsk.mpr ⟨r, ⟨⟨chain', hprobe, rfl⟩, trivial⟩, rfl⟩
    cases r with
    | error e =>
        exact ⟨_, .error (.chain e), run_scriptE_bind.mpr (Or.inl ⟨_, _, hcall, Run.pure _ _⟩)⟩
    | ok code =>
        obtain ⟨w', hrun⟩ : ∃ w', Run (undisturbedDetect rpc) { w with chain := chain' }
            (Script.toProgE (if code.isEmpty then classify address false noCode
              else classify address true (hex0x (keccak256 code).toList))).run w' (.ok ()) := by
          by_cases hcode : code.isEmpty = true
          · rw [if_pos hcode]
            exact hclassify _ _ _
          · rw [if_neg hcode]
            exact hclassify _ _ _
        exact ⟨w', _, run_scriptE_bind.mpr (Or.inl ⟨_, _, hcall, hrun⟩)⟩

theorem exists_classifyAll (keccak256 : List UInt8 → B256) (hrpc : SteadyNodes rpc fails)
    (taken : List Address) :
    ∀ {w : DetectWorld χ}, w.cancelled = false → ∃ w', Run (undisturbedDetect rpc) w
      (Script.toProgE (classifyAll keccak256 taken)).run w' (.ok (.inl ())) := by
  induction taken with
  | nil => exact fun _ => ⟨_, Run.pure _ _⟩
  | cons address rest ih =>
      intro w hw
      obtain ⟨w₁, r, hone⟩ := exists_classifyOne keccak256 hrpc w address
      obtain ⟨hw₁, -⟩ := wpAlone_run hone (alone_classifyOne hrpc address hw)
      obtain ⟨w', hrest⟩ := ih hw₁
      refine ⟨w', run_scriptE_bind.mpr (Or.inl ⟨w, false, run_liftAsk.mpr
        ⟨false, ⟨⟨hw.symm, rfl⟩, trivial⟩, rfl⟩, ?_⟩)⟩
      exact run_scriptE_bind.mpr (Or.inl ⟨w₁, r, run_liftRun.mpr ⟨r, hone, rfl⟩, hrest⟩)

/-- **A sweep may take any batch** the database may give it. -/
theorem exists_sweep (keccak256 : List UInt8 → B256) (hrpc : SteadyNodes rpc fails)
    (hw : w.cancelled = false) {taken : List Address}
    (htaken : Addresses.UnclassifiedBatch batch w.store taken) :
    ∃ w', Run (undisturbedDetect rpc) w (Script.toProgE (detectorPass keccak256 batch)).run w'
        (.ok (.inl ())) ∧
      LeftQueue (leftBy fails taken (Addresses.unclassified w.store)) w' := by
  obtain ⟨w', hall⟩ := exists_classifyAll keccak256 hrpc taken hw
  refine ⟨w', run_scriptE_bind.mpr (Or.inl ⟨w, false, run_liftAsk.mpr
    ⟨false, ⟨⟨fun h => absurd h (by simp), rfl⟩, trivial⟩, rfl⟩, ?_⟩),
    wpAlone_run hall (alone_classifyAll hrpc taken hw)⟩
  have hbatch : Run (undisturbedDetect rpc) w (Script.toProgE (unclassifiedBatch batch)).run w
      (.ok taken) := Run.call ⟨⟨rfl, Or.inl ⟨taken, htaken, rfl⟩⟩, trivial⟩ (Run.pure _ _)
  exact run_scriptE_bind.mpr (Or.inl ⟨w, taken, hbatch, hall⟩)

/-- There is no end to the sweeps. -/
theorem exists_sweeps (keccak256 : List UInt8 → B256) (hrpc : SteadyNodes rpc fails)
    (hbatch : 0 ≤ batch) (hw : w.cancelled = false) (k : Nat) :
    ∃ w', Sweeps rpc keccak256 batch k w w' := by
  induction k with
  | zero => exact ⟨w, .none w⟩
  | succ k ih =>
      obtain ⟨w₁, hsweeps⟩ := ih
      have htaken : Addresses.UnclassifiedBatch batch w₁.store
          ((Addresses.unclassified w₁.store).take batch.toNat) :=
        ⟨hbatch, (List.take_sublist _ _).subperm, List.length_take⟩
      obtain ⟨w', hsweep, -⟩ :=
        exists_sweep keccak256 hrpc (hsweeps.progress hrpc hw).1 htaken
      exact ⟨w', hsweeps.next hsweep⟩

/-- **Where a batch of addresses is stuck**, sweep after sweep may take those. -/
theorem exists_starving (keccak256 : List UInt8 → B256) (hrpc : SteadyNodes rpc fails)
    (hbatch : 0 ≤ batch) (hw : w.cancelled = false)
    (hfull : batch.toNat ≤ stuckCount fails w.store) (k : Nat) :
    ∃ w', Sweeps rpc keccak256 batch k w w' ∧
      LeftQueue (Addresses.unclassified w.store) w' := by
  induction k with
  | zero => exact ⟨w, .none w, hw, rfl⟩
  | succ k ih =>
      obtain ⟨w₁, hsweeps, hw₁, hsame⟩ := ih
      have hcount : batch.toNat ≤
          ((Addresses.unclassified w.store).filter (stuck fails)).length := by
        rw [← List.countP_eq_length_filter]
        exact hfull
      have htaken : Addresses.UnclassifiedBatch batch w₁.store
          (((Addresses.unclassified w.store).filter (stuck fails)).take batch.toNat) := by
        have hle := List.length_filter_le (stuck fails) (Addresses.unclassified w.store)
        rw [Addresses.UnclassifiedBatch, hsame]
        refine ⟨hbatch, ((List.take_sublist _ _).trans List.filter_sublist).subperm, ?_⟩
        rw [List.length_take]
        omega
      obtain ⟨w', hsweep, hw', hleft⟩ := exists_sweep keccak256 hrpc hw₁ htaken
      refine ⟨w', hsweeps.next hsweep, hw', ?_⟩
      rw [hleft, hsame]
      refine List.filter_eq_self.mpr fun a _ => ?_
      by_cases ha : a ∈ ((Addresses.unclassified w.store).filter (stuck fails)).take batch.toNat
      · rw [(List.mem_filter.mp (List.mem_of_mem_take ha)).2]
        rfl
      · simp [ha]

/-! ### When the queue drains -/

/-- Nothing is left in the queue but what is stuck. -/
def Drained (fails : EvmAddress → Bool) (s : Store) : Prop :=
  ∀ a ∈ Addresses.unclassified s, stuck fails a = true

theorem drained_iff {s : Store} : Drained fails s ↔ pending fails s = 0 := by
  unfold Drained pending
  rw [List.countP_eq_zero]
  simp

/--
**The detector drains its queue** exactly when the addresses whose probes always fail leave
room in a batch.  Nothing else touches the tables here, every statement runs, a probe fails
for the same addresses each time and nobody cancels.  Then there is no end to the sweeps, and
every `k` of them classify `k` times that room (or all there is to classify), whichever rows
the database picks; and where there is no room, unless nothing else is queued, the database
may pick the same rows for ever, so that no number of sweeps is enough.
-/
theorem detector_drains_iff (hrpc : SteadyNodes rpc fails) (hbatch : 0 ≤ batch)
    (hw : w.cancelled = false) :
    (∀ k, ∃ w', Sweeps rpc keccak256 batch k w w') ∧
    (∀ k w', Sweeps rpc keccak256 batch k w w' →
      classified w.store + min (k * (batch.toNat - stuckCount fails w.store))
        (pending fails w.store) ≤ classified w'.store ∧
      (pending fails w.store ≤ k * (batch.toNat - stuckCount fails w.store) →
        Drained fails w'.store)) ∧
    ((∃ k, ∀ w', Sweeps rpc keccak256 batch k w w' → Drained fails w'.store) ↔
      Drained fails w.store ∨ (stuckCount fails w.store : Int) < batch) := by
  have hrate : ∀ k w', Sweeps rpc keccak256 batch k w w' →
      pending fails w.store ≤ k * (batch.toNat - stuckCount fails w.store) →
        Drained fails w'.store := by
    intro k w' hsweeps hk
    obtain ⟨-, -, hdone⟩ := hsweeps.progress hrpc hw
    rw [drained_iff]
    omega
  refine ⟨exists_sweeps keccak256 hrpc hbatch hw,
    fun k w' hsweeps => ⟨hsweeps.classifies hrpc hw, hrate k w' hsweeps⟩, fun h => ?_, fun h => ?_⟩
  · obtain ⟨k, hk⟩ := h
    by_contra hnot
    obtain ⟨hleft, hfull⟩ := not_or.mp hnot
    obtain ⟨w', hsweeps, -, hsame⟩ := exists_starving keccak256 hrpc hbatch hw
      (by omega) k
    refine hleft fun a ha => hk w' hsweeps a ?_
    rw [hsame]
    exact ha
  · refine ⟨pending fails w.store, fun w' hsweeps => ?_⟩
    rcases h with hdrained | hroom
    · obtain ⟨-, -, hdone⟩ := hsweeps.progress hrpc hw
      rw [drained_iff] at hdrained ⊢
      omega
    · refine hrate _ w' hsweeps ?_
      exact Nat.le_mul_of_pos_right _ (by omega)

/-- Nodes that know of no code and fail for the factory. -/
def deafNodes : CodeRpc Unit := fun _ a r _ =>
  r = if a = factoryAccount then .error (.rpc "") else .ok []

theorem deafNodes_steady : SteadyNodes deafNodes fun a => a = factoryAccount where
  answers _ a := ⟨_, (), rfl⟩
  fails_iff _ a r _ h := by
    obtain rfl := h
    by_cases ha : a = factoryAccount
    · simp [ha]
    · simp [ha]

/-- A payment has been indexed: its two accounts wait for the detector. -/
def twoWaiting : DetectWorld Unit := ⟨(), afterPayment1, false⟩

/-- With batches of two the first sweep classifies the payer; with batches of one it may wait
for ever. -/
theorem detector_drains_iff_payment :
    (∃ w', Sweeps deafNodes someHash 2 1 twoWaiting w' ∧ 1 ≤ classified w'.store ∧
      Drained (fun a => a = factoryAccount) w'.store) ∧
    ¬ ∃ k, ∀ w', Sweeps deafNodes someHash 1 k twoWaiting w' →
      Drained (fun a => a = factoryAccount) w'.store := by
  have hcount : stuckCount (fun a => a = factoryAccount) afterPayment1 = 1 ∧
      pending (fun a => a = factoryAccount) afterPayment1 = 1 := by decide +kernel
  have hleft : ¬ Drained (fun a => a = factoryAccount) afterPayment1 := by
    rw [drained_iff, hcount.2]
    decide
  refine ⟨?_, fun h => ?_⟩
  · obtain ⟨w', hsweeps⟩ := exists_sweeps (w := twoWaiting) someHash deafNodes_steady
      (show (0 : Int) ≤ 2 by decide) rfl 1
    obtain ⟨hclassified, hdrained⟩ :=
      (detector_drains_iff deafNodes_steady (by decide) rfl).2.1 1 w' hsweeps
    have hone : stuckCount (fun a => a = factoryAccount) twoWaiting.store = 1 ∧
        pending (fun a => a = factoryAccount) twoWaiting.store = 1 := hcount
    rw [hone.1, hone.2] at hclassified hdrained
    exact ⟨w', hsweeps, by omega, hdrained (by decide)⟩
  · rcases ((detector_drains_iff deafNodes_steady (by decide) rfl).2.2).mp h with hdrained | hroom
    · exact hleft hdrained
    · have hroom : (stuckCount _ afterPayment1 : Int) < 1 := hroom
      rw [hcount.1] at hroom
      exact absurd hroom (by decide)

end SentrixIndexer
