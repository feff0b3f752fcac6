/-
What a height that cannot be fetched costs the heights below it.

The backfill commits its buffer when it is full, at a gap, at the end and when it is
cancelled, but a failed fetch leaves the loop on the spot.  The bundles that wait in the
buffer at that moment are dropped: they are the heights since the last gap, but for
the full batches among them.
-/
import SentrixIndexer.Proofs.BackfillRefinement

namespace SentrixIndexer

open Effect Relational

variable {n : NodeTables} {i : TaskId}

/-! ### Errors and where they come from -/

/-- The error is one of the database layer. -/
def SyncError.FromDb : SyncError → Prop
  | .db _ => True
  | .sqlx _ => True
  | _ => False

/-- What the database fails with is an error of the database layer. -/
def FaultsAreDb : (c : SyncCall) → c.Answer → Prop
  | .readCursor, .error e => e.FromDb
  | .getByHeight _, .error e => e.FromDb
  | .transact _, .error e => e.FromDb
  | _, _ => True

/-- The surroundings of the only writer, when an error tells where it comes from. -/
abbrev attributed (rpc : Rpc Stream) (i : TaskId) : Handler SyncSig (World Stream) :=
  fun w c r w' => undisturbed rpc i w c r w' ∧ FaultsAreDb c r

/-- The precondition of a program that is the only one to run, its errors told apart. -/
abbrev Told (rpc : Rpc Stream) (i : TaskId) {α : Type} (p : Prog SyncSig α)
    (Q : α → World Stream → Prop) (w : World Stream) : Prop := wpAlone (attributed rpc i) p Q w

theorem Alone.told {rpc : Rpc Stream} {α : Type} {p : Prog SyncSig α}
    {Q : α → World Stream → Prop} {w : World Stream} (h : Alone rpc i p Q w) : Told rpc i p Q w :=
  wp_handler_mono (fun _ _ _ _ hH => hH.1) h

/-- What a transaction leaves: it commits, or fails with an error of the database. -/
structure FaultPost (t : Txn) (w : World Stream) (r : Except SyncError Unit)
    (w' : World Stream) : Prop where
  fault : ∀ e, r = .error e → e.FromDb
  committed : r = .ok () → t.run w.store = .ok w'.store

theorem told_transact (t : Txn) (w : World Stream) :
    Told n.rpc i (Script.toProgE (transact t)).run (FaultPost t w) w := by
  refine wpAlone_ask.mpr fun r w' hH => ?_
  obtain ⟨⟨w₁, hcancel, hH⟩, hfault⟩ := hH
  refine ⟨fun e he => ?_, fun hok => ?_⟩
  · subst he
    exact hfault
  · rcases hH with ⟨s, hs, rfl⟩ | ⟨⟨e, he⟩, -⟩
    · rw [← hcancel.quiet.store]
      exact hs
    · exact absurd (hok.symm.trans he) (by simp)

theorem told_batchWriteBlocks (analytics : Bool) {bundles : List BlockBundle}
    (hne : bundles ≠ []) (w : World Stream) :
    Told n.rpc i (Script.toProgE (batchWriteBlocks analytics bundles)).run
      (FaultPost (.batchWriteBlocks bundles) w) w := by
  unfold batchWriteBlocks
  have hempty : bundles.isEmpty = false := by simpa using hne
  simp only [hempty, Bool.false_eq_true, if_false]
  refine wp_scriptE_bind (wp_mono (fun r w₁ hr => ?_) (told_transact _ w))
  rcases r with e | u
  · exact hr
  · cases analytics with
    | false => exact hr
    | true =>
        refine wp_script_bind (wp_mono (fun _ w₂ hpush => ?_)
          (Alone.told (reading_pushAll _ w₁).alone))
        refine ⟨fun e he => absurd he (by simp), fun _ => ?_⟩
        rw [hpush.1.store]
        exact hr.committed rfl

/-! ### The heights since the last gap -/

/-- How many heights right below `k`, down to `start` at most, are fetched as bundles. -/
def NodeTables.goodRun (n : NodeTables) (start k : Int) : Nat :=
  ((inclusive start (k - 1)).reverse.takeWhile fun h => (n.bundleAt h).isSome).length

theorem goodRun_start (start : Int) : n.goodRun start start = 0 := by
  unfold NodeTables.goodRun
  rw [inclusive_of_lt (by omega)]
  rfl

theorem inclusive_reverse {start k : Int} (h : start ≤ k) :
    (inclusive start k).reverse = k :: (inclusive start (k - 1)).reverse := by
  rw [inclusive_append (k - 1) (by omega) (by omega), show k - 1 + 1 = k by omega,
    inclusive_of_le le_rfl, inclusive_of_lt (show k < k + 1 by omega)]
  simp

theorem goodRun_good {start k : Int} (hle : start ≤ k) {b : BlockBundle}
    (hb : n.outcome k = .ok (some b)) : n.goodRun start (k + 1) = n.goodRun start k + 1 := by
  unfold NodeTables.goodRun
  rw [show k + 1 - 1 = k by omega, inclusive_reverse hle, List.takeWhile_cons,
    NodeTables.bundleAt_of_ok hb]
  rfl

theorem goodRun_gap {start k : Int} (hle : start ≤ k) (hgap : n.outcome k = .ok none) :
    n.goodRun start (k + 1) = 0 := by
  unfold NodeTables.goodRun
  rw [show k + 1 - 1 = k by omega, inclusive_reverse hle, List.takeWhile_cons,
    NodeTables.bundleAt_of_ok hgap]
  rfl

/-! ### What the loop has kept -/

theorem Buffered.mem {buf : List BlockBundle} :
    ∀ {h : Int}, Buffered n h buf → ∀ k, h ≤ k → k < h + buf.length →
      ∃ b ∈ buf, n.outcome k = .ok (some b) := by
  induction buf with
  | nil =>
      intro h _ k hle hlt
      rw [List.length_nil] at hlt
      omega
  | cons b rest ih =>
      intro h hbuf k hle hlt
      rw [List.length_cons] at hlt
      by_cases hk : k = h
      · exact ⟨b, List.mem_cons_self .., hk ▸ hbuf.1⟩
      · obtain ⟨b', hb', ho⟩ := ih hbuf.2 k (by omega) (by omega)
        exact ⟨b', List.mem_cons_of_mem _ hb', ho⟩

/-- A transaction that advances the cursor leaves it at its target. -/
theorem Txn.cursor_of_target {t : Txn} {s s' : Store} (hf : t.Forward) (hrun : t.run s = .ok s')
    {h : Int} (ht : t.target = some h) (hlt : s.cursor < h) : s'.cursor = h := by
  obtain ⟨_, _, _, _, -, -, -, -, hw⟩ := t.run_written hf hrun
  unfold Store.cursor at hlt ⊢
  rw [hw.cursor, ht]
  cases hc : readCursor s with
  | none => rfl
  | some c =>
      rw [hc] at hlt
      exact max_eq_right hlt.le

/-- The cursor is at `p`, and every bundle from right above `c` up to there is stored. -/
structure Kept (n : NodeTables) (c p : Int) (s : Store) : Prop where
  le : c ≤ p
  cursor : s.cursor = p
  fine : ∀ h, c < h → h ≤ p → ∃ o, n.outcome h = .ok o
  stored : ∀ h, c < h → h ≤ p → ∀ b, n.outcome h = .ok (some b) → RowsStored s b

theorem Kept.step {c p q : Int} {s s' : Store} (h : Kept n c p s) {t : Txn} (hf : t.Forward)
    (hrun : t.run s = .ok s') (hpq : p < q) (ht : t.target = some q)
    (hfine : ∀ k, p < k → k ≤ q → ∃ o, n.outcome k = .ok o)
    (hmem : ∀ k, p < k → k ≤ q → ∀ b, n.outcome k = .ok (some b) → b ∈ t.bundles) :
    Kept n c q s' := by
  have hle := h.le
  refine ⟨by omega, Txn.cursor_of_target hf hrun ht (by rw [h.cursor]; exact hpq), ?_, ?_⟩
  · intro k hck hkq
    by_cases hkp : k ≤ p
    · exact h.fine k hck hkp
    · exact hfine k (by omega) hkq
  · intro k hck hkq b hb
    by_cases hkp : k ≤ p
    · exact (h.stored k hck hkp b hb).mono (t.run_extends hf hrun)
    · exact Txn.run_rowsStored hf hrun (hmem k (by omega) hkq b hb)

/-- The store is kept up to the cursor of the loop, and the buffer continues right above. -/
structure Holding (n : NodeTables) (c : Int) (st : BackfillState) (w : World Stream) : Prop where
  kept : Kept n c st.cursor w.store
  buf : Buffered n (st.cursor + 1) st.buf

theorem Holding.quiet {c : Int} {st : BackfillState} {w w' : World Stream}
    (h : Holding n c st w) (hq : Quiet w w') : Holding n c st w' :=
  ⟨by rw [hq.store]; exact h.kept, h.buf⟩

/-- **The batch is kept up to the top of the buffer.** -/
theorem Holding.batch (hn : n.Faithful) {c : Int} {st : BackfillState} {w : World Stream}
    (h : Holding n c st w) (hne : st.buf ≠ []) {s : Store}
    (hrun : (Txn.batchWriteBlocks st.buf).run w.store = .ok s) :
    Kept n c (st.cursor + st.buf.length) s := by
  have hlen : 0 < st.buf.length := List.length_pos_of_ne_nil hne
  have htop : (Txn.batchWriteBlocks st.buf).target = some (st.cursor + st.buf.length) :=
    h.buf.highest hn hne
  refine h.kept.step (t := .batchWriteBlocks st.buf) trivial hrun (by omega) htop
    (fun k hlt hle => ?_) fun k hlt hle b hb => ?_
  · obtain ⟨b, -, hb⟩ := h.buf.mem k (by omega) (by omega)
    exact ⟨_, hb⟩
  · obtain ⟨b', hb', ho⟩ := h.buf.mem k (by omega) (by omega)
    obtain rfl : b = b' := Option.some.inj (Except.ok.inj (hb.symm.trans ho))
    exact hb'

/-- What a write of the loop leaves: the state `next`, or an error of the database. -/
def WroteTo (n : NodeTables) (c : Int) (next : BackfillState) :
    Except SyncError BackfillState → World Stream → Prop
  | .ok st, w => st = next ∧ Holding n c st w
  | .error e, _ => e.FromDb

theorem told_flush (hn : n.Faithful) (analytics : Bool) {c : Int} {st : BackfillState}
    {w : World Stream} (h : Holding n c st w) :
    Told n.rpc i (Script.toProgE (flush analytics st)).run (WroteTo n c st.flushed) w := by
  unfold flush
  by_cases hnil : st.buf = []
  · have hsame : st.flushed = st := by
      obtain ⟨pipe, buf, cursor⟩ := st
      subst hnil
      simp [BackfillState.flushed]
    rw [hnil]
    exact ⟨hsame.symm, h⟩
  · rw [h.buf.highest hn hnil]
    refine wp_scriptE_bind (wp_mono (fun r w₁ hr => ?_) (told_batchWriteBlocks analytics hnil w))
    rcases r with e | u
    · exact hr.fault e rfl
    · exact ⟨rfl, h.batch hn hnil (hr.committed rfl), trivial⟩

theorem told_gap {c p : Int} {st : BackfillState} {w : World Stream} (h : Kept n c p w.store)
    (hgap : n.outcome (p + 1) = .ok none) :
    Told n.rpc i (Script.toProgE (do
      transact (.writeCursor (p + 1) 0)
      return { st with buf := [], cursor := p + 1 })).run
      (WroteTo n c (st.taken (p + 1) none)) w := by
  refine wp_scriptE_bind (wp_mono (fun r w₁ hr => ?_) (told_transact _ w))
  rcases r with e | u
  · exact hr.fault e rfl
  · have hkept : Kept n c (p + 1) w₁.store := by
      refine h.step (t := .writeCursor (p + 1) 0) trivial (hr.committed rfl) (by omega) rfl
        (fun k hlt hle => ?_) fun k hlt hle b hb => ?_
      · obtain rfl : k = p + 1 := by omega
        exact ⟨none, hgap⟩
      · obtain rfl : k = p + 1 := by omega
        rw [hgap] at hb
        exact absurd hb (by simp)
    exact ⟨rfl, hkept, trivial⟩

theorem told_takeResult (hn : n.Faithful) (analytics : Bool) {c : Int} {st : BackfillState}
    {w : World Stream} (h : Holding n c st w) {k : Int} (hk : k = st.cursor + st.buf.length + 1)
    {o : Option BlockBundle} (ho : n.outcome k = .ok o) :
    Told n.rpc i (Script.toProgE (takeResult analytics st k o)).run
      (WroteTo n c (st.taken k o)) w := by
  subst hk
  cases o with
  | some b =>
      refine ⟨rfl, h.kept, h.buf.append ?_⟩
      rw [show st.cursor + 1 + (st.buf.length : Int) = st.cursor + st.buf.length + 1 by omega]
      exact ho
  | none =>
      by_cases hnil : st.buf = []
      · have hlen : st.buf.length = 0 := by simp [hnil]
        rw [takeResult_none_of_nil analytics hnil]
        refine told_gap ?_ ho
        rw [hlen]
        simpa using h.kept
      · rw [takeResult_none_of_ne_nil analytics hnil]
        refine wp_scriptE_bind (wp_mono (fun r w₁ hr => ?_)
          (told_batchWriteBlocks analytics hnil w))
        rcases r with e | u
        · exact hr.fault e rfl
        · exact told_gap (h.batch hn hnil (hr.committed rfl)) ho

/-! ### The loop -/

/-- Where the loop stands: what is still to be fetched, and how many bundles wait. -/
structure Lined (n : NodeTables) (tuning : Tuning) (c cap : Int) (st : BackfillState) :
    Prop where
  le_cursor : c ≤ st.cursor
  heights : st.pipe.heights = inclusive (st.cursor + st.buf.length + 1) cap
  pending : st.buf.length % tuning.batchSize =
    n.goodRun (c + 1) (st.cursor + st.buf.length + 1) % tuning.batchSize

theorem Lined.flushed {tuning : Tuning} {c cap : Int} {st : BackfillState}
    (h : Lined n tuning c cap st) (hfull : st.buf.length = tuning.batchSize) :
    Lined n tuning c cap st.flushed := by
  have hle := h.le_cursor
  have hheights := h.heights
  have hpending := h.pending
  rw [hfull, Nat.mod_self, ← hfull] at hpending
  refine ⟨?_, ?_, ?_⟩
  · show c ≤ st.cursor + st.buf.length
    omega
  · show st.pipe.heights = inclusive (st.cursor + st.buf.length + (0 : Nat) + 1) cap
    simpa using hheights
  · show 0 % tuning.batchSize =
      n.goodRun (c + 1) (st.cursor + st.buf.length + (0 : Nat) + 1) % tuning.batchSize
    rw [Nat.zero_mod, ← hfull]
    simpa using hpending

/-- The bundle of the next height joins the ones that wait; a gap leaves none. -/
theorem Lined.taken {tuning : Tuning} {c cap : Int} {st : BackfillState} {rest : Pipeline}
    (h : Lined n tuning c cap st) {k : Int} (hk : k = st.cursor + st.buf.length + 1)
    (hrest : rest.heights = inclusive (k + 1) cap) {o : Option BlockBundle}
    (ho : n.outcome k = .ok o) :
    Lined n tuning c cap (BackfillState.taken { st with pipe := rest } k o) := by
  have hle := h.le_cursor
  have hpending := h.pending
  subst hk
  cases o with
  | some b =>
      have htop : st.cursor + ((st.buf ++ [b]).length : Nat) = st.cursor + st.buf.length + 1 := by
        simp only [List.length_append, List.length_singleton]
        omega
      refine ⟨hle, ?_, ?_⟩
      · show rest.heights = inclusive (st.cursor + ((st.buf ++ [b]).length : Nat) + 1) cap
        rw [htop, hrest]
      · show (st.buf ++ [b]).length % tuning.batchSize =
          n.goodRun (c + 1) (st.cursor + ((st.buf ++ [b]).length : Nat) + 1) % tuning.batchSize
        rw [htop, goodRun_good (by omega) ho, List.length_append, List.length_singleton,
          Nat.add_mod, hpending, ← Nat.add_mod]
  | none =>
      refine ⟨?_, ?_, ?_⟩
      · show c ≤ st.cursor + st.buf.length + 1
        omega
      · show rest.heights = inclusive (st.cursor + st.buf.length + 1 + (0 : Nat) + 1) cap
        simpa using hrest
      · show 0 % tuning.batchSize =
          n.goodRun (c + 1) (st.cursor + st.buf.length + 1 + (0 : Nat) + 1) % tuning.batchSize
        have hgap : n.goodRun (c + 1) (st.cursor + st.buf.length + 1 + 1) = 0 :=
          goodRun_gap (by omega) ho
        rw [Int.natCast_zero, Int.add_zero, hgap]

/-- **The invariant of the backfill loop**, with or without what it has lost. -/
structure FetchLoop (n : NodeTables) (i : TaskId) (tuning : Tuning) (c cap : Int)
    (st : BackfillState) (w : World Stream) : Prop extends Holding n c st w,
    Lined n tuning c cap st where
  short : st.buf.length < tuning.batchSize
  fetching : Fetching n i st.pipe.inflight w

/-- The backfill has failed at `k`, the first height it could not fetch: it has kept what was
there before the bundles of the last, incomplete batch. -/
structure StoppedAt (n : NodeTables) (tuning : Tuning) (c cap k : Int) (e : SyncError)
    (s : Store) : Prop where
  above : c < k
  le_cap : k ≤ cap
  failed : n.outcome k = .error e
  fine : ∀ h, c < h → h < k → ∃ o, n.outcome h = .ok o
  kept : Kept n c (k - 1 - (n.goodRun (c + 1) k % tuning.batchSize : Nat)) s

/-- What one pass leaves: the invariant, a value, or an error and where it comes from. -/
def PassEnd (n : NodeTables) (i : TaskId) (tuning : Tuning) (c cap : Int) :
    Except SyncError (BackfillState ⊕ Int) → World Stream → Prop
  | .ok (.inl st), w => FetchLoop n i tuning c cap st w
  | .ok (.inr _), _ => True
  | .error e, w => e.FromDb ∨ ∃ k, StoppedAt n tuning c cap k e w.store

theorem told_leave (hn : n.Faithful) (analytics : Bool) {tuning : Tuning} {c cap : Int}
    {st : BackfillState} {w : World Stream} (h : Holding n c st w) :
    Told n.rpc i (do
      let s ← Script.toProgE (flush analytics st)
      return .inr s.cursor : SyncProg (BackfillState ⊕ Int)).run (PassEnd n i tuning c cap) w := by
  refine wp_bindE (wp_mono (fun r w' hr => ?_) (told_flush hn analytics h))
  rcases r with e | st'
  · exact .inl hr
  · exact trivial

theorem FetchLoop.stopped {tuning : Tuning} {c cap : Int} {st : BackfillState}
    {w : World Stream} (h : FetchLoop n i tuning c cap st w) {e : SyncError}
    (hcap : st.cursor + st.buf.length + 1 ≤ cap)
    (he : n.outcome (st.cursor + st.buf.length + 1) = .error e) :
    StoppedAt n tuning c cap (st.cursor + st.buf.length + 1) e w.store := by
  have hle := h.le_cursor
  have hpending := h.pending
  rw [Nat.mod_eq_of_lt h.short] at hpending
  refine ⟨by omega, hcap, he, fun k hck hk => ?_, ?_⟩
  · by_cases hkc : k ≤ st.cursor
    · exact h.kept.fine k hck hkc
    · exact h.buf.fine k (by omega) (by omega)
  · rw [← hpending, show st.cursor + (st.buf.length : Int) + 1 - 1 - st.buf.length = st.cursor by
      omega]
    exact h.kept

/-- **One pass of the loop**: it goes on, or it stops and drops what waits in the buffer. -/
theorem told_backfillPass (hn : n.Faithful) (tuning : Tuning) (analytics : Bool) {c cap : Int}
    {st : BackfillState} {w : World Stream} (h : FetchLoop n i tuning c cap st w) :
    Told n.rpc i (backfillPass tuning analytics st).run (PassEnd n i tuning c cap) w := by
  refine wp_bindE (wp_bind (wp_mono (fun next w₁ hnext => ?_)
    (Alone.told (alone_nextItem tuning h.fetching))))
  obtain ⟨hq, hpost⟩ := hnext
  have hholding := h.toHolding.quiet hq
  cases next with
  | cancelled => exact told_leave hn analytics hholding
  | finished => exact told_leave hn analytics hholding
  | item k result rest =>
      obtain ⟨hkeys, rfl, hfetching⟩ := hpost
      rw [h.heights] at hkeys
      obtain ⟨rfl, hcap, hrest⟩ := inclusive_eq_cons hkeys
      rcases ho : n.outcome (st.cursor + st.buf.length + 1) with e | o
      · refine .inr ⟨st.cursor + st.buf.length + 1, ?_⟩
        have hstop := h.stopped hcap ho
        rw [← hq.store] at hstop
        exact hstop
      · have hlined := h.toLined.taken rfl hrest ho
        refine wp_bindE ?_
        show Told n.rpc i (Script.toProgE (takeResult analytics { st with pipe := rest }
          (st.cursor + st.buf.length + 1) o) >>= _).run _ w₁
        have hholding' : Holding n c { st with pipe := rest } w₁ := ⟨hholding.kept, hholding.buf⟩
        refine wp_bindE (wp_mono (fun r w₂ hr => ?_)
          (told_takeResult hn analytics hholding' rfl ho))
        rcases r with e | st'
        · exact .inl hr
        · obtain ⟨hst', hheld⟩ := hr
          have hlen : st'.buf.length ≤ tuning.batchSize := by
            have hshort := h.short
            subst hst'
            cases o with
            | some b =>
                show (st.buf ++ [b]).length ≤ tuning.batchSize
                simp only [List.length_append, List.length_singleton]
                omega
            | none => exact Nat.zero_le _
          have hfetch' : Fetching n i st'.pipe.inflight w₂ := by
            subst hst'
            cases o with
            | some b => exact Fetching.anywhere hfetching w₂
            | none => exact Fetching.anywhere hfetching w₂
          rw [← hst'] at hlined
          by_cases hfull : tuning.batchSize ≤ st'.buf.length
          · simp only [hfull, if_true]
            refine wp_bindE (wp_mono (fun r w₃ hr₃ => ?_) (told_flush hn analytics hheld))
            rcases r with e | st''
            · exact .inl hr₃
            · obtain ⟨rfl, hheld'⟩ := hr₃
              exact { hheld', hlined.flushed (by omega) with
                short := tuning.batchSize_pos
                fetching := hfetch'.anywhere w₃ }
          · simp only [hfull, if_false]
            exact { hheld, hlined with short := by omega, fetching := hfetch' }

theorem told_runBackfill (hn : n.Faithful) (cfg : SyncConfig) (tuning : Tuning)
    (analytics : Bool) {tip : Int} (htip : n.tip = .ok tip) (w : World Stream) :
    Told n.rpc i (runBackfill cfg tuning analytics).run (fun r w' => ∀ e, r = .error e →
      e.FromDb ∨ ∃ k, StoppedAt n tuning w.store.cursor (backfillCap cfg tip) k e w'.store) w := by
  refine wp_bindE (wpAlone_ask.mpr fun r w₁ hH => ?_)
  obtain ⟨hH, hfault⟩ := hH
  have hq₁ : Quiet w w₁ := SyncCall.Reads.quiet (c := .readCursor) trivial hH
  obtain ⟨w₀, hcancel, hw, hr⟩ := hH
  rcases r with e | cursor
  · intro e' he'
    obtain rfl := Except.error.inj he'
    exact .inl hfault
  · have hcursor : cursor.getD (-1) = w.store.cursor := by
      rcases hr with hr | ⟨e, he⟩
      · obtain rfl := Except.ok.inj hr
        show w₀.store.cursor = _
        rw [hcancel.quiet.store]
      · exact absurd he (by simp)
    refine wp_bindE (wp_mono (fun r w₂ hr₂ => ?_)
      (Alone.told (reading_withRetry (x := n.tip) (reading_chainCall fun _ => rfl) w₁).alone))
    obtain ⟨hq₂, rfl⟩ := hr₂
    have hq := hq₁.trans hq₂
    rw [htip]
    show Told n.rpc i (if backfillCap cfg tip ≤ cursor.getD (-1) then
      (pure (cursor.getD (-1)) : SyncProg Int) else _).run _ w₂
    rw [hcursor]
    by_cases hcap : backfillCap cfg tip ≤ w.store.cursor
    · rw [if_pos hcap]
      exact fun e he => absurd he (by simp)
    · rw [if_neg hcap]
      have hstart : Kept n w.store.cursor w.store.cursor w₂.store := by
        rw [hq.store]
        exact ⟨le_rfl, rfl, fun k hk hle => absurd hk (by omega),
          fun k hk hle => absurd hk (by omega)⟩
      refine wp_iterateE (FetchLoop n i tuning w.store.cursor (backfillCap cfg tip)) ?_
        ⟨⟨hstart, trivial⟩, ⟨le_rfl, ?_, ?_⟩, tuning.batchSize_pos,
          fun e he => absurd he (by simp)⟩ ?_
      · rintro st w w' h rfl -
        exact h
      · show [] ++ inclusive _ _ = inclusive (w.store.cursor + (0 : Nat) + 1) _
        simp
      · show 0 % tuning.batchSize = n.goodRun (w.store.cursor + 1)
          (w.store.cursor + (0 : Nat) + 1) % tuning.batchSize
        rw [Int.natCast_zero, Int.add_zero, goodRun_start]
      · intro st w₃ _ h
        refine wp_mono (fun r w₄ hr => ?_) (told_backfillPass hn tuning analytics h)
        rcases r with e | st' | v
        · intro e' he'
          obtain rfl := Except.error.inj he'
          exact hr
        · exact hr
        · exact fun e he => absurd he (by simp)

/-! ### What a failing height holds back -/

/-- Every bundle fetched between the old cursor and `k` is stored, and the cursor is right
below `k`. -/
def KeepsProgress (n : NodeTables) (c k : Int) (s : Store) : Prop :=
  (∀ h, c < h → h < k → ∀ b, n.outcome h = .ok (some b) → RowsStored s b) ∧ s.cursor = k - 1

/-- **A failing height holds back the last incomplete batch below it.**  A backfill that ends
with the error of a fetch has failed at the first height that could not be fetched; it has
kept everything below exactly when the heights since the last gap make whole batches. -/
theorem failing_height_keeps_progress_iff (hn : n.Faithful) (cfg : SyncConfig)
    (tuning : Tuning) (analytics : Bool) {tip : Int} (htip : n.tip = .ok tip)
    {w w' : World Stream} {e : SyncError}
    (hrun : Run (attributed n.rpc i) w (runBackfill cfg tuning analytics).run w' (.error e))
    (he : ¬ e.FromDb) :
    ∃ k, w.store.cursor < k ∧ k ≤ backfillCap cfg tip ∧ n.outcome k = .error e ∧
      (∀ h, w.store.cursor < h → h < k → ∃ o, n.outcome h = .ok o) ∧
      (KeepsProgress n w.store.cursor k w'.store ↔
        tuning.batchSize ∣ n.goodRun (w.store.cursor + 1) k) := by
  obtain ⟨k, hstop⟩ :=
    (wpAlone_run hrun (told_runBackfill hn cfg tuning analytics htip w) e rfl).resolve_left he
  have hcursor := hstop.kept.cursor
  refine ⟨k, hstop.above, hstop.le_cap, hstop.failed, hstop.fine, fun hkeeps => ?_, fun hdvd => ?_⟩
  · have hzero : n.goodRun (w.store.cursor + 1) k % tuning.batchSize = 0 := by
      have hat := hkeeps.2
      omega
    exact Nat.dvd_of_mod_eq_zero hzero
  · have hkept := hstop.kept
    rw [Nat.mod_eq_zero_of_dvd hdvd, Int.natCast_zero, Int.sub_zero] at hkept
    exact ⟨fun h hh hlt => hkept.stored h hh (by omega), hkept.cursor⟩

/-- Two blocks, and above them a height the node cannot decode. -/
def stuckNodes : NodeTables where
  tip := .ok 3
  block h :=
    if h = 0 then .ok (some (bareBlock h "a0" []))
    else if h = 1 then .ok (some (bareBlock h "a1" []))
    else .error (.decode "damaged")
  logs _ := .ok []
  header _ := .ok none

theorem stuckNodes_faithful : stuckNodes.Faithful := by
  intro h block hb
  unfold stuckNodes at hb
  by_cases h0 : h = 0
  · simp only [h0, if_true] at hb
    obtain rfl := Option.some.inj (Except.ok.inj hb)
    exact h0.symm
  · by_cases h1 : h = 1
    · simp only [h1] at hb
      obtain rfl := Option.some.inj (Except.ok.inj hb)
      exact h1.symm
    · simp only [h0, h1, if_false] at hb
      exact absurd hb (by simp)

/-- The single answers of `serve` tell where an error comes from. -/
theorem attributed_serve (n : NodeTables) (i : TaskId) (w : World Stream) (c : SyncCall) :
    attributed n.rpc i w c (serve n.respond i w c).1 (serve n.respond i w c).2 := by
  refine ⟨⟨w, Or.inl rfl, handle_serve n.answers i w c⟩, ?_⟩
  cases c with
  | transact t =>
      rcases ht : t.run w.store with e | s
      · simp only [serve, ht]
        exact trivial
      · simp only [serve, ht]
        exact trivial
  | readCursor => exact trivial
  | getByHeight h => exact trivial
  | _ => exact trivial

/-- The error of the damaged height. -/
def damagedError : SyncError := .chain (.decode "damaged")

/-- A backfill up to the damaged height, in batches of the given size. -/
theorem stuckNodes_run (batch : Nat) (p : Int)
    (h : (exec (serve stuckNodes.respond 0) 100 (World.init [])
      (runBackfill { SyncConfig.default with safeLag := 0 } (.ofEnv none (some batch)) false).run).any
        (fun x => x.1.store.cursor = p && x.2 = .error damagedError) = true) :
    ∃ w', Run (attributed stuckNodes.rpc 0) (World.init [])
      (runBackfill { SyncConfig.default with safeLag := 0 } (.ofEnv none (some batch)) false).run w'
        (.error damagedError) ∧ w'.store.cursor = p := by
  obtain ⟨w', r, hrun, hcheck⟩ := exists_run_of_execWhile
    (fun w c _ => attributed_serve stuckNodes 0 w c) 100 (World.init []) _ _ h
  rw [Bool.and_eq_true] at hcheck
  obtain rfl : r = _ := of_decide_eq_true hcheck.2
  exact ⟨w', hrun, of_decide_eq_true hcheck.1⟩

/-- **In batches of 100, both blocks below the damaged height are dropped.** -/
theorem damaged_height_drops_batch :
    ¬ ∀ (n : NodeTables) (cfg : SyncConfig) (tuning : Tuning) (analytics : Bool) (tip : Int)
        (w w' : World Stream) (e : SyncError) (k : Int), n.Faithful → n.tip = .ok tip →
        Run (attributed n.rpc 0) w (runBackfill cfg tuning analytics).run w' (.error e) →
        ¬ e.FromDb → w.store.cursor < k → k ≤ backfillCap cfg tip → n.outcome k = .error e →
        (∀ h, w.store.cursor < h → h < k → ∃ o, n.outcome h = .ok o) →
        KeepsProgress n w.store.cursor k w'.store := by
  intro hall
  obtain ⟨w', hrun, hcursor⟩ := stuckNodes_run 100 (-1) (by decide +kernel)
  have hkeeps := hall stuckNodes { SyncConfig.default with safeLag := 0 } (.ofEnv none (some 100))
    false 3 (World.init []) w' damagedError 2 stuckNodes_faithful rfl hrun (fun h => h)
    (by decide) (by decide) (by decide) (fun h h0 hlt => ?_)
  · exact absurd (hcursor.symm.trans hkeeps.2) (by decide)
  · have hh : h = 0 ∨ h = 1 := by
      have h0' : -1 < h := h0
      omega
    rcases hh with rfl | rfl
    · exact ⟨_, eq_valueOf (by decide +kernel)⟩
    · exact ⟨_, eq_valueOf (by decide +kernel)⟩

/-- In batches of two, both are kept. -/
theorem damaged_height_keeps_full_batch :
    ∃ (w' : World Stream) (k : Int), Run (attributed stuckNodes.rpc 0) (World.init [])
        (runBackfill { SyncConfig.default with safeLag := 0 } (.ofEnv none (some 2)) false).run w'
          (.error damagedError) ∧
      (KeepsProgress stuckNodes (-1) k w'.store ↔ 2 ∣ stuckNodes.goodRun 0 k) := by
  obtain ⟨w', hrun, -⟩ := stuckNodes_run 2 1 (by decide +kernel)
  obtain ⟨k, -, -, -, -, hiff⟩ := failing_height_keeps_progress_iff stuckNodes_faithful
    { SyncConfig.default with safeLag := 0 } (.ofEnv none (some 2)) false
    (rfl : stuckNodes.tip = .ok 3) hrun (fun h => h)
  exact ⟨w', k, hrun, hiff⟩

end SentrixIndexer
