/-
The pipelined backfill refines the plain loop.

With one answer per height and no other writer, the loop is always somewhere the plain
loop gets to: the store is `Reached` at the loop's cursor, the buffer has the bundles
right above it, and the pipeline goes on right above these.  A flush is one transaction
that takes the store to the top of the buffer, a gap one that takes it to the gap; so
wherever the backfill ends, its store is the plain loop's.
-/
import SentrixIndexer.Proofs.CursorSafety
import SentrixIndexer.Proofs.PlainLoop
import SentrixIndexer.Proofs.Writers

namespace SentrixIndexer

open Effect Relational

variable {n : NodeTables} {i : TaskId} {s₀ : Store}

/-! ### The buffer -/

/-- The list has the bundles of the heights from `h` on, none of which is a gap. -/
def Buffered (n : NodeTables) : Int → List BlockBundle → Prop
  | _, [] => True
  | h, b :: rest => n.outcome h = .ok (some b) ∧ Buffered n (h + 1) rest

theorem Buffered.append {buf : List BlockBundle} {b : BlockBundle} :
    ∀ {h : Int}, Buffered n h buf → n.outcome (h + buf.length) = .ok (some b) →
      Buffered n h (buf ++ [b]) := by
  induction buf with
  | nil =>
      intro h _ hb
      exact ⟨by simpa using hb, trivial⟩
  | cons b' rest ih =>
      intro h hbuf hb
      refine ⟨hbuf.1, ih hbuf.2 ?_⟩
      rw [List.length_cons] at hb
      rw [show h + 1 + (rest.length : Int) = h + ((rest.length + 1 : Nat) : Int) by omega]
      exact hb

theorem Buffered.consecutive (hn : n.Faithful) {buf : List BlockBundle} :
    ∀ {h : Int}, Buffered n h buf → Consecutive h buf := by
  induction buf with
  | nil => exact fun _ => trivial
  | cons b rest ih =>
      intro h hbuf
      exact ⟨NodeTables.outcome_height hn hbuf.1, ih hbuf.2⟩

/-- The top of the buffer. -/
theorem Buffered.highest (hn : n.Faithful) {buf : List BlockBundle} {c : Int}
    (h : Buffered n (c + 1) buf) (hne : buf ≠ []) : highest buf = some (c + buf.length) := by
  show (buf.map fun b => b.block.height).max? = _
  rw [(h.consecutive hn).max? hne]
  congr 1
  omega

theorem Buffered.fine {buf : List BlockBundle} :
    ∀ {h : Int}, Buffered n h buf →
      ∀ k, h ≤ k → k < h + buf.length → ∃ o, n.outcome k = .ok o := by
  induction buf with
  | nil =>
      intro h _ k hle hlt
      rw [List.length_nil] at hlt
      omega
  | cons b rest ih =>
      intro h hbuf k hle hlt
      rw [List.length_cons] at hlt
      by_cases hk : k = h
      · exact ⟨some b, hk ▸ hbuf.1⟩
      · exact ih hbuf.2 k (by omega) (by omega)

/-- The buffer has just the bundles of its heights. -/
theorem Buffered.bundlesOn {buf : List BlockBundle} :
    ∀ {h q : Int}, Buffered n h buf → q + 1 = h + buf.length →
      buf = n.bundlesOn (inclusive h q) := by
  induction buf with
  | nil =>
      intro h q _ hq
      rw [List.length_nil] at hq
      rw [inclusive_of_lt (by omega)]
      rfl
  | cons b rest ih =>
      intro h q hbuf hq
      rw [List.length_cons] at hq
      have hrest := ih (q := q) hbuf.2 (by omega)
      rw [inclusive_of_le (by omega)]
      unfold NodeTables.bundlesOn at hrest ⊢
      rw [List.filterMap_cons, NodeTables.bundleAt_of_ok hbuf.1, ← hrest]

/-! ### What the loop holds -/

/-- Some plain loop gets to the store. -/
def Settles (n : NodeTables) (s₀ : Store) (w : World Stream) : Prop :=
  ∃ p, Reached n s₀ p w.store

/-- The buffer continues right above what is stored. -/
structure Ahead (n : NodeTables) (s₀ : Store) (st : BackfillState) (w : World Stream) : Prop where
  reached : Reached n s₀ st.cursor w.store
  buf : Buffered n (st.cursor + 1) st.buf

/-- The state of the loop once its buffer is in the database. -/
def BackfillState.flushed (st : BackfillState) : BackfillState :=
  { st with buf := [], cursor := st.cursor + st.buf.length }

/-- **The batch takes the store to the top of the buffer.** -/
theorem Ahead.batch (hn : n.Faithful) {st : BackfillState}
    {w : World Stream} (h : Ahead n s₀ st w) (hne : st.buf ≠ []) {s : Store}
    (hrun : (Txn.batchWriteBlocks st.buf).run w.store = .ok s) :
    Reached n s₀ (st.cursor + st.buf.length) s := by
  have hlen : 0 < st.buf.length := List.length_pos_of_ne_nil hne
  refine h.reached.step (t := .batchWriteBlocks st.buf) trivial hrun (by omega) (h.buf.highest hn hne)
    (h.buf.bundlesOn (by omega)) fun k hlt hle => ?_
  exact h.buf.fine k (by omega) (by omega)

/-- The state of the loop once it has taken the result for the next height. -/
def BackfillState.taken (st : BackfillState) (h : Int) : Option BlockBundle → BackfillState
  | some b => { st with buf := st.buf ++ [b] }
  | none => { st with buf := [], cursor := h }

/-- The fetches in flight, each on its way to the outcome of its height. -/
abbrev Fetching (n : NodeTables) (i : TaskId) (inflight : Fetches) (w : World Stream) : Prop :=
  PoolOk (undisturbed n.rpc i) (fun _ => True) (fun _ _ => True) Quiet
    (fun h r _ => r = n.outcome h) inflight w

theorem Fetching.anywhere {inflight : Fetches} {w : World Stream}
    (h : Fetching n i inflight w) (w' : World Stream) : Fetching n i inflight w' :=
  PoolOk.stable (fun _ _ _ _ _ => trivial) (fun _ _ _ _ hq _ _ => hq) h trivial trivial

/-- **The invariant of the backfill loop.** -/
structure LoopInv (n : NodeTables) (i : TaskId) (s₀ : Store) (cap : Int) (st : BackfillState)
    (w : World Stream) : Prop extends Ahead n s₀ st w where
  heights : st.pipe.heights = inclusive (st.cursor + 1 + st.buf.length) cap
  le : st.cursor + st.buf.length ≤ cap
  fetching : Fetching n i st.pipe.inflight w

theorem alone_nextItem (tuning : Tuning) {p : Pipeline} {w : World Stream}
    (hp : Fetching n i p.inflight w) :
    Alone n.rpc i (Prog.iterate (pollNext tuning) p) (fun next w' => Quiet w w' ∧
      NextPost (undisturbed n.rpc i) (fun _ => True) (fun w => w.cancelled = true)
        (fun _ _ => True) Quiet (fun h r _ => r = n.outcome h) p.heights next w') w := by
  refine wp_nextItem Quiet.refl quiet_trans (fun _ _ _ _ _ => trivial) ?_
    (fun _ _ h => ⟨h, trivial⟩) (fun _ _ _ => trivial) (fun _ _ _ _ hq _ _ => hq) ?_ ?_
    (fun h _ w _ => reading_fetchOne h w) hp
  · rintro w w' rfl
    exact Quiet.refl w
  · intro w _
    refine wpAlone_ask.mpr fun stop w' hH => ?_
    have hq : Quiet w w' := SyncCall.Reads.quiet (c := .isCancelled) trivial hH
    obtain ⟨w₁, -, rfl, rfl⟩ := hH
    exact ⟨trivial, hq, fun hstop => hstop⟩
  · intro hs w _
    refine wpAlone_ask.mpr fun _ w' hH => ?_
    exact ⟨trivial, SyncCall.Reads.quiet (c := .schedule hs) trivial hH⟩

theorem Ahead.quiet {st : BackfillState} {w w' : World Stream} (h : Ahead n s₀ st w)
    (hq : Quiet w w') : Ahead n s₀ st w' :=
  ⟨by rw [hq.store]; exact h.reached, h.buf⟩

/-- The invariant after the next result has been taken. -/
theorem LoopInv.taken {cap : Int} (st : BackfillState) {w w' : World Stream} {h : Int}
    (hh : h = st.cursor + 1 + st.buf.length) (hcap : h ≤ cap)
    (hheights : st.pipe.heights = inclusive (h + 1) cap)
    (hfetching : Fetching n i st.pipe.inflight w) {o : Option BlockBundle}
    (htaken : Ahead n s₀ (st.taken h o) w') : LoopInv n i s₀ cap (st.taken h o) w' := by
  subst hh
  cases o with
  | some b =>
      refine { htaken with heights := ?_, le := ?_, fetching := hfetching.anywhere w' }
      · show st.pipe.heights = inclusive (st.cursor + 1 + ((st.buf ++ [b]).length : Nat)) cap
        rw [hheights, List.length_append]
        congr 1
        simp only [List.length_singleton]
        omega
      · show st.cursor + ((st.buf ++ [b]).length : Nat) ≤ cap
        simp only [List.length_append, List.length_singleton]
        omega
  | none =>
      refine { htaken with heights := ?_, le := ?_, fetching := hfetching.anywhere w' }
      · show st.pipe.heights = inclusive (st.cursor + 1 + st.buf.length + 1 + (0 : Nat)) cap
        rw [hheights]
        simp
      · show st.cursor + 1 + st.buf.length + (0 : Nat) ≤ cap
        omega

/-- The invariant after a flush. -/
theorem LoopInv.flushed {cap : Int} {st : BackfillState} {w w' : World Stream}
    (h : LoopInv n i s₀ cap st w) (hflushed : Ahead n s₀ st.flushed w') :
    LoopInv n i s₀ cap st.flushed w' := by
  have hle := h.le
  refine { hflushed with heights := ?_, le := ?_, fetching := h.fetching.anywhere w' }
  · show st.pipe.heights = inclusive (st.cursor + st.buf.length + 1 + (0 : Nat)) cap
    rw [h.heights]
    congr 1
    omega
  · show st.cursor + st.buf.length + (0 : Nat) ≤ cap
    omega

end SentrixIndexer
