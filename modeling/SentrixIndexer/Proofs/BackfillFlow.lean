/-
The flow control of a backfill pass.

What a pass may call next depends on little: how far it has come, up to where it goes, and
whether it has seen the cancellation.  `backfillLaw` is that much of a pass and nothing
else.  It bounds what a pass has in hand: a height is fetched only if it is less than a
batch and a window ahead of the heights that are written or stepped over.  And it says how
a pass ends: a refused transaction is its last, and after a cancellation it commits the
buffer and fetches nothing any more.  The law holds of every pass, whatever its calls are
answered.
-/
import SentrixIndexer.Effect.History
import SentrixIndexer.Proofs.CursorSafety
import SentrixIndexer.Proofs.Pipeline
import SentrixIndexer.Proofs.Rewind

namespace SentrixIndexer

open Effect

variable {α β : Type} {cfg : SyncConfig} {tuning : Tuning} {pos cap : Int}

/-! ### The law -/

/-- Where a backfill pass stands. -/
inductive Leg
  | fresh
  /-- It has read this cursor. -/
  | started (cursor : Int)
  /-- Everything up to `pos` is written or stepped over, and it goes up to `cap`. -/
  | walking (pos cap : Int)
  /-- It has seen the cancellation. -/
  | leaving (pos cap : Int)
  | done

/-- A height that is near enough to fetch. -/
def MayFetch (tuning : Tuning) (pos cap h : Int) : Prop :=
  pos < h ∧ h ≤ cap ∧ h < pos + tuning.batchSize + tuning.concurrency

/-- A batch, of the heights right above `pos`. -/
def MayCommit (tuning : Tuning) (pos cap : Int) (bundles : List BlockBundle) : Prop :=
  bundles ≠ [] ∧ bundles.length ≤ tuning.batchSize ∧ pos + bundles.length ≤ cap

/-- The fetches in flight: neighbours, no more than the window holds. -/
def MayPoll (tuning : Tuning) (pos cap : Int) (hs : List Int) : Prop :=
  hs.length ≤ tuning.concurrency ∧ (∀ h ∈ hs, MayFetch tuning pos cap h) ∧
    ∃ start, hs = inclusive start (start + hs.length - 1)

/-- What a pass may call. -/
def Leg.Allows (tuning : Tuning) : Leg → SyncCall → Prop
  | .fresh, .readCursor => True
  | .started _, .chain .blockNumber => True
  | .started _, .sleep _ => True
  | .walking _ _, .isCancelled => True
  | .walking _ _, .sleep _ => True
  | .walking pos cap, .schedule hs => MayPoll tuning pos cap hs
  | .walking pos cap, .chain (.restBlock h) => MayFetch tuning pos cap h
  | .walking pos cap, .chain (.getLogs h h') => h' = h ∧ MayFetch tuning pos cap h
  | .walking pos cap, .transact (.batchWriteBlocks bundles) => MayCommit tuning pos cap bundles
  | .walking pos cap, .transact (.writeCursor h _) => h = pos + 1 ∧ h ≤ cap
  | .walking _ _, .push _ => True
  | .leaving pos cap, .transact (.batchWriteBlocks bundles) => MayCommit tuning pos cap bundles
  | .done, .push _ => True
  | _, _ => False

/-- Where an answer takes it. -/
def Leg.next (cfg : SyncConfig) : Leg → (c : SyncCall) → c.Answer → Leg
  | .fresh, .readCursor, .ok cursor => .started (cursor.getD (-1))
  | .fresh, .readCursor, .error _ => .done
  | .started cursor, .chain .blockNumber, .ok tip =>
      if backfillCap cfg tip ≤ cursor then .done else .walking cursor (backfillCap cfg tip)
  | .walking pos cap, .isCancelled, true => .leaving pos cap
  | .walking pos cap, .transact (.batchWriteBlocks bundles), .ok _ =>
      .walking (pos + bundles.length) cap
  | .walking _ cap, .transact (.writeCursor h _), .ok _ => .walking h cap
  | .walking _ _, .transact _, .error _ => .done
  | .leaving _ _, .transact _, _ => .done
  | leg, _, _ => leg

/-- **The law of a backfill pass.** -/
def backfillLaw (cfg : SyncConfig) (tuning : Tuning) : Monitor SyncSig Leg :=
  ⟨Leg.Allows tuning, Leg.next cfg⟩

/-! ### Ranges -/

/-- The two parts of a range are ranges. -/
theorem eq_inclusive_of_append {hs rest : List Int} {start cap : Int}
    (h : hs ++ rest = inclusive start cap) :
    hs = inclusive start (start + hs.length - 1) ∧ rest = inclusive (start + hs.length) cap := by
  induction hs generalizing start with
  | nil =>
      refine ⟨(inclusive_of_lt ?_).symm, ?_⟩
      · simp
      · simpa using h
  | cons k hs ih =>
      obtain ⟨rfl, hle, hrest⟩ := inclusive_eq_cons h.symm
      obtain ⟨hhs, hrest⟩ := ih hrest
      have hlen : ((k :: hs).length : Int) = hs.length + 1 := by simp
      refine ⟨?_, ?_⟩
      · rw [inclusive_of_le (by omega), hlen, List.cons.injEq]
        refine ⟨rfl, ?_⟩
        rw [show k + ((hs.length : Int) + 1) - 1 = k + 1 + hs.length - 1 by omega]
        exact hhs
      · rw [hrest, hlen, show k + ((hs.length : Int) + 1) = k + 1 + hs.length by omega]

/-! ### A fetch -/

/-- The calls of a fetch of the height. -/
def FetchCall (h : Int) : SyncCall → Prop
  | .chain (.restBlock k) => k = h
  | .chain (.getLogs k k') => k = h ∧ k' = h
  | .sleep _ => True
  | _ => False

/-- A fetch of a height that is near enough leaves the pass where it is. -/
theorem fetchCall_allowed {h : Int} (hh : MayFetch tuning pos cap h) {c : SyncCall}
    (hc : FetchCall h c) : (backfillLaw cfg tuning).Allows (.walking pos cap) c ∧
      ∀ r, (backfillLaw cfg tuning).next (.walking pos cap) c r = .walking pos cap := by
  cases c with
  | chain c =>
      cases c with
      | restBlock k =>
          obtain rfl : k = h := hc
          exact ⟨hh, fun _ => rfl⟩
      | getLogs k k' =>
          obtain ⟨rfl, rfl⟩ : k = h ∧ k' = h := hc
          exact ⟨⟨rfl, hh⟩, fun _ => rfl⟩
      | _ => exact absurd hc id
  | sleep nanos => exact ⟨trivial, fun _ => rfl⟩
  | _ => exact absurd hc id

theorem fetchCall_withRetry {h : Int} {op : Script SyncSig (Except ChainError α)}
    (hop : op.Only (FetchCall h)) : (withRetry op).run.Only (FetchCall h) := by
  refine Script.Only.bind (retryFrom_only hop (fun _ => Script.only_ask trivial) _ _) fun r => ?_
  cases r with
  | ok v => exact trivial
  | error e => exact trivial

/-- **A fetch calls for its own height only.** -/
theorem fetchOne_only (h : Int) : (fetchOne h).run.Only (FetchCall h) := by
  have hlogs : (ChainProvider.logsInRange h h).Only (FetchCall h) := by
    unfold ChainProvider.logsInRange logsInRange
    rw [if_neg (lt_irrefl h)]
    by_cases hneg : heightAsU64 h = none
    · rw [if_pos hneg]
      exact trivial
    · rw [if_neg hneg, if_neg hneg]
      exact Script.only_ask ⟨rfl, rfl⟩
  refine Script.Only.bindE (fetchCall_withRetry (Script.only_ask rfl)) fun o => ?_
  cases o with
  | none => exact trivial
  | some block =>
      refine Script.Only.bindE (fetchCall_withRetry hlogs) fun logs => ?_
      show ((ExceptT.mk (Script.pure (assemble block logs)) : SyncScript BlockBundle) >>=
        fun bundle => pure (some bundle)).run.Only (FetchCall h)
      exact Script.Only.bindE trivial fun _ => trivial

/-! ### The pipeline -/

/-- An allowed call. -/
theorem law_call {c : SyncCall} {k : c.Answer → Prog SyncSig α} {Q : α → Leg → Prop} {leg : Leg}
    (hc : leg.Allows tuning c)
    (hk : ∀ r, (backfillLaw cfg tuning).Obeys (k r) Q (leg.next cfg c r)) :
    (backfillLaw cfg tuning).Obeys (.call c k) Q leg := Monitor.obeys_call hc hk

/-- The pipeline is to hand out the heights from `start` to `cap`. -/
structure PipeFlow (tuning : Tuning) (start cap : Int) (p : Pipeline) : Prop where
  heights : p.heights = inclusive start cap
  window : p.inflight.length ≤ tuning.concurrency
  fetches : ∀ e ∈ p.inflight, e.2.Only (FetchCall e.1)

theorem PipeFlow.fill {start : Int} {p : Pipeline} (h : PipeFlow tuning start cap p) :
    PipeFlow tuning start cap (p.fill tuning.concurrency) where
  heights := by rw [Pipeline.heights_fill, h.heights]
  window := by
    have := h.window
    simp only [Pipeline.fill, List.length_append, List.length_map, List.length_take]
    omega
  fetches e he := by
    rcases List.mem_append.mp he with hold | hnew
    · exact h.fetches e hold
    · obtain ⟨k, -, rfl⟩ := List.mem_map.mp hnew
      exact fetchOne_only k

/-- The fetches in flight are near enough. -/
theorem PipeFlow.mayPoll {p : Pipeline} {waiting : Nat}
    (h : PipeFlow tuning (pos + waiting + 1) cap p) (hwaiting : waiting < tuning.batchSize) :
    MayPoll tuning pos cap (p.inflight.map Prod.fst) := by
  have hlen : (p.inflight.map Prod.fst).length = p.inflight.length := List.length_map ..
  have hwindow := h.window
  obtain ⟨hkeys, -⟩ := eq_inclusive_of_append h.heights
  refine ⟨by omega, fun k hk => ?_, _, hkeys⟩
  have hcap : k ∈ inclusive (pos + waiting + 1) cap :=
    h.heights ▸ List.mem_append_left _ hk
  rw [hkeys] at hk
  have hlow := mem_inclusive.mp hk
  have hhigh := mem_inclusive.mp hcap
  unfold MayFetch
  omega

/-- What the `select!` yields, and where it leaves the pass. -/
def NextFlow (tuning : Tuning) (pos cap start : Int) : Next → Leg → Prop
  | .cancelled, leg => leg = .leaving pos cap
  | .finished, leg => leg = .walking pos cap
  | .item h _ rest, leg => leg = .walking pos cap ∧ h = start ∧ start ≤ cap ∧
      PipeFlow tuning (start + 1) cap rest

/-- **The `select!` of the loop obeys the law.** -/
theorem obeys_nextItem {p : Pipeline} {waiting : Nat}
    (hp : PipeFlow tuning (pos + waiting + 1) cap p) (hwaiting : waiting < tuning.batchSize) :
    (backfillLaw cfg tuning).Obeys (Prog.iterate (pollNext tuning) p)
      (NextFlow tuning pos cap (pos + waiting + 1)) (.walking pos cap) := by
  refine Monitor.obeys_iterate
    (fun q leg => leg = .walking pos cap ∧ PipeFlow tuning (pos + waiting + 1) cap q) ⟨rfl, hp⟩ ?_
  rintro q _ ⟨rfl, hq⟩
  refine Monitor.obeys_bind (law_call (c := .isCancelled) trivial fun stop => ?_)
  cases stop with
  | true => exact Monitor.obeys_pure (Monitor.obeys_pure rfl)
  | false =>
      refine Monitor.obeys_pure ?_
      have hfill := hq.fill
      show (backfillLaw cfg tuning).Obeys
        (if (q.fill tuning.concurrency).inflight.isEmpty = true
          then Prog.pure (Sum.inr Next.finished) else _) _ (.walking pos cap)
      by_cases hempty : (q.fill tuning.concurrency).inflight.isEmpty = true
      · rw [if_pos hempty]
        exact Monitor.obeys_pure rfl
      · rw [if_neg hempty]
        obtain ⟨hlen, hnear, hrange⟩ := hfill.mayPoll hwaiting
        have hschedule : (backfillLaw cfg tuning).Obeys
            (SyncCall.schedule ((q.fill tuning.concurrency).inflight.map Prod.fst)).await
            (fun _ leg => leg = .walking pos cap) (.walking pos cap) :=
          law_call (c := .schedule _) ⟨hlen, hnear, hrange⟩ fun _ => Monitor.obeys_pure rfl
        refine Monitor.obeys_bind ((Monitor.obeys_turn (A := FetchCall) (fun e he c hc =>
          fetchCall_allowed (hnear _ (List.mem_map_of_mem he)) hc) hschedule
          hfill.fetches).mono ?_)
        rintro r _ ⟨rfl, hturn⟩
        have hheights := hfill.heights
        have hwindow := hfill.window
        rcases r with inflight | ⟨h, result, rest⟩
        · obtain ⟨hkeys, honly⟩ := hturn
          have hlen : inflight.length = (q.fill tuning.concurrency).inflight.length := by
            simpa using congrArg List.length hkeys
          have hfits : inflight.length ≤ tuning.concurrency := by omega
          refine Monitor.obeys_pure ⟨rfl, ?_, hfits, honly⟩
          rw [← hheights]
          show inflight.map Prod.fst ++ _ = _
          rw [hkeys]
          rfl
        · obtain ⟨hkeys, honly⟩ := hturn
          have hlen : (q.fill tuning.concurrency).inflight.length = rest.length + 1 := by
            simpa using congrArg List.length hkeys
          unfold Pipeline.heights at hheights
          rw [hkeys] at hheights
          obtain ⟨hstart, hle, hrest⟩ := inclusive_eq_cons hheights.symm
          have hfits : rest.length ≤ tuning.concurrency := by omega
          exact Monitor.obeys_pure ⟨rfl, hstart, hle, hrest, hfits, honly⟩

/-! ### The loop -/

/-- What the loop has in hand: a buffer that is not full, of the heights right above `pos`. -/
structure HandFlow (tuning : Tuning) (pos cap : Int) (s : BackfillState) : Prop where
  pipe : PipeFlow tuning (pos + s.buf.length + 1) cap s.pipe
  room : s.buf.length < tuning.batchSize
  reach : pos + s.buf.length ≤ cap

/-- The rows of a commit may be pushed. -/
theorem law_pushAll (rows : List RawTxRow) {leg : Leg}
    (hleg : ∀ row, leg.Allows tuning (.push row) ∧ ∀ r, leg.next cfg (.push row) r = leg) :
    (backfillLaw cfg tuning).Obeys (pushAll rows).toProg (fun _ leg' => leg' = leg) leg := by
  induction rows with
  | nil => exact Monitor.obeys_pure rfl
  | cons row rest ih =>
      refine law_call (c := .push row) (hleg row).1 fun accepted => ?_
      rw [(hleg row).2]
      cases accepted with
      | true => exact ih
      | false => exact Monitor.obeys_pure rfl

/-- **A commit of the buffer**, from a state that allows it. -/
theorem obeys_batchWrite (analytics : Bool) {bundles : List BlockBundle} (leg leg' : Leg)
    (hne : bundles ≠ []) (hallows : leg.Allows tuning (.transact (.batchWriteBlocks bundles)))
    (hok : leg.next cfg (.transact (.batchWriteBlocks bundles)) (.ok ()) = leg')
    (hpush : ∀ row, leg'.Allows tuning (.push row) ∧ ∀ r, leg'.next cfg (.push row) r = leg') :
    (backfillLaw cfg tuning).Obeys (Script.toProgE (batchWriteBlocks analytics bundles)).run
      (fun r g => ∀ u, r = .ok u → g = leg') leg := by
  have hempty : bundles.isEmpty = false := by simpa using hne
  unfold batchWriteBlocks
  rw [hempty]
  show (backfillLaw cfg tuning).Obeys (Script.toProgE (do
    transact (.batchWriteBlocks bundles)
    if analytics then ExceptT.lift (pushAll (bundles.flatMap analyticsRows)) :
      SyncScript Unit)).run _ leg
  rw [Script.toProgE_bind]
  refine Monitor.obeys_bindE (law_call (c := .transact (.batchWriteBlocks bundles)) hallows
    fun r => ?_)
  cases r with
  | error e => exact Monitor.obeys_pure fun u hu => absurd hu (by simp)
  | ok u =>
      rw [show leg.next cfg (.transact (.batchWriteBlocks bundles)) (.ok u) = leg' from hok]
      refine Monitor.obeys_pure ?_
      cases analytics with
      | false => exact Monitor.obeys_pure fun _ _ => rfl
      | true =>
          show (backfillLaw cfg tuning).Obeys ((pushAll (bundles.flatMap analyticsRows)).bind
            fun u => .pure (.ok u : Except SyncError Unit)).toProg _ leg'
          rw [Script.toProg_bind]
          exact Monitor.obeys_bind ((law_pushAll _ hpush).mono fun _ _ h =>
            Monitor.obeys_pure fun _ _ => h)

theorem obeys_batchWrite_walking (analytics : Bool) {bundles : List BlockBundle}
    (hc : MayCommit tuning pos cap bundles) :
    (backfillLaw cfg tuning).Obeys (Script.toProgE (batchWriteBlocks analytics bundles)).run
      (fun r g => ∀ u, r = .ok u → g = .walking (pos + bundles.length) cap) (.walking pos cap) :=
  obeys_batchWrite analytics _ _ hc.1 hc rfl fun _ => ⟨trivial, fun _ => rfl⟩

/-- Flushing a buffer that may be committed, or is empty. -/
theorem obeys_flush (analytics : Bool) {s : BackfillState}
    (hbuf : s.buf.length ≤ tuning.batchSize) (hreach : pos + s.buf.length ≤ cap) :
    (backfillLaw cfg tuning).Obeys (Script.toProgE (flush analytics s)).run
      (fun r g => ∀ s', r = .ok s' → s'.pipe = s.pipe ∧ s'.buf = [] ∧
        g = .walking (pos + s.buf.length) cap) (.walking pos cap) := by
  unfold flush
  rcases hmax : highest s.buf with _ | top
  · have hnil : s.buf = [] := by simpa [highest, List.max?_eq_none_iff] using hmax
    refine Monitor.obeys_pure fun s' hs' => ?_
    obtain rfl := Except.ok.inj hs'
    exact ⟨rfl, hnil, by simp [hnil]⟩
  · have hne : s.buf ≠ [] := by
      intro hnil
      simp [highest, hnil] at hmax
    show (backfillLaw cfg tuning).Obeys
      (Script.toProgE (batchWriteBlocks analytics s.buf >>= _)).run _ _
    rw [Script.toProgE_bind]
    refine Monitor.obeys_bindE ((obeys_batchWrite_walking analytics ⟨hne, hbuf, hreach⟩).mono ?_)
    intro r leg hr
    cases r with
    | error e => exact fun s' hs' => by simp at hs'
    | ok u =>
        refine Monitor.obeys_pure fun s' hs' => ?_
        obtain rfl := Except.ok.inj hs'
        exact ⟨rfl, rfl, hr () rfl⟩

/-- After the cancellation the buffer is committed, and that is all. -/
theorem obeys_flush_leaving (analytics : Bool) {s : BackfillState}
    (hbuf : s.buf.length ≤ tuning.batchSize) (hreach : pos + s.buf.length ≤ cap) :
    (backfillLaw cfg tuning).Obeys (Script.toProgE (flush analytics s)).run
      (fun _ _ => True) (.leaving pos cap) := by
  unfold flush
  rcases hmax : highest s.buf with _ | top
  · exact Monitor.obeys_pure trivial
  · have hne : s.buf ≠ [] := by
      intro hnil
      simp [highest, hnil] at hmax
    show (backfillLaw cfg tuning).Obeys
      (Script.toProgE (batchWriteBlocks analytics s.buf >>= _)).run _ _
    rw [Script.toProgE_bind]
    refine Monitor.obeys_bindE ((obeys_batchWrite analytics (.leaving pos cap) .done hne
      ⟨hne, hbuf, hreach⟩ rfl fun _ => ⟨trivial, fun _ => rfl⟩).mono ?_)
    intro r leg hr
    cases r with
    | error e => exact trivial
    | ok u => exact Monitor.obeys_pure trivial

/-- **A fetched height** is one more bundle in the buffer, or a gap above it. -/
theorem obeys_takeResult (analytics : Bool) {s : BackfillState} {fetched : Option BlockBundle}
    (hroom : s.buf.length < tuning.batchSize) (hreach : pos + s.buf.length + 1 ≤ cap) :
    (backfillLaw cfg tuning).Obeys
      (Script.toProgE (takeResult analytics s (pos + s.buf.length + 1) fetched)).run
      (fun r g => ∀ s', r = .ok s' → s'.pipe = s.pipe ∧ ∃ pos', g = .walking pos' cap ∧
        pos' + s'.buf.length = pos + s.buf.length + 1 ∧ s'.buf.length ≤ tuning.batchSize)
      (.walking pos cap) := by
  cases fetched with
  | some bundle =>
      refine Monitor.obeys_pure fun s' hs' => ?_
      obtain rfl := Except.ok.inj hs'
      refine ⟨rfl, pos, rfl, ?_, ?_⟩
      · simp
        omega
      · simp
        omega
  | none =>
      have hgap : ∀ h, h = pos + s.buf.length + 1 → (backfillLaw cfg tuning).Obeys
          (Script.toProgE (do
            transact (.writeCursor h 0)
            return { s with buf := [], cursor := h } : SyncScript BackfillState)).run
          (fun r g => ∀ s', r = .ok s' → s'.pipe = s.pipe ∧ ∃ pos', g = .walking pos' cap ∧
            pos' + s'.buf.length = pos + s.buf.length + 1 ∧ s'.buf.length ≤ tuning.batchSize)
          (.walking (pos + s.buf.length) cap) := by
        rintro h rfl
        rw [Script.toProgE_bind]
        refine Monitor.obeys_bindE (law_call (c := .transact (.writeCursor _ 0)) ⟨rfl, hreach⟩
          fun r => ?_)
        cases r with
        | error e => exact Monitor.obeys_pure fun s' hs' => by simp at hs'
        | ok u =>
            refine Monitor.obeys_pure (Monitor.obeys_pure fun s' hs' => ?_)
            obtain rfl := Except.ok.inj hs'
            exact ⟨rfl, _, rfl, by simp, by simp⟩
      by_cases hnil : s.buf = []
      · rw [takeResult_none_of_nil analytics hnil]
        have hpos : pos + (s.buf.length : Int) = pos := by simp [hnil]
        have := hgap _ rfl
        rwa [hpos] at this ⊢
      · rw [takeResult_none_of_ne_nil analytics hnil, Script.toProgE_bind]
        refine Monitor.obeys_bindE ((obeys_batchWrite_walking analytics
          ⟨hnil, le_of_lt hroom, by omega⟩).mono ?_)
        intro r leg hr
        cases r with
        | error e => exact fun s' hs' => by simp at hs'
        | ok u =>
            obtain rfl := hr () rfl
            exact hgap _ rfl

/-- What a pass of the loop leaves. -/
def PassFlow (tuning : Tuning) (cap : Int) (r : Except SyncError (BackfillState ⊕ Int))
    (leg : Leg) : Prop :=
  ∀ s', r = .ok (.inl s') → ∃ pos, leg = .walking pos cap ∧ HandFlow tuning pos cap s'

/-- Leaving the loop ends the pass. -/
theorem obeys_leave {s : BackfillState} {analytics : Bool} {leg : Leg}
    {Q : Except SyncError BackfillState → Leg → Prop}
    (h : (backfillLaw cfg tuning).Obeys (Script.toProgE (flush analytics s)).run Q leg) :
    (backfillLaw cfg tuning).Obeys (do
      let s ← Script.toProgE (flush analytics s)
      return .inr s.cursor : SyncProg (BackfillState ⊕ Int)).run (PassFlow tuning cap) leg := by
  refine Monitor.obeys_bindE (h.mono fun r leg' _ => ?_)
  cases r with
  | ok s' => exact Monitor.obeys_pure fun s' hs' => by simp at hs'
  | error e => exact fun s' hs' => by simp at hs'

/-- **One pass of the backfill loop obeys the law.** -/
theorem obeys_backfillPass (analytics : Bool) {s : BackfillState}
    (hs : HandFlow tuning pos cap s) :
    (backfillLaw cfg tuning).Obeys (backfillPass tuning analytics s).run (PassFlow tuning cap)
      (.walking pos cap) := by
  have hbuf := le_of_lt hs.room
  refine Monitor.obeys_bindE (Monitor.obeys_bind ((obeys_nextItem hs.pipe hs.room).mono ?_))
  intro next leg hnext
  cases next with
  | cancelled =>
      obtain rfl := hnext
      exact Monitor.obeys_pure (obeys_leave (obeys_flush_leaving analytics hbuf hs.reach))
  | finished =>
      obtain rfl := hnext
      exact Monitor.obeys_pure (obeys_leave (obeys_flush analytics hbuf hs.reach))
  | item h result rest =>
      obtain ⟨rfl, rfl, hle, hrest⟩ := hnext
      refine Monitor.obeys_pure (Monitor.obeys_bindE ?_)
      show (backfillLaw cfg tuning).Obeys (Prog.pure result) _ _
      cases result with
      | error e => exact Monitor.obeys_pure fun s' hs' => by simp at hs'
      | ok fetched =>
          refine Monitor.obeys_pure (Monitor.obeys_bindE
            ((obeys_takeResult analytics (s := { s with pipe := rest }) hs.room hle).mono ?_))
          intro r leg htaken
          cases r with
          | error e => exact fun s' hs' => by simp at hs'
          | ok s₁ =>
              obtain ⟨hpipe, pos', rfl, hsum, hlen⟩ := htaken s₁ rfl
              have hsum : pos' + (s₁.buf.length : Int) = pos + s.buf.length + 1 := hsum
              have hpipe₁ : PipeFlow tuning (pos' + s₁.buf.length + 1) cap s₁.pipe := by
                rw [hpipe, hsum]
                exact hrest
              by_cases hfull : tuning.batchSize ≤ s₁.buf.length
              · simp only [hfull, if_true]
                refine Monitor.obeys_bindE ((obeys_flush analytics hlen (by omega)).mono ?_)
                intro r leg hflushed
                cases r with
                | error e => exact fun s' hs' => by simp at hs'
                | ok s₂ =>
                    obtain ⟨hpipe₂, hnil, rfl⟩ := hflushed s₂ rfl
                    refine Monitor.obeys_pure fun s' hs' => ?_
                    obtain rfl := Sum.inl.inj (Except.ok.inj hs')
                    refine ⟨_, rfl, ?_, ?_, ?_⟩
                    · rw [hpipe₂, hnil]
                      simpa using hpipe₁
                    · rw [hnil]
                      exact tuning.batchSize_pos
                    · rw [hnil]
                      simp
                      omega
              · simp only [hfull, if_false]
                refine Monitor.obeys_pure fun s' hs' => ?_
                obtain rfl := Sum.inl.inj (Except.ok.inj hs')
                exact ⟨pos', rfl, hpipe₁, by omega, by omega⟩

/-- The tip is asked for again until it is known. -/
theorem obeys_tip (cursor : Int) :
    (backfillLaw cfg tuning).Obeys (Script.toProgE (withRetry ChainProvider.blockNumber)).run
      (fun r leg => ∀ tip, r = .ok tip →
        leg = Leg.next cfg (.started cursor) (.chain .blockNumber) (.ok tip))
      (.started cursor) := by
  have hsleep : ∀ nanos o, o = some (Leg.started cursor) →
      wp (backfillLaw cfg tuning).handler (· ≠ none) Eq (fun _ _ => True)
        (sleepFor nanos).toProg (fun _ o' => o' = some (Leg.started cursor)) o := by
    rintro nanos o rfl
    refine wp_mono ?_ (law_call (c := .sleep nanos) (Q := fun _ leg => leg = .started cursor)
      trivial fun _ => Monitor.obeys_pure rfl)
    rintro _ o' ⟨leg, rfl, rfl⟩
    rfl
  refine wp_script_bind (wp_mono ?_ (wp_retryFrom_inv
    (Q := fun r o => ∃ leg, o = some leg ∧ ∀ tip, r = .ok tip →
      leg = Leg.next cfg (.started cursor) (.chain .blockNumber) (.ok tip))
    (J := fun _ o => o = some (.started cursor)) ?_ (fun _ nanos o hJ => hsleep nanos o hJ)
    _ _ _ rfl rfl))
  · rintro r o ⟨leg, rfl, hleg⟩
    cases r with
    | ok tip => exact ⟨leg, rfl, fun tip' ht => hleg tip' (congrArg _ (Except.ok.inj ht))⟩
    | error e => exact ⟨leg, rfl, fun tip' ht => by simp at ht⟩
  · rintro k o rfl
    refine wp_mono ?_ (law_call (c := .chain .blockNumber)
      (Q := fun r leg => leg = Leg.next cfg (.started cursor) (.chain .blockNumber) r)
      trivial fun _ => Monitor.obeys_pure rfl)
    rintro r o ⟨leg, rfl, rfl⟩
    cases r with
    | ok tip => exact ⟨_, rfl, fun tip' ht => by rw [Except.ok.inj ht]⟩
    | error e =>
        show if _ then _ else _
        split
        · rfl
        · exact ⟨_, rfl, fun tip' ht => by simp at ht⟩

/-- **A backfill pass obeys the law.** -/
theorem obeys_runBackfill (cfg : SyncConfig) (tuning : Tuning) (analytics : Bool) :
    (backfillLaw cfg tuning).Obeys (runBackfill cfg tuning analytics).run (fun _ _ => True)
      .fresh := by
  refine Monitor.obeys_bindE (law_call (c := .readCursor) trivial fun r => ?_)
  cases r with
  | error e => exact Monitor.obeys_pure trivial
  | ok cursor =>
      refine Monitor.obeys_pure (Monitor.obeys_bindE ((obeys_tip (cursor.getD (-1))).mono ?_))
      intro r leg hleg
      cases r with
      | error e => exact trivial
      | ok tip =>
          obtain rfl := hleg tip rfl
          by_cases hcap : backfillCap cfg tip ≤ cursor.getD (-1)
          · simp only [hcap, if_true]
            exact Monitor.obeys_pure trivial
          · simp only [hcap, if_false]
            refine Monitor.obeys_iterateE (fun s leg => ∃ pos,
              leg = .walking pos (backfillCap cfg tip) ∧
                HandFlow tuning pos (backfillCap cfg tip) s) ⟨cursor.getD (-1), ?_, ?_⟩ ?_
            · simp [Leg.next, hcap]
            · refine ⟨⟨?_, by simp, by simp⟩, tuning.batchSize_pos, ?_⟩
              · simp [Pipeline.heights]
              · simp
                omega
            · rintro s _ ⟨pos, rfl, hs⟩
              refine (obeys_backfillPass analytics hs).mono fun r leg hr => ?_
              rcases r with e | s' | n
              · exact trivial
              · exact hr s' rfl
              · exact trivial

/-! ### What the law says of the end -/

/-- The calls that end a pass. -/
def SyncCall.IsLast : SyncCall → Prop
  | .transact (.batchWriteBlocks _) => True
  | .push _ => True
  | _ => False

def SyncCall.isTransact : SyncCall → Bool
  | .transact _ => true
  | _ => false

variable {calls : List ((c : SyncCall) × c.Answer)}

theorem accepts_done (h : (backfillLaw cfg tuning).Accepts .done calls) :
    (∀ e ∈ calls, e.1.IsLast) ∧ (calls.countP fun e => e.1.isTransact) = 0 := by
  induction calls with
  | nil => exact ⟨by simp, rfl⟩
  | cons e rest ih =>
      obtain ⟨c, r⟩ := e
      obtain ⟨hallows, hrest⟩ := h
      cases c with
      | push row =>
          obtain ⟨hlast, hcount⟩ := ih hrest
          refine ⟨fun e he => ?_, ?_⟩
          · rcases List.mem_cons.mp he with rfl | he
            · exact trivial
            · exact hlast e he
          · rw [List.countP_cons, hcount]
            rfl
      | _ => exact absurd hallows id

/-- **After the cancellation** the law allows at most one transaction, of the buffer. -/
theorem accepts_leaving (h : (backfillLaw cfg tuning).Accepts (.leaving pos cap) calls) :
    (∀ e ∈ calls, e.1.IsLast) ∧ (calls.countP fun e => e.1.isTransact) ≤ 1 := by
  cases calls with
  | nil => exact ⟨by simp, by simp⟩
  | cons e rest =>
      obtain ⟨c, r⟩ := e
      obtain ⟨hallows, hrest⟩ := h
      cases c with
      | transact t =>
          cases t with
          | batchWriteBlocks bundles =>
              obtain ⟨hlast, hcount⟩ := accepts_done hrest
              refine ⟨fun e he => ?_, ?_⟩
              · rcases List.mem_cons.mp he with rfl | he
                · exact trivial
                · exact hlast e he
              · rw [List.countP_cons, hcount]
                simp [SyncCall.isTransact]
          | _ => exact absurd hallows id
      | _ => exact absurd hallows id

/-! ### Every pass -/

/--
**Every backfill pass obeys its law**, however far it gets and whatever its calls are
answered: it reads the cursor and the tip, has at most a window of fetches in flight, all
within a batch and a window above the heights that are written or stepped over and never
past its cap, commits between one and a batch of bundles at a time, steps only over the
height right above, and calls nothing but the analytics buffer once a transaction has been
refused.  And when it has seen the cancellation it fetches, sleeps and polls no more: at
most one transaction follows, of what is in the buffer.
-/
theorem backfill_flow (cfg : SyncConfig) (tuning : Tuning) (analytics : Bool)
    {p : Prog SyncSig (Except SyncError Int)}
    (h : Calls (runBackfill cfg tuning analytics).run calls p) :
    (backfillLaw cfg tuning).Accepts .fresh calls ∧
    ∀ before after, calls = before ++ ⟨.isCancelled, true⟩ :: after →
      (∀ e ∈ after, e.1.IsLast) ∧ (after.countP fun e => e.1.isTransact) ≤ 1 := by
  have haccepts := Monitor.Obeys.accepts h (obeys_runBackfill cfg tuning analytics)
  refine ⟨haccepts, ?_⟩
  rintro before after rfl
  obtain ⟨leg, hallows, hafter⟩ := haccepts.of_append
  cases leg with
  | walking pos cap => exact accepts_leaving hafter
  | _ => exact absurd hallows id

/-! ### A pass that is told to stop -/

/-- A world with the history of the calls. -/
abbrev Historied := World Stream × List (CallAnswer SyncSig)

/-- Nodes that answer, until block 1 has been served: then the token is cancelled.  Every call
is written down. -/
def stopAfterOne : Server SyncSig Historied := fun x c =>
  let (r, w) := serve gapNodes.respond 0 x.1 c
  let told := match c with
    | .chain (.restBlock h) => w.cancelled || h = 1
    | _ => w.cancelled
  (r, { w with cancelled := told }, x.2 ++ [⟨c, r⟩])

/-- Any answer may be given, and each is written down with its call. -/
def writesDown : Handler SyncSig Historied := fun x c r x' => x'.2 = x.2 ++ [⟨c, r⟩]

def seesCancelled : CallAnswer SyncSig → Bool
  | ⟨.isCancelled, r⟩ => r
  | _ => false

theorem seesCancelled_spec {e : CallAnswer SyncSig} (h : seesCancelled e = true) :
    e = ⟨.isCancelled, true⟩ := by
  unfold seesCancelled at h
  split at h
  · next r =>
      obtain rfl : r = true := h
      rfl
  · exact absurd h (by simp)

/-- What follows the first sight of the cancellation holds one transaction. -/
def commitsOnceAfter (calls : List (CallAnswer SyncSig)) : Bool :=
  match calls.dropWhile fun e => !seesCancelled e with
  | e :: after => seesCancelled e && (after.countP fun e => e.1.isTransact) = 1
  | [] => false

theorem commitsOnceAfter_spec {calls : List (CallAnswer SyncSig)}
    (h : commitsOnceAfter calls = true) :
    ∃ before after, calls = before ++ ⟨.isCancelled, true⟩ :: after ∧
      (after.countP fun e => e.1.isTransact) = 1 := by
  unfold commitsOnceAfter at h
  split at h
  · next e after hdrop =>
      obtain ⟨hsees, hcount⟩ := Bool.and_eq_true_iff.mp h
      obtain rfl := seesCancelled_spec hsees
      refine ⟨calls.takeWhile fun e => !seesCancelled e, after, ?_, of_decide_eq_true hcount⟩
      rw [← hdrop, List.takeWhile_append_dropWhile]
  · exact absurd h (by simp)

/--
Block 0 is in the buffer and block 1 on its way when the pass sees the cancellation: it commits
the buffer, and that is the end.
-/
theorem backfill_flow_stopped :
    ∃ before after, Calls (backfillPassOf probeTip).run (before ++ ⟨.isCancelled, true⟩ :: after)
        (.pure (.ok 0)) ∧
      (backfillLaw probeTip (Tuning.ofEnv none none)).Accepts .fresh
        (before ++ ⟨.isCancelled, true⟩ :: after) ∧
      (∀ e ∈ after, e.1.IsLast) ∧ (after.countP fun e => e.1.isTransact) = 1 := by
  have hserve : ∀ x c, true = true →
      writesDown x c (stopAfterOne x c).1 (stopAfterOne x c).2 := fun _ _ _ => rfl
  obtain ⟨⟨w, calls⟩, r, hrun, hcheck⟩ := exists_run_of_execWhile hserve 100 (World.init [], [])
    (backfillPassOf probeTip).run (fun x => x.2 = .ok 0 && commitsOnceAfter x.1.2)
    (by decide +kernel)
  obtain ⟨hresult, honce⟩ := Bool.and_eq_true_iff.mp hcheck
  obtain rfl : r = .ok 0 := of_decide_eq_true hresult
  obtain ⟨calls', hhistory, hcalls⟩ := hrun.steps.history Prod.snd fun _ _ _ _ h => h
  obtain rfl : calls = calls' := hhistory
  obtain ⟨before, after, rfl, hcount⟩ := commitsOnceAfter_spec honce
  obtain ⟨haccepts, hstopped⟩ := backfill_flow probeTip (Tuning.ofEnv none none) false hcalls
  exact ⟨before, after, hcalls, haccepts, (hstopped before after rfl).1, hcount⟩

end SentrixIndexer
