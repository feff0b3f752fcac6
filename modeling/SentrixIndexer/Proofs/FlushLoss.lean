/-
What a failed flush loses.

While the task runs, every accepted row is in the channel, the buffer, the insert in
progress or an insert that ended well, in this order.  There are two ways out of that
balance.  A client call that fails makes the task return, and the rows it was writing go
with it; and a row pushed after the last look into the channel goes with the channel
when the task returns from its final flush.
-/
import SentrixIndexer.Analytics.Flusher

namespace SentrixIndexer

variable {c c' : Flusher}

/-- Every accepted row is delivered, or waits in the insert, the buffer or the channel. -/
def Flusher.Kept (c : Flusher) : Prop :=
  acceptedRows c.events = deliveredRows c.events ++ c.insert ++ c.buf ++ c.queue

/-- The rows pushed since the last look into the channel, oldest first. -/
def lateRows : List FlushEvent → List RawTxRow
  | [] => []
  | .lastDrain :: _ => []
  | .pushed row :: rest => lateRows rest ++ [row]
  | .ended _ :: rest => lateRows rest
  | .failed :: rest => lateRows rest

/-! ### The invariant -/

/-- What is known of the channel during a flush of the branch. -/
def Flusher.Phase (c : Flusher) : FlushBranch → Prop
  | .tick => True
  | .shutdown => c.cancelled = true ∧ c.queue = lateRows c.events

/-- Nothing has been lost and nothing has failed so far. -/
structure Keeping (c : Flusher) (branch : FlushBranch) : Prop where
  kept : c.Kept
  clean : .failed ∉ c.events
  phase : c.Phase branch
  handles : c.handles = false → c.cancelled = true

/-- The task has returned and dropped what it had. -/
structure Dropped (c : Flusher) : Prop where
  queue : c.queue = []
  buf : c.buf = []
  insert : c.insert = []

/-- The invariant of the flusher at one place of the task. -/
def Flusher.InvAt (c : Flusher) : FlusherPc → Prop
  | .selecting => Keeping c .tick ∧ c.insert = []
  | .draining branch => Keeping c .tick ∧ c.insert = [] ∧ (branch = .shutdown → c.cancelled = true)
  | .flushing branch => Keeping c branch ∧ c.insert = []
  | .creating branch => Keeping c branch ∧ c.insert = [] ∧ c.buf ≠ []
  | .writing branch => Keeping c branch ∧ c.insert ++ c.buf ≠ []
  | .returned true => Dropped c ∧ c.cancelled = true ∧ .failed ∉ c.events ∧
      acceptedRows c.events = deliveredRows c.events ++ lateRows c.events
  | .returned false => Dropped c ∧ .failed ∈ c.events ∧
      (deliveredRows c.events).length < (acceptedRows c.events).length

/-- **The invariant of the flusher.** -/
def Flusher.Inv (c : Flusher) : Prop := c.InvAt c.pc

/-! ### Steps of the flusher -/

theorem Keeping.push {branch : FlushBranch} (h : Keeping c branch) (row : RawTxRow) :
    Keeping ({ c with queue := c.queue ++ [row] }.note (.pushed row)) branch where
  kept := by
    have hkept : acceptedRows c.events = _ := h.kept
    show acceptedRows c.events ++ [row] = _
    simp [hkept, Flusher.note, deliveredRows]
  clean := by simpa [Flusher.note] using h.clean
  phase := by
    cases branch with
    | tick => trivial
    | shutdown =>
        obtain ⟨hcancelled, hqueue⟩ := h.phase
        exact ⟨hcancelled, by simp [Flusher.note, lateRows, hqueue]⟩
  handles := h.handles

/-- A row moves from the channel to the buffer. -/
theorem Keeping.receive (h : Keeping c .tick) {row : RawTxRow} {rest : List RawTxRow}
    (hqueue : c.queue = row :: rest) :
    Keeping { c with queue := rest, buf := c.buf ++ [row] } .tick where
  kept := by
    have hkept : acceptedRows c.events = _ := h.kept
    show acceptedRows c.events = _
    simp [hkept, hqueue]
  clean := h.clean
  phase := trivial
  handles := h.handles

theorem Keeping.cancel {branch : FlushBranch} (h : Keeping c branch) :
    Keeping { c with cancelled := true } branch where
  kept := h.kept
  clean := h.clean
  phase := by
    cases branch with
    | tick => trivial
    | shutdown => exact ⟨rfl, h.phase.2⟩
  handles _ := rfl

theorem Keeping.drop {branch : FlushBranch} (h : Keeping c branch) (hcancelled : c.cancelled = true) :
    Keeping { c with handles := false } branch :=
  ⟨h.kept, h.clean, h.phase, fun _ => hcancelled⟩

/-- A step that leaves everything but the place keeps the balance. -/
theorem Keeping.goTo {branch : FlushBranch} (h : Keeping c branch) (pc : FlusherPc) :
    Keeping { c with pc := pc } branch := ⟨h.kept, h.clean, h.phase, h.handles⟩

/-- Going on after a flush that left nothing behind. -/
theorem Keeping.resume {branch : FlushBranch} (h : Keeping c branch) (hbuf : c.buf = [])
    (hinsert : c.insert = []) : (c.resume branch).Inv := by
  cases branch with
  | tick => exact ⟨h.goTo .selecting, hinsert⟩
  | shutdown =>
      obtain ⟨hcancelled, hqueue⟩ := h.phase
      refine ⟨⟨rfl, rfl, rfl⟩, hcancelled, h.clean, ?_⟩
      have hkept : acceptedRows c.events = _ := h.kept
      show acceptedRows c.events = _
      simp [hkept, hbuf, hinsert, hqueue, Flusher.resume, Flusher.exit]

/-- Starting a flush. -/
theorem Keeping.flush {branch : FlushBranch} (h : Keeping c branch) (hinsert : c.insert = []) :
    (c.flush branch).Inv := by
  unfold Flusher.flush
  by_cases hbuf : c.buf = []
  · simpa [hbuf] using h.resume hbuf hinsert
  · simp only [List.isEmpty_iff, hbuf, if_false]
    exact ⟨h.goTo _, hinsert, hbuf⟩

/-- The end of a drain. -/
theorem Keeping.drained (h : Keeping c .tick) (hqueue : c.queue = []) (hinsert : c.insert = [])
    {branch : FlushBranch} (hcancelled : branch = .shutdown → c.cancelled = true) :
    (c.drained branch).Inv := by
  cases branch with
  | tick => exact ⟨h.goTo _, hinsert⟩
  | shutdown =>
      have hnote : Keeping (c.note .lastDrain) .shutdown := by
        refine ⟨h.kept, by simpa [Flusher.note] using h.clean, ?_, h.handles⟩
        exact ⟨hcancelled rfl, by simp [Flusher.note, lateRows, hqueue]⟩
      exact ⟨hnote.goTo _, hinsert⟩

/-- **A failed call loses the rows at hand.** -/
theorem Keeping.fail {branch : FlushBranch} (h : Keeping c branch)
    (hrows : c.insert ++ c.buf ≠ []) : c.fail.Inv := by
  refine ⟨⟨rfl, rfl, rfl⟩, by simp [Flusher.fail, Flusher.note], ?_⟩
  have hkept : acceptedRows c.events = _ := h.kept
  show (deliveredRows c.events).length < (acceptedRows c.events).length
  have hpos : 0 < (c.insert ++ c.buf).length := List.length_pos_of_ne_nil hrows
  simp only [List.length_append] at hpos
  simp only [hkept, List.length_append]
  omega

/-! The steps of the other tasks can come anywhere. -/

theorem Flusher.InvAt.push {pc : FlusherPc} (h : c.InvAt pc) (row : RawTxRow)
    (hopen : ∀ ok, pc ≠ .returned ok) :
    ({ c with queue := c.queue ++ [row] }.note (.pushed row)).InvAt pc := by
  cases pc with
  | selecting => exact ⟨h.1.push row, h.2⟩
  | draining branch => exact ⟨h.1.push row, h.2⟩
  | flushing branch => exact ⟨h.1.push row, h.2⟩
  | creating branch => exact ⟨h.1.push row, h.2⟩
  | writing branch => exact ⟨h.1.push row, h.2⟩
  | returned ok => exact absurd rfl (hopen ok)

theorem Flusher.InvAt.cancel {pc : FlusherPc} (h : c.InvAt pc) :
    { c with cancelled := true }.InvAt pc := by
  cases pc with
  | selecting => exact ⟨h.1.cancel, h.2⟩
  | draining branch => exact ⟨h.1.cancel, h.2.1, fun _ => rfl⟩
  | flushing branch => exact ⟨h.1.cancel, h.2⟩
  | creating branch => exact ⟨h.1.cancel, h.2⟩
  | writing branch => exact ⟨h.1.cancel, h.2⟩
  | returned ok =>
      cases ok with
      | true => exact ⟨⟨h.1.queue, h.1.buf, h.1.insert⟩, rfl, h.2.2⟩
      | false => exact ⟨⟨h.1.queue, h.1.buf, h.1.insert⟩, h.2⟩

theorem Flusher.InvAt.drop {pc : FlusherPc} (h : c.InvAt pc) (hcancelled : c.cancelled = true) :
    { c with handles := false }.InvAt pc := by
  cases pc with
  | selecting => exact ⟨h.1.drop hcancelled, h.2⟩
  | draining branch => exact ⟨h.1.drop hcancelled, h.2⟩
  | flushing branch => exact ⟨h.1.drop hcancelled, h.2⟩
  | creating branch => exact ⟨h.1.drop hcancelled, h.2⟩
  | writing branch => exact ⟨h.1.drop hcancelled, h.2⟩
  | returned ok =>
      cases ok with
      | true => exact ⟨⟨h.1.queue, h.1.buf, h.1.insert⟩, h.2⟩
      | false => exact ⟨⟨h.1.queue, h.1.buf, h.1.insert⟩, h.2⟩

/-- What the invariant says at the place where the task stands. -/
theorem Flusher.Inv.at {pc : FlusherPc} (h : c.Inv) (hpc : c.pc = pc) : c.InvAt pc := hpc ▸ h

/-- A state at a place where the invariant holds. -/
theorem Flusher.InvAt.inv {pc : FlusherPc} (h : c.InvAt pc) (hpc : c.pc = pc) : c.Inv := by
  subst hpc
  exact h

/-- **Every step keeps the invariant.** -/
theorem FlusherStep.inv (hs : FlusherStep c c') (h : c.Inv) : c'.Inv := by
  cases hs with
  | push row hhandle hopen => exact h.push row hopen
  | cancel => exact h.cancel
  | drop hcancelled => exact h.drop hcancelled
  | onCancelled hpc hcancelled =>
      obtain ⟨hkeep, hinsert⟩ := h.at hpc
      exact ⟨hkeep.goTo _, hinsert, fun _ => hcancelled⟩
  | onTick hpc =>
      obtain ⟨hkeep, hinsert⟩ := h.at hpc
      exact ⟨hkeep.goTo _, hinsert, by simp⟩
  | onRow hpc hqueue =>
      obtain ⟨hkeep, hinsert⟩ := h.at hpc
      have hat : Flusher.InvAt _ .selecting := ⟨hkeep.receive hqueue, hinsert⟩
      exact hat.inv hpc
  | onClosed hpc hqueue hhandle =>
      obtain ⟨hkeep, hinsert⟩ := h.at hpc
      exact hkeep.drained hqueue hinsert fun _ => hkeep.handles hhandle
  | @drainRow branch hpc row rest hqueue =>
      obtain ⟨hkeep, hinsert, hbranch⟩ := h.at hpc
      have hat : Flusher.InvAt { c with queue := rest, buf := c.buf ++ [row] } (.draining branch) :=
        ⟨hkeep.receive hqueue, hinsert, hbranch⟩
      exact hat.inv hpc
  | drainEnd hpc hqueue =>
      obtain ⟨hkeep, hinsert, hbranch⟩ := h.at hpc
      exact hkeep.drained hqueue hinsert hbranch
  | flush hpc =>
      obtain ⟨hkeep, hinsert⟩ := h.at hpc
      exact hkeep.flush hinsert
  | insertOk hpc =>
      obtain ⟨hkeep, hinsert, hbuf⟩ := h.at hpc
      exact ⟨hkeep.goTo _, by simp [hbuf]⟩
  | insertErr hpc =>
      obtain ⟨hkeep, hinsert, hbuf⟩ := h.at hpc
      exact hkeep.fail (by simp [hbuf])
  | @writeOk branch hpc row rest hbuf =>
      obtain ⟨hkeep, hrows⟩ := h.at hpc
      have hat : Flusher.InvAt { c with buf := rest, insert := c.insert ++ [row] }
          (.writing branch) := by
        refine ⟨⟨?_, hkeep.clean, hkeep.phase, hkeep.handles⟩, by simp⟩
        have hkept : acceptedRows c.events = _ := hkeep.kept
        show acceptedRows c.events = _
        simp [hkept, hbuf]
      exact hat.inv hpc
  | writeErr hpc hbuf =>
      obtain ⟨hkeep, hrows⟩ := h.at hpc
      exact hkeep.fail hrows
  | @endOk branch hpc hbuf =>
      obtain ⟨hkeep, -⟩ := h.at hpc
      refine Keeping.resume ⟨?_, ?_, ?_, hkeep.handles⟩ hbuf rfl
      · have hkept : acceptedRows c.events = _ := hkeep.kept
        show acceptedRows c.events = _
        simp [hkept, hbuf, Flusher.note, deliveredRows]
      · simpa [Flusher.note] using hkeep.clean
      · cases branch with
        | tick => trivial
        | shutdown => exact hkeep.phase
  | endErr hpc hbuf =>
      obtain ⟨hkeep, hrows⟩ := h.at hpc
      exact hkeep.fail hrows

theorem FlusherReachable.inv (h : FlusherReachable c) : c.Inv := by
  induction h with
  | init =>
      refine ⟨⟨?_, ?_, trivial, ?_⟩, rfl⟩
      · simp [Flusher.Kept, Flusher.init, acceptedRows, deliveredRows]
      · simp [Flusher.init]
      · simp [Flusher.init]
  | step _ hs ih => exact hs.inv ih

/-! ### When nothing is lost -/

/-- The task has returned. -/
def Flusher.Over (c : Flusher) : Prop := ∃ ok, c.pc = .returned ok

/--
**A flush loses nothing** exactly when no client call has failed and no row came too
late.  In every reachable state the task runs unless it was cancelled, and every
accepted row is delivered or still waits (so that a later flush writes it), if and only
if no client call has failed and, once the task has returned, no row had been pushed
after its last look into the channel.
-/
theorem flush_loses_nothing_iff (h : FlusherReachable c) :
    ((c.Over → c.cancelled = true) ∧ c.Kept) ↔
    (.failed ∉ c.events ∧ (c.Over → lateRows c.events = [])) := by
  have hinv := h.inv
  have hrunning : ∀ branch, Keeping c branch → ¬ c.Over →
      (((c.Over → c.cancelled = true) ∧ c.Kept) ↔
        (.failed ∉ c.events ∧ (c.Over → lateRows c.events = []))) := by
    intro branch hkeep hover
    simp [hover, hkeep.kept, hkeep.clean]
  rcases hpc : c.pc with _ | branch | branch | branch | branch | ok
  · exact hrunning _ (hinv.at hpc).1 (by simp [Flusher.Over, hpc])
  · exact hrunning _ (hinv.at hpc).1 (by simp [Flusher.Over, hpc])
  · exact hrunning _ (hinv.at hpc).1 (by simp [Flusher.Over, hpc])
  · exact hrunning _ (hinv.at hpc).1 (by simp [Flusher.Over, hpc])
  · exact hrunning _ (hinv.at hpc).1 (by simp [Flusher.Over, hpc])
  · have hover : c.Over := ⟨ok, hpc⟩
    have hat := hinv.at hpc
    cases ok with
    | true =>
        obtain ⟨hdropped, hcancelled, hclean, hrows⟩ := hat
        simp [hover, hcancelled, hclean, Flusher.Kept, hrows, hdropped.queue, hdropped.buf,
          hdropped.insert]
    | false =>
        obtain ⟨hdropped, hfailed, hlost⟩ := hat
        have hnot : ¬ c.Kept := by
          intro hkept
          unfold Flusher.Kept at hkept
          simp [hkept, hdropped.queue, hdropped.buf, hdropped.insert] at hlost
        simp [hnot, hfailed]

/-- The row the flusher's own test pushes. -/
def sampleRow : RawTxRow where
  blockHeight := 1
  timestamp := 0
  txHash := "0x"
  fromAddr := "0x"
  toAddr := none
  valueStr := "0"
  feeStr := "0"
  gasUsed := 0
  status := 1
  txType := "evm"

/-- One row is pushed and the tick drains it into the buffer. -/
theorem sampleRow_buffered :
    FlusherReachable ⟨[], true, false, .creating .tick, [sampleRow], [], [.pushed sampleRow]⟩ := by
  have hpushed : FlusherReachable
      ⟨[sampleRow], true, false, .selecting, [], [], [.pushed sampleRow]⟩ :=
    .step .init (.push sampleRow rfl (by simp [Flusher.init]))
  have hticked : FlusherReachable
      ⟨[sampleRow], true, false, .draining .tick, [], [], [.pushed sampleRow]⟩ :=
    .step hpushed (.onTick rfl)
  have hdrained : FlusherReachable
      ⟨[], true, false, .draining .tick, [sampleRow], [], [.pushed sampleRow]⟩ :=
    .step hticked (.drainRow rfl rfl)
  have hstep : FlusherStep ⟨[], true, false, .draining .tick, [sampleRow], [], [.pushed sampleRow]⟩
      (Flusher.drained ⟨[], true, false, .draining .tick, [sampleRow], [], [.pushed sampleRow]⟩
        .tick) := .drainEnd rfl rfl
  exact (hdrained.step hstep).step (.flush rfl)

/-- The insert cannot be created: the task returns, nobody has cancelled it, and the row is
gone. -/
theorem failed_insert_loses_row :
    ∃ c, FlusherReachable c ∧ c.cancelled = false ∧ c.Over ∧ ¬ c.Kept := by
  have hfailed := sampleRow_buffered.step (.insertErr rfl)
  refine ⟨_, hfailed, rfl, ⟨false, rfl⟩, ?_⟩
  unfold Flusher.Kept
  decide

/-- With every call answered the row is delivered and the task goes on. -/
theorem flush_loses_nothing_delivered :
    ∃ c, FlusherReachable c ∧ deliveredRows c.events = [sampleRow] ∧
      ((c.Over → c.cancelled = true) ∧ c.Kept) := by
  have hwritten : FlusherReachable
      ⟨[], true, false, .writing .tick, [], [sampleRow], [.pushed sampleRow]⟩ :=
    .step (.step sampleRow_buffered (.insertOk rfl)) (.writeOk rfl rfl)
  have hended := hwritten.step (.endOk rfl rfl)
  have hrunning : ∀ ok, FlusherPc.selecting ≠ .returned ok := by simp
  refine ⟨_, hended, by decide, (flush_loses_nothing_iff hended).mpr ⟨by decide, ?_⟩⟩
  rintro ⟨ok, hok⟩
  exact absurd hok (hrunning ok)

end SentrixIndexer
