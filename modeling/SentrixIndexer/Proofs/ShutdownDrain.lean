/-
What the flusher's shutdown delivers.

The token that stops the flusher stops the producers too, and they finish what they have
in hand: a row can be pushed at any point of the flusher's way out.  A row that arrives
before the last `try_recv` is drained and written.  From there to the return of the task
nothing reads the channel any more, but the receiver is still there, so a push is still
accepted and its row goes with the channel.

The invariant follows a whole run: the rows that came too late are the pushes the run
made during the final flush.
-/
import SentrixIndexer.Proofs.FlushLoss

namespace SentrixIndexer

variable {c c' : Flusher} {steps : List (Flusher × Flusher)}

/-- The interleavings: the steps taken, newest first, and the state they lead to. -/
inductive FlusherRun : List (Flusher × Flusher) → Flusher → Prop
  | init : FlusherRun [] .init
  | step {steps : List (Flusher × Flusher)} {c c' : Flusher} (h : FlusherRun steps c)
      (hs : FlusherStep c c') : FlusherRun ((c, c') :: steps) c'

theorem FlusherRun.reachable (h : FlusherRun steps c) : FlusherReachable c := by
  induction h with
  | init => exact .init
  | step _ hs ih => exact ih.step hs

/-- The flusher has looked into the channel for the last time and has not returned yet. -/
def Flusher.FinalFlush (c : Flusher) : Prop :=
  c.pc = .flushing .shutdown ∨ c.pc = .creating .shutdown ∨ c.pc = .writing .shutdown

/-- A push returns `Ok` during the final flush. -/
def PushesLate (s : Flusher × Flusher) : Prop :=
  s.1.FinalFlush ∧ ∃ row, s.2.events = .pushed row :: s.1.events

/-! ### The steps of a run -/

theorem not_pushesLate (h : ∀ row, c'.events ≠ .pushed row :: c.events) :
    ¬ PushesLate (c, c') := fun hlate => hlate.2.elim h

/-- What the run has pushed too late, by how far the task is. -/
structure LateCount (steps : List (Flusher × Flusher)) (c : Flusher) : Prop where
  early : ¬ c.FinalFlush → ¬ c.Over → ∀ s ∈ steps, ¬ PushesLate s
  late : c.FinalFlush ∨ c.pc = .returned true →
    (lateRows c.events = [] ↔ ∀ s ∈ steps, ¬ PushesLate s)

/-- A step that starts before the final flush and does not enter it. -/
theorem LateCount.before (h : LateCount steps c) (hfinal : ¬ c.FinalFlush) (hover : ¬ c.Over)
    (hfinal' : ¬ c'.FinalFlush) (hover' : ¬ c'.Over) : LateCount ((c, c') :: steps) c' where
  early _ _ := by
    have hstep : ¬ PushesLate (c, c') := fun hlate => hfinal hlate.1
    simpa [hstep] using h.early hfinal hover
  late hlate := by
    have hnot : c'.pc ≠ .returned true := fun hpc => hover' ⟨true, hpc⟩
    simp [hfinal', hnot] at hlate

/-- The step that enters the final flush. -/
theorem LateCount.enter (h : LateCount steps c) (hfinal : ¬ c.FinalFlush) (hover : ¬ c.Over)
    (hpc : c'.pc = .flushing .shutdown) (hdrain : lateRows c'.events = []) :
    LateCount ((c, c') :: steps) c' where
  early hnot _ := absurd (Or.inl hpc) hnot
  late _ := by
    have hstep : ¬ PushesLate (c, c') := fun hlate => hfinal hlate.1
    simpa [hstep, hdrain] using h.early hfinal hover

/-- A step within the final flush, or out of it, that pushes nothing. -/
theorem LateCount.within (h : LateCount steps c) (hfinal : c.FinalFlush)
    (hpc : c'.FinalFlush ∨ c'.pc = .returned true) (hrows : lateRows c'.events = lateRows c.events)
    (hpush : ∀ row, c'.events ≠ .pushed row :: c.events) : LateCount ((c, c') :: steps) c' where
  early hnot hover := by
    rcases hpc with hpc | hpc
    · exact absurd hpc hnot
    · exact absurd ⟨true, hpc⟩ hover
  late _ := by
    have hcount := h.late (Or.inl hfinal)
    simpa [not_pushesLate hpush, hrows] using hcount

/-- A step that leaves the task where it is and pushes nothing. -/
theorem LateCount.aside (h : LateCount steps c) (hpc : c'.pc = c.pc)
    (hevents : c'.events = c.events) : LateCount ((c, c') :: steps) c' := by
  have hstep : ¬ PushesLate (c, c') := not_pushesLate (by simp [hevents])
  refine ⟨?_, ?_⟩
  · simpa [hstep, Flusher.FinalFlush, Flusher.Over, hpc] using h.early
  · simpa [hstep, Flusher.FinalFlush, hpc, hevents] using h.late

/-- A push counts as late exactly during the final flush. -/
theorem LateCount.push (h : LateCount steps c) (row : RawTxRow) (hopen : ∀ ok, c.pc ≠ .returned ok)
    (hpc : c'.pc = c.pc) (hevents : c'.events = .pushed row :: c.events) :
    LateCount ((c, c') :: steps) c' := by
  have hover : ¬ c.Over := fun ⟨ok, hok⟩ => hopen ok hok
  have hover' : ¬ c'.Over := by simpa [Flusher.Over, hpc] using hover
  by_cases hfinal : c.FinalFlush
  · have hfinal' : c'.FinalFlush := by simpa [Flusher.FinalFlush, hpc] using hfinal
    have hstep : PushesLate (c, c') := ⟨hfinal, row, hevents⟩
    refine ⟨fun hnot => absurd hfinal' hnot, fun _ => ?_⟩
    simp [hstep, hevents, lateRows]
  · have hfinal' : ¬ c'.FinalFlush := by simpa [Flusher.FinalFlush, hpc] using hfinal
    exact h.before hfinal hover hfinal' hover'

/-- A client call fails, and the count is over. -/
theorem LateCount.fail (c₀ : Flusher) : LateCount steps c₀.fail where
  early _ hover := absurd ⟨false, rfl⟩ hover
  late h := by simp [Flusher.FinalFlush, Flusher.fail, Flusher.exit, Flusher.note] at h

/-- What comes after a flush that went well. -/
theorem LateCount.resume (h : LateCount steps c) {branch : FlushBranch}
    (hfinal : c.FinalFlush ↔ branch = .shutdown) (hover : ¬ c.Over) {c₁ : Flusher}
    (hrows : lateRows c₁.events = lateRows c.events)
    (hpush : ∀ row, c₁.events ≠ .pushed row :: c.events) :
    LateCount ((c, c₁.resume branch) :: steps) (c₁.resume branch) := by
  cases branch with
  | tick =>
      refine h.before (by simp [hfinal]) hover ?_ ?_
      · simp [Flusher.FinalFlush, Flusher.resume]
      · simp [Flusher.Over, Flusher.resume]
  | shutdown => exact h.within (hfinal.mpr rfl) (Or.inr rfl) hrows hpush

/-- **Every step keeps the count.** -/
theorem FlusherStep.lateCount (hs : FlusherStep c c') (h : LateCount steps c) :
    LateCount ((c, c') :: steps) c' := by
  cases hs with
  | push row hhandle hopen => exact h.push row hopen rfl rfl
  | cancel => exact h.aside rfl rfl
  | drop hcancelled => exact h.aside rfl rfl
  | onCancelled hpc hcancelled =>
      refine h.before ?_ ?_ ?_ ?_ <;> simp [Flusher.FinalFlush, Flusher.Over, hpc]
  | onTick hpc =>
      refine h.before ?_ ?_ ?_ ?_ <;> simp [Flusher.FinalFlush, Flusher.Over, hpc]
  | onRow hpc hqueue =>
      refine h.before ?_ ?_ ?_ ?_ <;> simp [Flusher.FinalFlush, Flusher.Over, hpc]
  | onClosed hpc hqueue hhandle =>
      refine h.enter ?_ ?_ rfl rfl <;> simp [Flusher.FinalFlush, Flusher.Over, hpc]
  | drainRow hpc hqueue =>
      refine h.before ?_ ?_ ?_ ?_ <;> simp [Flusher.FinalFlush, Flusher.Over, hpc]
  | @drainEnd branch hpc hqueue =>
      cases branch with
      | tick =>
          refine h.before ?_ ?_ ?_ ?_ <;>
            simp [Flusher.FinalFlush, Flusher.Over, Flusher.drained, hpc]
      | shutdown => refine h.enter ?_ ?_ rfl rfl <;> simp [Flusher.FinalFlush, Flusher.Over, hpc]
  | @flush branch hpc =>
      have hfinal : c.FinalFlush ↔ branch = .shutdown := by simp [Flusher.FinalFlush, hpc]
      have hover : ¬ c.Over := by simp [Flusher.Over, hpc]
      unfold Flusher.flush
      by_cases hbuf : c.buf.isEmpty
      · rw [if_pos hbuf]
        exact h.resume hfinal hover rfl (by simp)
      · rw [if_neg hbuf]
        cases branch with
        | tick => refine h.before ?_ ?_ ?_ ?_ <;> simp [Flusher.FinalFlush, Flusher.Over, hpc]
        | shutdown =>
            exact h.within (hfinal.mpr rfl) (Or.inl (Or.inr (Or.inl rfl))) rfl (by simp)
  | @insertOk branch hpc =>
      cases branch with
      | tick => refine h.before ?_ ?_ ?_ ?_ <;> simp [Flusher.FinalFlush, Flusher.Over, hpc]
      | shutdown =>
          exact h.within (Or.inr (Or.inl hpc)) (Or.inl (Or.inr (Or.inr rfl))) rfl (by simp)
  | insertErr hpc => exact .fail c
  | writeOk hpc hbuf => exact h.aside rfl rfl
  | writeErr hpc hbuf => exact .fail c
  | @endOk branch hpc hbuf =>
      refine h.resume ?_ ?_ rfl ?_
      · simp [Flusher.FinalFlush, hpc]
      · simp [Flusher.Over, hpc]
      · simp [Flusher.note]
  | endErr hpc hbuf => exact .fail c

theorem FlusherRun.lateCount (h : FlusherRun steps c) : LateCount steps c := by
  induction h with
  | init =>
      refine ⟨by simp, ?_⟩
      simp [Flusher.FinalFlush, Flusher.init]
  | step _ hs ih => exact hs.lateCount ih

/-! ### What the shutdown delivers -/

/--
**The shutdown delivers what was accepted** exactly when no push came during the final
flush.  Of every run in which no client call fails and after which the task has returned:
the rows of its inserts are the rows whose push returned `Ok`, each once and in push
order, if and only if none of these pushes returned between the last look into the
channel and the return of the task.
-/
theorem shutdown_drains_accepted_iff (h : FlusherRun steps c) (hover : c.Over)
    (hclean : .failed ∉ c.events) :
    deliveredRows c.events = acceptedRows c.events ↔ ∀ s ∈ steps, ¬ PushesLate s := by
  obtain ⟨ok, hpc⟩ := hover
  have hat := h.reachable.inv.at hpc
  cases ok with
  | false => exact absurd hat.2.1 hclean
  | true =>
      have hrows : acceptedRows c.events = _ := hat.2.2.2
      rw [← h.lateCount.late (Or.inr hpc), hrows]
      simp

/-- One row is pushed, and the cancelled flusher drains it and starts its insert. -/
theorem cancelled_writing : ∃ steps, FlusherRun steps
    ⟨[], true, true, .writing .shutdown, [sampleRow], [], [.lastDrain, .pushed sampleRow]⟩ := by
  have hpushed : FlusherRun _ ⟨[sampleRow], true, false, .selecting, [], [], [.pushed sampleRow]⟩ :=
    .step .init (.push sampleRow rfl (by simp [Flusher.init]))
  have hdrained : FlusherRun _
      ⟨[], true, true, .draining .shutdown, [sampleRow], [], [.pushed sampleRow]⟩ :=
    .step (.step (.step hpushed .cancel) (.onCancelled rfl rfl)) (.drainRow rfl rfl)
  have hlast : FlusherRun _
      ⟨[], true, true, .flushing .shutdown, [sampleRow], [], [.lastDrain, .pushed sampleRow]⟩ :=
    hdrained.step (@FlusherStep.drainEnd _ .shutdown rfl rfl)
  have hflush : FlusherRun _
      ⟨[], true, true, .creating .shutdown, [sampleRow], [], [.lastDrain, .pushed sampleRow]⟩ :=
    hlast.step (@FlusherStep.flush _ .shutdown rfl)
  exact ⟨_, hflush.step (.insertOk rfl)⟩

/-- A row that is pushed while the last insert is on its way is accepted and never written. -/
theorem late_push_is_lost :
    ∃ steps c, FlusherRun steps c ∧ c.Over ∧ .failed ∉ c.events ∧
      deliveredRows c.events ≠ acceptedRows c.events := by
  obtain ⟨steps, hrun⟩ := cancelled_writing
  have hlate : FlusherRun _ ⟨[sampleRow], true, true, .writing .shutdown, [sampleRow], [],
      [.pushed sampleRow, .lastDrain, .pushed sampleRow]⟩ :=
    hrun.step (.push sampleRow rfl (by simp))
  have hover := (hlate.step (.writeOk rfl rfl)).step (.endOk rfl rfl)
  exact ⟨_, _, hover, ⟨true, rfl⟩, by decide, by decide⟩

/-- With no push after the last drain, the row is delivered. -/
theorem shutdown_drains_accepted_delivered :
    ∃ steps c, FlusherRun steps c ∧ acceptedRows c.events = [sampleRow] ∧
      (deliveredRows c.events = acceptedRows c.events ↔ ∀ s ∈ steps, ¬ PushesLate s) ∧
      ∀ s ∈ steps, ¬ PushesLate s := by
  obtain ⟨steps, hrun⟩ := cancelled_writing
  have hover := (hrun.step (.writeOk rfl rfl)).step (.endOk rfl rfl)
  refine ⟨_, _, hover, by decide,
    shutdown_drains_accepted_iff hover ⟨true, rfl⟩ (by decide), ?_⟩
  exact (hover.lateCount.late (Or.inr rfl)).mp (by decide)

end SentrixIndexer
