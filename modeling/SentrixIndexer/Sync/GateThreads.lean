/-
The single-flight gate, one atomic step at a time.

`offer` is a compare-and-exchange of `inflight` followed by a section under the mutex
of `pending`; `take_pending_and_release` is one section under that mutex, at the end of
which it clears `inflight` with the mutex still taken.  Threads interleave between
these steps.  A thread that holds the gate calls `take_pending_and_release` until it
returns `None`; the others call `offer`.

The state keeps a record of what happened, newest first, which no step reads.
-/
import Mathlib.Logic.Function.Basic
import SentrixIndexer.Sync.SingleFlight

namespace SentrixIndexer

/-- Where a thread stands. -/
inductive GatePc
  | idle
  /-- In `offer`, before the compare-and-exchange. -/
  | offering (tip : Int)
  /-- In `offer`, the exchange has succeeded. -/
  | draining (tip : Int)
  /-- In `offer`, the exchange has failed. -/
  | stashing (tip : Int)
  /-- Outside any call, with the gate. -/
  | holding
  /-- In `take_pending_and_release`, before the mutex. -/
  | taking
  /-- In `take_pending_and_release`, with the mutex; nothing was pending. -/
  | releasing
  deriving DecidableEq, Repr

/-- The thread holds the gate: from its successful exchange to its releasing store. -/
def GatePc.Holds : GatePc → Prop
  | .draining _ => True
  | .holding => True
  | .taking => True
  | .releasing => True
  | _ => False

inductive GateEvent (τ : Type)
  | offered (i : τ) (tip : Int)
  /-- The exchange succeeded. -/
  | took (i : τ)
  | stashed (i : τ) (tip : Int)
  /-- `Acquired(target)` for the offer of `tip`. -/
  | acquired (i : τ) (tip target : Int)
  /-- `take_pending_and_release` returned `Some(next)`. -/
  | continued (i : τ) (next : Int)
  | released (i : τ)
  deriving DecidableEq

/-- The gate, its mutex, and the threads `τ` around it. -/
structure GateThreads (τ : Type) where
  gate : SingleFlight
  locked : Bool
  pc : τ → GatePc
  events : List (GateEvent τ)

variable {τ : Type}

/-- A new gate, and no call yet. -/
def GateThreads.init : GateThreads τ := ⟨.new, false, fun _ => .idle, []⟩

variable [DecidableEq τ]

/-- Thread `i` goes on at `pc`. -/
def GateThreads.goTo (c : GateThreads τ) (i : τ) (pc : GatePc) : GateThreads τ :=
  { c with pc := Function.update c.pc i pc }

/-- The event is recorded. -/
def GateThreads.note (c : GateThreads τ) (e : GateEvent τ) : GateThreads τ :=
  { c with events := e :: c.events }

section Fields

variable (c : GateThreads τ) (i : τ) (pc : GatePc) (e : GateEvent τ)

@[simp] theorem GateThreads.goTo_gate : (c.goTo i pc).gate = c.gate := rfl
@[simp] theorem GateThreads.goTo_locked : (c.goTo i pc).locked = c.locked := rfl
@[simp] theorem GateThreads.goTo_events : (c.goTo i pc).events = c.events := rfl
@[simp] theorem GateThreads.goTo_pc : (c.goTo i pc).pc = Function.update c.pc i pc := rfl
omit [DecidableEq τ] in
@[simp] theorem GateThreads.note_gate : (c.note e).gate = c.gate := rfl
omit [DecidableEq τ] in
@[simp] theorem GateThreads.note_locked : (c.note e).locked = c.locked := rfl
omit [DecidableEq τ] in
@[simp] theorem GateThreads.note_events : (c.note e).events = e :: c.events := rfl
omit [DecidableEq τ] in
@[simp] theorem GateThreads.note_pc : (c.note e).pc = c.pc := rfl

end Fields

/-- One atomic step of a thread. -/
inductive GateStep : GateThreads τ → GateThreads τ → Prop
  /-- `offer(tip)` is called. -/
  | call {c : GateThreads τ} (i : τ) (tip : Int) (hpc : c.pc i = .idle) :
      GateStep c ((c.goTo i (.offering tip)).note (.offered i tip))
  /-- `compare_exchange(false, true)` succeeds. -/
  | exchange {c : GateThreads τ} (i : τ) {tip : Int} (hpc : c.pc i = .offering tip)
      (hfree : c.gate.inflight = false) :
      GateStep c (({ c with gate.inflight := true }.goTo i (.draining tip)).note (.took i))
  /-- `compare_exchange(false, true)` fails. -/
  | busy {c : GateThreads τ} (i : τ) {tip : Int} (hpc : c.pc i = .offering tip)
      (hbusy : c.gate.inflight = true) : GateStep c (c.goTo i (.stashing tip))
  /-- `pending.take().map_or(tip, |stashed| stashed.max(tip))`. -/
  | drain {c : GateThreads τ} (i : τ) {tip : Int} (hpc : c.pc i = .draining tip)
      (hmutex : c.locked = false) :
      GateStep c (({ c with gate.pending := none }.goTo i .holding).note
        (.acquired i tip (c.gate.freshest tip)))
  /-- `*pending = Some(pending.map_or(tip, |existing| existing.max(tip)))`. -/
  | stash {c : GateThreads τ} (i : τ) {tip : Int} (hpc : c.pc i = .stashing tip)
      (hmutex : c.locked = false) :
      GateStep c (({ c with gate.pending := some (c.gate.freshest tip) }.goTo i .idle).note
        (.stashed i tip))
  /-- `take_pending_and_release` is called by the thread that holds the gate. -/
  | take {c : GateThreads τ} (i : τ) (hpc : c.pc i = .holding) : GateStep c (c.goTo i .taking)
  /-- `pending.take()` is `Some(next)`. -/
  | continue {c : GateThreads τ} (i : τ) {next : Int} (hpc : c.pc i = .taking)
      (hmutex : c.locked = false) (hpending : c.gate.pending = some next) :
      GateStep c (({ c with gate.pending := none }.goTo i .holding).note (.continued i next))
  /-- `pending.take()` is `None`; the mutex stays taken. -/
  | empty {c : GateThreads τ} (i : τ) (hpc : c.pc i = .taking) (hmutex : c.locked = false)
      (hpending : c.gate.pending = none) :
      GateStep c ({ c with locked := true }.goTo i .releasing)
  /-- `inflight.store(false)`, and the mutex is given back. -/
  | release {c : GateThreads τ} (i : τ) (hpc : c.pc i = .releasing) :
      GateStep c (({ c with gate.inflight := false, locked := false }.goTo i .idle).note
        (.released i))

/-- The states some interleaving reaches. -/
inductive GateReachable : GateThreads τ → Prop
  | init : GateReachable .init
  | step {c c' : GateThreads τ} (h : GateReachable c) (hs : GateStep c c') : GateReachable c'

/-- Several steps in a row. -/
abbrev GateSteps (c c' : GateThreads τ) : Prop := Relation.ReflTransGen GateStep c c'

/-- The next step of a thread; an idle one offers `tip`. -/
def GateThreads.advance (c : GateThreads τ) (i : τ) (tip : Int) : Option (GateThreads τ) :=
  match c.pc i with
  | .idle => some ((c.goTo i (.offering tip)).note (.offered i tip))
  | .offering t =>
      if c.gate.inflight then some (c.goTo i (.stashing t))
      else some (({ c with gate.inflight := true }.goTo i (.draining t)).note (.took i))
  | .draining t =>
      if c.locked then none
      else some (({ c with gate.pending := none }.goTo i .holding).note
        (.acquired i t (c.gate.freshest t)))
  | .stashing t =>
      if c.locked then none
      else some (({ c with gate.pending := some (c.gate.freshest t) }.goTo i .idle).note
        (.stashed i t))
  | .holding => some (c.goTo i .taking)
  | .taking =>
      if c.locked then none
      else match c.gate.pending with
        | some next =>
            some (({ c with gate.pending := none }.goTo i .holding).note (.continued i next))
        | none => some ({ c with locked := true }.goTo i .releasing)
  | .releasing =>
      some (({ c with gate.inflight := false, locked := false }.goTo i .idle).note (.released i))

theorem GateThreads.advance_step {c c' : GateThreads τ} {i : τ} {tip : Int}
    (h : c.advance i tip = some c') : GateStep c c' := by
  unfold GateThreads.advance at h
  rcases hpc : c.pc i with _ | t | t | t | _ | _ | _
  · simp only [hpc, Option.some.injEq] at h
    exact h ▸ GateStep.call i tip hpc
  · by_cases hbusy : c.gate.inflight = true
    · simp only [hpc, hbusy, if_true, Option.some.injEq] at h
      exact h ▸ GateStep.busy i hpc hbusy
    · simp only [hpc, hbusy, Bool.false_eq_true, if_false, Option.some.injEq] at h
      exact h ▸ GateStep.exchange i hpc (by simpa using hbusy)
  · by_cases hmutex : c.locked = true
    · simp [hpc, hmutex] at h
    · simp only [hpc] at h
      rw [if_neg hmutex] at h
      exact Option.some.inj h ▸ GateStep.drain i hpc (by simpa using hmutex)
  · by_cases hmutex : c.locked = true
    · simp [hpc, hmutex] at h
    · simp only [hpc] at h
      rw [if_neg hmutex] at h
      exact Option.some.inj h ▸ GateStep.stash i hpc (by simpa using hmutex)
  · simp only [hpc, Option.some.injEq] at h
    exact h ▸ GateStep.take i hpc
  · by_cases hmutex : c.locked = true
    · simp [hpc, hmutex] at h
    · simp only [hpc] at h
      rw [if_neg hmutex] at h
      rcases hpending : c.gate.pending with _ | next
      · rw [hpending] at h
        exact Option.some.inj h ▸ GateStep.empty i hpc (by simpa using hmutex) hpending
      · rw [hpending] at h
        exact Option.some.inj h ▸ GateStep.continue i hpc (by simpa using hmutex) hpending
  · simp only [hpc, Option.some.injEq] at h
    exact h ▸ GateStep.release i hpc

/-- The threads of a schedule step one after another. -/
def GateThreads.follow (c : GateThreads τ) (schedule : List (τ × Int)) : Option (GateThreads τ) :=
  schedule.foldlM (fun c step => c.advance step.1 step.2) c

theorem GateReachable.follow {schedule : List (τ × Int)} :
    ∀ {c c' : GateThreads τ}, GateReachable c → c.follow schedule = some c' →
      GateReachable c' := by
  induction schedule with
  | nil =>
      intro c c' h hc
      obtain rfl : c = c' := by simpa [GateThreads.follow] using hc
      exact h
  | cons step rest ih =>
      intro c c' h hc
      obtain ⟨c₁, hstep, hrest⟩ := Option.bind_eq_some_iff.mp hc
      exact ih (h.step (GateThreads.advance_step hstep)) hrest

/-! ### Calls that nothing interrupts -/

theorem GateStep.steps {c c' : GateThreads τ} (h : GateStep c c') : GateSteps c c' :=
  Relation.ReflTransGen.single h

/-- **An offer in one piece** does to the gate what `SingleFlight.offer` says. -/
theorem steps_offer {c : GateThreads τ} (i : τ) (tip : Int) (hpc : c.pc i = .idle)
    (hmutex : c.locked = false) :
    ∃ c', GateSteps c c' ∧ c'.gate = (c.gate.offer tip).2 ∧ c'.locked = false ∧
      c'.events.head? = some (match (c.gate.offer tip).1 with
        | .acquired h => .acquired i tip h
        | .stashed => .stashed i tip) := by
  have hcall := (GateStep.call i tip hpc).steps
  generalize hc₁ : (c.goTo i (.offering tip)).note (.offered i tip) = c₁ at hcall
  have hpc₁ : c₁.pc i = .offering tip := by simp [← hc₁]
  have hmutex₁ : c₁.locked = false := by simp [← hc₁, hmutex]
  have hgate₁ : c₁.gate = c.gate := by simp [← hc₁]
  by_cases hbusy : c.gate.inflight = true
  · have hexchange := GateStep.busy i hpc₁ (by simp [hgate₁, hbusy])
    have hpc₂ : (c₁.goTo i (.stashing tip)).pc i = .stashing tip := by simp
    have hstash := GateStep.stash i hpc₂ (by simp [hmutex₁])
    refine ⟨_, hcall.trans (hexchange.steps.trans hstash.steps), ?_, by simp [hmutex₁], ?_⟩
    · simp [SingleFlight.offer, hbusy, hgate₁]
    · simp [SingleFlight.offer, hbusy]
  · have hfree : c₁.gate.inflight = false := by simp [hgate₁, hbusy]
    have hexchange := GateStep.exchange i hpc₁ hfree
    have hpc₂ : (({ c₁ with gate.inflight := true }.goTo i (.draining tip)).note
      (.took i)).pc i = .draining tip := by simp
    have hdrain := GateStep.drain i hpc₂ (by simp [hmutex₁])
    refine ⟨_, hcall.trans (hexchange.steps.trans hdrain.steps), ?_, by simp [hmutex₁], ?_⟩
    · simp [SingleFlight.offer, hbusy]
    · simp [SingleFlight.offer, SingleFlight.freshest, hbusy, hgate₁]

/-- **`take_pending_and_release` in one piece** does what the one-step model says. -/
theorem steps_takePendingAndRelease {c : GateThreads τ} (i : τ) (hpc : c.pc i = .holding)
    (hmutex : c.locked = false) :
    ∃ c', GateSteps c c' ∧ c'.gate = c.gate.takePendingAndRelease.2 ∧ c'.locked = false ∧
      c'.events.head? = some (match c.gate.takePendingAndRelease.1 with
        | some next => .continued i next
        | none => .released i) := by
  have htake := (GateStep.take i hpc).steps
  have hpc₁ : (c.goTo i .taking).pc i = .taking := by simp
  rcases hpending : c.gate.pending with _ | next
  · have hempty := GateStep.empty i hpc₁ (by simp [hmutex]) (by simp [hpending])
    have hrelease := GateStep.release i
      (c := { c.goTo i .taking with locked := true }.goTo i .releasing) (by simp)
    refine ⟨_, htake.trans (hempty.steps.trans hrelease.steps), ?_, by simp, ?_⟩
    · simp [SingleFlight.takePendingAndRelease, hpending]
    · simp [SingleFlight.takePendingAndRelease, hpending]
  · have hpending₁ : (c.goTo i .taking).gate.pending = some next := by simp [hpending]
    have hnext := GateStep.continue i hpc₁ (by simp [hmutex]) hpending₁
    refine ⟨_, htake.trans hnext.steps, ?_, by simp [hmutex], ?_⟩
    · simp [SingleFlight.takePendingAndRelease, hpending]
    · simp [SingleFlight.takePendingAndRelease, hpending]

end SentrixIndexer
