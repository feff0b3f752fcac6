/-
What the gate guarantees when its atomic steps interleave.

At most one thread holds the gate, and what it is handed is the highest tip stashed
since the last hand-over: this survives every interleaving.  That no tip is stranded
does not.  An offer that finds the gate busy stashes its tip in a second step, and the
holder may look for a stashed tip and release the gate in between.
-/
import SentrixIndexer.Sync.GateThreads

namespace SentrixIndexer

variable {τ : Type}

/-! ### What the record says -/

/-- The tips stashed since the last hand-over, newest first. -/
def pendingTips : List (GateEvent τ) → List Int
  | [] => []
  | .stashed _ tip :: rest => tip :: pendingTips rest
  | .acquired _ _ _ :: _ => []
  | .continued _ _ :: _ => []
  | .offered _ _ :: rest => pendingTips rest
  | .took _ :: rest => pendingTips rest
  | .released _ :: rest => pendingTips rest

/-- Whether the gate is taken. -/
def heldGate : List (GateEvent τ) → Bool
  | [] => false
  | .took _ :: _ => true
  | .released _ :: _ => false
  | .offered _ _ :: rest => heldGate rest
  | .stashed _ _ :: rest => heldGate rest
  | .acquired _ _ _ :: rest => heldGate rest
  | .continued _ _ :: rest => heldGate rest

/-- A tip that is handed over is the highest of those it stands for. -/
def GateEvent.HandsMax (before : List (GateEvent τ)) : GateEvent τ → Prop
  | .acquired _ tip target => (tip :: pendingTips before).max? = some target
  | .continued _ next => (pendingTips before).max? = some next
  | _ => True

/-- Only a holder is handed a tip, and nothing is pending when it gives the gate back. -/
def GateEvent.InTurn (before : List (GateEvent τ)) : GateEvent τ → Prop
  | .acquired _ _ _ => heldGate before = true
  | .continued _ _ => heldGate before = true
  | .released _ => pendingTips before = []
  | _ => True

/-- Every event of the record came in its turn. -/
def GateSound : List (GateEvent τ) → Prop
  | [] => True
  | e :: before => (e.HandsMax before ∧ e.InTurn before) ∧ GateSound before

theorem GateSound.at {after before : List (GateEvent τ)} {e : GateEvent τ}
    (h : GateSound (after ++ e :: before)) : e.HandsMax before ∧ e.InTurn before := by
  induction after with
  | nil => exact h.1
  | cons e' rest ih => exact ih h.2

theorem GateSound.of_append {after before : List (GateEvent τ)}
    (h : GateSound (after ++ before)) : GateSound before := by
  induction after with
  | nil => exact h
  | cons e rest ih => exact ih h.2

/-! ### Who holds the gate -/

variable [DecidableEq τ]

theorem holds_update {c : GateThreads τ} {i : τ} {pc : GatePc}
    (hsame : pc.Holds ↔ (c.pc i).Holds) (j : τ) :
    (Function.update c.pc i pc j).Holds ↔ (c.pc j).Holds := by
  by_cases hj : j = i
  · subst hj
    simpa using hsame
  · simp [hj]

/-- **What a step does to the gate**: nothing, or its thread takes it, or gives it back. -/
theorem GateStep.holders {c c' : GateThreads τ} (h : GateStep c c') :
    (c'.gate.inflight = c.gate.inflight ∧ ∀ j, (c'.pc j).Holds ↔ (c.pc j).Holds) ∨
    (∃ i, c.gate.inflight = false ∧ c'.gate.inflight = true ∧
      ∀ j, (c'.pc j).Holds ↔ (c.pc j).Holds ∨ j = i) ∨
    (∃ i, (c.pc i).Holds ∧ c'.gate.inflight = false ∧
      ∀ j, (c'.pc j).Holds ↔ (c.pc j).Holds ∧ j ≠ i) := by
  cases h with
  | call i tip hpc => exact Or.inl ⟨rfl, holds_update (by simp [hpc, GatePc.Holds])⟩
  | exchange i hpc hfree =>
      refine Or.inr (Or.inl ⟨i, hfree, rfl, fun j => ?_⟩)
      by_cases hj : j = i
      · simp [hj, GatePc.Holds]
      · simp [hj]
  | busy i hpc hbusy => exact Or.inl ⟨rfl, holds_update (by simp [hpc, GatePc.Holds])⟩
  | drain i hpc hmutex => exact Or.inl ⟨rfl, holds_update (by simp [hpc, GatePc.Holds])⟩
  | stash i hpc hmutex => exact Or.inl ⟨rfl, holds_update (by simp [hpc, GatePc.Holds])⟩
  | take i hpc => exact Or.inl ⟨rfl, holds_update (by simp [hpc, GatePc.Holds])⟩
  | «continue» i hpc hmutex hpending =>
      exact Or.inl ⟨rfl, holds_update (by simp [hpc, GatePc.Holds])⟩
  | empty i hpc hmutex hpending =>
      exact Or.inl ⟨rfl, holds_update (by simp [hpc, GatePc.Holds])⟩
  | release i hpc =>
      refine Or.inr (Or.inr ⟨i, by simp [hpc, GatePc.Holds], rfl, fun j => ?_⟩)
      by_cases hj : j = i
      · simp [hj, GatePc.Holds]
      · simp [hj]

/-- The gate is taken by one thread or by none. -/
structure GateOwned (c : GateThreads τ) : Prop where
  exclusive : ∀ i j, (c.pc i).Holds → (c.pc j).Holds → i = j
  inflight : c.gate.inflight = true ↔ ∃ i, (c.pc i).Holds

theorem GateOwned.step {c c' : GateThreads τ} (h : GateOwned c) (hs : GateStep c c') :
    GateOwned c' := by
  rcases hs.holders with ⟨hgate, hpc⟩ | ⟨i, hfree, htaken, hpc⟩ | ⟨i, hi, hfree, hpc⟩
  · refine ⟨fun a b ha hb => ?_, ?_⟩
    · exact h.exclusive a b ((hpc a).mp ha) ((hpc b).mp hb)
    · rw [hgate, h.inflight]
      simp [hpc]
  · -- Nobody held the gate, so the thread that took it is the only one.
    have hnobody : ∀ j, ¬ (c.pc j).Holds := by
      intro j hj
      have := h.inflight.mpr ⟨j, hj⟩
      simp [hfree] at this
    refine ⟨fun a b ha hb => ?_, ?_⟩
    · have ha' : a = i := by simpa [hnobody a] using (hpc a).mp ha
      have hb' : b = i := by simpa [hnobody b] using (hpc b).mp hb
      rw [ha', hb']
    · simp only [htaken, true_iff]
      exact ⟨i, (hpc i).mpr (Or.inr rfl)⟩
  · have hnobody : ∀ j, ¬ (c'.pc j).Holds := by
      intro j hj
      obtain ⟨hold, hne⟩ := (hpc j).mp hj
      exact hne (h.exclusive j i hold hi)
    refine ⟨fun a b ha _ => absurd ha (hnobody a), ?_⟩
    simp [hfree, hnobody]

/-! ### The mutex -/

/-- Only a releasing thread keeps the mutex, and nothing is pending meanwhile. -/
structure GateLocked (c : GateThreads τ) : Prop where
  locked : ∀ i, c.pc i = .releasing → c.locked = true
  empty : ∀ i, c.pc i = .releasing → c.gate.pending = none

/-- A thread that goes elsewhere than to the release leaves the others as they were. -/
theorem releasing_of_update {c : GateThreads τ} {i j : τ} {pc : GatePc} (hne : pc ≠ .releasing)
    (h : Function.update c.pc i pc j = .releasing) : j ≠ i ∧ c.pc j = .releasing := by
  by_cases hj : j = i
  · subst hj
    simp at h
    exact absurd h hne
  · exact ⟨hj, by simpa [hj] using h⟩

theorem GateLocked.step {c c' : GateThreads τ} (ho : GateOwned c) (h : GateLocked c)
    (hs : GateStep c c') : GateLocked c' := by
  cases hs with
  | call i tip hpc =>
      refine ⟨fun j hj => ?_, fun j hj => ?_⟩
      · exact h.locked j (releasing_of_update (by simp) hj).2
      · exact h.empty j (releasing_of_update (by simp) hj).2
  | exchange i hpc hfree =>
      refine ⟨fun j hj => ?_, fun j hj => ?_⟩
      · exact h.locked j (releasing_of_update (by simp) hj).2
      · exact h.empty j (releasing_of_update (by simp) hj).2
  | busy i hpc hbusy =>
      refine ⟨fun j hj => ?_, fun j hj => ?_⟩
      · exact h.locked j (releasing_of_update (by simp) hj).2
      · exact h.empty j (releasing_of_update (by simp) hj).2
  | take i hpc =>
      refine ⟨fun j hj => ?_, fun j hj => ?_⟩
      · exact h.locked j (releasing_of_update (by simp) hj).2
      · exact h.empty j (releasing_of_update (by simp) hj).2
  | drain i hpc hmutex =>
      refine ⟨fun j hj => ?_, fun j hj => rfl⟩
      exact h.locked j (releasing_of_update (by simp) hj).2
  | stash i hpc hmutex =>
      -- The mutex is free, so no thread is about to release.
      have hno : ∀ j, Function.update c.pc i GatePc.idle j ≠ .releasing := by
        intro j hj
        have := h.locked j (releasing_of_update (by simp) hj).2
        simp [hmutex] at this
      exact ⟨fun j hj => absurd hj (hno j), fun j hj => absurd hj (hno j)⟩
  | «continue» i hpc hmutex hpending =>
      refine ⟨fun j hj => ?_, fun j hj => rfl⟩
      exact h.locked j (releasing_of_update (by simp) hj).2
  | empty i hpc hmutex hpending => exact ⟨fun j _ => rfl, fun j _ => hpending⟩
  | release i hpc =>
      have hno : ∀ j, Function.update c.pc i GatePc.idle j ≠ .releasing := by
        intro j hj
        obtain ⟨hne, hold⟩ := releasing_of_update (by simp) hj
        exact hne (ho.exclusive j i (by simp [hold, GatePc.Holds]) (by simp [hpc, GatePc.Holds]))
      exact ⟨fun j hj => absurd hj (hno j), fun j hj => absurd hj (hno j)⟩

/-! ### The record -/

/-- The record agrees with the gate. -/
structure GateRecorded (c : GateThreads τ) : Prop where
  held : heldGate c.events = c.gate.inflight
  pending : (pendingTips c.events).max? = c.gate.pending
  sound : GateSound c.events

omit [DecidableEq τ] in
/-- The freshest tip is the highest of the offered one and the stashed ones. -/
theorem GateRecorded.max?_cons {c : GateThreads τ} (h : GateRecorded c) (tip : Int) :
    (tip :: pendingTips c.events).max? = some (c.gate.freshest tip) := by
  rw [List.max?_cons, h.pending]
  unfold SingleFlight.freshest
  cases c.gate.pending with
  | none => simp
  | some stashed => simp [max_comm]

theorem GateRecorded.step {c c' : GateThreads τ} (ho : GateOwned c) (hl : GateLocked c)
    (h : GateRecorded c) (hs : GateStep c c') : GateRecorded c' := by
  have hheld : ∀ i, (c.pc i).Holds → heldGate c.events = true := by
    intro i hi
    rw [h.held, ho.inflight]
    exact ⟨i, hi⟩
  cases hs with
  | call i tip hpc =>
      exact ⟨h.held, h.pending, by simp [GateEvent.HandsMax, GateEvent.InTurn], h.sound⟩
  | exchange i hpc hfree =>
      exact ⟨rfl, h.pending, by simp [GateEvent.HandsMax, GateEvent.InTurn], h.sound⟩
  | busy i hpc hbusy => exact ⟨h.held, h.pending, h.sound⟩
  | drain i hpc hmutex =>
      refine ⟨h.held, rfl, ⟨h.max?_cons _, hheld i ?_⟩, h.sound⟩
      simp [hpc, GatePc.Holds]
  | stash i hpc hmutex =>
      exact ⟨h.held, h.max?_cons _, by simp [GateEvent.HandsMax, GateEvent.InTurn], h.sound⟩
  | take i hpc => exact ⟨h.held, h.pending, h.sound⟩
  | «continue» i hpc hmutex hpending =>
      refine ⟨h.held, rfl, ⟨h.pending.trans hpending, hheld i ?_⟩, h.sound⟩
      simp [hpc, GatePc.Holds]
  | empty i hpc hmutex hpending => exact ⟨h.held, h.pending, h.sound⟩
  | release i hpc =>
      refine ⟨rfl, h.pending, ⟨trivial, ?_⟩, h.sound⟩
      have hnone := h.pending.trans (hl.empty i hpc)
      exact List.max?_eq_none_iff.mp hnone

/-! ### Every reachable state -/

structure GateInv (c : GateThreads τ) : Prop where
  owned : GateOwned c
  locked : GateLocked c
  recorded : GateRecorded c

/-- **The invariant of the gate.** -/
theorem GateReachable.inv {c : GateThreads τ} (h : GateReachable c) : GateInv c := by
  induction h with
  | init =>
      refine ⟨⟨?_, ?_⟩, ⟨?_, ?_⟩, ⟨?_, ?_, ?_⟩⟩
      · simp [GateThreads.init, GatePc.Holds]
      · simp [GateThreads.init, GatePc.Holds, SingleFlight.new]
      · simp [GateThreads.init]
      · simp [GateThreads.init]
      · simp [GateThreads.init, heldGate, SingleFlight.new]
      · simp [GateThreads.init, pendingTips, SingleFlight.new]
      · simp [GateThreads.init, GateSound]
  | step _ hs ih =>
      exact ⟨ih.owned.step hs, ih.locked.step ih.owned hs, ih.recorded.step ih.owned ih.locked hs⟩

/--
**Single-flight mutual exclusion.**  However the atomic steps of any number of threads
interleave, at most one thread holds the gate, `inflight` says whether one does, and
each tip handed to a holder is the highest of those stashed since the last hand-over,
together with its own if it has just taken the gate.
-/
theorem single_flight_exclusive {c : GateThreads τ} (h : GateReachable c) :
    (∀ i j, (c.pc i).Holds → (c.pc j).Holds → i = j) ∧
    (c.gate.inflight = true ↔ ∃ i, (c.pc i).Holds) ∧
    ∀ after e before, c.events = after ++ e :: before → e.HandsMax before := by
  refine ⟨h.inv.owned.exclusive, h.inv.owned.inflight, fun after e before he => ?_⟩
  have hsound := h.inv.recorded.sound
  rw [he] at hsound
  exact hsound.at.1

/-! ### Tips on their way -/

/-- The tip was handed to a holder. -/
def Handed (events : List (GateEvent τ)) (n : Int) : Prop :=
  (∃ i tip, .acquired i tip n ∈ events) ∨ ∃ i, .continued i n ∈ events

omit [DecidableEq τ] in
theorem Handed.cons {events : List (GateEvent τ)} {n : Int} (h : Handed events n)
    (e : GateEvent τ) : Handed (e :: events) n := by
  rcases h with ⟨i, tip, h⟩ | ⟨i, h⟩
  · exact Or.inl ⟨i, tip, by simp [h]⟩
  · exact Or.inr ⟨i, by simp [h]⟩

/-- The thread is in `offer` with the tip. -/
def GatePc.Carries (tip : Int) (pc : GatePc) : Prop :=
  pc = .offering tip ∨ pc = .draining tip ∨ pc = .stashing tip

/-- The tip was handed over, or is below one that is stashed, or its offer still runs. -/
def TipAccounted (c : GateThreads τ) (tip : Int) : Prop :=
  (∃ n, Handed c.events n ∧ tip ≤ n) ∨ (∃ n ∈ pendingTips c.events, tip ≤ n) ∨
    ∃ i, (c.pc i).Carries tip

/-- Another thread keeps carrying its tip, whatever thread `i` does. -/
theorem carries_update {c : GateThreads τ} {i j : τ} {tip : Int} (pc : GatePc)
    (hcarry : (c.pc i).Carries tip → pc.Carries tip) (h : (c.pc j).Carries tip) :
    ∃ k, (Function.update c.pc i pc k).Carries tip := by
  by_cases hj : j = i
  · subst hj
    exact ⟨j, by simpa using hcarry h⟩
  · exact ⟨j, by simpa [hj] using h⟩

/-- **No step loses a tip.** -/
theorem TipAccounted.step {c c' : GateThreads τ} (hr : GateRecorded c) (hs : GateStep c c')
    {tip : Int} (h : TipAccounted c tip) : TipAccounted c' tip := by
  cases hs with
  | call i t hpc =>
      rcases h with ⟨n, hn, hle⟩ | ⟨n, hn, hle⟩ | ⟨j, hj⟩
      · exact Or.inl ⟨n, hn.cons _, hle⟩
      · exact Or.inr (Or.inl ⟨n, hn, hle⟩)
      · exact Or.inr (Or.inr (carries_update _ (by simp [hpc, GatePc.Carries]) hj))
  | @exchange i t hpc hfree =>
      rcases h with ⟨n, hn, hle⟩ | ⟨n, hn, hle⟩ | ⟨j, hj⟩
      · exact Or.inl ⟨n, hn.cons _, hle⟩
      · exact Or.inr (Or.inl ⟨n, hn, hle⟩)
      · exact Or.inr (Or.inr (carries_update _ (by simp [hpc, GatePc.Carries]) hj))
  | @busy i t hpc hbusy =>
      rcases h with ⟨n, hn, hle⟩ | ⟨n, hn, hle⟩ | ⟨j, hj⟩
      · exact Or.inl ⟨n, hn, hle⟩
      · exact Or.inr (Or.inl ⟨n, hn, hle⟩)
      · exact Or.inr (Or.inr (carries_update _ (by simp [hpc, GatePc.Carries]) hj))
  | @drain i t hpc hmutex =>
      -- The target is at least the own tip and every stashed one.
      have hmax := (List.max?_eq_some_iff.mp (hr.max?_cons t)).2
      have htarget : Handed (.acquired i t (c.gate.freshest t) :: c.events)
          (c.gate.freshest t) := Or.inl ⟨i, t, by simp⟩
      rcases h with ⟨n, hn, hle⟩ | ⟨n, hn, hle⟩ | ⟨j, hj⟩
      · exact Or.inl ⟨n, hn.cons _, hle⟩
      · exact Or.inl ⟨_, htarget, hle.trans (hmax n (by simp [hn]))⟩
      · by_cases hji : j = i
        · subst hji
          obtain rfl : t = tip := by simpa [hpc, GatePc.Carries] using hj
          exact Or.inl ⟨_, htarget, hmax t (by simp)⟩
        · exact Or.inr (Or.inr ⟨j, by simpa [hji] using hj⟩)
  | @stash i t hpc hmutex =>
      rcases h with ⟨n, hn, hle⟩ | ⟨n, hn, hle⟩ | ⟨j, hj⟩
      · exact Or.inl ⟨n, hn.cons _, hle⟩
      · exact Or.inr (Or.inl ⟨n, by simp [pendingTips, hn], hle⟩)
      · by_cases hji : j = i
        · subst hji
          obtain rfl : t = tip := by simpa [hpc, GatePc.Carries] using hj
          exact Or.inr (Or.inl ⟨t, by simp [pendingTips], le_rfl⟩)
        · exact Or.inr (Or.inr ⟨j, by simpa [hji] using hj⟩)
  | take i hpc =>
      rcases h with ⟨n, hn, hle⟩ | ⟨n, hn, hle⟩ | ⟨j, hj⟩
      · exact Or.inl ⟨n, hn, hle⟩
      · exact Or.inr (Or.inl ⟨n, hn, hle⟩)
      · exact Or.inr (Or.inr (carries_update _ (by simp [hpc, GatePc.Carries]) hj))
  | @«continue» i next hpc hmutex hpending =>
      have hmax := (List.max?_eq_some_iff.mp (hr.pending.trans hpending)).2
      rcases h with ⟨n, hn, hle⟩ | ⟨n, hn, hle⟩ | ⟨j, hj⟩
      · exact Or.inl ⟨n, hn.cons _, hle⟩
      · exact Or.inl ⟨next, Or.inr ⟨i, by simp⟩, hle.trans (hmax n hn)⟩
      · exact Or.inr (Or.inr (carries_update _ (by simp [hpc, GatePc.Carries]) hj))
  | empty i hpc hmutex hpending =>
      rcases h with ⟨n, hn, hle⟩ | ⟨n, hn, hle⟩ | ⟨j, hj⟩
      · exact Or.inl ⟨n, hn, hle⟩
      · exact Or.inr (Or.inl ⟨n, hn, hle⟩)
      · exact Or.inr (Or.inr (carries_update _ (by simp [hpc, GatePc.Carries]) hj))
  | release i hpc =>
      rcases h with ⟨n, hn, hle⟩ | ⟨n, hn, hle⟩ | ⟨j, hj⟩
      · exact Or.inl ⟨n, hn.cons _, hle⟩
      · exact Or.inr (Or.inl ⟨n, hn, hle⟩)
      · exact Or.inr (Or.inr (carries_update _ (by simp [hpc, GatePc.Carries]) hj))

/-- A step offers a tip no other way than by the call that carries it. -/
theorem GateStep.offered {c c' : GateThreads τ} (hs : GateStep c c') {i : τ} {tip : Int}
    (h : .offered i tip ∈ c'.events) : .offered i tip ∈ c.events ∨ (c'.pc i).Carries tip := by
  cases hs with
  | call j t hpc =>
      rcases List.mem_cons.mp h with heq | hold
      · obtain ⟨rfl, rfl⟩ := GateEvent.offered.inj heq
        exact Or.inr (by simp [GatePc.Carries])
      · exact Or.inl hold
  | exchange j hpc hfree => exact Or.inl (by simpa using h)
  | busy j hpc hbusy => exact Or.inl h
  | drain j hpc hmutex => exact Or.inl (by simpa using h)
  | stash j hpc hmutex => exact Or.inl (by simpa using h)
  | take j hpc => exact Or.inl h
  | «continue» j hpc hmutex hpending => exact Or.inl (by simpa using h)
  | empty j hpc hmutex hpending => exact Or.inl h
  | release j hpc => exact Or.inl (by simpa using h)

/-- Every offered tip is accounted for, in every reachable state. -/
theorem GateReachable.accounted {c : GateThreads τ} (h : GateReachable c) :
    ∀ i tip, .offered i tip ∈ c.events → TipAccounted c tip := by
  induction h with
  | init =>
      intro i tip hmem
      simp [GateThreads.init] at hmem
  | @step c c' hc hs ih =>
      intro i tip hmem
      rcases hs.offered hmem with hold | hnew
      · exact (ih i tip hold).step hc.inv.recorded hs
      · exact Or.inr (Or.inr ⟨i, hnew⟩)

/-! ### Stranded tips -/

/--
No tip was stashed too late: each was stashed while the gate was held, or the gate was
taken again afterwards.
-/
def NoLateStash (events : List (GateEvent τ)) : Prop :=
  ∀ after i tip before, events = after ++ .stashed i tip :: before →
    heldGate before = true ∨ ∃ j, .took j ∈ after

/-- The tip is handed on. -/
def GateEvent.HandsOver : GateEvent τ → Prop
  | .acquired _ _ _ => True
  | .continued _ _ => True
  | _ => False

omit [DecidableEq τ] in
/-- What is pending was stashed, and nothing has been handed over since. -/
theorem mem_pendingTips {events : List (GateEvent τ)} {tip : Int} (h : tip ∈ pendingTips events) :
    ∃ after i before, events = after ++ .stashed i tip :: before ∧
      ∀ e ∈ after, ¬ e.HandsOver := by
  induction events with
  | nil => simp [pendingTips] at h
  | cons e rest ih =>
      have hpass : tip ∈ pendingTips rest → ¬ e.HandsOver →
          ∃ after i before, e :: rest = after ++ .stashed i tip :: before ∧
            ∀ e ∈ after, ¬ e.HandsOver := by
        intro hmem he
        obtain ⟨after, i, before, rfl, hafter⟩ := ih hmem
        exact ⟨e :: after, i, before, rfl, by simpa [he] using hafter⟩
      cases e with
      | offered i t => exact hpass h (by simp [GateEvent.HandsOver])
      | took i => exact hpass h (by simp [GateEvent.HandsOver])
      | stashed i t =>
          rcases List.mem_cons.mp h with rfl | hmem
          · exact ⟨[], i, rest, rfl, by simp⟩
          · exact hpass hmem (by simp [GateEvent.HandsOver])
      | acquired i t target => simp [pendingTips] at h
      | continued i next => simp [pendingTips] at h
      | released i => exact hpass h (by simp [GateEvent.HandsOver])

omit [DecidableEq τ] in
/-- A stashed tip stays pending until a tip is handed over. -/
theorem pendingTips_append {after before : List (GateEvent τ)} {i : τ} {tip : Int}
    (h : ∀ e ∈ after, ¬ e.HandsOver) :
    tip ∈ pendingTips (after ++ .stashed i tip :: before) := by
  induction after with
  | nil => simp [pendingTips]
  | cons e rest ih =>
      have hrest := ih fun e he => h e (by simp [he])
      cases e with
      | offered j t => exact hrest
      | took j => exact hrest
      | stashed j t => simp [pendingTips, hrest]
      | acquired j t target => exact absurd trivial (h (.acquired j t target) (by simp))
      | continued j next => exact absurd trivial (h (.continued j next) (by simp))
      | released j => exact hrest

omit [DecidableEq τ] in
/-- A free gate that was held once has been released. -/
theorem mem_released {after before : List (GateEvent τ)}
    (hheld : heldGate before = true ∨ ∃ j, .took j ∈ after)
    (hfree : heldGate (after ++ before) = false) :
    ∃ mid last i, after = mid ++ .released i :: last := by
  induction after with
  | nil =>
      rcases hheld with hheld | ⟨j, hj⟩
      · simp [hheld] at hfree
      · simp at hj
  | cons e rest ih =>
      have hpass : heldGate (rest ++ before) = false → (∀ j, e ≠ .took j) →
          ∃ mid last i, e :: rest = mid ++ .released i :: last := by
        intro hfree hne
        have hheld' : heldGate before = true ∨ ∃ j, .took j ∈ rest := by
          rcases hheld with hheld | ⟨j, hj⟩
          · exact Or.inl hheld
          · rcases List.mem_cons.mp hj with heq | hold
            · exact absurd heq.symm (hne j)
            · exact Or.inr ⟨j, hold⟩
        obtain ⟨mid, last, i, rfl⟩ := ih hheld' hfree
        exact ⟨e :: mid, last, i, rfl⟩
      cases e with
      | offered j t => exact hpass hfree (by simp)
      | took j => simp [heldGate] at hfree
      | stashed j t => exact hpass hfree (by simp)
      | acquired j t target => exact hpass hfree (by simp)
      | continued j next => exact hpass hfree (by simp)
      | released j => exact ⟨[], rest, j, rfl⟩

omit [DecidableEq τ] in
/-- A gate nobody takes stays free, and nothing is handed over at it. -/
theorem heldGate_append {after before : List (GateEvent τ)} (hs : GateSound (after ++ before))
    (hfree : heldGate before = false) (htook : ∀ j, .took j ∉ after) :
    heldGate (after ++ before) = false ∧ ∀ e ∈ after, ¬ e.HandsOver := by
  induction after with
  | nil => exact ⟨hfree, by simp⟩
  | cons e rest ih =>
      obtain ⟨⟨-, hturn⟩, hs'⟩ := hs
      obtain ⟨hrest, hnone⟩ := ih hs' fun j hj => htook j (by simp [hj])
      cases e with
      | offered j t => exact ⟨hrest, by simpa [GateEvent.HandsOver] using hnone⟩
      | took j => exact absurd (List.mem_cons_self ..) (htook j)
      | stashed j t => exact ⟨hrest, by simpa [GateEvent.HandsOver] using hnone⟩
      | acquired j t target =>
          have hturn : heldGate (rest ++ before) = true := hturn
          simp [hrest] at hturn
      | continued j next =>
          have hturn : heldGate (rest ++ before) = true := hturn
          simp [hrest] at hturn
      | released j => exact ⟨rfl, by simpa [GateEvent.HandsOver] using hnone⟩

omit [DecidableEq τ] in
/-- **Nothing is pending at a free gate** exactly when no tip was stashed too late. -/
theorem pendingTips_eq_nil_iff {events : List (GateEvent τ)} (hs : GateSound events)
    (hfree : heldGate events = false) : pendingTips events = [] ↔ NoLateStash events := by
  constructor
  · intro hnil after i tip before he
    subst he
    by_contra hlate
    push Not at hlate
    have hfree' : heldGate (.stashed i tip :: before) = false := by
      simpa [heldGate] using hlate.1
    have hnone := (heldGate_append hs hfree' hlate.2).2
    have hmem : tip ∈ pendingTips (after ++ .stashed i tip :: before) := pendingTips_append hnone
    simp [hnil] at hmem
  · intro hlate
    by_contra hne
    obtain ⟨tip, hmem⟩ := List.exists_mem_of_ne_nil _ hne
    obtain ⟨after, i, before, rfl, hnone⟩ := mem_pendingTips hmem
    have hheld := hlate after i tip before rfl
    have hheld' : heldGate (.stashed i tip :: before) = true ∨ ∃ j, .took j ∈ after := hheld
    -- The gate was released after the stash, which it is only when nothing is pending.
    obtain ⟨mid, last, j, rfl⟩ := mem_released hheld' hfree
    rw [List.append_assoc] at hs
    have hempty : pendingTips (last ++ .stashed i tip :: before) = [] := hs.at.2
    have hmem' : tip ∈ pendingTips (last ++ .stashed i tip :: before) :=
      pendingTips_append fun e he => hnone e (by simp [he])
    simp [hempty] at hmem'

/--
**No tip is stranded in the gate** exactly when none is stashed too late.  In a reachable
state with no call running and no holder, nothing is pending and every tip ever offered
is below one that was handed to a holder, if and only if each stash happened while the
gate was held, or the gate was taken again afterwards.
-/
theorem no_tip_stranded_iff {c : GateThreads τ} (h : GateReachable c)
    (hidle : ∀ i, c.pc i = .idle) :
    (c.gate.pending = none ∧
      ∀ i tip, .offered i tip ∈ c.events → ∃ n, Handed c.events n ∧ tip ≤ n) ↔
    NoLateStash c.events := by
  have hrec := h.inv.recorded
  have hfree : heldGate c.events = false := by
    rw [hrec.held, ← Bool.not_eq_true, h.inv.owned.inflight]
    simp [hidle, GatePc.Holds]
  rw [← pendingTips_eq_nil_iff hrec.sound hfree]
  constructor
  · intro hok
    exact List.max?_eq_none_iff.mp (hrec.pending.trans hok.1)
  · intro hnil
    refine ⟨by rw [← hrec.pending]; simp [hnil], fun i tip hmem => ?_⟩
    rcases h.accounted i tip hmem with hhanded | ⟨n, hn, -⟩ | ⟨j, hj⟩
    · exact hhanded
    · simp [hnil] at hn
    · simp [hidle, GatePc.Carries] at hj

/-- The first thread runs one offer to the end while the second, which has found the gate
busy, stashes its tip afterwards. -/
def lateStash : List (Bool × Int) :=
  [(true, 5), (true, 5), (true, 5), (false, 7), (false, 7), (true, 0), (true, 0), (true, 0),
    (false, 7)]

/-- The same two offers, the second stashed before the first thread looks. -/
def timelyStash : List (Bool × Int) :=
  [(true, 5), (true, 5), (true, 5), (false, 7), (false, 7), (false, 7), (true, 0), (true, 0),
    (true, 0), (true, 0), (true, 0)]

/-- Where the schedule leads two threads. -/
def ranThreads (schedule : List (Bool × Int))
    (h : (GateThreads.init.follow schedule).isSome = true) : GateThreads Bool :=
  (GateThreads.init.follow schedule).get h

theorem ranThreads_reachable (schedule : List (Bool × Int))
    (h : (GateThreads.init.follow schedule).isSome = true) :
    GateReachable (ranThreads schedule h) :=
  GateReachable.follow .init (Option.some_get h).symm

/-- The tip 7 stays in the stash of a free gate. -/
theorem late_stash_strands_tip :
    ∃ c : GateThreads Bool, GateReachable c ∧ (∀ i, c.pc i = .idle) ∧
      ¬ (c.gate.pending = none ∧
        ∀ i tip, .offered i tip ∈ c.events → ∃ n, Handed c.events n ∧ tip ≤ n) := by
  refine ⟨_, ranThreads_reachable lateStash (by decide), by decide, fun hok => ?_⟩
  have hpending : (ranThreads lateStash (by decide)).gate.pending = some 7 := by decide
  simp [hpending] at hok

theorem no_tip_stranded_iff_timely :
    ∃ c : GateThreads Bool, GateReachable c ∧ (∀ i, c.pc i = .idle) ∧
      .offered false 7 ∈ c.events ∧ NoLateStash c.events := by
  have hreach := ranThreads_reachable timelyStash (by decide)
  have hidle : ∀ i, (ranThreads timelyStash (by decide)).pc i = .idle := by decide
  have hevents : (ranThreads timelyStash (by decide)).events = [.released true,
      .continued true 7, .stashed false 7, .offered false 7, .acquired true 5 5, .took true,
      .offered true 5] := by decide
  refine ⟨_, hreach, hidle, by simp [hevents], (no_tip_stranded_iff hreach hidle).mp ?_⟩
  refine ⟨by decide, fun i tip hmem => ⟨7, Or.inr ⟨true, by simp [hevents]⟩, ?_⟩⟩
  simp only [hevents, List.mem_cons, GateEvent.offered.injEq, reduceCtorEq, List.not_mem_nil,
    false_or, or_false] at hmem
  omega

/-- Both threads inside a call, and the gate held. -/
theorem single_flight_exclusive_busy :
    ∃ c : GateThreads Bool, GateReachable c ∧ (c.pc true).Holds ∧ c.pc false = .stashing 7 ∧
      ∀ j, (c.pc j).Holds → true = j := by
  have hreach := ranThreads_reachable (lateStash.take 6) (by decide)
  have hholds : ((ranThreads (lateStash.take 6) (by decide)).pc true).Holds := by
    rw [show (ranThreads (lateStash.take 6) (by decide)).pc true = .taking by decide]
    trivial
  exact ⟨_, hreach, hholds, by decide,
    fun j hj => (single_flight_exclusive hreach).1 true j hholds hj⟩

end SentrixIndexer
