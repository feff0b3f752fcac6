/-
The gate of the tail loop is lost when a walk fails.

Whoever takes the gate releases it at the end of the walk.  A walk has two other exits:
`read_cursor` or `ingest_one` fails, and the error is returned with the gate still
taken.  The gate outlives the session that took it, so from then on every finalized tip
is stashed and no call picks it up.  Between two calls of `handle_finalized` the gate is
free exactly as long as no walk has failed.
-/
import SentrixIndexer.Proofs.Pipeline
import SentrixIndexer.Sync.Nodes

namespace SentrixIndexer

open Effect

variable {χ : Type} {rpc : Rpc χ} {i : TaskId}

/-! ### Calls that leave the gate alone -/

/-- The call is none of the two the gate has. -/
def SyncCall.LeavesGate : SyncCall → Prop
  | .offer _ => False
  | .takePendingAndRelease => False
  | _ => True

/-- Other tasks move everything but the gate. -/
def GateKept (w w' : World χ) : Prop := w'.gate = w.gate

/-- The surroundings of the tail task: the other tasks run in between, the gate is its own. -/
abbrev tailHandler (rpc : Rpc χ) (i : TaskId) : Handler SyncSig (World χ) :=
  (handle rpc i).under GateKept

theorem gate_of_leavesGate {w w' : World χ} {c : SyncCall} {r : c.Answer} (hc : c.LeavesGate)
    (h : tailHandler rpc i w c r w') : w'.gate = w.gate := by
  obtain ⟨w₁, hkept, hH⟩ := h
  refine Eq.trans ?_ hkept
  cases handle_step hH with
  | stay => rfl
  | chain _ => rfl
  | commit _ => rfl
  | offer tip gate => exact absurd hc fun hc => hc
  | take gate => exact absurd hc fun hc => hc
  | push row => rfl

/-- The script makes no call on the gate. -/
abbrev LeavesGate {α : Type} (p : Script SyncSig α) : Prop := p.Only SyncCall.LeavesGate

theorem LeavesGate.run {α : Type} {p : Script SyncSig α} (hp : LeavesGate p) {w w' : World χ}
    {a : α} (hrun : Run (tailHandler rpc i) w p.toProg w' a) : w'.gate = w.gate := by
  refine hp.run_keeps (J := fun w' => w'.gate = w.gate) ?_ rfl hrun
  intro w₁ c r w₂ hc hJ hH
  exact (gate_of_leavesGate hc hH).trans hJ

theorem leavesGate_withRetry {α : Type} {op : Script SyncSig (Except ChainError α)}
    (hop : LeavesGate op) : LeavesGate (withRetry op).run := by
  refine (retryFrom_only hop (fun _ => Script.only_ask trivial) _ _).bind fun r => ?_
  cases r with
  | ok v => exact trivial
  | error e => exact trivial

theorem leavesGate_logs (h : Int) : LeavesGate (ChainProvider.logsInRange h h) := by
  unfold ChainProvider.logsInRange logsInRange
  rw [if_neg (lt_irrefl h)]
  by_cases hneg : heightAsU64 h = none
  · rw [if_pos hneg]
    exact trivial
  · rw [if_neg hneg, if_neg hneg]
    exact Script.only_ask trivial

theorem leavesGate_pushAll (rows : List RawTxRow) : LeavesGate (pushAll rows) := by
  induction rows with
  | nil => exact trivial
  | cons row rest ih =>
      refine Script.Only.bind (Script.only_ask trivial) fun accepted => ?_
      cases accepted with
      | true => exact ih
      | false => exact trivial

theorem leavesGate_writeBlock (analytics : Bool) (b : BlockBundle) :
    LeavesGate (writeBlock analytics b).run := by
  refine Script.Only.bindE (Script.only_ask trivial) fun _ => ?_
  cases analytics with
  | true => exact Script.Only.bind (leavesGate_pushAll _) fun _ => trivial
  | false => exact trivial

theorem leavesGate_ingestOne (analytics : Bool) (h : Int) :
    LeavesGate (ingestOne analytics h).run := by
  refine Script.Only.bindE (leavesGate_withRetry (Script.only_ask trivial)) fun answer => ?_
  rcases answer with _ | block
  · exact Script.only_ask trivial
  · refine Script.Only.bindE (leavesGate_withRetry (leavesGate_logs h)) fun logs => ?_
    refine Script.Only.bindE ?_ fun bundle => leavesGate_writeBlock analytics bundle
    cases assemble block logs with
    | ok b => exact trivial
    | error e => exact trivial

theorem leavesGate_ingestAll (analytics : Bool) (hs : List Int) :
    LeavesGate (ingestAll analytics hs).run := by
  induction hs with
  | nil => exact trivial
  | cons h rest ih => exact Script.Only.bindE (leavesGate_ingestOne analytics h) fun _ => ih

theorem leavesGate_readCursor : LeavesGate readCursorCall.run := Script.only_ask trivial

/-! ### One walk -/

variable {cfg : SyncConfig} {analytics : Bool}

/-- `read_cursor`, or `ingest_one` for one of its heights, fails in the walk to `current`. -/
inductive WalkFails (rpc : Rpc χ) (i : TaskId) (cfg : SyncConfig) (analytics : Bool) :
    Int → World χ → World χ → Prop
  | readCursor {current : Int} {w w' : World χ} {e : SyncError}
      (h : Run (tailHandler rpc i) w (Script.toProgE readCursorCall).run w' (.error e)) :
      WalkFails rpc i cfg analytics current w w'
  | ingestOne {current h : Int} {cursor : Option Int} {before after : List Int}
      {w w₁ w₂ w' : World χ} {e : SyncError}
      (hread : Run (tailHandler rpc i) w (Script.toProgE readCursorCall).run w₁ (.ok cursor))
      (hrange : inclusive (cursor.getD (-1) + 1) (saturatingSub current (asI64 cfg.safeLag)) =
        before ++ h :: after)
      (hbefore : Run (tailHandler rpc i) w₁ (Script.toProgE (ingestAll analytics before)).run
        w₂ (.ok ()))
      (hfail : Run (tailHandler rpc i) w₂ (Script.toProgE (ingestOne analytics h)).run
        w' (.error e)) :
      WalkFails rpc i cfg analytics current w w'
  | next {current next : Int} {w w₁ w' : World χ}
      (hpass : Run (tailHandler rpc i) w (Script.toProgE (walkPass cfg analytics current)).run
        w₁ (.ok (.inl next)))
      (h : WalkFails rpc i cfg analytics next w₁ w') :
      WalkFails rpc i cfg analytics current w w'

/-- Where the walk of some heights fails, one of them fails after the ones before it. -/
theorem ingestAll_error {hs : List Int} :
    ∀ {w w' : World χ} {e : SyncError},
      Run (tailHandler rpc i) w (Script.toProgE (ingestAll analytics hs)).run w' (.error e) →
      ∃ before h after w₁, hs = before ++ h :: after ∧
        Run (tailHandler rpc i) w (Script.toProgE (ingestAll analytics before)).run w₁ (.ok ()) ∧
        Run (tailHandler rpc i) w₁ (Script.toProgE (ingestOne analytics h)).run w' (.error e) := by
  induction hs with
  | nil =>
      intro w w' e hrun
      obtain ⟨-, he⟩ := run_pure.mp hrun
      exact absurd he (by simp)
  | cons h rest ih =>
      intro w w' e hrun
      unfold ingestAll at hrun
      rw [Script.toProgE_bind, run_bindE] at hrun
      rcases hrun with ⟨w₁, ⟨⟩, hone, hrest⟩ | ⟨e', hone, he⟩
      · obtain ⟨before, k, after, w₂, rfl, hbefore, hfail⟩ := ih hrest
        refine ⟨h :: before, k, after, w₂, rfl, ?_, hfail⟩
        unfold ingestAll
        rw [Script.toProgE_bind, run_bindE]
        exact Or.inl ⟨w₁, (), hone, hbefore⟩
      · obtain rfl := Except.error.inj he
        exact ⟨[], h, rest, w, rfl, Run.pure _ _, hone⟩

/-- What a pass of the walk by the holder of the gate comes to. -/
def PassPost (rpc : Rpc χ) (i : TaskId) (cfg : SyncConfig) (analytics : Bool) (current : Int)
    (w : World χ) : Except SyncError (Int ⊕ Unit) → World χ → Prop
  | .error _, w' => WalkFails rpc i cfg analytics current w w' ∧ w'.gate.inflight = true
  | .ok (.inl _), w' => w'.gate.inflight = true
  | .ok (.inr _), w' => w'.gate.inflight = false

/-- At the end of a pass the gate is freed, or kept for the stashed tip. -/
theorem alone_release {current : Int} {w w₁ : World χ} (hheld : w₁.gate.inflight = true) :
    wpAlone (tailHandler rpc i) (Script.toProgE takeNext).run
      (PassPost rpc i cfg analytics current w) w₁ := by
  refine wp_scriptE_bind (wp_script_bind (wpAlone_call.mpr fun r w₂ hH => ?_))
  obtain ⟨w', hkept, rfl, rfl⟩ := hH
  have hgate : w'.gate.inflight = true := hkept.symm ▸ hheld
  unfold SingleFlight.takePendingAndRelease
  rcases w'.gate.pending with _ | next
  · exact rfl
  · exact hgate

theorem alone_walkPass (current : Int) {w : World χ} (hheld : w.gate.inflight = true) :
    wpAlone (tailHandler rpc i) (Script.toProgE (walkPass cfg analytics current)).run
      (PassPost rpc i cfg analytics current w) w := by
  refine wp_scriptE_bind (wpAlone_of_run fun w₁ r hread => ?_)
  have hgate₁ := leavesGate_readCursor.run hread
  rcases r with e | cursor
  · exact ⟨WalkFails.readCursor hread, hgate₁ ▸ hheld⟩
  · have hheld₁ : w₁.gate.inflight = true := hgate₁ ▸ hheld
    by_cases hwalk : cursor.getD (-1) < saturatingSub current (asI64 cfg.safeLag)
    · simp only [hwalk, if_true]
      refine wp_scriptE_bind (wpAlone_of_run fun w₂ r hall => ?_)
      have hheld₂ : w₂.gate.inflight = true := (leavesGate_ingestAll analytics _).run hall ▸ hheld₁
      rcases r with e | ⟨⟩
      · obtain ⟨before, h, after, w₃, hrange, hbefore, hfail⟩ := ingestAll_error hall
        exact ⟨WalkFails.ingestOne hread hrange hbefore hfail, hheld₂⟩
      · exact alone_release hheld₂
    · simp only [hwalk, if_false]
      exact alone_release hheld₁

/-- A walk that fails leaves the gate taken. -/
theorem WalkFails.held {current : Int} {w w' : World χ}
    (h : WalkFails rpc i cfg analytics current w w') (hheld : w.gate.inflight = true) :
    w'.gate.inflight = true := by
  induction h with
  | readCursor h => exact leavesGate_readCursor.run h ▸ hheld
  | ingestOne hread _ hbefore hfail =>
      rw [(leavesGate_ingestOne analytics _).run hfail,
        (leavesGate_ingestAll analytics _).run hbefore, leavesGate_readCursor.run hread]
      exact hheld
  | next hpass _ ih => exact ih (wpAlone_run hpass (alone_walkPass _ hheld))

/-! ### One call -/

/-- The call takes the gate, and its walk fails. -/
def CallFails (rpc : Rpc χ) (i : TaskId) (cfg : SyncConfig) (analytics : Bool) (tip : Int)
    (w w' : World χ) : Prop :=
  ∃ w₁ h, tailHandler rpc i w (.offer tip) (.acquired h) w₁ ∧
    WalkFails rpc i cfg analytics h w₁ w'

theorem offer_acquired {g : SingleFlight} {tip h : Int} (hoffer : (g.offer tip).1 = .acquired h) :
    g.inflight = false ∧ (g.offer tip).2.inflight = true := by
  unfold SingleFlight.offer at hoffer ⊢
  by_cases hg : g.inflight = true
  · rw [if_pos hg] at hoffer
    exact absurd hoffer (by simp)
  · rw [if_neg hg]
    exact ⟨Bool.eq_false_iff.mpr hg, rfl⟩

theorem offer_stashed {g : SingleFlight} {tip : Int} (hoffer : (g.offer tip).1 = .stashed) :
    g.inflight = true ∧ (g.offer tip).2.inflight = true := by
  unfold SingleFlight.offer at hoffer ⊢
  by_cases hg : g.inflight = true
  · rw [if_pos hg]
    exact ⟨hg, hg⟩
  · rw [if_neg hg] at hoffer
    exact absurd hoffer (by simp)

/-- What the gate is after a call: free if the call found it free and its walk did not fail. -/
def GateAfter (rpc : Rpc χ) (i : TaskId) (cfg : SyncConfig) (analytics : Bool) (tip : Int)
    (w : World χ) (w' : World χ) : Prop :=
  (w.gate.inflight = false ∧ w'.gate.inflight = false) ∨
  (w.gate.inflight = false ∧ CallFails rpc i cfg analytics tip w w') ∨
  (w.gate.inflight = true ∧ w'.gate.inflight = true)

/-- **One call of `handle_finalized`** frees the gate it took unless its walk fails. -/
theorem alone_handleFinalized (tip : Int) (w : World χ) :
    wpAlone (tailHandler rpc i) (handleFinalized cfg analytics tip).run
      (fun _ w' => GateAfter rpc i cfg analytics tip w w') w := by
  refine wp_bindE (wp_bind (wpAlone_call.mpr fun offer w₁ hH => ?_))
  have hoffer := hH
  obtain ⟨w₀, hkept, hanswer, hgate⟩ := hoffer
  have hw₁ : w₁.gate = (w₀.gate.offer tip).2 := by rw [hgate]
  cases offer with
  | stashed =>
      obtain ⟨hbefore, hafter⟩ := offer_stashed hanswer.symm
      exact Or.inr (Or.inr ⟨hkept ▸ hbefore, hw₁ ▸ hafter⟩)
  | acquired h =>
      obtain ⟨hbefore, hafter⟩ := offer_acquired hanswer.symm
      have hfree : w.gate.inflight = false := hkept ▸ hbefore
      -- The failures of what is left of the walk are failures of the call.
      refine wp_iterateE (fun current w₂ => w₂.gate.inflight = true ∧
        ∀ w', WalkFails rpc i cfg analytics current w₂ w' →
          CallFails rpc i cfg analytics tip w w') ?_ ⟨hw₁ ▸ hafter, ?_⟩ ?_
      · rintro current w₂ _ hJ rfl -
        exact hJ
      · exact fun w' hfails => ⟨w₁, h, hH, hfails⟩
      · intro current w₂ _ hJ
        obtain ⟨hheld, hcall⟩ := hJ
        refine wpAlone_of_run fun w₃ r hpass => ?_
        have hpost := wpAlone_run hpass (alone_walkPass current hheld)
        rcases r with e | next | ⟨⟩
        · exact Or.inr (Or.inl ⟨hfree, hcall w₃ hpost.1⟩)
        · exact ⟨hpost, fun w' hfails => hcall w' (WalkFails.next hpass hfails)⟩
        · exact Or.inl ⟨hfree, hpost⟩

/-- A call whose walk fails leaves the gate taken. -/
theorem CallFails.held {tip : Int} {w w' : World χ}
    (h : CallFails rpc i cfg analytics tip w w') : w'.gate.inflight = true := by
  obtain ⟨w₁, current, ⟨w₀, -, hanswer, hgate⟩, hfails⟩ := h
  refine hfails.held ?_
  rw [hgate]
  exact (offer_acquired hanswer.symm).2

/-! ### Sessions -/

/--
The states in which no `handle_finalized` call is executing, from `w₀` on, over any
number of sessions on one gate.  The flag says whether a `read_cursor` or an
`ingest_one` of a walk has failed so far.
-/
inductive BetweenCalls (rpc : Rpc χ) (i : TaskId) (cfg : SyncConfig) (analytics : Bool)
    (w₀ : World χ) : Bool → World χ → Prop
  | start : BetweenCalls rpc i cfg analytics w₀ false w₀
  /-- The event stream, a reconnect, the other tasks: nothing else touches the gate. -/
  | other {failed : Bool} {w w' : World χ} (h : BetweenCalls rpc i cfg analytics w₀ failed w)
      (hkept : GateKept w w') : BetweenCalls rpc i cfg analytics w₀ failed w'
  | call {failed : Bool} {w w' : World χ} {tip : Int} {r : Except SyncError Unit}
      (h : BetweenCalls rpc i cfg analytics w₀ failed w)
      (hrun : Run (tailHandler rpc i) w (handleFinalized cfg analytics tip).run w' r)
      (hok : ¬ CallFails rpc i cfg analytics tip w w') :
      BetweenCalls rpc i cfg analytics w₀ failed w'
  | failing {failed : Bool} {w w' : World χ} {tip : Int} {r : Except SyncError Unit}
      (h : BetweenCalls rpc i cfg analytics w₀ failed w)
      (hrun : Run (tailHandler rpc i) w (handleFinalized cfg analytics tip).run w' r)
      (hfail : CallFails rpc i cfg analytics tip w w') :
      BetweenCalls rpc i cfg analytics w₀ true w'

variable {w₀ : World χ}

theorem BetweenCalls.gate {failed : Bool} {w : World χ} (hnew : w₀.gate.inflight = false)
    (h : BetweenCalls rpc i cfg analytics w₀ failed w) : w.gate.inflight = failed := by
  induction h with
  | start => exact hnew
  | other _ hkept ih => exact hkept ▸ ih
  | call _ hrun hok ih =>
      rcases wpAlone_run hrun (alone_handleFinalized _ _) with
        ⟨hbefore, hafter⟩ | ⟨-, hfails⟩ | ⟨hbefore, hafter⟩
      · rw [hafter, ← ih, hbefore]
      · exact absurd hfails hok
      · rw [hafter, ← ih, hbefore]
  | failing _ _ hfail _ => exact hfail.held

/--
**The gate is free between two calls exactly as long as no walk has failed.**  Over every
sequence of sessions and finalized tips and every pattern of failures: when no
`handle_finalized` call is executing, the gate is free if and only if no `read_cursor`
and no `ingest_one` of a walk has failed so far; then the next tip takes the gate, and
otherwise it is stashed, with nobody to pick it up.
-/
theorem gate_free_iff (hnew : w₀.gate = .new) {failed : Bool} {w : World χ}
    (h : BetweenCalls rpc i cfg analytics w₀ failed w) :
    (w.gate.inflight = false ↔ failed = false) ∧
    ∀ tip, (failed = false → ∃ current, (w.gate.offer tip).1 = .acquired current) ∧
      (failed = true → (w.gate.offer tip).1 = .stashed) := by
  have hgate := h.gate (by rw [hnew]; rfl)
  refine ⟨by rw [hgate], fun tip => ⟨fun hfree => ?_, fun hheld => ?_⟩⟩
  · refine ⟨w.gate.freshest tip, ?_⟩
    unfold SingleFlight.offer
    rw [hgate, hfree]
    rfl
  · unfold SingleFlight.offer
    rw [hgate, hheld]
    rfl

/-! ### The tail task runs through such states -/

/-- Whatever has failed so far, no call is executing. -/
def NoCall (rpc : Rpc χ) (i : TaskId) (cfg : SyncConfig) (analytics : Bool) (w₀ w : World χ) :
    Prop := ∃ failed, BetweenCalls rpc i cfg analytics w₀ failed w

theorem NoCall.other {w w' : World χ} (h : NoCall rpc i cfg analytics w₀ w)
    (hkept : GateKept w w') : NoCall rpc i cfg analytics w₀ w' := by
  obtain ⟨failed, h⟩ := h
  exact ⟨failed, h.other hkept⟩

theorem NoCall.call {w w' : World χ} {tip : Int} {r : Except SyncError Unit}
    (h : NoCall rpc i cfg analytics w₀ w)
    (hrun : Run (tailHandler rpc i) w (handleFinalized cfg analytics tip).run w' r) :
    NoCall rpc i cfg analytics w₀ w' := by
  obtain ⟨failed, h⟩ := h
  by_cases hfail : CallFails rpc i cfg analytics tip w w'
  · exact ⟨true, h.failing hrun hfail⟩
  · exact ⟨failed, h.call hrun hfail⟩

/-- A call that is not on the gate leads from such a state to such a state. -/
theorem alone_noCall (c : SyncCall) (hc : c.LeavesGate) {w : World χ}
    (h : NoCall rpc i cfg analytics w₀ w) :
    wpAlone (tailHandler rpc i) (Prog.ask c) (fun _ w' => NoCall rpc i cfg analytics w₀ w') w :=
  wpAlone_call.mpr fun _ _ hH => h.other (gate_of_leavesGate hc hH)

/-- One event of a session. -/
theorem alone_tailPass {w : World χ} (h : NoCall rpc i cfg analytics w₀ w) :
    wpAlone (tailHandler rpc i) (tailPass cfg analytics).run
      (fun _ w' => NoCall rpc i cfg analytics w₀ w') w := by
  refine wp_bindE (wp_bind (wp_mono (fun stop w₁ h₁ => ?_) (alone_noCall .isCancelled trivial h)))
  cases stop with
  | true => exact h₁
  | false =>
      refine wp_bindE (wp_bind (wp_mono (fun message w₂ h₂ => ?_)
        (alone_noCall (.chain .streamMessage) trivial h₁)))
      rcases message with _ | status | _ | event
      · exact h₂
      · exact h₂
      · exact h₂
      · rcases event with (_ | index) | _ | _
        · exact h₂
        · refine wp_bindE (wpAlone_of_run fun w₃ r hrun => ?_)
          have h₃ := h₂.call hrun
          cases r with
          | error e => exact h₃
          | ok u => exact h₃
        · exact h₂
        · exact h₂

/-- One session, from the subscription to its end. -/
theorem alone_runTail {w : World χ} (h : NoCall rpc i cfg analytics w₀ w) :
    wpAlone (tailHandler rpc i) (runTail cfg analytics).run
      (fun _ w' => NoCall rpc i cfg analytics w₀ w') w := by
  refine wp_bindE (wp_bind (wp_mono (fun r w₁ h₁ => ?_)
    (alone_noCall (.chain .streamEvents) trivial h)))
  rcases r with e | ⟨⟩
  · exact h₁
  · refine wp_iterateE (fun _ w' => NoCall rpc i cfg analytics w₀ w') ?_ h₁ fun _ w₂ _ h₂ => ?_
    · rintro _ w₂ _ hJ rfl -
      exact hJ
    · refine wp_mono (fun r w₃ h₃ => ?_) (alone_tailPass h₂)
      rcases r with e | _ | exit
      · exact h₃
      · exact h₃
      · exact h₃

theorem alone_sessionPass {w : World χ} (h : NoCall rpc i cfg analytics w₀ w) :
    wpAlone (tailHandler rpc i) (sessionPass cfg analytics)
      (fun _ w' => NoCall rpc i cfg analytics w₀ w') w := by
  refine wp_bind (wp_mono (fun stop w₁ h₁ => ?_) (alone_noCall .isCancelled trivial h))
  cases stop with
  | true => exact h₁
  | false =>
      refine wp_bind (wp_mono (fun r w₂ h₂ => ?_) (alone_noCall (.chain .connect) trivial h₁))
      rcases r with e | ⟨⟩
      · exact wp_bind (wp_mono (fun _ _ h₃ => h₃) (alone_noCall (.sleep _) trivial h₂))
      · refine wp_bind (wp_mono (fun r w₃ h₃ => ?_) (alone_runTail h₂))
        rcases r with e | _ | _ | _
        · exact wp_bind (wp_mono (fun _ _ h₄ => h₄) (alone_noCall (.sleep _) trivial h₃))
        · exact h₃
        · exact wp_bind (wp_mono (fun _ _ h₄ => h₄) (alone_noCall (.sleep _) trivial h₃))
        · exact wp_bind (wp_mono (fun _ _ h₄ => h₄) (alone_noCall (.sleep _) trivial h₃))

/-- **The tail task of the binary** is between two calls whenever it is between two sessions. -/
theorem tailTask_noCall {w w' : World χ} {u u' : Unit}
    (hp : Passes (tailHandler rpc i) (fun _ => sessionPass cfg analytics) w u w' u') :
    NoCall rpc i cfg analytics w w' := by
  induction hp with
  | refl => exact ⟨false, BetweenCalls.start⟩
  | pass _ hrun ih => exact wpAlone_run hrun (alone_sessionPass ih)

/-! ### A leaked gate -/

/-- Nodes whose answer for block 0 does not parse; the tip and the rest are fine. -/
def garbledBlock : NodeTables where
  tip := .ok 0
  block h := if h = 0 then .error (.decode "expected value") else .ok none
  logs _ := .ok []
  header _ := .ok none

/-- Block 0 is finalized, and nothing else. -/
def finalizedZero : Stream := [.ok (some (.blockFinalized (some 0)))]

/-- Follow the tip without a lag. -/
def tailConfig : SyncConfig := { SyncConfig.default with safeLag := 0 }

/-- The session that is told of block 0 ends with an error, and the gate is taken. -/
theorem garbled_session : ∃ w' e,
    Run (tailHandler garbledBlock.rpc 0) (World.init finalizedZero)
      (runTail tailConfig false).run w' (.error e) ∧ w'.gate.inflight = true := by
  obtain ⟨w', r, hrun, hcheck⟩ := run_of_exec garbledBlock.answers 0 100
    (World.init finalizedZero) (runTail tailConfig false).run
    (fun x => x.2.toOption.isNone ∧ x.1.gate.inflight = true) (by decide +kernel)
  have hcheck : r.toOption.isNone = true ∧ w'.gate.inflight = true := of_decide_eq_true hcheck
  obtain ⟨herror, hheld⟩ := hcheck
  cases r with
  | ok exit => exact absurd herror (by simp [Except.toOption])
  | error e => exact ⟨w', e, hrun.mono fun w c r w' hH => ⟨w, rfl, hH⟩, hheld⟩

/--
Block 0 is finalized and its body does not parse, so the session fails.  After it the gate
is taken while no call is executing, and every later tip is stashed.
-/
theorem failed_walk_leaks_gate : ∃ w' e,
    Run (tailHandler garbledBlock.rpc 0) (World.init finalizedZero)
      (runTail tailConfig false).run w' (.error e) ∧
    NoCall garbledBlock.rpc 0 tailConfig false (World.init finalizedZero) w' ∧
    w'.gate.inflight = true ∧ ∀ tip, (w'.gate.offer tip).1 = .stashed := by
  obtain ⟨w', e, hrun, hheld⟩ := garbled_session
  refine ⟨w', e, hrun, wpAlone_run hrun (alone_runTail ⟨false, BetweenCalls.start⟩), hheld, ?_⟩
  intro tip
  unfold SingleFlight.offer
  rw [hheld]
  rfl

theorem gate_free_iff_garbled : ∃ w', BetweenCalls garbledBlock.rpc 0 tailConfig false
    (World.init finalizedZero) true w' ∧ (w'.gate.offer 1).1 = .stashed := by
  obtain ⟨w', e, hrun, hheld⟩ := garbled_session
  obtain ⟨failed, h⟩ := wpAlone_run hrun (alone_runTail ⟨false, BetweenCalls.start⟩)
  obtain rfl : failed = true := (h.gate rfl).symm.trans hheld
  exact ⟨w', h, ((gate_free_iff rfl h).2 1).2 rfl⟩

end SentrixIndexer
