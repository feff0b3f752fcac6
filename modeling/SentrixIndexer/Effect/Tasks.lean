/-
Tasks that interleave.

A system is a family of tasks over one shared state.  An idle task may start any
of the programs allowed to it, a running task takes one step of its program at a
time, the surroundings may move the state by themselves, and a crash drops every
program and leaves what the state keeps.  The scheduler is arbitrary, so a
statement about every reachable configuration is a statement about every
interleaving.

`Verified.reachable` is the one induction over those interleavings: an invariant
holds of every reachable configuration as soon as each program a task may start
keeps it while the other tasks move the state along the rely.  `Verified.restrict_inv`
draws from it what holds in the runs whose steps all meet a condition.
-/
import Mathlib.Logic.Function.Basic
import SentrixIndexer.Effect.Wp

namespace Effect

variable {S : Signature} {ι W α : Type}

/-- Tasks `ι` over the state `W`. -/
structure System (S : Signature) (ι W α : Type) where
  /-- How the surroundings answer each task. -/
  handler : ι → Handler S W
  /-- The programs a task may start when it is idle. -/
  spawn : ι → Prog S α → Prop
  /-- What the surroundings may do by themselves. -/
  env : W → W → Prop
  /-- What a crash leaves of the state. -/
  crash : W → W → Prop

/-- The shared state and what each task is doing. -/
structure Config (S : Signature) (ι W α : Type) where
  world : W
  prog : ι → Option (Prog S α)

/-- Every task is idle. -/
def Config.idle (w : W) : Config S ι W α := ⟨w, fun _ => none⟩

variable [DecidableEq ι]

/-- One move of the scheduler. -/
inductive Move (sys : System S ι W α) : Config S ι W α → Config S ι W α → Prop
  | start {c : Config S ι W α} (i : ι) (p : Prog S α) (hidle : c.prog i = none)
      (h : sys.spawn i p) : Move sys c ⟨c.world, Function.update c.prog i (some p)⟩
  | step {c : Config S ι W α} (i : ι) {p p' : Prog S α} {w' : W} (hp : c.prog i = some p)
      (h : Step (sys.handler i) c.world p w' p') :
      Move sys c ⟨w', Function.update c.prog i (some p')⟩
  | finish {c : Config S ι W α} (i : ι) {a : α} (hp : c.prog i = some (.pure a)) :
      Move sys c ⟨c.world, Function.update c.prog i none⟩
  | env {c : Config S ι W α} {w' : W} (h : sys.env c.world w') : Move sys c ⟨w', c.prog⟩
  | crash {c : Config S ι W α} {w' : W} (h : sys.crash c.world w') : Move sys c (.idle w')

/-- The configurations some interleaving reaches from the state `w₀`. -/
inductive Reachable (sys : System S ι W α) (w₀ : W) : Config S ι W α → Prop
  | init : Reachable sys w₀ (.idle w₀)
  | move {c c' : Config S ι W α} (h : Reachable sys w₀ c) (hm : Move sys c c') :
      Reachable sys w₀ c'

variable {sys : System S ι W α} {w₀ : W}

/-- What follows a reachable configuration is reachable. -/
theorem Reachable.moves {c c' : Config S ι W α} (hc : Reachable sys w₀ c)
    (hm : Relation.ReflTransGen (Move sys) c c') : Reachable sys w₀ c' := by
  induction hm with
  | refl => exact hc
  | tail _ hm ih => exact ih.move hm

/-- A reachable configuration is one some moves lead to. -/
theorem Reachable.path {c : Config S ι W α} (hc : Reachable sys w₀ c) :
    Relation.ReflTransGen (Move sys) (.idle w₀) c := by
  induction hc with
  | init => exact .refl
  | move _ hm ih => exact ih.tail hm

private theorem update_eq_some {f : ι → Option (Prog S α)} {i j : ι}
    {v : Option (Prog S α)} {q : Prog S α} (h : Function.update f i v j = some q) :
    (j = i ∧ v = some q) ∨ f j = some q := by
  by_cases hji : j = i
  · subst hji
    rw [Function.update_self] at h
    exact Or.inl ⟨rfl, h⟩
  · rw [Function.update_of_ne hji] at h
    exact Or.inr h

/--
The programs of a system have been verified: under the invariant `I` each task does
to the state only what `G` allows and puts up with what `R` allows.
-/
structure Verified (sys : System S ι W α) (w₀ : W) (I : W → Prop) (R G : W → W → Prop) :
    Prop where
  rely_refl : ∀ w, R w w
  rely_trans : ∀ w₁ w₂ w₃, R w₁ w₂ → R w₂ w₃ → R w₁ w₃
  guar_refl : ∀ w, G w w
  guar_rely : ∀ w w', G w w' → R w w'
  init : I w₀
  spawn : ∀ i p w, sys.spawn i p → I w → wp (sys.handler i) I R G p (fun _ _ => True) w
  env : ∀ w w', I w → sys.env w w' → I w' ∧ R w w'
  crash : ∀ w w', I w → sys.crash w w' → I w'

namespace Verified

variable {I : W → Prop} {R G : W → W → Prop}

/--
**The invariant rule for interleavings.**  The invariant holds of every reachable
configuration, and what each task still has to do stays verified.
-/
theorem reachable (v : Verified sys w₀ I R G) {c : Config S ι W α} (h : Reachable sys w₀ c) :
    I c.world ∧ ∀ i p, c.prog i = some p →
      wp (sys.handler i) I R G p (fun _ _ => True) c.world := by
  induction h with
  | init => exact ⟨v.init, fun i p hp => absurd hp (by simp [Config.idle])⟩
  | @move c c' _ hm ih =>
      obtain ⟨hI, hwp⟩ := ih
      -- A program that does not move only has to survive the change of state.
      have hkeep : ∀ w', I w' → R c.world w' → ∀ i p, c.prog i = some p →
          wp (sys.handler i) I R G p (fun _ _ => True) w' :=
        fun w' hI' hR i p hp =>
          wp_stable v.rely_trans (fun _ _ _ _ _ _ => trivial) (hwp i p hp) hR hI'
      cases hm with
      | start i p hidle hs =>
          refine ⟨hI, fun j q hq => ?_⟩
          rcases update_eq_some hq with ⟨rfl, hp⟩ | hq
          · obtain rfl := Option.some.inj hp
            exact v.spawn j p c.world hs hI
          · exact hwp j q hq
      | step i hp hs =>
          obtain ⟨hI', hG, hp'⟩ := wp_step v.rely_refl v.guar_refl (hwp i _ hp) hI hs
          refine ⟨hI', fun j q hq => ?_⟩
          rcases update_eq_some hq with ⟨rfl, hpq⟩ | hq
          · obtain rfl := Option.some.inj hpq
            exact hp'
          · exact hkeep _ hI' (v.guar_rely _ _ hG) j q hq
      | finish i hp =>
          refine ⟨hI, fun j q hq => ?_⟩
          rcases update_eq_some hq with ⟨rfl, hpq⟩ | hq
          · exact absurd hpq (by simp)
          · exact hwp j q hq
      | env he =>
          obtain ⟨hI', hR⟩ := v.env _ _ hI he
          exact ⟨hI', hkeep _ hI' hR⟩
      | crash hc =>
          exact ⟨v.crash _ _ hI hc, fun i p hp => absurd hp (by simp [Config.idle])⟩

/-- What a move of the scheduler does to the state. -/
theorem move (v : Verified sys w₀ I R G) {c c' : Config S ι W α} (h : Reachable sys w₀ c)
    (hm : Move sys c c') :
    G c.world c'.world ∨ sys.env c.world c'.world ∨ sys.crash c.world c'.world := by
  obtain ⟨hI, hwp⟩ := v.reachable h
  cases hm with
  | start i p hidle hs => exact Or.inl (v.guar_refl _)
  | step i hp hs =>
      exact Or.inl (wp_step v.rely_refl v.guar_refl (hwp i _ hp) hI hs).2.1
  | finish i hp => exact Or.inl (v.guar_refl _)
  | env he => exact Or.inr (Or.inl he)
  | crash hc => exact Or.inr (Or.inr hc)

end Verified

/-! ### Runs whose steps all meet a condition -/

/-- The runs in which every call changes the state only as `P` allows. -/
def System.restrict (sys : System S ι W α) (P : W → W → Prop) : System S ι W α :=
  { sys with handler := fun i w c r w' => sys.handler i w c r w' ∧ P w w' }

omit [DecidableEq ι] in
theorem System.restrict_true (sys : System S ι W α) :
    sys.restrict (fun _ _ => True) = sys := by
  cases sys
  simp [System.restrict]

/-- **A system runs as one of which its parts are the image.** -/
theorem Reachable.simulated {W' : Type} {sys' : System S ι W' α} {c : Config S ι W α}
    (h : Reachable sys w₀ c) (f : W → W')
    (hhandler : ∀ c, Reachable sys w₀ c → ∀ i call r w', sys.handler i c.world call r w' →
      sys'.handler i (f c.world) call r (f w'))
    (hspawn : ∀ i p, sys.spawn i p → sys'.spawn i p)
    (henv : ∀ w w', sys.env w w' → sys'.env (f w) (f w'))
    (hcrash : ∀ w w', sys.crash w w' → sys'.crash (f w) (f w')) :
    Reachable sys' (f w₀) ⟨f c.world, c.prog⟩ := by
  induction h with
  | init => exact Reachable.init
  | @move c c' hc hm ih =>
      refine ih.move ?_
      cases hm with
      | start i p hidle hs => exact Move.start i p hidle (hspawn i p hs)
      | step i hp hs =>
          refine Move.step i hp ?_
          cases hs with
          | call k hH => exact Step.call k (hhandler c hc i _ _ _ hH)
          | loop _ body s k => exact Step.loop _ body s k
      | finish i hp => exact Move.finish i hp
      | env he => exact Move.env (henv _ _ he)
      | crash hcr => exact Move.crash (hcrash _ _ hcr)

/-- The runs in which every answer meets `P`. -/
def System.answering (sys : System S ι W α) (P : W → (c : S.Call) → S.Answer c → W → Prop) :
    System S ι W α :=
  { sys with handler := fun i w c r w' => sys.handler i w c r w' ∧ P w c r w' }

theorem Reachable.of_answering {P : W → (c : S.Call) → S.Answer c → W → Prop}
    {c : Config S ι W α} (h : Reachable (sys.answering P) w₀ c) : Reachable sys w₀ c :=
  h.simulated id (fun _ _ _ _ _ _ hH => hH.1) (fun _ _ hs => hs) (fun _ _ he => he)
    fun _ _ hc => hc

theorem Reachable.of_restrict {P : W → W → Prop} {c : Config S ι W α}
    (h : Reachable (sys.restrict P) w₀ c) : Reachable sys w₀ c :=
  Reachable.of_answering (P := fun w _ _ w' => P w w') h

/--
**The rule for conditioned runs.**  In a verified system a property that every
guaranteed step keeps, provided the step meets the condition, holds in every state
of every run whose steps all meet it.
-/
theorem Verified.restrict_inv {I : W → Prop} {R G : W → W → Prop} (v : Verified sys w₀ I R G)
    {P : W → W → Prop} (J : W → Prop) (hinit : J w₀)
    (hstep : ∀ w w', I w → J w → G w w' → P w w' → J w')
    (henv : ∀ w w', I w → J w → sys.env w w' → J w')
    (hcrash : ∀ w w', I w → J w → sys.crash w w' → J w') {c : Config S ι W α}
    (h : Reachable (sys.restrict P) w₀ c) : J c.world := by
  induction h with
  | init => exact hinit
  | @move c c' hc hm ih =>
      obtain ⟨hI, hwp⟩ := v.reachable hc.of_restrict
      cases hm with
      | start i p hidle hs => exact ih
      | step i hp hs =>
          cases hs with
          | call k hH =>
              obtain ⟨-, hG, -⟩ :=
                wp_step v.rely_refl v.guar_refl (hwp i _ hp) hI (Step.call k hH.1)
              exact hstep _ _ hI ih hG hH.2
          | loop _ body s k => exact ih
      | finish i hp => exact ih
      | env he => exact henv _ _ hI ih he
      | crash hcr => exact hcrash _ _ hI ih hcr

/-- Without a condition: a property that every guaranteed step keeps holds of every run. -/
theorem Verified.inv {I : W → Prop} {R G : W → W → Prop} (v : Verified sys w₀ I R G)
    (J : W → Prop) (hinit : J w₀) (hstep : ∀ w w', I w → J w → G w w' → J w')
    (henv : ∀ w w', I w → J w → sys.env w w' → J w')
    (hcrash : ∀ w w', I w → J w → sys.crash w w' → J w') {c : Config S ι W α}
    (h : Reachable sys w₀ c) : J c.world := by
  rw [← sys.restrict_true] at h
  exact v.restrict_inv J hinit (fun w w' hI hJ hG _ => hstep w w' hI hJ hG) henv hcrash h

/-! ### A single task -/

/--
The programs of a system with a single task have been verified.  Nobody else changes the
state, so there is a rely but no guarantee, and a program that finishes leaves a `Q`.
-/
structure VerifiedSingle (sys : System S ι W α) (w₀ : W) (I : W → Prop) (R : W → W → Prop)
    (Q : α → W → Prop) : Prop where
  rely_refl : ∀ w, R w w
  rely_trans : ∀ w₁ w₂ w₃, R w₁ w₂ → R w₂ w₃ → R w₁ w₃
  init : I w₀
  spawn : ∀ i p w, sys.spawn i p → I w →
    wp (sys.handler i) I R (fun _ _ => True) p Q w
  post : ∀ a w w', Q a w → R w w' → I w' → Q a w'
  env : ∀ w w', I w → sys.env w w' → I w' ∧ R w w'
  crash : ∀ w w', I w → sys.crash w w' → I w'

/-- **The invariant rule for a single task.** -/
theorem VerifiedSingle.reachable [Subsingleton ι] {I : W → Prop} {R : W → W → Prop}
    {Q : α → W → Prop} (v : VerifiedSingle sys w₀ I R Q) {c : Config S ι W α}
    (h : Reachable sys w₀ c) :
    I c.world ∧ ∀ i p, c.prog i = some p →
      wp (sys.handler i) I R (fun _ _ => True) p Q c.world := by
  induction h with
  | init => exact ⟨v.init, fun i p hp => absurd hp (by simp [Config.idle])⟩
  | @move c c' _ hm ih =>
      obtain ⟨hI, hwp⟩ := ih
      cases hm with
      | start i p hidle hs =>
          refine ⟨hI, fun j q hq => ?_⟩
          obtain rfl := Subsingleton.elim i j
          obtain rfl : p = q := by simpa using hq
          exact v.spawn i p c.world hs hI
      | step i hp hs =>
          obtain ⟨hI', -, hp'⟩ := wp_step v.rely_refl (fun _ => trivial) (hwp i _ hp) hI hs
          refine ⟨hI', fun j q hq => ?_⟩
          obtain rfl := Subsingleton.elim i j
          obtain rfl := Option.some.inj ((by simpa using hq) : some _ = some q)
          exact hp'
      | finish i hp =>
          refine ⟨hI, fun j q hq => ?_⟩
          obtain rfl := Subsingleton.elim i j
          exact absurd hq (by simp)
      | env he =>
          obtain ⟨hI', hR⟩ := v.env _ _ hI he
          exact ⟨hI', fun i p hp => wp_stable v.rely_trans v.post (hwp i p hp) hR hI'⟩
      | crash hc =>
          exact ⟨v.crash _ _ hI hc, fun i p hp => absurd hp (by simp [Config.idle])⟩

/-- A program of a verified single task that has finished leaves a `Q`. -/
theorem VerifiedSingle.finished [Subsingleton ι] {I : W → Prop} {R : W → W → Prop}
    {Q : α → W → Prop} (v : VerifiedSingle sys w₀ I R Q) {c : Config S ι W α}
    (h : Reachable sys w₀ c) {i : ι} {a : α} (hp : c.prog i = some (.pure a)) : Q a c.world :=
  (v.reachable h).2 i _ hp

/-! ### Runs inside an interleaving -/

/-- Any number of steps of one program. -/
inductive Steps (H : Handler S W) : W → Prog S α → W → Prog S α → Prop
  | refl (w : W) (p : Prog S α) : Steps H w p w p
  | head {w w₁ w' : W} {p p₁ p' : Prog S α} (h : Step H w p w₁ p₁)
      (ht : Steps H w₁ p₁ w' p') : Steps H w p w' p'

omit [DecidableEq ι]

theorem Steps.trans {H : Handler S W} {w w₁ w' : W} {p p₁ p' : Prog S α}
    (h : Steps H w p w₁ p₁) (h' : Steps H w₁ p₁ w' p') : Steps H w p w' p' := by
  induction h with
  | refl => exact h'
  | head hs _ ih => exact Steps.head hs (ih h')

theorem Step.bind {H : Handler S W} {β : Type} {w w' : W} {p p' : Prog S α}
    (h : Step H w p w' p') (f : α → Prog S β) : Step H w (p.bind f) w' (p'.bind f) := by
  cases h with
  | call k hH => exact Step.call _ hH
  | loop _ body s k =>
      have hagain : ((body s).bind (Prog.again body k)).bind f
          = (body s).bind (Prog.again body fun b => (k b).bind f) := by
        rw [Prog.bind_assoc]
        congr 1
        funext r
        cases r <;> rfl
      rw [hagain]
      exact Step.loop w body s _

theorem Steps.bind {H : Handler S W} {β : Type} {w w' : W} {p p' : Prog S α}
    (h : Steps H w p w' p') (f : α → Prog S β) : Steps H w (p.bind f) w' (p'.bind f) := by
  induction h with
  | refl => exact Steps.refl _ _
  | head hs _ ih => exact Steps.head (hs.bind f) ih

/-- **Soundness of the precondition** for a program that has not finished: where others move
the state along the rely, so much is still promised of what is left. -/
theorem wp_steps_under {H : Handler S W} {I : W → Prop} {R G : W → W → Prop}
    (hR : ∀ w w', I w → R w w' → I w') {w w' : W} {p p' : Prog S α} {Q : α → W → Prop}
    (hs : Steps (H.under R) w p w' p') (hI : I w) (h : wp H I R G p Q w) :
    I w' ∧ wp H I R G p' Q w' := by
  induction hs with
  | refl => exact ⟨hI, h⟩
  | head hstep _ ih =>
      cases hstep with
      | call k hH =>
          obtain ⟨w₁, hmove, hH⟩ := hH
          obtain ⟨hI', -, hk⟩ := h w₁ hmove (hR _ _ hI hmove) _ _ hH
          exact ih hI' hk
      | loop _ body s k =>
          obtain ⟨J, hJ, hs, hbody⟩ := h
          refine ih hI (wp_bind (wp_mono (fun r w' hr => ?_) (hbody s _ hI hs)))
          cases r with
          | inl s' => exact ⟨J, hJ, hr, hbody⟩
          | inr b => exact hr

/-- A run is a sequence of steps to a finished program. -/
theorem Run.steps {H : Handler S W} {w w' : W} {p : Prog S α} {a : α} (h : Run H w p w' a) :
    Steps H w p w' (.pure a) := by
  induction h with
  | pure => exact Steps.refl _ _
  | call hH _ ih => exact Steps.head (Step.call _ hH) ih
  | next _ _ ihb ih =>
      exact Steps.head (Step.loop _ _ _ _) ((ihb.bind _).trans ih)
  | stop _ _ ihb ih =>
      exact Steps.head (Step.loop _ _ _ _) ((ihb.bind _).trans ih)

variable [DecidableEq ι]

/-- A task that takes several steps in a row. -/
theorem Reachable.steps {c : Config S ι W α} (h : Reachable sys w₀ c) {i : ι} :
    ∀ {p p' : Prog S α} {w' : W}, c.prog i = some p →
      Steps (sys.handler i) c.world p w' p' →
      Reachable sys w₀ ⟨w', Function.update c.prog i (some p')⟩ := by
  intro p p' w' hp hs
  generalize hw : c.world = w at hs
  induction hs generalizing c with
  | refl =>
      subst hw
      rw [← hp, Function.update_eq_self]
      exact h
  | @head w w₁ w' p p₁ p' hstep _ ih =>
      subst hw
      have hr := h.move (Move.step i hp hstep)
      have := ih hr (by simp) rfl
      simpa using this

/-- An idle task that starts a program, runs it to the end and is idle again. -/
theorem Reachable.run {c : Config S ι W α} (h : Reachable sys w₀ c) {i : ι} {p : Prog S α}
    {w' : W} {a : α} (hidle : c.prog i = none) (hspawn : sys.spawn i p)
    (hrun : Run (sys.handler i) c.world p w' a) : Reachable sys w₀ ⟨w', c.prog⟩ := by
  have hstart := h.move (Move.start i p hidle hspawn)
  have hsteps := hstart.steps (p := p) (by simp) hrun.steps
  have hfin := hsteps.move (Move.finish i (a := a) (by simp))
  simpa [← hidle] using hfin

end Effect
