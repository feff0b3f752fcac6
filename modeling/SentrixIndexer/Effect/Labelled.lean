/-
Runs of labelled steps.

A transition system whose steps say what they do.  The label is what a condition on a
run speaks about: `RunOf step P s₀` are the states reached from `s₀` by steps that all
meet the condition `P`, which sees the state before the step and the label.

The moves of a system of tasks are labelled by the call they answer.  `MayCall` is what
can be said of a task that stands somewhere in its program: which calls it may still
come to before it makes one of another kind.
-/
import SentrixIndexer.Effect.Tasks

namespace Effect

section Runs

variable {σ ι : Type*}

/-- The states reached from `s₀` by steps that meet `P`. -/
inductive RunOf (step : σ → ι → σ → Prop) (P : σ → ι → Prop) (s₀ : σ) : σ → Prop
  | init : RunOf step P s₀ s₀
  | next {s s' : σ} {a : ι} (h : RunOf step P s₀ s) (hs : step s a s') (hP : P s a) :
      RunOf step P s₀ s'

/-- Every run. -/
abbrev Reaches (step : σ → ι → σ → Prop) (s₀ : σ) : σ → Prop := RunOf step (fun _ _ => True) s₀

variable {step : σ → ι → σ → Prop} {P : σ → ι → Prop} {s₀ s : σ}

/-- **The invariant rule for conditioned runs.** -/
theorem RunOf.inv (J : σ → Prop) (hinit : J s₀)
    (hstep : ∀ s a s', J s → step s a s' → P s a → J s') (h : RunOf step P s₀ s) : J s := by
  induction h with
  | init => exact hinit
  | next _ hs hP ih => exact hstep _ _ _ ih hs hP

end Runs

/-! ### The moves of a system of tasks -/

variable {S : Signature} {ι W α : Type}

/-- What a move does, as far as a condition on it may see. -/
inductive Label (S : Signature) (ι : Type)
  | silent
  /-- The task's call is answered. -/
  | call (i : ι) (c : S.Call)

variable [DecidableEq ι]

/-- The moves of the scheduler, labelled. -/
inductive LabelledMove (sys : System S ι W α) :
    Config S ι W α → Label S ι → Config S ι W α → Prop
  | start {c : Config S ι W α} (i : ι) (p : Prog S α) (hidle : c.prog i = none)
      (h : sys.spawn i p) : LabelledMove sys c .silent ⟨c.world, Function.update c.prog i (some p)⟩
  | call {c : Config S ι W α} (i : ι) {call : S.Call} {k : S.Answer call → Prog S α}
      {r : S.Answer call} {w' : W} (hp : c.prog i = some (.call call k))
      (h : sys.handler i c.world call r w') :
      LabelledMove sys c (.call i call) ⟨w', Function.update c.prog i (some (k r))⟩
  | loop {c : Config S ι W α} (i : ι) {σ β : Type} {body : σ → Prog S (σ ⊕ β)} {s : σ}
      {k : β → Prog S α} (hp : c.prog i = some (.loop body s k)) :
      LabelledMove sys c .silent
        ⟨c.world, Function.update c.prog i (some ((body s).bind (Prog.again body k)))⟩
  | finish {c : Config S ι W α} (i : ι) {a : α} (hp : c.prog i = some (.pure a)) :
      LabelledMove sys c .silent ⟨c.world, Function.update c.prog i none⟩
  | env {c : Config S ι W α} {w' : W} (h : sys.env c.world w') :
      LabelledMove sys c .silent ⟨w', c.prog⟩
  | crash {c : Config S ι W α} {w' : W} (h : sys.crash c.world w') :
      LabelledMove sys c .silent (.idle w')

/-- Every move has a label. -/
theorem Move.labelled {sys : System S ι W α} {c c' : Config S ι W α} (h : Move sys c c') :
    ∃ l, LabelledMove sys c l c' := by
  cases h with
  | start i p hidle hs => exact ⟨_, .start i p hidle hs⟩
  | step i hp hs =>
      cases hs with
      | call k hH => exact ⟨_, .call i hp hH⟩
      | loop _ body s k => exact ⟨_, .loop i hp⟩
  | finish i hp => exact ⟨_, .finish i hp⟩
  | env he => exact ⟨_, .env he⟩
  | crash hc => exact ⟨_, .crash hc⟩

/-- Every reachable configuration is one of some labelled run. -/
theorem Reachable.reaches {sys : System S ι W α} {w₀ : W} {c : Config S ι W α}
    (h : Reachable sys w₀ c) : Reaches (LabelledMove sys) (.idle w₀) c := by
  induction h with
  | init => exact .init
  | move _ hm ih =>
      obtain ⟨l, hl⟩ := hm.labelled
      exact ih.next hl trivial

/-- A task that takes several steps in a row, through calls that meet the condition. -/
theorem RunOf.steps {sys : System S ι W α} {P : Config S ι W α → Label S ι → Prop} {w₀ : W}
    {i : ι} {H : Handler S W} {c : Config S ι W α}
    (h : RunOf (LabelledMove sys) P (.idle w₀) c) (hsilent : ∀ c, P c .silent)
    (hH : ∀ w call r w', H w call r w' → sys.handler i w call r w' ∧
      ∀ p, P ⟨w, Function.update c.prog i (some p)⟩ (.call i call)) :
    ∀ {p p' : Prog S α} {w' : W}, c.prog i = some p → Steps H c.world p w' p' →
      RunOf (LabelledMove sys) P (.idle w₀) ⟨w', Function.update c.prog i (some p')⟩ := by
  intro p p' w' hp hs
  generalize hw : c.world = w at hs
  induction hs generalizing c with
  | refl =>
      subst hw
      rw [← hp, Function.update_eq_self]
      exact h
  | @head w w₁ w' p p₁ p' hstep _ ih =>
      subst hw
      have hself : Function.update c.prog i (some p) = c.prog := by
        rw [← hp, Function.update_eq_self]
      have hr : RunOf (LabelledMove sys) P (.idle w₀)
          ⟨w₁, Function.update c.prog i (some p₁)⟩ := by
        cases hstep with
        | call k hcall =>
            obtain ⟨hhandler, hcond⟩ := hH _ _ _ _ hcall
            have hhere := hcond (.call _ k)
            rw [hself] at hhere
            exact h.next (.call i hp hhandler) hhere
        | loop _ body s k => exact h.next (.loop i hp) (hsilent c)
      have hrest := ih hr (fun w call r w' hcall => ?_) (by simp) rfl
      · simpa using hrest
      · obtain ⟨hhandler, hcond⟩ := hH w call r w' hcall
        exact ⟨hhandler, fun q => by simpa using hcond q⟩

/-! ### What a program may still do -/

/-- The program may come to a call that `B` picks before it makes one that `stop` picks. -/
inductive MayCall (H : Handler S W) (stop B : S.Call → Prop) : Prog S α → Prop
  | here {c : S.Call} {k : S.Answer c → Prog S α} (hB : B c) : MayCall H stop B (.call c k)
  | later {c : S.Call} {k : S.Answer c → Prog S α} {w w' : W} {r : S.Answer c}
      (hstop : ¬ stop c) (hH : H w c r w') (h : MayCall H stop B (k r)) :
      MayCall H stop B (.call c k)
  | loop {σ β : Type} {body : σ → Prog S (σ ⊕ β)} {s : σ} {k : β → Prog S α}
      (h : MayCall H stop B ((body s).bind (Prog.again body k))) :
      MayCall H stop B (.loop body s k)

theorem MayCall.mono {H : Handler S W} {stop B B' : S.Call → Prop} (hB : ∀ c, B c → B' c)
    {p : Prog S α} (h : MayCall H stop B p) : MayCall H stop B' p := by
  induction h with
  | here hb => exact .here (hB _ hb)
  | later hstop hH _ ih => exact .later hstop hH ih
  | loop _ ih => exact .loop ih

end Effect
