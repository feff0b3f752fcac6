/-
Scripts that may fail, and when they cannot.

`Succeeds H p w` says that no run of `p` from `w` ends with an error.  The rules are
equivalences, so they work out exactly what has to hold: of a sequence, of a value computed
without a call, and of a walk along a list, each element of which meets the state that the
elements before it have left.
-/
import SentrixIndexer.Effect.Script

namespace Effect

variable {S : Signature} {W V α β ε : Type} {H : Handler S W}

/-- No run of the script ends with an error. -/
def Succeeds (H : Handler S W) (p : ExceptT ε (Script S) α) (w : W) : Prop :=
  ∀ w' r, Run H w p.run.toProg w' r → ∃ a, r = .ok a

/-- A run of a sequence runs both parts, or ends with an error of the first. -/
theorem run_scriptE_bind {p : ExceptT ε (Script S) α} {f : α → ExceptT ε (Script S) β}
    {w w' : W} {r : Except ε β} :
    Run H w (p >>= f).run.toProg w' r ↔
      (∃ w₁ a, Run H w p.run.toProg w₁ (.ok a) ∧ Run H w₁ (f a).run.toProg w' r) ∨
      (∃ e, Run H w p.run.toProg w' (.error e) ∧ r = .error e) := by
  have hbind : Run H w (Script.toProgE p >>= fun a => Script.toProgE (f a)).run w' r ↔ _ :=
    run_bindE
  rw [← Script.toProgE_bind] at hbind
  exact hbind

theorem run_script_pure {a b : α} {w w' : W} :
    Run H w (Pure.pure a : ExceptT ε (Script S) α).run.toProg w' (.ok b) ↔ w' = w ∧ b = a := by
  show Run H w (Prog.pure (Except.ok a)) w' (Except.ok b) ↔ _
  rw [run_pure, Except.ok.injEq]

/-- A call that cannot fail. -/
theorem run_liftAsk {c : S.Call} {r : Except ε (S.Answer c)} {w w' : W} :
    Run H w (ExceptT.lift (Script.ask c) : ExceptT ε (Script S) _).run.toProg w' r ↔
      ∃ a, H w c a w' ∧ r = .ok a := by
  show Run H w (.call c fun a => .pure (.ok a)) w' r ↔ _
  rw [run_call]
  constructor
  · rintro ⟨a, w₁, hH, hk⟩
    obtain ⟨rfl, rfl⟩ := run_pure.mp hk
    exact ⟨a, hH, rfl⟩
  · rintro ⟨a, hH, rfl⟩
    exact ⟨a, w', hH, Run.pure _ _⟩

/-- A result that is looked at. -/
theorem run_liftRun {p : ExceptT ε (Script S) α} {r : Except ε (Except ε α)} {w w' : W} :
    Run H w (ExceptT.lift p.run : ExceptT ε (Script S) (Except ε α)).run.toProg w' r ↔
      ∃ x, Run H w p.run.toProg w' x ∧ r = .ok x := by
  show Run H w (p.run.bind fun x => .pure (.ok x)).toProg w' r ↔ _
  rw [Script.toProg_bind, run_bind]
  constructor
  · rintro ⟨w₁, x, hx, hk⟩
    obtain ⟨rfl, rfl⟩ := run_pure.mp hk
    exact ⟨x, hx, rfl⟩
  · rintro ⟨x, hx, rfl⟩
    exact ⟨w', x, hx, Run.pure _ _⟩

/-! ### When a script cannot fail -/

theorem succeeds_pure (a : α) (w : W) :
    Succeeds H (Pure.pure a : ExceptT ε (Script S) α) w := by
  intro w' r hrun
  exact ⟨a, (run_pure.mp hrun).2⟩

theorem succeeds_liftAsk (c : S.Call) (w : W) :
    Succeeds H (ExceptT.lift (Script.ask c) : ExceptT ε (Script S) _) w := by
  intro w' r hrun
  obtain ⟨a, -, rfl⟩ := run_liftAsk.mp hrun
  exact ⟨a, rfl⟩

theorem succeeds_liftRun (p : ExceptT ε (Script S) α) (w : W) :
    Succeeds H (ExceptT.lift p.run : ExceptT ε (Script S) (Except ε α)) w := by
  intro w' r hrun
  obtain ⟨x, -, rfl⟩ := run_liftRun.mp hrun
  exact ⟨x, rfl⟩

/-- **A sequence succeeds** when its first part does, and the second after it. -/
theorem succeeds_bind {p : ExceptT ε (Script S) α} {f : α → ExceptT ε (Script S) β} {w : W} :
    Succeeds H (p >>= f) w ↔
      Succeeds H p w ∧ ∀ w₁ a, Run H w p.run.toProg w₁ (.ok a) → Succeeds H (f a) w₁ := by
  constructor
  · refine fun h => ⟨fun w' r hrun => ?_, fun w₁ a hp w' r hf => ?_⟩
    · cases r with
      | ok a => exact ⟨a, rfl⟩
      | error e =>
          obtain ⟨b, hb⟩ := h w' (.error e) (run_scriptE_bind.mpr (Or.inr ⟨e, hrun, rfl⟩))
          exact absurd hb (by simp)
    · exact h w' r (run_scriptE_bind.mpr (Or.inl ⟨w₁, a, hp, hf⟩))
  · rintro ⟨hp, hf⟩ w' r hrun
    rcases run_scriptE_bind.mp hrun with ⟨w₁, a, ha, hk⟩ | ⟨e, he, rfl⟩
    · exact hf w₁ a ha w' r hk
    · obtain ⟨a, ha⟩ := hp w' _ he
      exact absurd ha (by simp)

/-- A value computed without a call, and what follows. -/
theorem succeeds_computed {x : Except ε α} {f : α → ExceptT ε (Script S) β} {w : W} :
    Succeeds H (ExceptT.mk (Script.pure x) >>= f) w ↔ ∃ a, x = .ok a ∧ Succeeds H (f a) w := by
  rw [succeeds_bind]
  constructor
  · rintro ⟨hx, hf⟩
    obtain ⟨a, rfl⟩ := hx w x (Run.pure _ _)
    exact ⟨a, rfl, hf w a (Run.pure _ _)⟩
  · rintro ⟨a, rfl, hf⟩
    refine ⟨fun w' r hrun => ⟨a, (run_pure.mp hrun).2⟩, fun w₁ b hrun => ?_⟩
    obtain ⟨rfl, hb⟩ := run_pure.mp hrun
    rwa [Except.ok.inj hb]

/-- **A walk along a list succeeds** when every element does in each state that the elements
before it may leave. -/
theorem succeeds_walk (walk : List V → ExceptT ε (Script S) Unit)
    {step : V → ExceptT ε (Script S) Unit} (hnil : walk [] = Pure.pure ())
    (hcons : ∀ v rest, walk (v :: rest) = step v >>= fun _ => walk rest) {vs : List V} :
    ∀ {w : W}, Succeeds H (walk vs) w ↔ ∀ before v after, vs = before ++ v :: after →
      ∀ w₁, Run H w (walk before).run.toProg w₁ (.ok ()) → Succeeds H (step v) w₁ := by
  induction vs with
  | nil =>
      intro w
      rw [hnil]
      exact ⟨fun _ before v after hvs => absurd hvs (by simp), fun _ => succeeds_pure _ _⟩
  | cons v rest ih =>
      intro w
      rw [hcons, succeeds_bind]
      constructor
      · rintro ⟨hv, hrest⟩ before v' after hvs w₁ hrun
        rcases before with _ | ⟨v₀, before⟩
        · obtain ⟨rfl, -⟩ := List.cons.inj hvs
          rw [hnil] at hrun
          obtain ⟨rfl, -⟩ := run_script_pure.mp hrun
          exact hv
        · obtain ⟨rfl, rfl⟩ := List.cons.inj hvs
          rw [hcons] at hrun
          rcases run_scriptE_bind.mp hrun with ⟨w₂, u, hstep, hbefore⟩ | ⟨e, -, he⟩
          · exact ih.mp (hrest w₂ u hstep) before v' after rfl w₁ hbefore
          · exact absurd he (by simp)
      · intro h
        have hstart : Run H w (walk []).run.toProg w (.ok ()) := by
          rw [hnil]
          exact Run.pure _ _
        refine ⟨h [] v rest rfl w hstart, fun w₁ u hstep => ih.mpr ?_⟩
        intro before v' after hvs w₂ hrun
        refine h (v :: before) v' after (by rw [hvs]; rfl) w₂ ?_
        rw [hcons]
        exact run_scriptE_bind.mpr (Or.inl ⟨w₁, u, hstep, hrun⟩)

end Effect
