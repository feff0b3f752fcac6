/-
Running a program against fixed surroundings.

When each call has one answer, a program can be executed.  The interpreter stops when
its fuel does; a run it completes is a run of the relation (`exec_run`), so a claim
that some run exists is settled by evaluation.  A program can also be stopped after a
number of steps and left where it stands (`advanceN_steps`), which is what it takes to
exhibit an interleaving.
-/
import SentrixIndexer.Effect.Tasks

namespace Effect

variable {S : Signature} {W : Type}

/-- Surroundings with one answer to each call, and the state it leaves. -/
abbrev Server (S : Signature) (W : Type) := W → (c : S.Call) → S.Answer c × W

/-- The surroundings as an answer relation. -/
def Server.toHandler (serve : Server S W) : Handler S W := fun w c r w' => (r, w') = serve w c

/-- Run a program for at most `fuel` steps in a row, as long as `ok` passes each call. -/
def execWhile (ok : W → S.Call → Bool) (serve : Server S W) :
    Nat → {α : Type} → W → Prog S α → Option (W × α)
  | 0, _, _, _ => none
  | _ + 1, _, w, .pure a => some (w, a)
  | fuel + 1, _, w, .call c k =>
      if ok w c then execWhile ok serve fuel (serve w c).2 (k (serve w c).1) else none
  | fuel + 1, _, w, .loop body s k =>
      match execWhile ok serve fuel w (body s) with
      | none => none
      | some (w', .inl s') => execWhile ok serve fuel w' (.loop body s' k)
      | some (w', .inr b) => execWhile ok serve fuel w' (k b)

/-- Run a program for at most `fuel` steps in a row. -/
def exec (serve : Server S W) (fuel : Nat) {α : Type} (w : W) (p : Prog S α) :
    Option (W × α) :=
  execWhile (fun _ _ => true) serve fuel w p

/-- **An execution is a run.** -/
theorem execWhile_run {H : Handler S W} {ok : W → S.Call → Bool} {serve : Server S W}
    (hserve : ∀ w c, ok w c = true → H w c (serve w c).1 (serve w c).2) (fuel : Nat) :
    ∀ {α : Type} {w w' : W} {p : Prog S α} {a : α},
      execWhile ok serve fuel w p = some (w', a) → Run H w p w' a := by
  induction fuel with
  | zero => intro α w w' p a h; exact absurd h (by simp [execWhile])
  | succ fuel ih =>
      intro α w w' p a h
      cases p with
      | pure b =>
          obtain ⟨rfl, rfl⟩ := Prod.mk.inj (Option.some.inj h)
          exact Run.pure _ _
      | call c k =>
          unfold execWhile at h
          by_cases hok : ok w c = true
          · rw [if_pos hok] at h
            exact Run.call (hserve w c hok) (ih h)
          · rw [if_neg hok] at h
            exact absurd h (by simp)
      | loop body s k =>
          unfold execWhile at h
          rcases hb : execWhile ok serve fuel w (body s) with _ | ⟨w₁, s' | b⟩
          · rw [hb] at h
            exact absurd h (by simp)
          · rw [hb] at h
            exact Run.next (ih hb) (ih h)
          · rw [hb] at h
            exact Run.stop (ih hb) (ih h)

/-- An execution whose end passes a check is a run to such an end. -/
theorem exists_run_of_execWhile {H : Handler S W} {ok : W → S.Call → Bool} {serve : Server S W}
    (hserve : ∀ w c, ok w c = true → H w c (serve w c).1 (serve w c).2) (fuel : Nat) {α : Type}
    (w : W) (p : Prog S α) (check : W × α → Bool)
    (h : (execWhile ok serve fuel w p).any check = true) :
    ∃ w' a, Run H w p w' a ∧ check (w', a) = true := by
  rcases he : execWhile ok serve fuel w p with _ | ⟨w', a⟩
  · rw [he] at h
    exact absurd h (by simp)
  · rw [he] at h
    exact ⟨w', a, execWhile_run hserve fuel he, h⟩

/-! ### Some steps of a program -/

/-- The value of a program that has finished. -/
def Prog.result? {α : Type} : Prog S α → Option α
  | .pure a => some a
  | _ => none

theorem Prog.eq_pure_of_result? {α : Type} {p : Prog S α} {a : α} (h : p.result? = some a) :
    p = .pure a := by
  cases p with
  | pure b => rw [Option.some.inj h]
  | call c k => exact absurd h (by simp [Prog.result?])
  | loop body s k => exact absurd h (by simp [Prog.result?])

/-- One step, if the program has not finished. -/
def advance (serve : Server S W) {α : Type} : W × Prog S α → W × Prog S α
  | (w, .pure a) => (w, .pure a)
  | (w, .call c k) => ((serve w c).2, k (serve w c).1)
  | (w, .loop body s k) => (w, (body s).bind (Prog.again body k))

/-- So many steps. -/
def advanceN (serve : Server S W) {α : Type} : Nat → W × Prog S α → W × Prog S α
  | 0, x => x
  | n + 1, x => advanceN serve n (advance serve x)

theorem advanceN_steps {H : Handler S W} {serve : Server S W}
    (hserve : ∀ w c, H w c (serve w c).1 (serve w c).2) {α : Type} (n : Nat) :
    ∀ w (p : Prog S α),
      Steps H w p (advanceN serve n (w, p)).1 (advanceN serve n (w, p)).2 := by
  induction n with
  | zero => intro w p; exact Steps.refl _ _
  | succ n ih =>
      intro w p
      cases p with
      | pure a => exact ih w (.pure a)
      | call c k => exact Steps.head (Step.call k (hserve w c)) (ih _ _)
      | loop body s k => exact Steps.head (Step.loop w body s k) (ih _ _)

/-- The next step is no call, or one that passes. -/
def passes (ok : W → S.Call → Bool) {α : Type} : W × Prog S α → Bool
  | (w, .call c _) => ok w c
  | _ => true

/-- So many steps, as long as `ok` passes each call. -/
def advanceWhile (ok : W → S.Call → Bool) (serve : Server S W) {α : Type} :
    Nat → W × Prog S α → Option (W × Prog S α)
  | 0, x => some x
  | n + 1, x => if passes ok x then advanceWhile ok serve n (advance serve x) else none

theorem advanceWhile_steps {H : Handler S W} {ok : W → S.Call → Bool} {serve : Server S W}
    (hserve : ∀ w c, ok w c = true → H w c (serve w c).1 (serve w c).2) {α : Type} (n : Nat) :
    ∀ {w w' : W} {p p' : Prog S α}, advanceWhile ok serve n (w, p) = some (w', p') →
      Steps H w p w' p' := by
  induction n with
  | zero =>
      intro w w' p p' h
      obtain ⟨rfl, rfl⟩ := Prod.mk.inj (Option.some.inj h)
      exact Steps.refl _ _
  | succ n ih =>
      intro w w' p p' h
      unfold advanceWhile at h
      by_cases hok : passes ok (w, p) = true
      · rw [if_pos hok] at h
        cases p with
        | pure a => exact ih h
        | call c k => exact Steps.head (Step.call k (hserve w c hok)) (ih h)
        | loop body s k => exact Steps.head (Step.loop w body s k) (ih h)
      · rw [if_neg hok] at h
        exact absurd h (by simp)

end Effect
