/-
Programs that talk to their surroundings.

A `Prog S α` is a program as a scheduler sees it: it has finished with a value, or
it waits for the answer to one call and goes on from that answer, or it runs a
loop body again and again until the body says to stop.  Everything between two
calls is one atomic piece of pure computation.  A call is where an asynchronous
program awaits, so this is exactly the granularity at which tasks interleave.

What a call does is not part of the program.  A `Handler` says which answers the
surroundings may give in which state and what state they leave; it is a relation,
so failures, delays and everything else the program cannot predict are answers
like any other.
-/
import Mathlib.Logic.Relation

namespace Effect

/-- The calls a program may make, and what each is answered with. -/
structure Signature where
  Call : Type
  Answer : Call → Type

/-- Programs over a signature. -/
inductive Prog (S : Signature) : Type → Type 1
  /-- The program has finished. -/
  | pure {α : Type} (a : α) : Prog S α
  /-- The program waits for an answer. -/
  | call {α : Type} (c : S.Call) (k : S.Answer c → Prog S α) : Prog S α
  /-- `body` runs from `s`; on `inl` it runs again, on `inr` the loop is left. -/
  | loop {σ β α : Type} (body : σ → Prog S (σ ⊕ β)) (s : σ) (k : β → Prog S α) : Prog S α

namespace Prog

variable {S : Signature} {α β γ σ : Type}

/-- Run `p`, then go on with its value. -/
def bind : Prog S α → (α → Prog S β) → Prog S β
  | .pure a, f => f a
  | .call c k, f => .call c fun r => (k r).bind f
  | .loop body s k, f => .loop body s fun b => (k b).bind f

instance : Monad (Prog S) where
  pure := .pure
  bind := Prog.bind

@[simp] theorem pure_eq (a : α) : (Pure.pure a : Prog S α) = .pure a := rfl

@[simp] theorem bind_eq (p : Prog S α) (f : α → Prog S β) : p >>= f = p.bind f := rfl

@[simp] theorem pure_bind (a : α) (f : α → Prog S β) : (Prog.pure a).bind f = f a := rfl

@[simp] theorem call_bind (c : S.Call) (k : S.Answer c → Prog S α) (f : α → Prog S β) :
    (Prog.call c k).bind f = .call c fun r => (k r).bind f := rfl

theorem bind_pure (p : Prog S α) : p.bind Prog.pure = p := by
  induction p with
  | pure a => rfl
  | call c k ih => simp only [bind, ih]
  | loop body s k _ ih => simp only [bind, ih]

theorem bind_assoc (p : Prog S α) (f : α → Prog S β) (g : β → Prog S γ) :
    (p.bind f).bind g = p.bind fun a => (f a).bind g := by
  induction p with
  | pure a => rfl
  | call c k ih => simp only [bind, ih]
  | loop body s k _ ih => simp only [bind, ih]

/-- One call, its answer returned. -/
def ask (c : S.Call) : Prog S (S.Answer c) := .call c .pure

/-- Run `body` from `s` until it says to stop. -/
def iterate (body : σ → Prog S (σ ⊕ α)) (s : σ) : Prog S α := .loop body s .pure

/-- What follows one pass through a loop body. -/
def again (body : σ → Prog S (σ ⊕ β)) (k : β → Prog S α) : σ ⊕ β → Prog S α
  | .inl s => .loop body s k
  | .inr b => k b

end Prog

/-! ### Running a program -/

/-- `H w c r w'`: in state `w` the call `c` may be answered `r`, leaving `w'`. -/
abbrev Handler (S : Signature) (W : Type) := W → (c : S.Call) → S.Answer c → W → Prop

variable {S : Signature} {W α β σ : Type} {H : Handler S W}

/-- One step of a program: a call is answered, or a loop starts its next pass. -/
inductive Step (H : Handler S W) : {α : Type} → W → Prog S α → W → Prog S α → Prop
  | call {α : Type} {w w' : W} {c : S.Call} {r : S.Answer c} (k : S.Answer c → Prog S α)
      (h : H w c r w') : Step H w (.call c k) w' (k r)
  | loop {σ β α : Type} (w : W) (body : σ → Prog S (σ ⊕ β)) (s : σ) (k : β → Prog S α) :
      Step H w (.loop body s k) w ((body s).bind (Prog.again body k))

/-- The program runs from `w` to completion, leaving `w'` and the value `a`. -/
inductive Run (H : Handler S W) : {α : Type} → W → Prog S α → W → α → Prop
  | pure {α : Type} (w : W) (a : α) : Run H w (.pure a) w a
  | call {α : Type} {w w₁ w' : W} {c : S.Call} {r : S.Answer c} {k : S.Answer c → Prog S α}
      {a : α} (h : H w c r w₁) (hk : Run H w₁ (k r) w' a) : Run H w (.call c k) w' a
  | next {σ β α : Type} {w w₁ w' : W} {body : σ → Prog S (σ ⊕ β)} {s s' : σ}
      {k : β → Prog S α} {a : α} (h : Run H w (body s) w₁ (.inl s'))
      (hk : Run H w₁ (.loop body s' k) w' a) : Run H w (.loop body s k) w' a
  | stop {σ β α : Type} {w w₁ w' : W} {body : σ → Prog S (σ ⊕ β)} {s : σ} {b : β}
      {k : β → Prog S α} {a : α} (h : Run H w (body s) w₁ (.inr b))
      (hk : Run H w₁ (k b) w' a) : Run H w (.loop body s k) w' a

@[simp] theorem run_pure {w w' : W} {a b : α} :
    Run H w (.pure a) w' b ↔ w' = w ∧ b = a := by
  constructor
  · intro h; cases h; exact ⟨rfl, rfl⟩
  · rintro ⟨rfl, rfl⟩; exact Run.pure _ _

theorem run_call {w w' : W} {c : S.Call} {k : S.Answer c → Prog S α} {a : α} :
    Run H w (.call c k) w' a ↔ ∃ r w₁, H w c r w₁ ∧ Run H w₁ (k r) w' a := by
  constructor
  · intro h; cases h with | call h hk => exact ⟨_, _, h, hk⟩
  · rintro ⟨r, w₁, h, hk⟩; exact Run.call h hk

theorem run_ask {w w' : W} {c : S.Call} {r : S.Answer c} :
    Run H w (Prog.ask c) w' r ↔ H w c r w' := by
  rw [Prog.ask, run_call]
  constructor
  · rintro ⟨r', w₁, h, hk⟩
    obtain ⟨rfl, rfl⟩ := run_pure.mp hk
    exact h
  · exact fun h => ⟨r, w', h, Run.pure _ _⟩

/-- **A run of a sequence is a run of each part.** -/
theorem run_bind {p : Prog S α} {f : α → Prog S β} {w w' : W} {b : β} :
    Run H w (p.bind f) w' b ↔ ∃ w₁ a, Run H w p w₁ a ∧ Run H w₁ (f a) w' b := by
  constructor
  · intro h
    induction p generalizing w with
    | pure a => exact ⟨w, a, Run.pure _ _, h⟩
    | call c k ih =>
        obtain ⟨r, w₁, hc, hk⟩ := run_call.mp h
        obtain ⟨w₂, a, hp, hf⟩ := ih r hk
        exact ⟨w₂, a, Run.call hc hp, hf⟩
    | loop body s k ihb ih =>
        -- The loop's own passes come first; induct on how many of them the run makes.
        clear ihb
        generalize hq : (Prog.loop body s k).bind f = q at h
        induction h generalizing s with
        | pure => exact absurd hq (by simp [Prog.bind])
        | call => exact absurd hq (by simp [Prog.bind])
        | @next σ' β' α' w w₁ w' body' s₀ s' k' a h hk _ ihk =>
            simp only [Prog.bind] at hq
            cases hq
            obtain ⟨w₂, a', hp, hf⟩ := ihk s' ih rfl
            exact ⟨w₂, a', Run.next h hp, hf⟩
        | @stop σ' β' α' w w₁ w' body' s₀ b₀ k' a h hk _ _ =>
            simp only [Prog.bind] at hq
            cases hq
            obtain ⟨w₂, a', hp, hf⟩ := ih b₀ hk
            exact ⟨w₂, a', Run.stop h hp, hf⟩
  · rintro ⟨w₁, a, hp, hf⟩
    induction hp with
    | pure => exact hf
    | call h _ ih => exact Run.call h (ih hf)
    | next h _ _ ih => exact Run.next h (ih hf)
    | stop h _ _ ih => exact Run.stop h (ih hf)

/-- Surroundings that answer in more ways have more runs. -/
theorem Run.mono {H' : Handler S W} (hH : ∀ w c r w', H w c r w' → H' w c r w') {w w' : W}
    {p : Prog S α} {a : α} (h : Run H w p w' a) : Run H' w p w' a := by
  induction h with
  | pure => exact Run.pure _ _
  | call h _ ih => exact Run.call (hH _ _ _ _ h) ih
  | next _ _ ihb ih => exact Run.next ihb ih
  | stop _ _ ihb ih => exact Run.stop ihb ih

/-- **What every answer keeps, a run keeps.** -/
theorem Run.inv {I : W → Prop} (hI : ∀ w c r w', I w → H w c r w' → I w') {w w' : W}
    {p : Prog S α} {a : α} (h : Run H w p w' a) (hw : I w) : I w' := by
  induction h with
  | pure => exact hw
  | call h _ ih => exact ih (hI _ _ _ _ hw h)
  | next _ _ ihb ih => exact ih (ihb hw)
  | stop _ _ ihb ih => exact ih (ihb hw)

/-- The surroundings when other tasks may move the state along `R` before each call. -/
def Handler.under (H : Handler S W) (R : W → W → Prop) : Handler S W :=
  fun w c r w' => ∃ w₁, R w w₁ ∧ H w₁ c r w'

/-- The heads of a loop: where it can stand between two passes. -/
inductive Passes (H : Handler S W) (body : σ → Prog S (σ ⊕ β)) : W → σ → W → σ → Prop
  | refl (w : W) (s : σ) : Passes H body w s w s
  | pass {w w₁ w' : W} {s s₁ s' : σ} (h : Passes H body w s w₁ s₁)
      (hp : Run H w₁ (body s₁) w' (.inl s')) : Passes H body w s w' s'

end Effect
