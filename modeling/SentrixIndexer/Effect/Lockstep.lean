/-
Programs that cannot tell answers apart.

Two scripts run in lockstep if they make the same calls for as long as their answers look
alike, and come to values that belong together.  A script in lockstep with itself takes
nothing from an answer but what all answers alike to it share.

What a system of such scripts does is therefore the same whichever of the answers it is
given: if the surroundings can give the other answers as well, every run has a counterpart
in which they do (`Reachable.lockstep`).
-/
import SentrixIndexer.Effect.Script
import SentrixIndexer.Effect.Tasks

namespace Effect

section Scripts

variable {S T : Signature} {α β γ δ : Type}

/-- The same calls as long as the answers look alike by `A`, then values related by `Q`. -/
inductive Lockstep (A : (c : S.Call) → S.Answer c → S.Answer c → Prop) (Q : α → β → Prop) :
    Script S α → Script S β → Prop
  | pure {a : α} {b : β} (h : Q a b) : Lockstep A Q (.pure a) (.pure b)
  | call {c : S.Call} {k : S.Answer c → Script S α} {k' : S.Answer c → Script S β}
      (h : ∀ r r', A c r r' → Lockstep A Q (k r) (k' r')) : Lockstep A Q (.call c k) (.call c k')

namespace Lockstep

variable {A : (c : S.Call) → S.Answer c → S.Answer c → Prop} {Q : α → β → Prop}

theorem ask (c : S.Call) : Lockstep A (A c) (Script.ask c) (Script.ask c) :=
  .call fun _ _ h => .pure h

theorem mono {Q' : α → β → Prop} (hQ : ∀ a b, Q a b → Q' a b) {p : Script S α} {q : Script S β}
    (h : Lockstep A Q p q) : Lockstep A Q' p q := by
  induction h with
  | pure hab => exact .pure (hQ _ _ hab)
  | call _ ih => exact .call ih

/-- Sequencing. -/
theorem bind {Q' : γ → δ → Prop} {p : Script S α} {q : Script S β} {f : α → Script S γ}
    {g : β → Script S δ} (h : Lockstep A Q p q)
    (hfg : ∀ a b, Q a b → Lockstep A Q' (f a) (g b)) : Lockstep A Q' (p >>= f) (q >>= g) := by
  show Lockstep A Q' (p.bind f) (q.bind g)
  induction h with
  | pure hab => exact hfg _ _ hab
  | call _ ih => exact .call ih

/-- A script over another signature, where the scripts of its calls are in lockstep. -/
theorem via {B : (c : T.Call) → T.Answer c → T.Answer c → Prop}
    {f : (c : S.Call) → Script T (S.Answer c)} (hf : ∀ c, Lockstep B (A c) (f c) (f c))
    {p : Script S α} {q : Script S β} (h : Lockstep A Q p q) :
    Lockstep B Q (p.via f) (q.via f) := by
  induction h with
  | pure hab => exact .pure hab
  | call _ ih => exact (hf _).bind ih

end Lockstep

end Scripts

/-! ### Systems of scripts -/

variable {S : Signature} {ι W α : Type} [DecidableEq ι]
variable {A : (c : S.Call) → S.Answer c → S.Answer c → Prop} {E : W → W → Prop}

/-- Two programs are scripts in lockstep, or there is neither. -/
inductive Abreast (A : (c : S.Call) → S.Answer c → S.Answer c → Prop) :
    Option (Prog S α) → Option (Prog S α) → Prop
  | idle : Abreast A none none
  | scripts {p q : Script S α} (h : Lockstep A Eq p q) :
      Abreast A (some p.toProg) (some q.toProg)

/-- The tasks of one configuration are abreast of those of the other. -/
structure Config.Abreast (A : (c : S.Call) → S.Answer c → S.Answer c → Prop)
    (E : W → W → Prop) (c c' : Config S ι W α) : Prop where
  world : E c.world c'.world
  prog : ∀ i, Effect.Abreast A (c.prog i) (c'.prog i)

/-- One task moves on, the others stay abreast. -/
theorem Config.Abreast.update {c c' : Config S ι W α} (h : c.Abreast A E c') {w w' : W}
    (hE : E w w') (i : ι) {p q : Option (Prog S α)} (hpq : Effect.Abreast A p q) :
    Config.Abreast A E ⟨w, Function.update c.prog i p⟩ ⟨w', Function.update c'.prog i q⟩ := by
  refine ⟨hE, fun j => ?_⟩
  by_cases hji : j = i
  · subst hji
    simpa using hpq
  · simpa [Function.update_of_ne hji] using h.prog j

variable {sys : System S ι W α}

/--
The surroundings can answer otherwise: whatever they do in one state, they can do in each
state that belongs to it, with an answer that looks alike.
-/
structure Indifferent (sys : System S ι W α)
    (A : (c : S.Call) → S.Answer c → S.Answer c → Prop) (E : W → W → Prop) : Prop where
  spawn : ∀ i p, sys.spawn i p → ∃ s : Script S α, p = s.toProg ∧ Lockstep A Eq s s
  handler : ∀ i c w v r w', E w v → sys.handler i w c r w' →
    ∃ r' v', A c r r' ∧ sys.handler i v c r' v' ∧ E w' v'
  env : ∀ w v w', E w v → sys.env w w' → ∃ v', sys.env v v' ∧ E w' v'
  crash : ∀ w v w', E w v → sys.crash w w' → ∃ v', sys.crash v v' ∧ E w' v'

/-- **A move has a counterpart.** -/
theorem Config.Abreast.move (hsys : Indifferent sys A E) {c c' d : Config S ι W α}
    (h : c.Abreast A E d) (hm : Move sys c c') : ∃ d', Move sys d d' ∧ c'.Abreast A E d' := by
  cases hm with
  | start i p hidle hs =>
      have hprog := h.prog i
      rw [hidle] at hprog
      obtain ⟨s, rfl, hlock⟩ := hsys.spawn i p hs
      refine ⟨_, .start i _ ?_ hs, h.update h.world i (.scripts hlock)⟩
      cases hd : d.prog i with
      | none => rfl
      | some q =>
          rw [hd] at hprog
          nomatch hprog
  | @step i p p' w' hp hs =>
      have hprog := h.prog i
      rw [hp] at hprog
      generalize hq : d.prog i = q at hprog
      cases hprog with
      | scripts hlock =>
          cases hlock with
          | pure _ => nomatch hs
          | call hk =>
              cases hs with
              | call _ hH =>
                  obtain ⟨r', v', hr, hH', hE⟩ := hsys.handler _ _ _ _ _ _ h.world hH
                  exact ⟨_, .step i hq (.call _ hH'), h.update hE i (.scripts (hk _ _ hr))⟩
  | @finish i a hp =>
      have hprog := h.prog i
      rw [hp] at hprog
      generalize hq : d.prog i = q at hprog
      generalize hpure : some (Prog.pure a : Prog S α) = p at hprog
      cases hprog with
      | idle => nomatch hpure
      | scripts hlock =>
          cases hlock with
          | pure _ => exact ⟨_, .finish i hq, h.update h.world i .idle⟩
          | call _ => exact absurd (Option.some.inj hpure) nofun
  | env he =>
      obtain ⟨v', he', hE⟩ := hsys.env _ _ _ h.world he
      exact ⟨_, .env he', hE, h.prog⟩
  | crash hc =>
      obtain ⟨v', hc', hE⟩ := hsys.crash _ _ _ h.world hc
      exact ⟨_, .crash hc', hE, fun _ => .idle⟩

/-- **Every run has a counterpart** in which the surroundings answer otherwise. -/
theorem Reachable.lockstep (hsys : Indifferent sys A E) {w₀ v₀ : W} (hE : E w₀ v₀)
    {c : Config S ι W α} (hc : Reachable sys w₀ c) :
    ∃ d, Reachable sys v₀ d ∧ c.Abreast A E d := by
  induction hc with
  | init => exact ⟨_, .init, hE, fun _ => .idle⟩
  | move _ hm ih =>
      obtain ⟨d, hd, habreast⟩ := ih
      obtain ⟨d', hm', habreast'⟩ := habreast.move hsys hm
      exact ⟨d', hd.move hm', habreast'⟩

end Effect
