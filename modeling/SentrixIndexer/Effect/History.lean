/-
Histories.

A chronicler that writes down every call with its answer keeps a history.  What a script has
done is a stretch of it: the calls the script makes, answered so, up to the value it comes to
(`wp_history`).  So a history tells which scripts have been run and to what end, without a
mark in any program.
-/
import SentrixIndexer.Effect.Monitor

namespace Effect

variable {S : Signature} {W α β ε : Type}

/-- A call and its answer. -/
abbrev CallAnswer (S : Signature) := (c : S.Call) × S.Answer c

namespace Script

/-- The script makes these calls, and if they are answered so it comes to `a`. -/
abbrev Plays (p : Script S α) (calls : List (CallAnswer S)) (a : α) : Prop :=
  Calls p.toProg calls (.pure a)

variable {calls : List (CallAnswer S)} {a : α}

theorem plays_pure {b : α} : (Script.pure b : Script S α).Plays calls a ↔ calls = [] ∧ b = a := by
  constructor
  · intro h
    cases h
    exact ⟨rfl, rfl⟩
  · rintro ⟨rfl, rfl⟩
    exact .refl _

theorem plays_call {c : S.Call} {k : S.Answer c → Script S α} :
    (Script.call c k).Plays calls a ↔ ∃ r rest, calls = ⟨c, r⟩ :: rest ∧ (k r).Plays rest a := by
  constructor
  · intro h
    cases h with
    | call r hk => exact ⟨r, _, rfl, hk⟩
  · rintro ⟨r, rest, rfl, hk⟩
    exact .call r hk

/-- What is played of two scripts in a row is played of the one, then of the other. -/
theorem plays_bind {p : Script S α} {f : α → Script S β} {b : β} :
    ∀ {calls : List (CallAnswer S)}, (p >>= f).Plays calls b ↔
      ∃ a first rest, calls = first ++ rest ∧ p.Plays first a ∧ (f a).Plays rest b := by
  induction p with
  | pure a =>
      intro calls
      constructor
      · exact fun h => ⟨a, [], calls, rfl, plays_pure.mpr ⟨rfl, rfl⟩, h⟩
      · rintro ⟨a', first, rest, rfl, hp, hf⟩
        obtain ⟨rfl, rfl⟩ := plays_pure.mp hp
        exact hf
  | call c k ih =>
      intro calls
      have hcall : (Script.call c k >>= f) = Script.call c fun r => k r >>= f := rfl
      rw [hcall, plays_call]
      constructor
      · rintro ⟨r, rest, rfl, h⟩
        obtain ⟨a, first, rest, rfl, hp, hf⟩ := (ih r).mp h
        exact ⟨a, ⟨c, r⟩ :: first, rest, rfl, plays_call.mpr ⟨r, first, rfl, hp⟩, hf⟩
      · rintro ⟨a, first, rest, rfl, hp, hf⟩
        obtain ⟨r, first, rfl, hk⟩ := plays_call.mp hp
        exact ⟨r, first ++ rest, rfl, (ih r).mpr ⟨a, first, rest, rfl, hk, hf⟩⟩

/-- What succeeds has succeeded in both its parts. -/
theorem Plays.of_bindE {p : ExceptT ε (Script S) α} {f : α → ExceptT ε (Script S) β} {b : β}
    (h : (p >>= f).run.Plays calls (.ok b)) :
    ∃ a first rest, calls = first ++ rest ∧ p.run.Plays first (.ok a) ∧
      (f a).run.Plays rest (.ok b) := by
  obtain ⟨r, first, rest, rfl, hp, hf⟩ := plays_bind.mp h
  cases r with
  | ok a => exact ⟨a, first, rest, rfl, hp, hf⟩
  | error e => exact absurd (plays_pure.mp hf).2 (by simp)

/-- The calls that are played are those the script may make. -/
theorem Only.plays {A : S.Call → Prop} {p : Script S α} (hp : p.Only A) :
    ∀ {calls : List (CallAnswer S)}, p.Plays calls a → ∀ e ∈ calls, A e.1 := by
  induction p with
  | pure b =>
      intro calls h e he
      obtain ⟨rfl, -⟩ := plays_pure.mp h
      exact absurd he (by simp)
  | call c k ih =>
      intro calls h e he
      obtain ⟨r, rest, rfl, hk⟩ := plays_call.mp h
      rcases List.mem_cons.mp he with rfl | hrest
      · exact hp.1
      · exact ih r (hp.2 r) hk e hrest

end Script

/-! ### What a history tells -/

variable {H : Handler S W} {I : W → Prop} {R G : W → W → Prop} {Q : α → W → Prop}

/-- **Steps of a program** add its calls to the history. -/
theorem Steps.history (history : W → List (CallAnswer S))
    (hcall : ∀ w c r w', H w c r w' → history w' = history w ++ [⟨c, r⟩]) {w w' : W}
    {p p' : Prog S α} (h : Steps H w p w' p') :
    ∃ calls, history w' = history w ++ calls ∧ Calls p calls p' := by
  induction h with
  | refl w p => exact ⟨[], (List.append_nil _).symm, .refl p⟩
  | head hs _ ih =>
      obtain ⟨calls, hhistory, hcalls⟩ := ih
      cases hs with
      | call k hH =>
          refine ⟨⟨_, _⟩ :: calls, ?_, .call _ hcalls⟩
          rw [hhistory, hcall _ _ _ _ hH, List.append_assoc]
          rfl
      | loop _ body s k => exact ⟨calls, hhistory, .loop hcalls⟩

/-- **What a script has done is a stretch of the history.** -/
theorem wp_history (history : W → List (CallAnswer S))
    (hcall : ∀ w c r w', H w c r w' → history w' = history w ++ [⟨c, r⟩])
    (hrely : ∀ w w', R w w' → history w' = history w) {p : Script S α} :
    ∀ {w : W}, wp H I R G p.toProg Q w →
      wp H I R G p.toProg (fun a w' => Q a w' ∧
        ∃ calls, history w' = history w ++ calls ∧ p.Plays calls a) w := by
  induction p with
  | pure a =>
      exact fun h => ⟨h, [], (List.append_nil _).symm, Script.plays_pure.mpr ⟨rfl, rfl⟩⟩
  | call c k ih =>
      intro w h w₁ hR hI r w₂ hH
      obtain ⟨hI₂, hG, hk⟩ := h w₁ hR hI r w₂ hH
      refine ⟨hI₂, hG, wp_mono (fun a w' hw' => ?_) (ih r hk)⟩
      obtain ⟨hQ, calls, hhistory, hplays⟩ := hw'
      refine ⟨hQ, ⟨c, r⟩ :: calls, ?_, Script.plays_call.mpr ⟨r, calls, rfl, hplays⟩⟩
      rw [hhistory, hcall _ _ _ _ hH, hrely _ _ hR, List.append_assoc]
      rfl

end Effect
