/-
Straight-line programs and pools of them.

A script is a program without loops.  It is small enough to be data, so a program
can hold scripts in its own state: a pool is a list of scripts in flight, of which
the scheduler advances one at a time by one call, and which hands out its results
in the order the scripts were put in.  This is a bounded buffer of concurrent
futures, polled by the task that owns it.

`wp_turn` is the rule for a pool.  Each script is verified by itself under an
interference that covers its siblings, the owner of the pool and the other tasks.
-/
import SentrixIndexer.Effect.Wp

namespace Effect

/-- Programs without loops. -/
inductive Script (S : Signature) (α : Type) : Type
  | pure (a : α)
  | call (c : S.Call) (k : S.Answer c → Script S α)

namespace Script

variable {S : Signature} {α β ε : Type}

/-- Run `p`, then go on with its value. -/
def bind : Script S α → (α → Script S β) → Script S β
  | .pure a, f => f a
  | .call c k, f => .call c fun r => (k r).bind f

instance : Monad (Script S) where
  pure := .pure
  bind := Script.bind

theorem bind_pure (p : Script S α) : p.bind Script.pure = p := by
  induction p with
  | pure a => rfl
  | call c k ih => simp only [bind, ih]

theorem bind_assoc {γ : Type} (p : Script S α) (f : α → Script S β) (g : β → Script S γ) :
    (p.bind f).bind g = p.bind fun a => (f a).bind g := by
  induction p with
  | pure a => rfl
  | call c k ih => simp only [bind, ih]

instance : LawfulMonad (Script S) := LawfulMonad.mk' _ bind_pure (fun _ _ => rfl) bind_assoc

/-- One call, its answer returned. -/
def ask (c : S.Call) : Script S (S.Answer c) := .call c .pure

/-- A script over another signature: each call is made as the script `f` says. -/
def via {T : Signature} (f : (c : S.Call) → Script T (S.Answer c)) : Script S α → Script T α
  | .pure a => .pure a
  | .call c k => (f c).bind fun r => (k r).via f

/-- What a script comes to if each call has one answer. -/
def eval (answer : (c : S.Call) → S.Answer c) : Script S α → α
  | .pure a => a
  | .call c k => (k (answer c)).eval answer

/-- A script as a program. -/
def toProg : Script S α → Prog S α
  | .pure a => .pure a
  | .call c k => .call c fun r => (k r).toProg

/-- A script that may fail, as a program that may fail. -/
def toProgE (p : ExceptT ε (Script S) α) : ExceptT ε (Prog S) α := ExceptT.mk p.run.toProg

@[simp] theorem toProg_pure (a : α) : (Script.pure a : Script S α).toProg = .pure a := rfl

@[simp] theorem toProg_ask (c : S.Call) : (ask c : Script S _).toProg = Prog.ask c := rfl

@[simp] theorem toProg_bind (p : Script S α) (f : α → Script S β) :
    (p.bind f).toProg = p.toProg.bind fun a => (f a).toProg := by
  induction p with
  | pure a => rfl
  | call c k ih =>
      show Prog.call c (fun r => ((k r).bind f).toProg) = _
      simp only [ih]
      rfl

@[simp] theorem run_toProgE (p : ExceptT ε (Script S) α) :
    (toProgE p).run = p.run.toProg := rfl

@[simp] theorem toProgE_pure (a : α) :
    toProgE (Pure.pure a : ExceptT ε (Script S) α) = Pure.pure a := rfl

@[simp] theorem toProgE_throw (e : ε) :
    toProgE (throw e : ExceptT ε (Script S) α) = throw e := rfl

@[simp] theorem toProgE_bind (p : ExceptT ε (Script S) α) (f : α → ExceptT ε (Script S) β) :
    toProgE (p >>= f) = toProgE p >>= fun a => toProgE (f a) := by
  show Script.toProg (Script.bind p.run (ExceptT.bindCont f)) = _
  rw [toProg_bind]
  show Prog.bind _ _ = Prog.bind _ (ExceptT.bindCont fun a => toProgE (f a))
  congr 1
  funext r
  cases r with
  | ok a => rfl
  | error e => rfl

end Script

section Rules

variable {S : Signature} {W α β ε : Type} {H : Handler S W} {I : W → Prop}
variable {R G : W → W → Prop}

/-- Sequencing of scripts. -/
theorem wp_script_bind {p : Script S α} {f : α → Script S β} {Q : β → W → Prop} {w : W}
    (h : wp H I R G p.toProg (fun a w' => wp H I R G (f a).toProg Q w') w) :
    wp H I R G (p >>= f).toProg Q w := by
  show wp H I R G (p.bind f).toProg Q w
  rw [Script.toProg_bind]
  exact wp_bind h

/-- Sequencing of scripts that may fail. -/
theorem wp_scriptE_bind {p : ExceptT ε (Script S) α} {f : α → ExceptT ε (Script S) β}
    {Q : Except ε β → W → Prop} {w : W}
    (h : wp H I R G (Script.toProgE p).run (fun r w' => match r with
      | .ok a => wp H I R G (Script.toProgE (f a)).run Q w'
      | .error e => Q (.error e) w') w) :
    wp H I R G (Script.toProgE (p >>= f)).run Q w := by
  rw [Script.toProgE_bind]
  exact wp_bindE h

end Rules

/-! ### What a script may call -/

namespace Script

variable {S : Signature} {W α β ε : Type} {A : S.Call → Prop}

/-- Every call the script can come to is one of `A`. -/
def Only (A : S.Call → Prop) : Script S α → Prop
  | .pure _ => True
  | .call c k => A c ∧ ∀ r, (k r).Only A

theorem Only.mono {B : S.Call → Prop} (hAB : ∀ c, A c → B c) {p : Script S α} (h : p.Only A) :
    p.Only B := by
  induction p with
  | pure a => exact trivial
  | call c k ih => exact ⟨hAB c h.1, fun r => ih r (h.2 r)⟩

theorem only_ask {c : S.Call} (hc : A c) : (ask c).Only A := ⟨hc, fun _ => trivial⟩

theorem Only.bind {p : Script S α} {f : α → Script S β} (hp : p.Only A)
    (hf : ∀ a, (f a).Only A) : (p >>= f).Only A := by
  show (p.bind f).Only A
  induction p with
  | pure a => exact hf a
  | call c k ih => exact ⟨hp.1, fun r => ih r (hp.2 r)⟩

theorem Only.bindE {p : ExceptT ε (Script S) α} {f : α → ExceptT ε (Script S) β}
    (hp : p.run.Only A) (hf : ∀ a, (f a).run.Only A) : (p >>= f).run.Only A := by
  refine Only.bind hp fun r => ?_
  cases r with
  | ok a => exact hf a
  | error e => exact trivial

/-- A script over another signature makes the calls of the scripts that stand for its own. -/
theorem Only.via {T : Signature} {B : T.Call → Prop} {f : (c : S.Call) → Script T (S.Answer c)}
    (hf : ∀ c, (f c).Only B) {p : Script S α} : (p.via f).Only B := by
  induction p with
  | pure a => exact trivial
  | call c k ih => exact Only.bind (hf c) ih

/-- Every value the script may come to is a `P`, whatever its calls are answered. -/
def Ends (P : α → Prop) : Script S α → Prop
  | .pure a => P a
  | .call _ k => ∀ r, (k r).Ends P

theorem ends_any (p : Script S α) : p.Ends fun _ => True := by
  induction p with
  | pure a => exact trivial
  | call c k ih => exact ih

theorem Ends.bind {P : α → Prop} {Q : β → Prop} {p : Script S α} {f : α → Script S β}
    (hp : p.Ends P) (hf : ∀ a, P a → (f a).Ends Q) : (p >>= f).Ends Q := by
  show (p.bind f).Ends Q
  induction p with
  | pure a => exact hf a hp
  | call c k ih => exact fun r => ih r (hp r)

/-- Whatever a script comes to, a function of it is a `P` if all its values are. -/
theorem ends_map {P : β → Prop} {p : Script S α} {f : α → β} (hf : ∀ a, P (f a)) :
    (p >>= fun a => Pure.pure (f a)).Ends P :=
  (ends_any p).bind fun a _ => hf a

theorem Ends.via {T : Signature} {P : α → Prop} {f : (c : S.Call) → Script T (S.Answer c)}
    {p : Script S α} (hp : p.Ends P) : (p.via f).Ends P := by
  induction p with
  | pure a => exact hp
  | call c k ih => exact (ends_any (f c)).bind fun r _ => ih r (hp r)

/-- What is verified of a script holds together with what all its values are. -/
theorem Ends.wp {H : Handler S W} {I : W → Prop} {R G : W → W → Prop} {P : α → Prop}
    {Q : α → W → Prop} {p : Script S α} (hp : p.Ends P) :
    ∀ {w : W}, Effect.wp H I R G p.toProg Q w →
      Effect.wp H I R G p.toProg (fun a w' => P a ∧ Q a w') w := by
  induction p with
  | pure a => exact fun h => ⟨hp, h⟩
  | call c k ih =>
      intro w h w₁ hR hI r w₂ hH
      obtain ⟨hI₂, hG, hk⟩ := h w₁ hR hI r w₂ hH
      exact ⟨hI₂, hG, ih r (hp r) hk⟩

/-- **The frame rule**: what the calls of a script all keep, its runs keep. -/
theorem Only.run_keeps {H : Handler S W} {J : W → Prop}
    (hA : ∀ w c r w', A c → J w → H w c r w' → J w') {p : Script S α} (hp : p.Only A) :
    ∀ {w w' : W} {a : α}, J w → Run H w p.toProg w' a → J w' := by
  induction p with
  | pure a =>
      intro w w' b hJ hrun
      obtain ⟨rfl, -⟩ := run_pure.mp hrun
      exact hJ
  | call c k ih =>
      intro w w' b hJ hrun
      obtain ⟨r, w₁, hH, hk⟩ := run_call.mp hrun
      exact ih r (hp.2 r) (hA w c r w₁ hp.1 hJ hH) hk

/-- **The frame rule under interference.** -/
theorem Only.wp_keeps {H : Handler S W} {I J : W → Prop} {R G : W → W → Prop}
    (hstable : ∀ w w', J w → R w w' → I w' → J w')
    (hA : ∀ w c r w', A c → I w → J w → H w c r w' → I w' ∧ G w w' ∧ J w') {p : Script S α}
    (hp : p.Only A) : ∀ {w : W}, J w → wp H I R G p.toProg (fun _ w' => J w') w := by
  induction p with
  | pure a => exact fun hJ => hJ
  | call c k ih =>
      intro w hJ w₁ hR hI r w₂ hH
      obtain ⟨hI₂, hG, hJ₂⟩ := hA w₁ c r w₂ hp.1 hI (hstable _ _ hJ hR hI) hH
      exact ⟨hI₂, hG, ih r (hp.2 r) hJ₂⟩

/-- A script that may do as it likes. -/
theorem wp_any {H : Handler S W} {R : W → W → Prop} {p : Script S α} :
    ∀ {w : W}, wp H (fun _ => True) R (fun _ _ => True) p.toProg (fun _ _ => True) w := by
  induction p with
  | pure a => exact trivial
  | call c k ih => exact fun w₁ _ _ r w₂ _ => ⟨trivial, trivial, ih r⟩

end Script

/-! ### Pools -/

/-- Scripts in flight, oldest first, each under what it was started for. -/
abbrev Pool (S : Signature) (κ α : Type) := List (κ × Script S α)

namespace Pool

variable {S : Signature} {κ α : Type}

/-- The next call of the script at position `i`. -/
def advance (pool : Pool S κ α) (i : Nat) : Prog S (Pool S κ α) :=
  match pool[i]? with
  | some (key, .call c k) => (Prog.ask c).bind fun r => .pure (pool.set i (key, k r))
  | _ => .pure pool

/-- One poll: hand out the oldest script if it has finished, else advance the chosen one. -/
def turn (choose : Prog S Nat) : Pool S κ α → Prog S (Pool S κ α ⊕ (κ × α × Pool S κ α))
  | (key, .pure a) :: rest => .pure (.inr (key, a, rest))
  | pool => choose.bind fun i => (pool.advance i).bind fun pool => .pure (.inl pool)

end Pool

section Rules

variable {S : Signature} {W κ α : Type} {H : Handler S W} {I : W → Prop}
variable {R G Rs Gs : W → W → Prop} {Q : κ → α → W → Prop}

/-- Every script of the pool is on its way to its own postcondition. -/
def PoolOk (H : Handler S W) (I : W → Prop) (Rs Gs : W → W → Prop) (Q : κ → α → W → Prop)
    (pool : Pool S κ α) (w : W) : Prop :=
  ∀ e ∈ pool, wp H I Rs Gs e.2.toProg (Q e.1) w

theorem PoolOk.stable (htrans : ∀ w₁ w₂ w₃, Rs w₁ w₂ → Rs w₂ w₃ → Rs w₁ w₃)
    (hQ : ∀ k a w w', Q k a w → Rs w w' → I w' → Q k a w') {pool : Pool S κ α} {w w' : W}
    (h : PoolOk H I Rs Gs Q pool w) (hR : Rs w w') (hI : I w') : PoolOk H I Rs Gs Q pool w' :=
  fun e he => wp_stable htrans (hQ e.1) (h e he) hR hI

/-- What a turn leaves: the pool with one script advanced, or its oldest result. -/
def TurnPost (H : Handler S W) (I : W → Prop) (Rs Gs : W → W → Prop) (Q : κ → α → W → Prop)
    (pool : Pool S κ α) : Pool S κ α ⊕ (κ × α × Pool S κ α) → W → Prop
  | .inl pool', w => pool'.map Prod.fst = pool.map Prod.fst ∧ PoolOk H I Rs Gs Q pool' w
  | .inr (key, a, rest), w =>
      pool.map Prod.fst = key :: rest.map Prod.fst ∧ Q key a w ∧ PoolOk H I Rs Gs Q rest w

/--
**The rule of pools.**  `E` is what can happen to the state during the turn: a move
of another task, a call of a script, the choice of the script.
-/
theorem wp_turn {E : W → W → Prop} (hrefl : ∀ w, E w w)
    (htrans : ∀ w₁ w₂ w₃, E w₁ w₂ → E w₂ w₃ → E w₁ w₃)
    (htransS : ∀ w₁ w₂ w₃, Rs w₁ w₂ → Rs w₂ w₃ → Rs w₁ w₃)
    (hR : ∀ w w', R w w' → E w w') (hGs : ∀ w w', Gs w w' → E w w' ∧ G w w')
    (hE : ∀ w w', E w w' → Rs w w')
    (hQ : ∀ k a w w', Q k a w → Rs w w' → I w' → Q k a w') {choose : Prog S Nat}
    {pool : Pool S κ α} {w : W} (hI : I w)
    (hchoose : wp H I R G choose (fun _ w' => I w' ∧ E w w') w)
    (h : PoolOk H I Rs Gs Q pool w) :
    wp H I R G (Pool.turn choose pool)
      (fun r w' => I w' ∧ E w w' ∧ TurnPost H I Rs Gs Q pool r w') w := by
  have hadvance : wp H I R G
      (choose.bind fun i => (pool.advance i).bind fun pool => .pure (.inl pool))
      (fun r w' => I w' ∧ E w w' ∧ TurnPost H I Rs Gs Q pool r w') w := by
    refine wp_bind (wp_mono ?_ hchoose)
    intro i w₁ hw₁
    obtain ⟨hI₁, hE₁⟩ := hw₁
    have hstay : I w₁ ∧ E w w₁ ∧ TurnPost H I Rs Gs Q pool (.inl pool) w₁ :=
      ⟨hI₁, hE₁, rfl, h.stable htransS hQ (hE _ _ hE₁) hI₁⟩
    unfold Pool.advance
    rcases hi : pool[i]? with _ | ⟨key, a | ⟨c, k⟩⟩
    · exact hstay
    · exact hstay
    · have hmem : (key, Script.call c k) ∈ pool := List.mem_of_getElem? hi
      have hcall := (h.stable htransS hQ (hE _ _ hE₁) hI₁) _ hmem
      intro w₂ hR₂ hI₂ r w₃ hH
      have hE₂ := htrans _ _ _ hE₁ (hR _ _ hR₂)
      obtain ⟨hI₃, hG₃, hk⟩ := hcall w₂ (hE _ _ (hR _ _ hR₂)) hI₂ r w₃ hH
      obtain ⟨hE₃, hG⟩ := hGs _ _ hG₃
      have hE₃ := htrans _ _ _ hE₂ hE₃
      refine ⟨hI₃, hG, hI₃, hE₃, ?_, ?_⟩
      · have hlt : i < pool.length := (List.getElem?_eq_some_iff.mp hi).1
        have hlt' : i < (pool.map Prod.fst).length := by simpa using hlt
        have hkey : key = (pool.map Prod.fst)[i] := by
          rw [List.getElem_map, (List.getElem?_eq_some_iff.mp hi).2]
        rw [List.map_set, hkey, List.set_getElem_self]
      · intro e he
        rcases List.mem_or_eq_of_mem_set he with hold | rfl
        · exact wp_stable htransS (hQ e.1) (h e hold) (hE _ _ hE₃) hI₃
        · exact hk
  rcases pool with _ | ⟨⟨key, a | ⟨c, k⟩⟩, rest⟩
  · exact hadvance
  · refine ⟨hI, hrefl w, rfl, h _ (List.mem_cons_self ..), ?_⟩
    exact fun e he => h e (List.mem_cons_of_mem _ he)
  · exact hadvance

end Rules

end Effect
