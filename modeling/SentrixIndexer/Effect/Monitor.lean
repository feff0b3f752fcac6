/-
Monitors of calls.

A monitor follows the calls of a program: it has a state of its own, says which calls it
allows in it, and moves on with each answer.  A program that obeys a monitor makes no
other call, whatever it is answered; this is a fact of the program alone, so it is
proved without a word about the surroundings and holds in all of them.

`Keeps g p Q` is the special case of a program that stays in one state of the monitor.
-/
import SentrixIndexer.Effect.Script
import SentrixIndexer.Effect.Tasks

namespace Effect

variable {S : Signature} {M α β σ ε : Type}

structure Monitor (S : Signature) (M : Type) where
  Allows : M → S.Call → Prop
  next : M → (c : S.Call) → S.Answer c → M

/-- The program makes these calls, and if they are answered so it gets to `p'`. -/
inductive Calls : {α : Type} → Prog S α → List ((c : S.Call) × S.Answer c) → Prog S α → Prop
  | refl {α : Type} (p : Prog S α) : Calls p [] p
  | call {α : Type} {c : S.Call} {k : S.Answer c → Prog S α} {p' : Prog S α}
      {rest : List ((c : S.Call) × S.Answer c)} (r : S.Answer c) (h : Calls (k r) rest p') :
      Calls (.call c k) (⟨c, r⟩ :: rest) p'
  | loop {σ β α : Type} {body : σ → Prog S (σ ⊕ β)} {s : σ} {k : β → Prog S α} {p' : Prog S α}
      {calls : List ((c : S.Call) × S.Answer c)}
      (h : Calls ((body s).bind (Prog.again body k)) calls p') : Calls (.loop body s k) calls p'

/-- What takes a program from one state to another, in any surroundings, are its calls. -/
theorem Steps.calls {W : Type} {H : Handler S W} {w w' : W} {p p' : Prog S α}
    (h : Steps H w p w' p') : ∃ calls, Calls p calls p' := by
  induction h with
  | refl w p => exact ⟨[], .refl p⟩
  | head hs _ ih =>
      obtain ⟨calls, hcalls⟩ := ih
      cases hs with
      | call k _ => exact ⟨_, .call _ hcalls⟩
      | loop _ body s k => exact ⟨calls, .loop hcalls⟩

namespace Monitor

/-- Any answer is possible; a call that is not allowed leads astray. -/
def handler (m : Monitor S M) : Handler S (Option M) := fun o c r o' =>
  ∀ g, o = some g → m.Allows g c ∧ o' = some (m.next g c r) ∨ ¬ m.Allows g c ∧ o' = none

/-- The program makes only calls the monitor allows, from its state `g` on. -/
def Obeys (m : Monitor S M) (p : Prog S α) (Q : α → M → Prop) (g : M) : Prop :=
  wp m.handler (· ≠ none) Eq (fun _ _ => True) p (fun a o => ∃ g', o = some g' ∧ Q a g') (some g)

/-- The program makes only calls that the monitor allows in its state `g` and that leave it. -/
def Keeps (m : Monitor S M) (g : M) (p : Prog S α) (Q : α → Prop) : Prop :=
  ∀ o, wp m.handler (· = some g) Eq Eq p (fun a _ => Q a) o

variable {m : Monitor S M} {g : M} {p : Prog S α}

/-! ### Rules -/

section Obeys

variable {Q Q' : α → M → Prop}

theorem obeys_pure {a : α} (h : Q a g) : m.Obeys (.pure a) Q g := ⟨g, rfl, h⟩

theorem Obeys.mono (h : m.Obeys p Q g) (hQ : ∀ a g', Q a g' → Q' a g') : m.Obeys p Q' g := by
  refine wp_mono ?_ h
  rintro a o ⟨g', rfl, ha⟩
  exact ⟨g', rfl, hQ a g' ha⟩

/-- **An allowed call.** -/
theorem obeys_call {c : S.Call} {k : S.Answer c → Prog S α} (hc : m.Allows g c)
    (hk : ∀ r, m.Obeys (k r) Q (m.next g c r)) : m.Obeys (.call c k) Q g := by
  rintro o rfl - r o' hr
  rcases hr g rfl with ⟨-, rfl⟩ | ⟨hnot, -⟩
  · exact ⟨by simp, trivial, hk r⟩
  · exact absurd hc hnot

theorem obeys_bind {f : α → Prog S β} {Q : β → M → Prop}
    (h : m.Obeys p (fun a g' => m.Obeys (f a) Q g') g) : m.Obeys (p.bind f) Q g := by
  refine wp_bind (wp_mono ?_ h)
  rintro a o ⟨g', rfl, ha⟩
  exact ha

theorem obeys_bindE {p : ExceptT ε (Prog S) α} {f : α → ExceptT ε (Prog S) β}
    {Q : Except ε β → M → Prop}
    (h : m.Obeys p.run (fun r g' => match r with
      | .ok a => m.Obeys (f a).run Q g'
      | .error e => Q (.error e) g') g) : m.Obeys (p >>= f).run Q g := by
  refine wp_bindE (wp_mono ?_ h)
  rintro r o ⟨g', rfl, hr⟩
  cases r with
  | ok a => exact hr
  | error e => exact ⟨g', rfl, hr⟩

/-- **The rule of loops.** -/
theorem obeys_iterateE {body : σ → ExceptT ε (Prog S) (σ ⊕ α)} {s : σ}
    {Q : Except ε α → M → Prop} (J : σ → M → Prop) (hs : J s g)
    (hbody : ∀ s g, J s g → m.Obeys (body s).run (fun r g' => match r with
      | .ok (.inl s') => J s' g'
      | .ok (.inr a) => Q (.ok a) g'
      | .error e => Q (.error e) g') g) : m.Obeys (Prog.iterateE body s).run Q g := by
  refine wp_iterateE (fun s o => ∃ g', o = some g' ∧ J s g') ?_ ⟨g, rfl, hs⟩ ?_
  · rintro s o o' hJ rfl -
    exact hJ
  · rintro s o - ⟨g', rfl, hJ⟩
    refine wp_mono ?_ (hbody s g' hJ)
    rintro r o ⟨g'', rfl, hr⟩
    rcases r with e | s' | a
    · exact ⟨g'', rfl, hr⟩
    · exact ⟨g'', rfl, hr⟩
    · exact ⟨g'', rfl, hr⟩

theorem obeys_iterate {body : σ → Prog S (σ ⊕ α)} {s : σ} (J : σ → M → Prop) (hs : J s g)
    (hbody : ∀ s g, J s g → m.Obeys (body s) (fun r g' => match r with
      | .inl s' => J s' g'
      | .inr a => Q a g') g) : m.Obeys (Prog.iterate body s) Q g := by
  refine wp_iterate (fun s o => ∃ g', o = some g' ∧ J s g') ?_ ⟨g, rfl, hs⟩ ?_
  · rintro s o o' hJ rfl -
    exact hJ
  · rintro s o - ⟨g', rfl, hJ⟩
    refine wp_mono ?_ (hbody s g' hJ)
    rintro r o ⟨g'', rfl, hr⟩
    cases r with
    | inl s' => exact ⟨g'', rfl, hr⟩
    | inr a => exact ⟨g'', rfl, hr⟩

/-- What a turn leaves of scripts that make only the calls of their keys. -/
def Turned {κ : Type} (A : κ → S.Call → Prop) (pool : Pool S κ α) :
    Pool S κ α ⊕ (κ × α × Pool S κ α) → Prop
  | .inl pool' => pool'.map Prod.fst = pool.map Prod.fst ∧ ∀ e ∈ pool', e.2.Only (A e.1)
  | .inr (key, _, rest) =>
      pool.map Prod.fst = key :: rest.map Prod.fst ∧ ∀ e ∈ rest, e.2.Only (A e.1)

/-- **The rule of pools**, for scripts whose calls all leave the monitor where it is. -/
theorem obeys_turn {κ : Type} {A : κ → S.Call → Prop} {choose : Prog S Nat} {pool : Pool S κ α}
    (hA : ∀ e ∈ pool, ∀ c, A e.1 c → m.Allows g c ∧ ∀ r, m.next g c r = g)
    (hchoose : m.Obeys choose (fun _ g' => g' = g) g) (hp : ∀ e ∈ pool, e.2.Only (A e.1)) :
    m.Obeys (Pool.turn choose pool) (fun r g' => g' = g ∧ Turned A pool r) g := by
  have hadvance : m.Obeys
      (choose.bind fun i => (pool.advance i).bind fun pool => .pure (.inl pool))
      (fun r g' => g' = g ∧ Turned A pool r) g := by
    refine obeys_bind (hchoose.mono ?_)
    rintro i _ rfl
    unfold Pool.advance
    rcases hi : pool[i]? with _ | ⟨key, a | ⟨c, k⟩⟩
    · exact obeys_pure ⟨rfl, rfl, hp⟩
    · exact obeys_pure ⟨rfl, rfl, hp⟩
    · have hmem : (key, Script.call c k) ∈ pool := List.mem_of_getElem? hi
      obtain ⟨hcall, hrest⟩ : A key c ∧ ∀ r, (k r).Only (A key) := hp _ hmem
      obtain ⟨hallows, hnext⟩ := hA _ hmem c hcall
      refine obeys_call hallows fun r => ?_
      rw [hnext]
      refine obeys_pure ⟨rfl, ?_, fun e he => ?_⟩
      · have hlt : i < pool.length := (List.getElem?_eq_some_iff.mp hi).1
        have hlt' : i < (pool.map Prod.fst).length := by simpa using hlt
        have hkey : key = (pool.map Prod.fst)[i] := by
          rw [List.getElem_map, (List.getElem?_eq_some_iff.mp hi).2]
        rw [List.map_set, hkey, List.set_getElem_self]
      · rcases List.mem_or_eq_of_mem_set he with hold | rfl
        · exact hp e hold
        · exact hrest r
  rcases pool with _ | ⟨⟨key, a | ⟨c, k⟩⟩, rest⟩
  · exact hadvance
  · exact obeys_pure ⟨rfl, rfl, fun e he => hp e (List.mem_cons_of_mem _ he)⟩
  · exact hadvance

/-! What a program that obeys does next. -/

theorem Obeys.call {c : S.Call} {k : S.Answer c → Prog S α} (h : m.Obeys (.call c k) Q g)
    (r : S.Answer c) : m.Allows g c ∧ m.Obeys (k r) Q (m.next g c r) := by
  have hallows : m.Allows g c := by
    refine Classical.byContradiction fun hnot => ?_
    refine (h (some g) rfl (by simp) r none ?_).1 rfl
    rintro g' hg
    obtain rfl := Option.some.inj hg
    exact Or.inr ⟨hnot, rfl⟩
  refine ⟨hallows, (h (some g) rfl (by simp) r _ ?_).2.2⟩
  rintro g' hg
  obtain rfl := Option.some.inj hg
  exact Or.inl ⟨hallows, rfl⟩

theorem Obeys.loop {τ β : Type} {body : τ → Prog S (τ ⊕ β)} {s : τ} {k : β → Prog S α}
    (h : m.Obeys (.loop body s k) Q g) :
    m.Obeys ((body s).bind (Prog.again body k)) Q g :=
  (wp_step (fun _ => rfl) (fun _ => trivial) h (by simp) (Step.loop _ body s k)).2.2

theorem Obeys.pure {a : α} (h : m.Obeys (.pure a) Q g) : Q a g := by
  obtain ⟨g', hg, ha⟩ := h
  obtain rfl := Option.some.inj hg
  exact ha

/-- Each call of the list is allowed when it comes. -/
def Accepts (m : Monitor S M) : M → List ((c : S.Call) × S.Answer c) → Prop
  | _, [] => True
  | g, ⟨c, r⟩ :: rest => m.Allows g c ∧ m.Accepts (m.next g c r) rest

/-- What is accepted to its end is accepted from some state on at every point. -/
theorem Accepts.of_append {before after : List ((c : S.Call) × S.Answer c)} :
    ∀ {g : M}, m.Accepts g (before ++ after) → ∃ g', m.Accepts g' after := by
  induction before with
  | nil => exact fun h => ⟨_, h⟩
  | cons e before ih => exact fun h => ih h.2

/-- **What a program that obeys calls is accepted**, however far it gets. -/
theorem Obeys.accepts {calls : List ((c : S.Call) × S.Answer c)} {p' : Prog S α}
    (ht : Calls p calls p') : ∀ {Q : α → M → Prop} {g : M}, m.Obeys p Q g → m.Accepts g calls := by
  induction ht with
  | refl p => exact fun _ => trivial
  | call r _ ih =>
      intro Q g h
      obtain ⟨hallows, hk⟩ := h.call r
      exact ⟨hallows, ih hk⟩
  | loop _ ih => exact fun h => ih h.loop

end Obeys

section Keeps

variable {Q Q' : α → Prop}

theorem keeps_pure {a : α} (h : Q a) : m.Keeps g (.pure a) Q := fun _ => h

theorem Keeps.mono (h : m.Keeps g p Q) (hQ : ∀ a, Q a → Q' a) : m.Keeps g p Q' :=
  fun o => wp_mono (fun a _ => hQ a) (h o)

theorem keeps_bindE {p : ExceptT ε (Prog S) α} {f : α → ExceptT ε (Prog S) β}
    {Q : Except ε α → Prop} {Q' : Except ε β → Prop} (hp : m.Keeps g p.run Q)
    (hok : ∀ a, Q (.ok a) → m.Keeps g (f a).run Q') (herror : ∀ e, Q' (.error e)) :
    m.Keeps g (p >>= f).run Q' := by
  refine fun o => wp_bindE (wp_mono (fun r o' hr => ?_) (hp o))
  cases r with
  | ok a => exact hok a hr o'
  | error e => exact herror e

/-- **A call that leaves the monitor where it is.** -/
theorem keeps_call {c : S.Call} {k : S.Answer c → Prog S α} (hc : m.Allows g c)
    (hnext : ∀ r, m.next g c r = g) (hk : ∀ r, m.Keeps g (k r) Q) :
    m.Keeps g (.call c k) Q := by
  rintro o o₁ rfl rfl r o₂ hr
  rcases hr g rfl with ⟨-, rfl⟩ | ⟨hnot, -⟩
  · rw [hnext]
    exact ⟨rfl, rfl, hk r _⟩
  · exact absurd hc hnot

/-- A script whose calls all leave the monitor where it is. -/
theorem keeps_of_only {A : S.Call → Prop} (hA : ∀ c, A c → m.Allows g c ∧ ∀ r, m.next g c r = g)
    {p : Script S α} (hp : p.Only A) : m.Keeps g p.toProg fun _ => True := by
  induction p with
  | pure a => exact keeps_pure trivial
  | call c k ih =>
      obtain ⟨hc, hnext⟩ := hA c hp.1
      exact keeps_call hc hnext fun r => ih r (hp.2 r)

/-- It is enough to look at the state that is kept. -/
theorem keeps_of_state
    (h : wp m.handler (· = some g) Eq Eq p (fun a _ => Q a) (some g)) : m.Keeps g p Q := by
  intro o
  by_cases ho : o = some g
  · rw [ho]
    exact h
  · cases p with
    | pure a => exact h
    | call c k =>
        rintro o₁ rfl ho₁
        exact absurd ho₁ ho
    | loop body s k =>
        obtain ⟨J, -, hs, hbody⟩ := h
        refine ⟨fun s _ => J s (some g), fun s o o' hJ _ _ => hJ, hs, ?_⟩
        rintro s o₁ rfl hJ
        refine wp_mono ?_ (wp_with_inv rfl (hbody s (some g) rfl hJ))
        rintro r o₂ ⟨rfl, hr⟩
        exact hr

/-- A program that keeps a state obeys from it. -/
theorem Keeps.obeys (h : m.Keeps g p Q) : m.Obeys p (fun a g' => g' = g ∧ Q a) g := by
  have hne : ∀ o, o = some g → o ≠ none := by
    rintro o rfl
    simp
  have hkeep : ∀ o o' : Option M, o = some g → o = o' → o' = some g := by
    rintro o o' rfl rfl
    rfl
  refine wp_weaken (fun _ _ h => h) (fun _ _ _ => trivial) (wp_inv_mono hne hkeep rfl
    (wp_mono (fun a o ho => ?_) (wp_with_inv rfl (h (some g)))))
  exact ⟨g, ho.1, rfl, ho.2⟩

end Keeps

end Monitor

end Effect
