/-
Weakest preconditions under interference.

`wp H I R G p Q w` says that the program `p`, started in `w` and answered by `H`,
keeps the invariant `I` and changes the state only as the guarantee `G` allows,
and that whenever it finishes, `Q` holds of its value and the state it leaves.
Between two of its calls other tasks may move the state along the rely `R`, as long
as they keep `I` too.  A loop is given an invariant of its own, stable under `R`.

With equality for the rely and no demand on the guarantee, this is the logic of
a program that runs alone, and it speaks of `Run` (`wp_run`).  With one relation
for both, it is the logic of tasks that interleave.
-/
import SentrixIndexer.Effect.Prog

namespace Effect

variable {S : Signature} {W α β σ : Type}

/-- The weakest precondition of `p` for `Q`, under the rely `R` and guarantee `G`. -/
def wp (H : Handler S W) (I : W → Prop) (R G : W → W → Prop) :
    {α : Type} → Prog S α → (α → W → Prop) → W → Prop
  | _, .pure a, Q, w => Q a w
  | _, .call c k, Q, w => ∀ w₁, R w w₁ → I w₁ → ∀ r w₂, H w₁ c r w₂ →
      I w₂ ∧ G w₁ w₂ ∧ wp H I R G (k r) Q w₂
  | _, .loop (σ := σ) body s k, Q, w => ∃ J : σ → W → Prop,
      (∀ s w w', J s w → R w w' → I w' → J s w') ∧ J s w ∧
      ∀ s w, I w → J s w → wp H I R G (body s) (fun r w' => match r with
        | .inl s' => J s' w'
        | .inr b => wp H I R G (k b) Q w') w

section Rules

variable {H : Handler S W} {I : W → Prop} {R G : W → W → Prop}

@[simp] theorem wp_pure {a : α} {Q : α → W → Prop} {w : W} :
    wp H I R G (.pure a) Q w ↔ Q a w := Iff.rfl

/-- A weaker postcondition is easier. -/
theorem wp_mono {p : Prog S α} {Q Q' : α → W → Prop} (hQ : ∀ a w, Q a w → Q' a w) :
    ∀ {w : W}, wp H I R G p Q w → wp H I R G p Q' w := by
  induction p with
  | pure a => exact fun h => hQ _ _ h
  | call c k ih =>
      intro w h w₁ hR hI r w₂ hH
      obtain ⟨hI₂, hG, hk⟩ := h w₁ hR hI r w₂ hH
      exact ⟨hI₂, hG, ih r hQ hk⟩
  | loop body s k ihb ih =>
      rintro w ⟨J, hJ, hs, hbody⟩
      refine ⟨J, hJ, hs, fun s w hI hJs => ihb s ?_ (hbody s w hI hJs)⟩
      intro a w' ha
      cases a with
      | inl s' => exact ha
      | inr b => exact ih b hQ ha

/-- Less interference is easier, and so is a weaker guarantee. -/
theorem wp_weaken {R' G' : W → W → Prop} (hR : ∀ w w', R' w w' → R w w')
    (hG : ∀ w w', G w w' → G' w w') {p : Prog S α} :
    ∀ {Q : α → W → Prop} {w : W}, wp H I R G p Q w → wp H I R' G' p Q w := by
  induction p with
  | pure a => exact fun h => h
  | call c k ih =>
      intro Q w h w₁ hR₁ hI r w₂ hH
      obtain ⟨hI₂, hG₂, hk⟩ := h w₁ (hR _ _ hR₁) hI r w₂ hH
      exact ⟨hI₂, hG _ _ hG₂, ih r hk⟩
  | loop body s k ihb ih =>
      intro Q w h
      obtain ⟨J, hJ, hs, hbody⟩ := h
      refine ⟨J, fun s w w' hs hR₁ => hJ s w w' hs (hR _ _ hR₁), hs, fun s w hI hJs => ?_⟩
      refine ihb s (wp_mono ?_ (hbody s w hI hJs))
      intro a w' ha
      cases a with
      | inl s' => exact ha
      | inr b => exact ih b ha

/-- Surroundings that answer in fewer ways are easier. -/
theorem wp_handler_mono {H' : Handler S W} (hH : ∀ w c r w', H' w c r w' → H w c r w')
    {p : Prog S α} :
    ∀ {Q : α → W → Prop} {w : W}, wp H I R G p Q w → wp H' I R G p Q w := by
  induction p with
  | pure a => exact fun h => h
  | call c k ih =>
      intro Q w h w₁ hR hI r w₂ hH'
      obtain ⟨hI₂, hG, hk⟩ := h w₁ hR hI r w₂ (hH _ _ _ _ hH')
      exact ⟨hI₂, hG, ih r hk⟩
  | loop body s k ihb ih =>
      intro Q w h
      obtain ⟨J, hJ, hs, hbody⟩ := h
      refine ⟨J, hJ, hs, fun s w hI hJs => wp_mono ?_ (ihb s (hbody s w hI hJs))⟩
      intro a w' ha
      cases a with
      | inl s' => exact ha
      | inr b => exact ih b ha

/-- **The rule of sequencing.** -/
theorem wp_bind {p : Prog S α} {f : α → Prog S β} {Q : β → W → Prop} :
    ∀ {w : W}, wp H I R G p (fun a w' => wp H I R G (f a) Q w') w →
      wp H I R G (p.bind f) Q w := by
  induction p with
  | pure a => exact fun h => h
  | call c k ih =>
      intro w h w₁ hR hI r w₂ hH
      obtain ⟨hI₂, hG, hk⟩ := h w₁ hR hI r w₂ hH
      exact ⟨hI₂, hG, ih r hk⟩
  | loop body s k ihb ih =>
      rintro w ⟨J, hJ, hs, hbody⟩
      refine ⟨J, hJ, hs, fun s w hI hJs => wp_mono ?_ (hbody s w hI hJs)⟩
      intro a w' ha
      cases a with
      | inl s' => exact ha
      | inr b => exact ih b ha

/-- **The rule of loops**: a stable invariant that every pass keeps. -/
theorem wp_iterate {body : σ → Prog S (σ ⊕ α)} {s : σ} {Q : α → W → Prop} {w : W}
    (J : σ → W → Prop) (hstable : ∀ s w w', J s w → R w w' → I w' → J s w') (hs : J s w)
    (hbody : ∀ s w, I w → J s w → wp H I R G (body s) (fun r w' => match r with
      | .inl s' => J s' w'
      | .inr b => Q b w') w) :
    wp H I R G (Prog.iterate body s) Q w := by
  refine ⟨J, hstable, hs, fun s w hI hJ => wp_mono ?_ (hbody s w hI hJ)⟩
  intro a w' ha
  cases a with
  | inl s' => exact ha
  | inr b => exact ha

/-- What other tasks do does not spoil a precondition. -/
theorem wp_stable (htrans : ∀ w₁ w₂ w₃, R w₁ w₂ → R w₂ w₃ → R w₁ w₃) {p : Prog S α}
    {Q : α → W → Prop} (hQ : ∀ a w w', Q a w → R w w' → I w' → Q a w') {w w' : W}
    (h : wp H I R G p Q w) (hR : R w w') (hI : I w') : wp H I R G p Q w' := by
  cases p with
  | pure a => exact hQ _ _ _ h hR hI
  | call c k => exact fun w₁ hR₁ => h w₁ (htrans _ _ _ hR hR₁)
  | loop body s k =>
      obtain ⟨J, hJ, hs, hbody⟩ := h
      exact ⟨J, hJ, hJ _ _ _ hs hR hI, hbody⟩

/-- **A step keeps the precondition**, the invariant and the guarantee. -/
theorem wp_step (hrefl : ∀ w, R w w) (hG : ∀ w, G w w) {p p' : Prog S α}
    {Q : α → W → Prop} {w w' : W} (h : wp H I R G p Q w) (hI : I w) (hs : Step H w p w' p') :
    I w' ∧ G w w' ∧ wp H I R G p' Q w' := by
  cases hs with
  | call k hH => exact h w (hrefl w) hI _ _ hH
  | loop _ body s k =>
      obtain ⟨J, hJ, hs, hbody⟩ := h
      refine ⟨hI, hG w, wp_bind (wp_mono ?_ (hbody s w hI hs))⟩
      intro a w' ha
      cases a with
      | inl s' => exact ⟨J, hJ, ha, hbody⟩
      | inr b => exact ha

/-- What the state is known to have done since the start may be used at the end. -/
theorem wp_since (hrefl : ∀ w, R w w) (htrans : ∀ w₁ w₂ w₃, R w₁ w₂ → R w₂ w₃ → R w₁ w₃)
    (hG : ∀ w w', G w w' → R w w') {p : Prog S α} :
    ∀ {Q : α → W → Prop} {w : W}, wp H I R G p Q w →
      wp H I R G p (fun a w' => R w w' ∧ Q a w') w := by
  induction p with
  | pure a => exact fun h => ⟨hrefl _, h⟩
  | call c k ih =>
      intro Q w h w₁ hR₁ hI r w₂ hH
      obtain ⟨hI₂, hG₂, hk⟩ := h w₁ hR₁ hI r w₂ hH
      refine ⟨hI₂, hG₂, wp_mono ?_ (ih r hk)⟩
      intro a w' ha
      exact ⟨htrans _ _ _ hR₁ (htrans _ _ _ (hG _ _ hG₂) ha.1), ha.2⟩
  | loop body s k ihb ih =>
      intro Q w h
      obtain ⟨J, hJ, hs, hbody⟩ := h
      refine ⟨fun s w' => R w w' ∧ J s w', ?_, ⟨hrefl w, hs⟩, ?_⟩
      · intro s w₁ w₂ hJ₁ hR hI
        exact ⟨htrans _ _ _ hJ₁.1 hR, hJ _ _ _ hJ₁.2 hR hI⟩
      · intro s w₁ hI hJ₁
        refine wp_mono ?_ (ihb s (hbody s w₁ hI hJ₁.2))
        intro a w₂ ha
        cases a with
        | inl s' => exact ⟨htrans _ _ _ hJ₁.1 ha.1, ha.2⟩
        | inr b =>
            refine wp_mono ?_ (ih b ha.2)
            intro a w₃ ha₃
            exact ⟨htrans _ _ _ hJ₁.1 (htrans _ _ _ ha.1 ha₃.1), ha₃.2⟩

/-- The invariant may be used at the end. -/
theorem wp_with_inv {p : Prog S α} :
    ∀ {Q : α → W → Prop} {w : W}, I w → wp H I R G p Q w →
      wp H I R G p (fun a w' => I w' ∧ Q a w') w := by
  induction p with
  | pure a => exact fun hI h => ⟨hI, h⟩
  | call c k ih =>
      intro Q w _ h w₁ hR₁ hI r w₂ hH
      obtain ⟨hI₂, hG₂, hk⟩ := h w₁ hR₁ hI r w₂ hH
      exact ⟨hI₂, hG₂, ih r hI₂ hk⟩
  | loop body s k ihb ih =>
      intro Q w _ h
      obtain ⟨J, hJ, hs, hbody⟩ := h
      refine ⟨J, hJ, hs, fun s w hI hJs => wp_mono ?_ (ihb s hI (hbody s w hI hJs))⟩
      intro a w₂ ha
      cases a with
      | inl s' => exact ha.2
      | inr b => exact ih b ha.1 ha.2

/-- What every guaranteed step keeps may be added to the invariant. -/
theorem wp_strengthen {J : W → Prop} (hJ : ∀ w w', I w → J w → G w w' → J w') {p : Prog S α} :
    ∀ {Q : α → W → Prop} {w : W}, wp H I R G p Q w →
      wp H (fun w => I w ∧ J w) R G p Q w := by
  induction p with
  | pure a => exact fun h => h
  | call c k ih =>
      intro Q w h w₁ hR hIJ r w₂ hH
      obtain ⟨hI₂, hG, hk⟩ := h w₁ hR hIJ.1 r w₂ hH
      exact ⟨⟨hI₂, hJ _ _ hIJ.1 hIJ.2 hG⟩, hG, ih r hk⟩
  | loop body s k ihb ih =>
      intro Q w h
      obtain ⟨L, hL, hs, hbody⟩ := h
      refine ⟨L, fun s w w' hs hR hIJ => hL s w w' hs hR hIJ.1, hs, fun s w hIJ hLs => ?_⟩
      refine wp_mono ?_ (ihb s (hbody s w hIJ.1 hLs))
      intro a w' ha
      cases a with
      | inl s' => exact ha
      | inr b => exact ih b ha

/-- A program verified under an invariant keeps every weaker one, where the rely keeps the
stronger one. -/
theorem wp_inv_mono {I' : W → Prop} (hI : ∀ w, I w → I' w) (hR : ∀ w w', I w → R w w' → I w')
    {p : Prog S α} :
    ∀ {Q : α → W → Prop} {w : W}, I w → wp H I R G p Q w → wp H I' R G p Q w := by
  induction p with
  | pure a => exact fun _ h => h
  | call c k ih =>
      intro Q w hw h w₁ hR₁ _ r w₂ hH
      obtain ⟨hI₂, hG, hk⟩ := h w₁ hR₁ (hR _ _ hw hR₁) r w₂ hH
      exact ⟨hI _ hI₂, hG, ih r hI₂ hk⟩
  | loop body s k ihb ih =>
      intro Q w hw h
      obtain ⟨J, hJ, hs, hbody⟩ := h
      refine ⟨fun s w => I w ∧ J s w, ?_, ⟨hw, hs⟩, fun s w _ hJs => ?_⟩
      · intro s w w' hJs hR₁ _
        have hw' := hR _ _ hJs.1 hR₁
        exact ⟨hw', hJ s w w' hJs.2 hR₁ hw'⟩
      · refine ihb s hJs.1 (wp_mono ?_ (wp_with_inv hJs.1 (hbody s w hJs.1 hJs.2)))
        intro a w' ha
        cases a with
        | inl s' => exact ha
        | inr b => exact ih b ha.1 ha.2

end Rules

/-! ### A program that runs alone -/

/-- The precondition of a program nothing interferes with. -/
abbrev wpAlone (H : Handler S W) (p : Prog S α) (Q : α → W → Prop) (w : W) : Prop :=
  wp H (fun _ => True) Eq (fun _ _ => True) p Q w

variable {H : Handler S W}

theorem wpAlone_call {c : S.Call} {k : S.Answer c → Prog S α} {Q : α → W → Prop} {w : W} :
    wpAlone H (.call c k) Q w ↔ ∀ r w₂, H w c r w₂ → wpAlone H (k r) Q w₂ := by
  constructor
  · exact fun h r w₂ hH => (h w rfl trivial r w₂ hH).2.2
  · rintro h w₁ rfl - r w₂ hH
    exact ⟨trivial, trivial, h r w₂ hH⟩

theorem wpAlone_ask {c : S.Call} {Q : S.Answer c → W → Prop} {w : W} :
    wpAlone H (Prog.ask c) Q w ↔ ∀ r w₂, H w c r w₂ → Q r w₂ := wpAlone_call

/-- What the precondition promises holds of every run nothing interferes with. -/
theorem wp_run {I : W → Prop} {R G : W → W → Prop} (hrefl : ∀ w, R w w) {p : Prog S α}
    {w w' : W} {a : α} (hrun : Run H w p w' a) :
    ∀ {Q : α → W → Prop}, I w → wp H I R G p Q w → I w' ∧ Q a w' := by
  induction hrun with
  | pure => exact fun hI h => ⟨hI, h⟩
  | call hH _ ih =>
      intro Q hI h
      obtain ⟨hI₁, -, hk⟩ := h _ (hrefl _) hI _ _ hH
      exact ih hI₁ hk
  | next _ _ ihb ih =>
      intro Q hI h
      obtain ⟨J, hJ, hs, hbody⟩ := h
      obtain ⟨hI₁, hs'⟩ := ihb hI (hbody _ _ hI hs)
      exact ih hI₁ ⟨J, hJ, hs', hbody⟩
  | stop _ _ ihb ih =>
      intro Q hI h
      obtain ⟨J, hJ, hs, hbody⟩ := h
      obtain ⟨hI₁, hk⟩ := ihb hI (hbody _ _ hI hs)
      exact ih hI₁ hk

/-- What the precondition promises holds of every run in which others move the state along the
rely. -/
theorem wp_run_under {R G : W → W → Prop} {p : Prog S α} {w w' : W} {a : α}
    (hrun : Run (H.under R) w p w' a) :
    ∀ {Q : α → W → Prop}, wp H (fun _ => True) R G p Q w → Q a w' := by
  induction hrun with
  | pure => exact fun h => h
  | call hH _ ih =>
      intro Q h
      obtain ⟨w₁, hR, hH⟩ := hH
      exact ih (h w₁ hR trivial _ _ hH).2.2
  | next _ _ ihb ih =>
      intro Q h
      obtain ⟨J, hJ, hs, hbody⟩ := h
      exact ih ⟨J, hJ, ihb (hbody _ _ trivial hs), hbody⟩
  | stop _ _ ihb ih =>
      intro Q h
      obtain ⟨J, hJ, hs, hbody⟩ := h
      exact ih (ihb (hbody _ _ trivial hs))

/-- **Soundness**: what the precondition promises holds of every run. -/
theorem wpAlone_run {p : Prog S α} {w w' : W} {a : α} (hrun : Run H w p w' a)
    {Q : α → W → Prop} (h : wpAlone H p Q w) : Q a w' :=
  (wp_run (fun _ => rfl) hrun trivial h).2

/-- And every run is promised: the precondition is exact. -/
theorem wpAlone_of_run {p : Prog S α} :
    ∀ {Q : α → W → Prop} {w : W}, (∀ w' a, Run H w p w' a → Q a w') → wpAlone H p Q w := by
  induction p with
  | pure a => exact fun h => h _ _ (Run.pure _ _)
  | call c k ih =>
      intro Q w h
      rw [wpAlone_call]
      exact fun r w₂ hH => ih r fun w' a hk => h w' a (Run.call hH hk)
  | loop body s k ihb ih =>
      intro Q w h
      refine ⟨fun s w => ∀ w' a, Run H w (.loop body s k) w' a → Q a w', ?_, h, ?_⟩
      · rintro s w _ hJ rfl -
        exact hJ
      · intro s w _ hJ
        refine ihb s fun w' r hr => ?_
        cases r with
        | inl s' => exact fun w'' a hk => hJ w'' a (Run.next hr hk)
        | inr b => exact ih b fun w'' a hk => hJ w'' a (Run.stop hr hk)

/-! ### Programs that may fail -/

section Fallible

variable {ε : Type} {I : W → Prop} {R G : W → W → Prop}

/-- Sequencing of programs that may fail: an error skips what follows. -/
theorem wp_bindE {p : ExceptT ε (Prog S) α} {f : α → ExceptT ε (Prog S) β}
    {Q : Except ε β → W → Prop} {w : W}
    (h : wp H I R G p.run (fun r w' => match r with
      | .ok a => wp H I R G (f a).run Q w'
      | .error e => Q (.error e) w') w) :
    wp H I R G (p >>= f).run Q w := by
  refine wp_bind (wp_mono ?_ h)
  intro r w' hr
  cases r with
  | ok a => exact hr
  | error e => exact hr

theorem run_bindE {p : ExceptT ε (Prog S) α} {f : α → ExceptT ε (Prog S) β} {w w' : W}
    {r : Except ε β} :
    Run H w (p >>= f).run w' r ↔
      (∃ w₁ a, Run H w p.run w₁ (.ok a) ∧ Run H w₁ (f a).run w' r) ∨
      (∃ e, Run H w p.run w' (.error e) ∧ r = .error e) := by
  constructor
  · intro h
    obtain ⟨w₁, x, hp, hf⟩ := run_bind.mp h
    cases x with
    | ok a => exact Or.inl ⟨w₁, a, hp, hf⟩
    | error e =>
        obtain ⟨rfl, rfl⟩ := run_pure.mp hf
        exact Or.inr ⟨e, hp, rfl⟩
  · rintro (⟨w₁, a, hp, hf⟩ | ⟨e, hp, rfl⟩)
    · exact run_bind.mpr ⟨w₁, .ok a, hp, hf⟩
    · exact run_bind.mpr ⟨w', .error e, hp, Run.pure _ _⟩

/-- A loop whose body may fail: an error leaves it. -/
def Prog.iterateE (body : σ → ExceptT ε (Prog S) (σ ⊕ α)) (s : σ) : ExceptT ε (Prog S) α :=
  ExceptT.mk (Prog.iterate (fun s => (body s).run.bind fun
    | .ok (.inl s') => .pure (.inl s')
    | .ok (.inr a) => .pure (.inr (.ok a))
    | .error e => .pure (.inr (.error e))) s)

theorem wp_iterateE {body : σ → ExceptT ε (Prog S) (σ ⊕ α)} {s : σ}
    {Q : Except ε α → W → Prop} {w : W} (J : σ → W → Prop)
    (hstable : ∀ s w w', J s w → R w w' → I w' → J s w') (hs : J s w)
    (hbody : ∀ s w, I w → J s w → wp H I R G (body s).run (fun r w' => match r with
      | .ok (.inl s') => J s' w'
      | .ok (.inr a) => Q (.ok a) w'
      | .error e => Q (.error e) w') w) :
    wp H I R G (Prog.iterateE body s).run Q w := by
  refine wp_iterate J hstable hs fun s w hI hJ => wp_bind (wp_mono ?_ (hbody s w hI hJ))
  intro r w' hr
  rcases r with e | s' | a
  · exact hr
  · exact hr
  · exact hr

end Fallible

end Effect
