/-
Runs that are left before their end.

`GetsTo H w p w'` says that the program may get from `w` to `w'`, finished or not.  A run that
is to be exhibited is put together of its parts: those that are run to their end, and the one
that is left (`getsTo_scriptE_bind`).  A part need not be executed, if it is only known what
its calls may be answered: a script always has a run (`Script.exists_run`), and what its
precondition promises holds of this one.
-/
import SentrixIndexer.Effect.Succeeds
import SentrixIndexer.Effect.Tasks

namespace Effect

variable {S : Signature} {W α β σ ε : Type} {H : Handler S W} {w w₁ w' : W}

/-- Some steps of the program lead from the one state to the other. -/
def GetsTo (H : Handler S W) (w : W) (p : Prog S α) (w' : W) : Prop := ∃ p', Steps H w p w' p'

/-- A run of the first part, and some steps of the rest. -/
theorem getsTo_bind {p : Prog S α} {f : α → Prog S β} {a : α} (hp : Run H w p w₁ a)
    (hf : GetsTo H w₁ (f a) w') : GetsTo H w (p.bind f) w' := by
  obtain ⟨q, hq⟩ := hf
  exact ⟨q, (hp.steps.bind f).trans hq⟩

/-- Some steps of the first part. -/
theorem GetsTo.bind {p : Prog S α} (h : GetsTo H w p w') (f : α → Prog S β) :
    GetsTo H w (p.bind f) w' := by
  obtain ⟨q, hq⟩ := h
  exact ⟨_, hq.bind f⟩

theorem getsTo_bindE {p : ExceptT ε (Prog S) α} {f : α → ExceptT ε (Prog S) β} {a : α}
    (hp : Run H w p.run w₁ (.ok a)) (hf : GetsTo H w₁ (f a).run w') :
    GetsTo H w (p >>= f).run w' := getsTo_bind hp hf

theorem getsTo_scriptE_bind {p : ExceptT ε (Script S) α} {f : α → ExceptT ε (Script S) β} {a : α}
    (hp : Run H w p.run.toProg w₁ (.ok a)) (hf : GetsTo H w₁ (Script.toProgE (f a)).run w') :
    GetsTo H w (Script.toProgE (p >>= f)).run w' := by
  rw [Script.toProgE_bind]
  exact getsTo_bindE hp hf

/-- Some steps of the first pass of a loop. -/
theorem getsTo_iterateE {body : σ → ExceptT ε (Prog S) (σ ⊕ α)} {s : σ}
    (h : GetsTo H w (body s).run w') : GetsTo H w (Prog.iterateE body s).run w' := by
  obtain ⟨q, hq⟩ := h.bind _
  obtain ⟨q', hq'⟩ : GetsTo H w _ w' := GetsTo.bind ⟨q, hq⟩ (Prog.again _ Prog.pure)
  exact ⟨q', .head (.loop w _ s _) hq'⟩

/-- **A script always has a run**, where every call has an answer. -/
theorem Script.exists_run {J : W → Prop} (hanswer : ∀ w c, J w → ∃ r w', H w c r w' ∧ J w')
    {p : Script S α} : ∀ {w : W}, J w → ∃ w' a, Run H w p.toProg w' a ∧ J w' := by
  induction p with
  | pure a => exact fun hJ => ⟨_, a, Run.pure _ _, hJ⟩
  | call c k ih =>
      intro w hJ
      obtain ⟨r, w₁, hH, hJ₁⟩ := hanswer w c hJ
      obtain ⟨w', a, hrun, hJ'⟩ := ih r hJ₁
      exact ⟨w', a, Run.call hH hrun, hJ'⟩

end Effect
