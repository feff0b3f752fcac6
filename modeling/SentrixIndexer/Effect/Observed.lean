/-
Systems with an observer.

An observer follows the calls of all tasks and keeps a record of its own, which each answer
moves on and a crash starts over.  No program sees the record, so the observed system runs
as the system does (`Reachable.unobserved`); but a condition on a step may now speak of what
has happened before it.  A chronicler sees the state an answer leaves as well, and keeps its
record through crashes.

What is known of every reachable state may be assumed of the state before each answer
(`Reachable.assuming`).  So an invariant that has been proved once need not be carried
through the proof of the next one.
-/
import SentrixIndexer.Effect.Tasks

namespace Effect

variable {S : Signature} {ι W M α : Type}

/-- The system with an observer, whose record is `m₀` after a crash. -/
def System.observe (sys : System S ι W α) (note : M → (c : S.Call) → S.Answer c → M) (m₀ : M) :
    System S ι (W × M) α where
  handler i x c r x' := sys.handler i x.1 c r x'.1 ∧ x'.2 = note x.2 c r
  spawn := sys.spawn
  env x x' := sys.env x.1 x'.1 ∧ x'.2 = x.2
  crash x x' := sys.crash x.1 x'.1 ∧ x'.2 = m₀

/-- The system with a chronicler. -/
def System.chronicle (sys : System S ι W α) (note : M → (c : S.Call) → S.Answer c → W → M) :
    System S ι (W × M) α where
  handler i x c r x' := sys.handler i x.1 c r x'.1 ∧ x'.2 = note x.2 c r x'.1
  spawn := sys.spawn
  env x x' := sys.env x.1 x'.1 ∧ x'.2 = x.2
  crash x x' := sys.crash x.1 x'.1 ∧ x'.2 = x.2

variable [DecidableEq ι] {sys : System S ι W α} {w₀ : W}

/-- **An observed run is a run.** -/
theorem Reachable.unobserved {note : M → (c : S.Call) → S.Answer c → M} {m₀ m : M}
    {c : Config S ι (W × M) α} (h : Reachable (sys.observe note m₀) (w₀, m) c) :
    Reachable sys w₀ ⟨c.world.1, c.prog⟩ :=
  h.simulated Prod.fst (fun _ _ _ _ _ _ hH => hH.1) (fun _ _ hs => hs) (fun _ _ he => he.1)
    fun _ _ hc => hc.1

/-- **What is known of every reachable state may be assumed before each answer.** -/
theorem Reachable.assuming {P : W → Prop} (hP : ∀ c, Reachable sys w₀ c → P c.world)
    {c : Config S ι W α} (h : Reachable sys w₀ c) :
    Reachable (sys.answering fun w _ _ _ => P w) w₀ c :=
  h.simulated id (fun c hc _ _ _ _ hH => ⟨hH, hP c hc⟩) (fun _ _ hs => hs) (fun _ _ he => he)
    fun _ _ hcr => hcr

end Effect
