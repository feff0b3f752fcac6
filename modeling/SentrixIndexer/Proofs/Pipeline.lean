/-
The pipeline of the backfill loop.

Whatever the executor does, the pipeline hands out the heights in order, each with
what its own fetch came to.  The rule is stated once, for any interference, and both
the interleaving of writers and a backfill that runs alone use it; so is the rule of
the retries every chain call of the pipeline makes.
-/
import SentrixIndexer.Sync.Backfill

namespace SentrixIndexer

open Effect

/-! ### Retries -/

section Retry

variable {S : Signature} {W α : Type} {H : Handler S W} {I : W → Prop} {R G : W → W → Prop}

/-- A retried call makes the calls of its attempts, and sleeps. -/
theorem retryFrom_only {A : S.Call → Prop} {sleep : Nat → Script S Unit} {cfg : BackoffConfig}
    {op : Script S (Except ChainError α)} (hop : op.Only A) (hsleep : ∀ nanos, (sleep nanos).Only A) :
    ∀ left attempt, (retryFrom sleep cfg op attempt left).Only A := by
  intro left
  induction left with
  | zero =>
      intro attempt
      unfold retryFrom
      refine Script.Only.bind hop fun r => ?_
      cases r with
      | ok v => exact trivial
      | error e =>
          by_cases he : e.isTransient = true
          · simp only [he, if_true]
            exact trivial
          · simp only [he]
            exact trivial
  | succ left ih =>
      intro attempt
      unfold retryFrom
      refine Script.Only.bind hop fun r => ?_
      cases r with
      | ok v => exact trivial
      | error e =>
          by_cases he : e.isTransient = true
          · simp only [he, if_true]
            exact Script.Only.bind (hsleep _) fun _ => ih _
          · simp only [he]
            exact trivial

/--
**The rule of retries.**  `J k` holds before the `k`-th attempt, the last being the
`last`-th; what a single attempt promises of its answer, the retried call promises.
-/
theorem wp_retryFrom_inv {sleep : Nat → Script S Unit} {cfg : BackoffConfig}
    {op : Script S (Except ChainError α)} {Q : Except ChainError α → W → Prop}
    {J : Nat → W → Prop} {last : Nat}
    (hop : ∀ k w, J k w → wp H I R G op.toProg (fun r w' => match r with
      | .ok v => Q (.ok v) w'
      | .error e => if e.isTransient = true ∧ k < last then J (k + 1) w' else Q (.error e) w') w)
    (hsleep : ∀ k nanos w, J k w →
      wp H I R G (sleep nanos).toProg (fun _ w' => J k w') w) :
    ∀ (left attempt : Nat) (w : W), attempt + left = last → J attempt w →
      wp H I R G (retryFrom sleep cfg op attempt left).toProg Q w := by
  intro left
  induction left with
  | zero =>
      intro attempt w hlast hJ
      unfold retryFrom
      refine wp_script_bind (wp_mono (fun r w₁ hr => ?_) (hop attempt w hJ))
      cases r with
      | ok v => exact hr
      | error e =>
          have hQ : Q (.error e) w₁ := by
            have hpost : if e.isTransient = true ∧ attempt < last then J (attempt + 1) w₁
              else Q (.error e) w₁ := hr
            rwa [if_neg (by omega)] at hpost
          by_cases he : e.isTransient = true
          · simp only [he, if_true]
            exact hQ
          · simp only [he]
            exact hQ
  | succ left ih =>
      intro attempt w hlast hJ
      unfold retryFrom
      refine wp_script_bind (wp_mono (fun r w₁ hr => ?_) (hop attempt w hJ))
      cases r with
      | ok v => exact hr
      | error e =>
          have hpost : if e.isTransient = true ∧ attempt < last then J (attempt + 1) w₁
            else Q (.error e) w₁ := hr
          by_cases he : e.isTransient = true
          · simp only [he, if_true]
            rw [if_pos ⟨he, by omega⟩] at hpost
            exact wp_script_bind (wp_mono (fun _ w₂ hJ₂ => ih (attempt + 1) w₂ (by omega) hJ₂)
              (hsleep _ _ w₁ hpost))
          · simp only [he]
            rwa [if_neg (fun h => he h.1)] at hpost

/-- A retried call promises what every single attempt promises. -/
theorem wp_retryFrom {sleep : Nat → Script S Unit} {cfg : BackoffConfig}
    {op : Script S (Except ChainError α)} {Q : Except ChainError α → W → Prop}
    (hop : ∀ w, wp H I R G op.toProg Q w)
    (hsleep : ∀ nanos w, wp H I R G (sleep nanos).toProg (fun _ _ => True) w)
    (left attempt : Nat) (w : W) :
    wp H I R G (retryFrom sleep cfg op attempt left).toProg Q w := by
  refine wp_retryFrom_inv (J := fun _ _ => True) (fun k w _ => ?_) (fun _ nanos w _ => hsleep nanos w)
    left attempt w rfl trivial
  refine wp_mono (fun r w' hr => ?_) (hop w)
  cases r with
  | ok v => exact hr
  | error e =>
      show if _ then True else Q (.error e) w'
      split
      · exact trivial
      · exact hr

end Retry

/-! ### Ranges of heights -/

theorem inclusive_of_lt {start cap : Int} (h : cap < start) : inclusive start cap = [] := by
  unfold inclusive
  rw [show (cap + 1 - start).toNat = 0 by omega]
  rfl

theorem inclusive_of_le {start cap : Int} (h : start ≤ cap) :
    inclusive start cap = start :: inclusive (start + 1) cap := by
  unfold inclusive
  rw [show (cap + 1 - start).toNat = (cap + 1 - (start + 1)).toNat + 1 by omega,
    List.range_succ_eq_map, List.map_cons, List.map_map]
  congr 1
  · simp
  · apply List.map_congr_left
    intro k _
    show start + ((k + 1 : Nat) : Int) = start + 1 + (k : Int)
    omega

/-- The head of a range is its start. -/
theorem inclusive_eq_cons {start cap h : Int} {rest : List Int}
    (he : inclusive start cap = h :: rest) :
    h = start ∧ start ≤ cap ∧ rest = inclusive (start + 1) cap := by
  by_cases hle : start ≤ cap
  · rw [inclusive_of_le hle] at he
    obtain ⟨rfl, rfl⟩ := List.cons.inj he
    exact ⟨rfl, hle, rfl⟩
  · rw [inclusive_of_lt (by omega)] at he
    exact absurd he (by simp)

theorem mem_inclusive {start cap h : Int} : h ∈ inclusive start cap ↔ start ≤ h ∧ h ≤ cap := by
  unfold inclusive
  rw [List.mem_map]
  constructor
  · intro hex
    obtain ⟨k, hk, rfl⟩ := hex
    have := List.mem_range.mp hk
    omega
  · intro hrange
    exact ⟨(h - start).toNat, List.mem_range.mpr (by omega), by omega⟩

/-- A range in two parts. -/
theorem inclusive_append {start cap : Int} (mid : Int) (hs : start ≤ mid + 1) (hc : mid ≤ cap) :
    inclusive start cap = inclusive start mid ++ inclusive (mid + 1) cap := by
  obtain ⟨k, hk⟩ : ∃ k : Nat, mid + 1 = start + k := ⟨(mid + 1 - start).toNat, by omega⟩
  induction k generalizing start with
  | zero =>
      rw [inclusive_of_lt (show mid < start by omega), List.nil_append,
        show start = mid + 1 by omega]
  | succ k ih =>
      rw [inclusive_of_le (show start ≤ cap by omega),
        inclusive_of_le (show start ≤ mid by omega), List.cons_append,
        ih (by omega) (by omega)]

/-! ### Handing out results in height order -/

namespace Pipeline

/-- The heights the pipeline still has to hand out, in order. -/
def heights (p : Pipeline) : List Int := p.inflight.map Prod.fst ++ p.todo

theorem heights_fill (n : Nat) (p : Pipeline) : (p.fill n).heights = p.heights := by
  unfold heights fill
  rw [List.map_append, List.map_map]
  have hid : (Prod.fst ∘ fun h => (h, (fetchOne h).run)) = (id : Int → Int) := rfl
  rw [hid, List.map_id, List.append_assoc, List.take_append_drop]

/-- A full window is empty only when nothing is left. -/
theorem heights_of_inflight_nil {n : Nat} (hn : 0 < n) {p : Pipeline}
    (h : (p.fill n).inflight = []) : p.heights = [] := by
  unfold fill at h
  rw [List.append_eq_nil_iff] at h
  obtain ⟨hin, htake⟩ := h
  unfold heights
  rw [hin]
  rw [hin, List.map_eq_nil_iff, List.take_eq_nil_iff] at htake
  rcases htake with h0 | hnil
  · simp at h0
    omega
  · rw [hnil]
    rfl

end Pipeline

section Rule

variable {W : Type} {H : Handler SyncSig W} {I : W → Prop} {R G Rs Gs E : W → W → Prop}
variable {C : W → Prop} {Q : Int → Except SyncError (Option BlockBundle) → W → Prop}

/-- What the `select!` yields for the heights still to come, when a cancelled state is a `C`. -/
def NextPost (H : Handler SyncSig W) (I C : W → Prop) (Rs Gs : W → W → Prop)
    (Q : Int → Except SyncError (Option BlockBundle) → W → Prop) (hs : List Int) :
    Next → W → Prop
  | .cancelled, w => C w
  | .finished, _ => hs = []
  | .item h result rest, w =>
      hs = h :: rest.heights ∧ Q h result w ∧ PoolOk H I Rs Gs Q rest.inflight w

/-- **The rule of the pipeline.** -/
theorem wp_nextItem {tuning : Tuning} (hrefl : ∀ w, E w w)
    (htrans : ∀ w₁ w₂ w₃, E w₁ w₂ → E w₂ w₃ → E w₁ w₃)
    (htransS : ∀ w₁ w₂ w₃, Rs w₁ w₂ → Rs w₂ w₃ → Rs w₁ w₃)
    (hR : ∀ w w', R w w' → E w w') (hGs : ∀ w w', Gs w w' → E w w' ∧ G w w')
    (hE : ∀ w w', E w w' → Rs w w')
    (hQ : ∀ k a w w', Q k a w → Rs w w' → I w' → Q k a w')
    (hcancelled : ∀ w, I w →
      wp H I R G SyncCall.isCancelled.await
        (fun stop w' => I w' ∧ E w w' ∧ (stop = true → C w')) w)
    (hschedule : ∀ hs w, I w →
      wp H I R G (SyncCall.schedule hs).await (fun _ w' => I w' ∧ E w w') w)
    {p : Pipeline} (hfetch : ∀ h ∈ p.heights, ∀ w, I w →
      wp H I Rs Gs (fetchOne h).run.toProg (Q h) w)
    {w : W} (hp : PoolOk H I Rs Gs Q p.inflight w) :
    wp H I R G (Prog.iterate (pollNext tuning) p)
      (fun next w' => E w w' ∧ NextPost H I C Rs Gs Q p.heights next w') w := by
  refine wp_iterate
    (fun q w' => E w w' ∧ q.heights = p.heights ∧ PoolOk H I Rs Gs Q q.inflight w') ?_
    ⟨hrefl w, rfl, hp⟩ ?_
  · intro q w₁ w₂ hJ hR₁ hI
    obtain ⟨hE₁, hh, hq⟩ := hJ
    exact ⟨htrans _ _ _ hE₁ (hR _ _ hR₁), hh, hq.stable htransS hQ (hE _ _ (hR _ _ hR₁)) hI⟩
  · intro q w₁ hI₁ hJ
    obtain ⟨hE₁, hh, hq⟩ := hJ
    refine wp_bind (wp_mono ?_ (hcancelled w₁ hI₁))
    intro stop w₂ hw₂
    obtain ⟨hI₂, hE₂, hstop⟩ := hw₂
    have hE₂' := htrans _ _ _ hE₁ hE₂
    cases stop with
    | true => exact ⟨hE₂', hstop rfl⟩
    | false =>
        -- The fetches just started are verified like the ones in flight.
        have hfill : PoolOk H I Rs Gs Q (q.fill tuning.concurrency).inflight w₂ := by
          intro e he
          rcases List.mem_append.mp he with hold | hnew
          · exact hq.stable htransS hQ (hE _ _ hE₂) hI₂ e hold
          · obtain ⟨h, hstart, rfl⟩ := List.mem_map.mp hnew
            have hmem : h ∈ q.heights := List.mem_append_right _ (List.mem_of_mem_take hstart)
            exact hfetch h (hh ▸ hmem) w₂ hI₂
        have hheights : (q.fill tuning.concurrency).heights = p.heights := by
          rw [Pipeline.heights_fill, hh]
        show wp H I R G (if (q.fill tuning.concurrency).inflight.isEmpty = true
          then Prog.pure (Sum.inr Next.finished) else _) _ w₂
        by_cases hempty : (q.fill tuning.concurrency).inflight.isEmpty = true
        · rw [if_pos hempty]
          refine ⟨hE₂', ?_⟩
          show p.heights = []
          rw [← hh]
          exact Pipeline.heights_of_inflight_nil tuning.concurrency_pos
            (List.isEmpty_iff.mp hempty)
        · rw [if_neg hempty]
          refine wp_bind (wp_mono ?_ (wp_turn hrefl htrans htransS hR hGs hE hQ hI₂
            (hschedule _ w₂ hI₂) hfill))
          intro r w₃ hr
          obtain ⟨-, hE₃, hpost⟩ := hr
          have hE₃' := htrans _ _ _ hE₂' hE₃
          rcases r with inflight | ⟨h, result, rest⟩
          · obtain ⟨hkeys, hpool⟩ := hpost
            refine ⟨hE₃', ?_, hpool⟩
            rw [← hheights]
            show inflight.map Prod.fst ++ _ = _
            rw [hkeys]
            rfl
          · obtain ⟨hkeys, hresult, hpool⟩ := hpost
            refine ⟨hE₃', ?_, hresult, hpool⟩
            rw [← hheights]
            unfold Pipeline.heights
            rw [hkeys]
            rfl

end Rule

end SentrixIndexer
