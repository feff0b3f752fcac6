/-
When the breaker is open.

Over any calls at times that do not run backwards, the breaker is open exactly when a failure
that tripped it lies less than a window back: whatever comes in between, a success or a late
failure, ends the window no earlier.  That takes a counter that has not wrapped, and a window
whose end the clock can name.
-/
import SentrixIndexer.Cache.Client

namespace SentrixIndexer

open Effect

section Trace

variable {cfg : BreakerConfig} {past : List TimedCall} {now : Nat}

/-- The calls come at times that do not run backwards, up to now. -/
def Chronological (past : List TimedCall) (now : Nat) : Prop :=
  past.Pairwise (fun later earlier => earlier.time ≤ later.time) ∧ ∀ c ∈ past, c.time ≤ now

/-- A call at this moment finds the window over. -/
def halfOpens (cfg : BreakerConfig) (past : List TimedCall) (now : Nat) : Bool :=
  (breakerAfter cfg past).openUntil.any fun deadline => deadline ≤ now

/-- How many failures there were since the start, the last success and the last reset. -/
def failuresSince (cfg : BreakerConfig) : List TimedCall → Nat
  | [] => 0
  | ⟨.isOpen, now⟩ :: past => if halfOpens cfg past now then 0 else failuresSince cfg past
  | ⟨.recordSuccess, _⟩ :: _ => 0
  | ⟨.recordFailure, _⟩ :: past => failuresSince cfg past + 1

theorem failuresSince_failure (s : Nat) :
    failuresSince cfg (⟨.recordFailure, s⟩ :: past) = failuresSince cfg past + 1 := rfl

/-- A failure was at least the `threshold`-th, and its window is not over. -/
def Tripped (cfg : BreakerConfig) (past : List TimedCall) (now : Nat) : Prop :=
  ∃ later s earlier, past = later ++ ⟨.recordFailure, s⟩ :: earlier ∧ s ≤ now ∧
    now < s + cfg.openFor.toNat ∧
    cfg.threshold.toNat ≤ failuresSince cfg (⟨.recordFailure, s⟩ :: earlier)

/-- No failure makes the counter wrap, and none that trips the breaker panics. -/
def WithinRange (cfg : BreakerConfig) (past : List TimedCall) : Prop :=
  ∀ later s earlier, past = later ++ ⟨.recordFailure, s⟩ :: earlier →
    failuresSince cfg (⟨.recordFailure, s⟩ :: earlier) < 2 ^ 32 ∧
      (cfg.threshold.toNat ≤ failuresSince cfg (⟨.recordFailure, s⟩ :: earlier) →
        s + cfg.openFor.toNat ≤ latestInstant)

theorem WithinRange.earlier {c : TimedCall} (h : WithinRange cfg (c :: past)) :
    WithinRange cfg past :=
  fun later s earlier hsplit => h (c :: later) s earlier (by rw [hsplit, List.cons_append])

theorem withinRange_nil : WithinRange cfg [] :=
  fun _ _ _ hsplit => absurd hsplit (by simp)

theorem WithinRange.failure {s : Nat} (h : WithinRange cfg past)
    (hcount : failuresSince cfg past + 1 < 2 ^ 32)
    (hclock : cfg.threshold.toNat ≤ failuresSince cfg past + 1 →
      s + cfg.openFor.toNat ≤ latestInstant) :
    WithinRange cfg (⟨.recordFailure, s⟩ :: past) := by
  intro later s' earlier hsplit
  cases later with
  | nil =>
      obtain ⟨hcall, rfl⟩ := List.cons.inj hsplit
      obtain ⟨-, rfl⟩ := TimedCall.mk.inj hcall
      exact ⟨hcount, hclock⟩
  | cons d later => exact h later s' earlier (List.cons.inj hsplit).2

theorem Chronological.earlier {c : TimedCall} (h : Chronological (c :: past) now) :
    Chronological past c.time :=
  ⟨(List.pairwise_cons.mp h.1).2, (List.pairwise_cons.mp h.1).1⟩

/-- A call that is no failure trips nothing. -/
theorem tripped_cons_of_ne {c : TimedCall} (hc : c.call ≠ .recordFailure) :
    Tripped cfg (c :: past) now ↔ Tripped cfg past now := by
  constructor
  · intro h
    obtain ⟨later, s, earlier, hsplit, hrest⟩ := h
    cases later with
    | nil =>
        obtain ⟨rfl, -⟩ := List.cons.inj hsplit
        exact absurd rfl hc
    | cons d later => exact ⟨later, s, earlier, (List.cons.inj hsplit).2, hrest⟩
  · intro h
    obtain ⟨later, s, earlier, hsplit, hrest⟩ := h
    exact ⟨c :: later, s, earlier, by rw [hsplit, List.cons_append], hrest⟩

/-- A failure trips the breaker itself, or leaves what was. -/
theorem tripped_cons_failure {s : Nat} (hs : s ≤ now) :
    Tripped cfg (⟨.recordFailure, s⟩ :: past) now ↔
      (now < s + cfg.openFor.toNat ∧ cfg.threshold.toNat ≤ failuresSince cfg past + 1) ∨
        Tripped cfg past now := by
  constructor
  · intro h
    obtain ⟨later, s', earlier, hsplit, hnow, hwindow, htrip⟩ := h
    cases later with
    | nil =>
        obtain ⟨hcall, rfl⟩ := List.cons.inj hsplit
        obtain ⟨-, rfl⟩ := TimedCall.mk.inj hcall
        exact .inl ⟨hwindow, htrip⟩
    | cons d later =>
        exact .inr ⟨later, s', earlier, (List.cons.inj hsplit).2, hnow, hwindow, htrip⟩
  · intro h
    rcases h with ⟨hwindow, htrip⟩ | ⟨later, s', earlier, hsplit, hrest⟩
    · exact ⟨[], s, past, rfl, hs, hwindow, htrip⟩
    · exact ⟨_ :: later, s', earlier, by rw [hsplit, List.cons_append], hrest⟩

/-- A window that is open later was open before. -/
theorem Tripped.before {t : Nat} (h : Tripped cfg past t) (hnow : now ≤ t)
    (hpast : ∀ c ∈ past, c.time ≤ now) : Tripped cfg past now := by
  obtain ⟨later, s, earlier, hsplit, -, hwindow, htrip⟩ := h
  have hs : s ≤ now := hpast ⟨.recordFailure, s⟩ (by simp [hsplit])
  exact ⟨later, s, earlier, hsplit, hs, by omega, htrip⟩

theorem isOpen_eq_true {b : CircuitBreaker} :
    (b.isOpen now).1 = true ↔ ∃ deadline, b.openUntil = some deadline ∧ now < deadline := by
  unfold CircuitBreaker.isOpen
  cases b.openUntil with
  | none => simp
  | some deadline => by_cases h : now < deadline <;> simp [h]

/-- A failure is counted, come what may. -/
theorem failures_recordFailure (b : CircuitBreaker) :
    (b.recordFailure cfg now).2.failures = b.failures + 1 := by
  unfold CircuitBreaker.recordFailure
  by_cases h : b.failures + 1 ≥ cfg.threshold
  · rw [if_pos h]
    cases instantAdd now cfg.openFor <;> rfl
  · rw [if_neg h]

theorem instantAdd_eq_ok {d : Duration} (h : now + d.toNat ≤ latestInstant) :
    instantAdd now d = .ok (now + d.toNat) := if_pos h

/-- From the threshold on it sets the latch, if the clock goes that far. -/
theorem openUntil_recordFailure {b : CircuitBreaker} (h : b.failures + 1 ≥ cfg.threshold)
    (hclock : now + cfg.openFor.toNat ≤ latestInstant) :
    (b.recordFailure cfg now).2.openUntil = some (now + cfg.openFor.toNat) := by
  unfold CircuitBreaker.recordFailure
  rw [if_pos h, instantAdd_eq_ok hclock]

theorem openUntil_recordFailure_of_lt {b : CircuitBreaker} (h : ¬ b.failures + 1 ≥ cfg.threshold) :
    (b.recordFailure cfg now).2.openUntil = b.openUntil := by
  unfold CircuitBreaker.recordFailure
  rw [if_neg h]

/-- Below the last word, counting does not wrap. -/
theorem toNat_succ {n : UInt32} {k : Nat} (hn : n.toNat = k) (hk : k + 1 < 2 ^ 32) :
    (n + 1).toNat = k + 1 := by
  have hone : (1 : UInt32).toNat = 1 := rfl
  rw [UInt32.toNat_add, hn, hone, Nat.mod_eq_of_lt hk]

/-- **The counter counts** the failures since the last reset. -/
theorem failures_breakerAfter (hrange : WithinRange cfg past) :
    (breakerAfter cfg past).failures.toNat = failuresSince cfg past := by
  induction past with
  | nil => rfl
  | cons c past ih =>
      have ih := ih hrange.earlier
      obtain ⟨call, time⟩ := c
      cases call with
      | isOpen =>
          unfold breakerAfter failuresSince halfOpens CircuitBreaker.isOpen
          cases (breakerAfter cfg past).openUntil with
          | none => exact ih
          | some deadline =>
              by_cases h : time < deadline
              · simp [h, Nat.not_le.mpr h, ih]
              · simp [h, Nat.not_lt.mp h]
      | recordSuccess => rfl
      | recordFailure =>
          obtain ⟨hcount, -⟩ := hrange [] time past rfl
          rw [failuresSince_failure] at hcount
          show ((breakerAfter cfg past).recordFailure cfg time).2.failures.toNat = _
          rw [failures_recordFailure, failuresSince_failure]
          exact toNat_succ ih hcount

/-- **The law of the breaker.** -/
theorem isOpen_iff_tripped (hrange : WithinRange cfg past) :
    ∀ {now : Nat}, Chronological past now →
      (((breakerAfter cfg past).isOpen now).1 = true ↔ Tripped cfg past now) := by
  induction past with
  | nil =>
      intro now _
      refine ⟨fun h => absurd h Bool.false_ne_true, fun h => ?_⟩
      obtain ⟨later, s, earlier, hsplit, -⟩ := h
      exact absurd hsplit (by simp)
  | cons c past ih =>
      intro now horder
      have hearlier := horder.earlier
      have hnow : c.time ≤ now := horder.2 c (List.mem_cons_self ..)
      have hpast : Chronological past now :=
        ⟨hearlier.1, fun d hd => horder.2 d (List.mem_cons_of_mem _ hd)⟩
      have ih := @ih hrange.earlier
      obtain ⟨call, time⟩ := c
      cases call with
      | isOpen =>
          rw [tripped_cons_of_ne (by simp), ← ih hpast]
          -- A reset at `time` loses no window: none is open from then on.
          show ((((breakerAfter cfg past).isOpen time).2).isOpen now).1 = true ↔ _
          by_cases hreset : ((breakerAfter cfg past).isOpen time).1 = true
          · obtain ⟨deadline, hopen, hlt⟩ := isOpen_eq_true.mp hreset
            have hsame : ((breakerAfter cfg past).isOpen time).2 = breakerAfter cfg past := by
              unfold CircuitBreaker.isOpen
              simp [hopen, hlt]
            rw [hsame]
          · have hclosed : ((breakerAfter cfg past).isOpen time).2.openUntil = none := by
              rw [isOpen_eq_true] at hreset
              unfold CircuitBreaker.isOpen
              cases hopen : (breakerAfter cfg past).openUntil with
              | none => exact hopen
              | some deadline =>
                  have hover : ¬ time < deadline := fun h => hreset ⟨deadline, hopen, h⟩
                  simp [hover]
            rw [isOpen_eq_true, hclosed]
            refine ⟨fun h => absurd h (by simp), fun h => absurd ?_ hreset⟩
            rw [ih hearlier]
            exact ((ih hpast).mp h).before hnow hearlier.2
      | recordSuccess =>
          rw [tripped_cons_of_ne (by simp), ← ih hpast, isOpen_eq_true, isOpen_eq_true]
          exact Iff.rfl
      | recordFailure =>
          rw [tripped_cons_failure hnow, ← ih hpast]
          obtain ⟨hcount, hclock⟩ := hrange [] time past rfl
          rw [failuresSince_failure] at hcount hclock
          have hsucc : ((breakerAfter cfg past).failures + 1).toNat = failuresSince cfg past + 1 :=
            toNat_succ (failures_breakerAfter hrange.earlier) hcount
          have htrips : (breakerAfter cfg past).failures + 1 ≥ cfg.threshold ↔
              cfg.threshold.toNat ≤ failuresSince cfg past + 1 := by
            rw [ge_iff_le, UInt32.le_iff_toNat_le, hsucc]
          show (((breakerAfter cfg past).recordFailure cfg time).2.isOpen now).1 = true ↔ _
          by_cases htrip : cfg.threshold.toNat ≤ failuresSince cfg past + 1
          · rw [isOpen_eq_true, openUntil_recordFailure (htrips.mpr htrip) (hclock htrip)]
            constructor
            · intro h
              obtain ⟨deadline, hdeadline, hlt⟩ := h
              exact .inl ⟨Option.some.inj hdeadline ▸ hlt, htrip⟩
            · intro h
              rcases h with ⟨hlt, -⟩ | hold
              · exact ⟨_, rfl, hlt⟩
              · -- An earlier window ends before this one.
                obtain ⟨later, s, earlier, hsplit, -, hwindow, -⟩ := (ih hpast).mp hold
                have hs : s ≤ time := hearlier.2 ⟨.recordFailure, s⟩ (by simp [hsplit])
                exact ⟨_, rfl, by omega⟩
          · have hnot : ¬ (breakerAfter cfg past).failures + 1 ≥ cfg.threshold :=
              fun h => htrip (htrips.mp h)
            rw [isOpen_eq_true, openUntil_recordFailure_of_lt hnot, ← isOpen_eq_true]
            exact ⟨.inr, fun h => h.resolve_left fun hnew => htrip hnew.2⟩

end Trace

/-! ### The client of an open breaker -/

/-- A process, its breaker, and the commands it has issued. -/
structure ClientWorld where
  now : Nat
  breaker : CircuitBreaker
  commands : List RedisCommand

section Client

variable {O : Signature} {cfg : BreakerConfig}

/-- The breaker answers for itself, Redis as it likes; time passes meanwhile. -/
def handleClient (O : Signature) (cfg : BreakerConfig) : Handler (CacheSig O) ClientWorld
  | w, .isOpen, r, w' =>
      w.now ≤ w'.now ∧ w'.commands = w.commands ∧ (r, w'.breaker) = w.breaker.isOpen w.now
  | w, .recordSuccess, _, w' =>
      w.now ≤ w'.now ∧ w'.commands = w.commands ∧ w'.breaker = w.breaker.recordSuccess
  | w, .recordFailure, r, w' =>
      w.now ≤ w'.now ∧ w'.commands = w.commands ∧
        (.ok r, w'.breaker) = w.breaker.recordFailure cfg w.now
  | w, .redis c, _, w' =>
      w.now ≤ w'.now ∧ w'.commands = w.commands ++ [c] ∧ w'.breaker = w.breaker
  | w, .outer _, _, w' =>
      w.now ≤ w'.now ∧ w'.commands = w.commands ∧ w'.breaker = w.breaker

/-- While the breaker is open the program fails with `Open` and issues no command. -/
def SkipsRedis {T : Type} (cfg : BreakerConfig)
    (p : Script (CacheSig O) (Except CacheError T)) : Prop :=
  ∀ w w' r, (w.breaker.isOpen w.now).1 = true → Run (handleClient O cfg) w p.toProg w' r →
    r = .error .circuitOpen ∧ w'.commands = w.commands

/-- **A program that asks the breaker first leaves Redis alone.** -/
theorem skipsRedis_of_asks {T : Type} {p : Script (CacheSig O) (Except CacheError T)} :
    SkipsRedis cfg (CacheClient.ask (O := O) .isOpen >>= fun r : Bool =>
      if r = true then pure (.error .circuitOpen) else p) := by
  intro w w' r hopen hrun
  obtain ⟨b, w₁, ⟨-, hcommands, hanswer⟩, hrun⟩ := run_call.mp hrun
  have hb : b = true := (congrArg Prod.fst hanswer).trans hopen
  subst hb
  obtain ⟨rfl, rfl⟩ := run_pure.mp hrun
  exact ⟨rfl, hcommands⟩

theorem skipsRedis_get {T : Type} (ns : String) (json : Json T) (key : String) :
    SkipsRedis cfg (CacheClient.get O ns json key) := skipsRedis_of_asks

theorem skipsRedis_set {T : Type} (ns : String) (json : Json T) (key : String) (value : T)
    (tier : Tier) : SkipsRedis cfg (CacheClient.set O ns json key value tier) := skipsRedis_of_asks

theorem skipsRedis_invalidate (ns key : String) :
    SkipsRedis cfg (CacheClient.invalidate O ns key) := skipsRedis_of_asks

end Client

/-- The breaker and its client keep their promises after these calls. -/
structure BreakerLaw (cfg : BreakerConfig) (past : List TimedCall) (now : Nat) : Prop where
  opens : ((breakerAfter cfg past).isOpen now).1 = true ↔ Tripped cfg past now
  get : ∀ (O : Signature) {T : Type} ns (json : Json T) key,
    SkipsRedis cfg (CacheClient.get O ns json key)
  set : ∀ (O : Signature) {T : Type} ns (json : Json T) key value tier,
    SkipsRedis cfg (CacheClient.set O ns json key value tier)
  invalidate : ∀ (O : Signature) ns key, SkipsRedis cfg (CacheClient.invalidate O ns key)

/-- **Open is a failure of the last window**, in every trace whose counter does not wrap and
whose windows the clock can name. -/
theorem breaker_law {cfg : BreakerConfig} {past : List TimedCall} {now : Nat}
    (horder : Chronological past now) (hrange : WithinRange cfg past) : BreakerLaw cfg past now where
  opens := isOpen_iff_tripped hrange horder
  get _ _ ns json key := skipsRedis_get ns json key
  set _ _ ns json key value tier := skipsRedis_set ns json key value tier
  invalidate _ ns key := skipsRedis_invalidate ns key

/-- Open for thirty seconds at the second failure. -/
def twoStrikes : BreakerConfig := ⟨2, ⟨30, 0, by decide⟩⟩

theorem breaker_law_two_strikes :
    BreakerLaw twoStrikes [⟨.recordFailure, 9⟩, ⟨.recordFailure, 7⟩] 10 := by
  refine breaker_law ⟨by simp, by simp⟩ ((withinRange_nil.failure ?_ fun _ => ?_).failure ?_
    fun _ => ?_) <;> decide

/-! ### Out of range -/

/-- Never to close again. -/
def forGood : BreakerConfig := ⟨1, ⟨0xffffffffffffffff, 999999999, by decide⟩⟩

/-- Open for ten nanoseconds at the first failure. -/
def tenNanos : BreakerConfig := ⟨1, ⟨0, 10, by decide⟩⟩

/-- So many failures at once. -/
def burst (n : Nat) : List TimedCall := List.replicate n ⟨.recordFailure, 0⟩

theorem failures_burst (cfg : BreakerConfig) (n : Nat) :
    (breakerAfter cfg (burst n)).failures = UInt32.ofNat n := by
  induction n with
  | zero => rfl
  | succ n ih =>
      show ((breakerAfter cfg (burst n)).recordFailure cfg 0).2.failures = _
      rw [failures_recordFailure, ih, UInt32.ofNat_add]
      rfl

theorem failuresSince_burst (cfg : BreakerConfig) (n : Nat) :
    failuresSince cfg (burst n) = n := by
  induction n with
  | zero => rfl
  | succ n ih => exact congrArg Nat.succ ih

/-- The failure that makes the counter wrap does not open the breaker again. -/
theorem burst_wraps {n : Nat} (hn : n + 2 = 2 ^ 32) :
    ¬ ((breakerAfter tenNanos (⟨.recordFailure, 5⟩ :: burst (n + 1))).isOpen 12).1 = true := by
  have hlast : (breakerAfter tenNanos (burst (n + 1))).openUntil = some 10 := by
    show ((breakerAfter tenNanos (burst n)).recordFailure tenNanos 0).2.openUntil = _
    refine openUntil_recordFailure ?_ (by decide)
    rw [failures_burst, show n = 2 ^ 32 - 2 by omega]
    decide
  show ¬ ((((breakerAfter tenNanos (burst (n + 1))).recordFailure tenNanos 5).2).isOpen 12).1 = true
  rw [isOpen_eq_true, openUntil_recordFailure_of_lt, hlast]
  · intro h
    obtain ⟨deadline, hdeadline, hlt⟩ := h
    have hten := Option.some.inj hdeadline
    omega
  · rw [failures_burst, show n + 1 = 2 ^ 32 - 1 by omega]
    decide

/-- **A window for good makes the first failure panic, and the `2 ^ 32`-th failure in a row is
none**: the breaker is closed where it should be open. -/
theorem out_of_range_breaks_law :
    (Chronological [⟨.recordFailure, 0⟩] 0 ∧ ¬ BreakerLaw forGood [⟨.recordFailure, 0⟩] 0) ∧
      Chronological (⟨.recordFailure, 5⟩ :: burst (2 ^ 32 - 1)) 12 ∧
        ¬ BreakerLaw tenNanos (⟨.recordFailure, 5⟩ :: burst (2 ^ 32 - 1)) 12 := by
  refine ⟨⟨⟨by simp, by simp⟩, fun h => ?_⟩, ⟨?_, ?_⟩, fun h => ?_⟩
  · have hclosed : ¬ ((breakerAfter forGood [⟨.recordFailure, 0⟩]).isOpen 0).1 = true := by decide
    exact hclosed (h.opens.mpr ⟨[], 0, [], rfl, Nat.le_refl 0, by decide, by decide⟩)
  · have htimes : ∀ c ∈ burst (2 ^ 32 - 1), c.time = 0 :=
      fun c hc => by rw [List.eq_of_mem_replicate hc]
    refine List.pairwise_cons.mpr ⟨fun c hc => by rw [htimes c hc]; exact Nat.zero_le _, ?_⟩
    exact List.pairwise_replicate.mpr (.inr (Nat.le_refl 0))
  · intro c hc
    rcases List.mem_cons.mp hc with rfl | hc
    · decide
    · rw [List.eq_of_mem_replicate hc]
      decide
  · rw [show 2 ^ 32 - 1 = (2 ^ 32 - 2) + 1 by omega] at h
    refine burst_wraps (by omega) (h.opens.mpr ⟨[], 5, _, rfl, by omega, ?_, ?_⟩)
    · decide
    · rw [failuresSince_failure, failuresSince_burst]
      decide

end SentrixIndexer
