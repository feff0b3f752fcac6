/-
When generated request ids are distinct.

The id is the exclusive or of two words, the time and the number of the request, so what the
one gains the other can take back.  Two ids are equal exactly when the seconds differ in the
bits in which the upper halves of the numbers do, and the nanoseconds in those of the lower
halves.  Before the counter has filled its lower half that can only be within one second; but
there an even number of nanoseconds and the next one are enough.
-/
import SentrixIndexer.Api.RequestId

namespace SentrixIndexer

/-! ### Halves of a word -/

def upperHalf (w : UInt64) : UInt32 := (w >>> 32).toUInt32

def lowerHalf (w : UInt64) : UInt32 := w.toUInt32

theorem upperHalf_xor (v w : UInt64) : upperHalf (v ^^^ w) = upperHalf v ^^^ upperHalf w := by
  rw [upperHalf, UInt64.shiftRight_xor, UInt64.toUInt32_xor]
  rfl

theorem lowerHalf_xor (v w : UInt64) : lowerHalf (v ^^^ w) = lowerHalf v ^^^ lowerHalf w :=
  UInt64.toUInt32_xor v w

theorem toNat_upperHalf (w : UInt64) : (upperHalf w).toNat = w.toNat / 2 ^ 32 := by
  have hw := w.toNat_lt
  simp only [upperHalf, UInt64.toNat_toUInt32, UInt64.toNat_shiftRight, Nat.shiftRight_eq_div_pow]
  simp
  omega

theorem toNat_lowerHalf (w : UInt64) : (lowerHalf w).toNat = w.toNat % 2 ^ 32 :=
  UInt64.toNat_toUInt32 w

/-- Two halves make the word. -/
theorem eq_iff_halves {v w : UInt64} :
    v = w ↔ upperHalf v = upperHalf w ∧ lowerHalf v = lowerHalf w := by
  constructor
  · rintro rfl
    exact ⟨rfl, rfl⟩
  · rintro ⟨hupper, hlower⟩
    have hu := congrArg UInt32.toNat hupper
    have hl := congrArg UInt32.toNat hlower
    rw [toNat_upperHalf, toNat_upperHalf] at hu
    rw [toNat_lowerHalf, toNat_lowerHalf] at hl
    exact UInt64.toNat_inj.mp (by omega)

/-! ### Halves of the time -/

/-- The seconds, as far as they fit; zero for a clock before the epoch. -/
def clockSecs (clock : Option Duration) : UInt32 := (clock.map fun d => d.secs.toUInt32).getD 0

def clockNanos (clock : Option Duration) : UInt32 := (clock.map Duration.nanos).getD 0

theorem toNat_clockBits (d : Duration) :
    (clockBits (some d)).toNat = d.secs.toNat % 2 ^ 32 * 2 ^ 32 + d.nanos.toNat := by
  have hnanos := d.nanos.toNat_lt
  have hshift : (d.secs <<< 32).toNat = (d.secs.toNat % 2 ^ 32) <<< 32 := by
    rw [UInt64.toNat_shiftLeft, Nat.shiftLeft_eq, Nat.shiftLeft_eq]
    show d.secs.toNat * 2 ^ 32 % 2 ^ 64 = d.secs.toNat % 2 ^ 32 * 2 ^ 32
    omega
  rw [clockBits, UInt64.toNat_or, hshift, UInt32.toNat_toUInt64, Nat.or_comm,
    ← Nat.shiftLeft_add_eq_or_of_lt hnanos, Nat.shiftLeft_eq]

theorem upperHalf_clockBits (clock : Option Duration) :
    upperHalf (clockBits clock) = clockSecs clock := by
  cases clock with
  | none => decide
  | some d =>
      have hnanos := d.nanos.toNat_lt
      apply UInt32.toNat_inj.mp
      rw [toNat_upperHalf, toNat_clockBits]
      show _ = d.secs.toUInt32.toNat
      rw [UInt64.toNat_toUInt32]
      omega

theorem lowerHalf_clockBits (clock : Option Duration) :
    lowerHalf (clockBits clock) = clockNanos clock := by
  cases clock with
  | none => decide
  | some d =>
      have hnanos := d.nanos.toNat_lt
      apply UInt32.toNat_inj.mp
      rw [toNat_lowerHalf, toNat_clockBits]
      show _ = d.nanos.toNat
      omega

/-! ### Equal ids -/

theorem xor_exchange {a b c d : UInt32} (h : a ^^^ c = b ^^^ d) : a ^^^ b = c ^^^ d :=
  calc a ^^^ b = (a ^^^ c) ^^^ (c ^^^ b) := by
        rw [UInt32.xor_assoc, ← UInt32.xor_assoc c c b, UInt32.xor_self, UInt32.zero_xor]
    _ = (b ^^^ d) ^^^ (b ^^^ c) := by rw [h, UInt32.xor_comm c b]
    _ = d ^^^ c := by
        rw [UInt32.xor_comm b d, UInt32.xor_assoc, ← UInt32.xor_assoc b b c, UInt32.xor_self,
          UInt32.zero_xor]
    _ = c ^^^ d := UInt32.xor_comm d c

/-- The eight bytes of a word are read back from their digits. -/
theorem hexEncode_beBytes_inj {v w : UInt64}
    (h : hexEncode (beBytes 8 v.toNat) = hexEncode (beBytes 8 w.toNat)) : v = w := by
  have hbytes : beBytes 8 v.toNat = beBytes 8 w.toNat :=
    hexChars_injective (String.ofList_inj.mp h)
  have hv := natOfBytesBE_beBytes 8 v.toNat
  rw [hbytes, natOfBytesBE_beBytes] at hv
  have hvlt := v.toNat_lt
  have hwlt := w.toNat_lt
  exact UInt64.toNat_inj.mp (by omega)

/-- What a generated id is made of: the time read, and the number drawn. -/
structure Draw where
  clock : Option Duration
  seq : UInt64

def Draw.id (d : Draw) : String := generateId d.clock d.seq

/-- The times differ in exactly the bits in which the numbers do. -/
def Draw.Cancels (d e : Draw) : Prop :=
  clockSecs d.clock ^^^ clockSecs e.clock = upperHalf d.seq ^^^ upperHalf e.seq ∧
    clockNanos d.clock ^^^ clockNanos e.clock = lowerHalf d.seq ^^^ lowerHalf e.seq

/-- **Ids are equal exactly when time and number cancel.** -/
theorem Draw.id_eq_iff {d e : Draw} : d.id = e.id ↔ d.Cancels e := by
  have hwords : d.id = e.id ↔ clockBits d.clock ^^^ d.seq = clockBits e.clock ^^^ e.seq :=
    ⟨hexEncode_beBytes_inj, fun h => by rw [Draw.id, generateId, h]; rfl⟩
  rw [hwords, eq_iff_halves]
  simp only [upperHalf_xor, lowerHalf_xor, upperHalf_clockBits, lowerHalf_clockBits]
  exact ⟨fun h => ⟨xor_exchange h.1, xor_exchange h.2⟩,
    fun h => ⟨xor_exchange h.1, xor_exchange h.2⟩⟩

/-- Numbers with one upper half cancel in one second only. -/
theorem Draw.Cancels.same_secs {d e : Draw} (h : d.Cancels e)
    (hupper : upperHalf d.seq = upperHalf e.seq) : clockSecs d.clock = clockSecs e.clock := by
  have hsecs := h.1
  rw [hupper, UInt32.xor_self] at hsecs
  exact UInt32.xor_eq_zero_iff.mp hsecs

/-! ### The ids of a process -/

def RequestId.own : RequestId → Option String
  | .generated id => some id
  | .passed _ => none

/-- The ids a process generates, in order. -/
def generatedIds (arrivals : List Arrival) : List String :=
  (requestIds 0 arrivals).filterMap RequestId.own

/-- The requests with no readable header, numbered one after the other. -/
def drawsFrom : UInt64 → List Arrival → List Draw
  | _, [] => []
  | seq, a :: rest =>
      if (a.header.bind headerText).isSome then drawsFrom seq rest
      else ⟨a.clock, seq⟩ :: drawsFrom (seq + 1) rest

theorem own_requestIds (seq : UInt64) (arrivals : List Arrival) :
    (requestIds seq arrivals).filterMap RequestId.own = (drawsFrom seq arrivals).map Draw.id := by
  induction arrivals generalizing seq with
  | nil => rfl
  | cons a rest ih =>
      cases hheader : a.header.bind headerText with
      | none =>
          simp only [requestIds, requestIdMiddleware, drawsFrom, hheader, Option.isSome_none,
            Bool.false_eq_true, if_false, List.map_cons]
          rw [List.filterMap_cons_some (f := RequestId.own) rfl, ih]
          rfl
      | some id =>
          simp only [requestIds, requestIdMiddleware, drawsFrom, hheader, Option.isSome_some,
            if_true]
          rw [List.filterMap_cons_none (f := RequestId.own) rfl, ih]

/-- **The ids a process generates are distinct exactly when no two of its draws cancel.** -/
theorem generated_ids_distinct_iff (arrivals : List Arrival) :
    (generatedIds arrivals).Nodup ↔
      (drawsFrom 0 arrivals).Pairwise fun d e => ¬ d.Cancels e := by
  rw [generatedIds, own_requestIds, List.nodup_iff_pairwise_ne, List.pairwise_map]
  simp only [ne_eq, Draw.id_eq_iff]

theorem seq_lt_of_mem_drawsFrom {seq : UInt64} {arrivals : List Arrival} {d : Draw}
    (hfew : seq.toNat + (drawsFrom seq arrivals).length ≤ 2 ^ 32)
    (hd : d ∈ drawsFrom seq arrivals) : d.seq.toNat < 2 ^ 32 := by
  induction arrivals generalizing seq with
  | nil => simp [drawsFrom] at hd
  | cons a rest ih =>
      unfold drawsFrom at hfew hd
      split at hfew
      · rw [if_pos ‹_›] at hd
        exact ih hfew hd
      · rw [if_neg ‹_›] at hd
        rw [List.length_cons] at hfew
        rcases List.mem_cons.mp hd with rfl | hd
        · show seq.toNat < 2 ^ 32
          omega
        · have hnext : (seq + 1).toNat = seq.toNat + 1 := by
            rw [UInt64.toNat_add]
            show (seq.toNat + 1) % 2 ^ 64 = seq.toNat + 1
            omega
          exact ih (by rw [hnext]; omega) hd

/-- **Requests of different seconds get different ids** until the counter has filled a half. -/
theorem generated_ids_distinct_of_secs {arrivals : List Arrival}
    (hfew : (drawsFrom 0 arrivals).length ≤ 2 ^ 32)
    (hsecs : (drawsFrom 0 arrivals).Pairwise fun d e => clockSecs d.clock ≠ clockSecs e.clock) :
    (generatedIds arrivals).Nodup := by
  have hupper : ∀ d ∈ drawsFrom 0 arrivals, upperHalf d.seq = 0 := by
    intro d hd
    have hlt : d.seq.toNat < 2 ^ 32 := seq_lt_of_mem_drawsFrom (by simpa using hfew) hd
    apply UInt32.toNat_inj.mp
    rw [toNat_upperHalf]
    show d.seq.toNat / 2 ^ 32 = 0
    omega
  rw [generatedIds, own_requestIds, List.nodup_iff_pairwise_ne, List.pairwise_map]
  refine hsecs.imp_of_mem ?_
  intro d e hd he hne heq
  have hcancels := Draw.id_eq_iff.mp heq
  exact hne (hcancels.same_secs ((hupper d hd).trans (hupper e he).symm))

/-! ### Two requests, a nanosecond apart -/

/-- No header, and so many nanoseconds into a second. -/
def plainArrival (nanos : UInt32) (h : nanos.toNat < 1000000000) : Arrival :=
  ⟨none, some ⟨1700000000, nanos, h⟩⟩

theorem zero_nanos_lt : (0 : UInt32).toNat < 1000000000 := by decide

theorem one_nano_lt : (1 : UInt32).toNat < 1000000000 := by decide

def twoArrivals : List Arrival := [plainArrival 0 zero_nanos_lt, plainArrival 1 one_nano_lt]

/-- **The second request takes back in its number what it gained in time.** -/
theorem one_nanosecond_one_id :
    twoArrivals.Pairwise (fun a b => ∀ d ∈ a.clock, ∀ e ∈ b.clock, d.toNat ≤ e.toNat) ∧
    (∀ a ∈ twoArrivals, ∀ d ∈ a.clock, d.secs.toNat < 2 ^ 32) ∧
    ¬ (generatedIds twoArrivals).Nodup := by
  refine ⟨by decide, by decide, ?_⟩
  rw [generatedIds, own_requestIds]
  decide

end SentrixIndexer
