/-
Amounts come back as they were stored.

The decoder scales a decimal to zero before it looks at the scale, so the check for a
fraction never fires and what is behind the point is lost.  Every amount that was encoded
survives the round trip, in whichever scale it comes back; but of a fraction whose whole
part is in range the decoder makes that whole part.
-/
import SentrixIndexer.WeiCodec
import Mathlib.Tactic.Linarith
import Mathlib.Tactic.NormNum

namespace SentrixIndexer

open Numeric

section Codec

variable {lib : BigNumbers}

/-- **The decoder returns the whole part**, if it is in range. -/
theorem decodeWei_eq_ok (hlib : lib.Documented) {v : BigDecimal} {w : Wei} :
    decodeWei lib v = .ok w ↔ v.whole = w.toNat := by
  unfold decodeWei
  rw [hlib.withScale]
  show (if (0 : ℤ) ≠ 0 then _ else if (lib.bigIntToString v.whole).toList.head? = some '-' then _
    else lib.u256FromStrRadix (lib.bigIntToString v.whole)) = _ ↔ _
  rw [if_neg (by simp), hlib.bigIntToString]
  simp only [head?_repr_eq_minus]
  by_cases hneg : v.whole < 0
  · rw [if_pos hneg]
    exact ⟨fun h => absurd h (by simp), fun h => absurd h (by omega)⟩
  · obtain ⟨n, hn⟩ := Int.eq_ofNat_of_zero_le (not_lt.mp hneg)
    rw [if_neg hneg, hn]
    show lib.u256FromStrRadix n.repr = _ ↔ _
    have hw := w.isLt
    rcases Nat.lt_or_ge n (2 ^ 256) with hfits | hlarge
    · rw [hlib.u256FromStrRadix_fits n hfits]
      constructor
      · intro h
        rw [← Except.ok.inj h, BitVec.toNat_ofNat, Nat.mod_eq_of_lt hfits]
      · intro h
        rw [Int.ofNat_inj.mp h, BitVec.ofNat_toNat, BitVec.setWidth_eq]
    · obtain ⟨e, he⟩ := hlib.u256FromStrRadix_large n hlarge
      rw [he]
      exact ⟨fun h => absurd h (by simp), fun h => absurd (Int.ofNat_inj.mp h) (by omega)⟩

/-- The amount comes back as it was stored, and the decimal is decoded to itself or to nothing. -/
structure ExactCodec (lib : BigNumbers) (w : Wei) (v : BigDecimal) : Prop where
  roundTrip : ∃ sent, encodeWei lib w = .ok sent ∧
    ∀ stored : BigDecimal, stored.value = sent.value → decodeWei lib stored = .ok w
  exact : ∀ u, decodeWei lib v = .ok u ↔ v.value = u.toNat

/-- **Every amount survives the round trip**, whatever scale it comes back in. -/
theorem encodeWei_decodeWei (hlib : lib.Documented) (w : Wei) :
    ∃ sent, encodeWei lib w = .ok sent ∧
      ∀ stored : BigDecimal, stored.value = sent.value → decodeWei lib stored = .ok w := by
  obtain ⟨sent, hsent, hvalue⟩ := hlib.bigDecimalFromStr w.toNat
  refine ⟨sent, ?_, fun stored hstored => (decodeWei_eq_ok hlib).mpr ?_⟩
  · unfold encodeWei
    rw [hlib.u256ToString, hsent]
  · exact Decimal.whole_of_value_eq (hstored.trans (hvalue.trans (Int.cast_natCast _).symm))

/-- An integer, or out of range by at least one. -/
def Decodable (v : BigDecimal) : Prop :=
  (∃ n : Int, v.value = n) ∨ v.value ≤ -1 ∨ 2 ^ 256 ≤ v.value

/-- **The codec is exact** for a decimal that is an integer, that is not above minus one, or
that is not below `2 ^ 256`. -/
theorem codec_exact_iff (hlib : lib.Documented) (w : Wei) (v : BigDecimal) :
    ExactCodec lib w v ↔ Decodable v := by
  have hbig : (2 ^ 256 : ℤ) ≤ v.whole ↔ (2 ^ 256 : ℚ) ≤ v.value := by
    have hle := Decimal.le_whole_iff (v := v) (n := 2 ^ 256) (by decide)
    rw [Int.cast_pow, Int.cast_ofNat] at hle
    exact hle
  constructor
  · intro h
    by_cases hneg : v.value ≤ -1
    · exact .inr (.inl hneg)
    by_cases hlarge : 2 ^ 256 ≤ v.value
    · exact .inr (.inr hlarge)
    have hpos : 0 ≤ v.whole := not_lt.mp fun hlt => hneg (Decimal.whole_neg_iff.mp hlt)
    have hlt : v.whole < 2 ^ 256 := not_le.mp fun hle => hlarge (hbig.mp hle)
    obtain ⟨n, hn⟩ := Int.eq_ofNat_of_zero_le hpos
    have hfits : n < 2 ^ 256 := by omega
    have hdecoded : decodeWei lib v = .ok (BitVec.ofNat 256 n) := by
      rw [decodeWei_eq_ok hlib, hn, BitVec.toNat_ofNat, Nat.mod_eq_of_lt hfits]
    refine .inl ⟨n, ?_⟩
    rw [(h.exact _).mp hdecoded, BitVec.toNat_ofNat, Nat.mod_eq_of_lt hfits, Int.cast_natCast]
  · intro hv
    refine ⟨encodeWei_decodeWei hlib w, fun u => (decodeWei_eq_ok hlib).trans ?_⟩
    have hu := u.isLt
    rcases hv with ⟨n, hn⟩ | hneg | hlarge
    · rw [Decimal.whole_of_value_eq hn, hn]
      exact ⟨fun h => by rw [h, Int.cast_natCast], fun h => by exact_mod_cast h⟩
    · have hwhole := Decimal.whole_neg_iff.mpr hneg
      refine ⟨fun h => absurd h (by omega), fun h => absurd hneg ?_⟩
      rw [h]
      have hcast : (0 : ℚ) ≤ (u.toNat : ℚ) := Nat.cast_nonneg _
      linarith
    · have hwhole := hbig.mpr hlarge
      refine ⟨fun h => absurd h (by omega), fun h => absurd hlarge ?_⟩
      rw [h, not_le]
      exact_mod_cast hu

end Codec

/-- The libraries, as far as they can be seen from here. -/
def bigNumbers : BigNumbers where
  bigDecimalFromStr s := (parseInteger s).elim (.error "ParseBigDecimal") fun n => .ok ⟨n, 0⟩
  withScale := Decimal.rescale
  bigIntToString := Int.repr
  u256ToString w := w.toNat.repr
  u256FromStrRadix s := (parseDigits s.toList).elim (.error "InvalidDigit") fun n =>
    if n < 2 ^ 256 then .ok (BitVec.ofNat 256 n) else .error "Overflow"

theorem bigNumbers_documented : bigNumbers.Documented where
  bigDecimalFromStr n := by
    refine ⟨⟨n, 0⟩, ?_, by simp [Decimal.value]⟩
    show (parseInteger (n : ℤ).repr).elim _ _ = _
    rw [parseInteger_repr]
    rfl
  withScale _ _ := rfl
  bigIntToString _ := rfl
  u256ToString _ := rfl
  u256FromStrRadix_fits n hn := by
    show (parseDigits n.repr.toList).elim _ _ = _
    rw [parseDigits_repr]
    exact if_pos hn
  u256FromStrRadix_large n hn := by
    refine ⟨"Overflow", ?_⟩
    show (parseDigits n.repr.toList).elim _ _ = _
    rw [parseDigits_repr]
    exact if_neg (Nat.not_lt.mpr hn)

/-- One and a half. -/
def threeHalves : BigDecimal := ⟨15, 1⟩

/-- **One and a half is decoded as one.** -/
theorem fraction_truncated : decodeWei bigNumbers threeHalves = .ok 1 ∧
    ¬ ∀ lib : BigNumbers, lib.Documented → ∀ w v, ExactCodec lib w v := by
  have hdecoded : decodeWei bigNumbers threeHalves = .ok 1 :=
    (decodeWei_eq_ok bigNumbers_documented).mpr rfl
  refine ⟨hdecoded, fun h => ?_⟩
  have hvalue := ((h bigNumbers bigNumbers_documented 0 threeHalves).exact 1).mp hdecoded
  have hone : ((1 : Wei).toNat : ℚ) = 1 := by decide
  rw [hone] at hvalue
  norm_num [threeHalves, Decimal.value] at hvalue

/-- `10 ^ 18`, with its zeros in the scale. -/
theorem codec_exact_iff_ether : ExactCodec bigNumbers (10 ^ 18 : Nat) ⟨1, -18⟩ ↔
    Decodable ⟨1, -18⟩ :=
  codec_exact_iff bigNumbers_documented _ _

end SentrixIndexer
