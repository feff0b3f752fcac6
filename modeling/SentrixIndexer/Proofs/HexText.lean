/-
Hexadecimal text and big-endian numbers, both ways.

`hex::encode` writes two digits a byte and `hex::decode` reads them back; a 32-byte
word and the number it spells determine each other.  The decoders of `TokenDecode`
go through text in between, so what they compute from bytes rests on these.
-/
import SentrixIndexer.Domain

namespace SentrixIndexer

/-! ### Digits -/

theorem hexValue_hexDigit : ∀ n : Fin 16, hexValue (hexDigit n) = some n.val := by decide

theorem hexDigit_ne_x : ∀ n : Fin 16, hexDigit n ≠ 'x' := by decide

@[simp] theorem length_hexChars (bytes : List UInt8) :
    (hexChars bytes).length = 2 * bytes.length := by
  induction bytes with
  | nil => rfl
  | cons b bytes ih =>
      simp only [hexChars_cons, List.length_cons, ih]
      omega

@[simp] theorem hexChars_eq_nil {bytes : List UInt8} : hexChars bytes = [] ↔ bytes = [] := by
  cases bytes <;> simp

/-- Two digits a byte, so bytes dropped are digits dropped. -/
theorem drop_hexChars (n : Nat) (bytes : List UInt8) :
    (hexChars bytes).drop (2 * n) = hexChars (bytes.drop n) := by
  induction n generalizing bytes with
  | zero => rfl
  | succ n ih =>
      cases bytes with
      | nil => simp
      | cons b bytes =>
          rw [show 2 * (n + 1) = 2 * n + 1 + 1 by omega]
          simpa using ih bytes

/-- **`hex::decode` undoes `hex::encode`.** -/
theorem hexBytes_hexChars (bytes : List UInt8) : hexBytes (hexChars bytes) = some bytes := by
  induction bytes with
  | nil => rfl
  | cons b bytes ih =>
      have hb := b.toNat_lt
      have hhi := hexValue_hexDigit ⟨b.toNat / 16, by omega⟩
      have hlo := hexValue_hexDigit ⟨b.toNat % 16, by omega⟩
      have hbyte : 16 * (b.toNat / 16) + b.toNat % 16 = b.toNat := by omega
      simp only at hhi hlo
      rw [hexChars_cons, hexBytes, hhi, hlo, ih]
      simp only [Option.bind_eq_bind, Option.bind_some, hbyte, UInt8.ofNat_toNat]
      rfl

/-! ### The prefix -/

theorem toList_hex0x (bytes : List UInt8) :
    (hex0x bytes).toList = '0' :: 'x' :: hexChars bytes := by
  simp [hex0x, hexEncode]

/-- No digit is an `x`, so there is no second prefix to trim. -/
theorem trim0x_hexChars (bytes : List UInt8) : trim0x (hexChars bytes) = hexChars bytes := by
  cases bytes with
  | nil => rfl
  | cons b bytes =>
      have hb := b.toNat_lt
      have hx := hexDigit_ne_x ⟨b.toNat % 16, by omega⟩
      rw [hexChars_cons, trim0x]
      intro rest h
      simp only [List.cons.injEq] at h
      exact hx h.2.1

@[simp] theorem trim0x_hex0x (bytes : List UInt8) :
    trim0x (hex0x bytes).toList = hexChars bytes := by
  rw [toList_hex0x, trim0x, trim0x_hexChars]

/-! ### Big-endian numbers -/

/-- The lowest `n` bytes of a number, the highest of them first. -/
def beBytes : Nat → Nat → List UInt8
  | 0, _ => []
  | n + 1, v => beBytes n (v / 256) ++ [UInt8.ofNat v]

@[simp] theorem length_beBytes (n v : Nat) : (beBytes n v).length = n := by
  induction n generalizing v with
  | zero => rfl
  | succ n ih => simp [beBytes, ih]

/-- The number some bytes spell, the highest of them first. -/
def natOfBytesBE (bytes : List UInt8) : Nat :=
  bytes.foldl (fun acc b => 256 * acc + b.toNat) 0

theorem natOfBytesBE_append (bytes : List UInt8) (b : UInt8) :
    natOfBytesBE (bytes ++ [b]) = 256 * natOfBytesBE bytes + b.toNat := by
  simp [natOfBytesBE]

theorem natOfBytesBE_beBytes (n v : Nat) : natOfBytesBE (beBytes n v) = v % 256 ^ n := by
  induction n generalizing v with
  | zero => simp [beBytes, natOfBytesBE, Nat.mod_one]
  | succ n ih =>
      rw [beBytes, natOfBytesBE_append, ih, Nat.pow_succ, Nat.mul_comm (256 ^ n), Nat.mod_mul]
      simp [Nat.add_comm]

theorem beBytes_natOfBytesBE (bytes : List UInt8) :
    beBytes bytes.length (natOfBytesBE bytes) = bytes := by
  induction bytes using List.reverseRecOn with
  | nil => rfl
  | append_singleton bytes b ih =>
      have hb := b.toNat_lt
      have hdiv : (256 * natOfBytesBE bytes + b.toNat) / 256 = natOfBytesBE bytes := by omega
      have hbyte : UInt8.ofNat (256 * natOfBytesBE bytes + b.toNat) = b :=
        UInt8.toNat_inj.mp (by simp)
      simp only [List.length_append, List.length_singleton, beBytes, natOfBytesBE_append, hdiv,
        hbyte, ih]

/-- A 32-byte word spells every number below `2 ^ 256`, -/
@[simp] theorem ofBytesBE_beBytes (v : Wei) : ofBytesBE (beBytes 32 v.toNat) = v := by
  apply BitVec.eq_of_toNat_eq
  have hfold := natOfBytesBE_beBytes 32 v.toNat
  have hv := v.isLt
  simp only [natOfBytesBE] at hfold
  simp only [ofBytesBE, hfold, BitVec.toNat_ofNat]
  omega

/-- and only one word spells it. -/
theorem beBytes_ofBytesBE {bytes : List UInt8} (h : bytes.length = 32) :
    beBytes 32 (ofBytesBE bytes).toNat = bytes := by
  have hword := beBytes_natOfBytesBE bytes
  have hlt := natOfBytesBE_beBytes 32 (natOfBytesBE bytes)
  rw [h] at hword
  rw [hword] at hlt
  have hfold : (ofBytesBE bytes).toNat = natOfBytesBE bytes := by
    simp only [ofBytesBE, BitVec.toNat_ofNat]
    show natOfBytesBE bytes % 2 ^ 256 = natOfBytesBE bytes
    omega
  rw [hfold, hword]

end SentrixIndexer
