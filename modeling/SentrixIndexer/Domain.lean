/-
Row types and the numbers in them.

The rows are the ones the indexer stores, field for field, except the surrogate
`id` of a token transfer: Postgres assigns it and no reader of it is modelled.
Heights and indexes are `bigint` and `integer` columns and are written as integers,
a height being negative only as the "no cursor yet" sentinel; where the code relies on
their width (a saturating subtraction, a `u64` cast to `i64`) the operation says so.
-/
import Mathlib.Data.BitVec

namespace SentrixIndexer

abbrev Hash := String
abbrev Address := String
/-- A u256-scale amount. -/
abbrev Wei := BitVec 256

/-! ### Fixed-width arithmetic -/

def i64Min : Int := -2 ^ 63
def i64Max : Int := 2 ^ 63 - 1
def i32Max : Int := 2 ^ 31 - 1

/-- `i64::saturating_sub`. -/
def saturatingSub (a b : Int) : Int := max i64Min (min i64Max (a - b))

/-- `i64::saturating_add`. -/
def saturatingAdd (a b : Int) : Int := max i64Min (min i64Max (a + b))

/-- `v as i64`: heights from `2 ^ 63` on wrap to negative numbers. -/
def asI64 (v : UInt64) : Int := v.toBitVec.toInt

/-- `BlockHeight::from(u64)`. -/
def heightOfU64 (v : UInt64) : Int := asI64 v

/-- `BlockHeight::as_u64`: `None` for a negative height. -/
def heightAsU64 (h : Int) : Option UInt64 :=
  if 0 ≤ h then some (UInt64.ofNat h.toNat) else none

/-! ### Rows -/

/-- Row of `blocks`. -/
structure Block where
  height : Int
  hash : Hash
  parentHash : Hash
  timestamp : Int
  validator : Address
  gasUsed : Int
  gasLimit : Int
  baseFee : Option Wei
  txCount : Int
  stateRoot : Option Hash
  round : Int
  justificationSigners : List String
  deriving DecidableEq, Repr

inductive TxType
  | native
  | evm
  | system
  | coinbase
  deriving DecidableEq, Repr

/-- Row of `transactions`. -/
structure Transaction where
  hash : Hash
  blockHeight : Int
  txIndex : Int
  fromAddr : Address
  toAddr : Option Address
  value : Wei
  gasLimit : Int
  gasUsed : Option Int
  gasPrice : Option Wei
  fee : Wei
  nonce : Int
  data : Option String
  status : Int
  contractAddress : Option Address
  txType : TxType
  deriving DecidableEq, Repr

/-- Row of `logs`. -/
structure Log where
  blockHeight : Int
  txHash : Hash
  logIndex : Int
  address : Address
  topic0 : Option Hash
  topic1 : Option Hash
  topic2 : Option Hash
  topic3 : Option Hash
  data : Option String
  deriving DecidableEq, Repr

inductive TokenStandard
  | erc20
  | erc721
  | erc1155
  deriving DecidableEq, Repr

/-- Row of `token_transfers`. -/
structure TokenTransfer where
  blockHeight : Int
  txHash : Hash
  logIndex : Int
  contract : Address
  standard : TokenStandard
  fromAddr : Address
  toAddr : Address
  tokenId : Option Wei
  amount : Wei
  deriving DecidableEq, Repr

/-! ### Hexadecimal text -/

/-- A lowercase hexadecimal digit. -/
def hexDigit (n : Nat) : Char := if n < 10 then Char.ofNat (48 + n) else Char.ofNat (87 + n)

/-- The value of a hexadecimal digit of either case. -/
def hexValue (c : Char) : Option Nat :=
  if '0' ≤ c ∧ c ≤ '9' then some (c.toNat - 48)
  else if 'a' ≤ c ∧ c ≤ 'f' then some (c.toNat - 87)
  else if 'A' ≤ c ∧ c ≤ 'F' then some (c.toNat - 55)
  else none

/-- The digits of `hex::encode`. -/
def hexChars (bytes : List UInt8) : List Char :=
  bytes.flatMap fun b => [hexDigit (b.toNat / 16), hexDigit (b.toNat % 16)]

/-- `hex::encode`. -/
def hexEncode (bytes : List UInt8) : String := String.ofList (hexChars bytes)

/-- `format!("0x{}", hex::encode(bytes))`, the spelling of every hash and address. -/
def hex0x (bytes : List UInt8) : String := "0x" ++ hexEncode bytes

theorem hexDigit_inj : ∀ n m : Fin 16, hexDigit n = hexDigit m → n = m := by decide

@[simp] theorem hexChars_nil : hexChars [] = [] := rfl

@[simp] theorem hexChars_cons (b : UInt8) (bytes : List UInt8) :
    hexChars (b :: bytes) =
      hexDigit (b.toNat / 16) :: hexDigit (b.toNat % 16) :: hexChars bytes := rfl

/-- Two digits tell the byte. -/
theorem byte_of_hexDigits {b c : UInt8} (hhi : hexDigit (b.toNat / 16) = hexDigit (c.toNat / 16))
    (hlo : hexDigit (b.toNat % 16) = hexDigit (c.toNat % 16)) : b = c := by
  have hb := b.toNat_lt
  have hc := c.toNat_lt
  have h₁ := hexDigit_inj ⟨b.toNat / 16, by omega⟩ ⟨c.toNat / 16, by omega⟩ hhi
  have h₂ := hexDigit_inj ⟨b.toNat % 16, by omega⟩ ⟨c.toNat % 16, by omega⟩ hlo
  simp only [Fin.mk.injEq] at h₁ h₂
  exact UInt8.toNat_inj.mp (by omega)

theorem hexChars_injective : Function.Injective hexChars := by
  intro bytes
  induction bytes with
  | nil =>
      intro cs h
      cases cs with
      | nil => rfl
      | cons c cs => simp at h
  | cons b bytes ih =>
      intro cs h
      cases cs with
      | nil => simp at h
      | cons c cs =>
          simp only [hexChars_cons, List.cons.injEq] at h
          rw [byte_of_hexDigits h.1 h.2.1, ih h.2.2]

/-- **Different bytes are spelled differently.** -/
theorem hex0x_injective : Function.Injective hex0x := by
  intro bytes cs h
  have htext : (hex0x bytes).toList = (hex0x cs).toList := by rw [h]
  simp only [hex0x, hexEncode, String.toList_append, String.toList_ofList] at htext
  exact hexChars_injective (List.append_cancel_left htext)

theorem toLower_hexDigit : ∀ n : Fin 16, (hexDigit n).toLower = hexDigit n := by decide

theorem map_toLower_hexChars (bytes : List UInt8) :
    (hexChars bytes).map Char.toLower = hexChars bytes := by
  induction bytes with
  | nil => rfl
  | cons b bytes ih =>
      have hb := b.toNat_lt
      have hhi := toLower_hexDigit ⟨b.toNat / 16, by omega⟩
      have hlo := toLower_hexDigit ⟨b.toNat % 16, by omega⟩
      simp only [hexChars_cons, List.map_cons, ih]
      rw [hhi, hlo]

/-- The bytes two digits at a time; `None` on an odd length or a non-digit. -/
def hexBytes : List Char → Option (List UInt8)
  | [] => some []
  | [_] => none
  | hi :: lo :: rest => do
      let h ← hexValue hi
      let l ← hexValue lo
      let tail ← hexBytes rest
      return UInt8.ofNat (16 * h + l) :: tail

/-- `s.trim_start_matches("0x")`: every leading `0x` goes, not only the first. -/
def trim0x : List Char → List Char
  | '0' :: 'x' :: rest => trim0x rest
  | cs => cs

/-- `U256::from_be_slice` of at most 32 bytes. -/
def ofBytesBE (bytes : List UInt8) : Wei :=
  BitVec.ofNat 256 (bytes.foldl (fun acc b => 256 * acc + b.toNat) 0)

end SentrixIndexer
