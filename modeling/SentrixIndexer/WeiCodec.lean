/-
How amounts are stored.

A `Wei` is written to the database as a `BigDecimal` read from its decimal text, and read
back from the digits of one at scale zero.  The big numbers are those of libraries:
`BigNumbers` is what the codec uses of them, and `BigNumbers.Documented` what they say they
do.
-/
import SentrixIndexer.Domain
import SentrixIndexer.Numeric.Decimal
import SentrixIndexer.Numeric.Text

namespace SentrixIndexer

open Numeric

/-- `BigDecimal`. -/
abbrev BigDecimal := Decimal

/-- The libraries of big numbers. -/
structure BigNumbers where
  /-- `BigDecimal::from_str`. -/
  bigDecimalFromStr : String → Except String BigDecimal
  /-- `BigDecimal::with_scale`. -/
  withScale : BigDecimal → Int → BigDecimal
  /-- `BigInt::to_string`. -/
  bigIntToString : Int → String
  /-- `U256::to_string`. -/
  u256ToString : Wei → String
  /-- `U256::from_str_radix(s, 10)`. -/
  u256FromStrRadix : String → Except String Wei

/-- What the libraries do: numbers are written in decimal and read back exactly, a `U256` only
if it fits, and `with_scale` drops the digits below the new scale. -/
structure BigNumbers.Documented (lib : BigNumbers) : Prop where
  bigDecimalFromStr : ∀ n : Nat, ∃ v, lib.bigDecimalFromStr n.repr = .ok v ∧ v.value = n
  withScale : ∀ v scale, lib.withScale v scale = v.rescale scale
  bigIntToString : ∀ n : Int, lib.bigIntToString n = n.repr
  u256ToString : ∀ w, lib.u256ToString w = w.toNat.repr
  u256FromStrRadix_fits : ∀ n : Nat, n < 2 ^ 256 →
    lib.u256FromStrRadix n.repr = .ok (BitVec.ofNat 256 n)
  u256FromStrRadix_large : ∀ n : Nat, 2 ^ 256 ≤ n → ∃ e, lib.u256FromStrRadix n.repr = .error e

/-- `impl Encode for Wei`, up to the `BigDecimal` that is sent. -/
def encodeWei (lib : BigNumbers) (w : Wei) : Except String BigDecimal :=
  lib.bigDecimalFromStr (lib.u256ToString w)

/-- `impl Decode for Wei`, from the `BigDecimal` that comes back. -/
def decodeWei (lib : BigNumbers) (v : BigDecimal) : Except String Wei :=
  let bd := lib.withScale v 0
  if bd.scale ≠ 0 then
    .error ("Wei expects integer numeric, got post-normalize scale=" ++ toString bd.scale)
  else
    let s := lib.bigIntToString bd.digits
    if s.toList.head? = some '-' then
      .error ("Wei is unsigned; got negative " ++ String.ofList s.toList.tail)
    else lib.u256FromStrRadix s

end SentrixIndexer
