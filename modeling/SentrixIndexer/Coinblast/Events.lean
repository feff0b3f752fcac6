/-
CoinBlast events, the networks they are read on and the ABI they are coded in.

Topic hashes and ABI decoding come from `alloy`, so they are a parameter: an `Abi` says
what each event's topic0 is and what its decoders make of any topics and bytes.  No result
assumes anything of it.
-/
import SentrixIndexer.Chain

namespace SentrixIndexer

/-! ### Networks -/

/-- Which Sentrix network the worker is bound to. -/
inductive Network
  | mainnet
  | testnet
  deriving DecidableEq, Repr

/-- `COINBLAST_FACTORY_ADDRESS`. -/
def coinblastFactoryAddress : Network → EvmAddress
  | .mainnet => ⟨#[0xc9, 0xd7, 0xa6, 0x1d, 0x7c, 0x2f, 0x42, 0x8f, 0x6a, 0x05,
      0x59, 0x16, 0x48, 0x80, 0x41, 0xfd, 0x00, 0x53, 0x21, 0x10], rfl⟩
  | .testnet => ⟨#[0xc7, 0xfb, 0xd6, 0x7f, 0xb8, 0x09, 0xb1, 0x89, 0x99, 0x8c,
      0xb2, 0x7f, 0x18, 0x57, 0xb5, 0x0a, 0x3e, 0x09, 0x61, 0x9c], rfl⟩

/-- `COINBLAST_DEPLOY_BLOCK`. -/
def coinblastDeployBlock : Network → Int
  | .mainnet => 1178667
  | .testnet => 1637883

/-! ### Events -/

/-- Emitted by the factory on every curve launch. -/
structure CurveCreated where
  curve : EvmAddress
  token : EvmAddress
  owner : EvmAddress
  name : String
  symbol : String
  curveSupply : Wei
  graduationSrxThreshold : Wei
  deriving DecidableEq

/-- Emitted by a curve on every buy. -/
structure Buy where
  buyer : EvmAddress
  srxIn : Wei
  fee : Wei
  tokensOut : Wei
  deriving DecidableEq

/-- Emitted by a curve on every sell. -/
structure Sell where
  seller : EvmAddress
  tokensIn : Wei
  fee : Wei
  srxOut : Wei
  deriving DecidableEq

/-- Emitted by a curve on graduation. -/
structure Graduated where
  pair : EvmAddress
  srxLiquidity : Wei
  tokenLiquidity : Wei
  lpBurned : Wei
  deriving DecidableEq

/-- What `alloy` makes of topics and bytes; a decoder fails with the text of its error. -/
structure Abi where
  curveCreatedHash : B256
  buyHash : B256
  sellHash : B256
  graduatedHash : B256
  decodeCurveCreated : List B256 → List UInt8 → Except String CurveCreated
  decodeBuy : List B256 → List UInt8 → Except String Buy
  decodeSell : List B256 → List UInt8 → Except String Sell
  decodeGraduated : List B256 → List UInt8 → Except String Graduated
  /-- The return value of `token()`. -/
  decodeToken : List UInt8 → Except String EvmAddress
  /-- The return value of `name()` and of `symbol()`. -/
  decodeName : List UInt8 → Except String String

/-- The view functions the worker calls, by the name in their call data. -/
inductive ViewFn
  | token
  | curveSupply
  | graduationSrxThreshold
  | name
  | symbol
  deriving DecidableEq, Repr

/-- `hex_addr`. -/
def hexAddr (a : EvmAddress) : Address := hex0x a.toList

theorem hexAddr_injective : Function.Injective hexAddr := by
  intro a b h
  exact Vector.toList_inj.mp (hex0x_injective h)

/-- The topic of a curve event. -/
def Abi.IsCurveTopic (abi : Abi) (t : B256) : Prop :=
  t = abi.buyHash ∨ t = abi.sellHash ∨ t = abi.graduatedHash

instance (abi : Abi) (t : B256) : Decidable (abi.IsCurveTopic t) := by
  unfold Abi.IsCurveTopic
  infer_instance

end SentrixIndexer
