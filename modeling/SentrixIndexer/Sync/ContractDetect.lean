/-
The contract detector.

Each tick it takes some addresses that are not classified yet, asks the nodes for the code
of each and stores whether it has any.  The other tasks of the indexer go on writing the
tables meanwhile.
-/
import SentrixIndexer.Effect.Tasks
import SentrixIndexer.Sync.World

namespace SentrixIndexer

open Effect Relational

/-! ### The statements of the detector -/

namespace Addresses

def IsUnclassified (r : AddressRow) : Prop := r.codeHash = none

instance (r : AddressRow) : Decidable (IsUnclassified r) := by
  unfold IsUnclassified
  infer_instance

/-- `SELECT address FROM addresses WHERE code_hash IS NULL`. -/
def unclassified (s : Store) : List Address :=
  (s.addresses.rows.filter fun r => IsUnclassified r).map AddressRow.address

/-- `LIMIT $1`: some of the rows, in any order. -/
def UnclassifiedBatch (limit : Int) (s : Store) (batch : List Address) : Prop :=
  0 ≤ limit ∧ batch.Subperm (unclassified s) ∧
    batch.length = min limit.toNat (unclassified s).length

/-- `UPDATE addresses SET is_contract = $2, code_hash = $3 WHERE address = $1`. -/
def classify (address : Address) (isContract : Bool) (codeHash : String) : Statement := fun s =>
  .ok { s with
    addresses := s.addresses.modify address
      (fun r => { r with isContract := isContract, codeHash := some codeHash }) fun _ => rfl }

end Addresses

/-! ### Calls -/

inductive DetectCall
  /-- `select!` between the cancellation and the next tick; whether the cancellation won. -/
  | tickOrCancel
  | isCancelled
  | unclassifiedBatch (limit : Int)
  | getCode (a : EvmAddress)
  | classify (address : Address) (isContract : Bool) (codeHash : String)
  deriving DecidableEq

@[reducible] def DetectCall.Answer : DetectCall → Type
  | .tickOrCancel => Bool
  | .isCancelled => Bool
  | .unclassifiedBatch _ => Except DbError (List Address)
  | .getCode _ => Except ChainError (List UInt8)
  | .classify _ _ _ => Except DbError Unit

abbrev DetectSig : Signature := ⟨DetectCall, DetectCall.Answer⟩

abbrev DetectScript := ExceptT SyncError (Script DetectSig)

abbrev DetectProg := ExceptT SyncError (Prog DetectSig)

def DetectCall.ask (c : DetectCall) : Script DetectSig c.Answer := .call c .pure

/-! ### The detector -/

/-- `NO_CODE`. -/
def noCode : String := "0x"

/-- `Address::from_str`: forty digits, with or without one `0x`. -/
def parseAddress (s : String) : Option EvmAddress := do
  let digits := match s.toList with
    | '0' :: 'x' :: rest => rest
    | digits => digits
  let bytes ← hexBytes digits
  if h : bytes.length = 20 then return ⟨bytes.toArray, by simpa using h⟩ else none

/-- A statement of the detector, its error as one of the sync layer. -/
def classify (address : Address) (isContract : Bool) (codeHash : String) : DetectScript Unit :=
  ExceptT.mk do
    match ← (DetectCall.classify address isContract codeHash).ask with
    | .ok () => return .ok ()
    | .error e => return .error (.db e)

/-- Probe one address and record what it is. -/
def classifyOne (keccak256 : List UInt8 → B256) (address : Address) : DetectScript Unit := do
  match parseAddress address with
  | none => classify address false noCode
  | some parsed =>
      match ← ExceptT.lift (DetectCall.getCode parsed).ask with
      | .error e => throw (.chain e)
      | .ok code =>
          if code.isEmpty then classify address false noCode
          else classify address true (hex0x (keccak256 code).toList)

/-- The candidates of one tick, until the token is cancelled. -/
def classifyAll (keccak256 : List UInt8 → B256) : List Address → DetectScript (Unit ⊕ Unit)
  | [] => return .inl ()
  | address :: rest => do
      if ← ExceptT.lift DetectCall.isCancelled.ask then return .inr ()
      else
        let _ ← ExceptT.lift (classifyOne keccak256 address).run
        classifyAll keccak256 rest

/-- `unclassified_batch`. -/
def unclassifiedBatch (batch : Int) : DetectScript (List Address) :=
  ExceptT.mk do
    match ← (DetectCall.unclassifiedBatch batch).ask with
    | .ok candidates => return .ok candidates
    | .error e => return .error (.db e)

/-- One pass of the loop. -/
def detectorPass (keccak256 : List UInt8 → B256) (batch : Int) : DetectScript (Unit ⊕ Unit) := do
  if ← ExceptT.lift DetectCall.tickOrCancel.ask then return .inr ()
  else
    let candidates ← unclassifiedBatch batch
    classifyAll keccak256 candidates

/-- `run_contract_detector`. -/
def runContractDetector (keccak256 : List UInt8 → B256) (batch : Int) : DetectProg Unit :=
  Prog.iterateE (fun _ => Script.toProgE (detectorPass keccak256 batch)) ()

/-! ### Its surroundings -/

structure DetectWorld (χ : Type) where
  chain : χ
  store : Store
  cancelled : Bool

variable {χ : Type}

/-- How the nodes may answer `eth_getCode`, as the chain moves. -/
abbrev CodeRpc (χ : Type) := χ → EvmAddress → Except ChainError (List UInt8) → χ → Prop

/-- How the surroundings answer the detector.  The reply to a statement may be lost. -/
def detectHandle (rpc : CodeRpc χ) : Handler DetectSig (DetectWorld χ)
  | w, .tickOrCancel, r, w' => (r = true → w.cancelled = true) ∧ w' = w
  | w, .isCancelled, r, w' => r = w.cancelled ∧ w' = w
  | w, .unclassifiedBatch limit, r, w' => w' = w ∧
      ((∃ batch, Addresses.UnclassifiedBatch limit w.store batch ∧ r = .ok batch) ∨
        ∃ e, r = .error e)
  | w, .getCode a, r, w' => ∃ chain', rpc w.chain a r chain' ∧ w' = { w with chain := chain' }
  | w, .classify address isContract codeHash, r, w' =>
      (∃ s, Addresses.classify address isContract codeHash w.store = .ok s ∧
        (r = .ok () ∨ ∃ e, r = .error e) ∧ w' = { w with store := s }) ∨
      ((∃ e, r = .error e) ∧ w' = w)

/-- What goes on around the detector: the chain moves, the other tasks write the tables. -/
inductive DetectSurroundings (moves : χ → χ → Prop) (others : Store → Store → Prop) :
    DetectWorld χ → DetectWorld χ → Prop
  | chain {w : DetectWorld χ} {chain' : χ} (h : moves w.chain chain') :
      DetectSurroundings moves others w { w with chain := chain' }
  | others {w : DetectWorld χ} {s : Store} (h : others w.store s) :
      DetectSurroundings moves others w { w with store := s }
  | cancel (w : DetectWorld χ) : DetectSurroundings moves others w { w with cancelled := true }

/-- The detector, started again whenever it is not running. -/
def detector (keccak256 : List UInt8 → B256) (batch : Int) (rpc : CodeRpc χ)
    (moves : χ → χ → Prop) (others : Store → Store → Prop) :
    System DetectSig Unit (DetectWorld χ) (Except SyncError Unit) where
  handler _ := detectHandle rpc
  spawn _ p := p = (runContractDetector keccak256 batch).run
  env := DetectSurroundings moves others
  crash w w' := w' = { w with cancelled := false }

end SentrixIndexer
