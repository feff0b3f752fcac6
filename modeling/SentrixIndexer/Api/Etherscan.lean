/-
The Etherscan shim, `GET /api?module=..&action=..`.

Every answer is an envelope: status 1 with a result, or status 0 with a message, which then is
the result as well.  All parameters come as text, and all of them may be missing.
-/
import SentrixIndexer.Api.Blocks

namespace SentrixIndexer

namespace Etherscan

structure EsQuery where
  moduleName : Option String := none
  action : Option String := none
  address : Option String := none
  startBlock : Option String := none
  endBlock : Option String := none
  page : Option String := none
  offset : Option String := none
  sort : Option String := none
  timestamp : Option String := none
  closest : Option String := none
  deriving DecidableEq

/-- A transaction as the shim shows it. -/
structure EsTx where
  blockNumber : String
  hash : String
  fromAddr : String
  toAddr : Option String
  value : String
  gas : String
  gasUsed : String
  gasPrice : String
  nonce : String
  input : String
  isError : String
  txreceiptStatus : String
  contractAddress : String
  deriving DecidableEq

inductive EsResult
  | text (s : String)
  | txs (rows : List EsTx)
  deriving DecidableEq

structure EsEnvelope where
  status : String
  message : String
  result : EsResult
  deriving DecidableEq

def ok (result : EsResult) : EsEnvelope := ⟨"1", "OK", result⟩

def err (msg : String) : EsEnvelope := ⟨"0", msg, .text msg⟩

/-- The error itself is only logged. -/
def dbErr (_ : DbError) : EsEnvelope := err "database error"

/-! ### Transactions of an address -/

/-- The parameters refused: each that is given, unless empty or `0`, or `1` for the page. -/
def unsupported (q : EsQuery) : List String :=
  [("startblock", q.startBlock), ("endblock", q.endBlock), ("page", q.page)].filterMap
    fun (name, v) => v.bind fun s =>
      if s ≠ "" ∧ s ≠ "0" ∧ (name ≠ "page" ∨ s ≠ "1") then some name else none

/-- The page size. -/
def pageSize (q : EsQuery) : Int := max 1 (min 100 ((q.offset.bind parseI64).getD 25))

def EsTx.ofTransaction (t : Transaction) : EsTx where
  blockNumber := t.blockHeight.repr
  hash := t.hash
  fromAddr := t.fromAddr
  toAddr := t.toAddr
  value := t.value.toNat.repr
  gas := t.gasLimit.repr
  gasUsed := (t.gasUsed.getD 0).repr
  gasPrice := (t.gasPrice.map fun w => w.toNat.repr).getD ""
  nonce := t.nonce.repr
  input := t.data.getD ""
  isError := if t.status = 1 then "0" else "1"
  txreceiptStatus := t.status.repr
  contractAddress := t.contractAddress.getD ""

section Txlist

variable (toLower : String → String)
  (forAddress : Address → Int → Except DbError (List Transaction))

/-- `txlist`, over what `str::to_lowercase` and the query make of their arguments. -/
def txlist (q : EsQuery) : EsEnvelope :=
  match q.address with
  | none => err "address parameter is required"
  | some addr =>
      let addr := toLower addr
      if unsupported q ≠ [] then
        err ("param not supported: " ++ ",".intercalate (unsupported q))
      else
        match forAddress addr (pageSize q) with
        | .ok rows => ok (.txs (rows.map .ofTransaction))
        | .error e => dbErr e

end Txlist

/-! ### The block nearest to a time -/

/-- `getblocknobytime`, over what the query for the height after or before a time comes to. -/
def getblocknobytime (byTime : Bool → Int → Except DbError (Option Int)) (q : EsQuery) :
    EsEnvelope :=
  match q.timestamp with
  | none => err "timestamp parameter is required"
  | some tsStr =>
      match parseI64 tsStr with
      | none => err "timestamp must be a positive integer"
      | some ts =>
          let closest := q.closest.getD "before"
          match byTime (closest = "after") ts with
          | .ok (some h) => ok (.text h.repr)
          | .ok none => err ("no block at-or-" ++ closest ++ " timestamp " ++ ts.repr)
          | .error e => dbErr e

/-! ### Dispatch -/

/-- `ethsupply`: a placeholder. -/
def ethsupply : EsEnvelope := ok (.text "0")

def dispatch (toLower : String → String)
    (forAddress : Address → Int → Except DbError (List Transaction))
    (byTime : Bool → Int → Except DbError (Option Int)) (q : EsQuery) : EsEnvelope :=
  match q.moduleName.getD "", q.action.getD "" with
  | "account", "txlist" => txlist toLower forAddress q
  | "block", "getblocknobytime" => getblocknobytime byTime q
  | "stats", "ethsupply" => ethsupply
  | m, a => err ("module/action not supported: " ++ m ++ "/" ++ a)

/-! ### Envelopes -/

/-- A result with status 1, or a message with status 0. -/
def Built (e : EsEnvelope) : Prop := (∃ result, e = ok result) ∨ ∃ msg, e = err msg

theorem Built.status {e : EsEnvelope} (h : Built e) : e.status = "0" ∨ e.status = "1" := by
  rcases h with ⟨_, rfl⟩ | ⟨_, rfl⟩
  · exact .inr rfl
  · exact .inl rfl

theorem built_txlist (toLower : String → String)
    (forAddress : Address → Int → Except DbError (List Transaction)) (q : EsQuery) :
    Built (txlist toLower forAddress q) := by
  unfold txlist
  split
  · exact .inr ⟨_, rfl⟩
  · dsimp only
    split
    · exact .inr ⟨_, rfl⟩
    · split
      · exact .inl ⟨_, rfl⟩
      · exact .inr ⟨_, rfl⟩

end Etherscan

end SentrixIndexer
