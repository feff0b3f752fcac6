/-
Every route of the API as the calls it makes.

The routes behind the cache and the ones of a single block or transaction have modules of
their own; here they stand next to the rest, over one signature, and each comes to a reply: a
status and a body.  What the database and Redis say went wrong is in their answers, as text;
what of it is in a reply is decided by `into_response`, `sanitize_db_err`, `db_err` and the
texts of the readiness check.
-/
import SentrixIndexer.Api.Detail
import SentrixIndexer.Api.Etherscan
import SentrixIndexer.Api.Lists

namespace SentrixIndexer

open Effect

/-! ### Rows as they are shown -/

/-- A token transfer as REST shows it; its `id` is the identity of the row. -/
structure WireTransfer where
  id : Option Int
  blockHeight : String
  txHash : String
  logIndex : Int
  contract : String
  standard : String
  fromAddr : String
  toAddr : String
  tokenId : Option Wei
  amount : Wei
  deriving DecidableEq

/-- `impl From<&TokenTransfer> for WireTransfer`, of a row with its identity. -/
def WireTransfer.ofRow (row : Int × TokenTransfer) : WireTransfer where
  id := some row.1
  blockHeight := row.2.blockHeight.repr
  txHash := row.2.txHash
  logIndex := row.2.logIndex
  contract := row.2.contract
  standard := row.2.standard.asStr
  fromAddr := row.2.fromAddr
  toAddr := row.2.toAddr
  tokenId := row.2.tokenId
  amount := row.2.amount

/-- Row of `cb_queries::list_trades`; the amounts are texts of the database. -/
structure CbTradeRow where
  id : Int
  curveAddress : Address
  kind : String
  traderAddress : Address
  srxAmount : String
  tokenAmount : String
  fee : String
  blockNumber : Int
  txHash : Hash
  logIndex : Int
  deriving DecidableEq

/-! ### Statements -/

/-- A statement of the routes that are neither cached nor in `Api/Detail`. -/
inductive PlainRead
  /-- The probe of `/readyz`. -/
  | selectOne
  /-- `transactions::for_address`. -/
  | txsOfAddress (addr : Address) (limit : Int)
  /-- `token_transfers::for_address`. -/
  | transfersOfAddress (addr : Address) (standard : Option String) (limit : Int)
  /-- `cb_queries::get_token`. -/
  | getToken (curve : Address)
  /-- `cb_queries::list_trades`. -/
  | listTrades (curve : Option Address) (limit : Int)
  /-- The height of the first block at or after a time, or of the last one at or before it. -/
  | heightByTime (after : Bool) (ts : Int)

/-- What a probe comes to if it does not succeed. -/
inductive ProbeError
  | sqlx (msg : String)
  /-- Nothing within a second. -/
  | timeout

@[reducible] def PlainRead.Answer : PlainRead → Type
  | .selectOne => Except ProbeError Unit
  | .txsOfAddress _ _ => Except String (List Transaction)
  | .transfersOfAddress _ _ _ => Except String (List (Int × TokenTransfer))
  | .getToken _ => Except String (Option CbTokenRow)
  | .listTrades _ _ => Except String (List CbTradeRow)
  | .heightByTime _ _ => Except String (Option Int)

/-- A call of a route. -/
inductive RouteCall
  | cached (c : CacheCall ApiCall)
  | detail (r : DetailRead)
  | plain (r : PlainRead)

abbrev RouteSig : Signature where
  Call := RouteCall
  Answer
    | .cached c => (CacheSig ApiSig).Answer c
    | .detail r => r.Answer
    | .plain r => r.Answer

abbrev RouteScript := Script RouteSig

def PlainRead.ask (r : PlainRead) : RouteScript r.Answer := Script.ask (S := RouteSig) (.plain r)

/-- A script of the routes behind the cache. -/
def viaCached {T : Type} (p : ApiScript T) : RouteScript T :=
  p.via fun c => Script.ask (S := RouteSig) (.cached c)

/-- A script of `Api/Detail`. -/
def viaDetail {T : Type} (p : DetailScript T) : RouteScript T :=
  p.via fun r => Script.ask (S := RouteSig) (.detail r)

/-! ### Replies -/

/-- What a GraphQL field resolves to. -/
inductive GraphqlData
  | block (row : Option BlockGql)
  | blocks (rows : List BlockGql)
  | transaction (row : Option TransactionWithLogs)

inductive Body
  | health (ok : Bool)
  | readyz (ok : Bool) (pg cache : String)
  | openapiJson
  | docs
  | playground
  | cached (q : CachedQuery) (v : q.Response)
  | block (r : DetailResponse)
  | tx (r : TxResponse)
  | transactions (rows : List WireTransaction)
  | transfers (rows : List WireTransfer)
  | token (row : WireToken)
  | trades (rows : List CbTradeRow)
  | etherscan (e : Etherscan.EsEnvelope)
  | graphql (data : Except String GraphqlData)
  /-- The envelope of `ApiError`. -/
  | error (message code : String)
  /-- With its `WWW-Authenticate`. -/
  | unauthorized
  /-- The reply of the rate limiter. -/
  | tooManyRequests
  | notFound

/-- A response without its headers. -/
structure Reply where
  status : Nat
  body : Body

/-- A body with status 200. -/
def Body.ok (body : Body) : Reply := ⟨200, body⟩

namespace ApiError

def code : ApiError → String
  | .invalidQuery _ => "invalid_query"
  | .notFound _ => "not_found"
  | .db _ => "internal"
  | .sqlx _ => "internal"

def status : ApiError → Nat
  | .invalidQuery _ => 400
  | .notFound _ => 404
  | .db _ => 500
  | .sqlx _ => 500

def userMessage : ApiError → String
  | .invalidQuery msg => msg
  | .notFound what => what ++ " not found"
  | .db _ => "internal server error"
  | .sqlx _ => "internal server error"

/-- `into_response`; the error itself is only logged. -/
def intoResponse (e : ApiError) : Reply := ⟨e.status, .error e.userMessage e.code⟩

end ApiError

/-- What a handler's result is sent as. -/
def replyWith {T : Type} (body : T → Body) : Except ApiError T → Reply
  | .ok v => (body v).ok
  | .error e => e.intoResponse

/-! ### Handlers -/

/-- `/address/:addr/txs`. -/
def addressTxsHandler (addr : String) (limit : Option String) :
    RouteScript (Except ApiError (List WireTransaction)) := do
  match ← (PlainRead.txsOfAddress (toLowercase addr) (clampLimit limit)).ask with
  | .error e => return .error (.db e)
  | .ok rows => return .ok (rows.map .ofTransaction)

/-- `/address/:addr/transfers`. -/
def addressTransfersHandler (addr : String) (limit standard : Option String) :
    RouteScript (Except ApiError (List WireTransfer)) := do
  match ← (PlainRead.transfersOfAddress (toLowercase addr) standard (clampLimit limit)).ask with
  | .error e => return .error (.db e)
  | .ok rows => return .ok (rows.map .ofRow)

/-- `/coinblast/tokens/:curve`. -/
def tokenDetail (curve : String) : RouteScript (Except ApiError WireToken) := do
  match ← (PlainRead.getToken (toLowercase curve)).ask with
  | .error e => return .error (.db e)
  | .ok none => return .error (.notFound "curve")
  | .ok (some row) => return .ok (.ofRow row)

/-- `/coinblast/trades`; a row goes out field by field as it is. -/
def listTradesHandler (limit curve : Option String) :
    RouteScript (Except ApiError (List CbTradeRow)) := do
  match ← (PlainRead.listTrades (curve.map toLowercase) (clampLimit limit)).ask with
  | .error e => return .error (.db e)
  | .ok rows => return .ok rows

/-! ### The Etherscan shim -/

namespace Etherscan

/-- `txlist`: the parameters are looked at before the statement is sent. -/
def txlistHandler (q : EsQuery) : RouteScript EsEnvelope :=
  match q.address with
  | none => return err "address parameter is required"
  | some addr =>
      if unsupported q ≠ [] then
        return err ("param not supported: " ++ ",".intercalate (unsupported q))
      else do
        match ← (PlainRead.txsOfAddress (toLowercase addr) (pageSize q)).ask with
        | .ok rows => return ok (.txs (rows.map .ofTransaction))
        | .error e => return dbErr (.transport e)

/-- `getblocknobytime`. -/
def getblocknobytimeHandler (q : EsQuery) : RouteScript EsEnvelope :=
  match q.timestamp with
  | none => return err "timestamp parameter is required"
  | some tsStr =>
      match parseI64 tsStr with
      | none => return err "timestamp must be a positive integer"
      | some ts => do
          let closest := q.closest.getD "before"
          match ← (PlainRead.heightByTime (closest = "after") ts).ask with
          | .ok (some h) => return ok (.text h.repr)
          | .ok none => return err ("no block at-or-" ++ closest ++ " timestamp " ++ ts.repr)
          | .error e => return dbErr (.transport e)

/-- `dispatch`. -/
def dispatchHandler (q : EsQuery) : RouteScript EsEnvelope :=
  match q.moduleName.getD "", q.action.getD "" with
  | "account", "txlist" => txlistHandler q
  | "block", "getblocknobytime" => getblocknobytimeHandler q
  | "stats", "ethsupply" => return ethsupply
  | m, a => return err ("module/action not supported: " ++ m ++ "/" ++ a)

section Fixed

variable (answer : (c : RouteCall) → RouteSig.Answer c)

/-- Over fixed answers of the database, the transactions of an address. -/
def fixedForAddress (addr : Address) (limit : Int) : Except DbError (List Transaction) :=
  (answer (.plain (.txsOfAddress addr limit))).mapError .transport

/-- Over fixed answers of the database, the height nearest to a time. -/
def fixedByTime (after : Bool) (ts : Int) : Except DbError (Option Int) :=
  (answer (.plain (.heightByTime after ts))).mapError .transport

theorem eval_txlistHandler (q : EsQuery) :
    (txlistHandler q).eval answer = txlist toLowercase (fixedForAddress answer) q := by
  unfold txlistHandler txlist fixedForAddress
  cases q.address with
  | none => rfl
  | some addr =>
      dsimp only
      by_cases hq : unsupported q ≠ []
      · rw [if_pos hq, if_pos hq]
        rfl
      · rw [if_neg hq, if_neg hq]
        simp only [Bind.bind, Script.bind, PlainRead.ask, Script.ask, Script.eval]
        cases answer (.plain (.txsOfAddress (toLowercase addr) (pageSize q))) with
        | ok rows => rfl
        | error e => rfl

theorem eval_getblocknobytimeHandler (q : EsQuery) :
    (getblocknobytimeHandler q).eval answer = getblocknobytime (fixedByTime answer) q := by
  unfold getblocknobytimeHandler getblocknobytime fixedByTime
  cases q.timestamp with
  | none => rfl
  | some tsStr =>
      dsimp only
      cases parseI64 tsStr with
      | none => rfl
      | some ts =>
          simp only [Bind.bind, Script.bind, PlainRead.ask, Script.ask, Script.eval]
          cases answer (.plain (.heightByTime (q.closest.getD "before" = "after") ts)) with
          | error e => rfl
          | ok row => cases row <;> rfl

/-- The actions the shim knows, one after the other. -/
theorem dispatch_eq (toLower : String → String)
    (forAddress : Address → Int → Except DbError (List Transaction))
    (byTime : Bool → Int → Except DbError (Option Int)) (q : EsQuery) :
    dispatch toLower forAddress byTime q =
      let m := q.moduleName.getD ""
      let a := q.action.getD ""
      if m = "account" ∧ a = "txlist" then txlist toLower forAddress q
      else if m = "block" ∧ a = "getblocknobytime" then getblocknobytime byTime q
      else if m = "stats" ∧ a = "ethsupply" then ethsupply
      else err ("module/action not supported: " ++ m ++ "/" ++ a) := by
  unfold dispatch
  dsimp only
  split
  · simp_all
  · simp_all
  · simp_all
  · rename_i htxlist hbytime hsupply
    rw [if_neg fun h => htxlist h.1 h.2, if_neg fun h => hbytime h.1 h.2,
      if_neg fun h => hsupply h.1 h.2]

theorem dispatchHandler_eq (q : EsQuery) :
    dispatchHandler q =
      let m := q.moduleName.getD ""
      let a := q.action.getD ""
      if m = "account" ∧ a = "txlist" then txlistHandler q
      else if m = "block" ∧ a = "getblocknobytime" then getblocknobytimeHandler q
      else if m = "stats" ∧ a = "ethsupply" then return ethsupply
      else return err ("module/action not supported: " ++ m ++ "/" ++ a) := by
  unfold dispatchHandler
  dsimp only
  split
  · simp_all
  · simp_all
  · simp_all
  · rename_i htxlist hbytime hsupply
    rw [if_neg fun h => htxlist h.1 h.2, if_neg fun h => hbytime h.1 h.2,
      if_neg fun h => hsupply h.1 h.2]

/-- **Over fixed answers the shim does what `dispatch` does.** -/
theorem eval_dispatchHandler (q : EsQuery) :
    (dispatchHandler q).eval answer =
      dispatch toLowercase (fixedForAddress answer) (fixedByTime answer) q := by
  rw [dispatch_eq, dispatchHandler_eq]
  dsimp only
  split_ifs
  · exact eval_txlistHandler answer q
  · exact eval_getblocknobytimeHandler answer q
  · rfl
  · rfl

end Fixed

end Etherscan

/-! ### Readiness -/

/-- What the routes are given. -/
structure AppState where
  /-- The namespace of the cache, if there is one. -/
  cache : Option String
  json : (q : CachedQuery) → Json q.Response
  /-- `serde_json` at the type of the probe, whose value nobody looks at. -/
  probe : Json Unit

/-- How the database is told to be. -/
def pgCheck : Except ProbeError Unit → String
  | .ok () => "ok"
  | .error (.sqlx _) => "down: pg error"
  | .error .timeout => "down: timeout"

/-- How the cache is told to be; a miss is fine. -/
def cacheCheck : Except CacheError (Option Unit) → String
  | .ok _ => "ok"
  | .error .circuitOpen => "down: circuit breaker open"
  | .error (.redis _) => "down: cache error"
  | .error (.encode _) => "down: cache error"

/-- `/readyz`: the cache is not critical. -/
def readyz (state : AppState) : RouteScript Reply := do
  let pg := pgCheck (← PlainRead.selectOne.ask)
  match state.cache with
  | none => return ⟨if pg = "ok" then 200 else 503, .readyz (pg = "ok") pg "disabled"⟩
  | some ns =>
      let found ← viaCached (CacheClient.get ApiSig ns state.probe "__readyz_probe__")
      return ⟨if pg = "ok" then 200 else 503, .readyz (pg = "ok") pg (cacheCheck found)⟩

/-! ### Routes -/

/-- A field of the GraphQL schema. -/
inductive GraphqlField
  | block (height : Int)
  | blocks (first before : Option Int)
  | transaction (hash : String)
  deriving DecidableEq

/-- A field is resolved. -/
def GraphqlField.resolve : GraphqlField → RouteScript (Except String GraphqlData)
  | .block height => do return (← viaDetail (QueryRoot.block height)).map .block
  | .blocks first before => do return (← viaDetail (QueryRoot.blocks first before)).map .blocks
  | .transaction hash => do return (← viaDetail (QueryRoot.transaction hash)).map .transaction

/-- A route with what is extracted of the request. -/
inductive Route
  | health
  | readyz
  | openapiJson
  | docs
  /-- A route behind the cache. -/
  | cached (req : Request)
  | block (height : String)
  | tx (hash : String)
  | addressTxs (addr : String) (limit : Option String)
  | addressTransfers (addr : String) (limit standard : Option String)
  | token (curve : String)
  | trades (limit curve : Option String)
  | etherscan (q : Etherscan.EsQuery)
  | graphql (field : GraphqlField)
  | playground
  /-- No route has this path. -/
  | unmatched (path : String)
  deriving DecidableEq

/-- What a request is answered by its route. -/
def Route.handler (state : AppState) : Route → RouteScript Reply
  | .health => return (Body.health true).ok
  | .readyz => SentrixIndexer.readyz state
  | .openapiJson => return Body.openapiJson.ok
  | .docs => return Body.docs.ok
  | .cached req => do
      return replyWith (fun v => .cached v.1 v.2)
        (← viaCached (answerRequest state.cache state.json req))
  | .block height => do return replyWith .block (← viaDetail (blockDetail height))
  | .tx hash => do return replyWith .tx (← viaDetail (transactionDetail hash))
  | .addressTxs addr limit => do
      return replyWith .transactions (← addressTxsHandler addr limit)
  | .addressTransfers addr limit standard => do
      return replyWith .transfers (← addressTransfersHandler addr limit standard)
  | .token curve => do return replyWith .token (← tokenDetail curve)
  | .trades limit curve => do return replyWith .trades (← listTradesHandler limit curve)
  | .etherscan q => do return (Body.etherscan (← Etherscan.dispatchHandler q)).ok
  | .graphql field => do return (Body.graphql (← field.resolve)).ok
  | .playground => return Body.playground.ok
  | .unmatched _ => return ⟨404, .notFound⟩

end SentrixIndexer
