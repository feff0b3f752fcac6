/-
The routes behind the cache.

Each route reads its parameters, names its answer by a key and goes through `get_or_load`: a
hit is answered as it is, and anything else that may come of the cache falls back to the
loader, whose value is written to the cache before it is answered.  A loader is one query of
the database and a mapping of its rows.
-/
import SentrixIndexer.Api.Blocks
import SentrixIndexer.Cache.Client

namespace SentrixIndexer

open Effect Numeric

/-! ### Rows and responses -/

/-- Compact row of `top_by_value`. -/
structure TopTxRow where
  hash : Hash
  fromAddr : Address
  toAddr : Option Address
  value : String
  blockHeight : Int
  timestamp : Int

/-- Row of `cb_queries::list_tokens`. -/
structure CbTokenRow where
  curveAddress : Address
  tokenAddress : Address
  ownerAddress : Address
  name : String
  symbol : String
  curveSupply : String
  graduationThreshold : String
  isGraduated : Bool
  createdBlock : Int
  createdTxHash : Hash
  totalVolumeSrx : String
  tradeCount : Int
  lastPriceSrx : String

/-- Row of `list_contracts`. -/
structure ContractRow where
  address : Address
  firstSeenBlock : Int
  lastSeenBlock : Int
  codeHash : Option String

/-- Row of `stats::daily`. -/
structure StatsDailyRow where
  date : String
  blocks : Int
  transactions : Int

structure ActiveAccount where
  rank : Int
  address : Address
  txCount : Int
  deriving DecidableEq

structure ActiveResponse where
  accounts : List ActiveAccount
  deriving DecidableEq

structure WhaleTransfer where
  hash : Hash
  sender : Address
  receiver : Option Address
  value : String
  blockHeight : Int
  timestamp : Int

structure WhaleResponse where
  transfers : List WhaleTransfer

structure WireToken where
  curveAddress : Address
  tokenAddress : Address
  ownerAddress : Address
  name : String
  symbol : String
  curveSupply : String
  graduationThreshold : String
  isGraduated : Bool
  createdBlock : Int
  createdTxHash : Hash
  totalVolumeSrx : String
  tradeCount : Int
  lastPriceSrx : String

structure TokensResponse where
  tokens : List WireToken

structure ContractEntry where
  rank : Int
  address : Address
  firstSeenBlock : Int
  lastSeenBlock : Int
  codeHash : Option String

structure ContractsResponse where
  contracts : List ContractEntry

structure DailyRow where
  date : String
  blocks : Int
  transactions : Int

/-- Each row with its rank, from one on. -/
def ranked {V T : Type} (entry : Int → V → T) (rows : List V) : List T :=
  rows.mapIdx fun i row => entry ((i : Int) + 1) row

def ActiveResponse.ofRows (rows : List (Address × Int)) : ActiveResponse where
  accounts := ranked (fun rank row => ⟨rank, row.1, row.2⟩) rows

def WhaleResponse.ofRows (rows : List TopTxRow) : WhaleResponse where
  transfers := rows.map fun r =>
    ⟨r.hash, r.fromAddr, r.toAddr, r.value, r.blockHeight, r.timestamp⟩

/-- `impl From<CbTokenRow> for WireToken`. -/
def WireToken.ofRow (t : CbTokenRow) : WireToken where
  curveAddress := t.curveAddress
  tokenAddress := t.tokenAddress
  ownerAddress := t.ownerAddress
  name := t.name
  symbol := t.symbol
  curveSupply := t.curveSupply
  graduationThreshold := t.graduationThreshold
  isGraduated := t.isGraduated
  createdBlock := t.createdBlock
  createdTxHash := t.createdTxHash
  totalVolumeSrx := t.totalVolumeSrx
  tradeCount := t.tradeCount
  lastPriceSrx := t.lastPriceSrx

def TokensResponse.ofRows (rows : List CbTokenRow) : TokensResponse where
  tokens := rows.map .ofRow

def ContractsResponse.ofRows (rows : List ContractRow) : ContractsResponse where
  contracts := ranked (fun rank r =>
    ⟨rank, r.address, r.firstSeenBlock, r.lastSeenBlock, r.codeHash⟩) rows

def DailyRow.ofRow (r : StatsDailyRow) : DailyRow := ⟨r.date, r.blocks, r.transactions⟩

/-! ### Queries -/

/-- A query of the database. -/
inductive ApiRead
  | listBefore (before : Option Int) (limit : Int)
  | topSenders (limit : Int)
  | topByValue (limit : Int)
  | listTokens (limit : Int)
  | listContracts (limit : Int) (ascending : Bool)
  | daily (limit : Int)
  deriving DecidableEq

abbrev ApiRead.Row : ApiRead → Type
  | .listBefore _ _ => Block
  | .topSenders _ => Address × Int
  | .topByValue _ => TopTxRow
  | .listTokens _ => CbTokenRow
  | .listContracts _ _ => ContractRow
  | .daily _ => StatsDailyRow

/-- The routes whose only parameter is a limit. -/
inductive BoardRoute
  | accountsActive
  | whaleTransfers
  | coinblastTokens
  | contractsRecent
  | contractsPioneers
  | contractsStats
  | statsDaily
  deriving DecidableEq, Repr

namespace BoardRoute

/-- What the key of the route starts with. -/
def label : BoardRoute → String
  | accountsActive => "accounts:active"
  | whaleTransfers => "whale:transfers"
  | coinblastTokens => "coinblast:tokens"
  | contractsRecent => "contracts:recent"
  | contractsPioneers => "contracts:pioneers"
  | contractsStats => "contracts:stats"
  | statsDaily => "stats:daily"

abbrev Response : BoardRoute → Type
  | accountsActive => ActiveResponse
  | whaleTransfers => WhaleResponse
  | coinblastTokens => TokensResponse
  | contractsRecent => ContractsResponse
  | contractsPioneers => ContractsResponse
  | contractsStats => ContractsResponse
  | statsDaily => List DailyRow

/-- The query of the route's loader. -/
abbrev read (limit : Int) : BoardRoute → ApiRead
  | accountsActive => .topSenders limit
  | whaleTransfers => .topByValue limit
  | coinblastTokens => .listTokens limit
  | contractsRecent => .listContracts limit false
  | contractsPioneers => .listContracts limit true
  | contractsStats => .listContracts limit false
  | statsDaily => .daily limit

/-- What the loader makes of the rows. -/
def ofRows (limit : Int) : (route : BoardRoute) → List (route.read limit).Row → route.Response
  | accountsActive, rows => .ofRows rows
  | whaleTransfers, rows => .ofRows rows
  | coinblastTokens, rows => .ofRows rows
  | contractsRecent, rows => .ofRows rows
  | contractsPioneers, rows => .ofRows rows
  | contractsStats, rows => .ofRows rows
  | statsDaily, rows => rows.map .ofRow

/-- The two halves of the label. -/
def words : BoardRoute → List String
  | accountsActive => ["accounts", "active"]
  | whaleTransfers => ["whale", "transfers"]
  | coinblastTokens => ["coinblast", "tokens"]
  | contractsRecent => ["contracts", "recent"]
  | contractsPioneers => ["contracts", "pioneers"]
  | contractsStats => ["contracts", "stats"]
  | statsDaily => ["stats", "daily"]

/-- Two words make the label. -/
theorem label_eq (r : BoardRoute) : r.words.length = 2 ∧ (∀ s ∈ r.words, ':' ∉ s.toList) ∧
    r.label = (String.singleton ':').intercalate r.words := by
  cases r <;> decide

theorem words_injective {r r' : BoardRoute} (h : r.words = r'.words) : r = r' := by
  cases r <;> cases r' <;> first | rfl | exact absurd h (by decide)

end BoardRoute

/-- A route with its parameters, as they are after parsing and clamping. -/
inductive CachedQuery
  | blocks (limit : Int) (before : Option Int)
  | board (route : BoardRoute) (limit : Int)
  deriving DecidableEq

namespace CachedQuery

abbrev Response : CachedQuery → Type
  | blocks _ _ => ListResponse
  | board route _ => route.Response

abbrev read : CachedQuery → ApiRead
  | blocks limit before => .listBefore before limit
  | board route limit => route.read limit

def ofRows : (q : CachedQuery) → List q.read.Row → q.Response
  | blocks _ _, rows => .ofRows rows
  | board route limit, rows => route.ofRows limit rows

/-- The name of the answer in the cache. -/
def key : CachedQuery → String
  | blocks limit before =>
      "blocks:list:" ++ limit.repr ++ ":" ++ (before.map Int.repr).getD "tip"
  | board route limit => route.label ++ ":" ++ limit.repr

/-- What stands between the colons of the key. -/
def words : CachedQuery → List String
  | blocks limit before => ["blocks", "list", limit.repr, (before.map Int.repr).getD "tip"]
  | board route limit => route.words ++ [limit.repr]

theorem key_eq (q : CachedQuery) : q.key = (String.singleton ':').intercalate q.words := by
  cases q with
  | blocks limit before =>
      rw [words, String.intercalate_cons_cons, String.intercalate_cons_cons,
        String.intercalate_cons_cons, String.intercalate_singleton]
      simp only [← String.append_assoc]
      rfl
  | board route limit =>
      obtain ⟨hlength, -, hlabel⟩ := route.label_eq
      have hwords : route.words ≠ [] := List.ne_nil_of_length_eq_add_one hlength
      rw [words, String.intercalate_append_of_ne_nil hwords (by simp), ← hlabel,
        String.intercalate_singleton]
      rfl

theorem colon_notMem_words {q : CachedQuery} {s : String} (hs : s ∈ q.words) : ':' ∉ s.toList := by
  have hrepr : ∀ n : Int, ':' ∉ n.repr.toList := notMem_repr (by decide) (by decide)
  cases q with
  | blocks limit before =>
      have hbefore : ':' ∉ ((before.map Int.repr).getD "tip").toList := by
        cases before with
        | none => decide
        | some b => exact hrepr b
      simp only [words, List.mem_cons, List.not_mem_nil, or_false] at hs
      rcases hs with rfl | rfl | rfl | rfl
      · decide
      · decide
      · exact hrepr limit
      · exact hbefore
  | board route limit =>
      rcases List.mem_append.mp hs with hs | hs
      · exact route.label_eq.2.1 s hs
      · rw [List.mem_singleton.mp hs]
        exact hrepr limit

/-- **No two queries share a key.** -/
theorem key_injective {q q' : CachedQuery} (h : q.key = q'.key) : q = q' := by
  have hne : ∀ q : CachedQuery, q.words ≠ [] := fun q => by cases q <;> simp [words]
  rw [key_eq, key_eq] at h
  have hwords := intercalate_injective (fun _ => colon_notMem_words) (fun _ => colon_notMem_words)
    (hne q) (hne q') h
  have htip : ∀ n : Int, n.repr ≠ "tip" := fun n hn => by
    have hparse := parseInteger_repr n
    rw [hn, show parseInteger "tip" = none from by decide] at hparse
    exact absurd hparse (by simp)
  -- The keys of `/blocks` have a word more.
  have hlength : ∀ limit before route limit',
      (blocks limit before).words ≠ (board route limit').words := by
    intro limit before route limit' h
    have hlength := congrArg List.length h
    rw [words, words, List.length_append, route.label_eq.1] at hlength
    exact absurd hlength (by simp)
  cases q with
  | blocks limit before =>
      cases q' with
      | blocks limit' before' =>
          simp only [words, List.cons.injEq, and_true, true_and] at hwords
          obtain ⟨hlimit, hbefore⟩ := hwords
          rw [repr_injective hlimit]
          rcases before with _ | b <;> rcases before' with _ | b'
          · rfl
          · exact absurd hbefore.symm (htip b')
          · exact absurd hbefore (htip b)
          · rw [repr_injective hbefore]
      | board route' limit' => exact absurd hwords (hlength _ _ _ _)
  | board route limit =>
      cases q' with
      | blocks limit' before' => exact absurd hwords.symm (hlength _ _ _ _)
      | board route' limit' =>
          obtain ⟨hroute, hlimit⟩ := List.append_inj' hwords rfl
          rw [BoardRoute.words_injective hroute, repr_injective (List.singleton_inj.mp hlimit)]

end CachedQuery

/-! ### Calls -/

/-- A request to a cached route, its parameters as text. -/
inductive Request
  | blocks (q : BlocksQuery)
  | accountsActive (limit : Option String)
  | whaleTransfers (limit : Option String)
  /-- The alias of `/whale/transfers`. -/
  | whaleTx (limit : Option String)
  | coinblastTokens (limit : Option String)
  | contractsRecent (limit : Option String)
  | contractsPioneers (limit : Option String)
  | contractsStats (limit : Option String)
  | statsDaily (limit : Option String)
  deriving DecidableEq

/-- What is answered: a response of the query's type, or an error. -/
abbrev ApiAnswer := Except ApiError (Σ q : CachedQuery, q.Response)

inductive ApiCall
  /-- The next request comes in. -/
  | accept
  | read (r : ApiRead)
  | respond (answer : ApiAnswer)

abbrev ApiSig : Signature where
  Call := ApiCall
  Answer
    | .accept => Request
    | .read r => Except String (List r.Row)
    | .respond _ => Unit

abbrev ApiScript := Script (CacheSig ApiSig)

def ApiCall.ask (c : ApiCall) : ApiScript (ApiSig.Answer c) :=
  CacheClient.ask (O := ApiSig) (.outer c)

/-! ### Cache-aside -/

/-- The loader of a query. -/
def CachedQuery.load (q : CachedQuery) : ApiScript (Except ApiError q.Response) := do
  match ← (ApiCall.read q.read).ask with
  | .ok rows => return .ok (q.ofRows rows)
  | .error e => return .error (.db e)

section GetOrLoad

variable {T ε : Type}

/-- Load, and write what was loaded to the cache. -/
def loadThrough (ns : String) (json : Json T) (key : String) (tier : Tier)
    (loader : ApiScript (Except ε T)) : ApiScript (Except ε T) := do
  match ← loader with
  | .error e => return .error e
  | .ok value =>
      let _ ← CacheClient.set ApiSig ns json key value tier
      return .ok value

/-- `get_or_load`; without a cache every request loads. -/
def getOrLoad (cache : Option String) (json : Json T) (key : String) (tier : Tier)
    (loader : ApiScript (Except ε T)) : ApiScript (Except ε T) :=
  match cache with
  | none => loader
  | some ns => do
      match ← CacheClient.get ApiSig ns json key with
      | .ok (some hit) => return .ok hit
      | .ok none => loadThrough ns json key tier loader
      | .error _ => loadThrough ns json key tier loader

end GetOrLoad

/-! ### Requests -/

/-- The query of a request. -/
def Request.query : Request → Except ApiError CachedQuery
  | .blocks q => do
      let before ← q.parseBefore
      return .blocks (clampLimit q.limit) before
  | .accountsActive limit => .ok (.board .accountsActive (clampLimit limit))
  | .whaleTransfers limit => .ok (.board .whaleTransfers (clampLimit limit))
  | .whaleTx limit => .ok (.board .whaleTransfers (clampLimit limit))
  | .coinblastTokens limit => .ok (.board .coinblastTokens (clampLimit limit))
  | .contractsRecent limit => .ok (.board .contractsRecent (clampLimit limit))
  | .contractsPioneers limit => .ok (.board .contractsPioneers (clampLimit limit))
  | .contractsStats limit => .ok (.board .contractsStats (clampLimit limit))
  | .statsDaily limit => .ok (.board .statsDaily (clampLimit limit))

/-- The tier of every cached route. -/
def cachedTier : Tier := .chain

/-- A request is answered. -/
def answerRequest (cache : Option String) (json : (q : CachedQuery) → Json q.Response)
    (req : Request) : ApiScript ApiAnswer :=
  match req.query with
  | .error e => .pure (.error e)
  | .ok q => do
      match ← getOrLoad cache (json q) q.key cachedTier q.load with
      | .ok v => return .ok ⟨q, v⟩
      | .error e => return .error e

/-- One request, from its coming in to its answer. -/
def serveRequest (cache : Option String) (json : (q : CachedQuery) → Json q.Response) :
    ApiScript Unit := do
  let req ← ApiCall.accept.ask
  let answer ← answerRequest cache json req
  (ApiCall.respond answer).ask

end SentrixIndexer
