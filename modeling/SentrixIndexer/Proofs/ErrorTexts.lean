/-
The texts of errors do not leave the API.

Database and Redis errors name tables, columns and hosts.  Every run of the API has a
counterpart in which all these texts are others, and in which all requests are answered the
same: what a client sees tells nothing of them.
-/
import SentrixIndexer.Api.Http
import SentrixIndexer.Effect.Lockstep

namespace SentrixIndexer

open Effect

/-! ### Other words -/

section Words

variable (f : String → String)

def ProbeError.reword : ProbeError → ProbeError
  | .sqlx e => .sqlx (f e)
  | .timeout => .timeout

/-- The answer, its error being put in other words. -/
def RouteCall.reword : (c : RouteCall) → RouteSig.Answer c → RouteSig.Answer c
  | .cached .isOpen, r => r
  | .cached .recordSuccess, r => r
  | .cached .recordFailure, r => r
  | .cached (.redis c), r => Except.mapError (α := c.Reply) f r
  | .cached (.outer .accept), r => r
  | .cached (.outer (.read q)), r => Except.mapError (α := List q.Row) f r
  | .cached (.outer (.respond _)), r => r
  | .detail (.getByHeight _), r => Except.mapError (α := Option Block) f r
  | .detail (.forBlock _), r => Except.mapError (α := List Transaction) f r
  | .detail (.getByHash _), r => Except.mapError (α := Option Transaction) f r
  | .detail (.forTx _), r => Except.mapError (α := List Log) f r
  | .detail (.listBefore _ _), r => Except.mapError (α := List Block) f r
  | .plain .selectOne, r => Except.mapError (α := Unit) (ProbeError.reword f) r
  | .plain (.txsOfAddress _ _), r => Except.mapError (α := List Transaction) f r
  | .plain (.transfersOfAddress _ _ _), r => Except.mapError (α := List (Int × TokenTransfer)) f r
  | .plain (.getToken _), r => Except.mapError (α := Option CbTokenRow) f r
  | .plain (.listTrades _ _), r => Except.mapError (α := List CbTradeRow) f r
  | .plain (.heightByTime _ _), r => Except.mapError (α := Option Int) f r

/-- The same event, but for the words of an error. -/
def HttpEvent.reword : HttpEvent → HttpEvent
  | .accepted i req => .accepted i req
  | .asked i c r => .asked i c (c.reword f r)
  | .responded i r => .responded i r

def HttpWorld.reword {σ : Type} (w : HttpWorld σ) : HttpWorld σ :=
  { w with events := w.events.map (HttpEvent.reword f) }

/-- Which answers are one but for their words. -/
def RouteCall.Alike (c : RouteCall) (r r' : RouteSig.Answer c) : Prop := r' = c.reword f r

def HttpCall.Alike : (c : HttpCall) → HttpSig.Answer c → HttpSig.Answer c → Prop
  | .accept, r, r' => r' = r
  | .now, r, r' => r' = r
  | .nextId, r, r' => r' = r
  | .limit, r, r' => r' = r
  | .route c, r, r' => c.Alike f r r'
  | .respond _, r, r' => r' = r

end Words

variable {f : String → String}

/-! ### The cache -/

/-- The calls of the routes behind the cache, answered alike. -/
abbrev CachedAlike (f : String → String) (c : CacheCall ApiCall) :
    (CacheSig ApiSig).Answer c → (CacheSig ApiSig).Answer c → Prop := (RouteCall.cached c).Alike f

theorem lockstep_cacheAsk (c : CacheCall ApiCall) :
    Lockstep (CachedAlike f) ((RouteCall.cached c).Alike f) (CacheClient.ask (O := ApiSig) c)
      (CacheClient.ask (O := ApiSig) c) :=
  Lockstep.ask (S := CacheSig ApiSig) c

/-- The same was found, or Redis failed. -/
inductive FoundAlike {T : Type} : Except CacheError T → Except CacheError T → Prop
  | same (r : Except CacheError T) : FoundAlike r r
  | failed (e e' : String) : FoundAlike (.error (.redis e)) (.error (.redis e'))

/-- Two results a client cannot tell apart. -/
def SameReply {T : Type} (a b : Except ApiError T) : Prop :=
  a.mapError ApiError.intoResponse = b.mapError ApiError.intoResponse

theorem SameReply.refl {T : Type} (a : Except ApiError T) : SameReply a a := rfl

theorem SameReply.reply {T : Type} {a b : Except ApiError T} (h : SameReply a b)
    (body : T → Body) : replyWith body a = replyWith body b := by
  cases a with
  | ok v =>
      cases b with
      | ok v' => rw [Except.ok.inj h]
      | error e => exact absurd h nofun
  | error e =>
      cases b with
      | ok v => exact absurd h nofun
      | error e' => exact Except.error.inj h

section Cached

variable {T : Type} {ns key : String} {json : Json T}

theorem lockstep_get : Lockstep (CachedAlike f) FoundAlike
    (CacheClient.get ApiSig ns json key) (CacheClient.get ApiSig ns json key) := by
  refine Lockstep.bind (lockstep_cacheAsk .isOpen) ?_
  rintro _ isOpen rfl
  cases isOpen with
  | true => exact .pure (.same _)
  | false =>
      refine Lockstep.bind (lockstep_cacheAsk (.redis (.get _))) ?_
      rintro found _ rfl
      cases found with
      | error e => exact (lockstep_cacheAsk .recordFailure).bind fun _ _ _ => .pure (.failed _ _)
      | ok raw =>
          refine (lockstep_cacheAsk .recordSuccess).bind fun _ _ _ => ?_
          cases raw with
          | none => exact .pure (.same _)
          | some s => exact .pure (.same _)

theorem lockstep_set (value : T) (tier : Tier) : Lockstep (CachedAlike f) (fun _ _ => True)
    (CacheClient.set ApiSig ns json key value tier)
    (CacheClient.set ApiSig ns json key value tier) := by
  refine Lockstep.bind (lockstep_cacheAsk .isOpen) ?_
  rintro _ isOpen rfl
  cases isOpen with
  | true => exact .pure trivial
  | false =>
      simp only [Bool.false_eq_true, if_false]
      cases json.encode value with
      | error e => exact .pure trivial
      | ok body =>
          refine Lockstep.bind (lockstep_cacheAsk (.redis (.set _ _ _))) ?_
          rintro done _ rfl
          cases done with
          | error e => exact (lockstep_cacheAsk .recordFailure).bind fun _ _ _ => .pure trivial
          | ok u => exact (lockstep_cacheAsk .recordSuccess).bind fun _ _ _ => .pure trivial

theorem lockstep_loadThrough {tier : Tier} {loader : ApiScript (Except ApiError T)}
    (h : Lockstep (CachedAlike f) SameReply loader loader) :
    Lockstep (CachedAlike f) SameReply (loadThrough ns json key tier loader)
      (loadThrough ns json key tier loader) := by
  refine h.bind fun a b hab => ?_
  cases a with
  | error e =>
      cases b with
      | error e' => exact .pure hab
      | ok v => exact absurd hab nofun
  | ok v =>
      cases b with
      | error e => exact absurd hab nofun
      | ok v' =>
          obtain rfl := Except.ok.inj hab
          exact (lockstep_set v tier).bind fun _ _ _ => .pure (.refl _)

/-- **Cache-aside** hands on what the loader comes to. -/
theorem lockstep_getOrLoad {cache : Option String} {tier : Tier}
    {loader : ApiScript (Except ApiError T)}
    (h : Lockstep (CachedAlike f) SameReply loader loader) :
    Lockstep (CachedAlike f) SameReply (getOrLoad cache json key tier loader)
      (getOrLoad cache json key tier loader) := by
  cases cache with
  | none => exact h
  | some ns =>
      refine lockstep_get.bind fun a b hab => ?_
      cases hab with
      | failed e e' => exact lockstep_loadThrough h
      | same _ =>
          rcases a with e | _ | hit
          · exact lockstep_loadThrough h
          · exact lockstep_loadThrough h
          · exact .pure (.refl _)

end Cached

theorem lockstep_load (q : CachedQuery) :
    Lockstep (CachedAlike f) SameReply q.load q.load := by
  refine Lockstep.bind (lockstep_cacheAsk (.outer (.read _))) ?_
  rintro rows _ rfl
  cases rows with
  | error e => exact .pure rfl
  | ok rows => exact .pure (.refl _)

theorem lockstep_answerRequest (cache : Option String)
    (json : (q : CachedQuery) → Json q.Response) (req : Request) :
    Lockstep (CachedAlike f) SameReply (answerRequest cache json req)
      (answerRequest cache json req) := by
  unfold answerRequest
  cases req.query with
  | error e => exact .pure (.refl _)
  | ok q =>
      refine (lockstep_getOrLoad (lockstep_load q)).bind fun a b hab => ?_
      cases a with
      | error e =>
          cases b with
          | error e' => exact .pure (congrArg Except.error (Except.error.inj hab))
          | ok v => exact absurd hab nofun
      | ok v =>
          cases b with
          | error e => exact absurd hab nofun
          | ok v' =>
              obtain rfl := Except.ok.inj hab
              exact .pure (.refl _)

/-! ### Blocks and transactions -/

/-- The statements of these routes, answered alike. -/
abbrev DetailAlike (f : String → String) (r : DetailRead) : r.Answer → r.Answer → Prop :=
  (RouteCall.detail r).Alike f

theorem lockstep_detailAsk (r : DetailRead) :
    Lockstep (S := DetailSig) (DetailAlike f) (DetailAlike f r) r.ask r.ask :=
  Lockstep.ask (S := DetailSig) r

theorem lockstep_blockDetail (height : String) :
    Lockstep (S := DetailSig) (DetailAlike f) SameReply (blockDetail height)
      (blockDetail height) := by
  unfold blockDetail
  cases parseI64 height with
  | none => exact .pure (.refl _)
  | some h =>
      refine Lockstep.bind (lockstep_detailAsk (.getByHeight h)) ?_
      rintro found _ rfl
      rcases found with e | _ | block
      · exact .pure rfl
      · exact .pure (.refl _)
      · refine Lockstep.bind (lockstep_detailAsk (.forBlock h)) ?_
        rintro txs _ rfl
        cases txs with
        | error e => exact .pure rfl
        | ok txs => exact .pure (.refl _)

theorem lockstep_transactionDetail (hash : String) :
    Lockstep (S := DetailSig) (DetailAlike f) SameReply (transactionDetail hash)
      (transactionDetail hash) := by
  unfold transactionDetail
  refine Lockstep.bind (lockstep_detailAsk (.getByHash _)) ?_
  rintro found _ rfl
  rcases found with e | _ | tx
  · exact .pure rfl
  · exact .pure (.refl _)
  · refine Lockstep.bind (lockstep_detailAsk (.forTx _)) ?_
    rintro logRows _ rfl
    cases logRows with
    | error e => exact .pure rfl
    | ok logRows =>
        refine Lockstep.bind (lockstep_detailAsk (.getByHeight _)) ?_
        rintro block _ rfl
        cases block with
        | error e => exact .pure rfl
        | ok block => exact .pure (.refl _)

/-- A GraphQL field names no error at all. -/
theorem lockstep_resolve_block (height : Int) :
    Lockstep (S := DetailSig) (DetailAlike f) Eq (QueryRoot.block height)
      (QueryRoot.block height) := by
  refine Lockstep.bind (lockstep_detailAsk (.getByHeight height)) ?_
  rintro row _ rfl
  cases row with
  | error e => exact .pure rfl
  | ok row => exact .pure rfl

theorem lockstep_resolve_blocks (first before : Option Int) :
    Lockstep (S := DetailSig) (DetailAlike f) Eq (QueryRoot.blocks first before)
      (QueryRoot.blocks first before) := by
  refine Lockstep.bind (lockstep_detailAsk (.listBefore before _)) ?_
  rintro rows _ rfl
  cases rows with
  | error e => exact .pure rfl
  | ok rows => exact .pure rfl

theorem lockstep_resolve_transaction (hash : String) :
    Lockstep (S := DetailSig) (DetailAlike f) Eq (QueryRoot.transaction hash)
      (QueryRoot.transaction hash) := by
  refine Lockstep.bind (lockstep_detailAsk (.getByHash _)) ?_
  rintro found _ rfl
  rcases found with e | _ | tx
  · exact .pure rfl
  · exact .pure rfl
  · refine Lockstep.bind (lockstep_detailAsk (.forTx _)) ?_
    rintro logRows _ rfl
    cases logRows with
    | error e => exact .pure rfl
    | ok logRows => exact .pure rfl

/-! ### The other routes -/

/-- The calls of a route, answered alike. -/
abbrev RouteAlike (f : String → String) (c : RouteCall) :
    RouteSig.Answer c → RouteSig.Answer c → Prop := c.Alike f

theorem lockstep_plainAsk (r : PlainRead) :
    Lockstep (S := RouteSig) (RouteAlike f) (RouteAlike f (.plain r)) r.ask r.ask :=
  Lockstep.ask (S := RouteSig) (.plain r)

theorem lockstep_viaCached {T : Type} {Q : T → T → Prop} {p : ApiScript T}
    (h : Lockstep (CachedAlike f) Q p p) :
    Lockstep (RouteAlike f) Q (viaCached p) (viaCached p) :=
  h.via fun c => Lockstep.ask (S := RouteSig) (.cached c)

theorem lockstep_viaDetail {T : Type} {Q : T → T → Prop} {p : DetailScript T}
    (h : Lockstep (S := DetailSig) (DetailAlike f) Q p p) :
    Lockstep (RouteAlike f) Q (viaDetail p) (viaDetail p) :=
  h.via fun r => Lockstep.ask (S := RouteSig) (.detail r)

theorem lockstep_addressTxs (addr : String) (limit : Option String) :
    Lockstep (RouteAlike f) SameReply (addressTxsHandler addr limit)
      (addressTxsHandler addr limit) := by
  refine Lockstep.bind (lockstep_plainAsk (.txsOfAddress _ _)) ?_
  rintro rows _ rfl
  cases rows with
  | error e => exact .pure rfl
  | ok rows => exact .pure (.refl _)

theorem lockstep_addressTransfers (addr : String) (limit standard : Option String) :
    Lockstep (RouteAlike f) SameReply (addressTransfersHandler addr limit standard)
      (addressTransfersHandler addr limit standard) := by
  refine Lockstep.bind (lockstep_plainAsk (.transfersOfAddress _ _ _)) ?_
  rintro rows _ rfl
  cases rows with
  | error e => exact .pure rfl
  | ok rows => exact .pure (.refl _)

theorem lockstep_tokenDetail (curve : String) :
    Lockstep (RouteAlike f) SameReply (tokenDetail curve) (tokenDetail curve) := by
  refine Lockstep.bind (lockstep_plainAsk (.getToken _)) ?_
  rintro row _ rfl
  rcases row with e | _ | row
  · exact .pure rfl
  · exact .pure (.refl _)
  · exact .pure (.refl _)

theorem lockstep_listTrades (limit curve : Option String) :
    Lockstep (RouteAlike f) SameReply (listTradesHandler limit curve)
      (listTradesHandler limit curve) := by
  refine Lockstep.bind (lockstep_plainAsk (.listTrades _ _)) ?_
  rintro rows _ rfl
  cases rows with
  | error e => exact .pure rfl
  | ok rows => exact .pure (.refl _)

theorem lockstep_dispatch (q : Etherscan.EsQuery) :
    Lockstep (RouteAlike f) Eq (Etherscan.dispatchHandler q) (Etherscan.dispatchHandler q) := by
  have htxlist : Lockstep (RouteAlike f) Eq (Etherscan.txlistHandler q)
      (Etherscan.txlistHandler q) := by
    unfold Etherscan.txlistHandler
    cases q.address with
    | none => exact .pure rfl
    | some addr =>
        by_cases hq : Etherscan.unsupported q ≠ []
        · simp only [if_pos hq]
          exact .pure rfl
        · simp only [if_neg hq]
          refine Lockstep.bind (lockstep_plainAsk (.txsOfAddress _ _)) ?_
          rintro rows _ rfl
          cases rows with
          | error e => exact .pure rfl
          | ok rows => exact .pure rfl
  have hbytime : Lockstep (RouteAlike f) Eq (Etherscan.getblocknobytimeHandler q)
      (Etherscan.getblocknobytimeHandler q) := by
    unfold Etherscan.getblocknobytimeHandler
    cases q.timestamp with
    | none => exact .pure rfl
    | some tsStr =>
        dsimp only
        cases parseI64 tsStr with
        | none => exact .pure rfl
        | some ts =>
            refine Lockstep.bind (lockstep_plainAsk (.heightByTime _ _)) ?_
            rintro row _ rfl
            rcases row with e | _ | h
            · exact .pure rfl
            · exact .pure rfl
            · exact .pure rfl
  rw [Etherscan.dispatchHandler_eq]
  dsimp only
  split_ifs
  · exact htxlist
  · exact hbytime
  · exact .pure rfl
  · exact .pure rfl

theorem lockstep_readyz (state : AppState) :
    Lockstep (RouteAlike f) Eq (readyz state) (readyz state) := by
  refine Lockstep.bind (lockstep_plainAsk .selectOne) ?_
  rintro pg _ rfl
  have hpg : pgCheck (Except.mapError (α := Unit) (ProbeError.reword f) pg) = pgCheck pg := by
    rcases pg with (e | _) | u
    · rfl
    · rfl
    · rfl
  simp only [RouteCall.reword, hpg]
  cases state.cache with
  | none => exact .pure rfl
  | some ns =>
      refine (lockstep_viaCached lockstep_get).bind fun a b hab => ?_
      cases hab with
      | same _ => exact .pure rfl
      | failed e e' => exact .pure rfl

theorem lockstep_resolve (field : GraphqlField) :
    Lockstep (RouteAlike f) Eq field.resolve field.resolve := by
  cases field with
  | block height =>
      refine (lockstep_viaDetail (lockstep_resolve_block height)).bind ?_
      rintro row _ rfl
      exact .pure rfl
  | blocks first before =>
      refine (lockstep_viaDetail (lockstep_resolve_blocks first before)).bind ?_
      rintro rows _ rfl
      exact .pure rfl
  | transaction hash =>
      refine (lockstep_viaDetail (lockstep_resolve_transaction hash)).bind ?_
      rintro row _ rfl
      exact .pure rfl

/-- A handler whose results a client cannot tell apart replies the same. -/
theorem Lockstep.reply {T : Type} {p : RouteScript (Except ApiError T)} {body : T → Body}
    (h : Lockstep (RouteAlike f) SameReply p p) :
    Lockstep (RouteAlike f) Eq (do return replyWith body (← p)) (do return replyWith body (← p)) :=
  h.bind fun _ _ hab => .pure (hab.reply body)

/-- **No route lets a text of an error into its reply.** -/
theorem lockstep_handler (state : AppState) (route : Route) :
    Lockstep (RouteAlike f) Eq (route.handler state) (route.handler state) := by
  cases route with
  | health => exact .pure rfl
  | readyz => exact lockstep_readyz state
  | openapiJson => exact .pure rfl
  | docs => exact .pure rfl
  | cached req =>
      exact Lockstep.reply (lockstep_viaCached (lockstep_answerRequest state.cache state.json req))
  | block height => exact Lockstep.reply (lockstep_viaDetail (lockstep_blockDetail height))
  | tx hash => exact Lockstep.reply (lockstep_viaDetail (lockstep_transactionDetail hash))
  | addressTxs addr limit => exact Lockstep.reply (lockstep_addressTxs addr limit)
  | addressTransfers addr limit standard =>
      exact Lockstep.reply (lockstep_addressTransfers addr limit standard)
  | token curve => exact Lockstep.reply (lockstep_tokenDetail curve)
  | trades limit curve => exact Lockstep.reply (lockstep_listTrades limit curve)
  | etherscan q =>
      refine (lockstep_dispatch q).bind ?_
      rintro e _ rfl
      exact .pure rfl
  | graphql field =>
      refine (lockstep_resolve field).bind ?_
      rintro data _ rfl
      exact .pure rfl
  | playground => exact .pure rfl
  | unmatched path => exact .pure rfl

/-! ### The layers -/

theorem lockstep_httpAsk (c : HttpCall) :
    Lockstep (S := HttpSig) (HttpCall.Alike f) (HttpCall.Alike f c) c.ask c.ask :=
  Lockstep.ask (S := HttpSig) c

theorem lockstep_requestIdOf (req : HttpRequest) :
    Lockstep (S := HttpSig) (HttpCall.Alike f) Eq (requestIdOf req) (requestIdOf req) := by
  unfold requestIdOf
  cases req.requestId.bind headerText with
  | some id => exact .pure rfl
  | none =>
      refine Lockstep.bind (lockstep_httpAsk .now) ?_
      rintro _ clock rfl
      refine Lockstep.bind (lockstep_httpAsk .nextId) ?_
      rintro _ seq rfl
      exact .pure rfl

theorem lockstep_requireBearer (state : AppState) (auth : AuthState) (req : HttpRequest) :
    Lockstep (S := HttpSig) (HttpCall.Alike f) Eq (requireBearer state auth req)
      (requireBearer state auth req) := by
  unfold requireBearer
  by_cases hadmits : auth.admits req = true
  · rw [if_pos hadmits]
    refine Lockstep.bind (lockstep_httpAsk .limit) ?_
    rintro _ pass rfl
    cases pass with
    | true => exact (lockstep_handler state req.route).via fun c => lockstep_httpAsk (.route c)
    | false => exact .pure rfl
  · rw [if_neg hadmits]
    exact .pure rfl

theorem lockstep_serveHttp (state : AppState) (auth : AuthState) :
    Lockstep (S := HttpSig) (HttpCall.Alike f) Eq (serveHttp state auth)
      (serveHttp state auth) := by
  refine Lockstep.bind (lockstep_httpAsk .accept) ?_
  rintro _ req rfl
  refine (lockstep_requestIdOf req).bind ?_
  rintro id _ rfl
  refine (lockstep_requireBearer state auth req).bind ?_
  rintro reply _ rfl
  exact (lockstep_httpAsk (.respond _)).mono fun _ _ _ => rfl

/-! ### Runs -/

variable {σ : Type} {g : Ground σ} {state : AppState} {auth : AuthState}

/-- What the API stands on may put its errors in any words, and does not go by them. -/
def AnyWords (g : Ground σ) : Prop :=
  ∀ f s c r s', g.answers s c r s' → g.answers s c (c.reword f r) s'

theorem mem_accepted_reword {w : HttpWorld σ} {i : Nat} {req : HttpRequest} :
    .accepted i req ∈ (w.reword f).events ↔ .accepted i req ∈ w.events := by
  show _ ∈ w.events.map _ ↔ _
  rw [List.mem_map]
  constructor
  · rintro ⟨e, he, heq⟩
    cases e with
    | accepted j req' => exact heq ▸ he
    | asked j c r => exact absurd heq nofun
    | responded j r => exact absurd heq nofun
  · exact fun h => ⟨_, h, rfl⟩

/-- Each move can be made in other words. -/
theorem indifferent_httpApi (hany : AnyWords g) (f : String → String) :
    Indifferent (httpApi g state auth) (HttpCall.Alike f) (fun w v => v = w.reword f) where
  spawn i p hp := ⟨_, hp, lockstep_serveHttp state auth⟩
  handler i c w v r w' hv hH := by
    subst hv
    cases c with
    | accept =>
        obtain ⟨hnew, rfl⟩ := hH
        exact ⟨r, _, rfl, ⟨fun earlier h => hnew earlier (mem_accepted_reword.mp h), rfl⟩, rfl⟩
    | now =>
        obtain ⟨hclock, rfl⟩ := hH
        exact ⟨r, _, rfl, ⟨hclock, rfl⟩, rfl⟩
    | nextId =>
        obtain ⟨hseq, rfl⟩ := hH
        exact ⟨r, _, rfl, ⟨hseq, rfl⟩, rfl⟩
    | limit =>
        obtain ⟨s, hs, rfl⟩ := hH
        exact ⟨r, _, rfl, ⟨s, hs, rfl⟩, rfl⟩
    | route c =>
        obtain ⟨s, hs, rfl⟩ := hH
        exact ⟨c.reword f r, _, rfl, ⟨s, hany f _ _ _ _ hs, rfl⟩, rfl⟩
    | respond resp =>
        obtain rfl : w' = _ := hH
        exact ⟨r, _, rfl, rfl, rfl⟩
  env w v w' hv he := by
    subst hv
    obtain ⟨s, hs, rfl⟩ := he
    exact ⟨_, ⟨s, hs, rfl⟩, rfl⟩
  crash w v w' hv hc := by
    subst hv
    obtain rfl : w' = _ := hc
    exact ⟨_, rfl, rfl⟩

theorem responses_reword (w : HttpWorld σ) :
    responses (w.reword f).events = responses w.events := by
  show (w.events.map _).filterMap _ = w.events.filterMap _
  rw [List.filterMap_map]
  congr 1
  funext e
  cases e <;> rfl

/--
**No text of an error leaves the API.**  Whatever requests come in and however they
interleave, in the runs in which the database and Redis put their errors in other words
the clients are answered the same, response for response; all else that happens is the same
as well.
-/
theorem error_texts_stay_inside (hany : AnyWords g) {s : σ}
    {c : Config HttpSig Nat (HttpWorld σ) Unit}
    (hc : Reachable (httpApi g state auth) (.init s) c) (f : String → String) :
    ∃ d, Reachable (httpApi g state auth) (.init s) d ∧ d.world = c.world.reword f ∧
      responses d.world.events = responses c.world.events := by
  obtain ⟨d, hd, habreast⟩ := hc.lockstep (indifferent_httpApi hany f) rfl
  exact ⟨d, hd, habreast.world, by rw [habreast.world, responses_reword]⟩

/-! ### A database that is down -/

theorem reword_downAnswer (f : String → String) (msg : String) (c : RouteCall) :
    c.reword f (downAnswer msg c) = downAnswer (f msg) c := by
  rcases c with (_ | _ | _ | _ | _ | _ | _) | (_ | _ | _ | _ | _) | (_ | _ | _ | _ | _ | _)
  all_goals rfl

theorem downGround_anyWords : AnyWords downGround := by
  rintro f s c r s' ⟨msg, rfl⟩
  exact ⟨f msg, reword_downAnswer f msg c⟩

/-- What the lookups of transactions have failed with. -/
def lookupErrors (events : List HttpEvent) : List String :=
  events.filterMap fun
    | .asked _ (.detail (.getByHash _)) (.error e) => some e
    | _ => none

/-- Somebody looks for a transaction. -/
def lookup : HttpRequest := ⟨none, none, .tx "0xab"⟩

/-- A request meets the refusal of the database, and in another run the empty text; it is
answered 500 in both. -/
theorem error_texts_stay_inside_down :
    ∃ c d : Config HttpSig Nat (HttpWorld Unit) Unit,
      Reachable (httpApi downGround bareState ⟨none⟩) (.init ()) c ∧
      Reachable (httpApi downGround bareState ⟨none⟩) (.init ()) d ∧
      lookupErrors c.world.events = [refusal] ∧ lookupErrors d.world.events = [""] ∧
      responses d.world.events = responses c.world.events ∧
      (responses c.world.events).map (fun r => r.2.reply.status) = [500] := by
  obtain ⟨w, u, hrun, hcheck⟩ := exists_run_of_execWhile (downServe_answers 0 lookup) 20
    (.init ()) (serveHttp bareState ⟨none⟩).toProg (fun x => lookupErrors x.1.events = [refusal] &&
      lookupErrors (x.1.reword fun _ => "").events = [""] &&
      (responses x.1.events).map (fun r => r.2.reply.status) = [500]) (by decide +kernel)
  simp only [Bool.and_eq_true, decide_eq_true_eq] at hcheck
  obtain ⟨⟨hrefused, hempty⟩, hstatus⟩ := hcheck
  have hc : Reachable (httpApi downGround bareState ⟨none⟩) (.init ()) _ :=
    Reachable.init.run (i := 0) rfl rfl hrun
  obtain ⟨d, hd, hworld, hsame⟩ := error_texts_stay_inside downGround_anyWords hc fun _ => ""
  exact ⟨_, d, hc, hd, hrefused, hworld ▸ hempty, hsame, hstatus⟩

end SentrixIndexer
