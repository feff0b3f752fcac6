/-
The layers every request of the API goes through, and the API as a system of requests.

From the outside in: a request gets its id, which its response carries back whatever becomes
of it; it is let in if it presents the bearer token, or if none is configured or it only asks
for `/health`; it passes the rate limiter; then its route answers it.  Each request is a task.
They share the counter of the ids and what the API stands on, which may answer as it likes.
The layers the binary puts around the router (CORS, which answers a preflight on its own, and
a timeout) are left out.

The state keeps a record of what has happened.
-/
import SentrixIndexer.Api.RequestId
import SentrixIndexer.Api.Routes
import SentrixIndexer.Effect.Exec
import SentrixIndexer.Effect.Tasks

namespace SentrixIndexer

open Effect

/-- A request with the headers the layers look at. -/
structure HttpRequest where
  authorization : Option (List UInt8)
  /-- The bytes of `x-request-id`. -/
  requestId : Option (List UInt8)
  route : Route
  deriving DecidableEq

/-- A reply with its `x-request-id`. -/
structure HttpResponse where
  requestId : Option String
  reply : Reply

/-! ### The bearer token -/

/-- The token every request has to present, if one is configured. -/
structure AuthState where
  expected : Option (List UInt8)

/-- The whitespace a header value may hold. -/
def blank (b : UInt8) : Bool := b = 32 || b = 9

/-- The bytes of `Bearer` and a space. -/
def bearer : List UInt8 := "Bearer ".toList.map fun c => c.toNat.toUInt8

/-- The token a header value presents, trimmed; a value that is no text presents none. -/
def presented (header : List UInt8) : Option (List UInt8) :=
  if (headerText header).isSome && bearer.isPrefixOf header then
    some (Numeric.trim blank (header.drop bearer.length))
  else none

/-- `/health` is for probes that have no credentials. -/
def Route.isHealth : Route → Bool
  | .health => true
  | _ => false

/-- Whether `require_bearer` lets the request pass. -/
def AuthState.admits (auth : AuthState) (req : HttpRequest) : Bool :=
  req.route.isHealth ||
    match auth.expected with
    | none => true
    | some expected => req.authorization.bind presented = some expected

/-- `unauthorized`. -/
def unauthorized : Reply := ⟨401, .unauthorized⟩

/-- What the rate limiter replies. -/
def tooManyRequests : Reply := ⟨429, .tooManyRequests⟩

/-! ### Calls -/

inductive HttpCall
  /-- The next request comes in. -/
  | accept
  /-- The time since the epoch, unless the clock is set before it. -/
  | now
  /-- `NEXT_ID.fetch_add(1)`. -/
  | nextId
  /-- Whether the rate limiter lets the request pass. -/
  | limit
  | route (c : RouteCall)
  | respond (r : HttpResponse)

abbrev HttpSig : Signature where
  Call := HttpCall
  Answer
    | .accept => HttpRequest
    | .now => Option Duration
    | .nextId => UInt64
    | .limit => Bool
    | .route c => RouteSig.Answer c
    | .respond _ => Unit

abbrev HttpScript := Script HttpSig

def HttpCall.ask (c : HttpCall) : HttpScript (HttpSig.Answer c) := Script.ask (S := HttpSig) c

/-- A route's script. -/
def viaRoute {T : Type} (p : RouteScript T) : HttpScript T :=
  p.via fun c => HttpCall.ask (.route c)

/-! ### Layers -/

/-- The id of a request: the one it came with, or one mixed of the time and the counter. -/
def requestIdOf (req : HttpRequest) : HttpScript String :=
  match req.requestId.bind headerText with
  | some id => return id
  | none => do
      let clock ← HttpCall.now.ask
      let seq ← HttpCall.nextId.ask
      return generateId clock seq

/-- `HeaderValue::from_str`: the text as a header value, if it can be one. -/
def headerValue (text : String) : Option String :=
  if text.toList.all fun c => (32 ≤ c.toNat && c.toNat < 127) || c.toNat = 9 then some text
  else none

/-- What is inside of `require_bearer`. -/
def limited (state : AppState) (req : HttpRequest) : HttpScript Reply := do
  if ← HttpCall.limit.ask then viaRoute (req.route.handler state) else return tooManyRequests

/-- `require_bearer`, around the layers inside of it. -/
def requireBearer (state : AppState) (auth : AuthState) (req : HttpRequest) : HttpScript Reply :=
  if auth.admits req then limited state req else return unauthorized

/-- One request, from its coming in to its response. -/
def serveHttp (state : AppState) (auth : AuthState) : HttpScript Unit := do
  let req ← HttpCall.accept.ask
  let id ← requestIdOf req
  let reply ← requireBearer state auth req
  (HttpCall.respond ⟨headerValue id, reply⟩).ask

/-! ### The system -/

/-- What the API stands on: the database, Redis, the rate limiter and the clock. -/
structure Ground (σ : Type) where
  /-- How the calls of the routes are answered. -/
  answers : Handler RouteSig σ
  limits : σ → Bool → σ → Prop
  clock : σ → Option Duration → Prop
  /-- What goes on meanwhile. -/
  moves : σ → σ → Prop

/-- What request `i` has met. -/
inductive HttpEvent
  | accepted (i : Nat) (req : HttpRequest)
  | asked (i : Nat) (c : RouteCall) (r : RouteSig.Answer c)
  | responded (i : Nat) (r : HttpResponse)

/-- What the clients get, newest first. -/
def responses (events : List HttpEvent) : List (Nat × HttpResponse) :=
  events.filterMap fun
    | .responded i r => some (i, r)
    | _ => none

structure HttpWorld (σ : Type) where
  ground : σ
  nextId : UInt64
  /-- No program reads it. -/
  events : List HttpEvent

variable {σ : Type}

namespace HttpWorld

/-- A process that has just started. -/
def init (s : σ) : HttpWorld σ := ⟨s, 0, []⟩

def note (w : HttpWorld σ) (e : HttpEvent) : HttpWorld σ := { w with events := e :: w.events }

end HttpWorld

/-- How the surroundings answer request `i`. -/
def httpHandle (g : Ground σ) (i : Nat) : Handler HttpSig (HttpWorld σ)
  | w, .accept, req, w' =>
      (∀ earlier, HttpEvent.accepted i earlier ∉ w.events) ∧ w' = w.note (.accepted i req)
  | w, .now, r, w' => g.clock w.ground r ∧ w' = w
  | w, .nextId, r, w' => r = w.nextId ∧ w' = { w with nextId := w.nextId + 1 }
  | w, .limit, r, w' => ∃ s, g.limits w.ground r s ∧ w' = { w with ground := s }
  | w, .route c, r, w' =>
      ∃ s, g.answers w.ground c r s ∧ w' = ({ w with ground := s }).note (.asked i c r)
  | w, .respond r, _, w' => w' = w.note (.responded i r)

/-- The API: every request is served by a task; a restart begins to count anew. -/
def httpApi (g : Ground σ) (state : AppState) (auth : AuthState) :
    System HttpSig Nat (HttpWorld σ) Unit where
  handler := httpHandle g
  spawn _ p := p = (serveHttp state auth).toProg
  env w w' := ∃ s, g.moves w.ground s ∧ w' = { w with ground := s }
  crash w w' := w' = { w with nextId := 0 }

/-! ### A database that is down -/

/-- Every statement and every command of Redis fails, with this text. -/
def downAnswer (msg : String) : (c : RouteCall) → RouteSig.Answer c
  | .cached .isOpen => false
  | .cached .recordSuccess => ()
  | .cached .recordFailure => ()
  | .cached (.redis _) => .error msg
  | .cached (.outer .accept) => .accountsActive none
  | .cached (.outer (.read _)) => .error msg
  | .cached (.outer (.respond _)) => ()
  | .detail (.getByHeight _) => .error msg
  | .detail (.forBlock _) => .error msg
  | .detail (.getByHash _) => .error msg
  | .detail (.forTx _) => .error msg
  | .detail (.listBefore _ _) => .error msg
  | .plain .selectOne => .error (.sqlx msg)
  | .plain (.txsOfAddress _ _) => .error msg
  | .plain (.transfersOfAddress _ _ _) => .error msg
  | .plain (.getToken _) => .error msg
  | .plain (.listTrades _ _) => .error msg
  | .plain (.heightByTime _ _) => .error msg

/-- All of it is down, and says so in whatever words. -/
def downGround : Ground Unit where
  answers _ c r _ := ∃ msg, r = downAnswer msg c
  limits _ pass _ := pass = true
  clock _ now := now = none
  moves _ _ := False

/-- No cache. -/
def bareState : AppState :=
  ⟨none, fun _ => ⟨fun _ => .error "", fun _ => .error ""⟩, fun _ => .error "", fun _ => .error ""⟩

/-- What the database says. -/
def refusal : String := "password authentication failed for user \"indexer\""

/-- All of it down, for request `i`. -/
def downServe (i : Nat) (req : HttpRequest) : Server HttpSig (HttpWorld Unit)
  | w, .accept => (req, w.note (.accepted i req))
  | w, .now => (none, w)
  | w, .nextId => (w.nextId, { w with nextId := w.nextId + 1 })
  | w, .limit => (true, w)
  | w, .route c => (downAnswer refusal c, w.note (.asked i c (downAnswer refusal c)))
  | w, .respond r => ((), w.note (.responded i r))

/-- Request `i` comes in once. -/
def comesOnce (i : Nat) (w : HttpWorld Unit) : HttpCall → Bool
  | .accept => w.events.all fun
      | .accepted j _ => j ≠ i
      | _ => true
  | _ => true

theorem downServe_answers (i : Nat) (req : HttpRequest) (w : HttpWorld Unit) (c : HttpCall)
    (hc : comesOnce i w c = true) :
    httpHandle downGround i w c (downServe i req w c).1 (downServe i req w c).2 := by
  cases c with
  | accept =>
      refine ⟨fun earlier hmem => ?_, rfl⟩
      exact absurd (List.all_eq_true.mp hc _ hmem) (by simp)
  | now => exact ⟨rfl, rfl⟩
  | nextId => exact ⟨rfl, rfl⟩
  | limit => exact ⟨(), rfl, rfl⟩
  | route c => exact ⟨(), ⟨refusal, rfl⟩, rfl⟩
  | respond r => exact rfl

end SentrixIndexer
