/-
What the API talks to.

Each request is a task of its own, in any replica of the API.  They share the database and
Redis, which keeps the last value set under a key until it expires, may lose it earlier, may
fail, and may hold texts that nobody can decode.  A breaker may be open or closed as it likes.

The state keeps a record of what has happened.
-/
import SentrixIndexer.Api.Cached
import SentrixIndexer.Effect.Tasks

namespace SentrixIndexer

open Effect

/-- What request `i` has met. -/
inductive ApiEvent
  | accepted (i : Nat) (req : Request)
  | loaded (i : Nat) (r : ApiRead) (rows : List r.Row)
  | failed (i : Nat) (r : ApiRead) (e : String)
  | looked (i : Nat) (key : String) (time : Nat)
  | wrote (i : Nat) (key : String) (time : Nat)
  | responded (i : Nat) (answer : ApiAnswer)

/-- A value in Redis, when it was set and by whom. -/
structure RedisEntry where
  body : String
  setAt : Nat
  ttlSecs : Nat
  writer : Nat

/-- When the value expires, in nanoseconds. -/
def RedisEntry.expires (e : RedisEntry) : Nat := e.setAt + e.ttlSecs * 1000000000

structure ApiWorld where
  /-- In nanoseconds. -/
  clock : Nat
  redis : String → Option RedisEntry
  /-- No program reads it. -/
  events : List ApiEvent

namespace ApiWorld

/-- Nothing is cached. -/
def init (clock : Nat) : ApiWorld := ⟨clock, fun _ => none, []⟩

def note (w : ApiWorld) (e : ApiEvent) : ApiWorld := { w with events := e :: w.events }

/-- The last value under the key. -/
def put (w : ApiWorld) (key : String) (entry : Option RedisEntry) : ApiWorld :=
  { w with redis := fun k => if k = key then entry else w.redis k }

end ApiWorld

variable (cache : Option String) (json : (q : CachedQuery) → Json q.Response)

/-- No query with this key can make anything of the text. -/
def Undecodable (key body : String) : Prop :=
  ∀ ns ∈ cache, ∀ q : CachedQuery, CacheClient.fullKey ns q.key = key →
    ∃ e, (json q).decode body = .error e

/-- What Redis may find under a key. -/
inductive RedisFinds (w : ApiWorld) (key : String) : Option String → Prop
  | miss : RedisFinds w key none
  | hit {e : RedisEntry} (h : w.redis key = some e) (hfresh : w.clock ≤ e.expires) :
      RedisFinds w key (some e.body)
  | garbage {body : String} (h : Undecodable cache json key body) : RedisFinds w key (some body)

/-- How the surroundings answer request `i`. -/
def apiHandle (i : Nat) : Handler (CacheSig ApiSig) ApiWorld
  | w, .isOpen, _, w' => w' = w
  | w, .recordSuccess, _, w' => w' = w
  | w, .recordFailure, _, w' => w' = w
  | w, .redis (.get key), r, w' => w' = w.note (.looked i key w.clock) ∧
      ((∃ found, RedisFinds cache json w key found ∧ r = .ok found) ∨ ∃ e, r = .error e)
  | w, .redis (.set key body ttlSecs), r, w' =>
      (w' = (w.put key (some ⟨body, w.clock, ttlSecs, i⟩)).note (.wrote i key w.clock)) ∨
      ((∃ e, r = .error e) ∧ w' = w)
  | w, .redis (.del key), r, w' => w' = w.put key none ∨ ((∃ e, r = .error e) ∧ w' = w)
  | w, .outer .accept, req, w' =>
      (∀ earlier, ApiEvent.accepted i earlier ∉ w.events) ∧ w' = w.note (.accepted i req)
  | w, .outer (.read r), answer, w' =>
      (∃ rows, answer = .ok rows ∧ w' = w.note (.loaded i r rows)) ∨
      ∃ e, answer = .error e ∧ w' = w.note (.failed i r e)
  | w, .outer (.respond answer), _, w' => w' = w.note (.responded i answer)

/-- The API: every request is served by a task, while the time goes on. -/
def api : System (CacheSig ApiSig) Nat ApiWorld Unit where
  handler := apiHandle cache json
  spawn _ p := p = (serveRequest cache json).toProg
  env w w' := ∃ time, w.clock ≤ time ∧ w' = { w with clock := time }
  crash w w' := w' = w

end SentrixIndexer
