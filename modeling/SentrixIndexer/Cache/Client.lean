/-
The cache client.

Every call asks the breaker first, issues at most one Redis command, and tells the breaker
what became of it.  Values are JSON texts; a text that does not decode is an error of the
cache, not a failure of Redis.  What the callers of the client do besides is a signature of
their own.
-/
import SentrixIndexer.Cache.Breaker
import SentrixIndexer.Effect.Script

namespace SentrixIndexer

open Effect

/-- How long a value is kept. -/
inductive Tier
  | chain
  | address
  | detail
  deriving DecidableEq, Repr

/-- `Tier::ttl_secs`. -/
def Tier.ttlSecs : Tier → Nat
  | .chain => 60
  | .address => 300
  | .detail => 3600

inductive CacheError
  | redis (msg : String)
  | encode (msg : String)
  | circuitOpen
  deriving DecidableEq, Repr

/-- A command of Redis; `set` says in how many seconds the value expires. -/
inductive RedisCommand
  | get (key : String)
  | set (key body : String) (ttlSecs : Nat)
  | del (key : String)
  deriving DecidableEq, Repr

/-- What Redis answers with. -/
abbrev RedisCommand.Reply : RedisCommand → Type
  | .get _ => Option String
  | .set _ _ _ => Unit
  | .del _ => Unit

/-- What the client calls, next to what its callers call. -/
inductive CacheCall (Outer : Type)
  | isOpen
  | recordSuccess
  | recordFailure
  | redis (c : RedisCommand)
  | outer (c : Outer)

abbrev CacheSig (O : Signature) : Signature where
  Call := CacheCall O.Call
  Answer
    | .isOpen => Bool
    | .recordSuccess => Unit
    | .recordFailure => Unit
    | .redis c => Except String c.Reply
    | .outer c => O.Answer c

/-- `serde_json`, at one type. -/
structure Json (T : Type) where
  encode : T → Except String String
  decode : String → Except String T

namespace CacheClient

variable {O : Signature} {T : Type}

/-- A call of the client. -/
def ask (c : CacheCall O.Call) : Script (CacheSig O) ((CacheSig O).Answer c) :=
  Script.ask (S := CacheSig O) c

/-- `full_key`. -/
def fullKey (ns k : String) : String := ns ++ ":" ++ k

/-- `get`: `Ok(None)` for a miss. -/
def get (O : Signature) (ns : String) (json : Json T) (key : String) :
    Script (CacheSig O) (Except CacheError (Option T)) := do
  if ← ask .isOpen then return .error .circuitOpen
  else
    match ← ask (.redis (.get (fullKey ns key))) with
    | .error e =>
        ask .recordFailure
        return .error (.redis e)
    | .ok raw =>
        ask .recordSuccess
        match raw with
        | none => return .ok none
        | some s => return ((json.decode s).map some).mapError .encode

/-- `set`, with the time to live of the tier. -/
def set (O : Signature) (ns : String) (json : Json T) (key : String) (value : T) (tier : Tier) :
    Script (CacheSig O) (Except CacheError Unit) := do
  if ← ask .isOpen then return .error .circuitOpen
  else
    match json.encode value with
    | .error e => return .error (.encode e)
    | .ok body =>
        match ← ask (.redis (.set (fullKey ns key) body tier.ttlSecs)) with
        | .ok _ =>
            ask .recordSuccess
            return .ok ()
        | .error e =>
            ask .recordFailure
            return .error (.redis e)

/-- `invalidate`. -/
def invalidate (O : Signature) (ns key : String) :
    Script (CacheSig O) (Except CacheError Unit) := do
  if ← ask .isOpen then return .error .circuitOpen
  else
    match ← ask (.redis (.del (fullKey ns key))) with
    | .ok _ =>
        ask .recordSuccess
        return .ok ()
    | .error e =>
        ask .recordFailure
        return .error (.redis e)

end CacheClient

end SentrixIndexer
