/-
Cached routes answer their own query.

The key of a query is read back from its text, so what a request finds in the cache was written
for the same query, and the codec gives back what was written.  Hence a response is what a
loader has produced for the query it answers: for this request, or for one that wrote it to
the cache no longer ago than it is kept.  What goes wrong with the cache goes no further.
-/
import SentrixIndexer.Api.World
import SentrixIndexer.Effect.Exec

namespace SentrixIndexer

open Effect

variable {cache : Option String} {json : (q : CachedQuery) → Json q.Response}

/-! ### Where a response comes from -/

/-- Request `i` is one for this query. -/
def AsksFor (events : List ApiEvent) (i : Nat) (q : CachedQuery) : Prop :=
  ∃ req, ApiEvent.accepted i req ∈ events ∧ req.query = .ok q

/-- The loader has produced this value for request `i`. -/
structure LoadedFor (events : List ApiEvent) (i : Nat) (q : CachedQuery) (v : q.Response) :
    Prop where
  asks : AsksFor events i q
  rows : ∃ rows, ApiEvent.loaded i q.read rows ∈ events ∧ v = q.ofRows rows

/-- Request `i` has looked the value up, not long after some request had loaded it and written
it to the cache. -/
structure FoundBy (ns : String) (events : List ApiEvent) (i : Nat) (q : CachedQuery)
    (v : q.Response) (writer setAt readAt : Nat) : Prop where
  loaded : LoadedFor events writer q v
  wrote : ApiEvent.wrote writer (CacheClient.fullKey ns q.key) setAt ∈ events
  looked : ApiEvent.looked i (CacheClient.fullKey ns q.key) readAt ∈ events
  after : setAt ≤ readAt
  fresh : readAt ≤ setAt + cachedTier.ttlSecs * 1000000000

/-- The answers request `i` may get. -/
inductive Answered (cache : Option String) (events : List ApiEvent) (i : Nat) : ApiAnswer → Prop
  | refused {req : Request} {e : ApiError} (haccepted : .accepted i req ∈ events)
      (hquery : req.query = .error e) : Answered cache events i (.error e)
  | failed {q : CachedQuery} {msg : String} (hasks : AsksFor events i q)
      (hfailed : .failed i q.read msg ∈ events) : Answered cache events i (.error (.db msg))
  | loaded {q : CachedQuery} {v : q.Response} (hloaded : LoadedFor events i q v) :
      Answered cache events i (.ok ⟨q, v⟩)
  | cached {ns : String} {q : CachedQuery} {v : q.Response} {writer setAt readAt : Nat}
      (hcache : cache = some ns) (hasks : AsksFor events i q)
      (hfound : FoundBy ns events i q v writer setAt readAt) :
      Answered cache events i (.ok ⟨q, v⟩)

variable {events events' : List ApiEvent} {i : Nat} {q : CachedQuery} {v : q.Response}

theorem AsksFor.mono (h : AsksFor events i q) (hs : events ⊆ events') : AsksFor events' i q := by
  obtain ⟨req, haccepted, hquery⟩ := h
  exact ⟨req, hs haccepted, hquery⟩

theorem LoadedFor.mono (h : LoadedFor events i q v) (hs : events ⊆ events') :
    LoadedFor events' i q v := by
  obtain ⟨rows, hrows, hv⟩ := h.rows
  exact ⟨h.asks.mono hs, rows, hs hrows, hv⟩

theorem FoundBy.mono {ns : String} {writer setAt readAt : Nat}
    (h : FoundBy ns events i q v writer setAt readAt) (hs : events ⊆ events') :
    FoundBy ns events' i q v writer setAt readAt :=
  ⟨h.loaded.mono hs, hs h.wrote, hs h.looked, h.after, h.fresh⟩

theorem Answered.mono {answer : ApiAnswer} (h : Answered cache events i answer)
    (hs : events ⊆ events') : Answered cache events' i answer := by
  cases h with
  | refused haccepted hquery => exact .refused (hs haccepted) hquery
  | failed hasks hfailed => exact .failed (hasks.mono hs) (hs hfailed)
  | loaded hloaded => exact .loaded (hloaded.mono hs)
  | cached hcache hasks hfound => exact .cached hcache (hasks.mono hs) (hfound.mono hs)

/-! ### The invariant -/

/-- What is decoded is what was encoded. -/
def Inverts (json : (q : CachedQuery) → Json q.Response) : Prop :=
  ∀ q (v : q.Response) body, (json q).encode v = .ok body → (json q).decode body = .ok v

/-- A value in Redis was loaded for the query its key names, and then written. -/
structure Backed (json : (q : CachedQuery) → Json q.Response) (w : ApiWorld) (key : String)
    (e : RedisEntry) (q : CachedQuery) (v : q.Response) : Prop where
  body : (json q).encode v = .ok e.body
  loaded : LoadedFor w.events e.writer q v
  wrote : ApiEvent.wrote e.writer key e.setAt ∈ w.events
  past : e.setAt ≤ w.clock
  tier : e.ttlSecs = cachedTier.ttlSecs

/-- The invariant. -/
structure ApiSound (cache : Option String) (json : (q : CachedQuery) → Json q.Response)
    (w : ApiWorld) : Prop where
  redis : ∀ key e, w.redis key = some e →
    ∃ ns q v, cache = some ns ∧ key = CacheClient.fullKey ns q.key ∧ Backed json w key e q v
  answered : ∀ i answer, .responded i answer ∈ w.events → Answered cache w.events i answer

/-- Time goes on, and nothing that has happened is undone. -/
structure Elapsed (w w' : ApiWorld) : Prop where
  clock : w.clock ≤ w'.clock
  events : w.events ⊆ w'.events

theorem Elapsed.refl (w : ApiWorld) : Elapsed w w := ⟨Nat.le_refl _, List.Subset.refl _⟩

theorem Elapsed.trans {w₁ w₂ w₃ : ApiWorld} (h : Elapsed w₁ w₂) (h' : Elapsed w₂ w₃) :
    Elapsed w₁ w₃ := ⟨Nat.le_trans h.clock h'.clock, fun _ he => h'.events (h.events he)⟩

variable {w w' : ApiWorld}

theorem elapsed_note (w : ApiWorld) (e : ApiEvent) : Elapsed w (w.note e) :=
  ⟨Nat.le_refl _, List.subset_cons_self _ _⟩

theorem Backed.mono {key : String} {e : RedisEntry} (h : Backed json w key e q v)
    (hlater : Elapsed w w') : Backed json w' key e q v :=
  ⟨h.body, h.loaded.mono hlater.events, hlater.events h.wrote, Nat.le_trans h.past hlater.clock,
    h.tier⟩

/-- What leaves Redis alone and answers nothing keeps the invariant. -/
theorem ApiSound.elapsed (h : ApiSound cache json w) (hlater : Elapsed w w')
    (hredis : w'.redis = w.redis)
    (hanswered : ∀ i answer, .responded i answer ∈ w'.events →
      .responded i answer ∈ w.events ∨ Answered cache w'.events i answer) :
    ApiSound cache json w' := by
  refine ⟨fun key e he => ?_, fun i answer hresponded => ?_⟩
  · rw [hredis] at he
    obtain ⟨ns, q, v, hcache, hkey, hbacked⟩ := h.redis key e he
    exact ⟨ns, q, v, hcache, hkey, hbacked.mono hlater⟩
  · rcases hanswered i answer hresponded with hold | hnew
    · exact (h.answered i answer hold).mono hlater.events
    · exact hnew

theorem ApiSound.note (h : ApiSound cache json w) {e : ApiEvent}
    (he : ∀ i answer, e = .responded i answer → Answered cache (e :: w.events) i answer) :
    ApiSound cache json (w.note e) := by
  refine h.elapsed (elapsed_note w e) rfl fun i answer hresponded => ?_
  rcases List.mem_cons.mp hresponded with hnew | hold
  · exact Or.inr (he i answer hnew.symm)
  · exact Or.inl hold

theorem ApiSound.noteOther (h : ApiSound cache json w) {e : ApiEvent}
    (he : ∀ i answer, e ≠ .responded i answer) : ApiSound cache json (w.note e) :=
  h.note fun i answer heq => absurd heq (he i answer)

/-- **A write keeps the invariant** if what is written has been loaded. -/
theorem ApiSound.written (h : ApiSound cache json w) {ns body : String} (hcache : cache = some ns)
    (hencode : (json q).encode v = .ok body) (hloaded : LoadedFor w.events i q v)
    (hw : w' = (w.put (CacheClient.fullKey ns q.key)
      (some ⟨body, w.clock, cachedTier.ttlSecs, i⟩)).note
        (.wrote i (CacheClient.fullKey ns q.key) w.clock)) : ApiSound cache json w' := by
  have hlater : Elapsed w w' := by
    rw [hw]
    exact ⟨Nat.le_refl _, List.subset_cons_self _ _⟩
  refine ⟨fun key e he => ?_, fun j answer hresponded => ?_⟩
  · have hfind : (if key = CacheClient.fullKey ns q.key then
        some (RedisEntry.mk body w.clock cachedTier.ttlSecs i) else w.redis key) = some e := by
      rw [hw] at he
      exact he
    by_cases hkey : key = CacheClient.fullKey ns q.key
    · rw [if_pos hkey] at hfind
      obtain rfl := Option.some.inj hfind
      refine ⟨ns, q, v, hcache, hkey, hencode, hloaded.mono hlater.events, ?_, hlater.clock, rfl⟩
      rw [hw, hkey]
      exact List.mem_cons_self ..
    · rw [if_neg hkey] at hfind
      obtain ⟨ns', q', v', hcache', hkey', hbacked⟩ := h.redis key e hfind
      exact ⟨ns', q', v', hcache', hkey', hbacked.mono hlater⟩
  · rw [hw] at hresponded
    rcases List.mem_cons.mp hresponded with hnew | hold
    · exact absurd hnew (by simp)
    · exact (h.answered j answer hold).mono hlater.events

/-! ### The program -/

/-- Request `i` is verified to keep the invariant, for `Q`. -/
abbrev ServesFor (cache : Option String) (json : (q : CachedQuery) → Json q.Response) (i : Nat)
    {α : Type} (p : ApiScript α) (Q : α → ApiWorld → Prop) (w : ApiWorld) : Prop :=
  wp (apiHandle cache json i) (ApiSound cache json) Elapsed Elapsed p.toProg Q w

/-- A call of the breaker. -/
def CacheCall.OfBreaker {O : Type} : CacheCall O → Prop
  | .isOpen => True
  | .recordSuccess => True
  | .recordFailure => True
  | _ => False

theorem serves_breaker {c : CacheCall ApiCall} (hc : c.OfBreaker) :
    ServesFor cache json i (CacheClient.ask (O := ApiSig) c) (fun _ w' => Elapsed w w') w := by
  intro w₁ hR hI r w₂ hH
  have hw : w₂ = w₁ := by
    cases c with
    | isOpen => exact hH
    | recordSuccess => exact hH
    | recordFailure => exact hH
    | _ => exact absurd hc fun h => h
  rw [hw]
  exact ⟨hI, Elapsed.refl w₁, hR⟩

theorem fullKey_injective {ns k k' : String}
    (h : CacheClient.fullKey ns k = CacheClient.fullKey ns k') : k = k' :=
  (String.append_right_inj _).mp h

/-- **A hit answers the query that was asked.** -/
theorem serves_get (hinverts : Inverts json) {ns : String} (hcache : cache = some ns) :
    ServesFor cache json i (CacheClient.get ApiSig ns (json q) q.key)
      (fun r w' => Elapsed w w' ∧ ∀ v, r = .ok (some v) →
        ∃ writer setAt readAt, FoundBy ns w'.events i q v writer setAt readAt) w := by
  refine wp_script_bind (wp_mono (fun isOpen w₁ h₁ => ?_) (serves_breaker (c := .isOpen) trivial))
  cases isOpen with
  | true => exact ⟨h₁, fun v h => by simp at h⟩
  | false =>
      refine wp_script_bind fun w₂ hR hI r w₃ hH => ?_
      obtain ⟨rfl, hfinds⟩ := hH
      have hI₃ : ApiSound cache json _ :=
        hI.noteOther (e := .looked i (CacheClient.fullKey ns q.key) w₂.clock) (by simp)
      have h₃ := (h₁.trans hR).trans
        (elapsed_note w₂ (.looked i (CacheClient.fullKey ns q.key) w₂.clock))
      refine ⟨hI₃, elapsed_note _ _, ?_⟩
      cases r with
      | error e =>
          refine wp_script_bind (wp_mono (fun _ w₄ h₄ => ?_)
            (serves_breaker (c := .recordFailure) trivial))
          exact ⟨h₃.trans h₄, fun v h => by simp at h⟩
      | ok found =>
          refine wp_script_bind (wp_mono (fun _ w₄ h₄ => ?_)
            (serves_breaker (c := .recordSuccess) trivial))
          obtain ⟨found', hfound, heq⟩ | ⟨e, he⟩ := hfinds
          · obtain rfl := Except.ok.inj heq
            cases hfound with
            | miss => exact ⟨h₃.trans h₄, fun v h => by simp at h⟩
            | @hit e hentry hfresh =>
                refine ⟨h₃.trans h₄, fun v hv => ?_⟩
                obtain ⟨ns', q', v', hcache', hkey, hbacked⟩ := hI.redis _ _ hentry
                obtain rfl : ns = ns' := Option.some.inj (hcache.symm.trans hcache')
                obtain rfl : q = q' := CachedQuery.key_injective (fullKey_injective hkey)
                rw [hinverts q v' e.body hbacked.body] at hv
                obtain rfl : v' = v := by simpa [Except.map, Except.mapError] using hv
                have hlater := (elapsed_note w₂
                  (.looked i (CacheClient.fullKey ns q.key) w₂.clock)).trans h₄
                refine ⟨e.writer, e.setAt, w₂.clock, hbacked.loaded.mono hlater.events,
                  hlater.events hbacked.wrote, h₄.events (List.mem_cons_self ..), hbacked.past, ?_⟩
                rw [← hbacked.tier]
                exact hfresh
            | garbage hgarbage =>
                obtain ⟨e, he⟩ := hgarbage ns hcache q rfl
                refine ⟨h₃.trans h₄, fun v hv => ?_⟩
                rw [he] at hv
                simp [Except.map, Except.mapError] at hv
          · exact absurd he (by simp)

/-- **What is written has been loaded.** -/
theorem serves_set {ns : String} (hcache : cache = some ns) (hloaded : LoadedFor w.events i q v) :
    ServesFor cache json i (CacheClient.set ApiSig ns (json q) q.key v cachedTier)
      (fun _ w' => Elapsed w w') w := by
  refine wp_script_bind (wp_mono (fun isOpen w₁ h₁ => ?_) (serves_breaker (c := .isOpen) trivial))
  cases isOpen with
  | true => exact h₁
  | false =>
      simp only [Bool.false_eq_true, if_false]
      rcases hencode : (json q).encode v with e | body
      · exact h₁
      · refine wp_script_bind fun w₂ hR hI r w₃ hH => ?_
        have h₂ := h₁.trans hR
        have hlater : Elapsed w₂ w₃ := by
          rcases hH with rfl | ⟨-, rfl⟩
          · exact ⟨Nat.le_refl _, List.subset_cons_self _ _⟩
          · exact Elapsed.refl _
        have hI₃ : ApiSound cache json w₃ := by
          rcases hH with hw | ⟨-, rfl⟩
          · exact hI.written hcache hencode (hloaded.mono h₂.events) hw
          · exact hI
        refine ⟨hI₃, hlater, ?_⟩
        cases r with
        | ok u =>
            refine wp_script_bind (wp_mono (fun _ w₄ h₄ => ?_)
              (serves_breaker (c := .recordSuccess) trivial))
            exact (h₂.trans hlater).trans h₄
        | error e =>
            refine wp_script_bind (wp_mono (fun _ w₄ h₄ => ?_)
              (serves_breaker (c := .recordFailure) trivial))
            exact (h₂.trans hlater).trans h₄

/-- What a loader has come to. -/
structure LoadedOr (events : List ApiEvent) (i : Nat) (q : CachedQuery)
    (r : Except ApiError q.Response) : Prop where
  ok : ∀ v, r = .ok v → LoadedFor events i q v
  error : ∀ e, r = .error e → ∃ msg, e = .db msg ∧ .failed i q.read msg ∈ events

theorem serves_load (hasks : AsksFor w.events i q) :
    ServesFor cache json i q.load (fun r w' => Elapsed w w' ∧ LoadedOr w'.events i q r) w := by
  refine wp_script_bind fun w₁ hR hI answer w₂ hH => ?_
  rcases hH with ⟨rows, rfl, rfl⟩ | ⟨msg, rfl, rfl⟩
  · have hlater := elapsed_note w₁ (.loaded i q.read rows)
    refine ⟨hI.noteOther (by simp), hlater, hR.trans hlater, fun v hv => ?_,
      fun e h => by simp at h⟩
    obtain rfl := Except.ok.inj hv
    exact ⟨hasks.mono (hR.trans hlater).events, rows, List.mem_cons_self .., rfl⟩
  · have hlater := elapsed_note w₁ (.failed i q.read msg)
    refine ⟨hI.noteOther (by simp), hlater, hR.trans hlater, fun v h => by simp at h,
      fun e he => ?_⟩
    obtain rfl := Except.error.inj he
    exact ⟨msg, rfl, List.mem_cons_self ..⟩

theorem serves_loadThrough {ns : String} (hcache : cache = some ns)
    (hasks : AsksFor w.events i q) :
    ServesFor cache json i (loadThrough ns (json q) q.key cachedTier q.load)
      (fun r w' => Elapsed w w' ∧ LoadedOr w'.events i q r) w := by
  refine wp_script_bind (wp_mono (fun r w₁ h₁ => ?_) (serves_load hasks))
  obtain ⟨hlater, hloaded⟩ := h₁
  cases r with
  | error e => exact ⟨hlater, hloaded⟩
  | ok v =>
      have hv := hloaded.ok v rfl
      refine wp_script_bind (wp_mono (fun _ w₂ h₂ => ?_) (serves_set hcache hv))
      refine ⟨hlater.trans h₂, fun v' h => ?_, fun e h => by simp at h⟩
      obtain rfl := Except.ok.inj h
      exact hv.mono h₂.events

/-- What `get_or_load` has come to. -/
structure GotOrLoaded (cache : Option String) (events : List ApiEvent) (i : Nat) (q : CachedQuery)
    (r : Except ApiError q.Response) : Prop where
  ok : ∀ v, r = .ok v → Answered cache events i (.ok ⟨q, v⟩)
  error : ∀ e, r = .error e → Answered cache events i (.error e)

theorem LoadedOr.gotOrLoaded {r : Except ApiError q.Response} (h : LoadedOr events i q r)
    (hasks : AsksFor events i q) : GotOrLoaded cache events i q r := by
  refine ⟨fun v hv => .loaded (h.ok v hv), fun e he => ?_⟩
  obtain ⟨msg, rfl, hfailed⟩ := h.error e he
  exact .failed hasks hfailed

/-- **A hit or a load**, whatever the cache comes to. -/
theorem serves_getOrLoad (hinverts : Inverts json) (hasks : AsksFor w.events i q) :
    ServesFor cache json i (getOrLoad cache (json q) q.key cachedTier q.load)
      (fun r w' => Elapsed w w' ∧ GotOrLoaded cache w'.events i q r) w := by
  have hdone : ∀ {w w' r}, AsksFor w.events i q → Elapsed w w' ∧ LoadedOr w'.events i q r →
      Elapsed w w' ∧ GotOrLoaded cache w'.events i q r := fun hasks h =>
    ⟨h.1, h.2.gotOrLoaded (hasks.mono h.1.events)⟩
  rcases hcache : cache with _ | ns
  · rw [hcache] at hdone
    exact wp_mono (fun r w' h => hdone hasks h) (serves_load hasks)
  · rw [hcache] at hdone
    refine wp_script_bind (wp_mono (fun r w₁ h₁ => ?_) (serves_get hinverts rfl))
    obtain ⟨hlater, hhit⟩ := h₁
    have hasks₁ := hasks.mono hlater.events
    have hload : ServesFor (some ns) json i (loadThrough ns (json q) q.key cachedTier q.load)
        (fun r w' => Elapsed w w' ∧ GotOrLoaded (some ns) w'.events i q r) w₁ :=
      wp_mono (fun r w₂ h₂ => ⟨hlater.trans h₂.1, (hdone hasks₁ h₂).2⟩)
        (serves_loadThrough rfl hasks₁)
    rcases r with e | _ | v
    · exact hload
    · exact hload
    · obtain ⟨writer, setAt, readAt, hfound⟩ := hhit v rfl
      refine ⟨hlater, fun v' hv => ?_, fun e h => by simp at h⟩
      obtain rfl := Except.ok.inj hv
      exact .cached rfl hasks₁ hfound

/-- **Every answer is one the request may get.** -/
theorem serves_answerRequest (hinverts : Inverts json) {req : Request}
    (haccepted : .accepted i req ∈ w.events) :
    ServesFor cache json i (answerRequest cache json req)
      (fun answer w' => Answered cache w'.events i answer) w := by
  unfold answerRequest
  rcases hquery : req.query with e | q
  · exact .refused haccepted hquery
  · refine wp_script_bind (wp_mono (fun r w₁ h₁ => ?_)
      (serves_getOrLoad hinverts ⟨req, haccepted, hquery⟩))
    cases r with
    | ok v => exact h₁.2.ok v rfl
    | error e => exact h₁.2.error e rfl

theorem serves_serveRequest (hinverts : Inverts json) :
    ServesFor cache json i (serveRequest cache json) (fun _ _ => True) w := by
  refine wp_script_bind fun w₁ hR hI req w₂ hH => ?_
  obtain ⟨-, rfl⟩ := hH
  refine ⟨hI.noteOther (by simp), elapsed_note _ _, ?_⟩
  refine wp_script_bind (wp_mono (fun answer w₃ hanswer => ?_)
    (serves_answerRequest hinverts (List.mem_cons_self ..)))
  intro w₄ hR₄ hI₄ u w₅ hH
  obtain rfl : w₅ = _ := hH
  refine ⟨hI₄.note fun j answer' heq => ?_, elapsed_note _ _, trivial⟩
  obtain ⟨rfl, rfl⟩ := ApiEvent.responded.inj heq
  exact hanswer.mono fun _ he => List.mem_cons_of_mem _ (hR₄.events he)

/-! ### Every run -/

theorem apiSound_init (clock : Nat) : ApiSound cache json (.init clock) where
  redis key e he := absurd he (by simp [ApiWorld.init])
  answered i answer h := absurd h (by simp [ApiWorld.init])

theorem api_verified (hinverts : Inverts json) (clock : Nat) :
    Verified (api cache json) (.init clock) (ApiSound cache json) Elapsed Elapsed where
  rely_refl := Elapsed.refl
  rely_trans _ _ _ := Elapsed.trans
  guar_refl := Elapsed.refl
  guar_rely _ _ h := h
  init := apiSound_init clock
  spawn i p w hs _ := by
    obtain rfl : p = _ := hs
    exact serves_serveRequest hinverts
  env w w' hI he := by
    obtain ⟨time, hle, rfl⟩ := he
    have hlater : Elapsed w { w with clock := time } := ⟨hle, List.Subset.refl _⟩
    exact ⟨hI.elapsed hlater rfl fun _ _ h => Or.inl h, hlater⟩
  crash w w' hI hc := by
    obtain rfl : w' = w := hc
    exact hI

/--
**Cached routes answer their own query**: in every run, whatever the cache comes to, a response
was loaded for the query it answers, by this request or by one whose write to the cache was no
longer ago than it is kept; and an error is one of the query's text or of the loader.
-/
theorem cached_routes_answer_own_query (hinverts : Inverts json) {clock : Nat}
    {c : Config (CacheSig ApiSig) Nat ApiWorld Unit}
    (hc : Reachable (api cache json) (.init clock) c) {i : Nat} {answer : ApiAnswer}
    (hanswer : .responded i answer ∈ c.world.events) :
    Answered cache c.world.events i answer :=
  ((api_verified hinverts clock).reachable hc).1.answered i answer hanswer

/-! ### Two requests for one board -/

/-- Two senders with their transactions. -/
def busyRows : List (Address × Int) := [("0xaa", 3), ("0xbb", 1)]

def busyResponse : ActiveResponse := .ofRows busyRows

/-- Their board. -/
def busyBoard : String :=
  "\x7b\"accounts\":[\x7b\"rank\":1,\"address\":\"0xaa\",\"tx_count\":3\x7d," ++
    "\x7b\"rank\":2,\"address\":\"0xbb\",\"tx_count\":1\x7d]\x7d"

/-- A codec for that board. -/
def busyBoardJson : (q : CachedQuery) → Json q.Response
  | .board .accountsActive _ =>
      ⟨fun v => if v = busyResponse then .ok busyBoard else .error "another board",
        fun body => if body = busyBoard then .ok busyResponse else .error "another board"⟩
  | _ => ⟨fun _ => .error "another board", fun _ => .error "another board"⟩

theorem busyBoardJson_inverts : Inverts busyBoardJson := by
  intro q v body h
  cases q with
  | blocks limit before => exact absurd h (by simp [busyBoardJson])
  | board route limit =>
      cases route with
      | accountsActive =>
          have hencode : (if v = busyResponse then .ok busyBoard else .error "another board") =
            (.ok body : Except String String) := h
          show (if body = busyBoard then .ok busyResponse else .error "another board") =
            (.ok v : Except String ActiveResponse)
          split at hencode
          · obtain rfl := Except.ok.inj hencode
            rw [if_pos rfl, ‹v = _›]
          · exact absurd hencode (by simp)
      | _ => exact absurd h (by simp [busyBoardJson])

/-- A database of those two senders. -/
def busyRead : (r : ApiRead) → List r.Row
  | .topSenders _ => busyRows
  | _ => []

/-- Redis and that database, for one request. -/
def apiServe (req : Request) (i : Nat) : Server (CacheSig ApiSig) ApiWorld
  | w, .isOpen => (false, w)
  | w, .recordSuccess => ((), w)
  | w, .recordFailure => ((), w)
  | w, .redis (.get key) =>
      (.ok (((w.redis key).filter fun e => w.clock ≤ e.expires).map RedisEntry.body),
        w.note (.looked i key w.clock))
  | w, .redis (.set key body ttlSecs) =>
      (.ok (), (w.put key (some ⟨body, w.clock, ttlSecs, i⟩)).note (.wrote i key w.clock))
  | w, .redis (.del key) => (.ok (), w.put key none)
  | w, .outer .accept => (req, w.note (.accepted i req))
  | w, .outer (.read r) => (.ok (busyRead r), w.note (.loaded i r (busyRead r)))
  | w, .outer (.respond answer) => ((), w.note (.responded i answer))

/-- The request has not come in yet. -/
def isNewRequest (i : Nat) (w : ApiWorld) : Bool := w.events.all fun e => match e with
  | .accepted j _ => j ≠ i
  | _ => true

/-- A request comes in once. -/
def comesInOnce (i : Nat) (w : ApiWorld) : CacheCall ApiCall → Bool
  | .outer .accept => isNewRequest i w
  | _ => true

theorem apiServe_answers {req : Request} {w : ApiWorld} {c : CacheCall ApiCall}
    (hnew : comesInOnce i w c = true) :
    apiHandle cache json i w c (apiServe req i w c).1 (apiServe req i w c).2 := by
  cases c with
  | isOpen => exact rfl
  | recordSuccess => exact rfl
  | recordFailure => exact rfl
  | redis c =>
      cases c with
      | get key =>
          refine ⟨rfl, Or.inl ⟨_, ?_, rfl⟩⟩
          rcases hentry : w.redis key with _ | e
          · exact .miss
          · by_cases hfresh : w.clock ≤ e.expires
            · rw [Option.filter_some, if_pos (decide_eq_true hfresh)]
              exact .hit hentry hfresh
            · rw [Option.filter_some, if_neg (by simpa using hfresh)]
              exact .miss
      | set key body ttlSecs => exact Or.inl rfl
      | del key => exact Or.inl rfl
  | outer c =>
      cases c with
      | accept =>
          refine ⟨fun earlier hmem => ?_, rfl⟩
          have hj := List.all_eq_true.mp hnew _ hmem
          exact absurd hj (by simp)
      | read r => exact Or.inl ⟨_, rfl, rfl⟩
      | respond answer => exact rfl

/-- A request served in so many steps. -/
def servedBy (req : Request) (i : Nat) (n : Nat) (w : ApiWorld) :
    Option (ApiWorld × Prog (CacheSig ApiSig) Unit) :=
  advanceWhile (comesInOnce i) (apiServe req i) n
    (w, (serveRequest (some "sentrix:idx:api") busyBoardJson).toProg)

/-- The API over a cache of such boards. -/
abbrev busyApi : System (CacheSig ApiSig) Nat ApiWorld Unit :=
  api (some "sentrix:idx:api") busyBoardJson

theorem servedBy_reachable {w₀ w' : ApiWorld} {c : Config (CacheSig ApiSig) Nat ApiWorld Unit}
    (hc : Reachable busyApi w₀ c) {req : Request} {i n : Nat} (hidle : c.prog i = none)
    {p : Prog (CacheSig ApiSig) Unit} (h : servedBy req i n c.world = some (w', p)) :
    ∃ prog, Reachable busyApi w₀ ⟨w', prog⟩ ∧ ∀ j, j ≠ i → prog j = c.prog j := by
  have hstart := hc.move (Move.start i _ hidle rfl)
  refine ⟨_, hstart.steps (i := i) (by simp) (advanceWhile_steps
    (fun w c hok => apiServe_answers hok) n h), fun j hj => ?_⟩
  rw [Function.update_of_ne hj]
  exact Function.update_of_ne hj _ _

/-- One request loads the board, and 59 seconds later another asks for it in other words. -/
def twoServed : Option ApiWorld :=
  (servedBy (.accountsActive none) 0 9 (.init 0)).bind fun first =>
    (servedBy (.accountsActive (some "+25")) 1 9
      { first.1 with clock := first.1.clock + 59 * 1000000000 }).map Prod.fst

/-- What the second request is answered. -/
def busyAnswer : ApiAnswer := .ok ⟨.board .accountsActive 25, busyResponse⟩

/-- The request has been answered with the board, and has loaded nothing. -/
def answeredUnloaded (i : Nat) (w : ApiWorld) : Bool :=
  (w.events.any fun e => match e with
    | .responded j (.ok ⟨.board .accountsActive limit, v⟩) =>
        j = i && limit = 25 && v = busyResponse
    | _ => false) &&
  w.events.all fun e => match e with
    | .loaded j _ _ => j ≠ i
    | _ => true

theorem answeredUnloaded_spec {w : ApiWorld} (h : answeredUnloaded i w = true) :
    .responded i busyAnswer ∈ w.events ∧ ∀ r rows, .loaded i r rows ∉ w.events := by
  obtain ⟨hanswered, hunloaded⟩ := Bool.and_eq_true_iff.mp h
  obtain ⟨e, he, hresponded⟩ := List.any_eq_true.mp hanswered
  refine ⟨?_, fun r rows hmem => absurd (List.all_eq_true.mp hunloaded _ hmem) (by simp)⟩
  split at hresponded
  · next j limit v =>
      simp only [Bool.and_eq_true, decide_eq_true_eq] at hresponded
      obtain ⟨⟨rfl, rfl⟩, rfl⟩ := hresponded
      exact he
  · exact absurd hresponded (by simp)

/-- The second request is answered with the board of the two senders, from the cache. -/
theorem cached_routes_answer_own_query_board :
    ∃ c, Reachable busyApi (.init 0) c ∧ .responded 1 busyAnswer ∈ c.world.events ∧
      (∀ r rows, .loaded 1 r rows ∉ c.world.events) ∧
      Answered (some "sentrix:idx:api") c.world.events 1 busyAnswer := by
  have hserved : twoServed.any (answeredUnloaded 1) = true := by decide +kernel
  obtain ⟨w, hw, hchecks⟩ := (Option.any_eq_true ..).mp hserved
  obtain ⟨⟨w₁, p₁⟩, hfirst, hrest⟩ := Option.bind_eq_some_iff.mp hw
  obtain ⟨⟨w₂, p₂⟩, hsecond, rfl⟩ := Option.map_eq_some_iff.mp hrest
  obtain ⟨prog₁, hreach₁, hother⟩ := servedBy_reachable Reachable.init rfl hfirst
  have hlater := hreach₁.move (Move.env ⟨w₁.clock + 59 * 1000000000, Nat.le_add_right _ _, rfl⟩)
  obtain ⟨prog₂, hreach₂, -⟩ := servedBy_reachable hlater (hother 1 (by simp)) hsecond
  obtain ⟨hresponded, hunloaded⟩ := answeredUnloaded_spec hchecks
  exact ⟨_, hreach₂, hresponded, hunloaded,
    cached_routes_answer_own_query busyBoardJson_inverts hreach₂ hresponded⟩

end SentrixIndexer
