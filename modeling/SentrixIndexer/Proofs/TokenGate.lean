/-
Who is let in, and who gets which response.

`require_bearer` stands before every route but `/health`: a request passes if its header is
`Bearer` and the token, with blanks around the token at most.  In every run a request that
does not pass is refused, and nothing has been asked of the database or of Redis for it; one
that passes is never told it is unauthorized.  Either way its response carries back the id it
came with.
-/
import SentrixIndexer.Api.Http

namespace SentrixIndexer

open Effect

/-! ### The header -/

/-- The header value is text: `Bearer`, a space and the token, with blanks around it. -/
structure Presents (header token : List UInt8) : Prop where
  text : (headerText header).isSome
  shape : ∃ before after, (∀ b ∈ before, blank b = true) ∧ (∀ b ∈ after, blank b = true) ∧
    header = bearer ++ (before ++ token ++ after)

/-- **What a header presents**; no token with a blank at an end is ever presented. -/
theorem presented_eq_some_iff {header token : List UInt8} :
    presented header = some token ↔ Numeric.Trimmed blank token ∧ Presents header token := by
  unfold presented
  constructor
  · intro h
    by_cases hbearer : ((headerText header).isSome && bearer.isPrefixOf header) = true
    · rw [if_pos hbearer] at h
      obtain ⟨htext, hprefix⟩ := Bool.and_eq_true_iff.mp hbearer
      obtain ⟨rest, rfl⟩ := List.isPrefixOf_iff_prefix.mp hprefix
      rw [List.drop_left] at h
      obtain ⟨htrimmed, before, after, hbefore, hafter, rfl⟩ :=
        Numeric.trim_eq_iff.mp (Option.some.inj h)
      exact ⟨htrimmed, htext, before, after, hbefore, hafter, rfl⟩
    · rw [if_neg hbearer] at h
      exact absurd h (by simp)
  · rintro ⟨htrimmed, htext, before, after, hbefore, hafter, rfl⟩
    have hprefix := List.isPrefixOf_iff_prefix.mpr
      (List.prefix_append bearer (before ++ token ++ after))
    rw [if_pos (Bool.and_eq_true_iff.mpr ⟨htext, hprefix⟩), List.drop_left,
      Numeric.trim_eq_iff.mpr ⟨htrimmed, before, after, hbefore, hafter, rfl⟩]

/-- The request is for `/health`, or it presents the token, if there is one. -/
def AuthState.Opens (auth : AuthState) (req : HttpRequest) : Prop :=
  req.route = .health ∨ ∀ token, auth.expected = some token →
    Numeric.Trimmed blank token ∧ ∃ header, req.authorization = some header ∧ Presents header token

theorem isHealth_iff {route : Route} : route.isHealth = true ↔ route = .health := by
  cases route with
  | health => simp [Route.isHealth]
  | _ => simp [Route.isHealth]

theorem admits_iff {auth : AuthState} {req : HttpRequest} :
    auth.admits req = true ↔ auth.Opens req := by
  unfold AuthState.admits AuthState.Opens
  rw [Bool.or_eq_true, isHealth_iff]
  refine or_congr_right ?_
  rcases auth.expected with _ | token
  · simp
  · simp only [decide_eq_true_eq, Option.bind_eq_some_iff, presented_eq_some_iff]
    constructor
    · rintro ⟨header, hheader, htrimmed, hpresents⟩ _ heq
      obtain rfl := Option.some.inj heq
      exact ⟨htrimmed, header, hheader, hpresents⟩
    · intro h
      obtain ⟨htrimmed, header, hheader, hpresents⟩ := h token rfl
      exact ⟨header, hheader, htrimmed, hpresents⟩

/-- An id that came in a header can go out in one. -/
theorem headerValue_of_headerText {bytes : List UInt8} {id : String}
    (h : headerText bytes = some id) : headerValue id = some id := by
  have hbyte : ∀ n < 127, 32 ≤ n ∨ n = 9 →
      32 ≤ (Char.ofNat n).toNat ∧ (Char.ofNat n).toNat < 127 ∨ (Char.ofNat n).toNat = 9 := by
    decide
  unfold headerText at h
  split at h
  · next htext =>
      obtain rfl := Option.some.inj h
      unfold headerValue
      refine if_pos (List.all_eq_true.mpr fun c hc => ?_)
      rw [String.toList_ofList] at hc
      obtain ⟨b, hb, rfl⟩ := List.mem_map.mp hc
      have hvisible := List.all_eq_true.mp htext b hb
      simp only [Bool.or_eq_true, Bool.and_eq_true, decide_eq_true_eq] at hvisible ⊢
      refine hbyte b.toNat ?_ ?_
      · rcases hvisible with ⟨-, hlt⟩ | rfl
        · exact UInt8.lt_iff_toNat_lt.mp hlt
        · decide
      · rcases hvisible with ⟨hle, -⟩ | rfl
        · exact Or.inl (UInt8.le_iff_toNat_le.mp hle)
        · exact Or.inr rfl
  · exact absurd h (by simp)

/-! ### What the routes reply -/

/-- No refusal of the token. -/
def NotRefused (reply : Reply) : Prop := reply.status ≠ 401

theorem notRefused_ok (body : Body) : NotRefused body.ok := (by decide : 200 ≠ 401)

theorem notRefused_intoResponse (e : ApiError) : NotRefused e.intoResponse := by
  cases e with
  | invalidQuery msg => exact (by decide : 400 ≠ 401)
  | notFound what => exact (by decide : 404 ≠ 401)
  | db msg => exact (by decide : 500 ≠ 401)
  | sqlx msg => exact (by decide : 500 ≠ 401)

theorem notRefused_replyWith {T : Type} (body : T → Body) (r : Except ApiError T) :
    NotRefused (replyWith body r) := by
  cases r with
  | ok v => exact notRefused_ok (body v)
  | error e => exact notRefused_intoResponse e

theorem ends_readyz (state : AppState) : (readyz state).Ends NotRefused := by
  have hready : ∀ pg body, NotRefused ⟨if pg = "ok" then 200 else 503, body⟩ := by
    intro pg body
    show (if pg = "ok" then 200 else 503) ≠ 401
    split_ifs <;> decide
  unfold readyz
  refine (Script.ends_any _).bind fun pg _ => ?_
  cases state.cache with
  | none => exact hready _ _
  | some ns => exact Script.ends_map fun found => hready _ _

/-- **No route says that a request is unauthorized.** -/
theorem ends_handler (state : AppState) (route : Route) :
    (route.handler state).Ends NotRefused := by
  cases route with
  | health => exact notRefused_ok _
  | readyz => exact ends_readyz state
  | openapiJson => exact notRefused_ok _
  | docs => exact notRefused_ok _
  | cached req => exact Script.ends_map (notRefused_replyWith _)
  | block height => exact Script.ends_map (notRefused_replyWith _)
  | tx hash => exact Script.ends_map (notRefused_replyWith _)
  | addressTxs addr limit => exact Script.ends_map (notRefused_replyWith _)
  | addressTransfers addr limit standard => exact Script.ends_map (notRefused_replyWith _)
  | token curve => exact Script.ends_map (notRefused_replyWith _)
  | trades limit curve => exact Script.ends_map (notRefused_replyWith _)
  | etherscan q => exact Script.ends_map fun _ => notRefused_ok _
  | graphql field => exact Script.ends_map fun _ => notRefused_ok _
  | playground => exact notRefused_ok _
  | unmatched path => exact (by decide : 404 ≠ 401)

/-! ### The invariant -/

/-- The response is one for this request. -/
structure ResponseTo (auth : AuthState) (req : HttpRequest) (resp : HttpResponse) : Prop where
  id : ∀ id, req.requestId.bind headerText = some id → resp.requestId = some id
  refused : ¬ auth.Opens req → resp.reply = unauthorized
  admitted : auth.Opens req → NotRefused resp.reply

/-- What is asked is asked for a request that was let in, and what is sent is a response for the
one request of its number. -/
structure Gated (auth : AuthState) (events : List HttpEvent) : Prop where
  once : ∀ {i req req'}, .accepted i req ∈ events → .accepted i req' ∈ events → req = req'
  asked : ∀ {i c r}, .asked i c r ∈ events → ∃ req, .accepted i req ∈ events ∧ auth.Opens req
  responded : ∀ {i resp}, .responded i resp ∈ events →
    ∃ req, .accepted i req ∈ events ∧ ResponseTo auth req resp

variable {auth : AuthState} {events : List HttpEvent} {i : Nat} {req : HttpRequest}

theorem Gated.accept (h : Gated auth events) (hnew : ∀ earlier, .accepted i earlier ∉ events) :
    Gated auth (.accepted i req :: events) where
  once {j req₁ req₂} h₁ h₂ := by
    rcases List.mem_cons.mp h₁ with heq₁ | hold₁
    · rcases List.mem_cons.mp h₂ with heq₂ | hold₂
      · exact (HttpEvent.accepted.inj heq₁).2.trans (HttpEvent.accepted.inj heq₂).2.symm
      · obtain ⟨rfl, rfl⟩ := HttpEvent.accepted.inj heq₁
        exact absurd hold₂ (hnew _)
    · rcases List.mem_cons.mp h₂ with heq₂ | hold₂
      · obtain ⟨rfl, rfl⟩ := HttpEvent.accepted.inj heq₂
        exact absurd hold₁ (hnew _)
      · exact h.once hold₁ hold₂
  asked {j c r} hasked := by
    rcases List.mem_cons.mp hasked with heq | hold
    · exact absurd heq nofun
    · obtain ⟨req', hreq', hopens⟩ := h.asked hold
      exact ⟨req', List.mem_cons_of_mem _ hreq', hopens⟩
  responded {j resp} hresponded := by
    rcases List.mem_cons.mp hresponded with heq | hold
    · exact absurd heq nofun
    · obtain ⟨req', hreq', hresponse⟩ := h.responded hold
      exact ⟨req', List.mem_cons_of_mem _ hreq', hresponse⟩

/-- What is asked for a request that was let in. -/
theorem Gated.ask (h : Gated auth events) (hreq : .accepted i req ∈ events)
    (hopens : auth.Opens req) (c : RouteCall) (r : RouteSig.Answer c) :
    Gated auth (.asked i c r :: events) where
  once h₁ h₂ := h.once (by simpa using h₁) (by simpa using h₂)
  asked {j c' r'} hasked := by
    rcases List.mem_cons.mp hasked with heq | hold
    · obtain ⟨rfl, -⟩ := HttpEvent.asked.inj heq
      exact ⟨req, List.mem_cons_of_mem _ hreq, hopens⟩
    · obtain ⟨req', hreq', hopens'⟩ := h.asked hold
      exact ⟨req', List.mem_cons_of_mem _ hreq', hopens'⟩
  responded {j resp} hresponded := by
    obtain ⟨req', hreq', hresponse⟩ := h.responded (by simpa using hresponded)
    exact ⟨req', List.mem_cons_of_mem _ hreq', hresponse⟩

theorem Gated.respond (h : Gated auth events) (hreq : .accepted i req ∈ events)
    {resp : HttpResponse} (hresp : ResponseTo auth req resp) :
    Gated auth (.responded i resp :: events) where
  once h₁ h₂ := h.once (by simpa using h₁) (by simpa using h₂)
  asked {j c r} hasked := by
    obtain ⟨req', hreq', hopens⟩ := h.asked (by simpa using hasked)
    exact ⟨req', List.mem_cons_of_mem _ hreq', hopens⟩
  responded {j resp'} hresponded := by
    rcases List.mem_cons.mp hresponded with heq | hold
    · obtain ⟨rfl, rfl⟩ := HttpEvent.responded.inj heq
      exact ⟨req, List.mem_cons_of_mem _ hreq, hresp⟩
    · obtain ⟨req', hreq', hresponse⟩ := h.responded hold
      exact ⟨req', List.mem_cons_of_mem _ hreq', hresponse⟩

/-! ### The layers -/

section Layers

variable {σ : Type} {g : Ground σ} {state : AppState} {w : HttpWorld σ}

/-- No event is taken back. -/
def Remembers (w w' : HttpWorld σ) : Prop := w.events ⊆ w'.events

/-- Request `i` is verified to keep the gate, for `Q`. -/
abbrev Gates (g : Ground σ) (auth : AuthState) (i : Nat) {α : Type} (p : HttpScript α)
    (Q : α → HttpWorld σ → Prop) (w : HttpWorld σ) : Prop :=
  wp (httpHandle g i) (fun w => Gated auth w.events) Remembers Remembers p.toProg Q w

/-- **A script of a route** may run for a request that was let in. -/
theorem gates_viaRoute (hopens : auth.Opens req) {T : Type} (p : RouteScript T) :
    ∀ {w : HttpWorld σ}, .accepted i req ∈ w.events →
      Gates g auth i (viaRoute p) (fun _ w' => .accepted i req ∈ w'.events) w := by
  induction p with
  | pure a => exact fun hreq => hreq
  | call c k ih =>
      intro w hreq
      refine wp_script_bind fun w₁ hR hI r w₂ hH => ?_
      obtain ⟨s, -, rfl⟩ := hH
      exact ⟨hI.ask (hR hreq) hopens c r, List.subset_cons_self _ _,
        ih r (List.mem_cons_of_mem _ (hR hreq))⟩

/-- The id is the one the request came with, if it came with one. -/
theorem gates_requestIdOf (hreq : .accepted i req ∈ w.events) :
    Gates g auth i (requestIdOf req) (fun id w' => .accepted i req ∈ w'.events ∧
      ∀ id', req.requestId.bind headerText = some id' → id = id') w := by
  unfold requestIdOf
  cases hid : req.requestId.bind headerText with
  | some id => exact ⟨hreq, fun id' h => Option.some.inj h⟩
  | none =>
      refine wp_script_bind fun w₁ hR₁ hI₁ clock w₂ hH => ?_
      obtain ⟨-, rfl⟩ := hH
      refine ⟨hI₁, List.Subset.refl _, ?_⟩
      refine wp_script_bind fun w₃ hR₃ hI₃ seq w₄ hH => ?_
      obtain ⟨-, rfl⟩ := hH
      exact ⟨hI₃, List.Subset.refl _, hR₃ (hR₁ hreq), fun id' h => by simp at h⟩

/-- **The gate.** -/
theorem gates_requireBearer (hreq : .accepted i req ∈ w.events) :
    Gates g auth i (requireBearer state auth req) (fun reply w' => .accepted i req ∈ w'.events ∧
      (¬ auth.Opens req → reply = unauthorized) ∧ (auth.Opens req → NotRefused reply)) w := by
  unfold requireBearer
  by_cases hadmits : auth.admits req = true
  · have hopens := admits_iff.mp hadmits
    rw [if_pos hadmits]
    refine wp_script_bind fun w₁ hR hI pass w₂ hH => ?_
    obtain ⟨s, -, rfl⟩ := hH
    refine ⟨hI, List.Subset.refl _, ?_⟩
    cases pass with
    | false =>
        exact ⟨hR hreq, fun hnot => absurd hopens hnot, fun _ => (by decide : 429 ≠ 401)⟩
    | true =>
        have hends : (viaRoute (req.route.handler state)).Ends NotRefused :=
          (ends_handler state req.route).via
        show Gates g auth i (viaRoute (req.route.handler state)) _ _
        exact wp_mono (fun reply w₃ h => ⟨h.2, fun hnot => absurd hopens hnot, fun _ => h.1⟩)
          (hends.wp (gates_viaRoute hopens _ (hR hreq)))
  · have hnot : ¬ auth.Opens req := fun hopens => hadmits (admits_iff.mpr hopens)
    rw [if_neg hadmits]
    exact ⟨hreq, fun _ => rfl, fun hopens => absurd hopens hnot⟩

theorem gates_serveHttp : Gates g auth i (serveHttp state auth) (fun _ _ => True) w := by
  refine wp_script_bind fun w₁ hR₁ hI₁ req w₂ hH => ?_
  obtain ⟨hnew, rfl⟩ := hH
  refine ⟨hI₁.accept hnew, List.subset_cons_self _ _, ?_⟩
  refine wp_script_bind (wp_mono (fun id w₃ hid => ?_)
    (gates_requestIdOf (List.mem_cons_self ..)))
  obtain ⟨hreq, hid⟩ := hid
  refine wp_script_bind (wp_mono (fun reply w₄ hreply => ?_) (gates_requireBearer hreq))
  obtain ⟨hreq, hrefused, hadmitted⟩ := hreply
  intro w₅ hR₅ hI₅ u w₆ hH
  obtain rfl : w₆ = _ := hH
  refine ⟨hI₅.respond (hR₅ hreq) ⟨fun id' hid' => ?_, hrefused, hadmitted⟩,
    List.subset_cons_self _ _, trivial⟩
  obtain ⟨bytes, -, htext⟩ := Option.bind_eq_some_iff.mp hid'
  rw [hid id' hid']
  exact headerValue_of_headerText htext

end Layers

/-! ### Every run -/

variable {σ : Type} {g : Ground σ} {state : AppState}

theorem httpApi_verified (s : σ) :
    Verified (httpApi g state auth) (.init s) (fun w => Gated auth w.events) Remembers
      Remembers where
  rely_refl w := List.Subset.refl _
  rely_trans _ _ _ h h' := List.Subset.trans h h'
  guar_refl w := List.Subset.refl _
  guar_rely _ _ h := h
  init := by
    refine ⟨fun h => ?_, fun h => ?_, fun h => ?_⟩
    all_goals exact absurd h (by simp [HttpWorld.init])
  spawn i p w hs _ := by
    obtain rfl : p = _ := hs
    exact gates_serveHttp
  env w w' hI he := by
    obtain ⟨s, -, rfl⟩ := he
    exact ⟨hI, List.Subset.refl _⟩
  crash w w' hI hc := by
    obtain rfl : w' = _ := hc
    exact hI

/--
**Nothing without the token.**  In every run of the API, however the requests interleave and
whatever the database, Redis and the rate limiter answer: a request that does not present the
token is answered that it is unauthorized, and no statement and no command is sent for it; a
request that does, or that only asks for `/health`, is never answered so.  Each response
carries the id its request came with.
-/
theorem nothing_without_the_token {s : σ} {c : Config HttpSig Nat (HttpWorld σ) Unit}
    (hc : Reachable (httpApi g state auth) (.init s) c)
    (hreq : .accepted i req ∈ c.world.events) :
    (¬ auth.Opens req → ∀ call r, .asked i call r ∉ c.world.events) ∧
    ∀ resp, .responded i resp ∈ c.world.events →
      (¬ auth.Opens req → resp.reply = unauthorized) ∧
      (auth.Opens req → resp.reply.status ≠ 401) ∧
      ∀ id, req.requestId.bind headerText = some id → resp.requestId = some id := by
  have hgated := ((httpApi_verified s).reachable hc).1
  refine ⟨fun hnot call r hasked => ?_, fun resp hresponded => ?_⟩
  · obtain ⟨req', hreq', hopens⟩ := hgated.asked hasked
    exact hnot (hgated.once hreq hreq' ▸ hopens)
  · obtain ⟨req', hreq', hresponse⟩ := hgated.responded hresponded
    obtain rfl := hgated.once hreq hreq'
    exact ⟨hresponse.refused, hresponse.admitted, hresponse.id⟩

/-! ### A guesser and a holder of the token -/

def headerBytes (text : String) : List UInt8 := text.toList.map fun c => c.toNat.toUInt8

def tokenAuth : AuthState := ⟨some (headerBytes "s3cret")⟩

def guesser : HttpRequest :=
  ⟨some (headerBytes "Bearer letmein"), some (headerBytes "a"), .tx "0xab"⟩

def holder : HttpRequest :=
  ⟨some (headerBytes "Bearer  s3cret "), some (headerBytes "b"), .tx "0xab"⟩

abbrev tokenApi : System HttpSig Nat (HttpWorld Unit) Unit :=
  httpApi downGround bareState tokenAuth

/-- The program of each request. -/
def oneRequest : Prog HttpSig Unit := (serveHttp bareState tokenAuth).toProg

/-- The guesser's request comes in, the holder's comes in and is served, then the guesser's is
served. -/
def bothServed : Option (HttpWorld Unit × Prog HttpSig Unit) :=
  (advanceWhile (comesOnce 0) (downServe 0 guesser) 1 (.init (), oneRequest)).bind fun x =>
    (execWhile (comesOnce 1) (downServe 1 holder) 20 x.1 oneRequest).bind fun y =>
      advanceWhile (comesOnce 0) (downServe 0 guesser) 2 (y.1, x.2)

theorem bothServed_reachable {w : HttpWorld Unit} {p : Prog HttpSig Unit}
    (h : bothServed = some (w, p)) : ∃ prog, Reachable tokenApi (.init ()) ⟨w, prog⟩ := by
  obtain ⟨⟨w₁, p₁⟩, hfirst, h⟩ := Option.bind_eq_some_iff.mp h
  obtain ⟨⟨w₂, u⟩, hsecond, h⟩ := Option.bind_eq_some_iff.mp h
  have hstart : Reachable tokenApi (.init ()) _ :=
    (Reachable.init).move (Move.start 0 oneRequest rfl rfl)
  have hcame := hstart.steps (i := 0) (by simp)
    (advanceWhile_steps (downServe_answers 0 guesser) 1 hfirst)
  have hserved := hcame.run (i := 1) (by simp [Config.idle]) rfl
    (execWhile_run (downServe_answers 1 holder) 20 hsecond)
  exact ⟨_, hserved.steps (i := 0) (by simp)
    (advanceWhile_steps (downServe_answers 0 guesser) 2 h)⟩

/-- The request has come in under this number. -/
def hasCome (i : Nat) (req : HttpRequest) (w : HttpWorld Unit) : Bool :=
  w.events.any fun
    | .accepted j req' => j = i && req' = req
    | _ => false

theorem accepted_of_hasCome {w : HttpWorld Unit} (h : hasCome i req w = true) :
    .accepted i req ∈ w.events := by
  obtain ⟨e, he, hcome⟩ := List.any_eq_true.mp h
  cases e with
  | accepted j req' =>
      obtain ⟨hj, hreq⟩ := Bool.and_eq_true_iff.mp hcome
      rw [of_decide_eq_true hj, of_decide_eq_true hreq] at he
      exact he
  | _ => exact absurd hcome (by simp)

/-- Over a database that is down the guesser is refused without a statement, and the holder of
the token is told of the failure; each gets back the id it came with. -/
theorem nothing_without_the_token_down :
    ∃ c, Reachable tokenApi (.init ()) c ∧
      (responses c.world.events).map (fun r => (r.1, r.2.reply.status)) = [(0, 401), (1, 500)] ∧
      (∀ call r, .asked 0 call r ∉ c.world.events) ∧
      (∀ resp, .responded 0 resp ∈ c.world.events →
        resp.reply = unauthorized ∧ resp.requestId = some "a") ∧
      ∀ resp, .responded 1 resp ∈ c.world.events →
        resp.reply.status ≠ 401 ∧ resp.requestId = some "b" := by
  have hserved : (bothServed.any fun x => hasCome 0 guesser x.1 && hasCome 1 holder x.1 &&
      (responses x.1.events).map (fun r => (r.1, r.2.reply.status)) = [(0, 401), (1, 500)]) =
        true := by decide +kernel
  obtain ⟨⟨w, p⟩, hw, hchecks⟩ := (Option.any_eq_true ..).mp hserved
  obtain ⟨hcame, hresponses⟩ := Bool.and_eq_true_iff.mp hchecks
  obtain ⟨hguesser, hholder⟩ := Bool.and_eq_true_iff.mp hcame
  obtain ⟨prog, hreach⟩ := bothServed_reachable hw
  have hshut : ¬ tokenAuth.Opens guesser := by
    rw [← admits_iff]
    decide +kernel
  have hopen : tokenAuth.Opens holder := by
    rw [← admits_iff]
    decide +kernel
  obtain ⟨hasked, hrefused⟩ :=
    nothing_without_the_token hreach (accepted_of_hasCome hguesser)
  obtain ⟨-, hserved⟩ := nothing_without_the_token hreach (accepted_of_hasCome hholder)
  refine ⟨_, hreach, of_decide_eq_true hresponses, hasked hshut, fun resp h => ?_,
    fun resp h => ?_⟩
  · obtain ⟨hreply, -, hid⟩ := hrefused resp h
    exact ⟨hreply hshut, hid "a" (by decide +kernel)⟩
  · obtain ⟨-, hstatus, hid⟩ := hserved resp h
    exact ⟨hstatus hopen, hid "b" (by decide +kernel)⟩

end SentrixIndexer
