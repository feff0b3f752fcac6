/-
Failed calls to the nodes.

Whatever else fails is tried again, but a probe takes an error for an answer: if one of the
three views of a curve fails, its emitter is turned away and the event is passed over for good.
In the runs of the condition no such call fails.  What may fail there is harmless: the state
follows that of the worker without failures, pass by pass, up to the names of the tokens.  So
any two of these runs hold the same at or below their cursor.
-/
import SentrixIndexer.Proofs.FailureFree
import SentrixIndexer.Proofs.WorkerRules

namespace SentrixIndexer

open Effect Relational

/-! ### Runs over a history -/

namespace History

/-- The answer to a call that does not fail. -/
def answer (n : History) (s : CbStore) : (c : CbChainCall) → c.Answer
  | .blockNumber => .ok (n.tipAt s.cursor)
  | .getLogs fromBlock toBlock address => .ok (n.logsIn fromBlock toBlock address)
  | .ethCall target view => n.views target view

/-- A probe of the emitter adopts it, if none of its calls fails. -/
def Adopts (n : History) (abi : Abi) (s : CbStore) (emitter : EvmAddress) : Prop :=
  ∃ token curveSupply threshold, n.curveViews abi emitter = some (token, curveSupply, threshold) ∧
    Insertable s (hexAddr emitter) (hexAddr token) (n.text abi token .name "Unknown")
      (n.text abi token .symbol "???")

/-- Nothing is lost if the call fails: it is tried again, or the emitter is turned away anyhow,
or the text that stands for the answer can be stored as well. -/
def Harmless (n : History) (abi : Abi) (s : CbStore) : CbChainCall → Prop
  | .ethCall target .name => ¬ HasNul (n.text abi target .name "Unknown")
  | .ethCall target .symbol => ¬ HasNul (n.text abi target .symbol "???")
  | .ethCall target _ => ¬ n.Adopts abi s target
  | _ => True

end History

/-- The answer to a call that has failed. -/
def CbChainCall.failed (e : ChainError) : (c : CbChainCall) → c.Answer
  | .blockNumber => .error e
  | .getLogs _ _ _ => .error e
  | .ethCall _ _ => .error e

variable {χ : Type}

/-- The answers of a run over the history, in which calls to the nodes may fail as `Fails` allows:
the database works, and a full cache keeps what the history says. -/
def History.Answers (n : History) (Fails : CbStore → CbChainCall → ChainError → Prop) (w : CbWorld χ) :
    (c : CbCall) → c.Answer → CbWorld χ → Prop
  | .chain c, r, _ => r = n.answer w.store c ∨ ∃ e, Fails w.store c e ∧ r = c.failed e
  | .knownCurveAddresses, r, _ => ∃ curves, r = .ok curves
  | .readCursor, r, _ => ∃ cursor, r = .ok cursor
  | .transact t, r, _ => r = ((t.run w.store).map Prod.fst).mapError .db
  | .cacheNonCurve a, _, w' => w'.knownNonCurves = insertAddress (n.keep w.knownNonCurves) a
  | _, _, _ => True

/-- The surroundings of such a run. -/
def History.handler (n : History) (Fails : CbStore → CbChainCall → ChainError → Prop) (rpc : CbRpc χ) :
    Handler CbSig (CbWorld χ) :=
  fun w c r w' => cbHandle rpc w c r w' ∧ n.Answers Fails w c r w'

/-- What happens besides the worker. -/
structure Elsewhere (w w' : CbWorld χ) : Prop where
  store : w'.store = w.store
  known : w'.knownCurves = w.knownCurves
  nonCurves : w'.knownNonCurves = w.knownNonCurves

namespace Elsewhere

theorem refl (w : CbWorld χ) : Elsewhere w w := ⟨rfl, rfl, rfl⟩

theorem trans {w₁ w₂ w₃ : CbWorld χ} (h : Elsewhere w₁ w₂) (h' : Elsewhere w₂ w₃) : Elsewhere w₁ w₃ :=
  ⟨h'.store.trans h.store, h'.known.trans h.known, h'.nonCurves.trans h.nonCurves⟩

end Elsewhere

/-! ### Following the worker without failures -/

/-- The worker works on the same as the replica, up to names. -/
structure Agrees (w : CbWorld χ) (ρ : Replica) : Prop where
  store : w.store.unnamed = ρ.store.unnamed
  known : w.knownCurves = ρ.knownCurves
  nonCurves : w.knownNonCurves = ρ.knownNonCurves

/-- Since the store `s` only rows above the height have come, and the cursor has not moved. -/
structure Beyond (height : Int) (s : CbStore) (w : CbWorld χ) : Prop where
  same : SameUpTo height w.store s
  cursor : w.store.cursor = s.cursor

variable {abi : Abi} {cfg : WorkerConfig} {rpc : CbRpc χ} {n : History}
variable {w w' : CbWorld χ} {ρ : Replica} {α : Type} {height : Int} {s : CbStore} {l : RpcLog}

theorem Agrees.elsewhere (h : Agrees w ρ) (hw : Elsewhere w w') : Agrees w' ρ :=
  ⟨by rw [hw.store, h.store], hw.known.trans h.known, hw.nonCurves.trans h.nonCurves⟩

theorem Beyond.elsewhere (h : Beyond height s w) (hw : Elsewhere w w') : Beyond height s w' := by
  obtain ⟨hsame, hcursor⟩ := h
  constructor <;> rw [hw.store] <;> assumption

/-- The surroundings of a run in which only harmless calls fail. -/
abbrev harmlessHandle (abi : Abi) (n : History) (rpc : CbRpc χ) : Handler CbSig (CbWorld χ) :=
  n.handler (fun s c _ => n.Harmless abi s c) rpc

/-- What the script leaves, if it is begun over the store `s`. -/
abbrev FollowsFrom (abi : Abi) (n : History) (rpc : CbRpc χ) (height : Int) (s : CbStore)
    (p : CbScript α) (Q : Except CbError α → CbWorld χ → Prop) (w : CbWorld χ) : Prop :=
  wp (harmlessHandle abi n rpc) (Beyond height s) Elsewhere (fun _ _ => True)
    (Script.toProgE p).run Q w

/-- The answer to one call. -/
theorem follow_ask {c : CbCall} {Q : c.Answer → CbWorld χ → Prop}
    (h : ∀ w₁ r w₂, Elsewhere w w₁ → Beyond height s w₁ → harmlessHandle abi n rpc w₁ c r w₂ →
      Beyond height s w₂ ∧ Q r w₂) :
    wp (harmlessHandle abi n rpc) (Beyond height s) Elsewhere (fun _ _ => True) c.ask.toProg Q w := by
  intro w₁ hR hI r w₂ hH
  obtain ⟨hI₂, hQ⟩ := h w₁ r w₂ hR hI hH
  exact ⟨hI₂, trivial, hQ⟩

/-- The call leaves the store and the sets. -/
def CbCall.IsLookup : CbCall → Prop
  | .transact _ => False
  | .initSets _ => False
  | .insertKnown _ => False
  | .cacheNonCurve _ => False
  | _ => True

theorem elsewhere_of_lookup {c : CbCall} (hc : c.IsLookup) {r : c.Answer}
    (h : cbHandle rpc w c r w') : Elsewhere w w' := by
  cases cbHandle_step h with
  | stay => exact .refl _
  | chain _ => exact ⟨rfl, rfl, rfl⟩
  | transact _ _ => exact absurd hc fun h => h
  | initSets curves => exact absurd hc fun h => h
  | insertKnown a => exact absurd hc fun h => h
  | cacheNonCurve _ => exact absurd hc fun h => h

theorem follow_lookup {c : CbCall} (hc : c.IsLookup) (h : Agrees w ρ) :
    wp (harmlessHandle abi n rpc) (Beyond height s) Elsewhere (fun _ _ => True) c.ask.toProg
      (fun _ w' => Agrees w' ρ) w := by
  refine follow_ask fun w₁ r w₂ hR hI hH => ?_
  have hw := elsewhere_of_lookup hc hH.1
  exact ⟨hI.elsewhere hw, h.elsewhere (hR.trans hw)⟩

/-! ### Transactions -/

/-- The result of a script, as that of the replica. -/
def Mirror (x : Replica × Bool) (r : Except CbError α) (w : CbWorld χ) : Prop :=
  Agrees w x.1 ∧ r.isOk = x.2

theorem follow_run (t t' : CbTxn) (habove : t.Above height)
    (hcursor : ∀ height, t ≠ .setCursor height) (h : Agrees w ρ)
    (hok : ∀ a s₁, t.run w.store = .ok (a, s₁) →
      ∃ a' s₂, t'.run ρ.store = .ok (a', s₂) ∧ s₁.unnamed = s₂.unnamed)
    (herror : ∀ e, t.run w.store = .error e → ∃ e', t'.run ρ.store = .error e') :
    FollowsFrom abi n rpc height s (cbTransact t) (Mirror (ρ.transact t')) w := by
  refine follow_ask fun w₁ r w₂ hR hI hH => ?_
  obtain ⟨hH, hanswer⟩ := hH
  have hr : r = ((t.run w₁.store).map Prod.fst).mapError .db := hanswer
  have h₁ := h.elsewhere hR
  rw [← hR.store] at hok herror
  rcases hrun : t.run w₁.store with e | ⟨a, s₁⟩
  · rw [hrun] at hr
    obtain ⟨e', he'⟩ := herror e hrun
    have hrefused : ρ.transact t' = (ρ, false) := by
      rw [Replica.transact, he']
    obtain rfl : w₂ = w₁ := by
      rcases hH with ⟨b, s₂, hok', -⟩ | ⟨-, hw⟩
      · exact absurd (hrun.symm.trans hok') (by simp)
      · exact hw
    rw [hrefused]
    exact ⟨hI, h₁, by rw [hr]; rfl⟩
  · rw [hrun] at hr
    obtain ⟨a', s₂, hrun', hsame⟩ := hok a s₁ hrun
    have hdone : ρ.transact t' = ({ ρ with store := s₂ }, true) := by
      rw [Replica.transact, hrun']
    have hw : w₂.store = s₁ ∧ w₂.knownCurves = w₁.knownCurves ∧
        w₂.knownNonCurves = w₁.knownNonCurves := by
      rcases hH with ⟨b, s₃, hok', -, rfl⟩ | ⟨⟨e, he⟩, -⟩
      · obtain ⟨-, rfl⟩ := Prod.mk.inj (Except.ok.inj (hrun.symm.trans hok'))
        exact ⟨rfl, rfl, rfl⟩
      · exact absurd (hr.symm.trans he) (by simp [Except.map, Except.mapError])
    obtain ⟨hstore, hknown, hnon⟩ := hw
    have heffect := CbTxn.run_effect hrun
    rw [hdone]
    refine ⟨⟨?_, ?_⟩, ⟨?_, hknown.trans h₁.known, hnon.trans h₁.nonCurves⟩, by rw [hr]; rfl⟩
    · rw [hstore]
      exact (heffect.sameUpTo habove).trans hI.same
    · rw [hstore, heffect.cursor_eq hcursor, hI.cursor]
    · rw [hstore, hsame]

/-- **A transaction that does not insert a curve.** -/
theorem follow_transact {t : CbTxn} (habove : t.Above height) (ht : ∀ row, t ≠ .insertToken row)
    (hcursor : ∀ height, t ≠ .setCursor height) (h : Agrees w ρ) :
    FollowsFrom abi n rpc height s (cbTransact t) (Mirror (ρ.transact t)) w := by
  refine follow_run t t habove hcursor h (fun a s₁ hrun => ?_) fun e hrun => ?_
  · obtain ⟨s₂, hrun', hsame⟩ := run_ok_of_unnamed ht h.store hrun
    exact ⟨a, s₂, hrun', hsame⟩
  · rcases hrun' : t.run ρ.store with e' | ⟨a, s₂⟩
    · exact ⟨e', rfl⟩
    · obtain ⟨s₁, hok, -⟩ := run_ok_of_unnamed ht h.store.symm hrun'
      exact absurd (hrun.symm.trans hok) (by simp)

/-- **The insert of a curve**, whose name may be another one. -/
theorem follow_insert {row row' : InsertCbToken} (habove : height < row.createdBlock)
    (hsame : row.unnamed = row'.unnamed)
    (hnul : HasNul row.name ∨ HasNul row.symbol ↔ HasNul row'.name ∨ HasNul row'.symbol)
    (h : Agrees w ρ) :
    FollowsFrom abi n rpc height s (cbTransact (.insertToken row))
      (Mirror (ρ.transact (.insertToken row'))) w := by
  by_cases hbad : HasNul row.name ∨ HasNul row.symbol
  · have hrefused : ∀ (t : InsertCbToken) s, HasNul t.name ∨ HasNul t.symbol →
        CbTokens.insert t s = .error .invalidText := fun t s ht => by
      rw [CbTokens.insert, if_pos ht]
    refine follow_run (.insertToken row) (.insertToken row') habove (by simp) h
      (fun a s₁ hrun => ?_) fun _ _ => ⟨_, hrefused row' ρ.store (hnul.mp hbad)⟩
    exact absurd (hrun.symm.trans (hrefused row w.store hbad)) (by simp)
  · have hgood := hbad
    rw [hnul] at hgood
    obtain ⟨hname, hsymbol⟩ := not_or.mp hbad
    obtain ⟨hname', hsymbol'⟩ := not_or.mp hgood
    have hresult : unnamedResult (CbTokens.insert row w.store) =
        unnamedResult (CbTokens.insert row' ρ.store) := by
      rw [← insertToken_unnamed hname hsymbol, ← insertToken_unnamed hname' hsymbol', hsame, h.store]
    refine follow_run (.insertToken row) (.insertToken row') habove (by simp) h
      (fun a s₁ hrun => ?_) fun e hrun => ?_
    · have hrun₁ : CbTokens.insert row w.store = .ok (a, s₁) := hrun
      rw [hrun₁] at hresult
      rcases hrun' : CbTokens.insert row' ρ.store with e | ⟨a', s₂⟩
      · rw [hrun'] at hresult
        exact absurd hresult (by simp [unnamedResult, Except.map])
      · rw [hrun'] at hresult
        exact ⟨a', s₂, hrun', (Prod.mk.inj (Except.ok.inj hresult)).2⟩
    · have hrun₁ : CbTokens.insert row w.store = .error e := hrun
      rw [hrun₁] at hresult
      rcases hrun' : CbTokens.insert row' ρ.store with e' | x
      · exact ⟨e', hrun'⟩
      · rw [hrun'] at hresult
        exact absurd hresult (by simp [unnamedResult, Except.map])

/-! ### Probes -/

theorem insertable_unnamed {curve token : Address} {name symbol : String} :
    Insertable s.unnamed curve token name symbol ↔ Insertable s curve token name symbol := by
  unfold Insertable
  rw [contains_unnamed]
  show _ ∧ _ ∧ (_ ∨ ∀ r ∈ s.tokens.rows.map CbToken.unnamed, r.tokenAddress ≠ token) ↔ _
  simp only [List.mem_map, forall_exists_index, and_imp, forall_apply_eq_imp_iff₂]
  rfl

theorem Agrees.harmless_iff (h : Agrees w ρ) (c : CbChainCall) :
    n.Harmless abi w.store c ↔ n.Harmless abi ρ.store c := by
  have hadopts : ∀ a, n.Adopts abi w.store a ↔ n.Adopts abi ρ.store a := by
    intro a
    unfold History.Adopts
    simp only [← insertable_unnamed (s := w.store), h.store, insertable_unnamed]
  rcases c with _ | ⟨fromBlock, toBlock, address⟩ | ⟨target, view⟩
  · exact Iff.rfl
  · exact Iff.rfl
  · cases view with
    | name => exact Iff.rfl
    | symbol => exact Iff.rfl
    | _ => exact not_congr (hadopts target)

/-- A view answers as the history has it, or it fails harmlessly. -/
theorem follow_callView {decoder : List UInt8 → Except String α} {target : EvmAddress}
    {view : ViewFn} (h : Agrees w ρ) :
    FollowsFrom abi n rpc height s (callView decoder target view) (fun r w' => Agrees w' ρ ∧
      (r = viewResult decoder (n.views target view) ∨
        (∃ e, r = .error e) ∧ n.Harmless abi ρ.store (.ethCall target view))) w := by
  refine wp_scriptE_bind (wp_script_bind (follow_ask fun w₁ r w₂ hR hI hH => ?_))
  have hw := elsewhere_of_lookup (c := .chain (.ethCall target view)) trivial hH.1
  have h₁ := h.elsewhere hR
  refine ⟨hI.elsewhere hw, ?_⟩
  have hanswer : r = n.views target view ∨
      ∃ e, n.Harmless abi w₁.store (.ethCall target view) ∧ r = .error e := hH.2
  rw [h₁.harmless_iff] at hanswer
  rcases r with e | raw
  · refine ⟨h₁.elsewhere hw, hanswer.imp (fun hr => ?_) fun ⟨_, hr, _⟩ => ⟨⟨_, rfl⟩, hr⟩⟩
    rw [← hr]
    rfl
  · refine ⟨h₁.elsewhere hw, hanswer.imp (fun hr => ?_) fun ⟨e, _, he⟩ => by simp at he⟩
    rw [← hr]
    rfl

/-- The three views of an emitter come to what they would without failures, or the emitter is
turned away anyhow. -/
theorem follow_curveViews {candidate : EvmAddress} (h : Agrees w ρ) :
    FollowsFrom abi n rpc height s (curveViews abi candidate) (fun r w' => Agrees w' ρ ∧
      (r = .ok (n.curveViews abi candidate) ∨
        r = .ok none ∧ ¬ n.Adopts abi ρ.store candidate)) w := by
  unfold curveViews
  refine wp_liftRun (wp_mono (fun r w₁ hr => ?_) (follow_callView h))
  obtain ⟨h₁, htoken⟩ := hr
  rcases r with e | token
  · refine ⟨h₁, htoken.imp (fun htoken => ?_) fun htoken => ⟨rfl, htoken.2⟩⟩
    simp [History.curveViews, ← htoken, Except.toOption]
  · replace htoken := htoken.resolve_right fun hc => by simp at hc
    refine wp_liftRun (wp_mono (fun r w₂ hr => ?_) (follow_callView h₁))
    obtain ⟨h₂, hsupply⟩ := hr
    rcases r with e | curveSupply
    · refine ⟨h₂, hsupply.imp (fun hsupply => ?_) fun hsupply => ⟨rfl, hsupply.2⟩⟩
      simp [History.curveViews, ← htoken, ← hsupply, Except.toOption]
    · replace hsupply := hsupply.resolve_right fun hc => by simp at hc
      refine wp_liftRun (wp_mono (fun r w₃ hr => ?_) (follow_callView h₂))
      obtain ⟨h₃, hthreshold⟩ := hr
      rcases r with e | threshold
      · refine ⟨h₃, hthreshold.imp (fun hthreshold => ?_) fun hthreshold => ⟨rfl, hthreshold.2⟩⟩
        simp [History.curveViews, ← htoken, ← hsupply, ← hthreshold, Except.toOption]
      · replace hthreshold := hthreshold.resolve_right fun hc => by simp at hc
        refine ⟨h₃, Or.inl ?_⟩
        simp [History.curveViews, ← htoken, ← hsupply, ← hthreshold, Except.toOption]

/-- A text is as the history has it, or the one that stands for it. -/
theorem follow_text {target : EvmAddress} {view : ViewFn} {text : String} (h : Agrees w ρ) :
    FollowsFrom abi n rpc height s (orText text (callString abi target view)) (fun r w' =>
      Agrees w' ρ ∧ ∃ name, r = .ok name ∧ (name = n.text abi target view text ∨
        name = text ∧ n.Harmless abi ρ.store (.ethCall target view))) w := by
  refine wp_script_bind (wp_script_bind (wp_mono (fun r w₁ hr => ?_) (follow_callView h)))
  obtain ⟨h₁, hname⟩ := hr
  refine ⟨h₁, _, rfl, hname.imp (fun hname => ?_) fun hname => ?_⟩
  · rw [hname]
    rfl
  · obtain ⟨⟨e, rfl⟩, hharmless⟩ := hname
    exact ⟨rfl, hharmless⟩

theorem adopt_of_not_adopts (h : ¬ n.Adopts abi ρ.store l.address) :
    ρ.adopt abi n l = (ρ, false) := by
  unfold Replica.adopt
  split
  · rfl
  · rename_i row hoffer
    obtain ⟨⟨token, curveSupply, threshold⟩, hviews, hrow⟩ := Option.bind_eq_some_iff.mp hoffer
    unfold Replica.transact
    rcases hrun : (CbTxn.insertToken row).run ρ.store with e | ⟨a, s⟩
    · rfl
    · have hinsertable := insertToken_isOk.mp ⟨a, s, hrun⟩
      rw [← Option.some.inj hrow] at hinsertable
      exact absurd ⟨token, curveSupply, threshold, hviews, hinsertable⟩ h

/-- **A probe comes to what it would without failures.** -/
theorem follow_tryAdopt {toBlock : Int} (hto : toBlock ≤ i64Max)
    (hl : History.InRange (height + 1) toBlock l) (h : Agrees w ρ) :
    FollowsFrom abi n rpc height s (tryAdopt abi l.address (asI64 (l.blockNumber.getD 0))
        ((l.transactionHash.map fun h => hex0x h.toList).getD ""))
      (fun r w' => Agrees w' (ρ.adopt abi n l).1 ∧ (r = .ok true ↔ (ρ.adopt abi n l).2 = true))
      w := by
  unfold tryAdopt
  refine wp_scriptE_bind (wp_mono (fun r w₁ hr => ?_) (follow_curveViews h))
  obtain ⟨h₁, hviews⟩ := hr
  by_cases hnone : r = .ok none
  · -- No views, so no row is offered, or nothing comes of it.
    subst hnone
    have hturned : ρ.adopt abi n l = (ρ, false) := by
      rcases hviews with hviews | ⟨-, hnot⟩
      · unfold Replica.adopt History.offer
        rw [← Except.ok.inj hviews]
        rfl
      · exact adopt_of_not_adopts hnot
    rw [hturned]
    exact ⟨h₁, by simp⟩
  · replace hviews := hviews.resolve_right fun hc => hnone hc.1
    subst hviews
    rcases hfound : n.curveViews abi l.address with _ | ⟨token, curveSupply, threshold⟩
    · exact absurd (congrArg Except.ok hfound) hnone
    · refine wp_scriptE_bind (wp_mono (fun r w₂ hr => ?_) (follow_text h₁))
      obtain ⟨h₂, name, rfl, hname⟩ := hr
      refine wp_scriptE_bind (wp_mono (fun r w₃ hr => ?_) (follow_text h₂))
      obtain ⟨h₃, symbol, rfl, hsymbol⟩ := hr
      have hstands : ∀ {text found fixed : String}, ¬ HasNul text →
          (found = fixed ∨ found = text ∧ ¬ HasNul fixed) → (HasNul found ↔ HasNul fixed) := by
        rintro text found fixed htext (rfl | ⟨rfl, hfixed⟩)
        · exact Iff.rfl
        · exact iff_of_false htext hfixed
      have hadopt : ρ.adopt abi n l = ρ.transact (.insertToken {
          curveAddress := hexAddr l.address
          tokenAddress := hexAddr token
          ownerAddress := zeroAddr
          name := n.text abi token .name "Unknown"
          symbol := n.text abi token .symbol "???"
          curveSupply := curveSupply
          graduationThreshold := threshold
          createdBlock := asI64 (l.blockNumber.getD 0)
          createdTxHash := (l.transactionHash.map fun h => hex0x h.toList).getD "" }) := by
        unfold Replica.adopt History.offer
        rw [hfound]
        rfl
      have hinsert : FollowsFrom abi n rpc height s (cbTransact (.insertToken {
            curveAddress := hexAddr l.address
            tokenAddress := hexAddr token
            ownerAddress := zeroAddr
            name := name
            symbol := symbol
            curveSupply := curveSupply
            graduationThreshold := threshold
            createdBlock := asI64 (l.blockNumber.getD 0)
            createdTxHash := (l.transactionHash.map fun h => hex0x h.toList).getD "" }))
          (Mirror (ρ.adopt abi n l)) w₃ := by
        rw [hadopt]
        exact follow_insert (adoptedBlock_above hto hl) rfl
          (or_congr (hstands (by decide) hname) (hstands (by decide) hsymbol)) h₃
      refine wp_scriptE_bind (wp_mono (fun r w₄ hr => ?_) hinsert)
      obtain ⟨h₄, hdone⟩ := hr
      cases r with
      | ok u => exact ⟨h₄, by rw [← hdone]; simp [Except.isOk, Except.toBool]⟩
      | error e => exact ⟨h₄, by rw [← hdone]; simp [Except.isOk, Except.toBool]⟩

/-! ### The passes over the logs -/

theorem follow_isKnown {a : Address} (h : Agrees w ρ) :
    wp (harmlessHandle abi n rpc) (Beyond height s) Elsewhere (fun _ _ => True)
      (CbCall.isKnown a).ask.toProg
      (fun r w' => r = decide (a ∈ ρ.knownCurves) ∧ Agrees w' ρ) w := by
  refine follow_ask fun w₁ r w₂ hR hI hH => ?_
  have h₁ := h.elsewhere hR
  obtain ⟨⟨hr, rfl⟩, -⟩ := hH
  exact ⟨hI, by rw [hr, h₁.known], h₁⟩

theorem follow_isNonCurve {a : Address} (h : Agrees w ρ) :
    wp (harmlessHandle abi n rpc) (Beyond height s) Elsewhere (fun _ _ => True)
      (CbCall.isNonCurve a).ask.toProg
      (fun r w' => r = decide (a ∈ ρ.knownNonCurves) ∧ Agrees w' ρ) w := by
  refine follow_ask fun w₁ r w₂ hR hI hH => ?_
  have h₁ := h.elsewhere hR
  obtain ⟨⟨hr, rfl⟩, -⟩ := hH
  exact ⟨hI, by rw [hr, h₁.nonCurves], h₁⟩

theorem follow_insertKnown {a : Address} (h : Agrees w ρ) :
    wp (harmlessHandle abi n rpc) (Beyond height s) Elsewhere (fun _ _ => True)
      (CbCall.insertKnown a).ask.toProg (fun _ w' => Agrees w' (ρ.insertKnown a)) w := by
  refine follow_ask fun w₁ r w₂ hR hI hH => ?_
  have h₁ := h.elsewhere hR
  obtain ⟨rfl, -⟩ := hH
  exact ⟨⟨hI.same, hI.cursor⟩, h₁.store, congrArg (insertAddress · a) h₁.known, h₁.nonCurves⟩

theorem follow_turnAway {a : Address} (h : Agrees w ρ) :
    wp (harmlessHandle abi n rpc) (Beyond height s) Elsewhere (fun _ _ => True)
      (CbCall.cacheNonCurve a).ask.toProg (fun _ w' => Agrees w' (ρ.turnAway n a)) w := by
  refine follow_ask fun w₁ r w₂ hR hI hH => ?_
  have h₁ := h.elsewhere hR
  obtain ⟨⟨set, -, rfl⟩, hset⟩ := hH
  have hset : set = insertAddress (n.keep w₁.knownNonCurves) a := hset
  refine ⟨⟨hI.same, hI.cursor⟩, h₁.store, h₁.known, ?_⟩
  show set = insertAddress (n.keep ρ.knownNonCurves) a
  rw [hset, h₁.nonCurves]

/-- **Vetting.** -/
theorem follow_vetEmitter {toBlock : Int} (hto : toBlock ≤ i64Max)
    (hl : History.InRange (height + 1) toBlock l) (h : Agrees w ρ) :
    FollowsFrom abi n rpc height s (vetEmitter abi l)
      (fun r w' => Agrees w' (ρ.vet abi n l).1 ∧ r = .ok (ρ.vet abi n l).2) w := by
  refine wp_vet
    (K := fun w => Agrees w ρ ∧ hexAddr l.address ∉ ρ.knownCurves)
    (J := fun w => Agrees w ρ ∧ hexAddr l.address ∉ ρ.knownCurves ∧
      hexAddr l.address ∉ ρ.knownNonCurves)
    (wp_mono (fun known w₁ hr => ?_) (follow_isKnown h)) (fun w₁ h₁ => ?_) fun w₂ h₂ => ?_
  · obtain ⟨rfl, h₁⟩ := hr
    by_cases hknown : hexAddr l.address ∈ ρ.knownCurves
    · rw [if_pos (decide_eq_true hknown), Replica.vet, if_pos hknown]
      exact ⟨h₁, rfl⟩
    · rw [if_neg (by simpa using hknown)]
      exact ⟨h₁, hknown⟩
  · obtain ⟨h₁, hknown⟩ := h₁
    refine wp_mono (fun cached w₂ hr => ?_) (follow_isNonCurve h₁)
    obtain ⟨rfl, h₂⟩ := hr
    by_cases hcached : hexAddr l.address ∈ ρ.knownNonCurves
    · rw [if_pos (decide_eq_true hcached), Replica.vet, if_neg hknown, if_pos hcached]
      exact ⟨h₂, rfl⟩
    · rw [if_neg (by simpa using hcached)]
      exact ⟨h₂, hknown, hcached⟩
  · obtain ⟨h₂, hknown, hcached⟩ := h₂
    refine wp_mono (fun r w₃ hr => ?_) (follow_tryAdopt hto hl h₂)
    obtain ⟨h₃, hadopted⟩ := hr
    rcases hadopt : ρ.adopt abi n l with ⟨ρ', adopted⟩
    rw [hadopt] at h₃ hadopted
    by_cases hr : r = .ok true
    · obtain rfl : adopted = true := hadopted.mp hr
      have hvet : ρ.vet abi n l = (ρ'.insertKnown (hexAddr l.address), true) := by
        rw [Replica.vet, if_neg hknown, if_neg hcached, hadopt]
      rw [if_pos hr, hvet]
      exact wp_mono (fun _ _ h => ⟨h, rfl⟩) (follow_insertKnown h₃)
    · obtain rfl : adopted = false := by
        rw [← Bool.not_eq_true]
        exact fun hd => hr (hadopted.mpr hd)
      have hvet : ρ.vet abi n l = (ρ'.turnAway n (hexAddr l.address), false) := by
        rw [Replica.vet, if_neg hknown, if_neg hcached, hadopt]
      rw [if_neg hr, hvet]
      exact wp_mono (fun _ _ h => ⟨h, rfl⟩) (follow_turnAway h₃)

/-- **One curve event.** -/
theorem follow_curveLog {toBlock : Int} (hto : toBlock ≤ i64Max)
    (hl : History.InRange (height + 1) toBlock l) (h : Agrees w ρ) :
    FollowsFrom abi n rpc height s (curveLog abi l) (Mirror (ρ.take abi n l)) w := by
  unfold curveLog Replica.take
  rcases l.topics.head? with _ | t0
  · exact ⟨h, rfl⟩
  · by_cases ht0 : abi.IsCurveTopic t0
    · simp only [ht0, if_true]
      refine wp_scriptE_bind (wp_mono (fun r w₁ hr => ?_) (follow_vetEmitter hto hl h))
      obtain ⟨h₁, rfl⟩ := hr
      generalize ρ.vet abi n l = x at h₁ ⊢
      obtain ⟨ρ', letIn⟩ := x
      cases letIn with
      | false => exact ⟨h₁, rfl⟩
      | true =>
          refine wp_dispatch ht0 (fun t ht => ?_) fun e he => ?_
          · rw [ht]
            refine wp_mono (fun r w₂ hr => ⟨hr.1, ?_⟩) (follow_transact (curveTxn_above hl ht)
              (curveTxn_cursor ht).1 (curveTxn_cursor ht).2 h₁)
            rw [← hr.2]
            cases r <;> rfl
          · rw [he]
            exact ⟨h₁, rfl⟩
    · simp only [ht0, if_false]
      exact ⟨h, rfl⟩

/-- **Pass 2.** -/
theorem follow_passTwo {toBlock : Int} (hto : toBlock ≤ i64Max) {logs : List RpcLog}
    (hlogs : ∀ l ∈ logs, History.InRange (height + 1) toBlock l) :
    ∀ {w : CbWorld χ} {ρ : Replica}, Agrees w ρ →
      FollowsFrom abi n rpc height s (passTwo abi logs)
        (Mirror (ρ.walk (Replica.take abi n) logs)) w := by
  induction logs with
  | nil => exact fun h => ⟨h, rfl⟩
  | cons l rest ih =>
      intro w ρ h
      have hl := hlogs l (List.mem_cons_self ..)
      refine wp_scriptE_bind (wp_mono (fun r w₁ hr => ?_) (follow_curveLog hto hl h))
      unfold Replica.walk
      generalize ρ.take abi n l = x at hr ⊢
      obtain ⟨ρ', done⟩ := x
      obtain ⟨h₁, hdone⟩ := hr
      cases r with
      | ok u =>
          obtain rfl : true = done := hdone
          exact ih (fun l hl => hlogs l (List.mem_cons_of_mem _ hl)) h₁
      | error e =>
          obtain rfl : false = done := hdone
          exact ⟨h₁, rfl⟩

/-- **Pass 1.** -/
theorem follow_passOne {toBlock : Int} {logs : List RpcLog}
    (hlogs : ∀ l ∈ logs, History.InRange (height + 1) toBlock l) :
    ∀ {w : CbWorld χ} {ρ : Replica}, Agrees w ρ →
      FollowsFrom abi n rpc height s (passOne abi logs)
        (Mirror (ρ.walk (Replica.create abi) logs)) w := by
  induction logs with
  | nil => exact fun h => ⟨h, rfl⟩
  | cons l rest ih =>
      intro w ρ h
      have hrest : ∀ l ∈ rest, History.InRange (height + 1) toBlock l :=
        fun l hl => hlogs l (List.mem_cons_of_mem _ hl)
      unfold passOne Replica.walk Replica.create
      by_cases htopic : l.topics.head? = some abi.curveCreatedHash
      · simp only [htopic, if_true]
        refine wp_scriptE_bind (wp_computed (fun row hrow => ?_) fun e he => ?_)
        · obtain ⟨m, hm, hfrom, -⟩ := hlogs l (List.mem_cons_self ..)
          obtain ⟨k, hk, hblock⟩ := curveCreatedRow_place hrow
          obtain rfl := Option.some.inj (hm.symm.trans hk)
          have habove : height < row.createdBlock := by omega
          refine wp_mono (fun r w₁ hr => ?_) (follow_insert habove rfl Iff.rfl h)
          rw [hrow]
          simp only
          generalize ρ.transact (.insertToken row) = x at hr ⊢
          obtain ⟨ρ', done⟩ := x
          obtain ⟨h₁, hdone⟩ := hr
          cases r with
          | ok u =>
              obtain rfl : true = done := hdone
              exact wp_liftAsk (wp_mono (fun _ w₂ h₂ => ih hrest h₂) (follow_insertKnown h₁))
          | error e =>
              obtain rfl : false = done := hdone
              exact ⟨h₁, rfl⟩
        · rw [he]
          exact ⟨h, rfl⟩
      · simp only [htopic, if_false]
        exact ih hrest h

/-! ### The loop -/

theorem Agrees.cursor_eq (h : Agrees w ρ) : w.store.cursor = ρ.store.cursor := by
  rw [← cursor_unnamed (s := w.store), h.store, cursor_unnamed]

theorem Agrees.beyond (h : Agrees w ρ) (height : Int) : Beyond height ρ.store w :=
  ⟨.of_unnamed h.store, h.cursor_eq⟩

/-- The logs of a range are those of the history, if they come. -/
theorem follow_logsInRange {fromBlock toBlock : Int} {address : Option EvmAddress}
    (h : Agrees w ρ) :
    FollowsFrom abi n rpc height s (cbRetry (cbLogsInRange fromBlock toBlock address))
      (fun r w' => Agrees w' ρ ∧ ∀ logs, r = .ok logs →
        logs = n.logsIn fromBlock toBlock address ∧ ¬ toBlock < fromBlock) w := by
  refine wp_cbRetry_each (J := fun w => Agrees w ρ) (fun w h => ?_)
    (fun nanos w h => follow_lookup (c := .sleep nanos) trivial h) h
  by_cases hrange : toBlock < fromBlock
  · rw [cbLogsInRange, logsInRange, if_pos hrange]
    exact ⟨fun _ _ => h, h, fun logs hr => by simp [Except.mapError] at hr⟩
  · refine wp_cbLogsInRange (fun msg => ⟨fun _ _ => h, h, fun logs hr => by
      simp [Except.mapError] at hr⟩) (follow_ask fun w₁ r w₂ hR hI hH => ?_)
    have hw := elsewhere_of_lookup (c := .chain (.getLogs fromBlock toBlock address)) trivial hH.1
    have h₂ := h.elsewhere (hR.trans hw)
    have hanswer : r = .ok (n.logsIn fromBlock toBlock address) ∨
        ∃ e, True ∧ r = .error e := hH.2
    refine ⟨hI.elsewhere hw, fun _ _ => h₂, h₂, fun logs hr => ⟨?_, hrange⟩⟩
    rcases hanswer with rfl | ⟨e, -, rfl⟩
    · exact (Except.ok.inj hr).symm
    · simp [Except.mapError] at hr

/-- So is the tip. -/
theorem follow_tip (h : Agrees w ρ) :
    FollowsFrom abi n rpc height s (cbRetry (CbCall.chain .blockNumber).ask)
      (fun r w' => Agrees w' ρ ∧ ∀ tip, r = .ok tip → tip = n.tipAt ρ.store.cursor) w := by
  refine wp_cbRetry_each (J := fun w => Agrees w ρ) (fun w h => ?_)
    (fun nanos w h => follow_lookup (c := .sleep nanos) trivial h) h
  refine follow_ask fun w₁ r w₂ hR hI hH => ?_
  have hw := elsewhere_of_lookup (c := .chain .blockNumber) trivial hH.1
  have h₁ := h.elsewhere hR
  have hanswer : r = .ok (n.tipAt w₁.store.cursor) ∨ ∃ e, True ∧ r = .error e := hH.2
  rw [h₁.cursor_eq] at hanswer
  refine ⟨hI.elsewhere hw, fun _ _ => h₁.elsewhere hw, h₁.elsewhere hw, fun tip hr => ?_⟩
  rcases hanswer with rfl | ⟨e, -, rfl⟩
  · exact (Except.ok.inj hr).symm
  · simp [Except.mapError] at hr

theorem follow_readCursor {network : Network} (h : Agrees w ρ) :
    FollowsFrom abi n rpc height s (readCoinblastCursor network)
      (fun r w' => r = .ok (ρ.store.readCursor network) ∧ Agrees w' ρ) w := by
  refine wp_scriptE_bind (follow_ask fun w₁ r w₂ hR hI hH => ?_)
  have h₁ := h.elsewhere hR
  obtain ⟨⟨rfl, hr⟩, cursor, hok⟩ := hH
  have hcursor : r = .ok w₂.store.cursor := hr.resolve_right fun ⟨e, he⟩ => by
    rw [hok] at he
    exact absurd he (by simp)
  rw [hcursor]
  refine ⟨hI, ?_, h₁⟩
  rw [h₁.cursor_eq]
  rfl

/-- **A chunk comes to what it would without failures**, or it is broken off: before anything
is done, or after pass 1. -/
theorem follow_runChunk {factory : EvmAddress} {toBlock : Int} (hto : toBlock ≤ i64Max)
    (h : Agrees w ρ) :
    FollowsFrom abi n rpc height s (runChunk abi (height + 1) toBlock factory) (fun r w' =>
      ∃ ρ', Agrees w' ρ' ∧ (r = .ok () ∧ ρ.chunk abi n factory (height + 1) toBlock = (ρ', true) ∨
        (∃ e, r = .error e) ∧ (ρ' = ρ ∨
          ¬ toBlock < height + 1 ∧ ρ.walk (Replica.create abi)
            (n.logsIn (height + 1) toBlock (some factory)) = (ρ', true) ∨
          ρ.chunk abi n factory (height + 1) toBlock = (ρ', false)))) w := by
  unfold runChunk
  refine wp_scriptE_bind (wp_mono (fun r w₁ hr => ?_) (follow_logsInRange h))
  obtain ⟨h₁, hfactory⟩ := hr
  rcases r with e | factoryLogs
  · exact ⟨ρ, h₁, Or.inr ⟨⟨e, rfl⟩, Or.inl rfl⟩⟩
  · obtain ⟨rfl, hrange⟩ := hfactory _ rfl
    refine wp_scriptE_bind (wp_mono (fun r w₂ hr => ?_)
      (follow_passOne (fun l hl => mem_logsIn hl) h₁))
    unfold Replica.chunk
    rw [if_neg hrange]
    generalize ρ.walk (Replica.create abi) (n.logsIn (height + 1) toBlock (some factory)) = x
      at hr ⊢
    obtain ⟨ρ₁, done⟩ := x
    obtain ⟨h₂, hdone⟩ := hr
    cases r with
    | error e =>
        obtain rfl : false = done := hdone
        exact ⟨ρ₁, h₂, Or.inr ⟨⟨e, rfl⟩, Or.inr (Or.inr rfl)⟩⟩
    | ok u =>
        obtain rfl : true = done := hdone
        refine wp_scriptE_bind (wp_mono (fun r w₃ hr => ?_) (follow_logsInRange h₂))
        obtain ⟨h₃, hcurve⟩ := hr
        rcases r with e | curveLogs
        · exact ⟨ρ₁, h₃, Or.inr ⟨⟨e, rfl⟩, Or.inr (Or.inl ⟨hrange, rfl⟩)⟩⟩
        · obtain ⟨rfl, -⟩ := hcurve _ rfl
          refine wp_mono (fun r w₄ hr => ?_) (follow_passTwo hto (fun l hl => mem_logsIn hl) h₃)
          obtain ⟨h₄, hdone⟩ := hr
          refine ⟨_, h₄, ?_⟩
          cases r with
          | ok u =>
              exact Or.inl ⟨rfl, Prod.ext rfl hdone.symm⟩
          | error e =>
              exact Or.inr ⟨⟨e, rfl⟩, Or.inr (Or.inr (Prod.ext rfl hdone.symm))⟩

/-- The store of the state is that of a pass, up to names and what is above its cursor. -/
def AtPass (abi : Abi) (cfg : WorkerConfig) (n : History) (ρ : Replica) (w : CbWorld χ) : Prop :=
  ∃ k, Beyond ((ρ.passes abi cfg n k).cursor cfg) (ρ.passes abi cfg n k).store w

/-- The state at the top of the loop. -/
def Passing (abi : Abi) (cfg : WorkerConfig) (n : History) (ρ : Replica) (w : CbWorld χ) : Prop :=
  ∃ k ρ', Resumes abi cfg n (ρ.passes abi cfg n k) ρ' ∧ Agrees w ρ'

variable {ρ₀ : Replica}

theorem AtPass.elsewhere (h : AtPass abi cfg n ρ₀ w) (hw : Elsewhere w w') :
    AtPass abi cfg n ρ₀ w' := h.imp fun _ h => h.elsewhere hw

theorem Passing.elsewhere (h : Passing abi cfg n ρ₀ w) (hw : Elsewhere w w') :
    Passing abi cfg n ρ₀ w' := by
  obtain ⟨k, ρ', hresumes, h⟩ := h
  exact ⟨k, ρ', hresumes, h.elsewhere hw⟩

/-- What is verified for a pass is a part of the run. -/
theorem during_pass {k : Nat} (hresumes : Resumes abi cfg n (ρ₀.passes abi cfg n k) ρ)
    (h : Agrees w ρ) {p : Prog CbSig α} {Q : α → CbWorld χ → Prop}
    (hp : wp (harmlessHandle abi n rpc) (Beyond (ρ.cursor cfg) ρ.store) Elsewhere
      (fun _ _ => True) p Q w) :
    wp (harmlessHandle abi n rpc) (AtPass abi cfg n ρ₀) Elsewhere (fun _ _ => True) p Q w := by
  refine wp_inv_mono (fun w hw => ⟨k, ?_⟩) (fun w w' hw hR => hw.elsewhere hR)
    (h.beyond (ρ.cursor cfg)) hp
  rw [hresumes.cursor_eq] at hw
  exact ⟨hw.same.trans hresumes.upward.same, hw.cursor.trans hresumes.upward.cursor⟩

theorem passing_idle {nanos : Nat} (h : Passing abi cfg n ρ₀ w) :
    wp (harmlessHandle abi n rpc) (AtPass abi cfg n ρ₀) Elsewhere (fun _ _ => True)
      (Script.toProgE (idle nanos)).run (fun _ w' => Passing abi cfg n ρ₀ w') w := by
  obtain ⟨k, ρ, hresumes, h⟩ := h
  refine during_pass hresumes h (wp_liftAsk (wp_mono (fun cancelled w₁ h₁ => ?_)
    (follow_lookup (c := .sleepOrCancel nanos) trivial h)))
  cases cancelled with
  | true => exact ⟨k, ρ, hresumes, h₁⟩
  | false => exact ⟨k, ρ, hresumes, h₁⟩

/-- **The cursor moves** to the end of a chunk that has gone through: the pass is over. -/
theorem passing_setCursor {k : Nat} {ρ' : Replica}
    (hnext : ρ₀.passes abi cfg n (k + 1) = (ρ'.transact (.setCursor height)).1) (h : Agrees w ρ') :
    wp (harmlessHandle abi n rpc) (AtPass abi cfg n ρ₀) Elsewhere (fun _ _ => True)
      (Script.toProgE (cbTransact (.setCursor height))).run
      (fun r w' => r = .ok () ∧ Passing abi cfg n ρ₀ w') w := by
  intro w₁ hR hI r w₂ hH
  have h₁ := h.elsewhere hR
  obtain ⟨hH, hr⟩ := hH
  obtain rfl : r = .ok () := hr
  have h₂ : Agrees w₂ (ρ₀.passes abi cfg n (k + 1)) := by
    rcases hH with ⟨u, s, hrun, -, rfl⟩ | ⟨⟨e, he⟩, -⟩
    · obtain ⟨s', hrun', hsame⟩ := run_ok_of_unnamed (by simp) h₁.store hrun
      rw [hnext, Replica.transact, hrun']
      exact ⟨hsame, h₁.known, h₁.nonCurves⟩
    · exact absurd he (by simp)
  exact ⟨⟨k + 1, h₂.beyond _⟩, trivial, rfl, k + 1, _, .refl _, h₂⟩

/-- **One pass of the loop.** -/
theorem passing_workerPass (h : Passing abi cfg n ρ₀ w) :
    wp (harmlessHandle abi n rpc) (AtPass abi cfg n ρ₀) Elsewhere (fun _ _ => True)
      (Script.toProgE (workerPass abi cfg)).run (fun _ w' => Passing abi cfg n ρ₀ w') w := by
  obtain ⟨k, ρ, hresumes, h⟩ := h
  unfold workerPass
  refine wp_liftAsk (wp_mono (fun cancelled w₁ h₁ => ?_)
    (during_pass hresumes h (follow_lookup (c := .isCancelled) trivial h)))
  cases cancelled with
  | true => exact ⟨k, ρ, hresumes, h₁⟩
  | false =>
      refine wp_scriptE_bind (wp_mono (fun r w₂ hr => ?_)
        (during_pass hresumes h₁ (follow_readCursor h₁)))
      obtain ⟨rfl, h₂⟩ := hr
      refine wp_scriptE_bind (wp_mono (fun r w₃ hr => ?_)
        (during_pass hresumes h₂ (follow_tip h₂)))
      obtain ⟨h₃, htip⟩ := hr
      rcases r with e | tip
      · exact ⟨k, ρ, hresumes, h₃⟩
      · obtain rfl := htip tip rfl
        show wp _ _ _ _ (Script.toProgE (if ρ.target cfg n ≤ ρ.cursor cfg then _ else _)).run _ _
        by_cases hidle : ρ.target cfg n ≤ ρ.cursor cfg
        · rw [if_pos hidle]
          exact passing_idle ⟨k, ρ, hresumes, h₃⟩
        · rw [if_neg hidle]
          refine wp_liftRun (wp_mono (fun r w₄ hr => ?_) (during_pass hresumes h₃
            (follow_runChunk (chunkEnd_le _ _) h₃)))
          obtain ⟨ρ', h₄, hr⟩ := hr
          have hnext : ρ₀.passes abi cfg n (k + 1) = ρ.pass abi cfg n := hresumes.pass_eq.symm
          rcases hr with ⟨rfl, hdone⟩ | ⟨⟨e, rfl⟩, rfl | ⟨hrange, hcreated⟩ | hfailed⟩
          · -- The chunk has gone through.
            refine wp_scriptE_bind (wp_mono (fun r w₅ hr => ?_)
              (passing_setCursor (hnext.trans (pass_of_done hidle hdone)) h₄))
            obtain ⟨rfl, h₅⟩ := hr
            exact passing_idle h₅
          · exact passing_idle ⟨k, ρ', hresumes, h₄⟩
          · exact passing_idle ⟨k, ρ', hresumes.trans (.of_passOne hidle hrange hcreated), h₄⟩
          · -- The chunk cannot go through.
            refine passing_idle ⟨k + 1, ρ', ?_, h₄⟩
            rw [hnext, pass_of_failed hidle hfailed]
            exact .refl _

/-! ### Runs -/

/-- The sets the worker starts with are those of the replica. -/
theorem agrees_hydrate (chain : χ) (s : CbStore) :
    wp (harmlessHandle abi n rpc) (AtPass abi cfg n (Replica.boot s)) Elsewhere (fun _ _ => True)
      (Script.toProgE hydrateKnownCurves).run
      (fun r w' => r = .ok () ∧ Passing abi cfg n (Replica.boot s) w') (.init chain s) := by
  have hbeyond : ∀ {w : CbWorld χ}, w.store = s → AtPass abi cfg n (Replica.boot s) w := by
    rintro w rfl
    exact ⟨0, .refl _ _, rfl⟩
  refine wp_scriptE_bind ?_
  intro w₁ hR hI r w₂ hH
  obtain ⟨⟨rfl, hr⟩, curves, hok⟩ := hH
  have hcurves : r = .ok (CbTokens.knownCurveAddresses w₂.store) := hr.resolve_right fun ⟨e, he⟩ => by
    rw [hok] at he
    exact absurd he (by simp)
  refine ⟨hI, trivial, ?_⟩
  rw [hcurves]
  refine wp_liftAsk ?_
  intro w₃ hR₃ hI₃ r₃ w₄ hH
  obtain ⟨rfl, -⟩ := hH
  have hstore : w₃.store = s := hR₃.store.trans hR.store
  refine ⟨hbeyond hstore, trivial, rfl, 0, Replica.boot s, .refl _, ?_⟩
  rw [hR.store]
  exact ⟨congrArg CbStore.unnamed hstore, rfl, rfl⟩

/-- What a run over the history may have stored, if it starts over the store `s` and the calls to
the nodes may fail as `Fails` allows. -/
def History.Stores (n : History) (abi : Abi) (cfg : WorkerConfig)
    (Fails : CbStore → CbChainCall → ChainError → Prop) (s s' : CbStore) : Prop :=
  ∃ (χ : Type) (rpc : CbRpc χ) (chain : χ) (w : CbWorld χ) (p : Prog CbSig (Except CbError Unit)),
    Steps ((n.handler Fails rpc).under Elsewhere) (.init chain s) (runCoinblastWorker abi cfg).run
      w p ∧ w.store = s'

/-- **What a run has stored**, up to the cursor it has stored, is what some number of passes
without failures comes to. -/
theorem stores_pass {s s' : CbStore} (h : n.Stores abi cfg (fun s c _ => n.Harmless abi s c) s s') :
    ∃ k, s'.cursor = ((Replica.boot s).passes abi cfg n k).store.cursor ∧
      SameUpTo (s'.readCursor cfg.network) s' ((Replica.boot s).passes abi cfg n k).store := by
  obtain ⟨χ, rpc, chain, w, p, hsteps, rfl⟩ := h
  have hrun : wp (harmlessHandle abi n rpc) (AtPass abi cfg n (Replica.boot s)) Elsewhere
      (fun _ _ => True) (runCoinblastWorker abi cfg).run (fun _ _ => True) (.init chain s) := by
    refine wp_bindE (wp_mono (fun r w₁ hr => ?_) (agrees_hydrate chain s))
    obtain ⟨rfl, hpassing⟩ := hr
    refine wp_iterateE (fun _ w => Passing abi cfg n (Replica.boot s) w)
      (fun _ _ _ h hR _ => h.elsewhere hR) hpassing fun _ w _ h =>
        wp_mono (fun r w' hw' => ?_) (passing_workerPass h)
    rcases r with e | u | u
    · trivial
    · exact hw'
    · trivial
  obtain ⟨⟨k, hsame, hcursor⟩, -⟩ := wp_steps_under (fun _ _ hI hR => hI.elsewhere hR) hsteps
    ⟨0, .refl _ _, rfl⟩ hrun
  refine ⟨k, hcursor, ?_⟩
  rw [CbStore.readCursor, hcursor]
  exact hsame

/-- **Harmless failures lose nothing**: two runs over one history that have come to the same
cursor hold the same trades and the same curves up to it. -/
theorem harmless_failures_lose_nothing {s s₁ s₂ : CbStore}
    (h₁ : n.Stores abi cfg (fun s c _ => n.Harmless abi s c) s s₁)
    (h₂ : n.Stores abi cfg (fun s c _ => n.Harmless abi s c) s s₂)
    (hcursor : s₁.cursor = s₂.cursor) : SameUpTo (s₁.readCursor cfg.network) s₁ s₂ := by
  obtain ⟨i, hi, hsame₁⟩ := stores_pass h₁
  obtain ⟨j, hj, hsame₂⟩ := stores_pass h₂
  have hread : ∀ {s s' : CbStore}, s.cursor = s'.cursor →
      s.readCursor cfg.network = s'.readCursor cfg.network := by
    intro s s' h
    rw [CbStore.readCursor, h]
    rfl
  rw [← hread hcursor] at hsame₂
  refine hsame₁.trans (SameUpTo.trans ?_ hsame₂.symm)
  rcases Nat.le_total i j with hle | hle
  · rw [hread hi]
    exact (passes_sameUpTo hle).2.symm
  · rw [hread (hcursor.trans hj)]
    exact (passes_sameUpTo hle).2

/-! ### Failed probes -/

namespace CbChain

theorem history_answer (n : CbChain) (s : CbStore) (c : CbChainCall) :
    n.history.answer s c = n.answer c := by
  rcases c with _ | ⟨fromBlock, toBlock, address⟩ | ⟨target, view⟩
  · rfl
  · have hkeep : ∀ l, decide (History.InRange fromBlock toBlock l) = inRange fromBlock toBlock l :=
      fun l => by rw [Bool.eq_iff_iff, decide_eq_true_eq, inRange_iff]
    simp only [History.answer, History.logsIn, answer, hkeep, history]
  · rfl

/-- The call is answered as the chain has it, or it fails. -/
def MayAnswer (n : CbChain) (Fails : CbStore → CbChainCall → ChainError → Prop) (s : CbStore)
    (c : CbChainCall) (r : c.Answer) : Prop :=
  r = n.answer c ∨ ∃ e, Fails s c e ∧ r = c.failed e

/-- The single answers of nodes of the chain are those of a run over its history. -/
theorem answers_cbServe {χ : Type} {n : CbChain} {respond : Server CbChainSig χ}
    {Fails : CbStore → CbChainCall → ChainError → Prop} {keep : List Address → List Address}
    {w w' : CbWorld χ} (h : ∀ c, n.MayAnswer Fails w.store c (respond w.chain c).1) (c : CbCall)
    (hc : ∀ a, c ≠ .cacheNonCurve a) :
    History.Answers { n.history with keep := keep } Fails w c (cbServe respond w c).1 w' := by
  cases c with
  | chain c =>
      show _ = n.history.answer w.store c ∨ _
      rw [history_answer]
      exact h c
  | knownCurveAddresses => exact ⟨_, rfl⟩
  | readCursor => exact ⟨_, rfl⟩
  | transact t =>
      show (cbServe respond w (.transact t)).1 = _
      rcases ht : t.run w.store with e | ⟨a, s⟩
      · simp only [cbServe, ht]
        rfl
      · simp only [cbServe, ht]
        rfl
  | cacheNonCurve a => exact absurd rfl (hc a)
  | _ => exact trivial

/-- Nodes of the chain that may fail to answer. -/
def RespondsWith {χ : Type} (n : CbChain) (respond : Server CbChainSig χ)
    (Fails : CbStore → CbChainCall → ChainError → Prop) : Prop :=
  ∀ s chain c, n.MayAnswer Fails s c (respond chain c).1

/-- The worker over nodes of the chain. -/
theorem stores_mainnetSteps {χ : Type} {n : CbChain} {respond : Server CbChainSig χ}
    {Fails : CbStore → CbChainCall → ChainError → Prop} (h : n.RespondsWith respond Fails) (k : Nat)
    (chain : χ) : n.history.Stores wordAbi mainnetConfig Fails .empty
      (mainnetSteps respond k chain).1.store := by
  refine ⟨χ, respond.toHandler, chain, _, _, advanceN_steps (fun w c => ?_) k _ _, rfl⟩
  refine ⟨w, .refl w, cbHandle_cbServe (fun _ _ => rfl) w c, ?_⟩
  by_cases hc : ∃ a, c = .cacheNonCurve a
  · obtain ⟨a, rfl⟩ := hc
    exact rfl
  · exact answers_cbServe (h w.store w.chain) c fun a ha => hc ⟨a, ha⟩

theorem respondsWith_respond (n : CbChain) :
    n.RespondsWith n.respond fun _ _ e => e.isTransient = true := by
  intro s outages c
  unfold respond
  by_cases hout : outages.head? = some true
  · rw [if_pos hout]
    refine Or.inr ⟨.rpc "connection reset", rfl, ?_⟩
    cases c <;> rfl
  · rw [if_neg hout]
    exact Or.inl rfl

end CbChain

/-- Nodes that fail requests of the tip only. -/
def tipOutages (n : CbChain) : Server CbChainSig Outages := fun outages c =>
  match c with
  | .blockNumber => n.respond outages .blockNumber
  | c => (n.answer c, outages)

theorem respondsWith_tipOutages (n : CbChain) :
    n.RespondsWith (tipOutages n) fun s c _ => n.history.Harmless wordAbi s c := by
  intro s outages c
  cases c with
  | blockNumber =>
      exact (n.respondsWith_respond s outages .blockNumber).imp_right fun ⟨e, _, he⟩ => ⟨e, trivial, he⟩
  | getLogs fromBlock toBlock address => exact Or.inl rfl
  | ethCall target view => exact Or.inl rfl

/-- A run in which the first request of the tip fails, and one in which it does not. -/
theorem harmless_failures_lose_nothing_tip :
    SameUpTo 1178695 (mainnetSteps (tipOutages oneBuy) 21 [true]).1.store
      (mainnetSteps (tipOutages oneBuy) 19 []).1.store := by
  have hcursor : (mainnetSteps (tipOutages oneBuy) 21 [true]).1.store.cursor = some 1178695 := by
    decide +kernel
  have hcursor' : (mainnetSteps (tipOutages oneBuy) 19 []).1.store.cursor = some 1178695 := by
    decide +kernel
  have hsame := harmless_failures_lose_nothing
    (CbChain.stores_mainnetSteps (respondsWith_tipOutages oneBuy) 21 [true])
    (CbChain.stores_mainnetSteps (respondsWith_tipOutages oneBuy) 19 [])
    (hcursor.trans hcursor'.symm)
  rw [CbStore.readCursor, hcursor] at hsame
  exact hsame

/-- **A failed probe loses trades**: if `token()` fails once on a curve, the cursor passes its
buy, which a run without failures stores. -/
theorem failed_probe_loses_trade :
    ¬ ∀ s s₁ s₂ : CbStore,
      oneBuy.history.Stores wordAbi mainnetConfig (fun _ _ e => e.isTransient = true) s s₁ →
      oneBuy.history.Stores wordAbi mainnetConfig (fun _ _ e => e.isTransient = true) s s₂ →
      s₁.cursor = s₂.cursor → SameUpTo (s₁.readCursor .mainnet) s₁ s₂ := by
  intro h
  have hcursor : (mainnetSteps oneBuy.respond 19 []).1.store.cursor = some 1178695 := by
    decide +kernel
  have hcursor' : (mainnetSteps oneBuy.respond 13 [false, false, false, true]).1.store.cursor =
      some 1178695 := by decide +kernel
  have hsame := h .empty _ _ (CbChain.stores_mainnetSteps oneBuy.respondsWith_respond 19 [])
    (CbChain.stores_mainnetSteps oneBuy.respondsWith_respond 13 [false, false, false, true])
    (hcursor.trans hcursor'.symm)
  rw [CbStore.readCursor, hcursor] at hsame
  have hstored : ∃ t ∈ (mainnetSteps oneBuy.respond 19 []).1.store.trades.rows,
      t.blockNumber ≤ 1178695 := by
    have hany : ((mainnetSteps oneBuy.respond 19 []).1.store.trades.rows.any fun t =>
        decide (t.blockNumber ≤ 1178695)) = true := by decide +kernel
    simpa using hany
  have hnone : (mainnetSteps oneBuy.respond 13 [false, false, false, true]).1.store.trades.rows =
      [] := by
    have hempty : (mainnetSteps oneBuy.respond 13
        [false, false, false, true]).1.store.trades.rows.isEmpty = true := by decide +kernel
    simpa using hempty
  obtain ⟨t, ht, hle⟩ := hstored
  have hlost := (hsame.trades t (hle.trans (by decide))).mp ht
  rw [hnone] at hlost
  exact absurd hlost (by simp)

end SentrixIndexer
