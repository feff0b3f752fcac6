/-
The set of known curves and the table of curves.

Three paths fill the set, two fill the table.  The worker makes the set from the table when
it boots, and an adoption adds one address to both.  Pass 1 adds the created curve to the
table and the emitter of the log, which is the factory, to the set.  So the set mirrors the
table in the runs whose creations do no harm: the curve is the emitter itself, or both are
stored already.
-/
import SentrixIndexer.Coinblast.Nodes
import SentrixIndexer.Proofs.CurveStatements
import SentrixIndexer.Proofs.WorkerRules

namespace SentrixIndexer

open Effect Relational

variable {χ : Type} {abi : Abi} {cfg : WorkerConfig} {rpc : CbRpc χ} {moves : χ → χ → Prop}
variable {w w' : CbWorld χ} {α : Type}

/-! ### The condition -/

/-- The creation adds no address to the table or to the set alone. -/
def HarmlessCreation (s : CbStore) (l : RpcLog) (event : CurveCreated) : Prop :=
  event.curve = l.address ∨
    s.tokens.contains (hexAddr event.curve) = true ∧ s.tokens.contains (hexAddr l.address) = true

/-- The log, if it is a creation, is a harmless one. -/
def Harmless (abi : Abi) (s : CbStore) (l : RpcLog) : Prop :=
  l.topics.head? = some abi.curveCreatedHash →
    ∀ event, decodeLog abi.decodeCurveCreated l = .ok event → HarmlessCreation s l event

/-- The answers of a run in which the set mirrors the table: every creation delivered is
harmless, and an insert into `cb_tokens` that is answered by an error has not happened. -/
def MirroringAnswer (abi : Abi) (w : CbWorld χ) : (c : CbCall) → c.Answer → CbWorld χ → Prop
  | .chain (.getLogs _ _ (some _)), .ok logs, _ => ∀ l ∈ logs, Harmless abi w.store l
  | .transact (.insertToken _), .error _, w' => w'.store = w.store
  | _, _, _ => True

/-- The runs of the condition. -/
abbrev mirroring (abi : Abi) (cfg : WorkerConfig) (rpc : CbRpc χ) (moves : χ → χ → Prop) :
    System CbSig Unit (CbWorld χ) (Except CbError Unit) :=
  (coinblast abi cfg rpc moves).answering (MirroringAnswer abi)

/-- How the surroundings answer in these runs. -/
abbrev mirrorHandle (abi : Abi) (rpc : CbRpc χ) : Handler CbSig (CbWorld χ) :=
  fun w c r w' => cbHandle rpc w c r w' ∧ MirroringAnswer abi w c r w'

/-! ### The invariant -/

/-- The address is the lowercased address of a row. -/
def StoredCurve (s : CbStore) (a : Address) : Prop :=
  ∃ r ∈ s.tokens.rows, lowercase r.curveAddress = a

/-- The set mirrors the table. -/
def Mirrors (w : CbWorld χ) : Prop := ∀ a, a ∈ w.knownCurves ↔ StoredCurve w.store a

/-- The curves created in the chunk are known. -/
def CreatedKnown (w : CbWorld χ) : Prop := ∀ a ∈ w.record.created, a ∈ w.knownCurves

/-- What holds whatever the worker is doing. -/
structure CurvesKnown (w : CbWorld χ) : Prop where
  between : w.record.phase = .between → Mirrors w
  passTwo : w.record.phase = .passTwo → CreatedKnown w

/-- What holds wherever the worker is not between the two halves of a creation or adoption. -/
structure Mirrored (w : CbWorld χ) : Prop where
  mirrors : Mirrors w
  created : CreatedKnown w

/-- A row of the curve has been inserted, and its emitter is not known yet. -/
structure HalfDone (e : Address) (w : CbWorld χ) : Prop where
  mirrors : ∀ a, StoredCurve w.store a ↔ a ∈ w.knownCurves ∨ a = e
  created : ∀ a ∈ w.record.created, a ∈ w.knownCurves ∨ a = e

/-! ### Calls that touch neither the set nor the table -/

/-- Nothing the invariant speaks of has changed. -/
structure Same (w w' : CbWorld χ) : Prop where
  store : w'.store = w.store
  known : w'.knownCurves = w.knownCurves
  phase : w'.record.phase = w.record.phase
  created : w'.record.created = w.record.created

theorem Same.refl (w : CbWorld χ) : Same w w := ⟨rfl, rfl, rfl, rfl⟩

theorem Same.trans {w₁ w₂ w₃ : CbWorld χ} (h : Same w₁ w₂) (h' : Same w₂ w₃) : Same w₁ w₃ :=
  ⟨h'.store.trans h.store, h'.known.trans h.known, h'.phase.trans h.phase,
    h'.created.trans h.created⟩

theorem Mirrors.same (h : Mirrors w) (hs : Same w w') : Mirrors w' := by
  unfold Mirrors
  rw [hs.store, hs.known]
  exact h

theorem CreatedKnown.same (h : CreatedKnown w) (hs : Same w w') : CreatedKnown w' := by
  unfold CreatedKnown
  rw [hs.created, hs.known]
  exact h

theorem Mirrored.same (h : Mirrored w) (hs : Same w w') : Mirrored w' :=
  ⟨h.mirrors.same hs, h.created.same hs⟩

theorem CurvesKnown.same (h : CurvesKnown w) (hs : Same w w') : CurvesKnown w' :=
  ⟨fun hp => (h.between (hs.phase ▸ hp)).same hs, fun hp => (h.passTwo (hs.phase ▸ hp)).same hs⟩

theorem HalfDone.same {e : Address} (h : HalfDone e w) (hs : Same w w') : HalfDone e w' := by
  obtain ⟨hmirrors, hcreated⟩ := h
  constructor
  · rw [hs.store, hs.known]
    exact hmirrors
  · rw [hs.created, hs.known]
    exact hcreated

/-- The call changes nothing the invariant speaks of. -/
def CbCall.IsQuiet : CbCall → Prop
  | .chain (.getLogs _ _ _) => False
  | .transact _ => False
  | .initSets _ => False
  | .insertKnown _ => False
  | _ => True

theorem same_of_quiet {c : CbCall} (hc : c.IsQuiet) {r : c.Answer}
    (h : cbHandle rpc w c r w') : Same w w' := by
  cases cbHandle_step h with
  | stay => exact .refl _
  | @chain c answer chain' _ =>
      cases c with
      | blockNumber => cases answer <;> exact ⟨rfl, rfl, rfl, rfl⟩
      | getLogs fromBlock toBlock address => exact absurd hc fun h => h
      | ethCall target view => exact ⟨rfl, rfl, rfl, rfl⟩
  | transact _ _ => exact absurd hc fun h => h
  | initSets curves => exact absurd hc fun h => h
  | insertKnown a => exact absurd hc fun h => h
  | cacheNonCurve _ => exact ⟨rfl, rfl, rfl, rfl⟩

/-- What the script leaves, in the runs of the condition. -/
abbrev KeepsCurves (abi : Abi) (rpc : CbRpc χ) (p : CbScript α)
    (Q : Except CbError α → CbWorld χ → Prop) (w : CbWorld χ) : Prop :=
  wp (mirrorHandle abi rpc) CurvesKnown Same (fun _ _ => True) (Script.toProgE p).run Q w

/-- The answer to one call. -/
theorem keeps_ask {c : CbCall} {Q : c.Answer → CbWorld χ → Prop}
    (h : ∀ w₁ r w₂, Same w w₁ → CurvesKnown w₁ → cbHandle rpc w₁ c r w₂ →
      MirroringAnswer abi w₁ c r w₂ → CurvesKnown w₂ ∧ Q r w₂) :
    wp (mirrorHandle abi rpc) CurvesKnown Same (fun _ _ => True) c.ask.toProg Q w := by
  intro w₁ hR hI r w₂ hH
  obtain ⟨hI₂, hQ⟩ := h w₁ r w₂ hR hI hH.1 hH.2
  exact ⟨hI₂, trivial, hQ⟩

theorem keeps_quiet {c : CbCall} (hc : c.IsQuiet) :
    wp (mirrorHandle abi rpc) CurvesKnown Same (fun _ _ => True) c.ask.toProg
      (fun _ w' => Same w w') w := by
  refine keeps_ask fun w₁ r w₂ hR hI hH _ => ?_
  have hs := same_of_quiet hc hH
  exact ⟨hI.same hs, hR.trans hs⟩

/-! ### Calls that touch them -/

theorem storedCurve_of_contains {s : CbStore} {a : EvmAddress}
    (h : s.tokens.contains (hexAddr a) = true) : StoredCurve s (hexAddr a) := by
  obtain ⟨r, hr⟩ := Table.contains_iff.mp h
  obtain ⟨hmem, hkey⟩ := Table.find?_eq_some.mp hr
  exact ⟨r, hmem, by rw [hkey, lowercase_hexAddr]⟩

/-- The curves stored after an insert. -/
theorem storedCurve_insertNew {s : CbStore} {t : InsertCbToken} {e : EvmAddress}
    (ht : t.curveAddress = hexAddr e) (a : Address) :
    StoredCurve { s with tokens := s.tokens.insertNew t.row } a ↔
      StoredCurve s a ∨ a = hexAddr e := by
  by_cases hstored : s.tokens.contains t.row.curveAddress = true
  · rw [Table.insertNew_of_contains hstored]
    refine ⟨Or.inl, fun h => h.elim id fun ha => ?_⟩
    rw [ha]
    refine storedCurve_of_contains ?_
    rw [← ht]
    exact hstored
  · rw [Bool.not_eq_true] at hstored
    unfold StoredCurve
    simp only [Table.rows_insertNew hstored, List.mem_append, List.mem_singleton]
    constructor
    · rintro ⟨r, hr | rfl, ha⟩
      · exact Or.inl ⟨r, hr, ha⟩
      · refine Or.inr ?_
        rw [← ha, show t.row.curveAddress = t.curveAddress from rfl, ht, lowercase_hexAddr]
    · rintro (⟨r, hr, ha⟩ | rfl)
      · exact ⟨r, Or.inl hr, ha⟩
      · refine ⟨t.row, Or.inr rfl, ?_⟩
        rw [show t.row.curveAddress = t.curveAddress from rfl, ht, lowercase_hexAddr]

/-- An update keeps the curves that are stored. -/
theorem storedCurve_modify {s : CbStore} {curve : Address} {f : CbToken → CbToken}
    {hf : ∀ r, (f r).curveAddress = r.curveAddress} {trades : Table CbTrade.key} (a : Address) :
    StoredCurve { s with trades := trades, tokens := s.tokens.modify curve f hf } a ↔
      StoredCurve s a := by
  have hsame : ∀ r : CbToken, (if r.curveAddress = curve then f r else r).curveAddress =
      r.curveAddress := by
    intro r
    by_cases hr : r.curveAddress = curve
    · rw [if_pos hr, hf]
    · rw [if_neg hr]
  unfold StoredCurve
  constructor
  · rintro ⟨r', hr', ha⟩
    obtain ⟨r, hr, rfl⟩ := List.mem_map.mp hr'
    exact ⟨r, hr, by rw [← ha, hsame]⟩
  · rintro ⟨r, hr, ha⟩
    exact ⟨_, List.mem_map.mpr ⟨r, hr, rfl⟩, by rw [hsame, ha]⟩

/-- Only an insert changes which curves are stored. -/
theorem TxnEffect.storedCurve {s s' : CbStore} {t : CbTxn} (h : TxnEffect s t s')
    (ht : ∀ row, t ≠ .insertToken row) (a : Address) : StoredCurve s' a ↔ StoredCurve s a := by
  cases h with
  | token t => exact absurd rfl (ht t)
  | old htrade hstored => exact Iff.rfl
  | trade t srx lastPrice hnew => exact storedCurve_modify a
  | graduated t hnew => exact storedCurve_modify a
  | cursor height htokens htrades =>
      unfold StoredCurve
      rw [htokens]

/-- The worker is at rest in a pass of a chunk. -/
structure Resting (phase : ChunkPhase) (w : CbWorld χ) : Prop where
  mirrored : Mirrored w
  phase : w.record.phase = phase

theorem Resting.same {phase : ChunkPhase} (h : Resting phase w) (hs : Same w w') :
    Resting phase w' := ⟨h.mirrored.same hs, hs.phase.trans h.phase⟩

/-- Nothing is promised in pass 1. -/
theorem curvesKnown_passOne (h : w.record.phase = .passOne) : CurvesKnown w :=
  ⟨fun hp => by simp [h] at hp, fun hp => by simp [h] at hp⟩

theorem curvesKnown_passTwo (h : w.record.phase = .passTwo) (hcreated : CreatedKnown w) :
    CurvesKnown w :=
  ⟨fun hp => by simp [h] at hp, fun _ => hcreated⟩

/-- What an insert leaves: no trace, or the row of `e`, whose insert is still to be noted. -/
def InsertPost (phase : ChunkPhase) (s : CbStore) (e : Address) (w' : CbWorld χ) :
    Except CbError Unit → Prop
  | .ok _ => HalfDone e w' ∧ w'.record.phase = phase ∧
      ∀ a, s.tokens.contains a = true → w'.store.tokens.contains a = true
  | .error _ => Mirrored w'

/-- **The insert of a created curve.** -/
theorem keeps_insertCreated {row : InsertCbToken} {l : RpcLog} {event : CurveCreated}
    (hrow : row.curveAddress = hexAddr event.curve) (h : Resting .passOne w)
    (hharmless : HarmlessCreation w.store l event) :
    KeepsCurves abi rpc (cbTransact (.insertToken row))
      (fun r w' => InsertPost .passOne w.store (hexAddr l.address) w' r) w := by
  refine keeps_ask fun w₁ r w₂ hR hI hH hanswer => ?_
  have h₁ := h.same hR
  rcases hH with ⟨u, s, hrun, hr | ⟨e, he⟩, rfl⟩ | ⟨⟨e, he⟩, rfl⟩
  · subst hr
    have hphase : (w₁.record.noteTxn (.insertToken row) (.ok u)).phase = .passOne := by
      simp [CbRecord.noteTxn, h₁.phase]
    refine ⟨curvesKnown_passOne hphase, ⟨?_, ?_⟩, hphase, ?_⟩
    · intro a
      show StoredCurve s a ↔ a ∈ w₁.knownCurves ∨ a = hexAddr l.address
      rw [insertToken_ok hrun, storedCurve_insertNew hrow, ← h₁.mirrored.mirrors a]
      rcases hharmless with hself | ⟨hcurve, hemitter⟩
      · rw [hself]
      · -- Both are stored, so both are known already.
        rw [← hR.store] at hcurve hemitter
        have hk := (h₁.mirrored.mirrors _).mpr (storedCurve_of_contains hcurve)
        have hk' := (h₁.mirrored.mirrors _).mpr (storedCurve_of_contains hemitter)
        constructor
        · rintro (ha | rfl)
          · exact Or.inl ha
          · exact Or.inl hk
        · rintro (ha | rfl)
          · exact Or.inl ha
          · exact Or.inl hk'
    · intro a ha
      have ha' : a = hexAddr event.curve ∨ a ∈ w₁.record.created := by
        simpa [CbRecord.noteTxn, h₁.phase, hrow] using ha
      rcases ha' with rfl | hold
      · rcases hharmless with hself | ⟨hcurve, -⟩
        · rw [hself]
          exact Or.inr rfl
        · rw [← hR.store] at hcurve
          exact Or.inl ((h₁.mirrored.mirrors _).mpr (storedCurve_of_contains hcurve))
      · exact Or.inl (h₁.mirrored.created a hold)
    · intro a ha
      rw [← hR.store] at ha
      exact (CbTxn.run_effect (t := .insertToken row) hrun).contains ha
  · -- The reply is lost, which the condition allows only if nothing has happened.
    subst he
    have hs : Same w₁ { w₁ with
        store := s
        record := w₁.record.noteTxn (.insertToken row) (.error e) } := ⟨hanswer, rfl, rfl, rfl⟩
    exact ⟨hI.same hs, h₁.mirrored.same hs⟩
  · subst he
    exact ⟨hI, h₁.mirrored⟩

/-- **The insert of an adopted curve.** -/
theorem keeps_insertAdopted {row : InsertCbToken} {e : EvmAddress}
    (hrow : row.curveAddress = hexAddr e) (h : Resting .passTwo w) :
    KeepsCurves abi rpc (cbTransact (.insertToken row)) (fun r w' => match r with
      | .ok _ => HalfDone (hexAddr e) w' ∧ w'.record.phase = .passTwo
      | .error _ => Resting .passTwo w') w := by
  refine keeps_ask fun w₁ r w₂ hR hI hH hanswer => ?_
  have h₁ := h.same hR
  rcases hH with ⟨u, s, hrun, hr | ⟨err, he⟩, rfl⟩ | ⟨⟨err, he⟩, rfl⟩
  · subst hr
    have hrecord : w₁.record.noteTxn (.insertToken row) (.ok u) = w₁.record := by
      simp [CbRecord.noteTxn, h₁.phase]
    have hphase : (w₁.record.noteTxn (.insertToken row) (.ok u)).phase = .passTwo := by
      rw [hrecord]
      exact h₁.phase
    refine ⟨curvesKnown_passTwo hphase ?_, ⟨fun a => ?_, ?_⟩, hphase⟩
    · unfold CreatedKnown
      rw [hrecord]
      exact h₁.mirrored.created
    · show StoredCurve s a ↔ a ∈ w₁.knownCurves ∨ a = hexAddr e
      rw [insertToken_ok hrun, storedCurve_insertNew hrow, ← h₁.mirrored.mirrors a]
    · show ∀ a ∈ (w₁.record.noteTxn (.insertToken row) (.ok u)).created, _
      rw [hrecord]
      exact fun a ha => Or.inl (h₁.mirrored.created a ha)
  · subst he
    have hs : Same w₁ { w₁ with
        store := s
        record := w₁.record.noteTxn (.insertToken row) (.error err) } := ⟨hanswer, rfl, rfl, rfl⟩
    exact ⟨hI.same hs, h₁.same hs⟩
  · subst he
    exact ⟨hI, h₁⟩

/-- **The set catches up with the table.** -/
theorem keeps_insertKnown {phase : ChunkPhase} {e : Address} (h : HalfDone e w)
    (hphase : w.record.phase = phase) (hpass : phase = .passOne ∨ phase = .passTwo) :
    wp (mirrorHandle abi rpc) CurvesKnown Same (fun _ _ => True)
      (CbCall.insertKnown e).ask.toProg
      (fun _ w' => Resting phase w' ∧ w'.store = w.store) w := by
  refine keeps_ask fun w₁ r w₂ hR hI hH _ => ?_
  have h₁ := h.same hR
  obtain rfl : w₂ = _ := hH
  have hrest : Mirrored { w₁ with knownCurves := insertAddress w₁.knownCurves e } := by
    constructor
    · intro a
      show a ∈ insertAddress w₁.knownCurves e ↔ StoredCurve w₁.store a
      rw [mem_insertAddress, h₁.mirrors a]
    · exact fun a ha => mem_insertAddress.mpr (h₁.created a ha)
  have hphase₁ : w₁.record.phase = phase := hR.phase.trans hphase
  refine ⟨?_, ⟨hrest, hphase₁⟩, hR.store⟩
  rcases hpass with rfl | rfl
  · exact curvesKnown_passOne hphase₁
  · exact curvesKnown_passTwo hphase₁ hrest.created

/-- Any other transaction of a pass. -/
theorem keeps_trade {t : CbTxn} (ht : ∀ row, t ≠ .insertToken row)
    (hcursor : ∀ height, t ≠ .setCursor height) (h : Resting .passTwo w) :
    KeepsCurves abi rpc (cbTransact t) (fun _ w' => Resting .passTwo w') w := by
  refine keeps_ask fun w₁ r w₂ hR hI hH _ => ?_
  have h₁ := h.same hR
  rcases hH with ⟨a, s, hrun, -, rfl⟩ | ⟨-, rfl⟩
  · have hrecord : w₁.record.noteTxn t r = w₁.record := by
      cases t with
      | insertToken row => exact absurd rfl (ht row)
      | setCursor height => exact absurd rfl (hcursor height)
      | _ => rfl
    have hrest : Resting .passTwo { w₁ with store := s, record := w₁.record.noteTxn t r } := by
      rw [hrecord]
      refine ⟨⟨fun a => ?_, h₁.mirrored.created⟩, h₁.phase⟩
      rw [(CbTxn.run_effect hrun).storedCurve ht a]
      exact h₁.mirrored.mirrors a
    exact ⟨curvesKnown_passTwo hrest.phase hrest.mirrored.created, hrest⟩
  · exact ⟨hI, h₁⟩

/-- **The cursor is written**: the chunk has succeeded. -/
theorem keeps_setCursor {height : Int} (h : Mirrored w) :
    KeepsCurves abi rpc (cbTransact (.setCursor height)) (fun _ w' => Mirrored w') w := by
  refine keeps_ask fun w₁ r w₂ hR hI hH _ => ?_
  have h₁ := h.same hR
  rcases hH with ⟨a, s, hrun, hr, rfl⟩ | ⟨-, rfl⟩
  · have hmirrors : ∀ record, Mirrors { w₁ with store := s, record := record } := by
      intro record a
      rw [(CbTxn.run_effect (t := .setCursor height) hrun).storedCurve (by simp) a]
      exact h₁.mirrors a
    rcases hr with rfl | ⟨e, rfl⟩
    · exact ⟨⟨fun _ => hmirrors _, fun hp => absurd hp (by simp [CbRecord.noteTxn])⟩,
        ⟨hmirrors _, h₁.created⟩⟩
    · exact ⟨⟨fun _ => hmirrors _, hI.passTwo⟩, ⟨hmirrors _, h₁.created⟩⟩
  · exact ⟨hI, h₁⟩

/-! ### The passes of a chunk -/

theorem keeps_factoryLogs {fromBlock toBlock : Int} {factory : EvmAddress} (h : Mirrored w) :
    KeepsCurves abi rpc (cbRetry (cbLogsInRange fromBlock toBlock (some factory)))
      (fun r w' => match r with
        | .ok logs => Resting .passOne w' ∧ ∀ l ∈ logs, Harmless abi w'.store l
        | .error _ => Mirrored w') w := by
  refine wp_cbRetry_each (J := Mirrored) (fun w h => ?_) (fun nanos w h => ?_) h
  · refine wp_cbLogsInRange (fun msg => ⟨fun _ _ => h, h⟩) (keeps_ask fun w₁ r w₂ hR hI hH ha => ?_)
    have h₁ := h.same hR
    obtain ⟨chain', -, rfl⟩ := hH
    have hrest : Resting .passOne
        { w₁ with
          chain := chain'
          record := w₁.record.noteChain (.getLogs fromBlock toBlock (some factory)) r } :=
      ⟨⟨h₁.mirrors, fun a ha => absurd ha (by simp [CbRecord.noteChain])⟩, rfl⟩
    refine ⟨curvesKnown_passOne hrest.phase, fun _ _ => hrest.mirrored, ?_⟩
    cases r with
    | ok logs => exact ⟨hrest, ha⟩
    | error e => exact hrest.mirrored
  · exact wp_mono (fun _ _ hs => h.same hs) (keeps_quiet trivial)

theorem keeps_curveLogs {fromBlock toBlock : Int} (h : Mirrored w) :
    KeepsCurves abi rpc (cbRetry (cbLogsInRange fromBlock toBlock none))
      (fun r w' => match r with
        | .ok _ => Resting .passTwo w'
        | .error _ => Mirrored w') w := by
  refine wp_cbRetry_each (J := Mirrored) (fun w h => ?_) (fun nanos w h => ?_) h
  · refine wp_cbLogsInRange (fun msg => ⟨fun _ _ => h, h⟩) (keeps_ask fun w₁ r w₂ hR hI hH _ => ?_)
    have h₁ := h.same hR
    obtain ⟨chain', -, rfl⟩ := hH
    have hrest : Resting .passTwo
        { w₁ with
          chain := chain'
          record := w₁.record.noteChain (.getLogs fromBlock toBlock none) r } :=
      ⟨⟨h₁.mirrors, h₁.created⟩, rfl⟩
    refine ⟨curvesKnown_passTwo hrest.phase hrest.mirrored.created, fun _ _ => hrest.mirrored, ?_⟩
    cases r with
    | ok logs => exact hrest
    | error e => exact hrest.mirrored
  · exact wp_mono (fun _ _ hs => h.same hs) (keeps_quiet trivial)

theorem Harmless.grows {s s' : CbStore} {l : RpcLog} (h : Harmless abi s l)
    (hs : ∀ a, s.tokens.contains a = true → s'.tokens.contains a = true) : Harmless abi s' l :=
  fun htopic event hevent => (h htopic event hevent).imp_right fun hboth =>
    ⟨hs _ hboth.1, hs _ hboth.2⟩

/-- **Pass 1.** -/
theorem keeps_passOne {logs : List RpcLog} :
    ∀ {w : CbWorld χ}, Resting .passOne w → (∀ l ∈ logs, Harmless abi w.store l) →
      KeepsCurves abi rpc (passOne abi logs) (fun _ w' => Mirrored w') w := by
  induction logs with
  | nil => exact fun h _ => h.mirrored
  | cons l rest ih =>
      intro w h hlogs
      unfold passOne
      by_cases htopic : l.topics.head? = some abi.curveCreatedHash
      · simp only [htopic, if_true]
        refine wp_scriptE_bind (wp_computed (fun row hrow => ?_) fun _ _ => h.mirrored)
        obtain ⟨event, hevent, hcurve⟩ := curveCreatedRow_ok hrow
        have hharmless := hlogs l (List.mem_cons_self ..) htopic event hevent
        refine wp_mono (fun r w₁ hr => ?_) (keeps_insertCreated hcurve h hharmless)
        cases r with
        | error e => exact hr
        | ok u =>
            obtain ⟨hhalf, hphase, hgrows⟩ := hr
            refine wp_liftAsk (wp_mono (fun _ w₂ h₂ => ?_)
              (keeps_insertKnown hhalf hphase (Or.inl rfl)))
            refine ih h₂.1 fun l' hl' => ?_
            rw [h₂.2]
            exact (hlogs l' (List.mem_cons_of_mem _ hl')).grows hgrows
      · simp only [htopic, if_false]
        exact ih h fun l' hl' => hlogs l' (List.mem_cons_of_mem _ hl')

/-- **Whoever is let in is known.** -/
theorem keeps_vetEmitter {l : RpcLog} (h : Resting .passTwo w) :
    KeepsCurves abi rpc (vetEmitter abi l) (fun _ w' => Resting .passTwo w') w := by
  have hquiet : ∀ (c : CbCall), c.IsQuiet → ∀ {w : CbWorld χ}, Resting .passTwo w →
      wp (mirrorHandle abi rpc) CurvesKnown Same (fun _ _ => True) c.ask.toProg
        (fun _ w' => Resting .passTwo w') w :=
    fun c hc w h => wp_mono (fun _ _ hs => h.same hs) (keeps_quiet hc)
  refine wp_vetEmitter (J := Resting .passTwo) (K := Resting .passTwo)
    (fun w w' h hs _ => h.same hs) ?_ ?_ ?_ ?_ ?_
  · intro w c r w' hc hI h hH
    have hquiet : c.IsQuiet := by
      cases c with
      | chain c =>
          cases c with
          | ethCall target view => exact trivial
          | _ => exact absurd hc fun h => h
      | _ => exact absurd hc fun h => h
    have hs := same_of_quiet hquiet hH.1
    exact ⟨hI.same hs, trivial, h.same hs⟩
  · refine wp_mono (fun known w₁ h₁ => ?_) (hquiet (.isKnown _) trivial h)
    cases known with
    | true => exact h₁
    | false => exact h₁
  · refine fun w₁ h₁ => wp_mono (fun cached w₂ h₂ => ?_) (hquiet (.isNonCurve _) trivial h₁)
    cases cached with
    | true => exact h₂
    | false => exact h₂
  · exact fun w h => hquiet (.cacheNonCurve _) trivial h
  · intro row w hrow h
    refine wp_mono (fun r w' hr => ?_) (keeps_insertAdopted hrow h)
    cases r with
    | error e => exact hr
    | ok u => exact wp_mono (fun _ _ h => h.1) (keeps_insertKnown hr.1 hr.2 (Or.inr rfl))

theorem keeps_dispatch {t0 : B256} (ht0 : abi.IsCurveTopic t0) {l : RpcLog}
    (h : Resting .passTwo w) :
    KeepsCurves abi rpc (dispatch abi t0 l) (fun _ w' => Resting .passTwo w') w :=
  wp_dispatch ht0 (fun _ ht => keeps_trade (curveTxn_cursor ht).1 (curveTxn_cursor ht).2 h)
    fun _ _ => h

theorem keeps_curveLog {l : RpcLog} (h : Resting .passTwo w) :
    KeepsCurves abi rpc (curveLog abi l) (fun _ w' => Resting .passTwo w') w := by
  refine wp_curveLog (fun _ => h) fun t0 _ ht0 => ?_
  refine wp_mono (fun r w₁ h₁ => ?_) (keeps_vetEmitter h)
  rcases r with e | admitted
  · exact h₁
  · cases admitted with
    | true => exact keeps_dispatch ht0 h₁
    | false => exact h₁

/-- **Pass 2.** -/
theorem keeps_passTwo {logs : List RpcLog} :
    ∀ {w : CbWorld χ}, Resting .passTwo w →
      KeepsCurves abi rpc (passTwo abi logs) (fun _ w' => Resting .passTwo w') w := by
  induction logs with
  | nil => exact fun h => h
  | cons l rest ih =>
      intro w h
      refine wp_scriptE_bind (wp_mono (fun r w₁ h₁ => ?_) (keeps_curveLog h))
      cases r with
      | ok u => exact ih h₁
      | error e => exact h₁

theorem keeps_runChunk {fromBlock toBlock : Int} {factory : EvmAddress} (h : Mirrored w) :
    KeepsCurves abi rpc (runChunk abi fromBlock toBlock factory) (fun _ w' => Mirrored w') w := by
  refine wp_scriptE_bind (wp_mono (fun r w₁ hr => ?_) (keeps_factoryLogs h))
  cases r with
  | error e => exact hr
  | ok factoryLogs =>
      refine wp_scriptE_bind (wp_mono (fun r w₂ h₂ => ?_) (keeps_passOne hr.1 hr.2))
      cases r with
      | error e => exact h₂
      | ok u =>
          refine wp_scriptE_bind (wp_mono (fun r w₃ hr => ?_) (keeps_curveLogs h₂))
          cases r with
          | error e => exact hr
          | ok curveLogs => exact wp_mono (fun _ _ h => h.mirrored) (keeps_passTwo hr)

/-! ### The loop -/

theorem keeps_idle {nanos : Nat} (h : Mirrored w) :
    KeepsCurves abi rpc (idle nanos) (fun _ w' => Mirrored w') w := by
  refine wp_liftAsk (wp_mono (fun cancelled w₁ hs => ?_)
    (keeps_quiet (c := .sleepOrCancel nanos) trivial))
  by_cases hcancelled : cancelled = true
  · simp only [hcancelled, if_true]
    exact h.same hs
  · simp only [hcancelled]
    exact h.same hs

theorem keeps_workerPass (h : Mirrored w) :
    KeepsCurves abi rpc (workerPass abi cfg) (fun _ w' => Mirrored w') w := by
  unfold workerPass
  refine wp_liftAsk (wp_mono (fun cancelled w₁ hs₁ => ?_) (keeps_quiet (c := .isCancelled) trivial))
  have h₁ := h.same hs₁
  by_cases hcancelled : cancelled = true
  · simp only [hcancelled, if_true]
    exact h₁
  · simp only [hcancelled]
    have hcursor : KeepsCurves abi rpc (readCoinblastCursor cfg.network)
        (fun _ w' => Mirrored w') w₁ := by
      refine wp_scriptE_bind (wp_mono (fun r w₂ hs₂ => ?_) (keeps_quiet (c := .readCursor) trivial))
      cases r with
      | ok cursor => exact h₁.same hs₂
      | error e => exact h₁.same hs₂
    refine wp_scriptE_bind (wp_mono (fun r w₂ h₂ => ?_) hcursor)
    cases r with
    | error e => exact h₂
    | ok cursor =>
        have htip : KeepsCurves abi rpc (cbRetry (CbCall.chain .blockNumber).ask)
            (fun _ w' => Mirrored w') w₂ :=
          wp_cbRetry_each (J := Mirrored)
            (fun w h => wp_mono (fun _ _ hs => ⟨fun _ _ => h.same hs, h.same hs⟩)
              (keeps_quiet (c := .chain .blockNumber) trivial))
            (fun nanos w h => wp_mono (fun _ _ hs => h.same hs) (keeps_quiet trivial)) h₂
        refine wp_scriptE_bind (wp_mono (fun r w₃ h₃ => ?_) htip)
        cases r with
        | error e => exact h₃
        | ok tip =>
            by_cases hidle : saturatingSub tip (asI64 cfg.safeLag) ≤ cursor
            · simp only [hidle, if_true]
              exact keeps_idle h₃
            · simp only [hidle, if_false]
              refine wp_liftRun (wp_mono (fun result w₄ h₄ => ?_) (keeps_runChunk h₃))
              cases result with
              | error e => exact keeps_idle h₄
              | ok u =>
                  refine wp_scriptE_bind (wp_mono (fun r w₅ h₅ => ?_) (keeps_setCursor h₄))
                  cases r with
                  | ok u => exact keeps_idle h₅
                  | error e => exact h₅

/-- **The set is made from the table.** -/
theorem keeps_hydrateKnownCurves :
    KeepsCurves abi rpc hydrateKnownCurves (fun r w' => ∀ u, r = .ok u → Mirrored w') w := by
  refine wp_scriptE_bind (wp_mono (fun r w₁ hr => ?_) (keeps_ask (c := .knownCurveAddresses)
    (Q := fun r w₁ => ∀ curves, r = .ok curves → curves = CbTokens.knownCurveAddresses w₁.store)
    fun w₁ r w₂ _ hI hH _ => ?_))
  · cases r with
    | error e => exact fun u hu => by simp at hu
    | ok curves =>
        obtain rfl := hr curves rfl
        refine wp_script_bind (keeps_ask fun w₂ r w₃ hR _ hH _ => ?_)
        obtain rfl : w₃ = _ := hH
        have hmirrors : ∀ record, Mirrors { w₂ with
            knownCurves := (CbTokens.knownCurveAddresses w₁.store).map lowercase
            knownNonCurves := []
            record := record } := by
          intro record a
          show a ∈ (CbTokens.knownCurveAddresses w₁.store).map lowercase ↔ StoredCurve w₂.store a
          rw [hR.store, CbTokens.knownCurveAddresses, List.map_map, List.mem_map]
          rfl
        refine ⟨⟨fun _ => hmirrors _, fun hp => by simp at hp⟩, fun u _ => ⟨hmirrors _, ?_⟩⟩
        exact fun a ha => absurd ha (by simp)
  · obtain ⟨rfl, hr⟩ := hH
    refine ⟨hI, fun curves hcurves => ?_⟩
    rcases hr with hr | ⟨e, he⟩
    · exact Except.ok.inj (hcurves.symm.trans hr)
    · exact absurd (hcurves.symm.trans he) (by simp)

theorem keeps_runCoinblastWorker :
    wp (mirrorHandle abi rpc) CurvesKnown Same (fun _ _ => True) (runCoinblastWorker abi cfg).run
      (fun _ _ => True) w := by
  refine wp_bindE (wp_mono (fun r w₁ hr => ?_) keeps_hydrateKnownCurves)
  cases r with
  | error e => exact trivial
  | ok u =>
      refine wp_iterateE (fun _ w => Mirrored w) (fun _ w w' h hs _ => h.same hs) (hr u rfl)
        fun _ w₂ _ h₂ => ?_
      refine wp_mono (fun r w₃ h₃ => ?_) (keeps_workerPass h₂)
      rcases r with e | s | b
      · exact trivial
      · exact h₃
      · exact trivial

/-! ### Every reachable state -/

theorem mirroring_verified (chain : χ) (s : CbStore) :
    VerifiedSingle (mirroring abi cfg rpc moves) (.init chain s) CurvesKnown Same
      (fun _ _ => True) where
  rely_refl := Same.refl
  rely_trans _ _ _ := Same.trans
  init := ⟨fun hp => absurd hp (by simp [CbWorld.init]), fun hp => absurd hp (by simp [CbWorld.init])⟩
  spawn i p w hs _ := by
    obtain rfl : p = _ := hs
    exact keeps_runCoinblastWorker
  post _ _ _ _ _ _ := trivial
  env w w' hI he := by
    cases he with
    | chain h => exact ⟨⟨hI.between, hI.passTwo⟩, ⟨rfl, rfl, rfl, rfl⟩⟩
    | cancel => exact ⟨⟨hI.between, hI.passTwo⟩, ⟨rfl, rfl, rfl, rfl⟩⟩
  crash w w' _ hc := by
    obtain rfl : w' = w.restart := hc
    exact ⟨fun hp => absurd hp (by simp [CbWorld.restart, CbWorld.init]),
      fun hp => absurd hp (by simp [CbWorld.restart, CbWorld.init])⟩

/--
**The set of known curves mirrors the table** in the runs of the condition: between two
chunks it is the set of the lowercased addresses stored, and when pass 2 begins every curve
created in the chunk is known.
-/
theorem known_curves_mirror {chain : χ} {s : CbStore}
    {c : Config CbSig Unit (CbWorld χ) (Except CbError Unit)}
    (hc : Reachable ((coinblast abi cfg rpc moves).answering (MirroringAnswer abi))
      (.init chain s) c) :
    (c.world.record.phase = .between →
      ∀ a, a ∈ c.world.knownCurves ↔
        ∃ r ∈ c.world.store.tokens.rows, lowercase r.curveAddress = a) ∧
    (c.world.record.phase = .passTwo → ∀ a ∈ c.world.record.created, a ∈ c.world.knownCurves) := by
  have hknown := ((mirroring_verified chain s).reachable hc).1
  exact ⟨hknown.between, hknown.passTwo⟩

/-! ### A curve the worker does not know -/

/-- The factory has created one curve. -/
def oneCreation : CbChain where
  tip := 1178700
  logs := [curveCreatedLog (coinblastFactoryAddress .mainnet) curveA tokenA 1]
  views _ _ := .error (.rpc "reverted")

/-- A curve created in the chunk is not known. -/
def createdUnknown (w : CbWorld χ) : Bool :=
  w.record.phase = .passTwo && w.record.created.any fun a => decide (a ∉ w.knownCurves)

/-- Between two chunks a stored curve is not known. -/
def storedUnknown (w : CbWorld χ) : Bool :=
  w.record.phase = .between &&
    w.store.tokens.rows.any fun r => decide (lowercase r.curveAddress ∉ w.knownCurves)

/--
The curve is created and stored, and the set gets the factory in its place: the curve is
not known when pass 2 begins, and not after the chunk either.
-/
theorem created_curve_stays_unknown :
    (∃ c, Reachable (coinblast wordAbi mainnetConfig oneCreation.rpc fun _ _ => False)
        (.init [] .empty) c ∧ c.world.record.phase = .passTwo ∧
        ∃ a ∈ c.world.record.created, a ∉ c.world.knownCurves) ∧
    ∃ c, Reachable (coinblast wordAbi mainnetConfig oneCreation.rpc fun _ _ => False)
        (.init [] .empty) c ∧ c.world.record.phase = .between ∧
        ∃ r ∈ c.world.store.tokens.rows, lowercase r.curveAddress ∉ c.world.knownCurves := by
  have hreach := mainnetSteps_coinblast oneCreation
  have hcreated : createdUnknown (mainnetSteps oneCreation.respond 10 []).1 = true := by
    decide +kernel
  have hstored : storedUnknown (mainnetSteps oneCreation.respond 11 []).1 = true := by
    decide +kernel
  unfold createdUnknown at hcreated
  unfold storedUnknown at hstored
  rw [Bool.and_eq_true, decide_eq_true_eq, List.any_eq_true] at hcreated hstored
  obtain ⟨hpassTwo, a, ha, hunknown⟩ := hcreated
  obtain ⟨hbetween, r, hr, hmissing⟩ := hstored
  exact ⟨⟨_, hreach 10 [], hpassTwo, a, ha, of_decide_eq_true hunknown⟩,
    ⟨_, hreach 11 [], hbetween, r, hr, of_decide_eq_true hmissing⟩⟩

/-- Fixed nodes that create no curve answer as the condition asks. -/
theorem cbServe_mirroring {n : CbChain} (hlogs : ∀ l ∈ n.logs, ∀ s, Harmless wordAbi s l)
    (w : CbWorld Outages) (c : CbCall) :
    mirrorHandle wordAbi n.rpc w c (cbServe n.respond w c).1 (cbServe n.respond w c).2 := by
  refine ⟨cbHandle_cbServe n.answers w c, ?_⟩
  cases c with
  | chain c =>
      cases c with
      | getLogs fromBlock toBlock address =>
          cases address with
          | none => exact trivial
          | some a =>
              show MirroringAnswer wordAbi w (.chain (.getLogs fromBlock toBlock (some a)))
                (n.respond w.chain (.getLogs fromBlock toBlock (some a))).1 _
              unfold CbChain.respond
              split
              · exact trivial
              · exact fun l hl => hlogs l (List.mem_filter.mp hl).1 w.store
      | _ => exact trivial
  | transact t =>
      cases t with
      | insertToken t =>
          rcases ht : CbTokens.insert t w.store with e | ⟨u, s⟩
          · have hs : cbServe n.respond w (.transact (.insertToken t)) = (.error (.db e), w) := by
              simp only [cbServe, CbTxn.run, ht]
            rw [hs]
            rfl
          · have hs : (cbServe n.respond w (.transact (.insertToken t))).1 = .ok u := by
              simp only [cbServe, CbTxn.run, ht]
            rw [hs]
            exact trivial
      | _ => exact trivial
  | _ => exact trivial

/-- After the chunk with the adopted curve it is stored and known. -/
theorem known_curves_mirror_oneBuy :
    ∃ c, Reachable ((coinblast wordAbi mainnetConfig oneBuy.rpc fun _ _ => False).answering
        (MirroringAnswer wordAbi)) (.init [] .empty) c ∧
      c.world.record.phase = .between ∧ hexAddr curveA ∈ c.world.knownCurves ∧
      ∃ r ∈ c.world.store.tokens.rows, lowercase r.curveAddress = hexAddr curveA := by
  have hharmless : ∀ l ∈ oneBuy.logs, ∀ s, Harmless wordAbi s l := by
    intro l hl s htopic
    obtain rfl := List.mem_singleton.mp hl
    exact absurd htopic (by decide)
  have hreach : Reachable ((coinblast wordAbi mainnetConfig oneBuy.rpc fun _ _ => False).answering
      (MirroringAnswer wordAbi)) (.init [] .empty) _ :=
    mainnetSteps_reachable rfl (cbServe_mirroring hharmless) 20 []
  have hphase : (mainnetSteps oneBuy.respond 20 []).1.record.phase = .between := by decide +kernel
  have hknown : hexAddr curveA ∈ (mainnetSteps oneBuy.respond 20 []).1.knownCurves := by
    decide +kernel
  exact ⟨_, hreach, hphase, hknown, ((known_curves_mirror hreach).1 hphase _).mp hknown⟩

end SentrixIndexer
