/-
How far a tail walk gets.

A call of `handle_finalized` reads the cursor, walks from there to the lag below its tip,
and every height on the way moves the cursor up to itself, by a block or by a step over a
404.  Other writers commit in between, but the cursor row only ever grows, so what has
been reached stays reached; and the walk itself never writes above where it is headed.

While the tips come one after another nobody else holds the gate, so each call gets it at
once and finds nothing stashed when it is done.
-/
import SentrixIndexer.Proofs.SingleWriter

namespace SentrixIndexer

open Effect

variable {χ : Type} {rpc : Rpc χ} {moves : χ → χ → Prop} {i : TaskId}

/-- Finalized tips, handled one after another until a call fails. -/
def finalizedCalls (cfg : SyncConfig) (analytics : Bool) : List UInt64 → SyncProg Unit
  | [] => return ()
  | tip :: rest => do
      handleFinalized cfg analytics (heightOfU64 tip)
      finalizedCalls cfg analytics rest

/-- A call of the gate. -/
def SyncCall.IsGate : SyncCall → Prop
  | .offer _ => True
  | .takePendingAndRelease => True
  | _ => False

/--
What happens between two calls of the task `i`: another task, one that does not use the
gate, is answered a call, or something moves around the tasks.  A backfill that finds no
cursor starts at height 0.
-/
inductive BackfillMove (rpc : Rpc χ) (moves : χ → χ → Prop) (i : TaskId) :
    World χ → World χ → Prop
  | call {w w' : World χ} (j : TaskId) (hother : j ≠ i) {c : SyncCall} {r : c.Answer}
      (hgate : ¬ c.IsGate)
      (hforward : ∀ t, c = .transact t → t.Forward ∧
        (readCursor w.store = none → ∀ h ∈ t.heights, 0 ≤ h))
      (h : handle rpc j w c r w') : BackfillMove rpc moves i w w'
  | around {w w' : World χ} (h : Surroundings moves w w') : BackfillMove rpc moves i w w'

/-- How the surroundings answer the task `i` while a backfill commits in between. -/
def amidBackfill (rpc : Rpc χ) (moves : χ → χ → Prop) (i : TaskId) : Handler SyncSig (World χ) :=
  (handle rpc i).under (Relation.ReflTransGen (BackfillMove rpc moves i))

/-! ### What stays -/

/-- The gate is as it was, and the cursor has not gone back. -/
structure Advances (w w' : World χ) : Prop where
  gate : w'.gate = w.gate
  set : readCursor w'.store = none → readCursor w.store = none
  cursor : w.store.cursor ≤ w'.store.cursor

theorem Advances.refl (w : World χ) : Advances w w := ⟨rfl, id, le_refl _⟩

theorem Advances.trans {w₁ w₂ w₃ : World χ} (h : Advances w₁ w₂) (h' : Advances w₂ w₃) :
    Advances w₁ w₃ where
  gate := h'.gate.trans h.gate
  set hnone := h.set (h'.set hnone)
  cursor := h.cursor.trans h'.cursor

/-- Nor has the task `i` committed anything. -/
structure Onward (i : TaskId) (w w' : World χ) : Prop extends Advances w w' where
  commits : ∀ t, .committed i t ∈ w'.events → .committed i t ∈ w.events

theorem Onward.refl (w : World χ) : Onward i w w := ⟨.refl w, fun _ => id⟩

theorem Onward.trans {w₁ w₂ w₃ : World χ} (h : Onward i w₁ w₂) (h' : Onward i w₂ w₃) :
    Onward i w₁ w₃ :=
  ⟨h.toAdvances.trans h'.toAdvances, fun t ht => h.commits t (h'.commits t ht)⟩

/-- A forward transaction with a target names a height it writes. -/
theorem Txn.target_mem {t : Txn} {h : Int} (ht : t.target = some h) : h ∈ t.heights := by
  cases t with
  | writeBlock b => exact List.mem_singleton.mpr (Option.some.inj ht).symm
  | batchWriteBlocks bundles => exact (List.max?_eq_some_iff.mp ht).1
  | writeCursor g nowTs => exact List.mem_singleton.mpr (Option.some.inj ht).symm
  | rewindTo g => exact absurd ht (by simp [Txn.target])

/-- **A forward transaction does not move the cursor back.** -/
theorem Txn.run_cursor_le {t : Txn} {s s' : Store} (hf : t.Forward) (h : t.run s = .ok s')
    (hfirst : readCursor s = none → ∀ k ∈ t.heights, 0 ≤ k) :
    (readCursor s' = none → readCursor s = none) ∧ s.cursor ≤ s'.cursor := by
  obtain ⟨_, _, _, _, -, -, -, -, hw⟩ := t.run_written hf h
  have hcur := hw.cursor
  unfold Store.cursor
  rcases ht : t.target with _ | target
  · rw [ht] at hcur
    have hsame : readCursor s' = readCursor s := hcur
    rw [hsame]
    exact ⟨id, le_refl _⟩
  · rw [ht] at hcur
    rcases hs : readCursor s with _ | n
    · have hset : readCursor s' = some target := by rw [hcur, hs]; rfl
      have hpos := hfirst hs target (Txn.target_mem ht)
      rw [hset]
      exact ⟨fun _ => rfl, by show (-1 : Int) ≤ target; omega⟩
    · have hset : readCursor s' = some (max n target) := by rw [hcur, hs]; rfl
      rw [hset]
      exact ⟨by simp, by show n ≤ max n target; omega⟩

/-- Only the calls of the gate touch it. -/
theorem handle_gate {w w' : World χ} {c : SyncCall} {r : c.Answer} (hc : ¬ c.IsGate)
    (h : handle rpc i w c r w') : w'.gate = w.gate := by
  cases handle_step h with
  | stay => rfl
  | chain _ => rfl
  | commit _ => rfl
  | offer tip gate => exact absurd trivial hc
  | take gate => exact absurd trivial hc
  | push row => rfl

/-- What a call that does not use the gate does to the cursor. -/
theorem handle_advances {w w' : World χ} {c : SyncCall} {r : c.Answer} (hc : ¬ c.IsGate)
    (hforward : ∀ t, c = .transact t → t.Forward ∧
      (readCursor w.store = none → ∀ h ∈ t.heights, 0 ≤ h))
    (h : handle rpc i w c r w') : Advances w w' := by
  have hgate := handle_gate hc h
  rcases handle_commits h with ⟨hstore, -⟩ | ⟨t, s, rfl, hrun, rfl⟩
  · refine ⟨hgate, ?_, ?_⟩
    · rw [hstore]
      exact id
    · rw [hstore]
  · obtain ⟨hf, hfirst⟩ := hforward t rfl
    obtain ⟨hset, hle⟩ := Txn.run_cursor_le hf hrun hfirst
    exact ⟨hgate, hset, hle⟩

theorem BackfillMove.onward {w w' : World χ} (h : BackfillMove rpc moves i w w') :
    Onward i w w' := by
  cases h with
  | call j hother hgate hforward h =>
      refine ⟨handle_advances hgate hforward h, fun t ht => ?_⟩
      rcases handle_commits h with ⟨-, hevents⟩ | ⟨u, s, rfl, -, rfl⟩
      · exact hevents i t ht
      · rcases List.mem_cons.mp ht with heq | hmem
        · exact absurd (Event.committed.inj heq).1.symm hother
        · exact hmem
  | around h =>
      cases h with
      | chain h => exact ⟨⟨rfl, id, le_refl _⟩, fun _ => id⟩
      | cancel => exact ⟨⟨rfl, id, le_refl _⟩, fun _ => id⟩

theorem onward_of_backfill {w w' : World χ}
    (h : Relation.ReflTransGen (BackfillMove rpc moves i) w w') : Onward i w w' := by
  induction h with
  | refl => exact .refl _
  | tail _ hmove ih => exact ih.trans hmove.onward

/-! ### The calls of a walk -/

/-- The task `i` has written only heights that `P` allows. -/
def WritesOnly (i : TaskId) (P : Int → Prop) (w : World χ) : Prop :=
  ∀ t, .committed i t ∈ w.events → ∀ h ∈ t.heights, P h

theorem WritesOnly.onward {P : Int → Prop} {w w' : World χ} (h : WritesOnly i P w)
    (ho : Onward i w w') : WritesOnly i P w' := fun t ht => h t (ho.commits t ht)

/-- The precondition of code that does not use the gate. -/
abbrev Walks (rpc : Rpc χ) (i : TaskId) (P : Int → Prop) {α : Type} (p : Prog SyncSig α)
    (Q : α → World χ → Prop) (w : World χ) : Prop :=
  wp (handle rpc i) (WritesOnly i P) Advances Advances p Q w

variable {P : Int → Prop} {α : Type} {w : World χ}

theorem advances_trans (w₁ w₂ w₃ : World χ) : Advances w₁ w₂ → Advances w₂ w₃ → Advances w₁ w₃ :=
  Advances.trans

/-- What has been reached meanwhile may be used at the end. -/
theorem Walks.since {p : Prog SyncSig α} {Q : α → World χ → Prop} (h : Walks rpc i P p Q w) :
    Walks rpc i P p (fun a w' => Advances w w' ∧ Q a w') w :=
  wp_since Advances.refl advances_trans (fun _ _ => id) h

theorem Walks.mono {p : Prog SyncSig α} {Q Q' : α → World χ → Prop} (h : Walks rpc i P p Q w)
    (hQ : ∀ a w, Q a w → Q' a w) : Walks rpc i P p Q' w := wp_mono hQ h

/-- A call that writes nothing. -/
theorem walks_call {c : SyncCall} {k : c.Answer → Prog SyncSig α} {Q : α → World χ → Prop}
    (hgate : ¬ c.IsGate) (hwrite : ∀ t, c ≠ .transact t)
    (h : ∀ w₁, Advances w w₁ → ∀ r w₂, handle rpc i w₁ c r w₂ → Walks rpc i P (k r) Q w₂) :
    Walks rpc i P (.call c k) Q w := by
  intro w₁ hl hI r w₂ hH
  refine ⟨fun t ht => hI t ?_, ?_, h w₁ hl r w₂ hH⟩
  · rcases handle_commits hH with ⟨-, hevents⟩ | ⟨u, s, heq, -, -⟩
    · exact hevents i t ht
    · exact absurd heq (hwrite u)
  · exact handle_advances hgate (fun t ht => absurd ht (hwrite t)) hH

theorem walks_sleep (nanos : Nat) : Walks rpc i P (sleepFor nanos).toProg (fun _ _ => True) w :=
  walks_call (c := .sleep nanos) (fun h => h) (by simp) fun _ _ _ _ _ => trivial

/-- A retried call promises of its value what a single attempt promises. -/
theorem walks_withRetry {op : Script SyncSig (Except ChainError α)} {Q : α → Prop}
    (hop : ∀ w, Walks rpc i P op.toProg (fun r _ => ∀ v, r = .ok v → Q v) w) :
    Walks rpc i P (Script.toProgE (withRetry op)).run (fun r _ => ∀ v, r = .ok v → Q v) w := by
  refine wp_script_bind (Walks.mono
    (wp_retryFrom hop (fun nanos _ => walks_sleep nanos) _ _ w) fun r w₁ hr => ?_)
  cases r with
  | ok v =>
      intro v' hv
      exact hr v' (congrArg Except.ok (Except.ok.inj hv))
  | error e => exact fun v hv => absurd hv (by simp)

theorem walks_restBlock (hrest : FaithfulHeights rpc) (h : Int) :
    Walks rpc i P (Script.toProgE (withRetry (RestClient.block h))).run
      (fun r _ => ∀ o, r = .ok o → ∀ block, o = some block → block.index = h) w := by
  refine walks_withRetry fun w => ?_
  refine walks_call (c := .chain (.restBlock h)) (fun h => h) (by simp) fun w₁ _ r w₂ hH => ?_
  obtain ⟨chain', hr, -⟩ := hH
  intro o ho block hblock
  subst ho
  subst hblock
  exact hrest _ _ _ _ hr

theorem walks_logs (h : Int) :
    Walks rpc i P (Script.toProgE (withRetry (ChainProvider.logsInRange h h))).run
      (fun _ _ => True) w := by
  refine Walks.mono (walks_withRetry (Q := fun _ => True) fun w => ?_) fun _ _ _ => trivial
  unfold ChainProvider.logsInRange logsInRange
  rw [if_neg (lt_irrefl h)]
  by_cases hneg : heightAsU64 h = none
  · rw [if_pos hneg]
    exact fun _ _ => trivial
  · rw [if_neg hneg, if_neg hneg]
    exact walks_call (c := .chain (.getLogs h h)) (fun h => h) (by simp)
      fun _ _ _ _ _ _ _ => trivial

theorem walks_pushAll (rows : List RawTxRow) :
    ∀ {w : World χ}, Walks rpc i P (pushAll rows).toProg (fun _ _ => True) w := by
  induction rows with
  | nil => exact trivial
  | cons row rest ih =>
      intro w
      refine walks_call (c := .push row) (fun h => h) (by simp) fun w₁ _ r w₂ _ => ?_
      cases r with
      | true => exact ih
      | false => exact trivial

/-- **A write to `h` moves the cursor up to it**, once a walk may have got there. -/
theorem walks_transact {t : Txn} {h : Int} (hf : t.Forward) (hheights : t.heights = [h])
    (hP : P h) (hfirst : readCursor w.store = none → 0 ≤ h) :
    Walks rpc i P (Script.toProgE (transact t)).run
      (fun r w' => ∀ u, r = .ok u → h ≤ w'.store.cursor) w := by
  intro w₁ hl hI r w₂ hH
  have hgate : ¬ (SyncCall.transact t).IsGate := fun h => h
  have hadvance : Advances w₁ w₂ := by
    refine handle_advances hgate ?_ hH
    intro t' ht'
    obtain rfl := SyncCall.transact.inj ht'
    refine ⟨hf, fun hnone k hk => ?_⟩
    rw [hheights] at hk
    obtain rfl := List.mem_singleton.mp hk
    exact hfirst (hl.set hnone)
  rcases hH with ⟨s, hrun, rfl⟩ | ⟨⟨e, rfl⟩, rfl⟩
  · refine ⟨fun u hu k hk => ?_, hadvance, fun _ _ => ?_⟩
    · rcases List.mem_cons.mp hu with heq | hmem
      · obtain ⟨-, rfl⟩ := Event.committed.inj heq
        rw [hheights] at hk
        obtain rfl := List.mem_singleton.mp hk
        exact hP
      · exact hI u hmem k hk
    · have hmem : h ∈ t.heights := by
        rw [hheights]
        exact List.mem_singleton.mpr rfl
      exact (Txn.run_atOrBelow hrun (Or.inl hmem)).le_cursor
  · exact ⟨hI, hadvance, fun u hu => absurd hu (by simp)⟩

theorem walks_writeBlock (analytics : Bool) {b : BlockBundle} (hP : P b.block.height)
    (hfirst : readCursor w.store = none → 0 ≤ b.block.height) :
    Walks rpc i P (Script.toProgE (writeBlock analytics b)).run
      (fun r w' => ∀ u, r = .ok u → b.block.height ≤ w'.store.cursor) w := by
  refine wp_scriptE_bind (Walks.mono (walks_transact (t := .writeBlock b) trivial rfl hP hfirst)
    fun r w₁ hr => ?_)
  rcases r with e | ⟨⟩
  · exact fun u hu => absurd hu (by simp)
  · have hreached := hr () rfl
    cases analytics with
    | false => exact fun _ _ => hreached
    | true =>
        show Walks rpc i P (Script.toProgE (ExceptT.lift (pushAll (analyticsRows b)))).run _ w₁
        refine wp_script_bind (Walks.mono (walks_pushAll _).since fun _ w₂ hw₂ => ?_)
        exact fun _ _ => hreached.trans hw₂.1.cursor

/-- **One height of a walk**: afterwards the cursor is at the height or above it. -/
theorem walks_ingestOne (hrest : FaithfulHeights rpc) (analytics : Bool) {h : Int} (hP : P h)
    (hfirst : readCursor w.store = none → 0 ≤ h) :
    Walks rpc i P (Script.toProgE (ingestOne analytics h)).run
      (fun r w' => ∀ u, r = .ok u → h ≤ w'.store.cursor) w := by
  refine wp_scriptE_bind (Walks.mono (walks_restBlock hrest h).since fun r w₁ hr => ?_)
  obtain ⟨hl₁, hr⟩ := hr
  have hfirst₁ := fun hnone => hfirst (hl₁.set hnone)
  rcases r with e | none | block
  · exact fun u hu => absurd hu (by simp)
  · exact walks_transact (t := .writeCursor h 0) trivial rfl hP hfirst₁
  · have hindex := hr _ rfl block rfl
    refine wp_scriptE_bind (Walks.mono (walks_logs h).since fun r w₂ hr₂ => ?_)
    have hfirst₂ := fun hnone => hfirst₁ (hr₂.1.set hnone)
    rcases r with e | logs
    · exact fun u hu => absurd hu (by simp)
    · refine wp_scriptE_bind ?_
      rcases ha : assemble block logs with e | b
      · exact fun u hu => absurd hu (by simp)
      · obtain rfl : b.block.height = h := (assemble_ok ha).2.1.trans hindex
        exact walks_writeBlock analytics hP hfirst₂

theorem walks_ingestAll (hrest : FaithfulHeights rpc) (analytics : Bool) {hs : List Int} :
    ∀ {w : World χ}, (∀ h ∈ hs, P h) → (readCursor w.store = none → ∀ h ∈ hs, 0 ≤ h) →
      Walks rpc i P (Script.toProgE (ingestAll analytics hs)).run
        (fun r w' => ∀ u, r = .ok u → ∀ h ∈ hs, h ≤ w'.store.cursor) w := by
  induction hs with
  | nil => exact fun _ _ _ _ h hh => absurd hh (by simp)
  | cons h rest ih =>
      intro w hP hfirst
      have hhead : h ∈ h :: rest := List.mem_cons_self ..
      refine wp_scriptE_bind (Walks.mono (walks_ingestOne hrest analytics (hP h hhead)
        fun hnone => hfirst hnone h hhead).since fun r w₁ hr => ?_)
      obtain ⟨hl₁, hr⟩ := hr
      rcases r with e | u
      · exact fun u hu => absurd hu (by simp)
      · have hreached := hr u rfl
        refine Walks.mono (ih (fun k hk => hP k (List.mem_cons_of_mem _ hk)) fun hnone k hk =>
          hfirst (hl₁.set hnone) k (List.mem_cons_of_mem _ hk)).since fun r w₂ hw₂ => ?_
        intro u hu k hk
        rcases List.mem_cons.mp hk with rfl | hmem
        · exact hreached.trans hw₂.1.cursor
        · exact hw₂.2 u hu k hmem

/-! ### Calls of `handle_finalized` -/

/-- The precondition of code that uses the gate. -/
abbrev Calls (rpc : Rpc χ) (i : TaskId) (P : Int → Prop) {α : Type} (p : Prog SyncSig α)
    (Q : α → World χ → Prop) (w : World χ) : Prop :=
  wp (handle rpc i) (WritesOnly i P) Advances (fun _ _ => True) p Q w

theorem Walks.calls {p : Prog SyncSig α} {Q : α → World χ → Prop} (h : Walks rpc i P p Q w) :
    Calls rpc i P p Q w := wp_weaken (fun _ _ h => h) (fun _ _ _ => trivial) h

/-- The cursor as the task reads it: set or not, it is not above what is persisted then. -/
theorem walks_readCursor :
    Walks rpc i P (Script.toProgE readCursorCall).run (fun r w' => ∀ c, r = .ok c →
      c.getD (-1) ≤ w'.store.cursor ∧ (readCursor w'.store = none → c = none)) w := by
  refine walks_call (c := .readCursor) (fun h => h) (by simp) fun w₁ _ r w₂ hH => ?_
  obtain ⟨rfl, hr⟩ := hH
  intro c hc
  rcases hr with rfl | ⟨e, rfl⟩
  · obtain rfl := Except.ok.inj hc
    exact ⟨le_refl _, id⟩
  · exact absurd hc (by simp)

/-- The end of a pass with nothing stashed: the gate is given back. -/
theorem calls_release (hgate : w.gate = ⟨true, none⟩) {n : Int} (hn : n ≤ w.store.cursor) :
    Calls rpc i P (Script.toProgE takeNext).run
      (fun r w' => r = .ok (.inr ()) ∧ w'.gate = .new ∧ n ≤ w'.store.cursor) w := by
  rintro w₁ hl hI r w₂ ⟨rfl, rfl⟩
  have hgate₁ : w₁.gate = ⟨true, none⟩ := hl.gate.trans hgate
  have htake : w₁.gate.takePendingAndRelease = (none, .new) := by
    rw [hgate₁]
    rfl
  refine ⟨hI, trivial, ?_⟩
  rw [htake]
  exact ⟨rfl, rfl, hn.trans hl.cursor⟩

/-- **A pass that is not interrupted** walks up to the cap and gives the gate back. -/
theorem calls_walkPass (hrest : FaithfulHeights rpc) (cfg : SyncConfig) (analytics : Bool)
    {current cap n : Int} (hcap : cap = saturatingSub current (asI64 cfg.safeLag))
    (hP : ∀ h, h ≤ cap → P h) (hgate : w.gate = ⟨true, none⟩) (hn : n ≤ w.store.cursor) :
    Calls rpc i P (Script.toProgE (walkPass cfg analytics current)).run
      (fun r w' => ∀ x, r = .ok x → x = .inr () ∧ w'.gate = .new ∧ max n cap ≤ w'.store.cursor)
      w := by
  refine wp_scriptE_bind (wp_mono (fun r w₁ hr => ?_) walks_readCursor.since.calls)
  obtain ⟨hl₁, hr⟩ := hr
  have hgate₁ : w₁.gate = ⟨true, none⟩ := hl₁.gate.trans hgate
  have hn₁ : n ≤ w₁.store.cursor := hn.trans hl₁.cursor
  rcases r with e | cursor
  · exact fun x hx => absurd hx (by simp)
  · obtain ⟨hle, hnone⟩ := hr cursor rfl
    rw [← hcap]
    by_cases hwalk : cursor.getD (-1) < cap
    · simp only [hwalk, if_true]
      have hheights : ∀ h ∈ inclusive (cursor.getD (-1) + 1) cap, P h :=
        fun h hh => hP h (mem_inclusive.mp hh).2
      have hfirst : readCursor w₁.store = none →
          ∀ h ∈ inclusive (cursor.getD (-1) + 1) cap, 0 ≤ h := by
        intro hunset h hh
        have hlow := (mem_inclusive.mp hh).1
        rw [hnone hunset] at hlow
        simpa using hlow
      refine wp_scriptE_bind (wp_mono (fun r w₂ hw₂ => ?_)
        (walks_ingestAll hrest analytics hheights hfirst).since.calls)
      obtain ⟨hl₂, hall⟩ := hw₂
      cases r with
      | error e => exact fun x hx => absurd hx (by simp)
      | ok u =>
          have hreached := hall u rfl cap (mem_inclusive.mpr ⟨by omega, le_refl _⟩)
          refine wp_mono (fun r w₃ hw₃ => ?_) (calls_release (hl₂.gate.trans hgate₁)
            (max_le (hn₁.trans hl₂.cursor) hreached))
          obtain ⟨rfl, hrest⟩ := hw₃
          exact fun x hx => ⟨(Except.ok.inj hx).symm, hrest⟩
    · simp only [hwalk, if_false]
      have hreached : cap ≤ w₁.store.cursor := by omega
      refine wp_mono (fun r w₃ hw₃ => ?_) (calls_release hgate₁ (max_le hn₁ hreached))
      obtain ⟨rfl, hrest⟩ := hw₃
      exact fun x hx => ⟨(Except.ok.inj hx).symm, hrest⟩

/-- **A call that finds the gate free** walks up to its cap and leaves the gate free. -/
theorem calls_handleFinalized (hrest : FaithfulHeights rpc) (cfg : SyncConfig) (analytics : Bool)
    {tip cap : Int} (hcap : cap = saturatingSub tip (asI64 cfg.safeLag))
    (hP : ∀ h, h ≤ cap → P h) (hgate : w.gate = .new) :
    Calls rpc i P (handleFinalized cfg analytics tip).run
      (fun r w' => r = .ok () → w'.gate = .new ∧ max w.store.cursor cap ≤ w'.store.cursor) w := by
  refine wp_bindE (wp_bind ?_)
  rintro w₁ hl hI r w₂ ⟨rfl, rfl⟩
  have hoffer : w₁.gate.offer tip = (.acquired tip, ⟨true, none⟩) := by
    rw [hl.gate.trans hgate]
    rfl
  refine ⟨hI, trivial, ?_⟩
  rw [hoffer]
  refine wp_iterateE (fun current w' => current = tip ∧ w'.gate = ⟨true, none⟩ ∧
    w.store.cursor ≤ w'.store.cursor) ?_ ⟨rfl, rfl, hl.cursor⟩ ?_
  · rintro current w₂ w₃ ⟨rfl, hheld, hle⟩ hl₂ -
    exact ⟨rfl, hl₂.gate.trans hheld, hle.trans hl₂.cursor⟩
  · rintro current w₂ - ⟨rfl, hheld, hle⟩
    refine wp_mono (fun r w₃ hw₃ => ?_) (calls_walkPass hrest cfg analytics hcap hP hheld hle)
    rcases r with e | next | u
    · exact fun h => absurd h (by simp)
    · exact absurd (hw₃ _ rfl).1 (by simp)
    · exact fun _ => (hw₃ _ rfl).2

/-! ### Tips one after another -/

variable {cfg : SyncConfig} {analytics : Bool} {tips : List UInt64}

/-- How far a walk for the tip goes. -/
def lagged (cfg : SyncConfig) (tip : UInt64) : Int := tip.toNat - cfg.safeLag.toNat

theorem saturatingSub_lagged (hlag : cfg.safeLag.toNat < 2 ^ 63) {tip : UInt64}
    (htip : tip.toNat < 2 ^ 63) :
    lagged cfg tip = saturatingSub (heightOfU64 tip) (asI64 cfg.safeLag) := by
  have hcast : ∀ v : UInt64, v.toNat < 2 ^ 63 → asI64 v = v.toNat := by
    intro v hv
    unfold asI64
    rw [BitVec.toInt_eq_toNat_of_lt]
    · rfl
    · show 2 * v.toNat < 2 ^ 64
      omega
  unfold lagged saturatingSub heightOfU64
  rw [hcast _ hlag, hcast _ htip]
  unfold i64Min i64Max
  omega

theorem calls_finalizedCalls (hrest : FaithfulHeights rpc) (hlag : cfg.safeLag.toNat < 2 ^ 63)
    (htips : ∀ t ∈ tips, t.toNat < 2 ^ 63) :
    ∀ {w : World χ}, (∀ t ∈ tips, ∀ h, h ≤ lagged cfg t → P h) → w.gate = .new →
      Calls rpc i P (finalizedCalls cfg analytics tips).run
        (fun r w' => r = .ok () → w'.gate = .new ∧ w.store.cursor ≤ w'.store.cursor ∧
          ∀ t ∈ tips, lagged cfg t ≤ w'.store.cursor) w := by
  induction tips with
  | nil => exact fun _ hgate _ => ⟨hgate, le_refl _, by simp⟩
  | cons tip rest ih =>
      intro w hP hgate
      have hhead : tip ∈ tip :: rest := List.mem_cons_self ..
      refine wp_bindE (wp_mono (fun r w₁ hr => ?_) (calls_handleFinalized hrest cfg analytics
        (saturatingSub_lagged hlag (htips tip hhead)) (hP tip hhead) hgate))
      rcases r with e | ⟨⟩
      · exact fun h => absurd h (by simp)
      · obtain ⟨hgate₁, hle⟩ := hr rfl
        refine wp_mono (fun r w₂ hw₂ hr => ?_) (ih (fun t ht => htips t (List.mem_cons_of_mem _ ht))
          (fun t ht => hP t (List.mem_cons_of_mem _ ht)) hgate₁)
        obtain ⟨hgate₂, hle₂, hall⟩ := hw₂ hr
        have hcursor := (max_le_iff.mp hle).1
        have hcap := (max_le_iff.mp hle).2
        refine ⟨hgate₂, hcursor.trans hle₂, fun t ht => ?_⟩
        rcases List.mem_cons.mp ht with rfl | hmem
        · exact hcap.trans hle₂
        · exact hall t hmem

/--
**The tail catches up.**  Tips below `2 ^ 63` are handled one after another on one gate,
with a backfill that commits in between, and the calls for `tips` have returned `Ok`.
Wherever the call for `tip` stands, the task has written nothing above the lag below the
largest of these tips; and when it has returned `Ok`, the persisted cursor is at or above
the lag below each of them.
-/
theorem tail_catches_up (hrest : FaithfulHeights rpc) (hlag : cfg.safeLag.toNat < 2 ^ 63)
    {tip : UInt64} (htips : ∀ t ∈ tips ++ [tip], t.toNat < 2 ^ 63) {w₀ w₁ w : World χ}
    {p : Prog SyncSig (Except SyncError Unit)} (hgate : w₀.gate = .new)
    (hfirst : ∀ t, .committed i t ∉ w₀.events)
    (hbefore : Run (amidBackfill rpc moves i) w₀ (finalizedCalls cfg analytics tips).run w₁ (.ok ()))
    (hcall : Steps (amidBackfill rpc moves i) w₁
      (handleFinalized cfg analytics (heightOfU64 tip)).run w p) :
    (p = .pure (.ok ()) → ∀ t ∈ tips ++ [tip],
      (t.toNat : Int) - cfg.safeLag.toNat ≤ w.store.cursor) ∧
    ∀ t, .committed i t ∈ w.events → ∀ h ∈ t.heights,
      ∃ s ∈ tips ++ [tip], h ≤ (s.toNat : Int) - cfg.safeLag.toNat := by
  have hlast : tip ∈ tips ++ [tip] := List.mem_append_right _ (List.mem_singleton.mpr rfl)
  have hold : ∀ t ∈ tips, t ∈ tips ++ [tip] := fun t ht => List.mem_append_left _ ht
  -- The heights allowed are those the lag leaves below some tip.
  let P : Int → Prop := fun h => ∃ s ∈ tips ++ [tip], h ≤ lagged cfg s
  have hkeep : ∀ w w', WritesOnly i P w →
      Relation.ReflTransGen (BackfillMove rpc moves i) w w' → WritesOnly i P w' :=
    fun w w' hI hmoves => hI.onward (onward_of_backfill hmoves)
  have hinit : WritesOnly i P w₀ := fun t ht => absurd ht (hfirst t)
  have hrely : ∀ w w' : World χ, Relation.ReflTransGen (BackfillMove rpc moves i) w w' →
      Advances w w' := fun w w' hmoves => (onward_of_backfill hmoves).toAdvances
  obtain ⟨hI₁, hpost⟩ := wp_steps_under hkeep hbefore.steps hinit (wp_weaken hrely
    (fun _ _ h => h) (calls_finalizedCalls hrest hlag (fun t ht => htips t (hold t ht))
      (fun t ht h hle => ⟨t, hold t ht, hle⟩) hgate))
  obtain ⟨hgate₁, -, hreached⟩ := hpost rfl
  obtain ⟨hI, hdone⟩ := wp_steps_under hkeep hcall hI₁ (wp_weaken hrely (fun _ _ h => h)
    (calls_handleFinalized hrest cfg analytics (saturatingSub_lagged hlag (htips tip hlast))
      (fun h hle => ⟨tip, hlast, hle⟩) hgate₁))
  refine ⟨fun hp t ht => ?_, hI⟩
  subst hp
  obtain ⟨-, hle⟩ := hdone rfl
  rcases List.mem_append.mp ht with hmem | hmem
  · exact (hreached t hmem).trans (max_le_iff.mp hle).1
  · obtain rfl := List.mem_singleton.mp hmem
    exact (max_le_iff.mp hle).2

/-- An execution against fixed answers is a run in which no backfill happens to commit. -/
theorem run_amidBackfill {respond : Server ChainSig χ} (hr : Answers rpc respond)
    (moves : χ → χ → Prop) (i : TaskId) {β : Type} (fuel : Nat) (w : World χ)
    (p : Prog SyncSig β) (check : World χ × β → Bool)
    (h : (exec (serve respond i) fuel w p).any check = true) :
    ∃ w' a, Run (amidBackfill rpc moves i) w p w' a ∧ check (w', a) = true :=
  exists_run_of_execWhile (fun w c _ => ⟨w, .refl, handle_serve hr i w c⟩) fuel w p check h

/-- The call has returned `Ok` and left the cursor there. -/
def returnedAt (n : Int) (r : World Stream × Except SyncError Unit) : Bool :=
  r.2.toOption.isSome && decide (r.1.store.cursor = n)

theorem returnedAt_spec {n : Int} {w : World Stream} {r : Except SyncError Unit}
    (h : returnedAt n (w, r) = true) : r = .ok () ∧ w.store.cursor = n := by
  obtain ⟨hr, hn⟩ := Bool.and_eq_true _ _ ▸ h
  refine ⟨?_, of_decide_eq_true hn⟩
  cases r with
  | ok u => rfl
  | error e => exact absurd hr (by simp [Except.toOption])

/-- A chain of one block: the walk for tip 0 writes it, the one for tip 1 steps over a 404. -/
theorem tail_catches_up_two_tips :
    ∃ w₁ w : World Stream, Run (amidBackfill forkA.rpc (fun _ _ => False) 0) (.init [])
        (finalizedCalls noLag false [0]).run w₁ (.ok ()) ∧
      w.store.cursor = 1 ∧
      (∀ t ∈ ([0] ++ [1] : List UInt64), (t.toNat : Int) - noLag.safeLag.toNat ≤ w.store.cursor) ∧
      ∀ t, .committed 0 t ∈ w.events → ∀ h ∈ t.heights,
        ∃ s ∈ ([0] ++ [1] : List UInt64), h ≤ (s.toNat : Int) - noLag.safeLag.toNat := by
  obtain ⟨w₁, r₁, hbefore, hcheck⟩ := run_amidBackfill forkA.answers (fun _ _ => False) 0 100
    (.init []) (finalizedCalls noLag false [0]).run
    (fun r => returnedAt 0 r && (exec (serve forkA.respond 0) 100 r.1
      (handleFinalized noLag false (heightOfU64 1)).run).any (returnedAt 1)) (by decide +kernel)
  obtain ⟨hok₁, hnext⟩ := Bool.and_eq_true _ _ ▸ hcheck
  obtain ⟨rfl, -⟩ := returnedAt_spec hok₁
  obtain ⟨w, r, hcall, hok⟩ := run_amidBackfill forkA.answers (fun _ _ => False) 0 100 w₁
    (handleFinalized noLag false (heightOfU64 1)).run (returnedAt 1) hnext
  obtain ⟨rfl, hcursor⟩ := returnedAt_spec hok
  obtain ⟨hreached, hwithin⟩ := tail_catches_up forkA_heights (by decide) (by simp) rfl
    (by simp [World.init]) hbefore hcall.steps
  exact ⟨w₁, w, hbefore, hcursor, hreached rfl, hwithin⟩

end SentrixIndexer
