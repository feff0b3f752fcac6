/-
Which heights a walk may ask for.

A writer fetches or writes nothing before it has read the cursor, and after that only
heights above the cursor it read.  This is a fact of its program alone, whatever the
calls are answered: the state of the argument is the cursor read last, and a call for a
height that is not above it leads astray.
-/
import SentrixIndexer.Proofs.Bundles
import SentrixIndexer.Proofs.Pipeline
import SentrixIndexer.Sync.Walks

namespace SentrixIndexer

open Effect

/-- The cursor a program has read last. -/
inductive LastRead
  | unread
  | read (n : Int)
  /-- It has called for a height it may not call for. -/
  | strayed

namespace LastRead

def Allows : LastRead → SyncCall → Prop
  | .unread, c => c.indexHeights = []
  | .read n, c => ∀ h ∈ c.indexHeights, n < h
  | .strayed, _ => False

def next (g : LastRead) : (c : SyncCall) → c.Answer → LastRead
  | .readCursor, .ok cursor => .read (cursor.getD (-1))
  | .readCursor, .error _ => .unread
  | _, _ => g

end LastRead

/-- An answer of nodes that serve every block under its own height. -/
def Plausible : (c : SyncCall) → c.Answer → Prop
  | .chain (.restBlock h), .ok (some block) => block.index = h
  | _, _ => True

/-- Every plausible answer; a call that is not allowed leads astray. -/
def guarded : Handler SyncSig LastRead := fun g c r g' =>
  Plausible c r ∧ (g.Allows c ∧ g' = g.next c r ∨ ¬ g.Allows c ∧ g' = .strayed)

variable {α β σ : Type} {n : Int}

/-! ### After the cursor read -/

/-- The program calls only for heights above `n`, and finishes with a `Q`. -/
def Above (n : Int) (p : Prog SyncSig α) (Q : α → Prop) : Prop :=
  ∀ g, wp guarded (· = .read n) Eq Eq p (fun a _ => Q a) g

/-- It is enough to look at the state in which `n` has been read. -/
theorem above_of_read {p : Prog SyncSig α} {Q : α → Prop}
    (h : wp guarded (· = .read n) Eq Eq p (fun a _ => Q a) (.read n)) : Above n p Q := by
  intro g
  by_cases hg : g = .read n
  · rw [hg]
    exact h
  · cases p with
    | pure a => exact h
    | call c k =>
        rintro g₁ rfl hread
        exact absurd hread hg
    | loop body s k =>
        obtain ⟨J, -, hs, hbody⟩ := h
        refine ⟨fun s _ => J s (.read n), ?_, hs, ?_⟩
        · exact fun s g g' hJ _ _ => hJ
        · rintro s g₁ rfl hJ
          refine wp_mono ?_ (wp_with_inv rfl (hbody s (.read n) rfl hJ))
          rintro r g₂ ⟨rfl, hr⟩
          exact hr

theorem above_pure {a : α} {Q : α → Prop} (h : Q a) : Above n (.pure a) Q := fun _ => h

theorem Above.mono {p : Prog SyncSig α} {Q Q' : α → Prop} (h : Above n p Q)
    (hQ : ∀ a, Q a → Q' a) : Above n p Q' := fun g => wp_mono (fun a _ => hQ a) (h g)

/-- Sequencing of programs that may fail. -/
theorem above_bindE {ε : Type} {p : ExceptT ε (Prog SyncSig) α}
    {f : α → ExceptT ε (Prog SyncSig) β} {P : Except ε α → Prop} {Q : Except ε β → Prop}
    (hp : Above n p.run P) (hok : ∀ a, P (.ok a) → Above n (f a).run Q)
    (herror : ∀ e, Q (.error e)) : Above n (p >>= f).run Q := by
  refine fun g => wp_bindE (wp_mono (fun r g' hr => ?_) (hp g))
  cases r with
  | ok a => exact hok a hr g'
  | error e => exact herror e

/-- Sequencing of scripts that may fail. -/
theorem above_scriptE_bind {p : SyncScript α} {f : α → SyncScript β}
    {P : Except SyncError α → Prop} {Q : Except SyncError β → Prop}
    (hp : Above n (Script.toProgE p).run P)
    (hok : ∀ a, P (.ok a) → Above n (Script.toProgE (f a)).run Q)
    (herror : ∀ e, Q (.error e)) : Above n (Script.toProgE (p >>= f)).run Q := by
  rw [Script.toProgE_bind]
  exact above_bindE hp hok herror

/-- **A call above the cursor.** -/
theorem above_call {c : SyncCall} {k : c.Answer → Prog SyncSig α} {Q : α → Prop}
    (hread : ¬ c.IsRead) (hc : ∀ h ∈ c.indexHeights, n < h)
    (hk : ∀ r, Plausible c r → Above n (k r) Q) : Above n (.call c k) Q := by
  rintro g g₁ rfl rfl r g₂ ⟨hr, ⟨-, rfl⟩ | ⟨hstray, -⟩⟩
  · have hsame : LastRead.next (.read n) c r = .read n := by
      cases c with
      | readCursor => exact absurd trivial hread
      | _ => rfl
    rw [hsame]
    exact ⟨rfl, rfl, hk r hr _⟩
  · exact absurd hc hstray

theorem above_ask {c : SyncCall} {Q : c.Answer → Prop} (hread : ¬ c.IsRead)
    (hc : ∀ h ∈ c.indexHeights, n < h) (hQ : ∀ r, Plausible c r → Q r) : Above n c.await Q :=
  above_call hread hc fun r hr => above_pure (hQ r hr)

/-- A call for no height. -/
theorem above_quiet {c : SyncCall} (hread : ¬ c.IsRead) (hc : c.indexHeights = []) :
    Above n c.await fun _ => True := by
  refine above_ask hread ?_ fun _ _ => trivial
  simp [hc]

/-- A retried call promises of its value what a single attempt promises. -/
theorem above_withRetry {op : Script SyncSig (Except ChainError α)} {Q : α → Prop}
    (hop : Above n op.toProg fun r => ∀ v, r = .ok v → Q v) :
    Above n (Script.toProgE (withRetry op)).run fun r => ∀ v, r = .ok v → Q v := by
  have hsleep : ∀ nanos, Above n (sleepFor nanos).toProg fun _ => True :=
    fun nanos => above_quiet (c := .sleep nanos) (fun h => h) rfl
  intro g
  refine wp_script_bind (wp_mono (fun r g₁ hr => ?_)
    (wp_retryFrom hop (fun nanos => hsleep nanos) _ _ g))
  cases r with
  | ok v =>
      intro v' hv
      exact hr v' (congrArg Except.ok (Except.ok.inj hv))
  | error e => exact fun v hv => absurd hv (by simp)

/-! ### The parts of a walk -/

theorem above_restBlock {h : Int} (hn : n < h) :
    Above n (Script.toProgE (withRetry (RestClient.block h))).run
      fun r => ∀ o, r = .ok o → ∀ block, o = some block → block.index = h := by
  refine above_withRetry (above_ask (c := .chain (.restBlock h)) (fun h => h) ?_ ?_)
  · intro k hk
    obtain rfl := List.mem_singleton.mp hk
    exact hn
  · intro r hr o ho block hblock
    subst ho
    subst hblock
    exact hr

theorem above_logs {h : Int} (hn : n < h) :
    Above n (Script.toProgE (withRetry (ChainProvider.logsInRange h h))).run fun _ => True := by
  refine Above.mono (above_withRetry (Q := fun _ => True) ?_) fun _ _ => trivial
  unfold ChainProvider.logsInRange logsInRange
  rw [if_neg (lt_irrefl h)]
  by_cases hneg : heightAsU64 h = none
  · rw [if_pos hneg]
    exact above_pure fun _ _ => trivial
  · rw [if_neg hneg, if_neg hneg]
    refine above_ask (c := .chain (.getLogs h h)) (fun h => h) ?_ fun _ _ _ _ => trivial
    intro k hk
    have := mem_inclusive.mp hk
    omega

theorem above_transact {t : Txn} (ht : ∀ h ∈ t.heights, n < h) :
    Above n (Script.toProgE (transact t)).run fun _ => True :=
  above_ask (c := .transact t) (fun h => h) ht fun _ _ => trivial

theorem above_pushAll (rows : List RawTxRow) : Above n (pushAll rows).toProg fun _ => True := by
  induction rows with
  | nil => exact above_pure trivial
  | cons row rest ih =>
      refine above_call (c := .push row) (fun h => h) (by simp [SyncCall.indexHeights])
        fun r _ => ?_
      cases r with
      | true => exact ih
      | false => exact above_pure trivial

/-- The rows are pushed after the commit, if a handle is wired. -/
theorem above_thenPush (analytics : Bool) {t : Txn} {rows : List RawTxRow}
    (ht : ∀ h ∈ t.heights, n < h) :
    Above n (Script.toProgE (do
      transact t
      if analytics then ExceptT.lift (pushAll rows) : SyncScript Unit)).run fun _ => True := by
  refine above_scriptE_bind (above_transact ht) (fun _ _ => ?_) fun _ => trivial
  cases analytics with
  | false => exact above_pure trivial
  | true => exact fun g => wp_script_bind (wp_mono (fun _ _ _ => trivial) (above_pushAll rows g))

theorem above_writeBlock (analytics : Bool) {b : BlockBundle} (hb : n < b.block.height) :
    Above n (Script.toProgE (writeBlock analytics b)).run fun _ => True := by
  refine above_thenPush analytics fun h hh => ?_
  obtain rfl := List.mem_singleton.mp hh
  exact hb

theorem above_batchWriteBlocks (analytics : Bool) {bundles : List BlockBundle}
    (hb : ∀ b ∈ bundles, n < b.block.height) :
    Above n (Script.toProgE (batchWriteBlocks analytics bundles)).run fun _ => True := by
  unfold batchWriteBlocks
  by_cases hempty : bundles.isEmpty = true
  · rw [if_pos hempty]
    exact above_pure trivial
  · rw [if_neg hempty]
    refine above_thenPush analytics fun h hh => ?_
    obtain ⟨b, hmem, rfl⟩ := List.mem_map.mp hh
    exact hb b hmem

theorem above_fetchOne {h : Int} (hn : n < h) :
    Above n (fetchOne h).run.toProg fun r => ∀ b, r = .ok (some b) → b.block.height = h := by
  refine above_scriptE_bind (above_restBlock hn) (fun o ho => ?_) fun e b hb => by simp at hb
  cases o with
  | none => exact above_pure fun b hb => by simp at hb
  | some block =>
      refine above_scriptE_bind (above_logs hn) (fun logs _ => ?_) fun e b hb => by simp at hb
      refine above_scriptE_bind (P := fun r => r = assemble block logs) (above_pure rfl)
        (fun b hb => ?_) fun e b hb => by simp at hb
      refine above_pure fun b' hb' => ?_
      obtain rfl := Option.some.inj (Except.ok.inj hb')
      exact (assemble_ok hb.symm).2.1.trans (ho _ rfl block rfl)

theorem above_ingestOne (analytics : Bool) {h : Int} (hn : n < h) :
    Above n (Script.toProgE (ingestOne analytics h)).run fun _ => True := by
  refine above_scriptE_bind (above_restBlock hn) (fun o ho => ?_) fun _ => trivial
  cases o with
  | none =>
      refine above_transact fun k hk => ?_
      obtain rfl := List.mem_singleton.mp hk
      exact hn
  | some block =>
      refine above_scriptE_bind (above_logs hn) (fun logs _ => ?_) fun _ => trivial
      refine above_scriptE_bind (P := fun r => r = assemble block logs) (above_pure rfl)
        (fun b hb => ?_) fun _ => trivial
      refine above_writeBlock analytics ?_
      rw [(assemble_ok hb.symm).2.1, ho _ rfl block rfl]
      exact hn

theorem above_ingestAll (analytics : Bool) {hs : List Int} (hn : ∀ h ∈ hs, n < h) :
    Above n (Script.toProgE (ingestAll analytics hs)).run fun _ => True := by
  induction hs with
  | nil => exact above_pure trivial
  | cons h rest ih =>
      refine above_scriptE_bind (above_ingestOne analytics (hn h (List.mem_cons_self ..)))
        (fun _ _ => ?_) fun _ => trivial
      exact ih fun k hk => hn k (List.mem_cons_of_mem _ hk)

/-! ### The backfill loop -/

/-- Everything the loop has in hand is above `n`. -/
structure HandAbove (n : Int) (s : BackfillState) : Prop where
  buf : ∀ b ∈ s.buf, n < b.block.height
  todo : ∀ h ∈ s.pipe.heights, n < h
  inflight : ∀ e ∈ s.pipe.inflight,
    Above n e.2.toProg fun r => ∀ b, r = .ok (some b) → b.block.height = e.1

theorem above_flush (analytics : Bool) {s : BackfillState}
    (hbuf : ∀ b ∈ s.buf, n < b.block.height) :
    Above n (Script.toProgE (flush analytics s)).run fun r =>
      ∀ s', r = .ok s' → s'.pipe = s.pipe ∧ ∀ b ∈ s'.buf, n < b.block.height := by
  unfold flush
  rcases highest s.buf with _ | top
  · refine above_pure fun s' hs' => ?_
    obtain rfl := Except.ok.inj hs'
    exact ⟨rfl, hbuf⟩
  · refine above_scriptE_bind (above_batchWriteBlocks analytics hbuf) (fun _ _ => ?_)
      fun e s' hs' => by simp at hs'
    refine above_pure fun s' hs' => ?_
    obtain rfl := Except.ok.inj hs'
    exact ⟨rfl, by simp⟩

theorem above_takeResult (analytics : Bool) {s : BackfillState} {h : Int}
    {fetched : Option BlockBundle} (hn : n < h) (hbuf : ∀ b ∈ s.buf, n < b.block.height)
    (hfetched : ∀ b, fetched = some b → b.block.height = h) :
    Above n (Script.toProgE (takeResult analytics s h fetched)).run fun r =>
      ∀ s', r = .ok s' → s'.pipe = s.pipe ∧ ∀ b ∈ s'.buf, n < b.block.height := by
  cases fetched with
  | some bundle =>
      refine above_pure fun s' hs' => ?_
      obtain rfl := Except.ok.inj hs'
      refine ⟨rfl, fun b hb => ?_⟩
      rcases List.mem_append.mp hb with hold | hnew
      · exact hbuf b hold
      · obtain rfl := List.mem_singleton.mp hnew
        rw [hfetched _ rfl]
        exact hn
  | none =>
      have hskip : ∀ k ∈ (Txn.writeCursor h 0).heights, n < k := by
        intro k hk
        obtain rfl := List.mem_singleton.mp hk
        exact hn
      have hgap : Above n (Script.toProgE (do
          transact (.writeCursor h 0)
          return { s with buf := [], cursor := h } : SyncScript BackfillState)).run fun r =>
          ∀ s', r = .ok s' → s'.pipe = s.pipe ∧ ∀ b ∈ s'.buf, n < b.block.height := by
        refine above_scriptE_bind (above_transact hskip) (fun _ _ => ?_)
          fun e s' hs' => by simp at hs'
        refine above_pure fun s' hs' => ?_
        obtain rfl := Except.ok.inj hs'
        exact ⟨rfl, by simp⟩
      by_cases hnil : s.buf = []
      · rw [takeResult_none_of_nil analytics hnil]
        exact hgap
      · rw [takeResult_none_of_ne_nil analytics hnil]
        exact above_scriptE_bind (above_batchWriteBlocks analytics hbuf) (fun _ _ => hgap)
          fun e s' hs' => by simp at hs'

theorem above_nextItem {tuning : Tuning} {s : BackfillState} (hs : HandAbove n s) (g : LastRead) :
    wp guarded (· = .read n) Eq Eq (Prog.iterate (pollNext tuning) s.pipe)
      (fun next g' => g = g' ∧ NextPost guarded (· = .read n) (fun _ => True) Eq Eq
        (fun h r _ => ∀ b, r = .ok (some b) → b.block.height = h) s.pipe.heights next g') g := by
  have htrans : ∀ g₁ g₂ g₃ : LastRead, g₁ = g₂ → g₂ = g₃ → g₁ = g₃ := fun _ _ _ => Eq.trans
  refine wp_nextItem (fun _ => rfl) htrans htrans (fun _ _ h => h) (fun _ _ h => ⟨h, h⟩)
    (fun _ _ h => h) ?_ ?_ ?_ ?_ fun e he => hs.inflight e he g
  · rintro h r g₁ g₂ hq rfl -
    exact hq
  · rintro g₁ rfl
    have hquiet := above_quiet (n := n) (c := .isCancelled) (fun h => h) rfl (.read n)
    exact wp_mono (fun _ g₂ hg => ⟨hg.1, hg.2.1, fun _ => trivial⟩) (wp_with_inv rfl
      (wp_since (fun _ => rfl) htrans (fun _ _ h => h) hquiet))
  · rintro hs' g₁ rfl
    have hquiet := above_quiet (n := n) (c := .schedule hs') (fun h => h) rfl (.read n)
    exact wp_mono (fun _ g₂ hg => ⟨hg.1, hg.2.1⟩) (wp_with_inv rfl
      (wp_since (fun _ => rfl) htrans (fun _ _ h => h) hquiet))
  · intro h hh g₁ _
    exact above_fetchOne (hs.todo h hh) g₁

/-- **One pass of the backfill loop stays above the cursor.** -/
theorem above_backfillPass (tuning : Tuning) (analytics : Bool) {s : BackfillState}
    (hs : HandAbove n s) :
    Above n (backfillPass tuning analytics s).run fun r =>
      ∀ s', r = .ok (.inl s') → HandAbove n s' := by
  have hleave : Above n (do
      let s ← Script.toProgE (flush analytics s)
      return .inr s.cursor : SyncProg (BackfillState ⊕ Int)).run fun r =>
      ∀ s', r = .ok (.inl s') → HandAbove n s' := by
    refine above_bindE (above_flush analytics hs.buf) (fun _ _ => above_pure ?_) ?_
    · exact fun s' hs' => by simp at hs'
    · exact fun e s' hs' => by simp at hs'
  refine above_of_read (wp_bindE (wp_bind (wp_mono ?_ (above_nextItem hs (.read n)))))
  rintro next _ ⟨rfl, hpost⟩
  cases next with
  | cancelled => exact hleave _
  | finished => exact hleave _
  | item k result rest =>
      obtain ⟨hkeys, hfetch, hpool⟩ := hpost
      have hk : n < k := hs.todo k (by rw [hkeys]; exact List.mem_cons_self ..)
      have hrest : ∀ h ∈ rest.heights, n < h :=
        fun h hh => hs.todo h (by rw [hkeys]; exact List.mem_cons_of_mem _ hh)
      have hflight : ∀ e ∈ rest.inflight,
          Above n e.2.toProg fun r => ∀ b, r = .ok (some b) → b.block.height = e.1 :=
        fun e he => above_of_read (hpool e he)
      have hbody : Above n (do
          let fetched ← ExceptT.mk (Prog.pure result)
          let s ← Script.toProgE (takeResult analytics { s with pipe := rest } k fetched)
          if tuning.batchSize ≤ s.buf.length then
            let s ← Script.toProgE (flush analytics s)
            return .inl s
          else return .inl s : SyncProg (BackfillState ⊕ Int)).run fun r =>
          ∀ s', r = .ok (.inl s') → HandAbove n s' := by
        refine above_bindE (P := fun r => r = result) (above_pure rfl) (fun fetched hf => ?_)
          fun e s' hs' => by simp at hs'
        subst hf
        refine above_bindE (above_takeResult analytics hk hs.buf
          fun b hb => hfetch b (congrArg Except.ok hb)) (fun s₁ hs₁ => ?_)
          fun e s' hs' => by simp at hs'
        obtain ⟨hpipe, hbuf⟩ := hs₁ s₁ rfl
        by_cases hfull : tuning.batchSize ≤ s₁.buf.length
        · simp only [hfull, if_true]
          refine above_bindE (above_flush analytics hbuf) (fun s₂ hs₂ => above_pure ?_)
            fun e s' hs' => by simp at hs'
          intro s' hs'
          obtain rfl := Sum.inl.inj (Except.ok.inj hs')
          obtain ⟨hpipe₂, hbuf₂⟩ := hs₂ _ rfl
          have heq := hpipe₂.trans hpipe
          exact ⟨hbuf₂, heq ▸ hrest, heq ▸ hflight⟩
        · simp only [hfull, if_false]
          refine above_pure fun s' hs' => ?_
          obtain rfl := Sum.inl.inj (Except.ok.inj hs')
          exact ⟨hbuf, hpipe ▸ hrest, hpipe ▸ hflight⟩
      exact hbody _

/-! ### Whole programs -/

/-- The program never strays. -/
def Tame (p : Prog SyncSig α) (Q : α → LastRead → Prop) (g : LastRead) : Prop :=
  wp guarded (· ≠ .strayed) Eq (fun _ _ => True) p Q g

theorem Above.tame {p : Prog SyncSig α} {Q : α → Prop} (h : Above n p Q) :
    Tame p (fun a g => g ≠ .strayed ∧ Q a) (.read n) := by
  have hne : ∀ g : LastRead, g = .read n → g ≠ .strayed := by
    rintro g rfl
    simp
  have hread : ∀ g g' : LastRead, g = .read n → g = g' → g' = .read n := by
    rintro g g' rfl rfl
    rfl
  exact wp_weaken (fun _ _ h => h) (fun _ _ _ => trivial) (wp_inv_mono hne hread rfl
    (wp_mono (fun a g hg => ⟨hne g hg.1, hg.2⟩) (wp_with_inv rfl (h (.read n)))))

/-- **The cursor read** says what the walk may call for. -/
theorem tame_readCursor {g : LastRead} (hg : g ≠ .strayed) :
    Tame (Script.toProgE readCursorCall).run (fun r g' => match r with
      | .ok cursor => g' = .read (cursor.getD (-1))
      | .error _ => g' = .unread) g := by
  rintro g₁ rfl - r g₂ ⟨-, ⟨-, rfl⟩ | ⟨hstray, -⟩⟩
  · cases r with
    | ok cursor => exact ⟨by simp [LastRead.next], trivial, rfl⟩
    | error e => exact ⟨by simp [LastRead.next], trivial, rfl⟩
  · refine absurd ?_ hstray
    cases g with
    | unread => exact rfl
    | read m => exact fun k hk => absurd hk (by simp [SyncCall.indexHeights])
    | strayed => exact absurd rfl hg

theorem tame_runBackfill (cfg : SyncConfig) (tuning : Tuning) (analytics : Bool) :
    Tame (runBackfill cfg tuning analytics).run (fun _ _ => True) .unread := by
  refine wp_bindE (wp_mono ?_ (tame_readCursor (by simp)))
  intro r g hg
  cases r with
  | error e => exact trivial
  | ok cursor =>
      obtain rfl : g = .read (cursor.getD (-1)) := hg
      have htip : Above (cursor.getD (-1))
          (Script.toProgE (withRetry ChainProvider.blockNumber)).run fun _ => True :=
        Above.mono (above_withRetry (Q := fun _ => True) (above_ask (c := .chain .blockNumber)
          (fun h => h) (by simp [SyncCall.indexHeights]) fun _ _ _ _ => trivial)) fun _ _ => trivial
      refine wp_mono (fun _ _ _ => trivial) (Above.tame (Q := fun _ => True) ?_)
      refine above_bindE htip (fun tip _ => ?_) fun _ => trivial
      by_cases hcap : backfillCap cfg tip ≤ cursor.getD (-1)
      · simp only [hcap, if_true]
        exact above_pure trivial
      · simp only [hcap, if_false]
        refine fun g => wp_iterateE (fun s _ => HandAbove (cursor.getD (-1)) s)
          (fun _ _ _ hJ _ _ => hJ) ⟨by simp, ?_, by simp⟩ ?_
        · intro h hh
          have := mem_inclusive.mp (by simpa [Pipeline.heights] using hh)
          omega
        · intro s g₁ _ hJ
          refine wp_mono (fun r g₂ hr => ?_) (above_backfillPass tuning analytics hJ g₁)
          rcases r with e | s' | m
          · exact trivial
          · exact hr s' rfl
          · exact trivial

theorem tame_walkPass (cfg : SyncConfig) (analytics : Bool) (current : Int) {g : LastRead}
    (hg : g ≠ .strayed) :
    Tame (Script.toProgE (walkPass cfg analytics current)).run (fun _ g' => g' ≠ .strayed) g := by
  unfold walkPass
  rw [Script.toProgE_bind]
  refine wp_bindE (wp_mono ?_ (tame_readCursor hg))
  intro r g₁ hg₁
  cases r with
  | error e =>
      obtain rfl : g₁ = .unread := hg₁
      exact fun h => by simp at h
  | ok cursor =>
      obtain rfl : g₁ = .read (cursor.getD (-1)) := hg₁
      have hdone : Above (cursor.getD (-1)) (Script.toProgE takeNext).run fun _ => True := by
        refine above_scriptE_bind (P := fun _ => True) ?_ (fun o _ => ?_) fun _ => trivial
        · exact above_call (c := .takePendingAndRelease) (fun h => h)
            (by simp [SyncCall.indexHeights]) fun _ _ => above_pure trivial
        · cases o with
          | none => exact above_pure trivial
          | some next => exact above_pure trivial
      refine wp_mono (fun _ _ h => h.1) (Above.tame (Q := fun _ => True) ?_)
      by_cases hwalk : cursor.getD (-1) < saturatingSub current (asI64 cfg.safeLag)
      · simp only [hwalk, if_true]
        refine above_scriptE_bind (above_ingestAll analytics fun h hh => ?_)
          (fun _ _ => hdone) fun _ => trivial
        have := mem_inclusive.mp hh
        omega
      · simp only [hwalk, if_false]
        exact hdone

theorem tame_handleFinalized (cfg : SyncConfig) (analytics : Bool) (tip : Int) :
    Tame (handleFinalized cfg analytics tip).run (fun _ _ => True) .unread := by
  refine wp_bindE (wp_bind ?_)
  rintro g rfl - offer g₁ ⟨-, ⟨-, rfl⟩ | ⟨hstray, -⟩⟩
  · refine ⟨by simp [LastRead.next], trivial, ?_⟩
    cases offer with
    | stashed => exact trivial
    | acquired h =>
        refine wp_iterateE (fun _ g => g ≠ .strayed) ?_ (by simp [LastRead.next]) ?_
        · rintro s g g' hJ rfl -
          exact hJ
        · intro current g₂ hg₂ _
          refine wp_mono (fun r g₃ hr => ?_) (tame_walkPass cfg analytics current hg₂)
          rcases r with e | next | u
          · exact trivial
          · exact hr
          · exact trivial
  · exact absurd rfl hstray

/-- **A writer task never strays.** -/
theorem WriterTask.tame {p : Prog SyncSig Unit} (h : WriterTask p) :
    Tame p (fun _ _ => True) .unread := by
  cases h with
  | backfill cfg tuning analytics =>
      exact wp_bind (wp_mono (fun _ _ _ => trivial) (tame_runBackfill cfg tuning analytics))
  | finalized cfg analytics tip =>
      exact wp_bind (wp_mono (fun _ _ _ => trivial) (tame_handleFinalized cfg analytics tip))

end SentrixIndexer
