/-
One writer for each height.

The gate keeps tail walks apart, but nothing keeps a backfill pass and a tail walk apart:
both start right above the cursor they have read.  Two tasks meet at a height when one
starts its walk while the other is still in one, or when it starts from a cursor that has
moved on since it was read.  Where every walk starts alone, at most one task is in a walk
at any time, and it goes through heights that nobody has committed before.
-/
import SentrixIndexer.Proofs.Refinement
import SentrixIndexer.Proofs.WalkGuard
import SentrixIndexer.Proofs.MixedForks
import SentrixIndexer.Sync.Nodes

namespace SentrixIndexer

open Effect

variable {χ : Type} {rpc : Rpc χ} {moves : χ → χ → Prop} {i j : TaskId}
variable {c c' : Config SyncSig TaskId (Watched χ) Unit}

/-! ### What a tame program may call -/

section Tame

variable {α : Type} {Q : α → LastRead → Prop} {g : LastRead}

theorem Tame.call {call : SyncCall} {k : call.Answer → Prog SyncSig α} {r : call.Answer}
    (h : Tame (.call call k) Q g) (hg : g ≠ .strayed) (hr : Plausible call r) :
    g.Allows call ∧ g.next call r ≠ .strayed ∧ Tame (k r) Q (g.next call r) := by
  have hallows : g.Allows call := by
    by_contra hstray
    exact (h g rfl hg r .strayed ⟨hr, Or.inr ⟨hstray, rfl⟩⟩).1 rfl
  obtain ⟨hne, -, hk⟩ := h g rfl hg r _ ⟨hr, Or.inl ⟨hallows, rfl⟩⟩
  exact ⟨hallows, hne, hk⟩

theorem Tame.loop {σ β : Type} {body : σ → Prog SyncSig (σ ⊕ β)} {s : σ}
    {k : β → Prog SyncSig α} (h : Tame (.loop body s k) Q g) (hg : g ≠ .strayed) :
    Tame ((body s).bind (Prog.again body k)) Q g :=
  (wp_step (fun _ => rfl) (fun _ => trivial) h hg (Step.loop _ body s k)).2.2

/-- A call for a height can be answered by an error. -/
theorem exists_plausible {call : SyncCall} (hc : call.indexHeights ≠ []) :
    ∃ r, Plausible call r := by
  cases call with
  | chain c =>
      cases c with
      | restBlock h => exact ⟨.error (.rpc ""), trivial⟩
      | getLogs fromBlock toBlock => exact ⟨.error (.rpc ""), trivial⟩
      | _ => exact absurd rfl hc
  | transact t => exact ⟨.ok (), trivial⟩
  | _ => exact absurd rfl hc

/-- The nodes answer plausibly. -/
theorem plausible_of_handle (hrest : FaithfulHeights rpc) {w w' : World χ} {call : SyncCall}
    {r : call.Answer} (h : handle rpc i w call r w') : Plausible call r := by
  unfold Plausible
  split
  · obtain ⟨chain', hr, -⟩ := h
    exact hrest _ _ _ _ hr
  · trivial

/-- Between two cursor reads nothing changes what is allowed. -/
theorem LastRead.next_of_not_read {call : SyncCall} (hread : ¬ call.IsRead) (g : LastRead)
    (r : call.Answer) : g.next call r = g := by
  cases call with
  | readCursor => exact absurd trivial hread
  | _ => rfl

/-- **The calls a tame program may come to in this walk are allowed.** -/
theorem Tame.allows (hrest : FaithfulHeights rpc) {B : SyncCall → Prop}
    (hB : ∀ call, B call → call.indexHeights ≠ []) {p : Prog SyncSig α} (h : Tame p Q g)
    (hg : g ≠ .strayed) (hm : MayCall (watch rpc i) SyncCall.IsRead B p) :
    ∃ call, B call ∧ g.Allows call := by
  induction hm with
  | @here call k hb =>
      obtain ⟨r, hr⟩ := exists_plausible (hB call hb)
      exact ⟨call, hb, (h.call hg hr).1⟩
  | later hread hH _ ih =>
      obtain ⟨-, -, hk⟩ := h.call hg (plausible_of_handle hrest hH.1)
      rw [LastRead.next_of_not_read hread] at hk
      exact ih hk
  | loop _ ih => exact ih (h.loop hg)

end Tame

/-! ### The cursor and what has been committed -/

/-- The cursor is set, at the height or above it. -/
def AtOrBelow (s : Store) (h : Int) : Prop := ∃ n, readCursor s = some n ∧ h ≤ n

theorem AtOrBelow.le_cursor {s : Store} {h : Int} (ha : AtOrBelow s h) : h ≤ s.cursor := by
  obtain ⟨n, hn, hle⟩ := ha
  unfold Store.cursor
  rw [hn]
  exact hle

/-- **A transaction leaves the cursor at or above all it writes**, and never lowers it. -/
theorem Txn.run_atOrBelow {t : Txn} {s s' : Store} (h : t.run s = .ok s') {k : Int}
    (hk : k ∈ t.heights ∨ AtOrBelow s k) : AtOrBelow s' k := by
  have hadvance : ∀ {target : Int}, readCursor s' = advanced (some target) (readCursor s) →
      (k ∈ t.heights → k ≤ target) → AtOrBelow s' k := by
    intro target hcur hle
    unfold AtOrBelow
    rw [hcur]
    rcases hk with hmem | ⟨n, hn, hkn⟩
    · cases hc : readCursor s with
      | none => exact ⟨target, rfl, hle hmem⟩
      | some c => exact ⟨_, rfl, le_max_of_le_right (hle hmem)⟩
    · rw [hn]
      exact ⟨_, rfl, le_max_of_le_left hkn⟩
  cases t with
  | writeBlock b =>
      refine hadvance (writeBlockTx_written h).cursor fun hmem => ?_
      exact le_of_eq (List.mem_singleton.mp hmem)
  | batchWriteBlocks bundles =>
      have hcur := (batchWriteBlocksTx_written h).cursor
      rcases hmax : (bundles.map fun b => b.block.height).max? with _ | top
      · have hnil : Txn.heights (.batchWriteBlocks bundles) = [] := List.max?_eq_none_iff.mp hmax
        rw [hmax] at hcur
        rcases hk with hmem | ⟨n, hn, hkn⟩
        · rw [hnil] at hmem
          exact absurd hmem (by simp)
        · exact ⟨n, hcur.trans hn, hkn⟩
      · rw [hmax] at hcur
        exact hadvance hcur fun hmem => (List.max?_eq_some_iff.mp hmax).2 k hmem
  | writeCursor g nowTs =>
      refine hadvance (writeCursor_written h).cursor fun hmem => ?_
      exact le_of_eq (List.mem_singleton.mp hmem)
  | rewindTo d =>
      have hcursor : readCursor s' = advanced (some (saturatingSub d 1)) (readCursor s) := by
        rw [(rewindTx_rewoundTo h).cursor]
        rfl
      exact hadvance hcursor fun hmem => absurd hmem (by simp [Txn.heights])

/-- What a call can commit. -/
theorem handle_commits {w w' : World χ} {call : SyncCall} {r : call.Answer}
    (h : handle rpc i w call r w') :
    (w'.store = w.store ∧
      ∀ j t, Event.committed j t ∈ w'.events → Event.committed j t ∈ w.events) ∨
    ∃ t s, call = .transact t ∧ t.run w.store = .ok s ∧ w' = w.commit i t s := by
  cases handle_step h with
  | stay => exact Or.inl ⟨rfl, fun _ _ he => he⟩
  | chain _ => exact Or.inl ⟨rfl, fun _ _ => committed_of_noteAnswer⟩
  | commit hrun => exact Or.inr ⟨_, _, rfl, hrun, rfl⟩
  | offer tip gate => exact Or.inl ⟨rfl, fun _ _ he => he⟩
  | take gate => exact Or.inl ⟨rfl, fun _ _ he => he⟩
  | push row => exact Or.inl ⟨rfl, fun _ _ he => by simpa using he⟩

/-! ### One step of a run -/

/-- A call that is no cursor read adds its heights to the walk. -/
theorem Walk.note_of_not_read (v : Walk) {call : SyncCall} (hread : ¬ call.IsRead)
    (r : call.Answer) : v.note call r = ⟨v.cursor, call.indexHeights ++ v.touched⟩ := by
  cases call with
  | readCursor => exact absurd trivial hread
  | _ => rfl

/-- After a cursor read nothing has been touched yet. -/
theorem Walk.touched_of_read (v : Walk) {call : SyncCall} (hread : call.IsRead)
    (r : call.Answer) : (v.note call r).touched = [] := by
  cases call with
  | readCursor => cases r <;> rfl
  | _ => exact absurd hread fun h => h

theorem StillMay.of_prog {B : SyncCall → Prop} (h : c'.prog j = c.prog j)
    (hm : StillMay rpc c' j B) : StillMay rpc c j B := by
  obtain ⟨p, hp, hcall⟩ := hm
  exact ⟨p, h ▸ hp, hcall⟩

/-- **Who is in a walk after a call** was in one before, or has just begun one. -/
theorem inWalk_call {call : SyncCall} {k : call.Answer → Prog SyncSig Unit} {r : call.Answer}
    {x : Watched χ} (hp : c.prog i = some (.call call k)) (hH : watch rpc i c.world call r x)
    (hw : InWalk rpc ⟨x, Function.update c.prog i (some (k r))⟩ j) :
    (InWalk rpc c j ∧ (x.walk j).cursor = (c.world.walk j).cursor) ∨
      j = i ∧ call.indexHeights ≠ [] ∧ (c.world.walk i).touched = [] ∧
        (x.walk i).cursor = (c.world.walk i).cursor := by
  obtain ⟨htouched, hmay⟩ := hw
  have hwalk := hH.2
  by_cases hji : j = i
  · subst hji
    have hself : x.walk j = (c.world.walk j).note call r := by
      rw [hwalk, Function.update_self]
    by_cases hread : call.IsRead
    · exact absurd (hself ▸ Walk.touched_of_read _ hread r) htouched
    · rw [Walk.note_of_not_read _ hread] at hself
      have hcursor : (x.walk j).cursor = (c.world.walk j).cursor := by rw [hself]
      by_cases hheights : call.indexHeights = []
      · -- The call touched nothing: the walk was already under way.
        obtain ⟨p, hp', hcall⟩ := hmay
        obtain rfl : k r = p := Option.some.inj (by simpa using hp')
        refine Or.inl ⟨⟨?_, _, hp, .later hread hH hcall⟩, hcursor⟩
        have hsame : (x.walk j).touched = (c.world.walk j).touched := by
          rw [hself, hheights, List.nil_append]
        rw [← hsame]
        exact htouched
      · by_cases hfirst : (c.world.walk j).touched = []
        · exact Or.inr ⟨rfl, hheights, hfirst, hcursor⟩
        · exact Or.inl ⟨⟨hfirst, _, hp, .here hheights⟩, hcursor⟩
  · have hother : x.walk j = c.world.walk j := by rw [hwalk, Function.update_of_ne hji]
    refine Or.inl ⟨⟨hother ▸ htouched, StillMay.of_prog ?_ hmay⟩, by rw [hother]⟩
    exact Function.update_of_ne hji _ _

/-- What holds in the runs whose walks all start alone. -/
structure WalksAlone (rpc : Rpc χ) (c : Config SyncSig TaskId (Watched χ) Unit) : Prop where
  /-- A task has not read the cursor yet, or keeps above the one it has read. -/
  tame : ∀ i p, c.prog i = some p → Tame p (fun _ _ => True) .unread ∨
    Tame p (fun _ _ => True) (.read (c.world.walk i).cursor)
  exclusive : ∀ i j, InWalk rpc c i → InWalk rpc c j → i = j
  /-- What the other tasks have committed is not above the cursor the walk started from. -/
  ahead : ∀ i, InWalk rpc c i → ∀ j, j ≠ i → ∀ t, .committed j t ∈ c.world.world.events →
    ∀ h ∈ t.heights, h ≤ (c.world.walk i).cursor
  behind : ∀ j t, .committed j t ∈ c.world.world.events → ∀ h ∈ t.heights,
    AtOrBelow c.world.world.store h

/-- The program of a task goes on tame after a call. -/
theorem WalksAlone.tame_call (hrest : FaithfulHeights rpc) (h : WalksAlone rpc c)
    {call : SyncCall} {k : call.Answer → Prog SyncSig Unit} {r : call.Answer} {x : Watched χ}
    (hp : c.prog i = some (.call call k)) (hH : watch rpc i c.world call r x) :
    Tame (k r) (fun _ _ => True) .unread ∨
      Tame (k r) (fun _ _ => True) (.read (x.walk i).cursor) := by
  have hplausible := plausible_of_handle hrest hH.1
  have hself : x.walk i = (c.world.walk i).note call r := by rw [hH.2, Function.update_self]
  have hnext : ∀ g : LastRead, g ≠ .strayed →
      (g = .unread ∨ g = .read (c.world.walk i).cursor) →
      Tame (.call call k) (fun _ _ => True) g →
      Tame (k r) (fun _ _ => True) .unread ∨
        Tame (k r) (fun _ _ => True) (.read (x.walk i).cursor) := by
    intro g hg hcases htame
    obtain ⟨-, -, hk⟩ := htame.call hg hplausible
    by_cases hread : call.IsRead
    · cases call with
      | readCursor =>
          cases r with
          | ok cursor =>
              rw [hself]
              exact Or.inr hk
          | error e => exact Or.inl hk
      | _ => exact absurd hread fun h => h
    · rw [LastRead.next_of_not_read hread] at hk
      rw [Walk.note_of_not_read _ hread] at hself
      rw [hself]
      rcases hcases with rfl | rfl
      · exact Or.inl hk
      · exact Or.inr hk
  rcases h.tame i _ hp with hunread | hafter
  · exact hnext _ (by simp) (Or.inl rfl) hunread
  · exact hnext _ (by simp) (Or.inr rfl) hafter

/-- **A call of a walk that starts alone.** -/
theorem WalksAlone.call (hrest : FaithfulHeights rpc) (h : WalksAlone rpc c)
    {call : SyncCall} {k : call.Answer → Prog SyncSig Unit} {r : call.Answer} {x : Watched χ}
    (hp : c.prog i = some (.call call k)) (hH : watch rpc i c.world call r x)
    (halone : StartsAlone rpc c (.call i call)) :
    WalksAlone rpc ⟨x, Function.update c.prog i (some (k r))⟩ := by
  -- What others than the caller have committed was committed before.
  have hold : ∀ j, j ≠ i → ∀ t, .committed j t ∈ x.world.events →
      .committed j t ∈ c.world.world.events := by
    intro j hj t ht
    rcases handle_commits hH.1 with ⟨-, hevents⟩ | ⟨u, s, rfl, -, hw⟩
    · exact hevents j t ht
    · rw [hw] at ht
      rcases List.mem_cons.mp ht with heq | hmem
      · exact absurd (Event.committed.inj heq).1 hj
      · exact hmem
  refine ⟨fun j p hpj => ?_, fun j₁ j₂ h₁ h₂ => ?_, fun j hj j' hne t ht n hn => ?_,
    fun j t ht n hn => ?_⟩
  · by_cases hji : j = i
    · subst hji
      obtain rfl : k r = p := Option.some.inj (by simpa using hpj)
      exact h.tame_call hrest hp hH
    · have hwalk : x.walk j = c.world.walk j := by rw [hH.2, Function.update_of_ne hji]
      rw [show (⟨x, _⟩ : Config SyncSig TaskId (Watched χ) Unit).world.walk j = x.walk j from rfl,
        hwalk]
      exact h.tame j p (by simpa [Function.update_of_ne hji] using hpj)
  · rcases inWalk_call hp hH h₁ with ⟨hw₁, -⟩ | ⟨rfl, hheights, hfirst, -⟩
    · rcases inWalk_call hp hH h₂ with ⟨hw₂, -⟩ | ⟨rfl, hheights, hfirst, -⟩
      · exact h.exclusive j₁ j₂ hw₁ hw₂
      · by_contra hne
        exact (halone hheights hfirst).2 j₁ hne hw₁
    · rcases inWalk_call hp hH h₂ with ⟨hw₂, -⟩ | ⟨rfl, -⟩
      · by_contra hne
        exact (halone hheights hfirst).2 j₂ (Ne.symm hne) hw₂
      · rfl
  · rcases inWalk_call hp hH hj with ⟨hw, hcursor⟩ | ⟨rfl, hheights, hfirst, hcursor⟩
    · show n ≤ (x.walk j).cursor
      rw [hcursor]
      have hbefore : .committed j' t ∈ c.world.world.events → n ≤ (c.world.walk j).cursor :=
        fun he => h.ahead j hw j' hne t he n hn
      rcases handle_commits hH.1 with ⟨-, hevents⟩ | ⟨u, s, rfl, -, hworld⟩
      · exact hbefore (hevents j' t ht)
      · rw [hworld] at ht
        rcases List.mem_cons.mp ht with heq | hmem
        · -- Another task that commits a height would be in a walk too.
          obtain ⟨rfl, rfl⟩ := Event.committed.inj heq
          have hheights : t.heights ≠ [] := List.ne_nil_of_mem hn
          by_cases hfirst : (c.world.walk j').touched = []
          · exact absurd hw ((halone hheights hfirst).2 j (Ne.symm hne))
          · exact absurd (h.exclusive j' j ⟨hfirst, _, hp, .here hheights⟩ hw) hne
        · exact hbefore hmem
    · -- The walk begins: the cursor it starts from is the persisted one.
      show n ≤ (x.walk j).cursor
      rw [hcursor, ← (halone hheights hfirst).1]
      exact (h.behind j' t (hold j' hne t ht) n hn).le_cursor
  · show AtOrBelow x.world.store n
    rcases handle_commits hH.1 with ⟨hstore, hevents⟩ | ⟨u, s, rfl, hrun, hw⟩
    · rw [hstore]
      exact h.behind j t (hevents j t ht) n hn
    · rw [hw] at ht ⊢
      refine Txn.run_atOrBelow hrun ?_
      rcases List.mem_cons.mp ht with heq | hmem
      · obtain ⟨rfl, rfl⟩ := Event.committed.inj heq
        exact Or.inl hn
      · exact Or.inr (h.behind j t hmem n hn)

/-! ### Silent moves -/

/-- A change of one program that brings nobody into a walk. -/
theorem WalksAlone.silent (h : WalksAlone rpc c)
    (hstore : c'.world.world.store = c.world.world.store)
    (hevents : c'.world.world.events = c.world.world.events)
    (hwalk : c'.world.walk = c.world.walk) (hin : ∀ j, InWalk rpc c' j → InWalk rpc c j)
    (htame : ∀ j p, c'.prog j = some p → Tame p (fun _ _ => True) .unread ∨
      Tame p (fun _ _ => True) (.read (c.world.walk j).cursor)) : WalksAlone rpc c' where
  tame j p hp := by
    rw [hwalk]
    exact htame j p hp
  exclusive i j hi hj := h.exclusive i j (hin i hi) (hin j hj)
  ahead i hi j hne t ht n hn := by
    rw [hwalk]
    exact h.ahead i (hin i hi) j hne t (hevents ▸ ht) n hn
  behind j t ht n hn := by
    rw [hstore]
    exact h.behind j t (hevents ▸ ht) n hn

/-- The program of one task changes. -/
theorem WalksAlone.update (h : WalksAlone rpc c) {o : Option (Prog SyncSig Unit)}
    (hin : InWalk rpc ⟨c.world, Function.update c.prog i o⟩ i → InWalk rpc c i)
    (htame : ∀ p, o = some p → Tame p (fun _ _ => True) .unread ∨
      Tame p (fun _ _ => True) (.read (c.world.walk i).cursor)) :
    WalksAlone rpc ⟨c.world, Function.update c.prog i o⟩ := by
  refine h.silent rfl rfl rfl (fun j hj => ?_) fun j p hp => ?_
  · by_cases hji : j = i
    · subst hji
      exact hin hj
    · exact ⟨hj.1, hj.2.of_prog (Function.update_of_ne hji _ _)⟩
  · by_cases hji : j = i
    · subst hji
      exact htame p (by simpa using hp)
    · exact h.tame j p (by simpa [Function.update_of_ne hji] using hp)

/-- **Every move of a run whose walks start alone.** -/
theorem WalksAlone.move (hrest : FaithfulHeights rpc) (h : WalksAlone rpc c)
    {l : Label SyncSig TaskId} (hm : LabelledMove (watchedIndexer rpc moves) c l c')
    (halone : StartsAlone rpc c l) : WalksAlone rpc c' := by
  cases hm with
  | start i p hidle hs =>
      have hp : Tame p (fun _ _ => True) .unread := WriterTask.tame hs
      refine h.update (fun hw => ?_) fun q hq => ?_
      · -- A program that has not read the cursor calls for no height.
        obtain ⟨-, q, hq, hcall⟩ := hw
        obtain rfl : p = q := Option.some.inj (by simpa using hq)
        obtain ⟨call, hheights, hallows⟩ := hp.allows hrest (fun _ h => h) (by simp) hcall
        exact absurd hallows hheights
      · obtain rfl := Option.some.inj hq
        exact Or.inl hp
  | call i hp hH => exact h.call hrest hp hH halone
  | loop i hp =>
      refine h.update (fun hw => ?_) fun q hq => ?_
      · obtain ⟨htouched, q, hq, hcall⟩ := hw
        obtain rfl := Option.some.inj ((by simpa using hq) : some _ = some q)
        exact ⟨htouched, _, hp, .loop hcall⟩
      · obtain rfl := Option.some.inj hq
        exact (h.tame i _ hp).imp (fun ht => ht.loop (by simp)) fun ht => ht.loop (by simp)
  | finish i hp =>
      refine h.update (fun hw => ?_) (by simp)
      obtain ⟨-, q, hq, -⟩ := hw
      exact absurd hq (by simp)
  | @env x he =>
      obtain ⟨hs, hwalk⟩ := he
      obtain ⟨hstore, hevents⟩ := hs.unchanged
      refine h.silent hstore hevents hwalk (fun j hj => ?_) fun j p hp => h.tame j p hp
      obtain ⟨htouched, p, hp, hcall⟩ := hj
      rw [show (⟨x, c.prog⟩ : Config SyncSig TaskId (Watched χ) Unit).world.walk = x.walk from rfl,
        hwalk] at htouched
      exact ⟨htouched, p, hp, hcall⟩
  | @crash x hc =>
      obtain ⟨hworld, hwalk⟩ := hc
      have hstore : x.world.store = c.world.world.store := by
        rw [hworld]
        rfl
      have hevents : x.world.events = c.world.world.events := by
        rw [hworld]
        rfl
      refine h.silent hstore hevents hwalk (fun j hj => ?_) ?_
      · obtain ⟨-, q, hq, -⟩ := hj
        exact absurd hq (by simp [Config.idle])
      · exact fun j p hp => absurd hp (by simp [Config.idle])

theorem walksAlone_init (chain : χ) :
    WalksAlone rpc (.idle (.init chain) : Config SyncSig TaskId (Watched χ) Unit) where
  tame i p hp := absurd hp (by simp [Config.idle])
  exclusive i j hi _ := by
    obtain ⟨-, p, hp, -⟩ := hi
    exact absurd hp (by simp [Config.idle])
  ahead i hi := by
    obtain ⟨-, p, hp, -⟩ := hi
    exact absurd hp (by simp [Config.idle])
  behind j t ht := absurd ht (by simp [Config.idle, Watched.init, World.init])

/-! ### A single writer for each height -/

/--
**No height has two writers** in the runs whose walks all start alone: in every state
reached no height is being ingested by two tasks, and no task that goes on in this way
fetches or writes a height that another one has committed.
-/
theorem single_writer_per_height (hrest : FaithfulHeights rpc) {chain : χ}
    (hc : RunOf (LabelledMove (watchedIndexer rpc moves)) (StartsAlone rpc)
      (.idle (.init chain)) c) :
    (∀ i j h, Ingesting rpc c i h → Ingesting rpc c j h → i = j) ∧
    ∀ i call c', LabelledMove (watchedIndexer rpc moves) c (.call i call) c' →
      StartsAlone rpc c (.call i call) → ∀ h ∈ call.indexHeights, ∀ j, j ≠ i → ∀ t,
        .committed j t ∈ c.world.world.events → h ∉ t.heights := by
  have halone : WalksAlone rpc c := by
    refine hc.inv (WalksAlone rpc) (walksAlone_init chain) ?_
    intro _ _ _ h hm hl
    exact h.move hrest hm hl
  have hwalk : ∀ i h, Ingesting rpc c i h → InWalk rpc c i := by
    intro i h hi
    obtain ⟨htouched, p, hp, hcall⟩ := hi
    exact ⟨List.ne_nil_of_mem htouched, p, hp, hcall.mono fun _ hm => List.ne_nil_of_mem hm⟩
  refine ⟨fun i j h hi hj => halone.exclusive i j (hwalk i h hi) (hwalk j h hj), ?_⟩
  intro i call c' hm hstart h hh j hne t ht hmem
  have hheights : call.indexHeights ≠ [] := List.ne_nil_of_mem hh
  cases hm with
  | @call _ _ k r w' hp hH =>
      -- The call is allowed, so its heights are above the cursor of the walk.
      have habove : (c.world.walk i).cursor < h := by
        have hplausible := plausible_of_handle hrest hH.1
        rcases halone.tame i _ hp with hunread | hafter
        · exact absurd (hunread.call (by simp) hplausible).1 hheights
        · exact (hafter.call (by simp) hplausible).1 h hh
      by_cases hfirst : (c.world.walk i).touched = []
      · have hle := (halone.behind j t ht h hmem).le_cursor
        rw [(hstart hheights hfirst).1] at hle
        omega
      · have hle := halone.ahead i ⟨hfirst, _, hp, .here hheights⟩ j hne t ht h hmem
        omega

/-! ### Two walks at one height -/

/-- The single answer to each call, with the walk recorded. -/
def watchServe (respond : Server ChainSig χ) (i : TaskId) : Server SyncSig (Watched χ) :=
  fun x call =>
    let answer := serve respond i x.world call
    (answer.1, ⟨answer.2, Function.update x.walk i ((x.walk i).note call answer.1)⟩)

theorem watch_watchServe {respond : Server ChainSig χ} (h : Answers rpc respond) (i : TaskId)
    (x : Watched χ) (call : SyncCall) :
    watch rpc i x call (watchServe respond i x call).1 (watchServe respond i x call).2 :=
  ⟨handle_serve h i x.world call, rfl⟩

/-- The heights of the call a program is about to make. -/
def nextHeights : Prog SyncSig Unit → List Int
  | .call call _ => call.indexHeights
  | _ => []

/-- A task that has begun with a height and is about to ask for it again is ingesting it. -/
theorem ingesting_of_next {p : Prog SyncSig Unit} {h : Int} (hp : c.prog i = some p)
    (htouched : h ∈ (c.world.walk i).touched) (hnext : h ∈ nextHeights p) :
    Ingesting rpc c i h := by
  refine ⟨htouched, p, hp, ?_⟩
  cases p with
  | call call k => exact .here hnext
  | pure a => exact absurd hnext (by simp [nextHeights])
  | loop body s k => exact absurd hnext (by simp [nextHeights])

/-- The backfill, stopped between the block and the logs of height 0. -/
def backfillHalfway : Watched Stream × Prog SyncSig Unit :=
  advanceN (watchServe forkA.respond 0) 10 (.init [], backfillTo)

/-- A tail walk that has begun meanwhile, stopped after some steps. -/
def walkHalfway (n : Nat) : Watched Stream × Prog SyncSig Unit :=
  advanceN (watchServe forkA.respond 1) n (backfillHalfway.1, walkTo 0)

/-- The backfill and the tail walk, both on their way. -/
def bothHalfway (n : Nat) : Config SyncSig TaskId (Watched Stream) Unit :=
  ⟨(walkHalfway n).1, Function.update (Function.update (fun _ => none) 0 (some backfillHalfway.2))
    1 (some (walkHalfway n).2)⟩

theorem forkA_heights : FaithfulHeights forkA.rpc := by
  intro stream h block stream' hr
  obtain ⟨rfl, rfl⟩ := oneBlock_served hr
  rfl

theorem bothHalfway_reachable (n : Nat) :
    Reachable (watchedIndexer forkA.rpc fun _ _ => False) (.init []) (bothHalfway n) := by
  have hserve := fun i => watch_watchServe forkA.answers i
  have hstart : Reachable (watchedIndexer forkA.rpc fun _ _ => False) (.init []) _ :=
    (Reachable.init).move (Move.start 0 backfillTo rfl (WriterTask.backfill _ _ false))
  have hfetched := hstart.steps (by simp) (advanceN_steps (hserve 0) 10 (.init []) backfillTo)
  have hwalk := hfetched.move
    (Move.start 1 (walkTo 0) (by simp [Config.idle]) (WriterTask.finalized _ false 0))
  have hwalked := hwalk.steps (by simp) (advanceN_steps (hserve 1) n backfillHalfway.1 (walkTo 0))
  simpa [bothHalfway, walkHalfway, backfillHalfway, Config.idle] using hwalked

/-- The task has committed the height. -/
def hasCommitted (w : World χ) (i : TaskId) (h : Int) : Bool :=
  w.events.any fun
    | .committed j t => j = i && t.heights.contains h
    | _ => false

theorem hasCommitted_spec {w : World χ} {h : Int} (hc : hasCommitted w i h = true) :
    ∃ t, .committed i t ∈ w.events ∧ h ∈ t.heights := by
  obtain ⟨e, he, hmatch⟩ := List.any_eq_true.mp hc
  cases e with
  | committed j t =>
      rw [Bool.and_eq_true] at hmatch
      obtain rfl := of_decide_eq_true hmatch.1
      exact ⟨t, he, List.contains_iff_mem.mp hmatch.2⟩
  | _ => exact absurd hmatch (by simp)

/--
The backfill has fetched block 0 when a tail walk fetches it too: two tasks are ingesting
height 0.  The walk commits the height, and the backfill goes on to fetch its logs.
-/
theorem backfill_and_walk_share_height :
    FaithfulHeights forkA.rpc ∧
    (∃ c, Reaches (LabelledMove (watchedIndexer forkA.rpc fun _ _ => False)) (.idle (.init [])) c ∧
      Ingesting forkA.rpc c 0 0 ∧ Ingesting forkA.rpc c 1 0) ∧
    ∃ c call c' t, Reaches (LabelledMove (watchedIndexer forkA.rpc fun _ _ => False))
        (.idle (.init [])) c ∧
      LabelledMove (watchedIndexer forkA.rpc fun _ _ => False) c (.call 0 call) c' ∧
      0 ∈ call.indexHeights ∧ .committed 1 t ∈ c.world.world.events ∧ 0 ∈ t.heights := by
  have hbackfill : ∀ n, (bothHalfway n).prog 0 = some backfillHalfway.2 := by
    simp [bothHalfway]
  have hwalk : ∀ n, (bothHalfway n).prog 1 = some (walkHalfway n).2 := by
    simp [bothHalfway]
  have hnext : 0 ∈ nextHeights backfillHalfway.2 := by decide +kernel
  refine ⟨forkA_heights, ⟨_, (bothHalfway_reachable 4).reaches, ?_, ?_⟩, ?_⟩
  · exact ingesting_of_next (hbackfill 4) (by decide +kernel) hnext
  · exact ingesting_of_next (hwalk 4) (by decide +kernel) (by decide +kernel)
  · obtain ⟨t, ht, hheight⟩ := hasCommitted_spec (w := (bothHalfway 6).world.world) (i := 1)
      (h := 0) (by decide +kernel)
    generalize hp : backfillHalfway.2 = p at hnext hbackfill
    cases p with
    | call call k =>
        exact ⟨_, call, _, t, (bothHalfway_reachable 6).reaches,
          .call 0 (hbackfill 6) (watch_watchServe forkA.answers 0 _ call), hnext, ht, hheight⟩
    | pure a => exact absurd hnext (by simp [nextHeights])
    | loop body s k => exact absurd hnext (by simp [nextHeights])

/-! ### A walk that starts alone -/

/-- Answers to a call that, if it opens a walk, opens it at the persisted cursor. -/
def freshCall (i : TaskId) (x : Watched χ) (call : SyncCall) : Bool :=
  call.indexHeights.isEmpty || !(x.walk i).touched.isEmpty ||
    decide (x.world.store.cursor = (x.walk i).cursor)

/-- **A task that runs by itself** starts its walks alone, if the cursor it has read is fresh. -/
theorem startsAlone_of_fresh (hidle : ∀ j, j ≠ i → c.prog j = none) {call : SyncCall}
    (hfresh : freshCall i c.world call = true) : StartsAlone rpc c (.call i call) := by
  intro hheights hfirst
  refine ⟨?_, fun j hji hw => ?_⟩
  · simpa [freshCall, hheights, hfirst] using hfresh
  · obtain ⟨-, p, hp, -⟩ := hw
    exact absurd (hidle j hji ▸ hp) (by simp)

/-- A backfill that runs by itself commits block 0, and no height has two writers. -/
theorem single_writer_per_height_backfill :
    ∃ c, RunOf (LabelledMove (watchedIndexer forkA.rpc fun _ _ => False)) (StartsAlone forkA.rpc)
        (.idle (.init [])) c ∧
      hasCommitted c.world.world 0 0 = true ∧
      (∀ i j h, Ingesting forkA.rpc c i h → Ingesting forkA.rpc c j h → i = j) ∧
      ∀ i call c', LabelledMove (watchedIndexer forkA.rpc fun _ _ => False) c (.call i call) c' →
        StartsAlone forkA.rpc c (.call i call) → ∀ h ∈ call.indexHeights, ∀ j, j ≠ i → ∀ t,
          .committed j t ∈ c.world.world.events → h ∉ t.heights := by
  have hserve : ∀ x call, freshCall 0 x call = true → watch forkA.rpc 0 x call
      (watchServe forkA.respond 0 x call).1 (watchServe forkA.respond 0 x call).2 ∧
        freshCall 0 x call = true :=
    fun x call hok => ⟨watch_watchServe forkA.answers 0 x call, hok⟩
  obtain ⟨x, _, hrun, hcheck⟩ := exists_run_of_execWhile
    (H := fun x call r x' => watch forkA.rpc 0 x call r x' ∧ freshCall 0 x call = true)
    hserve 100 (.init []) backfillTo
    (fun r => hasCommitted r.1.world 0 0) (by decide +kernel)
  have hstart : RunOf (LabelledMove (watchedIndexer forkA.rpc fun _ _ => False))
      (StartsAlone forkA.rpc) (.idle (.init [])) _ :=
    RunOf.init.next (.start 0 backfillTo rfl (WriterTask.backfill _ _ false)) trivial
  have hend := hstart.steps (i := 0) (fun _ => trivial) (fun x call r x' hH =>
    ⟨hH.1, fun q => startsAlone_of_fresh (by simp +contextual [Config.idle]) hH.2⟩)
    (by simp) hrun.steps
  exact ⟨_, hend, hcheck, single_writer_per_height forkA_heights hend⟩

end SentrixIndexer
