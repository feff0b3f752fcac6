/-
The cursor seals the heights at and below it.

A process that starts over a store reads the cursor before it does anything else, and a
writer indexes nothing at or below the cursor it has read: it neither fetches such a height
to store it nor writes it.  Only the reorg check looks there, to compare hashes and to
delete.  The cursor never moves back, not even for a rewind.  So whatever the tasks of all
later runs do, side by side and through crashes, the blocks at or below the cursor of the
start are those of the start less what rewinds have deleted since: a height that is missing
there, whether a node answered 404 for it or a rewind took it away, stays missing.
-/
import SentrixIndexer.Proofs.Rewind
import SentrixIndexer.Proofs.SingleWriter
import SentrixIndexer.Sync.Forks

namespace SentrixIndexer

open Effect Relational

variable {χ : Type} {rpc : Rpc χ} {moves : χ → χ → Prop} {i : TaskId} {n : Int}
variable {w : World χ} {c c' : Config SyncSig TaskId (World χ) Unit}

/-! ### The check never strays -/

section Quiet

variable {α : Type} {Q : α → LastRead → Prop} {g : LastRead}

/-- A call that indexes no height leads nowhere. -/
theorem tame_quiet (call : SyncCall) {k : call.Answer → Prog SyncSig α}
    (hread : ¬ call.IsRead) (hc : call.indexHeights = []) (hg : g ≠ .strayed)
    (hk : ∀ r, Tame (k r) Q g) : Tame (.call call k) Q g := by
  rintro g₁ rfl - r g₂ ⟨-, ⟨-, rfl⟩ | ⟨hstray, -⟩⟩
  · rw [LastRead.next_of_not_read hread]
    exact ⟨hg, trivial, hk r⟩
  · refine absurd ?_ hstray
    cases g with
    | unread => exact hc
    | read m => simp [LastRead.Allows, hc]
    | strayed => exact absurd rfl hg

theorem tame_getByHeight (h : Int) (hg : g ≠ .strayed) :
    Tame (Script.toProgE (getByHeightCall h)).run (fun _ g' => g' = g) g :=
  tame_quiet (.getByHeight h) (fun h => h) rfl hg fun _ => rfl

theorem tame_remoteBlock (h : Int) (hg : g ≠ .strayed) :
    Tame (Script.toProgE (remoteBlock h)).run (fun _ g' => g' = g) g := by
  refine wp_script_bind (wp_mono (Q := fun _ g' => g' = g) (fun r g₁ hg₁ => ?_) ?_)
  · rcases r with e | b
    · exact hg₁
    · exact hg₁
  · unfold ChainProvider.blockWithTxs
    by_cases hneg : heightAsU64 h = none
    · rw [if_pos hneg]
      exact rfl
    · rw [if_neg hneg]
      exact tame_quiet (.chain (.blockWithTxs h)) (fun h => h) rfl hg fun _ => rfl

theorem tame_walkBack (hg : g ≠ .strayed) (m : Nat) :
    Tame (Script.toProgE (walkBackToDivergence m)).run (fun _ g' => g' = g) g := by
  induction m with
  | zero => exact rfl
  | succ parent ih =>
      unfold walkBackToDivergence
      refine wp_scriptE_bind (wp_mono ?_ (tame_getByHeight parent hg))
      rintro stored _ rfl
      rcases stored with e | stored
      · exact rfl
      refine wp_scriptE_bind (wp_mono ?_ (tame_remoteBlock parent hg))
      rintro remote _ rfl
      rcases remote with e | remote
      · exact rfl
      rcases stored with _ | l
      · exact rfl
      rcases remote with _ | r
      · exact rfl
      by_cases heq : r.hashText = l.hash
      · simp only [heq, if_true]
        exact rfl
      · simp only [heq, if_false]
        exact ih

theorem tame_checkOnce (cfg : SyncConfig) (cursor : Int) (hg : g ≠ .strayed) :
    Tame (Script.toProgE (checkOnce cfg cursor)).run (fun _ g' => g' = g) g := by
  unfold checkOnce
  by_cases hneg : cursor < 0
  · simp only [hneg, if_true]
    exact rfl
  simp only [hneg, if_false]
  refine wp_scriptE_bind (wp_mono ?_ (tame_getByHeight _ hg))
  rintro stored _ rfl
  rcases stored with e | _ | stored
  · exact rfl
  · exact rfl
  refine wp_scriptE_bind (wp_mono ?_ (tame_remoteBlock _ hg))
  rintro remote _ rfl
  rcases remote with e | _ | remote
  · exact rfl
  · exact rfl
  by_cases heq : remote.hashText = stored.hash
  · simp only [heq, if_true]
    exact rfl
  simp only [heq, if_false]
  refine wp_scriptE_bind (wp_mono ?_ (tame_walkBack hg _))
  rintro divergence _ rfl
  rcases divergence with e | d
  · exact rfl
  refine wp_scriptE_bind (tame_quiet (.transact (.rewindTo d)) (fun h => h) rfl hg ?_)
  intro r
  rcases r with e | u
  · exact rfl
  · exact rfl

end Quiet

/-- **Neither a writer nor the check strays.** -/
theorem CheckedTask.tame {p : Prog SyncSig Unit} (h : CheckedTask p) :
    Tame p (fun _ _ => True) .unread := by
  cases h with
  | writer h => exact WriterTask.tame h
  | check cfg cursor =>
      exact wp_bind (wp_mono (fun _ _ _ => trivial) (tame_checkOnce cfg cursor (by simp)))

/-! ### What a commit does at and below the cursor -/

/-- **A transaction that writes above `n`** adds no block at or below it, and only a rewind
deletes one there. -/
theorem Txn.run_sealed {t : Txn} {s s' : Store} (h : t.run s = .ok s')
    (ht : ∀ k ∈ t.heights, n < k) {r : Block} (hr : r.height ≤ n) :
    r ∈ s'.blocks.rows ↔ r ∈ s.blocks.rows ∧ ∀ d, t = .rewindTo d → r.height < d := by
  have hforward : t.Forward → (∀ b ∈ t.bundles, b.block.height ∈ t.heights) →
      (r ∈ s'.blocks.rows ↔ r ∈ s.blocks.rows) := by
    intro hf hheights
    refine ⟨fun hmem => ?_, fun hmem => (t.run_extends hf h).blocks.mem hmem⟩
    rcases t.run_block hf h hmem with hold | ⟨b, hb, rfl, -⟩
    · exact hold
    · have := ht _ (hheights b hb)
      omega
  cases t with
  | writeBlock b =>
      rw [hforward trivial fun b' hb' => ?_]
      · simp
      · exact List.mem_map_of_mem (f := fun b => b.block.height) hb'
  | batchWriteBlocks bundles =>
      rw [hforward trivial fun b' hb' => ?_]
      · simp
      · exact List.mem_map_of_mem (f := fun b => b.block.height) hb'
  | writeCursor k nowTs =>
      rw [hforward trivial fun b' hb' => absurd hb' (by simp [Txn.bundles])]
      simp
  | rewindTo d =>
      rw [(rewindTx_rewoundTo h).blocks]
      simp [Table.deleteWhere]

/-! ### The invariant -/

/-- The cursor a task has read is at `n` or above, if it has read one. -/
def LastRead.AtLeast (n : Int) : LastRead → Prop
  | .unread => True
  | .read m => n ≤ m
  | .strayed => False

theorem LastRead.AtLeast.ne {g : LastRead} (h : g.AtLeast n) : g ≠ .strayed := by
  rintro rfl
  exact h

/-- What it may index is above `n`. -/
theorem LastRead.AtLeast.allows {g : LastRead} (h : g.AtLeast n) {call : SyncCall}
    (hc : g.Allows call) : ∀ k ∈ call.indexHeights, n < k := by
  intro k hk
  cases g with
  | unread =>
      rw [show call.indexHeights = [] from hc] at hk
      exact absurd hk (by simp)
  | read m =>
      have hle : n ≤ m := h
      have := hc k hk
      omega
  | strayed => exact absurd hc id

/-- The blocks at or below `n` are those of `w` less what rewinds have deleted since. -/
def SealedSince (n : Int) (w w' : World χ) : Prop :=
  ∃ since, w'.events = since ++ w.events ∧ ∀ r : Block, r.height ≤ n →
    (r ∈ w'.store.blocks.rows ↔ r ∈ w.store.blocks.rows ∧
      ∀ i d, .committed i (.rewindTo d) ∈ since → r.height < d)

/-- The state of a run that has started over the cursor `n`. -/
structure Sealed (n : Int) (w : World χ) (c : Config SyncSig TaskId (World χ) Unit) : Prop where
  cursor : AtOrBelow c.world.store n
  blocks : SealedSince n w c.world
  /-- No task has read a cursor below `n`. -/
  tame : ∀ i p, c.prog i = some p → ∃ g : LastRead, g.AtLeast n ∧ Tame p (fun _ _ => True) g

/-- **What a task is about to index is above the cursor of the start.** -/
theorem Sealed.above (h : Sealed n w c) {call : SyncCall} {k : call.Answer → Prog SyncSig Unit}
    (hp : c.prog i = some (.call call k)) : ∀ m ∈ call.indexHeights, n < m := by
  intro m hm
  obtain ⟨g, hg, ht⟩ := h.tame i _ hp
  obtain ⟨r, hr⟩ := exists_plausible (List.ne_nil_of_mem hm)
  exact hg.allows (ht.call hg.ne hr).1 m hm

/-- A move that leaves the store alone and commits nothing. -/
theorem SealedSince.record {w' w'' : World χ} (h : SealedSince n w w') (new : List Event)
    (hstore : w''.store = w'.store) (hevents : w''.events = new ++ w'.events)
    (hnew : ∀ i t, .committed i t ∉ new) : SealedSince n w w'' := by
  obtain ⟨since, hsince, hblocks⟩ := h
  refine ⟨new ++ since, by rw [hevents, hsince, List.append_assoc], fun r hr => ?_⟩
  rw [hstore, hblocks r hr]
  refine and_congr_right fun _ => forall₂_congr fun i d => ?_
  simp [hnew]

theorem SealedSince.commit {w' : World χ} (h : SealedSince n w w') {t : Txn} {s : Store}
    (hrun : t.run w'.store = .ok s) (ht : ∀ k ∈ t.heights, n < k) :
    SealedSince n w (w'.commit i t s) := by
  obtain ⟨since, hsince, hblocks⟩ := h
  refine ⟨.committed i t :: since, by simp [World.commit, hsince], fun r hr => ?_⟩
  show r ∈ s.blocks.rows ↔ _
  rw [Txn.run_sealed hrun ht hr, hblocks r hr, and_assoc]
  refine and_congr_right fun _ => ⟨?_, fun h => ⟨fun j d hd => ?_, fun d hd => ?_⟩⟩
  · rintro ⟨hold, hnow⟩ j d hmem
    rcases List.mem_cons.mp hmem with heq | hmem
    · exact hnow d (Event.committed.inj heq).2.symm
    · exact hold j d hmem
  · exact h j d (List.mem_cons_of_mem _ hd)
  · subst hd
    exact h i d (List.mem_cons_self ..)

/-- **A call keeps the heights sealed.** -/
theorem Sealed.call (hrest : FaithfulHeights rpc) (h : Sealed n w c) {call : SyncCall}
    {k : call.Answer → Prog SyncSig Unit} {r : call.Answer} {w' : World χ}
    (hp : c.prog i = some (.call call k)) (hH : handle rpc i c.world call r w') :
    Sealed n w ⟨w', Function.update c.prog i (some (k r))⟩ := by
  have habove := h.above hp
  obtain ⟨g, hg, ht⟩ := h.tame i _ hp
  obtain ⟨-, hne, hk⟩ := ht.call hg.ne (plausible_of_handle hrest hH)
  have hnext : (g.next call r).AtLeast n := by
    cases call with
    | readCursor =>
        obtain ⟨-, rfl | ⟨e, rfl⟩⟩ := hH
        · obtain ⟨m, hm, hle⟩ := h.cursor
          show n ≤ (readCursor c.world.store).getD (-1)
          rw [hm]
          exact hle
        · exact trivial
    | _ => exact hg
  have htame : ∀ j p, Function.update c.prog i (some (k r)) j = some p →
      ∃ g : LastRead, g.AtLeast n ∧ Tame p (fun _ _ => True) g := by
    intro j p hj
    by_cases hji : j = i
    · subst hji
      obtain rfl : k r = p := Option.some.inj (by simpa using hj)
      exact ⟨_, hnext, hk⟩
    · exact h.tame j p (by simpa [Function.update_of_ne hji] using hj)
  cases handle_step hH with
  | stay => exact ⟨h.cursor, h.blocks, htame⟩
  | @chain ch r chain' hrpc =>
      refine ⟨h.cursor, h.blocks.record _ rfl rfl fun j t hmem => ?_, htame⟩
      have hnone : Event.committed j t ∈ ([] : List Event) :=
        committed_of_noteAnswer (by simpa using hmem)
      exact absurd hnone (by simp)
  | commit hrun =>
      exact ⟨Txn.run_atOrBelow hrun (Or.inr h.cursor), h.blocks.commit hrun habove, htame⟩
  | offer tip gate =>
      exact ⟨h.cursor, h.blocks.record [] rfl rfl (by simp), htame⟩
  | take gate =>
      exact ⟨h.cursor, h.blocks.record [] rfl rfl (by simp), htame⟩
  | push row =>
      exact ⟨h.cursor, h.blocks.record [.pushed i row] rfl rfl (by simp), htame⟩

/-- **Every move keeps the heights sealed.** -/
theorem Sealed.move (hrest : FaithfulHeights rpc) (h : Sealed n w c)
    (hm : Move (reorgIndexer rpc moves) c c') : Sealed n w c' := by
  cases hm with
  | start i p hidle hs =>
      refine ⟨h.cursor, h.blocks, fun j q hq => ?_⟩
      by_cases hji : j = i
      · subst hji
        obtain rfl : p = q := Option.some.inj (by simpa using hq)
        exact ⟨.unread, trivial, CheckedTask.tame hs⟩
      · exact h.tame j q (by simpa [Function.update_of_ne hji] using hq)
  | step i hp hs =>
      cases hs with
      | call k hH => exact h.call hrest hp hH
      | loop _ body s k =>
          refine ⟨h.cursor, h.blocks, fun j q hq => ?_⟩
          by_cases hji : j = i
          · subst hji
            obtain rfl := Option.some.inj ((by simpa using hq) : some _ = some q)
            obtain ⟨g, hg, ht⟩ := h.tame j _ hp
            exact ⟨g, hg, ht.loop hg.ne⟩
          · exact h.tame j q (by simpa [Function.update_of_ne hji] using hq)
  | finish i hp =>
      refine ⟨h.cursor, h.blocks, fun j q hq => ?_⟩
      by_cases hji : j = i
      · subst hji
        exact absurd hq (by simp)
      · exact h.tame j q (by simpa [Function.update_of_ne hji] using hq)
  | env he =>
      obtain ⟨hstore, hevents⟩ := Surroundings.unchanged he
      refine ⟨hstore ▸ h.cursor, h.blocks.record [] hstore hevents (by simp), h.tame⟩
  | crash hc =>
      obtain rfl : _ = c.world.restart := hc
      refine ⟨h.cursor, h.blocks.record [] rfl rfl (by simp), fun j p hp => ?_⟩
      exact absurd hp (by simp [Config.idle])

/-- **The invariant of every run** over the cursor `n`. -/
theorem Sealed.reachable (hrest : FaithfulHeights rpc) (hn : readCursor w.store = some n)
    (hc : Reachable (reorgIndexer rpc moves) w c) : Sealed n w c := by
  induction hc with
  | init =>
      refine ⟨⟨n, hn, le_refl n⟩, ⟨[], rfl, fun r _ => ?_⟩, fun i p hp => ?_⟩
      · simp [Config.idle]
      · exact absurd hp (by simp [Config.idle])
  | move _ hm ih => exact ih.move hrest hm

/-! ### The heights a run starts above -/

/--
**The cursor seals the heights at and below it.**  Whatever is stored under the cursor `n`
and whatever the nodes serve, in every run that starts there, with writers and reorg checks
side by side and through any crashes: the cursor never falls below `n`, no task is ever about to
index a height at or below `n` (the check's probes read there, and its rewind deletes), and
the block rows there are the ones of the start that no rewind since has reached.
-/
theorem cursor_seals_heights (hrest : FaithfulHeights rpc) (hn : readCursor w.store = some n)
    (hc : Reachable (reorgIndexer rpc moves) w c) :
    (∃ m, readCursor c.world.store = some m ∧ n ≤ m) ∧
    (∀ i call k, c.prog i = some (.call call k) → ∀ h ∈ call.indexHeights, n < h) ∧
    ∃ since, c.world.events = since ++ w.events ∧ ∀ r : Block, r.height ≤ n →
      (r ∈ c.world.store.blocks.rows ↔ r ∈ w.store.blocks.rows ∧
        ∀ i d, .committed i (.rewindTo d) ∈ since → r.height < d) := by
  have hsealed := Sealed.reachable hrest hn hc
  exact ⟨hsealed.cursor, fun i call k hp => hsealed.above hp, hsealed.blocks⟩

/-- Blocks 1 and 2 are rewound and a backfill follows: of the three blocks up to the cursor
2 only the genesis block is left. -/
theorem cursor_seals_heights_indexed :
    ∃ c, Reachable (reorgIndexer canonical.rpc fun _ _ => False) indexed c ∧
      .committed 0 (.rewindTo 1) ∈ c.world.events ∧
      ∀ r ∈ c.world.store.blocks.rows, r.height ≤ 2 → r ∈ indexed.store.blocks.rows ∧
        r.height < 1 := by
  obtain ⟨w', hcheck, hrewound, hcursor, w'', hback, -⟩ := checkOnce_indexed
  have hrewind : Reachable (reorgIndexer canonical.rpc fun _ _ => False) indexed (.idle w') :=
    Reachable.init.run (i := 0) rfl (.check probeTip 2) (run_bind.mpr ⟨_, _, hcheck, .pure _ _⟩)
  have hback : Run (handle canonical.rpc 0) w' (discard (backfillPassOf probeTip)) w'' () :=
    run_bind.mpr ⟨_, _, hback, .pure _ _⟩
  have hspawn : CheckedTask (discard (backfillPassOf probeTip)) :=
    .writer (.backfill probeTip (Tuning.ofEnv none none) false)
  have hrest := (threeBlocks_faithful "b1" "b2").heights
  have hc := hrewind.run (i := 0) rfl hspawn hback
  have hlater : Reachable (reorgIndexer canonical.rpc fun _ _ => False) w' (.idle w'') :=
    Reachable.init.run (i := 0) rfl hspawn hback
  obtain ⟨-, ⟨after, hafter, -⟩, -⟩ := Sealed.reachable hrest hcursor hlater
  have hmem : .committed 0 (.rewindTo 1) ∈ w''.events := by
    obtain ⟨before, -, hevents⟩ := hrewound
    rw [show w''.events = after ++ w'.events from hafter, hevents]
    exact List.mem_append_right _ (List.mem_cons_self ..)
  obtain ⟨-, -, since, hsince, hblocks⟩ := cursor_seals_heights hrest indexed_cursor hc
  refine ⟨_, hc, hmem, fun r hr hle => ?_⟩
  obtain ⟨hold, hleft⟩ := (hblocks r hle).mp hr
  rw [indexed_events, List.append_nil] at hsince
  have hsince : w''.events = since := hsince
  exact ⟨hold, hleft 0 1 (hsince ▸ hmem)⟩

end SentrixIndexer
