/-
What a matching probe says about the blocks below it.

The check compares one height.  That tells about the heights below if the stored blocks
are linked, each below the next along the parents of the chain; and then it does, since
a chain that shows a block shows all its ancestors.  The writers compare no parents, so
what they add is linked to what is stored only as long as no reorg has replaced a stored
block.
-/
import SentrixIndexer.Proofs.Rewind
import SentrixIndexer.Sync.Forks

namespace SentrixIndexer

open Effect HashChain Relational

variable {forks : Fork → Prop}

/-- The one block is stored at or below the other and is an ancestor of it. -/
abbrev Block.Below (forks : Fork → Prop) (r r' : Block) : Prop :=
  Ancestor (Fork.Views forks) r.height r.hash r'.height r'.hash

/-- Any two stored blocks are linked. -/
def LinkedStore (forks : Fork → Prop) (s : Store) : Prop :=
  ∀ r ∈ s.blocks.rows, ∀ r' ∈ s.blocks.rows, r.height ≤ r'.height → r.Below forks r'

/-- The block rows a transaction adds. -/
def addedBlocks (s : Store) (t : Txn) : List Block :=
  (t.bundles.map BlockBundle.block).filter fun b => !s.blocks.contains b.height

/--
If the step commits, every block it adds is linked to every block that is stored or added
along with it: it descends from the lower ones and is an ancestor of the higher ones.
-/
def CommitsLinked (forks : Fork → Prop) (w w' : World Fork) : Prop :=
  ∀ i t, w'.events = .committed i t :: w.events →
    ∀ b ∈ addedBlocks w.store t, ∀ r ∈ w.store.blocks.rows ++ addedBlocks w.store t,
      (r.height ≤ b.height → r.Below forks b) ∧ (b.height ≤ r.height → b.Below forks r)

/-! ### The check -/

/-- **A pass that finds a match keeps the cursor.** -/
theorem checkOnce_match {w : World Fork} {cfg : SyncConfig} {cursor : Int} (i : TaskId)
    (h : ProbeMatches w cfg cursor) :
    Run (handle Fork.rpc i) w (Script.toProgE (checkOnce cfg cursor)).run w (.ok cursor) := by
  obtain ⟨h0, stored, remote, hlocal, hanswer, heq⟩ := h
  have hprobe : 0 ≤ probeHeight cfg cursor := le_max_right _ _
  have hread : Run (handle Fork.rpc i) w
      (Script.toProgE (getByHeightCall (probeHeight cfg cursor))).run w (.ok (some stored)) :=
    run_ask.mpr ⟨rfl, Or.inl (by rw [hlocal])⟩
  have hserved : Run (handle Fork.rpc i) w
      (Script.toProgE (remoteBlock (probeHeight cfg cursor))).run w (.ok (some remote)) := by
    have hnonneg : heightAsU64 (probeHeight cfg cursor) ≠ none := by
      simp [heightAsU64, hprobe]
    have hcall : handle Fork.rpc i w (.chain (.blockWithTxs (probeHeight cfg cursor)))
        (.ok (some remote)) w := ⟨_, ⟨rfl, Or.inl hanswer.symm⟩, rfl⟩
    unfold remoteBlock ChainProvider.blockWithTxs
    rw [if_neg hnonneg]
    exact Run.call hcall (Run.pure _ _)
  unfold checkOnce
  rw [if_neg (not_lt.mpr h0), Script.toProgE_bind, run_bindE]
  refine Or.inl ⟨w, some stored, hread, ?_⟩
  rw [Script.toProgE_bind, run_bindE]
  refine Or.inl ⟨w, some remote, hserved, ?_⟩
  simp only [heq, if_true]
  exact Run.pure _ _

/-! ### The invariant -/

/-- A block row that a transaction leaves was there before, or the transaction adds it. -/
theorem Txn.run_addedBlocks {t : Txn} {s s' : Store} (hrun : t.run s = .ok s') {r : Block}
    (hr : r ∈ s'.blocks.rows) : r ∈ s.blocks.rows ∨ r ∈ addedBlocks s t := by
  have hforward : t.Forward → r ∈ s.blocks.rows ∨ r ∈ addedBlocks s t := by
    intro hf
    rcases Txn.run_block hf hrun hr with hold | ⟨b, hb, rfl, hfree⟩
    · exact Or.inl hold
    · exact Or.inr (List.mem_filter.mpr ⟨List.mem_map_of_mem hb, by simp [hfree]⟩)
  cases t with
  | writeBlock b => exact hforward trivial
  | batchWriteBlocks bundles => exact hforward trivial
  | writeCursor h nowTs => exact hforward trivial
  | rewindTo d =>
      rw [(rewindTx_rewoundTo hrun).blocks] at hr
      exact Or.inl (List.mem_filter.mp hr).1

/-- **A linked commit keeps the store linked.** -/
theorem LinkedStore.commit {w : World Fork} {i : TaskId} {t : Txn} {s : Store}
    (h : LinkedStore forks w.store) (hrun : t.run w.store = .ok s)
    (hlinked : CommitsLinked forks w (w.commit i t s)) : LinkedStore forks s := by
  intro r hr r' hr' hle
  have hadded := hlinked i t rfl
  rcases t.run_addedBlocks hrun hr with hold | hnew
  · rcases t.run_addedBlocks hrun hr' with hold' | hnew'
    · exact h r hold r' hold' hle
    · exact (hadded r' hnew' r (List.mem_append_left _ hold)).1 hle
  · have hmem := t.run_addedBlocks hrun hr'
    exact (hadded r hnew r' (List.mem_append.mpr hmem)).2 hle

/-- A call leaves the chain alone, and the store too or commits a transaction. -/
theorem handle_fork {i : TaskId} {w w' : World Fork} {call : SyncCall} {r : call.Answer}
    (h : handle Fork.rpc i w call r w') :
    w'.chain = w.chain ∧
      (w'.store = w.store ∨ ∃ t s, t.run w.store = .ok s ∧ w' = w.commit i t s) := by
  cases handle_step h with
  | stay => exact ⟨rfl, Or.inl rfl⟩
  | chain hrpc => exact ⟨hrpc.1, Or.inl rfl⟩
  | commit hrun => exact ⟨rfl, Or.inr ⟨_, _, hrun, rfl⟩⟩
  | offer tip gate => exact ⟨rfl, Or.inl rfl⟩
  | take gate => exact ⟨rfl, Or.inl rfl⟩
  | push row => exact ⟨rfl, Or.inl rfl⟩

/-- The chain is one of the forks, and the store is linked. -/
structure OnForks (forks : Fork → Prop) (w : World Fork) : Prop where
  chain : forks w.chain
  linked : LinkedStore forks w.store

/-- In a run whose commits are all linked, the store stays linked. -/
theorem onForks_of_commitsLinked {f : Fork} (hf : forks f)
    {c : Config SyncSig TaskId (World Fork) Unit}
    (hc : Reachable ((checkedIndexer forks).restrict (CommitsLinked forks)) (World.init f) c) :
    OnForks forks c.world := by
  induction hc with
  | init =>
      refine ⟨hf, fun r hr => ?_⟩
      exact absurd hr (by simp [Config.idle, World.init, Store.empty])
  | @move c c' _ hm ih =>
      cases hm with
      | start i p hidle hs => exact ih
      | step i hp hs =>
          cases hs with
          | loop _ body s k => exact ih
          | call k hH =>
              obtain ⟨hH, hlinked⟩ := hH
              obtain ⟨hchain, hsame | ⟨t, s, hrun, rfl⟩⟩ := handle_fork hH
              · exact ⟨hchain ▸ ih.chain, hsame ▸ ih.linked⟩
              · exact ⟨ih.chain, ih.linked.commit hrun hlinked⟩
      | finish i hp => exact ih
      | env he =>
          cases he with
          | chain hmove => exact ⟨hmove, ih.linked⟩
          | cancel => exact ⟨ih.chain, ih.linked⟩
      | crash hcr =>
          obtain rfl := hcr
          exact ⟨ih.chain, ih.linked⟩

/-! ### A matching probe -/

/--
**A matching probe certifies the prefix** in the runs whose commits are all linked.  The
chain may become another of the forks at any moment, writers and checks run side by side,
calls fail and processes crash; in every state reached, a pass that finds its stored hash
on the chain keeps the cursor, and every block stored at or below the probe has the
chain's hash at its height.
-/
theorem matching_probe_certifies_prefix (hhash : HashLinked (Fork.Views forks)) {f : Fork}
    (hf : forks f) {c : Config SyncSig TaskId (World Fork) Unit}
    (hc : Reachable ((checkedIndexer forks).restrict (CommitsLinked forks)) (World.init f) c)
    {cfg : SyncConfig} {cursor : Int} (i : TaskId)
    (hmatch : ProbeMatches c.world cfg cursor) :
    Run (handle Fork.rpc i) c.world (Script.toProgE (checkOnce cfg cursor)).run c.world
        (.ok cursor) ∧
      ∀ r ∈ c.world.store.blocks.rows, r.height ≤ probeHeight cfg cursor →
        (c.world.chain.block r.height).hashText = r.hash := by
  refine ⟨checkOnce_match i hmatch, fun r hr hle => ?_⟩
  obtain ⟨-, stored, remote, hlocal, hanswer, heq⟩ := hmatch
  obtain ⟨hmem, hheight⟩ := Table.find?_eq_some.mp hlocal
  obtain ⟨hchain, hlinked⟩ := onForks_of_commitsLinked hf hc
  -- The chain serves a header at the probe height, so it reaches up to there.
  have hserved : 0 ≤ probeHeight cfg cursor ∧ probeHeight cfg cursor ≤ c.world.chain.tip ∧
      c.world.chain.header (probeHeight cfg cursor) = remote := by
    have hsome := Except.ok.inj hanswer
    by_cases hin : 0 ≤ probeHeight cfg cursor ∧ probeHeight cfg cursor ≤ c.world.chain.tip
    · rw [if_pos hin] at hsome
      exact ⟨hin.1, hin.2, Option.some.inj hsome⟩
    · rw [if_neg hin] at hsome
      exact absurd hsome (by simp)
  obtain ⟨h0, htip, rfl⟩ := hserved
  have hshown : (c.world.chain.block stored.height).hashText = stored.hash := by
    rw [hheight, ← c.world.chain.hash_header _ h0 htip, heq]
  exact (hlinked r hr stored hmem (hheight ▸ hle)).hash_eq hhash
    ⟨c.world.chain, hchain, rfl⟩ (by rw [hheight]; exact htip) hshown

/-! ### A reorg between two passes -/

theorem with0x_hex0x (bytes : List UInt8) : with0x (hex0x bytes) = hex0x bytes := by
  unfold with0x
  rw [show (hex0x bytes).toList = '0' :: 'x' :: (hexEncode bytes).toList from
    String.toList_append]
  rfl

def numberedHash (n : Nat) : B256 := Vector.replicate 32 (UInt8.ofNat n)

/-- Empty blocks up to a tip, each identified by a number. -/
def numberedFork (tip : Int) (number : Int → Nat) : Fork where
  tip := tip
  block h :=
    { bareBlock h (hex0x (numberedHash (number h)).toList) [] with
      previousHash := hex0x (numberedHash (number (h - 1))).toList }
  logs _ := []
  header h := ⟨numberedHash (number h)⟩
  linked h _ _ := by
    unfold NativeBlockResponse.parentText NativeBlockResponse.hashText
    simp [bareBlock]
  hash_header h _ _ := (with0x_hex0x _).symm

/-- Three blocks, and the fork that replaces the last two of them and goes on. -/
def shortFork : Fork := numberedFork 2 fun h => if h = 0 then 0 else 10 + h.toNat
def longFork : Fork := numberedFork 3 fun h => if h = 0 then 0 else 20 + h.toNat

/-- The chain is one of the two. -/
def TwoForks (f : Fork) : Prop := f = shortFork ∨ f = longFork

theorem twoForks_hashLinked : HashLinked (Fork.Views TwoForks) := by
  have hshort : shortFork.view.tip = 2 := rfl
  have hdiffer : ∀ n, 0 < n → n ≤ 2 → shortFork.view.hash n ≠ longFork.view.hash n := by
    intro n h0 h2
    obtain rfl | rfl : n = 1 ∨ n = 2 := by omega
    · decide +kernel
    · decide +kernel
  intro V V' hV hV' n h0 hn hn' heq
  obtain ⟨f, rfl | rfl, rfl⟩ := hV
  · obtain ⟨f', rfl | rfl, rfl⟩ := hV'
    · rfl
    · exact absurd heq (hdiffer n h0 hn)
  · obtain ⟨f', rfl | rfl, rfl⟩ := hV'
    · exact absurd heq.symm (hdiffer n h0 hn')
    · rfl

/-- The stored block at `p` is on the chain and the one at `q` is not. -/
def misled (p q : Int) (w : World Fork) : Bool :=
  match Blocks.getByHeight w.store p, w.chain.answer (.blockWithTxs p),
      Blocks.getByHeight w.store q with
  | some stored, .ok (some remote), some r =>
      remote.hashText = stored.hash && r.hash != (w.chain.block q).hashText
  | _, _, _ => false

theorem misled_spec {p q : Int} {w : World Fork} (h : misled p q w = true) :
    (∃ stored remote, Blocks.getByHeight w.store p = some stored ∧
      w.chain.answer (.blockWithTxs p) = .ok (some remote) ∧ remote.hashText = stored.hash) ∧
    ∃ r ∈ w.store.blocks.rows, r.height = q ∧ (w.chain.block r.height).hashText ≠ r.hash := by
  unfold misled at h
  split at h
  · next stored remote r hlocal hanswer hrow =>
      rw [Bool.and_eq_true] at h
      obtain ⟨hmem, hheight⟩ := Table.find?_eq_some.mp hrow
      refine ⟨⟨stored, remote, hlocal, hanswer, of_decide_eq_true h.1⟩, r, hmem, hheight, ?_⟩
      rw [hheight]
      exact Ne.symm (by simpa using h.2)
  · exact absurd h (by simp)

def backfillTip : Prog SyncSig Unit := discard (backfillPassOf probeTip)

/-- The world when the chain has become the long fork. -/
def World.reorg (w : World Fork) (f : Fork) : World Fork := { w with chain := f }

/--
The short fork is indexed, the long fork replaces it, and its next block is indexed.  The
probe finds that block on the chain; block 1 below it is still the one of the short fork.
-/
theorem matching_probe_misses_reorg :
    HashLinked (Fork.Views TwoForks) ∧ ∃ f c, TwoForks f ∧
      Reachable (checkedIndexer TwoForks) (World.init f) c ∧
      ProbeMatches c.world probeTip 3 ∧
      ∃ r ∈ c.world.store.blocks.rows, r.height ≤ probeHeight probeTip 3 ∧
        (c.world.chain.block r.height).hashText ≠ r.hash := by
  obtain ⟨w₁, _, hfirst, hcheck⟩ := run_of_exec Fork.answers 0 200 (World.init shortFork)
    backfillTip (fun x => (exec (serve Fork.respond 0) 200 (x.1.reorg longFork) backfillTip).any
      fun y => misled 3 1 y.1) (by decide +kernel)
  obtain ⟨w₂, _, hsecond, hend⟩ := run_of_exec Fork.answers 0 200 (w₁.reorg longFork)
    backfillTip _ hcheck
  have hstart : Reachable (checkedIndexer TwoForks) (World.init shortFork) _ := Reachable.init
  have htask : CheckedTask backfillTip := .writer (WriterTask.backfill _ _ false)
  have hreorg : Surroundings (fun _ f => TwoForks f) w₁ (w₁.reorg longFork) :=
    Surroundings.chain (Or.inr rfl)
  have hreorged := (hstart.run (i := 0) rfl htask hfirst).move (Move.env hreorg)
  have hindexed := hreorged.run (i := 0) rfl htask hsecond
  obtain ⟨hmatch, r, hr, hheight, hdiffer⟩ := misled_spec hend
  exact ⟨twoForks_hashLinked, _, _, Or.inl rfl, hindexed, ⟨by decide, hmatch⟩, r, hr,
    by rw [hheight]; decide, hdiffer⟩

/-- Every block stored or added by the call is on the fork. -/
def onForkCall (f : Fork) (w : World Fork) : SyncCall → Bool
  | .transact t => (w.store.blocks.rows ++ addedBlocks w.store t).all fun r =>
      decide (0 ≤ r.height ∧ r.height ≤ f.tip ∧ (f.block r.height).hashText = r.hash)
  | _ => true

/-- Blocks of one fork are linked. -/
theorem below_of_onFork {f : Fork} (hf : forks f) {r r' : Block}
    (hr : 0 ≤ r.height ∧ r.height ≤ f.tip ∧ (f.block r.height).hashText = r.hash)
    (hr' : 0 ≤ r'.height ∧ r'.height ≤ f.tip ∧ (f.block r'.height).hashText = r'.hash)
    (hle : r.height ≤ r'.height) : r.Below forks r' := by
  obtain ⟨k, hk⟩ := Int.le.dest hle
  have hview : Fork.Views forks f.view := ⟨f, hf, rfl⟩
  have habove := View.ancestor hview hr.1 k
    (by rw [hk]; exact hr'.2.1)
  rw [hk] at habove
  unfold Block.Below
  rw [← hr.2.2, ← hr'.2.2]
  exact habove

/-- Answers to calls that stay on a fork are answers of the linked runs. -/
theorem serve_commitsLinked {f : Fork} (hf : forks f) (i : TaskId) (w : World Fork)
    (call : SyncCall) (hok : onForkCall f w call = true) :
    ((checkedIndexer forks).restrict (CommitsLinked forks)).handler i w call
      (serve Fork.respond i w call).1 (serve Fork.respond i w call).2 := by
  refine ⟨handle_serve Fork.answers i w call, fun j t hevents => ?_⟩
  obtain ⟨rfl, -⟩ := commit_of_handle (handle_serve Fork.answers i w call) hevents
  have hall : ∀ r ∈ w.store.blocks.rows ++ addedBlocks w.store t, 0 ≤ r.height ∧
      r.height ≤ f.tip ∧ (f.block r.height).hashText = r.hash :=
    fun r hr => of_decide_eq_true (List.all_eq_true.mp hok r hr)
  intro b hb r hr
  have hb' := hall b (List.mem_append_right _ hb)
  exact ⟨below_of_onFork hf (hall r hr) hb', below_of_onFork hf hb' (hall r hr)⟩

/-- The stored block at `p` is on the chain, and blocks from 1 on have been deleted. -/
def probedAfterRewind (p : Int) (w : World Fork) : Bool :=
  match Blocks.getByHeight w.store p, w.chain.answer (.blockWithTxs p) with
  | some stored, .ok (some remote) => remote.hashText = stored.hash &&
      w.events.contains (.committed 0 (.rewindTo 1))
  | _, _ => false

theorem probedAfterRewind_spec {p : Int} {w : World Fork} (h : probedAfterRewind p w = true) :
    (∃ stored remote, Blocks.getByHeight w.store p = some stored ∧
      w.chain.answer (.blockWithTxs p) = .ok (some remote) ∧ remote.hashText = stored.hash) ∧
    .committed 0 (.rewindTo 1) ∈ w.events := by
  unfold probedAfterRewind at h
  split at h
  · next stored remote hlocal hanswer =>
      rw [Bool.and_eq_true] at h
      exact ⟨⟨stored, remote, hlocal, hanswer, of_decide_eq_true h.1⟩,
        List.contains_iff_mem.mp h.2⟩
  · exact absurd h (by simp)

/-- Where a program ends, if all that is stored before each commit and with it is on `f`. -/
def onFork (f : Fork) (p : Prog SyncSig Unit) (w : World Fork) : Option (World Fork) :=
  (execWhile (onForkCall f) (serve Fork.respond 0) 200 w p).map Prod.fst

theorem exists_run_onFork {f : Fork} (hf : forks f) {p : Prog SyncSig Unit} {w : World Fork}
    (check : World Fork → Bool) (h : (onFork f p w).any check = true) :
    ∃ w', Run (((checkedIndexer forks).restrict (CommitsLinked forks)).handler 0) w p w' () ∧
      check w' = true := by
  obtain ⟨w', _, hrun, hcheck⟩ := exists_run_of_execWhile (serve_commitsLinked hf 0) 200 w p
    (fun x => check x.1) (by simpa [onFork, Option.any_map] using h)
  exact ⟨w', hrun, hcheck⟩

def checkTip : Prog SyncSig Unit := discard (Script.toProgE (checkOnce probeTip 2))

/--
The short fork is indexed and the long fork replaces it.  A check finds block 2 off the chain
and deletes blocks 1 and 2, then the next block of the long fork is indexed.  The probe finds
that one, and what is stored below it, the genesis block, is on the chain too.
-/
theorem matching_probe_certifies_prefix_reorg :
    ∃ c, Reachable ((checkedIndexer TwoForks).restrict (CommitsLinked TwoForks))
        (World.init shortFork) c ∧ .committed 0 (.rewindTo 1) ∈ c.world.events ∧
      ProbeMatches c.world probeTip 3 ∧
      ∀ r ∈ c.world.store.blocks.rows, r.height ≤ probeHeight probeTip 3 →
        (c.world.chain.block r.height).hashText = r.hash := by
  have hshort : TwoForks shortFork := Or.inl rfl
  have hlong : TwoForks longFork := Or.inr rfl
  obtain ⟨w₁, hfirst, hthen⟩ := exists_run_onFork hshort (w := World.init shortFork)
    (p := backfillTip)
    (fun w₁ => (onFork shortFork checkTip (w₁.reorg longFork)).any fun w₂ =>
      (onFork longFork backfillTip w₂).any (probedAfterRewind 3)) (by decide +kernel)
  obtain ⟨w₂, hcheck, hthen⟩ := exists_run_onFork hshort _ hthen
  obtain ⟨w₃, hsecond, hend⟩ := exists_run_onFork hlong _ hthen
  have hstart : Reachable ((checkedIndexer TwoForks).restrict (CommitsLinked TwoForks))
      (World.init shortFork) _ := Reachable.init
  have hback : CheckedTask backfillTip := .writer (WriterTask.backfill _ _ false)
  have hreorg : Surroundings (fun _ f => TwoForks f) w₁ (w₁.reorg longFork) :=
    Surroundings.chain hlong
  have hreorged := (hstart.run (i := 0) rfl hback hfirst).move (Move.env hreorg)
  have hchecked := hreorged.run (i := 0) rfl (.check probeTip 2) hcheck
  have hreach := hchecked.run (i := 0) rfl hback hsecond
  obtain ⟨hfound, hrewound⟩ := probedAfterRewind_spec hend
  have hmatch : ProbeMatches w₃ probeTip 3 := ⟨by decide, hfound⟩
  exact ⟨_, hreach, hrewound, hmatch,
    ( matching_probe_certifies_prefix twoForks_hashLinked hshort hreach 0 hmatch).2⟩

end SentrixIndexer
