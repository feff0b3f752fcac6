/-
The chunks of the CoinBlast worker tile the chain.

The worker goes on right above the cursor it reads, and it moves the cursor to the end of a
chunk that has succeeded.  So whatever tips it is told, whichever chunks fail and wherever it
crashes, what lies between the deployment and the cursor has been covered, chunk by chunk.

A chronicler writes down every call of the worker with its answer, and where the stored cursor
was after it.  Which chunks have been completed is read off this history: a chunk has been if
some stretch of the calls is a run of `run_chunk` over its range that ended in `Ok`.
-/
import SentrixIndexer.Coinblast.Reference
import SentrixIndexer.Effect.History
import SentrixIndexer.Effect.Observed
import SentrixIndexer.Proofs.AskedFor
import SentrixIndexer.Proofs.CurveStatements
import SentrixIndexer.Proofs.NumericFidelity
import SentrixIndexer.Proofs.WorkerRules

namespace SentrixIndexer

open Effect

variable {χ : Type} {cfg : WorkerConfig} {rpc : CbRpc χ} {moves : χ → χ → Prop} {abi : Abi}

/-! ### What the history tells -/

/-- What the chronicler writes down. -/
structure ChunkLog where
  /-- The calls and their answers, oldest first. -/
  calls : List (CallAnswer CbSig)
  /-- The stored cursor after each call, newest first. -/
  cursors : List Int

def ChunkLog.empty : ChunkLog := ⟨[], []⟩

/-- One more call. -/
def ChunkLog.note (m : ChunkLog) (c : CbCall) (r : c.Answer) (w : CbWorld χ) : ChunkLog where
  calls := m.calls ++ [⟨c, r⟩]
  cursors := w.store.cursor.toList ++ m.cursors

/-- The tip that a call was answered with. -/
def tipTold (tip : Int) : CallAnswer CbSig := ⟨.chain .blockNumber, .ok tip⟩

/-- `run_chunk` over this range has made these calls and has come to its `Ok`: its requests
for the logs of the factory and of the curves have both been answered with logs. -/
structure RanChunk (abi : Abi) (cfg : WorkerConfig) (range : Int × Int)
    (calls : List (CallAnswer CbSig)) : Prop where
  ran : (runChunk abi range.1 range.2 (coinblastFactoryAddress cfg.network)).run.Plays calls
    (.ok ())
  factoryLogs : ∃ logs, (⟨.chain (.getLogs range.1 range.2
    (some (coinblastFactoryAddress cfg.network))), .ok logs⟩ : CallAnswer CbSig) ∈ calls
  curveLogs : ∃ logs,
    (⟨.chain (.getLogs range.1 range.2 none), .ok logs⟩ : CallAnswer CbSig) ∈ calls

/-- The chunk over this range has been completed. -/
def Completed (abi : Abi) (cfg : WorkerConfig) (calls : List (CallAnswer CbSig))
    (range : Int × Int) : Prop :=
  ∃ before during after, calls = before ++ during ++ after ∧ RanChunk abi cfg range during

/-- The cursor as the worker has read it last. -/
def CursorRead (cfg : WorkerConfig) (calls : List (CallAnswer CbSig)) (cursor : Int) : Prop :=
  ∃ before stored since, calls = before ++ ⟨.readCursor, .ok stored⟩ :: since ∧
    (∀ e ∈ since, e.1 ≠ .readCursor) ∧
    cursor = max (stored.getD (coinblastDeployBlock cfg.network - 1))
      (coinblastDeployBlock cfg.network - 1)

/-- The tip leaves nothing to do above the cursor that was read last. -/
def CaughtUp (cfg : WorkerConfig) (calls : List (CallAnswer CbSig)) (tip : Int) : Prop :=
  ∃ cursor, CursorRead cfg calls cursor ∧ saturatingSub tip (asI64 cfg.safeLag) ≤ cursor

/-- A chunk may cover this range: blocks from the deployment on, no more than the chunk size,
none of them above a tip that was told, less the lag. -/
structure Attemptable (cfg : WorkerConfig) (calls : List (CallAnswer CbSig)) (range : Int × Int) :
    Prop where
  deployed : coinblastDeployBlock cfg.network ≤ range.1
  nonempty : range.1 ≤ range.2
  size : range.2 - range.1 + 1 ≤ cfg.chunkSize.toNat
  lagging : ∃ tip, tipTold tip ∈ calls ∧ range.2 ≤ tip - cfg.safeLag.toNat

/-- The worker's state and the history. -/
abbrev Chronicled (χ : Type) := CbWorld χ × ChunkLog

/-- **The chunks tile the chain.** -/
structure Tiling (abi : Abi) (cfg : WorkerConfig) (x : Chronicled χ) : Prop where
  stored : x.1.store.cursor = x.2.cursors.head?
  rising : x.2.cursors.Pairwise fun newer older => older ≤ newer
  /-- Up to the cursor, chunks have been completed without a gap. -/
  covered : ∀ cursor ∈ x.1.store.cursor, ∀ height, coinblastDeployBlock cfg.network ≤ height →
    height ≤ cursor → ∃ range, Completed abi cfg x.2.calls range ∧
      range.1 ≤ height ∧ height ≤ range.2
  lagging : ∀ cursor ∈ x.1.store.cursor, ∃ tip, tipTold tip ∈ x.2.calls ∧
    cursor ≤ tip - cfg.safeLag.toNat
  /-- Logs are asked for over ranges a chunk may cover. -/
  attempted : ∀ fromBlock toBlock address logs,
    (⟨.chain (.getLogs fromBlock toBlock address), logs⟩ : CallAnswer CbSig) ∈ x.2.calls →
      Attemptable cfg x.2.calls (fromBlock, toBlock)
  /-- A tip that the worker sleeps on before it has asked for any logs leaves nothing to do: no
  range is refused by `logs_in_range`. -/
  caughtUp : ∀ before tip nanos cancelled after, x.2.calls =
    before ++ tipTold tip :: ⟨.sleepOrCancel nanos, cancelled⟩ :: after → CaughtUp cfg before tip

/-! ### Ranges -/

/-- The range of the chunk that is next, if there is one. -/
def nextChunk (cfg : WorkerConfig) (cursor tip : Int) : Option (Int × Int) :=
  let target := saturatingSub tip (asI64 cfg.safeLag)
  if target ≤ cursor then none else some (cursor + 1, chunkEnd cfg cursor target)

/-- A chunk over this range, and what follows it. -/
def attemptChunk (abi : Abi) (cfg : WorkerConfig) : Option (Int × Int) → CbScript (Unit ⊕ Unit)
  | none => idle cfg.idleSleep
  | some range => do
      let result ← ExceptT.lift
        (runChunk abi range.1 range.2 (coinblastFactoryAddress cfg.network)).run
      afterChunk cfg range.2 result

/-- **A pass attempts the next chunk.** -/
theorem workerPass_eq (abi : Abi) (cfg : WorkerConfig) : workerPass abi cfg = (do
    if ← ExceptT.lift CbCall.isCancelled.ask then return .inr ()
    let cursor ← readCoinblastCursor cfg.network
    let tip ← cbRetry (CbCall.chain .blockNumber).ask
    attemptChunk abi cfg (nextChunk cfg cursor tip)) := by
  have hattempt : ∀ cursor tip, attemptChunk abi cfg (nextChunk cfg cursor tip) =
      if saturatingSub tip (asI64 cfg.safeLag) ≤ cursor then idle cfg.idleSleep
      else attemptChunk abi cfg
        (some (cursor + 1, chunkEnd cfg cursor (saturatingSub tip (asI64 cfg.safeLag)))) := by
    intro cursor tip
    unfold nextChunk
    by_cases hidle : saturatingSub tip (asI64 cfg.safeLag) ≤ cursor
    · simp only [hidle, if_true]
      rfl
    · simp only [hidle, if_false]
  simp only [hattempt]
  rfl

/-- What may be covered may be covered later. -/
theorem Attemptable.more {calls : List (CallAnswer CbSig)} {range : Int × Int}
    (h : Attemptable cfg calls range) (later : List (CallAnswer CbSig)) :
    Attemptable cfg (calls ++ later) range := by
  obtain ⟨tip, htip, hle⟩ := h.lagging
  exact ⟨h.deployed, h.nonempty, h.size, tip, List.mem_append_left _ htip, hle⟩

theorem coinblastDeployBlock_pos (network : Network) : 0 < coinblastDeployBlock network := by
  cases network <;> decide

/-- The logs of an attemptable range are asked for. -/
theorem Attemptable.cbLogsInRange {calls : List (CallAnswer CbSig)} {range : Int × Int}
    (h : Attemptable cfg calls range) (address : Option EvmAddress) :
    cbLogsInRange range.1 range.2 address =
      (CbCall.chain (.getLogs range.1 range.2 address)).ask := by
  have hpos := coinblastDeployBlock_pos cfg.network
  have hdeployed := h.deployed
  have hnonempty := h.nonempty
  unfold SentrixIndexer.cbLogsInRange logsInRange
  rw [if_neg (by omega), if_neg (by rw [heightAsU64_eq_none]; omega),
    if_neg (by rw [heightAsU64_eq_none]; omega)]

/-- What the worker is configured with fits a signed word, and a chunk has a block. -/
structure SoundConfig (cfg : WorkerConfig) : Prop where
  chunk_pos : 1 ≤ cfg.chunkSize.toNat
  chunk_lt : cfg.chunkSize.toNat < 2 ^ 63
  lag_lt : cfg.safeLag.toNat < 2 ^ 63

/-- **The next chunk is attemptable** and starts right above the cursor. -/
theorem attemptable_nextChunk (hcfg : SoundConfig cfg) {cursor tip : Int}
    {calls : List (CallAnswer CbSig)} {range : Int × Int}
    (hcursor : coinblastDeployBlock cfg.network - 1 ≤ cursor) (htip : tipTold tip ∈ calls)
    (h : nextChunk cfg cursor tip = some range) :
    Attemptable cfg calls range ∧ range.1 = cursor + 1 := by
  have hpos := coinblastDeployBlock_pos cfg.network
  have hchunk : asI64 cfg.chunkSize = cfg.chunkSize.toNat := asI64_toNat (by
    have := hcfg.chunk_lt
    unfold i64Max
    omega)
  have hlag : asI64 cfg.safeLag = cfg.safeLag.toNat := asI64_toNat (by
    have := hcfg.lag_lt
    unfold i64Max
    omega)
  have hone := hcfg.chunk_pos
  unfold nextChunk chunkEnd saturatingSub saturatingAdd i64Min i64Max at h
  rw [hchunk, hlag] at h
  simp only at h
  split at h
  · exact absurd h (by simp)
  · rename_i hwork
    obtain rfl := Option.some.inj h
    refine ⟨⟨?_, ?_, ?_, tip, htip, ?_⟩, rfl⟩ <;> simp only <;> omega

/-! ### The calls of a chunk -/

section Attempts

variable {α : Type} {sleep : Nat → Script CbSig Unit} {backoff : BackoffConfig}
  {op : Script CbSig (Except ChainError α)} {a : α} {attempt : Nat}
  {calls : List (CallAnswer CbSig)}

/-- An attempt comes to it, or the next one after a sleep. -/
theorem plays_attempt {left : Nat}
    (h : (retryFrom sleep backoff op attempt left).Plays calls (.ok a)) :
    op.Plays calls (.ok a) ∨ ∃ less, left = less + 1 ∧ ∃ slept rest, calls = slept ++ rest ∧
      (retryFrom sleep backoff op (attempt + 1) less).Plays rest (.ok a) := by
  unfold retryFrom at h
  obtain ⟨r, first, rest, rfl, hop, hrest⟩ := Script.plays_bind.mp h
  cases r with
  | ok v =>
      obtain ⟨rfl, hv⟩ := Script.plays_pure.mp hrest
      exact Or.inl (by rw [List.append_nil, ← hv]; exact hop)
  | error e =>
      by_cases htransient : e.isTransient = true
      · simp only [htransient, if_true] at hrest
        cases left with
        | zero => exact absurd (Script.plays_pure.mp hrest).2 (by simp)
        | succ less =>
            obtain ⟨u, slept, later, rfl, -, hlater⟩ := Script.plays_bind.mp hrest
            exact Or.inr ⟨less, rfl, first ++ slept, later, by simp, hlater⟩
      · simp only [htransient] at hrest
        exact absurd (Script.plays_pure.mp hrest).2 (by simp)

/-- A call that has come to something after some attempts has come to it in one of them. -/
theorem plays_retryFrom {left : Nat}
    (h : (retryFrom sleep backoff op attempt left).Plays calls (.ok a)) :
    ∃ before during, calls = before ++ during ∧ op.Plays during (.ok a) := by
  induction left generalizing attempt calls with
  | zero =>
      rcases plays_attempt h with hop | ⟨less, hless, -⟩
      · exact ⟨[], calls, rfl, hop⟩
      · exact absurd hless (by simp)
  | succ left ih =>
      rcases plays_attempt h with hop | ⟨less, hless, slept, rest, rfl, hrest⟩
      · exact ⟨[], calls, rfl, hop⟩
      · obtain rfl : left = less := Nat.succ.inj hless
        obtain ⟨before, during, rfl, hduring⟩ := ih hrest
        exact ⟨slept ++ before, during, by simp, hduring⟩

end Attempts

/-- Logs that have come have come from a request. -/
theorem plays_logs {range : Int × Int} {calls during : List (CallAnswer CbSig)}
    (h : Attemptable cfg calls range) {address : Option EvmAddress} {logs : List RpcLog}
    (hplays : (cbRetry (cbLogsInRange range.1 range.2 address)).run.Plays during (.ok logs)) :
    (⟨.chain (.getLogs range.1 range.2 address), .ok logs⟩ : CallAnswer CbSig) ∈ during := by
  obtain ⟨r, tries, rest, rfl, htries, hrest⟩ := Script.plays_bind.mp hplays
  cases r with
  | error e => exact absurd (Script.plays_pure.mp hrest).2 (by simp)
  | ok v =>
      obtain ⟨rfl, hv⟩ := Script.plays_pure.mp hrest
      obtain rfl : v = logs := Except.ok.inj hv
      obtain ⟨before, asked, rfl, hasked⟩ := plays_retryFrom htries
      rw [h.cbLogsInRange] at hasked
      obtain ⟨r, later, rfl, hlater⟩ := Script.plays_call.mp hasked
      obtain ⟨-, rfl⟩ := Script.plays_pure.mp hlater
      simp

/-- **A chunk that comes to its `Ok` has been given its logs.** -/
theorem RanChunk.of_plays {range : Int × Int} {calls during : List (CallAnswer CbSig)}
    (h : Attemptable cfg calls range)
    (hplays : (runChunk abi range.1 range.2 (coinblastFactoryAddress cfg.network)).run.Plays
      during (.ok ())) : RanChunk abi cfg range during := by
  obtain ⟨factoryLogs, first, rest, rfl, hfactory, hrest⟩ := Script.Plays.of_bindE hplays
  obtain ⟨u, created, rest, rfl, -, hrest⟩ := Script.Plays.of_bindE hrest
  obtain ⟨curveLogs, asked, taken, rfl, hcurve, -⟩ := Script.Plays.of_bindE hrest
  refine ⟨hplays, ⟨factoryLogs, ?_⟩, ⟨curveLogs, ?_⟩⟩
  · exact List.mem_append_left _ (plays_logs h hfactory)
  · exact List.mem_append_right _ (List.mem_append_right _
      (List.mem_append_left _ (plays_logs h hcurve)))

/-- A chunk of such a range asks for logs before it comes to anything. -/
theorem Attemptable.plays_ne_nil {range : Int × Int} {calls during : List (CallAnswer CbSig)}
    (h : Attemptable cfg calls range) {factory : EvmAddress} {r : Except CbError Unit}
    (hplays : (runChunk abi range.1 range.2 factory).run.Plays during r) : during ≠ [] := by
  obtain ⟨_, first, rest, rfl, hfirst, -⟩ := Script.plays_bind.mp hplays
  obtain ⟨_, tries, rest, rfl, htries, -⟩ := Script.plays_bind.mp hfirst
  rw [retryWithBackoff, retryFrom, h.cbLogsInRange] at htries
  obtain ⟨_, asked, rest, rfl, hasked, -⟩ := Script.plays_bind.mp htries
  obtain ⟨_, later, rfl, -⟩ := Script.plays_call.mp hasked
  simp

/-! ### The chronicle -/

/-- The worker and the chronicler. -/
abbrev chronicled (abi : Abi) (cfg : WorkerConfig) (rpc : CbRpc χ) (moves : χ → χ → Prop) :
    System CbSig Unit (Chronicled χ) (Except CbError Unit) :=
  (coinblast abi cfg rpc moves).chronicle ChunkLog.note

/-- How the surroundings answer the chronicled worker. -/
abbrev chronicleHandle (rpc : CbRpc χ) : Handler CbSig (Chronicled χ) :=
  fun x c r x' => cbHandle rpc x.1 c r x'.1 ∧ x'.2 = x.2.note c r x'.1

/-- Neither the cursor nor the history has changed. -/
structure SameTiles (x x' : Chronicled χ) : Prop where
  cursor : x'.1.store.cursor = x.1.store.cursor
  log : x'.2 = x.2

variable {x x' : Chronicled χ}

theorem SameTiles.refl (x : Chronicled χ) : SameTiles x x := ⟨rfl, rfl⟩

theorem SameTiles.trans {x₁ x₂ x₃ : Chronicled χ} (h : SameTiles x₁ x₂) (h' : SameTiles x₂ x₃) :
    SameTiles x₁ x₃ := ⟨h'.cursor.trans h.cursor, h'.log.trans h.log⟩

theorem Tiling.of_same (h : Tiling abi cfg x) (hs : SameTiles x x') : Tiling abi cfg x' where
  stored := by rw [hs.cursor, hs.log, h.stored]
  rising := by rw [hs.log]; exact h.rising
  covered := by rw [hs.cursor, hs.log]; exact h.covered
  lagging := by rw [hs.cursor, hs.log]; exact h.lagging
  attempted := by rw [hs.log]; exact h.attempted
  caughtUp := by rw [hs.log]; exact h.caughtUp

/-- To sleep now is not to turn away from a tip that leaves something to do. -/
def MaySleep (cfg : WorkerConfig) (calls : List (CallAnswer CbSig)) : Prop :=
  ∀ before tip, calls = before ++ [tipTold tip] → CaughtUp cfg before tip

/-- It is not, unless the last call was for the tip. -/
theorem maySleep_of_last {calls : List (CallAnswer CbSig)} {e : CallAnswer CbSig}
    (he : e.1 ≠ .chain .blockNumber) : MaySleep cfg (calls ++ [e]) := by
  intro before tip h
  obtain ⟨-, hlast⟩ := List.append_inj' h rfl
  obtain rfl : e = tipTold tip := by simpa using hlast
  exact absurd rfl he

theorem Completed.more {calls : List (CallAnswer CbSig)} {range : Int × Int}
    (h : Completed abi cfg calls range) (later : List (CallAnswer CbSig)) :
    Completed abi cfg (calls ++ later) range := by
  obtain ⟨before, during, after, rfl, hran⟩ := h
  exact ⟨before, during, after ++ later, by simp, hran⟩

/-- The stored cursor is the highest there has been. -/
theorem Tiling.le_cursor (h : Tiling abi cfg x) {older : Int} (holder : older ∈ x.2.cursors) :
    ∃ cursor ∈ x.1.store.cursor, older ≤ cursor := by
  have hrising := h.rising
  have hstored := h.stored
  rcases hcursors : x.2.cursors with _ | ⟨cursor, rest⟩
  · rw [hcursors] at holder
    exact absurd holder (by simp)
  · rw [hcursors] at hrising hstored holder
    refine ⟨cursor, hstored, ?_⟩
    rcases List.mem_cons.mp holder with rfl | hrest
    · exact le_refl _
    · exact (List.pairwise_cons.mp hrising).1 older hrest

section OneCall

variable {c : CbCall} {r : c.Answer}

/-- A cursor that is written down where it is not below the stored one. -/
theorem Tiling.rising_note (h : Tiling abi cfg x)
    (hle : ∀ old ∈ x.1.store.cursor, ∀ new ∈ x'.1.store.cursor, old ≤ new)
    (hlog : x'.2 = x.2.note c r x'.1) :
    x'.2.cursors.Pairwise fun newer older => older ≤ newer := by
  rw [hlog]
  refine List.pairwise_append.mpr ⟨?_, h.rising, fun newer hnewer older holder => ?_⟩
  · cases x'.1.store.cursor <;> simp
  · obtain ⟨cursor, hcursor, hcursorle⟩ := h.le_cursor holder
    exact hcursorle.trans (hle cursor hcursor newer (by simpa using hnewer))

/-- Logs are asked for, or not. -/
theorem Tiling.attempted_note (h : Tiling abi cfg x) (hlog : x'.2 = x.2.note c r x'.1)
    (hlogs : ∀ fromBlock toBlock address, c = .chain (.getLogs fromBlock toBlock address) →
      Attemptable cfg x.2.calls (fromBlock, toBlock)) :
    ∀ fromBlock toBlock address logs,
      (⟨.chain (.getLogs fromBlock toBlock address), logs⟩ : CallAnswer CbSig) ∈ x'.2.calls →
        Attemptable cfg x'.2.calls (fromBlock, toBlock) := by
  intro fromBlock toBlock address logs hmem
  rw [hlog] at hmem ⊢
  rcases List.mem_append.mp hmem with hold | hnew
  · exact (h.attempted _ _ _ _ hold).more _
  · have hcall := congrArg Sigma.fst (List.mem_singleton.mp hnew)
    exact (hlogs fromBlock toBlock address hcall.symm).more _

/-- The worker sleeps, or not. -/
theorem Tiling.caughtUp_note (h : Tiling abi cfg x) (hlog : x'.2 = x.2.note c r x'.1)
    (hsleep : ∀ nanos, c = .sleepOrCancel nanos → MaySleep cfg x.2.calls) :
    ∀ before tip nanos cancelled after, x'.2.calls =
      before ++ tipTold tip :: ⟨.sleepOrCancel nanos, cancelled⟩ :: after →
        CaughtUp cfg before tip := by
  intro before tip nanos cancelled after hcalls
  rw [hlog] at hcalls
  rcases List.eq_nil_or_concat after with rfl | ⟨after, last, rfl⟩
  · have hsplit : x.2.calls ++ [⟨c, r⟩] =
        (before ++ [tipTold tip]) ++ [⟨.sleepOrCancel nanos, cancelled⟩] :=
      hcalls.trans (by simp)
    obtain ⟨hbefore, hlast⟩ := List.append_inj' hsplit rfl
    exact hsleep nanos (congrArg Sigma.fst (List.singleton_inj.mp hlast)) before tip hbefore
  · have hsplit : x.2.calls ++ [⟨c, r⟩] =
        (before ++ tipTold tip :: ⟨.sleepOrCancel nanos, cancelled⟩ :: after) ++ [last] :=
      hcalls.trans (by simp)
    exact h.caughtUp before tip nanos cancelled after (List.append_inj' hsplit rfl).1

/-- **A call that leaves the cursor alone.** -/
theorem Tiling.note (h : Tiling abi cfg x) (hs : x'.1.store.cursor = x.1.store.cursor)
    (hlog : x'.2 = x.2.note c r x'.1)
    (hlogs : ∀ fromBlock toBlock address, c = .chain (.getLogs fromBlock toBlock address) →
      Attemptable cfg x.2.calls (fromBlock, toBlock))
    (hsleep : ∀ nanos, c = .sleepOrCancel nanos → MaySleep cfg x.2.calls) :
    Tiling abi cfg x' where
  stored := by
    rw [hlog]
    show _ = (x'.1.store.cursor.toList ++ x.2.cursors).head?
    rw [hs, h.stored]
    cases x.2.cursors with
    | nil => rfl
    | cons cursor rest => rfl
  rising := by
    refine h.rising_note (fun old hold new hnew => ?_) hlog
    rw [hs] at hnew
    exact le_of_eq (Option.mem_unique hold hnew)
  covered := by
    rw [hs, hlog]
    intro cursor hcursor height hdeployed hheight
    obtain ⟨range, hcompleted, hin⟩ := h.covered cursor hcursor height hdeployed hheight
    exact ⟨range, hcompleted.more _, hin⟩
  lagging := by
    rw [hs, hlog]
    intro cursor hcursor
    obtain ⟨tip, htip, hle⟩ := h.lagging cursor hcursor
    exact ⟨tip, List.mem_append_left _ htip, hle⟩
  attempted := h.attempted_note hlog hlogs
  caughtUp := h.caughtUp_note hlog hsleep

end OneCall

/-! ### Single calls -/

/-- A call that asks for no logs, does not sleep and does not write the cursor. -/
def CbCall.IsPlain : CbCall → Prop
  | .chain (.getLogs _ _ _) => False
  | .sleepOrCancel _ => False
  | .transact (.setCursor _) => False
  | _ => True

/-- The other calls move no cursor. -/
theorem cursor_unmoved {c : CbCall} (hc : ∀ height, c ≠ .transact (.setCursor height))
    {w w' : CbWorld χ} {r : c.Answer} (hH : cbHandle rpc w c r w') :
    w'.store.cursor = w.store.cursor := by
  cases cbHandle_step hH with
  | stay => rfl
  | chain _ => rfl
  | transact hrun _ =>
      refine TxnEffect.cursor_eq (CbTxn.run_effect hrun) ?_
      rintro height rfl
      exact hc height rfl
  | initSets curves => rfl
  | insertKnown a => rfl
  | cacheNonCurve _ => rfl

theorem Tiling.plain {c : CbCall} {r : c.Answer} (h : Tiling abi cfg x) (hc : c.IsPlain)
    (hH : chronicleHandle rpc x c r x') : Tiling abi cfg x' := by
  refine h.note (cursor_unmoved ?_ hH.1) hH.2 ?_ ?_
  · rintro height rfl
    exact hc
  · rintro fromBlock toBlock address rfl
    exact absurd hc fun h => h
  · rintro nanos rfl
    exact absurd hc fun h => h

/-- Verified to keep the tiling, for `Q`. -/
abbrev KeepsTiling (abi : Abi) (cfg : WorkerConfig) (rpc : CbRpc χ) {α : Type} (p : CbScript α)
    (Q : Except CbError α → Chronicled χ → Prop) (x : Chronicled χ) : Prop :=
  wp (chronicleHandle rpc) (Tiling abi cfg) SameTiles (fun _ _ => True) (Script.toProgE p).run Q x

/-- A script of plain calls. -/
theorem tiling_plain {α : Type} {p : Script CbSig α} (hp : p.Only CbCall.IsPlain) :
    wp (chronicleHandle rpc) (Tiling abi cfg) SameTiles (fun _ _ => True) p.toProg
      (fun _ _ => True) x :=
  Script.Only.wp_keeps (J := fun _ => True) (fun _ _ _ _ _ => trivial)
    (fun _ _ _ _ hc hI _ hH => ⟨hI.plain hc hH, trivial, trivial⟩) hp trivial

/-- The worker has read this cursor. -/
structure Ready (cfg : WorkerConfig) (cursor : Int) (x : Chronicled χ) : Prop where
  stored : x.1.store.readCursor cfg.network = cursor
  read : CursorRead cfg x.2.calls cursor

/-- The worker is at the chunk right above the cursor. -/
structure Attempting (cfg : WorkerConfig) (range : Int × Int) (x : Chronicled χ) : Prop where
  next : x.1.store.readCursor cfg.network + 1 = range.1
  attemptable : Attemptable cfg x.2.calls range

theorem readCursor_eq {s s' : CbStore} (h : s'.cursor = s.cursor) (network : Network) :
    s'.readCursor network = s.readCursor network := by
  unfold CbStore.readCursor
  rw [h]

theorem Ready.of_same {cursor : Int} (h : Ready cfg cursor x) (hs : SameTiles x x') :
    Ready cfg cursor x' :=
  ⟨by rw [readCursor_eq hs.cursor, h.stored], by rw [hs.log]; exact h.read⟩

theorem Attempting.of_same {range : Int × Int} (h : Attempting cfg range x)
    (hs : SameTiles x x') : Attempting cfg range x' :=
  ⟨by rw [readCursor_eq hs.cursor, h.next], by rw [hs.log]; exact h.attemptable⟩

theorem le_readCursor (network : Network) (s : CbStore) :
    coinblastDeployBlock network - 1 ≤ s.readCursor network := le_max_right _ _

theorem cursor_le_readCursor (network : Network) {s : CbStore} {cursor : Int}
    (h : s.cursor = some cursor) : cursor ≤ s.readCursor network := by
  unfold CbStore.readCursor
  rw [h]
  exact le_max_left _ _

/-- From the deployment on, what the cursor that is read has reached, the stored one has. -/
theorem le_cursor_of_le_readCursor {network : Network} {s : CbStore} {height : Int}
    (hdeployed : coinblastDeployBlock network ≤ height) (h : height ≤ s.readCursor network) :
    ∃ cursor ∈ s.cursor, height ≤ cursor := by
  unfold CbStore.readCursor at h
  rcases hcursor : s.cursor with _ | cursor
  · rw [hcursor] at h
    simp only [Option.getD_none, max_self] at h
    omega
  · rw [hcursor] at h
    simp only [Option.getD_some] at h
    exact ⟨cursor, rfl, by omega⟩

/-- **The worker reads the cursor.** -/
theorem tiling_readCursor :
    KeepsTiling abi cfg rpc (readCoinblastCursor cfg.network)
      (fun r x' => ∀ cursor, r = .ok cursor → Ready cfg cursor x') x := by
  refine wp_scriptE_bind fun x₁ hR hI r x₂ hH => ?_
  have hI₂ : Tiling abi cfg x₂ := hI.plain (c := .readCursor) trivial hH
  obtain ⟨⟨hw, hr⟩, hlog⟩ := hH
  cases r with
  | error e => exact ⟨hI₂, trivial, fun cursor h => by simp at h⟩
  | ok stored =>
      obtain rfl : stored = x₁.1.store.cursor := by simpa using hr
      refine ⟨hI₂, trivial, fun cursor hcursor => ?_⟩
      obtain rfl := Except.ok.inj hcursor
      refine ⟨by rw [hw]; rfl, x₁.2.calls, x₁.1.store.cursor, [], ?_, by simp, rfl⟩
      rw [hlog]
      rfl

/-- What comes after the cursor has been read. -/
theorem CursorRead.more {calls : List (CallAnswer CbSig)} {cursor : Int}
    (h : CursorRead cfg calls cursor) {e : CallAnswer CbSig} (he : e.1 ≠ .readCursor) :
    CursorRead cfg (calls ++ [e]) cursor := by
  obtain ⟨before, stored, since, rfl, hsince, hcursor⟩ := h
  refine ⟨before, stored, since ++ [e], by simp, fun e' he' => ?_, hcursor⟩
  rcases List.mem_append.mp he' with hold | hnew
  · exact hsince e' hold
  · obtain rfl := List.mem_singleton.mp hnew
    exact he

/-- What the worker may do once it has been told a tip. -/
def Poised (cfg : WorkerConfig) : Option (Int × Int) → Chronicled χ → Prop
  | none, x => MaySleep cfg x.2.calls
  | some range, x => Attempting cfg range x

/-- **A tip is told**, and with it the next chunk is settled. -/
theorem Ready.poised (hcfg : SoundConfig cfg) {cursor tip : Int} (h : Ready cfg cursor x)
    (hs : x'.1.store.cursor = x.1.store.cursor) (hcalls : x'.2.calls = x.2.calls ++ [tipTold tip]) :
    Poised cfg (nextChunk cfg cursor tip) x' := by
  rcases hnext : nextChunk cfg cursor tip with _ | range
  · intro before tip' hbefore
    obtain ⟨rfl, hlast⟩ := List.append_inj' (hcalls.symm.trans hbefore) rfl
    obtain rfl : tip = tip' := by simpa [tipTold] using hlast
    refine ⟨cursor, h.read, ?_⟩
    by_contra habove
    unfold nextChunk at hnext
    rw [if_neg habove] at hnext
    exact absurd hnext (by simp)
  · have hattemptable : Attemptable cfg x'.2.calls range ∧ range.1 = cursor + 1 :=
      attemptable_nextChunk hcfg (h.stored ▸ le_readCursor _ _) (by rw [hcalls]; simp) hnext
    exact ⟨by rw [readCursor_eq hs, h.stored, hattemptable.2], hattemptable.1⟩

/-- **The tip is asked for.** -/
theorem tiling_blockNumber (hcfg : SoundConfig cfg) {cursor : Int} (h : Ready cfg cursor x) :
    KeepsTiling abi cfg rpc (cbRetry (CbCall.chain .blockNumber).ask)
      (fun r x' => ∀ tip, r = .ok tip → Poised cfg (nextChunk cfg cursor tip) x') x := by
  refine wp_cbRetry_each (J := Ready cfg cursor) (fun x₁ h₁ x₂ hR hI r x₃ hH => ?_)
    (fun nanos x₁ h₁ x₂ hR hI r x₃ hH => ?_) h
  · have h₂ := h₁.of_same hR
    have hs := cursor_unmoved (by simp) hH.1
    refine ⟨hI.plain (c := .chain .blockNumber) trivial hH, trivial, fun e he => ?_,
      fun tip htip => ?_⟩
    · refine ⟨by rw [readCursor_eq hs, h₂.stored], ?_⟩
      rw [hH.2]
      exact h₂.read.more (by simp)
    · cases r with
      | error e => exact absurd htip (by simp [Except.mapError])
      | ok tip' =>
          obtain rfl : tip' = tip := by simpa [Except.mapError] using htip
          refine h₂.poised hcfg hs ?_
          rw [hH.2]
          rfl
  · have h₂ := h₁.of_same hR
    refine ⟨hI.plain (c := .sleep nanos) trivial hH, trivial, ?_, ?_⟩
    · rw [readCursor_eq (cursor_unmoved (by simp) hH.1), h₂.stored]
    · rw [hH.2]
      exact h₂.read.more (by simp)

/-! ### A chunk -/

/-- A call of a chunk leaves the worker at the chunk. -/
theorem Attempting.call {range : Int × Int} {c : CbCall} {r : c.Answer}
    (hc : c.IsChunkCall range.1 range.2) (hI : Tiling abi cfg x) (h : Attempting cfg range x)
    (hH : chronicleHandle rpc x c r x') : Tiling abi cfg x' ∧ Attempting cfg range x' := by
  have hs : x'.1.store.cursor = x.1.store.cursor := by
    refine cursor_unmoved ?_ hH.1
    rintro height rfl
    exact hc
  refine ⟨hI.note hs hH.2 ?_ ?_, ?_, ?_⟩
  · rintro fromBlock toBlock address rfl
    obtain ⟨rfl, rfl⟩ : fromBlock = range.1 ∧ toBlock = range.2 := hc
    exact h.attemptable
  · rintro nanos rfl
    exact absurd hc fun h => h
  · rw [readCursor_eq hs, h.next]
  · rw [hH.2]
    exact h.attemptable.more _

/-- **A chunk leaves the worker where it was**: it may sleep, and if the chunk has come to its
`Ok` then it has been completed. -/
theorem tiling_runChunk {range : Int × Int} (h : Attempting cfg range x) :
    KeepsTiling abi cfg rpc (runChunk abi range.1 range.2 (coinblastFactoryAddress cfg.network))
      (fun r x' => Attempting cfg range x' ∧ MaySleep cfg x'.2.calls ∧
        (r = .ok () → Completed abi cfg x'.2.calls range)) x := by
  have honly : (runChunk abi range.1 range.2 (coinblastFactoryAddress cfg.network)).run.Only
      (CbCall.IsChunkCall range.1 range.2) := runChunk_only _ _ _
  have hkeeps := Script.Only.wp_keeps (H := chronicleHandle rpc) (I := Tiling abi cfg)
    (J := Attempting cfg range) (R := SameTiles) (G := fun _ _ => True)
    (fun _ _ h hR _ => h.of_same hR)
    (fun _ _ _ _ hc hI h hH => ⟨(h.call hc hI hH).1, trivial, (h.call hc hI hH).2⟩) honly h
  refine wp_mono (fun r x' hx' => ?_) (wp_history (fun x => x.2.calls)
    (fun _ _ _ _ hH => by rw [hH.2]; rfl) (fun _ _ hR => by rw [hR.log]) hkeeps)
  obtain ⟨hattempting, during, hcalls, hplays⟩ := hx'
  refine ⟨hattempting, ?_, ?_⟩
  · rcases List.eq_nil_or_concat during with rfl | ⟨first, last, rfl⟩
    · exact absurd rfl (h.attemptable.plays_ne_nil hplays)
    · have hlast : last.1.IsChunkCall range.1 range.2 := honly.plays hplays last (by simp)
      rw [hcalls, List.concat_eq_append, ← List.append_assoc]
      refine maySleep_of_last fun htip => ?_
      rw [htip] at hlast
      exact hlast
  · rintro rfl
    exact ⟨x.2.calls, during, [], by rw [hcalls]; simp,
      RanChunk.of_plays h.attemptable hplays⟩

/-- **The cursor moves to the end of the chunk**, or stays where it is. -/
theorem Tiling.setCursor (h : Tiling abi cfg x) {range : Int × Int} {r : Except CbError Unit}
    (hattempting : Attempting cfg range x) (hcompleted : Completed abi cfg x.2.calls range)
    (hs : x'.1.store.cursor = some range.2 ∨ x'.1.store.cursor = x.1.store.cursor)
    (hlog : x'.2 = x.2.note (.transact (.setCursor range.2)) r x'.1) : Tiling abi cfg x' := by
  rcases hs with hs | hs
  · have hattemptable := hattempting.attemptable
    -- Whatever has been stored is below the chunk.
    have hbelow : ∀ cursor ∈ x.1.store.cursor, cursor < range.1 := by
      intro cursor hcursor
      have hle := cursor_le_readCursor cfg.network hcursor
      have hnext := hattempting.next
      omega
    refine ⟨?_, ?_, ?_, ?_, ?_, ?_⟩
    · rw [hlog, hs, ChunkLog.note, hs]
      rfl
    · refine h.rising_note (fun old hold new hnew => ?_) hlog
      obtain rfl : range.2 = new := Option.some.inj (hs.symm.trans hnew)
      have hlt := hbelow old hold
      have hnonempty := hattemptable.nonempty
      omega
    · rw [hs, hlog]
      intro cursor hcursor height hdeployed hheight
      obtain rfl : range.2 = cursor := Option.some.inj hcursor
      by_cases hlow : height ≤ x.1.store.readCursor cfg.network
      · obtain ⟨old, hold, hle⟩ := le_cursor_of_le_readCursor hdeployed hlow
        obtain ⟨before, hbefore, hin⟩ := h.covered old hold height hdeployed hle
        exact ⟨before, hbefore.more _, hin⟩
      · have hnext := hattempting.next
        exact ⟨range, hcompleted.more _, by omega, hheight⟩
    · rw [hs, hlog]
      intro cursor hcursor
      obtain rfl : range.2 = cursor := Option.some.inj hcursor
      exact (hattemptable.more _).lagging
    · exact h.attempted_note hlog (by simp)
    · exact h.caughtUp_note hlog (by simp)
  · exact h.note hs hlog (by simp) (by simp)

/-! ### The loop -/

theorem tiling_idle {nanos : Nat} (h : MaySleep cfg x.2.calls) :
    KeepsTiling abi cfg rpc (idle nanos) (fun _ _ => True) x := by
  refine wp_liftAsk fun x₁ hR hI cancelled x₂ hH => ⟨?_, trivial, ?_⟩
  · refine hI.note (cursor_unmoved (by simp) hH.1) hH.2 (by simp) fun _ _ => ?_
    rw [hR.log]
    exact h
  · cases cancelled with
    | true => exact trivial
    | false => exact trivial

/-- **The cursor is written.** -/
theorem tiling_setCursor {range : Int × Int} (h : Attempting cfg range x)
    (hcompleted : Completed abi cfg x.2.calls range) :
    KeepsTiling abi cfg rpc (cbTransact (.setCursor range.2))
      (fun _ x' => MaySleep cfg x'.2.calls) x := by
  intro x₁ hR hI r x₂ hH
  obtain ⟨hw, hlog⟩ := hH
  refine ⟨hI.setCursor (h.of_same hR) (by rw [hR.log]; exact hcompleted) ?_ hlog, trivial, ?_⟩
  · rcases hw with ⟨a, s, hrun, -, hw⟩ | ⟨-, hw⟩
    · left
      rw [hw]
      exact cursor_setCursor hrun
    · right
      rw [hw]
  · show MaySleep cfg x₂.2.calls
    rw [hlog]
    exact maySleep_of_last (by simp)

/-- **A chunk is attempted**, if there is a next one. -/
theorem tiling_attemptChunk {next : Option (Int × Int)} (h : Poised cfg next x) :
    KeepsTiling abi cfg rpc (attemptChunk abi cfg next) (fun _ _ => True) x := by
  cases next with
  | none => exact tiling_idle h
  | some range =>
      refine wp_liftRun (wp_mono (fun result x₁ hx₁ => ?_) (tiling_runChunk h))
      obtain ⟨hattempting, hsleep, hcompleted⟩ := hx₁
      cases result with
      | error e => exact tiling_idle hsleep
      | ok u =>
          refine wp_scriptE_bind (wp_mono (fun r x₂ hsleep₂ => ?_)
            (tiling_setCursor hattempting (hcompleted rfl)))
          cases r with
          | ok u => exact tiling_idle hsleep₂
          | error e => exact trivial

theorem tiling_workerPass (hcfg : SoundConfig cfg) :
    KeepsTiling abi cfg rpc (workerPass abi cfg) (fun _ _ => True) x := by
  rw [workerPass_eq]
  refine wp_liftAsk (wp_mono (fun cancelled x₁ _ => ?_)
    (tiling_plain (p := CbCall.isCancelled.ask) ⟨trivial, fun _ => trivial⟩))
  cases cancelled with
  | true => exact trivial
  | false =>
      refine wp_scriptE_bind (wp_mono (fun r x₂ hr => ?_) tiling_readCursor)
      rcases r with e | cursor
      · exact trivial
      · refine wp_scriptE_bind (wp_mono (fun r x₃ hr => ?_)
          (tiling_blockNumber hcfg (hr cursor rfl)))
        rcases r with e | tip
        · exact trivial
        · exact tiling_attemptChunk (hr tip rfl)

theorem tiling_hydrateKnownCurves :
    KeepsTiling abi cfg rpc hydrateKnownCurves (fun _ _ => True) x := by
  refine tiling_plain ?_
  refine Script.Only.bindE ⟨trivial, fun _ => trivial⟩ fun curves => ?_
  exact Script.Only.bind ⟨trivial, fun _ => trivial⟩ fun _ => trivial

theorem tiling_runCoinblastWorker (hcfg : SoundConfig cfg) :
    wp (chronicleHandle rpc) (Tiling abi cfg) SameTiles (fun _ _ => True)
      (runCoinblastWorker abi cfg).run (fun _ _ => True) x := by
  refine wp_bindE (wp_mono (fun r x₁ _ => ?_) tiling_hydrateKnownCurves)
  cases r with
  | error e => exact trivial
  | ok u =>
      refine wp_iterateE (fun _ _ => True) (fun _ _ _ _ _ _ => trivial) trivial fun _ x₂ _ _ => ?_
      refine wp_mono (fun r _ _ => ?_) (tiling_workerPass hcfg)
      rcases r with e | _ | _ <;> exact trivial

/-! ### Every run -/

theorem tiling_init {s : CbStore} (hs : s.cursor = none) (chain : χ) :
    Tiling abi cfg (.init chain s, .empty) where
  stored := hs
  rising := List.Pairwise.nil
  covered cursor hcursor := absurd (hs.symm.trans hcursor) (by simp)
  lagging cursor hcursor := absurd (hs.symm.trans hcursor) (by simp)
  attempted _ _ _ _ h := absurd h (by simp [ChunkLog.empty])
  caughtUp _ _ _ _ _ h := absurd h.symm (by simp [ChunkLog.empty])

theorem chronicled_verified (hcfg : SoundConfig cfg) {s : CbStore} (hs : s.cursor = none)
    (chain : χ) : VerifiedSingle (chronicled abi cfg rpc moves) (.init chain s, .empty)
      (Tiling abi cfg) SameTiles (fun _ _ => True) where
  rely_refl := SameTiles.refl
  rely_trans _ _ _ := SameTiles.trans
  init := tiling_init hs chain
  spawn i p x hspawn _ := by
    obtain rfl : p = _ := hspawn
    exact tiling_runCoinblastWorker hcfg
  post _ _ _ _ _ _ := trivial
  env x x' hI he := by
    obtain ⟨henv, hlog⟩ := he
    have hsame : SameTiles x x' := by
      refine ⟨?_, hlog⟩
      generalize x'.1 = w' at henv
      cases henv with
      | chain h => rfl
      | cancel => rfl
    exact ⟨hI.of_same hsame, hsame⟩
  crash x x' hI hc := by
    refine hI.of_same ⟨?_, hc.2⟩
    rw [show x'.1 = x.1.restart from hc.1]
    rfl

/-- What has been written down of the cursor stays. -/
theorem move_cursors {c c' : Config CbSig Unit (Chronicled χ) (Except CbError Unit)}
    (hm : Move (chronicled abi cfg rpc moves) c c') : c.world.2.cursors <:+ c'.world.2.cursors := by
  cases hm with
  | start i p hidle hs => exact List.suffix_refl _
  | step i hp hs =>
      cases hs with
      | call k hH =>
          rw [hH.2]
          exact List.suffix_append _ _
      | loop _ body s k => exact List.suffix_refl _
  | finish i hp => exact List.suffix_refl _
  | env he => rw [he.2]
  | crash hc => exact hc.2 ▸ List.suffix_refl _

/--
**The chunks tile the chain** in every state of every run: over any tips, failed chunks, lost
writes and crashes.  Each range whose logs are asked for has blocks, no more than the chunk
size, and `logs_in_range` does not refuse it; and whatever happens next, the cursor does not
fall.
-/
theorem chunks_tile (hcfg : SoundConfig cfg) {s : CbStore} (hs : s.cursor = none) {chain : χ}
    {c : Config CbSig Unit (Chronicled χ) (Except CbError Unit)}
    (hc : Reachable (chronicled abi cfg rpc moves) (.init chain s, .empty) c) :
    Tiling abi cfg c.world ∧
    (∀ fromBlock toBlock address logs,
      (⟨.chain (.getLogs fromBlock toBlock address), logs⟩ : CallAnswer CbSig) ∈
        c.world.2.calls →
      0 ≤ fromBlock ∧ fromBlock ≤ toBlock ∧ toBlock - fromBlock + 1 ≤ cfg.chunkSize.toNat ∧
      ∀ address', cbLogsInRange fromBlock toBlock address' =
        (CbCall.chain (.getLogs fromBlock toBlock address')).ask) ∧
    ∀ c', Move (chronicled abi cfg rpc moves) c c' → ∀ cursor ∈ c.world.1.store.cursor,
      ∃ cursor' ∈ c'.world.1.store.cursor, cursor ≤ cursor' := by
  have hverified : VerifiedSingle (chronicled abi cfg rpc moves) (.init chain s, .empty)
      (Tiling abi cfg) SameTiles (fun _ _ => True) := chronicled_verified hcfg hs chain
  have htiling := (hverified.reachable hc).1
  refine ⟨htiling, fun fromBlock toBlock address logs hmem => ?_, fun c' hm cursor hcursor => ?_⟩
  · have hattempted := htiling.attempted _ _ _ _ hmem
    have hpos := coinblastDeployBlock_pos cfg.network
    have hdeployed := hattempted.deployed
    exact ⟨by omega, hattempted.nonempty, hattempted.size,
      fun address' => hattempted.cbLogsInRange address'⟩
  · refine (hverified.reachable (hc.move hm)).1.le_cursor ?_
    refine (move_cursors hm).subset (List.mem_of_mem_head? ?_)
    rw [← htiling.stored]
    exact hcursor

/-! ### Nodes of a fixed chain -/

/-- The single answer to each call, chronicled. -/
def chronicleServe (respond : Server CbChainSig χ) : Server CbSig (Chronicled χ) := fun x c =>
  ((cbServe respond x.1 c).1, ((cbServe respond x.1 c).2,
    x.2.note c (cbServe respond x.1 c).1 (cbServe respond x.1 c).2))

/-- The worker over a chain of a few blocks: its first request for logs fails six times. -/
def brokenOff : Chronicled Outages × Prog CbSig (Except CbError Unit) :=
  advanceN (chronicleServe oneBuy.respond) 34
    ((.init (false :: List.replicate 6 true) .empty, .empty), mainnetWorker)

/-- It crashes before it writes the cursor and starts again. -/
def startedAgain : Chronicled Outages × Prog CbSig (Except CbError Unit) :=
  advanceN (chronicleServe oneBuy.respond) 18
    ((brokenOff.1.1.restart, brokenOff.1.2), mainnetWorker)

/-- The chunk from the deployment to the lagging tip, failed once, run twice and completed. -/
theorem chunks_tile_oneBuy :
    ∃ c, Reachable (chronicled wordAbi mainnetConfig oneBuy.rpc fun _ _ => False)
        (.init (false :: List.replicate 6 true) .empty, .empty) c ∧
      c.world.1.store.cursor = some 1178695 ∧
      c.world.2.calls.countP (fun e => e.1 matches .knownCurveAddresses) = 2 ∧
      c.world.2.calls.countP (fun e => e.1 matches .chain (.getLogs _ _ (some _))) = 8 ∧
      Tiling wordAbi mainnetConfig c.world := by
  have hserve : ∀ x c, chronicleHandle oneBuy.rpc x c (chronicleServe oneBuy.respond x c).1
      (chronicleServe oneBuy.respond x c).2 :=
    fun x c => ⟨cbHandle_cbServe oneBuy.answers x.1 c, rfl⟩
  have hstart : Reachable (chronicled wordAbi mainnetConfig oneBuy.rpc fun _ _ => False)
      (.init (false :: List.replicate 6 true) .empty, .empty) _ :=
    (Reachable.init).move (Move.start () mainnetWorker rfl rfl)
  have hbroken := hstart.steps (i := ()) (by simp) (advanceN_steps hserve 34 _ mainnetWorker)
  have hcrash : Reachable (chronicled wordAbi mainnetConfig oneBuy.rpc fun _ _ => False) _
      (.idle (brokenOff.1.1.restart, brokenOff.1.2)) := hbroken.move (Move.crash ⟨rfl, rfl⟩)
  have hagain := hcrash.move (Move.start () mainnetWorker rfl rfl)
  have hreach := hagain.steps (i := ()) (by simp) (advanceN_steps hserve 18 _ mainnetWorker)
  refine ⟨_, hreach, ?_, ?_, ?_, (chunks_tile ⟨?_, ?_, ?_⟩ rfl hreach).1⟩
  · show startedAgain.1.1.store.cursor = some 1178695
    decide +kernel
  · show startedAgain.1.2.calls.countP _ = 2
    decide +kernel
  · show startedAgain.1.2.calls.countP _ = 8
    decide +kernel
  · decide
  · decide
  · decide

end SentrixIndexer
