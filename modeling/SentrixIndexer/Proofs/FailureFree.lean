/-
The worker without failures, and what its passes leave alone.

Names and symbols are read from the token as best the nodes allow, and nothing depends on them
but whether they can be stored: a transaction does to a store without names what it does to
the store itself.  So two stores that differ in names only stay so.

A pass adds rows above the cursor and moves the cursor up, and nothing else: what is at or
below the cursor stays as it is while the cursor does.
-/
import SentrixIndexer.Coinblast.Reference
import SentrixIndexer.Proofs.ChunkContent

namespace SentrixIndexer

open Relational

variable {abi : Abi} {cfg : WorkerConfig} {n : History} {s s' : CbStore} {l : RpcLog}

/-! ### Names -/

/-- The row without name and symbol. -/
def CbToken.unnamed (r : CbToken) : CbToken := { r with name := "", symbol := "" }

def InsertCbToken.unnamed (t : InsertCbToken) : InsertCbToken := { t with name := "", symbol := "" }

theorem CbToken.curveAddress_unnamed (r : CbToken) : r.unnamed.curveAddress = r.curveAddress := rfl

/-- The store without names. -/
def CbStore.unnamed (s : CbStore) : CbStore :=
  { s with tokens := ⟨s.tokens.rows.map CbToken.unnamed, by
      rw [List.map_map]
      exact s.tokens.nodup⟩ }

@[simp] theorem find?_unnamed (a : Address) :
    s.unnamed.tokens.find? a = (s.tokens.find? a).map CbToken.unnamed := by
  show (s.tokens.rows.map CbToken.unnamed).find? _ = _
  rw [List.find?_map]
  rfl

@[simp] theorem contains_unnamed (a : Address) :
    s.unnamed.tokens.contains a = s.tokens.contains a := by
  unfold Table.contains
  rw [find?_unnamed, Option.isSome_map]

@[simp] theorem trades_unnamed : s.unnamed.trades = s.trades := rfl

@[simp] theorem cursor_unnamed : s.unnamed.cursor = s.cursor := rfl

theorem insertNew_unnamed (r : CbToken) :
    CbStore.unnamed { s with tokens := s.tokens.insertNew r } =
      { s.unnamed with tokens := s.unnamed.tokens.insertNew r.unnamed } := by
  have htokens : (CbStore.unnamed { s with tokens := s.tokens.insertNew r }).tokens =
      s.unnamed.tokens.insertNew r.unnamed := by
    by_cases hstored : s.tokens.contains r.curveAddress = true
    · have hstored' : s.unnamed.tokens.contains r.unnamed.curveAddress = true := by
        rw [contains_unnamed]
        exact hstored
      rw [Table.insertNew_of_contains hstored, Table.insertNew_of_contains hstored']
    · rw [Bool.not_eq_true] at hstored
      have hstored' : s.unnamed.tokens.contains r.unnamed.curveAddress = false := by
        rw [contains_unnamed]
        exact hstored
      refine Table.ext_rows ?_
      rw [Table.rows_insertNew hstored']
      show (s.tokens.insertNew r).rows.map CbToken.unnamed = _
      rw [Table.rows_insertNew hstored, List.map_append]
      rfl
  rw [← htokens]
  rfl

/-- An update that does not look at names. -/
theorem modify_unnamed {a : Address} {f : CbToken → CbToken}
    {hf : ∀ r, (f r).curveAddress = r.curveAddress} (hcomm : ∀ r, (f r).unnamed = f r.unnamed) :
    CbStore.unnamed { s with tokens := s.tokens.modify a f hf } =
      { s.unnamed with tokens := s.unnamed.tokens.modify a f hf } := by
  have htokens : (CbStore.unnamed { s with tokens := s.tokens.modify a f hf }).tokens =
      s.unnamed.tokens.modify a f hf := by
    refine Table.ext_rows ?_
    show (s.tokens.rows.map _).map CbToken.unnamed = (s.tokens.rows.map CbToken.unnamed).map _
    rw [List.map_map, List.map_map]
    refine List.map_congr_left fun r _ => ?_
    by_cases hr : r.curveAddress = a
    · simp [hr, CbToken.curveAddress_unnamed, hcomm]
    · simp [hr, CbToken.curveAddress_unnamed]
  rw [← htokens]
  rfl

/-- What a statement returns and leaves, without names. -/
def unnamedResult {α : Type} : Except CbDbError (α × CbStore) → Except CbDbError (α × CbStore) :=
  Except.map fun x => (x.1, x.2.unnamed)

/-- **An insert whose text can be stored** does not depend on names. -/
theorem insertToken_unnamed {t : InsertCbToken} (hname : ¬ HasNul t.name)
    (hsymbol : ¬ HasNul t.symbol) :
    CbTokens.insert t.unnamed s.unnamed = unnamedResult (CbTokens.insert t s) := by
  have hempty : ¬ (HasNul t.unnamed.name ∨ HasNul t.unnamed.symbol) := by
    show ¬ (HasNul "" ∨ HasNul "")
    decide
  have htaken : (s.unnamed.tokens.rows.any fun r => r.tokenAddress = t.tokenAddress) =
      s.tokens.rows.any fun r => r.tokenAddress = t.tokenAddress := by
    show (s.tokens.rows.map CbToken.unnamed).any _ = _
    rw [List.any_map]
    rfl
  unfold CbTokens.insert
  rw [if_neg hempty, if_neg (not_or.mpr ⟨hname, hsymbol⟩), contains_unnamed,
    show t.unnamed.tokenAddress = t.tokenAddress from rfl, htaken]
  show (if s.tokens.contains t.curveAddress = true then _ else _) = _
  by_cases hstored : s.tokens.contains t.curveAddress = true
  · rw [if_pos hstored, if_pos hstored]
    rfl
  · rw [if_neg hstored, if_neg hstored]
    split
    · rfl
    · show _ = Except.ok ((), CbStore.unnamed _)
      rw [insertNew_unnamed]
      rfl

theorem insertThen_unnamed {t : CbTrade} {update : CbStatement Unit}
    (hupdate : ∀ s, update s.unnamed = unnamedResult (update s)) :
    insertThen t update s.unnamed = unnamedResult (insertThen t update s) := by
  unfold insertThen CbTrades.insert
  rw [trades_unnamed]
  have hinserted : ({ s.unnamed with trades := s.trades.insertNew t } : CbStore) =
      CbStore.unnamed { s with trades := s.trades.insertNew t } := rfl
  rw [hinserted]
  by_cases hstored : s.trades.contains t.key = true
  · simp [hstored, bind, Except.bind, unnamedResult, Except.map, pure, Except.pure]
  · simp only [hstored, bind, Except.bind, hupdate]
    rcases update { s with trades := s.trades.insertNew t } with e | x
    · rfl
    · rfl

/-- **Every other transaction** does not depend on names either. -/
theorem CbTxn.run_unnamed {t : CbTxn} (ht : ∀ row, t ≠ .insertToken row) :
    t.run s.unnamed = unnamedResult (t.run s) := by
  cases t with
  | insertToken row => exact absurd rfl (ht row)
  | writeTrade t srx lastPrice =>
      refine insertThen_unnamed fun s => ?_
      unfold CbTokens.bumpTradeAggregate
      rw [find?_unnamed]
      rcases s.tokens.find? t.curveAddress with _ | r
      · rfl
      · simp only [Option.map_some]
        show (if numericBound ≤ r.totalVolumeSrx + srx.toNat then _ else _) = _
        split
        · rfl
        · show (if i32Max < r.tradeCount + 1 then _ else _) = _
          split
          · rfl
          · exact congrArg (fun s => Except.ok ((), s))
              (modify_unnamed (f := CbTokens.bumped srx lastPrice) fun _ => rfl).symm
  | writeGraduated t =>
      exact insertThen_unnamed fun s =>
        congrArg (fun s => Except.ok ((), s))
          (modify_unnamed (f := fun r => { r with isGraduated := true }) fun _ => rfl).symm
  | setCursor height => rfl

/-- So it goes through over both of two stores that differ in names only, or over neither. -/
theorem run_ok_of_unnamed {t : CbTxn} (ht : ∀ row, t ≠ .insertToken row)
    (h : s.unnamed = s'.unnamed) {a : t.Result} {s₁ : CbStore} (hrun : t.run s = .ok (a, s₁)) :
    ∃ s₂, t.run s' = .ok (a, s₂) ∧ s₁.unnamed = s₂.unnamed := by
  have hsame : unnamedResult (t.run s) = unnamedResult (t.run s') := by
    rw [← CbTxn.run_unnamed ht, ← CbTxn.run_unnamed ht, h]
  rw [hrun] at hsame
  rcases hrun' : t.run s' with e | ⟨a', s₂⟩
  · rw [hrun'] at hsame
    exact absurd hsame (by simp [unnamedResult, Except.map])
  · rw [hrun'] at hsame
    obtain ⟨rfl, hstore⟩ := Prod.mk.inj (Except.ok.inj hsame)
    exact ⟨s₂, rfl, hstore⟩

/-! ### What is at or below a height -/

/-- The curve has a row created in the block. -/
def CbStore.Created (s : CbStore) (curve : Address) (block : Int) : Prop :=
  ∃ r ∈ s.tokens.rows, r.curveAddress = curve ∧ r.createdBlock = block

/-- Up to the height, the stores hold the same trades and the same curves. -/
structure SameUpTo (height : Int) (s s' : CbStore) : Prop where
  trades : ∀ t : CbTrade, t.blockNumber ≤ height → (t ∈ s.trades.rows ↔ t ∈ s'.trades.rows)
  curves : ∀ curve block, block ≤ height → (s.Created curve block ↔ s'.Created curve block)

namespace SameUpTo

variable {height height' : Int} {s₁ s₂ s₃ : CbStore}

theorem refl (height : Int) (s : CbStore) : SameUpTo height s s :=
  ⟨fun _ _ => Iff.rfl, fun _ _ _ => Iff.rfl⟩

theorem symm (h : SameUpTo height s s') : SameUpTo height s' s :=
  ⟨fun t ht => (h.trades t ht).symm, fun a b hb => (h.curves a b hb).symm⟩

theorem trans (h : SameUpTo height s₁ s₂) (h' : SameUpTo height s₂ s₃) : SameUpTo height s₁ s₃ :=
  ⟨fun t ht => (h.trades t ht).trans (h'.trades t ht),
    fun a b hb => (h.curves a b hb).trans (h'.curves a b hb)⟩

theorem mono (h : SameUpTo height s s') (hle : height' ≤ height) : SameUpTo height' s s' :=
  ⟨fun t ht => h.trades t (ht.trans hle), fun a b hb => h.curves a b (hb.trans hle)⟩

theorem of_tables (htokens : s.tokens = s'.tokens) (htrades : s.trades = s'.trades) :
    SameUpTo height s s' := by
  constructor
  · rw [htrades]
    exact fun _ _ => Iff.rfl
  · unfold CbStore.Created
    rw [htokens]
    exact fun _ _ _ => Iff.rfl

end SameUpTo

variable {height : Int}

theorem created_unnamed {curve : Address} {block : Int} :
    s.unnamed.Created curve block ↔ s.Created curve block := by
  constructor
  · rintro ⟨r', hr', hcurve, hblock⟩
    obtain ⟨r, hr, rfl⟩ := List.mem_map.mp hr'
    exact ⟨r, hr, hcurve, hblock⟩
  · rintro ⟨r, hr, hcurve, hblock⟩
    exact ⟨r.unnamed, List.mem_map_of_mem hr, hcurve, hblock⟩

/-- Stores that differ in names only hold the same. -/
theorem SameUpTo.of_unnamed (h : s.unnamed = s'.unnamed) : SameUpTo height s s' := by
  constructor
  · intro t _
    rw [← trades_unnamed (s := s), h, trades_unnamed]
  · intro curve block _
    rw [← created_unnamed (s := s), h, created_unnamed]

/-- The transaction writes above the height. -/
def CbTxn.Above (height : Int) : CbTxn → Prop
  | .insertToken t => height < t.createdBlock
  | .writeTrade t _ _ => height < t.blockNumber
  | .writeGraduated t => height < t.blockNumber
  | .setCursor _ => True

/-- A new trade above the height. -/
theorem sameUpTo_trade {t : CbTrade} (hnew : s.trades.contains t.key = false)
    (ht : height < t.blockNumber) {a : Address} {f : CbToken → CbToken}
    {hf : ∀ r, (f r).curveAddress = r.curveAddress}
    (hblock : ∀ r, (f r).createdBlock = r.createdBlock) :
    SameUpTo height
      { s with trades := s.trades.insertNew t, tokens := s.tokens.modify a f hf } s := by
  constructor
  · intro t' ht'
    simp only [Table.rows_insertNew hnew, List.mem_append, List.mem_singleton]
    refine ⟨fun h => h.elim id fun heq => ?_, Or.inl⟩
    rw [heq] at ht'
    omega
  · intro curve block _
    have hsame : ∀ r : CbToken, (if r.curveAddress = a then f r else r).curveAddress =
        r.curveAddress ∧ (if r.curveAddress = a then f r else r).createdBlock = r.createdBlock := by
      intro r
      by_cases hr : r.curveAddress = a
      · rw [if_pos hr]
        exact ⟨hf r, hblock r⟩
      · rw [if_neg hr]
        exact ⟨rfl, rfl⟩
    constructor
    · rintro ⟨r', hr', hcurve, hcreated⟩
      obtain ⟨r, hr, rfl⟩ := List.mem_map.mp hr'
      exact ⟨r, hr, (hsame r).1.symm.trans hcurve, (hsame r).2.symm.trans hcreated⟩
    · rintro ⟨r, hr, hcurve, hcreated⟩
      exact ⟨_, List.mem_map.mpr ⟨r, hr, rfl⟩, (hsame r).1.trans hcurve,
        (hsame r).2.trans hcreated⟩

/-- **What is written above a height leaves alone what is at or below it.** -/
theorem TxnEffect.sameUpTo {t : CbTxn} (h : TxnEffect s t s') (ht : t.Above height) :
    SameUpTo height s' s := by
  cases h with
  | token t =>
      refine ⟨fun _ _ => Iff.rfl, fun curve block hblock => ?_⟩
      by_cases hstored : s.tokens.contains t.row.curveAddress = true
      · rw [Table.insertNew_of_contains hstored]
      · rw [Bool.not_eq_true] at hstored
        unfold CbStore.Created
        simp only [Table.rows_insertNew hstored, List.mem_append, List.mem_singleton]
        refine ⟨?_, fun ⟨r, hr, h⟩ => ⟨r, Or.inl hr, h⟩⟩
        rintro ⟨r, hr | rfl, hcurve, hcreated⟩
        · exact ⟨r, hr, hcurve, hcreated⟩
        · have hnew : height < t.row.createdBlock := ht
          omega
  | old htrade hstored => exact .refl _ _
  | trade t srx lastPrice hnew => exact sameUpTo_trade hnew ht fun _ => rfl
  | graduated t hnew => exact sameUpTo_trade hnew ht fun _ => rfl
  | cursor height htokens htrades => exact .of_tables htokens htrades

/-! ### The passes of the replica -/

theorem curveCreatedRow_place {row : InsertCbToken} (h : curveCreatedRow abi l = .ok row) :
    ∃ n, l.blockNumber = some n ∧ row.createdBlock = n.toNat := by
  unfold curveCreatedRow at h
  obtain ⟨block, hblock, h⟩ := bind_ok.mp h
  obtain ⟨txHash, -, h⟩ := bind_ok.mp h
  obtain ⟨event, -, h⟩ := bind_ok.mp h
  obtain ⟨n, hn, -, rfl⟩ := requireBlockNumber_ok.mp hblock
  rw [← Except.ok.inj h]
  exact ⟨n, hn, rfl⟩

/-- What is written for a log of the range is written above the height below it. -/
theorem curveTxn_above {t0 : B256} {t : CbTxn} {toBlock : Int}
    (hl : History.InRange (height + 1) toBlock l) (h : curveTxn abi t0 l = .ok t) :
    t.Above height := by
  obtain ⟨m, hm, hfrom, -⟩ := hl
  obtain ⟨kind, fields, row, hrow, ⟨-, rfl⟩ | ⟨-, rfl⟩⟩ := curveTxn_ok h
  all_goals
    obtain ⟨k, i, hk, -, hblock, -⟩ := tradeRow_place hrow
    obtain rfl := Option.some.inj (hm.symm.trans hk)
    show height < row.blockNumber
    omega

/-- The block an emitter is adopted in. -/
theorem adoptedBlock_above {toBlock : Int} (hto : toBlock ≤ i64Max)
    (hl : History.InRange (height + 1) toBlock l) : height < asI64 (l.blockNumber.getD 0) := by
  obtain ⟨m, hm, hfrom, hle⟩ := hl
  have hasI64 : asI64 m = m.toNat := by
    unfold asI64
    rw [BitVec.toInt_eq_toNat_of_lt]
    · rfl
    · have : (m.toNat : Int) < 2 ^ 63 := by
        simp only [i64Max] at hto
        omega
      show 2 * m.toNat < 2 ^ 64
      omega
  rw [hm, Option.getD_some, hasI64]
  omega

/-- Only rows above the height have come, and the cursor has not moved. -/
structure Upward (height : Int) (ρ ρ' : Replica) : Prop where
  same : SameUpTo height ρ'.store ρ.store
  cursor : ρ'.store.cursor = ρ.store.cursor

namespace Upward

variable {ρ ρ₁ ρ₂ : Replica} {toBlock : Int}

theorem refl (height : Int) (ρ : Replica) : Upward height ρ ρ := ⟨.refl _ _, rfl⟩

theorem trans (h : Upward height ρ ρ₁) (h' : Upward height ρ₁ ρ₂) : Upward height ρ ρ₂ :=
  ⟨h'.same.trans h.same, h'.cursor.trans h.cursor⟩

theorem transact {t : CbTxn} (ht : t.Above height) (hcursor : ∀ height, t ≠ .setCursor height) :
    Upward height ρ (ρ.transact t).1 := by
  unfold Replica.transact
  rcases hrun : t.run ρ.store with e | ⟨a, s⟩
  · exact .refl _ _
  · have heffect := CbTxn.run_effect hrun
    exact ⟨heffect.sameUpTo ht, heffect.cursor_eq hcursor⟩

theorem create (hl : History.InRange (height + 1) toBlock l) :
    Upward height ρ (ρ.create abi l).1 := by
  unfold Replica.create
  split
  · rcases hrow : curveCreatedRow abi l with e | row
    · exact .refl _ _
    · obtain ⟨m, hm, hfrom, -⟩ := hl
      obtain ⟨k, hk, hblock⟩ := curveCreatedRow_place hrow
      obtain rfl := Option.some.inj (hm.symm.trans hk)
      have habove : height < row.createdBlock := by omega
      have hup : Upward height ρ (ρ.transact (.insertToken row)).1 :=
        transact (t := .insertToken row) habove (by simp)
      dsimp only
      generalize ρ.transact (.insertToken row) = x at hup ⊢
      obtain ⟨ρ', done⟩ := x
      cases done with
      | true => exact ⟨hup.same, hup.cursor⟩
      | false => exact hup
  · exact .refl _ _

theorem adopt (hto : toBlock ≤ i64Max) (hl : History.InRange (height + 1) toBlock l) :
    Upward height ρ (ρ.adopt abi n l).1 := by
  unfold Replica.adopt
  split
  · exact .refl _ _
  · rename_i row hoffer
    have hblock : row.createdBlock = asI64 (l.blockNumber.getD 0) := by
      obtain ⟨views, -, hrow⟩ := Option.bind_eq_some_iff.mp hoffer
      rw [← Option.some.inj hrow]
    have habove : height < row.createdBlock := hblock ▸ adoptedBlock_above hto hl
    exact transact (t := .insertToken row) habove (by simp)

theorem vet (hto : toBlock ≤ i64Max) (hl : History.InRange (height + 1) toBlock l) :
    Upward height ρ (ρ.vet abi n l).1 := by
  unfold Replica.vet
  by_cases hknown : hexAddr l.address ∈ ρ.knownCurves
  · simp only [hknown, if_true]
    exact .refl _ _
  · by_cases hcached : hexAddr l.address ∈ ρ.knownNonCurves
    · simp only [hknown, hcached, if_true, if_false]
      exact .refl _ _
    · simp only [hknown, hcached, if_false]
      have hup : Upward height ρ (ρ.adopt abi n l).1 := adopt hto hl
      generalize ρ.adopt abi n l = x at hup ⊢
      obtain ⟨ρ', adopted⟩ := x
      cases adopted with
      | true => exact ⟨hup.same, hup.cursor⟩
      | false => exact ⟨hup.same, hup.cursor⟩

theorem take (hto : toBlock ≤ i64Max) (hl : History.InRange (height + 1) toBlock l) :
    Upward height ρ (ρ.take abi n l).1 := by
  unfold Replica.take
  rcases l.topics.head? with _ | t0
  · exact .refl _ _
  · simp only
    split
    · have hup : Upward height ρ (ρ.vet abi n l).1 := vet hto hl
      generalize ρ.vet abi n l = x at hup ⊢
      obtain ⟨ρ', letIn⟩ := x
      cases letIn with
      | false => exact hup
      | true =>
          rcases htxn : curveTxn abi t0 l with e | t
          · exact hup
          · exact hup.trans (transact (curveTxn_above hl htxn) (curveTxn_cursor htxn).2)
    · exact .refl _ _

theorem walk {step : Replica → RpcLog → Replica × Bool} {logs : List RpcLog}
    (hstep : ∀ ρ, ∀ l ∈ logs, Upward height ρ (step ρ l).1) :
    ∀ ρ, Upward height ρ (ρ.walk step logs).1 := by
  induction logs with
  | nil => exact fun ρ => .refl _ _
  | cons l rest ih =>
      intro ρ
      have hup := hstep ρ l (List.mem_cons_self ..)
      unfold Replica.walk
      generalize step ρ l = x at hup ⊢
      obtain ⟨ρ', done⟩ := x
      cases done with
      | true => exact hup.trans (ih (fun ρ l hl => hstep ρ l (List.mem_cons_of_mem _ hl)) ρ')
      | false => exact hup

end Upward

theorem mem_logsIn {fromBlock toBlock : Int} {address : Option EvmAddress}
    (h : l ∈ n.logsIn fromBlock toBlock address) : History.InRange fromBlock toBlock l := by
  have hkeep := (List.mem_filter.mp h).2
  rw [Bool.and_eq_true, decide_eq_true_eq] at hkeep
  exact hkeep.1

variable {ρ : Replica} {factory : EvmAddress} {toBlock : Int}

/-- **A chunk writes above the cursor.** -/
theorem upward_chunk (hto : toBlock ≤ i64Max) :
    Upward height ρ (ρ.chunk abi n factory (height + 1) toBlock).1 := by
  unfold Replica.chunk
  split
  · exact .refl _ _
  · have hup : Upward height ρ
        (ρ.walk (Replica.create abi) (n.logsIn (height + 1) toBlock (some factory))).1 :=
      .walk (fun _ _ hl => .create (mem_logsIn hl)) ρ
    generalize ρ.walk (Replica.create abi) (n.logsIn (height + 1) toBlock (some factory)) = x
      at hup ⊢
    obtain ⟨ρ', done⟩ := x
    cases done with
    | true => exact hup.trans (.walk (fun _ _ hl => .take hto (mem_logsIn hl)) ρ')
    | false => exact hup

theorem chunkEnd_le (cursor target : Int) : chunkEnd cfg cursor target ≤ i64Max := by
  unfold chunkEnd saturatingAdd
  simp only [i64Max, i64Min]
  omega

theorem cursor_transact_setCursor (height : Int) :
    (ρ.transact (.setCursor height)).1.store.cursor = some height := by
  have hrun : (CbTxn.setCursor height).run ρ.store = setCursor height ρ.store := rfl
  unfold Replica.transact
  rw [hrun]
  exact cursor_setCursor rfl

/-- **A pass writes above the cursor and moves it up.** -/
theorem pass_rises (ρ : Replica) :
    ρ.cursor cfg ≤ (ρ.pass abi cfg n).cursor cfg ∧
      SameUpTo (ρ.cursor cfg) (ρ.pass abi cfg n).store ρ.store := by
  unfold Replica.pass
  split
  · exact ⟨le_rfl, .refl _ _⟩
  · have hup : Upward (ρ.cursor cfg) ρ (ρ.chunk abi n (coinblastFactoryAddress cfg.network)
        (ρ.cursor cfg + 1) (ρ.chunkEnd cfg n)).1 := upward_chunk (chunkEnd_le _ _)
    have hrange : (ρ.chunk abi n (coinblastFactoryAddress cfg.network) (ρ.cursor cfg + 1)
        (ρ.chunkEnd cfg n)).2 = true → ρ.cursor cfg + 1 ≤ ρ.chunkEnd cfg n := by
      intro hdone
      refine not_lt.mp fun hlt => ?_
      rw [Replica.chunk, if_pos hlt] at hdone
      exact absurd hdone (by simp)
    generalize ρ.chunk abi n (coinblastFactoryAddress cfg.network) (ρ.cursor cfg + 1)
      (ρ.chunkEnd cfg n) = x at hup hrange ⊢
    obtain ⟨ρ', done⟩ := x
    cases done with
    | false =>
        refine ⟨?_, hup.same⟩
        show _ ≤ ρ'.store.readCursor cfg.network
        rw [CbStore.readCursor, hup.cursor]
        exact le_rfl
    | true =>
        refine ⟨?_, ?_⟩
        · show _ ≤ (ρ'.transact (.setCursor (ρ.chunkEnd cfg n))).1.store.readCursor cfg.network
          rw [CbStore.readCursor, cursor_transact_setCursor, Option.getD_some]
          have hle : ρ.cursor cfg + 1 ≤ ρ.chunkEnd cfg n := hrange rfl
          exact le_trans (by omega) (le_max_left _ _)
        · have hkeep : SameUpTo (ρ.cursor cfg)
              (ρ'.transact (.setCursor (ρ.chunkEnd cfg n))).1.store ρ'.store := .of_tables rfl rfl
          exact hkeep.trans hup.same

/-- **Later passes leave alone what is at or below the cursor.** -/
theorem passes_sameUpTo {i j : Nat} (hij : i ≤ j) :
    (ρ.passes abi cfg n i).cursor cfg ≤ (ρ.passes abi cfg n j).cursor cfg ∧
      SameUpTo ((ρ.passes abi cfg n i).cursor cfg) (ρ.passes abi cfg n j).store
        (ρ.passes abi cfg n i).store := by
  induction hij with
  | refl => exact ⟨le_rfl, .refl _ _⟩
  | @step j _ ih =>
      obtain ⟨hle, hsame⟩ := ih
      have hpass : (ρ.passes abi cfg n j).cursor cfg ≤ (ρ.passes abi cfg n (j + 1)).cursor cfg ∧
          SameUpTo ((ρ.passes abi cfg n j).cursor cfg) (ρ.passes abi cfg n (j + 1)).store
            (ρ.passes abi cfg n j).store := pass_rises _
      obtain ⟨hrise, hkeep⟩ := hpass
      exact ⟨hle.trans hrise, (hkeep.mono hle).trans hsame⟩

/-- A pass whose chunk goes through. -/
theorem pass_of_done {ρ' : Replica} (hwork : ¬ ρ.target cfg n ≤ ρ.cursor cfg)
    (h : ρ.chunk abi n (coinblastFactoryAddress cfg.network) (ρ.cursor cfg + 1)
      (ρ.chunkEnd cfg n) = (ρ', true)) :
    ρ.pass abi cfg n = (ρ'.transact (.setCursor (ρ.chunkEnd cfg n))).1 := by
  rw [Replica.pass, if_neg hwork, h]

/-- A pass whose chunk does not. -/
theorem pass_of_failed {ρ' : Replica} (hwork : ¬ ρ.target cfg n ≤ ρ.cursor cfg)
    (h : ρ.chunk abi n (coinblastFactoryAddress cfg.network) (ρ.cursor cfg + 1)
      (ρ.chunkEnd cfg n) = (ρ', false)) : ρ.pass abi cfg n = ρ' := by
  rw [Replica.pass, if_neg hwork, h]

/-! ### A pass that is broken off -/

/-- There is nothing left for pass 1 to do about the log. -/
def Replica.InPlace (abi : Abi) (ρ : Replica) (l : RpcLog) : Prop :=
  l.topics.head? = some abi.curveCreatedHash → ∃ row, curveCreatedRow abi l = .ok row ∧
    ¬ (HasNul row.name ∨ HasNul row.symbol) ∧ ρ.store.tokens.contains row.curveAddress = true ∧
    hexAddr l.address ∈ ρ.knownCurves

theorem Replica.InPlace.create (h : ρ.InPlace abi l) : ρ.create abi l = (ρ, true) := by
  unfold Replica.create
  by_cases htopic : l.topics.head? = some abi.curveCreatedHash
  · obtain ⟨row, hrow, hgood, hstored, hknown⟩ := h htopic
    have hrun : (CbTxn.insertToken row).run ρ.store = .ok ((), ρ.store) := by
      show CbTokens.insert row ρ.store = _
      rw [CbTokens.insert, if_neg hgood, if_pos hstored]
    have htransact : ρ.transact (.insertToken row) = (ρ, true) := by
      rw [Replica.transact, hrun]
    rw [if_pos htopic, hrow]
    simp only [htransact, Replica.insertKnown, insertAddress, if_pos hknown]
  · rw [if_neg htopic]

/-- One log of pass 1 that goes through. -/
theorem inPlace_of_create {ρ₁ : Replica} (h : ρ.create abi l = (ρ₁, true)) :
    ρ₁.InPlace abi l ∧ ∀ l', ρ.InPlace abi l' → ρ₁.InPlace abi l' := by
  unfold Replica.create at h
  by_cases htopic : l.topics.head? = some abi.curveCreatedHash
  · rw [if_pos htopic] at h
    rcases hrow : curveCreatedRow abi l with e | row
    · rw [hrow] at h
      exact absurd (Prod.mk.inj h).2 (by simp)
    · rw [hrow] at h
      rcases hrun : (CbTxn.insertToken row).run ρ.store with e | ⟨u, s⟩
      · simp only [Replica.transact, hrun] at h
        exact absurd (Prod.mk.inj h).2 (by simp)
      · simp only [Replica.transact, hrun] at h
        obtain rfl := (Prod.mk.inj h).1
        have hs : s = { ρ.store with tokens := ρ.store.tokens.insertNew row.row } :=
          insertToken_ok hrun
        have hgood : ¬ (HasNul row.name ∨ HasNul row.symbol) := by
          intro hbad
          have hrun' : CbTokens.insert row ρ.store = .ok (u, s) := hrun
          rw [CbTokens.insert, if_pos hbad] at hrun'
          exact absurd hrun' (by simp)
        constructor
        · refine fun _ => ⟨row, hrow, hgood, ?_, mem_insertAddress.mpr (Or.inr rfl)⟩
          rw [Replica.insertKnown, hs, Table.contains_insertNew]
          simp [InsertCbToken.row]
        · intro l' hl' htopic'
          obtain ⟨row', hrow', hgood', hstored', hknown'⟩ := hl' htopic'
          refine ⟨row', hrow', hgood', ?_, mem_insertAddress.mpr (Or.inl hknown')⟩
          exact (CbTxn.run_effect hrun).contains hstored'
  · rw [if_neg htopic] at h
    obtain rfl := (Prod.mk.inj h).1
    exact ⟨fun htopic' => absurd htopic' htopic, fun _ h => h⟩

theorem inPlace_of_walk {logs : List RpcLog} :
    ∀ {ρ ρ₁ : Replica}, ρ.walk (Replica.create abi) logs = (ρ₁, true) →
      (∀ l ∈ logs, ρ₁.InPlace abi l) ∧ ∀ l, ρ.InPlace abi l → ρ₁.InPlace abi l := by
  induction logs with
  | nil =>
      intro ρ ρ₁ h
      obtain rfl := (Prod.mk.inj h).1
      exact ⟨by simp, fun _ h => h⟩
  | cons l rest ih =>
      intro ρ ρ₁ h
      unfold Replica.walk at h
      rcases hcreate : ρ.create abi l with ⟨ρ', done⟩
      rw [hcreate] at h
      cases done with
      | false => exact absurd (Prod.mk.inj h).2 (by simp)
      | true =>
          obtain ⟨hl, hkeep⟩ := inPlace_of_create hcreate
          obtain ⟨hrest, hkeep'⟩ := ih h
          exact ⟨List.forall_mem_cons.mpr ⟨hkeep' l hl, hrest⟩, fun l h => hkeep' l (hkeep l h)⟩

theorem walk_inPlace {logs : List RpcLog} (h : ∀ l ∈ logs, ρ.InPlace abi l) :
    ρ.walk (Replica.create abi) logs = (ρ, true) := by
  induction logs with
  | nil => rfl
  | cons l rest ih =>
      obtain ⟨hl, hrest⟩ := List.forall_mem_cons.mp h
      rw [Replica.walk, hl.create]
      exact ih hrest

/-- The replica stands where a pass over `ρ` was broken off: it is resumed as if from `ρ`. -/
structure Resumes (abi : Abi) (cfg : WorkerConfig) (n : History) (ρ ρ' : Replica) : Prop where
  pass_eq : ρ'.pass abi cfg n = ρ.pass abi cfg n
  upward : Upward (ρ.cursor cfg) ρ ρ'

namespace Resumes

variable {ρ' ρ'' : Replica}

theorem refl (ρ : Replica) : Resumes abi cfg n ρ ρ := ⟨rfl, .refl _ _⟩

theorem cursor_eq (h : Resumes abi cfg n ρ ρ') : ρ'.cursor cfg = ρ.cursor cfg := by
  show ρ'.store.readCursor cfg.network = ρ.store.readCursor cfg.network
  rw [CbStore.readCursor, h.upward.cursor]
  rfl

theorem trans (h : Resumes abi cfg n ρ ρ') (h' : Resumes abi cfg n ρ' ρ'') :
    Resumes abi cfg n ρ ρ'' := by
  refine ⟨h'.pass_eq.trans h.pass_eq, h.upward.trans ?_⟩
  rw [← h.cursor_eq]
  exact h'.upward

/-- **After pass 1** the pass is resumed as from its beginning: pass 1 has nothing left to do. -/
theorem of_passOne (hwork : ¬ ρ.target cfg n ≤ ρ.cursor cfg)
    (hrange : ¬ ρ.chunkEnd cfg n < ρ.cursor cfg + 1)
    (h : ρ.walk (Replica.create abi) (n.logsIn (ρ.cursor cfg + 1) (ρ.chunkEnd cfg n)
      (some (coinblastFactoryAddress cfg.network))) = (ρ', true)) :
    Resumes abi cfg n ρ ρ' := by
  have hup : Upward (ρ.cursor cfg) ρ ρ' := by
    have hwalk : Upward (ρ.cursor cfg) ρ (ρ.walk (Replica.create abi) (n.logsIn
        (ρ.cursor cfg + 1) (ρ.chunkEnd cfg n) (some (coinblastFactoryAddress cfg.network)))).1 :=
      .walk (fun _ _ hl => .create (mem_logsIn hl)) ρ
    rw [h] at hwalk
    exact hwalk
  have hcursor : ρ'.cursor cfg = ρ.cursor cfg := by
    show ρ'.store.readCursor cfg.network = ρ.store.readCursor cfg.network
    rw [CbStore.readCursor, hup.cursor]
    rfl
  have htarget : ρ'.target cfg n = ρ.target cfg n := by
    rw [Replica.target, hup.cursor]
    rfl
  have hend : ρ'.chunkEnd cfg n = ρ.chunkEnd cfg n := by
    rw [Replica.chunkEnd, hcursor, htarget]
    rfl
  have hagain := walk_inPlace (inPlace_of_walk h).1
  refine ⟨?_, hup⟩
  unfold Replica.pass Replica.chunk
  rw [htarget, hcursor, hend, if_neg hwork, if_neg hwork, if_neg hrange, if_neg hrange, h, hagain]

end Resumes

end SentrixIndexer
