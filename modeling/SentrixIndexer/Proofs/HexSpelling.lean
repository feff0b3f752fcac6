/-
How the spelling of a block response reaches the rows.

The converter adds a missing `0x` and leaves every digit as the node spelled it, while
the bytes of logs and of remote headers are always written in lowercase and the API
lowercases what it is asked for.  So everything that compares the two agrees exactly
when the node spells in lowercase.
-/
import SentrixIndexer.Api.Lookups
import SentrixIndexer.Proofs.AskedFor
import SentrixIndexer.Sync.Reorg

namespace SentrixIndexer

open Effect

/-! ### Spellings of one text -/

/-- The digits of a text, without a prefix of either case. -/
def hexBody : List Char → List Char
  | '0' :: 'x' :: rest => rest
  | '0' :: 'X' :: rest => rest
  | cs => cs

/-- Hexadecimal digits, after a prefix or without. -/
def HexText (s : String) : Prop := ∀ c ∈ hexBody s.toList, (hexValue c).isSome = true

instance (s : String) : Decidable (HexText s) := List.decidableBAll _ _

/-- The texts differ in the case of hexadecimal digits and in their prefix only. -/
def Respelled (s s' : String) : Prop :=
  s = s' ∨ HexText s ∧ HexText s' ∧
    (hexBody s.toList).map Char.toLower = (hexBody s'.toList).map Char.toLower

/-- Nothing in the text changes when it is lowercased. -/
def Lowercase (s : String) : Prop := toLowercase s = s

/-- Lowercase, behind a `0x`. -/
def Canonical (s : String) : Prop := Lowercase s ∧ ∃ rest, s.toList = '0' :: 'x' :: rest

theorem lowercase_iff {s : String} : Lowercase s ↔ s.toList.map Char.toLower = s.toList := by
  unfold Lowercase toLowercase
  rw [← String.toList_inj, String.toList_map]

instance (s : String) : Decidable (Lowercase s) := decidable_of_iff' _ lowercase_iff

theorem canonical_hex0x (bytes : List UInt8) : Canonical (hex0x bytes) :=
  ⟨toLower_hex0x bytes, _, toList_hex0x bytes⟩

/-- What `with_0x` makes of a lowercase text. -/
theorem toList_with0x {s : String} (h : Lowercase s) :
    (with0x s).toList = '0' :: 'x' :: hexBody s.toList := by
  rw [lowercase_iff] at h
  unfold with0x hexBody
  split
  · next rest hs => simp only [hs]
  · next rest hs =>
      rw [hs] at h
      exact absurd (List.cons.inj (List.cons.inj h).2).1 (by decide)
  · simp

/-- **`with_0x` writes a canonical text** exactly when it is given a lowercase one. -/
theorem canonical_with0x {s : String} : Canonical (with0x s) ↔ Lowercase s := by
  constructor
  · rintro ⟨hlow, rest, hrest⟩
    unfold with0x at hlow hrest
    split at hlow
    · exact hlow
    · exact hlow
    · rw [lowercase_iff, String.toList_append, List.map_append] at hlow
      exact lowercase_iff.mpr (List.append_inj_right hlow rfl)
  · intro h
    refine ⟨?_, _, toList_with0x h⟩
    rw [lowercase_iff, toList_with0x h]
    rw [lowercase_iff] at h
    have hbody : (hexBody s.toList).map Char.toLower = hexBody s.toList := by
      unfold hexBody
      split
      · next rest hs =>
          rw [hs] at h
          exact (List.cons.inj (List.cons.inj h).2).2
      · next rest hs =>
          rw [hs] at h
          exact (List.cons.inj (List.cons.inj h).2).2
      · exact h
    rw [List.map_cons, List.map_cons, hbody]
    rfl

/-- Two lowercase spellings of one text are stored alike. -/
theorem with0x_respelled {s s' : String} (h : Respelled s s') (hs : Lowercase s)
    (hs' : Lowercase s') : with0x s = with0x s' := by
  rcases h with rfl | ⟨-, -, hbody⟩
  · rfl
  · have hcanon := (canonical_with0x.mpr hs).1
    have hcanon' := (canonical_with0x.mpr hs').1
    rw [lowercase_iff, toList_with0x hs] at hcanon
    rw [lowercase_iff, toList_with0x hs'] at hcanon'
    have h₁ := (List.cons.inj (List.cons.inj hcanon).2).2
    have h₂ := (List.cons.inj (List.cons.inj hcanon').2).2
    rw [← String.toList_inj, toList_with0x hs, toList_with0x hs', ← h₁, ← h₂, hbody]

/-! ### Spellings of one response -/

/-- The transactions differ in spelling only. -/
structure TxRespelled (t t' : NativeBlockTx) : Prop where
  txid : Respelled t.txid t'.txid
  fromAddress : Respelled t.fromAddress t'.fromAddress
  toAddress : Option.Rel Respelled t.toAddress t'.toAddress
  rest : t' = { t with txid := t'.txid, fromAddress := t'.fromAddress, toAddress := t'.toAddress }

/-- The responses differ in spelling only. -/
structure BlockRespelled (B B' : NativeBlockResponse) : Prop where
  hash : Respelled B.hash B'.hash
  previousHash : Respelled B.previousHash B'.previousHash
  validator : Respelled B.validator B'.validator
  transactions : List.Forall₂ TxRespelled B.transactions B'.transactions
  rest : B' = { B with
    hash := B'.hash
    previousHash := B'.previousHash
    validator := B'.validator
    transactions := B'.transactions }

/-- The hexadecimal fields of the transaction are in lowercase. -/
structure LowercaseTx (t : NativeBlockTx) : Prop where
  txid : Lowercase t.txid
  fromAddress : t.fromAddress = coinbaseSender ∨ Lowercase t.fromAddress
  toAddress : ∀ a ∈ t.toAddress, Lowercase a

/-- The hexadecimal fields of the response are in lowercase. -/
structure LowercaseBlock (B : NativeBlockResponse) : Prop where
  hash : Lowercase B.hash
  previousHash : Lowercase B.previousHash
  validator : Lowercase B.validator
  transactions : ∀ t ∈ B.transactions, LowercaseTx t

/-- The word for a coinbase sender is no hexadecimal text, so it has one spelling. -/
theorem coinbaseSender_respelled {s s' : String} (h : Respelled s s') :
    s = coinbaseSender ↔ s' = coinbaseSender := by
  have hnot : ¬ HexText coinbaseSender := by decide
  rcases h with rfl | ⟨hs, hs', -⟩
  · exact Iff.rfl
  · refine ⟨fun heq => ?_, fun heq => ?_⟩
    · exact absurd (heq ▸ hs) hnot
    · exact absurd (heq ▸ hs') hnot

/-- The sender a transaction is stored with. -/
theorem sender_respelled {s s' : String} (h : Respelled s s')
    (hs : s = coinbaseSender ∨ Lowercase s) (hs' : s' = coinbaseSender ∨ Lowercase s') :
    (if s = coinbaseSender then zeroAddress else with0x s) =
      if s' = coinbaseSender then zeroAddress else with0x s' := by
  have hiff := coinbaseSender_respelled h
  by_cases hc : s = coinbaseSender
  · rw [if_pos hc, if_pos (hiff.mp hc)]
  · rw [if_neg hc, if_neg (mt hiff.mpr hc)]
    exact with0x_respelled h (hs.resolve_left hc) (hs'.resolve_left (mt hiff.mpr hc))

theorem convertNativeTx_respelled {t t' : NativeBlockTx} (h : TxRespelled t t')
    (ht : LowercaseTx t) (ht' : LowercaseTx t') (height : Int) (idx : Nat) :
    convertNativeTx height idx t = convertNativeTx height idx t' := by
  have hhash := with0x_respelled h.txid ht.txid ht'.txid
  have hfrom := sender_respelled h.fromAddress ht.fromAddress ht'.fromAddress
  have hcoinbase := coinbaseSender_respelled h.fromAddress
  have hto : t.toAddress.map with0x = t'.toAddress.map with0x := by
    have hrel := h.toAddress
    have hlow := ht.toAddress
    have hlow' := ht'.toAddress
    cases ha : t.toAddress with
    | none =>
        rw [ha] at hrel
        cases ha' : t'.toAddress with
        | none => rfl
        | some a' => rw [ha'] at hrel; cases hrel
    | some a =>
        rw [ha] at hrel
        cases ha' : t'.toAddress with
        | none => rw [ha'] at hrel; cases hrel
        | some a' =>
            rw [ha'] at hrel
            cases hrel with
            | some hrel => exact congrArg some (with0x_respelled hrel (hlow a ha) (hlow' a' ha'))
  have hrest := h.rest
  rw [NativeBlockTx.mk.injEq] at hrest
  obtain ⟨-, -, -, hamount, hfee, hnonce, hchain, hdata⟩ := hrest
  simp only [hcoinbase] at hfrom
  unfold convertNativeTx
  simp only [hamount, hfee, hnonce, hchain, hdata, hhash, hto, hcoinbase, hfrom]

theorem convertNativeTxs_respelled {height : Int} {ts ts' : List NativeBlockTx}
    (h : List.Forall₂ TxRespelled ts ts') :
    ∀ {idx : Nat}, (∀ t ∈ ts, LowercaseTx t) → (∀ t ∈ ts', LowercaseTx t) →
      convertNativeTxs height idx ts = convertNativeTxs height idx ts' := by
  induction h with
  | nil => intro idx _ _; rfl
  | cons hone _ ih =>
      intro idx hlow hlow'
      rw [List.forall_mem_cons] at hlow hlow'
      unfold convertNativeTxs
      rw [convertNativeTx_respelled hone hlow.1 hlow'.1, ih hlow.2 hlow'.2]

/-- **Two lowercase spellings of one response make one bundle.** -/
theorem assemble_respelled {B B' : NativeBlockResponse} (h : BlockRespelled B B')
    (hB : LowercaseBlock B) (hB' : LowercaseBlock B') (logs : List RpcLog) :
    assemble B logs = assemble B' logs := by
  have hrest := h.rest
  rw [NativeBlockResponse.mk.injEq] at hrest
  obtain ⟨hindex, -, -, htimestamp, -, hround, hroot, -⟩ := hrest
  have hblock : toDomainBlockFromNative B = toDomainBlockFromNative B' := by
    have hhash := with0x_respelled h.hash hB.hash hB'.hash
    have hparent := with0x_respelled h.previousHash hB.previousHash hB'.previousHash
    have hvalidator := with0x_respelled h.validator hB.validator hB'.validator
    have hlen := h.transactions.length_eq
    unfold toDomainBlockFromNative
    simp only [hindex, htimestamp, hround, hroot, hhash, hparent, hvalidator, hlen]
  have htxs : toDomainTxsFromNative B = toDomainTxsFromNative B' := by
    unfold toDomainTxsFromNative
    rw [hindex]
    exact convertNativeTxs_respelled h.transactions hB.transactions hB'.transactions
  unfold assemble
  rw [hblock, htxs]

theorem TxRespelled.nonce {t t' : NativeBlockTx} (h : TxRespelled t t') : t'.nonce = t.nonce := by
  rw [h.rest]

theorem nonces_respelled {ts ts' : List NativeBlockTx} (h : List.Forall₂ TxRespelled ts ts') :
    (∀ t ∈ ts, (t.nonce.toNat : Int) ≤ i64Max) ↔
      ∀ t ∈ ts', (t.nonce.toNat : Int) ≤ i64Max := by
  induction h with
  | nil => simp
  | cons hone _ ih =>
      rw [List.forall_mem_cons, List.forall_mem_cons, hone.nonce]
      exact and_congr_right fun _ => ih

/-- Whether a response converts does not depend on its spelling. -/
theorem convertible_respelled {B B' : NativeBlockResponse} (h : BlockRespelled B B')
    {logs : List RpcLog} : Convertible B logs ↔ Convertible B' logs := by
  have hindex : B'.index = B.index := by rw [h.rest]
  have hlen := h.transactions.length_eq
  have hnonce := nonces_respelled h.transactions
  constructor
  · exact fun hc => ⟨hindex ▸ hc.index_nonneg, hlen ▸ hc.count_le, hnonce.mp hc.nonce_le,
      hc.positioned⟩
  · exact fun hc => ⟨hindex ▸ hc.index_nonneg, hlen ▸ hc.count_le, hnonce.mpr hc.nonce_le,
      hc.positioned⟩

/-! ### Rows in lowercase -/

structure CanonicalTx (t : Transaction) : Prop where
  hash : Canonical t.hash
  fromAddr : Canonical t.fromAddr
  toAddr : ∀ a ∈ t.toAddr, Canonical a

structure CanonicalTransfer (t : TokenTransfer) : Prop where
  txHash : Canonical t.txHash
  contract : Canonical t.contract
  fromAddr : Canonical t.fromAddr
  toAddr : Canonical t.toAddr

/-- Every hash and address of the bundle is canonical. -/
structure CanonicalBundle (b : BlockBundle) : Prop where
  hash : Canonical b.block.hash
  parentHash : Canonical b.block.parentHash
  validator : Canonical b.block.validator
  txs : ∀ t ∈ b.txs, CanonicalTx t
  logs : ∀ l ∈ b.logs, Canonical l.txHash ∧ Canonical l.address
  transfers : ∀ t ∈ b.tokenTransfers, CanonicalTransfer t

theorem canonical_zeroAddress : Canonical zeroAddress :=
  ⟨by decide, _, rfl⟩

theorem canonicalTx_iff {height : Int} {idx : Nat} {t : NativeBlockTx} {tx : Transaction}
    (h : convertNativeTx height idx t = .ok tx) : CanonicalTx tx ↔ LowercaseTx t := by
  obtain ⟨-, -, hhash, hto, hfrom⟩ := convertNativeTx_ok h
  have hsender : Canonical tx.fromAddr ↔
      t.fromAddress = coinbaseSender ∨ Lowercase t.fromAddress := by
    rw [hfrom]
    by_cases hc : t.fromAddress = coinbaseSender
    · simp [hc, canonical_zeroAddress]
    · simp [hc, canonical_with0x]
  have hreceiver : (∀ a ∈ tx.toAddr, Canonical a) ↔ ∀ a ∈ t.toAddress, Lowercase a := by
    rw [hto]
    cases t.toAddress with
    | none => simp
    | some a => simp [canonical_with0x]
  constructor
  · exact fun hc => ⟨canonical_with0x.mp (hhash ▸ hc.hash), hsender.mp hc.fromAddr,
      hreceiver.mp hc.toAddr⟩
  · exact fun hl => ⟨hhash ▸ canonical_with0x.mpr hl.txid, hsender.mpr hl.fromAddress,
      hreceiver.mpr hl.toAddress⟩

theorem canonicalTxs_iff {height : Int} {ts : List NativeBlockTx} :
    ∀ {idx : Nat} {txs : List Transaction}, convertNativeTxs height idx ts = .ok txs →
      ((∀ t ∈ txs, CanonicalTx t) ↔ ∀ t ∈ ts, LowercaseTx t) := by
  induction ts with
  | nil =>
      intro idx txs h
      obtain rfl := Except.ok.inj h
      simp
  | cons t rest ih =>
      intro idx txs h
      unfold convertNativeTxs at h
      obtain ⟨tx, htx, h⟩ := bind_ok.mp h
      obtain ⟨txs', htxs, h⟩ := bind_ok.mp h
      obtain rfl := Except.ok.inj h
      rw [List.forall_mem_cons, List.forall_mem_cons, canonicalTx_iff htx, ih htxs]

/-- What is read off the bytes of a log is canonical. -/
theorem canonical_of_log {rpc : RpcLog} {row : Log} (h : toDomainLog rpc = .ok row) :
    Canonical row.txHash ∧ Canonical row.address := by
  have hrow := converts_of_ok h
  refine ⟨?_, hrow.address ▸ canonical_hex0x _⟩
  cases ht : rpc.transactionHash with
  | none => exact absurd hrow.txHash (by simp [ht])
  | some t =>
      have htx := hrow.txHash
      rw [ht] at htx
      exact (Option.some.inj htx) ▸ canonical_hex0x _

theorem canonical_of_transfer {rpc : RpcLog} {row : Log} (h : toDomainLog rpc = .ok row)
    {t : TokenTransfer} (ht : decodeTransfer row = some t) : CanonicalTransfer t := by
  obtain ⟨htx, haddr⟩ := canonical_of_log h
  rw [decodeTransfer_eq h] at ht
  unfold readTransfer at ht
  by_cases h0 : rpc.topics[0]? = some transferSelector
  · simp only [h0, ne_eq, not_true_eq_false, if_false] at ht
    obtain ⟨src, -, ht⟩ := Option.bind_eq_some_iff.mp ht
    obtain ⟨dst, -, ht⟩ := Option.bind_eq_some_iff.mp ht
    obtain ⟨payload, -, ht⟩ := Option.bind_eq_some_iff.mp ht
    obtain rfl := Option.some.inj ht
    exact ⟨htx, haddr, canonical_hex0x _, canonical_hex0x _⟩
  · simp [h0] at ht

/-- **The rows of a bundle are canonical** exactly when the response is in lowercase. -/
theorem canonicalBundle_iff {B : NativeBlockResponse} {logs : List RpcLog} {b : BlockBundle}
    (h : assemble B logs = .ok b) : CanonicalBundle b ↔ LowercaseBlock B := by
  obtain ⟨hwf, -, hfrom⟩ := assemble_ok h
  have hlogs : ∀ l ∈ b.logs, Canonical l.txHash ∧ Canonical l.address := by
    intro l hl
    obtain ⟨rpc, -, hrow⟩ := hfrom l hl
    exact canonical_of_log hrow
  have htransfers : ∀ t ∈ b.tokenTransfers, CanonicalTransfer t := by
    intro t ht
    obtain ⟨l, hl, hdec⟩ := hwf.transfer ht
    obtain ⟨rpc, -, hrow⟩ := hfrom l hl
    exact canonical_of_transfer hrow hdec
  unfold assemble at h
  obtain ⟨domBlock, hblock, h⟩ := bind_ok.mp h
  obtain ⟨domTxs, htxs, h⟩ := bind_ok.mp h
  obtain ⟨domLogs, -, h⟩ := bind_ok.mp h
  obtain rfl := Except.ok.inj h
  have hfields : domBlock.hash = with0x B.hash ∧ domBlock.parentHash = with0x B.previousHash ∧
      domBlock.validator = with0x B.validator := by
    have hconv := orInvalid_ok hblock
    unfold toDomainBlockFromNative at hconv
    by_cases hneg : B.index < 0
    · simp [hneg, bind, Except.bind] at hconv
    · by_cases hcount : i32Max < (B.transactions.length : Int)
      · simp [hneg, hcount, bind, Except.bind] at hconv
      · simp only [hneg, hcount, if_false] at hconv
        obtain rfl := Except.ok.inj hconv
        exact ⟨rfl, rfl, rfl⟩
  obtain ⟨hhash, hparent, hvalidator⟩ := hfields
  have hall := canonicalTxs_iff (orInvalid_ok htxs)
  constructor
  · exact fun hc => ⟨canonical_with0x.mp (hhash ▸ hc.hash),
      canonical_with0x.mp (hparent ▸ hc.parentHash),
      canonical_with0x.mp (hvalidator ▸ hc.validator), hall.mp hc.txs⟩
  · exact fun hl => ⟨hhash ▸ canonical_with0x.mpr hl.hash,
      hparent ▸ canonical_with0x.mpr hl.previousHash,
      hvalidator ▸ canonical_with0x.mpr hl.validator, hall.mpr hl.transactions, hlogs, htransfers⟩

/-! ### What reads the rows -/

/-- Every reader that lowercases finds the rows of the bundle, and the reorg check knows the
hash of its block. -/
structure Readable (b : BlockBundle) : Prop where
  tx : ∀ t ∈ b.txs, ∀ (s : Store) (q : String), t ∈ s.transactions.rows →
    toLowercase q = toLowercase t.hash → ∃ logs timestamp, txDetail s q = some (t, logs, timestamp)
  logs : ∀ l ∈ b.logs, ∀ (s : Store) (q : String), l ∈ s.logs.rows →
    toLowercase q = toLowercase l.txHash → ∀ t logs timestamp,
      txDetail s q = some (t, logs, timestamp) → l ∈ logs
  address : ∀ t ∈ b.txs, ∀ (s : Store) (q : String), t ∈ s.transactions.rows →
    toLowercase q = toLowercase t.fromAddr ∨ (∃ a ∈ t.toAddr, toLowercase q = toLowercase a) →
      t ∈ addressTxs s q ∧ t ∈ txlist s q
  transfers : ∀ t ∈ b.tokenTransfers, ∀ (s : Store) (q : String), t ∈ s.tokenTransfers.rows →
    toLowercase q = toLowercase t.fromAddr ∨ toLowercase q = toLowercase t.toAddr →
      t ∈ addressTransfers s q none
  reorg : ∀ r : RpcBlock, r.hashText = toLowercase b.block.hash → r.hashText = b.block.hash

theorem CanonicalBundle.readable {b : BlockBundle} (h : CanonicalBundle b) : Readable b where
  tx := by
    intro t ht s q hmem hq
    rw [(h.txs t ht).hash.1] at hq
    have hfind : Transactions.getByHash s (toLowercase q) = some t := by
      rw [hq]
      exact Relational.Table.mem_rows.mp hmem
    unfold txDetail
    dsimp only
    rw [hfind]
    exact ⟨_, _, rfl⟩
  logs := by
    intro l hl s q hmem hq t logs timestamp hdetail
    rw [(h.logs l hl).1.1] at hq
    unfold txDetail at hdetail
    obtain ⟨tx, -, hdetail⟩ := Option.bind_eq_some_iff.mp hdetail
    simp only [Option.pure_def, Option.some.injEq, Prod.mk.injEq] at hdetail
    rw [← hdetail.2.1]
    exact List.mem_filter.mpr ⟨hmem, by simp [hq]⟩
  address := by
    intro t ht s q hmem hq
    have hsel : t ∈ Transactions.ofAddress s (toLowercase q) := by
      refine List.mem_filter.mpr ⟨hmem, ?_⟩
      rcases hq with hq | ⟨a, ha, hq⟩
      · rw [(h.txs t ht).fromAddr.1] at hq
        simp [hq]
      · rw [((h.txs t ht).toAddr a ha).1] at hq
        rw [Option.mem_def] at ha
        simp [hq, ha]
    exact ⟨hsel, hsel⟩
  transfers := by
    intro t ht s q hmem hq
    refine List.mem_filter.mpr ⟨hmem, ?_⟩
    rcases hq with hq | hq
    · rw [(h.transfers t ht).fromAddr.1] at hq
      simp [hq]
    · rw [(h.transfers t ht).toAddr.1] at hq
      simp [hq]
  reorg := fun _ hr => hr.trans h.hash.1

/-! ### Spelling and fetching -/

/-- Fetching the height may come to this. -/
def FetchesTo (h : Int) (B : NativeBlockResponse) (logs : List RpcLog)
    (r : Except SyncError (Option BlockBundle)) : Prop :=
  ∃ i w w', Run (undisturbed (answering B logs).rpc i) w (fetchOne h).run.toProg w' r

/-- Both spellings are fetched as the same bundle, which is in lowercase and found by every
reader. -/
structure SpellingInvariant (h : Int) (B B' : NativeBlockResponse) (logs : List RpcLog) :
    Prop where
  same : ∀ r r', FetchesTo h B logs r → FetchesTo h B' logs r' →
    r = r' ∨ (∃ e, r = .error e) ∧ ∃ e, r' = .error e
  canonical : ∀ b, FetchesTo h B logs (.ok (some b)) ∨ FetchesTo h B' logs (.ok (some b)) →
    CanonicalBundle b
  readable : ∀ b, FetchesTo h B logs (.ok (some b)) ∨ FetchesTo h B' logs (.ok (some b)) →
    Readable b

theorem fetchesTo_iff {h : Int} {B : NativeBlockResponse} {logs : List RpcLog} {b : BlockBundle} :
    FetchesTo h B logs (.ok (some b)) ↔ ¬ Rejected h B logs ∧ assemble B logs = .ok b := by
  constructor
  · rintro ⟨i, w, w', hrun⟩
    obtain ⟨-, ho⟩ := wpAlone_run hrun (reading_fetchOne h w).alone
    rcases answering_outcome h B logs with ⟨-, e, he⟩ | ⟨hrej, b', hb, ho'⟩
    · rw [he] at ho
      exact absurd ho (by simp)
    · rw [ho'] at ho
      obtain rfl := Option.some.inj (Except.ok.inj ho)
      exact ⟨hrej, hb⟩
  · rintro ⟨hrej, hb⟩
    simp only [Rejected, not_or] at hrej
    obtain ⟨w', hrun⟩ := run_fetchOne (i := 0) hb (not_lt.mp hrej.1) (World.init [])
    exact ⟨0, _, w', hrun⟩

theorem fetchesTo_cases {h : Int} {B : NativeBlockResponse} {logs : List RpcLog}
    {r : Except SyncError (Option BlockBundle)} (hr : FetchesTo h B logs r) :
    (Rejected h B logs ∧ ∃ e, r = .error e) ∨
      ¬ Rejected h B logs ∧ ∃ b, assemble B logs = .ok b ∧ r = .ok (some b) := by
  obtain ⟨i, w, w', hrun⟩ := hr
  obtain ⟨-, rfl⟩ := wpAlone_run hrun (reading_fetchOne h w).alone
  exact answering_outcome h B logs

theorem lowercase_of_invariant {h : Int} {B B' : NativeBlockResponse} {logs : List RpcLog}
    (hinv : SpellingInvariant h B B' logs) (hrej : ¬ Rejected h B logs) : LowercaseBlock B := by
  have hconv : Convertible B logs := not_not.mp fun hn => hrej (.inr hn)
  obtain ⟨b, hb⟩ := assemble_isOk.mpr hconv
  exact (canonicalBundle_iff hb).mp (hinv.canonical b (.inl (fetchesTo_iff.mpr ⟨hrej, hb⟩)))

/-- **Ingest is invariant under spelling** exactly between spellings in lowercase. -/
theorem spelling_invariant_iff {h : Int} {B B' : NativeBlockResponse} {logs : List RpcLog}
    (hresp : BlockRespelled B B') :
    SpellingInvariant h B B' logs ↔
      Rejected h B logs ∨ LowercaseBlock B ∧ LowercaseBlock B' := by
  have hrej' : Rejected h B logs ↔ Rejected h B' logs :=
    or_congr_right (not_congr (convertible_respelled hresp))
  constructor
  · intro hinv
    by_cases hrej : Rejected h B logs
    · exact .inl hrej
    · have hsymm : SpellingInvariant h B' B logs :=
        ⟨fun r r' hr hr' => (hinv.same r' r hr' hr).imp Eq.symm And.symm,
          fun b hb => hinv.canonical b hb.symm, fun b hb => hinv.readable b hb.symm⟩
      exact .inr ⟨lowercase_of_invariant hinv hrej,
        lowercase_of_invariant hsymm (mt hrej'.mpr hrej)⟩
  · intro hcond
    have hcanon : ∀ b, FetchesTo h B logs (.ok (some b)) ∨ FetchesTo h B' logs (.ok (some b)) →
        CanonicalBundle b := by
      rintro b (hb | hb)
      · obtain ⟨hrej, hb⟩ := fetchesTo_iff.mp hb
        exact (canonicalBundle_iff hb).mpr (hcond.resolve_left hrej).1
      · obtain ⟨hrej, hb⟩ := fetchesTo_iff.mp hb
        exact (canonicalBundle_iff hb).mpr (hcond.resolve_left (mt hrej'.mp hrej)).2
    refine ⟨fun r r' hr hr' => ?_, hcanon, fun b hb => (hcanon b hb).readable⟩
    rcases fetchesTo_cases hr with ⟨hrej, he⟩ | ⟨hrej, b, hb, rfl⟩
    · rcases fetchesTo_cases hr' with ⟨-, he'⟩ | ⟨hnot, -⟩
      · exact .inr ⟨he, he'⟩
      · exact absurd (hrej'.mp hrej) hnot
    · rcases fetchesTo_cases hr' with ⟨hr, -⟩ | ⟨-, b', hb', rfl⟩
      · exact absurd (hrej'.mpr hr) hrej
      · obtain ⟨hlow, hlow'⟩ := hcond.resolve_left hrej
        rw [assemble_respelled hresp hlow hlow', hb'] at hb
        rw [Except.ok.inj hb]
        exact .inl rfl

/-- A block whose hash the node spells without a prefix, and with one. -/
theorem spelling_invariant_prefix :
    BlockRespelled (bareBlock 7 "aa" []) (bareBlock 7 "0xaa" []) ∧
      SpellingInvariant 7 (bareBlock 7 "aa" []) (bareBlock 7 "0xaa" []) [] := by
  have hresp : BlockRespelled (bareBlock 7 "aa" []) (bareBlock 7 "0xaa" []) :=
    ⟨.inr ⟨by decide, by decide, by decide⟩, .inl rfl, .inl rfl, .nil, rfl⟩
  refine ⟨hresp, (spelling_invariant_iff hresp).mpr (.inr ⟨?_, ?_⟩)⟩
  · exact ⟨by decide, by decide, by decide, by simp [bareBlock]⟩
  · exact ⟨by decide, by decide, by decide, by simp [bareBlock]⟩

/-- **A block whose hash is spelled in uppercase** is stored in uppercase. -/
theorem uppercase_hash_stored :
    ¬ ∀ h B B' logs, BlockRespelled B B' → SpellingInvariant h B B' logs := by
  intro hall
  have hresp : BlockRespelled (bareBlock 7 "AA" []) (bareBlock 7 "aa" []) :=
    ⟨.inr ⟨by decide, by decide, by decide⟩, .inl rfl, .inl rfl, .nil, rfl⟩
  have hrej : ¬ Rejected 7 (bareBlock 7 "AA" []) [] := by
    simp only [Rejected, not_or, not_not]
    exact ⟨by decide, ⟨by decide, by decide, by simp [bareBlock], by simp⟩⟩
  exact absurd (lowercase_of_invariant (hall 7 _ _ [] hresp) hrej).hash (by decide)

end SentrixIndexer
