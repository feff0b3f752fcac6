/-
What the `Transfer` decoder makes of a log's bytes.

The decoder reads text: the hex spellings that `to_domain_log` writes.  Read through
those spellings it is a function of the log's bytes, `readTransfer` below, and both
directions of the codec are read off that function: every canonical encoding of a
transfer decodes to it, but a decoded log need not be canonical, because the upper
twelve bytes of an address topic are never looked at.
-/
import SentrixIndexer.Convert
import SentrixIndexer.TokenDecode
import SentrixIndexer.Proofs.HexText

namespace SentrixIndexer

/-! ### The encoding -/

/-- `keccak256("Transfer(address,address,uint256)")` as the topic a contract emits. -/
def transferSelector : B256 :=
  #v[0xdd, 0xf2, 0x52, 0xad, 0x1b, 0xe2, 0xc8, 0x9b, 0x69, 0xc2, 0xb0, 0x68, 0xfc, 0x37, 0x8d,
    0xaa, 0x95, 0x2b, 0xa7, 0xf1, 0x63, 0xc4, 0xa1, 0x16, 0x28, 0xf5, 0x5a, 0x4d, 0xf5, 0x23,
    0xb3, 0xef]

theorem hex0x_transferSelector : hex0x transferSelector.toList = transferTopic0 := by decide

/-- An address as an indexed argument. -/
def pad32 (addr : EvmAddress) : B256 :=
  (Vector.replicate 12 (0 : UInt8) ++ addr : Vector UInt8 (12 + 20))

/-- A number as an indexed argument. -/
def be32 (v : Wei) : B256 := ⟨(beBytes 32 v.toNat).toArray, by simp⟩

/-- Where a log stands, as far as a row can say so. -/
structure LogPosition where
  height : Int
  txHash : B256
  logIndex : Nat
  i64Min_le_height : i64Min ≤ height
  height_le_i64Max : height ≤ i64Max
  logIndex_le_i32Max : logIndex ≤ i32Max

/-- The log a node reports for what `contract` emitted at a position. -/
def LogPosition.emitted (p : LogPosition) (blockHash : Option B256) (contract : EvmAddress)
    (topics : List B256) (data : List UInt8) : RpcLog where
  address := contract
  topics := topics
  data := data
  blockNumber := some (UInt64.ofBitVec (BitVec.ofInt 64 p.height))
  blockHash := blockHash
  transactionHash := some p.txHash
  logIndex := some (UInt64.ofNat p.logIndex)

/-- A canonical ERC-20 transfer. -/
def LogPosition.erc20Log (p : LogPosition) (blockHash : Option B256)
    (contract src dst : EvmAddress) (amount : Wei) : RpcLog :=
  p.emitted blockHash contract [transferSelector, pad32 src, pad32 dst]
    (beBytes 32 amount.toNat)

/-- A canonical ERC-721 transfer. -/
def LogPosition.erc721Log (p : LogPosition) (blockHash : Option B256)
    (contract src dst : EvmAddress) (tokenId : Wei) : RpcLog :=
  p.emitted blockHash contract [transferSelector, pad32 src, pad32 dst, be32 tokenId] []

/-! ### The decoder, read on bytes -/

/-- The address an indexed argument is taken for: its last twenty bytes. -/
def addressOfTopic (topic : B256) : Address := hex0x (topic.toList.drop 12)

/-- What `transferPayload` finds, from the fourth topic and the data. -/
def readPayload (idTopic : Option B256) (data : List UInt8) :
    Option (TokenStandard × Option Wei × Wei) :=
  match idTopic with
  | some t => if data = [] then some (.erc721, some (ofBytesBE t.toList), 1) else none
  | none => if data.length = 32 then some (.erc20, none, ofBytesBE data) else none

/-- The transfer read off the bytes of a log that converts to `row`. -/
def readTransfer (rpc : RpcLog) (row : Log) : Option TokenTransfer := do
  if rpc.topics[0]? ≠ some transferSelector then none
  let src ← rpc.topics[1]?
  let dst ← rpc.topics[2]?
  let (standard, tokenId, amount) ← readPayload rpc.topics[3]? rpc.data
  return {
    blockHeight := row.blockHeight
    txHash := row.txHash
    logIndex := row.logIndex
    contract := row.address
    standard := standard
    fromAddr := addressOfTopic src
    toAddr := addressOfTopic dst
    tokenId := tokenId
    amount := amount }

theorem topicToAddress_hex0x (t : B256) :
    topicToAddress (hex0x t.toList) = some (addressOfTopic t) := by
  have hlen : (hexChars t.toList).length = 64 := by simp
  have hdrop := drop_hexChars 12 t.toList
  simp only [topicToAddress, trim0x_hex0x, hlen, ne_eq, not_true_eq_false, if_false]
  rw [show (24 : Nat) = 2 * 12 from rfl, hdrop]
  rfl

theorem topicToU256_hex0x (bytes : List UInt8) :
    topicToU256 (hex0x bytes) = if bytes.length = 32 then some (ofBytesBE bytes) else none := by
  simp only [topicToU256, trim0x_hex0x, length_hexChars, hexBytes_hexChars, Option.map_some]
  by_cases h : bytes.length = 32
  · simp [h]
  · have hne : 2 * bytes.length ≠ 64 := by omega
    simp [h, hne]

/-- What a log that converts is converted to. -/
structure Converts (rpc : RpcLog) (row : Log) : Prop where
  blockHeight : rpc.blockNumber.map heightOfU64 = some row.blockHeight
  txHash : rpc.transactionHash.map (fun t => hex0x t.toList) = some row.txHash
  address : row.address = hex0x rpc.address.toList
  topic0 : row.topic0 = (rpc.topics[0]?).map fun t => hex0x t.toList
  topic1 : row.topic1 = (rpc.topics[1]?).map fun t => hex0x t.toList
  topic2 : row.topic2 = (rpc.topics[2]?).map fun t => hex0x t.toList
  topic3 : row.topic3 = (rpc.topics[3]?).map fun t => hex0x t.toList
  data : row.data = some (hex0x rpc.data)

theorem converts_of_ok {rpc : RpcLog} {row : Log} (h : toDomainLog rpc = .ok row) :
    Converts rpc row := by
  unfold toDomainLog at h
  cases hn : rpc.blockNumber with
  | none => simp [hn, bind, Except.bind] at h
  | some n =>
      cases hi : rpc.logIndex with
      | none => simp [hn, hi, bind, Except.bind] at h
      | some i =>
          cases ht : rpc.transactionHash with
          | none =>
              by_cases hle : i32Max < i.toNat <;>
                simp [hn, hi, ht, hle, bind, Except.bind] at h
          | some t =>
              by_cases hle : i32Max < i.toNat
              · simp [hn, hi, hle, bind, Except.bind] at h
              · simp only [hn, hi, ht, hle, Option.elim_some, bind, Except.bind, pure, Except.pure,
                  if_false, Except.ok.injEq] at h
                subst h
                exact ⟨by rw [hn]; rfl, by rw [ht]; rfl, rfl, rfl, rfl, rfl, rfl, rfl⟩

theorem transferPayload_eq {rpc : RpcLog} {row : Log} (h : Converts rpc row) :
    transferPayload row = readPayload rpc.topics[3]? rpc.data := by
  unfold transferPayload readPayload
  rw [h.topic3, h.data]
  cases rpc.topics[3]? with
  | none =>
      by_cases hlen : rpc.data.length = 32 <;>
        simp [dataToU256, topicToU256_hex0x, hlen]
  | some t =>
      by_cases hdata : rpc.data = [] <;>
        simp [topicToU256_hex0x, hdata]

/-- **Through the spellings, the decoder reads the bytes.** -/
theorem decodeTransfer_eq {rpc : RpcLog} {row : Log} (h : toDomainLog rpc = .ok row) :
    decodeTransfer row = readTransfer rpc row := by
  have hrow := converts_of_ok h
  have hsel : row.topic0 = some transferTopic0 ↔ rpc.topics[0]? = some transferSelector := by
    rw [hrow.topic0, ← hex0x_transferSelector]
    cases rpc.topics[0]? with
    | none => simp
    | some t =>
        simp only [Option.map_some, Option.some.injEq]
        refine ⟨fun heq => ?_, fun heq => by rw [heq]⟩
        exact Vector.toList_inj.mp (hex0x_injective heq)
  unfold decodeTransfer readTransfer
  rw [transferPayload_eq hrow, hrow.topic1, hrow.topic2]
  by_cases h0 : rpc.topics[0]? = some transferSelector
  · cases rpc.topics[1]? with
    | none => simp [hsel.mpr h0, h0]
    | some src =>
        cases rpc.topics[2]? with
        | none => simp [hsel.mpr h0, h0]
        | some dst => simp [hsel.mpr h0, h0, topicToAddress_hex0x]
  · simp [h0, mt hsel.mp h0]

/-! ### Canonical logs decode to what they encode -/

/-- The row of the log emitted at a position. -/
def LogPosition.row (p : LogPosition) (contract : EvmAddress) (topics : List B256)
    (data : List UInt8) : Log where
  blockHeight := p.height
  txHash := hex0x p.txHash.toList
  logIndex := p.logIndex
  address := hex0x contract.toList
  topic0 := (topics[0]?).map fun t => hex0x t.toList
  topic1 := (topics[1]?).map fun t => hex0x t.toList
  topic2 := (topics[2]?).map fun t => hex0x t.toList
  topic3 := (topics[3]?).map fun t => hex0x t.toList
  data := some (hex0x data)

/-- A position survives the casts to and from the node's numbers. -/
theorem toDomainLog_emitted (p : LogPosition) (blockHash : Option B256) (contract : EvmAddress)
    (topics : List B256) (data : List UInt8) :
    toDomainLog (p.emitted blockHash contract topics data) =
      .ok (p.row contract topics data) := by
  have hge := p.i64Min_le_height
  have hle := p.height_le_i64Max
  have hidx := p.logIndex_le_i32Max
  simp only [i64Min, i64Max, i32Max] at hge hle hidx
  have hheight : heightOfU64 (UInt64.ofBitVec (BitVec.ofInt 64 p.height)) = p.height := by
    simp only [heightOfU64, asI64]
    exact BitVec.toInt_ofInt_eq_self (by omega) (by omega) (by omega)
  have hindex : (UInt64.ofNat p.logIndex).toNat = p.logIndex := by
    simp only [UInt64.toNat_ofNat']
    omega
  have hnot : ¬ i32Max < (p.logIndex : Int) := by
    rw [i32Max]
    omega
  simp only [toDomainLog, LogPosition.emitted, Option.elim_some, bind, Except.bind, pure,
    Except.pure, hnot, if_false, hheight, hindex, LogPosition.row]

theorem toList_pad32 (addr : EvmAddress) :
    (pad32 addr).toList = List.replicate 12 0 ++ addr.toList := by
  simp only [pad32, Vector.toList_append, Vector.toList_replicate]

theorem addressOfTopic_pad32 (addr : EvmAddress) :
    addressOfTopic (pad32 addr) = hex0x addr.toList := by
  simp [addressOfTopic, toList_pad32]

theorem toList_be32 (v : Wei) : (be32 v).toList = beBytes 32 v.toNat := rfl

/-- The logs that are no transfer of either standard, by their shape. -/
def RpcLog.NoTransfer (rpc : RpcLog) : Prop :=
  rpc.topics[0]? ≠ some transferSelector ∨ rpc.topics.length < 3 ∨
    (rpc.topics.length = 3 ∧ rpc.data.length ≠ 32) ∨ (rpc.topics.length = 4 ∧ rpc.data ≠ [])

theorem readTransfer_of_noTransfer {rpc : RpcLog} (h : rpc.NoTransfer) (row : Log) :
    readTransfer rpc row = none := by
  unfold readTransfer
  obtain h0 | hlen | ⟨hlen, hdata⟩ | ⟨hlen, hdata⟩ := h
  · simp [h0]
  · have h2 : rpc.topics[2]? = none := List.getElem?_eq_none (by omega)
    cases rpc.topics[1]? <;> simp [h2]
  · have h3 : rpc.topics[3]? = none := List.getElem?_eq_none (by omega)
    simp [h3, readPayload, hdata]
  · have h3 : rpc.topics[3]? = some rpc.topics[3] := List.getElem?_eq_getElem (by omega)
    simp [h3, readPayload, hdata]

theorem toLower_hex0x (bytes : List UInt8) : (hex0x bytes).map Char.toLower = hex0x bytes := by
  apply String.toList_inj.mp
  simp only [String.toList_map, toList_hex0x, List.map_cons, map_toLower_hexChars]
  rfl

/-- **Decoding inverts encoding.**  A canonical log of either standard, at any position,
decodes to the transfer it encodes, its addresses in lowercase; a log shaped like neither
decodes to nothing. -/
theorem transfer_decoding_inverts_encoding :
    (∀ (p : LogPosition) (blockHash : Option B256) (contract src dst : EvmAddress)
        (amount : Wei), ∃ row,
      toDomainLog (p.erc20Log blockHash contract src dst amount) = .ok row ∧
        decodeTransfer row = some {
          blockHeight := p.height
          txHash := hex0x p.txHash.toList
          logIndex := p.logIndex
          contract := hex0x contract.toList
          standard := .erc20
          fromAddr := hex0x src.toList
          toAddr := hex0x dst.toList
          tokenId := none
          amount := amount }) ∧
    (∀ (p : LogPosition) (blockHash : Option B256) (contract src dst : EvmAddress)
        (tokenId : Wei), ∃ row,
      toDomainLog (p.erc721Log blockHash contract src dst tokenId) = .ok row ∧
        decodeTransfer row = some {
          blockHeight := p.height
          txHash := hex0x p.txHash.toList
          logIndex := p.logIndex
          contract := hex0x contract.toList
          standard := .erc721
          fromAddr := hex0x src.toList
          toAddr := hex0x dst.toList
          tokenId := some tokenId
          amount := 1 }) ∧
    (∀ (rpc : RpcLog) (row : Log), rpc.NoTransfer → toDomainLog rpc = .ok row →
      decodeTransfer row = none) ∧
    (∀ bytes : List UInt8, (hex0x bytes).map Char.toLower = hex0x bytes) := by
  refine ⟨?erc20, ?erc721, ?other, toLower_hex0x⟩
  case erc20 =>
    intro p blockHash contract src dst amount
    have hrow := toDomainLog_emitted p blockHash contract [transferSelector, pad32 src, pad32 dst]
      (beBytes 32 amount.toNat)
    refine ⟨_, hrow, ?_⟩
    rw [decodeTransfer_eq hrow]
    simp [readTransfer, readPayload, LogPosition.emitted, LogPosition.row,
      addressOfTopic_pad32]
  case erc721 =>
    intro p blockHash contract src dst tokenId
    have hrow := toDomainLog_emitted p blockHash contract
      [transferSelector, pad32 src, pad32 dst, be32 tokenId] []
    refine ⟨_, hrow, ?_⟩
    rw [decodeTransfer_eq hrow]
    simp [readTransfer, readPayload, LogPosition.emitted, LogPosition.row,
      addressOfTopic_pad32, toList_be32]
  case other =>
    intro rpc row h hrow
    rw [decodeTransfer_eq hrow]
    exact readTransfer_of_noTransfer h row

/-! ### Which decoded logs were canonical -/

/-- The topic a stored address pads to. -/
def encodeAddress (addr : Address) : Option (List UInt8) :=
  (hexBytes (trim0x addr.toList)).map fun bytes => List.replicate 12 0 ++ bytes

/-- The topics and the data of the canonical log of a transfer. -/
def encodeTransfer (t : TokenTransfer) : Option (List (List UInt8) × List UInt8) := do
  let src ← encodeAddress t.fromAddr
  let dst ← encodeAddress t.toAddr
  match t.standard, t.tokenId with
  | .erc20, none => some ([transferSelector.toList, src, dst], beBytes 32 t.amount.toNat)
  | .erc721, some tokenId =>
      some ([transferSelector.toList, src, dst, beBytes 32 tokenId.toNat], [])
  | _, _ => none

/-- The topic is an address, padded with twelve zero bytes. -/
def Padded (topic : B256) : Prop := topic.toList.take 12 = List.replicate 12 0

instance (topic : B256) : Decidable (Padded topic) := inferInstanceAs (Decidable (_ = _))

/-- Both indexed addresses of a log are padded addresses. -/
def RpcLog.PaddedAddresses (rpc : RpcLog) : Prop :=
  (∀ t ∈ rpc.topics[1]?, Padded t) ∧ ∀ t ∈ rpc.topics[2]?, Padded t

/-- What is decoded from the log encodes back to it, and a log that does not name its
addresses as padded topics is not decoded. -/
def DecodesOnlyGenuine (rpc : RpcLog) : Prop :=
  ∀ row, toDomainLog rpc = .ok row →
    (∀ t, decodeTransfer row = some t →
      encodeTransfer t = some (rpc.topics.map Vector.toList, rpc.data)) ∧
    (¬ rpc.PaddedAddresses → decodeTransfer row = none)

/-- The log has what every mined log has: a position that fits its columns. -/
def RpcLog.Positioned (rpc : RpcLog) : Prop :=
  rpc.blockNumber.isSome ∧ rpc.transactionHash.isSome ∧
    ∃ i ∈ rpc.logIndex, (i.toNat : Int) ≤ i32Max

theorem positioned_iff {rpc : RpcLog} :
    rpc.Positioned ↔ ∃ row, toDomainLog rpc = .ok row := by
  unfold RpcLog.Positioned toDomainLog
  cases rpc.blockNumber with
  | none => simp [bind, Except.bind]
  | some n =>
      cases rpc.logIndex with
      | none => simp [bind, Except.bind]
      | some i =>
          cases rpc.transactionHash with
          | none =>
              by_cases hle : i32Max < i.toNat <;> simp [hle, bind, Except.bind]
          | some t =>
              by_cases hle : i32Max < i.toNat
              · simp [hle, bind, Except.bind]
              · simp [hle, bind, Except.bind, pure, Except.pure, Int.not_lt.mp hle]

/-- A log of at most four topics that is shaped like a transfer is one of two shapes. -/
theorem shape_of_not_noTransfer {rpc : RpcLog} (hlen : rpc.topics.length ≤ 4)
    (h : ¬ rpc.NoTransfer) :
    (∃ src dst, rpc.topics = [transferSelector, src, dst] ∧ rpc.data.length = 32) ∨
      ∃ src dst idTopic, rpc.topics = [transferSelector, src, dst, idTopic] ∧ rpc.data = [] := by
  simp only [RpcLog.NoTransfer, not_or, not_and, not_not] at h
  obtain ⟨h0, h2, h3, h4⟩ := h
  match htopics : rpc.topics with
  | [] | [_] | [_, _] => simp [htopics] at h2
  | [sel, src, dst] =>
      simp only [htopics, List.getElem?_cons_zero, Option.some.injEq] at h0
      exact .inl ⟨src, dst, by rw [h0], h3 (by simp [htopics])⟩
  | [sel, src, dst, idTopic] =>
      simp only [htopics, List.getElem?_cons_zero, Option.some.injEq] at h0
      exact .inr ⟨src, dst, idTopic, by rw [h0], h4 (by simp [htopics])⟩
  | _ :: _ :: _ :: _ :: _ :: _ =>
      simp only [htopics, List.length_cons] at hlen
      omega

/-- A padded topic is the encoding of the address read off it. -/
theorem encodeAddress_addressOfTopic {t : B256} (h : Padded t) :
    encodeAddress (addressOfTopic t) = some t.toList := by
  have hsplit := List.take_append_drop 12 t.toList
  rw [h] at hsplit
  simp only [encodeAddress, addressOfTopic, trim0x_hex0x, hexBytes_hexChars, Option.map_some,
    hsplit]

/-- **Only genuine encodings are decoded, except for the padding.**  A decoded log encodes
back to itself exactly when its two addresses are padded as they should be: the decoder
checks everything else. -/
theorem decodes_only_genuine_iff {rpc : RpcLog} (hlen : rpc.topics.length ≤ 4) :
    DecodesOnlyGenuine rpc ↔
      ¬ rpc.Positioned ∨ rpc.NoTransfer ∨ rpc.PaddedAddresses := by
  constructor
  · intro h
    by_cases hpos : rpc.Positioned
    · obtain ⟨row, hrow⟩ := positioned_iff.mp hpos
      by_cases hshape : rpc.NoTransfer
      · exact .inr (.inl hshape)
      · refine .inr (.inr (by_contra fun hpad => ?_))
        have hnone := (h row hrow).2 hpad
        rw [decodeTransfer_eq hrow] at hnone
        obtain ⟨src, dst, htopics, hdata⟩ | ⟨src, dst, idTopic, htopics, hdata⟩ :=
          shape_of_not_noTransfer hlen hshape <;>
        simp [readTransfer, readPayload, htopics, hdata] at hnone
    · exact .inl hpos
  · intro h row hrow
    rw [decodeTransfer_eq hrow]
    obtain hpos | hshape | hpad := h
    · exact absurd (positioned_iff.mpr ⟨row, hrow⟩) hpos
    · simp [readTransfer_of_noTransfer hshape]
    · refine ⟨fun t ht => ?_, fun hnot => absurd hpad hnot⟩
      have hshape : ¬ rpc.NoTransfer := fun hno => by
        simp [readTransfer_of_noTransfer hno] at ht
      obtain ⟨src, dst, htopics, hdata⟩ | ⟨src, dst, idTopic, htopics, hdata⟩ :=
        shape_of_not_noTransfer hlen hshape
      · have hsrc := encodeAddress_addressOfTopic (hpad.1 src (by simp [htopics]))
        have hdst := encodeAddress_addressOfTopic (hpad.2 dst (by simp [htopics]))
        simp only [readTransfer, readPayload, htopics, hdata] at ht
        simp at ht
        subst ht
        simp [encodeTransfer, hsrc, hdst, htopics, beBytes_ofBytesBE hdata]
      · have hsrc := encodeAddress_addressOfTopic (hpad.1 src (by simp [htopics]))
        have hdst := encodeAddress_addressOfTopic (hpad.2 dst (by simp [htopics]))
        simp only [readTransfer, readPayload, htopics, hdata] at ht
        simp at ht
        subst ht
        simp [encodeTransfer, hsrc, hdst, htopics, hdata, beBytes_ofBytesBE]

/-- What a contract can emit with a raw `LOG3`: its first "address" fills the whole topic. -/
def dirtyLog : RpcLog where
  address := Vector.replicate 20 0xaa
  topics := [transferSelector, Vector.replicate 32 0xff, Vector.replicate 32 0]
  data := List.replicate 32 0
  blockNumber := some 7
  blockHash := none
  transactionHash := some (Vector.replicate 32 1)
  logIndex := some 0

/-- The same log with the first topic an address again. -/
def cleanLog : RpcLog :=
  { dirtyLog with topics := [transferSelector, pad32 (Vector.replicate 20 0xff),
      Vector.replicate 32 0] }

theorem cleanLog_decodes_genuine : cleanLog.topics.length ≤ 4 ∧ DecodesOnlyGenuine cleanLog :=
  ⟨by decide, (decodes_only_genuine_iff (by decide)).mpr (.inr (.inr ⟨by decide, by decide⟩))⟩

/-- **The dirty log is turned into a transfer it does not encode.** -/
theorem dirtyLog_decodes :
    ¬ ∀ rpc : RpcLog, rpc.topics.length ≤ 4 → DecodesOnlyGenuine rpc := by
  intro h
  have hpos : dirtyLog.Positioned := ⟨rfl, rfl, 0, rfl, by decide⟩
  obtain ⟨row, hrow⟩ := positioned_iff.mp hpos
  have hpad : ¬ dirtyLog.PaddedAddresses := fun hpad =>
    absurd (hpad.1 (Vector.replicate 32 0xff) rfl) (by decide)
  have hnone := (h dirtyLog (by decide) row hrow).2 hpad
  rw [decodeTransfer_eq hrow] at hnone
  simp [readTransfer, readPayload, dirtyLog] at hnone

end SentrixIndexer
