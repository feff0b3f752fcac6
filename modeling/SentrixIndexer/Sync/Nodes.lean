/-
Nodes whose answers are fixed.

The tables say what is answered for each height; the state is the part of the event
stream that is still to come.  With them, and a database that refuses a transaction
only for its constraints, every call of a sync program has exactly one answer.
-/
import SentrixIndexer.Effect.Exec
import SentrixIndexer.Sync.Indexer

namespace SentrixIndexer

open Effect

structure NodeTables where
  tip : Except ChainError Int
  block : Int → Except ChainError (Option NativeBlockResponse)
  logs : Int → Except ChainError (List RpcLog)
  header : Int → Except ChainError (Option RpcBlock)

/-- What the event stream still has to deliver. -/
abbrev Stream := List (Except ChainError (Option ChainEvent))

namespace NodeTables

/-- The answer to a call. -/
def respond (n : NodeTables) : Server ChainSig Stream
  | stream, .blockNumber => (n.tip, stream)
  | stream, .restBlock h => (n.block h, stream)
  | stream, .blockWithTxs h => (n.header h, stream)
  | stream, .getLogs fromBlock _ => (n.logs fromBlock, stream)
  | stream, .connect => (.ok (), stream)
  | stream, .streamEvents => (.ok (), stream)
  | [], .streamMessage => (some (.ok none), [])
  | e :: rest, .streamMessage => (some e, rest)

/-- The nodes as an answer relation. -/
def rpc (n : NodeTables) : Rpc Stream := n.respond.toHandler

/-- Every block of the tables carries its height. -/
def Faithful (n : NodeTables) : Prop := ∀ h block, n.block h = .ok (some block) → block.index = h

end NodeTables

variable {χ : Type}

/-- The single answer to each call of task `i`, over a chain client with one answer to each. -/
def serve (respond : Server ChainSig χ) (i : TaskId) : Server SyncSig (World χ)
  | w, .chain c =>
      let answer := respond w.chain c
      (answer.1, { w with chain := answer.2, events := noteAnswer i c answer.1 ++ w.events })
  | w, .sleep _ => ((), w)
  | w, .isCancelled => (w.cancelled, w)
  | w, .schedule _ => (0, w)
  | w, .readCursor => (.ok (readCursor w.store), w)
  | w, .getByHeight h => (.ok (Blocks.getByHeight w.store h), w)
  | w, .transact t =>
      match t.run w.store with
      | .ok s => (.ok (), w.commit i t s)
      | .error e => (.error (.sqlx e), w)
  | w, .offer tip => ((w.gate.offer tip).1, { w with gate := (w.gate.offer tip).2 })
  | w, .takePendingAndRelease =>
      (w.gate.takePendingAndRelease.1, { w with gate := w.gate.takePendingAndRelease.2 })
  | w, .push row => (true, { w with events := .pushed i row :: w.events })

/-- The single answer is one of those the chain may give. -/
def Answers (rpc : Rpc χ) (respond : Server ChainSig χ) : Prop :=
  ∀ chain c, rpc chain c (respond chain c).1 (respond chain c).2

theorem handle_serve {rpc : Rpc χ} {respond : Server ChainSig χ} (h : Answers rpc respond)
    (i : TaskId) (w : World χ) (c : SyncCall) :
    handle rpc i w c (serve respond i w c).1 (serve respond i w c).2 := by
  cases c with
  | chain c => exact ⟨_, h w.chain c, rfl⟩
  | sleep nanos => exact rfl
  | isCancelled => exact ⟨rfl, rfl⟩
  | schedule hs => exact rfl
  | readCursor => exact ⟨rfl, Or.inl rfl⟩
  | getByHeight h => exact ⟨rfl, Or.inl rfl⟩
  | transact t =>
      rcases ht : t.run w.store with e | s
      · have hs : serve respond i w (.transact t) = (.error (.sqlx e), w) := by
          simp only [serve, ht]
        rw [hs]
        exact Or.inr ⟨⟨_, rfl⟩, rfl⟩
      · have hs : serve respond i w (.transact t) = (.ok (), w.commit i t s) := by
          simp only [serve, ht]
        rw [hs]
        exact Or.inl ⟨s, ht, rfl⟩
  | offer tip => exact ⟨rfl, rfl⟩
  | takePendingAndRelease => exact ⟨rfl, rfl⟩
  | push row => exact Or.inl ⟨rfl, rfl⟩

/-- An execution against fixed answers is a run against nodes that may give them. -/
theorem run_of_exec {α : Type} {rpc : Rpc χ} {respond : Server ChainSig χ}
    (hr : Answers rpc respond) (i : TaskId) (fuel : Nat) (w : World χ) (p : Prog SyncSig α)
    (check : World χ × α → Bool) (h : (exec (serve respond i) fuel w p).any check = true) :
    ∃ w' a, Run (handle rpc i) w p w' a ∧ check (w', a) = true :=
  exists_run_of_execWhile (fun w c _ => handle_serve hr i w c) fuel w p check h

theorem NodeTables.answers (n : NodeTables) : Answers n.rpc n.respond := fun _ _ => rfl

theorem NodeTables.Faithful.heights {n : NodeTables} (h : n.Faithful) :
    FaithfulHeights n.rpc := by
  intro stream k block stream' hr
  exact h k block (Prod.mk.inj hr).1.symm

/-! ### Small chains -/

/-- A block response with nothing but a height, a hash and transactions. -/
def bareBlock (h : Int) (hash : String) (txs : List NativeBlockTx) : NativeBlockResponse where
  index := h
  hash := hash
  previousHash := "00"
  timestamp := 100 + h
  validator := "0xval"
  round := 0
  stateRoot := none
  transactions := txs

/-- A transfer between two accounts. -/
def bareTx (txid sender receiver : String) : NativeBlockTx where
  txid := txid
  fromAddress := sender
  toAddress := some receiver
  amount := 1
  fee := 0
  nonce := 0
  chainId := 7119
  data := none

/-- An address for each number below 65536. -/
def strangerAddress (i : Nat) : EvmAddress :=
  ⟨(List.replicate 17 0 ++ [1, UInt8.ofNat (i / 256), UInt8.ofNat (i % 256)]).toArray, rfl⟩

theorem strangerAddress_injOn {i j : Nat} (hi : i < 65536) (hj : j < 65536)
    (h : strangerAddress i = strangerAddress j) : i = j := by
  have hlist : [UInt8.ofNat (i / 256), UInt8.ofNat (i % 256)] =
      [UInt8.ofNat (j / 256), UInt8.ofNat (j % 256)] := by
    have := congrArg (fun a : EvmAddress => a.toList.drop 18) h
    simpa [strangerAddress] using this
  have hbyte : ∀ {a b : Nat}, a < 256 → b < 256 → UInt8.ofNat a = UInt8.ofNat b → a = b := by
    intro a b ha hb hab
    have := congrArg UInt8.toNat hab
    rw [UInt8.toNat_ofNat', UInt8.toNat_ofNat'] at this
    omega
  have hhigh := hbyte (by omega) (by omega) (List.cons.inj hlist).1
  have hlow := hbyte (by omega) (by omega) (List.cons.inj (List.cons.inj hlist).2).1
  omega

/-- The value of a computation that succeeds. -/
def valueOf {ε α : Type} (x : Except ε α) (h : x.toOption.isSome = true) : α := x.toOption.get h

theorem eq_valueOf {ε α : Type} {x : Except ε α} (h : x.toOption.isSome = true) :
    x = .ok (valueOf x h) := by
  cases x with
  | error e => exact absurd h (by simp [Except.toOption])
  | ok a => rfl

end SentrixIndexer
