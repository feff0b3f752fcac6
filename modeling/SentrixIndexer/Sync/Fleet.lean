/-
Several nodes behind one client.

The REST client and the JSON-RPC provider each hold a list of base URLs and pick one
per call, round robin; the counters are shared by all tasks, so which node a call
reaches is arbitrary.  The nodes serve one chain, each up to a tip of its own that
only grows: a REST node answers 404 above its tip.  Any call may fail.
-/
import SentrixIndexer.Sync.Nodes

namespace SentrixIndexer

open Effect

/-- The chain all nodes serve. -/
structure CanonicalChain where
  block : Int → NativeBlockResponse
  logs : Int → List RpcLog
  header : Int → RpcBlock
  index_block : ∀ h, (block h).index = h

/-- The tips of the nodes behind each client. -/
structure Fleet where
  restTips : List Int
  rpcTips : List Int
  deriving DecidableEq

namespace Fleet

/-- What the node with tip `t` answers. -/
def nodeAnswer (chain : CanonicalChain) (t : Int) : (c : ChainCall) → c.Answer
  | .blockNumber => .ok t
  | .restBlock h => .ok (if h ≤ t then some (chain.block h) else none)
  | .blockWithTxs h => .ok (if h ≤ t then some (chain.header h) else none)
  | .getLogs fromBlock toBlock => .ok (if toBlock ≤ t then chain.logs fromBlock else [])
  | .connect => .ok ()
  | .streamEvents => .ok ()
  | .streamMessage => none

/-- The nodes a call may reach. -/
def nodesFor (f : Fleet) : ChainCall → List Int
  | .restBlock _ => f.restTips
  | _ => f.rpcTips

/-- The answer to a call failed. -/
def Failed : (c : ChainCall) → c.Answer → Prop
  | .blockNumber, r => ∃ e, r = .error e
  | .restBlock _, r => ∃ e, r = .error e
  | .blockWithTxs _, r => ∃ e, r = .error e
  | .getLogs _ _, r => ∃ e, r = .error e
  | .connect, r => ∃ e, r = .error e
  | .streamEvents, r => ∃ e, r = .error e
  | .streamMessage, _ => True

/-- One of the nodes answers, or the call fails. -/
def rpc (chain : CanonicalChain) : Rpc Fleet := fun f c r f' =>
  f' = f ∧ ((∃ t ∈ f.nodesFor c, r = nodeAnswer chain t c) ∨ Failed c r)

/-- The tips grow, each at its own pace. -/
def Grows (f f' : Fleet) : Prop :=
  List.Forall₂ (· ≤ ·) f.restTips f'.restTips ∧ List.Forall₂ (· ≤ ·) f.rpcTips f'.rpcTips

theorem nodeAnswer_restBlock (chain : CanonicalChain) (t h : Int) :
    nodeAnswer chain t (.restBlock h) = .ok (if h ≤ t then some (chain.block h) else none) :=
  rfl

/-- **A 404 means the node that was asked is behind.** -/
theorem notFound_iff {chain : CanonicalChain} {f f' : Fleet} {h : Int} :
    rpc chain f (.restBlock h) (.ok none) f' ↔ f' = f ∧ ∃ t ∈ f.restTips, t < h := by
  unfold rpc
  constructor
  · intro hr
    obtain ⟨hf, hr⟩ := hr
    rcases hr with ⟨t, ht, hr⟩ | ⟨e, he⟩
    · refine ⟨hf, t, ht, ?_⟩
      by_contra hle
      rw [nodeAnswer_restBlock, if_pos (by omega)] at hr
      exact absurd (Except.ok.inj hr) (by simp)
    · exact absurd he (by simp)
  · intro hr
    obtain ⟨hf, t, ht, hlt⟩ := hr
    refine ⟨hf, Or.inl ⟨t, ht, ?_⟩⟩
    rw [nodeAnswer_restBlock, if_neg (by omega)]

theorem faithfulHeights (chain : CanonicalChain) : FaithfulHeights (rpc chain) := by
  intro f h block f' hr
  obtain ⟨-, hr⟩ := hr
  rcases hr with ⟨t, -, hr⟩ | ⟨e, he⟩
  · rw [nodeAnswer_restBlock] at hr
    by_cases hle : h ≤ t
    · rw [if_pos hle] at hr
      obtain rfl := Option.some.inj (Except.ok.inj hr)
      exact chain.index_block h
    · rw [if_neg hle] at hr
      exact absurd (Except.ok.inj hr) (by simp)
  · exact absurd he (by simp)

/-- The answer of a call that reaches no node. -/
def unreachable : (c : ChainCall) → c.Answer
  | .blockNumber => .error (.rpc "unreachable")
  | .restBlock _ => .error (.rpc "unreachable")
  | .blockWithTxs _ => .error (.rpc "unreachable")
  | .getLogs _ _ => .error (.rpc "unreachable")
  | .connect => .error (.rpc "unreachable")
  | .streamEvents => .error (.rpc "unreachable")
  | .streamMessage => none

/-- Every call reaches the first node of its list. -/
def firstNode (chain : CanonicalChain) : Server ChainSig Fleet := fun f c =>
  match f.nodesFor c with
  | t :: _ => (nodeAnswer chain t c, f)
  | [] => (unreachable c, f)

theorem firstNode_answers (chain : CanonicalChain) : Answers (rpc chain) (firstNode chain) := by
  intro f c
  unfold firstNode
  rcases hn : f.nodesFor c with _ | ⟨t, rest⟩
  · refine ⟨rfl, Or.inr ?_⟩
    cases c with
    | streamMessage => exact trivial
    | _ => exact ⟨_, rfl⟩
  · exact ⟨rfl, Or.inl ⟨t, by rw [hn]; exact List.mem_cons_self .., rfl⟩⟩

end Fleet

end SentrixIndexer
