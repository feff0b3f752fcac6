/-
Writing again what is already written.

Where the rows of a bundle are all stored, every insert of it meets a conflict on its
own key and does nothing, whatever the other constraints say: the conflict is looked at
first.  The cursor is above the bundle already, so all a replay moves is the registry
of addresses and the time stamp of the cursor.
-/
import SentrixIndexer.Proofs.Registry

namespace SentrixIndexer

open Relational

/-! ### Statements that do nothing -/

/-- Every row of each bundle is stored, and the cursor is not below it. -/
structure Covers (s : Store) (bundles : List BlockBundle) : Prop where
  rows : ∀ b ∈ bundles, RowsStored s b
  cursor : ∀ b ∈ bundles, ∃ c, readCursor s = some c ∧ b.block.height ≤ c

/-- The two stores differ in the registry and the time stamp of the cursor at most. -/
structure Unmoved (s s' : Store) : Prop where
  blocks : s'.blocks = s.blocks
  transactions : s'.transactions = s.transactions
  logs : s'.logs = s.logs
  tokenTransfers : s'.tokenTransfers = s.tokenTransfers
  cursor : readCursor s' = readCursor s

theorem Unmoved.refl (s : Store) : Unmoved s s := ⟨rfl, rfl, rfl, rfl, rfl⟩

theorem Unmoved.trans {s₁ s₂ s₃ : Store} (h : Unmoved s₁ s₂) (h' : Unmoved s₂ s₃) :
    Unmoved s₁ s₃ :=
  ⟨h'.blocks.trans h.blocks, h'.transactions.trans h.transactions, h'.logs.trans h.logs,
    h'.tokenTransfers.trans h.tokenTransfers, h'.cursor.trans h.cursor⟩

/-- The registry is not one of the four tables. -/
theorem Unmoved.addresses (s : Store) (rows : Table AddressRow.address) :
    Unmoved s { s with addresses := rows } := ⟨rfl, rfl, rfl, rfl, rfl⟩

theorem Unmoved.covers {s s' : Store} {bundles : List BlockBundle} (h : Unmoved s s')
    (hc : Covers s bundles) : Covers s' bundles := by
  refine ⟨fun b hb => ?_, fun b hb => ?_⟩
  · have hrows := hc.rows b hb
    refine ⟨?_, ?_, ?_, ?_⟩
    · simpa [h.blocks] using hrows.block
    · simpa [h.transactions] using hrows.txs
    · simpa [h.logs] using hrows.logs
    · simpa [h.tokenTransfers] using hrows.transfers
  · simpa [h.cursor] using hc.cursor b hb

/-! ### The end of a write -/

/-- The transaction writes blocks: it is neither a step over a gap nor a rewind. -/
def Txn.Writes : Txn → Prop
  | .writeBlock _ => True
  | .batchWriteBlocks _ => True
  | _ => False

/-- Advancing the cursor moves it to the target or keeps it above. -/
theorem le_advanced {target cursor : Option Int} {h : Int}
    (hh : target = some h ∨ ∃ c, cursor = some c ∧ h ≤ c) :
    ∃ c, advanced target cursor = some c ∧ h ≤ c := by
  rcases hh with rfl | ⟨c, rfl, hle⟩
  · cases cursor with
    | none => exact ⟨h, by simp [advanced]⟩
    | some c => exact ⟨max c h, by simp [advanced]⟩
  · cases target with
    | none => exact ⟨c, by simp [advanced, hle]⟩
    | some g => exact ⟨max c g, by simp [advanced, hle]⟩

/-- The target of a transaction is not below its bundles. -/
theorem Txn.le_target {t : Txn} {b : BlockBundle} (hb : b ∈ t.bundles) :
    ∃ h, t.target = some h ∧ b.block.height ≤ h := by
  cases t with
  | writeBlock b₀ =>
      obtain rfl : b = b₀ := by simpa [Txn.bundles] using hb
      exact ⟨b.block.height, by simp [Txn.target]⟩
  | batchWriteBlocks bundles =>
      have hmem : b.block.height ∈ bundles.map fun b => b.block.height :=
        List.mem_map_of_mem hb
      rcases hmax : (bundles.map fun b => b.block.height).max? with _ | top
      · rw [List.max?_eq_none_iff] at hmax
        simp [hmax] at hmem
      · exact ⟨top, hmax, (List.max?_eq_some_iff.mp hmax).2 _ hmem⟩
  | writeCursor g nowTs => simp [Txn.bundles] at hb
  | rewindTo g => simp [Txn.bundles] at hb

/-- A forward transaction covers its own bundles and keeps others covered. -/
theorem Txn.run_covers {t : Txn} {s s' : Store} {bundles : List BlockBundle} (hf : t.Forward)
    (hc : Covers s bundles) (h : t.run s = .ok s') : Covers s' (bundles ++ t.bundles) := by
  obtain ⟨_, _, _, _, -, -, -, -, hw⟩ := t.run_written hf h
  refine ⟨fun b hb => ?_, fun b hb => ?_⟩
  · rcases List.mem_append.mp hb with hold | hnew
    · exact (hc.rows b hold).mono (Txn.run_extends hf h)
    · exact Txn.run_rowsStored hf h hnew
  · rw [hw.cursor]
    rcases List.mem_append.mp hb with hold | hnew
    · exact le_advanced (Or.inr (hc.cursor b hold))
    · obtain ⟨top, htop, hle⟩ := Txn.le_target hnew
      obtain ⟨c, hcur, hle'⟩ : ∃ c, advanced t.target (readCursor s) = some c ∧ top ≤ c :=
        le_advanced (Or.inl htop)
      exact ⟨c, hcur, hle.trans hle'⟩

/-- **A run of forward transactions leaves its bundles covered.** -/
theorem Committed.covers {ts : List Txn} :
    ∀ {s : Store}, (∀ t ∈ ts, t.Forward) → Committed ts s → Covers s (ts.flatMap Txn.bundles) := by
  induction ts using List.reverseRecOn with
  | nil => exact fun _ _ => ⟨by simp, by simp⟩
  | append_singleton ts t ih =>
      intro s hf hs
      obtain ⟨s₁, hs₁, hrun⟩ := committed_concat.mp hs
      have hcovers := ih (fun u hu => hf u (by simp [hu])) hs₁
      simpa using Txn.run_covers (hf t (by simp)) hcovers hrun

end SentrixIndexer
