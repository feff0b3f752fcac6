/-
What each statement does when it does not fail.

A statement that succeeds leaves exactly the store its table operation leaves, and
whether it succeeds depends on its constraints only.  Everything later speaks of
`insertNew`, `insertAll` and `deleteWhere`; no proof outside this module unfolds a
statement.
-/
import SentrixIndexer.BlockWriter
import SentrixIndexer.Sync.World

namespace SentrixIndexer

open Relational

/-! ### Sequences of statements -/

/-- A sequence of two statements that succeeds is two statements that succeed. -/
theorem bind_ok {ε α β : Type} {x : Except ε α} {f : α → Except ε β} {b : β} :
    (x >>= f) = .ok b ↔ ∃ a, x = .ok a ∧ f a = .ok b := by
  cases x with
  | error e => simp [bind, Except.bind]
  | ok a => simp [bind, Except.bind]

section ForEach

variable {V : Type} {stmt : V → Statement}

@[simp] theorem forEach_nil (s : Store) : forEach stmt [] s = .ok s := rfl

@[simp] theorem forEach_cons (v : V) (rest : List V) (s : Store) :
    forEach stmt (v :: rest) s = (stmt v s >>= forEach stmt rest) := rfl

theorem forEach_append (us vs : List V) :
    ∀ s, forEach stmt (us ++ vs) s = (forEach stmt us s >>= forEach stmt vs) := by
  intro s
  exact List.foldlM_append ..

/-- Pages of statements are the statements. -/
theorem forEach_flatten (pages : List (List V)) :
    ∀ s, forEach (forEach stmt) pages s = forEach stmt pages.flatten s := by
  induction pages with
  | nil => intro s; rfl
  | cons page rest ih =>
      intro s
      rw [forEach_cons, List.flatten_cons, forEach_append]
      congr 1
      funext s'
      exact ih s'

/-- A sequence of statements each of which leaves `upd`, when it succeeds. -/
theorem forEach_ok {upd : Store → V → Store}
    (h : ∀ v s s', stmt v s = .ok s' → s' = upd s v) :
    ∀ (rows : List V) (s s' : Store), forEach stmt rows s = .ok s' → s' = rows.foldl upd s := by
  intro rows
  induction rows with
  | nil => intro s s' hs; exact (Except.ok.inj hs).symm
  | cons v rest ih =>
      intro s s' hs
      obtain ⟨s₁, hv, hrest⟩ := bind_ok.mp hs
      rw [List.foldl_cons, ← h v s s₁ hv]
      exact ih s₁ s' hrest

end ForEach

theorem flatten_chunksOf {V : Type} (n : Nat) :
    ∀ (fuel : Nat) (rows : List V), (chunksOf n fuel rows).flatten = rows := by
  intro fuel
  induction fuel with
  | zero =>
      intro rows
      cases rows with
      | nil => rfl
      | cons v rest => simp [chunksOf]
  | succ fuel ih =>
      intro rows
      cases rows with
      | nil => rfl
      | cons v rest =>
          show (v :: rest).take n ++ (chunksOf n fuel ((v :: rest).drop n)).flatten = _
          rw [ih, List.take_append_drop]

/-- **Paging is invisible**: the pages of a list are the list. -/
@[simp] theorem flatten_chunks {V : Type} (rows : List V) : (chunks rows).flatten = rows :=
  flatten_chunksOf _ _ rows

theorem forEach_chunks {V : Type} {stmt : V → Statement} (rows : List V) (s : Store) :
    forEach (forEach stmt) (chunks rows) s = forEach stmt rows s := by
  rw [forEach_flatten, flatten_chunks]

/-! ### The statements -/

/-- The store with its blocks replaced. -/
def Store.mapBlocks (s : Store) (f : Table Block.height → Table Block.height) : Store :=
  { s with blocks := f s.blocks }

def Store.mapTransactions (s : Store)
    (f : Table Transaction.hash → Table Transaction.hash) : Store :=
  { s with transactions := f s.transactions }

def Store.mapLogs (s : Store) (f : Table Log.key → Table Log.key) : Store :=
  { s with logs := f s.logs }

def Store.mapTransfers (s : Store)
    (f : Table TokenTransfer.key → Table TokenTransfer.key) : Store :=
  { s with tokenTransfers := f s.tokenTransfers }

/-- The hash is free for a new row. -/
def FreshHash (s : Store) (b : Block) : Prop := ∀ r ∈ s.blocks.rows, r.hash ≠ b.hash

private theorem ok_inj {ε α : Type} {a b : α} : (Except.ok a : Except ε α) = .ok b ↔ b = a :=
  ⟨fun h => (Except.ok.inj h).symm, fun h => h ▸ rfl⟩

theorem Blocks.insert_ok {b : Block} {s s' : Store} :
    Blocks.insert b s = .ok s' ↔
      (s.blocks.contains b.height = true ∨ FreshHash s b) ∧
      s' = s.mapBlocks fun t => t.insertNew b := by
  unfold Blocks.insert
  by_cases hc : s.blocks.contains b.height = true
  · have hsame : (s.mapBlocks fun t => t.insertNew b) = s := by
      show { s with blocks := s.blocks.insertNew b } = s
      rw [Table.insertNew_of_contains hc]
    rw [if_pos hc, hsame, ok_inj]
    exact ⟨fun h => ⟨Or.inl hc, h⟩, fun h => h.2⟩
  · rw [if_neg hc]
    by_cases hany : (s.blocks.rows.any fun r => decide (r.hash = b.hash)) = true
    · have hno : ¬ FreshHash s b := by
        intro hall
        obtain ⟨r, hr, heq⟩ := List.any_eq_true.mp hany
        exact hall r hr (of_decide_eq_true heq)
      rw [if_pos hany]
      simp [hc, hno]
    · have hall : FreshHash s b := by
        intro r hr heq
        exact hany (List.any_eq_true.mpr ⟨r, hr, decide_eq_true heq⟩)
      rw [if_neg hany, ok_inj]
      exact ⟨fun h => ⟨Or.inr hall, h⟩, fun h => h.2⟩

theorem Transactions.insert_ok {t : Transaction} {s s' : Store} :
    Transactions.insert t s = .ok s' ↔
      (s.transactions.contains t.hash = true ∨ s.blocks.contains t.blockHeight = true) ∧
      s' = s.mapTransactions fun u => u.insertNew t := by
  unfold Transactions.insert
  by_cases hc : s.transactions.contains t.hash = true
  · have hsame : (s.mapTransactions fun u => u.insertNew t) = s := by
      show { s with transactions := s.transactions.insertNew t } = s
      rw [Table.insertNew_of_contains hc]
    rw [if_pos hc, hsame, ok_inj]
    exact ⟨fun h => ⟨Or.inl hc, h⟩, fun h => h.2⟩
  · rw [if_neg hc]
    by_cases hb : s.blocks.contains t.blockHeight = true
    · rw [if_pos hb, ok_inj]
      exact ⟨fun h => ⟨Or.inr hb, h⟩, fun h => h.2⟩
    · rw [if_neg hb]
      simp [hc, hb]

theorem Logs.insert_ok {l : Log} {s s' : Store} :
    Logs.insert l s = .ok s' ↔
      (s.logs.contains l.key = true ∨
        s.blocks.contains l.blockHeight = true ∧ s.transactions.contains l.txHash = true) ∧
      s' = s.mapLogs fun t => t.insertNew l := by
  unfold Logs.insert
  by_cases hc : s.logs.contains l.key = true
  · have hsame : (s.mapLogs fun t => t.insertNew l) = s := by
      show { s with logs := s.logs.insertNew l } = s
      rw [Table.insertNew_of_contains hc]
    rw [if_pos hc, hsame, ok_inj]
    exact ⟨fun h => ⟨Or.inl hc, h⟩, fun h => h.2⟩
  · rw [if_neg hc]
    by_cases hb : s.blocks.contains l.blockHeight = true
    · rw [if_neg (by simp [hb])]
      by_cases ht : s.transactions.contains l.txHash = true
      · rw [if_neg (by simp [ht]), ok_inj]
        exact ⟨fun h => ⟨Or.inr ⟨hb, ht⟩, h⟩, fun h => h.2⟩
      · rw [if_pos (by simp [ht])]
        simp [hc, ht]
    · rw [if_pos (by simp [hb])]
      simp [hc, hb]

theorem TokenTransfers.insert_ok {t : TokenTransfer} {s s' : Store} :
    TokenTransfers.insert t s = .ok s' ↔ s' = s.mapTransfers fun u => u.insertNew t := by
  show Except.ok _ = _ ↔ _
  exact ok_inj

theorem Addresses.upsertBatch_ok {seen : List (Address × Int)} {s s' : Store} :
    Addresses.upsertBatch seen s = .ok s' ↔
      (seen.map Prod.fst).Nodup ∧
      s' = { s with addresses := seen.foldl Addresses.upsert s.addresses } := by
  unfold Addresses.upsertBatch
  by_cases hn : (seen.map Prod.fst).Nodup
  · rw [if_pos hn, ok_inj]
    exact ⟨fun h => ⟨hn, h⟩, fun h => h.2⟩
  · rw [if_neg hn]
    simp [hn]

theorem foldl_mapBlocks (rows : List Block) :
    ∀ s : Store, rows.foldl (fun s b => s.mapBlocks fun t => t.insertNew b) s =
      s.mapBlocks fun t => t.insertAll rows := by
  induction rows with
  | nil => intro s; rfl
  | cons b rest ih => intro s; rw [List.foldl_cons, ih]; rfl

theorem foldl_mapTransactions (rows : List Transaction) :
    ∀ s : Store, rows.foldl (fun s t => s.mapTransactions fun u => u.insertNew t) s =
      s.mapTransactions fun u => u.insertAll rows := by
  induction rows with
  | nil => intro s; rfl
  | cons t rest ih => intro s; rw [List.foldl_cons, ih]; rfl

theorem foldl_mapLogs (rows : List Log) :
    ∀ s : Store, rows.foldl (fun s l => s.mapLogs fun t => t.insertNew l) s =
      s.mapLogs fun t => t.insertAll rows := by
  induction rows with
  | nil => intro s; rfl
  | cons l rest ih => intro s; rw [List.foldl_cons, ih]; rfl

theorem foldl_mapTransfers (rows : List TokenTransfer) :
    ∀ s : Store, rows.foldl (fun s t => s.mapTransfers fun u => u.insertNew t) s =
      s.mapTransfers fun u => u.insertAll rows := by
  induction rows with
  | nil => intro s; rfl
  | cons t rest ih => intro s; rw [List.foldl_cons, ih]; rfl

/-- What several statements leave, when they succeed. -/
theorem forEach_insertBlocks_ok {rows : List Block} {s s' : Store}
    (h : forEach Blocks.insert rows s = .ok s') :
    s' = s.mapBlocks fun t => t.insertAll rows := by
  rw [← foldl_mapBlocks]
  exact forEach_ok (fun _ _ _ hv => (Blocks.insert_ok.mp hv).2) rows s s' h

theorem forEach_insertTransactions_ok {rows : List Transaction} {s s' : Store}
    (h : forEach Transactions.insert rows s = .ok s') :
    s' = s.mapTransactions fun u => u.insertAll rows := by
  rw [← foldl_mapTransactions]
  exact forEach_ok (fun _ _ _ hv => (Transactions.insert_ok.mp hv).2) rows s s' h

theorem forEach_insertLogs_ok {rows : List Log} {s s' : Store}
    (h : forEach Logs.insert rows s = .ok s') :
    s' = s.mapLogs fun t => t.insertAll rows := by
  rw [← foldl_mapLogs]
  exact forEach_ok (fun _ _ _ hv => (Logs.insert_ok.mp hv).2) rows s s' h

theorem forEach_insertTransfers_ok {rows : List TokenTransfer} {s s' : Store}
    (h : forEach TokenTransfers.insert rows s = .ok s') :
    s' = s.mapTransfers fun u => u.insertAll rows := by
  rw [← foldl_mapTransfers]
  exact forEach_ok (fun _ _ _ hv => TokenTransfers.insert_ok.mp hv) rows s s' h

/-- Pages of sightings, upserted one page after another. -/
theorem forEach_upsertBatch_ok {pages : List (List (Address × Int))} {s s' : Store}
    (h : forEach Addresses.upsertBatch pages s = .ok s') :
    s' = { s with addresses := pages.flatten.foldl Addresses.upsert s.addresses } := by
  have hfold := forEach_ok (fun _ _ _ hv => (Addresses.upsertBatch_ok.mp hv).2) pages s s' h
  rw [hfold]
  clear hfold h
  induction pages generalizing s with
  | nil => rfl
  | cons page rest ih => rw [List.foldl_cons, ih, List.flatten_cons, List.foldl_append]

end SentrixIndexer
