/-
Pages of rows that share a sort key.

`ORDER BY key DESC LIMIT n` leaves it open in which order rows with one sort key come, and
the limit may fall among them.  Every page it allows has the first rows: no row left out is
above one of the page.  There is one such page if no two rows share a key that fewer than `n`
rows are above, and otherwise there are several.
-/
import SentrixIndexer.Relational.Pages

namespace Relational

variable {V κ : Type} [LinearOrder κ] {key : V → κ} {limit : Int} {l l₁ l₂ rows rows' : List V}

/-- Descending by a key that rows may share. -/
def NonAscending (key : V → κ) (l : List V) : Prop := l.Pairwise fun a b => key b ≤ key a

/-- What a query may come to that ends in `ORDER BY key DESC LIMIT limit`: rows that share a
key come in any order, and a negative limit is an error. -/
inductive PageOf (key : V → κ) (limit : Int) (rows : List V) : Option (List V) → Prop
  | refused (h : limit < 0) : PageOf key limit rows none
  | page {l : List V} (h : 0 ≤ limit) (hperm : l.Perm rows) (hdesc : NonAscending key l) :
      PageOf key limit rows (some (l.take limit.toNat))

/-- Two rows share a key that fewer rows than the page holds are above. -/
def Tied (key : V → κ) (limit : Int) (rows : List V) : Prop :=
  ∃ a ∈ rows, ∃ b ∈ rows, a ≠ b ∧ key a = key b ∧ (rows.countP fun v => key a < key v) < limit

/-- The page has the first `n` rows. -/
structure FirstRows (key : V → κ) (n : Nat) (rows page : List V) : Prop where
  length : page.length = min n rows.length
  subperm : page.Subperm rows
  desc : NonAscending key page
  rest : ∀ v ∈ rows, v ∉ page → ∀ u ∈ page, key v ≤ key u

/-- The first rows, if a page can have that many. -/
def FirstPage (key : V → κ) (limit : Int) (rows : List V) : Option (List V) → Prop
  | none => limit < 0
  | some page => 0 ≤ limit ∧ FirstRows key limit.toNat rows page

/-- What a query may come to that ends in `ORDER BY key`. -/
structure OrderedBy (key : V → κ) (rows result : List V) : Prop where
  perm : result.Perm rows
  sorted : result.Pairwise fun a b => key a ≤ key b

/-! ### The order of the rows does not matter -/

theorem PageOf.of_perm {r : Option (List V)} (hperm : rows.Perm rows')
    (h : PageOf key limit rows r) : PageOf key limit rows' r := by
  cases h with
  | refused hlimit => exact .refused hlimit
  | page hlimit hl hdesc => exact .page hlimit (hl.trans hperm) hdesc

theorem pageOf_perm {r : Option (List V)} (hperm : rows.Perm rows') :
    PageOf key limit rows r ↔ PageOf key limit rows' r :=
  ⟨.of_perm hperm, .of_perm hperm.symm⟩

/-! ### Orders and ranks -/

theorem nonAscending_orderByDesc (key : V → κ) (l : List V) :
    NonAscending key (orderByDesc key l) :=
  List.pairwise_reverse.mpr (sortByKey_sorted key l)

/-- Every query comes to something. -/
theorem exists_pageOf (key : V → κ) (limit : Int) (rows : List V) :
    ∃ r, PageOf key limit rows r := by
  by_cases h : 0 ≤ limit
  · exact ⟨_, .page h (orderByDesc_perm key rows) (nonAscending_orderByDesc key rows)⟩
  · exact ⟨none, .refused (by omega)⟩

/-- Two orders of the rows agree on the keys at each place. -/
theorem NonAscending.keys_eq (h₁ : NonAscending key l₁) (h₂ : NonAscending key l₂)
    (hperm : l₁.Perm l₂) : l₁.map key = l₂.map key := by
  have hkeys₁ : (l₁.map key).Pairwise fun a b => b ≤ a := List.pairwise_map.mpr h₁
  have hkeys₂ : (l₂.map key).Pairwise fun a b => b ≤ a := List.pairwise_map.mpr h₂
  exact (hperm.map key).eq_of_pairwise (fun _ _ _ _ hba hab => le_antisymm hab hba) hkeys₁ hkeys₂

/-- Only the rows before a row are above it. -/
theorem NonAscending.countP_above_le (h : NonAscending key l) {i : Nat} {a : V}
    (ha : l[i]? = some a) : (l.countP fun v => key a < key v) ≤ i := by
  obtain ⟨hi, hget⟩ := List.getElem?_eq_some_iff.mp ha
  have hsplit : l = l.take i ++ a :: l.drop (i + 1) := by
    rw [← hget, List.getElem_cons_drop, List.take_append_drop]
  have hafter : ∀ v ∈ a :: l.drop (i + 1), key v ≤ key a := by
    have hdesc := h
    unfold NonAscending at hdesc
    rw [hsplit] at hdesc
    intro v hv
    rcases List.mem_cons.mp hv with rfl | hv
    · exact le_rfl
    · exact (List.pairwise_cons.mp (List.pairwise_append.mp hdesc).2.1).1 v hv
  have hnone : (a :: l.drop (i + 1)).countP (fun v => key a < key v) = 0 := by
    refine List.countP_eq_zero.mpr fun v hv => ?_
    simpa using hafter v hv
  calc (l.countP fun v => key a < key v)
      = (l.take i).countP (fun v => key a < key v) := by
        conv_lhs => rw [hsplit, List.countP_append, hnone, Nat.add_zero]
    _ ≤ (l.take i).length := List.countP_le_length
    _ ≤ i := List.length_take_le i l

/-- **A row can come right after the rows above it.** -/
theorem exists_order_at (key : V → κ) {a : V} (ha : a ∈ rows) : ∃ l : List V, l.Perm rows ∧
    NonAscending key l ∧ l[rows.countP fun v => key a < key v]? = some a := by
  obtain ⟨s, t, rfl⟩ := List.append_of_mem ha
  let above : V → Bool := fun v => key a < key v
  let front := orderByDesc key ((s ++ t).filter above)
  let back := orderByDesc key ((s ++ t).filter fun v => !above v)
  have hfront : ∀ v ∈ front, key a < key v := by
    intro v hv
    simpa [above] using (List.mem_filter.mp (mem_orderByDesc.mp hv)).2
  have hback : ∀ v ∈ back, key v ≤ key a := by
    intro v hv
    simpa [above] using (List.mem_filter.mp (mem_orderByDesc.mp hv)).2
  have hothers : (front ++ back).Perm (s ++ t) :=
    ((orderByDesc_perm key _).append (orderByDesc_perm key _)).trans
      (List.filter_append_perm above (s ++ t))
  have hlength : ((s ++ a :: t).countP fun v => key a < key v) = front.length := by
    rw [(orderByDesc_perm key _).length_eq, ← List.countP_eq_length_filter,
      List.perm_middle.countP_eq, List.countP_cons_of_neg (by simp)]
  refine ⟨front ++ a :: back, ?_, ?_, ?_⟩
  · exact List.perm_middle.trans ((hothers.cons a).trans List.perm_middle.symm)
  · refine List.pairwise_append.mpr ⟨nonAscending_orderByDesc key _,
      List.pairwise_cons.mpr ⟨hback, nonAscending_orderByDesc key _⟩, ?_⟩
    intro u hu v hv
    rcases List.mem_cons.mp hv with rfl | hv
    · exact (hfront u hu).le
    · exact (hback v hv).trans (hfront u hu).le
  · rw [hlength, List.getElem?_append_right (Nat.le_refl _), Nat.sub_self, List.getElem?_cons_zero]

/-- **Rows with distinct keys come in one order.** -/
theorem OrderedBy.eq (h : OrderedBy key rows l) (hperm : rows.Perm l₁)
    (hsorted : l₁.Pairwise fun a b => key a < key b) : l = l₁ := by
  refine (h.perm.trans hperm).eq_of_pairwise ?_ h.sorted (hsorted.imp le_of_lt)
  intro a b ha hb hab hba
  by_contra hne
  have hnodup : (l₁.map key).Nodup := List.pairwise_map.mpr (hsorted.imp ne_of_lt)
  exact hne (List.inj_on_of_nodup_map hnodup ((h.perm.trans hperm).mem_iff.mp ha) hb
    (le_antisymm hab hba))

/-! ### What every page has -/

/-- **A page has the first rows.** -/
theorem PageOf.firstPage {r : Option (List V)} (h : PageOf key limit rows r) :
    FirstPage key limit rows r := by
  cases h with
  | refused hlimit => exact hlimit
  | @page l hlimit hperm hdesc =>
      refine ⟨hlimit, ?_, ?_, ?_, ?_⟩
      · rw [List.length_take, hperm.length_eq]
      · exact (List.take_sublist _ l).subperm.trans hperm.subperm
      · exact List.Pairwise.sublist (List.take_sublist _ l) hdesc
      · intro v hv hleft u hu
        have hsplit := List.take_append_drop limit.toNat l
        have hrest : v ∈ l.drop limit.toNat := by
          have hmem : v ∈ l.take limit.toNat ++ l.drop limit.toNat :=
            hsplit.symm ▸ hperm.mem_iff.mpr hv
          exact (List.mem_append.mp hmem).resolve_left hleft
        rw [NonAscending, ← hsplit] at hdesc
        exact (List.pairwise_append.mp hdesc).2.2 u hu v hrest

/-! ### One page or several -/

/-- Where nothing ties, two orders of the rows have the same front. -/
theorem take_eq_of_not_tied (htied : ¬ Tied key limit rows) (hl₁ : l₁.Perm rows)
    (hdesc₁ : NonAscending key l₁) (hl₂ : l₂.Perm rows) (hdesc₂ : NonAscending key l₂) :
    l₁.take limit.toNat = l₂.take limit.toNat := by
  have hkeys := hdesc₁.keys_eq hdesc₂ (hl₁.trans hl₂.symm)
  refine List.ext_getElem? fun i => ?_
  by_cases hi : i < limit.toNat
  · rw [List.getElem?_take_of_lt hi, List.getElem?_take_of_lt hi]
    have hkey : (l₁[i]?).map key = (l₂[i]?).map key := by
      rw [← List.getElem?_map, ← List.getElem?_map, hkeys]
    cases ha : l₁[i]? with
    | none =>
        rw [ha, Option.map_none] at hkey
        exact (Option.map_eq_none_iff.mp hkey.symm).symm
    | some a =>
        rw [ha, Option.map_some] at hkey
        obtain ⟨b, hb, hba⟩ := Option.map_eq_some_iff.mp hkey.symm
        rw [hb]
        by_contra hne
        -- Both rows stand at place `i`, so at most `i` rows are above them.
        have habove := hdesc₁.countP_above_le ha
        rw [hl₁.countP_eq] at habove
        exact htied ⟨a, hl₁.mem_iff.mp (List.mem_of_getElem? ha), b,
          hl₂.mem_iff.mp (List.mem_of_getElem? hb), fun h => hne (congrArg some h), hba.symm,
          by omega⟩
  · rw [List.getElem?_take_eq_none (by omega), List.getElem?_take_eq_none (by omega)]

/-- **There is one page exactly when no two rows tie within it.** -/
theorem existsUnique_pageOf : (∃! r, PageOf key limit rows r) ↔ ¬ Tied key limit rows := by
  constructor
  · intro h htied
    obtain ⟨a, ha, b, hb, hne, hkey, hlimit⟩ := htied
    obtain ⟨l₁, hl₁, hdesc₁, hat₁⟩ := exists_order_at key ha
    obtain ⟨l₂, hl₂, hdesc₂, hat₂⟩ := exists_order_at key hb
    have hpages := h.unique (.page (by omega) hl₁ hdesc₁) (.page (by omega) hl₂ hdesc₂)
    have htake : l₁.take limit.toNat = l₂.take limit.toNat := Option.some.inj hpages
    rw [← hkey] at hat₂
    have hrow : l₁[rows.countP fun v => key a < key v]? =
        l₂[rows.countP fun v => key a < key v]? := by
      rw [← List.getElem?_take_of_lt (j := limit.toNat) (by omega), htake,
        List.getElem?_take_of_lt (by omega)]
    rw [hat₁, hat₂] at hrow
    exact hne (Option.some.inj hrow)
  · intro htied
    obtain ⟨r, hr⟩ := exists_pageOf key limit rows
    refine ⟨r, hr, ?_⟩
    intro r' hr'
    cases hr with
    | refused hlimit =>
        cases hr' with
        | refused _ => rfl
        | page hlimit' _ _ => omega
    | page hlimit hl hdesc =>
        cases hr' with
        | refused hlimit' => omega
        | page _ hl' hdesc' => rw [take_eq_of_not_tied htied hl' hdesc' hl hdesc]

/-- Where nothing ties, the one row asked for is above all others. -/
theorem PageOf.head_above {page : List V} {a b : V} (h : PageOf key 1 rows (some page))
    (htied : ¬ Tied key 1 rows) (ha : a ∈ page) (hb : b ∈ rows) (hne : b ≠ a) :
    key b < key a := by
  obtain ⟨-, hfirst⟩ := h.firstPage
  have hlength : page.length ≤ 1 := hfirst.length ▸ Nat.min_le_left _ _
  obtain ⟨c, rfl⟩ : ∃ c, page = [c] := List.length_eq_one_iff.mp
    (Nat.le_antisymm hlength (List.length_pos_of_mem ha))
  obtain rfl := List.mem_singleton.mp ha
  have htop : ∀ v ∈ rows, key v ≤ key a := by
    intro v hv
    by_cases hva : v = a
    · exact hva ▸ le_rfl
    · exact hfirst.rest v hv (by simpa using hva) a ha
  refine lt_of_le_of_ne (htop b hb) fun hkey => htied ?_
  have hnone : rows.countP (fun v => key a < key v) = 0 :=
    List.countP_eq_zero.mpr fun v hv => by simpa using htop v hv
  exact ⟨a, hfirst.subperm.subset ha, b, hb, Ne.symm hne, hkey.symm, by rw [hnone]; decide⟩

/-! ### What is made of a page -/

theorem PageOf.subset {page : List V} (h : PageOf key limit rows (some page)) : page ⊆ rows :=
  h.firstPage.2.subperm.subset

/-- Rows that can be told apart by their images can be so in lists. -/
theorem map_inj_of_subset {W : Type} {f : V → W}
    (hinj : ∀ a ∈ rows, ∀ b ∈ rows, f a = f b → a = b) (h₁ : l₁ ⊆ rows) (h₂ : l₂ ⊆ rows)
    (heq : l₁.map f = l₂.map f) : l₁ = l₂ := by
  induction l₁ generalizing l₂ with
  | nil => exact (List.map_eq_nil_iff.mp heq.symm).symm
  | cons a l₁ ih =>
      obtain ⟨b, l₂', rfl, hba, htails⟩ := List.map_eq_cons_iff.mp heq.symm
      have hab : a = b :=
        hinj a (h₁ (List.mem_cons_self ..)) b (h₂ (List.mem_cons_self ..)) hba.symm
      rw [hab, ih (List.subset_of_cons_subset h₁) (List.subset_of_cons_subset h₂) htails.symm]

/-- There is as much choice of answers as of pages if an answer tells what it was made of. -/
theorem existsUnique_image {α β : Type} {R : α → Prop} {g : α → β}
    (hinj : ∀ a b, R a → R b → g a = g b → a = b) :
    (∃! r, ∃ a, R a ∧ r = g a) ↔ ∃! a, R a := by
  constructor
  · intro h
    obtain ⟨r, ⟨a, ha, rfl⟩, hunique⟩ := h
    exact ⟨a, ha, fun b hb => hinj b a hb ha (hunique _ ⟨b, hb, rfl⟩)⟩
  · intro h
    obtain ⟨a, ha, hunique⟩ := h
    refine ⟨g a, ⟨a, ha, rfl⟩, ?_⟩
    rintro r ⟨b, hb, rfl⟩
    rw [hunique b hb]

/-- **Pages shown row by row** are as unique as the pages. -/
theorem existsUnique_shown {W : Type} {f : V → W}
    (hinj : ∀ a ∈ rows, ∀ b ∈ rows, f a = f b → a = b) :
    (∃! r, ∃ page, PageOf key limit rows page ∧ r = page.map (List.map f)) ↔
      ¬ Tied key limit rows := by
  refine (existsUnique_image ?_).trans existsUnique_pageOf
  intro page page' h h' heq
  cases page with
  | none => exact (Option.map_eq_none_iff.mp heq.symm).symm
  | some l =>
      obtain ⟨l', rfl, hl⟩ := Option.map_eq_some_iff.mp heq.symm
      rw [map_inj_of_subset hinj h.subset h'.subset hl.symm]

end Relational
