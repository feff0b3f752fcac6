/-
Decimal text of integers, and texts that are joined or trimmed.

A text is parsed the way fixed-width integers are: an optional sign, then digits and
nothing else, at least one of them.  Every integer is read back from its own text, so no
two have the same.  Joined texts can be told apart if none contains what stands between them.
A trimmed text is what is left between blanks.
-/
import Mathlib.Data.List.DropRight
import Mathlib.Data.List.TakeWhile

namespace Numeric

/-- Digits, at least one. -/
def parseDigits (cs : List Char) : Option Nat :=
  if cs ≠ [] ∧ cs.all Char.isDigit = true then some (Nat.ofDigitChars 10 cs 0) else none

/-- Digits after an optional sign. -/
def parseInteger (s : String) : Option Int :=
  match s.toList with
  | '-' :: cs => (parseDigits cs).map fun n : Nat => -(n : Int)
  | '+' :: cs => (parseDigits cs).map fun n : Nat => (n : Int)
  | cs => (parseDigits cs).map fun n : Nat => (n : Int)

theorem isDigit_of_mem_repr {n : Nat} {c : Char} (h : c ∈ n.repr.toList) : c.isDigit = true := by
  rw [Nat.toList_repr] at h
  exact Nat.isDigit_of_mem_toDigits (by decide) (by decide) h

theorem parseDigits_repr (n : Nat) : parseDigits n.repr.toList = some n := by
  have hdigits : n.repr.toList.all Char.isDigit = true :=
    List.all_eq_true.mpr fun c hc => isDigit_of_mem_repr hc
  have hne : n.repr.toList ≠ [] := by
    rw [Nat.toList_repr]
    exact Nat.toDigits_ne_nil
  unfold parseDigits
  rw [if_pos ⟨hne, hdigits⟩, Nat.toList_repr, Nat.ofDigitChars_ten_toDigits]

/-- Only a negative number starts with a sign. -/
theorem head?_repr_eq_minus {n : Int} : n.repr.toList.head? = some '-' ↔ n < 0 := by
  rw [Int.repr_eq_if]
  by_cases hn : 0 ≤ n
  · rw [if_pos hn]
    refine ⟨fun h => ?_, fun h => absurd h (by omega)⟩
    have hdigit := isDigit_of_mem_repr (List.mem_of_mem_head? h)
    exact absurd hdigit (by decide)
  · rw [if_neg hn]
    refine ⟨fun _ => by omega, fun _ => ?_⟩
    rw [String.toList_append]
    rfl

/-- **An integer is read back from its text.** -/
theorem parseInteger_repr (n : Int) : parseInteger n.repr = some n := by
  rw [Int.repr_eq_if]
  by_cases hn : 0 ≤ n
  · rw [if_pos hn]
    have hparsed := parseDigits_repr n.toNat
    have hminus : ∀ cs, n.toNat.repr.toList ≠ '-' :: cs := fun cs h =>
      absurd (isDigit_of_mem_repr (h ▸ List.mem_cons_self ..)) (by decide)
    have hplus : ∀ cs, n.toNat.repr.toList ≠ '+' :: cs := fun cs h =>
      absurd (isDigit_of_mem_repr (h ▸ List.mem_cons_self ..)) (by decide)
    unfold parseInteger
    split
    · exact absurd ‹_› (hminus _)
    · exact absurd ‹_› (hplus _)
    · rw [hparsed, Option.map_some, Int.toNat_of_nonneg hn]
  · rw [if_neg hn]
    unfold parseInteger
    rw [String.toList_append]
    show (parseDigits (-n).toNat.repr.toList).map (fun n : Nat => -(n : Int)) = some n
    rw [parseDigits_repr, Option.map_some]
    congr 1
    omega

/-- **No two integers have the same text.** -/
theorem repr_injective {m n : Int} (h : m.repr = n.repr) : m = n := by
  have hm := parseInteger_repr m
  rw [h, parseInteger_repr] at hm
  exact (Option.some.inj hm).symm

/-! ### Joined texts -/

/-- **Texts can be told apart when they are joined** by a character none of them contains. -/
theorem intercalate_injective {c : Char} {l l' : List String} (h : ∀ s ∈ l, c ∉ s.toList)
    (h' : ∀ s ∈ l', c ∉ s.toList) (hl : l ≠ []) (hl' : l' ≠ [])
    (heq : (String.singleton c).intercalate l = (String.singleton c).intercalate l') : l = l' := by
  have hsplit : ∀ {l : List String}, (∀ s ∈ l, c ∉ s.toList) → l ≠ [] →
      ((String.singleton c).intercalate l).toList.splitOn c = l.map String.toList := by
    intro l h hl
    rw [String.toList_intercalate, String.toList_singleton, List.splitOn_intercalate]
    · intro t ht
      obtain ⟨s, hs, rfl⟩ := List.mem_map.mp ht
      exact h s hs
    · simpa using hl
  have htexts : l.map String.toList = l'.map String.toList := by
    rw [← hsplit h hl, ← hsplit h' hl', heq]
  exact (List.map_inj_right fun _ _ => String.ext).mp htexts

/-- The text of a number has digits and perhaps a sign. -/
theorem notMem_repr {c : Char} (hdigit : c.isDigit = false) (hsign : c ≠ '-') (n : Int) :
    c ∉ n.repr.toList := by
  have hnat : ∀ n : Nat, c ∉ n.repr.toList := fun n hc =>
    absurd ((isDigit_of_mem_repr hc).symm.trans hdigit) (by simp)
  rw [Int.repr_eq_if]
  by_cases hn : 0 ≤ n
  · rw [if_pos hn]
    exact hnat _
  · rw [if_neg hn, String.toList_append, List.mem_append]
    intro h
    rcases h with h | h
    · exact hsign (List.mem_singleton.mp h)
    · exact hnat _ h

/-! ### Trimmed texts -/

section Trim

variable {α : Type} {blank : α → Bool} {l t r : List α}

/-- Without the blanks at both ends. -/
def trim (blank : α → Bool) (l : List α) : List α := (l.dropWhile blank).rdropWhile blank

/-- No blank at either end. -/
def Trimmed (blank : α → Bool) (t : List α) : Prop :=
  t.dropWhile blank = t ∧ t.rdropWhile blank = t

theorem trimmed_trim : Trimmed blank (trim blank l) := by
  refine ⟨List.dropWhile_eq_self_iff.mpr fun hlen => ?_, List.rdropWhile_idempotent _ _⟩
  -- It starts as what is left of the blanks in front does.
  obtain ⟨r, hr⟩ : trim blank l <+: l.dropWhile blank := List.rdropWhile_prefix _ _
  have hpos : 0 < (l.dropWhile blank).length := by
    rw [← hr, List.length_append]
    omega
  have hfirst : (trim blank l)[0] = (l.dropWhile blank)[0] := by
    simp only [← hr, List.getElem_append_left hlen]
  rw [hfirst]
  exact List.dropWhile_get_zero_not _ l hpos

theorem exists_blanks_trim (blank : α → Bool) (l : List α) :
    ∃ before after, (∀ a ∈ before, blank a = true) ∧ (∀ a ∈ after, blank a = true) ∧
      l = before ++ trim blank l ++ after := by
  refine ⟨l.takeWhile blank, (l.dropWhile blank).rtakeWhile blank,
    fun a ha => List.mem_takeWhile_imp ha, fun a ha => List.mem_rtakeWhile_imp ha, ?_⟩
  rw [List.append_assoc, trim, List.rdropWhile_append_rtakeWhile, List.takeWhile_append_dropWhile]

theorem trim_append_of_blank (hl : ∀ a ∈ l, blank a = true) (hr : ∀ a ∈ r, blank a = true)
    (ht : Trimmed blank t) : trim blank (l ++ t ++ r) = t := by
  have hdrop : ((l ++ t ++ r).dropWhile blank) = (t ++ r).dropWhile blank := by
    rw [List.append_assoc, List.dropWhile_append_of_pos hl]
  have hright : (t ++ r).rdropWhile blank = t := by
    rw [← ht.2]
    unfold List.rdropWhile
    rw [List.reverse_append, List.dropWhile_append_of_pos fun a ha => hr a (List.mem_reverse.mp ha)]
    rw [List.reverse_reverse, List.dropWhile_idempotent]
  rw [trim, hdrop]
  cases t with
  | nil =>
      have hnil : r.dropWhile blank = [] := List.dropWhile_eq_nil_iff.mpr hr
      rw [List.nil_append, hnil, List.rdropWhile_nil]
  | cons a t =>
      have hfirst : ¬ blank a = true := by
        have := List.dropWhile_eq_self_iff.mp ht.1 (by simp)
        simpa using this
      rw [List.cons_append, List.dropWhile_cons_of_neg hfirst, ← List.cons_append, hright]

/-- **A trimmed text is what is left between blanks.** -/
theorem trim_eq_iff :
    trim blank l = t ↔ Trimmed blank t ∧ ∃ before after, (∀ a ∈ before, blank a = true) ∧
      (∀ a ∈ after, blank a = true) ∧ l = before ++ t ++ after := by
  constructor
  · rintro rfl
    exact ⟨trimmed_trim, exists_blanks_trim blank l⟩
  · rintro ⟨ht, before, after, hbefore, hafter, rfl⟩
    exact trim_append_of_blank hbefore hafter ht

end Trim

end Numeric
