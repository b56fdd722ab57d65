/-
  NixWire.Base.Tally — grouping in a hash map, and the top of a list.

  A loop that steps the map's entry of each element's key (`tally`) leaves, for each key,
  the fold over the elements with that key in their order (`lookup_tally`). A `HashOrder`
  is the order in which a hash map lists its entries: some order, each entry once
  (`mem_iter_tally`, `iter_keys_nodup`).

  - `sum_fibers`: weights summed key by key over distinct keys that occur sum to the
    whole list's.
  - `le_of_omitted`: what the first few of a descending list leave out is above none of
    them.
-/

import Mathlib.Algebra.BigOperators.Group.Finset.Piecewise
import Mathlib.Data.List.AList
import Mathlib.Data.UInt

namespace NixWire.Base

variable {ι κ β : Type}

/-! ## The entries of a hash map -/

/-- The order in which a hash map lists its entries: the hasher's choice. -/
structure HashOrder where
  list : {α : Type} → List α → List α
  perm : ∀ {α : Type} (l : List α), (list l).Perm l

def HashOrder.iter (order : HashOrder) (m : AList fun _ : κ => β) : List (κ × β) :=
  order.list (m.entries.map fun e => (e.1, e.2))

theorem iter_keys_perm (order : HashOrder) (m : AList fun _ : κ => β) : ((order.iter m).map Prod.fst).Perm m.keys := by
  unfold HashOrder.iter
  have h := (order.perm (m.entries.map fun e => (e.1, e.2))).map Prod.fst
  rw [List.map_map] at h
  exact h

theorem iter_keys_nodup (order : HashOrder) (m : AList fun _ : κ => β) : ((order.iter m).map Prod.fst).Nodup :=
  (iter_keys_perm order m).nodup_iff.mpr m.keys_nodup

variable [DecidableEq κ]

theorem mem_iter (order : HashOrder) {m : AList fun _ : κ => β} {k : κ} {b : β} :
    (k, b) ∈ order.iter m ↔ m.lookup k = some b := by
  unfold HashOrder.iter
  rw [(order.perm _).mem_iff, ← Option.mem_def, AList.mem_lookup_iff, List.mem_map]
  constructor
  · intro h
    obtain ⟨⟨k', b'⟩, hm, heq⟩ := h
    cases heq
    exact hm
  · intro h
    exact ⟨⟨k, b⟩, h, rfl⟩

/-! ## Tallies -/

/-- The elements of `l` with the key `k`. -/
def having (key : ι → Option κ) (k : κ) (l : List ι) : List ι := l.filter fun i => key i = some k

/-- `*entry(key).or_default()` is stepped by an element with a key. -/
def tallyStep (key : ι → Option κ) (zero : β) (step : β → ι → β) (m : AList fun _ : κ => β) (i : ι) :
    AList fun _ : κ => β :=
  match key i with
  | some k => m.insert k (step ((m.lookup k).getD zero) i)
  | none => m

def tally (key : ι → Option κ) (zero : β) (step : β → ι → β) (l : List ι) : AList fun _ : κ => β :=
  l.foldl (tallyStep key zero step) ∅

variable {key : ι → Option κ} {zero : β} {step : β → ι → β}

theorem having_concat (k : κ) (l : List ι) (i : ι) :
    having key k (l ++ [i]) = having key k l ++ if key i = some k then [i] else [] := by
  unfold having
  rw [List.filter_append]
  by_cases h : key i = some k <;> simp [h]

theorem having_ne_nil {k : κ} {l : List ι} : having key k l ≠ [] ↔ ∃ i ∈ l, key i = some k := by
  unfold having
  rw [Ne, List.filter_eq_nil_iff]
  simp

theorem lookup_tallyStep (m : AList fun _ : κ => β) (i : ι) (k : κ) : (tallyStep key zero step m i).lookup k =
    if key i = some k then some (step ((m.lookup k).getD zero) i) else m.lookup k := by
  unfold tallyStep
  cases hi : key i with
  | none => rw [if_neg (by simp)]
  | some k' =>
    by_cases h : k' = k
    · rw [h, if_pos rfl]
      exact AList.lookup_insert m
    · rw [if_neg (by simpa using h)]
      exact AList.lookup_insert_ne (Ne.symm h)

/-- The entry of a key is the fold over the elements with it. -/
theorem lookup_tally (k : κ) (l : List ι) : (tally key zero step l).lookup k =
    if having key k l = [] then none else some ((having key k l).foldl step zero) := by
  induction l using List.reverseRecOn with
  | nil => rfl
  | append_singleton l i ih =>
    have hrun : tally key zero step (l ++ [i]) = tallyStep key zero step (tally key zero step l) i := by
      unfold tally
      rw [List.foldl_append]
      rfl
    rw [hrun, lookup_tallyStep, ih, having_concat]
    by_cases h : key i = some k
    · have hne : having key k l ++ [i] ≠ [] := by simp
      rw [if_pos h, if_pos h, if_neg hne, List.foldl_append]
      by_cases h0 : having key k l = []
      · rw [if_pos h0, h0]
        rfl
      · rw [if_neg h0]
        rfl
    · rw [if_neg h, if_neg h, List.append_nil]

theorem mem_iter_tally (order : HashOrder) {l : List ι} {k : κ} {b : β} : (k, b) ∈ order.iter (tally key zero step l) ↔
    having key k l ≠ [] ∧ b = (having key k l).foldl step zero := by
  rw [mem_iter, lookup_tally]
  by_cases h : having key k l = []
  · simp [h]
  · simp [h, eq_comm]

theorem mem_iter_keys (order : HashOrder) {l : List ι} {k : κ} :
    k ∈ (order.iter (tally key zero step l)).map Prod.fst ↔ ∃ i ∈ l, key i = some k := by
  rw [(iter_keys_perm order _).mem_iff, ← AList.mem_keys, ← AList.lookup_isSome, lookup_tally, ← having_ne_nil]
  by_cases h : having key k l = [] <;> simp [h]

/-! ## Sums over groups -/

/-- What the elements of each key weigh, summed over distinct keys that cover the list. -/
theorem sum_fibers {M : Type} [AddCommMonoid M] (name : ι → κ) (weight : ι → M) {names : List κ} (hnodup : names.Nodup) :
    ∀ {l : List ι}, (∀ i ∈ l, name i ∈ names) →
      (names.map fun k => ((l.filter fun i => name i = k).map weight).sum).sum = (l.map weight).sum := by
  intro l hl
  induction l with
  | nil => simp
  | cons i l ih =>
    obtain ⟨hi, hl⟩ := List.forall_mem_cons.mp hl
    have hcons : ∀ k, (((i :: l).filter fun i => name i = k).map weight).sum =
        (if k = name i then weight i else 0) + ((l.filter fun i => name i = k).map weight).sum := by
      intro k
      by_cases h : k = name i
      · simp [h]
      · simp [h, Ne.symm h]
    have hone : (names.map fun k => if k = name i then weight i else 0).sum = weight i := by
      rw [← List.sum_toFinset _ hnodup, Finset.sum_ite_eq', if_pos (List.mem_toFinset.mpr hi)]
    simp only [hcons, List.sum_map_add, hone, ih hl, List.map_cons, List.sum_cons]

/-- A sum of 64-bit numbers is the sum's low 64 bits. -/
theorem sum_ofNat (l : List Nat) : (l.map UInt64.ofNat).sum = UInt64.ofNat l.sum := by
  induction l with
  | nil => rfl
  | cons n l ih => rw [List.map_cons, List.sum_cons, List.sum_cons, ih, UInt64.ofNat_add]

/-! ## Sorted lists -/

section

variable {α : Type}

theorem pairwise_sort {r : α → α → Prop} [DecidableRel r] (htrans : ∀ {a b c}, r a b → r b c → r a c)
    (htotal : ∀ {a b}, r a b ∨ r b a) (l : List α) : (l.mergeSort fun a b => decide (r a b)).Pairwise r := by
  have ht : ∀ a b c, decide (r a b) = true → decide (r b c) = true → decide (r a c) = true := by
    intro a b c hab hbc
    simp only [decide_eq_true_eq] at hab hbc ⊢
    exact htrans hab hbc
  have hl : ∀ a b, (decide (r a b) || decide (r b a)) = true := by
    intro a b
    simp only [Bool.or_eq_true, decide_eq_true_eq]
    exact htotal
  simpa only [decide_eq_true_eq] using List.pairwise_mergeSort ht hl l

/-- An element that the first few of a descending list leave out is above none of them. -/
theorem le_of_omitted {γ : Type} [LE γ] [DecidableLE γ] [Std.IsLinearPreorder γ] (rank : α → γ) {l : List α} {n : Nat} {a b : α}
    (ha : a ∈ (l.mergeSort fun a b => decide (rank b ≤ rank a)).take n) (hb : b ∈ l)
    (hout : b ∉ (l.mergeSort fun a b => decide (rank b ≤ rank a)).take n) : rank b ≤ rank a := by
  have hsorted := pairwise_sort (r := fun a b => rank b ≤ rank a) (fun hab hbc => Std.le_trans hbc hab) Std.le_total l
  rw [← List.mem_mergeSort, ← List.take_append_drop n (l.mergeSort _), List.mem_append] at hb
  rw [← List.take_append_drop n (l.mergeSort _), List.pairwise_append] at hsorted
  rcases hb with hb | hb
  · exact absurd hb hout
  · exact hsorted.2.2 a ha b hb

end

end NixWire.Base
