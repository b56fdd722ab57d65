/-
  NixWire.Base.Stamps — a stream of chunks with a stamp each.

  `stampAt` is the stamp of the chunk that holds an offset of the joined stream. `starts`
  is the index a reader of the joined stream keeps: where each chunk starts, with its
  stamp. For chunks that are not empty, the stamp is the last one in the index that starts
  at or before the offset (`starts_split`).
-/

import Mathlib.Data.List.Basic

namespace NixWire.Base

variable {α τ : Type*}

def stampAt : List (List α × τ) → Nat → Option τ
  | [], _ => none
  | c :: cs, offset => if offset < c.1.length then some c.2 else stampAt cs (offset - c.1.length)

/-- Where the chunks start, the first one at `start`. -/
def starts : Nat → List (List α × τ) → List (Nat × τ)
  | _, [] => []
  | start, c :: cs => (start, c.2) :: starts (start + c.1.length) cs

def joined (cs : List (List α × τ)) : List α := (cs.map Prod.fst).flatten

theorem joined_cons (c : List α × τ) (cs : List (List α × τ)) : joined (c :: cs) = c.1 ++ joined cs := rfl

/-- The chunk before which `before` stands holds the offsets from there to its end. -/
theorem stampAt_iff {cs : List (List α × τ)} {offset : Nat} {t : τ} : stampAt cs offset = some t ↔
    ∃ before c after, cs = before ++ (c, t) :: after ∧ (joined before).length ≤ offset ∧
      offset < (joined before).length + c.length := by
  induction cs generalizing offset with
  | nil => simp [stampAt]
  | cons c cs ih =>
    unfold stampAt
    constructor
    · intro h
      by_cases hlt : offset < c.1.length
      · rw [if_pos hlt] at h
        cases h
        exact ⟨[], c.1, cs, rfl, Nat.zero_le _, by simpa [joined] using hlt⟩
      · rw [if_neg hlt] at h
        obtain ⟨before, d, after, rfl, hlo, hhi⟩ := ih.mp h
        refine ⟨c :: before, d, after, rfl, ?_, ?_⟩
        · rw [joined_cons, List.length_append]
          omega
        · rw [joined_cons, List.length_append]
          omega
    · intro h
      obtain ⟨before, d, after, heq, hlo, hhi⟩ := h
      cases before with
      | nil =>
        cases heq
        rw [if_pos (by simpa [joined] using hhi)]
      | cons b before =>
        cases heq
        rw [joined_cons, List.length_append] at hlo hhi
        rw [if_neg (by omega)]
        exact ih.mpr ⟨before, d, after, rfl, by omega, by omega⟩

theorem exists_stampAt {cs : List (List α × τ)} {offset : Nat} (h : offset < (joined cs).length) :
    ∃ t, stampAt cs offset = some t := by
  induction cs generalizing offset with
  | nil => cases h
  | cons c cs ih =>
    unfold stampAt
    by_cases hlt : offset < c.1.length
    · rw [if_pos hlt]
      exact ⟨c.2, rfl⟩
    · rw [if_neg hlt]
      rw [joined_cons, List.length_append] at h
      exact ih (by omega)

/-- Later offsets have later stamps, if later chunks do. -/
theorem stampAt_mono {r : τ → τ → Prop} (hrefl : ∀ t, r t t) {cs : List (List α × τ)}
    (h : cs.Pairwise fun c d => r c.2 d.2) {a b : Nat} (hab : a ≤ b) {ta tb : τ} (ha : stampAt cs a = some ta)
    (hb : stampAt cs b = some tb) : r ta tb := by
  induction cs generalizing a b with
  | nil => cases ha
  | cons c cs ih =>
    obtain ⟨hhead, htail⟩ := List.pairwise_cons.mp h
    unfold stampAt at ha hb
    by_cases hlt : b < c.1.length
    · rw [if_pos (by omega)] at ha
      rw [if_pos hlt] at hb
      cases ha
      cases hb
      exact hrefl _
    · rw [if_neg hlt] at hb
      by_cases hlt' : a < c.1.length
      · rw [if_pos hlt'] at ha
        cases ha
        obtain ⟨before, d, after, rfl, -⟩ := stampAt_iff.mp hb
        exact hhead (d, tb) (by simp)
      · rw [if_neg hlt'] at ha
        exact ih htail (by omega) ha hb

theorem starts_ge {start : Nat} {cs : List (List α × τ)} : ∀ p ∈ starts start cs, start ≤ p.1 := by
  induction cs generalizing start with
  | nil => simp [starts]
  | cons c cs ih =>
    intro p hp
    rcases List.mem_cons.mp hp with rfl | hp
    · exact Nat.le_refl _
    · have := ih p hp
      omega

/-- The index around the chunk that holds the offset. -/
theorem starts_split {start : Nat} {cs : List (List α × τ)} (hne : ∀ c ∈ cs, c.1 ≠ []) {offset : Nat} {t : τ}
    (h : stampAt cs offset = some t) : ∃ before o after, starts start cs = before ++ (o, t) :: after ∧
      (∀ p ∈ before, p.1 < o) ∧ o ≤ start + offset ∧ ∀ p ∈ after, start + offset < p.1 := by
  induction cs generalizing start offset with
  | nil => cases h
  | cons c cs ih =>
    obtain ⟨hc, hcs⟩ := List.forall_mem_cons.mp hne
    have hpos := List.length_pos_iff.mpr hc
    unfold stampAt at h
    by_cases hlt : offset < c.1.length
    · rw [if_pos hlt] at h
      cases h
      refine ⟨[], start, starts (start + c.1.length) cs, rfl, by simp, by omega, fun p hp => ?_⟩
      have := starts_ge p hp
      omega
    · rw [if_neg hlt] at h
      obtain ⟨before, o, after, heq, hbefore, ho, hafter⟩ := @ih (start + c.1.length) hcs (offset - c.1.length) h
      have hstart : start + c.1.length ≤ o := starts_ge (o, t) (by rw [heq]; simp)
      refine ⟨(start, c.2) :: before, o, after, by rw [starts, heq]; rfl, fun p hp => ?_, by omega, fun p hp => ?_⟩
      · rcases List.mem_cons.mp hp with rfl | hp
        · show start < o
          omega
        · exact hbefore p hp
      · have := hafter p hp
        omega

end NixWire.Base
