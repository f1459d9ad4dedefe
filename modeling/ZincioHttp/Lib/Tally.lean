import Mathlib.Data.Finset.Card
import Mathlib.Data.List.Count
import Mathlib.Tactic.Common

/-! Counting by key. A tally holds one entry for each key that occurs, with the
number of its occurrences, so that its length is the number of distinct keys. -/

namespace ZincioHttp.Lib.Tally

open List

variable {κ : Type} [DecidableEq κ]

def has (m : List (κ × ℕ)) (k : κ) : Bool := m.any fun e => decide (e.1 = k)

/-- Changes the count of a key. -/
def update (m : List (κ × ℕ)) (k : κ) (f : ℕ → ℕ) : List (κ × ℕ) :=
  m.map fun e => if e.1 = k then (e.1, f e.2) else e

/-- One more occurrence of a key, whose entry is created when it is the first. -/
def add (m : List (κ × ℕ)) (k : κ) : List (κ × ℕ) :=
  if has m k then update m k (· + 1) else m ++ [(k, 1)]

/-- One occurrence less; the entry goes with the last one. -/
def remove (m : List (κ × ℕ)) (k : κ) : List (κ × ℕ) :=
  match m.lookup k with
  | none => m
  | some count =>
    if count = 1 then m.filter fun e => decide (e.1 ≠ k)
    else update m k (· - 1)

/-- The tally of the keys in `l`. -/
structure Counts (m : List (κ × ℕ)) (l : List κ) : Prop where
  nodup : (m.map Prod.fst).Nodup
  mem_iff : ∀ k n, (k, n) ∈ m ↔ n = l.count k ∧ 0 < n

theorem map_fst_update (m : List (κ × ℕ)) (k : κ) (f : ℕ → ℕ) :
    (update m k f).map Prod.fst = m.map Prod.fst := by
  rw [update, map_map]
  apply map_congr_left
  intro e _
  by_cases h : e.1 = k <;> simp [h]

theorem mem_update {m : List (κ × ℕ)} {k k' : κ} {f : ℕ → ℕ} {n : ℕ} :
    (k', n) ∈ update m k f ↔ if k' = k then ∃ c, (k, c) ∈ m ∧ f c = n else (k', n) ∈ m := by
  rw [update, mem_map]
  constructor
  · rintro ⟨⟨a, c⟩, hmem, heq⟩
    by_cases ha : a = k
    · simp only [ha, if_true, Prod.mk.injEq] at heq
      rw [if_pos heq.1.symm]
      exact ⟨c, ha ▸ hmem, heq.2⟩
    · simp only [ha] at heq
      obtain ⟨rfl, rfl⟩ := heq
      rwa [if_neg ha]
  · split_ifs with hk
    · rintro ⟨c, hmem, rfl⟩
      exact ⟨(k, c), hmem, by simp [hk]⟩
    · intro hmem
      exact ⟨(k', n), hmem, by simp [hk]⟩

namespace Counts

variable {m : List (κ × ℕ)} {l : List κ} {k : κ}

theorem empty : Counts ([] : List (κ × ℕ)) [] :=
  ⟨.nil, by simp⟩

theorem has_iff (h : Counts m l) : has m k = true ↔ k ∈ l := by
  simp only [has, any_eq_true, decide_eq_true_eq, Prod.exists, exists_and_right]
  constructor
  · rintro ⟨a, ⟨n, hmem⟩, rfl⟩
    obtain ⟨rfl, hpos⟩ := (h.mem_iff a n).1 hmem
    exact count_pos_iff.1 hpos
  · intro hk
    exact ⟨k, ⟨_, (h.mem_iff k _).2 ⟨rfl, count_pos_iff.2 hk⟩⟩, rfl⟩

theorem fst_mem (h : Counts m l) {a : κ} (ha : a ∈ m.map Prod.fst) : a ∈ l := by
  obtain ⟨⟨a, n⟩, hmem, rfl⟩ := mem_map.1 ha
  obtain ⟨rfl, hpos⟩ := (h.mem_iff a n).1 hmem
  exact count_pos_iff.1 hpos

theorem add (h : Counts m l) (k : κ) : Counts (add m k) (l ++ [k]) := by
  unfold Tally.add
  by_cases hk : k ∈ l
  · rw [if_pos (h.has_iff.2 hk)]
    refine ⟨by rw [map_fst_update]; exact h.nodup, fun k' n => ?_⟩
    rw [mem_update, count_append]
    by_cases hkk : k' = k
    · subst hkk
      have hpos := count_pos_iff.2 hk
      simp only [h.mem_iff, count_singleton_self]
      constructor
      · rintro ⟨c, ⟨rfl, -⟩, rfl⟩
        omega
      · rintro ⟨rfl, -⟩
        exact ⟨_, ⟨rfl, hpos⟩, rfl⟩
    · rw [if_neg hkk, h.mem_iff,
        count_eq_zero_of_not_mem (a := k') (l := [k]) (by simpa using hkk), Nat.add_zero]
  · rw [if_neg (by rw [h.has_iff]; exact hk)]
    refine ⟨?_, fun k' n => ?_⟩
    · rw [map_append, nodup_append]
      refine ⟨h.nodup, by simp, ?_⟩
      rintro a ha b hb rfl
      obtain rfl : a = k := by simpa using hb
      exact hk (h.fst_mem ha)
    · rw [mem_append, h.mem_iff, mem_singleton, count_append, Prod.mk.injEq]
      by_cases hkk : k' = k
      · subst hkk
        rw [count_singleton_self, count_eq_zero_of_not_mem hk]
        simp only [true_and]
        omega
      · rw [count_eq_zero_of_not_mem (a := k') (l := [k]) (by simpa using hkk)]
        simp [hkk]

theorem lookup_cons (h : Counts m (k :: l)) : m.lookup k = some (l.count k + 1) := by
  have hmem : (k, l.count k + 1) ∈ m := (h.mem_iff _ _).2 ⟨by simp, by omega⟩
  cases hl : m.lookup k with
  | none =>
    have := lookup_eq_none_iff.1 hl _ hmem
    simp at this
  | some c =>
    obtain ⟨l₁, l₂, rfl, -⟩ := lookup_eq_some_iff.1 hl
    obtain ⟨rfl, -⟩ := (h.mem_iff k c).1 (by simp)
    rw [count_cons_self]

theorem remove (h : Counts m (k :: l)) : Counts (remove m k) l := by
  rw [Tally.remove, h.lookup_cons]
  simp only [Nat.add_eq_right]
  split_ifs with hk
  · refine ⟨h.nodup.sublist (filter_sublist.map _), fun k' n => ?_⟩
    rw [mem_filter, h.mem_iff]
    by_cases hkk : k' = k
    · subst hkk
      simp [hk]
    · rw [count_cons_of_ne (Ne.symm hkk)]
      simp [hkk]
  · refine ⟨by rw [map_fst_update]; exact h.nodup, fun k' n => ?_⟩
    rw [mem_update]
    by_cases hkk : k' = k
    · subst hkk
      simp only [h.mem_iff, count_cons_self]
      constructor
      · rintro ⟨c, ⟨rfl, -⟩, rfl⟩
        omega
      · rintro ⟨rfl, -⟩
        exact ⟨_, ⟨rfl, by omega⟩, rfl⟩
    · rw [if_neg hkk, h.mem_iff, count_cons_of_ne (Ne.symm hkk)]

theorem length_le_card (h : Counts m l) {s : Finset κ} (hl : ∀ a ∈ l, a ∈ s) :
    m.length ≤ s.card := by
  have hsub : (m.map Prod.fst).toFinset ⊆ s := fun a ha => hl a (h.fst_mem (mem_toFinset.1 ha))
  have := Finset.card_le_card hsub
  rwa [toFinset_card_of_nodup h.nodup, length_map] at this

/-- A new key makes the number of distinct keys one larger, and that is at most
the number of keys there are. -/
theorem length_lt_card (h : Counts m l) {s : Finset κ} (hl : ∀ a ∈ l, a ∈ s) (hk : k ∈ s)
    (hnew : k ∉ l) : m.length < s.card := by
  have hsub : (m.map Prod.fst).toFinset ⊂ s := by
    rw [Finset.ssubset_iff_of_subset]
    · exact ⟨k, hk, fun hmem => hnew (h.fst_mem (mem_toFinset.1 hmem))⟩
    · intro a ha
      exact hl a (h.fst_mem (mem_toFinset.1 ha))
  have := Finset.card_lt_card hsub
  rwa [toFinset_card_of_nodup h.nodup, length_map] at this

end Counts

end ZincioHttp.Lib.Tally
