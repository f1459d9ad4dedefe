import Mathlib.Algebra.BigOperators.Group.List.Basic
import Mathlib.Algebra.GroupWithZero.Nat
import Mathlib.Data.List.Infix
import Mathlib.Tactic.Common

/-! Bounded first-in first-out tables, newest entry first. A table of a given
budget holds the longest run of newest entries whose sizes fit; dropping oldest
entries one by one ends at that run. Indices of newest occurrences are tracked
under insertion at the front and removal at the back, which is what a lookup map
beside such a table has to do. -/

namespace ZincioHttp.Lib

open List Function

section Fit
variable {α : Type*} (size : α → ℕ)

def total (l : List α) : ℕ := (l.map size).sum

/-- The longest run of newest entries within `budget`. -/
def fit : ℕ → List α → List α
  | _, [] => []
  | budget, e :: l => if size e ≤ budget then e :: fit (budget - size e) l else []

@[simp] theorem total_nil : total size [] = 0 := rfl

@[simp] theorem total_cons (e : α) (l : List α) : total size (e :: l) = size e + total size l := by
  simp [total]

@[simp] theorem total_append (l l' : List α) :
    total size (l ++ l') = total size l + total size l' := by
  simp [total]

theorem total_fit_le (budget : ℕ) (l : List α) : total size (fit size budget l) ≤ budget := by
  induction l generalizing budget with
  | nil => simp [fit]
  | cons e l ih =>
    rw [fit]
    split_ifs
    · have := ih (budget - size e)
      rw [total_cons]
      omega
    · simp

theorem fit_isPrefix (budget : ℕ) (l : List α) : fit size budget l <+: l := by
  induction l generalizing budget with
  | nil => exact nil_prefix
  | cons e l ih =>
    rw [fit]
    split_ifs
    · exact (cons_prefix_cons).2 ⟨rfl, ih _⟩
    · exact nil_prefix

theorem fit_eq_self {budget : ℕ} {l : List α} (h : total size l ≤ budget) :
    fit size budget l = l := by
  induction l generalizing budget with
  | nil => rfl
  | cons e l ih =>
    rw [total_cons] at h
    rw [fit, if_pos (by omega), ih (by omega)]

/-- A table over its budget loses its oldest entry first. -/
theorem fit_append_singleton {budget : ℕ} {l : List α} {e : α}
    (h : budget < total size (l ++ [e])) : fit size budget (l ++ [e]) = fit size budget l := by
  induction l generalizing budget with
  | nil =>
    simp only [nil_append, total_cons, total_nil, add_zero] at h
    simp [fit, h]
  | cons d l ih =>
    rw [cons_append, total_cons] at h
    rw [cons_append, fit, fit]
    split_ifs
    · rw [ih (by omega)]
    · rfl

theorem fit_fit {b c : ℕ} (l : List α) : fit size b (fit size c l) = fit size (min b c) l := by
  induction l generalizing b c with
  | nil => rfl
  | cons e l ih =>
    by_cases hc : size e ≤ c
    · by_cases hb : size e ≤ b
      · simp only [fit, hc, hb, if_true, ih, show size e ≤ min b c by omega]
        congr 2
        omega
      · rw [fit, if_pos hc, fit, if_neg hb, fit, if_neg (by omega)]
    · rw [fit, if_neg hc, fit, fit, if_neg (by omega)]

theorem length_fit_mono {b c : ℕ} (h : b ≤ c) (l : List α) :
    (fit size b l).length ≤ (fit size c l).length := by
  have hfit := fit_fit size (b := b) (c := c) l
  rw [Nat.min_eq_left h] at hfit
  rw [← hfit]
  exact (fit_isPrefix size _ _).length_le

/-- Keeping a table within its budget at every insertion is the same as cutting
the whole history once. -/
theorem fit_cons_fit (budget : ℕ) (e : α) (l : List α) :
    fit size budget (e :: fit size budget l) = fit size budget (e :: l) := by
  simp only [fit, fit_fit]
  split_ifs
  · rw [Nat.min_eq_left (by omega)]
  · rfl

/-- Older insertions can only have been cut further back. -/
theorem length_fit_append_le (budget : ℕ) (l l' : List α) :
    (fit size budget (l ++ l')).length ≤ l.length + (fit size budget l').length := by
  induction l generalizing budget with
  | nil => simp
  | cons e l ih =>
    rw [cons_append, fit]
    split_ifs
    · have hmono := length_fit_mono size (Nat.sub_le budget (size e)) l'
      have := ih (budget - size e)
      simp only [length_cons]
      omega
    · simp

end Fit

section FirstIdx
variable {α κ : Type*} [DecidableEq κ] (key : α → κ)

/-- Position of the first entry with a key; in a newest-first table, the newest. -/
def firstIdx (l : List α) (k : κ) : Option ℕ := l.findIdx? fun e => decide (key e = k)

@[simp] theorem firstIdx_nil (k : κ) : firstIdx key [] k = none := rfl

theorem firstIdx_cons (e : α) (l : List α) (k : κ) : firstIdx key (e :: l) k =
      if key e = k then some 0 else (firstIdx key l k).map (· + 1) := by
  simp [firstIdx, findIdx?_cons]

theorem firstIdx_append_singleton (l : List α) (e : α) (k : κ) : firstIdx key (l ++ [e]) k =
      match firstIdx key l k with
      | some i => some i
      | none => if key e = k then some l.length else none := by
  induction l with
  | nil => simp [firstIdx_cons]
  | cons d l ih =>
    rw [cons_append, firstIdx_cons, firstIdx_cons, ih]
    by_cases h : key d = k
    · simp [h]
    · cases firstIdx key l k <;> by_cases he : key e = k <;> simp [h]

theorem firstIdx_eq_some {l : List α} {k : κ} {i : ℕ} (h : firstIdx key l k = some i) :
    ∃ e, l[i]? = some e ∧ key e = k := by
  induction l generalizing i with
  | nil => simp at h
  | cons d l ih =>
    rw [firstIdx_cons] at h
    split_ifs at h with hd
    · obtain rfl := Option.some.inj h
      exact ⟨d, rfl, hd⟩
    · obtain ⟨j, hj, rfl⟩ := Option.map_eq_some_iff.1 h
      exact ih hj

theorem firstIdx_lt {l : List α} {k : κ} {i : ℕ} (h : firstIdx key l k = some i) :
    i < l.length := by
  obtain ⟨e, he, -⟩ := firstIdx_eq_some key h
  exact (List.getElem?_eq_some_iff.1 he).1

theorem ne_of_firstIdx_eq_some {l : List α} {k : κ} {i j : ℕ} {e : α}
    (h : firstIdx key l k = some i) (hj : j < i) (he : l[j]? = some e) : key e ≠ k := by
  obtain ⟨_, -, hfirst⟩ := List.findIdx?_eq_some_iff_getElem.1 h
  obtain ⟨_, rfl⟩ := List.getElem?_eq_some_iff.1 he
  simpa using hfirst j hj

theorem ne_of_firstIdx_eq_none {l : List α} {k : κ} {e : α} (h : firstIdx key l k = none)
    (he : e ∈ l) : key e ≠ k := by
  simpa using List.findIdx?_eq_none_iff.1 h e he

/-- Removing the oldest entry removes a key when its newest index was there. -/
theorem firstIdx_of_append_singleton (l : List α) (e : α) (k : κ) : firstIdx key l k =
      if key e = k ∧ firstIdx key (l ++ [e]) k = some l.length then none
      else firstIdx key (l ++ [e]) k := by
  rw [firstIdx_append_singleton]
  cases h : firstIdx key l k with
  | none => by_cases he : key e = k <;> simp
  | some i =>
    have := firstIdx_lt key h
    simp
    omega

/-- A map that stores `index i` for the first position `i` of each key follows an
eviction at the back by dropping the evicted key when it stores that position. -/
theorem update_firstIdx (index : ℕ → ℕ) {m : κ → Option ℕ} {l : List α} {e : α}
    (hinj : ∀ i < l.length, index i ≠ index l.length)
    (hm : ∀ k, m k = (firstIdx key (l ++ [e]) k).map index) (k : κ) :
    (if m (key e) = some (index l.length) then update m (key e) none else m) k =
      (firstIdx key l k).map index := by
  have hkey : m (key e) = some (index l.length) ↔
      firstIdx key (l ++ [e]) (key e) = some l.length := by
    rw [hm, Option.map_eq_some_iff]
    constructor
    · rintro ⟨i, hi, heq⟩
      have hlt := firstIdx_lt key hi
      rw [length_append, length_singleton] at hlt
      have : ¬i < l.length := fun h => hinj i h heq
      rw [hi, show i = l.length by omega]
    · intro h
      exact ⟨_, h, rfl⟩
  rw [firstIdx_of_append_singleton key l e k]
  by_cases he : key e = k
  · subst he
    by_cases hl : firstIdx key (l ++ [e]) (key e) = some l.length
    · simp [hkey, hl]
    · rw [if_neg (hkey.not.2 hl), hm]
      simp [hl]
  · split
    · rw [update_of_ne (Ne.symm he)]
      simp [he, hm]
    · simp [he, hm]

/-- It follows an insertion at the front by storing the new first position. -/
theorem update_cons_firstIdx {index index' : ℕ → ℕ} {m : κ → Option ℕ} {l : List α}
    (hm : ∀ k, m k = (firstIdx key l k).map index)
    (hindex : ∀ i < l.length, index i = index' (i + 1)) (e : α) (k : κ) :
    update m (key e) (some (index' 0)) k = (firstIdx key (e :: l) k).map index' := by
  rw [firstIdx_cons]
  split_ifs with hk
  · rw [← hk, update_self]
    rfl
  · rw [update_of_ne (Ne.symm hk), hm]
    cases hf : firstIdx key l k with
    | none => rfl
    | some i => exact congrArg some (hindex i (firstIdx_lt key hf))

/-- The same for positions counted from the front, which all move on. -/
theorem shift_cons_firstIdx {index : ℕ → ℕ} {m : κ → Option ℕ} {l : List α}
    (hm : ∀ k, m k = (firstIdx key l k).map index) (hindex : ∀ i, index (i + 1) = index i + 1)
    (e : α) (k : κ) :
    update (fun k => (m k).map (· + 1)) (key e) (some (index 0)) k =
      (firstIdx key (e :: l) k).map index := by
  have hshift : ∀ k, (m k).map (· + 1) = (firstIdx key l k).map (index · + 1) := by
    intro k
    rw [hm, Option.map_map]
    rfl
  exact update_cons_firstIdx key hshift (fun i _ => (hindex i).symm) e k

/-- An association list that gives its keys their first position, and covers the
keys of the list, answers every lookup as the scan does. -/
theorem lookup_eq_firstIdx [BEq κ] [LawfulBEq κ] {l : List α} {assoc : List (κ × ℕ)}
    (hsound : ∀ e ∈ assoc, (firstIdx key l e.1).map (· + 1) = some e.2)
    (hcover : ∀ e ∈ l, (assoc.lookup (key e)).isSome) (k : κ) :
    assoc.lookup k = (firstIdx key l k).map (· + 1) := by
  cases h : assoc.lookup k with
  | some i =>
    obtain ⟨l₁, l₂, rfl, -⟩ := List.lookup_eq_some_iff.1 h
    exact (hsound (k, i) (by simp)).symm
  | none =>
    cases hf : firstIdx key l k with
    | none => rfl
    | some i =>
      obtain ⟨e, he, rfl⟩ := firstIdx_eq_some key hf
      have := hcover e (mem_of_getElem? he)
      simp [h] at this

end FirstIdx

end ZincioHttp.Lib
