import Mathlib.Data.List.Infix
import Mathlib.Tactic.Common

/-! The first place where a word occurs in a list. A search that found nothing
in an initial part may go on a little before the end of that part: no
occurrence lies earlier. -/

namespace ZincioHttp.Lib

open List

variable {α : Type} [DecidableEq α]

/-- The index of the first occurrence of `needle`. -/
def find (needle : List α) : List α → Option ℕ
  | [] => if needle = [] then some 0 else none
  | x :: hay => if needle <+: x :: hay then some 0 else (find needle hay).map (· + 1)

variable {needle hay : List α} {i k : ℕ}

theorem find_eq_some_iff : find needle hay = some i ↔
    needle <+: hay.drop i ∧ i ≤ hay.length ∧ ∀ j < i, ¬needle <+: hay.drop j := by
  induction hay generalizing i with
  | nil =>
    rw [find]
    split_ifs with h
    · subst h
      constructor
      · rintro ⟨⟩
        simp
      · rintro ⟨-, hi, -⟩
        rw [Nat.le_zero.1 hi]
    · simp [h]
  | cons x hay ih =>
    rw [find]
    split_ifs with h
    · constructor
      · rintro ⟨⟩
        exact ⟨h, Nat.zero_le _, fun j hj => absurd hj (Nat.not_lt_zero j)⟩
      · rintro ⟨-, -, hfirst⟩
        cases i with
        | zero => rfl
        | succ i => exact absurd h (hfirst 0 (Nat.succ_pos i))
    · cases i with
      | zero =>
        constructor
        · intro hm
          simp at hm
        · rintro ⟨h', -, -⟩
          exact absurd h' h
      | succ i =>
        rw [Option.map_eq_some_iff]
        constructor
        · rintro ⟨j, hj, hji⟩
          obtain rfl : j = i := Nat.succ.inj hji
          obtain ⟨hp, hle, hfirst⟩ := ih.1 hj
          refine ⟨hp, Nat.succ_le_succ hle, ?_⟩
          rintro (_ | m) hm
          · exact h
          · exact hfirst m (Nat.lt_of_succ_lt_succ hm)
        · rintro ⟨hp, hle, hfirst⟩
          exact ⟨i, ih.2 ⟨hp, Nat.le_of_succ_le_succ hle,
            fun j hj => hfirst (j + 1) (Nat.succ_lt_succ hj)⟩, rfl⟩

theorem find_eq_none_iff (hn : needle ≠ []) :
    find needle hay = none ↔ ∀ i, ¬needle <+: hay.drop i := by
  constructor
  · intro hnone i
    -- the least occurrence would have been found
    induction i using Nat.strong_induction_on with
    | _ i ih =>
      intro hp
      have hle : i ≤ hay.length := by
        by_contra hlt
        rw [drop_eq_nil_of_le (by omega)] at hp
        exact hn (List.prefix_nil.1 hp)
      rw [find_eq_some_iff.2 ⟨hp, hle, ih⟩] at hnone
      cases hnone
  · intro h
    cases hf : find needle hay with
    | none => rfl
    | some i => exact absurd (find_eq_some_iff.1 hf).1 (h i)

omit [DecidableEq α] in
/-- An occurrence in an initial part is one that ends there. -/
theorem prefix_drop_take_iff (hn : needle ≠ []) :
    needle <+: (hay.take k).drop i ↔ needle <+: hay.drop i ∧ i + needle.length ≤ k := by
  rw [List.drop_take, List.prefix_take_iff]
  have := List.length_pos_iff.2 hn
  constructor
  · rintro ⟨hp, hle⟩
    exact ⟨hp, by omega⟩
  · rintro ⟨hp, hle⟩
    exact ⟨hp, by omega⟩

theorem find_take_eq_some_iff (hn : needle ≠ []) :
    find needle (hay.take k) = some i ↔ find needle hay = some i ∧ i + needle.length ≤ k := by
  simp only [find_eq_some_iff, prefix_drop_take_iff hn, length_take]
  constructor
  · rintro ⟨⟨hp, hk⟩, hle, hfirst⟩
    refine ⟨⟨hp, by omega, ?_⟩, hk⟩
    intro j hj hpj
    exact hfirst j hj ⟨hpj, by omega⟩
  · rintro ⟨⟨hp, hle, hfirst⟩, hk⟩
    exact ⟨⟨hp, hk⟩, by omega, fun j hj hpj => hfirst j hj hpj.1⟩

/-- What was found in an initial part is found in the whole. -/
theorem find_append_of_some (hn : needle ≠ []) (more : List α) (h : find needle hay = some i) :
    find needle (hay ++ more) = some i := by
  have htake : find needle ((hay ++ more).take hay.length) = some i := by
    rwa [take_left']
    rfl
  exact ((find_take_eq_some_iff hn).1 htake).1

theorem find_lt_of_some (h : find needle hay = some i) : i + needle.length ≤ hay.length := by
  obtain ⟨hp, hle, -⟩ := find_eq_some_iff.1 h
  have := hp.length_le
  rw [length_drop] at this
  omega

/-- After an initial part without an occurrence the search may go on from
where an occurrence could begin that ends after this part. -/
theorem find_resume (hn : needle ≠ []) {m : ℕ} (hm : m + 1 = needle.length) {p : ℕ}
    (hnone : find needle (hay.take p) = none) :
    (find needle (hay.drop (p - m))).map (p - m + ·) = find needle hay := by
  have hearly : ∀ j < p - m, ¬needle <+: hay.drop j := by
    intro j hj hp
    refine (find_eq_none_iff hn).1 hnone j ?_
    exact (prefix_drop_take_iff hn).2 ⟨hp, by omega⟩
  cases hf : find needle (hay.drop (p - m)) with
  | some i =>
    obtain ⟨hp, hle, hfirst⟩ := find_eq_some_iff.1 hf
    rw [drop_drop] at hp
    refine (find_eq_some_iff.2 ⟨hp, ?_, ?_⟩).symm
    · have hlen := hp.length_le
      rw [length_drop] at hlen
      omega
    · intro j hj hpj
      by_cases hjm : j < p - m
      · exact hearly j hjm hpj
      · refine hfirst (j - (p - m)) (by omega) ?_
        rwa [drop_drop, show p - m + (j - (p - m)) = j by omega]
  | none =>
    refine ((find_eq_none_iff hn).2 ?_).symm
    intro j hpj
    by_cases hjm : j < p - m
    · exact hearly j hjm hpj
    · refine (find_eq_none_iff hn).1 hf (j - (p - m)) ?_
      rwa [drop_drop, show p - m + (j - (p - m)) = j by omega]

/-- A word whose first letter does not occur before it is found at once. -/
theorem find_append_of_not_mem {a : α} {w text : List α} (rest : List α) (h : a ∉ text) :
    find (a :: w) (text ++ a :: w ++ rest) = some text.length := by
  refine find_eq_some_iff.2 ⟨?_, ?_, ?_⟩
  · rw [append_assoc, drop_left']
    · exact prefix_append _ _
    · rfl
  · simp
  · intro j hj hp
    refine h ?_
    rw [append_assoc, drop_append_of_le_length hj.le] at hp
    obtain ⟨y, ys, hy⟩ : ∃ y ys, text.drop j = y :: ys :=
      exists_cons_of_length_pos (by rw [length_drop]; omega)
    rw [hy, cons_append, cons_prefix_cons] at hp
    rw [hp.1]
    exact mem_of_mem_drop (hy ▸ mem_cons_self)

/-- The search passes over a text in which no occurrence begins. -/
theorem find_append_of_forall_not {text : List α} (rest : List α)
    (h : ∀ j < text.length, ¬needle <+: (text ++ rest).drop j) :
    find needle (text ++ rest) = (find needle rest).map (text.length + ·) := by
  induction text with
  | nil => simp
  | cons a text ih =>
    have hhead : ¬needle <+: a :: (text ++ rest) := h 0 (Nat.succ_pos _)
    have htail := ih fun j hj => h (j + 1) (Nat.succ_lt_succ hj)
    rw [cons_append, find, if_neg hhead, htail, Option.map_map, length_cons]
    congr 1
    funext i
    simp only [Function.comp]
    omega

end ZincioHttp.Lib
