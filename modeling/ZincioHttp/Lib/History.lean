import Mathlib.Data.List.Basic

/-! Properties of the elements of a list that may refer to what comes before them, such as
those of a log: each entry is judged by the entries before it. -/

namespace ZincioHttp.Lib

open List

variable {α : Type*} {P Q : List α → α → Prop}

/-- Every element is in `P` with the elements before it. -/
def Historic (P : List α → α → Prop) (l : List α) : Prop :=
  ∀ before x after, l = before ++ x :: after → P before x

namespace Historic

variable {l l' : List α}

theorem nil : Historic P [] := by
  intro before x after h
  simp at h

theorem append (h : Historic P l) (h' : Historic (fun before x => P (l ++ before) x) l') :
    Historic P (l ++ l') := by
  intro before x after heq
  rcases List.append_eq_append_iff.1 heq with ⟨more, rfl, hl'⟩ | ⟨more, hl, hafter⟩
  · exact h' more x after hl'
  cases more with
  | nil =>
    obtain rfl : l = before := by simpa using hl
    have hx : P (l ++ []) x := h' [] x after hafter.symm
    rwa [append_nil] at hx
  | cons y more =>
    obtain ⟨rfl, -⟩ := cons.inj hafter
    exact h before x more hl

theorem singleton {x : α} (h : P [] x) : Historic P [x] := by
  intro before y after heq
  cases before with
  | nil =>
    obtain ⟨rfl, -⟩ := cons.inj heq
    exact h
  | cons z before =>
    obtain ⟨-, hnil⟩ := cons.inj heq
    simp at hnil

theorem concat_iff {x : α} : Historic P (l ++ [x]) ↔ Historic P l ∧ P l x := by
  constructor
  · intro h
    refine ⟨fun before y after heq => h before y (after ++ [x]) ?_, h l x [] rfl⟩
    rw [heq, append_assoc, cons_append]
  · rintro ⟨h, hx⟩
    refine h.append (.singleton ?_)
    rwa [append_nil]

theorem of_mem (h : ∀ x ∈ l, ∀ before, P before x) : Historic P l := by
  intro before x after heq
  exact h x (heq ▸ by simp) before

theorem mono (h : Historic P l) (hPQ : ∀ before x, P before x → Q before x) : Historic Q l :=
  fun before x after heq => hPQ before x (h before x after heq)

end Historic

/-! ### What is added to a list -/

/-- The second list goes on after the first one with elements of `P`. -/
def Adds (P : α → Prop) (l l' : List α) : Prop := ∃ w, l' = l ++ w ∧ ∀ x ∈ w, P x

namespace Adds

variable {P Q : α → Prop} {l l' l'' : List α} {x : α}

theorem none (h : l' = l) : Adds P l l' := ⟨[], h.trans (append_nil l).symm, nofun⟩

theorem one (hx : P x) (h : l' = l ++ [x]) : Adds P l l' :=
  ⟨[x], h, fun _ hy => List.mem_singleton.1 hy ▸ hx⟩

theorem trans (h : Adds P l l') (h' : Adds P l' l'') : Adds P l l'' := by
  obtain ⟨w, rfl, hw⟩ := h
  obtain ⟨w', rfl, hw'⟩ := h'
  exact ⟨w ++ w', append_assoc l w w', List.forall_mem_append.2 ⟨hw, hw'⟩⟩

theorem grows (h : Adds P l l') : ∃ w, l' = l ++ w := h.imp fun _ hw => hw.1

theorem mem (h : Adds P l l') (hx : x ∈ l) : x ∈ l' := by
  obtain ⟨w, rfl, -⟩ := h
  exact mem_append_left w hx

end Adds

end ZincioHttp.Lib
