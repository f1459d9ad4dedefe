import Mathlib.Data.List.Infix
import Mathlib.Tactic.Common

/-! Cutting a byte stream into messages. A reader keeps what it has received so
far, measures the first message, handles it once it is complete and keeps the
rest. When every message is measured exactly, and only once it is complete, a
reader fed an initial part of a stream of messages handles the complete ones in
order and keeps a part of the next. -/

namespace ZincioHttp.Lib

open List

variable {α β σ τ ε : Type}

/-- Handles complete messages from the front of `data`; `measure` gives the
length of the first one, if that can be told yet. -/
def drain (measure : List β → Option ℕ) (handle : σ → List β → Except ε σ) :
    ℕ → σ → List β → Except ε (σ × List β)
  | 0, s, data => .ok (s, data)
  | fuel + 1, s, data =>
    match measure data with
    | none => .ok (s, data)
    | some len =>
      if data.length < len then .ok (s, data)
      else
        match handle s (data.take len) with
        | .error e => .error e
        | .ok s => drain measure handle fuel s (data.drop len)

/-- The messages that are complete in the data. -/
def messages (measure : List β → Option ℕ) : ℕ → List β → List (List β)
  | 0, _ => []
  | fuel + 1, data =>
    match measure data with
    | none => []
    | some len =>
      if data.length < len then [] else data.take len :: messages measure fuel (data.drop len)

def handleAll (step : σ → α → Except ε σ) : σ → List α → Except ε σ
  | s, [] => .ok s
  | s, a :: rest =>
    match step s a with
    | .error e => .error e
    | .ok s => handleAll step s rest

/-- The message `a` is measured exactly, and only once it is complete. -/
def Framed (measure : List β → Option ℕ) (code : α → List β) (a : α) : Prop :=
  code a ≠ [] ∧ ∀ buf rest, buf <+: code a ++ rest →
    measure buf = if (code a).length ≤ buf.length then some (code a).length else none

/-- It is enough to look at what begins like the message. -/
theorem Framed.of_first {measure : List β → Option ℕ} {code : α → List β} {a : α} {first : β}
    {tail : List β} (hcode : code a = first :: tail) (hnil : measure [] = none)
    (h : ∀ buf rest, first :: buf <+: code a ++ rest → measure (first :: buf) =
      if (code a).length ≤ (first :: buf).length then some (code a).length else none) :
    Framed measure code a := by
  refine ⟨by simp [hcode], fun buf rest hbuf => ?_⟩
  cases buf with
  | nil => simp [hnil, hcode]
  | cons b buf =>
    obtain rfl : b = first := by
      rw [hcode, cons_append, cons_prefix_cons] at hbuf
      exact hbuf.1
    exact h buf rest hbuf

/-- What is left in front of a stream of messages: part of the first one. -/
def Partial (code : α → List β) (rest : List β) (todo : List α) : Prop :=
  rest <+: todo.flatMap code ∧ ∀ a later, todo = a :: later → rest.length < (code a).length

variable {measure : List β → Option ℕ} {code : α → List β}

namespace Partial

variable {rest : List β} {todo : List α}

theorem eq_nil (h : Partial code rest []) : rest = [] := by
  have := h.1
  simpa using this

/-- Messages that are sent later do not complete the first one. -/
theorem append (h : Partial code rest todo) {more : List α} (hmore : ∀ a ∈ more, code a ≠ []) :
    Partial code rest (todo ++ more) := by
  cases todo with
  | nil =>
    rw [h.eq_nil]
    have hpos : ∀ a later, more = a :: later → 0 < (code a).length := by
      rintro a later rfl
      exact List.length_pos_iff.2 (hmore a (by simp))
    exact And.intro nil_prefix hpos
  | cons b todo =>
    refine ⟨?_, ?_⟩
    · rw [flatMap_append]
      exact h.1.trans (prefix_append _ _)
    · intro a later hcons
      obtain ⟨rfl, -⟩ := cons.inj hcons
      exact h.2 b todo rfl

/-- If all that was sent has arrived, nothing is left to handle. -/
theorem todo_eq_nil (h : Partial code rest todo) (hall : rest = todo.flatMap code) : todo = [] := by
  cases todo with
  | nil => rfl
  | cons a todo =>
    have hlt := h.2 a todo rfl
    rw [hall, flatMap_cons, length_append] at hlt
    omega

end Partial

theorem length_le_flatMap {msgs : List α} (h : ∀ a ∈ msgs, code a ≠ []) :
    msgs.length ≤ (msgs.flatMap code).length := by
  induction msgs with
  | nil => exact le_rfl
  | cons a msgs ih =>
    have hpos := List.length_pos_iff.2 (h a (by simp))
    have := ih fun b hb => h b (by simp [hb])
    rw [flatMap_cons, length_cons, length_append]
    omega

/-- Draining an initial part of a stream handles the complete messages in
order. -/
theorem drain_eq (hnil : measure [] = none) (handle : σ → List β → Except ε σ)
    (msgs : List α) : ∀ (fuel : ℕ) (s : σ) (data : List β), data.length ≤ fuel →
    (∀ a ∈ msgs, Framed measure code a) → data <+: msgs.flatMap code →
    ∃ done todo rest, msgs = done ++ todo ∧ data = done.flatMap code ++ rest ∧
      Partial code rest todo ∧
      drain measure handle fuel s data =
        (handleAll (fun s a => handle s (code a)) s done).map (·, rest) := by
  induction msgs with
  | nil =>
    intro fuel s data _ _ hdata
    have hd : data = [] := by simpa using hdata
    subst hd
    refine ⟨[], [], [], rfl, rfl, ⟨by simp, by simp⟩, ?_⟩
    cases fuel with
    | zero => rfl
    | succ fuel => simp [drain, hnil, handleAll, Except.map]
  | cons a msgs ih =>
    intro fuel s data hfuel hframed hdata
    obtain ⟨hne, hmeasure⟩ := hframed a (by simp)
    have hm := hmeasure data _ hdata
    have hpos : 0 < (code a).length := List.length_pos_iff.2 hne
    by_cases hlen : (code a).length ≤ data.length
    · -- the first message is complete
      rw [if_pos hlen] at hm
      obtain ⟨tail, rfl⟩ : code a <+: data :=
        prefix_of_prefix_length_le (prefix_append _ _) hdata hlen
      have htail : tail <+: msgs.flatMap code := (prefix_append_right_inj _).1 hdata
      obtain ⟨fuel, rfl⟩ : ∃ n, fuel = n + 1 := ⟨fuel - 1, by omega⟩
      rw [length_append] at hfuel
      rw [drain, hm]
      simp only [length_append, show ¬(code a).length + tail.length < (code a).length by omega,
        if_false, take_left', drop_left']
      cases hh : handle s (code a) with
      | error e =>
        obtain ⟨done, todo, rest, rfl, rfl, hpart, -⟩ := ih fuel s tail (by omega)
          (fun b hb => hframed b (by simp [hb])) htail
        exact ⟨a :: done, todo, rest, rfl, by simp, hpart, by simp [handleAll, hh, Except.map]⟩
      | ok s' =>
        obtain ⟨done, todo, rest, rfl, rfl, hpart, hdrain⟩ := ih fuel s' tail (by omega)
          (fun b hb => hframed b (by simp [hb])) htail
        exact ⟨a :: done, todo, rest, rfl, by simp, hpart, by simp [handleAll, hh, hdrain]⟩
    · -- it is not, and the reader waits
      rw [if_neg hlen] at hm
      refine ⟨[], a :: msgs, data, rfl, rfl, ⟨by simpa using hdata, ?_⟩, ?_⟩
      · rintro b later hcons
        cases hcons
        omega
      · cases fuel with
        | zero => rfl
        | succ fuel => simp [drain, hm, handleAll, Except.map]

/-! ### What a drain keeps -/

/-- A record kept beside the state, one message at a time, stays related to it. -/
theorem drain_foldl {handle : σ → List β → Except ε σ} {R : σ → τ → Prop} (note : τ → List β → τ)
    (hstep : ∀ {s m s' t}, R s t → handle s m = .ok s' → R s' (note t m)) (fuel : ℕ) :
    ∀ {s s' : σ} {t : τ} {data rest : List β}, R s t →
    drain measure handle fuel s data = .ok (s', rest) →
    R s' ((messages measure fuel data).foldl note t) := by
  induction fuel with
  | zero =>
    intro s s' t data rest hr h
    cases h
    exact hr
  | succ fuel ih =>
    intro s s' t data rest hr h
    rw [drain] at h
    rw [messages]
    cases hm : measure data with
    | none =>
      rw [hm] at h
      cases h
      exact hr
    | some len =>
      rw [hm] at h
      dsimp only at h ⊢
      split_ifs at h ⊢
      · cases h
        exact hr
      · cases hh : handle s (data.take len) with
        | error e => simp [hh] at h
        | ok u =>
          rw [hh] at h
          exact ih (hstep hr hh) h

/-- A relation that every message keeps is kept. -/
theorem drain_rel {handle : σ → List β → Except ε σ} {R : σ → σ → Prop} (hrefl : ∀ s, R s s)
    (htrans : ∀ {s t u}, R s t → R t u → R s u)
    (hstep : ∀ {s m s'}, handle s m = .ok s' → R s s') (fuel : ℕ) {s s' : σ} {data rest : List β}
    (h : drain measure handle fuel s data = .ok (s', rest)) : R s s' :=
  drain_foldl (R := fun u _ => R s u) (t := ()) (fun _ _ => ())
    (fun hr hh => htrans hr (hstep hh)) fuel (hrefl s) h

end ZincioHttp.Lib
