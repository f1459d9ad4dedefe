import Mathlib.Data.List.Infix
import ZincioHttp.Lib.Framing

/-! A decoder that is fed pieces of a stream. After each piece it is asked for messages
until it has no more. When it yields a message as soon as its code is complete, and waits
as long as it is not, the messages come out whole and in order, however the stream is
cut. -/

namespace ZincioHttp.Lib

open List

variable {α β σ τ ε : Type}

/-- What a decoder does: take octets in, and look for the next message. -/
structure Puller (α β σ ε : Type) where
  extend : σ → List β → σ
  next : σ → Except ε (σ × Option α)

namespace Puller

variable {p : Puller α β σ ε}

/-- Asks for messages until there is none. -/
def pull (p : Puller α β σ ε) : ℕ → σ → Except ε (σ × List α)
  | 0, s => .ok (s, [])
  | fuel + 1, s =>
    match p.next s with
    | .error e => .error e
    | .ok (s, none) => .ok (s, [])
    | .ok (s, some a) =>
      match pull p fuel s with
      | .error e => .error e
      | .ok (s, out) => .ok (s, a :: out)

/-- Takes the pieces one after the other; `fuel` is how often the decoder is asked. -/
def feed (p : Puller α β σ ε) (fuel : σ → ℕ) : σ → List (List β) → Except ε (σ × List α)
  | s, [] => .ok (s, [])
  | s, piece :: pieces =>
    match p.pull (fuel (p.extend s piece)) (p.extend s piece) with
    | .error e => .error e
    | .ok (s, out) =>
      match feed p fuel s pieces with
      | .error e => .error e
      | .ok (s, out') => .ok (s, out ++ out')

/-- The decoder keeps up with a stream of messages: `R` relates its state to what is
buffered and to the messages whose codes that begins. -/
structure Keeps (p : Puller α β σ ε) (code : α → List β) (R : σ → List β → List α → Prop) :
    Prop where
  extend : ∀ {s buf todo} piece, R s buf todo → R (p.extend s piece) (buf ++ piece) todo
  yield : ∀ {s rest a todo}, R s (code a ++ rest) (a :: todo) →
    ∃ s', p.next s = .ok (s', some a) ∧ R s' rest todo
  wait : ∀ {s buf todo}, R s buf todo → Partial code buf todo →
    ∃ s', p.next s = .ok (s', none) ∧ R s' buf todo
  code_ne_nil : ∀ {s buf a todo}, R s buf (a :: todo) → code a ≠ []

variable {code : α → List β} {R : σ → List β → List α → Prop}

namespace Keeps

/-- One piece: the messages it completes come out, and part of the next one stays. -/
theorem pull_eq (h : Keeps p code R) (todo : List α) : ∀ (fuel : ℕ) {s : σ} {buf : List β},
    R s buf todo → buf <+: todo.flatMap code → buf.length < fuel →
    ∃ done later rest s', todo = done ++ later ∧ buf = done.flatMap code ++ rest ∧
      Partial code rest later ∧ R s' rest later ∧ p.pull fuel s = .ok (s', done) := by
  induction todo with
  | nil =>
    intro fuel s buf hR hbuf hfuel
    have hpartial : Partial code buf [] := ⟨hbuf, by simp⟩
    obtain ⟨fuel, rfl⟩ : ∃ n, fuel = n + 1 := ⟨fuel - 1, by omega⟩
    obtain ⟨s', hnext, hR'⟩ := h.wait hR hpartial
    exact ⟨[], [], buf, s', rfl, rfl, hpartial, hR', by rw [pull, hnext]⟩
  | cons a todo ih =>
    intro fuel s buf hR hbuf hfuel
    obtain ⟨fuel, rfl⟩ : ∃ n, fuel = n + 1 := ⟨fuel - 1, by omega⟩
    by_cases hlen : (code a).length ≤ buf.length
    · obtain ⟨tail, rfl⟩ : code a <+: buf :=
        prefix_of_prefix_length_le (prefix_append _ _) hbuf hlen
      have hpos := List.length_pos_iff.2 (h.code_ne_nil hR)
      obtain ⟨s₁, hnext, hR₁⟩ := h.yield hR
      rw [length_append] at hfuel
      obtain ⟨done, later, rest, s', rfl, rfl, hpartial, hR', hpull⟩ :=
        ih fuel hR₁ ((prefix_append_right_inj _).1 hbuf) (by omega)
      refine ⟨a :: done, later, rest, s', rfl, by simp, hpartial, hR', ?_⟩
      simp [pull, hnext, hpull]
    · have hpartial : Partial code buf (a :: todo) := by
        refine ⟨by simpa using hbuf, ?_⟩
        rintro b later hcons
        cases hcons
        omega
      obtain ⟨s', hnext, hR'⟩ := h.wait hR hpartial
      exact ⟨[], a :: todo, buf, s', rfl, rfl, hpartial, hR', by rw [pull, hnext]⟩

theorem feed_eq (h : Keeps p code R) {fuel : σ → ℕ}
    (hfuel : ∀ {s buf todo}, R s buf todo → buf.length < fuel s) (pieces : List (List β)) :
    ∀ {s : σ} {buf : List β} {todo : List α}, R s buf todo → Partial code buf todo →
      buf ++ pieces.flatten <+: todo.flatMap code →
      ∃ done later rest s', todo = done ++ later ∧
        buf ++ pieces.flatten = done.flatMap code ++ rest ∧ Partial code rest later ∧
        R s' rest later ∧ p.feed fuel s pieces = .ok (s', done) := by
  induction pieces with
  | nil =>
    intro s buf todo hR hpartial hbuf
    exact ⟨[], todo, buf, s, rfl, by simp, hpartial, hR, rfl⟩
  | cons piece pieces ih =>
    intro s buf todo hR hpartial hbuf
    rw [flatten_cons, ← append_assoc] at hbuf
    have hR₁ := h.extend piece hR
    obtain ⟨done, later, rest, s₁, rfl, hsplit, hpartial₁, hR₁', hpull⟩ :=
      h.pull_eq todo _ hR₁ ((prefix_append _ _).trans hbuf) (hfuel hR₁)
    rw [hsplit, flatMap_append, append_assoc] at hbuf
    obtain ⟨done', later', rest', s', rfl, hsplit', hpartial', hR', hfeed⟩ :=
      ih hR₁' hpartial₁ ((prefix_append_right_inj _).1 hbuf)
    refine ⟨done ++ done', later', rest', s', by simp, ?_, hpartial', hR', ?_⟩
    · rw [flatten_cons, ← append_assoc, hsplit, append_assoc, hsplit', flatMap_append, append_assoc]
    · simp [feed, hpull, hfeed]

/-- The whole stream: all messages come out, and nothing is left. -/
theorem feed_all (h : Keeps p code R) {fuel : σ → ℕ}
    (hfuel : ∀ {s buf todo}, R s buf todo → buf.length < fuel s) {pieces : List (List β)} {s : σ}
    {todo : List α} (hR : R s [] todo) (hne : ∀ a ∈ todo, code a ≠ [])
    (hpieces : pieces.flatten = todo.flatMap code) :
    ∃ s', R s' [] [] ∧ p.feed fuel s pieces = .ok (s', todo) := by
  have hpos : ∀ a later, todo = a :: later → 0 < (code a).length := by
    rintro a later rfl
    exact List.length_pos_iff.2 (hne a (by simp))
  have hempty : Partial code [] todo := And.intro nil_prefix hpos
  obtain ⟨done, later, rest, s', rfl, hsplit, hpartial, hR', hfeed⟩ :=
    h.feed_eq hfuel pieces hR hempty (by rw [nil_append, hpieces])
  rw [nil_append, hpieces, flatMap_append] at hsplit
  obtain rfl := hpartial.todo_eq_nil (append_cancel_left hsplit).symm
  obtain rfl := hpartial.eq_nil
  exact ⟨s', hR', by rw [hfeed, append_nil]⟩

end Keeps

/-! ### Any stream -/

/-- What an answer is worth when `x` has arrived: a message stands, and what waits goes on. -/
def afterwards (p : Puller α β σ ε) (x : List β) : σ × Option α → Except ε (σ × Option α)
  | (s, some a) => .ok (p.extend s x, some a)
  | (s, none) => p.next (p.extend s x)

/-- A decoder that loses nothing by being asked early. -/
structure Steady (p : Puller α β σ ε) (size : σ → ℕ) : Prop where
  extend : ∀ s x y, p.extend (p.extend s x) y = p.extend s (x ++ y)
  next : ∀ s x, p.next (p.extend s x) = p.next s >>= p.afterwards x
  size_extend : ∀ s x, size (p.extend s x) = size s + x.length
  size_next : ∀ {s s' a}, p.next s = .ok (s', a) → size s' + a.isSome.toNat ≤ size s

namespace Steady

variable {size : σ → ℕ}

/-- Asking more often than needed makes no difference. -/
theorem pull_fuel (h : Steady p size) (n : ℕ) : ∀ {m : ℕ} {s : σ}, size s < n → size s < m →
    p.pull n s = p.pull m s := by
  induction n with
  | zero => exact fun hn => by cases hn
  | succ n ih =>
    intro m s hn hm
    obtain ⟨m, rfl⟩ : ∃ k, m = k + 1 := ⟨m - 1, by omega⟩
    rw [pull, pull]
    split
    · rfl
    · rfl
    · next s₁ a hnext =>
      have hlt : size s₁ + 1 ≤ size s := h.size_next hnext
      rw [@ih m s₁ (by omega) (by omega)]

/-- Asking before `x` arrives and again afterwards is asking once. -/
theorem pull_extend (h : Steady p size) (x : List β) (n : ℕ) : ∀ {m : ℕ} {s : σ}, size s < n →
    size s + x.length < m → p.pull m (p.extend s x) = p.pull n s >>= fun r =>
      (p.pull (size (p.extend r.1 x) + 1) (p.extend r.1 x)).map fun q => (q.1, r.2 ++ q.2) := by
  induction n with
  | zero => exact fun hn => by cases hn
  | succ n ih =>
    intro m s hn hm
    obtain ⟨m, rfl⟩ : ∃ k, m = k + 1 := ⟨m - 1, by omega⟩
    rw [pull, pull, h.next]
    cases hnext : p.next s with
    | error e => rfl
    | ok r =>
      obtain ⟨s₁, _ | a⟩ := r
      · have hle : size s₁ ≤ size s := h.size_next hnext
        have hpull := h.pull_fuel (m + 1) (by rw [h.size_extend]; omega)
          (Nat.lt_succ_self (size (p.extend s₁ x)))
        rw [pull] at hpull
        simp only [bind, Except.bind, afterwards, hpull]
        cases p.pull (size (p.extend s₁ x) + 1) (p.extend s₁ x) <;> rfl
      · have hlt : size s₁ + 1 ≤ size s := h.size_next hnext
        simp only [bind, Except.bind, afterwards, @ih m s₁ (by omega) (by omega)]
        rcases p.pull n s₁ with e | r
        · rfl
        · dsimp only
          cases p.pull (size (p.extend r.1 x) + 1) (p.extend r.1 x) <;> rfl

/-- However the stream is cut, it is decoded as if it came in one piece. -/
theorem feed_flatten (h : Steady p size) (pieces : List (List β)) : ∀ (s : σ) (piece : List β),
    p.feed (size · + 1) s (piece :: pieces) =
      p.feed (size · + 1) s [piece ++ pieces.flatten] := by
  have hone : ∀ s piece, p.feed (size · + 1) s [piece] =
      p.pull (size (p.extend s piece) + 1) (p.extend s piece) := by
    intro s piece
    rw [feed]
    cases p.pull (size (p.extend s piece) + 1) (p.extend s piece) <;> simp [feed]
  induction pieces with
  | nil => simp
  | cons next pieces ih =>
    intro s piece
    have hnext := h.pull_extend (next ++ pieces.flatten) _
      (Nat.lt_succ_self (size (p.extend s piece))) (Nat.lt_succ_self _)
    rw [feed, hone, flatten_cons, ← h.extend, h.size_extend (p.extend s piece), hnext]
    rcases p.pull (size (p.extend s piece) + 1) (p.extend s piece) with e | r
    · rfl
    · simp only [bind, Except.bind, ih, hone]
      cases p.pull _ (p.extend r.1 (next ++ pieces.flatten)) <;> rfl

end Steady

/-! ### Refinement -/

/-- `f` shows the states of one decoder as those of another that does the same. -/
structure Refines (p : Puller α β σ ε) (q : Puller α β τ ε) (f : σ → τ) : Prop where
  extend : ∀ s x, f (p.extend s x) = q.extend (f s) x
  next : ∀ s, (p.next s).map (Prod.map f id) = q.next (f s)

namespace Refines

variable {q : Puller α β τ ε} {f : σ → τ}

theorem pull (h : Refines p q f) (fuel : ℕ) : ∀ s,
    (p.pull fuel s).map (Prod.map f id) = q.pull fuel (f s) := by
  induction fuel with
  | zero => exact fun _ => rfl
  | succ fuel ih =>
    intro s
    rw [Puller.pull, Puller.pull, ← h.next]
    rcases p.next s with e | ⟨s₁, _ | a⟩
    · rfl
    · rfl
    · simp only [Except.map, Prod.map, id, ← ih]
      cases p.pull fuel s₁ <;> rfl

theorem feed (h : Refines p q f) (fuel' : τ → ℕ) {fuel : σ → ℕ}
    (hfuel : ∀ s, fuel s = fuel' (f s)) (pieces : List (List β)) : ∀ s,
      (p.feed fuel s pieces).map (Prod.map f id) = q.feed fuel' (f s) pieces := by
  induction pieces with
  | nil => exact fun _ => rfl
  | cons piece pieces ih =>
    intro s
    rw [Puller.feed, Puller.feed, ← h.extend, ← hfuel, ← h.pull]
    rcases p.pull (fuel (p.extend s piece)) (p.extend s piece) with e | ⟨s₁, out⟩
    · rfl
    · simp only [Except.map, Prod.map, id, ← ih]
      cases p.feed fuel s₁ pieces <;> rfl

end Refines

end Puller

end ZincioHttp.Lib
