import Mathlib.Data.List.Infix
import Mathlib.Tactic.Common

/-! Reading until the buffer tells. A loop keeps what has arrived, looks at it
after each read and goes on while it cannot tell yet; between two looks it
remembers only a count. Such a loop is independent of how the input is cut into
reads when its verdict is a function of the buffer that later octets do not
change. -/

namespace ZincioHttp.Lib

open List

variable {β ε ρ σ : Type}

/-- What the wait for input yields: octets (none at the end of the input), a
wake-up without octets, or a failure. -/
inductive Fill (β ε : Type) where
  | read (b : List β)
  | woken
  | failed (e : ε)
deriving DecidableEq, Repr

namespace Fill

def data : Fill β ε → List β
  | read b => b
  | woken => []
  | failed _ => []

/-- The wait yields octets or a wake-up, not an end or a failure. -/
def Live : Fill β ε → Prop
  | read b => b ≠ []
  | woken => True
  | failed _ => False

instance [DecidableEq β] : DecidablePred (Live : Fill β ε → Prop)
  | read b => inferInstanceAs (Decidable (b ≠ []))
  | woken => isTrue trivial
  | failed _ => isFalse id

end Fill

def arriving (fills : List (Fill β ε)) : List β := fills.flatMap Fill.data

@[simp] theorem arriving_nil : arriving ([] : List (Fill β ε)) = [] := rfl

@[simp] theorem arriving_cons (f : Fill β ε) (fills : List (Fill β ε)) :
    arriving (f :: fills) = f.data ++ arriving fills := flatMap_cons

/-- A loop that reads until it can tell: when it ends before the next read, the
count after `n` more octets, and one look at the buffer between two counts. -/
structure Gather (β ρ : Type) where
  stop : ℕ → Option ρ
  count : ℕ → ℕ → ℕ
  look : ℕ → ℕ → List β → Option ρ

/-- How a wait for a verdict ends. -/
inductive Verdict (ε ρ : Type) where
  | told (r : ρ)
  | ended
  | failed (e : ε)
  | waiting
deriving DecidableEq, Repr

/-- The verdict, the buffer, the waits that are left and what the loop did
before its reads. -/
structure Gathered (β ε ρ σ : Type) where
  verdict : Verdict ε ρ
  buf : List β
  fills : List (Fill β ε)
  side : σ

namespace Gather

/-- The loop after its first round; `tick` is done before each wait. -/
def loop (g : Gather β ρ) (tick : σ → σ) : List (Fill β ε) → ℕ → List β → σ → Gathered β ε ρ σ
  | fills, pos, buf, s =>
    match g.stop pos with
    | some r => ⟨.told r, buf, fills, s⟩
    | none =>
      match fills with
      | [] => ⟨.waiting, buf, [], tick s⟩
      | .woken :: rest => loop g tick rest pos buf (tick s)
      | .failed e :: rest => ⟨.failed e, buf, rest, tick s⟩
      | .read [] :: rest => ⟨.ended, buf, rest, tick s⟩
      | .read (b :: bs) :: rest =>
        let new := g.count pos (b :: bs).length
        match g.look pos new (buf ++ b :: bs) with
        | some r => ⟨.told r, buf ++ b :: bs, rest, tick s⟩
        | none => loop g tick rest new (buf ++ b :: bs) (tick s)

theorem loop_of_stop {g : Gather β ρ} {pos : ℕ} {r : ρ} (hs : g.stop pos = some r)
    (tick : σ → σ) (fills : List (Fill β ε)) (buf : List β) (s : σ) :
    g.loop tick fills pos buf s = ⟨.told r, buf, fills, s⟩ := by
  rw [loop.eq_def]
  simp [hs]

theorem loop_of_go {g : Gather β ρ} {pos : ℕ} (hs : g.stop pos = none)
    (tick : σ → σ) (f : Fill β ε) (fills : List (Fill β ε)) (buf : List β) (s : σ) :
    g.loop tick (f :: fills) pos buf s =
      match f with
      | .woken => g.loop tick fills pos buf (tick s)
      | .failed e => ⟨.failed e, buf, fills, tick s⟩
      | .read [] => ⟨.ended, buf, fills, tick s⟩
      | .read (b :: bs) =>
        match g.look pos (g.count pos (b :: bs).length) (buf ++ b :: bs) with
        | some r => ⟨.told r, buf ++ b :: bs, fills, tick s⟩
        | none => g.loop tick fills (g.count pos (b :: bs).length) (buf ++ b :: bs) (tick s) := by
  rw [loop.eq_def]
  simp only [hs]
  cases f with
  | woken => rfl
  | failed e => rfl
  | read b =>
    cases b with
    | nil => rfl
    | cons b bs => rfl

/-- The loop: its first round looks at what is buffered already. -/
def run (g : Gather β ρ) (tick : σ → σ) (fills : List (Fill β ε)) (buf : List β) (s : σ) :
    Gathered β ε ρ σ :=
  match g.stop 0 with
  | some r => ⟨.told r, buf, fills, s⟩
  | none =>
    match buf with
    | [] => loop g tick fills 0 [] s
    | b :: bs =>
      let new := g.count 0 (b :: bs).length
      match g.look 0 new (b :: bs) with
      | some r => ⟨.told r, b :: bs, fills, s⟩
      | none => loop g tick fills new (b :: bs) s

/-- The verdict as a function of the whole buffer: more octets do not change
it, and each look finds it when there was none before. -/
structure Decides (g : Gather β ρ) (seen : ℕ → ℕ) (decide : List β → Option ρ) : Prop where
  count_seen : ∀ m n, g.count (seen m) n = seen (m + n)
  seen_zero : seen 0 = 0
  decide_nil : decide [] = g.stop 0
  look_eq : ∀ buf more, more ≠ [] → decide buf = none →
    (g.look (seen buf.length) (seen (buf ++ more).length) (buf ++ more)).or
      (g.stop (seen (buf ++ more).length)) = decide (buf ++ more)
  stable : ∀ {buf r}, decide buf = some r → ∀ more, decide (buf ++ more) = some r

namespace Decides

variable {g : Gather β ρ} {seen : ℕ → ℕ} {decide : List β → Option ρ}

/-- How a loop ends on an input that is followed by `tail`: with the verdict on what it has seen,
or in front of `tail` with all of the input and no verdict. -/
inductive Outcome (g : Gather β ρ) (tick : σ → σ) (decide : List β → Option ρ) (input : List β)
    (tail : List (Fill β ε)) (result : Gathered β ε ρ σ) : Prop
  | told (r : ρ) (buf : List β) (pieces : List (Fill β ε)) (s : σ)
    (hresult : result = ⟨.told r, buf, pieces ++ tail, s⟩) (hlive : ∀ f ∈ pieces, f.Live)
    (hall : buf ++ arriving pieces = input) (hr : decide buf = some r)
  | undecided (pos : ℕ) (s : σ) (hresult : result = g.loop tick tail pos input s)
    (hstop : g.stop pos = none) (hnone : decide input = none)

section
variable (h : g.Decides seen decide) (tick : σ → σ) {pieces : List (Fill β ε)}
  (hlive : ∀ f ∈ pieces, f.Live) (tail : List (Fill β ε))
include h hlive

theorem loop_outcome (buf : List β) (s : σ) (hstop : g.stop (seen buf.length) = decide buf) :
    Outcome g tick decide (buf ++ arriving pieces) tail
      (g.loop tick (pieces ++ tail) (seen buf.length) buf s) := by
  induction pieces generalizing buf s with
  | nil =>
    rw [arriving_nil, append_nil]
    cases hd : decide buf with
    | some r =>
      exact .told r buf [] s (loop_of_stop (hstop.trans hd) ..) hlive (append_nil _) hd
    | none => exact .undecided _ s rfl (hstop.trans hd) hd
  | cons f pieces ih =>
    cases hd : decide buf with
    | some r => exact .told r buf (f :: pieces) s (loop_of_stop (hstop.trans hd) ..) hlive rfl hd
    | none =>
      have hrest : ∀ f ∈ pieces, f.Live := fun f' hf' => hlive f' (mem_cons_of_mem _ hf')
      have hf : f.Live := hlive f mem_cons_self
      rw [cons_append, loop_of_go (hstop.trans hd)]
      cases f with
      | failed e => exact hf.elim
      | woken => exact ih hrest buf (tick s) hstop
      | read b =>
        cases b with
        | nil => exact absurd rfl hf
        | cons b bs =>
          have hall : (buf ++ b :: bs) ++ arriving pieces =
              buf ++ arriving (.read (b :: bs) :: pieces) := by simp [Fill.data]
          have hlook := h.look_eq buf (b :: bs) (cons_ne_nil b bs) hd
          have hnew : g.count (seen buf.length) (b :: bs).length =
              seen (buf ++ b :: bs).length := by
            rw [h.count_seen, length_append]
          simp only [hnew]
          rw [← hall]
          cases hl : g.look (seen buf.length) (seen (buf ++ b :: bs).length) (buf ++ b :: bs) with
          | some r =>
            rw [hl] at hlook
            exact .told r _ pieces _ rfl hrest rfl hlook.symm
          | none =>
            rw [hl] at hlook
            exact ih hrest _ (tick s) hlook

theorem run_outcome {buf : List β} (s : σ) : Outcome g tick decide (buf ++ arriving pieces) tail
      (g.run tick (pieces ++ tail) buf s) := by
  unfold run
  cases hs : g.stop 0 with
  | some r =>
    have hnil : decide ([] : List β) = some r := h.decide_nil.trans hs
    exact .told r buf pieces s rfl hlive rfl (by simpa using h.stable hnil buf)
  | none =>
    have hnil : decide ([] : List β) = none := h.decide_nil.trans hs
    cases buf with
    | nil =>
      have := h.loop_outcome tick hlive tail [] s
        (by rw [length_nil, h.seen_zero, h.decide_nil])
      rwa [length_nil, h.seen_zero] at this
    | cons b bs =>
      have hlook := h.look_eq [] (b :: bs) (cons_ne_nil b bs) hnil
      rw [nil_append, length_nil, h.seen_zero] at hlook
      have hnew : g.count 0 (b :: bs).length = seen (b :: bs).length := by
        have := h.count_seen 0 (b :: bs).length
        rwa [h.seen_zero, Nat.zero_add] at this
      simp only [hnew]
      cases hl : g.look 0 (seen (b :: bs).length) (b :: bs) with
      | some r =>
        rw [hl] at hlook
        exact .told r _ pieces s rfl hlive rfl hlook.symm
      | none =>
        rw [hl] at hlook
        exact h.loop_outcome tick hlive tail _ s hlook

theorem run_told {buf : List β} {r : ρ} (s : σ) (hr : decide (buf ++ arriving pieces) = some r) :
    ∃ buf' pieces' s', g.run tick (pieces ++ tail) buf s = ⟨.told r, buf', pieces' ++ tail, s'⟩ ∧
      (∀ f ∈ pieces', f.Live) ∧ buf' ++ arriving pieces' = buf ++ arriving pieces ∧
      (decide buf' = some r) := by
  cases h.run_outcome tick hlive tail s with
  | told r' buf' pieces' s' hresult hlive' hall hr' =>
    obtain rfl : r' = r := by
      rw [← hall, h.stable hr'] at hr
      exact Option.some.inj hr
    exact ⟨buf', pieces', s', hresult, hlive', hall, hr'⟩
  | undecided pos s' hresult hstop hnone => cases hr.symm.trans hnone

theorem run_ended {buf : List β} (s : σ) (hnone : decide (buf ++ arriving pieces) = none) :
    (g.run tick (pieces ++ .read [] :: tail) buf s).verdict = .ended := by
  cases h.run_outcome tick hlive (.read [] :: tail) s with
  | told r buf' pieces' s' hresult hlive' hall hr =>
    rw [← hall, h.stable hr] at hnone
    cases hnone
  | undecided pos s' hresult hstop hnone => rw [hresult, loop_of_go hstop]

end

end Decides

end Gather

end ZincioHttp.Lib
