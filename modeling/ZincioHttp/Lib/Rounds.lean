import Mathlib.Tactic.Common

/-! Polling in rounds. A round is a list of stages; each may fail, change the state
and report progress. Rounds follow one another until something can be handed out
or a round makes no progress. An invariant of the stages is one of the whole; a
measure that progress lowers tells how many rounds there can be. -/

namespace ZincioHttp.Lib

variable {σ ε β : Type}

/-- The stages in order; progress of one is progress of the round. -/
def runStages : List (σ → Except ε (σ × Bool)) → σ → Except ε (σ × Bool)
  | [], s => .ok (s, false)
  | f :: rest, s =>
    match f s with
    | .error e => .error e
    | .ok (s, progressed) =>
      (runStages rest s).map fun r => (r.1, progressed || r.2)

/-- Rounds until `pop` hands something out or nothing happens any more. -/
def pollLoop (pop : σ → Option (β × σ)) (round : σ → Except ε (σ × Bool)) :
    ℕ → σ → Except ε (σ × Option β)
  | 0, s => .ok (s, none)
  | fuel + 1, s =>
    match pop s with
    | some (b, s) => .ok (s, some b)
    | none =>
      match round s with
      | .error e => .error e
      | .ok (s, true) => pollLoop pop round fuel s
      | .ok (s, false) => .ok (s, none)

section Stages

variable {stages : List (σ → Except ε (σ × Bool))} {s s' : σ} {progressed : Bool}

theorem exists_of_runStages_cons {f : σ → Except ε (σ × Bool)}
    (h : runStages (f :: stages) s = .ok (s', progressed)) : ∃ t b b', f s = .ok (t, b) ∧
      runStages stages t = .ok (s', b') ∧ progressed = (b || b') := by
  rw [runStages] at h
  cases hf : f s with
  | error e => rw [hf] at h; cases h
  | ok x =>
    obtain ⟨t, b⟩ := x
    rw [hf] at h
    dsimp only at h
    cases hrest : runStages stages t with
    | error e => rw [hrest] at h; cases h
    | ok y =>
      rw [hrest] at h
      cases h
      exact ⟨t, b, y.2, rfl, hrest, rfl⟩

section Rel

variable {R : σ → σ → Prop} (hrefl : ∀ s, R s s) (htrans : ∀ {s t u}, R s t → R t u → R s u)

include hrefl htrans

/-- What holds between the states before and after each stage. -/
theorem runStages_rel
    (hstage : ∀ f ∈ stages, ∀ {s s' b}, f s = .ok (s', b) → R s s') :
    ∀ {s s' : σ} {progressed : Bool}, runStages stages s = .ok (s', progressed) → R s s' := by
  induction stages with
  | nil =>
    intro s s' progressed h
    cases h
    exact hrefl _
  | cons f stages ih =>
    intro s s' progressed h
    obtain ⟨t, b, b', hf, hrest, -⟩ := exists_of_runStages_cons h
    exact htrans (hstage f (by simp) hf)
      (ih (fun g hg => hstage g (List.mem_cons_of_mem f hg)) hrest)

/-- A failure of the round is one of a stage, in a state that the stages before it
have led to. -/
theorem runStages_error
    (hstage : ∀ f ∈ stages, ∀ {s s' b}, f s = .ok (s', b) → R s s') {e : ε} :
    ∀ {s : σ}, runStages stages s = .error e → ∃ f ∈ stages, ∃ t, R s t ∧ f t = .error e := by
  induction stages with
  | nil =>
    intro s h
    cases h
  | cons f stages ih =>
    intro s h
    rw [runStages] at h
    cases hf : f s with
    | error e' =>
      rw [hf] at h
      cases h
      exact ⟨f, by simp, s, hrefl s, hf⟩
    | ok x =>
      obtain ⟨t, b⟩ := x
      rw [hf] at h
      dsimp only at h
      cases hrest : runStages stages t with
      | ok y => rw [hrest] at h; cases h
      | error e' =>
        rw [hrest] at h
        cases h
        obtain ⟨g, hg, u, hu, hfail⟩ :=
          ih (fun g hg => hstage g (List.mem_cons_of_mem f hg)) hrest
        exact ⟨g, List.mem_cons_of_mem f hg, u, htrans (hstage f (by simp) hf) hu, hfail⟩

end Rel

/-- A measure that no stage raises and progress lowers. -/
theorem runStages_measure {μ : σ → ℕ}
    (hstage : ∀ f ∈ stages, ∀ {s s' b}, f s = .ok (s', b) → μ s' + b.toNat ≤ μ s) :
    ∀ {s s' : σ} {progressed : Bool}, runStages stages s = .ok (s', progressed) →
      μ s' + progressed.toNat ≤ μ s := by
  induction stages with
  | nil =>
    intro s s' progressed h
    cases h
    exact Nat.le_refl _
  | cons f stages ih =>
    intro s s' progressed h
    obtain ⟨t, b, b', hf, hrest, rfl⟩ := exists_of_runStages_cons h
    have h₁ := hstage f (by simp) hf
    have h₂ := ih (fun g hg => hstage g (List.mem_cons_of_mem f hg)) hrest
    have hor : (b || b').toNat ≤ b.toNat + b'.toNat := by
      cases b <;> cases b' <;> decide
    omega

end Stages

section Loop

variable {pop : σ → Option (β × σ)} {round : σ → Except ε (σ × Bool)}

variable {R : σ → σ → Prop} (hrefl : ∀ s, R s s) (htrans : ∀ {s t u}, R s t → R t u → R s u)

include hrefl htrans

/-- With enough fuel the loop stops in one of three ways, in a state that rounds with
progress have led to: something is handed out, the round fails, or it makes no
progress. -/
theorem pollLoop_last (hround : ∀ {s s' b}, round s = .ok (s', b) → R s s') {μ : σ → ℕ}
    (hμ : ∀ {s s' b}, round s = .ok (s', b) → μ s' + b.toNat ≤ μ s) (fuel : ℕ) :
    ∀ {s : σ}, μ s < fuel → ∃ t, R s t ∧
      ((∃ b t', pop t = some (b, t') ∧ pollLoop pop round fuel s = .ok (t', some b)) ∨
      (∃ e, round t = .error e ∧ pollLoop pop round fuel s = .error e) ∨
      ∃ t', pop t = none ∧ round t = .ok (t', false) ∧
        pollLoop pop round fuel s = .ok (t', none)) := by
  induction fuel with
  | zero => exact fun h => absurd h (Nat.not_lt_zero _)
  | succ fuel ih =>
    intro s hlt
    rw [pollLoop]
    cases hp : pop s with
    | some x => exact ⟨s, hrefl s, .inl ⟨x.1, x.2, hp, rfl⟩⟩
    | none =>
      cases hr : round s with
      | error e => exact ⟨s, hrefl s, .inr (.inl ⟨e, hr, rfl⟩)⟩
      | ok x =>
        obtain ⟨t, _ | _⟩ := x
        · exact ⟨s, hrefl s, .inr (.inr ⟨t, hp, hr, rfl⟩)⟩
        · have hdec := hμ hr
          simp only [Bool.toNat_true] at hdec
          obtain ⟨u, hu, hlast⟩ := ih (s := t) (by omega)
          exact ⟨u, htrans (hround hr) hu, hlast⟩

end Loop

end ZincioHttp.Lib
