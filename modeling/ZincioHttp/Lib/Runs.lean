import Mathlib.Tactic.Common

/-! Runs of a fallible step function. A condition on single steps, each judged in
the state it is taken in, is lifted to a run; an invariant that such steps keep
then holds at the end of the run, and so in every state on the way. -/

namespace ZincioHttp.Lib

open List

variable {σ α ε : Type} {step : σ → α → Except ε σ} {C : σ → α → Prop} {s s' : σ}
  {actions : List α}

/-- Every step of the run meets `C` in the state in which it is taken. -/
def Along (step : σ → α → Except ε σ) (C : σ → α → Prop) : σ → List α → Prop
  | _, [] => True
  | s, a :: rest => C s a ∧ ∀ s', step s a = .ok s' → Along step C s' rest

/-- Running the steps tells whether each meets the condition. -/
instance Along.decidable [∀ s a, Decidable (C s a)] :
    ∀ s actions, Decidable (Along step C s actions)
  | _, [] => isTrue trivial
  | s, a :: rest =>
    match h : step s a with
    | .error _ => decidable_of_iff (C s a) ⟨fun hc => ⟨hc, fun _ hs => by simp [h] at hs⟩, And.left⟩
    | .ok t =>
      have : Decidable (Along step C t rest) := Along.decidable t rest
      decidable_of_iff (C s a ∧ Along step C t rest)
        ⟨fun hc => ⟨hc.1, fun s' hs => by cases h.symm.trans hs; exact hc.2⟩,
          fun hc => ⟨hc.1, hc.2 t h⟩⟩

/-- A run succeeds when its first step does and then the rest. -/
theorem foldlM_cons_eq_ok {a : α} : (a :: actions).foldlM step s = .ok s' ↔
    ∃ t, step s a = .ok t ∧ actions.foldlM step t = .ok s' := by
  rw [foldlM_cons]
  cases step s a <;> simp [bind, Except.bind]

/-- What every step that meets `C` keeps holds at the end of the run. -/
theorem Along.invariant {I : σ → Prop}
    (hstep : ∀ s a s', I s → C s a → step s a = .ok s' → I s') (actions : List α) :
    ∀ {s : σ}, Along step C s actions → I s → actions.foldlM step s = .ok s' → I s' := by
  induction actions with
  | nil =>
    intro s _ hs hrun
    cases hrun
    exact hs
  | cons a actions ih =>
    intro s halong hs hrun
    obtain ⟨t, ht, hrest⟩ := foldlM_cons_eq_ok.1 hrun
    exact ih (halong.2 t ht) (hstep s a t hs halong.1 ht) hrest

theorem Along.of_forall (h : ∀ s a, C s a) (actions : List α) : ∀ s, Along step C s actions := by
  induction actions with
  | nil => exact fun _ => trivial
  | cons a actions ih => exact fun s => ⟨h s a, fun s' _ => ih s'⟩

/-- Two conditions that agree wherever the first leads agree along every run. -/
theorem Along.congr {D : σ → α → Prop} {I : σ → Prop}
    (hstep : ∀ s a s', I s → C s a → step s a = .ok s' → I s')
    (hcongr : ∀ s a, I s → (C s a ↔ D s a)) (actions : List α) :
    ∀ {s : σ}, I s → (Along step C s actions ↔ Along step D s actions) := by
  induction actions with
  | nil => exact fun _ => Iff.rfl
  | cons a actions ih =>
    intro s hs
    constructor
    · rintro ⟨hc, hrest⟩
      exact ⟨(hcongr s a hs).1 hc, fun s' h => (ih (hstep s a s' hs hc h)).1 (hrest s' h)⟩
    · rintro ⟨hd, hrest⟩
      have hc := (hcongr s a hs).2 hd
      exact ⟨hc, fun s' h => (ih (hstep s a s' hs hc h)).2 (hrest s' h)⟩

/-! ### Runs of a total step function -/

section Total
variable {next : σ → α → σ} {t : σ}

/-- Every step of the run meets `C` in the state in which it is taken. -/
def Throughout (next : σ → α → σ) (C : σ → α → Prop) : List α → σ → Prop
  | [], _ => True
  | a :: rest, s => C s a ∧ Throughout next C rest (next s a)

instance Throughout.decidable [∀ s a, Decidable (C s a)] :
    ∀ actions s, Decidable (Throughout next C actions s)
  | [], _ => .isTrue trivial
  | a :: rest, s =>
    have : Decidable (Throughout next C rest (next s a)) := Throughout.decidable rest _
    inferInstanceAs (Decidable (C s a ∧ Throughout next C rest (next s a)))

/-- What every step that meets `C` keeps holds at the end of the run. -/
theorem Throughout.invariant {I : σ → Prop} (hstep : ∀ s a, I s → C s a → I (next s a))
    (actions : List α) :
    ∀ {s : σ}, Throughout next C actions s → I s → I (actions.foldl next s) := by
  induction actions with
  | nil => exact fun _ hs => hs
  | cons a actions ih => exact fun hall hs => ih hall.2 (hstep _ a hs hall.1)

theorem throughout_append (first second : List α) : ∀ s, Throughout next C (first ++ second) s ↔
    Throughout next C first s ∧ Throughout next C second (first.foldl next s) := by
  induction first with
  | nil => exact fun s => (and_iff_right trivial).symm
  | cons a first ih =>
    intro s
    rw [cons_append, Throughout, Throughout, ih, and_assoc, foldl_cons]

/-- A condition that every action meets is no condition. -/
theorem Throughout.of_mem (h : ∀ a ∈ actions, ∀ s, C s a) : ∀ s, Throughout next C actions s := by
  induction actions with
  | nil => exact fun _ => trivial
  | cons a actions ih =>
    exact fun s => ⟨h a mem_cons_self s, ih (fun b hb => h b (mem_cons_of_mem _ hb)) _⟩

/-- Each step is taken in the state to which those before it lead. -/
theorem Throughout.split (first : List α) (h : Throughout next C actions (first.foldl next s)) :
    Throughout next (fun t a => C t a ∧ ∃ before after, first ++ actions = before ++ a :: after ∧
      t = before.foldl next s) actions (first.foldl next s) := by
  induction actions generalizing first with
  | nil => trivial
  | cons a actions ih =>
    have hnext : next (first.foldl next s) a = (first ++ [a]).foldl next s := by simp
    have hassoc : first ++ a :: actions = first ++ [a] ++ actions := by simp
    refine ⟨⟨h.1, first, actions, rfl, rfl⟩, ?_⟩
    rw [hnext, hassoc]
    exact ih (first ++ [a]) (hnext ▸ h.2)

end Total

/-! ### Words of a partial automaton -/

section Partial
variable {next : σ → α → Option σ} {t : σ} {a : α} {word word' : List α}

theorem foldlM_append_eq_some : (word ++ word').foldlM next s = some s' ↔
    ∃ t, word.foldlM next s = some t ∧ word'.foldlM next t = some s' := by
  rw [foldlM_append, Option.bind_eq_bind, Option.bind_eq_some_iff]

theorem foldlM_cons_eq_some : (a :: word).foldlM next s = some s' ↔
    ∃ t, next s a = some t ∧ word.foldlM next t = some s' := by
  rw [foldlM_cons, Option.bind_eq_bind, Option.bind_eq_some_iff]

theorem foldlM_concat_eq_some (h : word.foldlM next s = some t) (ha : next t a = some s') :
    (word ++ [a]).foldlM next s = some s' :=
  foldlM_append_eq_some.2 ⟨t, h, foldlM_cons_eq_some.2 ⟨s', ha, rfl⟩⟩

/-- What every step of the word keeps holds at its end. -/
theorem foldlM_keeps {P : σ → Prop} (hs : P s) (h : word.foldlM next s = some s')
    (hkeep : ∀ {s a s'}, a ∈ word → P s → next s a = some s' → P s') : P s' := by
  induction word generalizing s with
  | nil =>
    cases h
    exact hs
  | cons a word ih =>
    obtain ⟨t, ht, hrest⟩ := foldlM_cons_eq_some.1 h
    exact ih (hkeep mem_cons_self hs ht) hrest fun ha => hkeep (mem_cons_of_mem _ ha)

/-- Only whether a run fails, not how. -/
theorem toOption_foldlM : (actions.foldlM step s).toOption =
    actions.foldlM (fun s a => (step s a).toOption) s := by
  induction actions generalizing s with
  | nil => rfl
  | cons a actions ih =>
    rw [foldlM_cons, foldlM_cons]
    cases step s a with
    | error e => rfl
    | ok t => exact ih

end Partial

end ZincioHttp.Lib
