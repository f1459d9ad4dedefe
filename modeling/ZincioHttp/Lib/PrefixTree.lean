import Mathlib.Data.List.Basic
import Mathlib.Tactic.Common

/-! Decoding with a binary prefix tree. A scan descends one bit at a time and
restarts at the root at every leaf; it splits its input into the codes of the
leaves it met and the path of the node it stopped at. An automaton that reads
blocks of bits simulates the scan when each of its transitions does, so a table
of transitions is checked once, entry by entry, and every run follows. -/

namespace ZincioHttp.Lib

open List Bool

/-- Leaves carry symbols, inner nodes carry automaton states. -/
inductive PrefixTree (σ α : Type) where
  | leaf (symbol : α)
  | node (state : σ) (zero one : PrefixTree σ α)
deriving DecidableEq

namespace PrefixTree

variable {σ α β : Type}

/-- The subtree at the end of a path. -/
def descend : PrefixTree σ α → List Bool → Option (PrefixTree σ α)
  | t, [] => some t
  | .leaf _, _ :: _ => none
  | .node _ zero one, b :: bs => (if b then one else zero).descend bs

/-- The codes that go on with the bit `b`, without it. -/
def branch (b : Bool) (codes : List (List Bool × α)) : List (List Bool × α) :=
  codes.filterMap fun (p, a) =>
    match p with
    | [] => none
    | b' :: p => if b' = b then some (p, a) else none

/-- The tree of a complete prefix code whose codes have at most `depth` bits. Its
inner nodes are numbered in preorder: the tree of `n` codes has `n - 1` of them. -/
def ofCodes [Inhabited α] : ℕ → ℕ → List (List Bool × α) → PrefixTree ℕ α
  | _, _, [([], a)] => .leaf a
  | 0, _, _ => .leaf default
  | depth + 1, label, codes =>
    .node label (ofCodes depth (label + 1) (branch false codes))
      (ofCodes depth (label + (branch false codes).length) (branch true codes))

/-- What a scan has produced, where it stands, and the path that led there. -/
structure Scan (σ α : Type) where
  out : List α
  here : PrefixTree σ α
  path : List Bool

/-- Reads bits from the node `here` at `path`, restarting at the root at every
leaf. -/
def scan (root : PrefixTree σ α) : PrefixTree σ α → List Bool → List Bool → Scan σ α
  | here, path, [] => ⟨[], here, path⟩
  | .leaf a, path, _ :: _ => ⟨[], .leaf a, path⟩
  | .node _ zero one, path, b :: bs =>
    match if b then one else zero with
    | .leaf a => let rest := scan root root [] bs; ⟨a :: rest.out, rest.here, rest.path⟩
    | .node s z o => scan root (.node s z o) (path ++ [b]) bs

variable {root : PrefixTree σ α}

@[simp] theorem descend_nil (t : PrefixTree σ α) : t.descend [] = some t := by
  cases t <;> rfl

theorem descend_append {t u : PrefixTree σ α} {p : List Bool} (h : t.descend p = some u)
    (q : List Bool) : t.descend (p ++ q) = u.descend q := by
  induction p generalizing t with
  | nil => simp only [descend, Option.some.injEq] at h; subst h; rfl
  | cons b p ih =>
    cases t with
    | leaf a => simp [descend] at h
    | node s z o => simp only [descend] at h; simpa only [cons_append, descend] using ih h

/-- A descent to a leaf is the first thing the scan finds. -/
theorem scan_descend {t : PrefixTree σ α} {a : α} {code : List Bool} (p rest : List Bool)
    (hc : code ≠ []) (h : t.descend code = some (.leaf a)) :
    scan root t p (code ++ rest) =
      ⟨a :: (scan root root [] rest).out, (scan root root [] rest).here,
        (scan root root [] rest).path⟩ := by
  induction code generalizing t p with
  | nil => exact absurd rfl hc
  | cons b code ih =>
    cases t with
    | leaf c => simp [descend] at h
    | node s z o =>
      simp only [descend] at h
      simp only [cons_append, scan]
      cases hn : (if b then o else z) with
      | leaf c =>
        rw [hn] at h
        cases code with
        | nil =>
          simp only [descend, Option.some.injEq, leaf.injEq] at h
          subst h
          simp
        | cons b' code => simp [descend] at h
      | node s' z' o' =>
        rw [hn] at h
        cases code with
        | nil => simp at h
        | cons b' code => exact ih _ (by simp) h

/-- A descent that stops before the leaf finds nothing. -/
theorem scan_proper {q : List Bool} {a : α} (hq : q ≠ []) (p : List Bool) :
    ∀ {t : PrefixTree σ α} (path : List Bool), t.descend (p ++ q) = some (.leaf a) →
    (scan root t path p).out = [] ∧ (scan root t path p).path = path ++ p := by
  induction p with
  | nil =>
    intro t path _
    cases t <;> simp [scan]
  | cons b p ih =>
    intro t path h
    cases t with
    | leaf c => simp [descend] at h
    | node s z o =>
      simp only [cons_append, descend] at h
      simp only [scan]
      cases hn : (if b then o else z) with
      | leaf c =>
        obtain ⟨b', bits, hbits⟩ := exists_cons_of_ne_nil (show p ++ q ≠ [] by simp [hq])
        simp [hn, hbits, descend] at h
      | node s' z' o' =>
        rw [hn] at h
        simpa using ih (path ++ [b]) h

/-- The scan of a concatenation of codes is the scan of what follows them. -/
theorem scan_codes (root : PrefixTree σ α) (code : α → List Bool) (rest : List Bool)
    (symbols : List α) (hne : ∀ a ∈ symbols, code a ≠ [])
    (h : ∀ a ∈ symbols, root.descend (code a) = some (.leaf a)) :
    scan root root [] (symbols.flatMap code ++ rest) =
      ⟨symbols ++ (scan root root [] rest).out, (scan root root [] rest).here,
        (scan root root [] rest).path⟩ := by
  induction symbols with
  | nil => simp
  | cons a symbols ih =>
    have ih := ih (fun b hb => hne b (by simp [hb])) (fun b hb => h b (by simp [hb]))
    rw [flatMap_cons, append_assoc, scan_descend [] _ (hne a (by simp)) (h a (by simp)), ih]
    simp

/-- A scan stands at an inner node at the end of its path, and has split the bits it has
read into the codes of leaves and this path. -/
theorem scan_spec {s : σ} {z o : PrefixTree σ α} (hroot : root = .node s z o) (bits : List Bool) :
    ∀ {t : PrefixTree σ α} {p : List Bool}, root.descend p = some t → (∀ a, t ≠ .leaf a) →
      let r := scan root t p bits
      (root.descend r.path = some r.here ∧ ∀ a, r.here ≠ .leaf a) ∧
        (∀ a ∈ r.out, ∃ q, root.descend q = some (.leaf a)) ∧
        ∀ code : α → List Bool, (∀ q a, root.descend q = some (.leaf a) → q = code a) →
          p ++ bits = r.out.flatMap code ++ r.path := by
  induction bits with
  | nil => exact fun h hl => ⟨⟨h, hl⟩, by simp [scan], by simp [scan]⟩
  | cons b bits ih =>
    intro t p h hl
    cases t with
    | leaf a => exact absurd rfl (hl a)
    | node s' z' o' =>
      have hstep := descend_append h [b]
      simp only [descend] at hstep
      simp only [scan]
      cases hn : (if b then o' else z') with
      | leaf c =>
        rw [hn] at hstep
        obtain ⟨hhere, hout, hsplit⟩ := ih (t := root) (p := []) (by simp) (by simp [hroot])
        refine ⟨hhere, ?_, fun code hcode => ?_⟩
        · rintro a (_ | ⟨_, ha⟩)
          · exact ⟨_, hstep⟩
          · exact hout a ha
        · rw [flatMap_cons, append_assoc, ← hsplit code hcode, ← hcode _ _ hstep]
          simp
      | node s'' z'' o'' =>
        rw [hn] at hstep
        obtain ⟨hhere, hout, hsplit⟩ := ih hstep (by simp)
        refine ⟨hhere, hout, fun code hcode => ?_⟩
        rw [← hsplit code hcode]
        simp

theorem scan_append (bits rest : List Bool) {s : σ} {z o : PrefixTree σ α}
    (hroot : root = .node s z o) :
    ∀ {t : PrefixTree σ α} {p : List Bool}, (∀ a, t ≠ .leaf a) → scan root t p (bits ++ rest) =
        let first := scan root t p bits
        let second := scan root first.here first.path rest
        ⟨first.out ++ second.out, second.here, second.path⟩ := by
  induction bits with
  | nil => intro t p _; simp [scan]
  | cons b bits ih =>
    intro t p hl
    cases t with
    | leaf a => exact absurd rfl (hl a)
    | node s' z' o' =>
      simp only [cons_append, scan]
      cases hn : (if b then o' else z') with
      | leaf c => simp [ih (t := root) (by simp [hroot])]
      | node s'' z'' o'' => exact ih (by simp)

/-! ### Block automata -/

/-- One transition on a block: symbols, next state, and whether the input may
end here; `none` rejects. -/
abbrev Transition (σ α β : Type) := σ → β → Option (List α × σ × Bool)

/-- The transition at every inner node does what the scan of the block does:
it rejects when the scan meets a forbidden leaf, and otherwise yields its
symbols, the state of its node, and the verdict on its path. -/
def Simulates (root : PrefixTree σ α) (forbidden : α → Bool) (mayEnd : List Bool → Bool)
    (bits : β → List Bool) (step : Transition σ α β) : Prop :=
  ∀ path s z o b, root.descend path = some (.node s z o) →
    let r := scan root (.node s z o) path (bits b)
    if r.out.any forbidden then step s b = none
    else ∃ s' z' o', r.here = .node s' z' o' ∧ step s b = some (r.out, s', mayEnd r.path)

/-- Two transitions in a row, as one transition on a pair of blocks. -/
def Transition.pair (step : Transition σ α β) : Transition σ α (β × β) := fun s b =>
  match step s b.1 with
  | none => none
  | some (out, s', _) => (step s' b.2).map fun r => (out ++ r.1, r.2)

/-- Runs the automaton over blocks; `ended` is the verdict on what came before. -/
def Transition.run (step : Transition σ α β) : σ → Bool → List β → Option (List α × Bool)
  | _, ended, [] => some ([], ended)
  | s, _, b :: bs =>
    match step s b with
    | none => none
    | some (out, s', ended) => (step.run s' ended bs).map fun r => (out ++ r.1, r.2)

section Simulation
variable {forbidden : α → Bool} {mayEnd : List Bool → Bool} {bits : β → List Bool}
  {step : Transition σ α β} {s₀ : σ} {z₀ o₀ : PrefixTree σ α}

section
variable (hroot : root = .node s₀ z₀ o₀) (h : Simulates root forbidden mayEnd bits step)
include hroot h

theorem Simulates.pair :
    Simulates root forbidden mayEnd (fun b : β × β => bits b.1 ++ bits b.2) step.pair := by
  intro p s z o b hp
  have h1 := h p s z o b.1 hp
  have hhere := (scan_spec hroot (bits b.1) hp (by simp)).1
  simp only [scan_append (bits b.1) (bits b.2) hroot (t := .node s z o) (by simp),
    any_append, Transition.pair]
  by_cases hf : (scan root (.node s z o) p (bits b.1)).out.any forbidden
  · rw [if_pos hf] at h1
    simp [hf, h1]
  rw [if_neg hf] at h1
  obtain ⟨s', z', o', hn, hs⟩ := h1
  rw [hn] at hhere ⊢
  have h2 := h _ s' z' o' b.2 hhere.1
  simp only [hf, Bool.false_or, hs]
  simp only at h2
  split_ifs at h2 ⊢
  · simp [h2]
  · obtain ⟨s'', z'', o'', hn', hs'⟩ := h2
    exact ⟨s'', z'', o'', hn', by simp [hs']⟩

/-- A run of the automaton is the scan of all its blocks. -/
theorem Simulates.run (bs : List β) : ∀ {p : List Bool} {s : σ} {z o : PrefixTree σ α},
      root.descend p = some (.node s z o) →
      let r := scan root (.node s z o) p (bs.flatMap bits)
      step.run s (mayEnd p) bs =
        if r.out.any forbidden then none else some (r.out, mayEnd r.path) := by
  induction bs with
  | nil => intro p s z o _; simp [Transition.run, scan]
  | cons b bs ih =>
    intro p s z o hp
    have h1 := h p s z o b hp
    have hhere := (scan_spec hroot (bits b) hp (by simp)).1
    simp only [flatMap_cons, Transition.run,
      scan_append (bits b) (bs.flatMap bits) hroot (t := .node s z o) (by simp),
      any_append]
    by_cases hf : (scan root (.node s z o) p (bits b)).out.any forbidden
    · rw [if_pos hf] at h1
      simp [hf, h1]
    rw [if_neg hf] at h1
    obtain ⟨s', z', o', hn, hs⟩ := h1
    rw [hn] at hhere ⊢
    simp only [hs, hf, Bool.false_or, ih hhere.1]
    split_ifs <;> simp

end

end Simulation

/-! ### Checking a table against a tree -/

section Check
variable [DecidableEq σ] [DecidableEq α] {forbidden : α → Bool} {mayEnd : List Bool → Bool}
  {bits : β → List Bool} {step : Transition σ α β}

/-- The transition of one inner node on one block. -/
def agrees (root : PrefixTree σ α) (forbidden : α → Bool) (mayEnd : List Bool → Bool)
    (bits : β → List Bool) (step : Transition σ α β) (path : List Bool) (s : σ)
    (zero one : PrefixTree σ α) (b : β) : Bool :=
  let r := scan root (.node s zero one) path (bits b)
  if r.out.any forbidden then decide (step s b = none)
  else match r.here with
    | .leaf _ => false
    | .node s' _ _ => decide (step s b = some (r.out, s', mayEnd r.path))

def checkTable (root : PrefixTree σ α) (forbidden : α → Bool) (mayEnd : List Bool → Bool)
    (bits : β → List Bool) (step : Transition σ α β) (blocks : List β) :
    List Bool → PrefixTree σ α → Bool
  | _, .leaf _ => true
  | path, .node s zero one =>
    blocks.all (agrees root forbidden mayEnd bits step path s zero one) &&
      (checkTable root forbidden mayEnd bits step blocks (path ++ [false]) zero &&
        checkTable root forbidden mayEnd bits step blocks (path ++ [true]) one)

theorem agrees_of_checkTable {blocks : List β} {t : PrefixTree σ α} {path q : List Bool} {s : σ}
    {z o : PrefixTree σ α} (h : checkTable root forbidden mayEnd bits step blocks path t = true)
    (hq : t.descend q = some (.node s z o)) :
    ∀ b ∈ blocks, agrees root forbidden mayEnd bits step (path ++ q) s z o b = true := by
  induction q generalizing t path with
  | nil =>
    rw [descend_nil, Option.some.injEq] at hq
    subst hq
    rw [checkTable, and_eq_true] at h
    simpa using h.1
  | cons b q ih =>
    cases t with
    | leaf a => simp [descend] at hq
    | node s' z' o' =>
      rw [checkTable, and_eq_true, and_eq_true] at h
      rw [show path ++ b :: q = (path ++ [b]) ++ q by simp]
      cases b with
      | false => exact ih h.2.1 hq
      | true => exact ih h.2.2 hq

theorem simulates_of_checkTable (blocks : List β) (hall : ∀ b, b ∈ blocks)
    (h : checkTable root forbidden mayEnd bits step blocks [] root = true) :
    Simulates root forbidden mayEnd bits step := by
  intro path s z o b hp
  have hb := agrees_of_checkTable h hp b (hall b)
  simp only [nil_append, agrees] at hb
  simp only
  split_ifs at hb ⊢
  · exact of_decide_eq_true hb
  · cases hn : (scan root (.node s z o) path (bits b)).here with
    | leaf a => simp [hn] at hb
    | node s' z' o' =>
      rw [hn] at hb
      exact ⟨s', z', o', rfl, of_decide_eq_true hb⟩

end Check

/-- Every leaf below a node stands at the end of its code. -/
def checkLeaves (code : α → List Bool) : List Bool → PrefixTree σ α → Bool
  | path, .leaf a => decide (path = code a)
  | path, .node _ zero one =>
    checkLeaves code (path ++ [false]) zero && checkLeaves code (path ++ [true]) one

theorem eq_code_of_checkLeaves {code : α → List Bool} {t : PrefixTree σ α} {p q : List Bool}
    {a : α} (h : checkLeaves code p t = true) (hq : t.descend q = some (.leaf a)) :
    p ++ q = code a := by
  induction q generalizing t p with
  | nil =>
    rw [descend_nil, Option.some.injEq] at hq
    subst hq
    simpa [checkLeaves] using h
  | cons b q ih =>
    cases t with
    | leaf c => simp [descend] at hq
    | node s z o =>
      rw [checkLeaves, and_eq_true] at h
      rw [show p ++ b :: q = (p ++ [b]) ++ q by simp]
      cases b with
      | false => exact ih h.1 hq
      | true => exact ih h.2 hq

end PrefixTree

end ZincioHttp.Lib
