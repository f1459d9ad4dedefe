import ZincioHttp.H3.Qpack.StaticTable

/-! The QPACK dynamic table: a bounded FIFO whose entries keep their absolute
index, the number of insertions before them. Its contents are a function of the
insertions made: the longest newest run that fits the capacity. The lookup maps
of the encoder's table store absolute indices, and the predictions `wouldEvict`
and `evictForCapacity` count exactly the entries that eviction removes. -/

namespace ZincioHttp.H3.Qpack

open Lib List Function

structure DynamicTable where
  entries : List Field
  capacity : ℕ
  size : ℕ
  inserted : ℕ
  exact : Octets × Octets → Option ℕ
  name : Octets → Option ℕ
  maintainMaps : Bool

namespace DynamicTable

/-- `HYBRID_THRESHOLD`. -/
def hybridThreshold : ℕ := 64

def withMaps (capacity : ℕ) (maintainMaps : Bool) : DynamicTable :=
  ⟨[], capacity, 0, 0, fun _ => none, fun _ => none, maintainMaps⟩

def new (capacity : ℕ) : DynamicTable := withMaps capacity true

def withoutMaps (capacity : ℕ) : DynamicTable := withMaps capacity false

def len (t : DynamicTable) : ℕ := t.entries.length

def lastAbsolute (t : DynamicTable) : ℕ := t.inserted - 1

/-- Drops the entry from the maps where its absolute index is stored. -/
def forget (t : DynamicTable) (entry : Field) (abs : ℕ) : DynamicTable :=
  if t.maintainMaps then
    { t with
      name := if t.name entry.name = some abs then update t.name entry.name none
        else t.name
      exact := if t.exact entry.pair = some abs then update t.exact entry.pair none
        else t.exact }
  else t

/-- The loop of `evict_to_fit`; the number of entries is enough fuel, since the
loop breaks on an empty table. -/
def evictLoop (maxSize : ℕ) : ℕ → DynamicTable → DynamicTable
  | 0, t => t
  | fuel + 1, t =>
    if t.size > maxSize then
      match t.entries.getLast? with
      | none => t
      | some entry =>
        let entries := t.entries.dropLast
        let t := { t with entries := entries, size := t.size - entry.size }
        evictLoop maxSize fuel (t.forget entry (t.inserted - entries.length - 1))
    else t

def evictToFit (t : DynamicTable) (maxSize : ℕ) : DynamicTable :=
  evictLoop maxSize t.entries.length t

def setCapacity (t : DynamicTable) (capacity : ℕ) : DynamicTable :=
  { t with capacity := capacity }.evictToFit capacity

/-- The loop of `would_evict` over the entries, oldest first. -/
def wouldEvictLoop (needFreed : ℕ) : List Field → ℕ → ℕ → ℕ
  | [], _, evicted => evicted
  | e :: rest, freed, evicted =>
    if freed + e.size ≥ needFreed then evicted + 1
    else wouldEvictLoop needFreed rest (freed + e.size) (evicted + 1)

def wouldEvict (t : DynamicTable) (size : ℕ) : ℕ :=
  let needFreed := size - (t.capacity - t.size)
  if needFreed = 0 then 0 else wouldEvictLoop needFreed t.entries.reverse 0 0

/-- The number of newest entries within `target`. -/
def survivors (target : ℕ) : List Field → ℕ → ℕ
  | [], _ => 0
  | e :: rest, size =>
    if size + e.size > target then 0 else 1 + survivors target rest (size + e.size)

def evictForCapacity (t : DynamicTable) (target : ℕ) : ℕ := t.len - survivors target t.entries 0

def findFullOrName (t : DynamicTable) (name value : Octets) : Option ℕ × Option ℕ :=
  if t.maintainMaps && decide (t.entries.length > hybridThreshold) then
    (t.exact (name, value), t.name name)
  else scanFullOrName (t.inserted - 1 - ·) name value t.entries 0 none

def findName (t : DynamicTable) (name : Octets) : Option ℕ :=
  if t.maintainMaps && decide (t.entries.length > hybridThreshold) then t.name name
  else (t.entries.findIdx? fun e => decide (e.name = name)).map (t.inserted - 1 - ·)

/-- Inserts an entry, or `none` when it does not fit the capacity at all. -/
def insert (t : DynamicTable) (entry : Field) : Option DynamicTable :=
  if entry.size > t.capacity then none
  else
    let t := t.evictToFit (t.capacity - entry.size)
    let abs := t.inserted
    some { t with
      entries := entry :: t.entries
      size := t.size + entry.size
      inserted := t.inserted + 1
      exact := if t.maintainMaps then update t.exact entry.pair (some abs) else t.exact
      name := if t.maintainMaps then update t.name entry.name (some abs) else t.name }

/-- `entry_bytes_at`: the entry at a position, also the encoder-stream relative
index. -/
def entryAt (t : DynamicTable) (i : ℕ) : Option Field := t.entries[i]?

def getAbsolute (t : DynamicTable) (abs : ℕ) : Option Field :=
  if abs > t.lastAbsolute then none else t.entryAt (t.lastAbsolute - abs)

def getBaseRelative (t : DynamicTable) (base index : ℕ) : Option Field :=
  if index ≥ base then none else t.getAbsolute (base - 1 - index)

def getPostBase (t : DynamicTable) (base index : ℕ) : Option Field :=
  if base + index ≥ 2 ^ 64 then none else t.getAbsolute (base + index)

/-! ### The invariant -/

/-- The bookkeeping beside the entries. -/
structure Linked (t : DynamicTable) : Prop where
  size_eq : t.size = total Field.size t.entries
  len_le : t.entries.length ≤ t.inserted
  exact_eq : t.maintainMaps = true → ∀ k,
    t.exact k = (firstIdx Field.pair t.entries k).map (t.inserted - 1 - ·)
  name_eq : t.maintainMaps = true → ∀ k,
    t.name k = (firstIdx Field.name t.entries k).map (t.inserted - 1 - ·)

/-- Forgetting an entry changes the maps and nothing else. -/
@[simp] theorem forget_frame (t : DynamicTable) (entry : Field) (abs : ℕ) :
    (t.forget entry abs).entries = t.entries ∧ (t.forget entry abs).size = t.size ∧
      (t.forget entry abs).capacity = t.capacity ∧ (t.forget entry abs).inserted = t.inserted ∧
      (t.forget entry abs).maintainMaps = t.maintainMaps := by
  unfold forget
  split <;> exact ⟨rfl, rfl, rfl, rfl, rfl⟩

/-- Eviction loses entries and nothing else. -/
theorem evictLoop_counts (maxSize fuel : ℕ) : ∀ t : DynamicTable,
    (evictLoop maxSize fuel t).inserted = t.inserted ∧
      (evictLoop maxSize fuel t).capacity = t.capacity ∧
      (evictLoop maxSize fuel t).entries.length ≤ t.entries.length := by
  induction fuel with
  | zero => exact fun _ => ⟨rfl, rfl, le_rfl⟩
  | succ fuel ih =>
    intro t
    rw [evictLoop]
    split_ifs
    · cases t.entries.getLast? with
      | none => exact ⟨rfl, rfl, le_rfl⟩
      | some entry =>
        have := ih (({ t with entries := t.entries.dropLast, size := t.size - entry.size }).forget
          entry (t.inserted - t.entries.dropLast.length - 1))
        simp only [forget_frame] at this
        exact ⟨this.1, this.2.1, this.2.2.trans (dropLast_sublist _).length_le⟩
    · exact ⟨rfl, rfl, le_rfl⟩

theorem inserted_setCapacity (t : DynamicTable) (capacity : ℕ) :
    (t.setCapacity capacity).inserted = t.inserted :=
  (evictLoop_counts _ _ _).1

theorem setCapacity_le (t : DynamicTable) (capacity : ℕ) :
    (t.setCapacity capacity).entries.length ≤ t.entries.length ∧
      (t.setCapacity capacity).capacity = capacity :=
  ⟨(evictLoop_counts _ _ _).2.2, (evictLoop_counts _ _ _).2.1⟩

variable {t : DynamicTable} {e : Field}

theorem insert_counts {t' : DynamicTable} {entry : Field} (h : t.insert entry = some t') :
    t'.inserted = t.inserted + 1 ∧ t'.entries.length ≤ t.entries.length + 1 := by
  rw [insert] at h
  split_ifs at h
  cases h
  obtain ⟨hins, -, hlen⟩ := evictLoop_counts (t.capacity - entry.size) t.entries.length t
  exact ⟨congrArg (· + 1) hins, Nat.succ_le_succ hlen⟩

theorem Linked.evict (h : t.Linked) {l : List Field} (hl : t.entries = l ++ [e]) :
    Linked (forget { t with entries := l, size := t.size - e.size } e
      (t.inserted - l.length - 1)) := by
  have hsize := h.size_eq
  have hlen := h.len_le
  rw [hl, total_append, total_cons, total_nil] at hsize
  rw [hl, length_append, length_singleton] at hlen
  have habs : t.inserted - l.length - 1 = t.inserted - 1 - l.length := by omega
  refine ⟨?_, ?_, ?_, ?_⟩
  · simp only [forget_frame]
    omega
  · simp only [forget_frame]
    omega
  · intro hmaps k
    simp only [forget_frame] at hmaps
    have := update_firstIdx Field.pair (t.inserted - 1 - ·) (by intro i hi; omega)
      (hl ▸ h.exact_eq hmaps) k
    simpa [forget, show t.maintainMaps = true from hmaps, habs] using this
  · intro hmaps k
    simp only [forget_frame] at hmaps
    have := update_firstIdx Field.name (t.inserted - 1 - ·) (by intro i hi; omega)
      (hl ▸ h.name_eq hmaps) k
    simpa [forget, show t.maintainMaps = true from hmaps, habs] using this

theorem evictLoop_spec (maxSize fuel : ℕ) : ∀ {t : DynamicTable}, t.Linked →
    t.entries.length ≤ fuel →
    (evictLoop maxSize fuel t).Linked ∧
      (evictLoop maxSize fuel t).entries = fit Field.size maxSize t.entries ∧
      (evictLoop maxSize fuel t).capacity = t.capacity ∧
      (evictLoop maxSize fuel t).inserted = t.inserted ∧
      (evictLoop maxSize fuel t).maintainMaps = t.maintainMaps := by
  induction fuel with
  | zero =>
    intro t h hf
    have hnil : t.entries = [] := eq_nil_of_length_eq_zero (by omega)
    simp [evictLoop, h, hnil, fit]
  | succ fuel ih =>
    intro t h hf
    rw [evictLoop]
    split_ifs
    · cases hlast : t.entries.getLast? with
      | none =>
        have hnil : t.entries = [] := getLast?_eq_none_iff.1 hlast
        have := h.size_eq
        simp only [hnil, total_nil] at this
        omega
      | some e =>
        obtain ⟨l, hl⟩ := getLast?_eq_some_iff.1 hlast
        have hlen : t.entries.length = l.length + 1 := by simp [hl]
        have hsize := h.size_eq
        have hfit := fit_append_singleton Field.size
          (show maxSize < total Field.size (l ++ [e]) by rw [← hl]; omega)
        simp only [hl, hfit]
        simpa using ih (h.evict hl) (by simp; omega)
    · have hfit := fit_eq_self Field.size
        (show total Field.size t.entries ≤ maxSize by rw [← h.size_eq]; omega)
      simp [h, hfit]

theorem evictToFit_spec (h : t.Linked) (maxSize : ℕ) : (t.evictToFit maxSize).Linked ∧
      (t.evictToFit maxSize).entries = fit Field.size maxSize t.entries ∧
      (t.evictToFit maxSize).capacity = t.capacity ∧
      (t.evictToFit maxSize).inserted = t.inserted ∧
      (t.evictToFit maxSize).maintainMaps = t.maintainMaps :=
  evictLoop_spec maxSize t.entries.length h le_rfl

/-- Setting the capacity keeps the newest entries that fit it. -/
theorem Linked.setCapacity {t : DynamicTable} (h : t.Linked) (capacity : ℕ) :
    (t.setCapacity capacity).Linked ∧
      (t.setCapacity capacity).entries = fit Field.size capacity t.entries ∧
      (t.setCapacity capacity).capacity = capacity ∧
      (t.setCapacity capacity).inserted = t.inserted ∧
      (t.setCapacity capacity).maintainMaps = t.maintainMaps := by
  have hl : Linked { t with capacity := capacity } :=
    ⟨h.size_eq, h.len_le, h.exact_eq, h.name_eq⟩
  exact evictToFit_spec hl capacity

/-- Inserting an entry that fits keeps the newest entries that leave room for it. -/
theorem Linked.insert {t : DynamicTable} (h : t.Linked) {e : Field} (he : e.size ≤ t.capacity) :
    ∃ t', t.insert e = some t' ∧ t'.Linked ∧
      t'.entries = e :: fit Field.size (t.capacity - e.size) t.entries ∧
      t'.capacity = t.capacity ∧ t'.inserted = t.inserted + 1 ∧
      t'.maintainMaps = t.maintainMaps := by
  obtain ⟨hl, hentries, hcap, hins, hmaps⟩ := evictToFit_spec h (t.capacity - e.size)
  have hlen := hl.len_le
  have hindex : ∀ i < (t.evictToFit (t.capacity - e.size)).entries.length,
      (t.evictToFit (t.capacity - e.size)).inserted - 1 - i =
        (t.evictToFit (t.capacity - e.size)).inserted + 1 - 1 - (i + 1) := by
    intro i hi
    omega
  refine ⟨_, if_neg (show ¬e.size > t.capacity by omega), ⟨?_, ?_, ?_, ?_⟩, by simp only [hentries],
    hcap, by simp only [hins], hmaps⟩
  · simp only [total_cons, hl.size_eq]
    omega
  · simp only [length_cons]
    omega
  · intro hm k
    simp only at hm
    simp only [hm]
    exact update_cons_firstIdx Field.pair (hl.exact_eq hm) hindex e k
  · intro hm k
    simp only at hm
    simp only [hm]
    exact update_cons_firstIdx Field.name (hl.name_eq hm) hindex e k

/-- A table within its capacity. -/
structure Bounded (t : DynamicTable) : Prop extends Linked t where
  size_le : t.size ≤ t.capacity

theorem Bounded.setCapacity {t : DynamicTable} (h : t.Bounded) (capacity : ℕ) :
    (t.setCapacity capacity).Bounded := by
  obtain ⟨hl, hentries, hcap, -⟩ := h.toLinked.setCapacity capacity
  refine ⟨hl, ?_⟩
  rw [hl.size_eq, hentries, hcap]
  exact total_fit_le _ _ _

theorem insert_eq_none_iff : t.insert e = none ↔ t.capacity < e.size := by
  rw [insert]
  split_ifs with h <;> simp [h]

/-- What a successful insertion does. -/
theorem Bounded.insert {t t' : DynamicTable} (h : t.Bounded) {e : Field}
    (ht : t.insert e = some t') :
    t'.Bounded ∧ e.size ≤ t.capacity ∧
      t'.entries = e :: fit Field.size (t.capacity - e.size) t.entries ∧
      t'.capacity = t.capacity ∧ t'.inserted = t.inserted + 1 ∧
      t'.maintainMaps = t.maintainMaps := by
  have he : e.size ≤ t.capacity := by
    by_contra hlt
    rw [insert_eq_none_iff.2 (by omega)] at ht
    cases ht
  obtain ⟨t₁, hinsert, hl, hentries, hcap, hrest⟩ := h.toLinked.insert he
  obtain rfl := Option.some.inj (hinsert.symm.trans ht)
  have htotal := total_fit_le Field.size (t.capacity - e.size) t.entries
  refine ⟨⟨hl, ?_⟩, he, hentries, hcap, hrest⟩
  rw [hl.size_eq, hentries, total_cons]
  omega

/-! ### Predictions -/

/-- Counting evictions from the oldest end until enough is freed, or nothing is left. -/
theorem wouldEvictLoop_eq (need : ℕ) (l : List Field) : ∀ (freed evicted : ℕ), freed < need →
    wouldEvictLoop need l.reverse freed evicted =
      evicted + (l.length - (fit Field.size (total Field.size l + freed - need) l).length) := by
  induction l using reverseRecOn with
  | nil => exact fun _ _ _ => rfl
  | append_singleton l e ih =>
    intro freed evicted hlt
    have hpos : 0 < e.size := by unfold Field.size; omega
    rw [total_append, total_cons, total_nil, add_zero]
    have hover : total Field.size l + e.size + freed - need < total Field.size (l ++ [e]) := by
      simp only [total_append, total_cons]
      omega
    have hpre := (fit_isPrefix Field.size (total Field.size l + e.size + freed - need) l).length_le
    rw [fit_append_singleton Field.size hover, reverse_append, reverse_singleton,
      singleton_append, wouldEvictLoop, length_append, length_singleton]
    split_ifs
    · rw [fit_eq_self Field.size (by omega)]
      omega
    · rw [ih _ _ (by omega),
        show total Field.size l + (freed + e.size) - need =
          total Field.size l + e.size + freed - need by omega]
      omega

/-- `would_evict` counts the entries an insertion of that size removes; all of them, if it
does not fit at all. -/
theorem wouldEvict_eq (h : t.Linked) (hcap : t.size ≤ t.capacity) (size : ℕ) :
    t.wouldEvict size = t.len - (fit Field.size (t.capacity - size) t.entries).length := by
  simp only [wouldEvict, len]
  have htotal := h.size_eq
  split_ifs
  · rw [fit_eq_self Field.size (by omega)]
    omega
  · rw [wouldEvictLoop_eq _ _ _ _ (by omega), zero_add,
      show total Field.size t.entries + 0 - (size - (t.capacity - t.size)) = t.capacity - size
        by omega]

theorem survivors_eq (target : ℕ) (l : List Field) : ∀ size, size ≤ target →
    survivors target l size = (fit Field.size (target - size) l).length := by
  induction l with
  | nil => intro size _; rfl
  | cons e l ih =>
    intro size hsize
    rw [survivors, fit]
    split
    · rw [if_neg (by omega), length_nil]
    · rw [if_pos (by omega), ih _ (by omega), length_cons, Nat.sub_add_eq]
      omega

/-- `evict_for_capacity` counts the entries that do not fit the new capacity. -/
theorem evictForCapacity_eq (t : DynamicTable) (target : ℕ) :
    t.evictForCapacity target = t.len - (fit Field.size target t.entries).length := by
  rw [evictForCapacity, survivors_eq target t.entries 0 (Nat.zero_le _), Nat.sub_zero]

/-! ### Lookups -/

namespace Linked

variable {t : DynamicTable}

theorem findFullOrName (h : t.Linked) (name value : Octets) : t.findFullOrName name value =
      ((firstIdx Field.pair t.entries (name, value)).map (t.inserted - 1 - ·),
        (firstIdx Field.name t.entries name).map (t.inserted - 1 - ·)) := by
  rw [DynamicTable.findFullOrName]
  split_ifs with hm
  · have hmaps := (Bool.and_eq_true_iff.1 hm).1
    rw [h.exact_eq hmaps, h.name_eq hmaps]
  · exact scanFullOrName_eq _ _ _ _

theorem findName (h : t.Linked) (name : Octets) :
    t.findName name = (firstIdx Field.name t.entries name).map (t.inserted - 1 - ·) := by
  rw [DynamicTable.findName]
  split_ifs with hm
  · exact h.name_eq (Bool.and_eq_true_iff.1 hm).1 name
  · rfl

theorem getAbsolute_sub (h : t.Linked) {i : ℕ} (hi : i < t.len) :
    t.getAbsolute (t.inserted - 1 - i) = t.entryAt i := by
  have hle : i < t.inserted := hi.trans_le h.len_le
  rw [getAbsolute, lastAbsolute, if_neg (by omega)]
  congr 1
  omega

end Linked

/-- The absolute index of the newest entry that matches, if any does. -/
def IsNewest (t : DynamicTable) (p : Field → Prop) : Option ℕ → Prop
  | some abs => (∃ e, t.getAbsolute abs = some e ∧ p e) ∧
      ∀ later > abs, ∀ e, t.getAbsolute later = some e → ¬p e
  | none => ∀ abs e, t.getAbsolute abs = some e → ¬p e

theorem entry_of_getAbsolute {abs : ℕ} (h : t.getAbsolute abs = some e) :
    abs ≤ t.inserted - 1 ∧ t.entries[t.inserted - 1 - abs]? = some e := by
  rw [getAbsolute] at h
  split_ifs at h with hle
  exact ⟨not_lt.1 hle, h⟩

theorem Linked.isNewest (h : t.Linked) {κ : Type} [DecidableEq κ] (key : Field → κ) (k : κ) :
    IsNewest t (fun e => key e = k) ((firstIdx key t.entries k).map (t.inserted - 1 - ·)) := by
  cases hf : firstIdx key t.entries k with
  | none =>
    intro abs e he
    exact ne_of_firstIdx_eq_none key hf (mem_of_getElem? (entry_of_getAbsolute he).2)
  | some i =>
    obtain ⟨e, he, hkey⟩ := firstIdx_eq_some key hf
    have hlt := firstIdx_lt key hf
    refine ⟨⟨e, (h.getAbsolute_sub hlt).trans he, hkey⟩,
      fun later (hlater : t.inserted - 1 - i < later) e' he' => ?_⟩
    obtain ⟨hle, hentry⟩ := entry_of_getAbsolute he'
    exact ne_of_firstIdx_eq_some key hf (by omega) hentry

/-! ### The table as a function of its history -/

/-- Absolute index of the oldest entry after the insertions `history`. -/
def oldest (capacity : ℕ) (history : List Field) : ℕ :=
  history.length - (fit Field.size capacity history.reverse).length

/-- The table has received the insertions `history`, at its present capacity. -/
structure Holds (t : DynamicTable) (history : List Field) : Prop extends Linked t where
  inserted_eq : t.inserted = history.length
  entries_eq : t.entries = fit Field.size t.capacity history.reverse

theorem length_fit_reverse_le (capacity : ℕ) (history : List Field) :
    (fit Field.size capacity history.reverse).length ≤ history.length := by
  simpa using (fit_isPrefix Field.size capacity history.reverse).length_le

theorem oldest_mono (capacity : ℕ) (history later : List Field) :
    oldest capacity history ≤ oldest capacity (history ++ later) := by
  have h := length_fit_append_le Field.size capacity later.reverse history.reverse
  have h₂ := length_fit_reverse_le capacity (history ++ later)
  simp only [oldest, reverse_append, length_append, length_reverse] at h h₂ ⊢
  omega

/-- A table of capacity `c` has at most `c / 32` entries. -/
theorem length_le_oldest_add (capacity : ℕ) (history : List Field) :
    history.length ≤ oldest capacity history + capacity / 32 := by
  have hle : ∀ l : List Field, 32 * l.length ≤ total Field.size l := by
    intro l
    induction l with
    | nil => simp
    | cons e l ih =>
      rw [total_cons, length_cons, Field.size]
      omega
  have h₁ := hle (fit Field.size capacity history.reverse)
  have h₂ := total_fit_le Field.size capacity history.reverse
  rw [oldest]
  omega

/-- What was inserted since some entry that is still there fits the table. -/
theorem total_drop_le {capacity n : ℕ} {history : List Field} (h : oldest capacity history ≤ n) :
    total Field.size (history.drop n) ≤ capacity := by
  obtain ⟨older, hfit⟩ := fit_isPrefix Field.size capacity history.reverse
  have hpre : (history.drop n).reverse <+: fit Field.size capacity history.reverse := by
    have hsuffix := reverse_prefix.2 (drop_suffix n history)
    refine prefix_of_prefix_length_le hsuffix ⟨older, hfit⟩ ?_
    rw [length_reverse, length_drop]
    unfold oldest at h
    omega
  obtain ⟨rest, hrest⟩ := hpre
  have hbudget := total_fit_le Field.size capacity history.reverse
  have hreverse : total Field.size (history.drop n).reverse =
      total Field.size (history.drop n) := by
    simp [total]
  rw [← hrest, total_append] at hbudget
  omega

namespace Holds

variable {t : DynamicTable} {history : List Field}

theorem size_le (h : t.Holds history) : t.size ≤ t.capacity := by
  rw [h.size_eq, h.entries_eq]
  exact total_fit_le _ _ _

theorem first_eq (h : t.Holds history) : t.inserted - t.len = oldest t.capacity history := by
  rw [len, h.inserted_eq, h.entries_eq, oldest]

theorem empty (capacity : ℕ) (maintainMaps : Bool) : (withMaps capacity maintainMaps).Holds [] := by
  refine ⟨⟨?_, ?_, ?_, ?_⟩, ?_, ?_⟩ <;> simp [withMaps, fit]

/-- Setting the capacity of a table that has received nothing. -/
theorem setCapacity (h : t.Holds []) (capacity : ℕ) :
    (t.setCapacity capacity).Holds [] ∧ (t.setCapacity capacity).capacity = capacity ∧
      (t.setCapacity capacity).maintainMaps = t.maintainMaps := by
  obtain ⟨hlinked, hentries, hcap, hins, hmaps⟩ := h.toLinked.setCapacity capacity
  have hnil : t.entries = [] := by simpa [fit] using h.entries_eq
  have hempty := hentries.trans (show fit Field.size capacity t.entries = [] by rw [hnil, fit])
  exact ⟨⟨hlinked, hins.trans h.inserted_eq, hempty⟩, hcap, hmaps⟩

/-- An entry that fits becomes the newest of the history. -/
theorem insert (h : t.Holds history) {e : Field} (he : e.size ≤ t.capacity) :
    ∃ t', t.insert e = some t' ∧ t'.Holds (history ++ [e]) ∧ t'.capacity = t.capacity ∧
      t'.maintainMaps = t.maintainMaps := by
  obtain ⟨t', hinsert, hl, hentries, hcap, hins, hmaps⟩ := h.toLinked.insert he
  refine ⟨t', hinsert, ⟨hl, ?_, ?_⟩, hcap, hmaps⟩
  · rw [hins, h.inserted_eq, length_append, length_singleton]
  · rw [hentries, h.entries_eq, hcap, reverse_append, reverse_singleton,
      singleton_append, ← fit_cons_fit]
    simp [fit, he]

/-- What an insertion would evict moves the oldest entry to where it will be. -/
theorem first_add_wouldEvict (h : t.Holds history) (he : e.size ≤ t.capacity) :
    t.inserted - t.len + t.wouldEvict e.size = oldest t.capacity (history ++ [e]) := by
  rw [wouldEvict_eq h.toLinked h.size_le, h.inserted_eq]
  have hle := length_fit_reverse_le t.capacity history
  have hfit := fit_fit Field.size (b := t.capacity - e.size) (c := t.capacity) history.reverse
  rw [Nat.min_eq_left (by omega)] at hfit
  have hpre := (fit_isPrefix Field.size (t.capacity - e.size)
    (fit Field.size t.capacity history.reverse)).length_le
  simp only [oldest, len, h.entries_eq, reverse_append, reverse_singleton,
    singleton_append, fit, he, if_true, length_append, length_cons,
    length_nil]
  rw [hfit] at hpre ⊢
  omega

theorem getAbsolute (h : t.Holds history) {abs : ℕ} (hlo : oldest t.capacity history ≤ abs)
    (hhi : abs < history.length) : t.getAbsolute abs = history[abs]? := by
  have hins := h.inserted_eq
  have hpre : t.entries <+: history.reverse := by
    rw [h.entries_eq]
    exact fit_isPrefix _ _ _
  rw [DynamicTable.getAbsolute, lastAbsolute, if_neg (by omega), entryAt, hins]
  have hlt : history.length - 1 - abs < t.entries.length := by
    rw [h.entries_eq]
    unfold oldest at hlo
    omega
  obtain ⟨rest, hrest⟩ := hpre
  rw [← getElem?_append_left hlt, hrest, getElem?_reverse (by omega)]
  congr 1
  omega

/-- A match is an entry of the history that the table still has. -/
theorem firstIdx_abs (h : t.Holds history) {κ : Type} [DecidableEq κ] {key : Field → κ} {k : κ}
    {abs : ℕ} (hf : (firstIdx key t.entries k).map (t.inserted - 1 - ·) = some abs) :
    oldest t.capacity history ≤ abs ∧ abs < history.length ∧
      ∃ e, history[abs]? = some e ∧ key e = k := by
  obtain ⟨i, hi, rfl⟩ := Option.map_eq_some_iff.1 hf
  obtain ⟨e, he, hkey⟩ := firstIdx_eq_some key hi
  have hlt := firstIdx_lt key hi
  have hlen := h.len_le
  have hins := h.inserted_eq
  have hlo : oldest t.capacity history ≤ t.inserted - 1 - i := by
    rw [← h.first_eq, len]
    omega
  have hhi : t.inserted - 1 - i < history.length := by omega
  refine ⟨hlo, hhi, e, ?_, hkey⟩
  rw [← h.getAbsolute hlo hhi, DynamicTable.getAbsolute, lastAbsolute, if_neg (by omega), entryAt,
    ← he]
  congr 1
  omega

end Holds

/-! ### Calls -/

inductive Call where
  | insert (entry : Field)
  | setCapacity (capacity : ℕ)

/-- A call on a table, beside the entries inserted so far, oldest first. -/
def call (s : DynamicTable × List Field) : Call → DynamicTable × List Field
  | .insert entry =>
    match s.1.insert entry with
    | none => s
    | some t => (t, s.2 ++ [entry])
  | .setCapacity capacity => (s.1.setCapacity capacity, s.2)

/-- The entries are the newest of the insertions made, within the capacity. -/
structure Recorded (s : DynamicTable × List Field) : Prop extends Bounded s.1 where
  inserted_eq : s.1.inserted = s.2.length
  newest : s.1.entries <+: s.2.reverse

theorem Recorded.call {s : DynamicTable × List Field} (h : Recorded s) (c : Call) :
    Recorded (call s c) := by
  cases c with
  | setCapacity capacity =>
    obtain ⟨-, hentries, -, hins, -⟩ := h.toLinked.setCapacity capacity
    refine ⟨h.toBounded.setCapacity capacity, hins.trans h.inserted_eq, ?_⟩
    rw [DynamicTable.call, hentries]
    exact (fit_isPrefix _ _ _).trans h.newest
  | insert e =>
    rw [DynamicTable.call]
    cases ht : s.1.insert e with
    | none => exact h
    | some t =>
      obtain ⟨hb, -, hentries, -, hins, -⟩ := h.toBounded.insert ht
      refine ⟨hb, by simp [hins, h.inserted_eq], ?_⟩
      simp only [hentries, reverse_append, reverse_singleton, singleton_append,
        cons_prefix_cons, true_and]
      exact (fit_isPrefix _ _ _).trans h.newest

theorem Recorded.calls (calls : List Call) : ∀ {s : DynamicTable × List Field}, Recorded s →
    Recorded (calls.foldl DynamicTable.call s) := by
  induction calls with
  | nil => exact id
  | cons c calls ih => exact fun h => ih (h.call c)

theorem Recorded.empty (capacity : ℕ) (maintainMaps : Bool) :
    Recorded (withMaps capacity maintainMaps, []) := by
  have h := Holds.empty capacity maintainMaps
  exact ⟨⟨h.toLinked, h.size_le⟩, rfl, nil_prefix⟩

/-- After any calls: the size is that of the entries and within the capacity, entries keep
their absolute index, maps and scan both find the newest match, and the two predictions
count what an insertion or a new capacity then removes. -/
theorem calls_predicted (capacity : ℕ) (maintainMaps : Bool) (calls : List Call) :
    let s := calls.foldl call (withMaps capacity maintainMaps, [])
    let t := s.1
    (t.size = total Field.size t.entries ∧ t.size ≤ t.capacity) ∧
    (t.inserted = s.2.length ∧ ∀ i < t.len, t.entryAt i = s.2[t.inserted - 1 - i]? ∧
      t.getAbsolute (t.inserted - 1 - i) = t.entryAt i) ∧
    (∀ name value, IsNewest t (fun e => e.pair = (name, value)) (t.findFullOrName name value).1 ∧
      IsNewest t (fun e => e.name = name) (t.findFullOrName name value).2 ∧
      IsNewest t (fun e => e.name = name) (t.findName name)) ∧
    (t.maintainMaps = true → ∀ name value, (t.exact (name, value), t.name name) =
        scanFullOrName (t.inserted - 1 - ·) name value t.entries 0 none ∧
      t.name name = (t.entries.findIdx? fun e => decide (e.name = name)).map (t.inserted - 1 - ·)) ∧
    (∀ entry t', t.insert entry = some t' → t.wouldEvict entry.size + t'.len = t.len + 1) ∧
    ∀ target, t.evictForCapacity target + (t.setCapacity target).len = t.len := by
  intro s t
  have h : Recorded s := Recorded.calls calls (.empty capacity maintainMaps)
  have hb : t.Bounded := h.toBounded
  have hl : t.Linked := h.toLinked
  have hfit : ∀ n, (fit Field.size n t.entries).length ≤ t.len :=
    fun n => (fit_isPrefix Field.size n t.entries).length_le
  refine ⟨⟨hl.size_eq, h.size_le⟩, ⟨h.inserted_eq, fun i hi => ⟨?_, hl.getAbsolute_sub hi⟩⟩,
    fun name value => ?_, fun hm name value => ?_, fun entry t' ht' => ?_, fun target => ?_⟩
  · obtain ⟨rest, hrest⟩ := h.newest
    have hle : i < s.2.length := h.inserted_eq ▸ hi.trans_le hl.len_le
    have hins : t.inserted = s.2.length := h.inserted_eq
    rw [entryAt, ← getElem?_append_left hi, hrest, getElem?_reverse hle, hins]
  · rw [hl.findFullOrName, hl.findName]
    exact ⟨hl.isNewest Field.pair (name, value), hl.isNewest Field.name name,
      hl.isNewest Field.name name⟩
  · rw [scanFullOrName_eq, hl.exact_eq hm, hl.name_eq hm]
    exact ⟨rfl, rfl⟩
  · obtain ⟨-, -, hentries, -⟩ := hb.insert ht'
    have := hfit (t.capacity - entry.size)
    rw [wouldEvict_eq hl h.size_le, len, len, hentries, length_cons]
    rw [len] at this
    omega
  · have := hfit target
    rw [evictForCapacity_eq, len, len, (hl.setCapacity target).2.1]
    rw [len] at this
    omega

end DynamicTable

end ZincioHttp.H3.Qpack
