import ZincioHttp.H3.Qpack.Effects

/-! What encoding a section does, in terms of lines and instructions. Every field
becomes a line that stands for it; the entries inserted on the way become
instructions; nothing that is still referred to is evicted. -/

namespace ZincioHttp.H3.Qpack

open Lib ZincioHttp.Hpack DynamicTable List Option Line Instruction Section Encoder

/-- The instructions that lead from one capacity to another and add entries. -/
def instrsFor (before capacity : ℕ) (added : List Field) : List Instruction :=
  (if before = capacity then [] else [.setCapacity capacity]) ++ added.map .insert

/-- The state of a section's encoding: the entries in the table before it, those
it has added, and the lines it has written. -/
structure Progress (e : Encoder) (base capacity₀ : ℕ) (before added : List Field)
    (lines : List Line) (s : Section) : Prop where
  holds : s.dynamic.Holds (before ++ added)
  capacity : s.dynamic.capacity = e.maxCapacity ∨
    (s.dynamic.capacity = 0 ∧ s.dynamic.capacity = capacity₀ ∧ before ++ added = [])
  block_eq : s.block = lines.flatMap (Line.code e base)
  stream_eq : s.encoderStream =
    (instrsFor capacity₀ s.dynamic.capacity added).flatMap (Instruction.code e.huffman)
  ric_eq : s.ric = ricOf lines
  min_eq : s.minRelRef = minRefOf lines
  refs : ∀ abs ∈ lines.filterMap Line.ref,
    oldest s.dynamic.capacity (before ++ added) ≤ abs ∧ abs < (before ++ added).length
  floor : oldest s.dynamic.capacity (before ++ added) ≤ e.evictableFloor
  fits : ∀ f ∈ added, f.Fits ∧ f.size ≤ e.maxCapacity

namespace Progress

variable {e : Encoder} {base capacity₀ : ℕ} {before added : List Field} {lines : List Line}
  {s : Section} {octs : Octets}

section
variable (h : Progress e base capacity₀ before added lines s)
include h

theorem push {line : Line} (hcode : code e base line = octs) (href : line.ref = none) :
    Progress e base capacity₀ before added (lines ++ [line]) (s.push octs) where
  holds := h.holds
  capacity := h.capacity
  block_eq := by simp [Section.push, h.block_eq, hcode]
  stream_eq := h.stream_eq
  ric_eq := by simp [Section.push, h.ric_eq, ricOf_append, ricOf, needs, href]
  min_eq := by simp [Section.push, h.min_eq, minRefOf, href]
  refs := by simpa [Section.push, href] using h.refs
  floor := h.floor
  fits := h.fits

theorem pushRef {l : Line} {abs : ℕ} (hcode : code e base l = octs) (href : l.ref = some abs)
    (hlo : oldest s.dynamic.capacity (before ++ added) ≤ abs)
    (hhi : abs < (before ++ added).length) :
    Progress e base capacity₀ before added (lines ++ [l]) (s.pushRef abs octs) where
  holds := h.holds
  capacity := h.capacity
  block_eq := by simp [Section.pushRef, h.block_eq, hcode]
  stream_eq := h.stream_eq
  ric_eq := by simp [Section.pushRef, h.ric_eq, ricOf_append, ricOf, needs, href]
  min_eq := by
    simp only [Section.pushRef, h.min_eq, minRefOf, filterMap_append, filterMap_cons,
      filterMap_nil, href, foldl_append, foldl_cons, foldl_nil]
    rfl
  refs := by
    intro a ha
    rw [filterMap_append, mem_append] at ha
    rcases ha with ha | ha
    · exact h.refs a ha
    · simp only [filterMap_cons, href, filterMap_nil, mem_singleton] at ha
      subst ha
      exact ⟨hlo, hhi⟩
  floor := h.floor
  fits := h.fits

theorem insertField {f : Field} (hf : f.Fits) (hsize : f.size ≤ e.maxCapacity)
    (hsafe : e.safeToInsert s f = true) :
    Progress e base capacity₀ before (added ++ [f])
      (lines ++ [.indexedDynamic (before ++ added).length]) (e.insertField base s f) := by
  -- the table right before the insertion, and what it has sent
  obtain ⟨t, ht, hcap, hstream, hins⟩ : ∃ t : DynamicTable, t.Holds (before ++ added) ∧
      t.capacity = e.maxCapacity ∧
      (if s.dynamic.capacity ≠ e.maxCapacity then
          s.encoderStream ++ Integer.encode e.maxCapacity 5 0x20 else s.encoderStream) =
        (instrsFor capacity₀ e.maxCapacity added).flatMap (code e.huffman) ∧
      (if s.dynamic.capacity ≠ e.maxCapacity then s.dynamic.setCapacity e.maxCapacity
        else s.dynamic) = t := by
    by_cases hc : s.dynamic.capacity = e.maxCapacity
    · refine ⟨s.dynamic, h.holds, hc, ?_, by simp [hc]⟩
      simp [hc, h.stream_eq]
    obtain ⟨-, hstart, hnil⟩ := h.capacity.resolve_left hc
    obtain ⟨hholds, hcap', -⟩ := Holds.setCapacity (hnil ▸ h.holds) e.maxCapacity
    have hadded : added = [] := (List.append_eq_nil_iff.1 hnil).2
    refine ⟨_, by rw [hnil]; exact hholds, hcap', ?_, by simp [hc]⟩
    rw [h.stream_eq, hadded]
    simp [instrsFor, ← hstart, hc, Instruction.code]
  obtain ⟨t', hinsert, hholds', hcap', -⟩ := ht.insert (e := f) (by omega)
  rw [hcap] at hcap'
  rw [append_assoc] at hholds'
  -- what is evicted lies below the floor and below every reference
  have hold : oldest e.maxCapacity (before ++ (added ++ [f])) ≤
      min (s.minRelRef.getD u64Max) e.evictableFloor := by
    have hsafe' := of_decide_eq_true hsafe
    by_cases hc : s.dynamic.capacity = e.maxCapacity
    · rw [Holds.first_add_wouldEvict h.holds (by omega), hc, append_assoc] at hsafe'
      exact hsafe'
    obtain ⟨-, -, hnil⟩ := h.capacity.resolve_left hc
    have : oldest e.maxCapacity (before ++ (added ++ [f])) = 0 := by
      rw [← append_assoc, hnil]
      simp [oldest, fit, hsize]
    omega
  have hresult : e.insertField base s f =
      Section.pushRef { s with
        encoderStream := (instrsFor capacity₀ e.maxCapacity (added ++ [f])).flatMap
          (code e.huffman)
        dynamic := t' } (before ++ added).length
        (encodeIndexed (before ++ added).length base) := by
    have hlen : t.inserted = (before ++ added).length := ht.inserted_eq
    by_cases hc : s.dynamic.capacity = e.maxCapacity
    · simp only [hc, ne_eq, not_true_eq_false, if_false] at hstream hins
      subst hins
      simp [Encoder.insertField, hc, hlen, hinsert, hstream, instrsFor, Instruction.code]
    · simp only [ne_eq, hc, not_false_eq_true, if_true] at hstream hins
      subst hins
      simp [Encoder.insertField, hc, hlen, hinsert, hstream, instrsFor, Instruction.code]
  have hmono : ∀ abs ∈ lines.filterMap ref,
      oldest e.maxCapacity (before ++ (added ++ [f])) ≤ abs := by
    intro abs habs
    obtain ⟨m, hm⟩ := exists_minRefOf habs
    have hle := minRefOf_le hm habs
    rw [h.min_eq, hm] at hold
    simp only [getD_some] at hold
    omega
  have hfresh : oldest e.maxCapacity (before ++ (added ++ [f])) ≤ (before ++ added).length := by
    have hlen := length_fit_reverse_le e.maxCapacity (before ++ (added ++ [f]))
    have hpos : 0 < (fit Field.size e.maxCapacity (before ++ (added ++ [f])).reverse).length := by
      rw [← append_assoc, reverse_append, reverse_singleton, singleton_append,
        fit, if_pos hsize]
      simp
    simp only [oldest, length_append, length_singleton] at hlen ⊢
    omega
  have hmid : Progress e base capacity₀ before (added ++ [f]) lines { s with
      encoderStream := (instrsFor capacity₀ e.maxCapacity (added ++ [f])).flatMap
        (code e.huffman)
      dynamic := t' } :=
    { holds := hholds'
      capacity := .inl hcap'
      block_eq := h.block_eq
      stream_eq := by simp only [hcap']
      ric_eq := h.ric_eq
      min_eq := h.min_eq
      refs := by
        intro abs habs
        have := (h.refs abs habs).2
        simp only [hcap', length_append] at this ⊢
        exact ⟨hmono abs habs, by omega⟩
      floor := by
        simp only [hcap']
        omega
      fits := by
        intro g hg
        rcases List.mem_append.1 hg with hg | hg
        · exact h.fits g hg
        · obtain rfl := List.mem_singleton.1 hg
          exact ⟨hf, hsize⟩ }
  rw [hresult]
  apply hmid.pushRef rfl rfl
  · simp only [hcap']
    exact hfresh
  · simp

/-- One field: a line that stands for it, and at most one insertion. -/
theorem encodeField {f : Field} (hf : f.Fits) :
    ∃ added' line, (added' = [] ∨ added' = [f]) ∧
      Progress e base capacity₀ before (added ++ added') (lines ++ [line])
        (e.encodeField base s f) ∧
      line.field (before ++ (added ++ added')) = some f ∧ line.Fits := by
  obtain ⟨line, hw⟩ := encodeField_writes e base s f
  generalize e.encodeField base s f = s' at hw ⊢
  cases hw with
  | plain hfield hfits href _ =>
    refine ⟨[], line, .inl rfl, ?_, hfield _, hfits hf⟩
    rw [append_nil]
    exact h.push rfl href
  | @indexed abs _ _ hfull =>
    rw [h.holds.toLinked.findFullOrName] at hfull
    obtain ⟨hlo, hhi, entry, hentry, hkey⟩ := Holds.firstIdx_abs h.holds hfull
    refine ⟨[], .indexedDynamic abs, .inl rfl, ?_, ?_, trivial⟩
    · rw [append_nil]
      exact h.pushRef rfl rfl hlo hhi
    · rw [append_nil, field, hentry]
      cases entry
      cases hkey
      rfl
  | @named abs _ _ hname =>
    rw [h.holds.toLinked.findFullOrName] at hname
    obtain ⟨hlo, hhi, entry, hentry, hkey⟩ := Holds.firstIdx_abs h.holds hname
    refine ⟨[], .literalDynamicName abs f.value, .inl rfl, ?_, ?_, hf.2⟩
    · rw [append_nil]
      exact h.pushRef rfl rfl hlo hhi
    · rw [append_nil, field, hentry]
      simp [hkey]
  | inserted _ _ hsize hsafe =>
    refine ⟨[f], _, .inr rfl, h.insertField hf hsize hsafe, ?_, trivial⟩
    rw [field]
    simp

end

theorem encodeFields {headers : List Field} : ∀ {added : List Field} {lines : List Line}
    {s : Section}, Progress e base capacity₀ before added lines s → (∀ f ∈ headers, f.Fits) →
    ∃ added' lines', Progress e base capacity₀ before (added ++ added') (lines ++ lines')
        (headers.foldl (e.encodeField base) s) ∧
      Spell (before ++ (added ++ added')) lines' headers ∧ added'.length ≤ headers.length := by
  induction headers with
  | nil =>
    intro added lines s h _
    exact ⟨[], [], by simpa using h, .nil, le_rfl⟩
  | cons f headers ih =>
    intro added lines s h hfits
    obtain ⟨added₁, line, hadded, h₁, hline, hfit⟩ := h.encodeField (hfits f (by simp))
    obtain ⟨added₂, lines₂, h₂, hspell, hlen⟩ := ih h₁ fun g hg => hfits g (by simp [hg])
    refine ⟨added₁ ++ added₂, line :: lines₂, by simpa using h₂, .cons ⟨?_, hfit⟩ ?_, ?_⟩
    · have := field_append hline added₂
      simpa using this
    · rwa [append_assoc] at hspell
    · rcases hadded with rfl | rfl <;> simp <;> omega

end Progress

/-! ### A whole section -/

/-- A section on its way to the decoder, and what it stands for. -/
structure Parcel where
  stream : ℕ
  base : ℕ
  lines : List Line
  headers : List Field

variable {history : List Field}

namespace Parcel

def ric (p : Parcel) : ℕ := ricOf p.lines

/-- The section as octets; of the encoder only its settings matter. -/
def block (e : Encoder) (p : Parcel) : Octets :=
  e.encodePrefix p.ric p.base ++ p.lines.flatMap (Line.code e p.base)

/-- What the encoder notes down for a section: nothing if it has no references. -/
def pending (p : Parcel) : List (ℕ × ℕ) := ((minRefOf p.lines).map (p.stream, ·)).toList

/-- The section can be read by whoever has received `history` and still has
everything since `first`. -/
structure Sound (first : ℕ) (history : List Field) (p : Parcel) : Prop where
  spell : Spell history p.lines p.headers
  count : p.headers.length ≤ maxFieldsPerSection
  base_le : p.base ≤ history.length
  refs : ∀ abs ∈ p.lines.filterMap Line.ref, first ≤ abs ∧ abs < history.length

theorem block_congr {e e' : Encoder} (hcap : e.maxCapacity = e'.maxCapacity)
    (hhuff : e.huffman = e'.huffman) (p : Parcel) : p.block e = p.block e' := by
  have hcode : code e p.base = code e' p.base := by
    funext line
    cases line <;> simp [Line.code, encodeLiteralWithStaticNameRef,
      encodeLiteralPostBaseNameRef, encodeLiteralWithNameRef, hhuff]
  rw [block, block, encodePrefix, encodePrefix, hcap, hcode]

theorem pending_eq_nil_iff (p : Parcel) : p.pending = [] ↔ p.ric = 0 := by
  constructor
  · intro h
    by_contra hpos
    obtain ⟨abs, habs, -⟩ := exists_ref_of_ricOf_pos (Nat.pos_of_ne_zero hpos)
    obtain ⟨m, hm⟩ := exists_minRefOf habs
    simp [pending, hm] at h
  · intro h
    have hnone : p.lines.filterMap ref = [] := by
      rw [eq_nil_iff_forall_not_mem]
      intro abs habs
      have := lt_ricOf habs
      simp only [ric] at h
      omega
    simp [pending, minRefOf, hnone]

/-- Every reference is at or above what the encoder has noted down. -/
theorem le_ref_of_pending {p : Parcel} {first abs : ℕ} (h : ∀ r ∈ p.pending, first ≤ r.2)
    (habs : abs ∈ p.lines.filterMap ref) : first ≤ abs := by
  obtain ⟨m, hm⟩ := exists_minRefOf habs
  have hfirst := h (p.stream, m) (by simp [pending, hm])
  exact hfirst.trans (minRefOf_le hm habs)

theorem Sound.le_pending {first : ℕ} {p : Parcel} (h : p.Sound first history) :
    ∀ r ∈ p.pending, first ≤ r.2 := by
  intro r hr
  simp only [pending, mem_toList, map_eq_some_iff] at hr
  obtain ⟨m, hm, rfl⟩ := hr
  exact (h.refs m (minRefOf_mem hm)).1

end Parcel

/-- The encoder's capacity: the largest one, or none as long as nothing was
inserted. -/
def Announced (maxCapacity capacity : ℕ) (history : List Field) : Prop :=
  capacity = maxCapacity ∨ (capacity = 0 ∧ history = [])

theorem Announced.oldest_eq {maxCapacity capacity : ℕ}
    (h : Announced maxCapacity capacity history) :
    oldest capacity history = oldest maxCapacity history := by
  rcases h with rfl | ⟨-, rfl⟩
  · rfl
  · simp [oldest]

/-- Encoding a section: the new entries become instructions, the section can be
read by whoever follows them, and the encoder remembers its references. -/
theorem Encoder.encodeSectionWithBase_spec {e : Encoder} (hholds : e.dynamic.Holds history)
    (hcap : Announced e.maxCapacity e.dynamic.capacity history)
    (hcached : e.cachedMinPending = minPending e.pendingRefs)
    (hfloor : oldest e.maxCapacity history ≤ e.evictableFloor) (stream : ℕ) {headers : List Field}
    (hfits : ∀ f ∈ headers, f.Fits) (hcount : headers.length ≤ maxFieldsPerSection) {base : ℕ}
    (hbase : base ≤ history.length) (hbound : history.length + headers.length ≤ u64Max) :
    ∃ (t : DynamicTable) (added : List Field) (p : Parcel),
      p.stream = stream ∧ p.headers = headers ∧
      p.Sound (oldest e.maxCapacity (history ++ added)) (history ++ added) ∧
      t.Holds (history ++ added) ∧
      Announced e.maxCapacity t.capacity (history ++ added) ∧
      (t.capacity = e.maxCapacity ∨ t.capacity = e.dynamic.capacity) ∧
      oldest e.maxCapacity (history ++ added) ≤ e.evictableFloor ∧
      added.length ≤ headers.length ∧ (∀ f ∈ added, f.Fits ∧ f.size ≤ e.maxCapacity) ∧
      e.encodeSectionWithBase stream headers base =
        ({ e with
            dynamic := t
            pendingRefs := e.pendingRefs ++ p.pending
            cachedMinPending := minPending (e.pendingRefs ++ p.pending) },
          ⟨p.block e, (instrsFor e.dynamic.capacity t.capacity added).flatMap
            (code e.huffman)⟩) := by
  have hstart : Progress e base e.dynamic.capacity history [] [] ⟨e.dynamic, [], [], none, 0⟩ :=
    { holds := by simpa using hholds
      capacity := by simpa [Announced] using hcap
      block_eq := rfl
      stream_eq := by simp [instrsFor]
      ric_eq := rfl
      min_eq := rfl
      refs := by simp
      floor := by simpa [hcap.oldest_eq] using hfloor
      fits := by simp }
  obtain ⟨added, lines, h, hspell, hlen⟩ := hstart.encodeFields hfits
  simp only [nil_append] at h hspell
  set s := headers.foldl (e.encodeField base) ⟨e.dynamic, [], [], none, 0⟩ with hs
  let p : Parcel := ⟨stream, base, lines, headers⟩
  have hcap' : Announced e.maxCapacity s.dynamic.capacity (history ++ added) :=
    h.capacity.imp_right fun hc => ⟨hc.1, hc.2.2⟩
  have hrefs := h.refs
  have hfloor' := h.floor
  rw [hcap'.oldest_eq] at hrefs hfloor'
  refine ⟨s.dynamic, added, p, rfl, rfl, ⟨hspell, hcount, ?_, hrefs⟩, h.holds, hcap',
    h.capacity.imp_right fun hc => hc.2.1, hfloor', hlen, h.fits, ?_⟩
  · simp only [p, length_append]
    omega
  · simp only [encodeSectionWithBase, ← hs, h.ric_eq, h.min_eq, h.block_eq, h.stream_eq]
    by_cases hric : ricOf lines > 0
    · obtain ⟨abs, habs, -⟩ := exists_ref_of_ricOf_pos hric
      obtain ⟨m, hm⟩ := exists_minRefOf habs
      have hm64 : m ≤ u64Max := by
        have := minRefOf_le hm habs
        have := (hrefs abs habs).2
        rw [length_append] at this
        omega
      have hmin : (if m < e.cachedMinPending then m else e.cachedMinPending) =
          minPending (e.pendingRefs ++ p.pending) := by
        rw [minPending_append, ← hcached]
        simp only [p, Parcel.pending, hm, map_some, toList_some, minPending,
          foldr_cons, foldr_nil]
        split_ifs <;> omega
      simp only [hric, hm, getD_some, hmin]
      simp [p, Parcel.pending, hm, Parcel.block, Parcel.ric, encodePrefix]
    · have hnil : p.pending = [] := p.pending_eq_nil_iff.2 (Nat.eq_zero_of_not_pos hric)
      simp [hric, hnil, hcached, p, Parcel.block, Parcel.ric, encodePrefix]

end ZincioHttp.H3.Qpack
