import ZincioHttp.H3.Qpack.Encoding

/-! Replaying the encoder stream. Whatever a section does to the encoder's table it
says in its instructions, in the order in which it does it; so the instructions of
all sections, in the order of the sections, rebuild the table from nothing. -/

namespace ZincioHttp.H3.Qpack

open Lib ZincioHttp.Hpack List Option DynamicTable Decoder Instruction Line Integer

variable {maxCapacity capacity : ℕ} {t : DynamicTable} {history added : List Field}

namespace DynamicTable

/-- Two tables that differ at most in their lookup maps. -/
structure Same (t t' : DynamicTable) : Prop where
  entries_eq : t.entries = t'.entries
  capacity_eq : t.capacity = t'.capacity
  size_eq : t.size = t'.size
  inserted_eq : t.inserted = t'.inserted

variable {t t' : DynamicTable}

theorem Same.trans {t₁ t₂ t₃ : DynamicTable} (h : Same t₁ t₂) (h' : Same t₂ t₃) : Same t₁ t₃ :=
  ⟨h.entries_eq.trans h'.entries_eq, h.capacity_eq.trans h'.capacity_eq,
    h.size_eq.trans h'.size_eq, h.inserted_eq.trans h'.inserted_eq⟩

theorem Same.forget (h : Same t t') (entry : Field) (abs : ℕ) :
    Same (t.forget entry abs) (t'.forget entry abs) :=
  ⟨by simp [h.entries_eq], by simp [h.capacity_eq], by simp [h.size_eq], by simp [h.inserted_eq]⟩

theorem Same.evictLoop (maxSize fuel : ℕ) : ∀ {t t' : DynamicTable}, Same t t' →
    Same (t.evictLoop maxSize fuel) (t'.evictLoop maxSize fuel) := by
  induction fuel with
  | zero => exact id
  | succ fuel ih =>
    intro t t' h
    rw [DynamicTable.evictLoop, DynamicTable.evictLoop, h.size_eq, h.entries_eq]
    split_ifs
    · cases t'.entries.getLast? with
      | none => exact h
      | some entry =>
        rw [h.inserted_eq]
        refine ih (Same.forget ?_ _ _)
        exact ⟨rfl, h.capacity_eq, rfl, rfl⟩
    · exact h

theorem Same.evictToFit (h : Same t t') (maxSize : ℕ) :
    Same (t.evictToFit maxSize) (t'.evictToFit maxSize) := by
  rw [DynamicTable.evictToFit, h.entries_eq]
  exact h.evictLoop maxSize _

theorem Same.setCapacity (h : Same t t') (capacity : ℕ) :
    Same (t.setCapacity capacity) (t'.setCapacity capacity) := by
  refine Same.evictToFit ?_ capacity
  exact ⟨h.entries_eq, rfl, h.size_eq, h.inserted_eq⟩

theorem Same.insert (h : Same t t') {f : Field} {t₁ : DynamicTable} (hins : t.insert f = some t₁) :
    ∃ t₁', t'.insert f = some t₁' ∧ Same t₁ t₁' := by
  rw [DynamicTable.insert] at hins ⊢
  rw [← h.capacity_eq]
  split_ifs at hins ⊢
  cases hins
  have hfit := h.evictToFit (t.capacity - f.size)
  exact ⟨_, rfl, by rw [hfit.entries_eq], hfit.capacity_eq, by rw [hfit.size_eq],
    by rw [hfit.inserted_eq]⟩

/-! ### How far eviction goes -/

theorem wouldEvictLoop_le (needFreed : ℕ) (l : List Field) : ∀ freed evicted : ℕ,
    wouldEvictLoop needFreed l freed evicted ≤ evicted + l.length := by
  induction l with
  | nil => exact fun _ _ => le_rfl
  | cons e l ih =>
    intro freed evicted
    rw [wouldEvictLoop, length_cons]
    split_ifs
    · omega
    · have := ih (freed + e.size) (evicted + 1)
      omega

theorem wouldEvict_le (t : DynamicTable) (size : ℕ) : t.wouldEvict size ≤ t.entries.length := by
  rw [wouldEvict]
  split_ifs
  · exact Nat.zero_le _
  · simpa using wouldEvictLoop_le (size - (t.capacity - t.size)) t.entries.reverse 0 0

/-! ### Instructions carried out -/

/-- Carrying out the instructions one after the other turns `t` into `t'`; no
capacity exceeds the maximum, and every insertion fits. -/
inductive Plays (maxCapacity : ℕ) : DynamicTable → List Instruction → DynamicTable → Prop
  | nil (t : DynamicTable) : Plays maxCapacity t [] t
  | setCapacity {t t' : DynamicTable} {capacity : ℕ} {rest : List Instruction}
      (hle : capacity ≤ maxCapacity) (hrest : Plays maxCapacity (t.setCapacity capacity) rest t') :
      Plays maxCapacity t (.setCapacity capacity :: rest) t'
  | insert {t t₁ t' : DynamicTable} {f : Field} {rest : List Instruction}
      (hins : t.insert f = some t₁) (hrest : Plays maxCapacity t₁ rest t') :
      Plays maxCapacity t (.insert f :: rest) t'

theorem Plays.append {t₁ t₂ : DynamicTable} {is is' : List Instruction}
    (h : Plays maxCapacity t is t₁) (h' : Plays maxCapacity t₁ is' t₂) :
    Plays maxCapacity t (is ++ is') t₂ := by
  induction h with
  | nil => exact h'
  | setCapacity hle _ ih => exact .setCapacity hle (ih h')
  | insert hins _ ih => exact .insert hins (ih h')

end DynamicTable

open DynamicTable

/-- The table that an empty decoder has after reading exactly these octets. The
insertions are all taken as acknowledged, so nothing keeps it from evicting. -/
def replay (maxCapacity : ℕ) (octs : Octets) : Option DynamicTable :=
  match drain encoderInstructionLen Decoder.parseEncoderInstruction octs.length
      { Decoder.new maxCapacity 0 with knownReceived := octs.length } octs with
  | .ok (d, []) => some d.dynamic
  | _ => none

namespace Decoder

/-- A decoder that follows the instructions does what they say. -/
theorem handleAll_plays {maxCapacity : ℕ} (huffman : Bool) {t t' : DynamicTable}
    {is : List Instruction} (h : Plays maxCapacity t is t') : ∀ {d : Decoder},
    Same t d.dynamic → d.maxCapacity = maxCapacity → (∀ i ∈ is, i.Fits) →
    d.dynamic.entries.length + is.length ≤ d.knownReceived →
    ∃ d', handleAll (fun d i => parseEncoderInstruction d (code huffman i)) d is = .ok d' ∧
      Same t' d'.dynamic := by
  induction h with
  | nil t => exact fun hsame _ _ _ => ⟨_, rfl, hsame⟩
  | @setCapacity t t' capacity rest hle _ ih =>
    intro d hsame hmax hfits hknown
    rw [length_cons] at hknown
    have hlen := (setCapacity_le d.dynamic capacity).1
    have hevict : d.dynamic.evictForCapacity capacity ≤ d.dynamic.entries.length := Nat.sub_le _ _
    obtain ⟨d', hrun, hsame'⟩ := @ih { d with dynamic := d.dynamic.setCapacity capacity }
      (hsame.setCapacity capacity) hmax (fun i hi => hfits i (by simp [hi]))
      (by dsimp only; omega)
    refine ⟨d', ?_, hsame'⟩
    rw [handleAll, parse_setCapacity d huffman (hfits (.setCapacity capacity) (by simp)),
      if_neg (by omega), if_neg (by omega)]
    exact hrun
  | @insert t t₁ t' f rest hins _ ih =>
    intro d hsame hmax hfits hknown
    rw [length_cons] at hknown
    obtain ⟨u, hu, hsame₁⟩ := hsame.insert hins
    have hlen := (insert_counts hu).2
    have hevict := d.dynamic.wouldEvict_le f.size
    obtain ⟨d', hrun, hsame'⟩ := @ih { d with dynamic := u } hsame₁ hmax
      (fun i hi => hfits i (by simp [hi])) (by dsimp only; omega)
    refine ⟨d', ?_, hsame'⟩
    rw [handleAll, parse_insert d huffman (hfits (.insert f) (by simp)), insertEntry,
      if_neg (by omega), hu]
    exact hrun

end Decoder

/-- Instructions that rebuild a table are replayed to that table. -/
theorem replay_plays (huffman : Bool) {is : List Instruction}
    (h : Plays maxCapacity (new 0) is t) (hfits : ∀ i ∈ is, i.Fits) :
    ∃ t', replay maxCapacity (is.flatMap (code huffman)) = some t' ∧ Same t t' := by
  set octs := is.flatMap (code huffman) with hocts
  have hframed : ∀ i ∈ is, Framed encoderInstructionLen (code huffman) i :=
    fun i hi => framed huffman (hfits i hi)
  have hlen : is.length ≤ octs.length := length_le_flatMap fun i hi => (hframed i hi).1
  obtain ⟨done, todo, rest, rfl, hsplit, hpart, hdrain⟩ := @drain_eq _ _ _ _
    encoderInstructionLen (code huffman) rfl parseEncoderInstruction is
    octs.length { new maxCapacity 0 with knownReceived := octs.length } octs le_rfl hframed
    (prefix_refl _)
  have hrest : rest = todo.flatMap (code huffman) := by
    rw [hocts, flatMap_append] at hsplit
    exact (append_cancel_left hsplit).symm
  obtain rfl := hpart.todo_eq_nil hrest
  obtain rfl : rest = [] := hrest
  rw [append_nil] at *
  obtain ⟨d', hrun, hsame⟩ := @handleAll_plays _ huffman _ _ _ h
    { new maxCapacity 0 with knownReceived := octs.length } ⟨rfl, rfl, rfl, rfl⟩ rfl hfits
    (by simpa [Decoder.new, withoutMaps, withMaps] using hlen)
  refine ⟨d'.dynamic, ?_, hsame⟩
  rw [replay, hdrain, hrun]
  rfl

/-! ### The encoder's side -/

/-- Nothing but the insertions and the capacity decides what a table holds. -/
theorem DynamicTable.Holds.same {t' : DynamicTable} (h : t.Holds history) (h' : t'.Holds history)
    (hcap : t.capacity = t'.capacity) : Same t t' := by
  have hentries : t.entries = t'.entries := by rw [h.entries_eq, h'.entries_eq, hcap]
  exact ⟨hentries, hcap, by rw [h.size_eq, h'.size_eq, hentries], by
    rw [h.inserted_eq, h'.inserted_eq]⟩

theorem plays_inserts (added : List Field) : ∀ {t : DynamicTable}
    {history : List Field}, t.Holds history → t.capacity = capacity →
    (∀ f ∈ added, f.size ≤ capacity) →
    ∃ t', Plays capacity t (added.map .insert) t' ∧ t'.Holds (history ++ added) ∧
      t'.capacity = capacity := by
  induction added with
  | nil => exact fun {t history} h hcap _ => ⟨t, .nil t, by simpa using h, hcap⟩
  | cons f added ih =>
    intro t history h hcap hsize
    obtain ⟨t₁, hins, h₁, hcap₁, -⟩ := h.insert (by rw [hcap]; exact hsize f (by simp))
    obtain ⟨t', hplays, h', hcap'⟩ := ih h₁ (hcap₁.trans hcap) fun g hg => hsize g (by simp [hg])
    exact ⟨t', .insert hins hplays, by simpa using h', hcap'⟩

theorem fits_of_mem_instrsFor {before : ℕ} (hcap : capacity < 2 ^ 62) (hadded : ∀ f ∈ added, f.Fits)
    {i : Instruction} (hi : i ∈ instrsFor before capacity added) : i.Fits := by
  rcases mem_append.1 hi with hi | hi
  · split_ifs at hi
    · cases hi
    · obtain rfl := mem_singleton.1 hi
      exact hcap
  · obtain ⟨f, hf, rfl⟩ := mem_map.1 hi
    exact hadded f hf

/-- The instructions of a section take a table along with the encoder's. -/
theorem plays_instrsFor (h : t.Holds history) (hbefore : Announced maxCapacity t.capacity history)
    (hafter : capacity = maxCapacity ∨
      (capacity = 0 ∧ capacity = t.capacity ∧ history ++ added = []))
    (hsize : ∀ f ∈ added, f.size ≤ maxCapacity) :
    ∃ t', Plays maxCapacity t (instrsFor t.capacity capacity added) t' ∧
      t'.Holds (history ++ added) ∧ t'.capacity = capacity := by
  rcases hafter with rfl | ⟨-, rfl, hnil⟩
  · by_cases hcap : t.capacity = capacity
    · rw [instrsFor, if_pos hcap]
      exact plays_inserts added h hcap hsize
    · obtain ⟨-, rfl⟩ := hbefore.resolve_left hcap
      obtain ⟨h₁, hcap₁, -⟩ := h.setCapacity capacity
      obtain ⟨t', hplays, h', hcap'⟩ := plays_inserts added h₁ hcap₁ hsize
      rw [instrsFor, if_neg hcap]
      exact ⟨t', .setCapacity le_rfl hplays, h', hcap'⟩
  · obtain ⟨rfl, rfl⟩ := append_eq_nil_iff.1 hnil
    rw [instrsFor, if_pos rfl]
    exact ⟨t, .nil t, h, rfl⟩

namespace Encoder

/-- The encoder has inserted `history`; what it has evicted nobody needs. -/
structure Keeps (e : Encoder) (history : List Field) : Prop where
  holds : e.dynamic.Holds history
  announced : Announced e.maxCapacity e.dynamic.capacity history
  sizes : ∀ f ∈ history, f.size ≤ e.maxCapacity
  floor : oldest e.maxCapacity history ≤ e.evictableFloor
  cached : e.cachedMinPending ≤ minPending e.pendingRefs

theorem Keeps.new (maxCapacity : ℕ) (huffman : Bool) : (new maxCapacity huffman).Keeps [] where
  holds := .empty 0 true
  announced := .inr ⟨rfl, rfl⟩
  sizes := by simp
  floor := by simp [oldest]
  cached := le_rfl

variable {e e' : Encoder} {history headers : List Field} {base : ℕ} {lines : List Line}

theorem Keeps.learns (h : e.Keeps history) (hlearns : Learns e e') : e'.Keeps history := by
  obtain ⟨hknown, hcached⟩ := le_min_iff.1 h.floor
  cases hlearns with
  | nothing => exact h
  | released hsub hmin =>
    have hle := h.cached.trans (minPending_anti hsub.subset)
    rcases hmin with rfl | ⟨rfl, -⟩
    · exact ⟨h.holds, h.announced, h.sizes, le_min hknown (hcached.trans hle), le_rfl⟩
    · exact ⟨h.holds, h.announced, h.sizes, le_min hknown hcached, hle⟩
  | increment _ _ =>
    exact ⟨h.holds, h.announced, h.sizes, le_min (Nat.le_add_right_of_le hknown) hcached, h.cached⟩

/-- What one instruction of the peer's decoder stream leaves as it is. -/
def Frames (e e' : Encoder) : Prop :=
  e'.dynamic = e.dynamic ∧ e'.maxCapacity = e.maxCapacity ∧ e'.huffman = e.huffman ∧
    ∀ history, e.Keeps history → e'.Keeps history

theorem Frames.refl (e : Encoder) : Frames e e := ⟨rfl, rfl, rfl, fun _ h => h⟩

theorem Frames.trans {e₁ e₂ e₃ : Encoder} (h : Frames e₁ e₂) (h' : Frames e₂ e₃) : Frames e₁ e₃ :=
  ⟨h'.1.trans h.1, h'.2.1.trans h.2.1, h'.2.2.1.trans h.2.2.1,
    fun history hk => h'.2.2.2 history (h.2.2.2 history hk)⟩

theorem Frames.handleInstruction {instr : Octets} (hstep : e.handleInstruction instr = .ok e') :
    Frames e e' := by
  have hlearns := handleInstruction_learns hstep
  obtain ⟨hdynamic, hmax, hhuffman⟩ := hlearns.settings
  exact ⟨hdynamic, hmax, hhuffman, fun _ h => h.learns hlearns⟩

/-- What the peer says on its decoder stream changes no entry. -/
theorem Frames.feedDecoderStream {buf : Octets} (hfeed : e.feedDecoderStream buf = .ok e') :
    Frames e e' := by
  rw [Encoder.feedDecoderStream] at hfeed
  split at hfeed
  · cases hfeed
  · next e₁ rest hdrain =>
    split_ifs at hfeed
    cases hfeed
    have h₁ : Frames e e₁ :=
      drain_rel Frames.refl Frames.trans Frames.handleInstruction _ hdrain
    exact h₁.trans ⟨rfl, rfl, rfl, fun _ h => ⟨h.holds, h.announced, h.sizes, h.floor, h.cached⟩⟩

/-- What a section tells: the entries it has added, the lines it consists of, and
the reference it keeps. -/
structure Tells (e : Encoder) (history : List Field) (base : ℕ) (headers added : List Field)
    (lines : List Line) (refs : List (ℕ × ℕ)) (e' : Encoder) (s : EncodedSection) : Prop where
  keeps : e'.Keeps (history ++ added)
  maxCapacity_eq : e'.maxCapacity = e.maxCapacity
  huffman_eq : e'.huffman = e.huffman
  fits : ∀ f ∈ added, f.Fits
  capacity : e'.dynamic.capacity = e.maxCapacity ∨ (e'.dynamic.capacity = 0 ∧
    e'.dynamic.capacity = e.dynamic.capacity ∧ history ++ added = [])
  stream_eq : s.encoderStream =
    (instrsFor e.dynamic.capacity e'.dynamic.capacity added).flatMap (Instruction.code e.huffman)
  block_eq : s.block = e.encodePrefix (ricOf lines) base ++ lines.flatMap (Line.code e base)
  spell : Spell (history ++ added) lines headers
  length_le : added.length ≤ headers.length
  below : ∀ abs ∈ lines.filterMap Line.ref, abs < (history ++ added).length
  pending_eq : e'.pendingRefs = e.pendingRefs ++ refs
  refs_nil : ricOf lines = 0 → refs = []

theorem Keeps.encodeSectionWithBase (h : e.Keeps history) (stream base : ℕ)
    (hfits : ∀ f ∈ headers, f.Fits) : ∃ added lines refs,
      Tells e history base headers added lines refs
        (e.encodeSectionWithBase stream headers base).1
        (e.encodeSectionWithBase stream headers base).2 := by
  have hstart : Progress e base e.dynamic.capacity history [] [] ⟨e.dynamic, [], [], none, 0⟩ :=
    { holds := by simpa using h.holds
      capacity := by simpa [Announced] using h.announced
      block_eq := rfl
      stream_eq := by simp [instrsFor]
      ric_eq := rfl
      min_eq := rfl
      refs := by simp
      floor := by simpa [h.announced.oldest_eq] using h.floor
      fits := by simp }
  obtain ⟨added, lines, hp, hspell, hlen⟩ := hstart.encodeFields hfits
  simp only [nil_append] at hp hspell
  rw [Encoder.encodeSectionWithBase]
  set s := headers.foldl (e.encodeField base) ⟨e.dynamic, [], [], none, 0⟩ with hs
  have hann : Announced e.maxCapacity s.dynamic.capacity (history ++ added) :=
    hp.capacity.imp_right fun hc => ⟨hc.1, hc.2.2⟩
  have hrefs := hp.refs
  have hfloor := hp.floor
  rw [hann.oldest_eq] at hrefs hfloor
  obtain ⟨hknown, hcached⟩ := le_min_iff.1 hfloor
  have hsizes : ∀ f ∈ history ++ added, f.size ≤ e.maxCapacity := by
    intro f hf
    rcases mem_append.1 hf with hf | hf
    · exact h.sizes f hf
    · exact (hp.fits f hf).2
  have hlt : ∀ abs ∈ lines.filterMap ref, abs < (history ++ added).length :=
    fun abs habs => (hrefs abs habs).2
  have hfront : ∀ e' : Encoder, e'.maxCapacity = e.maxCapacity →
      e'.encodePrefix s.ric base ++ s.block =
        e.encodePrefix (ricOf lines) base ++ lines.flatMap (code e base) := by
    intro e' he'
    rw [hp.ric_eq, hp.block_eq, encodePrefix, encodePrefix, he']
  by_cases hric : s.ric > 0
  · -- the lowest reference is one of the section's own
    obtain ⟨abs, habs, -⟩ := exists_ref_of_ricOf_pos (hp.ric_eq ▸ hric)
    obtain ⟨m, hm⟩ := exists_minRefOf habs
    have hmold := (hrefs m (minRefOf_mem hm)).1
    rw [if_pos hric]
    refine ⟨added, lines, [(stream, m)], ?_, rfl, rfl, fun f hf => (hp.fits f hf).1, hp.capacity,
      hp.stream_eq, hfront _ rfl, hspell, hlen, hlt, ?_, fun h0 => ?_⟩
    · refine ⟨hp.holds, hann, hsizes, le_min hknown ?_, ?_⟩
      · dsimp only
        rw [hp.min_eq, hm]
        split_ifs
        · exact hmold
        · exact hcached
      · dsimp only
        rw [hp.min_eq, hm, getD_some, minPending_append]
        have hmax := (le_minPending.1 h.cached).1
        have hone : min m u64Max ≤ minPending [(stream, m)] := le_rfl
        have hle := h.cached
        split_ifs <;> omega
    · rw [hp.min_eq, hm, getD_some]
    · have := hp.ric_eq
      omega
  · rw [if_neg hric]
    exact ⟨added, lines, [], ⟨hp.holds, hann, hsizes, hfloor, h.cached⟩, rfl, rfl,
      fun f hf => (hp.fits f hf).1, hp.capacity, hp.stream_eq, hfront _ rfl, hspell, hlen, hlt,
      (append_nil _).symm, fun _ => rfl⟩

theorem Tells.capacity_lt {refs : List (ℕ × ℕ)} {s : EncodedSection}
    (h : Tells e history base headers added lines refs e' s) {bound : ℕ}
    (hmax : e.maxCapacity < bound) : e'.dynamic.capacity < bound := by
  rcases h.capacity with hcap | ⟨hcap, -⟩ <;> omega

/-! ### The size of a section -/

/-- No line is longer than the size that its field is counted with. -/
theorem length_code_le {e : Encoder} {line : Line} {f : Field}
    (hfield : line.field history = some f) (hfits : line.Fits) (hbase : base < 2 ^ 62)
    (href : ∀ abs, line.ref = some abs → abs < 2 ^ 62) : (line.code e base).length ≤ f.size := by
  cases line with
  | indexedStatic index =>
    have hlt : index < 99 := hfits
    have := length_encode_le 6 (0x80 ||| 0x40) (show index < 2 ^ 62 by omega)
    simp only [Line.code, Field.size]
    omega
  | indexedDynamic abs =>
    have habs := href abs rfl
    have hpost := length_encode_le 4 0x10 (show abs - base < 2 ^ 62 by omega)
    have hpre := length_encode_le 6 0x80 (show base - abs - 1 < 2 ^ 62 by omega)
    simp only [Line.code, encodeIndexed, Field.size]
    split_ifs <;> omega
  | literalStaticName index value =>
    obtain ⟨hlt, hv⟩ := hfits
    obtain ⟨entry, -, rfl⟩ := Option.map_eq_some_iff.1 hfield
    have hname := length_encode_le 4 (0x40 ||| 0x10) (show index < 2 ^ 62 by omega)
    have hvalue := length_pushString_le e.huffman 8 0 hv
    simp only [Line.code, encodeLiteralWithStaticNameRef, length_append, Field.size]
    omega
  | literalDynamicName abs value =>
    have habs := href abs rfl
    obtain ⟨entry, -, rfl⟩ := Option.map_eq_some_iff.1 hfield
    have hpost := length_encode_le 3 0x00 (show abs - base < 2 ^ 62 by omega)
    have hpre := length_encode_le 4 0x40 (show base - abs - 1 < 2 ^ 62 by omega)
    have hvalue := length_pushString_le e.huffman 8 0 (show value.length < 2 ^ 62 from hfits)
    simp only [Line.code, Field.size]
    split_ifs
    · simp only [encodeLiteralPostBaseNameRef, length_append]
      omega
    · simp only [encodeLiteralWithNameRef, length_append]
      omega
  | literal sensitive name value =>
    obtain ⟨hn, hv⟩ := hfits
    obtain rfl := some.inj hfield
    have hname := length_pushString_le e.huffman 4 (0x20 ||| sensitiveBit sensitive) hn
    have hvalue := length_pushString_le e.huffman 8 0 hv
    simp only [Line.code, length_append, Field.size]
    omega

theorem length_lines_le (hbase : base < 2 ^ 62) (hspell : Spell history lines headers)
    (href : ∀ abs ∈ lines.filterMap ref, abs < 2 ^ 62) :
    (lines.flatMap (code e base)).length ≤ (headers.map Field.size).sum := by
  induction hspell with
  | nil => simp
  | @cons line f lines headers hline _ ih =>
    have hcode := length_code_le (e := e) hline.1 hline.2 hbase fun abs habs =>
      href abs (mem_filterMap.2 ⟨line, by simp, habs⟩)
    have hrest := ih fun abs habs => href abs (by
      rw [filterMap_cons]
      cases line.ref <;> simp [habs])
    rw [flatMap_cons, length_append, map_cons, sum_cons]
    omega

theorem length_encodePrefix_le {ric : ℕ} (hmax : e.maxCapacity < 2 ^ 62) (hric : ric < 2 ^ 62)
    (hbase : base < 2 ^ 62) : (e.encodePrefix ric base).length ≤ 20 := by
  have hwrap : wrapRic (e.maxCapacity / 32) ric < 2 ^ 62 := by
    rw [wrapRic]
    split_ifs
    · omega
    · have := Nat.mod_lt ric (y := 2 * (e.maxCapacity / 32)) (by omega)
      omega
  have hcount := length_encode_le 8 0 hwrap
  have habove := length_encode_le 7 0 (show base - ric < 2 ^ 62 by omega)
  have hbelow := length_encode_le 7 0x80 (show ric - base - 1 < 2 ^ 62 by omega)
  rw [encodePrefix, length_append]
  split_ifs <;> omega

/-- A section's octets are at most what its fields are counted with, and twenty. -/
theorem Tells.length_block_le {refs : List (ℕ × ℕ)} {e' : Encoder} {s : EncodedSection}
    (h : Tells e history base headers added lines refs e' s) (hmax : e.maxCapacity < 2 ^ 62)
    (hbase : base < 2 ^ 62) (hlen : history.length + headers.length < 2 ^ 62) :
    s.block.length ≤ 20 + (headers.map Field.size).sum := by
  have hbelow : ∀ abs ∈ lines.filterMap ref, abs + 1 < 2 ^ 62 := by
    intro abs habs
    have hlt := h.below abs habs
    have hle := h.length_le
    rw [length_append] at hlt
    omega
  have hric : ricOf lines < 2 ^ 62 := by
    rcases Nat.eq_zero_or_pos (ricOf lines) with h0 | hpos
    · omega
    · obtain ⟨abs, habs, hric⟩ := exists_ref_of_ricOf_pos hpos
      have := hbelow abs habs
      omega
  have hfront := length_encodePrefix_le hmax hric hbase
  have hlines := length_lines_le (e := e) hbase h.spell fun abs habs => by
    have := hbelow abs habs
    omega
  rw [h.block_eq, length_append]
  omega

end Encoder

end ZincioHttp.H3.Qpack
