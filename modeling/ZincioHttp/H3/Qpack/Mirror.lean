import ZincioHttp.H3.Qpack.Encoding

/-! The decoder follows the encoder. Its table has received an initial part of
the encoder's insertions; instructions that arrive complete extend that part,
and a section whose references lie within it decodes to what was encoded. -/

namespace ZincioHttp.H3.Qpack

open Lib ZincioHttp.Hpack DynamicTable List Instruction

/-- The table has followed `history` up to its insert count. -/
structure Mirror (capacity : ℕ) (history : List Field) (t : DynamicTable) : Prop where
  holds : t.Holds (history.take t.inserted)
  le : t.inserted ≤ history.length
  capacity_eq : t.capacity = capacity ∨ (t.capacity = 0 ∧ t.inserted = 0)

variable {t : DynamicTable}

namespace Mirror

variable {capacity : ℕ} {history : List Field} {d : Decoder} {f : Field}

/-- The instructions the decoder has not received yet. -/
def missing (capacity : ℕ) (history : List Field) (t : DynamicTable) : List Instruction :=
  instrsFor t.capacity capacity (history.drop t.inserted)

/-- The table has what lies between the encoder's oldest entry and its own
insert count. -/
theorem getAbsolute {maxCapacity : ℕ} (h : Mirror capacity history t)
    (hcap : Announced maxCapacity capacity history) {abs : ℕ}
    (hlo : oldest maxCapacity history ≤ abs) (hhi : abs < t.inserted) :
    t.getAbsolute abs = history[abs]? := by
  have hle := h.le
  have hold : oldest t.capacity (history.take t.inserted) ≤ abs := by
    obtain hc | ⟨-, h0⟩ := h.capacity_eq
    · have hmono := oldest_mono t.capacity (history.take t.inserted) (history.drop t.inserted)
      rw [take_append_drop, hc, hcap.oldest_eq] at hmono
      rw [hc]
      omega
    · omega
  rw [h.holds.getAbsolute hold (by rw [length_take]; omega), getElem?_take, if_pos hhi]

theorem setCapacity (h : Mirror capacity history d.dynamic) (hne : d.dynamic.capacity ≠ capacity)
    (hle : capacity ≤ d.maxCapacity) (hlt : capacity < 2 ^ 62) (huffman : Bool) :
    ∃ t, d.parseEncoderInstruction (code huffman (.setCapacity capacity)) =
        .ok { d with dynamic := t } ∧ Mirror capacity history t ∧ t.capacity = capacity ∧
      t.inserted = d.dynamic.inserted := by
  obtain ⟨-, hzero⟩ := h.capacity_eq.resolve_left hne
  have hholds := h.holds
  rw [hzero] at hholds
  obtain ⟨hholds', hcap', -⟩ := hholds.setCapacity capacity
  have hins : (d.dynamic.setCapacity capacity).inserted = 0 := hholds'.inserted_eq
  refine ⟨_, ?_, ⟨?_, by omega, .inl hcap'⟩, hcap', by omega⟩
  · have hnil : d.dynamic.entries = [] := by simpa [fit] using hholds.entries_eq
    rw [parse_setCapacity d huffman hlt, if_neg (by omega), evictForCapacity_eq,
      if_neg (by simp [len, hnil])]
  · rw [hins]
    exact hholds'

/-- The next entry is accepted: what it evicts the encoder knows to be received. -/
theorem insert (h : Mirror capacity history d.dynamic) (hcap : d.dynamic.capacity = capacity)
    (hfloor : oldest capacity history ≤ d.knownReceived)
    (hnext : history[d.dynamic.inserted]? = some f) (hf : f.Fits) (hsize : f.size ≤ capacity)
    (huffman : Bool) :
    ∃ t, d.parseEncoderInstruction (code huffman (.insert f)) =
        .ok { d with dynamic := t } ∧ Mirror capacity history t ∧ t.capacity = capacity ∧
      t.inserted = d.dynamic.inserted + 1 := by
  have hlt : d.dynamic.inserted < history.length := (List.getElem?_eq_some_iff.1 hnext).1
  have htake : history.take d.dynamic.inserted ++ [f] = history.take (d.dynamic.inserted + 1) := by
    rw [take_add_one, hnext, Option.toList_some]
  obtain ⟨t, hinsert, hholds, hcap', -⟩ := h.holds.insert (e := f) (by omega)
  have hevict := h.holds.first_add_wouldEvict (e := f) (by omega)
  have hmono := oldest_mono capacity (history.take (d.dynamic.inserted + 1))
    (history.drop (d.dynamic.inserted + 1))
  rw [htake, hcap] at hevict
  rw [take_append_drop] at hmono
  rw [htake] at hholds
  have hins : t.inserted = d.dynamic.inserted + 1 := by
    rw [hholds.inserted_eq, length_take]
    omega
  refine ⟨t, ?_, ⟨by rw [hins]; exact hholds, by omega, .inl (by omega)⟩, by omega, hins⟩
  rw [parse_insert d huffman hf, Decoder.insertEntry, if_neg (by omega), hinsert]

/-- The missing instructions fit the decoder's input buffer. -/
theorem length_missing_le {maxCapacity : ℕ} (huffman : Bool)
    (hfloor : oldest maxCapacity history ≤ t.inserted) (hlt : capacity < 2 ^ 62)
    (hfits : ∀ f ∈ history, f.Fits ∧ f.size ≤ maxCapacity) :
    ((missing capacity history t).flatMap (code huffman)).length ≤ maxCapacity + 10 := by
  have hinserts : ∀ l : List Field, (∀ f ∈ l, f.Fits) →
      ((l.map Instruction.insert).flatMap (code huffman)).length ≤ total Field.size l := by
    intro l
    induction l with
    | nil => simp
    | cons f l ih =>
      intro hl
      have h₁ := length_code_insert_le huffman (hl f (by simp))
      have h₂ := ih fun g hg => hl g (by simp [hg])
      rw [map_cons, flatMap_cons, length_append, total_cons]
      omega
  have h₁ := hinserts (history.drop t.inserted) fun f hf => (hfits f (mem_of_mem_drop hf)).1
  have h₂ := total_drop_le hfloor
  have h₃ : (code huffman (.setCapacity capacity)).length ≤ 10 :=
    Integer.length_encode_le 5 0x20 hlt
  rw [missing, instrsFor, flatMap_append, length_append]
  split_ifs
  · simp only [flatMap_nil, length_nil]
    omega
  · rw [flatMap_singleton]
    omega

end Mirror

/-- A decoder in the middle of a run: its table follows the encoder's, and what
the encoder may evict it knows to be received. -/
structure Decoder.Follows (capacity : ℕ) (history : List Field) (d : Decoder) : Prop where
  mirror : Mirror capacity history d.dynamic
  announced : Announced d.maxCapacity capacity history
  floor : oldest d.maxCapacity history ≤ d.knownReceived
  known_le : d.knownReceived ≤ d.dynamic.inserted
  max_lt : d.maxCapacity < 2 ^ 62
  length_lt : history.length < 2 ^ 62
  fits : ∀ f ∈ history, f.Fits ∧ f.size ≤ d.maxCapacity
  unlimited : d.maxFieldSectionSize = usizeMax

namespace Decoder.Follows

variable {capacity : ℕ} {history : List Field}

/-- Nothing else that `Follows` speaks of changes when a table moves on. -/
theorem advance {d : Decoder} (h : d.Follows capacity history) (ht : Mirror capacity history t)
    (hins : d.dynamic.inserted ≤ t.inserted) : Follows capacity history { d with dynamic := t } :=
  ⟨ht, h.announced, h.floor, h.known_le.trans hins, h.max_lt, h.length_lt, h.fits, h.unlimited⟩

theorem capacity_le {d : Decoder} (h : d.Follows capacity history) : capacity ≤ d.maxCapacity := by
  rcases h.announced with hc | ⟨hc, -⟩ <;> omega

/-- The decoder handles any number of the missing instructions. -/
theorem handleAll (huffman : Bool) (done : List Instruction) :
    ∀ {d : Decoder} {todo : List Instruction}, d.Follows capacity history →
    Mirror.missing capacity history d.dynamic = done ++ todo →
    ∃ t, Lib.handleAll (fun d i => parseEncoderInstruction d (code huffman i)) d done =
        .ok { d with dynamic := t } ∧ Follows capacity history { d with dynamic := t } ∧
      d.dynamic.inserted ≤ t.inserted ∧ Mirror.missing capacity history t = todo := by
  induction done with
  | nil =>
    intro d todo h hsplit
    exact ⟨d.dynamic, rfl, h, le_rfl, hsplit⟩
  | cons i done ih =>
    intro d todo h hsplit
    have hstep : ∃ t, d.parseEncoderInstruction (code huffman i) =
          .ok { d with dynamic := t } ∧ Mirror capacity history t ∧
        d.dynamic.inserted ≤ t.inserted ∧ Mirror.missing capacity history t = done ++ todo := by
      unfold Mirror.missing at hsplit
      by_cases hcap : d.dynamic.capacity = capacity
      · -- the next instruction inserts the next entry
        cases hdrop : history.drop d.dynamic.inserted with
        | nil => simp [instrsFor, hcap, hdrop] at hsplit
        | cons f rest =>
          obtain ⟨rfl, htail⟩ : .insert f = i ∧ rest.map Instruction.insert = done ++ todo := by
            simpa [instrsFor, hcap, hdrop] using hsplit
          have hnext : history[d.dynamic.inserted]? = some f := by
            rw [← head?_drop, hdrop, head?_cons]
          have hmem : f ∈ history := mem_of_getElem? hnext
          have hmax : capacity = d.maxCapacity :=
            h.announced.resolve_right fun hnil => by simp [hnil.2] at hmem
          obtain ⟨t, hparse, ht, htcap, hins⟩ := h.mirror.insert hcap
            (by rw [hmax]; exact h.floor) hnext (h.fits f hmem).1
            (by rw [hmax]; exact (h.fits f hmem).2) huffman
          refine ⟨t, hparse, ht, by omega, ?_⟩
          rw [Mirror.missing, htcap, hins, ← tail_drop, hdrop]
          simpa [instrsFor] using htail
      · -- the next instruction announces the capacity
        obtain ⟨rfl, htail⟩ : .setCapacity capacity = i ∧
            (history.drop d.dynamic.inserted).map Instruction.insert = done ++ todo := by
          simpa [instrsFor, hcap] using hsplit
        obtain ⟨t, hparse, ht, htcap, hins⟩ := h.mirror.setCapacity hcap h.capacity_le
          (h.capacity_le.trans_lt h.max_lt) huffman
        refine ⟨t, hparse, ht, by omega, ?_⟩
        rw [Mirror.missing, htcap, hins]
        simpa [instrsFor] using htail
    obtain ⟨t, hparse, ht, hins, hmissing⟩ := hstep
    obtain ⟨t', hrest, ht', hins', hmissing'⟩ := ih (h.advance ht hins) hmissing
    refine ⟨t', ?_, ht', le_trans hins hins', hmissing'⟩
    rw [Lib.handleAll, hparse]
    exact hrest

end Decoder.Follows

/-! ### Sections -/

/-- The acknowledgment the decoder owes for a section. -/
def Parcel.acks (p : Parcel) : List Feedback := p.pending.map fun r => .sectionAck r.1

theorem Parcel.acks_flatMap (p : Parcel) :
    p.acks.flatMap Feedback.code = if p.ric > 0 then Integer.encode p.stream 7 0x80 else [] := by
  by_cases hric : p.ric = 0
  · simp [acks, p.pending_eq_nil_iff.2 hric, hric]
  · obtain ⟨abs, habs, -⟩ := exists_ref_of_ricOf_pos (Nat.pos_of_ne_zero hric)
    obtain ⟨m, hm⟩ := exists_minRefOf habs
    simp [acks, pending, hm, Feedback.code, Nat.pos_of_ne_zero hric]

namespace Decoder.Follows

variable {capacity : ℕ} {history : List Field} {d : Decoder} {e : Encoder} {p : Parcel}

section
variable (h : d.Follows capacity history) (he : e.maxCapacity = d.maxCapacity)
  (hp : p.Sound (oldest d.maxCapacity history) history)
include h he hp

/-- The prefix of a section is read back whenever the section can still be on
its way: its Required Insert Count is within the window. -/
theorem readPrefix :
    d.readPrefix (p.block e) = .ok (p.ric, p.base, p.lines.flatMap (Line.code e p.base)) := by
  have hwindow := length_le_oldest_add d.maxCapacity history
  have hfloor := h.floor
  have hknown := h.known_le
  have hins := h.mirror.le
  have hlt := h.length_lt
  have hbase := hp.base_le
  have hric : p.ric = 0 ∨ (oldest d.maxCapacity history < p.ric ∧ p.ric ≤ history.length) := by
    by_cases h0 : p.ric = 0
    · exact .inl h0
    · obtain ⟨abs, habs, heq⟩ := exists_ref_of_ricOf_pos (Nat.pos_of_ne_zero h0)
      have := hp.refs abs habs
      simp only [Parcel.ric]
      omega
  exact readPrefix_encodePrefix he h.max_lt (by omega) (by omega) (by omega) _

/-- A section whose Required Insert Count is reached decodes to what was
encoded, and is acknowledged if it has references. -/
theorem finishSection (hric : p.ric ≤ d.dynamic.inserted) :
    ∃ sizes, d.finishSection (p.block e) p.stream p.ric = .ok ({ d with
        sectionSizeByStream := sizes
        knownReceived := max d.knownReceived p.ric
        decoderStream := d.decoderStream ++ p.acks.flatMap Feedback.code }, p.headers) := by
  have hbudget : d.remainingBudget p.stream = none := if_pos h.unlimited
  have hget : ∀ abs ∈ p.lines.filterMap Line.ref,
      d.dynamic.getAbsolute abs = history[abs]? ∧ abs < 2 ^ 62 := by
    intro abs habs
    obtain ⟨hlo, hhi⟩ := hp.refs abs habs
    have hlt : abs < p.ric := lt_ricOf habs
    exact ⟨h.mirror.getAbsolute h.announced hlo (by omega), hhi.trans h.length_lt⟩
  obtain ⟨size, hlines⟩ := readLines_code (e := e) (hp.base_le.trans_lt h.length_lt) hp.spell _
    [] 0 0 hget (by simpa using hp.count) le_rfl
  have hready : d.decodeReady (p.block e) none = .ok (p.headers, size) := by
    simp only [decodeReady, h.readPrefix he hp, ok_bind, hlines]
    simp [Parcel.ric]
  refine ⟨(d.accountSection p.stream size).sectionSizeByStream, ?_⟩
  rw [Decoder.finishSection, hbudget, hready, p.acks_flatMap]
  by_cases h0 : p.ric > 0
  · simp [h0, accountSection, acknowledge, emitSectionAck]
  · have h0' : p.ric = 0 := by omega
    simp [h0', accountSection]

end

/-- Acknowledging a section keeps the decoder in the run. -/
theorem acknowledge (h : d.Follows capacity history) {ric : ℕ} (hric : ric ≤ d.dynamic.inserted)
    (sizes : ℕ → Option ℕ) (out : Octets) :
    Follows capacity history { d with
      sectionSizeByStream := sizes
      knownReceived := max d.knownReceived ric
      decoderStream := out } :=
  ⟨h.mirror, h.announced, h.floor.trans (le_max_left _ _), max_le h.known_le hric, h.max_lt,
    h.length_lt, h.fits, h.unlimited⟩

end Decoder.Follows

end ZincioHttp.H3.Qpack
