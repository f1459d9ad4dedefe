import ZincioHttp.H3.Qpack.Instruction

/-! What the operations of the two ends can change, for input of any kind. The
encoder stream only lets the table grow; a section that is ready raises the Known
Received Count to its Required Insert Count; a feed releases sections from the
front of the queue and ends with everything inserted acknowledged. -/

namespace ZincioHttp.H3.Qpack

open Lib ZincioHttp.Hpack List Integer Feedback BlockedSection UnblockedSection

namespace Decoder

variable {d d' : Decoder} {buf : Octets} {sections : List UnblockedSection}

/-! ### The encoder stream -/

/-- Only the table differs, and it has not lost count of an insertion. -/
def Grows (d d' : Decoder) : Prop :=
  ∃ t, d' = { d with dynamic := t } ∧ d.dynamic.inserted ≤ t.inserted

theorem Grows.refl (d : Decoder) : Grows d d := ⟨d.dynamic, rfl, le_rfl⟩

theorem Grows.trans {d₁ d₂ d₃ : Decoder} (h : Grows d₁ d₂) (h' : Grows d₂ d₃) : Grows d₁ d₃ := by
  obtain ⟨t, rfl, ht⟩ := h
  obtain ⟨t', rfl, ht'⟩ := h'
  exact ⟨t', rfl, ht.trans ht'⟩

theorem insertEntry_grows {f : Field} (h : d.insertEntry f = .ok d') : Grows d d' := by
  rw [insertEntry] at h
  split_ifs at h
  cases hins : d.dynamic.insert f with
  | none => simp [hins] at h
  | some t =>
    rw [hins] at h
    cases h
    exact ⟨t, rfl, (Nat.le_succ _).trans (DynamicTable.insert_counts hins).1.ge⟩

theorem parseEncoderInstruction_grows {instr : Octets}
    (h : d.parseEncoderInstruction instr = .ok d') : Grows d d' := by
  cases instr with
  | nil =>
    cases h
    exact .refl d
  | cons header rest =>
    rw [parseEncoderInstruction] at h
    split at h
    · obtain ⟨index, -, h⟩ := bind_eq_ok.1 h
      obtain ⟨value, -, h⟩ := bind_eq_ok.1 h
      obtain ⟨entry, -, h⟩ := bind_eq_ok.1 h
      exact insertEntry_grows h
    split at h
    · obtain ⟨name, -, h⟩ := bind_eq_ok.1 h
      obtain ⟨value, -, h⟩ := bind_eq_ok.1 h
      exact insertEntry_grows h
    split at h
    · obtain ⟨capacity, -, h⟩ := bind_eq_ok.1 h
      dsimp only at h
      split_ifs at h
      cases h
      exact ⟨_, rfl, (DynamicTable.inserted_setCapacity _ _).ge⟩
    · obtain ⟨index, -, h⟩ := bind_eq_ok.1 h
      obtain ⟨entry, -, h⟩ := bind_eq_ok.1 h
      exact insertEntry_grows h

/-! ### Sections -/

/-- What acknowledging a section with the given count puts on the decoder
stream. -/
def acksFor (stream ric : ℕ) : List Feedback := if ric > 0 then [.sectionAck stream] else []

theorem finishSection_ok {stream ric : ℕ} {headers : List Field}
    (h : d.finishSection buf stream ric = .ok (d', headers)) :
    ∃ size, d' = { d.accountSection stream size with
      knownReceived := max d.knownReceived ric
      decoderStream := d.decoderStream ++ (acksFor stream ric).flatMap code } := by
  obtain ⟨⟨fields, size⟩, -, h⟩ := bind_eq_ok.1 h
  simp only [pure, Except.pure, Except.ok.injEq, Prod.mk.injEq] at h
  refine ⟨size, h.1.symm.trans ?_⟩
  split_ifs with hric
  · simp [acksFor, hric, acknowledge, emitSectionAck, accountSection, code]
  · obtain rfl : ric = 0 := by omega
    simp [acksFor, accountSection]

/-- A section is queued as it is, or it is ready and decoded. -/
theorem decodeBlock_ok {stream now : ℕ} {headers : Option (List Field)}
    (h : d.decodeBlock buf stream now = .ok (d', headers)) :
    ∃ ric, (headers = none ∧
        d' = { d with blocked := d.blocked ++ [BlockedSection.mk stream buf ric now]
          }.addBlockedSection stream ∧
        (d.dynamic.inserted < ric ∨ d.streamHasBlocked stream) ∧
        (d.streamHasBlocked stream ∨ d.blockedByStream.length < d.maxBlockedStreams)) ∨
      (∃ fields size, headers = some fields ∧ ric ≤ d.dynamic.inserted ∧
        ¬d.streamHasBlocked stream ∧
        d' = { d.accountSection stream size with
          knownReceived := max d.knownReceived ric
          decoderStream := d.decoderStream ++ (acksFor stream ric).flatMap code }) := by
  obtain ⟨⟨ric, base, rest⟩, -, h⟩ := bind_eq_ok.1 h
  refine ⟨ric, ?_⟩
  dsimp only at h
  split_ifs at h with hwait hfull
  · cases h
    refine .inl ⟨rfl, rfl, hwait, ?_⟩
    cases hb : d.streamHasBlocked stream with
    | true => exact .inl rfl
    | false => simpa [hb] using hfull
  · obtain ⟨⟨d₁, fields⟩, hfinish, h⟩ := bind_eq_ok.1 h
    cases h
    obtain ⟨size, heq⟩ := finishSection_ok hfinish
    push Not at hwait
    exact .inr ⟨fields, size, rfl, hwait.1, hwait.2, heq⟩

/-! ### Feeding -/

/-- The sections `out` have left the queue, and the rest of it waits. -/
structure Releases (d d' : Decoder) (out rest : List BlockedSection)
    (sections : List UnblockedSection) : Prop where
  dynamic_eq : d'.dynamic = d.dynamic
  blocked_eq : d'.blocked = rest
  streams_eq : sections.map UnblockedSection.stream = out.map BlockedSection.stream
  known_eq : d'.knownReceived = (out.map BlockedSection.ric).foldl max d.knownReceived
  stream_eq : d'.decoderStream =
    d.decoderStream ++ (out.flatMap fun b => acksFor b.stream b.ric).flatMap Feedback.code
  pending_eq : d'.encoderStreamPending = d.encoderStreamPending
  counts_eq : d'.blockedByStream =
    out.foldl (fun counts b => Tally.remove counts b.stream) d.blockedByStream
  reached : ∀ b ∈ out, b.ric ≤ d.dynamic.inserted
  waits : ∀ b ∈ rest.head?, d.dynamic.inserted < b.ric

theorem unblock_ok (blocked : List BlockedSection) : ∀ {d d' : Decoder}
    {sections : List UnblockedSection}, unblock blocked d = .ok (d', sections) →
    ∃ out rest, blocked = out ++ rest ∧ Releases d d' out rest sections := by
  induction blocked with
  | nil =>
    intro d d' sections h
    cases h
    exact ⟨[], [], rfl, by constructor <;> simp⟩
  | cons front blocked ih =>
    intro d d' sections h
    rw [unblock] at h
    split_ifs at h with hric
    · cases h
      exact ⟨[], front :: blocked, rfl, by constructor <;> simp [hric]⟩
    obtain ⟨⟨d₁, headers⟩, hfinish, h⟩ := bind_eq_ok.1 h
    obtain ⟨⟨d₂, later⟩, hlater, h⟩ := bind_eq_ok.1 h
    cases h
    obtain ⟨size, rfl⟩ := finishSection_ok hfinish
    obtain ⟨out, rest, rfl, hrel⟩ := ih hlater
    refine ⟨front :: out, rest, rfl, ?_⟩
    exact
      { dynamic_eq := hrel.dynamic_eq
        blocked_eq := hrel.blocked_eq
        streams_eq := by simp [hrel.streams_eq]
        known_eq := hrel.known_eq
        stream_eq := by
          rw [hrel.stream_eq]
          simp [removeBlockedSection]
        pending_eq := hrel.pending_eq
        counts_eq := hrel.counts_eq
        reached := by
          intro b hb
          rcases List.mem_cons.1 hb with rfl | hb
          · exact not_lt.1 hric
          · exact hrel.reached b hb
        waits := hrel.waits }

theorem unblock_sizes (blocked : List BlockedSection) {s : ℕ} : ∀ {d d' : Decoder}
    {sections : List UnblockedSection}, unblock blocked d = .ok (d', sections) →
    s ∉ sections.map UnblockedSection.stream →
      d'.sectionSizeByStream s = d.sectionSizeByStream s := by
  induction blocked with
  | nil =>
    intro d d' sections h _
    cases h
    rfl
  | cons front blocked ih =>
    intro d d' sections h hs
    rw [unblock] at h
    split_ifs at h with hric
    · cases h
      rfl
    obtain ⟨⟨d₁, headers⟩, hfinish, h⟩ := bind_eq_ok.1 h
    obtain ⟨⟨d₂, later⟩, hlater, h⟩ := bind_eq_ok.1 h
    cases h
    obtain ⟨size, rfl⟩ := finishSection_ok hfinish
    rw [map_cons, mem_cons, not_or] at hs
    exact (ih hlater hs.2).trans (Function.update_of_ne hs.1 _ _)

/-- The number of insertions once the instructions that `buf` completes have been
carried out. -/
def insertCountAfter (d : Decoder) (buf : Octets) : ℕ :=
  let data := d.encoderStreamPending ++ buf
  match drain encoderInstructionLen parseEncoderInstruction data.length d data with
  | .error _ => d.dynamic.inserted
  | .ok (d', _) => d'.dynamic.inserted

section
variable (h : d.feedEncoderStream buf = .ok (d', sections))
include h

/-- The stages of a feed: instructions, releases, and the increment. -/
theorem feedEncoderStream_stages :
    ∃ d₁ d₂ pending, drain encoderInstructionLen parseEncoderInstruction
        (d.encoderStreamPending ++ buf).length d (d.encoderStreamPending ++ buf) =
          .ok (d₁, pending) ∧
      unblock d₁.blocked { d₁ with encoderStreamPending := pending } = .ok (d₂, sections) ∧
      d' = d₂.emitIncrement ∧
      (d.encoderStreamPending ++ buf).length ≤ min (d.maxCapacity + 1024) usizeMax := by
  rw [feedEncoderStream] at h
  split_ifs at h with hlen
  obtain ⟨⟨d₁, pending⟩, hdrain, h⟩ := bind_eq_ok.1 h
  obtain ⟨⟨d₂, released⟩, hunblock, h⟩ := bind_eq_ok.1 h
  cases h
  exact ⟨d₁, d₂, pending, hdrain, hunblock, rfl, not_lt.1 hlen⟩

/-- A feed lets the table grow, releases sections and acknowledges what is left
to acknowledge. -/
theorem feedEncoderStream_ok :
    ∃ d₁ d₂ pending out rest, Grows d d₁ ∧ d₁.dynamic.inserted = d.insertCountAfter buf ∧
      d.blocked = out ++ rest ∧
      Releases { d₁ with encoderStreamPending := pending } d₂ out rest sections ∧
      d' = d₂.emitIncrement := by
  obtain ⟨d₁, d₂, pending, hdrain, hunblock, rfl, -⟩ := feedEncoderStream_stages h
  have hgrows : Grows d d₁ :=
    drain_rel Grows.refl Grows.trans parseEncoderInstruction_grows _ hdrain
  obtain ⟨out, rest, hsplit, hrel⟩ := unblock_ok _ hunblock
  refine ⟨d₁, d₂, pending, out, rest, hgrows, ?_, ?_, hrel, rfl⟩
  · simp only [insertCountAfter, hdrain]
  · obtain ⟨t, rfl, -⟩ := hgrows
    exact hsplit

theorem feedEncoderStream_sizes {s : ℕ} (hs : s ∉ sections.map UnblockedSection.stream) :
    d'.sectionSizeByStream s = d.sectionSizeByStream s := by
  obtain ⟨d₁, d₂, pending, hdrain, hunblock, rfl, -⟩ := feedEncoderStream_stages h
  obtain ⟨t, rfl, -⟩ : Grows d d₁ :=
    drain_rel Grows.refl Grows.trans parseEncoderInstruction_grows _ hdrain
  have hsizes := unblock_sizes _ hunblock hs
  unfold emitIncrement
  split_ifs <;> exact hsizes

theorem feedEncoderStream_blocked {out rest : List BlockedSection}
    (hsplit : d.blocked = out ++ rest)
    (hstreams : sections.map UnblockedSection.stream = out.map BlockedSection.stream) :
    d'.blocked = rest := by
  obtain ⟨d₁, d₂, pending, out', rest', -, -, hsplit', hrel, rfl⟩ := feedEncoderStream_ok h
  have hlength : out.length = out'.length := by
    have := congrArg length (hstreams.symm.trans hrel.streams_eq)
    simpa using this
  have heq : rest = rest' := (append_inj (hsplit.symm.trans hsplit') hlength).2
  rw [heq, ← hrel.blocked_eq]
  unfold emitIncrement
  split_ifs <;> rfl

end

/-! ### What holds between calls -/

theorem emitIncrement_settles (h : d.knownReceived ≤ d.dynamic.inserted) :
    ∃ incs : List Feedback, d.emitIncrement =
        { d with
          knownReceived := d.dynamic.inserted
          decoderStream := d.decoderStream ++ incs.flatMap code } ∧
      d.knownReceived + (incs.map amount).sum = d.dynamic.inserted := by
  unfold emitIncrement
  split_ifs with hlt
  · refine ⟨[.increment (d.dynamic.inserted - d.knownReceived)], by simp [code], ?_⟩
    show d.knownReceived + (d.dynamic.inserted - d.knownReceived + 0) = _
    omega
  · have heq : d.knownReceived = d.dynamic.inserted := le_antisymm h (not_lt.1 hlt)
    exact ⟨[], by simp [← heq], heq⟩

/-- The queue is counted by stream, its front waits for an insertion to come, and
every insertion has been acknowledged. -/
structure Consistent (d : Decoder) : Prop where
  counts : Tally.Counts d.blockedByStream (d.blocked.map BlockedSection.stream)
  waits : ∀ b ∈ d.blocked.head?, d.dynamic.inserted < b.ric
  settled : d.knownReceived = d.dynamic.inserted

theorem Consistent.new (maxCapacity maxBlockedStreams : ℕ) :
    (new maxCapacity maxBlockedStreams).Consistent :=
  ⟨.empty, by simp [Decoder.new], rfl⟩

/-- Acknowledging a section that is ready teaches nothing new. -/
theorem Consistent.decodeBlock (h : d.Consistent) {stream now : ℕ} {headers : Option (List Field)}
    (hdecode : d.decodeBlock buf stream now = .ok (d', headers)) :
    d'.Consistent ∧ d'.knownReceived = d.knownReceived ∧ ∃ acks : List Feedback,
      (acks.map amount).sum = 0 ∧
      d'.decoderStream = d.decoderStream ++ acks.flatMap code := by
  obtain ⟨ric, ⟨-, rfl, hwait, -⟩ | ⟨fields, size, -, hric, -, rfl⟩⟩ := decodeBlock_ok hdecode
  · refine ⟨⟨?_, ?_, h.settled⟩, rfl, [], rfl, (append_nil _).symm⟩
    · show Tally.Counts _ ((d.blocked ++ [_]).map _)
      rw [map_append]
      exact h.counts.add stream
    · -- the new section is the front only when nothing else of its stream waits
      cases hb : d.blocked with
      | nil =>
        have hfree : ¬d.streamHasBlocked stream := by
          have hiff : d.streamHasBlocked stream ↔ stream ∈ d.blocked.map BlockedSection.stream :=
            h.counts.has_iff
          rw [hiff, hb]
          exact not_mem_nil
        have hlt := hwait.resolve_right hfree
        rintro b hmem
        cases hmem
        exact hlt
      | cons front rest =>
        have hfront := h.waits
        rw [hb] at hfront
        exact hfront
  · have hmax : max d.knownReceived ric = d.knownReceived := by
      rw [h.settled]
      exact max_eq_left hric
    refine ⟨⟨h.counts, h.waits, hmax.trans h.settled⟩, hmax, acksFor stream ric, ?_, rfl⟩
    unfold acksFor
    split_ifs <;> rfl

theorem counts_release (out : List BlockedSection) : ∀ {counts : List (ℕ × ℕ)} {keys : List ℕ},
    Tally.Counts counts (out.map BlockedSection.stream ++ keys) →
    Tally.Counts (out.foldl (fun counts b => Tally.remove counts b.stream) counts) keys := by
  induction out with
  | nil => exact id
  | cons b out ih => exact fun h => ih h.remove

theorem foldl_max_le (rics : List ℕ) :
    ∀ {known bound : ℕ}, known ≤ bound → (∀ r ∈ rics, r ≤ bound) →
      known ≤ rics.foldl max known ∧ rics.foldl max known ≤ bound := by
  induction rics with
  | nil => exact fun h _ => ⟨le_rfl, h⟩
  | cons r rics ih =>
    intro known bound h hall
    have := ih (max_le h (hall r (by simp))) fun x hx => hall x (by simp [hx])
    exact ⟨(le_max_left _ _).trans this.1, this.2⟩

/-- After a feed the front waits again, and all insertions are acknowledged: some
by the sections released, the others by an increment. -/
theorem Consistent.feedEncoderStream (h : d.Consistent)
    (hfeed : d.feedEncoderStream buf = .ok (d', sections)) :
    d'.Consistent ∧ d.dynamic.inserted ≤ d.insertCountAfter buf ∧
      ∃ (out rest : List BlockedSection) (incs : List Feedback), d.blocked = out ++ rest ∧
        sections.map UnblockedSection.stream = out.map BlockedSection.stream ∧
        (∀ b ∈ out, b.ric ≤ d.insertCountAfter buf) ∧
        (∀ b ∈ rest.head?, d.insertCountAfter buf < b.ric) ∧
        d'.decoderStream = d.decoderStream ++
          ((out.flatMap fun b => acksFor b.stream b.ric) ++ incs).flatMap code ∧
        (out.map ric).foldl max d.knownReceived + (incs.map amount).sum =
          d'.knownReceived := by
  obtain ⟨d₁, d₂, pending, out, rest, ⟨t, rfl, hgrows⟩, hcount, hsplit, hrel, rfl⟩ :=
    feedEncoderStream_ok hfeed
  have hreached : ∀ b ∈ out, b.ric ≤ t.inserted := hrel.reached
  have hwaits : ∀ b ∈ rest.head?, t.inserted < b.ric := hrel.waits
  have hdyn : d₂.dynamic = t := hrel.dynamic_eq
  have hknown : d₂.knownReceived = (out.map ric).foldl max d.knownReceived :=
    hrel.known_eq
  have hbound := foldl_max_le (out.map ric) (h.settled.le.trans hgrows)
    (by simpa using hreached)
  obtain ⟨incs, hemit, htotal⟩ := emitIncrement_settles
    (show d₂.knownReceived ≤ _ by rw [hknown, hdyn]; exact hbound.2)
  have hcounts : Tally.Counts d₂.blockedByStream (rest.map BlockedSection.stream) := by
    rw [hrel.counts_eq]
    refine counts_release out ?_
    rw [← map_append, ← hsplit]
    exact h.counts
  rw [hemit, ← hcount]
  refine ⟨⟨?_, ?_, rfl⟩, hgrows, out, rest, incs, hsplit, hrel.streams_eq, hreached, hwaits, ?_, ?_⟩
  · rw [hrel.blocked_eq]
    exact hcounts
  · rw [hrel.blocked_eq, hdyn]
    exact hwaits
  · rw [hrel.stream_eq]
    simp
  · rw [← hknown]
    exact htotal

end Decoder

namespace Encoder

variable {e e' : Encoder}

/-- Encoding a section leaves alone what the decoder stream has brought. -/
theorem encodeSectionWithBase_received (e : Encoder) (stream : ℕ) (headers : List Field)
    (base : ℕ) :
    (e.encodeSectionWithBase stream headers base).1.knownReceived = e.knownReceived ∧
      (e.encodeSectionWithBase stream headers base).1.decoderStreamPending =
        e.decoderStreamPending ∧
      (e.encodeSectionWithBase stream headers base).1.maxCapacity = e.maxCapacity := by
  simp only [encodeSectionWithBase]
  split_ifs <;> exact ⟨rfl, rfl, rfl⟩

/-- Without room for a single entry no field touches the table. -/
theorem foldl_encodeField_unused (h : e.maxCapacity < 32) (base : ℕ) (headers : List Field) :
    ∀ s : Section, (headers.foldl (e.encodeField base) s).dynamic = s.dynamic ∧
      (headers.foldl (e.encodeField base) s).encoderStream = s.encoderStream ∧
      (headers.foldl (e.encodeField base) s).ric = s.ric := by
  induction headers with
  | nil => exact fun _ => ⟨rfl, rfl, rfl⟩
  | cons f headers ih =>
    intro s
    obtain ⟨line, hw⟩ := encodeField_writes e base s f
    rw [foldl_cons]
    generalize e.encodeField base s f = s' at hw ⊢
    cases hw with
    | plain => exact ih _
    | indexed _ husable | named _ husable | inserted _ husable => exact absurd husable (not_le.2 h)

theorem encodeSectionWithBase_unused (h : e.maxCapacity < 32) (stream : ℕ) (headers : List Field)
    (base : ℕ) : (e.encodeSectionWithBase stream headers base).1 = e ∧
      (e.encodeSectionWithBase stream headers base).2.encoderStream = [] := by
  obtain ⟨hdynamic, hstream, hric⟩ :=
    foldl_encodeField_unused h base headers ⟨e.dynamic, [], [], none, 0⟩
  simp only [encodeSectionWithBase, hdynamic, hstream, hric]
  exact ⟨rfl, trivial⟩

theorem minPending_append (refs refs' : List (ℕ × ℕ)) :
    minPending (refs ++ refs') = min (minPending refs) (minPending refs') := by
  induction refs with
  | nil =>
    have : minPending refs' ≤ u64Max := by
      induction refs' with
      | nil => exact le_rfl
      | cons r refs' ih => exact (min_le_right _ _).trans ih
    simpa [minPending] using this
  | cons r refs ih =>
    simp only [cons_append, minPending, foldr_cons, min_assoc] at ih ⊢
    rw [ih]

theorem le_minPending {refs : List (ℕ × ℕ)} {x : ℕ} :
    x ≤ minPending refs ↔ x ≤ u64Max ∧ ∀ r ∈ refs, x ≤ r.2 := by
  induction refs with
  | nil => simp [minPending]
  | cons r refs ih =>
    simp only [minPending, foldr_cons, le_min_iff, forall_mem_cons] at ih ⊢
    tauto

theorem minPending_anti {refs refs' : List (ℕ × ℕ)} (h : refs ⊆ refs') :
    minPending refs' ≤ minPending refs :=
  have hle := le_minPending.1 (le_refl (minPending refs'))
  le_minPending.2 ⟨hle.1, fun r hr => hle.2 r (h hr)⟩

/-- An acknowledgment frees the oldest section of its stream, if there is one. -/
theorem acknowledgeSection_cases (e : Encoder) (stream : ℕ) :
    ((∀ r ∈ e.pendingRefs, r.1 ≠ stream) ∧ e.acknowledgeSection stream = e) ∨
    ∃ l₁ m l₂, e.pendingRefs = l₁ ++ (stream, m) :: l₂ ∧ (∀ r ∈ l₁, r.1 ≠ stream) ∧
      e.acknowledgeSection stream = { e with
        pendingRefs := l₁ ++ l₂
        cachedMinPending := if m = e.cachedMinPending then minPending (l₁ ++ l₂)
          else e.cachedMinPending } := by
  by_cases hany : ∃ r ∈ e.pendingRefs, r.1 = stream
  · obtain ⟨r, hmem, hr⟩ := hany
    obtain ⟨⟨s, m⟩, l₁, l₂, hl₁, hs, hsplit, -⟩ :=
      exists_of_eraseP (p := fun r : ℕ × ℕ => decide (r.1 = stream)) hmem (decide_eq_true hr)
    obtain rfl : s = stream := of_decide_eq_true hs
    refine .inr ⟨l₁, m, l₂, hsplit, by simpa using hl₁, ?_⟩
    have hfind : e.pendingRefs.findIdx? (fun r => decide (r.1 = s)) = some l₁.length := by
      rw [hsplit, findIdx?_append, List.findIdx?_eq_none_iff.2 (by simpa using hl₁)]
      simp [findIdx?_cons]
    have hget : (e.pendingRefs.getD l₁.length (0, 0)).2 = m := by
      rw [hsplit]
      simp
    have herase : e.pendingRefs.eraseIdx l₁.length = l₁ ++ l₂ := by
      rw [hsplit, eraseIdx_append_of_length_le le_rfl]
      simp
    simp only [acknowledgeSection, hfind, hget, herase]
  · push Not at hany
    refine .inl ⟨hany, ?_⟩
    rw [acknowledgeSection, List.findIdx?_eq_none_iff.2 (by simpa using hany)]

/-- What the encoder can learn from one instruction: that references are free, or that more
insertions have been received. -/
inductive Learns (e : Encoder) : Encoder → Prop
  | nothing : Learns e e
  | released {refs : List (ℕ × ℕ)} {cached : ℕ} (hsub : refs.Sublist e.pendingRefs)
      (hcached : cached = minPending refs ∨ cached = e.cachedMinPending ∧
        (e.cachedMinPending = minPending e.pendingRefs → cached = minPending refs)) :
      Learns e { e with pendingRefs := refs, cachedMinPending := cached }
  | increment {n : ℕ} (hpos : 0 < n) (hle : min (e.knownReceived + n) u64Max ≤ e.dynamic.inserted) :
      Learns e { e with knownReceived := e.knownReceived + n }

theorem learns_acknowledgeSection (e : Encoder) (stream : ℕ) :
    Learns e (e.acknowledgeSection stream) := by
  rcases e.acknowledgeSection_cases stream with ⟨-, heq⟩ | ⟨l₁, m, l₂, hsplit, -, heq⟩
  · rw [heq]
    exact .nothing
  rw [heq]
  refine .released ?_ ?_
  · rw [hsplit]
    exact (sublist_cons_self _ _).append_left l₁
  · split_ifs
    · exact .inl rfl
    · -- what is freed is not the smallest
      refine .inr ⟨rfl, fun hcached => ?_⟩
      have hmin := minPending_append l₁ ((stream, m) :: l₂)
      rw [← hsplit, show minPending ((stream, m) :: l₂) = min m (minPending l₂) from rfl] at hmin
      have hmin' := minPending_append l₁ l₂
      omega

theorem learns_cancelStream (e : Encoder) (stream : ℕ) : Learns e (e.cancelStream stream) := by
  refine .released filter_sublist ?_
  split_ifs with hlen
  · exact .inl rfl
  · rw [filter_sublist.eq_of_length (not_not.1 hlen)]
    exact .inr ⟨rfl, id⟩

theorem handleInstruction_learns {instr : Octets} (h : e.handleInstruction instr = .ok e') :
    Learns e e' := by
  cases instr with
  | nil =>
    cases h
    exact .nothing
  | cons header rest =>
    rw [handleInstruction] at h
    split_ifs at h
    · split at h
      · cases h
      · cases h
        exact learns_acknowledgeSection e _
    · split at h
      · cases h
      · cases h
        exact learns_cancelStream e _
    · split at h
      · cases h
      · split_ifs at h with hbad
        cases h
        push Not at hbad
        exact .increment (Nat.pos_of_ne_zero hbad.1) hbad.2

theorem Learns.settings (h : Learns e e') :
    e'.dynamic = e.dynamic ∧ e'.maxCapacity = e.maxCapacity ∧ e'.huffman = e.huffman := by
  cases h <;> exact ⟨rfl, rfl, rfl⟩

theorem Learns.known_le (h : Learns e e') : e.knownReceived ≤ e'.knownReceived := by
  cases h with
  | nothing => exact le_rfl
  | released => exact le_rfl
  | increment => exact Nat.le_add_right _ _

/-- What the encoder learns from one item of feedback it accepts. -/
theorem handleInstruction_feedback {a : Feedback} (h : e.handleInstruction a.code = .ok e') :
    e'.knownReceived = e.knownReceived + a.amount := by
  cases a with
  | sectionAck stream =>
    obtain ⟨first, tail, henc, hfirst, -⟩ := encode_cases stream 7 0x80
    rw [code, henc, handleInstruction, if_pos ((bits_of_div first).1 hfirst)] at h
    cases hdec : decode tail 7 first with
    | error err => simp [hdec] at h
    | ok x =>
      rw [hdec] at h
      cases h
      rcases e.acknowledgeSection_cases _ with ⟨-, heq⟩ | ⟨_, _, _, -, -, heq⟩ <;> rw [heq] <;> rfl
  | increment n =>
    obtain ⟨first, tail, henc, hfirst, hread⟩ := encode_cases n 6 0x00
    obtain ⟨h80, h40⟩ := (bits_of_div first).2 hfirst
    rw [code, henc, handleInstruction, if_neg (by simp [h80]), if_neg (by simp [h40])] at h
    cases hdec : decode tail 6 first with
    | error err => simp [hdec] at h
    | ok x =>
      obtain ⟨v, left⟩ := x
      rw [hdec] at h
      dsimp only at h
      split_ifs at h
      cases h
      have hv : v = n := @hread [] left v (by rw [append_nil]; exact hdec)
      rw [hv, amount]

end Encoder

end ZincioHttp.H3.Qpack
