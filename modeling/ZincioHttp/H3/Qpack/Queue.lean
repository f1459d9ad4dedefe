import ZincioHttp.H3.Qpack.Mirror

/-! The decoder's queue of blocked sections. A section waits when its Required
Insert Count has not been reached or an earlier section of its stream waits;
feeding the encoder stream releases sections from the front while they are
ready. Nothing is reordered within a stream, and whatever is released has been
decoded to what was encoded. -/

namespace ZincioHttp.H3.Qpack

open Lib ZincioHttp.Hpack DynamicTable List Parcel Feedback Decoder Instruction

/-- A queued section is a parcel that has arrived. -/
structure BlockedSection.Holds (e : Encoder) (b : BlockedSection) (p : Parcel) : Prop where
  stream_eq : b.stream = p.stream
  buf_eq : b.buf = p.block e
  ric_eq : b.ric = p.ric

namespace Decoder

/-- The decoder has queued the parcels `queue`. -/
structure Queues (e : Encoder) (d : Decoder) (queue : List Parcel) : Prop where
  blocked : List.Forall₂ (BlockedSection.Holds e) d.blocked queue
  counts : Tally.Counts d.blockedByStream (queue.map Parcel.stream)

def released (p : Parcel) : UnblockedSection := ⟨p.stream, p.headers⟩

namespace Follows

variable {capacity : ℕ} {history : List Field} {d : Decoder} {e : Encoder} {queue : List Parcel}
  {p : Parcel}

section
variable (h : d.Follows capacity history)
include h

theorem congr {d' : Decoder} (hd : d'.dynamic = d.dynamic) (hm : d'.maxCapacity = d.maxCapacity)
    (hk : d'.knownReceived = d.knownReceived)
    (hs : d'.maxFieldSectionSize = d.maxFieldSectionSize) :
    d'.Follows capacity history :=
  ⟨hd ▸ h.mirror, hm ▸ h.announced, by rw [hm, hk]; exact h.floor, by rw [hd, hk]; exact h.known_le,
    hm ▸ h.max_lt, h.length_lt, hm ▸ h.fits, hs ▸ h.unlimited⟩

section
variable (hq : d.Queues e queue) (he : e.maxCapacity = d.maxCapacity)
  (hp : p.Sound (oldest d.maxCapacity history) history)
include hq he hp

/-- An arriving section is queued behind the others, if there is room. -/
theorem decodeBlock_queued
    (hroom : p.stream ∉ queue.map stream → d.blockedByStream.length < d.maxBlockedStreams)
    (hwait : d.dynamic.inserted < p.ric ∨ p.stream ∈ queue.map stream) (now : ℕ) :
    ∃ blocked counts, d.decodeBlock (p.block e) p.stream now =
        .ok ({ d with blocked := blocked, blockedByStream := counts }, none) ∧
      Queues e { d with blocked := blocked, blockedByStream := counts } (queue ++ [p]) := by
  refine ⟨d.blocked ++ [⟨p.stream, p.block e, p.ric, now⟩], Tally.add d.blockedByStream p.stream,
    ?_, ?_, ?_⟩
  · have hhas : d.streamHasBlocked p.stream = true ↔ p.stream ∈ queue.map stream :=
      hq.counts.has_iff
    rw [decodeBlock, h.readPrefix he hp, ok_bind]
    simp only
    rw [if_pos (by rw [hhas]; exact hwait), if_neg]
    · rfl
    · rw [Bool.and_eq_true, decide_eq_true_eq]
      rintro ⟨hnot, hfull⟩
      have hnew : p.stream ∉ queue.map stream := by
        rw [← hhas]
        simpa using hnot
      have := hroom hnew
      omega
  · exact rel_append hq.blocked (.cons ⟨rfl, rfl, rfl⟩ .nil)
  · rw [map_append]
    exact hq.counts.add p.stream

theorem decodeBlock_ready (hric : p.ric ≤ d.dynamic.inserted) (hfree : p.stream ∉ queue.map stream)
    (now : ℕ) :
    ∃ sizes, d.decodeBlock (p.block e) p.stream now = .ok ({ d with
        sectionSizeByStream := sizes
        knownReceived := max d.knownReceived p.ric
        decoderStream := d.decoderStream ++ p.acks.flatMap code }, some p.headers) := by
  obtain ⟨sizes, hfinish⟩ := h.finishSection he hp hric
  have hhas : d.streamHasBlocked p.stream = true ↔ p.stream ∈ queue.map stream :=
    hq.counts.has_iff
  refine ⟨sizes, ?_⟩
  rw [decodeBlock, h.readPrefix he hp, ok_bind]
  simp only
  rw [if_neg (by rw [hhas]; push Not; exact ⟨by omega, hfree⟩), hfinish]
  rfl

end

end

/-- What the release of queued sections leaves unchanged, and what it makes of
the rest. -/
theorem unblock (queue : List Parcel) : ∀ {d : Decoder}, d.Follows capacity history →
    d.Queues e queue → e.maxCapacity = d.maxCapacity →
    (∀ p ∈ queue, p.Sound (oldest d.maxCapacity history) history) →
    ∃ out rest blocked counts sizes known, queue = out ++ rest ∧
      d.knownReceived ≤ known ∧ known ≤ d.dynamic.inserted ∧
      (∀ p ∈ rest.head?, d.dynamic.inserted < p.ric) ∧
      Decoder.unblock d.blocked d = .ok ({ d with
          blocked := blocked
          blockedByStream := counts
          sectionSizeByStream := sizes
          knownReceived := known
          decoderStream := d.decoderStream ++ (out.flatMap acks).flatMap code },
          out.map released) ∧
      Forall₂ (BlockedSection.Holds e) blocked rest ∧
      Tally.Counts counts (rest.map stream) := by
  induction queue with
  | nil =>
    intro d h hq _ _
    have hnil : d.blocked = [] := List.forall₂_nil_right_iff.1 hq.blocked
    refine ⟨[], [], [], d.blockedByStream, d.sectionSizeByStream, d.knownReceived, rfl, le_rfl,
      h.known_le, by simp, ?_, .nil, hq.counts⟩
    simp [hnil, Decoder.unblock]
  | cons p queue ih =>
    intro d h hq he hsound
    obtain ⟨b, blocked, hb, hblocked, hcons⟩ := List.forall₂_cons_right_iff.1 hq.blocked
    have hcounts := hq.counts
    by_cases hric : d.dynamic.inserted < p.ric
    · -- the front section still waits
      refine ⟨[], p :: queue, d.blocked, d.blockedByStream, d.sectionSizeByStream,
        d.knownReceived, rfl, le_rfl, h.known_le, by simpa using hric, ?_, hq.blocked, hq.counts⟩
      rw [hcons, Decoder.unblock, if_pos (by rw [hb.ric_eq]; exact hric)]
      simp
    · -- it is decoded, and the loop goes on with the next one
      let d₁ : Decoder := { d with blocked := blocked }.removeBlockedSection p.stream
      have h₁ : d₁.Follows capacity history := h.congr rfl rfl rfl rfl
      obtain ⟨sizes, hfinish⟩ := h₁.finishSection he (hsound p (by simp))
        (not_lt.1 hric)
      set d₂ : Decoder := { d₁ with
        sectionSizeByStream := sizes
        knownReceived := max d₁.knownReceived p.ric
        decoderStream := d₁.decoderStream ++ p.acks.flatMap code } with hd₂
      have h₂ : d₂.Follows capacity history := h₁.acknowledge (not_lt.1 hric) _ _
      obtain ⟨out, rest, blocked', counts', sizes', known, hsplit, hknown, hle, hhead, hrun,
        hblocked', hcounts'⟩ := ih h₂ ⟨hblocked, hcounts.remove⟩ he
          fun q hq => hsound q (by simp [hq])
      refine ⟨p :: out, rest, blocked', counts', sizes', known, by rw [hsplit]; rfl,
        (le_max_left _ _).trans hknown, hle, hhead, ?_, hblocked', hcounts'⟩
      rw [hcons, Decoder.unblock, if_neg (by rw [hb.ric_eq]; exact hric), hb.stream_eq, hb.buf_eq,
        hb.ric_eq]
      change (d₁.finishSection (p.block e) p.stream p.ric >>= _) = _
      rw [hfinish]
      change (Decoder.unblock d₂.blocked d₂ >>= _) = _
      rw [hrun]
      simp [hd₂, d₁, removeBlockedSection, released]

section
variable (h : d.Follows capacity history)
include h

/-- The acknowledgments for sections and the coalesced increment. -/
theorem emitIncrement_eq : ∃ incs : List Feedback, d.emitIncrement = { d with
          knownReceived := d.dynamic.inserted
          decoderStream := d.decoderStream ++ incs.flatMap code } ∧
      (incs = [] ∧ d.knownReceived = d.dynamic.inserted ∨
        incs = [.increment (d.dynamic.inserted - d.knownReceived)] ∧
          d.knownReceived < d.dynamic.inserted) := by
  unfold emitIncrement
  split_ifs with hlt
  · exact ⟨_, by simp [Feedback.code], .inr ⟨rfl, hlt⟩⟩
  · have heq : d.knownReceived = d.dynamic.inserted := le_antisymm h.known_le (not_lt.1 hlt)
    exact ⟨[], by simp [← heq], .inl ⟨rfl, heq⟩⟩

theorem fits_missing : ∀ i ∈ Mirror.missing capacity history d.dynamic, i.Fits := by
  intro i hi
  rw [Mirror.missing, instrsFor, mem_append] at hi
  rcases hi with hi | hi
  · split_ifs at hi
    · simp at hi
    · obtain rfl := List.mem_singleton.1 hi
      exact h.capacity_le.trans_lt h.max_lt
  · obtain ⟨f, hf, rfl⟩ := List.mem_map.1 hi
    exact (h.fits f (mem_of_mem_drop hf)).1

/-- Feeding any part of the encoder stream. The complete instructions are
handled, the sections that became ready are released, and everything inserted is
acknowledged. -/
theorem feedEncoderStream (hq : d.Queues e queue) (he : e.maxCapacity = d.maxCapacity)
    (hsound : ∀ p ∈ queue, p.Sound (oldest d.maxCapacity history) history) (huffman : Bool)
    (buf later : Octets)
    (hbytes : d.encoderStreamPending ++ (buf ++ later) =
      (Mirror.missing capacity history d.dynamic).flatMap (code huffman)) :
    ∃ d' out rest incs, queue = out ++ rest ∧ d.feedEncoderStream buf = .ok (d', out.map released) ∧
      d'.Follows capacity history ∧ d'.Queues e rest ∧
      (∀ p ∈ rest.head?, d'.dynamic.inserted < p.ric) ∧
      d'.maxCapacity = d.maxCapacity ∧ d'.maxBlockedStreams = d.maxBlockedStreams ∧
      d'.encoderStreamPending ++ later =
        (Mirror.missing capacity history d'.dynamic).flatMap (code huffman) ∧
      Partial (code huffman) d'.encoderStreamPending
        (Mirror.missing capacity history d'.dynamic) ∧
      d'.decoderStream = d.decoderStream ++ (out.flatMap acks ++ incs).flatMap code ∧
      d.knownReceived ≤ d'.knownReceived ∧
      (incs = [] ∨ ∃ n, incs = [.increment n] ∧ 0 < n ∧
        d.knownReceived + n ≤ d'.knownReceived) := by
  set data := d.encoderStreamPending ++ buf with hdata
  rw [← append_assoc, ← hdata] at hbytes
  have hlen : data.length ≤ d.maxCapacity + 10 := by
    have := Mirror.length_missing_le huffman (h.floor.trans h.known_le)
      (h.capacity_le.trans_lt h.max_lt) h.fits
    rw [← hbytes, length_append] at this
    omega
  -- the complete instructions
  obtain ⟨done, todo, pending, hmsgs, hsplit, hpartial, hdrain⟩ := @drain_eq _ _ _ _
    encoderInstructionLen (code huffman) rfl
    parseEncoderInstruction _ data.length d data le_rfl
    (fun i hi => framed huffman (h.fits_missing i hi)) ⟨later, hbytes⟩
  obtain ⟨t, hhandle, h₁, hins, hmissing⟩ := h.handleAll huffman done hmsgs
  rw [hhandle] at hdrain
  -- the sections they release
  let d₂ : Decoder := { d with dynamic := t, encoderStreamPending := pending }
  have h₂ : d₂.Follows capacity history := h₁.congr rfl rfl rfl rfl
  obtain ⟨out, rest, blocked, counts, sizes, known, hqueue, hknown, hle, hhead, hunblock, hblocked,
    hcounts⟩ := h₂.unblock queue ⟨hq.blocked, hq.counts⟩ he hsound
  let d₃ : Decoder := { d₂ with
    blocked := blocked
    blockedByStream := counts
    sectionSizeByStream := sizes
    knownReceived := known
    decoderStream := d₂.decoderStream ++ (out.flatMap acks).flatMap code }
  have h₃ : d₃.Follows capacity history :=
    ⟨h₂.mirror, h₂.announced, h₂.floor.trans hknown, hle, h₂.max_lt, h₂.length_lt, h₂.fits,
      h₂.unlimited⟩
  -- and the increment
  obtain ⟨incs, hemit, hincs⟩ := h₃.emitIncrement_eq
  have hfeed : d.feedEncoderStream buf = .ok (d₃.emitIncrement, out.map released) := by
    rw [Decoder.feedEncoderStream]
    simp only [← hdata]
    rw [if_neg (by have := h.max_lt; unfold usizeMax; omega), hdrain]
    change (Decoder.unblock d₂.blocked d₂ >>= _) = _
    rw [hunblock]
    rfl
  rw [hemit] at hfeed
  refine ⟨_, out, rest, incs, hqueue, hfeed, ?_, ⟨hblocked, hcounts⟩, hhead, rfl, rfl, ?_,
    hmissing ▸ hpartial, ?_, hknown.trans hle, ?_⟩
  · exact ⟨h₃.mirror, h₃.announced, h₃.floor.trans h₃.known_le, le_rfl, h₃.max_lt, h₃.length_lt,
      h₃.fits, h₃.unlimited⟩
  · rw [hmsgs, flatMap_append, hsplit, append_assoc] at hbytes
    rw [hmissing]
    exact append_cancel_left hbytes
  · simp [d₃, d₂]
  · rcases hincs with ⟨rfl, -⟩ | ⟨rfl, hlt⟩
    · exact .inl rfl
    · refine .inr ⟨_, rfl, by omega, ?_⟩
      have hkd : d.knownReceived ≤ d₃.knownReceived := hknown
      show d.knownReceived + (d₃.dynamic.inserted - d₃.knownReceived) ≤ d₃.dynamic.inserted
      omega

end

end Follows

end Decoder

end ZincioHttp.H3.Qpack
