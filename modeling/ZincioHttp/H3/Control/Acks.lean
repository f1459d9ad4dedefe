import ZincioHttp.H3.Control.Order
import ZincioHttp.H3.Qpack.Effects

/-! Acknowledgments on their way out. The decoder writes them into a buffer of its
own; the control plane empties the buffer whenever it has fed the decoder octets of
the peer's encoder stream, and at no other time. What request streams cause the
decoder to say stays behind until then. -/

namespace ZincioHttp.H3

open Qpack Lib List ControlStreams

namespace Qpack.Decoder

variable {d d' : Decoder}

theorem decoderStream_emitIncrement (d : Decoder) :
    d.decoderStream <+: d.emitIncrement.decoderStream := by
  rw [emitIncrement]
  split_ifs
  · exact prefix_append _ _
  · exact prefix_refl _

theorem feedEncoderStream_prefix {buf : Octets} {sections : List UnblockedSection}
    (h : d.feedEncoderStream buf = .ok (d', sections)) : d.decoderStream <+: d'.decoderStream := by
  obtain ⟨d₁, d₂, pending, out, rest, ⟨t, rfl, -⟩, -, -, hrel, rfl⟩ := feedEncoderStream_ok h
  refine IsPrefix.trans ?_ (decoderStream_emitIncrement d₂)
  rw [hrel.stream_eq]
  exact prefix_append _ _

theorem decodeBlock_prefix {buf : Octets} {stream now : ℕ} {headers : Option (List Field)}
    (h : d.decodeBlock buf stream now = .ok (d', headers)) :
    d.decoderStream <+: d'.decoderStream := by
  obtain ⟨ric, ⟨-, rfl, -⟩ | ⟨fields, size, -, -, -, rfl⟩⟩ := decodeBlock_ok h
  · exact prefix_refl _
  · exact prefix_append _ _

end Qpack.Decoder

namespace ControlStreams

variable {c c' : ControlStreams} {data : Octets}

/-- The decoder and what it has said stay as they are. -/
structure Silent (c c' : ControlStreams) : Prop where
  decoder_eq : c'.shared.decoder.decoderStream = c.shared.decoder.decoderStream
  pending_eq : c'.decoderPending = c.decoderPending
  flushed_eq : c'.flushed = c.flushed
  emitted_eq : c'.emitted = c.emitted

theorem Silent.refl (c : ControlStreams) : Silent c c := ⟨rfl, rfl, rfl, rfl⟩

theorem Silent.trans {c₁ c₂ c₃ : ControlStreams} (h : Silent c₁ c₂) (h' : Silent c₂ c₃) :
    Silent c₁ c₃ :=
  ⟨h'.decoder_eq.trans h.decoder_eq, h'.pending_eq.trans h.pending_eq,
    h'.flushed_eq.trans h.flushed_eq, h'.emitted_eq.trans h.emitted_eq⟩

/-- What comes new from the decoder goes to the end of the queue. -/
def Emits (c c' : ControlStreams) : Prop :=
  ∃ more, c'.outbound = c.outbound ++ more ∧ c'.emitted = c.emitted ++ more

theorem Emits.refl (c : ControlStreams) : Emits c c := ⟨[], by simp, by simp⟩

theorem Emits.trans {c₁ c₂ c₃ : ControlStreams} (h : Emits c₁ c₂) (h' : Emits c₂ c₃) :
    Emits c₁ c₃ := by
  obtain ⟨more, hout, hemit⟩ := h
  obtain ⟨more', hout', hemit'⟩ := h'
  exact ⟨more ++ more', by rw [hout', hout, append_assoc], by
    rw [hemit', hemit, append_assoc]⟩

theorem Silent.emits (h : Silent c c') : Emits c c' := by
  refine ⟨[], ?_, by rw [h.emitted_eq, append_nil]⟩
  rw [outbound, outbound, h.decoder_eq, h.pending_eq, h.flushed_eq, append_nil]

/-- Feeding the decoder empties its buffer into the queue. -/
theorem feedEncoderStream_emits (h : c.feedEncoderStream data = .ok c') :
    c'.shared.decoder.decoderStream = [] ∧ Emits c c' := by
  rw [feedEncoderStream] at h
  cases hfeed : c.shared.decoder.feedEncoderStream data with
  | error err => rw [hfeed] at h; cases h
  | ok x =>
    rw [hfeed] at h
    cases h
    obtain ⟨more, hmore⟩ := Decoder.feedEncoderStream_prefix hfeed
    refine ⟨rfl, more, ?_, ?_⟩
    · simp only [outbound, SharedCodecs.placeUnblocked, ← hmore]
      split_ifs with hnil
      · obtain ⟨hbuffer, rfl⟩ := List.append_eq_nil_iff.1 hnil
        simp [hbuffer]
      · simp
    · simp [← hmore]

theorem feedDecoderStream_silent (h : c.feedDecoderStream data = .ok c') : Silent c c' := by
  obtain ⟨_, _, rfl, -⟩ := feedDecoderStream_ok h
  exact ⟨rfl, rfl, rfl, rfl⟩

theorem handleFrames_silent {fuel : ℕ} {progressed : Bool}
    (h : c.handleFrames fuel = .ok (c', progressed)) : Silent c c' := by
  refine handleFrames_rel Silent.refl Silent.trans (fun _ _ => ⟨rfl, rfl, rfl, rfl⟩) ?_ fuel h
  intro c frame c' hframe
  obtain ⟨_, _, _, _, _, _, rfl, -⟩ := handleControlFrame_ok hframe
  exact ⟨rfl, rfl, rfl, rfl⟩

/-- Placing a stream is silent, or has fed the decoder. -/
theorem place_emits {stream ty : ℕ} {leftover : Octets} (h : c.place stream ty leftover = .ok c') :
    Silent c c' ∨ (c'.shared.decoder.decoderStream = [] ∧ Emits c c') := by
  cases place_ok h with
  | control | discard => exact .inl ⟨rfl, rfl, rfl, rfl⟩
  | encoder _ hfed =>
    rcases hfed with rfl | hfed
    · exact .inl ⟨rfl, rfl, rfl, rfl⟩
    · obtain ⟨hnil, hemits⟩ := feedEncoderStream_emits hfed
      exact .inr ⟨hnil, hemits⟩
  | decoder _ hchecked =>
    rcases hchecked with rfl | hchecked
    · exact .inl ⟨rfl, rfl, rfl, rfl⟩
    · obtain ⟨_, rfl⟩ := checkDecoderStream_ok hchecked
      exact .inl ⟨rfl, rfl, rfl, rfl⟩

end ControlStreams

namespace Plane

variable {p p' : Plane} {progressed : Bool}

def acks (p : Plane) : Octets := p.streams.shared.decoder.decoderStream

/-- A stage is silent, or it has fed the decoder. -/
def Voices (p p' : Plane) : Prop :=
  p.streams.Silent p'.streams ∨ (p'.acks = [] ∧ p.streams.Emits p'.streams)

theorem stage_voices (hf : f ∈ stages) (h : f p = .ok (p', progressed)) : Voices p p' :=
  stage_streams
    (fun c => .inl (.refl c))
    (fun h => h.imp_left fun hs => ⟨hs.decoder_eq, hs.pending_eq, hs.flushed_eq, hs.emitted_eq⟩)
    (fun _ _ => .inl ⟨rfl, rfl, rfl, rfl⟩)
    (fun _ _ => .inl ⟨rfl, rfl, rfl, rfl⟩) place_emits
    (fun h => .inl (handleFrames_silent h))
    (fun h => .inr (feedEncoderStream_emits h))
    (fun h => .inl (feedDecoderStream_silent h)) hf h

theorem Voices.emits (h : Voices p p') : p.streams.Emits p'.streams :=
  h.elim Silent.emits And.right

/-- Nothing that the decoder says is lost, repeated or reordered. -/
theorem pollRead_emits {event : Option ControlEvent} (h : p.pollRead = .ok (p', event)) :
    p.streams.Emits p'.streams :=
  pollRead_rel (R := fun p p' => p.streams.Emits p'.streams) (fun _ => .refl _)
    Emits.trans
    (fun hpop => by
      obtain ⟨_, rfl⟩ := popEvent_eq hpop
      exact Silent.emits ⟨rfl, rfl, rfl, rfl⟩)
    (fun _ hf _ _ _ hok => (stage_voices hf hok).emits) h

theorem step_outbound {a : Action} (h : p.streams.outbound = p.streams.emitted)
    (hstep : p.step a = .ok p') : p'.streams.outbound = p'.streams.emitted := by
  cases a with
  | openUni | acceptFails err | finish stream => cases hstep; exact h
  | deliver stream item =>
    rw [step] at hstep
    split_ifs at hstep <;> cases hstep <;> exact h
  | poll =>
    obtain ⟨event, hpoll⟩ := step_poll hstep
    obtain ⟨more, hout, hemit⟩ := pollRead_emits hpoll
    rw [hout, hemit, h]
  | flush =>
    cases hstep
    rw [outbound] at h
    rw [flushDecoder]
    split
    · exact h
    · next bytes rest hpending =>
      rw [hpending] at h
      simpa [outbound] using h
  | decode stream block now =>
    rw [step] at hstep
    split at hstep
    · cases hstep
    · next d headers hdecode =>
      cases hstep
      obtain ⟨more, hmore⟩ := Decoder.decodeBlock_prefix hdecode
      simp [outbound, ← hmore, ← h]
  | encode stream lines =>
    cases hstep
    have hdecoder := (p.streams.shared.encodeHeaders_frame stream lines).1
    simpa [setShared, outbound, hdecoder] using h

/-! ### Every acknowledgment is collected -/

/-- Octets of the encoder stream are there to be read. -/
def EncoderWaits (p : Plane) : Prop :=
  ∃ stream ∈ p.streams.inEncoder, ∃ data, (p.net.inbox stream).head? = some (.chunk data)

/-- The decoder's buffer is empty, or the next poll is going to empty it. -/
def Due (p : Plane) : Prop := p.acks = [] ∨ p.EncoderWaits

/-- A stage that does not empty the buffer does not read the encoder stream. -/
theorem stage_encoder (hf : f ∈ stages) (hordered : p.view.Ordered fun _ _ => True)
    (h : f p = .ok (p', progressed)) {stream : ℕ} (hencoder : p.streams.inEncoder = some stream) :
    p'.acks = [] ∨ p'.net.inbox stream = p.net.inbox stream := by
  have hslot : p.streams.slot .encoder = some stream := hencoder
  rcases stages_cases hf with rfl | rfl | rfl | rfl | rfl | rfl | rfl
  · exact .inr (stage_inbox hordered (by simp) h hslot)
  · exact .inr (stage_inbox hordered (by simp) h hslot)
  · exact .inr (pollSlot_inbox hordered (by simp) h hslot)
  · exact .inr (stage_inbox hordered (by simp) h hslot)
  · rcases pollSlot_ok h with ⟨rfl, -, -⟩ | ⟨other, item, rest, c, -, -, rfl, -, hitem⟩
    · exact .inr rfl
    · rcases hitem with ⟨data, -, hc⟩ | ⟨-, hc⟩
      · exact .inl (feedEncoderStream_emits hc).1
      · cases hc
  · exact .inr (pollSlot_inbox hordered (by simp) h hslot)
  · exact .inr (pollSlot_inbox hordered (by simp) h hslot)

theorem stage_due (hf : f ∈ stages) (h : f p = .ok (p', progressed))
    (hordered : p.view.Ordered fun _ _ => True) (hdue : p.Due) : p'.Due := by
  rcases hdue with hnil | ⟨stream, hencoder, data, hhead⟩
  · rcases stage_voices hf h with hsilent | ⟨hnil', -⟩
    · exact .inl (hsilent.decoder_eq.trans hnil)
    · exact .inl hnil'
  · rcases stage_encoder hf hordered h hencoder with hnil | hinbox
    · exact .inl hnil
    · have hslot : p'.streams.slot .encoder = some stream := stage_slot hf h (by simp) hencoder
      exact .inr ⟨stream, hslot, data, hinbox ▸ hhead⟩

/-- When `poll_read` returns `Pending` after it was called with an empty buffer or
with octets of the encoder stream to read, everything the decoder has ever said is
in the hands of the transport or in its queue. -/
theorem pollRead_collects {settings : LocalSettings} {actions : List Action}
    (hrun : run actions (start settings) = .ok p) (hdue : p.Due)
    (hpoll : p.pollRead = .ok (p', none)) :
    p'.acks = [] ∧
      p'.streams.flushed ++ p'.streams.decoderPending.flatten = p'.streams.emitted := by
  have hall : Along step (fun _ _ => True) (start settings) actions :=
    Along.of_forall (fun _ _ => trivial) actions (start settings)
  have hordered : p.view.Ordered (fun _ _ => True) :=
    Along.invariant (I := fun p => p.view.Ordered (fun _ _ => True))
      (fun p a p' h _ hstep => step_ordered h (by cases a <;> trivial) hstep) actions hall
      (ordered_start settings) hrun
  have hout : p.streams.outbound = p.streams.emitted :=
    Along.invariant (I := fun p => p.streams.outbound = p.streams.emitted)
      (fun p a p' h _ hstep => step_outbound h hstep) actions hall rfl hrun
  -- the buffer is still due at the end, and there is nothing left to read
  have hdue' : p'.Due :=
    (pollRead_rel (R := fun p p' => p.view.Ordered (fun _ _ => True) →
        p'.view.Ordered (fun _ _ => True) ∧ (p.Due → p'.Due))
      (fun _ h => ⟨h, id⟩) (fun hpq hqr h => ⟨(hqr (hpq h).1).1, (hqr (hpq h).1).2 ∘ (hpq h).2⟩)
      (fun hpop h => by
        obtain ⟨_, rfl⟩ := popEvent_eq hpop
        exact ⟨h, id⟩)
      (fun _ hf _ _ _ hok h => ⟨stage_ordered hf hok h, stage_due hf hok h⟩) hpoll hordered).2
      hdue
  have hnil : p'.acks = [] := by
    rcases hdue' with hnil | ⟨stream, hencoder, data, hhead⟩
    · exact hnil
    · have hinbox : p'.net.inbox stream = [] :=
        (quiet_of_pending hpoll).slots .encoder stream hencoder
      rw [hinbox] at hhead
      cases hhead
  refine ⟨hnil, ?_⟩
  obtain ⟨more, hout', hemit⟩ := pollRead_emits hpoll
  rw [hemit, ← hout, ← hout', ControlStreams.outbound,
    show p'.streams.shared.decoder.decoderStream = [] from hnil, List.append_nil]

/-- The encoder stream brings an insertion; its Insert Count Increment is queued. -/
theorem pollRead_collects_increment : ∃ p p', run [.openUni, .deliver 0 (.chunk [0x02]), .poll,
        .deliver 0 (.chunk [0x3f, 0xe1, 0x1f, 0x41, 0x78, 0x01, 0x31])]
        (start { qpackMaxTableCapacity := 4096 }) = .ok p ∧ p.Due ∧ p.pollRead = .ok (p', none) ∧
      p'.acks = [] ∧
      p'.streams.flushed ++ p'.streams.decoderPending.flatten = p'.streams.emitted := by
  simp only [exists_and_left]
  refine exists_ok_and (fun p => (p.streams.inEncoder, (p.net.inbox 0).head?,
    (p.pollRead.map Prod.snd).toOption)) (some 0,
    some (.chunk [0x3f, 0xe1, 0x1f, 0x41, 0x78, 0x01, 0x31]), some none) (by decide +kernel)
    fun p hrun hp => ?_
  simp only [Prod.mk.injEq] at hp
  obtain ⟨hencoder, hhead, hpending⟩ := hp
  obtain ⟨⟨p', event⟩, hpoll, rfl⟩ := exists_ok_of_map hpending
  have hdue : p.Due := .inr ⟨0, hencoder, _, hhead⟩
  exact ⟨hdue, p', hpoll, pollRead_collects hrun hdue hpoll⟩

/-- A section decoded after the last octet of the encoder stream: its acknowledgment
is still with the decoder when `poll_read` returns `Pending`. -/
theorem pollRead_leaves_ack :
    ∃ p p', run [.openUni, .deliver 0 (.chunk [0x02, 0x3f, 0xe1, 0x1f, 0x41, 0x78, 0x01, 0x31]),
        .poll, .decode 0 [0x02, 0x80, 0x10] 0] (start { qpackMaxTableCapacity := 4096 }) = .ok p ∧
      p.pollRead = .ok (p', none) ∧ p'.acks = [0x80] := by
  simp only [exists_and_left]
  refine exists_ok_and (fun p => (p.pollRead.map fun r => (r.2, r.1.acks)).toOption)
    (some (none, [0x80])) (by decide +kernel) fun p hrun h => ?_
  obtain ⟨⟨p', event⟩, hpoll, heq⟩ := exists_ok_of_map h
  simp only [Prod.mk.injEq] at heq
  obtain ⟨rfl, hacks⟩ := heq
  exact ⟨p', hpoll, hacks⟩

end Plane

end ZincioHttp.H3
