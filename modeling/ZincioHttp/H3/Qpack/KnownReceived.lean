import ZincioHttp.H3.Qpack.Session
import ZincioHttp.Lib.Runs

/-! The Known Received Count of the two ends. The decoder raises its own when it
acknowledges a section, the encoder only when an increment tells it to; so the
counts agree as long as no section has to wait for its insertions, and part for
good when one is released. -/

namespace ZincioHttp.H3.Qpack

open Lib ZincioHttp.Hpack List Feedback Decoder

def Feedback.total (acks : List Feedback) : ℕ := (acks.map Feedback.amount).sum

@[simp] theorem Feedback.total_append (acks later : List Feedback) :
    total (acks ++ later) = total acks + total later := by
  simp [total]

@[simp] theorem Feedback.total_acksFor (stream ric : ℕ) : total (acksFor stream ric) = 0 := by
  unfold acksFor
  split_ifs <;> rfl

namespace Encoder

/-- The encoder adds up the increments among complete feedback. -/
theorem handleAll_feedback (done : List Feedback) : ∀ {e e' : Encoder},
    handleAll (fun e a => handleInstruction e (code a)) e done = .ok e' →
    e'.knownReceived = e.knownReceived + total done := by
  induction done with
  | nil =>
    intro e e' h
    cases h
    rfl
  | cons a done ih =>
    intro e e' h
    rw [handleAll] at h
    cases ha : e.handleInstruction a.code with
    | error err => simp [ha] at h
    | ok e₁ =>
      rw [ha] at h
      rw [ih h, handleInstruction_feedback ha, Feedback.total, Feedback.total, map_cons,
        sum_cons, Nat.add_assoc]

theorem feedDecoderStream_feedback {e e' : Encoder} {acks : List Feedback} {buf later : Octets}
    (h : e.feedDecoderStream buf = .ok e')
    (hbytes : e.decoderStreamPending ++ (buf ++ later) = acks.flatMap code) :
    ∃ done todo, acks = done ++ todo ∧ e'.knownReceived = e.knownReceived + total done ∧
      e'.decoderStreamPending ++ later = todo.flatMap code ∧
      Partial code e'.decoderStreamPending todo := by
  rw [← append_assoc] at hbytes
  obtain ⟨done, todo, pending, rfl, hsplit, hpart, hdrain⟩ := @drain_eq _ _ _ _
    decoderInstructionLen code rfl handleInstruction acks
    (e.decoderStreamPending ++ buf).length e (e.decoderStreamPending ++ buf) le_rfl
    (fun a _ => framed a) ⟨later, hbytes⟩
  rw [feedDecoderStream] at h
  simp only [hdrain] at h
  cases hall : handleAll (fun e a => handleInstruction e (code a)) e done with
  | error err => simp [hall, Except.map] at h
  | ok e₁ =>
    simp only [hall, Except.map] at h
    split_ifs at h
    cases h
    refine ⟨done, todo, rfl, ?_, ?_, hpart⟩
    · exact (handleAll_feedback done hall :)
    rw [flatMap_append, hsplit, append_assoc] at hbytes
    exact append_cancel_left hbytes

end Encoder

namespace Session

/-- The encoder will know what the decoder has acknowledged, short of `drift`, once
the feedback `acks` has arrived. -/
structure Agrees (acks : List Feedback) (drift : ℕ) (s : Session) : Prop where
  dec : s.dec.Consistent
  known : s.enc.knownReceived + Feedback.total acks + drift = s.dec.knownReceived
  bytes : s.enc.decoderStreamPending ++ (s.feedback ++ s.dec.decoderStream) =
    acks.flatMap Feedback.code
  part : Partial Feedback.code s.enc.decoderStreamPending acks

/-- Instructions that arrive do not complete the insertion that the oldest waiting
section refers to. -/
def NoneReleased (s : Session) : Action → Prop
  | .deliverInstructions n =>
    ∀ b ∈ s.dec.blocked.head?, s.dec.insertCountAfter (s.instructions.take n) < b.ric
  | _ => True

instance (s : Session) : ∀ a, Decidable (NoneReleased s a)
  | .deliverInstructions n => inferInstanceAs (Decidable (∀ b ∈ s.dec.blocked.head?,
      s.dec.insertCountAfter (s.instructions.take n) < b.ric))
  | .encode _ _ _ | .deliverSection _ _ | .deliverFeedback _ => isTrue trivial

namespace Agrees

variable {acks : List Feedback} {drift : ℕ} {s s' : Session}

theorem start (maxCapacity maxBlockedStreams : ℕ) (huffman : Bool) :
    Agrees [] 0 (Session.start maxCapacity maxBlockedStreams huffman) :=
  ⟨.new maxCapacity maxBlockedStreams, rfl, rfl, .intro nil_prefix (by simp)⟩

section
variable (h : Agrees acks drift s)
include h

theorem write {more : List Feedback} {drift' : ℕ} (hdec : s'.dec.Consistent)
    (hknown : s.dec.knownReceived + total more + drift' = s'.dec.knownReceived)
    (hstream : s'.dec.decoderStream = s.dec.decoderStream ++ more.flatMap code)
    (henc : s'.enc = s.enc) (hfeedback : s'.feedback = s.feedback) :
    Agrees (acks ++ more) (drift + drift') s' := by
  refine ⟨hdec, ?_, ?_, ?_⟩
  · have := h.known
    rw [henc, Feedback.total_append]
    omega
  · rw [henc, hfeedback, hstream, flatMap_append, ← h.bytes]
    simp
  · rw [henc]
    exact h.part.append fun a _ => (framed a).1

theorem encode {ackBase : Bool} {stream : ℕ} {headers : List Field}
    (hstep : s.step (.encode ackBase stream headers) = .ok s') : Agrees acks drift s' := by
  obtain ⟨base, hbase⟩ : ∃ base, (if ackBase then s.enc.encodeSectionWithAckBase stream headers
      else s.enc.encodeSection stream headers) =
        s.enc.encodeSectionWithBase stream headers base := by
    cases ackBase
    · exact ⟨_, rfl⟩
    · exact ⟨_, rfl⟩
  simp only [step, hbase, Except.ok.injEq] at hstep
  obtain ⟨hknown, hpending, -⟩ := s.enc.encodeSectionWithBase_received stream headers base
  subst hstep
  exact ⟨h.dec, by rw [hknown]; exact h.known, by rw [hpending]; exact h.bytes,
    by rw [hpending]; exact h.part⟩

/-- The counts part by what the released sections acknowledge. -/
theorem deliverInstructions {n : ℕ} (hstep : s.step (.deliverInstructions n) = .ok s') :
    ∃ acks' drift', Agrees acks' drift' s' ∧ drift ≤ drift' ∧
      (drift' = drift ↔ NoneReleased s (.deliverInstructions n)) := by
  obtain ⟨⟨d, sections⟩, hfeed, hret⟩ := bind_eq_ok.1 hstep
  simp only [pure, Except.pure, Except.ok.injEq] at hret
  obtain ⟨hdec, hgrows, out, rest, incs, hsplit, -, hreached, hwaits, hstream, hknown⟩ :=
    h.dec.feedEncoderStream hfeed
  set raised := (out.map BlockedSection.ric).foldl max s.dec.knownReceived with hraised
  have hle : s.dec.knownReceived ≤ raised :=
    (foldl_max_le _ (h.dec.settled.le.trans hgrows) (by simpa using hreached)).1
  have htotal : total ((out.flatMap fun b => acksFor b.stream b.ric) ++ incs) =
      (incs.map amount).sum := by
    have hzero : total (out.flatMap fun b => acksFor b.stream b.ric) = 0 := by
      clear hsplit hreached hstream hknown hraised hle raised
      induction out with
      | nil => rfl
      | cons b out ih => rw [flatMap_cons, Feedback.total_append, total_acksFor, ih]
    rw [Feedback.total_append, hzero, Nat.zero_add]
    rfl
  subst hret
  refine ⟨_, drift + (raised - s.dec.knownReceived),
    h.write hdec ?_ hstream rfl rfl, Nat.le_add_right _ _, ?_⟩
  · rw [← hknown]
    omega
  · -- the front of the queue needs more than the decoder has acknowledged
    show _ ↔ ∀ b ∈ s.dec.blocked.head?, _
    cases out with
    | nil =>
      rw [hsplit]
      exact iff_of_true (by simp [raised]) hwaits
    | cons front out =>
      have hfront : s.dec.knownReceived < front.ric := by
        rw [h.dec.settled]
        exact h.dec.waits front (by simp [hsplit])
      have hraise : front.ric ≤ raised := by
        refine le_trans (le_max_right s.dec.knownReceived front.ric) ?_
        have hmax : max s.dec.knownReceived front.ric ≤
            s.dec.insertCountAfter (s.instructions.take n) :=
          max_le (h.dec.settled.le.trans hgrows) (hreached front (by simp))
        refine (foldl_max_le (out.map BlockedSection.ric) hmax ?_).1
        intro r hr
        obtain ⟨b, hb, rfl⟩ := List.mem_map.1 hr
        exact hreached b (by simp [hb])
      refine iff_of_false (by omega) fun hnone => ?_
      have := hnone front (by simp [hsplit])
      have := hreached front (by simp)
      omega

theorem deliverSection {stream now : ℕ} (hstep : s.step (.deliverSection stream now) = .ok s') :
    ∃ acks', Agrees acks' drift s' := by
  rw [step] at hstep
  cases hfind : s.inFlight.find? fun x => decide (x.1 = stream) with
  | none =>
    rw [hfind] at hstep
    cases hstep
    exact ⟨acks, h⟩
  | some x =>
    rw [hfind] at hstep
    obtain ⟨⟨d, headers⟩, hdecode, hret⟩ := bind_eq_ok.1 hstep
    simp only [pure, Except.pure, Except.ok.injEq] at hret
    subst hret
    obtain ⟨hdec, hknown, more, htotal, hstream⟩ := h.dec.decodeBlock hdecode
    have hsame : s.dec.knownReceived + total more + 0 = d.knownReceived := by
      rw [Feedback.total, htotal, hknown, Nat.add_zero]
    rw [← Nat.add_zero drift]
    exact ⟨acks ++ more, h.write hdec hsame hstream rfl rfl⟩

theorem deliverFeedback {n : ℕ} (hstep : s.step (.deliverFeedback n) = .ok s') :
    ∃ todo, Agrees todo drift s' := by
  obtain ⟨e, hfeed, hret⟩ := bind_eq_ok.1 hstep
  simp only [pure, Except.pure, Except.ok.injEq] at hret
  subst hret
  set octs := s.feedback ++ s.dec.decoderStream with hocts
  obtain ⟨done, todo, rfl, hknown, hbytes, hpart⟩ :=
    Encoder.feedDecoderStream_feedback hfeed
      (show _ ++ (octs.take n ++ octs.drop n) = _ by rw [take_append_drop]; exact h.bytes)
  refine ⟨todo, ⟨h.dec.counts, h.dec.waits, h.dec.settled⟩, ?_, ?_, hpart⟩
  · show e.knownReceived + _ + _ = s.dec.knownReceived
    have := h.known
    rw [Feedback.total_append] at this
    omega
  · rw [← hbytes]
    simp

theorem step {a : Action} (hstep : s.step a = .ok s') :
    ∃ acks' drift', Agrees acks' drift' s' ∧ drift ≤ drift' ∧
      (drift' = drift ↔ NoneReleased s a) := by
  have hsame : ∀ {acks'}, Agrees acks' drift s' → NoneReleased s a →
      ∃ acks' drift', Agrees acks' drift' s' ∧ drift ≤ drift' ∧
        (drift' = drift ↔ NoneReleased s a) :=
    fun h' hnone => ⟨_, drift, h', le_rfl, iff_of_true rfl hnone⟩
  cases a with
  | encode ackBase stream headers => exact hsame (h.encode hstep) trivial
  | deliverInstructions n => exact h.deliverInstructions hstep
  | deliverSection stream now =>
    obtain ⟨acks', h'⟩ := h.deliverSection hstep
    exact hsame h' trivial
  | deliverFeedback n =>
    obtain ⟨todo, h'⟩ := h.deliverFeedback hstep
    exact hsame h' trivial

end

/-- The drift of a run grows with the first release and never shrinks. -/
theorem run (actions : List Action) : ∀ {s : Session} {acks : List Feedback} {drift : ℕ},
    Agrees acks drift s → s.run actions = .ok s' →
    ∃ acks' drift', Agrees acks' drift' s' ∧ drift ≤ drift' ∧
      (drift' = drift ↔ Along Session.step NoneReleased s actions) := by
  induction actions with
  | nil =>
    intro s acks drift h hrun
    cases hrun
    exact ⟨acks, drift, h, le_rfl, iff_of_true rfl trivial⟩
  | cons a actions ih =>
    intro s acks drift h hrun
    obtain ⟨t, hstep, hrest⟩ := foldlM_cons_eq_ok.1 hrun
    obtain ⟨acks₁, drift₁, h₁, hle₁, hiff₁⟩ := h.step hstep
    obtain ⟨acks', drift', h', hle', hiff'⟩ := ih h₁ hrest
    refine ⟨acks', drift', h', hle₁.trans hle', ?_⟩
    constructor
    · intro heq
      refine ⟨hiff₁.1 (by omega), fun u hu => ?_⟩
      cases hstep.symm.trans hu
      exact hiff'.1 (by omega)
    · intro hall
      have e₁ := hiff₁.2 hall.1
      have e' := hiff'.2 (hall.2 t hstep)
      omega

end Agrees

/-- When all feedback has arrived, the counts agree exactly if no instructions
released a section that had waited for them. -/
theorem knownReceived_agrees_iff (maxCapacity maxBlockedStreams : ℕ) (huffman : Bool)
    (actions : List Action) (s : Session)
    (hrun : (start maxCapacity maxBlockedStreams huffman).run actions = .ok s)
    (hfed : s.feedback = [] ∧ s.dec.decoderStream = []) :
    s.enc.knownReceived = s.dec.knownReceived ↔
      Along step NoneReleased (start maxCapacity maxBlockedStreams huffman) actions := by
  obtain ⟨acks, drift, h, -, hiff⟩ :=
    (Agrees.start maxCapacity maxBlockedStreams huffman).run actions hrun
  have hall := h.bytes
  rw [hfed.1, hfed.2, List.append_nil, List.append_nil] at hall
  have hknown := h.known
  rw [h.part.todo_eq_nil hall, show Feedback.total [] = 0 from rfl] at hknown
  rw [← hiff]
  omega

/-- An insertion, then the section that refers to it. -/
theorem knownReceived_agrees_in_order :
    ∃ s, (start 4096 16 true).run [.encode true 0 [⟨octets "x-id", octets "1"⟩],
        .deliverInstructions 100, .deliverSection 0 0, .deliverFeedback 100] = .ok s ∧
      s.dec.knownReceived = 1 ∧ s.enc.knownReceived = s.dec.knownReceived := by
  refine exists_ok_and (fun s => (s.feedback, s.dec.decoderStream, s.dec.knownReceived)) ([], [], 1)
    (by decide +kernel) fun s hrun hs => ?_
  simp only [Prod.mk.injEq] at hs
  refine ⟨hs.2.2, ?_⟩
  exact (knownReceived_agrees_iff 4096 16 true _ s hrun ⟨hs.1, hs.2.1⟩).2 (by decide +kernel)

/-- The section overtakes the insertion it refers to: it is acknowledged when it
is released, and no increment follows. -/
theorem knownReceived_drifts :
    ∃ s, (start 4096 16 true).run [.encode true 0 [⟨octets "x-id", octets "1"⟩],
        .deliverSection 0 0, .deliverInstructions 100, .deliverFeedback 100] = .ok s ∧
      s.feedback = [] ∧ s.dec.decoderStream = [] ∧
      s.enc.knownReceived = 0 ∧ s.dec.knownReceived = 1 := by
  exact exists_ok_of_decide (by decide +kernel)

end Session

end ZincioHttp.H3.Qpack
