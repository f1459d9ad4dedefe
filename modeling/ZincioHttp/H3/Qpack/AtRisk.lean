import ZincioHttp.H3.Qpack.Effects
import ZincioHttp.H3.Settings
import ZincioHttp.Lib.Runs

/-! The streams that may block at the peer's decoder: those with an
unacknowledged section that refers to an entry the peer has not acknowledged. The
peer limits their number with a setting that the encoder never reads. -/

namespace ZincioHttp.H3.Qpack

open Lib ZincioHttp.Hpack List Encoder

/-- The Required Insert Count of the section that encoding the list yields. -/
def Encoder.sectionRic (e : Encoder) (headers : List Field) (base : ℕ) : ℕ :=
  (headers.foldl (e.encodeField base) ⟨e.dynamic, [], [], none, 0⟩).ric

/-- The encoder of a server, with the stream and the Required Insert Count of each
section that refers to the dynamic table and has not been acknowledged. -/
structure Responder where
  enc : Encoder
  unacked : List (ℕ × ℕ)

namespace Responder

def start (peer : PeerSettings) : Responder := ⟨.new peer.qpackMaxTableCapacity true, []⟩

/-- What a decoder-stream instruction says about the sections. -/
def settle (unacked : List (ℕ × ℕ)) : Octets → List (ℕ × ℕ)
  | [] => unacked
  | header :: rest =>
    if header &&& 0x80 ≠ 0 then
      match Integer.decode rest 7 header with
      | .error _ => unacked
      | .ok (stream, _) => unacked.eraseP fun r => decide (r.1 = stream)
    else if header &&& 0x40 ≠ 0 then
      match Integer.decode rest 6 header with
      | .error _ => unacked
      | .ok (stream, _) => unacked.filter fun r => decide (r.1 ≠ stream)
    else unacked

inductive Event where
  /-- A response or its trailers are encoded. -/
  | encode (stream : ℕ) (headers : List Field)
  /-- Octets of the peer's decoder stream arrive. -/
  | feedback (buf : Octets)

def step (r : Responder) : Event → Except QpackError Responder
  | .encode stream headers =>
    let ric := r.enc.sectionRic headers r.enc.knownReceived
    .ok ⟨(r.enc.encodeSectionWithAckBase stream headers).1,
      if ric > 0 then r.unacked ++ [(stream, ric)] else r.unacked⟩
  | .feedback buf =>
    let data := r.enc.decoderStreamPending ++ buf
    (r.enc.feedDecoderStream buf).map fun enc =>
      ⟨enc, (messages decoderInstructionLen data.length data).foldl settle r.unacked⟩

def run (r : Responder) (events : List Event) : Except QpackError Responder := events.foldlM step r

def atRisk (r : Responder) : Finset ℕ :=
  ((r.unacked.filter fun s => decide (r.enc.knownReceived < s.2)).map Prod.fst).toFinset

/-- The streams that `pending_refs` names. -/
def pendingStreams (r : Responder) : Finset ℕ := (r.enc.pendingRefs.map Prod.fst).toFinset

end Responder

/-- The field is written without a reference to an entry that the peer may not
have, and without an insertion. -/
def Encoder.Received (e : Encoder) (f : Field) : Prop :=
  let dynamicMatch := e.dynamic.findFullOrName f.name f.value
  let staticMatch := StaticTable.findFullOrName f.name f.value
  e.maxCapacity < 32 ∨ f.name ∈ neverIndexed ∨ (∃ abs ∈ dynamicMatch.1, abs < e.knownReceived) ∨
    dynamicMatch.1 = none ∧
      (staticMatch.1.isSome ∨ (∃ abs ∈ dynamicMatch.2, abs < e.knownReceived) ∨
      dynamicMatch.2 = none ∧ (staticMatch.2.isSome ∨ e.maxCapacity < f.size))

instance (e : Encoder) (f : Field) : Decidable (e.Received f) := inferInstanceAs (Decidable (_ ∨ _))

namespace Responder

/-- A section is encoded from what the peer has acknowledged, or while the streams
with outstanding sections leave room for its own. -/
def Permits (limit : ℕ) (r : Responder) : Event → Prop
  | .encode stream headers =>
    (∀ f ∈ headers, r.enc.Received f) ∨ (insert stream r.pendingStreams).card ≤ limit
  | .feedback _ => True

instance (limit : ℕ) (r : Responder) : ∀ e, Decidable (Permits limit r e)
  | .encode _ _ => inferInstanceAs (Decidable (_ ∨ _))
  | .feedback _ => isTrue trivial

/-! ### The notes belong to the encoder -/

/-- The notes name the streams of `pending_refs`, in the same order. -/
def Aligned (e : Encoder) (unacked : List (ℕ × ℕ)) : Prop :=
  unacked.map Prod.fst = e.pendingRefs.map Prod.fst

variable {e e' : Encoder} {unacked : List (ℕ × ℕ)} {r r' : Responder}

theorem settle_sublist (unacked : List (ℕ × ℕ)) (instr : Octets) :
    (settle unacked instr).Sublist unacked := by
  cases instr with
  | nil => exact .refl _
  | cons header rest =>
    rw [settle]
    split_ifs
    · cases Integer.decode rest 7 header with
      | error err => exact .refl _
      | ok x => exact eraseP_sublist
    · cases Integer.decode rest 6 header with
      | error err => exact .refl _
      | ok x => exact filter_sublist
    · exact .refl _

theorem acknowledgeSection_pendingRefs (e : Encoder) (stream : ℕ) :
    (e.acknowledgeSection stream).pendingRefs =
      e.pendingRefs.eraseP fun r => decide (r.1 = stream) := by
  rw [acknowledgeSection, eraseP_eq_eraseIdx]
  cases e.pendingRefs.findIdx? fun r => decide (r.1 = stream) <;> rfl

theorem Aligned.handleInstruction (h : Aligned e unacked) {instr : Octets}
    (hh : e.handleInstruction instr = .ok e') : Aligned e' (settle unacked instr) := by
  rw [Aligned] at h ⊢
  cases instr with
  | nil =>
    cases hh
    exact h
  | cons header rest =>
    rw [Encoder.handleInstruction] at hh
    rw [settle]
    split_ifs at hh ⊢
    · cases hstream : Integer.decode rest 7 header with
      | error err => simp [hstream] at hh
      | ok x =>
        rw [hstream] at hh
        cases hh
        have herase := fun l : List (ℕ × ℕ) =>
          eraseP_map (f := Prod.fst) (p := fun s => decide (s = x.1)) (l := l)
        rw [acknowledgeSection_pendingRefs]
        exact (herase _).symm.trans ((congrArg _ h).trans (herase _))
    · cases hstream : Integer.decode rest 6 header with
      | error err => simp [hstream] at hh
      | ok x =>
        rw [hstream] at hh
        cases hh
        have hfilter := fun l : List (ℕ × ℕ) =>
          filter_map (f := Prod.fst) (p := fun s => decide (s ≠ x.1)) (l := l)
        exact (hfilter _).symm.trans ((congrArg _ h).trans (hfilter _))
    · split at hh
      · cases hh
      · split_ifs at hh
        cases hh
        exact h

/-- Feedback settles notes and may acknowledge more insertions. -/
theorem feedback_ok {buf : Octets} (h : r.step (.feedback buf) = .ok r') :
    (Aligned r.enc r.unacked → Aligned r'.enc r'.unacked) ∧ r'.unacked.Sublist r.unacked ∧
      r.enc.knownReceived ≤ r'.enc.knownReceived := by
  rw [step, Encoder.feedDecoderStream] at h
  cases hdrain : drain decoderInstructionLen Encoder.handleInstruction
      (r.enc.decoderStreamPending ++ buf).length r.enc (r.enc.decoderStreamPending ++ buf) with
  | error err =>
    rw [hdrain] at h
    cases h
  | ok x =>
    obtain ⟨e, rest⟩ := x
    rw [hdrain] at h
    dsimp only at h
    split_ifs at h
    · cases h
    obtain rfl := Except.ok.inj h
    have hkeeps := drain_foldl
      (R := fun e unacked => (Aligned r.enc r.unacked → Aligned e unacked) ∧
        unacked.Sublist r.unacked ∧ r.enc.knownReceived ≤ e.knownReceived) settle
      (fun hr hh => ⟨fun h => (hr.1 h).handleInstruction hh, (settle_sublist _ _).trans hr.2.1,
        hr.2.2.trans (handleInstruction_learns hh).known_le⟩)
      _ ⟨id, .refl _, le_rfl⟩ hdrain
    exact hkeeps

theorem Aligned.encode (h : Aligned r.enc r.unacked) {stream : ℕ} {headers : List Field}
    (hstep : r.step (.encode stream headers) = .ok r') : Aligned r'.enc r'.unacked := by
  cases hstep
  rw [Aligned] at h ⊢
  rw [encodeSectionWithAckBase, encodeSectionWithBase, sectionRic]
  dsimp only
  split_ifs <;> simp [h]

theorem Aligned.step (h : Aligned r.enc r.unacked) {ev : Event} (hstep : r.step ev = .ok r') :
    Aligned r'.enc r'.unacked := by
  cases ev with
  | encode stream headers => exact h.encode hstep
  | feedback buf => exact (feedback_ok hstep).1 h

theorem aligned_start (peer : PeerSettings) : Aligned (start peer).enc (start peer).unacked := rfl

/-- In every run the unacknowledged sections are those of `pending_refs`. -/
theorem run_aligned (peer : PeerSettings) (events : List Event)
    (hrun : (start peer).run events = .ok r) : Aligned r.enc r.unacked :=
  Along.invariant (C := fun _ _ => True) (I := fun r => Aligned r.enc r.unacked)
    (fun _ _ _ h _ hstep => h.step hstep) events (.of_forall (fun _ _ => trivial) events _)
    (aligned_start peer) hrun

theorem Aligned.atRisk_subset (h : Aligned r.enc r.unacked) : r.atRisk ⊆ r.pendingStreams := by
  intro stream hs
  rw [pendingStreams, ← h]
  simp only [atRisk, mem_toFinset, mem_map, mem_filter] at hs ⊢
  obtain ⟨x, ⟨hmem, -⟩, rfl⟩ := hs
  exact ⟨x, hmem, rfl⟩

/-! ### What a step does to the streams at risk -/

theorem feedback_atRisk {buf : Octets} (h : r.step (.feedback buf) = .ok r') :
    r'.atRisk ⊆ r.atRisk := by
  obtain ⟨-, hsub, hknown⟩ := feedback_ok h
  intro stream hs
  simp only [atRisk, mem_toFinset, mem_map, mem_filter, decide_eq_true_eq] at hs ⊢
  obtain ⟨x, ⟨hmem, hlt⟩, rfl⟩ := hs
  exact ⟨x, ⟨hsub.subset hmem, hknown.trans_lt hlt⟩, rfl⟩

theorem encodeField_received {f : Field} (h : e.Received f) (base : ℕ) {s : Section}
    (hs : s.dynamic = e.dynamic) (hric : s.ric ≤ e.knownReceived) :
    (e.encodeField base s f).dynamic = e.dynamic ∧
      (e.encodeField base s f).ric ≤ e.knownReceived := by
  have hpush : ∀ line, (s.push line).dynamic = e.dynamic ∧ (s.push line).ric ≤ e.knownReceived :=
    fun _ => ⟨hs, hric⟩
  have hpushRef : ∀ {abs : ℕ} line, abs < e.knownReceived →
      (s.pushRef abs line).dynamic = e.dynamic ∧ (s.pushRef abs line).ric ≤ e.knownReceived :=
    fun _ habs => ⟨hs, max_le hric habs⟩
  by_cases hsmall : e.maxCapacity < 32
  · obtain ⟨hdynamic, -, hric'⟩ := foldl_encodeField_unused hsmall base [f] s
    exact ⟨hdynamic.trans hs, hric'.trans_le hric⟩
  by_cases hnever : f.name ∈ neverIndexed
  · rw [encodeField, if_pos hnever]
    exact hpush _
  rw [encodeField, if_neg hnever]
  simp only [decide_eq_true (not_lt.1 hsmall), if_true, hs]
  rcases (h.resolve_left hsmall).resolve_left hnever with ⟨abs, hfull, habs⟩ | ⟨hfull, h⟩
  · simp only [Option.mem_def.1 hfull]
    exact hpushRef _ habs
  simp only [hfull]
  cases hstatic : (StaticTable.findFullOrName f.name f.value).1 with
  | some index => exact hpush _
  | none =>
    rcases h.resolve_left (by simp [hstatic]) with ⟨abs, hname, habs⟩ | ⟨hname, h⟩
    · simp only [Option.mem_def.1 hname]
      exact hpushRef _ habs
    simp only [hname]
    cases hindex : (StaticTable.findFullOrName f.name f.value).2 with
    | some index => exact hpush _
    | none =>
      have hlarge : ¬f.size ≤ e.maxCapacity := not_le.2 (h.resolve_left (by simp [hindex]))
      simp only [hlarge, decide_false, Bool.and_false, Bool.false_and]
      exact hpush _

/-- A section of such fields refers only to what the peer has acknowledged. -/
theorem sectionRic_le {headers : List Field} (h : ∀ f ∈ headers, e.Received f) (base : ℕ) :
    e.sectionRic headers base ≤ e.knownReceived := by
  have hfold : ∀ s : Section, s.dynamic = e.dynamic → s.ric ≤ e.knownReceived →
      (headers.foldl (e.encodeField base) s).ric ≤ e.knownReceived := by
    induction headers with
    | nil => exact fun _ _ hric => hric
    | cons f headers ih =>
      intro s hs hric
      obtain ⟨hdynamic, hric⟩ := encodeField_received (h f mem_cons_self) base hs hric
      exact ih (fun f hf => h f (mem_cons_of_mem _ hf)) _ hdynamic hric
  exact hfold _ rfl (Nat.zero_le _)

/-- Encoding endangers no other stream, and none with such fields. -/
theorem encode_atRisk {stream : ℕ} {headers : List Field}
    (h : r.step (.encode stream headers) = .ok r') :
    r'.atRisk ⊆ insert stream r.atRisk ∧
      ((∀ f ∈ headers, r.enc.Received f) → r'.atRisk ⊆ r.atRisk) := by
  obtain ⟨hknown, -, -⟩ := r.enc.encodeSectionWithBase_received stream headers r.enc.knownReceived
  cases h
  simp only [atRisk, encodeSectionWithAckBase, hknown]
  split_ifs
  · rw [filter_append, map_append, toFinset_append]
    refine ⟨Finset.union_subset (Finset.subset_insert _ _) ?_, fun hall => ?_⟩
    · rw [filter_cons]
      split_ifs <;> simp
    · rw [filter_cons, if_neg (by simpa using sectionRic_le hall _)]
      simp
  · exact ⟨Finset.subset_insert _ _, fun _ => Finset.Subset.refl _⟩

/-! ### Runs -/

/-- The number of streams that may block stays within the limit in every run whose
sections are encoded as `Permits` says. -/
theorem run_atRisk_le (peer : PeerSettings) (events : List Event) (r : Responder)
    (hrun : (start peer).run events = .ok r)
    (hpermits : Along step (Permits peer.qpackBlockedStreams) (start peer) events) :
    r.atRisk.card ≤ peer.qpackBlockedStreams := by
  refine (Along.invariant (I := fun r => Aligned r.enc r.unacked ∧
    r.atRisk.card ≤ peer.qpackBlockedStreams) ?_ events hpermits
      ⟨aligned_start peer, by simp [start, atRisk]⟩ hrun).2
  rintro s ev s' ⟨halign, hcard⟩ hpermit hstep
  refine ⟨halign.step hstep, ?_⟩
  cases ev with
  | encode stream headers =>
    obtain ⟨hsub, hnone⟩ := encode_atRisk hstep
    rcases hpermit with hreceived | hroom
    · exact (Finset.card_le_card (hnone hreceived)).trans hcard
    · have hpending := Finset.insert_subset_insert stream halign.atRisk_subset
      exact (Finset.card_le_card (hsub.trans hpending)).trans hroom
  | feedback buf => exact (Finset.card_le_card (feedback_atRisk hstep)).trans hcard

/-- One stream may block. The entry of the first section is acknowledged, so that
others may use it beside a section with a new one. Where none may block, fields of
the static table are sent. -/
theorem run_atRisk_le_one :
    (∃ r, (start { qpackMaxTableCapacity := 4096, qpackBlockedStreams := 1 }).run
        [.encode 0 [⟨octets "x-id", octets "1"⟩], .feedback [0x80, 0x01],
          .encode 4 [⟨octets "x-key", octets "2"⟩],
          .encode 8 [⟨octets "x-id", octets "1"⟩, ⟨octets ":status", octets "200"⟩]] = .ok r ∧
      r.unacked = [(4, 2), (8, 1)] ∧ r.atRisk.card ≤ 1) ∧
    ∃ r, (start { qpackMaxTableCapacity := 4096 }).run
        [.encode 0 [⟨octets ":status", octets "200"⟩]] = .ok r ∧ r.atRisk.card ≤ 0 :=
  ⟨exists_ok_and unacked [(4, 2), (8, 1)] (by decide +kernel) fun r hrun hunacked =>
      ⟨hunacked, run_atRisk_le _ _ r hrun (by decide +kernel)⟩,
    exists_ok_and unacked [] (by decide +kernel) fun r hrun _ =>
      run_atRisk_le _ _ r hrun (by decide +kernel)⟩

/-- The peer allows no stream to block, and the first section refers to an entry
that it may not have yet. -/
theorem run_atRisk_exceeds :
    ∃ r, (start { qpackMaxTableCapacity := 4096, qpackBlockedStreams := 0 }).run
        [.encode 0 [⟨octets "x-id", octets "1"⟩]] = .ok r ∧
      r.unacked = [(0, 1)] ∧ r.enc.knownReceived = 0 ∧ ¬r.atRisk.card ≤ 0 := by
  exact exists_ok_of_decide (by decide +kernel)

end Responder

end ZincioHttp.H3.Qpack
