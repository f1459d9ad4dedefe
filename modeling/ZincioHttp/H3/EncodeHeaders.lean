import ZincioHttp.H3.Qpack.NeverIndexed
import ZincioHttp.H3.Qpack.Replay
import ZincioHttp.H3.SharedCodecs
import ZincioHttp.Lib.Runs

/-! Sending field sections from many request streams. A call of `encode_headers`
takes three locks, one after the other: it encodes the section, compares its size
with the peer's limit, and queues its encoder-stream instructions. Between the
locks other streams do the same, the control plane takes the queue away, and the
peer's feedback arrives. -/

namespace ZincioHttp.H3

open Qpack Lib ZincioHttp.Hpack List Option Encoder SharedCodecs

/-! ### The size of a section -/

/-- The size that SETTINGS_MAX_FIELD_SECTION_SIZE limits. -/
def fieldSectionSize (lines : List Field) : ℕ := (lines.map Field.size).sum

namespace SharedCodecs

variable {sh : SharedCodecs} {stream limit : ℕ} {lines : List Field}

/-- The frame is sent exactly when its encoding is within the limit. -/
theorem encodeHeaders_eq_ok {e : Encoder} (he : sh.encoder = some e)
    (hlimit : sh.peerMaxFieldSectionSize = some limit) :
    (∃ frame, (sh.encodeHeaders stream lines).2 = .ok frame) ↔
      (e.encodeSectionWithAckBase stream lines).2.block.length ≤ limit := by
  rw [encodeHeaders, encodeSection, he]
  dsimp only
  rw [checkSize, hlimit]
  by_cases hlen : (e.encodeSectionWithAckBase stream lines).2.block.length > limit
  · simp only [if_pos hlen, reduceCtorEq, exists_false, false_iff]
    omega
  · simp only [if_neg hlen, Except.ok.injEq, exists_eq', true_iff]
    omega

/-- A frame is produced only for a list within the limit, exactly if the list is
within it anyway or the encoding alone exceeds it. -/
theorem encodeHeaders_within_limit_iff (hlimit : sh.peerMaxFieldSectionSize = some limit) :
    (∀ frame, (sh.encodeHeaders stream lines).2 = .ok frame → fieldSectionSize lines ≤ limit) ↔
      fieldSectionSize lines ≤ limit ∨
        ∀ e ∈ sh.encoder, limit < (e.encodeSectionWithAckBase stream lines).2.block.length := by
  constructor
  · intro h
    by_contra hno
    push Not at hno
    obtain ⟨hsize, e, he, hlen⟩ := hno
    obtain ⟨frame, hframe⟩ := (encodeHeaders_eq_ok he hlimit).2 hlen
    exact absurd (h frame hframe) (by omega)
  · rintro (hsize | hlong) frame hframe
    · exact hsize
    -- nothing is sent
    exfalso
    cases he : sh.encoder with
    | none =>
      rw [encodeHeaders, encodeSection, he] at hframe
      cases hframe
    | some e =>
      have hle := (encodeHeaders_eq_ok he hlimit).1 ⟨frame, hframe⟩
      exact absurd (hlong e he) (by omega)

/-- A small list, to a peer with a limit of 16384 octets and to one with a limit of
two, which gets nothing. -/
theorem encodeHeaders_within_limit_status :
    let lines : List Field := [⟨octets ":status", octets "200"⟩]
    let sh : ℕ → SharedCodecs := fun limit => { SharedCodecs.new {} with
      encoder := some (Encoder.new 0 true), peerMaxFieldSectionSize := some limit }
    (((sh 16384).encodeHeaders 0 lines).2.toOption = some ([0x01, 0x03], [0x00, 0x00, 0xd9]) ∧
      ∀ frame, ((sh 16384).encodeHeaders 0 lines).2 = .ok frame → fieldSectionSize lines ≤ 16384) ∧
    ∀ frame, ((sh 2).encodeHeaders 0 lines).2 = .ok frame → fieldSectionSize lines ≤ 2 :=
  ⟨⟨by decide +kernel, (encodeHeaders_within_limit_iff rfl).2 (.inl (by decide))⟩,
    (encodeHeaders_within_limit_iff rfl).2 (.inr (by rintro e ⟨⟩; decide +kernel))⟩

/-- A field counted with 42 octets is sent in three to a peer that allows 41. -/
theorem encodeHeaders_exceeds_limit :
    let sh : SharedCodecs := { SharedCodecs.new {} with
      encoder := some (Encoder.new 0 true), peerMaxFieldSectionSize := some 41 }
    fieldSectionSize [⟨octets ":status", octets "200"⟩] = 42 ∧
      ((sh.encodeHeaders 0 [⟨octets ":status", octets "200"⟩]).2.toOption =
        some ([0x01, 0x03], [0x00, 0x00, 0xd9])) := by
  decide +kernel

end SharedCodecs

/-- Where a call stands between two of its locks; `refs` is what encoding the
section has added to `pending_refs`. -/
inductive Call where
  | encoded (refs : List (ℕ × ℕ)) (encoded : Encoder.EncodedSection)
  | checked (encoded : Encoder.EncodedSection)

structure Senders where
  shared : SharedCodecs
  /-- What the control plane has taken from the queue. -/
  taken : List Octets
  /-- The calls under way, at most one for each stream. -/
  calls : List (ℕ × Call)
  /-- What failed calls have left in `pending_refs`. -/
  leaked : List (ℕ × ℕ)

namespace Senders

inductive Action where
  | encode (stream : ℕ) (lines : List Field)
  | check (stream : ℕ)
  | push (stream : ℕ)
  | drain
  | feedback (buf : Octets)

/-- The encoder has just been created, with the peer's limit. -/
def start (settings : LocalSettings) (maxCapacity : ℕ) (huffman : Bool) (limit : Option ℕ) :
    Senders where
  shared := { SharedCodecs.new settings with
    encoder := some (Encoder.new maxCapacity huffman)
    peerMaxFieldSectionSize := limit }
  taken := []
  calls := []
  leaked := []

def pendingRefs (s : Senders) : List (ℕ × ℕ) :=
  match s.shared.encoder with
  | none => []
  | some e => e.pendingRefs

def callOf (s : Senders) (stream : ℕ) : Option Call := s.calls.lookup stream

def others (s : Senders) (stream : ℕ) : List (ℕ × Call) := s.calls.filter fun c => c.1 ≠ stream

/-- One lock taken and released; `error` when the step is not possible. -/
def step (s : Senders) : Action → Except Unit Senders
  | .encode stream lines =>
    match s.callOf stream with
    | some _ => .error ()
    | none =>
      match s.shared.encodeSection stream lines with
      | .error _ => .ok s
      | .ok (shared, encoded) =>
        let s' := { s with shared := shared }
        .ok { s' with
          calls := (stream, .encoded (s'.pendingRefs.drop s.pendingRefs.length) encoded) ::
            s.calls }
  | .check stream =>
    match s.callOf stream with
    | some (.encoded refs encoded) =>
      match s.shared.checkSize encoded with
      | .error _ => .ok { s with calls := s.others stream, leaked := s.leaked ++ refs }
      | .ok () => .ok { s with calls := (stream, .checked encoded) :: s.others stream }
    | _ => .error ()
  | .push stream =>
    match s.callOf stream with
    | some (.checked encoded) =>
      .ok { s with shared := s.shared.pushEncoderStream encoded, calls := s.others stream }
    | _ => .error ()
  | .drain =>
    .ok { s with
      shared := { s.shared with encoderStream := [] }
      taken := s.taken ++ s.shared.encoderStream }
  | .feedback buf =>
    match s.shared.encoder with
    | none => .ok s
    | some e =>
      match e.feedDecoderStream buf with
      | .error _ => .error ()
      | .ok e => .ok { s with shared := { s.shared with encoder := some e } }

def run (actions : List Action) (s : Senders) : Except Unit Senders := actions.foldlM step s

variable {stream : ℕ}

/-- The three locks of one call with nothing in between. -/
theorem run_encodeHeaders {s : Senders} (hidle : s.calls = []) {lines : List Field}
    {frame : Octets × Octets} (h : (s.shared.encodeHeaders stream lines).2 = .ok frame) :
    run [.encode stream lines, .check stream, .push stream] s =
      .ok { s with shared := (s.shared.encodeHeaders stream lines).1 } := by
  rw [encodeHeaders] at h ⊢
  cases hsection : s.shared.encodeSection stream lines with
  | error err => rw [hsection] at h; cases h
  | ok x =>
    obtain ⟨shared, encoded⟩ := x
    rw [hsection] at h
    cases hcheck : shared.checkSize encoded with
    | error err => simp only [hcheck] at h; cases h
    | ok u =>
      simp [run, step, callOf, others, hidle, hsection, hcheck]

/-! ### What the queue accounts for -/

/-- Everything that has been pushed, in the order of the queue. -/
def pushed (s : Senders) : Octets := (s.taken ++ s.shared.encoderStream).flatten

/-- Whenever no call is under way, replaying the queue gives the encoder's table;
and no failed call has left anything behind. -/
def Explained (s : Senders) : Prop :=
  s.leaked = [] ∧ (s.calls = [] → ∀ e, s.shared.encoder = some e →
    ∃ t, replay e.maxCapacity s.pushed = some t ∧ DynamicTable.Same e.dynamic t)

/-- The section is sure to be within the limit, or has no use for the table. -/
def Modest (e : Encoder) (limit : Option ℕ) (lines : List Field) : Prop :=
  e.maxCapacity < 32 ∨ limit.isNone ∨
    (e.knownReceived < 2 ^ 62 ∧ e.dynamic.inserted + lines.length < 2 ^ 62 ∧
      20 + fieldSectionSize lines ≤ limit.getD 0)

/-- A call starts when no other one is under way, with a section that will not be
refused. -/
def Orderly (s : Senders) : Action → Prop
  | .encode _ lines => s.calls = [] ∧ (∀ f ∈ lines, f.Fits) ∧ ∀ e ∈ s.shared.encoder,
    e.maxCapacity < 2 ^ 62 ∧ Modest e s.shared.peerMaxFieldSectionSize lines
  | _ => True

def Call.octets : Call → Octets
  | .encoded _ encoded | .checked encoded => encoded.encoderStream

/-- The instructions pushed so far, and then those of the call under way, lead to
the table that the encoder has. -/
structure Accounts (s : Senders) (e : Encoder) (history : List Field) (is : List Instruction)
    (t : DynamicTable) : Prop where
  encoder_eq : s.shared.encoder = some e
  keeps : e.Keeps history
  plays : DynamicTable.Plays e.maxCapacity (DynamicTable.new 0) is t
  holds : t.Holds history
  capacity_eq : t.capacity = e.dynamic.capacity
  fits : ∀ i ∈ is, i.Fits
  pushed_eq : s.pushed ++ s.calls.flatMap (fun c => Call.octets c.2) =
    is.flatMap (Instruction.code e.huffman)
  alone : s.calls.length ≤ 1
  harmless : ∀ stream refs encoded, (stream, Call.encoded refs encoded) ∈ s.calls →
    (refs = [] ∧ encoded.encoderStream = []) ∨ s.shared.checkSize encoded = .ok ()
  leaked_eq : s.leaked = []

namespace Accounts

variable {s s' : Senders} {e : Encoder} {history : List Field} {is : List Instruction}
  {t : DynamicTable}

section
variable (h : s.Accounts e history is t)
include h

theorem explained : s.Explained := by
  refine ⟨h.leaked_eq, fun hidle e' he' => ?_⟩
  obtain rfl := some.inj (h.encoder_eq.symm.trans he')
  obtain ⟨t', hreplay, hsame⟩ := replay_plays e.huffman h.plays h.fits
  have hpushed := h.pushed_eq
  rw [hidle, flatMap_nil, append_nil] at hpushed
  have htable := h.keeps.holds.same h.holds h.capacity_eq.symm
  exact ⟨t', by rw [hpushed, hreplay], htable.trans hsame⟩

/-- The only call under way is the one that is looked up. -/
theorem calls_eq {c : Call} (hcall : s.callOf stream = some c) :
    s.calls = [(stream, c)] ∧ s.others stream = [] := by
  have halone := h.alone
  rw [callOf] at hcall
  rw [others]
  match hcalls : s.calls with
  | [] => simp [hcalls] at hcall
  | [(other, c')] =>
    rw [hcalls, lookup_cons] at hcall
    cases hother : stream == other with
    | false => simp [hother] at hcall
    | true =>
      obtain rfl := beq_iff_eq.1 hother
      simp only [beq_self_eq_true, some.injEq] at hcall
      subst hcall
      simp
  | _ :: _ :: _ => simp [hcalls] at halone

theorem encode {lines : List Field} (hc : s.Orderly (.encode stream lines))
    (hstep : s.step (.encode stream lines) = .ok s') :
    ∃ e history is t, s'.Accounts e history is t := by
  obtain ⟨hidle, hfits, hencoder⟩ := hc
  obtain ⟨hmax, hmodest⟩ := hencoder e h.encoder_eq
  obtain ⟨added, written, refs, htells⟩ :=
    h.keeps.encodeSectionWithBase stream e.knownReceived hfits
  obtain ⟨e', encoded, hencode⟩ : ∃ e' encoded,
    e.encodeSectionWithBase stream lines e.knownReceived = (e', encoded) := ⟨_, _, rfl⟩
  rw [hencode] at htells
  dsimp only at htells
  have hpushed := h.pushed_eq
  -- the replayed table follows
  obtain ⟨t', hplays, hholds, hcap⟩ := plays_instrsFor h.holds
    (by rw [h.capacity_eq]; exact h.keeps.announced) (by rw [h.capacity_eq]; exact htells.capacity)
    fun f hf => htells.maxCapacity_eq ▸ htells.keeps.sizes f (mem_append_right _ hf)
  rw [h.capacity_eq] at hplays
  have hnone : s.callOf stream = none := by rw [callOf, hidle]; rfl
  have hsection : s.shared.encodeSection stream lines =
      .ok ({ s.shared with encoder := some e' }, encoded) := by
    rw [SharedCodecs.encodeSection, h.encoder_eq]
    simp [encodeSectionWithAckBase, hencode]
  have hdrop : e'.pendingRefs.drop s.pendingRefs.length = refs := by
    rw [htells.pending_eq, pendingRefs, h.encoder_eq, drop_left]
  rw [step, hnone, hsection] at hstep
  obtain rfl := Except.ok.inj hstep
  refine ⟨e', history ++ added, is ++ instrsFor e.dynamic.capacity _ added, t', rfl, htells.keeps,
    htells.maxCapacity_eq ▸ h.plays.append hplays, hholds, hcap, ?_, ?_, ?_, ?_, h.leaked_eq⟩
  · intro i hi
    rcases mem_append.1 hi with hi | hi
    · exact h.fits i hi
    · exact fits_of_mem_instrsFor (htells.capacity_lt hmax) htells.fits hi
  · rw [flatMap_append, htells.huffman_eq, ← hpushed, ← htells.stream_eq]
    simp [hidle, Call.octets, pushed]
  · simp [hidle]
  · intro other refs' encoded' hmem
    simp only [hidle, mem_singleton, Prod.mk.injEq, Call.encoded.injEq] at hmem
    obtain ⟨rfl, hrefs, rfl⟩ := hmem
    rcases hmodest with hsmall | hnolimit | ⟨hknown, hinserted, hroom⟩
    · obtain ⟨hsame, hstream⟩ :=
        encodeSectionWithBase_unused hsmall other lines e.knownReceived
      rw [hencode] at hsame hstream
      refine .inl ⟨?_, hstream⟩
      obtain rfl : e' = e := hsame
      rw [hrefs]
      exact hdrop.trans (append_cancel_left (htells.pending_eq.symm.trans (append_nil _).symm))
    · right
      rw [checkSize]
      simp [Option.isNone_iff_eq_none.1 hnolimit]
    · right
      have hlen := htells.length_block_le hmax hknown
        (by rw [← h.keeps.holds.inserted_eq]; exact hinserted)
      rw [checkSize]
      cases hlimit : s.shared.peerMaxFieldSectionSize with
      | none => rfl
      | some limit =>
        rw [hlimit, getD_some, fieldSectionSize] at hroom
        exact if_neg (by omega)

/-- The other steps move octets around and leave the encoder alone. -/
theorem of_eq (hencoder : s'.shared.encoder = s.shared.encoder)
    (hpushed : s'.pushed ++ s'.calls.flatMap (fun c => Call.octets c.2) =
      s.pushed ++ s.calls.flatMap (fun c => Call.octets c.2))
    (halone : s'.calls.length ≤ 1)
    (hharmless : ∀ stream refs encoded, (stream, Call.encoded refs encoded) ∈ s'.calls →
      (refs = [] ∧ encoded.encoderStream = []) ∨ s'.shared.checkSize encoded = .ok ())
    (hleaked : s'.leaked = []) : s'.Accounts e history is t :=
  ⟨hencoder.trans h.encoder_eq, h.keeps, h.plays, h.holds, h.capacity_eq, h.fits,
    hpushed.trans h.pushed_eq, halone, hharmless, hleaked⟩

theorem check (hstep : s.step (.check stream) = .ok s') : s'.Accounts e history is t := by
  rw [step] at hstep
  split at hstep
  · next refs encoded hcall =>
    obtain ⟨hcalls, hothers⟩ := h.calls_eq hcall
    have hharmless := h.harmless stream refs encoded (by simp [hcalls])
    rw [hothers] at hstep
    cases hcheck : s.shared.checkSize encoded with
    | error err =>
      -- a section that is refused has not touched the table
      obtain ⟨rfl, hnil⟩ := hharmless.resolve_right (by simp [hcheck])
      rw [hcheck] at hstep
      cases hstep
      exact h.of_eq rfl (by simp [hcalls, Call.octets, hnil, pushed]) (by simp) (by simp)
        (by simp [h.leaked_eq])
    | ok u =>
      rw [hcheck] at hstep
      cases hstep
      exact h.of_eq rfl (by simp [hcalls, Call.octets, pushed]) (by simp) (by simp) h.leaked_eq
  · cases hstep

theorem push (hstep : s.step (.push stream) = .ok s') : s'.Accounts e history is t := by
  rw [step] at hstep
  split at hstep
  · next encoded hcall =>
    obtain ⟨hcalls, hothers⟩ := h.calls_eq hcall
    rw [hothers] at hstep
    cases hstep
    rw [pushEncoderStream]
    split_ifs with hnil
    · exact h.of_eq rfl (by simp [hcalls, Call.octets, hnil, pushed]) (by simp) (by simp)
        h.leaked_eq
    · exact h.of_eq rfl (by simp [hcalls, Call.octets, pushed]) (by simp) (by simp) h.leaked_eq
  · cases hstep

theorem drain (hstep : s.step .drain = .ok s') : s'.Accounts e history is t := by
  cases hstep
  exact h.of_eq rfl (by simp [pushed]) h.alone h.harmless h.leaked_eq

theorem feedback {buf : Octets} (hstep : s.step (.feedback buf) = .ok s') :
    ∃ e, s'.Accounts e history is t := by
  simp only [step, h.encoder_eq] at hstep
  cases hfeed : e.feedDecoderStream buf with
  | error err => rw [hfeed] at hstep; cases hstep
  | ok e' =>
    rw [hfeed] at hstep
    cases hstep
    obtain ⟨hdynamic, hmax, hhuffman, hkeeps⟩ := Frames.feedDecoderStream hfeed
    exact ⟨e', rfl, hkeeps history h.keeps, hmax ▸ h.plays, h.holds, hdynamic ▸ h.capacity_eq,
      h.fits, hhuffman ▸ h.pushed_eq, h.alone, h.harmless, h.leaked_eq⟩

theorem step {a : Action} (hc : s.Orderly a) (hstep : s.step a = .ok s') :
    ∃ e history is t, s'.Accounts e history is t := by
  cases a with
  | encode stream lines => exact h.encode hc hstep
  | check stream => exact ⟨e, history, is, t, h.check hstep⟩
  | push stream => exact ⟨e, history, is, t, h.push hstep⟩
  | drain => exact ⟨e, history, is, t, h.drain hstep⟩
  | feedback buf =>
    obtain ⟨e', h'⟩ := h.feedback hstep
    exact ⟨e', history, is, t, h'⟩

end

theorem start (settings : LocalSettings) (maxCapacity : ℕ) (huffman : Bool) (limit : Option ℕ) :
    (Senders.start settings maxCapacity huffman limit).Accounts (new maxCapacity huffman)
      [] [] (DynamicTable.new 0) where
  encoder_eq := rfl
  keeps := .new maxCapacity huffman
  plays := .nil _
  holds := .empty 0 true
  capacity_eq := rfl
  fits := by simp
  pushed_eq := rfl
  alone := Nat.zero_le 1
  harmless := by simp [Senders.start]
  leaked_eq := rfl

end Accounts

/-- As long as calls follow one another and every section is sure to pass the size
check, the encoder stream explains the table. -/
theorem run_explained {settings : LocalSettings} {maxCapacity : ℕ} {huffman : Bool}
    {limit : Option ℕ} {actions : List Action} {s : Senders}
    (hc : Along step Orderly (start settings maxCapacity huffman limit) actions)
    (hrun : run actions (start settings maxCapacity huffman limit) = .ok s) : s.Explained := by
  obtain ⟨e, history, is, t, h⟩ := Along.invariant
    (I := fun s => ∃ e history is t, s.Accounts e history is t)
    (fun s a s' ⟨e, history, is, t, h⟩ hca hstep => h.step hca hstep) actions hc
    ⟨_, _, _, _, .start settings maxCapacity huffman limit⟩ hrun
  exact h.explained

instance (e : Encoder) (limit : Option ℕ) (lines : List Field) : Decidable (Modest e limit lines) :=
  inferInstanceAs (Decidable (_ ∨ _))

instance (s : Senders) : ∀ a, Decidable (s.Orderly a)
  | .encode _ lines =>
    have : Decidable (s.calls = []) := decidable_of_iff _ isEmpty_iff
    have : ∀ f : Field, Decidable f.Fits := fun _ => inferInstanceAs (Decidable (_ ∧ _))
    inferInstanceAs (Decidable (s.calls = [] ∧ (∀ f ∈ lines, f.Fits) ∧ ∀ e ∈ s.shared.encoder,
      e.maxCapacity < 2 ^ 62 ∧ Modest e s.shared.peerMaxFieldSectionSize lines))
  | .check _ | .push _ | .drain | .feedback _ => isTrue trivial

/-- Two sections one after the other, and the acknowledgment of the first. -/
theorem run_explained_in_turn :
    ∃ s, run [.encode 0 [⟨octets "x-id", octets "1"⟩], .check 0, .push 0, .drain, .feedback [0x80],
        .encode 4 [⟨octets "x-key", octets "2"⟩], .check 4, .push 4]
          (start {} 4096 true (some 100)) =
        .ok s ∧ s.calls = [] ∧ s.Explained := by
  refine exists_ok_and (fun s => s.calls.isEmpty) true (by decide +kernel) fun s hrun hidle => ?_
  exact ⟨isEmpty_iff.1 hidle, run_explained (by decide +kernel) hrun⟩

/-- What a peer can see of a run: the entries the encoder has, and those that the
queue leads to. -/
def tables (s : Senders) : Option (List Field × Option (List Field)) :=
  s.shared.encoder.map fun e =>
    (e.dynamic.entries, (replay e.maxCapacity s.pushed).map DynamicTable.entries)

theorem Explained.tables_eq {s : Senders} (h : s.Explained) (hidle : s.calls = [])
    {mine : List Field} {theirs : Option (List Field)}
    (htables : s.tables = some (mine, theirs)) : theirs = some mine := by
  obtain ⟨e, he, heq⟩ := Option.map_eq_some_iff.1 htables
  obtain ⟨t, hreplay, hsame⟩ := h.2 hidle e he
  rw [hreplay, map_some, ← hsame.entries_eq, Prod.mk.injEq] at heq
  rw [← heq.2, heq.1]

/-- A section that is refused leaves its entry in the table and its reference in
`pending_refs`, and sends nothing. Two calls that overtake each other send their
instructions in the wrong order. -/
theorem run_unexplained :
    (∃ s, run [.encode 0 [⟨octets "x-id", octets "1"⟩], .check 0] (start {} 4096 true (some 2)) =
      .ok s ∧ s.calls = [] ∧ s.leaked = [(0, 0)] ∧
      s.tables = some ([⟨octets "x-id", octets "1"⟩], some []) ∧ ¬ s.Explained) ∧
    (∃ s, run [.encode 0 [⟨octets "x-id", octets "1"⟩], .encode 4 [⟨octets "x-key", octets "2"⟩],
        .check 0, .check 4, .push 4, .push 0] (start {} 4096 true none) = .ok s ∧
      s.calls = [] ∧ s.leaked = [] ∧
      s.tables = some ([⟨octets "x-key", octets "2"⟩, ⟨octets "x-id", octets "1"⟩], none) ∧
      ¬ s.Explained) := by
  have hunexplained : ∀ {x : Except Unit Senders} {leaked mine theirs}, theirs ≠ some mine →
      (x.map fun s => decide (s.calls.isEmpty ∧ s.leaked = leaked ∧
        s.tables = some (mine, theirs))).toOption = some true →
      ∃ s, x = .ok s ∧ s.calls = [] ∧ s.leaked = leaked ∧ s.tables = some (mine, theirs) ∧
        ¬ s.Explained := by
    intro x leaked mine theirs hne h
    refine exists_ok_and _ _ h fun s _ hs => ?_
    obtain ⟨hidle, hleaked, htables⟩ := of_decide_eq_true hs
    rw [List.isEmpty_iff] at hidle
    exact ⟨hidle, hleaked, htables, fun hexplained => hne (hexplained.tables_eq hidle htables)⟩
  exact ⟨hunexplained (by simp) (by decide +kernel), hunexplained (by simp) (by decide +kernel)⟩

end Senders

end ZincioHttp.H3
