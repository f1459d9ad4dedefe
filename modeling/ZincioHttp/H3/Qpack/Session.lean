import ZincioHttp.H3.Qpack.Outstanding

/-! An encoder and a decoder on a connection. Sections travel on their streams,
instructions on the encoder stream and feedback on the decoder stream; all of
them are delivered in order, but cut and interleaved in any way. A joint
invariant shows that no call fails and that the sections of a stream come out in
the order in which they were encoded. -/

namespace ZincioHttp.H3.Qpack

open Lib ZincioHttp.Hpack DynamicTable List Encoder Decoder Parcel Mirror Feedback

structure Session where
  enc : Encoder
  dec : Decoder
  /-- Encoder-stream octets on their way. -/
  instructions : Octets
  /-- Decoder-stream octets on their way. -/
  feedback : Octets
  /-- Sections on their way, with their streams. -/
  inFlight : List (ℕ × Octets)
  sent : ℕ → List (List Field)
  received : ℕ → List (List Field)

inductive Action where
  | encode (ackBase : Bool) (stream : ℕ) (headers : List Field)
  /-- The next octets of the encoder stream arrive. -/
  | deliverInstructions (n : ℕ)
  /-- The next section of a stream arrives. -/
  | deliverSection (stream now : ℕ)
  /-- The next octets of the decoder stream arrive. -/
  | deliverFeedback (n : ℕ)

namespace Session

def start (maxCapacity maxBlockedStreams : ℕ) (huffman : Bool) : Session :=
  ⟨Encoder.new maxCapacity huffman, Decoder.new maxCapacity maxBlockedStreams, [], [], [],
    fun _ => [], fun _ => []⟩

def record (log : ℕ → List (List Field)) (stream : ℕ) (headers : List Field) :
    ℕ → List (List Field) :=
  Function.update log stream (log stream ++ [headers])

def recordAll (log : ℕ → List (List Field)) (sections : List UnblockedSection) :
    ℕ → List (List Field) :=
  sections.foldl (fun log u => record log u.stream u.headers) log

def step (s : Session) : Action → Except QpackError Session
  | .encode ackBase stream headers =>
    let (enc, encoded) :=
      if ackBase then s.enc.encodeSectionWithAckBase stream headers
      else s.enc.encodeSection stream headers
    .ok { s with
      enc := enc
      instructions := s.instructions ++ encoded.encoderStream
      inFlight := s.inFlight ++ [(stream, encoded.block)]
      sent := record s.sent stream headers }
  | .deliverInstructions n => do
    let (dec, sections) ← s.dec.feedEncoderStream (s.instructions.take n)
    return { s with
      dec := dec
      instructions := s.instructions.drop n
      received := recordAll s.received sections }
  | .deliverSection stream now =>
    match s.inFlight.find? fun x => decide (x.1 = stream) with
    | none => .ok s
    | some (_, block) => do
      let (dec, headers) ← s.dec.decodeBlock block stream now
      return { s with
        dec := dec
        inFlight := s.inFlight.eraseP fun x => decide (x.1 = stream)
        received := match headers with
          | none => s.received
          | some headers => record s.received stream headers }
  | .deliverFeedback n => do
    let (dec, taken) := s.dec.takeDecoderStream
    let feedback := s.feedback ++ taken
    let enc ← s.enc.feedDecoderStream (feedback.take n)
    return { s with enc := enc, dec := dec, feedback := feedback.drop n }

def run (s : Session) (actions : List Action) : Except QpackError Session :=
  actions.foldlM step s

end Session

def Action.fields : Action → ℕ
  | encode _ _ headers => headers.length
  | _ => 0

/-- What may be encoded: fields that can be written, on streams that can be
acknowledged. -/
def Action.Fits (streams : Finset ℕ) : Action → Prop
  | encode _ stream headers =>
    stream ∈ streams ∧ headers.length ≤ maxFieldsPerSection ∧ ∀ f ∈ headers, f.Fits
  | _ => True

namespace Session

/-- A section is recorded with its own stream. -/
theorem record_eq (log : ℕ → List (List Field)) (p : Parcel) (stream : ℕ) :
    record log p.stream p.headers stream = log stream ++ (on stream [p]).map headers := by
  rw [on_singleton]
  by_cases hs : p.stream = stream
  · subst hs
    simp [record]
  · simp [record, hs, Function.update_of_ne (Ne.symm hs)]

theorem recordAll_released (log : ℕ → List (List Field)) (out : List Parcel) (stream : ℕ) :
    recordAll log (out.map released) stream = log stream ++ (on stream out).map headers := by
  induction out generalizing log with
  | nil => simp [recordAll, on]
  | cons p out ih =>
    have hcons : recordAll log ((p :: out).map released) =
        recordAll (record log p.stream p.headers) (out.map released) := rfl
    rw [hcons, ih, record_eq, show p :: out = [p] ++ out from rfl, on_append, map_append,
      append_assoc]

/-! ### The joint invariant -/

/-- The state of a run in which the encoder has inserted `history`, the decoder
has queued the sections `queue`, the sections `flight` are on their way, and so
is the feedback `acks`. The encoder `e` stands for the settings. -/
structure Inv (e : Encoder) (streams : Finset ℕ) (history : List Field) (queue flight : List Parcel)
    (acks : List Feedback) (s : Session) : Prop where
  enc_max : s.enc.maxCapacity = e.maxCapacity
  enc_huffman : s.enc.huffman = e.huffman
  dec_max : s.dec.maxCapacity = e.maxCapacity
  room : streams.card ≤ s.dec.maxBlockedStreams
  streams_lt : ∀ stream ∈ streams, stream < 2 ^ 62
  enc_holds : s.enc.dynamic.Holds history
  follows : s.dec.Follows s.enc.dynamic.capacity history
  queues : s.dec.Queues e queue
  head : ∀ p ∈ queue.head?, s.dec.dynamic.inserted < p.ric
  flight_eq : s.inFlight = flight.map fun p => (p.stream, p.block e)
  sound : ∀ p ∈ queue ++ flight, p.Sound (oldest e.maxCapacity history) history
  used : ∀ p ∈ queue ++ flight, p.stream ∈ streams
  tracks : s.enc.Tracks (oldest e.maxCapacity history) s.dec.knownReceived acks
    fun stream => Parcel.on stream (queue ++ flight)
  instructions_eq : s.dec.encoderStreamPending ++ s.instructions =
    (Mirror.missing s.enc.dynamic.capacity history s.dec.dynamic).flatMap
      (Instruction.code e.huffman)
  part : Partial (Instruction.code e.huffman) s.dec.encoderStreamPending
    (Mirror.missing s.enc.dynamic.capacity history s.dec.dynamic)
  feedback_eq : s.enc.decoderStreamPending ++ (s.feedback ++ s.dec.decoderStream) =
    acks.flatMap Feedback.code
  log_eq : ∀ stream, s.sent stream =
    s.received stream ++ (Parcel.on stream (queue ++ flight)).map Parcel.headers

namespace Inv

variable {e : Encoder} {streams : Finset ℕ} {history : List Field} {queue flight : List Parcel}
  {acks : List Feedback} {s : Session}

theorem start {maxCapacity maxBlockedStreams : ℕ} (huffman : Bool) (hmax : maxCapacity < 2 ^ 62)
    (hroom : streams.card ≤ maxBlockedStreams) (hlt : ∀ stream ∈ streams, stream < 2 ^ 62) :
    Inv (new maxCapacity huffman) streams [] [] [] []
      (Session.start maxCapacity maxBlockedStreams huffman) where
  enc_max := rfl
  enc_huffman := rfl
  dec_max := rfl
  room := hroom
  streams_lt := hlt
  enc_holds := .empty 0 true
  follows :=
    { mirror := ⟨Holds.empty 0 false, le_rfl, .inl rfl⟩
      announced := .inr ⟨rfl, rfl⟩
      floor := by simp [oldest]
      known_le := le_rfl
      max_lt := hmax
      length_lt := by norm_num
      fits := by simp
      unlimited := rfl }
  queues := ⟨.nil, .empty⟩
  head := by simp
  flight_eq := rfl
  sound := by simp
  used := by simp
  tracks :=
    { cached := rfl
      floor := by simp [oldest]
      owed := fun stream => ⟨[], rfl, rfl⟩
      known := le_rfl
      fits := by simp }
  instructions_eq := rfl
  part := .intro nil_prefix nofun
  feedback_eq := rfl
  log_eq := by simp [Session.start, on]

/-- What was known and what is now known of the decoder. -/
theorem known_le (h : Inv e streams history queue flight acks s) :
    s.enc.knownReceived ≤ s.dec.knownReceived ∧ s.dec.knownReceived ≤ s.dec.dynamic.inserted ∧
      s.dec.dynamic.inserted ≤ history.length ∧ s.enc.dynamic.inserted = history.length := by
  have := h.tracks.known
  exact ⟨by omega, h.follows.known_le, h.follows.mirror.le, h.enc_holds.inserted_eq⟩

/-! ### Encoding -/

theorem instrsFor_append {a b c : ℕ} {l l' : List Field} (h : b = c ∨ (a = b ∧ l = [])) :
    instrsFor a b l ++ instrsFor b c l' = instrsFor a c (l ++ l') := by
  rcases h with rfl | ⟨rfl, rfl⟩
  · simp [instrsFor]
  · simp [instrsFor]

section
variable (h : Inv e streams history queue flight acks s)
include h

/-- The sections on their way survive what encoding one more evicts. -/
theorem sound_append {added : List Field}
    (hfloor : oldest e.maxCapacity (history ++ added) ≤ s.enc.evictableFloor) :
    ∀ p ∈ queue ++ flight,
      p.Sound (oldest e.maxCapacity (history ++ added)) (history ++ added) := by
  intro p hp
  have hsound := h.sound p hp
  have hpending : ∀ r ∈ p.pending, oldest e.maxCapacity (history ++ added) ≤ r.2 := by
    intro r hr
    have hmem : p ∈ on p.stream (queue ++ flight) := mem_filter.2 ⟨hp, by simp⟩
    have hrefs := (h.tracks.owed p.stream).mem_refs hmem hr
    have hmin : oldest e.maxCapacity (history ++ added) ≤ minPending s.enc.pendingRefs := by
      rw [← h.tracks.cached]
      exact hfloor.trans (min_le_right _ _)
    exact (Encoder.le_minPending.1 hmin).2 r hrefs
  refine ⟨hsound.spell.append_history added, hsound.count, ?_, ?_⟩
  · rw [length_append]
    exact hsound.base_le.trans (Nat.le_add_right _ _)
  · intro abs habs
    rw [length_append]
    exact ⟨le_ref_of_pending hpending habs,
      (hsound.refs abs habs).2.trans_le (Nat.le_add_right _ _)⟩

theorem encodeWithBase {stream : ℕ} {headers : List Field} (hstream : stream ∈ streams)
    (hcount : headers.length ≤ maxFieldsPerSection) (hfits : ∀ f ∈ headers, f.Fits)
    (hbound : history.length + headers.length < 2 ^ 62) {base : ℕ} (hbase : base ≤ history.length) :
    ∃ history' p, history'.length ≤ history.length + headers.length ∧
      Inv e streams history' queue (flight ++ [p]) acks { s with
        enc := (s.enc.encodeSectionWithBase stream headers base).1
        instructions := s.instructions ++
          (s.enc.encodeSectionWithBase stream headers base).2.encoderStream
        inFlight := s.inFlight ++
          [(stream, (s.enc.encodeSectionWithBase stream headers base).2.block)]
        sent := record s.sent stream headers } := by
  have hmax : s.dec.maxCapacity = s.enc.maxCapacity := h.dec_max.trans h.enc_max.symm
  have hann : Announced s.enc.maxCapacity s.enc.dynamic.capacity history := by
    rw [← hmax]
    exact h.follows.announced
  obtain ⟨t, added, p, rfl, rfl, hsound, hholds, hann', hcap, hfloor, hlen, hadded, heq⟩ :=
    encodeSectionWithBase_spec h.enc_holds hann h.tracks.cached
      (by rw [h.enc_max]; exact h.tracks.floor) stream hfits hcount hbase
      (by unfold u64Max; omega)
  rw [h.enc_max] at hsound hfloor hann' hadded
  rw [heq]
  obtain ⟨hknown, hdknown, hdins, -⟩ := h.known_le
  -- the decoder is as far behind as before, and the new instructions follow
  have hmirror : Mirror t.capacity (history ++ added) s.dec.dynamic := by
    refine ⟨?_, by rw [length_append]; omega, ?_⟩
    · rw [take_append_of_le_length hdins]
      exact h.follows.mirror.holds
    · rcases h.follows.mirror.capacity_eq with hc | hc
      · rcases hcap with hc' | hc'
        · rcases hann with hold | ⟨hold, hnil⟩
          · exact .inl (by omega)
          · rw [hnil, length_nil] at hdins
            exact .inr ⟨by omega, by omega⟩
        · exact .inl (by omega)
      · exact .inr hc
  have hmissing : missing t.capacity (history ++ added) s.dec.dynamic =
      missing s.enc.dynamic.capacity history s.dec.dynamic ++
        instrsFor s.enc.dynamic.capacity t.capacity added := by
    rw [missing, missing, drop_append_of_le_length hdins, instrsFor_append]
    rcases hcap with hc | hc
    · rcases hann with hold | ⟨hold, hnil⟩
      · exact .inl (by omega)
      · refine .inr ⟨?_, by simp [hnil]⟩
        rcases h.follows.mirror.capacity_eq with hc' | ⟨hc', -⟩ <;> omega
    · exact .inl hc.symm
  have hrecv : oldest e.maxCapacity (history ++ added) ≤ s.enc.knownReceived :=
    hfloor.trans (min_le_left _ _)
  have hfollows : s.dec.Follows t.capacity (history ++ added) :=
    { h.follows with
      mirror := hmirror
      announced := by rw [h.dec_max]; exact hann'
      floor := by rw [h.dec_max]; exact hrecv.trans hknown
      length_lt := by rw [length_append]; omega
      fits := by
        intro f hf
        rcases mem_append.1 hf with hf | hf
        · exact h.follows.fits f hf
        · rw [h.dec_max]
          exact hadded f hf }
  refine ⟨history ++ added, p, by rw [length_append]; omega, ?_⟩
  exact
    { h with
      enc_holds := hholds
      follows := hfollows
      flight_eq := by
        rw [map_append, h.flight_eq, p.block_congr h.enc_max h.enc_huffman]
        rfl
      sound := by
        intro q hq
        rw [← append_assoc] at hq
        rcases mem_append.1 hq with hq | hq
        · exact h.sound_append hfloor q hq
        · obtain rfl := mem_singleton.1 hq
          exact hsound
      used := by
        intro q hq
        rw [← append_assoc] at hq
        rcases mem_append.1 hq with hq | hq
        · exact h.used q hq
        · obtain rfl := mem_singleton.1 hq
          exact hstream
      tracks :=
        { h.tracks with
          cached := rfl
          floor := by
            refine le_min hrecv (Encoder.le_minPending.2 ⟨?_, ?_⟩)
            · unfold u64Max
              omega
            · intro r hr
              rcases mem_append.1 hr with hr | hr
              · have hmin := hfloor.trans (min_le_right _ _)
                rw [h.tracks.cached] at hmin
                exact (Encoder.le_minPending.1 hmin).2 r hr
              · exact hsound.le_pending r hr
          owed := by
            intro stream
            rw [← append_assoc, on_append]
            exact (h.tracks.owed stream).send p }
      instructions_eq := by
        rw [← append_assoc, h.instructions_eq, hmissing, flatMap_append, h.enc_huffman]
      part := by
        rw [hmissing]
        refine h.part.append fun i hi => ?_
        exact (Instruction.framed e.huffman (hfollows.fits_missing i (by
          rw [hmissing]
          exact mem_append_right _ hi))).1
      log_eq := by
        intro stream
        rw [← append_assoc, on_append, map_append, ← append_assoc, ← h.log_eq stream]
        exact record_eq s.sent p stream }

/-! ### Deliveries -/

theorem fits_acks {out : List Parcel} (hout : ∀ p ∈ out, p.stream ∈ streams) :
    ∀ a ∈ out.flatMap Parcel.acks, (a.Fits ∧ a ≠ .increment 0) ∧ a.amount = 0 := by
  intro a ha
  obtain ⟨p, hp, ha⟩ := mem_flatMap.1 ha
  obtain ⟨r, hr, rfl⟩ := mem_map.1 ha
  have hstream : r.1 = p.stream := by
    simp only [pending, Option.mem_toList, Option.map_eq_some_iff] at hr
    obtain ⟨m, -, rfl⟩ := hr
    rfl
  refine ⟨⟨?_, by simp⟩, rfl⟩
  rw [hstream]
  exact h.streams_lt _ (hout p hp)

/-- The encoder may count on what the decoder has released. -/
theorem tracks_release {out waiting : List Parcel} {incs : List Feedback} {known : ℕ}
    (hout : ∀ p ∈ out, p.stream ∈ streams)
    (hon : ∀ stream, on stream (queue ++ flight) = on stream out ++ on stream waiting)
    (hle : s.dec.knownReceived ≤ known) (hlt : known < 2 ^ 62)
    (hincs : incs = [] ∨ ∃ n, incs = [.increment n] ∧ 0 < n ∧ s.dec.knownReceived + n ≤ known) :
    s.enc.Tracks (oldest e.maxCapacity history) known (acks ++ (out.flatMap Parcel.acks ++ incs))
      fun stream => on stream waiting where
  cached := h.tracks.cached
  floor := h.tracks.floor
  owed := by
    intro stream
    apply Owed.release
    · rw [← hon stream]
      exact h.tracks.owed stream
    · rcases hincs with rfl | ⟨n, rfl, -, -⟩ <;> simp
  known := by
    have hzero : ((out.flatMap Parcel.acks).map amount).sum = 0 := by
      apply sum_eq_zero
      intro x hx
      obtain ⟨a, ha, rfl⟩ := mem_map.1 hx
      exact (h.fits_acks hout a ha).2
    have hknown := h.tracks.known
    simp only [map_append, sum_append]
    rcases hincs with rfl | ⟨n, rfl, -, hn⟩
    · simp only [map_nil, sum_nil]
      omega
    · simp only [map_cons, map_nil, sum_cons, sum_nil, amount]
      omega
  fits := by
    intro a ha
    simp only [mem_append] at ha
    rcases ha with ha | ha | ha
    · exact h.tracks.fits a ha
    · exact (h.fits_acks hout a ha).1
    · rcases hincs with rfl | ⟨n, rfl, hpos, hn⟩
      · simp at ha
      · obtain rfl := mem_singleton.1 ha
        refine ⟨show n < 2 ^ 62 by omega, ?_⟩
        simp only [ne_eq, increment.injEq]
        omega

theorem deliverInstructions (n : ℕ) : ∃ s' queue' acks', s.step (.deliverInstructions n) = .ok s' ∧
      Inv e streams history queue' flight acks' s' := by
  have hsound : ∀ p ∈ queue, p.Sound (oldest s.dec.maxCapacity history) history := by
    rw [h.dec_max]
    exact fun p hp => h.sound p (by simp [hp])
  obtain ⟨d', out, rest, incs, rfl, hfeed, hfollows, hqueues, hhead, hmax, hlimit, hpending, hpart,
    hstream, hknown, hincs⟩ := h.follows.feedEncoderStream h.queues h.dec_max.symm hsound e.huffman
      (s.instructions.take n) (s.instructions.drop n)
      (by rw [take_append_drop]; exact h.instructions_eq)
  refine ⟨{ s with
      dec := d'
      instructions := s.instructions.drop n
      received := recordAll s.received (out.map released) }, rest,
    acks ++ (out.flatMap Parcel.acks ++ incs), ?_, ?_⟩
  · simp [step, hfeed]
  · have hon : ∀ stream, on stream (out ++ rest ++ flight) =
        on stream out ++ on stream (rest ++ flight) := by
      intro stream
      rw [append_assoc, on_append]
    exact
      { h with
        dec_max := hmax.trans h.dec_max
        room := by simpa only [hlimit] using h.room
        follows := hfollows
        queues := hqueues
        head := hhead
        sound := fun p hp => h.sound p (by simp_all)
        used := fun p hp => h.used p (by simp_all)
        tracks := h.tracks_release (fun p hp => h.used p (by simp [hp])) hon hknown
          (hfollows.known_le.trans_lt (hfollows.mirror.le.trans_lt hfollows.length_lt)) hincs
        instructions_eq := hpending
        part := hpart
        feedback_eq := by
          rw [flatMap_append, ← h.feedback_eq, hstream]
          simp
        log_eq := by
          intro stream
          show s.sent stream = recordAll s.received (out.map released) stream ++ _
          rw [recordAll_released, append_assoc, ← map_append, ← hon, ← h.log_eq] }

end

/-- The next section of a stream among those on their way. -/
theorem find_flight {flight : List Parcel} {stream : ℕ} {x : ℕ × Octets}
    (hfind : (flight.map fun p => (p.stream, p.block e)).find? (fun x => decide (x.1 = stream)) =
      some x) :
    ∃ before p after, flight = before ++ p :: after ∧ p.stream = stream ∧
      stream ∉ before.map Parcel.stream ∧ x = (stream, p.block e) ∧
      (flight.map fun p => (p.stream, p.block e)).eraseP (fun x => decide (x.1 = stream)) =
        (before ++ after).map fun p => (p.stream, p.block e) := by
  rw [find?_map, Option.map_eq_some_iff] at hfind
  obtain ⟨p, hp, rfl⟩ := hfind
  obtain ⟨hs, before, after, rfl, hbefore⟩ := find?_eq_some_iff_append.1 hp
  simp only [Function.comp, decide_eq_true_eq] at hs
  subst hs
  have hnot : p.stream ∉ before.map stream := by
    simp only [mem_map, not_exists, not_and]
    intro q hq heq
    have := hbefore q hq
    simp [heq] at this
  refine ⟨before, p, after, rfl, rfl, hnot, rfl, ?_⟩
  rw [map_append, map_cons, eraseP_append_right, eraseP_cons_of_pos (by simp), map_append]
  intro x hx
  obtain ⟨q, hq, rfl⟩ := mem_map.1 hx
  simp only [decide_eq_true_eq]
  exact fun heq => hnot (heq ▸ mem_map_of_mem hq)

section
variable (h : Inv e streams history queue flight acks s)
include h

theorem deliverSection (stream now : ℕ) :
    ∃ s' queue' flight' acks', s.step (.deliverSection stream now) = .ok s' ∧
      Inv e streams history queue' flight' acks' s' := by
  cases hfind : s.inFlight.find? fun x => decide (x.1 = stream) with
  | none => exact ⟨s, queue, flight, acks, by simp [step, hfind], h⟩
  | some x =>
    obtain ⟨before, p, after, rfl, rfl, hbefore, rfl, herase⟩ := find_flight (h.flight_eq ▸ hfind)
    rw [← h.flight_eq] at herase
    have hmem : p ∈ queue ++ (before ++ p :: after) := by simp
    have hsound : p.Sound (oldest s.dec.maxCapacity history) history := by
      rw [h.dec_max]
      exact h.sound p hmem
    have hrest : ∀ q ∈ queue ++ (before ++ after), q ∈ queue ++ (before ++ p :: after) := by
      intro q hq
      simp only [mem_append] at hq ⊢
      tauto
    by_cases hwait : s.dec.dynamic.inserted < p.ric ∨ p.stream ∈ queue.map stream
    · -- the section is queued
      obtain ⟨blocked, counts, hdecode, hqueues⟩ := h.follows.decodeBlock_queued h.queues
        h.dec_max.symm hsound (fun hnew => lt_of_lt_of_le (h.queues.counts.length_lt_card (by
            intro a ha
            obtain ⟨q, hq, rfl⟩ := mem_map.1 ha
            exact h.used q (by simp [hq])) (h.used p hmem) hnew) h.room) hwait now
      have hon : ∀ stream, on stream (queue ++ [p] ++ (before ++ after)) =
          on stream (queue ++ (before ++ p :: after)) := by
        intro stream
        have hswap := on_swap stream hbefore
        rw [show before ++ p :: after = before ++ ([p] ++ after) from rfl]
        simp only [on_append, append_assoc]
        rw [← append_assoc (on stream before), hswap, append_assoc]
      refine ⟨{ s with
          dec := { s.dec with blocked := blocked, blockedByStream := counts }
          inFlight := s.inFlight.eraseP fun x => decide (x.1 = p.stream) }, queue ++ [p],
        before ++ after, acks, ?_, ?_⟩
      · simp [step, hfind, hdecode]
      · exact
          { h with
            follows := h.follows.congr rfl rfl rfl rfl
            queues := hqueues
            head := by
              cases queue with
              | nil => simpa using hwait
              | cons q queue => exact h.head
            flight_eq := herase
            sound := fun q hq => h.sound q (by simp_all; tauto)
            used := fun q hq => h.used q (by simp_all; tauto)
            tracks := by
              simp only [hon]
              exact h.tracks
            log_eq := by
              intro stream
              rw [hon]
              exact h.log_eq stream }
    · -- it is decoded at once
      push Not at hwait
      obtain ⟨sizes, hdecode⟩ := h.follows.decodeBlock_ready h.queues h.dec_max.symm hsound
        hwait.1 hwait.2 now
      have hon : ∀ stream, on stream (queue ++ (before ++ p :: after)) =
          on stream [p] ++ on stream (queue ++ (before ++ after)) := by
        intro stream
        have hswap := @on_swap (queue ++ before) p stream
          (by simp only [map_append, mem_append]; tauto)
        rw [show before ++ p :: after = before ++ ([p] ++ after) from rfl]
        simp only [on_append, append_assoc] at hswap ⊢
        rw [← append_assoc (on stream before), ← append_assoc (on stream queue), hswap]
        simp
      have hfollows := h.follows.acknowledge hwait.1 sizes
        (s.dec.decoderStream ++ p.acks.flatMap code)
      refine ⟨{ s with
          dec := { s.dec with
            sectionSizeByStream := sizes
            knownReceived := max s.dec.knownReceived p.ric
            decoderStream := s.dec.decoderStream ++ p.acks.flatMap code }
          inFlight := s.inFlight.eraseP fun x => decide (x.1 = p.stream)
          received := record s.received p.stream p.headers }, queue, before ++ after,
        acks ++ ([p].flatMap Parcel.acks ++ []), ?_, ?_⟩
      · simp [step, hfind, hdecode]
      · exact
          { h with
            follows := hfollows
            queues := ⟨h.queues.blocked, h.queues.counts⟩
            flight_eq := herase
            sound := fun q hq => h.sound q (hrest q hq)
            used := fun q hq => h.used q (hrest q hq)
            tracks := h.tracks_release (by simpa using h.used p hmem) hon (le_max_left _ _)
              (hfollows.known_le.trans_lt (hfollows.mirror.le.trans_lt hfollows.length_lt))
              (.inl rfl)
            feedback_eq := by
              rw [flatMap_append, ← h.feedback_eq]
              simp
            log_eq := by
              intro stream
              rw [h.log_eq stream, hon, map_append, ← append_assoc, ← record_eq] }

theorem deliverFeedback (n : ℕ) : ∃ s' acks', s.step (.deliverFeedback n) = .ok s' ∧
      Inv e streams history queue flight acks' s' := by
  obtain ⟨-, hknown, hle, hins⟩ := h.known_le
  obtain ⟨known, refs, cached, pending, acks', hfeed, htracks, hbytes⟩ :=
    h.tracks.feedDecoderStream (by omega)
      ((s.feedback ++ s.dec.decoderStream).take n)
      ((s.feedback ++ s.dec.decoderStream).drop n)
      (by rw [take_append_drop]; exact h.feedback_eq)
  refine ⟨{ s with
      enc := { s.enc with
        knownReceived := known
        pendingRefs := refs
        cachedMinPending := cached
        decoderStreamPending := pending }
      dec := { s.dec with decoderStream := [] }
      feedback := (s.feedback ++ s.dec.decoderStream).drop n }, acks', ?_, ?_⟩
  · simp [step, takeDecoderStream, hfeed]
  · exact
      { h with
        follows := h.follows.congr rfl rfl rfl rfl
        queues := ⟨h.queues.blocked, h.queues.counts⟩
        tracks := htracks
        feedback_eq := by simpa using hbytes }

/-! ### Runs -/

theorem step {a : Action} (ha : a.Fits streams) (hbound : history.length + a.fields < 2 ^ 62) :
    ∃ s' history' queue' flight' acks', s.step a = .ok s' ∧
      Inv e streams history' queue' flight' acks' s' ∧
      history'.length ≤ history.length + a.fields := by
  cases a with
  | encode ackBase stream headers =>
    obtain ⟨hstream, hcount, hfits⟩ := ha
    obtain ⟨hknown, hdknown, hdins, hins⟩ := h.known_le
    cases ackBase with
    | false =>
      obtain ⟨history', p, hlen, h'⟩ := h.encodeWithBase hstream hcount hfits hbound hins.le
      exact ⟨_, history', queue, flight ++ [p], acks, rfl, h', hlen⟩
    | true =>
      obtain ⟨history', p, hlen, h'⟩ := h.encodeWithBase hstream hcount hfits hbound
        (show s.enc.knownReceived ≤ _ by omega)
      exact ⟨_, history', queue, flight ++ [p], acks, rfl, h', hlen⟩
  | deliverInstructions n =>
    obtain ⟨s', queue', acks', hstep, h'⟩ := h.deliverInstructions n
    exact ⟨s', history, queue', flight, acks', hstep, h', le_rfl⟩
  | deliverSection stream now =>
    obtain ⟨s', queue', flight', acks', hstep, h'⟩ := h.deliverSection stream now
    exact ⟨s', history, queue', flight', acks', hstep, h', le_rfl⟩
  | deliverFeedback n =>
    obtain ⟨s', acks', hstep, h'⟩ := h.deliverFeedback n
    exact ⟨s', history, queue, flight, acks', hstep, h', le_rfl⟩

end

theorem run (actions : List Action) : ∀ {s : Session} {history : List Field}
    {queue flight : List Parcel} {acks : List Feedback},
    Inv e streams history queue flight acks s → (∀ a ∈ actions, a.Fits streams) →
    history.length + (actions.map Action.fields).sum < 2 ^ 62 →
    ∃ s' history' queue' flight' acks', s.run actions = .ok s' ∧
      Inv e streams history' queue' flight' acks' s' := by
  induction actions with
  | nil =>
    intro s history queue flight acks h _ _
    exact ⟨s, history, queue, flight, acks, rfl, h⟩
  | cons a actions ih =>
    intro s history queue flight acks h hfits hbound
    rw [map_cons, sum_cons] at hbound
    obtain ⟨s₁, history₁, queue₁, flight₁, acks₁, hstep, h₁, hlen⟩ :=
      h.step (hfits a (by simp)) (by omega)
    obtain ⟨s', history', queue', flight', acks', hrun, h'⟩ := ih h₁
      (fun b hb => hfits b (by simp [hb])) (by omega)
    refine ⟨s', history', queue', flight', acks', ?_, h'⟩
    rw [Session.run, foldlM_cons, hstep]
    exact hrun

/-- The decoder's queue and the parcels in it agree on how many belong to a
stream. -/
theorem countP_blocked (h : Inv e streams history queue flight acks s) (stream : ℕ) :
    s.dec.blocked.countP (fun b => decide (b.stream = stream)) = (on stream queue).length := by
  rw [on, ← countP_eq_length_filter]
  have hblocked := h.queues.blocked
  generalize s.dec.blocked = blocked at hblocked
  clear h
  induction hblocked with
  | nil => rfl
  | cons hb _ ih => rw [countP_cons, countP_cons, ih, hb.stream_eq]

/-- When all instructions have arrived nothing is blocked. -/
theorem queue_eq_nil (h : Inv e streams history queue flight acks s) (hnone : s.instructions = []) :
    queue = [] := by
  cases queue with
  | nil => rfl
  | cons p queue =>
    have hhead := h.head p (by simp)
    have hbytes := h.instructions_eq
    rw [hnone, append_nil] at hbytes
    have hmissing := h.part.todo_eq_nil hbytes
    simp only [missing, instrsFor, append_eq_nil_iff, map_eq_nil_iff] at hmissing
    have hle := drop_eq_nil_iff.1 hmissing.2
    simp only [ric] at hhead
    obtain ⟨abs, habs, heq⟩ := exists_ref_of_ricOf_pos (show 0 < ricOf p.lines by omega)
    have := ((h.sound p (by simp)).refs abs habs).2
    omega

end Inv

/-- For every interleaving no call fails, every stream's lists come out in order
and unchanged, each of them once, and none is held back once everything has
arrived. The integers of QPACK carry values below `2 ^ 62`, which bounds the
capacity, the stream identifiers, the strings and the number of fields. -/
theorem run_delivers (maxCapacity maxBlockedStreams : ℕ) (huffman : Bool) (streams : Finset ℕ)
    (actions : List Action) (hmax : maxCapacity < 2 ^ 62)
    (hroom : streams.card ≤ maxBlockedStreams) (hlt : ∀ stream ∈ streams, stream < 2 ^ 62)
    (hfits : ∀ a ∈ actions, a.Fits streams) (hfields : (actions.map Action.fields).sum < 2 ^ 62) :
    ∃ s, (start maxCapacity maxBlockedStreams huffman).run actions = .ok s ∧ ∀ stream,
      s.received stream <+: s.sent stream ∧
      (s.sent stream).length = (s.received stream).length +
        s.dec.blocked.countP (fun b => decide (b.stream = stream)) +
        s.inFlight.countP (fun x => decide (x.1 = stream)) ∧
      (s.instructions = [] → s.inFlight = [] → s.received stream = s.sent stream) := by
  obtain ⟨s, history, queue, flight, acks, hrun, h⟩ :=
    Inv.run actions (Inv.start huffman hmax hroom hlt) hfits (by simpa using hfields)
  refine ⟨s, hrun, fun stream => ⟨⟨_, (h.log_eq stream).symm⟩, ?_, ?_⟩⟩
  · rw [h.log_eq stream, h.flight_eq, length_append, length_map, Parcel.on_append,
      length_append, countP_map, h.countP_blocked]
    simp only [countP_eq_length_filter]
    rw [Nat.add_assoc]
    rfl
  · intro hinstr hflight
    have hqueue := h.queue_eq_nil hinstr
    rw [h.flight_eq, map_eq_nil_iff] at hflight
    rw [h.log_eq stream, hqueue, hflight]
    simp [Parcel.on]

/-- The section arrives before the insertion it refers to, waits, and is then
acknowledged. -/
theorem run_delivers_after_waiting :
    ∃ s, (start 4096 1 true).run [.encode false 4 [⟨octets "x-id", octets "1"⟩],
        .deliverSection 4 0, .deliverInstructions 100, .deliverFeedback 10] = .ok s ∧ ∀ stream,
      s.received stream <+: s.sent stream ∧
      (s.sent stream).length = (s.received stream).length +
        s.dec.blocked.countP (fun b => decide (b.stream = stream)) +
        s.inFlight.countP (fun x => decide (x.1 = stream)) ∧
      (s.instructions = [] → s.inFlight = [] → s.received stream = s.sent stream) := by
  refine run_delivers 4096 1 true {4} _ (by norm_num) (by simp) (by simp) ?_ (by decide)
  simp only [forall_mem_cons, Action.Fits, Finset.mem_singleton, length_singleton,
    mem_singleton, forall_eq, true_and, and_true, Field.Fits]
  exact ⟨by decide, by decide +kernel, by decide +kernel⟩

/-- A stream identifier of `2 ^ 62` cannot be acknowledged. -/
theorem run_wide_stream_fails :
    ¬∃ s, (start 4096 1 false).run [.encode false (2 ^ 62) [⟨octets "x-id", octets "1"⟩],
        .deliverInstructions 100, .deliverSection (2 ^ 62) 0, .deliverFeedback 20] = .ok s := by
  rintro ⟨s, hs⟩
  have hok := congrArg Except.isOk hs
  exact absurd (hok.symm.trans (by decide +kernel)) Bool.false_ne_true.symm

end Session

end ZincioHttp.H3.Qpack
