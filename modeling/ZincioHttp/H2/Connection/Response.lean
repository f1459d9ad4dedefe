import ZincioHttp.H2.Connection.Run
import ZincioHttp.Lib.Runs

/-! One response on its way out. The messages of a stream's task follow a script;
what has been handled of them is either in DATA frames or queued with the stream,
in order, and END_STREAM is written when the last of it is. -/

namespace ZincioHttp.H2

open Lib List Option StreamEntry Pump Bool Prod
open H2.Frame (payloadOn endsStream)
open H2.Hpack (Header)

/-! ### The script of a response -/

inductive Phase where
  | start
  | body
  | ended
  | done
  deriving DecidableEq, Repr

namespace StreamMsg

def ends : StreamMsg → Bool
  | headers _ endStream | data _ endStream => endStream
  | trailers _ | reset _ => true
  | _ => false

/-- The message breaks a response off. -/
def breaksOff (phase : Phase) : StreamMsg → Bool
  | reset _ => true
  | closed => decide (phase ≠ .ended)
  | _ => false

end StreamMsg

namespace Phase

/-- Interim responses, the head, data, then trailers or a reset, and that the task has
finished. -/
def follow : Phase → StreamMsg → Option Phase
  | start, .informational _ => some start
  | start, .headers _ _ => some body
  | body, .data _ _ => some body
  | body, .trailers _ => some ended
  | start, .reset _ | body, .reset _ => some ended
  | start, .closed | body, .closed | ended, .closed => some done
  | _, _ => none

/-- The same for a response that is not broken off and has nothing after its end. -/
def next (phase : Phase) (msg : StreamMsg) : Option Phase :=
  if msg.breaksOff phase then none
  else (phase.follow msg).map fun phase => if msg.ends then ended else phase

variable {p q p' : Phase} {octs : Octets} {endStream : Bool}

theorem follow_ends (h : p.follow (.data octs endStream) = some q)
    (h' : q.follow (.data [] true) = some p') : p.follow (.data octs true) = some p' := by
  cases p <;> cases h
  exact h'

theorem next_ends (h : p.next (.data octs endStream) = some q)
    (h' : q.next (.data [] true) = some p') : p.next (.data octs true) = some p' := by
  cases p <;> cases endStream <;> cases h
  · exact h'
  · cases h'

def isOver : Phase → Bool
  | ended | done => true
  | _ => false

end Phase

def StreamMsg.octets : StreamMsg → Octets
  | .data octs _ => octs
  | _ => []

def dataOf (msgs : List StreamMsg) : Octets := msgs.flatMap StreamMsg.octets

@[simp] theorem dataOf_append (first second : List StreamMsg) :
    dataOf (first ++ second) = dataOf first ++ dataOf second :=
  flatMap_append

variable {phase' : Phase} {endStream : Bool} {w' : List Frame}

/-- Nothing of substance follows the end of a response. -/
theorem Phase.after_over {phase : Phase} {msgs : List StreamMsg} (hover : phase.isOver = true)
    (h : msgs.foldlM Phase.next phase = some phase') :
    phase'.isOver = true ∧ dataOf msgs = [] ∧ ∀ msg ∈ msgs, msg = .closed := by
  cases msgs with
  | nil =>
    obtain rfl := some.inj h
    exact ⟨hover, rfl, nofun⟩
  | cons msg msgs =>
    cases phase with
    | start => cases hover
    | body => cases hover
    | done => cases msg <;> cases h
    | ended =>
      cases msg with
      | closed =>
        cases msgs with
        | nil =>
          obtain rfl := some.inj h
          exact ⟨rfl, rfl, by simp⟩
        | cons msg msgs => cases msg <;> cases h
      | _ => cases h

/-! ### Merging end markers -/

namespace Connection

theorem dataOf_mergeEnd (msgs : List StreamMsg) : dataOf (mergeEnd msgs) = dataOf msgs := by
  fun_induction mergeEnd msgs with
  | case1 data _ rest ih => simpa [dataOf, StreamMsg.octets] using ih
  | case2 msg rest _ ih => simpa [dataOf] using ih
  | case3 => rfl

/-- A script that takes an end marker after data takes data that ends the response. -/
theorem foldlM_mergeEnd {next : Phase → StreamMsg → Option Phase}
    (hend : ∀ {p q p' data endStream}, next p (.data data endStream) = some q →
      next q (.data [] true) = some p' → next p (.data data true) = some p')
    (msgs : List StreamMsg) : ∀ {p p' : Phase}, msgs.foldlM next p = some p' →
      (mergeEnd msgs).foldlM next p = some p' := by
  fun_induction mergeEnd msgs with
  | case1 data endStream rest ih =>
    intro p p' h
    obtain ⟨q, hdata, h⟩ := foldlM_cons_eq_some.1 h
    obtain ⟨p₁, hmarker, h⟩ := foldlM_cons_eq_some.1 h
    exact foldlM_cons_eq_some.2 ⟨p₁, hend hdata hmarker, ih h⟩
  | case2 msg rest _ ih =>
    intro p p' h
    obtain ⟨p₁, hnext, h⟩ := foldlM_cons_eq_some.1 h
    exact foldlM_cons_eq_some.2 ⟨p₁, hnext, ih h⟩
  | case3 => exact id

theorem mem_mergeEnd (msgs : List StreamMsg) {msg : StreamMsg}
    (hmsg : ∀ data endStream, msg ≠ .data data endStream) : msg ∈ mergeEnd msgs ↔ msg ∈ msgs := by
  fun_induction mergeEnd msgs with
  | case1 data endStream rest ih => simp [ih, hmsg]
  | case2 msg' rest _ ih => simp [ih]
  | case3 => rfl

end Connection

/-! ### The response of one stream -/

def StreamEntry.queued (e : StreamEntry) : Octets := e.pendingData.flatMap fst

/-- The field block of the response has been written, by the encoder as it was then. -/
def HeadersWritten (id : ℕ) (parts : Parts) (endStream : Bool) (w : List Frame) : Prop :=
  ∃ before after capacity, ∃ encoder : Hpack.Encoder, w = before ++
    writeFieldBlock capacity id endStream (encoder.encode (Connection.responseFields parts)).2 ++
      after

theorem HeadersWritten.append {id : ℕ} {parts : Parts} {w : List Frame}
    (h : HeadersWritten id parts endStream w) (w' : List Frame) :
    HeadersWritten id parts endStream (w ++ w') := by
  obtain ⟨before, after, capacity, encoder, rfl⟩ := h
  exact ⟨before, after ++ w', capacity, encoder, by simp only [append_assoc]⟩

/-- No DATA octets follow END_STREAM. -/
def EndsLast (id : ℕ) (w : List Frame) : Prop :=
  w.Pairwise fun f g => f.endsStream id = true → g.payloadOn id = []

namespace EndsLast

variable {id : ℕ} {w w' : List Frame}

theorem of_count_zero (h : w.countP (endsStream id) = 0) : EndsLast id w :=
  pairwise_of_forall_mem_list fun f hf _ _ hend => absurd hend (countP_eq_zero.1 h f hf)

theorem append (h : EndsLast id w) (hw' : w'.flatMap (payloadOn id) = []) :
    EndsLast id (w ++ w') := by
  rw [flatMap_eq_nil_iff] at hw'
  refine pairwise_append.2 ⟨h, ?_, fun f _ g hg _ => hw' g hg⟩
  exact pairwise_of_forall_mem_list fun f _ g hg _ => hw' g hg

theorem concat (h : w.countP (endsStream id) = 0) (f : Frame) : EndsLast id (w ++ [f]) :=
  pairwise_append.2 ⟨of_count_zero h, pairwise_singleton _ _, fun g hg _ _ hend =>
    absurd hend (countP_eq_zero.1 h g hg)⟩

/-- All octets are there with the frame that ends the stream. -/
theorem payload {before after : List Frame} {f : Frame} (h : EndsLast id (before ++ f :: after))
    (hf : f.endsStream id = true) :
    (before ++ [f]).flatMap (payloadOn id) =
      (before ++ f :: after).flatMap (payloadOn id) := by
  have hafter : after.flatMap (payloadOn id) = [] :=
    flatMap_eq_nil_iff.2 fun g hg =>
      (pairwise_cons.1 (pairwise_append.1 h).2.1).1 g hg hf
  simp [hafter]

end EndsLast

/-- What has been handled of the messages is written or queued. -/
structure Answers (id : ℕ) (handled : List StreamMsg) (w : List Frame) (e : StreamEntry)
    (phase : Phase) : Prop where
  payload : w.flatMap (payloadOn id) ++ e.queued = dataOf handled
  ends : w.countP (endsStream id) = e.localEnded.toNat
  ordered : e.pendingData.Pairwise fun chunk _ => chunk.2 = false
  drained : e.localEnded = true → e.pendingData = []
  after : handled.foldlM Phase.next .start = some phase
  isOver : (e.localEnded || e.pendingData.any snd) = phase.isOver
  quiet : phase = .start → e.pendingData = []
  headers : ∀ parts endStream, .headers parts endStream ∈ handled →
    HeadersWritten id parts endStream w
  last : EndsLast id w

namespace Answers

variable {id : ℕ} {handled : List StreamMsg} {w : List Frame} {e e' : StreamEntry} {phase : Phase}

section
variable (h : Answers id handled w e phase)
include h

theorem of_entry (hended : e'.localEnded = e.localEnded)
    (hpending : e'.pendingData = e.pendingData) : Answers id handled w e' phase where
  payload := by
    rw [queued, hpending]
    exact h.payload
  ends := hended ▸ h.ends
  ordered := hpending ▸ h.ordered
  drained hended' := hpending.trans (h.drained (hended ▸ hended'))
  after := h.after
  isOver := by
    rw [hended, hpending]
    exact h.isOver
  quiet hstart := hpending.trans (h.quiet hstart)
  headers := h.headers
  last := h.last

theorem of_handled {handled' : List StreamMsg} (hdata : dataOf handled' = dataOf handled)
    (hafter : handled'.foldlM Phase.next .start = some phase')
    (hover : phase'.isOver = phase.isOver)
    (hquiet : phase' = .start → e.pendingData = [])
    (hheaders : ∀ parts endStream, .headers parts endStream ∈ handled' →
      .headers parts endStream ∈ handled) :
    Answers id handled' w e phase' where
  payload := h.payload.trans hdata.symm
  ends := h.ends
  ordered := h.ordered
  drained := h.drained
  after := hafter
  isOver := h.isOver.trans hover.symm
  quiet := hquiet
  headers parts endStream hmem := h.headers parts endStream (hheaders parts endStream hmem)
  last := h.last

theorem append (hpayload : w'.flatMap (payloadOn id) = [])
    (hends : w'.countP (endsStream id) = 0) : Answers id handled (w ++ w') e phase where
  payload := by
    rw [flatMap_append, hpayload, append_nil]
    exact h.payload
  ends := by
    rw [countP_append, hends]
    exact h.ends
  ordered := h.ordered
  drained := h.drained
  after := h.after
  isOver := h.isOver
  quiet := h.quiet
  headers parts endStream hmem := (h.headers parts endStream hmem).append w'
  last := h.last.append hpayload

end

section Front
variable {data : Octets} {fin : Bool} {rest : List (Octets × Bool)}
  (h : Answers id handled w e phase) (hopen : e.localEnded = false)
  (hfront : e.pendingData = (data, fin) :: rest)
include h hopen hfront

/-- What is known while a chunk is in front of the queue. -/
theorem front : w.flatMap (payloadOn id) ++ (data ++ rest.flatMap fst) = dataOf handled ∧
    w.countP (endsStream id) = 0 ∧ ((∀ chunk ∈ rest, fin = false) ∧
      rest.Pairwise fun chunk _ => chunk.2 = false) ∧ (fin || rest.any snd) = phase.isOver ∧
    phase ≠ .start := by
  have hpayload := h.payload
  have hends := h.ends
  have hordered := h.ordered
  have hover := h.isOver
  rw [queued, hfront] at hpayload
  rw [hopen] at hends
  rw [hfront, pairwise_cons] at hordered
  rw [hopen, hfront] at hover
  exact ⟨hpayload, hends, hordered, hover, fun hstart => by simpa [hfront] using h.quiet hstart⟩

theorem sendAll : Answers id handled (w ++ [.data id fin data])
      { e with pendingData := rest, localEnded := fin } phase := by
  obtain ⟨hpayload, hends, hordered, hover, hstart⟩ := h.front hopen hfront
  refine ⟨?_, ?_, hordered.2, fun hend => ?_, h.after, by simpa using hover,
    fun hs => absurd hs hstart, fun parts es hmem => (h.headers parts es hmem).append _,
    .concat hends _⟩
  · simpa [queued, payloadOn] using hpayload
  · cases fin <;> simpa [endsStream] using hends
  · -- only the last chunk ends the response
    refine eq_nil_iff_forall_not_mem.2 fun chunk hmem => ?_
    exact absurd (hordered.1 chunk hmem) (by simpa using hend)

theorem sendPart (amount : ℕ) : Answers id handled (w ++ [.data id false (data.take amount)])
      { e with pendingData := (data.drop amount, fin) :: rest } phase := by
  obtain ⟨hpayload, hends, hordered, hover, hstart⟩ := h.front hopen hfront
  refine ⟨?_, ?_, List.pairwise_cons.2 hordered, fun hended => ?_, h.after,
    by simpa [hopen] using hover, fun hs => absurd hs hstart,
    fun parts es hmem => (h.headers parts es hmem).append _, .concat hends _⟩
  · rw [← hpayload]
    simp only [queued, flatMap_append, flatMap_cons, flatMap_nil,
      payloadOn, if_true, append_nil, append_assoc]
    rw [← append_assoc (take amount data), take_append_drop]
  · simpa [hopen, endsStream] using hends
  · cases hopen.symm.trans hended

end Front

section
variable (h : Answers id handled w e phase)
include h

theorem open_of_not_over (hover : phase.isOver = false) :
    e.localEnded = false ∧ ∀ chunk ∈ e.pendingData, chunk.2 = false := by
  have hnone := h.isOver.trans hover
  rw [or_eq_false_iff, List.any_eq_false] at hnone
  exact ⟨hnone.1, fun chunk hmem => eq_false_iff.2 (hnone.2 chunk hmem)⟩

theorem fields {msg : StreamMsg} (hopen : e.localEnded = false) (hnil : e.pendingData = [])
    (hnext : phase.next msg = some phase') (hover : phase'.isOver = endStream)
    (hoctets : msg.octets = []) (hpayload : w'.flatMap (payloadOn id) = [])
    (hends : w'.countP (endsStream id) = endStream.toNat)
    (hheaders : ∀ parts es, msg = .headers parts es → HeadersWritten id parts es (w ++ w'))
    (hended' : e'.localEnded = endStream) (hnil' : e'.pendingData = []) :
    Answers id (handled ++ [msg]) (w ++ w') e' phase' where
  payload := by
    have hw := h.payload
    rw [queued, hnil] at hw
    rw [queued, hnil', flatMap_append, hpayload, dataOf_append, append_nil, ← hw]
    simp [dataOf, hoctets]
  ends := by
    rw [countP_append, hends, h.ends, hopen, hended']
    exact Nat.zero_add _
  ordered := hnil' ▸ Pairwise.nil
  drained _ := hnil'
  after := foldlM_concat_eq_some h.after hnext
  isOver := by
    rw [hended', hnil', hover]
    exact or_false _
  quiet _ := hnil'
  headers parts es hmem := by
    rcases mem_append.1 hmem with hmem | hmem
    · exact (h.headers parts es hmem).append w'
    · exact hheaders parts es (mem_singleton.1 hmem).symm
  last := h.last.append hpayload

theorem push {data : Octets} (hnext : phase.next (.data data endStream) = some phase')
    (hended' : e'.localEnded = e.localEnded)
    (hpending' : e'.pendingData = e.pendingData ++ [(data, endStream)]) :
    Answers id (handled ++ [.data data endStream]) w e' phase' := by
  obtain rfl : phase = .body := by
    cases phase with
    | body => rfl
    | _ => cases hnext
  obtain rfl := some.inj hnext
  obtain ⟨hopen, hnone⟩ := h.open_of_not_over rfl
  have hafter : (handled ++ [StreamMsg.data data endStream]).foldlM Phase.next .start =
      some (if endStream then .ended else .body) := by
    exact foldlM_concat_eq_some h.after rfl
  refine ⟨?_, ?_, ?_, ?_, hafter, ?_, ?_, ?_, h.last⟩
  · rw [queued, hpending', flatMap_append, ← append_assoc]
    have hw := h.payload
    rw [queued] at hw
    rw [hw]
    simp [dataOf, StreamMsg.octets]
  · exact hended' ▸ h.ends
  · rw [hpending']
    exact pairwise_append.2 ⟨h.ordered, pairwise_singleton _ _,
      fun chunk hmem _ _ => hnone chunk hmem⟩
  · intro hended
    rw [hended', hopen] at hended
    cases hended
  · have hany : e.pendingData.any snd = false :=
      any_eq_false.2 fun chunk hmem => by simp [hnone chunk hmem]
    rw [hended', hopen, hpending', any_append, hany]
    cases endStream <;> rfl
  · intro hstart
    cases endStream <;> cases hstart
  · intro parts es hmem
    refine h.headers parts es ?_
    simpa using hmem

end

end Answers

/-- A response is on the wire as a whole. -/
structure Delivered (id : ℕ) (msgs : List StreamMsg) (w : List Frame) : Prop where
  payload : w.flatMap (payloadOn id) = dataOf msgs
  ends : w.countP (endsStream id) = 1
  after : ∃ phase, msgs.foldlM Phase.next .start = some phase ∧ phase.isOver = true
  headers : ∀ parts endStream, .headers parts endStream ∈ msgs → HeadersWritten id parts endStream w
  last : EndsLast id w

namespace Delivered

variable {id : ℕ} {msgs : List StreamMsg} {w : List Frame}

theorem of_answers {e : StreamEntry} {phase : Phase} (h : Answers id msgs w e phase)
    (hended : e.localEnded = true) : Delivered id msgs w where
  payload := by
    have hpayload := h.payload
    rwa [queued, h.drained hended, flatMap_nil, append_nil] at hpayload
  ends := by
    rw [h.ends, hended]
    rfl
  after := ⟨phase, h.after, by rw [← h.isOver, hended, Bool.true_or]⟩
  headers := h.headers
  last := h.last

theorem extend (h : Delivered id msgs w) {more : List StreamMsg}
    (hscript : ((msgs ++ more).foldlM Phase.next .start).isSome = true) :
    Delivered id (msgs ++ more) w ∧ ∀ msg ∈ more, msg = .closed := by
  obtain ⟨phase', hphase'⟩ := Option.isSome_iff_exists.1 hscript
  obtain ⟨phase, hphase, hover⟩ := h.after
  have hmore : more.foldlM Phase.next phase = some phase' := by
    rw [foldlM_append, hphase] at hphase'
    exact hphase'
  obtain ⟨hover', hdata, hclosed⟩ := Phase.after_over hover hmore
  refine ⟨⟨?_, h.ends, ⟨phase', hphase', hover'⟩, ?_, h.last⟩, hclosed⟩
  · rw [h.payload, dataOf_append, hdata, append_nil]
  · intro parts endStream hmem
    rcases mem_append.1 hmem with hmem | hmem
    · exact h.headers parts endStream hmem
    · cases hclosed _ hmem

theorem append (h : Delivered id msgs w) (hpayload : w'.flatMap (payloadOn id) = [])
    (hends : w'.countP (endsStream id) = 0) : Delivered id msgs (w ++ w') where
  payload := by
    rw [flatMap_append, hpayload, append_nil]
    exact h.payload
  ends := by
    rw [countP_append, hends]
    exact h.ends
  after := h.after
  headers parts endStream hmem := (h.headers parts endStream hmem).append w'
  last := h.last.append hpayload

end Delivered

/-! ### Enough room -/

/-- Both windows admit some octets. -/
def Room (connWindow sendWindow : ℤ) (octets : ℕ) : Prop :=
  octets ≤ (min connWindow sendWindow).toNat

theorem Pump.step_room (id maxFrameSize : ℕ) {p : Pump} {data : Octets}
    {rest : List (Octets × Bool)} (hopen : p.entry.localEnded = false)
    (hfront : p.entry.pendingData = (data, endStream) :: rest)
    (hroom : Room p.connWindow p.entry.sendWindow data.length) :
    let amount := min data.length maxFrameSize
    p.step id maxFrameSize = (p.sendChunk id amount data endStream rest,
      decide (amount < data.length) || !(endStream && p.entry.taskDone)) := by
  intro amount
  rw [Room] at hroom
  rw [step, hopen, hfront]
  cases data with
  | nil =>
    have hamount : amount = 0 := Nat.zero_min _
    have hchunk : p.sendChunk id 0 [] endStream rest = _ := sendChunk_all id [] endStream rest p
    simp only [finishChunk_nil id hfront]
    rw [hamount, hchunk]
    simp
  | cons b data =>
    have hpos : 0 < (b :: data).length := Nat.succ_pos _
    have hav : ¬min p.connWindow p.entry.sendWindow ≤ 0 := by omega
    have horig : min (b :: data).length (min p.connWindow p.entry.sendWindow).toNat =
        (b :: data).length := min_eq_left hroom
    simp only [isEmpty_cons, if_neg hav, horig]
    by_cases hall : amount = (b :: data).length
    · simp only [show min (b :: data).length maxFrameSize = (b :: data).length from hall]
      rw [hall, sendChunk_all]
      simp
    · have hlt : amount < (b :: data).length := lt_of_le_of_ne (min_le_left _ _) hall
      have hne : (b :: data).length ≠ amount := fun h => hall h.symm
      simp only [show min (b :: data).length maxFrameSize = amount from rfl, hall, decide_false,
        Bool.false_eq_true, if_false, hlt, decide_true, Bool.true_or, hne, ne_eq, not_false_iff]

/-- The queue ends with its end marker, and the windows admit all of it. -/
structure Pump.Fits (p : Pump) : Prop where
  drained : p.entry.localEnded = true → p.entry.pendingData = []
  ordered : p.entry.pendingData.Pairwise fun chunk _ => chunk.2 = false
  room : Room p.connWindow p.entry.sendWindow p.entry.queued.length

/-- The octets that left the queue were taken from both windows. -/
structure Pump.Spends (p q : Pump) : Prop where
  conn : q.connWindow - q.entry.queued.length = p.connWindow - p.entry.queued.length
  stream : q.entry.sendWindow - q.entry.queued.length = p.entry.sendWindow - p.entry.queued.length

theorem Pump.Spends.trans {p q r : Pump} (h : p.Spends q) (h' : q.Spends r) : p.Spends r :=
  ⟨h'.conn.trans h.conn, h'.stream.trans h.stream⟩

/-- Sending a first part of the front chunk makes the queue shorter. -/
theorem Pump.Fits.sendChunk (id : ℕ) {amount : ℕ} {p : Pump} {data : Octets}
    {rest : List (Octets × Bool)} (h : p.Fits) (hopen : p.entry.localEnded = false)
    (hfront : p.entry.pendingData = (data, endStream) :: rest) (hle : amount ≤ data.length)
    (hpos : data.length ≠ 0 → 0 < amount) :
    (p.sendChunk id amount data endStream rest).Fits ∧
      p.Spends (p.sendChunk id amount data endStream rest) ∧
      rounds (p.sendChunk id amount data endStream rest).entry.pendingData <
        rounds p.entry.pendingData := by
  have hqueued : (p.entry.pendingData.flatMap fst).length =
      data.length + (rest.flatMap fst).length := by simp [hfront]
  have hordered := h.ordered
  have hroom := h.room
  rw [hfront, pairwise_cons] at hordered
  rw [Room, queued, hqueued] at hroom
  rw [hfront] at hqueued
  by_cases hall : amount = data.length
  · subst hall
    rw [sendChunk_all]
    refine ⟨⟨?_, hordered.2, ?_⟩, ⟨?_, ?_⟩, ?_⟩
    · intro hended
      refine eq_nil_iff_forall_not_mem.2 fun chunk hmem => ?_
      simp only [hopen, Bool.false_or] at hended
      simpa [hended] using hordered.1 chunk hmem
    · simp only [Room, queued]
      omega
    · simp only [queued, hfront]
      omega
    · simp only [queued, hfront]
      omega
    · simp only [rounds, hfront, map_cons, sum_cons]
      omega
  · have hlen : (((data.drop amount, endStream) :: rest).flatMap fst).length =
        data.length - amount + (rest.flatMap fst).length := by
      simp
    rw [sendChunk_part _ _ _ _ hall]
    refine ⟨⟨?_, pairwise_cons.2 hordered, ?_⟩, ⟨?_, ?_⟩, ?_⟩
    · intro hended
      cases hopen.symm.trans hended
    · simp only [Room, queued]
      omega
    · simp only [queued, hfront]
      omega
    · simp only [queued, hfront]
      omega
    · simp only [rounds, hfront, map_cons, sum_cons, length_drop]
      omega

theorem Pump.Fits.loop (id : ℕ) {maxFrameSize : ℕ} (hsize : 0 < maxFrameSize) :
    ∀ (fuel : ℕ) (p : Pump), p.Fits → rounds p.entry.pendingData ≤ fuel →
    (loop (step id maxFrameSize) fuel p).entry.pendingData = [] ∧
      p.Spends (loop (step id maxFrameSize) fuel p) := by
  intro fuel
  induction fuel with
  | zero =>
    intro p _ hfuel
    exact absurd hfuel (by simp [rounds])
  | succ fuel ih =>
    intro p h hfuel
    rw [Pump.loop]
    cases hfront : p.entry.pendingData with
    | nil =>
      have hstop : p.step id maxFrameSize = (p, false) := by
        rw [step, hfront]
        split_ifs <;> rfl
      rw [hstop]
      exact ⟨hfront, rfl, rfl⟩
    | cons chunk rest =>
      obtain ⟨data, endStream⟩ := chunk
      have hopen : p.entry.localEnded = false := by
        cases hl : p.entry.localEnded with
        | false => rfl
        | true => simpa [hfront] using h.drained hl
      have hdata : Room p.connWindow p.entry.sendWindow data.length := by
        have hroom := h.room
        simp only [Room, queued, hfront, flatMap_cons, length_append] at hroom ⊢
        omega
      obtain ⟨hfits, hspends, hrounds⟩ := h.sendChunk id hopen hfront
        (min_le_left data.length maxFrameSize) (fun _ => by omega)
      rw [step_room id maxFrameSize hopen hfront hdata]
      cases hgo : decide (min data.length maxFrameSize < data.length) ||
          !(endStream && p.entry.taskDone) with
      | true =>
        obtain ⟨hempty, hspends'⟩ := ih _ hfits (by omega)
        exact ⟨hempty, hspends.trans hspends'⟩
      | false =>
        -- END_STREAM went out with the last chunk
        obtain ⟨hall, hend, htask⟩ : data.length ≤ maxFrameSize ∧ endStream = true ∧
            p.entry.taskDone = true := by simpa using hgo
        refine ⟨hfits.drained ?_, hspends⟩
        rw [min_eq_left hall, sendChunk_all, hend]
        exact or_true _

end ZincioHttp.H2
