import ZincioHttp.H2.Connection.Actions

/-! What one step of a connection can do, by the event it takes. The frames of the
request side come out as actions on their stream; whatever else an event does is
about the response side, the peer's settings or the connection as a whole. -/

namespace ZincioHttp.H2

open List

open Lib (Adds)

/-- A GOAWAY for a stream that was never opened, or not in order. -/
def Frame.idleGoaway : Frame → Bool
  | .goAway _ _ debug => decide (debug ∈ Connection.idleErrors)
  | _ => false

def Frame.opensBlock : Frame → Bool
  | .headers .. => true
  | _ => false

/-- Control frames that neither accuse the peer of using an idle stream nor give
it credit. -/
def Frame.isNotice (f : Frame) : Bool :=
  f.isControl && !f.idleGoaway &&
    match f with
    | .windowUpdate .. => false
    | _ => true

namespace Connection

/-- Only flags of the connection and notices differ. -/
def Flags (c c' : Connection) : Prop :=
  ∃ w : List Frame, (∀ f ∈ w, f.isNotice = true) ∧ (c.closing = true → c'.closing = true) ∧
    c' = { c with
      blockStream := c'.blockStream
      closing := c'.closing
      graceful := c'.graceful
      gracefulLastStream := c'.gracefulLastStream
      connectionError := c'.connectionError
      peerGoaway := c'.peerGoaway
      ended := c'.ended
      written := c.written ++ w }

theorem Flags.refl (c : Connection) : Flags c c :=
  ⟨[], nofun, (·), by rw [append_nil]⟩

theorem isNotice_goAway (last code : ℕ) {debug : Octets} (h : debug ∉ idleErrors) :
    ∀ f ∈ [Frame.goAway last code debug], f.isNotice = true := by
  simp [Frame.isNotice, Frame.isControl, Frame.idleGoaway, h]

theorem Flags.goaway (c : Connection) (reason : Reason) {debug : String}
    (h : octets debug ∉ idleErrors) : Flags c (c.goaway reason debug) :=
  ⟨_, isNotice_goAway _ _ h, fun _ => rfl, rfl⟩

/-! ### What the response side writes -/

end Connection

def Frame.ofResponse : Frame → Bool
  | .headers .. | .continuation .. | .data .. | .reset .. => true
  | _ => false

theorem writeFieldBlock_ofResponse (capacity streamId : ℕ) (endStream : Bool) (block : Octets) :
    ∀ f ∈ writeFieldBlock capacity streamId endStream block, f.ofResponse = true := by
  obtain ⟨_, _, more, heq, hmore⟩ := writeFieldBlock_cons capacity streamId endStream block
  rw [heq, forall_mem_cons]
  refine ⟨rfl, fun f hf => ?_⟩
  obtain ⟨_, _, rfl⟩ := hmore f hf
  rfl

namespace Connection

/-- Nothing but frames of responses is written. -/
def Answered (c c' : Connection) : Prop :=
  ∃ w, c'.written = c.written ++ w ∧ ∀ f ∈ w, f.ofResponse = true

variable {c c' : Connection} {hint : List ℕ} {f : Frame}

namespace Answered

theorem silent (h : c'.written = c.written) : Answered c c' := Adds.none h

theorem closed : ResponseClosed (fun _ => True) Answered where
  refl _ := silent rfl
  trans := Adds.trans
  setEntry _ _ _ _ _ _ _ _ := silent rfl
  settle c id _ p _ _ hp := by
    refine ⟨p.written, settle_written c id p, fun f hf => ?_⟩
    obtain ⟨frameEnd, octs, rfl, -⟩ := hp.written f hf
    rfl
  writeFields c _ _ _ _ := ⟨_, rfl, writeFieldBlock_ofResponse _ _ _ _⟩
  reset _ _ _ _ := Adds.one rfl rfl
  retire _ _ _ := silent rfl

end Answered

/-! ### Peer settings -/

def shiftTo (c : Connection) (size : ℕ) : Connection :=
  { c with
    peer := { c.peer with initialWindowSize := size }
    streams := shiftWindows c.streams ((size : ℤ) - c.peer.initialWindowSize) }

/-- What one setting can do; the flag says whether the next one is looked at. -/
inductive SettingEffect (c : Connection) (s : Setting) : Connection × Bool → Prop
  | shift (hid : s.id = 0x04) : SettingEffect c s (c.shiftTo s.value, true)
  | overflow (hid : s.id = 0x04) : SettingEffect c s
      ((c.shiftTo s.value).goaway .flowControlError "initial window overflow", true)
  | invalid (hid : s.id ≠ 0x04) :
      SettingEffect c s (c.goaway .protocolError "invalid SETTINGS_MAX_FRAME_SIZE", false)
  | other {c' : Connection} (hid : s.id ≠ 0x04)
      (hsize : c'.peer.initialWindowSize = c.peer.initialWindowSize)
      (h : c' = { c with
        peer := c'.peer
        encoder := c'.encoder
        writerMaxFrameSize := c'.writerMaxFrameSize }) : SettingEffect c s (c', true)

theorem applySetting_effect (c : Connection) (s : Setting) :
    SettingEffect c s (c.applySetting s) := by
  rw [applySetting]
  split_ifs with h₁ h₂ h₄
  · exact .other (by omega) rfl rfl
  · exact .other (by omega) rfl rfl
  · simp only
    split_ifs
    · exact .overflow h₄
    · exact .shift h₄
  · exact .invalid h₄
  · exact .other h₄ rfl rfl
  · exact .other h₄ rfl rfl
  · exact .other h₄ rfl rfl

/-- What every setting preserves, all of them preserve. -/
theorem applyPeerSettings_induction {P : Connection → Prop}
    (hP : ∀ {c s r}, SettingEffect c s r → P c → P r.1) (settings : List Setting) :
    ∀ {c : Connection}, P c → P (c.applyPeerSettings settings) := by
  induction settings with
  | nil => exact (·)
  | cons s settings ih =>
    intro c h
    have hs : P (c.applySetting s).1 := hP (applySetting_effect c s) h
    rw [applyPeerSettings]
    generalize c.applySetting s = r at hs ⊢
    obtain ⟨c', goesOn⟩ := r
    cases goesOn with
    | true => exact ih hs
    | false => exact hs

theorem closing_applyPeerSettings (settings : List Setting) (h : c.closing = true) :
    (c.applyPeerSettings settings).closing = true := by
  refine applyPeerSettings_induction (P := fun c => c.closing = true) (fun hs h => ?_) settings h
  cases hs with
  | shift => exact h
  | overflow | invalid => rfl
  | other _ _ heq =>
    rw [heq]
    exact h

/-! ### Events -/

/-- A frame or another event, and what becomes of the connection. `fin id` says that
the peer has ended its request on the stream. -/
inductive Deed (fin : ℕ → Prop) (c : Connection) : Event → Connection → Prop
  /-- DATA, CONTINUATION, RST_STREAM, and HEADERS of a stream that has an entry. -/
  | request {hint : List ℕ} {f : Frame} {id : ℕ} {octs : Octets} {c' : Connection}
      (hreading : c.reading = true) (hf : f.about = some id)
      (hknown : f.opensBlock = true → (c.entry id).isSome = true)
      (h : Reaches id (fin id) octs c c')
      (hocts : octs = f.payloadOn id ∨ octs = [] ∧ (c'.closing = true ∨
        c'.entry id = none ∧ ((c.entry id).isSome = true ∨ id ∈ c.closedOrder))) :
      Deed fin c (.frame hint f) c'
  | opening {hint : List ℕ} {id : ℕ} {endStream endHeaders : Bool} {priority : Option Priority}
      {block : Octets} {c₁ c' : Connection} (hreading : c.reading = true)
      (hnone : c.entry id = none) (hopening : Opening id (fin id) c c₁)
      (h : Reaches id (fin id) [] c₁ c') :
      Deed fin c (.frame hint (.headers id endStream endHeaders priority block)) c'
  | resume {p : Parked} {c' : Connection} (hp : c.parked = some p)
      (h : Reaches p.streamId (fin p.streamId) [] c c') : Deed fin c .resume c'
  /-- WINDOW_UPDATE of a stream that moves no window. -/
  | noWindow (hint : List ℕ) {id : ℕ} (increment : ℕ) {c' : Connection}
      (hreading : c.reading = true) (h : Reaches id (fin id) [] c c') :
      Deed fin c (.frame hint (.windowUpdate id increment)) c'
  | connectionWindow (hint : List ℕ) (increment : ℕ) (hreading : c.reading = true) :
      Deed fin c (.frame hint (.windowUpdate 0 increment))
        ((c.growWindow increment).drainPendingData hint)
  | streamWindow (hint : List ℕ) (id increment : ℕ) {e : StreamEntry} (hreading : c.reading = true)
      (he : c.entry id = some e) :
      Deed fin c (.frame hint (.windowUpdate id increment))
        ((c.setEntry id (e.growWindow increment)).pumpStreamData id)
  | settings (hint : List ℕ) (settings : List Setting) (hreading : c.reading = true) :
      Deed fin c (.frame hint (.settings false settings))
        ((c.applyPeerSettings settings).write [.settings true []])
  | drain (id : ℕ) (hidle : c.idle = true) : Deed fin c (.drainStream id) (c.drainStream id)
  | task (id : ℕ) (t : TaskEvent) : Deed fin c (.task id t) (c.onTask id t)
  /-- Whatever is about the connection as a whole. A frame of the request side gets
  here only if the frame decoder rejects it. -/
  | flags {ev : Event} {c' : Connection} (h : Flags c c') (hev : ∀ id t, ev ≠ .task id t)
      (hclosing : ∀ f ∈ c.taken ev, f.about.isSome = true → c'.closing = true) : Deed fin c ev c'

section Flags
variable {fin : ℕ → Prop} {c c' : Connection}

/-- Frames of other kinds, and events that bring no frame. -/
theorem Deed.quiet {ev : Event} (h : Flags c c') (hev : ∀ id t, ev ≠ .task id t)
    (hother : ∀ f ∈ c.taken ev, f.about = none) : Deed fin c ev c' :=
  .flags h hev fun f hf hsome => by simp [hother f hf] at hsome

theorem Deed.quietFrame (h : Flags c c') (hf : f.about = none) : Deed fin c (.frame hint f) c' := by
  refine .quiet h (by simp) fun g hg => ?_
  rw [taken] at hg
  split_ifs at hg
  · exact mem_singleton.1 hg ▸ hf
  · exact absurd hg not_mem_nil

end Flags

theorem closing_of_reading (h : c.reading = true) : c.closing = false := by
  simp only [reading, Bool.and_eq_true, Bool.not_eq_true'] at h
  exact h.1.2

theorem parked_of_reading (h : c.reading = true) : c.parked = none := by
  simp only [reading, idle, Bool.and_eq_true] at h
  exact Option.isNone_iff_eq_none.1 h.1.1.2

section Frames
variable {id : ℕ} {fin : Prop} {c : Connection}

/-- The block that a frame of the stream has completed. -/
theorem Reaches.finalizeComplete (http : HttpCrate) (hp : c.parked = none)
    (hblocks : c.completeBlocks = [] ∨ c.completeBlocks = [id])
    (hfin : ∀ e, c.entry id = some e → e.pendingEndStream = true → fin)
    (hu : ∀ e, c.entry id = some e → e.requestStarted = false → e.Unstarted) :
    Reaches id fin [] c (finalizeComplete http c) := by
  have hnil : Notes c { c with completeBlocks := [] } := rfl
  rw [Connection.finalizeComplete, takeCompleteBlock]
  rcases hblocks with h | h
  · rw [h]
    exact note hnil
  · rw [h, takeComplete]
    split_ifs
    · exact (note hnil).trans (finalizeFieldBlock http hp hfin hu)
    · exact note hnil

theorem Completes.completeBlocks {endHeaders : Bool} (h : Completes id endHeaders c c')
    (hnil : c.completeBlocks = []) : c'.completeBlocks = [] ∨ c'.completeBlocks = [id] := by
  rcases h.blocks with h | ⟨-, h, -⟩
  · exact .inl (h.trans hnil)
  · exact .inr (by rw [h, hnil, nil_append])

theorem parked_streamError (c : Connection) (id : ℕ) (reason : Reason) :
    (c.streamError id reason).parked = c.parked := by
  rw [streamError]
  split_ifs <;> rfl

theorem Fragment.parked {endHeaders : Bool} (h : Fragment id fin endHeaders c c') :
    c'.parked = c.parked := by
  cases h with
  | ignored | invalid | refuse => rfl
  | opens | extend => cases endHeaders <;> rfl
  | ended | flood => exact parked_streamError _ id _

/-- HEADERS of a stream without an entry: what is left to do is about the stream. -/
theorem Opening.handleHeadersFrame (hnone : c.entry id = none) (blockStream : Option ℕ)
    {endStream : Bool} (endHeaders : Bool) (block : Octets) (hfin : endStream = true → fin) :
    ∃ c₁, Opening id fin c c₁ ∧ (c.graceful = true ∧ id > c.gracefulLastStream → c₁ = c) ∧ Notes c₁
      ((c.setBlockStream blockStream).handleHeadersFrame id endStream endHeaders block) := by
  have hnone' : (c.setBlockStream blockStream).entry id = none := hnone
  rw [Connection.handleHeadersFrame]
  by_cases hgrace : (c.setBlockStream blockStream).graceful = true ∧
      id > (c.setBlockStream blockStream).gracefulLastStream
  · rw [if_pos hgrace]
    exact ⟨c, .ignored hgrace.1 hgrace.2, fun _ => rfl, rfl⟩
  have hknown : ∀ {c₁ : Connection}, c.graceful = true ∧ id > c.gracefulLastStream → c₁ = c :=
    fun h => absurd h hgrace
  rw [hnone']
  simp only
  rw [openRequestStream]
  split_ifs with hodd hhigh hfull
  · exact ⟨_, .invalid hodd, hknown, rfl⟩
  · exact ⟨_, .stale hhigh, hknown, rfl⟩
  · exact ⟨_, .refuse (not_le.1 hhigh) hfull, hknown, rfl⟩
  · exact ⟨_, .opens endStream true block hfin (not_le.1 hhigh), hknown, rfl⟩
  · exact ⟨_, .opens endStream false block hfin (not_le.1 hhigh), hknown, rfl⟩

theorem Opening.pendingEndStream {c₁ : Connection} (h : Opening id fin c c₁)
    (hnone : c.entry id = none) {e : StreamEntry} (he : c₁.entry id = some e)
    (hend : e.pendingEndStream = true) : fin := by
  cases h with
  | ignored | invalid | stale | refuse => cases hnone.symm.trans he
  | opens endStream endHeaders block hfin =>
    obtain rfl := eq_of_entry_setEntry he
    exact hfin hend

theorem Opening.unstarted {c₁ : Connection} (h : Opening id fin c c₁) (hnone : c.entry id = none)
    {e : StreamEntry} (he : c₁.entry id = some e) : e.Unstarted := by
  cases h with
  | ignored | invalid | stale | refuse => cases hnone.symm.trans he
  | opens endStream endHeaders block =>
    obtain rfl := eq_of_entry_setEntry he
    refine ⟨rfl, rfl, rfl, fun ch hch => ?_⟩
    cases endStream with
    | true => cases hch
    | false => exact (Option.some.inj hch).symm

end Frames

/-- Field blocks and the message for which the connection task waits end streams only
if the peer has ended its request, and streams whose request has not been handed over
are as they were opened. -/
structure Marked (fin : ℕ → Prop) (c : Connection) : Prop where
  pending : ∀ id e, c.entry id = some e → e.pendingEndStream = true → fin id
  fresh : ∀ id e, c.entry id = some e → e.requestStarted = false →
    e.Unstarted ∧ c.spawned id = false
  parkedEnds : ∀ p, c.parked = some p → p.endStream = true → fin p.streamId
  parkedStarted : ∀ p, c.parked = some p → ∀ e, c.entry p.streamId = some e →
    e.requestStarted = true

/-- What holds between two events. -/
structure Sound (fin : ℕ → Prop) (c : Connection) : Prop extends Marked fin c where
  tidy : Tidy c
  spawned : ∀ id, c.spawned id = true → id ≤ c.highestStreamId
  closed : ∀ id ∈ c.closedOrder, id ≤ c.highestStreamId

section Steps
variable {fin : ℕ → Prop} {c : Connection}

theorem Sound.pendingReached {id : ℕ} {octs : Octets} (hs : Sound fin c)
    (hr : Reaches id (fin id) octs c c') :
    ∀ e', c'.entry id = some e' → e'.pendingEndStream = true → fin id := by
  intro e' he' hend
  rcases hr.pendingEndStream he' hend with ⟨e, he, hend⟩ | h
  · exact hs.pending id e he hend
  · exact h

/-- HEADERS and the block that it completes: on a stream that has an entry, and on any other. -/
theorem headersFrame_reaches (http : HttpCrate) (hs : Sound fin c) (hreading : c.reading = true)
    (id : ℕ) {endStream : Bool} (endHeaders : Bool) (block : Octets) (blockStream : Option ℕ)
    (hfin : endStream = true → fin id) :
    let c' := finalizeComplete http
      ((c.setBlockStream blockStream).handleHeadersFrame id endStream endHeaders block)
    (c.entry id).isSome = true ∧ Reaches id (fin id) [] c c' ∨
      c.entry id = none ∧ ∃ c₁, Opening id (fin id) c c₁ ∧
        (c.graceful = true ∧ id > c.gracefulLastStream → c₁ = c) ∧
          Reaches id (fin id) [] c₁ c' := by
  have hfragment := Fragment.handleHeadersFrame (c.setBlockStream blockStream) id endStream
    endHeaders block
  have hp := hfragment.parked.trans (parked_of_reading hreading)
  have hblocks := (Completes.fragment hfragment).completeBlocks hs.tidy.complete
  cases he : c.entry id with
  | none =>
    obtain ⟨c₁, hopening, hknown, hnote⟩ :=
      Opening.handleHeadersFrame he blockStream endHeaders block hfin
    have hreach : Reaches id (fin id) [] c₁ _ := .note hnote
    refine .inr ⟨rfl, c₁, hopening, hknown,
      hreach.trans (.finalizeComplete http hp hblocks (fun e he' hend => ?_) fun e he' => ?_)⟩
    · rcases hreach.pendingEndStream he' hend with ⟨e₁, he₁, hend₁⟩ | h
      · exact hopening.pendingEndStream he he₁ hend₁
      · exact h
    · exact hreach.unstarted (fun e₁ he₁ _ => hopening.unstarted he he₁) he'
  | some e =>
    have hset : Notes c (c.setBlockStream blockStream) := rfl
    have hreach : Reaches id (fin id) [] c _ :=
      (Reaches.note hset).trans (.fragment hfin he hfragment)
    exact .inl ⟨rfl, hreach.trans (.finalizeComplete http hp hblocks (hs.pendingReached hreach)
      fun e' he' => hreach.unstarted (fun e he hnew => (hs.fresh id e he hnew).1) he')⟩

theorem Deed.headers (http : HttpCrate) (hs : Sound fin c) (hreading : c.reading = true)
    (hint : List ℕ) (id : ℕ) {endStream : Bool} (endHeaders : Bool)
    (priority : Option Priority) (block : Octets) (blockStream : Option ℕ)
    (hfin : endStream = true → fin id) :
    Deed fin c (.frame hint (.headers id endStream endHeaders priority block))
      (finalizeComplete http
        ((c.setBlockStream blockStream).handleHeadersFrame id endStream endHeaders block)) := by
  rcases headersFrame_reaches http hs hreading id endHeaders block blockStream hfin with
    ⟨hsome, hr⟩ | ⟨hnone, c₁, hopening, -, hr⟩
  · exact .request hreading rfl (fun _ => hsome) hr (.inl rfl)
  · exact .opening hreading hnone hopening hr

theorem continuation_reaches (http : HttpCrate) (hs : Sound fin c) (hreading : c.reading = true)
    (id : ℕ) (endHeaders : Bool) (block : Octets) (blockStream : Option ℕ) :
    Reaches id (fin id) [] c (finalizeComplete http
      ((c.setBlockStream blockStream).handleContinuation id endHeaders block)) := by
  have hfragment := Fragment.handleContinuation (c.setBlockStream blockStream) id endHeaders block
  have hp := hfragment.parked.trans (parked_of_reading hreading)
  have hblocks := (Completes.fragment hfragment).completeBlocks hs.tidy.complete
  have hset : Notes c (c.setBlockStream blockStream) := rfl
  have hreach : Reaches id (fin id) [] c _ :=
    (Reaches.note hset).trans (.handleContinuation _ id endHeaders block)
  exact hreach.trans (.finalizeComplete http hp hblocks (hs.pendingReached hreach) fun e' he' =>
    hreach.unstarted (fun e he hnew => (hs.fresh id e he hnew).1) he')

theorem Deed.continuation (http : HttpCrate) (hs : Sound fin c) (hreading : c.reading = true)
    (hint : List ℕ) (id : ℕ) (endHeaders : Bool) (block : Octets) (blockStream : Option ℕ) :
    Deed fin c (.frame hint (.continuation id endHeaders block))
      (finalizeComplete http
        ((c.setBlockStream blockStream).handleContinuation id endHeaders block)) :=
  .request hreading rfl nofun
    (continuation_reaches http hs hreading id endHeaders block blockStream) (.inl rfl)

theorem Deed.windowUpdate {id increment : ℕ} (hreading : c.reading = true)
    (h : WindowUpdate hint id increment c c') :
    Deed fin c (.frame hint (.windowUpdate id increment)) c' := by
  cases h with
  | empty | gone => exact .quietFrame (.refl _) rfl
  | overflow => exact .quietFrame (.goaway c _ (by decide)) rfl
  | connection hid => exact hid ▸ .connectionWindow hint increment hreading
  | idle hnone hclosed =>
    exact .noWindow hint increment hreading
      (.of_action (.idle _ (closing_of_reading hreading) hnone hclosed))
  | error _ he => exact .noWindow hint increment hreading (.streamError he _)
  | stream _ he => exact .streamWindow hint id increment hreading he

/-- The frames that carry no piece of a field block leave none to finalize. -/
theorem Handled.tidy (h : Handled hint c f c') (ht : Tidy c) : Tidy c' := by
  rcases h.receives (fun _ _ _ => trivial) fun _ _ _ _ _ _ => trivial with
    hr | ⟨increment, -, rfl⟩ | ⟨id, increment, e, -, he, rfl⟩
  · exact (ht.of_receives hr).2
  · exact (Responds.drainPendingData _ hint).tidy (ht.growWindow increment)
  · exact (Responds.pumpStreamData _ id).tidy (ht.setEntry he _)

theorem Deed.handled (hreading : c.reading = true) (hfin : ∀ id, f.endsStream id = true → fin id)
    (h : Handled hint c f c') : Deed fin c (.frame hint f) c' := by
  have hc := closing_of_reading hreading
  have hp := parked_of_reading hreading
  cases h with
  | ignored hf => exact .quietFrame (.refl _) (Frame.about_of_inert hf)
  | settings settings => exact .settings hint settings hreading
  | ping payload =>
    refine .quietFrame ⟨[.ping true payload], ?_, (·), rfl⟩ rfl
    simp [Frame.isNotice, Frame.isControl, Frame.idleGoaway]
  | goAway => exact .quietFrame ⟨[], by simp, (·), by rw [append_nil]⟩ rfl
  | data id endStream octs =>
    have hend : endStream = true → fin id := fun h => hfin id (by simpa [Frame.endsStream] using h)
    have hpayload : octs = (Frame.data id endStream octs).payloadOn id := by simp [Frame.payloadOn]
    rcases Reaches.handleDataFrame hc hp id octs hend with h | ⟨h, hlost⟩
    · exact .request hreading rfl (by simp [Frame.opensBlock]) h (.inl hpayload)
    · exact .request hreading rfl (by simp [Frame.opensBlock]) h (.inr ⟨rfl, hlost⟩)
  | reset id =>
    exact .request hreading rfl (by simp [Frame.opensBlock]) (.handleResetFrame hc id) (.inl rfl)
  | windowUpdate h => exact .windowUpdate hreading h
  | pushPromise => exact .quietFrame (.goaway c _ (by decide)) rfl

theorem Deed.processed {http : HttpCrate} (hs : Sound fin c) (hreading : c.reading = true)
    (hfin : ∀ id, f.endsStream id = true → fin id) (h : Processed http hint c f c') :
    Deed fin c (.frame hint f) c' := by
  cases h with
  | rejected => exact .flags (.goaway c _ (by decide)) (by simp) fun _ _ _ => rfl
  | headers =>
    exact .headers http hs hreading hint _ _ _ _ _ fun hend =>
      hfin _ (by simpa [Frame.endsStream] using hend)
  | continuation => exact .continuation http hs hreading hint _ _ _ _
  | pushPromise blockStream =>
    rw [finalizeComplete_tidy http ((hs.tidy.setBlockStream blockStream).goaway _ _)]
    obtain ⟨w, hw, hclosing, heq⟩ := Flags.goaway (c.setBlockStream blockStream) .protocolError
      (by decide : octets "push promise to server" ∉ idleErrors)
    exact .quietFrame ⟨w, hw, hclosing, heq⟩ rfl
  | goAway => exact .handled hreading hfin .goAway
  | other _ h =>
    rw [finalizeComplete_tidy http (h.tidy hs.tidy)]
    exact .handled hreading hfin h

/-- A relation between states that whatever the request side does is in. -/
structure RequestClosed (R : Connection → Connection → Prop) : Prop where
  refl : ∀ c, R c c
  trans : ∀ {c c' c''}, R c c' → R c' c'' → R c c''
  action : ∀ {id issued c c'}, Action id True c issued c' → R c c'
  ping : ∀ c payload, R c (c.write [.ping true payload])
  heedGoaway : ∀ c, R c { c with peerGoaway := true }

namespace RequestClosed

variable {R : Connection → Connection → Prop} {c' : Connection}

section
variable (h : RequestClosed R)
include h

theorem reaches {id : ℕ} {octs : Octets} (hr : Reaches id True octs c c') : R c c' := by
  obtain ⟨issued, hacts, -⟩ := hr
  exact hacts.lift h.refl h.trans h.action

theorem goaway (c : Connection) (reason : Reason) {debug : String}
    (hdebug : octets debug ∉ idleErrors) : R c (c.goaway reason debug) :=
  h.action (Action.goaway reason debug hdebug : Action 0 True c [] _)

theorem setBlockStream (c : Connection) (blockStream : Option ℕ) :
    R c (c.setBlockStream blockStream) :=
  h.action (Action.note rfl : Action 0 True c [] (c.setBlockStream blockStream))

section
variable (hreading : c.reading = true)
  (hwindow : ∀ {id increment c'}, f = .windowUpdate id increment →
    WindowUpdate hint id increment c c' → R c c')
  (hsettings : ∀ settings, f = .settings false settings →
    R c ((c.applyPeerSettings settings).write [.settings true []]))
include hreading hwindow hsettings

/-- Frames that carry no piece of a field block. -/
theorem handled (hf : Handled hint c f c') : R c c' := by
  have hopen := closing_of_reading hreading
  cases hf with
  | ignored => exact h.refl c
  | settings settings => exact hsettings settings rfl
  | ping payload => exact h.ping c payload
  | goAway => exact h.heedGoaway c
  | data id endStream octs =>
    have hend : endStream = true → True := fun _ => trivial
    rcases Reaches.handleDataFrame hopen (parked_of_reading hreading) id octs hend with hr | ⟨hr, -⟩
    · exact h.reaches hr
    · exact h.reaches hr
  | reset id => exact h.reaches (.handleResetFrame hopen id)
  | windowUpdate hw => exact hwindow rfl hw
  | pushPromise => exact h.goaway c _ (by decide)

/-- HEADERS may open or refuse a stream first. Whatever else a frame brings about is in the
relation. -/
theorem processed (hs : Sound (fun _ => True) c) {http : HttpCrate}
    (hf : Processed http hint c f c') :
    R c c' ∨ ∃ id c₁, c.entry id = none ∧ Opening id True c c₁ ∧
      (c.graceful = true ∧ id > c.gracefulLastStream → c₁ = c) ∧ Reaches id True [] c₁ c' := by
  cases hf with
  | rejected => exact .inl (h.goaway c _ (by decide))
  | headers =>
    rcases headersFrame_reaches http hs hreading _ _ _ _ fun _ => trivial with ⟨-, hr⟩ | hopens
    · exact .inl (h.reaches hr)
    · exact .inr ⟨_, hopens.2.elim fun c₁ ho => ⟨c₁, hopens.1, ho⟩⟩
  | continuation =>
    exact .inl (h.reaches (continuation_reaches http hs hreading _ _ _ _))
  | pushPromise blockStream =>
    rw [finalizeComplete_tidy http ((hs.tidy.setBlockStream blockStream).goaway _ _)]
    exact .inl (h.trans (h.setBlockStream c blockStream) (h.goaway _ _ (by decide)))
  | goAway => exact .inl (h.heedGoaway c)
  | other _ hf =>
    rw [finalizeComplete_tidy http (hf.tidy hs.tidy)]
    exact .inl (h.handled hreading hwindow hsettings hf)

end

theorem resume (hs : Sound fin c) : R c c.resume := by
  cases hp : c.parked with
  | none =>
    rw [Connection.resume, hp]
    exact h.refl c
  | some p => exact h.reaches (.resume hp rfl (fun _ => trivial) (hs.parkedStarted p hp))

end

end RequestClosed

theorem step_deed (http : HttpCrate) (hs : Sound fin c) (ev : Event)
    (hfin : ∀ f ∈ c.taken ev, ∀ id, f.endsStream id = true → fin id) :
    Deed fin c ev (step http c ev) := by
  have hstep := step_stepped http c ev
  generalize step http c ev = c' at hstep
  cases hstep with
  | same hev htaken => exact .quiet (.refl c) hev (by simp [htaken])
  | @frame hint f c' hreading h =>
    have htaken : f ∈ c.taken (.frame hint f) := by simp [taken, hreading]
    exact .processed hs hreading (hfin f htaken) h
  | frameError => exact .quiet (.goaway c _ (by decide)) (by simp) (by simp [taken])
  | resume =>
    cases hp : c.parked with
    | none =>
      rw [resume, hp]
      exact .quiet (.refl c) (by simp) (by simp [taken])
    | some p => exact .resume hp (.resume hp rfl (hs.parkedEnds p hp) (hs.parkedStarted p hp))
  | drain hidle => exact .drain _ hidle
  | shutdown =>
    exact .quiet ⟨_, isNotice_goAway _ _ (by decide), (·), rfl⟩ (by simp)
      (by simp [taken])
  | @finish w hw =>
    refine .quiet ⟨w, ?_, (·), rfl⟩ (by simp) (by simp [taken])
    rcases hw with rfl | ⟨-, rfl⟩
    · simp
    · exact isNotice_goAway _ _ (by decide)
  | task => exact .task _ _

end Steps

end Connection

end ZincioHttp.H2
