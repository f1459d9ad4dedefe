import ZincioHttp.H2.Connection.Sound

/-! The request body as the handler of a stream reads it. What the DATA frames of a
stream bring is in the hands of the reader, in the body channel, or in the message
for which the connection task waits, in this order; the end marker comes after all of
it and only if the declared length is met. -/

namespace ZincioHttp.H2

open List Option

/-- What `recv` on the body channel gives. -/
inductive BodyRecv where
  | message (msg : BodyMsg)
  | pending
  /-- All senders are gone. -/
  | closed
  deriving DecidableEq, Repr

/-- What `H2Body::poll_frame` gives. -/
inductive BodyPoll where
  | data (data : Octets)
  | trailers (trailers : List Hpack.Header)
  /-- `Ready(None)`. -/
  | finished
  | pending
  deriving DecidableEq, Repr

structure H2Body where
  ended : Bool
  deriving DecidableEq, Repr

def H2Body.pollFrame (b : H2Body) (recv : BodyRecv) : H2Body × BodyPoll :=
  if b.ended then (b, .finished)
  else
    match recv with
    | .message (.data data) => (b, .data data)
    | .message (.trailers trailers) => (b, .trailers trailers)
    | .message .endStream => ({ b with ended := true }, .finished)
    | .closed => ({ b with ended := true }, .finished)
    | .pending => (b, .pending)

def BodyPoll.octets : BodyPoll → Octets
  | .data octs => octs
  | _ => []

namespace Connection

/-- The reader's end of the body channel. Nobody can send any more once the stream is
removed or the connection has ended; what has been sent before is still received. -/
def recvBody (c : Connection) (id : ℕ) : BodyRecv :=
  match (c.entry id).bind (·.body) with
  | some ch =>
    match ch.queue with
    | msg :: _ => .message msg
    | [] => if c.ended then .closed else .pending
  | none =>
    match c.leftover id with
    | msg :: _ => .message msg
    | [] => .closed

/-- One poll of the body in a run, with the result noted. -/
def pollBody (c : Connection) (id : ℕ) (r : H2Body × List BodyPoll) :
    Event → H2Body × List BodyPoll
  | .task id' .receive =>
    if id' = id ∧ c.spawned id = true then
      let polled := r.1.pollFrame (c.recvBody id)
      (polled.1, r.2 ++ [polled.2])
    else r
  | _ => r

def pollsIn (http : HttpCrate) (id : ℕ) :
    List Event → Connection → H2Body × List BodyPoll → H2Body × List BodyPoll
  | [], _, r => r
  | ev :: events, c, r => pollsIn http id events (step http c ev) (c.pollBody id r ev)

def requestData (id : ℕ) (frames : List Frame) : Octets := frames.flatMap (Frame.payloadOn id)

/-- The message for which the connection task waits, if it is for the stream. -/
def waiting (c : Connection) (id : ℕ) : List BodyMsg :=
  match c.parked with
  | some p => if p.streamId = id then [p.msg] else []
  | none => []

/-! ### The channel -/

/-- A body channel whose reader has taken `read` of `total` octets. -/
structure Intact (fin : Prop) (total read : Octets) (e : StreamEntry) (msgs : List BodyMsg) :
    Prop where
  data : total = read ++ msgs.flatMap BodyMsg.octets
  sum : e.dataSum = total.length
  remote : e.remoteEnded = true → fin
  ended : .endStream ∈ msgs → e.remoteEnded = true ∧ e.lengthMet
  last : ∀ before after, msgs = before ++ .endStream :: after → after.flatMap BodyMsg.octets = []

variable {msg : BodyMsg} {ends : ℕ → Prop} {id' : ℕ}

namespace Intact

variable {fin : Prop} {total read octs : Octets} {e e' : StreamEntry} {msgs : List BodyMsg}

section
variable (h : Intact fin total read e msgs)
include h

theorem congr (hsum : e'.dataSum = e.dataSum) (hended : e'.remoteEnded = e.remoteEnded)
    (hlength : e'.contentLength = e.contentLength) : Intact fin total read e' msgs where
  data := h.data
  sum := hsum.trans h.sum
  remote hr := h.remote (hended ▸ hr)
  ended hmem := by
    obtain ⟨hr, hl⟩ := h.ended hmem
    refine ⟨hended.trans hr, fun length hlen => ?_⟩
    exact hsum.trans (hl length (hlength ▸ hlen))
  last := h.last

theorem endRemote (hfin : fin) : Intact fin total read e.endRemote msgs :=
  ⟨h.data, h.sum, fun _ => hfin, fun hmem => ⟨rfl, (h.ended hmem).2⟩, h.last⟩

/-- Data comes in as long as the peer has not ended the request. -/
theorem push_data (hopen : e.remoteEnded = false) (octs : Octets) :
    Intact fin (total ++ octs) read (e.addData octs) (msgs ++ [.data octs]) := by
  have hnone : BodyMsg.endStream ∉ msgs ++ [.data octs] := by
    intro hmem
    rcases mem_append.1 hmem with hmem | hmem
    · cases (h.ended hmem).1.symm.trans hopen
    · exact absurd (mem_singleton.1 hmem) (by simp)
  refine ⟨?_, ?_, h.remote, fun hmem => absurd hmem hnone, fun before after heq => ?_⟩
  · rw [h.data]
    simp [BodyMsg.octets]
  · rw [length_append, ← h.sum]
    rfl
  · exact absurd (heq ▸ mem_append_right _ mem_cons_self) hnone

theorem push_other (hmsg : e.mayIssue msg) : Intact fin total read e (msgs ++ [msg]) := by
  have hocts : msg.octets = [] := by
    cases msg with
    | data octs => exact absurd rfl (hmsg.1 octs)
    | _ => rfl
  refine ⟨?_, h.sum, h.remote, fun hmem => ?_, fun before after heq => ?_⟩
  · rw [h.data, flatMap_append, flatMap_singleton, hocts, append_nil]
  · rcases mem_append.1 hmem with hmem | hmem
    · exact h.ended hmem
    · exact hmsg.2 (mem_singleton.1 hmem).symm
  · rcases eq_nil_or_concat after with rfl | ⟨after, msg', rfl⟩
    · rfl
    · rw [concat_eq_append, ← cons_append, ← append_assoc] at heq
      obtain ⟨hinit, hlast⟩ := append_inj' heq rfl
      obtain rfl := singleton_inj.1 hlast
      rw [concat_eq_append, flatMap_append, h.last before after hinit, flatMap_singleton, hocts]
      rfl

end

theorem pop (h : Intact fin total read e (msg :: msgs)) :
    Intact fin total (read ++ msg.octets) e msgs where
  data := by rw [h.data, flatMap_cons, append_assoc]
  sum := h.sum
  remote := h.remote
  ended hmem := h.ended (mem_cons_of_mem _ hmem)
  last before after heq := h.last (msg :: before) after (by rw [heq, cons_append])

end Intact

/-- The body of a stream, in whatever state the stream is. -/
structure BodyState (id : ℕ) (fin : Prop) (total read : Octets) (c : Connection) : Prop where
  unstarted : ∀ e, c.entry id = some e → e.requestStarted = false → total = [] ∧ read = []
  intact : c.spawned id = true → ∀ e ch, c.entry id = some e → e.body = some ch →
    ch.receiver = true → Intact fin total read e (ch.queue ++ c.waiting id)

namespace BodyState

variable {id : ℕ} {fin : Prop} {total read octs : Octets} {c c' : Connection} {e' : StreamEntry}

theorem of_none (h : c.entry id = none) : BodyState id fin total read c :=
  ⟨fun e he => absurd (h.symm.trans he) (by simp),
    fun _ e _ he => absurd (h.symm.trans he) (by simp)⟩

section
variable (h : BodyState id fin total read c) (hspawned : c'.spawned id = c.spawned id)
  (hwaiting : c'.waiting id = c.waiting id)
include h hspawned hwaiting

/-- Neither the stream nor its body channel is concerned. -/
theorem congr
    (hentry : ∀ e', c'.entry id = some e' → ∃ e, c.entry id = some e ∧
      e'.requestStarted = e.requestStarted ∧ e'.body = e.body ∧ e'.dataSum = e.dataSum ∧
      e'.remoteEnded = e.remoteEnded ∧ e'.contentLength = e.contentLength) :
    BodyState id fin total read c' where
  unstarted e' he' hnew := by
    obtain ⟨e, he, hstarted, -⟩ := hentry e' he'
    exact h.unstarted e he (hstarted ▸ hnew)
  intact hs e' ch he' hbody hr := by
    obtain ⟨e, he, -, hb, hsum, hended, hlength⟩ := hentry e' he'
    rw [hwaiting]
    exact (h.intact (hspawned ▸ hs) e ch he (hb ▸ hbody) hr).congr hsum hended hlength

theorem same (hentry : c'.entry id = c.entry id) : BodyState id fin total read c' :=
  h.congr hspawned hwaiting fun e' he' => ⟨e', hentry ▸ he', rfl, rfl, rfl, rfl, rfl⟩

end

/-- A stream whose request has started, after its entry is set. -/
theorem of_entry (he : c'.entry id = some e') (hstarted : e'.requestStarted = true)
    (h : c'.spawned id = true → ∀ ch, e'.body = some ch → ch.receiver = true →
      Intact fin total read e' (ch.queue ++ c'.waiting id)) :
    BodyState id fin total read c' where
  unstarted e₁ he₁ hnew := by
    obtain rfl := some.inj (he.symm.trans he₁)
    cases hstarted.symm.trans hnew
  intact hs e₁ ch he₁ := by
    obtain rfl := some.inj (he.symm.trans he₁)
    exact h hs ch

theorem waiting_elsewhere (h : ∀ p, c.parked = some p → p.streamId ≠ id) : c.waiting id = [] := by
  rw [waiting]
  split
  · exact if_neg (h _ ‹_›)
  · rfl

theorem waiting_of_idle (h : c.parked = none) : c.waiting id = [] := by
  rw [waiting, h]

/-- A message has been issued: it is at the end of the channel, or waited for. -/
theorem push {e : StreamEntry} {total' : Octets} (h : BodyState id fin total read c)
    (hidle : c.parked = none) (he : c.entry id = some e) (he' : c'.entry id = some e')
    (hstarted : e'.requestStarted = true) (hspawned : c'.spawned id = c.spawned id)
    (hbody : ∀ ch', e'.body = some ch' → ∃ ch, e.body = some ch ∧ ch'.receiver = ch.receiver ∧
      ch'.queue ++ c'.waiting id = ch.queue ++ [msg])
    (hpush : ∀ msgs, Intact fin total read e msgs → Intact fin total' read e' (msgs ++ [msg])) :
    BodyState id fin total' read c' := by
  refine of_entry he' hstarted fun hs ch' hch' hr => ?_
  obtain ⟨ch, hch, hreceiver, hmsgs⟩ := hbody ch' hch'
  have hintact := h.intact (hspawned ▸ hs) e ch he hch (hreceiver ▸ hr)
  rw [waiting_of_idle hidle, append_nil] at hintact
  rw [hmsgs]
  exact hpush _ hintact

theorem push_sent {e e₀ : StreamEntry} (hidle : c.parked = none) (hsend : e₀.sendBody msg = some e')
    (hbody : e₀.body = e.body) (ch' : BodyChannel) (hch' : e'.body = some ch') :
    ∃ ch, e.body = some ch ∧ ch'.receiver = ch.receiver ∧
      ch'.queue ++ (c.setEntry id e').waiting id = ch.queue ++ [msg] := by
  obtain ⟨-, ch, hch, rfl⟩ := StreamEntry.sendBody_eq_some hsend
  obtain rfl := some.inj hch'
  refine ⟨ch, hbody ▸ hch, rfl, ?_⟩
  rw [waiting_of_idle (c := c.setEntry id _) hidle, append_nil]

theorem push_waiting (c : Connection) (ch : BodyChannel) (msg : BodyMsg) (endStream : Bool) :
    ch.queue ++ (c.park (some ⟨id, msg, endStream⟩)).waiting id = ch.queue ++ [msg] := by
  simp [waiting, park]

/-- The request is handed over: its body is empty, and ended if the peer has said so. -/
theorem spawn {ends : ℕ → Prop} {e : StreamEntry} {parsed : ParsedRequest} {endStream : Bool}
    (hm : Marked ends c) (h : BodyState id fin total read c) (hfin : endStream = true → fin)
    (he : c.entry id = some e) (hnew : e.requestStarted = false)
    (hlength : endStream = true → ∀ length, parsed.contentLength = some length → length = 0) :
    BodyState id fin total read (c.spawn id e parsed endStream) := by
  obtain ⟨hu, -⟩ := hm.fresh id e he hnew
  obtain ⟨rfl, rfl⟩ := h.unstarted e he hnew
  have hwaiting : (c.spawn id e parsed endStream).waiting id = [] := by
    refine waiting_elsewhere fun p hp hid => ?_
    cases (hm.parkedStarted p hp e (hid ▸ he)).symm.trans hnew
  refine of_entry (entry_setEntry c id _) rfl fun hs ch' hch' hr => ?_
  rw [hwaiting]
  cases endStream with
  | false =>
    have hqueue : ch'.queue = [] := by
      obtain ⟨ch, hch, rfl⟩ := map_eq_some_iff.1 hch'
      rw [hu.body ch hch]
    rw [hqueue]
    refine ⟨rfl, hu.dataSum, fun hr => absurd (hu.remoteEnded.symm.trans hr) (by decide), nofun, ?_⟩
    simp
  | true =>
    have hqueue : ch'.queue = [.endStream] := by
      obtain ⟨ch, hch, rfl⟩ := map_eq_some_iff.1 hch'
      obtain ⟨ch₀, hch₀, rfl⟩ := map_eq_some_iff.1 hch
      rw [hu.body ch₀ hch₀]
      rfl
    rw [hqueue]
    refine ⟨rfl, hu.dataSum, fun _ => hfin rfl, fun _ => ⟨rfl, fun length hl => ?_⟩, ?_⟩
    · exact hu.dataSum.trans (hlength rfl length hl).symm
    · intro before after heq
      cases before with
      | nil => rw [← (cons.inj heq).2]; rfl
      | cons => simp at heq

theorem action {issued : List BodyMsg} (hm : Marked ends c) (h : BodyState id fin total read c)
    (ha : Action id fin c issued c') :
    BodyState id fin (total ++ issued.flatMap BodyMsg.octets) read c' := by
  have hsilent : BodyState id fin (total ++ [].flatMap BodyMsg.octets) read c := by
    rwa [flatMap_nil, append_nil]
  have hmarker : ∀ (e : StreamEntry) (endStream : Bool),
      total ++ (e.endMarker endStream).flatMap BodyMsg.octets = total := by
    intro e endStream
    rw [StreamEntry.endMarker]
    split_ifs <;> exact append_nil total
  have hother : ∀ {e : StreamEntry} {msg : BodyMsg}, e.mayIssue msg →
      total ++ [msg].flatMap BodyMsg.octets = total := by
    intro e msg hmsg
    cases msg with
    | data octs => exact absurd rfl (hmsg.1 octs)
    | _ => exact append_nil total
  have hdata : ∀ octs, total ++ [BodyMsg.data octs].flatMap BodyMsg.octets = total ++ octs :=
    fun octs => by rw [flatMap_singleton]; rfl
  cases ha with
  | note hnote =>
    rw [hnote]
    exact hsilent.same rfl rfl rfl
  | credit octs =>
    obtain ⟨w, hw, -⟩ := restoreWindows_eq_write c id octs
    rw [hw]
    exact hsilent.same rfl rfl rfl
  | answer | goaway | idle => exact hsilent.same rfl rfl rfl
  | @bookkeep e e' he hbook =>
    refine hsilent.congr rfl rfl fun e₁ he₁ => ⟨e, he, ?_⟩
    rw [eq_of_entry_setEntry he₁, hbook]
    exact ⟨rfl, rfl, rfl, rfl, rfl⟩
  | @endRemote e hfin he hstarted =>
    refine of_entry (entry_setEntry c id _) hstarted fun hs ch hbody hr => ?_
    exact (hsilent.intact hs e ch he hbody hr).endRemote hfin
  | @spawn e parsed endStream hfin he hnew hlength =>
    rw [hmarker]
    exact h.spawn hm hfin he hnew hlength
  | @start e parsed endStream hfin he hnew =>
    refine of_entry (entry_setEntry c id _) rfl fun hs => ?_
    cases (hm.fresh id e he hnew).2.symm.trans hs
  | @feed e e' octs hidle he hstarted hopen hsend =>
    rw [hdata]
    refine h.push hidle he (entry_setEntry c id e') ?_ rfl (push_sent hidle hsend rfl)
      fun msgs hi => ?_
    all_goals obtain ⟨-, ch, -, rfl⟩ := StreamEntry.sendBody_eq_some hsend
    · exact hstarted
    · exact (hi.push_data hopen octs).congr rfl rfl rfl
  | @feedWait e octs endStream _ hidle he hstarted hopen =>
    rw [hdata]
    exact h.push hidle he (entry_setEntry c id _) hstarted rfl
      (fun ch hch => ⟨ch, hch, rfl, push_waiting _ ch _ endStream⟩)
      fun _ hi => hi.push_data hopen octs
  | @deliver e e' msg hidle he hstarted hsend hmsg =>
    rw [hother hmsg]
    refine h.push hidle he (entry_setEntry c id e') ?_ rfl (push_sent hidle hsend rfl)
      fun msgs hi => ?_
    all_goals obtain ⟨-, ch, -, rfl⟩ := StreamEntry.sendBody_eq_some hsend
    · exact hstarted
    · exact (hi.push_other hmsg).congr rfl rfl rfl
  | @wait e msg endStream _ hidle he hstarted hfull hmsg =>
    rw [hother hmsg]
    exact h.push hidle he he hstarted rfl
      (fun ch hch => ⟨ch, hch, rfl, push_waiting c ch msg endStream⟩) fun _ hi => hi.push_other hmsg
  | @redeliver e e' p hp hid he hstarted hsend =>
    obtain ⟨-, ch, hch, rfl⟩ := StreamEntry.sendBody_eq_some hsend
    refine of_entry (entry_setEntry _ id _) hstarted fun hs ch' hch' hr => ?_
    obtain rfl := some.inj hch'
    have hintact := hsilent.intact hs e ch he hch hr
    have hwait : c.waiting id = [p.msg] := by rw [waiting, hp]; exact if_pos hid
    rw [hwait] at hintact
    rw [waiting_of_idle rfl, append_nil]
    exact hintact.congr rfl rfl rfl
  | @unpark p hp hid hears =>
    refine ⟨hsilent.unstarted, fun hs e ch he hch hr => ?_⟩
    have hnot := hears e he
    simp [StreamEntry.hears, (hch : e.body = some ch), hr] at hnot
  | reset | forget | forgetData | cancel | cancelGoaway => exact of_none (entry_removeStream _ id)

theorem mono {fin' : Prop} (h : BodyState id fin total read c) (hfin : fin → fin') :
    BodyState id fin' total read c where
  unstarted := h.unstarted
  intact hs e ch he hch hr :=
    have hi := h.intact hs e ch he hch hr
    ⟨hi.data, hi.sum, fun hr => hfin (hi.remote hr), hi.ended, hi.last⟩

theorem reaches (hm : Marked ends c) (h : BodyState id (ends id) total read c)
    (hr : Reaches id (ends id) octs c c') : BodyState id (ends id) (total ++ octs) read c' := by
  obtain ⟨issued, hacts, rfl⟩ := hr
  suffices Marked ends c' ∧
      BodyState id (ends id) (total ++ issued.flatMap BodyMsg.octets) read c' from this.2
  induction hacts with
  | refl => exact ⟨hm, by rwa [flatMap_nil, append_nil]⟩
  | tail _ ha ih =>
    refine ⟨ih.1.action ha, ?_⟩
    rw [flatMap_append, ← append_assoc]
    exact ih.2.action ih.1 ha

theorem elsewhere {fin' : Prop} (h : BodyState id fin total read c) (hidle : c.waiting id = [])
    (hid : id ≠ id') (hr : Reaches id' fin' octs c c') : BodyState id fin total read c' := by
  obtain ⟨issued, hacts, -⟩ := hr
  suffices BodyState id fin total read c' ∧ c'.waiting id = [] from this.1
  induction hacts with
  | refl => exact ⟨h, hidle⟩
  | @tail issued more c₁ c₂ _ ha ih =>
    have hwaiting : c₂.waiting id = [] := by
      refine waiting_elsewhere fun p hp heq => ?_
      rcases ha.parked hp with hp | ⟨hp, -⟩
      · have hnil := ih.2
        simp [waiting, hp, heq] at hnil
      · exact hid (heq.symm.trans hp)
    refine ⟨ih.1.same ?_ (hwaiting.trans ih.2.symm) (ha.entry_ne hid), hwaiting⟩
    refine Bool.eq_iff_iff.2 ⟨fun hs => ?_, ha.spawned_mono⟩
    exact (ha.spawned hs).resolve_right fun hs => hid hs.1

end BodyState

/-! ### Runs -/

def Ended (frames : List Frame) (id : ℕ) : Prop := ∃ f ∈ frames, f.endsStream id = true

/-- A handler that reads the body of a stream, after some frames. -/
structure Follows (id : ℕ) (frames : List Frame) (r : H2Body × List BodyPoll) (c : Connection) :
    Prop where
  sound : Sound (Ended frames) c
  unused : c.highestStreamId < id → r.2 = [] ∧ (c.closing = true ∨ requestData id frames = [])
  body : c.closing = true ∨ (r.1.ended = false →
    BodyState id (Ended frames id) (requestData id frames) (r.2.flatMap BodyPoll.octets) c)

section Runs
variable {id : ℕ} {frames : List Frame} {c c' : Connection} {f : Frame} {fin : Prop}
  {total read : Octets} {ev : Event}

theorem requestData_append (id : ℕ) (frames more : List Frame) :
    requestData id (frames ++ more) = requestData id frames ++ requestData id more :=
  flatMap_append

theorem requestData_taken {hint : List ℕ} (hreading : c.reading = true) :
    requestData id (c.taken (.frame hint f)) = f.payloadOn id := by
  rw [taken, if_pos hreading, requestData, flatMap_singleton]

theorem payloadOn_about (h : f.about = some id') (hid : id ≠ id') : f.payloadOn id = [] := by
  cases f with
  | data id₁ endStream octs =>
    obtain rfl := some.inj h
    exact if_neg hid.symm
  | _ => rfl

theorem payloadOn_other (h : f.about.isSome = false) : f.payloadOn id = [] := by
  cases f with
  | data => cases h
  | _ => rfl

/-- A poll that does not end the body returns what the first message holds. -/
theorem H2Body.pollFrame_octets {b : H2Body} (hb : b.ended = false)
    (h : (b.pollFrame (.message msg)).1.ended = false) :
    (b.pollFrame (.message msg)).2.octets = msg.octets := by
  cases msg with
  | endStream => simp [H2Body.pollFrame, hb] at h
  | _ =>
    rw [H2Body.pollFrame, hb]
    rfl

/-- The reader polls: the body channel loses its first message. -/
theorem BodyState.poll {b : H2Body} {polls : List BodyPoll}
    (hm : Marked ends c) (h : BodyState id fin total (polls.flatMap BodyPoll.octets) c)
    (hb : b.ended = false) (hspawned : c.spawned id = true)
    (hnext : (b.pollFrame (c.recvBody id)).1.ended = false) :
    BodyState id fin total ((polls ++ [(b.pollFrame (c.recvBody id)).2]).flatMap BodyPoll.octets)
      (c.onTask id .receive) := by
  rw [onTask, if_pos hspawned]
  cases he : c.entry id with
  | none => exact .of_none he
  | some e =>
    have hstarted : e.requestStarted = true := by
      by_contra hnot
      have hfresh := (hm.fresh id e he (by simpa using hnot)).2
      cases hfresh.symm.trans hspawned
    refine .of_entry (entry_setEntry c id _) hstarted fun hs ch' hch' hr => ?_
    obtain ⟨ch, hch, rfl⟩ := map_eq_some_iff.1 hch'
    have hintact := h.intact hs e ch he hch hr
    rw [flatMap_append, flatMap_singleton]
    cases hqueue : ch.queue with
    | nil =>
      have hrecv : c.recvBody id = if c.ended then .closed else .pending := by
        simp [recvBody, he, hch, hqueue]
      rw [hrecv] at hnext ⊢
      split_ifs at hnext ⊢
      · simp [H2Body.pollFrame, hb] at hnext
      · have hpoll : (b.pollFrame .pending).2.octets = [] := by
          rw [H2Body.pollFrame, hb]
          rfl
        rw [hpoll, append_nil]
        rw [hqueue] at hintact
        exact hintact.congr rfl rfl rfl
    | cons msg queue =>
      have hrecv : c.recvBody id = .message msg := by
        simp [recvBody, he, hch, hqueue]
      rw [hrecv] at hnext ⊢
      rw [H2Body.pollFrame_octets hb hnext]
      rw [hqueue] at hintact
      exact hintact.pop.congr rfl rfl rfl

section
variable (h : BodyState id fin total read c)
include h

theorem BodyState.onTask {t : TaskEvent} (ht : id' = id → t ≠ .receive) :
    BodyState id fin total read (c.onTask id' t) := by
  unfold Connection.onTask
  split_ifs
  · cases he : c.entry id' with
    | none => cases t <;> exact h.same rfl rfl rfl
    | some e =>
      by_cases hid : id' = id
      · subst hid
        cases t with
        | receive => exact absurd rfl (ht rfl)
        | send msg =>
          refine h.congr rfl rfl fun e' he' => ⟨e, he, ?_⟩
          rw [eq_of_entry_setEntry he', StreamEntry.onTask]
          split_ifs <;> exact ⟨rfl, rfl, rfl, rfl, rfl⟩
        | dropBody =>
          refine ⟨fun e' he' hnew => ?_, fun hs e' ch he' hch hr => ?_⟩
          · obtain rfl := eq_of_entry_setEntry he'
            exact h.unstarted e he hnew
          · rw [eq_of_entry_setEntry he'] at hch
            obtain ⟨ch₀, -, rfl⟩ := map_eq_some_iff.1 hch
            cases hr
      · exact h.same rfl rfl (entry_setEntry_ne _ _ _ _ (Ne.symm hid))
  · exact h

theorem BodyState.responds (hr : Responds c c') : BodyState id fin total read c' := by
  refine h.congr ?_ ?_ fun e' he' => ?_
  · rw [hr.same]
    rfl
  · rw [hr.same]
    rfl
  · obtain ⟨e, he, hsame⟩ := hr.entry id e' he'
    refine ⟨e, he, ?_⟩
    rw [hsame]
    exact ⟨rfl, rfl, rfl, rfl, rfl⟩

theorem BodyState.setting {s : Setting} {r : Connection × Bool} (hs : SettingEffect c s r) :
    BodyState id fin total read r.1 := by
  have hshift : BodyState id fin total read (c.shiftTo s.value) := by
    refine h.congr rfl rfl fun e' he' => ?_
    have hentry : (c.shiftTo s.value).entry id = _ := entry_shiftWindows c _ id
    rw [hentry, map_eq_some_iff] at he'
    obtain ⟨e, he, rfl⟩ := he'
    exact ⟨e, he, rfl, rfl, rfl, rfl, rfl⟩
  cases hs with
  | shift => exact hshift
  | overflow => exact hshift.same rfl rfl rfl
  | invalid => exact h.same rfl rfl rfl
  | other _ _ heq =>
    rw [heq]
    exact h.same rfl rfl rfl

theorem BodyState.flags (hf : Flags c c') : BodyState id fin total read c' := by
  obtain ⟨w, -, -, heq⟩ := hf
  rw [heq]
  exact h.same rfl rfl rfl

end

/-- HEADERS opens the stream: nothing has come in on it before. -/
theorem BodyState.opening {ends : ℕ → Prop} {fin : Prop} {total read : Octets}
    (hs : Sound ends c) (hnone : c.entry id = none)
    (hunused : c.highestStreamId < id → total = [] ∧ read = []) (ho : Opening id fin c c') :
    BodyState id fin total read c' := by
  cases ho with
  | ignored | invalid | stale | refuse => exact .of_none hnone
  | opens endStream endHeaders block _ hlt =>
    refine ⟨fun _ _ _ => hunused hlt, fun hspawned => ?_⟩
    have hle := hs.spawned id hspawned
    omega

theorem BodyState.openingElsewhere {fin' : Prop} (h : BodyState id fin total read c)
    (hid : id ≠ id') (ho : Opening id' fin' c c') : BodyState id fin total read c' := by
  cases ho with
  | ignored | invalid | stale | refuse => exact h.same rfl rfl rfl
  | opens => exact h.same rfl rfl (entry_setEntry_ne _ _ _ _ hid)

theorem requestData_of_nil {hint : List ℕ} (hev : ev = .frame hint f) (hf : f.payloadOn id = []) :
    requestData id (c.taken ev) = [] := by
  rw [hev, taken]
  split_ifs
  · rw [requestData, flatMap_singleton, hf]
  · rfl

theorem requestData_of_closing (h : ∀ f ∈ c.taken ev, f.about.isSome = true → c'.closing = true) :
    c'.closing = true ∨ requestData id (c.taken ev) = [] := by
  by_cases habout : ∃ f ∈ c.taken ev, f.about.isSome = true
  · obtain ⟨f, hmem, hsome⟩ := habout
    exact .inl (h f hmem hsome)
  · refine .inr (flatMap_eq_nil_iff.2 fun f hmem => payloadOn_other ?_)
    simpa using fun hsome => habout ⟨f, hmem, hsome⟩

/-- Whatever a step does other than polling, the body grows by the data that it takes. -/
theorem Deed.body {fin : ℕ → Prop} (hd : Deed fin c ev c') (hs : Sound fin c)
    (h : BodyState id (fin id) total read c)
    (hunused : c.highestStreamId < id → total = [] ∧ read = []) (hev : ev ≠ .task id .receive) :
    c'.closing = true ∨ BodyState id (fin id) (total ++ requestData id (c.taken ev)) read c' := by
  have hquiet : requestData id (c.taken ev) = [] → ∀ {c₁}, BodyState id (fin id) total read c₁ →
      BodyState id (fin id) (total ++ requestData id (c.taken ev)) read c₁ := by
    intro hnil c₁ h₁
    rwa [hnil, append_nil]
  have hreach : ∀ {id' : ℕ} {c₁ c₂ : Connection}, c₁.waiting id = [] ∨ id = id' →
      Marked fin c₁ → BodyState id (fin id) total read c₁ → Reaches id' (fin id') [] c₁ c₂ →
      BodyState id (fin id) total read c₂ := by
    intro id' c₁ c₂ hwaiting hm h₁ hr
    by_cases hid : id = id'
    · subst hid
      have hbody := h₁.reaches hm hr
      rwa [append_nil] at hbody
    · exact h₁.elsewhere (hwaiting.resolve_right hid) hid hr
  cases hd with
  | @request hint f id' octs _ hreading hf hknown hr hocts =>
    rw [requestData_taken hreading]
    by_cases hid : id = id'
    · subst hid
      rcases hocts with rfl | ⟨rfl, hclosing | ⟨hnone, -⟩⟩
      · exact .inr (h.reaches hs.toMarked hr)
      · exact .inl hclosing
      · exact .inr (.of_none hnone)
    · rw [payloadOn_about hf hid, append_nil]
      exact .inr (h.elsewhere (BodyState.waiting_of_idle (parked_of_reading hreading)) hid hr)
  | @opening hint id' endStream endHeaders priority block c₁ _ hreading hnone ho hr =>
    refine .inr (hquiet (requestData_of_nil rfl rfl) ?_)
    have hm := Marked.opening hs hreading hnone ho
    have hparked : c₁.parked = none := by
      have hidle := parked_of_reading hreading
      cases ho <;> exact hidle
    refine hreach (.inl (BodyState.waiting_of_idle hparked)) hm ?_ hr
    by_cases hid : id = id'
    · subst hid
      exact .opening hs hnone hunused ho
    · exact h.openingElsewhere hid ho
  | @resume p _ hp hr =>
    refine .inr (hquiet rfl (hreach ?_ hs.toMarked h hr))
    by_cases hid : id = p.streamId
    · exact .inr hid
    · exact .inl (by simp [waiting, hp, Ne.symm hid])
  | noWindow hint increment hreading hr =>
    exact .inr (hquiet (requestData_of_nil rfl rfl)
      (hreach (.inl (BodyState.waiting_of_idle (parked_of_reading hreading))) hs.toMarked h hr))
  | connectionWindow hint increment =>
    have hgrow : Responds c (c.growWindow increment) := ⟨rfl, fun _ e he => ⟨e, he, rfl⟩⟩
    exact .inr (hquiet (requestData_of_nil rfl rfl)
      (h.responds (hgrow.trans (.drainPendingData _ hint))))
  | @streamWindow hint id' increment e _ he =>
    have hsame : e.SameRequest (e.growWindow increment) := rfl
    exact .inr (hquiet (requestData_of_nil rfl rfl)
      (h.responds ((Responds.setEntry he hsame).trans (.pumpStreamData _ id'))))
  | settings hint settings =>
    have hset : BodyState id (fin id) total read (c.applyPeerSettings settings) :=
      applyPeerSettings_induction (fun hs h => h.setting hs) settings h
    exact .inr (hquiet (requestData_of_nil rfl rfl) (hset.same rfl rfl rfl))
  | drain id' => exact .inr (hquiet rfl (h.responds (.drainStream c id')))
  | task id' t => exact .inr (hquiet rfl (h.onTask fun hid ht => hev (by rw [hid, ht])))
  | flags hf _ hclosing =>
    exact (requestData_of_closing hclosing).imp_right fun hnil => hquiet hnil (h.flags hf)

/-- DATA on a stream that has not been used closes the connection. -/
theorem Deed.unusedData {fin : ℕ → Prop} (hd : Deed fin c ev c') (hs : Sound fin c)
    (hunused : c.highestStreamId < id) : c'.closing = true ∨ requestData id (c.taken ev) = [] := by
  have hnone : c.entry id = none := by
    by_contra hsome
    obtain ⟨e, he⟩ := ne_none_iff_exists'.1 hsome
    have hle := hs.tidy.bounded id e he
    omega
  cases hd with
  | @request hint f id' octs _ hreading hf hknown hr hocts =>
    rw [requestData_taken hreading]
    by_cases hid : id = id'
    · subst hid
      rcases hocts with rfl | ⟨-, hclosing | ⟨-, hsome | hmem⟩⟩
      · exact .inr (hr.nil_of_none hnone)
      · exact .inl hclosing
      · rw [hnone] at hsome
        cases hsome
      · have hle := hs.closed id hmem
        omega
    · exact .inr (payloadOn_about hf hid)
  | opening | noWindow | connectionWindow | streamWindow | settings =>
    exact .inr (requestData_of_nil rfl rfl)
  | resume | drain | task => exact .inr rfl
  | flags _ _ hclosing => exact requestData_of_closing hclosing

theorem Ended.append {frames more : List Frame} (h : Ended frames id) : Ended (frames ++ more) id :=
  let ⟨f, hmem, hf⟩ := h
  ⟨f, mem_append_left _ hmem, hf⟩

theorem pollBody_other {r : H2Body × List BodyPoll}
    (h : ev = .task id .receive → c.spawned id = false) : c.pollBody id r ev = r := by
  cases ev with
  | task id' t =>
    cases t with
    | receive =>
      refine if_neg fun hpoll => ?_
      obtain ⟨rfl, hspawned⟩ := hpoll
      cases (h rfl).symm.trans hspawned
    | _ => rfl
  | _ => rfl

namespace Follows

variable {r : H2Body × List BodyPoll}

theorem step (http : HttpCrate) (h : Follows id frames r c) (ev : Event) :
    Follows id (frames ++ c.taken ev) (c.pollBody id r ev) (Connection.step http c ev) := by
  have hs : Sound (Ended (frames ++ c.taken ev)) c := h.sound.mono fun _ => Ended.append
  have hfin : ∀ f ∈ c.taken ev, ∀ id', f.endsStream id' = true → Ended (frames ++ c.taken ev) id' :=
    fun f hf id' hend => ⟨f, mem_append_right _ hf, hend⟩
  have hd := step_deed http hs ev hfin
  have hsound := hs.step http ev hfin
  have hhigh := (step_effect_any http hs.tidy ev).highest
  generalize Connection.step http c ev = c' at hd hsound hhigh
  refine ⟨hsound, fun hunused => ?_, ?_⟩
  · have hlt : c.highestStreamId < id := lt_of_le_of_lt hhigh hunused
    have hnot : c.spawned id = false := by
      by_contra hspawned
      have hle := hs.spawned id (by simpa using hspawned)
      omega
    obtain ⟨hpolls, hdata⟩ := h.unused hlt
    rw [pollBody_other fun _ => hnot, requestData_append]
    refine ⟨hpolls, ?_⟩
    rcases hdata with hclosing | hdata
    · exact .inl (hd.closing hclosing)
    · rw [hdata]
      exact hd.unusedData hs hlt
  · rcases h.body with hclosing | hbody
    · exact .inl (hd.closing hclosing)
    by_cases hclosing : c.closing = true
    · exact .inl (hd.closing hclosing)
    have hunused : c.highestStreamId < id →
        requestData id frames = [] ∧ r.2.flatMap BodyPoll.octets = [] := fun hlt => by
      obtain ⟨hpolls, hdata⟩ := h.unused hlt
      exact ⟨hdata.resolve_left hclosing, by rw [hpolls, flatMap_nil]⟩
    rw [requestData_append]
    by_cases hpoll : ev = .task id .receive ∧ c.spawned id = true
    · obtain ⟨rfl, hspawned⟩ := hpoll
      refine .inr fun hnext => ?_
      obtain rfl : c' = c.onTask id .receive := by
        cases hd with
        | task => rfl
        | flags _ hev => exact absurd rfl (hev id .receive)
      have hpolled : c.pollBody id r (.task id .receive) =
          ((r.1.pollFrame (c.recvBody id)).1, r.2 ++ [(r.1.pollFrame (c.recvBody id)).2]) :=
        if_pos ⟨rfl, hspawned⟩
      rw [hpolled] at hnext ⊢
      have hb : r.1.ended = false := by
        by_contra hended
        simp only [H2Body.pollFrame, if_pos (Bool.not_eq_false _ ▸ hended)] at hnext
        exact hended hnext
      have htaken : requestData id (c.taken (.task id .receive)) = [] := rfl
      rw [htaken, append_nil]
      exact ((hbody hb).mono Ended.append).poll hs.toMarked hb hspawned hnext
    · rw [pollBody_other fun hev => by simpa [hev] using hpoll]
      by_cases hb : r.1.ended = false
      · by_cases hev : ev = .task id .receive
        · obtain rfl : c' = c := by
            subst hev
            cases hd with
            | task => exact if_neg fun hspawned => hpoll ⟨rfl, hspawned⟩
            | flags _ hev => exact absurd rfl (hev id .receive)
          subst hev
          have htaken : requestData id (c'.taken (.task id .receive)) = [] := rfl
          rw [htaken, append_nil]
          exact .inr fun _ => (hbody hb).mono Ended.append
        · exact (hd.body hs ((hbody hb).mono Ended.append) hunused hev).imp_right fun h _ => h
      · exact .inr fun h => absurd h hb

theorem start (opts : ConnectionOptions) : Follows id [] (⟨false⟩, []) (Connection.start opts) where
  sound := .start _ opts
  unused _ := ⟨rfl, .inr rfl⟩
  body := .inr fun _ => .of_none rfl

theorem run (http : HttpCrate) (events : List Event) : ∀ {frames r c}, Follows id frames r c →
    Follows id (frames ++ received http events c) (pollsIn http id events c r)
      (Connection.run http events c) := by
  induction events with
  | nil =>
    intro frames r c h
    rw [received, append_nil]
    exact h
  | cons ev events ih =>
    intro frames r c h
    rw [received, ← append_assoc]
    exact ih (h.step http ev)

end Follows

theorem pollsIn_append (http : HttpCrate) (id : ℕ) (first second : List Event) :
    ∀ c r, pollsIn http id (first ++ second) c r =
      pollsIn http id second (run http first c) (pollsIn http id first c r) := by
  induction first with
  | nil => exact fun _ _ => rfl
  | cons ev first ih => exact fun c r => ih _ _

/-- A handler holds the body of a stream and the connection still serves the stream. -/
def servesBody (c : Connection) (id : ℕ) : Bool :=
  c.spawned id && !c.closing && !c.ended && ((c.entry id).bind (·.body)).any (·.receiver)

def declaredLength (c : Connection) (id : ℕ) : Option ℕ := (c.entry id).bind (·.contentLength)

/-- The poll that ends a body has found the end marker. -/
theorem queue_of_finished {ch : BodyChannel} {b : H2Body}
    (hch : (c.entry id).bind (·.body) = some ch) (hended : c.ended = false) (hb : b.ended = false)
    (hend : (b.pollFrame (c.recvBody id)).1.ended = true) :
    ∃ queue, ch.queue = .endStream :: queue := by
  simp only [recvBody, hch, hended] at hend
  cases hqueue : ch.queue with
  | nil => simp [H2Body.pollFrame, hqueue, hb] at hend
  | cons msg queue =>
    cases msg with
    | endStream => exact ⟨queue, rfl⟩
    | _ => simp [H2Body.pollFrame, hqueue, hb] at hend

/-- When the body of a stream that the connection still serves ends, the peer has ended
its request, all its data has been read, and it is as long as declared. -/
theorem run_body_complete (http : HttpCrate) (opts : ConnectionOptions) (events : List Event)
    (id : ℕ) (hserves : (run http events (start opts)).servesBody id = true)
    (hreads : (pollsIn http id events (start opts) (⟨false⟩, [])).1.ended = false)
    (hend : (pollsIn http id (events ++ [.task id .receive]) (start opts)
      (⟨false⟩, [])).1.ended = true) :
    let frames := received http events (start opts)
    let delivered := (pollsIn http id events (start opts) (⟨false⟩, [])).2.flatMap BodyPoll.octets
    Ended frames id ∧ delivered = requestData id frames ∧
      ∀ length, (run http events (start opts)).declaredLength id = some length →
        delivered.length = length := by
  have hstart : Follows id [] (⟨false⟩, []) (start opts) := .start opts
  have h := hstart.run http events
  rw [nil_append] at h
  rw [pollsIn_append] at hend
  generalize run http events (start opts) = c at *
  generalize pollsIn http id events (start opts) (⟨false⟩, []) = r at *
  simp only [servesBody, Bool.and_eq_true, Bool.not_eq_true', Option.any_eq_true] at hserves
  obtain ⟨⟨⟨hspawned, hclosing⟩, hended⟩, ch, hch, hreceiver⟩ := hserves
  intro frames delivered
  obtain ⟨e, he, hbody⟩ := bind_eq_some_iff.1 hch
  have hpoll : (r.1.pollFrame (c.recvBody id)).1.ended = true := by
    rwa [pollsIn, pollsIn, pollBody, if_pos ⟨rfl, hspawned⟩] at hend
  obtain ⟨queue, hqueue⟩ := queue_of_finished hch hended hreads hpoll
  have hstate := h.body.resolve_left (by rw [hclosing]; decide) hreads
  have hintact := hstate.intact hspawned e ch he hbody hreceiver
  rw [hqueue, cons_append] at hintact
  obtain ⟨hremote, hlength⟩ := hintact.ended mem_cons_self
  have hall : delivered = requestData id frames := by
    have hdata := hintact.data
    rw [flatMap_cons, hintact.last [] _ rfl] at hdata
    exact (hdata.trans (append_nil _)).symm
  refine ⟨hintact.remote hremote, hall, fun length hdeclared => ?_⟩
  rw [declaredLength, he] at hdeclared
  rw [hall, ← hintact.sum]
  exact hlength length hdeclared

/-- A request of two octets, read to its end. -/
theorem run_body_complete_two :
    let post := [0x83, 0x86, 0x84, 0x0f, 0x0d, 0x01, 0x32]
    let events :=
      [.frame [] (.headers 1 false true none post), .frame [] (.data 1 true [0x61, 0x62]),
      .task 1 .receive]
    Ended (received .permissive events (start .default)) 1 ∧
      (pollsIn .permissive 1 events (start .default) (⟨false⟩, [])).2.flatMap BodyPoll.octets =
        [0x61, 0x62] ∧
      (run .permissive events (start .default)).declaredLength 1 = some 2 := by
  intro post events
  obtain ⟨hended, hdata, -⟩ := run_body_complete .permissive .default events 1
    (by decide +kernel) (by decide +kernel) (by decide +kernel)
  exact ⟨hended, hdata.trans (by decide +kernel), by decide +kernel⟩

/-- The peer cancels a request of five octets after two, or the connection is lost, or
the peer ends it after two with an empty DATA frame, whose message is still received: the
body ends as if it were complete. -/
theorem run_body_cut_short :
    let post := [0x83, 0x86, 0x84, 0x0f, 0x0d, 0x01, 0x35]
    let events := [.frame [] (.headers 1 false true none post),
      .frame [] (.data 1 false [0x61, 0x62]), .task 1 .receive]
    (run .permissive events (start .default)).declaredLength 1 = some 5 ∧
    ∀ cut ∈ [(Event.frame [] (.reset 1 8), [BodyPoll.finished, .finished]),
        (.finish, [.finished, .finished]), (.frame [] (.data 1 true []), [.data [], .finished])],
      requestData 1 (received .permissive (events ++ [cut.1]) (start .default)) = [0x61, 0x62] ∧
      pollsIn .permissive 1 (events ++ [cut.1, .task 1 .receive, .task 1 .receive]) (start .default)
        (⟨false⟩, []) = (⟨true⟩, .data [0x61, 0x62] :: cut.2) := by
  decide +kernel

end Runs

end Connection

end ZincioHttp.H2
