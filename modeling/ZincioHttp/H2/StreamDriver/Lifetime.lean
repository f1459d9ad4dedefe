import ZincioHttp.H2.Connection.Retirement
import ZincioHttp.H2.StreamDriver.Emission

/-! A stream task on its connection, to the end of both. The task sends a message that ends its
response before the terminal message, unless the handler has returned an error or the body has
a frame of a kind that is not known; and the connection retires a stream for which it has
handled both. -/

namespace ZincioHttp.H2

open List StreamMsg StreamDriver DriverState

open Lib (Throughout)

/-! ### What a task says before it ends -/

theorem ClosedLast.of_not_mem {msgs : List StreamMsg} (h : .closed ∉ msgs) : ClosedLast msgs :=
  pairwise_of_forall_mem_list fun _ hmsg _ _ heq => h (heq ▸ hmsg)

theorem ClosedLast.concat {msgs : List StreamMsg} (h : .closed ∉ msgs) :
    ClosedLast (msgs ++ [.closed]) :=
  pairwise_append.2 ⟨ClosedLast.of_not_mem h, pairwise_singleton _ _,
    fun _ hmsg _ _ heq => h (heq ▸ hmsg)⟩

/-- The handler does not return an error in this round, nor the body a frame of a kind that is
not known. -/
def StreamDriver.answersWell (handler : Handler) (d : StreamDriver) : Bool :=
  !d.inside ||
    match d.state with
    | .service s =>
      match (handler s.history).result with
      | some (.error ()) => s.responseDone
      | _ => true
    | .body b => decide (b.nextFrame.1 ≠ .frame .other)

/-- All messages of a task: those delivered, the one on its way and those in the queue. -/
def StreamDriver.said (d : StreamDriver) (out : List StreamMsg) : List StreamMsg :=
  out ++ (d.sending.toList ++ d.queue)

/-- The messages of a task are in order: once it is done, or about to be, there is one that ends
the response, and the terminal message comes last. -/
structure Driven (d : StreamDriver) (out : List StreamMsg) : Prop where
  last : ClosedLast (d.said out)
  finished : d.done = true → (d.said out).any StreamMsg.ends = true ∧ .closed ∈ d.said out
  busy : d.done = false → .closed ∉ d.said out ∧ d.queue = []
  service : ∀ s, d.state = .service s → d.done = false → s.responseDone = true → s.body = none →
    (d.said out).any StreamMsg.ends = true
  body : ∀ b, d.state = .body b → d.done = false → b.bodyEnd = true →
    (d.said out).any StreamMsg.ends = true
  inside : d.inside = true → d.done = false
  idle : ∀ s, d.inside = true → d.state = .service s → d.sending = none
  ended : d.ended = true → d.done = true ∧ d.sending = none ∧ d.queue = []

variable {msg : StreamMsg}

namespace StreamDriver

variable {o : DriverOptions} {handler : Handler} {d : StreamDriver} {ch : MsgChannel}
  {s : ServiceState}

/-- What comes of a poll of the handler: some messages enter the channel and one may be left on its
way, in which case the poll is over. -/
structure Polled (d : StreamDriver) (ch : MsgChannel) (said : List StreamMsg)
    (r : StreamDriver × MsgChannel) : Prop where
  channel : r.2 = ch.append said
  room : said = [] ∨ ch.fits said.length = true
  state : ∃ s, r.1.state = .service s ∧ (s.responseDone = true → s.body = none →
    (said ++ r.1.sending.toList).any StreamMsg.ends = true)
  closed : .closed ∉ said ++ r.1.sending.toList
  done : r.1.done = d.done
  queue : r.1.queue = d.queue
  ended : r.1.ended = d.ended
  idle : r.1.inside = true → r.1.sending = none

theorem send_cases (hnone : d.sending = none) (hr : ch.receiver = true) (msg : StreamMsg) :
    ch.fits 1 = true ∧ d.send ch msg = (d, ch.append [msg], true) ∨
      d.send ch msg = ({ d with sending := some msg }, ch, false) := by
  by_cases hfits : ch.fits 1 = true
  · exact .inl ⟨hfits, send_fits hnone hr hfits msg⟩
  · refine .inr ?_
    rw [send, hnone]
    simp [sendNew, MsgChannel.pollSend_eq hr, if_neg hfits]

theorem Polled.parked (d : StreamDriver) (ch : MsgChannel) (s : ServiceState)
    (hopen : s.responseDone = false) (hclosed : msg ≠ .closed) :
    Polled d ch [] (suspend { d with state := .service s, sending := some msg }, ch) where
  channel := ch.append_nil.symm
  room := .inl rfl
  state := ⟨s, rfl, fun hdone => absurd (hopen.symm.trans hdone) (by decide)⟩
  closed hmem := hclosed (mem_singleton.1 hmem).symm
  done := rfl
  queue := rfl
  ended := rfl
  idle := nofun

theorem Polled.sendHead (hnone : d.sending = none) (hr : ch.receiver = true)
    (hopen : s.responseDone = false) (r : Response) :
    ∃ said, Polled d ch said (sendHead o s r d ch) := by
  rw [StreamDriver.sendHead]
  -- Without a body the head ends the stream.
  have hbody : o.bodyOf r = none → o.endStream r = true := by
    rw [DriverOptions.bodyOf, DriverOptions.endStream]
    split_ifs with hhead
    · exact fun _ => by rw [hhead, Bool.true_or]
    · simp
  split_ifs with hsend
  · rcases send_cases hnone hr (.headers r.parts (o.endStream r)) with ⟨hfits, heq⟩ | heq
    · simp only [heq]
      refine ⟨_, ⟨rfl, .inr hfits, ⟨_, rfl, fun _ hb => ?_⟩, ?_, rfl, rfl, rfl, fun _ => hnone⟩⟩
      · simp [ends, hbody hb]
      · simp [setService, hnone]
    · simp only [heq]
      exact ⟨[], .parked d ch s hopen (by simp)⟩
  · refine ⟨[], ch.append_nil.symm, .inl rfl, ⟨_, rfl, fun _ hb => ?_⟩, ?_, rfl, rfl, rfl,
      fun _ => hnone⟩
    · rw [hbody hb] at hsend
      exact absurd rfl hsend
    · simp [setService, hnone]

theorem Polled.after {said : List StreamMsg} {msg : StreamMsg} {r : StreamDriver × MsgChannel}
    (hfits : ch.fits 1 = true) (hclosed : msg ≠ .closed) (h : Polled d (ch.append [msg]) said r) :
    Polled d ch (msg :: said) r where
  channel := by rw [h.channel, MsgChannel.append_append]; rfl
  room := by
    refine .inr ?_
    rcases h.room with rfl | hroom
    · exact hfits
    · rw [MsgChannel.fits_append] at hroom
      rwa [length_cons, Nat.add_comm]
  state := by
    obtain ⟨s, hs, hends⟩ := h.state
    refine ⟨s, hs, fun hdone hbody => ?_⟩
    rw [cons_append, any_cons, hends hdone hbody, Bool.or_true]
  closed hmem := (mem_cons.1 hmem).elim (fun heq => hclosed heq.symm) h.closed
  done := h.done
  queue := h.queue
  ended := h.ended
  idle := h.idle

theorem Polled.respond (hnone : d.sending = none) (hr : ch.receiver = true)
    (hopen : s.responseDone = false) (r : Response) :
    ∃ said, Polled d ch said (respond o s r d ch) := by
  rw [StreamDriver.respond]
  split
  · rcases send_cases hnone hr continueMsg with ⟨hfits, heq⟩ | heq
    · simp only [heq]
      have hr' : (ch.append [continueMsg]).receiver = true := hr
      have hopen' : ({ s with continueSent := true } : ServiceState).responseDone = false := hopen
      obtain ⟨said, hsaid⟩ := Polled.sendHead hnone hr' hopen' r
      exact ⟨continueMsg :: said, hsaid.after hfits (by simp [continueMsg])⟩
    · simp only [heq]
      exact ⟨[], .parked d ch s hopen (by simp [continueMsg])⟩
  · have hopen' : ({ s with continueSent := s.continueSent || o.sendContinue } :
        ServiceState).responseDone = false := hopen
    exact Polled.sendHead hnone hr hopen' r

theorem Polled.silent {d' : StreamDriver} (hnone : d'.sending = none)
    (hstate : d'.state = .service s)
    (hopen : s.responseDone = false) (hdone : d'.done = d.done) (hqueue : d'.queue = d.queue)
    (hended : d'.ended = d.ended) : Polled d ch [] (d', ch) where
  channel := ch.append_nil.symm
  room := .inl rfl
  state := ⟨s, hstate, fun hd => absurd (hopen.symm.trans hd) (by decide)⟩
  closed := by simp [hnone]
  done := hdone
  queue := hqueue
  ended := hended
  idle _ := hnone

theorem Polled.wait (hnone : d.sending = none) (hr : ch.receiver = true)
    (hopen : s.responseDone = false) : ∃ said, Polled d ch said (wait o false s d ch) := by
  rw [StreamDriver.wait, if_neg Bool.false_ne_true]
  split
  · rcases send_cases hnone hr continueMsg with ⟨hfits, heq⟩ | heq
    · simp only [heq]
      exact ⟨[continueMsg], .after hfits (by simp [continueMsg])
        (.silent hnone rfl hopen rfl rfl rfl)⟩
    · simp only [heq]
      exact ⟨[], .parked d ch s hopen (by simp [continueMsg])⟩
  split
  · cases s.hints with
    | nil =>
      split_ifs <;> exact ⟨[], .silent hnone rfl hopen rfl rfl rfl⟩
    | cons hint hints =>
      rcases send_cases hnone hr (earlyHintsMsg hint) with ⟨hfits, heq⟩ | heq
      · simp only [heq]
        exact ⟨[earlyHintsMsg hint],
          .after hfits (by simp [earlyHintsMsg]) (.silent hnone rfl hopen rfl rfl rfl)⟩
      simp only [heq]
      refine ⟨[], ch.append_nil.symm, .inl rfl, ⟨_, rfl, fun hd => ?_⟩, ?_, rfl, rfl, rfl,
        by simp [suspend]⟩
      · cases hopen.symm.trans hd
      · simp [suspend, setService, earlyHintsMsg]
  · exact ⟨[], .silent hnone rfl hopen rfl rfl rfl⟩

/-- A round in which the handler is polled and does not fail. -/
theorem Polled.pollService (hnone : d.sending = none) (hr : ch.receiver = true)
    (hopen : s.responseDone = false) (hwell : (handler s.history).result ≠ some (.error ())) :
    ∃ said, Polled d ch said (pollService o handler false s d ch) := by
  rw [StreamDriver.pollService, hopen]
  have hopen' : (s.polled (handler s.history)).responseDone = false := hopen
  have hnone' : ({ d with repolled := d.repolled || s.completed } : StreamDriver).sending = none :=
    hnone
  rcases hresult : (handler s.history).result with _ | ⟨⟨⟩⟩ | r
  · obtain ⟨said, hsaid⟩ := Polled.wait hnone' hr hopen'
    simp only [hresult]
    exact ⟨said, { hsaid with }⟩
  · exact absurd hresult hwell
  · obtain ⟨said, hsaid⟩ := Polled.respond hnone' hr hopen' r
    simp only [hresult]
    exact ⟨said, { hsaid with }⟩

end StreamDriver

namespace Driven

variable {o : DriverOptions} {handler : Handler} {d d' : StreamDriver} {ch : MsgChannel}
  {out out' : List StreamMsg} {b : PipeState}

theorem new : Driven .new [] where
  last := .nil
  finished := nofun
  busy _ := ⟨not_mem_nil, rfl⟩
  service s hs _ hdone := by
    obtain rfl := service.inj hs
    cases hdone
  body b hb := nomatch hb
  inside := nofun
  idle := nofun
  ended := nofun

section
variable (h : Driven d out)
include h

theorem more (hopen : d.done = false) (new : List StreamMsg)
    (hsaid : d'.said out' = d.said out ++ new) (hnew : .closed ∉ new) (hdone : d'.done = false)
    (hqueue : d'.queue = []) (hended : d'.ended = false)
    (hservice : ∀ s, d'.state = .service s → s.responseDone = true → s.body = none →
      (d.said out).any ends = true ∨ new.any ends = true)
    (hbody : ∀ b, d'.state = .body b → b.bodyEnd = true →
      (d.said out).any ends = true ∨ new.any ends = true)
    (hidle : ∀ s, d'.inside = true → d'.state = .service s → d'.sending = none) :
    Driven d' out' := by
  have hnot : .closed ∉ d'.said out' := by
    rw [hsaid]
    exact not_mem_append (h.busy hopen).1 hnew
  refine ⟨.of_not_mem hnot, fun hd => absurd (hdone.symm.trans hd) (by decide),
    fun _ => ⟨hnot, hqueue⟩, fun s hs _ hd hb => ?_, fun b hb _ hd => ?_, fun _ => hdone, hidle,
    fun hd => absurd (hended.symm.trans hd) (by decide)⟩
  · rw [hsaid, any_append, Bool.or_eq_true]
    exact hservice s hs hd hb
  · rw [hsaid, any_append, Bool.or_eq_true]
    exact hbody b hb hd

theorem ended_of_open (hopen : d.done = false) : d.ended = false :=
  Bool.eq_false_iff.2 fun hd => absurd (hopen.symm.trans (h.ended hd).1) (by decide)

theorem conclude (hopen : d.done = false) (hends : (d.said out).any ends = true) :
    Driven d.conclude out := by
  have hsaid : d.conclude.said out = d.said out ++ [.closed] := by
    simp [said, StreamDriver.conclude]
  have hdone : d.conclude.done = false → False := by simp [StreamDriver.conclude]
  have hinside : d.conclude.inside = true → False := by simp [StreamDriver.conclude]
  refine ⟨?_, fun _ => ⟨?_, ?_⟩, fun hd => (hdone hd).elim, fun _ _ hd => (hdone hd).elim,
    fun _ _ hd => (hdone hd).elim, fun hi => (hinside hi).elim, fun _ hi => (hinside hi).elim,
    fun hd => ?_⟩
  · rw [hsaid]
    exact .concat (h.busy hopen).1
  · rw [hsaid, any_append, hends, Bool.true_or]
  · rw [hsaid]
    simp
  · cases (h.ended_of_open hopen).symm.trans hd

theorem sent (hsending : d.sending = some msg) :
    Driven { d with sending := none } (out ++ [msg]) := by
  have hsaid : ({ d with sending := none } : StreamDriver).said (out ++ [msg]) = d.said out := by
    simp [said, hsending]
  exact {
    last := hsaid ▸ h.last
    finished := hsaid ▸ h.finished
    busy := hsaid ▸ h.busy
    service := hsaid ▸ h.service
    body := hsaid ▸ h.body
    inside := h.inside
    idle := fun _ _ _ => rfl
    ended := fun hd => ⟨(h.ended hd).1, rfl, (h.ended hd).2.2⟩ }

theorem suspend : Driven d.suspend out :=
  { h with
    inside := nofun
    idle := nofun }

theorem pollOuter (hr : ch.receiver = true) (hended : d.ended = false)
    (hinside : d.inside = false) :
    ∃ said, (d.pollOuter ch).2 = ch.append said ∧ (said = [] ∨ ch.fits said.length = true) ∧
      Driven (d.pollOuter ch).1 (out ++ said) := by
  rcases d.pollOuter_cases hr with ⟨hsending, hqueue, heq⟩ | ⟨msg, queue, hsending, hqueue, heq⟩ |
    ⟨msg, hsending, heq⟩ <;> rw [heq]
  · refine ⟨[], ch.append_nil.symm, .inl rfl, ?_⟩
    rw [append_nil]
    split_ifs with hdone
    · exact { h with ended := fun _ => ⟨hdone, hsending, hqueue⟩ }
    · exact { h with inside := fun _ => Bool.eq_false_iff.2 hdone, idle := fun _ _ _ => hsending }
  · have hdone : ¬ d.done = false := fun hd => cons_ne_nil _ _ (hqueue.symm.trans (h.busy hd).2)
    have hsaid : ({ d with queue := queue, sending := some msg } : StreamDriver).said out =
        d.said out := by
      simp [said, hsending, hqueue]
    refine ⟨[], ch.append_nil.symm, .inl rfl, ?_⟩
    rw [append_nil]
    refine ⟨hsaid ▸ h.last, hsaid ▸ h.finished, fun hd => absurd hd hdone,
      fun _ _ hd => absurd hd hdone, fun _ _ hd => absurd hd hdone, h.inside, ?_, ?_⟩
    · exact fun _ hin => absurd (hinside.symm.trans hin) (by decide)
    · exact fun hd => absurd (hended.symm.trans hd) (by decide)
  · split_ifs with hfits
    · exact ⟨[msg], rfl, .inr hfits, h.sent hsending⟩
    · exact ⟨[], ch.append_nil.symm, .inl rfl, by rwa [append_nil]⟩

theorem pollService {s : ServiceState} (hr : ch.receiver = true) (hinside : d.inside = true)
    (hs : d.state = .service s)
    (hwell : s.responseDone = true ∨ (handler s.history).result ≠ some (.error ())) :
    ∃ said, (StreamDriver.pollService o handler false s d ch).2 = ch.append said ∧
      (said = [] ∨ ch.fits said.length = true) ∧
      Driven (StreamDriver.pollService o handler false s d ch).1 (out ++ said) := by
  have hopen := h.inside hinside
  have hnone := h.idle s hinside hs
  cases hdone : s.responseDone with
  | true =>
    refine ⟨[], ?_⟩
    rw [StreamDriver.pollService, if_pos hdone, append_nil, ch.append_nil]
    cases hbody : s.body with
    | none => exact ⟨rfl, .inl rfl, h.conclude hopen (h.service s hs hopen hdone hbody)⟩
    | some frames =>
      refine ⟨rfl, .inl rfl, h.more hopen [] ?_ not_mem_nil hopen (h.busy hopen).2
        (h.ended_of_open hopen) ?_ ?_ fun _ _ hs' => by cases hs'⟩
      · rw [append_nil]
        rfl
      · exact fun _ hs' => by cases hs'
      · intro b hb hend
        obtain rfl := body.inj hb
        cases hend
  | false =>
    obtain ⟨said, hsaid⟩ := Polled.pollService hnone hr hdone
      (hwell.resolve_left (by simp [hdone]))
    obtain ⟨s', hs', hends⟩ := hsaid.state
    have hqueue := hsaid.queue.trans (h.busy hopen).2
    refine ⟨said, hsaid.channel, hsaid.room,
      h.more hopen _ ?_ hsaid.closed (hsaid.done.trans hopen) hqueue
      (hsaid.ended.trans (h.ended_of_open hopen)) ?_ ?_ fun _ hin _ => hsaid.idle hin⟩
    · simp [StreamDriver.said, hnone, hqueue, (h.busy hopen).2]
    · intro s₁ hs₁ hd hb
      obtain rfl := service.inj (hs'.symm.trans hs₁)
      exact .inr (hends hd hb)
    · intro b hb
      cases hs'.symm.trans hb

section
variable (hopen : d.done = false)
include hopen

theorem pipe (hnone : d.sending = none) (hclosed : msg ≠ .closed)
    (hends : b.bodyEnd = true → (d.said out).any ends = true ∨ msg.ends = true) :
    Driven (d.pipe b msg) out := by
  refine h.more hopen [msg] ?_ ?_ hopen (h.busy hopen).2 (h.ended_of_open hopen) ?_ ?_ ?_
  · simp [said, StreamDriver.pipe, setBody, hnone, (h.busy hopen).2]
  · exact fun hmem => hclosed (mem_singleton.1 hmem).symm
  · exact fun _ hs => by cases hs
  · intro b' hb' hend
    obtain rfl := body.inj hb'
    rw [any_cons, any_nil, Bool.or_false]
    exact hends hend
  · exact fun _ _ hs => by cases hs

theorem setBody (hends : b.bodyEnd = true → (d.said out).any ends = true) :
    Driven (d.setBody b) out := by
  refine h.more hopen [] ?_ not_mem_nil hopen (h.busy hopen).2 (h.ended_of_open hopen)
    ?_ ?_ ?_
  · rw [append_nil]
    rfl
  · exact fun _ hs => nomatch hs
  · intro b' hb' hend
    obtain rfl := body.inj hb'
    exact .inl (hends hend)
  · exact fun _ _ hs => nomatch hs

theorem onFramePoll {poll : FramePoll} (hnone : d.sending = none) (hbody : b.bodyEnd = false)
    (hwell : poll ≠ .frame .other) : Driven (d.onFramePoll b poll) out := by
  have hnot : b.bodyEnd = true → False := fun hend => absurd (hbody.symm.trans hend) (by decide)
  cases poll with
  | pending => exact (h.setBody hopen fun hend => (hnot hend).elim).suspend
  | error => exact h.pipe hopen hnone (by simp) fun _ => .inr rfl
  | finished =>
    cases hheaders : b.headers with
    | none | some parts =>
      simp only [StreamDriver.onFramePoll, hheaders]
      exact h.pipe hopen hnone (by simp) fun _ => .inr rfl
  | frame frame =>
    cases hheaders : b.headers with
    | some parts =>
      simp only [StreamDriver.onFramePoll, hheaders]
      exact h.pipe hopen hnone (by simp) fun hend => (hnot hend).elim
    | none =>
      simp only [StreamDriver.onFramePoll, hheaders]
      cases frame with
      | data data endStream =>
        simp only
        split_ifs
        · exact h.setBody hopen fun hend => (hnot hend).elim
        · exact h.pipe hopen hnone (by simp) fun hend => (hnot hend).elim
      | trailers trailers => exact h.pipe hopen hnone (by simp) fun _ => .inr rfl
      | other => exact absurd rfl hwell

theorem pollFrame (hnone : d.sending = none) (hb : d.state = .body b)
    (hwell : b.nextFrame.1 ≠ .frame .other) : Driven (d.pollFrame false b) out := by
  rw [StreamDriver.pollFrame, Bool.or_false]
  split_ifs with hend
  · exact h.conclude hopen (h.body b hb hopen hend)
  · refine h.onFramePoll hopen hnone ?_ hwell
    rw [PipeState.nextFrame]
    cases b.firstFrame with
    | none | some frame => exact Bool.eq_false_iff.2 hend

end

theorem pollBody (hr : ch.receiver = true) (hinside : d.inside = true) (hb : d.state = .body b)
    (hwell : b.nextFrame.1 ≠ .frame .other) :
    ∃ said, (StreamDriver.pollBody false b d ch).2 = ch.append said ∧
      (said = [] ∨ ch.fits said.length = true) ∧
      Driven (StreamDriver.pollBody false b d ch).1 (out ++ said) := by
  have hopen := h.inside hinside
  obtain hnone | ⟨msg, hsending⟩ := Option.eq_none_or_eq_some d.sending
  · refine ⟨[], ?_⟩
    rw [append_nil, ch.append_nil, StreamDriver.pollBody, hnone]
    exact ⟨rfl, .inl rfl, h.pollFrame hopen hnone hb hwell⟩
  rw [StreamDriver.pollBody, hsending]
  simp only [MsgChannel.pollSend_eq hr]
  split_ifs with hfits
  · exact ⟨[msg], rfl, .inr hfits, (h.sent hsending).pollFrame hopen rfl hb hwell⟩
  · exact ⟨[], ch.append_nil.symm, .inl rfl, by rw [append_nil]; exact h.suspend⟩

theorem tick (hr : ch.receiver = true) (hwell : d.answersWell handler = true) :
    ∃ said, (d.tick o handler false ch).2 = ch.append said ∧
      (said = [] ∨ ch.fits said.length = true) ∧
      Driven (d.tick o handler false ch).1 (out ++ said) := by
  rw [StreamDriver.tick]
  cases hended : d.ended with
  | true => exact ⟨[], ch.append_nil.symm, .inl rfl, by rwa [append_nil]⟩
  | false =>
    cases hinside : d.inside with
    | false => exact h.pollOuter hr hended hinside
    | true =>
      rw [answersWell, hinside] at hwell
      cases hstate : d.state with
      | service s =>
        simp only [hstate] at hwell
        refine h.pollService hr hinside hstate ?_
        by_cases herror : (handler s.history).result = some (.error ())
        · rw [herror] at hwell
          exact .inl hwell
        · exact .inr herror
      | body b =>
        simp only [hstate] at hwell
        exact h.pollBody hr hinside hstate (of_decide_eq_true hwell)

end

end Driven

/-! ### The task on its connection -/

/-- The channel for the messages of a stream, as its task sees it. -/
def Connection.msgChannel (c : Connection) (id : ℕ) : MsgChannel :=
  match c.entry id with
  | some e => ⟨some channelCapacity, e.msgs, true⟩
  | none => ⟨some channelCapacity, [], false⟩

def Event.sendsOn (id : ℕ) : Event → Bool
  | .task id' (.send _) => decide (id' = id)
  | _ => false

structure Tasked where
  conn : Connection
  driver : StreamDriver

inductive TaskedEvent where
  /-- Whatever the connection and the other tasks do. -/
  | conn (ev : Event)
  /-- A round of the task. -/
  | tick
  deriving DecidableEq, Repr

namespace Tasked

def start (opts : ConnectionOptions) : Tasked := ⟨.start opts, .new⟩

/-- One step. The messages of the stream are those of its task, which runs once the stream has been
dispatched, and learns that the stream has gone by its entry having been dropped. -/
def step (http : HttpCrate) (o : DriverOptions) (handler : Handler) (id : ℕ) (t : Tasked) :
    TaskedEvent → Tasked
  | .conn ev => if ev.sendsOn id then t else { t with conn := Connection.step http t.conn ev }
  | .tick =>
    if t.conn.spawned id then
      let ch := t.conn.msgChannel id
      let r := t.driver.tick o handler (t.conn.entry id).isNone ch
      let sent := r.2.queue.drop ch.queue.length
      ⟨Connection.run http (sent.map fun msg => .task id (.send msg)) t.conn, r.1⟩
    else t

def run (http : HttpCrate) (o : DriverOptions) (handler : Handler) (id : ℕ)
    (events : List TaskedEvent) (t : Tasked) : Tasked :=
  events.foldl (step http o handler id) t

/-- Nothing comes for a request body that nobody reads, and the handler and its body do not fail
in the way the task does not report. -/
def goesWell (handler : Handler) (id : ℕ) (t : Tasked) : TaskedEvent → Bool
  | .conn ev => !t.conn.unread id ev
  | .tick => (t.conn.entry id).isNone || t.driver.answersWell handler

/-- The stream has gone, or is on its way there with its task. -/
structure Kept (id : ℕ) (lost : Prop) (t : Tasked) : Prop where
  reasonable : Connection.Reasonable t.conn
  stage : Connection.Over id lost t.conn ∨
    ∃ msgs, Connection.Retires id lost msgs t.conn ∧ Driven t.driver msgs

section Steps
variable {http : HttpCrate} {o : DriverOptions} {handler : Handler} {id : ℕ} {lost : Prop}
  {c : Connection} {msgs : List StreamMsg} {t : Tasked}

open Connection (Reasonable Retires Over)

theorem sent_eq_nil {ev : Event} (hev : ev.sendsOn id = false) : c.sent id ev = [] := by
  cases ev with
  | task id' t =>
    cases t with
    | send msg =>
      have hne : id' ≠ id := of_decide_eq_false hev
      exact if_neg fun h => hne h.1
    | receive => rfl
    | dropBody => rfl
  | _ => rfl

theorem over_run (http : HttpCrate) (events : List Event) : ∀ {c : Connection}, Reasonable c →
    Over id lost c → Reasonable (Connection.run http events c) ∧
      Over id lost (Connection.run http events c) := by
  induction events with
  | nil => exact fun hs h => ⟨hs, h⟩
  | cons ev events ih => exact fun hs h => ih (hs.stepAny http ev) (h.step http hs ev)

theorem retires_sends (http : HttpCrate) (said : List StreamMsg) :
    ∀ {msgs : List StreamMsg} {c : Connection} {e : StreamEntry}, c.entry id = some e →
      c.spawned id = true → Reasonable c → Retires id lost msgs c →
      (said = [] ∨ e.msgs.length + said.length ≤ channelCapacity) →
      Reasonable (Connection.run http (said.map fun msg => .task id (.send msg)) c) ∧
        Retires id lost (msgs ++ said)
          (Connection.run http (said.map fun msg => .task id (.send msg)) c) := by
  induction said with
  | nil =>
    intro msgs c e _ _ hs h _
    rw [append_nil]
    exact ⟨hs, h⟩
  | cons msg said ih =>
    intro msgs c e he hspawned hs h hroom
    have hlen : e.msgs.length + (said.length + 1) ≤ channelCapacity := hroom.resolve_left (by simp)
    have hlt : e.msgs.length < channelCapacity := by omega
    have hsent : c.sent id (.task id (.send msg)) = [msg] := by
      simp [Connection.sent, hspawned, he, if_pos hlt]
    have hnext := (Retires.upholds id lost (fun _ => True) fun _ => trivial).task h id
      (.send msg) trivial
    rw [hsent] at hnext
    have hon : c.onTask id (.send msg) = c.setEntry id { e with msgs := e.msgs ++ [msg] } := by
      simp [Connection.onTask, if_pos hspawned, he, StreamEntry.onTask, if_pos hlt]
    have hassoc : msgs ++ msg :: said = msgs ++ [msg] ++ said := by simp
    rw [hassoc]
    rw [hon] at hnext
    have hs' : Reasonable (c.setEntry id { e with msgs := e.msgs ++ [msg] }) :=
      hon ▸ hs.stepAny http (.task id (.send msg))
    have hrun : Connection.run http ((msg :: said).map fun msg => .task id (.send msg)) c =
        Connection.run http (said.map fun msg => .task id (.send msg))
          (c.setEntry id { e with msgs := e.msgs ++ [msg] }) := by
      rw [← hon]
      rfl
    rw [hrun]
    refine ih (Connection.entry_setEntry c id _) hspawned hs' hnext (.inr ?_)
    rw [length_append, length_singleton]
    omega

theorem Kept.conn (h : Kept id lost t) (ev : Event) (hread : t.conn.unread id ev = false)
    (hreset : ∀ hint code, ev = .frame hint (.reset id code) → t.conn.reading = true → lost) :
    Kept id lost (t.step http o handler id (.conn ev)) := by
  rw [step]
  split_ifs with hsends
  · exact h
  have hs := h.reasonable.stepAny http ev
  refine ⟨hs, ?_⟩
  rcases h.stage with hover | ⟨msgs, hretires, hdriven⟩
  · exact .inl (hover.step http h.reasonable ev)
  refine .inr ⟨msgs, ?_, hdriven⟩
  have hnil := sent_eq_nil (c := t.conn) (Bool.eq_false_iff.2 hsends)
  -- A frame that is not read changes nothing.
  by_cases hframe : ∃ hint code, ev = .frame hint (.reset id code) ∧ t.conn.reading = false
  · obtain ⟨hint, code, rfl, hreading⟩ := hframe
    simp only [Connection.step, hreading]
    exact hretires
  have hstep := (Retires.tracks id lost).step http hretires h.reasonable ev
    (by rw [hnil, append_nil]; exact (pairwise_append.1 hdriven.last).1)
    ⟨fun _ _ => trivial, fun hint code heq => hreset hint code heq (by
      by_contra hreading
      exact hframe ⟨hint, code, heq, Bool.eq_false_iff.2 hreading⟩),
    fun hunread => absurd (hread.symm.trans hunread) Bool.false_ne_true⟩
  rwa [hnil, append_nil] at hstep

theorem Kept.tick (h : Kept id lost t)
    (hwell : ((t.conn.entry id).isNone || t.driver.answersWell handler) = true) :
    Kept id lost (t.step http o handler id .tick) := by
  rw [step]
  split_ifs with hspawned
  · have hover : Over id lost t.conn → Kept id lost (t.step http o handler id .tick) := by
      intro hover
      rw [step, if_pos hspawned]
      obtain ⟨hs, hover'⟩ := over_run http _ h.reasonable hover
      exact ⟨hs, .inl hover'⟩
    rw [step, if_pos hspawned] at hover
    rcases h.stage with hgone | ⟨msgs, hretires, hdriven⟩
    · exact hover hgone
    cases hcases : hretires with
    | waiting _ hnot => cases hnot.symm.trans hspawned
    | gone hnone hle hgone => exact hover ⟨hnone, hle, hgone⟩
    | live e handled he =>
      have hch : t.conn.msgChannel id = ⟨some channelCapacity, e.msgs, true⟩ := by
        rw [Connection.msgChannel, he]
      rw [he] at hwell
      have hr : (⟨some channelCapacity, e.msgs, true⟩ : MsgChannel).receiver = true := rfl
      obtain ⟨said, hsaid, hroom, hdriven'⟩ := hdriven.tick (o := o) hr hwell
      have hdrop : (e.msgs ++ said).drop e.msgs.length = said := drop_left
      simp only [hch, he, Option.isNone_some, hsaid, MsgChannel.append, hdrop]
      obtain ⟨hs, hretires'⟩ := retires_sends http said he hspawned h.reasonable hretires
        (hroom.imp_right fun hfits => by simpa [MsgChannel.fits] using hfits)
      exact ⟨hs, .inr ⟨msgs ++ said, hretires', hdriven'⟩⟩
  · exact h

end Steps

/-- A stream whose task has ended is retired once the terminal message has been handled and
nothing is queued for it: it is no longer in the map, and END_STREAM or RST_STREAM has been
written for it or a RST_STREAM was received. -/
theorem run_retired (http : HttpCrate) (opts : ConnectionOptions) (o : DriverOptions)
    (handler : Handler) (id : ℕ) (events : List TaskedEvent)
    (hwell : Throughout (step http o handler id) (fun t ev => t.goesWell handler id ev = true)
      events (start opts)) :
    let t := run http o handler id events (start opts)
    t.driver.ended = true →
      (∀ e, t.conn.entry id = some e → .closed ∉ e.msgs ∧ e.pendingData = []) →
      t.conn.entry id = none ∧ (t.conn.written.any (Frame.closes id) = true ∨
        ∃ before hint code after, events = before ++ .conn (.frame hint (.reset id code)) :: after ∧
          (run http o handler id before (start opts)).conn.reading = true) := by
  intro t hended hhandled
  obtain ⟨lost, hlost⟩ : ∃ lost : Prop, lost = ∃ before hint code after,
      events = before ++ .conn (.frame hint (.reset id code)) :: after ∧
      (run http o handler id before (start opts)).conn.reading = true := ⟨_, rfl⟩
  rw [← hlost]
  have hkept : Kept id lost t := by
    refine Throughout.invariant (I := Kept id lost) (fun t ev ht hev => ?_) events
      (Throughout.split [] hwell) ⟨.start _ opts, .inr ⟨[],
        .start (Connection.Retires.tracks id lost).toUpholds opts, .new⟩⟩
    obtain ⟨hgood, before, after, hsplit, rfl⟩ := hev
    cases ev with
    | tick => exact ht.tick hgood
    | conn ev =>
      refine ht.conn ev (by simpa [goesWell] using hgood) ?_
      rintro hint code rfl hreading
      rw [hlost]
      exact ⟨before, hint, code, after, hsplit, hreading⟩
  have hover : Connection.Over id lost t.conn := by
    rcases hkept.stage with hover | ⟨msgs, hretires, hdriven⟩
    · exact hover
    obtain ⟨hdone, hsending, hqueue⟩ := hdriven.ended hended
    have hsaid : t.driver.said msgs = msgs := by
      rw [StreamDriver.said, hsending, hqueue]
      exact append_nil _
    obtain ⟨hends, hclosed⟩ := hdriven.finished hdone
    rw [hsaid] at hends hclosed
    cases hretires with
    | waiting _ _ hmsgs =>
      rw [hmsgs] at hclosed
      cases hclosed
    | gone hnone hle hgone => exact ⟨hnone, hle, hgone⟩
    | live e handled he hmsgs hending =>
      -- The terminal message came last, so that whatever ends the response has been handled.
      obtain ⟨hnot, hempty⟩ := hhandled e he
      have hlast := hdriven.last
      rw [hsaid, hmsgs] at hlast
      rw [hmsgs] at hclosed hends
      have hmem := (mem_append.1 hclosed).resolve_right hnot
      have hnil : e.msgs = [] := eq_nil_iff_forall_not_mem.2 fun msg hmsg =>
        (pairwise_append.1 hlast).2.2 _ hmem msg hmsg rfl
      rw [hnil, append_nil] at hends
      rcases hending.pending hends with hl | hany
      · cases (hending.done hmem).2.symm.trans hl
      · rw [hempty] at hany
        cases hany
  exact ⟨hover.entry, hover.closed⟩

/-- A handler that answers every poll in the same way. -/
def answering (result : Except Unit Response) : Handler := fun _ => ⟨[], false, some result⟩

/-- A GET request; its task runs to its end and its messages are handled. -/
def wholeTask : List TaskedEvent :=
  .conn (.frame [] (.headers 1 true true none [0x82, 0x86, 0x84])) ::
    replicate 12 .tick ++ [.conn (.drainStream 1)]

def noContent : Response := ⟨⟨204, []⟩, false, fun _ => .finished⟩

theorem run_retired_no_content :
    let t := run .permissive ⟨false, false, false, false⟩ (answering (.ok noContent)) 1 wholeTask
      (start .default)
    t.driver.ended = true ∧ t.conn.entry 1 = none ∧ (t.conn.written.any (Frame.closes 1) = true ∨
      ∃ before hint code after, wholeTask = before ++ .conn (.frame hint (.reset 1 code)) :: after ∧
        (run .permissive ⟨false, false, false, false⟩ (answering (.ok noContent)) 1 before
          (start .default)).conn.reading = true) := by
  have hended :
      (run .permissive ⟨false, false, false, false⟩ (answering (.ok noContent)) 1 wholeTask
        (start .default)).driver.ended = true := by decide +kernel
  have hnone : (run .permissive ⟨false, false, false, false⟩ (answering (.ok noContent)) 1 wholeTask
      (start .default)).conn.entry 1 = none := by decide +kernel
  exact ⟨hended, run_retired .permissive .default ⟨false, false, false, false⟩
    (answering (.ok noContent)) 1 wholeTask (by decide +kernel) hended
    fun e he => absurd (hnone.symm.trans he) (by simp)⟩

/-- A handler that returns an error leaves its stream in the map, without END_STREAM and without
RST_STREAM, although its task has ended and all its messages have been handled. -/
theorem run_error_not_retired :
    let t := run .permissive ⟨false, false, false, false⟩ (answering (.error ())) 1 wholeTask
      (start .default)
    t.driver.ended = true ∧
      (t.conn.entry 1).any (fun e => e.msgs.isEmpty && e.pendingData.isEmpty) = true ∧
      t.conn.written.any (Frame.closes 1) = false ∧ t.conn.idle = true := by
  decide +kernel

end Tasked

end ZincioHttp.H2
