import Mathlib.Data.List.Infix
import ZincioHttp.H2.StreamDriver

/-! What a stream task has to say, whatever the channel does. The source of its messages is
the task with the channel taken away: each step is one poll of the handler or of the body, and
says which messages come of it. The task delivers the messages of its source, in order, if
whatever `poll_service` sends finds room in the channel. -/

namespace ZincioHttp.H2

open List ServiceState StreamDriver

open H2.Hpack (Header)

/-! ### The source -/

namespace ServiceState

/-- The head of the final response, said at once or kept for the first frame. -/
def head (o : DriverOptions) (s : ServiceState) (r : Response) : ServiceState × List StreamMsg :=
  if o.endStream r || o.extendedConnect then
    ({ s with body := o.bodyOf r, responseDone := true }, [.headers r.parts (o.endStream r)])
  else ({ s with headers := some r.parts, body := o.bodyOf r, responseDone := true }, [])

def respond (o : DriverOptions) (s : ServiceState) (r : Response) : ServiceState × List StreamMsg :=
  let (s', msgs) := head o { s with continueSent := s.continueSent || o.sendContinue } r
  (s', (if s.continueFirst o r then [continueMsg] else []) ++ msgs)

/-- The handler is not ready: at most one interim response. -/
def wait (o : DriverOptions) (s : ServiceState) : ServiceState × List StreamMsg :=
  if s.continueDue o then ({ s with continueSent := true }, [continueMsg])
  else if s.earlyHintsOpen then
    match s.hints with
    | hint :: hints => (noteHint { s with hints := hints } .confirmed, [earlyHintsMsg hint])
    | [] => (if s.hintsClosed then { s with earlyHintsOpen := false } else s, [])
  else (s, [])

def emit (o : DriverOptions) (s : ServiceState) (p : HandlerPoll) : ServiceState × List StreamMsg :=
  match p.result with
  | some (.ok r) => respond o (s.polled p) r
  | some (.error ()) => ({ s.polled p with responseDone := true }, [])
  | none => wait o (s.polled p)

end ServiceState

/-- The task without its channel. -/
inductive Source where
  | service (s : ServiceState)
  | body (b : PipeState)
  | done

namespace Source

def onFramePoll (b : PipeState) : FramePoll → Source × List StreamMsg
  | .frame frame =>
    match b.headers with
    | some parts =>
      (.body { b with headers := none, firstFrame := some frame }, [.headers parts false])
    | none =>
      match frame with
      | .data data endStream =>
        (.body b, if data.isEmpty && !endStream then [] else [.data data endStream])
      | .trailers trailers => (.body { b with bodyEnd := true }, [.trailers trailers])
      | .other => (.done, [.closed])
  | .error => (.body { b with bodyEnd := true }, [.reset Reason.internalError.code])
  | .finished =>
    match b.headers with
    | some parts => (.body { b with headers := none, bodyEnd := true }, [.headers parts true])
    | none => (.body { b with bodyEnd := true }, [.data [] true])
  | .pending => (.body b, [])

def emit (o : DriverOptions) (handler : Handler) : Source → Source × List StreamMsg
  | .service s =>
    if s.responseDone then
      match s.body with
      | some frames => (.body ⟨s.headers, frames, 0, false, none⟩, [])
      | none => (.done, [.closed])
    else
      let (s', msgs) := s.emit o (handler s.history)
      (.service s', msgs)
  | .body b => if b.bodyEnd then (.done, [.closed]) else onFramePoll b.nextFrame.2 b.nextFrame.1
  | .done => (.done, [])

def emission (o : DriverOptions) (handler : Handler) : ℕ → Source × List StreamMsg
  | 0 => (.service .new, [])
  | n + 1 =>
    let (source, msgs) := emission o handler n
    ((emit o handler source).1, msgs ++ (emit o handler source).2)

variable {o : DriverOptions} {handler : Handler}

theorem emission_mono {n m : ℕ} (h : n ≤ m) :
    (emission o handler n).2 <+: (emission o handler m).2 := by
  induction h with
  | refl => exact prefix_rfl
  | step _ ih => exact ih.trans (prefix_append _ _)

theorem emission_of_done {n m : ℕ} (h : n ≤ m) (hdone : (emission o handler n).1 = .done) :
    emission o handler m = emission o handler n := by
  induction h with
  | refl => rfl
  | step _ ih =>
    rw [emission, ih]
    simp only [hdone, emit, append_nil]
    exact Prod.ext hdone.symm rfl

end Source

/-! ### Room in the channel -/

/-- How many messages `poll_service` is to send after a poll of the handler. -/
def ServiceState.due (o : DriverOptions) (s : ServiceState) (p : HandlerPoll) : ℕ :=
  match p.result with
  | some (.ok r) => (if s.continueFirst o r then 1 else 0) +
      if o.endStream r || o.extendedConnect then 1 else 0
  | some (.error ()) => 0
  | none =>
    if (s.polled p).continueDue o || s.earlyHintsOpen && !(s.polled p).hints.isEmpty then 1 else 0

/-- Whatever `poll_service` is to send in this round finds room. -/
def StreamDriver.sendsFit (o : DriverOptions) (handler : Handler) (d : StreamDriver)
    (ch : MsgChannel) : Bool :=
  match d.state with
  | .service s => !d.inside || d.ended || s.responseDone || ch.fits (s.due o (handler s.history))
  | .body _ => true

namespace MsgChannel

variable {ch : MsgChannel} {msg : StreamMsg}

def append (ch : MsgChannel) (msgs : List StreamMsg) : MsgChannel :=
  { ch with queue := ch.queue ++ msgs }

theorem append_nil (ch : MsgChannel) : ch.append [] = ch := by
  rw [append, List.append_nil]

theorem append_append (ch : MsgChannel) (first second : List StreamMsg) :
    (ch.append first).append second = ch.append (first ++ second) := by
  rw [append, append, append, append_assoc]

theorem fits_append {msgs : List StreamMsg} {n : ℕ} :
    (ch.append msgs).fits n = ch.fits (msgs.length + n) := by
  simp [fits, append, length_append, Nat.add_assoc]

theorem fits_mono {n m : ℕ} (h : n ≤ m) (hfits : ch.fits m = true) : ch.fits n = true := by
  rw [fits, Option.all_eq_true] at hfits ⊢
  intro capacity hcapacity
  have := of_decide_eq_true (hfits capacity hcapacity)
  exact decide_eq_true (by omega)

theorem pollSend_eq (hr : ch.receiver = true) :
    ch.pollSend msg = if ch.fits 1 then .ready (ch.append [msg]) else .pending := by
  rw [pollSend, hr]
  rfl

end MsgChannel

variable {msg : StreamMsg}

namespace StreamDriver

variable {o : DriverOptions} {handler : Handler} {d d' : StreamDriver} {ch : MsgChannel}
  {s s' : ServiceState}

theorem send_fits (hnone : d.sending = none) (hr : ch.receiver = true) (hfits : ch.fits 1 = true)
    (msg : StreamMsg) : d.send ch msg = (d, ch.append [msg], true) := by
  have heta : { d with sending := none } = d := by rw [← hnone]
  rw [send, hnone]
  simp only [sendNew, MsgChannel.pollSend_eq hr, if_pos hfits]
  rw [heta]

/-- The state of the service has changed, the rest of the task has not. -/
structure Turns (d d' : StreamDriver) (s' : ServiceState) : Prop where
  state : d'.state = .service s'
  sending : d'.sending = none
  queue : d'.queue = d.queue
  done : d'.done = d.done
  ended : d'.ended = d.ended
  dropped : d'.dropped = d.dropped
  repolled : d'.repolled = d.repolled

section
variable (hnone : d.sending = none)
include hnone

theorem Turns.setService (s' : ServiceState) : Turns d (d.setService s') s' :=
  ⟨rfl, hnone, rfl, rfl, rfl, rfl, rfl⟩

section
variable (hr : ch.receiver = true)
include hr

theorem sendHead_fits (r : Response)
    (hfits : (o.endStream r || o.extendedConnect) = true → ch.fits 1 = true) :
    sendHead o s r d ch = (d.setService (s.head o r).1, ch.append (s.head o r).2) := by
  rw [sendHead, ServiceState.head]
  split
  · rename_i hsend
    simp [send_fits hnone hr (hfits hsend)]
  · simp [MsgChannel.append_nil]

theorem respond_fits (r : Response)
    (hfits : ch.fits ((if s.continueFirst o r then 1 else 0) +
      if o.endStream r || o.extendedConnect then 1 else 0) = true) :
    respond o s r d ch = (d.setService (s.respond o r).1, ch.append (s.respond o r).2) := by
  rw [respond, ServiceState.respond]
  split at hfits
  · rename_i hfirst
    have hcontinue : (s.continueSent || o.sendContinue) = true := by
      rw [continueFirst, Bool.and_eq_true, Bool.and_eq_true] at hfirst
      rw [hfirst.1.1, Bool.or_true]
    simp only [if_pos hfirst, send_fits hnone hr
      (MsgChannel.fits_mono (Nat.le_add_right _ _) hfits)]
    have hhead : (o.endStream r || o.extendedConnect) = true →
        (ch.append [continueMsg]).fits 1 = true := by
      intro hsend
      rw [if_pos hsend] at hfits
      rwa [MsgChannel.fits_append]
    have hr' : (ch.append [continueMsg]).receiver = true := hr
    rw [sendHead_fits hnone hr' r hhead, MsgChannel.append_append, hcontinue]
  · rename_i hfirst
    simp only [if_neg hfirst]
    refine sendHead_fits hnone hr r fun hsend => ?_
    rwa [if_pos hsend] at hfits

theorem wait_fits
    (hfits : (s.continueDue o || s.earlyHintsOpen && !s.hints.isEmpty) = true → ch.fits 1 = true) :
    Turns d (wait o false s d ch).1 (s.wait o).1 ∧
      (wait o false s d ch).2 = ch.append (s.wait o).2 := by
  rw [wait, ServiceState.wait, if_neg Bool.false_ne_true]
  split
  · rename_i hdue
    simp only [send_fits hnone hr (hfits (by rw [hdue, Bool.true_or]))]
    exact ⟨.setService hnone _, trivial⟩
  split
  · rename_i hopen
    cases hhints : s.hints with
    | nil =>
      by_cases hclosed : s.hintsClosed = true
      · simp only [if_pos hclosed]
        exact ⟨.setService hnone _, ch.append_nil.symm⟩
      · simp only [if_neg hclosed]
        exact ⟨⟨rfl, hnone, rfl, rfl, rfl, rfl, rfl⟩, ch.append_nil.symm⟩
    | cons hint hints =>
      simp only [send_fits hnone hr (hfits (by simp [hopen, hhints]))]
      exact ⟨⟨rfl, hnone, rfl, rfl, rfl, rfl, rfl⟩, trivial⟩
  · exact ⟨⟨rfl, hnone, rfl, rfl, rfl, rfl, rfl⟩, ch.append_nil.symm⟩

/-- A round in which the handler is polled says what the source says. -/
theorem pollService_fits (hopen : s.responseDone = false) (hnew : s.completed = false)
    (hfits : ch.fits (s.due o (handler s.history)) = true) :
    Turns d (pollService o handler false s d ch).1 (s.emit o (handler s.history)).1 ∧
      (pollService o handler false s d ch).2 = ch.append (s.emit o (handler s.history)).2 := by
  have hrepolled : { d with repolled := d.repolled || s.completed } = d := by
    rw [hnew, Bool.or_false]
  rw [pollService, hopen]
  simp only [hrepolled]
  rw [due] at hfits
  rw [emit]
  rcases hresult : (handler s.history).result with _ | ⟨⟨⟩⟩ | r
  · simp only [hresult] at hfits ⊢
    refine wait_fits hnone hr fun hdue => ?_
    have hdue' : ((s.polled (handler s.history)).continueDue o || s.earlyHintsOpen &&
      !(s.polled (handler s.history)).hints.isEmpty) = true := hdue
    rwa [if_pos hdue'] at hfits
  · exact ⟨.setService hnone _, ch.append_nil.symm⟩
  · simp only [hresult] at hfits ⊢
    have hrespond := respond_fits (s := s.polled (handler s.history)) hnone hr r hfits
    rw [hrespond]
    exact ⟨.setService hnone _, rfl⟩

end

end

/-- A round of the loop of `poll`. -/
theorem pollOuter_cases (d : StreamDriver) (hr : ch.receiver = true) :
    d.sending = none ∧ d.queue = [] ∧ d.pollOuter ch =
        (if d.done then { d with ended := true } else { d with inside := true }, ch) ∨
      (∃ msg queue, d.sending = none ∧ d.queue = msg :: queue ∧
        d.pollOuter ch = ({ d with queue := queue, sending := some msg }, ch)) ∨
      ∃ msg, d.sending = some msg ∧ d.pollOuter ch =
        if ch.fits 1 = true then ({ d with sending := none }, ch.append [msg]) else (d, ch) := by
  rw [pollOuter]
  cases hsending : d.sending with
  | some msg =>
    refine .inr (.inr ⟨msg, rfl, ?_⟩)
    simp only [MsgChannel.pollSend_eq hr]
    split_ifs <;> rfl
  | none =>
    cases hqueue : d.queue with
    | cons msg queue => exact .inr (.inl ⟨msg, queue, rfl, rfl, rfl⟩)
    | nil =>
      refine .inl ⟨rfl, rfl, ?_⟩
      simp only
      split_ifs <;> rfl

/-- The source that goes with the state of a task. -/
def source (d : StreamDriver) : Source :=
  if d.done then .done
  else
    match d.state with
    | .service s => .service s
    | .body b => .body b

end StreamDriver

theorem ServiceState.wait_completed (o : DriverOptions) (s : ServiceState) :
    (s.wait o).1.completed = s.completed ∧ (s.wait o).1.responseDone = s.responseDone := by
  rw [wait]
  split
  · simp [and_self]
  split
  · cases s.hints with
    | nil =>
      split_ifs <;> exact ⟨rfl, rfl⟩
    | cons hint hints => exact ⟨rfl, rfl⟩
  · simp [and_self]

/-- A poll that the handler has answered with a result is the last one. -/
theorem ServiceState.emit_completed (o : DriverOptions) {s : ServiceState} (p : HandlerPoll)
    (hopen : s.responseDone = false) (hnew : s.completed = false) :
    (s.emit o p).1.completed = (s.emit o p).1.responseDone := by
  rw [emit]
  rcases hresult : p.result with _ | ⟨⟨⟩⟩ | r
  · obtain ⟨hcompleted, hdone⟩ := wait_completed o (s.polled p)
    simp only [hcompleted, hdone]
    simp [polled, hopen, hnew, hresult]
  · simp [polled, hresult]
  · simp only [respond, head]
    split_ifs <;> simp [polled, hresult]

/-- What the task has delivered, has on its way and has queued is what its source has said.
No hint is lost, and the handler is polled until it has returned and not again. -/
structure Follows (o : DriverOptions) (handler : Handler) (d : StreamDriver)
    (out : List StreamMsg) (n : ℕ) : Prop where
  msgs : (Source.emission o handler n).2 = out ++ (d.sending.toList ++ d.queue)
  source : (Source.emission o handler n).1 = d.source
  queue : d.done = false → d.queue = []
  backlog : d.sending.toList.length + d.queue.length ≤ 1
  service : ∀ s, d.done = false → d.state = .service s →
    d.sending = none ∧ s.completed = s.responseDone
  inside : d.inside = true → d.done = false
  ended : d.ended = true → d.done = true ∧ d.sending = none ∧ d.queue = []
  dropped : d.dropped = []
  repolled : d.repolled = false

namespace Follows

variable {o : DriverOptions} {handler : Handler} {d : StreamDriver} {out : List StreamMsg} {n : ℕ}
  {ch : MsgChannel}

theorem new (o : DriverOptions) (handler : Handler) : Follows o handler .new [] 0 where
  msgs := rfl
  source := rfl
  queue _ := rfl
  backlog := Nat.zero_le _
  service s _ hs := by
    obtain rfl := DriverState.service.inj hs
    exact ⟨rfl, rfl⟩
  inside := nofun
  ended := nofun
  dropped := rfl
  repolled := rfl

theorem emission_succ {src src' : Source} {said : List StreamMsg} {msgs : List StreamMsg}
    (hsrc : (Source.emission o handler n).1 = src) (hmsgs : (Source.emission o handler n).2 = msgs)
    (hemit : src.emit o handler = (src', said)) :
    Source.emission o handler (n + 1) = (src', msgs ++ said) := by
  rw [Source.emission]
  simp [hsrc, hmsgs, hemit]

section
variable (h : Follows o handler d out n)
include h

theorem sent (hsending : d.sending = some msg) :
    Follows o handler { d with sending := none } (out ++ [msg]) n where
  msgs := by
    rw [h.msgs, hsending]
    simp
  source := h.source
  queue := h.queue
  backlog := (Nat.zero_add _).trans_le ((Nat.le_add_left _ _).trans h.backlog)
  service s hdone hs := ⟨rfl, (h.service s hdone hs).2⟩
  inside := h.inside
  ended hended := ⟨(h.ended hended).1, rfl, (h.ended hended).2.2⟩
  dropped := h.dropped
  repolled := h.repolled

theorem suspend : Follows o handler d.suspend out n :=
  { h with inside := nofun }

theorem pollOuter (hr : ch.receiver = true) (hended : d.ended = false) :
    ∃ said, (d.pollOuter ch).2 = ch.append said ∧
      Follows o handler (d.pollOuter ch).1 (out ++ said) n := by
  rcases d.pollOuter_cases hr with ⟨hsending, hqueue, heq⟩ | ⟨msg, queue, hsending, hqueue, heq⟩ |
    ⟨msg, hsending, heq⟩ <;> rw [heq]
  · refine ⟨[], ch.append_nil.symm, ?_⟩
    rw [append_nil]
    split_ifs with hdone
    · exact { h with ended := fun _ => ⟨hdone, hsending, hqueue⟩ }
    · exact { h with inside := fun _ => Bool.eq_false_iff.2 hdone }
  · have hdone : ¬ d.done = false := fun hd => cons_ne_nil _ _ (hqueue.symm.trans (h.queue hd))
    have hbacklog := h.backlog
    rw [hsending, hqueue] at hbacklog
    refine ⟨[], ch.append_nil.symm, ?_⟩
    rw [append_nil]
    refine ⟨?_, h.source, fun hd => absurd hd hdone, ?_, fun _ hd => absurd hd hdone, h.inside,
      fun hd => absurd (hended.symm.trans hd) (by decide), h.dropped, h.repolled⟩
    · rw [h.msgs, hsending, hqueue]
      rfl
    · simpa using hbacklog
  · split_ifs with hfits
    · exact ⟨[msg], rfl, h.sent hsending⟩
    · exact ⟨[], ch.append_nil.symm, by rwa [append_nil]⟩

theorem conclude (hopen : d.done = false) (hnone : d.sending = none) (hended : d.ended = false)
    (hemit : d.source.emit o handler = (.done, [.closed])) (state : DriverState) :
    Follows o handler (StreamDriver.conclude { d with state := state }) out
      (n + 1) := by
  have hmsgs := h.msgs
  have hnext := emission_succ h.source hmsgs hemit
  refine ⟨?_, ?_, nofun, ?_, nofun, nofun, fun hd => absurd (hended.symm.trans hd) (by decide),
    h.dropped, h.repolled⟩
  · rw [hnext, StreamDriver.conclude]
    simp
  · rw [hnext]
    rfl
  · rw [hnone, h.queue hopen]
    rfl

theorem pollService {s : ServiceState} (hr : ch.receiver = true) (hended : d.ended = false)
    (hinside : d.inside = true) (hs : d.state = .service s)
    (hfits : s.responseDone = true ∨ ch.fits (s.due o (handler s.history)) = true) :
    ∃ said, (StreamDriver.pollService o handler false s d ch).2 = ch.append said ∧
      Follows o handler (StreamDriver.pollService o handler false s d ch).1 (out ++ said)
        (n + 1) := by
  have hopen := h.inside hinside
  obtain ⟨hnone, hcompleted⟩ := h.service s hopen hs
  have hsource : d.source = .service s := by
    rw [StreamDriver.source, hopen, hs]
    rfl
  have hmsgs := h.msgs
  rw [hnone] at hmsgs
  cases hdone : s.responseDone with
  | true =>
    refine ⟨[], ?_⟩
    rw [StreamDriver.pollService, if_pos hdone, append_nil, ch.append_nil]
    cases hbody : s.body with
    | none =>
      refine ⟨rfl, h.conclude hopen hnone hended ?_ d.state⟩
      rw [hsource, Source.emit, if_pos hdone, hbody]
    | some frames =>
      have hemit : Source.emit o handler (.service s) =
          (.body ⟨s.headers, frames, 0, false, none⟩, []) := by
        rw [Source.emit, if_pos hdone, hbody]
      have hnext := emission_succ (h.source.trans hsource) hmsgs hemit
      refine ⟨rfl, ⟨?_, ?_, h.queue, h.backlog, fun _ _ hs' => (nomatch hs'), nofun, h.ended,
        h.dropped, h.repolled⟩⟩
      · rw [hnext]
        simp [StreamDriver.suspend, setBody, hnone]
      · rw [hnext, StreamDriver.source]
        simp [StreamDriver.suspend, setBody, hopen]
  | false =>
    rw [hdone] at hcompleted hfits
    obtain ⟨hturns, hch⟩ := pollService_fits hnone hr hdone hcompleted
      (hfits.resolve_left Bool.false_ne_true)
    have hemit : Source.emit o handler (.service s) = (.service (s.emit o (handler s.history)).1,
        (s.emit o (handler s.history)).2) := by
      rw [Source.emit, hdone]
      rfl
    have hnext := emission_succ (h.source.trans hsource) hmsgs hemit
    have hopen' := hturns.done.trans hopen
    refine ⟨_, hch, ⟨?_, ?_, fun _ => hturns.queue.trans (h.queue hopen), ?_, ?_, fun _ => hopen',
      ?_, hturns.dropped.trans h.dropped, hturns.repolled.trans h.repolled⟩⟩
    · rw [hnext, hturns.sending, hturns.queue, h.queue hopen]
      simp
    · rw [hnext, StreamDriver.source, hopen', hturns.state]
      rfl
    · rw [hturns.sending, hturns.queue, h.queue hopen]
      exact Nat.zero_le _
    · intro s' _ hs'
      obtain rfl := DriverState.service.inj (hturns.state.symm.trans hs')
      exact ⟨hturns.sending, emit_completed o _ hdone hcompleted⟩
    · intro hd
      rw [hturns.ended, hended] at hd
      cases hd

section
variable (hopen : d.done = false) (hnone : d.sending = none)
include hopen hnone

/-- A poll of the body: a message is on its way, or none. -/
theorem pipe {b' : PipeState} (msg : Option StreamMsg)
    (hemit : d.source.emit o handler = (.body b', msg.toList)) :
    Follows o handler { d.setBody b' with sending := msg } out (n + 1) := by
  have hmsgs := h.msgs
  rw [hnone] at hmsgs
  have hnext := emission_succ h.source hmsgs hemit
  refine ⟨?_, ?_, h.queue, ?_, fun _ _ hs' => (nomatch hs'), h.inside,
    fun hd => absurd (hopen.symm.trans (h.ended hd).1) (by decide), h.dropped, h.repolled⟩
  · simp [hnext, setBody, h.queue hopen]
  · rw [hnext, StreamDriver.source]
    simp [setBody, hopen]
  · simp only [setBody, h.queue hopen]
    cases msg with
    | none => exact Nat.zero_le _
    | some msg => exact Nat.le_refl _

theorem setBody {b' : PipeState} (hemit : d.source.emit o handler = (.body b', [])) :
    Follows o handler (d.setBody b') out (n + 1) := by
  have heta : { d.setBody b' with sending := none } = d.setBody b' := by rw [← hnone]; rfl
  have hpipe := h.pipe hopen hnone none hemit
  rwa [heta] at hpipe

theorem onFramePoll (hended : d.ended = false) (b : PipeState) (poll : FramePoll)
    (hemit : d.source.emit o handler = Source.onFramePoll b poll) :
    Follows o handler (d.onFramePoll b poll) out (n + 1) := by
  cases poll with
  | pending => exact (h.setBody hopen hnone hemit).suspend
  | error => exact h.pipe hopen hnone (some _) hemit
  | finished =>
    cases hheaders : b.headers with
    | none | some parts =>
      simp only [Source.onFramePoll, StreamDriver.onFramePoll, hheaders] at hemit ⊢
      exact h.pipe hopen hnone (some _) hemit
  | frame frame =>
    cases hheaders : b.headers with
    | some parts =>
      simp only [Source.onFramePoll, StreamDriver.onFramePoll, hheaders] at hemit ⊢
      exact h.pipe hopen hnone (some _) hemit
    | none =>
      simp only [Source.onFramePoll, StreamDriver.onFramePoll, hheaders] at hemit ⊢
      cases frame with
      | data data endStream =>
        simp only at hemit ⊢
        split_ifs at hemit ⊢
        · exact h.setBody hopen hnone hemit
        · exact h.pipe hopen hnone (some _) hemit
      | trailers trailers => exact h.pipe hopen hnone (some _) hemit
      | other => exact h.conclude hopen hnone hended hemit (.body b)

theorem pollFrame {b : PipeState} (hended : d.ended = false) (hb : d.state = .body b) :
    Follows o handler (d.pollFrame false b) out (n + 1) := by
  have hsource : d.source.emit o handler =
      if b.bodyEnd then (.done, [.closed]) else Source.onFramePoll b.nextFrame.2 b.nextFrame.1 := by
    rw [StreamDriver.source, hopen, hb]
    rfl
  rw [StreamDriver.pollFrame, Bool.or_false]
  split_ifs at hsource ⊢
  · exact h.conclude hopen hnone hended hsource d.state
  · exact h.onFramePoll hopen hnone hended _ _ hsource

end

theorem pollBody {b : PipeState} (hr : ch.receiver = true) (hended : d.ended = false)
    (hinside : d.inside = true) (hb : d.state = .body b) :
    ∃ said n', (StreamDriver.pollBody false b d ch).2 = ch.append said ∧
      Follows o handler (StreamDriver.pollBody false b d ch).1 (out ++ said) n' ∧
      (ch.fits 1 = true → n' = n + 1) := by
  have hopen := h.inside hinside
  obtain hnone | ⟨msg, hsending⟩ := Option.eq_none_or_eq_some d.sending
  · refine ⟨[], n + 1, ?_⟩
    rw [append_nil, ch.append_nil, StreamDriver.pollBody, hnone]
    exact ⟨rfl, h.pollFrame hopen hnone hended hb, fun _ => rfl⟩
  rw [StreamDriver.pollBody, hsending]
  simp only [MsgChannel.pollSend_eq hr]
  split_ifs with hfits
  · exact ⟨[msg], n + 1, rfl, (h.sent hsending).pollFrame hopen rfl hended hb, fun _ => rfl⟩
  · exact ⟨[], n, ch.append_nil.symm, by rw [append_nil]; exact h.suspend,
      fun hfits' => absurd hfits' hfits⟩

theorem tick (hr : ch.receiver = true) (hfits : d.sendsFit o handler ch = true) :
    ∃ said n', (d.tick o handler false ch).2 = ch.append said ∧
      Follows o handler (d.tick o handler false ch).1 (out ++ said) n' ∧
      (ch.fits 1 = true → d.ended = false → n' = n + d.inside.toNat) := by
  rw [StreamDriver.tick]
  cases hended : d.ended with
  | true => exact ⟨[], n, ch.append_nil.symm, by rwa [append_nil], nofun⟩
  | false =>
    cases hinside : d.inside with
    | false =>
      obtain ⟨said, hch, hout⟩ := h.pollOuter hr hended
      exact ⟨said, n, hch, hout, fun _ _ => rfl⟩
    | true =>
      cases hstate : d.state with
      | service s =>
        rw [sendsFit, hstate, hended, hinside] at hfits
        obtain ⟨said, hch, hout⟩ := h.pollService hr hended hinside hstate (by simpa using hfits)
        exact ⟨said, n + 1, hch, hout, fun _ _ => rfl⟩
      | body b =>
        obtain ⟨said, n', hch, hout, hn'⟩ := h.pollBody hr hended hinside hstate
        exact ⟨said, n', hch, hout, fun hfits' _ => hn' hfits'⟩

end

end Follows

end ZincioHttp.H2
