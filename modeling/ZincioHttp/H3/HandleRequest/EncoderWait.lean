import ZincioHttp.H3.Control.Feedback
import ZincioHttp.H3.HandleRequest
import ZincioHttp.H3.Requests.Polls

/-! Responses before the peer's SETTINGS. Without SETTINGS there is no QPACK encoder. Early
hints and final responses wait for it, and are notified when it is there; a 100 Continue
does not wait, and is rejected. -/

namespace ZincioHttp.H3

open Qpack Lib ControlStreams SharedCodecs RequestTask

/-! ### The encoder stays -/

def SharedCodecs.bound (sh : SharedCodecs) : Bool := sh.encoder.isSome

/-- An encoder that is there is not dropped. -/
def ControlStreams.Keeps (c c' : ControlStreams) : Prop :=
  c.shared.bound = true → c'.shared.bound = true

theorem ControlStreams.Hears.keeps {c c' : ControlStreams} (h : Hears c c') : c.Keeps c' := by
  intro hbound
  rcases h.created with ⟨-, heq⟩ | ⟨-, hsome⟩
  · exact heq.trans hbound
  · exact hsome

theorem Plane.stage_keeps {p p' : Plane} {progressed : Bool} (hf : f ∈ stages)
    (h : f p = .ok (p', progressed)) : p.streams.Keeps p'.streams :=
  stage_streams (fun _ => id) (fun h => h) (fun _ _ => id) (fun _ _ => id)
    (fun h => (place_hears h).keeps)
    (fun h => (handleFrames_hears h).keeps)
    (fun h => (feedEncoderStream_hears h).keeps)
    (fun h hbound => by
      obtain ⟨_, _, rfl, hsome⟩ := feedDecoderStream_ok h
      exact hsome.trans hbound) hf h

theorem Plane.pollRead_keeps {p p' : Plane} {event : Option ControlEvent}
    (h : p.pollRead = .ok (p', event)) : p.streams.Keeps p'.streams :=
  pollRead_rel (fun _ => id)
    (fun h h' hbound => h' (h hbound))
    (fun hpop => by
      obtain ⟨_, rfl⟩ := popEvent_eq hpop
      exact id)
    (fun _ hf _ _ _ hok => stage_keeps hf hok) h

theorem Plane.step_keeps {p p' : Plane} {a : Action} (h : p.step a = .ok p') :
    p.streams.Keeps p'.streams := by
  cases a with
  | openUni | acceptFails err | finish stream =>
    cases h
    exact id
  | deliver stream item =>
    rw [step] at h
    split_ifs at h <;> cases h <;> exact id
  | poll =>
    obtain ⟨event, hpoll⟩ := step_poll h
    exact pollRead_keeps hpoll
  | flush =>
    cases h
    rw [flushDecoder]
    split <;> exact id
  | decode stream block now =>
    rw [step] at h
    split at h <;> cases h
    exact id
  | encode stream lines =>
    cases h
    intro hbound
    exact (encodeHeaders_frame _ stream lines).2.trans hbound

theorem Reader.Touches.bound_eq {r r' : Reader} (h : Touches r r') :
    r'.shared.bound = r.shared.bound := by
  cases h with
  | quiet hshared _ => rw [hshared]
  | finished hshared _ _ =>
    rw [hshared]
    rfl
  | decoded hdecode _ _ _ _ | blocked hdecode _ _ _ =>
    obtain ⟨d, -, hshared⟩ := SharedCodecs.decodeBlock_ok hdecode
    rw [hshared]
    rfl
  | took htake _ _ =>
    obtain ⟨rest, -, hshared⟩ := takeUnblocked_ok htake
    rw [hshared]
    rfl

/-! ### Sending a head -/

namespace Sender

variable {τ : Type} {T : SendHalf τ} {sh : SharedCodecs} {s : Sender τ} {status : ℕ}
  {headers : List Field} {bound final : Bool}

/-- No final head has been sent, and a head that the transport keeps waiting was encoded; it is an
interim one unless it may be `final`. -/
structure Ready (bound final : Bool) (s : Sender τ) : Prop where
  unsent : s.sentHeaders = false
  pending : s.pendingSend = .none ∨ bound = true ∧ ∃ status,
    s.pendingSend = .responseHeaders status ∧ (isInformational status = true ∨ final = true)

theorem ready_new (streamId : ℕ) (stream : τ) : (new streamId stream).Ready bound final :=
  ⟨rfl, .inl rfl⟩

theorem Ready.mono (h : s.Ready bound false) (final : Bool) : s.Ready bound final := by
  refine ⟨h.unsent, h.pending.imp_right ?_⟩
  rintro ⟨hbound, status, hstatus, hinterim⟩
  exact ⟨hbound, status, hstatus, .inl (hinterim.resolve_right nofun)⟩

theorem Ready.bind (h : s.Ready false final) : s.Ready true final := by
  refine ⟨h.unsent, .inl (h.pending.resolve_right ?_)⟩
  rintro ⟨hbound, -⟩
  cases hbound

/-- An encoded head has been given to the transport once more. -/
theorem Ready.settleResponse (hunsent : s.sentHeaders = false)
    (hpending : s.pendingSend = .responseHeaders status)
    (hstatus : isInformational status = true ∨ final = true) (answer : Sent) :
    (final = true ∧ (s.settleResponse answer).2 = .ready (.ok ())) ∨
      (s.settleResponse answer).1.Ready true final := by
  have hkept : s.Ready true final := ⟨hunsent, .inr ⟨rfl, status, hpending, hstatus⟩⟩
  cases answer with
  | ready =>
    rcases hstatus with hinterim | hfinal
    · exact .inr ⟨by simp [Sender.settleResponse, hpending, hunsent, hinterim], .inl rfl⟩
    · exact .inl ⟨hfinal, rfl⟩
  | pending => exact .inr hkept
  | failed err => exact .inr hkept

theorem pollSendResponse_bound (T : SendHalf τ) (sh : SharedCodecs) (s : Sender τ) (status : ℕ)
    (headers : List Field) : (s.pollSendResponse T sh status headers).1.bound = sh.bound := by
  rw [pollSendResponse]
  split
  · rfl
  · split
    · rfl
    · split
      · rfl
      · have hframe := (sh.encodeHeaders_frame s.streamId
          (⟨octets ":status", statusText status⟩ :: headers)).2
        split
        · next heq => rw [heq] at hframe; exact hframe
        · next heq => rw [heq] at hframe; exact hframe
    · rfl

theorem pollSendTrailers_bound (T : SendHalf τ) (sh : SharedCodecs) (s : Sender τ)
    (trailers : List Field) : (s.pollSendTrailers T sh trailers).1.bound = sh.bound := by
  rw [pollSendTrailers]
  split
  · rfl
  · split
    · rfl
    · split
      · rfl
      · have hframe := (sh.encodeHeaders_frame s.streamId trailers).2
        split
        · next heq => rw [heq] at hframe; exact hframe
        · next heq =>
          rw [heq] at hframe
          dsimp only
          split <;> exact hframe
    · rfl

theorem Ready.pollSendResponse_unbound (h : s.Ready sh.bound final) (hunbound : sh.bound = false) :
    s.pollSendResponse T sh status headers = (sh, s, .ready (.error .message)) := by
  have hnone : sh.encoder = none := by simpa [bound] using hunbound
  have hpending : s.pendingSend = .none := h.pending.resolve_right fun hb => by
    rw [hunbound] at hb
    cases hb.1
  simp [pollSendResponse, hpending, encodeHeaders, encodeSection, hnone]

/-- A poll of a head leaves the sender ready for another, unless the final one has been sent. -/
theorem Ready.pollSendResponse (h : s.Ready sh.bound final)
    (hstatus : isInformational status = true ∨ final = true) :
    (final = true ∧ (s.pollSendResponse T sh status headers).2.2 = .ready (.ok ())) ∨
      (s.pollSendResponse T sh status headers).2.1.Ready sh.bound final := by
  have hfirst : ¬(s.sentHeaders && !isInformational status) = true := by simp [h.unsent]
  rw [Sender.pollSendResponse, if_neg hfirst]
  rcases h.pending with hnone | ⟨hbound, waiting, hwaiting, hkind⟩
  · rw [hnone]
    dsimp only
    split
    · exact .inr h
    · split
      · exact .inr h
      · next heq =>
        have hbound : sh.bound = true := by
          by_contra hunbound
          have hencoder : sh.encoder = none := by simpa [bound] using hunbound
          rw [encodeHeaders, encodeSection, hencoder] at heq
          cases heq
        rw [hbound]
        exact Ready.settleResponse (s := (pollWriteParts T
          { s with pendingSend := .responseHeaders status } _ _).1) h.unsent rfl hstatus _
  · rw [hwaiting, hbound]
    exact Ready.settleResponse (s := (s.pollWrite T []).1) h.unsent hwaiting hkind _

end Sender

/-! ### The task -/

/-- The head ends the interim responses. -/
def Head.isFinal : Head → Bool
  | .final _ => true
  | _ => false

theorem Head.informational_or_final (head : Head) :
    isInformational head.status = true ∨ head.isFinal = true := by
  cases head with
  | final r => exact .inr rfl
  | _ => exact .inl rfl

namespace RequestTask

variable {τ : Type} {T : QuicStream τ} {t : RequestTask τ} {bound : Bool} {sh : SharedCodecs}

/-- What is known of a task in each of its phases, given whether there is an encoder. A task that
waits for the encoder has been notified of one. -/
def Sound (bound : Bool) (t : RequestTask τ) : Prop :=
  match t.phase with
  | .reading => t.sender.Ready bound false ∧ t.stream.marks.Sane
  | .service _ | .awaitEncoder _ _ => t.sender.Ready bound false
  | .parked _ _ notified => t.sender.Ready bound false ∧ (notified = false → bound = false)
  | .sending _ head => t.sender.Ready bound head.isFinal ∧ (head.waits = true → bound = true)
  | .piping _ _ | .sendingData _ _ _ | .sendingTrailers _ => bound = true
  | _ => True

/-- The task is not about to send a 100 Continue without an encoder. -/
def timely (bound : Bool) (t : RequestTask τ) : Bool :=
  match t.phase with
  | .sending _ head => head.waits || bound
  | _ => true

theorem Sound.notify (h : t.Sound false) : t.notify.Sound true := by
  unfold Sound at h
  cases hphase : t.phase with
  | reading =>
    rw [hphase] at h
    simp only [RequestTask.notify, Sound, hphase]
    exact ⟨h.1.bind, h.2⟩
  | service s | awaitEncoder s head =>
    rw [hphase] at h
    simp only [RequestTask.notify, Sound, hphase]
    exact h.bind
  | parked s head notified =>
    rw [hphase] at h
    simp only [RequestTask.notify, hphase]
    exact ⟨h.1.bind, nofun⟩
  | sending s head =>
    rw [hphase] at h
    simp only [RequestTask.notify, Sound, hphase]
    exact ⟨h.1.bind, fun _ => trivial⟩
  | piping frames polls | sendingData frames polls data | sendingTrailers trailers
  | resetting | stopSending | finishing | stopping | aborting cause | upgraded | ended cause =>
    simp [RequestTask.notify, Sound, hphase]

/-- What a tick does to a task, as far as the encoder is concerned. -/
structure Ticked (sh : SharedCodecs) (t : RequestTask τ) (r : SharedCodecs × RequestTask τ) :
    Prop where
  bound_eq : r.1.bound = sh.bound
  sound : r.2.Sound sh.bound
  unbound_eq : r.2.unbound = (t.unbound || !t.timely sh.bound)

theorem Ticked.of_timely {r : SharedCodecs × RequestTask τ} (htimely : t.timely sh.bound = true)
    (hbound : r.1.bound = sh.bound) (hsound : r.2.Sound sh.bound)
    (hunbound : r.2.unbound = t.unbound) :
    Ticked sh t r :=
  ⟨hbound, hsound, by rw [hunbound, htimely, Bool.not_true, Bool.or_false]⟩

theorem sound_refuse (t : RequestTask τ) (err : StreamError) : (t.refuse err).Sound bound := by
  rw [refuse]
  split_ifs <;> trivial

theorem unbound_refuse (t : RequestTask τ) (err : StreamError) :
    (t.refuse err).unbound = t.unbound := by
  rw [refuse]
  split_ifs <;> rfl

theorem pollReading_ticked (http : HttpCrate) (now : ℕ) (hphase : t.phase = .reading)
    (h : t.sender.Ready sh.bound false) (hsane : t.stream.marks.Sane) :
    Ticked sh t (t.pollReading http now sh) := by
  have htouches : Reader.Touches ⟨t.stream, t.inbox, sh⟩
      (Reader.pollHeaders http now ⟨t.stream, t.inbox, sh⟩).1 :=
        Reader.pollHeaders_touches hsane rfl
  have hbound := htouches.bound_eq
  have htimely : t.timely sh.bound = true := by rw [timely, hphase]
  have hstay : ∀ {stream : RequestStream}, stream.marks.Sane → ∀ inbox,
      ({ t with stream := stream, inbox := inbox } : RequestTask τ).Sound sh.bound := by
    intro stream hsane inbox
    simp only [hphase]
    exact ⟨h, hsane⟩
  rw [pollReading]
  dsimp only
  split
  · exact .of_timely htimely hbound (hstay (htouches.sane hsane) _) rfl
  · exact .of_timely htimely hbound (hstay (htouches.sane hsane) _) rfl
  · exact .of_timely htimely hbound h rfl
  · exact .of_timely htimely hbound trivial rfl
  · exact .of_timely htimely hbound (sound_refuse _ _) (unbound_refuse _ _)

section
variable (o : TaskOptions) (handler : Handler) (now : ℕ) (s : ServiceState)

theorem pollService_sound (h : t.sender.Ready bound false) :
    (t.pollService o handler now s).Sound bound := by
  rw [pollService]
  split
  · rw [respond]
    split
    · exact ⟨h, nofun⟩
    · exact h
  · trivial
  · rw [wait]
    split
    · exact h
    · split
      · exact h
      · split
        · exact h
        · split
          · exact ⟨h, nofun⟩
          · exact h

theorem pollService_unbound : (t.pollService o handler now s).unbound = t.unbound := by
  rw [pollService]
  split
  · rw [respond]
    split <;> rfl
  · rfl
  · rw [wait]
    split
    · rfl
    · split
      · rfl
      · split
        · rfl
        · split <;> rfl

end

section
variable (s : ServiceState)

theorem lookForEncoder_sound (head : Head) (h : t.sender.Ready sh.bound false) :
    (t.lookForEncoder sh s head).Sound sh.bound := by
  rw [lookForEncoder]
  split
  · next hbound => exact ⟨h.mono _, fun _ => hbound⟩
  · next hunbound => exact ⟨h, fun _ => by simpa [bound] using hunbound⟩

theorem lookForEncoder_unbound (head : Head) :
    (t.lookForEncoder sh s head).unbound = t.unbound := by
  rw [lookForEncoder]
  split <;> rfl

theorem onSent_sound {head : Head} {result : Except StreamError Unit}
    (h : (head.isFinal = true ∧ result = .ok ()) ∨ t.sender.Ready true head.isFinal) :
    (t.onSent s head result).Sound true := by
  cases head with
  | earlyHints headers => exact h.resolve_left (by simp [Head.isFinal])
  | continueRead | continueFirst r =>
    cases result with
    | ok _ => exact h.resolve_left (by simp [Head.isFinal])
    | error err => trivial
  | final r =>
    cases result with
    | ok _ =>
      rw [onSent, afterHead]
      split
      · trivial
      · split
        · rfl
        · trivial
    | error err => trivial

theorem onSent_unbound (head : Head) (result : Except StreamError Unit) :
    (t.onSent s head result).unbound = t.unbound := by
  rcases head with _ | _ | _ | r <;> rcases result with _ | _ <;> try rfl
  rw [onSent, afterHead]
  split
  · rfl
  · split <;> rfl

end

theorem noteResult_of_bound (hbound : sh.bound = true) (result : Except StreamError Unit) :
    t.noteResult sh result = t := by
  have hsome : sh.encoder.isNone = false := by
    rw [bound] at hbound
    simpa using hbound
  rw [noteResult, hsome, Bool.false_and, Bool.or_false]

theorem pollSending_ticked {s : ServiceState} {head : Head} (hphase : t.phase = .sending s head)
    (h : t.sender.Ready sh.bound head.isFinal) (hwaits : head.waits = true → sh.bound = true) :
    Ticked sh t (t.pollSending T sh s head) := by
  have htimely : t.timely sh.bound = (head.waits || sh.bound) := by rw [timely, hphase]
  have hframe := Sender.pollSendResponse_bound T.toSendHalf sh t.sender head.status head.headers
  cases hbound : sh.bound with
  | false =>
    have hinterim : head.waits = false := by
      rw [Bool.eq_false_iff]
      intro hw
      rw [hwaits hw] at hbound
      cases hbound
    have hnone : sh.encoder.isNone = true := by simpa [bound] using hbound
    rw [pollSending, h.pollSendResponse_unbound hbound]
    refine ⟨rfl, ?_, ?_⟩
    · cases head <;> trivial
    · rw [onSent_unbound, htimely, hinterim, hbound, noteResult, hnone]
      rfl
  | true =>
    have hready : _ ∨
        (t.sender.pollSendResponse T.toSendHalf sh head.status head.headers).2.1.Ready _ _ :=
      h.pollSendResponse head.informational_or_final
    rw [pollSending]
    generalize t.sender.pollSendResponse T.toSendHalf sh head.status head.headers = r
      at hframe hready
    obtain ⟨sh', sender, result⟩ := r
    have ht : t.timely sh.bound = true := by rw [htimely, hbound, Bool.or_true]
    rw [hbound] at hready
    dsimp only at hready ⊢
    split
    · next result =>
      refine .of_timely ht hframe ?_ (by rw [onSent_unbound, noteResult_of_bound hbound])
      rw [hbound]
      refine onSent_sound s (hready.imp_left fun ⟨hfinal, hok⟩ => ⟨hfinal, ?_⟩)
      exact Polled.ready.inj hok
    · refine .of_timely ht hframe ?_ rfl
      simp only [hphase]
      exact ⟨hbound ▸ hready.resolve_left (by simp), fun _ => hbound⟩
    · refine .of_timely ht hframe ?_ rfl
      simp only [hphase]
      exact ⟨hbound ▸ hready.resolve_left (by simp), fun _ => hbound⟩

theorem pollPiping_sound (frames : ℕ → FramePoll) (polls : ℕ) :
    (t.pollPiping frames polls).Sound true := by
  rw [pollPiping]
  split
  · rfl
  · split <;> rfl
  all_goals trivial

theorem pollPiping_unbound (frames : ℕ → FramePoll) (polls : ℕ) :
    (t.pollPiping frames polls).unbound = t.unbound := by
  rw [pollPiping]
  split
  · rfl
  · split <;> rfl
  all_goals rfl

theorem pollSendingTrailers_ticked {trailers : List Field}
    (hphase : t.phase = .sendingTrailers trailers)
    (hbound : sh.bound = true) : Ticked sh t (t.pollSendingTrailers T sh trailers) := by
  have htimely : t.timely sh.bound = true := by rw [timely, hphase]
  have hframe := Sender.pollSendTrailers_bound T.toSendHalf sh t.sender trailers
  rw [pollSendingTrailers]
  generalize t.sender.pollSendTrailers T.toSendHalf sh trailers = r at hframe
  dsimp only
  split
  · exact .of_timely htimely hframe trivial rfl
  · refine .of_timely htimely hframe trivial ?_
    rw [noteResult_of_bound hbound]
    rfl
  all_goals
    refine .of_timely htimely hframe ?_ rfl
    simp only [hphase]
    exact hbound

theorem pollSendingData_sound {frames : ℕ → FramePoll} {polls : ℕ} {data : Octets}
    (hphase : t.phase = .sendingData frames polls data) :
    (t.pollSendingData T frames polls data).Sound true := by
  rw [pollSendingData]
  dsimp only
  split
  · rfl
  · trivial
  all_goals simp [Sound, hphase]

theorem pollSendingData_unbound (frames : ℕ → FramePoll) (polls : ℕ) (data : Octets) :
    (t.pollSendingData T frames polls data).unbound = t.unbound := by
  rw [pollSendingData]
  dsimp only
  split <;> rfl

theorem pollFinishing_sound (hphase : t.phase = .finishing) : (t.pollFinishing T).Sound bound := by
  rw [pollFinishing]
  dsimp only
  split
  · trivial
  all_goals simp [Sound, hphase]

theorem pollFinishing_unbound : (t.pollFinishing T).unbound = t.unbound := by
  rw [pollFinishing]
  dsimp only
  split <;> rfl

/-- Before and after an operation of the stream nothing need be known. -/
theorem pollOperation_ticked (op : τ → τ × Sent) {next : TaskPhase}
    (htimely : t.timely sh.bound = true)
    (hstay : ∀ sender, ({ t with sender := sender } : RequestTask τ).Sound sh.bound)
    (hnext : ∀ sender, (({ t with sender := sender } : RequestTask τ).enter next).Sound sh.bound) :
    Ticked sh t (sh, t.pollOperation op next) := by
  rw [pollOperation]
  dsimp only
  split
  · exact .of_timely htimely rfl (hstay _) rfl
  all_goals exact .of_timely htimely rfl (hnext _) rfl

theorem tick_ticked (http : HttpCrate) (o : TaskOptions) (handler : Handler) (now : ℕ)
    (h : t.Sound sh.bound) : Ticked sh t (t.tick T http o handler now sh) := by
  have hsound := h
  unfold Sound at h
  unfold tick
  cases hphase : t.phase with
  | reading =>
    rw [hphase] at h
    exact pollReading_ticked http now hphase h.1 h.2
  | service s =>
    rw [hphase] at h
    exact .of_timely (by rw [timely, hphase]) rfl (pollService_sound o handler now s h)
      (pollService_unbound o handler now s)
  | awaitEncoder s head =>
    rw [hphase] at h
    exact .of_timely (by rw [timely, hphase]) rfl (lookForEncoder_sound s head h)
      (lookForEncoder_unbound s head)
  | parked s head notified =>
    rw [hphase] at h
    dsimp only
    split
    · exact .of_timely (by rw [timely, hphase]) rfl (lookForEncoder_sound s head h.1)
        (lookForEncoder_unbound s head)
    · exact .of_timely (by rw [timely, hphase]) rfl hsound rfl
  | sending s head =>
    rw [hphase] at h
    exact pollSending_ticked hphase h.1 h.2
  | piping frames polls =>
    rw [hphase] at h
    exact .of_timely (by rw [timely, hphase]) rfl (h ▸ pollPiping_sound frames polls)
      (pollPiping_unbound frames polls)
  | sendingData frames polls data =>
    rw [hphase] at h
    exact .of_timely (by rw [timely, hphase]) rfl (h ▸ pollSendingData_sound hphase)
      (pollSendingData_unbound frames polls data)
  | sendingTrailers trailers =>
    rw [hphase] at h
    exact pollSendingTrailers_ticked hphase h
  | finishing =>
    exact .of_timely (by rw [timely, hphase]) rfl (pollFinishing_sound hphase) pollFinishing_unbound
  | resetting | stopSending | stopping | aborting cause =>
    exact pollOperation_ticked _ (by rw [timely, hphase]) (fun _ => by simp only [Sound, hphase])
      fun _ => trivial
  | upgraded | ended cause => exact .of_timely (by rw [timely, hphase]) rfl hsound rfl

end RequestTask

/-! ### The connection -/

namespace Serving

variable {τ : Type} {T : QuicStream τ} {http : HttpCrate} {o : TaskOptions} {handler : ℕ → Handler}
  {c c' : Serving τ}

def Sound (c : Serving τ) : Prop := ∀ stream t, c.tasks stream = some t → t.Sound c.shared.bound

/-- No field section has been rejected for want of an encoder. -/
def Unharmed (c : Serving τ) : Prop := ∀ stream t, c.tasks stream = some t → t.unbound = false

/-- The task that is polled is not about to send a 100 Continue before SETTINGS have come. -/
def timely (c : Serving τ) : Action τ → Bool
  | .tick stream _ => (c.tasks stream).all fun t => t.timely c.shared.bound
  | _ => true

theorem sound_start (settings : LocalSettings) : (start settings : Serving τ).Sound := by
  intro stream t ht
  simp [start] at ht

theorem unharmed_start (settings : LocalSettings) : (start settings : Serving τ).Unharmed := by
  intro stream t ht
  simp [start] at ht

@[simp] theorem setTask_self (c : Serving τ) (stream : ℕ) (t : RequestTask τ) :
    (c.setTask stream t).tasks stream = some t :=
  Function.update_self _ _ _

theorem setTask_of_ne {stream other : ℕ} (h : other ≠ stream) (t : RequestTask τ) :
    (c.setTask stream t).tasks other = c.tasks other :=
  Function.update_of_ne h _ _

theorem Sound.setTask (h : c.Sound) {stream : ℕ} {t : RequestTask τ} (ht : t.Sound c.shared.bound) :
    (c.setTask stream t).Sound := by
  intro other u hu
  by_cases heq : other = stream
  · subst heq
    rw [setTask_self] at hu
    cases hu
    exact ht
  · rw [setTask_of_ne heq] at hu
    exact h other u hu

/-- Setting a task keeps the connection unharmed as long as it notes nothing new. -/
theorem unharmed_setTask_iff {stream : ℕ} {t : RequestTask τ} {b : Bool}
    (hnote : t.unbound = ((c.tasks stream).any unbound || b)) :
    (c.setTask stream t).Unharmed ↔ c.Unharmed ∧ b = false := by
  constructor
  · intro h
    have hboth : (c.tasks stream).any unbound = false ∧ b = false := by
      rw [← Bool.or_eq_false_iff, ← hnote]
      exact h stream t (setTask_self c stream t)
    refine ⟨fun other u hu => ?_, hboth.2⟩
    by_cases heq : other = stream
    · subst heq
      rw [hu] at hboth
      exact hboth.1
    · exact h other u ((setTask_of_ne heq t).trans hu)
  · rintro ⟨h, rfl⟩ other u hu
    by_cases heq : other = stream
    · subst heq
      rw [setTask_self] at hu
      cases hu
      rw [hnote, Bool.or_false]
      cases ht : c.tasks other with
      | none => rfl
      | some old => exact h other old ht
    · exact h other u ((setTask_of_ne heq t).symm.trans hu)

theorem Sound.plane (h : c.Sound) {p : Plane} (hkeeps : c.plane.streams.Keeps p.streams) :
    (notifyWaiters c.shared { c with plane := p }).Sound := by
  rw [notifyWaiters]
  split
  · next hcreated =>
    rw [Bool.and_eq_true] at hcreated
    have hbefore : c.shared.bound = false := by simpa [bound] using hcreated.1
    intro stream t ht
    obtain ⟨u, hu, rfl⟩ := Option.map_eq_some_iff.1 ht
    have hafter : (shared { c with plane := p }).bound = true := hcreated.2
    have hnotified := (hbefore ▸ h stream u hu).notify
    rw [← hafter] at hnotified
    exact hnotified
  · next hsame =>
    have heq : p.streams.shared.bound = c.shared.bound := by
      cases hbefore : c.shared.bound with
      | true => exact hkeeps hbefore
      | false =>
        rw [bound, Option.isSome_eq_false_iff] at hbefore
        rw [hbefore] at hsame
        exact Bool.eq_false_iff.2 hsame
    intro stream t ht
    have hsound := h stream t ht
    rw [← heq] at hsound
    exact hsound

theorem notify_unbound (t : RequestTask τ) : t.notify.unbound = t.unbound := by
  rw [notify]
  split <;> rfl

theorem unharmed_notifyWaiters_iff (before : SharedCodecs) (p : Plane) :
    (notifyWaiters before { c with plane := p }).Unharmed ↔ c.Unharmed := by
  rw [notifyWaiters]
  split
  · constructor
    · intro h stream t ht
      rw [← notify_unbound]
      refine h stream t.notify ?_
      dsimp only
      rw [ht]
      rfl
    · intro h stream t ht
      obtain ⟨u, hu, rfl⟩ := Option.map_eq_some_iff.1 ht
      rw [notify_unbound]
      exact h stream u hu
  · exact .rfl

/-- What one step does: tasks stay sound, and a field section is rejected for want of an encoder
exactly if a 100 Continue was about to be sent without one. -/
theorem step_sound {a : Action τ} (h : c.Sound) (hstep : c.step T http o handler a = .ok c') :
    c'.Sound ∧ (c'.Unharmed ↔ c.Unharmed ∧ c.timely a = true) := by
  cases a with
  | plane a =>
    rw [step] at hstep
    cases hplane : c.plane.step a with
    | error err => rw [hplane] at hstep; cases hstep
    | ok p =>
      rw [hplane] at hstep
      cases hstep
      refine ⟨h.plane (Plane.step_keeps hplane), ?_⟩
      rw [unharmed_notifyWaiters_iff]
      simp [timely]
  | accept stream transport =>
    rw [step] at hstep
    split at hstep
    · cases hstep
      exact ⟨h, by simp [timely]⟩
    · next hnone =>
      cases hstep
      refine ⟨h.setTask ⟨Sender.ready_new _ _, RequestStream.sane_new _ _⟩, ?_⟩
      rw [unharmed_setTask_iff (b := false) (by rw [hnone]; rfl)]
      simp [timely]
  | deliver stream item =>
    rw [step] at hstep
    split at hstep
    · cases hstep
      exact ⟨h, by simp [timely]⟩
    · next t ht =>
      cases hstep
      refine ⟨h.setTask (h stream t ht), ?_⟩
      rw [unharmed_setTask_iff (by rw [ht]; exact (Bool.or_false _).symm)]
      simp [timely]
  | tick stream now =>
    rw [step] at hstep
    split at hstep
    · next hnone =>
      cases hstep
      exact ⟨h, by simp [timely, hnone]⟩
    · next t ht =>
      have hticked := tick_ticked (T := T) http o (handler stream) now (h stream t ht)
      generalize t.tick T http o (handler stream) now c.shared = r at hstep hticked
      obtain ⟨sh, t'⟩ := r
      cases hstep
      have hbound : sh.bound = c.shared.bound := hticked.bound_eq
      refine ⟨?_, ?_⟩
      · have hsound : Sound { c with plane := c.plane.setShared sh } := by
          intro other u hu
          have hother := h other u hu
          rw [← hbound] at hother
          exact hother
        refine hsound.setTask ?_
        have hnew := hticked.sound
        rw [← hbound] at hnew
        exact hnew
      · rw [unharmed_setTask_iff (by dsimp only; rw [ht]; exact hticked.unbound_eq)]
        simp [timely, ht, Unharmed]

theorem run_sound (actions : List (Action τ)) : ∀ {c : Serving τ}, c.Sound →
    run T http o handler actions c = .ok c' → c'.Sound ∧ (c'.Unharmed ↔ c.Unharmed ∧
      Along (step T http o handler) (fun c a => c.timely a = true) c actions) := by
  induction actions with
  | nil =>
    intro c h hrun
    cases hrun
    exact ⟨h, (and_iff_left trivial).symm⟩
  | cons a actions ih =>
    intro c h hrun
    obtain ⟨d, hstep, hrest⟩ := foldlM_cons_eq_ok.1 hrun
    obtain ⟨hd, hiff⟩ := step_sound h hstep
    obtain ⟨hc', hrestiff⟩ := ih hd hrest
    refine ⟨hc', ?_⟩
    rw [hrestiff, hiff, and_assoc, Along]
    simp [hstep]

/-- For every handler, every transport and every interleaving of the control stream with the request
streams: no response is rejected for want of an encoder if and only if there is one whenever a
100 Continue is polled. Whoever waits for the encoder while it is there has been notified. -/
theorem run_unharmed_iff (T : QuicStream τ) (http : HttpCrate) (o : TaskOptions)
    (handler : ℕ → Handler) (settings : LocalSettings) (actions : List (Action τ))
    (hrun : run T http o handler actions (start settings) = .ok c) :
    (c.Unharmed ↔
        Along (step T http o handler) (fun c a => c.timely a = true) (start settings) actions) ∧
      ∀ stream t s head, c.tasks stream = some t → t.phase = .parked s head false →
        c.shared.bound = false := by
  obtain ⟨hsound, hiff⟩ := run_sound actions (sound_start settings) hrun
  refine ⟨hiff.trans (and_iff_right (unharmed_start settings)), ?_⟩
  intro stream t s head ht hphase
  have hparked := hsound stream t ht
  rw [RequestTask.Sound, hphase] at hparked
  exact hparked.2 rfl

/-! ### A request that expects a 100 Continue -/

def obliging : QuicStream Unit where
  pollSend _ _ := ((), .ready)
  pollFinish _ := ((), .ready)
  pollReset _ _ := ((), .ready)
  pollStopSending _ _ := ((), .ready)
  pollStopped _ := ((), .ready)

/-- A handler that waits for the request body. -/
def readsBody : Handler := fun _ _ => ⟨[], true, false, none⟩

/-- A POST request with `expect: 100-continue`, as far as its HEADERS frame. -/
def expectingHeaders : Octets :=
  [0x01, 0x1c, 0x00, 0x00, 0xd4, 0xd7, 0xc1, 0x50, 0x01, 0x61] ++
    (0x26 :: octets "expect") ++ (0x0c :: octets "100-continue")

/-- The request comes, and its task is polled until it has sent the 100 Continue. -/
def expecting : List (Action Unit) :=
  [.accept 0 (), .deliver 0 (.chunk expectingHeaders), .tick 0 0, .tick 0 0, .tick 0 0]

/-- The peer opens its control stream and sends SETTINGS. -/
def settle : List (Action Unit) :=
  [.plane .openUni, .plane (.deliver 0 (.chunk [0x00, 0x04, 0x00])), .plane .poll]

/-- SETTINGS come first. -/
theorem run_unharmed_settled :
    ∃ c, run obliging .permissive ⟨true, fun _ => none⟩ (fun _ => readsBody) (settle ++ expecting)
      (start {}) = .ok c ∧ c.Unharmed := by
  refine exists_ok_and (fun _ => ()) () (by decide +kernel) fun c hrun _ => ?_
  exact (run_unharmed_iff _ _ _ _ _ _ hrun).1.2 (by decide +kernel)

/-- Why the task is cut short. -/
def cause (c : Serving Unit) (stream : ℕ) : Option Cause :=
  match (c.tasks stream).map RequestTask.phase with
  | some (.aborting cause) => some cause
  | some (.ended cause) => cause
  | _ => none

/-- The request overtakes SETTINGS: its stream is reset for want of an encoder, and SETTINGS come
too late. -/
theorem run_harmed :
    ∃ c, run obliging .permissive ⟨true, fun _ => none⟩ (fun _ => readsBody) (expecting ++ settle)
      (start {}) = .ok c ∧
        c.cause 0 = some (.send .message) ∧ c.shared.bound = true ∧ ¬c.Unharmed := by
  refine exists_ok_and (fun c => (c.cause 0, c.shared.bound, (c.tasks 0).map RequestTask.unbound))
    (some (.send .message), true, some true) (by decide +kernel) fun c _ h => ?_
  simp only [Prod.mk.injEq, Option.map_eq_some_iff] at h
  obtain ⟨hcause, hbound, t, ht, hunbound⟩ := h
  refine ⟨hcause, hbound, fun hunharmed => ?_⟩
  rw [hunharmed 0 t ht] at hunbound
  cases hunbound

end Serving

end ZincioHttp.H3
