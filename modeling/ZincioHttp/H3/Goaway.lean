import ZincioHttp.H3.Driver

/-! What a GOAWAY promises: the request streams below its identifier are the ones
that may have been handled, all others are rejected. The driver announces the
largest identifier it has accepted, not the next one, and lets exactly that stream
in; so the promise is kept only if there was no request before the GOAWAY and none
comes on the announced stream. -/

namespace ZincioHttp.H3

open Qpack Lib List ControlStreams

namespace ControlStreams

variable {c c' : ControlStreams} {data : Octets}

theorem handleFrames_goaway {fuel : ℕ} {progressed : Bool}
    (h : c.handleFrames fuel = .ok (c', progressed)) : c'.goawaySent = c.goawaySent := by
  exact handleFrames_rel (R := fun c c' => c'.goawaySent = c.goawaySent) (fun _ => rfl)
    (fun h h' => h'.trans h) (fun _ _ => rfl) (fun h => (handleControlFrame_settled h).goaway_eq)
    fuel h

theorem place_goaway {stream ty : ℕ} {leftover : Octets} (h : c.place stream ty leftover = .ok c') :
    c'.goawaySent = c.goawaySent := by
  cases place_ok h with
  | control | discard => rfl
  | encoder _ hfed =>
    exact hfed.elim (fun h => h ▸ rfl) fun h => (feedEncoderStream_settled h).goaway_eq
  | decoder _ hchecked =>
    rcases hchecked with rfl | hchecked
    · rfl
    · obtain ⟨_, rfl⟩ := checkDecoderStream_ok hchecked
      rfl

theorem pollFlush_goaway (c : ControlStreams) (answers : List Sent) :
    (c.pollFlush answers).1.goawaySent = c.goawaySent := by
  unfold pollFlush
  split
  · dsimp only
    split <;> rfl
  · rfl

end ControlStreams

variable {a : Action}

namespace Plane

variable {p p' : Plane}

theorem pollRead_goaway {event : Option ControlEvent} (h : p.pollRead = .ok (p', event)) :
    p'.streams.goawaySent = p.streams.goawaySent :=
  pollRead_rel (R := fun p p' => p'.streams.goawaySent = p.streams.goawaySent) (fun _ => rfl)
    (fun h h' => h'.trans h)
    (fun hpop => by
      obtain ⟨_, rfl⟩ := popEvent_eq hpop
      rfl)
    (fun _ hf _ _ _ => stage_streams (R := fun c c' => c'.goawaySent = c.goawaySent)
      (fun _ => rfl) (fun h => h) (fun _ _ => rfl) (fun _ _ => rfl) place_goaway
      handleFrames_goaway (fun h => (feedEncoderStream_settled h).goaway_eq)
      (fun h => (feedDecoderStream_settled h).goaway_eq) hf) h

theorem step_goaway (h : p.step a = .ok p') : p'.streams.goawaySent = p.streams.goawaySent := by
  cases a with
  | openUni | acceptFails err | encode stream lines | finish stream => cases h; rfl
  | deliver stream item =>
    rw [step] at h
    split_ifs at h <;> cases h <;> rfl
  | poll =>
    obtain ⟨event, hpoll⟩ := step_poll h
    exact pollRead_goaway hpoll
  | flush =>
    cases h
    unfold flushDecoder
    split <;> rfl
  | decode stream block now =>
    rw [step] at h
    split at h
    · cases h
    · cases h
      rfl

end Plane

/-- After the announcement and before the end of the turn. -/
def Phase.late (phase : Phase) : Prop := phase = .drain ∨ phase = .accept

namespace Driver

variable {d d' : Driver} {closed : Option (Except TransportError Unit)}

/-- The promise: what was handed to the handler is below the announced identifier,
and what is not below it was rejected. -/
def Honours (d : Driver) : Prop := ∀ last, d.goawaySent = some last →
  (∀ id ∈ d.handled, id < last) ∧
    ∀ id ∈ d.accepted, last ≤ id → (id, ErrorCode.requestRejected.code) ∈ d.rejected

/-- The GOAWAY is queued before the first request is accepted, and no request comes
on the stream it names. -/
def Clear (d : Driver) : Action → Prop
  | .announce _ => d.phase = .announce → d.shutdown → d.closingWith = none →
    d.goawaySent = none → d.accepted = []
  | .accept (.stream id) => d.phase = .accept → d.goawaySent ≠ some id
  | _ => True

/-! ### Bookkeeping -/

/-- The numbers behind the announcement. -/
structure Tally (d : Driver) : Prop where
  last : d.lastRequestId ∈ d.accepted ∨ (d.accepted = [] ∧ d.lastRequestId = 0)
  decided : d.goawaySent.isSome → d.shutdown
  late : d.phase.late → d.shutdown → d.goawaySent.isSome
  all : d.goawaySent = none → d.handled = d.accepted

theorem tally_start (settings : LocalSettings) (acceptTimeout : Bool) :
    (start settings acceptTimeout).Tally where
  last := .inr ⟨rfl, rfl⟩
  decided := by simp [goawaySent, start, Plane.start, ControlStreams.new]
  late := by simp [start]
  all := fun _ => rfl

/-- What a phase that neither announces nor accepts leaves alone. -/
structure Aside (d d' : Driver) : Prop where
  goaway_eq : d'.goawaySent = d.goawaySent
  accepted_eq : d'.accepted = d.accepted
  handled_eq : d'.handled = d.handled
  rejected_eq : d'.rejected = d.rejected
  last_eq : d'.lastRequestId = d.lastRequestId
  shutdown_mono : d.shutdown → d'.shutdown
  late : d'.phase.late → d'.shutdown → d.phase.late ∧ d.shutdown

theorem Aside.refl (d : Driver) : Aside d d := ⟨rfl, rfl, rfl, rfl, rfl, id, And.intro⟩

theorem Aside.tally (h : Aside d d') (hd : d.Tally) : d'.Tally := by
  refine ⟨?_, fun hsome => ?_, fun hlate hshutdown => ?_, fun hnone => ?_⟩
  · rw [h.last_eq, h.accepted_eq]
    exact hd.last
  · rw [h.goaway_eq] at hsome
    exact h.shutdown_mono (hd.decided hsome)
  · obtain ⟨hlate, hshutdown⟩ := h.late hlate hshutdown
    rw [h.goaway_eq]
    exact hd.late hlate hshutdown
  · rw [h.goaway_eq] at hnone
    rw [h.handled_eq, h.accepted_eq]
    exact hd.all hnone

theorem Aside.honours (h : Aside d d') (hd : d.Honours) : d'.Honours := by
  unfold Honours
  rw [h.goaway_eq, h.accepted_eq, h.handled_eq, h.rejected_eq]
  exact hd

theorem Aside.trans {d₁ d₂ d₃ : Driver} (h : Aside d₁ d₂) (h' : Aside d₂ d₃) : Aside d₁ d₃ where
  goaway_eq := h'.goaway_eq.trans h.goaway_eq
  accepted_eq := h'.accepted_eq.trans h.accepted_eq
  handled_eq := h'.handled_eq.trans h.handled_eq
  rejected_eq := h'.rejected_eq.trans h.rejected_eq
  last_eq := h'.last_eq.trans h.last_eq
  shutdown_mono := h'.shutdown_mono ∘ h.shutdown_mono
  late hlate hshutdown :=
    have ⟨hlate, hshutdown⟩ := h'.late hlate hshutdown
    h.late hlate hshutdown

theorem takeCloseCode_aside (hearly : ¬ d.phase.late) : Aside d d.takeCloseCode := by
  unfold takeCloseCode
  split
  · exact ⟨rfl, rfl, rfl, rfl, rfl, fun _ => rfl, fun h _ => absurd h hearly⟩
  · exact ⟨rfl, rfl, rfl, rfl, rfl, id, fun h _ => absurd h hearly⟩

theorem trigger_aside (d : Driver) (cancelFired timeoutFired : Bool) :
    Aside d (d.trigger cancelFired timeoutFired) := by
  have hearly : ¬ Phase.flush.late := by simp [Phase.late]
  unfold trigger
  split_ifs with hshutdown
  · exact ⟨rfl, rfl, rfl, rfl, rfl, id, fun h _ => absurd h hearly⟩
  · exact ⟨rfl, rfl, rfl, rfl, rfl, fun _ => rfl, fun h _ => absurd h hearly⟩
  · exact ⟨rfl, rfl, rfl, rfl, rfl, fun _ => rfl, fun h _ => absurd h hearly⟩
  · exact ⟨rfl, rfl, rfl, rfl, rfl, id, fun h _ => absurd h hearly⟩

theorem beginTurn_aside (hphase : d.phase = .top) (timer cancelled : Bool) :
    Aside d (d.beginTurn timer cancelled) := by
  have htake := takeCloseCode_aside (d := d) (by simp [hphase, Phase.late])
  have harm : ∀ armed, Aside d { d.takeCloseCode with acceptSleep := armed } := fun armed =>
    ⟨htake.goaway_eq, htake.accepted_eq, htake.handled_eq, htake.rejected_eq, htake.last_eq,
      htake.shutdown_mono, htake.late⟩
  unfold beginTurn
  dsimp only
  split_ifs
  · exact (harm false).trans (trigger_aside _ _ _)
  · exact (harm false).trans (trigger_aside _ _ _)
  · exact htake.trans (trigger_aside _ _ _)
  · exact harm true
  · exact htake.trans (trigger_aside _ _ _)

theorem failControl_aside (hearly : ¬ d.phase.late) (err : ControlError) :
    Aside d (d.failControl err) := by
  unfold failControl
  split_ifs with hshutdown
  · exact ⟨rfl, rfl, rfl, rfl, rfl, id, fun h _ => absurd h hearly⟩
  · exact ⟨rfl, rfl, rfl, rfl, rfl, fun _ => rfl, fun h _ => absurd h hearly⟩

theorem flush_aside (d : Driver) (answers : List Sent) : Aside d (d.flush answers) := by
  have hearly : ¬ Phase.read.late := by simp [Phase.late]
  have hset : ∀ c : ControlStreams, c.goawaySent = d.plane.streams.goawaySent →
      Aside d ({ d with phase := .read }.setStreams c) := fun c hc =>
    ⟨hc, rfl, rfl, rfl, rfl, id, fun h _ => absurd h hearly⟩
  have hflush := pollFlush_goaway d.plane.streams.queueEncoderStreamsFromShared answers
  unfold flush
  dsimp only
  split_ifs
  · exact hset _ rfl
  · split
    · next c err hpoll =>
      rw [hpoll] at hflush
      exact (hset c hflush).trans (failControl_aside hearly _)
    · next c answer _ hpoll =>
      rw [hpoll] at hflush
      exact hset c hflush

theorem read_aside (hphase : d.phase = .read) : Aside d d.read := by
  have hearly : ¬ Phase.announce.late := by simp [Phase.late]
  have hearly' : ¬ d.phase.late := by simp [hphase, Phase.late]
  unfold read
  split
  · exact ⟨rfl, rfl, rfl, rfl, rfl, id, fun h _ => absurd h hearly⟩
  split
  · refine Aside.trans ?_ (failControl_aside hearly _)
    exact ⟨rfl, rfl, rfl, rfl, rfl, id, fun h _ => absurd h hearly⟩
  · next plane hpoll =>
    exact ⟨Plane.pollRead_goaway hpoll, rfl, rfl, rfl, rfl, id, fun h _ => absurd h hearly⟩
  · next plane id hpoll =>
    split_ifs
    · exact ⟨Plane.pollRead_goaway hpoll, rfl, rfl, rfl, rfl, fun h => h,
        fun h _ => absurd h hearly'⟩
    · exact ⟨Plane.pollRead_goaway hpoll, rfl, rfl, rfl, rfl, fun _ => rfl,
        fun h _ => absurd h hearly'⟩
  · next plane event _ hpoll =>
    exact ⟨Plane.pollRead_goaway hpoll, rfl, rfl, rfl, rfl, id, fun h _ => absurd h hearly'⟩

theorem close_aside {outcome : Outcome} (h : d.close closed outcome = .ok d') : Aside d d' := by
  unfold close at h
  split at h
  · cases h
    exact ⟨rfl, rfl, rfl, rfl, rfl, id, fun h _ => absurd h (by simp [Phase.late])⟩
  · cases h
  · cases h

theorem drain_aside (hphase : d.phase = .drain) {grace : Bool} (h : d.drain grace closed = .ok d') :
    Aside d d' := by
  have hlate : d.phase.late := .inl hphase
  unfold drain at h
  split_ifs at h
  · have hclose := close_aside h
    exact ⟨hclose.goaway_eq, hclose.accepted_eq, hclose.handled_eq, hclose.rejected_eq,
      hclose.last_eq, hclose.shutdown_mono, hclose.late⟩
  · cases h
    exact ⟨rfl, rfl, rfl, rfl, rfl, id, fun _ h => ⟨hlate, h⟩⟩
  · cases h
    exact ⟨rfl, rfl, rfl, rfl, rfl, id, fun _ h => ⟨hlate, h⟩⟩

theorem outside_aside (d : Driver) (action : Plane.Action) : Aside d (d.outside action) := by
  unfold outside
  split
  · exact .refl d
  · exact .refl d
  · split
    · next plane hstep =>
      exact ⟨Plane.step_goaway hstep, rfl, rfl, rfl, rfl, id, And.intro⟩
    · exact ⟨rfl, rfl, rfl, rfl, rfl, id, And.intro⟩

/-! ### The two phases that matter -/

theorem announce_ok (h : d.announce closed = .ok d') :
    Aside d d' ∨ (d.shutdown ∧ d.closingWith = none ∧ d.goawaySent = none ∧
      d' = { d.setStreams (d.plane.streams.sendGoaway d.lastRequestId) with phase := .drain }) ∨
      (d.goawaySent.isSome ∧ d' = { d with phase := .drain }) := by
  unfold announce at h
  split_ifs at h with hshutdown
  · split at h
    · exact .inl (close_aside h)
    · next hclosing =>
      cases h
      cases hsent : d.goawaySent with
      | none => exact .inr (.inl ⟨hshutdown, hclosing, rfl, rfl⟩)
      | some last =>
        have hsame : d.plane.streams.sendGoaway d.lastRequestId = d.plane.streams := by
          rw [ControlStreams.sendGoaway, show d.plane.streams.goawaySent = some last from hsent]
        refine .inr (.inr ⟨rfl, ?_⟩)
        rw [hsame]
        rfl
  · cases h
    exact .inl ⟨rfl, rfl, rfl, rfl, rfl, id, fun _ h => absurd h hshutdown⟩

theorem announce_tally (hd : d.Tally) (h : d.announce closed = .ok d') : d'.Tally := by
  rcases announce_ok h with haside | ⟨hshutdown, -, hnone, rfl⟩ | ⟨hsome, rfl⟩
  · exact haside.tally hd
  · have hsent : (d.plane.streams.sendGoaway d.lastRequestId).goawaySent =
      some d.lastRequestId := by
      rw [ControlStreams.sendGoaway, show d.plane.streams.goawaySent = none from hnone]
    refine ⟨hd.last, fun _ => hshutdown, fun _ _ => ?_, fun h => ?_⟩
    · exact Option.isSome_iff_exists.2 ⟨_, hsent⟩
    · cases hsent.symm.trans h
  · exact ⟨hd.last, hd.decided, fun _ _ => hsome, hd.all⟩

/-- The GOAWAY is honoured from the start only if nothing was accepted before. -/
theorem announce_honours_iff (hd : d.Tally) (hh : d.Honours) (hphase : d.phase = .announce) :
    (∀ d', d.announce closed = .ok d' → d'.Honours) ↔ d.Clear (.announce closed) := by
  constructor
  · intro hall _ hshutdown hclosing hnone
    have hok : d.announce closed =
        .ok { d.setStreams (d.plane.streams.sendGoaway d.lastRequestId) with phase := .drain } := by
      rw [announce, if_pos hshutdown, hclosing]
    have hsent : (d.plane.streams.sendGoaway d.lastRequestId).goawaySent =
      some d.lastRequestId := by
      rw [ControlStreams.sendGoaway, show d.plane.streams.goawaySent = none from hnone]
    have hlt : ∀ id ∈ d.handled, id < d.lastRequestId := (hall _ hok _ hsent).1
    rw [hd.all hnone] at hlt
    exact (hd.last.resolve_left fun hmem => lt_irrefl _ (hlt _ hmem)).1
  · intro hclear d' h
    rcases announce_ok h with haside | ⟨hshutdown, hclosing, hnone, rfl⟩ | ⟨-, rfl⟩
    · exact haside.honours hh
    · have hnil := hclear hphase hshutdown hclosing hnone
      intro last _
      have hhandled : d.handled = [] := (hd.all hnone).trans hnil
      exact ⟨fun id hid => by simp [setStreams, hhandled] at hid,
        fun id hid => by simp [setStreams, hnil] at hid⟩
    · exact hh

/-- A request stream is rejected, or handed to its task. -/
theorem accept_stream_ok {id : ℕ} (h : d.accept (.stream id) = .ok d') :
    d'.goawaySent = d.goawaySent ∧ d'.shutdown = d.shutdown ∧
      d'.lastRequestId = max d.lastRequestId id ∧ d'.accepted = d.accepted ++ [id] ∧
      if d.shutdown ∧ (d.goawaySent = none ∨ d.goawaySent.getD (2 ^ 64 - 1) < id) then
        d'.handled = d.handled ∧ d'.rejected = d.rejected ++ [(id, ErrorCode.requestRejected.code)]
      else d'.handled = d.handled ++ [id] ∧ d'.rejected = d.rejected := by
  unfold accept at h
  dsimp only at h
  split_ifs at h with hcond
  · cases h
    refine ⟨rfl, rfl, rfl, rfl, ?_⟩
    rw [if_pos (show d.shutdown ∧ (d.goawaySent = none ∨ d.goawaySent.getD (2 ^ 64 - 1) < id)
      from hcond)]
    exact ⟨rfl, rfl⟩
  · cases h
    refine ⟨rfl, rfl, rfl, rfl, ?_⟩
    rw [if_neg (show ¬ (d.shutdown ∧ (d.goawaySent = none ∨ d.goawaySent.getD (2 ^ 64 - 1) < id))
      from hcond)]
    exact ⟨rfl, rfl⟩

theorem accept_tally {answer : Accepted} (hd : d.Tally) (hphase : d.phase = .accept)
    (h : d.accept answer = .ok d') : d'.Tally := by
  cases answer with
  | closed => cases h
  | failed err => cases h
  | pending =>
    cases h
    exact ⟨hd.last, hd.decided, fun h => absurd h (by simp [Phase.late]), hd.all⟩
  | stream id =>
    obtain ⟨hgoaway, hshutdown, hlast, haccepted, hrest⟩ := accept_stream_ok h
    refine ⟨.inl ?_, ?_, fun _ => ?_, fun hnone => ?_⟩
    · rw [hlast, haccepted]
      rcases hd.last with hmem | ⟨-, hzero⟩
      · rcases max_choice d.lastRequestId id with heq | heq <;> simp [heq, hmem]
      · simp [hzero]
    · rw [hgoaway, hshutdown]
      exact hd.decided
    · rw [hgoaway, hshutdown]
      exact hd.late (.inr hphase)
    · rw [hgoaway] at hnone
      -- a GOAWAY would have been queued before a stream could be rejected
      have hrunning : ¬ d.shutdown := fun hs => by
        have hsome := hd.late (.inr hphase) hs
        rw [hnone] at hsome
        cases hsome
      rw [if_neg fun hc => hrunning hc.1] at hrest
      rw [hrest.1, haccepted, hd.all hnone]

theorem accept_honours_iff {id : ℕ} (hd : d.Tally) (hh : d.Honours) (hphase : d.phase = .accept) :
    (∀ d', d.accept (.stream id) = .ok d' → d'.Honours) ↔ d.Clear (.accept (.stream id)) := by
  obtain ⟨d', h⟩ : ∃ d', d.accept (.stream id) = .ok d' := by
    unfold accept
    dsimp only
    split_ifs <;> exact ⟨_, rfl⟩
  obtain ⟨hgoaway, -, -, haccepted, hrest⟩ := accept_stream_ok h
  have hiff : (∀ d', d.accept (.stream id) = .ok d' → d'.Honours) ↔ d'.Honours :=
    ⟨fun hall => hall d' h, fun hd' d'' h'' => by cases h.symm.trans h''; exact hd'⟩
  rw [hiff]
  cases hsent : d.goawaySent with
  | none =>
    rw [hsent] at hgoaway
    refine ⟨fun _ _ => by simp [hsent], fun _ last hlast => ?_⟩
    cases hgoaway.symm.trans hlast
  | some last =>
    have hshutdown : d.shutdown := hd.decided (by simp [hsent])
    obtain ⟨hhandled, hrejected⟩ := hh last hsent
    rw [hsent] at hgoaway hrest
    simp only [hshutdown, reduceCtorEq, false_or, Option.getD_some, true_and] at hrest
    have hnew : d'.Honours ↔ id ≠ last := by
      constructor
      · rintro hd' rfl
        rw [if_neg (lt_irrefl _)] at hrest
        exact lt_irrefl _ ((hd' _ hgoaway).1 _ (by rw [hrest.1]; simp))
      · intro hne last' hlast'
        cases hgoaway.symm.trans hlast'
        rw [haccepted]
        rcases Nat.lt_or_gt_of_ne hne with hlt | hgt
        · rw [if_neg (by omega)] at hrest
          rw [hrest.1, hrest.2]
          constructor
          · intro other hother
            rcases mem_append.1 hother with hold | hnew
            · exact hhandled other hold
            · rwa [mem_singleton.1 hnew]
          · intro other hother hle
            rcases mem_append.1 hother with hold | hnew
            · exact hrejected other hold hle
            · rw [mem_singleton.1 hnew] at hle
              omega
        · rw [if_pos hgt] at hrest
          rw [hrest.1, hrest.2]
          refine ⟨hhandled, fun other hother hle => ?_⟩
          rcases mem_append.1 hother with hold | hnew
          · exact mem_append_left _ (hrejected other hold hle)
          · rw [mem_singleton.1 hnew]
            exact mem_append_right _ (mem_singleton_self _)
    rw [hnew, Clear, hsent]
    simp [hphase, eq_comm]

/-! ### Steps and runs -/

theorem outOfTurn_iff {phase : Phase} (ha : a.phase = some phase) :
    a.phase.any (· ≠ d.phase) ↔ d.phase ≠ phase := by
  rw [ha, Option.any_some, decide_eq_true_eq]
  exact ne_comm

/-- Every action but the announcement and the acceptance of a stream. -/
theorem step_aside (h : d.step a = .ok d') :
    Aside d d' ∨
    (d.phase = .announce ∧ ∃ closed, a = .announce closed ∧ d.announce closed = .ok d') ∨
      (d.phase = .accept ∧ ∃ answer, a = .accept answer ∧ d.accept answer = .ok d') := by
  unfold step at h
  split_ifs at h with hturn
  · cases h
    exact .inl (.refl d)
  have hphase : ∀ phase, a.phase = some phase → d.phase = phase := fun phase ha =>
    not_not.1 fun hne => hturn ((outOfTurn_iff ha).2 hne)
  cases a with
  | beginTurn timer cancelled =>
    cases h
    exact .inl (beginTurn_aside (hphase _ rfl) timer cancelled)
  | flush answers =>
    cases h
    exact .inl (flush_aside d answers)
  | read =>
    cases h
    exact .inl (read_aside (hphase _ rfl))
  | announce closed =>
    exact .inr (.inl ⟨hphase _ rfl, closed, rfl, h⟩)
  | drain grace closed =>
    exact .inl (drain_aside (hphase _ rfl) h)
  | accept answer =>
    exact .inr (.inr ⟨hphase _ rfl, answer, rfl, h⟩)
  | collect finished =>
    cases h
    exact .inl ⟨rfl, rfl, rfl, rfl, rfl, id, fun h _ => absurd h (by simp [collect, Phase.late])⟩
  | outside action =>
    cases h
    exact .inl (outside_aside d action)
  | closeCode code =>
    cases h
    exact .inl ⟨rfl, rfl, rfl, rfl, rfl, id, And.intro⟩

theorem step_tally (hd : d.Tally) (h : d.step a = .ok d') : d'.Tally := by
  rcases step_aside h with haside | ⟨-, closed, -, h⟩ | ⟨hphase, answer, -, h⟩
  · exact haside.tally hd
  · exact announce_tally hd h
  · exact accept_tally hd hphase h

theorem step_honours_iff (hd : d.Tally) (hh : d.Honours) :
    (∀ d', d.step a = .ok d' → d'.Honours) ↔ d.Clear a := by
  have hskip : a.phase.any (· ≠ d.phase) → ∀ d', d.step a = .ok d' → d'.Honours := by
    intro hturn d' h
    unfold step at h
    rw [if_pos hturn] at h
    cases h
    exact hh
  have haside : (∀ closed, a ≠ .announce closed) → (∀ answer, a ≠ .accept answer) →
      ∀ d', d.step a = .ok d' → d'.Honours := by
    intro hannounce haccept d' h
    rcases step_aside h with hs | ⟨-, closed, rfl, -⟩ | ⟨-, answer, rfl, -⟩
    · exact hs.honours hh
    · exact absurd rfl (hannounce closed)
    · exact absurd rfl (haccept answer)
  cases a with
  | announce closed =>
    by_cases hphase : d.phase = .announce
    · have heq : d.step (.announce closed) = d.announce closed := by
        simp [step, Action.phase, hphase]
      rw [heq]
      exact announce_honours_iff hd hh hphase
    · exact ⟨fun _ h => absurd h hphase, fun _ => hskip ((outOfTurn_iff rfl).2 hphase)⟩
  | accept answer =>
    by_cases hphase : d.phase = .accept
    · have heq : d.step (.accept answer) = d.accept answer := by simp [step, Action.phase, hphase]
      rw [heq]
      cases answer with
      | stream id => exact accept_honours_iff hd hh hphase
      | closed | failed err => exact ⟨fun _ => trivial, fun _ d' h => by cases h⟩
      | pending => exact ⟨fun _ => trivial, fun _ d' h => by cases h; exact hh⟩
    · have hall := hskip ((outOfTurn_iff rfl).2 hphase)
      cases answer with
      | stream id => exact ⟨fun _ h => absurd h hphase, fun _ => hall⟩
      | closed | failed | pending => exact ⟨fun _ => trivial, fun _ => hall⟩
  | beginTurn | flush | read | drain | collect | outside | closeCode =>
    exact ⟨fun _ => trivial, fun _ => haside (by simp) (by simp)⟩

/-- The GOAWAY is honoured in every state of a run exactly if it is queued, if at all,
before the first request is accepted, and no request is accepted after it on the
stream it names. -/
theorem run_honours_iff (settings : LocalSettings) (acceptTimeout : Bool) (actions : List Action) :
    Along step (fun d a => ∀ d', d.step a = .ok d' → d'.Honours)
    (start settings acceptTimeout) actions ↔
      Along step Clear (start settings acceptTimeout) actions := by
  refine Along.congr (I := fun d => d.Tally ∧ d.Honours) ?_
    (fun d a hd => step_honours_iff hd.1 hd.2)
    actions ⟨tally_start settings acceptTimeout, fun last h => by cases h⟩
  intro d a d' hd hall h
  exact ⟨step_tally hd.1 h, hall d' h⟩

/-- What the peer is told and what happens to its streams. -/
def ledger (r : Except Outcome Driver) : Option (Option ℕ × List ℕ × List (ℕ × ℕ)) :=
  r.toOption.map fun d => (d.goawaySent, d.handled, d.rejected)

/-- Stream 0 is accepted after GOAWAY(0); or before it; or stream 4 is the last one
before GOAWAY(4). Each is handled and none is rejected. -/
theorem run_breaks_promise :
    ledger (run [.beginTurn false true, .flush [], .read, .announce none, .drain false none,
        .accept (.stream 0)] (start {} false)) = some (some 0, [0], []) ∧
    ledger (run [.beginTurn false false, .flush [], .read, .announce none, .accept (.stream 0),
        .accept .pending, .collect none, .beginTurn false true, .flush [], .read, .announce none]
        (start {} false)) = some (some 0, [0], []) ∧
    ledger (run [.beginTurn false false, .flush [], .read, .announce none, .accept (.stream 0),
        .accept (.stream 4), .accept .pending, .collect none, .beginTurn false true,
        .flush [], .read, .announce none] (start {} false)) = some (some 4, [0, 4], []) := by
  refine ⟨?_, ?_, ?_⟩ <;> decide +kernel

end Driver

end ZincioHttp.H3
