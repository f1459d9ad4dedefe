import ZincioHttp.H2.StreamDriver.Emission
import ZincioHttp.Lib.Runs

/-! The stream task against its channel. A schedule interleaves rounds of the task with the
connection taking messages; the channel is full or has room as the schedule makes it. -/

namespace ZincioHttp.H2

open List Option

open Lib (Throughout)

/-- A stream task, its channel and the messages that the connection has taken. -/
structure DriverRun where
  driver : StreamDriver
  channel : MsgChannel
  taken : List StreamMsg

inductive ChannelAction where
  | tick
  | recv
  deriving DecidableEq, Repr

namespace DriverRun

def start (capacity : Option ℕ) : DriverRun := ⟨.new, ⟨capacity, [], true⟩, []⟩

def tick (o : DriverOptions) (handler : Handler) (r : DriverRun) : DriverRun :=
  let (driver, channel) := r.driver.tick o handler false r.channel
  { r with driver := driver, channel := channel }

def recv (r : DriverRun) : DriverRun :=
  match r.channel.queue with
  | [] => r
  | msg :: queue =>
    { r with channel := { r.channel with queue := queue }, taken := r.taken ++ [msg] }

def step (o : DriverOptions) (handler : Handler) (r : DriverRun) : ChannelAction → DriverRun
  | .tick => r.tick o handler
  | .recv => r.recv

def run (o : DriverOptions) (handler : Handler) (schedule : List ChannelAction) (r : DriverRun) :
    DriverRun :=
  schedule.foldl (step o handler) r

/-- What the task has delivered: the messages taken and those in the channel. -/
def delivered (r : DriverRun) : List StreamMsg := r.taken ++ r.channel.queue

/-- Whatever `poll_service` sends in this step finds room in the channel. -/
def sendsFit (o : DriverOptions) (handler : Handler) (r : DriverRun) : ChannelAction → Bool
  | .tick => r.driver.sendsFit o handler r.channel
  | .recv => true

variable {o : DriverOptions} {handler : Handler} {r r' : DriverRun}

/-! ### What a run delivers -/

/-- The task is in step with its source, after so many polls. -/
structure InStep (o : DriverOptions) (handler : Handler) (capacity : Option ℕ) (n : ℕ)
    (r : DriverRun) : Prop where
  receiver : r.channel.receiver = true
  capacity : r.channel.capacity = capacity
  follows : Follows o handler r.driver r.delivered n

variable {capacity capacity' : Option ℕ} {n n' N : ℕ}

theorem InStep.start (o : DriverOptions) (handler : Handler) (capacity : Option ℕ) :
    InStep o handler capacity 0 (.start capacity) :=
  ⟨rfl, rfl, Follows.new o handler⟩

theorem InStep.tick (h : InStep o handler capacity n r)
    (hfits : r.driver.sendsFit o handler r.channel = true) :
    ∃ n', InStep o handler capacity n' (r.tick o handler) ∧
      (r.channel.fits 1 = true → r.driver.ended = false → n' = n + r.driver.inside.toNat) := by
  obtain ⟨said, n', hch, hfollows, hn'⟩ := h.follows.tick h.receiver hfits
  have hchannel : (r.tick o handler).channel = r.channel.append said := hch
  refine ⟨n', ⟨?_, ?_, ?_⟩, hn'⟩
  · rw [hchannel]
    exact h.receiver
  · rw [hchannel]
    exact h.capacity
  · rw [delivered, hchannel, MsgChannel.append, ← append_assoc]
    exact hfollows

theorem delivered_recv (r : DriverRun) : r.recv.delivered = r.delivered := by
  rw [recv]
  cases hqueue : r.channel.queue with
  | nil => rfl
  | cons msg queue => simp [delivered, hqueue]

theorem InStep.recv (h : InStep o handler capacity n r) : InStep o handler capacity n r.recv := by
  have hdriver : r.recv.driver = r.driver := by
    rw [DriverRun.recv]
    split <;> rfl
  refine ⟨?_, ?_, ?_⟩
  · rw [DriverRun.recv]
    split <;> exact h.receiver
  · rw [DriverRun.recv]
    split <;> exact h.capacity
  · rw [hdriver, delivered_recv]
    exact h.follows

theorem InStep.step {a : ChannelAction} (h : ∃ n, InStep o handler capacity n r)
    (hfits : r.sendsFit o handler a = true) :
    ∃ n, InStep o handler capacity n (r.step o handler a) := by
  obtain ⟨n, hn⟩ := h
  cases a with
  | tick =>
    obtain ⟨n', hn', -⟩ := hn.tick hfits
    exact ⟨n', hn'⟩
  | recv => exact ⟨n, hn.recv⟩

theorem InStep.run {schedule : List ChannelAction} (h : ∃ n, InStep o handler capacity n r)
    (hfits : Throughout (DriverRun.step o handler) (fun r a => r.sendsFit o handler a = true)
      schedule r) :
    ∃ n, InStep o handler capacity n (r.run o handler schedule) :=
  Throughout.invariant (I := fun r => ∃ n, InStep o handler capacity n r)
    (fun _ _ hr ha => InStep.step hr ha) schedule hfits h

theorem InStep.sendsFit (h : InStep o handler none n r) (a : ChannelAction) :
    r.sendsFit o handler a = true := by
  cases a with
  | recv => rfl
  | tick =>
    rw [DriverRun.sendsFit, StreamDriver.sendsFit]
    cases r.driver.state with
    | body b => rfl
    | service s => simp [MsgChannel.fits, h.capacity]

theorem InStep.run_unbounded (o : DriverOptions) (handler : Handler)
    (schedule : List ChannelAction) :
    ∃ n, InStep o handler none n (DriverRun.run o handler schedule (.start none)) := by
  refine Throughout.invariant (I := fun r => ∃ n, InStep o handler none n r)
    (fun r a hr _ => ?_) schedule
    (Throughout.of_mem (fun _ _ _ => trivial) _) ⟨0, .start o handler none⟩
  obtain ⟨n, hn⟩ := hr
  exact InStep.step ⟨n, hn⟩ (hn.sendsFit a)

section
variable (h : InStep o handler capacity n r)
include h

/-- Two runs deliver the same, as far as both have come. -/
theorem InStep.comparable (h' : InStep o handler capacity' n' r') :
    r.delivered <+: r'.delivered ∨ r'.delivered <+: r.delivered := by
  have hsaid : r.delivered <+: (Source.emission o handler (max n n')).2 :=
    (prefix_append _ _).trans (h.follows.msgs ▸ Source.emission_mono (Nat.le_max_left n n'))
  have hsaid' : r'.delivered <+: (Source.emission o handler (max n n')).2 :=
    (prefix_append _ _).trans (h'.follows.msgs ▸ Source.emission_mono (Nat.le_max_right n n'))
  exact prefix_or_prefix_of_prefix hsaid hsaid'

theorem InStep.of_ended (hended : r.driver.ended = true) :
    Source.emission o handler n = (.done, r.delivered) := by
  obtain ⟨hdone, hsending, hqueue⟩ := h.follows.ended hended
  refine Prod.ext ?_ ?_
  · rw [h.follows.source, StreamDriver.source, if_pos hdone]
  · rw [h.follows.msgs, hsending, hqueue]
    exact append_nil _

theorem InStep.delivered_eq (h' : InStep o handler capacity' n' r') (hended : r.driver.ended = true)
    (hended' : r'.driver.ended = true) : r.delivered = r'.delivered := by
  have hsaid := h.of_ended hended
  have hsaid' := h'.of_ended hended'
  have hmax := Source.emission_of_done (Nat.le_max_left n n') (congrArg Prod.fst hsaid)
  have hmax' := Source.emission_of_done (Nat.le_max_right n n') (congrArg Prod.fst hsaid')
  exact congrArg Prod.snd (hsaid.symm.trans (hmax.symm.trans (hmax'.trans hsaid')))

end

/-! ### Every run can be completed -/

/-- The rounds that are left if the source ends with poll `N`. -/
def roundsLeft (N n : ℕ) (d : StreamDriver) : ℕ :=
  if d.ended then 0
  else if d.done then 1 + 2 * d.queue.length + d.sending.toList.length
  else 4 + 3 * (N - n) + if d.inside then 0 else 1 + d.sending.toList.length

theorem due_le_two (o : DriverOptions) (s : ServiceState) (p : HandlerPoll) : s.due o p ≤ 2 := by
  rw [ServiceState.due]
  rcases p.result with _ | ⟨⟨⟩⟩ | r
  · simp only
    split_ifs <;> omega
  · exact Nat.zero_le 2
  · simp only
    split_ifs <;> omega

theorem sendsFit_of_room {d : StreamDriver} {ch : MsgChannel} (hroom : ch.fits 2 = true) :
    d.sendsFit o handler ch = true := by
  rw [StreamDriver.sendsFit]
  cases d.state with
  | body b => rfl
  | service s =>
    simp only
    rw [MsgChannel.fits_mono (due_le_two o s _) hroom, Bool.or_true]

/-- A round of the loop of `poll` is not taken in vain. -/
theorem roundsLeft_pollOuter {d : StreamDriver} {out : List StreamMsg} {ch : MsgChannel}
    (h : Follows o handler d out n) (hr : ch.receiver = true) (hroom : ch.fits 1 = true)
    (hended : d.ended = false) (hinside : d.inside = false) :
    roundsLeft N n (d.pollOuter ch).1 < roundsLeft N n d := by
  rcases d.pollOuter_cases hr with ⟨hsending, hqueue, heq⟩ | ⟨msg, queue, hsending, hqueue, heq⟩ |
    ⟨msg, hsending, heq⟩ <;> rw [heq]
  · split_ifs with hdone
    · simp [roundsLeft, hended, hdone]
    · simp [roundsLeft, hended, hdone, hinside]
  · have hdone : d.done = true := by
      by_contra hdone
      exact cons_ne_nil _ _ (hqueue.symm.trans (h.queue (Bool.eq_false_iff.2 hdone)))
    simp only [roundsLeft, hended, hdone, hqueue, hsending, Bool.false_eq_true, if_false, if_true,
      length_cons, toList_some, toList_none, length_nil]
    omega
  · rw [if_pos hroom]
    simp only [roundsLeft, hended, hinside, hsending, Bool.false_eq_true, if_false,
      toList_some, toList_none, length_nil, length_singleton]
    split_ifs <;> omega

/-- With room in the channel no round is taken in vain. -/
theorem InStep.roundsLeft_tick (h : InStep o handler capacity n r) (hroom : r.channel.fits 2 = true)
    (hended : r.driver.ended = false) (hN : (Source.emission o handler N).1 = .done) :
    ∃ n', InStep o handler capacity n' (r.tick o handler) ∧
      roundsLeft N n' (r.tick o handler).driver < roundsLeft N n r.driver := by
  have hroom' := MsgChannel.fits_mono (by decide : 1 ≤ 2) hroom
  obtain ⟨n', hn', hpolls⟩ := h.tick (sendsFit_of_room hroom)
  refine ⟨n', hn', ?_⟩
  cases hinside : r.driver.inside with
  | false =>
    obtain rfl : n' = n := by rw [hpolls hroom' hended, hinside]; rfl
    have htick : (r.tick o handler).driver = (r.driver.pollOuter r.channel).1 := by
      rw [DriverRun.tick, StreamDriver.tick, hended, hinside]
      rfl
    rw [htick]
    exact roundsLeft_pollOuter h.follows h.receiver hroom' hended hinside
  | true =>
    obtain rfl : n' = n + 1 := by rw [hpolls hroom' hended, hinside]; rfl
    have hopen := h.follows.inside hinside
    -- The source has not come to its end before this poll.
    have hlt : n < N := by
      by_contra hle
      have hsource := h.follows.source
      rw [Source.emission_of_done (Nat.le_of_not_lt hle) hN, hN, StreamDriver.source,
        hopen] at hsource
      cases hstate : r.driver.state with
      | service s | body b => rw [hstate] at hsource; cases hsource
    have hbacklog := hn'.follows.backlog
    have hbefore : roundsLeft N n r.driver = 4 + 3 * (N - n) := by
      simp [roundsLeft, hended, hopen, hinside]
    rw [roundsLeft]
    split_ifs
    all_goals omega

theorem InStep.drain {queue : List StreamMsg} : ∀ {r : DriverRun}, InStep o handler capacity n r →
    r.channel.queue = queue → ∃ schedule : List ChannelAction,
      Throughout (DriverRun.step o handler) (fun r a => r.sendsFit o handler a = true) schedule r ∧
      InStep o handler capacity n (r.run o handler schedule) ∧
      (r.run o handler schedule).driver = r.driver ∧
      (r.run o handler schedule).channel.queue = [] := by
  induction queue with
  | nil => exact fun h hqueue => ⟨[], trivial, h, rfl, hqueue⟩
  | cons msg queue ih =>
    intro r h hqueue
    have hrecv : r.recv = { r with
        channel := { r.channel with queue := queue }, taken := r.taken ++ [msg] } := by
      rw [DriverRun.recv, hqueue]
    obtain ⟨schedule, hfits, hin, hdriver, hempty⟩ := ih h.recv (by rw [hrecv])
    refine ⟨.recv :: schedule, ⟨rfl, hfits⟩, hin, hdriver.trans ?_, hempty⟩
    rw [hrecv]

/-- A run whose source comes to an end can be continued to the end of the task. -/
theorem InStep.complete (hroom : capacity.all (fun k => decide (2 ≤ k)) = true)
    (hN : (Source.emission o handler N).1 = .done) (left : ℕ) :
    ∀ {n : ℕ} {r : DriverRun}, InStep o handler capacity n r → roundsLeft N n r.driver ≤ left →
      ∃ more : List ChannelAction,
        Throughout (DriverRun.step o handler) (fun r a => r.sendsFit o handler a = true) more r ∧
        (r.run o handler more).driver.ended = true := by
  induction left with
  | zero =>
    intro n r h hleft
    have hended : r.driver.ended = true := by
      by_contra hended
      rw [roundsLeft] at hleft
      split_ifs at hleft
      all_goals omega
    exact ⟨[], trivial, hended⟩
  | succ left ih =>
    intro n r h hleft
    cases hended : r.driver.ended with
    | true => exact ⟨[], trivial, hended⟩
    | false =>
      obtain ⟨schedule, hfits, hin, hdriver, hempty⟩ := h.drain rfl
      have hfits2 : (r.run o handler schedule).channel.fits 2 = true := by
        rw [MsgChannel.fits, hin.capacity, hempty]
        simpa using hroom
      obtain ⟨n', hn', hlt⟩ := hin.roundsLeft_tick hfits2 (hdriver ▸ hended) hN
      rw [hdriver] at hlt
      obtain ⟨more, hmore, hend⟩ := ih hn' (by omega)
      have hrun : r.run o handler (schedule ++ .tick :: more) =
          ((r.run o handler schedule).tick o handler).run o handler more := by
        rw [DriverRun.run, foldl_append]
        rfl
      refine ⟨schedule ++ .tick :: more, (Lib.throughout_append _ _ _).2 ⟨hfits, ?_, hmore⟩, ?_⟩
      · exact sendsFit_of_room hfits2
      · rw [hrun]
        exact hend

/-- As long as whatever `poll_service` is to send finds room, the task delivers through the
bounded channel what it delivers through an unbounded one. What was delivered is the beginning
of one list of messages, which is whole when the task has ended; whatever the unbounded task
delivers can still be delivered; no hint is left without its confirmation; and the handler is
not polled again once it has returned. -/
theorem run_delivers_alike (o : DriverOptions) (handler : Handler)
    (schedule schedule' : List ChannelAction)
    (hfits : Throughout (step o handler) (fun r a => r.sendsFit o handler a = true) schedule
      (start (some channelCapacity))) :
    let bounded := run o handler schedule (start (some channelCapacity))
    let unbounded := run o handler schedule' (start none)
    (bounded.delivered <+: unbounded.delivered ∨ unbounded.delivered <+: bounded.delivered) ∧
      (bounded.driver.ended = true → unbounded.driver.ended = true →
        bounded.delivered = unbounded.delivered) ∧
      (unbounded.driver.ended = true → ∃ more : List ChannelAction,
        (bounded.run o handler more).driver.ended = true ∧
        (bounded.run o handler more).delivered = unbounded.delivered) ∧
      bounded.driver.dropped = [] ∧ bounded.driver.repolled = false := by
  intro bounded unbounded
  obtain ⟨n, hn⟩ := InStep.run ⟨0, .start o handler _⟩ hfits
  obtain ⟨N, hN⟩ := InStep.run_unbounded o handler schedule'
  refine ⟨hn.comparable hN, hn.delivered_eq hN, fun hended => ?_, hn.follows.dropped,
    hn.follows.repolled⟩
  obtain ⟨more, hmore, hend⟩ := InStep.complete (by decide) (congrArg Prod.fst (hN.of_ended hended))
    _ hn (Nat.le_refl _)
  obtain ⟨m, hm⟩ := InStep.run ⟨n, hn⟩ hmore
  exact ⟨more, hend, hm.delivered_eq hN hend hended⟩

/-- Some hints, and then a response without a body. -/
def hintsFirst (hints : ℕ) : Handler := fun history =>
  { hints := if history.isEmpty then replicate hints [] else []
    readsBody := false
    result := if history.length < hints then none
      else some (.ok ⟨⟨204, []⟩, false, fun _ => .finished⟩) }

/-- A request that expects nothing. -/
def plainRequest (isHead : Bool) : DriverOptions := ⟨false, false, false, isHead⟩

/-- Two hints go through a channel that is drained in time, and then the response. -/
theorem run_delivers_alike_hints :
    let bounded := run (plainRequest false) (hintsFirst 2) (replicate 11 .tick)
      (start (some channelCapacity))
    bounded.delivered = [earlyHintsMsg [], earlyHintsMsg [], .headers ⟨204, []⟩ true, .closed] ∧
      bounded.driver.dropped = [] ∧ bounded.driver.repolled = false :=
  ⟨by decide +kernel, (run_delivers_alike (plainRequest false) (hintsFirst 2) (replicate 11 .tick)
    [] (by decide +kernel)).2.2.2⟩

/-- With a full channel the head of the response to a HEAD request is kept in `msg_tx_fut` and the
response itself is lost, so that the handler is polled again and a second head follows the first. A
ninth hint is delivered and not confirmed. -/
theorem run_full_channel :
    let bounded := fun isHead hints => run (plainRequest isHead) (hintsFirst hints)
      (replicate 10 .tick ++ replicate 4 .recv ++ replicate 10 .tick) (start (some channelCapacity))
    let unbounded := fun isHead hints => run (plainRequest isHead) (hintsFirst hints)
      (replicate 18 .tick) (start none)
    ((bounded true 8).driver.ended = true ∧ (unbounded true 8).driver.ended = true ∧
      (bounded true 8).delivered ≠ (unbounded true 8).delivered ∧
      (bounded true 8).delivered.count (.headers ⟨204, []⟩ true) = 2 ∧
      (bounded true 8).driver.repolled = true) ∧
    (bounded false 9).driver.ended = true ∧ (unbounded false 9).driver.ended = true ∧
      (bounded false 9).driver.dropped = [[]] ∧ (unbounded false 9).driver.dropped = [] := by
  decide +kernel

end DriverRun

end ZincioHttp.H2
