import Mathlib.Logic.Function.Iterate
import ZincioHttp.H3.Upgrade
import ZincioHttp.Lib.Runs

/-! The end of the send task over a transport that takes everything. When the consumer has
closed its side, the channel stays closed, and the task finishes the stream again and again
until the transport refuses. -/

namespace ZincioHttp.H3

open List Option Function Sender Upgrade Bridge Bool

/-! ### A transport that takes everything -/

/-- What a stream has been given. -/
inductive Wire where
  | octets (data : Octets)
  | fin
  deriving DecidableEq, Repr

structure Accepting where
  log : List Wire
  /-- Calls of `poll_finish`. -/
  calls : ℕ
  deriving DecidableEq, Repr

/-- All data is accepted, and `finish` says how each call of `poll_finish` is answered. -/
def accepting (finish : ℕ → Except TransportError Unit) : SendHalf Accepting where
  pollSend a data := ({ a with log := a.log ++ [.octets data] }, .ready)
  pollFinish a :=
    match finish a.calls with
    | .ok () => (⟨a.log ++ [.fin], a.calls + 1⟩, .ready)
    | .error err => ({ a with calls := a.calls + 1 }, .failed err)

def dataFrame (data : Octets) : Octets := Sender.dataHeader data ++ data

namespace Sender

variable {finish : ℕ → Except TransportError Unit} {s : Sender Accepting}

theorem drain_accepting (buf : List Octets) : ∀ a : Accepting,
    drain (accepting finish) a buf = ({ a with log := a.log ++ buf.map .octets }, [], .ready) := by
  induction buf with
  | nil =>
    intro a
    rw [drain, map_nil, append_nil]
  | cons bytes buf ih =>
    intro a
    simp only [drain, accepting] at ih ⊢
    rw [ih]
    simp

theorem flatten_parts (first second : Octets) : (parts first second).flatten = first ++ second := by
  rw [parts]
  split_ifs with hfirst hsecond hsecond
  · rw [isEmpty_iff.1 hfirst, isEmpty_iff.1 hsecond]
    rfl
  · rw [isEmpty_iff.1 hfirst]
    simp
  · rw [isEmpty_iff.1 hsecond]
    simp
  · simp
  · simp

/-- Nothing is left of an operation. -/
structure Idle (s : Sender Accepting) : Prop where
  pendingSend : s.pendingSend = .none
  sendBuf : s.sendBuf = []

/-- The state after some octets and some answers to `poll_finish`. -/
def logged (s : Sender Accepting) (wire : List Wire) (calls : ℕ) : Sender Accepting :=
  { s with stream := ⟨s.stream.log ++ wire, s.stream.calls + calls⟩ }

theorem Idle.logged (h : Idle s) (wire : List Wire) (calls : ℕ) : Idle (s.logged wire calls) :=
  ⟨h.pendingSend, h.sendBuf⟩

theorem Idle.pollSendData (h : Idle s) (data : Octets) : s.pollSendData (accepting finish) data =
      (s.logged ((parts (dataHeader data) data).map .octets) 0, .ready (.ok ())) := by
  rw [Sender.pollSendData, h.pendingSend]
  simp only [pollWriteParts, pollWrite, isEmpty_nil, if_true, h.sendBuf, nil_append,
    drain_accepting, settle]
  rw [Sender.logged, Nat.add_zero, ← h.pendingSend, ← h.sendBuf]

/-- The transport is asked to finish the stream at once. -/
theorem Idle.pollFinish (h : Idle s) : s.pollFinish (accepting finish) =
    match finish s.stream.calls with
    | .ok () => (s.logged [.fin] 1, .ready (.ok ()))
    | .error err => (s.logged [] 1, .ready (.error (.transport err))) := by
  rw [Sender.pollFinish, pollWrite, h.sendBuf]
  simp only [isEmpty_nil, if_true, drain, accepting]
  cases finish s.stream.calls with
  | ok _ | error err => simp [Sender.logged, Sent.polled, ← h.sendBuf]

end Sender

theorem Bridge.recv_cons {b : Bridge} {data : Octets} {queue : List Octets}
    (hopen : b.closed = false)
    (hqueue : b.queue = data :: queue) : b.recv = ({ b with queue := queue }, .item data) := by
  simp [recv, hopen, hqueue]

namespace Upgrade

variable {finish : ℕ → Except TransportError Unit} {u : Upgrade Accepting} {total : Octets}

/-! ### While there is something to send -/

/-- The writes that were taken from the consumer and not yet sent. -/
def unsent (u : Upgrade Accepting) : List Octets :=
  (match u.sendFut with
    | some (.data data) => [data]
    | _ => []) ++ u.bridge.queue

/-- The task has not come to the end of the writes: what it has sent and the frames of what is
left are `total`. -/
structure Flowing (total : Octets) (u : Upgrade Accepting) : Prop where
  outcome : u.outcome = none
  idle : u.sender.Idle
  calls : u.sender.stream.calls = 0
  sendFut : u.sendFut ≠ some .finish
  closed : u.bridge.closed = true → u.bridge.queue = []
  log : ∃ sent : List Octets, u.sender.stream.log = sent.map .octets ∧
    sent.flatten ++ u.unsent.flatMap dataFrame = total

/-- The task has come to the end of the writes and has finished the stream `m` times. -/
structure Finishing (finish : ℕ → Except TransportError Unit) (sent : List Octets) (m : ℕ)
    (u : Upgrade Accepting) : Prop where
  outcome : u.outcome = none
  idle : u.sender.Idle
  calls : u.sender.stream.calls = m
  sendFut : u.sendFut = some .finish
  bridge : u.bridge.recv = (u.bridge, .closed)
  log : u.sender.stream.log = sent.map .octets ++ replicate m .fin
  answers : ∀ i < m, finish i = .ok ()

/-- The task has returned, having finished the stream `m` times. -/
structure Ended (finish : ℕ → Except TransportError Unit) (sent : List Octets) (m : ℕ)
    (u : Upgrade Accepting) : Prop where
  outcome : u.outcome.isSome = true
  log : u.sender.stream.log = sent.map .octets ++ replicate m .fin
  answers : ∀ i < m, finish i = .ok ()
  last : finish m ≠ .ok ()

theorem Flowing.tick_data (finish : ℕ → Except TransportError Unit) (h : Flowing total u)
    {data : Octets} (hfut : u.sendFut = some (.data data)) :
    ∃ v, u.tick (accepting finish) = v.receive ∧ Flowing total v ∧ v.sendFut = none ∧
      v.bridge = u.bridge ∧ v.accepted = u.accepted := by
  refine ⟨{ u with
    sender := u.sender.logged ((parts (dataHeader data) data).map .octets) 0
    sendFut := none
    held := false }, ?_, ⟨h.outcome, h.idle.logged _ _, h.calls, nofun, h.closed, ?_⟩, rfl, rfl,
      rfl⟩
  · rw [tick, h.outcome, isSome_none, if_neg Bool.false_ne_true, hfut]
    simp [pollFut, h.idle.pollSendData]
  · obtain ⟨sent, hlog, htotal⟩ := h.log
    refine ⟨sent ++ parts (dataHeader data) data, ?_, ?_⟩
    · rw [logged, hlog, map_append]
    · rw [← htotal, flatten_append, flatten_parts]
      simp [unsent, hfut, dataFrame]

/-- The next write is received, or there is none yet, or there will be none. -/
theorem Flowing.receive (h : Flowing total u) (hfut : u.sendFut = none) :
    Flowing total u.receive ∧ u.receive.unsent = u.unsent ∧
        u.receive.bridge.shut = u.bridge.shut ∧ (u.bridge.shut = true → u.receive.sendFut ≠ none) ∨
      u.bridge.shut = true ∧ ∃ sent : List Octets, sent.flatten = total ∧
        Finishing finish sent 0 u.receive := by
  obtain ⟨sent, hlog, htotal⟩ := h.log
  cases hqueue : u.bridge.queue with
  | cons data queue =>
    have hopen : u.bridge.closed = false := eq_false_iff.2 fun hc => by
      rw [h.closed hc] at hqueue
      cases hqueue
    have hreceive : u.receive = { u with
        bridge := { u.bridge with queue := queue }
        sendFut := some (.data data) } := by
      rw [Upgrade.receive, recv_cons hopen hqueue]
    have hunsent : u.receive.unsent = u.unsent := by
      rw [hreceive, unsent, unsent, hfut, hqueue]
      rfl
    refine .inl ⟨⟨?_, ?_, ?_, ?_, ?_, sent, ?_, by rw [hunsent, htotal]⟩, hunsent, ?_, fun _ => ?_⟩
    · rw [hreceive]
      exact h.outcome
    · rw [hreceive]
      exact h.idle
    · rw [hreceive]
      exact h.calls
    · rw [hreceive]
      simp
    · rw [hreceive]
      exact fun hc => absurd (hopen.symm.trans hc) (by decide)
    · rw [hreceive]
      exact hlog
    · rw [hreceive]
      rfl
    · rw [hreceive]
      simp
  | nil =>
    have hunsent : u.unsent = [] := by
      rw [unsent, hfut, hqueue]
      rfl
    cases hover : u.bridge.shut with
    | true =>
      have hrecv : u.bridge.recv = (u.bridge, .closed) := by
        rw [recv, hqueue]
        rw [shut, or_eq_true] at hover
        rcases hover with hclosed | hdropped
        · rw [if_pos hclosed]
        · simp [if_pos hdropped, ite_self]
      have hreceive : u.receive = { u with sendFut := some .finish } := by
        rw [Upgrade.receive, hrecv]
      rw [hunsent, flatMap_nil, append_nil] at htotal
      refine .inr ⟨rfl, sent, htotal, ?_⟩
      rw [hreceive]
      exact ⟨h.outcome, h.idle, h.calls, rfl, hrecv, by rw [hlog, replicate_zero, append_nil],
        fun _ hi => absurd hi (Nat.not_lt_zero _)⟩
    | false =>
      have hreceive : u.receive = u := by
        rw [shut, Bool.or_eq_false_iff] at hover
        rw [Upgrade.receive, recv, hover.1, hover.2, hqueue]
        rfl
      rw [hreceive]
      exact .inl ⟨h, rfl, hover, fun ho => absurd ho (by simp)⟩

theorem Flowing.tick (finish : ℕ → Except TransportError Unit) (h : Flowing total u) :
    Flowing total (u.tick (accepting finish)) ∧
        (u.tick (accepting finish)).bridge.shut = u.bridge.shut ∧
        (u.bridge.shut = true → (u.tick (accepting finish)).sendFut ≠ none ∧
          (u.tick (accepting finish)).unsent.length + (u.sendFut.elim 0 fun _ => 1) ≤
            u.unsent.length) ∨
      u.bridge.shut = true ∧ ∃ sent : List Octets, sent.flatten = total ∧
        Finishing finish sent 0 (u.tick (accepting finish)) := by
  cases hfut : u.sendFut with
  | none =>
    have htick : u.tick (accepting finish) = u.receive := by
      rw [Upgrade.tick, h.outcome, hfut]
      rfl
    rw [htick]
    refine (h.receive hfut).imp_left fun ⟨hflow, hunsent, hover, hsome⟩ =>
      ⟨hflow, hover, fun ho => ?_⟩
    exact ⟨hsome ho, by rw [hunsent]; exact Nat.le_refl _⟩
  | some fut =>
    cases fut with
    | finish => exact absurd hfut h.sendFut
    | data data =>
      obtain ⟨v, htick, hflow, hnone, hbridge, -⟩ := h.tick_data finish hfut
      rw [htick, ← hbridge]
      refine (hflow.receive hnone).imp_left fun ⟨hflow', hunsent, hover, hsome⟩ =>
        ⟨hflow', hover, fun ho => ⟨hsome ho, ?_⟩⟩
      rw [hunsent, unsent, unsent, hnone, hfut, hbridge]
      simp

/-! ### After the last write -/

theorem Finishing.tick {sent : List Octets} {m : ℕ} (h : Finishing finish sent m u) :
    Finishing finish sent (m + 1) (u.tick (accepting finish)) ∨
      Ended finish sent m (u.tick (accepting finish)) := by
  rw [Upgrade.tick, h.outcome, isSome_none, if_neg Bool.false_ne_true, h.sendFut]
  simp only [pollFut, h.idle.pollFinish, h.calls]
  cases hanswer : finish m with
  | ok =>
    refine .inl ?_
    simp only [receive, h.bridge]
    refine ⟨rfl, h.idle.logged _ _, by rw [logged, h.calls], rfl, h.bridge, ?_, fun i hi => ?_⟩
    · rw [logged, h.log, append_assoc, replicate_succ']
    · rcases Nat.lt_succ_iff_lt_or_eq.1 hi with hi | rfl
      · exact h.answers i hi
      · exact hanswer
  | error err =>
    refine .inr ⟨rfl, ?_, h.answers, by rw [hanswer]; simp⟩
    simp [logged, h.log, append_nil]

theorem Finishing.iterate {sent : List Octets} (h : Finishing finish sent 0 u) (k : ℕ) :
    Finishing finish sent k ((Upgrade.tick (accepting finish))^[k] u) ∨
      ∃ m < k, Ended finish sent m ((Upgrade.tick (accepting finish))^[k] u) := by
  induction k with
  | zero => exact .inl h
  | succ k ih =>
    rw [iterate_succ_apply']
    rcases ih with hfin | ⟨m, hm, hended⟩
    · exact hfin.tick.imp_right fun hended => ⟨k, Nat.lt_succ_self k, hended⟩
    · refine .inr ⟨m, Nat.lt_succ_of_lt hm, ?_⟩
      rw [Upgrade.tick, if_pos hended.outcome]
      exact hended

theorem Flowing.reach (finish : ℕ → Except TransportError Unit) (left : ℕ) :
    ∀ {u : Upgrade Accepting}, Flowing total u →
    u.bridge.shut = true → 2 * u.unsent.length + (u.sendFut.elim 1 fun _ => 0) ≤ left →
    ∃ K, ∃ sent : List Octets, sent.flatten = total ∧
      Finishing finish sent 0 ((Upgrade.tick (accepting finish))^[K] u) ∧
      ∀ j < K, ((Upgrade.tick (accepting finish))^[j] u).outcome = none := by
  induction left with
  | zero =>
    intro u h hover hleft
    exfalso
    cases hfut : u.sendFut with
    | none =>
      rw [hfut, elim_none] at hleft
      omega
    | some fut =>
      cases fut with
      | finish => exact h.sendFut hfut
      | data data =>
        rw [unsent, hfut] at hleft
        simp at hleft
  | succ left ih =>
    intro u h hover hleft
    rcases h.tick finish with ⟨hflow, hover', hless⟩ | ⟨-, sent, htotal, hfin⟩
    · obtain ⟨hsome, hlt⟩ := hless hover
      obtain ⟨fut', hfut'⟩ := Option.ne_none_iff_exists'.1 hsome
      obtain ⟨K, sent, htotal, hfin, hbefore⟩ := ih hflow (hover'.trans hover) (by
        rw [hfut', elim_some]
        cases hfut : u.sendFut with
        | none =>
          rw [hfut] at hlt hleft
          simp only [elim_none] at hlt hleft
          omega
        | some fut =>
          rw [hfut] at hlt hleft
          simp only [elim_some] at hlt hleft
          omega)
      refine ⟨K + 1, sent, htotal, by rwa [iterate_succ_apply], fun j hj => ?_⟩
      cases j with
      | zero => exact h.outcome
      | succ j =>
        exact hbefore j (Nat.lt_of_succ_lt_succ hj)
    · refine ⟨1, sent, htotal, hfin, fun j hj => ?_⟩
      rw [Nat.lt_one_iff.1 hj]
      exact h.outcome

/-! ### Up to the last write -/

/-- Nothing but the consumer's close ends the writes. -/
structure Open (u : Upgrade Accepting) : Prop where
  flowing : Flowing (u.accepted.flatMap dataFrame) u
  shut : u.bridge.shut = false

theorem receive_accepted {τ : Type} (u : Upgrade τ) : u.receive.accepted = u.accepted := by
  rw [receive]
  split <;> rfl

theorem tick_accepted {τ : Type} (T : SendHalf τ) (u : Upgrade τ) :
    (u.tick T).accepted = u.accepted := by
  rw [tick]
  split_ifs
  · rfl
  · split
    · exact receive_accepted u
    · split
      · exact receive_accepted _
      · rfl
      · rfl
      · rfl

/-- What the consumer, the reader and the task do before the consumer closes. -/
theorem Open.step (h : Open u) {a : Action} (ha : a.closes = false) :
    Open (u.step (accepting finish) a) := by
  cases a with
  | shutdown | hangUp => cases ha
  | deliver item | read n now => exact ⟨{ h.flowing with }, h.shut⟩
  | tick =>
    rw [Upgrade.step]
    rcases h.flowing.tick finish with ⟨hflow, hover, -⟩ | ⟨hover, -⟩
    · exact ⟨by rwa [tick_accepted], hover.trans h.shut⟩
    · cases h.shut.symm.trans hover
  | write data =>
    rw [Upgrade.step, write, send]
    split_ifs with hnot hroom
    · exact h
    · rw [and_eq_true] at hroom
      have hqueue := isEmpty_iff.1 hroom.2
      obtain ⟨sent, hlog, htotal⟩ := h.flowing.log
      refine ⟨⟨h.flowing.outcome, h.flowing.idle, h.flowing.calls, h.flowing.sendFut, fun hc => ?_,
        sent, hlog, ?_⟩, h.shut⟩
      · rw [show u.bridge.closed = true from hc] at hroom
        exact absurd hroom.1 (by decide)
      · simp only [unsent, hqueue, append_nil] at htotal ⊢
        rw [flatMap_append, flatMap_append, ← htotal, append_assoc]
    · exact h

theorem Open.run (actions : List Action) (hactions : ∀ a ∈ actions, a.closes = false)
    {u : Upgrade Accepting} (h : Open u) : Open (u.run (accepting finish) actions) :=
  Lib.Throughout.invariant (fun _ _ hu ha => hu.step ha)
    actions (.of_mem (fun a ha _ => hactions a ha) _) h

theorem dataFrame_ne_nil (data : Octets) : dataFrame data ≠ [] := by
  simp [dataFrame, dataHeader, frameData, writeVarint, bigEndian]

/-- What is there to be sent when the consumer closes: everything, but for what `close` finds in
the channel. -/
theorem Open.close (finish : ℕ → Except TransportError Unit) (h : Open u) {a : Action}
    (ha : a.closes = true) :
    ∃ total, Flowing total (u.step (accepting finish) a) ∧
      (u.step (accepting finish) a).bridge.shut = true ∧
      (total = u.accepted.flatMap dataFrame ↔ a = .hangUp ∨ u.bridge.queue = []) := by
  cases a with
  | hangUp =>
    exact ⟨_, { h.flowing with }, or_true _, iff_of_true rfl (.inl rfl)⟩
  | shutdown =>
    obtain ⟨sent, hlog, htotal⟩ := h.flowing.log
    refine ⟨_, ⟨h.flowing.outcome, h.flowing.idle, h.flowing.calls, h.flowing.sendFut, fun _ => rfl,
      sent, hlog, rfl⟩, rfl, ?_⟩
    rw [← htotal, unsent, unsent, Upgrade.step, Bridge.close]
    simp only [append_nil, flatMap_append]
    rw [← append_assoc, self_eq_append_right, flatMap_eq_nil_iff]
    constructor
    · intro hnil
      refine .inr (eq_nil_iff_forall_not_mem.2 fun data hdata => ?_)
      exact dataFrame_ne_nil data (hnil data hdata)
    · rintro (heq | hqueue) data hdata
      · cases heq
      · rw [hqueue] at hdata
        cases hdata
  | _ => cases ha

/-- As long as the transport takes every finish, the task does not return. -/
theorem Open.never_ended (h : Open u) {a : Action} (ha : a.closes = true)
    (hfinish : ∀ i, finish i = .ok ()) (k : ℕ) :
    ((tick (accepting finish))^[k] (u.step (accepting finish) a)).outcome = none := by
  obtain ⟨total, hflow, hover, -⟩ := h.close finish ha
  obtain ⟨K, sent, -, hfin, hbefore⟩ := Flowing.reach finish _ hflow hover (Nat.le_refl _)
  by_cases hk : k < K
  · exact hbefore k hk
  obtain ⟨m, rfl⟩ := Nat.exists_eq_add_of_le (Nat.le_of_not_lt hk)
  rw [Nat.add_comm, iterate_add_apply]
  rcases hfin.iterate m with hfin | ⟨j, -, hended⟩
  · exact hfin.outcome
  · exact absurd (hfinish j) hended.last

theorem count_fin_octets (sent : List Octets) : (sent.map Wire.octets).count .fin = 0 :=
  count_eq_zero.2 fun hmem => by simp at hmem

/-- The task has returned, and the stream got the frames of these writes and one finish. -/
def finishedOnce (writes : List Octets) (u : Upgrade Accepting) : Prop :=
  u.outcome.isSome = true ∧ ∃ sent : List Octets,
    u.sender.stream.log = sent.map .octets ++ [.fin] ∧ sent.flatten = writes.flatMap dataFrame

/-- For every sequence of writes, however the task and the reader are scheduled in between, and
for a transport that accepts all data: the task returns after finitely many rounds, having sent
each write once and in order and finished the stream once, if and only if the transport accepts
the first finish and refuses the second, and the consumer does not shut down while its last
write is still in the channel. -/
theorem finishes_once_iff (finish : ℕ → Except TransportError Unit) (streamId : ℕ) (reader : Reader)
    (actions : List Action) (hactions : ∀ a ∈ actions, a.closes = false) (a : Action)
    (ha : a.closes = true) :
    let u := run (accepting finish) actions
      (start ⟨streamId, ⟨[], 0⟩, true, false, .none, []⟩ reader)
    (∃ k, finishedOnce u.accepted ((tick (accepting finish))^[k] (u.step (accepting finish) a))) ↔
      finish 0 = .ok () ∧ finish 1 ≠ .ok () ∧ (a = .hangUp ∨ u.bridge.queue = []) := by
  intro u
  have hopen : Open u := Open.run actions hactions
    ⟨⟨rfl, ⟨rfl, rfl⟩, rfl, nofun, nofun, [], rfl, rfl⟩, rfl⟩
  obtain ⟨total, hflow, hover, hall⟩ := hopen.close finish ha
  obtain ⟨K, sent, htotal, hfin, hbefore⟩ := Flowing.reach finish _ hflow hover (Nat.le_refl _)
  rw [← hall, ← htotal]
  constructor
  · rintro ⟨k, houtcome, sent', hlog, hsent'⟩
    have hK : K ≤ k := by
      by_contra hlt
      rw [hbefore k (Nat.lt_of_not_le hlt)] at houtcome
      cases houtcome
    obtain ⟨m, rfl⟩ := Nat.exists_eq_add_of_le hK
    rw [Nat.add_comm, Function.iterate_add_apply] at houtcome hlog
    rcases hfin.iterate m with hfin | ⟨j, hj, hended⟩
    · rw [hfin.outcome] at houtcome
      cases houtcome
    -- The log has one finish, so that the task has ended with the second.
    have hcount := congrArg (count Wire.fin) (hended.log.symm.trans hlog)
    simp only [count_append, count_fin_octets, count_replicate_self, count_singleton_self,
      Nat.zero_add] at hcount
    subst hcount
    have hsent := append_cancel_right (hended.log.symm.trans hlog)
    rw [map_injective_iff.2 (fun _ _ => Wire.octets.inj) hsent]
    exact ⟨hended.answers 0 Nat.one_pos, hended.last, hsent'⟩
  · rintro ⟨hfirst, hsecond, hall⟩
    refine ⟨K + 2, ?_⟩
    rw [Nat.add_comm, Function.iterate_add_apply]
    rcases hfin.iterate 2 with hfin | ⟨j, hj, hended⟩
    · exact absurd (hfin.answers 1 Nat.one_lt_two) hsecond
    obtain rfl : j = 1 := by
      rcases Nat.lt_succ_iff_lt_or_eq.1 hj with hj | rfl
      · rw [Nat.lt_one_iff.1 hj] at hended
        exact absurd hfirst hended.last
      · rfl
    exact ⟨hended.outcome, sent, hended.log, hall⟩

/-- One write, which is sent before the consumer hangs up. -/
def oneWrite : List Action := [.write [0x61], .tick, .tick]

def twoWrites : List Action := oneWrite ++ [.write [0x62], .tick, .tick]

def freshReader : Reader :=
  let shared := SharedCodecs.new {}
  ⟨RequestStream.new 0 shared, [], shared⟩

/-- A transport that refuses the second finish: both writes come before the first. -/
theorem finishes_once_refused : ∃ k, finishedOnce [[0x61], [0x62]]
      ((tick (accepting fun i => if i = 0 then .ok () else .error .other))^[k]
        ((run (accepting fun i => if i = 0 then .ok () else .error .other) twoWrites
          (start ⟨0, ⟨[], 0⟩, true, false, .none, []⟩ freshReader)).step
            (accepting fun i => if i = 0 then .ok () else .error .other) .hangUp)) :=
  (finishes_once_iff (fun i => if i = 0 then .ok () else .error .other) 0 freshReader twoWrites
    (by simp [twoWrites, oneWrite, Action.closes]) .hangUp rfl).2 ⟨rfl, by simp, .inl rfl⟩

/-- With a transport that takes every finish the task never returns: not after one write. -/
theorem finishes_for_ever : ¬∃ k, ((tick (accepting fun _ => .ok ()))^[k]
      ((run (accepting fun _ => .ok ()) oneWrite
        (start ⟨0, ⟨[], 0⟩, true, false, .none, []⟩ freshReader)).step
          (accepting fun _ => .ok ()) .hangUp)).outcome ≠ none := by
  have hstart : Open (start ⟨0, ⟨[], 0⟩, true, false, .none, []⟩ freshReader) :=
    ⟨⟨rfl, ⟨rfl, rfl⟩, rfl, nofun, nofun, [], rfl, rfl⟩, rfl⟩
  rintro ⟨k, hk⟩
  exact hk ((Open.run oneWrite (by simp [oneWrite, Action.closes]) hstart).never_ended rfl
    (fun _ => rfl) k)

end Upgrade

end ZincioHttp.H3
