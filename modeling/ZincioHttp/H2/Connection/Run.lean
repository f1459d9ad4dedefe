import ZincioHttp.H2.Connection.Handlers

/-! Whole runs of a server connection: the frames of the peer and the messages of
the stream tasks, in any interleaving. -/

namespace ZincioHttp.H2

open List

inductive TaskEvent where
  | send (msg : StreamMsg)
  /-- Takes the next message of the request body. -/
  | receive
  /-- Drops the request body. -/
  | dropBody
  deriving DecidableEq, Repr

inductive Event where
  /-- A frame is parsed and handled; `hint` is the order in which the map of
  streams is walked. -/
  | frame (hint : List ℕ) (f : Frame)
  /-- The codec rejects what it reads. -/
  | frameError (error : H2Error)
  /-- The connection task wakes up from waiting for a body channel. -/
  | resume
  /-- The messages of one stream are drained. -/
  | drainStream (id : ℕ)
  /-- The shutdown token is cancelled. -/
  | shutdown
  /-- The loop of `handle` is left. -/
  | finish
  | task (id : ℕ) (t : TaskEvent)
  deriving DecidableEq, Repr

/-- A task uses its ends of the channels. A send waits while the channel is full. -/
def StreamEntry.onTask (e : StreamEntry) : TaskEvent → StreamEntry
  | .send msg =>
    if e.msgs.length < channelCapacity then { e with msgs := e.msgs ++ [msg] } else e
  | .receive => { e with body := e.body.map fun ch => { ch with queue := ch.queue.tail } }
  | .dropBody => { e with body := e.body.map fun ch => { ch with receiver := false } }

theorem StreamEntry.onTask_same (e : StreamEntry) (t : TaskEvent) :
    e.onTask t = { e with body := (e.onTask t).body, msgs := (e.onTask t).msgs } := by
  cases t with
  | send msg =>
    rw [onTask]
    split_ifs <;> rfl
  | receive | dropBody => rfl

namespace Connection

def spawned (c : Connection) (id : ℕ) : Bool := c.dispatched.any fun d => decide (d.1 = id)

def onTask (c : Connection) (id : ℕ) (t : TaskEvent) : Connection :=
  if c.spawned id then
    match c.entry id with
    | some e => c.setEntry id (e.onTask t)
    | none =>
      match t with
      | .receive => { c with leftover := Function.update c.leftover id (c.leftover id).tail }
      | _ => c
  else c

theorem onTask_some {c : Connection} {id : ℕ} {e : StreamEntry} (hspawned : c.spawned id = true)
    (he : c.entry id = some e) (t : TaskEvent) : c.onTask id t = c.setEntry id (e.onTask t) := by
  unfold onTask
  simp only [hspawned, if_true, he]

/-- The task of a stream that has an entry changes it; another one can only read what
is left for it. -/
theorem onTask_induction {P : Connection → Prop} {c : Connection} {id : ℕ} (t : TaskEvent)
    (h : ∀ leftover, P { c with leftover := leftover })
    (hset : ∀ e, c.spawned id = true → c.entry id = some e → P (c.setEntry id (e.onTask t))) :
    P (c.onTask id t) := by
  unfold onTask
  split_ifs with hspawned
  · cases he : c.entry id with
    | none =>
      cases t with
      | receive => exact h _
      | _ => exact h c.leftover
    | some e => exact hset e hspawned he
  · exact h c.leftover

theorem onTask_same (c : Connection) (id : ℕ) (t : TaskEvent) :
    c.onTask id t = { c with
      streams := (c.onTask id t).streams, leftover := (c.onTask id t).leftover } :=
  onTask_induction (P := fun c' => c' = { c with streams := c'.streams, leftover := c'.leftover }) t
    (fun _ => rfl) fun _ _ _ => rfl

/-- The connection task is at its `select`, or between two frames. -/
def idle (c : Connection) : Bool := !c.ended && c.parked.isNone

def reading (c : Connection) : Bool := c.idle && !c.closing && !c.peerGoaway

def step (http : HttpCrate) (c : Connection) : Event → Connection
  | .frame hint f => if c.reading then processFrame http c hint f else c
  | .frameError error => if c.reading then c.goaway error.reason "frame error" else c
  | .resume => c.resume
  | .drainStream id => if c.idle then c.drainStream id else c
  | .shutdown => if c.reading then c.beginGracefulShutdown else c
  | .finish =>
    if c.idle then { if c.graceful then c.finishGracefulShutdown else c with ended := true } else c
  | .task id t => c.onTask id t

/-- The frame that an event brings and the connection takes. -/
def taken (c : Connection) : Event → List Frame
  | .frame _ f => if c.reading then [f] else []
  | _ => []

/-- The frames among the events that the connection takes. -/
def received (http : HttpCrate) : List Event → Connection → List Frame
  | [], _ => []
  | ev :: events, c => c.taken ev ++ received http events (step http c ev)

def run (http : HttpCrate) (events : List Event) (c : Connection) : Connection :=
  events.foldl (step http) c

theorem run_append (http : HttpCrate) (first second : List Event) (c : Connection) :
    run http (first ++ second) c = run http second (run http first c) :=
  foldl_append

theorem mem_received {http : HttpCrate} {f : Frame} : ∀ {events : List Event} {c : Connection},
    f ∈ received http events c → ∃ hint, .frame hint f ∈ events := by
  intro events
  induction events with
  | nil => exact fun h => absurd h not_mem_nil
  | cons ev events ih =>
    intro c h
    rcases List.mem_append.1 h with h | h
    · cases ev with
      | frame hint g =>
        rw [taken] at h
        split_ifs at h
        · exact ⟨hint, List.mem_singleton.1 h ▸ mem_cons_self⟩
        · exact absurd h not_mem_nil
      | _ => exact absurd h not_mem_nil
    · obtain ⟨hint, hmem⟩ := ih h
      exact ⟨hint, mem_cons_of_mem _ hmem⟩

theorem Responds.idle {c c' : Connection} (h : Responds c c') : c'.idle = c.idle :=
  (congrArg Connection.idle h.same).trans rfl

theorem drainOutbound_eq_run (http : HttpCrate) {c : Connection} (hidle : c.idle = true)
    (hint : List ℕ) :
    c.drainOutbound hint = run http ((c.outboundIds hint).map Event.drainStream) c := by
  have hrun : ∀ (ids : List ℕ) (c : Connection), c.idle = true →
      ids.foldl drainStream c = run http (ids.map Event.drainStream) c := by
    intro ids
    induction ids with
    | nil => exact fun _ _ => rfl
    | cons id ids ih =>
      intro c hidle
      have hstep : step http c (.drainStream id) = c.drainStream id := if_pos hidle
      rw [foldl_cons, ih _ ((Responds.drainStream c id).idle.trans hidle), map_cons, run,
        run, foldl_cons, hstep]
  exact hrun _ c hidle

/-- Every step of a run meets a condition on the event and the state it meets. -/
def Along (http : HttpCrate) (P : Connection → Event → Prop) : List Event → Connection → Prop
  | [], _ => True
  | ev :: events, c => P c ev ∧ Along http P events (step http c ev)

instance {http : HttpCrate} {P : Connection → Event → Prop} [∀ c ev, Decidable (P c ev)] :
    ∀ events c, Decidable (Along http P events c)
  | [], _ => .isTrue trivial
  | ev :: events, c =>
    have : Decidable (Along http P events (step http c ev)) := instDecidableAlong events _
    inferInstanceAs (Decidable (P c ev ∧ Along http P events (step http c ev)))

section Along
variable {http : HttpCrate} {P Q : Connection → Event → Prop} {events : List Event}

theorem along_append (first second : List Event) : ∀ c, Along http P (first ++ second) c ↔
    Along http P first c ∧ Along http P second (run http first c) := by
  induction first with
  | nil => exact fun c => (and_iff_right trivial).symm
  | cons ev first ih =>
    intro c
    rw [cons_append, Along, Along, ih, and_assoc]
    rfl

theorem Along.and : ∀ {c : Connection}, Along http P events c →
    Along http Q events c → Along http (fun c ev => P c ev ∧ Q c ev) events c := by
  induction events with
  | nil => exact fun _ _ => trivial
  | cons ev events ih => exact fun h h' => ⟨⟨h.1, h'.1⟩, ih h.2 h'.2⟩

theorem Along.mono (hPQ : ∀ c ev, P c ev → Q c ev) : ∀ {c : Connection},
    Along http P events c → Along http Q events c := by
  induction events with
  | nil => exact fun _ => trivial
  | cons ev events ih => exact fun h => ⟨hPQ _ _ h.1, ih h.2⟩

theorem Along.of_mem (h : ∀ ev ∈ events, ∀ c, P c ev) : ∀ c, Along http P events c := by
  induction events with
  | nil => exact fun _ => trivial
  | cons ev events ih =>
    exact fun c => ⟨h ev mem_cons_self c, ih (fun ev' hev' => h ev' (mem_cons_of_mem _ hev')) _⟩

end Along

end Connection

end ZincioHttp.H2
