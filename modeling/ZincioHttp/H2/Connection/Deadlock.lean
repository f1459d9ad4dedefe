import ZincioHttp.H2.Connection.Sound

/-! The connection task and a stream task that wait for each other. The connection
waits for room in the body channel of a stream, which only the stream's task empties;
the task waits for room in the message channel, which only the connection empties. -/

namespace ZincioHttp.H2

open List Option Bool StreamEntry

variable {e : StreamEntry}

namespace StreamEntry

/-- The body channel has a reader and at most one place: a frame can bring two
messages, data or trailers and the end of the body. -/
def bodyTight (e : StreamEntry) : Bool :=
  e.body.any fun ch => ch.receiver && decide (channelCapacity ≤ ch.queue.length + 1)

def msgsFull (e : StreamEntry) : Bool := decide (channelCapacity ≤ e.msgs.length)

theorem bodyTight_of_not_ready (h : e.bodyReady = false) : e.bodyTight = true := by
  cases hbody : e.body with
  | none => simp [bodyReady, hbody] at h
  | some ch =>
    simp only [bodyReady, hbody, or_eq_false_iff, not_eq_false', decide_eq_false_iff_not,
      not_lt] at h
    simp only [bodyTight, hbody, any_some, and_eq_true, decide_eq_true_eq]
    exact ⟨h.1, by omega⟩

theorem bodyTight_of_sent {e' : StreamEntry} {msg : BodyMsg} (hsend : e.sendBody msg = some e')
    (h : e'.bodyReady = false) : e.bodyTight = true := by
  obtain ⟨-, ch, hbody, rfl⟩ := sendBody_eq_some hsend
  simp only [bodyReady, length_append, length_singleton, or_eq_false_iff,
    not_eq_false', decide_eq_false_iff_not, not_lt] at h
  simp only [bodyTight, hbody, any_some, and_eq_true, decide_eq_true_eq]
  exact h

end StreamEntry

namespace Connection

def bodyTight (c : Connection) (id : ℕ) : Bool := (c.entry id).any (·.bodyTight)

def msgsFull (c : Connection) (id : ℕ) : Bool := (c.entry id).any (·.msgsFull)

/-- The connection task waits for room in the body channel of the stream. -/
def waitsForBody (c : Connection) (id : ℕ) : Bool := c.parked.any fun p => decide (p.streamId = id)

/-- Whether the task of a stream waits for room in its message channel after an event:
it has sent to a full channel, which has been full since. -/
def taskWaits (id : ℕ) (waits : Bool) (c : Connection) (ev : Event) (c' : Connection) : Bool :=
  c'.msgsFull id && (waits || match ev with
      | .task id' (.send _) => decide (id' = id) && c.spawned id && c.msgsFull id
      | _ => false)

def taskWaitsIn (http : HttpCrate) (id : ℕ) : List Event → Connection → Bool → Bool
  | [], _, waits => waits
  | ev :: events, c, waits =>
    taskWaitsIn http id events (step http c ev) (taskWaits id waits c ev (step http c ev))

/-- No frame comes on a stream while both of its channels are full, or could become so,
and while the connection waits for a stream, the stream's task sends only with room. -/
def leavesRoom (c : Connection) : Event → Bool
  | .frame _ f => f.about.all fun id => !(c.bodyTight id && c.msgsFull id)
  | .task id (.send _) => !(c.waitsForBody id && c.msgsFull id)
  | _ => true

/-! ### When the connection waits -/

section Waits
variable {c c' : Connection} {id : ℕ} {hint : List ℕ}

/-- The connection waits for the stream only if its body channel has no room. -/
def Blocks (id : ℕ) (c c' : Connection) : Prop :=
  ∀ p, c'.parked = some p →
    c.parked = some p ∨ p.streamId = id ∧ ∃ e, c.entry id = some e ∧ e.bodyReady = false

/-- The same with what a whole frame can bring. -/
def Parks (id : ℕ) (c c' : Connection) : Prop :=
  ∀ p, c'.parked = some p → c.parked = some p ∨ p.streamId = id ∧ c.bodyTight id = true

theorem Blocks.same (h : c'.parked = c.parked) : Blocks id c c' := fun _ hp => .inl (h ▸ hp)

theorem Parks.same (h : c'.parked = c.parked) : Parks id c c' := fun _ hp => .inl (h ▸ hp)

theorem Blocks.parks (h : Blocks id c c') : Parks id c c' := fun p hp =>
  (h p hp).imp_right fun ⟨hid, e, he, hready⟩ =>
    ⟨hid, by rw [bodyTight, he]; exact bodyTight_of_not_ready hready⟩

theorem Parks.after {c₁ : Connection} (h : Parks id c₁ c') (hparked : c₁.parked = c.parked)
    (htight : c₁.bodyTight id = true → c.bodyTight id = true) : Parks id c c' := fun p hp =>
  (h p hp).imp (fun hp => hparked ▸ hp) (And.imp_right htight)

theorem bodyTight_setEntry {e' : StreamEntry} (he : c.entry id = some e)
    (hbody : e'.body = e.body) : (c.setEntry id e').bodyTight id = c.bodyTight id := by
  rw [bodyTight, bodyTight, entry_setEntry, he, any_some, any_some,
    StreamEntry.bodyTight, hbody, StreamEntry.bodyTight]

section
variable (c : Connection) (id : ℕ)

theorem Blocks.sendEnd : Blocks id c (c.sendEnd id) := by
  rw [Connection.sendEnd]
  cases he : c.entry id with
  | none => exact .same rfl
  | some e =>
    simp only
    split_ifs with hready
    · exact .same (Reaches.parked_deliver c id e _)
    · intro p hp
      obtain rfl := some.inj hp
      exact .inr ⟨rfl, e, he, by simpa using hready⟩

theorem Blocks.endRequestBody : Blocks id c (c.endRequestBody id) := by
  rw [Connection.endRequestBody]
  cases he : c.entry id with
  | none => exact .same rfl
  | some e =>
    simp only
    split_ifs
    · exact .same rfl
    · exact .same (parked_streamError _ id _)
    · exact .same rfl
    · intro p hp
      rcases Blocks.sendEnd _ id p hp with hp | ⟨hid, e', he', hready⟩
      · exact .inl hp
      · rw [entry_setEntry, some.injEq] at he'
        subst he'
        exact .inr ⟨hid, e, he, hready⟩

end

theorem Parks.afterBody (he : c.entry id = some e) (msg : BodyMsg) (endStream : Bool) :
    Parks id c (c.afterBody id e msg endStream) := by
  rw [Connection.afterBody]
  split_ifs with hend
  · obtain ⟨e', hsend⟩ := Option.isSome_iff_exists.1 (Bool.and_eq_true_iff.1 hend).1
    intro p hp
    rw [deliver, hsend] at hp
    rcases Blocks.endRequestBody _ id p hp with hp | ⟨hid, e₁, he₁, hfull⟩
    · exact .inl hp
    · rw [entry_setEntry, some.injEq] at he₁
      subst he₁
      exact .inr ⟨hid, by rw [bodyTight, he]; exact bodyTight_of_sent hsend hfull⟩
  · exact .same (Reaches.parked_deliver c id e msg)

theorem Parks.forward (c : Connection) (id : ℕ) (msg : BodyMsg) (endStream : Bool) :
    Parks id c (c.forward id msg endStream) := by
  rw [Connection.forward]
  cases he : c.entry id with
  | none => exact .same rfl
  | some e =>
    simp only
    split_ifs with hready
    · exact .afterBody he msg endStream
    · refine Blocks.parks fun p hp => ?_
      obtain rfl := some.inj hp
      exact .inr ⟨rfl, e, he, by simpa using hready⟩

theorem Parks.handleDataFrame (c : Connection) (id : ℕ) (endStream : Bool) (data : Octets) :
    Parks id c (c.handleDataFrame id endStream data) := by
  have hcredit : (c.restoreWindows id data).parked = c.parked ∧
      ∀ id', (c.restoreWindows id data).entry id' = c.entry id' := by
    rw [restoreWindows]
    split_ifs <;> exact ⟨rfl, fun _ => rfl⟩
  rw [Connection.handleDataFrame]
  split_ifs
  · exact .same rfl
  simp only [hcredit.2]
  cases he : c.entry id with
  | none =>
    split_ifs <;> exact .same hcredit.1
  | some e =>
    simp only
    split_ifs
    · exact .same ((parked_streamError _ id _).trans hcredit.1)
    · refine (Parks.forward _ id _ endStream).after hcredit.1 fun h => ?_
      have hsame : (c.restoreWindows id data).bodyTight id = c.bodyTight id := by
        rw [bodyTight, hcredit.2, bodyTight]
      rw [← hsame]
      refine (bodyTight_setEntry ((hcredit.2 id).trans he) ?_).symm.trans h
      rfl

theorem Parks.finalizeFieldBlock (http : HttpCrate) (c : Connection) (id : ℕ) :
    Parks id c (finalizeFieldBlock http c id) := by
  have hspawn : ∀ (c : Connection) endStream parsed,
      (c.spawnRequest id endStream parsed).parked = c.parked := by
    intro c endStream parsed
    rw [spawnRequest]
    cases c.entry id with
    | none => rfl
    | some e =>
      split_ifs
      · exact parked_streamError _ id _
      · rfl
  rw [Connection.finalizeFieldBlock]
  cases he : c.entry id with
  | none => exact .same rfl
  | some e =>
    simp only
    generalize c.requestDecoder.decode e.fieldBlock e.headerListSize = r
    obtain ⟨decoder, size, decoded⟩ := r
    have hset : ((c.setDecoder decoder).setEntry id (e.takeBlock size)).entry id =
      some (e.takeBlock size) := entry_setEntry _ id _
    have htight : ((c.setDecoder decoder).setEntry id (e.takeBlock size)).bodyTight id =
      c.bodyTight id := bodyTight_setEntry he rfl
    refine @Parks.after _ _ _ ((c.setDecoder decoder).setEntry id (e.takeBlock size)) ?_ rfl
      fun h => htight ▸ h
    generalize (c.setDecoder decoder).setEntry id (e.takeBlock size) = c₁ at hset
    generalize e.takeBlock size = e₁ at hset
    cases decoded with
    | error error =>
      cases error with
      | headerListTooLarge => exact .same (parked_streamError c₁ id _)
      | _ => exact .same rfl
    | ok headers =>
      rw [finalizeDecoded]
      split_ifs
      · rw [finalizeTrailers]
        cases parseTrailers http headers with
        | none => exact .same (parked_streamError c₁ id _)
        | some trailers =>
          split_ifs
          · exact .same (parked_streamError c₁ id _)
          · exact .same (parked_streamError _ id _)
          · refine (Parks.forward _ id _ true).after rfl fun h => ?_
            refine (bodyTight_setEntry hset ?_).symm.trans h
            rfl
      · rw [finalizeRequest]
        cases parseRequest http headers with
        | none => exact .same (parked_streamError c₁ id _)
        | some parsed =>
          split_ifs
          · intro p hp
            rw [hspawn] at hp
            exact (Blocks.endRequestBody c₁ id).parks p hp
          · exact .same (hspawn _ _ _)

/-- The block that a frame of the stream has completed. -/
theorem Parks.finalizeComplete (http : HttpCrate)
    (hblocks : c.completeBlocks = [] ∨ c.completeBlocks = [id]) :
    Parks id c (finalizeComplete http c) := by
  rw [Connection.finalizeComplete, takeCompleteBlock]
  rcases hblocks with h | h
  · rw [h]
    exact .same rfl
  · rw [h, takeComplete]
    split_ifs
    · exact (Parks.finalizeFieldBlock http _ id).after rfl (·)
    · exact .same rfl

theorem bodyTight_of_none (h : c.entry id = none) : c.bodyTight id = false := by
  rw [bodyTight, h]
  rfl

theorem bodyTight_streamError {reason : Reason}
    (h : (c.streamError id reason).bodyTight id = true) : c.bodyTight id = true := by
  have hgone : ∀ c : Connection, (c.retire id).bodyTight id = false :=
    fun c => bodyTight_of_none (entry_removeStream _ id)
  rw [streamError] at h
  split_ifs at h
  · exact h
  · rw [hgone] at h
    cases h
  · rw [hgone] at h
    cases h

theorem Fragment.bodyTight {fin : Prop} {endHeaders : Bool} (h : Fragment id fin endHeaders c c')
    (htight : c'.bodyTight id = true) : c.bodyTight id = true := by
  have hset : ∀ {e e' : StreamEntry} {c : Connection}, c.entry id = some e → e.Bookkeeps e' →
      (c.setEntry id e').bodyTight id = c.bodyTight id :=
    fun he hbook => bodyTight_setEntry he (by rw [hbook])
  cases h with
  | ignored | invalid | refuse => exact htight
  | opens endStream block =>
    -- a stream that is opened has an empty body channel, or none
    rw [bodyTight, entry_setEntry] at htight
    cases endStream <;> cases htight
  | ended => exact bodyTight_streamError htight
  | extend he hbook =>
    cases endHeaders with
    | true => exact (hset he hbook).symm.trans htight
    | false => exact (hset he hbook).symm.trans htight
  | @flood e e' he hbook =>
    have hclear : ((c.setEntry id e').clearBlock id).bodyTight id = true :=
      bodyTight_streamError htight
    exact (hset he hbook).symm.trans hclear

theorem parked_applyPeerSettings (c : Connection) (settings : List Setting) :
    (c.applyPeerSettings settings).parked = c.parked := by
  refine applyPeerSettings_induction (P := fun c' => c'.parked = c.parked) (fun hs h => ?_) settings
    rfl
  cases hs with
  | shift | overflow | invalid => exact h
  | other _ _ heq =>
    rw [heq]
    exact h

theorem Responds.parked (h : Responds c c') : c'.parked = c.parked :=
  (congrArg Connection.parked h.same).trans rfl

theorem WindowUpdate.parked {increment : ℕ} (h : WindowUpdate hint id increment c c') :
    c'.parked = c.parked := by
  cases h with
  | empty | gone | overflow | idle => rfl
  | connection => exact (Responds.drainPendingData (c.growWindow increment) hint).parked
  | error => exact parked_streamError c id _
  | @stream e =>
    exact (Responds.pumpStreamData (c.setEntry id (e.growWindow increment)) id).parked

/-- A frame without a field block makes the connection wait only if it brings data. -/
theorem Handled.parks {f : Frame} (h : Handled hint c f c') :
    c'.parked = c.parked ∨ ∃ id, f.about = some id ∧ Parks id c c' := by
  cases h with
  | ignored | ping | goAway | pushPromise => exact .inl rfl
  | settings settings => exact .inl (parked_applyPeerSettings c settings)
  | data id endStream octs => exact .inr ⟨id, rfl, .handleDataFrame c id endStream octs⟩
  | windowUpdate h => exact .inl h.parked
  | reset id =>
    left
    rw [handleResetFrame]
    cases c.entry id with
    | none | some e =>
      simp only
      split_ifs <;> rfl

/-- A frame makes the connection wait for its own stream only. -/
theorem Processed.parks {http : HttpCrate} {f : Frame} (ht : Tidy c)
    (h : Processed http hint c f c') :
    c'.parked = c.parked ∨ ∃ id, f.about = some id ∧ Parks id c c' := by
  have hfragment : ∀ {id fin endHeaders b c'}, Fragment id fin endHeaders (c.setBlockStream b) c' →
      Parks id c (finalizeComplete http c') := fun {_ _ _ b _} h =>
    (Parks.finalizeComplete http
      ((Completes.fragment h).completeBlocks (ht.setBlockStream b).complete)).after
      h.parked h.bodyTight
  cases h with
  | rejected | goAway => exact .inl rfl
  | headers => exact .inr ⟨_, rfl, hfragment (.handleHeadersFrame _ _ _ _ _)⟩
  | continuation => exact .inr ⟨_, rfl, hfragment (.handleContinuation _ _ _ _)⟩
  | pushPromise blockStream =>
    rw [finalizeComplete_tidy http ((ht.setBlockStream blockStream).goaway _ _)]
    exact .inl rfl
  | other _ h =>
    rw [finalizeComplete_tidy http (h.tidy ht)]
    exact h.parks

/-- A connection that goes on waits for the same stream, if at all. -/
theorem parks_resume {p : Parked} (hp : c.resume.parked = some p) :
    c.waitsForBody p.streamId = true := by
  rw [resume] at hp
  cases hparked : c.parked with
  | none =>
    rw [hparked] at hp
    cases hparked.symm.trans hp
  | some p₀ =>
    have hwaits : p₀.streamId = p.streamId → c.waitsForBody p.streamId = true := fun hid => by
      rw [waitsForBody, hparked, any_some, hid]
      exact decide_eq_true rfl
    refine hwaits ?_
    simp only [hparked] at hp
    cases he : c.entry p₀.streamId with
    | none =>
      rw [he] at hp
      cases hp
    | some e =>
      simp only [he] at hp
      split_ifs at hp
      · cases (Reaches.parked_deliver (c.park none) p₀.streamId e p₀.msg).symm.trans hp
      · rcases Parks.afterBody (c := c.park none) he p₀.msg p₀.endStream p hp with hp | ⟨hid, -⟩
        · cases hp
        · exact hid.symm
      · rw [some.inj (hparked.symm.trans hp)]

theorem parked_onTask (c : Connection) (id : ℕ) (t : TaskEvent) :
    (c.onTask id t).parked = c.parked := by
  rw [onTask_same]

theorem step_waitsForBody (http : HttpCrate) (ht : Tidy c) (ev : Event)
    (h : (step http c ev).waitsForBody id = true) : c.waitsForBody id = true ∨
      ∃ hint f, ev = .frame hint f ∧ f.about = some id ∧ c.bodyTight id = true := by
  obtain ⟨p, hp, hid⟩ := (any_eq_true _ _).1 h
  obtain rfl := of_decide_eq_true hid
  have hsame : c.parked = some p → c.waitsForBody p.streamId = true := fun hparked => by
    rw [waitsForBody, hparked]
    exact decide_eq_true rfl
  have hstep := step_stepped http c ev
  generalize step http c ev = c' at hp hstep
  cases hstep with
  | same | frameError | shutdown | finish => exact .inl (hsame hp)
  | @frame hint f _ _ hf =>
    rcases hf.parks ht with heq | ⟨id, habout, hparks⟩
    · exact .inl (hsame (heq ▸ hp))
    · rcases hparks p hp with hp | ⟨rfl, htight⟩
      · exact .inl (hsame hp)
      · exact .inr ⟨hint, f, rfl, habout, htight⟩
  | resume => exact .inl (parks_resume hp)
  | @drain id => exact .inl (hsame ((Responds.drainStream c id).parked ▸ hp))
  | @task id t => exact .inl (hsame (parked_onTask c id t ▸ hp))

end Waits

/-! ### Runs -/

section Runs
variable {c : Connection} {id : ℕ} {waits : Bool}

/-- The connection and the stream's task do not wait for each other. -/
structure Apart (id : ℕ) (waits : Bool) (c : Connection) : Prop where
  full : waits = true → c.msgsFull id = true
  apart : ¬ (c.waitsForBody id = true ∧ waits = true)

theorem Apart.step (http : HttpCrate) (ht : Tidy c) (h : Apart id waits c) (ev : Event)
    (hev : c.leavesRoom ev = true) :
    Apart id (taskWaits id waits c ev (step http c ev)) (step http c ev) := by
  refine ⟨fun hwaits => (Bool.and_eq_true_iff.1 hwaits).1, fun ⟨hbody, hwaits⟩ => ?_⟩
  have hcause := (Bool.and_eq_true_iff.1 hwaits).2
  -- A task that waits already keeps its message channel full.
  have hold : waits = true → False := by
    intro hw
    rcases step_waitsForBody http ht ev hbody with hbody | ⟨hint, f, rfl, habout, htight⟩
    · exact h.apart ⟨hbody, hw⟩
    · simp [leavesRoom, habout, htight, h.full hw] at hev
  rcases Bool.or_eq_true_iff.1 hcause with hw | hsend
  · exact hold hw
  cases ev with
  | task id' t =>
    cases t with
    | send msg =>
      simp only [and_eq_true, decide_eq_true_eq] at hsend
      obtain ⟨⟨rfl, -⟩, hfull⟩ := hsend
      have hbefore : c.waitsForBody id' = true := by
        rw [waitsForBody, ← parked_onTask c id' (.send msg)]
        exact hbody
      simp [leavesRoom, hbefore, hfull] at hev
    | receive | dropBody => cases hsend
  | _ => cases hsend

theorem Apart.run (http : HttpCrate) (events : List Event) : ∀ (c : Connection) (waits : Bool),
    Reasonable c → Apart id waits c → Along http (fun c ev => c.leavesRoom ev = true) events c →
    Apart id (taskWaitsIn http id events c waits) (run http events c) := by
  induction events with
  | nil => exact fun _ _ _ h _ => h
  | cons ev events ih =>
    intro c waits hr h hall
    exact ih _ _ (hr.stepAny http ev) (h.step http hr.tidy ev hall.1) hall.2

/-- The connection never waits for the body channel of a stream whose task waits for its
message channel, if frames come on a stream with a nearly full body channel only while
its message channel has room, and the task of the stream for which the connection waits
sends only with room. -/
theorem run_no_deadlock (http : HttpCrate) (opts : ConnectionOptions) (events : List Event) (id : ℕ)
    (hall : Along http (fun c ev => c.leavesRoom ev = true) events (start opts)) :
    ¬ ((run http events (start opts)).waitsForBody id = true ∧
      taskWaitsIn http id events (start opts) false = true) :=
  (Apart.run http events _ false (.start _ opts) ⟨nofun, by simp⟩ hall).apart

/-- A handler that reads before it sends, with a peer that sends nine times. -/
theorem run_no_deadlock_reader :
    let data := .frame [] (.data 1 false [0x61])
    let events := .frame [] (.headers 1 false true none [0x83, 0x86, 0x84]) ::
      List.replicate 9 data ++ .task 1 .receive :: .resume ::
      List.replicate 9 (.task 1 (.send (.data [0x62] false)))
    taskWaitsIn .permissive 1 events (start .default) false = true ∧
    ¬ ((run .permissive events (start .default)).waitsForBody 1 = true ∧
      taskWaitsIn .permissive 1 events (start .default) false = true) := by
  intro data events
  exact ⟨by decide +kernel, run_no_deadlock .permissive .default events 1 (by decide +kernel)⟩

/-- Both channels of a stream are full, and the connection waits. -/
def Stuck (id : ℕ) (c : Connection) : Prop :=
  c.waitsForBody id = true ∧ c.msgsFull id = true ∧ ∃ e, c.entry id = some e ∧ e.bodyReady = false

/-- Nothing but the task of the stream could help, but the task waits. -/
theorem Stuck.step (http : HttpCrate) (h : Stuck id c) (ev : Event)
    (hev : ev ≠ .task id .receive ∧ ev ≠ .task id .dropBody) : Stuck id (step http c ev) := by
  obtain ⟨hwaits, hfull, e, he, hready⟩ := h
  obtain ⟨p, hp, hid⟩ := (any_eq_true _ _).1 hwaits
  obtain rfl := of_decide_eq_true hid
  have hidle : c.idle = false := by simp [idle, hp]
  have hreading : c.reading = false := by simp [reading, hidle]
  have hstays : Stuck p.streamId c := ⟨hwaits, hfull, e, he, hready⟩
  cases ev with
  | frame | frameError | shutdown =>
    rw [step, hreading]
    exact hstays
  | resume =>
    have hresume : c.resume = c := by simp [resume, hp, he, hready]
    rw [step, hresume]
    exact hstays
  | drainStream | finish =>
    rw [step, hidle]
    exact hstays
  | task id t =>
    by_cases hid : id = p.streamId
    · subst hid
      cases t with
      | receive => exact absurd rfl hev.1
      | dropBody => exact absurd rfl hev.2
      | send msg =>
        have hsame : e.onTask (.send msg) = e := by
          have hlen : ¬ e.msgs.length < channelCapacity := by
            simpa [msgsFull, he, StreamEntry.msgsFull] using hfull
          exact if_neg hlen
        rw [step]
        unfold onTask
        split_ifs
        · simp only [he, hsame]
          exact ⟨hwaits, by rw [msgsFull, entry_setEntry, ← he]; exact hfull, e,
            entry_setEntry _ _ _, hready⟩
        · exact hstays
    · have hentry : (c.onTask id t).entry p.streamId = c.entry p.streamId := by
        refine onTask_induction (P := fun c' => c'.entry p.streamId = c.entry p.streamId) t
          (fun _ => rfl) ?_
        exact fun e' _ _ => entry_setEntry_ne _ _ _ _ (Ne.symm hid)
      refine ⟨?_, ?_, e, hentry.trans he, hready⟩
      · change (c.onTask id t).waitsForBody p.streamId = true
        rw [waitsForBody, parked_onTask]
        exact hwaits
      · change (c.onTask id t).msgsFull p.streamId = true
        rw [msgsFull, hentry]
        exact hfull

theorem Stuck.run (http : HttpCrate) (events : List Event) : ∀ {c : Connection}, Stuck id c →
    (∀ ev ∈ events, ev ≠ .task id .receive ∧ ev ≠ .task id .dropBody) →
    Stuck id (run http events c) := by
  induction events with
  | nil => exact fun h _ => h
  | cons ev events ih =>
    intro c h hev
    exact ih (h.step http ev (hev ev mem_cons_self))
      fun ev' hmem => hev ev' (mem_cons_of_mem _ hmem)

/-- A handler that sends nine messages before it reads, with a peer that sends nine
times: both wait, and nothing that happens but a read by the waiting task ends it. -/
theorem run_deadlock :
    let events := .frame [] (.headers 1 false true none [0x83, 0x86, 0x84]) ::
      List.replicate 9 (.frame [] (.data 1 false [0x61])) ++
      List.replicate 9 (.task 1 (.send (.data [0x62] false)))
    taskWaitsIn .permissive 1 events (start .default) false = true ∧
      ∀ more : List Event, (∀ ev ∈ more, ev ≠ .task 1 .receive ∧ ev ≠ .task 1 .dropBody) →
        Stuck 1 (run .permissive (events ++ more) (start .default)) := by
  intro events
  have hstuck : Stuck 1 (run .permissive events (start .default)) := by
    refine ⟨by decide +kernel, by decide +kernel, ?_⟩
    have hready : ((run .permissive events (start .default)).entry 1).any
        (fun e => !e.bodyReady) = true := by decide +kernel
    obtain ⟨e, he, hfull⟩ := (Option.any_eq_true _ _).1 hready
    exact ⟨e, he, by simpa using hfull⟩
  refine ⟨by decide +kernel, fun more hmore => ?_⟩
  exact hstuck.run .permissive more hmore

end Runs

end Connection

end ZincioHttp.H2
