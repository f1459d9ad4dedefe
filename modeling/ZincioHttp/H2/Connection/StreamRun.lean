import ZincioHttp.H2.Connection.Resets

/-! One stream's response through a whole run. What is to hold of it has to be shown for the
few things that can happen to the stream: it gets its task, a message is handled, a chunk of
its queue is sent, it is given up. Everything else that happens on the connection leaves it
alone. -/

namespace ZincioHttp.H2

open List
open H2.Hpack (Header)
open Lib (Adds)

/-- HEADERS, CONTINUATION, DATA and RST_STREAM of one stream. -/
def Frame.respondsOn (id : ℕ) : Frame → Bool
  | .headers id' _ _ _ _ | .continuation id' _ _ | .data id' _ _ | .reset id' _ => decide (id' = id)
  | _ => false

theorem Frame.respondsOn_of_control {id : ℕ} {f : Frame} (hcontrol : f.isControl = true)
    (h : ∀ code, f ≠ .reset id code) : f.respondsOn id = false := by
  cases f with
  | reset id' code =>
    refine decide_eq_false ?_
    rintro rfl
    exact h code rfl
  | headers | continuation | data => cases hcontrol
  | _ => rfl

theorem writeFieldBlock_respondsOn (capacity streamId id : ℕ) (endStream : Bool) (block : Octets) :
    ∀ f ∈ writeFieldBlock capacity streamId endStream block,
      f.respondsOn id = decide (streamId = id) := by
  obtain ⟨_, _, more, heq, hmore⟩ := writeFieldBlock_cons capacity streamId endStream block
  rw [heq, forall_mem_cons]
  refine ⟨rfl, fun f hf => ?_⟩
  obtain ⟨_, _, rfl⟩ := hmore f hf
  rfl

namespace Connection

/-! ### Other streams -/

/-- No frame of a stream is written and its entry stays. -/
structure Aside (id : ℕ) (c c' : Connection) : Prop where
  entry : c'.entry id = c.entry id
  written : ∃ w, c'.written = c.written ++ w ∧ ∀ f ∈ w, f.respondsOn id = false

namespace Aside

variable {id id' : ℕ} {c c' : Connection}

theorem silent (hentry : c'.entry id = c.entry id) (hw : c'.written = c.written) : Aside id c c' :=
  ⟨hentry, Adds.none hw⟩

theorem refl (id : ℕ) (c : Connection) : Aside id c c := silent rfl rfl

theorem trans {c'' : Connection} (h : Aside id c c') (h' : Aside id c' c'') : Aside id c c'' :=
  ⟨h'.entry.trans h.entry, Adds.trans h.written h'.written⟩

theorem setEntry (c : Connection) (e : StreamEntry) (hid : id ≠ id') :
    Aside id c (c.setEntry id' e) :=
  silent (entry_setEntry_ne _ _ _ _ hid) rfl

theorem retire (c : Connection) (hid : id ≠ id') : Aside id c (c.retire id') :=
  silent (entry_removeStream_ne _ _ _ hid) rfl

theorem write (c : Connection) {w : List Frame} (hw : ∀ f ∈ w, f.respondsOn id = false) :
    Aside id c (c.write w) :=
  ⟨rfl, w, rfl, hw⟩

theorem writeFields (c : Connection) (endStream : Bool) (fields : List Header) (hid : id ≠ id') :
    Aside id c (c.writeFields id' endStream fields) :=
  ⟨rfl, _, rfl, fun f hf => (writeFieldBlock_respondsOn _ _ id _ _ f hf).trans
    (decide_eq_false hid.symm)⟩

theorem settle (c : Connection) {p : Pump} (hid : id ≠ id')
    (hw : ∀ f ∈ p.written, f.respondsOn id = false) : Aside id c (c.settle id' p) := by
  have hput : Aside id c { (c.setEntry id' p.entry).write p.written with
      connWindow := p.connWindow } :=
    ((setEntry c p.entry hid).trans (write _ hw)).trans (silent rfl rfl)
  rw [Connection.settle]
  by_cases hr : p.retired = true
  · simp only [hr]
    exact hput.trans (retire _ hid)
  · simp only [hr]
    exact hput

theorem closed (id : ℕ) : ResponseClosed (fun id' => id ≠ id') (Aside id) where
  refl := refl id
  trans := trans
  setEntry c _ _ e' hid _ _ _ := setEntry c e' hid
  settle c _ _ p hid _ hp := settle c hid fun f hf => by
    obtain ⟨frameEnd, octs, rfl, -⟩ := hp.written f hf
    exact decide_eq_false hid.symm
  writeFields c _ endStream fields hid := writeFields c endStream fields hid
  reset c _ _ hid := write c fun _ hf => mem_singleton.1 hf ▸ decide_eq_false hid.symm
  retire c _ hid := retire c hid

end Aside

/-! ### What a task adds -/

/-- What a task adds to its response. A message for a stream that has gone counts too. -/
def sent (c : Connection) (id : ℕ) : Event → List StreamMsg
  | .task id' (.send msg) =>
    if id' = id ∧ c.spawned id = true then
      match c.entry id with
      | none => [msg]
      | some e => if e.msgs.length < channelCapacity then [msg] else []
    else []
  | _ => []

/-- The response messages of a stream's task in a run. -/
def produced (http : HttpCrate) (id : ℕ) : List Event → Connection → List StreamMsg
  | [], _ => []
  | ev :: events, c => c.sent id ev ++ produced http id events (step http c ev)

/-- The event has something for a request body that nobody reads, and the response
has not ended. -/
def unread (id : ℕ) (c : Connection) : Event → Bool
  | .frame _ f => c.reading && decide (f.feeds = some id) && (c.entry id).any fun e =>
      (e.requestStarted || e.body.isSome) && !e.hears && !e.localEnded
  | .resume => c.parked.any fun p => decide (p.streamId = id) &&
      (c.entry id).any fun e => !e.hears && !e.localEnded
  | _ => false

variable {e : StreamEntry}

section Tasks
variable {id : ℕ} {lost : Prop} {c : Connection}

theorem onTask_response (he : c.entry id = some e) (hspawned : c.spawned id = true)
    (t : TaskEvent) :
    (e.onTask t).msgs = e.msgs ++ c.sent id (.task id t) ∧
      (e.onTask t).localEnded = e.localEnded ∧ (e.onTask t).taskDone = e.taskDone ∧
      (e.onTask t).pendingData = e.pendingData := by
  cases t with
  | send msg =>
    simp only [StreamEntry.onTask, sent, hspawned, he, and_self]
    split_ifs
    · exact ⟨rfl, rfl, rfl, rfl⟩
    · exact ⟨(append_nil _).symm, rfl, rfl, rfl⟩
  | receive | dropBody => exact ⟨(append_nil _).symm, rfl, rfl, rfl⟩

theorem sent_eq_nil (c : Connection) {ev : Event} (hev : ∀ id' t, ev ≠ .task id' t) :
    c.sent id ev = [] := by
  cases ev with
  | task id' t => exact absurd rfl (hev id' t)
  | _ => rfl

/-- Other streams may be given up, and this one once its response has ended. -/
theorem step_effect_unread (http : HttpCrate) (ht : Tidy c) (ev : Event)
    (hreset : ∀ hint code, ev = .frame hint (.reset id code) → lost)
    (hread : c.unread id ev = true → lost) :
    Effect (fun id' => id' = id → lost ∨ ∃ e, c.entry id = some e ∧ e.localEnded = true) c ev
      (step http c ev) := by
  refine step_effect http ht ev ?_ ?_ ?_
  · rintro hint id' code hev rfl
    exact .inl (hreset hint code hev)
  · rintro hint f rfl hreading id' hfeeds e he hwanted hears rfl
    cases hended : e.localEnded with
    | true => exact .inr ⟨e, he, hended⟩
    | false =>
      refine .inl (hread ?_)
      simpa [unread, hreading, hfeeds, he, hears, hended] using hwanted
  · rintro rfl p hp e he hears hid
    rw [hid] at he
    cases hended : e.localEnded with
    | true => exact .inr ⟨e, he, hended⟩
    | false =>
      refine .inl (hread ?_)
      simp [unread, hp, hid, he, hears, hended]

end Tasks

/-! ### Stages of a stream -/

/-- What is to hold of a response: before the stream has a task, of what is on the wire; while
its entry is in the map, of the messages that have been handled, of what is on the wire and of
the entry; once the stream has gone, of all messages and of what is on the wire. -/
structure Account where
  fresh : List Frame → Prop
  live : List StreamMsg → List Frame → StreamEntry → Prop
  gone : List StreamMsg → List Frame → Prop

/-- Where the messages `msgs` of a stream's task are. -/
inductive Stage (id : ℕ) (A : Account) (msgs : List StreamMsg) (c : Connection) : Prop
  /-- The stream has no task yet. -/
  | waiting (hnone : c.entry id = none) (hnot : c.spawned id = false) (hmsgs : msgs = [])
      (h : A.fresh c.written)
  | live (e : StreamEntry) (handled : List StreamMsg) (he : c.entry id = some e)
      (hmsgs : msgs = handled ++ e.msgs) (h : A.live handled c.written e)
  | gone (hnone : c.entry id = none) (hle : id ≤ c.highestStreamId) (h : A.gone msgs c.written)

/-- Sending queued data keeps an account. -/
structure Sends (id : ℕ) (A : Account) : Prop where
  live_entry : ∀ {handled w e e'}, A.live handled w e → e'.localEnded = e.localEnded →
    e'.taskDone = e.taskDone → e'.pendingData = e.pendingData → A.live handled w e'
  /-- A first part of the front chunk is sent. -/
  sendPart : ∀ {handled w e amount data fin rest}, A.live handled w e → e.localEnded = false →
    e.pendingData = (data, fin) :: rest →
    A.live handled (w ++ [.data id false (data.take amount)])
      { e with pendingData := (data.drop amount, fin) :: rest }
  /-- The front chunk is sent to its end. -/
  sendAll : ∀ {handled w e data fin rest}, A.live handled w e → e.localEnded = false →
    e.pendingData = (data, fin) :: rest → (fin = true → e.taskDone = false) →
    A.live handled (w ++ [.data id fin data]) { e with pendingData := rest, localEnded := fin }
  /-- The last chunk is sent after the task has finished. -/
  sendLast : ∀ {handled w e data rest}, A.live handled w e → e.localEnded = false →
    e.pendingData = (data, true) :: rest → e.taskDone = true →
    A.gone handled (w ++ [.data id true data])

/-- Whatever happens to a stream other than that its messages are handled keeps its account,
for messages that are `ok`. `lost` says whether the stream may be given up without END_STREAM
and RST_STREAM. -/
structure Upholds (id : ℕ) (lost : Prop) (ok : List StreamMsg → Prop) (A : Account) : Prop
    extends Sends id A where
  ok_left : ∀ {msgs more}, ok (msgs ++ more) → ok msgs
  fresh_nil : A.fresh []
  fresh_aside : ∀ {w w'}, A.fresh w → (∀ f ∈ w', f.respondsOn id = false) → A.fresh (w ++ w')
  fresh_live : ∀ {w e}, A.fresh w → e.Fresh → A.live [] w e
  fresh_gone : ∀ {w w'}, A.fresh w → (∀ f ∈ w', f.isControl = true) →
    (lost ∨ ∃ code, .reset id code ∈ w ++ w') → A.gone [] (w ++ w')
  live_aside : ∀ {handled w w' e}, A.live handled w e → (∀ f ∈ w', f.respondsOn id = false) →
    A.live handled (w ++ w') e
  live_gone : ∀ {handled w w' e}, A.live handled w e → ok (handled ++ e.msgs) →
    (∀ f ∈ w', f.isControl = true) →
    (lost ∨ e.localEnded = true ∨ ∃ code, .reset id code ∈ w ++ w') →
    A.gone (handled ++ e.msgs) (w ++ w')
  gone_aside : ∀ {msgs w w'}, A.gone msgs w →
    (∀ f ∈ w', f.isControl = true ∨ f.respondsOn id = false) → A.gone msgs (w ++ w')
  gone_more : ∀ {msgs more w}, A.gone msgs w → ok (msgs ++ more) → A.gone (msgs ++ more) w

/-- A stream that is being pumped, with what was written before. -/
structure Pumping (A : Account) (handled : List StreamMsg) (w : List Frame)
    (msgs : List StreamMsg) (p : Pump) : Prop where
  live : p.retired = false → A.live handled (w ++ p.written) p.entry
  gone : p.retired = true → p.entry.localEnded = true ∧ A.gone handled (w ++ p.written)
  msgs : p.entry.msgs = msgs

section Upholding
variable {id : ℕ} {lost : Prop} {ok : List StreamMsg → Prop} {A : Account}
  {msgs handled : List StreamMsg} {c c' : Connection}

theorem Stage.start (hA : Upholds id lost ok A) (opts : ConnectionOptions) :
    Stage id A [] (start opts) := by
  refine .waiting (entry_start id opts) rfl rfl (hA.fresh_aside hA.fresh_nil fun f hf => ?_)
  exact mem_singleton.1 hf ▸ rfl

theorem Stage.live_of_entry (h : Stage id A msgs c) (he : c.entry id = some e) :
    ∃ handled, msgs = handled ++ e.msgs ∧ A.live handled c.written e := by
  cases h with
  | waiting hnone | gone hnone => cases hnone.symm.trans he
  | live e₁ handled he₁ hmsgs h =>
    obtain rfl := Option.some.inj (he.symm.trans he₁)
    exact ⟨handled, hmsgs, h⟩

theorem Pumping.moves (hA : Sends id A) {w : List Frame} {maxFrameSize : ℕ} {p p' : Pump}
    (hm : Pump.Moves id maxFrameSize p p') (h : Pumping A handled w msgs p) :
    Pumping A handled w msgs p' := by
  cases hm with
  | stay => exact h
  | send deficit amount data endStream rest hopen hfront =>
    have hretired : p.retired = false := by
      refine Bool.eq_false_iff.2 fun hr => ?_
      rw [(h.gone hr).1] at hopen
      cases hopen
    have hlive := h.live hretired
    by_cases hall : amount = data.length
    · subst hall
      rw [Pump.sendChunk_all]
      refine ⟨fun hr => ?_, fun hr => ?_, h.msgs⟩
      · rw [← append_assoc]
        refine hA.live_entry (hA.sendAll hlive hopen hfront fun hend => ?_) ?_ rfl rfl
        · simpa [hend] using hr
        · simp [hopen]
      · obtain ⟨rfl, htask⟩ := Bool.and_eq_true_iff.1 hr
        rw [← append_assoc]
        exact ⟨Bool.or_true _, hA.sendLast hlive hopen hfront htask⟩
    · rw [Pump.sendChunk_part _ _ _ _ hall]
      refine ⟨fun _ => ?_, fun hr => (by cases hretired.symm.trans hr), h.msgs⟩
      rw [← append_assoc]
      exact hA.live_entry (hA.sendPart hlive hopen hfront) rfl rfl rfl

theorem Pumping.of_reached (hA : Sends id A) {w : List Frame} {maxFrameSize : ℕ} {connWindow : ℤ}
    {p : Pump} (h : A.live handled w e) (hp : Pump.Reached id maxFrameSize e connWindow p) :
    Pumping A handled w e.msgs p := by
  refine hp.induction ⟨fun _ => ?_, nofun, rfl⟩ fun _ _ hm => Pumping.moves hA hm
  rwa [append_nil]

theorem Sends.settle (hA : Sends id A) {p : Pump} (h : A.live handled c.written e)
    (hp : Pump.Reached id c.peer.maxFrameSize e c.connWindow p) :
    (c.settle id p).entry id = some p.entry ∧ p.entry.msgs = e.msgs ∧
        A.live handled (c.settle id p).written p.entry ∨
      (c.settle id p).entry id = none ∧ A.gone handled (c.settle id p).written := by
  have hpumping := Pumping.of_reached hA h hp
  rw [Connection.settle]
  cases hr : p.retired with
  | true => exact .inr ⟨entry_removeStream _ id, (hpumping.gone hr).2⟩
  | false => exact .inl ⟨entry_setEntry c id p.entry, hpumping.msgs, hpumping.live hr⟩

namespace Upholds

variable (hA : Upholds id lost ok A)
include hA

/-- A stream that is not in the map after all has gone, or has no task yet. -/
theorem keeps_waiting {given : ℕ → Prop} (hnot : c.spawned id = false)
    (h : A.fresh c.written) (hk : KeepsResponse given c c')
    (hv : Vacates c c') (hgiven : given id → lost) (hnone' : c'.entry id = none) :
    Stage id A [] c' := by
  obtain ⟨w, hw, hcontrol⟩ := hk.written
  obtain ⟨w', hw', hvacates⟩ := hv
  obtain rfl := append_cancel_left (hw.symm.trans hw')
  by_cases hreset : ∃ code, .reset id code ∈ w
  · obtain ⟨code, hmem⟩ := hreset
    refine .gone hnone' (hvacates id code hmem).2 (hw ▸ hA.fresh_gone h hcontrol (.inr ⟨code, ?_⟩))
    exact mem_append_right _ hmem
  cases hspawned : c'.spawned id with
  | false =>
    refine .waiting hnone' hspawned rfl (hw ▸ hA.fresh_aside h fun f hf => ?_)
    exact Frame.respondsOn_of_control (hcontrol f hf) fun code heq => hreset ⟨code, heq ▸ hf⟩
  | true =>
    have hle := (hk.spawned id hspawned).resolve_left (by simp [hnot])
    refine .gone hnone' hle (hw ▸ hA.fresh_gone h hcontrol ?_)
    exact (hk.begun id hnot hspawned hnone').imp hgiven fun hmem => hw ▸ hmem

section
variable (h : Stage id A msgs c)
include h

/-- The request side, and whatever is only about the connection. `given` names the streams that
may be given up: this one only if that is allowed or its response has ended. -/
theorem keeps {given : ℕ → Prop} (hok : ok msgs) (ht : Tidy c) (hk : KeepsResponse given c c')
    (hv : Vacates c c')
    (hgiven : given id → lost ∨ ∃ e, c.entry id = some e ∧ e.localEnded = true) :
    Stage id A msgs c' := by
  obtain ⟨w, hw, hcontrol⟩ := hk.written
  -- a stream that stays was not reset
  have haside : ∀ {e'}, c'.entry id = some e' → ∀ f ∈ w, f.respondsOn id = false := by
    intro e' he' f hf
    obtain ⟨w', hw', hvacates⟩ := hv
    obtain rfl := append_cancel_left (hw.symm.trans hw')
    refine Frame.respondsOn_of_control (hcontrol f hf) ?_
    rintro code rfl
    rw [(hvacates id code hf).1] at he'
    cases he'
  cases h with
  | waiting hnone hnot hmsgs h =>
    cases he' : c'.entry id with
    | some e' =>
      rcases hk.entry id e' he' with ⟨e, he, -⟩ | ⟨-, -, hfresh⟩
      · cases hnone.symm.trans he
      · refine .live e' [] he' (by rw [hfresh.msgs, hmsgs]; rfl) ?_
        exact hw ▸ hA.fresh_live (hA.fresh_aside h (haside he')) hfresh
    | none =>
      rw [hmsgs]
      refine hA.keeps_waiting hnot h hk hv (fun hg => (hgiven hg).resolve_right ?_) he'
      rintro ⟨e, he, -⟩
      cases hnone.symm.trans he
  | live e handled he hmsgs h =>
    have hle := ht.bounded id e he
    cases he' : c'.entry id with
    | some e' =>
      rcases hk.entry id e' he' with ⟨e₁, he₁, hsame⟩ | ⟨hlt, -, -⟩
      · obtain rfl := Option.some.inj (he.symm.trans he₁)
        refine .live e' handled he' (by rw [hsame.msgs, hmsgs]) (hw ▸ ?_)
        exact hA.live_entry (hA.live_aside h (haside he')) hsame.localEnded hsame.taskDone
          hsame.pendingData
      · exact absurd hle (not_le.2 hlt)
    | none =>
      subst hmsgs
      refine .gone he' (hle.trans hk.highest) (hw ▸ hA.live_gone h hok hcontrol ?_)
      rcases hk.kept id e he he' with hg | hmem
      · refine (hgiven hg).imp_right fun ⟨e₁, he₁, hended⟩ => .inl ?_
        rwa [Option.some.inj (he.symm.trans he₁)]
      · exact .inr (.inr (hw ▸ hmem))
  | gone hnone hle h =>
    cases he' : c'.entry id with
    | none =>
      exact .gone he' (hle.trans hk.highest) (hw ▸ hA.gone_aside h fun f hf => .inl (hcontrol f hf))
    | some e' =>
      rcases hk.entry id e' he' with ⟨e, he, -⟩ | ⟨hlt, -, -⟩
      · cases hnone.symm.trans he
      · exact absurd hle (not_le.2 hlt)

theorem aside (ha : Aside id c c') (hhigh : c'.highestStreamId = c.highestStreamId)
    (hspawned : c'.spawned id = c.spawned id) : Stage id A msgs c' := by
  obtain ⟨w, hw, hquiet⟩ := ha.written
  cases h with
  | waiting hnone hnot hmsgs h =>
    exact .waiting (ha.entry.trans hnone) (hspawned.trans hnot) hmsgs (hw ▸ hA.fresh_aside h hquiet)
  | live e handled he hmsgs h =>
    exact .live e handled (ha.entry.trans he) hmsgs (hw ▸ hA.live_aside h hquiet)
  | gone hnone hle h =>
    exact .gone (ha.entry.trans hnone) (hhigh ▸ hle)
      (hw ▸ hA.gone_aside h fun f hf => .inr (hquiet f hf))

theorem responds (hr : Responds c c') (ha : Aside id c c') : Stage id A msgs c' :=
  hA.aside h ha hr.highestStreamId ((congrArg (fun c => c.spawned id) hr.same).trans rfl)

/-- The send window of a stream grows, or its share for this round. -/
theorem updateEntry {e' : StreamEntry} {id' : ℕ} (he : c.entry id' = some e)
    (hsame : e.SameResponse e') : Stage id A msgs (c.setEntry id' e') := by
  by_cases hid : id = id'
  · subst hid
    obtain ⟨handled, hmsgs, h⟩ := h.live_of_entry he
    exact .live e' handled (entry_setEntry c id e') (by rw [hsame.msgs, hmsgs])
      (hA.live_entry h hsame.localEnded hsame.taskDone hsame.pendingData)
  · exact hA.aside h (.setEntry c e' hid) rfl rfl

theorem pumps (hok : ok msgs) (ht : Tidy c) (id' : ℕ) :
    Stage id A msgs (c.pumpStreamData id') ∧ Stage id A msgs (c.pumpStreamDataDrr id') := by
  by_cases hid : id = id'
  · subst hid
    refine pumps_of_settle (fun _ => h) fun e p he hp => ?_
    obtain ⟨handled, rfl, hlive⟩ := h.live_of_entry he
    have hhigh : (c.settle id p).highestStreamId = c.highestStreamId :=
      (Responds.settle he hp.sameRequest).highestStreamId
    rcases hA.settle hlive hp with ⟨he', hmsgs, hlive⟩ | ⟨hnone, hgone⟩
    · exact .live p.entry handled he' (by rw [hmsgs]) hlive
    · exact .gone hnone (hhigh ▸ ht.bounded id e he) (hA.gone_more hgone hok)
  · have haside := (Aside.closed id).pumps c hid
    exact ⟨hA.responds h (.pumpStreamData c id') haside.1,
      hA.responds h (.pumpStreamDataDrr c id') haside.2⟩

theorem turn (hok : ok msgs) (ht : Tidy c) (quantum id' : ℕ) :
    Stage id A msgs (c.turn quantum id').1 := by
  rw [Connection.turn]
  cases he : c.entry id' with
  | none => exact h
  | some e =>
    simp only
    split_ifs
    · exact h
    · refine (hA.pumps (hA.updateEntry h he ?_) hok (ht.setEntry he _) id').2
      exact ⟨rfl, rfl, rfl, rfl, rfl⟩

theorem connectionWindow (hok : ok msgs) (ht : Tidy c) (hint : List ℕ) (increment : ℕ) :
    Stage id A msgs ((c.growWindow increment).drainPendingData hint) := by
  have hgrow : Tidy (c.growWindow increment) ∧ Stage id A msgs (c.growWindow increment) :=
    ⟨ht.growWindow increment, hA.aside h (.silent rfl rfl) rfl rfl⟩
  refine (drainPendingData_induction (P := fun c => Tidy c ∧ Stage id A msgs c) ?_ hint hgrow).2
  intro c quantum id' hc
  exact ⟨(Responds.closed.turn c quantum trivial).tidy hc.1, hA.turn hc.2 hok hc.1 quantum id'⟩

theorem task (id' : ℕ) (t : TaskEvent) (hok : ok (msgs ++ c.sent id (.task id' t))) :
    Stage id A (msgs ++ c.sent id (.task id' t)) (c.onTask id' t) := by
  by_cases hid : id' = id ∧ c.spawned id = true
  · obtain ⟨rfl, hspawned⟩ := hid
    cases h with
    | waiting _ hnot => cases hnot.symm.trans hspawned
    | gone hnone hle h =>
      refine onTask_induction (P := Stage id' A _) t
        (fun _ => .gone hnone hle (hA.gone_more h hok)) fun e _ he => ?_
      cases hnone.symm.trans he
    | live e handled he hmsgs h =>
      obtain ⟨hmsgs', hended', htask', hpending'⟩ := onTask_response he hspawned t
      rw [onTask_some hspawned he]
      refine .live _ handled (entry_setEntry c id' _) ?_ (hA.live_entry h hended' htask' hpending')
      rw [hmsgs', hmsgs, append_assoc]
  · have hnil : c.sent id (.task id' t) = [] := by
      cases t with
      | send msg => exact if_neg hid
      | receive => rfl
      | dropBody => rfl
    rw [hnil, append_nil]
    refine onTask_induction t (fun _ => hA.aside h (.silent rfl rfl) rfl rfl) fun e hspawned _ => ?_
    have hne : id ≠ id' := fun heq => hid ⟨heq.symm, heq ▸ hspawned⟩
    exact hA.aside h (.setEntry c _ hne) rfl rfl

end

end Upholds

/-- A batch of messages is handled if nothing is queued. -/
theorem Stage.drain (h : Stage id A msgs c)
    (hlive : ∀ e handled c', c.entry id = some e → msgs = handled ++ e.msgs →
      A.live handled c.written e → c'.highestStreamId = c.highestStreamId →
      c' = (mergeEnd e.msgs).foldl (fun c msg => c.handleStreamMsg id msg)
        (c.setEntry id { e with msgs := [] }) → Stage id A msgs c') :
    Stage id A msgs (c.drainStream id) := by
  have hhigh := (Responds.drainStream c id).highestStreamId
  rw [drainStream] at hhigh ⊢
  cases he : c.entry id with
  | none => exact h
  | some e =>
    simp only [he] at hhigh ⊢
    split_ifs at hhigh ⊢
    · obtain ⟨handled, hmsgs, h⟩ := h.live_of_entry he
      exact hlive e handled _ he hmsgs h hhigh rfl
    · exact h

end Upholding

/-! ### Runs -/

/-- Messages are handled too: whatever is drained when the connection `fits`. -/
structure Tracks (id : ℕ) (lost : Prop) (ok : List StreamMsg → Prop) (fits : Connection → Prop)
    (A : Account) : Prop extends Upholds id lost ok A where
  drain : ∀ {msgs c}, Stage id A msgs c → Tidy c → ok msgs → fits c →
    Stage id A msgs (c.drainStream id)

/-- What an event of a run has to meet for a stream. -/
structure Meets (id : ℕ) (lost : Prop) (fits : Connection → Prop) (c : Connection) (ev : Event) :
    Prop where
  drain : ev = .drainStream id → c.idle = true → fits c
  reset : ∀ hint code, ev = .frame hint (.reset id code) → lost
  read : c.unread id ev = true → lost

namespace Tracks

variable {id : ℕ} {lost : Prop} {ok : List StreamMsg → Prop} {fits : Connection → Prop}
  {A : Account} {msgs : List StreamMsg} {c : Connection}

theorem step (http : HttpCrate) (hA : Tracks id lost ok fits A) (h : Stage id A msgs c)
    (hs : Reasonable c) (ev : Event) (hok : ok (msgs ++ c.sent id ev))
    (hmeets : Meets id lost fits c ev) :
    Stage id A (msgs ++ c.sent id ev) (step http c ev) := by
  have heffect := step_effect_unread http hs.tidy ev hmeets.reset hmeets.read
  have hquiet : (∀ id' t, ev ≠ .task id' t) → c.sent id ev = [] := c.sent_eq_nil
  by_cases hdrain : ∃ id', ev = .drainStream id'
  · obtain ⟨id', rfl⟩ := hdrain
    rw [hquiet (by simp), append_nil] at hok ⊢
    rw [Connection.step]
    split_ifs with hidle
    · by_cases hid : id = id'
      · subst hid
        exact hA.drain h hs.tidy hok (hmeets.drain rfl hidle)
      · exact hA.responds h (.drainStream c id') ((Aside.closed id).drainStream c hid)
    · exact h
  rw [not_exists] at hdrain
  have hvacates := Vacates.step http hs ev hdrain
  have hblock : ∀ blockStream, Stage id A msgs (c.setBlockStream blockStream) := fun _ =>
    hA.aside h (.silent rfl rfl) rfl rfl
  generalize Connection.step http c ev = c' at heffect hvacates ⊢
  cases heffect with
  | task id' t => exact hA.task h id' t hok
  | keeps hk ht hev =>
    rw [hquiet hev, append_nil] at hok ⊢
    exact hA.keeps h hok hs.tidy hk hvacates fun hg => hg rfl
  | drain id' => exact absurd rfl (hdrain id')
  | connectionWindow hint increment blockStream hreading =>
    rw [hquiet (by simp), append_nil] at hok ⊢
    exact hA.connectionWindow (hblock blockStream) hok (hs.tidy.setBlockStream blockStream) hint
      increment
  | streamWindow hint id' increment blockStream e he =>
    rw [hquiet (by simp), append_nil] at hok ⊢
    have ht := hs.tidy.setBlockStream blockStream
    refine (hA.pumps (hA.updateEntry (hblock blockStream) he ?_) hok (ht.setEntry he _) id').1
    exact ⟨rfl, rfl, rfl, rfl, rfl⟩

/-- Whole runs, as long as the stream is given up only if it may be. -/
theorem run (http : HttpCrate) (hA : Tracks id lost ok fits A) (opts : ConnectionOptions)
    {events : List Event} (hmeets : Along http (Meets id lost fits) events (start opts))
    (hok : ok (produced http id events (start opts))) :
    Stage id A (produced http id events (start opts)) (run http events (start opts)) := by
  have hrun : ∀ (events : List Event) {msgs : List StreamMsg} {c : Connection}, Stage id A msgs c →
      Reasonable c → Along http (Meets id lost fits) events c →
        ok (msgs ++ produced http id events c) →
      Stage id A (msgs ++ produced http id events c) (Connection.run http events c) := by
    intro events
    induction events with
    | nil =>
      intro msgs c h _ _ _
      rwa [produced, append_nil]
    | cons ev events ih =>
      intro msgs c h hs hmeets hok
      rw [produced, ← append_assoc] at hok ⊢
      exact ih (hA.step http h hs ev (hA.ok_left hok) hmeets.1) (hs.stepAny http ev) hmeets.2 hok
  exact hrun events (.start hA.toUpholds opts) (.start _ opts) hmeets hok

end Tracks

/-- The peer admits frames of some size in every state of a run. -/
theorem along_sized (http : HttpCrate) (opts : ConnectionOptions) (events : List Event) :
    Along http (fun c _ => Reasonable c ∧ 0 < c.peer.maxFrameSize) events (start opts) := by
  have hrun : ∀ (events : List Event) (c : Connection), Reasonable c → 0 < c.peer.maxFrameSize →
      Along http (fun c _ => Reasonable c ∧ 0 < c.peer.maxFrameSize) events c := by
    intro events
    induction events with
    | nil => exact fun c _ _ => trivial
    | cons ev events ih =>
      exact fun c hs hsize => ⟨⟨hs, hsize⟩, ih _ (hs.stepAny http ev)
        ((step_effect_any http hs.tidy ev).maxFrameSize hsize)⟩
  exact hrun events _ (.start _ opts) (Nat.succ_pos _)

end Connection

end ZincioHttp.H2
