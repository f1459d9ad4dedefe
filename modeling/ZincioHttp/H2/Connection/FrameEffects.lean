import ZincioHttp.H2.Connection.Inbound

/-! What a frame of the peer leaves of the responses. Apart from window updates no
frame moves response data: the streams keep their responses, new streams come up
without one, and all that is written are control frames. -/

namespace ZincioHttp.H2

open StreamEntry
open H2.Hpack (Header)
open Lib (Adds)

structure StreamEntry.Fresh (e : StreamEntry) : Prop where
  msgs : e.msgs = []
  localEnded : e.localEnded = false
  pendingData : e.pendingData = []

theorem StreamEntry.Fresh.sameResponse {e e' : StreamEntry} (h : e.Fresh)
    (hs : e.SameResponse e') : e'.Fresh :=
  ⟨hs.msgs.trans h.msgs, hs.localEnded.trans h.localEnded, hs.pendingData.trans h.pendingData⟩

/-- The stream whose body reader a frame may have something for. -/
def Frame.feeds : Frame → Option ℕ
  | .data id endStream octs => if octs = [] ∧ endStream = false then none else some id
  | .headers id _ true _ _ | .continuation id true _ => some id
  | _ => none

namespace Connection

def Bounded (c : Connection) : Prop := ∀ id e, c.entry id = some e → id ≤ c.highestStreamId

structure KeepsResponse (lost : ℕ → Prop) (c c' : Connection) : Prop extends Guards lost c c' where
  highest : c.highestStreamId ≤ c'.highestStreamId
  entry : ∀ id e', c'.entry id = some e' → (∃ e, c.entry id = some e ∧ e.SameResponse e') ∨
    c.highestStreamId < id ∧ id ≤ c'.highestStreamId ∧ e'.Fresh
  spawned : ∀ id, c'.spawned id = true → c.spawned id = true ∨ id ≤ c'.highestStreamId
  begun : ∀ id, c.spawned id = false → c'.spawned id = true → c'.entry id = none →
    lost id ∨ ∃ code, Frame.reset id code ∈ c'.written

namespace KeepsResponse

variable {lost : ℕ → Prop} {c c' : Connection} {id : ℕ}

theorem of_receives (hb : Bounded c) (h : Receives lost c c') : KeepsResponse lost c c' := by
  have hhigh : c'.highestStreamId = c.highestStreamId :=
    congrArg (fun s => s.2.2.2.2.1) h.blockState
  refine ⟨h.toGuards, hhigh.ge, ?_, ?_, ?_⟩
  · intro id e' he'
    obtain ⟨e, he, -, hs⟩ := h.entry id e' he'
    exact .inl ⟨e, he, hs⟩
  · intro id hid
    refine (h.spawned id hid).imp_right fun hsome => ?_
    obtain ⟨e, he⟩ := Option.isSome_iff_exists.1 hsome
    exact hhigh ▸ hb id e he
  · intro id hnot hid hnone
    rcases h.spawned id hid with h' | hsome
    · cases hnot.symm.trans h'
    · obtain ⟨e, he⟩ := Option.isSome_iff_exists.1 hsome
      exact h.kept id e he hnone

theorem bounded (h : KeepsResponse lost c c') (hb : Bounded c) : Bounded c' := by
  intro id e' he'
  rcases h.entry id e' he' with ⟨e, he, -⟩ | ⟨-, hle, -⟩
  · exact (hb id e he).trans h.highest
  · exact hle

theorem trans {c'' : Connection} (h : KeepsResponse lost c c') (h' : KeepsResponse lost c' c'') :
    KeepsResponse lost c c'' where
  toGuards := h.toGuards.trans h'.toGuards
  highest := h.highest.trans h'.highest
  entry id e'' he'' := by
    rcases h'.entry id e'' he'' with ⟨e', he', hs'⟩ | ⟨hlt, hle, hfresh⟩
    · rcases h.entry id e' he' with ⟨e, he, hs⟩ | ⟨hlt, hle, hfresh⟩
      · exact .inl ⟨e, he, hs.trans hs'⟩
      · exact .inr ⟨hlt, hle.trans h'.highest, hfresh.sameResponse hs'⟩
    · exact .inr ⟨h.highest.trans_lt hlt, hle, hfresh⟩
  spawned id hid := by
    rcases h'.spawned id hid with hid | hid
    · exact (h.spawned id hid).imp_right fun hle => hle.trans h'.highest
    · exact .inr hid
  begun id hnot hid hnone := by
    cases hs : c'.spawned id with
    | false => exact h'.begun id hs hid hnone
    | true =>
      cases he' : c'.entry id with
      | none => exact h'.resets (h.begun id hnot hs he')
      | some e' => exact h'.kept id e' he' hnone

/-- A change that concerns no stream and writes nothing. -/
theorem silent (hw : c'.written = c.written) (hhigh : c.highestStreamId ≤ c'.highestStreamId)
    (hwindow : c'.connWindow = c.connWindow) (hpeer : c'.peer = c.peer)
    (hstreams : c'.streams = c.streams) (hdispatched : c'.dispatched = c.dispatched) :
    KeepsResponse lost c c' where
  toGuards := .of_control (.none hw) hwindow (hpeer ▸ ·) hstreams
  highest := hhigh
  entry id e he := by
    rw [Connection.entry, hstreams] at he
    exact .inl ⟨e, he, .refl e⟩
  spawned id hid := by
    rw [Connection.spawned, hdispatched] at hid
    exact .inl hid
  begun id hnot hid _ := by
    rw [Connection.spawned, hdispatched] at hid
    cases hnot.symm.trans hid

/-- A stream's entry changes, but for its response; or it comes up. -/
theorem setEntry {e' : StreamEntry}
    (h : (∃ e, c.entry id = some e ∧ e.SameResponse e') ∨ c.highestStreamId < id ∧ e'.Fresh) :
    KeepsResponse lost c ((c.raiseHighest (max c.highestStreamId id)).setEntry id e') where
  toGuards :=
    (show Guards lost c (c.raiseHighest (max c.highestStreamId id)) from
      .of_control (.none rfl) rfl (·) rfl).trans (.setEntry _ id e')
  highest := le_max_left _ _
  entry id' e₁ h₁ := by
    rcases entry_of_setEntry h₁ with ⟨rfl, rfl⟩ | ⟨-, h₁⟩
    · exact h.imp_right fun hf => ⟨hf.1, le_max_right _ _, hf.2⟩
    · exact .inl ⟨e₁, h₁, .refl e₁⟩
  spawned _ h := .inl h
  begun _ hnot h _ := by cases hnot.symm.trans h

theorem updateEntry {e e' : StreamEntry} (hb : Bounded c) (he : c.entry id = some e)
    (hs : e.SameResponse e') : KeepsResponse lost c (c.setEntry id e') := by
  have h : KeepsResponse lost c ((c.raiseHighest (max c.highestStreamId id)).setEntry id e') :=
    setEntry (.inl ⟨e, he, hs⟩)
  rwa [max_eq_left (hb id e he)] at h

end KeepsResponse

/-! ### Field blocks -/

variable {c' c : Connection} {hint : List ℕ}

section Fragments
variable {lost : ℕ → Prop} {c : Connection} {id : ℕ} {endHeaders : Bool}

theorem KeepsResponse.fragment {fin : Prop} (hb : Bounded c) (h : Fragment id fin endHeaders c c') :
    KeepsResponse lost c c' := by
  have hresponse : ∀ {e e' : StreamEntry}, e.Bookkeeps e' → e.SameResponse e' := fun hbook => by
    rw [hbook]
    exact ⟨rfl, rfl, rfl, rfl, rfl⟩
  cases h with
  | ignored => exact .silent rfl le_rfl rfl rfl rfl rfl
  | invalid reason debug => exact .of_receives hb (.goaway c _ _)
  | refuse _ hlt =>
    have hraise : KeepsResponse lost c (c.raiseHighest id) := .silent rfl hlt.le rfl rfl rfl rfl
    exact hraise.trans (.of_receives (hraise.bounded hb) (.write _ (by simp [Frame.isControl])))
  | opens endStream block _ hlt =>
    have hset : ∀ c : Connection, c.highestStreamId < id → ∀ w : ℤ, KeepsResponse lost c
        ((c.raiseHighest id).setEntry id (.opening w endStream endHeaders block)) := by
      intro c hlt w
      have hset : KeepsResponse lost c _ := @setEntry _ _ _
        (.opening w endStream endHeaders block) (.inr ⟨hlt, ⟨rfl, rfl, rfl⟩⟩)
      rwa [max_eq_right hlt.le] at hset
    cases endHeaders with
    | true =>
      have hcomplete : KeepsResponse lost c (c.completeBlock id) :=
        .silent rfl le_rfl rfl rfl rfl rfl
      exact hcomplete.trans (hset (c.completeBlock id) hlt _)
    | false => exact hset c hlt _
  | ended => exact .of_receives hb (Receives.closed.streamError c id _)
  | extend he hbook =>
    cases endHeaders with
    | true =>
      have hcomplete : KeepsResponse lost c (c.completeBlock id) :=
        .silent rfl le_rfl rfl rfl rfl rfl
      exact hcomplete.trans (.updateEntry (hcomplete.bounded hb) he (hresponse hbook))
    | false => exact .updateEntry hb he (hresponse hbook)
  | @flood e e' he hbook =>
    have hset : KeepsResponse lost c (c.setEntry id e') := .updateEntry hb he (hresponse hbook)
    have hclear : KeepsResponse lost c ((c.setEntry id e').clearBlock id) :=
      hset.trans (.silent rfl le_rfl rfl rfl rfl rfl)
    exact hclear.trans (.of_receives (hclear.bounded hb) (Receives.closed.streamError _ id _))

/-- Whoever should read the body of the stream does, unless the stream may be lost. -/
def Heard (lost : ℕ → Prop) (c : Connection) (id : ℕ) : Prop :=
  ∀ e, c.entry id = some e → e.requestStarted = true ∨ e.body.isSome = true → e.hears = false →
    lost id

theorem KeepsResponse.finalizeFieldBlock (http : HttpCrate) (hb : Bounded c)
    (hheard : Heard lost c id) : KeepsResponse lost c (finalizeFieldBlock http c id) := by
  rw [Connection.finalizeFieldBlock]
  cases he : c.entry id with
  | none => exact .silent rfl le_rfl rfl rfl rfl rfl
  | some e =>
    simp only
    rcases c.requestDecoder.decode e.fieldBlock e.headerListSize with ⟨d, n, decoded⟩
    have hdecoder : KeepsResponse lost c (c.setDecoder d) := .silent rfl le_rfl rfl rfl rfl rfl
    have hset : KeepsResponse lost c ((c.setDecoder d).setEntry id (e.takeBlock n)) :=
      hdecoder.trans (.updateEntry (hdecoder.bounded hb) he ⟨rfl, rfl, rfl, rfl, rfl⟩)
    exact hset.trans (.of_receives (hset.bounded hb)
      (Receives.closed.finalizeDecoded http decoded (entry_setEntry _ _ _) (hheard e he)))

theorem takeComplete_spec (c : Connection) : ∀ l : List ℕ,
    (∀ id, (c.takeComplete l).1 = some id → id ∈ l) ∧ ((c.takeComplete l).2.length ≤ l.length - 1)
  | [] => ⟨nofun, le_rfl⟩
  | id :: rest => by
    rw [takeComplete]
    split_ifs
    · refine ⟨fun id' hid => ?_, le_rfl⟩
      obtain rfl := Option.some.inj hid
      exact List.mem_cons_self
    · obtain ⟨hmem, hlen⟩ := takeComplete_spec c rest
      refine ⟨fun id' hid => List.mem_cons_of_mem _ (hmem id' hid), ?_⟩
      rw [List.length_cons]
      omega

theorem completeBlocks_of_receives (h : Receives lost c c') :
    c'.completeBlocks = c.completeBlocks :=
  congrArg (fun s => s.2.2.2.1) h.blockState

theorem completeBlocks_finalizeFieldBlock (http : HttpCrate) (c : Connection) (id : ℕ) :
    (finalizeFieldBlock http c id).completeBlocks = c.completeBlocks := by
  rw [finalizeFieldBlock]
  cases he : c.entry id with
  | none => rfl
  | some e =>
    simp only
    rcases c.requestDecoder.decode e.fieldBlock e.headerListSize with ⟨d, n, decoded⟩
    have hr : Receives (fun _ => True) _ _ := Receives.closed.finalizeDecoded http decoded
      (entry_setEntry (c.setDecoder d) id (e.takeBlock n)) fun _ _ => trivial
    exact (completeBlocks_of_receives hr).trans rfl

/-- The block that a frame has completed is taken at once. -/
theorem KeepsResponse.finalizeComplete (http : HttpCrate) (hb : Bounded c)
    (hcomplete : c.completeBlocks.length ≤ 1) (hheard : ∀ id ∈ c.completeBlocks, Heard lost c id) :
    KeepsResponse lost c (finalizeComplete http c) ∧
      (finalizeComplete http c).completeBlocks = [] := by
  obtain ⟨hmem, hlen⟩ := takeComplete_spec c c.completeBlocks
  rw [Connection.finalizeComplete, takeCompleteBlock]
  rcases hc : c.takeComplete c.completeBlocks with ⟨taken, rest⟩
  rw [hc] at hmem hlen
  have hrest : rest = [] := List.eq_nil_of_length_eq_zero (by simp only at hlen; omega)
  have htake : KeepsResponse lost c { c with completeBlocks := rest } :=
    .silent rfl le_rfl rfl rfl rfl rfl
  cases taken with
  | none => exact ⟨htake, hrest⟩
  | some id =>
    refine ⟨htake.trans (.finalizeFieldBlock http (htake.bounded hb) (hheard id (hmem id rfl))), ?_⟩
    exact (completeBlocks_finalizeFieldBlock http _ id).trans hrest

/-- The handlers of HEADERS and CONTINUATION complete at most the block of their
stream, whose body reader is as it was. -/
structure Completes (id : ℕ) (endHeaders : Bool) (c c' : Connection) : Prop where
  blocks : c'.completeBlocks = c.completeBlocks ∨
    endHeaders = true ∧ c'.completeBlocks = c.completeBlocks ++ [id] ∧
      ∀ lost : ℕ → Prop, Heard lost c id → Heard lost c' id

theorem Completes.fragment {fin : Prop} (h : Fragment id fin endHeaders c c') :
    Completes id endHeaders c c' := by
  have herror : ∀ c reason, (streamError c id reason).completeBlocks = c.completeBlocks :=
    fun c reason => completeBlocks_of_receives
      (Receives.closed.streamError c id reason : Receives (fun _ => True) _ _)
  cases h with
  | ignored | invalid | refuse => exact ⟨.inl rfl⟩
  | opens endStream block =>
    cases endHeaders with
    | false => exact ⟨.inl rfl⟩
    | true =>
      refine ⟨.inr ⟨rfl, rfl, fun lost _ e he hwanted hears => ?_⟩⟩
      obtain rfl := eq_of_entry_setEntry he
      cases endStream with
      | true => simp [opening, new] at hwanted
      | false => simp [opening, StreamEntry.hears] at hears
  | ended => exact ⟨.inl (herror c _)⟩
  | @extend e e' he hbook =>
    cases endHeaders with
    | false => exact ⟨.inl rfl⟩
    | true =>
      refine ⟨.inr ⟨rfl, rfl, fun lost hheard e₁ he₁ hwanted hears => ?_⟩⟩
      obtain rfl := eq_of_entry_setEntry he₁
      rw [hbook] at hwanted hears
      exact hheard e he hwanted hears
  | flood => exact ⟨.inl (herror _ _)⟩

theorem KeepsResponse.finalizeFragment (http : HttpCrate) {fin : Prop} (hb : Bounded c)
    (hnil : c.completeBlocks = []) (hf : Fragment id fin endHeaders c c')
    (hheard : endHeaders = true → Heard lost c id) :
    KeepsResponse lost c (Connection.finalizeComplete http c') ∧
      (Connection.finalizeComplete http c').completeBlocks = [] := by
  have hk : KeepsResponse lost c c' := .fragment hb hf
  have hfinal : c'.completeBlocks.length ≤ 1 ∧ ∀ id' ∈ c'.completeBlocks, Heard lost c' id' := by
    rcases (Completes.fragment hf).blocks with h | ⟨hend, h, hheard'⟩
    · rw [h, hnil]
      exact ⟨Nat.zero_le _, nofun⟩
    · rw [h, hnil]
      refine ⟨le_rfl, fun id' hid => ?_⟩
      obtain rfl := List.mem_singleton.1 hid
      exact hheard' lost (hheard hend)
  obtain ⟨hk', hnil'⟩ := KeepsResponse.finalizeComplete http (hk.bounded hb) hfinal.1 hfinal.2
  exact ⟨hk.trans hk', hnil'⟩

end Fragments

/-! ### Frames -/

/-- Between two events no block is left over, and no stream is beyond the highest. -/
structure Tidy (c : Connection) : Prop where
  bounded : Bounded c
  complete : c.completeBlocks = []

theorem Tidy.of_receives {lost : ℕ → Prop} (ht : Tidy c) (h : Receives lost c c') :
    KeepsResponse lost c c' ∧ Tidy c' :=
  ⟨.of_receives ht.bounded h, ⟨(KeepsResponse.of_receives ht.bounded h).bounded ht.bounded,
      (completeBlocks_of_receives h).trans ht.complete⟩⟩

section Frames
variable {lost : ℕ → Prop} {c : Connection}

theorem KeepsResponse.setBlockStream (c : Connection) (blockStream : Option ℕ) :
    KeepsResponse lost c (c.setBlockStream blockStream) :=
  .silent rfl le_rfl rfl rfl rfl rfl

theorem Tidy.setBlockStream (ht : Tidy c) (blockStream : Option ℕ) :
    Tidy (c.setBlockStream blockStream) :=
  ⟨ht.bounded, ht.complete⟩

theorem Tidy.goaway (ht : Tidy c) (reason : Reason) (debug : String) :
    Tidy (c.goaway reason debug) :=
  ⟨ht.bounded, ht.complete⟩

theorem finalizeComplete_tidy (http : HttpCrate) (ht : Tidy c) : finalizeComplete http c = c := by
  rw [finalizeComplete, takeCompleteBlock, ht.complete, takeComplete, ← ht.complete]

/-- Frames that carry no fields: only WINDOW_UPDATE moves the responses on. -/
theorem Handled.receives {f : Frame} (h : Handled hint c f c')
    (hreset : ∀ id code, f = .reset id code → lost id)
    (hheard : ∀ id, f.feeds = some id → Heard lost c id) :
    Receives lost c c' ∨ (∃ increment, f = .windowUpdate 0 increment ∧
        c' = (c.growWindow increment).drainPendingData hint) ∨
      ∃ id increment e, f = .windowUpdate id increment ∧ c.entry id = some e ∧
        c' = (c.setEntry id (e.growWindow increment)).pumpStreamData id := by
  cases h with
  | ignored => exact .inl (.refl _)
  | settings settings =>
    exact .inl (.trans (.applyPeerSettings settings c) (.write _ (by simp [Frame.isControl])))
  | ping => exact .inl (.write c (by simp [Frame.isControl]))
  | goAway => exact .inl (.silent rfl rfl (·) rfl (·) rfl rfl)
  | data id endStream data =>
    refine .inl (.handleDataFrame endStream data fun hfeeds e he hstarted => ?_)
    refine hheard id ?_ e he (.inl hstarted)
    rw [Frame.feeds, if_neg]
    rintro ⟨hdata, hend⟩
    rw [hfeeds hdata] at hend
    cases hend
  | reset id => exact .inl (Receives.closed.handleResetFrame (hreset id _ rfl))
  | pushPromise => exact .inl (.goaway c _ _)
  | windowUpdate h =>
    cases h with
    | empty | gone => exact .inl (.refl _)
    | overflow | idle => exact .inl (.goaway c _ _)
    | connection hid => exact .inr (.inl ⟨_, hid ▸ rfl, rfl⟩)
    | error => exact .inl (Receives.closed.streamError c _ _)
    | stream _ he => exact .inr (.inr ⟨_, _, _, rfl, he, rfl⟩)

end Frames

/-! ### What a step can do -/

section
variable (h : Responds c c')
include h

theorem Responds.peer : c'.peer = c.peer :=
  (congrArg Connection.peer h.same).trans rfl

theorem Responds.dispatched : c'.dispatched = c.dispatched :=
  (congrArg Connection.dispatched h.same).trans rfl

theorem Responds.highestStreamId : c'.highestStreamId = c.highestStreamId :=
  (congrArg Connection.highestStreamId h.same).trans rfl

theorem Responds.entry_none {id : ℕ} (hnone : c.entry id = none) : c'.entry id = none := by
  cases he' : c'.entry id with
  | none => rfl
  | some e' =>
    obtain ⟨e, he, -⟩ := h.entry id e' he'
    cases hnone.symm.trans he

theorem Responds.tidy (ht : Tidy c) : Tidy c' where
  bounded id e' he' := by
    obtain ⟨e, he, -⟩ := h.entry id e' he'
    exact h.highestStreamId ▸ ht.bounded id e he
  complete := ((congrArg completeBlocks h.same).trans rfl).trans ht.complete

end

theorem Tidy.setEntry {c : Connection} {id : ℕ} {e : StreamEntry} (ht : Tidy c)
    (he : c.entry id = some e) (e' : StreamEntry) : Tidy (c.setEntry id e') where
  bounded id' e₁ he₁ := by
    rcases entry_of_setEntry he₁ with ⟨rfl, -⟩ | ⟨-, he₁⟩
    · exact ht.bounded id' e he
    · exact ht.bounded id' e₁ he₁
  complete := ht.complete

/-- What a step can do to the responses. `given` names the streams that may be given
up without a RST_STREAM. -/
inductive Effect (given : ℕ → Prop) (c : Connection) : Event → Connection → Prop
  /-- The request side, and whatever is only about the connection. -/
  | keeps {ev : Event} {c' : Connection} (hk : KeepsResponse given c c') (ht : Tidy c')
      (hev : ∀ id t, ev ≠ .task id t) : Effect given c ev c'
  | drain (id : ℕ) (hidle : c.idle = true) : Effect given c (.drainStream id) (c.drainStream id)
  | connectionWindow (hint : List ℕ) (increment : ℕ) (blockStream : Option ℕ)
      (hreading : c.reading = true) :
      Effect given c (.frame hint (.windowUpdate 0 increment))
        (((c.setBlockStream blockStream).growWindow increment).drainPendingData hint)
  | streamWindow (hint : List ℕ) (id increment : ℕ) (blockStream : Option ℕ) (e : StreamEntry)
      (he : c.entry id = some e) :
      Effect given c (.frame hint (.windowUpdate id increment))
        (((c.setBlockStream blockStream).setEntry id (e.growWindow increment)).pumpStreamData id)
  | task (id : ℕ) (t : TaskEvent) : Effect given c (.task id t) (c.onTask id t)

section Effects
variable {given : ℕ → Prop} {c : Connection} {ev : Event}

theorem Tidy.growWindow (ht : Tidy c) (increment : ℕ) : Tidy (c.growWindow increment) :=
  ⟨ht.bounded, ht.complete⟩

theorem Tidy.onTask (ht : Tidy c) (id : ℕ) (t : TaskEvent) : Tidy (c.onTask id t) := by
  exact onTask_induction t (fun _ => ⟨ht.bounded, ht.complete⟩) fun e _ he => ht.setEntry he _

theorem Effect.tidy (h : Effect given c ev c') (ht : Tidy c) : Tidy c' := by
  cases h with
  | keeps hk ht' => exact ht'
  | drain id => exact (Responds.drainStream c id).tidy ht
  | connectionWindow hint increment blockStream =>
    exact (Responds.drainPendingData _ hint).tidy
      ((ht.setBlockStream blockStream).growWindow increment)
  | streamWindow hint id increment blockStream e he =>
    exact (Responds.pumpStreamData _ id).tidy ((ht.setBlockStream blockStream).setEntry he _)
  | task id t => exact ht.onTask id t

theorem Effect.of_receives (ht : Tidy c) (hr : Receives given c c')
    (hev : ∀ id t, ev ≠ .task id t) : Effect given c ev c' :=
  .keeps (ht.of_receives hr).1 (ht.of_receives hr).2 hev

theorem Effect.silent (ht : Tidy c) (hk : KeepsResponse given c c')
    (hcomplete : c'.completeBlocks = c.completeBlocks) (hev : ∀ id t, ev ≠ .task id t) :
    Effect given c ev c' :=
  .keeps hk ⟨hk.bounded ht.bounded, hcomplete.trans ht.complete⟩ hev

theorem Effect.handled {f : Frame} (ht : Tidy c) (hreading : c.reading = true)
    (hreset : ∀ id code, f = .reset id code → given id)
    (hheard : ∀ id, f.feeds = some id → Heard given c id) (h : Handled hint c f c') :
    Effect given c (.frame hint f) c' := by
  rcases h.receives hreset hheard with hr | ⟨increment, rfl, rfl⟩ | ⟨id, increment, e, rfl, he, rfl⟩
  · exact .of_receives ht hr (by simp)
  · exact .connectionWindow hint increment c.blockStream hreading
  · exact .streamWindow hint id increment c.blockStream e he

theorem Effect.processed {http : HttpCrate} {f : Frame} (ht : Tidy c) (hreading : c.reading = true)
    (hreset : ∀ id code, f = .reset id code → given id)
    (hheard : ∀ id, f.feeds = some id → Heard given c id) (h : Processed http hint c f c') :
    Effect given c (.frame hint f) c' := by
  -- whether a body reader is there does not depend on the frame decoder
  have hheard' : ∀ blockStream id, f.feeds = some id →
    Heard given (c.setBlockStream blockStream) id :=
    fun _ => hheard
  have hfragment : ∀ {id : ℕ} {endHeaders : Bool} {fin : Prop} {blockStream : Option ℕ}
      {c₁ : Connection}, (endHeaders = true → f.feeds = some id) →
      Fragment id fin endHeaders (c.setBlockStream blockStream) c₁ →
      Effect given c (.frame hint f) (finalizeComplete http c₁) := by
    intro id endHeaders fin blockStream c₁ hfeeds hf
    obtain ⟨hk, hnil⟩ := KeepsResponse.finalizeFragment http (ht.setBlockStream blockStream).bounded
      ht.complete hf fun hend => hheard' blockStream id (hfeeds hend)
    exact .keeps ((KeepsResponse.setBlockStream c blockStream).trans hk)
      ⟨hk.bounded ht.bounded, hnil⟩ (by simp)
  cases h with
  | rejected => exact .of_receives ht (.goaway c _ _) (by simp)
  | headers => exact hfragment (by rintro rfl; rfl) (.handleHeadersFrame _ _ _ _ _)
  | continuation => exact hfragment (by rintro rfl; rfl) (.handleContinuation _ _ _ _)
  | pushPromise blockStream =>
    obtain ⟨hk, ht'⟩ := (ht.setBlockStream blockStream).of_receives (.goaway _ _ _)
    rw [finalizeComplete_tidy http ht']
    exact .keeps ((KeepsResponse.setBlockStream c blockStream).trans hk) ht' (by simp)
  | goAway => exact .of_receives ht (.silent rfl rfl (·) rfl (·) rfl rfl) (by simp)
  | other _ h =>
    have heffect := Effect.handled ht hreading hreset hheard h
    rwa [finalizeComplete_tidy http (heffect.tidy ht)]

theorem step_effect (http : HttpCrate) (ht : Tidy c) (ev : Event)
    (hreset : ∀ hint id code, ev = .frame hint (.reset id code) → given id)
    (hheard : ∀ hint f, ev = .frame hint f → c.reading = true → ∀ id, f.feeds = some id →
      Heard given c id)
    (hresume : ev = .resume → ∀ p, c.parked = some p → ∀ e, c.entry p.streamId = some e →
      e.hears = false → given p.streamId) : Effect given c ev (step http c ev) := by
  by_cases htask : ∃ id t, ev = .task id t
  · obtain ⟨id, t, rfl⟩ := htask
    exact .task id t
  have hev : ∀ id t, ev ≠ .task id t := fun id t h => htask ⟨id, t, h⟩
  have hstep := step_stepped http c ev
  generalize step http c ev = c' at hstep
  cases hstep with
  | same => exact .of_receives ht (.refl c) hev
  | frame hreading h =>
    exact .processed ht hreading (fun id code hf => hreset _ id code (congrArg _ hf))
      (hheard _ _ rfl hreading) h
  | frameError => exact .of_receives ht (.goaway c _ _) hev
  | resume => exact .of_receives ht (Receives.closed.resume (hresume rfl)) hev
  | drain hidle => exact .drain _ hidle
  | shutdown =>
    have hgrace : KeepsResponse given c { c with
        graceful := true, gracefulLastStream := c.highestStreamId } :=
      .silent rfl le_rfl rfl rfl rfl rfl
    exact .silent ht (hgrace.trans (.of_receives ht.bounded (.write _ (by simp [Frame.isControl]))))
      rfl hev
  | @finish w hw =>
    have hwrite : KeepsResponse given c (c.write w) :=
      .of_receives ht.bounded
        (.write _ (by rcases hw with rfl | ⟨-, rfl⟩ <;> simp [Frame.isControl]))
    exact .silent ht (hwrite.trans (.silent rfl le_rfl rfl rfl rfl rfl)) rfl hev
  | task => exact .task _ _

/-- If any stream may be given up, nothing is asked of the event. -/
theorem step_effect_any (http : HttpCrate) (ht : Tidy c) (ev : Event) :
    Effect (fun _ => True) c ev (step http c ev) :=
  step_effect http ht ev (fun _ _ _ _ => trivial) (fun _ _ _ _ _ _ _ _ _ _ => trivial)
    (fun _ _ _ _ _ _ => trivial)

section
variable (h : Effect given c ev c')
include h

/-- The response side and the tasks leave the rest of the connection alone. -/
theorem Effect.rest :
    KeepsResponse given c c' ∨ c'.peer = c.peer ∧ c'.highestStreamId = c.highestStreamId ∧
      c'.dispatched = c.dispatched := by
  have hresponds : ∀ {c₁}, Responds c₁ c' → c'.peer = c₁.peer ∧
      c'.highestStreamId = c₁.highestStreamId ∧ c'.dispatched = c₁.dispatched := fun hr =>
    ⟨hr.peer, hr.highestStreamId, hr.dispatched⟩
  cases h with
  | keeps hk => exact .inl hk
  | drain id => exact .inr (hresponds (.drainStream c id))
  | connectionWindow hint => exact .inr (hresponds (.drainPendingData _ hint) :)
  | streamWindow hint id => exact .inr (hresponds (.pumpStreamData _ id) :)
  | task id t =>
    rw [onTask_same]
    exact .inr ⟨rfl, rfl, rfl⟩

theorem Effect.maxFrameSize (hsize : 0 < c.peer.maxFrameSize) : 0 < c'.peer.maxFrameSize := by
  rcases h.rest with hk | ⟨hpeer, -⟩
  · exact hk.maxFrameSize hsize
  · exact hpeer ▸ hsize

theorem Effect.highest : c.highestStreamId ≤ c'.highestStreamId :=
  h.rest.elim (·.highest) (·.2.1.ge)

/-- Only streams that have been opened are handed over. -/
theorem Effect.spawned (hs : ∀ id, c.spawned id = true → id ≤ c.highestStreamId) :
    ∀ id, c'.spawned id = true → id ≤ c'.highestStreamId := by
  intro id hid
  rcases h.rest with hk | ⟨-, hhigh, hdispatched⟩
  · exact (hk.spawned id hid).elim (fun h => (hs id h).trans hk.highest) (·)
  · rw [Connection.spawned, hdispatched] at hid
    exact hhigh ▸ hs id hid

end

theorem Tidy.start (opts : ConnectionOptions) : Tidy (start opts) :=
  ⟨fun id e he => by simp at he, rfl⟩

end Effects

end Connection

end ZincioHttp.H2
