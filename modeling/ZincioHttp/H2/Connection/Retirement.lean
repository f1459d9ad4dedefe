import ZincioHttp.H2.Connection.ResponseShape

/-! How the connection retires a stream. The entry of a stream stays in the map until its
response has ended and its task has finished. Once a message that ends the response has been
handled, END_STREAM is on the wire or on its way in the queue of the stream; and once the task
has finished too, the stream goes with it. -/

namespace ZincioHttp.H2

open List Bool

def Frame.closes (id : ℕ) : Frame → Bool
  | .reset id' _ => decide (id' = id)
  | f => f.endsStream id

theorem Frame.closes_of_endsStream {id : ℕ} {f : Frame} (h : f.endsStream id = true) :
    f.closes id = true := by
  cases f with
  | reset => cases h
  | _ => exact h

/-- Nothing follows the terminal message. -/
def ClosedLast (msgs : List StreamMsg) : Prop := msgs.Pairwise fun msg _ => msg ≠ .closed

/-- The entry of a stream agrees with the messages that have been handled and with what is on
the wire. -/
structure Ending (id : ℕ) (handled : List StreamMsg) (w : List Frame) (e : StreamEntry) : Prop where
  pending : handled.any StreamMsg.ends = true →
    e.localEnded = true ∨ e.pendingData.any Prod.snd = true
  done : .closed ∈ handled → e.taskDone = true ∧ e.localEnded = false
  written : e.localEnded = true → w.any (Frame.closes id) = true

namespace Ending

variable {id : ℕ} {handled : List StreamMsg} {w w' : List Frame} {e e' : StreamEntry}

theorem any_append (h : w.any (Frame.closes id) = true) (w' : List Frame) :
    (w ++ w').any (Frame.closes id) = true := by
  rw [List.any_append, h, Bool.true_or]

theorem of_entry (h : Ending id handled w e) (hended : e'.localEnded = e.localEnded)
    (hpending : e'.pendingData = e.pendingData) (htask : e'.taskDone = e.taskDone) :
    Ending id handled w e' := by
  refine ⟨fun hends => ?_, fun hclosed => ?_, fun hl => h.written (hended ▸ hl)⟩
  · rw [hended, hpending]
    exact h.pending hends
  · rw [hended, htask]
    exact h.done hclosed

theorem append (h : Ending id handled w e) (w' : List Frame) : Ending id handled (w ++ w') e :=
  { h with written := fun hl => any_append (h.written hl) w' }

/-- A message that neither ends the response nor is the terminal one. -/
theorem concat (h : Ending id handled w e) {msg : StreamMsg}
    (hends : msg.ends = true → e.localEnded = true) (hclosed : msg ≠ .closed) :
    Ending id (handled ++ [msg]) w e := by
  refine ⟨fun hany => ?_, fun hmem => ?_, h.written⟩
  · rw [List.any_append, or_eq_true] at hany
    rcases hany with hany | hany
    · exact h.pending hany
    · exact .inl (hends ((Bool.or_false _).symm.trans hany))
  · rcases mem_append.1 hmem with hmem | hmem
    · exact h.done hmem
    · exact absurd (mem_singleton.1 hmem).symm hclosed

/-- END_STREAM has been written before the task has finished. -/
theorem of_ended (hopen : .closed ∉ handled) (hended : e.localEnded = true)
    (hw : w.any (Frame.closes id) = true) : Ending id handled w e :=
  ⟨fun _ => .inl hended, fun hmem => absurd hmem hopen, fun _ => hw⟩

end Ending

namespace Connection

/-- The stream has gone, and the peer knows unless it may be `lost`. -/
structure Over (id : ℕ) (lost : Prop) (c : Connection) : Prop where
  entry : c.entry id = none
  le : id ≤ c.highestStreamId
  closed : c.written.any (Frame.closes id) = true ∨ lost

/-- A stream that has gone was ended towards the peer, unless it may be `lost`. -/
def retirement (id : ℕ) (lost : Prop) : Account where
  fresh _ := True
  live := Ending id
  gone _ w := w.any (Frame.closes id) = true ∨ lost

/-- Where the messages `msgs` of a stream's task are. -/
abbrev Retires (id : ℕ) (lost : Prop) : List StreamMsg → Connection → Prop :=
  Stage id (retirement id lost)

section Retirement
variable {id : ℕ} {lost : Prop} {msgs : List StreamMsg} {c c' : Connection}

theorem Over.grows (h : Over id lost c) (hnone : c'.entry id = none)
    (hhigh : c.highestStreamId ≤ c'.highestStreamId) (hw : ∃ w, c'.written = c.written ++ w) :
    Over id lost c' := by
  obtain ⟨w, hw⟩ := hw
  refine ⟨hnone, h.le.trans hhigh, h.closed.imp_left fun hclosed => ?_⟩
  rw [hw]
  exact Ending.any_append hclosed w

theorem Over.step (http : HttpCrate) (h : Over id lost c) (hs : Reasonable c) (ev : Event) :
    Over id lost (step http c ev) := by
  have hresponds : ∀ {c₁ c' : Connection}, Responds c₁ c' → c₁.entry id = none →
      c₁.highestStreamId = c.highestStreamId →
      c'.entry id = none ∧ c.highestStreamId ≤ c'.highestStreamId := by
    intro c₁ c' hr hnone hhigh
    exact ⟨hr.entry_none hnone, (hr.highestStreamId.trans hhigh).ge⟩
  have hkept : (Connection.step http c ev).entry id = none ∧
      c.highestStreamId ≤ (Connection.step http c ev).highestStreamId := by
    generalize Connection.step http c ev = c', step_effect_any http hs.tidy ev = heffect
    cases heffect with
    | keeps hk =>
      refine ⟨?_, hk.highest⟩
      cases he' : c'.entry id with
      | none => rfl
      | some e' =>
        rcases hk.entry id e' he' with ⟨e, he, -⟩ | ⟨hlt, -, -⟩
        · cases h.entry.symm.trans he
        · exact absurd h.le (not_le.2 hlt)
    | drain id' => exact hresponds (.drainStream c id') h.entry rfl
    | connectionWindow hint increment => exact hresponds (.drainPendingData _ hint) h.entry rfl
    | streamWindow hint id' increment blockStream e he =>
      refine hresponds (.pumpStreamData _ id') ?_ rfl
      have hne : id ≠ id' := by
        rintro rfl
        cases h.entry.symm.trans he
      exact (Aside.setEntry _ _ hne).entry.trans h.entry
    | task id' t =>
      refine onTask_induction (P := fun c' => c'.entry id = none ∧
        c.highestStreamId ≤ c'.highestStreamId) t (fun _ => ⟨h.entry, le_rfl⟩) fun e _ he => ?_
      have hne : id ≠ id' := by
        rintro rfl
        cases h.entry.symm.trans he
      exact ⟨(Aside.setEntry c _ hne).entry.trans h.entry, le_rfl⟩
  exact h.grows hkept.1 hkept.2 (step_written http hs ev)

namespace Retires

theorem closes_of_mem {w : List Frame} {code : ℕ} (h : .reset id code ∈ w) :
    w.any (Frame.closes id) = true :=
  any_eq_true.2 ⟨_, h, decide_eq_true rfl⟩

/-- Queued data is sent with its end if that has been handled. -/
theorem upholds (id : ℕ) (lost : Prop) (ok : List StreamMsg → Prop)
    (hleft : ∀ {msgs more}, ok (msgs ++ more) → ok msgs) :
    Upholds id lost ok (retirement id lost) where
  live_entry h hended htask hpending := h.of_entry hended hpending htask
  sendPart h hopen hfront := by
    refine ⟨fun hends => ?_, h.done, fun hl => absurd (hopen.symm.trans hl) false_ne_true⟩
    simpa [hfront] using h.pending hends
  sendAll {_ w _ data fin _} h hopen hfront htask := by
    refine ⟨fun hends => ?_, fun hmem => ?_, fun hl => ?_⟩
    · simpa [hopen, hfront] using h.pending hends
    · obtain ⟨hdone, -⟩ := h.done hmem
      exact ⟨hdone, Bool.eq_false_iff.2 fun hfin => by simp [htask hfin] at hdone⟩
    · obtain rfl : fin = true := hl
      exact any_eq_true.2 ⟨_, mem_append_right w (mem_singleton_self _),
        Frame.closes_of_endsStream (by simp [Frame.endsStream])⟩
  sendLast {_ w _ _ _} h hopen hfront htask :=
    .inl (any_eq_true.2 ⟨_, mem_append_right w (mem_singleton_self _),
      Frame.closes_of_endsStream (by simp [Frame.endsStream])⟩)
  ok_left := hleft
  fresh_nil := trivial
  fresh_aside _ _ := trivial
  fresh_live _ hfresh :=
    ⟨nofun, nofun, fun hl => absurd (hfresh.localEnded.symm.trans hl) false_ne_true⟩
  fresh_gone _ _ hgiven := hgiven.symm.imp_left fun ⟨_, hmem⟩ => closes_of_mem hmem
  live_aside {_ _ w' _} h _ := h.append w'
  live_gone {_ _ w' _} h _ _ hgiven := by
    rcases hgiven with hlost | hended | ⟨code, hmem⟩
    · exact .inr hlost
    · exact .inl (Ending.any_append (h.written hended) w')
    · exact .inl (closes_of_mem hmem)
  gone_aside {_ _ w'} h _ := h.imp_left fun hclosed => Ending.any_append hclosed w'
  gone_more h _ := h

end Retires

/-! ### Draining a batch -/

/-- The stream while a batch of its messages is handled. -/
inductive Drained (id : ℕ) (lost : Prop) (handled : List StreamMsg) (c : Connection) : Prop
  | live (e : StreamEntry) (he : c.entry id = some e) (hmsgs : e.msgs = [])
      (hle : id ≤ c.highestStreamId) (hending : Ending id handled c.written e)
  | gone (hover : Over id lost c)

namespace Drained

variable {handled : List StreamMsg}

theorem writeFields_closes (c : Connection) (id : ℕ) (headers : List Hpack.Header) :
    (c.writeFields id true headers).written.any (Frame.closes id) = true := by
  obtain ⟨-, hcount, -⟩ := writeFieldBlock_spec c.writerMaxFrameSize id id true
    (c.encoder.encode headers).2
  rw [if_pos ⟨rfl, rfl⟩] at hcount
  obtain ⟨f, hmem, hends⟩ := countP_pos_iff.1 (hcount.symm ▸ Nat.one_pos)
  exact any_eq_true.2 ⟨f, mem_append_right _ hmem, Frame.closes_of_endsStream hends⟩

theorem pumpStreamData {e : StreamEntry} (he : c.entry id = some e) (hmsgs : e.msgs = [])
    (hle : id ≤ c.highestStreamId) (hending : Ending id handled c.written e) :
    Drained id lost handled (c.pumpStreamData id) := by
  have hreached := (Pump.run_reached id c.peer.maxFrameSize e c.connWindow).1
  have hhigh := (Responds.pumpStreamData c id).highestStreamId
  rw [Connection.pumpStreamData, he] at hhigh ⊢
  have hsends : Sends id (retirement id lost) :=
    (Retires.upholds id lost (fun _ => True) fun _ => trivial).toSends
  rcases hsends.settle hending hreached with ⟨he', hmsgs', hlive⟩ | ⟨hnone, hgone⟩
  · exact .live _ he' (hmsgs'.trans hmsgs) (hhigh ▸ hle) hlive
  · exact .gone ⟨hnone, hhigh ▸ hle, hgone⟩

theorem handleStreamMsg (h : Drained id lost handled c) (hopen : .closed ∉ handled)
    (msg : StreamMsg) : Drained id lost (handled ++ [msg]) (c.handleStreamMsg id msg) := by
  cases h with
  | gone hover =>
    have hresponds : Responds c (c.handleStreamMsg id msg) :=
      Responds.closed.handleStreamMsg c trivial msg
    obtain ⟨w, hw, -⟩ : Answered c (c.handleStreamMsg id msg) :=
      Answered.closed.handleStreamMsg c trivial msg
    exact .gone (hover.grows (hresponds.entry_none hover.entry) hresponds.highestStreamId.ge
      ⟨w, hw⟩)
  | live e he hmsgs hle hending =>
    cases msg with
    | informational parts =>
      exact .live e he hmsgs hle ((hending.concat (by simp [StreamMsg.ends]) (by simp)).append _)
    | headers parts endStream =>
      simp only [Connection.handleStreamMsg, he]
      split
      · rename_i hended
        exact .live e he hmsgs hle (hending.concat (fun _ => hended) (by simp))
      rename_i hended
      have hopen' : .closed ∉ handled ++ [.headers parts endStream] := by simpa using hopen
      cases endStream with
      | true =>
        exact .live _ (entry_setEntry c id _) hmsgs hle
          (.of_ended hopen' rfl (writeFields_closes _ _ _))
      | false =>
        refine .live _ (entry_setEntry c id _) hmsgs hle ⟨fun hends => .inr ?_,
          fun hmem => absurd hmem hopen', (by simp)⟩
        rw [any_append, or_eq_true] at hends
        exact (hending.pending (hends.resolve_right (by simp [StreamMsg.ends]))).resolve_left hended
    | data data endStream =>
      simp only [Connection.handleStreamMsg, he]
      split
      · rename_i hended
        exact .live e he hmsgs hle (hending.concat (fun _ => hended) (by simp))
      refine pumpStreamData (entry_setEntry c id _) hmsgs hle ⟨fun hends => ?_, ?_, hending.written⟩
      · rw [any_append, or_eq_true] at hends
        rw [any_append, or_eq_true]
        rcases hends with hends | hends
        · exact (hending.pending hends).imp_right .inl
        · exact .inr (.inr hends)
      · intro hmem
        rcases mem_append.1 hmem with hmem | hmem
        · exact absurd hmem hopen
        · cases mem_singleton.1 hmem
    | trailers trailers =>
      simp only [Connection.handleStreamMsg, he]
      split
      · rename_i hended
        exact .live e he hmsgs hle (hending.concat (fun _ => hended) (by simp))
      · refine .live _ (entry_setEntry c id _) hmsgs hle
          (.of_ended ?_ rfl (writeFields_closes _ _ _))
        simpa using hopen
    | reset errorCode =>
      refine .gone ⟨entry_removeStream _ id, hle, .inl ?_⟩
      exact Retires.closes_of_mem (mem_append_right _ mem_cons_self)
    | closed =>
      simp only [Connection.handleStreamMsg, he]
      split
      · rename_i hended
        exact .gone ⟨entry_removeStream _ id, hle, .inl (hending.written hended)⟩
      rename_i hended
      refine .live _ (entry_setEntry c id _) hmsgs hle ⟨fun hends => ?_,
        fun _ => ⟨rfl, Bool.eq_false_iff.2 hended⟩, hending.written⟩
      rw [any_append, or_eq_true] at hends
      exact hending.pending (hends.resolve_right (by simp [StreamMsg.ends]))

theorem foldl {batch : List StreamMsg} (h : Drained id lost handled c)
    (hlast : ClosedLast (handled ++ batch)) :
    Drained id lost (handled ++ batch) (batch.foldl (fun c msg => c.handleStreamMsg id msg) c) := by
  induction batch generalizing handled c with
  | nil => rwa [append_nil]
  | cons msg batch ih =>
    have hassoc : handled ++ msg :: batch = handled ++ [msg] ++ batch := by simp
    have hopen : .closed ∉ handled := fun hmem =>
      (pairwise_append.1 hlast).2.2 _ hmem msg mem_cons_self rfl
    rw [hassoc] at hlast ⊢
    exact ih (h.handleStreamMsg hopen msg) hlast

end Drained

/-! ### End markers -/

theorem mem_mergeEnd_closed (msgs : List StreamMsg) : .closed ∈ mergeEnd msgs ↔ .closed ∈ msgs := by
  fun_induction mergeEnd msgs with
  | case1 data endStream rest ih => simp [ih]
  | case2 msg rest _ ih => rw [mem_cons, mem_cons, ih]
  | case3 => rfl

/-- Merging end markers leaves the terminal message where it is. -/
theorem closedLast_mergeEnd {msgs : List StreamMsg} (h : ClosedLast msgs) :
    ClosedLast (mergeEnd msgs) := by
  fun_induction mergeEnd msgs with
  | case1 data endStream rest ih =>
    exact pairwise_cons.2 ⟨fun _ _ => by simp, ih h.of_cons.of_cons⟩
  | case2 msg rest _ ih =>
    refine pairwise_cons.2 ⟨fun b hb => ?_, ih h.of_cons⟩
    cases rest with
    | nil => cases hb
    | cons next rest => exact (pairwise_cons.1 h).1 next mem_cons_self
  | case3 => exact h

theorem closedLast_append_mergeEnd {handled msgs : List StreamMsg}
    (h : ClosedLast (handled ++ msgs)) : ClosedLast (handled ++ mergeEnd msgs) := by
  obtain ⟨hhandled, hmsgs, hfirst⟩ := pairwise_append.1 h
  refine pairwise_append.2 ⟨hhandled, closedLast_mergeEnd hmsgs, fun a ha b hb => ?_⟩
  cases msgs with
  | nil => cases hb
  | cons msg msgs => exact hfirst a ha msg mem_cons_self

namespace Retires

theorem drainStream (h : Retires id lost msgs c) (ht : Tidy c) (hlast : ClosedLast msgs) :
    Retires id lost msgs (c.drainStream id) := by
  refine h.drain fun e handled c' he hmsgs hending hhigh hc' => ?_
  subst hmsgs
  have hstart : Drained id lost handled (c.setEntry id { e with msgs := [] }) :=
    .live _ (entry_setEntry c id _) rfl (ht.bounded id e he)
      (Ending.of_entry hending rfl rfl rfl)
  cases hc' ▸ hstart.foldl (closedLast_append_mergeEnd hlast) with
  | gone hover => exact .gone hover.entry hover.le hover.closed
  | live e' he' hmsgs' hle hending' =>
    refine .live e' (handled ++ e.msgs) he' (by rw [hmsgs', append_nil])
      ⟨fun hends => hending'.pending ?_, fun hmem => hending'.done ?_, hending'.written⟩
    · rwa [any_append, any_ends_mergeEnd, ← any_append]
    · rwa [mem_append, mem_mergeEnd_closed, ← mem_append]

theorem tracks (id : ℕ) (lost : Prop) :
    Tracks id lost ClosedLast (fun _ => True) (retirement id lost) :=
  { upholds id lost _ fun h => (pairwise_append.1 h).1 with
    drain := fun h ht hlast _ => drainStream h ht hlast }

end Retires

end Retirement

end Connection

end ZincioHttp.H2
