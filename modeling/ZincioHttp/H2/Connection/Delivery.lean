import ZincioHttp.H2.Connection.Response
import ZincioHttp.H2.Connection.StreamRun

/-! One stream's response through a whole run of its connection. Whatever the peer
and the other streams do, the messages of the stream's task are on the wire, queued,
or still in its channel; once the stream has gone, either all of them were written
or the stream was given up before END_STREAM. -/

namespace ZincioHttp.H2

open Lib List Option
open H2.Hpack (Header)

/-- Control frames and frames of other streams carry nothing of a response. -/
theorem Frame.carry_nothing (id : ℕ) {w : List Frame}
    (hw : ∀ f ∈ w, f.isControl = true ∨ f.respondsOn id = false) :
    w.flatMap (Frame.payloadOn id) = [] ∧ w.countP (Frame.endsStream id) = 0 := by
  have h : ∀ f : Frame, f.isControl = true ∨ f.respondsOn id = false →
      f.payloadOn id = [] ∧ f.endsStream id = false := by
    intro f hf
    cases f with
    | data id' endStream octs =>
      have hid : id' ≠ id := of_decide_eq_false (hf.resolve_left Bool.false_ne_true)
      exact ⟨if_neg hid, by simp [endsStream, hid]⟩
    | headers id' endStream =>
      have hid : id' ≠ id := of_decide_eq_false (hf.resolve_left Bool.false_ne_true)
      exact ⟨rfl, by simp [endsStream, hid]⟩
    | _ => exact ⟨rfl, rfl⟩
  exact ⟨List.flatMap_eq_nil_iff.2 fun f hf => (h f (hw f hf)).1,
    List.countP_eq_zero.2 fun f hf => by simp [(h f (hw f hf)).2]⟩

namespace Connection

/-! ### How far a response is -/

def Scripted (msgs : List StreamMsg) : Prop := (msgs.foldlM Phase.next .start).isSome = true

theorem Scripted.left {msgs more : List StreamMsg} (h : Scripted (msgs ++ more)) :
    Scripted msgs := by
  rw [Scripted, foldlM_append] at h
  exact isSome_of_isSome_bind h

/-- What has been handled of the messages is written or queued. With `ample` windows nothing is
queued, and `lost` says whether the stream may be given up without a RST_STREAM. -/
def delivery (id : ℕ) (ample lost : Prop) : Account where
  fresh w := w.flatMap (Frame.payloadOn id) = [] ∧ w.countP (Frame.endsStream id) = 0
  live handled w e := ∃ phase, Answers id handled w e phase ∧ (ample → e.pendingData = [])
  gone msgs w := Delivered id msgs w ∨ w.countP (Frame.endsStream id) = 0 ∧
    (lost ∨ ∃ code, Frame.reset id code ∈ w)

/-- A stream that is retired by a pump has its response on the wire. -/
theorem delivery_sends (id : ℕ) (ample lost : Prop) :
    Sends id { delivery id ample lost with gone := Delivered id } where
  live_entry := fun ⟨phase, ha, hempty⟩ hended _ hpending =>
    ⟨phase, ha.of_entry hended hpending, fun hample => hpending.trans (hempty hample)⟩
  sendPart {_ _ _ amount _ _ _} := fun ⟨phase, ha, hempty⟩ hopen hfront =>
    ⟨phase, ha.sendPart hopen hfront amount, fun hample => by simpa [hfront] using hempty hample⟩
  sendAll := fun ⟨phase, ha, hempty⟩ hopen hfront _ =>
    ⟨phase, ha.sendAll hopen hfront, fun hample => by simpa [hfront] using hempty hample⟩
  sendLast := fun ⟨_, ha, _⟩ hopen hfront _ => .of_answers (ha.sendAll hopen hfront) rfl

theorem delivery_upholds (id : ℕ) (ample lost : Prop) :
    Upholds id lost Scripted (delivery id ample lost) where
  live_entry := (delivery_sends id ample lost).live_entry
  sendPart := (delivery_sends id ample lost).sendPart
  sendAll := (delivery_sends id ample lost).sendAll
  sendLast h hopen hfront htask :=
    .inl ((delivery_sends id ample lost).sendLast h hopen hfront htask)
  ok_left := .left
  fresh_nil := ⟨rfl, rfl⟩
  fresh_aside := by
    rintro w w' ⟨hpayload, hends⟩ hw'
    obtain ⟨hpayload', hends'⟩ := Frame.carry_nothing id fun f hf => .inr (hw' f hf)
    exact ⟨by rw [flatMap_append, hpayload, hpayload', append_nil],
      by rw [countP_append, hends, hends']⟩
  fresh_live := by
    rintro w e ⟨hpayload, hends⟩ hfresh
    refine ⟨.start, ⟨?_, ?_, ?_, fun _ => hfresh.pendingData, rfl, ?_, fun _ => hfresh.pendingData,
      (by simp), .of_count_zero hends⟩, fun _ => hfresh.pendingData⟩
    · rw [hpayload, StreamEntry.queued, hfresh.pendingData]
      rfl
    · rw [hends, hfresh.localEnded]
      rfl
    · rw [hfresh.pendingData]
      exact .nil
    · rw [hfresh.localEnded, hfresh.pendingData]
      rfl
  fresh_gone := by
    rintro w w' ⟨-, hends⟩ hw' hgiven
    obtain ⟨-, hends'⟩ := Frame.carry_nothing id fun f hf => .inl (hw' f hf)
    exact .inr ⟨by rw [countP_append, hends, hends'], hgiven⟩
  live_aside := by
    rintro handled w w' e ⟨phase, ha, hempty⟩ hw'
    obtain ⟨hpayload', hends'⟩ := Frame.carry_nothing id fun f hf => .inr (hw' f hf)
    exact ⟨phase, ha.append hpayload' hends', hempty⟩
  live_gone := by
    rintro handled w w' e ⟨phase, ha, -⟩ hok hw' hgiven
    obtain ⟨hpayload', hends'⟩ := Frame.carry_nothing id fun f hf => .inl (hw' f hf)
    cases hended : e.localEnded with
    | true =>
      -- the response had ended before the stream was given up
      exact .inl (((Delivered.of_answers ha hended).extend hok).1.append hpayload' hends')
    | false =>
      refine .inr ⟨?_, hgiven.imp_right fun hgiven => hgiven.resolve_left (by simp [hended])⟩
      rw [countP_append, hends', ha.ends, hended]
      rfl
  gone_aside := by
    rintro msgs w w' h hw'
    obtain ⟨hpayload', hends'⟩ := Frame.carry_nothing id hw'
    refine h.imp (fun hd => hd.append hpayload' hends') fun hl =>
      ⟨by rw [countP_append, hl.1, hends'], hl.2.imp_right fun hreset => ?_⟩
    obtain ⟨code, hcode⟩ := hreset
    exact ⟨code, mem_append_left _ hcode⟩
  gone_more h hok := h.imp_left fun hd => (hd.extend hok).1

section Serving
variable {id : ℕ} {ample lost : Prop} {msgs : List StreamMsg} {c c' : Connection}

/-! ### Draining a batch -/

/-- The stream while a batch of its messages is handled: what has been handled, and
what is left. With `need` nothing is queued and the windows admit all that is left. -/
inductive Sending (id : ℕ) (need : Prop) (handled rest : List StreamMsg) (c : Connection) : Prop
  | live (e : StreamEntry) (phase : Phase) (he : c.entry id = some e) (hmsgs : e.msgs = [])
      (h : Answers id handled c.written e phase)
      (hroom : need → e.pendingData = [] ∧ Room c.connWindow e.sendWindow (dataOf rest).length)
  | finished (hnone : c.entry id = none) (h : Delivered id handled c.written)

namespace Sending

variable {need : Prop} {handled rest : List StreamMsg}

theorem settle {e : StreamEntry} {phase : Phase} (he : c.entry id = some e) (hmsgs : e.msgs = [])
    (hsize : 0 < c.peer.maxFrameSize) (h : Answers id handled c.written e phase)
    (hroom : need → Room c.connWindow e.sendWindow (e.queued.length + (dataOf rest).length)) :
    Sending id need handled rest (c.pumpStreamData id) := by
  have hreached := (Pump.run_reached id c.peer.maxFrameSize e c.connWindow).1
  have hpump : c.pumpStreamData id =
      c.settle id (Pump.run id c.peer.maxFrameSize e c.connWindow) := by
    rw [pumpStreamData, he]
  rw [hpump]
  rcases (delivery_sends id False False).settle ⟨phase, h, False.elim⟩ hreached with
    ⟨he', hmsgs', phase', hanswers, -⟩ | ⟨hnone, hdelivered⟩
  · refine .live _ phase' he' (hmsgs'.trans hmsgs) hanswers fun hneed => ?_
    have hfits : Pump.Fits ⟨e, c.connWindow, [], false⟩ := by
      refine ⟨h.drained, h.ordered, ?_⟩
      have hroom := hroom hneed
      simp only [Room] at hroom ⊢
      omega
    obtain ⟨hempty, hspends⟩ := hfits.loop id hsize _ _ le_rfl
    refine ⟨hempty, ?_⟩
    have hroom := hroom hneed
    have hconn := hspends.conn
    have hstream := hspends.stream
    rw [settle_connWindow]
    simp only [Room, Pump.run] at hroom hconn hstream ⊢
    omega
  · exact .finished hnone hdelivered

theorem fields {e e' : StreamEntry} {phase phase' : Phase} {msg : StreamMsg} {endStream : Bool}
    {headers : List Header} (he' : c'.entry id = some e') (hw' : c'.written = c.written)
    (hmsgs' : e'.msgs = []) (h : Answers id handled c.written e phase)
    (hopen : e.localEnded = false)
    (hnil : e.pendingData = []) (hnext : phase.next msg = some phase')
    (hover : phase'.isOver = endStream) (hoctets : msg.octets = [])
    (hheaders : ∀ parts es, msg = .headers parts es →
      headers = responseFields parts ∧ es = endStream)
    (hended' : e'.localEnded = endStream) (hnil' : e'.pendingData = [])
    (hroom : need → Room c'.connWindow e'.sendWindow (dataOf (msg :: rest)).length) :
    Sending id need (handled ++ [msg]) rest (c'.writeFields id endStream headers) := by
  obtain ⟨hpayload, hends, -⟩ := writeFieldBlock_spec c'.writerMaxFrameSize id id endStream
    (c'.encoder.encode headers).2
  have hends' : (writeFieldBlock c'.writerMaxFrameSize id endStream
      (c'.encoder.encode headers).2).countP (Frame.endsStream id) = endStream.toNat := by
    rw [hends]
    cases endStream <;> simp
  refine .live e' phase' he' hmsgs' ?_ fun hneed => ⟨hnil', ?_⟩
  · have hwritten : (c'.writeFields id endStream headers).written = c.written ++
        writeFieldBlock c'.writerMaxFrameSize id endStream (c'.encoder.encode headers).2 := by
      rw [← hw']
      rfl
    rw [hwritten]
    refine h.fields hopen hnil hnext hover hoctets hpayload hends' ?_ hended' hnil'
    intro parts es hmsg
    obtain ⟨rfl, rfl⟩ := hheaders parts es hmsg
    exact ⟨c.written, [], c'.writerMaxFrameSize, c'.encoder, (append_nil _).symm⟩
  · have hdata : dataOf (msg :: rest) = dataOf rest := by
      simp [dataOf, hoctets]
    exact hdata ▸ hroom hneed

theorem handleStreamMsg {msg : StreamMsg} (hsize : 0 < c.peer.maxFrameSize)
    (hscript : Scripted (handled ++ [msg]))
    (hneed : ∀ trailers, msg = .trailers trailers → need)
    (h : Sending id need handled (msg :: rest) c) :
    Sending id need (handled ++ [msg]) rest (c.handleStreamMsg id msg) := by
  cases h with
  | finished hnone hd =>
    obtain ⟨hd', hclosed⟩ := hd.extend hscript
    obtain rfl := hclosed msg (mem_singleton_self msg)
    simp only [Connection.handleStreamMsg, hnone]
    exact .finished hnone hd'
  | live e phase he hmsgs ha hroom =>
    obtain ⟨phase', hphase'⟩ := Option.isSome_iff_exists.1 hscript
    have hnext : phase.next msg = some phase' := by
      rw [foldlM_append, ha.after] at hphase'
      obtain ⟨phase₁, hphase₁, hafter⟩ := foldlM_cons_eq_some.1 hphase'
      exact hphase₁.trans hafter
    have hopen : phase.isOver = false → e.localEnded = false := fun ho => (ha.open_of_not_over ho).1
    cases msg with
    | informational parts =>
      cases phase with
      | start =>
        obtain rfl := some.inj hnext
        have hnil := ha.quiet rfl
        have hnot : ∀ parts' es, StreamMsg.informational parts = .headers parts' es →
            responseFields parts = responseFields parts' ∧ es = false := by
          intro parts' es hmsg
          cases hmsg
        exact .fields he rfl hmsgs ha (hopen rfl) hnil hnext rfl rfl hnot (hopen rfl) hnil
          fun hn => (hroom hn).2
      | _ => cases hnext
    | headers parts endStream =>
      cases phase with
      | start =>
        have hnil := ha.quiet rfl
        simp only [Connection.handleStreamMsg, he, hopen rfl, Bool.false_eq_true, if_false]
        refine .fields (entry_setEntry c id _) rfl hmsgs ha (hopen rfl) hnil hnext ?_ rfl ?_ rfl
          hnil fun hn => (hroom hn).2
        · obtain rfl := some.inj hnext
          cases endStream <;> rfl
        · intro parts' es hmsg
          obtain ⟨rfl, rfl⟩ := StreamMsg.headers.inj hmsg
          exact ⟨rfl, rfl⟩
      | _ => cases hnext
    | data data endStream =>
      cases phase with
      | body =>
        simp only [Connection.handleStreamMsg, he, hopen rfl]
        refine .settle (entry_setEntry c id _) hmsgs hsize (ha.push hnext (hopen rfl).symm rfl)
          fun hn => ?_
        obtain ⟨hnil, hroom⟩ := hroom hn
        have hlen : (dataOf (.data data endStream :: rest)).length =
            data.length + (dataOf rest).length := by
          simp [dataOf, StreamMsg.octets]
        rw [hlen] at hroom
        simpa [StreamEntry.queued, hnil, setEntry] using hroom
      | _ => cases hnext
    | trailers trailers =>
      cases phase with
      | body =>
        obtain ⟨hnil, hroom⟩ := hroom (hneed trailers rfl)
        obtain rfl := some.inj hnext
        simp only [Connection.handleStreamMsg, he, hopen rfl]
        refine .fields (entry_setEntry c id _) rfl hmsgs ha (hopen rfl) hnil hnext rfl rfl ?_ rfl
          hnil fun _ => hroom
        intro parts es hmsg
        cases hmsg
      | _ => cases hnext
    | reset errorCode => cases phase <;> cases hnext
    | closed =>
      cases phase with
      | ended =>
        obtain rfl := some.inj hnext
        have ha' :
            Answers id (handled ++ [.closed]) c.written { e with taskDone := true } .done := by
          have hentry : Answers id handled c.written { e with taskDone := true } .ended :=
            ha.of_entry rfl rfl
          refine hentry.of_handled ?_ hphase' rfl (by simp) ?_
          · simp [dataOf, StreamMsg.octets]
          · intro parts es hmem
            simpa using hmem
        simp only [Connection.handleStreamMsg, he]
        split
        · rename_i hended
          exact .finished (entry_removeStream _ id) (.of_answers ha' hended)
        · exact .live _ .done (entry_setEntry c id _) hmsgs ha' hroom
      | _ => cases hnext

theorem foldl {batch : List StreamMsg} (h : Sending id need handled batch c)
    (hsize : 0 < c.peer.maxFrameSize) (hscript : Scripted (handled ++ batch))
    (hneed : ∀ trailers, .trailers trailers ∈ batch → need) :
    Sending id need (handled ++ batch) []
      (batch.foldl (fun c msg => c.handleStreamMsg id msg) c) := by
  induction batch generalizing handled c with
  | nil => rwa [append_nil]
  | cons msg batch ih =>
    have hassoc : handled ++ msg :: batch = handled ++ [msg] ++ batch := by simp
    rw [hassoc] at hscript ⊢
    refine ih (h.handleStreamMsg hsize hscript.left fun trailers hmsg =>
      hneed trailers (hmsg ▸ mem_cons_self)) ?_ hscript fun trailers hmem =>
        hneed trailers (mem_cons_of_mem _ hmem)
    rw [(Responds.handleStreamMsg c id msg).peer]
    exact hsize

end Sending

/-- The peer admits frames, and the windows what is drained if they have to. -/
def DrainFits (id : ℕ) (ample : Prop) (c : Connection) : Prop :=
  0 < c.peer.maxFrameSize ∧ ∀ e, c.entry id = some e → e.pendingData = [] →
    (ample ∨ ∃ trailers, .trailers trailers ∈ e.msgs) →
    Room c.connWindow e.sendWindow (dataOf e.msgs).length

/-- Draining the messages of the stream. With ample windows none is left. -/
theorem delivery_drain (h : Stage id (delivery id ample lost) msgs c) (ht : Tidy c)
    (hscript : Scripted msgs) (hfits : DrainFits id ample c) :
    Stage id (delivery id ample lost) msgs (c.drainStream id) ∧
      (ample → ∀ e, (c.drainStream id).entry id = some e → e.msgs = []) := by
  have hhigh := (Responds.drainStream c id).highestStreamId
  rw [drainStream] at hhigh ⊢
  cases he : c.entry id with
  | none => exact ⟨h, fun _ e he' => by cases he.symm.trans he'⟩
  | some e =>
    obtain ⟨handled, hmsgs, phase, ha, hempty⟩ := h.live_of_entry he
    simp only [he] at hhigh ⊢
    split_ifs at hhigh ⊢ with hpending
    · have hnil : e.pendingData = [] := List.isEmpty_iff.1 hpending
      obtain ⟨phase', hphase'⟩ := Option.isSome_iff_exists.1 hscript
      -- merging end markers changes the messages, not the response
      have hmerged : (handled ++ mergeEnd e.msgs).foldlM Phase.next .start = some phase' := by
        rw [hmsgs, foldlM_append, ha.after] at hphase'
        rw [foldlM_append, ha.after]
        exact foldlM_mergeEnd Phase.next_ends e.msgs hphase'
      have hstart : Sending id (ample ∨ ∃ trailers, .trailers trailers ∈ e.msgs) handled
          (mergeEnd e.msgs) (c.setEntry id { e with msgs := [] }) := by
        refine .live _ phase (entry_setEntry c id _) rfl (ha.of_entry rfl rfl) fun hn => ?_
        rw [dataOf_mergeEnd]
        exact ⟨hnil, hfits.2 e he hnil hn⟩
      have hdata : dataOf msgs = dataOf (handled ++ mergeEnd e.msgs) := by
        rw [hmsgs, dataOf_append, dataOf_append, dataOf_mergeEnd]
      have hheaders : ∀ parts es, .headers parts es ∈ msgs →
          .headers parts es ∈ handled ++ mergeEnd e.msgs := by
        intro parts es hmem
        rw [hmsgs, mem_append] at hmem
        rw [mem_append, mem_mergeEnd e.msgs (by simp)]
        exact hmem
      have hend := hstart.foldl hfits.1 (Option.isSome_iff_exists.2 ⟨phase', hmerged⟩)
        fun trailers hmem => .inr ⟨trailers, (mem_mergeEnd e.msgs (by simp)).1 hmem⟩
      cases hend with
      | live e' phase₁ he' hmsgs' ha' hroom' =>
        obtain rfl : phase₁ = phase' := some.inj (ha'.after.symm.trans hmerged)
        refine ⟨.live e' msgs he' (by rw [hmsgs', append_nil]) ⟨phase₁,
          ha'.of_handled hdata hphase' rfl ha'.quiet hheaders,
          fun hample => (hroom' (.inl hample)).1⟩, fun _ e₁ he₁ => ?_⟩
        obtain rfl := some.inj (he'.symm.trans he₁)
        exact hmsgs'
      | finished hnone hd =>
        refine ⟨.gone hnone (hhigh ▸ ht.bounded id e he) (.inl ?_),
          fun _ e₁ he₁ => by cases hnone.symm.trans he₁⟩
        refine ⟨hd.payload.trans hdata.symm, hd.ends, ⟨phase', hphase', ?_⟩,
          fun parts es hmem => hd.headers parts es (hheaders parts es hmem), hd.last⟩
        obtain ⟨phase₁, hphase₁, hover⟩ := hd.after
        rwa [← some.inj (hphase₁.symm.trans hmerged)]
    · refine ⟨.live e handled he hmsgs ⟨phase, ha, hempty⟩, fun hample => absurd ?_ hpending⟩
      rw [hempty hample]
      rfl

theorem delivery_tracks (id : ℕ) (ample lost : Prop) :
    Tracks id lost Scripted (DrainFits id ample) (delivery id ample lost) :=
  { delivery_upholds id ample lost with
    drain := fun h ht hscript hfits => (delivery_drain h ht hscript hfits).1 }

end Serving

end Connection

end ZincioHttp.H2
