import ZincioHttp.H2.Connection.Run

/-! What the handlers of the request side leave alone. A relation between states that
holds for the few things they do with bodies and decoded fields holds for the handlers;
a fragment of a field block changes its stream's block, opens the stream or is refused.
`lost` names the streams that may be forgotten without a RST_STREAM. -/

namespace ZincioHttp.H2

open List Option StreamEntry
open H2.Hpack (Header)
open Lib (Adds)

/-- The stream on which a frame of the request side acts. -/
def Frame.about : Frame → Option ℕ
  | .data id _ _ | .headers id _ _ _ _ | .continuation id _ _ | .reset id _ => some id
  | _ => none

/-! ### The request body and complete field blocks -/

namespace StreamEntry

/-- The field block and the response are as they were. -/
def SameBlock (e e' : StreamEntry) : Prop :=
  e' = { e with
    body := e'.body
    requestStarted := e'.requestStarted
    remoteEnded := e'.remoteEnded
    contentLength := e'.contentLength
    dataSum := e'.dataSum
    trailersSeen := e'.trailersSeen }

/-- Only the field block and what is counted with it differs. -/
def Bookkeeps (e e' : StreamEntry) : Prop :=
  e' = { e with
    fieldBlock := e'.fieldBlock
    pendingEndStream := e'.pendingEndStream
    trailersSeen := e'.trailersSeen
    headerListSize := e'.headerListSize
    continuationFrames := e'.continuationFrames }

end StreamEntry

namespace Connection

/-- A relation between states that whatever is done with the body of a request and with
decoded fields is in. -/
structure BodyClosed (lost : ℕ → Prop) (R : Connection → Connection → Prop) : Prop where
  refl : ∀ c, R c c
  trans : ∀ {c c' c''}, R c c' → R c' c'' → R c c''
  setEntry : ∀ {c id e e'}, c.entry id = some e → e.SameBlock e' → R c (c.setEntry id e')
  goaway : ∀ c reason debug, R c (c.goaway reason debug)
  reset : ∀ c id code, R c ((c.write [.reset id code]).retire id)
  answer : ∀ c id code, R c (c.write [.reset id code])
  removeStream : ∀ c {id}, lost id → R c (c.removeStream id)
  markClosed : ∀ c id, R c (c.markClosed id)
  park : ∀ c parked, R c (c.park parked)
  count : ∀ c errors resets,
    R c { c with localErrorResets := errors, pendingAcceptResets := resets }
  dispatch : ∀ {c id} request, (c.entry id).isSome = true →
    R c { c with dispatched := c.dispatched ++ [(id, request)] }

variable {e : StreamEntry}

namespace BodyClosed

variable {lost : ℕ → Prop} {R : Connection → Connection → Prop} (h : BodyClosed lost R)
  {c : Connection} {id : ℕ}
include h

theorem retire (c : Connection) (hlost : lost id) : R c (c.retire id) :=
  h.trans (h.markClosed c id) (h.removeStream _ hlost)

theorem streamError (c : Connection) (id : ℕ) (reason : Reason) :
    R c (c.streamError id reason) := by
  rw [Connection.streamError]
  split_ifs
  · exact h.goaway c _ _
  · exact h.trans (h.count c (c.localErrorResets + 1) c.pendingAcceptResets) (h.reset _ id _)
  · exact h.reset c id _

theorem deliver {e : StreamEntry} (msg : BodyMsg) (he : c.entry id = some e)
    (hlost : e.hears = false → lost id) : R c (c.deliver id e msg) := by
  rw [Connection.deliver]
  cases hs : e.sendBody msg with
  | none => exact h.retire c (hlost (sendBody_eq_none hs))
  | some e' =>
    obtain ⟨-, ch, -, rfl⟩ := sendBody_eq_some hs
    exact h.setEntry he rfl

theorem sendEnd (hlost : ∀ e, c.entry id = some e → e.hears = false → lost id) :
    R c (c.sendEnd id) := by
  rw [Connection.sendEnd]
  cases he : c.entry id with
  | none => exact h.refl c
  | some e =>
    simp only
    split_ifs
    · exact h.deliver .endStream he (hlost e he)
    · exact h.park c _

theorem endRequestBody
    (hlost : ∀ e, c.entry id = some e → e.body.isSome = true → e.hears = false → lost id) :
    R c (c.endRequestBody id) := by
  rw [Connection.endRequestBody]
  cases he : c.entry id with
  | none => exact h.refl c
  | some e =>
    have hset : R c (c.setEntry id { e with remoteEnded := true }) := h.setEntry he rfl
    simp only
    split_ifs with hended hlength hbody
    · exact h.refl c
    · exact h.trans hset (h.streamError _ id _)
    · exact hset
    · refine h.trans hset (h.sendEnd ?_)
      intro e' he' hears
      obtain rfl := eq_of_entry_setEntry he'
      exact hlost e he (by simpa [isSome_iff_ne_none] using hbody) hears

theorem afterBody (msg : BodyMsg) (endStream : Bool) (he : c.entry id = some e)
    (hlost : e.hears = false → lost id) : R c (c.afterBody id e msg endStream) := by
  have hd : R c (c.deliver id e msg) := h.deliver msg he hlost
  rw [Connection.afterBody]
  cases hs : e.sendBody msg with
  | none => simpa using hd
  | some e' =>
    have hentry : (c.deliver id e msg).entry id = some e' := by
      rw [Connection.deliver, hs]
      exact entry_setEntry _ _ _
    cases endStream with
    | false => simpa using hd
    | true =>
      refine h.trans hd (h.endRequestBody ?_)
      intro e₁ he₁ _ hears
      obtain rfl := some.inj (hentry.symm.trans he₁)
      obtain ⟨hhears, ch, hch, rfl⟩ := sendBody_eq_some hs
      simp_all [StreamEntry.hears]

theorem forward (msg : BodyMsg) (endStream : Bool)
    (hlost : ∀ e, c.entry id = some e → e.hears = false → lost id) :
    R c (c.forward id msg endStream) := by
  rw [Connection.forward]
  cases he : c.entry id with
  | none => exact h.refl c
  | some e =>
    simp only
    split_ifs
    · exact h.afterBody msg endStream he (hlost e he)
    · exact h.park c _

theorem resume (hlost : ∀ p, c.parked = some p → ∀ e, c.entry p.streamId = some e →
    e.hears = false → lost p.streamId) : R c c.resume := by
  rw [Connection.resume]
  cases hp : c.parked with
  | none => exact h.refl c
  | some p =>
    simp only
    cases he : c.entry p.streamId with
    | none => exact h.park c none
    | some e =>
      have he' : (c.park none).entry p.streamId = some e := he
      simp only
      split_ifs
      · exact h.trans (h.park c none) (h.deliver p.msg he' (hlost p hp e he))
      · exact h.trans (h.park c none) (h.afterBody p.msg p.endStream he' (hlost p hp e he))
      · exact h.refl c

theorem handleDataFrame {endStream : Bool} {data : Octets}
    (htaken : ¬ (data.isEmpty && !endStream) = true)
    (hlost : ∀ e, c.entry id = some e → e.requestStarted = true → e.hears = false → lost id) :
    R (c.restoreWindows id data) (c.handleDataFrame id endStream data) := by
  have hentry : (c.restoreWindows id data).entry id = c.entry id := by
    rw [restoreWindows]
    split_ifs <;> rfl
  rw [Connection.handleDataFrame]
  simp only
  cases he : (c.restoreWindows id data).entry id with
  | none =>
    split_ifs
    · exact h.answer _ id _
    · exact h.goaway _ _ _
  | some e =>
    simp only
    split_ifs with hbad
    · exact h.streamError _ id _
    · have hstarted : e.requestStarted = true := by
        cases hs : e.requestStarted with
        | true => rfl
        | false => simp [hs] at hbad
      refine h.trans (h.setEntry he ?_) (h.forward _ endStream ?_)
      · rfl
      · intro e' he' hears
        obtain rfl := eq_of_entry_setEntry he'
        exact hlost e (hentry.symm.trans he) hstarted hears

theorem finalizeTrailers (http : HttpCrate) (headers : List Header) (he : c.entry id = some e)
    (hlost : e.hears = false → lost id) : R c (finalizeTrailers http c id e headers) := by
  have hset : R c (c.setEntry id { e with trailersSeen := true }) := h.setEntry he rfl
  rw [Connection.finalizeTrailers]
  cases parseTrailers http headers with
  | none => exact h.streamError c id _
  | some trailers =>
    split_ifs
    · exact h.streamError c id _
    · exact h.trans hset (h.streamError _ id _)
    · refine h.trans hset (h.forward _ true ?_)
      intro e' he' hears
      obtain rfl := eq_of_entry_setEntry he'
      exact hlost hears

theorem spawnRequest (c : Connection) (id : ℕ) (endStream : Bool) (parsed : ParsedRequest) :
    R c (c.spawnRequest id endStream parsed) := by
  rw [Connection.spawnRequest]
  cases he : c.entry id with
  | none => exact h.refl c
  | some e =>
    have hset : R c (c.setEntry id (e.start parsed)) := h.setEntry he rfl
    split_ifs
    · exact h.trans hset (h.streamError _ id _)
    · refine h.trans hset (h.trans (h.setEntry (entry_setEntry _ _ _) ?_) (h.dispatch parsed ?_))
      · rfl
      · rw [entry_setEntry]
        rfl

theorem finalizeRequest (http : HttpCrate) (endStream : Bool) (headers : List Header)
    (hlost : ∀ e, c.entry id = some e → e.body.isSome = true → e.hears = false → lost id) :
    R c (finalizeRequest http c id endStream headers) := by
  rw [Connection.finalizeRequest]
  cases parseRequest http headers with
  | none => exact h.streamError c id _
  | some parsed =>
    cases endStream with
    | false => exact h.spawnRequest c id false parsed
    | true => exact h.trans (h.endRequestBody hlost) (h.spawnRequest _ id true parsed)

theorem finalizeDecoded (http : HttpCrate)
    (decoded : Except Hpack.HpackError (List Header)) (he : c.entry id = some e)
    (hlost : e.requestStarted = true ∨ e.body.isSome = true → e.hears = false → lost id) :
    R c (finalizeDecoded http c id e decoded) := by
  cases decoded with
  | error error =>
    cases error with
    | headerListTooLarge => exact h.streamError c id _
    | _ => exact h.goaway c _ _
  | ok headers =>
    rw [Connection.finalizeDecoded]
    split_ifs with hstarted
    · exact h.finalizeTrailers http headers he (hlost (.inl hstarted))
    · refine h.finalizeRequest http _ headers fun e' he' hbody => ?_
      obtain rfl := some.inj (he.symm.trans he')
      exact hlost (.inr hbody)

/-- A complete block is decoded, and what it holds is used. -/
theorem finalizeFieldBlock (http : HttpCrate)
    (hdecoder : ∀ c decoder, R c (c.setDecoder decoder))
    (htake : ∀ {c e} size, c.entry id = some e → R c (c.setEntry id (e.takeBlock size)))
    (hlost : ∀ e, c.entry id = some e → e.requestStarted = true ∨ e.body.isSome = true →
      e.hears = false → lost id) : R c (finalizeFieldBlock http c id) := by
  rw [Connection.finalizeFieldBlock]
  cases he : c.entry id with
  | none => exact h.refl c
  | some e =>
    simp only
    rcases c.requestDecoder.decode e.fieldBlock e.headerListSize with ⟨decoder, size, decoded⟩
    exact h.trans (h.trans (hdecoder c decoder) (htake size he))
      (h.finalizeDecoded http decoded (entry_setEntry _ _ _) (hlost e he))

theorem handleResetFrame (hlost : lost id) : R c (c.handleResetFrame id) := by
  rw [Connection.handleResetFrame]
  cases he : c.entry id with
  | none =>
    split_ifs
    · exact h.refl c
    · exact h.goaway c _ _
  | some e =>
    have hremove : R c (c.removeStream id) := h.removeStream c hlost
    simp only
    split_ifs
    · exact h.trans hremove (h.markClosed _ id)
    · exact h.trans hremove (h.goaway _ _ _)
    · exact h.trans hremove (h.trans (h.count _ c.localErrorResets (c.pendingAcceptResets + 1))
        (h.markClosed _ id))

end BodyClosed

/-! ### Fragments of field blocks -/

/-- What a fragment does before the block that it may complete is looked at. `fin` says
that it may end the stream. -/
inductive Fragment (id : ℕ) (fin : Prop) (endHeaders : Bool) (c : Connection) : Connection → Prop
  | ignored (hgrace : c.graceful = true ∧ id > c.gracefulLastStream) :
      Fragment id fin endHeaders c c
  | invalid (reason : Reason) (debug : String) (hnone : c.entry id = none) :
      Fragment id fin endHeaders c (c.goaway reason debug)
  | refuse (hnone : c.entry id = none) (hlt : c.highestStreamId < id) :
      Fragment id fin endHeaders c ((c.raiseHighest id).write [.reset id Reason.refusedStream.code])
  | opens (endStream : Bool) (block : Octets) (hnone : c.entry id = none)
      (hlt : c.highestStreamId < id) (hgrace : c.graceful = true → id ≤ c.gracefulLastStream) :
      Fragment id fin endHeaders c
        (((if endHeaders then c.completeBlock id else c).raiseHighest id).setEntry id
          (.opening c.peer.initialWindowSize endStream endHeaders block))
  | ended {e : StreamEntry} (he : c.entry id = some e) :
      Fragment id fin endHeaders c (c.streamError id .streamClosed)
  | extend {e e' : StreamEntry} (he : c.entry id = some e) (h : e.Bookkeeps e')
      (hfin : e'.pendingEndStream = true → e.pendingEndStream = true ∨ fin)
      (hframes : endHeaders = true → e'.continuationFrames = 0) :
      Fragment id fin endHeaders c
        ((if endHeaders then c.completeBlock id else c).setEntry id e')
  /-- The block has too many fragments. -/
  | flood {e e' : StreamEntry} (he : c.entry id = some e) (h : e.Bookkeeps e')
      (hfin : e'.pendingEndStream = true → e.pendingEndStream = true ∨ fin) :
      Fragment id fin endHeaders c
        (((c.setEntry id e').clearBlock id).streamError id .protocolError)

namespace Fragment

variable {fin : Prop} {c : Connection} {id : ℕ}

theorem counted {e' : StreamEntry} (he : c.entry id = some e) (h : e.Bookkeeps e')
    (hfin : e'.pendingEndStream = true → e.pendingEndStream = true ∨ fin) :
    Fragment id fin false c ((c.setEntry id e').checkContinuationFlood id) := by
  have hcount : e.Bookkeeps e'.countFrame := by
    rw [h]
    rfl
  rw [checkContinuationFlood, entry_setEntry]
  simp only [setEntry_setEntry]
  split_ifs
  · exact .flood he hcount hfin
  · exact .extend he hcount hfin nofun

theorem handleHeadersFrame (c : Connection) (id : ℕ) (endStream endHeaders : Bool)
    (block : Octets) : Fragment id (endStream = true) endHeaders c
      (c.handleHeadersFrame id endStream endHeaders block) := by
  rw [Connection.handleHeadersFrame]
  split
  · rename_i hgrace
    exact .ignored hgrace
  rename_i hgrace
  rw [not_and, not_lt] at hgrace
  cases he : c.entry id with
  | none =>
    simp only
    rw [openRequestStream]
    split_ifs with hodd hhigh hfull hend
    · exact .invalid _ _ he
    · exact .invalid _ _ he
    · exact .refuse he (not_le.1 hhigh)
    · subst hend
      exact .opens endStream block he (not_le.1 hhigh) hgrace
    · obtain rfl := Bool.eq_false_iff.2 hend
      exact .opens endStream block he (not_le.1 hhigh) hgrace
  | some e =>
    simp only
    split_ifs with hended hend
    · exact .ended he
    · subst hend
      exact .extend he rfl .inr fun _ => rfl
    · obtain rfl := Bool.eq_false_iff.2 hend
      exact .counted he rfl .inr

theorem handleContinuation (c : Connection) (id : ℕ) (endHeaders : Bool) (block : Octets) :
    Fragment id False endHeaders c (c.handleContinuation id endHeaders block) := by
  rw [Connection.handleContinuation]
  cases he : c.entry id with
  | none => exact .invalid _ _ he
  | some e =>
    split_ifs with hend
    · subst hend
      exact .extend he rfl .inl fun _ => rfl
    · obtain rfl := Bool.eq_false_iff.2 hend
      exact .counted he rfl .inl

end Fragment

/-- What the decoding of field blocks depends on, streams apart. -/
def blockState (c : Connection) :
    ConnectionOptions × Option ℕ × Hpack.Decoder × List ℕ × ℕ × Bool × ℕ :=
  (c.opts, c.blockStream, c.requestDecoder, c.completeBlocks, c.highestStreamId, c.graceful,
    c.gracefulLastStream)

/-- Only control frames are written, and no stream goes but one that may be lost or is reset. -/
structure Guards (lost : ℕ → Prop) (c c' : Connection) : Prop where
  connWindow : c'.connWindow = c.connWindow
  maxFrameSize : 0 < c.peer.maxFrameSize → 0 < c'.peer.maxFrameSize
  written : ∃ w, c'.written = c.written ++ w ∧ ∀ f ∈ w, f.isControl = true
  kept : ∀ id e, c.entry id = some e → c'.entry id = none →
    lost id ∨ ∃ code, Frame.reset id code ∈ c'.written

namespace Guards

variable {lost : ℕ → Prop} {c c' : Connection} {id : ℕ}

theorem resets (h : Guards lost c c') (hid : lost id ∨ ∃ code, Frame.reset id code ∈ c.written) :
    lost id ∨ ∃ code, Frame.reset id code ∈ c'.written :=
  hid.imp_right fun ⟨code, hcode⟩ => ⟨code, Adds.mem h.written hcode⟩

theorem trans {c'' : Connection} (h : Guards lost c c') (h' : Guards lost c' c'') :
    Guards lost c c'' where
  connWindow := h'.connWindow.trans h.connWindow
  maxFrameSize := h'.maxFrameSize ∘ h.maxFrameSize
  written := Adds.trans h.written h'.written
  kept id e he hnone := by
    cases he' : c'.entry id with
    | none => exact h'.resets (h.kept id e he he')
    | some e' => exact h'.kept id e' he' hnone

theorem of_control (hw : Adds (·.isControl = true) c.written c'.written)
    (hwindow : c'.connWindow = c.connWindow)
    (hsize : 0 < c.peer.maxFrameSize → 0 < c'.peer.maxFrameSize)
    (hstreams : c'.streams = c.streams) : Guards lost c c' where
  connWindow := hwindow
  maxFrameSize := hsize
  written := hw
  kept id e he hnone := by
    rw [Connection.entry, hstreams] at hnone
    cases he.symm.trans hnone

theorem setEntry (c : Connection) (id : ℕ) (e : StreamEntry) : Guards lost c (c.setEntry id e) where
  connWindow := rfl
  maxFrameSize := (·)
  written := Adds.none rfl
  kept id' e₁ h hnone := by cases h.symm.trans (none_of_entry_setEntry hnone)

end Guards

structure Receives (lost : ℕ → Prop) (c c' : Connection) : Prop extends Guards lost c c' where
  blockState : c'.blockState = c.blockState
  closing : c.closing = true → c'.closing = true
  entry : ∀ id e', c'.entry id = some e' →
    ∃ e, c.entry id = some e ∧ e'.fieldBlock = e.fieldBlock ∧ e.SameResponse e'
  spawned : ∀ id, c'.spawned id = true → c.spawned id = true ∨ (c.entry id).isSome = true

namespace Receives

variable {lost : ℕ → Prop} {c c' : Connection} {id : ℕ}

theorem trans {c'' : Connection} (h : Receives lost c c') (h' : Receives lost c' c'') :
    Receives lost c c'' where
  toGuards := h.toGuards.trans h'.toGuards
  blockState := h'.blockState.trans h.blockState
  closing := h'.closing ∘ h.closing
  entry id e'' he'' := by
    obtain ⟨e', he', hb', hs'⟩ := h'.entry id e'' he''
    obtain ⟨e, he, hb, hs⟩ := h.entry id e' he'
    exact ⟨e, he, hb'.trans hb, hs.trans hs'⟩
  spawned id hid := by
    rcases h'.spawned id hid with h₁ | h₁
    · exact h.spawned id h₁
    · obtain ⟨e', he'⟩ := Option.isSome_iff_exists.1 h₁
      obtain ⟨e, he, -⟩ := h.entry id e' he'
      exact .inr (he ▸ rfl)

/-- A step that keeps the streams and the requests and writes control frames. -/
theorem of_control (hw : Adds (·.isControl = true) c.written c'.written)
    (hstate : c'.blockState = c.blockState)
    (hclosing : c.closing = true → c'.closing = true) (hwindow : c'.connWindow = c.connWindow)
    (hsize : 0 < c.peer.maxFrameSize → 0 < c'.peer.maxFrameSize)
    (hstreams : c'.streams = c.streams)
    (hdispatched : c'.dispatched = c.dispatched) : Receives lost c c' where
  toGuards := .of_control hw hwindow hsize hstreams
  blockState := hstate
  closing := hclosing
  entry id e he := by
    rw [Connection.entry, hstreams] at he
    exact ⟨e, he, rfl, .refl e⟩
  spawned id hid := by
    rw [Connection.spawned, hdispatched] at hid
    exact .inl hid

theorem silent (hw : c'.written = c.written) (hstate : c'.blockState = c.blockState)
    (hclosing : c.closing = true → c'.closing = true) (hwindow : c'.connWindow = c.connWindow)
    (hsize : 0 < c.peer.maxFrameSize → 0 < c'.peer.maxFrameSize)
    (hstreams : c'.streams = c.streams)
    (hdispatched : c'.dispatched = c.dispatched) : Receives lost c c' :=
  of_control (.none hw) hstate hclosing hwindow hsize hstreams hdispatched

theorem refl (c : Connection) : Receives lost c c := silent rfl rfl (·) rfl (·) rfl rfl

theorem write (c : Connection) {w : List Frame} (h : ∀ f ∈ w, f.isControl = true) :
    Receives lost c (c.write w) :=
  of_control ⟨w, rfl, h⟩ rfl (·) rfl (·) rfl rfl

theorem goaway (c : Connection) (reason : Reason) (debug : String) :
    Receives lost c (c.goaway reason debug) :=
  of_control (.one rfl rfl) rfl (fun _ => rfl) rfl (·) rfl rfl

theorem setEntry {e e' : StreamEntry} (he : c.entry id = some e)
    (hb : e'.fieldBlock = e.fieldBlock) (hs : e.SameResponse e') :
    Receives lost c (c.setEntry id e') where
  toGuards := .setEntry c id e'
  blockState := rfl
  closing := (·)
  entry := entry_setEntry_from he ⟨hb, hs⟩ fun e => ⟨rfl, .refl e⟩
  spawned _ h := .inl h

theorem removeStream (h : lost id ∨ ∃ code, Frame.reset id code ∈ c.written) :
    Receives lost c (c.removeStream id) where
  blockState := rfl
  closing := (·)
  connWindow := rfl
  maxFrameSize := (·)
  written := Adds.none rfl
  entry := entry_removeStream_from fun e => ⟨rfl, .refl e⟩
  kept id' e he hnone := by
    by_cases hid : id' = id
    · exact hid ▸ h
    · rw [entry_removeStream_ne _ _ _ hid, he] at hnone
      cases hnone
  spawned _ h := .inl h

theorem markClosed (c : Connection) (id : ℕ) : Receives lost c (c.markClosed id) :=
  silent rfl rfl (·) rfl (·) rfl rfl

theorem retire (h : lost id ∨ ∃ code, Frame.reset id code ∈ c.written) :
    Receives lost c (c.retire id) :=
  (markClosed c id).trans (removeStream h)

theorem resetStream (c : Connection) (id code : ℕ) :
    Receives lost c ((c.write [.reset id code]).retire id) :=
  (write c (by simp [Frame.isControl])).trans
    (retire (.inr ⟨code, mem_append_right _ (mem_singleton_self _)⟩))

theorem dispatch (request : ParsedRequest) (h : (c.entry id).isSome = true) :
    Receives lost c { c with dispatched := c.dispatched ++ [(id, request)] } where
  toGuards := .of_control (.none rfl) rfl (·) rfl
  blockState := rfl
  closing := (·)
  entry _ e he := ⟨e, he, rfl, .refl e⟩
  spawned id' hid := by
    simp only [Connection.spawned, any_append, any_cons, any_nil, Bool.or_false,
      Bool.or_eq_true, decide_eq_true_eq] at hid
    rcases hid with hid | rfl
    · exact .inl hid
    · exact .inr h

theorem closed : BodyClosed lost (Receives lost) where
  refl := refl
  trans := trans
  setEntry he hsame := by
    refine setEntry he ?_ ⟨?_, ?_, ?_, ?_, ?_⟩ <;> rw [hsame]
  goaway := goaway
  reset := resetStream
  answer c _ _ := write c (by simp [Frame.isControl])
  removeStream _ _ hlost := removeStream (.inl hlost)
  markClosed := markClosed
  park _ _ := silent rfl rfl (·) rfl (·) rfl rfl
  count _ _ _ := silent rfl rfl (·) rfl (·) rfl rfl
  dispatch := dispatch

theorem restoreWindows (c : Connection) (id : ℕ) (data : Octets) :
    Receives lost c (c.restoreWindows id data) := by
  rw [Connection.restoreWindows]
  split_ifs
  · exact refl c
  · exact write c (by simp [Frame.isControl])

theorem handleDataFrame (endStream : Bool) (data : Octets)
    (hlost : (data = [] → endStream = true) → ∀ e, c.entry id = some e →
      e.requestStarted = true → e.hears = false → lost id) :
    Receives lost c (c.handleDataFrame id endStream data) := by
  by_cases hignored : (data.isEmpty && !endStream) = true
  · rw [Connection.handleDataFrame, if_pos hignored]
    exact refl c
  · refine (restoreWindows c id data).trans (closed.handleDataFrame hignored (hlost ?_))
    intro hdata
    simpa [hdata] using hignored

end Receives

/-! ### Peer settings -/

theorem entry_shiftWindows (c : Connection) (delta : ℤ) (id : ℕ) :
    (shiftWindows c.streams delta).lookup id =
      (c.entry id).map fun e => { e with sendWindow := e.sendWindow + delta } := by
  rw [entry]
  obtain ⟨l, hl⟩ := c.streams
  simp only [AList.lookup, shiftWindows]
  clear hl
  induction l with
  | nil => rfl
  | cons s l ih =>
    obtain ⟨id', e⟩ := s
    by_cases hid : id = id'
    · subst hid
      simp
    · rw [map_cons, dlookup_cons_ne _ _ hid, dlookup_cons_ne _ _ hid]
      exact ih

namespace Receives

variable {lost : ℕ → Prop}

theorem shiftWindows (c : Connection) (delta : ℤ) (size : ℕ) : Receives lost c { c with
      peer := { c.peer with initialWindowSize := size }
      streams := shiftWindows c.streams delta } where
  blockState := rfl
  closing := (·)
  connWindow := rfl
  maxFrameSize := (·)
  written := Adds.none rfl
  entry id e' he := by
    rw [Connection.entry, entry_shiftWindows, map_eq_some_iff] at he
    obtain ⟨e, he, rfl⟩ := he
    exact ⟨e, he, rfl, ⟨rfl, rfl, rfl, rfl, rfl⟩⟩
  kept id e he hnone := by
    rw [Connection.entry, entry_shiftWindows, he] at hnone
    cases hnone
  spawned _ h := .inl h

theorem applySetting (c : Connection) (s : Setting) : Receives lost c (c.applySetting s).1 := by
  have hshift : Receives lost c _ :=
    shiftWindows c ((s.value : ℤ) - c.peer.initialWindowSize) s.value
  rw [Connection.applySetting]
  split_ifs with h₁ h₂ h₄ h₅ hsize
  · exact silent rfl rfl (·) rfl (·) rfl rfl
  · exact silent rfl rfl (·) rfl (·) rfl rfl
  · simp only
    split_ifs
    · exact hshift.trans (goaway _ _ _)
    · exact hshift
  · exact goaway c _ _
  · refine silent rfl rfl (·) rfl (fun _ => ?_) rfl rfl
    exact lt_of_lt_of_le (by decide) (not_lt.1 (not_or.1 hsize).1)
  · exact silent rfl rfl (·) rfl (·) rfl rfl
  · exact refl c

theorem applyPeerSettings (settings : List Setting) : ∀ c : Connection,
    Receives lost c (c.applyPeerSettings settings) := by
  induction settings with
  | nil => exact refl
  | cons s settings ih =>
    intro c
    have hs : Receives lost c (c.applySetting s).1 := applySetting c s
    rw [Connection.applyPeerSettings]
    rcases h : c.applySetting s with ⟨c', goOn⟩
    rw [h] at hs
    cases goOn with
    | true => exact hs.trans (ih c')
    | false => exact hs

end Receives

/-! ### Window updates -/

inductive WindowUpdate (hint : List ℕ) (id increment : ℕ) (c : Connection) : Connection → Prop
  | empty (hzero : increment = 0) : WindowUpdate hint id increment c c
  | overflow : WindowUpdate hint id increment c
      (c.goaway .flowControlError "connection window overflow")
  | connection (hid : id = 0) (hover : ¬ c.connWindow > maxWindow - increment) :
      WindowUpdate hint id increment c ((c.growWindow increment).drainPendingData hint)
  | gone (hid : id ≠ 0) (hnone : c.entry id = none) (hclosed : id ∈ c.closedOrder) :
      WindowUpdate hint id increment c c
  | idle (hnone : c.entry id = none) (hclosed : id ∉ c.closedOrder) :
      WindowUpdate hint id increment c (c.goaway .protocolError "window update on idle stream")
  | error {e : StreamEntry} (hid : id ≠ 0) (he : c.entry id = some e) :
      WindowUpdate hint id increment c (c.streamError id .flowControlError)
  | stream {e : StreamEntry} (hid : id ≠ 0) (he : c.entry id = some e)
      (hover : ¬ e.sendWindow > maxWindow - increment) :
      WindowUpdate hint id increment c
        ((c.setEntry id (e.growWindow increment)).pumpStreamData id)

theorem windowUpdate_cases (c : Connection) (hint : List ℕ) (id increment : ℕ) :
    WindowUpdate hint id increment c (c.handleWindowUpdate hint id increment) := by
  rw [handleWindowUpdate]
  by_cases hzero : increment = 0
  · rw [if_pos hzero]
    exact .empty hzero
  by_cases hid : id = 0
  · split_ifs with hover
    · exact .overflow
    · exact .connection hid hover
  cases he : c.entry id with
  | none =>
    split_ifs with hclosed
    · exact .gone hid he hclosed
    · exact .idle he hclosed
  | some e =>
    simp only
    split_ifs with hover
    · exact .error hid he
    · exact .stream hid he hover

/-! ### Events -/

end Connection

/-- Frames that nothing is done about. -/
def Frame.inert : Frame → Bool
  | .settings ack _ | .ping ack _ => ack
  | .priority .. | .unknown .. => true
  | _ => false

theorem Frame.about_of_inert {f : Frame} (h : f.inert = true) : f.about = none := by
  cases f <;> first | rfl | cases h

namespace Connection

/-- What becomes of a frame that carries no piece of a field block. -/
inductive Handled (hint : List ℕ) (c : Connection) : Frame → Connection → Prop
  | ignored {f : Frame} (hf : f.inert = true) : Handled hint c f c
  | settings (settings : List Setting) : Handled hint c (.settings false settings)
      ((c.applyPeerSettings settings).write [.settings true []])
  | ping (payload : Octets) : Handled hint c (.ping false payload) (c.write [.ping true payload])
  | goAway {last code : ℕ} {debug : Octets} :
      Handled hint c (.goAway last code debug) { c with peerGoaway := true }
  | data (id : ℕ) (endStream : Bool) (octs : Octets) :
      Handled hint c (.data id endStream octs) (c.handleDataFrame id endStream octs)
  | reset (id : ℕ) {code : ℕ} : Handled hint c (.reset id code) (c.handleResetFrame id)
  | windowUpdate {id increment : ℕ} {c' : Connection} (h : WindowUpdate hint id increment c c') :
      Handled hint c (.windowUpdate id increment) c'
  | pushPromise {id promised : ℕ} {endHeaders : Bool} {block : Octets} :
      Handled hint c (.pushPromise id endHeaders promised block)
        (c.goaway .protocolError "push promise to server")

theorem handleFrame_handled (c : Connection) (hint : List ℕ) {f : Frame}
    (hf : f.isFragment = false) : Handled hint c f (c.handleFrame hint f) := by
  cases f with
  | headers | continuation => cases hf
  | settings ack settings => cases ack with
    | false => exact .settings settings
    | true => exact .ignored rfl
  | ping ack payload => cases ack with
    | false => exact .ping payload
    | true => exact .ignored rfl
  | priority | unknown => exact .ignored rfl
  | data id endStream octs => exact .data id endStream octs
  | reset id => exact .reset id
  | goAway => exact .goAway
  | pushPromise => exact .pushPromise
  | windowUpdate id increment => exact .windowUpdate (windowUpdate_cases c hint id increment)

/-- One round of `process_frames`. -/
inductive Processed (http : HttpCrate) (hint : List ℕ) (c : Connection) : Frame → Connection → Prop
  | rejected {f : Frame} (error : H2Error) :
      Processed http hint c f (c.goaway error.reason "frame error")
  | headers {id : ℕ} {endStream endHeaders : Bool} {priority : Option Priority} {block : Octets}
      (hblock : c.blockStream = none) :
      Processed http hint c (.headers id endStream endHeaders priority block)
        (finalizeComplete http
          ((c.setBlockStream (if endHeaders then none else some id)).handleHeadersFrame
          id endStream endHeaders block))
  | continuation {id : ℕ} {endHeaders : Bool} {block : Octets} (hblock : c.blockStream = some id) :
      Processed http hint c (.continuation id endHeaders block)
        (finalizeComplete http
          ((c.setBlockStream (if endHeaders then none else some id)).handleContinuation
          id endHeaders block))
  | pushPromise {id promised : ℕ} {endHeaders : Bool} {block : Octets} (blockStream : Option ℕ) :
      Processed http hint c (.pushPromise id endHeaders promised block) (finalizeComplete http
        ((c.setBlockStream blockStream).goaway .protocolError "push promise to server"))
  | goAway {last code : ℕ} {debug : Octets} :
      Processed http hint c (.goAway last code debug) { c with peerGoaway := true }
  | other {f : Frame} {c' : Connection} (hf : f.isFragment = false) (h : Handled hint c f c') :
      Processed http hint c f (finalizeComplete http c')

theorem processFrame_processed (http : HttpCrate) (c : Connection) (hint : List ℕ) (f : Frame) :
    Processed http hint c f (processFrame http c hint f) := by
  rw [processFrame]
  cases hblock : f.blockError c.blockStream with
  | some error => exact .rejected error
  | none =>
    cases f with
    | headers id endStream endHeaders priority block =>
      have hnone : c.blockStream = none := by
        cases hb : c.blockStream with
        | none => rfl
        | some _ => simp [Frame.blockError, hb] at hblock
      simp only [hnone]
      cases endHeaders <;> exact .headers hnone
    | continuation id endHeaders block =>
      have hsome : c.blockStream = some id := by
        cases hb : c.blockStream with
        | none => simp [Frame.blockError, hb] at hblock
        | some openStream =>
          simp only [Frame.blockError, hb, ne_eq] at hblock
          split_ifs at hblock with hid
          rw [hid]
      simp only [hsome]
      cases endHeaders <;> exact .continuation hsome
    | pushPromise => exact .pushPromise _
    | goAway => exact .goAway
    | _ => exact .other rfl (handleFrame_handled c hint rfl)

/-- One step of the connection. -/
inductive Stepped (http : HttpCrate) (c : Connection) : Event → Connection → Prop
  | same {ev : Event} (hev : ∀ id t, ev ≠ .task id t) (htaken : c.taken ev = []) :
      Stepped http c ev c
  | frame {hint : List ℕ} {f : Frame} {c' : Connection} (hreading : c.reading = true)
      (h : Processed http hint c f c') : Stepped http c (.frame hint f) c'
  | frameError {error : H2Error} :
      Stepped http c (.frameError error) (c.goaway error.reason "frame error")
  | resume : Stepped http c .resume c.resume
  | drain {id : ℕ} (hidle : c.idle = true) : Stepped http c (.drainStream id) (c.drainStream id)
  | shutdown (hgraceful : c.graceful = false) : Stepped http c .shutdown
      { c with
        graceful := true
        gracefulLastStream := c.highestStreamId
        written := c.written ++
          [.goAway c.highestStreamId Reason.noError.code (octets "graceful shutdown")] }
  | finish {w : List Frame} (hw : w = [] ∨ c.graceful = true ∧
        w = [.goAway c.gracefulLastStream Reason.noError.code (octets "graceful shutdown")]) :
      Stepped http c .finish { c with written := c.written ++ w, ended := true }
  | task {id : ℕ} {t : TaskEvent} : Stepped http c (.task id t) (c.onTask id t)

theorem step_stepped (http : HttpCrate) (c : Connection) (ev : Event) :
    Stepped http c ev (step http c ev) := by
  cases ev with
  | frame hint f =>
    rw [step]
    split_ifs with hreading
    · exact .frame hreading (processFrame_processed http c hint f)
    · exact .same (by simp) (if_neg hreading)
  | frameError error =>
    rw [step]
    split_ifs
    · exact .frameError
    · exact .same (by simp) rfl
  | resume => exact .resume
  | drainStream id =>
    rw [step]
    split_ifs with hidle
    · exact .drain hidle
    · exact .same (by simp) rfl
  | shutdown =>
    rw [step, beginGracefulShutdown]
    split_ifs with _ hready
    · exact .same (by simp) rfl
    · exact .shutdown (Bool.eq_false_iff.2 fun h => hready (by rw [h, Bool.true_or]))
    · exact .same (by simp) rfl
  | finish =>
    have hquiet : Stepped http c .finish { c with ended := true } := by
      simpa using @Stepped.finish http c [] (.inl rfl)
    rw [step, finishGracefulShutdown]
    split_ifs with _ hgraceful
    · exact hquiet
    · exact .finish (.inr ⟨hgraceful, rfl⟩)
    · exact hquiet
    · exact .same (by simp) rfl
  | task id t => exact .task

end Connection

end ZincioHttp.H2
