import ZincioHttp.H2.Connection.FrameEffects

/-! The request side in small actions. Whatever DATA, HEADERS, CONTINUATION and
RST_STREAM frames of a stream bring about is a sequence of actions that are about
this stream alone. An action is labelled with the body messages it issues: those it
puts into the stream's body channel, or with which the connection task starts to
wait for room there. `fin` says that the peer has ended the request. -/

namespace ZincioHttp.H2

open Option StreamEntry List
open H2.Hpack (Header)

def BodyMsg.octets : BodyMsg → Octets
  | .data octs => octs
  | _ => []

namespace StreamEntry

def addData (e : StreamEntry) (octs : Octets) : StreamEntry :=
  { e with dataSum := e.dataSum + octs.length }

def endRemote (e : StreamEntry) : StreamEntry := { e with remoteEnded := true }

/-- The declared length is that of the data. -/
def lengthMet (e : StreamEntry) : Prop :=
  ∀ length, e.contentLength = some length → e.dataSum = length

/-- A stream whose request has not been handed over, as its field block finds it. -/
structure Unstarted (e : StreamEntry) : Prop where
  remoteEnded : e.remoteEnded = false
  dataSum : e.dataSum = 0
  contentLength : e.contentLength = none
  body : ∀ ch, e.body = some ch → ch = ⟨[], true⟩

/-- The stream once its field block has ended the request, or has not. -/
def closeBody (e : StreamEntry) (endStream : Bool) : StreamEntry :=
  if endStream then
    { e with
      remoteEnded := true
      body := e.body.map fun ch => { ch with queue := ch.queue ++ [.endStream] } }
  else e

/-- The end marker for a body that has a channel. -/
def endMarker (e : StreamEntry) (endStream : Bool) : List BodyMsg :=
  if endStream && e.body.isSome then [.endStream] else []

/-- Messages other than data. When the end marker is issued the body is complete. -/
def mayIssue (e : StreamEntry) (msg : BodyMsg) : Prop :=
  (∀ octs, msg ≠ .data octs) ∧ (msg = .endStream → e.remoteEnded = true ∧ e.lengthMet)

end StreamEntry

namespace Connection

/-- The errors for frames on streams that were never opened, or not in order. -/
def idleErrors : List Octets :=
  [octets "data on idle stream", octets "rst on idle stream",
    octets "window update on idle stream", octets "non-increasing stream id"]

/-- Only decoders, limits and the list of complete blocks differ. -/
def Notes (c c' : Connection) : Prop :=
  c' = { c with
    blockStream := c'.blockStream
    requestDecoder := c'.requestDecoder
    completeBlocks := c'.completeBlocks
    localErrorResets := c'.localErrorResets
    pendingAcceptResets := c'.pendingAcceptResets }

def spawn (c : Connection) (id : ℕ) (e : StreamEntry) (parsed : ParsedRequest) (endStream : Bool) :
    Connection :=
  let c := c.setEntry id ((e.closeBody endStream).start parsed)
  { c with dispatched := c.dispatched ++ [(id, parsed)] }

/-- What a HEADERS frame of a stream without an entry does before its field block is
looked at. -/
inductive Opening (id : ℕ) (fin : Prop) (c : Connection) : Connection → Prop
  | ignored (hgraceful : c.graceful = true) (hlast : id > c.gracefulLastStream) : Opening id fin c c
  | invalid (heven : id = 0 ∨ id % 2 = 0) :
      Opening id fin c (c.goaway .protocolError "headers on invalid stream")
  | stale (hle : id ≤ c.highestStreamId) :
      Opening id fin c (c.goaway .protocolError "non-increasing stream id")
  | refuse (hlt : c.highestStreamId < id)
      (hfull : c.opts.maxConcurrentStreams.toNat ≤ c.streams.keys.length) :
      Opening id fin c ((c.raiseHighest id).write [.reset id Reason.refusedStream.code])
  | opens (endStream endHeaders : Bool) (block : Octets) (hfin : endStream = true → fin)
      (hlt : c.highestStreamId < id) :
      Opening id fin c ((c.raiseHighest id).setEntry id
        (.opening c.peer.initialWindowSize endStream endHeaders block))

inductive Action (id : ℕ) (fin : Prop) (c : Connection) : List BodyMsg → Connection → Prop
  | note {c' : Connection} (h : Notes c c') : Action id fin c [] c'
  | credit (octs : Octets) : Action id fin c [] (c.restoreWindows id octs)
  /-- DATA on a stream that has been closed. -/
  | answer (hnone : c.entry id = none) (hclosed : id ∈ c.closedOrder) :
      Action id fin c [] (c.write [.reset id Reason.streamClosed.code])
  | goaway (reason : Reason) (debug : String) (hdebug : octets debug ∉ idleErrors) :
      Action id fin c [] (c.goaway reason debug)
  | idle (debug : String) (hopen : c.closing = false) (hnone : c.entry id = none)
      (hclosed : id ∉ c.closedOrder) :
      Action id fin c [] (c.goaway .protocolError debug)
  | bookkeep {e e' : StreamEntry} (he : c.entry id = some e) (h : e.Bookkeeps e')
      (hfin : e'.pendingEndStream = true → e.pendingEndStream = true ∨ fin) :
      Action id fin c [] (c.setEntry id e')
  | endRemote {e : StreamEntry} (hfin : fin) (he : c.entry id = some e)
      (hstarted : e.requestStarted = true) (hopen : e.remoteEnded = false) :
      Action id fin c [] (c.setEntry id e.endRemote)
  | spawn {e : StreamEntry} (parsed : ParsedRequest) (endStream : Bool)
      (hfin : endStream = true → fin) (he : c.entry id = some e) (hnew : e.requestStarted = false)
      (hlength : endStream = true → ∀ length, parsed.contentLength = some length → length = 0) :
      Action id fin c (e.endMarker endStream) (c.spawn id e parsed endStream)
  /-- The request is found to be malformed before it is handed over. -/
  | start {e : StreamEntry} (parsed : ParsedRequest) (endStream : Bool)
      (hfin : endStream = true → fin) (he : c.entry id = some e) (hnew : e.requestStarted = false) :
      Action id fin c (e.endMarker endStream)
        (c.setEntry id ((e.closeBody endStream).start parsed))
  /-- DATA for a body reader. -/
  | feed {e e' : StreamEntry} {octs : Octets} (hidle : c.parked = none) (he : c.entry id = some e)
      (hstarted : e.requestStarted = true) (hopen : e.remoteEnded = false)
      (hs : (e.addData octs).sendBody (.data octs) = some e') :
      Action id fin c [.data octs] (c.setEntry id e')
  | feedWait {e : StreamEntry} (octs : Octets) (endStream : Bool) (hfin : endStream = true → fin)
      (hidle : c.parked = none) (he : c.entry id = some e)
      (hstarted : e.requestStarted = true) (hopen : e.remoteEnded = false)
      (hfull : e.bodyReady = false) :
      Action id fin c [.data octs]
        ((c.setEntry id (e.addData octs)).park (some ⟨id, .data octs, endStream⟩))
  | deliver {e e' : StreamEntry} {msg : BodyMsg} (hidle : c.parked = none)
      (he : c.entry id = some e)
      (hstarted : e.requestStarted = true) (hs : e.sendBody msg = some e') (hmsg : e.mayIssue msg) :
      Action id fin c [msg] (c.setEntry id e')
  | wait {e : StreamEntry} (msg : BodyMsg) (endStream : Bool) (hfin : endStream = true → fin)
      (hidle : c.parked = none) (he : c.entry id = some e) (hstarted : e.requestStarted = true)
      (hfull : e.bodyReady = false) (hmsg : e.mayIssue msg) :
      Action id fin c [msg] (c.park (some ⟨id, msg, endStream⟩))
  /-- The message for which the connection task has waited. -/
  | redeliver {e e' : StreamEntry} {p : Parked} (hp : c.parked = some p) (hid : p.streamId = id)
      (he : c.entry id = some e) (hstarted : e.requestStarted = true)
      (hs : e.sendBody p.msg = some e') :
      Action id fin c [] ((c.park none).setEntry id e')
  | unpark {p : Parked} (hp : c.parked = some p) (hid : p.streamId = id)
      (hgone : ∀ e, c.entry id = some e → e.hears = false) : Action id fin c [] (c.park none)
  | reset {e : StreamEntry} (code : ℕ) (he : c.entry id = some e) :
      Action id fin c [] ((c.write [.reset id code]).retire id)
  /-- A body message without a reader. -/
  | forget {e : StreamEntry} (he : c.entry id = some e) (hears : e.hears = false) :
      Action id fin c [] (c.retire id)
  | forgetData {e : StreamEntry} (octs : Octets) (he : c.entry id = some e)
      (hears : e.hears = false) : Action id fin c [] ((c.setEntry id (e.addData octs)).retire id)
  /-- RST_STREAM of the peer. -/
  | cancel {e : StreamEntry} (he : c.entry id = some e) :
      Action id fin c [] ((c.removeStream id).markClosed id)
  | cancelGoaway {e : StreamEntry} (he : c.entry id = some e) :
      Action id fin c []
        ((c.removeStream id).goaway .enhanceYourCalm "too many resets before response")

inductive Acts (id : ℕ) (fin : Prop) (c : Connection) : List BodyMsg → Connection → Prop
  | refl : Acts id fin c [] c
  | tail {issued more : List BodyMsg} {c' c'' : Connection} (h : Acts id fin c issued c')
      (ha : Action id fin c' more c'') : Acts id fin c (issued ++ more) c''

namespace Acts

variable {id : ℕ} {fin : Prop} {c c' c'' : Connection} {issued more : List BodyMsg}

theorem single (h : Action id fin c issued c') : Acts id fin c issued c' := .tail .refl h

theorem trans (h : Acts id fin c issued c') (h' : Acts id fin c' more c'') :
    Acts id fin c (issued ++ more) c'' := by
  induction h' with
  | refl => rwa [append_nil]
  | tail _ ha ih =>
    rw [← append_assoc]
    exact .tail ih ha

/-- A preorder that contains every action contains every sequence of them. -/
theorem lift {R : Connection → Connection → Prop} (hrefl : ∀ c, R c c)
    (htrans : ∀ {c c' c''}, R c c' → R c' c'' → R c c'')
    (haction : ∀ {c issued c'}, Action id fin c issued c' → R c c') (h : Acts id fin c issued c') :
    R c c' := by
  induction h with
  | refl => exact hrefl c
  | tail _ ha ih => exact htrans ih (haction ha)

end Acts

/-! ### What an action leaves alone -/

/-- What an action may make of its stream's entry. -/
inductive Changes (fin : Prop) (e : StreamEntry) : StreamEntry → Prop
  | same : Changes fin e e
  | bookkeep {e' : StreamEntry} (h : e.Bookkeeps e')
      (hfin : e'.pendingEndStream = true → e.pendingEndStream = true ∨ fin) : Changes fin e e'
  | endRemote (hstarted : e.requestStarted = true) : Changes fin e e.endRemote
  | start (parsed : ParsedRequest) (endStream : Bool) (hnew : e.requestStarted = false) :
      Changes fin e ((e.closeBody endStream).start parsed)
  | addData (octs : Octets) (hstarted : e.requestStarted = true) : Changes fin e (e.addData octs)
  | send {msg : BodyMsg} {e' : StreamEntry} (hstarted : e.requestStarted = true)
      (h : e.sendBody msg = some e') : Changes fin e e'
  | feed {octs : Octets} {e' : StreamEntry} (hstarted : e.requestStarted = true)
      (h : (e.addData octs).sendBody (.data octs) = some e') : Changes fin e e'

variable {e e' : StreamEntry}

theorem Changes.unstarted {fin : Prop} (h : Changes fin e e') (hnew : e'.requestStarted = false)
    (hu : e.requestStarted = false → e.Unstarted) : e'.Unstarted := by
  cases h with
  | same => exact hu hnew
  | bookkeep h =>
    rw [h] at hnew ⊢
    exact ⟨(hu hnew).remoteEnded, (hu hnew).dataSum, (hu hnew).contentLength, (hu hnew).body⟩
  | endRemote hstarted | addData octs hstarted => cases hstarted.symm.trans hnew
  | start => cases hnew
  | send hstarted hs | feed hstarted hs =>
    obtain ⟨-, ch, -, rfl⟩ := sendBody_eq_some hs
    cases hstarted.symm.trans hnew

section Frame
variable {id : ℕ} {fin : Prop} {c c' : Connection} {issued : List BodyMsg}

/-- Giving credit back is only a matter of what is written. -/
theorem restoreWindows_eq_write (c : Connection) (id : ℕ) (octs : Octets) :
    ∃ w, c.restoreWindows id octs = c.write w ∧
      ∀ f ∈ w, ∃ id' increment, f = .windowUpdate id' increment := by
  rw [restoreWindows]
  split_ifs
  · exact ⟨[], by rw [write, append_nil], by simp⟩
  · exact ⟨_, rfl, by simp⟩

theorem Action.entry_ne (h : Action id fin c issued c') {id' : ℕ} (hid : id' ≠ id) :
    c'.entry id' = c.entry id' := by
  cases h with
  | note hnote =>
    rw [hnote]
    rfl
  | credit octs =>
    obtain ⟨w, hw, -⟩ := restoreWindows_eq_write c id octs
    rw [hw]
    rfl
  | answer | goaway | idle | wait | unpark => rfl
  | bookkeep | endRemote | spawn | start | feed | feedWait | deliver | redeliver =>
    exact entry_setEntry_ne _ _ _ _ hid
  | reset | forget | cancel | cancelGoaway => exact entry_removeStream_ne _ _ _ hid
  | forgetData =>
    exact (entry_removeStream_ne _ _ _ hid).trans (entry_setEntry_ne _ _ _ _ hid)

/-- Actions move no window for responses, open no stream and do not open the connection
again. -/
theorem Action.rest (h : Action id fin c issued c') : c'.connWindow = c.connWindow ∧
    c'.peer = c.peer ∧ (c.closing = true → c'.closing = true) ∧
      c'.highestStreamId = c.highestStreamId := by
  cases h with
  | note hnote =>
    rw [hnote]
    exact ⟨rfl, rfl, (·), rfl⟩
  | credit octs =>
    obtain ⟨w, hw, -⟩ := restoreWindows_eq_write c id octs
    rw [hw]
    exact ⟨rfl, rfl, (·), rfl⟩
  | goaway | idle | cancelGoaway => exact ⟨rfl, rfl, fun _ => rfl, rfl⟩
  | _ => exact ⟨rfl, rfl, (·), rfl⟩

theorem Action.entry_some (h : Action id fin c issued c') (he' : c'.entry id = some e') :
    ∃ e, c.entry id = some e ∧ Changes fin e e' := by
  cases h with
  | note hnote =>
    rw [hnote] at he'
    exact ⟨e', he', .same⟩
  | credit octs =>
    obtain ⟨w, hw, -⟩ := restoreWindows_eq_write c id octs
    rw [hw] at he'
    exact ⟨e', he', .same⟩
  | answer | goaway | idle | wait | unpark => exact ⟨e', he', .same⟩
  | bookkeep he hbook hfin => exact ⟨_, he, eq_of_entry_setEntry he' ▸ .bookkeep hbook hfin⟩
  | endRemote _ he hstarted => exact ⟨_, he, eq_of_entry_setEntry he' ▸ .endRemote hstarted⟩
  | spawn parsed endStream _ he hnew | start parsed endStream _ he hnew =>
    exact ⟨_, he, eq_of_entry_setEntry he' ▸ .start parsed endStream hnew⟩
  | feed _ he hstarted _ hs => exact ⟨_, he, eq_of_entry_setEntry he' ▸ .feed hstarted hs⟩
  | feedWait octs _ _ _ he hstarted =>
    exact ⟨_, he, eq_of_entry_setEntry he' ▸ .addData octs hstarted⟩
  | deliver _ he hstarted hs | redeliver _ _ he hstarted hs =>
    exact ⟨_, he, eq_of_entry_setEntry he' ▸ .send hstarted hs⟩
  | reset | forget | forgetData | cancel | cancelGoaway =>
    exact absurd rfl (entry_of_removeStream he').1

end Frame

/-! ### The handlers -/

section Handlers
variable {id : ℕ} {fin : Prop} {c : Connection}

/-- Some actions that issue the given octets lead to a state. -/
def Reaches (id : ℕ) (fin : Prop) (octs : Octets) (c c' : Connection) : Prop :=
  ∃ issued, Acts id fin c issued c' ∧ issued.flatMap BodyMsg.octets = octs

namespace Reaches

variable {octs more : Octets} {c' c'' : Connection} {msg : BodyMsg} {endStream : Bool}

theorem refl (c : Connection) : Reaches id fin [] c c := ⟨[], .refl, rfl⟩

theorem append (h : Reaches id fin octs c c') (h' : Reaches id fin more c' c'') :
    Reaches id fin (octs ++ more) c c'' := by
  obtain ⟨issued, h, rfl⟩ := h
  obtain ⟨later, h', rfl⟩ := h'
  exact ⟨issued ++ later, h.trans h', flatMap_append⟩

theorem after (h : Reaches id fin [] c c') (h' : Reaches id fin octs c' c'') :
    Reaches id fin octs c c'' := h.append h'

theorem trans (h : Reaches id fin octs c c') (h' : Reaches id fin [] c' c'') :
    Reaches id fin octs c c'' :=
  (append_nil octs) ▸ h.append h'

theorem of_action (h : Action id fin c [] c') : Reaches id fin [] c c' := ⟨[], .single h, rfl⟩

theorem note (h : Notes c c') : Reaches id fin [] c c' := of_action (.note h)

theorem of_issue (hmsg : e.mayIssue msg) (h : Action id fin c [msg] c') :
    Reaches id fin [] c c' := by
  refine ⟨[msg], .single h, ?_⟩
  cases msg with
  | data octs => exact absurd rfl (hmsg.1 octs)
  | _ => rfl

theorem streamError (he : c.entry id = some e) (reason : Reason) :
    Reaches id fin [] c (c.streamError id reason) := by
  rw [Connection.streamError]
  split_ifs
  · exact of_action (.goaway _ _ (by decide))
  · have hcount : Notes c { c with localErrorResets := c.localErrorResets + 1 } := rfl
    exact (note hcount).trans (of_action (.reset reason.code he))
  · exact of_action (.reset reason.code he)

/-! ### The request body -/

theorem deliver {e : StreamEntry} {msg : BodyMsg} (hp : c.parked = none) (he : c.entry id = some e)
    (hstarted : e.requestStarted = true) (hmsg : e.mayIssue msg) :
    Reaches id fin [] c (c.deliver id e msg) := by
  rw [Connection.deliver]
  cases hs : e.sendBody msg with
  | none => exact of_action (.forget he (sendBody_eq_none hs))
  | some e' => exact of_issue hmsg (.deliver hp he hstarted hs hmsg)

theorem endRequestBody (hfin : fin) (hp : c.parked = none)
    (hstarted : ∀ e, c.entry id = some e → e.requestStarted = true) :
    Reaches id fin [] c (c.endRequestBody id) := by
  rw [Connection.endRequestBody]
  cases he : c.entry id with
  | none => exact refl c
  | some e =>
    simp only
    split_ifs with hended hlength
    · exact refl c
    all_goals
      have hset : Reaches id fin [] c (c.setEntry id e.endRemote) :=
        of_action (.endRemote hfin he (hstarted e he) (Bool.eq_false_iff.2 hended))
      have he' : (c.setEntry id e.endRemote).entry id = some e.endRemote := entry_setEntry c id _
    · exact hset.trans (streamError he' .protocolError)
    · exact hset
    · have hmsg : e.endRemote.mayIssue .endStream := by
        refine ⟨(by simp), fun _ => ⟨rfl, fun length hl => ?_⟩⟩
        have hl' : e.contentLength = some length := hl
        rw [hl', any_some, decide_eq_true_iff, not_not] at hlength
        exact hlength
      refine hset.trans ?_
      change Reaches id fin [] _ ((c.setEntry id e.endRemote).sendEnd id)
      rw [sendEnd, he']
      simp only
      split_ifs with hready
      · exact deliver hp he' (hstarted e he) hmsg
      · exact of_issue hmsg (.wait .endStream false (by simp) hp he' (hstarted e he)
          (Bool.eq_false_iff.2 hready) hmsg)

theorem parked_deliver (c : Connection) (id : ℕ) (e : StreamEntry) (msg : BodyMsg) :
    (c.deliver id e msg).parked = c.parked := by
  rw [Connection.deliver]
  cases e.sendBody msg with
  | none => rfl
  | some e' => rfl

theorem requestStarted_deliver (he' : (c.deliver id e msg).entry id = some e') :
    e'.requestStarted = e.requestStarted := by
  rw [Connection.deliver] at he'
  cases hs : e.sendBody msg with
  | none =>
    rw [hs] at he'
    exact absurd rfl (entry_of_removeStream he').1
  | some e₁ =>
    obtain ⟨-, ch, -, rfl⟩ := sendBody_eq_some hs
    rw [hs] at he'
    rw [eq_of_entry_setEntry he']

section
variable (hfin : endStream = true → fin) (hp : c.parked = none)
include hfin hp

theorem afterBody (he : c.entry id = some e) (hstarted : e.requestStarted = true)
    (hmsg : e.mayIssue msg) : Reaches id fin [] c (c.afterBody id e msg endStream) := by
  have hdeliver : Reaches id fin [] c (c.deliver id e msg) := deliver hp he hstarted hmsg
  rw [Connection.afterBody]
  split_ifs with hend
  · exact hdeliver.trans (endRequestBody (hfin (Bool.and_eq_true_iff.1 hend).2)
      ((parked_deliver c id e msg).trans hp) fun e' he' =>
        (requestStarted_deliver he').trans hstarted)
  · exact hdeliver

theorem forward (hstarted : ∀ e, c.entry id = some e → e.requestStarted = true)
    (hmsg : ∀ e, c.entry id = some e → e.mayIssue msg) :
    Reaches id fin [] c (c.forward id msg endStream) := by
  rw [Connection.forward]
  cases he : c.entry id with
  | none => exact refl c
  | some e =>
    simp only
    split_ifs with hready
    · exact afterBody hfin hp he (hstarted e he) (hmsg e he)
    · exact of_issue (hmsg e he) (.wait msg endStream hfin hp he (hstarted e he)
        (Bool.eq_false_iff.2 hready) (hmsg e he))

/-- DATA for a stream that takes it: it is issued, or the stream has no reader. -/
theorem forwardData {octs : Octets} (he : c.entry id = some e) (hstarted : e.requestStarted = true)
    (hopen : e.remoteEnded = false) :
    Reaches id fin octs c ((c.setEntry id (e.addData octs)).forward id (.data octs) endStream) ∨
      Reaches id fin [] c ((c.setEntry id (e.addData octs)).forward id (.data octs) endStream) ∧
        ((c.setEntry id (e.addData octs)).forward id (.data octs) endStream).entry id = none := by
  have hlabel : [BodyMsg.data octs].flatMap BodyMsg.octets = octs := by simp [BodyMsg.octets]
  rw [Connection.forward, entry_setEntry]
  simp only
  split_ifs with hready
  · rw [Connection.afterBody, Connection.deliver]
    cases hs : (e.addData octs).sendBody (.data octs) with
    | none =>
      have hears : (e.addData octs).hears = false := sendBody_eq_none hs
      exact .inr ⟨of_action (.forgetData octs he hears), entry_removeStream _ id⟩
    | some e' =>
      -- the entry is set once with the data counted and once with it sent
      have hfeed : Reaches id fin octs c ((c.setEntry id (e.addData octs)).setEntry id e') := by
        rw [setEntry_setEntry]
        exact ⟨_, .single (.feed hp he hstarted hopen hs), hlabel⟩
      split_ifs with hend
      · refine .inl (hfeed.trans (endRequestBody (hfin hend) hp fun e₁ he₁ => ?_))
        obtain ⟨-, ch, -, rfl⟩ := sendBody_eq_some hs
        exact eq_of_entry_setEntry he₁ ▸ hstarted
      · exact .inl hfeed
  · refine .inl ⟨_, .single (.feedWait octs endStream hfin hp he hstarted hopen ?_), hlabel⟩
    exact Bool.eq_false_iff.2 hready

end

/-- A DATA frame: its octets are issued, or the connection is closing, or the stream,
which was once there, is not there any more. -/
theorem handleDataFrame (hc : c.closing = false) (hp : c.parked = none) (id : ℕ) (octs : Octets)
    (hfin : endStream = true → fin) :
    Reaches id fin octs c (c.handleDataFrame id endStream octs) ∨
      Reaches id fin [] c (c.handleDataFrame id endStream octs) ∧
        ((c.handleDataFrame id endStream octs).closing = true ∨
          (c.handleDataFrame id endStream octs).entry id = none ∧
            ((c.entry id).isSome = true ∨ id ∈ c.closedOrder)) := by
  rw [Connection.handleDataFrame]
  split_ifs with hignored
  · have hnil : octs = [] := isEmpty_iff.1 (Bool.and_eq_true_iff.1 hignored).1
    exact .inl (hnil ▸ refl c)
  · have hcredit : Reaches id fin [] c (c.restoreWindows id octs) := of_action (.credit octs)
    obtain ⟨w, hw, -⟩ := restoreWindows_eq_write c id octs
    rw [hw] at hcredit ⊢
    simp only
    cases he : (c.write w).entry id with
    | none =>
      refine .inr ?_
      split_ifs with hclosed
      · exact ⟨hcredit.trans (of_action (.answer he hclosed)), .inr ⟨he, .inr hclosed⟩⟩
      · exact ⟨hcredit.trans (of_action (.idle _ hc he hclosed)), .inl rfl⟩
    | some e =>
      have hsome : (c.entry id).isSome = true := isSome_of_eq_some he
      simp only
      split_ifs with hbad
      · refine .inr ⟨hcredit.trans (streamError he .streamClosed), ?_⟩
        exact (streamError_entry _ id _).imp_right fun hnone => ⟨hnone, .inl hsome⟩
      · obtain ⟨hstarted, hopen⟩ : e.requestStarted = true ∧ e.remoteEnded = false := by
          simpa using hbad
        rcases forwardData (c := c.write w) hfin hp he hstarted hopen with h | ⟨h, hnone⟩
        · exact .inl (hcredit.after h)
        · exact .inr ⟨hcredit.trans h, .inr ⟨hnone, .inl hsome⟩⟩

/-- The connection task goes on with what it has waited for. -/
theorem resume {p : Parked} (hp : c.parked = some p) (hid : p.streamId = id)
    (hfin : p.endStream = true → fin)
    (hstarted : ∀ e, c.entry id = some e → e.requestStarted = true) :
    Reaches id fin [] c c.resume := by
  subst hid
  rw [Connection.resume, hp]
  simp only
  cases he : c.entry p.streamId with
  | none =>
    refine of_action (.unpark hp rfl fun e he' => ?_)
    cases he.symm.trans he'
  | some e =>
    simp only
    have hdeliver : Reaches p.streamId fin [] c ((c.park none).deliver p.streamId e p.msg) := by
      rw [Connection.deliver]
      cases hs : e.sendBody p.msg with
      | none =>
        have hears : e.hears = false := sendBody_eq_none hs
        refine trans (of_action (.unpark hp rfl fun e' he' => ?_)) (of_action (.forget he hears))
        obtain rfl := some.inj (he.symm.trans he')
        exact hears
      | some e' => exact of_action (.redeliver hp rfl he (hstarted e he) hs)
    split_ifs
    · exact hdeliver
    · rw [Connection.afterBody]
      split_ifs with hend
      · exact hdeliver.trans (endRequestBody (hfin (Bool.and_eq_true_iff.1 hend).2)
          (parked_deliver _ _ _ _) fun e' he' => (requestStarted_deliver he').trans (hstarted e he))
      · exact hdeliver
    · exact refl c

/-! ### Field blocks -/

theorem bookkeep {e e' : StreamEntry} (he : c.entry id = some e) (h : e.Bookkeeps e')
    (hfin : e'.pendingEndStream = true → e.pendingEndStream = true ∨ fin) :
    Reaches id fin [] c (c.setEntry id e') :=
  of_action (.bookkeep he h hfin)

/-- A fragment of a block on a stream that has an entry. -/
theorem fragment {fin' : Prop} {endHeaders : Bool} (hfin : fin' → fin) (he : c.entry id = some e)
    (h : Fragment id fin' endHeaders c c') : Reaches id fin [] c c' := by
  have hset : ∀ {e e' : StreamEntry} {c : Connection}, c.entry id = some e → e.Bookkeeps e' →
      (e'.pendingEndStream = true → e.pendingEndStream = true ∨ fin') →
      Reaches id fin [] c (c.setEntry id e') :=
    fun he hbook hend => bookkeep he hbook fun h => (hend h).imp_right hfin
  cases h with
  | ignored => exact refl c
  | invalid _ _ hnone | refuse hnone | opens _ _ hnone => cases he.symm.trans hnone
  | ended => exact streamError he .streamClosed
  | extend he hbook hend =>
    cases endHeaders with
    | true =>
      have hcomplete : Notes c (c.completeBlock id) := rfl
      exact (note hcomplete).trans (hset he hbook hend)
    | false => exact hset he hbook hend
  | @flood e e' he hbook hend =>
    have hclear : Notes (c.setEntry id e') ((c.setEntry id e').clearBlock id) := rfl
    have he' : ((c.setEntry id e').clearBlock id).entry id = some e' := entry_setEntry c id e'
    exact ((hset he hbook hend).trans (note hclear)).trans (streamError he' .protocolError)

theorem handleContinuation (c : Connection) (id : ℕ) (endHeaders : Bool) (block : Octets) :
    Reaches id fin [] c (c.handleContinuation id endHeaders block) := by
  cases he : c.entry id with
  | none =>
    rw [Connection.handleContinuation, he]
    exact of_action (.goaway _ _ (by decide))
  | some e => exact fragment False.elim he (.handleContinuation c id endHeaders block)

theorem finalizeTrailers (http : HttpCrate) (headers : List Header)
    (hfin : e.pendingEndStream = true → fin) (hp : c.parked = none) (he : c.entry id = some e)
    (hstarted : e.requestStarted = true) :
    Reaches id fin [] c (finalizeTrailers http c id e headers) := by
  rw [Connection.finalizeTrailers]
  cases parseTrailers http headers with
  | none => exact streamError he .protocolError
  | some trailers =>
    have hset : Reaches id fin [] c (c.setEntry id { e with trailersSeen := true }) :=
      bookkeep he rfl .inl
    split_ifs with hseen hend
    · exact streamError he .protocolError
    · exact hset.trans (streamError (entry_setEntry c id _) .protocolError)
    · refine hset.trans (forward (fun _ => hfin (by simpa using hend)) hp (fun e' he' => ?_)
        fun e' _ => ?_)
      · exact eq_of_entry_setEntry he' ▸ hstarted
      · exact ⟨(by simp), (by simp)⟩

/-- Ending the body of a request that has not been handed over. -/
theorem endRequestBody_unstarted (he : c.entry id = some e) (hu : e.Unstarted) :
    c.endRequestBody id = c.setEntry id (e.closeBody true) := by
  rw [Connection.endRequestBody, he]
  simp only [hu.remoteEnded, hu.contentLength, any_none, Bool.false_eq_true, if_false,
    closeBody, if_true]
  cases hbody : e.body with
  | none => rw [isNone_none, if_pos rfl, map_none]
  | some ch =>
    obtain rfl := hu.body ch hbody
    rw [sendEnd, entry_setEntry]
    exact setEntry_setEntry c id _ _

/-- Handing over a request whose body has been ended, or not. -/
theorem spawnRequest (parsed : ParsedRequest) (hfin : endStream = true → fin)
    (he : c.entry id = some e) (hnew : e.requestStarted = false) (hu : e.Unstarted)
    {c₁ : Connection} (he₁ : c₁.entry id = some (e.closeBody endStream))
    (hset₁ : ∀ e', c₁.setEntry id e' = c.setEntry id e') :
    Reaches id fin [] c (c₁.spawnRequest id endStream parsed) := by
  have hlabel : (e.endMarker endStream).flatMap BodyMsg.octets = [] := by
    rw [endMarker]
    split_ifs <;> rfl
  have hended : ((e.closeBody endStream).start parsed).remoteEnded = endStream := by
    cases endStream with
    | true => rfl
    | false => exact hu.remoteEnded
  have hset : ∀ e' : StreamEntry, e'.remoteEnded = endStream →
      { e' with remoteEnded := endStream } = e' := by
    rintro e' rfl
    rfl
  rw [Connection.spawnRequest, he₁]
  simp only [setEntry_setEntry, hset _ hended, hset₁]
  split_ifs with hlength
  · have hstart : Reaches id fin [] c (c.setEntry id ((e.closeBody endStream).start parsed)) :=
      ⟨_, .single (.start parsed endStream hfin he hnew), hlabel⟩
    exact hstart.trans (streamError (entry_setEntry c id _) .protocolError)
  · refine ⟨_, .single (.spawn parsed endStream hfin he hnew fun hend length hl => ?_), hlabel⟩
    simpa [hend, hl] using hlength

theorem finalizeRequest (http : HttpCrate) (headers : List Header) (hfin : endStream = true → fin)
    (he : c.entry id = some e) (hnew : e.requestStarted = false) (hu : e.Unstarted) :
    Reaches id fin [] c (finalizeRequest http c id endStream headers) := by
  rw [Connection.finalizeRequest]
  cases parseRequest http headers with
  | none => exact streamError he .protocolError
  | some parsed =>
    cases endStream with
    | false => exact spawnRequest parsed hfin he hnew hu he fun _ => rfl
    | true =>
      simp only [endRequestBody_unstarted he hu]
      exact spawnRequest parsed hfin he hnew hu (entry_setEntry c id _) (setEntry_setEntry c id _)

theorem finalizeDecoded (http : HttpCrate)
    (decoded : Except Hpack.HpackError (List Header))
    (hfin : e.pendingEndStream = true → fin) (hp : c.parked = none) (he : c.entry id = some e)
    (hu : e.requestStarted = false → e.Unstarted) :
    Reaches id fin [] c (finalizeDecoded http c id e decoded) := by
  cases decoded with
  | error error =>
    cases error with
    | headerListTooLarge => exact streamError he .protocolError
    | _ => exact of_action (.goaway _ _ (by decide))
  | ok headers =>
    rw [Connection.finalizeDecoded]
    split_ifs with hstarted
    · exact finalizeTrailers http headers hfin hp he hstarted
    · have hnew := Bool.eq_false_iff.2 hstarted
      exact finalizeRequest http headers hfin he hnew (hu hnew)

theorem finalizeFieldBlock (http : HttpCrate) (hp : c.parked = none)
    (hfin : ∀ e, c.entry id = some e → e.pendingEndStream = true → fin)
    (hu : ∀ e, c.entry id = some e → e.requestStarted = false → e.Unstarted) :
    Reaches id fin [] c (finalizeFieldBlock http c id) := by
  rw [Connection.finalizeFieldBlock]
  cases he : c.entry id with
  | none => exact refl c
  | some e =>
    simp only
    rcases c.requestDecoder.decode e.fieldBlock e.headerListSize with ⟨d, n, decoded⟩
    have hdecoder : Notes c (c.setDecoder d) := rfl
    have hset : Reaches id fin [] (c.setDecoder d) ((c.setDecoder d).setEntry id (e.takeBlock n)) :=
      bookkeep he rfl .inl
    exact ((note hdecoder).trans hset).trans
      (finalizeDecoded http decoded (hfin e he) hp (entry_setEntry _ id _) fun hnew =>
        ⟨(hu e he hnew).remoteEnded, (hu e he hnew).dataSum, (hu e he hnew).contentLength,
          (hu e he hnew).body⟩)

theorem handleResetFrame (hc : c.closing = false) (id : ℕ) :
    Reaches id fin [] c (c.handleResetFrame id) := by
  rw [Connection.handleResetFrame]
  cases he : c.entry id with
  | none =>
    split_ifs with hclosed
    · exact refl c
    · exact of_action (.idle _ hc he hclosed)
  | some e =>
    simp only
    split_ifs
    · exact of_action (.cancel he)
    · exact of_action (.cancelGoaway he)
    · have hcount : Notes c { c with pendingAcceptResets := c.pendingAcceptResets + 1 } := rfl
      exact (note hcount).trans (of_action (.cancel he))

/-- No action changes a request that has not been handed over, unless by handing it
over. -/
theorem unstarted (h : Reaches id fin octs c c')
    (hu : ∀ e, c.entry id = some e → e.requestStarted = false → e.Unstarted)
    (he' : c'.entry id = some e') (hnew : e'.requestStarted = false) : e'.Unstarted := by
  obtain ⟨issued, hacts, -⟩ := h
  induction hacts generalizing e' with
  | refl => exact hu e' he' hnew
  | tail _ ha ih =>
    obtain ⟨e, he, hchange⟩ := ha.entry_some he'
    exact hchange.unstarted hnew (ih he)

/-- A field block ends its stream only if the frame that opened it said so. -/
theorem pendingEndStream (h : Reaches id fin octs c c') (he' : c'.entry id = some e')
    (hend : e'.pendingEndStream = true) :
    (∃ e, c.entry id = some e ∧ e.pendingEndStream = true) ∨ fin := by
  obtain ⟨issued, hacts, -⟩ := h
  induction hacts generalizing e' with
  | refl => exact .inl ⟨e', he', hend⟩
  | tail _ ha ih =>
    obtain ⟨e, he, hchange⟩ := ha.entry_some he'
    suffices e.pendingEndStream = true ∨ fin from this.elim (ih he) .inr
    cases hchange with
    | same => exact .inl hend
    | bookkeep _ hfin => exact hfin hend
    | endRemote | addData => exact .inl hend
    | start parsed endStream =>
      cases endStream with
      | true | false => exact .inl hend
    | send _ hs | feed _ hs =>
      obtain ⟨-, ch, -, rfl⟩ := sendBody_eq_some hs
      exact .inl hend

end Reaches

end Handlers

end Connection

end ZincioHttp.H2
