import ZincioHttp.H2.Connection.Context
import ZincioHttp.H2.Connection.Sound

/-! A field block in one HEADERS frame, or in HEADERS and CONTINUATION frames. Both
ways lead to the same state as long as the stream has an entry, which collects the
pieces. A stream that is refused, ignored or half-closed has none: there the first
CONTINUATION frame closes the connection. -/

namespace ZincioHttp.H2.Connection

open List StreamEntry

/-- The CONTINUATION frames of the pieces that follow the first one. -/
def continuations (id : ℕ) : List Octets → List Frame
  | [] => []
  | [block] => [.continuation id true block]
  | block :: rest => .continuation id false block :: continuations id rest

def fragments (id : ℕ) (endStream : Bool) (priority : Option Priority) (first : Octets)
    (rest : List Octets) : List Frame :=
  .headers id endStream rest.isEmpty priority first :: continuations id rest

def receive (http : HttpCrate) (c : Connection) (frames : List Frame) : Connection :=
  run http (frames.map (.frame [])) c

/-- What can be seen of the two ways to send a field block. -/
structure SameOutcome (c c' : Connection) : Prop where
  closing : c'.closing = c.closing
  streams : c'.streams.keys = c.streams.keys
  table : c'.requestDecoder.table = c.requestDecoder.table
  written : c'.written = c.written

/-- The stream has an entry that the peer has ended, and a stream error is not the last
straw. -/
def halfClosed (c : Connection) (id : ℕ) : Bool :=
  (c.entry id).any (·.remoteEnded) &&
    !c.opts.maxLocalErrorResetStreams.any fun max => decide (c.localErrorResets ≥ max)

def ignores (c : Connection) (id : ℕ) : Bool := c.graceful && decide (id > c.gracefulLastStream)

def refuses (c : Connection) (id : ℕ) : Bool :=
  (c.entry id).isNone && decide (id % 2 = 1) && decide (id > c.highestStreamId) &&
    decide (c.streams.keys.length ≥ c.opts.maxConcurrentStreams.toNat)

/-- The stream has no entry after HEADERS, though the connection goes on. -/
def losesBlock (c : Connection) (id : ℕ) : Bool :=
  c.reading && (c.ignores id || c.halfClosed id || c.refuses id)

/-! ### Collecting the pieces -/

/-- A stream with an open block of `count` frames so far. -/
def opened (c : Connection) (id : ℕ) (e : StreamEntry) (block : Octets) (count : ℕ) : Connection :=
  (c.setBlockStream (some id)).setEntry id { e.extendBlock block with continuationFrames := count }

/-- The block is complete. -/
def assembled (http : HttpCrate) (c : Connection) (id : ℕ) (e : StreamEntry) (block : Octets) :
    Connection :=
  finalizeComplete http
    (((c.setBlockStream none).completeBlock id).setEntry id (e.extendBlock block).endFrames)

section Pieces
variable {http : HttpCrate} {c : Connection} {id : ℕ} {e : StreamEntry}

theorem checkContinuationFlood_setEntry (c : Connection) (id : ℕ) {e : StreamEntry}
    (h : e.countFrame.continuationFrames ≤ c.opts.maxContinuationFrames) :
    (c.setEntry id e).checkContinuationFlood id = c.setEntry id e.countFrame := by
  rw [checkContinuationFlood, entry_setEntry]
  simp only
  rw [setEntry_setEntry]
  exact if_neg (not_lt.2 h)

end Pieces

/-! ### Between field blocks -/

/-- The open field block and the numbers of frames counted for one stay. -/
structure KeepsFrames (c c' : Connection) : Prop where
  blockStream : c'.blockStream = c.blockStream
  graceful : c'.graceful = c.graceful
  gracefulLastStream : c'.gracefulLastStream = c.gracefulLastStream
  closing : c.closing = true → c'.closing = true
  entry : ∀ id e', c'.entry id = some e' →
    ∃ e, c.entry id = some e ∧ e'.continuationFrames = e.continuationFrames

variable {hint : List ℕ}

namespace KeepsFrames

variable {c c' : Connection} {id : ℕ}

theorem trans {c'' : Connection} (h : KeepsFrames c c') (h' : KeepsFrames c' c'') :
    KeepsFrames c c'' where
  blockStream := h'.blockStream.trans h.blockStream
  graceful := h'.graceful.trans h.graceful
  gracefulLastStream := h'.gracefulLastStream.trans h.gracefulLastStream
  closing := h'.closing ∘ h.closing
  entry id e'' he'' := by
    obtain ⟨e', he', hcount'⟩ := h'.entry id e'' he''
    obtain ⟨e, he, hcount⟩ := h.entry id e' he'
    exact ⟨e, he, hcount'.trans hcount⟩

theorem following {c₁ : Connection} (h : KeepsFrames c₁ c') (h₁ : KeepsFrames c c₁) :
    KeepsFrames c c' :=
  h₁.trans h

theorem same (hblock : c'.blockStream = c.blockStream) (hgraceful : c'.graceful = c.graceful)
    (hlast : c'.gracefulLastStream = c.gracefulLastStream)
    (hclosing : c.closing = true → c'.closing = true) (hstreams : c'.streams = c.streams) :
    KeepsFrames c c' where
  blockStream := hblock
  graceful := hgraceful
  gracefulLastStream := hlast
  closing := hclosing
  entry id e' he' := by
    rw [Connection.entry, hstreams] at he'
    exact ⟨e', he', rfl⟩

theorem refl (c : Connection) : KeepsFrames c c := same rfl rfl rfl (·) rfl

theorem goaway (c : Connection) (reason : Reason) (debug : String) :
    KeepsFrames c (c.goaway reason debug) := same rfl rfl rfl (fun _ => rfl) rfl

theorem setEntry {e e' : StreamEntry} (he : c.entry id = some e)
    (hcount : e'.continuationFrames = e.continuationFrames) :
    KeepsFrames c (c.setEntry id e') where
  blockStream := rfl
  graceful := rfl
  gracefulLastStream := rfl
  closing := (·)
  entry := entry_setEntry_from
    he hcount fun _ => rfl

theorem removeStream (c : Connection) (id : ℕ) : KeepsFrames c (c.removeStream id) where
  blockStream := rfl
  graceful := rfl
  gracefulLastStream := rfl
  closing := (·)
  entry := entry_removeStream_from fun _ => rfl

theorem closed : BodyClosed (fun _ => True) KeepsFrames where
  refl := refl
  trans := trans
  setEntry he hsame := setEntry he (by rw [hsame])
  goaway := goaway
  reset c id _ := (removeStream _ id).following (same rfl rfl rfl (·) rfl)
  answer _ _ _ := same rfl rfl rfl (·) rfl
  removeStream c id _ := removeStream c id
  markClosed _ _ := same rfl rfl rfl (·) rfl
  park _ _ := same rfl rfl rfl (·) rfl
  count _ _ _ := same rfl rfl rfl (·) rfl
  dispatch _ _ := same rfl rfl rfl (·) rfl

theorem handleDataFrame (c : Connection) (id : ℕ) (endStream : Bool) (data : Octets) :
    KeepsFrames c (c.handleDataFrame id endStream data) := by
  by_cases hignored : (data.isEmpty && !endStream) = true
  · rw [Connection.handleDataFrame, if_pos hignored]
    exact refl c
  · refine (closed.handleDataFrame hignored fun _ _ _ _ => trivial).following ?_
    obtain ⟨w, hw, -⟩ := restoreWindows_eq_write c id data
    rw [hw]
    exact same rfl rfl rfl (·) rfl

theorem finalizeComplete (http : HttpCrate) (c : Connection) :
    KeepsFrames c (finalizeComplete http c) := by
  rw [Connection.finalizeComplete, takeCompleteBlock]
  obtain ⟨id, rest⟩ := c.takeComplete c.completeBlocks
  have htake : KeepsFrames c { c with completeBlocks := rest } := same rfl rfl rfl (·) rfl
  cases id with
  | none => exact htake
  | some id =>
    exact htake.trans (closed.finalizeFieldBlock http (fun _ _ => same rfl rfl rfl (·) rfl)
      (fun _ he => setEntry he rfl) fun _ _ _ _ => trivial)

theorem responds (h : Responds c c') : KeepsFrames c c' where
  blockStream := (congrArg Connection.blockStream h.same).trans rfl
  graceful := (congrArg Connection.graceful h.same).trans rfl
  gracefulLastStream := (congrArg Connection.gracefulLastStream h.same).trans rfl
  closing hc := ((congrArg Connection.closing h.same).trans rfl).trans hc
  entry id e' he' := by
    obtain ⟨e, he, hsame⟩ := h.entry id e' he'
    exact ⟨e, he, by rw [hsame]⟩

theorem applyPeerSettings (c : Connection) (settings : List Setting) :
    KeepsFrames c (c.applyPeerSettings settings) := by
  refine applyPeerSettings_induction (fun {c₁ s r} hs h => h.trans ?_)
    settings (refl c)
  have hshift : KeepsFrames c₁ (c₁.shiftTo s.value) :=
    { blockStream := rfl
      graceful := rfl
      gracefulLastStream := rfl
      closing := (·)
      entry := fun id e' he' => by
        have hentry : (c₁.shiftTo s.value).entry id = _ := entry_shiftWindows c₁ _ id
        rw [hentry, Option.map_eq_some_iff] at he'
        obtain ⟨e, he, rfl⟩ := he'
        exact ⟨e, he, rfl⟩ }
  cases hs with
  | shift => exact hshift
  | overflow => exact hshift.trans (goaway _ _ _)
  | invalid => exact goaway c₁ _ _
  | other _ _ heq =>
    exact same (by rw [heq]) (by rw [heq]) (by rw [heq]) (by rw [heq]; exact (·)) (by rw [heq])

theorem windowUpdate {increment : ℕ} (h : WindowUpdate hint id increment c c') :
    KeepsFrames c c' := by
  cases h with
  | empty | gone => exact refl c
  | overflow | idle => exact goaway c _ _
  | connection =>
    exact (responds (.drainPendingData (c.growWindow increment) hint)).following
      (same rfl rfl rfl (·) rfl)
  | error => exact closed.streamError c id _
  | @stream e _ he =>
    exact (responds (.pumpStreamData (c.setEntry id (e.growWindow increment)) id)).following
      (setEntry he rfl)

theorem handled {f : Frame} (h : Handled hint c f c') : KeepsFrames c c' := by
  cases h with
  | ignored => exact refl c
  | settings settings => exact (applyPeerSettings c settings).trans (same rfl rfl rfl (·) rfl)
  | ping | goAway => exact same rfl rfl rfl (·) rfl
  | data id endStream octs => exact handleDataFrame c id endStream octs
  | reset => exact closed.handleResetFrame trivial
  | windowUpdate h => exact windowUpdate h
  | pushPromise => exact goaway c _ _

end KeepsFrames

/-- Frames are counted for the open field block only, and the streams of a graceful
shutdown are those it has announced. -/
structure Orderly (c : Connection) : Prop where
  frames : ∀ id e, c.entry id = some e → c.blockStream ≠ some id → e.continuationFrames = 0
  grace : c.graceful = true → ∀ id e, c.entry id = some e → id ≤ c.gracefulLastStream

section Orderly
variable {c c' : Connection} {id : ℕ}

theorem Orderly.keeps (h : Orderly c) (hk : KeepsFrames c c') : Orderly c' where
  frames id e' he' hne := by
    obtain ⟨e, he, hcount⟩ := hk.entry id e' he'
    exact hcount.trans (h.frames id e he (hk.blockStream ▸ hne))
  grace hg id e' he' := by
    obtain ⟨e, he, -⟩ := hk.entry id e' he'
    rw [hk.gracefulLastStream]
    exact h.grace (hk.graceful ▸ hg) id e he

def ClosesOrOrderly (c : Connection) : Prop := c.closing = true ∨ Orderly c

theorem ClosesOrOrderly.keeps (h : ClosesOrOrderly c) (hk : KeepsFrames c c') :
    ClosesOrOrderly c' :=
  h.imp hk.closing fun h => h.keeps hk

/-- In order, whatever there is of one stream. -/
structure OrderlyBut (id : ℕ) (c : Connection) : Prop where
  frames : ∀ id' e', id' ≠ id → c.entry id' = some e' → e'.continuationFrames = 0
  grace : c.graceful = true → ∀ id' e', id' ≠ id → c.entry id' = some e' →
    id' ≤ c.gracefulLastStream

namespace OrderlyBut

theorem keeps (h : OrderlyBut id c) (hk : KeepsFrames c c') : OrderlyBut id c' where
  frames id' e' hne he' := by
    obtain ⟨e, he, hcount⟩ := hk.entry id' e' he'
    exact hcount.trans (h.frames id' e hne he)
  grace hg id' e' hne he' := by
    obtain ⟨e, he, -⟩ := hk.entry id' e' he'
    rw [hk.gracefulLastStream]
    exact h.grace (hk.graceful ▸ hg) id' e hne he

theorem lost (h : OrderlyBut id c) (hnone : c.entry id = none) : Orderly c := by
  have hne : ∀ {id' e}, c.entry id' = some e → id' ≠ id := by
    rintro id' e he rfl
    cases hnone.symm.trans he
  exact ⟨fun id' e he _ => h.frames id' e (hne he) he,
    fun hg id' e he => h.grace hg id' e (hne he) he⟩

/-- The stream is set while its block is open, or with none of its frames counted. -/
theorem setEntry {e : StreamEntry} (h : OrderlyBut id c)
    (hid : c.graceful = true → id ≤ c.gracefulLastStream)
    (he : c.blockStream ≠ some id → e.continuationFrames = 0) : Orderly (c.setEntry id e) where
  frames id' e' he' hne := by
    rcases entry_of_setEntry he' with ⟨rfl, rfl⟩ | ⟨heq, he'⟩
    · exact he hne
    · exact h.frames id' e' heq he'
  grace hg id' e' he' := by
    rcases entry_of_setEntry he' with ⟨rfl, -⟩ | ⟨heq, he'⟩
    · exact hid hg
    · exact h.grace hg id' e' heq he'

theorem streamError (h : OrderlyBut id c) (reason : Reason) :
    ClosesOrOrderly (c.streamError id reason) := by
  rcases streamError_entry c id reason with hclosing | hnone
  · exact .inl hclosing
  · exact .inr ((h.keeps (KeepsFrames.closed.streamError c id reason)).lost hnone)

/-- A fragment of the block of the stream, which is open afterwards or complete. -/
theorem fragment {fin : Prop} {endHeaders : Bool} (h : OrderlyBut id c)
    (hid : c.graceful = true → ∀ e, c.entry id = some e → id ≤ c.gracefulLastStream)
    (hblock : c.blockStream = if endHeaders then none else some id)
    (hf : Fragment id fin endHeaders c c') : ClosesOrOrderly c' := by
  cases hf with
  | ignored hgrace =>
    refine .inr (h.lost ?_)
    cases he : c.entry id with
    | none => rfl
    | some e => exact absurd (hid hgrace.1 e he) (not_le.2 hgrace.2)
  | invalid => exact .inl rfl
  | refuse hnone => exact .inr (lost ⟨h.frames, h.grace⟩ hnone)
  | opens endStream block hnone hlt hgrace =>
    cases endHeaders with
    | true =>
      exact .inr (setEntry ⟨h.frames, h.grace⟩ hgrace fun _ => rfl)
    | false => exact .inr (setEntry ⟨h.frames, h.grace⟩ hgrace fun hne => absurd hblock hne)
  | ended => exact h.streamError _
  | extend he hbook _ hframes =>
    cases endHeaders with
    | true =>
      exact .inr (setEntry ⟨h.frames, h.grace⟩ (fun hg => hid hg _ he) fun _ => hframes rfl)
    | false => exact .inr (h.setEntry (fun hg => hid hg _ he) fun hne => absurd hblock hne)
  | @flood e e' he hbook =>
    refine streamError ⟨fun id' e₁ hne he₁ => ?_, fun hg id' e₁ hne he₁ => ?_⟩ _
    · exact h.frames id' e₁ hne ((entry_setEntry_ne _ _ _ _ hne).symm.trans he₁)
    · exact h.grace hg id' e₁ hne ((entry_setEntry_ne _ _ _ _ hne).symm.trans he₁)

end OrderlyBut

/-- What is in order stays so but for one stream when the frame decoder moves on. -/
theorem Orderly.but (h : Orderly c) (id : ℕ)
    (hblock : c.blockStream = none ∨ c.blockStream = some id) (blockStream : Option ℕ) :
    OrderlyBut id (c.setBlockStream blockStream) where
  frames id' e' hne he' := by
    refine h.frames id' e' he' ?_
    rcases hblock with hb | hb
    · simp [hb]
    · simpa [hb] using hne.symm
  grace hg id' e' _ he' := h.grace hg id' e' he'

theorem Orderly.processed {http : HttpCrate} {f : Frame} (h : Orderly c)
    (hf : Processed http hint c f c') : ClosesOrOrderly c' := by
  have hfinal : ∀ {c' : Connection}, ClosesOrOrderly c' →
      ClosesOrOrderly (finalizeComplete http c') := fun h => h.keeps (.finalizeComplete http _)
  cases hf with
  | rejected => exact .inl rfl
  | @headers id endStream endHeaders _ block hnone =>
    have hbut := h.but id (.inl hnone) (if endHeaders then none else some id)
    exact hfinal (hbut.fragment (fun hg e he => h.grace hg id e he) rfl
      (.handleHeadersFrame _ id endStream endHeaders block))
  | @continuation id endHeaders block hsome =>
    have hbut := h.but id (.inr hsome) (if endHeaders then none else some id)
    exact hfinal (hbut.fragment (fun hg e he => h.grace hg id e he) rfl
      (.handleContinuation _ id endHeaders block))
  | pushPromise => exact hfinal (.inl rfl)
  | goAway => exact .keeps (.inr h) (.same rfl rfl rfl (·) rfl)
  | other _ hf => exact hfinal (.keeps (.inr h) (.handled hf))

theorem ClosesOrOrderly.step (http : HttpCrate) (ht : Tidy c) (h : ClosesOrOrderly c) (ev : Event)
    (hclosing : c.closing = true → (step http c ev).closing = true) :
    ClosesOrOrderly (step http c ev) := by
  rcases h with h | h
  · exact .inl (hclosing h)
  have hsame : ClosesOrOrderly c := .inr h
  have hstep := step_stepped http c ev
  generalize Connection.step http c ev = c' at hstep ⊢
  cases hstep with
  | same => exact hsame
  | frame _ hf => exact h.processed hf
  | frameError => exact .inl rfl
  | resume => exact hsame.keeps (KeepsFrames.closed.resume fun _ _ _ _ _ => trivial)
  | @drain id => exact hsame.keeps (.responds (.drainStream c id))
  | shutdown => exact .inr ⟨h.frames, fun _ id e he => ht.bounded id e he⟩
  | finish => exact .inr ⟨h.frames, h.grace⟩
  | @task id t =>
    refine onTask_induction t (fun _ => hsame.keeps (.same rfl rfl rfl (·) rfl))
      fun e _ he => hsame.keeps (.setEntry he ?_)
    rw [StreamEntry.onTask_same]

end Orderly

/-! ### Whole and in pieces -/

section Compare
variable {http : HttpCrate} {c : Connection} {id : ℕ}

theorem SameOutcome.refl (c : Connection) : SameOutcome c c := ⟨rfl, rfl, rfl, rfl⟩

theorem step_headers (hreading : c.reading = true) (hblock : c.blockStream = none)
    (endStream endHeaders : Bool) (priority : Option Priority) (block : Octets) :
    step http c (.frame [] (.headers id endStream endHeaders priority block)) =
      finalizeComplete http
        ((c.setBlockStream (if endHeaders then none else some id)).handleHeadersFrame
        id endStream endHeaders block) := by
  rw [step, if_pos hreading, processFrame, hblock]
  cases endHeaders <;> rfl

/-- What becomes of HEADERS, without END_HEADERS and with it, when no block is open. -/
inductive Beginning (http : HttpCrate) (c : Connection) (id : ℕ) (endStream : Bool)
    (priority : Option Priority) : Prop
  /-- The stream has an entry, which holds the block. -/
  | collects (base : Connection) (e : StreamEntry) (hkept : c.losesBlock id = false)
      (hreading : base.reading = true) (hcomplete : base.completeBlocks = [])
      (hopts : base.opts = c.opts)
      (hopened : ∀ piece, step http c (.frame [] (.headers id endStream false priority piece)) =
        base.opened id e piece 1)
      (hassembled : ∀ block, step http c (.frame [] (.headers id endStream true priority block)) =
        assembled http base id e block)
  /-- It has none, but the connection goes on. -/
  | loses (hlost : c.losesBlock id = true)
      (hopened : ∀ piece, (step http c (.frame []
        (.headers id endStream false priority piece))).reading = true ∧
        (step http c (.frame [] (.headers id endStream false priority piece))).blockStream =
          some id ∧
        (step http c (.frame [] (.headers id endStream false priority piece))).entry id = none)
      (hopen : ∀ block, (step http c (.frame []
        (.headers id endStream true priority block))).closing = false)
  | closes (hkept : c.losesBlock id = false)
      (hclosing : ∀ piece, (step http c (.frame []
        (.headers id endStream false priority piece))).closing = true)
      (hsame : ∀ piece block, SameOutcome
        (step http c (.frame [] (.headers id endStream true priority block)))
        (step http c (.frame [] (.headers id endStream false priority piece))))

/-! The three ways through `handle_headers_frame`. -/

theorem handleHeadersFrame_ignored (h : c.ignores id = true) (endStream endHeaders : Bool)
    (block : Octets) : c.handleHeadersFrame id endStream endHeaders block = c :=
  if_pos (by simpa [ignores] using h)

theorem handleHeadersFrame_new (h : c.ignores id = false) (he : c.entry id = none)
    (endStream endHeaders : Bool) (block : Octets) :
    c.handleHeadersFrame id endStream endHeaders block =
      c.openRequestStream id endStream endHeaders block := by
  have hgrace : ¬ (c.graceful = true ∧ id > c.gracefulLastStream) := by simpa [ignores] using h
  rw [handleHeadersFrame, if_neg hgrace, he]

theorem handleHeadersFrame_known (h : c.ignores id = false) {e : StreamEntry}
    (he : c.entry id = some e) (endStream endHeaders : Bool) (block : Octets) :
    c.handleHeadersFrame id endStream endHeaders block =
      if e.remoteEnded then c.streamError id .streamClosed
      else if endHeaders then (c.completeBlock id).setEntry id
        (StreamEntry.extendBlock { e with pendingEndStream := endStream } block).endFrames
      else (c.setEntry id
        (StreamEntry.extendBlock { e with pendingEndStream := endStream }
          block)).checkContinuationFlood id := by
  have hgrace : ¬ (c.graceful = true ∧ id > c.gracefulLastStream) := by simpa [ignores] using h
  rw [handleHeadersFrame, if_neg hgrace, he]

variable {endStream : Bool} {priority : Option Priority}

theorem finalizeComplete_quiet (ht : Tidy c) {c' : Connection}
    (h : c'.completeBlocks = c.completeBlocks) : finalizeComplete http c' = c' :=
  finalizeComplete_of_nil http (h.trans ht.complete)

/-- HEADERS closes the connection, with END_HEADERS and without. -/
theorem Beginning.of_goaway (reason : Reason) (debug : String) (hkept : c.losesBlock id = false)
    (h : ∀ endHeaders block,
      step http c (.frame [] (.headers id endStream endHeaders priority block)) =
      (c.setBlockStream (if endHeaders then none else some id)).goaway reason debug) :
    Beginning http c id endStream priority := by
  refine .closes hkept (fun piece => ?_) fun piece block => ?_
  · rw [h]
    rfl
  · rw [h, h]
    exact ⟨rfl, rfl, rfl, rfl⟩

/-- HEADERS leaves the stream without an entry, with END_HEADERS and without. -/
theorem Beginning.of_lost (after : Option ℕ → Connection) (hlost : c.losesBlock id = true)
    (h : ∀ endHeaders block,
      step http c (.frame [] (.headers id endStream endHeaders priority block)) =
      after (if endHeaders then none else some id))
    (hreading : ∀ blockStream, (after blockStream).reading = true)
    (hblock : (after (some id)).blockStream = some id) (hnone : (after (some id)).entry id = none) :
    Beginning http c id endStream priority := by
  refine .loses hlost (fun piece => ?_) fun block => ?_
  · rw [h]
    exact ⟨hreading _, hblock, hnone⟩
  · rw [h]
    exact closing_of_reading (hreading _)

section
variable (hreading : c.reading = true) (hblock : c.blockStream = none) (ht : Tidy c)
include hreading hblock ht

theorem Beginning.ignored (ho : Orderly c) (h : c.ignores id = true) :
    Beginning http c id endStream priority := by
  have hframe : ∀ endHeaders block,
      step http c (.frame [] (.headers id endStream endHeaders priority block)) =
        c.setBlockStream (if endHeaders then none else some id) := by
    intro endHeaders block
    have hignored : (c.setBlockStream (if endHeaders then none else some id)).ignores id = true := h
    rw [step_headers hreading hblock, handleHeadersFrame_ignored hignored]
    exact finalizeComplete_quiet ht rfl
  have hnone : c.entry id = none := by
    by_contra hsome
    obtain ⟨e, he⟩ := Option.ne_none_iff_exists'.1 hsome
    rw [ignores, Bool.and_eq_true, decide_eq_true_eq] at h
    have hle := ho.grace h.1 id e he
    omega
  exact .of_lost c.setBlockStream (by simp [losesBlock, hreading, h]) hframe (fun _ => hreading) rfl
    hnone

theorem Beginning.new (h : c.ignores id = false) (he : c.entry id = none) :
    Beginning http c id endStream priority := by
  have hhalf : c.halfClosed id = false := by simp [halfClosed, he]
  have hkept : c.refuses id = false → c.losesBlock id = false := fun hr => by
    simp [losesBlock, h, hhalf, hr]
  have hframe : ∀ endHeaders block,
      step http c (.frame [] (.headers id endStream endHeaders priority block)) =
        finalizeComplete http
          ((c.setBlockStream (if endHeaders then none else some id)).openRequestStream
          id endStream endHeaders block) := by
    intro endHeaders block
    have hread : (c.setBlockStream (if endHeaders then none else some id)).ignores id = false := h
    rw [step_headers hreading hblock, handleHeadersFrame_new hread he]
  -- HEADERS on a stream that cannot be opened is the same with END_HEADERS and without.
  have hcloses : ∀ {reason debug}, c.refuses id = false → (∀ endHeaders block,
      (c.setBlockStream (if endHeaders then none else some id)).openRequestStream id endStream
        endHeaders block = (c.setBlockStream (if endHeaders then none else some id)).goaway reason
          debug) → Beginning http c id endStream priority := by
    intro reason debug hnot hopen
    refine .of_goaway reason debug (hkept hnot) fun endHeaders block => ?_
    rw [hframe, hopen]
    exact finalizeComplete_quiet ht rfl
  by_cases hodd : id = 0 ∨ id % 2 = 0
  · refine hcloses ?_ fun endHeaders block => if_pos hodd
    have hnot : ¬ id % 2 = 1 := by omega
    simp [refuses, hnot]
  by_cases hstale : id ≤ c.highestStreamId
  · exact hcloses (by simp [refuses, not_lt.2 hstale])
      fun endHeaders block => (if_neg hodd).trans (if_pos hstale)
  by_cases hfull : c.streams.keys.length ≥ c.opts.maxConcurrentStreams.toNat
  · refine .of_lost (fun blockStream => ((c.setBlockStream blockStream).raiseHighest id).write
      [.reset id Reason.refusedStream.code]) ?_ (fun endHeaders block => ?_)
      (fun _ => hreading) rfl he
    · have hid : id % 2 = 1 := by omega
      simp [losesBlock, hreading, refuses, he, hid, not_le.1 hstale, hfull]
    · rw [hframe, openRequestStream, if_neg hodd]
      refine (congrArg (finalizeComplete http) ((if_neg hstale).trans (if_pos hfull))).trans ?_
      exact finalizeComplete_quiet ht rfl
  have hopens : ∀ endHeaders block, (c.setBlockStream (if endHeaders then none else some
      id)).openRequestStream id endStream endHeaders block = if endHeaders then
        (((c.setBlockStream none).raiseHighest id).completeBlock id).setEntry id
          (.opening c.peer.initialWindowSize endStream true block)
      else ((c.setBlockStream (some id)).raiseHighest id).setEntry id
        (.opening c.peer.initialWindowSize endStream false block) := by
    intro endHeaders block
    rw [openRequestStream, if_neg hodd]
    refine (if_neg hstale).trans ((if_neg hfull).trans ?_)
    cases endHeaders <;> rfl
  refine .collects (c.raiseHighest id) (.opening c.peer.initialWindowSize endStream true [])
    (hkept (by simp [refuses, hfull])) hreading ht.complete rfl (fun piece => ?_) fun block => ?_
  · rw [hframe, hopens]
    exact finalizeComplete_quiet ht rfl
  · rw [hframe, hopens]
    rfl

theorem Beginning.known (ho : Orderly c) (hmax : 1 ≤ c.opts.maxContinuationFrames)
    (h : c.ignores id = false) {e : StreamEntry} (he : c.entry id = some e) :
    Beginning http c id endStream priority := by
  have hrefuses : c.refuses id = false := by simp [refuses, he]
  have hframe : ∀ endHeaders block,
      step http c (.frame [] (.headers id endStream endHeaders priority block)) = _ :=
    fun endHeaders block => (step_headers hreading hblock endStream endHeaders priority block).trans
      (congrArg _ (handleHeadersFrame_known
        (c := c.setBlockStream (if endHeaders then none else some id)) h he
        endStream endHeaders block))
  by_cases hended : e.remoteEnded = true
  · by_cases hbudget : (c.opts.maxLocalErrorResetStreams.any fun max =>
        decide (c.localErrorResets ≥ max)) = true
    · refine .of_goaway .enhanceYourCalm "too many resets for peer protocol errors" ?_
        fun endHeaders block => ?_
      · simp [losesBlock, h, hrefuses, halfClosed, hbudget]
      · rw [hframe, if_pos hended]
        refine (congrArg (finalizeComplete http) (if_pos hbudget)).trans ?_
        exact finalizeComplete_quiet ht rfl
    · refine .of_lost (fun blockStream => (write { c.setBlockStream blockStream with
        localErrorResets := c.localErrorResets + 1 }
        [.reset id Reason.streamClosed.code]).retire id)
        ?_ (fun endHeaders block => ?_) (fun _ => hreading) rfl (entry_removeStream _ id)
      · simp [losesBlock, hreading, halfClosed, he, hended, Bool.eq_false_iff.2 hbudget]
      · rw [hframe, if_pos hended]
        refine (congrArg (finalizeComplete http) (if_neg hbudget)).trans ?_
        exact finalizeComplete_quiet ht rfl
  · refine .collects c { e with pendingEndStream := endStream } ?_ hreading ht.complete rfl
      (fun piece => ?_) fun block => ?_
    · simp [losesBlock, h, hrefuses, halfClosed, he, hended]
    · rw [hframe, if_neg hended]
      have hzero : e.continuationFrames = 0 := ho.frames id e he (by simp [hblock])
      have hcount := checkContinuationFlood_setEntry (c.setBlockStream (some id)) id
        (e := .extendBlock { e with pendingEndStream := endStream } piece)
        (by change e.continuationFrames + 1 ≤ _; rw [hzero]; exact hmax)
      refine (congrArg (finalizeComplete http) hcount).trans ?_
      refine Eq.trans (finalizeComplete_quiet ht ?_) ?_
      · rfl
      · simp [opened, StreamEntry.countFrame, StreamEntry.extendBlock, hzero]
    · rw [hframe, if_neg hended]
      rfl

end

end Compare

end ZincioHttp.H2.Connection
