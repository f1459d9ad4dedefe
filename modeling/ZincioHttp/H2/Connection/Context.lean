import ZincioHttp.H2.Connection.FrameEffects
import ZincioHttp.H2.Hpack.Limit

/-! The header-compression context of a connection. The peer's encoder takes every
block it has sent for decoded, whatever becomes of the stream. Here the blocks a
peer has completed are put together from the frames alone, and the request
decoder is compared with a decoder without a limit that has read all of them. -/

namespace ZincioHttp.H2.Connection

open Function List
open H2.Hpack (Decoder)

/-! ### Completed blocks -/

structure Assembly where
  opened : Option Octets
  done : List Octets

def Assembly.receive (a : Assembly) : Frame → Assembly
  | .headers _ _ true _ block => ⟨none, a.done ++ [block]⟩
  | .headers _ _ false _ block => ⟨some block, a.done⟩
  | .continuation _ true block =>
    match a.opened with
    | some start => ⟨none, a.done ++ [start ++ block]⟩
    | none => a
  | .continuation _ false block => ⟨a.opened.map (· ++ block), a.done⟩
  | _ => a

/-- The field blocks whose END_HEADERS fragment is among the frames, in order. -/
def completed (frames : List Frame) : List Octets :=
  (frames.foldl Assembly.receive ⟨none, []⟩).done

def decodeAll (blocks : List Octets) : Decoder :=
  blocks.foldl (fun d block => (d.decode block 0).1) (Decoder.new 4096)

/-! ### Blocks that are not decoded -/

/-- A complete field block that the handler of HEADERS passes over: the stream is
beyond the last one of a graceful shutdown, half-closed by the peer, or refused. -/
def skips (c : Connection) (id : ℕ) : Bool :=
  (c.graceful && decide (id > c.gracefulLastStream)) ||
    match c.entry id with
    | some e => e.remoteEnded
    | none => decide (id % 2 = 1) && decide (id > c.highestStreamId) &&
        decide (c.streams.keys.length ≥ c.opts.maxConcurrentStreams.toNat)

/-- What the next block of a stream is added to: its open block and list size. -/
def pendingList (c : Connection) (id : ℕ) : Octets × ℕ :=
  match c.entry id with
  | some e => (e.fieldBlock, e.headerListSize)
  | none => ([], 0)

/-- The stream's header list with the block, decoded without a limit, is within
the limit. -/
def listFits (c : Connection) (id : ℕ) (block : Octets) : Bool :=
  let (start, listSize) := c.pendingList id
  let unlimited := c.requestDecoder.setMaxHeaderListSize usizeMax
  decide ((unlimited.decode (start ++ block) listSize).2.1 ≤ c.opts.maxHeaderListSize.toNat)

/-- A block that the event completes is one the connection decodes to its end. -/
def Decodes (c : Connection) : Event → Prop
  | .frame _ (.headers id _ true _ block) => c.skips id = false ∧ c.listFits id block = true
  | .frame _ (.continuation id true block) => c.listFits id block = true
  | _ => True

/-! ### Steps that leave field blocks alone -/

structure KeepsBlocks (c c' : Connection) : Prop where
  blockState : c'.blockState = c.blockState
  closing : c.closing = true → c'.closing = true
  entry : ∀ id e', c'.entry id = some e' → ∃ e, c.entry id = some e ∧ e'.fieldBlock = e.fieldBlock

variable {c c' : Connection} {e : StreamEntry} {done : List Octets}

theorem Responds.keepsBlocks (h : Responds c c') : KeepsBlocks c c' where
  blockState := (congrArg blockState h.same).trans rfl
  closing hc := (congrArg closing h.same).trans hc
  entry id e' he' := by
    obtain ⟨e, he, hsame⟩ := h.entry id e' he'
    exact ⟨e, he, (congrArg StreamEntry.fieldBlock hsame).trans rfl⟩

theorem KeepsBlocks.trans {c'' : Connection} (h : KeepsBlocks c c') (h' : KeepsBlocks c' c'') :
    KeepsBlocks c c'' where
  blockState := h'.blockState.trans h.blockState
  closing := h'.closing ∘ h.closing
  entry id e'' he'' := by
    obtain ⟨e', he', hb'⟩ := h'.entry id e'' he''
    obtain ⟨e, he, hb⟩ := h.entry id e' he'
    exact ⟨e, he, hb'.trans hb⟩

theorem KeepsBlocks.of_streams (hstate : c'.blockState = c.blockState)
    (hclosing : c'.closing = c.closing) (hstreams : c'.streams = c.streams) : KeepsBlocks c c' where
  blockState := hstate
  closing h := hclosing.trans h
  entry id e he := by
    rw [Connection.entry, hstreams] at he
    exact ⟨e, he, rfl⟩

theorem KeepsBlocks.of_receives (h : Receives (fun _ => True) c c') : KeepsBlocks c c' where
  blockState := h.blockState
  closing := h.closing
  entry id e' he' := by
    obtain ⟨e, he, hb, -⟩ := h.entry id e' he'
    exact ⟨e, he, hb⟩

theorem KeepsBlocks.setEntry {c : Connection} {id : ℕ} {e e' : StreamEntry}
    (he : c.entry id = some e) (hb : e'.fieldBlock = e.fieldBlock) :
    KeepsBlocks c (c.setEntry id e') where
  blockState := rfl
  closing := (·)
  entry := entry_setEntry_from he hb fun _ => rfl

/-! ### The invariant -/

/-- Everything in `done` is decoded, the blocks of the streams in `ready` are
complete, and each stream holds its own block. -/
structure Holds (done : List Octets) (ready : List ℕ) (blocks : ℕ → Octets) (c : Connection) :
    Prop where
  decoder : c.requestDecoder = (decodeAll done).setMaxHeaderListSize c.opts.maxHeaderListSize.toNat
  complete : c.completeBlocks = ready
  fieldBlock : ∀ id e, c.entry id = some e → e.fieldBlock = blocks id
  highest : ∀ id e, c.entry id = some e → id ≤ c.highestStreamId
  graceful : c.graceful = true → ∀ id e, c.entry id = some e → id ≤ c.gracefulLastStream

/-- The only block that may be open is that of one stream. -/
def single (id : ℕ) (block : Octets) : ℕ → Octets := Function.update (fun _ => []) id block

theorem single_apply (id : ℕ) (block : Octets) (id' : ℕ) :
    single id block id' = if some id = some id' then block else [] := by
  rw [single, update_apply]
  exact if_congr (by rw [Option.some.injEq, eq_comm]) rfl rfl

namespace Holds

variable {done : List Octets} {ready : List ℕ} {blocks blocks' : ℕ → Octets} {c c' : Connection}
  {id : ℕ}

theorem keeps (h : Holds done ready blocks c) (hk : KeepsBlocks c c') :
    Holds done ready blocks c' := by
  have hs := hk.blockState
  simp only [blockState, Prod.mk.injEq] at hs
  obtain ⟨hopts, hblock, hdec, hcomplete, hhigh, hgrace, hlast⟩ := hs
  constructor
  · rw [hdec, hopts]
    exact h.decoder
  · rw [hcomplete]
    exact h.complete
  · intro id e' he'
    obtain ⟨e, he, hb⟩ := hk.entry id e' he'
    rw [hb]
    exact h.fieldBlock id e he
  · intro id e' he'
    obtain ⟨e, he, -⟩ := hk.entry id e' he'
    exact hhigh ▸ h.highest id e he
  · intro hg id e' he'
    obtain ⟨e, he, -⟩ := hk.entry id e' he'
    rw [hgrace] at hg
    exact hlast ▸ h.graceful hg id e he

theorem congr (h : Holds done ready blocks c)
    (hb : ∀ id e, c.entry id = some e → blocks id = blocks' id) : Holds done ready blocks' c :=
  ⟨h.decoder, h.complete, fun id e he => (h.fieldBlock id e he).trans (hb id e he), h.highest,
    h.graceful⟩

theorem setEntry (h : Holds done ready blocks c) (e : StreamEntry) (hid : id ≤ c.highestStreamId)
    (hg : c.graceful = true → id ≤ c.gracefulLastStream) :
    Holds done ready (update blocks id e.fieldBlock) (c.setEntry id e) where
  decoder := h.decoder
  complete := h.complete
  fieldBlock id' e' he' := by
    rcases entry_of_setEntry he' with ⟨rfl, rfl⟩ | ⟨hne, he⟩
    · rw [update_self]
    · rw [update_of_ne hne]
      exact h.fieldBlock id' e' he
  highest id' e' he' := by
    rcases entry_of_setEntry he' with ⟨rfl, -⟩ | ⟨-, he⟩
    · exact hid
    · exact h.highest id' e' he
  graceful hgr id' e' he' := by
    rcases entry_of_setEntry he' with ⟨rfl, -⟩ | ⟨-, he⟩
    · exact hg hgr
    · exact h.graceful hgr id' e' he

end Holds

/-- Between two events: what has been completed is decoded, and the open block is
with its stream if that still exists. -/
structure InContext (c : Connection) (a : Assembly) : Prop where
  holds : Holds a.done [] (fun id => if c.blockStream = some id then a.opened.getD [] else []) c
  opened : ∀ id, c.blockStream = some id → a.opened.isSome = true

namespace InContext

variable {c c' : Connection} {a : Assembly} {done : List Octets} {id : ℕ} {block : Octets}

theorem keeps (h : InContext c a) (hk : KeepsBlocks c c') : InContext c' a := by
  have hblock : c'.blockStream = c.blockStream := congrArg (fun s => s.2.1) hk.blockState
  refine ⟨?_, ?_⟩
  · simp only [hblock]
    exact h.holds.keeps hk
  · rw [hblock]
    exact h.opened

theorem of_closed (hb : c.blockStream = none) (h : Holds a.done [] (fun _ => []) c) :
    InContext c a := by
  refine ⟨h.congr fun id e _ => ?_, fun id hid => ?_⟩
  · rw [hb, if_neg nofun]
  · rw [hb] at hid
    cases hid

theorem of_opened (hb : c.blockStream = some id) (h : Holds done [] (single id block) c) :
    InContext c ⟨some block, done⟩ := by
  refine ⟨h.congr fun id' e _ => ?_, fun _ _ => rfl⟩
  rw [hb, single_apply]
  rfl

theorem closed (h : InContext c a) (hb : c.blockStream = none) :
    Holds a.done [] (fun _ => []) c := by
  refine h.holds.congr fun id e _ => ?_
  rw [hb, if_neg nofun]

end InContext

/-! ### Fragments -/

section Fragments
variable {c : Connection} {done : List Octets} {blocks : ℕ → Octets} {id : ℕ} {block : Octets}

/-- A stream that is not there holds no block. -/
theorem single_of_none (hnone : c.entry id = none) (block : Octets) {id' : ℕ}
    (he : c.entry id' = some e) : single id block id' = [] := by
  have hid : id' ≠ id := fun hid => by simp [hid, hnone] at he
  rw [single, update_of_ne hid]

theorem checkContinuationFlood_inContext (hb : c.blockStream = some id) (he : c.entry id = some e)
    (h : Holds done [] (single id block) c) :
    (c.checkContinuationFlood id).closing = true ∨
      InContext (c.checkContinuationFlood id) ⟨some block, done⟩ := by
  have h₁ : Holds done [] (single id block) (c.setEntry id e.countFrame) :=
    h.keeps (.setEntry he rfl)
  have hb₁ : (c.setEntry id e.countFrame).blockStream = some id := hb
  rw [checkContinuationFlood, he]
  simp only
  split_ifs
  · -- the block is given up together with the stream
    generalize c.setEntry id e.countFrame = c₁ at h₁ hb₁ ⊢
    have hclear : Holds done [] (single id block) (c₁.clearBlock id) :=
      ⟨h₁.decoder, h₁.complete, h₁.fieldBlock, h₁.highest, h₁.graceful⟩
    have hk :=
      KeepsBlocks.of_receives (Receives.closed.streamError (c₁.clearBlock id) id .protocolError)
    rcases streamError_entry (c₁.clearBlock id) id .protocolError with hc | hnone
    · exact .inl hc
    · refine .inr (InContext.of_closed ?_
        ((hclear.keeps hk).congr fun _ _ => single_of_none hnone block))
      exact (congrArg (fun s => s.2.1) hk.blockState).trans (if_pos hb₁)
  · exact .inr (.of_opened hb₁ h₁)

/-- The block is complete and waits to be decoded. -/
structure Ready (done : List Octets) (id : ℕ) (block : Octets) (listSize limit : ℕ)
    (c : Connection) : Prop where
  holds : Holds done [id] (single id block) c
  blockStream : c.blockStream = none
  entry : ∃ e, c.entry id = some e ∧ e.headerListSize = listSize
  limit : c.opts.maxHeaderListSize.toNat = limit

theorem Holds.completeBlock (h : Holds done [] blocks c) (id : ℕ) :
    Holds done [id] blocks (c.completeBlock id) where
  decoder := h.decoder
  complete := by rw [Connection.completeBlock, h.complete, nil_append]
  fieldBlock := h.fieldBlock
  highest := h.highest
  graceful := h.graceful

/-- A HEADERS frame on a stream without an entry: the connection or the stream is
refused, or the stream holds the block. -/
theorem openRequestStream_cases {endStream endHeaders : Bool}
    (h : Holds done [] (fun _ => []) c) (hg : c.graceful = true → id ≤ c.gracefulLastStream)
    (hnone : c.entry id = none) (ho : c.openRequestStream id endStream endHeaders block = c') :
    c'.closing = true ∨
    (id % 2 = 1 ∧ id > c.highestStreamId ∧
      c.streams.keys.length ≥ c.opts.maxConcurrentStreams.toNat ∧ c'.blockStream = c.blockStream ∧
      c'.entry id = none ∧ Holds done [] (fun _ => []) c') ∨
    c'.blockStream = c.blockStream ∧ c'.opts = c.opts ∧
      (∃ e, c'.entry id = some e ∧ e.headerListSize = 0) ∧
      Holds done (if endHeaders then [id] else []) (single id block) c' := by
  have h₁ : id > c.highestStreamId → Holds done [] (fun _ => []) (c.raiseHighest id) :=
    fun hlt => ⟨h.decoder, h.complete, h.fieldBlock,
      fun id' e he => (h.highest id' e he).trans hlt.le, h.graceful⟩
  have hid : id ≤ (c.raiseHighest id).highestStreamId := le_rfl
  rw [openRequestStream] at ho
  split_ifs at ho with hodd hhigh hfull hend <;> subst ho
  · exact .inl rfl
  · exact .inl rfl
  · specialize h₁ (not_le.1 hhigh)
    refine .inr (.inl ⟨by omega, not_le.1 hhigh, hfull, rfl, hnone, ?_⟩)
    exact ⟨h₁.decoder, h₁.complete, h₁.fieldBlock, h₁.highest, h₁.graceful⟩
  · rw [if_pos hend]
    exact .inr (.inr ⟨rfl, rfl, ⟨_, entry_setEntry _ _ _, rfl⟩,
      ((h₁ (not_le.1 hhigh)).completeBlock id).setEntry (.opening _ endStream true block) hid hg⟩)
  · rw [if_neg hend]
    exact .inr (.inr ⟨rfl, rfl, ⟨_, entry_setEntry _ _ _, rfl⟩,
      (h₁ (not_le.1 hhigh)).setEntry (.opening _ endStream false block) hid hg⟩)

theorem handleHeadersFrame_opened (endStream : Bool) (hb : c.blockStream = some id)
    (h : Holds done [] (fun _ => []) c) :
    (c.handleHeadersFrame id endStream false block).closing = true ∨
      InContext (c.handleHeadersFrame id endStream false block) ⟨some block, done⟩ := by
  have hlost : ∀ c' : Connection, c'.blockStream = some id → c'.entry id = none →
      Holds done [] (fun _ => []) c' → InContext c' ⟨some block, done⟩ := fun c' hb' hnone h' =>
    .of_opened hb' (h'.congr fun _ _ he => (single_of_none hnone block he).symm)
  rw [handleHeadersFrame]
  split
  · rename_i hgrace
    refine .inr (hlost c hb ?_ h)
    by_contra hsome
    obtain ⟨e, he⟩ := Option.ne_none_iff_exists'.1 hsome
    exact absurd (h.graceful hgrace.1 id e he) (not_le.2 hgrace.2)
  rename_i hgrace
  have hg : c.graceful = true → id ≤ c.gracefulLastStream :=
    fun hgr => not_lt.1 fun hlt => hgrace ⟨hgr, hlt⟩
  cases he : c.entry id with
  | none =>
    rcases openRequestStream_cases h hg he rfl with hc | ⟨-, -, -, hb', hn, h'⟩ |
      ⟨hb', -, -, h'⟩
    · exact .inl hc
    · exact .inr (hlost _ (hb'.trans hb) hn h')
    · exact .inr (.of_opened (hb'.trans hb) h')
  | some e =>
    simp only
    split
    · have hk := KeepsBlocks.of_receives (Receives.closed.streamError c id .streamClosed)
      rcases streamError_entry c id .streamClosed with hc | hn
      · exact .inl hc
      · exact .inr (hlost _ ((congrArg (fun s => s.2.1) hk.blockState).trans hb) hn (h.keeps hk))
    · have hset := h.setEntry (.extendBlock { e with pendingEndStream := endStream } block)
        (h.highest id e he) hg
      have hempty : e.fieldBlock = [] := h.fieldBlock id e he
      rw [show (StreamEntry.extendBlock { e with pendingEndStream := endStream } block).fieldBlock =
        block from (congrArg (· ++ block) hempty).trans (nil_append _)] at hset
      exact checkContinuationFlood_inContext hb (entry_setEntry _ _ _) hset

theorem ready_of_entry {e' : StreamEntry} (h : Holds done [] blocks c)
    (hother : ∀ id', id' ≠ id → blocks id' = []) (hb : c.blockStream = none)
    (he : c.entry id = some e) (hg : c.graceful = true → id ≤ c.gracefulLastStream)
    (hfield : e'.fieldBlock = block) (hsize : e'.headerListSize = e.headerListSize) :
    Ready done id block e.headerListSize c.opts.maxHeaderListSize.toNat
      ((c.completeBlock id).setEntry id e') where
  holds := by
    have hset := (h.completeBlock id).setEntry e' (h.highest id e he) hg
    refine hset.congr fun id' e₁ _ => ?_
    rw [hfield, single, update_apply, update_apply]
    split_ifs with hid
    · rfl
    · exact hother id' hid
  blockStream := hb
  entry := ⟨e', entry_setEntry _ _ _, hsize⟩
  limit := rfl

theorem handleHeadersFrame_ready (endStream : Bool) (hb : c.blockStream = none)
    (h : Holds done [] (fun _ => []) c) (hskip : c.skips id = false) :
    (c.handleHeadersFrame id endStream true block).closing = true ∨
      Ready done id block (c.pendingList id).2 c.opts.maxHeaderListSize.toNat
        (c.handleHeadersFrame id endStream true block) := by
  rw [skips, Bool.or_eq_false_iff] at hskip
  obtain ⟨hgrace, hskip⟩ := hskip
  have hg : c.graceful = true → id ≤ c.gracefulLastStream := by
    intro hgr
    simpa [hgr] using hgrace
  rw [handleHeadersFrame, if_neg (fun hgr => absurd (hg hgr.1) (not_le.2 hgr.2)), pendingList]
  cases he : c.entry id with
  | none =>
    simp only [he] at hskip ⊢
    rcases openRequestStream_cases h hg he rfl with hc | ⟨hodd, hhigh, hfull, -⟩ |
      ⟨hb', hopts, hentry, h'⟩
    · exact .inl hc
    · simp [hodd, hhigh, hfull] at hskip
    · exact .inr ⟨h', hb'.trans hb, hentry, by rw [hopts]⟩
  | some e =>
    simp only [he] at hskip ⊢
    rw [if_neg (by simp [hskip])]
    have hempty : e.fieldBlock = [] := h.fieldBlock id e he
    exact .inr (ready_of_entry h (fun _ _ => rfl) hb he hg
      ((congrArg (· ++ block) hempty).trans (nil_append _)) rfl)

end Fragments

/-! ### Decoding -/

theorem decodeAll_append (blocks : List Octets) (block : Octets) :
    decodeAll (blocks ++ [block]) = ((decodeAll blocks).decode block 0).1 :=
  foldl_append

theorem decodeAll_maxHeaderListSize (blocks : List Octets) :
    (decodeAll blocks).maxHeaderListSize = usizeMax := by
  induction blocks using reverseRecOn with
  | nil => rfl
  | append_singleton blocks block ih =>
    rw [decodeAll_append, Decoder.decode_maxHeaderListSize, ih]

/-- Decoding the block under the limit of the connection or without one leads to
the same decoder, as long as the list is within the limit. -/
theorem decodeAll_decode (opts : ConnectionOptions) {block : Octets} {listSize n : ℕ} {d : Decoder}
    {decoded : Except Hpack.HpackError (List Hpack.Header)}
    (hfits : ((decodeAll done).decode block listSize).2.1 ≤ opts.maxHeaderListSize.toNat)
    (hd : ((decodeAll done).setMaxHeaderListSize opts.maxHeaderListSize.toNat).decode block
      listSize = (d, n, decoded)) :
    (∃ error, decoded = .error error ∧ error ≠ .headerListTooLarge) ∨
    (∃ headers, decoded = .ok headers) ∧
      d = (decodeAll (done ++ [block])).setMaxHeaderListSize opts.maxHeaderListSize.toNat := by
  have hlimit :
      ((decodeAll done).setMaxHeaderListSize opts.maxHeaderListSize.toNat).maxHeaderListSize
        ≤ usizeMax := by
    have := opts.maxHeaderListSize.toNat_lt
    simp only [Decoder.setMaxHeaderListSize, usizeMax]
    omega
  have hback : ((decodeAll done).setMaxHeaderListSize
      opts.maxHeaderListSize.toNat).setMaxHeaderListSize usizeMax = decodeAll done := by
    rw [← decodeAll_maxHeaderListSize done]
    rfl
  have hwithin := Decoder.decode_within hlimit (hback.symm ▸ hfits)
  have hmax := Decoder.decode_maxHeaderListSize
    ((decodeAll done).setMaxHeaderListSize opts.maxHeaderListSize.toNat) block listSize
  rw [hd] at hwithin hmax
  rcases decoded with error | headers
  · exact .inl ⟨error, rfl, fun h => hwithin (congrArg _ h)⟩
  obtain ⟨n', hn⟩ := Decoder.decode_lift hlimit (Nat.zero_le listSize) hd
  rw [hback] at hn
  refine .inr ⟨⟨headers, rfl⟩, ?_⟩
  rw [decodeAll_append, hn]
  exact congrArg d.setMaxHeaderListSize hmax

section
variable (http : HttpCrate)

/-- What follows a decoded block is the business of the request side. -/
theorem KeepsBlocks.finalizeDecoded {id : ℕ} (he : c.entry id = some e)
    (decoded : Except Hpack.HpackError (List Hpack.Header)) :
    KeepsBlocks c (finalizeDecoded http c id e decoded) :=
  .of_receives (Receives.closed.finalizeDecoded http decoded he fun _ _ => trivial)

theorem finalizeComplete_of_nil (h : c.completeBlocks = []) : finalizeComplete http c = c := by
  rw [finalizeComplete, takeCompleteBlock, h, takeComplete, ← h]

/-- The connection error of a frame outlives the block that the frame completes. -/
theorem closing_finalizeComplete (h : c.closing = true) :
    (finalizeComplete http c).closing = true := by
  have hfield : ∀ (c : Connection) (id : ℕ), c.closing = true →
      (finalizeFieldBlock http c id).closing = true := by
    intro c id hc
    rw [finalizeFieldBlock]
    cases he : c.entry id with
    | none => exact hc
    | some e =>
      exact (KeepsBlocks.finalizeDecoded http (entry_setEntry _ _ _) _).closing hc
  rw [finalizeComplete, takeCompleteBlock]
  rcases c.takeComplete c.completeBlocks with ⟨_ | id, rest⟩
  · exact h
  · exact hfield _ _ h

/-- A complete block whose list is within the limit is decoded to its end, or the
connection ends. -/
theorem Ready.finalize {id : ℕ} {block : Octets} {listSize limit : ℕ}
    (h : Ready done id block listSize limit c)
    (hfits : ((decodeAll done).decode block listSize).2.1 ≤ limit) :
    (finalizeComplete http c).closing = true ∨
      InContext (finalizeComplete http c) ⟨none, done ++ [block]⟩ := by
  obtain ⟨e, he, hsize⟩ := h.entry
  have hblock : e.fieldBlock = block := by
    rw [h.holds.fieldBlock id e he, single, update_self]
  have htake : finalizeComplete http c =
      finalizeFieldBlock http { c with completeBlocks := [] } id := by
    rw [finalizeComplete, takeCompleteBlock, h.holds.complete, takeComplete, he]
    rfl
  rw [htake, finalizeFieldBlock, show ({ c with completeBlocks := [] } : Connection).entry id =
    some e from he]
  simp only [hblock, hsize, h.holds.decoder]
  rcases hdec : ((decodeAll done).setMaxHeaderListSize c.opts.maxHeaderListSize.toNat).decode block
    listSize with ⟨d, n, decoded⟩
  rcases decodeAll_decode c.opts (h.limit.symm ▸ hfits) hdec with ⟨error, rfl, hne⟩ |
    ⟨⟨headers, rfl⟩, hd⟩
  · left
    cases error with
    | headerListTooLarge => exact absurd rfl hne
    | _ => rfl
  right
  set c₁ := setDecoder { c with completeBlocks := [] } d with hc₁
  have h₁ : Holds (done ++ [block]) [] (single id block) c₁ :=
    ⟨hd, rfl, h.holds.fieldBlock, h.holds.highest, h.holds.graceful⟩
  have hset : Holds (done ++ [block]) [] (fun _ => []) (c₁.setEntry id (e.takeBlock n)) := by
    refine (h₁.setEntry (e.takeBlock n) (h₁.highest id e he)
      fun hg => h₁.graceful hg id e he).congr fun id' _ _ => ?_
    by_cases hid : id' = id
    · rw [hid, update_self]
      rfl
    · rw [update_of_ne hid, single, update_of_ne hid]
  have hclosed : InContext (c₁.setEntry id (e.takeBlock n)) ⟨none, done ++ [block]⟩ :=
    .of_closed h.blockStream hset
  exact hclosed.keeps (.finalizeDecoded http (entry_setEntry c₁ id (e.takeBlock n)) (.ok headers))

end

/-! ### Frames -/

section Frames
variable (http : HttpCrate) {c : Connection} {a : Assembly}

theorem listFits_iff (h : InContext c a) (id : ℕ) (block : Octets) : c.listFits id block = true ↔
      ((decodeAll a.done).decode ((c.pendingList id).1 ++ block) (c.pendingList id).2).2.1 ≤
        c.opts.maxHeaderListSize.toNat := by
  rw [listFits, decide_eq_true_iff, h.holds.decoder, ← decodeAll_maxHeaderListSize a.done]
  rfl

/-- After its handler a frame that completes no block is done with. -/
theorem finalizeComplete_of_inContext (h : c'.closing = true ∨ InContext c' a) :
    (finalizeComplete http c').closing = true ∨ InContext (finalizeComplete http c') a := by
  rcases h with hc | h
  · exact .inl (closing_finalizeComplete http hc)
  · rw [finalizeComplete_of_nil http h.holds.complete]
    exact .inr h

theorem Holds.setBlockStream {blocks : ℕ → Octets} {ready : List ℕ} (h : Holds done ready blocks c)
    (blockStream : Option ℕ) : Holds done ready blocks (c.setBlockStream blockStream) :=
  ⟨h.decoder, h.complete, h.fieldBlock, h.highest, h.graceful⟩

theorem headers_inContext (h : InContext c a) (hb : c.blockStream = none) (id : ℕ)
    (endStream endHeaders : Bool) (priority : Option Priority) (block : Octets)
    (hok : endHeaders = true → c.skips id = false ∧ c.listFits id block = true) :
    let c' := (c.setBlockStream (if endHeaders then none else some id)).handleHeadersFrame id
      endStream endHeaders block
    (finalizeComplete http c').closing = true ∨ InContext (finalizeComplete http c')
      (a.receive (.headers id endStream endHeaders priority block)) := by
  have hholds := h.closed hb
  cases endHeaders with
  | false =>
    exact finalizeComplete_of_inContext http
      (handleHeadersFrame_opened endStream rfl (hholds.setBlockStream (some id)))
  | true =>
    obtain ⟨hskip, hfits⟩ := hok rfl
    have hstart : (c.pendingList id).1 = [] := by
      rw [pendingList]
      cases he : c.entry id with
      | none => rfl
      | some e => exact hholds.fieldBlock id e he
    rw [listFits_iff h, hstart] at hfits
    rcases handleHeadersFrame_ready endStream rfl (hholds.setBlockStream none) hskip with
      hc | hready
    · exact .inl (closing_finalizeComplete http hc)
    · exact hready.finalize http hfits

theorem continuation_inContext (h : InContext c a) {id : ℕ} (hb : c.blockStream = some id)
    (endHeaders : Bool) (block : Octets) (hok : endHeaders = true → c.listFits id block = true) :
    let f := .continuation id endHeaders block
    let c' := (c.setBlockStream (if endHeaders then none else some id)).handleContinuation id
      endHeaders block
    (finalizeComplete http c').closing = true ∨
      InContext (finalizeComplete http c') (a.receive f) := by
  obtain ⟨start, hstart⟩ := Option.isSome_iff_exists.1 (h.opened id hb)
  have hsingle : Holds a.done [] (single id start) c := by
    refine h.holds.congr fun id' _ _ => ?_
    rw [hb, hstart, single_apply]
    rfl
  intro f c'
  have hc' : c' = (c.setBlockStream (if endHeaders then none else some id)).handleContinuation id
      endHeaders block := rfl
  have hentry : ∀ blockStream, (c.setBlockStream blockStream).entry id = c.entry id := fun _ => rfl
  rw [handleContinuation, hentry] at hc'
  cases he : c.entry id with
  | none =>
    rw [he] at hc'
    exact .inl (closing_finalizeComplete http (congrArg closing hc'))
  | some e =>
    replace hc' : c' = if endHeaders then ((c.setBlockStream none).completeBlock id).setEntry id
          (e.extendBlock block).endFrames
        else (c.setEntry id (e.extendBlock block)).checkContinuationFlood id := by
      have hsame : c.setBlockStream (some id) = c := by
        rw [← hb]
        rfl
      rw [hc', he]
      cases endHeaders
      · exact congrArg (fun c : Connection => (c.setEntry id _).checkContinuationFlood id) hsame
      · rfl
    have hstart' : e.fieldBlock = start := by
      rw [hsingle.fieldBlock id e he, single, update_self]
    have hfield : (e.extendBlock block).fieldBlock = start ++ block :=
      congrArg (· ++ block) hstart'
    have hg := fun hgr => hsingle.graceful hgr id e he
    rw [hc']
    cases endHeaders with
    | false =>
      have hset := hsingle.setEntry (e.extendBlock block) (hsingle.highest id e he) hg
      rw [hfield, single, update_idem] at hset
      have hreceive : a.receive f = ⟨some (start ++ block), a.done⟩ := by
        simp only [Assembly.receive, hstart]
        rfl
      rw [hreceive]
      exact finalizeComplete_of_inContext http
        (checkContinuationFlood_inContext hb (entry_setEntry _ _ _) hset)
    | true =>
      have hready : Ready a.done id (start ++ block) e.headerListSize
          c.opts.maxHeaderListSize.toNat (((c.setBlockStream none).completeBlock id).setEntry id
            (e.extendBlock block).endFrames) :=
        ready_of_entry (hsingle.setBlockStream none) (fun id' hid => update_of_ne hid _ _)
          rfl he hg hfield rfl
      have hreceive : a.receive f = ⟨none, a.done ++ [start ++ block]⟩ := by
        simp [f, Assembly.receive, hstart]
      have hfits := (listFits_iff h id block).1 (hok rfl)
      have hpending : c.pendingList id = (start, e.headerListSize) := by
        rw [pendingList, he, ← hstart']
      rw [hpending] at hfits
      rw [hreceive]
      exact hready.finalize http hfits

theorem KeepsBlocks.handled {hint : List ℕ} {f : Frame} (h : Handled hint c f c') :
    KeepsBlocks c c' := by
  rcases h.receives (fun _ _ _ => trivial) fun _ _ _ _ _ _ => trivial with
    hr | ⟨increment, -, rfl⟩ | ⟨id, increment, e, -, he, rfl⟩
  · exact .of_receives hr
  · have hgrow : KeepsBlocks c (c.growWindow increment) := .of_streams rfl rfl rfl
    exact hgrow.trans (Responds.drainPendingData _ hint).keepsBlocks
  · have hset : KeepsBlocks c (c.setEntry id (e.growWindow increment)) := .setEntry he rfl
    exact hset.trans (Responds.pumpStreamData _ id).keepsBlocks

theorem processed_inContext {hint : List ℕ} {f : Frame} (h : InContext c a)
    (hok : Decodes c (.frame hint f)) (hf : Processed http hint c f c') :
    c'.closing = true ∨ InContext c' (a.receive f) := by
  cases hf with
  | rejected => exact .inl rfl
  | headers hb =>
    exact headers_inContext http h hb _ _ _ _ _ (by rintro rfl; exact hok)
  | continuation hb =>
    exact continuation_inContext http h hb _ _ (by rintro rfl; exact hok)
  | pushPromise => exact .inl (closing_finalizeComplete http rfl)
  | goAway => exact .inr (h.keeps (.of_streams rfl rfl rfl))
  | other hfrag hf =>
    have hsame : a.receive f = a := by
      cases f with
      | headers | continuation => cases hfrag
      | _ => rfl
    rw [hsame]
    exact finalizeComplete_of_inContext http (.inr (h.keeps (.handled hf)))

end Frames

/-! ### Runs -/

def concernsBlocks : Event → Bool
  | .frame .. | .shutdown => true
  | _ => false

theorem KeepsBlocks.step (http : HttpCrate) (c : Connection) (ev : Event)
    (hev : concernsBlocks ev = false) : KeepsBlocks c (step http c ev) := by
  have hrefl : KeepsBlocks c c := .of_receives (.refl c)
  have hstep := step_stepped http c ev
  generalize Connection.step http c ev = c' at hstep ⊢
  cases hstep with
  | same => exact hrefl
  | frame | shutdown => cases hev
  | frameError => exact .of_receives (.goaway c _ _)
  | resume => exact .of_receives (Receives.closed.resume fun _ _ _ _ _ => trivial)
  | drain => exact (Responds.drainStream c _).keepsBlocks
  | finish => exact .of_streams rfl rfl rfl
  | task =>
    refine onTask_induction _ (fun _ => .of_streams rfl rfl rfl) fun e _ he => .setEntry he ?_
    rw [StreamEntry.onTask_same]

theorem InContext.shutdown {a : Assembly} (h : InContext c a) :
    InContext c.beginGracefulShutdown a := by
  rw [beginGracefulShutdown]
  split_ifs
  · exact h
  · exact ⟨⟨h.holds.decoder, h.holds.complete, h.holds.fieldBlock, h.holds.highest,
      fun _ => h.holds.highest⟩, h.opened⟩

theorem step_inContext (http : HttpCrate) {a : Assembly} (ev : Event)
    (h : c.closing = true ∨ InContext c a) (hok : Decodes c ev) :
    (step http c ev).closing = true ∨
      InContext (step http c ev) ((c.taken ev).foldl Assembly.receive a) := by
  have hk : concernsBlocks ev = false → KeepsBlocks c (step http c ev) := .step http c ev
  cases ev with
  | shutdown =>
    rw [step]
    rcases h with h | h
    · rw [if_neg (by simp [reading, h])]
      exact .inl h
    · split_ifs
      · exact .inr h.shutdown
      · exact .inr h
  | frame hint f =>
    rw [step, taken]
    rcases h with h | h
    · rw [if_neg (by simp [reading, h])]
      exact .inl h
    · split_ifs
      · exact processed_inContext http h hok (processFrame_processed http c hint f)
      · exact .inr h
  | _ => exact h.imp (hk rfl).closing (·.keeps (hk rfl))

/-- Along a run: the connection has ended, or is in step with what was sent. -/
theorem run_inContext (http : HttpCrate) (events : List Event) : ∀ (c : Connection) (a : Assembly),
    (c.closing = true ∨ InContext c a) → Along http Decodes events c →
    (run http events c).closing = true ∨
      InContext (run http events c) ((received http events c).foldl Assembly.receive a) := by
  induction events with
  | nil => exact fun _ _ h _ => h
  | cons ev events ih =>
    intro c a h hok
    rw [received, foldl_append]
    exact ih _ _ (step_inContext http ev h hok.1) hok.2

theorem start_inContext (opts : ConnectionOptions) : InContext (start opts) ⟨none, []⟩ := by
  have hnone : ∀ id e, (start opts).entry id ≠ some e := fun id e he => by
    cases he
  exact .of_closed rfl ⟨rfl, rfl, fun id e he => absurd he (hnone id e),
    fun id e he => absurd he (hnone id e), nofun⟩

/-- In every run in which no complete block is passed over and no header list is
too large, the request decoder has the table of a decoder that has read every
completed block, for as long as the connection has not failed. -/
theorem run_decodes_completed (http : HttpCrate) (opts : ConnectionOptions) (events : List Event)
    (hok : Along http Decodes events (start opts))
    (hopen : (run http events (start opts)).closing = false) :
    (run http events (start opts)).requestDecoder.table =
      (decodeAll (completed (received http events (start opts)))).table := by
  rcases run_inContext http events _ _ (.inr (start_inContext opts)) hok with h | h
  · rw [hopen] at h
    cases h
  · rw [h.holds.decoder]
    rfl

/-- Two GET requests, the second with a field that is to be indexed. -/
def indexingRequests : List Event :=
  [.frame [] (.headers 1 true true none [0x82, 0x86, 0x84]),
    .frame [] (.headers 3 true true none [0x82, 0x86, 0x84, 0x40, 0x01, 0x61, 0x01, 0x62])]

theorem run_decodes_completed_requests :
    (run .permissive indexingRequests (start .default)).requestDecoder.table =
      (decodeAll (completed (received .permissive indexingRequests (start .default)))).table :=
  run_decodes_completed .permissive .default indexingRequests
    ⟨⟨by decide +kernel, by decide +kernel⟩, ⟨by decide +kernel, by decide +kernel⟩, trivial⟩
    (by decide +kernel)

/-- With room for one stream the second request is refused, and its field never
gets into the table. -/
theorem run_refused_block_skipped :
    let opts := { ConnectionOptions.default with maxConcurrentStreams := 1 }
    (run .permissive indexingRequests (start opts)).closing = false ∧
    (run .permissive indexingRequests (start opts)).requestDecoder.table ≠
      (decodeAll (completed (received .permissive indexingRequests (start opts)))).table := by
  refine ⟨by decide +kernel, fun h => ?_⟩
  have hentries := congrArg (fun t : Hpack.Table => t.entries.length) h
  revert hentries
  decide +kernel

end ZincioHttp.H2.Connection
