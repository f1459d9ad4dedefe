import Mathlib.Data.List.Forall2
import ZincioHttp.H2.Connection.Response
import ZincioHttp.H2.Connection.StreamRun
import ZincioHttp.Lib.Runs

/-! The order in which the frames of a response are written. A task that sends interim
responses, one response head, data, and then trailers or a reset gets them on the wire as
blocks in this order, each HEADERS frame followed at once by its CONTINUATION frames;
END_STREAM comes once, and after it or a RST_STREAM there is nothing but RST_STREAM. -/

namespace ZincioHttp.H2

open List Option Bool StreamMsg
open H2.Frame (respondsOn)
open H2.Hpack (Header)
open Lib (foldlM_cons_eq_some foldlM_append_eq_some foldlM_concat_eq_some)

/-! ### The units of a response -/

/-- A field block on the wire: what its HEADERS frame carries, and the pieces in CONTINUATION
frames if there are any, the last of them apart. -/
structure FieldBlock where
  first : Octets
  rest : Option (List Octets × Octets)

namespace FieldBlock

/-- Only the last frame has END_HEADERS, only the HEADERS frame may have END_STREAM. -/
def frames (id : ℕ) (endStream : Bool) (b : FieldBlock) : List Frame :=
  match b.rest with
  | none => [.headers id endStream true none b.first]
  | some (middle, last) => .headers id endStream false none b.first ::
      (middle.map (.continuation id false) ++ [.continuation id true last])

def octets (b : FieldBlock) : Octets :=
  match b.rest with
  | none => b.first
  | some (middle, last) => b.first ++ (middle.flatten ++ last)

end FieldBlock

theorem writeContinuations_eq (capacity id : ℕ) : ∀ (fuel : ℕ) (rest : Octets),
    ∃ (middle : List Octets) (last : Octets), writeContinuations capacity id fuel rest =
      middle.map (.continuation id false) ++ [.continuation id true last] ∧
        middle.flatten ++ last = rest := by
  intro fuel
  induction fuel with
  | zero => exact fun rest => ⟨[], rest, rfl, rfl⟩
  | succ fuel ih =>
    intro rest
    rw [writeContinuations]
    split_ifs
    · obtain ⟨middle, last, hframes, hrest⟩ := ih (rest.drop capacity)
      refine ⟨rest.take capacity :: middle, last, by rw [hframes]; rfl, ?_⟩
      rw [flatten_cons, append_assoc, hrest, take_append_drop]
    · exact ⟨[], rest, rfl, rfl⟩

theorem writeFieldBlock_eq (capacity id : ℕ) (endStream : Bool) (block : Octets) :
    ∃ b : FieldBlock, writeFieldBlock capacity id endStream block = b.frames id endStream ∧
      b.octets = block := by
  rw [writeFieldBlock]
  split_ifs
  · exact ⟨⟨block, none⟩, rfl, rfl⟩
  · obtain ⟨middle, last, hframes, hrest⟩ :=
      writeContinuations_eq capacity id block.length (block.drop capacity)
    refine ⟨⟨block.take capacity, some (middle, last)⟩, by rw [hframes]; rfl, ?_⟩
    rw [FieldBlock.octets]
    simp only
    rw [hrest, take_append_drop]

inductive ResponseUnit where
  | interim (block : FieldBlock)
  | final (endStream : Bool) (block : FieldBlock)
  | data (endStream : Bool) (octs : Octets)
  | trailers (block : FieldBlock)
  | reset (code : ℕ)

namespace ResponseUnit

def frames (id : ℕ) : ResponseUnit → List Frame
  | interim block => block.frames id false
  | final endStream block => block.frames id endStream
  | data endStream octs => [.data id endStream octs]
  | trailers block => block.frames id true
  | reset code => [.reset id code]

def endsStream : ResponseUnit → Bool
  | final endStream _ | data endStream _ => endStream
  | trailers _ => true
  | _ => false

def isReset : ResponseUnit → Bool
  | reset _ => true
  | _ => false

def isBlock : ResponseUnit → Bool
  | interim _ | final .. | trailers _ => true
  | _ => false

end ResponseUnit

open ResponseUnit (frames)

inductive Progress where
  | start
  | body
  | complete
  | reset
  deriving DecidableEq, Repr

/-- Interim blocks, one final block, DATA frames, at most one block of trailers. END_STREAM
ends the response; RST_STREAM may come at any time. -/
def Progress.next : Progress → ResponseUnit → Option Progress
  | start, .interim _ => some start
  | start, .final endStream _ => some (if endStream then complete else body)
  | body, .data endStream _ => some (if endStream then complete else body)
  | body, .trailers _ => some complete
  | _, .reset _ => some reset
  | _, _ => none

/-- Nothing but RST_STREAM follows. -/
def Progress.closed : Progress → Bool
  | complete | reset => true
  | _ => false

namespace Progress

variable {p p' : Progress} {u : ResponseUnit} {units : List ResponseUnit}

theorem next_closed (h : p.next u = some p') :
    p'.closed = (p.closed || u.endsStream || u.isReset) := by
  cases p <;> cases u <;> simp only [next, reduceCtorEq, some.injEq] at h <;> subst h <;>
    first | rfl | (rename_i endStream _; cases endStream <;> rfl)

theorem next_of_closed (hclosed : p.closed = true) (h : p.next u = some p') :
    u.isReset = true ∧ u.endsStream = false := by
  cases p with
  | start | body => cases hclosed
  | complete | reset =>
    cases u with
    | reset code => exact ⟨rfl, rfl⟩
    | _ => cases h

theorem isReset_of_closed (hclosed : p.closed = true) (h : units.foldlM next p = some p') :
    ∀ v ∈ units, v.isReset = true ∧ v.endsStream = false := by
  induction units generalizing p with
  | nil => exact nofun
  | cons u units ih =>
    obtain ⟨p₁, hnext, h⟩ := foldlM_cons_eq_some.1 h
    have hclosed₁ : p₁.closed = true := by rw [next_closed hnext, hclosed]; rfl
    intro v hv
    rcases mem_cons.1 hv with rfl | hv
    · exact next_of_closed hclosed hnext
    · exact ih hclosed₁ h v hv

/-- After END_STREAM or RST_STREAM there is nothing but RST_STREAM. -/
theorem reset_follows {before after : List ResponseUnit}
    (h : (before ++ u :: after).foldlM next p = some p')
    (hu : u.endsStream = true ∨ u.isReset = true) :
    ∀ v ∈ after, v.isReset = true ∧ v.endsStream = false := by
  obtain ⟨p₁, -, h⟩ := foldlM_append_eq_some.1 h
  obtain ⟨p₂, hnext, h⟩ := foldlM_cons_eq_some.1 h
  refine isReset_of_closed ?_ h
  rw [next_closed hnext]
  rcases hu with hu | hu
  · rw [hu, Bool.or_true, Bool.true_or]
  · rw [hu, Bool.or_true]

theorem countP_endsStream_le (h : units.foldlM next p = some p') :
    units.countP ResponseUnit.endsStream ≤ 1 := by
  induction units generalizing p with
  | nil => exact Nat.zero_le 1
  | cons u units ih =>
    have hfront : ([] ++ u :: units).foldlM next p = some p' := h
    have hafter := reset_follows hfront
    obtain ⟨p₁, -, h⟩ := foldlM_cons_eq_some.1 h
    rw [countP_cons]
    by_cases hu : u.endsStream = true
    · have hzero : units.countP ResponseUnit.endsStream = 0 :=
        countP_eq_zero.2 fun v hv => by simp [(hafter (.inl hu) v hv).2]
      rw [hzero, if_pos hu]
    · rw [if_neg hu]
      exact ih h

theorem foldlM_reset (h : units.foldlM next .reset = some p') : p' = .reset := by
  induction units with
  | nil => exact (some.inj h).symm
  | cons u units ih =>
    cases u with
    | reset code => exact ih h
    | _ => cases h

theorem reset_of_mem (h : units.foldlM next p = some p') {code : ℕ}
    (hmem : .reset code ∈ units) : p' = .reset := by
  obtain ⟨before, after, rfl⟩ := append_of_mem hmem
  obtain ⟨p₁, -, h⟩ := foldlM_append_eq_some.1 h
  obtain ⟨p₂, hnext, h⟩ := foldlM_cons_eq_some.1 h
  obtain rfl : .reset = p₂ := by cases p₁ <;> exact some.inj hnext
  exact foldlM_reset h

end Progress

/-! ### The messages of a task -/

namespace StreamMsg

def isBlock : StreamMsg → Bool
  | headers .. | informational _ | trailers _ => true
  | _ => false

/-- A unit is the field block of a message, as some encoder encodes it. -/
def Renders : StreamMsg → ResponseUnit → Prop
  | informational parts, .interim b =>
    ∃ encoder : Hpack.Encoder, b.octets = (encoder.encode (Connection.responseFields parts)).2
  | headers parts endStream, .final endStream' b => endStream' = endStream ∧
    ∃ encoder : Hpack.Encoder, b.octets = (encoder.encode (Connection.responseFields parts)).2
  | trailers fields, .trailers b =>
    ∃ encoder : Hpack.Encoder, b.octets = (encoder.encode fields).2
  | _, _ => False

end StreamMsg

namespace Connection

theorem filter_isBlock_mergeEnd (msgs : List StreamMsg) :
    (mergeEnd msgs).filter isBlock = msgs.filter isBlock := by
  fun_induction mergeEnd msgs with
  | case1 data endStream rest ih => simpa [isBlock] using ih
  | case2 msg rest _ ih => rw [filter_cons, filter_cons, ih]
  | case3 => rfl

theorem any_ends_mergeEnd (msgs : List StreamMsg) : (mergeEnd msgs).any ends = msgs.any ends := by
  fun_induction mergeEnd msgs with
  | case1 data endStream rest ih => simp [ends]
  | case2 msg rest _ ih => rw [any_cons, any_cons, ih]
  | case3 => rfl

end Connection

/-! ### What is on the wire -/

/-- The frames of a stream are those of a response, its field blocks those of some of the
messages, in order. -/
def Shows (id : ℕ) (msgs : List StreamMsg) (p : Progress) (w : List Frame) : Prop :=
  ∃ (units : List ResponseUnit) (shown : List StreamMsg),
    w.filter (respondsOn id) = units.flatMap (frames id) ∧
    units.foldlM Progress.next .start = some p ∧ shown.Sublist (msgs.filter StreamMsg.isBlock) ∧
    List.Forall₂ StreamMsg.Renders shown (units.filter ResponseUnit.isBlock)

variable {msg : StreamMsg} {form' form : Phase} {p : Progress}

namespace Shows

variable {id : ℕ} {msgs : List StreamMsg} {p p' : Progress} {w w' : List Frame}

theorem nil (msgs : List StreamMsg) (h : w.filter (respondsOn id) = []) :
    Shows id msgs .start w :=
  ⟨[], [], h, rfl, nil_sublist _, .nil⟩

section
variable (h : Shows id msgs p w)
include h

theorem aside (hw' : ∀ f ∈ w', f.respondsOn id = false) : Shows id msgs p (w ++ w') := by
  have hnil : w'.filter (respondsOn id) = [] :=
    filter_eq_nil_iff.2 fun f hf => by simp [hw' f hf]
  obtain ⟨units, shown, hframes, hrest⟩ := h
  exact ⟨units, shown, by rw [filter_append, hnil, append_nil, hframes], hrest⟩

theorem mono {msgs' : List StreamMsg}
    (hsub : (msgs.filter isBlock).Sublist (msgs'.filter isBlock)) :
    Shows id msgs' p w := by
  obtain ⟨units, shown, hframes, hrun, hshown, hrenders⟩ := h
  exact ⟨units, shown, hframes, hrun, hshown.trans hsub, hrenders⟩

theorem append (more : List StreamMsg) : Shows id (msgs ++ more) p w :=
  h.mono (by rw [filter_append]; exact sublist_append_left _ _)

theorem unit {u : ResponseUnit} (hnext : p.next u = some p') (hblock : u.isBlock = false)
    (hw' : w'.filter (respondsOn id) = u.frames id) : Shows id msgs p' (w ++ w') := by
  obtain ⟨units, shown, hframes, hrun, hshown, hrenders⟩ := h
  refine ⟨units ++ [u], shown, ?_, foldlM_concat_eq_some hrun hnext, hshown, ?_⟩
  · rw [filter_append, hframes, hw', flatMap_append, flatMap_singleton]
  · rwa [filter_append, filter_singleton, hblock, cond_false, append_nil]

theorem block {u : ResponseUnit} (hnext : p.next u = some p') (hrender : msg.Renders u)
    (hmsg : msg.isBlock = true) (hblock : u.isBlock = true)
    (hw' : w'.filter (respondsOn id) = u.frames id) :
    Shows id (msgs ++ [msg]) p' (w ++ w') := by
  obtain ⟨units, shown, hframes, hrun, hshown, hrenders⟩ := h
  refine ⟨units ++ [u], shown ++ [msg], ?_, foldlM_concat_eq_some hrun hnext, ?_, ?_⟩
  · rw [filter_append, hframes, hw', flatMap_append, flatMap_singleton]
  · rw [filter_append, filter_singleton, hmsg]
    exact hshown.append_right [msg]
  · rw [filter_append, filter_singleton, hblock]
    exact rel_append hrenders (.cons hrender .nil)

theorem reset_of_mem {code : ℕ} (hmem : .reset id code ∈ w) : p = .reset := by
  obtain ⟨units, shown, hframes, hrun, -, -⟩ := h
  have hmem' : Frame.reset id code ∈ units.flatMap (frames id) := by
    rw [← hframes]
    exact mem_filter.2 ⟨hmem, decide_eq_true rfl⟩
  obtain ⟨u, hu, hmem'⟩ := mem_flatMap.1 hmem'
  have hblock : ∀ (b : FieldBlock) endStream, .reset id code ∉ b.frames id endStream := by
    rintro ⟨first, rest⟩ endStream
    cases rest with
    | none | some rest => simp [FieldBlock.frames]
  cases u with
  | interim b | final endStream b | trailers b => exact absurd hmem' (hblock b _)
  | data => simp [frames] at hmem'
  | reset code' => exact Progress.reset_of_mem hrun hu

/-- Control frames and frames of other streams add nothing but RST_STREAM. -/
theorem control (hw' : ∀ f ∈ w', f.isControl = true ∨ f.respondsOn id = false) :
    ∃ p', Shows id msgs p' (w ++ w') ∧ (p' = .reset ∨ p' = p ∧ ∀ code, .reset id code ∉ w') := by
  induction w' generalizing p w with
  | nil => exact ⟨p, by rwa [append_nil], .inr ⟨rfl, fun _ => not_mem_nil⟩⟩
  | cons f w' ih =>
    have hcontrol : ∀ g ∈ w', g.isControl = true ∨ g.respondsOn id = false := fun g hg =>
      hw' g (mem_cons_of_mem f hg)
    have hassoc : w ++ f :: w' = w ++ [f] ++ w' := by simp
    rw [hassoc]
    by_cases hf : ∃ code, f = .reset id code
    · obtain ⟨code, rfl⟩ := hf
      have hnext : p.next (.reset code) = some .reset := by cases p <;> rfl
      have hreset : Shows id msgs .reset (w ++ [.reset id code]) :=
        h.unit hnext rfl (by simp [respondsOn, frames])
      obtain ⟨p', hshows, hp'⟩ := ih hreset hcontrol
      exact ⟨p', hshows, .inl (hp'.elim (·) fun hp' => hp'.1)⟩
    · have hquiet : f.respondsOn id = false :=
        (hw' f mem_cons_self).elim
          (fun hc => Frame.respondsOn_of_control hc fun code heq => hf ⟨code, heq⟩) (·)
      obtain ⟨p', hshows, hp'⟩ := ih (h.aside fun g hg => mem_singleton.1 hg ▸ hquiet) hcontrol
      refine ⟨p', hshows, hp'.imp_right fun ⟨heq, hnot⟩ => ⟨heq, fun code hmem => ?_⟩⟩
      rcases mem_cons.1 hmem with rfl | hmem
      · exact hf ⟨code, rfl⟩
      · exact hnot code hmem

end

end Shows

/-! ### A stream and its response -/

/-- The entry of a stream agrees with what is on the wire and with the messages that have
been handled: how far they are, and whether the response has ended. -/
structure Linked (form : Phase) (p : Progress) (ended : Bool) (e : StreamEntry) : Prop where
  reset : p ≠ .reset
  complete : p = .complete ↔ e.localEnded = true
  start : form = .start → p = .start
  body : form = .body → p ≠ .start
  quiet : p = .start → e.pendingData = []
  pending : ended = true → e.localEnded = true ∨ e.pendingData.any Prod.snd = true

namespace Linked

variable {form : Phase} {p : Progress} {ended : Bool} {e e' : StreamEntry}

theorem of_entry (h : Linked form p ended e) (hended : e'.localEnded = e.localEnded)
    (hpending : e'.pendingData = e.pendingData) : Linked form p ended e' where
  reset := h.reset
  complete := hended ▸ h.complete
  start := h.start
  body := h.body
  quiet hp := hpending.trans (h.quiet hp)
  pending he := by
    rw [hended, hpending]
    exact h.pending he

theorem eq_body (h : Linked form p ended e) (hopen : e.localEnded = false) (hstart : p ≠ .start) :
    p = .body := by
  cases p with
  | start => exact absurd rfl hstart
  | body => rfl
  | complete => cases (h.complete.1 rfl).symm.trans hopen
  | reset => exact absurd rfl h.reset

/-- Something has been sent after the head, or the head itself: with END_STREAM or without. -/
theorem sent (hform : form ≠ .start) (fin : Bool) (hended : e.localEnded = fin)
    (hpending : ended = true → fin = true ∨ e.pendingData.any Prod.snd = true) :
    Linked form (if fin then .complete else .body) ended e := by
  cases fin with
  | true =>
    exact ⟨by decide, ⟨fun _ => hended, fun _ => rfl⟩, fun hf => absurd hf hform,
      fun _ => by decide, nofun, fun _ => .inl hended⟩
  | false =>
    exact ⟨by decide, ⟨nofun, fun hl => absurd (hended.symm.trans hl) (by decide)⟩,
      fun hf => absurd hf hform, fun _ => by decide, nofun, fun he => hended.symm ▸ hpending he⟩

theorem of_ended (h : Linked form p ended e) (hended : e.localEnded = true)
    (hstart : form' ≠ .start) (ended' : Bool) : Linked form' p ended' e := by
  obtain rfl := h.complete.2 hended
  exact .sent hstart true hended fun _ => .inl rfl

theorem open_of_start (h : Linked .start p ended e) :
    p = .start ∧ e.localEnded = false ∧ e.pendingData = [] ∧ ended = false := by
  obtain rfl := h.start rfl
  have hopen : e.localEnded = false := by
    refine eq_false_iff.2 fun hl => ?_
    cases h.complete.2 hl
  refine ⟨rfl, hopen, h.quiet rfl, eq_false_iff.2 fun hended => ?_⟩
  rcases h.pending hended with hl | hany
  · cases hopen.symm.trans hl
  · simp [h.quiet rfl] at hany

end Linked

/-- A task that has finished without END_STREAM is remembered. -/
def Unended (form : Phase) (e : StreamEntry) : Prop :=
  form = .done → e.taskDone = true ∧ e.localEnded = false

theorem Unended.of_ne (h : form ≠ .done) (e : StreamEntry) : Unended form e :=
  fun hdone => absurd hdone h

/-- The entry of a stream agrees with the messages that have been handled and with what is on
the wire. -/
structure Shown (id : ℕ) (handled : List StreamMsg) (form : Phase) (p : Progress) (w : List Frame)
    (e : StreamEntry) : Prop where
  formed : handled.foldlM Phase.follow .start = some form
  shows : Shows id handled p w
  linked : Linked form p (handled.any StreamMsg.ends) e
  unended : Unended form e

/-- Data is queued only for the body, and with its end if that has been handled. -/
theorem Shown.front {id : ℕ} {handled : List StreamMsg} {w : List Frame} {e : StreamEntry}
    {data : Octets} {fin : Bool} {rest : List (Octets × Bool)} (h : Shown id handled form p w e)
    (hopen : e.localEnded = false) (hfront : e.pendingData = (data, fin) :: rest) :
    p = .body ∧ form ≠ .start ∧
      (handled.any ends = true → fin = true ∨ rest.any Prod.snd = true) := by
  obtain rfl : p = .body := by
    refine h.linked.eq_body hopen fun hp => ?_
    rw [h.linked.quiet hp] at hfront
    cases hfront
  refine ⟨rfl, fun hf => absurd (h.linked.start hf) (by decide), fun hended => ?_⟩
  have hpending := h.linked.pending hended
  rw [hopen, hfront] at hpending
  simpa using hpending

namespace Connection

/-- What is on the wire is the response so far. `lost` says whether the stream may be given up
without END_STREAM and RST_STREAM. -/
def shape (id : ℕ) (lost : Prop) : Account where
  fresh w := w.filter (respondsOn id) = []
  live handled w e := ∃ form p, Shown id handled form p w e
  gone msgs w := ∃ p, Shows id msgs p w ∧ (p.closed = true ∨ lost)

/-- The stream is retired while a batch of its messages is handled. The head has been handled,
so that no field block follows. -/
def ClosedLate (id : ℕ) (handled : List StreamMsg) (w : List Frame) : Prop :=
  ∃ form p, handled.foldlM Phase.follow .start = some form ∧ form ≠ .start ∧ Shows id handled p w ∧
    p.closed = true

theorem shape_sends (id : ℕ) (lost : Prop) :
    Sends id { shape id lost with gone := ClosedLate id } where
  live_entry := by
    rintro handled w e e' ⟨form, p, h⟩ hended htask hpending
    refine ⟨form, p, h.formed, h.shows, h.linked.of_entry hended hpending, ?_⟩
    rw [Unended, htask, hended]
    exact h.unended
  sendPart := by
    rintro handled w e amount data fin rest ⟨form, p, h⟩ hopen hfront
    obtain ⟨rfl, hstart, hpending⟩ := h.front hopen hfront
    refine ⟨form, .body, h.formed, h.shows.unit (u := .data false (data.take amount)) rfl rfl ?_,
      .sent hstart false hopen fun hended => .inr ?_, h.unended⟩
    · simp [respondsOn, frames]
    · simpa using hpending hended
  sendAll := by
    rintro handled w e data fin rest ⟨form, p, h⟩ hopen hfront htask
    obtain ⟨rfl, hstart, hpending⟩ := h.front hopen hfront
    refine ⟨form, _, h.formed, h.shows.unit (u := .data fin data) rfl rfl ?_,
      .sent hstart fin rfl hpending, fun hdone => ?_⟩
    · simp [respondsOn, frames]
    · obtain ⟨hdone', -⟩ := h.unended hdone
      exact ⟨hdone', eq_false_iff.2 fun hfin => by simp [htask hfin] at hdone'⟩
  sendLast := by
    rintro handled w e data rest ⟨form, p, h⟩ hopen hfront -
    obtain ⟨rfl, hstart, -⟩ := h.front hopen hfront
    refine ⟨form, .complete, h.formed, hstart, h.shows.unit (u := .data true data) rfl rfl ?_, rfl⟩
    simp [respondsOn, frames]

/-- Messages that have the form of a response. -/
def Formed (msgs : List StreamMsg) : Prop := ∃ form, msgs.foldlM Phase.follow .start = some form

theorem Formed.left {msgs more : List StreamMsg} (h : Formed (msgs ++ more)) : Formed msgs := by
  obtain ⟨form, hform⟩ := h
  obtain ⟨form₁, hform₁, -⟩ := foldlM_append_eq_some.1 hform
  exact ⟨form₁, hform₁⟩

theorem shape_upholds (id : ℕ) (lost : Prop) : Upholds id lost Formed (shape id lost) where
  live_entry := (shape_sends id lost).live_entry
  sendPart := (shape_sends id lost).sendPart
  sendAll := (shape_sends id lost).sendAll
  sendLast h hopen hfront htask := by
    obtain ⟨-, p, -, -, hshows, hclosed⟩ := (shape_sends id lost).sendLast h hopen hfront htask
    exact ⟨p, hshows, .inl hclosed⟩
  ok_left := .left
  fresh_nil := rfl
  fresh_aside {w w'} h hw' := by
    have hfilter : w.filter (respondsOn id) = [] := h
    change (w ++ w').filter (respondsOn id) = []
    rw [filter_append, hfilter]
    exact filter_eq_nil_iff.2 fun f hf => by simp [hw' f hf]
  fresh_live h hfresh := by
    refine ⟨.start, .start, rfl, .nil _ h, ⟨by decide, ?_, fun _ => rfl, nofun,
      fun _ => hfresh.pendingData, nofun⟩, nofun⟩
    simp [hfresh.localEnded]
  fresh_gone h hw' hgiven := by
    obtain ⟨p, hshows, -⟩ := (Shows.nil [] h).control fun f hf => .inl (hw' f hf)
    refine ⟨p, hshows, hgiven.symm.imp_left fun ⟨code, hmem⟩ => ?_⟩
    exact hshows.reset_of_mem hmem ▸ rfl
  live_aside := fun ⟨form, p, h⟩ hw' => ⟨form, p, { h with shows := h.shows.aside hw' }⟩
  live_gone := by
    rintro handled w w' e ⟨form, p, h⟩ - hw' hgiven
    obtain ⟨p', hshows, hp'⟩ := h.shows.control fun f hf => .inl (hw' f hf)
    refine ⟨p', hshows.append e.msgs, ?_⟩
    rcases hgiven with hlost | hended | ⟨code, hmem⟩
    · exact .inr hlost
    · rcases hp' with rfl | ⟨rfl, -⟩
      · exact .inl rfl
      · exact .inl (h.linked.complete.2 hended ▸ rfl)
    · exact .inl (hshows.reset_of_mem hmem ▸ rfl)
  gone_aside := by
    rintro msgs w w' ⟨p, hshows, hclosed⟩ hw'
    obtain ⟨p', hshows', hp'⟩ := hshows.control hw'
    refine ⟨p', hshows', ?_⟩
    rcases hp' with rfl | ⟨rfl, -⟩
    · exact .inl rfl
    · exact hclosed
  gone_more {_ more _} := fun ⟨p, hshows, hclosed⟩ _ => ⟨p, hshows.append more, hclosed⟩

section Shapes
variable {id : ℕ} {lost : Prop} {msgs : List StreamMsg} {c c' : Connection}

/-! ### Draining a batch -/

/-- The stream while a batch of its messages is handled. It goes only once the head has been
handled, so that no field block follows. -/
inductive Drains (id : ℕ) (handled : List StreamMsg) (c : Connection) : Prop
  | live (e : StreamEntry) (form : Phase) (p : Progress) (he : c.entry id = some e)
      (hmsgs : e.msgs = []) (hform : handled.foldlM Phase.follow .start = some form)
      (hshows : Shows id handled p c.written)
      (hlinked : Linked form p (handled.any StreamMsg.ends) e) (hunended : Unended form e)
  | gone (form : Phase) (p : Progress) (hnone : c.entry id = none)
      (hform : handled.foldlM Phase.follow .start = some form) (hlate : form ≠ .start)
      (hshows : Shows id handled p c.written) (hclosed : p.closed = true)

theorem filter_writeFieldBlock (capacity id : ℕ) (endStream : Bool) (block : Octets) :
    (writeFieldBlock capacity id endStream block).filter (respondsOn id) =
      writeFieldBlock capacity id endStream block :=
  filter_eq_self.2 fun f hf =>
    (writeFieldBlock_respondsOn capacity id id endStream block f hf).trans (decide_eq_true rfl)

namespace Drains

variable {handled : List StreamMsg}

theorem fields {e' : StreamEntry} {p' : Progress} {endStream : Bool} {headers : List Header}
    (u : FieldBlock → ResponseUnit) (he' : c'.entry id = some e') (hw' : c'.written = c.written)
    (hmsgs' : e'.msgs = []) (hform' : (handled ++ [msg]).foldlM Phase.follow .start = some form')
    (hshows : Shows id handled p c.written) (hnext : ∀ b, p.next (u b) = some p')
    (hrender : ∀ b : FieldBlock, b.octets = (c'.encoder.encode headers).2 → msg.Renders (u b))
    (hmsg : msg.isBlock = true) (hblock : ∀ b, (u b).isBlock = true)
    (hframes : ∀ b, (u b).frames id = b.frames id endStream)
    (hlinked : Linked form' p' ((handled ++ [msg]).any ends) e')
    (hunended : Unended form' e') :
    Drains id (handled ++ [msg]) (c'.writeFields id endStream headers) := by
  obtain ⟨b, hb, hoctets⟩ := writeFieldBlock_eq c'.writerMaxFrameSize id endStream
    (c'.encoder.encode headers).2
  refine .live e' form' p' he' hmsgs' hform' ?_ hlinked hunended
  have hwritten : (c'.writeFields id endStream headers).written = c.written ++
      writeFieldBlock c'.writerMaxFrameSize id endStream (c'.encoder.encode headers).2 := by
    rw [← hw']
    rfl
  rw [hwritten]
  refine hshows.block (hnext b) (hrender b hoctets) hmsg (hblock b) ?_
  rw [filter_writeFieldBlock, hb, hframes]

theorem pumpStreamData {e : StreamEntry} (he : c.entry id = some e) (hmsgs : e.msgs = [])
    (hform : handled.foldlM Phase.follow .start = some form) (hshows : Shows id handled p c.written)
    (hlinked : Linked form p (handled.any ends) e) (hunended : Unended form e) :
    Drains id handled (c.pumpStreamData id) := by
  have hreached := (Pump.run_reached id c.peer.maxFrameSize e c.connWindow).1
  rw [Connection.pumpStreamData, he]
  rcases (shape_sends id False).settle ⟨form, p, hform, hshows, hlinked, hunended⟩ hreached with
    ⟨he', hmsgs', form', p', h⟩ | ⟨hnone, form', p', hform', hlate', hshows', hclosed⟩
  · exact .live _ form' p' he' (hmsgs'.trans hmsgs) h.formed h.shows h.linked h.unended
  · exact .gone form' p' hnone hform' hlate' hshows' hclosed

theorem reset {code : ℕ}
    (hform' : (handled ++ [StreamMsg.reset code]).foldlM Phase.follow .start = some form')
    (hlate : form' ≠ .start) (hshows : Shows id handled p c.written) :
    Drains id (handled ++ [.reset code]) ((c.write [.reset id code]).retire id) := by
  have hnext : p.next (.reset code) = some .reset := by cases p <;> rfl
  refine .gone form' .reset (entry_removeStream _ id) hform' hlate ?_ rfl
  refine Shows.unit (hshows.append [StreamMsg.reset code]) hnext rfl ?_
  simp [respondsOn, frames]

theorem handleGone (hnone : c.entry id = none)
    (hform' : (handled ++ [msg]).foldlM Phase.follow .start = some form')
    (hnext : form.follow msg = some form') (hlate : form ≠ .start)
    (hshows : Shows id handled p c.written) (hclosed : p.closed = true) :
    Drains id (handled ++ [msg]) (c.handleStreamMsg id msg) := by
  have hlate' : form' ≠ .start := by
    rintro rfl
    cases form <;> cases msg <;> first | exact hlate rfl | cases hnext
  have hignored : Drains id (handled ++ [msg]) c :=
    .gone form' p hnone hform' hlate' (hshows.append [msg]) hclosed
  cases msg with
  | informational | headers =>
    cases form with
    | start => exact absurd rfl hlate
    | _ => cases hnext
  | data | trailers | closed =>
    simp only [handleStreamMsg, hnone]
    exact hignored
  | reset errorCode => exact .reset hform' hlate' hshows

theorem handleStreamMsg (hform' : (handled ++ [msg]).foldlM Phase.follow .start = some form')
    (h : Drains id handled c) : Drains id (handled ++ [msg]) (c.handleStreamMsg id msg) := by
  have hnext : ∀ {form}, handled.foldlM Phase.follow .start = some form →
    form.follow msg = some form' := by
    intro form hform
    obtain ⟨form₁, hform₁, hstep⟩ := foldlM_append_eq_some.1 hform'
    obtain rfl := some.inj (hform.symm.trans hform₁)
    obtain ⟨form₂, hnext, hnil⟩ := foldlM_cons_eq_some.1 hstep
    exact hnext.trans hnil
  have hany : (handled ++ [msg]).any ends = (handled.any ends || msg.ends) := by
    rw [any_append, any_cons, any_nil, Bool.or_false]
  cases h with
  | gone form p hnone hform hlate hshows hclosed =>
    exact .handleGone hnone hform' (hnext hform) hlate hshows hclosed
  | live e form p he hmsgs hform hshows hlinked hunended =>
    replace hnext := hnext hform
    cases msg with
    | informational parts =>
      cases form with
      | start =>
        obtain rfl := some.inj hnext
        obtain ⟨rfl, -⟩ := hlinked.open_of_start
        refine .fields .interim he rfl hmsgs hform' hshows (fun _ => rfl) (fun b hb => ⟨_, hb⟩) rfl
          (fun _ => rfl) (fun _ => rfl) ?_ (.of_ne (by decide) _)
        exact (hany.trans (or_false _)).symm ▸ hlinked
      | _ => cases hnext
    | headers parts endStream =>
      cases form with
      | start =>
        obtain rfl := some.inj hnext
        obtain ⟨rfl, hopen, hempty, hended⟩ := hlinked.open_of_start
        simp only [Connection.handleStreamMsg, he, hopen, false_eq_true, if_false]
        refine .fields (.final endStream) (entry_setEntry c id _) rfl hmsgs hform' hshows
          (fun _ => rfl) (fun b hb => ⟨rfl, _, hb⟩) rfl (fun _ => rfl) (fun _ => rfl) ?_
            (.of_ne (by decide) _)
        refine .sent (by decide) endStream rfl fun hends => ?_
        rw [hany, hended] at hends
        exact .inl hends
      | _ => cases hnext
    | data data endStream =>
      cases form with
      | body =>
        obtain rfl := some.inj hnext
        simp only [Connection.handleStreamMsg, he]
        split
        · rename_i hended
          exact .live e .body p he hmsgs hform' (hshows.append _)
            (hlinked.of_ended hended (by decide) _) (.of_ne (by decide) _)
        have hstart := hlinked.body rfl
        refine .pumpStreamData (entry_setEntry c id _) hmsgs hform' (hshows.append _)
          ⟨hlinked.reset, hlinked.complete, by simp, fun _ => hstart,
            fun hp => absurd hp hstart, ?_⟩
          (.of_ne (by decide) _)
        intro hends
        rw [hany, or_eq_true] at hends
        rw [any_append, or_eq_true]
        rcases hends with hends | hends
        · exact (hlinked.pending hends).imp_right .inl
        · exact .inr (.inr ((Bool.or_false endStream).trans hends))
      | _ => cases hnext
    | trailers trailers =>
      cases form with
      | body =>
        obtain rfl := some.inj hnext
        simp only [Connection.handleStreamMsg, he]
        split
        · rename_i hended
          exact .live e .ended p he hmsgs hform' (hshows.append _)
            (hlinked.of_ended hended (by decide) _) (.of_ne (by decide) _)
        rename_i hended
        obtain rfl := hlinked.eq_body (eq_false_iff.2 hended) (hlinked.body rfl)
        exact .fields .trailers (entry_setEntry c id _) rfl hmsgs hform' hshows (fun _ => rfl)
          (fun b hb => ⟨_, hb⟩) rfl (fun _ => rfl) (fun _ => rfl)
          (.sent (by decide) true rfl fun _ => .inl rfl) (.of_ne (by decide) _)
      | _ => cases hnext
    | reset errorCode =>
      refine .reset hform' ?_ hshows
      rintro rfl
      cases form <;> cases hnext
    | closed =>
      obtain rfl : form' = .done := by cases form <;> cases hnext <;> rfl
      simp only [Connection.handleStreamMsg, he]
      split
      · rename_i hended
        exact .gone .done p (entry_removeStream _ id) hform' (by decide) (hshows.append _)
          (hlinked.complete.2 hended ▸ rfl)
      rename_i hended
      refine .live _ .done p (entry_setEntry c id _) hmsgs hform' (hshows.append _)
        ⟨hlinked.reset, hlinked.complete, by simp, by simp, hlinked.quiet, ?_⟩
        fun _ => ⟨rfl, eq_false_iff.2 hended⟩
      exact (hany.trans (or_false _)).symm ▸ hlinked.pending

theorem foldl {batch : List StreamMsg} (h : Drains id handled c)
    (hform' : (handled ++ batch).foldlM Phase.follow .start = some form') :
    Drains id (handled ++ batch) (batch.foldl (fun c msg => c.handleStreamMsg id msg) c) := by
  induction batch generalizing handled c with
  | nil => rwa [append_nil]
  | cons msg batch ih =>
    have hassoc : handled ++ msg :: batch = handled ++ [msg] ++ batch := by simp
    rw [hassoc] at hform' ⊢
    obtain ⟨form, hform, -⟩ := foldlM_append_eq_some.1 hform'
    exact ih (h.handleStreamMsg hform) hform'

end Drains

theorem shape_drain (h : Stage id (shape id lost) msgs c) (ht : Tidy c) (hok : Formed msgs) :
    Stage id (shape id lost) msgs (c.drainStream id) := by
  refine h.drain fun e handled c' he hmsgs hlive hhigh hc' => ?_
  obtain ⟨form', hform'⟩ := hok
  obtain ⟨form, p, hform, hshows, hlinked, hunended⟩ := hlive
  subst hmsgs
  -- merging end markers changes the messages, not the response
  have hmerged : (handled ++ mergeEnd e.msgs).foldlM Phase.follow .start = some form' := by
    obtain ⟨form₁, hform₁, hrest⟩ := foldlM_append_eq_some.1 hform'
    exact foldlM_append_eq_some.2 ⟨form₁, hform₁, foldlM_mergeEnd Phase.follow_ends e.msgs hrest⟩
  have hblocks : ((handled ++ mergeEnd e.msgs).filter isBlock) =
      (handled ++ e.msgs).filter isBlock := by
    rw [filter_append, filter_append, filter_isBlock_mergeEnd]
  have hends : (handled ++ mergeEnd e.msgs).any ends = (handled ++ e.msgs).any ends := by
    rw [any_append, any_append, any_ends_mergeEnd]
  have hstart : Drains id handled (c.setEntry id { e with msgs := [] }) :=
    .live _ form p (entry_setEntry c id _) rfl hform hshows (hlinked.of_entry rfl rfl) hunended
  cases hc' ▸ hstart.foldl hmerged with
  | live e' form₁ p' he' hmsgs' hform₁ hshows' hlinked' hunended' =>
    obtain rfl := some.inj (hmerged.symm.trans hform₁)
    exact .live e' (handled ++ e.msgs) he' (by rw [hmsgs', append_nil]) ⟨form', p', hform',
      hshows'.mono (by rw [hblocks]), hends ▸ hlinked', hunended'⟩
  | gone form₁ p' hnone hform₁ hlate hshows' hclosed =>
    exact .gone hnone (hhigh ▸ ht.bounded id e he) ⟨p', hshows'.mono (by rw [hblocks]),
      .inl hclosed⟩

theorem shape_tracks (id : ℕ) (lost : Prop) :
    Tracks id lost Formed (fun _ => True) (shape id lost) :=
  { shape_upholds id lost with drain := fun h ht hok _ => shape_drain h ht hok }

end Shapes

/-- For messages of the given form the frames of a stream are interim blocks, a final block,
DATA and at most one block of trailers, each block in one piece and that of a message, in
order. END_STREAM comes at most once. After it, or after a RST_STREAM, there is nothing but
RST_STREAM. -/
theorem run_response_shape (http : HttpCrate) (opts : ConnectionOptions) (id : ℕ)
    (events : List Event)
    (hform : ((produced http id events (start opts)).foldlM Phase.follow .start).isSome = true) :
    ∃ (units : List ResponseUnit) (shown : List StreamMsg) (p : Progress),
      (run http events (start opts)).written.filter (respondsOn id) =
        units.flatMap (frames id) ∧
      units.foldlM Progress.next .start = some p ∧
      shown.Sublist ((produced http id events (start opts)).filter StreamMsg.isBlock) ∧
      List.Forall₂ StreamMsg.Renders shown (units.filter ResponseUnit.isBlock) ∧
      units.countP ResponseUnit.endsStream ≤ 1 ∧
      ∀ before u after, units = before ++ u :: after →
        u.endsStream = true ∨ u.isReset = true → ∀ v ∈ after, v.isReset = true := by
  obtain ⟨form, hform⟩ := Option.isSome_iff_exists.1 hform
  have hstage : Stage id (shape id True) (produced http id events (start opts))
      (run http events (start opts)) :=
    (shape_tracks id True).run http opts (.of_mem (fun _ _ _ => ⟨fun _ _ => trivial,
      fun _ _ _ => trivial, fun _ => trivial⟩) _) ⟨form, hform⟩
  have hshows : ∃ p, Shows id (produced http id events (start opts)) p
      (run http events (start opts)).written := by
    cases hstage with
    | waiting _ _ _ hfilter => exact ⟨.start, .nil _ hfilter⟩
    | live e handled he hmsgs h =>
      obtain ⟨form, p, h⟩ := h
      exact ⟨p, hmsgs ▸ h.shows.append e.msgs⟩
    | gone hnone hle h =>
      obtain ⟨p, hshows, -⟩ := h
      exact ⟨p, hshows⟩
  obtain ⟨p, units, shown, hframes, hrun, hshown, hrenders⟩ := hshows
  refine ⟨units, shown, p, hframes, hrun, hshown, hrenders, Progress.countP_endsStream_le hrun, ?_⟩
  rintro before u after rfl hu v hv
  exact (Progress.reset_follows hrun hu v hv).1

/-- An interim response, a response in two chunks and a trailer. -/
def interimResponse : List Event :=
  [.frame [] (.headers 1 true true none [0x82, 0x86, 0x84]),
    .task 1 (.send (.informational ⟨103, []⟩)), .task 1 (.send (.headers ⟨200, []⟩ false)),
    .drainStream 1, .task 1 (.send (.data [0x61] false)), .task 1 (.send (.data [0x62] false)),
    .task 1 (.send (.trailers [⟨[0x61], [0x62]⟩])), .task 1 (.send .closed), .drainStream 1]

theorem run_response_shape_interim :
    let c := run .permissive interimResponse (start .default)
    c.entry 1 = none ∧ (c.written.filter (respondsOn 1)).length = 5 ∧
      ∃ (units : List ResponseUnit) (p : Progress),
        c.written.filter (respondsOn 1) = units.flatMap (frames 1) ∧
          units.foldlM Progress.next .start = some p ∧
          units.countP ResponseUnit.endsStream ≤ 1 := by
  intro c
  obtain ⟨units, -, p, hframes, hrun, -, -, hends, -⟩ :=
    run_response_shape .permissive .default 1 interimResponse (by decide +kernel)
  have hrest : c.entry 1 = none ∧ (c.written.filter (respondsOn 1)).length = 5 := by
    decide +kernel
  exact ⟨hrest.1, hrest.2, units, p, hframes, hrun, hends⟩

theorem written_head (http : HttpCrate) {c : Connection} {id : ℕ} {e : StreamEntry} (parts : Parts)
    (endStream : Bool) (hspawned : c.spawned id = true) (hidle : c.idle = true)
    (he : c.entry id = some e) (hmsgs : e.msgs = []) (hpending : e.pendingData = [])
    (hopen : e.localEnded = false) :
    (run http [.task id (.send (.headers parts endStream)), .drainStream id] c).written =
      c.written ++ writeFieldBlock c.writerMaxFrameSize id endStream
        (c.encoder.encode (responseFields parts)).2 := by
  have htask : step http c (.task id (.send (.headers parts endStream))) =
      c.setEntry id { e with msgs := [.headers parts endStream] } := by
    rw [step, onTask_some hspawned he, StreamEntry.onTask, hmsgs]
    rfl
  have hidle' : (c.setEntry id { e with msgs := [.headers parts endStream] }).idle = true := hidle
  rw [run, foldl_cons, htask, foldl_cons, foldl_nil, step, if_pos hidle', drainStream,
    entry_setEntry]
  simp only [hpending, isEmpty_nil, if_true, mergeEnd, foldl_cons, foldl_nil,
    handleStreamMsg, entry_setEntry, hopen, false_eq_true, if_false]
  rfl

/-- A response head with more fields than one frame holds octets. -/
def longHead : Parts := ⟨200, replicate 16385 ⟨[0x61], []⟩⟩

theorem length_longHead : 16384 < (responseFields longHead).length := by
  rw [responseFields, longHead]
  simp only [length_cons]
  rw [filter_replicate, if_pos (by decide), length_replicate]
  decide

/-- The CONTINUATION frames of a field block follow the HEADERS frame that has END_STREAM. -/
theorem run_continuation_follows :
    let events := [.frame [] (.headers 1 true true none [0x82, 0x86, 0x84]),
      .task 1 (.send (.headers longHead true)), .drainStream 1]
    ((produced .permissive 1 events (start .default)).foldlM Phase.follow .start).isSome = true ∧
      ∃ before first endHeaders second after, (run .permissive events (start .default)).written =
          before ++ .headers 1 true false none first :: .continuation 1 endHeaders second ::
            after := by
  intro events
  refine ⟨by decide +kernel, ?_⟩
  let c := run .permissive [.frame [] (.headers 1 true true none [0x82, 0x86, 0x84])]
    (start .default)
  have hc : c.spawned 1 = true ∧ c.idle = true ∧ c.writerMaxFrameSize = 16384 ∧
      (c.entry 1).any (fun e => e.msgs.isEmpty && e.pendingData.isEmpty && !e.localEnded) =
        true := by
    decide +kernel
  obtain ⟨hspawned, hidle, hsize, hentry⟩ := hc
  obtain ⟨e, he, hfresh⟩ := (Option.any_eq_true _ _).1 hentry
  simp only [and_eq_true, List.isEmpty_iff, not_eq_true'] at hfresh
  obtain ⟨⟨hmsgs, hpending⟩, hopen⟩ := hfresh
  have hwritten := written_head .permissive longHead true hspawned hidle he hmsgs hpending hopen
  have hlong := length_longHead.trans_le (c.encoder.length_le_encode (responseFields longHead))
  rw [hsize, writeFieldBlock, if_neg (not_le.2 hlong)] at hwritten
  obtain ⟨middle, last, hcont, -⟩ := writeContinuations_eq 16384 1 _ ((c.encoder.encode
    (responseFields longHead)).2.drop 16384)
  rw [hcont] at hwritten
  cases middle with
  | nil | cons piece middle => exact ⟨_, _, _, _, _, hwritten⟩

end Connection

end ZincioHttp.H2
