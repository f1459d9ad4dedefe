import ZincioHttp.H3.Requests

/-! What a poll of a request stream can do to the shared codecs and to the marks that
the stream keeps of them: nothing, note the end of the stream, hand a section to the
decoder, or take one that the control plane has released. -/

namespace ZincioHttp.H3

open Qpack Lib RequestStream SharedCodecs Reader Bool

/-- How far the stream is with its field sections. -/
structure Marks where
  streamId : ℕ
  awaiting : Bool
  headersBlocked : Bool
  trailersBlocked : Bool
  finished : Bool
  sections : ℕ

namespace Marks

def blocked (m : Marks) : Bool := m.headersBlocked || m.trailersBlocked

/-- One section at a time: the headers are waited for before the trailers, and the
end comes after both. -/
structure Sane (m : Marks) : Prop where
  finished : m.finished → m.awaiting = false ∧ m.blocked = false
  headers : m.headersBlocked → m.awaiting
  trailers : m.trailersBlocked → m.awaiting = false
  fresh : m.sections = 0 → m.blocked = false ∧ (m.awaiting ∨ m.finished)

theorem Sane.of_awaiting {m : Marks} (h : m.Sane) (ha : m.awaiting) :
    m.trailersBlocked = false ∧ m.finished = false := by
  constructor
  · by_contra hne
    rw [h.trailers (by simpa using hne)] at ha
    cases ha
  · by_contra hne
    rw [(h.finished (by simpa using hne)).1] at ha
    cases ha

end Marks

namespace RequestStream

def marks (rs : RequestStream) : Marks :=
  ⟨rs.streamId, rs.awaitingHeaders, rs.headersBlocked, rs.trailersBlocked, rs.recvFinished,
    rs.sections⟩

theorem sane_new (streamId : ℕ) (shared : SharedCodecs) : (new streamId shared).marks.Sane := by
  constructor <;> simp [marks, new, Marks.blocked]

/-- Reading a frame moves nothing but the frame decoder and notes the end. -/
theorem pollFrame_ok (inbox : List Recv) : ∀ {rs rs' : RequestStream} {inbox' : List Recv}
    {result : Option (Except StreamError (Option Frame))},
    pollFrame inbox rs = (rs', inbox', result) →
      (result = some (.ok none) ∧ ∃ decoder,
        rs' = { rs with frameDecoder := decoder, recvFinished := true }) ∨
      (result ≠ some (.ok none) ∧ ∃ decoder, rs' = { rs with frameDecoder := decoder }) := by
  induction inbox with
  | nil =>
    intro rs rs' inbox' result h
    rw [pollFrame] at h
    split_ifs at h
    · cases h
      exact .inr ⟨by simp, _, rfl⟩
    · split at h <;> cases h <;> exact .inr ⟨by simp, _, rfl⟩
  | cons item inbox ih =>
    intro rs rs' inbox' result h
    rw [pollFrame] at h
    split_ifs at h
    · cases h
      exact .inr ⟨by simp, _, rfl⟩
    · split at h
      case h_3 =>
        cases item with
        | chunk data =>
          rcases ih h with ⟨hend, decoder, rfl⟩ | ⟨hend, decoder, rfl⟩
          · exact .inl ⟨hend, decoder, rfl⟩
          · exact .inr ⟨hend, decoder, rfl⟩
        | failed err =>
          cases h
          exact .inr ⟨by simp, _, rfl⟩
        | finished =>
          split_ifs at h
          · cases h
            exact .inr ⟨by simp, _, rfl⟩
          · cases h
            exact .inl ⟨rfl, _, rfl⟩
      all_goals
        cases h
        exact .inr ⟨by simp, _, rfl⟩

end RequestStream

variable {block : Octets} {now : ℕ} {headers : Option (List Field)}

namespace SharedCodecs

variable {sh sh' : SharedCodecs} {s : ℕ}

theorem decodeBlock_ok (h : sh.decodeBlock block s now = .ok (sh', headers)) :
    ∃ d, sh.decoder.decodeBlock block s now = .ok (d, headers) ∧
      sh' = { sh with decoder := d } := by
  rw [decodeBlock] at h
  split at h
  · cases h
  · next d headers' hdecode =>
    cases h
    exact ⟨d, hdecode, rfl⟩

theorem takeUnblocked_ok {released : UnblockedSection}
    (h : sh.takeUnblocked s = some (sh', released)) :
    ∃ rest, sh.unblocked s = released :: rest ∧
      sh' = { sh with unblocked := Function.update sh.unblocked s rest } := by
  rw [takeUnblocked] at h
  split at h
  · cases h
  · next u rest hrest =>
    obtain ⟨rfl, rfl⟩ := h
    exact ⟨rest, hrest, rfl⟩

end SharedCodecs

namespace Reader

variable {r r' r₁ : Reader} {result : Option (Except StreamError (Option Frame))} {frame : Frame}
  {http : HttpCrate}

theorem pollFrame_ok (h : r.pollFrame = (r', result)) : r'.shared = r.shared ∧
      ((result = some (.ok none) ∧ r'.stream.marks = { r.stream.marks with finished := true }) ∨
        (result ≠ some (.ok none) ∧ r'.stream.marks = r.stream.marks)) := by
  rw [pollFrame] at h
  cases hpoll : RequestStream.pollFrame r.inbox r.stream with
  | mk stream x =>
    rw [hpoll] at h
    cases h
    refine ⟨rfl, ?_⟩
    rcases RequestStream.pollFrame_ok _ hpoll with ⟨hend, decoder, rfl⟩ | ⟨hend, decoder, rfl⟩
    · exact .inl ⟨hend, rfl⟩
    · exact .inr ⟨hend, rfl⟩

/-- What a poll can do. -/
inductive Touches (r r' : Reader) : Prop
  | quiet (hshared : r'.shared = r.shared) (hmarks : r'.stream.marks = r.stream.marks)
  | finished (hshared : r'.shared = r.shared.streamFinished r.stream.streamId)
      (hblocked : r.stream.marks.blocked = false)
      (hmarks : r'.stream.marks = { r.stream.marks with awaiting := false, finished := true })
  | decoded {block : Octets} {now : ℕ} {headers : List Field} {awaiting : Bool}
      (hdecode : r.shared.decodeBlock block r.stream.streamId now = .ok (r'.shared, some headers))
      (hblocked : r.stream.marks.blocked = false) (hfinished : r.stream.recvFinished = false)
      (hawaiting : awaiting → r.stream.awaitingHeaders)
      (hmarks : r'.stream.marks = { r.stream.marks with
        awaiting := awaiting, sections := r.stream.sections + 1 })
  | blocked {block : Octets} {now : ℕ}
      (hdecode : r.shared.decodeBlock block r.stream.streamId now = .ok (r'.shared, none))
      (hblocked : r.stream.marks.blocked = false) (hfinished : r.stream.recvFinished = false)
      (hmarks : r'.stream.marks = { r.stream.marks with
        headersBlocked := r.stream.awaitingHeaders
        trailersBlocked := !r.stream.awaitingHeaders
        sections := r.stream.sections + 1 })
  | took {released : UnblockedSection}
      (htake : r.shared.takeUnblocked r.stream.streamId = some (r'.shared, released))
      (hblocked : r.stream.marks.blocked)
      (hmarks : r'.stream.marks = { r.stream.marks with
        awaiting := false, headersBlocked := false, trailersBlocked := false })

theorem decodeBlock_ok (h : r.decodeBlock block now = .ok (r', headers)) :
    r.shared.decodeBlock block r.stream.streamId now = .ok (r'.shared, headers) ∧
      r'.stream = { r.stream with sections := r.stream.sections + 1 } := by
  rw [decodeBlock] at h
  split at h
  · cases h
  · next hdecode =>
    cases h
    exact ⟨hdecode, rfl⟩

theorem Touches.ofFrame (h : r.pollFrame = (r', result)) (hresult : result ≠ some (.ok none)) :
    Touches r r' := by
  obtain ⟨hshared, ⟨hend, -⟩ | ⟨-, hmarks⟩⟩ := pollFrame_ok h
  · exact absurd hend hresult
  · exact .quiet hshared hmarks

theorem Touches.ofEnd (h : r.pollFrame = (r₁, some (.ok none)))
    (hblocked : r.stream.marks.blocked = false) :
    Touches r { r₁ with stream := { r₁.stream with awaitingHeaders := false } }.finishRecv := by
  obtain ⟨hshared, ⟨-, hmarks⟩ | ⟨hend, -⟩⟩ := pollFrame_ok h
  · have hid : r₁.stream.streamId = r.stream.streamId := congrArg Marks.streamId hmarks
    refine .finished ?_ hblocked ?_
    · show r₁.shared.streamFinished r₁.stream.streamId = _
      rw [hshared, hid]
    · show { r₁.stream.marks with awaiting := false, finished := true } = _
      rw [hmarks]
  · exact absurd rfl hend

/-- A stream that is past its headers is not waiting for them at its end either. -/
theorem finishRecv_eq (h : r.pollFrame = (r₁, some (.ok none)))
    (hawaiting : r.stream.awaitingHeaders = false) :
    r₁.finishRecv =
      { r₁ with stream := { r₁.stream with awaitingHeaders := false } }.finishRecv := by
  obtain ⟨-, ⟨-, hmarks⟩ | ⟨hend, -⟩⟩ := pollFrame_ok h
  · have heq : r₁.stream.awaitingHeaders = false := (congrArg Marks.awaiting hmarks).trans hawaiting
    rw [finishRecv, finishRecv, ← heq]
  · exact absurd rfl hend

section
variable (h : r.pollFrame = (r₁, some (.ok (some frame))))
include h

theorem decode_of_frame {r₂ : Reader} (hdecode : r₁.decodeBlock block now = .ok (r₂, headers)) :
    r.shared.decodeBlock block r.stream.streamId now = .ok (r₂.shared, headers) ∧
      r₂.stream.marks = { r.stream.marks with sections := r.stream.sections + 1 } := by
  obtain ⟨hshared, ⟨hend, -⟩ | ⟨-, hmarks⟩⟩ := pollFrame_ok h
  · cases hend
  obtain ⟨hcodec, hstream⟩ := decodeBlock_ok hdecode
  have hid : r₁.stream.streamId = r.stream.streamId := congrArg Marks.streamId hmarks
  refine ⟨by rw [← hshared, ← hid, hcodec], ?_⟩
  rw [hstream]
  show { r₁.stream.marks with sections := r₁.stream.marks.sections + 1 } = _
  rw [hmarks]
  rfl

/-- The section of the trailers is decoded at once, or blocked. -/
theorem Touches.ofTrailers {r₂ : Reader} {headers : List Field}
    (hdecode : r₁.decodeBlock block now = .ok (r₂, some headers))
    (hfree : r.stream.marks.blocked = false) (hrunning : r.stream.recvFinished = false)
    (hawaiting : r.stream.awaitingHeaders = false) (hshared : r'.shared = r₂.shared)
    (hmarks : r'.stream.marks = r₂.stream.marks) : Touches r r' := by
  obtain ⟨hcodec, hmarks'⟩ := decode_of_frame h hdecode
  refine .decoded (hshared ▸ hcodec) hfree hrunning (show false = true → _ from nofun) ?_
  rw [hmarks, hmarks', ← hawaiting]
  rfl

theorem Touches.ofBlockedTrailers {r₂ : Reader}
    (hdecode : r₁.decodeBlock block now = .ok (r₂, none)) (hfree : r.stream.marks.blocked = false)
    (hrunning : r.stream.recvFinished = false) (hawaiting : r.stream.awaitingHeaders = false) :
    Touches r { r₂ with stream := { r₂.stream with trailersBlocked := true } } := by
  obtain ⟨hcodec, hmarks⟩ := decode_of_frame h hdecode
  refine .blocked hcodec hfree hrunning ?_
  show { r₂.stream.marks with trailersBlocked := true } = _
  rw [Marks.blocked, or_eq_false_iff] at hfree
  rw [hmarks, hawaiting, Bool.not_false, ← hfree.1]

end

theorem pollAfterTrailers_touches {α : Type} {result : Polled (Option α)}
    (hblocked : r.stream.marks.blocked = false) (hawaiting : r.stream.awaitingHeaders = false)
    (h : r.pollAfterTrailers = (r', result)) : Touches r r' := by
  unfold pollAfterTrailers at h
  split at h <;> rename_i hframe <;> cases h
  case h_3 =>
    rw [finishRecv_eq hframe hawaiting]
    exact .ofEnd hframe hblocked
  all_goals exact .ofFrame hframe (by simp)

theorem pollHeaders_touches {result : Polled (Option Request)} (hsane : r.stream.marks.Sane)
    (h : r.pollHeaders http now = (r', result)) : Touches r r' := by
  unfold pollHeaders at h
  split at h
  · rename_i hblocked
    have hfree : r.stream.trailersBlocked = false := (hsane.of_awaiting (hsane.headers hblocked)).1
    split at h
    · next shared released htake =>
      cases h
      refine .took htake (by simp [Marks.blocked, marks, hblocked]) ?_
      simp [marks, hfree]
    · cases h
      exact .quiet rfl rfl
  rename_i hblocked
  by_cases hawaiting : r.stream.awaitingHeaders
  · rw [if_neg (by simp [hawaiting])] at h
    obtain ⟨htrailers, hrunning⟩ := hsane.of_awaiting hawaiting
    have hheaders : r.stream.marks.headersBlocked = false := by
      simpa [marks] using hblocked
    have hfree : r.stream.marks.blocked = false := by rw [Marks.blocked, hheaders, htrailers]; rfl
    split at h <;> rename_i hframe
    case h_3 =>
      cases h
      exact .ofEnd hframe hfree
    case h_4 =>
      split at h
      · cases h
        exact .ofFrame hframe (by simp)
      · next r₂ hdecode =>
        cases h
        obtain ⟨hcodec, hmarks⟩ := decode_of_frame hframe hdecode
        refine .blocked hcodec hfree hrunning ?_
        show { r₂.stream.marks with headersBlocked := true } = _
        rw [hmarks, hawaiting, Bool.not_true, ← htrailers]
      · next r₂ headers hdecode =>
        obtain ⟨hcodec, hmarks⟩ := decode_of_frame hframe hdecode
        split at h
        · cases h
          refine .decoded hcodec hfree hrunning (show true = true → _ from fun _ => hawaiting) ?_
          rw [hmarks, ← hawaiting]
          rfl
        · cases h
          refine .decoded hcodec hfree hrunning (show false = true → _ from nofun) ?_
          show { r₂.stream.marks with awaiting := false } = _
          rw [hmarks]
    all_goals
      cases h
      exact .ofFrame hframe (by simp)
  · rw [if_pos (by simp [hawaiting])] at h
    cases h
    exact .quiet rfl rfl

theorem pollRecvData_touches {result : Polled (Option Octets)}
    (h : r.pollRecvData now = (r', result)) : Touches r r' := by
  unfold pollRecvData at h
  split at h
  · cases h
    exact .quiet rfl rfl
  split at h
  · cases h
    exact .quiet rfl rfl
  rename_i hrunning
  split at h
  · cases h
    exact .quiet rfl rfl
  rename_i hearly
  simp only [not_eq_true, or_eq_false_iff] at hrunning hearly
  obtain ⟨⟨hawaiting, hheaders⟩, htrailers⟩ := hearly
  have hfree : r.stream.marks.blocked = false := by
    simp [Marks.blocked, marks, hheaders, htrailers]
  split_ifs at h
  · exact pollAfterTrailers_touches hfree hawaiting h
  split at h <;> rename_i hframe
  case h_3 =>
    cases h
    rw [finishRecv_eq hframe hawaiting]
    exact .ofEnd hframe hfree
  case h_5 =>
    split at h
    · cases h
      exact .ofFrame hframe (by simp)
    · next r₂ headers hdecode =>
      cases h
      exact .ofTrailers hframe hdecode hfree hrunning hawaiting rfl rfl
    · next r₂ hdecode =>
      cases h
      exact .ofBlockedTrailers hframe hdecode hfree hrunning hawaiting
  all_goals
    cases h
    exact .ofFrame hframe (by simp)

theorem pollRecvTrailers_touches {result : Polled (Option (List Field))}
    (hsane : r.stream.marks.Sane) (h : r.pollRecvTrailers http now = (r', result)) :
    Touches r r' := by
  unfold pollRecvTrailers at h
  split at h
  · cases h
    exact .quiet rfl rfl
  split at h
  · rename_i hblocked
    have hawaiting : r.stream.awaitingHeaders = false := hsane.trailers hblocked
    have hheaders : r.stream.headersBlocked = false := by
      by_contra hne
      have hawaits : r.stream.awaitingHeaders := hsane.headers (by simpa [marks] using hne)
      rw [hawaiting] at hawaits
      cases hawaits
    split at h
    · next shared released htake =>
      cases h
      refine .took htake (by simp [Marks.blocked, marks, hblocked]) ?_
      simp [marks, hheaders, hawaiting]
    · cases h
      exact .quiet rfl rfl
  rename_i hblocked
  split at h
  · cases h
    exact .quiet rfl rfl
  rename_i hrunning
  split at h
  · cases h
    exact .quiet rfl rfl
  rename_i hearly
  simp only [not_eq_true, or_eq_false_iff] at hblocked hrunning hearly
  obtain ⟨hawaiting, hheaders⟩ := hearly
  have hfree : r.stream.marks.blocked = false := by
    simp [Marks.blocked, marks, hheaders, hblocked]
  split_ifs at h
  · exact pollAfterTrailers_touches hfree hawaiting h
  split at h <;> rename_i hframe
  case h_3 =>
    cases h
    rw [finishRecv_eq hframe hawaiting]
    exact .ofEnd hframe hfree
  case h_4 =>
    split at h
    · cases h
      exact .ofFrame hframe (by simp)
    · next r₂ headers hdecode =>
      cases h
      exact .ofTrailers hframe hdecode hfree hrunning hawaiting rfl rfl
    · next r₂ hdecode =>
      cases h
      exact .ofBlockedTrailers hframe hdecode hfree hrunning hawaiting
  all_goals
    cases h
    exact .ofFrame hframe (by simp)

theorem Touches.id_eq (h : Touches r r') : r'.stream.streamId = r.stream.streamId := by
  cases h with
  | quiet _ hmarks | finished _ _ hmarks | decoded _ _ _ _ hmarks | blocked _ _ _ hmarks
  | took _ _ hmarks => exact congrArg Marks.streamId hmarks

theorem Touches.sane (h : Touches r r') (hsane : r.stream.marks.Sane) : r'.stream.marks.Sane := by
  cases h with
  | quiet _ hmarks => rwa [hmarks]
  | finished _ hblocked hmarks =>
    constructor <;> simp_all [Marks.blocked]
  | decoded _ hblocked hfinished _ hmarks =>
    rw [Marks.blocked] at hblocked
    constructor <;> simp_all [marks]
  | blocked _ hblocked hfinished hmarks =>
    constructor <;> simp_all [marks]
  | took _ hblocked hmarks =>
    rw [hmarks]
    refine ⟨by simp [Marks.blocked], by simp, by simp, fun hzero => ?_⟩
    -- a stream that waits for a section has given one to the decoder
    rw [(hsane.fresh hzero).1] at hblocked
    cases hblocked

/-- A poll takes sections of its own stream at most, and leaves no waker. -/
theorem Touches.shared_frame (h : Touches r r') : r'.shared.waiters = r.shared.waiters ∧
      (∀ s, s ≠ r.stream.streamId → r'.shared.unblocked s = r.shared.unblocked s) ∧
      r'.shared.unblocked r.stream.streamId <:+ r.shared.unblocked r.stream.streamId := by
  have hdecode : ∀ {block : Octets} {now : ℕ} {headers : Option (List Field)},
      r.shared.decodeBlock block r.stream.streamId now = .ok (r'.shared, headers) →
      r'.shared.waiters = r.shared.waiters ∧ r'.shared.unblocked = r.shared.unblocked := by
    intro block now headers h
    obtain ⟨d, -, hshared⟩ := SharedCodecs.decodeBlock_ok h
    rw [hshared]
    exact ⟨rfl, rfl⟩
  cases h with
  | quiet hshared _ => simp [hshared]
  | finished hshared _ _ =>
    rw [hshared]
    exact ⟨rfl, fun _ _ => rfl, List.suffix_refl _⟩
  | decoded h _ _ _ _ | blocked h _ _ _ =>
    obtain ⟨hwaiters, hunblocked⟩ := hdecode h
    simp [hwaiters, hunblocked]
  | took h _ _ =>
    obtain ⟨rest, hrest, hshared⟩ := takeUnblocked_ok h
    rw [hshared, hrest]
    refine ⟨rfl, fun s hne => Function.update_of_ne hne _ _, ?_⟩
    simp

/-! ### Parking -/

theorem takeUnblocked_eq_none {sh : SharedCodecs} {s : ℕ} (h : sh.takeUnblocked s = none) :
    sh.unblocked s = [] := by
  rw [takeUnblocked] at h
  split at h
  · next hnil => exact hnil
  · cases h

theorem pollAfterTrailers_ne_park {α : Type} : (r.pollAfterTrailers (α := α)).2 ≠ .park := by
  unfold pollAfterTrailers
  split <;> simp

theorem pollHeaders_park (h : r.pollHeaders http now = (r', .park)) :
    r' = r ∧ r.stream.marks.blocked ∧ r.shared.unblocked r.stream.streamId = [] := by
  unfold pollHeaders at h
  split at h
  · rename_i hblocked
    split at h
    · cases h
    · next hnone =>
      cases h
      exact ⟨rfl, by simp [Marks.blocked, marks, hblocked], takeUnblocked_eq_none hnone⟩
  · (repeat' split at h) <;> cases h

theorem pollRecvData_ne_park : (r.pollRecvData now).2 ≠ .park := by
  unfold pollRecvData
  split
  · simp
  · split_ifs
    · simp
    · simp
    · exact pollAfterTrailers_ne_park
    · (repeat' split) <;> simp

theorem pollRecvTrailers_park (h : r.pollRecvTrailers http now = (r', .park)) :
    r' = r ∧ r.stream.marks.blocked ∧ r.shared.unblocked r.stream.streamId = [] := by
  unfold pollRecvTrailers at h
  split at h
  · cases h
  by_cases hblocked : r.stream.trailersBlocked
  · rw [if_pos hblocked] at h
    split at h
    · cases h
    · next hnone =>
      cases h
      exact ⟨rfl, by simp [Marks.blocked, marks, hblocked], takeUnblocked_eq_none hnone⟩
  · split_ifs at h
    · cases h
    · cases h
    · exact absurd (congrArg Prod.snd h) pollAfterTrailers_ne_park
    · (repeat' split at h) <;> cases h

end Reader

theorem Polled.void_eq_park {α : Type} {result : Polled α} (h : result.void = .park) :
    result = .park := by
  cases result with
  | ready => cases h
  | pending => cases h
  | park => rfl

/-- The call that takes the section the stream waits for. -/
def ReadCall.looks (rs : RequestStream) : ReadCall → Bool
  | .headers => rs.headersBlocked
  | .data => false
  | .trailers => rs.trailersBlocked && rs.trailersLines.isNone

namespace ReadCall

variable {r r' : Reader} {http : HttpCrate} {now : ℕ} {call : ReadCall} {result : Polled Unit}

theorem poll_touches (hsane : r.stream.marks.Sane) (h : call.poll http now r = (r', result)) :
    r.Touches r' := by
  cases call with
  | headers =>
    cases h
    exact pollHeaders_touches hsane rfl
  | data =>
    cases h
    exact pollRecvData_touches rfl
  | trailers =>
    cases h
    exact pollRecvTrailers_touches hsane rfl

theorem poll_park (h : call.poll http now r = (r', .park)) :
    r' = r ∧ r.stream.marks.blocked ∧ r.shared.unblocked r.stream.streamId = [] := by
  cases call with
  | headers =>
    simp only [poll, Prod.mk.injEq] at h
    exact pollHeaders_park (Prod.ext h.1 (Polled.void_eq_park h.2))
  | data =>
    simp only [poll, Prod.mk.injEq] at h
    exact absurd (Polled.void_eq_park h.2) pollRecvData_ne_park
  | trailers =>
    simp only [poll, Prod.mk.injEq] at h
    exact pollRecvTrailers_park (Prod.ext h.1 (Polled.void_eq_park h.2))

theorem poll_ready (hlooks : call.looks r.stream)
    (hne : r.shared.unblocked r.stream.streamId ≠ []) :
    ∃ x, (call.poll http now r).2 = .ready x := by
  obtain ⟨u, rest, hrest⟩ := List.exists_cons_of_ne_nil hne
  cases call with
  | headers =>
    rw [looks] at hlooks
    simp [poll, pollHeaders, hlooks, takeUnblocked, hrest, Polled.void]
  | data => cases hlooks
  | trailers =>
    simp only [looks, and_eq_true, Option.isNone_iff_eq_none] at hlooks
    simp [poll, pollRecvTrailers, hlooks.1, hlooks.2, takeUnblocked, hrest, Polled.void]

/-- Before the headers the calls of the body do nothing. -/
theorem poll_awaiting (hsane : r.stream.marks.Sane) (hawaiting : r.stream.awaitingHeaders)
    (hcall : call ≠ .headers) (h : call.poll http now r = (r', result)) :
    r'.shared = r.shared ∧ r'.stream.marks = r.stream.marks := by
  obtain ⟨htrailers, hfinished⟩ := hsane.of_awaiting hawaiting
  cases call with
  | headers => exact absurd rfl hcall
  | data =>
    simp only [poll, Prod.mk.injEq] at h
    rw [← h.1]
    unfold pollRecvData
    split
    · exact ⟨rfl, rfl⟩
    · rw [if_neg (by simpa [marks] using hfinished), if_pos (by simp [hawaiting])]
      exact ⟨rfl, rfl⟩
  | trailers =>
    simp only [poll, Prod.mk.injEq] at h
    rw [← h.1]
    unfold pollRecvTrailers
    split
    · exact ⟨rfl, rfl⟩
    · rw [if_neg (by simpa [marks] using htrailers),
        if_neg (by simpa [marks] using hfinished), if_pos (by simp [hawaiting])]
      exact ⟨rfl, rfl⟩

end ReadCall

end ZincioHttp.H3
