import ZincioHttp.H3.Qpack.Effects
import ZincioHttp.H3.Requests.Wakeups

/-! What a request task leaves behind in the shared codecs. Nothing is released when a
task ends; only the end of the peer's stream, once a poll has seen it, gives back the
size budget. A task leaves nothing behind if it has never read a section, or has seen
the end of its stream, and waits for no section; provided that no waker was left after
the control plane had taken the wakers. -/

namespace ZincioHttp.H3

open Qpack Lib List Option Function BlockedSection UnblockedSection SharedCodecs Decoder Requests
  ReadCall

/-- The released sections that the control plane holds. -/
def Feed.inHand : Feed → List UnblockedSection
  | .released sections | .taken sections _ => sections
  | .idle | .placed _ => []

/-- The task can go without leaving anything behind. -/
def Task.done (t : Task) : Prop :=
  t.stream.marks.blocked = false ∧ t.registering = false ∧
    (t.stream.recvFinished ∨ t.stream.sections = 0)

instance (t : Task) : Decidable t.done := inferInstanceAs (Decidable (_ ∧ _ ∧ _))

namespace Requests

variable {http : HttpCrate} {q q' : Requests} {s : ℕ} {r r' : Reader}

/-- The sections of a stream that are on their way: with the decoder, with the control
plane, or waiting to be taken. -/
def inFlight (q : Requests) (s : ℕ) : ℕ :=
  (q.shared.decoder.blocked.map BlockedSection.stream).count s +
    (q.feed.inHand.map UnblockedSection.stream).count s + (q.shared.unblocked s).length

/-- Nothing of the stream is left. -/
structure Freed (q : Requests) (s : ℕ) : Prop where
  blocked : s ∉ q.shared.decoder.blocked.map BlockedSection.stream
  counted : ¬ q.shared.decoder.streamHasBlocked s
  budget : q.shared.decoder.sectionSizeByStream s = none
  unblocked : q.shared.unblocked s = []
  waiter : q.shared.waiters s = false

/-- A task ends when it can; and it does not look for its section while the control plane
has its waker taken and the section not yet placed. -/
def Orderly (q : Requests) : Action → Prop
  | .poll s _ _ => s ∉ q.feed.late
  | .takeWaiters => ∀ s ∈ q.feed.due, ∀ t ∈ q.tasks s, ¬ t.registering
  | .finish s => ∀ t ∈ q.tasks s, t.done
  | _ => True

instance (q : Requests) : ∀ a, Decidable (q.Orderly a)
  | .poll .. | .takeWaiters | .finish _ => by unfold Orderly; infer_instance
  | .accept _ | .deliver .. | .register _ | .feed _ | .placeUnblocked | .wake => isTrue trivial

/-- The books of the shared codecs. -/
structure Books (q : Requests) : Prop where
  known : ∀ s, ∀ t ∈ q.tasks s, t.stream.streamId = s ∧ t.stream.marks.Sane
  consistent : q.shared.decoder.Consistent
  strangers : ∀ s, q.tasks s = none →
    q.inFlight s = 0 ∧ q.shared.decoder.sectionSizeByStream s = none
  inFlight : ∀ s, ∀ t ∈ q.tasks s, q.inFlight s = t.stream.marks.blocked.toNat
  budget : ∀ s, ∀ t ∈ q.tasks s, (t.stream.recvFinished ∨ t.stream.sections = 0) →
    q.shared.decoder.sectionSizeByStream s = none
  waiter : ∀ s, (q.shared.waiters s ∨ ∃ t ∈ q.tasks s, t.registering) →
    s ∈ q.shared.decoder.blocked.map BlockedSection.stream ∨ s ∈ q.feed.due
  ended : ∀ s, ∀ t ∈ q.tasks s, t.ended → t.done

theorem books_start (settings : LocalSettings) : (start settings).Books where
  known := by simp [start]
  consistent :=
    have h := Consistent.new settings.qpackMaxTableCapacity settings.qpackBlockedStreams
    ⟨h.counts, h.waits, h.settled⟩
  strangers := by simp [start, inFlight, SharedCodecs.new, Decoder.new, setMaxFieldSectionSize,
    Feed.inHand]
  inFlight := by simp [start]
  budget := by simp [start]
  waiter := by simp [start, SharedCodecs.new]
  ended := by simp [start]

/-- What the shared codecs hold of the other streams stays. -/
structure Apart (sh sh' : SharedCodecs) (s : ℕ) : Prop where
  blocked : ∀ s' ≠ s, (sh'.decoder.blocked.map BlockedSection.stream).count s' =
    (sh.decoder.blocked.map BlockedSection.stream).count s'
  unblocked : ∀ s' ≠ s, sh'.unblocked s' = sh.unblocked s'
  budget : ∀ s' ≠ s, sh'.decoder.sectionSizeByStream s' = sh.decoder.sectionSizeByStream s'
  waiters : ∀ s' ≠ s, sh'.waiters s' = sh.waiters s'

theorem Apart.refl (sh : SharedCodecs) (s : ℕ) : Apart sh sh s := by
  constructor <;> exact fun _ _ => rfl

/-- One task changes, and with it what the shared codecs hold of its stream. -/
theorem Books.setTask (h : q.Books) {shared : SharedCodecs} {t : Task}
    (hapart : Apart q.shared shared s) (hconsistent : shared.decoder.Consistent)
    (hknown : t.stream.streamId = s ∧ t.stream.marks.Sane)
    (hinFlight : Requests.inFlight { q with shared := shared } s = t.stream.marks.blocked.toNat)
    (hbudget : (t.stream.recvFinished ∨ t.stream.sections = 0) →
      shared.decoder.sectionSizeByStream s = none)
    (hwaiter : (shared.waiters s ∨ t.registering) →
      s ∈ shared.decoder.blocked.map BlockedSection.stream ∨ s ∈ q.feed.due)
    (hended : t.ended → t.done) : Books ({ q with shared := shared }.setTask s t) := by
  have hother : ∀ s' ≠ s, Requests.inFlight { q with shared := shared } s' = q.inFlight s' := by
    intro s' hs
    simp [Requests.inFlight, hapart.blocked s' hs, hapart.unblocked s' hs]
  refine ⟨?_, hconsistent, ?_, ?_, ?_, ?_, ?_⟩
  · intro s' t' ht'
    rcases mem_setTask ht' with ⟨rfl, rfl⟩ | ⟨-, ht'⟩
    · exact hknown
    · exact h.known s' t' ht'
  · intro s' hnone
    have hs : s' ≠ s := by
      rintro rfl
      simp [setTask] at hnone
    simp only [Requests.setTask, update_of_ne hs] at hnone
    exact ⟨(hother s' hs).trans (h.strangers s' hnone).1,
      (hapart.budget s' hs).trans (h.strangers s' hnone).2⟩
  · intro s' t' ht'
    rcases mem_setTask ht' with ⟨rfl, rfl⟩ | ⟨hs, ht'⟩
    · exact hinFlight
    · exact (hother s' hs).trans (h.inFlight s' t' ht')
  · intro s' t' ht' hfree
    rcases mem_setTask ht' with ⟨rfl, rfl⟩ | ⟨hs, ht'⟩
    · exact hbudget hfree
    · exact (hapart.budget s' hs).trans (h.budget s' t' ht' hfree)
  · intro s' hleft
    by_cases hs : s' = s
    · subst hs
      refine hwaiter (hleft.imp_right ?_)
      rintro ⟨t', ht', hreg⟩
      rcases mem_setTask ht' with ⟨-, rfl⟩ | ⟨hne, -⟩
      · exact hreg
      · exact absurd rfl hne
    · have hbefore : q.shared.waiters s' ∨ ∃ t ∈ q.tasks s', t.registering := by
        rcases hleft with hleft | ⟨t', ht', hreg⟩
        · exact .inl ((hapart.waiters s' hs).symm.trans hleft)
        · rcases mem_setTask ht' with ⟨hne, -⟩ | ⟨-, ht'⟩
          · exact absurd hne hs
          · exact .inr ⟨t', ht', hreg⟩
      refine (h.waiter s' hbefore).imp_left fun hmem => ?_
      rw [← count_pos_iff] at hmem ⊢
      exact (hapart.blocked s' hs).symm ▸ hmem
  · intro s' t' ht' hended'
    rcases mem_setTask ht' with ⟨rfl, rfl⟩ | ⟨-, ht'⟩
    · exact hended hended'
    · exact h.ended s' t' ht' hended'

/-! ### A poll -/

/-- What a poll does to the entries of the stream and of the others. -/
theorem touches_apart (h : r.Touches r') : Apart r.shared r'.shared r.stream.streamId ∧
    r.shared.decoder.blocked.map BlockedSection.stream <+:
      r'.shared.decoder.blocked.map BlockedSection.stream := by
  obtain ⟨hwaiters, hunblocked, -⟩ := h.shared_frame
  cases h with
  | quiet hshared _ =>
    rw [hshared]
    exact ⟨.refl _ _, prefix_refl _⟩
  | finished hshared _ _ =>
    rw [hshared]
    exact ⟨⟨fun _ _ => rfl, fun _ _ => rfl, fun _ hs => update_of_ne hs _ _, fun _ _ => rfl⟩,
      prefix_refl _⟩
  | decoded hdecode _ _ _ _ =>
    obtain ⟨d, hd, hshared⟩ := decodeBlock_ok hdecode
    obtain ⟨ric, ⟨hnone, -⟩ | ⟨fields, size, -, -, -, rfl⟩⟩ := decodeBlock_ok hd
    · cases hnone
    rw [hshared]
    exact ⟨⟨fun _ _ => rfl, fun _ _ => rfl, fun _ hs => update_of_ne hs _ _, fun _ _ => rfl⟩,
      prefix_refl _⟩
  | blocked hdecode _ _ _ =>
    obtain ⟨d, hd, hshared⟩ := decodeBlock_ok hdecode
    obtain ⟨ric, ⟨-, rfl, -⟩ | ⟨fields, size, hsome, -⟩⟩ := decodeBlock_ok hd
    · rw [hshared]
      refine ⟨⟨fun s' hs => ?_, fun _ _ => rfl, fun _ _ => rfl, fun _ _ => rfl⟩, ?_⟩
      · show count s' ((r.shared.decoder.blocked ++ [_]).map _) = _
        simp [Ne.symm hs]
      · show _ <+: (r.shared.decoder.blocked ++ [_]).map _
        rw [map_append]
        exact prefix_append _ _
    · cases hsome
  | took htake _ _ =>
    obtain ⟨rest, -, hshared⟩ := takeUnblocked_ok htake
    have hdecoder : r'.shared.decoder = r.shared.decoder := by rw [hshared]
    rw [hdecoder]
    refine ⟨⟨fun _ _ => by rw [hdecoder], hunblocked, fun _ _ => by rw [hdecoder], fun _ _ => ?_⟩,
      prefix_refl _⟩
    rw [hwaiters]

/-- The sections of the stream that are on their way, after a poll. -/
theorem touches_inFlight (h : r.Touches r') {q : Requests}
    (hbefore : inFlight { q with shared := r.shared } r.stream.streamId =
      r.stream.marks.blocked.toNat) :
    inFlight { q with shared := r'.shared } r.stream.streamId = r'.stream.marks.blocked.toNat := by
  cases h with
  | quiet hshared hmarks => rw [hshared, hmarks, hbefore]
  | finished hshared hblocked hmarks =>
    rw [hshared, hmarks]
    exact hbefore
  | decoded hdecode hblocked _ _ hmarks =>
    obtain ⟨d, hd, hshared⟩ := decodeBlock_ok hdecode
    obtain ⟨ric, ⟨hnone, -⟩ | ⟨fields, size, -, -, -, rfl⟩⟩ := decodeBlock_ok hd
    · cases hnone
    rw [hshared, hmarks]
    exact hbefore
  | blocked hdecode hblocked _ hmarks =>
    obtain ⟨d, hd, hshared⟩ := decodeBlock_ok hdecode
    obtain ⟨ric, ⟨-, rfl, -⟩ | ⟨fields, size, hsome, -⟩⟩ := decodeBlock_ok hd
    · rw [hblocked] at hbefore
      have hnow : r'.stream.marks.blocked = true := by
        rw [hmarks]
        cases r.stream.awaitingHeaders <;> rfl
      rw [hshared, hnow]
      simp only [inFlight, addBlockedSection, map_append, count_append, map_cons,
        map_nil, count_singleton_self, Bool.toNat_false, Bool.toNat_true] at hbefore ⊢
      omega
    · cases hsome
  | took htake hblocked hmarks =>
    obtain ⟨rest, hrest, hshared⟩ := takeUnblocked_ok htake
    rw [hblocked] at hbefore
    have hnow : r'.stream.marks.blocked = false := by rw [hmarks]; rfl
    rw [hshared, hnow]
    simp only [inFlight, hrest, update_self, length_cons, Bool.toNat_false,
      Bool.toNat_true] at hbefore ⊢
    omega

theorem touches_consistent (h : r.Touches r') (hc : r.shared.decoder.Consistent) :
    r'.shared.decoder.Consistent := by
  cases h with
  | quiet hshared _ => rwa [hshared]
  | finished hshared _ _ =>
    rw [hshared]
    exact ⟨hc.counts, hc.waits, hc.settled⟩
  | decoded hdecode _ _ _ _ | blocked hdecode _ _ _ =>
    obtain ⟨d, hd, hshared⟩ := decodeBlock_ok hdecode
    rw [hshared]
    exact (hc.decodeBlock hd).1
  | took htake _ _ =>
    obtain ⟨rest, -, hshared⟩ := takeUnblocked_ok htake
    rwa [hshared]

/-- The budget is given back with the end of the stream, and charged by sections only. -/
theorem touches_budget (h : r.Touches r')
    (hbefore : (r.stream.recvFinished ∨ r.stream.sections = 0) →
      r.shared.decoder.sectionSizeByStream r.stream.streamId = none) :
    (r'.stream.recvFinished ∨ r'.stream.sections = 0) →
      r'.shared.decoder.sectionSizeByStream r.stream.streamId = none := by
  have hview : ∀ rs : RequestStream,
      (rs.recvFinished ∨ rs.sections = 0) ↔ (rs.marks.finished ∨ rs.marks.sections = 0) :=
        fun _ => Iff.rfl
  rw [hview]
  cases h with
  | quiet hshared hmarks => rwa [hshared, hmarks]
  | finished hshared _ _ =>
    intro _
    rw [hshared]
    exact update_self ..
  | decoded _ _ hfinished _ hmarks | blocked _ _ hfinished hmarks =>
    rw [hmarks]
    rintro (hfin | hzero)
    · cases hfinished.symm.trans hfin
    · cases hzero
  | took htake _ hmarks =>
    obtain ⟨rest, -, hshared⟩ := takeUnblocked_ok htake
    rwa [hshared, hmarks]

/-- A task that is done gives no section to the decoder any more. -/
theorem touches_done {call : ReadCall} {now : ℕ} {result : Polled Unit}
    (hpoll : call.poll http now r = (r', result)) (hsane : r.stream.marks.Sane)
    (hcall : call ≠ .headers) (hblocked : r.stream.marks.blocked = false)
    (hfree : r.stream.recvFinished ∨ r.stream.sections = 0) :
    r'.stream.marks.blocked = false ∧ (r'.stream.recvFinished ∨ r'.stream.sections = 0) := by
  have hquiet : r'.stream.marks = r.stream.marks →
      r'.stream.marks.blocked = false ∧
        (r'.stream.marks.finished ∨ r'.stream.marks.sections = 0) := by
    intro hmarks
    rw [hmarks]
    exact ⟨hblocked, hfree⟩
  have hunread : r.stream.recvFinished = false → r'.stream.marks = r.stream.marks := by
    intro hfinished
    have hzero : r.stream.sections = 0 := hfree.resolve_left (by simp [hfinished])
    have hawaiting : r.stream.awaitingHeaders :=
      (hsane.fresh hzero).2.resolve_right (by simp [RequestStream.marks, hfinished])
    exact (poll_awaiting hsane hawaiting hcall hpoll).2
  cases poll_touches hsane hpoll with
  | quiet _ hmarks => exact hquiet hmarks
  | finished _ _ hmarks =>
    show r'.stream.marks.blocked = false ∧ (r'.stream.marks.finished ∨ _)
    rw [hmarks]
    exact ⟨hblocked, .inl rfl⟩
  | decoded _ _ hfinished _ _ | blocked _ _ hfinished _ => exact hquiet (hunread hfinished)
  | took _ hwaits _ => cases hblocked.symm.trans hwaits

/-- A task that looks for its section in time and does not find it has it with the decoder,
or with the control plane before the wakers are taken. -/
theorem Books.awaited (h : q.Books) {t : Task} (ht : t ∈ q.tasks s)
    (hblocked : t.stream.marks.blocked) (hnil : q.shared.unblocked s = [])
    (hlate : s ∉ q.feed.late) :
    s ∈ q.shared.decoder.blocked.map BlockedSection.stream ∨ s ∈ q.feed.due := by
  have hone := h.inFlight s t ht
  rw [hblocked, Requests.inFlight, hnil] at hone
  by_cases hmem : s ∈ q.shared.decoder.blocked.map BlockedSection.stream
  · exact .inl hmem
  rw [count_eq_zero_of_not_mem hmem] at hone
  have hhand : s ∈ q.feed.inHand.map UnblockedSection.stream := by
    rw [← count_pos_iff]
    simp only [length_nil, Bool.toNat_true] at hone
    omega
  cases hfeed : q.feed with
  | idle | placed => simp [hfeed, Feed.inHand] at hhand
  | released sections =>
    rw [hfeed] at hhand
    exact .inr hhand
  | taken sections wakers =>
    rw [hfeed] at hhand hlate
    exact absurd hhand hlate

theorem poll_books {now : ℕ} {call : ReadCall} (h : q.Books) (hc : q.Orderly (.poll s call now)) :
    (q.poll http s call now).Books := by
  unfold poll
  split
  · exact h
  next t ht =>
  split_ifs with hskip
  · exact h
  simp only [Bool.or_eq_true, Bool.and_eq_true, decide_eq_true_eq, not_or, not_and] at hskip
  obtain ⟨rfl, hsane⟩ := h.known s t ht
  cases hpoll : call.poll http now ⟨t.stream, t.inbox, q.shared⟩ with
  | mk r result =>
    have htouch := poll_touches hsane hpoll
    obtain ⟨hapart, hgrow⟩ := touches_apart htouch
    refine h.setTask hapart (touches_consistent htouch h.consistent)
      ⟨htouch.id_eq, htouch.sane hsane⟩
      (touches_inFlight htouch (h.inFlight _ t ht)) (touches_budget htouch (h.budget _ t ht)) ?_ ?_
    · rintro (hwaiter | hreg)
      · rw [htouch.shared_frame.1] at hwaiter
        exact (h.waiter _ (.inl hwaiter)).imp_left fun hmem => hgrow.subset hmem
      · cases result with
        | ready => cases hreg
        | pending => cases hreg
        | park =>
          obtain ⟨rfl, hblocked, hnil⟩ := poll_park hpoll
          exact h.awaited ht hblocked hnil hc
    · intro hended
      obtain ⟨hblocked, -, hfree⟩ := h.ended _ t ht hended
      obtain ⟨hblocked', hfree'⟩ := touches_done hpoll hsane (hskip.2 hended) hblocked hfree
      refine ⟨hblocked', ?_, hfree'⟩
      cases result with
      | ready => rfl
      | pending => rfl
      | park =>
        have hparked := (poll_park hpoll).2.1
        cases hblocked.symm.trans hparked

theorem register_books (h : q.Books) : (q.register s).Books := by
  unfold register
  split
  · exact h
  next t ht =>
  split_ifs with hreg
  · obtain ⟨hid, hsane⟩ := h.known s t ht
    refine h.setTask ⟨fun _ _ => rfl, fun _ _ => rfl, fun _ _ => rfl, fun s' hs => ?_⟩ h.consistent
      ⟨hid, hsane⟩
      (h.inFlight s t ht) (h.budget s t ht) (fun _ => h.waiter s (.inr ⟨t, ht, hreg⟩))
        fun hended => ?_
    · exact update_of_ne hs _ _
    · rw [(h.ended s t ht hended).2.1] at hreg
      cases hreg
  · exact h

/-! ### The control plane -/

/-- A stream with no section on its way is not among those released. -/
theorem feed_books {data : Octets} (h : q.Books) (hstep : step http q (.feed data) = .ok q') :
    q'.Books := by
  simp only [step] at hstep
  split at hstep
  · next hidle =>
    split at hstep
    · cases hstep
    · next d sections hfeed =>
      cases hstep
      obtain ⟨hc, -, out, rest, -, hsplit, hstreams, -⟩ := h.consistent.feedEncoderStream hfeed
      have hblocked : d.blocked = rest := feedEncoderStream_blocked hfeed hsplit hstreams
      have hflight : ∀ s, inFlight
          ⟨{ q.shared with decoder := d.takeDecoderStream.1 }, q.tasks, .released sections⟩ s =
            q.inFlight s := by
        intro s
        simp only [inFlight, hidle, Feed.inHand, takeDecoderStream, hblocked, hsplit, hstreams,
          map_append, count_append, map_nil, count_nil]
        omega
      have hsizes : ∀ s, q.inFlight s = 0 →
        d.sectionSizeByStream s = q.shared.decoder.sectionSizeByStream s := by
        intro s hzero
        refine feedEncoderStream_sizes hfeed ?_
        rw [hstreams, ← count_pos_iff]
        simp only [inFlight, hsplit, map_append, count_append] at hzero
        omega
      refine ⟨h.known, ⟨hc.counts, hc.waits, hc.settled⟩, ?_, ?_, ?_, ?_, h.ended⟩
      · intro s hnone
        obtain ⟨hzero, hbudget⟩ := h.strangers s hnone
        exact ⟨(hflight s).trans hzero, (hsizes s hzero).trans hbudget⟩
      · exact fun s t ht => (hflight s).trans (h.inFlight s t ht)
      · intro s t ht hfree
        have hsane := (h.known s t ht).2
        have hnot : t.stream.marks.blocked = false := by
          rcases hfree with hfinished | hzero
          · exact (hsane.finished hfinished).2
          · exact (hsane.fresh hzero).1
        have hzero : q.inFlight s = 0 := by rw [h.inFlight s t ht, hnot]; rfl
        exact (hsizes s hzero).trans (h.budget s t ht hfree)
      · intro s hleft
        have hbefore := h.waiter s hleft
        rw [hidle] at hbefore
        have hmem := hbefore.resolve_right not_mem_nil
        rw [hsplit, map_append, mem_append] at hmem
        rcases hmem with hout | hrest
        · refine .inr ?_
          show s ∈ sections.map _
          rwa [hstreams]
        · refine .inl ?_
          show s ∈ d.blocked.map _
          rwa [hblocked]
  · cases hstep
    exact h

theorem takeWaiters_books (h : q.Books) (hc : q.Orderly .takeWaiters)
    (hstep : step http q .takeWaiters = .ok q') : q'.Books := by
  simp only [step] at hstep
  split at hstep
  · next sections hfeed =>
    cases hstep
    have hflight : ∀ s, inFlight
        ⟨(q.shared.takeWaitersFor (sections.map UnblockedSection.stream)).1, q.tasks,
          .taken sections (q.shared.takeWaitersFor (sections.map UnblockedSection.stream)).2⟩ s =
        q.inFlight s := by
      intro s
      simp [inFlight, hfeed, Feed.inHand, takeWaitersFor]
    have hdue : ∀ s, s ∈ q.feed.due ↔ s ∈ sections.map UnblockedSection.stream := by
      intro s
      rw [hfeed]
      exact .rfl
    refine ⟨h.known, h.consistent, ?_, ?_, h.budget, ?_, h.ended⟩
    · exact fun s hnone => ⟨(hflight s).trans (h.strangers s hnone).1, (h.strangers s hnone).2⟩
    · exact fun s t ht => (hflight s).trans (h.inFlight s t ht)
    · rintro s (hwaiter | ⟨t, ht, hreg⟩)
      · simp only [takeWaitersFor, Bool.and_eq_true, Bool.not_eq_true',
          decide_eq_false_iff_not] at hwaiter
        refine .inl ((h.waiter s (.inl hwaiter.1)).resolve_right ?_)
        rw [hdue]
        exact hwaiter.2
      · refine .inl ((h.waiter s (.inr ⟨t, ht, hreg⟩)).resolve_right fun hmem => ?_)
        exact hc s hmem t ht hreg
  · cases hstep
    exact h

theorem length_placeUnblocked {sh : SharedCodecs} (sections : List UnblockedSection) (s : ℕ) :
    ((sh.placeUnblocked sections).unblocked s).length =
      (sections.map UnblockedSection.stream).count s + (sh.unblocked s).length := by
  simp only [placeUnblocked]
  generalize sh.unblocked = map
  induction sections generalizing map with
  | nil => simp
  | cons u sections ih =>
    rw [foldl_cons, ih, map_cons, count_cons]
    by_cases hs : u.stream = s
    · subst hs
      simp only [update_self, length_append, length_singleton, beq_self_eq_true, if_true]
      omega
    · rw [update_of_ne (Ne.symm hs)]
      simp [hs]

theorem placeUnblocked_books (h : q.Books) (hstep : step http q .placeUnblocked = .ok q') :
    q'.Books := by
  simp only [step] at hstep
  split at hstep
  · next sections wakers hfeed =>
    cases hstep
    have hflight : ∀ s, inFlight ⟨q.shared.placeUnblocked sections, q.tasks, .placed wakers⟩ s =
        q.inFlight s := by
      intro s
      simp only [inFlight, hfeed, Feed.inHand, length_placeUnblocked, map_nil, count_nil]
      simp only [placeUnblocked]
      omega
    refine ⟨h.known, h.consistent, ?_, ?_, h.budget, ?_, h.ended⟩
    · exact fun s hnone => ⟨(hflight s).trans (h.strangers s hnone).1, (h.strangers s hnone).2⟩
    · exact fun s t ht => (hflight s).trans (h.inFlight s t ht)
    · intro s hleft
      have hbefore := h.waiter s hleft
      rw [hfeed] at hbefore
      exact .inl (hbefore.resolve_right not_mem_nil)
  · cases hstep
    exact h

theorem wake_books (h : q.Books) (hstep : step http q .wake = .ok q') : q'.Books := by
  simp only [step] at hstep
  split at hstep
  · next wakers hfeed =>
    cases hstep
    have hflight : ∀ s, inFlight ⟨q.shared, fun s => (q.tasks s).map fun t =>
        { t with woken := t.woken || decide (s ∈ wakers) }, .idle⟩ s = q.inFlight s := by
      intro s
      simp [inFlight, hfeed, Feed.inHand]
    refine ⟨?_, h.consistent, ?_, ?_, ?_, ?_, ?_⟩
    · intro s t ht
      obtain ⟨t₀, ht₀, rfl⟩ := mem_map.1 ht
      exact h.known s t₀ ht₀
    · intro s hnone
      have hnone' : q.tasks s = none := map_eq_none_iff.1 hnone
      exact ⟨(hflight s).trans (h.strangers s hnone').1, (h.strangers s hnone').2⟩
    · intro s t ht
      obtain ⟨t₀, ht₀, rfl⟩ := mem_map.1 ht
      exact (hflight s).trans (h.inFlight s t₀ ht₀)
    · intro s t ht hfree
      obtain ⟨t₀, ht₀, rfl⟩ := mem_map.1 ht
      exact h.budget s t₀ ht₀ hfree
    · intro s hleft
      have hbefore := h.waiter s <| hleft.imp_right fun hreg => by
        obtain ⟨t, ht, hreg⟩ := hreg
        obtain ⟨t₀, ht₀, rfl⟩ := mem_map.1 ht
        exact ⟨t₀, ht₀, hreg⟩
      rw [hfeed] at hbefore
      exact .inl (hbefore.resolve_right not_mem_nil)
    · intro s t ht hended
      obtain ⟨t₀, ht₀, rfl⟩ := mem_map.1 ht
      exact h.ended s t₀ ht₀ hended
  · cases hstep
    exact h

/-! ### Runs -/

theorem step_books {a : Action} (h : q.Books) (hc : q.Orderly a) (hstep : step http q a = .ok q') :
    q'.Books := by
  cases a with
  | accept s =>
    simp only [step] at hstep
    split at hstep
    · cases hstep
      exact h
    · next hnone =>
      cases hstep
      obtain ⟨hzero, hbudget⟩ := h.strangers s hnone
      refine h.setTask (.refl _ s) h.consistent ⟨rfl, RequestStream.sane_new s q.shared⟩ hzero
        (fun _ => hbudget) (fun hleft => h.waiter s (hleft.imp_right (by simp))) (by simp)
  | deliver s item =>
    simp only [step] at hstep
    split at hstep
    · cases hstep
      exact h
    · next t ht =>
      cases hstep
      exact h.setTask (.refl _ s) h.consistent (h.known s t ht) (h.inFlight s t ht)
        (h.budget s t ht)
        (fun hleft => h.waiter s (hleft.imp_right fun hreg => ⟨t, ht, hreg⟩)) (h.ended s t ht)
  | poll s call now =>
    cases hstep
    exact poll_books h hc
  | register s =>
    cases hstep
    exact register_books h
  | finish s =>
    simp only [step] at hstep
    split at hstep
    · cases hstep
      exact h
    · next t ht =>
      cases hstep
      exact h.setTask (.refl _ s) h.consistent (h.known s t ht) (h.inFlight s t ht)
        (h.budget s t ht)
        (fun hleft => h.waiter s (hleft.imp_right fun hreg => ⟨t, ht, hreg⟩)) fun _ => hc t ht
  | feed data => exact feed_books h hstep
  | takeWaiters => exact takeWaiters_books h hc hstep
  | placeUnblocked => exact placeUnblocked_books h hstep
  | wake => exact wake_books h hstep

theorem Books.freed (h : q.Books) {t : Task} (ht : t ∈ q.tasks s) (hdone : t.done) : q.Freed s := by
  obtain ⟨hblocked, hreg, hfree⟩ := hdone
  have hzero := h.inFlight s t ht
  rw [hblocked, Requests.inFlight] at hzero
  have hout : s ∉ q.shared.decoder.blocked.map BlockedSection.stream := by
    rw [← count_eq_zero]
    simp only [Bool.toNat_false] at hzero
    omega
  have hhand : s ∉ q.feed.inHand.map UnblockedSection.stream := by
    rw [← count_eq_zero]
    simp only [Bool.toNat_false] at hzero
    omega
  refine ⟨hout, ?_, h.budget s t ht hfree, ?_, ?_⟩
  · intro hcounted
    exact hout (h.consistent.counts.has_iff.1 hcounted)
  · rw [← length_eq_zero_iff]
    simp only [Bool.toNat_false] at hzero
    omega
  · by_contra hwaiter
    rcases h.waiter s (.inl (by simpa using hwaiter)) with hmem | hdue
    · exact hout hmem
    refine hhand ?_
    cases hfeed : q.feed with
    | released sections =>
      rw [hfeed] at hdue
      exact hdue
    | idle | taken | placed => simp [hfeed, Feed.due] at hdue

/-- In every state of a run in which the tasks end in order, nothing is left of a task that
has ended, and the streams counted against the limit are live ones. -/
theorem run_releases {settings : LocalSettings} {actions : List Action}
    (hall : Along (step http) Orderly (start settings) actions)
    (hrun : run http actions (start settings) = .ok q) :
    (∀ s, ∀ t ∈ q.tasks s, t.ended → q.Freed s) ∧
      ∀ live : Finset ℕ, (∀ s, ∀ t ∈ q.tasks s, ¬ t.ended → s ∈ live) →
        q.shared.decoder.blockedByStream.length ≤ live.card := by
  have h : q.Books := Along.invariant (fun _ _ _ h hc hstep => step_books h hc hstep) actions hall
    (books_start settings) hrun
  have hfreed : ∀ s, ∀ t ∈ q.tasks s, t.ended → q.Freed s := fun s t ht hended =>
    h.freed ht (h.ended s t ht hended)
  refine ⟨hfreed, fun live hlive => h.consistent.counts.length_le_card fun s hmem => ?_⟩
  cases ht : q.tasks s with
  | none =>
    have hzero := (h.strangers s ht).1
    rw [Requests.inFlight] at hzero
    exact absurd (List.count_pos_iff.2 hmem) (by omega)
  | some t =>
    refine hlive s t ht fun hended => ?_
    exact (hfreed s t ht hended).blocked hmem

/-- What is left of a stream: whether its task has ended, the streams with blocked
sections and their number, the budget, and what is to be sent to the peer's encoder. -/
def leftovers (s : ℕ) (q : Requests) : Option Bool × List ℕ × ℕ × Bool × Octets :=
  ((q.tasks s).map Task.ended, q.shared.decoder.blocked.map BlockedSection.stream,
    q.shared.decoder.blockedByStream.length, (q.shared.decoder.sectionSizeByStream s).isSome,
    q.shared.decoder.decoderStream)

/-- The request is read to the end of the stream before its task ends. -/
theorem run_releases_completed : ∃ q t, run .permissive [.accept 0,
        .deliver 0 (.chunk [0x01, 0x08, 0x00, 0x00, 0xd1, 0xd7, 0xc1, 0x50, 0x01, 0x61]),
        .poll 0 .headers 0, .deliver 0 .finished, .poll 0 .data 0, .finish 0]
        (start { qpackMaxTableCapacity := 4096, qpackBlockedStreams := 16 }) = .ok q ∧
      q.tasks 0 = some t ∧ t.ended ∧ q.Freed 0 := by
  simp only [exists_and_left]
  refine exists_ok_and (leftovers 0) (some true, [], 0, false, []) (by decide +kernel)
    fun q hrun hleft => ?_
  obtain ⟨t, ht, hended⟩ := map_eq_some_iff.1 (congrArg Prod.fst hleft)
  exact ⟨t, ht, hended, (run_releases (by decide +kernel) hrun).1 0 t ht hended⟩

/-- A task that ends while the trailers it has found are blocked leaves the section and its
count, with no Stream Cancellation; and one that ends before the end of its stream is read leaves
the budget. -/
theorem run_leaves_behind : ((run .permissive [.accept 0,
        .deliver 0 (.chunk [0x01, 0x08, 0x00, 0x00, 0xd1, 0xd7, 0xc1, 0x50, 0x01, 0x61]),
        .poll 0 .headers 0, .deliver 0 (.chunk [0x01, 0x03, 0x02, 0x80, 0x10]), .poll 0 .data 0,
        .finish 0]
        (start { qpackMaxTableCapacity := 4096, qpackBlockedStreams := 16 })).map
        (leftovers 0)).toOption = some (some true, [0], 1, true, []) ∧
      ((run .permissive [.accept 0,
        .deliver 0 (.chunk [0x01, 0x08, 0x00, 0x00, 0xd1, 0xd7, 0xc1, 0x50, 0x01, 0x61]),
        .poll 0 .headers 0, .deliver 0 .finished, .finish 0]
        (start { qpackMaxTableCapacity := 4096, qpackBlockedStreams := 16 })).map
        (leftovers 0)).toOption = some (some true, [], 0, true, []) := by
  refine ⟨?_, ?_⟩ <;> decide +kernel

end Requests

end ZincioHttp.H3
