import ZincioHttp.H3.Control.Order

/-! The peer's decoder stream on its way to the encoder. Octets that come in the
same chunk as the type are only validated, and so are those that come before the
peer's SETTINGS, when there is no encoder yet; the encoder never sees them. When
the type comes alone and the rest after SETTINGS, the encoder gets everything. -/

namespace ZincioHttp.H3

open Qpack Lib List Function ControlStreams

/-- Nothing comes with the chunk that completes the type of a decoder stream. -/
def Separate (seen : Octets) : Recv → Prop
  | .chunk data => ∀ used, parseVarint (seen ++ data) = .ok (some (streamTypeQpackDecoder, used)) →
    (seen ++ data).length ≤ used ∨ used ≤ seen.length
  | _ => True

variable {progressed : Bool}

namespace ControlStreams

variable {c c' : ControlStreams} {data : Octets}

/-- The encoder is not fed; it may be created, and then SETTINGS have come. -/
structure Hears (c c' : ControlStreams) : Prop where
  fed_eq : c'.fed = c.fed
  created : (c'.settingsReceived = c.settingsReceived ∧
      c'.shared.encoder.isSome = c.shared.encoder.isSome) ∨
    (c'.settingsReceived = true ∧ c'.shared.encoder.isSome = true)

theorem Hears.refl (c : ControlStreams) : Hears c c := ⟨rfl, .inl ⟨rfl, rfl⟩⟩

theorem Hears.trans {c₁ c₂ c₃ : ControlStreams} (h : Hears c₁ c₂) (h' : Hears c₂ c₃) :
    Hears c₁ c₃ := by
  refine ⟨h'.fed_eq.trans h.fed_eq, ?_⟩
  rcases h'.created with ⟨hr, he⟩ | hboth
  · rw [hr, he]
    exact h.created
  · exact .inr hboth

theorem feedEncoderStream_hears (h : c.feedEncoderStream data = .ok c') : Hears c c' := by
  rw [feedEncoderStream] at h
  split at h
  · cases h
  · cases h
    exact ⟨rfl, .inl ⟨rfl, rfl⟩⟩

theorem handleFrames_hears {fuel : ℕ} (h : c.handleFrames fuel = .ok (c', progressed)) :
    Hears c c' := by
  refine handleFrames_rel Hears.refl Hears.trans (fun _ _ => ⟨rfl, .inl ⟨rfl, rfl⟩⟩) ?_ fuel h
  intro c frame c' hframe
  obtain ⟨_, _, _, _, _, _, rfl, hcreated⟩ := handleControlFrame_ok hframe
  refine ⟨rfl, ?_⟩
  rcases hcreated with ⟨rfl, rfl⟩ | ⟨rfl, hsome⟩
  · exact .inl ⟨rfl, rfl⟩
  · exact .inr ⟨rfl, hsome⟩

theorem place_hears {stream ty : ℕ} {leftover : Octets} (h : c.place stream ty leftover = .ok c') :
    Hears c c' := by
  cases place_ok h with
  | control | discard => exact ⟨rfl, .inl ⟨rfl, rfl⟩⟩
  | encoder _ hfed =>
    have hs := hfed.elim (fun h => h ▸ Hears.refl c) feedEncoderStream_hears
    exact ⟨hs.fed_eq, hs.created⟩
  | decoder _ hchecked =>
    rcases hchecked with rfl | hchecked
    · exact ⟨rfl, .inl ⟨rfl, rfl⟩⟩
    · obtain ⟨_, rfl⟩ := checkDecoderStream_ok hchecked
      exact ⟨rfl, .inl ⟨rfl, rfl⟩⟩

end ControlStreams

namespace Plane

variable {p p' : Plane}

/-- What the encoder has been fed, and then what is still to be read, is the content
of the decoder stream after its type. -/
def Faithful (p : Plane) : Prop :=
  match p.streams.inDecoder with
  | none => p.streams.fed = []
  | some stream => ∃ used,
    parseVarint (content (p.net.sent stream)) = .ok (some (streamTypeQpackDecoder, used)) ∧
      p.streams.fed ++ content (p.net.inbox stream) = (content (p.net.sent stream)).drop used

/-- The type of a decoder stream comes in a chunk of its own, and nothing else comes
on the stream before the control plane has seen SETTINGS. -/
def InTime (p : Plane) : Action → Prop
  | .deliver stream (.chunk data) => ∀ used,
    parseVarint (content (p.net.sent stream) ++ data) = .ok (some (streamTypeQpackDecoder, used)) →
      (content (p.net.sent stream) ++ data).length ≤ used ∨
        (p.streams.settingsReceived ∧ used ≤ (content (p.net.sent stream)).length)
  | _ => True

instance (p : Plane) : ∀ a, Decidable (p.InTime a)
  | .deliver stream (.chunk data) =>
    match h : parseVarint (content (p.net.sent stream) ++ data) with
    | .ok (some (ty, used)) =>
      decidable_of_iff
          (ty = streamTypeQpackDecoder → (content (p.net.sent stream) ++ data).length ≤ used ∨
          (p.streams.settingsReceived ∧ used ≤ (content (p.net.sent stream)).length)) <| by
        simp only [InTime, h, Except.ok.injEq, Option.some.injEq, Prod.mk.injEq]
        exact ⟨fun hc _ ⟨hty, hused⟩ => hused ▸ hc hty, fun hc hty => hc used ⟨hty, rfl⟩⟩
    | .ok none => isTrue fun _ hparse => by simp [h] at hparse
    | .error _ => isTrue fun _ hparse => by simp [h] at hparse
  | .deliver _ .finished | .deliver _ (.failed _) => isTrue trivial
  | .openUni | .acceptFails _ | .poll | .flush | .decode .. | .encode .. | .finish _ =>
    isTrue trivial

theorem InTime.sends {a : Action} (h : p.InTime a) : p.Sends Separate a := by
  cases a with
  | deliver stream item =>
    cases item with
    | chunk data => exact fun used hparse => (h used hparse).imp_right And.right
    | finished => trivial
    | failed err => trivial
  | openUni | acceptFails | poll | flush | decode | encode | finish => trivial

/-- Between actions, and between the stages of a poll. -/
structure Attends (p : Plane) : Prop where
  ordered : p.view.Ordered Separate
  created : p.streams.shared.encoder.isSome = p.streams.settingsReceived
  early : ∀ stream used,
    parseVarint (content (p.net.sent stream)) = .ok (some (streamTypeQpackDecoder, used)) →
      p.streams.settingsReceived ∨ (content (p.net.sent stream)).length ≤ used
  faithful : p.Faithful

theorem attends_start (settings : LocalSettings) : (start settings).Attends where
  ordered := ordered_start settings
  created := rfl
  early := fun stream used h => by cases h
  faithful := rfl

/-! ### Stages -/

/-- The decoder stream and the encoder's part in it stay as they are. -/
structure Deaf (p p' : Plane) : Prop where
  hears : p.streams.Hears p'.streams
  decoder_eq : p'.streams.inDecoder = p.streams.inDecoder
  inbox_eq : ∀ stream, p.streams.inDecoder = some stream → p'.net.inbox stream = p.net.inbox stream
  sent_eq : p'.net.sent = p.net.sent

theorem Deaf.refl (p : Plane) : Deaf p p := ⟨.refl _, rfl, fun _ _ => rfl, rfl⟩

theorem Deaf.faithful (h : Deaf p p') (hf : p.Faithful) : p'.Faithful := by
  unfold Faithful at hf ⊢
  rw [h.decoder_eq]
  cases hdecoder : p.streams.inDecoder with
  | none =>
    rw [hdecoder] at hf
    exact h.hears.fed_eq.trans hf
  | some stream =>
    rw [hdecoder] at hf
    dsimp only at hf ⊢
    rw [h.sent_eq, h.inbox_eq stream hdecoder, h.hears.fed_eq]
    exact hf

theorem Attends.next (hp : p.Attends) (hordered : p'.view.Ordered Separate)
    (hsent : p'.net.sent = p.net.sent)
    (hcreated : (p'.streams.settingsReceived = p.streams.settingsReceived ∧
        p'.streams.shared.encoder.isSome = p.streams.shared.encoder.isSome) ∨
      (p'.streams.settingsReceived = true ∧ p'.streams.shared.encoder.isSome = true))
    (hfaithful : p'.Faithful) : p'.Attends := by
  refine ⟨hordered, ?_, fun stream used hparse => ?_, hfaithful⟩
  · rcases hcreated with ⟨hr, he⟩ | ⟨hr, he⟩
    · rw [hr, he, hp.created]
    · rw [hr, he]
  · rw [hsent] at hparse ⊢
    rcases hcreated with ⟨hr, -⟩ | ⟨hr, -⟩
    · rw [hr]
      exact hp.early stream used hparse
    · exact .inl hr

theorem Deaf.attends (h : Deaf p p') (hp : p.Attends) (hordered : p'.view.Ordered Separate) :
    p'.Attends :=
  hp.next hordered h.sent_eq h.hears.created (h.faithful hp.faithful)

theorem pollSlot_deaf (hordered : p.view.Ordered Separate) {kind : Kind} (hne : kind ≠ .decoder)
    {onChunk : Octets → Except ControlError ControlStreams}
    {onEnd : Except ControlError ControlStreams}
    (hchunk : ∀ data c, onChunk data = .ok c →
      p.streams.Hears c ∧ c.inDecoder = p.streams.inDecoder)
    (hend : ∀ c, onEnd = .ok c → p.streams.Hears c ∧ c.inDecoder = p.streams.inDecoder)
    (h : p.pollSlot (p.streams.slot kind) onChunk onEnd = .ok (p', progressed)) : Deaf p p' := by
  have hinbox : ∀ stream, p.streams.inDecoder = some stream →
      p'.net.inbox stream = p.net.inbox stream := fun stream hstream =>
    pollSlot_inbox hordered hne h (show p.streams.slot .decoder = some stream from hstream)
  rcases pollSlot_ok h with ⟨rfl, -, -⟩ | ⟨stream, item, rest, c, -, -, rfl, -, hitem⟩
  · exact .refl _
  obtain ⟨hhears, hdecoder⟩ : p.streams.Hears c ∧ c.inDecoder = p.streams.inDecoder := by
    rcases hitem with ⟨data, -, hc⟩ | ⟨-, hc⟩
    · exact hchunk data c hc
    · exact hend c hc
  exact ⟨hhears, hdecoder, hinbox, rfl⟩

/-- A chunk of the decoder stream. If there is no encoder yet, the chunk is empty. -/
theorem readDecoder_faithful (hp : p.Attends) (h : p.readDecoder = .ok (p', progressed)) :
    p'.Faithful ∧ p'.streams.shared.encoder.isSome = p.streams.shared.encoder.isSome ∧
      p'.streams.settingsReceived = p.streams.settingsReceived := by
  rcases pollSlot_ok h with ⟨rfl, -, -⟩ | ⟨stream, item, rest, c, hslot, hinbox, rfl, -, hitem⟩
  · exact ⟨hp.faithful, rfl, rfl⟩
  rcases hitem with ⟨data, rfl, hc⟩ | ⟨-, hc⟩
  · obtain ⟨encoder, _, rfl, hsome⟩ := feedDecoderStream_ok hc
    have hdecoder : p.streams.inDecoder = some stream := hslot
    refine ⟨?_, hsome, rfl⟩
    have hfaithful := hp.faithful
    simp only [Faithful, hdecoder, hinbox] at hfaithful
    obtain ⟨used, hparse, hcontent⟩ := hfaithful
    simp only [hdecoder]
    refine ⟨used, hparse, ?_⟩
    rw [show (p.setInbox stream rest).net.inbox stream = rest from update_self _ _ _]
    change _ ++ (data ++ content rest) = _ at hcontent
    by_cases hencoder : p.streams.shared.encoder.isSome
    · rw [if_pos hencoder, append_assoc]
      exact hcontent
    have hshort : (content (p.net.sent stream)).length ≤ used :=
      (hp.early stream used hparse).resolve_left (hp.created ▸ hencoder)
    rw [drop_eq_nil_of_le hshort] at hcontent
    simp only [append_eq_nil_iff] at hcontent
    obtain ⟨hnil, -, hrest⟩ := hcontent
    rw [if_neg hencoder, hnil, hrest]
    exact (drop_eq_nil_of_le hshort).symm
  · cases hc

/-- A decoder stream is classified. Its type came alone. -/
theorem place_faithful (hp : p.Attends) {u : PendingUni} (hpending : p.streams.pendingUni = some u)
    {leftover : Octets} {rest : List Recv} {c : ControlStreams}
    (hread : readType u.buf (p.net.inbox u.stream) =
      .ok (.complete streamTypeQpackDecoder leftover rest))
    (hfed : c.fed = []) (hdecoder : c.inDecoder = some u.stream) :
    Faithful { p.setInbox u.stream rest with streams := c } := by
  have hat : p.view.At u.stream .pending := by simp [View.At, view, hpending]
  obtain ⟨seen, hreads, hseen, hnone⟩ := hp.ordered.reads hat
  obtain rfl : u.buf = seen := by simpa [view, hpending] using hseen
  obtain ⟨before, data, used, hbefore, hparse, -, hcontent, heach⟩ :=
    readType_complete _ hread hnone
  have hsent : before ++ data ++ content rest = content (p.net.sent u.stream) :=
    hcontent.trans hreads.content_eq
  -- the type was not complete before this chunk, and the chunk has nothing else
  have hused : used = (before ++ data).length := by
    rcases (heach hreads.each).1 used hparse with hle | hle
    · exact Nat.le_antisymm (parseVarint_len hparse).2 hle
    · rw [parseVarint_of_append hparse hle] at hbefore
      cases hbefore
  simp only [Faithful, hdecoder]
  refine ⟨used, ?_, ?_⟩
  · show parseVarint (content (p.net.sent u.stream)) = _
    rw [← hsent, parseVarint_append (by simp [hparse]), hparse]
  · show c.fed ++ content ((p.setInbox u.stream rest).net.inbox u.stream) =
      (content (p.net.sent u.stream)).drop used
    rw [show (p.setInbox u.stream rest).net.inbox u.stream = rest from update_self _ _ _,
      hfed, ← hsent, hused, drop_left, nil_append]

theorem classifyUni_faithful (hp : p.Attends) (h : p.classifyUni = .ok (p', progressed)) :
    p'.Faithful ∧ p.streams.Hears p'.streams := by
  have hinbox : ∀ stream, p.streams.inDecoder = some stream →
      p'.net.inbox stream = p.net.inbox stream := fun stream hstream =>
    stage_inbox hp.ordered (by simp) h (show p.streams.slot .decoder = some stream from hstream)
  rw [classifyUni] at h
  split at h
  · cases h
    exact ⟨hp.faithful, .refl _⟩
  · next u hpending =>
    split at h
    · cases h
    · cases h
      have hdeaf : Deaf p { p.setInbox u.stream [] with streams := { p.streams with
          pendingUni := some { u with buf := _ } } } := ⟨⟨rfl, .inl ⟨rfl, rfl⟩⟩, rfl, hinbox, rfl⟩
      exact ⟨hdeaf.faithful hp.faithful, hdeaf.hears⟩
    · next ty leftover rest hread =>
      obtain ⟨c, hplace, rfl, rfl⟩ := exists_of_onBehalf h
      have hplaced := place_hears hplace
      have hhears : p.streams.Hears c := ⟨hplaced.fed_eq, hplaced.created⟩
      have hdeaf : c.inDecoder = p.streams.inDecoder →
          Faithful { p.setInbox u.stream rest with streams := c } := fun hdecoder =>
        Deaf.faithful ⟨hhears, hdecoder, hinbox, rfl⟩ hp.faithful
      refine ⟨?_, hhears⟩
      cases place_ok hplace with
      | control => exact hdeaf rfl
      | @encoder c₁ _ hfed =>
        refine hdeaf ?_
        rcases hfed with rfl | hfed
        · rfl
        · exact congrFun (feedEncoderStream_settled hfed).slot_eq .decoder
      | decoder hfree =>
        have hnone := hp.faithful
        rw [Faithful, show p.streams.inDecoder = none from hfree] at hnone
        exact place_faithful hp hpending hread (hhears.fed_eq.trans hnone) rfl
      | discard => exact hdeaf rfl

theorem stage_attends (hf : f ∈ stages) (h : f p = .ok (p', progressed)) (hp : p.Attends) :
    p'.Attends := by
  have hordered := stage_ordered hf h hp.ordered
  have hsent := (stage_net hf h).1
  rcases stages_cases hf with rfl | rfl | rfl | rfl | rfl | rfl | rfl
  · refine Deaf.attends ?_ hp hordered
    rw [accept] at h
    split at h <;> cases h <;> exact ⟨⟨rfl, .inl ⟨rfl, rfl⟩⟩, rfl, fun _ _ => rfl, rfl⟩
  · obtain ⟨hfaithful, hhears⟩ := classifyUni_faithful hp h
    exact hp.next hordered hsent hhears.created hfaithful
  · refine (pollSlot_deaf hp.ordered (by simp) (fun data c hc => ?_) (fun c hc => by cases hc)
      h).attends hp hordered
    cases hc
    exact ⟨⟨rfl, .inl ⟨rfl, rfl⟩⟩, rfl⟩
  · refine Deaf.attends ?_ hp hordered
    rw [readFrames] at h
    split at h
    · cases h
      exact .refl _
    · split at h
      · cases h
      · next c b hframes =>
        cases h
        exact ⟨handleFrames_hears hframes,
          congrFun (handleFrames_ok _ hframes).1 .decoder, fun _ _ => rfl, rfl⟩
  · exact (pollSlot_deaf hp.ordered (by simp) (fun data c hc => ⟨feedEncoderStream_hears hc,
        congrFun (feedEncoderStream_settled hc).slot_eq .decoder⟩)
      (fun c hc => by cases hc) h).attends hp hordered
  · obtain ⟨hfaithful, hsome, hreceived⟩ := readDecoder_faithful hp h
    exact hp.next hordered hsent (.inl ⟨hreceived, hsome⟩) hfaithful
  · refine (pollSlot_deaf hp.ordered (by simp) (fun data c hc => ?_) (fun c hc => ?_) h).attends hp
      hordered
    · cases hc
      exact ⟨.refl _, rfl⟩
    · cases hc
      exact ⟨⟨rfl, .inl ⟨rfl, rfl⟩⟩, rfl⟩

theorem pollRead_attends {event : Option ControlEvent} (h : p.pollRead = .ok (p', event))
    (hp : p.Attends) : p'.Attends :=
  pollRead_rel (fun _ => id)
    (fun hpq hqr hp => hqr (hpq hp))
    (fun hpop hp => by
      obtain ⟨_, rfl⟩ := popEvent_eq hpop
      exact ⟨hp.ordered, hp.created, hp.early, hp.faithful⟩)
    (fun _ hf _ _ _ => stage_attends hf) h hp

/-! ### Steps and runs -/

theorem deliver_attends {stream : ℕ} {item : Recv} (hp : p.Attends)
    (hin : p.InTime (.deliver stream item)) (hstep : p.step (.deliver stream item) = .ok p') :
    p'.Attends := by
  have hordered : p'.view.Ordered Separate := step_ordered hp.ordered hin.sends hstep
  rw [step] at hstep
  split_ifs at hstep
  · cases hstep
    exact hp
  cases hstep
  refine ⟨hordered, hp.created, fun other used hparse => ?_, ?_⟩
  · dsimp only at hparse ⊢
    by_cases hne : other = stream
    · subst hne
      rw [update_self, content_append, content_singleton] at hparse ⊢
      cases item with
      | chunk data => exact (hin used hparse).elim .inr fun h => .inl h.1
      | finished | failed err =>
        simp only [Recv.octets, append_nil] at hparse ⊢
        exact hp.early other used hparse
    · rw [update_of_ne hne] at hparse ⊢
      exact hp.early other used hparse
  · have hf := hp.faithful
    unfold Faithful at hf ⊢
    dsimp only
    cases hdecoder : p.streams.inDecoder with
    | none =>
      rw [hdecoder] at hf
      exact hf
    | some other =>
      rw [hdecoder] at hf
      obtain ⟨used, hparse, hcontent⟩ := hf
      refine ⟨used, ?_, ?_⟩
      · by_cases hne : other = stream
        · subst hne
          rw [update_self, content_append, parseVarint_append (by simp [hparse]), hparse]
        · rw [update_of_ne hne, hparse]
      · by_cases hne : other = stream
        · subst hne
          rw [update_self, update_self, content_append, content_append,
            ← append_assoc, hcontent, drop_append_of_le_length (parseVarint_len hparse).2]
        · rw [update_of_ne hne, update_of_ne hne, hcontent]

theorem step_attends {a : Action} (hp : p.Attends) (hin : p.InTime a) (hstep : p.step a = .ok p') :
    p'.Attends := by
  cases a with
  | deliver stream item => exact deliver_attends hp hin hstep
  | poll =>
    obtain ⟨event, hpoll⟩ := step_poll hstep
    exact pollRead_attends hpoll hp
  | openUni =>
    cases hstep
    exact ⟨hp.ordered.openUni, hp.created, hp.early, hp.faithful⟩
  | acceptFails err =>
    cases hstep
    exact ⟨hp.ordered.acceptFails err, hp.created, hp.early, hp.faithful⟩
  | flush =>
    cases hstep
    unfold flushDecoder
    split <;> exact ⟨hp.ordered, hp.created, hp.early, hp.faithful⟩
  | decode stream block now =>
    rw [step] at hstep
    split at hstep
    · cases hstep
    · cases hstep
      exact ⟨hp.ordered, hp.created, hp.early, hp.faithful⟩
  | encode stream lines =>
    cases hstep
    exact ⟨hp.ordered, (p.streams.shared.encodeHeaders_frame stream lines).2.trans hp.created,
      hp.early, hp.faithful⟩
  | finish stream =>
    cases hstep
    exact ⟨hp.ordered, hp.created, hp.early, hp.faithful⟩

/-- When `poll_read` has read everything, a decoder stream is in its place. -/
theorem decoder_of_pending (hordered : p.view.Ordered C) (hhoused : p.view.Housed)
    (hquiet : Quiet p.view) (hnone : p.streams.pendingUni = none) {stream used : ℕ}
    (hparse : parseVarint (content (p.net.sent stream)) =
      .ok (some (streamTypeQpackDecoder, used))) :
    p.streams.inDecoder = some stream ∧ p.net.inbox stream = [] := by
  have hborn : stream < p.view.net.opened := by
    by_contra hle
    have hsent : p.net.sent stream = [] := (hordered.unborn stream (Nat.le_of_not_lt hle)).2
    rw [hsent] at hparse
    cases hparse
  rcases hhoused stream hborn with ⟨pos, hpos⟩ | ⟨ty, used', hparse', hkind⟩
  · cases pos with
    | slot kind =>
      obtain ⟨ty, used', hparse', hkind⟩ := hordered.typed hpos
      have heq := hparse'.symm.trans hparse
      obtain ⟨rfl, -⟩ := heq
      obtain rfl : Kind.decoder = kind := Option.some.inj hkind
      exact ⟨hpos, hquiet.slots .decoder stream hpos⟩
    | pending =>
      rw [View.At, show p.view.pending = none from hnone] at hpos
      cases hpos
    | incoming i =>
      rw [View.At, hquiet.incoming hnone] at hpos
      cases hpos
  · have heq := hparse'.symm.trans hparse
    obtain ⟨rfl, -⟩ := heq
    cases hkind

/-- In every state of a run in which the peer's decoder stream is in time, what the
encoder has been fed is what came on the stream after the type, up to what is still
to be read; and when `poll_read` has read everything, it is all of it. -/
theorem run_faithful {settings : LocalSettings} {actions : List Action}
    (hall : Along step InTime (start settings) actions)
    (hrun : run actions (start settings) = .ok p) :
    p.Faithful ∧ ∀ p', p.pollRead = .ok (p', none) → p'.streams.pendingUni = none →
      ∀ stream used, parseVarint (content (p'.net.sent stream)) =
          .ok (some (streamTypeQpackDecoder, used)) →
        p'.streams.fed = (content (p'.net.sent stream)).drop used := by
  obtain ⟨hattends, hhoused⟩ : p.Attends ∧ p.view.Housed :=
    Along.invariant (I := fun p => p.Attends ∧ p.view.Housed)
      (fun p a p' hi hin hstep => ⟨step_attends hi.1 hin hstep,
        (step_housed ⟨hi.1.ordered, hi.2⟩ hin.sends hstep).2⟩) actions hall
      ⟨attends_start settings, fun _ hlt => absurd hlt (Nat.not_lt_zero _)⟩ hrun
  refine ⟨hattends.faithful, fun p' hpoll hnone stream used hparse => ?_⟩
  have hattends' := pollRead_attends hpoll hattends
  have hhoused' : p'.view.Housed :=
    (pollRead_view (I := fun v => v.Ordered Separate ∧ v.Housed)
      (fun hmove h => ⟨h.1.move hmove, h.2.move h.1 hmove⟩) hpoll ⟨hattends.ordered, hhoused⟩).2
  obtain ⟨hdecoder, hinbox⟩ := decoder_of_pending hattends'.ordered hhoused'
    (quiet_of_pending hpoll) hnone hparse
  have hfaithful := hattends'.faithful
  simp only [Faithful, hdecoder, hinbox] at hfaithful
  obtain ⟨used', hparse', hcontent⟩ := hfaithful
  rw [hparse] at hparse'
  cases hparse'
  simpa [content] using hcontent

/-- Two instructions after SETTINGS, the second in two chunks. -/
theorem run_faithful_instructions : ∃ p p', Along step InTime (start {})
        [.openUni, .openUni, .deliver 0 (.chunk [0x00, 0x04, 0x00]), .deliver 1 (.chunk [0x03]),
          .poll, .deliver 1 (.chunk [0x44, 0x7f]), .deliver 1 (.chunk [0x01])] ∧
      run [.openUni, .openUni, .deliver 0 (.chunk [0x00, 0x04, 0x00]), .deliver 1 (.chunk [0x03]),
          .poll, .deliver 1 (.chunk [0x44, 0x7f]), .deliver 1 (.chunk [0x01])] (start {}) = .ok p ∧
      p.pollRead = .ok (p', none) ∧ p'.streams.fed = [0x44, 0x7f, 0x01] := by
  have hread : ∀ actions, Along step InTime (start {}) actions →
      ((run actions (start {})).map fun p => (p.pollRead.map fun r => (r.2,
        r.1.streams.pendingUni.isNone, content (r.1.net.sent 1))).toOption).toOption =
          some (some (none, true, [0x03, 0x44, 0x7f, 0x01])) →
      ∃ p p', Along step InTime (start {}) actions ∧ run actions (start {}) = .ok p ∧
        p.pollRead = .ok (p', none) ∧ p'.streams.fed = [0x44, 0x7f, 0x01] := by
    intro actions hall h
    obtain ⟨p, hrun, h⟩ := exists_ok_of_map h
    obtain ⟨⟨p', event⟩, hpoll, heq⟩ := exists_ok_of_map h
    simp only [Prod.mk.injEq, Option.isNone_iff_eq_none] at heq
    obtain ⟨rfl, hnone, hsent⟩ := heq
    have hfed := (run_faithful hall hrun).2 p' hpoll hnone 1 1 (by rw [hsent]; rfl)
    exact ⟨p, p', hall, hrun, hpoll, by rw [hfed, hsent]; rfl⟩
  exact hread _ (by decide +kernel) (by decide +kernel)

/-- An instruction in the chunk of the type, and one that comes before SETTINGS: both
are validated, neither reaches the encoder. -/
theorem run_unfaithful :
    (∃ p, run [.openUni, .deliver 0 (.chunk [0x00, 0x04, 0x00]), .poll, .openUni,
        .deliver 1 (.chunk [0x03, 0x44]), .poll] (start {}) = .ok p ∧
      p.streams.inDecoder = some 1 ∧ p.net.inbox 1 = [] ∧ content (p.net.sent 1) = [0x03, 0x44] ∧
      p.streams.shared.encoder.isSome ∧ p.streams.fed = []) ∧
    ∃ p, run [.openUni, .deliver 0 (.chunk [0x03]), .poll, .deliver 0 (.chunk [0x44]), .poll,
        .openUni, .deliver 1 (.chunk [0x00, 0x04, 0x00]), .poll] (start {}) = .ok p ∧
      p.streams.inDecoder = some 0 ∧ p.net.inbox 0 = [] ∧ content (p.net.sent 0) = [0x03, 0x44] ∧
      p.streams.shared.encoder.isSome ∧ p.streams.fed = [] := by
  exact ⟨exists_ok_of_decide (by decide +kernel), exists_ok_of_decide (by decide +kernel)⟩

end Plane

end ZincioHttp.H3
