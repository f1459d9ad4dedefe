import ZincioHttp.H3.Qpack.Queue

/-! What the encoder remembers of sections it has sent. For each stream it keeps
the smallest references of its sections, oldest first; an acknowledgment frees
the oldest. The sections of a stream are decoded in order, so what an
acknowledgment frees is never the reference of a section that is still on its
way. -/

namespace ZincioHttp.H3.Qpack

open Lib ZincioHttp.Hpack DynamicTable List Parcel Feedback

def Parcel.on (stream : ℕ) (parcels : List Parcel) : List Parcel :=
  parcels.filter fun p => decide (p.stream = stream)

def refsOn (stream : ℕ) (refs : List (ℕ × ℕ)) : List (ℕ × ℕ) :=
  refs.filter fun r => decide (r.1 = stream)

/-- The references of a stream are those of acknowledged sections, as many as
there are acknowledgments on the way, and those of the sections `waiting`. -/
def Owed (stream : ℕ) (acks : List Feedback) (waiting : List Parcel) (refs : List (ℕ × ℕ)) : Prop :=
  ∃ gone, refsOn stream refs = gone ++ waiting.flatMap Parcel.pending ∧
    gone.length = acks.count (.sectionAck stream)

section Parcels
variable {stream : ℕ} {parcels parcels' : List Parcel} {p : Parcel}

@[simp] theorem Parcel.on_append (stream : ℕ) (parcels parcels' : List Parcel) :
    on stream (parcels ++ parcels') = on stream parcels ++ on stream parcels' :=
  filter_append ..

theorem Parcel.on_eq_nil (h : stream ∉ parcels.map Parcel.stream) : on stream parcels = [] := by
  rw [on, filter_eq_nil_iff]
  intro q hq
  simp only [decide_eq_true_eq]
  rintro rfl
  exact h (mem_map_of_mem hq)

theorem Parcel.on_singleton (stream : ℕ) (p : Parcel) :
    on stream [p] = if p.stream = stream then [p] else [] := by
  simp [on, filter_cons]

/-- Overtaking parcels of other streams goes unnoticed. -/
theorem Parcel.on_swap (stream : ℕ) (h : p.stream ∉ parcels.map Parcel.stream) :
    on stream parcels ++ on stream [p] = on stream [p] ++ on stream parcels := by
  by_cases hs : p.stream = stream
  · rw [on_eq_nil (hs ▸ h)]
    simp
  · simp [on_singleton, hs]

theorem refsOn_append (stream : ℕ) (refs refs' : List (ℕ × ℕ)) :
    refsOn stream (refs ++ refs') = refsOn stream refs ++ refsOn stream refs' :=
  filter_append ..

theorem refsOn_pending (stream : ℕ) (p : Parcel) :
    refsOn stream p.pending = (on stream [p]).flatMap pending := by
  have hall : ∀ r ∈ p.pending, r.1 = p.stream := by
    intro r hr
    simp only [pending, Option.mem_toList, Option.map_eq_some_iff] at hr
    obtain ⟨m, -, rfl⟩ := hr
    rfl
  rw [on_singleton]
  split_ifs with hs
  · rw [flatMap_singleton, refsOn, filter_eq_self]
    intro r hr
    simp [hall r hr, hs]
  · rw [flatMap_nil, refsOn, filter_eq_nil_iff]
    intro r hr
    simp [hall r hr, hs]

theorem count_acks (stream : ℕ) (parcels : List Parcel) :
    (parcels.flatMap acks).count (.sectionAck stream) =
      ((on stream parcels).flatMap pending).length := by
  induction parcels with
  | nil => rfl
  | cons p parcels ih =>
    have hp : p.acks.count (.sectionAck stream) = ((on stream [p]).flatMap pending).length := by
      rw [← refsOn_pending, refsOn, ← countP_eq_length_filter, acks, count, countP_map]
      apply countP_congr
      intro r _
      simp
    rw [flatMap_cons, count_append, ih, hp, show p :: parcels = [p] ++ parcels from rfl,
      on_append, flatMap_append, length_append]

end Parcels

namespace Owed

variable {stream : ℕ} {acks : List Feedback} {waiting : List Parcel} {refs : List (ℕ × ℕ)}

theorem send (h : Owed stream acks waiting refs) (p : Parcel) :
    Owed stream acks (waiting ++ on stream [p]) (refs ++ p.pending) := by
  obtain ⟨gone, hrefs, hlen⟩ := h
  refine ⟨gone, ?_, hlen⟩
  rw [refsOn_append, hrefs, refsOn_pending, flatMap_append, append_assoc]

/-- Sections are decoded, and acknowledged along with whatever else. -/
theorem release (out : List Parcel) {incs : List Feedback}
    (h : Owed stream acks (on stream out ++ waiting) refs)
    (hincs : .sectionAck stream ∉ incs) :
    Owed stream (acks ++ (out.flatMap Parcel.acks ++ incs)) waiting refs := by
  obtain ⟨gone, hrefs, hlen⟩ := h
  refine ⟨gone ++ (on stream out).flatMap pending, ?_, ?_⟩
  · rw [hrefs, flatMap_append, append_assoc]
  · rw [length_append, hlen, count_append, count_append, count_acks, count_eq_zero_of_not_mem hincs]
    omega

/-- The references of sections on their way are among those noted down. -/
theorem mem_refs (h : Owed stream acks waiting refs) {p : Parcel} (hp : p ∈ waiting)
    {r : ℕ × ℕ} (hr : r ∈ p.pending) : r ∈ refs := by
  obtain ⟨gone, hrefs, -⟩ := h
  have : r ∈ refsOn stream refs := by
    rw [hrefs, mem_append]
    exact .inr (List.mem_flatMap.2 ⟨p, hp, hr⟩)
  exact mem_of_mem_filter this

end Owed

/-! ### Acknowledgments at the encoder -/

/-- What the encoder relies on while feedback `acks` is on its way: nothing at or
above `first` has been evicted, and `waiting` are the sections not decoded yet. -/
structure Encoder.Tracks (first bound : ℕ) (acks : List Feedback) (waiting : ℕ → List Parcel)
    (e : Encoder) : Prop where
  cached : e.cachedMinPending = minPending e.pendingRefs
  floor : first ≤ e.evictableFloor
  owed : ∀ stream, Owed stream acks (waiting stream) e.pendingRefs
  known : e.knownReceived + (acks.map Feedback.amount).sum ≤ bound
  fits : ∀ a ∈ acks, a.Fits ∧ a ≠ .increment 0

namespace Encoder.Tracks

variable {first bound : ℕ} {acks : List Feedback} {waiting : ℕ → List Parcel} {e : Encoder}

/-- An acknowledgment frees the oldest reference of its stream. -/
theorem acknowledgeSection {stream : ℕ}
    (h : e.Tracks first bound (.sectionAck stream :: acks) waiting) :
    ∃ refs cached, e.acknowledgeSection stream =
        { e with pendingRefs := refs, cachedMinPending := cached } ∧
      Tracks first bound acks waiting
        { e with pendingRefs := refs, cachedMinPending := cached } := by
  obtain ⟨gone, hrefs, hlen⟩ := h.owed stream
  rw [count_cons_self] at hlen
  rcases e.acknowledgeSection_cases stream with ⟨hnone, -⟩ | ⟨l₁, m, l₂, hsplit, hl₁, hack⟩
  · -- the stream has a reference to free
    have hnil : refsOn stream e.pendingRefs = [] := by
      rw [refsOn]
      simpa using hnone
    rw [hnil] at hrefs
    rw [(List.append_eq_nil_iff.1 hrefs.symm).1] at hlen
    cases hlen
  have hon₁ : refsOn stream l₁ = [] := by
    rw [refsOn]
    simpa using hl₁
  have hmin := minPending_append l₁ ((stream, m) :: l₂)
  rw [← hsplit, show minPending ((stream, m) :: l₂) = min m (minPending l₂) from rfl] at hmin
  have hmin' := minPending_append l₁ l₂
  have hfloor := h.floor
  simp only [evictableFloor, h.cached, le_min_iff] at hfloor
  refine ⟨l₁ ++ l₂, minPending (l₁ ++ l₂), ?_, rfl, ?_, ?_, ?_, ?_⟩
  · simp only [hack, h.cached]
    split_ifs
    · rfl
    · congr 1
      omega
  · simp only [evictableFloor, le_min_iff]
    exact ⟨hfloor.1, by omega⟩
  · intro t
    obtain ⟨gone', hrefs', hlen'⟩ := h.owed t
    by_cases ht : t = stream
    · subst ht
      rw [hsplit, refsOn_append, hon₁, nil_append] at hrefs'
      have hcons : refsOn t ((t, m) :: l₂) = (t, m) :: refsOn t l₂ := by
        simp [refsOn]
      rw [hcons] at hrefs'
      cases gone' with
      | nil => simp at hlen'
      | cons r gone' =>
        rw [cons_append, cons.injEq] at hrefs'
        refine ⟨gone', ?_, by simpa using hlen'⟩
        rw [refsOn_append, hon₁, nil_append, hrefs'.2]
    · refine ⟨gone', ?_, ?_⟩
      · rw [← hrefs', hsplit]
        simp [refsOn, Ne.symm ht]
      · rw [hlen', count_cons_of_ne (by simpa using Ne.symm ht)]
  · have := h.known
    simpa [amount] using this
  · exact fun a ha => h.fits a (by simp [ha])

/-- An increment raises what the encoder knows to be received. -/
theorem increment {n : ℕ} (h : e.Tracks first bound (.increment n :: acks) waiting) :
    Tracks first bound acks waiting { e with knownReceived := e.knownReceived + n } := by
  refine ⟨h.cached, ?_, ?_, ?_, fun a ha => h.fits a (by simp [ha])⟩
  · have := h.floor
    simp only [evictableFloor] at this ⊢
    omega
  · intro s
    obtain ⟨gone, hrefs, hlen⟩ := h.owed s
    exact ⟨gone, hrefs, by rw [hlen, count_cons_of_ne (by simp)]⟩
  · have := h.known
    simp only [map_cons, sum_cons, amount] at this
    show e.knownReceived + n + _ ≤ bound
    omega

theorem handleAll (done : List Feedback) : ∀ {e : Encoder} {todo : List Feedback},
    e.Tracks first bound (done ++ todo) waiting → bound ≤ e.dynamic.inserted →
    ∃ known refs cached, Lib.handleAll (fun e a => handleInstruction e (code a)) e done =
        .ok { e with knownReceived := known, pendingRefs := refs, cachedMinPending := cached } ∧
      Tracks first bound todo waiting
        { e with knownReceived := known, pendingRefs := refs, cachedMinPending := cached } := by
  induction done with
  | nil =>
    intro e todo h _
    exact ⟨e.knownReceived, e.pendingRefs, e.cachedMinPending, rfl, h⟩
  | cons a done ih =>
    intro e todo h hbound
    obtain ⟨hfits, hzero⟩ := h.fits a (by simp)
    cases a with
    | sectionAck stream =>
      obtain ⟨refs, cached, hack, h'⟩ := h.acknowledgeSection
      obtain ⟨known, refs', cached', hrest, htracks⟩ := ih h' hbound
      refine ⟨known, refs', cached', ?_, htracks⟩
      rw [Lib.handleAll, handle_sectionAck e hfits, hack]
      exact hrest
    | increment n =>
      have hpos : 0 < n := Nat.pos_of_ne_zero fun h0 => hzero (by rw [h0])
      have hknown := h.known
      simp only [cons_append, map_cons, sum_cons, amount] at hknown
      obtain ⟨known, refs', cached', hrest, htracks⟩ := ih h.increment hbound
      refine ⟨known, refs', cached', ?_, htracks⟩
      rw [Lib.handleAll, handle_increment e hfits hpos (by omega)]
      exact hrest

theorem feedDecoderStream (h : e.Tracks first bound acks waiting)
    (hbound : bound ≤ e.dynamic.inserted) (buf later : Octets)
    (hbytes : e.decoderStreamPending ++ (buf ++ later) = acks.flatMap code) :
    ∃ known refs cached pending acks', e.feedDecoderStream buf = .ok { e with
          knownReceived := known
          pendingRefs := refs
          cachedMinPending := cached
          decoderStreamPending := pending } ∧
      Tracks first bound acks' waiting { e with
          knownReceived := known
          pendingRefs := refs
          cachedMinPending := cached
          decoderStreamPending := pending } ∧
      pending ++ later = acks'.flatMap code := by
  set data := e.decoderStreamPending ++ buf with hdata
  rw [← append_assoc, ← hdata] at hbytes
  obtain ⟨done, todo, pending, rfl, hsplit, hpartial, hdrain⟩ := @drain_eq _ _ _ _
    decoderInstructionLen code rfl handleInstruction acks
    data.length e data le_rfl (fun a _ => framed a) ⟨later, hbytes⟩
  obtain ⟨known, refs, cached, hhandle, htracks⟩ := h.handleAll done hbound
  rw [hhandle] at hdrain
  have hshort : pending.length ≤ maxDecoderStreamInstruction := by
    cases todo with
    | nil => simp [ hpartial.eq_nil]
    | cons a todo =>
      have h₁ := hpartial.2 a todo rfl
      have h₂ := length_code_le (h.fits a (by simp)).1
      unfold maxDecoderStreamInstruction
      omega
  refine ⟨known, refs, cached, pending, todo, ?_, ?_, ?_⟩
  · rw [Encoder.feedDecoderStream]
    simp only [← hdata, hdrain, Except.map]
    rw [if_neg (by omega)]
  · exact ⟨htracks.cached, htracks.floor, htracks.owed, htracks.known, htracks.fits⟩
  · rw [flatMap_append, hsplit, append_assoc] at hbytes
    exact append_cancel_left hbytes

end Encoder.Tracks

end ZincioHttp.H3.Qpack
