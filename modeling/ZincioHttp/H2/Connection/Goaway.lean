import ZincioHttp.H2.Connection.Sound

/-! The last stream identifiers of the GOAWAY frames a server writes. There are two
producers, errors and the graceful shutdown. Both name the highest stream the peer has
opened, which stays as it is from the first of them on. -/

namespace ZincioHttp.H2

open List

def Frame.lastStream : Frame → Option ℕ
  | .goAway last _ _ => some last
  | _ => none

namespace Connection

/-- The last stream identifiers of the GOAWAY frames, in the order in which they are written. -/
def goaways (c : Connection) : List ℕ := c.written.filterMap Frame.lastStream

/-- No stream is opened on the way; a GOAWAY names the highest one and closes the
connection. -/
structure Warns (c c' : Connection) : Prop where
  highest : c'.highestStreamId = c.highestStreamId
  graceful : c'.graceful = c.graceful
  last : c'.gracefulLastStream = c.gracefulLastStream
  closing : c.closing = true → c'.closing = true
  goaways : ∃ n, c'.goaways = c.goaways ++ replicate n c.highestStreamId ∧
    (n ≠ 0 → c'.closing = true)

namespace Warns

variable {c c' c'' : Connection}

theorem trans (h : Warns c c') (h' : Warns c' c'') : Warns c c'' where
  highest := h'.highest.trans h.highest
  graceful := h'.graceful.trans h.graceful
  last := h'.last.trans h.last
  closing := h'.closing ∘ h.closing
  goaways := by
    obtain ⟨n, hn, hclosing⟩ := h.goaways
    obtain ⟨m, hm, hclosing'⟩ := h'.goaways
    refine ⟨n + m, by rw [hm, hn, h.highest, append_assoc, replicate_add], fun hne => ?_⟩
    rcases Nat.eq_zero_or_pos m with rfl | hpos
    · exact h'.closing (hclosing hne)
    · exact hclosing' hpos.ne'

theorem of_written (w : List Frame) (hw : c'.written = c.written ++ w)
    (hnone : ∀ f ∈ w, f.lastStream = none) (hhighest : c'.highestStreamId = c.highestStreamId)
    (hgraceful : c'.graceful = c.graceful) (hlast : c'.gracefulLastStream = c.gracefulLastStream)
    (hclosing : c.closing = true → c'.closing = true) : Warns c c' where
  highest := hhighest
  graceful := hgraceful
  last := hlast
  closing := hclosing
  goaways := by
    refine ⟨0, ?_, fun h => absurd rfl h⟩
    rw [Connection.goaways, Connection.goaways, hw, filterMap_append, filterMap_eq_nil_iff.2 hnone]
    rfl

theorem silent (hw : c'.written = c.written) (hhighest : c'.highestStreamId = c.highestStreamId)
    (hgraceful : c'.graceful = c.graceful) (hlast : c'.gracefulLastStream = c.gracefulLastStream)
    (hclosing : c.closing = true → c'.closing = true) : Warns c c' :=
  of_written [] (hw.trans (append_nil _).symm) nofun hhighest hgraceful hlast hclosing

section
variable (c : Connection)

theorem refl : Warns c c := silent rfl rfl rfl rfl (·)

theorem write {w : List Frame} (h : ∀ f ∈ w, f.lastStream = none) : Warns c (c.write w) :=
  of_written w rfl h rfl rfl rfl (·)

theorem goaway (reason : Reason) (debug : String) : Warns c (c.goaway reason debug) where
  highest := rfl
  graceful := rfl
  last := rfl
  closing _ := rfl
  goaways := ⟨1, filterMap_append, fun _ => rfl⟩

theorem reset (id code : ℕ) : Warns c (c.write [.reset id code]) :=
  write c fun _ hf => mem_singleton.1 hf ▸ rfl

theorem restoreWindows (id : ℕ) (octs : Octets) : Warns c (c.restoreWindows id octs) := by
  rw [Connection.restoreWindows]
  split_ifs
  · exact refl c
  · exact write c (by simp [Frame.lastStream])

end

theorem action {id : ℕ} {fin : Prop} {issued : List BodyMsg} (ha : Action id fin c issued c') :
    Warns c c' := by
  cases ha with
  | note hnote =>
    rw [hnote]
    exact silent rfl rfl rfl rfl (·)
  | credit octs => exact restoreWindows c id octs
  | answer => exact reset c id _
  | goaway reason debug => exact goaway c reason debug
  | idle debug => exact goaway c _ debug
  | reset code => exact (reset c id code).trans (silent rfl rfl rfl rfl (·))
  | cancelGoaway =>
    exact (silent rfl rfl rfl rfl (·) : Warns c (c.removeStream id)).trans (goaway _ _ _)
  | _ => exact silent rfl rfl rfl rfl (·)

theorem reaches {id : ℕ} {fin : Prop} {octs : Octets} (hr : Reaches id fin octs c c') :
    Warns c c' := by
  obtain ⟨issued, hacts, -⟩ := hr
  exact hacts.lift refl trans action

theorem responds (h : Responds c c') (hw : Answered c c') : Warns c c' := by
  obtain ⟨w, hw, hresponse⟩ := hw
  refine of_written w hw (fun f hf => ?_) (by rw [h.same]) (by rw [h.same]) (by rw [h.same])
    (by rw [h.same]; exact (·))
  have := hresponse f hf
  cases f with
  | goAway => cases this
  | _ => rfl

theorem applyPeerSettings (c : Connection) (settings : List Setting) :
    Warns c (c.applyPeerSettings settings) := by
  refine applyPeerSettings_induction (fun hs h => h.trans ?_) settings
    (refl c)
  cases hs with
  | shift => exact silent rfl rfl rfl rfl (·)
  | overflow =>
    refine trans ?_ (goaway _ _ _)
    exact silent rfl rfl rfl rfl (·)
  | invalid => exact goaway _ _ _
  | other _ _ heq =>
    rw [heq]
    exact silent rfl rfl rfl rfl (·)

theorem windowUpdate {hint : List ℕ} {id increment : ℕ} (h : WindowUpdate hint id increment c c') :
    Warns c c' := by
  cases h with
  | empty | gone => exact refl c
  | overflow | idle => exact goaway c _ _
  | connection =>
    exact (silent rfl rfl rfl rfl (·) : Warns c (c.growWindow increment)).trans
      (responds (.drainPendingData _ hint) (Answered.closed.drainPendingData _ hint))
  | error _ he =>
    have hr : Reaches id True [] c (c.streamError id .flowControlError) := .streamError he _
    exact reaches hr
  | @stream e =>
    exact (silent rfl rfl rfl rfl (·) : Warns c (c.setEntry id (e.growWindow increment))).trans
      (responds (.pumpStreamData _ id) (Answered.closed.pumps _ trivial).1)

theorem closed : RequestClosed Warns where
  refl := refl
  trans := trans
  action := action
  ping c _ := write c fun _ hf => mem_singleton.1 hf ▸ rfl
  heedGoaway _ := silent rfl rfl rfl rfl (·)

end Warns

/-- The GOAWAY frames agree with each other and with the streams that have been opened. -/
structure Promises (c : Connection) : Prop where
  sorted : c.goaways.Pairwise (· ≥ ·)
  bound : ∀ last ∈ c.goaways, c.highestStreamId ≤ last
  announced : c.goaways ≠ [] → c.graceful = true ∨ c.closing = true
  graceful : c.graceful = true → c.gracefulLastStream = c.highestStreamId

namespace Promises

variable {c c' : Connection}

section
variable (h : Promises c)
include h

theorem pairwise_append (n : ℕ) :
    (c.goaways ++ replicate n c.highestStreamId).Pairwise (· ≥ ·) := by
  rw [List.pairwise_append]
  refine ⟨h.sorted, pairwise_replicate.2 (.inr le_rfl), fun last hlast m hm => ?_⟩
  rw [eq_of_mem_replicate hm]
  exact h.bound last hlast

theorem mem_append {n last : ℕ} (hlast : last ∈ c.goaways ++ replicate n c.highestStreamId) :
    c.highestStreamId ≤ last := by
  rcases List.mem_append.1 hlast with hlast | hlast
  · exact h.bound last hlast
  · rw [eq_of_mem_replicate hlast]

theorem warns (hw : Warns c c') : Promises c' := by
  obtain ⟨n, hn, hclosing⟩ := hw.goaways
  refine ⟨hn ▸ h.pairwise_append n, fun last hlast => ?_, fun hne => ?_, fun hg => ?_⟩
  · rw [hn] at hlast
    rw [hw.highest]
    exact h.mem_append hlast
  · rw [hw.graceful]
    rcases Nat.eq_zero_or_pos n with rfl | hpos
    · rw [hn, replicate_zero, append_nil] at hne
      exact (h.announced hne).imp_right hw.closing
    · exact .inr (hclosing hpos.ne')
  · rw [hw.last, hw.highest]
    exact h.graceful (hw.graceful ▸ hg)

/-- A stream is opened only before the first GOAWAY: afterwards its frame is ignored or
stale. -/
theorem raise (hopen : c.closing = false) {id : ℕ} (hlt : c.highestStreamId < id)
    (hknown : ¬ (c.graceful = true ∧ id > c.gracefulLastStream)) (hgoaways : c'.goaways = c.goaways)
    (hgraceful : c'.graceful = c.graceful) : Promises c' := by
  have hcalm : ¬ c.graceful = true := fun hg => hknown ⟨hg, by rw [h.graceful hg]; exact hlt⟩
  have hnil : c'.goaways = [] := by
    by_contra hne
    rcases h.announced (hgoaways ▸ hne) with hg | hc
    · exact hcalm hg
    · rw [hopen] at hc
      cases hc
  refine ⟨by rw [hnil]; exact .nil, by simp [hnil], fun hne => absurd hnil hne, fun hg => ?_⟩
  exact absurd (hgraceful ▸ hg) hcalm

/-- One more GOAWAY that names the highest stream. -/
theorem announce (hgoaways : c'.goaways = c.goaways ++ [c.highestStreamId])
    (hhigh : c'.highestStreamId = c.highestStreamId) (hg : c'.graceful = true)
    (hlast : c'.gracefulLastStream = c.highestStreamId) : Promises c' := by
  refine ⟨hgoaways ▸ h.pairwise_append 1, fun last hl => ?_, fun _ => .inl hg, fun _ => ?_⟩
  · rw [hgoaways] at hl
    rw [hhigh]
    exact h.mem_append (n := 1) hl
  · rw [hlast, hhigh]

theorem opening {id : ℕ} {fin : Prop} (hopen : c.closing = false)
    (hknown : ¬ (c.graceful = true ∧ id > c.gracefulLastStream)) (ho : Opening id fin c c') :
    Promises c' := by
  cases ho with
  | ignored => exact h
  | invalid | stale => exact h.warns (.goaway c _ _)
  | refuse hlt =>
    refine h.raise hopen hlt hknown ?_ rfl
    exact filterMap_append.trans (append_nil _)
  | opens _ _ _ _ hlt => exact h.raise hopen hlt hknown rfl rfl

theorem processed {http : HttpCrate} {hint : List ℕ} {f : Frame} (hs : Reasonable c)
    (hreading : c.reading = true) (hf : Processed http hint c f c') : Promises c' := by
  rcases Warns.closed.processed hreading (fun _ hw => .windowUpdate hw)
      (fun settings _ => (Warns.applyPeerSettings c settings).trans
        (.write _ (by simp [Frame.lastStream]))) hs hf with
    hw | ⟨id, c₁, -, ho, hbeyond, hr⟩
  · exact h.warns hw
  · by_cases hknown : c.graceful = true ∧ id > c.gracefulLastStream
    · rw [hbeyond hknown] at hr
      exact h.warns (.reaches hr)
    · exact (h.opening (closing_of_reading hreading) hknown ho).warns (.reaches hr)

end

theorem step (http : HttpCrate) (h : Promises c) (hs : Reasonable c) (ev : Event) :
    Promises (step http c ev) := by
  have hstep := step_stepped http c ev
  generalize Connection.step http c ev = c' at hstep ⊢
  cases hstep with
  | same => exact h
  | frame hreading hf => exact h.processed hs hreading hf
  | frameError => exact h.warns (.goaway c _ _)
  | resume => exact h.warns (Warns.closed.resume hs)
  | @drain id =>
    exact h.warns (.responds (.drainStream c id) (Answered.closed.drainStream c trivial))
  | shutdown => exact h.announce filterMap_append rfl rfl rfl
  | finish hw =>
    rcases hw with rfl | ⟨hg, rfl⟩
    · rw [append_nil]
      exact ⟨h.sorted, h.bound, h.announced, h.graceful⟩
    · refine h.announce ?_ rfl hg (h.graceful hg)
      rw [h.graceful hg]
      exact filterMap_append
  | task =>
    rw [onTask_same]
    exact h.warns (.silent rfl rfl rfl rfl (·))

theorem start (opts : ConnectionOptions) : Promises (start opts) :=
  ⟨.nil, nofun, fun h => absurd rfl h, nofun⟩

end Promises

theorem run_promises (http : HttpCrate) (opts : ConnectionOptions) (events : List Event) :
    Promises (run http events (start opts)) ∧ Reasonable (run http events (start opts)) := by
  have hrun : ∀ (events : List Event) (c : Connection), Promises c → Reasonable c →
      Promises (run http events c) ∧ Reasonable (run http events c) := by
    intro events
    induction events with
    | nil => exact fun c h hs => ⟨h, hs⟩
    | cons ev events ih => exact fun c h hs => ih _ (h.step http hs ev) (hs.stepAny http ev)
  exact hrun events _ (.start opts) (.start _ opts)

/-- The last stream identifiers never increase. Once a GOAWAY is written, no request on a stream
beyond the one it names has been handed over, and none ever will be. -/
theorem run_goaways (http : HttpCrate) (opts : ConnectionOptions) (events later : List Event) :
    (run http events (start opts)).goaways.Pairwise (· ≥ ·) ∧
      ∀ last code debug, .goAway last code debug ∈ (run http events (start opts)).written →
        (∀ d ∈ (run http events (start opts)).dispatched, d.1 ≤ last) ∧
          ∀ d ∈ (run http (events ++ later) (start opts)).dispatched, d.1 ≤ last := by
  have hbound : ∀ (events : List Event) (last code : ℕ) (debug : Octets),
      .goAway last code debug ∈ (run http events (start opts)).written →
        ∀ d ∈ (run http events (start opts)).dispatched, d.1 ≤ last := by
    intro events last code debug hmem d hd
    obtain ⟨h, hs⟩ := run_promises http opts events
    have hspawned : (run http events (Connection.start opts)).spawned d.1 = true :=
      any_eq_true.2 ⟨d, hd, decide_eq_true rfl⟩
    exact (hs.spawned d.1 hspawned).trans (h.bound last (mem_filterMap.2 ⟨_, hmem, rfl⟩))
  obtain ⟨h, hs⟩ := run_promises http opts events
  refine ⟨h.sorted, fun last code debug hmem => ⟨hbound events last code debug hmem, ?_⟩⟩
  refine hbound _ last code debug ?_
  obtain ⟨w, hw⟩ := run_written http hs later
  rw [run_append, hw]
  exact mem_append_left _ hmem

end Connection

end ZincioHttp.H2
