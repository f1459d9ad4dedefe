import ZincioHttp.H2.Connection.Sound

/-! RST_STREAM takes its stream with it. Whichever event a connection takes, a stream for
which it queues a RST_STREAM on the request side is not in the map any more, and it is
none that the peer has yet to open. -/

namespace ZincioHttp.H2.Connection

open List Option Closes

/-- No stream comes up on the way, and a RST_STREAM leaves none behind. -/
structure Resets (c c' : Connection) : Prop extends Closes c c' where
  written : ∃ w, c'.written = c.written ++ w ∧ ∀ id code, .reset id code ∈ w →
    c'.entry id = none ∧ (id ∈ c.closedOrder ∨ (c.entry id).isSome = true)

namespace Resets

variable {c c' c'' : Connection}

theorem none_of_closes (hc : Closes c c') {id : ℕ} (h : c.entry id = none) :
    c'.entry id = none := by
  by_contra hne
  have hsome := hc.entry id (Option.isSome_iff_ne_none.2 hne)
  rw [h] at hsome
  cases hsome

theorem of_written (hc : Closes c c') {w : List Frame} (hw : c'.written = c.written ++ w)
    (hnone : ∀ id code, .reset id code ∉ w) : Resets c c' :=
  ⟨hc, w, hw, fun id code hmem => absurd hmem (hnone id code)⟩

theorem silent (hc : Closes c c') (hw : c'.written = c.written) : Resets c c' :=
  of_written hc (hw.trans (append_nil _).symm) fun _ _ => not_mem_nil

theorem refl (c : Connection) : Resets c c := silent (.refl c) rfl

theorem trans (h : Resets c c') (h' : Resets c' c'') : Resets c c'' := by
  obtain ⟨w, hw, hresets⟩ := h.written
  obtain ⟨w', hw', hresets'⟩ := h'.written
  refine ⟨h.toCloses.trans h'.toCloses, w ++ w', by rw [hw', hw, append_assoc], ?_⟩
  intro id code hmem
  rcases List.mem_append.1 hmem with hmem | hmem
  · obtain ⟨hnone, hknown⟩ := hresets id code hmem
    exact ⟨none_of_closes h'.toCloses hnone, hknown⟩
  · obtain ⟨hnone, hknown⟩ := hresets' id code hmem
    exact ⟨hnone, hknown.elim (h.closed id) fun he => .inr (h.entry id he)⟩

theorem write (c : Connection) {w : List Frame} (hw : ∀ id code, .reset id code ∉ w) :
    Resets c (c.write w) :=
  of_written ((Closes.refl c).silent rfl rfl) rfl hw

theorem goaway (c : Connection) (reason : Reason) (debug : String) :
    Resets c (c.goaway reason debug) :=
  of_written ((Closes.refl c).silent rfl rfl) rfl (by simp)

theorem of_reset {id code : ℕ} (hc : Closes c c') (hw : c'.written = c.written ++ [.reset id code])
    (hnone : c'.entry id = none) (hknown : id ∈ c.closedOrder ∨ (c.entry id).isSome = true) :
    Resets c c' := by
  refine ⟨hc, _, hw, fun id' code' hmem => ?_⟩
  obtain ⟨rfl, -⟩ := Frame.reset.inj (List.mem_singleton.1 hmem)
  exact ⟨hnone, hknown⟩

theorem action {id : ℕ} {fin : Prop} {issued : List BodyMsg} (ha : Action id fin c issued c') :
    Resets c c' := by
  have hc := Closes.action ha
  cases ha with
  | note hnote =>
    rw [hnote] at hc ⊢
    exact silent hc rfl
  | credit octs =>
    obtain ⟨w, hw, hcredit⟩ := restoreWindows_eq_write c id octs
    rw [hw] at hc ⊢
    refine of_written hc rfl fun id' code hmem => ?_
    obtain ⟨_, _, heq⟩ := hcredit _ hmem
    cases heq
  | answer hnone hclosed => exact of_reset hc rfl hnone (.inl hclosed)
  | goaway reason debug => exact goaway c reason debug
  | idle debug => exact goaway c _ debug
  | reset code he =>
    exact of_reset hc rfl (entry_removeStream _ id) (.inr (isSome_of_eq_some he))
  | cancelGoaway => exact of_written hc rfl (by simp)
  | _ => exact silent hc rfl

theorem requestClosed : RequestClosed Resets where
  refl := refl
  trans := trans
  action := action
  ping c _ := write c (by simp)
  heedGoaway c := silent ((Closes.refl c).silent rfl rfl) rfl

theorem setEntry {id : ℕ} {e : StreamEntry} (he : c.entry id = some e) (e' : StreamEntry) :
    Resets c (c.setEntry id e') :=
  silent (.setEntry (isSome_of_eq_some he) e') rfl

theorem pumpClosed : PumpClosed (fun _ => True) Resets where
  refl := refl
  trans := trans
  setEntry _ _ _ e' _ he _ _ := setEntry he e'
  settle c id _ p _ he hp := by
    refine of_written (Closes.pumpClosed.settle c trivial he hp) (settle_written c id p) ?_
    intro id' code hmem
    obtain ⟨frameEnd, octs, heq, -⟩ := hp.written _ hmem
    cases heq

theorem applyPeerSettings (c : Connection) (settings : List Setting) :
    Resets c (c.applyPeerSettings settings) := by
  have hshift : ∀ (c : Connection) (value : ℕ), Resets c (c.shiftTo value) := by
    intro c value
    refine silent (.same rfl fun id he => ?_) rfl
    have hentry : (c.shiftTo value).entry id = _ := entry_shiftWindows c _ id
    rwa [hentry, isSome_map] at he
  refine applyPeerSettings_induction (fun hs h => h.trans ?_) settings (refl c)
  cases hs with
  | shift => exact hshift _ _
  | overflow => exact (hshift _ _).trans (goaway _ _ _)
  | invalid => exact goaway _ _ _
  | other _ _ heq =>
    rw [heq]
    exact silent ((Closes.refl _).silent rfl rfl) rfl

theorem windowUpdate {hint : List ℕ} {id increment : ℕ} (h : WindowUpdate hint id increment c c') :
    Resets c c' := by
  cases h with
  | empty | gone => exact refl c
  | overflow | idle => exact goaway c _ _
  | connection =>
    have hgrow : Resets c (c.growWindow increment) := silent ((Closes.refl c).silent rfl rfl) rfl
    exact hgrow.trans (pumpClosed.drainPendingData _ hint)
  | error _ he =>
    have hr : Reaches id True [] c (c.streamError id .flowControlError) := .streamError he _
    exact requestClosed.reaches hr
  | stream _ he => exact (setEntry he _).trans (pumpClosed.pumps _ trivial).1

end Resets

/-- The streams of the new RST_STREAM frames are gone, and have been opened or refused. -/
def Vacates (c c' : Connection) : Prop :=
  ∃ w, c'.written = c.written ++ w ∧ ∀ id code, .reset id code ∈ w →
    c'.entry id = none ∧ id ≤ c'.highestStreamId

namespace Vacates

variable {c c' : Connection}

theorem of_resets (hclosed : ClosedBounded c) (hb : Bounded c) (h : Resets c c')
    (hhigh : c.highestStreamId ≤ c'.highestStreamId) : Vacates c c' := by
  obtain ⟨w, hw, hresets⟩ := h.written
  refine ⟨w, hw, fun id code hmem => ?_⟩
  obtain ⟨hnone, hknown | hsome⟩ := hresets id code hmem
  · exact ⟨hnone, (hclosed id hknown).trans hhigh⟩
  · obtain ⟨e, he⟩ := Option.isSome_iff_exists.1 hsome
    exact ⟨hnone, (hb id e he).trans hhigh⟩

/-- A stream that is opened or refused, and what its field block brings. -/
theorem opening {id : ℕ} {fin : Prop} {c₁ : Connection} (hclosed : ClosedBounded c) (hb : Bounded c)
    (hnone : c.entry id = none) (ho : Opening id fin c c₁) (hr : Resets c₁ c')
    (hhigh : c₁.highestStreamId ≤ c'.highestStreamId) : Vacates c c' := by
  obtain ⟨hclosed₁, hb₁⟩ := ho.closedBounded hclosed hb
  obtain ⟨w', hw', hvacates⟩ := of_resets hclosed₁ hb₁ hr hhigh
  have hfirst : ∃ w, c₁.written = c.written ++ w ∧ ∀ id' code, .reset id' code ∈ w →
      c₁.entry id' = none ∧ id' ≤ c₁.highestStreamId := by
    cases ho with
    | ignored | opens => exact ⟨[], (append_nil _).symm, fun _ _ => nofun⟩
    | invalid | stale => exact ⟨_, rfl, by simp⟩
    | refuse =>
      refine ⟨_, rfl, fun id' code hmem => ?_⟩
      obtain ⟨rfl, -⟩ := Frame.reset.inj (List.mem_singleton.1 hmem)
      exact ⟨hnone, le_rfl⟩
  obtain ⟨w, hw, hresets⟩ := hfirst
  refine ⟨w ++ w', by rw [hw', hw, append_assoc], fun id' code hmem => ?_⟩
  rcases List.mem_append.1 hmem with hmem | hmem
  · obtain ⟨hnone₁, hle⟩ := hresets id' code hmem
    exact ⟨Resets.none_of_closes hr.toCloses hnone₁, hle.trans hhigh⟩
  · exact hvacates id' code hmem

theorem processed {http : HttpCrate} {hint : List ℕ} {f : Frame} (hs : Reasonable c)
    (hreading : c.reading = true) (hhigh : c.highestStreamId ≤ c'.highestStreamId)
    (h : Processed http hint c f c') : Vacates c c' := by
  rcases Resets.requestClosed.processed hreading (fun _ hw => Resets.windowUpdate hw)
      (fun settings _ => (Resets.applyPeerSettings c settings).trans (.write _ (by simp))) hs h with
    hr | ⟨id, c₁, hnone, ho, -, hr⟩
  · exact of_resets hs.closed hs.tidy.bounded hr hhigh
  · exact opening hs.closed hs.tidy.bounded hnone ho (Resets.requestClosed.reaches hr) hr.highest.ge

theorem step (http : HttpCrate) (hs : Reasonable c) (ev : Event)
    (hev : ∀ id, ev ≠ .drainStream id) : Vacates c (step http c ev) := by
  have hhigh := (step_effect_any http hs.tidy ev).highest
  have hsilent : ∀ {c' : Connection}, c'.written = c.written → Vacates c c' := fun hw =>
    ⟨[], hw.trans (append_nil _).symm, fun _ _ => nofun⟩
  have hstep := step_stepped http c ev
  generalize Connection.step http c ev = c' at hhigh hstep ⊢
  cases hstep with
  | same => exact hsilent rfl
  | frame hreading h => exact processed hs hreading hhigh h
  | frameError => exact of_resets hs.closed hs.tidy.bounded (.goaway c _ _) le_rfl
  | resume => exact of_resets hs.closed hs.tidy.bounded (Resets.requestClosed.resume hs) hhigh
  | drain => exact absurd rfl (hev _)
  | shutdown => exact ⟨_, rfl, by simp⟩
  | finish hw => exact ⟨_, rfl, by rcases hw with rfl | ⟨-, rfl⟩ <;> simp⟩
  | task =>
    refine hsilent ?_
    rw [onTask_same]

end Vacates

end ZincioHttp.H2.Connection
