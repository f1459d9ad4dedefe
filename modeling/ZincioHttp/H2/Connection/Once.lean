import ZincioHttp.H2.Connection.Credit

/-! What happens once. A request is handed to a handler at most once; every PING and every
SETTINGS of the peer is acknowledged once, in the order in which they came. -/

namespace ZincioHttp.H2

open Lib List

/-- What a frame of the peer is to be answered with. -/
def Frame.answer : Frame → List Frame
  | .ping false payload => [.ping true payload]
  | .settings false _ => [.settings true []]
  | _ => []

def Frame.isAck : Frame → Bool
  | .ping true _ | .settings true _ => true
  | _ => false

namespace Connection

variable {c c' : Connection} {id : ℕ} {hint : List ℕ} {f : Frame}

/-! ### Requests -/

/-- The requests handed over stay so, and no stream gets a second one. -/
structure Dispatches (c c' : Connection) : Prop where
  kept : c.dispatched <+: c'.dispatched
  once : (c.dispatched.map Prod.fst).Nodup → (c'.dispatched.map Prod.fst).Nodup

namespace Dispatches

theorem same (h : c'.dispatched = c.dispatched) : Dispatches c c' :=
  ⟨⟨[], by rw [h, append_nil]⟩, by rw [h]; exact (·)⟩

theorem trans {c'' : Connection} (h : Dispatches c c') (h' : Dispatches c' c'') :
    Dispatches c c'' :=
  ⟨h.kept.trans h'.kept, h'.once ∘ h.once⟩

variable {fin : ℕ → Prop} {octs : Octets}

theorem action {issued : List BodyMsg} (h : Marked fin c) (ha : Action id (fin id) c issued c') :
    Dispatches c c' := by
  cases ha with
  | note hnote => exact same (by rw [hnote])
  | credit octs =>
    obtain ⟨w, hw, -⟩ := restoreWindows_eq_write c id octs
    exact same (by rw [hw]; rfl)
  | @spawn e parsed endStream _ he hnew =>
    refine ⟨⟨[(id, parsed)], rfl⟩, fun hnodup => ?_⟩
    have hnot := (h.fresh id e he hnew).2
    rw [Connection.spawn, map_append]
    refine hnodup.append (nodup_singleton _) (disjoint_singleton.2 fun hmem => ?_)
    obtain ⟨d, hd, hid⟩ := mem_map.1 hmem
    exact any_eq_false.1 hnot d hd (decide_eq_true hid)
  | _ => exact same rfl

theorem reaches (h : Marked fin c) (hr : Reaches id (fin id) octs c c') : Dispatches c c' := by
  obtain ⟨issued, hacts, -⟩ := hr
  suffices Dispatches c c' ∧ Marked fin c' from this.1
  induction hacts with
  | refl => exact ⟨same rfl, h⟩
  | tail _ ha ih => exact ⟨ih.1.trans (action ih.2 ha), ih.2.action ha⟩

theorem deed {ev : Event} (hs : Sound fin c) (hd : Deed fin c ev c') : Dispatches c c' := by
  cases hd with
  | request _ _ _ hr | resume _ hr | noWindow _ _ _ hr => exact reaches hs.toMarked hr
  | opening hreading hnone ho hr =>
    refine trans (same ?_) (reaches (Marked.opening hs hreading hnone ho) hr)
    cases ho <;> rfl
  | connectionWindow hint increment => exact same (Responds.drainPendingData _ hint).dispatched
  | @streamWindow hint id increment e => exact same (Responds.pumpStreamData _ id).dispatched
  | settings hint settings =>
    refine same (applyPeerSettings_induction (P := fun c' => c'.dispatched = c.dispatched)
      (fun hs h => ?_) settings rfl)
    cases hs with
    | shift | overflow | invalid => exact h
    | other _ _ heq => rwa [heq]
  | drain id => exact same (Responds.drainStream c id).dispatched
  | task id t => exact same (by rw [onTask_same])
  | flags hf =>
    obtain ⟨w, -, -, heq⟩ := hf
    exact same (by rw [heq])

theorem run (http : HttpCrate) (events : List Event) : ∀ {c : Connection}, Reasonable c →
    Dispatches c (run http events c) ∧ Reasonable (Connection.run http events c) := by
  induction events with
  | nil => exact fun h => ⟨same rfl, h⟩
  | cons ev events ih =>
    intro c h
    obtain ⟨hd, hr⟩ := ih (h.stepAny http ev)
    exact ⟨(deed h (step_deed_any http h ev)).trans hd, hr⟩

end Dispatches

/-- No stream has its request handed over twice, and what has been handed over stays so. -/
theorem run_dispatches_once (http : HttpCrate) (opts : ConnectionOptions)
    (events later : List Event) :
    ((run http (events ++ later) (start opts)).dispatched.map Prod.fst).Nodup ∧
      (run http events (start opts)).dispatched <+:
        (run http (events ++ later) (start opts)).dispatched := by
  obtain ⟨hd, hr⟩ := Dispatches.run http events (.start _ opts)
  obtain ⟨hl, -⟩ := Dispatches.run http later hr
  rw [run_append]
  exact ⟨hl.once (hd.once nodup_nil), hl.kept⟩

/-! ### Acknowledgments -/

def acks (c : Connection) : List Frame := c.written.filter Frame.isAck

theorem acks_append {w : List Frame} (h : c'.written = c.written ++ w) :
    c'.acks = c.acks ++ w.filter Frame.isAck := by
  rw [acks, h, filter_append, acks]

theorem acks_quiet {P : Frame → Prop} (h : Adds P c.written c'.written)
    (hP : ∀ f, P f → f.isAck = false) : c'.acks = c.acks := by
  obtain ⟨w, hw, hf⟩ := h
  have hnone : w.filter Frame.isAck = [] :=
    filter_eq_nil_iff.2 fun f hmem => Bool.eq_false_iff.1 (hP f (hf f hmem))
  rw [acks_append hw, hnone, append_nil]

theorem acks_unanswered (h : c'.acks = c.acks) : c'.acks = c.acks ++ [] := by
  rw [h, append_nil]

theorem Refuses.acks (h : Refuses c c') : c'.acks = c.acks :=
  acks_quiet h fun f hf => by cases f <;> first | rfl | cases hf

theorem Answered.acks (h : Answered c c') : c'.acks = c.acks :=
  acks_quiet h fun f hf => by cases f <;> first | rfl | cases hf

theorem acks_handleDataFrame (c : Connection) (id : ℕ) (endStream : Bool) (octs : Octets) :
    (c.handleDataFrame id endStream octs).acks = c.acks := by
  by_cases hempty : (octs.isEmpty && !endStream) = true
  · rw [handleDataFrame, if_pos hempty]
  · obtain ⟨w, hw, hf⟩ := restoreWindows_eq_write c id octs
    rw [(Refuses.closed.handleDataFrame hempty fun _ _ _ _ => trivial).acks, hw]
    exact acks_quiet ⟨w, rfl, hf⟩ (by rintro _ ⟨id', increment, rfl⟩; rfl)

theorem WindowUpdate.acks {increment : ℕ} (h : WindowUpdate hint id increment c c') :
    c'.acks = c.acks := by
  cases h with
  | empty | gone => rfl
  | overflow | idle => exact (Refuses.goaway c _ _).acks
  | connection => exact (Answered.closed.drainPendingData (c.growWindow increment) hint).acks
  | error => exact (Refuses.closed.streamError c id _).acks
  | @stream e =>
    exact (Answered.closed.pumps (c.setEntry id (e.growWindow increment)) trivial).1.acks

theorem Handled.acks (h : Handled hint c f c') : c'.acks = c.acks ++ f.answer := by
  cases h with
  | ignored hf =>
    cases f with
    | settings | ping | priority | unknown => cases hf; exact acks_unanswered rfl
    | _ => cases hf
  | settings settings =>
    rw [← (Refuses.applyPeerSettings c settings).acks]
    exact acks_append (w := [.settings true []]) rfl
  | ping payload => exact acks_append (w := [.ping true payload]) rfl
  | goAway => exact acks_unanswered rfl
  | data => exact acks_unanswered (acks_handleDataFrame _ _ _ _)
  | reset => exact acks_unanswered (Refuses.closed.handleResetFrame trivial).acks
  | windowUpdate h => exact acks_unanswered h.acks
  | pushPromise => exact acks_unanswered (Refuses.goaway c _ _).acks

/-- A frame that does not close the connection is acknowledged if it asks for it. -/
theorem Processed.acks {http : HttpCrate} (h : Processed http hint c f c')
    (hopen : c'.closing = false) : c'.acks = c.acks ++ f.answer := by
  cases h with
  | rejected => cases hopen
  | goAway => exact acks_unanswered rfl
  | headers =>
    rw [(Refuses.finalizeComplete http _).acks]
    exact acks_unanswered (Refuses.fragment (.handleHeadersFrame _ _ _ _ _)).acks
  | continuation =>
    rw [(Refuses.finalizeComplete http _).acks]
    exact acks_unanswered (Refuses.fragment (.handleContinuation _ _ _ _)).acks
  | pushPromise =>
    rw [(Refuses.finalizeComplete http _).acks]
    exact acks_unanswered (Refuses.goaway _ _ _).acks
  | other _ h => rw [(Refuses.finalizeComplete http _).acks, h.acks]

theorem acks_step (http : HttpCrate) (c : Connection) (ev : Event)
    (hopen : (step http c ev).closing = false) :
    (step http c ev).acks = c.acks ++ (c.taken ev).flatMap Frame.answer := by
  have hstep := step_stepped http c ev
  generalize step http c ev = c' at hstep hopen
  cases hstep with
  | same _ htaken => rw [htaken]; exact acks_unanswered rfl
  | frame hreading h => rw [h.acks hopen, taken, if_pos hreading, flatMap_singleton]
  | frameError => cases hopen
  | resume => exact acks_unanswered (Refuses.closed.resume fun _ _ _ _ _ => trivial).acks
  | drain => exact acks_unanswered (Answered.closed.drainStream c trivial).acks
  | shutdown =>
    exact acks_unanswered (acks_quiet (P := (·.isAck = false)) (.one rfl rfl) fun _ => (·))
  | finish hw =>
    refine acks_unanswered (acks_quiet ⟨_, rfl, ?_⟩ fun _ => (·))
    rcases hw with rfl | ⟨-, rfl⟩ <;> simp [Frame.isAck]
  | task => rw [onTask_same]; exact acks_unanswered rfl

theorem acks_run (http : HttpCrate) (events : List Event) : ∀ {c : Connection}, Reasonable c →
    (run http events c).closing = false →
    (run http events c).acks = c.acks ++ (received http events c).flatMap Frame.answer := by
  induction events with
  | nil => exact fun _ _ => (append_nil _).symm
  | cons ev events ih =>
    intro c hr hopen
    have hnext := hr.stepAny http ev
    have hstep : (step http c ev).closing = false := by
      by_contra hclosing
      cases (closing_run http events hnext (by simpa using hclosing)).symm.trans hopen
    rw [received, flatMap_append, ← append_assoc, ← acks_step http c ev hstep]
    exact ih hnext hopen

/-- The acknowledgments written are the answers to the frames received, one for each PING and
each SETTINGS and in their order. -/
theorem run_acknowledges (http : HttpCrate) (opts : ConnectionOptions) (events : List Event)
    (hopen : (run http events (start opts)).closing = false) :
    (run http events (start opts)).acks =
      (received http events (start opts)).flatMap Frame.answer :=
  acks_run http events (.start _ opts) hopen

theorem run_acknowledges_settings_ping :
    (run .permissive [.frame [] (.settings false []),
      .frame [] (.ping false [1, 2, 3, 4, 5, 6, 7, 8])]
        (start .default)).acks = [.settings true [], .ping true [1, 2, 3, 4, 5, 6, 7, 8]] :=
  run_acknowledges .permissive .default _ (by decide +kernel)

end Connection

end ZincioHttp.H2
