import ZincioHttp.H2.Connection.Deeds

/-! What holds of a connection between any two events, whatever the peer, the stream
tasks and the handlers do. -/

namespace ZincioHttp.H2.Connection

open List Option Responds

open Lib (Adds)

/-! ### The request side -/

variable {e' : StreamEntry} {id' : ℕ} {octs : Octets}

theorem Changes.started {fin : Prop} {e : StreamEntry} (h : Changes fin e e')
    (hstarted : e.requestStarted = true) : e'.requestStarted = true := by
  cases h with
  | same => exact hstarted
  | bookkeep h =>
    rw [h]
    exact hstarted
  | endRemote | addData => exact hstarted
  | start => rfl
  | send _ hs | feed _ hs =>
    obtain ⟨-, ch, -, rfl⟩ := StreamEntry.sendBody_eq_some hs
    exact hstarted

section Actions
variable {fin : ℕ → Prop} {id : ℕ} {c c' : Connection} {issued : List BodyMsg}

theorem Action.pending {fin : Prop} (h : Action id fin c issued c') (he' : c'.entry id = some e')
    (hend : e'.pendingEndStream = true) :
    (∃ e, c.entry id = some e ∧ e.pendingEndStream = true) ∨ fin :=
  Reaches.pendingEndStream ⟨issued, .single h, rfl⟩ he' hend

theorem Action.spawned {fin : Prop} (h : Action id fin c issued c') (hid' : c'.spawned id' = true) :
    c.spawned id' = true ∨ id' = id ∧ ∀ e', c'.entry id = some e' → e'.requestStarted = true := by
  cases h with
  | note hnote =>
    rw [hnote] at hid'
    exact .inl hid'
  | credit octs =>
    obtain ⟨w, hw, -⟩ := restoreWindows_eq_write c id octs
    rw [hw] at hid'
    exact .inl hid'
  | @spawn e parsed endStream _ he =>
    rw [spawned, Connection.spawn, any_append, Bool.or_eq_true] at hid'
    refine hid'.imp (·) fun hnew => ⟨?_, fun e' he' => ?_⟩
    · simpa using Eq.symm (by simpa using hnew : id = id')
    · rw [eq_of_entry_setEntry he']
      rfl
  | _ => exact .inl hid'

theorem Action.spawned_mono {fin : Prop} (h : Action id fin c issued c')
    (hid' : c.spawned id' = true) : c'.spawned id' = true := by
  cases h with
  | note hnote =>
    rw [hnote]
    exact hid'
  | credit octs =>
    obtain ⟨w, hw, -⟩ := restoreWindows_eq_write c id octs
    rw [hw]
    exact hid'
  | spawn =>
    rw [Connection.spawned, Connection.spawn, any_append, Bool.or_eq_true]
    exact .inl hid'
  | _ => exact hid'

/-- The message for which the connection task waits after an action. -/
theorem Action.parked {fin : Prop} (h : Action id fin c issued c') {p : Parked}
    (hp : c'.parked = some p) : c.parked = some p ∨ p.streamId = id ∧ (p.endStream = true → fin) ∧
      ∃ e, c.entry id = some e ∧ e.requestStarted = true := by
  cases h with
  | note hnote =>
    rw [hnote] at hp
    exact .inl hp
  | credit octs =>
    obtain ⟨w, hw, -⟩ := restoreWindows_eq_write c id octs
    rw [hw] at hp
    exact .inl hp
  | feedWait _ endStream hfin _ he hstarted | wait _ endStream hfin _ he hstarted =>
    obtain rfl := some.inj hp
    exact .inr ⟨rfl, hfin, _, he, hstarted⟩
  | redeliver | unpark => cases hp
  | _ => exact .inl hp

/-- An entry of another stream is as it was, and that of the stream stays started. -/
theorem Action.started {fin : Prop} (h : Action id fin c issued c') (he' : c'.entry id' = some e')
    (hstarted : ∀ e, c.entry id' = some e → e.requestStarted = true) :
    e'.requestStarted = true := by
  by_cases hid : id' = id
  · subst hid
    obtain ⟨e, he, hchange⟩ := h.entry_some he'
    exact hchange.started (hstarted e he)
  · exact hstarted e' ((h.entry_ne hid).symm.trans he')

theorem Marked.action (h : Marked fin c) (ha : Action id (fin id) c issued c') : Marked fin c' where
  pending id' e' he' hend := by
    by_cases hid : id' = id
    · subst hid
      rcases ha.pending he' hend with ⟨e, he, hend⟩ | hfin
      · exact h.pending id' e he hend
      · exact hfin
    · exact h.pending id' e' ((ha.entry_ne hid).symm.trans he') hend
  fresh id' e' he' hnew := by
    have hspawned : (∃ e, c.entry id' = some e ∧ e.requestStarted = false) →
        c'.spawned id' = false := by
      rintro ⟨e, he, hnew₁⟩
      by_contra hnot
      rcases ha.spawned (by simpa using hnot) with hs | ⟨rfl, hs⟩
      · cases (h.fresh id' e he hnew₁).2.symm.trans hs
      · cases hnew.symm.trans (hs e' he')
    by_cases hid : id' = id
    · subst hid
      obtain ⟨e, he, hchange⟩ := ha.entry_some he'
      have hnew₁ : e.requestStarted = false := by
        by_contra hnot
        cases hnew.symm.trans (hchange.started (by simpa using hnot))
      exact ⟨hchange.unstarted hnew fun _ => (h.fresh id' e he hnew₁).1, hspawned ⟨e, he, hnew₁⟩⟩
    · have he := (ha.entry_ne hid).symm.trans he'
      exact ⟨(h.fresh id' e' he hnew).1, hspawned ⟨e', he, hnew⟩⟩
  parkedEnds p hp hend := by
    rcases ha.parked hp with hp | ⟨hid, hfin, -⟩
    · exact h.parkedEnds p hp hend
    · exact hid ▸ hfin hend
  parkedStarted p hp e' he' := by
    refine ha.started he' fun e he => ?_
    rcases ha.parked hp with hp | ⟨hid, -, e₁, he₁, hstarted⟩
    · exact h.parkedStarted p hp e he
    · obtain rfl := some.inj (he₁.symm.trans (hid ▸ he))
      exact hstarted

theorem Marked.reaches (h : Marked fin c) (hr : Reaches id (fin id) octs c c') : Marked fin c' := by
  obtain ⟨issued, hacts, -⟩ := hr
  induction hacts with
  | refl => exact h
  | tail _ ha ih => exact ih.action ha

theorem Marked.opening (h : Sound fin c) (hreading : c.reading = true) (hnone : c.entry id = none)
    (ho : Opening id (fin id) c c') : Marked fin c' := by
  cases ho with
  | ignored | invalid | stale | refuse =>
    exact ⟨h.pending, h.fresh, h.parkedEnds, h.parkedStarted⟩
  | @opens endStream endHeaders block hfin hlt =>
    have hopens : Opening id (fin id) c _ := .opens endStream endHeaders block hfin hlt
    have hparked : ∀ p, c.parked ≠ some p := by simp [parked_of_reading hreading]
    refine ⟨fun id' e' he' hend => ?_, fun id' e' he' hnew => ?_, fun p hp => absurd hp (hparked p),
      fun p hp => absurd hp (hparked p)⟩
    · rcases entry_of_setEntry he' with ⟨rfl, -⟩ | ⟨-, he⟩
      · exact hopens.pendingEndStream hnone he' hend
      · exact h.pending id' e' he hend
    · rcases entry_of_setEntry he' with ⟨rfl, -⟩ | ⟨-, he⟩
      · refine ⟨hopens.unstarted hnone he', Bool.eq_false_iff.2 fun hs => ?_⟩
        have hle := h.spawned id' hs
        omega
      · exact h.fresh id' e' he hnew

end Actions

/-! ### Steps -/

section Steps
variable {fin : ℕ → Prop} {c c' : Connection} {id : ℕ}

/-- Entries whose request side is as it was, up to what a task that has been handed the
request does with its body. -/
theorem Marked.of_entries (h : Marked fin c) (hparked : c'.parked = c.parked)
    (hspawned : ∀ id, c'.spawned id = c.spawned id)
    (hentry : ∀ id e', c'.entry id = some e' → ∃ e, c.entry id = some e ∧
      e'.pendingEndStream = e.pendingEndStream ∧ e'.requestStarted = e.requestStarted ∧
      (e.Unstarted → c.spawned id = false → e'.Unstarted)) : Marked fin c' where
  pending id e' he' hend := by
    obtain ⟨e, he, hpending, -, -⟩ := hentry id e' he'
    exact h.pending id e he (hpending ▸ hend)
  fresh id e' he' hnew := by
    obtain ⟨e, he, -, hstarted, hu⟩ := hentry id e' he'
    obtain ⟨hfresh, hnot⟩ := h.fresh id e he (hstarted ▸ hnew)
    exact ⟨hu hfresh hnot, (hspawned id).trans hnot⟩
  parkedEnds p hp := h.parkedEnds p (hparked ▸ hp)
  parkedStarted p hp e' he' := by
    obtain ⟨e, he, -, hstarted, -⟩ := hentry p.streamId e' he'
    exact hstarted.trans (h.parkedStarted p (hparked ▸ hp) e he)

theorem unstarted_of_sameRequest {e : StreamEntry} (h : e.SameRequest e')
    (hu : e.Unstarted) : e'.Unstarted := by
  rw [h]
  exact ⟨hu.remoteEnded, hu.dataSum, hu.contentLength, hu.body⟩

theorem Marked.responds (h : Marked fin c) (hr : Responds c c') : Marked fin c' := by
  refine h.of_entries (by rw [hr.same]) (fun id => by rw [hr.same]; rfl) fun id e' he' => ?_
  obtain ⟨e, he, hsame⟩ := hr.entry id e' he'
  exact ⟨e, he, by rw [hsame], by rw [hsame], fun hu _ => unstarted_of_sameRequest hsame hu⟩

theorem Marked.setting {s : Setting} {r : Connection × Bool} (h : Marked fin c)
    (hs : SettingEffect c s r) : Marked fin r.1 := by
  have hshift : Marked fin (c.shiftTo s.value) := by
    refine h.of_entries rfl (fun _ => rfl) fun id e' he' => ?_
    have hentry : (c.shiftTo s.value).entry id = _ := entry_shiftWindows c _ id
    rw [hentry, map_eq_some_iff] at he'
    obtain ⟨e, he, rfl⟩ := he'
    exact ⟨e, he, rfl, rfl, fun hu _ => ⟨hu.remoteEnded, hu.dataSum, hu.contentLength, hu.body⟩⟩
  cases hs with
  | shift => exact hshift
  | overflow => exact ⟨hshift.pending, hshift.fresh, hshift.parkedEnds, hshift.parkedStarted⟩
  | invalid => exact ⟨h.pending, h.fresh, h.parkedEnds, h.parkedStarted⟩
  | other _ _ heq =>
    refine h.of_entries (by rw [heq]) (fun id => by rw [heq]; rfl) fun id e he => ?_
    rw [heq] at he
    exact ⟨e, he, rfl, rfl, fun hu _ => hu⟩

theorem Marked.onTask (h : Marked fin c) (id : ℕ) (t : TaskEvent) : Marked fin (c.onTask id t) := by
  refine onTask_induction t (fun _ => ⟨h.pending, h.fresh, h.parkedEnds, h.parkedStarted⟩)
    fun e hspawned he => ?_
  refine h.of_entries rfl (fun _ => rfl) fun id' e' he' => ?_
  rcases entry_of_setEntry he' with ⟨rfl, rfl⟩ | ⟨-, he'⟩
  · rw [StreamEntry.onTask_same]
    exact ⟨e, he, rfl, rfl, fun _ hnot => by cases hnot.symm.trans hspawned⟩
  · exact ⟨e', he', rfl, rfl, fun hu _ => hu⟩

theorem Deed.marked {ev : Event} (hd : Deed fin c ev c') (h : Sound fin c) : Marked fin c' := by
  cases hd with
  | request _ _ _ hr | resume _ hr | noWindow _ _ _ hr => exact h.toMarked.reaches hr
  | opening hreading hnone ho hr => exact (Marked.opening h hreading hnone ho).reaches hr
  | connectionWindow hint increment =>
    have hgrow : Responds c (c.growWindow increment) := ⟨rfl, fun _ e he => ⟨e, he, rfl⟩⟩
    exact h.toMarked.responds (hgrow.trans (.drainPendingData _ hint))
  | @streamWindow hint id increment e _ he =>
    have hsame : e.SameRequest (e.growWindow increment) := rfl
    exact h.toMarked.responds ((Responds.setEntry he hsame).trans (.pumpStreamData _ id))
  | settings hint settings =>
    have hset : Marked fin (c.applyPeerSettings settings) :=
      applyPeerSettings_induction (fun hs h => h.setting hs) settings h.toMarked
    exact ⟨hset.pending, hset.fresh, hset.parkedEnds, hset.parkedStarted⟩
  | drain id => exact h.toMarked.responds (.drainStream c id)
  | task id t => exact h.toMarked.onTask id t
  | flags hf =>
    obtain ⟨w, -, -, heq⟩ := hf
    refine h.toMarked.of_entries (by rw [heq]) (fun id => by rw [heq]; rfl) fun id e he => ?_
    rw [heq] at he
    exact ⟨e, he, rfl, rfl, fun hu _ => hu⟩

/-! ### Closed streams -/

/-- Streams that are closed on the way had an entry, and no entry comes up. -/
structure Closes (c c' : Connection) : Prop where
  closed : ∀ id ∈ c'.closedOrder, id ∈ c.closedOrder ∨ (c.entry id).isSome = true
  entry : ∀ id, (c'.entry id).isSome = true → (c.entry id).isSome = true

namespace Closes

theorem same (hclosed : c'.closedOrder = c.closedOrder)
    (hentry : ∀ id, (c'.entry id).isSome = true → (c.entry id).isSome = true) : Closes c c' :=
  ⟨fun _ hid => .inl (hclosed ▸ hid), hentry⟩

theorem refl (c : Connection) : Closes c c := same rfl fun _ => (·)

theorem silent {c'' : Connection} (h : Closes c c') (hstreams : c''.streams = c'.streams)
    (hclosed : c''.closedOrder = c'.closedOrder) : Closes c c'' := by
  refine ⟨fun id hid => h.closed id (hclosed ▸ hid), fun id he => h.entry id ?_⟩
  rwa [Connection.entry, hstreams] at he

theorem trans {c'' : Connection} (h : Closes c c') (h' : Closes c' c'') : Closes c c'' :=
  ⟨fun id hid => (h'.closed id hid).elim (h.closed id) fun he => .inr (h.entry id he),
    fun id he => h.entry id (h'.entry id he)⟩

theorem setEntry {id : ℕ} (h : (c.entry id).isSome = true) (e : StreamEntry) :
    Closes c (c.setEntry id e) := by
  refine same rfl fun id' he' => ?_
  by_cases hid : id' = id
  · exact hid ▸ h
  · rwa [entry_setEntry_ne _ _ _ _ hid] at he'

theorem mem_markClosed (h : id' ∈ (c.markClosed id).closedOrder) :
    id' ∈ c.closedOrder ∨ id' = id := by
  have horder : ∀ {order : List ℕ}, id' ∈ order → (order = c.closedOrder.tail ∨
      order = c.closedOrder) → id' ∈ c.closedOrder := by
    rintro order hmem (rfl | rfl)
    · exact mem_of_mem_tail hmem
    · exact hmem
  rw [markClosed] at h
  split_ifs at h
  · exact .inl (horder h (.inl rfl))
  · exact (List.mem_append.1 h).imp (horder · (.inl rfl)) List.mem_singleton.1
  · exact .inl h
  · exact (List.mem_append.1 h).imp_right List.mem_singleton.1

theorem retire (h : (c.entry id).isSome = true) : Closes c (c.retire id) := by
  refine ⟨fun id' hid' => ?_, fun id' he' => ?_⟩
  · rcases mem_markClosed hid' with hmem | rfl
    · exact .inl hmem
    · exact .inr h
  · obtain ⟨e', he'⟩ := isSome_iff_exists.1 he'
    exact isSome_of_eq_some (entry_of_removeStream he').2

theorem action {fin : Prop} {issued : List BodyMsg} (ha : Action id fin c issued c') :
    Closes c c' := by
  have hentry : ∀ id', (c'.entry id').isSome = true → (c.entry id').isSome = true := by
    intro id' he'
    by_cases hid : id' = id
    · obtain ⟨e', he'⟩ := isSome_iff_exists.1 he'
      obtain ⟨e, he, -⟩ := ha.entry_some (hid ▸ he')
      rw [hid, he, isSome_some]
    · rwa [ha.entry_ne hid] at he'
  refine ⟨fun id' hid' => ?_, hentry⟩
  cases ha with
  | note hnote =>
    rw [hnote] at hid'
    exact .inl hid'
  | credit octs =>
    obtain ⟨w, hw, -⟩ := restoreWindows_eq_write c id octs
    rw [hw] at hid'
    exact .inl hid'
  | reset _ he | forget he | forgetData _ he | cancel he =>
    exact (retire (isSome_of_eq_some he)).closed id' hid'
  | _ => exact .inl hid'

theorem reaches {fin : Prop} (hr : Reaches id fin octs c c') : Closes c c' := by
  obtain ⟨issued, hacts, -⟩ := hr
  induction hacts with
  | refl => exact refl c
  | tail _ ha ih => exact ih.trans (action ha)

theorem settle (h : (c.entry id).isSome = true) (p : Pump) : Closes c (c.settle id p) := by
  have hset :
    Closes c { (c.setEntry id p.entry).write p.written with connWindow := p.connWindow } :=
    (setEntry h p.entry).silent rfl rfl
  rw [Connection.settle]
  split_ifs
  · refine hset.trans (retire ?_)
    have he : (c.setEntry id p.entry).entry id = some p.entry := entry_setEntry c id _
    exact isSome_iff_exists.2 ⟨_, he⟩
  · exact hset

theorem pumpClosed : PumpClosed (fun _ => True) Closes where
  refl := refl
  trans := trans
  setEntry _ _ _ e' _ he _ _ := setEntry (isSome_of_eq_some he) e'
  settle _ _ _ p _ he _ := settle (isSome_of_eq_some he) p

/-- Messages close their stream only; it has an entry when they are drained. -/
theorem drainStream (c : Connection) (id : ℕ) : Closes c (c.drainStream id) := by
  cases he : c.entry id with
  | none =>
    rw [Connection.drainStream, he]
    exact refl c
  | some e =>
    have hclosed : ResponseClosed (fun id' => id' = id)
      (fun c₁ c₂ => Closes c c₁ → Closes c c₂) := by
      refine ⟨⟨fun _ h => h, fun h h' hc => h' (h hc), ?_, ?_⟩,
        fun _ _ _ _ _ h => h.silent rfl rfl, fun _ _ _ _ h => h.silent rfl rfl, ?_⟩
      · exact fun c₁ _ _ _ _ he₁ hsame hsend h =>
          h.trans (pumpClosed.setEntry c₁ trivial he₁ hsame hsend)
      · exact fun c₁ _ _ _ _ he₁ hp h => h.trans (pumpClosed.settle c₁ trivial he₁ hp)
      · rintro c₁ id' rfl h
        refine ⟨fun id₁ hid₁ => ?_, fun id₁ he₁ => ?_⟩
        · rcases mem_markClosed hid₁ with hmem | rfl
          · exact h.closed id₁ hmem
          · exact .inr (by rw [he, isSome_some])
        · obtain ⟨e₁, he₁⟩ := isSome_iff_exists.1 he₁
          obtain ⟨e₂, he₂, -⟩ := (Responds.retire c₁ id').entry id₁ e₁ he₁
          exact h.entry id₁ (by rw [he₂, isSome_some])
    exact hclosed.drainStream c rfl (refl c)

end Closes

theorem Reaches.highest {fin : Prop} (hr : Reaches id fin octs c c') :
    c'.highestStreamId = c.highestStreamId := by
  obtain ⟨issued, hacts, -⟩ := hr
  induction hacts with
  | refl => rfl
  | tail _ ha ih => exact ha.rest.2.2.2.trans ih

theorem Action.nil_of_none {fin : Prop} {issued : List BodyMsg} (ha : Action id fin c issued c')
    (h : c.entry id = none) : issued = [] := by
  cases ha with
  | spawn _ _ _ he | start _ _ _ he | feed _ he | deliver _ he | feedWait _ _ _ _ he
  | wait _ _ _ _ he => cases h.symm.trans he
  | _ => rfl

theorem Reaches.nil_of_none {fin : Prop} (hr : Reaches id fin octs c c') (h : c.entry id = none) :
    octs = [] := by
  obtain ⟨issued, hacts, rfl⟩ := hr
  suffices issued = [] ∧ c'.entry id = none by rw [this.1, flatMap_nil]
  induction hacts with
  | refl => exact ⟨rfl, h⟩
  | tail _ ha ih =>
    refine ⟨by rw [ih.1, ha.nil_of_none ih.2, nil_append], ?_⟩
    by_contra hsome
    obtain ⟨e, he⟩ := ne_none_iff_exists'.1 hsome
    obtain ⟨e₁, he₁, -⟩ := ha.entry_some he
    cases ih.2.symm.trans he₁

/-- No closed stream is beyond the highest one. -/
def ClosedBounded (c : Connection) : Prop := ∀ id ∈ c.closedOrder, id ≤ c.highestStreamId

theorem ClosedBounded.closes (h : ClosedBounded c) (hb : Bounded c) (hc : Closes c c')
    (hhigh : c'.highestStreamId = c.highestStreamId) : ClosedBounded c' := by
  intro id hid
  rw [hhigh]
  rcases hc.closed id hid with hmem | hsome
  · exact h id hmem
  · obtain ⟨e, he⟩ := isSome_iff_exists.1 hsome
    exact hb id e he

theorem Opening.closedBounded {fin : Prop} (ho : Opening id fin c c') (h : ClosedBounded c)
    (hb : Bounded c) : ClosedBounded c' ∧ Bounded c' := by
  cases ho with
  | ignored | invalid | stale => exact ⟨h, hb⟩
  | refuse hlt =>
    exact ⟨fun x hx => (h x hx).trans hlt.le, fun x e he => (hb x e he).trans hlt.le⟩
  | opens endStream endHeaders block _ hlt =>
    refine ⟨fun x hx => (h x hx).trans hlt.le, fun x e he => ?_⟩
    rcases entry_of_setEntry he with ⟨rfl, -⟩ | ⟨-, he⟩
    · exact le_rfl
    · exact (hb x e he).trans hlt.le

theorem Deed.closedBounded {ev : Event} (hd : Deed fin c ev c') (hs : Sound fin c) :
    ClosedBounded c' := by
  have h : ClosedBounded c := hs.closed
  have hb := hs.tidy.bounded
  cases hd with
  | request _ _ _ hr | resume _ hr | noWindow _ _ _ hr => exact h.closes hb (.reaches hr) hr.highest
  | opening _ _ ho hr =>
    obtain ⟨h₁, hb₁⟩ := ho.closedBounded h hb
    exact h₁.closes hb₁ (.reaches hr) hr.highest
  | connectionWindow hint increment =>
    have h₁ : ClosedBounded (c.growWindow increment) := h
    exact h₁.closes hb (Closes.pumpClosed.drainPendingData _ hint)
      (Responds.drainPendingData _ hint).highestStreamId
  | @streamWindow hint id increment e _ he =>
    have hset : Closes c (c.setEntry id (e.growWindow increment)) :=
      .setEntry (by rw [he, isSome_some]) _
    exact h.closes hb (hset.trans (Closes.pumpClosed.pumps _ trivial).1)
      (Responds.pumpStreamData _ id).highestStreamId
  | settings hint settings =>
    refine applyPeerSettings_induction (fun hs h => ?_) settings h
    cases hs with
    | shift | overflow | invalid => exact h
    | other _ _ heq =>
      rw [heq]
      exact h
  | drain id => exact h.closes hb (.drainStream c id) (Responds.drainStream c id).highestStreamId
  | task id t =>
    rw [onTask_same]
    exact h
  | flags hf =>
    obtain ⟨w, -, -, heq⟩ := hf
    rw [heq]
    exact h

theorem Deed.closing {ev : Event} (hd : Deed fin c ev c') (h : c.closing = true) :
    c'.closing = true := by
  cases hd with
  | request hreading | opening hreading | noWindow _ _ hreading | connectionWindow _ _ hreading
  | streamWindow _ _ _ hreading | settings _ _ hreading =>
    cases (closing_of_reading hreading).symm.trans h
  | resume _ hr =>
    obtain ⟨issued, hacts, -⟩ := hr
    induction hacts with
    | refl => exact h
    | tail _ ha ih => exact ha.rest.2.2.1 ih
  | drain id =>
    rw [(Responds.drainStream c id).same]
    exact h
  | task id t =>
    rw [onTask_same]
    exact h
  | flags hf =>
    obtain ⟨w, -, hclosing, -⟩ := hf
    exact hclosing h

/-! ### Every event -/

theorem Sound.step (http : HttpCrate) (h : Sound fin c) (ev : Event)
    (hfin : ∀ f ∈ c.taken ev, ∀ id, f.endsStream id = true → fin id) :
    Sound fin (step http c ev) :=
  have heffect := step_effect_any http h.tidy ev
  have hdeed := step_deed http h ev hfin
  { hdeed.marked h with
    tidy := heffect.tidy h.tidy
    spawned := heffect.spawned h.spawned
    closed := hdeed.closedBounded h }

theorem Sound.mono {fin' : ℕ → Prop} (h : Sound fin c) (hfin : ∀ id, fin id → fin' id) :
    Sound fin' c where
  pending id e he hend := hfin id (h.pending id e he hend)
  fresh := h.fresh
  parkedEnds p hp hend := hfin _ (h.parkedEnds p hp hend)
  parkedStarted := h.parkedStarted
  tidy := h.tidy
  spawned := h.spawned
  closed := h.closed

theorem Sound.start (fin : ℕ → Prop) (opts : ConnectionOptions) : Sound fin (start opts) where
  pending id e he := by simp at he
  fresh id e he := by simp at he
  parkedEnds p hp := by cases hp
  parkedStarted p hp := by cases hp
  tidy := .start opts
  spawned id hid := by cases hid
  closed id hid := by cases hid

/-- A connection that is sound if nothing is asked about the end of requests. -/
abbrev Reasonable (c : Connection) : Prop := Sound (fun _ => True) c

section
variable (http : HttpCrate) (h : Reasonable c)
include h

theorem Sound.stepAny (ev : Event) : Reasonable (Connection.step http c ev) :=
  h.step http ev fun _ _ _ _ => trivial

theorem step_deed_any (ev : Event) : Deed (fun _ => True) c ev (step http c ev) :=
  step_deed http h ev fun _ _ _ _ => trivial

theorem step_written (ev : Event) : ∃ w, (step http c ev).written = c.written ++ w := by
  generalize step http c ev = c', step_effect_any http h.tidy ev = heffect
  cases heffect with
  | keeps hk => exact Adds.grows hk.written
  | drain id => exact Adds.grows (Answered.closed.drainStream c trivial)
  | connectionWindow hint => exact Adds.grows (Answered.closed.drainPendingData _ hint)
  | streamWindow hint id => exact Adds.grows (Answered.closed.pumps _ trivial).1
  | task id t =>
    refine ⟨[], ?_⟩
    rw [append_nil, onTask_same]

theorem run_written (events : List Event) : ∃ w, (run http events c).written = c.written ++ w := by
  induction events generalizing c with
  | nil => exact ⟨[], (append_nil _).symm⟩
  | cons ev events ih =>
    obtain ⟨w, hw⟩ := step_written http h ev
    obtain ⟨w', hw'⟩ := ih (h.stepAny http ev)
    exact ⟨w ++ w', by rw [← append_assoc, ← hw]; exact hw'⟩

end

end Steps

end ZincioHttp.H2.Connection
