import ZincioHttp.H3.Requests.Polls

/-! Who wakes a task that waits for a field section. The poll that finds a section
blocked leaves no waker; a later one does, but may come too late: the control plane
takes the wakers before it places the sections. No wakeup is lost if every task has
left its waker before the control plane takes them, and none looks for its section
in between. -/

namespace ZincioHttp.H3

open Qpack Lib List Option UnblockedSection

namespace Feed

/-- The wakers that the control plane holds and is going to wake. -/
def wakers : Feed → List ℕ
  | .taken _ wakers | .placed wakers => wakers
  | .idle | .released _ => []

/-- The streams whose wakers are about to be taken. -/
def due : Feed → List ℕ
  | .released sections => sections.map UnblockedSection.stream
  | .idle | .taken .. | .placed _ => []

/-- The streams whose wakers have been taken while their sections are still to be
placed. -/
def late : Feed → List ℕ
  | .taken sections _ => sections.map UnblockedSection.stream
  | .idle | .released _ | .placed _ => []

end Feed

/-- The task has found its section blocked, and has not been polled since. -/
def Task.waits (t : Task) : Bool := t.parked || t.registering

namespace Requests

variable {http : HttpCrate} {q q' : Requests} {s : ℕ}

/-- A section of the stream is there, or will be without another look at the wakers. -/
def Released (q : Requests) (s : ℕ) : Prop := q.shared.unblocked s ≠ [] ∨ s ∈ q.feed.late

instance (q : Requests) (s : ℕ) : Decidable (q.Released s) := inferInstanceAs (Decidable (_ ∨ _))

/-- A task that waits has left its waker when the control plane takes the wakers, and a
poll made after that takes the section, or the control plane holds the waker. -/
def Timely (q : Requests) : Action → Prop
  | .poll s call _ => ∀ t ∈ q.tasks s, q.Released s →
    s ∈ q.feed.wakers ∨ (call.looks t.stream ∧ q.shared.unblocked s ≠ [])
  | .takeWaiters => ∀ s ∈ q.feed.due, ∀ t ∈ q.tasks s, t.waits → q.shared.waiters s ∨ t.woken
  | _ => True

instance (q : Requests) : ∀ a, Decidable (q.Timely a)
  | .poll .. | .takeWaiters => by unfold Timely; infer_instance
  | .accept _ | .deliver .. | .register _ | .finish _ | .feed _ | .placeUnblocked | .wake =>
    isTrue trivial

/-- Tasks are known by their streams, and those that wait for a section that is there
have been woken or will be. -/
structure Alert (q : Requests) : Prop where
  known : ∀ s, ∀ t ∈ q.tasks s, t.stream.streamId = s ∧ t.stream.marks.Sane
  told : ∀ s, ∀ t ∈ q.tasks s, q.Released s → t.waits → t.woken ∨ s ∈ q.feed.wakers

theorem alert_start (settings : LocalSettings) : (start settings).Alert := by
  constructor <;> simp [start]

theorem mem_setTask {s' : ℕ} {t t' : Task} (h : t' ∈ (q.setTask s t).tasks s') :
    (s' = s ∧ t' = t) ∨ (s' ≠ s ∧ t' ∈ q.tasks s') := by
  by_cases hs : s' = s
  · subst hs
    simp only [setTask, Function.update_self, mem_def, some.injEq] at h
    exact .inl ⟨rfl, h.symm⟩
  · simp only [setTask, Function.update_of_ne hs] at h
    exact .inr ⟨hs, h⟩

theorem Alert.setTask (h : q.Alert) {shared : SharedCodecs} {t : Task}
    (hunblocked : ∀ s', shared.unblocked s' ≠ [] → q.shared.unblocked s' ≠ [])
    (hknown : t.stream.streamId = s ∧ t.stream.marks.Sane)
    (htold : q.Released s → t.waits → t.woken ∨ s ∈ q.feed.wakers) :
    Alert ({ q with shared := shared }.setTask s t) := by
  constructor
  · intro s' t' ht'
    rcases mem_setTask ht' with ⟨rfl, rfl⟩ | ⟨-, ht'⟩
    · exact hknown
    · exact h.known s' t' ht'
  · intro s' t' ht' hreleased hwaits
    have hreleased' : q.Released s' := hreleased.imp_left (hunblocked s')
    rcases mem_setTask ht' with ⟨rfl, rfl⟩ | ⟨-, ht'⟩
    · exact htold hreleased' hwaits
    · exact h.told s' t' ht' hreleased' hwaits

theorem poll_alert {now : ℕ} {call : ReadCall} (h : q.Alert) (hc : q.Timely (.poll s call now)) :
    (q.poll http s call now).Alert := by
  unfold poll
  split
  · exact h
  next t ht =>
  split_ifs
  · exact h
  obtain ⟨hid, hsane⟩ := h.known s t ht
  cases hpoll : call.poll http now ⟨t.stream, t.inbox, q.shared⟩ with
  | mk r result =>
    have htouch := ReadCall.poll_touches hsane hpoll
    obtain ⟨-, hother, hown⟩ := htouch.shared_frame
    refine h.setTask ?_ ⟨htouch.id_eq.trans hid, htouch.sane hsane⟩ fun hreleased hwaits => .inr ?_
    · intro s' hne hnil
      by_cases hs : s' = t.stream.streamId
      · subst hs
        rw [hnil] at hown
        exact hne (List.suffix_nil.1 hown)
      · exact hne ((hother s' hs).trans hnil)
    · rcases hc t ht hreleased with hheld | ⟨hlooks, hne⟩
      · exact hheld
      · obtain ⟨x, hready⟩ : ∃ x, (call.poll http now ⟨t.stream, t.inbox, q.shared⟩).2 = .ready x :=
          ReadCall.poll_ready hlooks (hid.symm ▸ hne)
        rw [hpoll] at hready
        subst hready
        cases hwaits

theorem register_alert (h : q.Alert) : (q.register s).Alert := by
  unfold register
  split
  · exact h
  next t ht =>
  split_ifs with hreg
  · refine h.setTask (fun _ => id) (h.known s t ht) fun hreleased _ => ?_
    exact h.told s t ht hreleased (by simp [Task.waits, hreg])
  · exact h

theorem unblocked_placeUnblocked {sh : SharedCodecs} (sections : List UnblockedSection)
    (h : (sh.placeUnblocked sections).unblocked s ≠ []) :
    sh.unblocked s ≠ [] ∨ s ∈ sections.map stream := by
  simp only [SharedCodecs.placeUnblocked] at h
  generalize sh.unblocked = map at h ⊢
  induction sections generalizing map with
  | nil => exact .inl h
  | cons u sections ih =>
    rcases ih _ h with hmap | hmem
    · by_cases hs : s = u.stream
      · exact .inr (by simp [hs])
      · dsimp only at hmap
        rw [Function.update_of_ne hs] at hmap
        exact .inl hmap
    · exact .inr (mem_cons_of_mem _ hmem)

theorem takeWaiters_alert (h : q.Alert) (hc : q.Timely .takeWaiters)
    (hstep : step http q .takeWaiters = .ok q') : q'.Alert := by
  simp only [step] at hstep
  split at hstep
  · next sections hfeed =>
    cases hstep
    refine ⟨h.known, fun s t ht hreleased hwaits => ?_⟩
    have hdue : s ∈ sections.map stream → s ∈ q.feed.due := by
      rw [hfeed]
      exact id
    rcases hreleased with hne | hmem
    · -- placed by an earlier feed, whose wakers have all been woken
      have htold := h.told s t ht (.inl hne) hwaits
      rw [hfeed] at htold
      exact .inl (htold.resolve_right not_mem_nil)
    rcases hc s (hdue hmem) t ht hwaits with hwaiter | hwoken
    · refine .inr ?_
      exact List.mem_filter.2 ⟨List.mem_dedup.2 hmem, hwaiter⟩
    · exact .inl hwoken
  · cases hstep
    exact h

theorem step_alert {a : Action} (h : q.Alert) (hc : q.Timely a) (hstep : step http q a = .ok q') :
    q'.Alert := by
  cases a with
  | accept s =>
    simp only [step] at hstep
    split at hstep
    · cases hstep
      exact h
    · cases hstep
      exact h.setTask (fun _ => id) ⟨rfl, RequestStream.sane_new s q.shared⟩
        fun _ hwaits => by cases hwaits
  | deliver s item | finish s =>
    simp only [step] at hstep
    split at hstep
    · cases hstep
      exact h
    · next t ht =>
      cases hstep
      exact h.setTask (fun _ => id) (h.known s t ht) fun hreleased hwaits =>
        h.told s t ht hreleased hwaits
  | poll s call now =>
    cases hstep
    exact poll_alert h hc
  | register s =>
    cases hstep
    exact register_alert h
  | feed data =>
    simp only [step] at hstep
    split at hstep
    · next hfeed =>
      split at hstep
      · cases hstep
      · cases hstep
        refine ⟨h.known, fun s t ht hreleased hwaits => ?_⟩
        have htold := h.told s t ht (.inl (hreleased.resolve_right not_mem_nil)) hwaits
        rw [hfeed] at htold
        exact htold
    · cases hstep
      exact h
  | takeWaiters => exact takeWaiters_alert h hc hstep
  | placeUnblocked =>
    simp only [step] at hstep
    split at hstep
    · next sections wakers hfeed =>
      cases hstep
      refine ⟨h.known, fun s t ht hreleased hwaits => ?_⟩
      have hbefore : q.Released s := by
        rw [Released, hfeed]
        exact unblocked_placeUnblocked sections (hreleased.resolve_right not_mem_nil)
      have htold := h.told s t ht hbefore hwaits
      rw [hfeed] at htold
      exact htold
    · cases hstep
      exact h
  | wake =>
    simp only [step] at hstep
    split at hstep
    · next wakers hfeed =>
      cases hstep
      refine ⟨fun s t ht => ?_, fun s t ht hreleased hwaits => .inl ?_⟩
      · obtain ⟨t₀, ht₀, rfl⟩ := Option.mem_map.1 ht
        exact h.known s t₀ ht₀
      · obtain ⟨t₀, ht₀, rfl⟩ := Option.mem_map.1 ht
        have htold := h.told s t₀ ht₀ (.inl (hreleased.resolve_right not_mem_nil)) hwaits
        rw [hfeed] at htold
        simpa [Feed.wakers] using htold
    · cases hstep
      exact h

/-- In every state of a timely run, the task that is parked on a section that is there
has been woken, or the control plane holds its waker and is about to. -/
theorem run_wakes {settings : LocalSettings} {actions : List Action}
    (hall : Along (step http) Timely (start settings) actions)
    (hrun : run http actions (start settings) = .ok q) {s : ℕ} {t : Task} (ht : q.tasks s = some t)
    (hsection : q.shared.unblocked s ≠ []) (hparked : t.parked) : t.woken ∨ s ∈ q.feed.wakers := by
  have halert : q.Alert := Along.invariant (fun _ _ _ h hc hstep => step_alert h hc hstep) actions
    hall (alert_start settings) hrun
  exact halert.told s t ht (.inl hsection) (by simp [Task.waits, hparked])

/-- What is known of a task, its section and its waker. -/
def glance (s : ℕ) (q : Requests) : Option (Bool × Bool × Bool × Bool) :=
  (q.tasks s).map fun t =>
    (t.parked, t.woken, (q.shared.unblocked s).isEmpty,
      q.feed.wakers.isEmpty && !q.shared.waiters s)

theorem exists_of_glance {x : Except ControlError Requests} {b : Bool × Bool × Bool × Bool}
    (h : (x.map (glance s)).toOption = some (some b)) :
    ∃ q t, x = .ok q ∧ q.tasks s = some t ∧ t.parked = b.1 ∧ t.woken = b.2.1 ∧
      (q.shared.unblocked s).isEmpty = b.2.2.1 ∧
      (q.feed.wakers.isEmpty && !q.shared.waiters s) = b.2.2.2 := by
  obtain ⟨q, hq, h⟩ := exists_ok_of_map h
  obtain ⟨t, ht, rfl⟩ := Option.map_eq_some_iff.1 h
  exact ⟨q, t, hq, ht, rfl, rfl, rfl, rfl⟩

/-- The headers are blocked, the task polls once more and leaves its waker, and then
the entry arrives. -/
theorem run_wakes_registered :
    ∃ q t, run .permissive [.accept 0, .deliver 0 (.chunk [0x01, 0x03, 0x02, 0x80, 0x10]),
        .poll 0 .headers 0, .poll 0 .headers 0, .register 0,
        .feed [0x3f, 0xe1, 0x1f, 0x41, 0x78, 0x01, 0x31], .takeWaiters, .placeUnblocked, .wake]
        (start { qpackMaxTableCapacity := 4096, qpackBlockedStreams := 16 }) = .ok q ∧
      q.tasks 0 = some t ∧ q.shared.unblocked 0 ≠ [] ∧ t.parked ∧
        (t.woken ∨ 0 ∈ q.feed.wakers) := by
  simp only [exists_and_left]
  refine exists_ok_and (glance 0) (some (true, true, false, true)) (by decide +kernel)
    fun q hrun hq => ?_
  obtain ⟨t, ht, hstate⟩ := Option.map_eq_some_iff.1 hq
  simp only [Prod.mk.injEq, isEmpty_eq_false_iff] at hstate
  obtain ⟨hparked, -, hne, -⟩ := hstate
  exact ⟨t, ht, hne, hparked, run_wakes (by decide +kernel) hrun ht hne hparked⟩

/-- Without the second poll nobody is woken and no waker is left; and a waker left after
the control plane has taken the wakers is not woken. -/
theorem run_loses_wakeup :
    (∃ q t, run .permissive [.accept 0, .deliver 0 (.chunk [0x01, 0x03, 0x02, 0x80, 0x10]),
        .poll 0 .headers 0, .feed [0x3f, 0xe1, 0x1f, 0x41, 0x78, 0x01, 0x31], .takeWaiters,
        .placeUnblocked, .wake]
        (start { qpackMaxTableCapacity := 4096, qpackBlockedStreams := 16 }) = .ok q ∧
      q.tasks 0 = some t ∧ t.parked = true ∧ t.woken = false ∧
      (q.shared.unblocked 0).isEmpty = false ∧
        (q.feed.wakers.isEmpty && !q.shared.waiters 0) = true) ∧
    ∃ q t, run .permissive [.accept 0, .deliver 0 (.chunk [0x01, 0x03, 0x02, 0x80, 0x10]),
        .poll 0 .headers 0, .poll 0 .headers 0,
        .feed [0x3f, 0xe1, 0x1f, 0x41, 0x78, 0x01, 0x31], .takeWaiters, .placeUnblocked,
          .register 0,
        .wake] (start { qpackMaxTableCapacity := 4096, qpackBlockedStreams := 16 }) = .ok q ∧
      q.tasks 0 = some t ∧ t.parked = true ∧ t.woken = false ∧
      (q.shared.unblocked 0).isEmpty = false ∧
        (q.feed.wakers.isEmpty && !q.shared.waiters 0) = false :=
  ⟨exists_of_glance (b := (true, false, false, true)) (by decide +kernel),
    exists_of_glance (b := (true, false, false, false)) (by decide +kernel)⟩

end Requests

end ZincioHttp.H3
