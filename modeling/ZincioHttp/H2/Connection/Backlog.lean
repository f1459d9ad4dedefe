import ZincioHttp.H2.Connection.Sound

/-! Queued response data is sent as far as the windows admit. Whenever a pump stops,
its stream has nothing left to send or a window is used up, and the turns of the
streams under a new connection window go on until this holds of all of them. -/

namespace ZincioHttp.H2

open List Option StreamEntry

/-- The stream has an octet at the front of its queue that its own window admits. -/
def StreamEntry.sendable (e : StreamEntry) : Bool :=
  !e.localEnded && decide (0 < e.sendWindow) &&
    e.pendingData.head?.any fun chunk => !chunk.1.isEmpty

variable {e : StreamEntry} {p : Pump} {id : ℕ}

theorem StreamEntry.sendable_of_ended (h : e.localEnded = true) : e.sendable = false := by
  simp [sendable, h]

theorem StreamEntry.sendable_of_window (h : e.sendWindow ≤ 0) : e.sendable = false := by
  simp [sendable, not_lt.2 h]

theorem StreamEntry.sendable_of_nil (h : e.pendingData = []) : e.sendable = false := by
  simp [sendable, h]

def StreamEntry.shift (e : StreamEntry) (delta : ℤ) : StreamEntry :=
  { e with sendWindow := e.sendWindow + delta }

theorem StreamEntry.shift_zero (e : StreamEntry) : e.shift 0 = e := by
  rw [shift, add_zero]

theorem StreamEntry.shift_shift (e : StreamEntry) (delta delta' : ℤ) :
    (e.shift delta).shift delta' = e.shift (delta + delta') := by
  simp [shift, add_assoc]

/-! ### One stream -/

namespace Pump

def Quiet (p : Pump) : Prop := p.connWindow ≤ 0 ∨ p.entry.sendable = false

theorem quiet_of_windows (h : min p.connWindow p.entry.sendWindow ≤ 0) : p.Quiet :=
  (min_le_iff.1 h).imp_right sendable_of_window

/-- What is left to send, counting the chunks as well. -/
def backlog (pendingData : List (Octets × Bool)) : ℕ :=
  (pendingData.map fun chunk => chunk.1.length + 1).sum

theorem backlog_cons (data : Octets) (endStream : Bool) (rest : List (Octets × Bool)) :
    backlog ((data, endStream) :: rest) = data.length + 1 + backlog rest := rfl

/-- A chunk has been sent to its end: the stream is over, or the queue is shorter. -/
theorem sendChunk_all_ends (id : ℕ) {data : Octets} {endStream : Bool} {rest : List (Octets × Bool)}
    (hfront : p.entry.pendingData = (data, endStream) :: rest) :
    let p' := sendChunk id data.length data endStream rest p
    (!p'.retired) = true ∧ backlog p'.entry.pendingData < backlog p.entry.pendingData ∨
      (!p'.retired) = false ∧ p'.Quiet := by
  simp only [sendChunk_all]
  cases hretired : endStream && p.entry.taskDone with
  | true =>
    obtain ⟨rfl, -⟩ := Bool.and_eq_true_iff.1 hretired
    exact .inr ⟨rfl, .inr (sendable_of_ended (Bool.or_true _))⟩
  | false =>
    refine .inl ⟨rfl, ?_⟩
    rw [hfront, backlog_cons]
    omega

variable {maxFrameSize : ℕ}

/-- A round that is the last one leaves nothing to send; any other has sent something. -/
theorem step_ends (id : ℕ) (hsize : 0 < maxFrameSize) (p : Pump) :
    (p.step id maxFrameSize).2 = true ∧
        backlog (p.step id maxFrameSize).1.entry.pendingData < backlog p.entry.pendingData ∨
      (p.step id maxFrameSize).2 = false ∧ (p.step id maxFrameSize).1.Quiet := by
  rw [step]
  cases hopen : p.entry.localEnded with
  | true => exact .inr ⟨rfl, .inr (sendable_of_ended hopen)⟩
  | false =>
    cases hfront : p.entry.pendingData with
    | nil => exact .inr ⟨rfl, .inr (sendable_of_nil hfront)⟩
    | cons chunk rest =>
      obtain ⟨data, endStream⟩ := chunk
      cases data with
      | nil =>
        simp only [finishChunk_nil id hfront]
        exact hfront ▸ sendChunk_all_ends id hfront
      | cons b data =>
        simp only [isEmpty_cons]
        by_cases hav : min p.connWindow p.entry.sendWindow ≤ 0
        · rw [if_pos hav]
          exact .inr ⟨rfl, quiet_of_windows hav⟩
        rw [if_neg hav]
        generalize hall : b :: data = front at *
        obtain ⟨amount, hamount⟩ : ∃ amount, min (min front.length
          (min p.connWindow p.entry.sendWindow).toNat) maxFrameSize = amount := ⟨_, rfl⟩
        rw [hamount]
        by_cases hlength : amount = front.length
        · subst hlength
          simp only [decide_true]
          exact hfront ▸ sendChunk_all_ends id hfront
        simp only [hlength, decide_false, Bool.false_eq_true, if_false, decide_eq_true_iff,
          decide_eq_false_iff_not, not_not, sendChunk_part id endStream rest p hlength]
        by_cases hlimited : min front.length (min p.connWindow p.entry.sendWindow).toNat = amount
        · -- the smaller window is used up
          refine .inr ⟨hlimited, quiet_of_windows ?_⟩
          change min (p.connWindow - amount) (p.entry.sendWindow - amount) ≤ 0
          omega
        · refine .inl ⟨hlimited, ?_⟩
          rw [backlog_cons, backlog_cons, length_drop]
          omega

/-- A loop whose rounds each send something until one is the last. -/
theorem loop_ends {step : Pump → Pump × Bool} {P Q : Pump → Prop}
    (hstep : ∀ p, P p → ((step p).2 = true ∧
        backlog (step p).1.entry.pendingData < backlog p.entry.pendingData) ∧ P (step p).1 ∨
      (step p).2 = false ∧ Q (step p).1) : ∀ (fuel : ℕ) (p : Pump),
    backlog p.entry.pendingData < fuel → P p → Q (loop step fuel p) := by
  intro fuel
  induction fuel with
  | zero => exact fun p h _ => absurd h (Nat.not_lt_zero _)
  | succ fuel ih =>
    intro p hfuel hp
    have hnext := hstep p hp
    rw [loop]
    generalize step p = r at hnext ⊢
    obtain ⟨p', goesOn⟩ := r
    rcases hnext with ⟨⟨rfl, hless⟩, hp'⟩ | ⟨rfl, hq⟩
    · exact ih p' (hless.trans_le (Nat.lt_succ_iff.1 hfuel)) hp'
    · exact hq

section
variable (id : ℕ) (hsize : 0 < maxFrameSize)
include hsize

/-- The loop of `pump_stream_data` stops only when nothing can be sent. -/
theorem run_quiet (e : StreamEntry) (connWindow : ℤ) : (run id maxFrameSize e connWindow).Quiet :=
  loop_ends (P := fun _ => True) (fun p _ => (step_ends id hsize p).imp_left (⟨·, trivial⟩)) _ _
    (Nat.lt_succ_self _) trivial

/-- A round of the other loop, for a stream that has some of its deficit left. -/
theorem stepDrr_ends (hdeficit : 0 < p.entry.deficit) : ((p.stepDrr id maxFrameSize).2 = true ∧
        backlog (p.stepDrr id maxFrameSize).1.entry.pendingData < backlog p.entry.pendingData) ∧
        (p.stepDrr id maxFrameSize).1.connWindow = p.connWindow ∧
        0 < (p.stepDrr id maxFrameSize).1.entry.deficit ∨
      (p.stepDrr id maxFrameSize).2 = false ∧ ((p.stepDrr id maxFrameSize).1.Quiet ∨
        (p.stepDrr id maxFrameSize).1.connWindow < p.connWindow) := by
  rw [stepDrr]
  cases hopen : p.entry.localEnded with
  | true => exact .inr ⟨rfl, .inl (.inr (sendable_of_ended hopen))⟩
  | false =>
    cases hfront : p.entry.pendingData with
    | nil => exact .inr ⟨rfl, .inl (.inr (sendable_of_nil hfront))⟩
    | cons chunk rest =>
      obtain ⟨data, endStream⟩ := chunk
      cases data with
      | nil =>
        simp only [finishChunk_nil id hfront]
        rcases sendChunk_all_ends id hfront with ⟨hgo, hless⟩ | ⟨hstop, hquiet⟩
        · refine .inl ⟨⟨hgo, hfront ▸ hless⟩, ?_, ?_⟩
          · simp [sendChunk, finishChunk]
          · simpa [sendChunk, finishChunk] using hdeficit
        · exact .inr ⟨hstop, .inl hquiet⟩
      | cons b data =>
        simp only [isEmpty_cons, Bool.false_eq_true, if_false]
        rw [if_neg hdeficit.ne']
        split
        · rename_i hav
          exact .inr ⟨rfl, .inl (quiet_of_windows hav)⟩
        have hpos : 0 < (b :: data).length := Nat.succ_pos _
        generalize b :: data = front at *
        obtain ⟨amount, hamount⟩ : ∃ amount, min (min (min front.length
          (min p.connWindow p.entry.sendWindow).toNat) p.entry.deficit) maxFrameSize = amount :=
            ⟨_, rfl⟩
        rw [hamount, if_neg (by omega)]
        refine .inr ⟨rfl, .inr ?_⟩
        have hless : p.connWindow - amount < p.connWindow := by omega
        rw [sendChunk]
        split_ifs <;> exact hless

/-- A turn with some deficit sends something unless nothing can be sent. -/
theorem runDrr_quiet (connWindow : ℤ) (hdeficit : 0 < e.deficit) :
    (runDrr id maxFrameSize e connWindow).Quiet ∨
      (runDrr id maxFrameSize e connWindow).connWindow < connWindow := by
  refine loop_ends (P := fun p => p.connWindow = connWindow ∧ 0 < p.entry.deficit)
    (Q := fun p => p.Quiet ∨ p.connWindow < connWindow) (fun p hp => ?_) _ _ (Nat.lt_succ_self _)
    ⟨rfl, hdeficit⟩
  rw [← hp.1]
  exact stepDrr_ends id hsize hp.2

end

theorem Reached.connWindow_le {connWindow : ℤ} (h : Reached id maxFrameSize e connWindow p) :
    p.connWindow ≤ connWindow := by
  refine h.induction (P := fun p => p.connWindow ≤ connWindow) le_rfl fun p p' hm h => ?_
  cases hm with
  | stay => exact h
  | send deficit amount data endStream rest =>
    have hless : p.connWindow - amount ≤ connWindow := by omega
    rw [sendChunk]
    split_ifs <;> exact hless

end Pump

namespace Connection

/-- A stream has nothing that its own window admits. -/
def Calm (c : Connection) (id : ℕ) : Prop := ∀ e, c.entry id = some e → e.sendable = false

/-- All streams are calm, or the connection window is used up. -/
def Exhausted (c : Connection) : Prop := c.connWindow ≤ 0 ∨ ∀ id, c.Calm id

/-! ### One stream of the connection -/

variable {c' c : Connection} {fin : Prop}

section Pumping
variable {c : Connection} {id : ℕ}

theorem Calm.of_entry (h : c'.entry id = c.entry id) (hc : c.Calm id) :
    c'.Calm id := fun e he => hc e (h.symm.trans he)

theorem Calm.of_none (h : c.entry id = none) : c.Calm id :=
  fun e he => absurd (h.symm.trans he) (by simp)

theorem entry_settle_ne (c : Connection) (p : Pump) {id' : ℕ} (h : id' ≠ id) :
    (c.settle id p).entry id' = c.entry id' := by
  rw [settle]
  split_ifs
  · rw [retire, entry_removeStream_ne _ _ _ h]
    exact entry_setEntry_ne _ _ _ _ h
  · exact entry_setEntry_ne _ _ _ _ h

theorem settle_calm (c : Connection) (id : ℕ) (h : p.entry.sendable = false) :
    (c.settle id p).Calm id := by
  rw [settle]
  split_ifs
  · exact .of_none (entry_removeStream _ id)
  · intro e he
    obtain rfl : e = p.entry := eq_of_entry_setEntry he
    exact h

theorem entry_pumpStreamData_ne (c : Connection) {id' : ℕ} (h : id' ≠ id) :
    (c.pumpStreamData id).entry id' = c.entry id' := by
  rw [pumpStreamData]
  cases c.entry id with
  | none => rfl
  | some e => exact entry_settle_ne c _ h

theorem connWindow_pumpStreamData (c : Connection) (id : ℕ) :
    (c.pumpStreamData id).connWindow ≤ c.connWindow := by
  rw [pumpStreamData]
  cases c.entry id with
  | none => exact le_rfl
  | some e =>
    rw [settle_connWindow]
    exact (Pump.run_reached id _ e _).1.connWindow_le

/-- Pumping makes a stream calm or uses up the connection window. -/
theorem pumpStreamData_calm (hsize : 0 < c.peer.maxFrameSize) (id : ℕ) :
    (c.pumpStreamData id).connWindow ≤ 0 ∨ (c.pumpStreamData id).Calm id := by
  rw [pumpStreamData]
  cases he : c.entry id with
  | none => exact .inr (.of_none he)
  | some e =>
    rcases Pump.run_quiet id hsize e c.connWindow with h | h
    · exact .inl ((settle_connWindow c id _).trans_le h)
    · exact .inr (settle_calm c id h)

/-- If all other streams are calm, pumping exhausts the connection. -/
theorem Exhausted.pumpStreamData (hsize : 0 < c.peer.maxFrameSize)
    (h : c.connWindow ≤ 0 ∨ ∀ id', id' ≠ id → c.Calm id') : Exhausted (c.pumpStreamData id) := by
  rcases pumpStreamData_calm hsize id with hw | hcalm
  · exact .inl hw
  refine h.imp (connWindow_pumpStreamData c id).trans fun hothers id' => ?_
  by_cases hid : id' = id
  · exact hid ▸ hcalm
  · exact .of_entry (entry_pumpStreamData_ne c hid) (hothers id' hid)

end Pumping

/-! ### All streams in turn -/

/-- What a stream's turn does. -/
structure Turns (id : ℕ) (c c' : Connection) (sent again : Bool) : Prop where
  peer : c'.peer = c.peer
  others : ∀ id', id' ≠ id → c'.entry id' = c.entry id'
  window : c'.connWindow ≤ c.connWindow
  sends : sent = true → c'.connWindow < c.connWindow
  leaves : again = false → c'.Calm id
  still : sent = false → c'.connWindow ≤ 0 ∨ c'.Calm id

theorem calm_of_not_backlogged (h : c.backlogged id = false) : c.Calm id := by
  intro e he
  rw [backlogged, he] at h
  simp only [Bool.and_eq_false_iff, Bool.not_eq_false'] at h
  rcases h with h | h
  · exact sendable_of_nil (isEmpty_iff.1 h)
  · exact sendable_of_ended h

theorem turn_turns (c : Connection) (hsize : 0 < c.peer.maxFrameSize) {quantum : ℕ}
    (hquantum : 0 < quantum) (id : ℕ) :
    Turns id c (c.turn quantum id).1 (c.turn quantum id).2.1 (c.turn quantum id).2.2 := by
  have hstay : c.Calm id → Turns id c c false false := fun hcalm =>
    ⟨rfl, fun _ _ => rfl, le_rfl, nofun, fun _ => hcalm, fun _ => .inr hcalm⟩
  rw [turn]
  cases he : c.entry id with
  | none => exact hstay (.of_none he)
  | some e =>
    simp only
    split_ifs with hskip
    · refine hstay fun e' he' => ?_
      obtain rfl := some.inj (he.symm.trans he')
      simp only [Bool.or_eq_true, decide_eq_true_eq] at hskip
      rcases hskip with (h | h) | h
      · exact sendable_of_nil (isEmpty_iff.1 h)
      · exact sendable_of_ended h
      · exact sendable_of_window h
    · obtain ⟨e', he'⟩ : ∃ e', { e with deficit := min (e.deficit + quantum) usizeMax } = e' :=
        ⟨_, rfl⟩
      have hdeficit : 0 < e'.deficit := by
        rw [← he']
        exact lt_min (Nat.add_pos_right _ hquantum) (by decide)
      rw [he']
      have hpump : (c.setEntry id e').pumpStreamDataDrr id =
          (c.setEntry id e').settle id (Pump.runDrr id c.peer.maxFrameSize e' c.connWindow) := by
        rw [pumpStreamDataDrr, entry_setEntry]
        rfl
      refine ⟨(Responds.pumpStreamDataDrr _ id).peer, fun id' hid => ?_, ?_, ?_, ?_, ?_⟩
      · rw [hpump, entry_settle_ne _ _ hid, entry_setEntry_ne _ _ _ _ hid]
      · rw [hpump, settle_connWindow]
        exact (Pump.run_reached id _ e' _).2.connWindow_le
      · exact of_decide_eq_true
      · exact calm_of_not_backlogged
      · intro hsent
        have hsame := of_decide_eq_false hsent
        rw [hpump, settle_connWindow] at hsame ⊢
        rcases Pump.runDrr_quiet id hsize c.connWindow hdeficit with (h | h) | h
        · exact .inl h
        · exact .inr (settle_calm _ id h)
        · exact absurd h hsame

theorem Turns.calm {id' : ℕ} {sent again : Bool} (h : Turns id c c' sent again) (hid : id' ≠ id) :
    c'.Calm id' ↔ c.Calm id' :=
  ⟨.of_entry (h.others id' hid).symm, .of_entry (h.others id' hid)⟩

/-- In the middle of a round: `ids` are still to come, `next` will be served again.
Streams that are not calm are in line, and if nothing has been sent so far, those
that were served are calm. -/
structure Midway (c₀ c : Connection) (progress : Bool) (ids next : List ℕ) : Prop where
  peer : c.peer = c₀.peer
  window : c.connWindow ≤ c₀.connWindow
  sends : progress = true → c.connWindow < c₀.connWindow
  inLine : c.connWindow ≤ 0 ∨ ∀ id, ¬ c.Calm id → id ∈ ids ∨ id ∈ next
  still : progress = false → c.connWindow ≤ 0 ∨ ∀ id ∈ next, c.Calm id

theorem Midway.turn {c₀ : Connection} {progress sent again : Bool} {ids next : List ℕ}
    (h : Midway c₀ c progress (id :: ids) next) (ht : Turns id c c' sent again) :
    Midway c₀ c' (progress || sent) ids (if again then next ++ [id] else next) where
  peer := ht.peer.trans h.peer
  window := ht.window.trans h.window
  sends hsent := by
    rcases Bool.or_eq_true_iff.1 hsent with hs | hs
    · exact ht.window.trans_lt (h.sends hs)
    · exact (ht.sends hs).trans_le h.window
  inLine := by
    refine h.inLine.imp ht.window.trans fun hline id' hid' => ?_
    have hmem : id' ∈ next → id' ∈ (if again then next ++ [id] else next) := by
      intro hmem
      split_ifs
      · exact mem_append_left _ hmem
      · exact hmem
    by_cases heq : id' = id
    · subst heq
      cases again with
      | true => exact .inr (mem_append_right _ (mem_singleton.2 rfl))
      | false => exact absurd (ht.leaves rfl) hid'
    · rcases hline id' (mt (ht.calm heq).2 hid') with hin | hin
      · exact .inl ((mem_cons.1 hin).resolve_left heq)
      · exact .inr (hmem hin)
  still hsent := by
    obtain ⟨hprogress, hs⟩ := Bool.or_eq_false_iff.1 hsent
    rcases h.still hprogress, ht.still hs with ⟨hw | hnext, hw' | hcalm⟩
    · exact .inl hw'
    · exact .inl (ht.window.trans hw)
    · exact .inl hw'
    · refine .inr fun id' hid' => ?_
      by_cases heq : id' = id
      · exact heq ▸ hcalm
      · refine (ht.calm heq).2 (hnext id' ?_)
        split_ifs at hid'
        · exact (mem_append.1 hid').resolve_right fun hmem => heq (mem_singleton.1 hmem)
        · exact hid'

theorem round_midway {quantum : ℕ} (hquantum : 0 < quantum) {c₀ : Connection}
    (hsize : 0 < c₀.peer.maxFrameSize) (ids : List ℕ) : ∀ {c : Connection} {progress : Bool}
    {next : List ℕ}, Midway c₀ c progress ids next →
    Midway c₀ (round quantum ids c progress next).1 (round quantum ids c progress next).2.1 []
      (round quantum ids c progress next).2.2 := by
  induction ids with
  | nil => exact (·)
  | cons id ids ih =>
    intro c progress next h
    have hnext := h.turn (turn_turns c (h.peer ▸ hsize) hquantum id)
    rw [round]
    generalize c.turn quantum id = r at hnext ⊢
    obtain ⟨c', sent, again⟩ := r
    simp only at hnext ⊢
    split
    · rename_i hw
      exact ⟨hnext.peer, hnext.window, hnext.sends, .inl hw, fun _ => .inl hw⟩
    · exact ih hnext

theorem rounds_used (hw : c.connWindow ≤ 0) (quantum fuel : ℕ) (ids : List ℕ) :
    rounds quantum fuel c ids = c := by
  cases fuel with
  | zero => rfl
  | succ fuel => exact if_neg fun h => absurd h.1 (not_lt.2 hw)

/-- Rounds go on until the connection is exhausted; its window is enough fuel. -/
theorem rounds_exhausted {quantum : ℕ} (hquantum : 0 < quantum) : ∀ (fuel : ℕ) (c : Connection)
    (ids : List ℕ), 0 < c.peer.maxFrameSize → c.connWindow.toNat < fuel →
    (∀ id, ¬ c.Calm id → id ∈ ids) → Exhausted (rounds quantum fuel c ids) := by
  intro fuel
  induction fuel with
  | zero => exact fun c ids _ h => absurd h (Nat.not_lt_zero _)
  | succ fuel ih =>
    intro c ids hsize hfuel hline
    have hround : Midway c _ _ [] _ := @round_midway _ hquantum c hsize ids c false []
      ⟨rfl, le_rfl, nofun, .inr fun id hid => .inl (hline id hid), fun _ => .inr fun _ h =>
        absurd h not_mem_nil⟩
    rw [rounds]
    split_ifs with hgo
    · generalize round quantum ids c false [] = r at hround ⊢
      obtain ⟨c', progress, next⟩ := r
      simp only at hround ⊢
      split_ifs with hprogress
      · rcases hround.inLine with hw | hline'
        · rw [rounds_used hw]
          exact .inl hw
        · refine ih c' next (hround.peer ▸ hsize) ?_ fun id hid =>
            (hline' id hid).resolve_left not_mem_nil
          have hless := hround.sends hprogress
          omega
      · rcases hround.still (Bool.eq_false_iff.2 hprogress) with hw | hcalm
        · exact .inl hw
        · refine hround.inLine.imp (·) fun hline' id => ?_
          by_contra hnot
          exact hnot (hcalm id ((hline' id hnot).resolve_left not_mem_nil))
    · rcases not_and_or.1 hgo with hw | hnil
      · exact .inl (not_lt.1 hw)
      · refine .inr fun id => by_contra fun hnot => ?_
        have hids : ids = [] := by simpa using hnil
        exact absurd (hids ▸ hline id hnot) not_mem_nil

/-- Serving all streams after the connection window has grown exhausts it again. -/
theorem drainPendingData_exhausted (hsize : 0 < c.peer.maxFrameSize) (hint : List ℕ) :
    Exhausted (c.drainPendingData hint) := by
  refine rounds_exhausted hsize _ c _ hsize (Nat.lt_succ_self _) fun id hid => ?_
  have hbacklog : c.backlogged id = true := by
    by_contra hnot
    exact hid (calm_of_not_backlogged (Bool.eq_false_iff.2 hnot))
  have hkey : id ∈ c.streams.keys := by
    rw [← AList.mem_keys, ← AList.lookup_isSome]
    cases he : c.entry id with
    | none => exact absurd (Calm.of_none he) hid
    | some e =>
      have he' : c.streams.lookup id = some e := he
      rw [he', isSome_some]
  refine mem_filter.2 ⟨?_, hbacklog⟩
  rw [arrange, mem_append, mem_filter, mem_filter, mem_dedup]
  by_cases hhint : id ∈ hint
  · exact .inl ⟨hhint, decide_eq_true hkey⟩
  · exact .inr ⟨hkey, decide_eq_true hhint⟩

/-! ### Steps -/

theorem Changes.sendable {e' : StreamEntry} (h : Changes fin e e') : e'.sendable = e.sendable := by
  cases h with
  | same | endRemote | addData => rfl
  | start parsed endStream => cases endStream <;> rfl
  | bookkeep h =>
    rw [h]
    rfl
  | send _ hs | feed _ hs =>
    obtain ⟨-, ch, -, rfl⟩ := sendBody_eq_some hs
    rfl

namespace Exhausted

variable {c c' : Connection} {id : ℕ}

theorem of_entries (h : Exhausted c) (hw : c'.connWindow = c.connWindow)
    (hentry : ∀ id e', c'.entry id = some e' → e'.sendable = true →
      ∃ e, c.entry id = some e ∧ e.sendable = true) : Exhausted c' := by
  refine h.imp (fun h => hw ▸ h) fun hcalm id e' he' => ?_
  by_contra hsend
  obtain ⟨e, he, hs⟩ := hentry id e' he' (Bool.not_eq_false _ ▸ hsend)
  exact absurd (hcalm id e he) (by rw [hs]; decide)

theorem setEntry (h : Exhausted c) {e e' : StreamEntry} (he : c.entry id = some e)
    (hs : e'.sendable = true → e.sendable = true) : Exhausted (c.setEntry id e') := by
  refine h.of_entries rfl fun id' e₁ he₁ hsend => ?_
  rcases entry_of_setEntry he₁ with ⟨rfl, rfl⟩ | ⟨-, he₁⟩
  · exact ⟨e, he, hs hsend⟩
  · exact ⟨e₁, he₁, hsend⟩

theorem retire (h : Exhausted c) (id : ℕ) : Exhausted (c.retire id) :=
  h.of_entries rfl fun _ e he hsend => ⟨e, (entry_of_removeStream he).2, hsend⟩

theorem action {issued : List BodyMsg} (h : Exhausted c) (ha : Action id fin c issued c') :
    Exhausted c' := by
  refine h.of_entries ha.rest.1 fun id' e' he' hsend => ?_
  by_cases hid : id' = id
  · subst hid
    obtain ⟨e, he, hchange⟩ := ha.entry_some he'
    exact ⟨e, he, hchange.sendable ▸ hsend⟩
  · exact ⟨e', (ha.entry_ne hid).symm.trans he', hsend⟩

/-- A message of a stream task: what it queues is pumped at once. -/
theorem handleStreamMsg (h : Exhausted c) (hsize : 0 < c.peer.maxFrameSize) (id : ℕ)
    (msg : StreamMsg) : Exhausted (c.handleStreamMsg id msg) := by
  cases msg with
  | informational parts => exact h
  | headers parts endStream =>
    simp only [Connection.handleStreamMsg]
    cases he : c.entry id with
    | none => exact h
    | some e =>
      simp only
      split_ifs with hended
      · exact h
      · have hset : Exhausted (c.setEntry id
          { e with localEnded := endStream, responseStarted := true }) := by
          refine h.setEntry he fun hs => ?_
          simp only [sendable, Bool.and_eq_true] at hs ⊢
          exact ⟨⟨by simpa using hended, hs.1.2⟩, hs.2⟩
        exact hset
  | data data endStream =>
    simp only [Connection.handleStreamMsg]
    cases he : c.entry id with
    | none => exact h
    | some e =>
      simp only
      split_ifs
      · exact h
      · refine pumpStreamData hsize (h.imp_right fun hcalm id' hid => ?_)
        exact .of_entry (entry_setEntry_ne _ _ _ _ hid) (hcalm id')
  | trailers trailers =>
    simp only [Connection.handleStreamMsg]
    cases he : c.entry id with
    | none => exact h
    | some e =>
      simp only
      split_ifs
      · exact h
      · have hset : Exhausted (c.setEntry id
          { e with localEnded := true, responseStarted := true }) :=
          h.setEntry he fun hs => by simp [sendable] at hs
        exact hset
  | reset errorCode => exact retire h id
  | closed =>
    simp only [Connection.handleStreamMsg]
    cases he : c.entry id with
    | none => exact h
    | some e =>
      have hset : Exhausted (c.setEntry id { e with taskDone := true }) := h.setEntry he (·)
      simp only
      split_ifs
      · exact hset.retire id
      · exact hset

theorem drainStream (h : Exhausted c) (hsize : 0 < c.peer.maxFrameSize) (id : ℕ) :
    Exhausted (c.drainStream id) := by
  have hfold : ∀ (msgs : List StreamMsg) (c : Connection), Exhausted c → 0 < c.peer.maxFrameSize →
      Exhausted (msgs.foldl (fun c msg => c.handleStreamMsg id msg) c) := by
    intro msgs
    induction msgs with
    | nil => exact fun c h _ => h
    | cons msg msgs ih =>
      intro c h hsize
      exact ih _ (h.handleStreamMsg hsize id msg) ((Responds.handleStreamMsg c id msg).peer ▸ hsize)
  rw [Connection.drainStream]
  cases he : c.entry id with
  | none => exact h
  | some e =>
    simp only
    split_ifs
    · exact hfold _ _ (h.setEntry he (·)) hsize
    · exact h

end Exhausted

/-! ### Settings -/

/-- The initial window size after some settings. -/
def lastWindow (size : ℕ) (settings : List Setting) : ℕ :=
  settings.foldl (fun size s => if s.id = 0x04 then s.value else size) size

theorem lastWindow_cons (size : ℕ) (s : Setting) (settings : List Setting) :
    lastWindow size (s :: settings) =
      lastWindow (if s.id = 0x04 then s.value else size) settings := rfl

/-- After some settings the connection closes, or all send windows have moved with the
initial one. -/
def Shifted (size : ℕ) (c c' : Connection) : Prop :=
  c'.closing = true ∨ c'.connWindow = c.connWindow ∧ ∀ id e', c'.entry id = some e' →
    ∃ e, c.entry id = some e ∧ e' = e.shift ((size : ℤ) - c.peer.initialWindowSize)

theorem applyPeerSettings_shifted (settings : List Setting) : ∀ c : Connection,
    Shifted (lastWindow c.peer.initialWindowSize settings) c (c.applyPeerSettings settings) := by
  induction settings with
  | nil =>
    refine fun c => .inr ⟨rfl, fun id e he => ⟨e, he, ?_⟩⟩
    rw [lastWindow, foldl_nil, sub_self, shift_zero]
  | cons s settings ih =>
    intro c
    have heffect := applySetting_effect c s
    rw [applyPeerSettings]
    generalize c.applySetting s = r at heffect ⊢
    cases heffect with
    | overflow => exact .inl (closing_applyPeerSettings settings rfl)
    | invalid => exact .inl rfl
    | shift hid =>
      refine (ih (c.shiftTo s.value)).imp_right fun hrest => ⟨hrest.1, fun id e' he' => ?_⟩
      obtain ⟨e₁, he₁, rfl⟩ := hrest.2 id e' he'
      have hshift : (c.shiftTo s.value).entry id =
          (c.entry id).map fun e => e.shift ((s.value : ℤ) - c.peer.initialWindowSize) :=
        entry_shiftWindows c _ id
      rw [hshift, map_eq_some_iff] at he₁
      obtain ⟨e, he, rfl⟩ := he₁
      refine ⟨e, he, ?_⟩
      rw [shift_shift, lastWindow_cons, if_pos hid]
      congr 1
      simp only [shiftTo]
      ring
    | @other c₁ hid hsize heq =>
      have hrest := ih c₁
      refine hrest.imp_right fun hrest => ⟨hrest.1.trans (by rw [heq]), fun id e' he' => ?_⟩
      obtain ⟨e, he, hshift⟩ := hrest.2 id e' he'
      rw [heq] at he
      refine ⟨e, he, ?_⟩
      rw [hshift, hsize, lastWindow_cons, if_neg hid]

/-- The SETTINGS frame opens no window for queued data: with the last initial window
size that it sets, no stream can send. -/
def opensNoWindow (c : Connection) : Event → Bool
  | .frame _ (.settings false settings) =>
    decide (c.connWindow ≤ 0) || c.streams.entries.all fun s =>
      !(s.2.shift ((lastWindow c.peer.initialWindowSize settings : ℤ) -
        c.peer.initialWindowSize)).sendable
  | _ => true

theorem Exhausted.settings (hint : List ℕ) (settings : List Setting)
    (h : c.opensNoWindow (.frame hint (.settings false settings)) = true) :
    (c.applyPeerSettings settings).closing = true ∨ Exhausted (c.applyPeerSettings settings) := by
  refine (applyPeerSettings_shifted settings c).imp_right fun ⟨hw, hentry⟩ => ?_
  simp only [opensNoWindow, Bool.or_eq_true, decide_eq_true_eq, List.all_eq_true] at h
  refine h.imp (fun h => hw ▸ h) fun hall id e' he' => ?_
  obtain ⟨e, he, rfl⟩ := hentry id e' he'
  exact Bool.not_eq_true' _ ▸ hall ⟨id, e⟩ (AList.mem_lookup_iff.1 he)

/-! ### Runs -/

/-- Between two events of a connection that does not close nothing can be sent. -/
structure Served (c : Connection) : Prop where
  sound : Reasonable c
  maxFrameSize : 0 < c.peer.maxFrameSize
  exhausted : c.closing = true ∨ Exhausted c

section Runs
variable {c : Connection}

theorem Reaches.exhausted {octs : Octets} (hr : Reaches id fin octs c c')
    (h : c.closing = true ∨ Exhausted c) : c'.closing = true ∨ Exhausted c' := by
  obtain ⟨issued, hacts, -⟩ := hr
  induction hacts with
  | refl => exact h
  | tail _ ha ih => exact ih.imp ha.rest.2.2.1 fun h => h.action ha

theorem Opening.exhausted {c₁ : Connection} (ho : Opening id fin c c₁) (h : Exhausted c) :
    Exhausted c₁ := by
  cases ho with
  | ignored | invalid | stale | refuse => exact h
  | opens endStream endHeaders block =>
    refine h.of_entries rfl fun id' e' he' hsend => ?_
    rcases entry_of_setEntry he' with ⟨-, rfl⟩ | ⟨-, he⟩
    · rw [sendable_of_nil rfl] at hsend
      cases hsend
    · exact ⟨e', he, hsend⟩

section
variable (http : HttpCrate) (h : Served c) (ev : Event) (hev : c.opensNoWindow ev = true)
include h hev

theorem step_exhausted : (step http c ev).closing = true ∨ Exhausted (step http c ev) := by
  have hdeed := step_deed_any http h.sound ev
  generalize step http c ev = c' at hdeed
  have hopen : c.reading = true → Exhausted c := fun hreading =>
    h.exhausted.resolve_left fun hc => by simp [closing_of_reading hreading] at hc
  cases hdeed with
  | request _ _ _ hr | resume _ hr | noWindow _ _ _ hr => exact hr.exhausted h.exhausted
  | opening hreading _ ho hr => exact hr.exhausted (.inr (ho.exhausted (hopen hreading)))
  | connectionWindow hint increment =>
    exact .inr (drainPendingData_exhausted (c := c.growWindow increment) h.maxFrameSize hint)
  | streamWindow hint id increment hreading he =>
    refine .inr (Exhausted.pumpStreamData h.maxFrameSize
      ((hopen hreading).imp_right fun hcalm id' hid => ?_))
    exact .of_entry (entry_setEntry_ne _ _ _ _ hid) (hcalm id')
  | settings hint settings => exact Exhausted.settings hint settings hev
  | drain id =>
    refine h.exhausted.imp (fun hc => ?_) fun hex => hex.drainStream h.maxFrameSize id
    rw [(Responds.drainStream c id).same]
    exact hc
  | task id t =>
    refine onTask_induction (P := fun c => c.closing = true ∨ Exhausted c) t
      (fun _ => h.exhausted) fun e _ he => ?_
    refine h.exhausted.imp (·) fun hex => hex.setEntry he fun hs => ?_
    rwa [StreamEntry.onTask_same] at hs
  | flags hf =>
    obtain ⟨w, -, hclosing, heq⟩ := hf
    refine h.exhausted.imp hclosing fun hex => hex.of_entries (by rw [heq]) fun id e he hs => ?_
    rw [heq] at he
    exact ⟨e, he, hs⟩

theorem Served.step : Served (step http c ev) :=
  ⟨h.sound.stepAny http ev, (step_effect_any http h.sound.tidy ev).maxFrameSize h.maxFrameSize,
    step_exhausted http h ev hev⟩

end

theorem Served.run (http : HttpCrate) (events : List Event) : ∀ {c : Connection}, Served c →
    Along http (fun c ev => c.opensNoWindow ev = true) events c → Served (run http events c) := by
  induction events with
  | nil => exact fun h _ => h
  | cons ev events ih => exact fun h hall => ih (h.step http ev hall.1) hall.2

theorem Served.start (opts : ConnectionOptions) : Served (start opts) :=
  ⟨.start _ opts, Nat.succ_pos _, .inr (.inr fun id => .of_none (entry_start id opts))⟩

/-- In every state of a run in which no SETTINGS frame opens a window for queued data,
a stream with octets at the front of its queue waits for a window. -/
theorem run_nothing_sendable (http : HttpCrate) (opts : ConnectionOptions) (events : List Event)
    (hall : Along http (fun c ev => c.opensNoWindow ev = true) events (start opts))
    (hopen : (run http events (start opts)).closing = false) {id : ℕ} {e : StreamEntry}
    {data : Octets} {endStream : Bool} {rest : List (Octets × Bool)}
    (he : (run http events (start opts)).entry id = some e) (hlive : e.localEnded = false)
    (hfront : e.pendingData = (data, endStream) :: rest) (hdata : data ≠ []) :
    e.sendWindow ≤ 0 ∨ (run http events (start opts)).connWindow ≤ 0 := by
  have hserved := Served.run http events (.start opts) hall
  rcases hserved.exhausted with hc | hw | hcalm
  · rw [hopen] at hc
    cases hc
  · exact .inr hw
  · have hs := hcalm id e he
    simp only [StreamEntry.sendable, hlive, hfront, head?_cons, Option.any_some, Bool.not_false,
      Bool.true_and, Bool.and_eq_false_iff, decide_eq_false_iff_not, Bool.not_eq_false',
      List.isEmpty_iff, hdata, or_false] at hs
    exact .inl (not_lt.1 hs)

/-- A response of two octets whose stream window admits one. -/
def stalledResponse : List Event :=
  [.frame [] (.settings false [⟨0x04, 1⟩]),
    .frame [] (.headers 1 true true none [0x82, 0x86, 0x84]),
    .task 1 (.send (.headers ⟨200, []⟩ false)), .task 1 (.send (.data [0x61, 0x62] true)),
    .drainStream 1]

theorem run_nothing_sendable_stalled : ∃ e,
    (run .permissive stalledResponse (start .default)).entry 1 = some e ∧
      e.pendingData = [([0x62], true)] ∧
      (e.sendWindow ≤ 0 ∨ (run .permissive stalledResponse (start .default)).connWindow ≤ 0) := by
  have hentry : ((run .permissive stalledResponse (start .default)).entry 1).any (fun e =>
      decide (e.pendingData = [([0x62], true)]) && !e.localEnded) = true := by
    decide +kernel
  obtain ⟨e, he, hpending⟩ := (Option.any_eq_true _ _).1 hentry
  simp only [Bool.and_eq_true, decide_eq_true_eq, Bool.not_eq_true'] at hpending
  exact ⟨e, he, hpending.1, run_nothing_sendable .permissive .default stalledResponse
    (by decide +kernel) (by decide +kernel) he hpending.2 hpending.1 (by decide)⟩

/-- A SETTINGS frame that opens the window leaves the octet where it is. -/
theorem run_window_opened_by_settings :
    let c := (run .permissive (stalledResponse ++ [.frame [] (.settings false [⟨0x04, 10⟩])])
      (start .default)).drainOutbound []
    c.closing = false ∧ 0 < c.connWindow ∧ (c.entry 1).any (fun e => !e.localEnded &&
      decide (0 < e.sendWindow) && decide (e.pendingData = [([0x62], true)])) = true := by
  decide +kernel

end Runs

end Connection

end ZincioHttp.H2
