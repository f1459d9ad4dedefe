import ZincioHttp.H2.Connection.Response
import ZincioHttp.H2.Connection.SendWindows

/-! The connection's send credit in any run, also one that closes the connection. Every DATA
octet that is written is paid for from the connection window, which only WINDOW_UPDATE frames on
stream 0 raise, and which never gets below zero. -/

namespace ZincioHttp.H2

open List StreamEntry ConnectionOptions

namespace Connection

/-- What is written on the way is paid for; at most `credit` has come in. -/
structure Pays (credit : ℕ) (c c' : Connection) : Prop where
  balance : ∃ k ≤ credit, c'.connWindow + octetsSent c'.written =
    c.connWindow + octetsSent c.written + (k : ℕ)
  nonneg : 0 ≤ c.connWindow → 0 ≤ c'.connWindow

namespace Pays

variable {credit : ℕ} {c c' : Connection}

theorem trans {more : ℕ} {c'' : Connection} (h : Pays credit c c') (h' : Pays more c' c'') :
    Pays (credit + more) c c'' := by
  obtain ⟨k, hk, hb⟩ := h.balance
  obtain ⟨k', hk', hb'⟩ := h'.balance
  refine ⟨⟨k + k', by omega, ?_⟩, h'.nonneg ∘ h.nonneg⟩
  rw [hb', hb]
  push_cast
  ring

theorem weaken {more : ℕ} (h : Pays 0 c c') : Pays more c c' := by
  obtain ⟨k, hk, hb⟩ := h.balance
  exact ⟨⟨k, by omega, hb⟩, h.nonneg⟩

theorem of_spends (h : ∃ w, Spends w c c') : Pays 0 c c' := by
  obtain ⟨w, hw⟩ := h
  refine ⟨⟨0, le_rfl, ?_⟩, hw.nonneg⟩
  rw [hw.conn, hw.written, octetsSent_append]
  push_cast
  ring

theorem same (hw : c'.written = c.written) (hwindow : c'.connWindow = c.connWindow) :
    Pays 0 c c' := by
  refine ⟨⟨0, le_rfl, ?_⟩, fun h => hwindow ▸ h⟩
  rw [hw, hwindow]
  simp

/-- The handlers of the request side write control frames. -/
theorem of_keeps {given : ℕ → Prop} (h : KeepsResponse given c c') : Pays 0 c c' := by
  obtain ⟨w, hw, hcontrol⟩ := h.written
  have hfree : octetsSent w = 0 := octetsSent_eq_zero fun f hf => by
    have hc := hcontrol f hf
    cases f <;> first | rfl | cases hc
  refine ⟨⟨0, le_rfl, ?_⟩, fun hc => h.connWindow ▸ hc⟩
  rw [h.connWindow, hw, octetsSent_append, hfree]
  simp

theorem growWindow (c : Connection) (increment : ℕ) :
    Pays increment c (c.growWindow increment) := by
  refine ⟨⟨increment, le_rfl, ?_⟩, fun h => ?_⟩
  · simp only [Connection.growWindow]
    ring
  · simp only [Connection.growWindow]
    omega

/-- The credit that a step may bring is that of the frame it takes. -/
theorem step (http : HttpCrate) (ht : Tidy c) (ev : Event) :
    Pays (granted (c.taken ev) 0) c (step http c ev) := by
  have heffect := step_effect_any http ht ev
  generalize Connection.step http c ev = c' at heffect
  cases heffect with
  | keeps hk => exact (of_keeps hk).weaken
  | drain id => exact (of_spends (Spends.response.drainStream c trivial)).weaken
  | connectionWindow hint increment blockStream hreading =>
    have hgrow := growWindow (c.setBlockStream blockStream) increment
    have hcredit : granted (c.taken (.frame hint (.windowUpdate 0 increment))) 0 = increment := by
      simp [taken, hreading, granted, Frame.creditFor]
    have hblock : Pays 0 c (c.setBlockStream blockStream) := same rfl rfl
    have hpays := (hblock.trans hgrow).trans (of_spends (Spends.response.drainPendingData _ hint))
    rw [hcredit]
    simpa using hpays
  | streamWindow hint id increment blockStream e he =>
    have hset : Pays 0 c ((c.setBlockStream blockStream).setEntry id (e.growWindow increment)) :=
      same rfl rfl
    exact (hset.trans (of_spends (Spends.response.pumps _ trivial).1)).weaken
  | task id t =>
    rw [onTask_same]
    exact weaken (same rfl rfl)

theorem run (http : HttpCrate) (events : List Event) : ∀ {c : Connection}, Tidy c →
    Pays (granted (received http events c) 0) c (run http events c) := by
  induction events with
  | nil => exact fun _ => same rfl rfl
  | cons ev events ih =>
    intro c ht
    rw [received, granted, map_append, sum_append]
    exact (step http ht ev).trans (ih ((step_effect_any http ht ev).tidy ht))

end Pays

/-- No more data is written than RFC 9113 allows from the start and the peer has
granted since. -/
theorem run_data_within_credit (http : HttpCrate) (opts : ConnectionOptions) (events : List Event)
    (hopts : opts.initialConnectionWindowSize.toNat ≤ 65535) :
    octetsSent (run http events (start opts)).written ≤
      65535 + granted (received http events (start opts)) 0 := by
  have hpays := Pays.run http events (Tidy.start opts)
  obtain ⟨k, hk, hbalance⟩ := hpays.balance
  have hstart : (start opts).connWindow = opts.initialConnectionWindowSize.toNat := rfl
  have hnothing : octetsSent (start opts).written = 0 := rfl
  have hnonneg := hpays.nonneg (by rw [hstart]; exact Int.natCast_nonneg _)
  omega

theorem run_data_within_credit_default :
    octetsSent (run .permissive [.frame [] (.headers 1 true true none [0x82, 0x86, 0x84]),
      .task 1 (.send (.headers ⟨200, []⟩ false)), .task 1 (.send (.data [0x61, 0x62] true)),
      .drainStream 1] (start .default)).written ≤ 65535 :=
  run_data_within_credit .permissive .default _ (by decide)

theorem drainStream_connWindow {c : Connection} {id : ℕ} {e : StreamEntry} {data : Octets}
    (he : c.entry id = some e) (hsize : 0 < c.peer.maxFrameSize) (hopen : e.localEnded = false)
    (hpending : e.pendingData = []) (hmsgs : e.msgs = [.data data true])
    (hroom : Room c.connWindow e.sendWindow data.length) :
    (c.drainStream id).connWindow = c.connWindow - data.length := by
  have hfits : Pump.Fits ⟨{ e with
      msgs := [], responseStarted := true, pendingData := [(data, true)] }, c.connWindow, [],
        false⟩ := by
    refine ⟨fun hended => ?_, pairwise_singleton _ _, ?_⟩
    · cases hopen.symm.trans hended
    · simpa [queued] using hroom
  obtain ⟨hempty, hspends⟩ := hfits.loop id hsize _ _ le_rfl
  have hconn := hspends.conn
  rw [queued, hempty] at hconn
  simp only [hopen, queued, flatMap_cons, flatMap_nil, append_nil,
    length_nil, Nat.cast_zero, sub_zero] at hconn
  simp only [drainStream, he, hpending, hmsgs, isEmpty_nil, if_true, mergeEnd,
    foldl_cons, foldl_nil, handleStreamMsg, hopen, Bool.false_eq_true,
    if_false, pumpStreamData, entry_setEntry, nil_append, settle_connWindow]
  exact hconn

/-- A response of one chunk to a peer that has raised its stream windows. -/
def chunkResponse (data : Octets) : List Event :=
  [.frame [] (.settings false [⟨0x04, 65536⟩]),
    .frame [] (.headers 1 true true none [0x82, 0x86, 0x84]),
    .task 1 (.send (.headers ⟨200, []⟩ false)), .drainStream 1, .task 1 (.send (.data data true)),
    .drainStream 1]

theorem chunkResponse_connWindow (data : Octets) (hlen : data.length = 65536) :
    (run .permissive (chunkResponse data)
      (start { default with initialConnectionWindowSize := 65536 })).connWindow =
      0 := by
  obtain ⟨c₁, hc₁⟩ : ∃ c, run .permissive ((chunkResponse []).take 4)
      (start { default with initialConnectionWindowSize := 65536 }) = c := ⟨_, rfl⟩
  have hfacts : c₁.spawned 1 = true ∧ c₁.idle = true ∧ c₁.peer.maxFrameSize = 16384 ∧
      c₁.connWindow = 65536 ∧ (c₁.entry 1).isSome = true ∧ (c₁.entry 1).all (fun e =>
        decide (e.localEnded = false ∧ e.pendingData = [] ∧ e.msgs = [] ∧ e.sendWindow = 65536)) =
          true := by
    rw [← hc₁]
    decide +kernel
  obtain ⟨hspawned, hidle, hsize, hwindow, hsome, hentry⟩ := hfacts
  obtain ⟨e, he⟩ := Option.isSome_iff_exists.1 hsome
  rw [he, Option.all_some, decide_eq_true_iff] at hentry
  obtain ⟨hopen, hpending, hmsgs, hsend⟩ := hentry
  obtain ⟨e', he'⟩ : ∃ e' : StreamEntry, e' = { e with msgs := [.data data true] } := ⟨_, rfl⟩
  have htask : step .permissive c₁ (.task 1 (.send (.data data true))) = c₁.setEntry 1 e' := by
    simp [step, onTask, hspawned, he, he', StreamEntry.onTask, hmsgs, channelCapacity]
  have hsplit : chunkResponse data = (chunkResponse []).take 4 ++
      [.task 1 (.send (.data data true)), .drainStream 1] := rfl
  have hroom : Room c₁.connWindow e'.sendWindow data.length := by
    simp [Room, hwindow, he', hsend, hlen]
  have hdrain : (c₁.setEntry 1 e').drainStream 1 =
      run .permissive [.task 1 (.send (.data data true)), .drainStream 1] c₁ := by
    rw [run, foldl_cons, htask]
    exact (if_pos hidle).symm
  rw [hsplit, run_append, hc₁, ← hdrain, drainStream_connWindow (entry_setEntry c₁ 1 e')
    (hsize.symm ▸ (by decide)) (he' ▸ hopen) (he' ▸ hpending) (he' ▸ rfl) hroom, hlen]
  exact (congrArg (· - 65536) hwindow).trans rfl

/-- With a larger initial window more is sent than the peer has allowed. -/
theorem run_data_beyond_credit :
    let opts := { ConnectionOptions.default with initialConnectionWindowSize := 65536 }
    let events := chunkResponse (replicate 65536 0)
    octetsSent (run .permissive events (start opts)).written = 65536 ∧
      granted (received .permissive events (start opts)) 0 = 0 := by
  intro opts events
  have hcredit : granted (received .permissive events (start opts)) 0 = 0 := by
    refine sum_eq_zero fun n hn => ?_
    obtain ⟨f, hf, rfl⟩ := mem_map.1 hn
    obtain ⟨hint, hmem⟩ := mem_received hf
    simp only [events, chunkResponse, mem_cons, Event.frame.injEq, reduceCtorEq, or_false,
      not_mem_nil] at hmem
    rcases hmem with ⟨-, rfl⟩ | ⟨-, rfl⟩ <;> rfl
  obtain ⟨k, hk, hbalance⟩ := (Pays.run .permissive events (Tidy.start opts)).balance
  have hstart : (start opts).connWindow = 65536 := rfl
  have hnothing : octetsSent (start opts).written = 0 := rfl
  rw [chunkResponse_connWindow _ length_replicate] at hbalance
  exact ⟨by omega, hcredit⟩

end Connection

end ZincioHttp.H2
