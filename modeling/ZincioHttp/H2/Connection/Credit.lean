import ZincioHttp.H2.Codec
import ZincioHttp.H2.Connection.Sound

/-! The credit that a connection gives back to its peer. Only DATA frames lead to
WINDOW_UPDATE frames, and those are about the data that the frame parser hands on: the
padding of a frame counts against the peer's window but is never given back. -/

namespace ZincioHttp.H2

open List RawFrame

def Frame.isRefusal : Frame → Bool
  | .reset .. | .goAway .. => true
  | _ => false

def Frame.credit : Frame → ℕ
  | .windowUpdate 0 increment => increment
  | _ => 0

namespace Connection

/-- The sum of the increments written for the connection. -/
def credited (c : Connection) : ℕ := (c.written.map Frame.credit).sum

/-- Nothing but RST_STREAM and GOAWAY is written. -/
def Refuses (c c' : Connection) : Prop :=
  ∃ w, c'.written = c.written ++ w ∧ ∀ f ∈ w, f.isRefusal = true

theorem credited_append {c c' : Connection} {w : List Frame} (h : c'.written = c.written ++ w) :
    c'.credited = c.credited + (w.map Frame.credit).sum := by
  rw [credited, h, map_append, sum_append, credited]

theorem credited_of_free {c c' : Connection} {w : List Frame} (h : c'.written = c.written ++ w)
    (hw : ∀ f ∈ w, f.credit = 0) : c'.credited = c.credited := by
  rw [credited_append h, sum_eq_zero, Nat.add_zero]
  intro n hn
  obtain ⟨f, hf, rfl⟩ := List.mem_map.1 hn
  exact hw f hf

namespace Refuses

variable {c c' : Connection} {id : ℕ}

theorem silent (h : c'.written = c.written) : Refuses c c' :=
  ⟨[], h.trans (append_nil _).symm, nofun⟩

theorem refl (c : Connection) : Refuses c c := silent rfl

theorem trans {c'' : Connection} (h : Refuses c c') (h' : Refuses c' c'') : Refuses c c'' := by
  obtain ⟨w, hw, hf⟩ := h
  obtain ⟨w', hw', hf'⟩ := h'
  refine ⟨w ++ w', by rw [hw', hw, append_assoc], fun f hmem => ?_⟩
  exact (List.mem_append.1 hmem).elim (hf f) (hf' f)

theorem after {c₁ : Connection} (h : Refuses c₁ c') (hw : c₁.written = c.written) : Refuses c c' :=
  (silent hw).trans h

theorem credited (h : Refuses c c') : c'.credited = c.credited := by
  obtain ⟨w, hw, hrefusal⟩ := h
  refine credited_of_free hw fun f hf => ?_
  have h := hrefusal f hf
  cases f with
  | windowUpdate => cases h
  | _ => rfl

theorem goaway (c : Connection) (reason : Reason) (debug : String) :
    Refuses c (c.goaway reason debug) :=
  ⟨[_], rfl, fun _ hf => List.mem_singleton.1 hf ▸ rfl⟩

theorem reset (c : Connection) (id code : ℕ) : Refuses c (c.write [.reset id code]) :=
  ⟨[_], rfl, fun _ hf => List.mem_singleton.1 hf ▸ rfl⟩

theorem closed : BodyClosed (fun _ => True) Refuses where
  refl := refl
  trans := trans
  setEntry _ _ := silent rfl
  goaway := goaway
  reset := reset
  answer := reset
  removeStream _ _ _ := silent rfl
  markClosed _ _ := silent rfl
  park _ _ := silent rfl
  count _ _ _ := silent rfl
  dispatch _ _ := silent rfl

theorem fragment {fin : Prop} {endHeaders : Bool} (h : Fragment id fin endHeaders c c') :
    Refuses c c' := by
  cases h with
  | ignored => exact refl c
  | invalid => exact goaway c _ _
  | refuse => exact reset _ id _
  | opens | extend => cases endHeaders <;> exact silent rfl
  | ended => exact closed.streamError c id _
  | flood => exact (closed.streamError _ id _).after rfl

theorem finalizeComplete (http : HttpCrate) (c : Connection) :
    Refuses c (finalizeComplete http c) := by
  rw [Connection.finalizeComplete, takeCompleteBlock]
  obtain ⟨id, rest⟩ := c.takeComplete c.completeBlocks
  cases id with
  | none => exact silent rfl
  | some id =>
    exact (closed.finalizeFieldBlock http (fun _ _ => silent rfl) (fun _ _ => silent rfl)
      fun _ _ _ _ => trivial).after rfl

theorem applyPeerSettings (c : Connection) (settings : List Setting) :
    Refuses c (c.applyPeerSettings settings) := by
  refine applyPeerSettings_induction (fun {c₁ s r} hs h => ?_) settings (refl c)
  cases hs with
  | shift => exact h.trans (silent rfl)
  | overflow => exact h.trans ((goaway _ _ _).after rfl)
  | invalid => exact h.trans (goaway c₁ _ _)
  | other _ _ heq => exact h.trans (silent (by rw [heq]))

end Refuses

/-! ### What a frame gives back -/

section Frames
variable {c c' : Connection} {hint : List ℕ}

theorem Answered.credited (h : Answered c c') : c'.credited = c.credited := by
  obtain ⟨w, hw, hresponse⟩ := h
  refine credited_of_free hw fun f hf => ?_
  have h := hresponse f hf
  cases f with
  | windowUpdate => cases h
  | _ => rfl

theorem credited_restoreWindows (c : Connection) {id : ℕ} (hid : id ≠ 0) {octs : Octets}
    (hlength : octs.length < 2 ^ 31) :
    (c.restoreWindows id octs).credited = c.credited + octs.length := by
  rw [restoreWindows]
  split_ifs with hempty
  · rw [List.isEmpty_iff.1 hempty, length_nil, Nat.add_zero]
  · rw [Nat.mod_eq_of_lt hlength]
    have hstream : (Frame.windowUpdate id octs.length).credit = 0 := by
      cases id with
      | zero => exact absurd rfl hid
      | succ id => rfl
    have hwrite := @credited_append c (c.write
      [.windowUpdate id octs.length, .windowUpdate 0 octs.length]) _ rfl
    rw [hwrite, map_cons, map_singleton, sum_cons, sum_singleton, hstream, Nat.zero_add]
    rfl

theorem credited_handleDataFrame (c : Connection) {id : ℕ} (hid : id ≠ 0) (endStream : Bool)
    {octs : Octets} (hlength : octs.length < 2 ^ 31) :
    (c.handleDataFrame id endStream octs).credited = c.credited + octs.length := by
  rw [← credited_restoreWindows c hid hlength]
  by_cases hempty : (octs.isEmpty && !endStream) = true
  · have hnil : octs.isEmpty = true := (Bool.and_eq_true_iff.1 hempty).1
    rw [handleDataFrame, if_pos hempty, restoreWindows, if_pos hnil]
  · exact (Refuses.closed.handleDataFrame hempty fun _ _ _ _ => trivial).credited

theorem WindowUpdate.credited {id increment : ℕ} (h : WindowUpdate hint id increment c c') :
    c'.credited = c.credited := by
  cases h with
  | empty | gone => rfl
  | overflow | idle => exact (Refuses.goaway c _ _).credited
  | connection => exact (Answered.closed.drainPendingData (c.growWindow increment) hint).credited
  | error => exact (Refuses.closed.streamError c id _).credited
  | @stream e =>
    exact (Answered.closed.pumps (c.setEntry id (e.growWindow increment)) trivial).1.credited

theorem Handled.credited {f : Frame} (h : Handled hint c f c')
    (hf : ∀ id endStream octs, f ≠ .data id endStream octs) : c'.credited = c.credited := by
  cases h with
  | ignored | goAway => rfl
  | settings settings =>
    exact (credited_of_free rfl (by simp [Frame.credit])).trans
      (Refuses.applyPeerSettings c settings).credited
  | ping => exact credited_of_free rfl (by simp [Frame.credit])
  | data id endStream octs => exact absurd rfl (hf id endStream octs)
  | reset => exact (Refuses.closed.handleResetFrame trivial).credited
  | windowUpdate h => exact h.credited
  | pushPromise => exact (Refuses.goaway c _ _).credited

/-- A frame that does not close the connection gives back its data and nothing else. -/
theorem Processed.credited {http : HttpCrate} {f : Frame} (h : Processed http hint c f c')
    (hopen : c'.closing = false)
    (hid : ∀ id endStream octs, f = .data id endStream octs → id ≠ 0 ∧ octs.length < 2 ^ 31) :
    c'.credited = c.credited + f.dataLen := by
  cases h with
  | rejected => cases hopen
  | headers =>
    exact (Refuses.finalizeComplete http _).credited.trans
      (Refuses.fragment (.handleHeadersFrame _ _ _ _ _)).credited
  | continuation =>
    exact (Refuses.finalizeComplete http _).credited.trans
      (Refuses.fragment (.handleContinuation _ _ _ _)).credited
  | pushPromise =>
    exact (Refuses.finalizeComplete http _).credited.trans (Refuses.goaway _ _ _).credited
  | goAway => rfl
  | other _ h =>
    rw [(Refuses.finalizeComplete http _).credited]
    cases f with
    | data id endStream octs =>
      obtain ⟨hzero, hlength⟩ := hid id endStream octs rfl
      cases h with
      | ignored hf => cases hf
      | data => exact credited_handleDataFrame c hzero endStream hlength
    | _ => exact h.credited (by simp)

end Frames

/-! ### Runs -/

end Connection

/-- What happens to a connection, with frames as they come in. -/
inductive Wire where
  | frame (hint : List ℕ) (raw : RawFrame)
  | resume
  | drainStream (id : ℕ)
  | shutdown
  | finish
  | task (id : ℕ) (t : TaskEvent)

/-- A frame is parsed with what the decoder knows of an open field block. -/
def Wire.event (c : Connection) : Wire → Event
  | .frame hint raw =>
    match raw.parseFrame c.blockStream with
    | .ok f => .frame hint f
    | .error error => .frameError error
  | .resume => .resume
  | .drainStream id => .drainStream id
  | .shutdown => .shutdown
  | .finish => .finish
  | .task id t => .task id t

namespace Connection

def wireEvents (http : HttpCrate) : List Wire → Connection → List Event
  | [], _ => []
  | w :: wires, c => w.event c :: wireEvents http wires (step http c (w.event c))

def takenRaw (c : Connection) : Wire → List RawFrame
  | .frame _ raw => if c.reading then [raw] else []
  | _ => []

def receivedRaw (http : HttpCrate) : List Wire → Connection → List RawFrame
  | [], _ => []
  | w :: wires, c => c.takenRaw w ++ receivedRaw http wires (step http c (w.event c))

def flowControlled (frames : List RawFrame) : ℕ := (frames.map RawFrame.flowControlled).sum

def Unpadded (frames : List RawFrame) : Prop :=
  ∀ raw ∈ frames, raw.typ = RawFrame.dataType → raw.padded = false

section Runs
variable {c : Connection}

theorem closing_run (http : HttpCrate) (events : List Event) : ∀ {c : Connection}, Reasonable c →
    c.closing = true → (run http events c).closing = true := by
  induction events with
  | nil => exact fun _ h => h
  | cons ev events ih =>
    intro c hr h
    exact ih (hr.stepAny http ev) ((step_deed_any http hr ev).closing h)

theorem credited_step_other (http : HttpCrate) (c : Connection) {ev : Event}
    (hev : ∀ hint f, ev ≠ .frame hint f) : (step http c ev).credited = c.credited := by
  have hstep := step_stepped http c ev
  generalize step http c ev = c' at hstep ⊢
  cases hstep with
  | same => rfl
  | frame => exact absurd rfl (hev _ _)
  | frameError => exact (Refuses.goaway c _ _).credited
  | resume => exact (Refuses.closed.resume fun _ _ _ _ _ => trivial).credited
  | drain => exact (Answered.closed.drainStream c trivial).credited
  | shutdown => exact credited_of_free rfl (by simp [Frame.credit])
  | finish hw =>
    exact credited_of_free rfl (by rcases hw with rfl | ⟨-, rfl⟩ <;> simp [Frame.credit])
  | task =>
    rw [onTask_same]
    rfl

/-- One frame: the credit is at most what it takes, and exactly so if it is not padded. -/
theorem credited_step (http : HttpCrate) (w : Wire)
    (hopen : (step http c (w.event c)).closing = false) :
    (step http c (w.event c)).credited ≤ c.credited + flowControlled (c.takenRaw w) ∧
      ((step http c (w.event c)).credited = c.credited + flowControlled (c.takenRaw w) ↔
        Unpadded (c.takenRaw w)) := by
  have hquiet : c.takenRaw w = [] → (step http c (w.event c)).credited = c.credited →
      (step http c (w.event c)).credited ≤ c.credited + flowControlled (c.takenRaw w) ∧
        ((step http c (w.event c)).credited = c.credited + flowControlled (c.takenRaw w) ↔
          Unpadded (c.takenRaw w)) := by
    intro htaken hcredit
    rw [htaken, hcredit]
    exact ⟨le_refl _, fun _ _ hraw => absurd hraw not_mem_nil, fun _ => rfl⟩
  cases w with
  | frame hint raw =>
    by_cases hreading : c.reading = true
    · have htaken : c.takenRaw (.frame hint raw) = [raw] := if_pos hreading
      rw [htaken]
      have hsingle : flowControlled [raw] = raw.flowControlled := Nat.add_zero _
      have hunpadded : Unpadded [raw] ↔ (raw.typ = dataType → raw.padded = false) := by
        simp [Unpadded]
      rw [hsingle, hunpadded]
      cases hparse : raw.parseFrame c.blockStream with
      | error error =>
        rw [Wire.event, hparse] at hopen
        simp only [step, hreading] at hopen
        cases hopen
      | ok f =>
        have hevent : (Wire.frame hint raw).event c = .frame hint f := by rw [Wire.event, hparse]
        rw [hevent] at hopen ⊢
        simp only [step, hreading, if_true] at hopen ⊢
        obtain ⟨-, htyp, hdata⟩ := parseFrame_eq_ok hparse
        by_cases hd : raw.typ = dataType
        · obtain ⟨octs, rfl, hzero, hle, hiff⟩ := parseData_eq_ok (hdata hd)
          have hshort := raw.length_lt
          rw [(processFrame_processed http c hint _).credited hopen fun id endStream octs' heq => by
            injection heq with hid _ hocts
            subst hid hocts
            exact ⟨hzero, by omega⟩]
          have hflow : raw.flowControlled = raw.payload.length := if_pos hd
          have hlen : (Frame.data raw.streamId raw.endStream octs).dataLen = octs.length := rfl
          rw [← hiff]
          constructor
          · omega
          · simp only [hd, forall_const]
            omega
        · have hnot : ∀ id endStream octs, f ≠ .data id endStream octs := by
            rintro id endStream octs rfl
            exact hd htyp.symm
          have hflow : raw.flowControlled = 0 := if_neg hd
          have hlen : f.dataLen = 0 := by
            cases f with
            | data id endStream octs => exact absurd rfl (hnot id endStream octs)
            | _ => rfl
          rw [(processFrame_processed http c hint _).credited hopen fun id endStream octs heq =>
            absurd heq (hnot id endStream octs), hflow, hlen]
          exact ⟨le_refl _, fun _ h => absurd h hd, fun _ => rfl⟩
    · refine hquiet (if_neg hreading) ?_
      cases hparse : raw.parseFrame c.blockStream with
      | error error | ok f => simp [Wire.event, hparse, step, if_neg hreading]
  | resume | drainStream | shutdown | finish | task =>
    exact hquiet rfl (credited_step_other http c (by simp [Wire.event]))

theorem flowControlled_append (frames more : List RawFrame) :
    flowControlled (frames ++ more) = flowControlled frames + flowControlled more := by
  rw [flowControlled, map_append, sum_append, flowControlled, flowControlled]

theorem unpadded_append {frames more : List RawFrame} :
    Unpadded (frames ++ more) ↔ Unpadded frames ∧ Unpadded more :=
  forall_mem_append

theorem credited_run (http : HttpCrate) (wires : List Wire) : ∀ {c : Connection}, Reasonable c →
    (run http (wireEvents http wires c) c).closing = false →
    (run http (wireEvents http wires c) c).credited ≤
        c.credited + flowControlled (receivedRaw http wires c) ∧
      ((run http (wireEvents http wires c) c).credited =
        c.credited + flowControlled (receivedRaw http wires c) ↔
          Unpadded (receivedRaw http wires c)) := by
  induction wires with
  | nil => exact fun _ _ => ⟨le_refl _, fun _ _ hraw => absurd hraw not_mem_nil, fun _ => rfl⟩
  | cons w wires ih =>
    intro c hr hopen
    have hnext := hr.stepAny http (w.event c)
    have hstep : (step http c (w.event c)).closing = false := by
      by_contra hclosing
      have h := closing_run http (wireEvents http wires (step http c (w.event c))) hnext
        (by simpa using hclosing)
      cases h.symm.trans hopen
    obtain ⟨hle, hiff⟩ := credited_step http w hstep
    obtain ⟨hle', hiff'⟩ := ih hnext hopen
    rw [receivedRaw, flowControlled_append, unpadded_append, ← hiff, ← hiff']
    change (run http (wireEvents http wires _) _).credited ≤ _ ∧
      ((run http (wireEvents http wires _) _).credited = _ ↔ _)
    omega

/-- As long as the connection is not closing, it has given back what the DATA frames
took from the window if and only if none of them was padded. -/
theorem run_credit_conserved_iff (http : HttpCrate) (opts : ConnectionOptions) (wires : List Wire)
    (hopen : (run http (wireEvents http wires (start opts)) (start opts)).closing = false) :
    (run http (wireEvents http wires (start opts)) (start opts)).credited =
        flowControlled (receivedRaw http wires (start opts)) ↔
      Unpadded (receivedRaw http wires (start opts)) := by
  have hzero : (start opts).credited = 0 := rfl
  have h := (credited_run http wires (.start _ opts) hopen).2
  rwa [hzero, Nat.zero_add] at h

/-- HEADERS and two DATA frames, the second without data. -/
def unpaddedUpload : List Wire :=
  [.frame [] ⟨0x01, 0x04, 1, [0x83, 0x86, 0x84], by decide⟩,
    .frame [] ⟨0x00, 0x00, 1, [0x61, 0x62], by decide⟩,
    .frame [] ⟨0x00, 0x01, 1, [], by decide⟩]

theorem run_credit_conserved_unpadded :
    (run .permissive (wireEvents .permissive unpaddedUpload (start .default))
        (start .default)).credited =
      flowControlled (receivedRaw .permissive unpaddedUpload (start .default)) := by
  refine (run_credit_conserved_iff .permissive .default unpaddedUpload (by decide +kernel)).2 ?_
  have hpad : ∀ raw ∈ receivedRaw .permissive unpaddedUpload (start .default),
      raw.padded = false := by
    decide +kernel
  exact fun raw hraw _ => hpad raw hraw

/-- One octet of data with two octets of padding takes four octets and gives back one. -/
theorem run_credit_lost :
    let wires : List Wire := [.frame [] ⟨0x01, 0x04, 1, [0x83, 0x86, 0x84], by decide⟩,
      .frame [] ⟨0x00, 0x08, 1, [0x02, 0x61, 0x00, 0x00], by decide⟩]
    let c := run .permissive (wireEvents .permissive wires (start .default)) (start .default)
    c.closing = false ∧ c.credited = 1 ∧
      flowControlled (receivedRaw .permissive wires (start .default)) = 4 := by
  decide +kernel

end Runs

end Connection

end ZincioHttp.H2
