import ZincioHttp.H2.Connection.Credit

/-! The books of the send windows. What the peer grants, less what has been sent, is the
window of every stream and that of the connection: WINDOW_UPDATE frames add to a window,
SETTINGS move those of all streams, and both loops that send DATA pay for each octet from two
windows. -/

namespace ZincioHttp.H2

open Lib List Option StreamEntry

/-! ### What is granted and what is sent -/

/-- The send credit of a frame for a stream, or for the connection if the identifier is 0. -/
def Frame.creditFor (id : ℕ) : Frame → ℕ
  | .windowUpdate id' increment => if id' = id then increment else 0
  | _ => 0

def granted (frames : List Frame) (id : ℕ) : ℕ := (frames.map (Frame.creditFor id)).sum

def octetsSent (written : List Frame) : ℕ := (written.map Frame.dataLen).sum

def octetsSentOn (written : List Frame) (id : ℕ) : ℕ :=
  (written.flatMap (Frame.payloadOn id)).length

def connLedger (opts : ConnectionOptions) (frames written : List Frame) : ℤ :=
  opts.initialConnectionWindowSize.toNat + granted frames 0 - octetsSent written

def streamLedger (initialWindowSize : ℕ) (frames written : List Frame) (id : ℕ) : ℤ :=
  initialWindowSize + granted frames id - octetsSentOn written id

@[simp] theorem octetsSent_append (written more : List Frame) :
    octetsSent (written ++ more) = octetsSent written + octetsSent more := by
  simp [octetsSent]

@[simp] theorem octetsSentOn_append (written more : List Frame) (id : ℕ) :
    octetsSentOn (written ++ more) id = octetsSentOn written id + octetsSentOn more id := by
  simp [octetsSentOn]

theorem Frame.length_payloadOn_le (id : ℕ) (f : Frame) : (f.payloadOn id).length ≤ f.dataLen := by
  cases f with
  | data id' endStream octs =>
    rw [payloadOn]
    split_ifs
    · exact le_rfl
    · exact Nat.zero_le _
  | _ => exact le_rfl

theorem octetsSent_eq_zero {w : List Frame} (h : ∀ f ∈ w, f.dataLen = 0) : octetsSent w = 0 := by
  refine sum_eq_zero fun n hn => ?_
  obtain ⟨f, hf, rfl⟩ := mem_map.1 hn
  exact h f hf

theorem octetsSentOn_eq_zero {w : List Frame} (h : ∀ f ∈ w, f.dataLen = 0) (id : ℕ) :
    octetsSentOn w id = 0 := by
  rw [octetsSentOn, length_eq_zero_iff, flatMap_eq_nil_iff]
  intro f hf
  have hle := f.length_payloadOn_le id
  rw [h f hf] at hle
  exact length_eq_zero_iff.1 (Nat.le_zero.1 hle)

variable {id : ℕ} {f : Frame}

/-- Octets sent on a stream are in a DATA frame of it. -/
theorem exists_data_of_octetsSentOn {w : List Frame} (h : octetsSentOn w id ≠ 0) :
    ∃ before endStream octs after, w = before ++ .data id endStream octs :: after ∧ octs ≠ [] := by
  have hne : w.flatMap (Frame.payloadOn id) ≠ [] := fun hnil => h (by rw [octetsSentOn, hnil]; rfl)
  obtain ⟨b, hmem⟩ := exists_mem_of_ne_nil _ hne
  obtain ⟨f, hf, hb⟩ := mem_flatMap.1 hmem
  obtain ⟨before, after, rfl⟩ := append_of_mem hf
  cases f with
  | data id' endStream octs =>
    rw [Frame.payloadOn] at hb
    split_ifs at hb with hid
    · exact ⟨before, endStream, octs, after, by rw [hid], ne_nil_of_mem hb⟩
    · exact absurd hb not_mem_nil
  | _ => exact absurd hb not_mem_nil

/-- A DATA frame that is not empty is within both windows, less what has been sent before it. -/
def Affords (connWindow : ℤ) (window : ℕ → Option ℤ) (before : List Frame) (f : Frame) : Prop :=
  ∀ id endStream octs, f = .data id endStream octs → octs ≠ [] →
    (octs.length : ℤ) ≤ connWindow - octetsSent before ∧
      ∃ w, window id = some w ∧ (octs.length : ℤ) ≤ w - octetsSentOn before id

theorem Affords.free (h : f.dataLen = 0) (connWindow : ℤ) (window : ℕ → Option ℤ)
    (before : List Frame) : Affords connWindow window before f := by
  rintro id endStream octs rfl hne
  exact absurd (length_eq_zero_iff.1 h) hne

/-! ### The loops that send DATA -/

/-- What a pump has sent so far is paid for from both windows. -/
structure Pump.Pays (id : ℕ) (e : StreamEntry) (connWindow : ℤ) (p : Pump) : Prop where
  conn : p.connWindow = connWindow - octetsSent p.written
  nonneg : 0 ≤ connWindow → 0 ≤ p.connWindow
  stream : p.entry.sendWindow = e.sendWindow - octetsSentOn p.written id
  solvent : octetsSentOn p.written id = 0 ∨ 0 ≤ p.entry.sendWindow
  other : ∀ id', id' ≠ id → octetsSentOn p.written id' = 0
  affords : Historic
    (Affords connWindow fun id' => if id' = id then some e.sendWindow else none) p.written

namespace Pump.Pays

variable {id : ℕ} {e : StreamEntry} {connWindow : ℤ} {p p' : Pump}

theorem start (id : ℕ) (e : StreamEntry) (connWindow : ℤ) :
    Pays id e connWindow ⟨e, connWindow, [], false⟩ where
  conn := by simp [octetsSent]
  nonneg h := h
  stream := by simp [octetsSentOn]
  solvent := .inl rfl
  other _ _ := rfl
  affords := .nil

theorem send (h : Pays id e connWindow p) {octs : Octets} {frameEnd : Bool}
    (hwritten : p'.written = p.written ++ [.data id frameEnd octs])
    (hconn : p'.connWindow = p.connWindow - octs.length)
    (hstream : p'.entry.sendWindow = p.entry.sendWindow - octs.length)
    (hroom : octs = [] ∨
      (octs.length : ℤ) ≤ p.connWindow ∧ (octs.length : ℤ) ≤ p.entry.sendWindow) :
    Pays id e connWindow p' := by
  have hlen : octetsSent [Frame.data id frameEnd octs] = octs.length := by
    simp [octetsSent, Frame.dataLen]
  have hon : octetsSentOn [Frame.data id frameEnd octs] id = octs.length := by
    simp [octetsSentOn, Frame.payloadOn]
  refine ⟨?_, fun hpos => ?_, ?_, ?_, fun id' hid => ?_, ?_⟩
  · rw [hconn, h.conn, hwritten, octetsSent_append, hlen]
    push_cast
    ring
  · rcases hroom with rfl | hroom
    · rw [hconn, length_nil, Nat.cast_zero, sub_zero]
      exact h.nonneg hpos
    · omega
  · rw [hstream, h.stream, hwritten, octetsSentOn_append, hon]
    push_cast
    ring
  · rw [hstream, hwritten, octetsSentOn_append, hon]
    rcases hroom with rfl | hroom
    · simpa using h.solvent
    · exact .inr (by omega)
  · rw [hwritten, octetsSentOn_append, h.other id' hid]
    simp [octetsSentOn, Frame.payloadOn, Ne.symm hid]
  · rw [hwritten]
    refine h.affords.append (.singleton ?_)
    rintro id' endStream octs' heq hne
    obtain ⟨rfl, -, rfl⟩ := Frame.data.inj heq
    rcases hroom with rfl | hroom
    · exact absurd rfl hne
    · have hconn := h.conn
      have hstream := h.stream
      rw [append_nil]
      exact ⟨by omega, e.sendWindow, if_pos rfl, by omega⟩

theorem moves {maxFrameSize : ℕ} (hm : Moves id maxFrameSize p p') (h : Pays id e connWindow p) :
    Pays id e connWindow p' := by
  cases hm with
  | stay => exact h
  | send deficit amount data endStream rest hopen hfront hle hconn hstream =>
    have hroom : ∀ octs : Octets, octs.length = amount → octs = [] ∨
        (octs.length : ℤ) ≤ p.connWindow ∧ (octs.length : ℤ) ≤ p.entry.sendWindow := by
      intro octs hlen
      by_cases hnil : data = []
      · rw [hnil, length_nil] at hle
        exact .inl (length_eq_zero_iff.1 (by omega))
      · rw [hlen]
        exact .inr ⟨hconn.resolve_left hnil, hstream.resolve_left hnil⟩
    by_cases hall : amount = data.length
    · subst hall
      rw [sendChunk_all]
      exact h.send rfl rfl rfl (hroom data rfl)
    have hlen : (data.take amount).length = amount := by
      rw [length_take]
      omega
    rw [sendChunk_part _ _ _ _ hall]
    exact h.send rfl (by rw [hlen]) (by rw [hlen]) (hroom _ hlen)

end Pump.Pays

namespace Connection

def window (c : Connection) (id : ℕ) : Option ℤ := (c.entry id).map StreamEntry.sendWindow

/-- The frames `w` are written and paid for. -/
structure Spends (w : List Frame) (c c' : Connection) : Prop where
  written : c'.written = c.written ++ w
  peer : c'.peer = c.peer
  highest : c'.highestStreamId = c.highestStreamId
  conn : c'.connWindow = c.connWindow - octetsSent w
  nonneg : 0 ≤ c.connWindow → 0 ≤ c'.connWindow
  stream : ∀ id e', c'.entry id = some e' → ∃ e, c.entry id = some e ∧
    e'.sendWindow = e.sendWindow - octetsSentOn w id ∧ (octetsSentOn w id = 0 ∨ 0 ≤ e'.sendWindow)
  small : ∀ f ∈ w, f.dataLen ≤ c.peer.maxFrameSize
  affords : Historic (Affords c.connWindow c.window) w

namespace Spends

variable {w w' : List Frame} {c c' c'' : Connection} {id : ℕ}

/-- The windows after what has been paid admit no more than those before. -/
theorem affords_later (h : Spends w c c') {before : List Frame}
    (hf : Affords c'.connWindow c'.window before f) :
    Affords c.connWindow c.window (w ++ before) f := by
  intro id endStream octs heq hne
  obtain ⟨hconn, w', hw', hle⟩ := hf id endStream octs heq hne
  obtain ⟨e', he', rfl⟩ := Option.map_eq_some_iff.1 hw'
  obtain ⟨e, he, hsend, -⟩ := h.stream id e' he'
  have hpaid := h.conn
  rw [octetsSent_append, octetsSentOn_append]
  refine ⟨by push_cast; omega, e.sendWindow, by rw [window, he, map_some], ?_⟩
  omega

theorem trans (h : Spends w c c') (h' : Spends w' c' c'') : Spends (w ++ w') c c'' where
  written := by rw [h'.written, h.written, append_assoc]
  peer := h'.peer.trans h.peer
  highest := h'.highest.trans h.highest
  conn := by
    rw [h'.conn, h.conn, octetsSent_append]
    push_cast
    ring
  nonneg := h'.nonneg ∘ h.nonneg
  stream id e'' he'' := by
    obtain ⟨e', he', hsend', hsolvent'⟩ := h'.stream id e'' he''
    obtain ⟨e, he, hsend, hsolvent⟩ := h.stream id e' he'
    rw [octetsSentOn_append]
    refine ⟨e, he, by push_cast; omega, ?_⟩
    omega
  small f hf := by
    rcases mem_append.1 hf with hf | hf
    · exact h.small f hf
    · rw [← h.peer]
      exact h'.small f hf
  affords := h.affords.append (h'.affords.mono fun _ _ => h.affords_later)

theorem free (hw : c'.written = c.written ++ w) (hfree : ∀ f ∈ w, f.dataLen = 0)
    (hpeer : c'.peer = c.peer) (hhighest : c'.highestStreamId = c.highestStreamId)
    (hconn : c'.connWindow = c.connWindow)
    (hentry : ∀ id e', c'.entry id = some e' →
      ∃ e, c.entry id = some e ∧ e'.sendWindow = e.sendWindow) : Spends w c c' where
  written := hw
  peer := hpeer
  highest := hhighest
  conn := by simp [hconn, octetsSent_eq_zero hfree]
  nonneg h := hconn ▸ h
  stream id e' he' := by
    obtain ⟨e, he, heq⟩ := hentry id e' he'
    exact ⟨e, he, by simp [heq, octetsSentOn_eq_zero hfree], .inl (octetsSentOn_eq_zero hfree id)⟩
  small f hf := by simp [hfree f hf]
  affords := .of_mem fun f hf before => .free (hfree f hf) _ _ before

theorem silent (hw : c'.written = c.written) (hpeer : c'.peer = c.peer)
    (hhighest : c'.highestStreamId = c.highestStreamId) (hconn : c'.connWindow = c.connWindow)
    (hstreams : c'.streams = c.streams) : Spends [] c c' :=
  free (hw.trans (append_nil _).symm) nofun hpeer hhighest hconn fun id e' he' =>
    ⟨e', by rwa [entry, hstreams] at he', rfl⟩

theorem refl (c : Connection) : Spends [] c c := silent rfl rfl rfl rfl rfl

theorem write (c : Connection) (hfree : ∀ f ∈ w, f.dataLen = 0) : Spends w c (c.write w) :=
  free rfl hfree rfl rfl rfl fun _ e he => ⟨e, he, rfl⟩

theorem goaway (c : Connection) (reason : Reason) (debug : String) :
    ∃ w, Spends w c (c.goaway reason debug) :=
  ⟨_, free rfl (fun _ hf => mem_singleton.1 hf ▸ rfl) rfl rfl rfl fun _ e he => ⟨e, he, rfl⟩⟩

theorem reset (c : Connection) (id code : ℕ) :
    Spends [.reset id code] c (c.write [.reset id code]) :=
  write c fun _ hf => mem_singleton.1 hf ▸ rfl

theorem setEntry {e e' : StreamEntry} (he : c.entry id = some e)
    (hsend : e'.sendWindow = e.sendWindow) : Spends [] c (c.setEntry id e') := by
  refine free (append_nil _).symm nofun rfl rfl rfl ?_
  exact entry_setEntry_from he hsend fun _ => rfl

theorem retire (c : Connection) (id : ℕ) : Spends [] c (c.retire id) :=
  free (append_nil _).symm nofun rfl rfl rfl (entry_removeStream_from fun _ => rfl)

theorem writeFields (c : Connection) (id : ℕ) (endStream : Bool) (fields : List Hpack.Header) :
    ∃ w, Spends w c (c.writeFields id endStream fields) := by
  refine ⟨_, free rfl (fun f hf => ?_) rfl rfl rfl fun _ e he => ⟨e, he, rfl⟩⟩
  have hsum := (writeFieldBlock_spec c.writerMaxFrameSize id id endStream
    (c.encoder.encode fields).2).2.2
  exact (List.sum_eq_zero_iff_forall_eq_nat.1 hsum) _ (mem_map_of_mem hf)

theorem settle {e : StreamEntry} {p : Pump} (he : c.entry id = some e)
    (hreached : Pump.Reached id c.peer.maxFrameSize e c.connWindow p) :
    Spends p.written c (c.settle id p) := by
  have hp : p.Pays id e c.connWindow :=
    hreached.induction (.start id e _) fun _ _ => Pump.Pays.moves
  have hput : Spends p.written c { (c.setEntry id p.entry).write p.written with
      connWindow := p.connWindow } :=
    { written := rfl
      peer := rfl
      highest := rfl
      conn := hp.conn
      nonneg := hp.nonneg
      stream := fun id' e' he' => by
        have he₁ : (c.setEntry id p.entry).entry id' = some e' := he'
        rcases entry_of_setEntry he₁ with ⟨rfl, rfl⟩ | ⟨hid, he₁⟩
        · exact ⟨e, he, hp.stream, hp.solvent⟩
        · exact ⟨e', he₁, by simp [hp.other id' hid], .inl (hp.other id' hid)⟩
      small := fun f hf => by
        obtain ⟨frameEnd, octs, rfl, hlen⟩ := hreached.written f hf
        exact hlen
      affords := hp.affords.mono fun before f hf id' endStream octs heq hne => by
        obtain ⟨hconn, w', hw', hle⟩ := hf id' endStream octs heq hne
        obtain ⟨rfl, hsome⟩ : id' = id ∧ some e.sendWindow = some w' := by
          simpa only [ite_none_right_eq_some] using hw'
        exact ⟨hconn, w', by rw [window, he, map_some, hsome], hle⟩ }
  rw [Connection.settle]
  by_cases hr : p.retired = true
  · simp only [hr]
    have h := hput.trans (retire _ id)
    rwa [append_nil] at h
  · simp only [hr]
    exact hput

theorem exists_trans (h : ∃ w, Spends w c c') (h' : ∃ w, Spends w c' c'') :
    ∃ w, Spends w c c'' := by
  obtain ⟨w, h⟩ := h
  obtain ⟨w', h'⟩ := h'
  exact ⟨w ++ w', h.trans h'⟩

theorem response : ResponseClosed (fun _ => True) fun c c' => ∃ w, Spends w c c' where
  refl c := ⟨[], refl c⟩
  trans := exists_trans
  setEntry _ _ _ _ _ he _ hsend := ⟨[], setEntry he hsend⟩
  settle _ _ _ _ _ he hp := ⟨_, settle he hp⟩
  writeFields c _ endStream fields _ := writeFields c _ endStream fields
  reset c _ code _ := ⟨_, reset c _ code⟩
  retire c _ _ := ⟨[], retire c _⟩

end Spends

variable {fin : Prop}

theorem Changes.sendWindow {e e' : StreamEntry} (h : Changes fin e e') :
    e'.sendWindow = e.sendWindow := by
  cases h with
  | same | endRemote | addData => rfl
  | bookkeep h => rw [h]
  | start parsed endStream =>
    rw [closeBody]
    split_ifs <;> rfl
  | send _ hs | feed _ hs =>
    obtain ⟨-, ch, -, rfl⟩ := sendBody_eq_some hs
    rfl

theorem Action.written {issued : List BodyMsg} {c c' : Connection}
    (ha : Action id fin c issued c') : Adds (·.dataLen = 0) c.written c'.written := by
  cases ha with
  | note hnote => exact .none (by rw [hnote])
  | credit octs =>
    obtain ⟨w, hw, hcredit⟩ := restoreWindows_eq_write c id octs
    rw [hw]
    refine ⟨w, rfl, fun f hf => ?_⟩
    obtain ⟨id', increment, rfl⟩ := hcredit f hf
    rfl
  | answer | goaway | idle | cancelGoaway | reset code => exact .one rfl rfl
  | _ => exact .none rfl

namespace Spends

variable {c c' : Connection}

theorem action {issued : List BodyMsg} (ha : Action id fin c issued c') : ∃ w, Spends w c c' := by
  obtain ⟨w, hw, hfree⟩ := ha.written
  refine ⟨w, free hw hfree ha.rest.2.1 ha.rest.2.2.2 ha.rest.1 fun id' e' he' => ?_⟩
  by_cases hid : id' = id
  · subst hid
    obtain ⟨e, he, hchange⟩ := ha.entry_some he'
    exact ⟨e, he, hchange.sendWindow⟩
  · rw [ha.entry_ne hid] at he'
    exact ⟨e', he', rfl⟩

theorem closed : RequestClosed fun c c' => ∃ w, Spends w c c' where
  refl c := ⟨[], refl c⟩
  trans := exists_trans
  action := action
  ping c _ := ⟨_, write c fun _ hf => mem_singleton.1 hf ▸ rfl⟩
  heedGoaway _ := ⟨[], silent rfl rfl rfl rfl rfl⟩

end Spends

/-! ### The books -/

/-- All windows are what the books say, and within their bounds. -/
structure Books (opts : ConnectionOptions) (frames : List Frame) (c : Connection) : Prop where
  conn : c.connWindow = connLedger opts frames c.written
  connBounds : 0 ≤ c.connWindow ∧ c.connWindow ≤ maxWindow
  stream : ∀ id e, c.entry id = some e →
    e.sendWindow = streamLedger c.peer.initialWindowSize frames c.written id
  streamBounds : ∀ id e, c.entry id = some e →
    c.peer.initialWindowSize - maxWindow ≤ e.sendWindow ∧ e.sendWindow ≤ maxWindow
  initial : (c.peer.initialWindowSize : ℤ) ≤ maxWindow
  /-- Nothing is granted to a stream or sent on it before it is opened. -/
  unused : ∀ id, c.highestStreamId < id → granted frames id = 0 ∧ octetsSentOn c.written id = 0
  zero : c.entry 0 = none

/-- The DATA frames written after `written` were within both windows and the frame size. -/
def Covered (opts : ConnectionOptions) (frames written : List Frame) (c : Connection) : Prop :=
  ∀ before id endStream octs after,
    c.written = written ++ before ++ .data id endStream octs :: after → octs ≠ [] →
      octs.length ≤ c.peer.maxFrameSize ∧
        (octs.length : ℤ) ≤ connLedger opts frames (written ++ before) ∧
        (octs.length : ℤ) ≤ streamLedger c.peer.initialWindowSize frames (written ++ before) id

theorem Covered.free {opts : ConnectionOptions} {frames written : List Frame} {c : Connection}
    (h : Adds (·.dataLen = 0) written c.written) : Covered opts frames written c := by
  obtain ⟨w, hw, hfree⟩ := h
  intro before id endStream octs after heq hne
  rw [hw, append_assoc, append_cancel_left_eq] at heq
  exact absurd (length_eq_zero_iff.1 (hfree _ (heq ▸ by simp : .data id endStream octs ∈ w))) hne

namespace Books

variable {opts : ConnectionOptions} {frames frames' w : List Frame} {c c' : Connection}

theorem start (opts : ConnectionOptions)
    (hopts : opts.initialConnectionWindowSize.toNat ≤ maxWindow) :
    Books opts [] (start opts) where
  conn := by simp [Connection.start, connLedger, granted, octetsSent, announcement, Frame.dataLen]
  connBounds := ⟨Int.natCast_nonneg _, hopts⟩
  stream id e he := by simp at he
  streamBounds id e he := by simp at he
  initial := show ((defaultConnectionWindowSize : ℕ) : ℤ) ≤ maxWindow by decide
  unused _ _ := ⟨rfl, rfl⟩
  zero := entry_start 0 opts

section
variable (h : Books opts frames c)
include h

theorem congr (hgranted : ∀ id, granted frames' id = granted frames id) : Books opts frames' c where
  conn := by rw [h.conn, connLedger, connLedger, hgranted]
  connBounds := h.connBounds
  stream id e he := by rw [h.stream id e he, streamLedger, streamLedger, hgranted]
  streamBounds := h.streamBounds
  initial := h.initial
  unused id hid := by rw [hgranted]; exact h.unused id hid
  zero := h.zero

theorem spends (hb : Bounded c) (hs : Spends w c c') : Books opts frames c' where
  conn := by
    rw [hs.conn, h.conn, hs.written, connLedger, connLedger, octetsSent_append]
    push_cast
    ring
  connBounds := by
    have hconn := hs.conn
    have hbounds := h.connBounds
    exact ⟨hs.nonneg hbounds.1, by omega⟩
  stream id e' he' := by
    obtain ⟨e, he, hsend, -⟩ := hs.stream id e' he'
    rw [hsend, h.stream id e he, hs.peer, hs.written, streamLedger, streamLedger,
      octetsSentOn_append]
    push_cast
    ring
  streamBounds id e' he' := by
    obtain ⟨e, he, hsend, hsolvent⟩ := hs.stream id e' he'
    have hbounds := h.streamBounds id e he
    have hinitial := h.initial
    rw [hs.peer]
    omega
  initial := hs.peer ▸ h.initial
  unused id hid := by
    rw [hs.highest] at hid
    obtain ⟨hgranted, hsent⟩ := h.unused id hid
    refine ⟨hgranted, ?_⟩
    rw [hs.written, octetsSentOn_append, hsent, Nat.zero_add]
    by_contra hne
    obtain ⟨before, endStream, octs, after, heq, hocts⟩ := exists_data_of_octetsSentOn hne
    obtain ⟨-, w', hw', -⟩ := hs.affords before _ after heq id endStream octs rfl hocts
    obtain ⟨e, he, -⟩ := Option.map_eq_some_iff.1 hw'
    exact absurd (hb id e he) (not_le.2 hid)
  zero := by
    cases he' : c'.entry 0 with
    | none => rfl
    | some e' =>
      obtain ⟨e, he, -⟩ := hs.stream 0 e' he'
      cases h.zero.symm.trans he

theorem covered (hs : Spends w c c') : Covered opts frames c.written c' := by
  intro before id endStream octs after heq hne
  rw [hs.written, append_assoc, append_cancel_left_eq] at heq
  obtain ⟨hconn, w', hw', hle⟩ := hs.affords before _ after heq id endStream octs rfl hne
  obtain ⟨e, he, rfl⟩ := Option.map_eq_some_iff.1 hw'
  have hconn' := h.conn
  have hstream := h.stream id e he
  rw [hs.peer]
  refine ⟨hs.small (.data id endStream octs) (heq ▸ by simp), ?_, ?_⟩
  · rw [connLedger] at hconn' ⊢
    rw [octetsSent_append]
    omega
  · rw [streamLedger] at hstream ⊢
    rw [octetsSentOn_append]
    omega

theorem raise (hlt : c.highestStreamId < id) : Books opts frames (c.raiseHighest id) :=
  ⟨h.conn, h.connBounds, h.stream, h.streamBounds, h.initial,
    fun id' hid' => h.unused id' (hlt.trans hid'), h.zero⟩

theorem newStream (hlt : c.highestStreamId < id) (endStream endHeaders : Bool) (block : Octets) :
    Books opts frames ((c.raiseHighest id).setEntry id
      (.opening c.peer.initialWindowSize endStream endHeaders block)) := by
  have hraise := h.raise hlt
  refine ⟨hraise.conn, hraise.connBounds, fun id' e he => ?_, fun id' e he => ?_, hraise.initial,
    hraise.unused, ?_⟩
  · rcases entry_of_setEntry he with ⟨rfl, rfl⟩ | ⟨-, he⟩
    · obtain ⟨hgranted, hsent⟩ := h.unused id' hlt
      simp [streamLedger, hgranted, setEntry, raiseHighest, hsent, opening]
    · exact h.stream id' e he
  · rcases entry_of_setEntry he with ⟨rfl, rfl⟩ | ⟨-, he⟩
    · exact ⟨sub_le_self _ (by decide), h.initial⟩
    · exact h.streamBounds id' e he
  · have hid : (0 : ℕ) ≠ id := by omega
    rw [entry_setEntry_ne _ _ _ _ hid]
    exact h.zero

theorem opening {id : ℕ} {fin : Prop} (hb : Bounded c) (ho : Opening id fin c c') :
    Books opts frames c' ∧ Adds (·.dataLen = 0) c.written c'.written := by
  cases ho with
  | ignored => exact ⟨h, .none rfl⟩
  | invalid | stale =>
    obtain ⟨w, hs⟩ := Spends.goaway c _ _
    exact ⟨h.spends hb hs, .one rfl rfl⟩
  | refuse hlt =>
    have hb' : Bounded (c.raiseHighest id) := fun id' e he => (hb id' e he).trans hlt.le
    exact ⟨(h.raise hlt).spends hb' (.reset _ id _), .one rfl rfl⟩
  | opens endStream endHeaders block hfin hlt =>
    exact ⟨h.newStream hlt endStream endHeaders block, .none rfl⟩

end

end Books

theorem Reaches.written {octs : Octets} {c c' : Connection} (hr : Reaches id fin octs c c') :
    Adds (·.dataLen = 0) c.written c'.written := by
  obtain ⟨issued, hacts, -⟩ := hr
  exact hacts.lift
    (fun _ => .none rfl) Adds.trans Action.written

namespace Books

variable {opts : ConnectionOptions} {frames w : List Frame} {c c' : Connection} {increment : ℕ}
  {hint : List ℕ} {http : HttpCrate}

theorem shiftTo (h : Books opts frames c) {size : ℕ} (hsize : (size : ℤ) ≤ maxWindow)
    (hbounds : ∀ id e, (c.shiftTo size).entry id = some e → e.sendWindow ≤ maxWindow) :
    Books opts frames (c.shiftTo size) := by
  have hentry : ∀ {id e'}, (c.shiftTo size).entry id = some e' → ∃ e, c.entry id = some e ∧
      e'.sendWindow = e.sendWindow + ((size : ℤ) - c.peer.initialWindowSize) := by
    intro id e' he'
    obtain ⟨e, he, rfl⟩ := Option.map_eq_some_iff.1 ((entry_shiftWindows c _ id).symm.trans he')
    exact ⟨e, he, rfl⟩
  refine ⟨h.conn, h.connBounds, fun id e' he' => ?_, fun id e' he' => ⟨?_, hbounds id e' he'⟩,
    hsize, h.unused, ?_⟩
  · obtain ⟨e, he, hsend⟩ := hentry he'
    rw [hsend, h.stream id e he, streamLedger, streamLedger]
    simp only [Connection.shiftTo]
    ring
  · obtain ⟨e, he, hsend⟩ := hentry he'
    have hlow := (h.streamBounds id e he).1
    simp only [Connection.shiftTo]
    omega
  · cases he' : (c.shiftTo size).entry 0 with
    | none => rfl
    | some e' =>
      obtain ⟨e, he, -⟩ := hentry he'
      cases h.zero.symm.trans he

theorem applySetting (h : Books opts frames c) {s : Setting} (hvalid : validateSetting s = .ok ()) :
    (c.applySetting s).1.closing = true ∨
      Books opts frames (c.applySetting s).1 ∧ (c.applySetting s).1.written = c.written := by
  by_cases hid : s.id = 0x04
  · have hvalue : (s.value : ℤ) ≤ maxWindow := by
      rw [validateSetting, if_neg (by omega), if_pos hid] at hvalid
      by_contra hlarge
      rw [if_pos (not_le.1 hlarge)] at hvalid
      cases hvalid
    rw [Connection.applySetting, if_neg (by omega), if_neg (by omega), if_pos hid]
    by_cases hover : (shiftWindows c.streams ((s.value : ℤ) - c.peer.initialWindowSize)).entries.any
        (fun s => decide (s.2.sendWindow > maxWindow)) = true
    · simp only [if_pos hover]
      exact .inl rfl
    simp only [if_neg hover]
    refine .inr ⟨h.shiftTo hvalue fun id e he => ?_, trivial⟩
    by_contra hlarge
    have hmem : ⟨id, e⟩ ∈ (shiftWindows c.streams
        ((s.value : ℤ) - c.peer.initialWindowSize)).entries := AList.mem_lookup_iff.1 he
    exact hover (any_eq_true.2 ⟨_, hmem, decide_eq_true (not_le.1 hlarge)⟩)
  · have heffect := applySetting_effect c s
    generalize c.applySetting s = r at heffect ⊢
    cases heffect with
    | shift hid' | overflow hid' => exact absurd hid' hid
    | invalid => exact .inl rfl
    | @other c' _ hsize heq =>
      have hwritten : c'.written = c.written := by rw [heq]
      have hentry : ∀ id, c'.entry id = c.entry id := fun id => by rw [heq]; rfl
      refine .inr ⟨⟨?_, ?_, fun id e he => ?_, fun id e he => ?_, ?_, ?_, ?_⟩, hwritten⟩
      · rw [hwritten, ← h.conn, heq]
      · rw [heq]
        exact h.connBounds
      · rw [hsize, hwritten]
        exact h.stream id e (hentry id ▸ he)
      · rw [hsize]
        exact h.streamBounds id e (hentry id ▸ he)
      · rw [hsize]
        exact h.initial
      · rw [heq]
        exact h.unused
      · rw [hentry]
        exact h.zero

theorem applyPeerSettings (settings : List Setting) : ∀ {c : Connection}, Books opts frames c →
    (∀ s ∈ settings, validateSetting s = .ok ()) →
    (c.applyPeerSettings settings).closing = true ∨
      Books opts frames (c.applyPeerSettings settings) ∧
        (c.applyPeerSettings settings).written = c.written := by
  induction settings with
  | nil => exact fun h _ => .inr ⟨h, rfl⟩
  | cons s settings ih =>
    intro c h hvalid
    have hone := h.applySetting (hvalid s (by simp))
    rw [Connection.applyPeerSettings]
    generalize c.applySetting s = r at hone ⊢
    obtain ⟨c', goesOn⟩ := r
    cases goesOn with
    | false => exact hone
    | true =>
      rcases hone with hclosing | ⟨hbooks, hwritten⟩
      · exact .inl (closing_applyPeerSettings settings hclosing)
      · refine (ih hbooks fun s' hs' => hvalid s' (by simp [hs'])).imp_right fun hrest => ?_
        exact ⟨hrest.1, hrest.2.trans hwritten⟩

/-! ### WINDOW_UPDATE -/

theorem granted_windowUpdate (frames : List Frame) (id increment id' : ℕ) :
    granted (frames ++ [.windowUpdate id increment]) id' =
      granted frames id' + if id = id' then increment else 0 := by
  simp [granted, Frame.creditFor]

section
variable (h : Books opts frames c)
include h

theorem creditGone (increment : ℕ) (hzero : id ≠ 0) (hnone : c.entry id = none)
    (hle : id ≤ c.highestStreamId) : Books opts (frames ++ [.windowUpdate id increment]) c := by
  refine ⟨?_, h.connBounds, fun id' e he => ?_, h.streamBounds, h.initial, fun id' hid' => ?_,
    h.zero⟩
  · rw [h.conn, connLedger, connLedger, granted_windowUpdate, if_neg hzero, Nat.add_zero]
  · have hid : id ≠ id' := by
      rintro rfl
      cases hnone.symm.trans he
    rw [h.stream id' e he, streamLedger, streamLedger, granted_windowUpdate, if_neg hid,
      Nat.add_zero]
  · rw [granted_windowUpdate, if_neg (by omega)]
    exact h.unused id' hid'

theorem growWindow (hroom : ¬ c.connWindow > maxWindow - increment) :
    Books opts (frames ++ [.windowUpdate 0 increment]) (c.growWindow increment) := by
  have hconn := h.conn
  have hbounds := h.connBounds
  refine ⟨?_, ?_, fun id e he => ?_, h.streamBounds, h.initial, fun id hid => ?_, h.zero⟩
  · simp only [Connection.growWindow, connLedger, granted_windowUpdate, hconn]
    push_cast
    ring
  · simp only [Connection.growWindow]
    omega
  · have he' : c.entry id = some e := he
    have hid : 0 ≠ id := by
      rintro rfl
      cases h.zero.symm.trans he'
    rw [h.stream id e he', streamLedger, streamLedger, granted_windowUpdate, if_neg hid]
    rfl
  · have hid' : c.highestStreamId < id := hid
    rw [granted_windowUpdate, if_neg (by omega)]
    exact h.unused id hid'

theorem growEntry (hb : Bounded c) {e : StreamEntry} (he : c.entry id = some e)
    (hroom : ¬ e.sendWindow > maxWindow - increment) :
    Books opts (frames ++ [.windowUpdate id increment])
      (c.setEntry id (e.growWindow increment)) := by
  have hid : id ≠ 0 := by
    rintro rfl
    cases h.zero.symm.trans he
  have hle := hb id e he
  refine ⟨?_, h.connBounds, fun id' e' he' => ?_, fun id' e' he' => ?_, h.initial,
    fun id' hid' => ?_, ?_⟩
  · rw [connLedger, granted_windowUpdate, if_neg hid]
    exact h.conn
  · rcases entry_of_setEntry he' with ⟨rfl, rfl⟩ | ⟨heq, he'⟩
    · have hstream := h.stream id' e he
      rw [streamLedger] at hstream
      rw [streamLedger, granted_windowUpdate, if_pos rfl, StreamEntry.growWindow]
      rw [hstream]
      push_cast
      simp only [setEntry]
      ring
    · rw [streamLedger, granted_windowUpdate, if_neg (Ne.symm heq)]
      exact h.stream id' e' he'
  · rcases entry_of_setEntry he' with ⟨rfl, rfl⟩ | ⟨-, he'⟩
    · have hbounds := h.streamBounds id' e he
      simp only [StreamEntry.growWindow, setEntry]
      omega
    · exact h.streamBounds id' e' he'
  · have hhigh : c.highestStreamId < id' := hid'
    rw [granted_windowUpdate, if_neg (by omega)]
    exact h.unused id' hhigh
  · rw [entry_setEntry_ne _ _ _ _ hid.symm]
    exact h.zero

theorem windowUpdate (hs : Reasonable c) (hw : WindowUpdate hint id increment c c')
    (hopen : c'.closing = false) :
    Books opts (frames ++ [.windowUpdate id increment]) c' ∧
      Covered opts (frames ++ [.windowUpdate id increment]) c.written c' := by
  have hb := hs.tidy.bounded
  have hsame : Covered opts (frames ++ [.windowUpdate id increment]) c.written c :=
    .free (.none rfl)
  cases hw with
  | empty hzero =>
    exact ⟨h.congr fun id' => by rw [granted_windowUpdate, hzero, ite_self, Nat.add_zero], hsame⟩
  | overflow | idle => cases hopen
  | connection hid hover =>
    subst hid
    have hgrow := h.growWindow hover
    obtain ⟨w, hw⟩ := Spends.response.drainPendingData (c.growWindow increment) hint
    exact ⟨hgrow.spends hb hw, hgrow.covered hw⟩
  | gone hid hnone hclosed =>
    exact ⟨h.creditGone increment hid hnone (hs.closed id hclosed), hsame⟩
  | error hid he =>
    have hr : Reaches id True [] c (c.streamError id .flowControlError) := .streamError he _
    obtain ⟨w, hw⟩ := Spends.closed.reaches hr
    refine ⟨(h.spends hb hw).creditGone increment hid ?_ ?_, .free hr.written⟩
    · exact (streamError_entry c id .flowControlError).resolve_left (by simp [hopen])
    · rw [hw.highest]
      exact hb id _ he
  | @stream e hid he hover =>
    have hgrow := h.growEntry hb he hover
    have hb' : Bounded (c.setEntry id (e.growWindow increment)) :=
      (hs.tidy.setEntry he (e.growWindow increment)).bounded
    obtain ⟨w, hw⟩ := (Spends.response.pumps (c.setEntry id (e.growWindow increment)) trivial).1
    exact ⟨hgrow.spends hb' hw, hgrow.covered hw⟩

end

/-! ### Steps -/

/-- A frame that brings no credit leaves the books open as they are. -/
theorem granted_other (hf : ∀ id increment, f ≠ .windowUpdate id increment) (id : ℕ) :
    granted (frames ++ [f]) id = granted frames id := by
  have hcredit : f.creditFor id = 0 := by
    cases f with
    | windowUpdate id' increment => exact absurd rfl (hf id' increment)
    | _ => rfl
  simp [granted, hcredit]

section
variable (h : Books opts frames c)
include h

theorem reaches (hb : Bounded c) {octs : Octets} (hr : Reaches id True octs c c') :
    Books opts frames c' ∧ Covered opts frames c.written c' := by
  obtain ⟨w, hw⟩ := Spends.closed.reaches hr
  exact ⟨h.spends hb hw, h.covered hw⟩

theorem windowFrame (hs : Reasonable c) (hopen : c'.closing = false)
    (hf : Processed http hint c (.windowUpdate id increment) c') :
    Books opts (frames ++ [.windowUpdate id increment]) c' ∧
      Covered opts (frames ++ [.windowUpdate id increment]) c.written c' := by
  cases hf with
  | rejected => cases hopen
  | other _ hf =>
    rw [finalizeComplete_tidy http (hf.tidy hs.tidy)] at hopen ⊢
    cases hf with
    | ignored hf => cases hf
    | windowUpdate hw => exact h.windowUpdate hs hw hopen

theorem settingsFrame {settings : List Setting} (hs : Reasonable c)
    (hvalid : ∀ s ∈ settings, validateSetting s = .ok ()) (hopen : c'.closing = false)
    (hf : Processed http hint c (.settings false settings) c') :
    Books opts frames c' ∧ Covered opts frames c.written c' := by
  cases hf with
  | rejected => cases hopen
  | other _ hf =>
    have ht := hf.tidy hs.tidy
    rw [finalizeComplete_tidy http ht] at hopen ⊢
    cases hf with
    | ignored hf => cases hf
    | settings =>
      rcases h.applyPeerSettings settings hvalid with hc | ⟨hbooks, hwritten⟩
      · cases hc.symm.trans hopen
      · have hack : ∀ f ∈ [Frame.settings true []], f.dataLen = 0 := fun f hf =>
          mem_singleton.1 hf ▸ rfl
        exact ⟨hbooks.spends ht.bounded (.write _ hack),
          .free (.one rfl (congrArg (· ++ _) hwritten))⟩

theorem processed (hs : Reasonable c) (hreading : c.reading = true)
    (hvalid : ∀ ack settings, f = .settings ack settings →
      ∀ s ∈ settings, validateSetting s = .ok ())
    (hopen : c'.closing = false) (hf : Processed http hint c f c') :
    Books opts (frames ++ [f]) c' ∧ Covered opts (frames ++ [f]) c.written c' := by
  have hb := hs.tidy.bounded
  by_cases hwindow : ∃ id increment, f = .windowUpdate id increment
  · obtain ⟨id, increment, rfl⟩ := hwindow
    exact h.windowFrame hs hopen hf
  push Not at hwindow
  have h' := h.congr (granted_other hwindow)
  by_cases hsettings : ∃ settings, f = .settings false settings
  · obtain ⟨settings, rfl⟩ := hsettings
    exact h'.settingsFrame hs (hvalid false settings rfl) hopen hf
  push Not at hsettings
  rcases Spends.closed.processed hreading (fun heq => absurd heq (hwindow _ _))
      (fun settings heq => absurd heq (hsettings settings)) hs hf with
    ⟨w, hw⟩ | ⟨id, c₁, -, ho, -, hr⟩
  · exact ⟨h'.spends hb hw, h'.covered hw⟩
  · obtain ⟨hbooks, hw⟩ := h'.opening hb ho
    exact ⟨(hbooks.reaches (ho.closedBounded hs.closed hb).2 hr).1, .free (hw.trans hr.written)⟩

end

theorem step (http : HttpCrate) (h : Books opts frames c) (hs : Reasonable c) (w : Wire)
    (hopen : (step http c (w.event c)).closing = false) :
    Books opts (frames ++ c.taken (w.event c)) (step http c (w.event c)) ∧
      Covered opts (frames ++ c.taken (w.event c)) c.written (step http c (w.event c)) := by
  have hvalid : ∀ hint ack settings, w.event c = .frame hint (.settings ack settings) →
      ∀ s ∈ settings, validateSetting s = .ok () := by
    intro hint ack settings heq
    cases w with
    | frame hint' raw =>
      rw [Wire.event] at heq
      split at heq
      · rename_i f hparse
        cases heq
        exact RawFrame.parseFrame_settings hparse
      · cases heq
    | _ => cases heq
  have hquiet : ∀ {ev : Event} {c' : Connection}, c.taken ev = [] → (∃ w, Spends w c c') →
      Books opts (frames ++ c.taken ev) c' ∧ Covered opts (frames ++ c.taken ev) c.written c' := by
    rintro ev c' htaken ⟨w, hw⟩
    rw [htaken, append_nil]
    exact ⟨h.spends hs.tidy.bounded hw, h.covered hw⟩
  have hstep := step_stepped http c (w.event c)
  generalize Connection.step http c (w.event c) = c' at hopen hstep ⊢
  generalize w.event c = ev at hvalid hstep ⊢
  cases hstep with
  | same _ htaken => exact hquiet htaken ⟨[], .refl c⟩
  | @frame hint f c' hreading hf =>
    rw [taken, if_pos hreading]
    exact h.processed hs hreading (fun ack settings heq => hvalid hint ack settings (heq ▸ rfl))
      hopen hf
  | frameError => cases hopen
  | resume => exact hquiet rfl (Spends.closed.resume hs)
  | drain => exact hquiet rfl (Spends.response.drainStream c trivial)
  | shutdown =>
    exact hquiet rfl ⟨_, .free rfl (fun _ hf => mem_singleton.1 hf ▸ rfl) rfl rfl rfl
      fun _ e he => ⟨e, he, rfl⟩⟩
  | @finish w hw =>
    refine hquiet rfl ⟨w, .free rfl ?_ rfl rfl rfl fun _ e he => ⟨e, he, rfl⟩⟩
    rcases hw with rfl | ⟨-, rfl⟩
    · exact fun _ hf => absurd hf not_mem_nil
    · exact fun _ hf => mem_singleton.1 hf ▸ rfl
  | task =>
    refine hquiet rfl ⟨[], onTask_induction _ (fun _ => .silent rfl rfl rfl rfl rfl)
      fun e _ he => .setEntry he ?_⟩
    rw [StreamEntry.onTask_same]

end Books

/-! ### Runs -/

def afterWires (http : HttpCrate) (opts : ConnectionOptions) (wires : List Wire) : Connection :=
  run http (wireEvents http wires (start opts)) (start opts)

def framesTaken (http : HttpCrate) (opts : ConnectionOptions) (wires : List Wire) : List Frame :=
  received http (wireEvents http wires (start opts)) (start opts)

section
variable (http : HttpCrate)
include http

theorem wireEvents_append (wires more : List Wire) : ∀ c, wireEvents http (wires ++ more) c =
      wireEvents http wires c ++ wireEvents http more (run http (wireEvents http wires c) c) := by
  induction wires with
  | nil => exact fun c => rfl
  | cons w wires ih =>
    intro c
    exact congrArg (w.event c :: ·) (ih _)

theorem received_append (events more : List Event) : ∀ c,
    received http (events ++ more) c =
      received http events c ++ received http more (run http events c) := by
  induction events with
  | nil => exact fun c => rfl
  | cons ev events ih =>
    intro c
    rw [cons_append, received, received, ih, append_assoc]
    rfl

section
variable (opts : ConnectionOptions) (wires : List Wire)

theorem afterWires_snoc (w : Wire) :
    afterWires http opts (wires ++ [w]) = step http (afterWires http opts wires)
      (w.event (afterWires http opts wires)) := by
  rw [afterWires, wireEvents_append, run_append]
  rfl

theorem framesTaken_snoc (w : Wire) :
    framesTaken http opts (wires ++ [w]) = framesTaken http opts wires ++
      (afterWires http opts wires).taken (w.event (afterWires http opts wires)) := by
  rw [framesTaken, wireEvents_append, received_append]
  exact congrArg (framesTaken http opts wires ++ ·) (append_nil _)

theorem reasonable_afterWires : Reasonable (afterWires http opts wires) := by
  induction wires using reverseRecOn with
  | nil => exact .start _ opts
  | append_singleton wires w ih =>
    rw [afterWires_snoc]
    exact ih.stepAny http _

end

theorem open_of_append (opts : ConnectionOptions) {first rest : List Wire}
    (h : (afterWires http opts (first ++ rest)).closing = false) :
    (afterWires http opts first).closing = false := by
  by_contra hclosing
  have hc := closing_run http (wireEvents http rest (afterWires http opts first))
    (reasonable_afterWires http opts first) (by simpa using hclosing)
  rw [afterWires, wireEvents_append, run_append] at h
  cases hc.symm.trans h

/-- Every state of a run that does not close the connection has its books right. -/
theorem books_afterWires {opts : ConnectionOptions}
    (hopts : opts.initialConnectionWindowSize.toNat ≤ maxWindow) (wires : List Wire)
    (hopen : (afterWires http opts wires).closing = false) :
    Books opts (framesTaken http opts wires) (afterWires http opts wires) := by
  induction wires using reverseRecOn with
  | nil => exact .start opts hopts
  | append_singleton wires w ih =>
    have hbooks := ih (open_of_append http opts hopen)
    rw [framesTaken_snoc]
    rw [afterWires_snoc] at hopen ⊢
    exact (hbooks.step http (reasonable_afterWires http opts wires) w hopen).1

end

/-- Both ledgers are exact as long as the connection does not close: every window is what has
been granted less what has been sent and within its bounds, and every DATA frame was within
both windows and the peer's frame size when it was written. -/
theorem run_send_windows (http : HttpCrate) {opts : ConnectionOptions}
    (hopts : opts.initialConnectionWindowSize.toNat ≤ maxWindow) (wires : List Wire)
    (hopen : (afterWires http opts wires).closing = false) :
    (∀ id e, (afterWires http opts wires).entry id = some e →
      e.sendWindow = streamLedger (afterWires http opts wires).peer.initialWindowSize
          (framesTaken http opts wires) (afterWires http opts wires).written id ∧
        -maxWindow ≤ e.sendWindow ∧ e.sendWindow ≤ maxWindow) ∧
      (afterWires http opts wires).connWindow =
        connLedger opts (framesTaken http opts wires) (afterWires http opts wires).written ∧
      (-maxWindow ≤ (afterWires http opts wires).connWindow ∧
        (afterWires http opts wires).connWindow ≤ maxWindow) ∧
      ∀ first w rest, wires = first ++ w :: rest →
        Covered opts (framesTaken http opts (first ++ [w])) (afterWires http opts first).written
          (afterWires http opts (first ++ [w])) := by
  have h := books_afterWires http hopts wires hopen
  have hbounds := h.connBounds
  refine ⟨fun id e he => ⟨h.stream id e he, ?_, (h.streamBounds id e he).2⟩, h.conn,
    ⟨?_, hbounds.2⟩, ?_⟩
  · have hlow := (h.streamBounds id e he).1
    omega
  · omega
  · rintro first w rest rfl
    rw [← singleton_append, ← append_assoc] at hopen
    have hnext := open_of_append http opts hopen
    have hbooks := books_afterWires http hopts first (open_of_append http opts hnext)
    rw [framesTaken_snoc]
    rw [afterWires_snoc] at hnext ⊢
    exact (hbooks.step http (reasonable_afterWires http opts first) w hnext).2

/-- A request, a response of two octets, and credit for the connection. -/
def creditedResponse : List Wire :=
  [.frame [] ⟨RawFrame.headersType, 0x05, 1, [0x82, 0x86, 0x84], by decide⟩,
    .task 1 (.send (.headers ⟨200, []⟩ false)), .task 1 (.send (.data [0x61, 0x62] false)),
    .drainStream 1, .frame [] ⟨RawFrame.windowUpdateType, 0, 0, [0, 0, 0, 7], by decide⟩]

theorem run_send_windows_credited :
    (afterWires .permissive .default creditedResponse).connWindow = 65535 + 7 - 2 := by
  have hopts : ConnectionOptions.default.initialConnectionWindowSize.toNat ≤ maxWindow := by decide
  have h := (run_send_windows .permissive hopts creditedResponse (by decide +kernel)).2.1
  have hledger : connLedger .default (framesTaken .permissive .default creditedResponse)
      (afterWires .permissive .default creditedResponse).written = 65535 + 7 - 2 := by
    decide +kernel
  exact h.trans hledger

end Connection

end ZincioHttp.H2
