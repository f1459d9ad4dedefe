import ZincioHttp.H2.FrameDecoder
import ZincioHttp.H2.FrameWriter

/-! What the frame writer writes, the frame decoder reads back, however the octets are cut
into pieces. Each frame is a header and a payload of the length it declares; the parser
inverts the layout of every type; a field block is one HEADERS frame and the CONTINUATION
frames that follow it at once. -/

namespace ZincioHttp.H2

open Lib List Option
open FrameWriter hiding flags

/-! ### Numbers -/

@[simp] theorem toNat_ofNat_mod (n : ℕ) : (UInt8.ofNat (n % 256)).toNat = n % 256 :=
  toNat_ofNat_of_lt (Nat.mod_lt n (by omega))

theorem readU32_u32Bytes {n : ℕ} (h : n < 2 ^ 32) (rest : Octets) :
    readU32 (u32Bytes n ++ rest) = n := by
  simp only [readU32, u32Bytes, cons_append, nil_append, take_succ_cons,
    take_zero, foldl_cons, foldl_nil, toNat_ofNat_mod]
  omega

theorem readU16_u16Bytes {n : ℕ} (h : n < 2 ^ 16) : readU16 (u16Bytes n) = n := by
  simp only [readU16, u16Bytes, take_succ_cons, take_zero, foldl_cons, foldl_nil, toNat_ofNat_mod]
  omega

/-! ### Headers -/

variable {f : Frame}

namespace FrameDecoder

variable {n id : ℕ} {typ fl : UInt8} {payload : Octets}

theorem readU24_header (hn : n < 2 ^ 24) (rest : Octets) :
    readU24 (header n typ fl id ++ rest) = n := by
  simp only [readU24, header, cons_append, nil_append, take_succ_cons,
    take_zero, foldl_cons, foldl_nil, toNat_ofNat_mod]
  omega

theorem streamId_header (hid : id < 2 ^ 31) (rest : Octets) :
    readU32 ((header n typ fl id ++ rest).drop 5) % 2 ^ 31 = id := by
  have hfirst : (UInt8.ofNat (id / 2 ^ 24 % 128)).toNat = id / 2 ^ 24 % 128 :=
    toNat_ofNat_of_lt (by omega)
  simp only [readU32, header, cons_append, nil_append, drop_succ_cons, drop_zero,
    take_succ_cons, take_zero, foldl_cons, foldl_nil, toNat_ofNat_mod, hfirst]
  omega

theorem front_header (hlen : payload.length < 2 ^ 24) (hid : id < 2 ^ 31) (rest : Octets) :
    front (header payload.length typ fl id ++ (payload ++ rest)) =
      ⟨typ, fl, id, payload, hlen⟩ := by
  have hpayload : ((header payload.length typ fl id ++ (payload ++ rest)).drop frameHeaderLen).take
      payload.length = payload := by
    simp [header, frameHeaderLen]
  simp only [front, streamId_header hid, readU24_header hlen, hpayload]
  rfl

theorem nextFrame_complete {d : FrameDecoder} {rest : Octets}
    (hbuf : d.buf = header payload.length typ fl id ++ (payload ++ rest))
    (hlen : payload.length < 2 ^ 24) (hmax : payload.length ≤ d.maxFrameSize) (hid : id < 2 ^ 31)
    (hparse : (RawFrame.mk typ fl id payload hlen).parseFrame d.blockStream = .ok f) :
    d.nextFrame =
      .ok (⟨rest, adopt d.maxFrameSize f, f.nextBlockStream d.blockStream⟩, some f) := by
  have hrest : (header payload.length typ fl id ++ (payload ++ rest)).drop
      (frameHeaderLen + payload.length) = rest := by
    rw [← drop_drop]
    simp [header, frameHeaderLen]
  have htotal : (header payload.length typ fl id ++ (payload ++ rest)).length =
      frameHeaderLen + payload.length + rest.length := by
    simp [header, frameHeaderLen]
    omega
  rw [nextFrame, hbuf, htotal, readU24_header hlen, if_neg (by omega), if_neg (by omega),
    if_neg (by omega), front_header hlen hid, hparse, hrest]

theorem nextFrame_partial {d : FrameDecoder} {rest : Octets}
    (hbuf : d.buf <+: header payload.length typ fl id ++ (payload ++ rest))
    (hshort : d.buf.length < (header payload.length typ fl id ++ payload).length)
    (hlen : payload.length < 2 ^ 24) (hmax : payload.length ≤ d.maxFrameSize) :
    d.nextFrame = .ok (d, none) := by
  rw [nextFrame]
  by_cases hheader : d.buf.length < frameHeaderLen
  · rw [if_pos hheader]
  have hnine : (header payload.length typ fl id).length = frameHeaderLen := rfl
  obtain ⟨tail, htail⟩ : header payload.length typ fl id <+: d.buf :=
    prefix_of_prefix_length_le (prefix_append _ _) hbuf (by omega)
  have hread : readU24 d.buf = payload.length := by
    rw [← htail]
    exact readU24_header hlen tail
  rw [length_append, hnine] at hshort
  rw [if_neg hheader, hread, if_neg (by omega), if_pos hshort]

end FrameDecoder

/-! ### What can be written -/

def Priority.Valid (p : Priority) (streamId : ℕ) : Prop :=
  p.dependency < 2 ^ 31 ∧ p.dependency ≠ streamId

def Setting.Valid (s : Setting) : Prop :=
  s.id < 2 ^ 16 ∧ s.value < 2 ^ 32 ∧ validateSetting s = .ok ()

/-- A frame of the writer that a peer may send: identifiers and lengths fit their fields, and
the payload fits every frame-size limit. -/
def Frame.Writable : Frame → Prop
  | .data id _ octs => (0 < id ∧ id < 2 ^ 31) ∧ octs.length ≤ defaultMaxFrameSize
  | .headers id _ _ p block => (0 < id ∧ id < 2 ^ 31) ∧ (∀ p' ∈ p, p'.Valid id) ∧
    block.length + (if p.isSome then 5 else 0) ≤ defaultMaxFrameSize
  | .priority id p => (0 < id ∧ id < 2 ^ 31) ∧ p.Valid id
  | .reset id errorCode => (0 < id ∧ id < 2 ^ 31) ∧ errorCode < 2 ^ 32
  | .settings ack parameters => (∀ s ∈ parameters, s.Valid) ∧
    parameters.length * 6 ≤ defaultMaxFrameSize ∧ (ack → parameters = [])
  | .pushPromise id endHeaders promised block => (0 < id ∧ id < 2 ^ 31) ∧ endHeaders ∧
    (0 < promised ∧ promised < 2 ^ 31) ∧ 4 + block.length ≤ defaultMaxFrameSize
  | .ping _ payload => payload.length = 8
  | .goAway last errorCode debug => last < 2 ^ 31 ∧ errorCode < 2 ^ 32 ∧
    8 + debug.length ≤ defaultMaxFrameSize
  | .windowUpdate id increment => id < 2 ^ 31 ∧ 0 < increment ∧ increment < 2 ^ 31
  | .continuation id _ block => (0 < id ∧ id < 2 ^ 31) ∧ block.length ≤ defaultMaxFrameSize
  | .unknown .. => False

/-! ### The parser inverts the layouts -/

namespace RawFrame

variable {fl : UInt8} {id : ℕ} {payload : Octets} {h : payload.length < 2 ^ 24} {bs : Option ℕ}

theorem checkBlock_of_blockError {raw : RawFrame} (htyp : raw.typ = f.typ)
    (hid : raw.streamId = f.streamId)
    (hf : f.Writable) (hblock : f.blockError bs = none) : raw.checkBlock bs = .ok () := by
  cases f with
  | unknown => exact hf.elim
  | continuation id endHeaders block =>
    cases bs with
    | none => simp [Frame.blockError] at hblock
    | some openStream =>
      simp only [Frame.blockError, ite_eq_right_iff, reduceCtorEq, imp_false] at hblock
      simp [checkBlock, htyp, hid, Frame.typ, Frame.streamId, hblock]
  | _ =>
    cases bs with
    | none => simp [checkBlock, htyp, Frame.typ, dataType, headersType, priorityType, rstStreamType,
        settingsType, pushPromiseType, pingType, goawayType, windowUpdateType, continuationType]
    | some openStream => simp [Frame.blockError] at hblock

/-- The parser for frames of the type of `f`. -/
def parserOf : Frame → RawFrame → Except H2Error Frame
  | .data .. => parseData
  | .headers .. => parseHeaders
  | .priority .. => parsePriority
  | .reset .. => parseReset
  | .settings .. => parseSettings
  | .pushPromise .. => parsePushPromise
  | .ping .. => parsePing
  | .goAway .. => parseGoaway
  | .windowUpdate .. => parseWindowUpdate
  | .continuation .. => fun raw => .ok (.continuation raw.streamId raw.endHeaders raw.payload)
  | .unknown .. => fun raw => .ok (.unknown raw.typ raw.flags raw.streamId raw.payload)

theorem parseFrame_of_blockError {raw : RawFrame} (htyp : raw.typ = f.typ)
    (hid : raw.streamId = f.streamId)
    (hf : f.Writable) (hblock : f.blockError bs = none) : raw.parseFrame bs = parserOf f raw := by
  rw [parseFrame, checkBlock_of_blockError htyp hid hf hblock, htyp]
  cases f with
  | unknown => exact hf.elim
  | _ => rfl

theorem flags_endStream (a b c : Bool) : (FrameWriter.flags a b c &&& 0x01 != 0) = a := by
  cases a <;> cases b <;> cases c <;> rfl

theorem flags_endHeaders (a b c : Bool) : (FrameWriter.flags a b c &&& 0x04 != 0) = b := by
  cases a <;> cases b <;> cases c <;> rfl

theorem flags_padded (a b c : Bool) : (FrameWriter.flags a b c &&& 0x08 != 0) = false := by
  cases a <;> cases b <;> cases c <;> rfl

theorem flags_prioritized (a b c : Bool) : (FrameWriter.flags a b c &&& 0x20 != 0) = c := by
  cases a <;> cases b <;> cases c <;> rfl

theorem requireStream_of_pos (hid : 0 < id) : requireStream id = .ok () := if_neg (by omega)

theorem payloadSlice_drop (before body : Octets) : payloadSlice (before ++ body) body 0 = body := by
  have := payloadSlice_append before body []
  rwa [append_nil, length_nil] at this

theorem parseData_written (endStream : Bool) (hid : 0 < id) :
    (mk dataType (FrameWriter.flags endStream false false) id payload h).parseData =
      .ok (.data id endStream payload) := by
  simp only [parseData, requireStream_of_pos hid, padded, flags_padded, takePadding, Bool.not_false,
    if_true, ok_bind, payloadSlice_self, RawFrame.endStream, flags_endStream]
  rfl

theorem readPriority_written {p : Priority} (hp : p.Valid id) (rest : Octets) :
    readPriority (priorityFields p ++ rest) id = .ok (p, rest) := by
  obtain ⟨hdep, hself⟩ := hp
  have hword : p.dependency % 2 ^ 31 + (if p.exclusive then 2 ^ 31 else 0) < 2 ^ 32 := by
    split_ifs <;> omega
  have hread : readU32 (priorityFields p ++ rest) % 2 ^ 31 = p.dependency := by
    rw [priorityFields, append_assoc, readU32_u32Bytes hword]
    split_ifs <;> omega
  have hbit : ((priorityFields p ++ rest).getD 0 0 &&& 0x80 != 0) = p.exclusive := by
    show (UInt8.ofNat ((p.dependency % 2 ^ 31 + if p.exclusive then 2 ^ 31 else 0) / 2 ^ 24 % 256)
      &&& 0x80 != 0) = _
    cases hex : p.exclusive with
    | true =>
      rw [bne_iff_ne, Ne, and_high_eq_zero_iff, toNat_ofNat_mod, if_pos rfl]
      omega
    | false =>
      rw [bne_eq_false_iff_eq, and_high_eq_zero_iff, toNat_ofNat_mod, if_neg (by simp)]
      omega
  simp only [readPriority, hread, if_neg hself, hbit]
  rfl

theorem parseHeaders_written (endStream endHeaders : Bool) {p : Option Priority} {block : Octets}
    (hid : 0 < id) (hp : ∀ p' ∈ p, p'.Valid id)
    (hpayload : payload = (p.map priorityFields).getD [] ++ block) :
    (mk headersType (FrameWriter.flags endStream endHeaders p.isSome) id payload h
      ).parseHeaders = .ok (.headers id endStream endHeaders p block) := by
  simp only [parseHeaders, requireStream_of_pos hid, padded, flags_padded, takePadding,
    Bool.not_false, if_true, ok_bind, prioritized, flags_prioritized, RawFrame.endStream,
    flags_endStream, RawFrame.endHeaders, flags_endHeaders]
  cases p with
  | none =>
    rw [hpayload]
    simp only [isSome_none, Bool.false_eq_true, if_false, map_none, getD_none,
      nil_append, payloadSlice_self]
    rfl
  | some p =>
    rw [hpayload]
    simp only [isSome_some, if_true, map_some, getD_some,
      readPriority_written (hp p rfl), ok_bind, payloadSlice_drop]
    rfl

theorem readSettings_written (parameters : List Setting) (hvalid : ∀ s ∈ parameters, s.Valid) :
    readSettings (parameters.flatMap fun s => u16Bytes s.id ++ u32Bytes s.value) =
      .ok parameters := by
  induction parameters with
  | nil => rfl
  | cons s parameters ih =>
    obtain ⟨hid, hvalue, hok⟩ := hvalid s (by simp)
    have hid' := readU16_u16Bytes hid
    have hvalue' := readU32_u32Bytes hvalue []
    rw [append_nil] at hvalue'
    simp only [u16Bytes] at hid'
    simp only [u32Bytes] at hvalue'
    simp only [flatMap_cons, u16Bytes, u32Bytes, cons_append, nil_append, readSettings,
      hid', hvalue', hok, ok_bind]
    simp only [u16Bytes, u32Bytes, cons_append, nil_append] at ih
    rw [ih fun s hs => hvalid s (by simp [hs])]
    rfl

end RawFrame

open RawFrame

theorem length_settings (parameters : List Setting) :
    (parameters.flatMap fun s => u16Bytes s.id ++ u32Bytes s.value).length =
      parameters.length * 6 := by
  induction parameters with
  | nil => rfl
  | cons s parameters ih =>
    rw [flatMap_cons, length_append, ih]
    simp only [u16Bytes, u32Bytes, length_append, length_cons, length_nil]
    omega

/-- The octets of a frame are a header and the payload it announces, which the parser turns
back into the frame. -/
theorem Frame.Writable.layout (hf : f.Writable) :
    ∃ typ fl id payload, f.encode = FrameWriter.header payload.length typ fl id ++ payload ∧
      id < 2 ^ 31 ∧ payload.length ≤ defaultMaxFrameSize ∧
      typ = f.typ ∧ id = f.streamId ∧
      ∀ hlen, parserOf f ⟨typ, fl, id, payload, hlen⟩ = .ok f := by
  cases f with
  | data id endStream octs =>
    obtain ⟨⟨hpos, hid⟩, hlen⟩ := hf
    refine ⟨_, _, id, octs, rfl, hid, hlen, rfl, rfl, fun h => ?_⟩
    exact parseData_written endStream hpos
  | headers id endStream endHeaders p block =>
    obtain ⟨⟨hpos, hid⟩, hp, hlen⟩ := hf
    have hlength : ((p.map priorityFields).getD [] ++ block).length =
        block.length + if p.isSome then 5 else 0 := by
      cases p with
      | none => simp
      | some p =>
        simp only [map_some, getD_some, priorityFields, u32Bytes,
          length_append, length_cons, length_nil, isSome_some, if_true]
        omega
    refine ⟨headersType, FrameWriter.flags endStream endHeaders p.isSome, id,
      (p.map priorityFields).getD [] ++ block, ?_, hid, hlength ▸ hlen, rfl, rfl, fun h => ?_⟩
    · rw [Frame.encode, writeHeaders, append_assoc, hlength]
    · exact parseHeaders_written endStream endHeaders hpos hp rfl
  | priority id p =>
    obtain ⟨⟨hpos, hid⟩, hp⟩ := hf
    refine ⟨_, _, id, priorityFields p, rfl, hid, Nat.le_of_ble_eq_true rfl, rfl, rfl,
      fun h => ?_⟩
    have hread := readPriority_written hp []
    rw [append_nil] at hread
    show parsePriority _ = _
    simp only [parsePriority, requireStream_of_pos hpos, hread]
    rfl
  | reset id errorCode =>
    obtain ⟨⟨hpos, hid⟩, hcode⟩ := hf
    refine ⟨_, _, id, u32Bytes errorCode, rfl, hid, Nat.le_of_ble_eq_true rfl, rfl, rfl,
      fun h => ?_⟩
    have hread := readU32_u32Bytes hcode []
    rw [append_nil] at hread
    show parseReset _ = _
    simp only [parseReset, requireStream_of_pos hpos, hread]
    rfl
  | settings ack parameters =>
    obtain ⟨hvalid, hlen, hack⟩ := hf
    cases ack with
    | true =>
      refine ⟨_, _, 0, [], rfl, by omega, by decide, rfl, rfl, fun h => ?_⟩
      simp only [parserOf, parseSettings, RawFrame.ack, hack, isEmpty_nil,
        Bool.not_true, Bool.and_false, Bool.false_eq_true, if_false, ne_eq, not_true_eq_false,
        length_nil, Nat.zero_mod]
      rfl
    | false =>
      refine ⟨settingsType, 0, 0, _, ?_, by omega, (length_settings parameters).symm ▸ hlen,
        rfl, rfl, fun h => ?_⟩
      · rw [Frame.encode, if_neg (by simp), writeSettings, length_settings]
      · have hread := readSettings_written parameters hvalid
        show parseSettings _ = _
        simp only [parseSettings, RawFrame.ack, ne_eq, not_true_eq_false, if_false,
          length_settings, Nat.mul_mod_left, hread, ok_bind]
        rfl
  | pushPromise id endHeaders promised block =>
    obtain ⟨⟨hpos, hid⟩, rfl, ⟨hpromised, hlt⟩, hlen⟩ := hf
    have hlength : (u32Bytes promised ++ block).length = 4 + block.length := by
      simp [u32Bytes]; omega
    refine ⟨pushPromiseType, 0x04, id, u32Bytes promised ++ block, ?_, hid, hlength ▸ hlen,
      rfl, rfl, fun h => ?_⟩
    · rw [Frame.encode, writePushPromise, append_assoc, Nat.mod_eq_of_lt hlt, hlength]
    · have hread := readU32_u32Bytes (show promised < 2 ^ 32 by omega) block
      have hdrop : (u32Bytes promised ++ block).drop 4 = block := rfl
      have hpadded : ((0x04 : UInt8) &&& 0x08 != 0) = false := by decide
      have hend : ((0x04 : UInt8) &&& 0x04 != 0) = true := by decide
      show parsePushPromise _ = _
      simp only [parsePushPromise, requireStream_of_pos hpos, ok_bind, takePadding,
        padded, hpadded, RawFrame.endHeaders, hend, Bool.not_false, if_true, hlength,
        Nat.mod_eq_of_lt hlt, hread, hdrop,
        payloadSlice_drop, if_neg (show ¬ 4 + block.length < 4 by omega),
        if_neg (show ¬ promised = 0 by omega)]
      rfl
  | ping ack payload =>
    refine ⟨pingType, if ack then 0x01 else 0, 0, payload, ?_, by omega,
      (show payload.length = 8 from hf).le.trans (by decide), rfl, rfl, fun h => ?_⟩
    · rw [Frame.encode, writePing, show payload.length = 8 from hf]
    · have hlen : payload.length = 8 := hf
      show parsePing _ = _
      have hack : ((if ack then 0x01 else 0 : UInt8) &&& 0x01 != 0) = ack := by
        cases ack <;> decide
      simp [parsePing, hlen, RawFrame.ack, hack]
  | goAway last errorCode debug =>
    obtain ⟨hlast, hcode, hlen⟩ := hf
    have hlength : (u32Bytes last ++ (u32Bytes errorCode ++ debug)).length = 8 + debug.length := by
      simp [u32Bytes]; omega
    refine ⟨goawayType, 0, 0, u32Bytes last ++ (u32Bytes errorCode ++ debug), ?_, by omega,
      hlength ▸ hlen, rfl, rfl, fun h => ?_⟩
    · rw [Frame.encode, writeGoaway, append_assoc, append_assoc,
        Nat.mod_eq_of_lt hlast, hlength]
    · have hread := readU32_u32Bytes (show last < 2 ^ 32 by omega) (u32Bytes errorCode ++ debug)
      have hread' := readU32_u32Bytes hcode debug
      have hdrop : (u32Bytes last ++ (u32Bytes errorCode ++ debug)).drop 4 =
          u32Bytes errorCode ++ debug := rfl
      have hdrop' : (u32Bytes last ++ (u32Bytes errorCode ++ debug)).drop 8 = debug := rfl
      show parseGoaway _ = _
      simp only [parseGoaway, ne_eq, not_true_eq_false, if_false, hlength,
        if_neg (show ¬ 8 + debug.length < 8 by omega), hread, hdrop, hdrop', hread',
        Nat.mod_eq_of_lt hlast]
  | windowUpdate id increment =>
    obtain ⟨hid, hpos, hlt⟩ := hf
    refine ⟨_, _, id, u32Bytes (increment % 2 ^ 31), rfl, hid, Nat.le_of_ble_eq_true rfl,
      rfl, rfl, fun h => ?_⟩
    have hread := readU32_u32Bytes (show increment < 2 ^ 32 by omega) []
    rw [append_nil] at hread
    show parseWindowUpdate _ = _
    simp only [parseWindowUpdate, Nat.mod_eq_of_lt hlt, hread, if_neg (Nat.ne_of_gt hpos)]
    rfl
  | continuation id endHeaders block =>
    obtain ⟨⟨hpos, hid⟩, hlen⟩ := hf
    refine ⟨_, _, id, block, rfl, hid, hlen, rfl, rfl, fun h => ?_⟩
    show Except.ok (Frame.continuation id (RawFrame.endHeaders _) block) = _
    rw [RawFrame.endHeaders, flags_endHeaders]
  | unknown typ flags id payload => exact hf.elim

/-! ### Sequences of frames -/

/-- Every frame respects the field block that is open when it comes. -/
def Disciplined : Option ℕ → List Frame → Prop
  | _, [] => True
  | bs, f :: frames => f.blockError bs = none ∧ Disciplined (f.nextBlockStream bs) frames

theorem Disciplined.append {frames frames' : List Frame} : ∀ {bs bs' : Option ℕ},
    Disciplined bs frames → frames.foldl Frame.nextBlockStream bs = bs' →
    Disciplined bs' frames' → Disciplined bs (frames ++ frames') := by
  induction frames with
  | nil =>
    rintro bs bs' - rfl h'
    exact h'
  | cons f frames ih => exact fun h heq h' => ⟨h.1, ih h.2 heq h'⟩

namespace FrameDecoder

theorem adopt_ge {limit : ℕ} (hf : f.Writable) (h : defaultMaxFrameSize ≤ limit) :
    defaultMaxFrameSize ≤ adopt limit f := by
  cases f with
  | settings ack parameters =>
    cases ack with
    | true => exact h
    | false =>
      obtain ⟨hvalid, -, -⟩ := hf
      induction parameters generalizing limit with
      | nil => exact h
      | cons s parameters ih =>
        refine ih ?_ fun s' hs' => hvalid s' (by simp [hs'])
        show _ ≤ if s.id = 5 then s.value else limit
        split_ifs with hid
        · have hok := (hvalid s (by simp)).2.2
          simp only [validateSetting, hid] at hok
          by_contra hlt
          simp [show s.value < defaultMaxFrameSize by omega] at hok
        · exact h
  | _ => exact h

/-- What is buffered begins the frames that are still to come. -/
def Expects (d : FrameDecoder) (buf : Octets) (todo : List Frame) : Prop :=
  d.buf = buf ∧ defaultMaxFrameSize ≤ d.maxFrameSize ∧ (∀ f ∈ todo, f.Writable) ∧
    Disciplined d.blockStream todo

theorem lt_of_le_default {n : ℕ} (h : n ≤ defaultMaxFrameSize) : n < 2 ^ 24 :=
  h.trans_lt (by decide)

theorem encode_ne_nil (hf : f.Writable) : f.encode ≠ [] := by
  obtain ⟨typ, fl, id, payload, hencode, -⟩ := hf.layout
  rw [hencode]
  exact cons_ne_nil _ _

theorem keeps : puller.Keeps Frame.encode Expects where
  extend := by
    rintro d buf todo piece ⟨rfl, hmax, hall, hdisc⟩
    exact ⟨rfl, hmax, hall, hdisc⟩
  yield := by
    rintro d rest f todo ⟨hbuf, hmax, hall, hblock, hdisc⟩
    have hf := hall f (by simp)
    obtain ⟨typ, fl, id, payload, hencode, hid, hlen, htyp, hstream, hparse⟩ := hf.layout
    rw [hencode] at hbuf
    refine ⟨_, nextFrame_complete hbuf (lt_of_le_default hlen) (hlen.trans hmax) hid
      ((parseFrame_of_blockError htyp hstream hf hblock).trans (hparse _)), rfl,
      adopt_ge hf hmax, fun g hg => hall g (by simp [hg]), hdisc⟩
  wait := by
    rintro d buf todo ⟨rfl, hmax, hall, hdisc⟩ ⟨hfront, hshort⟩
    refine ⟨d, ?_, rfl, hmax, hall, hdisc⟩
    cases todo with
    | nil =>
      have hnil : d.buf = [] := by simpa using hfront
      show d.nextFrame = _
      rw [nextFrame, hnil]
      exact if_pos (by decide)
    | cons f todo =>
      obtain ⟨typ, fl, id, payload, hencode, hid, hlen, -⟩ := (hall f (by simp)).layout
      rw [flatMap_cons, hencode] at hfront
      have hless := hshort f todo rfl
      rw [hencode] at hless
      exact nextFrame_partial hfront hless (lt_of_le_default hlen) (hlen.trans hmax)
  code_ne_nil := by
    rintro d buf f todo ⟨-, -, hall, -⟩
    exact encode_ne_nil (hall f (by simp))

/-- Frames that keep to the rule of field blocks are read back, whatever the pieces. -/
theorem feed_encode {limit : ℕ} (hlimit : defaultMaxFrameSize ≤ limit) {frames : List Frame}
    (hall : ∀ f ∈ frames, f.Writable) (hdisc : Disciplined none frames) {pieces : List Octets}
    (hpieces : pieces.flatten = frames.flatMap Frame.encode) :
    ∃ d, (new limit).feed pieces = .ok (d, frames) ∧ d.buf = [] := by
  have hstart : Expects (new limit) [] frames := ⟨rfl, hlimit, hall, hdisc⟩
  obtain ⟨d, hd, hfeed⟩ := keeps.feed_all (fun h => by rw [← h.1]; exact Nat.lt_succ_self _) hstart
    (fun f hf => encode_ne_nil (hall f hf)) hpieces
  exact ⟨d, hfeed, hd.1⟩

end FrameDecoder

/-! ### Field blocks -/

/-- The field blocks of a sequence of frames, each put together from its fragments. -/
def fieldBlocks : Option (ℕ × Octets) → List Frame → List (ℕ × Octets)
  | _, [] => []
  | _, .headers id _ endHeaders _ block :: frames =>
    if endHeaders then (id, block) :: fieldBlocks none frames
    else fieldBlocks (some (id, block)) frames
  | some (id, soFar), .continuation _ endHeaders block :: frames =>
    if endHeaders then (id, soFar ++ block) :: fieldBlocks none frames
    else fieldBlocks (some (id, soFar ++ block)) frames
  | open?, _ :: frames => fieldBlocks open? frames

/-- Frames that carry the rest of a field block open on a stream, and close it. -/
structure Completes (id : ℕ) (frames : List Frame) (rest : Octets) : Prop where
  writable : ∀ f ∈ frames, f.Writable
  disciplined : Disciplined (some id) frames
  closed : frames.foldl Frame.nextBlockStream (some id) = none
  block : ∀ soFar later, fieldBlocks (some (id, soFar)) (frames ++ later) =
    (id, soFar ++ rest) :: fieldBlocks none later

namespace Completes

variable {id : ℕ} (hid : 0 < id ∧ id < 2 ^ 31)

include hid

theorem last {rest : Octets} (h : rest.length ≤ defaultMaxFrameSize) :
    Completes id [.continuation id true rest] rest where
  writable f hf := by
    obtain rfl := mem_singleton.1 hf
    exact ⟨hid, h⟩
  disciplined := ⟨by simp [Frame.blockError], trivial⟩
  closed := rfl
  block _ _ := rfl

theorem cons {frames : List Frame} {fragment rest : Octets}
    (h : fragment.length ≤ defaultMaxFrameSize) (hrest : Completes id frames rest) :
    Completes id (.continuation id false fragment :: frames) (fragment ++ rest) where
  writable f hf := by
    rcases mem_cons.1 hf with rfl | hf
    · exact ⟨hid, h⟩
    · exact hrest.writable f hf
  disciplined := ⟨by simp [Frame.blockError], hrest.disciplined⟩
  closed := hrest.closed
  block soFar later := by
    refine (hrest.block (soFar ++ fragment) later).trans ?_
    rw [append_assoc]

/-- The fuel of the CONTINUATION loop suffices: every round takes at least one octet. -/
theorem writeContinuations {capacity : ℕ} (hcap : 1 ≤ capacity)
    (hle : capacity ≤ defaultMaxFrameSize)
    (fuel : ℕ) (rest : Octets) (hrest : rest.length ≤ fuel + capacity) :
    Completes id (writeContinuations capacity id fuel rest) rest := by
  induction fuel generalizing rest with
  | zero => exact last hid (by omega)
  | succ fuel ih =>
    rw [H2.writeContinuations]
    split_ifs with hlong
    · have htail := ih (rest.drop capacity) (by rw [length_drop]; omega)
      have hhead : (rest.take capacity).length ≤ defaultMaxFrameSize :=
        (length_take_le _ _).trans hle
      have h := htail.cons hid hhead
      rwa [take_append_drop] at h
    · exact last hid (by omega)

theorem middle {tail : Octets} (htail : tail.length ≤ defaultMaxFrameSize) {middle : List Octets}
    (h : ∀ fragment ∈ middle, fragment.length ≤ defaultMaxFrameSize) :
    Completes id (middle.map (.continuation id false) ++ [.continuation id true tail])
      (middle.flatten ++ tail) := by
  induction middle with
  | nil => exact last hid htail
  | cons fragment middle ih =>
    rw [flatten_cons, append_assoc]
    exact cons hid (h fragment (by simp)) (ih fun f hf => h f (by simp [hf]))

end Completes

/-- What is asked of the frame writer: one frame, a HEADERS frame with CONTINUATION frames of
the caller's choice, or a field block of any length. -/
inductive Output where
  | frame (f : Frame)
  | fragments (streamId : ℕ) (endStream : Bool) (priority : Option Priority) (first : Octets)
      (middle : List Octets) (last : Octets)
  | fieldBlock (maxFrameSize streamId : ℕ) (endStream : Bool) (block : Octets)

namespace Output

def octets : Output → Octets
  | frame f => f.encode
  | fragments id endStream p first middle last =>
    writeHeaders id endStream false p first ++
      middle.flatMap (writeContinuation id false) ++
      writeContinuation id true last
  | fieldBlock maxFrameSize id endStream block =>
    FrameWriter.writeFieldBlock maxFrameSize id endStream block

def frames : Output → List Frame
  | frame f => [f]
  | fragments id endStream p first middle last =>
    .headers id endStream false p first :: middle.map (.continuation id false) ++
      [.continuation id true last]
  | fieldBlock maxFrameSize id endStream block => writeFieldBlock maxFrameSize id endStream block

def blocks : Output → List (ℕ × Octets)
  | frame (.headers id _ _ _ block) => [(id, block)]
  | frame _ => []
  | fragments id _ _ first middle last => [(id, first ++ middle.flatten ++ last)]
  | fieldBlock _ id _ block => [(id, block)]

/-- A frame alone opens no field block and continues none. -/
def Valid : Output → Prop
  | frame f => f.Writable ∧
    match f with
    | .headers _ _ endHeaders _ _ => endHeaders = true
    | .continuation .. => False
    | _ => True
  | fragments id endStream p first middle last =>
    (Frame.headers id endStream false p first).Writable ∧
    (∀ block ∈ middle, block.length ≤ defaultMaxFrameSize) ∧ last.length ≤ defaultMaxFrameSize
  | fieldBlock maxFrameSize id _ _ => (1 ≤ maxFrameSize ∧ maxFrameSize ≤ defaultMaxFrameSize) ∧
    0 < id ∧ id < 2 ^ 31

theorem octets_eq (o : Output) : o.octets = o.frames.flatMap Frame.encode := by
  cases o with
  | frame f => simp [octets, frames]
  | fragments id endStream p first middle last =>
    simp [octets, frames, Frame.encode, flatMap_map]
  | fieldBlock maxFrameSize id endStream block => exact FrameWriter.writeFieldBlock_eq ..

/-- Valid frames that open and close their field blocks, which are the given ones. -/
structure Whole (frames : List Frame) (blocks : List (ℕ × Octets)) : Prop where
  writable : ∀ f ∈ frames, f.Writable
  disciplined : Disciplined none frames
  closed : frames.foldl Frame.nextBlockStream none = none
  blocks : ∀ later, fieldBlocks none (frames ++ later) = blocks ++ fieldBlocks none later

theorem Whole.opened {id : ℕ} {endStream : Bool} {p : Option Priority} {first rest : Octets}
    {frames : List Frame} (hfirst : (Frame.headers id endStream false p first).Writable)
    (h : Completes id frames rest) :
    Whole (.headers id endStream false p first :: frames) [(id, first ++ rest)] where
  writable f hf := by
    rcases mem_cons.1 hf with rfl | hf
    · exact hfirst
    · exact h.writable f hf
  disciplined := ⟨rfl, h.disciplined⟩
  closed := h.closed
  blocks later := h.block first later

theorem Whole.single {blocks : List (ℕ × Octets)} (hf : f.Writable)
    (hblock : f.blockError none = none) (hnext : f.nextBlockStream none = none)
    (hblocks : ∀ later, fieldBlocks none (f :: later) = blocks ++ fieldBlocks none later) :
    Whole [f] blocks where
  writable g hg := by
    obtain rfl := mem_singleton.1 hg
    exact hf
  disciplined := ⟨hblock, trivial⟩
  closed := hnext
  blocks := hblocks

theorem Whole.append {frames frames' : List Frame} {blocks blocks' : List (ℕ × Octets)}
    (h : Whole frames blocks) (h' : Whole frames' blocks') :
    Whole (frames ++ frames') (blocks ++ blocks') where
  writable f hf := (mem_append.1 hf).elim (h.writable f) (h'.writable f)
  disciplined := h.disciplined.append h.closed h'.disciplined
  closed := by rw [foldl_append, h.closed, h'.closed]
  blocks later := by rw [append_assoc, h.blocks, h'.blocks, append_assoc]

theorem Valid.whole {o : Output} (h : o.Valid) : Whole o.frames o.blocks := by
  cases o with
  | frame f =>
    obtain ⟨hf, hclosed⟩ := h
    cases f with
    | headers id endStream endHeaders p block =>
      obtain rfl : endHeaders = true := hclosed
      exact .single hf rfl rfl fun later => rfl
    | continuation id endHeaders block => exact hclosed.elim
    | pushPromise id endHeaders promised block =>
      obtain rfl : endHeaders = true := hf.2.1
      exact .single hf rfl rfl fun later => rfl
    | _ => exact .single hf rfl rfl fun later => rfl
  | fragments id endStream p first middle last =>
    obtain ⟨hfirst, hmiddle, hlast⟩ := h
    have h := Whole.opened hfirst (Completes.middle hfirst.1 hlast hmiddle)
    rwa [← append_assoc] at h
  | fieldBlock maxFrameSize id endStream block =>
    obtain ⟨⟨hcap, hle⟩, hid⟩ := h
    simp only [frames, writeFieldBlock]
    split_ifs with hfits
    · exact .single ⟨hid, by simp, by simpa using hfits.trans hle⟩ rfl rfl fun later => rfl
    have htail := Completes.writeContinuations hid hcap hle block.length (block.drop maxFrameSize)
      (by rw [length_drop]; omega)
    have hfirst : (Frame.headers id endStream false none (block.take maxFrameSize)).Writable :=
      ⟨hid, by simp, by simpa using (Nat.min_le_left _ _).trans hle⟩
    have h := Whole.opened hfirst htail
    rwa [take_append_drop] at h

theorem whole_flatMap {outputs : List Output} (h : ∀ o ∈ outputs, o.Valid) :
    Whole (outputs.flatMap frames) (outputs.flatMap blocks) := by
  induction outputs with
  | nil => exact ⟨by simp, trivial, rfl, fun later => rfl⟩
  | cons o outputs ih =>
    exact (h o (by simp)).whole.append (ih fun o' ho' => h o' (by simp [ho']))

end Output

namespace FrameDecoder

/-- Whatever the frame writer is asked for, the decoder yields exactly those frames, in any
pieces, and the fragments of every field block make up the block. -/
theorem feed_written {limit : ℕ} (hlimit : defaultMaxFrameSize ≤ limit) {outputs : List Output}
    (hvalid : ∀ o ∈ outputs, o.Valid) {pieces : List Octets}
    (hpieces : pieces.flatten = outputs.flatMap Output.octets) :
    (∃ d, (new limit).feed pieces = .ok (d, outputs.flatMap Output.frames) ∧ d.buf = []) ∧
      fieldBlocks none (outputs.flatMap Output.frames) = outputs.flatMap Output.blocks := by
  have h := Output.whole_flatMap hvalid
  refine ⟨feed_encode hlimit h.writable h.disciplined ?_, ?_⟩
  · rw [hpieces, flatMap_assoc]
    exact congrArg (outputs.flatMap ·) (funext Output.octets_eq)
  · simpa [fieldBlocks] using h.blocks []

/-- Seven octets of a field block in frames of three, between a PING and a HEADERS frame with
priority. -/
def sampleOutputs : List Output :=
  [.frame (.ping false (replicate 8 0)), .fieldBlock 3 1 true [1, 2, 3, 4, 5, 6, 7],
    .frame (.headers 3 false true (some ⟨true, 1, 16⟩) [8])]

theorem valid_sampleOutputs : ∀ o ∈ sampleOutputs, o.Valid := by
  intro o ho
  simp only [sampleOutputs, mem_cons, not_mem_nil, or_false] at ho
  rcases ho with rfl | rfl | rfl
  · exact ⟨rfl, trivial⟩
  · exact ⟨by decide, by decide⟩
  · exact ⟨⟨by decide, by simp [Priority.Valid], by decide⟩, rfl⟩

theorem feed_written_single_octets :
    (∃ d, (new defaultMaxFrameSize).feed ((sampleOutputs.flatMap Output.octets).map fun o => [o]) =
        .ok (d, sampleOutputs.flatMap Output.frames) ∧ d.buf = []) ∧
      fieldBlocks none (sampleOutputs.flatMap Output.frames) =
        [(1, [1, 2, 3, 4, 5, 6, 7]), (3, [8])] := by
  have hpieces : ((sampleOutputs.flatMap Output.octets).map fun o => [o]).flatten =
      sampleOutputs.flatMap Output.octets := by
    rw [← flatMap_def, flatMap_singleton']
  exact feed_written le_rfl valid_sampleOutputs hpieces

end FrameDecoder

end ZincioHttp.H2
