import ZincioHttp.H2.Frame

/-! The frame parser: what follows the 9-octet header of a frame becomes a `Frame`, or
an error. Padding is checked and stripped here, so that the connection does not see
it. -/

namespace ZincioHttp.H2

open List Except

def H2Error.frameSize (message : String) : H2Error := ⟨.frameSizeError, message⟩

/-- A frame as `next_frame` cuts it out of the buffer. The length field has 24 bits. -/
structure RawFrame where
  typ : UInt8
  flags : UInt8
  streamId : ℕ
  payload : Octets
  length_lt : payload.length < 2 ^ 24

namespace RawFrame

def dataType : UInt8 := 0x00
def headersType : UInt8 := 0x01
def priorityType : UInt8 := 0x02
def rstStreamType : UInt8 := 0x03
def settingsType : UInt8 := 0x04
def pushPromiseType : UInt8 := 0x05
def pingType : UInt8 := 0x06
def goawayType : UInt8 := 0x07
def windowUpdateType : UInt8 := 0x08
def continuationType : UInt8 := 0x09

def endStream (raw : RawFrame) : Bool := raw.flags &&& 0x01 != 0
def ack (raw : RawFrame) : Bool := raw.flags &&& 0x01 != 0
def endHeaders (raw : RawFrame) : Bool := raw.flags &&& 0x04 != 0
def padded (raw : RawFrame) : Bool := raw.flags &&& 0x08 != 0
def prioritized (raw : RawFrame) : Bool := raw.flags &&& 0x20 != 0

/-- What counts against flow control: the whole payload of a DATA frame. -/
def flowControlled (raw : RawFrame) : ℕ := if raw.typ = dataType then raw.payload.length else 0

end RawFrame

/-- `read_u32`. -/
def readU32 (bytes : Octets) : ℕ := (bytes.take 4).foldl (fun n b => n * 256 + b.toNat) 0

def readU16 (bytes : Octets) : ℕ := (bytes.take 2).foldl (fun n b => n * 256 + b.toNat) 0

def requireStream (streamId : ℕ) : Except H2Error Unit :=
  if streamId = 0 then .error (.protocol "frame must use a non-zero stream identifier") else .ok ()

/-- The length of the padding and what is left of the payload. -/
def takePadding (body : Octets) (padded : Bool) : Except H2Error (ℕ × Octets) :=
  if !padded then .ok (0, body)
  else
    match body with
    | [] => .error (.frameSize "PADDED frame payload too short for pad length")
    | padLen :: _ =>
      if padLen.toNat ≥ body.length then
        .error (.protocol "padding length is the length of the frame payload or greater")
      else .ok (padLen.toNat, (body.take (body.length - padLen.toNat)).drop 1)

/-- The part of the payload that lies before the padding and is as long as `body`. -/
def payloadSlice (payload body : Octets) (padLen : ℕ) : Octets :=
  (payload.drop (payload.length - padLen - body.length)).take body.length

def readPriority (body : Octets) (streamId : ℕ) : Except H2Error (Priority × Octets) :=
  if body.length < 5 then .error (.frameSize "frame payload too short for priority fields")
  else
    let dependency := readU32 body % 2 ^ 31
    if dependency = streamId then
      .error (.protocol "stream priority depends on its own stream identifier")
    else
      .ok (⟨body.getD 0 0 &&& 0x80 != 0, dependency, body.getD 4 0⟩, body.drop 5)

def validateSetting (s : Setting) : Except H2Error Unit :=
  if s.id = 0x02 then
    if s.value > 1 then .error (.protocol "SETTINGS_ENABLE_PUSH must be 0 or 1") else .ok ()
  else if s.id = 0x04 then
    if s.value > maxWindow then
      .error ⟨.flowControlError, "SETTINGS_INITIAL_WINDOW_SIZE exceeds 2^31-1"⟩
    else .ok ()
  else if s.id = 0x05 then
    if s.value < defaultMaxFrameSize ∨ s.value > maxFrameSizeLimit then
      .error (.protocol "SETTINGS_MAX_FRAME_SIZE outside 16384..16777215")
    else .ok ()
  else .ok ()

/-- The loop over the parameters of a SETTINGS frame, six octets each. -/
def readSettings : Octets → Except H2Error (List Setting)
  | a :: b :: c :: d :: e :: f :: body => do
    let s : Setting := ⟨readU16 [a, b], readU32 [c, d, e, f]⟩
    validateSetting s
    let settings ← readSettings body
    return s :: settings
  | _ => .ok []

namespace RawFrame

def checkBlock (raw : RawFrame) (blockStream : Option ℕ) : Except H2Error Unit :=
  match blockStream with
  | some openStream =>
    if raw.typ ≠ continuationType then
      .error (.protocol "frame received while field block was open")
    else if raw.streamId ≠ openStream then
      .error (.protocol "CONTINUATION frame on a different stream than the open field block")
    else .ok ()
  | none =>
    if raw.typ = continuationType then
      .error (.protocol "CONTINUATION frame without a preceding HEADERS or PUSH_PROMISE")
    else .ok ()

def parseData (raw : RawFrame) : Except H2Error Frame := do
  requireStream raw.streamId
  let (padLen, body) ← takePadding raw.payload raw.padded
  return .data raw.streamId raw.endStream (payloadSlice raw.payload body padLen)

def parseHeaders (raw : RawFrame) : Except H2Error Frame := do
  requireStream raw.streamId
  let (padLen, body) ← takePadding raw.payload raw.padded
  if raw.prioritized then
    let (priority, body) ← readPriority body raw.streamId
    return .headers raw.streamId raw.endStream raw.endHeaders (some priority)
      (payloadSlice raw.payload body padLen)
  else
    return .headers raw.streamId raw.endStream raw.endHeaders none
      (payloadSlice raw.payload body padLen)

def parsePriority (raw : RawFrame) : Except H2Error Frame := do
  requireStream raw.streamId
  if raw.payload.length ≠ 5 then
    .error (.frameSize "PRIORITY frame payload must be exactly 5 octets")
  else
    let (priority, _) ← readPriority raw.payload raw.streamId
    return .priority raw.streamId priority

def parseReset (raw : RawFrame) : Except H2Error Frame := do
  requireStream raw.streamId
  if raw.payload.length ≠ 4 then
    .error (.frameSize "RST_STREAM frame payload must be exactly 4 octets")
  else return .reset raw.streamId (readU32 raw.payload)

def parseSettings (raw : RawFrame) : Except H2Error Frame :=
  if raw.streamId ≠ 0 then .error (.protocol "SETTINGS frame must use stream identifier 0")
  else if raw.ack && !raw.payload.isEmpty then
    .error (.frameSize "SETTINGS frame with ACK flag must have an empty payload")
  else if raw.payload.length % 6 ≠ 0 then
    .error (.frameSize "SETTINGS frame payload must be a multiple of 6 octets")
  else do
    let settings ← readSettings raw.payload
    return .settings raw.ack settings

def parsePushPromise (raw : RawFrame) : Except H2Error Frame := do
  requireStream raw.streamId
  let (padLen, body) ← takePadding raw.payload raw.padded
  if body.length < 4 then
    .error (.frameSize "PUSH_PROMISE frame payload must be at least 4 octets")
  else if readU32 body % 2 ^ 31 = 0 then
    .error (.protocol "PUSH_PROMISE promised stream identifier is 0")
  else
    return .pushPromise raw.streamId raw.endHeaders (readU32 body % 2 ^ 31)
      (payloadSlice raw.payload (body.drop 4) padLen)

def parsePing (raw : RawFrame) : Except H2Error Frame :=
  if raw.streamId ≠ 0 then .error (.protocol "PING frame must use stream identifier 0")
  else if raw.payload.length ≠ 8 then
    .error (.frameSize "PING frame payload must be exactly 8 octets")
  else .ok (.ping raw.ack raw.payload)

def parseGoaway (raw : RawFrame) : Except H2Error Frame :=
  if raw.streamId ≠ 0 then .error (.protocol "GOAWAY frame must use stream identifier 0")
  else if raw.payload.length < 8 then
    .error (.frameSize "GOAWAY frame payload must be at least 8 octets")
  else
    .ok (.goAway (readU32 raw.payload % 2 ^ 31) (readU32 (raw.payload.drop 4)) (raw.payload.drop 8))

def parseWindowUpdate (raw : RawFrame) : Except H2Error Frame :=
  if raw.payload.length ≠ 4 then
    .error (.frameSize "WINDOW_UPDATE frame payload must be exactly 4 octets")
  else if readU32 raw.payload % 2 ^ 31 = 0 then
    .error (.protocol "WINDOW_UPDATE frame with zero increment")
  else .ok (.windowUpdate raw.streamId (readU32 raw.payload % 2 ^ 31))

/-- `parse_frame`; the decoder's open block afterwards is `Frame.nextBlockStream`. -/
def parseFrame (raw : RawFrame) (blockStream : Option ℕ) : Except H2Error Frame := do
  raw.checkBlock blockStream
  if raw.typ = dataType then raw.parseData
  else if raw.typ = headersType then raw.parseHeaders
  else if raw.typ = priorityType then raw.parsePriority
  else if raw.typ = rstStreamType then raw.parseReset
  else if raw.typ = settingsType then raw.parseSettings
  else if raw.typ = pushPromiseType then raw.parsePushPromise
  else if raw.typ = pingType then raw.parsePing
  else if raw.typ = goawayType then raw.parseGoaway
  else if raw.typ = windowUpdateType then raw.parseWindowUpdate
  else if raw.typ = continuationType then
    return .continuation raw.streamId raw.endHeaders raw.payload
  else return .unknown raw.typ raw.flags raw.streamId raw.payload

end RawFrame

def Frame.typ : Frame → UInt8
  | .data .. => RawFrame.dataType
  | .headers .. => RawFrame.headersType
  | .priority .. => RawFrame.priorityType
  | .reset .. => RawFrame.rstStreamType
  | .settings .. => RawFrame.settingsType
  | .pushPromise .. => RawFrame.pushPromiseType
  | .ping .. => RawFrame.pingType
  | .goAway .. => RawFrame.goawayType
  | .windowUpdate .. => RawFrame.windowUpdateType
  | .continuation .. => RawFrame.continuationType
  | .unknown typ _ _ _ => typ

/-! ### Padding -/

theorem payloadSlice_append (before body after : Octets) :
    payloadSlice (before ++ body ++ after) body after.length = body := by
  have hstart : (before ++ body ++ after).length - after.length - body.length = before.length := by
    rw [length_append, length_append]
    omega
  rw [payloadSlice, hstart, append_assoc, drop_left, take_left]

theorem payloadSlice_self (payload : Octets) : payloadSlice payload payload 0 = payload := by
  have h := payloadSlice_append [] payload []
  rwa [nil_append, append_nil, length_nil] at h

/-- Padding lies behind the data and its length before it. -/
theorem takePadding_eq_ok {payload body : Octets} {padLen : ℕ}
    (h : takePadding payload true = .ok (padLen, body)) :
    ∃ first after, payload = [first] ++ body ++ after ∧ after.length = padLen := by
  cases payload with
  | nil => cases h
  | cons first rest =>
    rw [takePadding] at h
    simp only [Bool.not_true, Bool.false_eq_true, if_false] at h
    split_ifs at h with hshort
    obtain ⟨hlen, hbody⟩ := Prod.mk.inj (ok.inj h)
    have hle : first.toNat ≤ rest.length := by
      rw [length_cons] at hshort
      omega
    have htake : body = rest.take (rest.length - first.toNat) := by
      rw [← hbody, length_cons, Nat.succ_sub hle, take_succ_cons, drop_succ_cons, drop_zero]
    refine ⟨first, rest.drop (rest.length - first.toNat), ?_, ?_⟩
    · rw [htake, append_assoc, take_append_drop]
      rfl
    · rw [length_drop]
      omega

theorem requireStream_eq_ok {streamId : ℕ} (h : requireStream streamId = .ok ()) :
    streamId ≠ 0 := by
  intro hzero
  rw [requireStream, if_pos hzero] at h
  cases h

namespace RawFrame

variable {raw : RawFrame} {blockStream : Option ℕ} {f : Frame}

/-- What a DATA frame hands to the connection: all of the payload but the padding and
its length. -/
theorem parseData_eq_ok (h : raw.parseData = .ok f) :
    ∃ octs, f = .data raw.streamId raw.endStream octs ∧ raw.streamId ≠ 0 ∧
      octs.length ≤ raw.payload.length ∧
      (octs.length = raw.payload.length ↔ raw.padded = false) := by
  obtain ⟨u, hstream, h⟩ := bind_eq_ok.1 h
  obtain ⟨⟨padLen, body⟩, hpad, h⟩ := bind_eq_ok.1 h
  have hzero := requireStream_eq_ok hstream
  cases ok.inj h
  refine ⟨_, rfl, hzero, ?_⟩
  cases hpadded : raw.padded with
  | false =>
    rw [hpadded] at hpad
    cases ok.inj hpad
    rw [payloadSlice_self]
    simp
  | true =>
    rw [hpadded] at hpad
    obtain ⟨first, after, hpayload, rfl⟩ := takePadding_eq_ok hpad
    rw [hpayload, payloadSlice_append]
    simp only [length_append, length_singleton]
    refine ⟨by omega, ?_⟩
    simp only [Bool.true_eq_false, iff_false]
    omega

/-- The parser of each type gives a frame of this type. -/
theorem typ_of_parse (h : raw.parseFrame blockStream = .ok f) : f.typ = raw.typ := by
  obtain ⟨-, -, h⟩ := bind_eq_ok.1 h
  split_ifs at h with hdata hheaders hpriority hreset hsettings hpush hping hgoaway hwindow hcont
  · obtain ⟨octs, rfl, -⟩ := parseData_eq_ok h
    exact hdata.symm
  · obtain ⟨_, -, h⟩ := bind_eq_ok.1 h
    obtain ⟨_, -, h⟩ := bind_eq_ok.1 h
    split_ifs at h
    · obtain ⟨_, -, h⟩ := bind_eq_ok.1 h
      cases ok.inj h
      exact hheaders.symm
    · cases ok.inj h
      exact hheaders.symm
  · obtain ⟨_, -, h⟩ := bind_eq_ok.1 h
    split_ifs at h
    obtain ⟨_, -, h⟩ := bind_eq_ok.1 h
    cases ok.inj h
    exact hpriority.symm
  · obtain ⟨_, -, h⟩ := bind_eq_ok.1 h
    split_ifs at h
    cases ok.inj h
    exact hreset.symm
  · rw [parseSettings] at h
    split_ifs at h
    obtain ⟨_, -, h⟩ := bind_eq_ok.1 h
    cases ok.inj h
    exact hsettings.symm
  · obtain ⟨_, -, h⟩ := bind_eq_ok.1 h
    obtain ⟨⟨padLen, body⟩, -, h⟩ := bind_eq_ok.1 h
    simp only at h
    split_ifs at h
    cases ok.inj h
    exact hpush.symm
  · rw [parsePing] at h
    split_ifs at h
    cases ok.inj h
    exact hping.symm
  · rw [parseGoaway] at h
    split_ifs at h
    cases ok.inj h
    exact hgoaway.symm
  · rw [parseWindowUpdate] at h
    split_ifs at h
    cases ok.inj h
    exact hwindow.symm
  · cases ok.inj h
    exact hcont.symm
  · cases ok.inj h
    rfl

theorem parseFrame_eq_ok (h : raw.parseFrame blockStream = .ok f) :
    raw.checkBlock blockStream = .ok () ∧ f.typ = raw.typ ∧
      (raw.typ = dataType → raw.parseData = .ok f) := by
  have htype := typ_of_parse h
  obtain ⟨⟨⟩, hblock, h⟩ := bind_eq_ok.1 h
  exact ⟨hblock, htype, fun htyp => by rwa [if_pos htyp] at h⟩

theorem readSettings_valid {settings : List Setting} (body : Octets) :
    readSettings body = .ok settings → ∀ s ∈ settings, validateSetting s = .ok () := by
  induction body using readSettings.induct generalizing settings with
  | case1 a b c d e f body ih =>
    intro h
    obtain ⟨⟨⟩, hvalid, h⟩ := bind_eq_ok.1 h
    obtain ⟨rest, hrest, h⟩ := bind_eq_ok.1 h
    obtain rfl := ok.inj h
    intro s' hs'
    rcases List.mem_cons.1 hs' with rfl | hs'
    · exact hvalid
    · exact ih hrest s' hs'
  | case2 body hshort =>
    intro h
    rw [readSettings] at h
    · obtain rfl := ok.inj h
      exact fun s hs => absurd hs not_mem_nil
    · exact hshort

/-- The settings of a frame that the parser accepts are within their ranges. -/
theorem parseFrame_settings {ack : Bool} {settings : List Setting}
    (h : raw.parseFrame blockStream = .ok (.settings ack settings)) :
    ∀ s ∈ settings, validateSetting s = .ok () := by
  have htyp : raw.typ = settingsType := (parseFrame_eq_ok h).2.1.symm
  obtain ⟨⟨⟩, -, h⟩ := bind_eq_ok.1 h
  rw [htyp, if_neg (by decide), if_neg (by decide), if_neg (by decide), if_neg (by decide),
    if_pos rfl, parseSettings] at h
  split_ifs at h
  obtain ⟨settings', hread, h⟩ := bind_eq_ok.1 h
  cases ok.inj h
  exact readSettings_valid _ hread

end RawFrame

end ZincioHttp.H2
