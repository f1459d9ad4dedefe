import ZincioHttp.Basic

/-! HTTP/3 frames: a type, a length and a payload, the first two written as
variable-length integers. The decoder owns a buffer, skips frames of unknown
type and hands out a known one as soon as it is complete; what it will not accept
it refuses from the header, before the payload is buffered. -/

namespace ZincioHttp.H3

open List

inductive FrameError where
  | frame
  | unexpected (ty : ℕ)
  | settings
  | excessiveLoad
  deriving DecidableEq, Repr

/-! ### Variable-length integers -/

/-- `MIN_VARINT`: the least value that needs the width `1 <<< i`. -/
def minVarint : ℕ → ℕ
  | 0 => 0
  | 1 => 2 ^ 6
  | 2 => 2 ^ 14
  | _ => 2 ^ 30

/-- The value of a variable-length integer and the number of octets it takes;
`none` while it is incomplete, an error when it is longer than need be. -/
def parseVarint (buf : Octets) : Except FrameError (Option (ℕ × ℕ)) :=
  match buf with
  | [] => .ok none
  | first :: _ =>
    let len := 1 <<< (first >>> 6).toNat
    if buf.length < len then .ok none
    else
      let value := ((buf.take len).drop 1).foldl (fun v b => v <<< 8 ||| b.toNat)
        (first &&& 0x3f).toNat
      if len > 1 ∧ value < minVarint (first >>> 6).toNat then .error .frame
      else .ok (some (value, len))

/-- An integer takes at least one octet, and no more than there are. -/
theorem parseVarint_len {buf : Octets} {value n : ℕ} (h : parseVarint buf = .ok (some (value, n))) :
    1 ≤ n ∧ n ≤ buf.length := by
  cases buf with
  | nil => cases h
  | cons first rest =>
    rw [parseVarint] at h
    by_cases hlen : (first :: rest).length < 1 <<< (first >>> 6).toNat
    · rw [if_pos hlen] at h
      cases h
    dsimp only at h
    split_ifs at h
    cases h
    exact ⟨Nat.one_le_two_pow.trans_eq (Nat.one_shiftLeft _).symm, Nat.le_of_not_lt hlen⟩

/-- More octets do not change an integer that is complete, nor one that is
refused. -/
theorem parseVarint_append {buf : Octets} (h : parseVarint buf ≠ .ok none) (more : Octets) :
    parseVarint (buf ++ more) = parseVarint buf := by
  cases buf with
  | nil => exact absurd rfl h
  | cons first rest =>
    have hlen : ¬ (first :: rest).length < 1 <<< (first >>> 6).toNat := by
      intro hlt
      exact h (by rw [parseVarint, if_pos hlt])
    have htake : (first :: rest ++ more).take _ = _ :=
      take_append_of_le_length (Nat.le_of_not_lt hlen)
    rw [cons_append] at htake ⊢
    rw [parseVarint, parseVarint, if_neg hlen, htake, if_neg]
    rw [← cons_append, length_append]
    omega

theorem parseVarint_of_append {buf more : Octets} {value n : ℕ}
    (h : parseVarint (buf ++ more) = .ok (some (value, n))) (hn : n ≤ buf.length) :
    parseVarint buf = .ok (some (value, n)) := by
  by_cases hnone : parseVarint buf = .ok none
  · exfalso
    cases buf with
    | nil =>
      have := (parseVarint_len h).1
      simp only [length_nil] at hn
      omega
    | cons first rest =>
      have hlt : (first :: rest).length < 1 <<< (first >>> 6).toNat := by
        by_contra hge
        rw [parseVarint] at hnone
        dsimp only at hnone
        split_ifs at hnone
        cases hnone
      rw [cons_append, parseVarint] at h
      split_ifs at h with hlen
      · cases h
      dsimp only at h
      split_ifs at h
      cases h
      omega
  · rw [← h, parseVarint_append hnone]

/-- The last `n` octets of a value, most significant first. -/
def bigEndian : ℕ → ℕ → Octets
  | 0, _ => []
  | n + 1, value => UInt8.ofNat (value >>> (8 * n)) :: bigEndian n value

def writeVarint (value : ℕ) : Octets :=
  if value < 2 ^ 6 then bigEndian 1 value
  else if value < 2 ^ 14 then bigEndian 2 (0b01 <<< 14 ||| value)
  else if value < 2 ^ 30 then bigEndian 4 (0b10 <<< 30 ||| value)
  else bigEndian 8 (0b11 <<< 62 ||| value)

/-! ### Frames -/

def frameData : ℕ := 0x0
def frameHeaders : ℕ := 0x1
def frameCancelPush : ℕ := 0x3
def frameSettings : ℕ := 0x4
def framePushPromise : ℕ := 0x5
def frameGoaway : ℕ := 0x7
def frameMaxPushId : ℕ := 0xd

/-- `MAX_SETTINGS_ENTRIES`. -/
def maxSettingsEntries : ℕ := 32

/-- `MAX_SETTINGS_PAYLOAD`. -/
def maxSettingsPayload : ℕ := 4096

/-- `MAX_FRAME_PAYLOAD`. -/
def maxFramePayload : ℕ := 16777215

/-- Identifiers and values in wire order. -/
structure Settings where
  entries : List (ℕ × ℕ)
  deriving DecidableEq, Repr

/-- The value of the first parameter with the identifier. -/
def Settings.get (s : Settings) (id : ℕ) : Option ℕ := s.entries.lookup id

def Settings.insert (s : Settings) (id value : ℕ) : Settings := ⟨s.entries ++ [(id, value)]⟩

inductive Frame where
  | data (payload : Octets)
  | headers (block : Octets)
  | settings (settings : Settings)
  | cancelPush (pushId : ℕ)
  | pushPromise (pushId : ℕ) (fieldSection : Octets)
  | goaway (id : ℕ)
  | maxPushId (pushId : ℕ)
  deriving DecidableEq, Repr

def encodeFrame (ty : ℕ) (payload : Octets) : Octets :=
  writeVarint ty ++ writeVarint payload.length ++ payload

def Frame.encode : Frame → Octets
  | data payload => encodeFrame frameData payload
  | headers block => encodeFrame frameHeaders block
  | settings s =>
    encodeFrame frameSettings (s.entries.flatMap fun e => writeVarint e.1 ++ writeVarint e.2)
  | cancelPush pushId => encodeFrame frameCancelPush (writeVarint pushId)
  | pushPromise pushId fieldSection =>
    encodeFrame framePushPromise (writeVarint pushId ++ fieldSection)
  | goaway id => encodeFrame frameGoaway (writeVarint id)
  | maxPushId pushId => encodeFrame frameMaxPushId (writeVarint pushId)

def isKnownFrameType (ty : ℕ) : Bool :=
  ty ∈ [frameData, frameHeaders, frameCancelPush, frameSettings, framePushPromise, frameGoaway,
    frameMaxPushId]

def isGrease (v : ℕ) : Bool := decide (v ≥ 0x21) && (v - 0x21) % 0x1f == 0

def isReservedSetting (id : ℕ) : Bool := decide (0x02 ≤ id) && decide (id ≤ 0x05)

/-- A payload that is one integer and nothing else. -/
def takeVarint (buf : Octets) : Except FrameError ℕ :=
  match parseVarint buf with
  | .error e => .error e
  | .ok none => .error .frame
  | .ok (some (value, n)) => if n ≠ buf.length then .error .frame else .ok value

/-- One identifier and its value from the front of a SETTINGS payload. -/
def parseSetting (rest : Octets) : Except FrameError (ℕ × ℕ × Octets) :=
  match parseVarint rest with
  | .error e => .error e
  | .ok none => .error .frame
  | .ok (some (id, idLen)) =>
    match parseVarint (rest.drop idLen) with
    | .error e => .error e
    | .ok none => .error .frame
    | .ok (some (value, valueLen)) => .ok (id, value, (rest.drop idLen).drop valueLen)

/-- The loop of `parse_settings`; the length of the payload is enough fuel, since
every round reads an identifier. -/
def parseSettingsLoop : ℕ → Octets → Settings → ℕ → List ℕ → Except FrameError Settings
  | _, [], settings, _, _ => .ok settings
  | 0, _ :: _, _, _, _ => .error .frame
  | fuel + 1, rest, settings, count, grease =>
    match parseSetting rest with
    | .error e => .error e
    | .ok (id, value, rest) =>
      if count + 1 > maxSettingsEntries then .error .settings
      else if isReservedSetting id then .error .settings
      else if (settings.get id).isSome || decide (id ∈ grease) then .error .settings
      else if isGrease id then parseSettingsLoop fuel rest settings (count + 1) (grease ++ [id])
      else parseSettingsLoop fuel rest (settings.insert id value) (count + 1) grease

def parseSettings (payload : Octets) : Except FrameError Settings :=
  if payload.length > maxSettingsPayload then .error .settings
  else parseSettingsLoop payload.length payload ⟨[]⟩ 0 []

/-! ### The decoder -/

/-- The type, the length of the header and the length of the payload. -/
structure FrameHeader where
  ty : ℕ
  headerLen : ℕ
  len : ℕ

/-- What is refused on sight of the header. -/
def checkHeader (maxFieldSection : Option ℕ) (h : FrameHeader) : Except FrameError Unit :=
  if h.ty = frameSettings ∧ h.len > maxSettingsPayload then .error .settings
  else if h.len > maxFramePayload then .error .excessiveLoad
  else if (h.ty = frameHeaders ∨ h.ty = framePushPromise) ∧
      maxFieldSection.any (fun max => decide (h.len > max)) then .error .excessiveLoad
  else if (h.ty = frameCancelPush ∨ h.ty = frameGoaway ∨ h.ty = frameMaxPushId) ∧ h.len > 8 then
    .error .frame
  else .ok ()

/-- The header of the next frame, once it is complete. The integers are read with
`parse_varint_at`. -/
def readHeader (parseVarintAt : ℕ → Except FrameError (Option (ℕ × ℕ)))
    (maxFieldSection : Option ℕ) : Except FrameError (Option FrameHeader) :=
  match parseVarintAt 0 with
  | .error e => .error e
  | .ok none => .ok none
  | .ok (some (ty, typeLen)) =>
    -- HTTP/2 frame types that HTTP/3 does not have
    if ty ∈ [0x02, 0x06, 0x08, 0x09] then .error (.unexpected ty)
    else
      match parseVarintAt typeLen with
      | .error e => .error e
      | .ok none => .ok none
      | .ok (some (len, lenLen)) =>
        let header : FrameHeader := ⟨ty, typeLen + lenLen, len⟩
        match checkHeader maxFieldSection header with
        | .error e => .error e
        | .ok () => .ok (some header)

/-- The chunks received and not yet consumed, as one buffer. -/
structure FrameDecoder where
  buf : Octets
  maxFieldSection : Option ℕ

namespace FrameDecoder

def new : FrameDecoder := ⟨[], none⟩

def withMaxFieldSection (max : Option ℕ) : FrameDecoder := ⟨[], max⟩

def extend (d : FrameDecoder) (data : Octets) : FrameDecoder := { d with buf := d.buf ++ data }

def buffered (d : FrameDecoder) : ℕ := d.buf.length

def parseVarintAt (d : FrameDecoder) (offset : ℕ) : Except FrameError (Option (ℕ × ℕ)) :=
  parseVarint (d.buf.drop offset)

def peekFrameType (d : FrameDecoder) : Option ℕ :=
  match d.parseVarintAt 0 with
  | .ok (some (ty, _)) => some ty
  | _ => none

theorem readHeader_len {d : FrameDecoder} {h : FrameHeader}
    (hh : readHeader d.parseVarintAt d.maxFieldSection = .ok (some h)) : 1 ≤ h.headerLen := by
  rw [readHeader] at hh
  split at hh
  · cases hh
  · cases hh
  · next ty typeLen htype =>
    split_ifs at hh
    split at hh
    · cases hh
    · cases hh
    · next len lenLen hlen =>
      dsimp only at hh
      split at hh
      · cases hh
      · cases hh
        have := (parseVarint_len htype).1
        dsimp only
        omega

/-- The frame of a known type with the given payload. -/
def readPayload (ty : ℕ) (payload : Octets) : Except FrameError Frame :=
  if ty = frameData then .ok (.data payload)
  else if ty = frameHeaders then .ok (.headers payload)
  else if ty = frameCancelPush then (takeVarint payload).map .cancelPush
  else if ty = frameSettings then (parseSettings payload).map .settings
  else if ty = framePushPromise then
    match parseVarint payload with
    | .error e => .error e
    | .ok none => .error .frame
    | .ok (some (pushId, idLen)) => .ok (.pushPromise pushId (payload.drop idLen))
  else if ty = frameGoaway then (takeVarint payload).map .goaway
  else (takeVarint payload).map .maxPushId

/-- The loop that skips frames of unknown type. -/
def nextFrameLoop : ℕ → FrameDecoder → Except FrameError (FrameDecoder × Option Frame)
  | 0, d => .ok (d, none)
  | fuel + 1, d =>
    match readHeader d.parseVarintAt d.maxFieldSection with
    | .error e => .error e
    | .ok none => .ok (d, none)
    | .ok (some h) =>
      let total := h.headerLen + h.len
      if total > d.buf.length then .ok (d, none)
      else
        let rest : FrameDecoder := { d with buf := d.buf.drop total }
        if isKnownFrameType h.ty then
          (readPayload h.ty ((d.buf.drop h.headerLen).take h.len)).map fun frame =>
            (rest, some frame)
        else nextFrameLoop fuel rest

/-- Pops the next complete frame. A frame takes at least one octet, so the octets
buffered are enough fuel to skip with. -/
def nextFrame (d : FrameDecoder) : Except FrameError (FrameDecoder × Option Frame) :=
  nextFrameLoop (d.buf.length + 1) d

theorem nextFrameLoop_buffered (fuel : ℕ) : ∀ {d d' : FrameDecoder} {frame : Option Frame},
    nextFrameLoop fuel d = .ok (d', frame) → d'.buffered + frame.isSome.toNat ≤ d.buffered := by
  induction fuel with
  | zero =>
    intro d d' frame h
    cases h
    exact Nat.le_refl _
  | succ fuel ih =>
    intro d d' frame h
    rw [nextFrameLoop] at h
    split at h
    · cases h
    · cases h
      exact Nat.le_refl _
    · next header hheader =>
      have hpos := readHeader_len hheader
      dsimp only at h
      split_ifs at h
      · cases h
        exact Nat.le_refl _
      · cases hpayload : readPayload header.ty ((d.buf.drop header.headerLen).take header.len) with
        | error err => rw [hpayload] at h; cases h
        | ok f =>
          rw [hpayload] at h
          cases h
          simp only [buffered, length_drop, Option.isSome_some, Bool.toNat_true]
          omega
      · have hrest := ih h
        simp only [buffered, length_drop] at hrest ⊢
        omega

theorem nextFrame_buffered {d d' : FrameDecoder} {frame : Option Frame}
    (h : d.nextFrame = .ok (d', frame)) : d'.buffered + frame.isSome.toNat ≤ d.buffered :=
  nextFrameLoop_buffered _ h

end FrameDecoder

end ZincioHttp.H3
