import ZincioHttp.H2.Codec
import ZincioHttp.Lib.Pull

/-! The frame decoder over a growing buffer. The 9-octet header tells the length of the
payload, which is checked against the limit as soon as the header is there. A SETTINGS
frame of the peer changes that limit. -/

namespace ZincioHttp.H2

open Lib

/-- `FRAME_HEADER_LEN`. -/
def frameHeaderLen : ℕ := 9

def readU24 (bytes : Octets) : ℕ := (bytes.take 3).foldl (fun n b => n * 256 + b.toNat) 0

theorem readU24_lt (bytes : Octets) : readU24 bytes < 2 ^ 24 := by
  have hfold : ∀ (l : Octets) (n : ℕ),
      l.foldl (fun n b => n * 256 + b.toNat) n < (n + 1) * 256 ^ l.length := by
    intro l
    induction l with
    | nil => simp
    | cons b l ih =>
      intro n
      have hb := b.toNat_lt
      calc (b :: l).foldl (fun n b => n * 256 + b.toNat) n
          < (n * 256 + b.toNat + 1) * 256 ^ l.length := ih _
        _ ≤ ((n + 1) * 256) * 256 ^ l.length := Nat.mul_le_mul_right _ (by omega)
        _ = (n + 1) * 256 ^ (b :: l).length := by rw [List.length_cons]; ring
  calc readU24 bytes < (0 + 1) * 256 ^ (bytes.take 3).length := hfold _ 0
    _ ≤ 1 * 256 ^ 3 := Nat.mul_le_mul_left _ (Nat.pow_le_pow_right (by omega) (by simp))
    _ = 2 ^ 24 := by norm_num

structure FrameDecoder where
  buf : Octets
  maxFrameSize : ℕ
  /-- The stream whose field block is open. -/
  blockStream : Option ℕ

namespace FrameDecoder

def new (maxFrameSize : ℕ) : FrameDecoder := ⟨[], maxFrameSize, none⟩

def extend (d : FrameDecoder) (bytes : Octets) : FrameDecoder := { d with buf := d.buf ++ bytes }

/-- The frame at the front of the buffer. The reserved bit of the stream identifier is
ignored. -/
def front (buf : Octets) : RawFrame where
  typ := buf.getD 3 0
  flags := buf.getD 4 0
  streamId := readU32 (buf.drop 5) % 2 ^ 31
  payload := (buf.drop frameHeaderLen).take (readU24 buf)
  length_lt := lt_of_le_of_lt (List.length_take_le _ _) (readU24_lt buf)

/-- The limit after a frame: the peer's SETTINGS_MAX_FRAME_SIZE is adopted at once. -/
def adopt (maxFrameSize : ℕ) : Frame → ℕ
  | .settings false settings =>
    settings.foldl (fun size s => if s.id = 0x05 then s.value else size) maxFrameSize
  | _ => maxFrameSize

/-- The next complete frame; `none` when more octets are needed. -/
def nextFrame (d : FrameDecoder) : Except H2Error (FrameDecoder × Option Frame) :=
  if d.buf.length < frameHeaderLen then .ok (d, none)
  else if readU24 d.buf > d.maxFrameSize then
    .error (.frameSize "frame payload exceeds SETTINGS_MAX_FRAME_SIZE")
  else if d.buf.length < frameHeaderLen + readU24 d.buf then .ok (d, none)
  else
    match (front d.buf).parseFrame d.blockStream with
    | .error err => .error err
    | .ok f =>
      .ok ({ buf := d.buf.drop (frameHeaderLen + readU24 d.buf)
             maxFrameSize := adopt d.maxFrameSize f
             blockStream := f.nextBlockStream d.blockStream }, some f)

variable {d : FrameDecoder}

/-- A header that declares too much is refused, whatever follows it. -/
theorem nextFrame_large (hheader : frameHeaderLen ≤ d.buf.length)
    (hlarge : d.maxFrameSize < readU24 d.buf) :
    d.nextFrame = .error (.frameSize "frame payload exceeds SETTINGS_MAX_FRAME_SIZE") := by
  rw [nextFrame, if_neg (not_lt.2 hheader)]
  exact if_pos hlarge

/-- The decoder waits for no more than a frame of its limit. -/
theorem nextFrame_none {d' : FrameDecoder} (h : d.nextFrame = .ok (d', none)) :
    d.buf.length < frameHeaderLen + d.maxFrameSize := by
  rw [nextFrame] at h
  by_cases hshort : d.buf.length < frameHeaderLen
  · exact hshort.trans_le (Nat.le_add_right _ _)
  rw [if_neg hshort] at h
  split at h
  · cases h
  by_cases hpart : d.buf.length < frameHeaderLen + readU24 d.buf
  · omega
  · rw [if_neg hpart] at h
    split at h <;> cases h

/-- A frame that is yielded is within the limit, which it may change. -/
theorem nextFrame_some {d' : FrameDecoder} {f : Frame} (h : d.nextFrame = .ok (d', some f)) :
    readU24 d.buf ≤ d.maxFrameSize ∧ d'.maxFrameSize = adopt d.maxFrameSize f := by
  rw [nextFrame] at h
  split at h
  · cases h
  split at h
  · cases h
  rename_i hlarge
  split_ifs at h with hpart
  · cases h
  split at h
  · cases h
  · cases h
    exact ⟨not_lt.1 hlarge, rfl⟩

def puller : Puller Frame UInt8 FrameDecoder H2Error := ⟨extend, nextFrame⟩

/-- The frames of a stream that arrives in pieces. Every frame takes octets, so that the
length of the buffer is often enough to ask. -/
def feed (d : FrameDecoder) (pieces : List Octets) : Except H2Error (FrameDecoder × List Frame) :=
  puller.feed (fun d => d.buf.length + 1) d pieces

/-! ### Pieces of a stream -/

section Pieces
open List

variable {buf : Octets}

theorem readU24_append (h : 3 ≤ buf.length) (x : Octets) : readU24 (buf ++ x) = readU24 buf := by
  rw [readU24, take_append_of_le_length h, readU24]

theorem front_append (h : frameHeaderLen + readU24 buf ≤ buf.length) (x : Octets) :
    front (buf ++ x) = front buf := by
  rw [frameHeaderLen] at h
  simp (disch := first | omega | (rw [length_drop]; omega)) only [front, frameHeaderLen, readU32,
    readU24_append, getD_append, drop_append_of_le_length, take_append_of_le_length]

theorem steady : puller.Steady fun d => d.buf.length where
  extend d x y := by simp [puller, FrameDecoder.extend]
  next d x := by
    have hwait : d.nextFrame = .ok (d, none) → (d.extend x).nextFrame = _ :=
      fun h => (congrArg (· >>= puller.afterwards x) h).symm
    by_cases hheader : d.buf.length < frameHeaderLen
    · exact hwait (if_pos hheader)
    have hread := readU24_append (by rw [frameHeaderLen] at hheader; omega : 3 ≤ d.buf.length) x
    by_cases hpart : d.buf.length < frameHeaderLen + readU24 d.buf ∧ readU24 d.buf ≤ d.maxFrameSize
    · exact hwait (by rw [nextFrame, if_neg hheader, if_neg (not_lt.2 hpart.2), if_pos hpart.1])
    simp only [puller, nextFrame, FrameDecoder.extend, hread, length_append]
    rw [if_neg (by omega), if_neg hheader]
    by_cases hlarge : readU24 d.buf > d.maxFrameSize
    · rw [if_pos hlarge, if_pos hlarge]
      rfl
    have hwhole : frameHeaderLen + readU24 d.buf ≤ d.buf.length := by omega
    rw [if_neg hlarge, if_neg hlarge, if_neg (by omega), if_neg (not_lt.2 hwhole),
      front_append hwhole, drop_append_of_le_length hwhole]
    cases (front d.buf).parseFrame d.blockStream <;> rfl
  size_extend d x := length_append
  size_next {d d' f} h := by
    simp only [puller, nextFrame] at h
    split_ifs at h
    · cases h
      exact le_rfl
    · cases h
      exact le_rfl
    · split at h <;> cases h
      simp only [frameHeaderLen, length_drop, Option.isSome_some, Bool.toNat_true] at *
      omega

/-- Whatever the peer sends, the frames and the error do not depend on how it is cut. -/
theorem feed_chunked (d : FrameDecoder) (piece : Octets) (pieces : List Octets) :
    d.feed (piece :: pieces) = d.feed [piece ++ pieces.flatten] :=
  steady.feed_flatten pieces d piece

end Pieces

end FrameDecoder

end ZincioHttp.H2
