import ZincioHttp.H3.Frame
import ZincioHttp.Lib.Pull

/-! The frames of an HTTP/3 stream do not depend on the pieces in which it arrives. The
decoder keeps the pieces as they came and joins them where a frame needs it; it refines the
decoder with one buffer. -/

namespace ZincioHttp.H3

open Lib List

namespace FrameDecoder

variable {d : FrameDecoder}

def puller : Puller Frame UInt8 FrameDecoder FrameError := ⟨extend, nextFrame⟩

theorem parseVarintAt_extend {offset : ℕ} (hle : offset ≤ d.buf.length)
    (h : d.parseVarintAt offset ≠ .ok none) (x : Octets) :
    (d.extend x).parseVarintAt offset = d.parseVarintAt offset := by
  rw [parseVarintAt, extend, drop_append_of_le_length hle]
  exact parseVarint_append h x

theorem readHeader_extend (h : readHeader d.parseVarintAt d.maxFieldSection ≠ .ok none)
    (x : Octets) : readHeader (d.extend x).parseVarintAt (d.extend x).maxFieldSection =
      readHeader d.parseVarintAt d.maxFieldSection := by
  rw [readHeader] at h
  rw [readHeader, readHeader, parseVarintAt_extend (Nat.zero_le _) fun hty => h (by rw [hty])]
  split
  · rfl
  · rfl
  · next ty typeLen hty =>
    simp only [hty] at h
    split_ifs at h ⊢
    · rfl
    · rw [parseVarintAt_extend (parseVarint_len hty).2 fun hlen => h (by simp only [hlen])]
      rfl

theorem nextFrameLoop_fuel (n : ℕ) : ∀ {m : ℕ} {d : FrameDecoder}, d.buf.length < n →
    d.buf.length < m → nextFrameLoop n d = nextFrameLoop m d := by
  induction n with
  | zero => exact fun hn => by cases hn
  | succ n ih =>
    intro m d hn hm
    obtain ⟨m, rfl⟩ : ∃ k, m = k + 1 := ⟨m - 1, by omega⟩
    rw [nextFrameLoop, nextFrameLoop]
    split
    · rfl
    · rfl
    · next h hh =>
      have hpos := readHeader_len hh
      dsimp only
      split_ifs
      · rfl
      · rfl
      · exact ih (by simp; omega) (by simp; omega)

theorem nextFrame_extend (x : Octets) (n : ℕ) : ∀ {d : FrameDecoder}, d.buf.length < n →
    (d.extend x).nextFrame = nextFrameLoop n d >>= puller.afterwards x := by
  induction n with
  | zero => exact fun hn => by cases hn
  | succ n ih =>
    intro d hn
    rw [nextFrameLoop]
    by_cases hnone : readHeader d.parseVarintAt d.maxFieldSection = .ok none
    · rw [hnone]
      rfl
    have hextend := readHeader_extend hnone x
    cases hh : readHeader d.parseVarintAt d.maxFieldSection with
    | error e =>
      rw [nextFrame, nextFrameLoop, hextend, hh]
      rfl
    | ok r =>
      obtain _ | h := r
      · exact absurd hh hnone
      dsimp only
      by_cases hpart : h.headerLen + h.len > d.buf.length
      · rw [if_pos hpart]
        rfl
      have hpos := readHeader_len hh
      have hbuf : (d.extend x).buf = d.buf ++ x := rfl
      rw [nextFrame, nextFrameLoop, hextend, hh, if_neg hpart]
      simp only [hbuf, length_append]
      rw [if_neg (by omega), drop_append_of_le_length (by omega),
        drop_append_of_le_length (by omega), take_append_of_le_length (by rw [length_drop]; omega)]
      split_ifs
      · cases readPayload h.ty ((d.buf.drop h.headerLen).take h.len) <;> rfl
      · rw [← ih (by simp; omega)]
        exact nextFrameLoop_fuel _ (by simp; omega) (Nat.lt_succ_self _)

theorem steady : puller.Steady fun d => d.buf.length where
  extend d x y := by simp [puller, FrameDecoder.extend]
  next d x := nextFrame_extend x _ (Nat.lt_succ_self d.buf.length)
  size_extend d x := length_append
  size_next h := nextFrame_buffered h

end FrameDecoder

/-! ### The chunks -/

/-- The octet at an offset from the first chunk on. -/
def byteAt : List Octets → ℕ → Option UInt8
  | [], _ => none
  | buf :: bufs, remaining =>
    if remaining < buf.length then buf[remaining]? else byteAt bufs (remaining - buf.length)

/-- The loop of `take_bytes` for a payload in more than one chunk, which is that of `advance`
but for `out`. -/
def coalesce : List Octets → ℕ → Octets → Octets × List Octets
  | [], _, out => (out, [])
  | front :: bufs, remaining, out =>
    if remaining = 0 then (out, front :: bufs)
    else if front.length ≤ remaining then coalesce bufs (remaining - front.length) (out ++ front)
    else (out ++ front.take remaining, front.drop remaining :: bufs)

/-- What `take_bytes` returns, and the chunks it leaves. -/
def splitBufs (bufs : List Octets) (n : ℕ) : Octets × List Octets :=
  if n = 0 then ([], bufs)
  else
    match bufs with
    | [] => coalesce [] n []
    | front :: rest =>
      if front.length = n then (front, rest)
      else if front.length > n then (front.take n, front.drop n :: rest)
      else coalesce (front :: rest) n []

theorem byteAt_eq (bufs : List Octets) : ∀ offset, byteAt bufs offset = bufs.flatten[offset]? := by
  induction bufs with
  | nil => exact fun _ => rfl
  | cons buf bufs ih =>
    intro offset
    rw [byteAt, flatten_cons]
    split_ifs with hlt
    · rw [getElem?_append_left hlt]
    · rw [ih, getElem?_append_right (Nat.le_of_not_lt hlt)]

theorem coalesce_eq (bufs : List Octets) : ∀ n out, (coalesce bufs n out).1 =
      out ++ bufs.flatten.take n ∧ (coalesce bufs n out).2.flatten = bufs.flatten.drop n := by
  induction bufs with
  | nil => exact fun n out => ⟨by simp [coalesce], by simp [coalesce]⟩
  | cons front bufs ih =>
    intro n out
    rw [coalesce, flatten_cons]
    split_ifs with hzero hle
    · simp [hzero]
    · obtain ⟨hout, hrest⟩ := ih (n - front.length) (out ++ front)
      rw [hout, hrest, take_append, drop_append, take_of_length_le hle, drop_eq_nil_of_le hle]
      simp
    · have hlt := Nat.le_of_not_le hle
      rw [take_append_of_le_length hlt, drop_append_of_le_length hlt]
      exact ⟨rfl, rfl⟩

theorem splitBufs_eq (bufs : List Octets) (n : ℕ) : (splitBufs bufs n).1 = bufs.flatten.take n ∧
    (splitBufs bufs n).2.flatten = bufs.flatten.drop n := by
  unfold splitBufs
  split_ifs with hzero
  · simp [hzero]
  cases bufs with
  | nil => exact coalesce_eq [] n []
  | cons front rest =>
    simp only [flatten_cons]
    split_ifs with heq hgt
    · rw [take_append_of_le_length heq.ge, drop_append_of_le_length heq.ge, ← heq]
      simp
    · rw [take_append_of_le_length hgt.le, drop_append_of_le_length hgt.le]
      exact ⟨rfl, rfl⟩
    · exact coalesce_eq (front :: rest) n []

/-- `FrameDecoder` with its chunks; `len` is the number of octets in them. -/
structure ChunkedDecoder where
  bufs : List Octets
  len : ℕ
  maxFieldSection : Option ℕ
  len_eq : len = bufs.flatten.length

namespace ChunkedDecoder

def extend (d : ChunkedDecoder) (data : Octets) : ChunkedDecoder :=
  if data.isEmpty then d
  else { d with
    bufs := d.bufs ++ [data]
    len := d.len + data.length
    len_eq := by simp [d.len_eq] }

def parseVarintAt (d : ChunkedDecoder) (offset : ℕ) : Except FrameError (Option (ℕ × ℕ)) :=
  if offset ≥ d.len then .ok none
  else
    let first := (byteAt d.bufs offset).getD 0
    let len := 1 <<< (first >>> 6).toNat
    if d.len < offset + len then .ok none
    else
      let value := (range' 1 (len - 1)).foldl
        (fun value i => value <<< 8 ||| ((byteAt d.bufs (offset + i)).getD 0).toNat)
        (first &&& 0x3f).toNat
      if len > 1 ∧ value < minVarint (first >>> 6).toNat then .error .frame
      else .ok (some (value, len))

def advance (d : ChunkedDecoder) (n : ℕ) : ChunkedDecoder :=
  { d with
    bufs := (coalesce d.bufs n []).2
    len := d.len - n
    len_eq := by rw [(coalesce_eq d.bufs n []).2, length_drop, d.len_eq] }

def takeBytes (d : ChunkedDecoder) (n : ℕ) : ChunkedDecoder × Octets :=
  ({ d with
    bufs := (splitBufs d.bufs n).2
    len := d.len - n
    len_eq := by rw [(splitBufs_eq d.bufs n).2, length_drop, d.len_eq] }, (splitBufs d.bufs n).1)

def nextFrameLoop : ℕ → ChunkedDecoder → Except FrameError (ChunkedDecoder × Option Frame)
  | 0, d => .ok (d, none)
  | fuel + 1, d =>
    match readHeader d.parseVarintAt d.maxFieldSection with
    | .error e => .error e
    | .ok none => .ok (d, none)
    | .ok (some h) =>
      let total := h.headerLen + h.len
      if total > d.len then .ok (d, none)
      else if isKnownFrameType h.ty then
        let (rest, payload) := (d.advance h.headerLen).takeBytes h.len
        (FrameDecoder.readPayload h.ty payload).map fun frame => (rest, some frame)
      else nextFrameLoop fuel (d.advance total)

def nextFrame (d : ChunkedDecoder) : Except FrameError (ChunkedDecoder × Option Frame) :=
  nextFrameLoop (d.len + 1) d

def puller : Puller Frame UInt8 ChunkedDecoder FrameError := ⟨extend, nextFrame⟩

/-- The frames of a stream that arrives in pieces. -/
def feed (d : ChunkedDecoder) (pieces : List Octets) :
    Except FrameError (ChunkedDecoder × List Frame) := puller.feed (fun d => d.len + 1) d pieces

/-- The chunks joined. -/
def joined (d : ChunkedDecoder) : FrameDecoder := ⟨d.bufs.flatten, d.maxFieldSection⟩

theorem extend_joined (d : ChunkedDecoder) (data : Octets) :
    (d.extend data).joined = d.joined.extend data := by
  rw [extend]
  split_ifs with hnil
  · rw [isEmpty_iff.1 hnil, FrameDecoder.extend, append_nil]
  · simp [joined, FrameDecoder.extend]

theorem advance_joined (d : ChunkedDecoder) (n : ℕ) :
    (d.advance n).joined = ⟨d.joined.buf.drop n, d.maxFieldSection⟩ := by
  simp [advance, joined, coalesce_eq]

theorem takeBytes_joined (d : ChunkedDecoder) (n : ℕ) : (d.takeBytes n).2 = d.joined.buf.take n ∧
    (d.takeBytes n).1.joined = ⟨d.joined.buf.drop n, d.maxFieldSection⟩ := by
  simp [takeBytes, joined, splitBufs_eq]

/-- The octets after the first of an integer, one by one. -/
theorem map_range'_getD (l : Octets) {len : ℕ} (h : len ≤ l.length) :
    (range' 1 (len - 1)).map (fun i => l[i]?.getD 0) = (l.take len).drop 1 := by
  refine ext_getElem (by simp [h]) fun i hi hi' => ?_
  have hlt : i + 1 < l.length := by
    simp only [length_map, length_range'] at hi
    omega
  simp [Nat.add_comm 1 i, getElem?_eq_getElem hlt]

theorem parseVarintAt_joined (d : ChunkedDecoder) :
    d.parseVarintAt = d.joined.parseVarintAt := by
  funext offset
  have hlen := d.len_eq
  rw [parseVarintAt, FrameDecoder.parseVarintAt]
  show _ = parseVarint (d.bufs.flatten.drop offset)
  by_cases hend : offset ≥ d.len
  · rw [if_pos hend, drop_eq_nil_of_le (by omega)]
    rfl
  simp only [if_neg hend, byteAt_eq, ← getElem?_drop]
  have hfirst : d.bufs.flatten[offset]? = (d.bufs.flatten.drop offset)[0]? := by
    rw [getElem?_drop, Nat.add_zero]
  have hrest : (d.bufs.flatten.drop offset).length = d.len - offset := by
    rw [length_drop, hlen]
  rw [hfirst]
  generalize d.bufs.flatten.drop offset = l at hrest ⊢
  cases l with
  | nil => exact absurd hrest (by simp; omega)
  | cons first rest =>
    rw [parseVarint]
    dsimp only [getElem?_cons_zero, Option.getD_some]
    by_cases hshort : (first :: rest).length < 1 <<< (first >>> 6).toNat
    · rw [if_pos hshort, if_pos (by omega)]
    · rw [if_neg hshort, if_neg (by omega), ← map_range'_getD _ (Nat.le_of_not_lt hshort),
        foldl_map]

theorem nextFrameLoop_joined (fuel : ℕ) : ∀ d : ChunkedDecoder,
    (nextFrameLoop fuel d).map (Prod.map joined id) = d.joined.nextFrameLoop fuel := by
  induction fuel with
  | zero => exact fun _ => rfl
  | succ fuel ih =>
    intro d
    rw [nextFrameLoop, FrameDecoder.nextFrameLoop, parseVarintAt_joined]
    have hmax : d.joined.maxFieldSection = d.maxFieldSection := rfl
    have hlen : d.joined.buf.length = d.len := d.len_eq.symm
    rw [hmax]
    cases readHeader d.joined.parseVarintAt d.maxFieldSection with
    | error e => rfl
    | ok r =>
      obtain _ | h := r
      · rfl
      simp only [hlen]
      split_ifs
      · rfl
      · obtain ⟨hpayload, hrest⟩ := (d.advance h.headerLen).takeBytes_joined h.len
        rw [advance_joined] at hpayload hrest
        rw [drop_drop] at hrest
        rw [hpayload]
        cases FrameDecoder.readPayload h.ty ((d.joined.buf.drop h.headerLen).take h.len) with
        | error e => rfl
        | ok frame => exact congrArg (fun rest => Except.ok (rest, some frame)) hrest
      · rw [ih, advance_joined]

theorem refines : puller.Refines FrameDecoder.puller joined where
  extend := extend_joined
  next d := by
    show _ = d.joined.nextFrameLoop (d.bufs.flatten.length + 1)
    rw [← d.len_eq]
    exact nextFrameLoop_joined (d.len + 1) d

/-- Whatever the peer sends, the frames, the error and the octets that are kept do not depend
on how it is cut, also where a frame is put together from many pieces. -/
theorem feed_pieces (d : ChunkedDecoder) (piece : Octets) (pieces : List Octets) :
    (d.feed (piece :: pieces)).map (Prod.map joined id) =
      (d.feed [piece ++ pieces.flatten]).map (Prod.map joined id) := by
  have hfeed := refines.feed (·.buf.length + 1) fun d => congrArg (· + 1) d.len_eq
  rw [feed, feed, hfeed, hfeed]
  exact FrameDecoder.steady.feed_flatten pieces d.joined piece

end ChunkedDecoder

end ZincioHttp.H3
