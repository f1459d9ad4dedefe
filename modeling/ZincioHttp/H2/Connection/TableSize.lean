import ZincioHttp.H2.Connection.Deeds
import ZincioHttp.H2.Hpack.Sync

/-! The dynamic table sizes that the peer allows and the size updates that the next
field block starts with. The encoder keeps the largest of the sizes it is given
between two blocks, and signals that one only. -/

namespace ZincioHttp.H2.Hpack

open ZincioHttp.Hpack Lib List Option Integer Decoder Encoder

/-- The size updates that a block starts with, as a decoder reads them. -/
def leadingUpdates : ℕ → Octets → List ℕ
  | fuel + 1, byte :: rest =>
    if Representation.load byte = .ok .sizeUpdate then
      match Integer.decode rest 5 byte with
      | .ok (size, rest) => size :: leadingUpdates fuel rest
      | .error _ => []
    else []
  | _, _ => []

/-- Every update takes an octet at least, so that the length is enough fuel. -/
def sizeUpdates (block : Octets) : List ℕ := leadingUpdates block.length block

variable {e : Encoder}

namespace Encoder

def resize (e : Encoder) (size : ℕ) : Encoder :=
  { e with queuedSizeUpdate := none, table := e.table.setMaxSize size }

theorem encode_of_queued {size : ℕ} (h : e.queuedSizeUpdate = some size) (headers : List Header) :
    e.encode headers = (((e.resize size).encodeHeaders headers).1,
      Integer.encode size 5 0x20 ++ ((e.resize size).encodeHeaders headers).2) := by
  rw [encode, h]
  rfl

def queueAll (e : Encoder) (sizes : List ℕ) : Encoder := sizes.foldl queueSizeUpdate e

/-- The encoder of a connection after some blocks, each with the sizes that were queued
before it. -/
def after (initial : ℕ) (rounds : List (List ℕ × List Header)) : Encoder :=
  rounds.foldl (fun e r => ((e.queueAll r.1).encode r.2).1) (new initial)

/-! ### Queueing -/

theorem table_queueAll (sizes : List ℕ) : ∀ e : Encoder, (e.queueAll sizes).table = e.table := by
  induction sizes with
  | nil => exact fun _ => rfl
  | cons size sizes ih => exact fun e => ih (e.queueSizeUpdate size)

theorem queued_queueAll (sizes : List ℕ) : ∀ {e : Encoder} {current : ℕ},
    e.queuedSizeUpdate = some current → ∃ most, (e.queueAll sizes).queuedSizeUpdate = some most ∧
      IsGreatest {v | v ∈ current :: sizes} most := by
  induction sizes with
  | nil =>
    intro e current h
    exact ⟨current, h, mem_singleton.2 rfl, fun v hv => (mem_singleton.1 hv).le⟩
  | cons size sizes ih =>
    intro e current h
    have hnext : (e.queueSizeUpdate size).queuedSizeUpdate = some (max current size) := by
      rw [queueSizeUpdate, h]
      rfl
    obtain ⟨most, hqueued, hmem, hmost⟩ := ih hnext
    refine ⟨most, hqueued, ?_, fun v hv => ?_⟩
    · rcases mem_cons.1 hmem with rfl | hmem
      · rcases max_choice current size with h | h
        · rw [h]
          exact mem_cons_self
        · rw [h]
          exact mem_cons_of_mem _ mem_cons_self
      · exact mem_cons_of_mem _ (mem_cons_of_mem _ hmem)
    · have hmax : max current size ≤ most := hmost mem_cons_self
      rcases mem_cons.1 hv with rfl | hv
      · exact (le_max_left _ _).trans hmax
      · rcases mem_cons.1 hv with rfl | hv
        · exact (le_max_right _ _).trans hmax
        · exact hmost (mem_cons_of_mem _ hv)

/-- With nothing queued before, the largest size is queued. -/
theorem queued_of_none (h : e.queuedSizeUpdate = none) (sizes : List ℕ) (hsizes : sizes ≠ []) :
    ∃ most, (e.queueAll sizes).queuedSizeUpdate = some most ∧ IsGreatest {v | v ∈ sizes} most := by
  cases sizes with
  | nil => exact absurd rfl hsizes
  | cons size sizes =>
    refine queued_queueAll sizes ?_
    rw [queueSizeUpdate, h]
    rfl

/-! ### Blocks -/

theorem encodeHeader_spec (hv : e.table.Valid) (header : Header) :
    (e.encodeHeader header).1.table.Valid ∧
      (e.encodeHeader header).1.table.maxSize = e.table.maxSize ∧
      (e.encodeHeader header).1.queuedSizeUpdate = e.queuedSizeUpdate := by
  rw [encodeHeader]
  split_ifs
  · exact ⟨hv, rfl, rfl⟩
  · cases e.table.find header.name header.value with
    | some index => exact ⟨hv, rfl, rfl⟩
    | none =>
      obtain ⟨hvalid, -, hmax, -⟩ := Table.add_spec hv header
      exact ⟨hvalid, hmax, rfl⟩

theorem encodeHeaders_spec (headers : List Header) : ∀ {e : Encoder}, e.table.Valid →
    (e.encodeHeaders headers).1.table.Valid ∧
      (e.encodeHeaders headers).1.table.maxSize = e.table.maxSize ∧
      (e.encodeHeaders headers).1.queuedSizeUpdate = e.queuedSizeUpdate := by
  induction headers with
  | nil => exact fun hv => ⟨hv, rfl, rfl⟩
  | cons header headers ih =>
    intro e hv
    obtain ⟨hvalid, hmax, hqueued⟩ := encodeHeader_spec hv header
    obtain ⟨hvalid', hmax', hqueued'⟩ := ih hvalid
    exact ⟨hvalid', hmax'.trans hmax, hqueued'.trans hqueued⟩

theorem encode_spec (hv : e.table.Valid) (headers : List Header) :
    (e.encode headers).1.table.Valid ∧ (e.encode headers).1.queuedSizeUpdate = none ∧
      (e.encode headers).1.table.maxSize = e.queuedSizeUpdate.getD e.table.maxSize := by
  cases hq : e.queuedSizeUpdate with
  | none =>
    obtain ⟨hvalid, hmax, hqueued⟩ := encodeHeaders_spec headers hv
    rw [encode, hq]
    exact ⟨hvalid, hqueued.trans hq, hmax⟩
  | some size =>
    obtain ⟨hset, -, hsize, -⟩ := Table.setMaxSize_spec hv size
    obtain ⟨hvalid, hmax, hqueued⟩ := encodeHeaders_spec headers (e := e.resize size) hset
    rw [encode_of_queued hq]
    exact ⟨hvalid, hqueued, hmax.trans hsize⟩

theorem after_spec (initial : ℕ) (rounds : List (List ℕ × List Header)) :
    (after initial rounds).table.Valid ∧ (after initial rounds).queuedSizeUpdate = none := by
  suffices ∀ e : Encoder, e.table.Valid ∧ e.queuedSizeUpdate = none →
      (rounds.foldl (fun e r => ((e.queueAll r.1).encode r.2).1) e).table.Valid ∧
        (rounds.foldl (fun e r => ((e.queueAll r.1).encode r.2).1) e).queuedSizeUpdate = none from
    this _ ⟨Table.valid_withMaxSize initial, rfl⟩
  induction rounds with
  | nil => exact fun _ h => h
  | cons r rounds ih =>
    intro e h
    have hv : (e.queueAll r.1).table.Valid := by
      rw [table_queueAll]
      exact h.1
    obtain ⟨hvalid, hqueued, -⟩ := encode_spec hv r.2
    exact ih _ ⟨hvalid, hqueued⟩

/-! ### What a block starts with -/

theorem load_of_field :
    ∀ b : UInt8, b.toNat / 2 ^ 7 = 1 ∨ b.toNat / 2 ^ 6 = 1 ∨ b.toNat / 2 ^ 4 = 1 →
      Representation.load b ≠ .ok .sizeUpdate := by
  decide +kernel

theorem encodeName_first (e : Encoder) (name : Octets) (prefixBits : ℕ) (header : UInt8)
    (hp : 1 ≤ prefixBits ∧ prefixBits ≤ 8 := by omega) :
    ∃ first tail, e.encodeName name prefixBits header = first :: tail ∧
      first.toNat / 2 ^ prefixBits = header.toNat / 2 ^ prefixBits := by
  rw [encodeName]
  cases e.table.findName name with
  | some index =>
    obtain ⟨first, tail, henc, hfirst, -⟩ := encode_cases index prefixBits header
    exact ⟨first, tail, henc, hfirst⟩
  | none => exact ⟨header, _, rfl, rfl⟩

theorem encodeHeader_first (e : Encoder) (header : Header) :
    ∃ first tail, (e.encodeHeader header).2 = first :: tail ∧
      Representation.load first ≠ .ok .sizeUpdate := by
  rw [encodeHeader]
  split_ifs
  · obtain ⟨first, tail, henc, hfirst⟩ := e.encodeName_first header.name 4 0x10
    exact ⟨first, tail ++ e.encodeString header.value, by rw [henc]; rfl,
      load_of_field first (.inr (.inr hfirst))⟩
  · cases e.table.find header.name header.value with
    | some index =>
      obtain ⟨first, tail, henc, hfirst, -⟩ := encode_cases index 7 0x80
      exact ⟨first, tail, henc, load_of_field first (.inl hfirst)⟩
    | none =>
      obtain ⟨first, tail, henc, hfirst⟩ := e.encodeName_first header.name 6 0x40
      exact ⟨first, tail ++ e.encodeString header.value, by simp only [henc]; rfl,
        load_of_field first (.inr (.inl hfirst))⟩

theorem leadingUpdates_encodeHeaders (e : Encoder) (fuel : ℕ) (headers : List Header) :
    leadingUpdates fuel (e.encodeHeaders headers).2 = [] := by
  cases headers with
  | nil =>
    cases fuel <;> rfl
  | cons header headers =>
    obtain ⟨first, tail, henc, hfirst⟩ := e.encodeHeader_first header
    rw [encodeHeaders]
    simp only [henc, cons_append]
    cases fuel with
    | zero => rfl
    | succ fuel => rw [leadingUpdates, if_neg hfirst]

/-- A block starts with the size update that was queued, and no other. -/
theorem sizeUpdates_encode (e : Encoder) (headers : List Header)
    (h : ∀ size, e.queuedSizeUpdate = some size → size < 2 ^ 62) :
    sizeUpdates (e.encode headers).2 = e.queuedSizeUpdate.toList := by
  rw [sizeUpdates]
  cases hq : e.queuedSizeUpdate with
  | none =>
    rw [encode, hq]
    exact e.leadingUpdates_encodeHeaders _ headers
  | some size =>
    rw [encode_of_queued hq]
    have hrest := fun fuel => (e.resize size).leadingUpdates_encodeHeaders fuel headers
    generalize ((e.resize size).encodeHeaders headers).2 = rest at hrest
    obtain ⟨first, tail, henc, hfirst, hdec⟩ := decode_encode size 5 0x20 rest (h size hq)
    simp only [henc, cons_append, length_cons]
    rw [leadingUpdates, if_pos (Sync.load_sizeUpdate first hfirst), hdec]
    simp only [hrest]
    rfl

end Encoder

/-- A decoder in step with the encoder that has changed its limit reads a block that
starts with a size within the limit. -/
theorem Sync.decode_limited {limit last size listSize : ℕ} {e₁ : Encoder} {d : Decoder}
    (s : Sync limit e d) (htable : e₁.table = e.table) (hqueued : e₁.queuedSizeUpdate = some size)
    (hsize : size ≤ last) (hlast : last < 2 ^ 62) (headers : List Header)
    (h : listSize + total Header.octetCount headers < 2 ^ 62) :
    (decode { d with maxTableSize := last } (e₁.encode headers).2 listSize).2.2 =
      .ok headers := by
  obtain ⟨hve, hee, hme, -⟩ := Table.setMaxSize_spec s.validEnc size
  obtain ⟨hvd, hed, hmd, -⟩ := Table.setMaxSize_spec s.validDec size
  rw [← htable] at hve hee hme
  have hsync : Sync last (e₁.resize size)
      { d with maxTableSize := last, table := d.table.setMaxSize size } :=
    { validEnc := hve
      validDec := hvd
      entries_eq := by rw [hed, s.entries_eq, ← htable]; exact hee.symm
      maxSize_eq := hmd.trans hme.symm
      maxSize_le := hme.le.trans hsize
      limit_lt := hlast
      cap_eq := rfl
      dec_queue := s.dec_queue
      no_list_limit := s.no_list_limit
      enc_queue := nofun }
  obtain ⟨d', hloop, -⟩ := Sync.decodeLoop_encodeHeaders headers true listSize [] hsync h
  rw [Decoder.decode, s.dec_queue, encode_of_queued hqueued]
  generalize ((e₁.resize size).encodeHeaders headers).2 = rest at hloop
  obtain ⟨first, tail, henc, hfirst, hdec⟩ := Integer.decode_encode size 5 0x20 rest
    (show size < 2 ^ 62 by omega)
  have hread : read { d with maxTableSize := last } true listSize first (tail ++ rest) =
      .ok ⟨d.table.setMaxSize size, none, listSize, rest⟩ := by
    simp [Decoder.read, Sync.load_sizeUpdate first hfirst, hdec, hsize]
  rw [s.dec_queue] at hread hloop
  rw [henc, cons_append, decodeLoop_of_read [] hread]
  simp only [isNone_none, Bool.and_true, toList_none, append_nil]
  rw [hloop]
  rfl

/-- What the peer may expect of the next block after it has allowed some sizes, the last
of which is `last`: the block begins by signalling the smallest size if that is below
the size in use, and ends at a size within the last one; so does the table. A decoder in
step with the encoder that has applied the settings reads the block. -/
structure FollowsSizes (e e' : Encoder) (sizes : List ℕ) (last : ℕ) (headers : List Header)
    (block : Octets) : Prop where
  minimum : ∀ least, IsLeast {v | v ∈ sizes} least → least < e.table.maxSize →
    least ∈ sizeUpdates block
  final : ∃ size, (sizeUpdates block).getLast? = some size ∧ size ≤ last
  table : e'.table.maxSize ≤ last ∧ e'.table.size ≤ last
  peer : ∀ limit d listSize, Sync limit e d → listSize + total Header.octetCount headers < 2 ^ 62 →
    (Decoder.decode { d with maxTableSize := last } block listSize).2.2 = .ok headers

end ZincioHttp.H2.Hpack

namespace ZincioHttp.H2.Connection

open H2.Hpack

def tableSizes (settings : List Setting) : List ℕ :=
  (settings.filter fun s => decide (s.id = 0x01)).map (·.value)

theorem applySetting_encoder (c : Connection) (s : Setting) :
    (c.applySetting s).1.encoder = c.encoder.queueAll (tableSizes [s]) ∧
      ((c.applySetting s).2 = false → (c.applySetting s).1.closing = true) := by
  rw [applySetting]
  by_cases h₁ : s.id = 0x01
  · rw [if_pos h₁]
    have hsizes : tableSizes [s] = [s.value] := by simp [tableSizes, h₁]
    rw [hsizes]
    exact ⟨rfl, (by simp)⟩
  have hsizes : tableSizes [s] = [] := by simp [tableSizes, h₁]
  rw [hsizes]
  split_ifs
  · exact ⟨rfl, (by simp)⟩
  · simp only
    split_ifs <;> exact ⟨rfl, (by simp)⟩
  · exact ⟨rfl, fun _ => rfl⟩
  · exact ⟨rfl, (by simp)⟩
  · exact ⟨rfl, (by simp)⟩
  · exact ⟨rfl, (by simp)⟩

/-- All sizes of a SETTINGS frame that does not close the connection are queued. -/
theorem applyPeerSettings_encoder (settings : List Setting) : ∀ {c : Connection},
    (c.applyPeerSettings settings).closing = false →
    (c.applyPeerSettings settings).encoder = c.encoder.queueAll (tableSizes settings) := by
  induction settings with
  | nil => exact fun _ => rfl
  | cons s settings ih =>
    intro c hopen
    obtain ⟨hencoder, hstop⟩ := applySetting_encoder c s
    rw [applyPeerSettings] at hopen ⊢
    generalize c.applySetting s = r at hencoder hstop hopen ⊢
    obtain ⟨c', goesOn⟩ := r
    have hsizes : tableSizes (s :: settings) = tableSizes [s] ++ tableSizes settings := by
      rw [tableSizes, ← List.singleton_append, List.filter_append, List.map_append, tableSizes,
        tableSizes]
    cases goesOn with
    | true =>
      rw [ih hopen, hencoder, hsizes, Encoder.queueAll, Encoder.queueAll, Encoder.queueAll,
        List.foldl_append]
    | false => cases (hstop rfl).symm.trans hopen

/-- The SETTINGS frames of a peer, one after the other. -/
def applyFrames (c : Connection) (frames : List (List Setting)) : Connection :=
  frames.foldl applyPeerSettings c

theorem applyFrames_encoder (frames : List (List Setting)) : ∀ {c : Connection},
    (c.applyFrames frames).closing = false →
    (c.applyFrames frames).encoder = c.encoder.queueAll (tableSizes frames.flatten) := by
  induction frames with
  | nil => exact fun _ => rfl
  | cons settings frames ih =>
    intro c hopen
    have hstays : ∀ (frames : List (List Setting)) {c : Connection}, c.closing = true →
        (c.applyFrames frames).closing = true := by
      intro frames
      induction frames with
      | nil => exact fun h => h
      | cons settings frames ih => exact fun h => ih (closing_applyPeerSettings settings h)
    have hfirst : (c.applyPeerSettings settings).closing = false := by
      by_contra hclosing
      exact absurd ((hstays frames (by simpa using hclosing)).symm.trans hopen) (by decide)
    have hrest := ih hopen
    rw [applyPeerSettings_encoder settings hfirst] at hrest
    refine hrest.trans ?_
    rw [List.flatten_cons, tableSizes, tableSizes, tableSizes, List.filter_append, List.map_append,
      Encoder.queueAll, Encoder.queueAll, Encoder.queueAll, List.foldl_append]

/-- After SETTINGS frames between two blocks, the next block follows the sizes if and only
if the last size is the largest, and all are the same once one of them is below the size
in use. -/
theorem next_block_follows_iff (initial : ℕ) (rounds : List (List ℕ × List Header))
    (c : Connection) (hc : c.encoder = Encoder.after initial rounds)
    (frames : List (List Setting)) (hopen : (c.applyFrames frames).closing = false)
    (sizes : List ℕ) (last : ℕ) (hsizes : tableSizes frames.flatten = sizes ++ [last])
    (hvalues : ∀ v ∈ sizes ++ [last], v < 2 ^ 32) (headers : List Header) :
    FollowsSizes c.encoder ((c.applyFrames frames).encoder.encode headers).1 (sizes ++ [last]) last
        headers ((c.applyFrames frames).encoder.encode headers).2 ↔
      (∀ v ∈ sizes, v ≤ last) ∧
        ((∃ v ∈ sizes ++ [last], v < c.encoder.table.maxSize) → ∀ v ∈ sizes, v = last) := by
  obtain ⟨hvalid, hnone⟩ := Encoder.after_spec initial rounds
  rw [← hc] at hvalid hnone
  have hencoder := applyFrames_encoder frames hopen
  rw [hsizes] at hencoder
  obtain ⟨most, hqueued, hmem, hmost⟩ := Encoder.queued_of_none hnone (sizes ++ [last])
    (by simp)
  have htable := Encoder.table_queueAll (sizes ++ [last]) c.encoder
  rw [← hencoder] at hqueued htable
  generalize (c.applyFrames frames).encoder = e at hqueued htable ⊢
  have hlast : last ∈ sizes ++ [last] := List.mem_append_right _ (List.mem_singleton.2 rfl)
  have hupdates : sizeUpdates (e.encode headers).2 = [most] := by
    rw [Encoder.sizeUpdates_encode e headers, hqueued]
    · rfl
    · intro size hsize
      obtain rfl := Option.some.inj (hqueued.symm.trans hsize)
      have hlt := hvalues most hmem
      omega
  constructor
  · intro h
    obtain ⟨size, hfinal, hle⟩ := h.final
    rw [hupdates] at hfinal
    obtain rfl : most = size := Option.some.inj hfinal
    refine ⟨fun v hv => (hmost (List.mem_append_left _ hv)).trans hle, fun ⟨v, hv, hbelow⟩ => ?_⟩
    have hsome : ∃ v, v ∈ sizes ++ [last] := ⟨v, hv⟩
    have hleast : IsLeast {v | v ∈ sizes ++ [last]} (Nat.find hsome) :=
      ⟨Nat.find_spec hsome, fun _ hw => Nat.find_min' hsome hw⟩
    have hsignalled := h.minimum _ hleast (lt_of_le_of_lt (hleast.2 hv) hbelow)
    rw [hupdates, List.mem_singleton] at hsignalled
    rw [hsignalled] at hleast
    intro w hw
    have h₁ : most ≤ w := hleast.2 (List.mem_append_left _ hw)
    have h₂ : w ≤ most := hmost (List.mem_append_left _ hw)
    have h₃ : last ≤ most := hmost hlast
    omega
  · rintro ⟨hle, hsame⟩
    obtain rfl : most = last := by
      refine le_antisymm ?_ (hmost hlast)
      rcases List.mem_append.1 hmem with hmem | hmem
      · exact hle most hmem
      · exact (List.mem_singleton.1 hmem).le
    obtain ⟨hvalid', -, hmax⟩ := Encoder.encode_spec (e := e) (by rw [htable]; exact hvalid) headers
    rw [hqueued] at hmax
    refine ⟨fun least hleast hbelow => ?_, ⟨most, by rw [hupdates]; rfl, le_refl _⟩,
      ⟨hmax.le, hvalid'.size_le.trans hmax.le⟩, fun limit d listSize hs hsize => ?_⟩
    · rw [hupdates, List.mem_singleton]
      rcases List.mem_append.1 hleast.1 with hmem | hmem
      · exact hsame ⟨least, hleast.1, hbelow⟩ least hmem
      · exact List.mem_singleton.1 hmem
    · have hlt := hvalues most hlast
      exact hs.decode_limited htable hqueued (le_refl _) (by omega) headers hsize

/-- Two frames with the same size below the one in use. -/
theorem next_block_follows_same :
    let headers : List Header := [⟨octets "a", octets "b"⟩]
    FollowsSizes (start .default).encoder
      (((start .default).applyFrames [[⟨1, 100⟩], [⟨1, 100⟩]]).encoder.encode headers).1
      [100, 100] 100 headers
      (((start .default).applyFrames [[⟨1, 100⟩], [⟨1, 100⟩]]).encoder.encode headers).2 :=
  (next_block_follows_iff 4096 [] (start .default) rfl [[⟨1, 100⟩], [⟨1, 100⟩]] (by decide +kernel)
    [100] 100 rfl (by decide) [⟨octets "a", octets "b"⟩]).2 (by simp)

/-- The peer goes down to 0 and back to 4096: the block signals 4096 and keeps what the
peer has dropped. Or it goes up to 8192 and down to 100: the block signals 8192. -/
theorem next_block_ignores_sizes :
    let header : Header := ⟨octets "a", octets "b"⟩
    let c := { start .default with encoder := Encoder.after 4096 [([], [header])] }
    let down := (c.applyFrames [[⟨1, 0⟩, ⟨1, 4096⟩]]).encoder.encode [header]
    let up := (c.applyFrames [[⟨1, 8192⟩, ⟨1, 100⟩]]).encoder.encode [header]
    (sizeUpdates down.2 = [4096] ∧ down.1.table.entries = [header] ∧
      ¬ FollowsSizes c.encoder down.1 [0, 4096] 4096 [header] down.2) ∧
    (sizeUpdates up.2 = [8192] ∧ up.1.table.maxSize = 8192 ∧
      ¬ FollowsSizes c.encoder up.1 [8192, 100] 100 [header] up.2) := by
  intro header c down up
  have hdown : sizeUpdates down.2 = [4096] := by decide +kernel
  have hup : sizeUpdates up.2 = [8192] := by decide +kernel
  refine ⟨⟨hdown, by decide +kernel, fun h => ?_⟩, ⟨hup, by decide +kernel, fun h => ?_⟩⟩
  · have hsignalled := h.minimum 0 ⟨List.mem_cons_self, fun _ _ => Nat.zero_le _⟩
      (by decide +kernel)
    rw [hdown] at hsignalled
    exact absurd hsignalled (by decide)
  · obtain ⟨size, hfinal, hle⟩ := h.final
    rw [hup] at hfinal
    obtain rfl : 8192 = size := Option.some.inj hfinal
    exact absurd hle (by decide)

end ZincioHttp.H2.Connection
