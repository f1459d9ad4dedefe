import ZincioHttp.H2.Hpack.Decode

/-! The header-list limit of the HPACK decoder. A block that is decoded under a
limit is decoded in the same way without one; and a block whose list, decoded
without a limit, stays within the limit never fails because of it. -/

namespace ZincioHttp.H2.Hpack.Decoder

open ZincioHttp.H2.Hpack.Representation StringLiteral

open ZincioHttp.Hpack (HpackError Integer.decode Integer.decodeLoop Huffman.decode
  Huffman.decodeLoop)

/-- One representation without the account of its size. -/
def parse (d : Decoder) (canResize : Bool) (byte : UInt8) (rest : Octets) :
    Except HpackError (Table × Option Header × Octets) :=
  Representation.load byte >>= fun rep =>
    match rep with
    | .indexed =>
      Integer.decode rest 7 byte >>= fun (index, rest) =>
      match d.table.get index with
      | none => .error .invalidIndex
      | some entry => .ok (d.table, some entry, rest)
    | .literalWithIndexing =>
      d.readLiteral 6 byte rest >>= fun (name, value, rest) =>
      .ok (d.table.add ⟨name, value⟩, some ⟨name, value⟩, rest)
    | .literalWithoutIndexing | .literalNeverIndexed =>
      d.readLiteral 4 byte rest >>= fun (name, value, rest) =>
      .ok (d.table, some ⟨name, value⟩, rest)
    | .sizeUpdate =>
      if !canResize then .error .invalidMaxSize
      else
        Integer.decode rest 5 byte >>= fun (size, rest) =>
        if size > d.maxTableSize then .error .invalidMaxSize
        else .ok (d.table.setMaxSize size, none, rest)

/-- The octets a representation adds to the list. -/
def listed (header : Option Header) : ℕ := (header.map Header.octetCount).getD 0

theorem read_eq (d : Decoder) (canResize : Bool) (listSize : ℕ) (byte : UInt8) (rest : Octets) :
    d.read canResize listSize byte rest =
      match d.parse canResize byte rest with
      | .error e => .error (e, listSize)
      | .ok (table, header, rest) =>
        if header.isSome ∧ listSize + listed header > d.maxHeaderListSize then
          .error (.headerListTooLarge, listSize + listed header)
        else .ok ⟨table, header, listSize + listed header, rest⟩ := by
  have hcharge : ∀ (t : Table) (h : Header) (rest : Octets),
      (d.charge listSize h.name h.value >>= fun n =>
        (.ok ⟨t, some h, n, rest⟩ : Except (HpackError × ℕ) Read)) =
      if listSize + h.octetCount > d.maxHeaderListSize then
        .error (.headerListTooLarge, listSize + h.octetCount)
      else .ok ⟨t, some h, listSize + h.octetCount, rest⟩ := by
    intro t h rest
    rw [charge, ← Header.octetCount]
    split_ifs <;> rfl
  rw [read, parse]
  cases load byte with
  | error e => rfl
  | ok rep =>
    cases rep with
    | indexed =>
      cases Integer.decode rest 7 byte with
      | error e => rfl
      | ok r =>
        simp only [mapError_ok, ok_bind]
        cases d.table.get r.1 with
        | none => rfl
        | some entry => simpa [listed] using hcharge d.table entry r.2
    | literalWithIndexing =>
      cases d.readLiteral 6 byte rest with
      | error e => rfl
      | ok r =>
        simpa [listed] using hcharge (d.table.add ⟨r.1, r.2.1⟩) ⟨r.1, r.2.1⟩ r.2.2
    | literalWithoutIndexing | literalNeverIndexed =>
      cases d.readLiteral 4 byte rest with
      | error e => rfl
      | ok r => simpa [listed] using hcharge d.table ⟨r.1, r.2.1⟩ r.2.2
    | sizeUpdate =>
      cases canResize with
      | false => rfl
      | true =>
        simp only [Bool.not_true, Bool.false_eq_true, if_false]
        cases Integer.decode rest 5 byte with
        | error e => rfl
        | ok r =>
          simp only [mapError_ok, ok_bind]
          split_ifs
          · rfl
          · simp [listed]

/-! ### Errors that are not about the limit -/

/-- The limit on the list is not what has failed. -/
def Within {α : Type} (r : Except HpackError α) : Prop := r ≠ .error .headerListTooLarge

theorem Within.bind {α β : Type} {x : Except HpackError α} {f : α → Except HpackError β}
    (hx : Within x) (hf : ∀ a, Within (f a)) : Within (x >>= f) := by
  cases x with
  | error e => exact fun h => hx (congrArg Except.error (Except.error.inj h))
  | ok a => exact hf a

theorem within_ok {α : Type} (a : α) : Within (.ok a : Except HpackError α) := nofun

theorem within_integer (buf : Octets) (prefixBits : ℕ) (header : UInt8) :
    Within (Integer.decode buf prefixBits header) := by
  have hloop : ∀ (buf : Octets) (value shift : ℕ), Within (Integer.decodeLoop value shift buf) := by
    intro buf
    induction buf with
    | nil => simp [Within, Integer.decodeLoop]
    | cons b buf ih =>
      intro value shift
      rw [Integer.decodeLoop]
      simp only
      split_ifs
      · simp [Within]
      · simp [Within]
      · simp [Within]
      · simp [Within]
      · exact ih _ _
  rw [Integer.decode]
  split_ifs
  · simp [Within]
  · exact hloop _ _ _

theorem within_huffman (src : Octets) : Within (Huffman.decode src) := by
  have hloop : ∀ (src : Octets) (state : ℕ) (accepted : Bool) (dst : Octets),
      Within (Huffman.decodeLoop src state accepted dst) := by
    intro src
    induction src with
    | nil =>
      intro state accepted dst
      rw [Huffman.decodeLoop]
      split_ifs <;> simp [Within]
    | cons byte src ih =>
      intro state accepted dst
      rw [Huffman.decodeLoop]
      simp only
      split
      · simp [Within]
      · exact ih _ _ _
  exact hloop _ _ _ _

theorem string_decode_cons (first : UInt8) (buf : Octets) (maxLength : ℕ) :
    StringLiteral.decode (first :: buf) maxLength = Integer.decode buf 7 first >>= fun (len, buf) =>
        if len > maxLength ∨ buf.length < len then .error .invalidString
        else if first &&& 0x80 ≠ 0 then
          Huffman.decode (buf.take len) >>= fun value =>
            if value.length > maxLength then .error .invalidString
            else .ok (true, value, buf.drop len)
        else .ok (false, buf.take len, buf.drop len) := by
  rw [StringLiteral.decode]
  congr 1
  funext x
  obtain ⟨len, buf⟩ := x
  by_cases hlen : len > maxLength
  · simp only [hlen]
    rfl
  by_cases hbuf : buf.length < len
  · simp only [hlen, hbuf]
    rfl
  · simp only [hlen, hbuf]
    rfl

theorem within_string (buf : Octets) (maxLength : ℕ) :
    Within (StringLiteral.decode buf maxLength) := by
  cases buf with
  | nil => nofun
  | cons first buf =>
    rw [string_decode_cons]
    refine (within_integer buf 7 first).bind fun ⟨len, buf⟩ => ?_
    simp only
    split_ifs
    · nofun
    · refine (within_huffman _).bind fun value => ?_
      split_ifs <;> nofun
    · nofun

theorem readLiteral_eq (d : Decoder) (prefixBits : ℕ) (byte : UInt8) (buf : Octets) :
    d.readLiteral prefixBits byte buf = Integer.decode buf prefixBits byte >>= fun (index, rest) =>
      d.readName index rest >>= fun (name, rest) =>
      StringLiteral.decode rest d.maxHeaderListSize >>= fun (_, value, rest) =>
      .ok (name, value, rest) := by
  rw [readLiteral]
  cases Integer.decode buf prefixBits byte with
  | error e => rfl
  | ok r =>
    simp only [ok_bind]
    cases d.readName r.1 r.2 with
    | error e => rfl
    | ok r =>
      simp only [ok_bind]
      cases StringLiteral.decode r.2 d.maxHeaderListSize <;> rfl

theorem readName_eq (d : Decoder) (index : ℕ) (buf : Octets) : d.readName index buf =
      if index = 0 then
        StringLiteral.decode buf d.maxHeaderListSize >>= fun (_, name, rest) => .ok (name, rest)
      else
        match d.table.get index with
        | none => .error .invalidIndex
        | some entry => .ok (entry.name, buf) := by
  rw [readName]
  cases StringLiteral.decode buf d.maxHeaderListSize <;> rfl

theorem within_parse (d : Decoder) (canResize : Bool) (byte : UInt8) (rest : Octets) :
    Within (d.parse canResize byte rest) := by
  have hname : ∀ index buf, Within (d.readName index buf) := by
    intro index buf
    rw [readName_eq]
    split_ifs
    · exact (within_string _ _).bind fun _ => within_ok _
    · split <;> nofun
  have hliteral : ∀ prefixBits, Within (d.readLiteral prefixBits byte rest) := by
    intro prefixBits
    rw [readLiteral_eq]
    exact (within_integer _ _ _).bind fun _ => (hname _ _).bind fun _ =>
      (within_string _ _).bind fun _ => within_ok _
  have hload : Within (load byte) := by
    rw [load]
    split_ifs <;> nofun
  refine hload.bind fun rep => ?_
  cases rep with
  | indexed =>
    refine (within_integer _ _ _).bind fun ⟨index, rest⟩ => ?_
    simp only
    cases d.table.get index with
    | none => nofun
    | some entry => nofun
  | literalWithIndexing => exact (hliteral 6).bind fun _ => within_ok _
  | literalWithoutIndexing | literalNeverIndexed => exact (hliteral 4).bind fun _ => within_ok _
  | sizeUpdate =>
    simp only
    split_ifs
    · nofun
    · refine (within_integer _ _ _).bind fun ⟨size, rest⟩ => ?_
      split_ifs <;> nofun

/-! ### Lifting the limit -/

variable {buf : Octets} {canResize : Bool} {listSize listSize' : ℕ} {headers : List Header}

section Lift
variable {d : Decoder} {limit : ℕ} (hlimit : d.maxHeaderListSize ≤ limit)
include hlimit

theorem string_decode_lift {r : Bool × Octets × Octets}
    (h : StringLiteral.decode buf d.maxHeaderListSize = .ok r) :
    StringLiteral.decode buf limit = .ok r := by
  cases buf with
  | nil => cases h
  | cons first buf =>
    rw [string_decode_cons] at h ⊢
    obtain ⟨⟨len, buf'⟩, hi, h⟩ := bind_eq_ok.1 h
    rw [hi, ok_bind]
    simp only at h ⊢
    split_ifs at h with hbad hhuff
    · obtain ⟨value, hv, h⟩ := bind_eq_ok.1 h
      split_ifs at h
      rw [if_neg (by omega), if_pos hhuff, hv, ok_bind, if_neg (by omega)]
      exact h
    · rw [if_neg (by omega), if_neg hhuff]
      exact h

theorem readName_lift {index : ℕ} {r : Octets × Octets} (h : d.readName index buf = .ok r) :
    (d.setMaxHeaderListSize limit).readName index buf = .ok r := by
  rw [readName_eq] at h ⊢
  split_ifs at h ⊢ with hindex
  · obtain ⟨s, hs, h⟩ := bind_eq_ok.1 h
    exact bind_eq_ok.2 ⟨s, string_decode_lift hlimit hs, h⟩
  · exact h

theorem readLiteral_lift {prefixBits : ℕ} {byte : UInt8} {r : Octets × Octets × Octets}
    (h : d.readLiteral prefixBits byte buf = .ok r) :
    (d.setMaxHeaderListSize limit).readLiteral prefixBits byte buf = .ok r := by
  rw [readLiteral_eq] at h ⊢
  obtain ⟨i, hi, h⟩ := bind_eq_ok.1 h
  obtain ⟨n, hn, h⟩ := bind_eq_ok.1 h
  obtain ⟨s, hs, h⟩ := bind_eq_ok.1 h
  exact bind_eq_ok.2 ⟨i, hi, bind_eq_ok.2 ⟨n, readName_lift hlimit hn,
    bind_eq_ok.2 ⟨s, string_decode_lift hlimit hs, h⟩⟩⟩

theorem parse_lift {byte : UInt8} {rest : Octets} {r : Table × Option Header × Octets}
    (h : d.parse canResize byte rest = .ok r) :
    (d.setMaxHeaderListSize limit).parse canResize byte rest = .ok r := by
  obtain ⟨rep, hrep, h⟩ := bind_eq_ok.1 h
  refine bind_eq_ok.2 ⟨rep, hrep, ?_⟩
  cases rep with
  | indexed => exact h
  | literalWithIndexing | literalWithoutIndexing | literalNeverIndexed =>
    obtain ⟨l, hl, h⟩ := bind_eq_ok.1 h
    exact bind_eq_ok.2 ⟨l, readLiteral_lift hlimit hl, h⟩
  | sizeUpdate => exact h

/-- A representation read under a limit is read in the same way under a higher
one, from any smaller size. -/
theorem read_lift {byte : UInt8} {rest : Octets} {r : Read} (hsize : listSize' ≤ listSize)
    (h : d.read canResize listSize byte rest = .ok r) :
    listSize ≤ r.listSize ∧
    (d.setMaxHeaderListSize limit).read canResize listSize' byte rest =
      .ok { r with listSize := listSize' + (r.listSize - listSize) } := by
  rw [read_eq] at h
  cases hp : d.parse canResize byte rest with
  | error e => simp [hp] at h
  | ok p =>
    obtain ⟨table, header, tail⟩ := p
    simp only [hp] at h
    split_ifs at h with hbig
    cases h
    have hbig' : ¬(header.isSome = true ∧ listSize' + listed header > limit) := by
      intro hb
      exact hbig ⟨hb.1, by omega⟩
    refine ⟨Nat.le_add_right _ _, ?_⟩
    rw [read_eq, parse_lift hlimit hp, Nat.add_sub_cancel_left]
    exact if_neg hbig'

end Lift

section
variable (d : Decoder) (canResize : Bool) (listSize : ℕ) (headers : List Header)

theorem decodeLoop_cons (byte : UInt8) (rest : Octets) :
    d.decodeLoop canResize listSize headers (byte :: rest) =
      match d.read canResize listSize byte rest with
      | .error (e, listSize) => (d, listSize, .error e)
      | .ok r =>
        decodeLoop { d with table := r.table } (canResize && r.header.isNone) r.listSize
          (headers ++ r.header.toList) r.rest := by
  rw [decodeLoop]
  split <;> simp_all

theorem le_decodeLoop (buf : Octets) :
    listSize ≤ (d.decodeLoop canResize listSize headers buf).2.1 := by
  induction hn : buf.length using Nat.strong_induction_on
    generalizing d canResize listSize headers buf with
  | _ n ih =>
    cases buf with
    | nil => rw [decodeLoop]
    | cons byte rest =>
      have hread := read_eq d canResize listSize byte rest
      rw [decodeLoop_cons]
      cases hr : d.read canResize listSize byte rest with
      | error e =>
        rw [hr] at hread
        split at hread
        · cases hread
          exact le_rfl
        · split_ifs at hread
          cases hread
          exact Nat.le_add_right _ _
      | ok r =>
        have hlen := read_rest_le hr
        have hle := (read_lift (le_refl d.maxHeaderListSize) le_rfl hr).1
        rw [List.length_cons] at hn
        exact hle.trans (ih r.rest.length (by omega) _ _ _ _ _ rfl)

end

/-- A block decoded under a limit is decoded in the same way under a higher one. -/
theorem decodeLoop_lift {limit : ℕ} {d d₁ : Decoder} {listSize₁ : ℕ} {headers₁ : List Header}
    (hlimit : d.maxHeaderListSize ≤ limit) (hsize : listSize' ≤ listSize)
    (h : d.decodeLoop canResize listSize headers buf = (d₁, listSize₁, .ok headers₁)) :
    ∃ n, (d.setMaxHeaderListSize limit).decodeLoop canResize listSize' headers buf =
      (d₁.setMaxHeaderListSize limit, n, .ok headers₁) := by
  induction hn : buf.length using Nat.strong_induction_on
    generalizing d canResize listSize listSize' headers buf with
  | _ n ih =>
    cases buf with
    | nil =>
      rw [decodeLoop] at h ⊢
      cases h
      exact ⟨_, rfl⟩
    | cons byte rest =>
      rw [decodeLoop_cons] at h
      cases hr : d.read canResize listSize byte rest with
      | error e => simp [hr] at h
      | ok r =>
        have hlen := read_rest_le hr
        obtain ⟨hle, hlift⟩ := read_lift hlimit hsize hr
        rw [hr] at h
        rw [List.length_cons] at hn
        rw [decodeLoop_of_read headers hlift]
        exact ih r.rest.length (by omega) (d := { d with table := r.table }) hlimit
          (show listSize' + (r.listSize - listSize) ≤ r.listSize by omega) h rfl

/-- A list that fits the limit is not refused because of it. -/
theorem decodeLoop_within {limit : ℕ} {d : Decoder} (hlimit : d.maxHeaderListSize ≤ limit)
    (hfits : ((d.setMaxHeaderListSize limit).decodeLoop canResize listSize headers buf).2.1 ≤
      d.maxHeaderListSize) :
    Within (d.decodeLoop canResize listSize headers buf).2.2 := by
  induction hn : buf.length using Nat.strong_induction_on
    generalizing d canResize listSize headers buf with
  | _ n ih =>
    cases buf with
    | nil =>
      rw [decodeLoop]
      exact within_ok _
    | cons byte rest =>
      have hread := read_eq d canResize listSize byte rest
      rw [decodeLoop_cons]
      cases hp : d.parse canResize byte rest with
      | error e =>
        have hwithin := within_parse d canResize byte rest
        rw [hread, hp]
        rw [hp] at hwithin
        intro htoo
        cases htoo
        exact hwithin rfl
      | ok p =>
        obtain ⟨table, header, tail⟩ := p
        rw [hp] at hread
        have hlift := read_eq (d.setMaxHeaderListSize limit) canResize listSize byte rest
        rw [parse_lift hlimit hp] at hlift
        simp only at hread hlift
        by_cases hbig : header.isSome = true ∧ listSize + listed header > d.maxHeaderListSize
        · -- the lifted decoder has charged the same octets
          exfalso
          rw [decodeLoop_cons] at hfits
          by_cases hbig' : header.isSome = true ∧
              listSize + listed header > (d.setMaxHeaderListSize limit).maxHeaderListSize
          · rw [hlift, if_pos hbig'] at hfits
            exact absurd hfits (by simp only; omega)
          rw [hlift, if_neg hbig'] at hfits
          have := le_decodeLoop { d.setMaxHeaderListSize limit with table := table }
            (canResize && header.isNone) (listSize + listed header)
            (headers ++ header.toList) tail
          exact absurd (this.trans hfits) (by omega)
        · rw [if_neg hbig] at hread
          have hlen := read_rest_le hread
          have hnext := (read_lift hlimit le_rfl hread).2
          rw [decodeLoop_of_read headers hnext] at hfits
          rw [hread]
          rw [List.length_cons] at hn
          refine ih tail.length (lt_of_le_of_lt hlen (by omega)) hlimit
            ?_ rfl
          simp only [Nat.add_sub_cancel_left] at hfits
          exact hfits

theorem decodeLoop_maxHeaderListSize (d : Decoder) (canResize : Bool) (listSize : ℕ)
    (headers : List Header) (buf : Octets) :
    (d.decodeLoop canResize listSize headers buf).1.maxHeaderListSize = d.maxHeaderListSize := by
  induction hn : buf.length using Nat.strong_induction_on
    generalizing d canResize listSize headers buf with
  | _ n ih =>
    cases buf with
    | nil => rw [decodeLoop]
    | cons byte rest =>
      rw [decodeLoop_cons]
      cases hr : d.read canResize listSize byte rest with
      | error e => rfl
      | ok r =>
        have hlen := read_rest_le hr
        rw [List.length_cons] at hn
        exact ih r.rest.length (by omega) _ _ _ _ _ rfl

theorem decode_maxHeaderListSize (d : Decoder) (buf : Octets) (listSize : ℕ) :
    (d.decode buf listSize).1.maxHeaderListSize = d.maxHeaderListSize := by
  rw [decode]
  split <;> rw [decodeLoop_maxHeaderListSize]

section Block
variable {d : Decoder} {limit : ℕ}

/-- A block that is decoded leaves the same decoder, limit apart, under a higher
limit. -/
theorem decode_lift {d₁ : Decoder} {listSize₁ : ℕ} (hlimit : d.maxHeaderListSize ≤ limit)
    (hsize : listSize' ≤ listSize) (h : d.decode buf listSize = (d₁, listSize₁, .ok headers)) :
    ∃ n, (d.setMaxHeaderListSize limit).decode buf listSize' =
      (d₁.setMaxHeaderListSize limit, n, .ok headers) := by
  cases hq : d.queuedSizeUpdate with
  | none =>
    rw [decode, hq] at h
    simpa [decode, setMaxHeaderListSize, hq] using decodeLoop_lift hlimit hsize h
  | some size =>
    rw [decode, hq] at h
    simpa [decode, setMaxHeaderListSize, hq] using
      decodeLoop_lift (d := { d with queuedSizeUpdate := none, maxTableSize := size }) hlimit hsize
        h

theorem decode_within (hlimit : d.maxHeaderListSize ≤ limit)
    (hfits : ((d.setMaxHeaderListSize limit).decode buf listSize).2.1 ≤ d.maxHeaderListSize) :
    Within (d.decode buf listSize).2.2 := by
  cases hq : d.queuedSizeUpdate with
  | none =>
    rw [decode, hq]
    apply decodeLoop_within hlimit
    simpa [decode, setMaxHeaderListSize, hq] using hfits
  | some size =>
    rw [decode, hq]
    apply decodeLoop_within (d := { d with queuedSizeUpdate := none, maxTableSize := size }) hlimit
    simpa [decode, setMaxHeaderListSize, hq] using hfits

end Block

end ZincioHttp.H2.Hpack.Decoder
