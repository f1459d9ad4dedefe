import ZincioHttp.H3.Qpack.Decoder

/-! What the octets of QPACK stand for. A field line names a static or dynamic
entry, or spells out its parts; what it means depends on the insertions made so
far and on nothing else. An instruction changes the table. The decoder reads the
octets of lines, instructions and section prefixes back as what they stand for. -/

namespace ZincioHttp.H3.Qpack

open Lib ZincioHttp.Hpack List Option Integer Encoder StaticTable Decoder Except

/-- The field lines the encoder writes; dynamic entries by absolute index. -/
inductive Line where
  | indexedStatic (index : ℕ)
  | indexedDynamic (abs : ℕ)
  | literalStaticName (index : ℕ) (value : Octets)
  | literalDynamicName (abs : ℕ) (value : Octets)
  | literal (sensitive : Bool) (name value : Octets)

variable {history : List Field} {t : DynamicTable} {abs base : ℕ} {lines : List Line}

namespace Line

/-- The octets of a line in a section with the given Base. -/
def code (e : Encoder) (base : ℕ) : Line → Octets
  | indexedStatic index => Integer.encode index 6 (0x80 ||| 0x40)
  | indexedDynamic abs => encodeIndexed abs base
  | literalStaticName index value => e.encodeLiteralWithStaticNameRef index value
  | literalDynamicName abs value =>
    if abs ≥ base then e.encodeLiteralPostBaseNameRef abs base value
    else e.encodeLiteralWithNameRef abs base value
  | literal sensitive name value =>
    pushString e.huffman name 4 (0x20 ||| Encoder.sensitiveBit sensitive) ++
      pushString e.huffman value 8 0

def ref : Line → Option ℕ
  | indexedDynamic abs | literalDynamicName abs _ => some abs
  | _ => none

/-- The field a line stands for after the insertions `history`. -/
def field (history : List Field) : Line → Option Field
  | indexedStatic index => StaticTable.get index
  | indexedDynamic abs => history[abs]?
  | literalStaticName index value => (StaticTable.get index).map fun e => ⟨e.name, value⟩
  | literalDynamicName abs value => history[abs]?.map fun e => ⟨e.name, value⟩
  | literal _ name value => some ⟨name, value⟩

def sensitive : Line → Bool
  | literal sensitive _ _ => sensitive
  | _ => false

/-- Static indices are in the table and strings can be announced. -/
def Fits : Line → Prop
  | indexedStatic index => index < 99
  | indexedDynamic _ => True
  | literalStaticName index value => index < 99 ∧ value.length < 2 ^ 62
  | literalDynamicName _ value => value.length < 2 ^ 62
  | literal _ name value => name.length < 2 ^ 62 ∧ value.length < 2 ^ 62

/-- Later insertions do not change what a line stands for. -/
theorem field_append {line : Line} {f : Field} (h : line.field history = some f)
    (later : List Field) : line.field (history ++ later) = some f := by
  cases line with
  | indexedStatic index => exact h
  | indexedDynamic abs =>
    simp only [field] at h ⊢
    rw [getElem?_append_left (List.getElem?_eq_some_iff.1 h).1, h]
  | literalStaticName index value => exact h
  | literalDynamicName abs value =>
    simp only [field, map_eq_some_iff] at h ⊢
    obtain ⟨e, he, rfl⟩ := h
    exact ⟨e, by rw [getElem?_append_left (List.getElem?_eq_some_iff.1 he).1, he], rfl⟩
  | literal sensitive name value => exact h

end Line

open Line

/-- A field's strings can be announced. -/
def Field.Fits (f : Field) : Prop := f.name.length < 2 ^ 62 ∧ f.value.length < 2 ^ 62

/-! ### Writing a line -/

/-- How a field is encoded: by a line that does not need the dynamic table, by a reference to
an entry that is there, or by one to an entry that is inserted for it. -/
inductive Writes (e : Encoder) (base : ℕ) (s : Section) (f : Field) : Line → Section → Prop
  | plain {line : Line} (hfield : ∀ history, line.field history = some f)
      (hfits : f.Fits → line.Fits) (href : line.ref = none)
      (hmark : line.sensitive =
        (decide (f.name ∈ neverIndexed) && (StaticTable.findName f.name).isNone)) :
      Writes e base s f line (s.push (line.code e base))
  | indexed {abs : ℕ} (hnever : f.name ∉ neverIndexed) (husable : 32 ≤ e.maxCapacity)
      (hfull : (s.dynamic.findFullOrName f.name f.value).1 = some abs) :
      Writes e base s f (.indexedDynamic abs) (s.pushRef abs (encodeIndexed abs base))
  | named {abs : ℕ} (hnever : f.name ∉ neverIndexed) (husable : 32 ≤ e.maxCapacity)
      (hname : (s.dynamic.findFullOrName f.name f.value).2 = some abs) :
      Writes e base s f (.literalDynamicName abs f.value)
        (s.pushRef abs (code e base (.literalDynamicName abs f.value)))
  | inserted (hnever : f.name ∉ neverIndexed) (husable : 32 ≤ e.maxCapacity)
      (hsize : f.size ≤ e.maxCapacity) (hsafe : e.safeToInsert s f = true) :
      Writes e base s f (.indexedDynamic s.dynamic.inserted) (e.insertField base s f)

theorem writes_literal (e : Encoder) (base : ℕ) (s : Section) (f : Field) {sensitive : Bool}
    (h : sensitive = decide (f.name ∈ neverIndexed)) :
    ∃ line, Writes e base s f line (s.push (e.encodeLiteral f.name f.value sensitive)) := by
  cases hfind : findName f.name with
  | some index =>
    obtain ⟨⟨value, hget⟩, hlt⟩ := get_of_name hfind
    -- the bit that marks the line as sensitive is already set in this pattern
    have hcode : code e base (.literalStaticName index f.value) =
        e.encodeLiteral f.name f.value sensitive := by
      rw [encodeLiteral, hfind]
      cases sensitive <;> rfl
    rw [← hcode]
    exact ⟨_, .plain (fun _ => by simp [field, hget]) (fun hf => ⟨hlt, hf.2⟩) rfl
      (by simp [Line.sensitive, hfind])⟩
  | none =>
    have hcode : code e base (.literal sensitive f.name f.value) =
        e.encodeLiteral f.name f.value sensitive := by
      rw [encodeLiteral, hfind]
      rfl
    rw [← hcode]
    exact ⟨_, .plain (fun _ => rfl) id rfl (by simp [Line.sensitive, hfind, h])⟩

theorem encodeField_writes (e : Encoder) (base : ℕ) (s : Section) (f : Field) :
    ∃ line, Writes e base s f line (e.encodeField base s f) := by
  rw [encodeField]
  split
  · rename_i hnever
    exact writes_literal e base s f (decide_eq_true hnever).symm
  rename_i hnever
  have hmark : false = (decide (f.name ∈ neverIndexed) && (findName f.name).isNone) := by
    simp [hnever]
  simp only
  generalize hm : (if decide (e.maxCapacity ≥ 32) then
      s.dynamic.findFullOrName f.name f.value else (none, none)) = m
  have hmatch : ∀ {abs}, m.1 = some abs ∨ m.2 = some abs → 32 ≤ e.maxCapacity ∧
      s.dynamic.findFullOrName f.name f.value = m := by
    intro abs habs
    by_cases husable : 32 ≤ e.maxCapacity
    · exact ⟨husable, by rw [← hm, if_pos (decide_eq_true husable)]⟩
    · rw [← hm, if_neg (by simpa using husable)] at habs
      simp at habs
  split
  · rename_i abs hfull
    obtain ⟨husable, hfind⟩ := hmatch (.inl hfull)
    exact ⟨_, .indexed hnever husable (hfind ▸ hfull)⟩
  split
  · rename_i index hstatic
    obtain ⟨hget, hlt⟩ := get_of_full hstatic
    exact ⟨.indexedStatic index, .plain (fun _ => hget) (fun _ => hlt) rfl hmark⟩
  split
  · rename_i abs hname
    obtain ⟨husable, hfind⟩ := hmatch (.inr hname)
    exact ⟨_, .named hnever husable (hfind ▸ hname)⟩
  split
  · rename_i index hstatic
    rw [findFullOrName_snd] at hstatic
    obtain ⟨⟨value, hget⟩, hlt⟩ := get_of_name hstatic
    exact ⟨.literalStaticName index f.value, .plain (fun _ => by simp [field, hget])
      (fun hf => ⟨hlt, hf.2⟩) rfl hmark⟩
  split_ifs with hinsert
  · simp only [Bool.and_eq_true, decide_eq_true_eq] at hinsert
    exact ⟨_, .inserted hnever hinsert.1.1 hinsert.1.2 hinsert.2⟩
  · exact writes_literal e base s f (decide_eq_false hnever).symm

/-! ### First octets -/

theorem bits_of_div64 : ∀ b : UInt8, (b.toNat / 2 ^ 6 = 3 → b &&& 0x80 ≠ 0 ∧ b &&& 0x40 ≠ 0) ∧
    (b.toNat / 2 ^ 6 = 2 → b &&& 0x80 ≠ 0 ∧ b &&& 0x40 = 0) := by
  decide +kernel

theorem bits_of_div16 : ∀ b : UInt8,
    (b.toNat / 2 ^ 4 = 5 → b &&& 0x80 = 0 ∧ b &&& 0x40 ≠ 0 ∧ b &&& 0x10 ≠ 0) ∧
    (b.toNat / 2 ^ 4 = 4 → b &&& 0x80 = 0 ∧ b &&& 0x40 ≠ 0 ∧ b &&& 0x10 = 0) ∧
    (b.toNat / 2 ^ 4 = 3 ∨ b.toNat / 2 ^ 4 = 2 → b &&& 0x80 = 0 ∧ b &&& 0x40 = 0 ∧ b &&& 0x20 ≠ 0) ∧
    (b.toNat / 2 ^ 4 = 1 → b &&& 0x80 = 0 ∧ b &&& 0x40 = 0 ∧ b &&& 0x20 = 0 ∧ b &&& 0x10 ≠ 0) := by
  decide +kernel

theorem bits_of_div8 : ∀ b : UInt8, b.toNat / 2 ^ 3 = 0 →
    b &&& 0x80 = 0 ∧ b &&& 0x40 = 0 ∧ b &&& 0x20 = 0 ∧ b &&& 0x10 = 0 := by
  decide +kernel

/-! ### Reading a line back -/

theorem getBaseRelative_eq (h : abs < base) :
    t.getBaseRelative base (base - abs - 1) = t.getAbsolute abs := by
  rw [DynamicTable.getBaseRelative, if_neg (by omega)]
  congr 1
  omega

theorem getPostBase_eq (h : base ≤ abs) (habs : abs < 2 ^ 64) :
    t.getPostBase base (abs - base) = t.getAbsolute abs := by
  rw [DynamicTable.getPostBase, if_neg (by omega)]
  congr 1
  omega

/-- The insert count a line needs. -/
def Line.needs (line : Line) : ℕ := match line.ref with
  | some abs => abs + 1
  | none => 0

/-- The decoder reads a line as the field it stands for, if its table still has
the entry the line refers to. -/
theorem readLine_code {e : Encoder} {line : Line} {f : Field} (rest : Octets)
    (hfield : line.field history = some f) (hfits : line.Fits)
    (hget : ∀ abs, line.ref = some abs → t.getAbsolute abs = history[abs]? ∧ abs < 2 ^ 62)
    (hbase : base < 2 ^ 62) :
    ∃ first tail, line.code e base = first :: tail ∧
      readLine t base first (tail ++ rest) = .ok (f, line.needs, rest) := by
  cases line with
  | indexedStatic index =>
    have hlt : index < 99 := hfits
    obtain ⟨first, tail, henc, hfirst, hdec⟩ :=
      decode_encode index 6 (0x80 ||| 0x40) rest (by omega)
    obtain ⟨h80, h40⟩ := (bits_of_div64 first).1 hfirst
    refine ⟨first, tail, henc, ?_⟩
    simp only [field] at hfield
    simp [readLine, h80, h40, decFailed, hdec, hfield, orFail, needs,
      ref, pure, Except.pure]
  | indexedDynamic abs =>
    obtain ⟨hentry, habs⟩ := hget abs rfl
    simp only [field] at hfield
    by_cases hpost : abs ≥ base
    · obtain ⟨first, tail, henc, hfirst, hdec⟩ := decode_encode (abs - base) 4 0x10 rest (by omega)
      obtain ⟨h80, h40, h20, h10⟩ := (bits_of_div16 first).2.2.2 hfirst
      refine ⟨first, tail, by simp [code, encodeIndexed, hpost, henc], ?_⟩
      simp [readLine, h80, h40, h20, h10, decFailed, hdec,
        getPostBase_eq hpost (by omega), hentry, hfield, orFail, needs, ref, pure,
        Except.pure, Nat.add_sub_cancel' hpost]
    · obtain ⟨first, tail, henc, hfirst, hdec⟩ :=
        decode_encode (base - abs - 1) 6 0x80 rest (by omega)
      obtain ⟨h80, h40⟩ := (bits_of_div64 first).2 hfirst
      refine ⟨first, tail, by simp [code, encodeIndexed, hpost, henc], ?_⟩
      simp [readLine, h80, h40, decFailed, hdec, getBaseRelative_eq (not_le.1 hpost),
        hentry, hfield, orFail, needs, ref, pure, Except.pure]
      omega
  | literalStaticName index value =>
    obtain ⟨hlt, hv⟩ : index < 99 ∧ value.length < 2 ^ 62 := hfits
    obtain ⟨first, tail, henc, hfirst, hdec⟩ := decode_encode index 4 (0x40 ||| 0x10)
      (pushString e.huffman value 8 0 ++ rest) (by omega)
    obtain ⟨h80, h40, h10⟩ := (bits_of_div16 first).1 hfirst
    simp only [field, map_eq_some_iff] at hfield
    obtain ⟨entry, hentry, rfl⟩ := hfield
    refine ⟨first, tail ++ pushString e.huffman value 8 0,
      by simp [code, encodeLiteralWithStaticNameRef, henc], ?_⟩
    simp [readLine, h80, h40, h10, decFailed, hdec,
      readValueString_pushString e.huffman rest hv, hentry, orFail, needs, ref,
      pure, Except.pure]
  | literalDynamicName abs value =>
    have hv : value.length < 2 ^ 62 := hfits
    obtain ⟨hentry, habs⟩ := hget abs rfl
    simp only [field, map_eq_some_iff] at hfield
    obtain ⟨entry, hhist, rfl⟩ := hfield
    by_cases hpost : abs ≥ base
    · obtain ⟨first, tail, henc, hfirst, hdec⟩ := decode_encode (abs - base) 3 0x00
        (pushString e.huffman value 8 0 ++ rest) (by omega)
      obtain ⟨h80, h40, h20, h10⟩ := bits_of_div8 first hfirst
      refine ⟨first, tail ++ pushString e.huffman value 8 0,
        by simp [code, hpost, encodeLiteralPostBaseNameRef, henc], ?_⟩
      simp [readLine, h80, h40, h20, h10, decFailed, hdec,
        getPostBase_eq hpost (by omega), hentry, hhist,
          readValueString_pushString e.huffman rest hv,
        orFail, needs, ref, pure, Except.pure, Nat.add_sub_cancel' hpost]
    · obtain ⟨first, tail, henc, hfirst, hdec⟩ := decode_encode (base - abs - 1) 4 0x40
        (pushString e.huffman value 8 0 ++ rest) (by omega)
      obtain ⟨h80, h40, h10⟩ := (bits_of_div16 first).2.1 hfirst
      refine ⟨first, tail ++ pushString e.huffman value 8 0,
        by simp [code, hpost, encodeLiteralWithNameRef, henc], ?_⟩
      simp [readLine, h80, h40, h10, decFailed, hdec,
        getBaseRelative_eq (not_le.1 hpost), hentry, hhist,
        readValueString_pushString e.huffman rest hv, orFail, needs, ref, pure,
        Except.pure]
      omega
  | literal sensitive name value =>
    obtain ⟨hn, hv⟩ : name.length < 2 ^ 62 ∧ value.length < 2 ^ 62 := hfits
    obtain ⟨first, tail, henc, hfirst, hdec⟩ := readString_pushString e.huffman name 4
      (0x20 ||| sensitiveBit sensitive) (pushString e.huffman value 8 0 ++ rest)
      (by cases sensitive <;> decide) hn
    obtain ⟨h80, h40, h20⟩ := (bits_of_div16 first).2.2.1
      (by rw [hfirst]; cases sensitive <;> decide)
    simp only [field, some.injEq] at hfield
    subst hfield
    refine ⟨first, tail ++ pushString e.huffman value 8 0, by simp [code, henc], ?_⟩
    simp [readLine, h80, h40, h20, decFailed, hdec,
      readValueString_pushString e.huffman rest hv, needs, ref, pure, Except.pure]

/-! ### Reading a section back -/

/-- The Required Insert Count of a section: one more than its largest reference. -/
def ricOf : List Line → ℕ
  | [] => 0
  | line :: lines => max line.needs (ricOf lines)

/-- The smallest of the references seen so far and one more. -/
def minStep (m : Option ℕ) (abs : ℕ) : Option ℕ :=
  some (match m with
    | none => abs
    | some m => min m abs)

/-- The smallest reference of a section, and `none` when it has none. -/
def minRefOf (lines : List Line) : Option ℕ := (lines.filterMap ref).foldl minStep none

/-- The lines of a section stand for its fields. -/
def Spell (history : List Field) (lines : List Line) (fields : List Field) : Prop :=
  List.Forall₂ (fun line f => line.field history = some f ∧ line.Fits) lines fields

theorem Spell.append_history {fields : List Field} (h : Spell history lines fields)
    (later : List Field) : Spell (history ++ later) lines fields :=
  h.imp fun _ _ hf => ⟨field_append hf.1 later, hf.2⟩

theorem ricOf_append (lines lines' : List Line) :
    ricOf (lines ++ lines') = max (ricOf lines) (ricOf lines') := by
  induction lines with
  | nil => simp [ricOf]
  | cons line lines ih => simp [ricOf, ih]

theorem lt_ricOf (h : abs ∈ lines.filterMap ref) : abs < ricOf lines := by
  obtain ⟨line, hline, href⟩ := mem_filterMap.1 h
  induction lines with
  | nil => simp at hline
  | cons l lines ih =>
    rw [ricOf]
    rcases mem_cons.1 hline with rfl | hmem
    · simp only [needs, href]
      omega
    · have := ih (mem_filterMap.2 ⟨line, hmem, href⟩) hmem
      omega

/-- A positive Required Insert Count comes from a reference. -/
theorem exists_ref_of_ricOf_pos (h : 0 < ricOf lines) :
    ∃ abs ∈ lines.filterMap ref, ricOf lines = abs + 1 := by
  induction lines with
  | nil => simp [ricOf] at h
  | cons line lines ih =>
    rw [ricOf] at h ⊢
    cases href : line.ref with
    | none =>
      simp only [needs, href] at h ⊢
      obtain ⟨abs, hmem, heq⟩ := ih h
      exact ⟨abs, by simpa [href] using hmem, heq⟩
    | some abs =>
      simp only [needs, href] at h ⊢
      by_cases hle : ricOf lines ≤ abs + 1
      · exact ⟨abs, by simp [href], by omega⟩
      · obtain ⟨abs', hmem, heq⟩ := ih (by omega)
        exact ⟨abs', by simpa using Or.inr hmem, by omega⟩

theorem foldl_minStep_le (refs : List ℕ) : ∀ {m : Option ℕ} {x : ℕ},
    refs.foldl minStep m = some x → (∀ abs ∈ refs, x ≤ abs) ∧ ∀ y, m = some y → x ≤ y := by
  induction refs with
  | nil =>
    rintro m x rfl
    simp
  | cons abs refs ih =>
    intro m x h
    obtain ⟨hrefs, hstep⟩ := ih h
    have hx := hstep _ rfl
    cases m with
    | none => simp_all
    | some y =>
      simp only at hx
      refine ⟨?_, ?_⟩
      · intro a ha
        rcases mem_cons.1 ha with rfl | ha
        · omega
        · exact hrefs a ha
      · rintro y' ⟨⟩
        omega

theorem isSome_foldl_minStep (refs : List ℕ) : ∀ m : Option ℕ, m.isSome →
    (refs.foldl minStep m).isSome := by
  induction refs with
  | nil => intro m h; exact h
  | cons abs refs ih => intro m _; exact ih _ rfl

theorem foldl_minStep_mem (refs : List ℕ) : ∀ {m : Option ℕ} {x : ℕ},
    refs.foldl minStep m = some x → x ∈ refs ∨ m = some x := by
  induction refs with
  | nil => intro m x h; exact .inr h
  | cons abs refs ih =>
    intro m x h
    rcases ih h with hmem | hstep
    · exact .inl (mem_cons_of_mem _ hmem)
    cases m with
    | none => simp_all [minStep]
    | some y =>
      simp only [minStep, some.injEq] at hstep
      rcases min_choice y abs with hmin | hmin
      · exact .inr (by rw [← hstep, hmin])
      · exact .inl (by simp [← hstep, hmin])

theorem minRefOf_mem {m : ℕ} (h : minRefOf lines = some m) : m ∈ lines.filterMap ref := by
  rcases foldl_minStep_mem _ h with hmem | hnone
  · exact hmem
  · cases hnone

/-- The smallest reference is below all others, and there is one if there is any. -/
theorem minRefOf_le {m : ℕ} (h : minRefOf lines = some m) (habs : abs ∈ lines.filterMap ref) :
    m ≤ abs :=
  (foldl_minStep_le _ h).1 abs habs

theorem exists_minRefOf (h : abs ∈ lines.filterMap ref) : ∃ m, minRefOf lines = some m := by
  unfold minRefOf
  cases hrefs : lines.filterMap ref with
  | nil => simp [hrefs] at h
  | cons a refs => exact Option.isSome_iff_exists.1 (isSome_foldl_minStep refs _ rfl)

/-- The decoder reads the lines of a section as the fields they stand for. -/
theorem readLines_code {e : Encoder} (hbase : base < 2 ^ 62) {fields : List Field}
    (hspell : Spell history lines fields) :
    ∀ (fuel : ℕ) (headers : List Field) (needed size : ℕ),
      (∀ abs ∈ lines.filterMap ref, t.getAbsolute abs = history[abs]? ∧ abs < 2 ^ 62) →
      headers.length + fields.length ≤ maxFieldsPerSection →
      (lines.flatMap (code e base)).length ≤ fuel →
      ∃ size', readLines t base none fuel (lines.flatMap (code e base)) headers needed
        size = .ok (headers ++ fields, max needed (ricOf lines), size') := by
  induction hspell with
  | nil =>
    intro fuel headers needed size _ _ _
    exact ⟨size, by cases fuel <;> simp [readLines, ricOf]⟩
  | @cons line f lines fields hline _ ih =>
    intro fuel headers needed size hget hcount hfuel
    rw [flatMap_cons] at hfuel ⊢
    obtain ⟨first, tail, hcode, hread⟩ := readLine_code
      (lines.flatMap (code e base)) hline.1 hline.2
      (fun abs habs => hget abs (by simp [habs])) hbase
    rw [hcode, cons_append] at hfuel ⊢
    rw [length_cons, length_append] at hfuel
    rw [length_cons] at hcount
    obtain ⟨fuel, rfl⟩ : ∃ n, fuel = n + 1 := ⟨fuel - 1, by omega⟩
    obtain ⟨size', hrest⟩ := ih fuel (headers ++ [f]) (max needed line.needs)
      (min (size + (f.name.length + f.value.length + fieldOverhead)) usizeMax)
      (fun abs habs => hget abs (by
        rw [filterMap_cons]
        cases line.ref <;> simp [habs]))
      (by rw [length_append, length_singleton]; omega) (by omega)
    refine ⟨size', ?_⟩
    rw [readLines, hread]
    simp only [any_none, Bool.false_eq_true, if_false]
    rw [if_neg (by omega), hrest, ricOf, ← max_assoc, append_assoc, singleton_append]

/-- The wrapped Required Insert Count is recovered within the window of the
decoder's insert count. -/
theorem unwrapRic_wrapRic {maxEntries inserted ric : ℕ}
    (h : ric = 0 ∨ (1 ≤ maxEntries ∧ 0 < ric ∧ inserted < ric + maxEntries ∧
      ric ≤ inserted + maxEntries)) :
    unwrapRic maxEntries inserted (wrapRic maxEntries ric) = .ok ric := by
  rcases h with rfl | ⟨hM, hpos, hlo, hhi⟩
  · simp [unwrapRic, wrapRic]
  rw [wrapRic, if_neg (by omega), unwrapRic, if_neg (by omega)]
  have hmod := Nat.mod_lt ric (show 2 * maxEntries > 0 by omega)
  simp only
  rw [if_neg (by omega)]
  set full := 2 * maxEntries with hfull
  -- both counts in units of the full range
  have hric := Nat.div_add_mod ric full
  have hcomm : (inserted + maxEntries) / full * full = full * ((inserted + maxEntries) / full) :=
    Nat.mul_comm _ _
  rw [hcomm]
  have hq : ric / full = (inserted + maxEntries) / full ∨
      ric / full + 1 = (inserted + maxEntries) / full := by
    have hle : ric / full ≤ (inserted + maxEntries) / full := Nat.div_le_div_right hhi
    have hge : (inserted + maxEntries) / full ≤ ric / full + 1 := by
      rw [← Nat.add_div_right ric (by omega : 0 < full)]
      exact Nat.div_le_div_right (by omega)
    omega
  rcases hq with hq | hq
  · rw [← hq, if_neg (by omega), if_neg (by omega)]
    exact congrArg ok (by omega)
  · have hstep : full * ((inserted + maxEntries) / full) = full * (ric / full) + full := by
      rw [← hq, Nat.mul_add, Nat.mul_one]
    rw [if_pos (by omega), if_neg (by omega), if_neg (by omega)]
    exact congrArg ok (by omega)

/-- The prefix after an encoded count and the first octet of the Base. -/
theorem readPrefix_encode (d : Decoder) {n : ℕ} (hn : n < 2 ^ 62) (header : UInt8) (buf : Octets) :
    d.readPrefix (encode n 8 0 ++ header :: buf) =
      (unwrapRic (d.maxCapacity / 32) d.dynamic.inserted n >>= fun ric =>
        decFailed (decode buf 7 header) >>= fun (delta, buf) =>
        if header &&& 0x80 ≠ 0 then
          if ric < delta + 1 then .error .decompressionFailed else .ok (ric, ric - (delta + 1), buf)
        else if ric + delta > u64Max then .error .decompressionFailed
        else .ok (ric, ric + delta, buf)) := by
  obtain ⟨first, tail, henc, -, hdec⟩ := decode_encode n 8 0 (header :: buf) hn
  rw [henc, cons_append, readPrefix, hdec]
  rfl

/-- The decoder reads back the Required Insert Count and the Base. -/
theorem readPrefix_encodePrefix {e : Encoder} {d : Decoder} (hcap : e.maxCapacity = d.maxCapacity)
    (hlt : d.maxCapacity < 2 ^ 62) {ric : ℕ} (hric : ric < 2 ^ 62) (hbase : base < 2 ^ 62)
    (hwindow : ric = 0 ∨
      (1 ≤ d.maxCapacity / 32 ∧ 0 < ric ∧ d.dynamic.inserted < ric + d.maxCapacity / 32 ∧
        ric ≤ d.dynamic.inserted + d.maxCapacity / 32))
    (rest : Octets) : d.readPrefix (e.encodePrefix ric base ++ rest) = .ok (ric, base, rest) := by
  have hwrap : wrapRic (d.maxCapacity / 32) ric < 2 ^ 62 := by
    unfold wrapRic
    split_ifs
    · norm_num
    · have := Nat.mod_lt ric (show 2 * (d.maxCapacity / 32) > 0 by omega)
      omega
  rw [encodePrefix, hcap, append_assoc]
  by_cases hsign : base ≥ ric
  · obtain ⟨first, tail, henc, hfirst, hdec⟩ := decode_encode (base - ric) 7 0 rest (by omega)
    have hflag : first &&& 0x80 = 0 := by
      rw [and_high_eq_zero_iff]
      simp at hfirst
      omega
    rw [if_pos hsign, henc, cons_append, readPrefix_encode d hwrap, unwrapRic_wrapRic hwindow]
    simp only [decFailed, hdec, mapError_ok, ok_bind, hflag, ne_eq, not_true_eq_false, if_false]
    rw [if_neg (by unfold u64Max; omega), Nat.add_sub_cancel' hsign]
  · obtain ⟨first, tail, henc, hfirst, hdec⟩ :=
      decode_encode (ric - base - 1) 7 0x80 rest (by omega)
    have hflag : ¬first &&& 0x80 = 0 := by
      rw [and_high_eq_zero_iff]
      simp at hfirst
      omega
    rw [if_neg hsign, henc, cons_append, readPrefix_encode d hwrap, unwrapRic_wrapRic hwindow]
    simp only [decFailed, hdec, mapError_ok, ok_bind, hflag, ne_eq, not_false_eq_true, if_true]
    rw [if_neg (by omega)]
    congr 3
    omega

/-- The counts around an insert count that a wrapped count can stand for. -/
def InWindow (maxEntries inserted ric : ℕ) : Prop :=
  0 < ric ∧ inserted < ric + maxEntries ∧ ric ≤ inserted + maxEntries

/-- What is recovered wraps to the encoded count and lies in the window. -/
theorem unwrapRic_cases {maxEntries inserted encRic : ℕ} (hM : 1 ≤ maxEntries) (hpos : 1 ≤ encRic)
    (hle : encRic ≤ 2 * maxEntries) :
    (∃ ric, unwrapRic maxEntries inserted encRic = .ok ric ∧
      ric % (2 * maxEntries) = encRic - 1 ∧ InWindow maxEntries inserted ric) ∨
    unwrapRic maxEntries inserted encRic = .error .decompressionFailed := by
  rw [unwrapRic, if_neg (by omega)]
  simp only
  rw [if_neg (by omega)]
  set full := 2 * maxEntries with hfull
  have hmax := Nat.div_add_mod (inserted + maxEntries) full
  have hmod := Nat.mod_lt (inserted + maxEntries) (show full > 0 by omega)
  rw [Nat.mul_comm ((inserted + maxEntries) / full) full]
  have hwrap : ∀ q, (full * q + encRic - 1) % full = encRic - 1 := fun q => by
    rw [Nat.add_sub_assoc hpos, Nat.mul_add_mod, Nat.mod_eq_of_lt (by omega)]
  split_ifs
  · exact .inr rfl
  · exact .inr rfl
  · refine .inl ⟨_, rfl, ?_, by unfold InWindow; omega⟩
    rw [← Nat.mod_eq_sub_mod (by omega), hwrap]
  · exact .inr rfl
  · exact .inl ⟨_, rfl, hwrap _, by unfold InWindow; omega⟩

/-- A section prefix is read back as it was written, for every Required Insert Count in
the window; and every encoded count is read as the one count of the window that wraps to
it, or rejected if there is none. -/
theorem readPrefix_recovers (e : Encoder) (d : Decoder) (hcap : e.maxCapacity = d.maxCapacity)
    (hmin : 1 ≤ d.maxCapacity / 32) (hmax : d.maxCapacity < 2 ^ 61)
    (hins : d.dynamic.inserted < 2 ^ 61) :
    (∀ ric base rest, ric < 2 ^ 61 → base < 2 ^ 61 →
      ric = 0 ∨ InWindow (d.maxCapacity / 32) d.dynamic.inserted ric →
      d.readPrefix (e.encodePrefix ric base ++ rest) = .ok (ric, base, rest)) ∧
    ∀ encRic rest, 1 ≤ encRic → encRic ≤ 2 * (d.maxCapacity / 32) →
      (∀ ric, ric % (2 * (d.maxCapacity / 32)) = encRic - 1 →
        InWindow (d.maxCapacity / 32) d.dynamic.inserted ric →
        d.readPrefix (Integer.encode encRic 8 0 ++ 0 :: rest) = .ok (ric, ric, rest)) ∧
      ((∀ ric, ric % (2 * (d.maxCapacity / 32)) = encRic - 1 →
        ¬InWindow (d.maxCapacity / 32) d.dynamic.inserted ric) →
        d.readPrefix (Integer.encode encRic 8 0 ++ 0 :: rest) = .error .decompressionFailed) := by
  refine ⟨fun ric base rest hric hbase hw => ?_, fun encRic rest hpos hle => ⟨?_, ?_⟩⟩
  · exact readPrefix_encodePrefix hcap (by omega) (by omega) (by omega)
      (hw.imp_right fun h => ⟨hmin, h⟩) rest
  · intro ric hmod hw
    have henc : Encoder.wrapRic (d.maxCapacity / 32) ric = encRic := by
      rw [Encoder.wrapRic, if_neg (by unfold InWindow at hw; omega)]
      omega
    rw [readPrefix_encode d (by omega), ← henc, unwrapRic_wrapRic (.inr ⟨hmin, hw⟩)]
    have hfit : ¬ric + 0 > u64Max := by
      unfold InWindow at hw
      unfold u64Max
      omega
    exact if_neg hfit
  · intro hnone
    rw [readPrefix_encode d (by omega)]
    rcases unwrapRic_cases hmin hpos hle with ⟨ric, -, hmod, hw⟩ | herr
    · exact absurd hw (hnone ric hmod)
    · rw [herr]
      rfl

theorem readPrefix_recovers_five :
    (Decoder.new 4096 16).readPrefix ((Encoder.new 4096 true).encodePrefix 5 3) =
      .ok (5, 3, []) := by
  have h := (readPrefix_recovers (.new 4096 true) (.new 4096 16) rfl (by decide) (by decide)
    (by decide)).1 5 3 [] (by decide) (by decide) (.inr (by unfold InWindow; decide))
  rwa [append_nil] at h

end ZincioHttp.H3.Qpack
