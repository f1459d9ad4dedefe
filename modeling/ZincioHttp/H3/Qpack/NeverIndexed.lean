import ZincioHttp.H3.Qpack.Line

/-! Which field lines forbid intermediaries to index them. The N bit of a literal line
stands above its T bit where the name is a reference and in the T bit's place where it is
spelled out. `encode_literal` sets the same bit for both, so that a sensitive field whose
name is in the static table goes out with N clear. -/

namespace ZincioHttp.H3.Qpack

open ZincioHttp.Hpack List

/-- The N bit of a literal field line (RFC 9204 sections 4.5.4 to 4.5.6), by its first
octet. -/
def nBit (first : UInt8) : Option UInt8 :=
  if first &&& 0xc0 = 0x40 then some 0x20
  else if first &&& 0xe0 = 0x20 then some 0x10
  else if first &&& 0xf0 = 0 then some 0x08
  else none

/-- Whether the octet starts a literal field line with N set. -/
def nSet (first : UInt8) : Bool := (nBit first).elim false fun bit => first &&& bit ≠ 0

/-- The bits above the prefix of an integer tell whether it starts a marked line. -/
theorem nSet_encode {n bits : ℕ} {header : UInt8} {rest : Octets} {marked : Bool}
    (h : ∀ b : UInt8, b.toNat / 2 ^ bits = header.toNat / 2 ^ bits → nSet b = marked)
    (hp : 1 ≤ bits ∧ bits ≤ 8 := by omega) :
    ∃ first tail, Integer.encode n bits header ++ rest = first :: tail ∧ nSet first = marked := by
  obtain ⟨first, tail, henc, hfirst, -⟩ := Integer.encode_cases n bits header
  exact ⟨first, tail ++ rest, by rw [henc, cons_append], h first hfirst⟩

namespace Line

/-- Of the lines the encoder writes only one with a literal name can be marked. -/
theorem code_nSet (e : Encoder) (base : ℕ) (line : Line) :
    ∃ first tail, line.code e base = first :: tail ∧ nSet first = line.sensitive := by
  cases line with
  | indexedStatic index =>
    simp only [code, sensitive]
    rw [← append_nil (Integer.encode _ _ _)]
    exact nSet_encode (by decide +kernel)
  | indexedDynamic abs =>
    simp only [code, sensitive, encodeIndexed]
    rw [← append_nil (ite _ _ _)]
    split_ifs
    all_goals exact nSet_encode (by decide +kernel)
  | literalStaticName index value =>
    simp only [sensitive]
    exact nSet_encode (by decide +kernel)
  | literalDynamicName abs value =>
    simp only [code, sensitive]
    split_ifs
    all_goals exact nSet_encode (by decide +kernel)
  | literal secret name value =>
    simp only [code, sensitive, pushString, append_assoc]
    refine nSet_encode ?_
    cases secret <;> cases (stringForm e.huffman name).1 <;> decide +kernel

end Line

/-- The line written for a field. A sensitive field is marked unless its name is in the
static table. -/
theorem encodeField_line (e : Encoder) (base : ℕ) (s : Section) (f : Field) :
    ∃ line : Line, (e.encodeField base s f).block = s.block ++ line.code e base ∧
      line.sensitive =
        (decide (f.name ∈ neverIndexed) && (StaticTable.findName f.name).isNone) := by
  obtain ⟨line, hw⟩ := encodeField_writes e base s f
  refine ⟨line, ?_⟩
  generalize e.encodeField base s f = s' at hw ⊢
  cases hw with
  | plain _ _ _ hmark => exact ⟨rfl, hmark⟩
  | indexed hnever | named hnever => exact ⟨rfl, by simp [hnever, Line.sensitive]⟩
  | inserted hnever =>
    refine ⟨?_, by simp [hnever, Line.sensitive]⟩
    rw [Encoder.insertField]
    split_ifs
    · exact congrArg (s.block ++ encodeIndexed · base) (DynamicTable.inserted_setCapacity _ _)
    · rfl

/-- A field is encoded as a literal line with N set, without a trace in the table or on the
encoder stream, if it is sensitive, and otherwise with N clear. -/
def Marks (e : Encoder) (base : ℕ) (s : Section) (f : Field) : Prop :=
  let s' := e.encodeField base s f
  (∃ first tail, s'.block = s.block ++ first :: tail ∧
    nSet first = decide (f.name ∈ neverIndexed)) ∧
  (f.name ∈ neverIndexed → s'.dynamic = s.dynamic ∧ s'.encoderStream = s.encoderStream)

theorem marks_iff (e : Encoder) (base : ℕ) (s : Section) (f : Field) :
    Marks e base s f ↔ f.name ≠ octets "authorization" ∧ f.name ≠ octets "cookie" := by
  obtain ⟨line, hblock, hmark⟩ := encodeField_line e base s f
  obtain ⟨first, tail, hcode, hfirst⟩ := line.code_nSet e base
  have hnames : (decide (f.name ∈ neverIndexed) && (StaticTable.findName f.name).isNone) =
      decide (f.name ∈ neverIndexed) ↔
        f.name ≠ octets "authorization" ∧ f.name ≠ octets "cookie" := by
    by_cases hnever : f.name ∈ neverIndexed
    · simp only [neverIndexed, mem_cons, not_mem_nil, or_false] at hnever
      rcases hnever with hname | hname | hname <;> rw [hname] <;> decide +kernel
    simp only [hnever, decide_false, Bool.false_and, true_iff]
    constructor
    all_goals
      intro hname
      exact hnever (by rw [hname]; decide)
  rw [← hnames, ← hmark, ← hfirst]
  constructor
  · rintro ⟨⟨first', tail', hblock', hfirst'⟩, -⟩
    rw [hblock, hcode] at hblock'
    cases append_cancel_left hblock'
    exact hfirst'
  · intro h
    refine ⟨⟨first, tail, by rw [hblock, hcode], h⟩, fun hnever => ?_⟩
    rw [Encoder.encodeField, if_pos hnever]
    exact ⟨rfl, rfl⟩

/-- The fields of a section are all encoded that way if and only if there is no
`authorization` and no `cookie` among them. -/
theorem marks_section_iff (e : Encoder) (headers : List Field) (base : ℕ) :
    (∀ before f after, headers = before ++ f :: after →
      Marks e base (before.foldl (e.encodeField base) ⟨e.dynamic, [], [], none, 0⟩) f) ↔
    ∀ f ∈ headers, f.name ≠ octets "authorization" ∧ f.name ≠ octets "cookie" := by
  constructor
  · intro h f hf
    obtain ⟨before, after, rfl⟩ := List.append_of_mem hf
    exact (marks_iff e base _ f).1 (h before f after rfl)
  · rintro h before f after rfl
    exact (marks_iff e base _ f).2 (h f (by simp))

theorem cookie_unmarked :
    ((Encoder.new 0 false).encodeSection 0 [⟨octets "cookie", octets "a=1"⟩]).2.block =
      [0x00, 0x00, 0x55, 0x03, 0x61, 0x3d, 0x31] ∧ nBit 0x55 = some 0x20 ∧ nSet 0x55 = false := by
  decide +kernel

end ZincioHttp.H3.Qpack
