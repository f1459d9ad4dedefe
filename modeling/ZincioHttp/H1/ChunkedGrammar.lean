import ZincioHttp.H1.ReadBody

/-! The grammar of chunked bodies in HTTP/1.1: size lines with extensions, chunk
data, and a trailer section of field lines. -/

namespace ZincioHttp.H1

open Lib List

/-! ### Characters -/

def isTchar (b : UInt8) : Bool :=
  decide (b ∈ octets "!#$%&'*+-.^_|~" ∨ b = 0x60 ∨ (0x30 ≤ b ∧ b ≤ 0x39) ∨
    (0x41 ≤ b ∧ b ≤ 0x5a) ∨ (0x61 ≤ b ∧ b ≤ 0x7a))

/-- Visible characters, spaces, tabs and octets above ASCII. -/
def isFieldChar (b : UInt8) : Bool := decide (b = 0x09 ∨ (0x20 ≤ b ∧ b ≠ 0x7f))

def isQdtext (b : UInt8) : Bool := isFieldChar b && b != 0x22 && b != 0x5c

theorem cr_not_tchar : isTchar 0x0d = false := by decide +kernel

/-! ### Field sections -/

/-- `field-name ":" OWS field-value OWS`. -/
def isFieldLine (line : Octets) : Bool :=
  !(line.takeWhile isTchar).isEmpty &&
    match line.dropWhile isTchar with
    | 0x3a :: value => value.all isFieldChar
    | _ => false

/-- The field of a line, its name as `HeaderName` keeps it. -/
def fieldOf (line : Octets) : Octets × Octets :=
  ((line.takeWhile isTchar).map fun b => if isAsciiUppercase b then b + 0x20 else b,
    trimBoth isOws ((line.dropWhile isTchar).drop 1))

def sectionOctets (lines : List Octets) : Octets := lines.flatMap (· ++ crlf) ++ crlf

theorem sectionOctets_cons (line : Octets) (lines : List Octets) :
    sectionOctets (line :: lines) = line ++ crlf ++ sectionOctets lines := by
  simp [sectionOctets]

theorem two_le_sectionOctets (lines : List Octets) : 2 ≤ (sectionOctets lines).length := by
  rw [sectionOctets, length_append]
  exact Nat.le_add_left _ _

theorem ne_nil_of_isFieldLine {line : Octets} (h : isFieldLine line) : line ≠ [] := by
  rintro rfl
  exact absurd h (by decide)

theorem cr_not_mem_of_isFieldLine {line : Octets} (h : isFieldLine line) : 0x0d ∉ line := by
  rw [isFieldLine, Bool.and_eq_true] at h
  obtain ⟨-, hrest⟩ := h
  intro hmem
  rw [← takeWhile_append_dropWhile (l := line), mem_append] at hmem
  rcases hmem with hmem | hmem
  · have hall := List.all_eq_true.1 (all_takeWhile (p := isTchar)) _ hmem
    cases hall
  generalize line.dropWhile isTchar = rest at hrest hmem
  split at hrest
  · rcases List.mem_cons.1 hmem with hb | hb
    · cases hb
    · have hchar := List.all_eq_true.1 hrest _ hb
      cases hchar
  · cases hrest

/-- What is assumed of the parser of field sections: it parses every section of
at most so many lines and nothing else. -/
structure Httparse.Correct (http : Httparse) : Prop where
  parses : ∀ {count : ℕ} {lines : List Octets}, (∀ l ∈ lines, isFieldLine l) →
    lines.length ≤ count →
    http.parseHeaders count (sectionOctets lines) = .ok (some (lines.map fieldOf))
  only : ∀ {count : ℕ} {input : Octets} {fields : HeaderMap},
    http.parseHeaders count input = .ok (some fields) →
    ∃ lines, (∀ l ∈ lines, isFieldLine l) ∧ lines.length ≤ count ∧ input = sectionOctets lines

/-- The lines of a section; `line` is what was read of the first one, in
reverse. -/
def splitSection (line : Octets) : Octets → Option (List Octets)
  | [] => none
  | 0x0d :: 0x0a :: rest =>
    if line = [] then if rest = [] then some [] else none
    else (splitSection [] rest).map (line.reverse :: ·)
  | b :: rest => splitSection (b :: line) rest

theorem splitSection_append {text : Octets} (h : 0x0d ∉ text) (line rest : Octets) :
    splitSection line (text ++ rest) = splitSection (text.reverse ++ line) rest := by
  induction text generalizing line with
  | nil => rfl
  | cons b text ih =>
    rw [mem_cons, not_or] at h
    rw [cons_append, splitSection, ih h.2, reverse_cons, append_assoc]
    · rfl
    · rintro rest' rfl
      exact absurd rfl h.1

theorem splitSection_sectionOctets {lines : List Octets} (h : ∀ l ∈ lines, isFieldLine l) :
    splitSection [] (sectionOctets lines) = some lines := by
  induction lines with
  | nil => rfl
  | cons line lines ih =>
    have hline := h line mem_cons_self
    have hrest := ih fun l hl => h l (mem_cons_of_mem _ hl)
    rw [sectionOctets_cons, append_assoc, splitSection_append (cr_not_mem_of_isFieldLine hline),
      append_nil]
    show splitSection line.reverse (0x0d :: 0x0a :: sectionOctets lines) = _
    rw [splitSection, if_neg (by simpa using ne_nil_of_isFieldLine hline), hrest]
    simp

theorem sectionOctets_of_splitSection {line input : Octets} {lines : List Octets}
    (h : splitSection line input = some lines) : line.reverse ++ input = sectionOctets lines := by
  induction line, input using splitSection.induct generalizing lines with
  | case1 line => simp [splitSection] at h
  | case2 =>
    cases h
    rfl
  | case3 rest hrest =>
    rw [splitSection, if_neg hrest] at h
    cases h
  | case4 line rest hline ih =>
    rw [splitSection, if_neg hline, Option.map_eq_some_iff] at h
    obtain ⟨later, hlater, rfl⟩ := h
    rw [sectionOctets_cons, ← ih hlater]
    simp [crlf]
  | case5 line b rest hb ih =>
    rw [splitSection] at h
    · rw [← ih h]
      simp
    · exact hb

def Httparse.reference : Httparse where
  parseHeaders count input :=
    match splitSection [] input with
    | none => .ok none
    | some lines =>
      if lines.all isFieldLine ∧ lines.length ≤ count then .ok (some (lines.map fieldOf))
      else .error ⟨.invalidInput, "invalid header or too many headers"⟩

theorem Httparse.reference_correct : Httparse.reference.Correct where
  parses {count lines} hlines hcount := by
    simp only [reference]
    rw [splitSection_sectionOctets hlines]
    exact if_pos ⟨List.all_eq_true.2 hlines, hcount⟩
  only {count input fields} h := by
    simp only [reference] at h
    cases hs : splitSection [] input with
    | none => simp [hs] at h
    | some lines =>
      rw [hs] at h
      dsimp only at h
      split_ifs at h with hok
      exact ⟨lines, List.all_eq_true.1 hok.1, hok.2, sectionOctets_of_splitSection hs⟩

/-! ### Chunk extensions -/

def Token (t : Octets) : Prop := t ≠ [] ∧ ∀ b ∈ t, isTchar b

def Blank (t : Octets) : Prop := ∀ b ∈ t, isOws b

inductive QuotedText : Octets → Prop
  | nil : QuotedText []
  | text {b : UInt8} {rest : Octets} (hb : isQdtext b) (h : QuotedText rest) :
    QuotedText (b :: rest)
  | pair {b : UInt8} {rest : Octets} (hb : isFieldChar b) (h : QuotedText rest) :
    QuotedText (0x5c :: b :: rest)

inductive ExtensionValue : Octets → Prop
  | token {t : Octets} (h : Token t) : ExtensionValue t
  | quoted {t : Octets} (h : QuotedText t) : ExtensionValue (0x22 :: (t ++ [0x22]))

/-- `*( BWS ";" BWS chunk-ext-name [ BWS "=" BWS chunk-ext-val ] )`. -/
inductive ChunkExt : Octets → Prop
  | nil : ChunkExt []
  | name {w w' n rest : Octets} (hw : Blank w) (hw' : Blank w') (hn : Token n)
    (h : ChunkExt rest) : ChunkExt (w ++ 0x3b :: (w' ++ n ++ rest))
  | value {w w' n u u' v rest : Octets} (hw : Blank w) (hw' : Blank w') (hn : Token n)
    (hu : Blank u) (hu' : Blank u') (hv : ExtensionValue v) (h : ChunkExt rest) :
    ChunkExt (w ++ 0x3b :: (w' ++ n ++ (u ++ 0x3d :: (u' ++ v ++ rest))))

variable {t : Octets}

theorem Token.cr_not_mem (h : Token t) : 0x0d ∉ t := fun hm => by
  have := h.2 _ hm
  rw [cr_not_tchar] at this
  cases this

theorem Blank.cr_not_mem (h : Blank t) : 0x0d ∉ t := fun hm => by
  have := h _ hm
  exact absurd this (by decide)

theorem QuotedText.cr_not_mem (h : QuotedText t) : 0x0d ∉ t := by
  induction h with
  | nil => exact not_mem_nil
  | text hb _ ih =>
    rw [mem_cons, not_or]
    refine ⟨?_, ih⟩
    rintro rfl
    exact absurd hb (by decide)
  | pair hb _ ih =>
    rw [mem_cons, mem_cons, not_or, not_or]
    refine ⟨by decide, ?_, ih⟩
    rintro rfl
    exact absurd hb (by decide)

theorem ExtensionValue.cr_not_mem (h : ExtensionValue t) : 0x0d ∉ t := by
  cases h with
  | token h => exact h.cr_not_mem
  | quoted h => simpa using h.cr_not_mem

theorem ChunkExt.cr_not_mem (h : ChunkExt t) : 0x0d ∉ t := by
  induction h with
  | nil => exact not_mem_nil
  | name hw hw' hn _ ih => simp [hw.cr_not_mem, hw'.cr_not_mem, hn.cr_not_mem, ih]
  | value hw hw' hn hu hu' hv _ ih =>
    simp [hw.cr_not_mem, hw'.cr_not_mem, hn.cr_not_mem, hu.cr_not_mem, hu'.cr_not_mem,
      hv.cr_not_mem, ih]

theorem Blank.append_semicolon {w : Octets} (hw : Blank w) (rest : Octets) :
    ∃ b t, w ++ 0x3b :: rest = b :: t ∧ hexDigit b = none := by
  cases w with
  | nil => exact ⟨0x3b, rest, rfl, by decide⟩
  | cons b w =>
    refine ⟨b, w ++ 0x3b :: rest, rfl, ?_⟩
    have hb := hw b mem_cons_self
    simp only [isOws, decide_eq_true_eq] at hb
    rcases hb with rfl | rfl <;> decide

/-- An extension does not continue the digits before it. -/
theorem ChunkExt.head_not_hex (h : ChunkExt t) (hne : t ≠ []) :
    ∃ b rest, t = b :: rest ∧ hexDigit b = none := by
  cases h with
  | nil => exact absurd rfl hne
  | name hw _ _ _ | value hw _ _ _ _ _ _ => exact hw.append_semicolon _

/-! ### Bodies -/

/-- `chunk-size [ chunk-ext ] CRLF chunk-data CRLF`, with a size line that fits
the limit of the reader. -/
structure Chunk where
  size : Octets
  ext : Octets
  data : Octets
  size_ne : size ≠ []
  size_hex : ∀ b ∈ size, (hexDigit b).isSome
  size_value : digitsValue hexDigit 16 size = data.length
  ext_ok : ChunkExt ext
  data_ne : data ≠ []
  fits : size.length + ext.length + 2 ≤ sizeLineLimit

def Chunk.encode (c : Chunk) : Octets := c.size ++ c.ext ++ crlf ++ (c.data ++ crlf)

/-- `*chunk last-chunk trailer-section CRLF`. -/
structure ChunkedBody where
  chunks : List Chunk
  lastSize : Octets
  lastExt : Octets
  trailers : List Octets
  last_ne : lastSize ≠ []
  last_zero : ∀ b ∈ lastSize, b = 0x30
  lastExt_ok : ChunkExt lastExt
  last_fits : lastSize.length + lastExt.length + 2 ≤ sizeLineLimit
  trailers_ok : ∀ l ∈ trailers, isFieldLine l

namespace ChunkedBody

def encode (b : ChunkedBody) : Octets :=
  b.chunks.flatMap Chunk.encode ++ (b.lastSize ++ b.lastExt ++ crlf ++ sectionOctets b.trailers)

def payloads (b : ChunkedBody) : List Octets := b.chunks.map Chunk.data

/-- A trailer section of the body is within the limit for header sections. -/
def Fits (opts : Http1Options) (b : ChunkedBody) : Prop :=
  b.trailers ≠ [] → (sectionOctets b.trailers).length ≤ opts.maxHeaderSize

end ChunkedBody

/-- The input begins with a chunked body within the limits. -/
def BeginsWithBody (opts : Http1Options) (input : Octets) : Prop :=
  ∃ (b : ChunkedBody) (rest : Octets), b.Fits opts ∧ input = b.encode ++ rest

end ZincioHttp.H1
