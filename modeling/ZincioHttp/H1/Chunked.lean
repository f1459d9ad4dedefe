import ZincioHttp.H1.BodyLoops
import ZincioHttp.H1.ChunkedGrammar

/-! What the chunked reader accepts, compared with the grammar. Of the bodies of
the grammar it reads those without extensions whose trailer section is there if
and only if it was announced. What it accepts beyond the grammar are sizes with
a plus sign, any two octets after the data of a chunk, and any two octets or an
empty trailer section after the last one. -/

namespace ZincioHttp.H1

open Lib List Option Interim


/-! ### Size lines -/

theorem append_crlf_inj {t t' u u' : Octets} (h : 0x0d ∉ t) (h' : 0x0d ∉ t')
    (heq : t ++ crlf ++ u = t' ++ crlf ++ u') : t = t' ∧ u = u' := by
  have hlen : t.length = t'.length := by
    have h₁ := find_append_of_not_mem (w := [0x0a]) u h
    have h₂ := find_append_of_not_mem (w := [0x0a]) u' h'
    rw [show t ++ [0x0d, 0x0a] ++ u = t' ++ [0x0d, 0x0a] ++ u' from heq, h₂] at h₁
    exact (some.inj h₁).symm
  rw [append_assoc, append_assoc] at heq
  obtain ⟨rfl, hu⟩ := append_inj heq hlen
  exact ⟨rfl, append_cancel_left hu⟩

/-- A size line of the grammar: digits and an extension. -/
structure SizeLine (size ext : Octets) : Prop where
  size_ne : size ≠ []
  size_hex : ∀ b ∈ size, (hexDigit b).isSome
  ext_ok : ChunkExt ext

variable {wt : Bool} {rest left input : Octets} {ds lines : List Octets} {opts : Http1Options}

namespace SizeLine

variable {size ext : Octets}

theorem cr_not_mem (h : SizeLine size ext) : 0x0d ∉ size ++ ext := by
  rw [mem_append, not_or]
  exact ⟨fun hm => absurd (h.size_hex _ hm) (by decide), h.ext_ok.cr_not_mem⟩

/-- The reader takes it for a number only without an extension. -/
theorem plain (h : SizeLine size ext) {n : ℕ} (htext : SizeText (size ++ ext) n) :
    ext = [] ∧ digitsValue hexDigit 16 size = n := by
  have hext : ext = [] := by
    by_contra hne
    obtain ⟨b, rest, rfl, hb⟩ := h.ext_ok.head_not_hex hne
    have hmem : b ∈ skipPlus (size ++ b :: rest) := by
      obtain ⟨d, ds, rfl⟩ := exists_cons_of_ne_nil h.size_ne
      have hplus : d ≠ 0x2b := by
        rintro rfl
        exact absurd (h.size_hex 0x2b mem_cons_self) (by decide)
      unfold skipPlus
      split
      · rename_i heq
        exact absurd (cons.inj heq).1 hplus
      · simp
    have := htext.digits_hex b hmem
    rw [hb] at this
    cases this
  rw [hext, append_nil] at htext
  have hvalue := htext.value
  rw [skipPlus_of_hex h.size_hex] at hvalue
  exact ⟨hext, hvalue⟩

/-- What the reader takes for a chunk that begins with it. -/
theorem takes (h : SizeLine size ext) {more d next : Octets}
    (hv : chunkVerdict wt (size ++ ext ++ crlf ++ more) = some (.ok (d, next))) :
    ext = [] ∧ digitsValue hexDigit 16 size = d.length ∧ ((d = [] ∧ wt = true ∧ more = next) ∨
        (¬(d = [] ∧ wt = true) ∧ d.length + 2 ≤ usizeMax ∧
          ∃ gap, gap.length = 2 ∧ more = d ++ gap ++ next)) := by
  obtain ⟨text, htext, -, ⟨hd, hwt, heq⟩ | ⟨hd, hbig, gap, hgap, heq⟩⟩ :=
    chunkVerdict_eq_ok_iff.1 hv
  all_goals
    obtain ⟨rfl, rfl⟩ := append_crlf_inj h.cr_not_mem htext.cr_not_mem heq
    obtain ⟨hext, hvalue⟩ := h.plain htext
  · exact ⟨hext, hvalue, .inl ⟨hd, hwt, rfl⟩⟩
  · exact ⟨hext, hvalue, .inr ⟨hd, hbig, gap, hgap, rfl⟩⟩

end SizeLine

theorem Chunk.sizeLine (c : Chunk) : SizeLine c.size c.ext := ⟨c.size_ne, c.size_hex, c.ext_ok⟩

namespace ChunkedBody

theorem lastLine (b : ChunkedBody) : SizeLine b.lastSize b.lastExt := by
  refine ⟨b.last_ne, fun d hd => ?_, b.lastExt_ok⟩
  rw [b.last_zero d hd]
  decide

theorem lastSize_value (b : ChunkedBody) : digitsValue hexDigit 16 b.lastSize = 0 := by
  refine numeral_of_zeros 16 fun d hd => ?_
  obtain ⟨c, hc, hdigit⟩ := mem_filterMap.1 hd
  rw [b.last_zero c hc] at hdigit
  exact (some.inj hdigit).symm

theorem encode_append (b : ChunkedBody) (rest : Octets) : b.encode ++ rest =
    b.chunks.flatMap Chunk.encode ++
      (b.lastSize ++ b.lastExt ++ crlf ++ (sectionOctets b.trailers ++ rest)) := by
  simp [encode]

end ChunkedBody

/-! ### Chunks -/

/-- The chunks of the grammar that the reader takes for what they are. -/
structure Chunk.Plain (c : Chunk) : Prop where
  ext_nil : c.ext = []
  length_le : c.data.length + 2 ≤ usizeMax

namespace Chunk

theorem encode_append (c : Chunk) (rest : Octets) :
    c.encode ++ rest = c.size ++ c.ext ++ crlf ++ (c.data ++ crlf ++ rest) := by
  simp [encode]

/-- In front of a chunk of the grammar the reader takes that chunk or nothing. -/
theorem chunks_iff (c : Chunk) : Chunks wt (c.encode ++ rest) ds left ↔
      c.Plain ∧ ∃ ds', ds = c.data :: ds' ∧ Chunks wt rest ds' left := by
  have htake : ∀ {d next : Octets}, chunkVerdict wt (c.encode ++ rest) = some (.ok (d, next)) →
      c.Plain ∧ d = c.data ∧ next = rest := by
    intro d next h
    rw [encode_append] at h
    obtain ⟨hext, hvalue, ⟨rfl, -, -⟩ | ⟨-, hbig, gap, hgap, heq⟩⟩ := c.sizeLine.takes h
    · rw [c.size_value] at hvalue
      exact absurd (eq_nil_of_length_eq_zero hvalue) c.data_ne
    · rw [c.size_value] at hvalue
      rw [append_assoc, append_assoc] at heq
      obtain ⟨rfl, hgapeq⟩ := append_inj heq hvalue
      exact ⟨⟨hext, hbig⟩, rfl, ((append_inj hgapeq (by simp [hgap, crlf])).2).symm⟩
  constructor
  · intro h
    cases h with
    | last h => exact absurd (htake h).2.1.symm c.data_ne
    | chunk hd h hnext =>
      obtain ⟨hplain, rfl, rfl⟩ := htake h
      exact ⟨hplain, _, rfl, hnext⟩
  · rintro ⟨hplain, ds', rfl, hnext⟩
    refine .chunk c.data_ne
      (chunkVerdict_eq_ok_iff.2 ⟨c.size, ?_, ?_, Or.inr ⟨?_, ?_, crlf, rfl, ?_⟩⟩) hnext
    · refine SizeText.of_hex c.size_ne c.size_hex c.size_value ?_
      have := hplain.length_le
      rw [usizeMax] at this
      omega
    · have := c.fits
      omega
    · exact fun h => c.data_ne h.1
    · exact hplain.length_le
    · rw [encode_append, hplain.ext_nil, append_nil]

end Chunk

theorem chunks_flatMap_iff (cs : List Chunk) : Chunks wt (cs.flatMap Chunk.encode ++ rest) ds left ↔
      (∀ c ∈ cs, c.Plain) ∧ ∃ ds', ds = cs.map Chunk.data ++ ds' ∧ Chunks wt rest ds' left := by
  induction cs generalizing ds with
  | nil => simp
  | cons c cs ih =>
    rw [flatMap_cons, append_assoc, c.chunks_iff]
    constructor
    · rintro ⟨hc, ds', rfl, hnext⟩
      obtain ⟨hcs, ds'', rfl, hlast⟩ := ih.1 hnext
      exact ⟨forall_mem_cons.2 ⟨hc, hcs⟩, ds'', rfl, hlast⟩
    · rintro ⟨hall, ds', rfl, hlast⟩
      obtain ⟨hc, hcs⟩ := forall_mem_cons.1 hall
      exact ⟨hc, _, rfl, ih.2 ⟨hcs, ds', rfl, hlast⟩⟩

/-! ### The last chunk and the trailers -/

theorem chunks_last_iff (b : ChunkedBody) :
    Chunks wt (b.lastSize ++ b.lastExt ++ crlf ++ rest) ds left ↔ b.lastExt = [] ∧ ds = [] ∧
        if wt then rest = left else ∃ gap, gap.length = 2 ∧ rest = gap ++ left := by
  have htake : ∀ {d next : Octets},
      chunkVerdict wt (b.lastSize ++ b.lastExt ++ crlf ++ rest) = some (.ok (d, next)) →
      b.lastExt = [] ∧ d = [] ∧
        if wt then rest = next else ∃ gap, gap.length = 2 ∧ rest = gap ++ next := by
    intro d next h
    obtain ⟨hext, hvalue, hcases⟩ := b.lastLine.takes h
    rw [b.lastSize_value] at hvalue
    obtain rfl := eq_nil_of_length_eq_zero hvalue.symm
    refine ⟨hext, rfl, ?_⟩
    rcases hcases with ⟨-, hwt, heq⟩ | ⟨hz, -, gap, hgap, heq⟩
    · rw [if_pos hwt]
      exact heq
    · rw [if_neg fun hwt => hz ⟨rfl, hwt⟩]
      exact ⟨gap, hgap, heq⟩
  constructor
  · intro h
    cases h with
    | last h =>
      obtain ⟨hext, -, hrest⟩ := htake h
      exact ⟨hext, rfl, hrest⟩
    | chunk hd h _ => exact absurd (htake h).2.1 hd
  · rintro ⟨hext, rfl, hrest⟩
    rw [hext, append_nil]
    refine .last (chunkVerdict_eq_ok_iff.2 ⟨b.lastSize, ?_, ?_, ?_⟩)
    · exact .of_hex b.last_ne b.lastLine.size_hex b.lastSize_value (by decide)
    · have := b.last_fits
      omega
    · cases wt with
      | true =>
        exact .inl ⟨rfl, rfl, by rw [hrest]⟩
      | false =>
        obtain ⟨gap, hgap, rfl⟩ := hrest
        exact .inr ⟨by simp, by decide, gap, hgap, by simp⟩

theorem four_le_sectionOctets (hne : lines ≠ []) : 4 ≤ (sectionOctets lines).length := by
  obtain ⟨line, lines, rfl⟩ := exists_cons_of_ne_nil hne
  have h₁ := two_le_sectionOctets lines
  have h₂ : crlf.length = 2 := rfl
  rw [sectionOctets_cons, length_append, length_append]
  omega

/-- A trailer section ends where its first empty line ends. -/
theorem find_sectionOctets (hne : lines ≠ []) (hlines : ∀ l ∈ lines, isFieldLine l)
    (rest : Octets) :
    find (crlf ++ crlf) (sectionOctets lines ++ rest) =
      some ((sectionOctets lines).length - 4) := by
  induction lines with
  | nil => exact absurd rfl hne
  | cons line lines ih =>
    have hline := hlines line mem_cons_self
    have hcr := cr_not_mem_of_isFieldLine hline
    cases lines with
    | nil =>
      have hfind := find_append_of_not_mem (w := [0x0a, 0x0d, 0x0a]) rest hcr
      rw [show sectionOctets [line] = line ++ (crlf ++ crlf) by simp [sectionOctets]]
      rw [show (line ++ (crlf ++ crlf)).length - 4 = line.length by simp [crlf]]
      exact hfind
    | cons next lines =>
      have hnext := hlines next (by simp)
      obtain ⟨c, cs, hc⟩ := exists_cons_of_ne_nil (ne_nil_of_isFieldLine hnext)
      have hc13 : c ≠ 0x0d := by
        rintro rfl
        exact cr_not_mem_of_isFieldLine hnext (by rw [hc]; exact mem_cons_self)
      rw [sectionOctets_cons, append_assoc (line ++ crlf)]
      rw [find_append_of_forall_not, ih (cons_ne_nil _ _)
        fun l hl => hlines l (mem_cons_of_mem _ hl)]
      · have := two_le_sectionOctets lines
        rw [sectionOctets_cons]
        simp only [map_some, length_append, hc, length_cons, crlf, length_nil, some.injEq]
        omega
      · -- an empty line would begin in the line, or in its end
        intro j hj hp
        rw [length_append] at hj
        by_cases hjl : j < line.length
        · rw [append_assoc, drop_append_of_le_length hjl.le] at hp
          obtain ⟨y, ys, hy⟩ : ∃ y ys, line.drop j = y :: ys :=
            exists_cons_of_length_pos (by rw [length_drop]; omega)
          rw [hy] at hp
          have hy13 := (cons_prefix_cons.1 hp).1
          refine hcr ?_
          rw [hy13]
          exact mem_of_mem_drop (hy ▸ mem_cons_self)
        · rw [append_assoc] at hp
          rw [sectionOctets_cons, hc] at hp
          obtain rfl | rfl : j = line.length ∨ j = line.length + 1 := by
            simp only [crlf, length_cons, length_nil] at hj
            omega
          · rw [drop_left' rfl] at hp
            simp only [crlf, cons_append, nil_append, cons_prefix_cons] at hp
            exact hc13 hp.2.2.1.symm
          · rw [← drop_drop, drop_left' rfl] at hp
            simp only [crlf, cons_append, nil_append, drop_succ_cons,
              drop_zero, cons_prefix_cons] at hp
            exact absurd hp.1 (by decide)

theorem crlf_not_prefix_section (hne : lines ≠ []) (hlines : ∀ l ∈ lines, isFieldLine l)
    (rest : Octets) : ¬crlf <+: sectionOctets lines ++ rest := by
  obtain ⟨line, lines, rfl⟩ := exists_cons_of_ne_nil hne
  have hline := hlines line mem_cons_self
  obtain ⟨c, cs, rfl⟩ := exists_cons_of_ne_nil (ne_nil_of_isFieldLine hline)
  intro hp
  rw [sectionOctets_cons] at hp
  simp only [crlf, cons_append, cons_prefix_cons] at hp
  exact cr_not_mem_of_isFieldLine hline (hp.1 ▸ mem_cons_self)

section
variable {http : Httparse} {opts : Http1Options}

/-- What the reader takes for a trailer section: nothing before an empty line,
which it leaves, or a section within the limits. -/
theorem trailersVerdict_eq_ok_iff (hhttp : http.Correct) :
    (∃ fields, trailersVerdict http opts input = some (.ok (fields, left))) ↔
      (crlf <+: input.take opts.maxHeaderSize ∧ input = left) ∨
        ∃ lines, lines ≠ [] ∧ (∀ l ∈ lines, isFieldLine l) ∧ lines.length ≤ opts.maxHeaderCount ∧
          (sectionOctets lines).length ≤ opts.maxHeaderSize ∧
          input = sectionOctets lines ++ left := by
  constructor
  · rintro ⟨fields, h⟩
    rw [trailersVerdict, trailerVerdict] at h
    by_cases hs : crlf <+: input.take opts.maxHeaderSize
    · simp only [if_pos hs, some.injEq, Except.ok.injEq, Prod.mk.injEq] at h
      exact .inl ⟨hs, h.2⟩
    rw [if_neg hs] at h
    cases hf : find (crlf ++ crlf) (input.take opts.maxHeaderSize) with
    | none =>
      rw [hf] at h
      split_ifs at h
      · cases h
    | some index =>
      obtain ⟨hall, hmax⟩ := (find_take_eq_some_iff crlfcrlf_ne_nil).1 hf
      have hle := find_lt_of_some hall
      have hfour : (crlf ++ crlf).length = 4 := rfl
      rw [hf] at h
      rcases hp : http.parseHeaders opts.maxHeaderCount (input.take (index + 4)) with _ | _ | fs
      · simp [hp] at h
      · simp [hp] at h
      simp only [hp, some.injEq, Except.ok.injEq, Prod.mk.injEq] at h
      obtain ⟨lines, hlines, hcount, hsec⟩ := hhttp.only hp
      have hlen : (sectionOctets lines).length = index + 4 := by
        rw [← hsec, length_take_of_le (by omega)]
      refine Or.inr ⟨lines, ?_, hlines, hcount, by omega, ?_⟩
      · rintro rfl
        have hnil : (sectionOctets []).length = 2 := rfl
        omega
      · rw [← hsec, ← h.2, take_append_drop]
  · rintro (⟨hs, rfl⟩ | ⟨lines, hne, hlines, hcount, hsize, rfl⟩)
    · exact ⟨none, by rw [trailersVerdict, trailerVerdict, if_pos hs]⟩
    · have hfour := four_le_sectionOctets hne
      have hs : ¬crlf <+: (sectionOctets lines ++ left).take opts.maxHeaderSize := fun h =>
        crlf_not_prefix_section hne hlines left (h.trans <| take_prefix _ _)
      have hf : find (crlf ++ crlf) ((sectionOctets lines ++ left).take opts.maxHeaderSize) =
          some ((sectionOctets lines).length - 4) := by
        refine (find_take_eq_some_iff crlfcrlf_ne_nil).2 ⟨find_sectionOctets hne hlines left, ?_⟩
        have : (crlf ++ crlf).length = 4 := rfl
        omega
      refine ⟨some (lines.map fieldOf), ?_⟩
      rw [trailersVerdict, trailerVerdict, if_neg hs, hf]
      dsimp only
      rw [Nat.sub_add_cancel hfour, take_left' rfl, hhttp.parses hlines hcount, drop_left' rfl]

/-! ### Bodies of the grammar -/

/-- The bodies of the grammar that the reader reads as the grammar says. -/
structure ChunkedBody.Plain (opts : Http1Options) (wouldHaveTrailers : Bool) (b : ChunkedBody) :
    Prop where
  chunks : ∀ c ∈ b.chunks, c.Plain
  lastExt_nil : b.lastExt = []
  announced : wouldHaveTrailers = true ↔ b.trailers ≠ []
  count : b.trailers.length ≤ opts.maxHeaderCount

theorem accepts_encode_iff (hhttp : http.Correct) (b : ChunkedBody) (hfits : b.Fits opts)
    (rest : Octets) :
    Accepts http opts wt (b.encode ++ rest) b.payloads rest ↔ b.Plain opts wt := by
  rw [Accepts, b.encode_append]
  simp only [chunks_flatMap_iff, chunks_last_iff]
  constructor
  · rintro ⟨left, ⟨hchunks, ds', -, hext, -, hleft⟩, hdone⟩
    cases wt with
    | false =>
      obtain ⟨gap, hgap, hrest⟩ := hleft
      subst hdone
      have hlen : (sectionOctets b.trailers).length = 2 := by
        rw [append_cancel_right hrest, hgap]
      have hnil : b.trailers = [] := by
        by_contra hne
        have := four_le_sectionOctets hne
        omega
      exact ⟨hchunks, hext, by simp [hnil], by simp [hnil]⟩
    | true =>
      subst hleft
      rcases (trailersVerdict_eq_ok_iff hhttp).1 hdone with
        ⟨-, heq⟩ | ⟨lines, hne, hlines, hcount, hsize, heq⟩
      · have h₁ := two_le_sectionOctets b.trailers
        have h₂ := congrArg length heq
        rw [length_append] at h₂
        omega
      have hsame : b.trailers = lines := by
        have h₁ := splitSection_sectionOctets b.trailers_ok
        rw [append_cancel_right heq, splitSection_sectionOctets hlines] at h₁
        exact (some.inj h₁).symm
      exact ⟨hchunks, hext, by simp [hsame, hne], by rwa [hsame]⟩
  · rintro ⟨hchunks, hext, hannounced, hcount⟩
    cases wt with
    | false =>
      have hnil : b.trailers = [] := by
        by_contra hne
        exact absurd (hannounced.2 hne) (by decide)
      refine ⟨rest, ⟨hchunks, [], (append_nil _).symm, hext, rfl, ?_⟩, rfl⟩
      rw [hnil]
      exact ⟨crlf, rfl, rfl⟩
    | true =>
      have hne := hannounced.1 rfl
      refine ⟨_, ⟨hchunks, [], (append_nil _).symm, hext, rfl, rfl⟩, ?_⟩
      exact (trailersVerdict_eq_ok_iff hhttp).2
        (Or.inr ⟨b.trailers, hne, b.trailers_ok, hcount, hfits hne, rfl⟩)

/-! ### What is accepted beyond the grammar -/

/-- Chunks as the reader takes them: sizes with or without a sign, and any two
octets after the data. -/
inductive LaxChunks (wouldHaveTrailers : Bool) : Octets → Octets → Prop
  | last {text gap rest : Octets} (htext : SizeText text 0)
    (hfits : text.length + 2 ≤ sizeLineLimit)
    (hgap : gap.length = if wouldHaveTrailers then 0 else 2) :
    LaxChunks wouldHaveTrailers (text ++ crlf ++ (gap ++ rest)) rest
  | chunk {text d gap next rest : Octets} (hd : d ≠ []) (htext : SizeText text d.length)
    (hfits : text.length + 2 ≤ sizeLineLimit) (hbig : d.length + 2 ≤ usizeMax)
    (hgap : gap.length = 2) (hnext : LaxChunks wouldHaveTrailers next rest) :
    LaxChunks wouldHaveTrailers (text ++ crlf ++ (d ++ gap ++ next)) rest

/-- Bodies as the reader takes them: announced trailers may be missing. -/
def LaxBody (opts : Http1Options) (wouldHaveTrailers : Bool) (input : Octets) : Prop :=
  ∃ rest, LaxChunks wouldHaveTrailers input rest ∧
    (wouldHaveTrailers = true → crlf <+: rest.take opts.maxHeaderSize ∨
      ∃ lines more, (∀ l ∈ lines, isFieldLine l) ∧ lines.length ≤ opts.maxHeaderCount ∧
        (sectionOctets lines).length ≤ opts.maxHeaderSize ∧ rest = sectionOctets lines ++ more)

theorem laxChunks_iff : LaxChunks wt input rest ↔ ∃ ds, Chunks wt input ds rest := by
  constructor
  · intro h
    induction h with
    | @last text gap rest htext hfits hgap =>
      refine ⟨[], .last (chunkVerdict_eq_ok_iff.2 ⟨text, htext, hfits, ?_⟩)⟩
      cases wt with
      | true =>
        rw [eq_nil_of_length_eq_zero hgap]
        exact .inl ⟨rfl, rfl, rfl⟩
      | false => exact .inr ⟨by simp, by decide, gap, hgap, rfl⟩
    | @chunk text d gap next rest hd htext hfits hbig hgap _ ih =>
      obtain ⟨ds, hds⟩ := ih
      exact ⟨d :: ds, .chunk hd (chunkVerdict_eq_ok_iff.2
        ⟨text, htext, hfits, Or.inr ⟨fun h => hd h.1, hbig, gap, hgap, rfl⟩⟩) hds⟩
  · rintro ⟨ds, h⟩
    induction h with
    | last h =>
      obtain ⟨text, htext, hfits, ⟨-, hwt, rfl⟩ | ⟨hz, -, gap, hgap, rfl⟩⟩ :=
        chunkVerdict_eq_ok_iff.1 h
      · exact @LaxChunks.last _ text [] _ htext hfits (by rw [if_pos hwt]; rfl)
      · exact .last htext hfits (by rw [if_neg fun hwt => hz ⟨rfl, hwt⟩]; exact hgap)
    | chunk hd h _ ih =>
      obtain ⟨text, htext, hfits, ⟨rfl, -, -⟩ | ⟨-, hbig, gap, hgap, rfl⟩⟩ :=
        chunkVerdict_eq_ok_iff.1 h
      · exact absurd rfl hd
      · exact .chunk hd htext hfits hbig hgap ih

theorem laxBody_iff (hhttp : http.Correct) :
    LaxBody opts wt input ↔ ∃ ds left, Accepts http opts wt input ds left := by
  constructor
  · rintro ⟨rest, hlax, htrailers⟩
    obtain ⟨ds, hds⟩ := laxChunks_iff.1 hlax
    cases wt with
    | false => exact ⟨ds, rest, rest, hds, rfl⟩
    | true =>
      rcases htrailers rfl with hs | ⟨lines, more, hlines, hcount, hsize, rfl⟩
      · exact ⟨ds, rest, rest, hds, (trailersVerdict_eq_ok_iff hhttp).2 (Or.inl ⟨hs, rfl⟩)⟩
      by_cases hne : lines = []
      · subst hne
        refine ⟨ds, _, _, hds, (trailersVerdict_eq_ok_iff hhttp).2 (Or.inl ⟨?_, rfl⟩)⟩
        exact prefix_take_iff.2 ⟨prefix_append _ _, hsize⟩
      · exact ⟨ds, more, _, hds, (trailersVerdict_eq_ok_iff hhttp).2
          (Or.inr ⟨lines, hne, hlines, hcount, hsize, rfl⟩)⟩
  · rintro ⟨ds, left, rest, hds, hdone⟩
    refine ⟨rest, laxChunks_iff.2 ⟨ds, hds⟩, ?_⟩
    rintro rfl
    rcases (trailersVerdict_eq_ok_iff hhttp).1 hdone with
      ⟨hs, -⟩ | ⟨lines, -, hlines, hcount, hsize, heq⟩
    · exact .inl hs
    · exact .inr ⟨lines, left, hlines, hcount, hsize, heq⟩

end

/-! ### The reader and the grammar -/

section
variable (signal : ContinueSignal) (version : Version) (http : Httparse) (opts : Http1Options)
  (wouldHaveTrailers : Bool)

/-- On the octets of `buf` and `pieces` the reader does what the grammar says: a
body is delivered and what follows it is left, whatever comes later; without a
body it fails at the end of the input at the latest. -/
def FollowsGrammar (buf : Octets) (pieces : List SocketRead) : Prop :=
  (∀ (b : ChunkedBody) (rest : Octets), b.Fits opts → buf ++ arriving pieces = b.encode ++ rest →
    ∀ (tail : List SocketRead) (s : Interim),
      Delivers (readChunkedBodyFn signal version http opts wouldHaveTrailers (pieces ++ tail) buf s)
        tail b.payloads rest) ∧
  (¬BeginsWithBody opts (buf ++ arriving pieces) → ∀ (later : List SocketRead) (s : Interim),
    ∃ e, (readChunkedBodyFn signal version http opts wouldHaveTrailers
      (pieces ++ .read [] :: later) buf s).result = some (.error e))

/-- The inputs on which the reader and the grammar agree: a body of the grammar
is plain, and what is no body is none for the reader either. -/
def AgreesWithGrammar (input : Octets) : Prop :=
  (∀ (b : ChunkedBody) (rest : Octets), b.Fits opts → input = b.encode ++ rest →
    b.Plain opts wouldHaveTrailers) ∧
  (¬BeginsWithBody opts input → ¬LaxBody opts wouldHaveTrailers input)

/-- The reader follows the grammar on exactly these inputs, however they are cut
into reads. -/
theorem followsGrammar_iff (hhttp : http.Correct) {buf : Octets} {pieces : List SocketRead}
    (hlive : ∀ f ∈ pieces, f.Live) :
    FollowsGrammar signal version http opts wouldHaveTrailers buf pieces ↔
      AgreesWithGrammar opts wouldHaveTrailers (buf ++ arriving pieces) := by
  constructor
  · rintro ⟨hbody, hnone⟩
    refine ⟨?_, ?_⟩
    · intro b rest hfits heq
      have hdel := hbody b rest hfits heq [.read []] Interim.none
      rw [← accepts_encode_iff hhttp b hfits rest, ← heq]
      by_cases hacc : ∃ ds left,
          Accepts http opts wouldHaveTrailers (buf ++ arriving pieces) ds left
      · obtain ⟨ds, left, hacc⟩ := hacc
        obtain ⟨rfl, rfl⟩ := hdel.unique
          (readChunkedBodyFn_delivers signal version Interim.none http opts hlive _ hacc)
        exact hacc
      · obtain ⟨e, he⟩ := @readChunkedBodyFn_fails signal version wouldHaveTrailers _ _
          Interim.none http opts hlive [] fun ds left h => hacc ⟨ds, left, h⟩
        rw [hdel.result] at he
        cases he
    · intro hno hlax
      obtain ⟨ds, left, hacc⟩ := (laxBody_iff hhttp).1 hlax
      obtain ⟨e, he⟩ := hnone hno [] Interim.none
      rw [(readChunkedBodyFn_delivers signal version Interim.none http opts hlive _ hacc).result]
        at he
      cases he
  · rintro ⟨hplain, hnone⟩
    refine ⟨?_, ?_⟩
    · intro b rest hfits heq tail s
      refine readChunkedBodyFn_delivers signal version s http opts hlive tail ?_
      rw [heq]
      exact (accepts_encode_iff hhttp b hfits rest).2 (hplain b rest hfits heq)
    · intro hno later s
      refine readChunkedBodyFn_fails signal version s http opts hlive later ?_
      intro ds left hacc
      exact hnone hno ((laxBody_iff hhttp).2 ⟨ds, left, hacc⟩)

end

/-! ### Inputs on which they agree and on which they do not -/

/-- Two ways to read an input as a body agree on what is plain. -/
theorem ChunkedBody.Plain.of_encode_eq {b b' : ChunkedBody} {rest' : Octets} (h : b.Plain opts wt)
    (heq : b.encode ++ rest = b'.encode ++ rest') : b'.Plain opts wt := by
  have hchunks : Chunks true (b.encode ++ rest) (b.payloads ++ [])
      (sectionOctets b.trailers ++ rest) := by
    rw [b.encode_append, chunks_flatMap_iff]
    exact ⟨h.chunks, [], rfl, (chunks_last_iff b).2 ⟨h.lastExt_nil, rfl, rfl⟩⟩
  rw [heq, b'.encode_append, chunks_flatMap_iff] at hchunks
  obtain ⟨hplain, ds, -, hlast⟩ := hchunks
  obtain ⟨hext, -, hsame⟩ := (chunks_last_iff b').1 hlast
  have htrailers : b'.trailers = b.trailers := by
    by_cases hne : b.trailers = []
    · by_contra hne'
      rw [hne] at hne' hsame
      refine crlf_not_prefix_section hne' b'.trailers_ok rest' ?_
      rw [hsame]
      exact prefix_append _ _
    · have hne' : b'.trailers ≠ [] := by
        intro hnil
        refine crlf_not_prefix_section hne b.trailers_ok rest ?_
        rw [← hsame, hnil]
        exact prefix_append _ _
      have hlen : (sectionOctets b'.trailers).length = (sectionOctets b.trailers).length := by
        have h₁ := find_sectionOctets hne b.trailers_ok rest
        rw [← hsame, find_sectionOctets hne' b'.trailers_ok rest', some.injEq] at h₁
        have := four_le_sectionOctets hne
        have := four_le_sectionOctets hne'
        omega
      have hsec := (append_inj hsame hlen).1
      have h₂ := splitSection_sectionOctets b'.trailers_ok
      rw [hsec, splitSection_sectionOctets b.trailers_ok] at h₂
      exact (some.inj h₂).symm
  exact ⟨hplain, hext, by rw [htrailers]; exact h.announced, by rw [htrailers]; exact h.count⟩

theorem agreesWithGrammar_of_plain {b : ChunkedBody} (hfits : b.Fits opts) (h : b.Plain opts wt)
    (rest : Octets) : AgreesWithGrammar opts wt (b.encode ++ rest) :=
  ⟨fun _ _ _ heq => h.of_encode_eq heq, fun hno => absurd ⟨b, rest, hfits, rfl⟩ hno⟩

/-- A chunk whose size line is one digit and an extension. -/
def smallChunk (ext : Octets) (hext : ChunkExt ext) (hlen : ext.length ≤ 8) : Chunk where
  size := octets "3"
  ext := ext
  data := octets "abc"
  size_ne := by decide +kernel
  size_hex := by decide +kernel
  size_value := by decide +kernel
  ext_ok := hext
  data_ne := by decide +kernel
  fits := by
    have : (octets "3").length = 1 := by decide +kernel
    rw [this, sizeLineLimit]
    omega

def smallBody (chunks : List Chunk) (trailers : List Octets)
    (htrailers : ∀ l ∈ trailers, isFieldLine l) : ChunkedBody where
  chunks := chunks
  lastSize := octets "0"
  lastExt := []
  trailers := trailers
  last_ne := by decide +kernel
  last_zero := by decide +kernel
  lastExt_ok := .nil
  last_fits := by decide +kernel
  trailers_ok := htrailers

/-- One chunk in two reads, with the first octets of the next request. -/
theorem followsGrammar_two_reads : FollowsGrammar none .http11 .reference {} false (octets "3\r\na")
      [.read (octets "bc\r\n0\r\n"), .woken, .read (octets "\r\nGET")] := by
  refine (followsGrammar_iff none .http11 .reference {} false Httparse.reference_correct
    (by decide +kernel)).2 ?_
  have hbody : AgreesWithGrammar {} false
      ((smallBody [smallChunk [] .nil (by decide)] [] (by simp)).encode ++ octets "GET") :=
    agreesWithGrammar_of_plain (fun h => absurd rfl h)
    ⟨by
      intro c hc
      rw [mem_singleton.1 hc]
      exact ⟨rfl, by decide +kernel⟩, rfl, by simp [smallBody], by simp [smallBody]⟩ (octets "GET")
  have heq : (smallBody [smallChunk [] .nil (by decide)] [] (by simp)).encode ++ octets "GET" =
      octets "3\r\na" ++ arriving [.read (octets "bc\r\n0\r\n"), (.woken : SocketRead),
        .read (octets "\r\nGET")] := by
    decide +kernel
  rwa [heq] at hbody

theorem BeginsWithBody.head (h : BeginsWithBody opts input) :
    ∃ c rest, input = c :: rest ∧ (hexDigit c).isSome := by
  obtain ⟨b, rest, -, rfl⟩ := h
  rw [ChunkedBody.encode]
  cases hc : b.chunks with
  | nil =>
    obtain ⟨d, ds, hd⟩ := exists_cons_of_ne_nil b.last_ne
    have hzero := b.last_zero d (by rw [hd]; exact mem_cons_self)
    rw [hd]
    exact ⟨d, _, rfl, by rw [hzero]; decide⟩
  | cons c cs =>
    obtain ⟨d, ds, hd⟩ := exists_cons_of_ne_nil c.size_ne
    have hhex := c.size_hex d (by rw [hd]; exact mem_cons_self)
    rw [flatMap_cons, Chunk.encode, hd]
    exact ⟨d, _, rfl, hhex⟩

/-- The data of a first chunk of the grammar is followed by an end of line. -/
theorem BeginsWithBody.first_chunk {size d : Octets} (hsize : SizeText size d.length) (hd : d ≠ [])
    (h : BeginsWithBody opts (size ++ crlf ++ (d ++ rest))) : crlf <+: rest := by
  obtain ⟨b, more, -, heq⟩ := h
  rw [b.encode_append] at heq
  cases hc : b.chunks with
  | nil =>
    rw [hc] at heq
    obtain ⟨rfl, -⟩ := append_crlf_inj hsize.cr_not_mem b.lastLine.cr_not_mem heq
    have hvalue := (b.lastLine.plain hsize).2
    rw [b.lastSize_value] at hvalue
    exact absurd (eq_nil_of_length_eq_zero hvalue.symm) hd
  | cons c cs =>
    rw [hc, flatMap_cons, append_assoc c.encode, c.encode_append] at heq
    obtain ⟨rfl, hdata⟩ := append_crlf_inj hsize.cr_not_mem c.sizeLine.cr_not_mem heq
    have hvalue := (c.sizeLine.plain hsize).2
    rw [c.size_value] at hvalue
    rw [append_assoc c.data] at hdata
    obtain ⟨-, hrest⟩ := append_inj hdata hvalue.symm
    rw [hrest]
    exact prefix_append _ _

/-- A chunk with an extension is refused. A size with a plus sign, and data that
is not followed by an end of line, are accepted. Trailers that were not
announced are left in part, and announced trailers that do not come leave their
end of line. -/
theorem followsGrammar_fails :
    ¬FollowsGrammar none .http11 .reference {} false [] [.read (octets "3;a\r\nabc\r\n0\r\n\r\n")] ∧
    ¬FollowsGrammar none .http11 .reference {} false [] [.read (octets "+3\r\nabc\r\n0\r\n\r\n")] ∧
    ¬FollowsGrammar none .http11 .reference {} false [] [.read (octets "3\r\nabcXX0\r\n\r\n")] ∧
    ¬FollowsGrammar none .http11 .reference {} false [] [.read (octets "0\r\nA: b\r\n\r\n")] ∧
    ¬FollowsGrammar none .http11 .reference {} true [] [.read (octets "0\r\n\r\n")] := by
  refine ⟨?_, ?_, ?_, ?_, ?_⟩
  · rintro ⟨h, -⟩
    have hext : ChunkExt (octets ";a") :=
      @ChunkExt.name [] [] (octets "a") [] (by simp [Blank])
        (by simp [Blank]) ⟨by decide +kernel, by decide +kernel⟩ .nil
    have hdel := h (smallBody [smallChunk (octets ";a") hext (by decide +kernel)] [] (by simp)) []
      (fun h => absurd rfl h) rfl [] Interim.none
    exact absurd hdel.result (by decide +kernel)
  · rintro ⟨-, h⟩
    obtain ⟨e, he⟩ := h (fun hb => by
      obtain ⟨c, rest, hc, hhex⟩ := hb.head
      have hplus : (octets "+3\r\nabc\r\n0\r\n\r\n").head? = some 0x2b := by decide +kernel
      rw [show octets "+3\r\nabc\r\n0\r\n\r\n" = c :: rest from hc] at hplus
      rw [Option.some.inj hplus] at hhex
      exact absurd hhex (by decide)) [] Interim.none
    cases he
  · rintro ⟨-, h⟩
    obtain ⟨e, he⟩ := h (fun hb => by
      have heq : [] ++ arriving [(.read (octets "3\r\nabcXX0\r\n\r\n") : SocketRead)] =
          octets "3" ++ crlf ++ (octets "abc" ++ octets "XX0\r\n\r\n") := by decide +kernel
      rw [heq] at hb
      have hp := hb.first_chunk
        ⟨by decide +kernel, by decide +kernel, by decide +kernel, by decide +kernel⟩
        (by decide +kernel)
      exact absurd hp (by decide +kernel)) [] Interim.none
    cases he
  · rintro ⟨h, -⟩
    have hdel := h (smallBody [] [octets "A: b"] (by decide +kernel)) []
      (fun _ => by decide +kernel) (by decide +kernel) [] Interim.none
    have hleft := hdel.split
    obtain ⟨pieces, -, -, hnil⟩ := hleft
    exact absurd (append_eq_nil_iff.1 hnil).1 (by decide +kernel)
  · rintro ⟨h, -⟩
    have hdel := h (smallBody [] [] (by simp)) [] (fun h => absurd rfl h) (by decide +kernel) []
      Interim.none
    obtain ⟨pieces, -, -, hnil⟩ := hdel.split
    exact absurd (append_eq_nil_iff.1 hnil).1 (by decide +kernel)

end ZincioHttp.H1
