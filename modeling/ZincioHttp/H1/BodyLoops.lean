import ZincioHttp.H1.ReadBody

/-! The loops of the chunked reader do not depend on how the input is cut into
reads: each of them yields a verdict on the whole input, written here as a
function of it. -/

namespace ZincioHttp.H1

open Lib List Option

theorem crlf_ne_nil : crlf ≠ [] := by decide

/-! ### The size line -/

/-- The verdict of the first loop of `read_body_chunk` on all octets. -/
def sizeVerdict (input : Octets) : Option (Except IoError (ℕ × ℕ)) :=
  match find crlf (input.take sizeLineLimit) with
  | some pos => some ((parseChunkLength (input.take pos)).map (·, pos + 2))
  | none =>
    if input.length ≥ sizeLineLimit then
      some (.error ⟨.invalidData, "chunk length buffer overflow"⟩)
    else none

theorem sizeLine_stop_eq (input : Octets) (h : find crlf (input.take sizeLineLimit) = none) :
    sizeLine.stop input.length = sizeVerdict input := by
  rw [sizeVerdict, h]
  rfl

variable {input text : Octets}

theorem sizeVerdict_eq_none_iff : sizeVerdict input = none ↔
    find crlf input = none ∧ input.length < sizeLineLimit := by
  rw [sizeVerdict]
  cases h : find crlf (input.take sizeLineLimit) with
  | some pos =>
    have := (find_take_eq_some_iff crlf_ne_nil).1 h
    simp [this.1]
  | none =>
    split_ifs
    · simp only [false_iff]
      omega
    · rw [take_of_length_le (by omega)] at h
      simp only [h, true_and, true_iff]
      omega

theorem sizeLine_decides : sizeLine.Decides id sizeVerdict where
  count_seen _ _ := rfl
  seen_zero := rfl
  decide_nil := rfl
  look_eq buf more _ hnone := by
    obtain ⟨hfind, hlen⟩ := sizeVerdict_eq_none_iff.1 hnone
    have hold : find crlf (((buf ++ more).take sizeLineLimit).take buf.length) = none := by
      rw [take_take, min_eq_left hlen.le, take_left' rfl]
      exact hfind
    have hresume := find_resume crlf_ne_nil (m := 1) rfl hold
    have htake : (buf ++ more).take (min (buf ++ more).length sizeLineLimit) =
        (buf ++ more).take sizeLineLimit := by
      rw [min_comm, ← take_eq_take_min]
    simp only [id, sizeLine, htake]
    cases hf : find crlf (((buf ++ more).take sizeLineLimit).drop (buf.length - 1)) with
    | some pos =>
      rw [hf, map_some] at hresume
      rw [map_some, some_or, sizeVerdict, ← hresume]
    | none =>
      rw [hf] at hresume
      exact sizeLine_stop_eq (buf ++ more) hresume.symm
  stable {buf r} h more := by
    rw [sizeVerdict] at h ⊢
    cases hf : find crlf (buf.take sizeLineLimit) with
    | some pos =>
      obtain ⟨hall, hpos⟩ := (find_take_eq_some_iff crlf_ne_nil).1 hf
      rw [hf] at h
      rw [(find_take_eq_some_iff crlf_ne_nil).2 ⟨find_append_of_some crlf_ne_nil more hall, hpos⟩]
      have hle := find_lt_of_some hall
      dsimp only
      rwa [take_append_of_le_length (by omega)]
    | none =>
      rw [hf] at h
      split_ifs at h with hlen
      rw [take_append_of_le_length hlen, hf]
      rw [if_pos (by rw [length_append]; omega)]
      exact h

/-! ### The data of a chunk -/

def dataVerdict (len : ℕ) (input : Octets) : Option Unit :=
  if input.length < len + 2 then none else some ()

theorem chunkData_decides (len : ℕ) : (chunkData len).Decides id (dataVerdict len) where
  count_seen _ _ := rfl
  seen_zero := rfl
  decide_nil := rfl
  look_eq _ _ _ _ := rfl
  stable {buf r} h more := by
    rw [dataVerdict] at h ⊢
    split_ifs at h
    rw [if_neg (by rw [length_append]; omega)]

/-! ### The trailer section -/

/-- The verdict of the loop of `read_trailers` on all octets. -/
def trailerVerdict (maxHeaderSize : ℕ) (input : Octets) : Option (Except IoError (Option ℕ)) :=
  if crlf <+: input.take maxHeaderSize then some (.ok none)
  else
    match find (crlf ++ crlf) (input.take maxHeaderSize) with
    | some index => some (.ok (some (index + 4)))
    | none =>
      if input.length < maxHeaderSize then none
      else some (.error ⟨.invalidData, "request too large"⟩)

theorem crlfcrlf_ne_nil : crlf ++ crlf ≠ [] := by decide

theorem trailerVerdict_eq_none_iff {max : ℕ} : trailerVerdict max input = none ↔
    ¬crlf <+: input ∧ find (crlf ++ crlf) input = none ∧ input.length < max := by
  rw [trailerVerdict]
  split
  · rename_i hp
    simp [hp.trans <| take_prefix max input]
  rename_i hp
  cases hf : find (crlf ++ crlf) (input.take max) with
  | some index => simp [((find_take_eq_some_iff crlfcrlf_ne_nil).1 hf).1]
  | none =>
    split_ifs with hlen
    · rw [take_of_length_le hlen.le] at hp hf
      simp [hp, hf, hlen]
    · simp [hlen]

theorem trailerSection_decides (max : ℕ) :
    (trailerSection max).Decides (min · max) (trailerVerdict max) where
  count_seen m n := by
    simp only [trailerSection]
    omega
  seen_zero := Nat.zero_min max
  decide_nil := by
    rw [trailerVerdict]
    simp only [take_nil]
    rfl
  look_eq buf more _ hnone := by
    obtain ⟨hp, hfind, hlen⟩ := trailerVerdict_eq_none_iff.1 hnone
    have hold : find (crlf ++ crlf) (((buf ++ more).take max).take buf.length) = none := by
      rw [take_take, min_eq_left hlen.le, take_left' rfl]
      exact hfind
    have hresume := find_resume crlfcrlf_ne_nil (m := 3) rfl hold
    have htake : (buf ++ more).take (min (buf ++ more).length max) = (buf ++ more).take max := by
      rw [min_comm, ← take_eq_take_min]
    have hstart : (2 ≤ min (buf ++ more).length max ∧ crlf <+: buf ++ more) ↔
        crlf <+: (buf ++ more).take max := by
      rw [prefix_take_iff]
      constructor
      · rintro ⟨h2, h⟩
        exact ⟨h, le_trans h2 (min_le_right _ _)⟩
      · rintro ⟨h, h2⟩
        exact ⟨le_min h.length_le h2, h⟩
    simp only [trailerSection, htake, hstart, min_eq_left hlen.le]
    rw [trailerVerdict]
    by_cases hs : crlf <+: (buf ++ more).take max
    · rw [if_pos hs, if_pos hs, some_or]
    rw [if_neg hs, if_neg hs]
    cases hf : find (crlf ++ crlf) (((buf ++ more).take max).drop (buf.length - 3)) with
    | some index =>
      rw [hf, map_some] at hresume
      rw [map_some, some_or, ← hresume]
    | none =>
      rw [hf] at hresume
      rw [← hresume]
      split_ifs
      · rfl
      · omega
      · omega
      · rfl
  stable {buf r} h more := by
    rw [trailerVerdict] at h ⊢
    have hmono : buf.take max <+: (buf ++ more).take max :=
      (prefix_append buf more).take max
    split at h
    · rename_i hs
      rw [if_pos (hs.trans hmono)]
      exact h
    rename_i hs
    cases hf : find (crlf ++ crlf) (buf.take max) with
    | some index =>
      rw [hf] at h
      obtain ⟨hall, hpos⟩ := (find_take_eq_some_iff crlfcrlf_ne_nil).1 hf
      have hfour : 4 ≤ (buf.take max).length := by
        have := find_lt_of_some hf
        simp only [length_append, crlf, length_cons] at this
        omega
      have hns : ¬crlf <+: (buf ++ more).take max := by
        intro hc
        exact hs (prefix_of_prefix_length_le hc hmono (by
          simp only [crlf, length_cons, length_nil]
          omega))
      rw [if_neg hns, (find_take_eq_some_iff crlfcrlf_ne_nil).2
        ⟨find_append_of_some crlfcrlf_ne_nil more hall, hpos⟩]
      exact h
    | none =>
      rw [hf] at h
      split_ifs at h
      rw [take_append_of_le_length (by omega), if_neg hs, hf]
      rw [if_neg (by rw [length_append]; omega)]
      exact h

/-! ### Sizes -/

/-- The text of a size line that the reader takes for the number `n`. -/
structure SizeText (text : Octets) (n : ℕ) : Prop where
  digits_ne : skipPlus text ≠ []
  digits_hex : ∀ b ∈ skipPlus text, (hexDigit b).isSome
  value : digitsValue hexDigit 16 (skipPlus text) = n
  bound : n < 2 ^ 64

theorem sizeText_iff {n : ℕ} : SizeText text n ↔ fromStrRadix hexDigit 16 text = some n := by
  rw [fromStrRadix_eq_some_iff (by decide)]
  exact ⟨fun h => ⟨h.digits_ne, h.digits_hex, h.value, h.bound⟩,
    fun h => ⟨h.1, h.2.1, h.2.2.1, h.2.2.2⟩⟩

theorem parseChunkLength_eq_ok_iff {n : ℕ} : parseChunkLength text = .ok n ↔ SizeText text n := by
  rw [sizeText_iff, parseChunkLength]
  cases fromStrRadix hexDigit 16 text <;> simp

theorem mem_skipPlus_or {b : UInt8} (h : b ∈ text) : b = 0x2b ∨ b ∈ skipPlus text := by
  unfold skipPlus
  split
  · exact List.mem_cons.1 h
  · exact .inr h

theorem skipPlus_of_hex (h : ∀ b ∈ text, (hexDigit b).isSome) : skipPlus text = text := by
  unfold skipPlus
  split
  · exact absurd (h 0x2b mem_cons_self) (by decide)
  · rfl

namespace SizeText

variable {text : Octets} {n : ℕ}

theorem cr_not_mem (h : SizeText text n) : 0x0d ∉ text := by
  intro hm
  rcases mem_skipPlus_or hm with hb | hb
  · cases hb
  · exact absurd (h.digits_hex _ hb) (by decide)

theorem of_hex (hne : text ≠ []) (hhex : ∀ b ∈ text, (hexDigit b).isSome)
    (hn : digitsValue hexDigit 16 text = n) (hb : n < 2 ^ 64) : SizeText text n := by
  have hskip := skipPlus_of_hex hhex
  exact ⟨by rwa [hskip], by rwa [hskip], by rwa [hskip], hb⟩

end SizeText

theorem sizeVerdict_line (hcr : 0x0d ∉ text) (hfits : text.length + 2 ≤ sizeLineLimit)
    (rest : Octets) : sizeVerdict (text ++ crlf ++ rest) =
      some ((parseChunkLength text).map (·, text.length + 2)) := by
  have hfind : find crlf ((text ++ crlf ++ rest).take sizeLineLimit) = some text.length :=
    (find_take_eq_some_iff crlf_ne_nil).2 ⟨find_append_of_not_mem rest hcr, hfits⟩
  rw [sizeVerdict, hfind]
  dsimp only
  rw [append_assoc, take_left' rfl]

theorem sizeVerdict_eq_ok_iff {len k : ℕ} :
    sizeVerdict input = some (.ok (len, k)) ↔ ∃ text rest, input = text ++ crlf ++ rest ∧
      SizeText text len ∧ text.length + 2 ≤ sizeLineLimit ∧ k = text.length + 2 := by
  constructor
  · intro h
    rw [sizeVerdict] at h
    cases hf : find crlf (input.take sizeLineLimit) with
    | none =>
      rw [hf] at h
      split_ifs at h
      cases h
    | some pos =>
      rw [hf] at h
      obtain ⟨hall, hpos⟩ := (find_take_eq_some_iff crlf_ne_nil).1 hf
      obtain ⟨⟨rest, hrest⟩, hle, -⟩ := find_eq_some_iff.1 hall
      have hlen : (input.take pos).length = pos := length_take_of_le hle
      cases hp : parseChunkLength (input.take pos) with
      | error e => simp [hp, Except.map] at h
      | ok n =>
        simp only [hp] at h
        obtain ⟨rfl, rfl⟩ := h
        refine ⟨input.take pos, rest, ?_, parseChunkLength_eq_ok_iff.1 hp, ?_, ?_⟩
        · rw [append_assoc, hrest, take_append_drop]
        · rw [hlen]
          exact hpos
        · rw [hlen]
  · rintro ⟨text, rest, rfl, htext, hfits, rfl⟩
    rw [sizeVerdict_line htext.cr_not_mem hfits, parseChunkLength_eq_ok_iff.2 htext]
    rfl

/-! ### A chunk and a trailer section as functions of the input -/

theorem sizeVerdict_le {len k : ℕ} (h : sizeVerdict input = some (.ok (len, k))) :
    k ≤ input.length := by
  obtain ⟨text, rest, rfl, -, -, rfl⟩ := sizeVerdict_eq_ok_iff.1 h
  simp [crlf]

theorem trailerVerdict_le {max : ℕ} {k : ℕ} (h : trailerVerdict max input = some (.ok (some k))) :
    k ≤ input.length := by
  rw [trailerVerdict] at h
  by_cases hs : crlf <+: input.take max
  · simp [hs] at h
  rw [if_neg hs] at h
  cases hf : find (crlf ++ crlf) (input.take max) with
  | none =>
    rw [hf] at h
    split_ifs at h
    cases h
  | some index =>
    rw [hf] at h
    simp only [some.injEq, Except.ok.injEq] at h
    rw [← h]
    exact find_lt_of_some ((find_take_eq_some_iff crlfcrlf_ne_nil).1 hf).1

/-- What `read_body_chunk` takes from all octets: the chunk and the rest. -/
def chunkVerdict (wouldHaveTrailers : Bool) (input : Octets) :
    Option (Except IoError (Octets × Octets)) :=
  match sizeVerdict input with
  | none => none
  | some (.error e) => some (.error e)
  | some (.ok (len, lineLength)) =>
    let rest := input.drop lineLength
    if len = 0 ∧ wouldHaveTrailers then some (.ok ([], rest))
    else if len + 2 > usizeMax then some (.error ⟨.invalidData, "chunk length too large"⟩)
    else if rest.length < len + 2 then none
    else some (.ok (rest.take len, rest.drop (len + 2)))

/-- What the reader takes for a chunk: a size line, the data and two octets, or
only a size line before announced trailers. -/
theorem chunkVerdict_eq_ok_iff {wt : Bool} {d rest : Octets} :
    chunkVerdict wt input = some (.ok (d, rest)) ↔
      ∃ text, SizeText text d.length ∧ text.length + 2 ≤ sizeLineLimit ∧
        ((d = [] ∧ wt = true ∧ input = text ++ crlf ++ rest) ∨
          (¬(d = [] ∧ wt = true) ∧ d.length + 2 ≤ usizeMax ∧
            ∃ gap, gap.length = 2 ∧ input = text ++ crlf ++ (d ++ gap ++ rest))) := by
  constructor
  · intro h
    rw [chunkVerdict] at h
    rcases hv : sizeVerdict input with _ | _ | ⟨len, k⟩
    · simp [hv] at h
    · simp [hv] at h
    obtain ⟨text, more, rfl, htext, hfits, rfl⟩ := sizeVerdict_eq_ok_iff.1 hv
    have hdrop : (text ++ crlf ++ more).drop (text.length + 2) = more :=
      drop_left' (by simp [crlf])
    simp only [hv, hdrop] at h
    split at h
    · rename_i hz
      cases h
      obtain ⟨rfl, hwt⟩ := hz
      exact ⟨text, htext, hfits, Or.inl ⟨rfl, hwt, rfl⟩⟩
    rename_i hz
    by_cases hbig : len + 2 > usizeMax
    · simp [hbig] at h
    rw [if_neg hbig] at h
    split at h
    · cases h
    cases h
    have hlen : (more.take len).length = len := length_take_of_le (by omega)
    refine ⟨text, by rwa [hlen], hfits, Or.inr ⟨?_, by omega, (more.drop len).take 2, ?_, ?_⟩⟩
    · rintro ⟨hnil, hwt⟩
      rw [hnil] at hlen
      exact hz ⟨hlen.symm, hwt⟩
    · rw [length_take, length_drop]
      omega
    · rw [append_assoc (more.take len), ← drop_drop, take_append_drop, take_append_drop]
  · rintro ⟨text, htext, hfits, ⟨rfl, hwt, rfl⟩ | ⟨hz, hbig, gap, hgap, rfl⟩⟩
    · rw [chunkVerdict, sizeVerdict_eq_ok_iff.2 ⟨text, rest, rfl, htext, hfits, rfl⟩]
      dsimp only
      rw [if_pos ⟨rfl, hwt⟩, drop_left' (by simp [crlf])]
    · rw [chunkVerdict, sizeVerdict_eq_ok_iff.2 ⟨text, _, rfl, htext, hfits, rfl⟩]
      dsimp only
      rw [drop_left' (by simp [crlf]), if_neg (by simpa using hz), if_neg (by omega),
        if_neg (by simp only [length_append]; omega)]
      rw [append_assoc, take_left' rfl, ← append_assoc, drop_left' (by simp [hgap])]

theorem chunkVerdict_length {wt : Bool} {d rest : Octets}
    (h : chunkVerdict wt input = some (.ok (d, rest))) (hd : d ≠ []) :
    rest.length < input.length := by
  obtain ⟨text, -, -, ⟨rfl, -, -⟩ | ⟨-, -, gap, hgap, rfl⟩⟩ := chunkVerdict_eq_ok_iff.1 h
  · exact absurd rfl hd
  · simp only [length_append]
    omega

/-- What `read_trailers` takes from all octets. -/
def trailersVerdict (http : Httparse) (opts : Http1Options) (input : Octets) :
    Option (Except IoError (Option HeaderMap × Octets)) :=
  match trailerVerdict opts.maxHeaderSize input with
  | none => none
  | some (.error e) => some (.error e)
  | some (.ok none) => some (.ok (none, input))
  | some (.ok (some length)) =>
    match http.parseHeaders opts.maxHeaderCount (input.take length) with
    | .error e => some (.error e)
    | .ok none => some (.error ⟨.invalidInput, "trailer headers incomplete"⟩)
    | .ok (some fields) => some (.ok (some fields, input.drop length))

/-- The function returned `v` and left `rest`, of which a part is in later
reads. -/
structure Leaves {α : Type} (r : Read α) (tail : List SocketRead) (v : α) (rest : Octets) :
    Prop where
  result : r.result = some (.ok v)
  split : ∃ pieces, r.fills = pieces ++ tail ∧ (∀ f ∈ pieces, f.Live) ∧
    r.readBuf ++ arriving pieces = rest

/-- What a reading function does about a verdict on all octets before `tail`. -/
def Answers {α : Type} (tail : List SocketRead) (r : Read α) :
    Option (Except IoError (α × Octets)) → Prop
  | some (.ok (v, rest)) => Leaves r tail v rest
  | some (.error e) => r.result = some (.error e)
  | none => ∀ later, tail = .read [] :: later → r.result = some (.error unexpectedEof)

section
variable (signal : ContinueSignal) (version : Version) (wt : Bool) {pieces : List SocketRead}
  (buf : Octets) (s : Interim) (hlive : ∀ f ∈ pieces, f.Live) (tail : List SocketRead)
include hlive

theorem readBodyChunk_answers :
    Answers tail (readBodyChunk signal version wt (pieces ++ tail) buf s)
      (chunkVerdict wt (buf ++ arriving pieces)) := by
  rw [chunkVerdict]
  rcases hv : sizeVerdict (buf ++ arriving pieces) with _ | e | ⟨len, k⟩
  · rintro later rfl
    have hend := sizeLine_decides.run_ended (checkContinue signal version) hlive later s hv
    rw [readBodyChunk]
    simp [hend, verdictResult]
  all_goals
    obtain ⟨buf₁, pieces₁, s₁, hrun, hlive₁, hall₁, hbuf₁⟩ :=
      sizeLine_decides.run_told (checkContinue signal version) hlive tail s hv
    rw [readBodyChunk, hrun]
    simp only [verdictResult]
  · rfl
  have hrest : buf₁.drop k ++ arriving pieces₁ = (buf ++ arriving pieces).drop k := by
    rw [← hall₁, drop_append_of_le_length (sizeVerdict_le hbuf₁)]
  rw [← hrest]
  by_cases hz : len = 0 ∧ wt
  · rw [if_pos hz, if_pos hz]
    exact ⟨rfl, pieces₁, rfl, hlive₁, rfl⟩
  rw [if_neg hz, if_neg hz]
  by_cases hbig : len + 2 > usizeMax
  · rw [if_pos hbig, if_pos hbig]
    rfl
  rw [if_neg hbig, if_neg hbig]
  split_ifs with hshort
  · rintro later rfl
    have hend := (chunkData_decides len).run_ended (checkContinue signal version) hlive₁ later s₁
      (show dataVerdict len _ = none from if_pos hshort)
    rw [hend]
  obtain ⟨buf₂, pieces₂, s₂, hrun₂, hlive₂, hall₂, hbuf₂⟩ :=
    (chunkData_decides len).run_told (checkContinue signal version) hlive₁ tail s₁
      (show dataVerdict len _ = some () from if_neg hshort)
  have hlen₂ : len + 2 ≤ buf₂.length := by
    rw [dataVerdict] at hbuf₂
    split_ifs at hbuf₂
    omega
  rw [hrun₂, ← hall₂]
  refine ⟨?_, pieces₂, rfl, hlive₂, ?_⟩
  · rw [take_append_of_le_length (by omega)]
  · rw [drop_append_of_le_length hlen₂]

theorem readTrailers_answers (http : Httparse) (opts : Http1Options) :
    Answers tail (readTrailers http opts (pieces ++ tail) buf s)
      (trailersVerdict http opts (buf ++ arriving pieces)) := by
  rw [trailersVerdict]
  rcases hv : trailerVerdict opts.maxHeaderSize (buf ++ arriving pieces) with _ | e | _ | k
  · rintro later rfl
    have hend := (trailerSection_decides opts.maxHeaderSize).run_ended id hlive later s hv
    rw [readTrailers]
    simp [hend, verdictResult]
  all_goals
    obtain ⟨buf₁, pieces₁, s₁, hrun, hlive₁, hall₁, hbuf₁⟩ :=
      (trailerSection_decides opts.maxHeaderSize).run_told id hlive tail s hv
    rw [readTrailers, hrun]
    simp [verdictResult]
  · rfl
  · exact ⟨rfl, pieces₁, rfl, hlive₁, hall₁⟩
  · have hk := trailerVerdict_le hbuf₁
    rw [← hall₁, take_append_of_le_length hk, drop_append_of_le_length hk]
    rcases hp : http.parseHeaders opts.maxHeaderCount (buf₁.take k) with e | _ | fs
    · rfl
    · rfl
    · exact ⟨rfl, pieces₁, rfl, hlive₁, rfl⟩

end

/-! ### The whole body -/

/-- The chunks in front of an input, and what comes after the last one. -/
inductive Chunks (wouldHaveTrailers : Bool) : Octets → List Octets → Octets → Prop
  | last {input rest : Octets}
    (h : chunkVerdict wouldHaveTrailers input = some (.ok ([], rest))) :
    Chunks wouldHaveTrailers input [] rest
  | chunk {input d next rest : Octets} {ds : List Octets} (hd : d ≠ [])
    (h : chunkVerdict wouldHaveTrailers input = some (.ok (d, next)))
    (hnext : Chunks wouldHaveTrailers next ds rest) :
    Chunks wouldHaveTrailers input (d :: ds) rest

/-- The reader accepts the body in front of `input`: the payloads of its chunks
and what it leaves. -/
def Accepts (http : Httparse) (opts : Http1Options) (wouldHaveTrailers : Bool) (input : Octets)
    (ds : List Octets) (left : Octets) : Prop :=
  ∃ rest, Chunks wouldHaveTrailers input ds rest ∧
    if wouldHaveTrailers then ∃ fields, trailersVerdict http opts rest = some (.ok (fields, left))
    else rest = left

section
variable (signal : ContinueSignal) (version : Version) {wt : Bool} {pieces : List SocketRead}
  {buf : Octets} (s : Interim) {ds : List Octets}

theorem readChunks_leaves (hlive : ∀ f ∈ pieces, f.Live) (tail : List SocketRead) {rest : Octets}
    (h : Chunks wt (buf ++ arriving pieces) ds rest) {fuel : ℕ}
    (hfuel : (buf ++ arriving pieces).length < fuel) (sent : List BodyFrame) :
    ∃ buf' pieces' s', readChunks signal version wt fuel sent (pieces ++ tail) buf s =
        ⟨some (.ok ()), sent ++ ds.map .data, buf', pieces' ++ tail, s'⟩ ∧
      (∀ f ∈ pieces', f.Live) ∧ buf' ++ arriving pieces' = rest := by
  generalize hin : buf ++ arriving pieces = input at h hfuel
  induction h generalizing fuel pieces buf s sent with
  | last h =>
    subst hin
    obtain ⟨fuel, rfl⟩ : ∃ n, fuel = n + 1 := ⟨fuel - 1, by omega⟩
    have hchunk := readBodyChunk_answers signal version wt buf s hlive tail
    rw [h] at hchunk
    obtain ⟨hres, pieces', hfills, hlive', hall⟩ := hchunk
    refine ⟨_, pieces', (readBodyChunk signal version wt (pieces ++ tail) buf s).interim, ?_,
      hlive', hall⟩
    rw [readChunks, hres, ← hfills]
    simp
  | chunk hd h hnext ih =>
    subst hin
    obtain ⟨fuel, rfl⟩ : ∃ n, fuel = n + 1 := ⟨fuel - 1, by omega⟩
    have hshorter := chunkVerdict_length h hd
    have hchunk := readBodyChunk_answers signal version wt buf s hlive tail
    rw [h] at hchunk
    obtain ⟨hres, pieces', hfills, hlive', hall⟩ := hchunk
    obtain ⟨b, bs, rfl⟩ := exists_cons_of_ne_nil hd
    obtain ⟨buf', pieces'', s', hrun, hlive'', hall''⟩ := ih
      (readBodyChunk signal version wt (pieces ++ tail) buf s).interim hlive'
      (sent ++ [.data (b :: bs)]) hall (show _ < fuel by omega)
    refine ⟨buf', pieces'', s', ?_, hlive'', hall''⟩
    rw [readChunks, hres]
    dsimp only
    rw [hfills, hrun]
    simp

theorem readChunks_fails (hlive : ∀ f ∈ pieces, f.Live) (tail : List SocketRead)
    {fuel : ℕ} (hfuel : (buf ++ arriving pieces).length < fuel)
    (h : ∀ ds rest, ¬Chunks wt (buf ++ arriving pieces) ds rest) (sent : List BodyFrame) :
    ∃ e, (readChunks signal version wt fuel sent (pieces ++ .read [] :: tail) buf s).result =
      some (.error e) := by
  induction fuel generalizing pieces buf s sent with
  | zero => omega
  | succ fuel ih =>
    rw [readChunks]
    have hchunk := readBodyChunk_answers signal version wt buf s hlive (.read [] :: tail)
    rcases hv : chunkVerdict wt (buf ++ arriving pieces) with _ | e | ⟨d, rest⟩ <;>
      rw [hv] at hchunk
    · refine ⟨unexpectedEof, ?_⟩
      rw [hchunk tail rfl]
    · refine ⟨e, ?_⟩
      rw [hchunk]
    · obtain ⟨hres, pieces', hfills, hlive', hall⟩ := hchunk
      rw [hres]
      cases d with
      | nil => exact absurd (.last hv) (h [] rest)
      | cons b bs =>
        have hshorter := chunkVerdict_length hv (cons_ne_nil b bs)
        rw [hfills]
        refine ih _ hlive' (by rw [hall]; omega) ?_ _
        intro ds rest' hc
        rw [hall] at hc
        exact h _ _ (.chunk (cons_ne_nil b bs) hv hc)

/-- What the reader delivered and left in front of `tail`. -/
structure Delivers (r : ReadBody) (tail : List SocketRead) (ds : List Octets) (left : Octets) :
    Prop where
  result : r.result = some (.ok ())
  payloads : r.payloads = ds
  split : ∃ pieces, r.fills = pieces ++ tail ∧ (∀ f ∈ pieces, f.Live) ∧
    r.readBuf ++ arriving pieces = left

theorem Delivers.unique {r : ReadBody} {tail : List SocketRead} {ds' : List Octets}
    {left left' : Octets} (h : Delivers r tail ds left) (h' : Delivers r tail ds' left') :
    ds = ds' ∧ left = left' := by
  obtain ⟨pieces, hp, -, rfl⟩ := h.split
  obtain ⟨pieces', hp', -, rfl⟩ := h'.split
  rw [hp] at hp'
  exact ⟨h.payloads.symm.trans h'.payloads, by rw [append_cancel_right hp']⟩

theorem length_lt_of_more (pieces tail : List SocketRead) (buf : Octets) :
    (buf ++ arriving pieces).length < (buf ++ arriving (pieces ++ tail)).length + 1 := by
  rw [arriving, arriving, flatMap_append, length_append, length_append, length_append]
  omega

theorem filterMap_payload?_data (ds : List Octets) :
    (ds.map BodyFrame.data).filterMap BodyFrame.payload? = ds := by
  induction ds with
  | nil => rfl
  | cons d ds ih => rw [map_cons, filterMap_cons_some (by rfl), ih]

/-- The chunked reader does what the whole input says, however it is cut. -/
theorem readChunkedBodyFn_delivers (http : Httparse) (opts : Http1Options)
    (hlive : ∀ f ∈ pieces, f.Live) (tail : List SocketRead) {left : Octets}
    (h : Accepts http opts wt (buf ++ arriving pieces) ds left) :
    Delivers (readChunkedBodyFn signal version http opts wt (pieces ++ tail) buf s) tail ds
      left := by
  obtain ⟨rest, hchunks, hrest⟩ := h
  obtain ⟨buf', pieces', s', hrun, hlive', hall⟩ := readChunks_leaves signal version s hlive tail
    hchunks (length_lt_of_more pieces tail buf) []
  have hpayloads := filterMap_payload?_data ds
  rw [readChunkedBodyFn, hrun]
  cases wt with
  | false =>
    subst hrest
    exact ⟨rfl, hpayloads, pieces', rfl, hlive', hall⟩
  | true =>
    obtain ⟨fields, hfields⟩ := hrest
    rw [← hall] at hfields
    have htrailers := readTrailers_answers buf' s' hlive' tail http opts
    rw [hfields] at htrailers
    obtain ⟨hres, pieces'', hfills, hlive'', hall''⟩ := htrailers
    dsimp only
    rw [if_pos rfl, hres]
    cases fields with
    | none => exact ⟨rfl, hpayloads, pieces'', hfills, hlive'', hall''⟩
    | some fs =>
      refine ⟨rfl, ?_, pieces'', hfills, hlive'', hall''⟩
      simp only [ReadBody.payloads, filterMap_append, hpayloads]
      exact append_nil ds

theorem readChunkedBodyFn_fails (http : Httparse) (opts : Http1Options)
    (hlive : ∀ f ∈ pieces, f.Live) (tail : List SocketRead)
    (h : ∀ ds left, ¬Accepts http opts wt (buf ++ arriving pieces) ds left) :
    ∃ e, (readChunkedBodyFn signal version http opts wt (pieces ++ .read [] :: tail) buf s).result
      = some (.error e) := by
  have hfuel := length_lt_of_more pieces (.read [] :: tail) buf
  rw [readChunkedBodyFn]
  by_cases hc : ∃ ds rest, Chunks wt (buf ++ arriving pieces) ds rest
  · obtain ⟨ds, rest, hchunks⟩ := hc
    obtain ⟨buf', pieces', s', hrun, hlive', hall⟩ :=
      readChunks_leaves signal version s hlive (.read [] :: tail) hchunks hfuel []
    cases wt with
    | false => exact absurd ⟨rest, hchunks, rfl⟩ (h ds rest)
    | true =>
      have htrailers := readTrailers_answers buf' s' hlive' (.read [] :: tail) http opts
      rw [hrun]
      dsimp only
      rw [if_pos rfl]
      rw [hall] at htrailers
      rcases hv : trailersVerdict http opts rest with _ | e | ⟨fields, left⟩ <;>
        rw [hv] at htrailers
      · exact ⟨unexpectedEof, by rw [htrailers tail rfl]⟩
      · exact ⟨e, by rw [htrailers]⟩
      · exact absurd ⟨rest, hchunks, ⟨fields, hv⟩⟩ (h ds left)
  · obtain ⟨e, he⟩ := readChunks_fails signal version s hlive tail hfuel
      (fun ds rest hd => hc ⟨ds, rest, hd⟩) []
    refine ⟨e, ?_⟩
    rw [he]
    exact he

end

end ZincioHttp.H1
