import ZincioHttp.H1.Chunked

/-! The chunked coding of a response without trailers, as `write_response` writes it. The size
of a chunk is its length in hexadecimal digits, which the reader of chunked bodies reads back, so
reader and writer are inverse to each other. -/

namespace ZincioHttp.H1

open Lib List

/-- An octet of `HEX_DIGITS`. -/
def hexOctet (d : ℕ) : UInt8 := (octets "0123456789ABCDEF").getD d 0

/-- The loop of `write_chunk_size`, which fills its buffer from the end. -/
def pushDigits (n : ℕ) (written : Octets) : Octets :=
  let written := hexOctet (n &&& 0xf) :: written
  if n >>> 4 = 0 then written else pushDigits (n >>> 4) written
termination_by n
decreasing_by rw [Nat.shiftRight_eq_div_pow] at *; omega

def writeChunkSize (len : ℕ) : Octets := pushDigits len [] ++ crlf

/-- What is written for a data frame. -/
def writeFrame (chunked : Bool) (data : Octets) : Octets :=
  if data.isEmpty then []
  else if chunked then writeChunkSize data.length ++ data ++ crlf
  else data

/-- The body of a response without trailers. -/
def writeBody (chunked : Bool) (frames : List Octets) : Octets :=
  frames.flatMap (writeFrame chunked) ++ if chunked then octets "0\r\n\r\n" else []

theorem hexDigit_hexOctet : ∀ d < 16, hexDigit (hexOctet d) = some d := by decide

/-- A number is written with digits of its value, and no more than it needs. -/
theorem pushDigits_eq (n : ℕ) : ∀ written : Octets, ∃ text, pushDigits n written = text ++ written ∧
    text ≠ [] ∧ (∀ b ∈ text, (hexDigit b).isSome) ∧ digitsValue hexDigit 16 text = n ∧
      ∀ k, n < 16 ^ (k + 1) → text.length ≤ k + 1 := by
  induction n using Nat.strong_induction_on with
  | _ n ih =>
    intro written
    have hdigit := hexDigit_hexOctet (n % 16) (Nat.mod_lt n (by decide))
    rw [pushDigits, show n &&& 0xf = n % 16 from and_mask_eq_mod n 4,
      show n >>> 4 = n / 16 from Nat.shiftRight_eq_div_pow n 4]
    split_ifs with hlast
    · refine ⟨[hexOctet (n % 16)], rfl, cons_ne_nil _ _, by simp [hdigit], ?_, by simp⟩
      simp only [digitsValue, filterMap_cons, hdigit, filterMap_nil, numeral, foldl_cons, foldl_nil]
      omega
    obtain ⟨text, htext, -, hhex, hvalue, hlen⟩ :=
      ih (n / 16) (by omega) (hexOctet (n % 16) :: written)
    refine ⟨text ++ [hexOctet (n % 16)], by rw [htext, append_assoc]; rfl, by simp, ?_, ?_, ?_⟩
    · simpa [or_imp, forall_and, hdigit] using hhex
    · rw [digitsValue] at hvalue ⊢
      rw [filterMap_append, filterMap_cons_some hdigit, filterMap_nil, numeral_append, hvalue]
      omega
    · rintro (_ | k) hk
      · omega
      · have hk' := hlen k (Nat.div_lt_of_lt_mul (by rw [← pow_succ']; exact hk))
        simpa using hk'

theorem writeChunkSize_eq {len : ℕ} (h : len < 2 ^ 64) :
    ∃ text, writeChunkSize len = text ++ crlf ∧ SizeText text len ∧
      text.length + 2 ≤ sizeLineLimit := by
  obtain ⟨text, htext, hne, hhex, hvalue, hlen⟩ := pushDigits_eq len []
  refine ⟨text, by rw [writeChunkSize, htext, append_nil], .of_hex hne hhex hvalue h, ?_⟩
  have := hlen 15 (by omega)
  unfold sizeLineLimit
  omega

/-- The reader finds the frames in what is written, but no empty ones. -/
theorem chunks_writeBody {frames : List Octets} (hsize : ∀ d ∈ frames, d.length < 2 ^ 63)
    (rest : Octets) :
    Chunks false (writeBody true frames ++ rest) (frames.filter (· ≠ [])) rest := by
  induction frames with
  | nil =>
    refine .last (chunkVerdict_eq_ok_iff.2 ⟨octets "0", ?_, by decide, .inr ⟨by simp, by decide,
      crlf, rfl, rfl⟩⟩)
    exact .of_hex (by decide) (by decide +kernel) rfl (by decide)
  | cons d frames ih =>
    obtain ⟨hd, hframes⟩ := List.forall_mem_cons.1 hsize
    replace ih := ih hframes
    by_cases hnil : d = []
    · subst hnil
      exact ih
    obtain ⟨text, htext, hsizeText, hfits⟩ := writeChunkSize_eq (show d.length < 2 ^ 64 by omega)
    have hwritten : writeBody true (d :: frames) ++ rest =
        text ++ crlf ++ (d ++ crlf ++ (writeBody true frames ++ rest)) := by
      simp [writeBody, writeFrame, hnil, htext]
    rw [filter_cons_of_pos (by simpa using hnil), hwritten]
    exact .chunk hnil (chunkVerdict_eq_ok_iff.2 ⟨text, hsizeText, hfits,
      .inr ⟨fun h => hnil h.1, by unfold usizeMax; omega, crlf, rfl, rfl⟩⟩) ih

/-- Reader and writer are inverse: however the body and the octets after it are cut into reads,
the reader delivers the frames that are not empty and leaves what follows. A frame is at most
`isize::MAX` octets long, as every `Bytes` is. -/
theorem readChunkedBodyFn_writeBody (signal : ContinueSignal) (version : Version) (http : Httparse)
    (opts : Http1Options) {frames : List Octets} (hsize : ∀ d ∈ frames, d.length < 2 ^ 63)
    {rest buf : Octets} {pieces : List SocketRead} (hlive : ∀ f ∈ pieces, f.Live)
    (hcut : buf ++ arriving pieces = writeBody true frames ++ rest) (tail : List SocketRead)
    (s : Interim) :
    Delivers (readChunkedBodyFn signal version http opts false (pieces ++ tail) buf s) tail
      (frames.filter (· ≠ [])) rest :=
  readChunkedBodyFn_delivers signal version s http opts hlive tail
    ⟨rest, hcut ▸ chunks_writeBody hsize rest, rfl⟩

theorem readChunkedBodyFn_writeBody_two :
    Delivers (readChunkedBodyFn none .http11 .reference {} false
      ([.read (octets "2\r"), .read (octets "\nab\r\n0\r\n\r\nGET")] ++ []) [] Interim.none) []
      [octets "ab"] (octets "GET") := by
  have hsize : ∀ d ∈ [[], octets "ab"], d.length < 2 ^ 63 := by decide
  exact readChunkedBodyFn_writeBody none .http11 .reference {} hsize (by decide) (by decide +kernel)
    [] Interim.none

end ZincioHttp.H1
