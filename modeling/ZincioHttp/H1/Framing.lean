import ZincioHttp.H1.BodyLoops

/-! How the connection loop delimits the body of a request, compared with the
framing rules of HTTP/1.1. The loop looks at the first line of each field only
and refuses no head. -/

namespace ZincioHttp.H1

open Lib List HeaderMap

/-! ### The decision of the connection loop -/

/-- `content_length`: the first value, and zero if it is not a number. -/
def contentLength (headers : HeaderMap) : ℕ :=
  (((HeaderMap.get headers (octets "content-length")).bind toStr).bind parseU64).getD 0

/-- `chunked`: the first value lists `chunked`. -/
def isChunked (headers : HeaderMap) : Bool :=
  ((HeaderMap.get headers (octets "transfer-encoding")).bind toStr).any
    (listsToken (octets "chunked"))

/-- `has_trailers`. -/
def hasTrailers (headers : HeaderMap) : Bool :=
  (HeaderMap.get headers (octets "trailer")).any fun v => (toStr v).any fun text => !text.isEmpty

inductive BodyReader where
  | chunked (wouldHaveTrailers : Bool)
  | length (contentLength : ℕ)
  deriving DecidableEq, Repr

/-- How the body of a request with these fields is read; none for a request that
is refused, of which there are none. -/
def bodyReader (headers : HeaderMap) : Option BodyReader :=
  some (if isChunked headers then .chunked (hasTrailers headers)
    else .length (contentLength headers))

/-- `read_body_fut`. -/
def BodyReader.run (signal : ContinueSignal) (version : Version) (http : Httparse)
    (opts : Http1Options) (reader : BodyReader) (fills : List SocketRead) (buf : Octets)
    (s : Interim) : ReadBody :=
  match reader with
  | .chunked wouldHaveTrailers =>
    readChunkedBodyFn signal version http opts wouldHaveTrailers fills buf s
  | .length contentLength => readBodyFn signal version contentLength fills buf s

/-! ### The framing rules -/

/-- The elements of a list of which commas in quoted strings are a part: whether
a quoted string is open, whether the next octet is quoted by a backslash, and
what was read of the first element, in reverse. -/
def splitList (quoted escaped : Bool) (element : Octets) : Octets → List Octets
  | [] => [element.reverse]
  | b :: rest =>
    if escaped then splitList quoted false (b :: element) rest
    else if quoted ∧ b = 0x5c then splitList quoted true (b :: element) rest
    else if b = 0x22 then splitList (!quoted) false (b :: element) rest
    else if b = 0x2c ∧ ¬quoted then element.reverse :: splitList false false [] rest
    else splitList quoted false (b :: element) rest

/-- The codings of all lines together; empty elements do not count. -/
def codings (lines : List Octets) : List Octets :=
  ((splitList false false [] ((octets ", ").intercalate lines)).map (trimBoth isOws)).filter
    (· ≠ [])

/-- The combined list ends in `chunked`. -/
def endsInChunked (lines : List Octets) : Bool :=
  (codings lines).getLast?.any fun coding => eqIgnoreAsciiCase coding (octets "chunked")

/-- `1*DIGIT`. -/
def isDigits (value : Octets) : Bool := !value.isEmpty && value.all isAsciiDigit

inductive Framing where
  | chunked
  | length (n : ℕ)
  deriving DecidableEq, Repr

/-- The framing of a request; none where the rules demand an error. -/
def requestFraming (headers : HeaderMap) : Option Framing :=
  let lines := HeaderMap.getAll headers (octets "transfer-encoding")
  if lines ≠ [] then if endsInChunked lines then some .chunked else none
  else
    match HeaderMap.getAll headers (octets "content-length") with
    | [] => some (.length 0)
    | v :: vs =>
      if isDigits v ∧ ∀ w ∈ vs, w = v then some (.length (digitsValue decDigit 10 v)) else none

/-! ### Bodies of a declared length -/

/-- Taking from one part as much as there is and the rest from the other. -/
theorem take_take_append (l r : Octets) (n : ℕ) :
    l.take (min l.length n) ++ (l.drop (min l.length n) ++ r).take (n - min l.length n) =
      (l ++ r).take n := by
  by_cases hle : l.length ≤ n
  · rw [min_eq_left hle, take_length, drop_length, nil_append, take_append, take_of_length_le hle]
  · rw [min_eq_right (by omega), Nat.sub_self, take_zero, append_nil,
      take_append_of_le_length (by omega)]

theorem drop_drop_append (l r : Octets) (n : ℕ) :
    (l.drop (min l.length n) ++ r).drop (n - min l.length n) = (l ++ r).drop n := by
  by_cases hle : l.length ≤ n
  · rw [min_eq_left hle, drop_length, nil_append, drop_append, drop_eq_nil_of_le hle, nil_append]
  · rw [min_eq_right (by omega), Nat.sub_self, drop_zero, drop_append_of_le_length (by omega)]

section
variable (signal : ContinueSignal) (version : Version)

theorem readBodyLoop_leaves {pieces : List SocketRead} (hlive : ∀ f ∈ pieces, f.Live)
    (tail : List SocketRead) (remaining : ℕ) (buf : Octets) (sent : List BodyFrame) (s : Interim)
    (hbuf : remaining ≠ 0 → buf = []) (hall : remaining ≤ (buf ++ arriving pieces).length) :
    ∃ (ds : List Octets) (buf' : Octets) (pieces' : List SocketRead) (s' : Interim),
      readBodyLoop signal version (pieces ++ tail) remaining buf sent s =
        ⟨some (.ok ()), sent ++ ds.map .data, buf', pieces' ++ tail, s'⟩ ∧
      (∀ f ∈ pieces', f.Live) ∧ ds.flatten = (buf ++ arriving pieces).take remaining ∧
      buf' ++ arriving pieces' = (buf ++ arriving pieces).drop remaining := by
  induction pieces generalizing remaining buf sent s with
  | nil =>
    have hzero : remaining = 0 := by
      by_contra hne
      rw [hbuf hne] at hall
      exact hne (Nat.le_zero.1 hall)
    subst hzero
    refine ⟨[], buf, [], s, ?_, hlive, rfl, rfl⟩
    rw [readBodyLoop.eq_def]
    simp
  | cons f pieces ih =>
    by_cases hzero : remaining = 0
    · subst hzero
      refine ⟨[], buf, f :: pieces, s, ?_, hlive, rfl, rfl⟩
      rw [readBodyLoop.eq_def]
      simp
    have hnil := hbuf hzero
    subst hnil
    have hrest : ∀ f ∈ pieces, f.Live := fun f' hf' => hlive f' (mem_cons_of_mem _ hf')
    have hf : f.Live := hlive f mem_cons_self
    rw [cons_append, readBodyLoop.eq_def]
    simp only [if_neg hzero]
    cases f with
    | failed e => exact hf.elim
    | woken => exact ih hrest remaining [] sent _ (fun _ => rfl) hall
    | read b =>
      cases b with
      | nil => exact absurd rfl hf
      | cons b bs =>
        simp only [nil_append]
        rw [nil_append, arriving_cons, Fill.data, length_append] at hall
        obtain ⟨ds, buf', pieces', s', hrun, hlive', hds, hleft⟩ := ih hrest
          (remaining - min (b :: bs).length remaining)
          ((b :: bs).drop (min (b :: bs).length remaining))
          (sent ++ [.data ((b :: bs).take (min (b :: bs).length remaining))])
          (checkContinue signal version s)
          (fun hne => drop_eq_nil_of_le (by omega))
          (by rw [length_append]; omega)
        refine ⟨(b :: bs).take (min (b :: bs).length remaining) :: ds, buf', pieces', s', ?_,
          hlive', ?_, ?_⟩
        · rw [hrun]
          simp
        · rw [flatten_cons, hds, arriving_cons, Fill.data, take_take_append]
        · rw [hleft, arriving_cons, Fill.data, drop_drop_append]

/-- A body of a declared length is exactly so many octets, however they are cut
into reads. -/
theorem readBodyFn_delivers {pieces : List SocketRead} (hlive : ∀ f ∈ pieces, f.Live)
    (tail : List SocketRead) {n : ℕ} {buf : Octets} (s : Interim)
    (hall : n ≤ (buf ++ arriving pieces).length) :
    ∃ ds, ds.flatten = (buf ++ arriving pieces).take n ∧
      Delivers (readBodyFn signal version n (pieces ++ tail) buf s) tail ds
        ((buf ++ arriving pieces).drop n) := by
  rw [readBodyFn]
  split_ifs with hfirst
  · obtain ⟨ds, buf', pieces', s', hrun, hlive', hds, hleft⟩ :=
      readBodyLoop_leaves signal version hlive tail n buf [] s
        (fun hne => hfirst.resolve_left hne) hall
    rw [hrun]
    exact ⟨ds, hds, rfl, filterMap_payload?_data ds, pieces', rfl, hlive', hleft⟩
  · rw [length_append] at hall
    obtain ⟨ds, buf', pieces', s', hrun, hlive', hds, hleft⟩ :=
      readBodyLoop_leaves signal version hlive tail (n - min buf.length n)
        (buf.drop (min buf.length n)) [.data (buf.take (min buf.length n))]
        (checkContinue signal version s)
        (fun hne => drop_eq_nil_of_le (by omega))
        (by rw [length_append]; omega)
    rw [hrun]
    refine ⟨buf.take (min buf.length n) :: ds, ?_, rfl,
      filterMap_payload?_data (buf.take (min buf.length n) :: ds), pieces', rfl, hlive', ?_⟩
    · rw [flatten_cons, hds, take_take_append]
    · rw [hleft, drop_drop_append]

end

/-! ### The decision and the rules -/

variable {headers : HeaderMap}

theorem isChunked_of_no_line (h : getAll headers (octets "transfer-encoding") = []) :
    isChunked headers = false := by
  rw [isChunked, get_eq_head?, h]
  rfl

theorem isVisible_of_isAsciiDigit : ∀ b : UInt8, isAsciiDigit b → isVisible b := by
  decide +kernel

theorem isSome_decDigit_iff : ∀ b : UInt8, (decDigit b).isSome ↔ isAsciiDigit b := by
  decide +kernel

theorem skipPlus_of_isDigits {v : Octets} (h : isDigits v) : skipPlus v = v := by
  unfold skipPlus
  split
  · exact absurd h (by simp [isDigits, isAsciiDigit])
  · rfl

/-- A string of digits is read as its value, as long as that is a `u64`. -/
theorem contentLength_of_isDigits {v : Octets} {vs : List Octets}
    (hlines : getAll headers (octets "content-length") = v :: vs) (hv : isDigits v) :
    contentLength headers =
      if digitsValue decDigit 10 v < 2 ^ 64 then digitsValue decDigit 10 v else 0 := by
  have hskip := skipPlus_of_isDigits hv
  rw [isDigits, Bool.and_eq_true] at hv
  obtain ⟨hne, hdigits⟩ := hv
  rw [all_eq_true] at hdigits
  have htext : toStr v = some v :=
    if_pos (all_eq_true.2 fun b hb => isVisible_of_isAsciiDigit b (hdigits b hb))
  rw [contentLength, get_eq_head?, hlines, head?_cons, Option.bind_some, htext, Option.bind_some]
  split_ifs with hlt
  · have hparse : parseU64 v = some (digitsValue decDigit 10 v) := by
      refine (fromStrRadix_eq_some_iff (by decide)).2 ⟨?_, ?_, by rw [hskip], hlt⟩
      · rw [hskip]
        rintro rfl
        cases hne
      · rw [hskip]
        exact fun b hb => (isSome_decDigit_iff b).2 (hdigits b hb)
    rw [hparse]
    rfl
  · have hparse : parseU64 v = none := by
      cases hp : parseU64 v with
      | none => rfl
      | some n =>
        obtain ⟨-, -, hval, hn⟩ := (fromStrRadix_eq_some_iff (by decide)).1 hp
        rw [hskip] at hval
        omega
    rw [hparse]
    rfl

/-- Where the rules give a length, the loop takes it if it is a `u64`. -/
theorem bodyReader_of_length {n : ℕ} (h : requestFraming headers = some (.length n)) :
    bodyReader headers = some (.length (if n < 2 ^ 64 then n else 0)) := by
  rw [requestFraming] at h
  by_cases hte : getAll headers (octets "transfer-encoding") = []
  · rw [if_neg (not_not.2 hte)] at h
    rw [bodyReader, isChunked_of_no_line hte, if_neg (by decide)]
    cases hcl : getAll headers (octets "content-length") with
    | nil =>
      rw [hcl] at h
      cases h
      rw [contentLength, get_eq_head?, hcl]
      rfl
    | cons v vs =>
      rw [hcl] at h
      dsimp only at h
      split_ifs at h with hok
      cases h
      rw [contentLength_of_isDigits hcl hok.1]
  · rw [if_pos hte] at h
    split_ifs at h
    cases h

section
variable (signal : ContinueSignal) (version : Version) (http : Httparse) (opts : Http1Options)

/-- The request is refused, or its body is delimited as the rules say: chunked,
or exactly the octets of its length and none of those after them. A request for
which the rules demand an error is refused. -/
def DelimitsBody (headers : HeaderMap) : Prop :=
  match requestFraming headers with
  | none => bodyReader headers = none
  | some .chunked => ∀ reader, bodyReader headers = some reader → ∃ wt, reader = .chunked wt
  | some (.length n) => ∀ reader, bodyReader headers = some reader →
    ∀ (buf : Octets) (pieces tail : List SocketRead) (s : Interim), (∀ f ∈ pieces, f.Live) →
      n ≤ (buf ++ arriving pieces).length →
      ∃ ds, ds.flatten = (buf ++ arriving pieces).take n ∧
        Delivers (reader.run signal version http opts (pieces ++ tail) buf s) tail ds
          ((buf ++ arriving pieces).drop n)

/-- The heads on which the loop and the rules agree: the rules demand no error,
a chunked coding is in the first line, and a length is a `u64`. -/
def FramingAgrees (headers : HeaderMap) : Prop :=
  match requestFraming headers with
  | none => False
  | some .chunked => isChunked headers = true
  | some (.length n) => n < 2 ^ 64

/-- The loop delimits the body as the rules say on exactly these heads. -/
theorem delimitsBody_iff (headers : HeaderMap) :
    DelimitsBody signal version http opts headers ↔ FramingAgrees headers := by
  rw [DelimitsBody, FramingAgrees]
  cases hf : requestFraming headers with
  | none => simp [bodyReader]
  | some framing =>
    cases framing with
    | chunked =>
      rw [bodyReader]
      cases isChunked headers <;> simp
    | length n =>
      rw [bodyReader_of_length hf]
      constructor
      · intro h
        by_contra hbig
        rw [if_neg hbig] at h
        -- a body of `n` octets is there, and none of them is read
        obtain ⟨ds, hds, hdel⟩ := h _ rfl (replicate n 0) [] [] Interim.none
          (by simp) (by simp)
        have hnone : ds = [] := hdel.payloads.symm.trans rfl
        rw [hnone, arriving_nil, append_nil, take_of_length_le (by simp)] at hds
        have hlen := congrArg length hds
        rw [flatten_nil, length_nil, length_replicate] at hlen
        omega
      · rintro hn reader hreader buf pieces tail s hlive hall
        rw [if_pos hn] at hreader
        cases hreader
        exact readBodyFn_delivers signal version hlive tail s hall

end

/-- A head for which the rules demand an error is served. -/
theorem not_delimitsBody_of_error {signal : ContinueSignal} {version : Version} {http : Httparse}
    {opts : Http1Options} (h : requestFraming headers = none) :
    ¬DelimitsBody signal version http opts headers := by
  intro hd
  rw [DelimitsBody, h] at hd
  cases hd

/-- Contradicting lengths, a length with a sign or one that is no number, a list
of codings that does not end in `chunked`, and a chunked coding in the second
line are served with a length of the loop's own. -/
theorem delimitsBody_fails :
    let delimits := DelimitsBody none .http11 ⟨fun _ _ => .ok none⟩ {}
    ¬delimits [(octets "content-length", octets "5"), (octets "content-length", octets "6")] ∧
    ¬delimits [(octets "content-length", octets "+5")] ∧
    ¬delimits [(octets "content-length", octets "5, 5")] ∧
    ¬delimits [(octets "transfer-encoding", octets "chunked, gzip")] ∧
    ¬delimits [(octets "transfer-encoding", octets "gzip"),
      (octets "transfer-encoding", octets "chunked"), (octets "content-length", octets "5")] := by
  intro delimits
  refine ⟨not_delimitsBody_of_error (by decide +kernel),
    not_delimitsBody_of_error (by decide +kernel), not_delimitsBody_of_error (by decide +kernel),
    not_delimitsBody_of_error (by decide +kernel), ?_⟩
  intro h
  obtain ⟨wt, hwt⟩ := h (.length 5) (by decide +kernel)
  cases hwt

end ZincioHttp.H1
