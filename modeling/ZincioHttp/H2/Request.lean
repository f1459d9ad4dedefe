import ZincioHttp.H2.Hpack.Table
import ZincioHttp.Text

/-! Request and trailer field lists of HTTP/2 and their validation. What the
`http` crate accepts as a name, a value, a method or a target is a parameter;
every rule the crate under study checks itself is written out. -/

namespace ZincioHttp.H2

open Option

open H2.Hpack (Header)

/-- What the `http` crate accepts. -/
structure HttpCrate where
  headerName : Octets → Bool
  headerValue : Octets → Bool
  method : Octets → Bool
  /-- `Uri::try_from`. -/
  uri : Octets → Bool
  /-- `Uri::builder` with a scheme, an authority if there is one, and a path. -/
  buildUri : Octets → Option Octets → Octets → Bool

/-- An `http` crate without any demands, for runs on fixed inputs. -/
def HttpCrate.permissive : HttpCrate :=
  ⟨fun _ => true, fun _ => true, fun _ => true, fun _ => true, fun _ _ _ => true⟩

/-- The target of a request, by the way it was obtained. -/
inductive Uri where
  | authority (authority : Octets)
  | built (scheme : Octets) (authority : Option Octets) (path : Octets)
  | path (path : Octets)
  deriving DecidableEq, Repr

structure ParsedRequest where
  method : Octets
  uri : Uri
  headers : List Header
  contentLength : Option ℕ
  expectContinue : Bool
  isConnect : Bool
  deriving DecidableEq, Repr

/-! ### Single fields -/

/-- `CONNECTION_SPECIFIC`. -/
def connectionSpecific : List Octets :=
  [octets "connection", octets "keep-alive", octets "proxy-connection",
    octets "transfer-encoding", octets "upgrade"]

def isConnectionSpecific (name : Octets) : Bool := decide (name ∈ connectionSpecific)

/-- `std::str::from_utf8`. -/
def fromUtf8 (octs : Octets) : Option (List Char) :=
  (String.fromUTF8? ⟨octs.toArray⟩).map String.toList

/-- `char::is_whitespace`. -/
def isWhitespace (c : Char) : Bool :=
  let n := c.toNat
  decide ((9 ≤ n ∧ n ≤ 13) ∨ n = 0x20 ∨ n = 0x85 ∨ n = 0xa0 ∨ n = 0x1680 ∨
    (0x2000 ≤ n ∧ n ≤ 0x200a) ∨ n = 0x2028 ∨ n = 0x2029 ∨ n = 0x202f ∨ n = 0x205f ∨ n = 0x3000)

/-- `te_is_trailers`. -/
def teIsTrailers (value : Octets) : Bool :=
  match fromUtf8 value with
  | none => false
  | some chars =>
    (chars.splitOn ',').all fun part => decide (trimBoth isWhitespace part = "trailers".toList)

/-- One round of the loop over the digits, with both overflow checks. -/
def pushDigit (result : ℕ) (b : UInt8) : Option ℕ :=
  if result * 10 ≥ 2 ^ 64 then none
  else if result * 10 + (b.toNat - 0x30) ≥ 2 ^ 64 then none
  else some (result * 10 + (b.toNat - 0x30))

/-- `parse_content_length`. -/
def parseContentLength (value : Octets) : Option ℕ :=
  let digits := trimBoth isOws value
  if digits.isEmpty || digits.any fun b => !isAsciiDigit b then none
  else digits.foldlM pushDigit 0

/-! ### The field list of a request -/

/-- What the loop of `parse_request` has collected. -/
structure RequestFields where
  method : Option Octets := none
  scheme : Option Octets := none
  authority : Option Octets := none
  path : Option Octets := none
  protocol : Option Octets := none
  regular : List Header := []
  contentLength : Option ℕ := none
  contentLengthConflict : Bool := false
  pseudoPhase : Bool := true

def unseen (seen : Option Octets) (value : Octets) : Option Octets :=
  if seen.isSome then none else some value

namespace RequestFields

def pushPseudo (r : RequestFields) (name value : Octets) : Option RequestFields :=
  if !r.pseudoPhase then none
  else if name = octets ":method" then (unseen r.method value).map fun v => { r with method := v }
  else if name = octets ":scheme" then (unseen r.scheme value).map fun v => { r with scheme := v }
  else if name = octets ":authority" then
    (unseen r.authority value).map fun v => { r with authority := v }
  else if name = octets ":path" then (unseen r.path value).map fun v => { r with path := v }
  else if name = octets ":protocol" then
    (unseen r.protocol value).map fun v => { r with protocol := v }
  else none

/-- Notes a `content-length` value and whether it contradicts an earlier one. -/
def pushContentLength (r : RequestFields) (value : Octets) : Option RequestFields :=
  match parseContentLength value with
  | none => none
  | some value =>
    match r.contentLength with
    | some previous =>
      some (if previous ≠ value then { r with contentLengthConflict := true } else r)
    | none => some { r with contentLength := some value }

def pushRegular (http : HttpCrate) (r : RequestFields) (name value : Octets) :
    Option RequestFields := do
  let r := { r with pseudoPhase := false }
  if isConnectionSpecific name then none
  if name = octets "te" ∧ teIsTrailers value = false then none
  let r ← if name = octets "content-length" then r.pushContentLength value else some r
  if name.any isAsciiUppercase then none
  if !http.headerName name then none
  if !http.headerValue value then none
  return { r with regular := r.regular ++ [⟨name, value⟩] }

def push (http : HttpCrate) (r : RequestFields) (header : Header) : Option RequestFields :=
  if header.name.head? = some 0x3a then r.pushPseudo header.name header.value
  else r.pushRegular http header.name header.value

def expectContinue (r : RequestFields) : Bool :=
  match r.regular.find? fun h => decide (h.name = octets "expect") with
  | none => false
  | some h => h.value.all isVisible && eqIgnoreAsciiCase h.value (octets "100-continue")

def finishConnect (http : HttpCrate) (r : RequestFields) (method : Octets) :
    Option ParsedRequest := do
  let authority ← r.authority
  if r.scheme.isSome || r.path.isSome then none
  if r.contentLengthConflict then none
  if !http.uri authority then none
  if !http.method method then none
  return ⟨method, .authority authority, r.regular, r.contentLength, false, true⟩

def target (http : HttpCrate) (r : RequestFields) (scheme path : Octets) : Option Uri := do
  let _ ← fromUtf8 scheme
  match r.authority with
  | none => pure ()
  | some authority => let _ ← fromUtf8 authority
  let _ ← fromUtf8 path
  if http.buildUri scheme r.authority path then return .built scheme r.authority path
  else if http.uri path then return .path path
  else none

def finish (http : HttpCrate) (r : RequestFields) : Option ParsedRequest := do
  let method ← r.method
  if method = octets "CONNECT" then r.finishConnect http method
  else
    if r.protocol.isSome then none
    let scheme ← r.scheme
    let path ← r.path
    if path.isEmpty then none
    let uri ← r.target http scheme path
    if r.contentLengthConflict then none
    if !http.method method then none
    return ⟨method, uri, r.regular, r.contentLength, r.expectContinue, false⟩

section

variable {http : HttpCrate} {r r' : RequestFields} {name value : Octets}

theorem pushContentLength_eq_some (h : r.pushContentLength value = some r') :
    ∃ length conflict, r' = { r with
      contentLength := length, contentLengthConflict := conflict } := by
  unfold pushContentLength at h
  split at h
  · cases h
  · split at h
    · split_ifs at h
      · exact ⟨r.contentLength, true, (some.inj h).symm⟩
      · exact ⟨r.contentLength, r.contentLengthConflict, (some.inj h).symm⟩
    · exact ⟨_, r.contentLengthConflict, (some.inj h).symm⟩

/-- A regular field that is taken has passed every check; a `content-length` is noted. -/
theorem pushRegular_eq_some (h : r.pushRegular http name value = some r') :
    isConnectionSpecific name = false ∧ (name = octets "te" → teIsTrailers value) ∧
      ∃ length conflict, r' = { r with
        pseudoPhase := false
        contentLength := length
        contentLengthConflict := conflict
        regular := r.regular ++ [⟨name, value⟩] } := by
  simp only [pushRegular, bind_eq_bind, bind_none, pure_def, bind_some, ite_none_left_eq_some] at h
  obtain ⟨hspecific, hte, h⟩ := h
  refine ⟨by simpa using hspecific, fun hname => by simpa [hname] using hte, ?_⟩
  split at h
  · obtain ⟨noted, hnoted, h⟩ := Option.bind_eq_some_iff.1 h
    obtain ⟨length, conflict, rfl⟩ := pushContentLength_eq_some hnoted
    simp only [ite_none_left_eq_some, some.injEq] at h
    exact ⟨length, conflict, h.2.2.2.symm⟩
  · simp only [ite_none_left_eq_some, some.injEq] at h
    exact ⟨_, _, h.2.2.2.symm⟩

end

end RequestFields

/-- `parse_request`; `none` for a malformed request. -/
def parseRequest (http : HttpCrate) (headers : List Header) : Option ParsedRequest := do
  let fields ← headers.foldlM (RequestFields.push http) {}
  fields.finish http

/-- One round of the loop of `parse_trailers`. -/
def pushTrailer (http : HttpCrate) (trailers : List Header) (header : Header) :
    Option (List Header) :=
  if header.name.head? = some 0x3a then none
  else if header.name.any isAsciiUppercase then none
  else if !http.headerName header.name then none
  else if !http.headerValue header.value then none
  else some (trailers ++ [header])

/-- `parse_trailers`; `none` for a malformed trailer section. -/
def parseTrailers (http : HttpCrate) (headers : List Header) : Option (List Header) :=
  headers.foldlM (pushTrailer http) []

end ZincioHttp.H2
