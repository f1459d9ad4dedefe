import ZincioHttp.H1.Basic
import ZincioHttp.Lib.Gather
import ZincioHttp.Lib.Search

/-! Reading the body of a request. The socket is the list of what its reads
yield; an empty read is its end. A read that `fill_buf_or_wanted` gives up
because the handler asked for the body is a wake-up. The octets sent to the
handler are collected in the order of the `send` calls. -/

namespace ZincioHttp.H1

open Lib

abbrev SocketRead := Fill UInt8 IoError

/-! ### `100 Continue` -/

/-- `ContinueSignal`: what `is_wanted` answers to its calls, one after another.
A request without `Expect: 100-continue` has none. -/
abbrev ContinueSignal := Option (ℕ → Bool)

/-- What a body reader did for `100 Continue`: `continue_sent`, how often
`is_wanted` was asked, and the octets written. -/
structure Interim where
  continueSent : Bool
  asked : ℕ
  written : Octets
  deriving DecidableEq, Repr

def Interim.none : Interim := ⟨false, 0, []⟩

/-- `write_100_continue`. -/
def continueResponse : Version → Octets
  | .http10 => octets "HTTP/1.0 100 Continue\r\n\r\n"
  | .http11 => octets "HTTP/1.1 100 Continue\r\n\r\n"

/-- The check before a read: once the handler asked for the body, the interim
response is sent, and only once. -/
def checkContinue (signal : ContinueSignal) (version : Version) (s : Interim) : Interim :=
  if s.continueSent then s
  else
    match signal with
    | .none => s
    | some wanted =>
      if wanted s.asked then ⟨true, s.asked + 1, s.written ++ continueResponse version⟩
      else { s with asked := s.asked + 1 }

/-! ### Results -/

/-- What a reading function leaves: its result (none while it waits for the
socket), the buffer, the later reads and the interim response. -/
structure Read (α : Type) where
  result : Option (Except IoError α)
  readBuf : Octets
  fills : List SocketRead
  interim : Interim

/-- A body that was read, with the frames sent to the handler. -/
structure ReadBody where
  result : Option (Except IoError Unit)
  frames : List BodyFrame
  readBuf : Octets
  fills : List SocketRead
  interim : Interim

def ReadBody.payloads (r : ReadBody) : List Octets := r.frames.filterMap BodyFrame.payload?

def unexpectedEof : IoError := ⟨.unexpectedEof, "unexpected EOF"⟩

/-- The result of a loop that fails at the end of the input. -/
def verdictResult {ρ : Type} : Verdict IoError ρ → Option (Except IoError ρ)
  | .told r => some (.ok r)
  | .ended => some (.error unexpectedEof)
  | .failed e => some (.error e)
  | .waiting => none

section
variable (signal : ContinueSignal) (version : Version)

/-! ### Bodies of a declared length -/

/-- The loop of `read_body_fn` after its first round. -/
def readBodyLoop : List SocketRead → ℕ → Octets → List BodyFrame → Interim → ReadBody
  | fills, remaining, buf, sent, s =>
    if remaining = 0 then ⟨some (.ok ()), sent, buf, fills, s⟩
    else
      match fills with
      | [] => ⟨none, sent, buf, [], checkContinue signal version s⟩
      | .woken :: rest => readBodyLoop rest remaining buf sent (checkContinue signal version s)
      | .failed e :: rest => ⟨some (.error e), sent, buf, rest, checkContinue signal version s⟩
      -- the end of the input ends the loop without an error
      | .read [] :: rest => ⟨some (.ok ()), sent, buf, rest, checkContinue signal version s⟩
      | .read (b :: bs) :: rest =>
        let readBuf := buf ++ b :: bs
        let n := min readBuf.length remaining
        readBodyLoop rest (remaining - n) (readBuf.drop n) (sent ++ [.data (readBuf.take n)])
          (checkContinue signal version s)

/-- `read_body_fn`. -/
def readBodyFn (contentLength : ℕ) (fills : List SocketRead) (buf : Octets) (s : Interim) :
    ReadBody :=
  if contentLength = 0 ∨ buf = [] then readBodyLoop signal version fills contentLength buf [] s
  else
    let n := min buf.length contentLength
    readBodyLoop signal version fills (contentLength - n) (buf.drop n) [.data (buf.take n)]
      (checkContinue signal version s)

/-! ### Chunked bodies -/

def crlf : Octets := [0x0d, 0x0a]

def invalidChunkLength : IoError := ⟨.invalidData, "invalid chunk length"⟩

/-- The text of a size line. Text that is not UTF-8 has an octet that is no
digit, and both errors are the same. -/
def parseChunkLength (text : Octets) : Except IoError ℕ :=
  match fromStrRadix hexDigit 16 text with
  | none => .error invalidChunkLength
  | some len => .ok len

/-- The limit of a size line, its end included. -/
def sizeLineLimit : ℕ := 48

/-- The first loop of `read_body_chunk`: the chunk length and the length of the
size line. -/
def sizeLine : Gather UInt8 (Except IoError (ℕ × ℕ)) where
  stop pos :=
    if pos ≥ sizeLineLimit then some (.error ⟨.invalidData, "chunk length buffer overflow"⟩)
    else none
  count pos n := pos + n
  look old new buf :=
    let beginSearch := old - 1
    (find crlf ((buf.take (min new sizeLineLimit)).drop beginSearch)).map fun pos =>
      (parseChunkLength (buf.take (beginSearch + pos))).map (·, beginSearch + pos + 2)

/-- The second loop: the chunk and two octets after it. -/
def chunkData (len : ℕ) : Gather UInt8 Unit where
  stop read := if read < len + 2 then none else some ()
  count read n := read + n
  look _ _ _ := none

/-- `read_body_chunk`. -/
def readBodyChunk (wouldHaveTrailers : Bool) (fills : List SocketRead) (buf : Octets)
    (s : Interim) : Read Octets :=
  let line := sizeLine.run (checkContinue signal version) fills buf s
  match verdictResult line.verdict with
  | none => ⟨none, line.buf, line.fills, line.side⟩
  | some (.error e) => ⟨some (.error e), line.buf, line.fills, line.side⟩
  | some (.ok (.error e)) => ⟨some (.error e), line.buf, line.fills, line.side⟩
  | some (.ok (.ok (len, lineLength))) =>
    let buf := line.buf.drop lineLength
    if len = 0 ∧ wouldHaveTrailers then ⟨some (.ok []), buf, line.fills, line.side⟩
    else if len + 2 > usizeMax then
      ⟨some (.error ⟨.invalidData, "chunk length too large"⟩), buf, line.fills, line.side⟩
    else
      let rest := (chunkData len).run (checkContinue signal version) line.fills buf line.side
      match verdictResult rest.verdict with
      | none => ⟨none, rest.buf, rest.fills, rest.side⟩
      | some (.error e) => ⟨some (.error e), rest.buf, rest.fills, rest.side⟩
      -- the two octets after the chunk are dropped unseen
      | some (.ok ()) =>
        ⟨some (.ok (rest.buf.take len)), rest.buf.drop (len + 2), rest.fills, rest.side⟩

/-! ### Trailers -/

/-- The parser of field sections: at most so many fields, and none for a section
that is not complete. -/
structure Httparse where
  parseHeaders : ℕ → Octets → Except IoError (Option HeaderMap)

/-- The loop of `read_trailers`: no trailers, or the length of the section. -/
def trailerSection (maxHeaderSize : ℕ) : Gather UInt8 (Except IoError (Option ℕ)) where
  stop bytesRead :=
    if bytesRead < maxHeaderSize then none
    else some (.error ⟨.invalidData, "request too large"⟩)
  count old n := min (old + n) maxHeaderSize
  look old new buf :=
    if 2 ≤ new ∧ crlf <+: buf then some (.ok none)
    else
      let beginSearch := old - 3
      (find (crlf ++ crlf) ((buf.take new).drop beginSearch)).map fun index =>
        .ok (some (beginSearch + index + 4))

/-- `read_trailers`. It waits with `fill_buf`, so no wake-up reaches it. -/
def readTrailers (http : Httparse) (opts : Http1Options) (fills : List SocketRead) (buf : Octets)
    (s : Interim) : Read (Option HeaderMap) :=
  let found := (trailerSection opts.maxHeaderSize).run id fills buf s
  match verdictResult found.verdict with
  | none => ⟨none, found.buf, found.fills, found.side⟩
  | some (.error e) => ⟨some (.error e), found.buf, found.fills, found.side⟩
  | some (.ok (.error e)) => ⟨some (.error e), found.buf, found.fills, found.side⟩
  -- the line that ends the section stays in the buffer
  | some (.ok (.ok none)) => ⟨some (.ok none), found.buf, found.fills, found.side⟩
  | some (.ok (.ok (some length))) =>
    let rest := found.buf.drop length
    match http.parseHeaders opts.maxHeaderCount (found.buf.take length) with
    | .error e => ⟨some (.error e), rest, found.fills, found.side⟩
    | .ok none =>
      ⟨some (.error ⟨.invalidInput, "trailer headers incomplete"⟩), rest, found.fills, found.side⟩
    | .ok (some fields) => ⟨some (.ok (some fields)), rest, found.fills, found.side⟩

/-! ### The whole body -/

/-- The loop of `read_chunked_body_fn`. -/
def readChunks (wouldHaveTrailers : Bool) :
    ℕ → List BodyFrame → List SocketRead → Octets → Interim → ReadBody
  | 0, sent, fills, buf, s => ⟨none, sent, buf, fills, s⟩
  | fuel + 1, sent, fills, buf, s =>
    let r := readBodyChunk signal version wouldHaveTrailers fills buf s
    match r.result with
    | none => ⟨none, sent, r.readBuf, r.fills, r.interim⟩
    | some (.error e) => ⟨some (.error e), sent, r.readBuf, r.fills, r.interim⟩
    | some (.ok []) => ⟨some (.ok ()), sent, r.readBuf, r.fills, r.interim⟩
    | some (.ok (b :: bs)) =>
      readChunks wouldHaveTrailers fuel (sent ++ [.data (b :: bs)]) r.fills r.readBuf r.interim

/-- `read_chunked_body_fn`. Each chunk takes octets from the input, so the loop
makes at most as many rounds as there are octets. -/
def readChunkedBodyFn (http : Httparse) (opts : Http1Options) (wouldHaveTrailers : Bool)
    (fills : List SocketRead) (buf : Octets) (s : Interim) : ReadBody :=
  let r := readChunks signal version wouldHaveTrailers ((buf ++ arriving fills).length + 1) []
    fills buf s
  match r.result with
  | some (.ok ()) =>
    if wouldHaveTrailers then
      let t := readTrailers http opts r.fills r.readBuf r.interim
      match t.result with
      | none => ⟨none, r.frames, t.readBuf, t.fills, t.interim⟩
      | some (.error e) => ⟨some (.error e), r.frames, t.readBuf, t.fills, t.interim⟩
      | some (.ok none) => ⟨some (.ok ()), r.frames, t.readBuf, t.fills, t.interim⟩
      | some (.ok (some fields)) =>
        ⟨some (.ok ()), r.frames ++ [.trailers fields], t.readBuf, t.fills, t.interim⟩
    else r
  | _ => r

end

end ZincioHttp.H1
