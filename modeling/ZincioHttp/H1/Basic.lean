import ZincioHttp.Text

/-! Options, errors and header maps of the HTTP/1 connection. A `HeaderMap` is
the list of its fields, names in lowercase as `HeaderName` keeps them, values of
one name in the order in which they were appended. -/

namespace ZincioHttp.H1

/-- The parts of `Http1Options` that decide what is read and written. -/
structure Http1Options where
  maxHeaderSize : ℕ := 16384
  maxHeaderCount : ℕ := 128
  sendContinueResponse : Bool := true
  enableVectoredWrite : Bool := true
  deriving DecidableEq, Repr

inductive ErrorKind where
  | invalidData
  | invalidInput
  | unexpectedEof
  | writeZero
  | other
  deriving DecidableEq, Repr

/-- `std::io::Error`. -/
structure IoError where
  kind : ErrorKind
  message : String
  deriving DecidableEq, Repr

inductive Version where
  | http10
  | http11
  deriving DecidableEq, Repr

/-- `http_body::Frame`. -/
inductive BodyFrame where
  | data (octets : Octets)
  | trailers (fields : List (Octets × Octets))
  deriving DecidableEq, Repr

def BodyFrame.payload? : BodyFrame → Option Octets
  | .data d => some d
  | .trailers _ => none

abbrev HeaderMap := List (Octets × Octets)

namespace HeaderMap

/-- `HeaderMap::get`: the first value. -/
def get (m : HeaderMap) (name : Octets) : Option Octets := m.lookup name

def getAll (m : HeaderMap) (name : Octets) : List Octets :=
  (m.filter fun f => f.1 == name).map Prod.snd

theorem get_eq_head? (m : HeaderMap) (name : Octets) : get m name = (getAll m name).head? := by
  induction m with
  | nil => rfl
  | cons f m ih =>
    obtain ⟨n, v⟩ := f
    rw [get, List.lookup_cons, getAll, List.filter_cons]
    by_cases h : n = name
    · subst h
      simp
    · rw [show (name == n) = false by simpa using Ne.symm h,
        show (n == name) = false by simpa using h]
      exact ih

end HeaderMap

/-- `HeaderValue::to_str`. -/
def toStr (value : Octets) : Option Octets := if value.all isVisible then some value else none

/-- The elements of a comma-separated list, each trimmed. -/
def listElements (text : Octets) : List Octets := (text.splitOn 0x2c).map (trimBoth isOws)

/-- `split(',').any(|v| v.trim().eq_ignore_ascii_case(token))`. -/
def listsToken (token text : Octets) : Bool :=
  (listElements text).any fun element => eqIgnoreAsciiCase element token

end ZincioHttp.H1
