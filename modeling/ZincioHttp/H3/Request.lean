import ZincioHttp.H2.Request
import ZincioHttp.H3.Transport

/-! Request and trailer field sections of HTTP/3 and their validation. As in HTTP/2,
what the `http` crate accepts is a parameter and the rules of the crate under study
are written out; a `content-length` is a field like any other here. -/

namespace ZincioHttp.H3

open Qpack

/-- What the `http` crate accepts beyond the single parts. -/
structure HttpCrate extends H2.HttpCrate where
  /-- `Uri::builder` with a path alone. -/
  pathUri : Octets → Bool
  /-- Whether `try_append` has room for another field. -/
  tryAppend : List Field → Field → Bool

/-- An `http` crate without any demands, for runs on fixed inputs. -/
def HttpCrate.permissive : HttpCrate := ⟨H2.HttpCrate.permissive, fun _ => true, fun _ _ => true⟩

inductive Uri where
  | full (scheme authority path : Octets)
  | path (path : Octets)
  deriving DecidableEq, Repr

structure Request where
  method : Octets
  uri : Uri
  headers : List Field
  deriving DecidableEq, Repr

/-! ### Single fields -/

/-- `connection_specific`. -/
def connectionSpecific (name value : Octets) : Bool :=
  H2.connectionSpecific.any (eqIgnoreAsciiCase name) ||
    (eqIgnoreAsciiCase name (octets "te") && !eqIgnoreAsciiCase value (octets "trailers"))

def takePseudo (slot : Option Octets) (value : Octets) : Except StreamError (Option Octets) :=
  if slot.isSome then .error .message else .ok (some value)

/-- `field_name` and the conversion of the value. -/
def fieldLine (http : HttpCrate) (f : Field) : Except StreamError Field :=
  if f.name.any isAsciiUppercase || !http.headerName f.name || !http.headerValue f.value then
    .error .message
  else .ok f

/-! ### The field section of a request -/

/-- What the loop of `build_request` has collected. -/
structure RequestFields where
  method : Option Octets := none
  scheme : Option Octets := none
  authority : Option Octets := none
  path : Option Octets := none
  protocol : Option Octets := none
  regular : List Field := []
  pseudoDone : Bool := false

namespace RequestFields

def pushPseudo (r : RequestFields) (name value : Octets) : Except StreamError RequestFields :=
  if r.pseudoDone then .error .message
  else if name = octets ":method" then
    (takePseudo r.method value).map fun v => { r with method := v }
  else if name = octets ":scheme" then
    (takePseudo r.scheme value).map fun v => { r with scheme := v }
  else if name = octets ":authority" then
    (takePseudo r.authority value).map fun v => { r with authority := v }
  else if name = octets ":path" then (takePseudo r.path value).map fun v => { r with path := v }
  else if name = octets ":protocol" then
    (takePseudo r.protocol value).map fun v => { r with protocol := v }
  else .error .message

def pushRegular (http : HttpCrate) (r : RequestFields) (f : Field) :
    Except StreamError RequestFields :=
  if connectionSpecific f.name f.value then .error .message
  else (fieldLine http f).map fun f => { r with pseudoDone := true, regular := r.regular ++ [f] }

def push (http : HttpCrate) (r : RequestFields) (f : Field) : Except StreamError RequestFields :=
  if f.name.head? = some 0x3a then r.pushPseudo f.name f.value else r.pushRegular http f

/-- Which pseudo-fields a request must and must not have. -/
def wellFormed (r : RequestFields) (method : Octets) : Bool :=
  if method = octets "CONNECT" then
    if r.protocol.isSome then r.scheme.isSome && r.authority.isSome && r.path.isNone
    else r.authority.isSome && r.scheme.isNone && r.path.isNone
  else r.protocol.isNone && r.scheme.isSome && r.path.isSome && r.authority.isSome

/-- `build_uri`; the parts are there by then. -/
def buildUri (http : HttpCrate) (r : RequestFields) (connect : Bool) : Except StreamError Uri :=
  if connect then
    let scheme := r.scheme.getD (octets "http")
    let authority := r.authority.getD []
    if http.buildUri scheme (some authority) [] then .ok (.full scheme authority [])
    else .error .message
  else
    let scheme := r.scheme.getD []
    let path := r.path.getD []
    match r.authority with
    | some authority =>
      if http.buildUri scheme (some authority) path then .ok (.full scheme authority path)
      else .error .message
    | none => if http.pathUri path then .ok (.path path) else .error .message

end RequestFields

/-- One field more for a header map. -/
def tryAppend (http : HttpCrate) (map : List Field) (f : Field) : Except StreamError (List Field) :=
  if http.tryAppend map f then .ok (map ++ [f]) else .error .message

def buildRequest (http : HttpCrate) (headers : List Field) : Except StreamError Request := do
  let r ← headers.foldlM (RequestFields.push http) {}
  let method ← r.method.elim (.error .message) .ok
  if !http.method method then .error .message
  if !r.wellFormed method then .error .message
  let uri ← r.buildUri http (method = octets "CONNECT")
  let headers ← r.regular.foldlM (tryAppend http) []
  return ⟨method, uri, headers⟩

/-! ### Trailers -/

/-- One round of the loop of `header_map`. -/
def pushTrailer (http : HttpCrate) (map : List Field) (f : Field) :
    Except StreamError (List Field) :=
  if f.name.head? = some 0x3a || connectionSpecific f.name f.value then .error .message
  else (fieldLine http f).bind (tryAppend http map)

/-- `header_map`. -/
def headerMap (http : HttpCrate) (headers : List Field) : Except StreamError (List Field) :=
  headers.foldlM (pushTrailer http) []

end ZincioHttp.H3
