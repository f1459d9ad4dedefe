import ZincioHttp.Basic
import ZincioHttp.Lib.BoundedFifo

/-! Field lines of QPACK, the scan that both of its tables are searched with, and
the static table. A scan reports the first exact match and the first name match
of one pass. -/

namespace ZincioHttp.H3.Qpack

open Lib

/-- A field line, `(Bytes, Bytes)` in the source. -/
structure Field where
  name : Octets
  value : Octets
  deriving DecidableEq, Repr

namespace Field

/-- `entry_size`: the octets a field counts for in a dynamic table. -/
def size (f : Field) : ℕ := f.name.length + f.value.length + 32

def pair (f : Field) : Octets × Octets := (f.name, f.value)

end Field

/-- The loop of `find_full_or_name` from position `i` on, with the name match so
far; `index` turns a position into what the table reports. -/
def scanFullOrName (index : ℕ → ℕ) (name value : Octets) :
    List Field → ℕ → Option ℕ → Option ℕ × Option ℕ
  | [], _, nameMatch => (none, nameMatch)
  | e :: rest, i, nameMatch =>
    if e.name ≠ name then scanFullOrName index name value rest (i + 1) nameMatch
    else
      let nameMatch := nameMatch.orElse fun _ => some (index i)
      if e.value = value then (some (index i), nameMatch)
      else scanFullOrName index name value rest (i + 1) nameMatch

section
variable (index : ℕ → ℕ) (name value : Octets) (l : List Field)

theorem scanFullOrName_eq_aux :
    ∀ (i : ℕ) (nameMatch : Option ℕ), scanFullOrName index name value l i nameMatch =
      ((firstIdx Field.pair l (name, value)).map (fun j => index (i + j)),
        nameMatch.orElse fun _ => (firstIdx Field.name l name).map (fun j => index (i + j))) := by
  induction l with
  | nil => intro i nameMatch; cases nameMatch <;> simp [scanFullOrName]
  | cons e l ih =>
    intro i nameMatch
    simp only [scanFullOrName, firstIdx_cons, ih, Field.pair, Prod.mk.injEq]
    by_cases hn : e.name = name
    · by_cases hv : e.value = value
      · cases nameMatch <;> simp [hn, hv]
      · cases nameMatch <;> cases firstIdx Field.pair l (name, value) <;>
          simp [hn, hv, add_assoc, add_comm 1]
    · cases nameMatch <;> cases firstIdx Field.pair l (name, value) <;>
        cases firstIdx Field.name l name <;> simp [hn, add_assoc, add_comm 1]

/-- One pass finds the first exact match and the first name match. -/
theorem scanFullOrName_eq : scanFullOrName index name value l 0 none =
      ((firstIdx Field.pair l (name, value)).map index,
        (firstIdx Field.name l name).map index) := by
  simpa using scanFullOrName_eq_aux index name value l 0 none

end

namespace StaticTable

/-- `STATIC_TABLE`. -/
def entries : List Field :=
  List.map (fun e => ⟨octets e.1, octets e.2⟩)
   [(":authority", ""), (":path", "/"), ("age", "0"), ("content-disposition", ""),
    ("content-length", "0"), ("cookie", ""), ("date", ""), ("etag", ""),
    ("if-modified-since", ""), ("if-none-match", ""), ("last-modified", ""), ("link", ""),
    ("location", ""), ("referer", ""), ("set-cookie", ""), (":method", "CONNECT"),
    (":method", "DELETE"), (":method", "GET"), (":method", "HEAD"), (":method", "OPTIONS"),
    (":method", "POST"), (":method", "PUT"), (":scheme", "http"), (":scheme", "https"),
    (":status", "103"), (":status", "200"), (":status", "304"), (":status", "404"),
    (":status", "503"), ("accept", "*/*"), ("accept", "application/dns-message"),
    ("accept-encoding", "gzip, deflate, br"), ("accept-ranges", "bytes"),
    ("access-control-allow-headers", "cache-control"),
    ("access-control-allow-headers", "content-type"), ("access-control-allow-origin", "*"),
    ("cache-control", "max-age=0"), ("cache-control", "max-age=2592000"),
    ("cache-control", "max-age=604800"), ("cache-control", "no-cache"),
    ("cache-control", "no-store"), ("cache-control", "public, max-age=31536000"),
    ("content-encoding", "br"), ("content-encoding", "gzip"),
    ("content-type", "application/dns-message"), ("content-type", "application/javascript"),
    ("content-type", "application/json"), ("content-type", "application/x-www-form-urlencoded"),
    ("content-type", "image/gif"), ("content-type", "image/jpeg"), ("content-type", "image/png"),
    ("content-type", "text/css"), ("content-type", "text/html; charset=utf-8"),
    ("content-type", "text/plain"), ("content-type", "text/plain;charset=utf-8"),
    ("range", "bytes=0-"), ("strict-transport-security", "max-age=31536000"),
    ("strict-transport-security", "max-age=31536000; includesubdomains"),
    ("strict-transport-security", "max-age=31536000; includesubdomains; preload"),
    ("vary", "accept-encoding"), ("vary", "origin"), ("x-content-type-options", "nosniff"),
    ("x-xss-protection", "1; mode=block"), (":status", "100"), (":status", "204"),
    (":status", "206"), (":status", "302"), (":status", "400"), (":status", "403"),
    (":status", "421"), (":status", "425"), (":status", "500"), ("accept-language", ""),
    ("access-control-allow-credentials", "FALSE"), ("access-control-allow-credentials", "TRUE"),
    ("access-control-allow-headers", "*"), ("access-control-allow-methods", "get"),
    ("access-control-allow-methods", "get, post, options"),
    ("access-control-allow-methods", "options"),
    ("access-control-expose-headers", "content-length"),
    ("access-control-request-headers", "content-type"), ("access-control-request-method", "get"),
    ("access-control-request-method", "post"), ("alt-svc", "clear"), ("authorization", ""),
    ("content-security-policy", "script-src 'none'; object-src 'none'; base-uri 'none'"),
    ("early-data", "1"), ("expect-ct", ""), ("forwarded", ""), ("if-range", ""), ("origin", ""),
    ("purpose", "prefetch"), ("server", ""), ("timing-allow-origin", "*"),
    ("upgrade-insecure-requests", "1"), ("user-agent", ""), ("x-forwarded-for", ""),
    ("x-frame-options", "deny"), ("x-frame-options", "sameorigin")]

def get (index : ℕ) : Option Field := entries[index]?

def findFullOrName (name value : Octets) : Option ℕ × Option ℕ :=
  scanFullOrName id name value entries 0 none

def findName (name : Octets) : Option ℕ := entries.findIdx? fun e => decide (e.name = name)

theorem length_entries : entries.length = 99 := by decide +kernel

theorem get_of_full {name value : Octets} {i : ℕ}
    (h : (findFullOrName name value).1 = some i) : get i = some ⟨name, value⟩ ∧ i < 99 := by
  rw [findFullOrName, scanFullOrName_eq, Option.map_id] at h
  obtain ⟨e, he, hkey⟩ := firstIdx_eq_some Field.pair h
  have hlt := firstIdx_lt Field.pair h
  rw [length_entries] at hlt
  refine ⟨?_, hlt⟩
  rw [get, he]
  cases e
  cases hkey
  rfl

theorem get_of_name {name : Octets} {i : ℕ} (h : firstIdx Field.name entries name = some i) :
    (∃ value, get i = some ⟨name, value⟩) ∧ i < 99 := by
  obtain ⟨e, he, rfl⟩ := firstIdx_eq_some Field.name h
  have hlt := firstIdx_lt Field.name h
  rw [length_entries] at hlt
  exact ⟨⟨e.value, he⟩, hlt⟩

theorem findFullOrName_snd (name value : Octets) :
    (findFullOrName name value).2 = firstIdx Field.name entries name := by
  rw [findFullOrName, scanFullOrName_eq, Option.map_id]
  rfl

end StaticTable

end ZincioHttp.H3.Qpack
