import ZincioHttp.Basic
import ZincioHttp.Lib.BoundedFifo

/-! The static part of the HPACK table. The source holds it three times: as the
array a scan reads and as two perfect-hash maps, from pairs and from names to
one-based indices. The maps answer exactly what the scan would. -/

namespace ZincioHttp.H2.Hpack

open Lib

/-- `STATIC_TABLE`. -/
def staticTable : List (Octets × Octets) := List.map (fun e => (octets e.1, octets e.2))
  [(":authority", ""), (":method", "GET"), (":method", "POST"), (":path", "/"),
   (":path", "/index.html"), (":scheme", "http"), (":scheme", "https"), (":status", "200"),
   (":status", "204"), (":status", "206"), (":status", "304"), (":status", "400"),
   (":status", "404"), (":status", "500"), ("accept-charset", ""),
   ("accept-encoding", "gzip, deflate"), ("accept-language", ""), ("accept-ranges", ""),
   ("accept", ""), ("access-control-allow-origin", ""), ("age", ""), ("allow", ""),
   ("authorization", ""), ("cache-control", ""), ("content-disposition", ""),
   ("content-encoding", ""), ("content-language", ""), ("content-length", ""),
   ("content-location", ""), ("content-range", ""), ("content-type", ""), ("cookie", ""),
   ("date", ""), ("etag", ""), ("expect", ""), ("expires", ""), ("from", ""), ("host", ""),
   ("if-match", ""), ("if-modified-since", ""), ("if-none-match", ""), ("if-range", ""),
   ("if-unmodified-since", ""), ("last-modified", ""), ("link", ""), ("location", ""),
   ("max-forwards", ""), ("proxy-authenticate", ""), ("proxy-authorization", ""), ("range", ""),
   ("referer", ""), ("refresh", ""), ("retry-after", ""), ("server", ""), ("set-cookie", ""),
   ("strict-transport-security", ""), ("transfer-encoding", ""), ("user-agent", ""), ("vary", ""),
   ("via", ""), ("www-authenticate", "")]

/-- `STATIC_EXACT`. -/
def staticExact : List ((Octets × Octets) × ℕ) :=
  List.map (fun e => ((octets e.1, octets e.2.1), e.2.2))
  [(":authority", "", 1), (":method", "GET", 2), (":method", "POST", 3), (":path", "/", 4),
   (":path", "/index.html", 5), (":scheme", "http", 6), (":scheme", "https", 7),
   (":status", "200", 8), (":status", "204", 9), (":status", "206", 10), (":status", "304", 11),
   (":status", "400", 12), (":status", "404", 13), (":status", "500", 14),
   ("accept-charset", "", 15), ("accept-encoding", "gzip, deflate", 16),
   ("accept-language", "", 17), ("accept-ranges", "", 18), ("accept", "", 19),
   ("access-control-allow-origin", "", 20), ("age", "", 21), ("allow", "", 22),
   ("authorization", "", 23), ("cache-control", "", 24), ("content-disposition", "", 25),
   ("content-encoding", "", 26), ("content-language", "", 27), ("content-length", "", 28),
   ("content-location", "", 29), ("content-range", "", 30), ("content-type", "", 31),
   ("cookie", "", 32), ("date", "", 33), ("etag", "", 34), ("expect", "", 35),
   ("expires", "", 36), ("from", "", 37), ("host", "", 38), ("if-match", "", 39),
   ("if-modified-since", "", 40), ("if-none-match", "", 41), ("if-range", "", 42),
   ("if-unmodified-since", "", 43), ("last-modified", "", 44), ("link", "", 45),
   ("location", "", 46), ("max-forwards", "", 47), ("proxy-authenticate", "", 48),
   ("proxy-authorization", "", 49), ("range", "", 50), ("referer", "", 51), ("refresh", "", 52),
   ("retry-after", "", 53), ("server", "", 54), ("set-cookie", "", 55),
   ("strict-transport-security", "", 56), ("transfer-encoding", "", 57), ("user-agent", "", 58),
   ("vary", "", 59), ("via", "", 60), ("www-authenticate", "", 61)]

/-- `STATIC_NAME`. -/
def staticName : List (Octets × ℕ) := List.map (fun e => (octets e.1, e.2))
  [(":authority", 1), (":method", 2), (":path", 4), (":scheme", 6), (":status", 8),
   ("accept-charset", 15), ("accept-encoding", 16), ("accept-language", 17),
   ("accept-ranges", 18), ("accept", 19), ("access-control-allow-origin", 20), ("age", 21),
   ("allow", 22), ("authorization", 23), ("cache-control", 24), ("content-disposition", 25),
   ("content-encoding", 26), ("content-language", 27), ("content-length", 28),
   ("content-location", 29), ("content-range", 30), ("content-type", 31), ("cookie", 32),
   ("date", 33), ("etag", 34), ("expect", 35), ("expires", 36), ("from", 37), ("host", 38),
   ("if-match", 39), ("if-modified-since", 40), ("if-none-match", 41), ("if-range", 42),
   ("if-unmodified-since", 43), ("last-modified", 44), ("link", 45), ("location", 46),
   ("max-forwards", 47), ("proxy-authenticate", 48), ("proxy-authorization", 49), ("range", 50),
   ("referer", 51), ("refresh", 52), ("retry-after", 53), ("server", 54), ("set-cookie", 55),
   ("strict-transport-security", 56), ("transfer-encoding", 57), ("user-agent", 58), ("vary", 59),
   ("via", 60), ("www-authenticate", 61)]

/-- `STATIC_LEN`. -/
def staticLen : ℕ := 61

theorem length_staticTable : staticTable.length = staticLen := by decide +kernel

theorem lookup_staticExact (name value : Octets) :
    staticExact.lookup (name, value) = (firstIdx id staticTable (name, value)).map (· + 1) := by
  apply lookup_eq_firstIdx
  · decide +kernel
  · decide +kernel

theorem lookup_staticName (name : Octets) :
    staticName.lookup name = (firstIdx Prod.fst staticTable name).map (· + 1) := by
  apply lookup_eq_firstIdx
  · decide +kernel
  · decide +kernel

end ZincioHttp.H2.Hpack
