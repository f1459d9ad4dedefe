import ZincioHttp.H2.Hpack.StaticTable

/-! The HPACK header table: the static entries followed by a bounded FIFO of
dynamic ones, newest first. The encoder's table also keeps two hash maps from
pairs and names to the combined index of their newest entry; a map is the
function from keys to values it represents. Under the table's invariant the maps
answer as a scan does, and the dynamic entries are the longest newest run that
fits the maximum size. -/

namespace ZincioHttp.H2.Hpack

open Lib List Function

/-- A header field. The source caches `size` beside the two strings. -/
structure Header where
  name : Octets
  value : Octets
  deriving DecidableEq, Repr

/-- `HYBRID_THRESHOLD`: the maps are consulted above this many dynamic entries. -/
def hybridThreshold : ℕ := 32

/-- `ENTRY_OVERHEAD`. -/
def entryOverhead : ℕ := 32

namespace Header

def size (h : Header) : ℕ := entryOverhead + h.name.length + h.value.length

/-- The octets a field counts for in a header list. -/
def octetCount (h : Header) : ℕ := h.name.length + h.value.length

/-- The key of the exact-match map. -/
def nameValue (h : Header) : Octets × Octets := (h.name, h.value)

end Header

/-- Both sides queue a size update by keeping the largest one asked for. -/
def queueMax (queued : Option ℕ) (size : ℕ) : Option ℕ :=
  some (match queued with
    | some current => max current size
    | none => size)

structure Table where
  entries : List Header
  size : ℕ
  maxSize : ℕ
  exact : Octets × Octets → Option ℕ
  name : Octets → Option ℕ
  maintainMaps : Bool

namespace Table

def withMaxSize (maxSize : ℕ) : Table := ⟨[], 0, maxSize, fun _ => none, fun _ => none, true⟩

def withMaxSizeNoMaps (maxSize : ℕ) : Table :=
  ⟨[], 0, maxSize, fun _ => none, fun _ => none, false⟩

def get (t : Table) (index : ℕ) : Option Header :=
  if index = 0 then none
  else if index ≤ staticLen then staticTable[index - 1]?.map fun e => ⟨e.1, e.2⟩
  else t.entries[index - staticLen - 1]?

/-- `find` through the maps. -/
def findMapped (t : Table) (name value : Octets) : Option ℕ :=
  match staticExact.lookup (name, value) with
  | some index => some index
  | none => t.exact (name, value)

/-- `find` by scanning the static and then the dynamic entries. -/
def findScanned (t : Table) (name value : Octets) : Option ℕ :=
  match staticTable.findIdx? fun e => decide (e = (name, value)) with
  | some i => some (i + 1)
  | none => (t.entries.findIdx? fun h => decide (h.nameValue = (name, value))).map
      (staticLen + 1 + ·)

def find (t : Table) (name value : Octets) : Option ℕ :=
  if t.maintainMaps && decide (t.entries.length > hybridThreshold) then t.findMapped name value
  else t.findScanned name value

def findNameMapped (t : Table) (name : Octets) : Option ℕ :=
  match staticName.lookup name with
  | some index => some index
  | none => t.name name

def findNameScanned (t : Table) (name : Octets) : Option ℕ :=
  match staticTable.findIdx? fun e => decide (e.1 = name) with
  | some i => some (i + 1)
  | none => (t.entries.findIdx? fun h => decide (h.name = name)).map (staticLen + 1 + ·)

def findName (t : Table) (name : Octets) : Option ℕ :=
  if t.maintainMaps && decide (t.entries.length > hybridThreshold) then t.findNameMapped name
  else t.findNameScanned name

/-- Drops `entry` from the maps where `combined` is the index stored for it. -/
def evictEntry (t : Table) (entry : Header) (combined : ℕ) : Table :=
  if t.maintainMaps then
    { t with
      name := if t.name entry.name = some combined then update t.name entry.name none
        else t.name
      exact := if t.exact entry.nameValue = some combined
        then update t.exact entry.nameValue none else t.exact }
  else t

/-- The loop `while size + extra > max_size` over `pop_back`, at most `fuel`
times; the number of entries is enough fuel, since the loop breaks on an empty
table. -/
def evictLoop (extra : ℕ) : ℕ → Table → Table
  | 0, t => t
  | fuel + 1, t =>
    if t.size + extra > t.maxSize then
      match t.entries.getLast? with
      | none => t
      | some entry =>
        let entries := t.entries.dropLast
        let t := { t with entries := entries, size := t.size - entry.size }
        evictLoop extra fuel (t.evictEntry entry (staticLen + entries.length + 1))
    else t

def setMaxSize (t : Table) (maxSize : ℕ) : Table :=
  evictLoop 0 t.entries.length { t with maxSize := maxSize }

def add (t : Table) (header : Header) : Table :=
  if header.size > t.maxSize then
    { t with
      entries := []
      size := 0
      exact := if t.maintainMaps then fun _ => none else t.exact
      name := if t.maintainMaps then fun _ => none else t.name }
  else
    let t := evictLoop header.size t.entries.length t
    -- a front insertion shifts every stored index by one
    let exact := if t.maintainMaps then fun k => (t.exact k).map (· + 1) else t.exact
    let name := if t.maintainMaps then fun k => (t.name k).map (· + 1) else t.name
    let combined := staticLen + 1
    { t with
      entries := header :: t.entries
      size := t.size + header.size
      exact := if t.maintainMaps then update exact header.nameValue (some combined)
        else exact
      name := if t.maintainMaps then update name header.name (some combined) else name }

/-! ### The invariant -/

/-- The bookkeeping beside the entries: the size is their sum, and the maps hold
the combined index of the newest entry of each key. -/
structure Linked (t : Table) : Prop where
  size_eq : t.size = total Header.size t.entries
  exact_eq : t.maintainMaps = true → ∀ k,
    t.exact k = (firstIdx Header.nameValue t.entries k).map (staticLen + 1 + ·)
  name_eq : t.maintainMaps = true → ∀ k,
    t.name k = (firstIdx Header.name t.entries k).map (staticLen + 1 + ·)

structure Valid (t : Table) : Prop extends Linked t where
  size_le : t.size ≤ t.maxSize

theorem valid_withMaxSize (n : ℕ) : (withMaxSize n).Valid := by
  refine ⟨⟨?_, ?_, ?_⟩, ?_⟩ <;> simp [withMaxSize]

theorem valid_withMaxSizeNoMaps (n : ℕ) : (withMaxSizeNoMaps n).Valid := by
  refine ⟨⟨?_, ?_, ?_⟩, ?_⟩ <;> simp [withMaxSizeNoMaps]

/-- Evicting an entry from the maps changes nothing else. -/
@[simp] theorem evictEntry_frame (t : Table) (entry : Header) (combined : ℕ) :
    (t.evictEntry entry combined).entries = t.entries ∧
      (t.evictEntry entry combined).size = t.size ∧
      (t.evictEntry entry combined).maxSize = t.maxSize ∧
      (t.evictEntry entry combined).maintainMaps = t.maintainMaps := by
  unfold evictEntry
  split <;> exact ⟨rfl, rfl, rfl, rfl⟩

variable {t : Table}

theorem Linked.evict (h : t.Linked) {l : List Header} {e : Header} (hl : t.entries = l ++ [e]) :
    Linked (evictEntry { t with entries := l, size := t.size - e.size } e
      (staticLen + l.length + 1)) := by
  have hsize := h.size_eq
  rw [hl, total_append, total_cons, total_nil] at hsize
  refine ⟨?_, ?_, ?_⟩
  · simp only [evictEntry_frame]
    omega
  · intro hmaps k
    simp only [evictEntry_frame] at hmaps
    have := update_firstIdx Header.nameValue (staticLen + 1 + ·) (by intro i hi; omega)
      (hl ▸ h.exact_eq hmaps) k
    simpa [evictEntry, show t.maintainMaps = true from hmaps, add_right_comm] using this
  · intro hmaps k
    simp only [evictEntry_frame] at hmaps
    have := update_firstIdx Header.name (staticLen + 1 + ·) (by intro i hi; omega)
      (hl ▸ h.name_eq hmaps) k
    simpa [evictEntry, show t.maintainMaps = true from hmaps, add_right_comm] using this

/-- The eviction loop keeps the newest entries that leave room for `extra`. -/
theorem evictLoop_spec (extra fuel : ℕ) : ∀ {t : Table}, t.Linked → extra ≤ t.maxSize →
    t.entries.length ≤ fuel →
    (evictLoop extra fuel t).Linked ∧
      (evictLoop extra fuel t).entries = fit Header.size (t.maxSize - extra) t.entries ∧
      (evictLoop extra fuel t).maxSize = t.maxSize ∧
      (evictLoop extra fuel t).maintainMaps = t.maintainMaps := by
  induction fuel with
  | zero =>
    intro t h hx hf
    have hnil : t.entries = [] := eq_nil_of_length_eq_zero (by omega)
    simp [evictLoop, h, hnil, fit]
  | succ fuel ih =>
    intro t h hx hf
    rw [evictLoop]
    split_ifs
    · cases hlast : t.entries.getLast? with
      | none =>
        have hnil : t.entries = [] := getLast?_eq_none_iff.1 hlast
        have := h.size_eq
        simp only [hnil, total_nil] at this
        omega
      | some e =>
        obtain ⟨l, hl⟩ := getLast?_eq_some_iff.1 hlast
        have hlen : t.entries.length = l.length + 1 := by simp [hl]
        have hsize := h.size_eq
        have hstep := h.evict hl
        have := ih hstep (by simpa using hx) (by simp; omega)
        simp only [hl]
        simpa [fit_append_singleton Header.size
          (show t.maxSize - extra < total Header.size (l ++ [e]) by rw [← hl]; omega)] using this
    · have hfit := fit_eq_self Header.size
        (show total Header.size t.entries ≤ t.maxSize - extra by rw [← h.size_eq]; omega)
      simp [h, hfit]

/-- `set_max_size` keeps the newest entries that fit the new size. -/
theorem setMaxSize_spec (h : t.Valid) (n : ℕ) :
    (t.setMaxSize n).Valid ∧ (t.setMaxSize n).entries = fit Header.size n t.entries ∧
      (t.setMaxSize n).maxSize = n ∧ (t.setMaxSize n).maintainMaps = t.maintainMaps := by
  have hl : Linked { t with maxSize := n } := ⟨h.size_eq, h.exact_eq, h.name_eq⟩
  obtain ⟨hlinked, hentries, hmax, hmaps⟩ :=
    evictLoop_spec 0 t.entries.length hl (by omega) le_rfl
  refine ⟨⟨hlinked, ?_⟩, hentries, hmax, hmaps⟩
  rw [setMaxSize, hlinked.size_eq, hentries, hmax]
  exact total_fit_le _ _ _

/-- `add` keeps the newest entries that fit, the added one first. -/
theorem add_spec (h : t.Valid) (header : Header) : (t.add header).Valid ∧
      (t.add header).entries = fit Header.size t.maxSize (header :: t.entries) ∧
      (t.add header).maxSize = t.maxSize ∧ (t.add header).maintainMaps = t.maintainMaps := by
  by_cases hbig : header.size > t.maxSize
  · refine ⟨⟨⟨?_, ?_, ?_⟩, ?_⟩, ?_, ?_, ?_⟩
    all_goals simp [add, hbig, fit]
    · intro hm; simp [hm]
    · intro hm; simp [hm]
  obtain ⟨hl, hentries, hmax, hmaps⟩ :=
    evictLoop_spec header.size t.entries.length h.toLinked (show header.size ≤ t.maxSize by omega)
      le_rfl
  have htotal := total_fit_le Header.size (t.maxSize - header.size) t.entries
  have hsize := hl.size_eq
  rw [← hentries] at htotal
  refine ⟨⟨⟨?_, ?_, ?_⟩, ?_⟩, ?_, ?_, ?_⟩
  · simp [add, hbig, hsize, add_comm]
  · intro hm k
    simp only [add, hbig, if_false] at hm ⊢
    simp only [hm]
    exact shift_cons_firstIdx Header.nameValue (hl.exact_eq hm) (fun _ => rfl) header k
  · intro hm k
    simp only [add, hbig, if_false] at hm ⊢
    simp only [hm]
    exact shift_cons_firstIdx Header.name (hl.name_eq hm) (fun _ => rfl) header k
  · simp only [add, hbig, if_false]
    omega
  · simp only [add, hbig, if_false, fit]
    rw [if_pos (by omega), hentries]
  · simp [add, hbig, hmax]
  · simp [add, hbig, hmaps]

/-! ### Lookups -/

theorem findMapped_eq_findScanned (h : t.Linked) (hm : t.maintainMaps = true)
    (name value : Octets) : t.findMapped name value = t.findScanned name value := by
  rw [findMapped, findScanned, lookup_staticExact, h.exact_eq hm]
  simp only [firstIdx, id]
  cases staticTable.findIdx? fun e => decide (e = (name, value)) <;> rfl

theorem findNameMapped_eq_findNameScanned (h : t.Linked) (hm : t.maintainMaps = true)
    (name : Octets) : t.findNameMapped name = t.findNameScanned name := by
  rw [findNameMapped, findNameScanned, lookup_staticName, h.name_eq hm]
  simp only [firstIdx]
  cases staticTable.findIdx? fun e => decide (e.1 = name) <;> rfl

theorem find_eq_findScanned (h : t.Linked) (name value : Octets) :
    t.find name value = t.findScanned name value := by
  rw [find]
  split_ifs with hm
  · exact findMapped_eq_findScanned h (Bool.and_eq_true_iff.1 hm).1 name value
  · rfl

theorem findName_eq_findNameScanned (h : t.Linked) (name : Octets) :
    t.findName name = t.findNameScanned name := by
  rw [findName]
  split_ifs with hm
  · exact findNameMapped_eq_findNameScanned h (Bool.and_eq_true_iff.1 hm).1 name
  · rfl

theorem get_static {i : ℕ} {e : Octets × Octets} (h : staticTable[i]? = some e) :
    t.get (i + 1) = some ⟨e.1, e.2⟩ := by
  have hi : i < staticLen := by
    exact (List.getElem?_eq_some_iff.1 h).1
  rw [get, if_neg (by omega), if_pos (by omega), Nat.add_sub_cancel, h]
  rfl

theorem get_dynamic (t : Table) (i : ℕ) : t.get (staticLen + 1 + i) = t.entries[i]? := by
  rw [get, if_neg (by omega), if_neg (by omega)]
  congr 1
  omega

/-- What a lookup is to return: the lowest index of a static match, or else the index of
the newest dynamic one. -/
inductive Finds (t : Table) (p : Header → Prop) : Option ℕ → Prop
  | static {i : ℕ} {e : Octets × Octets} (he : staticTable[i]? = some e) (hp : p ⟨e.1, e.2⟩)
      (hlowest : ∀ j < i, ∀ e', staticTable[j]? = some e' → ¬p ⟨e'.1, e'.2⟩) :
      Finds t p (some (i + 1))
  | dynamic {i : ℕ} {h : Header} (hstatic : ∀ e ∈ staticTable, ¬p ⟨e.1, e.2⟩)
      (hh : t.entries[i]? = some h) (hp : p h)
      (hnewest : ∀ j < i, ∀ h', t.entries[j]? = some h' → ¬p h') :
      Finds t p (some (staticLen + 1 + i))
  | absent (hstatic : ∀ e ∈ staticTable, ¬p ⟨e.1, e.2⟩) (hdynamic : ∀ h ∈ t.entries, ¬p h) :
      Finds t p none

theorem finds_scan {κ : Type} [DecidableEq κ] (t : Table) (key : Header → κ) (k : κ) :
    Finds t (fun h => key h = k)
      (match firstIdx (fun e => key ⟨e.1, e.2⟩) staticTable k with
      | some i => some (i + 1)
      | none => (firstIdx key t.entries k).map (staticLen + 1 + ·)) := by
  cases hs : firstIdx (fun e => key ⟨e.1, e.2⟩) staticTable k with
  | some i =>
    obtain ⟨e, he, hkey⟩ := firstIdx_eq_some _ hs
    have hlowest := fun j hj e' he' => ne_of_firstIdx_eq_some (j := j) (e := e') _ hs hj he'
    exact .static he hkey hlowest
  | none =>
    have hstatic := fun e he => ne_of_firstIdx_eq_none (e := e) _ hs he
    cases hd : firstIdx key t.entries k with
    | some i =>
      obtain ⟨h, hh, hkey⟩ := firstIdx_eq_some _ hd
      exact .dynamic hstatic hh hkey fun j hj h' hh' => ne_of_firstIdx_eq_some _ hd hj hh'
    | none => exact .absent hstatic fun h hh => ne_of_firstIdx_eq_none _ hd hh

theorem find_finds (h : t.Linked) (name value : Octets) :
    Finds t (fun h => h.nameValue = (name, value)) (t.find name value) := by
  rw [find_eq_findScanned h]
  exact finds_scan t Header.nameValue (name, value)

theorem findName_finds (h : t.Linked) (name : Octets) :
    Finds t (fun h => h.name = name) (t.findName name) := by
  rw [findName_eq_findNameScanned h]
  exact finds_scan t Header.name name

/-- What is found is an entry of the table. -/
theorem Finds.get {p : Header → Prop} {index : ℕ} (h : Finds t p (some index)) :
    ∃ header, t.get index = some header ∧ p header ∧ 0 < index ∧
      index ≤ staticLen + t.entries.length := by
  cases h with
  | static he hp =>
    have hlt := (List.getElem?_eq_some_iff.1 he).1
    rw [length_staticTable] at hlt
    exact ⟨_, get_static he, hp, by omega, by omega⟩
  | dynamic _ hh hp =>
    have hlt := (List.getElem?_eq_some_iff.1 hh).1
    exact ⟨_, (get_dynamic t _).trans hh, hp, by omega, by omega⟩

/-- What `find` returns is an index of the field, at most the last one. -/
theorem get_of_find (h : t.Linked) {name value : Octets} {index : ℕ}
    (hf : t.find name value = some index) :
    t.get index = some ⟨name, value⟩ ∧ 0 < index ∧ index ≤ staticLen + t.entries.length := by
  obtain ⟨header, hget, hkey, hbounds⟩ := (hf ▸ find_finds h name value).get
  cases header
  cases hkey
  exact ⟨hget, hbounds⟩

/-- What `find_name` returns is an index of a field of that name. -/
theorem get_of_findName (h : t.Linked) {name : Octets} {index : ℕ}
    (hf : t.findName name = some index) :
    (∃ value, t.get index = some ⟨name, value⟩) ∧ 0 < index ∧
      index ≤ staticLen + t.entries.length := by
  obtain ⟨header, hget, rfl, hbounds⟩ := (hf ▸ findName_finds h name).get
  exact ⟨⟨header.value, hget⟩, hbounds⟩

/-- Every entry takes at least the overhead, so a valid table is short. -/
theorem length_entries_le (t : Table) (h : t.Valid) : 32 * t.entries.length ≤ t.maxSize := by
  have hle : ∀ l : List Header, 32 * l.length ≤ total Header.size l := by
    intro l
    induction l with
    | nil => simp
    | cons e l ih =>
      rw [total_cons, length_cons, Header.size, entryOverhead]
      omega
  have := hle t.entries
  have := h.size_eq
  have := h.size_le
  omega

/-! ### Calls -/

inductive Call where
  | add (header : Header)
  | setMaxSize (maxSize : ℕ)

def call (t : Table) : Call → Table
  | .add header => t.add header
  | .setMaxSize maxSize => t.setMaxSize maxSize

theorem Valid.calls (calls : List Call) : ∀ {t : Table}, t.Valid →
    (calls.foldl call t).Valid ∧ (calls.foldl call t).maintainMaps = t.maintainMaps := by
  induction calls with
  | nil => exact fun h => ⟨h, rfl⟩
  | cons c calls ih =>
    intro t h
    have hstep : (t.call c).Valid ∧ (t.call c).maintainMaps = t.maintainMaps := by
      cases c with
      | add header => exact ⟨(add_spec h header).1, (add_spec h header).2.2.2⟩
      | setMaxSize n => exact ⟨(setMaxSize_spec h n).1, (setMaxSize_spec h n).2.2.2⟩
    obtain ⟨hvalid, hmaps⟩ := ih hstep.1
    exact ⟨hvalid, hmaps.trans hstep.2⟩

/-- After any calls the maps answer as the scan does, with the lowest static or the newest
dynamic match, and the size is that of the entries. -/
theorem calls_lookup (maxSize : ℕ) (calls : List Call) :
    let t := calls.foldl call (withMaxSize maxSize)
    (∀ name value, t.findMapped name value = t.findScanned name value ∧
      Finds t (fun h => h.nameValue = (name, value)) (t.find name value)) ∧
    (∀ name, t.findNameMapped name = t.findNameScanned name ∧
      Finds t (fun h => h.name = name) (t.findName name)) ∧
    t.size = total Header.size t.entries ∧ t.size ≤ t.maxSize := by
  intro t
  obtain ⟨hvalid, hmaps⟩ := Valid.calls calls (valid_withMaxSize maxSize)
  have hlinked := hvalid.toLinked
  exact ⟨fun name value => ⟨findMapped_eq_findScanned hlinked hmaps name value,
      find_finds hlinked name value⟩,
    fun name => ⟨findNameMapped_eq_findNameScanned hlinked hmaps name, findName_finds hlinked name⟩,
    hvalid.size_eq, hvalid.size_le⟩

end Table

end ZincioHttp.H2.Hpack
