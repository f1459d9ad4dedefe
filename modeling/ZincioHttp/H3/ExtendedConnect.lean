import ZincioHttp.H3.Request
import ZincioHttp.Lib.Runs

/-! Extended CONNECT requests (RFC 8441 section 4, RFC 9220 section 3). Such a request
has `:protocol` and, unlike a plain CONNECT, also `:scheme` and `:path`. Both parsers
reject every CONNECT request that has a `:path`, so neither accepts a single one. -/

namespace ZincioHttp.H3

open Qpack Function RequestFields
open Lib (foldlM_append_eq_some foldlM_cons_eq_some foldlM_keeps toOption_foldlM)

/-! ### Collecting pseudo-fields -/

/-- A loop over a field list takes each pseudo-field into its slot, if that is empty. -/
def Collects {σ : Type} (step : σ → Field → Option σ) (slot : σ → Octets → Option Octets) : Prop :=
  ∀ s f s', step s f = some s' →
    if f.name.head? = some 0x3a then
      slot s f.name = none ∧ slot s' = Function.update (slot s) f.name (some f.value)
    else slot s' = slot s

namespace Collects

variable {σ : Type} {step : σ → Field → Option σ} {slot : σ → Octets → Option Octets}
  {pseudo value : Octets} {fields : List Field} {s s' : σ}

theorem of_not_mem (h : Collects step slot) (hrun : fields.foldlM step s = some s')
    (hnone : ∀ f ∈ fields, f.name ≠ pseudo) : slot s' pseudo = slot s pseudo := by
  refine foldlM_keeps (P := fun t => slot t pseudo = slot s pseudo) rfl hrun
    fun {t f t'} hf ht hstep => ?_
  have hpush := h t f t' hstep
  split at hpush
  · rw [hpush.2, update_of_ne (hnone f hf).symm, ht]
  · rw [hpush, ht]

/-- A value once taken is still there at the end, since a second one ends the loop. -/
theorem of_mem (h : Collects step slot) (hrun : fields.foldlM step s = some s')
    (hmem : ⟨pseudo, value⟩ ∈ fields) (hpseudo : pseudo.head? = some 0x3a) :
    slot s' pseudo = some value := by
  obtain ⟨before, after, rfl⟩ := List.append_of_mem hmem
  obtain ⟨t, -, hrun⟩ := foldlM_append_eq_some.1 hrun
  obtain ⟨u, hu, hrest⟩ := foldlM_cons_eq_some.1 hrun
  have htaken := h t _ u hu
  rw [if_pos hpseudo] at htaken
  refine foldlM_keeps (P := fun s => slot s pseudo = some value) (by simp [htaken.2]) hrest
    fun {t f t'} _ ht hstep => ?_
  have hpush := h t f t' hstep
  split at hpush
  · have hne : pseudo ≠ f.name := fun he => by simp [← he, ht] at hpush
    rw [hpush.2, update_of_ne hne, ht]
  · rw [hpush, ht]

end Collects

/-! ### The two parsers -/

/-- A field as the HTTP/2 parser is given it. -/
def toHeader (f : Field) : H2.Hpack.Header := ⟨f.name, f.value⟩

/-- The slot of a pseudo-field among those of a request. -/
def slotOf (method scheme authority path protocol : Option Octets) (pseudo : Octets) :
    Option Octets :=
  if pseudo = octets ":method" then method
  else if pseudo = octets ":scheme" then scheme
  else if pseudo = octets ":authority" then authority
  else if pseudo = octets ":path" then path
  else if pseudo = octets ":protocol" then protocol
  else none

def h2Slot (r : H2.RequestFields) : Octets → Option Octets :=
  slotOf r.method r.scheme r.authority r.path r.protocol

def h3Slot (r : RequestFields) : Octets → Option Octets :=
  slotOf r.method r.scheme r.authority r.path r.protocol

theorem h2_collects (http : H2.HttpCrate) :
    Collects (fun r f => H2.RequestFields.push http r (toHeader f)) h2Slot := by
  intro s f s' h
  change (if f.name.head? = some 0x3a then s.pushPseudo f.name f.value
    else s.pushRegular http f.name f.value) = some s' at h
  split at h
  · unfold H2.RequestFields.pushPseudo H2.unseen at h
    split_ifs at h
    all_goals simp_all +decide [h2Slot, slotOf, funext_iff, update_apply]
    all_goals
      subst h
      intro p
      split_ifs <;> simp_all +decide
  · rename_i hregular
    obtain ⟨-, -, length, conflict, rfl⟩ := H2.RequestFields.pushRegular_eq_some h
    rw [if_neg hregular]
    rfl

theorem h3_collects (http : HttpCrate) : Collects (fun r f => (push http r f).toOption) h3Slot := by
  intro s f s' h
  beta_reduce at h
  unfold push pushPseudo pushRegular fieldLine takePseudo at h
  split_ifs at h
  all_goals
    simp_all +decide [h3Slot, slotOf, funext_iff, update_apply, Except.map, Except.toOption]
  all_goals
    subst h
    intro p
    split_ifs <;> simp_all +decide

abbrev connectMethod : Field := ⟨octets ":method", octets "CONNECT"⟩

section
variable {http : HttpCrate} {fields : List Field} {value : Octets}

/-- HTTP/2 rejects a CONNECT request with `:scheme` or `:path`, whatever else it has. -/
theorem h2_rejects (hmethod : connectMethod ∈ fields)
    (hextra : ⟨octets ":scheme", value⟩ ∈ fields ∨ ⟨octets ":path", value⟩ ∈ fields) :
    H2.parseRequest http.toHttpCrate (fields.map toHeader) = none := by
  rw [H2.parseRequest, List.foldlM_map, Option.bind_eq_bind, Option.bind_eq_none_iff]
  intro r hr
  have hm : r.method = some (octets "CONNECT") := (h2_collects _).of_mem hr hmethod (by decide)
  have hs : r.scheme.isSome || r.path.isSome := by
    rcases hextra with hscheme | hpath
    · have : r.scheme = some value := (h2_collects _).of_mem hr hscheme (by decide)
      simp [this]
    · have : r.path = some value := (h2_collects _).of_mem hr hpath (by decide)
      simp [this]
  simp [H2.RequestFields.finish, hm, H2.RequestFields.finishConnect, hs]

theorem h3_rejects (hmethod : connectMethod ∈ fields)
    (hextra : ⟨octets ":path", value⟩ ∈ fields ∨
      ⟨octets ":scheme", value⟩ ∈ fields ∧ ∀ f ∈ fields, f.name ≠ octets ":protocol") :
    (buildRequest http fields).toOption = none := by
  unfold buildRequest
  cases hrun : fields.foldlM (push http) {} with
  | error e => rfl
  | ok r =>
    have hr : fields.foldlM (fun r f => (push http r f).toOption) {} = some r := by
      rw [← toOption_foldlM, hrun]
      rfl
    have hm : r.method = some (octets "CONNECT") := (h3_collects http).of_mem hr hmethod (by decide)
    have hill : r.wellFormed (octets "CONNECT") = false := by
      rcases hextra with hpath | ⟨hscheme, hplain⟩
      · have : r.path = some value := (h3_collects http).of_mem hr hpath (by decide)
        simp [wellFormed, this]
      · have hs : r.scheme = some value := (h3_collects http).of_mem hr hscheme (by decide)
        have hp : r.protocol = none := (h3_collects http).of_not_mem hr hplain
        simp [wellFormed, hs, hp]
    simp only [ok_bind, hm, Option.elim_some, hill, Bool.not_false]
    split_ifs <;> rfl

end

/-! ### Extended CONNECT requests -/

/-- A regular field that both protocols allow. -/
structure Regular (http : HttpCrate) (f : Field) : Prop where
  name : f.name.head? ≠ some 0x3a ∧ f.name.any isAsciiUppercase = false ∧ http.headerName f.name
  value : http.headerValue f.value
  unspecific : f.name ∉ H2.connectionSpecific
  te : f.name = octets "te" → f.value = octets "trailers"

/-- A conforming extended CONNECT request: its pseudo-fields in any order, and then its
regular fields. -/
structure ExtendedConnect (http : HttpCrate) where
  protocol : Octets
  scheme : Octets
  path : Octets
  authority : Octets
  pseudo : List Field
  regular : List Field
  perm : pseudo.Perm [connectMethod, ⟨octets ":protocol", protocol⟩,
    ⟨octets ":scheme", scheme⟩, ⟨octets ":path", path⟩, ⟨octets ":authority", authority⟩]
  valid : http.method (octets "CONNECT") ∧ http.uri authority ∧
    http.buildUri scheme (some authority) path
  regular_valid : ∀ f ∈ regular, Regular http f
  /-- The `content-length` fields, if there are any, agree on a number. -/
  length : ∃ n, ∀ f ∈ regular, f.name = octets "content-length" →
    H2.parseContentLength f.value = some n

variable {http : HttpCrate}

namespace ExtendedConnect

def fields {http : HttpCrate} (c : ExtendedConnect http) : List Field := c.pseudo ++ c.regular

theorem mem_fields (c : ExtendedConnect http) :
    connectMethod ∈ c.fields ∧ ⟨octets ":path", c.path⟩ ∈ c.fields := by
  simp [fields, c.perm.mem_iff]

end ExtendedConnect

/-- Both parsers return a request with the given authority. -/
def BothAccept (http : HttpCrate) (fields : List Field) (authority : Octets) : Prop :=
  (∃ r, H2.parseRequest http.toHttpCrate (fields.map toHeader) = some r ∧
    (r.uri = .authority authority ∨ ∃ scheme path, r.uri = .built scheme (some authority) path)) ∧
  ∃ r scheme path, buildRequest http fields = .ok r ∧ r.uri = .full scheme authority path

def BothReject (http : HttpCrate) (fields : List Field) : Prop :=
  H2.parseRequest http.toHttpCrate (fields.map toHeader) = none ∧
    (buildRequest http fields).toOption = none

/-- A CONNECT request without `:protocol` but with `:scheme` or `:path`. -/
def MalformedPlain (fields : List Field) : Prop :=
  connectMethod ∈ fields ∧ (∀ f ∈ fields, f.name ≠ octets ":protocol") ∧
    ∃ value, ⟨octets ":scheme", value⟩ ∈ fields ∨ ⟨octets ":path", value⟩ ∈ fields

theorem MalformedPlain.rejected {fields : List Field} (h : MalformedPlain fields) :
    BothReject http fields := by
  obtain ⟨hmethod, hplain, value, hextra⟩ := h
  exact ⟨h2_rejects hmethod hextra,
    h3_rejects hmethod (hextra.symm.imp_right fun hscheme => ⟨hscheme, hplain⟩)⟩

theorem ExtendedConnect.rejected (c : ExtendedConnect http) : BothReject http c.fields :=
  ⟨h2_rejects c.mem_fields.1 (.inr c.mem_fields.2), h3_rejects c.mem_fields.1 (.inl c.mem_fields.2)⟩

/-- Extended CONNECT requests are accepted and malformed plain ones rejected for exactly
those field lists that are not an extended CONNECT request. -/
theorem connect_served_iff (http : HttpCrate) (fields : List Field) :
    ((∀ c : ExtendedConnect http, c.fields = fields → BothAccept http fields c.authority) ∧
      (MalformedPlain fields → BothReject http fields)) ↔
    ∀ c : ExtendedConnect http, c.fields ≠ fields := by
  constructor
  · rintro ⟨haccepted, -⟩ c hc
    obtain ⟨⟨r, hr, -⟩, -⟩ := haccepted c hc
    rw [← hc, c.rejected.1] at hr
    cases hr
  · intro hnone
    exact ⟨fun c hc => absurd hc (hnone c), MalformedPlain.rejected⟩

/-- A WebSocket handshake. -/
theorem websocket_rejected : ∃ c : ExtendedConnect HttpCrate.permissive,
    c.fields = [connectMethod, ⟨octets ":protocol", octets "websocket"⟩,
      ⟨octets ":scheme", octets "https"⟩, ⟨octets ":path", octets "/chat"⟩,
      ⟨octets ":authority", octets "server.example"⟩] ∧ BothReject HttpCrate.permissive c.fields :=
  ⟨⟨octets "websocket", octets "https", octets "/chat", octets "server.example", _, [],
    .refl _, ⟨rfl, rfl, rfl⟩, by simp, ⟨0, by simp⟩⟩, by simp [ExtendedConnect.fields],
    ExtendedConnect.rejected _⟩

end ZincioHttp.H3
