import ZincioHttp.H3.ExtendedConnect
import ZincioHttp.Lib.History

/-! The request parsers as grammars of field lists (RFC 9113 section 8.3, RFC 9114 section
4.3.1), for requests without `:protocol`. A parser judges each field by those before it in one
pass, and what it has collected by then is a function of the list. -/

namespace ZincioHttp.H3

open Qpack Lib List Field RequestFields

/-! ### One pass over the fields -/

abbrev Pseudo (f : Field) : Prop := f.name.head? = some 0x3a

/-- The pseudo-fields of a request other than an extended CONNECT. -/
def plainPseudo : List Octets :=
  [octets ":method", octets ":scheme", octets ":authority", octets ":path"]

/-- A pseudo-field is known, new and only after others; a regular field is `ok`. -/
def InPlace (ok : Field → Prop) (before : List Field) (f : Field) : Prop :=
  if Pseudo f then
    (∀ g ∈ before, Pseudo g) ∧ f.name ∈ plainPseudo ∧ f.name ∉ before.map Field.name
  else ok f

/-- A loop over a field list that keeps the pseudo-fields in slots until the first regular field
and the regular ones in a list. -/
structure Parses {σ β : Type} (step : σ → Field → Option σ) (slot : σ → Octets → Option Octets)
    (put : Field → β) (regular : σ → List β) (phase : σ → Bool) (ok : Field → Prop) : Prop where
  collects : Collects step slot
  accepts : ∀ s f, f.name ≠ octets ":protocol" → ((step s f).isSome ↔
    if Pseudo f then phase s ∧ f.name ∈ plainPseudo ∧ slot s f.name = none else ok f)
  goesOn : ∀ {s f s'}, step s f = some s' → phase s' = (phase s && decide (Pseudo f)) ∧
    regular s' = regular s ++ if Pseudo f then [] else [put f]

namespace Parses

variable {σ β : Type} {step : σ → Field → Option σ} {slot : σ → Octets → Option Octets}
  {put : Field → β} {regular : σ → List β} {phase : σ → Bool} {ok : Field → Prop} {s₀ s : σ}
  {fields : List Field} {n value : Octets}

section
variable (h : Parses step slot put regular phase ok)
include h

theorem result (hphase : phase s₀ = true) (hregular : regular s₀ = []) :
    ∀ {s}, fields.foldlM step s₀ = some s → (phase s = true ↔ ∀ f ∈ fields, Pseudo f) ∧
      regular s = (fields.filter fun f => ¬Pseudo f).map put := by
  induction fields using reverseRecOn with
  | nil =>
    rintro s ⟨⟩
    simp [hphase, hregular]
  | append_singleton fields f ih =>
    intro s hrun
    obtain ⟨t, ht, hf⟩ := foldlM_append_eq_some.1 hrun
    obtain ⟨u, hu, ⟨⟩⟩ := foldlM_cons_eq_some.1 hf
    obtain ⟨hp, hr⟩ := h.goesOn hu
    obtain ⟨hphase', hregular'⟩ := ih ht
    rw [hp, hr, hregular', Bool.and_eq_true, hphase', decide_eq_true_eq, forall_mem_append,
      forall_mem_singleton, filter_append, map_append]
    by_cases hf : Pseudo f <;> simp [hf]

section
variable (hslot : ∀ n, slot s₀ n = none) (hrun : fields.foldlM step s₀ = some s)
  (hn : n.head? = some 0x3a)
include hslot hrun hn

theorem slot_eq_some : slot s n = some value ↔ ⟨n, value⟩ ∈ fields := by
  refine ⟨fun hs => ?_, fun hmem => h.collects.of_mem hrun hmem hn⟩
  by_contra hmem
  by_cases hnone : ∀ f ∈ fields, f.name ≠ n
  · rw [h.collects.of_not_mem hrun hnone, hslot] at hs
    cases hs
  · push Not at hnone
    obtain ⟨⟨_, value'⟩, hf, rfl⟩ := hnone
    rw [h.collects.of_mem hrun hf hn] at hs
    cases hs
    exact hmem hf

theorem slot_eq_none : slot s n = none ↔ n ∉ fields.map name := by
  rw [Option.eq_none_iff_forall_ne_some]
  simp only [ne_eq, h.slot_eq_some hslot hrun hn, mem_map, not_exists, not_and]
  exact ⟨fun hno f hf heq => hno f.value (heq ▸ hf), fun hno value hmem => hno _ hmem rfl⟩

end

/-- The loop comes to its end exactly on the lists with every field in place. -/
theorem run_iff (hslot : ∀ n, slot s₀ n = none) (hphase : phase s₀ = true)
    (hregular : regular s₀ = []) (hplain : ∀ f ∈ fields, f.name ≠ octets ":protocol") :
    (∃ s, fields.foldlM step s₀ = some s) ↔ Historic (InPlace ok) fields := by
  induction fields using reverseRecOn with
  | nil => simp [Historic.nil]
  | append_singleton fields f ih =>
    have hlast : ∀ {t}, fields.foldlM step s₀ = some t →
        ((step t f).isSome ↔ InPlace ok fields f) := by
      intro t ht
      rw [h.accepts t f (hplain f (by simp)), InPlace]
      split_ifs with hf
      · rw [(h.result hphase hregular ht).1, h.slot_eq_none hslot ht hf]
      · rfl
    rw [Historic.concat_iff, ← ih fun g hg => hplain g (by simp [hg])]
    simp only [foldlM_append_eq_some, foldlM_cons_eq_some, foldlM_nil]
    constructor
    · rintro ⟨s, t, ht, u, hu, -⟩
      exact ⟨⟨t, ht⟩, (hlast ht).1 (by simp [hu])⟩
    · rintro ⟨⟨t, ht⟩, hf⟩
      obtain ⟨u, hu⟩ := Option.isSome_iff_exists.1 ((hlast ht).2 hf)
      exact ⟨u, t, ht, u, hu, rfl⟩

end

end Parses

/-! ### HTTP/3 -/

theorem h3Slot_empty (n : Octets) : h3Slot {} n = none := by simp [h3Slot, slotOf]

/-- A regular field that HTTP/3 allows. -/
structure FieldOk (http : HttpCrate) (f : Field) : Prop where
  unspecific : connectionSpecific f.name f.value = false
  lower : f.name.any isAsciiUppercase = false
  name : http.headerName f.name
  value : http.headerValue f.value

theorem h3_parses (http : HttpCrate) :
    Parses (fun r f => (push http r f).toOption) h3Slot id regular
      (fun r => !r.pseudoDone) (FieldOk http) where
  collects := h3_collects http
  accepts r f hf := by
    simp only [push]
    split_ifs
    · unfold pushPseudo takePseudo
      split_ifs <;> simp_all +decide [h3Slot, slotOf, plainPseudo, Except.map, Except.toOption,
        Option.isSome_iff_ne_none]
    · have hline : FieldOk http f ↔ connectionSpecific f.name f.value = false ∧
          ¬(f.name.any isAsciiUppercase || !http.headerName f.name ||
            !http.headerValue f.value) := by
        refine ⟨fun h => ⟨h.unspecific, ?_⟩, fun h => ⟨h.1, ?_, ?_, ?_⟩⟩
        · simp [h.lower, h.name, h.value]
        all_goals simp_all
      rw [hline, pushRegular, fieldLine]
      split_ifs <;> simp_all [Except.map, Except.toOption]
  goesOn {r f r'} h := by
    simp only [push] at h
    split_ifs at h
    · unfold pushPseudo takePseudo at h
      split_ifs at h <;> simp_all [Except.map, Except.toOption, Pseudo] <;> simp [← h]
    · unfold pushRegular fieldLine at h
      split_ifs at h <;> simp_all [Except.map, Except.toOption, Pseudo]
      simp [← h]

/-- What RFC 9114 and `build_request` ask of a request without `:protocol`. -/
structure RequestOk (http : HttpCrate) (fields : List Field) : Prop where
  inPlace : Historic (InPlace (FieldOk http)) fields
  room : ∃ map, (fields.filter fun f => ¬Pseudo f).foldlM (tryAppend http) [] = .ok map
  request : ∃ method, ⟨octets ":method", method⟩ ∈ fields ∧ http.method method ∧
    if method = octets "CONNECT" then
      octets ":scheme" ∉ fields.map Field.name ∧ octets ":path" ∉ fields.map Field.name ∧
        ∃ authority, ⟨octets ":authority", authority⟩ ∈ fields ∧
          http.buildUri (octets "http") (some authority) []
    else
      ∃ scheme path authority, ⟨octets ":scheme", scheme⟩ ∈ fields ∧
        ⟨octets ":path", path⟩ ∈ fields ∧ (⟨octets ":authority", authority⟩ ∈ fields ∨
          octets ":authority" ∉ fields.map Field.name ∧ ⟨octets "host", authority⟩ ∈ fields) ∧
        http.buildUri scheme (some authority) path

/-- What is left of `build_request` after its loop. -/
theorem buildRequest_ok {http : HttpCrate} {fields : List Field} {r : RequestFields}
    (hrun : fields.foldlM (push http) {} = .ok r) (hprotocol : r.protocol = none) :
    (∃ request, buildRequest http fields = .ok request) ↔
      (∃ map, r.regular.foldlM (tryAppend http) [] = .ok map) ∧
      ∃ method authority, r.method = some method ∧ http.method method ∧
        r.authority = some authority ∧
        if method = octets "CONNECT" then
          r.scheme = none ∧ r.path = none ∧ http.buildUri (octets "http") (some authority) []
        else ∃ scheme path, r.scheme = some scheme ∧ r.path = some path ∧
          http.buildUri scheme (some authority) path := by
  rw [buildRequest, hrun, ok_bind]
  cases hm : r.method with
  | none => simp [bind, Except.bind]
  | some method =>
    simp only [Option.elim_some, ok_bind, wellFormed, buildUri, hprotocol]
    by_cases hconnect : method = octets "CONNECT" <;>
      cases r.authority <;> cases r.scheme <;> cases r.path <;> simp [hconnect, bind, Except.bind]
    all_goals
      cases r.regular.foldlM (tryAppend http) [] <;> split_ifs <;> simp_all [pure, Except.pure]

/-- `build_request` accepts the requests that are in order and have `:authority`. -/
theorem buildRequest_eq_ok_iff (http : HttpCrate) {fields : List Field}
    (hplain : ∀ f ∈ fields, f.name ≠ octets ":protocol") :
    (∃ request, buildRequest http fields = .ok request) ↔
      RequestOk http fields ∧ octets ":authority" ∈ fields.map Field.name := by
  have hrun := (h3_parses http).run_iff h3Slot_empty rfl rfl hplain
  rw [← toOption_foldlM] at hrun
  cases hfold : fields.foldlM (RequestFields.push http) {} with
  | error e =>
    rw [hfold] at hrun
    constructor
    · rintro ⟨request, h⟩
      rw [buildRequest, hfold] at h
      cases h
    · rintro ⟨h, -⟩
      obtain ⟨s, hs⟩ := hrun.2 h.inPlace
      cases hs
  | ok r =>
    have hr : fields.foldlM (fun r f => (RequestFields.push http r f).toOption) {} = some r := by
      rw [← toOption_foldlM, hfold]
      rfl
    have hsome : ∀ {n value}, n.head? = some 0x3a →
      (h3Slot r n = some value ↔ ⟨n, value⟩ ∈ fields) :=
      fun hn => (h3_parses http).slot_eq_some h3Slot_empty hr hn
    have hnone : ∀ {n}, n.head? = some 0x3a → (h3Slot r n = none ↔ n ∉ fields.map Field.name) :=
      fun hn => (h3_parses http).slot_eq_none h3Slot_empty hr hn
    have hmethod : ∀ v, r.method = some v ↔ _ := fun _ => hsome (n := octets ":method") (by decide)
    have hauthority : ∀ v, r.authority = some v ↔ _ := fun _ =>
      hsome (n := octets ":authority") (by decide)
    have hscheme : ∀ v, r.scheme = some v ↔ _ := fun _ => hsome (n := octets ":scheme") (by decide)
    have hpath : ∀ v, r.path = some v ↔ _ := fun _ => hsome (n := octets ":path") (by decide)
    have hnoscheme : r.scheme = none ↔ _ := hnone (n := octets ":scheme") (by decide)
    have hnopath : r.path = none ↔ _ := hnone (n := octets ":path") (by decide)
    have hprotocol : r.protocol = none :=
      (hnone (n := octets ":protocol") (by decide)).2 fun hmem => by
      obtain ⟨f, hf, hname⟩ := List.mem_map.1 hmem
      exact hplain f hf hname
    have hregular := ((h3_parses http).result rfl rfl hr).2
    rw [List.map_id] at hregular
    simp only [buildRequest_ok hfold hprotocol, hmethod, hauthority, hscheme, hpath, hnoscheme,
      hnopath, hregular]
    constructor
    · rintro ⟨hroom, method, authority, hm, hok, ha, hrest⟩
      refine ⟨⟨hrun.1 ⟨r, by rw [hfold]; rfl⟩, hroom, method, hm, hok, ?_⟩, List.mem_map_of_mem ha⟩
      split_ifs at hrest ⊢
      · exact ⟨hrest.1, hrest.2.1, authority, ha, hrest.2.2⟩
      · obtain ⟨scheme, path, hs, hp, huri⟩ := hrest
        exact ⟨scheme, path, authority, hs, hp, .inl ha, huri⟩
    · rintro ⟨⟨-, hroom, method, hm, hok, hrest⟩, hmem⟩
      refine ⟨hroom, method, ?_⟩
      split_ifs at hrest ⊢
      · obtain ⟨hs, hp, authority, ha, huri⟩ := hrest
        exact ⟨authority, hm, hok, ha, hs, hp, huri⟩
      · obtain ⟨scheme, path, authority, hs, hp, ha, huri⟩ := hrest
        have ha := ha.resolve_right fun h => h.1 hmem
        exact ⟨authority, hm, hok, ha, scheme, path, hs, hp, huri⟩

/-- So it is exact unless a request that is in order has `host` in place of `:authority`. -/
theorem buildRequest_ok_iff (http : HttpCrate) {fields : List Field}
    (hplain : ∀ f ∈ fields, f.name ≠ octets ":protocol") :
    ((∃ request, buildRequest http fields = .ok request) ↔
        RequestOk http fields ∧ octets ":authority" ∈ fields.map Field.name) ∧
      (((∃ request, buildRequest http fields = .ok request) ↔ RequestOk http fields) ↔
        (RequestOk http fields → octets ":authority" ∈ fields.map Field.name)) := by
  refine ⟨buildRequest_eq_ok_iff http hplain, ?_⟩
  rw [buildRequest_eq_ok_iff http hplain, and_iff_left_iff_imp]

theorem buildRequest_ok_iff_get :
    RequestOk .permissive [⟨octets ":method", octets "GET"⟩, ⟨octets ":scheme", octets "https"⟩,
      ⟨octets ":authority", octets "a"⟩, ⟨octets ":path", octets "/"⟩,
      ⟨octets "te", octets "trailers"⟩] :=
  ((buildRequest_ok_iff .permissive (by decide)).1.1 ⟨_, rfl⟩).1

/-- A request with `host` in place of `:authority`. -/
def hostOnly : List Field :=
  [⟨octets ":method", octets "GET"⟩, ⟨octets ":scheme", octets "https"⟩,
    ⟨octets ":path", octets "/"⟩, ⟨octets "host", octets "a"⟩]

theorem hostOnly_rejected :
    RequestOk .permissive hostOnly ∧ buildRequest .permissive hostOnly = .error .message := by
  refine ⟨⟨?_, ⟨_, rfl⟩, octets "GET", by decide, rfl, ?_⟩, by rfl⟩
  · exact ((h3_parses _).run_iff h3Slot_empty rfl rfl (by decide)).1 ⟨_, rfl⟩
  · rw [if_neg (by decide)]
    exact ⟨octets "https", octets "/", octets "a", by decide, by decide, .inr (by decide), rfl⟩

end ZincioHttp.H3
