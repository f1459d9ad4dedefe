import ZincioHttp.H3.Control.Moves
import ZincioHttp.Lib.Runs

/-! Every stream is in one place at a time, and what has been read of it followed
by what it still has to offer is what the peer has sent. Conditions on what the
peer sends, each judged by what it has sent before on the same stream, are carried
along to the moment when it is read. -/

namespace ZincioHttp.H3

open Qpack Lib List Function

def Recv.octets : Recv → Octets
  | .chunk data => data
  | _ => []

def content (items : List Recv) : Octets := items.flatMap Recv.octets

theorem content_append (items more : List Recv) :
    content (items ++ more) = content items ++ content more := flatMap_append

theorem content_singleton (item : Recv) : content [item] = item.octets := by simp [content]

/-- Every item meets the condition, given the octets before it. -/
def Each (C : Octets → Recv → Prop) : Octets → List Recv → Prop
  | _, [] => True
  | seen, item :: rest => C seen item ∧ Each C (seen ++ item.octets) rest

theorem Each.append {C : Octets → Recv → Prop} {item : Recv} (items : List Recv) :
    ∀ {seen : Octets}, Each C seen items → C (seen ++ content items) item →
      Each C seen (items ++ [item]) := by
  induction items with
  | nil =>
    intro seen _ hitem
    exact ⟨by simpa [content] using hitem, trivial⟩
  | cons first items ih =>
    intro seen h hitem
    refine ⟨h.1, ih h.2 ?_⟩
    simpa [content] using hitem

/-! ### Places -/

inductive Position where
  | slot (kind : Kind)
  | pending
  | incoming (i : ℕ)
  deriving DecidableEq

variable {C : Octets → Recv → Prop} {v v' : View} {stream : ℕ} {kind : Kind} {progressed : Bool}

namespace View

def At (v : View) (stream : ℕ) : Position → Prop
  | .slot kind => v.slot kind = some stream
  | .pending => v.pending.map PendingUni.stream = some stream
  | .incoming i => v.net.incoming[i]? = some (.ok stream)

/-- What has been read of a stream in its place. -/
def Stage (v : View) (seen : Octets) : Position → Prop
  | .slot kind => ∃ ty used, parseVarint seen = .ok (some (ty, used)) ∧ kindOf ty = some kind
  | .pending => v.pending.map PendingUni.buf = some seen ∧ parseVarint seen = .ok none
  | .incoming _ => seen = []

/-- What has been read and what is still there make up what was sent. -/
structure Reads (C : Octets → Recv → Prop) (v : View) (stream : ℕ) (seen : Octets) : Prop where
  content_eq : seen ++ content (v.net.inbox stream) = content (v.net.sent stream)
  each : Each C seen (v.net.inbox stream)

structure Ordered (C : Octets → Recv → Prop) (v : View) : Prop where
  born : ∀ {stream pos}, v.At stream pos → stream < v.net.opened
  unique : ∀ {stream pos pos'}, v.At stream pos → v.At stream pos' → pos = pos'
  unborn : ∀ stream, v.net.opened ≤ stream → v.net.inbox stream = [] ∧ v.net.sent stream = []
  reads : ∀ {stream pos}, v.At stream pos → ∃ seen, v.Reads C stream seen ∧ v.Stage seen pos

/-- A step that touches one stream: every other one stays where it is. -/
theorem Ordered.transfer (h : v.Ordered C) (back : Position → Position) (stream : ℕ)
    (hopened : v'.net.opened = v.net.opened) (hsent : v'.net.sent = v.net.sent)
    (hinbox : ∀ other, other ≠ stream → v'.net.inbox other = v.net.inbox other)
    (hborn : stream < v.net.opened)
    (hback : ∀ {other pos}, v'.At other pos → v.At other (back pos))
    (hinj : ∀ {other pos pos'}, v'.At other pos → v'.At other pos' → back pos = back pos' →
      pos = pos')
    (hstage : ∀ {other pos seen}, other ≠ stream → v'.At other pos → v.Stage seen (back pos) →
      v'.Stage seen pos)
    (hthis : ∀ {pos}, v'.At stream pos → ∃ seen, v'.Reads C stream seen ∧ v'.Stage seen pos) :
    v'.Ordered C where
  born hat := hopened ▸ h.born (hback hat)
  unique hat hat' := hinj hat hat' (h.unique (hback hat) (hback hat'))
  unborn other hle := by
    rw [hopened] at hle
    have hne : other ≠ stream := by omega
    rw [hinbox other hne, hsent]
    exact h.unborn other hle
  reads := by
    intro other pos hat
    by_cases hne : other = stream
    · subst hne
      exact hthis hat
    obtain ⟨seen, hreads, hst⟩ := h.reads (hback hat)
    refine ⟨seen, ⟨?_, ?_⟩, hstage hne hat hst⟩
    · rw [hinbox other hne, hsent]
      exact hreads.content_eq
    · rw [hinbox other hne]
      exact hreads.each

end View

/-! ### Reading a type -/

theorem readType_incomplete (items : List Recv) : ∀ {buf buf' : Octets},
    readType buf items = .ok (.incomplete buf') → parseVarint buf = .ok none →
      buf' = buf ++ content items ∧ parseVarint buf' = .ok none := by
  induction items with
  | nil =>
    intro buf buf' h hbuf
    cases h
    exact ⟨by simp [content], hbuf⟩
  | cons item items ih =>
    intro buf buf' h hbuf
    cases item with
    | failed err => cases h
    | finished => cases h
    | chunk data =>
      rw [readType] at h
      split at h
      · cases h
      · next hnone =>
        obtain ⟨rfl, hparse⟩ := ih h hnone
        exact ⟨by simp [content, Recv.octets], hparse⟩
      · cases h

/-- The chunk that completes the type: what came with it, and what comes after. -/
theorem readType_complete (items : List Recv) : ∀ {buf : Octets} {ty : ℕ} {leftover : Octets}
    {rest : List Recv}, readType buf items = .ok (.complete ty leftover rest) →
      parseVarint buf = .ok none →
      ∃ before data used, parseVarint before = .ok none ∧
        parseVarint (before ++ data) = .ok (some (ty, used)) ∧
        leftover = (before ++ data).drop used ∧
        before ++ data ++ content rest = buf ++ content items ∧
        (Each C buf items → C before (.chunk data) ∧ Each C (before ++ data) rest) := by
  induction items with
  | nil =>
    intro buf ty leftover rest h hbuf
    cases h
  | cons item items ih =>
    intro buf ty leftover rest h hbuf
    cases item with
    | failed err => cases h
    | finished => cases h
    | chunk data =>
      rw [readType] at h
      split at h
      · cases h
      · next hnone =>
        obtain ⟨before, data', used, hbefore, hparse, hleft, hcontent, heach⟩ := ih h hnone
        refine ⟨before, data', used, hbefore, hparse, hleft, ?_, fun hall => heach hall.2⟩
        rw [hcontent]
        simp [content, Recv.octets]
      · next ty' used hparse =>
        cases h
        exact ⟨buf, data, used, hbuf, hparse, rfl, by simp [content, Recv.octets], id⟩

/-- What goes wrong with a type: the stream ends, fails, or writes the type with
more octets than it takes. -/
theorem readType_error (items : List Recv) {err : ControlError} : ∀ {buf : Octets},
    readType buf items = .error err → parseVarint buf = .ok none →
      ∃ before item later, parseVarint before = .ok none ∧ (Each C buf items → C before item) ∧
        before ++ item.octets ++ later = buf ++ content items ∧
        ∀ data, item = .chunk data → ∃ e, parseVarint (before ++ data) = .error e := by
  induction items with
  | nil =>
    intro buf h hbuf
    cases h
  | cons item items ih =>
    intro buf h hbuf
    cases item with
    | failed e => exact ⟨buf, .failed e, content items, hbuf, And.left, by simp [content], by simp⟩
    | finished => exact ⟨buf, .finished, content items, hbuf, And.left, by simp [content], by simp⟩
    | chunk data =>
      rw [readType] at h
      split at h
      · next e hparse =>
        refine ⟨buf, .chunk data, content items, hbuf, And.left, by simp [content], ?_⟩
        rintro _ ⟨⟩
        exact ⟨e, hparse⟩
      · next hnone =>
        obtain ⟨before, item, later, hbefore, hitem, hcontent, herr⟩ := ih h hnone
        refine ⟨before, item, later, hbefore, fun hall => hitem hall.2, ?_, herr⟩
        rw [hcontent]
        simp [content, Recv.octets]
      · cases h

/-! ### Moves keep the order -/

namespace View

theorem inbox_setInbox (v : View) (stream : ℕ) (items : List Recv) :
    (v.setInbox stream items).net.inbox stream = items := update_self _ _ _

theorem inbox_setInbox_of_ne (v : View) {other : ℕ} (h : other ≠ stream) (items : List Recv) :
    (v.setInbox stream items).net.inbox other = v.net.inbox other := update_of_ne h _ _

section
variable (h : v.Ordered C)
include h

/-- An accepted stream was the first in the queue, and nothing of it has been
read. -/
theorem Ordered.accept {stream : ℕ} {rest : List (Except TransportError ℕ)}
    (hincoming : v.net.incoming = .ok stream :: rest) :
    Ordered C { v with pending := some ⟨stream, []⟩, net := { v.net with incoming := rest } } := by
  let back : Position → Position
    | .slot kind => .slot kind
    | .pending => .incoming 0
    | .incoming i => .incoming (i + 1)
  have hat : v.At stream (.incoming 0) := by simp [At, hincoming]
  refine h.transfer back stream rfl rfl (fun _ _ => rfl) (h.born hat) ?_ ?_ ?_ ?_
  · intro other pos hpos
    cases pos with
    | slot kind => exact hpos
    | pending =>
      obtain rfl : stream = other := by simpa [At] using hpos
      exact hat
    | incoming i => simpa [At, back, hincoming] using hpos
  · intro other pos pos' _ _ heq
    cases pos <;> cases pos' <;> simp_all [back]
  · intro other pos seen hne hpos hst
    cases pos with
    | slot kind => exact hst
    | pending => exact absurd (by simpa [At] using hpos) hne.symm
    | incoming i => exact hst
  · intro pos hpos
    obtain ⟨seen, hreads, hseen⟩ := h.reads hat
    obtain rfl : seen = [] := hseen
    cases pos with
    | slot kind => cases h.unique hat (show v.At stream (.slot kind) from hpos)
    | pending => exact ⟨[], ⟨hreads.content_eq, hreads.each⟩, rfl, rfl⟩
    | incoming i =>
      have hold : v.At stream (.incoming (i + 1)) := by simpa [At, hincoming] using hpos
      cases h.unique hat hold

theorem Ordered.grow {u : PendingUni} {buf : Octets} (hpending : v.pending = some u)
    (hread : readType u.buf (v.net.inbox u.stream) = .ok (.incomplete buf)) :
    Ordered C { v.setInbox u.stream [] with pending := some { u with buf := buf } } := by
  have hat : v.At u.stream .pending := by simp [At, hpending]
  have hsame : ∀ {other pos},
      At { v.setInbox u.stream [] with pending := some { u with buf := buf } } other pos →
        v.At other pos := by
    intro other pos hpos
    cases pos with
    | slot kind => exact hpos
    | pending => simpa [At, hpending] using hpos
    | incoming i => exact hpos
  refine h.transfer id u.stream rfl rfl
    (fun other hne => v.inbox_setInbox_of_ne hne []) (h.born hat) hsame (fun _ _ => id) ?_ ?_
  · intro other pos seen hne hpos hst
    cases pos with
    | slot kind => exact hst
    | pending => exact absurd (by simpa [At] using hpos) hne.symm
    | incoming i => exact hst
  · intro pos hpos
    obtain rfl := h.unique hat (hsame hpos)
    obtain ⟨seen, hreads, hseen, hnone⟩ := h.reads hat
    obtain rfl : u.buf = seen := by simpa [hpending] using hseen
    obtain ⟨rfl, hparse⟩ := readType_incomplete _ hread hnone
    refine ⟨_, ⟨?_, ?_⟩, rfl, hparse⟩
    · show _ ++ content ((v.setInbox u.stream []).net.inbox u.stream) =
        content (v.net.sent u.stream)
      rw [inbox_setInbox, ← hreads.content_eq]
      exact append_nil _
    · rw [inbox_setInbox]
      trivial

/-- A classified stream goes to a place that was free, or takes that of another. -/
theorem Ordered.place {u : PendingUni} {ty : ℕ} {leftover : Octets} {rest : List Recv} {kind : Kind}
    (hpending : v.pending = some u)
    (hread : readType u.buf (v.net.inbox u.stream) = .ok (.complete ty leftover rest))
    (hkind : kindOf ty = some kind) :
    Ordered C { v.setInbox u.stream rest with
      pending := none, slot := update v.slot kind (some u.stream) } := by
  let back : Position → Position := fun pos => if pos = .slot kind then .pending else pos
  have hat : v.At u.stream .pending := by simp [At, hpending]
  have hback : ∀ {other pos}, At { v.setInbox u.stream rest with
      pending := none, slot := update v.slot kind (some u.stream) } other pos →
      v.At other (back pos) := by
    intro other pos hpos
    cases pos with
    | slot kind' =>
      by_cases hk : kind' = kind
      · subst hk
        obtain rfl : u.stream = other := by simpa [At] using hpos
        simpa [back] using hat
      · simpa [back, hk, At] using hpos
    | pending => cases hpos
    | incoming i =>
      exact hpos
  refine h.transfer back u.stream rfl rfl
    (fun other hne => v.inbox_setInbox_of_ne hne rest) (h.born hat) hback ?_ ?_ ?_
  · intro other pos pos' hpos hpos' heq
    have hnot : ∀ {q}, At { v.setInbox u.stream rest with
      pending := none, slot := update v.slot kind (some u.stream) } other q →
      q ≠ .pending := by
      rintro q hq rfl
      cases hq
    by_cases h₁ : pos = .slot kind <;> by_cases h₂ : pos' = .slot kind
    · rw [h₁, h₂]
    · simp only [back, if_pos h₁, if_neg h₂] at heq
      exact absurd heq.symm (hnot hpos')
    · simp only [back, if_neg h₁, if_pos h₂] at heq
      exact absurd heq (hnot hpos)
    · simpa only [back, if_neg h₁, if_neg h₂] using heq
  · intro other pos seen hne hpos hst
    cases pos with
    | slot kind' =>
      have hk : kind' ≠ kind := by
        rintro rfl
        exact hne (by simpa using hpos.symm)
      rw [show back (.slot kind') = .slot kind' from if_neg (by simp [hk])] at hst
      exact hst
    | pending => cases hpos
    | incoming i =>
      exact hst
  · intro pos hpos
    have hpend := h.unique hat (hback hpos)
    obtain ⟨seen, hreads, hseen, hnone⟩ := h.reads hat
    obtain rfl : u.buf = seen := by simpa [hpending] using hseen
    obtain ⟨before, data, used, -, hparse, -, hcontent, heach⟩ := readType_complete _ hread
      hnone
    have hslot : pos = .slot kind := by
      by_contra hne
      rw [show back pos = pos from if_neg hne] at hpend
      rw [← hpend] at hpos
      cases hpos
    subst hslot
    refine ⟨before ++ data, ⟨?_, ?_⟩, ty, used, hparse, hkind⟩
    · rw [inbox_setInbox, hcontent]
      exact hreads.content_eq
    · rw [inbox_setInbox]
      exact (heach hreads.each).2

theorem Ordered.take {item : Recv} {rest : List Recv} (hslot : v.slot kind = some stream)
    (hinbox : v.net.inbox stream = item :: rest) : (v.setInbox stream rest).Ordered C := by
  have hat : v.At stream (.slot kind) := hslot
  have hsame : ∀ {other pos}, (v.setInbox stream rest).At other pos → v.At other pos := by
    intro other pos hpos
    cases pos <;> exact hpos
  refine h.transfer id stream rfl rfl (fun other hne => v.inbox_setInbox_of_ne hne rest)
    (h.born hat) hsame (fun _ _ => id) ?_ ?_
  · intro other pos seen _ _ hst
    cases pos <;> exact hst
  · intro pos hpos
    obtain rfl := h.unique hat (hsame hpos)
    obtain ⟨seen, hreads, ty, used, hparse, hkind⟩ := h.reads hat
    have hall := hreads.each
    have hcontent := hreads.content_eq
    rw [hinbox] at hall hcontent
    refine ⟨seen ++ item.octets, ⟨?_, ?_⟩, ty, used, ?_, hkind⟩
    · rw [inbox_setInbox]
      show _ = content (v.net.sent stream)
      rw [← hcontent]
      simp [content]
    · rw [inbox_setInbox]
      exact hall.2
    · rw [parseVarint_append (by simp [hparse]), hparse]

/-- A stream can leave its place. -/
theorem Ordered.leave (slot : Kind → Option ℕ) (incoming : List (Except TransportError ℕ))
    (hsame : ∀ {other pos}, At { v with slot := slot, net := { v.net with incoming := incoming } }
      other pos → v.At other pos) :
    Ordered C { v with slot := slot, net := { v.net with incoming := incoming } } := by
  refine ⟨fun hpos => h.born (hsame hpos), fun hpos hpos' => h.unique (hsame hpos) (hsame hpos'),
    h.unborn, fun {stream pos} hpos => ?_⟩
  obtain ⟨seen, hreads, hst⟩ := h.reads (hsame hpos)
  exact ⟨seen, ⟨hreads.content_eq, hreads.each⟩, by cases pos <;> exact hst⟩

theorem Ordered.vacate (kind : Kind) : Ordered C { v with slot := update v.slot kind none } := by
  refine h.leave _ v.net.incoming fun {other pos} hpos => ?_
  cases pos with
  | slot kind' =>
    by_cases hk : kind' = kind
    · subst hk
      simp [At] at hpos
    · simpa [At, hk] using hpos
  | pending => exact hpos
  | incoming i => exact hpos

theorem Ordered.move {gain : ℕ} (hmove : Move v v' gain progressed) : v'.Ordered C := by
  cases hmove with
  | accept _ hincoming => exact h.accept hincoming
  | grow hpending hread => exact h.grow hpending hread
  | place hpending hread hkind _ => exact h.place hpending hread hkind
  | read hslot hinbox => exact h.take hslot hinbox
  | drop hslot hinbox => exact (h.take hslot hinbox).vacate .discard

/-! ### Runs keep the order -/

theorem Ordered.openUni : Ordered C { v with net := { v.net with
    incoming := v.net.incoming ++ [.ok v.net.opened], opened := v.net.opened + 1 } } := by
  have hcases : ∀ {other pos}, At { v with net := { v.net with
      incoming := v.net.incoming ++ [.ok v.net.opened], opened := v.net.opened + 1 } } other pos →
      v.At other pos ∨ (other = v.net.opened ∧ pos = .incoming v.net.incoming.length) := by
    intro other pos hpos
    cases pos with
    | slot kind => exact .inl hpos
    | pending => exact .inl hpos
    | incoming i =>
      simp only [At, getElem?_append] at hpos
      split_ifs at hpos
      · exact .inl hpos
      · rw [getElem?_singleton] at hpos
        split_ifs at hpos
        simp only [Option.some.injEq, Except.ok.injEq] at hpos
        exact .inr ⟨hpos.symm, by rw [show i = v.net.incoming.length by omega]⟩
  have hnew := h.unborn v.net.opened le_rfl
  refine ⟨fun {other pos} hpos => ?_, fun {other pos pos'} hpos hpos' => ?_, fun other hle => ?_,
    fun {other pos} hpos => ?_⟩
  · rcases hcases hpos with hold | ⟨rfl, -⟩
    · exact Nat.lt_succ_of_lt (h.born hold)
    · exact Nat.lt_succ_self _
  · rcases hcases hpos with hold | ⟨rfl, rfl⟩ <;> rcases hcases hpos' with hold' | ⟨hopened, rfl⟩
    · exact h.unique hold hold'
    · exact absurd (h.born hold) (by omega)
    · exact absurd (h.born hold') (lt_irrefl _)
    · rfl
  · exact h.unborn other (Nat.le_of_succ_le hle)
  · rcases hcases hpos with hold | ⟨rfl, rfl⟩
    · obtain ⟨seen, hreads, hst⟩ := h.reads hold
      exact ⟨seen, ⟨hreads.content_eq, hreads.each⟩, by cases pos <;> exact hst⟩
    · refine ⟨[], ⟨?_, ?_⟩, rfl⟩
      · rw [hnew.1, hnew.2]
        rfl
      · rw [hnew.1]
        trivial

/-- An item that meets the condition arrives on an open stream. -/
theorem Ordered.deliver {stream : ℕ} {item : Recv} (hborn : stream < v.net.opened)
    (hitem : C (content (v.net.sent stream)) item) : Ordered C { v with net := { v.net with
      inbox := update v.net.inbox stream (v.net.inbox stream ++ [item])
      sent := update v.net.sent stream (v.net.sent stream ++ [item]) } } := by
  refine ⟨fun {other pos} hpos => h.born (show v.At other pos by cases pos <;> exact hpos),
    fun {other pos pos'} hpos hpos' => h.unique (by cases pos <;> exact hpos)
      (by cases pos' <;> exact hpos'), fun other hle => ?_, fun {other pos} hpos => ?_⟩
  · have hne : other ≠ stream := by
      have : v.net.opened ≤ other := hle
      omega
    dsimp only
    rw [update_of_ne hne, update_of_ne hne]
    exact h.unborn other hle
  · obtain ⟨seen, hreads, hst⟩ := h.reads (show v.At other pos by cases pos <;> exact hpos)
    refine ⟨seen, ?_, by cases pos <;> exact hst⟩
    by_cases hne : other = stream
    · subst hne
      constructor
      · dsimp only
        rw [update_self, update_self, content_append, content_append,
          ← append_assoc, hreads.content_eq]
      · dsimp only
        rw [update_self]
        exact hreads.each.append _ (by rw [hreads.content_eq]; exact hitem)
    · constructor
      · dsimp only
        rw [update_of_ne hne, update_of_ne hne]
        exact hreads.content_eq
      · dsimp only
        rw [update_of_ne hne]
        exact hreads.each

theorem Ordered.acceptFails (err : TransportError) :
    Ordered C { v with net := { v.net with incoming := v.net.incoming ++ [.error err] } } := by
  refine h.leave v.slot _ fun {other pos} hpos => ?_
  cases pos with
  | slot kind => exact hpos
  | pending => exact hpos
  | incoming i =>
    simp only [At, getElem?_append] at hpos
    split_ifs at hpos
    · exact hpos
    · rw [getElem?_singleton] at hpos
      split_ifs at hpos
      cases hpos

/-! ### No stream is lost -/

theorem Ordered.typed (hslot : v.slot kind = some stream) :
    ∃ ty used, parseVarint (content (v.net.sent stream)) = .ok (some (ty, used)) ∧
      kindOf ty = some kind := by
  obtain ⟨seen, hreads, ty, used, hparse, hkind⟩ :=
    h.reads (show v.At stream (.slot kind) from hslot)
  refine ⟨ty, used, ?_, hkind⟩
  rw [← hreads.content_eq, parseVarint_append (by simp [hparse]), hparse]

end

/-- Only streams of unknown type may have lost their place. -/
def Housed (v : View) : Prop := ∀ stream < v.net.opened, (∃ pos, v.At stream pos) ∨
  ∃ ty used, parseVarint (content (v.net.sent stream)) = .ok (some (ty, used)) ∧
    kindOf ty = some .discard

theorem Housed.move {gain : ℕ} (hhoused : v.Housed) (h : v.Ordered C)
    (hmove : Move v v' gain progressed) : v'.Housed := by
  obtain ⟨hopened, hsent⟩ : v'.net.opened = v.net.opened ∧ v'.net.sent = v.net.sent := by
    cases hmove <;> exact ⟨rfl, rfl⟩
  intro other hlt
  rw [hopened] at hlt
  rw [hsent]
  refine (hhoused other hlt).elim (fun ⟨pos, hpos⟩ => ?_) .inr
  cases hmove with
  | @accept stream rest hnone hincoming =>
    left
    cases pos with
    | slot kind => exact ⟨.slot kind, hpos⟩
    | pending => simp [At, hnone] at hpos
    | incoming i =>
      cases i with
      | zero =>
        obtain rfl : stream = other := by simpa [At, hincoming] using hpos
        exact ⟨.pending, rfl⟩
      | succ i => exact ⟨.incoming i, by simpa [At, hincoming] using hpos⟩
  | @grow u buf hpending _ =>
    refine .inl ⟨pos, ?_⟩
    cases pos with
    | slot | incoming => exact hpos
    | pending => simpa [At, hpending] using hpos
  | @place u ty leftover rest kind hpending _ _ hfree =>
    cases pos with
    | slot kind' =>
      by_cases hk : kind' = kind
      · -- the place was taken: the stream in it was being discarded
        subst hk
        rcases hfree with rfl | hfree
        · exact .inr (h.typed hpos)
        · rw [At, hfree] at hpos
          cases hpos
      · exact .inl ⟨.slot kind', by simpa [At, hk] using hpos⟩
    | pending =>
      obtain rfl : u.stream = other := by simpa [At, hpending] using hpos
      exact .inl ⟨.slot kind, by simp [At]⟩
    | incoming i => exact .inl ⟨.incoming i, hpos⟩
  | read => exact .inl ⟨pos, by cases pos <;> exact hpos⟩
  | drop =>
    cases pos with
    | slot kind =>
      by_cases hk : kind = .discard
      · subst hk
        exact .inr (h.typed hpos)
      · exact .inl ⟨.slot kind, by simpa [At, hk] using hpos⟩
    | pending => exact .inl ⟨.pending, hpos⟩
    | incoming i => exact .inl ⟨.incoming i, hpos⟩

/-- Whatever joins the queue, the others stay where they are. -/
theorem At.append {opened : ℕ} {pos : Position} (hpos : v.At stream pos)
    (r : Except TransportError ℕ) :
    At { v with net := { v.net with incoming := v.net.incoming ++ [r], opened := opened } } stream
      pos := by
  cases pos with
  | slot kind => exact hpos
  | pending => exact hpos
  | incoming i => exact (getElem?_append_left (List.getElem?_eq_some_iff.1 hpos).1).trans hpos

theorem Housed.openUni (h : v.Housed) : Housed { v with net := { v.net with
    incoming := v.net.incoming ++ [.ok v.net.opened], opened := v.net.opened + 1 } } := by
  intro other hlt
  rcases Nat.lt_succ_iff_lt_or_eq.1 hlt with hold | rfl
  · exact (h other hold).imp_left fun ⟨pos, hpos⟩ => ⟨pos, hpos.append _⟩
  · exact .inl ⟨.incoming v.net.incoming.length, by simp [At]⟩

theorem Housed.acceptFails (h : v.Housed) (err : TransportError) :
    Housed { v with net := { v.net with incoming := v.net.incoming ++ [.error err] } } :=
  fun other hlt => (h other hlt).imp_left fun ⟨pos, hpos⟩ => ⟨pos, hpos.append _⟩

theorem Housed.deliver (h : v.Housed) (stream : ℕ) (item : Recv) :
    Housed { v with net := { v.net with
      inbox := update v.net.inbox stream (v.net.inbox stream ++ [item])
      sent := update v.net.sent stream (v.net.sent stream ++ [item]) } } := by
  intro other hlt
  rcases h other hlt with ⟨pos, hpos⟩ | ⟨ty, used, hparse, hkind⟩
  · exact .inl ⟨pos, by cases pos <;> exact hpos⟩
  refine .inr ⟨ty, used, ?_, hkind⟩
  by_cases hne : other = stream
  · subst hne
    dsimp only
    rw [update_self, content_append, parseVarint_append (by simp [hparse]), hparse]
  · dsimp only
    rw [update_of_ne hne, hparse]

end View

namespace Plane

variable {p p' : Plane}

theorem ordered_start (settings : LocalSettings) : (start settings).view.Ordered C := by
  have hnone : ∀ {stream pos}, ¬ (start settings).view.At stream pos := by
    intro stream pos hpos
    cases pos with
    | slot kind => cases kind <;> cases hpos
    | pending => cases hpos
    | incoming i => simp [View.At, view, start] at hpos
  exact ⟨fun h => absurd h hnone, fun h => absurd h hnone, fun _ _ => ⟨rfl, rfl⟩,
    fun h => absurd h hnone⟩

theorem stage_view {I : View → Prop}
    (hmove : ∀ {v v' gain progressed}, Move v v' gain progressed → I v → I v')
    (hf : f ∈ stages) (h : f p = .ok (p', progressed)) (hi : I p.view) : I p'.view := by
  rcases stage_effect hf h with ⟨hview, -⟩ | ⟨gain, hm, -⟩
  · rwa [hview]
  · exact hmove hm hi

theorem pollRead_view {I : View → Prop}
    (hmove : ∀ {v v' gain progressed}, Move v v' gain progressed → I v → I v')
    {event : Option ControlEvent} (h : p.pollRead = .ok (p', event)) : I p.view → I p'.view :=
  pollRead_rel (fun _ => id)
    (fun hpq hqr hp => hqr (hpq hp))
    (fun hpop hp => by obtain ⟨_, rfl⟩ := popEvent_eq hpop; exact hp)
    (fun _ hf _ _ _ => stage_view hmove hf) h

theorem stage_ordered (hf : f ∈ stages) (h : f p = .ok (p', progressed)) :
    p.view.Ordered C → p'.view.Ordered C :=
  stage_view (fun hmove h => h.move hmove) hf h

/-- A stream keeps its place, unless it is one of those that are discarded. -/
theorem stage_slot (hf : f ∈ stages) (h : f p = .ok (p', progressed)) (hdiscard : kind ≠ .discard)
    (hkind : p.streams.slot kind = some stream) : p'.streams.slot kind = some stream := by
  have hslot : p.view.slot kind = some stream := hkind
  show p'.view.slot kind = some stream
  rcases stage_effect hf h with ⟨hview, -⟩ | ⟨gain, hmove, -⟩
  · rwa [hview]
  generalize p'.view = v' at hmove ⊢
  generalize p.view = v at hmove hslot
  cases hmove with
  | accept | grow | read => exact hslot
  | @place u ty leftover rest kind' _ _ _ hfree =>
    have hne : kind ≠ kind' := by
      rintro rfl
      rw [hfree.resolve_left hdiscard] at hslot
      cases hslot
    exact (update_of_ne hne _ _).trans hslot
  | drop => exact (update_of_ne hdiscard _ _).trans hslot

/-- Accepting, classifying and handling frames take nothing from a stream in its
place. -/
theorem stage_inbox (hordered : p.view.Ordered C) {f : Plane → Except Failure (Plane × Bool)}
    (hf : f ∈ [accept, classifyUni, readFrames]) (h : f p = .ok (p', progressed))
    (hslot : p.streams.slot kind = some stream) : p'.net.inbox stream = p.net.inbox stream := by
  simp only [mem_cons, not_mem_nil, or_false] at hf
  rcases hf with rfl | rfl | rfl
  · rw [accept] at h
    split at h <;> cases h <;> rfl
  · rw [classifyUni] at h
    split at h
    · cases h
      rfl
    · next u hpending =>
      have hne : stream ≠ u.stream := by
        rintro rfl
        cases hordered.unique (show p.view.At u.stream (.slot kind) from hslot)
          (show p.view.At u.stream .pending by simp [View.At, view, hpending])
      split at h
      · cases h
      · cases h
        exact update_of_ne hne _ _
      · obtain ⟨c, -, rfl, rfl⟩ := exists_of_onBehalf h
        exact update_of_ne hne _ _
  · have hnet : p'.net = p.net := congrArg View.net (readFrames_ok h).1
    rw [hnet]

theorem pollSlot_inbox (hordered : p.view.Ordered C) {kind' : Kind} (hne : kind' ≠ kind)
    {onChunk : Octets → Except ControlError ControlStreams}
    {onEnd : Except ControlError ControlStreams}
    (h : p.pollSlot (p.streams.slot kind') onChunk onEnd = .ok (p', progressed))
    (hslot : p.streams.slot kind = some stream) : p'.net.inbox stream = p.net.inbox stream := by
  rcases pollSlot_ok h with ⟨rfl, -, -⟩ | ⟨other, item, rest, c, hother, -, rfl, -, -⟩
  · rfl
  have hstream : stream ≠ other := by
    rintro rfl
    cases hordered.unique (show p.view.At stream (.slot kind') from hother)
      (show p.view.At stream (.slot kind) from hslot)
    exact hne rfl
  exact update_of_ne hstream _ _

/-- What the peer sends meets the condition, given what it has sent before. -/
def Sends (C : Octets → Recv → Prop) (p : Plane) : Action → Prop
  | .deliver stream item => C (content (p.net.sent stream)) item
  | _ => True

/-- What every move and every action of the peer keeps, a step keeps. -/
theorem step_view {I : View → Prop} {a : Action}
    (hmove : ∀ {v v' gain progressed}, Move v v' gain progressed → I v → I v')
    (hopen : ∀ {v : View}, I v → I { v with net := { v.net with
      incoming := v.net.incoming ++ [.ok v.net.opened], opened := v.net.opened + 1 } })
    (hfail : ∀ {v : View} err, I v →
      I { v with net := { v.net with incoming := v.net.incoming ++ [.error err] } })
    (hdeliver : ∀ {stream item}, a = .deliver stream item → stream < p.net.opened → I p.view →
      I { p.view with net := { p.net with
        inbox := update p.net.inbox stream (p.net.inbox stream ++ [item])
        sent := update p.net.sent stream (p.net.sent stream ++ [item]) } })
    (h : I p.view) (hstep : p.step a = .ok p') : I p'.view := by
  cases a with
  | openUni => cases hstep; exact hopen h
  | acceptFails err => cases hstep; exact hfail err h
  | deliver stream item =>
    rw [step] at hstep
    split_ifs at hstep with hopened
    · cases hstep
      exact h
    · cases hstep
      exact hdeliver rfl (Nat.lt_of_not_le hopened) h
  | poll =>
    obtain ⟨event, hpoll⟩ := step_poll hstep
    exact pollRead_view hmove hpoll h
  | flush =>
    cases hstep
    have hview : view { p with streams := p.streams.flushDecoder } = p.view := by
      unfold ControlStreams.flushDecoder
      split <;> rfl
    rwa [hview]
  | decode stream block now =>
    rw [step] at hstep
    split at hstep
    · cases hstep
    · cases hstep
      exact h
  | encode stream lines | finish stream => cases hstep; exact h

theorem step_ordered {a : Action} (h : p.view.Ordered C) (hc : p.Sends C a)
    (hstep : p.step a = .ok p') : p'.view.Ordered C := by
  refine step_view (fun hmove h => h.move hmove) View.Ordered.openUni
    (fun err h => h.acceptFails err) ?_ h hstep
  rintro stream item rfl hlt h
  exact h.deliver hlt hc

theorem step_housed {a : Action} (h : p.view.Ordered C ∧ p.view.Housed) (hc : p.Sends C a)
    (hstep : p.step a = .ok p') : p'.view.Ordered C ∧ p'.view.Housed := by
  refine step_view (I := fun v => v.Ordered C ∧ v.Housed)
    (fun hmove h => ⟨h.1.move hmove, h.2.move h.1 hmove⟩) (fun h => ⟨h.1.openUni, h.2.openUni⟩)
    (fun err h => ⟨h.1.acceptFails err, h.2.acceptFails err⟩) ?_ h hstep
  rintro stream item rfl hlt h
  exact ⟨h.1.deliver hlt hc, h.2.deliver stream item⟩

end Plane

end ZincioHttp.H3
