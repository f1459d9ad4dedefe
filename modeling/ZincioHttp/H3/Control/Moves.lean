import Mathlib.Algebra.Order.BigOperators.Group.List
import ZincioHttp.H3.Control

/-! What a stage of a round does to the streams. It accepts one, reads a piece of a
type, puts a classified stream in its place, or takes one item from a stream that
is in its place; all else it leaves alone. -/

namespace ZincioHttp.H3

open Qpack Lib List Option Function PendingUni Plane FrameDecoder ControlStreams

/-- Where the streams are and what they have to offer. -/
structure View where
  slot : Kind → Option ℕ
  pending : Option PendingUni
  net : Net

namespace View

def setInbox (v : View) (stream : ℕ) (items : List Recv) : View :=
  { v with net := { v.net with inbox := Function.update v.net.inbox stream items } }

/-- Counterpart of `Plane.serviced`. -/
def serviced (v : View) : List ℕ :=
  [Kind.control, .encoder, .decoder, .discard].filterMap v.slot ++
    (v.pending.map PendingUni.stream).toList ++ v.net.incoming.filterMap Except.toOption

/-- What the streams have to offer and what has been read of a type. -/
def weight (v : View) : ℕ :=
  (v.serviced.map fun stream => Plane.weight (v.net.inbox stream)).sum + v.net.incoming.length +
    (v.pending.map fun u => u.buf.length).getD 0

end View

def Plane.view (p : Plane) : View := ⟨p.streams.slot, p.streams.pendingUni, p.net⟩

def kindOf (ty : ℕ) : Option Kind :=
  if ty = streamTypeControl then some .control
  else if ty = streamTypePush then none
  else if ty = streamTypeQpackEncoder then some .encoder
  else if ty = streamTypeQpackDecoder then some .decoder
  else some .discard

/-- A step that takes something from the network; `gain` octets of it reach a
handler, and the flag tells whether it counts as progress. -/
inductive Move : View → View → ℕ → Bool → Prop
  | accept {v : View} {stream : ℕ} {rest : List (Except TransportError ℕ)}
      (hpending : v.pending = none) (hincoming : v.net.incoming = .ok stream :: rest) :
      Move v { v with pending := some ⟨stream, []⟩, net := { v.net with incoming := rest } } 0 true
  | grow {v : View} {u : PendingUni} {buf : Octets} (hpending : v.pending = some u)
      (hread : readType u.buf (v.net.inbox u.stream) = .ok (.incomplete buf)) :
      Move v { v.setInbox u.stream [] with pending := some { u with buf := buf } } 0 false
  | place {v : View} {u : PendingUni} {ty : ℕ} {leftover : Octets} {rest : List Recv} {kind : Kind}
      (hpending : v.pending = some u)
      (hread : readType u.buf (v.net.inbox u.stream) = .ok (.complete ty leftover rest))
      (hkind : kindOf ty = some kind) (hfree : kind = .discard ∨ v.slot kind = none) :
      Move v { v.setInbox u.stream rest with
        pending := none, slot := Function.update v.slot kind (some u.stream) } leftover.length true
  | read {v : View} {kind : Kind} {stream : ℕ} {data : Octets} {rest : List Recv}
      (hslot : v.slot kind = some stream) (hinbox : v.net.inbox stream = .chunk data :: rest) :
      Move v (v.setInbox stream rest) data.length true
  | drop {v : View} {stream : ℕ} {rest : List Recv} (hslot : v.slot .discard = some stream)
      (hinbox : v.net.inbox stream = .finished :: rest) :
      Move v { v.setInbox stream rest with slot := Function.update v.slot .discard none } 0 true

/-! ### What is waiting -/

namespace View

/-- What the stream in a place has to offer. -/
def load (w : ℕ → ℕ) (slot : Option ℕ) : ℕ := (slot.map w).getD 0

theorem load_mono {w w' : ℕ → ℕ} (h : w' ≤ w) (slot : Option ℕ) :
    load w' slot ≤ load w slot := by
  cases slot with
  | none => exact le_rfl
  | some stream => exact h stream

def inboxWeight (v : View) (stream : ℕ) : ℕ := Plane.weight (v.net.inbox stream)

/-- The weight, place by place. -/
def total (w : ℕ → ℕ) (slot : Kind → Option ℕ) (pending : Option PendingUni)
    (incoming : List (Except TransportError ℕ)) : ℕ :=
  load w (slot .control) + load w (slot .encoder) + load w (slot .decoder) +
    load w (slot .discard) + load w (pending.map PendingUni.stream) +
    ((incoming.filterMap Except.toOption).map w).sum + incoming.length +
    (pending.map fun u => u.buf.length).getD 0

theorem weight_eq (v : View) : v.weight = total v.inboxWeight v.slot v.pending v.net.incoming := by
  have hslots : (([Kind.control, .encoder, .decoder, .discard].filterMap v.slot).map
      v.inboxWeight).sum = load v.inboxWeight (v.slot .control) +
      load v.inboxWeight (v.slot .encoder) + load v.inboxWeight (v.slot .decoder) +
      load v.inboxWeight (v.slot .discard) := by
    simp only [filterMap_cons]
    cases v.slot .control <;> cases v.slot .encoder <;> cases v.slot .decoder <;>
      cases v.slot .discard <;> simp [load] <;> omega
  have hpending : ((v.pending.map stream).toList.map v.inboxWeight).sum =
      load v.inboxWeight (v.pending.map stream) := by
    cases v.pending <;> simp [load]
  unfold weight serviced total
  rw [map_append, map_append, sum_append, sum_append, ← hslots, ← hpending]
  rfl

theorem total_mono {w w' : ℕ → ℕ} (h : w' ≤ w)
    (slot : Kind → Option ℕ) (pending : Option PendingUni)
    (incoming : List (Except TransportError ℕ)) :
    total w' slot pending incoming ≤ total w slot pending incoming := by
  have hload := load_mono h
  have h₁ := hload (slot .control)
  have h₂ := hload (slot .encoder)
  have h₃ := hload (slot .decoder)
  have h₄ := hload (slot .discard)
  have h₅ := hload (pending.map stream)
  have h₆ : ((incoming.filterMap Except.toOption).map w').sum ≤
      ((incoming.filterMap Except.toOption).map w).sum := sum_le_sum fun stream _ => h stream
  unfold total
  omega

theorem total_update (w : ℕ → ℕ) (slot : Kind → Option ℕ) (kind : Kind) (o : Option ℕ)
    (pending : Option PendingUni) (incoming : List (Except TransportError ℕ)) :
    total w (update slot kind o) pending incoming + load w (slot kind) =
      total w slot pending incoming + load w o := by
  unfold total
  cases kind <;> simp <;> omega

theorem total_pending (w : ℕ → ℕ) (slot : Kind → Option ℕ) (u : PendingUni)
    (incoming : List (Except TransportError ℕ)) :
    total w slot (some u) incoming = total w slot none incoming + w u.stream + u.buf.length := by
  simp [total, load]
  omega

theorem inboxWeight_setInbox (v : View) (stream : ℕ) (items : List Recv) :
    (v.setInbox stream items).inboxWeight = update v.inboxWeight stream (Plane.weight items) := by
  funext other
  by_cases h : other = stream
  · subst h
    simp [inboxWeight, setInbox]
  · simp [inboxWeight, setInbox, h]

end View

theorem weight_chunk (data : Octets) (rest : List Recv) :
    weight (.chunk data :: rest) = data.length + 1 + weight rest := by
  simp [weight]

/-- Reading a type: all octets are kept, or those behind the type. -/
theorem readType_ok (items : List Recv) : ∀ {buf : Octets} {r : TypeRead},
    readType buf items = .ok r →
      match r with
      | .incomplete buf' => buf'.length ≤ buf.length + weight items
      | .complete _ leftover rest =>
        leftover.length + 1 + weight rest ≤ buf.length + weight items ∧
          weight rest ≤ weight items := by
  induction items with
  | nil =>
    intro buf r h
    cases h
    exact Nat.le_add_right _ _
  | cons item items ih =>
    intro buf r h
    cases item with
    | failed err => cases h
    | finished => cases h
    | chunk data =>
      rw [readType] at h
      rw [weight_chunk]
      split at h
      · cases h
      · have hrest := ih h
        rw [length_append] at hrest
        cases r with
        | incomplete buf' | complete ty leftover rest => dsimp only at hrest ⊢; omega
      · cases h
        simp only [length_drop, length_append]
        constructor <;> omega

theorem Move.weight_le {v v' : View} {gain : ℕ} {progressed : Bool}
    (h : Move v v' gain progressed) : v'.weight + gain + progressed.toNat ≤ v.weight := by
  rw [View.weight_eq, View.weight_eq]
  cases h with
  | @accept stream rest hpending hincoming =>
    show View.total v.inboxWeight v.slot (some ⟨stream, []⟩) rest + 0 + 1 ≤ _
    rw [hpending, hincoming, View.total_pending]
    simp [View.total, Except.toOption]
    omega
  | @grow u buf hpending hread =>
    have hbuf := readType_ok _ hread
    have hempty : weight [] ≤ v.inboxWeight u.stream := Nat.zero_le _
    have htotal := View.total_mono (update_le_self_iff.2 hempty) v.slot none v.net.incoming
    show View.total (v.setInbox u.stream []).inboxWeight v.slot (some { u with buf := buf })
      v.net.incoming + 0 + 0 ≤ _
    rw [View.inboxWeight_setInbox, hpending, View.total_pending, View.total_pending]
    simp only [update_self]
    have hzero : weight [] = 0 := rfl
    have hfull : v.inboxWeight u.stream = weight (v.net.inbox u.stream) := rfl
    omega
  | @place u ty leftover rest kind hpending hread hkind hfree =>
    obtain ⟨hbuf, hrest⟩ := readType_ok _ hread
    have hfull : v.inboxWeight u.stream = weight (v.net.inbox u.stream) := rfl
    have htotal := View.total_mono (update_le_self_iff.2 (hfull ▸ hrest)) v.slot none v.net.incoming
    have hplaced := View.total_update (update v.inboxWeight u.stream (weight rest))
      v.slot kind (some u.stream) none v.net.incoming
    show View.total (v.setInbox u.stream rest).inboxWeight
      (update v.slot kind (some u.stream)) none v.net.incoming + _ + 1 ≤ _
    rw [View.inboxWeight_setInbox, hpending, View.total_pending]
    have hload : View.load (update v.inboxWeight u.stream (weight rest))
      (some u.stream) = weight rest := by simp [View.load]
    omega
  | @read kind stream data rest hslot hinbox =>
    have hcut : weight rest + (data.length + 1) = v.inboxWeight stream := by
      rw [View.inboxWeight, hinbox, weight_chunk]
      omega
    have hw : weight rest ≤ v.inboxWeight stream := by omega
    have htotal := View.total_mono (update_le_self_iff.2 hw) (update v.slot kind none) v.pending
      v.net.incoming
    have hbefore := View.total_update v.inboxWeight v.slot kind none v.pending v.net.incoming
    have hafter := View.total_update (update v.inboxWeight stream (weight rest))
      v.slot kind none v.pending v.net.incoming
    show View.total (v.setInbox stream rest).inboxWeight v.slot v.pending v.net.incoming + _ + 1 ≤ _
    rw [View.inboxWeight_setInbox]
    simp only [hslot, View.load, map_some, getD_some, map_none,
      getD_none, update_self] at hbefore hafter
    omega
  | @drop stream rest hslot hinbox =>
    have hcut : weight rest + 1 = v.inboxWeight stream := by
      rw [View.inboxWeight, hinbox]
      simp [weight, Nat.add_comm]
    have hw : weight rest ≤ v.inboxWeight stream := by omega
    have htotal := View.total_mono (update_le_self_iff.2 hw) (update v.slot .discard none) v.pending
      v.net.incoming
    have hbefore := View.total_update v.inboxWeight v.slot .discard none v.pending v.net.incoming
    show View.total (v.setInbox stream rest).inboxWeight (update v.slot .discard none)
      v.pending v.net.incoming + 0 + 1 ≤ _
    rw [View.inboxWeight_setInbox]
    simp only [hslot, View.load, map_some, getD_some, map_none, getD_none] at hbefore
    omega

/-- Nothing that is read changes what has been sent, nor the queue but for what is
taken from its front. -/
theorem Move.net_le {v v' : View} {gain : ℕ} {progressed : Bool} (h : Move v v' gain progressed) :
    v'.net.sent = v.net.sent ∧ ∀ r ∈ v'.net.incoming, r ∈ v.net.incoming := by
  cases h with
  | accept _ hincoming => exact ⟨rfl, fun r hr => by simp [hincoming, hr]⟩
  | grow | place | read | drop => exact ⟨rfl, fun _ => id⟩

/-! ### Handlers and places -/

variable {R : ControlStreams → ControlStreams → Prop}

namespace ControlStreams

variable {c c' : ControlStreams} {data : Octets}

/-- What a handler does not touch. -/
structure Settled (c c' : ControlStreams) : Prop where
  slot_eq : c'.slot = c.slot
  pending_eq : c'.pendingUni = c.pendingUni
  control_eq : c'.inControl = c.inControl
  goaway_eq : c'.goawaySent = c.goawaySent

theorem Settled.refl (c : ControlStreams) : Settled c c := ⟨rfl, rfl, rfl, rfl⟩

theorem feedEncoderStream_settled (h : c.feedEncoderStream data = .ok c') : Settled c c' := by
  rw [feedEncoderStream] at h
  split at h
  · cases h
  · cases h
    exact ⟨rfl, rfl, rfl, rfl⟩

theorem checkDecoderStream_ok (h : c.checkDecoderStream data = .ok c') :
    ∃ rest, c' = { c with feedbackPending := rest } := by
  rw [checkDecoderStream] at h
  split at h
  · cases h
  · split_ifs at h
    cases h
    exact ⟨_, rfl⟩

/-- A chunk of the decoder stream: the encoder gets it if there is one. -/
theorem feedDecoderStream_ok (h : c.feedDecoderStream data = .ok c') : ∃ encoder rest, c' = { c with
        shared := { c.shared with encoder := encoder }
        fed := c.fed ++ (if c.shared.encoder.isSome then data else [])
        feedbackPending := rest } ∧
      encoder.isSome = c.shared.encoder.isSome := by
  rw [feedDecoderStream] at h
  split at h
  · next hnone =>
    obtain ⟨rest, rfl⟩ := checkDecoderStream_ok h
    refine ⟨none, rest, ?_, by rw [hnone]⟩
    rw [hnone, if_neg (by simp), append_nil, ← hnone]
  · next e hsome =>
    split at h
    · cases h
    · next e' _ =>
      obtain ⟨rest, rfl⟩ := checkDecoderStream_ok h
      exact ⟨some e', rest, by simp [hsome], by simp [hsome]⟩

theorem feedDecoderStream_settled (h : c.feedDecoderStream data = .ok c') : Settled c c' := by
  obtain ⟨_, _, rfl, -⟩ := feedDecoderStream_ok h
  exact ⟨rfl, rfl, rfl, rfl⟩

/-- A frame changes what is known of the peer; the encoder only with SETTINGS. -/
theorem handleControlFrame_ok {frame : Frame} (h : c.handleControlFrame frame = .ok c') :
    ∃ peer encoder limit received maxPushId events, c' = { c with
        peer := peer
        shared := { c.shared with encoder := encoder, peerMaxFieldSectionSize := limit }
        settingsReceived := received
        maxPushId := maxPushId
        events := events } ∧
      ((received = c.settingsReceived ∧ encoder = c.shared.encoder) ∨
        (received = true ∧ encoder.isSome)) := by
  unfold handleControlFrame at h
  split at h
  · cases h
  cases frame with
  | settings settings =>
    split_ifs at h
    cases h
    exact ⟨_, _, _, _, _, _, rfl, .inr ⟨rfl, rfl⟩⟩
  | goaway id =>
    cases h
    exact ⟨_, _, _, _, _, _, rfl, .inl ⟨rfl, rfl⟩⟩
  | maxPushId id =>
    dsimp only at h
    split_ifs at h
    cases h
    exact ⟨_, _, _, _, _, _, rfl, .inl ⟨rfl, rfl⟩⟩
  | cancelPush pushId | data payload | headers block | pushPromise pushId fieldSection => cases h

theorem handleControlFrame_settled {frame : Frame} (h : c.handleControlFrame frame = .ok c') :
    Settled c c' := by
  obtain ⟨_, _, _, _, _, _, rfl, -⟩ := handleControlFrame_ok h
  exact ⟨rfl, rfl, rfl, rfl⟩

/-- The octets buffered for the control stream. -/
def controlBuffered (c : ControlStreams) : ℕ :=
  (c.inControl.map fun control => control.decoder.buffered).getD 0

theorem Settled.buffered_eq (h : Settled c c') : c'.controlBuffered = c.controlBuffered := by
  rw [controlBuffered, controlBuffered, h.control_eq]

/-- The places a stream can be put in, and what becomes of the octets that came with
its type. -/
inductive Placed (c : ControlStreams) (stream : ℕ) (leftover : Octets) : ℕ → ControlStreams → Prop
  | control (hfree : c.inControl = none) : Placed c stream leftover streamTypeControl
      { c with inControl := some ⟨stream, FrameDecoder.new.extend leftover⟩ }
  | encoder {c₁ : ControlStreams} (hfree : c.inEncoder = none)
      (hfed : c₁ = c ∨ c.feedEncoderStream leftover = .ok c₁) :
      Placed c stream leftover streamTypeQpackEncoder { c₁ with inEncoder := some stream }
  | decoder {c₁ : ControlStreams} (hfree : c.inDecoder = none)
      (hchecked : c₁ = c ∨ c.checkDecoderStream leftover = .ok c₁) :
      Placed c stream leftover streamTypeQpackDecoder { c₁ with inDecoder := some stream }
  | discard {ty : ℕ} (hkind : kindOf ty = some .discard) :
      Placed c stream leftover ty { c with inDiscard := some stream }

theorem place_ok {stream ty : ℕ} {leftover : Octets} (h : c.place stream ty leftover = .ok c') :
    Placed c stream leftover ty c' := by
  unfold place at h
  split at h
  · rename_i hcontrol
    subst hcontrol
    split_ifs at h with hsome
    cases h
    exact .control (by simpa using hsome)
  rename_i hcontrol
  split at h
  · cases h
  rename_i hpush
  split at h
  · rename_i hencoder
    subst hencoder
    split_ifs at h with hsome
    · cases h
      exact .encoder (by simpa using hsome) (.inl rfl)
    · obtain ⟨c₁, hfeed, rfl⟩ := exists_ok_of_map (congrArg Except.toOption h)
      exact .encoder (by simpa using hsome) (.inr hfeed)
  rename_i hencoder
  split at h
  · rename_i hdecoder
    subst hdecoder
    split_ifs at h with hsome
    · cases h
      exact .decoder (by simpa using hsome) (.inl rfl)
    · obtain ⟨c₁, hcheck, rfl⟩ := exists_ok_of_map (congrArg Except.toOption h)
      exact .decoder (by simpa using hsome) (.inr hcheck)
  · rename_i hdecoder
    cases h
    exact .discard (by rw [kindOf, if_neg hcontrol, if_neg hpush, if_neg hencoder, if_neg hdecoder])

/-- A stream goes to the place of its type, and what came with the type is
buffered at most. -/
theorem Placed.slot_eq {stream ty : ℕ} {leftover : Octets} (h : Placed c stream leftover ty c') :
    ∃ kind, kindOf ty = some kind ∧ (kind = .discard ∨ c.slot kind = none) ∧
      c'.slot = update c.slot kind (some stream) ∧ c'.pendingUni = c.pendingUni ∧
      c'.controlBuffered ≤ c.controlBuffered + leftover.length := by
  cases h with
  | control hfree =>
    refine ⟨.control, rfl, .inr (by simp [slot, hfree]), ?_, rfl, ?_⟩
    · funext kind
      cases kind <;> rfl
    · simp [controlBuffered, buffered, FrameDecoder.extend, FrameDecoder.new]
  | @encoder c₁ hfree hfed =>
    have hs : Settled c c₁ := hfed.elim (fun h => h ▸ .refl c) feedEncoderStream_settled
    refine ⟨.encoder, rfl, .inr hfree, ?_, hs.pending_eq, hs.buffered_eq ▸ Nat.le_add_right _ _⟩
    rw [← hs.slot_eq]
    funext kind
    cases kind <;> rfl
  | @decoder c₁ hfree hchecked =>
    obtain ⟨rest, rfl⟩ : ∃ rest, c₁ = { c with feedbackPending := rest } :=
      hchecked.elim (fun h => ⟨_, h⟩) checkDecoderStream_ok
    refine ⟨.decoder, rfl, .inr hfree, ?_, rfl, Nat.le_add_right _ _⟩
    funext kind
    cases kind <;> rfl
  | discard hkind =>
    exact ⟨.discard, hkind, .inl rfl, by funext kind; cases kind <;> rfl, rfl, Nat.le_add_right _ _⟩

theorem handleFrames_rel (hrefl : ∀ c, R c c) (htrans : ∀ {c₁ c₂ c₃}, R c₁ c₂ → R c₂ c₃ → R c₁ c₃)
    (hpop : ∀ (c : ControlStreams) (control : Option PeerControl),
      R c { c with inControl := control })
    (hframe : ∀ {c frame c'}, handleControlFrame c frame = .ok c' → R c c') (fuel : ℕ) :
    ∀ {c c' : ControlStreams} {progressed : Bool},
      c.handleFrames fuel = .ok (c', progressed) → R c c' := by
  induction fuel with
  | zero =>
    intro c c' progressed h
    cases h
    exact hrefl c
  | succ fuel ih =>
    intro c c' progressed h
    rw [handleFrames] at h
    split at h
    · cases h
      exact hrefl c
    · split at h
      · cases h
      · cases h
        exact hpop c _
      · split at h
        · cases h
        · next c₁ hhandle =>
          cases hrest : handleFrames fuel c₁ with
          | error err => rw [hrest] at h; cases h
          | ok r =>
            rw [hrest] at h
            cases h
            exact htrans (hpop c _) (htrans (hframe hhandle) (ih hrest))

theorem handleFrames_ok (fuel : ℕ) : ∀ {c c' : ControlStreams} {progressed : Bool},
    c.handleFrames fuel = .ok (c', progressed) → c'.slot = c.slot ∧ c'.pendingUni = c.pendingUni ∧
      c'.controlBuffered + progressed.toNat ≤ c.controlBuffered := by
  induction fuel with
  | zero =>
    intro c c' progressed h
    cases h
    exact ⟨rfl, rfl, le_rfl⟩
  | succ fuel ih =>
    intro c c' progressed h
    rw [handleFrames] at h
    split at h
    · cases h
      exact ⟨rfl, rfl, le_rfl⟩
    · next control hcontrol =>
      have hslot : ∀ decoder,
          slot { c with inControl := some { control with decoder := decoder } } =
          c.slot := by
        intro decoder
        funext kind
        cases kind <;> simp [slot, hcontrol]
      have hbuf : c.controlBuffered = control.decoder.buffered := by
        simp [controlBuffered, hcontrol]
      split at h
      · cases h
      · next decoder hnext =>
        cases h
        exact ⟨hslot decoder, rfl, hbuf ▸ nextFrame_buffered hnext⟩
      · next decoder frame hnext =>
        split at h
        · cases h
        · next c₁ hframe =>
          cases hrest : handleFrames fuel c₁ with
          | error err => rw [hrest] at h; cases h
          | ok r =>
            rw [hrest] at h
            cases h
            have hs := handleControlFrame_settled hframe
            obtain ⟨hslot', hpending, hbuffered⟩ := ih hrest
            refine ⟨hslot'.trans (hs.slot_eq.trans (hslot decoder)),
              hpending.trans hs.pending_eq, ?_⟩
            have hpop := nextFrame_buffered hnext
            have hhandled := hs.buffered_eq
            simp only [controlBuffered, map_some, getD_some] at hhandled hbuffered
            simp only [isSome_some] at hpop ⊢
            rw [hbuf]
            simp only [controlBuffered]
            omega

end ControlStreams

/-! ### The stages -/

namespace Plane

variable {p p' : Plane} {progressed : Bool} {onChunk : Octets → Except ControlError ControlStreams}
  {onEnd : Except ControlError ControlStreams}

def buffered (p : Plane) : ℕ := p.streams.controlBuffered

/-- A stage leaves the streams alone, or makes one move. -/
def Effect (p p' : Plane) (progressed : Bool) : Prop :=
  (p'.view = p.view ∧ p'.buffered + progressed.toNat ≤ p.buffered) ∨
    ∃ gain, Move p.view p'.view gain progressed ∧ p'.buffered ≤ p.buffered + gain

theorem waiting_eq (p : Plane) : p.waiting = p.view.weight + p.buffered := rfl

theorem Effect.waiting_le (h : Effect p p' progressed) :
    p'.waiting + progressed.toNat ≤ p.waiting := by
  rw [waiting_eq, waiting_eq]
  rcases h with ⟨hview, hbuf⟩ | ⟨gain, hmove, hbuf⟩
  · rw [hview]
    omega
  · have := hmove.weight_le
    omega

theorem exists_of_onBehalf {stream : ℕ} {r : Except ControlError ControlStreams}
    (h : p.onBehalf stream r = .ok (p', progressed)) :
    ∃ c, r = .ok c ∧ p' = { p with streams := c } ∧ progressed = true := by
  cases r with
  | error err => cases h
  | ok c =>
    cases h
    exact ⟨c, rfl, rfl, rfl⟩

theorem accept_effect (h : p.accept = .ok (p', progressed)) : Effect p p' progressed := by
  rw [accept] at h
  split at h
  · cases h
    exact .inl ⟨rfl, le_rfl⟩
  · cases h
    exact .inl ⟨rfl, le_rfl⟩
  · cases h
  · next stream rest hpending hincoming =>
    cases h
    exact .inr ⟨0, .accept hpending hincoming, le_rfl⟩

theorem classifyUni_effect (h : p.classifyUni = .ok (p', progressed)) : Effect p p' progressed := by
  rw [classifyUni] at h
  split at h
  · cases h
    exact .inl ⟨rfl, le_rfl⟩
  · next u hpending =>
    split at h
    · cases h
    · next buf hread =>
      cases h
      exact .inr ⟨0, .grow hpending hread, le_rfl⟩
    · next ty leftover rest hread =>
      obtain ⟨c, hplace, rfl, rfl⟩ := exists_of_onBehalf h
      obtain ⟨kind, hkind, hfree, hslot, hnone, hbuf⟩ := (place_ok hplace).slot_eq
      refine .inr ⟨leftover.length, ?_, hbuf⟩
      have hview : view { p.setInbox u.stream rest with streams := c } =
          { p.view.setInbox u.stream rest with
            pending := none, slot := update p.view.slot kind (some u.stream) } := by
        simp only [view, hslot, hnone]
        rfl
      rw [hview]
      exact .place hpending hread hkind hfree

/-- What one poll of a stream comes to: nothing, or the handler's answer to the
first item. -/
theorem pollSlot_ok {slot : Option ℕ} (h : p.pollSlot slot onChunk onEnd = .ok (p', progressed)) :
    (p' = p ∧ progressed = false ∧ ∀ stream, slot = some stream → p.net.inbox stream = []) ∨
      ∃ stream item rest c, slot = some stream ∧ p.net.inbox stream = item :: rest ∧
        p' = { p.setInbox stream rest with streams := c } ∧ progressed = true ∧
        ((∃ data, item = .chunk data ∧ onChunk data = .ok c) ∨
          (item = .finished ∧ onEnd = .ok c)) := by
  unfold pollSlot at h
  split at h
  · cases h
    exact .inl ⟨rfl, rfl, by simp⟩
  · next stream =>
    split at h
    · next hinbox =>
      cases h
      refine .inl ⟨rfl, rfl, fun other hother => ?_⟩
      cases hother
      exact hinbox
    · cases h
    · next rest hinbox =>
      obtain ⟨c, hc, rfl, rfl⟩ := exists_of_onBehalf h
      exact .inr ⟨stream, .finished, rest, c, rfl, hinbox, rfl, rfl, .inr ⟨rfl, hc⟩⟩
    · next data rest hinbox =>
      obtain ⟨c, hc, rfl, rfl⟩ := exists_of_onBehalf h
      exact .inr ⟨stream, .chunk data, rest, c, rfl, hinbox, rfl, rfl, .inl ⟨data, rfl, hc⟩⟩

/-- One poll of the stream in a place, for handlers that leave the places alone. -/
theorem pollSlot_effect {kind : Kind}
    (hchunk : ∀ data c, onChunk data = .ok c →
      c.slot = p.streams.slot ∧ c.pendingUni = p.streams.pendingUni ∧
        c.controlBuffered ≤ p.streams.controlBuffered + data.length)
    (hend : ∀ c, onEnd = .ok c → kind = .discard ∧ c.slot = update p.streams.slot .discard none ∧
      c.pendingUni = p.streams.pendingUni ∧ c.controlBuffered ≤ p.streams.controlBuffered)
    (h : p.pollSlot (p.streams.slot kind) onChunk onEnd = .ok (p', progressed)) :
    Effect p p' progressed := by
  rcases pollSlot_ok h with ⟨rfl, rfl, -⟩ | ⟨stream, item, rest, c, hslot, hinbox, rfl, rfl, hitem⟩
  · exact .inl ⟨rfl, le_rfl⟩
  rcases hitem with ⟨data, rfl, hc⟩ | ⟨rfl, hc⟩
  · obtain ⟨hslot', hpending, hbuf⟩ := hchunk data c hc
    refine .inr ⟨data.length, ?_, hbuf⟩
    have hview : view { p.setInbox stream rest with streams := c } =
        p.view.setInbox stream rest := by
      simp only [view, hslot', hpending]
      rfl
    rw [hview]
    exact .read hslot hinbox
  · obtain ⟨rfl, hslot', hpending, hbuf⟩ := hend c hc
    refine .inr ⟨0, ?_, hbuf⟩
    have hview : view { p.setInbox stream rest with streams := c } =
        { p.view.setInbox stream rest with slot := update p.view.slot .discard none } := by
      simp only [view, hslot', hpending]
      rfl
    rw [hview]
    exact .drop hslot hinbox

theorem readControl_effect (h : p.readControl = .ok (p', progressed)) : Effect p p' progressed := by
  refine pollSlot_effect (fun data c hc => ?_) (fun c hc => by cases hc) h
  cases hc
  refine ⟨?_, rfl, ?_⟩
  · funext kind
    cases kind <;> simp [slot, comp_def]
  · cases hcontrol : p.streams.inControl with
    | none => simp [controlBuffered]
    | some control =>
      simp [controlBuffered, hcontrol, FrameDecoder.buffered, FrameDecoder.extend]

theorem readFrames_ok (h : p.readFrames = .ok (p', progressed)) :
    p'.view = p.view ∧ p'.buffered + progressed.toNat ≤ p.buffered := by
  rw [readFrames] at h
  split at h
  · cases h
    exact ⟨rfl, le_rfl⟩
  · split at h
    · cases h
    · next c b hframes =>
      cases h
      obtain ⟨hslot, hpending, hbuf⟩ := handleFrames_ok _ hframes
      refine ⟨?_, hbuf⟩
      simp [view, hslot, hpending]

theorem settled_effect {data : Octets} {c : ControlStreams} (h : p.streams.Settled c) :
    c.slot = p.streams.slot ∧ c.pendingUni = p.streams.pendingUni ∧
      c.controlBuffered ≤ p.streams.controlBuffered + data.length :=
  ⟨h.slot_eq, h.pending_eq, h.buffered_eq ▸ Nat.le_add_right _ _⟩

theorem readEncoder_effect (h : p.readEncoder = .ok (p', progressed)) : Effect p p' progressed :=
  pollSlot_effect
    (fun _ _ hc => settled_effect (feedEncoderStream_settled hc))
    (fun c hc => by cases hc) h

theorem readDecoder_effect (h : p.readDecoder = .ok (p', progressed)) : Effect p p' progressed :=
  pollSlot_effect
    (fun _ _ hc => settled_effect (feedDecoderStream_settled hc))
    (fun c hc => by cases hc) h

theorem readDiscard_effect (h : p.readDiscard = .ok (p', progressed)) : Effect p p' progressed := by
  refine pollSlot_effect (fun data c hc => ?_) (fun c hc => ?_) h
  · cases hc
    exact settled_effect (.refl _)
  · cases hc
    exact ⟨rfl, by funext kind; cases kind <;> rfl, rfl, le_rfl⟩

theorem stages_cases (hf : f ∈ stages) : f = accept ∨ f = classifyUni ∨ f = readControl ∨
    f = readFrames ∨ f = readEncoder ∨ f = readDecoder ∨ f = readDiscard := by
  simpa [stages] using hf

theorem stage_effect (hf : f ∈ stages) (h : f p = .ok (p', progressed)) :
    Effect p p' progressed := by
  rcases stages_cases hf with rfl | rfl | rfl | rfl | rfl | rfl | rfl
  · exact accept_effect h
  · exact classifyUni_effect h
  · exact readControl_effect h
  · exact .inl (readFrames_ok h)
  · exact readEncoder_effect h
  · exact readDecoder_effect h
  · exact readDiscard_effect h

/-- What every handler keeps of the control plane, whatever the streams bring. -/
theorem stage_streams (hrefl : ∀ c, R c c)
    (hpending : ∀ {c c' u}, R { c with pendingUni := u } c' → R c c')
    (hcontrol : ∀ c control, R c { c with inControl := control })
    (hdiscard : ∀ c stream, R c { c with inDiscard := stream })
    (hplace : ∀ {c c' stream ty leftover}, place c stream ty leftover = .ok c' → R c c')
    (hframes : ∀ {c c' fuel b}, handleFrames fuel c = .ok (c', b) → R c c')
    (hencoder : ∀ {c c' data}, feedEncoderStream c data = .ok c' → R c c')
    (hdecoder : ∀ {c c' data}, feedDecoderStream c data = .ok c' → R c c')
    (hf : f ∈ stages) (h : f p = .ok (p', progressed)) : R p.streams p'.streams := by
  have hslot : ∀ {slot : Option ℕ} {onChunk : Octets → Except ControlError ControlStreams}
      {onEnd : Except ControlError ControlStreams},
      (∀ data c, onChunk data = .ok c → R p.streams c) →
      (∀ c, onEnd = .ok c → R p.streams c) → p.pollSlot slot onChunk onEnd = .ok (p', progressed) →
      R p.streams p'.streams := by
    intro slot onChunk onEnd hchunk hend hpoll
    rcases pollSlot_ok hpoll with ⟨rfl, -, -⟩ | ⟨stream, item, rest, c, -, -, rfl, -, hitem⟩
    · exact hrefl _
    · rcases hitem with ⟨data, -, hc⟩ | ⟨-, hc⟩
      · exact hchunk data c hc
      · exact hend c hc
  rcases stages_cases hf with rfl | rfl | rfl | rfl | rfl | rfl | rfl
  · rw [accept] at h
    split at h <;> cases h
    · exact hrefl _
    · exact hrefl _
    · exact hpending (hrefl _)
  · rw [classifyUni] at h
    split at h
    · cases h
      exact hrefl _
    · split at h
      · cases h
      · cases h
        exact hpending (hrefl _)
      · obtain ⟨c, hc, rfl, rfl⟩ := exists_of_onBehalf h
        exact hpending (hplace hc)
  · refine hslot (fun data c hc => ?_) (fun c hc => by cases hc) h
    cases hc
    exact hcontrol _ _
  · rw [readFrames] at h
    split at h
    · cases h
      exact hrefl _
    · split at h
      · cases h
      · next c b hc =>
        cases h
        exact hframes hc
  · exact hslot (fun data c hc => hencoder hc) (fun c hc => by cases hc) h
  · exact hslot (fun data c hc => hdecoder hc) (fun c hc => by cases hc) h
  · refine hslot (fun data c hc => ?_) (fun c hc => ?_) h
    · cases hc
      exact hrefl _
    · cases hc
      exact hdiscard _ _

theorem stage_net (hf : f ∈ stages) (h : f p = .ok (p', progressed)) :
    p'.net.sent = p.net.sent ∧ ∀ r ∈ p'.net.incoming, r ∈ p.net.incoming := by
  rcases stage_effect hf h with ⟨hview, -⟩ | ⟨gain, hmove, -⟩
  · have hnet : p'.net = p.net := congrArg View.net hview
    rw [hnet]
    exact ⟨rfl, fun _ => id⟩
  · exact hmove.net_le

theorem popEvent_eq {event : ControlEvent} (h : p.popEvent = some (event, p')) :
    ∃ events, p' = { p with streams := { p.streams with events := events } } := by
  rw [popEvent] at h
  split at h
  · cases h
  · cases h
    exact ⟨_, rfl⟩

section Poll
variable {R : Plane → Plane → Prop} (hrefl : ∀ p, R p p) (htrans : ∀ {p q r}, R p q → R q r → R p r)

include hrefl htrans

/-- Every round with progress leaves less to do, so `poll_read` always returns, in one
of the ways a loop of rounds can stop. -/
theorem pollRead_last (hstage : ∀ f ∈ stages, ∀ {p p' b}, f p = .ok (p', b) → R p p')
    (p : Plane) : ∃ q, R p q ∧
      ((∃ event q', q.popEvent = some (event, q') ∧ p.pollRead = .ok (q', some event)) ∨
      (∃ failure, runStages stages q = .error failure ∧ p.pollRead = .error failure) ∨
      ∃ q', q.popEvent = none ∧ runStages stages q = .ok (q', false) ∧
        p.pollRead = .ok (q', none)) :=
  pollLoop_last hrefl htrans (runStages_rel hrefl htrans hstage) (μ := waiting)
    (runStages_measure fun _ hf _ _ _ hok => (stage_effect hf hok).waiting_le) _
    (Nat.lt_succ_self _)

/-- `Pending` only comes after a round in which no stage had anything to do. -/
theorem pollRead_idle (hstage : ∀ f ∈ stages, ∀ {p p' b}, f p = .ok (p', b) → R p p')
    (h : p.pollRead = .ok (p', none)) :
    ∃ q, R p q ∧ q.popEvent = none ∧ runStages stages q = .ok (p', false) := by
  obtain ⟨q, hq, ⟨event, q', -, hend⟩ | ⟨e, -, hend⟩ | ⟨q', hpop, hround, hend⟩⟩ :=
    pollRead_last hrefl htrans hstage p <;> cases h.symm.trans hend
  exact ⟨q, hq, hpop, hround⟩

/-- What holds across every stage and every event handed out. -/
theorem pollRead_rel
    (hpop : ∀ {p event p'}, popEvent p = some (event, p') → R p p')
    (hstage : ∀ f ∈ stages, ∀ {p p' b}, f p = .ok (p', b) → R p p')
    {event : Option ControlEvent} (h : p.pollRead = .ok (p', event)) : R p p' := by
  obtain ⟨q, hq, ⟨event, q', hend, hlast⟩ | ⟨e, -, hlast⟩ | ⟨q', -, hend, hlast⟩⟩ :=
    pollRead_last hrefl htrans hstage p <;> cases h.symm.trans hlast
  · exact htrans hq (hpop hend)
  · exact htrans hq (runStages_rel hrefl htrans hstage hend)

theorem pollRead_error
    (hstage : ∀ f ∈ stages, ∀ {p p' b}, f p = .ok (p', b) → R p p') {failure : Failure}
    (h : p.pollRead = .error failure) : ∃ f ∈ stages, ∃ q, R p q ∧ f q = .error failure := by
  obtain ⟨q, hq, ⟨event, q', -, hend⟩ | ⟨e, hround, hend⟩ | ⟨q', -, -, hend⟩⟩ :=
    pollRead_last hrefl htrans hstage p <;> cases h.symm.trans hend
  obtain ⟨f, hf, t, ht, hfail⟩ := runStages_error hrefl htrans hstage hround
  exact ⟨f, hf, t, htrans hq ht, hfail⟩

end Poll

theorem step_poll (h : p.step .poll = .ok p') : ∃ event, p.pollRead = .ok (p', event) := by
  obtain ⟨⟨q, event⟩, hpoll, rfl⟩ := exists_ok_of_map (congrArg Except.toOption h)
  exact ⟨event, hpoll⟩

/-! ### Nothing left to do -/

/-- No stream that is polled has anything to offer, and none waits to be accepted
unless the type of another one is incomplete. -/
structure Quiet (v : View) : Prop where
  slots : ∀ kind stream, v.slot kind = some stream → v.net.inbox stream = []
  pending : ∀ u, v.pending = some u → v.net.inbox u.stream = []
  incoming : v.pending = none → v.net.incoming = []

theorem pollSlot_idle {slot : Option ℕ} (h : p.pollSlot slot onChunk onEnd = .ok (p', false)) :
    p' = p ∧ ∀ stream, slot = some stream → p.net.inbox stream = [] := by
  rcases pollSlot_ok h with ⟨rfl, -, hinbox⟩ | ⟨_, _, _, _, _, _, _, hb, _⟩
  · exact ⟨rfl, hinbox⟩
  · cases hb

theorem accept_idle (h : p.accept = .ok (p', false)) :
    p' = p ∧ (p.streams.pendingUni = none → p.net.incoming = []) := by
  rw [accept] at h
  split at h
  · next u hpending =>
    cases h
    exact ⟨rfl, fun hnone => by rw [hpending] at hnone; cases hnone⟩
  · next hincoming =>
    cases h
    exact ⟨rfl, fun _ => hincoming⟩
  · cases h
  · cases h

/-- Classification without progress leaves the places and the queue of streams. -/
theorem classifyUni_idle (h : p.classifyUni = .ok (p', false)) : p'.net.incoming = p.net.incoming ∧
      (p'.streams.pendingUni = none → p.streams.pendingUni = none) ∧
      ∀ u, p'.streams.pendingUni = some u → p'.net.inbox u.stream = [] := by
  rw [classifyUni] at h
  split at h
  · next hnone =>
    cases h
    exact ⟨rfl, fun _ => hnone, fun u hu => by rw [hnone] at hu; cases hu⟩
  · next u hpending =>
    split at h
    · cases h
    · cases h
      refine ⟨rfl, fun hnone => ?_, fun u' hu' => ?_⟩
      · cases hnone
      · cases hu'
        simp [setInbox]
    · obtain ⟨_, _, _, hb⟩ := exists_of_onBehalf h
      cases hb

theorem quiet_of_idle (h : runStages stages p = .ok (p', false)) : Quiet p'.view := by
  have hstep : ∀ {f : Plane → Except Failure (Plane × Bool)}
      {rest : List (Plane → Except Failure (Plane × Bool))} {q : Plane},
      runStages (f :: rest) q = .ok (p', false) →
      ∃ t, f q = .ok (t, false) ∧ runStages rest t = .ok (p', false) := by
    intro f rest q hrun
    obtain ⟨t, b, b', hf, hrest, hor⟩ := exists_of_runStages_cons hrun
    obtain ⟨rfl, rfl⟩ := Bool.or_eq_false_iff.1 hor.symm
    exact ⟨t, hf, hrest⟩
  obtain ⟨p₁, haccept, h⟩ := hstep h
  obtain ⟨p₂, hclassify, h⟩ := hstep h
  obtain ⟨p₃, hcontrol, h⟩ := hstep h
  obtain ⟨p₄, hframes, h⟩ := hstep h
  obtain ⟨p₅, hencoder, h⟩ := hstep h
  obtain ⟨p₆, hdecoder, h⟩ := hstep h
  obtain ⟨p₇, hdiscard, h⟩ := hstep h
  cases h
  obtain ⟨rfl, hnone⟩ := accept_idle haccept
  obtain ⟨hincoming, hback, hpending⟩ := classifyUni_idle hclassify
  obtain ⟨rfl, hc⟩ := pollSlot_idle hcontrol
  have hview := (readFrames_ok hframes).1
  obtain ⟨rfl, he⟩ := pollSlot_idle hencoder
  obtain ⟨rfl, hd⟩ := pollSlot_idle hdecoder
  obtain ⟨rfl, hx⟩ := pollSlot_idle hdiscard
  have hslot : p'.streams.slot = p₃.streams.slot := congrArg View.slot hview
  have hnet : p'.net = p₃.net := congrArg View.net hview
  have hpend : p'.streams.pendingUni = p₃.streams.pendingUni := congrArg View.pending hview
  refine ⟨fun kind stream hkind => ?_, fun u hu => ?_, fun hu => ?_⟩
  · cases kind with
    | control =>
      show p'.net.inbox stream = []
      rw [hnet]
      exact hc stream (hslot ▸ hkind)
    | encoder => exact he stream hkind
    | decoder => exact hd stream hkind
    | discard => exact hx stream hkind
  · show p'.net.inbox u.stream = []
    rw [hnet]
    exact hpending u (hpend ▸ hu)
  · show p'.net.incoming = []
    rw [hnet, hincoming]
    exact hnone (hback (hpend ▸ hu))

theorem quiet_of_pending (h : p.pollRead = .ok (p', none)) : Quiet p'.view := by
  obtain ⟨q, -, -, hidle⟩ := pollRead_idle (fun _ => trivial)
    (fun _ _ => trivial) (fun _ _ _ _ _ _ => trivial) h
  exact quiet_of_idle hidle

end Plane

end ZincioHttp.H3
