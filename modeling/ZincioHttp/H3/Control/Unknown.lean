import ZincioHttp.H3.Control.Order

/-! Streams that mean nothing to the control plane: those that end before their
type is complete, and those of unknown type. Such a stream must not bring down the
connection. It does if it ends or is reset before its type is complete, if it is
reset later, or if it writes its type with more octets than it takes; otherwise
the control plane goes on with the others. -/

namespace ZincioHttp.H3

open Qpack Lib

/-- The value of the integer at the start, however many octets it is written
with. -/
def varintValue (buf : Octets) : Option ℕ :=
  match buf with
  | [] => none
  | first :: _ =>
    let len := 1 <<< (first >>> 6).toNat
    if buf.length < len then none
    else some (((buf.take len).drop 1).foldl (fun v b => v <<< 8 ||| b.toNat)
      (first &&& 0x3f).toNat)

/-- The stream has one of the four types that a server knows. -/
def Known (octs : Octets) : Prop := (varintValue octs).any (· ≤ streamTypeQpackDecoder)

instance (octs : Octets) : Decidable (Known octs) := inferInstanceAs (Decidable (_ = true))

theorem varintValue_eq_none {buf : Octets} :
    varintValue buf = none ↔ parseVarint buf = .ok none := by
  cases buf with
  | nil => simp [varintValue, parseVarint]
  | cons first rest =>
    by_cases hlen : (first :: rest).length < 1 <<< (first >>> 6).toNat
    · simp only [varintValue, parseVarint, if_pos hlen]
    · simp only [varintValue, parseVarint]
      split_ifs <;> simp

variable {ty : ℕ}

theorem varintValue_of_parseVarint {buf : Octets} {used : ℕ}
    (h : parseVarint buf = .ok (some (ty, used))) : varintValue buf = some ty := by
  cases buf with
  | nil => cases h
  | cons first rest =>
    by_cases hlen : (first :: rest).length < 1 <<< (first >>> 6).toNat
    · rw [parseVarint, if_pos hlen] at h
      cases h
    rw [parseVarint] at h
    dsimp only at h
    split_ifs at h
    cases h
    rw [varintValue, if_neg hlen]

theorem varintValue_append {buf : Octets} (h : varintValue buf = some ty) (more : Octets) :
    varintValue (buf ++ more) = some ty := by
  cases buf with
  | nil => cases h
  | cons first rest =>
    by_cases hlen : (first :: rest).length < 1 <<< (first >>> 6).toNat
    · rw [varintValue, if_pos hlen] at h
      cases h
    rw [varintValue, if_neg hlen] at h
    have htake : (first :: rest ++ more).take _ = _ :=
      List.take_append_of_le_length (Nat.le_of_not_lt hlen)
    rw [List.cons_append] at htake ⊢
    rw [varintValue, if_neg, htake]
    · exact h
    · rw [← List.cons_append, List.length_append]
      omega

theorem Known.append {octs : Octets} (h : Known octs) (more : Octets) : Known (octs ++ more) := by
  obtain ⟨ty, hty, hle⟩ := Option.any_eq_true _ _ |>.1 h
  rw [Known, varintValue_append hty]
  exact hle

theorem kindOf_eq_discard : kindOf ty = some .discard ↔ streamTypeQpackDecoder < ty := by
  constructor
  · intro h
    by_contra hle
    have hcases : ty = 0 ∨ ty = 1 ∨ ty = 2 ∨ ty = 3 := by
      rw [streamTypeQpackDecoder] at hle
      omega
    rcases hcases with rfl | rfl | rfl | rfl <;> cases h
  · intro h
    have hne : ∀ {k : ℕ}, k ≤ streamTypeQpackDecoder → ty ≠ k := fun hk => by omega
    rw [kindOf, if_neg (hne (by decide)), if_neg (hne (by decide)), if_neg (hne (by decide)),
      if_neg (hne (by decide))]

theorem known_iff {octs : Octets} {used : ℕ} (h : parseVarint octs = .ok (some (ty, used))) :
    Known octs ↔ ty ≤ streamTypeQpackDecoder := by
  rw [Known, varintValue_of_parseVarint h]
  simp

/-- What a peer that means no harm sends: a stream ends only after its type, is
reset only if its type is known, and unknown types are written as short as can
be. -/
def Polite (seen : Octets) : Recv → Prop
  | .chunk data => (parseVarint (seen ++ data)).toOption = none → Known (seen ++ data)
  | .finished => (varintValue seen).isSome
  | .failed _ => Known seen

instance (seen : Octets) : ∀ item, Decidable (Polite seen item)
  | .chunk _ => inferInstanceAs (Decidable (_ → _))
  | .finished => inferInstanceAs (Decidable (_ = true))
  | .failed _ => inferInstanceAs (Decidable (Known seen))

namespace Plane

variable {p p' : Plane} {failure : Failure} {onChunk : Octets → Except ControlError ControlStreams}
  {onEnd : Except ControlError ControlStreams}

/-- A failure is the connection's own, or that of a stream of known type. -/
def Blames (p : Plane) (failure : Failure) : Prop :=
  match failure.stream with
  | some stream => Known (content (p.net.sent stream))
  | none => ∃ err, .error err ∈ p.net.incoming ∧ failure.err = .transport err

theorem onBehalf_error {stream : ℕ} {r : Except ControlError ControlStreams}
    (h : p.onBehalf stream r = .error failure) :
    failure.stream = some stream ∧ ∃ err, r = .error err := by
  cases r with
  | error err =>
    cases h
    exact ⟨rfl, err, rfl⟩
  | ok c => cases h

/-- The stream in a place of a known kind has a known type. -/
theorem known_of_slot (h : p.view.Ordered Polite) {kind : Kind} {stream : ℕ}
    (hslot : p.streams.slot kind = some stream) (hne : kind ≠ .discard) :
    Known (content (p.net.sent stream)) := by
  obtain ⟨seen, hreads, ty, used, hparse, hkind⟩ :=
    h.reads (show p.view.At stream (.slot kind) from hslot)
  have hle : ty ≤ streamTypeQpackDecoder := by
    by_contra hlt
    rw [kindOf_eq_discard.2 (Nat.lt_of_not_le hlt)] at hkind
    exact hne (Option.some.inj hkind).symm
  have hknown := ((known_iff hparse).2 hle).append (content (p.net.inbox stream))
  have hcontent : seen ++ content (p.net.inbox stream) = content (p.net.sent stream) :=
    hreads.content_eq
  rwa [hcontent] at hknown

theorem pollSlot_error {slot : Option ℕ} (h : p.pollSlot slot onChunk onEnd = .error failure) :
    ∃ stream item rest, slot = some stream ∧ p.net.inbox stream = item :: rest ∧
      failure.stream = some stream ∧
      match item with
      | .chunk data => ∃ err, onChunk data = .error err
      | .finished => ∃ err, onEnd = .error err
      | .failed _ => True := by
  unfold pollSlot at h
  split at h
  · cases h
  · next stream =>
    split at h
    · cases h
    · next err rest hinbox =>
      cases h
      exact ⟨stream, .failed err, rest, rfl, hinbox, rfl, trivial⟩
    · next rest hinbox =>
      obtain ⟨hstream, herr⟩ := onBehalf_error h
      exact ⟨stream, .finished, rest, rfl, hinbox, hstream, herr⟩
    · next data rest hinbox =>
      obtain ⟨hstream, herr⟩ := onBehalf_error h
      exact ⟨stream, .chunk data, rest, rfl, hinbox, hstream, herr⟩

theorem blames_slot (h : p.view.Ordered Polite) {kind : Kind} (hne : kind ≠ .discard)
    (hfail : p.pollSlot (p.streams.slot kind) onChunk onEnd = .error failure) :
    p.Blames failure := by
  obtain ⟨stream, item, rest, hslot, -, hstream, -⟩ := pollSlot_error hfail
  rw [Blames, hstream]
  exact known_of_slot h hslot hne

/-- The place of streams of unknown type: only a reset fails, and it has not come
from a polite peer. -/
theorem readDiscard_ok (h : p.view.Ordered Polite) : p.readDiscard ≠ .error failure := by
  intro hfail
  obtain ⟨stream, item, rest, hslot, hinbox, -, herr⟩ := pollSlot_error hfail
  cases item with
  | chunk data => obtain ⟨err, herr⟩ := herr; cases herr
  | finished => obtain ⟨err, herr⟩ := herr; cases herr
  | failed err =>
    obtain ⟨seen, hreads, ty, used, hparse, hkind⟩ :=
      h.reads (show p.view.At stream (.slot .discard) from hslot)
    have heach := hreads.each
    rw [show p.view.net.inbox stream = _ from hinbox] at heach
    exact absurd ((known_iff hparse).1 heach.1) (Nat.not_le_of_lt (kindOf_eq_discard.1 hkind))

/-- A stream that cannot be placed has one of the known types. -/
theorem place_error {c : ControlStreams} {stream : ℕ} {leftover : Octets} {err : ControlError}
    (h : c.place stream ty leftover = .error err) : ty ≤ streamTypeQpackDecoder := by
  unfold ControlStreams.place at h
  split_ifs at h
  all_goals simp only [streamTypeControl, streamTypePush, streamTypeQpackEncoder,
      streamTypeQpackDecoder] at *
  all_goals omega

theorem classifyUni_blames (h : p.view.Ordered Polite) (hfail : p.classifyUni = .error failure) :
    p.Blames failure := by
  rw [classifyUni] at hfail
  split at hfail
  · cases hfail
  · next u hpending =>
    obtain ⟨seen, hreads, hseen, hnone⟩ :=
      h.reads (show p.view.At u.stream .pending by simp [View.At, view, hpending])
    obtain rfl : u.buf = seen := by simpa [view, hpending] using hseen
    have hcontent : u.buf ++ content (p.net.inbox u.stream) = content (p.net.sent u.stream) :=
      hreads.content_eq
    split at hfail
    · next err hread =>
      cases hfail
      obtain ⟨before, item, later, hbefore, hitem, hsplit, herr⟩ := readType_error _ hread hnone
      have hpolite := hitem hreads.each
      have hincomplete := varintValue_eq_none.2 hbefore
      show Known (content (p.net.sent u.stream))
      cases item with
      | finished => simp [Polite, hincomplete] at hpolite
      | failed e => simp [Polite, Known, hincomplete] at hpolite
      | chunk data =>
        obtain ⟨e, hparse⟩ := herr data rfl
        rw [← hcontent, ← hsplit]
        exact (hpolite (by rw [hparse]; rfl)).append _
    · cases hfail
    · next ty leftover rest hread =>
      obtain ⟨before, data, used, -, hparse, -, hsplit, -⟩ :=
        readType_complete (C := Polite) _ hread hnone
      obtain ⟨hstream, err, hplace⟩ := onBehalf_error hfail
      rw [Blames, hstream]
      show Known (content (p.net.sent u.stream))
      rw [← hcontent, ← hsplit]
      exact ((known_iff hparse).2 (place_error hplace)).append _

theorem readFrames_blames (h : p.view.Ordered Polite) (hfail : p.readFrames = .error failure) :
    p.Blames failure := by
  rw [readFrames] at hfail
  split at hfail
  · cases hfail
  · next control hcontrol =>
    split at hfail
    · cases hfail
      exact known_of_slot h (by simp [ControlStreams.slot, hcontrol])
        (show Kind.control ≠ _ by simp)
    · cases hfail

theorem accept_blames (hfail : p.accept = .error failure) : p.Blames failure := by
  rw [accept] at hfail
  split at hfail
  · cases hfail
  · cases hfail
  · next err rest hnone hincoming =>
    cases hfail
    exact ⟨err, by simp [hincoming], rfl⟩
  · cases hfail

theorem stage_blames (hf : f ∈ stages) (h : p.view.Ordered Polite) (hfail : f p = .error failure) :
    p.Blames failure := by
  rcases stages_cases hf with rfl | rfl | rfl | rfl | rfl | rfl | rfl
  · exact accept_blames hfail
  · exact classifyUni_blames h hfail
  · exact blames_slot h (show Kind.control ≠ .discard by simp) hfail
  · exact readFrames_blames h hfail
  · exact blames_slot h (show Kind.encoder ≠ .discard by simp) hfail
  · exact blames_slot h (show Kind.decoder ≠ .discard by simp) hfail
  · exact absurd hfail (readDiscard_ok h)

/-- As long as no stream ends before its type, no stream of unknown type is reset,
and unknown types are written shortly, `poll_read` fails only on behalf of the
connection or of a stream of known type; and when it returns `Pending`, everything
that came has been read, and every stream that waited has been accepted unless the
type of another one is incomplete. -/
theorem pollRead_spares_unknown {settings : LocalSettings} {actions : List Action}
    (hc : Along step (Sends Polite) (start settings) actions)
    (hrun : run actions (start settings) = .ok p) :
    (∀ failure, p.pollRead = .error failure → p.Blames failure) ∧
      ∀ p', p.pollRead = .ok (p', none) → Quiet p'.view := by
  have hordered : p.view.Ordered Polite := Along.invariant (I := fun p => p.view.Ordered Polite)
    (fun p a p' h hca hstep => step_ordered h hca hstep) actions hc (ordered_start settings) hrun
  constructor
  · intro failure hfail
    obtain ⟨f, hf, q, ⟨hq, hsent, hincoming⟩, hstage⟩ := pollRead_error
      (R := fun p q => (p.view.Ordered Polite → q.view.Ordered Polite) ∧
        q.net.sent = p.net.sent ∧ ∀ r ∈ q.net.incoming, r ∈ p.net.incoming)
      (fun _ => ⟨id, rfl, fun _ => id⟩)
      (fun hpq hqr => ⟨hqr.1 ∘ hpq.1, hqr.2.1.trans hpq.2.1, fun r hr => hpq.2.2 r (hqr.2.2 r hr)⟩)
      (fun _ hf _ _ _ hok => ⟨stage_ordered hf hok, stage_net hf hok⟩) hfail
    have hblames := stage_blames hf (hq hordered) hstage
    unfold Blames at hblames ⊢
    split
    · next stream hstream =>
      rw [hstream] at hblames
      rwa [← hsent]
    · next hnone =>
      rw [hnone] at hblames
      obtain ⟨err, hmem, herr⟩ := hblames
      exact ⟨err, hincoming _ hmem, herr⟩
  · exact fun p' hpoll => quiet_of_pending hpoll

instance (p : Plane) : ∀ a, Decidable (Sends Polite p a)
  | .deliver stream item => inferInstanceAs (Decidable (Polite (content (p.net.sent stream)) item))
  | .openUni | .acceptFails _ | .poll | .flush | .decode _ _ _ | .encode _ _ | .finish _ =>
    isTrue trivial

def failureOf : Except Failure Plane → Option Failure
  | .error failure => some failure
  | .ok _ => none

/-- A stream that sends a reserved type and some data and then ends, and the control
stream after it: both are served. -/
theorem pollRead_spares_reserved :
    ∃ p, run [.openUni, .deliver 0 (.chunk [0x21, 0xff]), .deliver 0 .finished, .openUni,
        .deliver 1 (.chunk [0x00, 0x04, 0x00]), .poll] (start {}) = .ok p ∧
      p.streams.settingsReceived = true ∧
      (∀ failure, p.pollRead = .error failure → p.Blames failure) ∧
      ∀ p', p.pollRead = .ok (p', none) → Quiet p'.view := by
  refine exists_ok_and (fun p => p.streams.settingsReceived) true (by decide +kernel) ?_
  exact fun p hrun hsettings => ⟨hsettings, pollRead_spares_unknown (by decide +kernel) hrun⟩

/-- A stream that ends without a type, one that is reset before its type, and a reserved
type that is reset. -/
theorem pollRead_fails_unknown :
    failureOf (run [.openUni, .deliver 0 .finished, .poll] (start {})) =
        some ⟨some 0, .streamCreation⟩ ∧
      failureOf (run [.openUni, .deliver 0 (.failed (.reset 0)), .poll] (start {})) =
        some ⟨some 0, .transport (.reset 0)⟩ ∧
      failureOf (run [.openUni, .deliver 0 (.chunk [0x21, 0xff]), .poll,
          .deliver 0 (.failed (.reset 0)), .poll] (start {})) =
        some ⟨some 0, .transport (.reset 0)⟩ := by
  decide +kernel

end Plane

end ZincioHttp.H3
