import ZincioHttp.H3.Qpack.Effects

/-! The decoder's queue of blocked sections over any calls, also those of a hostile peer. It
is released from its front only, so that a section that could be decoded may stay behind
one of another stream. -/

namespace ZincioHttp.H3.Qpack

open Lib ZincioHttp.Hpack

namespace Decoder

variable {d d' : Decoder}

/-! ### Calls -/

inductive Call where
  | decodeBlock (buf : Octets) (stream now : ℕ)
  | feedEncoderStream (buf : Octets)
  | streamCancelled (stream : ℕ)
  | streamFinished (stream : ℕ)
  | expireBlocked (now maxAge : ℕ)

def call (d : Decoder) : Call → Except QpackError Decoder
  | .decodeBlock buf stream now => (d.decodeBlock buf stream now).map Prod.fst
  | .feedEncoderStream buf => (d.feedEncoderStream buf).map Prod.fst
  | .streamCancelled stream => .ok (d.streamCancelled stream).1
  | .streamFinished stream => .ok (d.streamFinished stream)
  | .expireBlocked now maxAge => .ok (d.expireBlocked now maxAge).1

/-- A new decoder with its limits; `usize::MAX` sets no limit on sections. -/
def start (maxCapacity maxBlockedStreams limit : ℕ) : Decoder :=
  (new maxCapacity maxBlockedStreams).setMaxFieldSectionSize limit

/-- Sections that need one and two insertions. -/
def sectionOne : Octets := [0x02, 0x00, 0x80]

def sectionTwo : Octets := [0x03, 0x00, 0x80]

/-- A capacity of 4096, and one insertion. -/
def firstInsertion : Octets := [0x3f, 0xe1, 0x1f, 0x41, 0x61, 0x01, 0x62]

/-! ### Unblocking -/

/-- The oldest blocked section of every stream needs an insertion that has not come. -/
def OldestWait (d : Decoder) : Prop :=
  ∀ pre b post, d.blocked = pre ++ b :: post → (∀ w ∈ pre, w.stream ≠ b.stream) →
    d.dynamic.inserted < b.ric

/-- A feed leaves no section behind that could be decoded exactly if, in the queue before
it, a section that its insertions make ready is behind one that they do not only if one of
its own stream is there too. -/
theorem feed_oldestWait_iff {buf : Octets} {sections : List UnblockedSection}
    (h : d.feedEncoderStream buf = .ok (d', sections)) :
    d'.OldestWait ↔ ∀ pre b post, d.blocked = pre ++ b :: post → b.ric ≤ d.insertCountAfter buf →
      (∃ w ∈ pre, d.insertCountAfter buf < w.ric) →
      ∃ w ∈ pre.dropWhile (fun w => decide (w.ric ≤ d.insertCountAfter buf)),
        w.stream = b.stream := by
  obtain ⟨d₁, d₂, pending, out, rest, -, hcount, hsplit, hrel, rfl⟩ := feedEncoderStream_ok h
  rw [← hcount]
  have hemit : d₂.emitIncrement.blocked = rest ∧
      d₂.emitIncrement.dynamic.inserted = d₁.dynamic.inserted := by
    rw [emitIncrement]
    split_ifs <;> exact ⟨hrel.blocked_eq, congrArg DynamicTable.inserted hrel.dynamic_eq⟩
  have hreached : ∀ b ∈ out, b.ric ≤ d₁.dynamic.inserted := hrel.reached
  have hwaits : ∀ b ∈ rest.head?, d₁.dynamic.inserted < b.ric := hrel.waits
  -- what is left of the queue before a section, from the first that waits on
  have hdrop : ∀ {mid b post}, rest = mid ++ b :: post → b.ric ≤ d₁.dynamic.inserted →
      (out ++ mid).dropWhile (fun w => decide (w.ric ≤ d₁.dynamic.inserted)) = mid := by
    intro mid b post hrest hb
    rw [List.dropWhile_append_of_pos (by simpa using hreached)]
    cases mid with
    | nil => rfl
    | cons w mid =>
      have hw := hwaits w (by rw [hrest]; rfl)
      rw [List.dropWhile_cons_of_neg (by simpa using hw)]
  rw [OldestWait, hemit.1, hemit.2, hsplit]
  constructor
  · rintro hold pre b post heq hb ⟨w, hw, hlt⟩
    rcases List.append_eq_append_iff.1 heq with ⟨mid, rfl, hrest⟩ | ⟨c, rfl, -⟩
    · by_contra hnone
      push Not at hnone
      rw [hdrop hrest hb] at hnone
      exact absurd (hold mid b post hrest hnone) (not_lt.2 hb)
    · exact absurd (hreached w (List.mem_append_left c hw)) (not_le.2 hlt)
  · intro hall mid b post hrest hfirst
    by_contra hb
    rw [not_lt] at hb
    have hw : ∃ w ∈ out ++ mid, d₁.dynamic.inserted < w.ric := by
      cases mid with
      | nil => exact absurd (hwaits b (by rw [hrest]; rfl)) (not_lt.2 hb)
      | cons w mid => exact ⟨w, by simp, hwaits w (by rw [hrest]; rfl)⟩
    obtain ⟨w, hmem, hstream⟩ := hall (out ++ mid) b post (by rw [hrest, List.append_assoc]) hb hw
    rw [hdrop hrest hb] at hmem
    exact hfirst w hmem hstream

/-- Stream 4's section is queued first and released. The two of stream 0 stay, the
second because it is behind the first. -/
theorem feed_oldestWait_iff_in_order :
    ∃ d, [Call.decodeBlock sectionOne 4 0, .decodeBlock sectionTwo 0 0,
        .decodeBlock sectionOne 0 0].foldlM call (start 4096 16 100) = .ok d ∧
      ∃ r, d.feedEncoderStream firstInsertion = .ok r ∧
        r.1.blocked = [⟨0, sectionTwo, 2, 0⟩, ⟨0, sectionOne, 1, 0⟩] ∧
        r.2 = [⟨4, [⟨[0x61], [0x62]⟩]⟩] ∧ r.1.OldestWait := by
  refine exists_ok_and (fun d => (d.blocked, d.insertCountAfter firstInsertion,
      ((d.feedEncoderStream firstInsertion).map fun r => (r.1.blocked, r.2)).toOption))
    ([⟨4, sectionOne, 1, 0⟩, ⟨0, sectionTwo, 2, 0⟩, ⟨0, sectionOne, 1, 0⟩], 1,
      some ([⟨0, sectionTwo, 2, 0⟩, ⟨0, sectionOne, 1, 0⟩], [⟨4, [⟨[0x61], [0x62]⟩]⟩]))
    (by decide +kernel) fun d _ hd => ?_
  simp only [Prod.mk.injEq] at hd
  obtain ⟨hqueue, hcount, hfeed⟩ := hd
  refine exists_ok_and _ _ hfeed fun r hr heq => ?_
  simp only [Prod.mk.injEq] at heq
  refine ⟨heq.1, heq.2, (feed_oldestWait_iff hr).2 fun pre b post hsplit hready hwaits => ?_⟩
  rw [hqueue] at hsplit
  rw [hcount] at hready hwaits ⊢
  rcases pre with _ | ⟨x, _ | ⟨y, _ | ⟨z, pre⟩⟩⟩ <;> simp at hsplit
  · simp at hwaits
  · simp [← hsplit.2.1] at hready
  · obtain ⟨rfl, rfl, rfl, -⟩ := hsplit
    exact ⟨⟨0, sectionTwo, 2, 0⟩, by simp, rfl⟩

/-- Stream 4 waits for nothing but the section of stream 0. -/
theorem feed_holds_ready_section :
    ∃ d, [Call.decodeBlock sectionTwo 0 0, .decodeBlock sectionOne 4 0,
        .feedEncoderStream firstInsertion].foldlM call (start 4096 16 100) = .ok d ∧
          ¬d.OldestWait := by
  refine exists_ok_and (fun d => (d.blocked, d.dynamic.inserted))
    ([⟨0, sectionTwo, 2, 0⟩, ⟨4, sectionOne, 1, 0⟩], 1) (by decide +kernel) fun d _ hd hold => ?_
  simp only [Prod.mk.injEq] at hd
  have := hold [⟨0, sectionTwo, 2, 0⟩] ⟨4, sectionOne, 1, 0⟩ [] hd.1 (by simp)
  rw [hd.2] at this
  exact absurd this (by decide)

end Decoder

end ZincioHttp.H3.Qpack
