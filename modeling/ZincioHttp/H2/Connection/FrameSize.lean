import ZincioHttp.H2.Connection.Run
import ZincioHttp.H2.RoundTrip

/-! The connection together with its frame decoder: the octets of the peer are buffered,
cut into frames and handled. The server announces a largest frame size of its own; the
decoder enforces it until the peer announces one. -/

namespace ZincioHttp.H2

open FrameDecoder FrameWriter List

structure Server where
  conn : Connection
  /-- The octets the decoder has not consumed. -/
  buf : Octets
  /-- The limit the decoder enforces. -/
  maxFrameSize : ℕ
  /-- The frames handed to the connection, each with its declared length. -/
  handed : List (ℕ × Frame)

namespace Server

inductive Action where
  /-- Octets arrive while the connection waits for them. -/
  | read (bytes : Octets)
  /-- One round of `process_frames`; `hint` is the order in which the map of streams is walked. -/
  | next (hint : List ℕ)
  /-- Anything else that happens to the connection. -/
  | other (ev : Event)
  deriving DecidableEq

/-- `handle` after the preface. -/
def start (opts : ConnectionOptions) : Server := ⟨.start opts, [], opts.maxFrameSize.toNat, []⟩

/-- The open field block is kept with the connection, which may close it. -/
def decoder (s : Server) : FrameDecoder := ⟨s.buf, s.maxFrameSize, s.conn.blockStream⟩

/-- The decoder needs more octets. -/
def waits (s : Server) : Bool :=
  match s.decoder.nextFrame with
  | .ok (_, none) => true
  | _ => false

/-- The decoder's answer is passed to the connection. -/
def next (http : HttpCrate) (s : Server) (hint : List ℕ) : Server :=
  match s.decoder.nextFrame with
  | .error error => { s with conn := s.conn.step http (.frameError error) }
  | .ok (_, none) => s
  | .ok (d, some f) =>
    { conn := s.conn.step http (.frame hint f), buf := d.buf, maxFrameSize := d.maxFrameSize
      handed := s.handed ++ [(readU24 s.buf, f)] }

def step (http : HttpCrate) (s : Server) : Action → Server
  | .read bytes =>
    if s.conn.reading && s.waits then { s with buf := s.buf ++ bytes } else s
  | .next hint => if s.conn.reading then s.next http hint else s
  | .other (.frame ..) | .other (.frameError _) => s
  | .other ev => { s with conn := s.conn.step http ev }

def run (http : HttpCrate) (actions : List Action) (s : Server) : Server :=
  actions.foldl (step http) s

/-- Every step of a run meets a condition on the action and the state it meets. -/
def Along (http : HttpCrate) (P : Server → Action → Prop) : List Action → Server → Prop
  | [], _ => True
  | a :: actions, s => P s a ∧ Along http P actions (step http s a)

instance {http : HttpCrate} {P : Server → Action → Prop} [∀ s a, Decidable (P s a)] :
    ∀ actions s, Decidable (Along http P actions s)
  | [], _ => .isTrue trivial
  | a :: actions, s =>
    have : Decidable (Along http P actions (step http s a)) := instDecidableAlong actions _
    inferInstanceAs (Decidable (P s a ∧ Along http P actions (step http s a)))

/-- A SETTINGS frame announces no frame size above the limit. -/
def Modest (limit : ℕ) : Frame → Prop
  | .settings false settings => ∀ s ∈ settings, s.id = 0x05 → s.value ≤ limit
  | _ => True

instance (limit : ℕ) (f : Frame) : Decidable (Modest limit f) := by
  unfold Modest
  split <;> infer_instance

/-- The frame that is next in the buffer is modest. -/
def NextModest (limit : ℕ) (s : Server) : Action → Prop
  | .next _ =>
    match s.decoder.nextFrame with
    | .ok (_, some f) => Modest limit f
    | _ => True
  | _ => True

instance (limit : ℕ) (s : Server) (a : Action) : Decidable (NextModest limit s a) := by
  unfold NextModest
  split
  · split <;> infer_instance
  · infer_instance

/-- The limit is enforced: no frame beyond it has been handed on, the next one is refused
as soon as its header is there, and the decoder never waits for more than it allows. -/
structure Enforces (http : HttpCrate) (limit : ℕ) (s : Server) : Prop where
  handed : ∀ p ∈ s.handed, p.1 ≤ limit
  refused : s.conn.reading = true → frameHeaderLen ≤ s.buf.length → limit < readU24 s.buf →
    ∀ hint, s.step http (.next hint) =
      { s with conn := s.conn.goaway .frameSizeError "frame error" }
  waiting : s.waits = true → s.buf.length < frameHeaderLen + limit

theorem adopt_le {limit size : ℕ} {f : Frame} (hf : Modest limit f) (h : size ≤ limit) :
    adopt size f ≤ limit := by
  cases f with
  | settings ack settings =>
    cases ack with
    | true => exact h
    | false =>
      induction settings generalizing size with
      | nil => exact h
      | cons s settings ih =>
        refine ih ?_ fun s' hs' => hf s' (by simp [hs'])
        show (if s.id = 0x05 then s.value else size) ≤ limit
        split_ifs with hid
        · exact hf s (by simp) hid
        · exact h
  | _ => exact h

theorem Enforces.of_maxFrameSize_le {http : HttpCrate} {limit : ℕ} {s : Server}
    (hmax : s.maxFrameSize ≤ limit) (hhanded : ∀ p ∈ s.handed, p.1 ≤ limit) :
    Enforces http limit s where
  handed := hhanded
  refused hreading hheader hlarge hint := by
    have hnext : s.decoder.nextFrame =
        .error (.frameSize "frame payload exceeds SETTINGS_MAX_FRAME_SIZE") :=
      nextFrame_large hheader (hmax.trans_lt hlarge)
    have hstep : s.conn.step http (.frameError (.frameSize
        "frame payload exceeds SETTINGS_MAX_FRAME_SIZE")) =
          s.conn.goaway .frameSizeError "frame error" := if_pos hreading
    rw [step, if_pos hreading, next, hnext]
    exact congrArg (Server.mk · _ _ _) hstep
  waiting hwaits := by
    rw [waits] at hwaits
    split at hwaits
    · rename_i d hnext
      exact (nextFrame_none hnext).trans_le (Nat.add_le_add_left hmax _)
    · cases hwaits

/-- What every step keeps while the peer announces nothing larger. -/
theorem step_keeps {http : HttpCrate} {limit : ℕ} {s : Server} {a : Action}
    (ha : NextModest limit s a) (hmax : s.maxFrameSize ≤ limit)
    (hhanded : ∀ p ∈ s.handed, p.1 ≤ limit) :
    (s.step http a).maxFrameSize ≤ limit ∧ ∀ p ∈ (s.step http a).handed, p.1 ≤ limit := by
  cases a with
  | read bytes =>
    rw [step]
    split_ifs <;> exact ⟨hmax, hhanded⟩
  | next hint =>
    rw [step]
    split
    · rw [next]
      rw [NextModest] at ha
      cases hnext : s.decoder.nextFrame with
      | error error => exact ⟨hmax, hhanded⟩
      | ok r =>
        obtain ⟨d, _ | f⟩ := r
        · exact ⟨hmax, hhanded⟩
        obtain ⟨hle, hd⟩ := nextFrame_some hnext
        rw [hnext] at ha
        refine ⟨hd.trans_le (adopt_le ha hmax), fun p hp => ?_⟩
        rcases mem_append.1 hp with hp | hp
        · exact hhanded p hp
        · rw [mem_singleton.1 hp]
          exact hle.trans hmax
    · exact ⟨hmax, hhanded⟩
  | other ev => cases ev <;> exact ⟨hmax, hhanded⟩

/-- As long as the peer announces no larger frame size of its own, the limit the server has
announced is enforced in every state that is reached. -/
theorem run_enforces (http : HttpCrate) (opts : ConnectionOptions) {actions : List Action}
    (hmodest : Along http (NextModest opts.maxFrameSize.toNat) actions (start opts)) :
    Enforces http opts.maxFrameSize.toNat (run http actions (start opts)) := by
  have hrun : ∀ (actions : List Action) (s : Server),
      Along http (NextModest opts.maxFrameSize.toNat) actions s →
      s.maxFrameSize ≤ opts.maxFrameSize.toNat → (∀ p ∈ s.handed, p.1 ≤ opts.maxFrameSize.toNat) →
      Enforces http opts.maxFrameSize.toNat (run http actions s) := by
    intro actions
    induction actions with
    | nil => exact fun s _ hmax hhanded => .of_maxFrameSize_le hmax hhanded
    | cons a actions ih =>
      intro s hall hmax hhanded
      obtain ⟨hmax', hhanded'⟩ := step_keeps hall.1 hmax hhanded
      exact ih _ hall.2 hmax' hhanded'
  exact hrun actions _ hmodest le_rfl fun p hp => absurd hp not_mem_nil

/-- A peer that announces the default size, and then a header that declares one octet more. -/
theorem run_enforces_default : Enforces .permissive 16384 (run .permissive
      [.read (Frame.encode (.settings false [⟨0x05, 16384⟩])), .next [],
        .read (FrameWriter.header 16385 0x00 0x00 1)] (start .default)) :=
  run_enforces .permissive .default (by decide +kernel)

/-- A frame of an unknown type is handed on if it is within the limit the decoder has come
to. -/
theorem hands_unknown (http : HttpCrate) {s : Server} {payload : Octets}
    (hreading : s.conn.reading = true) (hwaits : s.waits = true) (hbuf : s.buf = [])
    (hblock : s.conn.blockStream = none) (hlen : payload.length < 2 ^ 24)
    (hmax : payload.length ≤ s.maxFrameSize) :
    (payload.length, .unknown 0xff 0 0 payload) ∈ (run http
      [.read (header payload.length 0xff 0 0 ++ payload), .next []] s).handed := by
  let s' : Server := { s with buf := header payload.length 0xff 0 0 ++ payload }
  have hread : s.step http (.read (header payload.length 0xff 0 0 ++ payload)) = s' := by
    rw [step, hreading, hwaits, hbuf]
    rfl
  have hparse : (RawFrame.mk 0xff 0 0 payload hlen).parseFrame s'.decoder.blockStream =
      .ok (.unknown 0xff 0 0 payload) := by
    show RawFrame.parseFrame _ s.conn.blockStream = _
    rw [hblock]
    rfl
  have hwhole : s'.decoder.buf = header payload.length 0xff 0 0 ++ (payload ++ []) := by
    rw [append_nil]
    rfl
  have hnext := nextFrame_complete hwhole hlen hmax (by omega) hparse
  rw [run, foldl_cons, hread, foldl_cons, step, if_pos (show s'.conn.reading = true from hreading),
    next, hnext]
  exact mem_append_right _ (mem_singleton.2 (by rw [readU24_header hlen]))

def largePayload : Octets := replicate 16385 0

theorem length_largePayload : largePayload.length = 16385 := length_replicate

/-- The peer announces 32768: a frame of 16385 octets is handed on, although the server has
announced 16384. -/
theorem run_hands_large : (16385, .unknown 0xff 0 0 largePayload) ∈ (run .permissive
      [.read (Frame.encode (.settings false [⟨0x05, 32768⟩])), .next [],
        .read (FrameWriter.header 16385 0xff 0 0 ++ largePayload), .next []]
      (start .default)).handed := by
  have hs : ∀ s, s = run .permissive [.read (Frame.encode (.settings false [⟨0x05, 32768⟩])),
      .next []] (start .default) → s.conn.reading = true ∧ s.waits = true ∧ s.buf = [] ∧
        s.maxFrameSize = 32768 ∧ s.conn.blockStream = none := by
    rintro s rfl
    decide +kernel
  obtain ⟨hreading, hwaits, hbuf, hmax, hblock⟩ := hs _ rfl
  have h := hands_unknown .permissive hreading hwaits hbuf hblock
    (by rw [length_largePayload]; omega) (by rw [hmax, length_largePayload]; omega)
  rw [length_largePayload] at h
  simpa only [run, foldl_cons, foldl_nil] using h

end Server

end ZincioHttp.H2
