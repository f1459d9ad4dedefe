import ZincioHttp.H3.Requests.Polls
import ZincioHttp.H3.Upgrade

/-! Reading from an upgraded stream beside the send task. A reader alone obtains whatever the
transport has, and leaves its waker there when nothing is left. Beside the task it does the
same, as long as it does not come upon the lock while a send is suspended. -/

namespace ZincioHttp.H3

open ReadHalf

open Lib (Throughout)

/-! ### A reader alone -/

/-- A poll that finds nothing has taken everything the transport has. -/
theorem RequestStream.pollFrame_none (inbox : List Recv) : ∀ {rs rs' : RequestStream}
    {inbox' : List Recv}, pollFrame inbox rs = (rs', inbox', none) → inbox' = [] := by
  induction inbox with
  | nil =>
    intro rs rs' inbox' h
    rw [pollFrame] at h
    split_ifs at h
    · cases h
    · split at h <;> cases h
      rfl
  | cons item inbox ih =>
    intro rs rs' inbox' h
    rw [pollFrame] at h
    split_ifs at h
    · cases h
    · split at h
      · cases h
      · cases h
      · cases item with
        | chunk data => exact ih h
        | failed err => cases h
        | finished =>
          split_ifs at h <;> cases h

namespace Reader

variable {r r' : Reader}

theorem pollFrame_none (h : r.pollFrame = (r', none)) : r'.inbox = [] := by
  rw [pollFrame] at h
  cases hpoll : RequestStream.pollFrame r.inbox r.stream with
  | mk stream x =>
    obtain ⟨inbox, result⟩ := x
    rw [hpoll] at h
    cases h
    exact RequestStream.pollFrame_none _ hpoll

theorem pollAfterTrailers_pending {α : Type} (h : r.pollAfterTrailers (α := α) = (r', .pending)) :
    r'.inbox = [] := by
  rw [pollAfterTrailers] at h
  split at h
  · next hframe =>
    cases h
    exact pollFrame_none hframe
  all_goals cases h

/-- The stream is past its initial HEADERS. -/
structure PastHeaders (r : Reader) : Prop where
  awaiting : r.stream.awaitingHeaders = false
  blocked : r.stream.headersBlocked = false

theorem PastHeaders.of_marks (h : r'.stream.marks.awaiting = false)
    (h' : r'.stream.marks.headersBlocked = false) : PastHeaders r' :=
  ⟨h, h'⟩

theorem PastHeaders.touches (h : PastHeaders r) (ht : Touches r r') : PastHeaders r' := by
  cases ht with
  | quiet _ hmarks => exact .of_marks (hmarks ▸ h.awaiting) (hmarks ▸ h.blocked)
  | finished _ _ hmarks => exact .of_marks (by rw [hmarks]) (by rw [hmarks]; exact h.blocked)
  | decoded _ _ _ hawaiting hmarks =>
    refine .of_marks ?_ (by rw [hmarks]; exact h.blocked)
    rw [hmarks]
    refine Bool.eq_false_iff.2 fun ha => ?_
    cases h.awaiting.symm.trans (hawaiting ha)
  | blocked _ _ _ hmarks =>
    exact .of_marks (by rw [hmarks]; exact h.awaiting) (by rw [hmarks]; exact h.awaiting)
  | took _ _ hmarks => exact .of_marks (by rw [hmarks]) (by rw [hmarks])

/-- A reader waits only when the transport has nothing left for it, or when the body is over and
its trailers are blocked. -/
theorem pollRecvData_pending {now : ℕ} (hpast : PastHeaders r)
    (h : r.pollRecvData now = (r', .pending)) :
    r'.inbox = [] ∨ r'.stream.trailersBlocked = true := by
  unfold pollRecvData at h
  split at h
  · cases h
  split at h
  · cases h
  rw [hpast.awaiting, hpast.blocked, Bool.or_false, Bool.false_or] at h
  by_cases htrailers : r.stream.trailersBlocked = true
  · rw [if_pos htrailers] at h
    cases h
    exact .inr htrailers
  split_ifs at h
  · exact .inl (pollAfterTrailers_pending h)
  split at h
  · next hframe =>
    cases h
    exact .inl (pollFrame_none hframe)
  · cases h
  · cases h
  · cases h
  · split at h <;> cases h
  · cases h

end Reader

namespace ReadHalf

variable {h : ReadHalf} {n now : ℕ}

/-- What a reader without a send task would get: only what is delivered and read counts. -/
def alone : List Upgrade.Action → ReadHalf → List ReadPoll
  | [], _ => []
  | .deliver item :: rest, h => alone rest (h.deliver item)
  | .read n now :: rest, h => (h.pollRead false n now).2 :: alone rest (h.pollRead false n now).1
  | _ :: rest, h => alone rest h

theorem received_reader (n : ℕ) (r : Reader) (result : Polled (Option Octets)) :
    (received n r result).1.reader = r := by
  rcases result with ⟨err | _ | data⟩ | _ | _
  · rfl
  · rfl
  · rw [received]
    split_ifs <;> rfl
  · rfl
  · rfl

theorem received_ne_locked (n : ℕ) (r : Reader) (result : Polled (Option Octets)) :
    (received n r result).2 ≠ .locked := by
  rcases result with ⟨err | _ | data⟩ | _ | _
  · simp [received]
  · simp [received]
  · rw [received]
    split_ifs <;> simp
  · simp [received]
  · simp [received]

theorem received_pending {r : Reader} {result : Polled (Option Octets)} (hpark : result ≠ .park)
    (h : (received n r result).2 = .pending) : result = .pending := by
  rcases result with ⟨err | _ | data⟩ | _ | _
  · cases h
  · cases h
  · rw [received] at h
    split_ifs at h
  · rfl
  · exact absurd rfl hpark

theorem pollRead_ne_locked : (h.pollRead false n now).2 ≠ .locked := by
  rw [pollRead]
  split_ifs with hbuf hlocked
  · cases hlocked
  · exact received_ne_locked n _ _
  · simp

theorem pollRead_pastHeaders (locked : Bool) (hpast : h.reader.PastHeaders) :
    (h.pollRead locked n now).1.reader.PastHeaders := by
  rw [pollRead]
  split_ifs
  · exact hpast
  · simp only [received_reader]
    exact hpast.touches (Reader.pollRecvData_touches rfl)
  · exact hpast

/-- `Pending` with the waker left in the transport means that everything there has been taken. -/
theorem pollRead_pending {locked : Bool} (hpast : h.reader.PastHeaders)
    (hpoll : (h.pollRead locked n now).2 = .pending) :
    (h.pollRead locked n now).1.reader.inbox = [] ∨
      (h.pollRead locked n now).1.reader.stream.trailersBlocked = true := by
  rw [pollRead] at hpoll ⊢
  split_ifs at hpoll ⊢
  simp only [received_reader] at hpoll ⊢
  have hpending := received_pending Reader.pollRecvData_ne_park hpoll
  exact Reader.pollRecvData_pending hpast (Prod.ext rfl hpending)

end ReadHalf

/-! ### Beside the send task -/

namespace Upgrade

variable {τ : Type} {T : SendHalf τ} {u : Upgrade τ}

/-- What the reads of a run come to. -/
def polls (T : SendHalf τ) : List Action → Upgrade τ → List ReadPoll
  | [], _ => []
  | .read n now :: rest, u =>
    (u.readHalf.pollRead u.held n now).2 :: polls T rest (u.step T (.read n now))
  | a :: rest, u => polls T rest (u.step T a)

/-- A read finds octets in its own buffer, or no suspended send that has the lock. -/
def mayRead (u : Upgrade τ) : Action → Bool
  | .read _ _ => !u.readHalf.buf.isEmpty || !u.held
  | _ => true

/-- A read that waits for the transport has taken all that was there, or the body is over. -/
def TakesAll (u : Upgrade τ) (a : Action) : Prop :=
  ∀ n now, a = .read n now → (u.readHalf.pollRead u.held n now).2 = .pending →
    (u.readHalf.pollRead u.held n now).1.reader.inbox = [] ∨
      (u.readHalf.pollRead u.held n now).1.reader.stream.trailersBlocked = true

theorem pollRead_of_mayRead {n now : ℕ} (h : u.mayRead (.read n now) = true) :
    u.readHalf.pollRead u.held n now = u.readHalf.pollRead false n now := by
  rw [mayRead, Bool.or_eq_true] at h
  rcases h with hbuf | hheld
  · rw [pollRead, pollRead, if_neg (by simpa using hbuf), if_neg (by simpa using hbuf)]
  · have hfree : u.held = false := by simpa using hheld
    rw [hfree]

theorem pollRead_of_not_mayRead {n now : ℕ} (h : u.mayRead (.read n now) = false) :
    (u.readHalf.pollRead u.held n now).2 = .locked := by
  rw [mayRead, Bool.or_eq_false_iff] at h
  rw [pollRead, if_pos (by simpa using h.1), if_pos (by simpa using h.2)]

theorem receive_readHalf (u : Upgrade τ) : u.receive.readHalf = u.readHalf := by
  rw [receive]
  split <;> rfl

theorem tick_readHalf (T : SendHalf τ) (u : Upgrade τ) : (u.tick T).readHalf = u.readHalf := by
  rw [tick]
  split_ifs
  · rfl
  · split
    · exact receive_readHalf u
    · split
      · exact receive_readHalf _
      · rfl
      · rfl
      · rfl

theorem write_readHalf (u : Upgrade τ) (data : Octets) : (u.write data).readHalf = u.readHalf := by
  rw [write]
  split_ifs
  · rfl
  · split <;> rfl

theorem alone_step (u : Upgrade τ) {a : Action} (ha : ∀ n now, a ≠ .read n now)
    (rest : List Action) : u.readHalf.alone (a :: rest) = (u.step T a).readHalf.alone rest := by
  cases a with
  | read n now => exact absurd rfl (ha n now)
  | tick =>
    show u.readHalf.alone rest = _
    rw [step, tick_readHalf]
  | write data =>
    show u.readHalf.alone rest = _
    rw [step, write_readHalf]
  | deliver item => rfl
  | shutdown => rfl
  | hangUp => rfl

theorem polls_step (u : Upgrade τ) {a : Action} (ha : ∀ n now, a ≠ .read n now)
    (rest : List Action) : u.polls T (a :: rest) = (u.step T a).polls T rest := by
  cases a with
  | read n now => exact absurd rfl (ha n now)
  | _ => rfl

theorem mayRead_of_ne {a : Action} (ha : ∀ n now, a ≠ .read n now) : u.mayRead a = true := by
  cases a with
  | read n now => exact absurd rfl (ha n now)
  | _ => rfl

/-- Reads come to what they would come to without the send task exactly if none of them meets the
lock of a suspended send. -/
theorem polls_eq_alone_iff (T : SendHalf τ) (actions : List Action) : ∀ u : Upgrade τ,
    u.polls T actions = u.readHalf.alone actions ↔
      Throughout (step T) (fun u a => u.mayRead a = true) actions u := by
  induction actions with
  | nil => exact fun u => iff_of_true rfl trivial
  | cons a rest ih =>
    intro u
    rw [Throughout]
    by_cases hread : ∃ n now, a = .read n now
    · obtain ⟨n, now, rfl⟩ := hread
      rw [polls, alone, List.cons.injEq]
      cases hmay : u.mayRead (.read n now) with
      | true =>
        have hpoll := pollRead_of_mayRead hmay
        have hhalf : (u.step T (.read n now)).readHalf = (u.readHalf.pollRead false n now).1 := by
          rw [step, hpoll]
        rw [hpoll, ← hhalf, ih]
        simp
      | false =>
        rw [pollRead_of_not_mayRead hmay]
        simp [pollRead_ne_locked.symm]
    · have hne : ∀ n now, a ≠ .read n now := fun n now heq => hread ⟨n, now, heq⟩
      rw [polls_step u hne, alone_step u hne, ih, mayRead_of_ne hne]
      simp

theorem pastHeaders_step (h : u.readHalf.reader.PastHeaders) (a : Action) :
    (u.step T a).readHalf.reader.PastHeaders := by
  cases a with
  | read n now => exact pollRead_pastHeaders u.held h
  | deliver item => exact ⟨h.awaiting, h.blocked⟩
  | tick =>
    rw [step, tick_readHalf]
    exact h
  | write data =>
    rw [step, write_readHalf]
    exact h
  | shutdown => exact h
  | hangUp => exact h

/-- For every transport, in every run: the reads come to what they would come to without the
send side if and only if each of them finds octets in its own buffer or no suspended send that
has the lock. A read that waits for the transport has taken everything the peer has sent,
and the transport has its waker. -/
theorem reads_independent_iff (T : SendHalf τ) (u : Upgrade τ) (actions : List Action)
    (hpast : u.readHalf.reader.PastHeaders) :
    (u.polls T actions = u.readHalf.alone actions ↔
        Throughout (step T) (fun u a => u.mayRead a = true) actions u) ∧
      Throughout (step T) (fun u a => u.TakesAll a) actions u := by
  refine ⟨polls_eq_alone_iff T actions u, ?_⟩
  induction actions generalizing u with
  | nil => trivial
  | cons a rest ih =>
    refine ⟨?_, ih _ (pastHeaders_step hpast a)⟩
    rintro n now rfl hpending
    exact ReadHalf.pollRead_pending hpast hpending

/-- A stream whose peer has given no credit: nothing is accepted. -/
def blocked : SendHalf Unit where
  pollSend _ _ := ((), .pending)
  pollFinish _ := ((), .pending)

def upgraded : Upgrade Unit :=
  let shared := SharedCodecs.new {}
  start ⟨0, (), true, false, .none, []⟩
    ⟨{ RequestStream.new 0 shared with awaitingHeaders := false }, [], shared⟩

/-- A DATA frame with one octet arrives and is read. -/
def oneRead : List Action := [.deliver (.chunk [0x00, 0x01, 0x61]), .read 16 0]

/-- A frame is read in two parts, the second from the reader's own buffer while a send is
suspended. -/
theorem reads_independent_buffered :
    (run blocked [.write [0x62], .tick, .tick] upgraded).held = true ∧
      upgraded.polls blocked [.deliver (.chunk [0x00, 0x02, 0x61, 0x63]), .read 1 0, .write [0x62],
        .tick, .tick, .read 1 0] = [.data [0x61], .data [0x63]] :=
  ⟨rfl, (reads_independent_iff blocked upgraded _ ⟨rfl, rfl⟩).1.2 (by decide +kernel)⟩

/-- With a write in flight that the peer's flow control holds up, the reader does not get the octet
that the peer has sent, and nobody will wake it. -/
theorem reads_locked_out :
    upgraded.polls blocked ([.write [0x62], .tick, .tick] ++ oneRead) = [.locked] ∧
      upgraded.readHalf.alone ([.write [0x62], .tick, .tick] ++ oneRead) = [.data [0x61]] := by
  decide +kernel

end Upgrade

end ZincioHttp.H3
