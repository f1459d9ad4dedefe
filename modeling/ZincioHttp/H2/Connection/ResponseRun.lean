import ZincioHttp.H2.Connection.Delivery

/-! Responses in whole runs of a connection. A response is written as its task
produced it unless trailers are drained together with more data than the windows
admit; and it is written at all as long as somebody reads whatever the peer still
sends of the request. -/

namespace ZincioHttp.H2

namespace Connection

/-! ### Conditions on the steps of a run -/

/-- Draining the stream finds nothing queued: what is drained meets a condition. -/
def drainMeets (id : ℕ) (p : Connection → StreamEntry → Bool) (c : Connection) (ev : Event) :
    Bool :=
  decide (ev ≠ .drainStream id) || !c.idle ||
    (c.entry id).all fun e => !e.pendingData.isEmpty || p c e

/-- The windows admit all data of a stream's messages. -/
def windowsFit (c : Connection) (e : StreamEntry) : Bool :=
  decide ((dataOf e.msgs).length ≤ (min c.connWindow e.sendWindow).toNat)

def drainsFit (id : ℕ) : Connection → Event → Bool := drainMeets id windowsFit

/-! ### Whole runs -/

section Runs
variable (http : HttpCrate) {id : ℕ}

theorem drainMeets_drainStream {p : Connection → StreamEntry → Bool} {c : Connection} {ev : Event}
    (h : drainMeets id p c ev = true) (hev : ev = .drainStream id) (hidle : c.idle = true)
    {e : StreamEntry} (he : c.entry id = some e) (hnil : e.pendingData = []) : p c e = true := by
  simpa [drainMeets, hev, hidle, he, hnil] using h

/-- Once a complete response has been drained it is on the wire. -/
theorem run_response_delivered (opts : ConnectionOptions) (id : ℕ) (events : List Event)
    {phase : Phase}
    (hscript : (produced http id events (start opts)).foldlM Phase.next .start = some phase)
    (hover : phase.isOver = true)
    (hreset : ∀ hint code, .frame hint (.reset id code) ∉ events)
    (hread : Along http (fun c ev => c.unread id ev = false) events (start opts))
    (hfit : Along http (fun c ev => drainsFit id c ev = true) (events ++ [.drainStream id])
      (start opts))
    (hidle : (run http events (start opts)).idle = true)
    (herror : ∀ code, .reset id code ∉
      (run http (events ++ [.drainStream id]) (start opts)).written) :
    Delivered id (produced http id events (start opts))
      (run http (events ++ [.drainStream id]) (start opts)).written := by
  have hsized := along_sized http opts (events ++ [.drainStream id])
  rw [along_append] at hfit hsized
  have hreset' : Along http (fun _ ev => ∀ hint code, ev ≠ .frame hint (.reset id code)) events
      (start opts) := by
    refine .of_mem (fun ev hev _ => ?_) _
    rintro hint code rfl
    exact hreset hint code hev
  have hmeets : Along http (Meets id False (DrainFits id True)) events (start opts) := by
    refine (((hread.and hfit.1).and hreset').and hsized.1).mono ?_
    rintro c ev ⟨⟨⟨hread, hfit⟩, hreset⟩, -, hsize⟩
    refine ⟨fun hev hidle => ⟨hsize, fun e he hnil _ => ?_⟩,
      fun hint code hev => hreset hint code hev, ?_⟩
    · simpa [Room, windowsFit] using drainMeets_drainStream hfit hev hidle he hnil
    · exact fun hunread => absurd (hread.symm.trans hunread) Bool.false_ne_true
  have hscripted : Scripted (produced http id events (start opts)) :=
    Option.isSome_iff_exists.2 ⟨phase, hscript⟩
  have hstage := (delivery_tracks id True False).run http opts hmeets hscripted
  have hlast : run http (events ++ [.drainStream id]) (start opts) =
      (run http events (start opts)).drainStream id := by
    rw [run_append]
    exact if_pos hidle
  rw [hlast] at herror ⊢
  obtain ⟨hdrained, hempty⟩ := delivery_drain hstage hsized.2.1.1.tidy hscripted
    ⟨hsized.2.1.2, fun e he hnil _ => by
      simpa [Room, windowsFit] using drainMeets_drainStream hfit.2.1 rfl hidle he hnil⟩
  cases hdrained with
  | waiting _ _ hmsgs _ =>
    rw [hmsgs] at hscript
    obtain rfl := Option.some.inj hscript
    cases hover
  | live e handled he hmsgs hlive =>
    obtain ⟨phase', ha, hnil⟩ := hlive
    have hhandled : produced http id events (start opts) = handled := by
      rw [hmsgs, hempty trivial e he, List.append_nil]
    rw [hhandled] at hscript ⊢
    refine .of_answers ha ?_
    -- nothing is queued, so that END_STREAM has been written
    obtain rfl : phase' = phase := Option.some.inj (ha.after.symm.trans hscript)
    have hends := ha.isOver.trans hover
    rwa [hnil trivial, List.any_nil, Bool.or_false] at hends
  | gone _ _ hd =>
    rcases hd with hd | ⟨-, hfalse | ⟨code, hcode⟩⟩
    · exact hd
    · exact hfalse.elim
    · exact absurd hcode (herror code)

/-- A POST request whose body is read to its end, and its response. -/
def readRequest : List Event :=
  [.frame [] (.headers 1 false true none [0x83, 0x86, 0x84]), .frame [] (.data 1 true [0x61]),
    .task 1 .receive, .task 1 .dropBody, .task 1 (.send (.headers ⟨200, []⟩ false)),
    .task 1 (.send (.data [0x62] true))]

theorem run_response_delivered_read :
    Delivered 1 (produced .permissive 1 readRequest (start .default))
      (run .permissive (readRequest ++ [.drainStream 1]) (start .default)).written := by
  have hscript : (produced .permissive 1 readRequest (start .default)).foldlM Phase.next .start =
      some .ended := by
    decide +kernel
  refine run_response_delivered .permissive .default 1 readRequest hscript rfl
    (by simp [readRequest]) (by decide +kernel) (by decide +kernel) (by decide +kernel) ?_
  have hcontrol : (run .permissive (readRequest ++ [.drainStream 1]) (start .default)).written.any
      (fun f => match f with | .reset .. => true | _ => false) = false := by
    decide +kernel
  intro code hmem
  exact absurd rfl (List.any_eq_false.1 hcontrol _ hmem)

/-- A handler that has dropped the request body loses its response with the next
DATA frame. -/
theorem run_response_lost :
    let events := [.frame [] (.headers 1 false true none [0x83, 0x86, 0x84]), .task 1 .dropBody,
      .frame [] (.data 1 false [0x61]), .task 1 (.send (.headers ⟨200, []⟩ false)),
      .task 1 (.send (.data [0x62] true)), .drainStream 1]
    let c := run .permissive events (start .default)
    (produced .permissive 1 events (start .default)).foldlM Phase.next .start = some .ended ∧
      c.idle = true ∧ c.closing = false ∧
      c.written.all (fun f => match f with | .reset .. => false | _ => true) = true ∧
      c.entry 1 = none ∧ c.written.countP (Frame.endsStream 1) = 0 := by
  decide +kernel

end Runs

end Connection

end ZincioHttp.H2
