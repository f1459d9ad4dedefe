import ZincioHttp.H2.Connection.Sound

/-! Which streams a connection takes for idle. It knows a used stream by its entry
or, once the stream is closed, by the list of closed streams. Streams that are
refused or ignored get neither, and the list is bounded. -/

namespace ZincioHttp.H2

open List

variable {id : ℕ}

namespace Connection

/-- The streams that are not taken for idle. -/
def Recalled (c : Connection) (id : ℕ) : Prop := id ∈ c.streams.keys ∨ id ∈ c.closedOrder

def recalledCount (c : Connection) : ℕ := c.closedOrder.length + c.streams.keys.length

/-- The GOAWAY frames for idle streams and streams out of order. -/
def idleGoaways (c : Connection) : List Frame := c.written.filter Frame.idleGoaway

variable {e : StreamEntry}

section Entries
variable {c : Connection} {id : ℕ}

theorem mem_keys_iff : id ∈ c.streams.keys ↔ (c.entry id).isSome = true := by
  rw [entry, AList.lookup_isSome, AList.mem_keys]

theorem mem_keys_of_entry (he : c.entry id = some e) : id ∈ c.streams.keys :=
  mem_keys_iff.2 (by rw [he, Option.isSome_some])

theorem mem_keys_setEntry (c : Connection) (id : ℕ) (e : StreamEntry) (id' : ℕ) :
    id' ∈ (c.setEntry id e).streams.keys ↔ id' = id ∨ id' ∈ c.streams.keys := by
  rw [← AList.mem_keys, setEntry, AList.mem_insert, AList.mem_keys]

theorem length_keys_setEntry (he : c.entry id = some e) (e' : StreamEntry) :
    (c.setEntry id e').streams.keys.length = c.streams.keys.length := by
  have hmem := mem_keys_of_entry he
  have hpos := length_pos_of_mem hmem
  rw [setEntry, AList.keys_insert, length_cons, length_erase_of_mem hmem]
  omega

theorem length_keys_setEntry_new (hnone : c.entry id = none) (e : StreamEntry) :
    (c.setEntry id e).streams.keys.length = c.streams.keys.length + 1 := by
  have hmem : id ∉ c.streams.keys := fun h => by simp [mem_keys_iff, hnone] at h
  rw [setEntry, AList.keys_insert, length_cons, erase_of_not_mem hmem]

end Entries

/-- A connection that closes, or recalls at most 4095 streams, those of `base`
among them. -/
def Recalls (base : ℕ → Prop) (c : Connection) : Prop :=
  c.closing = true ∨ c.recalledCount ≤ 4095 ∧ ∀ id, base id → c.Recalled id

namespace Recalls

variable {base : ℕ → Prop} {c c' : Connection} {id : ℕ}

section
variable (h : Recalls base c)
include h

theorem mono {base' : ℕ → Prop} (hbase : ∀ id, base' id → base id) : Recalls base' c :=
  h.imp_right fun h => ⟨h.1, fun id hid => h.2 id (hbase id hid)⟩

theorem insert (hid : (c.entry id).isSome = true) : Recalls (fun id' => base id' ∨ id' = id) c := by
  refine h.imp_right fun h => ⟨h.1, fun id' hid' => ?_⟩
  rcases hid' with hid' | rfl
  · exact h.2 id' hid'
  · exact .inl (mem_keys_iff.2 hid)

theorem same (hclosing : c.closing = true → c'.closing = true)
    (hkeys : c'.streams.keys = c.streams.keys) (horder : c'.closedOrder = c.closedOrder) :
    Recalls base c' := by
  refine h.imp hclosing fun ⟨hcount, hbase⟩ => ⟨?_, fun id hid => ?_⟩
  · rwa [recalledCount, hkeys, horder]
  · rw [Recalled, hkeys, horder]
    exact hbase id hid

theorem setEntry {e : StreamEntry} (he : c.entry id = some e) (e' : StreamEntry) :
    Recalls base (c.setEntry id e') := by
  refine h.imp (·) fun ⟨hcount, hbase⟩ => ⟨?_, fun id' hid' => ?_⟩
  · rw [recalledCount, length_keys_setEntry he]
    exact hcount
  · exact (hbase id' hid').imp (fun hk => (mem_keys_setEntry c id e' id').2 (.inr hk)) (·)

theorem retire (hid : c.Recalled id) : Recalls base (c.retire id) := by
  refine h.imp (·) fun ⟨hcount, hbase⟩ => ?_
  have hshort : ¬ c.closedOrder.length ≥ 4096 := by
    rw [recalledCount] at hcount
    omega
  have horder : (c.retire id).closedOrder =
      if id ∈ c.closedOrder then c.closedOrder else c.closedOrder ++ [id] := by
    rw [Connection.retire, markClosed, if_neg hshort]
    rfl
  have hkeys : (c.retire id).streams.keys = c.streams.keys.erase id := AList.keys_erase id c.streams
  refine ⟨?_, fun id' hid' => ?_⟩
  · rw [recalledCount] at hcount ⊢
    rw [horder, hkeys]
    split_ifs with hclosed
    · have hle : (c.streams.keys.erase id).length ≤ c.streams.keys.length := length_erase_le
      omega
    · have hmem : id ∈ c.streams.keys := hid.resolve_right hclosed
      have hpos := length_pos_of_mem hmem
      rw [length_append, length_singleton, length_erase_of_mem hmem]
      omega
  · rw [Recalled, horder, hkeys]
    by_cases heq : id' = id
    · subst heq
      split_ifs with hclosed
      · exact .inr hclosed
      · exact .inr (mem_append_right _ (List.mem_singleton.2 rfl))
    · refine (hbase id' hid').imp (fun hk => (mem_erase_of_ne heq).2 hk) fun hclosed => ?_
      split_ifs
      · exact hclosed
      · exact mem_append_left _ hclosed

theorem retireEntry (he : c.entry id = some e) : Recalls base (c.retire id) :=
  h.retire (.inl (mem_keys_of_entry he))

theorem settle (he : c.entry id = some e) (p : Pump) : Recalls base (c.settle id p) := by
  have hset : Recalls base (c.setEntry id p.entry) := h.setEntry he p.entry
  have hset' : Recalls base { (c.setEntry id p.entry).write p.written with
      connWindow := p.connWindow } := hset
  rw [Connection.settle]
  split_ifs
  · exact hset'.retire (.inl ((mem_keys_setEntry c id p.entry id).2 (.inl rfl)))
  · exact hset'

end

theorem pumpClosed : PumpClosed (fun _ => True) (fun c c' => Recalls base c → Recalls base c') where
  refl _ h := h
  trans h h' hc := h' (h hc)
  setEntry _ _ _ e' _ he _ _ h := h.setEntry he e'
  settle _ _ _ p _ he _ h := h.settle he p

theorem closed (hid : base id) :
    ResponseClosed (fun id' => id' = id) (fun c c' => Recalls base c → Recalls base c') where
  refl _ h := h
  trans h h' hc := h' (h hc)
  setEntry c _ _ _ _ := pumpClosed.setEntry c trivial
  settle c _ _ _ _ := pumpClosed.settle c trivial
  writeFields _ _ _ _ _ h := h
  reset _ _ _ _ h := h
  retire c id' heq h := by
    subst heq
    rcases h with h | ⟨hcount, hbase⟩
    · exact .inl h
    · exact retire (.inr ⟨hcount, hbase⟩) (hbase _ hid)

section
variable (h : Recalls base c)
include h

theorem action {fin : Prop} {issued : List BodyMsg} (ha : Action id fin c issued c') :
    Recalls base c' := by
  cases ha with
  | note hnote => exact h.same (by rw [hnote]; exact (·)) (by rw [hnote]) (by rw [hnote])
  | credit octs =>
    rw [restoreWindows]
    split_ifs <;> exact h
  | answer | wait | unpark => exact h
  | goaway | idle | cancelGoaway => exact .inl rfl
  | bookkeep he | endRemote _ he | feed _ he | deliver _ he
  | spawn _ _ _ he | start _ _ _ he | redeliver _ _ he | feedWait _ _ _ _ he =>
    exact h.setEntry he _
  | reset _ he | forget he | cancel he => exact h.retireEntry he
  | forgetData octs he => exact (h.setEntry he _).retireEntry (entry_setEntry c id _)

theorem reaches {fin : Prop} {octs : Octets} (hr : Reaches id fin octs c c') : Recalls base c' := by
  obtain ⟨issued, hacts, -⟩ := hr
  induction hacts with
  | refl => exact h
  | tail _ ha ih => exact ih.action ha

theorem flags (hf : Flags c c') : Recalls base c' := by
  obtain ⟨w, -, hclosing, heq⟩ := hf
  exact h.same hclosing (by rw [heq]) (by rw [heq])

theorem setting {s : Setting} {r : Connection × Bool} (hs : SettingEffect c s r) :
    Recalls base r.1 := by
  have hkeys : ∀ delta, (shiftWindows c.streams delta).keys = c.streams.keys := by
    intro delta
    rw [AList.keys, shiftWindows, keys, map_map]
    rfl
  cases hs with
  | shift => exact h.same (·) (hkeys _) rfl
  | overflow | invalid => exact .inl rfl
  | other _ _ heq => exact h.same (by rw [heq]; exact (·)) (by rw [heq]) (by rw [heq])

theorem onTask (id : ℕ) (t : TaskEvent) : Recalls base (c.onTask id t) := by
  exact onTask_induction t (fun _ => h) fun e _ he => h.setEntry he _

theorem opens (hnone : c.entry id = none) (hcount : c.recalledCount < 4095) (e : StreamEntry) :
    Recalls (fun id' => base id' ∨ id' = id) ((c.raiseHighest id).setEntry id e) := by
  refine h.imp (·) fun ⟨_, hbase⟩ => ⟨?_, fun id' hid' => ?_⟩
  · have hlength : ((c.raiseHighest id).setEntry id e).streams.keys.length =
        c.streams.keys.length + 1 := length_keys_setEntry_new hnone e
    rw [recalledCount] at hcount ⊢
    rw [hlength]
    change c.closedOrder.length + (c.streams.keys.length + 1) ≤ 4095
    omega
  · rw [Recalled, mem_keys_setEntry]
    rcases hid' with hid' | rfl
    · exact (hbase id' hid').imp .inr (·)
    · exact .inl (.inl rfl)

end

end Recalls

/-! ### GOAWAY frames -/

section Idle
variable {c c' : Connection} {id : ℕ} {fin : Prop}

theorem idleGoaways_append {w : List Frame} (h : c'.written = c.written ++ w)
    (hw : ∀ f ∈ w, f.idleGoaway = false) : c'.idleGoaways = c.idleGoaways := by
  have hnil : w.filter Frame.idleGoaway = [] :=
    List.filter_eq_nil_iff.2 fun f hf => by simp [hw f hf]
  rw [idleGoaways, h, filter_append, hnil, append_nil, idleGoaways]

theorem idleGoaways_goaway (c : Connection) (reason : Reason) {debug : String}
    (h : octets debug ∉ idleErrors) : (c.goaway reason debug).idleGoaways = c.idleGoaways := by
  refine idleGoaways_append rfl ?_
  simp [Frame.idleGoaway, h]

/-- Actions on a recalled stream do not take it for idle. -/
theorem Action.idleGoaways {issued : List BodyMsg} (ha : Action id fin c issued c')
    (h : c.closing = true ∨ c.Recalled id) : c'.idleGoaways = c.idleGoaways := by
  cases ha with
  | note hnote => rw [Connection.idleGoaways, hnote, Connection.idleGoaways]
  | credit octs =>
    rw [restoreWindows]
    split_ifs
    · rfl
    · exact idleGoaways_append rfl (by simp [Frame.idleGoaway])
  | answer | reset code he => exact idleGoaways_append rfl (by simp [Frame.idleGoaway])
  | goaway reason debug hdebug => exact idleGoaways_goaway c reason hdebug
  | idle debug hopen hnone hclosed =>
    have hkeys : id ∉ c.streams.keys := fun hk => by simp [mem_keys_iff, hnone] at hk
    rcases h with h | h | h
    · rw [hopen] at h
      cases h
    · exact absurd h hkeys
    · exact absurd h hclosed
  | bookkeep | endRemote | spawn | start | feed | feedWait | deliver | wait | redeliver => rfl
  | unpark | forget | forgetData | cancel => rfl
  | cancelGoaway => exact idleGoaways_goaway (c.removeStream id) _ (by decide)

theorem Reaches.idleGoaways {octs : Octets} {base : ℕ → Prop} (hr : Reaches id fin octs c c')
    (h : Recalls base c) (hid : base id) : c'.idleGoaways = c.idleGoaways := by
  obtain ⟨issued, hacts, -⟩ := hr
  suffices Recalls base c' ∧ c'.idleGoaways = c.idleGoaways from this.2
  induction hacts with
  | refl => exact ⟨h, rfl⟩
  | tail _ ha ih =>
    exact ⟨ih.1.action ha, (ha.idleGoaways (ih.1.imp_right fun h => h.2 id hid)).trans ih.2⟩

end Idle

/-! ### Runs -/

section Runs
variable {c : Connection} {frames : List Frame}

end Runs

end Connection

end ZincioHttp.H2
