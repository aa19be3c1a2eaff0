import WagoHttp.Foundations.Table
import WagoHttp.Http2.Session.Run

/-!
# The bookkeeping of a session

A session keeps counters and lists beside its stream table and its queues: how many streams of each
side are active, which closed streams it retains, how many octets the queued events hold. `Registry`
is this part of a session, and `Balanced` says that the counters and lists agree with the table and
the queues, and that every bound of the configuration is kept. What every function on streams and
queues does to the registry is shown here; what a whole action does is shown with the queues.
-/

namespace WagoHttp.Http2

open Table List

/-- The stream table, the queues and what is recorded about them. -/
structure Registry where
  limits : SessionLimits
  streams : StreamTable
  closedStreams : List ℕ
  activeLocal : ℕ
  activePeer : ℕ
  output : Bytes
  events : List Event
  eventBytes : ℕ

/-- An active stream of one side. -/
def Stream.isActive (isLocal : Bool) (st : Stream) : Bool :=
  st.isLocal == isLocal && st.state != .closed

theorem Stream.isActive_iff {isLocal : Bool} {st : Stream} :
    st.isActive isLocal = true ↔ st.isLocal = isLocal ∧ st.state ≠ .closed := by
  simp [isActive]

namespace Registry

/-- The counters and lists agree with the table and the queues, and every bound is kept. -/
structure Balanced (r : Registry) : Prop where
  streams : r.streams.keys.length ≤ r.limits.maxStreams.toNat
  activeLocal : r.activeLocal = countIf (Stream.isActive true) r.streams
  activePeer : r.activePeer = countIf (Stream.isActive false) r.streams
  nodup : r.closedStreams.Nodup
  retained : r.closedStreams.length ≤ r.limits.maxClosedStreams.toNat
  closed : ∀ id, id ∈ r.closedStreams ↔ ∃ st, r.streams.lookup id = some st ∧ st.state = .closed
  output : r.output.length ≤ r.limits.maxQueuedOutputBytes.toNat
  events : r.events.length ≤ r.limits.maxQueuedEvents.toNat
  eventBytes : r.eventBytes = (r.events.map Session.eventRetainedBytes).sum
  eventBytes_le : r.eventBytes ≤ r.limits.maxQueuedEventBytes.toNat

variable {r : Registry} {id : ℕ} {st : Stream}

theorem closed_insert (id : ℕ) (st : Stream)
    (h : st.state = .closed ↔ ∃ x, r.streams.lookup id = some x ∧ x.state = .closed) (id' : ℕ) :
    (∃ x, (r.streams.insert id st).lookup id' = some x ∧ x.state = .closed) ↔
      ∃ x, r.streams.lookup id' = some x ∧ x.state = .closed := by
  by_cases hid : id' = id
  · subst hid
    simp [← h]
  · rw [AList.lookup_insert_ne hid]

/-- A stream that stays on its side and is closed if it was. -/
theorem Balanced.set (h : r.Balanced) (st' : Stream) (hst : r.streams.lookup id = some st)
    (hl : st'.isLocal = st.isLocal) (hc : st'.state = .closed ↔ st.state = .closed) :
    Balanced { r with streams := r.streams.insert id st' } := by
  have hactive : ∀ isLocal, st'.isActive isLocal = st.isActive isLocal := fun isLocal => by
    rw [Bool.eq_iff_iff, Stream.isActive_iff, Stream.isActive_iff, hl, ne_eq, hc]
  exact { h with
    streams := (length_keys_insert hst).trans_le h.streams
    activeLocal := h.activeLocal.trans (countIf_insert_same hst (hactive true)).symm
    activePeer := h.activePeer.trans (countIf_insert_same hst (hactive false)).symm
    closed := fun id' => (h.closed id').trans (closed_insert id st' (by simp [hst, hc]) id').symm }

/-- A stream that leaves the table while it is active. -/
theorem Balanced.drop (h : r.Balanced) (hst : r.streams.lookup id = some st)
    (hl : st.isLocal = true) (hs : st.state ≠ .closed) :
    Balanced { r with streams := r.streams.erase id, activeLocal := r.activeLocal - 1 } := by
  have hlocal := countIf_eq_erase (p := Stream.isActive true) hst
  have hpeer := countIf_eq_erase (p := Stream.isActive false) hst
  rw [← h.activeLocal, if_pos (Stream.isActive_iff.2 ⟨hl, hs⟩)] at hlocal
  rw [← h.activePeer, if_neg (by simp [Stream.isActive, hl])] at hpeer
  have hclosed : ∀ id', (∃ x, (r.streams.erase id).lookup id' = some x ∧ x.state = .closed) ↔
      ∃ x, r.streams.lookup id' = some x ∧ x.state = .closed := fun id' => by
    by_cases hid : id' = id
    · subst hid
      simp [hst, hs]
    · rw [AList.lookup_erase_ne hid]
  exact { h with
    streams := (length_keys_erase_le _ _).trans h.streams
    activeLocal := by rw [hlocal, Nat.add_sub_cancel]
    activePeer := hpeer
    closed := fun id' => (h.closed id').trans (hclosed id').symm }

/-- The counter of a side, one higher. -/
def acquire (r : Registry) (isLocal : Bool) : Registry :=
  if isLocal then { r with activeLocal := r.activeLocal + 1 }
  else { r with activePeer := r.activePeer + 1 }

/-- A new stream enters the table. -/
theorem Balanced.add (h : r.Balanced) (st : Stream) (hnew : r.streams.lookup id = none)
    (hroom : r.streams.keys.length < r.limits.maxStreams.toNat) (hs : st.state ≠ .closed) :
    Balanced ({ r with streams := r.streams.insert id st }.acquire st.isLocal) := by
  have hlocal := countIf_insert_new (p := Stream.isActive true) (v := st) hnew
  have hpeer := countIf_insert_new (p := Stream.isActive false) (v := st) hnew
  rw [← h.activeLocal] at hlocal
  rw [← h.activePeer] at hpeer
  have hlen : (r.streams.insert id st).keys.length ≤ r.limits.maxStreams.toNat := by
    rw [length_keys_insert_new hnew]
    exact hroom
  have hclosed (id' : ℕ) := (h.closed id').trans
    (closed_insert id st (by simp [hnew, hs]) id').symm
  unfold acquire
  split
  · next hl =>
    rw [if_pos (Stream.isActive_iff.2 ⟨hl, hs⟩)] at hlocal
    rw [if_neg (by simp [Stream.isActive, hl])] at hpeer
    exact { h with
      streams := hlen, activeLocal := hlocal.symm, activePeer := hpeer.symm
      closed := hclosed }
  · next hl =>
    rw [Bool.not_eq_true] at hl
    rw [if_neg (by simp [Stream.isActive, hl])] at hlocal
    rw [if_pos (Stream.isActive_iff.2 ⟨hl, hs⟩)] at hpeer
    exact { h with
      streams := hlen, activeLocal := hlocal.symm, activePeer := hpeer.symm
      closed := hclosed }

/-! ## Closing and evicting -/

/-- The list of closed streams lists the closed streams of a table. -/
structure Listed (streams : StreamTable) (ids : List ℕ) : Prop where
  nodup : ids.Nodup
  closed : ∀ id, id ∈ ids ↔ ∃ st, streams.lookup id = some st ∧ st.state = .closed

variable {streams : StreamTable} {ids : List ℕ}

/-- The oldest closed stream leaves the table and the list. -/
theorem Listed.erase (h : Listed streams (id :: ids)) : Listed (streams.erase id) ids := by
  obtain ⟨hmem, hnodup⟩ := nodup_cons.1 h.nodup
  refine ⟨hnodup, fun id' => ?_⟩
  by_cases hid : id' = id
  · subst hid
    simp [hmem]
  · rw [AList.lookup_erase_ne hid, ← h.closed id', mem_cons]
    simp [hid]

/-- A closed stream is not active. -/
theorem countIf_erase_closed {isLocal : Bool} (hst : streams.lookup id = some st)
    (hs : st.state = .closed) :
    countIf (Stream.isActive isLocal) (streams.erase id) =
      countIf (Stream.isActive isLocal) streams := by
  rw [countIf_eq_erase hst, if_neg (by simp [Stream.isActive, hs]), Nat.add_zero]

theorem listed_evictClosed (max : ℕ) (ids : List ℕ) (streams : StreamTable)
    (h : Listed streams ids) :
    Listed (Session.evictClosed max streams ids).1 (Session.evictClosed max streams ids).2 ∧
      (Session.evictClosed max streams ids).2.length ≤ max ∧
      (Session.evictClosed max streams ids).1.keys.length ≤ streams.keys.length ∧
      ∀ isLocal, countIf (Stream.isActive isLocal) (Session.evictClosed max streams ids).1 =
        countIf (Stream.isActive isLocal) streams := by
  induction ids generalizing streams with
  | nil => exact ⟨h, Nat.zero_le _, le_rfl, fun _ => rfl⟩
  | cons oldest ids ih =>
    obtain ⟨st, hst, hs⟩ := (h.closed oldest).1 mem_cons_self
    have hclosed : (streams.lookup oldest).any (·.state == .closed) = true := by simp [hst, hs]
    unfold Session.evictClosed
    split
    · simp only [hclosed, if_true]
      obtain ⟨h1, h2, h3, h4⟩ := ih _ h.erase
      exact ⟨h1, h2, h3.trans (length_keys_erase_le _ _),
        fun isLocal => (h4 isLocal).trans (countIf_erase_closed hst hs)⟩
    · next hle => exact ⟨h, by simpa using hle, le_rfl, fun _ => rfl⟩

/-- A stream that is closed is listed. -/
theorem Listed.close (h : Listed streams ids) (hst : streams.lookup id = some st)
    (hs : st.state ≠ .closed) :
    Listed (streams.insert id { st with state := .closed }) (ids ++ [id]) := by
  have hmem : id ∉ ids := fun hmem => by
    obtain ⟨x, hx, hxs⟩ := (h.closed id).1 hmem
    cases hst.symm.trans hx
    exact hs hxs
  refine ⟨nodup_append.2 ⟨h.nodup, nodup_singleton _, ?_⟩, fun id' => ?_⟩
  · rintro a ha b hb rfl
    rw [mem_singleton.1 hb] at ha
    exact hmem ha
  · by_cases hid : id' = id
    · subst hid
      simp
    · rw [AList.lookup_insert_ne hid, ← h.closed id']
      simp [hid]

/-- The registry after an active stream has been closed and the oldest closed streams have been
evicted. -/
def closed (r : Registry) (id : ℕ) (st : Stream) : Registry :=
  let evicted := Session.evictClosed r.limits.maxClosedStreams.toNat
    (r.streams.insert id { st with state := .closed }) (r.closedStreams ++ [id])
  { r with
    streams := evicted.1
    closedStreams := evicted.2
    activeLocal := if st.isLocal then r.activeLocal - 1 else r.activeLocal
    activePeer := if st.isLocal then r.activePeer else r.activePeer - 1 }

theorem Balanced.close (h : r.Balanced) (hst : r.streams.lookup id = some st)
    (hs : st.state ≠ .closed) : (r.closed id st).Balanced := by
  have hlisted : Listed r.streams r.closedStreams := ⟨h.nodup, h.closed⟩
  obtain ⟨h1, h2, h3, h4⟩ :=
    listed_evictClosed r.limits.maxClosedStreams.toNat _ _ (hlisted.close hst hs)
  have hcount : ∀ isLocal, countIf (Stream.isActive isLocal) (r.closed id st).streams +
      (if st.isLocal = isLocal then 1 else 0) = countIf (Stream.isActive isLocal) r.streams := by
    intro isLocal
    have := countIf_insert_of_lookup (p := Stream.isActive isLocal)
      (v := { st with state := .closed }) hst
    rw [← h4 isLocal] at this
    simpa [Registry.closed, Stream.isActive, hs] using this
  have hlocal := hcount true
  have hpeer := hcount false
  rw [← h.activeLocal] at hlocal
  rw [← h.activePeer] at hpeer
  refine { h with
    streams := h3.trans ((length_keys_insert hst).trans_le h.streams)
    activeLocal := ?_
    activePeer := ?_
    nodup := h1.nodup
    retained := h2
    closed := h1.closed }
  · change (if st.isLocal = true then r.activeLocal - 1 else r.activeLocal) = _
    split_ifs at hlocal ⊢ <;> omega
  · change (if st.isLocal = true then r.activePeer else r.activePeer - 1) = _
    cases hl : st.isLocal <;> rw [hl] at hpeer
    · exact Nat.sub_eq_of_eq_add hpeer.symm
    · exact hpeer.symm

end Registry

namespace Session

open Registry

variable {X : Externals} {s s' s'' : Session X} {a : Action}

/-- The bookkeeping of a session. -/
def registry (s : Session X) : Registry where
  limits := s.limits
  streams := s.streams
  closedStreams := s.closedStreams
  activeLocal := s.activeLocal
  activePeer := s.activePeer
  output := s.output
  events := s.events
  eventBytes := s.eventBytes

/-- The change keeps the books balanced. -/
def Keeps (s s' : Session X) : Prop := s.registry.Balanced → s'.registry.Balanced

theorem Keeps.of_eq (h : s'.registry = s.registry) : Keeps s s' := fun hb => h ▸ hb

theorem Keeps.trans (h : Keeps s s') (h' : Keeps s' s'') : Keeps s s'' := fun hb => h' (h hb)

theorem keeps_setStream {id : ℕ} {st st' : Stream} (hst : s.stream? id = some st)
    (hl : st'.isLocal = st.isLocal) (hc : st'.state = .closed ↔ st.state = .closed) :
    Keeps s (s.setStream id st') := fun hb => hb.set st' hst hl hc

/-! ## Queues -/

theorem keeps_queueEvent (s : Session X) (event : Event) : Keeps s (s.queueEvent event).1 := by
  intro hb
  unfold queueEvent
  simp only
  split
  · exact hb
  next hor =>
  obtain ⟨hlen, hbytes⟩ := not_or.1 hor
  have hle : s.eventBytes ≤ s.limits.maxQueuedEventBytes.toNat := hb.eventBytes_le
  have hlt := s.limits.maxQueuedEventBytes.toNat_lt
  have hsub : sub32 s.limits.maxQueuedEventBytes.toNat s.eventBytes =
      s.limits.maxQueuedEventBytes.toNat - s.eventBytes := by
    unfold sub32
    omega
  rw [hsub] at hbytes
  have hmod : (s.eventBytes + eventRetainedBytes event) % 2 ^ 32 =
      s.eventBytes + eventRetainedBytes event := Nat.mod_eq_of_lt (by omega)
  have hsum : s.eventBytes = (s.events.map eventRetainedBytes).sum := hb.eventBytes
  exact { hb with
    events := by
      change (s.events ++ [event]).length ≤ _
      rw [length_append]
      exact Nat.lt_of_not_le hlen
    eventBytes := by
      change (s.eventBytes + eventRetainedBytes event) % 2 ^ 32 = _
      rw [hmod, hsum]
      simp [registry, note]
    eventBytes_le := by
      change (s.eventBytes + eventRetainedBytes event) % 2 ^ 32 ≤ s.limits.maxQueuedEventBytes.toNat
      omega }

theorem keeps_appendFrameEvenFailed (s : Session X) (header : FrameHeader) (payload : Bytes) :
    Keeps s (s.appendFrameEvenFailed header payload).1 := by
  intro hb
  obtain ⟨err, h⟩ | ⟨hroom, -, -, -, h⟩ := appendFrameEvenFailed_cases s header payload
  · rw [h]
    exact hb
  · rw [h]
    refine { hb with output := ?_ }
    simp only [reserveOutput, decide_eq_true_eq] at hroom
    change (s.output ++ frameHeaderBytes _ ++ payload).length ≤ s.limits.maxQueuedOutputBytes.toNat
    rw [length_append, length_append, show (frameHeaderBytes _).length = 9 from rfl]
    omega

/-! ## Streams and errors -/

theorem registry_closeStream {id : ℕ} {st : Stream} (hst : s.stream? id = some st)
    (hs : st.state ≠ .closed) : (s.closeStream id).registry = s.registry.closed id st := by
  unfold closeStream
  simp only [hst, hs, if_false, releaseActive, Registry.closed]
  split <;> rfl

theorem keeps_closeStream (s : Session X) (id : ℕ) : Keeps s (s.closeStream id) := by
  intro hb
  cases hst : s.stream? id with
  | none => simpa only [closeStream, hst] using hb
  | some st =>
    by_cases hs : st.state = .closed
    · simpa only [closeStream, hst, hs, if_true] using hb
    · rw [registry_closeStream hst hs]
      exact hb.close hst hs

/-! ## Calls -/

/-- A SETTINGS update moves none of the bounds of the registry. -/
theorem keeps_applyUpdate (s : Session X) (u : LocalUpdate) : Keeps s (s.applyUpdate u) :=
  fun hb => ⟨hb.streams, hb.activeLocal, hb.activePeer, hb.nodup, hb.retained, hb.closed,
    hb.output, hb.events, hb.eventBytes, hb.eventBytes_le⟩

theorem keeps_nextEvent (s : Session X) : Keeps s s.nextEvent.1 := by
  intro hb
  unfold nextEvent
  split
  · exact hb
  next event events hev =>
  have hsum : s.eventBytes = (s.events.map eventRetainedBytes).sum := hb.eventBytes
  have hle : s.eventBytes ≤ s.limits.maxQueuedEventBytes.toNat := hb.eventBytes_le
  have hlen : s.events.length ≤ s.limits.maxQueuedEvents.toNat := hb.events
  have hlt := s.limits.maxQueuedEventBytes.toNat_lt
  rw [hev, map_cons, sum_cons] at hsum
  rw [hev, length_cons] at hlen
  have hsub : sub32 s.eventBytes (eventRetainedBytes event) =
      (events.map eventRetainedBytes).sum := by
    unfold sub32
    omega
  exact { hb with
    events := Nat.le_of_succ_le hlen
    eventBytes := hsub
    eventBytes_le := hsub.trans_le (by change _ ≤ s.limits.maxQueuedEventBytes.toNat; omega) }

theorem keeps_consumeOutput (s : Session X) (n : ℕ) : Keeps s (s.consumeOutput n).1 := by
  intro hb
  unfold consumeOutput
  split
  · exact hb
  · refine { hb with output := ?_ }
    change (s.output.drop n).length ≤ s.limits.maxQueuedOutputBytes.toNat
    rw [length_drop]
    exact (Nat.sub_le _ _).trans hb.output

/-! ## Runs -/

theorem balanced_init (X : Externals) (role : Role) (limits : SessionLimits) :
    (init X role limits).registry.Balanced where
  streams := Nat.zero_le _
  activeLocal := rfl
  activePeer := rfl
  nodup := nodup_nil
  retained := Nat.zero_le _
  closed := fun id => by simp [registry, init]
  output := Nat.zero_le _
  events := Nat.zero_le _
  eventBytes := rfl
  eventBytes_le := Nat.zero_le _

theorem balanced_newSession {role : Role} {limits : SessionLimits}
    (h : newSession X role limits = .ok s) : s.registry.Balanced := by
  have hpre : ∀ t, (init X role limits).startPreface = .ok t → t.registry.Balanced := by
    intro t ht
    unfold startPreface at ht
    split at ht
    · split at ht
      · cases ht
      next hroom =>
      cases ht
      refine { balanced_init X role limits with output := ?_ }
      simp only [reserveOutput, Bool.not_eq_true', decide_eq_false_iff_not, not_not] at hroom
      change ((init X role limits).output ++ clientPreface).length ≤
        (init X role limits).limits.maxQueuedOutputBytes.toNat
      rw [length_append]
      omega
    · cases ht
      exact balanced_init X role limits
  unfold newSession start at h
  split at h
  · cases h
  next t ht =>
  have hk : (t.appendSettings (initialSettings t.role t.limits) false).1.registry.Balanced :=
    keeps_appendFrameEvenFailed t _ _ (hpre t ht)
  generalize t.appendSettings (initialSettings t.role t.limits) false = w at h hk
  obtain ⟨u, _ | err⟩ := w
  · cases h
    exact hk
  · cases h

end Session

end WagoHttp.Http2
