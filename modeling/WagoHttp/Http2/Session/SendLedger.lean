import WagoHttp.Foundations.Ledger
import WagoHttp.Http2.Session.Run

/-!
# The ledger of sent data

The send windows of a session are what its history says: the initial window, plus the increments of
the received WINDOW_UPDATE frames, minus the octets of the DATA frames sent. The increments of a
stream count from the moment the stream is opened.
-/

namespace WagoHttp.Http2

open Ledger Runs Endpoint SmallHpack List

/-- The octets of a DATA frame sent. -/
def Obs.dataOctets : Obs → ℕ
  | .sent header payload => if header.type = .data then payload.length else 0
  | _ => 0

/-- The octets of a DATA frame sent on a stream. -/
def Obs.dataOctetsOn (id : ℕ) : Obs → ℕ
  | .sent header payload =>
    if header.type = .data ∧ header.streamID = id then payload.length else 0
  | _ => 0

/-- The increment of a WINDOW_UPDATE frame received on a stream, or on the connection for `0`. -/
def Obs.credit (id : ℕ) : Obs → ℕ
  | .received (.windowUpdate streamID increment) => if streamID = id then increment else 0
  | _ => 0

theorem Obs.dataOctetsOn_le (id : ℕ) (o : Obs) : o.dataOctetsOn id ≤ o.dataOctets := by
  unfold dataOctetsOn dataOctets
  split
  · split_ifs with h h'
    · exact le_rfl
    · exact absurd h.1 h'
    · exact Nat.zero_le _
    · exact le_rfl
  · exact Nat.zero_le _

namespace Endpoint

variable {X : Externals} {a : Action} {e₀ e e' : Endpoint X}

/-- What the history says about the send window of an open stream. -/
structure StreamSend (initial : ℤ) (history : List Obs) (id : ℕ) (st : Stream) : Prop where
  eq : st.sendWindow = initial + total (Obs.credit id) (since (.opened id) history) -
    total (Obs.dataOctetsOn id) history
  ge : -2 ^ 31 ≤ st.sendWindow
  le : st.sendWindow ≤ maxInt32

/-- What the history says about the send windows. -/
structure SendLedger (e : Endpoint X) : Prop where
  eq : e.sendWindow = 65535 + total (Obs.credit 0) e.history - total Obs.dataOctets e.history
  nonneg : 0 ≤ e.sendWindow
  le : e.sendWindow ≤ maxInt32
  initial : 0 ≤ e.peerInitial ∧ e.peerInitial ≤ maxInt32
  stream : ∀ id st, e.streams id = some st → st.state ≠ .closed →
    StreamSend e.peerInitial e.history id st
  unopened : ∀ id, .opened id ∉ e.history → total (Obs.dataOctetsOn id) e.history = 0

variable {o : Obs} {id n : ℕ} {st : Stream} {header : FrameHeader} {payload : Bytes}
  {P : Obs → Prop}

/-- An entry that neither credits an open stream nor sends data. -/
theorem SendLedger.note (h : e.SendLedger) (hc : o.credit 0 = 0) (hd : o.dataOctets = 0)
    (hno : ∀ id, o ≠ .opened id)
    (hs : ∀ id st, e.streams id = some st → st.state ≠ .closed → o.credit id = 0) :
    (e.note o).SendLedger := by
  have hd' : ∀ id, o.dataOctetsOn id = 0 := fun id =>
    Nat.eq_zero_of_le_zero (hd ▸ o.dataOctetsOn_le id)
  refine ⟨?_, h.nonneg, h.le, h.initial, fun id st hst hne => ?_, fun id hid => ?_⟩
  · simpa [Endpoint.note, hc, hd] using h.eq
  · have hstream := h.stream id st hst hne
    refine ⟨?_, hstream.ge, hstream.le⟩
    simpa [Endpoint.note, since_append_of_ne (hno id), hs id st hst hne, hd' id] using hstream.eq
  · have := h.unopened id fun hmem => hid (mem_note.2 (.inl hmem))
    simpa [Endpoint.note, hd' id] using this

/-- Streams that have kept their windows or have been closed. -/
theorem SendLedger.of_streams {streams : ℕ → Option Stream} (h : e.SendLedger)
    (hs : ∀ id st', streams id = some st' → st'.state ≠ .closed →
      ∃ st, e.streams id = some st ∧ st.state ≠ .closed ∧ st'.sendWindow = st.sendWindow) :
    SendLedger { e with streams } := by
  refine ⟨h.eq, h.nonneg, h.le, h.initial, fun id st' hst' hne => ?_, h.unopened⟩
  obtain ⟨st, hst, hne', heq⟩ := hs id st' hst' hne
  have hstream := h.stream id st hst hne'
  exact ⟨heq ▸ hstream.eq, heq ▸ hstream.ge, heq ▸ hstream.le⟩

theorem SendLedger.set {x : Option Stream} (h : e.SendLedger) (hst : e.streams id = some st)
    (hx : ∀ st', x = some st' → st'.state ≠ .closed →
      st.state ≠ .closed ∧ st'.sendWindow = st.sendWindow) : (e.set id x).SendLedger :=
  h.of_streams <| forall_update (fun st' hst' hne => ⟨st, hst, hx st' hst' hne⟩)
    fun _ _ st' hst' hne => ⟨st', hst', hne, rfl⟩

/-- A stream that has just been opened. -/
theorem SendLedger.opens {isLocal : Bool} (h : e.SendLedger) (hnew : .opened id ∉ e.history)
    (hst : Fresh e st isLocal) :
    ((e.set id (some st)).note (.opened id)).SendLedger := by
  refine ⟨?_, h.nonneg, h.le, h.initial, forall_update ?_ fun id' hid st' hst' hne => ?_,
    fun id' hid' => ?_⟩
  · simpa [Endpoint.note, Endpoint.set, Obs.credit, Obs.dataOctets] using h.eq
  · rintro st' ⟨⟩ -
    refine ⟨?_, ?_, ?_⟩
    · simpa [Endpoint.note, Endpoint.set, Obs.dataOctetsOn, h.unopened id hnew] using hst.sendWindow
    · rw [hst.sendWindow]
      exact le_trans (by norm_num) h.initial.1
    · rw [hst.sendWindow]
      exact h.initial.2
  · have hstream := h.stream id' st' hst' hne
    refine ⟨?_, hstream.ge, hstream.le⟩
    have hne' : Obs.opened id ≠ .opened id' := fun heq => hid (Obs.opened.inj heq).symm
    simpa [Endpoint.note, Endpoint.set, since_append_of_ne hne', Obs.credit, Obs.dataOctetsOn]
      using hstream.eq
  · have := h.unopened id' fun hmem => hid' (mem_note.2 (.inl hmem))
    simpa [Endpoint.note, Endpoint.set, Obs.dataOctetsOn] using this

/-- A DATA frame is sent and charged. -/
theorem SendLedger.charge {body : ℕ} (h : e.SendLedger) (hid : e.IdSpace)
    (hst : e.streams id = some st) (hne : st.state ≠ .closed)
    (hconn : (payload.length : ℤ) ≤ e.sendWindow) (hstream : (payload.length : ℤ) ≤ st.sendWindow)
    (ht : header.type = .data) (hs : header.streamID = id) :
    (({ e with sendWindow := e.sendWindow - payload.length }.set id
      (some { st with sendWindow := st.sendWindow - payload.length, sendBody := body })).note
        (.sent header payload)).SendLedger := by
  have hle := h.le
  refine ⟨?_, ?_, ?_, h.initial, forall_update ?_ fun id' hid' st' hst' hne' => ?_,
    fun id' hid' => ?_⟩
  · have := h.eq
    simp only [Endpoint.note, Endpoint.set, total_append, total_singleton, Obs.credit,
      Obs.dataOctets, ht, if_true, Nat.cast_add, add_zero]
    omega
  · simp only [Endpoint.note, Endpoint.set]
    omega
  · simp only [Endpoint.note, Endpoint.set]
    omega
  · rintro st' ⟨⟩ -
    have hold := h.stream id st hst hne
    refine ⟨?_, ?_, ?_⟩
    · have := hold.eq
      simp only [Endpoint.note, Endpoint.set, total_append, total_singleton, Obs.credit,
        since_append_of_ne (show Obs.sent header payload ≠ .opened id by simp),
        Obs.dataOctetsOn, ht, hs, and_self, if_true, Nat.cast_add, add_zero]
      omega
    · exact le_trans (by norm_num) (sub_nonneg.2 hstream)
    · have := hold.le
      change st.sendWindow - _ ≤ _
      omega
  · have hold := h.stream id' st' hst' hne'
    refine ⟨?_, hold.ge, hold.le⟩
    simpa [Endpoint.note, Endpoint.set, Obs.credit, Obs.dataOctetsOn, hs, hid'.symm,
      since_append_of_ne (show Obs.sent header payload ≠ .opened id' by simp)] using hold.eq
  · have hne'' : header.streamID ≠ id' := fun heq => hid' <|
      mem_note.2 (.inl ((heq.symm.trans hs) ▸ (hid.opened id st hst).1))
    have := h.unopened id' fun hmem => hid' (mem_note.2 (.inl hmem))
    simpa [Endpoint.note, Endpoint.set, Obs.dataOctetsOn, hne''] using this

/-- A WINDOW_UPDATE frame raises the window of the connection. -/
theorem SendLedger.raise (h : e.SendLedger) (hid : e.IdSpace) (hle : e.sendWindow ≤ maxInt32 - n) :
    ({ e with sendWindow := e.sendWindow + n }.note
      (.received (.windowUpdate 0 n))).SendLedger := by
  have hnonneg := h.nonneg
  refine ⟨?_, ?_, ?_, h.initial, fun id st hst hne => ?_, fun id hopen => ?_⟩
  · have := h.eq
    simp only [Endpoint.note, total_append, total_singleton, Obs.credit, Obs.dataOctets, if_true,
      Nat.cast_add, add_zero]
    omega
  · change 0 ≤ e.sendWindow + n
    omega
  · change e.sendWindow + n ≤ maxInt32
    omega
  · have hold := h.stream id st hst hne
    have hz : 0 ≠ id := (hid.ne_zero id (hid.opened id st hst).1).symm
    refine ⟨?_, hold.ge, hold.le⟩
    simpa [Endpoint.note, Obs.credit, Obs.dataOctetsOn, hz, since_append_of_ne
      (show Obs.received (.windowUpdate 0 n) ≠ .opened id by simp)] using hold.eq
  · have := h.unopened id fun hmem => hopen (mem_note.2 (.inl hmem))
    simpa [Endpoint.note, Obs.dataOctetsOn] using this

/-- A WINDOW_UPDATE frame raises the window of a stream. -/
theorem SendLedger.raiseStream (h : e.SendLedger) (hz : id ≠ 0) (hst : e.streams id = some st)
    (hne : st.state ≠ .closed) (hle : st.sendWindow ≤ maxInt32 - n) :
    ((e.set id (some { st with sendWindow := st.sendWindow + n })).note
      (.received (.windowUpdate id n))).SendLedger := by
  refine ⟨?_, h.nonneg, h.le, h.initial, forall_update ?_ fun id' hid st' hst' hne' => ?_,
    fun id' hid' => ?_⟩
  · simpa [Endpoint.note, Endpoint.set, Obs.credit, hz, Obs.dataOctets] using h.eq
  · rintro st' ⟨⟩ -
    have hold := h.stream id st hst hne
    refine ⟨?_, ?_, ?_⟩
    · have := hold.eq
      simp only [Endpoint.note, Endpoint.set, total_append, total_singleton, Obs.credit,
        since_append_of_ne (show Obs.received (.windowUpdate id n) ≠ .opened id by simp),
        Obs.dataOctetsOn, if_true, Nat.cast_add, add_zero]
      omega
    · exact hold.ge.trans (le_add_of_nonneg_right (by positivity))
    · change st.sendWindow + n ≤ _
      omega
  · have hold := h.stream id' st' hst' hne'
    refine ⟨?_, hold.ge, hold.le⟩
    simpa [Endpoint.note, Endpoint.set, Obs.credit, Obs.dataOctetsOn, hid.symm,
      since_append_of_ne (show Obs.received (.windowUpdate id n) ≠ .opened id' by simp)] using hold.eq
  · have := h.unopened id' fun hmem => hid' (mem_note.2 (.inl hmem))
    simpa [Endpoint.note, Endpoint.set, Obs.dataOctetsOn] using this

/-- SETTINGS_INITIAL_WINDOW_SIZE moves the windows of the open streams. -/
theorem SendLedger.adjust {v : ℤ} (h : e.SendLedger) (hv : 0 ≤ v ∧ v ≤ maxInt32)
    (hfit : ∀ id st, e.streams id = some st → st.state ≠ .closed →
      -2 ^ 31 ≤ st.sendWindow + (v - e.peerInitial) ∧
        st.sendWindow + (v - e.peerInitial) ≤ maxInt32) :
    SendLedger { e with
      peerInitial := v
      streams := fun id => (e.streams id).map (adjustSend (v - e.peerInitial)) } := by
  refine ⟨h.eq, h.nonneg, h.le, hv, fun id st' hst' hne' => ?_, h.unopened⟩
  obtain ⟨st, hst, rfl⟩ := Option.map_eq_some_iff.1 hst'
  unfold adjustSend at hne' ⊢
  split_ifs at hne' ⊢ with hc
  · exact absurd hc hne'
  · have hold := h.stream id st hst hc
    obtain ⟨hge, hle⟩ := hfit id st hst hc
    refine ⟨?_, hge, hle⟩
    have := hold.eq
    simp only
    omega

/-- A frame that an endpoint sends without being charged for it carries no data. -/
theorem dataOctets_of_noted (h : Noted a e₀ e (.sent header payload)) :
    (Obs.sent header payload).dataOctets = 0 := by
  simp only [Obs.dataOctets]
  split_ifs with ht
  · rcases h with h | ⟨h, -⟩ | ⟨h, -⟩ | ⟨-, rfl⟩
    · rcases h with h | h | h | h <;> exact absurd (ht.symm.trans h) (by decide)
    · rcases h with h | h | h <;> exact absurd (ht.symm.trans h) (by decide)
    · exact absurd (ht.symm.trans h) (by decide)
    · rfl
  · rfl

/-- A WINDOW_UPDATE frame on the connection or an open stream raises a window, unless the endpoint
has failed. -/
theorem credit_of_noted (h : Noted a e₀ e o) (hf : e.failed = false)
    (hid : id = 0 ∨ ∃ st, e.streams id = some st ∧ st.state ≠ .closed) : o.credit id = 0 := by
  unfold Obs.credit
  split
  · next streamID increment =>
    split_ifs with heq
    · subst heq
      exact absurd ⟨streamID, increment, rfl, hf, hid⟩ h.2.2
    · rfl
  · rfl

theorem SendLedger.noted (h : e.SendLedger) (hf : e.failed = false) (ho : Noted a e₀ e o) :
    (e.note o).SendLedger := by
  refine h.note (credit_of_noted ho hf (.inl rfl)) ?_ (by rintro id rfl; exact ho)
    fun id st hst hne => credit_of_noted ho hf (.inr ⟨st, hst, hne⟩)
  cases o with
  | sent header payload => exact dataOctets_of_noted ho
  | _ => rfl

/-- **The ledger is kept by every change**, unless the endpoint fails. -/
theorem SendLedger.step (hs : Step a e₀ e e') (hid : e.IdSpace)
    (h : e.failed = false → e.SendLedger) (hf' : e'.failed = false) : e'.SendLedger := by
  cases hs with
  | note ho => exact (h hf').noted hf' ho
  | stream hst ht =>
    exact (h hf').set hst fun st' hx hne => ⟨((ht st' hx).2 hne).1, ((ht st' hx).2 hne).2.1⟩
  | openPeer _ _ _ hnew hst =>
    have h' := (h hf').opens hnew hst
    exact ⟨h'.1, h'.2, h'.3, h'.4, h'.5, h'.6⟩
  | openLocal _ _ _ _ _ hnew hst => exact (h hf').opens hnew hst
  | sendData _ _ hst hne hconn hstream ht hs =>
    exact (h hf').charge hid hst hne hconn hstream ht hs
  | raise _ _ hle => exact (h hf').raise hid hle
  | raiseStream _ _ hz hst hne hle => exact (h hf').raiseStream hz hst hne hle
  | @overflow id n st _ _ hz hst hne =>
    have h' : (e.set id (some { st with state := .closed })).SendLedger :=
      (h hf').set hst (by rintro st' ⟨⟩ hc; exact absurd rfl hc)
    refine h'.note (by simp [Obs.credit, hz]) rfl (by simp) (forall_update ?_ ?_)
    · rintro st' ⟨⟩ hne'
      exact absurd rfl hne'
    · exact fun id' heq _ _ _ => by simp [Obs.credit, heq.symm]
  | streamRecv _ hst => exact (h hf').set hst (by rintro st' ⟨⟩ hc; exact ⟨hc, rfl⟩)
  | peerInitial _ hv hfit => exact (h hf').adjust hv hfit
  | fail | failAdjusted | failRaise => exact absurd hf' (by simp [Endpoint.note])
  | goAway ht =>
    refine (h hf').note rfl ?_ (by simp) fun _ _ _ _ => rfl
    simp only [Obs.dataOctets, ht]
    rfl
  | closeAll =>
    have h' : SendLedger { e with streams := fun _ => none } := (h hf').of_streams (by simp)
    exact ⟨h'.1, h'.2, h'.3, h'.4, h'.5, h'.6⟩
  | _ =>
    have h' := h hf'
    exact ⟨h'.1, h'.2, h'.3, h'.4, h'.5, h'.6⟩

/-! ## What a DATA frame is checked against -/

/-- A DATA frame with data fits both windows. -/
def Fits (e : Endpoint X) : Obs → Prop
  | .sent header payload =>
    header.type = .data → payload ≠ [] →
      (payload.length : ℤ) ≤ e.sendWindow ∧
        ∃ st, e.streams header.streamID = some st ∧ (payload.length : ℤ) ≤ st.sendWindow
  | _ => True

theorem fits_of_dataOctets (h : o.dataOctets = 0) : e.Fits o := by
  cases o with
  | sent header payload =>
    intro ht hne
    simp only [Obs.dataOctets, ht, if_true] at h
    exact absurd (eq_nil_of_length_eq_zero h) hne
  | _ => trivial

/-- The entries of a history from position `n` on. -/
theorem forall_drop_append {history l : List Obs} (hn : n ≤ history.length)
    (h : ∀ o ∈ history.drop n, P o) (hl : ∀ o ∈ l, P o) :
    ∀ o ∈ (history ++ l).drop n, P o := by
  rw [drop_append_of_le_length hn]
  exact forall_mem_append.2 ⟨h, hl⟩

/-- A change adds DATA frames that fit the windows the action has found. Only a call adds any. -/
theorem Step.added (hs : Step a e₀ e e') : ∃ l, e'.history = e.history ++ l ∧
    ∀ o ∈ l, e₀.Fits o ∧ ((∀ call, a ≠ .call call) → o.dataOctets = 0) := by
  have key : ∀ {o : Obs}, o.dataOctets = 0 → ∀ o' ∈ [o],
      e₀.Fits o' ∧ ((∀ call, a ≠ .call call) → o'.dataOctets = 0) := fun h o' ho' => by
    rw [mem_singleton.1 ho']
    exact ⟨fits_of_dataOctets h, fun _ => h⟩
  cases hs with
  | @note o ho =>
    refine ⟨[o], rfl, key ?_⟩
    cases o with
    | sent header payload => exact dataOctets_of_noted ho
    | _ => rfl
  | @sendData id st body header payload ha he hst _ hconn hstream _ hid =>
    refine ⟨[.sent header payload], rfl, fun o ho => ?_⟩
    rw [mem_singleton.1 ho]
    obtain ⟨src, endStream, rfl⟩ := ha
    subst he
    exact ⟨fun _ _ => ⟨hconn, st, hid ▸ hst, hstream⟩, fun h => absurd rfl (h _)⟩
  | openPeer | openLocal | raise | raiseStream | overflow | fail | failAdjusted =>
    exact ⟨[_], rfl, key rfl⟩
  | @failRaise id n err =>
    refine ⟨[.received (.windowUpdate id n), .failed err], by simp [Endpoint.note],
      fun o ho => ?_⟩
    rcases mem_pair.1 ho with rfl | rfl <;> exact ⟨trivial, fun _ => rfl⟩
  | goAway ht => exact ⟨[_], rfl, key (by simp only [Obs.dataOctets, ht]; rfl)⟩
  | _ => exact ⟨[], by simp [set], by simp⟩

theorem Steps.added (h : Steps a e₀ e e') (hn : n ≤ e.history.length)
    (he : ∀ o ∈ e.history.drop n, P o)
    (hP : ∀ o, e₀.Fits o ∧ ((∀ call, a ≠ .call call) → o.dataOctets = 0) → P o) :
    n ≤ e'.history.length ∧ ∀ o ∈ e'.history.drop n, P o := by
  refine h.invariant (I := fun e => n ≤ e.history.length ∧ ∀ o ∈ e.history.drop n, P o)
    (fun hs hI => ?_) ⟨hn, he⟩
  obtain ⟨l, heq, hl⟩ := hs.added
  rw [heq]
  exact ⟨by simp; omega, forall_drop_append hI.1 hI.2 fun o ho => hP o (hl o ho)⟩

end Endpoint

namespace Session

open Endpoint

variable {X : Externals} {s : Session X}

/-- **Every DATA frame fits the windows that the operation has found.** -/
theorem fits_added (h : s.WellFormed ∧ s.Sound) (o : Op) : ∀ x ∈ s.added o, s.endpoint.Fits x := by
  obtain ⟨hg, -⟩ := guarded_opActions o h
  unfold added
  cases o with
  | call call =>
    exact (Steps.added (h.1.reaches (a := .call call) trivial) le_rfl (by simp)
      fun x hx => hx.1).2
  | feed src =>
    rw [expands_opActions s (.feed src)]
    have hcalls : Guarded act (fun _ a => ∀ call, a ≠ .call call) s (s.opActions (.feed src)) :=
      guarded_of_forall fun a ha => mem_feedActions ha
    refine fun x hx => fits_of_dataOctets (?_ : x.dataOctets = 0)
    have key := (hg.and hcalls).invariant (I := fun t => t.WellFormed ∧
      s.history.length ≤ t.history.length ∧
        ∀ x ∈ t.history.drop s.history.length, x.dataOctets = 0) (fun t a ht ha => ?_)
      ⟨h.1, le_rfl, by simp⟩
    · exact key.2.2 x hx
    · exact ⟨ht.1.act ha.1, Steps.added (ht.1.reaches ha.1) ht.2.1 ht.2.2 fun x hx => hx.2 ha.2⟩

theorem sendLedger_newSession {role : Role} {limits : SessionLimits}
    (h : newSession X role limits = .ok s) : s.endpoint.SendLedger := by
  obtain ⟨output, header, payload, ht, rfl⟩ := newSession_ok h
  have hne : ∀ id, (Obs.sent header payload).dataOctetsOn id = 0 := fun id => by
    simp only [Obs.dataOctetsOn, ht]
    rfl
  refine ⟨?_, by simp [endpoint, init], by simp [endpoint, init, maxInt32],
    by simp [endpoint, init, maxInt32], fun id st hst => ?_, fun id _ => ?_⟩
  · simp only [endpoint, init, total_singleton, Obs.credit, Obs.dataOctets, ht]
    rfl
  · exact absurd hst (by simp [endpoint, stream?, init])
  · simp [endpoint, hne]

/-- Unless the session fails, its send windows agree with its history. -/
theorem sendLedger_act {a : Action} (hw : s.WellFormed) (ha : s.Allows a)
    (h : s.endpoint.failed = false → s.endpoint.SendLedger) :
    (s.act a).endpoint.failed = false → (s.act a).endpoint.SendLedger :=
  ((hw.reaches ha).invariant
    (I := fun e => e.IdSpace ∧ (e.failed = false → e.SendLedger))
    (fun hs he => ⟨IdSpace.step hs he.1, SendLedger.step hs he.1 he.2⟩) ⟨hw.ids, h⟩).2

/-- **The send windows of a session.** Unless the session has failed, the window of the connection
and those of the open streams are what was granted minus what was sent, and they are in range. A
DATA frame that carries data fits both windows when it is sent. -/
theorem sendWindows_eq_ledger {role : Role} {limits : SessionLimits} {s₀ : Session X}
    (hnew : newSession X role limits = .ok s₀) (ops : List Op) :
    ((s₀.run ops).failed = none →
      ((s₀.run ops).connectionSendWindow =
          65535 + total (Obs.credit 0) (s₀.run ops).history -
            total Obs.dataOctets (s₀.run ops).history ∧
        0 ≤ (s₀.run ops).connectionSendWindow ∧
        (s₀.run ops).connectionSendWindow ≤ 2 ^ 31 - 1) ∧
      ∀ id st, (s₀.run ops).stream? id = some st → st.state ≠ .closed →
        st.sendWindow =
            (s₀.run ops).peerInitialWindow +
              total (Obs.credit id) (since (.opened id) (s₀.run ops).history) -
              total (Obs.dataOctetsOn id) (s₀.run ops).history ∧
          -2 ^ 31 ≤ st.sendWindow ∧ st.sendWindow ≤ 2 ^ 31 - 1) ∧
    ∀ o header payload, .sent header payload ∈ (s₀.run ops).added o → header.type = .data →
      payload ≠ [] →
      (payload.length : ℤ) ≤ (s₀.run ops).connectionSendWindow ∧
        ∃ st, (s₀.run ops).stream? header.streamID = some st ∧
          (payload.length : ℤ) ≤ st.sendWindow := by
  refine ⟨fun hf => ?_, fun o header payload hsent => fits_added (sound_run hnew ops) o _ hsent⟩
  have hledger : (s₀.run ops).endpoint.failed = false → (s₀.run ops).endpoint.SendLedger :=
    run_always (I := fun s => s.endpoint.failed = false → s.endpoint.SendLedger) hnew
      (fun _ => sendLedger_newSession hnew) (fun s a hw ha h => sendLedger_act hw ha h) ops
  have h := hledger (by simp [endpoint, hf])
  refine ⟨⟨h.eq, h.nonneg, h.le⟩, fun id st hst hne => ?_⟩
  have hstream := h.stream id st hst hne
  exact ⟨hstream.eq, hstream.ge, hstream.le⟩

/-- The SETTINGS frame of a peer that changes SETTINGS_INITIAL_WINDOW_SIZE. -/
def windowSettings (size : ℕ) : Bytes :=
  frameBytes .settings 0 0 (putUint16 4 ++ putUint32 size)

/-- A client opens a stream and sends an octet on it. -/
def octetSent : List Op :=
  [.feed (windowSettings 10), .call (.openStream getRequest false),
    .call (.sendData 1 [0] false)]

/-- A client sends an octet on a stream and is granted five more. -/
theorem sendWindows_eq_ledger_client :
    ∃ s₀, newSession externals .client {} = .ok s₀ ∧
      let s := s₀.run (octetSent ++ [.feed (frameBytes .windowUpdate 0 1 (putUint32 5))])
      s.failed = none ∧ (s.stream? 1).map (·.sendWindow) = some 14 ∧
        s.connectionSendWindow =
          65535 + total (Obs.credit 0) s.history - total Obs.dataOctets s.history := by
  obtain ⟨s₀, hnew, hf, hst⟩ := exists_newSession (X := externals) (r := .client)
    (l := {}) (p := fun s₀ =>
      let s := s₀.run (octetSent ++ [.feed (frameBytes .windowUpdate 0 1 (putUint32 5))])
      s.failed = none ∧ (s.stream? 1).map (·.sendWindow) = some 14) (by decide +kernel)
  exact ⟨s₀, hnew, hf, hst, ((sendWindows_eq_ledger hnew _).1 hf).1.1⟩

/-- The empty DATA frame that ends a stream is sent whatever the windows are: here the window of
the stream is `-1`, because the peer has lowered its initial window after an octet was sent. -/
theorem emptyData_exceeds_window :
    ∃ s₀, newSession externals .client {} = .ok s₀ ∧
      let s := s₀.run (octetSent ++ [.feed (windowSettings 0)])
      s.failed = none ∧ ∃ header payload st,
        .sent header payload ∈ s.added (.call (.sendData 1 [] true)) ∧ header.type = .data ∧
          s.stream? header.streamID = some st ∧ st.sendWindow < payload.length := by
  obtain ⟨s₀, hnew, hf, hsent, hst⟩ := exists_newSession (X := externals) (r := .client)
    (l := {}) (p := fun s₀ =>
      let s := s₀.run (octetSent ++ [.feed (windowSettings 0)])
      s.failed = none ∧
        .sent { type := .data, flags := .endStream, streamID := 1 } [] ∈
          s.added (.call (.sendData 1 [] true)) ∧
        (s.stream? 1).any (·.sendWindow < 0) = true) (by decide +kernel)
  obtain ⟨st, hst, hlt⟩ := Option.any_eq_true .. |>.1 hst
  exact ⟨s₀, hnew, hf, _, [], st, hsent, rfl, hst, of_decide_eq_true hlt⟩

end Session

end WagoHttp.Http2
