import WagoHttp.Foundations.Ledger
import WagoHttp.Http2.Session.Run

/-!
# The ledger of received data

The receive windows of a session should be what its history says: the initial window, minus the
octets of the DATA frames received, plus the increments of the WINDOW_UPDATE frames sent. This
holds in the runs in which every DATA frame comes on a stream that takes it, within its window, and
in which there is room for the updates that are due (`RecvCondition`). Elsewhere it fails: a DATA
frame that ends in a stream error is not charged, and an update that does not fit the output is
credited all the same.
-/

namespace WagoHttp.Http2

open Ledger Runs Endpoint SmallHpack

/-- The length of a DATA frame received. -/
def Obs.dataReceived : Obs → ℕ
  | .received (.frameBegin header) => if header.type = .data then header.length else 0
  | _ => 0

/-- The length of a DATA frame received on a stream. -/
def Obs.dataReceivedOn (id : ℕ) : Obs → ℕ
  | .received (.frameBegin header) =>
    if header.type = .data ∧ header.streamID = id then header.length else 0
  | _ => 0

/-- The increment of a WINDOW_UPDATE frame sent on a stream, or on the connection for `0`. -/
def Obs.granted (id : ℕ) : Obs → ℕ
  | .sent header payload =>
    if header.type = .windowUpdate ∧ header.streamID = id then beNat payload else 0
  | _ => 0

theorem Obs.dataReceivedOn_le (id : ℕ) (o : Obs) : o.dataReceivedOn id ≤ o.dataReceived := by
  unfold dataReceivedOn dataReceived
  split
  · split_ifs with h h'
    · exact le_rfl
    · exact absurd h.1 h'
    · exact Nat.zero_le _
    · exact le_rfl
  · exact Nat.zero_le _

namespace Endpoint

variable {X : Externals} {a : Action} {e₀ e e' : Endpoint X}

/-- A window of 65535 octets of which some have been used and some have been given back. -/
structure Account (window : ℤ) (used granted : ℕ) : Prop where
  eq : window = 65535 - used + granted
  nonneg : 0 ≤ window
  le : window ≤ 65535

variable {window : ℤ} {used n id : ℕ} {st : Stream} {header : FrameHeader} {payload : Bytes}

theorem Account.charge {granted : ℕ} (h : Account window used granted) (hn : (n : ℤ) ≤ window) :
    Account (window - n) (used + n) granted := by
  have heq := h.eq
  have hle := h.le
  exact ⟨by push_cast; omega, by omega, by omega⟩

theorem Account.grant {granted : ℕ} (h : Account window used granted)
    (hn : (n : ℤ) = 65535 - window) : Account 65535 used (granted + n) := by
  have heq := h.eq
  exact ⟨by push_cast; omega, by omega, by omega⟩

/-- What the history says about the receive windows. -/
structure RecvLedger (e : Endpoint X) : Prop where
  initial : e.localInitial = 65535
  connection : Account e.recvWindow (total Obs.dataReceived e.history)
    (total (Obs.granted 0) e.history)
  stream : ∀ id st, e.streams id = some st → st.state ≠ .closed →
    Account st.recvWindow (total (Obs.dataReceivedOn id) e.history)
      (total (Obs.granted id) e.history)
  unopened : ∀ id, id ≠ 0 → .opened id ∉ e.history →
    total (Obs.dataReceivedOn id) e.history = 0 ∧ total (Obs.granted id) e.history = 0

/-- An entry that neither receives data nor grants anything. -/
theorem RecvLedger.note {o : Obs} (h : e.RecvLedger) (hd : o.dataReceived = 0)
    (hg : ∀ id, o.granted id = 0) : (e.note o).RecvLedger := by
  have hd' : ∀ id, o.dataReceivedOn id = 0 := fun id =>
    Nat.eq_zero_of_le_zero (hd ▸ o.dataReceivedOn_le id)
  refine ⟨h.initial, ?_, fun id st hst hne => ?_, fun id hz hid => ?_⟩
  · simpa [Endpoint.note, hd, hg] using h.connection
  · simpa [Endpoint.note, hd', hg] using h.stream id st hst hne
  · have := h.unopened id hz fun hmem => hid (mem_note.2 (.inl hmem))
    simpa [Endpoint.note, hd', hg] using this

/-- Streams that have kept their windows or have been closed. -/
theorem RecvLedger.of_streams {streams : ℕ → Option Stream} (h : e.RecvLedger)
    (hs : ∀ id st', streams id = some st' → st'.state ≠ .closed →
      ∃ st, e.streams id = some st ∧ st.state ≠ .closed ∧ st'.recvWindow = st.recvWindow) :
    RecvLedger { e with streams } := by
  refine ⟨h.initial, h.connection, fun id st' hst' hne => ?_, h.unopened⟩
  obtain ⟨st, hst, hne', heq⟩ := hs id st' hst' hne
  exact heq ▸ h.stream id st hst hne'

theorem RecvLedger.set {x : Option Stream} (h : e.RecvLedger) (hst : e.streams id = some st)
    (hx : ∀ st', x = some st' → st'.state ≠ .closed →
      st.state ≠ .closed ∧ st'.recvWindow = st.recvWindow) : (e.set id x).RecvLedger :=
  h.of_streams <| forall_update (fun st' hst' hne => ⟨st, hst, hx st' hst' hne⟩)
    fun _ _ st' hst' hne => ⟨st', hst', hne, rfl⟩

/-- A stream that has just been opened. -/
theorem RecvLedger.opens {isLocal : Bool} (h : e.RecvLedger) (hz : id ≠ 0)
    (hnew : .opened id ∉ e.history) (hst : Fresh e st isLocal) :
    ((e.set id (some st)).note (.opened id)).RecvLedger := by
  refine ⟨h.initial, ?_, forall_update ?_ fun id' _ st' hst' hne => ?_, fun id' hz' hid' => ?_⟩
  · simpa [Endpoint.note, Endpoint.set, Obs.dataReceived, Obs.granted] using h.connection
  · rintro st' ⟨⟩ -
    obtain ⟨hd, hg⟩ := h.unopened id hz hnew
    constructor <;> simp [Endpoint.note, Endpoint.set, Obs.dataReceivedOn, Obs.granted, hd, hg,
      hst.recvWindow, h.initial]
  · simpa [Endpoint.note, Endpoint.set, Obs.dataReceivedOn, Obs.granted] using
      h.stream id' st' hst' hne
  · have := h.unopened id' hz' fun hmem => hid' (mem_note.2 (.inl hmem))
    simpa [Endpoint.note, Endpoint.set, Obs.dataReceivedOn, Obs.granted] using this

/-- A DATA frame is received and charged. -/
theorem RecvLedger.charge (h : e.RecvLedger) (hid : e.IdSpace) (hst : e.streams id = some st)
    (hne : st.state ≠ .closed) (hconn : (header.length : ℤ) ≤ e.recvWindow)
    (hstream : (header.length : ℤ) ≤ st.recvWindow) (ht : header.type = .data)
    (hs : header.streamID = id) :
    (({ e with recvWindow := e.recvWindow - header.length }.set id
      (some { st with recvWindow := st.recvWindow - header.length })).note
        (.received (.frameBegin header))).RecvLedger := by
  refine ⟨h.initial, ?_, forall_update ?_ fun id' heq st' hst' hne' => ?_, fun id' hz hid' => ?_⟩
  · simpa [Endpoint.note, Endpoint.set, Obs.dataReceived, Obs.granted, ht] using
      h.connection.charge hconn
  · rintro st' ⟨⟩ -
    simpa [Endpoint.note, Endpoint.set, Obs.dataReceivedOn, Obs.granted, ht, hs] using
      (h.stream id st hst hne).charge hstream
  · simpa [Endpoint.note, Endpoint.set, Obs.dataReceivedOn, Obs.granted, hs, heq.symm] using
      h.stream id' st' hst' hne'
  · have hne'' : header.streamID ≠ id' := fun heq => hid' <|
      mem_note.2 (.inl ((heq.symm.trans hs) ▸ (hid.opened id st hst).1))
    have := h.unopened id' hz fun hmem => hid' (mem_note.2 (.inl hmem))
    simpa [Endpoint.note, Endpoint.set, Obs.dataReceivedOn, Obs.granted, hne''] using this

/-- A change that an action makes without touching the receive windows. -/
theorem RecvLedger.step (hs : Step a e₀ e e') (hm : ¬a.movesRecv)
    (h : e.failed = false → e.RecvLedger) (hf' : e'.failed = false) : e'.RecvLedger := by
  cases hs with
  | @note o ho =>
    refine (h hf').note ?_ fun id => ?_
    · unfold Obs.dataReceived
      split
      · next header =>
        split_ifs with ht
        · exact absurd (by rw [ho.1]; exact ht) hm
        · rfl
      · rfl
    · unfold Obs.granted
      split
      · next header payload =>
        split_ifs with ht
        · rcases ho with ho | ⟨ho, -⟩ | ⟨-, ho⟩ | ⟨ho, -⟩
          · rcases ho with ho | ho | ho | ho <;> exact absurd (ht.1.symm.trans ho) (by decide)
          · rcases ho with ho | ho | ho <;> exact absurd (ht.1.symm.trans ho) (by decide)
          · exact absurd ho.1 hm
          · exact absurd (ht.1.symm.trans ho) (by decide)
        · rfl
      · rfl
  | stream hst ht =>
    exact (h hf').set hst fun st' hx hne => ⟨((ht st' hx).2 hne).1, ((ht st' hx).2 hne).2.2⟩
  | openPeer _ hid _ hnew hst =>
    have h' := (h hf').opens (by omega) hnew hst
    exact ⟨h'.1, h'.2, h'.3, h'.4⟩
  | openLocal _ _ _ hz _ hnew hst => exact (h hf').opens hz hnew hst
  | @sendData id st body header payload _ _ hst _ _ _ ht =>
    have h' : (e.set id (some { st with
        sendWindow := st.sendWindow - payload.length, sendBody := body })).RecvLedger :=
      (h hf').set hst (by rintro st' ⟨⟩ hc; exact ⟨hc, rfl⟩)
    refine RecvLedger.note ?_ rfl fun id => ?_
    · exact ⟨h'.1, h'.2, h'.3, h'.4⟩
    · simp only [Obs.granted, ht]
      rfl
  | raise =>
    refine RecvLedger.note ?_ rfl fun _ => rfl
    have h' := h hf'
    exact ⟨h'.1, h'.2, h'.3, h'.4⟩
  | raiseStream _ _ _ hst =>
    exact ((h hf').set hst (by rintro st' ⟨⟩ hc; exact ⟨hc, rfl⟩)).note rfl fun _ => rfl
  | overflow _ _ _ hst =>
    exact ((h hf').set hst (by rintro st' ⟨⟩ hc; exact absurd rfl hc)).note rfl fun _ => rfl
  | recvWindow ha | streamRecv ha => exact absurd ha hm
  | localInitial ha =>
    obtain ⟨settings, rfl⟩ := ha
    exact absurd trivial hm
  | @peerInitial v =>
    have h' : RecvLedger { e with
        streams := fun id => (e.streams id).map (adjustSend (v - e.peerInitial)) } := by
      refine (h hf').of_streams fun id st' hst' hne => ?_
      obtain ⟨st, hst, rfl⟩ := Option.map_eq_some_iff.1 hst'
      unfold adjustSend at hne ⊢
      split_ifs at hne ⊢ with hc
      · exact absurd hc hne
      · exact ⟨st, hst, hc, rfl⟩
    exact ⟨h'.1, h'.2, h'.3, h'.4⟩
  | fail | failAdjusted | failRaise => exact absurd hf' (by simp [Endpoint.note])
  | goAway ht =>
    refine (h hf').note rfl fun id => ?_
    simp only [Obs.granted, ht]
    rfl
  | closeAll =>
    have h' : RecvLedger { e with streams := fun _ => none } := (h hf').of_streams (by simp)
    exact ⟨h'.1, h'.2, h'.3, h'.4⟩
  | _ =>
    have h' := h hf'
    exact ⟨h'.1, h'.2, h'.3, h'.4⟩

/-- The update that gives back what has been used of the connection window. -/
theorem RecvLedger.grant (h : e.RecvLedger) (hid : e.IdSpace) (ht : header.type = .windowUpdate)
    (hs : header.streamID = 0) (hp : (beNat payload : ℤ) = 65535 - e.recvWindow) :
    ({ e with recvWindow := 65535 }.note (.sent header payload)).RecvLedger := by
  refine ⟨h.initial, ?_, fun id st hst hne => ?_, fun id hz hopen => ?_⟩
  · simpa [Endpoint.note, Obs.dataReceived, Obs.granted, ht, hs] using h.connection.grant hp
  · have hz : 0 ≠ id := (hid.ne_zero id (hid.opened id st hst).1).symm
    simpa [Endpoint.note, Obs.dataReceivedOn, Obs.granted, hs, hz] using h.stream id st hst hne
  · have := h.unopened id hz fun hmem => hopen (mem_note.2 (.inl hmem))
    simpa [Endpoint.note, Obs.dataReceivedOn, Obs.granted, hs, hz.symm] using this

/-- An update of the window of a stream. If the stream is open, it gives back what has been used. -/
theorem RecvLedger.grantStream {w : ℤ} (h : e.RecvLedger) (hid : e.IdSpace)
    (hst : e.streams id = some st) (ht : header.type = .windowUpdate) (hs : header.streamID = id)
    (hp : st.state ≠ .closed → w = 65535 ∧ (beNat payload : ℤ) = 65535 - st.recvWindow) :
    ((e.set id (some { st with recvWindow := w })).note (.sent header payload)).RecvLedger := by
  have hopened := (hid.opened id st hst).1
  have hz : id ≠ 0 := hid.ne_zero id hopened
  refine ⟨h.initial, ?_, forall_update ?_ fun id' heq st' hst' hne => ?_, fun id' hz' hopen => ?_⟩
  · simpa [Endpoint.note, Endpoint.set, Obs.dataReceived, Obs.granted, hs, hz] using h.connection
  · rintro st' ⟨⟩ hne
    obtain ⟨rfl, hp'⟩ := hp hne
    simpa [Endpoint.note, Endpoint.set, Obs.dataReceivedOn, Obs.granted, ht, hs] using
      (h.stream id st hst hne).grant hp'
  · simpa [Endpoint.note, Endpoint.set, Obs.dataReceivedOn, Obs.granted, hs, heq.symm] using
      h.stream id' st' hst' hne
  · have heq : id ≠ id' := fun heq => hopen (mem_note.2 (.inl (heq ▸ hopened)))
    have := h.unopened id' hz' fun hmem => hopen (mem_note.2 (.inl hmem))
    simpa [Endpoint.note, Endpoint.set, Obs.dataReceivedOn, Obs.granted, hs, heq] using this

end Endpoint

namespace Session

open Endpoint

variable {X : Externals} {s s' : Session X}

/-! ## The condition -/

/-- The octets of the update that is due when a window stands at `window`. -/
def updateOctets (s : Session X) (window : ℤ) : ℕ := if s.updateDue window then 13 else 0

/-- A DATA frame begins only on a stream that takes it, and within the window of the stream; when
it ends, there is room for the updates that are due. -/
def RecvCondition (s : Session X) : Action → Prop
  | .deliver (.frameBegin header) =>
    header.type = .data → s.TakesData header
  | .deliver (.frameComplete header) =>
    header.type = .data → ∀ st ∈ s.stream? header.streamID,
      s.reserveOutput (s.updateOctets s.connectionRecvWindow + s.updateOctets st.recvWindow) = true
  | _ => True

instance (s : Session X) (a : Action) : Decidable (s.RecvCondition a) := by
  induction a using Action.casesOn with
  | deliver call =>
    induction call using Callback.casesOn <;> (dsimp only [RecvCondition]; infer_instance)
  | _ => exact .isTrue trivial

/-- The ledger of a session that has not failed. -/
def RecvBalanced (s : Session X) : Prop := s.failed = none → s.endpoint.RecvLedger

theorem recvBalanced_of_reaches {a : Action} (hm : ¬a.movesRecv)
    (h : Reaches a s.endpoint s s') (hs : s.RecvBalanced) : s'.RecvBalanced := by
  have key := h.invariant (I := fun e => e.failed = false → e.RecvLedger)
    (fun hstep he => RecvLedger.step hstep hm he) (fun hf => hs (by simpa [endpoint] using hf))
  exact fun hf => key (by simp [endpoint, hf])

theorem ne_closed_of_canReceive {state : StreamState} (h : canReceive state = true) :
    state ≠ .closed := by
  rintro rfl
  exact absurd h (by decide)

variable {header : FrameHeader} {window : ℤ}

/-- A DATA frame that begins under the condition is charged to both windows. -/
theorem recvBalanced_frameBegin (hw : s.WellFormed) (hs : s.RecvBalanced) (ht : header.type = .data)
    (hok : s.RecvCondition (.deliver (.frameBegin header))) :
    (s.deliver (.frameBegin header)).RecvBalanced := by
  obtain ⟨st, hst, hcan, hhead, htrail, hbody, hlen⟩ := hok ht
  intro hf
  change (onFrameBegin (s.note _) header).failed = none at hf
  obtain ⟨hf', -, heq⟩ := onFrameBegin_ok hf
  change (onFrameBegin (s.note (.received (.frameBegin header))) header).endpoint.RecvLedger
  have hrefuse : ¬(!canReceive st.state || !st.receivedHeaders || st.receivedTrailers ||
      st.receiveNoBody) = true := by simp [hcan, hhead, htrail, hbody]
  rw [heq ht] at hf ⊢
  unfold chargeData at hf ⊢
  rw [show stream? { s.note (.received (.frameBegin header)) with currentFrame := header }
    header.streamID = some st from hst] at hf ⊢
  simp only [if_neg hrefuse] at hf ⊢
  split at hf
  · exact absurd hf (failed_connectionError _ _ _)
  next hconn =>
  rw [if_neg hconn, if_neg (not_lt.2 hlen), endpoint_setStream]
  exact (hs hf').charge hw.ids hst (ne_closed_of_canReceive hcan) (not_lt.1 hconn) hlen ht rfl

/-! ## Updates -/

/-- There is room for a WINDOW_UPDATE frame. -/
theorem appendWindowUpdate_ok {id increment : ℕ} (hroom : s.reserveOutput 13 = true)
    (hpos : increment ≠ 0) (hle : increment ≤ maxInt32) (hid : id < 2 ^ 31) :
    ∃ output, output.length = s.output.length + 13 ∧
      (s.appendWindowUpdate id increment).1 =
        { s with output }.note (.sent { type := .windowUpdate, streamID := id, length := 4 }
          (putUint32 increment)) := by
  have hv : validateFrameHeader { type := .windowUpdate, streamID := id, length := 4 } = .none := by
    simp only [validateFrameHeader]
    rfl
  unfold appendWindowUpdate
  rw [if_neg (by omega), appendFrameEvenFailed_ok { type := .windowUpdate, streamID := id }
    (putUint32 increment) hroom (by simp; decide) rfl (by change id ≤ 2147483647; omega) hv]
  exact ⟨_, by simp [frameHeaderBytes], rfl⟩

/-- The increment that tops up a window. -/
theorem increment_spec (hnonneg : 0 ≤ window) (hlt : 65535 - window > 0) :
    (65535 - window).toNat % 2 ^ 32 ≠ 0 ∧ (65535 - window).toNat % 2 ^ 32 ≤ maxInt32 ∧
      (beNat (putUint32 ((65535 - window).toNat % 2 ^ 32)) : ℤ) = 65535 - window := by
  rw [beNat_putUint32 (Nat.mod_lt _ (by norm_num))]
  simp only [maxInt32]
  omega

theorem initialWindow_of_ledger (h : s.endpoint.RecvLedger) :
    (s.limits.initialWindowSize.toNat : ℤ) = 65535 := by
  exact_mod_cast h.initial

theorem lt_of_updateDue (hinit : (s.limits.initialWindowSize.toNat : ℤ) = 65535)
    (h : s.updateDue window = true) : 65535 - window > 0 := by
  simp only [updateDue, Bool.and_eq_true, decide_eq_true_eq, hinit] at h
  exact h.2

/-- The connection window is topped up, and the update is recorded. -/
theorem recvLedger_creditConnection (hid : s.endpoint.IdSpace) (hs : s.endpoint.RecvLedger)
    (hroom : s.reserveOutput (s.updateOctets s.connectionRecvWindow) = true) :
    s.creditConnection.endpoint.RecvLedger ∧
      s.creditConnection.output.length ≤
        s.output.length + s.updateOctets s.connectionRecvWindow := by
  unfold updateOctets at hroom ⊢
  unfold creditConnection
  simp only
  split_ifs at hroom ⊢ with hdue
  · have hcast := initialWindow_of_ledger hs
    have hnonneg : 0 ≤ s.connectionRecvWindow := hs.connection.nonneg
    obtain ⟨hpos, hle, hp⟩ := increment_spec hnonneg (lt_of_updateDue hcast hdue)
    obtain ⟨output, hlen, heq⟩ :=
      appendWindowUpdate_ok hroom hpos hle (show 0 < 2 ^ 31 by norm_num)
    have hsum : s.connectionRecvWindow + (65535 - s.connectionRecvWindow) = 65535 := by omega
    rw [hcast, heq]
    simp only [note, hsum]
    exact ⟨hs.grant hid rfl rfl hp, hlen.le⟩
  · exact ⟨hs, le_rfl⟩

/-- The window of a stream is topped up, and the update is recorded. -/
theorem recvLedger_creditStream {id : ℕ} {st : Stream} (hid : s.endpoint.IdSpace)
    (hs : s.endpoint.RecvLedger) (hst : s.stream? id = some st) (hlt : id < 2 ^ 31)
    (hroom : s.reserveOutput (s.updateOctets st.recvWindow) = true) :
    (s.creditStream id st).endpoint.RecvLedger := by
  unfold updateOctets at hroom
  unfold creditStream
  simp only
  split_ifs at hroom ⊢ with hdue
  · have hcast := initialWindow_of_ledger hs
    rw [hcast, endpoint_setStream]
    by_cases hc : st.state = .closed
    · obtain ⟨output, heq | heq⟩ := appendWindowUpdate_cases s id
        ((65535 - st.recvWindow).toNat % 2 ^ 32)
      · rw [heq]
        exact hs.set hst (by rintro st' ⟨⟩ hne; exact absurd hc hne)
      · rw [heq]
        exact hs.grantStream hid hst rfl rfl fun hne => absurd hc hne
    · obtain ⟨hpos, hle, hp⟩ := increment_spec (hs.stream id st hst hc).nonneg
        (lt_of_updateDue hcast hdue)
      obtain ⟨output, -, heq⟩ := appendWindowUpdate_ok hroom hpos hle hlt
      rw [heq]
      exact hs.grantStream hid hst rfl rfl fun _ => ⟨by omega, hp⟩
  · exact hs

/-- The end of a DATA frame: the updates that are due are sent, and the stream may end. -/
theorem recvBalanced_completeData (hid : s.endpoint.IdSpace) (hs : s.RecvBalanced)
    (hf : s.failed = none) (hlt : header.streamID < 2 ^ 31)
    (hroom : ∀ st, s.stream? header.streamID = some st → s.reserveOutput
      (s.updateOctets s.connectionRecvWindow + s.updateOctets st.recvWindow) = true) :
    (s.completeData header).RecvBalanced := by
  unfold completeData
  split
  · exact hs
  next st hst =>
  have hroom' := hroom st hst
  obtain ⟨hl1, hlen⟩ := recvLedger_creditConnection hid (hs hf)
    (reserveOutput_mono hroom' (by positivity) (by simp))
  obtain ⟨hst1, hf1, hlimits, hh1⟩ := s.creditConnection_frame
  have hr1 : Reaches (.deliver (.frameComplete { type := .data })) s.endpoint s
      s.creditConnection := reaches_creditConnection rfl rfl
  have hid1 : s.creditConnection.endpoint.IdSpace := hr1.invariant IdSpace.step hid
  simp only
  generalize s.creditConnection = t at hl1 hlen hst1 hf1 hh1 hlimits hid1
  have hst1 : t.stream? header.streamID = some st := by
    rw [stream?, hst1]
    exact hst
  have hroom1 : t.reserveOutput (t.updateOctets st.recvWindow) = true := by
    have hsame : t.updateOctets st.recvWindow = s.updateOctets st.recvWindow := by
      unfold updateOctets updateDue
      rw [hlimits]
    simp only [reserveOutput, decide_eq_true_eq, hlimits, hsame] at hroom' ⊢
    omega
  have hl2 := recvLedger_creditStream hid1 hl1 hst1 hlt hroom1
  obtain ⟨hf2, hh2⟩ := t.creditStream_frame header.streamID st
  generalize t.creditStream header.streamID st = u at hl2 hf2 hh2
  split
  · have hopen : .opened header.streamID ∈ u.history :=
      hh2 _ (hh1 _ (hid.opened header.streamID st hst).1)
    exact recvBalanced_of_reaches (a := .deliver (.headerBlockEnd 0 true)) (fun h => h)
      (reaches_remoteEnd (.inr (.inr ⟨_, _, rfl⟩)) hopen (hf2.trans (hf1.trans hf)))
      fun _ => hl2
  · exact fun _ => hl2

theorem recvBalanced_frameComplete (hw : s.WellFormed) (hs : s.RecvBalanced)
    (ht : header.type = .data) (ha : s.Allows (.deliver (.frameComplete header)))
    (hok : s.RecvCondition (.deliver (.frameComplete header))) :
    (s.deliver (.frameComplete header)).RecvBalanced := by
  have hs1 : ((s.note (.received (.frameComplete header))).countFrame header).RecvBalanced :=
    fun hf => (hs hf).note rfl fun _ => rfl
  have hid1 : ((s.note (.received (.frameComplete header))).countFrame header).endpoint.IdSpace :=
    hw.ids.note (by simp)
  unfold deliver handle onFrameComplete
  simp only
  split
  · next hf => exact fun hf' => absurd hf' hf
  next hf =>
  split
  · exact fun hf' => absurd hf' (failed_connectionError _ _ _)
  exact recvBalanced_completeData hid1 hs1 (not_not.1 hf) (hw.frame header ha).2 (hok ht)

/-- **What the condition keeps**: the receive windows of a session that has not failed agree with
its history. -/
theorem recvBalanced_act {a : Action} (hw : s.WellFormed) (ha : s.Allows a) (hs : s.RecvBalanced)
    (hcall : ∀ settings, a ≠ .call (.updateSettings settings)) (hok : s.RecvCondition a) :
    (s.act a).RecvBalanced := by
  by_cases hm : a.movesRecv
  · match a, hm with
    | .deliver (.frameBegin header), ht => exact recvBalanced_frameBegin hw hs ht hok
    | .deliver (.frameComplete header), ht => exact recvBalanced_frameComplete hw hs ht ha hok
    | .call (.updateSettings settings), _ => exact absurd rfl (hcall settings)
  · exact recvBalanced_of_reaches hm (hw.reaches ha) hs

theorem recvBalanced_newSession {role : Role} {limits : SessionLimits}
    (hlimits : limits.normalized.initialWindowSize = 65535)
    (h : newSession X role limits = .ok s) : s.RecvBalanced := by
  obtain ⟨output, header, payload, ht, rfl⟩ := newSession_ok h
  have hg : ∀ id, (Obs.sent header payload).granted id = 0 := fun id => by
    simp only [Obs.granted, ht]
    rfl
  refine fun _ => ⟨?_, ?_, fun id st hst => ?_, fun id _ _ => ?_⟩
  · simp [endpoint, init, hlimits]
  · simp only [endpoint, init, hlimits, total_singleton, hg, Obs.dataReceived]
    exact ⟨rfl, by decide, by decide⟩
  · exact absurd hst (by simp [endpoint, stream?, init])
  · simp [endpoint, hg, Obs.dataReceivedOn]

/-- **The receive windows of a session.** In a run whose actions meet `RecvCondition`, the window of
the connection and those of the open streams are what was granted minus what was received, unless
the session has failed. -/
theorem recvWindows_eq_ledger {role : Role} {limits : SessionLimits} {s₀ : Session X}
    (hlimits : limits.normalized.initialWindowSize = 65535)
    (hnew : newSession X role limits = .ok s₀) {ops : List Op}
    (hops : ∀ settings, .call (.updateSettings settings) ∉ ops)
    (hok : Meets RecvCondition s₀ ops) (hf : (s₀.run ops).failed = none) :
    (s₀.run ops).connectionRecvWindow =
        65535 - total Obs.dataReceived (s₀.run ops).history +
          total (Obs.granted 0) (s₀.run ops).history ∧
      ∀ id st, (s₀.run ops).stream? id = some st → st.state ≠ .closed →
        st.recvWindow =
          65535 - total (Obs.dataReceivedOn id) (s₀.run ops).history +
            total (Obs.granted id) (s₀.run ops).history := by
  have hcalls : Meets (fun _ a => ∀ settings, a ≠ .call (.updateSettings settings)) s₀ ops :=
    meets_of_calls (fun call hmem settings hc => hops settings (by cases hc; exact hmem))
      fun a ha settings => ha _
  have h := run_invariant (I := RecvBalanced) hnew (recvBalanced_newSession hlimits hnew)
    (fun s a hw ha hs hok => recvBalanced_act hw ha hs hok.1 hok.2) (hcalls.and hok) hf
  exact ⟨h.connection.eq, fun id st hst hne => (h.stream id st hst hne).eq⟩

/-- A server receives the head of a request with a body. -/
def headReceived : Op := .feed (clientStart ++ postFrame 1)

/-- A server receives two octets of a body. -/
theorem recvWindows_eq_ledger_server :
    ∃ s₀, newSession externals .server {} = .ok s₀ ∧
      let s := s₀.run [headReceived, .feed (frameBytes .data 0 1 [0, 0])]
      s.connectionRecvWindow = 65533 ∧
        s.connectionRecvWindow =
          65535 - total Obs.dataReceived s.history + total (Obs.granted 0) s.history := by
  obtain ⟨s₀, hnew, hok, hf, hw⟩ := exists_newSession (X := externals) (r := .server)
    (l := {}) (p := fun s₀ =>
      Meets RecvCondition s₀ [headReceived, .feed (frameBytes .data 0 1 [0, 0])] ∧
        (s₀.run [headReceived, .feed (frameBytes .data 0 1 [0, 0])]).failed = none ∧
        (s₀.run [headReceived, .feed (frameBytes .data 0 1 [0, 0])]).connectionRecvWindow =
          65533) (by decide +kernel)
  exact ⟨s₀, hnew, hw, (recvWindows_eq_ledger (by decide) hnew (by simp [headReceived]) hok hf).1⟩

/-- A DATA frame that arrives after the session has reset its stream is not charged: the peer has
used two octets of the connection window, and the session does not count them. -/
theorem recvWindow_after_reset :
    ∃ s₀, newSession externals .server {} = .ok s₀ ∧
      let s := s₀.run [headReceived, .call (.resetStream 1 .cancel),
        .feed (frameBytes .data 0 1 [0, 0])]
      s.failed = none ∧ s.phase.frame = none ∧
        s.connectionRecvWindow ≠
          65535 - total Obs.dataReceived s.history + total (Obs.granted 0) s.history :=
  exists_newSession (by decide +kernel)

end Session

end WagoHttp.Http2
