import WagoHttp.Http2.Session.Endpoint

/-!
# A session is an endpoint: received frames

Every action of a session is a sequence of the elementary changes of `Endpoint.Step`. This module
shows it for the callbacks of the frame parser (`reaches_deliver`). The lemmas follow the functions
of the session, one for each.
-/

namespace WagoHttp.Http2.Session

open Endpoint List

variable {X : Externals}

/-- The protocol state of a session. -/
def endpoint (s : Session X) : Endpoint X where
  role := s.role
  prefacePos := s.prefacePos
  parser := s.parser
  streams := s.stream?
  nextLocal := s.nextLocalStream
  lastPeer := s.lastPeerStream
  lastProcessed := s.lastProcessedPeerStream
  sendWindow := s.connectionSendWindow
  recvWindow := s.connectionRecvWindow
  peerInitial := s.peerInitialWindow
  localInitial := s.limits.initialWindowSize.toNat
  peerMaxFrame := s.peerMaxFrame
  announced :=
    { maxConcurrent := s.peerMaxConcurrent, enablePush := s.peerEnablePush
      enableConnect := s.peerEnableConnect }
  encoder := s.encoder
  decoding := s.decoder.active
  blockStream := s.currentHeaderStream
  pending := s.pendingSettings
  failed := s.failed.isSome
  closed := s.closed
  history := s.history

/-- An action that found the endpoint in `e₀` can take `s` to `s'`. -/
def Reaches (a : Action) (e₀ : Endpoint X) (s s' : Session X) : Prop :=
  Steps a e₀ s.endpoint s'.endpoint

variable {a : Action} {e₀ : Endpoint X} {s s' s'' : Session X}

theorem Reaches.of_eq (h : s.endpoint = s'.endpoint) : Reaches a e₀ s s' := by
  unfold Reaches
  rw [h]
  exact .refl

theorem Reaches.refl (s : Session X) : Reaches a e₀ s s := .of_eq rfl

theorem Reaches.trans (h : Reaches a e₀ s s') (h' : Reaches a e₀ s' s'') : Reaches a e₀ s s'' :=
  Relation.ReflTransGen.trans h h'

theorem Reaches.single (h : Step a e₀ s.endpoint s'.endpoint) : Reaches a e₀ s s' :=
  Relation.ReflTransGen.single h

theorem endpoint_setStream (s : Session X) (id : ℕ) (st : Stream) :
    (s.setStream id st).endpoint = s.endpoint.set id (some st) := by
  simp only [endpoint, setStream, Endpoint.set, Endpoint.mk.injEq, true_and, and_true]
  funext id'
  by_cases h : id' = id
  · subst h
    simp [stream?]
  · simp [stream?, h, AList.lookup_insert_ne h]

variable {o : Obs} {id streamID promised last n : ℕ} {st st' : Stream} {event : Event}
  {header : FrameHeader} {payload fragment data : Bytes} {settings : List Setting}
  {ack endStream : Bool} {code : ErrorCode} {reason : String} {state : StreamState} {ids : List ℕ}
  {value : UInt32} {call : Callback}

theorem reaches_note (h : Noted a e₀ s.endpoint o) : Reaches a e₀ s (s.note o) :=
  .single (.note h)

theorem reaches_setStream (h : s.stream? id = some st) (ht : Tame st (some st')) :
    Reaches a e₀ s (s.setStream id st') := by
  apply Reaches.single
  rw [endpoint_setStream]
  exact .stream h ht

/-! ## Events and frames -/

theorem reaches_queueEvent (h : Noted a e₀ s.endpoint (.queued event)) :
    Reaches a e₀ s (s.queueEvent event).1 := by
  unfold queueEvent
  simp only
  split
  · exact .refl s
  · exact .single (.note h)

/-- An event that hands no part of a message to the owner. -/
theorem reaches_offerEvent (h : ¬event.isMessage) : Reaches a e₀ s (s.offerEvent event) :=
  reaches_queueEvent fun hm => absurd hm h

/-- The session after a frame has been appended to its output. -/
def appended (s : Session X) (header : FrameHeader) (payload : Bytes) : Session X :=
  { s with
    output := s.output ++ frameHeaderBytes { header with length := payload.length } ++ payload }.note
      (.sent { header with length := payload.length } payload)

/-- A frame is appended whole or not at all. -/
theorem appendFrameEvenFailed_cases (s : Session X) (header : FrameHeader) (payload : Bytes) :
    (∃ err, s.appendFrameEvenFailed header payload = (s, some err)) ∨
      s.reserveOutput (9 + payload.length) = true ∧ payload.length ≤ maxFrameSize.toNat ∧
        header.streamID ≤ 0x7fffffff ∧
        validateFrameHeader { header with length := payload.length } = .none ∧
        s.appendFrameEvenFailed header payload = (s.appended header payload, none) := by
  unfold appendFrameEvenFailed Http2.appendFrame
  split
  · exact .inl ⟨_, rfl⟩
  next hroom =>
  by_cases hsize : payload.length > maxFrameSize.toNat ∨
      header.length ≠ 0 ∧ header.length ≠ payload.length ∨ header.streamID > 0x7fffffff
  · rw [if_pos hsize]
    exact .inl ⟨_, rfl⟩
  rw [if_neg hsize]
  by_cases hv : validateFrameHeader { header with length := payload.length } = .none
  · refine .inr ⟨by simpa using hroom, by omega, by omega, hv, ?_⟩
    simp only [hv, ne_eq, not_true_eq_false, if_false]
    rfl
  · simp only [hv, ne_eq, not_false_eq_true, if_true]
    exact .inl ⟨_, rfl⟩

theorem appendFrame_cases (s : Session X) (header : FrameHeader) (payload : Bytes) :
    (∃ err, s.appendFrame header payload = (s, some err)) ∨
      s.appendFrame header payload = (s.appended header payload, none) := by
  unfold appendFrame
  split
  · exact .inl ⟨_, rfl⟩
  · exact (appendFrameEvenFailed_cases s header payload).imp_right fun h => h.2.2.2.2

/-- What holds of a session before and after a frame is appended holds in any case. -/
theorem appendFrameEvenFailed_elim {P : Session X → Prop} (h : P s)
    (h' : P (s.appended header payload)) : P (s.appendFrameEvenFailed header payload).1 := by
  obtain ⟨err, heq⟩ | ⟨-, -, -, -, heq⟩ := appendFrameEvenFailed_cases s header payload
  · rw [heq]
    exact h
  · rw [heq]
    exact h'

theorem appendFrame_elim {P : Session X → Prop} (h : P s) (h' : P (s.appended header payload)) :
    P (s.appendFrame header payload).1 := by
  unfold appendFrame
  split
  · exact h
  · exact appendFrameEvenFailed_elim h h'

theorem reaches_appendFrameEvenFailed
    (h : Noted a e₀ s.endpoint (.sent { header with length := payload.length } payload)) :
    Reaches a e₀ s (s.appendFrameEvenFailed header payload).1 :=
  appendFrameEvenFailed_elim (P := Reaches a e₀ s) (.refl s) (.single (.note h))

theorem reaches_appendFrame
    (h : Noted a e₀ s.endpoint (.sent { header with length := payload.length } payload)) :
    Reaches a e₀ s (s.appendFrame header payload).1 :=
  appendFrame_elim (P := Reaches a e₀ s) (.refl s) (.single (.note h))

/-- What appending a frame leaves unchanged. -/
theorem appendFrameEvenFailed_frame (s : Session X) (header : FrameHeader) (payload : Bytes) :
    (s.appendFrameEvenFailed header payload).1.streams = s.streams ∧
      (s.appendFrameEvenFailed header payload).1.failed = s.failed ∧
      (∀ o ∈ s.history, o ∈ (s.appendFrameEvenFailed header payload).1.history) :=
  appendFrameEvenFailed_elim
    (P := fun t => t.streams = s.streams ∧ t.failed = s.failed ∧ ∀ o ∈ s.history, o ∈ t.history)
    ⟨rfl, rfl, fun _ h => h⟩ ⟨rfl, rfl, fun _ h => mem_append_left _ h⟩

theorem reaches_appendSettings : Reaches a e₀ s (s.appendSettings settings ack).1 := by
  unfold appendSettings
  split <;> exact reaches_appendFrameEvenFailed (.inl (.inr (.inl rfl)))

/-! ## Closing streams -/

theorem tame_none (st : Stream) : Tame st none := fun _ h => nomatch h

theorem tame_closed (st : Stream) : Tame st (some { st with state := .closed }) := by
  rintro st' ⟨⟩
  exact ⟨rfl, fun h => absurd rfl h⟩

theorem steps_evictClosed {e : Endpoint X} {max : ℕ} (ids : List ℕ) (streams : StreamTable) :
    Steps a e₀ { e with streams := streams.lookup }
      { e with streams := (evictClosed max streams ids).1.lookup } := by
  induction ids generalizing streams with
  | nil => exact .refl
  | cons id ids ih =>
    unfold evictClosed
    split
    · refine .trans ?_ (ih _)
      split
      · next hclosed =>
        obtain ⟨st, hst, -⟩ := Option.any_eq_true .. |>.1 hclosed
        refine .single ?_
        have h : (streams.erase id).lookup = Function.update streams.lookup id none := by
          funext id'
          by_cases hid : id' = id
          · subst hid
            simp
          · simp [hid, AList.lookup_erase_ne hid]
        rw [h]
        exact Step.stream (e := { e with streams := streams.lookup }) hst (tame_none st)
      · exact .refl
    · exact .refl

/-- The eviction that follows the end of a stream. -/
theorem reaches_evict (hst : s.stream? id = some st) (hc : st.state ≠ .closed) :
    Reaches a e₀ (s.setStream id { st with state := .closed }) (s.closeStream id) := by
  have h : (s.setStream id { st with state := .closed }).endpoint =
      ((s.setStream id { st with state := .closed }).releaseActive st).endpoint := by
    unfold releaseActive
    split <;> rfl
  refine (Reaches.of_eq h).trans ?_
  simp only [closeStream, hst, hc, if_false]
  generalize (s.setStream id { st with state := .closed }).releaseActive st = t
  exact steps_evictClosed (e := t.endpoint) (t.closedStreams ++ [id]) t.streams

theorem reaches_closeStream (s : Session X) (id : ℕ) : Reaches a e₀ s (s.closeStream id) := by
  cases hst : s.stream? id with
  | none => simpa only [closeStream, hst] using .refl s
  | some st =>
    by_cases hc : st.state = .closed
    · simpa only [closeStream, hst, hc, if_true] using .refl s
    · exact (reaches_setStream hst (tame_closed st)).trans (reaches_evict hst hc)

/-! ## Errors -/

theorem reaches_streamError (s : Session X) (streamID : ℕ) (code : ErrorCode) :
    Reaches a e₀ s (s.streamError streamID code) := by
  unfold streamError
  refine (reaches_closeStream s streamID).trans ?_
  exact (reaches_appendFrame (.inl (.inl rfl))).trans
    (reaches_offerEvent (by simp [Event.isMessage]))

/-- Since the action began, no part of a message has been handed to the owner. -/
structure Silent (e₀ : Endpoint X) (s : Session X) : Prop where
  processed : s.lastProcessedPeerStream = e₀.lastProcessed
  messages : messageEvents s.history = messageEvents e₀.history

/-- An entry that is no message event. -/
theorem messageEvents_append {history : List Obs}
    (h : ∀ event, o = .queued event → ¬event.isMessage) :
    messageEvents (history ++ [o]) = messageEvents history := by
  unfold messageEvents
  cases o with
  | queued event => simp [h event rfl]
  | _ => simp

theorem silent_appendFrameEvenFailed (h : Silent e₀ s) :
    Silent e₀ (s.appendFrameEvenFailed header payload).1 :=
  appendFrameEvenFailed_elim (P := Silent e₀) h
    ⟨h.1, (messageEvents_append (by simp)).trans h.2⟩

theorem silent_appendFrame (h : Silent e₀ s) : Silent e₀ (s.appendFrame header payload).1 :=
  appendFrame_elim (P := Silent e₀) h ⟨h.1, (messageEvents_append (by simp)).trans h.2⟩

theorem silent_appendSettings (h : Silent e₀ s) : Silent e₀ (s.appendSettings settings ack).1 := by
  unfold appendSettings
  split <;> exact silent_appendFrameEvenFailed h

/-- The frame that ends the connection, after the session has failed. -/
theorem reaches_sendGoAway {rest : Bytes} (ht : header.type = .goAway) (h : Silent e₀ s)
    (hf : s.failed ≠ none) :
    Reaches a e₀ s (s.appendFrameEvenFailed header
      (putUint32 s.lastProcessedPeerStream ++ rest)).1 := by
  refine appendFrameEvenFailed_elim (P := Reaches a e₀ s) (.refl s)
    (.single (Step.goAway (e := s.endpoint) ht h.processed h.messages (.inl ?_)))
  simpa [endpoint, Option.isSome_iff_ne_none] using hf

theorem reaches_connectionError (h : Silent e₀ s) :
    Reaches a e₀ s (s.connectionError code reason) := by
  unfold connectionError
  split
  · exact .refl s
  · next hf =>
    have hfailed : s.endpoint.failed = false := by simpa [endpoint] using hf
    have h1 : Reaches a e₀ s ({ s with
        failed := some (.protocol 0 code reason), goAwaySent := true }.note
          (.failed (.protocol 0 code reason))) :=
      .single (Step.fail hfailed h.processed h.messages)
    refine h1.trans (reaches_sendGoAway rfl ?_ (Option.some_ne_none _))
    exact ⟨h.processed, (messageEvents_append (by simp)).trans h.messages⟩

theorem reaches_handleProtocolError (h : Silent e₀ s) {err : SessionError} :
    Reaches a e₀ s (s.handleProtocolError err) := by
  unfold handleProtocolError
  split
  · split
    · exact reaches_connectionError h
    · exact reaches_streamError s _ _
  · exact reaches_connectionError h

/-! ## The ends of a stream -/

/-- A change of a stream that keeps its windows and closes nothing. -/
theorem tame_of_eq (hl : st'.isLocal = st.isLocal) (hs : st.state = .closed → st'.state = .closed)
    (hsend : st'.sendWindow = st.sendWindow) (hrecv : st'.recvWindow = st.recvWindow) :
    Tame st (some st') := by
  rintro _ ⟨⟩
  exact ⟨hl, fun h => ⟨fun hc => h (hs hc), hsend, hrecv⟩⟩

theorem reaches_localEnd (s : Session X) (id : ℕ) : Reaches a e₀ s (s.localEnd id) := by
  unfold localEnd
  split
  · exact .refl s
  · next st hst =>
    split
    · next h => exact reaches_setStream hst (tame_of_eq rfl (by simp [h]) rfl rfl)
    · exact reaches_closeStream s id
    · next h => exact reaches_setStream hst (tame_of_eq rfl (by simp [h]) rfl rfl)
    · exact .refl s

/-- Closing a stream is not recorded, and fails nothing. -/
theorem closeStream_frame (s : Session X) (id : ℕ) :
    (s.closeStream id).history = s.history ∧ (s.closeStream id).failed = s.failed ∧
      (s.closeStream id).lastProcessedPeerStream = s.lastProcessedPeerStream := by
  unfold closeStream releaseActive
  split
  · exact ⟨rfl, rfl, rfl⟩
  · split
    · exact ⟨rfl, rfl, rfl⟩
    · simp only
      split <;> exact ⟨rfl, rfl, rfl⟩

theorem reaches_endRemote (hst : s.stream? id = some st) : Reaches a e₀ s (s.endRemote id st) := by
  unfold endRemote
  split
  · next h => exact reaches_setStream hst (tame_of_eq rfl (by simp [h]) rfl rfl)
  · exact reaches_closeStream s id
  · next h => exact reaches_setStream hst (tame_of_eq rfl (by simp [h]) rfl rfl)
  · exact .refl s

theorem endRemote_frame (s : Session X) (id : ℕ) (st : Stream) :
    (s.endRemote id st).history = s.history ∧ (s.endRemote id st).failed = s.failed := by
  unfold endRemote
  split
  · exact ⟨rfl, rfl⟩
  · exact ⟨(closeStream_frame s id).1, (closeStream_frame s id).2.1⟩
  · exact ⟨rfl, rfl⟩
  · exact ⟨rfl, rfl⟩

theorem history_offerEvent_mem (h : o ∈ s.history) : o ∈ (s.offerEvent event).history := by
  unfold offerEvent queueEvent
  simp only
  split
  · exact h
  · exact mem_append_left _ h

theorem reaches_remoteEnd (ha : a.delivers id) (hopen : .opened id ∈ s.history)
    (hf : s.failed = none) : Reaches a e₀ s (s.remoteEnd id) := by
  unfold remoteEnd
  split
  · exact .refl s
  · next st hst =>
    split
    · exact reaches_streamError s id _
    · have hend : Reaches a e₀ s (s.endRemote id st) := reaches_endRemote hst
      obtain ⟨hh, hf'⟩ := endRemote_frame s id st
      simp only
      split
      · have hopen' : .opened id ∈ (s.endRemote id st).history := hh ▸ hopen
        have hq : Noted a e₀ (s.endRemote id st).endpoint
            (.queued { type := .streamEnd, streamID := id }) :=
          fun _ => ⟨by simp [endpoint, hf', hf], ha, hopen'⟩
        exact hend.trans ((reaches_queueEvent hq).trans
          (.single (.processed ha (history_offerEvent_mem hopen'))))
      · exact hend

/-! ## Header blocks -/

/-- An identifier above the last one of the peer has not been used. -/
theorem not_opened_of_lastPeer_lt (h : s.endpoint.IdSpace) (hid : s.lastPeerStream < id)
    (hr : ¬s.role.initiates id) : .opened id ∉ s.history :=
  fun hmem => absurd (h.peer_le id hmem hr) (not_le.2 hid)

theorem endpoint_addStream (s : Session X) (id : ℕ) (st : Stream) :
    (s.addStream id st).endpoint = (s.endpoint.set id (some st)).note (.opened id) := by
  unfold addStream
  rw [← endpoint_setStream]
  rfl

theorem fresh_freshStream (hs : state ≠ .closed) (isLocal : Bool) :
    Fresh s.endpoint (s.freshStream state isLocal) isLocal :=
  ⟨hs, rfl, rfl, rfl⟩

theorem peerMayOpen_spec (h : s.peerMayOpen id = true) :
    s.lastPeerStream < id ∧ ¬s.role.initiates id := by
  unfold peerMayOpen at h
  split at h
  · cases h
  · next hn =>
    obtain ⟨-, hn⟩ := not_or.1 hn
    refine ⟨not_le.1 hn, ?_⟩
    cases hr : s.role <;> simp_all [Role.initiates]

/-- A stream of the peer enters the table. -/
theorem reaches_addPeer {active : ℕ} (ha : a.opensPeer id) (hid : s.endpoint.IdSpace)
    (hlt : s.lastPeerStream < id) (hr : ¬s.role.initiates id) (hs : state ≠ .closed) :
    Reaches a e₀ s { s.addStream id (s.freshStream state false) with
      activePeer := active, lastPeerStream := id } := by
  refine .single ?_
  have h : Step a e₀ s.endpoint _ := Step.openPeer ha hlt hr
    (not_opened_of_lastPeer_lt hid hlt hr) (fresh_freshStream hs false)
  have heq : ({ s.addStream id (s.freshStream state false) with
      activePeer := active, lastPeerStream := id } : Session X).endpoint =
      { s.endpoint.set id (some (s.freshStream state false)) with lastPeer := id }.note
        (.opened id) := by
    have := endpoint_addStream s id (s.freshStream state false)
    exact congrArg (fun e : Endpoint X => { e with lastPeer := id }) this
  rwa [heq]

theorem reaches_beginDecoderBlock (ha : a.readsBlock) : Reaches a e₀ s s.beginDecoderBlock.1 := by
  unfold beginDecoderBlock HeaderDecoder.beginBlock
  split
  · exact .refl s
  · next decoder hd =>
    split at hd
    · cases hd
    · cases hd
      have h1 : Reaches a e₀ s { s with decoder := { s.decoder with
          active := true, fields := 0, listSize := 0, err := none } } := .single (.decoding ha)
      exact h1.trans (reaches_note ha)

theorem silent_beginDecoderBlock (h : Silent e₀ s) : Silent e₀ s.beginDecoderBlock.1 := by
  unfold beginDecoderBlock
  split
  · exact h
  · exact ⟨h.processed, (messageEvents_append (by simp)).trans h.messages⟩

theorem admitHeaders_spec (e₀ : Endpoint X) (ha : a.opensPeer id) (hid : s.endpoint.IdSpace)
    (h : s.admitHeaders id = .ok (s', st)) :
    Reaches a e₀ s s' ∧ s'.stream? id = some st := by
  unfold admitHeaders at h
  split at h
  · split_ifs at h with hopen
    cases h
    obtain ⟨hlt, hr⟩ := peerMayOpen_spec (by simpa using hopen)
    exact ⟨reaches_addPeer ha hid hlt hr (by decide), AList.lookup_insert _⟩
  · next st' hst =>
    split_ifs at h
    cases h
    exact ⟨.refl s, hst⟩

theorem silent_admitHeaders (hs : Silent e₀ s) (h : s.admitHeaders id = .ok (s', st)) :
    Silent e₀ s' := by
  unfold admitHeaders at h
  split at h
  · split_ifs at h
    cases h
    exact ⟨hs.processed, (messageEvents_append (by simp)).trans hs.messages⟩
  · split_ifs at h
    cases h
    exact hs

theorem reaches_startSection (hb : a.readsBlock) (hst : s.stream? id = some st) :
    Reaches a e₀ s (s.startSection id st endStream) := by
  unfold startSection
  split
  · next hr =>
    have h1 : Reaches a e₀ s (s.setStream id { st with state := .halfClosedLocal }) :=
      reaches_setStream hst (tame_of_eq rfl (by simp [hr]) rfl rfl)
    exact h1.trans (.single (.blockStream hb))
  · exact .single (.blockStream hb)

theorem silent_startSection (h : Silent e₀ s) : Silent e₀ (s.startSection id st endStream) := by
  unfold startSection
  split <;> exact ⟨h.1, h.2⟩

theorem reaches_beginInboundHeaders (ha : a.opensPeer id) (hb : a.readsBlock)
    (hid : s.endpoint.IdSpace) :
    Reaches a e₀ s (s.beginInboundHeaders id endStream).1 := by
  unfold beginInboundHeaders
  split
  · exact .refl s
  · next s' st hadmit =>
    obtain ⟨hreach, hst⟩ := admitHeaders_spec e₀ ha hid hadmit
    split
    · exact hreach
    · exact hreach.trans ((reaches_startSection hb hst).trans (reaches_beginDecoderBlock hb))

theorem silent_beginInboundHeaders (h : Silent e₀ s) :
    Silent e₀ (s.beginInboundHeaders id endStream).1 := by
  unfold beginInboundHeaders
  split
  · exact h
  · next s' st hadmit =>
    have h' := silent_admitHeaders h hadmit
    split
    · exact h'
    · exact silent_beginDecoderBlock (silent_startSection h')

theorem reaches_writeDecoder (hb : a.readsBlock) : Reaches a e₀ s (s.writeDecoder fragment).1 := by
  unfold writeDecoder
  simp only
  split
  · exact (reaches_note (o := .decoder (.write fragment)) hb).trans (.single (.decoding hb))
  · exact .single (.decoding hb)

theorem silent_writeDecoder (h : Silent e₀ s) : Silent e₀ (s.writeDecoder fragment).1 := by
  unfold writeDecoder
  simp only
  split
  · exact ⟨h.1, (messageEvents_append (by simp)).trans h.2⟩
  · exact ⟨h.1, h.2⟩

theorem reaches_onHeaderBlock (hb : a.readsBlock) (hs : Silent e₀ s) :
    Reaches a e₀ s (s.onHeaderBlock streamID fragment) := by
  unfold onHeaderBlock
  split
  · exact .refl s
  · have hreach : Reaches a e₀ s (s.writeDecoder fragment).1 := reaches_writeDecoder hb
    have hsilent : Silent e₀ (s.writeDecoder fragment).1 := silent_writeDecoder hs
    generalize s.writeDecoder fragment = w at hreach hsilent
    obtain ⟨s', _ | err⟩ := w
    · exact hreach
    · exact hreach.trans (reaches_connectionError hsilent)

/-- The end of a block changes nothing but the decoder. -/
theorem endDecoderBlock_frame (s : Session X) :
    s.endDecoderBlock.1.streams = s.streams ∧ s.endDecoderBlock.1.failed = s.failed ∧
      s.endDecoderBlock.1.role = s.role ∧ (∀ o ∈ s.history, o ∈ s.endDecoderBlock.1.history) := by
  unfold endDecoderBlock
  simp only
  split
  · exact ⟨rfl, rfl, rfl, fun o h => mem_append_left _ h⟩
  · exact ⟨rfl, rfl, rfl, fun o h => h⟩

theorem reaches_endDecoderBlock (hb : a.readsBlock) : Reaches a e₀ s s.endDecoderBlock.1 := by
  unfold endDecoderBlock
  simp only
  split
  · exact (reaches_note (o := .decoder .endBlock) hb).trans (.single (.decoding hb))
  · exact .single (.decoding hb)

theorem silent_endDecoderBlock (h : Silent e₀ s) : Silent e₀ s.endDecoderBlock.1 := by
  unfold endDecoderBlock
  simp only
  split
  · exact ⟨h.1, (messageEvents_append (by simp)).trans h.2⟩
  · exact ⟨h.1, h.2⟩

theorem reaches_commitSection (ha : a.delivers id) (hst : s.stream? id = some st)
    (hopen : .opened id ∈ s.history) (hf : s.failed = none) :
    Reaches a e₀ s (s.commitSection id st endStream) := by
  unfold commitSection
  simp only
  split_ifs
  · exact reaches_setStream hst (tame_of_eq rfl (fun h => h) rfl rfl)
  · have h1 : Reaches a e₀ s (s.setStream id (Stream.receiveSection st
        (inspectHeaderSection s.currentHeaders) s.currentHeaderTrailer)) :=
      reaches_setStream hst (tame_of_eq rfl (fun h => h) rfl rfl)
    exact h1.trans (reaches_remoteEnd ha hopen hf)
  · exact reaches_setStream hst (tame_of_eq rfl (fun h => h) rfl rfl)
  · exact reaches_streamError s id _
  · exact .refl s

/-- What queueing an event leaves unchanged. -/
theorem queueEvent_frame (s : Session X) (event : Event) :
    (s.queueEvent event).1.streams = s.streams ∧ (s.queueEvent event).1.failed = s.failed ∧
      (s.queueEvent event).1.currentHeaderEventStream = s.currentHeaderEventStream ∧
      (∀ o ∈ s.history, o ∈ (s.queueEvent event).1.history) ∧
      ((s.queueEvent event).2 ≠ none → (s.queueEvent event).1 = s) := by
  unfold queueEvent
  simp only
  split
  · exact ⟨rfl, rfl, rfl, fun o h => h, fun _ => rfl⟩
  · exact ⟨rfl, rfl, rfl, fun o h => mem_append_left _ h, fun h => absurd rfl h⟩

theorem reaches_clearSection (hb : a.readsBlock) : Reaches a e₀ s s.clearSection :=
  .single (.blockStream hb)

theorem reaches_finishSection (hb : a.readsBlock) (hdel : ∀ id, a.delivers id)
    (hid : s.endpoint.IdSpace) (hf : s.failed = none) (hs : Silent e₀ s) :
    Reaches a e₀ s (s.finishSection endStream) := by
  unfold finishSection
  split
  · exact .refl s
  · next st hst =>
    have hopen := (hid.opened _ st hst).1
    split
    · exact reaches_streamError s _ _
    · have hreach : Reaches a e₀ s (s.queueEvent (s.sectionEvent endStream)).1 :=
        reaches_queueEvent fun _ => ⟨by simp [endpoint, hf], hdel _, hopen⟩
      obtain ⟨hstreams, hf', hcur, hhist, herr⟩ := queueEvent_frame s (s.sectionEvent endStream)
      generalize s.queueEvent (s.sectionEvent endStream) = q at hreach hstreams hf' hcur hhist herr
      obtain ⟨s', _ | err⟩ := q
      · refine hreach.trans (.trans ?_ (reaches_clearSection hb))
        simp only at hcur hstreams hf' hhist ⊢
        rw [hcur]
        refine reaches_commitSection (hdel _) ?_ (hhist _ hopen) (hf'.trans hf)
        rw [stream?, hstreams]
        exact hst
      · have heq : s' = s := herr (by simp)
        subst heq
        exact reaches_connectionError hs

theorem reaches_onHeaderBlockEnd (ha : a = .deliver (.headerBlockEnd streamID endStream))
    (hid : s.endpoint.IdSpace) (hs : Silent e₀ s) :
    Reaches a e₀ s (s.onHeaderBlockEnd streamID endStream) := by
  have hb : a.readsBlock := by rw [ha]; trivial
  unfold onHeaderBlockEnd
  split
  · exact .refl s
  · next hor =>
    have hreach : Reaches a e₀ s s.endDecoderBlock.1 := reaches_endDecoderBlock hb
    have hsilent : Silent e₀ s.endDecoderBlock.1 := silent_endDecoderBlock hs
    obtain ⟨-, hf, -⟩ := endDecoderBlock_frame s
    generalize s.endDecoderBlock = w at hreach hsilent hf
    obtain ⟨s', _ | err⟩ := w
    · refine hreach.trans (reaches_finishSection hb (fun id => .inr (.inr ⟨_, _, ha⟩)) ?_ ?_
        hsilent)
      · exact Steps.invariant IdSpace.step hreach hid
      · exact hf.trans (not_not.1 (not_or.1 hor).1)
    · exact hreach.trans (reaches_connectionError hsilent)

theorem reaches_reserveRemote (ha : a = .deliver (.pushPromise streamID promised))
    (hid : s.endpoint.IdSpace) (hlt : s.lastPeerStream < promised) (hr : ¬s.role.initiates promised)
    : Reaches a e₀ s (s.reserveRemote streamID promised) := by
  have hb : a.readsBlock := by rw [ha]; trivial
  have h1 : Reaches a e₀ s { s.addStream promised (s.freshStream .reservedRemote false) with
      activePeer := s.activePeer + 1, lastPeerStream := promised } :=
    reaches_addPeer (.inr ⟨_, ha⟩) hid hlt hr (by decide)
  exact h1.trans (.single (.blockStream hb))

theorem reaches_onPushPromise (ha : a = .deliver (.pushPromise streamID promised))
    (hid : s.endpoint.IdSpace) (hs : Silent e₀ s) :
    Reaches a e₀ s (s.onPushPromise streamID promised) := by
  unfold onPushPromise
  split_ifs with hf hbad hfull
  · exact .refl s
  · exact reaches_connectionError hs
  · exact reaches_streamError s _ _
  · have hok : s.role = .client ∧ promised % 2 = 0 ∧ s.lastPeerStream < promised := by
      simp only [Bool.or_eq_true, decide_eq_true_eq, not_or, not_le, not_not] at hbad
      exact ⟨hbad.1.1.1.1.1.1, hbad.1.1.2, hbad.1.2⟩
    have hr : ¬s.role.initiates promised := by
      rw [hok.1, Role.initiates]
      omega
    have hb : a.readsBlock := by rw [ha]; trivial
    have hreserve : Reaches a e₀ s (s.reserveRemote streamID promised) :=
      reaches_reserveRemote ha hid hok.2.2 hr
    have hsilent : Silent e₀ (s.reserveRemote streamID promised) :=
      ⟨hs.1, (messageEvents_append (by simp)).trans hs.2⟩
    have hbegin : Reaches a e₀ s (s.reserveRemote streamID promised).beginDecoderBlock.1 :=
      hreserve.trans (reaches_beginDecoderBlock hb)
    have hsilent' := silent_beginDecoderBlock hsilent
    generalize (s.reserveRemote streamID promised).beginDecoderBlock = w at hbegin hsilent'
    obtain ⟨s', _ | err⟩ := w
    · exact hbegin
    · exact hbegin.trans (reaches_connectionError hsilent')

/-! ## DATA -/

theorem reaches_setRecv (ha : a.movesRecv) (hst : s.stream? id = some st) :
    Reaches a e₀ s (s.setStream id { st with
      recvWindow := a.moved e₀.localInitial s.limits.initialWindowSize.toNat st.recvWindow }) := by
  refine .single ?_
  rw [endpoint_setStream]
  exact .streamRecv ha hst

theorem reaches_chargeData (ha : a = .deliver (.frameBegin header)) (ht : header.type = .data)
    (hs : Silent e₀ s) : Reaches a e₀ s (s.chargeData header) := by
  subst ha
  unfold chargeData
  split
  · exact reaches_streamError s _ _
  · next st hst =>
    split_ifs
    · exact reaches_streamError s _ _
    · exact reaches_connectionError hs
    · exact reaches_streamError s _ _
    · have h1 : Reaches (.deliver (.frameBegin header)) e₀ s
          { s with connectionRecvWindow := s.connectionRecvWindow - header.length } :=
        .single (.recvWindow ht ⟨_, rfl⟩)
      exact h1.trans (reaches_setRecv ht hst)

theorem reaches_onFrameBegin (ha : a = .deliver (.frameBegin header)) (hid : s.endpoint.IdSpace)
    (hs : Silent e₀ s) : Reaches a e₀ s (s.onFrameBegin header) := by
  unfold onFrameBegin
  split
  · exact .refl s
  · have h1 : Reaches a e₀ s { s with currentFrame := header } := .of_eq rfl
    have hs1 : Silent e₀ { s with currentFrame := header } := ⟨hs.1, hs.2⟩
    have hid1 : ({ s with currentFrame := header } : Session X).endpoint.IdSpace := hid
    generalize ({ s with currentFrame := header } : Session X) = t at h1 hs1 hid1
    simp only
    refine h1.trans ?_
    split_ifs with _ hh hd hp
    · exact reaches_connectionError hs1
    · have hreach : Reaches a e₀ t
          (t.beginInboundHeaders header.streamID (header.flags.has .endStream)).1 :=
        reaches_beginInboundHeaders (.inl ⟨header, ha, hh, rfl⟩) (by rw [ha]; exact hh) hid1
      have hsilent : Silent e₀
          (t.beginInboundHeaders header.streamID (header.flags.has .endStream)).1 :=
        silent_beginInboundHeaders hs1
      generalize t.beginInboundHeaders _ _ = w at hreach hsilent
      obtain ⟨t', _ | err⟩ := w
      · exact hreach
      · exact hreach.trans (reaches_handleProtocolError hsilent)
    · exact reaches_chargeData ha hd hs1
    · exact .of_eq rfl
    · exact .refl t

theorem reaches_onData (ha : a = .deliver (.data id data endStream)) (hid : s.endpoint.IdSpace)
    (hs : Silent e₀ s) :
    Reaches a e₀ s (s.onData id data endStream) := by
  unfold onData
  split
  · exact .refl s
  · next hor =>
    have hf : s.failed = none := not_not.1 (not_or.1 hor).1
    split
    · exact .refl s
    · next st hst =>
      have hopen := (hid.opened _ st hst).1
      split
      · exact reaches_streamError s _ _
      · have h1 : Reaches a e₀ s (s.setStream id
            { st with receiveBody := (st.receiveBody + data.length) % 2 ^ 64 }) :=
          reaches_setStream hst (tame_of_eq rfl (fun h => h) rfl rfl)
        have hs1 : Silent e₀ (s.setStream id
            { st with receiveBody := (st.receiveBody + data.length) % 2 ^ 64 }) := ⟨hs.1, hs.2⟩
        have hf1 : (s.setStream id
            { st with receiveBody := (st.receiveBody + data.length) % 2 ^ 64 }).failed = none := hf
        have hopen1 : .opened id ∈ (s.setStream id
            { st with receiveBody := (st.receiveBody + data.length) % 2 ^ 64 }).history := hopen
        generalize s.setStream id _ = t at h1 hs1 hf1 hopen1
        have hq : Reaches a e₀ t
            (t.queueEvent { type := .data, streamID := id, endStream, data }).1 :=
          reaches_queueEvent fun _ => ⟨by simp [endpoint, hf1], .inl ⟨_, _, ha⟩, hopen1⟩
        obtain ⟨-, -, -, -, herr⟩ :=
          queueEvent_frame t { type := .data, streamID := id, endStream, data }
        simp only
        generalize t.queueEvent _ = q at hq herr
        obtain ⟨t', _ | err⟩ := q
        · exact h1.trans hq
        · have heq : t' = t := herr (by simp)
          subst heq
          exact h1.trans (reaches_connectionError hs1)

/-- An update is recorded, or only the output has changed. -/
theorem appendWindowUpdate_cases (s : Session X) (id increment : ℕ) :
    ∃ output, (s.appendWindowUpdate id increment).1 = { s with output } ∨
      (s.appendWindowUpdate id increment).1 = { s with output }.note
        (.sent { type := .windowUpdate, streamID := id, length := 4 } (putUint32 increment)) := by
  unfold appendWindowUpdate
  split
  · exact ⟨s.output, .inl rfl⟩
  · obtain ⟨err, h⟩ | ⟨-, -, -, -, h⟩ := appendFrameEvenFailed_cases s
      { type := .windowUpdate, streamID := id } (putUint32 increment)
    · exact ⟨s.output, .inl (by rw [h])⟩
    · exact ⟨_, .inr (by rw [h]; rfl)⟩

theorem creditConnection_frame (s : Session X) :
    s.creditConnection.streams = s.streams ∧ s.creditConnection.failed = s.failed ∧
      s.creditConnection.limits = s.limits ∧ ∀ o ∈ s.history, o ∈ s.creditConnection.history := by
  unfold creditConnection
  simp only
  split
  · obtain ⟨output, heq | heq⟩ := appendWindowUpdate_cases s 0
      (((s.limits.initialWindowSize.toNat : ℤ) - s.connectionRecvWindow).toNat % 2 ^ 32) <;> rw [heq]
    · exact ⟨rfl, rfl, rfl, fun o h => h⟩
    · exact ⟨rfl, rfl, rfl, fun o h => mem_append_left _ h⟩
  · exact ⟨rfl, rfl, rfl, fun o h => h⟩

theorem creditStream_frame (s : Session X) (id : ℕ) (st : Stream) :
    (s.creditStream id st).failed = s.failed ∧
      ∀ o ∈ s.history, o ∈ (s.creditStream id st).history := by
  unfold creditStream
  simp only
  split
  · obtain ⟨output, heq | heq⟩ := appendWindowUpdate_cases s id
      (((s.limits.initialWindowSize.toNat : ℤ) - st.recvWindow).toNat % 2 ^ 32) <;> rw [heq]
    · exact ⟨rfl, fun o h => h⟩
    · exact ⟨rfl, fun o h => mem_append_left _ h⟩
  · exact ⟨rfl, fun o h => h⟩

theorem reaches_creditConnection (ha : a = .deliver (.frameComplete header))
    (ht : header.type = .data) : Reaches a e₀ s s.creditConnection := by
  subst ha
  unfold creditConnection
  simp only
  split
  · obtain ⟨output, heq | heq⟩ := appendWindowUpdate_cases s 0
      (((s.limits.initialWindowSize.toNat : ℤ) - s.connectionRecvWindow).toNat % 2 ^ 32) <;> rw [heq]
    · exact .single (.recvWindow ht ⟨_, rfl⟩)
    · refine (reaches_note (s := { s with output }) ?_).trans (.single (.recvWindow ht ⟨_, rfl⟩))
      exact .inr (.inr (.inl ⟨rfl, ht, _, .inl ⟨rfl, rfl⟩, rfl⟩))
  · exact .refl s

theorem reaches_creditStream (ha : a = .deliver (.frameComplete header)) (ht : header.type = .data)
    (hst : s.stream? id = some st) : Reaches a e₀ s (s.creditStream id st) := by
  subst ha
  unfold creditStream
  simp only
  split
  · obtain ⟨output, heq | heq⟩ := appendWindowUpdate_cases s id
      (((s.limits.initialWindowSize.toNat : ℤ) - st.recvWindow).toNat % 2 ^ 32) <;> rw [heq]
    · exact reaches_setRecv (s := { s with output }) ht hst
    · refine (reaches_note (s := { s with output }) ?_).trans (reaches_setRecv ht hst)
      exact .inr (.inr (.inl ⟨rfl, ht, _, .inr ⟨st, hst, rfl⟩, rfl⟩))
  · exact .refl s

theorem reaches_completeData (ha : a = .deliver (.frameComplete header)) (ht : header.type = .data)
    (hid : s.endpoint.IdSpace) (hf : s.failed = none) :
    Reaches a e₀ s (s.completeData header) := by
  unfold completeData
  split
  · exact .refl s
  · next st hst =>
    obtain ⟨hst1, hf1, -, hh1⟩ := s.creditConnection_frame
    have hst1 : s.creditConnection.stream? header.streamID = some st := by
      rw [stream?, hst1]
      exact hst
    obtain ⟨hf2, hh2⟩ := s.creditConnection.creditStream_frame header.streamID st
    have hreach : Reaches a e₀ s (s.creditConnection.creditStream header.streamID st) :=
      (reaches_creditConnection ha ht).trans (reaches_creditStream ha ht hst1)
    simp only
    split
    · refine hreach.trans (reaches_remoteEnd (.inr (.inl ⟨header, ha, rfl⟩))
        (hh2 _ (hh1 _ (hid.opened _ st hst).1)) ?_)
      rw [hf2, hf1, hf]
    · exact hreach

theorem reaches_completePriorityUpdate (hs : Silent e₀ s) :
    Reaches a e₀ s (s.completePriorityUpdate header) := by
  unfold completePriorityUpdate
  split
  · exact reaches_connectionError hs
  · exact reaches_offerEvent (by simp [Event.isMessage])

theorem reaches_onFrameComplete (ha : a = .deliver (.frameComplete header))
    (hid : s.endpoint.IdSpace) (hs : Silent e₀ s) : Reaches a e₀ s (s.onFrameComplete header) := by
  unfold onFrameComplete
  split
  · exact .refl s
  · next hf =>
    have h1 : Reaches a e₀ s (s.countFrame header) := .of_eq rfl
    have hs1 : Silent e₀ (s.countFrame header) := ⟨hs.1, hs.2⟩
    have hid1 : (s.countFrame header).endpoint.IdSpace := hid
    have hf1 : (s.countFrame header).failed = none := not_not.1 hf
    generalize s.countFrame header = t at h1 hs1 hid1 hf1
    simp only
    refine h1.trans ?_
    split_ifs with _ hd hp
    · exact reaches_connectionError hs1
    · exact reaches_completeData ha hd hid1 hf1
    · exact reaches_completePriorityUpdate hs1
    · exact .refl t

/-! ## Control frames -/

theorem reaches_onPriority {priority : PriorityParam} :
    Reaches a e₀ s (s.onPriority id priority) := by
  unfold onPriority
  split
  · exact .refl s
  · exact reaches_offerEvent (by simp [Event.isMessage])

theorem reaches_onRSTStream (hs : Silent e₀ s) : Reaches a e₀ s (s.onRSTStream id code) := by
  unfold onRSTStream
  split
  · split
    · exact reaches_connectionError hs
    · exact .refl s
  · exact (reaches_closeStream s id).trans (reaches_offerEvent (by simp [Event.isMessage]))

theorem reaches_onPing (hs : Silent e₀ s) : Reaches a e₀ s (s.onPing data ack) := by
  unfold onPing
  split_ifs
  · exact .refl s
  · exact reaches_offerEvent (by simp [Event.isMessage])
  · have hreach : Reaches a e₀ s (s.appendFrame { type := .ping, flags := .ack } data).1 :=
      reaches_appendFrame (.inl (.inr (.inr (.inl rfl))))
    have hsilent : Silent e₀ (s.appendFrame { type := .ping, flags := .ack } data).1 :=
      silent_appendFrame hs
    generalize s.appendFrame _ _ = w at hreach hsilent
    obtain ⟨s', _ | err⟩ := w
    · exact hreach.trans (reaches_offerEvent (by simp [Event.isMessage]))
    · exact hreach.trans (reaches_connectionError hsilent)

theorem reaches_refuseStreams (ids : List ℕ) (s : Session X) :
    Reaches a e₀ s (refuseStreams last ids s) := by
  induction ids generalizing s with
  | nil => exact .refl s
  | cons id ids ih =>
    unfold refuseStreams
    split
    · exact ih s
    · split
      · exact (reaches_closeStream s id).trans
          ((reaches_offerEvent (by simp [Event.isMessage])).trans (ih _))
      · exact ih s

theorem reaches_onGoAway (hs : Silent e₀ s) : Reaches a e₀ s (s.onGoAway last code) := by
  unfold onGoAway
  split
  · exact reaches_connectionError hs
  · refine .trans (.of_eq ?_) ((reaches_refuseStreams _ _).trans
      (reaches_offerEvent (by simp [Event.isMessage])))
    rfl

theorem reaches_onUnknown (hs : Silent e₀ s) : Reaches a e₀ s (s.onUnknown header fragment) := by
  unfold onUnknown
  split_ifs
  · exact reaches_connectionError hs
  · exact .of_eq rfl
  · exact .refl s

/-! ## Window updates -/

/-- A WINDOW_UPDATE frame that raises no window. -/
theorem reaches_noteRaise (h : ¬s.endpoint.Raises (.windowUpdate id n)) :
    Reaches (.deliver (.windowUpdate id n)) s.endpoint s
      (s.note (.received (.windowUpdate id n))) :=
  reaches_note ⟨rfl, rfl, h⟩

/-- A connection error raised by a WINDOW_UPDATE frame. -/
theorem reaches_failRaise (hf : s.failed = none) :
    Reaches (.deliver (.windowUpdate id n)) s.endpoint s
      ((s.note (.received (.windowUpdate id n))).connectionError code reason) := by
  have hfailed : s.endpoint.failed = false := by simp [endpoint, hf]
  have h1 : Reaches (.deliver (.windowUpdate id n)) s.endpoint s
      ({ s.note (.received (.windowUpdate id n)) with
        failed := some (.protocol 0 code reason), goAwaySent := true }.note
          (.failed (.protocol 0 code reason))) :=
    .single (Step.failRaise rfl rfl hfailed rfl rfl)
  unfold connectionError
  rw [if_neg (not_not.2 (show (s.note _).failed = none from hf))]
  refine h1.trans (reaches_sendGoAway rfl ⟨rfl, ?_⟩ (Option.some_ne_none _))
  exact (messageEvents_append (by simp)).trans (messageEvents_append (by simp))

theorem reaches_deliver_windowUpdate :
    Reaches (.deliver (.windowUpdate id n)) s.endpoint s
      (s.deliver (.windowUpdate id n)) := by
  unfold deliver handle onWindowUpdate
  simp only
  split
  · next hf =>
    refine reaches_noteRaise ?_
    rintro ⟨_, _, _, hnf, -⟩
    exact hf (Option.isSome_eq_false_iff.1 hnf |> Option.isNone_iff_eq_none.1)
  next hnf =>
  have hf : s.failed = none := not_not.1 hnf
  clear hnf
  split
  · next hz =>
    subst hz
    split
    · exact reaches_failRaise hf
    · next hover =>
      refine .trans ?_ (reaches_offerEvent (by simp [Event.isMessage]))
      exact .single (.raise rfl rfl (not_lt.1 hover))
  next hz =>
  split
  · next hst =>
    split
    · exact reaches_failRaise hf
    · refine reaches_noteRaise ?_
      rintro ⟨_, _, ⟨⟩, -, h | ⟨st, h, -⟩⟩
      · exact hz h
      · exact absurd (hst.symm.trans h) (by simp)
  · next st hst =>
    split
    · next hc =>
      refine reaches_noteRaise ?_
      rintro ⟨_, _, ⟨⟩, -, h | ⟨st', h, hne⟩⟩
      · exact hz h
      · cases hst.symm.trans h
        exact hne hc
    next hc =>
    split
    · have h1 : Reaches (.deliver (.windowUpdate id n)) s.endpoint s
          ((s.note (.received (.windowUpdate id n))).setStream id
            { st with state := .closed }) := by
        refine .single ?_
        rw [endpoint_setStream]
        exact .overflow rfl rfl hz hst hc
      have h2 : Reaches (.deliver (.windowUpdate id n)) s.endpoint s
          ((s.note (.received (.windowUpdate id n))).closeStream id) :=
        h1.trans (reaches_evict (s := s.note (.received (.windowUpdate id n))) hst hc)
      unfold streamError
      exact h2.trans ((reaches_appendFrame (.inl (.inl rfl))).trans
        (reaches_offerEvent (by simp [Event.isMessage])))
    · next hover =>
      refine .trans ?_ (reaches_offerEvent (by simp [Event.isMessage]))
      refine .single ?_
      rw [endpoint_setStream]
      exact .raiseStream rfl rfl hz hst hc (not_lt.1 hover)

/-! ## SETTINGS -/

/-- What a change of the peer's initial window does to the stream table: each stream in turn, up to
the first one that overflows. -/
theorem adjustSendWindows_spec (change : ℤ) (ids : List ℕ) (s : Session X) (hnd : ids.Nodup) :
    ∃ streams, (adjustSendWindows change ids s).1 = { s with streams } ∧
      (∀ id, streams.lookup id = s.stream? id ∨
        streams.lookup id = (s.stream? id).map (adjustSend change)) ∧
      (∀ id, id ∉ ids → streams.lookup id = s.stream? id) ∧
      ((adjustSendWindows change ids s).2 = true → ∀ id ∈ ids,
        streams.lookup id = (s.stream? id).map (adjustSend change) ∧
        ∀ st, s.stream? id = some st → st.state ≠ .closed →
          -2 ^ 31 ≤ st.sendWindow + change ∧ st.sendWindow + change ≤ maxInt32) := by
  induction ids generalizing s with
  | nil => exact ⟨s.streams, rfl, fun id => .inl rfl, fun id _ => rfl, by simp⟩
  | cons id ids ih =>
    obtain ⟨hid, hnd⟩ := nodup_cons.1 hnd
    unfold adjustSendWindows
    split
    · next hst =>
      obtain ⟨streams, heq, hor, hout, hok⟩ := ih s hnd
      refine ⟨streams, heq, hor, fun id' h => hout id' (fun h' => h (mem_cons_of_mem _ h')),
        fun h => forall_mem_cons.2 ⟨?_, hok h⟩⟩
      rw [hout id hid, hst]
      exact ⟨rfl, fun st h => nomatch h⟩
    · next st hst =>
      split
      · next hc =>
        obtain ⟨streams, heq, hor, hout, hok⟩ := ih s hnd
        refine ⟨streams, heq, hor, fun id' h => hout id' (fun h' => h (mem_cons_of_mem _ h')),
          fun h => forall_mem_cons.2 ⟨?_, hok h⟩⟩
        rw [hout id hid, hst]
        refine ⟨by simp [adjustSend, hc], fun st' h hne => ?_⟩
        cases h
        exact absurd hc hne
      · next hc =>
        split
        · exact ⟨s.streams, rfl, fun id => .inl rfl, fun id _ => rfl, fun h => nomatch h⟩
        · next hfit =>
          obtain ⟨hle, hge⟩ := not_or.1 hfit
          have hself :
              (s.setStream id { st with sendWindow := st.sendWindow + change }).stream? id =
                (s.stream? id).map (adjustSend change) := by
            simp [stream?, setStream, show AList.lookup id s.streams = some st from hst, adjustSend,
              hc]
          have hne : ∀ id', id' ≠ id →
              (s.setStream id { st with sendWindow := st.sendWindow + change }).stream? id' =
                s.stream? id' := fun id' h => by
            simp [stream?, setStream, AList.lookup_insert_ne h]
          obtain ⟨streams, heq, hor, hout, hok⟩ := ih
            (s.setStream id { st with sendWindow := st.sendWindow + change }) hnd
          refine ⟨streams, heq, fun id' => ?_, fun id' h => ?_, fun h => ?_⟩
          · by_cases hid' : id' = id
            · subst hid'
              rw [hout _ hid, hself]
              exact .inr rfl
            · rw [← hne id' hid']
              exact hor id'
          · have hid' := not_or.1 (fun h' => h (mem_cons.2 h'))
            rw [hout id' hid'.2, hne id' hid'.1]
          · refine forall_mem_cons.2 ⟨?_, fun id' hmem => ?_⟩
            · rw [hout id hid, hself]
              refine ⟨rfl, fun st' h _ => ?_⟩
              cases hst.symm.trans h
              exact ⟨not_lt.1 hge, not_lt.1 hle⟩
            · have hid' : id' ≠ id := fun h => hid (h ▸ hmem)
              rw [← hne id' hid']
              exact hok h id' hmem

/-- A change of the peer's initial window that no stream overflows. -/
theorem reaches_adjustSendWindows {v : ℤ} (ha : a.appliesSettings) (hv : 0 ≤ v ∧ v ≤ maxInt32)
    (hids : ids.Perm s.streams.keys)
    (hok : (adjustSendWindows (v - s.peerInitialWindow) ids s).2 = true) :
    Reaches a e₀ s
      { (adjustSendWindows (v - s.peerInitialWindow) ids s).1 with peerInitialWindow := v } := by
  obtain ⟨streams, heq, -, hout, hin⟩ := adjustSendWindows_spec (v - s.peerInitialWindow) ids s
    (hids.nodup_iff.2 s.streams.nodupKeys)
  have hall : ∀ id, streams.lookup id =
      (s.stream? id).map (adjustSend (v - s.peerInitialWindow)) := by
    intro id
    by_cases hmem : id ∈ ids
    · exact (hin hok id hmem).1
    · have hnone : s.stream? id = none :=
        AList.lookup_eq_none.2 fun h => hmem (hids.mem_iff.2 (AList.mem_keys.1 h))
      rw [hout id hmem, hnone]
      rfl
  have hfit : ∀ id st, s.endpoint.streams id = some st → st.state ≠ .closed →
      -2 ^ 31 ≤ st.sendWindow + (v - s.endpoint.peerInitial) ∧
        st.sendWindow + (v - s.endpoint.peerInitial) ≤ maxInt32 := by
    intro id st hst hc
    have hmem : id ∈ ids := by
      refine hids.mem_iff.2 (AList.mem_keys.1 ?_)
      rw [← AList.lookup_isSome]
      exact Option.isSome_iff_exists.2 ⟨st, hst⟩
    exact (hin hok id hmem).2 st hst hc
  refine .single ?_
  have h : Step a e₀ s.endpoint _ := Step.peerInitial ha hv hfit
  rw [heq]
  have hstreams : (fun id => streams.lookup id) =
      fun id => (s.endpoint.streams id).map (adjustSend (v - s.endpoint.peerInitial)) := by
    funext id
    exact hall id
  have hend : ({ ({ s with streams } : Session X) with
      peerInitialWindow := v } : Session X).endpoint =
      { s.endpoint with
        peerInitial := v
        streams := fun id =>
          (s.endpoint.streams id).map (adjustSend (v - s.endpoint.peerInitial)) } := by
    rw [← hstreams]
    rfl
  rw [hend]
  exact h

/-- A session that differs from another in the windows of its streams only. -/
def SameStreams (s s' : Session X) : Prop :=
  ∃ streams ranges, s' = { s with streams, ranges } ∧
    (∀ id, (s.stream? id).map Stream.isLocal = (streams.lookup id).map Stream.isLocal) ∧
    ∀ id st st', s.stream? id = some st → streams.lookup id = some st' →
      st.state = .closed → st'.state = .closed

theorem adjustSend_isLocal (change : ℤ) (st : Stream) :
    (adjustSend change st).isLocal = st.isLocal ∧ (adjustSend change st).state = st.state := by
  unfold adjustSend
  split <;> exact ⟨rfl, rfl⟩

theorem sameStreams_adjust {change : ℤ} {ranges : ℕ} (hnd : ids.Nodup) :
    SameStreams s (adjustSendWindows change ids { s with ranges }).1 := by
  obtain ⟨streams, heq, hor, -, -⟩ := adjustSendWindows_spec change ids { s with ranges } hnd
  refine ⟨streams, ranges, heq, fun id => ?_, fun id st st' hst hst' hc => ?_⟩
  · rcases hor id with h | h
    · rw [h]
      rfl
    · rw [h, Option.map_map]
      congr 1
      funext st
      exact (adjustSend_isLocal change st).1.symm
  · change s.stream? id = some st at hst
    rcases hor id with h | h
    · rw [h] at hst'
      cases hst.symm.trans hst'
      exact hc
    · rw [h] at hst'
      change (s.stream? id).map _ = _ at hst'
      rw [hst] at hst'
      cases hst'
      rw [(adjustSend_isLocal change st).2, hc]

/-- What applying a setting leaves unchanged. -/
structure SettingFrame (s s' : Session X) : Prop where
  failed : s'.failed = s.failed
  history : s'.history = s.history
  processed : s'.lastProcessedPeerStream = s.lastProcessedPeerStream
  pending : s'.pendingSettings = s.pendingSettings

theorem SettingFrame.silent (h : SettingFrame s s') (hs : Silent e₀ s) : Silent e₀ s' :=
  ⟨h.processed.trans hs.1, by rw [h.history, hs.2]⟩

theorem SameStreams.frame (h : SameStreams s s') : SettingFrame s s' := by
  obtain ⟨streams, ranges, rfl, -⟩ := h
  exact ⟨rfl, rfl, rfl, rfl⟩

/-- What applying settings comes to: they have been applied, or those before an error have, the
windows of some streams may have moved, and the connection is lost. -/
def Applied (a : Action) (e₀ : Endpoint X) (s : Session X) :
    Session X × Option SessionError → Prop
  | (s', none) => Reaches a e₀ s s' ∧ SettingFrame s s'
  | (s', some err) =>
    (∃ s₁, Reaches a e₀ s s₁ ∧ SettingFrame s s₁ ∧ SameStreams s₁ s') ∧
      ∃ code reason, err = .protocol 0 code reason

theorem SettingFrame.refl (s : Session X) : SettingFrame s s := ⟨rfl, rfl, rfl, rfl⟩

theorem SettingFrame.trans (h : SettingFrame s s') (h' : SettingFrame s' s'') :
    SettingFrame s s'' :=
  ⟨h'.failed.trans h.failed, h'.history.trans h.history, h'.processed.trans h.processed,
    h'.pending.trans h.pending⟩

theorem applied_applyInitialWindow {v : ℕ} (ha : a.appliesSettings) (hv : v ≤ maxInt32) :
    Applied a e₀ s (s.applyInitialWindow v) := by
  have hperm : (X.rangeOrder s.ranges s.streams.keys).Perm s.streams.keys := X.rangeOrder_perm _ _
  have hsame : SameStreams s (adjustSendWindows (v - s.peerInitialWindow)
      (X.rangeOrder s.ranges s.streams.keys) { s with ranges := s.ranges + 1 }).1 :=
    sameStreams_adjust (hperm.nodup_iff.2 s.streams.keys_nodup)
  have hstep : (adjustSendWindows (v - s.peerInitialWindow)
      (X.rangeOrder s.ranges s.streams.keys) { s with ranges := s.ranges + 1 }).2 = true →
      Reaches a e₀ s { (adjustSendWindows (v - s.peerInitialWindow)
        (X.rangeOrder s.ranges s.streams.keys) { s with ranges := s.ranges + 1 }).1 with
          peerInitialWindow := v } := fun hok => by
    have h1 : Reaches a e₀ s { s with ranges := s.ranges + 1 } := .of_eq rfl
    exact h1.trans (reaches_adjustSendWindows ha ⟨by positivity, by exact_mod_cast hv⟩ hperm hok)
  unfold applyInitialWindow rangeStreams
  simp only
  generalize adjustSendWindows (v - s.peerInitialWindow) (X.rangeOrder s.ranges s.streams.keys)
    { s with ranges := s.ranges + 1 } = r at hsame hstep
  obtain ⟨t, _ | _⟩ := r
  · exact ⟨⟨s, .refl s, .refl s, hsame⟩, _, _, rfl⟩
  · exact ⟨hstep rfl, hsame.frame.failed, hsame.frame.history, hsame.frame.processed,
      hsame.frame.pending⟩

theorem validSetting_initialWindow (hv : validSetting { id := .initialWindowSize, value }) :
    value.toNat ≤ maxInt32 := by
  simp only [validSetting, show SettingID.initialWindowSize ≠ .enablePush by decide,
    show SettingID.initialWindowSize ≠ .enableConnectProtocol by decide,
    show SettingID.initialWindowSize ≠ .noRFC7540Priorities by decide, or_self, if_false,
    if_true, decide_eq_true_eq] at hv
  exact UInt32.le_iff_toNat_le.1 hv

theorem validSetting_maxFrame (hv : validSetting { id := .maxFrameSize, value }) :
    16384 ≤ value.toNat ∧ value.toNat ≤ 16777215 := by
  simp only [validSetting, show SettingID.maxFrameSize ≠ .enablePush by decide,
    show SettingID.maxFrameSize ≠ .enableConnectProtocol by decide,
    show SettingID.maxFrameSize ≠ .noRFC7540Priorities by decide,
    show SettingID.maxFrameSize ≠ .initialWindowSize by decide, or_self, if_false, if_true,
    Bool.and_eq_true, decide_eq_true_eq] at hv
  exact ⟨UInt32.le_iff_toNat_le.1 hv.1, UInt32.le_iff_toNat_le.1 hv.2⟩

theorem applied_error : Applied a e₀ s (s, some (.protocol 0 code reason)) := by
  refine ⟨⟨s, .refl s, .refl s, s.streams, s.ranges, rfl, fun _ => rfl, ?_⟩, _, _, rfl⟩
  intro id st st' h h' hc
  cases h.symm.trans h'
  exact hc

theorem applied_applyPeerSetting {setting : Setting} (ha : a.appliesSettings)
    (hv : validSetting setting) : Applied a e₀ s (s.applyPeerSetting setting) := by
  obtain ⟨id, value⟩ := setting
  unfold applyPeerSetting
  simp only
  split
  · exact ⟨.single (.resize ha), rfl, rfl, rfl, rfl⟩
  split
  · split
    · exact applied_error
    · exact ⟨.single (.announce ha), rfl, rfl, rfl, rfl⟩
  split
  · exact ⟨.single (.announce ha), rfl, rfl, rfl, rfl⟩
  split
  · next h =>
    subst h
    exact applied_applyInitialWindow ha (validSetting_initialWindow hv)
  split
  · next h =>
    subst h
    exact ⟨.single (.peerMaxFrame ha (validSetting_maxFrame hv)), rfl, rfl, rfl, rfl⟩
  split
  · exact ⟨.single (.announce ha), rfl, rfl, rfl, rfl⟩
  split
  · split
    · exact applied_error
    · exact ⟨.of_eq rfl, rfl, rfl, rfl, rfl⟩
  · exact ⟨.refl s, .refl s⟩

theorem Applied.trans {r : Session X × Option SessionError} (hreach : Reaches a e₀ s s')
    (hframe : SettingFrame s s') (h : Applied a e₀ s' r) : Applied a e₀ s r := by
  obtain ⟨t, _ | err⟩ := r
  · exact ⟨hreach.trans h.1, hframe.trans h.2⟩
  · obtain ⟨⟨s₁, hreach', hframe', hsame⟩, hp⟩ := h
    exact ⟨⟨s₁, hreach.trans hreach', hframe.trans hframe', hsame⟩, hp⟩

theorem applied_applyPeerSettings (ha : a.appliesSettings)
    (hv : ∀ x ∈ settings, validSetting x = true) :
    Applied a e₀ s (applyPeerSettings settings s) := by
  induction settings generalizing s with
  | nil => exact ⟨.refl s, .refl s⟩
  | cons setting settings ih =>
    obtain ⟨hv1, hv2⟩ := forall_mem_cons.1 hv
    have h : Applied a e₀ s (s.applyPeerSetting setting) := applied_applyPeerSetting ha hv1
    unfold applyPeerSettings
    generalize s.applyPeerSetting setting = r at h
    obtain ⟨t, _ | err⟩ := r
    · exact (ih hv2).trans h.1 h.2
    · exact h

/-- A connection error while the streams were being changed. -/
theorem reaches_failAdjusted (ha : a.appliesSettings) (hs : Silent e₀ s) (h : SameStreams s s')
    (hf : s.failed = none) :
    Reaches a e₀ s (s'.connectionError code reason) := by
  obtain ⟨streams, ranges, rfl, hlocal, hclosed⟩ := h
  have hfailed : s.endpoint.failed = false := by simp [endpoint, hf]
  have h1 : Reaches a e₀ s ({ ({ s with streams, ranges } : Session X) with
      failed := some (.protocol 0 code reason), goAwaySent := true }.note
        (.failed (.protocol 0 code reason))) :=
    .single (Step.failAdjusted streams.lookup ha hfailed hlocal hclosed hs.processed hs.messages)
  unfold connectionError
  rw [if_neg (not_not.2 (show ({ s with streams, ranges } : Session X).failed = none from hf))]
  refine h1.trans (reaches_sendGoAway rfl ⟨hs.processed, ?_⟩ (Option.some_ne_none _))
  exact (messageEvents_append (by simp)).trans hs.messages

theorem reaches_onSettingsEnd (ha : a.appliesSettings) (hs : Silent e₀ s)
    (hv : ∀ x ∈ s.pendingSettings, validSetting x = true) :
    Reaches a e₀ s (s.onSettingsEnd ack) := by
  unfold onSettingsEnd
  split
  · exact .refl s
  next hf =>
  split
  · split
    · exact reaches_connectionError hs
    · have h1 : Reaches a e₀ s
          { s with localSettingsOutstanding := s.localSettingsOutstanding - 1 } := .of_eq rfl
      exact h1.trans (reaches_offerEvent (by simp [Event.isMessage]))
  have h : Applied a e₀ s (applyPeerSettings s.pendingSettings s) := applied_applyPeerSettings ha hv
  generalize applyPeerSettings s.pendingSettings s = r at h
  obtain ⟨t, _ | err⟩ := r
  · obtain ⟨hreach, hframe⟩ := h
    have h1 : Reaches a e₀ t { t with pendingSettings := [], peerInitialSettings := true } :=
      .single (.clear ha)
    have hs1 : Silent e₀ { t with pendingSettings := [], peerInitialSettings := true } :=
      ⟨(hframe.silent hs).1, (hframe.silent hs).2⟩
    have h2 : Reaches a e₀ s (appendSettings
        { t with pendingSettings := [], peerInitialSettings := true } [] true).1 :=
      hreach.trans (h1.trans reaches_appendSettings)
    have hs2 : Silent e₀ (appendSettings
        { t with pendingSettings := [], peerInitialSettings := true } [] true).1 :=
      silent_appendSettings hs1
    simp only
    generalize appendSettings { t with pendingSettings := [], peerInitialSettings := true } [] true
      = w at h2 hs2
    obtain ⟨u, _ | err⟩ := w
    · exact h2.trans (reaches_offerEvent (by simp [Event.isMessage]))
    · exact h2.trans (reaches_connectionError hs2)
  · obtain ⟨⟨s₁, hreach, hframe, hsame⟩, code, reason, rfl⟩ := h
    simp only [handleProtocolError, if_true]
    exact hreach.trans (reaches_failAdjusted ha (hframe.silent hs) hsame
      (hframe.failed.trans (not_not.1 hf)))

/-! ## Delivery -/

/-- The function of a callback that raises no window, once the callback is recorded. -/
theorem reaches_handle (hid : s.endpoint.IdSpace)
    (hv : ∀ x ∈ s.pendingSettings, validSetting x = true)
    (hcall : ∀ setting, call = .setting setting → validSetting setting = true)
    (hw : ∀ id n, call ≠ .windowUpdate id n) :
    Reaches (.deliver call) s.endpoint (s.note (.received call)) (s.deliver call) := by
  have hs : Silent s.endpoint (s.note (.received call)) := ⟨rfl, messageEvents_append (by simp)⟩
  have hid : (s.note (.received call)).endpoint.IdSpace := hid.note (by simp)
  cases call with
  | frameBegin header => exact reaches_onFrameBegin rfl hid hs
  | data streamID data endStream => exact reaches_onData rfl hid hs
  | headerBlock streamID fragment => exact reaches_onHeaderBlock trivial hs
  | headerBlockEnd streamID endStream => exact reaches_onHeaderBlockEnd rfl hid hs
  | priority streamID priority => exact reaches_onPriority
  | rstStream streamID code => exact reaches_onRSTStream hs
  | setting setting => exact .single (.pend rfl (hcall setting rfl))
  | settingsEnd ack => exact reaches_onSettingsEnd trivial hs hv
  | pushPromise streamID promisedStreamID => exact reaches_onPushPromise rfl hid hs
  | ping data ack => exact reaches_onPing hs
  | goAway lastStreamID code => exact reaches_onGoAway hs
  | goAwayDebug => exact .refl _
  | windowUpdate id n => exact absurd rfl (hw id n)
  | unknown header fragment => exact reaches_onUnknown hs
  | frameComplete header => exact reaches_onFrameComplete rfl hid hs

/-- **A callback of the parser is a sequence of elementary changes.** -/
theorem reaches_deliver (hid : s.endpoint.IdSpace)
    (hv : ∀ x ∈ s.pendingSettings, validSetting x = true)
    (hcall : ∀ setting, call = .setting setting → validSetting setting = true) :
    Reaches (.deliver call) s.endpoint s (s.deliver call) := by
  by_cases hw : ∃ id n, call = .windowUpdate id n
  · obtain ⟨id, n, rfl⟩ := hw
    exact reaches_deliver_windowUpdate
  · have h1 : Reaches (.deliver call) s.endpoint s (s.note (.received call)) :=
      reaches_note ⟨rfl, rfl, fun ⟨id, n, h, _⟩ => hw ⟨id, n, h⟩⟩
    exact h1.trans (reaches_handle hid hv hcall fun id n h => hw ⟨id, n, h⟩)

end WagoHttp.Http2.Session
