import WagoHttp.Http2.Session.Queues

/-!
# The outcomes of streams

When the peer ends or aborts a stream, and when the session raises a stream error, the owner is to
learn of it: a session queues an event for the outcome. `outcomes` lists the outcomes that a
callback of the frame parser commits. The queue of events is bounded, and a session drops an outcome
that finds it full. `OutcomeRoom` says when it does not: there is room for the outcomes of the
callback, after the section that it reports ahead of them.
-/

namespace WagoHttp.Http2

/-- The event for a stream that the peer has ended. -/
def Event.ended (streamID : ℕ) : Event := { type := .streamEnd, streamID }

/-- The event for a stream that has been aborted. -/
def Event.aborted (streamID : ℕ) (errorCode : ErrorCode) : Event :=
  { type := .streamReset, streamID, errorCode }

/-- The event is the outcome of a stream. -/
def Event.isOutcome (event : Event) : Bool := event.type == .streamEnd || event.type == .streamReset

/-- The outcome of a stream error. -/
def SessionError.outcome : SessionError → List Event
  | .protocol streamID code _ => if streamID = 0 then [] else [.aborted streamID code]
  | _ => []

namespace Session

open Runs List

variable {X : Externals} {s s' s'' : Session X} {evs evs' : List Event}

/-! ## The outcomes of a callback -/

variable (s)

/-- What `remoteEnd` commits: the end of the stream, or the error of a body that does not have the
length that was announced. -/
def endOutcome (id : ℕ) : List Event :=
  match s.stream? id with
  | none => []
  | some st =>
    if st.receiveHasLength && !st.receiveNoBody && st.receiveLength != st.receiveBody then
      [.aborted id .protocol]
    else if st.state ≠ .closed then [.ended id]
    else []

def chargeOutcome (header : FrameHeader) : List Event :=
  match s.stream? header.streamID with
  | none => [.aborted header.streamID .streamClosed]
  | some st =>
    if !canReceive st.state || !st.receivedHeaders || st.receivedTrailers || st.receiveNoBody then
      [.aborted header.streamID .streamClosed]
    else if header.length > s.connectionRecvWindow then []
    else if header.length > st.recvWindow then [.aborted header.streamID .flowControl]
    else []

def frameBeginOutcome (header : FrameHeader) : List Event :=
  if s.failed ≠ none then []
  else
    let s := { s with currentFrame := header }
    if !s.peerInitialSettings && (header.type ≠ .settings || header.flags.has .ack) then []
    else if header.type = .headers then
      match (s.beginInboundHeaders header.streamID (header.flags.has .endStream)).2 with
      | some err => err.outcome
      | none => []
    else if header.type = .data then s.chargeOutcome header
    else []

def dataOutcome (streamID : ℕ) (data : Bytes) : List Event :=
  if s.failed ≠ none ∨ data = [] then []
  else
    match s.stream? streamID with
    | none => []
    | some st =>
      if st.receiveHasLength && data.length > sub64 st.receiveLength st.receiveBody then
        [.aborted streamID .protocol]
      else []

def commitOutcome (id : ℕ) (st : Stream) (endStream : Bool) : List Event :=
  let m := inspectHeaderSection s.currentHeaders
  if s.currentHeaderPush then []
  else if !m.informational then
    let s := s.setStream id (Stream.receiveSection st m s.currentHeaderTrailer)
    if endStream then s.endOutcome id else []
  else if endStream then [.aborted id .protocol]
  else []

def sectionOutcome (endStream : Bool) : List Event :=
  match s.stream? s.currentHeaderEventStream with
  | none => []
  | some st =>
    if !s.validSection then [.aborted s.currentHeaderEventStream .protocol]
    else s.commitOutcome s.currentHeaderEventStream st endStream

def blockEndOutcome (streamID : ℕ) (endStream : Bool) : List Event :=
  if s.failed ≠ none ∨ streamID ≠ s.currentHeaderStream then []
  else
    match s.endDecoderBlock with
    | (_, some _) => []
    | (s, none) => s.sectionOutcome endStream

def promiseOutcome (streamID promisedStreamID : ℕ) : List Event :=
  if s.failed ≠ none then []
  else if s.role ≠ .client || !s.limits.enablePush || !s.peerEnablePush ||
      promisedStreamID = 0 || promisedStreamID % 2 ≠ 0 || promisedStreamID ≤ s.lastPeerStream ||
      !(s.stream? streamID).any (canReceive ·.state) then []
  else if s.activePeer ≥ s.limits.maxConcurrentStreams.toNat ∨
      s.streamCount ≥ s.limits.maxStreams.toNat then
    [.aborted promisedStreamID .refusedStream]
  else []

def rstOutcome (streamID : ℕ) (code : ErrorCode) : List Event :=
  match s.stream? streamID with
  | none => []
  | some _ => [.aborted streamID code]

/-- The streams that a GOAWAY frame refuses, in the order of the range loop. -/
def refusals (lastStreamID : ℕ) : List ℕ → Session X → List Event
  | [], _ => []
  | id :: ids, s =>
    match s.stream? id with
    | none => refusals lastStreamID ids s
    | some st =>
      if st.isLocal ∧ id > lastStreamID ∧ st.state ≠ .closed then
        .aborted id .refusedStream :: refusals lastStreamID ids
          ((s.closeStream id).offerEvent (.aborted id .refusedStream))
      else refusals lastStreamID ids s

def goAwayOutcome (lastStreamID : ℕ) : List Event :=
  if s.goAwayReceived ∧ lastStreamID > s.peerLastStream then []
  else
    let (ids, s) := { s with goAwayReceived := true, peerLastStream := lastStreamID }.rangeStreams
    s.refusals lastStreamID ids

def windowOutcome (streamID increment : ℕ) : List Event :=
  if s.failed ≠ none ∨ streamID = 0 then []
  else
    match s.stream? streamID with
    | none => []
    | some st =>
      if st.state ≠ .closed ∧ st.sendWindow > maxInt32 - increment then
        [.aborted streamID .flowControl]
      else []

def completeOutcome (header : FrameHeader) : List Event :=
  if s.failed ≠ none then []
  else
    let s := s.countFrame header
    if isControlFrame header && s.controlFrames > s.limits.maxControlFrames.toNat then []
    else if header.type = .data ∧ header.flags.has .endStream then
      match s.stream? header.streamID with
      | none => []
      | some st => (s.creditConnection.creditStream header.streamID st).endOutcome header.streamID
    else []

/-- The outcomes that a callback commits. -/
def outcomes : Callback → List Event
  | .frameBegin header => s.frameBeginOutcome header
  | .data streamID data _ => s.dataOutcome streamID data
  | .headerBlockEnd streamID endStream => s.blockEndOutcome streamID endStream
  | .rstStream streamID code => s.rstOutcome streamID code
  | .pushPromise streamID promisedStreamID => s.promiseOutcome streamID promisedStreamID
  | .goAway lastStreamID _ => s.goAwayOutcome lastStreamID
  | .windowUpdate streamID increment => s.windowOutcome streamID increment
  | .frameComplete header => s.completeOutcome header
  | _ => []

/-- The events that a callback queues ahead of its outcomes: a valid section is reported first. -/
def ahead : Callback → ℕ
  | .headerBlockEnd _ _ => if s.validSection then 1 else 0
  | _ => 0

/-- There is room for events after `n` others. -/
def RoomFor (n : ℕ) (evs : List Event) : Prop :=
  evs = [] ∨ s.events.length + n + evs.length ≤ s.limits.maxQueuedEvents.toNat

instance (s : Session X) (n : ℕ) (evs : List Event) : Decidable (s.RoomFor n evs) :=
  inferInstanceAs (Decidable (_ ∨ _))

/-- **When no outcome is dropped.** A callback that commits outcomes finds room for them in the
queue. -/
def OutcomeRoom : Action → Prop
  | .deliver call =>
    (s.note (.received call)).RoomFor (s.ahead call) ((s.note (.received call)).outcomes call)
  | _ => True

instance (s : Session X) (a : Action) : Decidable (s.OutcomeRoom a) := by
  induction a using Action.casesOn <;> (dsimp only [OutcomeRoom]; infer_instance)

variable {s}

/-! ## Reports -/

/-- Events are queued, the outcomes among them being `evs`. -/
def Adds (s s' : Session X) (evs : List Event) : Prop :=
  ∃ new, s'.events = s.events ++ new ∧
    queuedEvents s'.history = queuedEvents s.history ++ new ∧ new.filter Event.isOutcome = evs

/-- The session fails, or it queues exactly the outcomes `evs`. -/
def Reports (s s' : Session X) (evs : List Event) : Prop := s'.failed ≠ none ∨ Adds s s' evs

theorem Adds.trans (h : Adds s s' evs) (h' : Adds s' s'' evs') : Adds s s'' (evs ++ evs') := by
  obtain ⟨new, he, hq, rfl⟩ := h
  obtain ⟨new', he', hq', rfl⟩ := h'
  refine ⟨new ++ new', ?_, ?_, filter_append ..⟩
  · rw [he', he, append_assoc]
  · rw [hq', hq, append_assoc]

theorem Adds.reports (h : Adds s s' evs) (h' : Reports s' s'' evs') :
    Reports s s'' (evs ++ evs') := h'.imp_right h.trans

/-- What only writes adds no events. -/
theorem adds_of_queues (h : Queues 0 false s s') : Adds s s' [] := by
  obtain ⟨new, hlog, hq, -⟩ := h
  have hnil := hq rfl
  refine ⟨[], ?_, ?_, rfl⟩
  · rw [hlog.events, hnil]
  · rw [hlog.history, queuedEvents, flatMap_append]
    exact congrArg _ hnil

/-- What only writes, and then reports. -/
theorem Reports.after (h : Queues 0 false s s') (h' : Reports s' s'' evs) : Reports s s'' evs :=
  (adds_of_queues h).reports h'

theorem reports_refl (s : Session X) : Reports s s [] :=
  .inr (adds_of_queues (.refl s))

theorem reports_connectionError (t : Session X) (code : ErrorCode) (reason : String) :
    Reports s (t.connectionError code reason) evs := .inl (failed_connectionError t code reason)

variable {event : Event} {id n : ℕ} {code : ErrorCode} {err : SessionError} {header : FrameHeader}
  {endStream : Bool} {call : Callback} {ops : List Op}

/-- An event that is no outcome may be dropped. -/
theorem reports_offerEvent (s : Session X) (h : event.isOutcome = false) :
    Reports s (s.offerEvent event) [] := by
  unfold offerEvent queueEvent
  simp only
  split
  · exact reports_refl s
  · exact .inr ⟨[event], rfl, by simp [note, queuedEvents, Obs.events], by simp [h]⟩

/-- An event without contents that finds room is queued. -/
theorem offerEvent_of_room (hroom : s.events.length < s.limits.maxQueuedEvents.toNat)
    (hb : eventRetainedBytes event = 0) :
    s.offerEvent event =
      { s with events := s.events ++ [event], eventBytes := s.eventBytes % 2 ^ 32 }.note
        (.queued event) := by
  unfold offerEvent queueEvent
  simp only [hb]
  rw [if_neg (by omega)]
  rfl

theorem adds_outcome (hroom : s.events.length < s.limits.maxQueuedEvents.toNat)
    (hb : eventRetainedBytes event = 0) (h : event.isOutcome = true) :
    Adds s (s.offerEvent event) [event] := by
  rw [offerEvent_of_room hroom hb]
  exact ⟨[event], rfl, by simp [note, queuedEvents, Obs.events], by simp [h]⟩

theorem adds_aborted (hroom : s.events.length < s.limits.maxQueuedEvents.toNat) :
    Adds s (s.offerEvent (.aborted id code)) [.aborted id code] := adds_outcome hroom rfl rfl

theorem RoomFor.lt (h : s.RoomFor n [event]) :
    s.events.length + n < s.limits.maxQueuedEvents.toNat := by
  rcases h with h | h
  · cases h
  · exact h

/-- Room remains when neither the queue nor its bound change. -/
theorem RoomFor.congr (h : s.RoomFor n evs) (he : s'.events = s.events) (hl : s'.limits = s.limits)
    : s'.RoomFor n evs := by
  unfold RoomFor
  rw [he, hl]
  exact h

/-! ## What leaves the queue alone -/

theorem limits_closeStream (s : Session X) (id : ℕ) : (s.closeStream id).limits = s.limits := by
  unfold closeStream releaseActive
  split
  · rfl
  split
  · rfl
  · simp only
    split <;> rfl

theorem limits_appendFrameEvenFailed (s : Session X) (header : FrameHeader) (payload : Bytes) :
    (s.appendFrameEvenFailed header payload).1.limits = s.limits :=
  appendFrameEvenFailed_elim (P := fun t => t.limits = s.limits) rfl rfl

theorem limits_appendFrame (s : Session X) (header : FrameHeader) (payload : Bytes) :
    (s.appendFrame header payload).1.limits = s.limits :=
  appendFrame_elim (P := fun t => t.limits = s.limits) rfl rfl

theorem events_of_queues (h : Queues 0 false s s') : s'.events = s.events := by
  obtain ⟨new, hlog, hq, -⟩ := h
  rw [hlog.events, hq rfl, append_nil]

theorem reports_streamError (hroom : s.RoomFor 0 [.aborted id code]) :
    Reports s (s.streamError id code) [.aborted id code] := by
  have hq : Queues 0 false s ((s.closeStream id).appendFrame
      { type := .rstStream, streamID := id } (putUint32 code.toNat)).1 :=
    (queues_closeStream s id).trans (enters_rstStream _ id code).queues
  refine .after hq (.inr (adds_aborted ?_))
  rw [events_of_queues hq, limits_appendFrame, limits_closeStream]
  exact hroom.lt

theorem reports_handleProtocolError (hroom : s.RoomFor 0 err.outcome) :
    Reports s (s.handleProtocolError err) err.outcome := by
  unfold handleProtocolError
  split
  · next id code reason =>
    split
    · exact reports_connectionError s _ _
    · next hz =>
      have houtcome : (SessionError.protocol id code reason).outcome = [.aborted id code] :=
        if_neg hz
      rw [houtcome] at hroom ⊢
      exact reports_streamError hroom
  · exact reports_connectionError s _ _

theorem reports_remoteEnd (hroom : s.RoomFor 0 (s.endOutcome id)) :
    Reports s (s.remoteEnd id) (s.endOutcome id) := by
  unfold endOutcome at hroom ⊢
  unfold remoteEnd
  cases hst : s.stream? id with
  | none => exact reports_refl s
  | some st =>
    simp only [hst] at hroom ⊢
    split
    · next hlen =>
      rw [if_pos hlen] at hroom
      exact reports_streamError hroom
    next hlen =>
    rw [if_neg hlen] at hroom
    have hq : Queues 0 false s (s.endRemote id st) := 
      (walks_endRemote hst : Walks (blindSide false) _ _ _ _).enters.queues
    have hl : (s.endRemote id st).limits = s.limits := by
      unfold endRemote
      split
      · rfl
      · exact limits_closeStream s id
      · rfl
      · rfl
    by_cases hs : st.state = .closed
    · rw [if_neg (by simp [hs]), if_neg (by simp [hs])]
      exact .inr (adds_of_queues hq)
    · rw [if_pos hs] at hroom
      rw [if_pos hs, if_pos hs]
      refine .inr ((adds_of_queues hq).trans ?_)
      have hadd : Adds (s.endRemote id st) ((s.endRemote id st).offerEvent (.ended id)) [.ended id] :=
        adds_outcome (by rw [events_of_queues hq, hl]; exact hroom.lt) rfl rfl
      exact hadd

/-! ## Received frames -/

theorem reports_chargeData (hroom : s.RoomFor 0 (s.chargeOutcome header)) :
    Reports s (s.chargeData header) (s.chargeOutcome header) := by
  unfold chargeOutcome at hroom ⊢
  unfold chargeData
  cases hst : s.stream? header.streamID with
  | none =>
    simp only [hst] at hroom ⊢
    exact reports_streamError hroom
  | some st =>
    simp only [hst] at hroom ⊢
    split_ifs at hroom ⊢
    · exact reports_streamError hroom
    · exact reports_connectionError s _ _
    · exact reports_streamError hroom
    · exact .after (.of_eq rfl) (reports_refl _)

theorem limits_beginInboundHeaders (s : Session X) (id : ℕ) (endStream : Bool) :
    (s.beginInboundHeaders id endStream).1.limits = s.limits := by
  have hb : ∀ t : Session X, t.beginDecoderBlock.1.limits = t.limits := fun t => by
    unfold beginDecoderBlock
    split <;> rfl
  have hs : ∀ (t : Session X) st, (t.startSection id st endStream).limits = t.limits := fun t st => by
    unfold startSection
    simp only
    split <;> rfl
  have h := begins_beginInboundHeaders s id endStream
  generalize s.beginInboundHeaders id endStream = w at h
  cases h with
  | fails | refused | rejected => rfl
  | known => rw [hb, hs]
  | opens => rw [hb, hs]; rfl

theorem reports_onFrameBegin (hroom : s.RoomFor 0 (s.frameBeginOutcome header)) :
    Reports s (s.onFrameBegin header) (s.frameBeginOutcome header) := by
  unfold frameBeginOutcome at hroom ⊢
  unfold onFrameBegin
  split
  · exact reports_refl s
  next hf =>
  rw [if_neg hf] at hroom
  have hframe : Queues 0 false s { s with currentFrame := header } := .of_eq rfl
  generalize ht : ({ s with currentFrame := header } : Session X) = t at hframe hroom ⊢
  have hroom' : t.RoomFor 0 _ := hroom.congr (by rw [← ht]) (by rw [← ht])
  refine .after hframe ?_
  clear hroom ht
  simp only at hroom' ⊢
  split
  · exact reports_connectionError t _ _
  next hset =>
  rw [if_neg hset] at hroom'
  split
  · next hh =>
    rw [if_pos hh] at hroom'
    have hq : Queues 0 false t (t.beginInboundHeaders header.streamID
        (header.flags.has .endStream)).1 := (enters_beginInboundHeaders t _ _).queues
    have hl := limits_beginInboundHeaders t header.streamID (header.flags.has .endStream)
    generalize t.beginInboundHeaders header.streamID (header.flags.has .endStream) = w at hroom' hq hl
    obtain ⟨u, _ | err⟩ := w
    · exact .after hq (reports_refl u)
    · exact .after hq (reports_handleProtocolError (hroom'.congr (events_of_queues hq) hl))
  next hh =>
  rw [if_neg hh] at hroom'
  split
  · next hd =>
    rw [if_pos hd] at hroom'
    exact reports_chargeData hroom'
  split
  · exact .after (.of_eq rfl) (reports_refl _)
  · exact reports_refl t

/-- The data event is reported, or the session fails. -/
theorem reports_onData {data : Bytes} (endStream : Bool)
    (hroom : s.RoomFor 0 (s.dataOutcome id data)) :
    Reports s (s.onData id data endStream) (s.dataOutcome id data) := by
  unfold dataOutcome at hroom ⊢
  unfold onData
  split
  · exact reports_refl s
  next hf =>
  rw [if_neg hf] at hroom
  cases hst : s.stream? id with
  | none => exact reports_refl s
  | some st =>
    simp only [hst] at hroom ⊢
    split
    · next hlen =>
      rw [if_pos hlen] at hroom
      exact reports_streamError hroom
    · have hevent : ({ type := .data, streamID := id, endStream, data } : Event).isOutcome = false :=
        rfl
      refine .after (queues_setStream s id
        { st with receiveBody := (st.receiveBody + data.length) % 2 ^ 64 }) ?_
      have hrep := reports_offerEvent
        (s.setStream id { st with receiveBody := (st.receiveBody + data.length) % 2 ^ 64 }) hevent
      unfold offerEvent at hrep
      generalize queueEvent _ _ = w at hrep
      obtain ⟨t, _ | err⟩ := w
      · exact hrep
      · exact reports_connectionError t _ _

/-! ## Sections -/

theorem reports_commitSection {st : Stream}
    (hroom : s.RoomFor 0 (s.commitOutcome id st endStream)) :
    Reports s (s.commitSection id st endStream) (s.commitOutcome id st endStream) := by
  unfold commitOutcome at hroom ⊢
  unfold commitSection
  simp only at hroom ⊢
  split
  · exact .after (queues_setStream s _ _) (reports_refl _)
  next hpush =>
  rw [if_neg hpush] at hroom
  split
  · next hinf =>
    rw [if_pos hinf] at hroom
    refine .after (queues_setStream s id
      (Stream.receiveSection st (inspectHeaderSection s.currentHeaders) s.currentHeaderTrailer)) ?_
    split
    · next hend =>
      rw [if_pos hend] at hroom
      exact reports_remoteEnd (hroom.congr rfl rfl)
    · exact reports_refl _
  next hinf =>
  rw [if_neg hinf] at hroom
  split
  · next hend =>
    rw [if_pos hend] at hroom
    exact reports_streamError hroom
  · exact reports_refl s

theorem reports_finishSection
    (hroom : s.RoomFor (if s.validSection then 1 else 0) (s.sectionOutcome endStream)) :
    Reports s (s.finishSection endStream) (s.sectionOutcome endStream) := by
  unfold sectionOutcome at hroom ⊢
  unfold finishSection
  cases hst : s.stream? s.currentHeaderEventStream with
  | none => exact reports_refl s
  | some st =>
    simp only [hst] at hroom ⊢
    by_cases hv : s.validSection = true
    · simp only [hv, Bool.not_true, Bool.false_eq_true, if_false, if_true] at hroom ⊢
      have hnot : (s.sectionEvent endStream).isOutcome = false := by
        unfold sectionEvent Event.isOutcome
        cases s.currentHeaderPush <;> rfl
      unfold queueEvent
      simp only
      by_cases hfull : s.events.length ≥ s.limits.maxQueuedEvents.toNat ∨
          eventRetainedBytes (s.sectionEvent endStream) >
            sub32 s.limits.maxQueuedEventBytes.toNat s.eventBytes
      · rw [if_pos hfull]
        exact reports_connectionError s _ _
      · rw [if_neg hfull]
        set t := ({ s with
          events := s.events ++ [s.sectionEvent endStream]
          eventBytes := (s.eventBytes + eventRetainedBytes (s.sectionEvent endStream)) % 2 ^ 32
          } : Session X).note (.queued (s.sectionEvent endStream)) with ht
        have hadd : Adds s t [] :=
          ⟨[s.sectionEvent endStream], rfl, by simp [ht, note, queuedEvents, Obs.events],
            by simp [hnot]⟩
        have hroom' : t.RoomFor 0 (t.commitOutcome s.currentHeaderEventStream st endStream) := by
          refine hroom.imp id fun hle => ?_
          have hlen : t.events.length = s.events.length + 1 := by simp [ht, note]
          change t.events.length + 0 + (s.commitOutcome s.currentHeaderEventStream st
            endStream).length ≤ s.limits.maxQueuedEvents.toNat
          omega
        exact hadd.reports ((reports_commitSection hroom').imp id id)
    · simp only [hv, Bool.not_false, if_true, Bool.false_eq_true, if_false] at hroom ⊢
      exact reports_streamError hroom

theorem reports_onHeaderBlockEnd
    (hroom : s.RoomFor (if s.validSection then 1 else 0) (s.blockEndOutcome id endStream)) :
    Reports s (s.onHeaderBlockEnd id endStream) (s.blockEndOutcome id endStream) := by
  unfold blockEndOutcome at hroom ⊢
  unfold onHeaderBlockEnd
  split
  · exact reports_refl s
  next hf =>
  rw [if_neg hf] at hroom
  have hq : Queues 0 false s s.endDecoderBlock.1 := by
    unfold endDecoderBlock
    simp only
    split
    · exact (Queues.noted (s := s) rfl rfl).trans (.of_eq rfl)
    · exact .of_eq rfl
  have hsame : s.endDecoderBlock.1.limits = s.limits ∧
      s.endDecoderBlock.1.validSection = s.validSection := by
    unfold endDecoderBlock
    simp only
    split <;> exact ⟨rfl, rfl⟩
  generalize s.endDecoderBlock = w at hroom hq hsame
  obtain ⟨t, _ | err⟩ := w
  · refine .after hq (reports_finishSection ?_)
    rw [hsame.2]
    exact hroom.congr (events_of_queues hq) hsame.1
  · exact reports_connectionError t _ _

/-! ## Other frames -/

theorem reports_onPushPromise {promised : ℕ} (hroom : s.RoomFor 0 (s.promiseOutcome id promised)) :
    Reports s (s.onPushPromise id promised) (s.promiseOutcome id promised) := by
  unfold promiseOutcome at hroom ⊢
  unfold onPushPromise
  split
  · exact reports_refl s
  next hf =>
  rw [if_neg hf] at hroom
  split
  · exact reports_connectionError s _ _
  next hmay =>
  rw [if_neg hmay] at hroom
  split
  · next hfull =>
    rw [if_pos hfull] at hroom
    exact reports_streamError hroom
  · have hres : Queues 0 false s (s.reserveRemote id promised) :=
      (queues_addStream s promised (s.freshStream .reservedRemote false)).trans (.of_eq rfl)
    have hq := hres.trans (enters_beginDecoderBlock (s.reserveRemote id promised)).queues
    generalize (s.reserveRemote id promised).beginDecoderBlock = w at hq
    obtain ⟨t, _ | err⟩ := w
    · exact .after hq (reports_refl t)
    · exact reports_connectionError t _ _

theorem reports_onRSTStream (hroom : s.RoomFor 0 (s.rstOutcome id code)) :
    Reports s (s.onRSTStream id code) (s.rstOutcome id code) := by
  unfold rstOutcome at hroom ⊢
  unfold onRSTStream
  cases hst : s.stream? id with
  | none =>
    simp only
    split
    · exact reports_connectionError s _ _
    · exact reports_refl s
  | some st =>
    simp only [hst] at hroom ⊢
    have hq : Queues 0 false s (s.closeStream id) := queues_closeStream s id
    refine .after hq (.inr (adds_aborted ?_))
    rw [events_of_queues hq, limits_closeStream]
    exact hroom.lt

/-- The streams that GOAWAY refuses are reported one after the other. -/
theorem adds_refuseStreams (last : ℕ) (ids : List ℕ) (s : Session X)
    (hroom : s.RoomFor 0 (s.refusals last ids)) :
    Adds s (s.refuseStreams last ids) (s.refusals last ids) := by
  induction ids generalizing s with
  | nil => exact adds_of_queues (.refl s)
  | cons id ids ih =>
    unfold refusals at hroom ⊢
    unfold refuseStreams
    cases hst : s.stream? id with
    | none =>
      simp only [hst] at hroom ⊢
      exact ih s hroom
    | some st =>
      simp only [hst] at hroom ⊢
      split
      · next href =>
        rw [if_pos href] at hroom
        have hq : Queues 0 false s (s.closeStream id) := queues_closeStream s id
        have he := events_of_queues hq
        have hl := limits_closeStream s id
        rcases hroom with hnil | hle
        · cases hnil
        rw [length_cons] at hle
        have hlt : (s.closeStream id).events.length <
            (s.closeStream id).limits.maxQueuedEvents.toNat := by
          rw [he, hl]
          omega
        have hbytes : eventRetainedBytes (.aborted id .refusedStream) = 0 := rfl
        have hoffer := offerEvent_of_room hlt hbytes
        have hlen : ((s.closeStream id).offerEvent (.aborted id .refusedStream)).events.length =
            s.events.length + 1 := by
          rw [hoffer, ← he]
          exact length_append
        have hlim : ((s.closeStream id).offerEvent (.aborted id .refusedStream)).limits =
            s.limits := by
          rw [hoffer, ← hl]
          rfl
        refine ((adds_of_queues hq).trans (adds_aborted hlt)).trans (ih _ (.inr ?_))
        rw [hlen, hlim]
        omega
      · next href =>
        rw [if_neg href] at hroom
        exact ih s hroom

theorem reports_onGoAway {last : ℕ} (code : ErrorCode)
    (hroom : s.RoomFor 0 (s.goAwayOutcome last)) :
    Reports s (s.onGoAway last code) (s.goAwayOutcome last) := by
  unfold goAwayOutcome at hroom ⊢
  unfold onGoAway
  split
  · exact reports_connectionError s _ _
  next hlast =>
  rw [if_neg hlast] at hroom
  simp only [rangeStreams] at hroom ⊢
  have hq : Queues 0 false s
      { s with goAwayReceived := true, peerLastStream := last, ranges := s.ranges + 1 } :=
    .of_eq rfl
  refine .after hq ?_
  have hroom' : ({ s with
      goAwayReceived := true, peerLastStream := last, ranges := s.ranges + 1 } :
        Session X).RoomFor 0 _ := hroom.congr rfl rfl
  have hadd := adds_refuseStreams last _ _ hroom'
  have hevent : ({ type := .goAway, lastStreamID := last, errorCode := code } : Event).isOutcome =
      false := rfl
  have hrep := hadd.reports (reports_offerEvent _ hevent)
  rwa [append_nil] at hrep

theorem reports_onWindowUpdate {increment : ℕ}
    (hroom : s.RoomFor 0 (s.windowOutcome id increment)) :
    Reports s (s.onWindowUpdate id increment) (s.windowOutcome id increment) := by
  unfold windowOutcome at hroom ⊢
  unfold onWindowUpdate
  split
  · next hf =>
    rw [if_pos (Or.inl hf)]
    exact reports_refl s
  next hf =>
  split
  · next hz =>
    rw [if_pos (Or.inr hz)]
    split
    · exact reports_connectionError s _ _
    · have hq : Queues 0 false s
          { s with connectionSendWindow := s.connectionSendWindow + increment } := .of_eq rfl
      exact .after hq (reports_offerEvent _ rfl)
  next hz =>
  rw [if_neg (not_or.2 ⟨hf, hz⟩)] at hroom ⊢
  cases hst : s.stream? id with
  | none =>
    simp only
    split
    · exact reports_connectionError s _ _
    · exact reports_refl s
  | some st =>
    simp only [hst] at hroom ⊢
    by_cases hc : st.state = .closed
    · simp only [hc, ne_eq, not_true_eq_false, false_and, if_true, if_false]
      exact reports_refl s
    by_cases hov : st.sendWindow > maxInt32 - increment
    · simp only [hc, hov, ne_eq, not_false_eq_true, and_self, if_true, if_false] at hroom ⊢
      exact reports_streamError hroom
    · simp only [hc, hov, ne_eq, and_false, if_false]
      exact .after (queues_setStream s id
        { st with sendWindow := st.sendWindow + increment }) (reports_offerEvent _ rfl)

theorem limits_credits (s : Session X) (id : ℕ) (st : Stream) :
    (s.creditConnection.creditStream id st).limits = s.limits := by
  have hw : ∀ (t : Session X) id n, (t.appendWindowUpdate id n).1.limits = t.limits := by
    intro t id n
    unfold appendWindowUpdate
    split
    · rfl
    · exact limits_appendFrameEvenFailed t _ _
  have hconn : s.creditConnection.limits = s.limits := by
    unfold creditConnection
    simp only
    split
    · exact hw s 0 _
    · rfl
  unfold creditStream
  simp only
  split
  · exact (hw _ id _).trans hconn
  · exact hconn

theorem reports_onFrameComplete (hroom : s.RoomFor 0 (s.completeOutcome header)) :
    Reports s (s.onFrameComplete header) (s.completeOutcome header) := by
  unfold completeOutcome at hroom ⊢
  unfold onFrameComplete
  split
  · exact reports_refl s
  next hf =>
  rw [if_neg hf] at hroom
  have hcount : Queues 0 false s (s.countFrame header) := .of_eq rfl
  have hroom' : (s.countFrame header).RoomFor 0 _ := hroom.congr rfl rfl
  refine .after hcount ?_
  clear hroom hcount
  generalize s.countFrame header = t at hroom' ⊢
  simp only at hroom' ⊢
  split
  · exact reports_connectionError t _ _
  next hquota =>
  rw [if_neg hquota] at hroom'
  by_cases hd : header.type = .data
  · rw [if_pos hd]
    simp only [hd, true_and] at hroom' ⊢
    unfold completeData
    cases hst : t.stream? header.streamID with
    | none =>
      simp only [ite_self]
      exact reports_refl t
    | some st =>
      simp only [hst] at hroom' ⊢
      have hq : Queues 0 false t (t.creditConnection.creditStream header.streamID st) :=
        (walks_credits hst : Walks (blindSide false) _ _ _ _).enters.queues
      split
      · next hend =>
        rw [if_pos hend] at hroom'
        exact .after hq (reports_remoteEnd (hroom'.congr (events_of_queues hq)
          (limits_credits t header.streamID st)))
      · exact .after hq (reports_refl _)
  · simp only [hd, false_and, if_false]
    split
    · unfold completePriorityUpdate
      split
      · exact reports_connectionError t _ _
      · exact reports_offerEvent t rfl
    · exact reports_refl t

/-- The errors of the peer's settings concern the connection. -/
theorem outcome_applyPeerSettings (settings : List Setting) (s : Session X)
    (h : (applyPeerSettings settings s).2 = some err) : err.outcome = [] := by
  induction settings generalizing s with
  | nil => cases h
  | cons setting settings ih =>
    have hone : ∀ err, (s.applyPeerSetting setting).2 = some err → err.outcome = [] := by
      intro err h
      unfold applyPeerSetting applyInitialWindow at h
      simp only at h
      split_ifs at h
      all_goals try cases h
      all_goals try rfl
      split at h
      · cases h
        rfl
      · cases h
    unfold applyPeerSettings at h
    generalize s.applyPeerSetting setting = w at h hone
    obtain ⟨t, _ | err'⟩ := w
    · exact ih t h
    · cases h
      exact hone err rfl

theorem reports_onSettingsEnd (s : Session X) (ack : Bool) :
    Reports s (s.onSettingsEnd ack) [] := by
  unfold onSettingsEnd
  split
  · exact reports_refl s
  split
  · split
    · exact reports_connectionError s _ _
    · have hq : Queues 0 false s
          { s with localSettingsOutstanding := s.localSettingsOutstanding - 1 } := .of_eq rfl
      exact .after hq (reports_offerEvent _ rfl)
  have hq : Queues 0 false s (s.applyPeerSettings s.pendingSettings).1 :=
    ((walks_applyPeerSettings s.pendingSettings s).1 : Walks (blindSide false) _ _ _ _).enters.queues
  have herr : ∀ err, (s.applyPeerSettings s.pendingSettings).2 = some err → err.outcome = [] :=
    fun _ => outcome_applyPeerSettings s.pendingSettings s
  generalize s.applyPeerSettings s.pendingSettings = w at hq herr
  obtain ⟨t, _ | err⟩ := w
  · simp only
    have hset : Queues 0 false t { t with pendingSettings := [], peerInitialSettings := true } :=
      .of_eq rfl
    have hack := hset.trans (walks_settingsAck _ : Walks (blindSide false) _ _ _ _).enters.queues
    generalize appendSettings _ _ _ = w at hack
    obtain ⟨u, _ | err⟩ := w
    · exact .after (hq.trans hack) (reports_offerEvent _ rfl)
    · exact reports_connectionError u _ _
  · have hroom : t.RoomFor 0 err.outcome := .inl (herr err rfl)
    have hrep := reports_handleProtocolError hroom
    rw [herr err rfl] at hrep
    exact .after hq hrep

theorem reports_onPing (s : Session X) (data : Bytes) (ack : Bool) :
    Reports s (s.onPing data ack) [] := by
  unfold onPing
  split
  · exact reports_refl s
  split
  · exact reports_offerEvent s rfl
  · have hq : Queues 0 false s (s.appendFrame { type := .ping, flags := .ack } data).1 :=
      (enters_appendFrame (.ping data true) rfl fun _ _ hv => length_of_valid_ping rfl hv).queues
    generalize s.appendFrame { type := .ping, flags := .ack } data = w at hq
    obtain ⟨t, _ | err⟩ := w
    · exact .after hq (reports_offerEvent _ rfl)
    · exact reports_connectionError t _ _

/-- **A callback reports its outcomes, or the session fails**, if there is room for them. -/
theorem reports_handle (hroom : s.RoomFor (s.ahead call) (s.outcomes call)) :
    Reports s (s.handle call) (s.outcomes call) := by
  cases call with
  | frameBegin header => exact reports_onFrameBegin hroom
  | data id data endStream => exact reports_onData endStream hroom
  | headerBlock id fragment =>
    change Reports s (s.onHeaderBlock id fragment) []
    unfold onHeaderBlock
    split
    · exact reports_refl s
    have hq : Queues 0 false s (s.writeDecoder fragment).1 :=
      (walks_writeDecoder s fragment : Walks (blindSide false) _ _ _ _).enters.queues
    generalize s.writeDecoder fragment = w at hq
    obtain ⟨t, _ | err⟩ := w
    · exact .after hq (reports_refl t)
    · exact reports_connectionError t _ _
  | headerBlockEnd id endStream => exact reports_onHeaderBlockEnd hroom
  | priority id priority =>
    change Reports s (s.onPriority id priority) []
    unfold onPriority
    split
    · exact reports_refl s
    · exact reports_offerEvent s rfl
  | rstStream id code => exact reports_onRSTStream hroom
  | setting setting => exact .after (.of_eq rfl) (reports_refl _)
  | settingsEnd ack => exact reports_onSettingsEnd s ack
  | pushPromise id promised => exact reports_onPushPromise hroom
  | ping data ack => exact reports_onPing s data ack
  | goAway last code => exact reports_onGoAway code hroom
  | goAwayDebug => exact reports_refl s
  | windowUpdate id increment => exact reports_onWindowUpdate hroom
  | unknown header fragment =>
    change Reports s (s.onUnknown header fragment) []
    unfold onUnknown
    split_ifs
    · exact reports_connectionError s _ _
    · exact .after (.of_eq rfl) (reports_refl _)
    · exact reports_refl s
  | frameComplete header => exact reports_onFrameComplete hroom

/-! ## Runs -/

/-- What an action commits is reported. -/
def OutcomesReported (s : Session X) : Action → Prop
  | .deliver call =>
    Reports s (s.deliver call) ((s.note (.received call)).outcomes call)
  | _ => True

theorem reports_deliver (hroom : s.OutcomeRoom (.deliver call)) :
    s.OutcomesReported (.deliver call) := by
  have hnote : Queues 0 false s (s.note (.received call)) := .noted rfl rfl
  refine .after hnote (reports_handle ?_)
  cases call <;> exact hroom

/-- A session that has been closed stays so. -/
theorem closed_run (h : s.Steady) (hc : s.closed = true) : (s.run ops).closed = true := by
  induction ops generalizing s with
  | nil => exact hc
  | cons o ops ih =>
    refine ih (h.op o) ?_
    by_cases ho : o = .call .close
    · subst ho
      simp [op, call, close, hc]
    · exact (closed_op h ho).trans hc

/-- **Every event that has been queued is taken once, in order, or waits in the queue.** -/
theorem yielded_append_events (h : s.Steady) (hopen : (s.run ops).closed = false) :
    ∃ new, s.events ++ new = s.yielded ops ++ (s.run ops).events ∧
      queuedEvents (s.run ops).history = queuedEvents s.history ++ new := by
  induction ops generalizing s with
  | nil => exact ⟨[], by simp [yielded, run], by simp [run]⟩
  | cons o ops ih =>
    have ho : o ≠ .call .close := by
      rintro rfl
      have hclosed : (s.op (.call .close)).closed = true := by
        simp only [op, call, close]
        split
        · assumption
        · rfl
      have hrun : ((s.op (.call .close)).run ops).closed = true := closed_run (h.op _) hclosed
      exact Bool.false_ne_true (hopen.symm.trans hrun)
    obtain ⟨new, htaken, hqueued⟩ := events_op h ho
    obtain ⟨new', hrest, hall⟩ := ih (h.op o) hopen
    refine ⟨new ++ new', ?_, ?_⟩
    · change _ = s.yielded (o :: ops) ++ ((s.op o).run ops).events
      rw [← append_assoc, htaken, append_assoc, hrest, yielded, append_assoc]
    · change queuedEvents ((s.op o).run ops).history = _
      rw [hall, hqueued, append_assoc]

/-- **No outcome is lost** in a run whose actions all find room for their outcomes: each action
queues exactly the outcomes that it commits or fails the session, and what has been queued is what
`NextEvent` has returned, in order, followed by what waits in the queue. -/
theorem outcomes_reported {role : Role} {limits : SessionLimits} {s₀ : Session X} {ops : List Op}
    (hnew : newSession X role limits = .ok s₀) (hok : Meets OutcomeRoom s₀ ops) :
    Meets OutcomesReported s₀ ops ∧
      ((s₀.run ops).closed = false →
        s₀.yielded ops ++ (s₀.run ops).events = queuedEvents (s₀.run ops).history) := by
  refine ⟨hok.mono fun s a h => ?_, fun hopen => ?_⟩
  · cases a with
    | deliver call => exact reports_deliver h
    | _ => exact trivial
  · obtain ⟨new, htaken, hall⟩ := yielded_append_events (steady_newSession hnew) hopen
    obtain ⟨output, header, payload, -, rfl⟩ := newSession_ok hnew
    rw [← htaken, hall]
    rfl

/-- A request that the peer resets. -/
def resetByPeer : List Op :=
  [.call (.openStream SmallHpack.getRequest true),
    .feed (frameBytes .settings 0 0 []), .feed (frameBytes .rstStream 0 1 (putUint32 8)),
    .call .nextEvent, .call .nextEvent]

/-- With the default limits the owner takes the settings and the reset. -/
theorem outcomes_reported_client :
    ∃ s, newSession SmallHpack.externals .client {} = .ok s ∧
      (s.yielded resetByPeer).map Event.type = [.settings, .streamReset] ∧
        Meets OutcomesReported s resetByPeer ∧
          ((s.run resetByPeer).closed = false →
            s.yielded resetByPeer ++ (s.run resetByPeer).events =
              queuedEvents (s.run resetByPeer).history) := by
  obtain ⟨s, hnew, hyield, hok⟩ := exists_newSession (X := SmallHpack.externals)
    (r := .client) (l := {}) (p := fun s =>
      (s.yielded resetByPeer).map Event.type = [.settings, .streamReset] ∧
        Meets OutcomeRoom s resetByPeer) (by decide +kernel)
  exact ⟨s, hnew, hyield, outcomes_reported hnew hok⟩

theorem adds_iff : Adds s s' evs ↔
    s'.events = s.events ++ s'.events.drop s.events.length ∧
      queuedEvents s'.history = queuedEvents s.history ++ s'.events.drop s.events.length ∧
        (s'.events.drop s.events.length).filter Event.isOutcome = evs := by
  constructor
  · rintro ⟨new, he, hq, hf⟩
    rw [he, drop_left]
    exact ⟨rfl, hq, hf⟩
  · rintro ⟨he, hq, hf⟩
    exact ⟨_, he, hq, hf⟩

instance (s : Session X) (a : Action) : Decidable (s.OutcomesReported a) := by
  have (s s' : Session X) evs : Decidable (Adds s s' evs) := decidable_of_iff' _ adds_iff
  induction a using Action.casesOn <;> (dsimp only [OutcomesReported, Reports]; infer_instance)

/-- With room for one event, the settings of the peer fill the queue, and its reset of the stream is
dropped: the stream is closed, the session has not failed, and the owner takes only the settings. -/
theorem reset_dropped :
    ∃ s, newSession SmallHpack.externals .client { maxQueuedEvents := 1 } = .ok s ∧
      (s.run resetByPeer).failed = none ∧
        ((s.run resetByPeer).stream? 1).any (·.state == .closed) = true ∧
          (s.yielded resetByPeer).map Event.type = [.settings] ∧
            ¬Meets OutcomesReported s resetByPeer :=
  exists_newSession (by decide +kernel)

end Session

end WagoHttp.Http2
