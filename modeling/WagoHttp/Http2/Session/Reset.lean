import WagoHttp.Http2.Session.Pair

/-!
# Frames in flight when a stream is reset

When the owner resets a stream, frames that the peer has sent on it may still be on the way. They
should cost neither the connection nor be reported as parts of the message. `Harmless` says so of
one action, and `ResetCondition` says when it is true: no HEADERS frame arrives on the stream, no
octets of DATA arrive while the table still holds it, and RST_STREAM and WINDOW_UPDATE frames arrive
only while the table holds it or below the last stream of the peer.
-/

namespace WagoHttp.Http2

open Runs

/-- The stream of the frame that a callback belongs to. -/
def Callback.streamID : Callback → ℕ
  | .frameBegin header => header.streamID
  | .data id _ _ => id
  | .headerBlock id _ => id
  | .headerBlockEnd id _ => id
  | .priority id _ => id
  | .rstStream id _ => id
  | .pushPromise id _ => id
  | .windowUpdate id _ => id
  | .unknown header _ => header.streamID
  | .frameComplete header => header.streamID
  | .setting _ | .settingsEnd _ | .ping _ _ | .goAway _ _ | .goAwayDebug _ => 0

/-- The entry hands headers, data or the end of a stream to the owner. -/
def Obs.isMessageOn (id : ℕ) : Obs → Bool
  | .queued event =>
    event.streamID = id ∧
      (event.type = .headers ∨ event.type = .data ∨ event.type = .streamEnd)
  | _ => false

/-- What has been handed to the owner on a stream. -/
def messagesOn (id : ℕ) (history : List Obs) : List Obs := history.filter (Obs.isMessageOn id)

theorem messagesOn_concat {id : ℕ} {history : List Obs} {o : Obs} (h : o.isMessageOn id = false) :
    messagesOn id (history ++ [o]) = messagesOn id history := by
  simp [messagesOn, h]

theorem isMessage_of_isMessageOn {id : ℕ} {event : Event}
    (h : (Obs.queued event).isMessageOn id = true) : event.isMessage ∧ event.streamID = id := by
  simp only [Obs.isMessageOn, decide_eq_true_eq] at h
  obtain ⟨hid, h | h | h⟩ := h
  · exact ⟨.inl h, hid⟩
  · exact ⟨.inr (.inl h), hid⟩
  · exact ⟨.inr (.inr (.inr h)), hid⟩

/-! ## A stream that has been reset stays closed -/

namespace Endpoint

variable {X : Externals} {a : Action} {e₀ e e' : Endpoint X}

/-- A stream that the owner has reset has left the table or is closed in it. -/
def ResetClosed (streams : ℕ → Option Stream) (history : List Obs) : Prop :=
  ∀ id state, .reset id state ∈ history →
    .opened id ∈ history ∧ ∀ st, streams id = some st → st.state = .closed

variable {streams : ℕ → Option Stream} {history : List Obs}

theorem ResetClosed.note {o : Obs} (h : ResetClosed streams history)
    (ho : ∀ id state, o = .reset id state →
      .opened id ∈ history ∧ ∀ st, streams id = some st → st.state = .closed) :
    ResetClosed streams (history ++ [o]) := by
  intro id state hmem
  rcases List.mem_append.1 hmem with hmem | hmem
  · exact ⟨List.mem_append_left _ (h id state hmem).1, (h id state hmem).2⟩
  · obtain ⟨hopen, hclosed⟩ := ho id state (List.mem_singleton.1 hmem).symm
    exact ⟨List.mem_append_left _ hopen, hclosed⟩

/-- A change of the table that neither reopens a stream nor opens one that was open before. -/
theorem ResetClosed.of_streams {streams' : ℕ → Option Stream} (h : ResetClosed streams history)
    (hs : ∀ id st', streams' id = some st' → st'.state ≠ .closed →
      .opened id ∉ history ∨ ∃ st, streams id = some st ∧ st.state ≠ .closed) :
    ResetClosed streams' history := by
  intro id state hmem
  obtain ⟨hopen, hclosed⟩ := h id state hmem
  refine ⟨hopen, fun st' hst' => by_contra fun hne => ?_⟩
  rcases hs id st' hst' hne with hnew | ⟨st, hst, hst_ne⟩
  · exact hnew hopen
  · exact hst_ne (hclosed st hst)

theorem ResetClosed.update {id : ℕ} {x : Option Stream} (h : ResetClosed e.streams history)
    (hx : ∀ st', x = some st' → st'.state ≠ .closed →
      .opened id ∉ history ∨ ∃ st, e.streams id = some st ∧ st.state ≠ .closed) :
    ResetClosed (e.set id x).streams history :=
  h.of_streams <| forall_update hx fun _ _ st' hst' hne => .inr ⟨st', hst', hne⟩

theorem ResetClosed.step (hs : Step a e₀ e e') (h : ResetClosed e.streams e.history) :
    ResetClosed e'.streams e'.history := by
  cases hs with
  | note ho => exact h.note (by rintro id state rfl; exact ho.2)
  | stream hst ht =>
    exact h.update fun st' hx hne => .inr ⟨_, hst, ((ht st' hx).2 hne).1⟩
  | openPeer _ _ _ hnew => exact (h.update fun _ _ _ => .inl hnew).note (by simp)
  | openLocal _ _ _ _ _ hnew => exact (h.update fun _ _ _ => .inl hnew).note (by simp)
  | sendData _ _ hst hne => exact (h.update fun _ _ _ => .inr ⟨_, hst, hne⟩).note (by simp)
  | raiseStream _ _ _ hst hne =>
    exact (h.update fun _ _ _ => .inr ⟨_, hst, hne⟩).note (by simp)
  | overflow _ _ _ hst hne =>
    exact (h.update fun _ _ _ => .inr ⟨_, hst, hne⟩).note (by simp)
  | streamRecv _ hst =>
    exact h.update fun st' hx hne => .inr ⟨_, hst, by cases hx; exact hne⟩
  | peerInitial =>
    refine h.of_streams fun id st' hst' hne => .inr ?_
    obtain ⟨st, hst, rfl⟩ := Option.map_eq_some_iff.1 hst'
    refine ⟨st, hst, fun hc => hne ?_⟩
    rw [adjustSend, if_pos hc]
    exact hc
  | failAdjusted streams _ _ hs hc =>
    refine (h.of_streams fun id st' hst' hne => .inr ?_).note (by simp)
    obtain ⟨st, hst⟩ : ∃ st, e.streams id = some st := by
      have := hs id
      rw [show streams id = some st' from hst'] at this
      cases hst : e.streams id with
      | none => simp [hst] at this
      | some st => exact ⟨st, rfl⟩
    exact ⟨st, hst, fun hcl => hne (hc id st st' hst hst' hcl)⟩
  | closeAll => exact h.of_streams (by simp)
  | raise | fail | goAway => exact h.note (by simp)
  | failRaise => exact (h.note (by simp)).note (by simp)
  | _ => exact h

/-- Only the frames of a stream hand parts of its message to the owner. -/
theorem messagesOn_step {id : ℕ} (ha : ¬a.delivers id) (hs : Step a e₀ e e') :
    messagesOn id e'.history = messagesOn id e.history := by
  cases hs with
  | @note o ho =>
    refine messagesOn_concat ?_
    by_contra hm
    rw [Bool.not_eq_false] at hm
    cases o with
    | queued event =>
      obtain ⟨hmessage, rfl⟩ := isMessage_of_isMessageOn hm
      exact ha (ho hmessage).2.1
    | _ => cases hm
  | failRaise => exact (messagesOn_concat rfl).trans (messagesOn_concat rfl)
  | openPeer | openLocal | sendData | raise | raiseStream | overflow | fail | failAdjusted
  | goAway => exact messagesOn_concat rfl
  | _ => rfl

end Endpoint

namespace Session

open Endpoint

variable {X : Externals} {a : Action} {s s' s'' : Session X}

/-- The owner has reset the stream. -/
def wasReset (s : Session X) (id : ℕ) : Bool :=
  s.history.any fun
    | .reset id' _ => id' = id
    | _ => false

theorem wasReset_iff {id : ℕ} : s.wasReset id = true ↔ ∃ state, .reset id state ∈ s.history := by
  unfold wasReset
  rw [List.any_eq_true]
  constructor
  · rintro ⟨o, ho, h⟩
    cases o with
    | reset id' state =>
      obtain rfl := of_decide_eq_true h
      exact ⟨state, ho⟩
    | _ => cases h
  · rintro ⟨state, h⟩
    exact ⟨_, h, by simp⟩

/-- The action handles a part of a frame on the stream: a callback of the frame, or the failure of
the parser in it. -/
def concerns (s : Session X) (id : ℕ) : Action → Prop
  | .deliver call => call.streamID = id
  | .fail _ _ => s.parser.current.streamID = id
  | _ => False

instance (s : Session X) (id : ℕ) (a : Action) : Decidable (s.concerns id a) := by
  induction a using Action.casesOn <;> (dsimp only [concerns]; infer_instance)

/-- The action costs a stream that has been reset nothing: the frames of the stream do not fail the
session, and nothing of its message is reported. -/
structure Harmless (s : Session X) (a : Action) : Prop where
  failed : ∀ id, s.wasReset id = true → s.concerns id a → s.failed = none →
    (s.act a).failed = none
  messages : ∀ id, s.wasReset id = true →
    messagesOn id (s.act a).history = messagesOn id s.history

/-- When the frames of streams that have been reset are harmless. -/
def ResetCondition (s : Session X) : Action → Prop
  | .deliver (.frameBegin header) => s.wasReset header.streamID = true →
    header.type ≠ .headers ∧ s.peerInitialSettings = true
  | .deliver (.data id _ _) => s.wasReset id = true → s.stream? id = none
  | .deliver (.headerBlock id fragment) => s.wasReset id = true → id = s.currentHeaderStream →
    (s.decoder.write fragment).2.2 = none
  | .deliver (.headerBlockEnd id _) =>
    s.wasReset id = true ∨ s.wasReset s.currentHeaderEventStream = true →
      id = s.currentHeaderStream →
        s.decoder.endBlock.2 = none ∧ s.stream? s.currentHeaderEventStream = none
  | .deliver (.rstStream id _) => s.wasReset id = true → s.stream? id = none →
    id ≤ s.lastPeerStream
  | .deliver (.windowUpdate id _) => s.wasReset id = true → s.stream? id = none →
    id ≤ s.lastPeerStream
  | .deliver (.pushPromise id _) => s.wasReset id = false
  | .deliver (.unknown header _) => s.wasReset header.streamID = true →
    header.type ≠ .priorityUpdate
  | .deliver (.frameComplete header) => s.wasReset header.streamID = true →
    header.type ≠ .priorityUpdate ∧
      (isControlFrame header = true →
        (s.controlFrames + 1) % 2 ^ 32 ≤ s.limits.maxControlFrames.toNat)
  | .fail _ _ => s.wasReset s.parser.current.streamID = false
  | _ => True

instance (s : Session X) (a : Action) : Decidable (s.ResetCondition a) := by
  induction a using Action.casesOn with
  | deliver call =>
    induction call using Callback.casesOn <;> (dsimp only [ResetCondition]; infer_instance)
  | _ => dsimp only [ResetCondition]; infer_instance

/-! ## The functions of a frame -/

/-- What neither fails a session nor hands a part of the message of a stream to its owner. -/
structure Mild (id : ℕ) (s s' : Session X) : Prop where
  failed : s.failed = none → s'.failed = none
  messages : messagesOn id s'.history = messagesOn id s.history

variable {id : ℕ}

theorem Mild.refl (s : Session X) : Mild id s s := ⟨fun h => h, rfl⟩

theorem Mild.trans (h : Mild id s s') (h' : Mild id s' s'') : Mild id s s'' :=
  ⟨fun hf => h'.failed (h.failed hf), h'.messages.trans h.messages⟩

theorem messagesOn_of_reaches {e₀ : Endpoint X} (ha : ¬a.delivers id) (h : Reaches a e₀ s s') :
    messagesOn id s'.history = messagesOn id s.history :=
  h.invariant (I := fun e => messagesOn id e.history = messagesOn id s.history)
    (fun hs he => (messagesOn_step ha hs).trans he) rfl

theorem not_delivers_preface : ¬Action.preface.delivers id := by
  rintro (⟨_, _, h⟩ | ⟨_, h, _⟩ | ⟨_, _, h⟩) <;> cases h

theorem failed_appendFrame (s : Session X) (header : FrameHeader) (payload : Bytes) :
    (s.appendFrame header payload).1.failed = s.failed :=
  appendFrame_elim (P := fun t => t.failed = s.failed) rfl rfl

theorem mild_offerEvent {event : Event} (h : (Obs.queued event).isMessageOn id = false) :
    Mild id s (s.offerEvent event) := by
  refine ⟨fun hf => (queueEvent_frame s event).2.1.trans hf, ?_⟩
  unfold offerEvent queueEvent
  simp only
  split
  · rfl
  · exact messagesOn_concat h

theorem mild_streamError (s : Session X) (id' : ℕ) (code : ErrorCode) :
    Mild id s (s.streamError id' code) := by
  refine ⟨fun hf => ?_, ?_⟩
  · unfold streamError
    refine (queueEvent_frame _ _).2.1.trans ((failed_appendFrame _ _ _).trans ?_)
    exact (closeStream_frame s id').2.1.trans hf
  · have hreach : Reaches .preface s.endpoint s _ := reaches_streamError s id' code
    exact messagesOn_of_reaches not_delivers_preface hreach

variable {header : FrameHeader} {endStream : Bool} {fragment : Bytes}

/-- A DATA frame on a stream that has left the table or is closed in it. -/
theorem mild_chargeData (hclosed : ∀ st, s.stream? header.streamID = some st → st.state = .closed) :
    Mild id s (s.chargeData header) := by
  unfold chargeData
  split
  · exact mild_streamError _ _ _
  · next st hst =>
    have hstate : canReceive st.state = false := by
      rw [hclosed st hst]
      rfl
    simp only [hstate, Bool.not_false, Bool.true_or, if_true]
    exact mild_streamError _ _ _

/-- The beginning of a frame on a stream that has left the table or is closed in it. -/
theorem mild_onFrameBegin (hclosed : ∀ st, s.stream? header.streamID = some st → st.state = .closed)
    (ht : header.type ≠ .headers) (hinit : s.peerInitialSettings = true) :
    Mild id s (s.onFrameBegin header) := by
  have hframe : Mild id s { s with currentFrame := header } := ⟨fun h => h, rfl⟩
  have hdata : Mild id _ (chargeData { s with currentFrame := header } header) :=
    mild_chargeData hclosed
  unfold onFrameBegin
  split
  · exact .refl s
  have hinit : ¬(!s.peerInitialSettings &&
      (decide (header.type ≠ .settings) || header.flags.has .ack)) = true := by simp [hinit]
  simp only
  rw [if_neg hinit]
  split
  · exact hframe.trans hdata
  split
  · exact ⟨fun h => h, rfl⟩
  · exact hframe

/-- Data for a stream that has left the table. -/
theorem mild_onData {streamID : ℕ} {data : Bytes} (hst : s.stream? streamID = none) :
    Mild id s (s.onData streamID data endStream) := by
  unfold onData
  split
  · exact .refl s
  · rw [hst]
    exact .refl s

theorem mild_onPriority (s : Session X) (streamID : ℕ) (priority : PriorityParam) :
    Mild id s (s.onPriority streamID priority) := by
  unfold onPriority
  split
  · exact .refl s
  · exact mild_offerEvent (by simp [Obs.isMessageOn])

theorem mild_onUnknown (ht : header.type ≠ .priorityUpdate) :
    Mild id s (s.onUnknown header fragment) := by
  unfold onUnknown
  rw [if_neg ht]
  exact .refl s

theorem mild_onHeaderBlock {streamID : ℕ}
    (hok : streamID = s.currentHeaderStream → (s.decoder.write fragment).2.2 = none) :
    Mild id s (s.onHeaderBlock streamID fragment) := by
  unfold onHeaderBlock
  split
  · exact .refl s
  · next hor =>
    have hok := hok (not_not.1 (not_or.1 hor).2)
    have hwrite : Mild id s (s.writeDecoder fragment).1 ∧ (s.writeDecoder fragment).2 = none := by
      unfold writeDecoder
      generalize s.decoder.write fragment = r at hok
      obtain ⟨decoder, fields, err⟩ := r
      refine ⟨⟨?_, ?_⟩, hok⟩
      · intro hf
        simp only
        split_ifs <;> exact hf
      · simp only
        split_ifs
        · exact messagesOn_concat rfl
        · rfl
    generalize s.writeDecoder fragment = w at hwrite
    obtain ⟨t, err⟩ := w
    obtain ⟨hmild, rfl⟩ := hwrite
    exact hmild

theorem mild_endDecoderBlock (s : Session X) : Mild id s s.endDecoderBlock.1 := by
  unfold endDecoderBlock
  simp only
  split
  · exact ⟨fun h => h, messagesOn_concat rfl⟩
  · exact ⟨fun h => h, rfl⟩

/-- The end of a block whose stream has left the table. -/
theorem mild_onHeaderBlockEnd {streamID : ℕ} (hok : streamID = s.currentHeaderStream →
      s.decoder.endBlock.2 = none ∧ s.stream? s.currentHeaderEventStream = none) :
    Mild id s (s.onHeaderBlockEnd streamID endStream) := by
  unfold onHeaderBlockEnd
  split
  · exact .refl s
  · next hor =>
    obtain ⟨herr, hst⟩ := hok (not_not.1 (not_or.1 hor).2)
    have hend : Mild id s s.endDecoderBlock.1 := mild_endDecoderBlock s
    have herr : s.endDecoderBlock.2 = none := herr
    have hst : s.endDecoderBlock.1.stream? s.endDecoderBlock.1.currentHeaderEventStream = none := by
      unfold endDecoderBlock
      simp only
      split <;> exact hst
    generalize s.endDecoderBlock = w at hend herr hst
    obtain ⟨t, err⟩ := w
    obtain rfl : err = none := herr
    have hfinish : t.finishSection endStream = t := by
      unfold finishSection
      rw [show t.stream? t.currentHeaderEventStream = none from hst]
    change Mild id s (t.finishSection endStream)
    rw [hfinish]
    exact hend

theorem mild_onRSTStream {code : ErrorCode} (hok : s.stream? id = none → id ≤ s.lastPeerStream) :
    Mild id s (s.onRSTStream id code) := by
  unfold onRSTStream
  split
  · next hst =>
    rw [if_neg (by have := hok hst; omega)]
    exact .refl s
  · have hclose : Mild id s (s.closeStream id) := by
      obtain ⟨hhist, hf, -⟩ := closeStream_frame s id
      exact ⟨fun h => hf.trans h, congrArg (messagesOn id) hhist⟩
    exact hclose.trans (mild_offerEvent (by simp [Obs.isMessageOn]))

theorem mild_onWindowUpdate {increment : ℕ} (hz : id ≠ 0)
    (hclosed : ∀ st, s.stream? id = some st → st.state = .closed)
    (hok : s.stream? id = none → id ≤ s.lastPeerStream) :
    Mild id s (s.onWindowUpdate id increment) := by
  unfold onWindowUpdate
  split
  · exact .refl s
  split
  · next hst =>
    rw [if_neg (by have := hok hst; omega)]
    exact .refl s
  · next st hst =>
    rw [if_pos (hclosed st hst)]
    exact .refl s

/-- The peer ends a stream that is closed already. -/
theorem mild_remoteEnd (hclosed : ∀ st, s.stream? id = some st → st.state = .closed) :
    Mild id s (s.remoteEnd id) := by
  unfold remoteEnd
  split
  · exact .refl s
  next st hst =>
  have hc := hclosed st hst
  split
  · exact mild_streamError s _ _
  · have hsame : s.endRemote id st = s := by
      unfold endRemote
      rw [hc]
    rw [hsame, if_neg (by simpa using hc)]
    exact .refl s

theorem closed_creditStream {st st' : Stream} (hst : s.stream? id = some st)
    (hc : st.state = .closed) (h : (s.creditStream id st).stream? id = some st') :
    st'.state = .closed := by
  unfold creditStream at h
  simp only at h
  split at h
  · simp only [setStream, stream?, AList.lookup_insert, Option.some.injEq] at h
    rw [← h]
    exact hc
  · rw [← Option.some.inj (hst.symm.trans h)]
    exact hc

/-- The end of a DATA frame on a stream that has left the table or is closed in it. -/
theorem mild_completeData (hid : header.streamID = id)
    (hclosed : ∀ st, s.stream? id = some st → st.state = .closed) :
    Mild id s (s.completeData header) := by
  subst hid
  unfold completeData
  split
  · exact .refl s
  next st hst =>
  obtain ⟨hst1, hf1, -⟩ := s.creditConnection_frame
  have hst' : s.creditConnection.stream? header.streamID = some st := by
    rw [stream?, hst1]
    exact hst
  -- the end of a frame of another stream would do the same
  let other : FrameHeader := { type := .data, streamID := header.streamID + 1 }
  have hnot : ¬(Action.deliver (.frameComplete other)).delivers header.streamID := by
    rintro (⟨_, _, h⟩ | ⟨_, h, hid⟩ | ⟨_, _, h⟩) <;> cases h
    exact Nat.succ_ne_self _ hid
  have hreach : Reaches (.deliver (.frameComplete other)) s.endpoint s _ :=
    (reaches_creditConnection rfl rfl).trans (reaches_creditStream rfl rfl hst')
  have hcredit : Mild header.streamID s (s.creditConnection.creditStream header.streamID st) :=
    ⟨fun hf => (creditStream_frame _ _ _).1.trans (hf1.trans hf),
      messagesOn_of_reaches hnot hreach⟩
  simp only
  split
  · exact hcredit.trans
      (mild_remoteEnd fun _ => closed_creditStream hst' (hclosed st hst))
  · exact hcredit

theorem mild_onFrameComplete (hid : header.streamID = id)
    (hclosed : ∀ st, s.stream? id = some st → st.state = .closed)
    (ht : header.type ≠ .priorityUpdate) (hquota : isControlFrame header = true →
      (s.controlFrames + 1) % 2 ^ 32 ≤ s.limits.maxControlFrames.toNat) :
    Mild id s (s.onFrameComplete header) := by
  have hcount : Mild id s (s.countFrame header) := ⟨fun h => h, rfl⟩
  have hdata : Mild id _ ((s.countFrame header).completeData header) :=
    mild_completeData hid hclosed
  have hquota : ¬(isControlFrame header && (s.countFrame header).controlFrames >
      (s.countFrame header).limits.maxControlFrames.toNat) = true := by
    intro h
    rw [Bool.and_eq_true, decide_eq_true_eq] at h
    have hle := hquota h.1
    simp only [countFrame, if_pos h.1] at h
    omega
  unfold onFrameComplete
  split
  · exact .refl s
  simp only
  rw [if_neg hquota]
  split
  · exact hcount.trans hdata
  · exact hcount

/-- A callback of a frame on a stream that has been reset. -/
theorem mild_deliver {call : Callback} (hz : id ≠ 0) (hid : call.streamID = id)
    (hclosed : ∀ st, s.stream? id = some st → st.state = .closed) (hreset : s.wasReset id = true)
    (hok : s.ResetCondition (.deliver call)) : Mild id s (s.deliver call) := by
  have hnote : Mild id s (s.note (.received call)) := ⟨fun h => h, messagesOn_concat rfl⟩
  refine hnote.trans ?_
  subst hid
  cases call with
  | frameBegin header => exact mild_onFrameBegin hclosed (hok hreset).1 (hok hreset).2
  | data id data endStream => exact mild_onData (hok hreset)
  | headerBlock id fragment => exact mild_onHeaderBlock (hok hreset)
  | headerBlockEnd id endStream => exact mild_onHeaderBlockEnd (hok (.inl hreset))
  | priority id priority => exact mild_onPriority _ _ _
  | rstStream id code => exact mild_onRSTStream (hok hreset)
  | pushPromise id promised =>
    have hok : s.wasReset id = false := hok
    exact absurd (hreset.symm.trans hok) (by simp)
  | windowUpdate id increment => exact mild_onWindowUpdate hz hclosed (hok hreset)
  | unknown header fragment => exact mild_onUnknown (hok hreset)
  | frameComplete header => exact mild_onFrameComplete rfl hclosed (hok hreset).1 (hok hreset).2
  | setting | settingsEnd | ping | goAway | goAwayDebug => exact absurd rfl hz

theorem messagesOn_connectionError (s : Session X) (code : ErrorCode) (reason : String) :
    messagesOn id (s.connectionError code reason).history = messagesOn id s.history := by
  have hreach : Reaches .preface s.endpoint s (s.connectionError code reason) :=
    reaches_connectionError ⟨rfl, rfl⟩
  exact messagesOn_of_reaches not_delivers_preface hreach

/-- The section of another stream. -/
theorem messagesOn_finishSection (hids : s.endpoint.IdSpace) (hf : s.failed = none)
    (hne : s.currentHeaderEventStream ≠ id) :
    messagesOn id (s.finishSection endStream).history = messagesOn id s.history := by
  unfold finishSection
  split
  · rfl
  next st hst =>
  split
  · exact (mild_streamError s _ _).messages
  have hevent : (Obs.queued (s.sectionEvent endStream)).isMessageOn id = false := by
    simp [Obs.isMessageOn, sectionEvent, hne]
  have hq : Mild id s (s.offerEvent (s.sectionEvent endStream)) := mild_offerEvent hevent
  unfold offerEvent at hq
  obtain ⟨hstreams, hf', hcur, hhist, -⟩ := queueEvent_frame s (s.sectionEvent endStream)
  generalize s.queueEvent (s.sectionEvent endStream) = q at hq hstreams hf' hcur hhist
  obtain ⟨t, _ | err⟩ := q
  · have hst' : t.stream? t.currentHeaderEventStream = some st := by
      rw [stream?, hstreams, hcur]
      exact hst
    have hreach : Reaches (.deliver (.frameComplete { streamID := t.currentHeaderEventStream }))
        t.endpoint t (t.commitSection t.currentHeaderEventStream st endStream) :=
      reaches_commitSection (.inr (.inl ⟨_, rfl, rfl⟩)) hst'
        (hcur ▸ hhist _ (hids.opened _ st hst).1) (hf'.trans hf)
    refine (messagesOn_of_reaches ?_ hreach).trans hq.messages
    rintro (⟨_, _, h⟩ | ⟨_, h, h'⟩ | ⟨_, _, h⟩)
    · cases h
    · cases h
      exact hne (hcur.symm.trans h')
    · cases h
  · exact (messagesOn_connectionError t _ _).trans hq.messages

theorem messagesOn_onHeaderBlockEnd {streamID : ℕ} (hids : s.endpoint.IdSpace)
    (hne : s.currentHeaderEventStream ≠ id) :
    messagesOn id (s.onHeaderBlockEnd streamID endStream).history = messagesOn id s.history := by
  unfold onHeaderBlockEnd
  split
  · rfl
  next hor =>
  have hend : Mild id s s.endDecoderBlock.1 := mild_endDecoderBlock s
  have hreach : Reaches (.deliver (.headerBlockEnd 0 true)) s.endpoint s s.endDecoderBlock.1 :=
    reaches_endDecoderBlock trivial
  have hids' := hreach.invariant IdSpace.step hids
  have hne' : s.endDecoderBlock.1.currentHeaderEventStream ≠ id := by
    unfold endDecoderBlock
    simp only
    split <;> exact hne
  generalize s.endDecoderBlock = w at hend hids' hne'
  obtain ⟨t, _ | err⟩ := w
  · exact (messagesOn_finishSection hids' (hend.failed (not_not.1 (not_or.1 hor).1)) hne').trans
      hend.messages
  · exact (messagesOn_connectionError t _ _).trans hend.messages

/-- Every action that meets the condition is harmless. -/
theorem harmless_act (hw : s.WellFormed) (ha : s.Allows a)
    (hr : ResetClosed s.endpoint.streams s.endpoint.history) (hok : s.ResetCondition a) :
    s.Harmless a := by
  have hreset : ∀ id, s.wasReset id = true →
      id ≠ 0 ∧ ∀ st, s.stream? id = some st → st.state = .closed := by
    intro id hid
    obtain ⟨state, hmem⟩ := wasReset_iff.1 hid
    obtain ⟨hopen, hclosed⟩ := hr id state hmem
    exact ⟨hw.ids.ne_zero id hopen, hclosed⟩
  refine ⟨fun id hid hconcerns => ?_, fun id hid => ?_⟩
  · obtain ⟨hz, hclosed⟩ := hreset id hid
    cases a with
    | deliver call => exact (mild_deliver hz hconcerns hclosed hid hok).failed
    | fail code reason =>
      have hok : s.wasReset s.parser.current.streamID = false := hok
      rw [show s.parser.current.streamID = id from hconcerns, hid] at hok
      cases hok
    | _ => exact hconcerns.elim
  · obtain ⟨hz, hclosed⟩ := hreset id hid
    by_cases hdel : a.delivers id
    · rcases hdel with ⟨data, endStream, rfl⟩ | ⟨header, rfl, hstream⟩ | ⟨streamID, endStream, rfl⟩
      · exact (mild_deliver hz rfl hclosed hid hok).messages
      · exact (mild_deliver hz (show (Callback.frameComplete header).streamID = id from hstream)
          hclosed hid hok).messages
      · by_cases hev : s.currentHeaderEventStream = id
        · have hmild : Mild id s (s.note (.received (.headerBlockEnd streamID endStream))) :=
            ⟨fun h => h, messagesOn_concat rfl⟩
          exact (hmild.trans (mild_onHeaderBlockEnd (hok (.inr (hev ▸ hid))))).messages
        · have hids : (s.note (.received (.headerBlockEnd streamID endStream))).endpoint.IdSpace :=
            hw.ids.note (by simp)
          exact (messagesOn_onHeaderBlockEnd hids hev).trans (messagesOn_concat rfl)
    · exact messagesOn_of_reaches hdel (hw.reaches ha)

theorem resetClosed_newSession {role : Role} {limits : SessionLimits}
    (hnew : newSession X role limits = .ok s) :
    ResetClosed s.endpoint.streams s.endpoint.history := by
  obtain ⟨output, header, payload, -, rfl⟩ := newSession_ok hnew
  exact fun id state h => by simp [endpoint] at h

/-- **A local reset costs nothing under the condition.** In every run of two sessions, every action
of a side that meets the condition throughout is harmless: no frame on a stream that its owner has
reset fails the session, and none is reported as a part of the message. -/
theorem reset_harmless {client server : SessionLimits} {p : Pair X} {ops : List PairOp}
    (hnew : Pair.create X client server = .ok p) (side : Role)
    (hok : Meets ResetCondition (p.sessions side) (p.sideOps side ops)) :
    Meets Harmless (p.sessions side) (p.sideOps side ops) := by
  obtain ⟨limits, hside⟩ := Pair.newSession_of_create hnew side
  exact run_meets (I := fun s => ResetClosed s.endpoint.streams s.endpoint.history) hside
    (resetClosed_newSession hside)
    (fun _ _ hw ha hI _ => Steps.invariant (I := fun e => ResetClosed e.streams e.history)
      ResetClosed.step (hw.reaches ha) hI)
    (fun _ _ hw ha hI hok => harmless_act hw ha hI hok) hok

/-- Client and server reset a stream at the same time. -/
def bothReset : List PairOp :=
  [.call .client (.openStream SmallHpack.getRequest false), .call .client (.consumeOutput 93),
    .deliver .server 93, .call .server (.resetStream 1 .cancel),
    .call .client (.resetStream 1 .cancel), .call .server (.consumeOutput 73), .deliver .client 73]

/-- The RST_STREAM frame of the server finds the stream closed and is harmless. -/
theorem reset_harmless_client :
    ∃ p, Pair.create SmallHpack.externals {} {} = .ok p ∧
      ((p.run bothReset).sessions .client).wasReset 1 = true ∧
        ((p.run bothReset).sessions .client).failed = none ∧
        Meets Harmless (p.sessions .client) (p.sideOps .client bothReset) := by
  obtain ⟨p, hnew, hreset, hf, hok⟩ := Pair.exists_create (X := SmallHpack.externals) (c := {})
    (s := {}) (q := fun p =>
      ((p.run bothReset).sessions .client).wasReset 1 = true ∧
        ((p.run bothReset).sessions .client).failed = none ∧
        Meets ResetCondition (p.sessions .client) (p.sideOps .client bothReset)) (by decide +kernel)
  exact ⟨p, hnew, hreset, hf, reset_harmless hnew .client hok⟩

/-- The client resets a stream while the response of the server is on the way. -/
def responseCrosses : List PairOp :=
  [.call .client (.openStream SmallHpack.getRequest true), .call .client (.consumeOutput 93),
    .deliver .server 93,
    .call .server (.sendHeaders 1 [{ name := ascii ":status", value := ascii "200" }] false),
    .call .client (.resetStream 1 .cancel), .call .server (.consumeOutput 73), .deliver .client 73]

/-- The HEADERS frame of the response fails the connection of the client. -/
theorem reset_crosses_headers :
    ∃ p, Pair.create SmallHpack.externals {} {} = .ok p ∧
      ((p.run responseCrosses).sessions .client).failed =
          some (.protocol 0 .streamClosed "HEADERS on a closed stream") ∧
        ((p.run responseCrosses).sessions .server).failed = none ∧
        ¬Meets Harmless (p.sessions .client) (p.sideOps .client responseCrosses) := by
  obtain ⟨p, hnew, hc, hs, hbad⟩ := Pair.exists_create (X := SmallHpack.externals) (c := {})
    (s := {}) (q := fun p =>
      ((p.run responseCrosses).sessions .client).failed =
          some (.protocol 0 .streamClosed "HEADERS on a closed stream") ∧
        ((p.run responseCrosses).sessions .server).failed = none ∧
        ¬Meets (fun s a => s.wasReset 1 = true → s.concerns 1 a → s.failed = none →
          (s.act a).failed = none) (p.sessions .client) (p.sideOps .client responseCrosses))
      (by decide +kernel)
  exact ⟨p, hnew, hc, hs, fun h => hbad (h.mono fun s a hh => hh.failed 1)⟩

end Session

end WagoHttp.Http2
