import WagoHttp.Http2.Session.Books
import WagoHttp.Http2.Session.HeaderSync

/-!
# The two sides of a stream

What a stream receives and what it sends are recorded in different fields of the stream and in
different entries of the history, and most functions of a session touch neither. A `Side` fixes
what is looked at: when the side of a stream counts as unchanged, and which entries of the history
belong to it. `Calm` says that a function leaves a side alone; this is shown here of the functions
on streams and of those that send messages. `Side.IgnoresSends` and `Side.IgnoresReceives` are what
a side needs in order to be indifferent to what the session sends, or to what it receives.
-/

namespace WagoHttp.Http2

open List

/-- The frames that carry a part of a message. -/
def FrameHeader.carriesMessage (header : FrameHeader) : Prop :=
  header.type = .headers ∨ header.type = .data ∨ header.type = .continuation ∨
    header.type = .pushPromise

instance (header : FrameHeader) : Decidable header.carriesMessage :=
  inferInstanceAs (Decidable (_ ∨ _))

theorem not_carriesMessage {header : FrameHeader} (type : FrameType) (ht : header.type = type)
    (h : type ≠ .headers ∧ type ≠ .data ∧ type ≠ .continuation ∧ type ≠ .pushPromise) :
    ¬header.carriesMessage := by
  subst ht
  rintro (hc | hc | hc | hc)
  · exact h.1 hc
  · exact h.2.1 hc
  · exact h.2.2.1 hc
  · exact h.2.2.2 hc

/-- The events that report a part of a message or the reset of a stream. -/
def Event.isReport (event : Event) : Prop := event.isMessage ∨ event.type = .streamReset

instance (event : Event) : Decidable event.isReport := inferInstanceAs (Decidable (_ ∨ _))

/-- A change of the state of a stream that opens neither direction again. -/
structure StreamState.Narrows (old new : StreamState) : Prop where
  receive : canReceive new = true → canReceive old = true
  send : canSend new = true → canSend old = true
  closed : old = .closed → new = .closed
  reserved : new = .reservedRemote → old = .reservedRemote
  pushed : new = .reservedLocal → old = .reservedLocal

theorem narrows_refl (state : StreamState) : state.Narrows state := ⟨id, id, id, id, id⟩

theorem StreamState.Narrows.trans {state state' state'' : StreamState} (h : state.Narrows state')
    (h' : state'.Narrows state'') : state.Narrows state'' :=
  ⟨fun hr => h.receive (h'.receive hr), fun hs => h.send (h'.send hs),
    fun hc => h'.closed (h.closed hc), fun hr => h.reserved (h'.reserved hr),
    fun hp => h.pushed (h'.pushed hp)⟩

theorem narrows_closed (state : StreamState) : state.Narrows .closed :=
  ⟨fun h => absurd h (by decide), fun h => absurd h (by decide), fun _ => rfl, nofun, nofun⟩

theorem narrows_open_local : StreamState.Narrows .open .halfClosedLocal :=
  ⟨by decide, by decide, by decide, by decide, by decide⟩

theorem narrows_open_remote : StreamState.Narrows .open .halfClosedRemote :=
  ⟨by decide, by decide, by decide, by decide, by decide⟩

theorem narrows_reservedLocal : StreamState.Narrows .reservedLocal .halfClosedRemote :=
  ⟨by decide, by decide, by decide, by decide, by decide⟩

theorem narrows_reservedRemote : StreamState.Narrows .reservedRemote .halfClosedLocal :=
  ⟨by decide, by decide, by decide, by decide, by decide⟩

/-- What is looked at of the streams and of the history. -/
structure Side where
  /-- Nothing has happened to the stream on this side, except that it may have been closed. -/
  same : Stream → Stream → Prop
  /-- Nothing has ever happened to the stream on this side. -/
  fresh : Stream → Prop
  /-- The entries of the history that belong to this side. -/
  shows : Obs → Bool
  /-- Whether the header block that is being received belongs to this side. -/
  reads : Bool
  refl : ∀ st, same st st
  trans : ∀ {st st' st''}, same st st' → same st' st'' → same st st''
  closed : ∀ {st st'}, same st st' → st.state = .closed → st'.state = .closed
  fresh_of_same : ∀ {st st'}, same st st' → fresh st → fresh st'
  fresh_new : ∀ state isLocal sendWindow recvWindow,
    fresh { state, isLocal, sendWindow, recvWindow }
  windows : ∀ st sendWindow recvWindow, same st { st with sendWindow, recvWindow }
  state : ∀ {st : Stream} {state}, st.state.Narrows state → same st { st with state }
  shows_sent : ∀ {header payload}, ¬header.carriesMessage → header.type ≠ .rstStream →
    shows (.sent header payload) = false
  shows_queued : ∀ {event}, ¬event.isReport → shows (.queued event) = false
  shows_received : ∀ call, shows (.received call) = false := by intros; rfl
  shows_decoder : ∀ call, shows (.decoder call) = false := by intros; rfl
  shows_opened : ∀ id, shows (.opened id) = false := by intros; rfl
  shows_reset : ∀ id state, shows (.reset id state) = false := by intros; rfl
  shows_failed : ∀ err, shows (.failed err) = false := by intros; rfl

namespace Side

/-- The side does not show the frames that reset the stream. -/
def IgnoresReset (S : Side) (id : ℕ) : Prop :=
  ∀ header payload, header.type = .rstStream → header.streamID = id →
    S.shows (.sent header payload) = false

/-- The side does not show that the stream is reset. -/
structure IgnoresResets (S : Side) (id : ℕ) : Prop where
  frame : S.IgnoresReset id
  event : ∀ event : Event, event.type = .streamReset → S.shows (.queued event) = false

/-- The side does not show the frames that are sent, except those that reset a stream. -/
structure IgnoresFrames (S : Side) : Prop where
  sent : ∀ header payload, header.type ≠ .rstStream → S.shows (.sent header payload) = false
  body : ∀ st sendWindow sendBody, S.same st { st with sendWindow, sendBody }

/-- The side is indifferent to what the session sends. -/
structure IgnoresSends (S : Side) : Prop extends S.IgnoresFrames where
  sends : ∀ st m, canSend st.state = true → S.same st (Session.Stream.sendSection st m)
  promised : ∀ state isLocal sendWindow recvWindow method,
    S.fresh { state, isLocal, sendWindow, recvWindow, method }

/-- The side does not show the events that are queued, nor that the stream is reset. -/
structure IgnoresEvents (S : Side) (id : ℕ) : Prop where
  frame : S.IgnoresReset id
  queued : ∀ event, S.shows (.queued event) = false
  body : ∀ st receiveBody, S.same st { st with receiveBody }

/-- The side is indifferent to what the session receives on the stream. -/
structure IgnoresReceives (S : Side) (id : ℕ) : Prop extends S.IgnoresEvents id where
  receives : ∀ st m trailer, S.same st (Session.Stream.receiveSection st m trailer)
  method : ∀ st method, S.same st { st with method }
  reads : S.reads = false

theorem IgnoresEvents.resets {S : Side} {id : ℕ} (h : S.IgnoresEvents id) : S.IgnoresResets id :=
  ⟨h.frame, fun event _ => h.queued event⟩

end Side

theorem closed_trans {st st' st'' : Stream} (h : st.state = .closed → st'.state = .closed)
    (h' : st'.state = .closed → st''.state = .closed) (hc : st.state = .closed) :
    st''.state = .closed := h' (h hc)

theorem closed_of_narrows {st : Stream} {state : StreamState} (h : st.state.Narrows state) :
    st.state = .closed → { st with state }.state = .closed := h.closed

/-- The side that sees nothing but, if it reads, the block that is being received. -/
def blindSide (reads : Bool) : Side where
  same st st' := st.state = .closed → st'.state = .closed
  fresh _ := True
  shows _ := false
  reads := reads
  refl _ h := h
  trans := closed_trans
  closed h := h
  fresh_of_same _ _ := trivial
  fresh_new _ _ _ _ := trivial
  windows _ _ _ h := h
  state := closed_of_narrows
  shows_sent _ _ := rfl
  shows_queued _ := rfl

variable {reads : Bool}

theorem blindSide_ignoresEvents {id : ℕ} :
    (blindSide reads).IgnoresEvents id where
  frame _ _ _ _ := rfl
  queued _ := rfl
  body _ _ h := h

theorem blindSide_ignoresSends : (blindSide reads).IgnoresSends where
  sent _ _ _ := rfl
  body _ _ _ h := h
  sends st m h hc := by
    rw [hc] at h
    cases h
  promised _ _ _ _ _ := trivial

theorem blindSide_ignoresReceives {id : ℕ} : (blindSide false).IgnoresReceives id where
  toIgnoresEvents := blindSide_ignoresEvents
  receives _ _ _ h := h
  method _ _ h := h
  reads := rfl

namespace Session

/-- The header block that is being received. -/
structure Block where
  active : Bool
  stream : ℕ
  event : ℕ
  trailer : Bool
  push : Bool

variable {X : Externals}

def block (s : Session X) : Block where
  active := s.decoder.active
  stream := s.currentHeaderStream
  event := s.currentHeaderEventStream
  trailer := s.currentHeaderTrailer
  push := s.currentHeaderPush

/-- The entries of the history that belong to a side. -/
def shown (S : Side) (s : Session X) : List Obs := s.history.filter S.shows

/-- A stream of the session that is reset by a frame is closed. -/
def ResetsClose (s s' : Session X) : Prop :=
  ∀ before header payload after, s'.history = before ++ .sent header payload :: after →
    s.history <+: before → header.type = .rstStream → .opened header.streamID ∈ before →
      ∀ st, s'.stream? header.streamID = some st → st.state = .closed

/-- A side of every stream is left alone. Streams may be closed, evicted or opened. -/
structure Calm (S : Side) (s s' : Session X) : Prop where
  streams : ∀ id st', s'.stream? id = some st' →
    (∃ st, s.stream? id = some st ∧ S.same st st') ∨ .opened id ∉ s.history ∧ S.fresh st'
  shown : s'.shown S = s.shown S
  history : s.history <+: s'.history
  block : S.reads = true → s'.block = s.block
  resets : ResetsClose s s'

variable {S : Side} {s s' s'' : Session X}

variable {new : List Obs} {id : ℕ} {st st' : Stream} {event : Event} {header : FrameHeader}
  {payload : Bytes} {t : Session X} {endStream : Bool}

theorem ResetsClose.of_new (hh : s'.history = s.history ++ new)
    (hnew : ∀ header payload, .sent header payload ∈ new → header.type = .rstStream →
      ∀ st, s'.stream? header.streamID = some st → st.state = .closed) : ResetsClose s s' := by
  rintro before header payload after heq ⟨mid, rfl⟩ ht -
  refine hnew header payload ?_ ht
  rw [hh, append_assoc, append_cancel_left_eq] at heq
  rw [heq]
  simp

theorem ResetsClose.of_history (hh : s'.history = s.history) : ResetsClose s s' :=
  .of_new (hh.trans (append_nil _).symm) nofun

theorem Calm.of_eq (hs : s'.streams = s.streams) (hh : s'.history = s.history)
    (hb : s'.block = s.block) : Calm S s s' := by
  refine ⟨fun id st' h => .inl ⟨st', ?_, S.refl st'⟩, ?_, ?_, fun _ => hb, .of_history hh⟩
  · rw [stream?, ← hs]
    exact h
  · rw [Session.shown, Session.shown, hh]
  · rw [hh]

theorem Calm.refl (s : Session X) : Calm S s s := .of_eq rfl rfl rfl

/-- A stream that is closed and has been opened stays closed. -/
theorem Calm.stays_closed (h : Calm S s s') (ho : .opened id ∈ s.history)
    (hc : ∀ st, s.stream? id = some st → st.state = .closed) :
    ∀ st, s'.stream? id = some st → st.state = .closed := by
  intro st' hst'
  obtain ⟨st, hst, hsame⟩ := (h.streams id st' hst').resolve_right fun hn => hn.1 ho
  exact S.closed hsame (hc st hst)

theorem Calm.resets_trans (h : Calm S s s') (h' : Calm S s' s'') : ResetsClose s s'' := by
  intro before header payload after heq hbefore ht ho
  obtain ⟨new, hnew⟩ := h'.history
  -- The frame has been sent in the first part, or in the second.
  rcases append_eq_append_iff.1 (hnew.trans heq) with ⟨mid, hmid, -⟩ | ⟨mid, hmid, hrest⟩
  · exact h'.resets before header payload after heq ⟨mid, hmid.symm⟩ ht ho
  · cases mid with
    | nil =>
      rw [append_nil] at hmid
      exact h'.resets before header payload after heq (hmid ▸ prefix_rfl) ht ho
    | cons o mid =>
      obtain ⟨rfl, -⟩ := cons.inj hrest
      refine h'.stays_closed (hmid ▸ mem_append_left _ ho) ?_
      exact h.resets before header payload mid hmid hbefore ht ho

theorem Calm.trans (h : Calm S s s') (h' : Calm S s' s'') : Calm S s s'' := by
  refine ⟨fun id st'' hst'' => ?_, h'.shown.trans h.shown, h.history.trans h'.history,
    fun hr => (h'.block hr).trans (h.block hr), h.resets_trans h'⟩
  obtain ⟨st', hst', hsame'⟩ | ⟨hnew, hfresh⟩ := h'.streams id st'' hst''
  · obtain ⟨st, hst, hsame⟩ | ⟨hnew, hfresh⟩ := h.streams id st' hst'
    · exact .inl ⟨st, hst, S.trans hsame hsame'⟩
    · exact .inr ⟨hnew, S.fresh_of_same hsame' hfresh⟩
  · exact .inr ⟨fun hmem => hnew (h.history.subset hmem), hfresh⟩

theorem Calm.not_shown {S : Side} (h : Calm S s s') (hh : s'.history = s.history ++ new) :
    ∀ o ∈ new, S.shows o = false := by
  have hs := h.shown
  unfold Session.shown at hs
  rw [hh, filter_append] at hs
  simpa using hs

/-- An entry that does not belong to the side. -/
theorem Calm.noted {o : Obs} (h : S.shows o = false) (hs : s'.streams = s.streams)
    (hh : s'.history = s.history ++ [o]) (hb : s'.block = s.block)
    (hr : ∀ header payload, o = .sent header payload → header.type = .rstStream →
      ∀ st, s.stream? header.streamID = some st → st.state = .closed) : Calm S s s' := by
  refine ⟨fun id st' hst' => .inl ⟨st', ?_, S.refl st'⟩, ?_, ?_, fun _ => hb, .of_new hh ?_⟩
  · rw [stream?, ← hs]
    exact hst'
  · simp [Session.shown, hh, h]
  · rw [hh]
    exact prefix_append _ _
  · intro header payload ho ht st hst
    rw [stream?, hs] at hst
    exact hr header payload (mem_singleton.1 ho).symm ht st hst

theorem calm_note_received (S : Side) (s : Session X) (call : Callback) :
    Calm S s (s.note (.received call)) :=
  .noted (S.shows_received call) rfl rfl rfl (by simp)

theorem calm_setStream (hst : s.stream? id = some st) (h : S.same st st') :
    Calm S s (s.setStream id st') := by
  refine ⟨fun id' x hx => .inl ?_, rfl, prefix_rfl, fun _ => rfl, .of_history rfl⟩
  by_cases hid : id' = id
  · subst hid
    simp only [setStream, stream?, AList.lookup_insert, Option.some.injEq] at hx
    exact ⟨st, hst, hx ▸ h⟩
  · simp only [setStream, stream?, AList.lookup_insert_ne hid] at hx
    exact ⟨x, hx, S.refl x⟩

theorem calm_setState {state : StreamState} (hst : s.stream? id = some st)
    (h : st.state.Narrows state) : Calm S s (s.setStream id { st with state }) :=
  calm_setStream hst (S.state h)

/-! ## Queues -/

theorem calm_queueEvent (h : S.shows (.queued event) = false) :
    Calm S s (s.queueEvent event).1 := by
  unfold queueEvent
  simp only
  split
  · exact .refl s
  · exact .noted h rfl rfl rfl nofun

/-- An event that reports nothing. -/
theorem calm_offerEvent (h : ¬event.isReport) : Calm S s (s.offerEvent event) :=
  calm_queueEvent (S.shows_queued h)

theorem calm_appendFrameEvenFailed
    (h : S.shows (.sent { header with length := payload.length } payload) = false)
    (hr : header.type = .rstStream →
      ∀ st, s.stream? header.streamID = some st → st.state = .closed) :
    Calm S s (s.appendFrameEvenFailed header payload).1 := by
  refine appendFrameEvenFailed_elim (P := Calm S s) (.refl s) (.noted h rfl rfl rfl ?_)
  rintro _ _ ⟨⟩
  exact hr

theorem calm_appendFrame
    (h : S.shows (.sent { header with length := payload.length } payload) = false)
    (hr : header.type = .rstStream →
      ∀ st, s.stream? header.streamID = some st → st.state = .closed) :
    Calm S s (s.appendFrame header payload).1 := by
  unfold appendFrame
  split
  · exact .refl s
  · exact calm_appendFrameEvenFailed h hr

/-- The frames that neither carry a part of a message nor reset a stream. -/
theorem shows_control (type : FrameType) (ht : header.type = type)
    (h : (type ≠ .headers ∧ type ≠ .data ∧ type ≠ .continuation ∧
      type ≠ .pushPromise) ∧ type ≠ .rstStream) : S.shows (.sent header payload) = false :=
  S.shows_sent (not_carriesMessage type ht h.1) (ht ▸ h.2)

theorem queueEvent_ok (h : s.queueEvent event = (t, none)) :
    t = { s with
      events := s.events ++ [event]
      eventBytes := (s.eventBytes + eventRetainedBytes event) % 2 ^ 32 }.note (.queued event) := by
  unfold queueEvent at h
  simp only at h
  split at h
  · cases h
  · cases h
    rfl

variable {err : SessionError}

theorem queueEvent_error (h : s.queueEvent event = (t, some err)) : t = s := by
  unfold queueEvent at h
  simp only at h
  split at h
  · cases h
    rfl
  · cases h

/-! ## Closing streams -/

/-- What closing a stream does to the table: the stream is closed in it, and closed streams may
leave it. -/
theorem stream_closeStream {id' : ℕ} (h : (s.closeStream id).stream? id' = some st') :
    ∃ st, s.stream? id' = some st ∧
      (st' = st ∨ id' = id ∧ st.state ≠ .closed ∧ st' = { st with state := .closed }) := by
  unfold closeStream at h
  split at h
  · exact ⟨st', h, .inl rfl⟩
  next st hst =>
  split at h
  · exact ⟨st', h, .inl rfl⟩
  next hs =>
  have hstreams : ((s.setStream id { st with state := .closed }).releaseActive st).streams =
      (s.setStream id { st with state := .closed }).streams := by
    unfold releaseActive
    split <;> rfl
  have h' := lookup_evictClosed _ _ h
  rw [hstreams] at h'
  by_cases hid : id' = id
  · subst hid
    simp only [setStream, AList.lookup_insert, Option.some.injEq] at h'
    exact ⟨st, hst, .inr ⟨rfl, hs, h'.symm⟩⟩
  · simp only [setStream, AList.lookup_insert_ne hid] at h'
    exact ⟨st', h', .inl rfl⟩

theorem block_closeStream (s : Session X) (id : ℕ) : (s.closeStream id).block = s.block := by
  unfold closeStream releaseActive
  split
  · rfl
  split
  · rfl
  simp only
  split <;> rfl

theorem calm_closeStream (s : Session X) (id : ℕ) : Calm S s (s.closeStream id) := by
  refine ⟨fun id' st' h => .inl ?_, ?_, ?_, fun _ => block_closeStream s id,
    .of_history (closeStream_frame s id).1⟩
  · obtain ⟨st, hst, rfl | ⟨-, -, rfl⟩⟩ := stream_closeStream h
    · exact ⟨_, hst, S.refl _⟩
    · exact ⟨st, hst, S.state (narrows_closed _)⟩
  · rw [shown, (closeStream_frame s id).1, shown]
  · rw [(closeStream_frame s id).1]

theorem streams_connectionError (s : Session X) (code : ErrorCode) (reason : String) :
    (s.connectionError code reason).streams = s.streams := by
  unfold connectionError
  split
  · rfl
  · exact (appendFrameEvenFailed_frame _ _ _).1

theorem calm_localEnd (s : Session X) (id : ℕ) : Calm S s (s.localEnd id) := by
  unfold localEnd
  split
  · exact .refl s
  next st hst =>
  split
  · next h => exact calm_setState hst (h ▸ narrows_open_local)
  · exact calm_closeStream s id
  · next h => exact calm_setState hst (h ▸ narrows_reservedLocal)
  · exact .refl s

theorem history_localEnd (s : Session X) (id : ℕ) : (s.localEnd id).history = s.history := by
  unfold localEnd
  split
  · rfl
  split
  · rfl
  · exact (closeStream_frame s id).1
  · rfl
  · rfl

/-! ## Calls that send no message -/

/-- Closing a stream and sending a frame can change places. -/
theorem closeStream_appended (s : Session X) (id : ℕ) (header : FrameHeader) (payload : Bytes) :
    (s.appended header payload).closeStream id = (s.closeStream id).appended header payload := by
  unfold closeStream
  rw [show (s.appended header payload).stream? id = s.stream? id from rfl]
  cases hst : s.stream? id with
  | none => rfl
  | some st =>
    simp only
    split
    · rfl
    · unfold releaseActive
      split <;> rfl

/-- The stream, if it is in the table. -/
def listed (s : Session X) (id : ℕ) : ℕ := if (s.stream? id).isSome then id else 0

theorem listed_some (h : s.stream? id = some st) : s.listed id = id := by
  rw [listed, h]
  rfl

theorem calm_close (s : Session X) : Calm S s s.close := by
  unfold close
  split
  · exact .refl s
  · exact ⟨fun id st' h => by simp [stream?] at h, rfl, prefix_rfl, fun _ => rfl,
      .of_history rfl⟩

/-- The calls that send no part of a message. -/
def Call.isControl : Call → Prop
  | .openStream .. | .pushPromise .. | .sendHeaders .. | .sendData .. => False
  | _ => True

/-- The stream that a call can reset. -/
def callTarget (s : Session X) : Call → ℕ
  | .resetStream id _ => s.listed id
  | _ => 0

/-- A new stream of this endpoint. -/
theorem calm_addStream (hnew : .opened id ∉ s.history) (hst : S.fresh st) :
    Calm S s (s.addStream id st) := by
  refine ⟨fun id' x hx => ?_, ?_, prefix_append _ _, fun _ => rfl, .of_new rfl (by simp)⟩
  · by_cases hid : id' = id
    · subst hid
      simp only [addStream, note, setStream, stream?, AList.lookup_insert, Option.some.injEq] at hx
      exact .inr ⟨hnew, hx ▸ hst⟩
    · simp only [addStream, note, setStream, stream?, AList.lookup_insert_ne hid] at hx
      exact .inl ⟨x, hx, S.refl x⟩
  · simp [shown, addStream, note, setStream, S.shows_opened]

theorem calm_erase (s : Session X) (id active : ℕ) :
    Calm S s { s with streams := s.streams.erase id, activeLocal := active } := by
  refine ⟨fun id' x hx => .inl ⟨x, ?_, S.refl x⟩, rfl, prefix_rfl, fun _ => rfl,
    .of_history rfl⟩
  by_cases hid : id' = id
  · subst hid
    simp [stream?] at hx
  · simpa only [stream?, AList.lookup_erase_ne hid] using hx

/-- An error that concerns the connection or the stream. -/
def SessionError.Concerns (id : ℕ) (err : SessionError) : Prop :=
  ∀ id' code reason, err = .protocol id' code reason → id' = 0 ∨ id' = id

/-! ## Received messages, for a side that does not see them -/

theorem calm_blockChange (hr : S.reads = false) (hs : s'.streams = s.streams)
    (hh : s'.history = s.history) : Calm S s s' := by
  refine ⟨fun id st' h => .inl ⟨st', ?_, S.refl st'⟩, ?_, ?_, fun hreads => ?_, .of_history hh⟩
  · rw [stream?, ← hs]
    exact h
  · rw [shown, hh, shown]
  · rw [hh]
  · rw [hr] at hreads
    cases hreads

theorem calm_admitHeaders (hids : s.endpoint.IdSpace) (h : s.admitHeaders id = .ok (s', st)) :
    Calm S s s' ∧ s'.stream? id = some st := by
  unfold admitHeaders at h
  split at h
  · split_ifs at h with h1 h2 h3
    cases h
    obtain ⟨hlt, hr⟩ := peerMayOpen_spec (by simpa using h1)
    have hnew := not_opened_of_lastPeer_lt hids hlt hr
    exact ⟨(calm_addStream hnew (S.fresh_new _ _ _ _)).trans (.of_eq rfl rfl rfl),
      AList.lookup_insert _⟩
  · next hst =>
    split_ifs at h
    cases h
    exact ⟨.refl s, hst⟩

theorem calm_startSection (hr : S.reads = false) (hst : s.stream? id = some st) :
    Calm S s (s.startSection id st endStream) := by
  unfold startSection
  simp only
  split
  · next h =>
    have hset : Calm S s (s.setStream id { st with state := .halfClosedLocal }) :=
      calm_setState hst (h ▸ narrows_reservedRemote)
    exact hset.trans (calm_blockChange hr rfl rfl)
  · exact calm_blockChange hr rfl rfl

theorem calm_beginDecoderBlock (hr : S.reads = false) (s : Session X) :
    Calm S s s.beginDecoderBlock.1 := by
  unfold beginDecoderBlock
  split
  · exact .refl s
  · next decoder _ =>
    have h : Calm S s { s with decoder } := calm_blockChange hr rfl rfl
    exact h.trans (.noted (S.shows_decoder _) rfl rfl rfl nofun)

theorem calm_beginInboundHeaders (hr : S.reads = false) (hids : s.endpoint.IdSpace) (id : ℕ)
    (endStream : Bool) : Calm S s (s.beginInboundHeaders id endStream).1 := by
  unfold beginInboundHeaders
  split
  · exact .refl s
  next hadmit =>
  obtain ⟨h, hst⟩ := calm_admitHeaders (S := S) hids hadmit
  split
  · exact h
  · exact h.trans ((calm_startSection hr hst).trans (calm_beginDecoderBlock hr _))

theorem concerns_beginInboundHeaders (h : s.beginInboundHeaders id endStream = (t, some err)) :
    SessionError.Concerns id err := by
  have hdecoder : ∀ {s t : Session X}, s.beginDecoderBlock = (t, some err) →
      SessionError.Concerns id err := by
    intro s t hb
    obtain ⟨e, he⟩ | ⟨decoder, -, hd⟩ := beginDecoderBlock_cases s
    · rw [he] at hb
      cases hb
      exact nofun
    · rw [hd] at hb
      cases hb
  unfold beginInboundHeaders at h
  split at h
  · next herr =>
    cases h
    unfold admitHeaders at herr
    split at herr
    · split_ifs at herr <;> cases herr <;> rintro _ _ _ ⟨⟩ <;> simp
    · split_ifs at herr <;> cases herr <;> rintro _ _ _ ⟨⟩ <;> simp
  · split at h
    · cases h
      rintro _ _ _ ⟨⟩
      exact .inr rfl
    · exact hdecoder h

theorem endDecoderBlock_ok (h : s.endDecoderBlock = (t, none)) :
    s.decoder.active = true ∧ ∃ decoder : HeaderDecoder X, decoder.active = false ∧
      t = { s.note (.decoder .endBlock) with decoder } := by
  unfold endDecoderBlock HeaderDecoder.endBlock at h
  cases hactive : s.decoder.active with
  | false => simp [hactive] at h
  | true =>
    simp only [hactive, Bool.not_true, if_true, Bool.false_eq_true, if_false, Prod.mk.injEq] at h
    exact ⟨rfl, _, rfl, h.1.symm⟩

theorem listed_endDecoderBlock (s : Session X) :
    s.endDecoderBlock.1.listed s.endDecoderBlock.1.currentHeaderEventStream =
      s.listed s.currentHeaderEventStream := by
  unfold endDecoderBlock
  simp only
  split <;> rfl

/-! ## The beginning of a section -/

/-- The session after the peer has opened a stream. -/
def openPeer (s : Session X) (id : ℕ) : Session X :=
  { s.addStream id (s.freshStream .open false) with
    activePeer := s.activePeer + 1, lastPeerStream := id }

/-- What the beginning of a HEADERS frame comes to. -/
inductive Begins (s : Session X) (id : ℕ) (endStream : Bool) :
    Session X × Option SessionError → Prop
  | fails (code : ErrorCode) (reason : String) :
      Begins s id endStream (s, some (.protocol 0 code reason))
  | refused (reason : String) (hst : s.stream? id = none) (hopen : s.peerMayOpen id = true)
      (hroom : ¬s.HasRoom) : Begins s id endStream (s, some (.protocol id .refusedStream reason))
  | rejected {st : Stream} (code : ErrorCode) (reason : String) (hst : s.stream? id = some st)
      (hs : st.state ≠ .closed) : Begins s id endStream (s, some (.protocol id code reason))
  | known {st : Stream} (hst : s.stream? id = some st) (hr : canReceive st.state = true)
      (ht : st.receivedTrailers = false) :
      Begins s id endStream (s.startSection id st endStream).beginDecoderBlock
  | opens (hst : s.stream? id = none) (hopen : s.peerMayOpen id = true) (hroom : s.HasRoom) :
      Begins s id endStream
        ((s.openPeer id).startSection id (s.freshStream .open false) endStream).beginDecoderBlock

theorem begins_beginInboundHeaders (s : Session X) (id : ℕ) (endStream : Bool) :
    Begins s id endStream (s.beginInboundHeaders id endStream) := by
  unfold beginInboundHeaders admitHeaders
  cases hst : s.stream? id with
  | none =>
    simp only
    by_cases hopen : s.peerMayOpen id = true
    · rw [if_neg (by simp [hopen])]
      by_cases hactive : s.activePeer ≥ s.limits.maxConcurrentStreams.toNat
      · rw [if_pos hactive]
        exact .refused _ hst hopen fun h => absurd h.1 (by omega)
      rw [if_neg hactive]
      by_cases hcount : s.streamCount ≥ s.limits.maxStreams.toNat
      · rw [if_pos hcount]
        exact .refused _ hst hopen fun h => absurd h.2 (by omega)
      rw [if_neg hcount]
      exact .opens hst hopen ⟨by omega, by omega⟩
    · rw [if_pos (by simpa using hopen)]
      exact .fails _ _
  | some st =>
    simp only
    by_cases hs : st.state = .closed
    · rw [if_pos hs]
      exact .fails _ _
    rw [if_neg hs]
    by_cases hr : (!canReceive st.state || st.receivedTrailers) = true
    · rw [if_pos hr]
      exact .rejected _ _ hst hs
    rw [if_neg hr]
    simp only [Bool.or_eq_true, Bool.not_eq_true', not_or, Bool.not_eq_false,
      Bool.not_eq_true] at hr
    simp only
    split
    · exact .rejected _ _ hst hs
    · exact .known hst hr.1 hr.2

end Session

end WagoHttp.Http2
