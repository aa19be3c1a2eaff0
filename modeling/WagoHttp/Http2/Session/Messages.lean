import WagoHttp.Http2.Session.Journal

/-!
# What the functions of a session do to messages

A call of the owner sends at most one part of a message: `Sends` lists what was checked for it and
what becomes of the stream. A callback of the parser receives at most one section, a piece of a
body or the end of a message. Everything else leaves the messages alone.
-/

namespace WagoHttp.Http2.Session

open Endpoint List

variable {X : Externals} {s s' : Session X} {id : ℕ} {fields : List HeaderField} {part : Part}
  {st : Stream}

/-! ## The parts that the frames of a block show -/

variable {frameType : FrameType} {promised max fuel : ℕ} {endStream : Bool} {block src : Bytes}
  {header : FrameHeader} {t : Session X}

theorem type_blockFrames_rest {frame : FrameHeader × Bytes}
    (h : frame ∈ blockFrames frameType id promised endStream max fuel false block) :
    frame.1.type = .continuation := by
  obtain ⟨_ | _, last, fragment, hfirst, -, rfl⟩ := mem_blockFrames h
  · rfl
  · cases hfirst rfl

/-- The frames after the first show nothing. -/
theorem parts_blockFrames (frameType : FrameType) (id promised max : ℕ) (endStream : Bool)
    (block : Bytes) (fields : List HeaderField) (id' : ℕ) :
    ∃ header payload, parts id' (((blockFrames frameType id promised endStream max
        (block.length + 1) true block).map sentEntry).map fun obs => { obs, fields }) =
      (sentPart id' header payload fields).toList ∧ header.type = frameType ∧
        header.streamID = id ∧ header.flags.has .endStream =
          (endStream && frameType = .headers) ∧
        blockPromise frameType promised true <+: payload := by
  rw [blockFrames, if_pos (.inl rfl)]
  simp only
  generalize min block.length (max - (blockPromise frameType promised true).length) = count
  generalize hflags : blockFlags frameType endStream true (count == block.length) = flags
  generalize hpayload : blockPromise frameType promised true ++ block.take count = payload
  refine ⟨{ type := frameType, flags, streamID := id, length := payload.length }, payload, ?_, rfl,
    rfl, ?_, hpayload ▸ prefix_append _ _⟩
  · rw [map_cons, map_cons, parts, filterMap_cons]
    have hrest : (((blockFrames frameType id promised endStream max block.length false
        (block.drop count)).map sentEntry).map fun obs => ({ obs, fields } : Entry)).filterMap
          (Entry.part id') = [] := by
      rw [map_map, filterMap_map, filterMap_eq_nil_iff]
      intro frame hframe
      have ht := type_blockFrames_rest hframe
      simp only [Function.comp_apply, Entry.part, sentEntry, sentPart, ht]
      rfl
    rw [hrest]
    simp only [Entry.part, sentEntry, if_true]
    cases sentPart id' _ _ fields <;> rfl
  · rw [← hflags, blockFlags]
    by_cases hh : frameType = .headers <;> cases endStream <;>
      cases count == block.length <;> simp [hh] <;> decide

theorem parts_headersFrames (id' : ℕ) :
    parts id' (((blockFrames .headers id 0 endStream max (block.length + 1) true block).map
        sentEntry).map fun obs => { obs, fields }) =
      if id' = id then [.sent (inspectHeaderSection fields) endStream] else [] := by
  obtain ⟨header, payload, hparts, ht, hid, hend, -⟩ :=
    parts_blockFrames .headers id 0 max endStream block fields id'
  rw [hparts, sentPart, if_pos ht, hid, hend]
  by_cases h : id' = id
  · simp [h]
  · simp [h, Ne.symm h]

theorem parts_promiseFrames (hp : promised < 2 ^ 32) (id' : ℕ) :
    parts id' (((blockFrames .pushPromise id promised false max (block.length + 1) true block).map
        sentEntry).map fun obs => { obs, fields }) =
      if id' = promised then [.promise (inspectHeaderSection fields)] else [] := by
  obtain ⟨header, payload, hparts, ht, -, -, rest, hrest⟩ :=
    parts_blockFrames .pushPromise id promised max false block fields id'
  have htake : beNat (payload.take 4) = promised := by
    rw [← hrest, blockPromise, if_pos ⟨rfl, rfl⟩, take_left' (by simp),
      beNat_putUint32 hp]
  rw [hparts, sentPart, if_neg (by rw [ht]; decide), if_neg (by rw [ht]; decide), if_pos ht, htake]
  by_cases h : id' = promised
  · simp [h]
  · simp [h, Ne.symm h]

/-! ## Sending -/

/-- The state of a stream after the local side has ended it. -/
def endLocalState : StreamState → StreamState
  | .open => .halfClosedLocal
  | .halfClosedRemote => .closed
  | .reservedLocal => .halfClosedRemote
  | state => state

/-- The stream after the local side has ended it, if it does. -/
def Stream.endLocal (st : Stream) (ends : Bool) : Stream :=
  if ends then { st with state := endLocalState st.state } else st

@[simp] theorem method_endLocal (st : Stream) (ends : Bool) :
    (Stream.endLocal st ends).method = st.method := by
  cases ends <;> rfl

@[simp] theorem sentHeaders_endLocal (st : Stream) (ends : Bool) :
    (Stream.endLocal st ends).sentHeaders = st.sentHeaders := by
  cases ends <;> rfl

theorem sendSection_state (st : Stream) (m : HeaderSectionMetadata) :
    (Stream.sendSection st m).state =
      if st.state = .reservedLocal then .halfClosedRemote else st.state := by
  unfold Stream.sendSection
  simp only
  split_ifs <;> rfl

theorem stream_localEnd {st' : Stream} (hst : s.stream? id = some st)
    (h : (s.localEnd id).stream? id = some st') : st' = Stream.endLocal st true := by
  unfold localEnd at h
  simp only [hst] at h
  unfold Stream.endLocal
  rw [if_pos rfl]
  split at h
  · next hs =>
    simp only [setStream, stream?, AList.lookup_insert, Option.some.injEq] at h
    rw [← h, hs]
    rfl
  · next hs =>
    obtain ⟨st₀, hst₀, heq | ⟨-, -, heq⟩⟩ := stream_closeStream h
    · have hc := closed_of_closeStream h
      rw [heq] at hc
      cases hst.symm.trans hst₀
      rw [hs] at hc
      cases hc
    · cases hst.symm.trans hst₀
      rw [heq, hs]
      rfl
  · next hs =>
    simp only [setStream, stream?, AList.lookup_insert, Option.some.injEq] at h
    rw [← h, hs]
    rfl
  · next h1 h2 h3 =>
    cases hst.symm.trans h
    have hstate : endLocalState st.state = st.state := by
      cases hs : st.state <;> simp_all [endLocalState]
    rw [hstate]

/-- The part has been sent, and the stream is ended with it or not. -/
theorem Moves.localEnd (h : Moves true s s' fields id part st) (hst : s'.stream? id = some st)
    (ends : Bool) :
    Moves true s (if ends then s'.localEnd id else s') fields id part
    (Stream.endLocal st ends) := by
  cases ends with
  | false => exact h
  | true =>
    have hc : Calm (messageSide true) s' (s'.localEnd id) := calm_localEnd s' id
    refine { h.calm hc with self := fun st' hst' => ?_ }
    rw [stream_localEnd hst hst']
    exact (messageSide true).refl _

/-- What `SendHeaders` has checked. -/
structure HeadersChecked (s : Session X) (id : ℕ) (fields : List HeaderField) (endStream : Bool)
    (st : Stream) : Prop where
  ready : s.ready = none
  stream : s.stream? id = some st
  can : canSend st.state = true
  untrailed : st.sentTrailers = false
  trailing : st.sentHeaders = true → endStream = true
  valid : validateHeaderSection s.role true st.sentHeaders fields
    s.limits.enableExtendedConnect = true
  informational : (inspectHeaderSection fields).informational = true →
    st.sentHeaders = false ∧ endStream = false
  bodyless : (inspectHeaderSection fields).informational = false →
    (inspectHeaderSection fields).noBody = true → endStream = true

theorem headersChecked (h : s.checkSendHeaders id fields endStream = .ok st) :
    HeadersChecked s id fields endStream st := by
  unfold checkSendHeaders at h
  split at h
  · cases h
  next hready =>
  split at h
  · cases h
  next st' hst =>
  simp only at h
  split_ifs at h with h1 h2 h3 h4 h5
  cases h
  simp only [Bool.or_eq_true, Bool.not_eq_true', Bool.and_eq_true, not_or, not_and,
    Bool.not_eq_false, Bool.not_eq_true] at h1 h2 h3 h4 h5
  exact ⟨hready, hst, h1.1, h1.2, h2, h3, h4, fun hi hn => h5 ⟨hi, hn⟩⟩

/-- What `SendData` has checked. -/
structure DataChecked (s : Session X) (id : ℕ) (src : Bytes) (st : Stream) : Prop where
  ready : s.ready = none
  stream : s.stream? id = some st
  can : canSend st.state = true
  started : st.sentHeaders = true
  untrailed : st.sentTrailers = false
  body : st.sendNoBody = false
  length : st.sendHasLength = true → src.length ≤ sub64 st.sendLength st.sendBody

theorem dataChecked (h : s.checkSendData id src = .ok st) : DataChecked s id src st := by
  unfold checkSendData at h
  split at h
  · cases h
  next hready =>
  split at h
  · cases h
  next st' hst =>
  split_ifs at h with h1 h2
  cases h
  simp only [Bool.or_eq_true, Bool.not_eq_true', not_or, Bool.not_eq_false, Bool.not_eq_true]
    at h1
  refine ⟨hready, hst, h1.1.1.2, h1.1.1.1, h1.1.2, h1.2, fun hl => ?_⟩
  simpa [hl] using h2

theorem DataChecked.ok (h : DataChecked s id src st) : s.checkSendData id src = .ok st := by
  unfold checkSendData
  simp only [h.ready, h.stream]
  rw [if_neg (by simp [h.can, h.started, h.untrailed, h.body]), if_neg]
  simpa using h.length

/-- What is sent, and what the session checked before. -/
inductive Sends (s : Session X) (fields : List HeaderField) : ℕ → Part → Stream → Prop
  | headers {id : ℕ} {st : Stream} {endStream : Bool}
      (checked : s.checkSendHeaders id fields endStream = .ok st) :
      Sends s fields id (.sent (inspectHeaderSection fields) endStream)
        (Stream.endLocal (Stream.sendSection st (inspectHeaderSection fields)) endStream)
  | promise {id : ℕ} {sendWindow recvWindow : ℤ} (role : s.role = .server)
      (new : .opened id ∉ s.history) (ready : s.ready = none) :
      Sends s fields id (.promise (inspectHeaderSection fields))
        { state := .reservedLocal, isLocal := true, sendWindow, recvWindow,
          method := (inspectHeaderSection fields).method }
  | data {id n : ℕ} {src : Bytes} {st : Stream} {last : Bool} {sendWindow : ℤ}
      (checked : s.checkSendData id src = .ok st) (le : n ≤ src.length)
      (complete : last = true → st.sendHasLength = true →
        (st.sendBody + n) % 2 ^ 64 = st.sendLength) :
      Sends s fields id (.sentData n last)
        (Stream.endLocal { st with sendWindow, sendBody := (st.sendBody + n) % 2 ^ 64 } last)
  | empty {id : ℕ} {st : Stream} (checked : s.checkSendData id [] = .ok st)
      (complete : st.sendHasLength = true → st.sendLength = st.sendBody) :
      Sends s fields id (.sentData 0 true) (Stream.endLocal st true)

/-- The call names the stream on which it sends the part. -/
def Call.names : Call → ℕ → Part → Prop
  | .sendHeaders id _ _, id', .sent .. => id' = id
  | .sendData id _ _, id', .sentData .. => id' = id
  | _, _, _ => False

/-- No frame that resets a stream is sent. -/
def Unreset (s s' : Session X) : Prop :=
  ∃ new, s'.history = s.history ++ new ∧
    ∀ header payload, .sent header payload ∈ new → header.type ≠ .rstStream

theorem Unreset.trans {s'' : Session X} (h : Unreset s s') (h' : Unreset s' s'') :
    Unreset s s'' := by
  obtain ⟨new, hh, hn⟩ := h
  obtain ⟨new', hh', hn'⟩ := h'
  refine ⟨new ++ new', by rw [hh', hh, append_assoc], fun header payload hm => ?_⟩
  exact (mem_append.1 hm).elim (hn header payload) (hn' header payload)

theorem unreset_blockFrames (ht : frameType.beginsBlock) (h : s'.history = s.history ++
      (blockFrames frameType id promised endStream max fuel true block).map sentEntry) :
    Unreset s s' := by
  refine ⟨_, h, fun header payload hm hr => ?_⟩
  obtain ⟨frame, hframe, heq⟩ := mem_map.1 hm
  cases heq
  have hb := carriesBlock_blockFrames ht fuel true block frame hframe
  simp only [FrameHeader.carriesBlock] at hb
  rcases hb with hb | hb | hb <;> exact absurd (hb.symm.trans hr) (by decide)

theorem unreset_frame {payload : Bytes} (ht : header.type ≠ .rstStream)
    (h : s'.history = s.history ++ [.sent header payload]) : Unreset s s' := by
  refine ⟨_, h, fun header' payload' hm => ?_⟩
  cases mem_singleton.1 hm
  exact ht

/-- The owner sends nothing, or one part of a message, on the stream that the call names or on a new
one. -/
inductive Sending (s s' : Session X) (call : Call) : Prop
  | nothing (calm : Calm (messageSide true) s s')
  | part {t : Session X} {id : ℕ} {part : Part} {st : Stream}
      (calm : Calm (messageSide true) s t) (role : t.role = s.role) (failed : t.failed = s.failed)
      (target : Call.names call id part ∨ .opened id ∉ s.history)
      (sends : Sends t (Action.call call).fields id part st)
      (moves : Moves true t s' (Action.call call).fields id part st) (unreset : Unreset s s')

theorem Sends.failed (h : Sends s fields id part st) : s.failed = none := by
  have hready : s.ready = none := by
    cases h with
    | headers checked => exact (headersChecked checked).ready
    | promise _ _ ready => exact ready
    | data checked => exact (dataChecked checked).ready
    | empty checked => exact (dataChecked checked).ready
  unfold Session.ready at hready
  split at hready
  · cases hready
  · exact hready

/-- The outcomes of `SendHeaders`. -/
theorem moves_sendHeaders (fields : List HeaderField) (endStream : Bool) (hmax : s.FrameRange)
    (hids : ∀ st, s.stream? id = some st → (id < 2 ^ 31 ∧ id ≠ 0) ∧ .opened id ∈ s.history) :
    (∃ encoder block err, s.sendHeaders id fields endStream =
      ({ s with encoder, headerBlock := block }, some err)) ∨
    ∃ t st, s.sendHeaders id fields endStream = (t, none) ∧
      s.checkSendHeaders id fields endStream = .ok st ∧
      Moves true s t fields id (.sent (inspectHeaderSection fields) endStream)
        (Stream.endLocal (Stream.sendSection st (inspectHeaderSection fields)) endStream) ∧
      Unreset s t := by
  obtain ⟨encoder, block, err, h, -⟩ | ⟨-, -, st, hcheck, h⟩ := sendHeaders_cases fields endStream
    hmax fun st hst => (hids st hst).1
  · exact .inl ⟨encoder, block, err, h⟩
  have hm : Moves true s ((s.sentSection .headers id 0 fields endStream).setStream id
      (Stream.sendSection st (inspectHeaderSection fields))) fields id
      (.sent (inspectHeaderSection fields) endStream)
      (Stream.sendSection st (inspectHeaderSection fields)) :=
    .of_insert rfl parts_headersFrames
      (mem_append_left _ (hids st (checkSendHeaders_ok hcheck).1).2) rfl fun _ => rfl
  refine .inr ⟨_, st, h, hcheck, hm.localEnd (AList.lookup_insert _) endStream, ?_⟩
  cases endStream with
  | false => exact unreset_blockFrames (.inl rfl) rfl
  | true => exact unreset_blockFrames (.inl rfl) (history_localEnd _ _)

theorem sending_sendHeaders (hmax : s.FrameRange)
    (hids : ∀ st, s.stream? id = some st → (id < 2 ^ 31 ∧ id ≠ 0) ∧ .opened id ∈ s.history) :
    Sending s (s.sendHeaders id fields endStream).1 (.sendHeaders id fields endStream) := by
  obtain ⟨encoder, block, err, h⟩ | ⟨t, st, h, hcheck, hm, hu⟩ :=
    moves_sendHeaders fields endStream hmax hids
  · rw [h]
    exact .nothing (.of_eq rfl rfl rfl)
  · rw [h]
    exact .part (.refl s) rfl rfl (by exact .inl rfl) (.headers hcheck) hm hu

theorem sending_openStream (hids : s.endpoint.IdSpace) (hmax : s.FrameRange) :
    Sending s (s.openStream fields endStream).1 (.openStream fields endStream) := by
  have hadd : Calm (messageSide true) s s.addLocal :=
    (calm_addStream (not_opened_nextLocal hids) rfl).trans (.of_eq rfl rfl rfl)
  unfold openStream
  split_ifs with h1 h2 h3 h4 h5
  all_goals try exact .nothing (.refl s)
  have hid : s.nextLocalStream < 2 ^ 31 ∧ s.nextLocalStream ≠ 0 := by
    unfold maxInt32 at h3
    omega
  have hopen : .opened s.nextLocalStream ∈ s.addLocal.history := by
    simp [addLocal, addStream, note]
  simp only
  obtain ⟨encoder, block, err, h⟩ | ⟨t, st, h, hcheck, hm, hu⟩ :=
    moves_sendHeaders (s := s.addLocal) fields endStream hmax fun _ _ => ⟨hid, hopen⟩
  · rw [h]
    have hc : Calm (messageSide true) s.addLocal { s.addLocal with encoder, headerBlock := block } :=
      .of_eq rfl rfl rfl
    exact .nothing ((hadd.trans hc).trans (calm_erase _ _ _))
  · rw [h]
    have hopened : Unreset s s.addLocal := ⟨[.opened s.nextLocalStream], rfl, by simp⟩
    exact .part hadd rfl rfl (.inr (not_opened_nextLocal hids)) (.headers hcheck) hm
      (hopened.trans hu)

theorem sending_pushPromise {parent : ℕ} (hids : s.endpoint.IdSpace) (hmax : s.FrameRange)
    (hparent : ∀ st, s.stream? parent = some st → parent < 2 ^ 31 ∧ parent ≠ 0) :
    Sending s (s.pushPromise parent fields).1 (.pushPromise parent fields) := by
  unfold pushPromise
  split_ifs with h1 h2 h3 h4 h5 h6
  all_goals try exact .nothing (.refl s)
  obtain ⟨st, hst, -⟩ := Option.any_eq_true .. |>.1 (by simpa using h2)
  obtain ⟨hid, hz⟩ := hparent st hst
  have hrole : s.role = .server := by
    by_contra hr
    simp [hr] at h1
  have hpromised : s.nextLocalStream < 2 ^ 32 := by
    unfold maxInt32 at h3
    omega
  simp only
  obtain ⟨encoder, block, err, h, -⟩ | ⟨hready, -, h⟩ := encodeAndAppendHeaders_cases
    (s := { s with nextLocalStream := s.nextLocalStream + 2 }) s.nextLocalStream fields false
    (.inr rfl) hmax hid hz
  · rw [h]
    exact .nothing (.of_eq rfl rfl rfl)
  · rw [h]
    refine .part (.refl s) rfl rfl (.inr (not_opened_nextLocal hids))
      (.promise hrole (not_opened_nextLocal hids) hready)
      (.of_insert (append_assoc _ _ _) (fun id' => ?_) ?_ rfl fun _ => rfl) ?_
    · rw [map_append, parts_append, sectionFrames, parts_promiseFrames hpromised]
      exact append_nil _
    · simp [addStream, note]
    · have hframes : Unreset s (sentSection { s with nextLocalStream := s.nextLocalStream + 2 }
          .pushPromise parent s.nextLocalStream fields false) :=
        unreset_blockFrames (.inr rfl) rfl
      exact hframes.trans ⟨[.opened s.nextLocalStream], rfl, by simp⟩

theorem parts_dataFrame (last : Bool) (payload : Bytes) (id' : ℕ) :
    parts id' ([Obs.sent { dataHeader id last with length := payload.length } payload].map
        fun obs => { obs, fields }) =
      if id' = id then [.sentData payload.length last] else [] := by
  have hflags : Flags.has (if last then .endStream else 0) .endStream = last := by
    cases last <;> decide
  have hne : FrameType.data ≠ .headers := by decide
  by_cases h : id' = id
  · simp [parts, Entry.part, sentPart, dataHeader, hflags, hne, h]
  · simp [parts, Entry.part, sentPart, dataHeader, hne, h, Ne.symm h]

theorem sending_sendData (hids : s.endpoint.IdSpace) :
    Sending s (s.sendData id src endStream).1 (.sendData id src endStream) := by
  have hne (last : Bool) (n : ℕ) : FrameHeader.type { dataHeader id last with length := n } ≠
      .rstStream := show FrameType.data ≠ .rstStream by decide
  have hsends := sendsData s id src endStream
  generalize s.sendData id src endStream = r at hsends
  cases hsends with
  | nothing => exact .nothing (.refl s)
  | @empty st checked complete =>
    obtain ⟨hst, -⟩ := checkSendData_ok checked
    have hm : Moves true s (s.appended (dataHeader id true) []) [] id (.sentData 0 true) st :=
      .of_calm (.refl s) hst (hids.opened id st hst).1 rfl (parts_dataFrame true []) rfl fun _ => rfl
    exact .part (.refl s) rfl rfl (by exact .inl rfl) (.empty checked complete)
      (hm.localEnd hst true) (unreset_frame (hne true 0) (history_localEnd _ _))
  | @data st payload last checked le _ _ _ complete =>
    obtain ⟨hst, -⟩ := checkSendData_ok checked
    have hm : Moves true s ((s.appended (dataHeader id last) payload).charged id st payload.length)
        [] id (.sentData payload.length last)
        { st with
          sendWindow := st.sendWindow - payload.length
          sendBody := (st.sendBody + payload.length) % 2 ^ 64 } :=
      .of_insert rfl (parts_dataFrame last payload)
        (mem_append_left _ (hids.opened id st hst).1) rfl fun _ => rfl
    refine .part (.refl s) rfl rfl (by exact .inl rfl) (.data checked le complete)
      (hm.localEnd (AList.lookup_insert _) last) ?_
    cases last with
    | false => exact unreset_frame (hne false _) rfl
    | true => exact unreset_frame (hne true _) (history_localEnd _ _)

/-- **A call sends at most one part of a message.** -/
theorem sending_call (call : Call) (hids : s.endpoint.IdSpace) (hb : Bounded s.endpoint) :
    Sending s (s.call call) call := by
  by_cases hcontrol : Call.isControl call
  · exact .nothing (calm_controlCall (messageSide_ignoresReset true) hcontrol)
  cases call with
  | openStream headers endStream => exact sending_openStream hids hb.maxFrame
  | pushPromise parent headers =>
    exact sending_pushPromise hids hb.maxFrame fun _ => hb.id_of_stream hids
  | sendHeaders id headers endStream =>
    exact sending_sendHeaders hb.maxFrame fun st hst =>
      ⟨hb.id_of_stream hids hst, (hids.opened id st hst).1⟩
  | sendData id src endStream => exact sending_sendData hids
  | _ => exact absurd trivial hcontrol

/-! ## Receiving -/

theorem calm_clearSection (s : Session X) : Calm (messageSide false) s s.clearSection :=
  calm_blockChange rfl rfl rfl

/-- The event of a part is queued. -/
theorem parts_queued (event : Event) (hp : event.part = some part) (id' : ℕ) :
    parts id' ([Obs.queued event].map fun obs => { obs, fields }) =
      if id' = event.streamID then [part] else [] := by
  by_cases h : id' = event.streamID
  · simp [parts, Entry.part, hp, h]
  · simp [parts, Entry.part, h, Ne.symm h]

/-- The peer ends a message, which shows if it has the declared length. -/
inductive Ends (reads : Bool) (s s' : Session X) (id : ℕ) : Prop
  | nothing (calm : Calm (messageSide reads) s s')
  | ends {st : Stream} (stream : s.stream? id = some st) (active : st.state ≠ .closed)
      (complete : st.receiveHasLength = true → st.receiveNoBody = false →
        st.receiveLength = st.receiveBody)
      (moves : Moves reads s s' [] id .receivedEnd st)

theorem ends_remoteEnd (hids : ∀ st, s.stream? id = some st → .opened id ∈ s.history) :
    Ends true s (s.remoteEnd id) id := by
  unfold remoteEnd
  split
  · exact .nothing (.refl s)
  next st hst =>
  split
  · exact .nothing (walks_streamError (messageSide_ignoresResets true) s _ : Walks _ 8 _ _ _).calm
  next hlength =>
  have hend : Calm (messageSide true) s (s.endRemote id st) :=
    (walks_endRemote hst : Walks _ 8 true _ _).calm
  simp only
  split
  · next hs =>
    unfold offerEvent
    generalize hq : (s.endRemote id st).queueEvent { type := .streamEnd, streamID := id } = w
    obtain ⟨t, _ | err⟩ := w
    · rw [queueEvent_ok hq]
      refine .ends hst hs (fun hl hn => ?_) (.of_calm hend hst (hids st hst) rfl
        (parts_queued { type := .streamEnd, streamID := id } rfl) rfl fun _ => rfl)
      simpa [hl, hn] using hlength
    · rw [queueEvent_error hq]
      exact .nothing (hend.trans (.of_eq rfl rfl rfl))
  · exact .nothing hend

/-- The session receives nothing of a message, or a complete section and perhaps the end. -/
inductive Receives (s s' : Session X) : Prop
  | nothing (calm : Calm (messageSide false) s s')
  | promise {st : Stream} (stream : s.stream? s.currentHeaderEventStream = some st)
      (push : s.currentHeaderPush = true)
      (moves : Moves false s s' [] s.currentHeaderEventStream
        (.promise (inspectHeaderSection s.currentHeaders))
        { st with method := (inspectHeaderSection s.currentHeaders).method })
  | informational {st : Stream} (stream : s.stream? s.currentHeaderEventStream = some st)
      (push : s.currentHeaderPush = false) (valid : s.validSection = true)
      (informational : (inspectHeaderSection s.currentHeaders).informational = true)
      (moves : Moves false s s' [] s.currentHeaderEventStream
        (.received (inspectHeaderSection s.currentHeaders) s.currentHeaderTrailer) st)
  | final {st : Stream} {t : Session X} (stream : s.stream? s.currentHeaderEventStream = some st)
      (push : s.currentHeaderPush = false) (valid : s.validSection = true)
      (final : (inspectHeaderSection s.currentHeaders).informational = false)
      (moves : Moves false s t [] s.currentHeaderEventStream
        (.received (inspectHeaderSection s.currentHeaders) s.currentHeaderTrailer)
        (Stream.receiveSection st (inspectHeaderSection s.currentHeaders) s.currentHeaderTrailer))
      (role : t.role = s.role) (failed : t.failed = s.failed)
      (ends : Ends false t s' s.currentHeaderEventStream)

theorem Ends.clear (h : Ends true s t id) : Ends false s t.clearSection id := by
  cases h with
  | nothing calm => exact .nothing (calm.weaken.trans (calm_clearSection t))
  | ends stream active complete moves =>
    exact .ends stream active complete (moves.weaken.calm (calm_clearSection t))

theorem receives_commitSection (hst : s.stream? s.currentHeaderEventStream = some st)
    (hopen : .opened s.currentHeaderEventStream ∈ s.history) (hvalid : s.validSection = true)
    (hq : s.queueEvent (s.sectionEvent endStream) = (t, none)) :
    Receives s (t.commitSection s.currentHeaderEventStream st endStream).clearSection := by
  have ht := queueEvent_ok hq
  have hhist : t.history = s.history ++ [.queued (s.sectionEvent endStream)] := by rw [ht]; rfl
  have hstreams : t.streams = s.streams := by rw [ht]; rfl
  have hpush : t.currentHeaderPush = s.currentHeaderPush := by rw [ht]; rfl
  have htrailer : t.currentHeaderTrailer = s.currentHeaderTrailer := by rw [ht]; rfl
  have hheaders : t.currentHeaders = s.currentHeaders := by rw [ht]; rfl
  have hrole : t.role = s.role := by rw [ht]; rfl
  have hfailed : t.failed = s.failed := by rw [ht]; rfl
  have hopen' : .opened s.currentHeaderEventStream ∈ t.history := by
    rw [hhist]
    exact mem_append_left _ hopen
  have hparts : ∀ part, (s.sectionEvent endStream).part = some part → ∀ id',
      parts id' ([Obs.queued (s.sectionEvent endStream)].map fun obs => { obs, fields := [] }) =
        if id' = s.currentHeaderEventStream then [part] else [] :=
    fun part hp id' => parts_queued _ hp id'
  have hset : ∀ part st', (s.sectionEvent endStream).part = some part → Moves false s
      (t.setStream s.currentHeaderEventStream st') [] s.currentHeaderEventStream part st' :=
    fun part st' hp => .of_insert hhist (hparts part hp) hopen'
      (by rw [setStream, hstreams]) nofun
  unfold commitSection
  rw [hpush, htrailer, hheaders]
  simp only
  split
  · next hp =>
    exact .promise hst hp
      ((hset _ _ (by simp [Event.part, sectionEvent, hp])).calm (calm_clearSection _))
  next hp =>
  have hp : s.currentHeaderPush = false := by simpa using hp
  have hreceived : (s.sectionEvent endStream).part = some
      (.received (inspectHeaderSection s.currentHeaders) s.currentHeaderTrailer) := by
    simp [Event.part, sectionEvent, hp]
  split
  · next hfinal =>
    refine .final hst hp hvalid (by simpa using hfinal) (hset _ _ hreceived) hrole hfailed ?_
    cases endStream with
    | false => exact .nothing (calm_clearSection _)
    | true => exact Ends.clear (ends_remoteEnd fun _ _ => hopen')
  · next hinf =>
    refine .informational hst hp hvalid (by simpa using hinf) ?_
    have hm : Moves false s t [] s.currentHeaderEventStream
        (.received (inspectHeaderSection s.currentHeaders) s.currentHeaderTrailer) st :=
      .of_calm (.refl s) hst hopen hhist (hparts _ hreceived) hstreams nofun
    split
    · exact (hm.calm (walks_streamError (messageSide_ignoresResets false) _ _ :
        Walks _ 8 _ _ _).calm).calm (calm_clearSection _)
    · exact hm.calm (calm_clearSection _)

theorem receives_finishSection (endStream : Bool)
    (hids : ∀ id st, s.stream? id = some st → .opened id ∈ s.history) :
    Receives s (s.finishSection endStream) := by
  unfold finishSection
  split
  · exact .nothing (.refl s)
  next st hst =>
  split
  · exact .nothing (walks_streamError (messageSide_ignoresResets false) s _ : Walks _ 8 _ _ _).calm
  next hvalid =>
  generalize hq : s.queueEvent (s.sectionEvent endStream) = w
  obtain ⟨t, _ | err⟩ := w
  · have hcur : t.currentHeaderEventStream = s.currentHeaderEventStream := by
      rw [queueEvent_ok hq]
      rfl
    simp only
    rw [hcur]
    exact receives_commitSection hst (hids _ st hst) (by simpa using hvalid) hq
  · rw [queueEvent_error hq]
    exact .nothing (calm_connectionError s _ _)

/-- **The end of a block receives at most one section, and perhaps the end of its message.** -/
theorem receives_onHeaderBlockEnd (id : ℕ) (endStream : Bool)
    (hids : ∀ id st, s.stream? id = some st → .opened id ∈ s.history) :
    Calm (messageSide false) s (s.onHeaderBlockEnd id endStream) ∨
      s.failed = none ∧ s.decoder.active = true ∧ Receives s (s.onHeaderBlockEnd id endStream) := by
  unfold onHeaderBlockEnd
  split
  · exact .inl (.refl s)
  next hne =>
  have hf : s.failed = none := by
    by_contra hf
    exact hne (.inl hf)
  have hend : Calm (messageSide false) s s.endDecoderBlock.1 :=
    (walks_endDecoderBlock rfl s : Walks _ 8 _ _ _).calm
  generalize hw : s.endDecoderBlock = w at hend
  obtain ⟨t, _ | err⟩ := w
  · obtain ⟨hactive, decoder, -, rfl⟩ := endDecoderBlock_ok hw
    refine .inr ⟨hf, hactive, ?_⟩
    have h := receives_finishSection (s := { s.note (.decoder .endBlock) with decoder })
      endStream fun id st hst => mem_append_left _ (hids id st hst)
    cases h with
    | nothing calm => exact .nothing (hend.trans calm)
    | promise stream push moves => exact .promise stream push (hend.moves moves)
    | informational stream push valid informational moves =>
      exact .informational stream push valid informational (hend.moves moves)
    | final stream push valid final moves role failed ends =>
      exact .final stream push valid final (hend.moves moves) role failed ends
  · exact .inl (hend.trans (calm_connectionError t _ _))

/-- The session receives a piece of a body, unless it is too long or cannot be reported. -/
theorem onData_cases (data : Bytes) (endStream : Bool)
    (hids : ∀ st, s.stream? id = some st → .opened id ∈ s.history) :
    Calm (messageSide true) s (s.onData id data endStream) ∨
    ((s.onData id data endStream).failed ≠ none ∧ s.history <+: (s.onData id data endStream).history ∧
      ∀ id', parts id' (newEntries s (s.onData id data endStream) []) = []) ∨
    ∃ st, s.failed = none ∧ s.stream? id = some st ∧
      (st.receiveHasLength = true → data.length ≤ sub64 st.receiveLength st.receiveBody) ∧
      Moves true s (s.onData id data endStream) [] id (.receivedData data.length)
        { st with receiveBody := (st.receiveBody + data.length) % 2 ^ 64 } := by
  unfold onData
  split
  · exact .inl (.refl s)
  next hne =>
  have hf : s.failed = none := by
    by_contra hf
    exact hne (.inl hf)
  split
  · exact .inl (.refl s)
  next st hst =>
  split
  · exact .inl (walks_streamError (messageSide_ignoresResets true) s _ : Walks _ 8 _ _ _).calm
  next hlength =>
  simp only
  generalize hq : (s.setStream id { st with
    receiveBody := (st.receiveBody + data.length) % 2 ^ 64 }).queueEvent
      { type := .data, streamID := id, endStream, data } = w
  obtain ⟨t, _ | err⟩ := w
  · rw [queueEvent_ok hq]
    refine .inr (.inr ⟨st, hf, hst, fun hl => ?_, .of_insert rfl
      (parts_queued { type := .data, streamID := id, endStream, data } rfl)
      (mem_append_left _ (hids st hst)) rfl fun _ => rfl⟩)
    simpa [hl] using hlength
  · rw [queueEvent_error hq]
    have hc : Calm (messageSide true) (s.setStream id { st with
        receiveBody := (st.receiveBody + data.length) % 2 ^ 64 }) _ :=
      calm_connectionError _ .enhanceYourCalm err.message
    exact .inr (.inl ⟨failed_connectionError _ _ _, hc.history, fun id' =>
      hc.parts_newEntries⟩)

theorem failed_credits (s : Session X) (id : ℕ) (st : Stream) :
    (s.creditConnection.creditStream id st).failed = s.failed :=
  (creditStream_frame _ id st).1.trans s.creditConnection_frame.2.1

/-- The end of a DATA frame: the windows are topped up, and perhaps the message ends. -/
theorem onFrameComplete_data (hids : s.endpoint.IdSpace) (ht : header.type = .data) :
    Calm (messageSide true) s (s.onFrameComplete header) ∨
      ∃ t, s.failed = none ∧ t.failed = none ∧ .opened header.streamID ∈ s.history ∧
        Calm (messageSide true) s t ∧ Ends true t (s.onFrameComplete header) header.streamID := by
  have hcount : Calm (messageSide true) s (s.countFrame header) := .of_eq rfl rfl rfl
  have hcontrol : isControlFrame header = false := by simp [isControlFrame, ht]
  unfold onFrameComplete
  simp only [hcontrol, Bool.false_and, Bool.false_eq_true, if_false, ht, if_true]
  split
  · exact .inl (.refl s)
  next hf =>
  unfold completeData
  split
  · exact .inl hcount
  next st hst =>
  have hcredit : Calm (messageSide true) (s.countFrame header)
      ((s.countFrame header).creditConnection.creditStream header.streamID st) :=
    (walks_credits hst : Walks _ 8 true _ _).calm
  have hopen := (hids.opened header.streamID st hst).1
  simp only
  split
  · refine .inr ⟨_, not_not.1 hf, ?_, hopen, hcount.trans hcredit, ends_remoteEnd fun _ _ =>
      hcredit.history.subset hopen⟩
    exact (failed_credits _ _ _).trans (not_not.1 hf)
  · exact .inl (hcount.trans hcredit)

end WagoHttp.Http2.Session
