import WagoHttp.Http2.Session.Refine.Inbound

/-!
# A session is an endpoint: the calls of the owner

The calls of a session's owner are sequences of the elementary changes of `Endpoint.Step` as well,
and with the callbacks of the parser this covers every action (`reaches_act`).
-/

namespace WagoHttp.Http2.Session

open Endpoint

variable {X : Externals} {a : Action} {e₀ : Endpoint X} {s s' s'' : Session X}

/-! ## Frames -/

theorem reserveOutput_mono {m n : ℤ} (h : s.reserveOutput n = true) (h0 : 0 ≤ m) (hle : m ≤ n) :
    s.reserveOutput m = true := by
  simp only [reserveOutput, decide_eq_true_eq] at h ⊢
  omega

/-- A valid frame for which there is room is appended. -/
theorem appendFrameEvenFailed_ok (header : FrameHeader) (payload : Bytes)
    (hroom : s.reserveOutput (9 + payload.length) = true)
    (hsize : payload.length ≤ maxFrameSize.toNat) (hlen : header.length = 0)
    (hid : header.streamID ≤ 0x7fffffff)
    (hv : validateFrameHeader { header with length := payload.length } = .none) :
    s.appendFrameEvenFailed header payload = (s.appended header payload, none) := by
  have hok : ¬(payload.length > maxFrameSize.toNat ∨
      header.length ≠ 0 ∧ header.length ≠ payload.length ∨ header.streamID > 0x7fffffff) := by
    omega
  unfold appendFrameEvenFailed Http2.appendFrame
  rw [hroom, if_neg hok]
  simp only [hv, ne_eq, not_true_eq_false, Bool.not_true, Bool.false_eq_true, if_false]
  rfl

/-! ## Header blocks -/

/-- The header of a frame of a block. -/
def blockHeader (frameType : FrameType) (streamID : ℕ) (endStream first last : Bool) : FrameHeader :=
  { type := if first then frameType else .continuation
    flags := blockFlags frameType endStream first last, streamID }

variable {frameType : FrameType} {streamID promisedID max id : ℕ} {endStream first : Bool}
  {headers : List HeaderField} {st : Stream} {src : Bytes} {code : ErrorCode}
  {settings : List Setting}

theorem type_blockHeader {last : Bool} (ht : frameType.beginsBlock) :
    (blockHeader frameType streamID endStream first last).carriesBlock := by
  cases first with
  | false => exact .inr (.inr rfl)
  | true => exact ht.imp_right .inl

/-- What a frame of a block looks like. -/
theorem mem_blockFrames {fuel : ℕ} {block : Bytes} {frame : FrameHeader × Bytes}
    (h : frame ∈ blockFrames frameType streamID promisedID endStream max fuel first block) :
    ∃ first' last fragment, (first' = true → first = true) ∧
      fragment.length ≤ max - (blockPromise frameType promisedID first').length ∧
      frame = (blockHeader frameType streamID endStream first' last,
        blockPromise frameType promisedID first' ++ fragment) := by
  induction fuel generalizing first block with
  | zero => cases h
  | succ fuel ih =>
    rw [blockFrames] at h
    split at h
    · rcases List.mem_cons.1 h with rfl | h
      · refine ⟨first, _, _, id, ?_, rfl⟩
        rw [List.length_take]
        omega
      · obtain ⟨first', last, fragment, hfirst, hrest⟩ := ih h
        exact ⟨first', last, fragment, fun h => absurd (hfirst h) Bool.false_ne_true, hrest⟩
    · cases h

theorem carriesBlock_blockFrames {peerMaxFrame : ℕ}
    (ht : frameType.beginsBlock) (fuel : ℕ) (first : Bool) (block : Bytes) :
    ∀ frame ∈ blockFrames frameType streamID promisedID endStream peerMaxFrame fuel first block,
      frame.1.carriesBlock := by
  intro frame hframe
  obtain ⟨first, last, fragment, -, -, rfl⟩ := mem_blockFrames hframe
  exact type_blockHeader ht

/-- What sending frames leaves unchanged. -/
structure SentFrame (s s' : Session X) : Prop where
  streams : s'.streams = s.streams
  role : s'.role = s.role
  nextLocal : s'.nextLocalStream = s.nextLocalStream
  peerInitial : s'.peerInitialWindow = s.peerInitialWindow
  limits : s'.limits = s.limits
  opened : ∀ id, .opened id ∈ s'.history ↔ .opened id ∈ s.history

theorem SentFrame.refl (s : Session X) : SentFrame s s :=
  ⟨rfl, rfl, rfl, rfl, rfl, fun _ => Iff.rfl⟩

theorem SentFrame.trans (h : SentFrame s s') (h' : SentFrame s' s'') : SentFrame s s'' :=
  ⟨h'.streams.trans h.streams, h'.role.trans h.role, h'.nextLocal.trans h.nextLocal,
    h'.peerInitial.trans h.peerInitial, h'.limits.trans h.limits,
    fun id => (h'.opened id).trans (h.opened id)⟩

theorem sentFrame_appendFrame (s : Session X) (header : FrameHeader) (payload : Bytes) :
    SentFrame s (s.appendFrame header payload).1 :=
  appendFrame_elim (P := SentFrame s) (.refl s)
    ⟨rfl, rfl, rfl, rfl, rfl, fun id => by simp [appended, note]⟩

theorem appendFrames_spec (ha : a.sendsBlock) (frames : List (FrameHeader × Bytes))
    (s : Session X) (h : ∀ frame ∈ frames, frame.1.carriesBlock) :
    Reaches a e₀ s (appendFrames frames s).1 ∧ SentFrame s (appendFrames frames s).1 := by
  induction frames generalizing s with
  | nil => exact ⟨.refl s, .refl s⟩
  | cons frame frames ih =>
    obtain ⟨header, payload⟩ := frame
    obtain ⟨h1, h2⟩ := List.forall_mem_cons.1 h
    have hreach : Reaches a e₀ s (s.appendFrame header payload).1 :=
      reaches_appendFrame (.inr (.inl ⟨h1, ha⟩))
    have hframe := sentFrame_appendFrame s header payload
    unfold appendFrames
    generalize s.appendFrame header payload = w at hreach hframe
    obtain ⟨s', _ | err⟩ := w
    · exact ⟨hreach.trans (ih s' h2).1, hframe.trans (ih s' h2).2⟩
    · exact ⟨hreach, hframe⟩

theorem encodeAndAppendHeaders_spec (ha : a.sendsBlock) (ht : frameType.beginsBlock) :
    Reaches a e₀ s
        (s.encodeAndAppendHeaders frameType streamID promisedID headers endStream).1 ∧
      SentFrame s
        (s.encodeAndAppendHeaders frameType streamID promisedID headers endStream).1 := by
  unfold encodeAndAppendHeaders
  simp only
  split
  · exact ⟨.refl s, .refl s⟩
  generalize encodeFields X _ headers s.encoder [] = r
  obtain ⟨encoder, block, ok⟩ := r
  have h1 : Reaches a e₀ s { s with encoder, headerBlock := block } :=
    .single (.encoder ha)
  have h2 : SentFrame s { s with encoder, headerBlock := block } :=
    ⟨rfl, rfl, rfl, rfl, rfl, fun _ => Iff.rfl⟩
  simp only
  split
  · exact ⟨h1, h2⟩
  · generalize ({ s with encoder, headerBlock := block } : Session X) = t at h1 h2
    have hspec : Reaches a e₀ t (appendFrames (blockFrames frameType streamID promisedID endStream
          s.peerMaxFrame (block.length + 1) true block) t).1 ∧ _ :=
      appendFrames_spec ha _ t (carriesBlock_blockFrames ht (block.length + 1) true block)
    exact ⟨h1.trans hspec.1, h2.trans hspec.2⟩

/-! ## Streams -/

theorem checkSendHeaders_ok (h : s.checkSendHeaders streamID headers endStream = .ok st) :
    s.stream? streamID = some st ∧ canSend st.state = true := by
  unfold checkSendHeaders at h
  split at h
  · cases h
  · split at h
    · cases h
    · next st' hst =>
      simp only at h
      split_ifs at h with hsend
      cases h
      exact ⟨hst, by_contra fun hc => hsend (by simp [hc])⟩

theorem tame_sendSection (st : Stream) (m : HeaderSectionMetadata) (h : st.state ≠ .closed) :
    Tame st (some (Stream.sendSection st m)) := by
  have heq : (Stream.sendSection st m).isLocal = st.isLocal ∧
      (Stream.sendSection st m).sendWindow = st.sendWindow ∧
      (Stream.sendSection st m).recvWindow = st.recvWindow := by
    simp only [Stream.sendSection]
    split_ifs <;> exact ⟨rfl, rfl, rfl⟩
  exact tame_of_eq heq.1 (fun hc => absurd hc h) heq.2.1 heq.2.2

theorem ne_closed_of_canSend {state : StreamState} (h : canSend state = true) :
    state ≠ .closed := by
  rintro rfl
  exact absurd h (by decide)

theorem reaches_sendHeaders (ha : a.sendsBlock) :
    Reaches a e₀ s (s.sendHeaders streamID headers endStream).1 := by
  unfold sendHeaders
  split
  · exact .refl s
  next st hcheck =>
  obtain ⟨hst, hsend⟩ := checkSendHeaders_ok hcheck
  have hspec : Reaches a e₀ s (s.encodeAndAppendHeaders .headers streamID 0 headers endStream).1 ∧
      SentFrame s (s.encodeAndAppendHeaders .headers streamID 0 headers endStream).1 :=
    encodeAndAppendHeaders_spec ha (.inl rfl)
  generalize s.encodeAndAppendHeaders .headers streamID 0 headers endStream = w at hspec
  obtain ⟨s', _ | err⟩ := w
  · obtain ⟨hreach, hframe⟩ := hspec
    have hst' : s'.stream? streamID = some st := by
      rw [stream?, hframe.streams]
      exact hst
    have h1 : Reaches a e₀ s (s'.setStream streamID
        (Stream.sendSection st (inspectHeaderSection headers))) :=
      hreach.trans (reaches_setStream hst' (tame_sendSection st _ (ne_closed_of_canSend hsend)))
    simp only
    split_ifs
    · exact h1
    · exact h1.trans (reaches_localEnd _ _)
    · exact h1
  · exact hspec.1

/-- Remove a stream from the table. -/
theorem reaches_erase (s : Session X) (id active : ℕ) :
    Reaches a e₀ s { s with streams := s.streams.erase id, activeLocal := active } := by
  cases hst : s.stream? id with
  | none =>
    refine .of_eq ?_
    simp only [endpoint, Endpoint.mk.injEq, true_and, and_true]
    funext id'
    by_cases hid : id' = id
    · subst hid
      simpa [stream?] using hst
    · simp [stream?, AList.lookup_erase_ne hid]
  | some st =>
    refine .single ?_
    have h : ({ s with streams := s.streams.erase id, activeLocal := active } :
        Session X).endpoint = s.endpoint.set id none := by
      simp only [endpoint, Endpoint.set, Endpoint.mk.injEq, true_and, and_true]
      funext id'
      by_cases hid : id' = id
      · subst hid
        simp [stream?]
      · simp [stream?, hid, AList.lookup_erase_ne hid]
    rw [h]
    exact .stream hst (tame_none st)

theorem not_opened_nextLocal (h : s.endpoint.IdSpace) :
    Obs.opened s.nextLocalStream ∉ s.history := fun ho =>
  absurd (h.local_lt _ ho h.next) (lt_irrefl s.nextLocalStream)

/-- A new stream of this endpoint. -/
theorem reaches_addLocal {active : ℕ} (ha : a.opensLocal) (hid : id < s.nextLocalStream)
    (hr : s.role.initiates id) (hz : id ≠ 0) (hlt : id < 2 ^ 31) (hnew : .opened id ∉ s.history)
    (hst : Fresh s.endpoint st true) :
    Reaches a e₀ s { s.addStream id st with activeLocal := active } := by
  refine .single ?_
  have h : ({ s.addStream id st with activeLocal := active } : Session X).endpoint =
      (s.endpoint.set id (some st)).note (.opened id) := endpoint_addStream s id st
  rw [h]
  exact .openLocal ha hid hr hz hlt hnew hst

theorem lt_of_not_exhausted (h : ¬(s.nextLocalStream = 0 ∨ s.nextLocalStream > maxInt32)) :
    s.nextLocalStream < 2 ^ 31 := by
  simp only [maxInt32] at h
  omega

theorem reaches_openStream (ha : a = .call (.openStream headers endStream))
    (hid : s.endpoint.IdSpace) :
    Reaches a e₀ s (s.openStream headers endStream).1 := by
  have hlocal : a.opensLocal := by rw [ha]; trivial
  have hblock : a.sendsBlock := by rw [ha]; trivial
  unfold openStream
  simp only
  split_ifs with _ _ hlt
  · exact .refl s
  · exact .refl s
  · exact .refl s
  · exact .refl s
  · exact .refl s
  have h1 : Reaches a e₀ s { s with nextLocalStream := s.nextLocalStream + 2 } :=
    .single (.allocate hlocal)
  have h2 : Reaches a e₀ { s with nextLocalStream := s.nextLocalStream + 2 } s.addLocal :=
    reaches_addLocal (s := { s with nextLocalStream := s.nextLocalStream + 2 }) hlocal
      (by simp) hid.next hid.next_pos.ne' (lt_of_not_exhausted hlt) (not_opened_nextLocal hid)
      ⟨by simp [freshStream], rfl, rfl, rfl⟩
  have h3 := h1.trans h2
  generalize s.addLocal = t at h3
  have h4 : Reaches a e₀ t (t.sendHeaders s.nextLocalStream headers endStream).1 :=
    reaches_sendHeaders hblock
  generalize t.sendHeaders s.nextLocalStream headers endStream = w at h4
  obtain ⟨t', _ | err⟩ := w
  · exact h3.trans h4
  · exact h3.trans (h4.trans (reaches_erase t' _ _))

theorem reaches_pushPromise {parent : ℕ} (ha : a = .call (.pushPromise parent headers))
    (hid : s.endpoint.IdSpace) :
    Reaches a e₀ s (s.pushPromise parent headers).1 := by
  have hlocal : a.opensLocal := by rw [ha]; trivial
  have hblock : a.sendsBlock := by rw [ha]; trivial
  unfold pushPromise
  simp only
  split_ifs with _ _ hlt
  · exact .refl s
  · exact .refl s
  · exact .refl s
  · exact .refl s
  · exact .refl s
  · exact .refl s
  have h1 : Reaches a e₀ s { s with nextLocalStream := s.nextLocalStream + 2 } :=
    .single (.allocate hlocal)
  have hspec : Reaches a e₀ { s with nextLocalStream := s.nextLocalStream + 2 }
        (encodeAndAppendHeaders { s with nextLocalStream := s.nextLocalStream + 2 } .pushPromise
          parent s.nextLocalStream headers false).1 ∧
      SentFrame { s with nextLocalStream := s.nextLocalStream + 2 }
        (encodeAndAppendHeaders { s with nextLocalStream := s.nextLocalStream + 2 } .pushPromise
          parent s.nextLocalStream headers false).1 :=
    encodeAndAppendHeaders_spec hblock (.inr rfl)
  generalize encodeAndAppendHeaders { s with nextLocalStream := s.nextLocalStream + 2 }
    .pushPromise parent s.nextLocalStream headers false = w at hspec
  obtain ⟨t, _ | err⟩ := w
  · obtain ⟨hreach, hframe⟩ := hspec
    have hnew : Obs.opened s.nextLocalStream ∉ t.history := fun h =>
      not_opened_nextLocal hid ((hframe.opened _).1 h)
    refine h1.trans (hreach.trans (reaches_addLocal hlocal ?_ ?_ hid.next_pos.ne'
      (lt_of_not_exhausted hlt) hnew ?_))
    · rw [hframe.nextLocal]
      simp
    · rw [hframe.role]
      exact hid.next
    · refine ⟨by simp [freshStream], rfl, ?_, ?_⟩
      · exact hframe.peerInitial.symm
      · exact congrArg (fun l : SessionLimits => (l.initialWindowSize.toNat : ℤ)) hframe.limits.symm
  · exact h1.trans hspec.1

theorem checkSendData_ok (h : s.checkSendData streamID src = .ok st) :
    s.stream? streamID = some st ∧ canSend st.state = true := by
  unfold checkSendData at h
  split at h
  · cases h
  · split at h
    · cases h
    · next st' hst =>
      split_ifs at h with hsend
      cases h
      exact ⟨hst, by_contra fun hc => hsend (by simp [hc])⟩

/-- The header of a DATA frame. -/
def dataHeader (streamID : ℕ) (last : Bool) : FrameHeader :=
  { type := .data, flags := if last then .endStream else 0, streamID }

/-- The windows after a DATA frame of `n` octets. -/
def charged (s : Session X) (id : ℕ) (st : Stream) (n : ℕ) : Session X :=
  { s with connectionSendWindow := s.connectionSendWindow - n }.setStream id
    { st with sendWindow := st.sendWindow - n, sendBody := (st.sendBody + n) % 2 ^ 64 }

/-- What `SendData` does: nothing, or one frame within the windows is sent. -/
inductive SendsData (s : Session X) (id : ℕ) (src : Bytes) :
    Session X × Except SessionError ℕ → Prop
  | nothing (r : Except SessionError ℕ) : SendsData s id src (s, r)
  | empty {st : Stream} (checked : s.checkSendData id [] = .ok st)
      (complete : st.sendHasLength = true → st.sendLength = st.sendBody)
      (sent : s.appendFrame (dataHeader id true) [] = (s.appended (dataHeader id true) [], none)) :
      SendsData s id src ((s.appended (dataHeader id true) []).localEnd id, .ok 0)
  | data {st : Stream} {payload : Bytes} {last : Bool} (checked : s.checkSendData id src = .ok st)
      (le : payload.length ≤ src.length) (size : payload.length ≤ s.peerMaxFrame)
      (connection : (payload.length : ℤ) ≤ s.connectionSendWindow)
      (stream : (payload.length : ℤ) ≤ st.sendWindow)
      (complete : last = true → st.sendHasLength = true →
        (st.sendBody + payload.length) % 2 ^ 64 = st.sendLength)
      (sent : s.appendFrame (dataHeader id last) payload =
        (s.appended (dataHeader id last) payload, none)) :
      SendsData s id src
        (let t := (s.appended (dataHeader id last) payload).charged id st payload.length
        (if last then t.localEnd id else t, .ok payload.length))

theorem sendsData (s : Session X) (id : ℕ) (src : Bytes) (endStream : Bool) :
    SendsData s id src (s.sendData id src endStream) := by
  unfold sendData
  split
  · exact .nothing _
  next st hcheck =>
  split_ifs with hsrc hend
  · exact .nothing _
  · subst hsrc
    unfold sendEmptyData
    split
    · exact .nothing _
    next hlength =>
    obtain ⟨err, h⟩ | h := appendFrame_cases s (dataHeader id true) []
    · rw [show s.appendFrame { type := .data, flags := .endStream, streamID := id } [] = _ from h]
      exact .nothing _
    · rw [show s.appendFrame { type := .data, flags := .endStream, streamID := id } [] = _ from h]
      exact .empty hcheck (fun hl => by simpa [hl] using hlength) h
  simp only
  split
  · exact .nothing _
  generalize hn : (min (min (min (src.length : ℤ) s.peerMaxFrame) s.connectionSendWindow)
    st.sendWindow).toNat = n
  generalize (n == src.length && endStream) = last
  obtain ⟨payload, hpayload, rfl⟩ : ∃ payload, src.take n = payload ∧ n = payload.length :=
    ⟨_, rfl, by rw [List.length_take]; omega⟩
  rw [hpayload]
  split
  · exact .nothing _
  next hlength =>
  obtain ⟨err, h⟩ | h := appendFrame_cases s (dataHeader id last) payload
  · rw [show s.appendFrame { type := .data, flags := if last then .endStream else 0, streamID := id }
      payload = _ from h]
    exact .nothing _
  · rw [show s.appendFrame { type := .data, flags := if last then .endStream else 0, streamID := id }
      payload = _ from h]
    exact .data hcheck (by omega) (by omega) (by omega) (by omega)
      (fun hl hh => by simpa [hl, hh] using hlength) h

theorem reaches_sendData (ha : a = .call (.sendData streamID src endStream)) :
    Reaches a s.endpoint s (s.sendData streamID src endStream).1 := by
  have hsends := sendsData s streamID src endStream
  generalize s.sendData streamID src endStream = r at hsends
  cases hsends with
  | nothing => exact .refl s
  | empty _ _ sent =>
    have h : Reaches a s.endpoint s (s.appendFrame (dataHeader streamID true) []).1 :=
      reaches_appendFrame (.inr (.inr (.inr ⟨rfl, rfl⟩)))
    rw [sent] at h
    exact h.trans (reaches_localEnd _ _)
  | @data st payload last checked _ _ connection stream =>
    obtain ⟨hst, hsend⟩ := checkSendData_ok checked
    have hcharge : Reaches a s.endpoint s
        ((s.appended (dataHeader streamID last) payload).charged streamID st payload.length) := by
      refine .single ?_
      rw [charged, endpoint_setStream]
      exact Step.sendData (e := s.endpoint) ⟨src, endStream, ha⟩ rfl hst
        (ne_closed_of_canSend hsend) connection stream rfl rfl
    change Reaches a s.endpoint s (if last then _ else _)
    split
    · exact hcharge.trans (reaches_localEnd _ _)
    · exact hcharge

/-- Eviction adds no stream. -/
theorem lookup_evictClosed (ids : List ℕ) (streams : StreamTable)
    (h : (evictClosed max streams ids).1.lookup id = some st) : streams.lookup id = some st := by
  induction ids generalizing streams with
  | nil => exact h
  | cons oldest ids ih =>
    unfold evictClosed at h
    split at h
    · have h' := ih _ h
      split at h'
      · by_cases hid : id = oldest
        · subst hid
          simp at h'
        · rwa [AList.lookup_erase_ne hid] at h'
      · exact h'
    · exact h

/-- What `closeStream` leaves of the stream is closed. -/
theorem closed_of_closeStream (h : (s.closeStream id).stream? id = some st) :
    st.state = .closed := by
  unfold closeStream at h
  split at h
  · next hnone => exact absurd (hnone.symm.trans h) (by simp)
  · next st' hst =>
    split at h
    · next hc =>
      cases hst.symm.trans h
      exact hc
    · have hstreams : ((s.setStream id { st' with state := .closed }).releaseActive st').streams =
          (s.setStream id { st' with state := .closed }).streams := by
        unfold releaseActive
        split <;> rfl
      have h' := lookup_evictClosed _ _ h
      rw [hstreams] at h'
      simp only [setStream, AList.lookup_insert, Option.some.injEq] at h'
      rw [← h']

theorem reaches_resetStream (ha : a = .call (.resetStream streamID code))
    (hid : s.endpoint.IdSpace) :
    Reaches a e₀ s (s.resetStream streamID code).1 := by
  unfold resetStream
  split
  · exact .refl s
  next st hst =>
  split
  · exact .refl s
  have h : Reaches a e₀ s
      (s.appendFrame { type := .rstStream, streamID } (putUint32 code.toNat)).1 :=
    reaches_appendFrame (.inl (.inl rfl))
  generalize s.appendFrame { type := .rstStream, streamID } (putUint32 code.toNat) = w at h
  obtain ⟨s', _ | err⟩ := w
  · have hclose : Reaches a e₀ s (s'.closeStream streamID) :=
      h.trans (reaches_closeStream s' streamID)
    exact hclose.trans (reaches_note ⟨⟨code, ha⟩, hclose.history.subset (hid.opened _ st hst).1,
      fun st hst => closed_of_closeStream hst⟩)
  · exact h

/-! ## Connection -/

theorem reaches_adjustRecvWindows (ha : a = .call (.updateSettings settings)) (ids : List ℕ)
    (s : Session X) : Reaches a e₀ s (adjustRecvWindows
      (s.limits.initialWindowSize.toNat - e₀.localInitial) ids s) := by
  subst ha
  have hm : (Action.call (.updateSettings settings)).movesRecv := trivial
  induction ids generalizing s with
  | nil => exact .refl s
  | cons id ids ih =>
    unfold adjustRecvWindows
    split
    · exact ih s
    · next st hst => exact (reaches_setRecv hm hst).trans (ih _)

theorem setAllowedDynamicTableBytes_active {d d' : HeaderDecoder X} {size : UInt32}
    (h : d.setAllowedDynamicTableBytes size = .ok d') : d'.active = d.active := by
  unfold HeaderDecoder.setAllowedDynamicTableBytes at h
  split at h
  · cases h
  · cases h
    rfl

theorem reaches_applyUpdate (ha : a = .call (.updateSettings settings)) (s : Session X)
    (u : LocalUpdate) : Reaches a e₀ s (s.applyUpdate u) := by
  have hparser : a.movesParser := by rw [ha]; trivial
  have h : Reaches a e₀ s { s with
      limits := { s.limits with initialWindowSize := u.initialWindow } } :=
    .single (.localInitial ⟨settings, ha⟩)
  exact h.trans (.single (Step.parser hparser))

theorem reaches_updateSettings (ha : a = .call (.updateSettings settings)) :
    Reaches a s.endpoint s (s.updateSettings settings).1 := by
  unfold updateSettings
  split
  · exact .refl s
  split
  · exact .refl s
  split
  · exact .refl s
  simp only
  split
  · exact .refl s
  next u hu =>
  split
  · exact .refl s
  split
  · exact .refl s
  next decoder hdecoder =>
  have h1 : Reaches a s.endpoint s { s with decoder } := by
    refine .of_eq ?_
    simp only [endpoint, setAllowedDynamicTableBytes_active hdecoder]
    rfl
  have h2 : Reaches a s.endpoint s (appendSettings { s with decoder } settings false).1 :=
    h1.trans reaches_appendSettings
  generalize appendSettings { s with decoder } settings false = w at h2
  obtain ⟨t, _ | err⟩ := w
  · exact h2.trans ((reaches_applyUpdate ha t u).trans (reaches_adjustRecvWindows ha _ _))
  · exact h2

theorem reaches_goAway {debug : Bytes} (ha : a = .call (.goAway code debug)) (hs : Silent e₀ s) :
    Reaches a e₀ s (s.goAway code debug).1 := by
  unfold goAway
  split
  · exact .refl s
  simp only [List.append_assoc]
  generalize putUint32 code.toNat ++ debug.take (s.peerMaxFrame - 8) = rest
  obtain ⟨err, h⟩ | h := appendFrame_cases s { type := .goAway }
    (putUint32 s.lastProcessedPeerStream ++ rest)
  · rw [h]
    exact .refl s
  · rw [h]
    exact .single (Step.goAway (e := s.endpoint) rfl hs.processed hs.messages
      (.inr ⟨code, debug, ha⟩))

theorem reaches_close (ha : a = .call .close) : Reaches a e₀ s s.close := by
  unfold close
  split
  · exact .refl s
  · exact .single (.closeAll ha)

theorem reaches_finish (ha : a = .call .finish) (hs : Silent e₀ s) : Reaches a e₀ s s.finish.1 := by
  have hparser : a.movesParser := by rw [ha]; trivial
  unfold finish
  simp only
  split
  · exact .refl s
  split
  · exact .refl s
  split
  · exact reaches_connectionError hs
  generalize s.parser.finish = r
  obtain ⟨parser, code⟩ := r
  have h1 : Reaches a e₀ s { s with parser } := .single (.parser hparser)
  have hs1 : Silent e₀ { s with parser } := ⟨hs.1, hs.2⟩
  simp only
  split
  · exact h1.trans (reaches_connectionError hs1)
  · exact h1

theorem reaches_call {call : Call} (hid : s.endpoint.IdSpace) :
    Reaches (.call call) s.endpoint s (s.call call) := by
  have hs : Silent s.endpoint s := ⟨rfl, rfl⟩
  cases call with
  | finish => exact reaches_finish rfl hs
  | consumeOutput n =>
    simp only [call, consumeOutput]
    split <;> exact .of_eq rfl
  | nextEvent =>
    simp only [call, nextEvent]
    split <;> exact .of_eq rfl
  | openStream headers endStream => exact reaches_openStream rfl hid
  | pushPromise parentStreamID headers => exact reaches_pushPromise rfl hid
  | priorityUpdate streamID value =>
    simp only [call, priorityUpdate]
    split
    · exact .refl s
    · exact reaches_appendFrame (.inl (.inr (.inr (.inr rfl))))
  | sendHeaders streamID headers endStream => exact reaches_sendHeaders trivial
  | sendData streamID src endStream => exact reaches_sendData rfl
  | resetStream streamID code => exact reaches_resetStream rfl hid
  | updateSettings settings => exact reaches_updateSettings rfl
  | ping data => exact reaches_appendFrame (.inl (.inr (.inr (.inl rfl))))
  | goAway code debug => exact reaches_goAway rfl hs
  | close => exact reaches_close rfl

/-- **An action is a sequence of elementary changes.** -/
theorem reaches_act (a : Action) (hid : s.endpoint.IdSpace)
    (hv : ∀ x ∈ s.pendingSettings, validSetting x = true)
    (hcall : ∀ setting, a = .deliver (.setting setting) → validSetting setting = true) :
    Reaches a s.endpoint s (s.act a) := by
  cases a with
  | call call => exact reaches_call hid
  | preface => exact .single (.preface rfl)
  | deliver call => exact reaches_deliver hid hv fun setting h => hcall setting (by rw [h])
  | parsed parser => exact .single (.parser trivial)
  | fail code reason => exact reaches_connectionError ⟨rfl, rfl⟩

end WagoHttp.Http2.Session
