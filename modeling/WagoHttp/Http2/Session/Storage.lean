import WagoHttp.Http2.Session.Queues

/-!
# Streams that are refused for want of storage

The stream table holds closed streams beside those that are not, and a session admits a stream only
if the whole table is below its bound. A closed stream leaves the table when another one closes, so
a table of closed streams can refuse every new stream. `StorageCondition` says when it does not: the
retained streams leave room, or the streams that are not closed fill the table by themselves.
-/

namespace WagoHttp.Http2

open Table Runs

namespace Registry

variable {r : Registry}

/-- The streams of the table that are not closed. -/
def openCount (r : Registry) : ℕ := countIf (fun st => st.state != .closed) r.streams

/-- The streams that are not closed are those of the two sides. -/
theorem Balanced.openCount_eq (h : r.Balanced) : r.openCount = r.activeLocal + r.activePeer := by
  rw [openCount, countIf_eq_add fun st => st.isLocal, h.activeLocal, h.activePeer]
  congr 1
  · refine countIf_congr fun st => ?_
    cases hl : st.isLocal <;> simp [Stream.isActive, hl]
  · refine countIf_congr fun st => ?_
    cases hl : st.isLocal <;> simp [Stream.isActive, hl]

/-- The closed streams are those of the list. -/
theorem Balanced.countIf_closed (h : r.Balanced) :
    countIf (fun st => st.state == .closed) r.streams = r.closedStreams.length := by
  apply List.Perm.length_eq
  refine (List.perm_ext_iff_of_nodup (r.streams.keys_nodup.filter _) h.nodup).2 fun id => ?_
  rw [List.mem_filter, h.closed id]
  constructor
  · rintro ⟨-, hany⟩
    simpa [Option.any_eq_true] using hany
  · rintro ⟨st, hst, hs⟩
    exact ⟨mem_keys_of_lookup hst, by simp [hst, hs]⟩

/-- Every stream of the table is active or listed as closed. -/
theorem Balanced.length_keys (h : r.Balanced) :
    r.streams.keys.length = r.activeLocal + r.activePeer + r.closedStreams.length := by
  rw [length_keys_eq_add fun st => st.state != .closed, ← h.openCount_eq, ← h.countIf_closed]
  congr 1
  refine countIf_congr fun st => ?_
  cases hs : st.state <;> rfl

end Registry

namespace Session

variable {X : Externals} {s : Session X} {a : Action}

/-- A session refuses the new stream that an action asks for because there is no storage for it: a
call is answered with the stream limit, a received frame with REFUSED_STREAM. A session that has
been closed has no table. -/
def RefusesStorage (s : Session X) (a : Action) : Prop :=
  s.closed = false ∧ s.failed ≠ some .streamLimit ∧
    match a with
    | .call (.openStream headers endStream) =>
      (s.openStream headers endStream).2 = .error .streamLimit
    | .call (.pushPromise parentStreamID headers) =>
      (s.pushPromise parentStreamID headers).2 = .error .streamLimit
    | .deliver (.frameBegin header) =>
      s.failed = none ∧ s.peerInitialSettings = true ∧ header.type = .headers ∧
        (s.beginInboundHeaders header.streamID (header.flags.has .endStream)).2 =
          some (.protocol header.streamID .refusedStream "stream storage exhausted")
    | .deliver (.pushPromise streamID promisedStreamID) =>
      s.failed = none ∧ s.act (.deliver (.pushPromise streamID promisedStreamID)) =
        (s.note (.received (.pushPromise streamID promisedStreamID))).streamError
          promisedStreamID .refusedStream
    | _ => False

/-- Streams that are not closed fill the table. -/
def Full (s : Session X) : Prop :=
  0 < s.registry.openCount ∧ s.limits.maxStreams.toNat ≤ s.registry.openCount

/-- The retained streams leave room for another one, or the active ones fill the table. -/
def LeavesRoom (s : Session X) : Prop :=
  s.activeLocal + s.activePeer + s.closedStreams.length < s.limits.maxStreams.toNat ∨
    0 < s.activeLocal + s.activePeer ∧ s.limits.maxStreams.toNat ≤ s.activeLocal + s.activePeer

instance (s : Session X) : Decidable s.LeavesRoom := inferInstanceAs (Decidable (_ ∨ _))

/-- **When closed streams do not stand in the way.** A promise is refused also when the peer has too
many active streams, and the session gives the same reason. -/
def StorageCondition (s : Session X) : Action → Prop
  | .call (.openStream _ _) | .call (.pushPromise _ _) => s.LeavesRoom
  | .deliver (.frameBegin header) => header.type = .headers → s.LeavesRoom
  | .deliver (.pushPromise _ _) =>
    s.LeavesRoom ∧ (s.activePeer < s.limits.maxConcurrentStreams.toNat ∨
      0 < s.activeLocal + s.activePeer ∧ s.limits.maxStreams.toNat ≤ s.activeLocal + s.activePeer)
  | _ => True

instance (s : Session X) (a : Action) : Decidable (s.StorageCondition a) := by
  induction a using Action.casesOn with
  | deliver call =>
    induction call using Callback.casesOn <;> (dsimp only [StorageCondition]; infer_instance)
  | call call =>
    induction call using Call.casesOn <;> (dsimp only [StorageCondition]; infer_instance)
  | _ => exact .isTrue trivial

/-! ## Refusals -/

theorem ready_ne_streamLimit (hf : s.failed ≠ some .streamLimit) : s.ready ≠ some .streamLimit := by
  unfold ready
  split
  · simp
  · exact hf

theorem appendFrame_ne_streamLimit (hf : s.failed ≠ some .streamLimit) (header : FrameHeader)
    (payload : Bytes) : (s.appendFrame header payload).2 ≠ some .streamLimit ∧
      (s.appendFrame header payload).1.failed ≠ some .streamLimit := by
  unfold appendFrame appendFrameEvenFailed
  split
  · next err herr => exact ⟨fun h => ready_ne_streamLimit hf (herr.trans h), hf⟩
  · split
    · exact ⟨by simp, hf⟩
    · simp only
      split
      · exact ⟨by simp, hf⟩
      · exact ⟨by simp, hf⟩

theorem appendFrames_ne_streamLimit (frames : List (FrameHeader × Bytes)) (s : Session X)
    (hf : s.failed ≠ some .streamLimit) : (appendFrames frames s).2 ≠ some .streamLimit := by
  induction frames generalizing s with
  | nil => simp [appendFrames]
  | cons frame frames ih =>
    obtain ⟨hne, hf'⟩ := appendFrame_ne_streamLimit hf frame.1 frame.2
    unfold appendFrames
    generalize s.appendFrame frame.1 frame.2 = w at hne hf'
    obtain ⟨t, _ | err⟩ := w
    · exact ih t hf'
    · exact hne

theorem encodeAndAppendHeaders_ne_streamLimit (hf : s.failed ≠ some .streamLimit)
    (frameType : FrameType) (id promised : ℕ) (headers : List HeaderField) (endStream : Bool) :
    (s.encodeAndAppendHeaders frameType id promised headers endStream).2 ≠ some .streamLimit := by
  unfold encodeAndAppendHeaders
  split
  · simp
  · simp only
    split
    · simp
    · exact appendFrames_ne_streamLimit _ _ hf

theorem sendHeaders_ne_streamLimit (hf : s.failed ≠ some .streamLimit) (id : ℕ)
    (headers : List HeaderField)
    (endStream : Bool) : (s.sendHeaders id headers endStream).2 ≠ some .streamLimit := by
  have hcheck : s.checkSendHeaders id headers endStream ≠ .error .streamLimit := by
    have hready := ready_ne_streamLimit hf
    unfold checkSendHeaders
    generalize s.ready = r at hready
    obtain _ | err := r
    · simp only
      split
      · simp
      · split_ifs <;> simp
    · simpa using hready
  have hencode := encodeAndAppendHeaders_ne_streamLimit hf .headers id 0 headers endStream
  unfold sendHeaders
  generalize s.checkSendHeaders id headers endStream = c at hcheck
  obtain err | st := c
  · simpa using hcheck
  generalize s.encodeAndAppendHeaders .headers id 0 headers endStream = w at hencode
  obtain ⟨t, _ | err⟩ := w
  · simp only
    split_ifs <;> simp
  · exact hencode

variable {headers : List HeaderField}

/-- A refused call finds the table at its bound. -/
theorem streamCount_of_openStream {endStream : Bool}
    (h : s.RefusesStorage (.call (.openStream headers endStream))) :
    s.limits.maxStreams.toNat ≤ s.streamCount := by
  obtain ⟨-, hf, h⟩ := h
  by_contra hcount
  have hroom : ¬s.streamCount ≥ s.limits.maxStreams.toNat := hcount
  have hne := sendHeaders_ne_streamLimit (s := s.addLocal) hf s.nextLocalStream headers endStream
  simp only [openStream, hroom, if_false] at h
  generalize s.addLocal.sendHeaders s.nextLocalStream headers endStream = w at h hne
  obtain ⟨t, _ | err⟩ := w
  · split_ifs at h <;> cases h
  · split_ifs at h <;> cases h
    exact hne rfl

theorem streamCount_of_pushPromise {parent : ℕ}
    (h : s.RefusesStorage (.call (.pushPromise parent headers))) :
    s.limits.maxStreams.toNat ≤ s.streamCount := by
  obtain ⟨-, hf, h⟩ := h
  by_contra hcount
  have hroom : ¬s.streamCount ≥ s.limits.maxStreams.toNat := hcount
  have hne := encodeAndAppendHeaders_ne_streamLimit
    (s := { s with nextLocalStream := s.nextLocalStream + 2 }) hf .pushPromise parent
    s.nextLocalStream headers false
  simp only [pushPromise, hroom, if_false] at h
  generalize encodeAndAppendHeaders _ _ _ _ _ _ = w at h hne
  obtain ⟨t, _ | err⟩ := w
  · split_ifs at h <;> cases h
  · split_ifs at h <;> cases h
    exact hne rfl

theorem beginDecoderBlock_ne_protocol (s : Session X) {id : ℕ} {code : ErrorCode}
    {reason : String} : s.beginDecoderBlock.2 ≠ some (.protocol id code reason) := by
  unfold beginDecoderBlock
  split <;> simp

/-- A received request is refused only if the table is at its bound. -/
theorem streamCount_of_frameBegin {header : FrameHeader}
    (h : s.RefusesStorage (.deliver (.frameBegin header))) :
    s.limits.maxStreams.toNat ≤ s.streamCount := by
  obtain ⟨-, -, -, -, -, h⟩ := h
  by_contra hcount
  have hroom : ¬s.streamCount ≥ s.limits.maxStreams.toNat := hcount
  unfold beginInboundHeaders admitHeaders at h
  cases hst : s.stream? header.streamID with
  | none =>
    simp only [hst, hroom, if_false] at h
    split_ifs at h
    · simp at h
    · simp at h
    · simp [freshStream] at h
      exact beginDecoderBlock_ne_protocol _ h
  | some st =>
    simp only [hst] at h
    split_ifs at h
    · simp at h
    · simp at h
    · simp only at h
      split at h
      · simp at h
      · exact beginDecoderBlock_ne_protocol _ h

/-- With room for it, a promised stream is not refused: the promise begins a block, which a stream
error does not, or it fails the session. -/
theorem onPushPromise_ne_streamError {id promised : ℕ} {code : ErrorCode} (hf : s.failed = none)
    (hroom : s.HasRoom) : s.onPushPromise id promised ≠ s.streamError promised code := by
  intro h
  have hcalls := (kept_streamError s promised code).decoderCalls
  have hfailed := (failed_streamError s promised code).trans hf
  rw [← h] at hcalls hfailed
  obtain ⟨-, -, -, -, ⟨hfull, -⟩ | ⟨-, decoder, -, heq⟩⟩ := onPushPromise_ok hfailed
  · exact hfull hroom
  · have hsame : decoderCalls { s.reserveRemote id promised with decoder } = s.decoderCalls :=
      (decoderCalls_note _ _).trans (by simp [Obs.decoderCall]; rfl)
    rw [heq, decoderCalls_note, hsame] at hcalls
    simp [Obs.decoderCall] at hcalls

theorem full_of_pushPromise {id promised : ℕ}
    (h : s.RefusesStorage (.deliver (.pushPromise id promised))) :
    s.limits.maxConcurrentStreams.toNat ≤ s.activePeer ∨
      s.limits.maxStreams.toNat ≤ s.streamCount := by
  obtain ⟨-, -, hf, h⟩ := h
  by_contra hroom
  refine onPushPromise_ne_streamError (s := s.note _) hf ?_ h
  change s.HasRoom
  unfold HasRoom
  omega

/-- **Only streams that are not closed stand in the way**, in a balanced session that meets the
condition. -/
theorem full_of_refusesStorage (hb : s.registry.Balanced) (hok : s.StorageCondition a)
    (h : s.RefusesStorage a) : s.Full := by
  have hcount : s.streamCount = s.activeLocal + s.activePeer + s.closedStreams.length :=
    hb.length_keys
  have hopen : s.registry.openCount = s.activeLocal + s.activePeer := hb.openCount_eq
  have key : s.LeavesRoom → s.limits.maxStreams.toNat ≤ s.streamCount → s.Full := by
    intro hroom hle
    unfold LeavesRoom at hroom
    unfold Full
    omega
  unfold RefusesStorage at h
  split at h
  · exact key hok (streamCount_of_openStream h)
  · exact key hok (streamCount_of_pushPromise h)
  · exact key (hok h.2.2.2.2.1) (streamCount_of_frameBegin h)
  · rcases full_of_pushPromise h with hle | hle
    · unfold Full
      have := hok.2
      omega
    · exact key hok.1 hle
  · exact h.2.2.elim

/-! ## Runs -/

/-- **Closed streams do not exhaust the table** in a run whose actions all meet the condition: a
stream is refused for want of storage only if streams that are not closed fill the table. -/
theorem storage_refusals {role : Role} {limits : SessionLimits} {s₀ : Session X} {ops : List Op}
    (hnew : newSession X role limits = .ok s₀) (hok : Meets StorageCondition s₀ ops) :
    Meets (fun s a => s.RefusesStorage a → s.Full) s₀ ops :=
  run_meets (I := fun s => Bounded s.endpoint ∧ (s.closed = false → s.registry.Balanced)) hnew
    ⟨(steady_newSession hnew).bounded, fun _ => balanced_newSession hnew⟩
    (fun _ _ hw ha hb _ => ⟨bounded_act hw ha hb.1, balanced_act hw ha hb.1 hb.2⟩)
    (fun _ _ _ _ hb hok h => full_of_refusesStorage (hb.2 h.1) hok h) hok

/-- A request that is sent and reset, and another one. -/
def requestTwice : List Op :=
  [.call (.openStream SmallHpack.getRequest false), .call (.resetStream 1 .cancel),
    .call (.openStream SmallHpack.getRequest true)]

/-- A client with the default limits makes a request, resets it and makes another one. -/
theorem storage_refusals_client :
    ∃ s, newSession SmallHpack.externals .client {} = .ok s ∧
      (s.run requestTwice).streamCount = 2 ∧
        Meets (fun s a => s.RefusesStorage a → s.Full) s requestTwice := by
  obtain ⟨s, hnew, hcount, hok⟩ := exists_newSession (X := SmallHpack.externals)
    (r := .client) (l := {}) (p := fun s =>
      (s.run requestTwice).streamCount = 2 ∧ Meets StorageCondition s requestTwice)
    (by decide +kernel)
  exact ⟨s, hnew, hcount, storage_refusals hnew hok⟩

/-- With room for one stream, a stream that is closed refuses every other one: the only stream of
the table is closed, and the next request is refused for want of storage. -/
theorem closed_stream_refuses :
    ∃ s, newSession SmallHpack.externals .client { maxStreams := 1, maxConcurrentStreams := 1 } =
        .ok s ∧
      (s.run (requestTwice.take 2)).registry.openCount = 0 ∧
        (s.run (requestTwice.take 2)).streamCount = 1 ∧
          (s.run (requestTwice.take 2)).RefusesStorage
            (.call (.openStream SmallHpack.getRequest true)) := by
  obtain ⟨s, hnew, hopen, hcount, hclosed, hfailed, herr⟩ := exists_newSession
    (X := SmallHpack.externals) (r := .client)
    (l := { maxStreams := 1, maxConcurrentStreams := 1 }) (p := fun s =>
      (s.run (requestTwice.take 2)).registry.openCount = 0 ∧
        (s.run (requestTwice.take 2)).streamCount = 1 ∧
          (s.run (requestTwice.take 2)).closed = false ∧
            (s.run (requestTwice.take 2)).failed ≠ some .streamLimit ∧
              ((s.run (requestTwice.take 2)).openStream SmallHpack.getRequest true).2 =
                .error .streamLimit) (by decide +kernel)
  exact ⟨s, hnew, hopen, hcount, hclosed, hfailed, herr⟩

end Session

end WagoHttp.Http2
