import WagoHttp.Http2.Session.Run

/-!
# The header decoder and the wire

The decoder of a connection has state, so it has to be given every header block that is received,
whatever becomes of its stream. The calls to the decoder are the blocks on the wire in the runs in
which no block is refused (`BlockCondition`). A block that is refused for its stream's sake, for
want of room or in a wrong state, never reaches the decoder.
-/

namespace WagoHttp.Http2

open Runs SmallHpack

/-- The call to the header decoder, if the entry is one. -/
def Obs.decoderCall : Obs → Option DecoderCall
  | .decoder call => some call
  | _ => none

/-- What a received callback says about header blocks: a block begins with a HEADERS frame or with
the promised stream of a PUSH_PROMISE frame. -/
def Obs.wireCall : Obs → Option DecoderCall
  | .received (.frameBegin header) => if header.type = .headers then some .beginBlock else none
  | .received (.pushPromise _ _) => some .beginBlock
  | .received (.headerBlock _ fragment) => some (.write fragment)
  | .received (.headerBlockEnd _ _) => some .endBlock
  | _ => none

namespace Session

open Endpoint

variable {X : Externals} {a : Action} {s s' s'' : Session X}

/-- The calls to the header decoder. -/
def decoderCalls (s : Session X) : List DecoderCall := s.history.filterMap Obs.decoderCall

/-- The header blocks that have been received. -/
def wireCalls (s : Session X) : List DecoderCall := s.history.filterMap Obs.wireCall

/-- What leaves the decoder alone. -/
structure Kept (s s' : Session X) : Prop where
  decoderCalls : s'.decoderCalls = s.decoderCalls
  wireCalls : s'.wireCalls = s.wireCalls
  active : s'.decoder.active = s.decoder.active

theorem Kept.refl (s : Session X) : Kept s s := ⟨rfl, rfl, rfl⟩

theorem Kept.trans (h : Kept s s') (h' : Kept s' s'') : Kept s s'' :=
  ⟨h'.1.trans h.1, h'.2.trans h.2, h'.3.trans h.3⟩

variable {e₀ e : Endpoint X} {id : ℕ} {st : Stream} {endStream : Bool} {call : Callback}
  {header : FrameHeader}

/-- Entries that belong to no block. -/
theorem calls_of_noted {o : Obs} (ha : ¬a.readsBlock) (h : Noted a e₀ e o) :
    o.decoderCall = none ∧ o.wireCall = none := by
  cases o with
  | received call =>
    obtain ⟨rfl, -⟩ := h
    cases call with
    | frameBegin header => exact ⟨rfl, if_neg ha⟩
    | pushPromise => exact absurd trivial ha
    | headerBlock => exact absurd trivial ha
    | headerBlockEnd => exact absurd trivial ha
    | _ => exact ⟨rfl, rfl⟩
  | decoder => exact absurd h ha
  | _ => exact ⟨rfl, rfl⟩

/-- An action that belongs to no block leaves the decoder alone. -/
theorem kept_step {e' : Endpoint X} (ha : ¬a.readsBlock) (hs : Step a e₀ e e') :
    e'.history.filterMap Obs.decoderCall = e.history.filterMap Obs.decoderCall ∧
      e'.history.filterMap Obs.wireCall = e.history.filterMap Obs.wireCall ∧
      e'.decoding = e.decoding ∧ e'.blockStream = e.blockStream := by
  cases hs with
  | note ho =>
    obtain ⟨hd, hw⟩ := calls_of_noted ha ho
    simp [Endpoint.note, hd, hw]
  | decoding hb => exact absurd hb ha
  | blockStream hb => exact absurd hb ha
  | openPeer | openLocal | sendData | raise | raiseStream | overflow | fail | failAdjusted
  | failRaise | goAway =>
    simp [Endpoint.note, Endpoint.set, Obs.decoderCall, Obs.wireCall]
  | _ => exact ⟨rfl, rfl, rfl, rfl⟩

theorem kept_of_reaches (ha : ¬a.readsBlock) (h : Reaches a s.endpoint s s') :
    Kept s s' ∧ s'.currentHeaderStream = s.currentHeaderStream := by
  have key := h.invariant (I := fun e =>
    e.history.filterMap Obs.decoderCall = s.decoderCalls ∧
      e.history.filterMap Obs.wireCall = s.wireCalls ∧ e.decoding = s.decoder.active ∧
      e.blockStream = s.currentHeaderStream) (fun hs he => ?_) ⟨rfl, rfl, rfl, rfl⟩
  · exact ⟨⟨key.1, key.2.1, key.2.2.1⟩, key.2.2.2⟩
  · obtain ⟨h1, h2, h3, h4⟩ := kept_step ha hs
    exact ⟨h1.trans he.1, h2.trans he.2.1, h3.trans he.2.2.1, h4.trans he.2.2.2⟩

/-! ## The functions of a block -/

theorem kept_connectionError (s : Session X) (code : ErrorCode) (reason : String) :
    Kept s (s.connectionError code reason) :=
  (kept_of_reaches (a := .preface) (fun h => h) (reaches_connectionError ⟨rfl, rfl⟩)).1

theorem kept_streamError (s : Session X) (id : ℕ) (code : ErrorCode) :
    Kept s (s.streamError id code) :=
  (kept_of_reaches (a := .preface) (fun h => h) (reaches_streamError s id code)).1

theorem failed_offerEvent (s : Session X) (event : Event) :
    (s.offerEvent event).failed = s.failed := (queueEvent_frame s event).2.1

theorem failed_streamError (s : Session X) (id : ℕ) (code : ErrorCode) :
    (s.streamError id code).failed = s.failed := by
  unfold streamError
  rw [failed_offerEvent]
  have h := (closeStream_frame s id).2.1
  exact appendFrame_elim (P := fun t => t.failed = s.failed) h h

theorem kept_queueEvent (s : Session X) (event : Event) : Kept s (s.queueEvent event).1 := by
  unfold queueEvent
  simp only
  split
  · exact .refl s
  · exact ⟨by simp [decoderCalls, note, Obs.decoderCall], by simp [wireCalls, note, Obs.wireCall],
      rfl⟩

theorem kept_commitSection (hst : s.stream? id = some st) (hopen : .opened id ∈ s.history)
    (hf : s.failed = none) :
    Kept s (s.commitSection id st endStream) :=
  (kept_of_reaches (a := .deliver (.frameComplete { streamID := id })) (fun h => h)
    (reaches_commitSection (.inr (.inl ⟨_, rfl, rfl⟩)) hst hopen hf)).1

theorem kept_finishSection (hid : s.endpoint.IdSpace) (hf : s.failed = none) :
    Kept s (s.finishSection endStream) := by
  unfold finishSection
  split
  · exact .refl s
  next st hst =>
  split
  · exact kept_streamError s _ _
  have hq := kept_queueEvent s (s.sectionEvent endStream)
  obtain ⟨hstreams, hf', hcur, hhist, -⟩ := queueEvent_frame s (s.sectionEvent endStream)
  generalize s.queueEvent (s.sectionEvent endStream) = q at hq hstreams hf' hcur hhist
  obtain ⟨t, _ | err⟩ := q
  · have hst' : t.stream? t.currentHeaderEventStream = some st := by
      rw [stream?, hstreams, hcur]
      exact hst
    have hc : Kept t (t.commitSection t.currentHeaderEventStream st endStream) :=
      kept_commitSection hst' (hcur ▸ hhist _ (hid.opened _ st hst).1) (hf'.trans hf)
    exact hq.trans (hc.trans ⟨rfl, rfl, rfl⟩)
  · exact hq.trans (kept_connectionError t _ _)

/-! ## Synchronisation -/

/-- Where the decoder stands: inside the block that is being received, or between blocks. -/
def InBlock (s : Session X) : Option ℕ → Prop
  | none => s.decoder.active = false
  | some id => s.decoder.active = true ∧ s.currentHeaderStream = id

/-- Unless the session has failed, the decoder has been given what was received. -/
def BlockSync (s : Session X) : Prop :=
  s.failed = none → s.decoderCalls = s.wireCalls ∧ s.InBlock s.phase.block

/-- No block is refused: a HEADERS frame comes on a stream that takes it or that there is room for,
and there is room for a promised stream. -/
def BlockCondition (s : Session X) : Action → Prop
  | .deliver (.frameBegin header) =>
    header.type = .headers →
      match s.stream? header.streamID with
      | none => s.peerMayOpen header.streamID = true →
        s.activePeer < s.limits.maxConcurrentStreams.toNat ∧
          s.streamCount < s.limits.maxStreams.toNat
      | some st => st.state ≠ .closed →
        canReceive st.state = true ∧ st.receivedTrailers = false ∧
          (st.receivedHeaders = true → header.flags.has .endStream = true)
  | .deliver (.pushPromise _ _) =>
    s.activePeer < s.limits.maxConcurrentStreams.toNat ∧
      s.streamCount < s.limits.maxStreams.toNat
  | _ => True

instance (s : Session X) (a : Action) : Decidable (s.BlockCondition a) := by
  induction a using Action.casesOn with
  | deliver call =>
    induction call using Callback.casesOn with
    | frameBegin header =>
      dsimp only [BlockCondition]
      generalize s.stream? header.streamID = o
      induction o using Option.casesOn <;> (dsimp only; infer_instance)
    | _ => dsimp only [BlockCondition]; infer_instance
  | _ => exact .isTrue trivial

theorem block_next {ph : Phase} (h : ¬(Action.deliver call).readsBlock) :
    (ph.next call).block = ph.block := by
  cases call with
  | frameBegin header => exact if_neg h
  | pushPromise => exact absurd trivial h
  | headerBlock => exact absurd trivial h
  | headerBlockEnd => exact absurd trivial h
  | _ => rfl

/-- An action that belongs to no block. -/
theorem blockSync_of_not_reads (hw : s.WellFormed) (ha : s.Allows a) (hr : ¬a.readsBlock)
    (hs : s.BlockSync) : (s.act a).BlockSync := by
  intro hf
  obtain ⟨hcalls, hblock⟩ := hs (failed_of_act hw ha hf)
  obtain ⟨hkept, hstream⟩ := kept_of_reaches hr (hw.reaches ha)
  have hphase : (s.act a).phase.block = s.phase.block := by
    by_cases hd : ∃ call, a = .deliver call
    · obtain ⟨call, rfl⟩ := hd
      rw [show s.act (.deliver call) = s.deliver call from rfl, phase_deliver hw ha]
      exact block_next hr
    · rw [phase_act hw ha fun call hc => hd ⟨call, hc⟩]
  refine ⟨hkept.decoderCalls.trans (hcalls.trans hkept.wireCalls.symm), ?_⟩
  rw [hphase]
  unfold InBlock at hblock ⊢
  split at hblock
  · exact hkept.active.trans hblock
  · exact ⟨hkept.active.trans hblock.1, hstream.trans hblock.2⟩

/-! ## The callbacks of a block -/

theorem decoderCalls_note (s : Session X) (o : Obs) :
    (s.note o).decoderCalls = s.decoderCalls ++ o.decoderCall.toList := by
  cases h : o.decoderCall <;> simp [decoderCalls, note, h]

theorem wireCalls_note (s : Session X) (o : Obs) :
    (s.note o).wireCalls = s.wireCalls ++ o.wireCall.toList := by
  cases h : o.wireCall <;> simp [wireCalls, note, h]

/-- A function gives the decoder one call and leaves it as `block` says. -/
structure Gives (s s' : Session X) (call : DecoderCall) (block : Option ℕ) : Prop where
  decoderCalls : s'.decoderCalls = s.decoderCalls ++ [call]
  wireCalls : s'.wireCalls = s.wireCalls
  block : s'.InBlock block

/-- The callbacks of a block: it suffices that the function of the callback gives the decoder the
call that the callback stands for. -/
theorem blockSync_deliver {c : DecoderCall} (hw : s.WellFormed) (ha : s.Allows (.deliver call))
    (hs : s.BlockSync) (hwire : (Obs.received call).wireCall = some c)
    (hgives : s.failed = none → s.InBlock s.phase.block → (s.deliver call).failed = none →
      Gives (s.note (.received call)) (s.deliver call) c (s.phase.next call).block) :
    (s.deliver call).BlockSync := by
  intro hf
  have hf₀ := failed_of_act hw ha hf
  obtain ⟨hcalls, hblock⟩ := hs hf₀
  have h := hgives hf₀ hblock hf
  rw [phase_deliver hw ha]
  refine ⟨?_, h.block⟩
  rw [h.decoderCalls, h.wireCalls, decoderCalls_note, wireCalls_note, hcalls, hwire]
  simp [Obs.decoderCall]

/-- A fragment is written while a block is open. -/
theorem gives_onHeaderBlock {fragment : Bytes} (h : s.InBlock (some id))
    (hf : (s.onHeaderBlock id fragment).failed = none) :
    Gives s (s.onHeaderBlock id fragment) (.write fragment) (some id) := by
  have hspec : Gives s (s.writeDecoder fragment).1 (.write fragment) (some id) := by
    have hactive := s.decoder.write_active fragment
    unfold writeDecoder
    rw [if_pos h.1]
    generalize s.decoder.write fragment = r at hactive
    exact ⟨decoderCalls_note s _, (wireCalls_note s _).trans (by simp [Obs.wireCall]),
      hactive.trans h.1, h.2⟩
  unfold onHeaderBlock at hf ⊢
  split at hf
  · next hor => exact absurd hf (hor.resolve_right fun hne => hne h.2.symm)
  next hor =>
  rw [if_neg hor]
  generalize s.writeDecoder fragment = w at hf hspec
  obtain ⟨t, _ | err⟩ := w
  · exact hspec
  · exact absurd hf (failed_connectionError _ _ _)

/-- The block ends. -/
theorem gives_onHeaderBlockEnd (hid : s.endpoint.IdSpace) (h : s.InBlock (some id))
    (hf : (s.onHeaderBlockEnd id endStream).failed = none) :
    Gives s (s.onHeaderBlockEnd id endStream) .endBlock none := by
  have hspec : Gives s s.endDecoderBlock.1 .endBlock none := by
    have hactive : s.decoder.endBlock.1.active = false := by
      unfold HeaderDecoder.endBlock
      rw [if_neg (by simp [h.1])]
    unfold endDecoderBlock
    rw [if_pos h.1]
    generalize s.decoder.endBlock = r at hactive
    exact ⟨decoderCalls_note s _, (wireCalls_note s _).trans (by simp [Obs.wireCall]), hactive⟩
  have hreach : Reaches (.deliver (.headerBlockEnd 0 true)) s.endpoint s s.endDecoderBlock.1 :=
    reaches_endDecoderBlock trivial
  have hid' : s.endDecoderBlock.1.endpoint.IdSpace := hreach.invariant IdSpace.step hid
  obtain ⟨-, hf', -⟩ := endDecoderBlock_frame s
  unfold onHeaderBlockEnd at hf ⊢
  split at hf
  · next hor => exact absurd hf (hor.resolve_right fun hne => hne h.2.symm)
  next hor =>
  rw [if_neg hor]
  generalize s.endDecoderBlock = w at hf hspec hid' hf'
  obtain ⟨t, _ | err⟩ := w
  · have hkept : Kept t (t.finishSection endStream) :=
      kept_finishSection hid' (hf'.trans (not_not.1 (not_or.1 hor).1))
    exact ⟨hkept.decoderCalls.trans hspec.decoderCalls, hkept.wireCalls.trans hspec.wireCalls,
      hkept.active.trans hspec.block⟩
  · exact absurd hf (failed_connectionError _ _ _)

/-- A block begins. -/
theorem gives_beginDecoderBlock (h : s.InBlock none) (hid : s.currentHeaderStream = id) :
    s.beginDecoderBlock.2 = none ∧ Gives s s.beginDecoderBlock.1 .beginBlock (some id) := by
  unfold beginDecoderBlock HeaderDecoder.beginBlock
  rw [if_neg (by simp [show s.decoder.active = false from h])]
  exact ⟨rfl, decoderCalls_note s _, (wireCalls_note s _).trans (by simp [Obs.wireCall]), rfl, hid⟩

/-- A promised stream begins a block, when there is room for it. -/
theorem gives_onPushPromise {promised : ℕ} (hroom : s.HasRoom)
    (hf : (s.onPushPromise id promised).failed = none) :
    Gives s (s.onPushPromise id promised) .beginBlock (some id) := by
  have hkept : Kept s (s.reserveRemote id promised) :=
    ⟨(decoderCalls_note _ _).trans (by simp [Obs.decoderCall]; rfl),
      (wireCalls_note _ _).trans (by simp [Obs.wireCall]; rfl), rfl⟩
  obtain ⟨-, -, -, -, ⟨hfull, -⟩ | ⟨-, decoder, hactive, heq⟩⟩ := onPushPromise_ok hf
  · exact absurd hroom hfull
  · rw [heq]
    exact ⟨(decoderCalls_note _ _).trans (congrArg (· ++ _) hkept.decoderCalls),
      (wireCalls_note _ _).trans (hkept.wireCalls ▸ List.append_nil _), hactive, rfl⟩

/-- Under the condition a HEADERS frame is refused only with a connection error. -/
theorem admitHeaders_error {err : SessionError} (hid : header.streamID = id)
    (ht : header.type = .headers) (hok : s.BlockCondition (.deliver (.frameBegin header)))
    (h : s.admitHeaders id = .error err) : ∃ code reason, err = .protocol 0 code reason := by
  subst hid
  have hok := hok ht
  unfold admitHeaders at h
  split at h
  · next hst =>
    rw [hst] at hok
    split_ifs at h with h1 h2 h3
    · cases h
      exact ⟨_, _, rfl⟩
    · have := (hok (by simpa using h1)).1
      omega
    · have := (hok (by simpa using h1)).2
      omega
  · next st hst =>
    rw [hst] at hok
    split_ifs at h with h1 h2
    · cases h
      exact ⟨_, _, rfl⟩
    · obtain ⟨hcan, htrail, -⟩ := hok h1
      simp [hcan, htrail] at h2

/-- Under the condition the stream of a HEADERS frame can begin a section. -/
theorem admitHeaders_ok (hid : header.streamID = id) (ht : header.type = .headers)
    (hok : s.BlockCondition (.deliver (.frameBegin header)))
    (h : s.admitHeaders id = .ok (s', st)) :
    Kept s s' ∧ ¬(st.receivedHeaders && !header.flags.has .endStream) = true := by
  subst hid
  have hok := hok ht
  unfold admitHeaders at h
  split at h
  · split_ifs at h
    cases h
    refine ⟨⟨(decoderCalls_note _ _).trans ?_, (wireCalls_note _ _).trans ?_, rfl⟩, ?_⟩
    · simp [Obs.decoderCall]
      rfl
    · simp [Obs.wireCall]
      rfl
    · simp [freshStream]
  · next st' hst =>
    rw [hst] at hok
    split_ifs at h with h1 h2
    cases h
    obtain ⟨-, -, hend⟩ := hok h1
    refine ⟨.refl s, fun hc => ?_⟩
    simp only [Bool.and_eq_true, Bool.not_eq_true'] at hc
    exact absurd (hend hc.1) (by simp [hc.2])

theorem kept_startSection (s : Session X) (id : ℕ) (st : Stream) (endStream : Bool) :
    Kept s (s.startSection id st endStream) := by
  unfold startSection
  simp only
  split_ifs <;> exact ⟨rfl, rfl, rfl⟩

/-- A section that starts begins a block. -/
theorem gives_beginInboundHeaders {err : Option SessionError} (ht : header.type = .headers)
    (h : s.InBlock none) (hok : s.BlockCondition (.deliver (.frameBegin header)))
    (hb : s.beginInboundHeaders header.streamID (header.flags.has .endStream) = (s', err))
    (hf : (err.elim s' s'.handleProtocolError).failed = none) :
    err = none ∧ Gives s s' .beginBlock (some header.streamID) := by
  unfold beginInboundHeaders at hb
  split at hb
  · next err' herr =>
    obtain ⟨code, reason, rfl⟩ := admitHeaders_error rfl ht hok herr
    cases hb
    exact absurd hf (failed_connectionError _ _ _)
  · next t st hadmit =>
    obtain ⟨hkept, htrailer⟩ := admitHeaders_ok rfl ht hok hadmit
    rw [if_neg htrailer] at hb
    have hkept := hkept.trans
      (kept_startSection t header.streamID st (header.flags.has .endStream))
    obtain ⟨herr, hgives⟩ := gives_beginDecoderBlock
      (s := t.startSection header.streamID st (header.flags.has .endStream))
      (hkept.active.trans h) rfl
    rw [hb] at herr hgives
    exact ⟨herr, hgives.decoderCalls.trans (congrArg (· ++ _) hkept.decoderCalls),
      hgives.wireCalls.trans hkept.wireCalls, hgives.block⟩

/-- A HEADERS frame begins a block. -/
theorem gives_onFrameBegin (ht : header.type = .headers) (h : s.InBlock none)
    (hok : s.BlockCondition (.deliver (.frameBegin header)))
    (hf : (s.onFrameBegin header).failed = none) :
    Gives s (s.onFrameBegin header) .beginBlock (some header.streamID) := by
  obtain ⟨t, err, hb, heq⟩ := (onFrameBegin_ok hf).2.1 ht
  rw [heq] at hf ⊢
  obtain ⟨rfl, hgives⟩ :=
    gives_beginInboundHeaders (s := { s with currentFrame := header }) ht h hok hb hf
  exact ⟨hgives.decoderCalls, hgives.wireCalls, hgives.block⟩

/-! ## Runs -/

/-- The callbacks that begin a block come between blocks. -/
theorem block_eq_none (ha : s.Allows (.deliver (.frameBegin header))) (ht : header.type = .headers)
    : s.phase.block = none := by
  obtain ⟨-, -, -, hmay⟩ := ha
  unfold Phase.MayBegin at hmay
  split at hmay
  · assumption
  · rw [ht] at hmay
    exact absurd hmay.1 (by decide)

/-- Every action that meets the condition keeps the decoder synchronised. -/
theorem blockSync_act (hw : s.WellFormed) (ha : s.Allows a) (hs : s.BlockSync)
    (hok : s.BlockCondition a) : (s.act a).BlockSync := by
  by_cases hr : a.readsBlock
  · cases a with
    | deliver call =>
      cases call with
      | frameBegin header =>
        refine blockSync_deliver hw ha hs (if_pos hr) fun hf hblock hf' => ?_
        rw [block_eq_none ha hr] at hblock
        rw [show (s.phase.next (.frameBegin header)).block = some header.streamID from if_pos hr]
        exact gives_onFrameBegin hr hblock hok hf'
      | pushPromise id promised =>
        have hnone : s.phase.block = none := by
          obtain ⟨_, _, _, _, _, _, h⟩ := ha
          exact h
        refine blockSync_deliver hw ha hs rfl fun hf hblock hf' => ?_
        rw [hnone] at hblock
        exact gives_onPushPromise hok hf'
      | headerBlock id fragment =>
        have hsome : s.phase.block = some id := by
          obtain ⟨_, _, _, _, h⟩ := ha
          exact h
        refine blockSync_deliver hw ha hs rfl fun hf hblock hf' => ?_
        rw [hsome] at hblock
        rw [show (s.phase.next (.headerBlock id fragment)).block = some id from hsome]
        exact gives_onHeaderBlock hblock hf'
      | headerBlockEnd id endStream =>
        have hsome : s.phase.block = some id := by
          obtain ⟨_, _, _, _, h⟩ := ha
          exact h
        refine blockSync_deliver hw ha hs rfl fun hf hblock hf' => ?_
        rw [hsome] at hblock
        exact gives_onHeaderBlockEnd (hw.ids.note (by simp)) hblock hf'
      | _ => exact absurd hr (fun h => h)
    | _ => exact absurd hr (fun h => h)
  · exact blockSync_of_not_reads hw ha hr hs

theorem blockSync_newSession {role : Role} {limits : SessionLimits}
    (hnew : newSession X role limits = .ok s) : s.BlockSync := by
  obtain ⟨output, header, payload, -, rfl⟩ := newSession_ok hnew
  exact fun _ => ⟨rfl, rfl⟩

/-- **Inbound HPACK synchronisation.** In every run in which no received block is refused, and
unless the session has failed, the header decoder has been given the fragments of every block that
was received, block by block and in the order of the wire. -/
theorem decoderCalls_eq_wireCalls {role : Role} {limits : SessionLimits} {s₀ : Session X}
    {ops : List Op} (hnew : newSession X role limits = .ok s₀)
    (hok : Meets BlockCondition s₀ ops) (hf : (s₀.run ops).failed = none) :
    (s₀.run ops).decoderCalls = (s₀.run ops).wireCalls :=
  (run_invariant hnew (blockSync_newSession hnew)
    (fun _ _ hw ha hs hok => blockSync_act hw ha hs hok) hok hf).1

/-- A server receives two requests, the second of which refers to the table of the first. -/
theorem decoderCalls_eq_wireCalls_server :
    ∃ s₀, newSession externals .server {} = .ok s₀ ∧
      let s := s₀.run [.feed (clientStart ++ postFrame 1 ++
        getFrame 3)]
      s.failed = none ∧ s.wireCalls.length = 6 ∧ s.decoderCalls = s.wireCalls := by
  obtain ⟨s₀, hnew, hok, hf, hlen⟩ := exists_newSession (X := externals)
    (r := .server) (l := {}) (p := fun s₀ =>
      let ops := [.feed (clientStart ++ postFrame 1 ++
        getFrame 3)]
      Meets BlockCondition s₀ ops ∧ (s₀.run ops).failed = none ∧
        (s₀.run ops).wireCalls.length = 6) (by decide +kernel)
  exact ⟨s₀, hnew, hf, hlen, decoderCalls_eq_wireCalls hnew hok hf⟩

/-- A server that allows one concurrent stream refuses the second: the session goes on, and the
block of the refused stream never reaches the decoder. -/
theorem decoderCalls_refused_stream :
    ∃ s₀, newSession externals .server { maxConcurrentStreams := 1 } = .ok s₀ ∧
      let s := s₀.run [.feed (clientStart ++ postFrame 1 ++
        getFrame 3)]
      s.failed = none ∧ s.decoderCalls ≠ s.wireCalls :=
  exists_newSession (X := externals) (r := .server)
    (l := { maxConcurrentStreams := 1 }) (p := fun s₀ =>
      let s := s₀.run [.feed (clientStart ++ postFrame 1 ++
        getFrame 3)]
      s.failed = none ∧ s.decoderCalls ≠ s.wireCalls) (by decide +kernel)

end Session

end WagoHttp.Http2
