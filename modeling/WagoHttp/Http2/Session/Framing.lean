import WagoHttp.Http2.Session.GoAway
import WagoHttp.Http2.Session.Queues

/-!
# Where a received block stands

The session keeps the stream of the header block that it is decoding, and the parser delivers the
parts of a block one after the other. `Framed` says that the two agree: while the decoder is inside
a block, the callbacks are inside the block of the same stream. `Begun` and `Promised` describe the
session after a block has begun.
-/

namespace WagoHttp.Http2.Session

open Endpoint List

variable {X : Externals} {s s' : Session X} {a : Action} {id : ℕ}

/-- The section of a HEADERS frame has begun on a stream that takes it. -/
structure Begun (s s' : Session X) (id : ℕ) : Prop where
  block : s'.currentHeaderStream = id
  event : s'.currentHeaderEventStream = id
  push : s'.currentHeaderPush = false
  stream : ∃ st state, s'.stream? id = some { st with state } ∧
    s'.currentHeaderTrailer = st.receivedHeaders ∧
    (s.stream? id = some st ∧ canReceive st.state = true ∨
      .opened id ∉ s.history ∧ st = s.freshStream .open false)

/-- The section of a PUSH_PROMISE frame has begun, and its stream is reserved. -/
structure Promised (s s' : Session X) (id promised : ℕ) : Prop where
  block : s'.currentHeaderStream = id
  event : s'.currentHeaderEventStream = promised
  push : s'.currentHeaderPush = true
  new : .opened promised ∉ s.history
  stream : s'.stream? promised = some (s.freshStream .reservedRemote false)

theorem Begun.of_note {o : Obs} (h : Begun (s.note o) s' id) : Begun s s' id := by
  obtain ⟨st, state, hst, htrailer, hs⟩ := h.stream
  exact ⟨h.block, h.event, h.push, st, state, hst, htrailer,
    hs.imp_right fun hn => ⟨fun ho => hn.1 (mem_append_left _ ho), hn.2⟩⟩

variable {promised : ℕ} {endStream : Bool} {err : Option SessionError} {header : FrameHeader}

theorem Promised.of_note {o : Obs} (h : Promised (s.note o) s' id promised) :
    Promised s s' id promised :=
  ⟨h.block, h.event, h.push, fun ho => h.new (mem_append_left _ ho), h.stream⟩

/-- A section begins on a stream of the table, which may be new. -/
theorem begun_startSection {t u : Session X} {st : Stream} (hst : t.stream? id = some st)
    (hs : s.stream? id = some st ∧ canReceive st.state = true ∨
      .opened id ∉ s.history ∧ st = s.freshStream .open false)
    (hb : (t.startSection id st endStream).beginDecoderBlock = (u, err)) :
    (err = none → Begun s u id) ∧ ∀ e, err = some e → (u.handleProtocolError e).failed ≠ none := by
  have hstream : (t.startSection id st endStream).stream? id = some { st with
      state := if st.state = .reservedRemote then .halfClosedLocal else st.state } := by
    unfold startSection
    simp only
    split
    · exact AList.lookup_insert _
    · exact hst
  obtain ⟨e, he⟩ | ⟨decoder, -, hd⟩ := beginDecoderBlock_cases (t.startSection id st endStream)
  · rw [he] at hb
    cases hb
    refine ⟨nofun, ?_⟩
    rintro _ ⟨⟩
    exact failed_connectionError _ _ _
  · rw [hd] at hb
    cases hb
    exact ⟨fun _ => ⟨rfl, rfl, rfl, st, _, hstream, rfl, hs⟩, nofun⟩

theorem begun_beginInboundHeaders {t : Session X} (hids : s.endpoint.IdSpace)
    (hb : s.beginInboundHeaders id endStream = (t, err)) :
    (err = none → Begun s t id) ∧ ∀ e, err = some e →
      (t.handleProtocolError e).failed = none → t.decoder.active = s.decoder.active := by
  have hbegins := begins_beginInboundHeaders s id endStream
  rw [hb] at hbegins
  generalize hr : ((t, err) : Session X × Option SessionError) = r at hbegins
  cases hbegins with
  | fails code reason =>
    cases hr
    refine ⟨nofun, ?_⟩
    rintro e ⟨⟩ hf
    exact absurd hf (failed_connectionError _ _ _)
  | refused =>
    cases hr
    exact ⟨nofun, fun _ _ _ => rfl⟩
  | rejected =>
    cases hr
    exact ⟨nofun, fun _ _ _ => rfl⟩
  | known hst hcan =>
    obtain ⟨hbegun, hfails⟩ := begun_startSection hst (.inl ⟨hst, hcan⟩) hr.symm
    exact ⟨hbegun, fun e he hf => absurd hf (hfails e he)⟩
  | opens hst hopen =>
    obtain ⟨hlt, hrole⟩ := peerMayOpen_spec hopen
    have hnew := not_opened_of_lastPeer_lt hids hlt hrole
    obtain ⟨hbegun, hfails⟩ := begun_startSection (t := s.openPeer id) (AList.lookup_insert _)
      (.inr ⟨hnew, rfl⟩) hr.symm
    exact ⟨hbegun, fun e he hf => absurd hf (hfails e he)⟩

theorem active_handleProtocolError (s : Session X) (err : SessionError) :
    (s.handleProtocolError err).decoder.active = s.decoder.active := by
  unfold handleProtocolError
  split
  · split
    · exact (kept_connectionError s _ _).active
    · exact (kept_streamError s _ _).active
  · exact (kept_connectionError s _ _).active

/-- A HEADERS frame begins a section, or leaves the decoder where it is. -/
theorem begun_onFrameBegin (hids : s.endpoint.IdSpace) (ht : header.type = .headers)
    (hf : (s.onFrameBegin header).failed = none) :
    Begun s (s.onFrameBegin header) header.streamID ∨
      (s.onFrameBegin header).decoder.active = s.decoder.active := by
  obtain ⟨t, err, hb, heq⟩ := (onFrameBegin_ok hf).2.1 ht
  have hbegin := begun_beginInboundHeaders (s := { s with currentFrame := header }) hids hb
  rw [heq] at hf ⊢
  cases err with
  | none =>
    obtain ⟨hblock, hevent, hpush, hstream⟩ := hbegin.1 rfl
    exact .inl ⟨hblock, hevent, hpush, hstream⟩
  | some err => exact .inr ((active_handleProtocolError t err).trans (hbegin.2 err rfl hf))

/-- A PUSH_PROMISE frame begins a section, or leaves the decoder where it is. -/
theorem promised_onPushPromise (hids : s.endpoint.IdSpace)
    (hf : (s.onPushPromise id promised).failed = none) :
    Promised s (s.onPushPromise id promised) id promised ∨
      (s.onPushPromise id promised).decoder.active = s.decoder.active := by
  obtain ⟨-, hrole, heven, hlt, ⟨-, heq⟩ | ⟨-, decoder, -, heq⟩⟩ := onPushPromise_ok hf
  · rw [heq]
    exact .inr (kept_streamError s _ _).active
  · rw [heq]
    refine .inl ⟨rfl, rfl, rfl, not_opened_of_lastPeer_lt hids hlt ?_, AList.lookup_insert _⟩
    simp [hrole, Role.initiates, heven]

/-! ## The block that is being decoded is the one that is being delivered -/

/-- The decoder and the callbacks are inside the same block. -/
structure Framed (s : Session X) : Prop where
  frame : ∀ header, s.phase.frame = some header → s.phase.block ≠ none → header.carriesBlock
  block : s.failed = none → s.decoder.active = true → s.phase.block = some s.currentHeaderStream

theorem Framed.inactive (h : s.Framed) (hf : s.failed = none) (hb : s.phase.block = none) :
    s.decoder.active = false := by
  rw [Bool.eq_false_iff]
  intro ha
  rw [h.block hf ha] at hb
  cases hb

/-- A frame that carries no part of a block comes outside of blocks. -/
theorem Framed.block_none (h : s.Framed) (hframe : s.phase.frame = some header)
    (ht : ¬header.carriesBlock) : s.phase.block = none :=
  by_contra fun hne => ht (h.frame header hframe hne)

theorem carriesBlock_of_frameBegin {ph : Phase} (ha : ph.Allows (.frameBegin header))
    (hne : (ph.next (.frameBegin header)).block ≠ none) :
    header.carriesBlock := by
  by_cases ht : header.type = .headers
  · exact .inl ht
  obtain ⟨-, -, -, hmay⟩ := ha
  rw [show (ph.next (.frameBegin header)).block = ph.block from if_neg ht] at hne
  unfold Phase.MayBegin at hmay
  split at hmay
  · next hnone => exact absurd hnone hne
  · exact .inr (.inr hmay.1)

theorem frame_framed_act (hw : s.WellFormed) (ha : s.Allows a) (h : s.Framed)
    (hframe : (s.act a).phase.frame = some header) (hne : (s.act a).phase.block ≠ none) :
    header.carriesBlock := by
  by_cases hd : ∃ call, a = .deliver call
  · obtain ⟨call, rfl⟩ := hd
    change (s.deliver call).phase.frame = some header at hframe
    change (s.deliver call).phase.block ≠ none at hne
    rw [phase_deliver hw ha] at hframe hne
    rcases frame_next hframe with hold | rfl
    · by_cases hb : s.phase.block = none
      · -- Only a PUSH_PROMISE frame begins a block after its beginning.
        cases call with
        | pushPromise id promised =>
          obtain ⟨header', hframe', ht, -⟩ := ha
          cases hold.symm.trans hframe'
          exact .inr (.inl ht)
        | frameBegin header' => exact nomatch ha.1.symm.trans hold
        | headerBlockEnd => exact absurd rfl hne
        | _ => exact absurd hb hne
      · exact h.frame header hold hb
    · exact carriesBlock_of_frameBegin ha hne
  · have hp := phase_act hw ha fun call hc => hd ⟨call, hc⟩
    rw [hp] at hframe hne
    exact h.frame header hframe hne

/-- After the end of a block the decoder is outside of blocks. -/
theorem inactive_onHeaderBlockEnd (hids : s.endpoint.IdSpace)
    (hcur : s.decoder.active = true → s.currentHeaderStream = id)
    (hf : (s.onHeaderBlockEnd id endStream).failed = none) :
    (s.onHeaderBlockEnd id endStream).decoder.active = false := by
  cases hactive : s.decoder.active with
  | true => exact (gives_onHeaderBlockEnd hids ⟨hactive, hcur hactive⟩ hf).block
  | false =>
    unfold onHeaderBlockEnd at hf ⊢
    split at hf
    · next hor =>
      rw [if_pos hor]
      exact hactive
    generalize hw : s.endDecoderBlock = w at hf
    obtain ⟨t, _ | err⟩ := w
    · exact absurd (hactive.symm.trans (endDecoderBlock_ok hw).1) (by decide)
    · exact absurd hf (failed_connectionError _ _ _)

theorem framed_act (hw : s.WellFormed) (ha : s.Allows a) (h : s.Framed) : (s.act a).Framed := by
  refine ⟨fun header hframe hne => frame_framed_act hw ha h hframe hne, fun hf hactive => ?_⟩
  have hf₀ := failed_of_act hw ha hf
  by_cases hr : a.readsBlock
  · cases a with
    | deliver call =>
      change (s.deliver call).failed = none at hf
      change (s.deliver call).decoder.active = true at hactive
      change (s.deliver call).phase.block = some (s.deliver call).currentHeaderStream
      rw [phase_deliver hw ha]
      have hids : (s.note (.received call)).endpoint.IdSpace := hw.ids.note (by simp)
      cases call with
      | frameBegin header =>
        have hinactive := h.inactive hf₀ (block_eq_none ha hr)
        rcases begun_onFrameBegin hids hr hf with hb | hb
        · exact (if_pos hr).trans (congrArg some hb.block.symm)
        · exact absurd (hactive.symm.trans (hb.trans hinactive)) (by decide)
      | pushPromise id promised =>
        have hinactive := h.inactive hf₀ ha.choose_spec.2.2.2.2.2
        rcases promised_onPushPromise hids hf with hb | hb
        · exact congrArg some hb.block.symm
        · exact absurd (hactive.symm.trans (hb.trans hinactive)) (by decide)
      | headerBlock id fragment =>
        have hc : Calm (blindSide true) (s.note (.received (.headerBlock id fragment))) _ :=
          (walks_onHeaderBlock le_rfl _ id fragment).calm
        have hblock := hc.block rfl
        simp only [Session.block, Block.mk.injEq] at hblock
        obtain ⟨hact, hcur, -⟩ := hblock
        exact (h.block hf₀ (hact.symm.trans hactive)).trans (congrArg some hcur.symm)
      | headerBlockEnd id endStream =>
        obtain ⟨header, -, -, -, hb⟩ := ha
        have hinactive := inactive_onHeaderBlockEnd hids
          (fun hact => Option.some.inj ((h.block hf₀ hact).symm.trans hb)) hf
        exact absurd (hactive.symm.trans hinactive) (by decide)
      | _ => exact absurd hr fun h => h
    | _ => exact absurd hr fun h => h
  · obtain ⟨hkept, hstream⟩ := kept_of_reaches hr (hw.reaches ha)
    have hb := h.block hf₀ (hkept.active ▸ hactive)
    rw [hstream, ← hb]
    by_cases hd : ∃ call, a = .deliver call
    · obtain ⟨call, rfl⟩ := hd
      rw [show s.act (.deliver call) = s.deliver call from rfl, phase_deliver hw ha]
      exact block_next hr
    · rw [phase_act hw ha fun call hc => hd ⟨call, hc⟩]

/-- A frame that has begun, and the action that begins it. -/
theorem frame_of_act (hw : s.WellFormed) (ha : s.Allows a)
    (hframe : (s.act a).phase.frame = some header) :
    s.phase.frame = some header ∨ a = .deliver (.frameBegin header) := by
  by_cases hd : ∃ call, a = .deliver call
  · obtain ⟨call, rfl⟩ := hd
    change (s.deliver call).phase.frame = some header at hframe
    rw [phase_deliver hw ha] at hframe
    rcases frame_next hframe with hframe | rfl
    · exact .inl hframe
    · exact .inr rfl
  · rw [phase_act hw ha fun call hc => hd ⟨call, hc⟩] at hframe
    exact .inl hframe

/-- During a DATA frame the peer opens no stream. -/
theorem not_opensPeer_of_data (ha : s.Allows a) (hframe : s.phase.frame = some header)
    (ht : header.type = .data) : ¬a.opensPeer id := by
  rintro (⟨header', rfl, -, -⟩ | ⟨parent, rfl⟩)
  · exact nomatch ha.1.symm.trans hframe
  · obtain ⟨header', hframe', ht', -⟩ := ha
    cases hframe.symm.trans hframe'
    rw [ht] at ht'
    exact absurd ht' (by decide)

/-- A stream is opened by the peer, or it is one of this endpoint. -/
theorem opened_step {e₀ e e' : Endpoint X} (hs : Step a e₀ e e') (h : .opened id ∈ e'.history) :
    .opened id ∈ e.history ∨ a.opensPeer id ∨ e.role.initiates id := by
  cases hs with
  | note hn =>
    rcases mem_note.1 h with h | rfl
    · exact Or.inl h
    · exact absurd hn (fun h => h)
  | openPeer ha =>
    rcases mem_note.1 h with h | h
    · exact Or.inl h
    · cases h
      exact Or.inr (Or.inl ha)
  | openLocal _ _ hr =>
    rcases mem_note.1 h with h | h
    · exact Or.inl h
    · cases h
      exact Or.inr (Or.inr hr)
  | sendData | raise | raiseStream | overflow | fail | failAdjusted | failRaise | goAway =>
    simpa [Endpoint.note, Endpoint.set] using Or.inl h
  | _ => exact Or.inl h

/-- The streams that are opened without the peer are those of this endpoint. -/
theorem initiates_of_opened (hw : s.WellFormed) (ha : s.Allows a) (hne : ∀ id, ¬a.opensPeer id)
    (h : .opened id ∈ (s.act a).history) : .opened id ∈ s.history ∨ s.role.initiates id := by
  have key := (hw.reaches ha).invariant (I := fun e => e.role = s.role ∧
    ∀ id, .opened id ∈ e.history → .opened id ∈ s.history ∨ s.role.initiates id) ?_
    ⟨rfl, fun _ ho => .inl ho⟩
  · exact key.2 id h
  intro e e' hs he
  refine ⟨?_, fun id ho => ?_⟩
  · cases hs <;> exact he.1
  · rcases opened_step hs ho with ho | ho | ho
    · exact he.2 id ho
    · exact absurd ho (hne id)
    · exact .inr (he.1 ▸ ho)

theorem received_new {new : List Obs} {call : Callback} (hw : s.WellFormed) (ha : s.Allows a)
    (hh : (s.act a).history = s.history ++ new) (hm : .received call ∈ new) :
    a = .deliver call := by
  have happ : receivedCalls (s.act a).history = receivedCalls s.history ++ receivedCalls new := by
    rw [hh, receivedCalls, filterMap_append]
    rfl
  have hmem : call ∈ receivedCalls new := mem_filterMap.2 ⟨_, hm, rfl⟩
  by_cases hd : ∃ call, a = .deliver call
  · obtain ⟨call', rfl⟩ := hd
    rw [show (s.act (.deliver call')).history = (s.deliver call').history from rfl,
      receivedCalls_deliver hw ha, append_cancel_left_eq] at happ
    rw [← happ, mem_singleton] at hmem
    rw [hmem]
  · have hsame := Steps.received (hw.reaches ha) (.inl fun call hc => hd ⟨call, hc⟩)
    change receivedCalls (s.act a).history = receivedCalls s.history at hsame
    rw [hsame, self_eq_append_right] at happ
    rw [happ] at hmem
    cases hmem

/-- A stream that is opened is one of this endpoint, or it is above those of the peer. -/
theorem opened_new (hw : s.WellFormed) (ha : s.Allows a) :
    s.lastPeerStream ≤ (s.act a).lastPeerStream ∧ ∀ id, .opened id ∈ (s.act a).history →
      .opened id ∈ s.history ∨ s.role.initiates id ∨ s.lastPeerStream < id := by
  have key := (hw.reaches ha).invariant (I := fun e => e.role = s.role ∧
    s.lastPeerStream ≤ e.lastPeer ∧ ∀ id, .opened id ∈ e.history →
      .opened id ∈ s.history ∨ s.role.initiates id ∨ s.lastPeerStream < id) ?_
    ⟨rfl, le_rfl, fun _ ho => .inl ho⟩
  · exact key.2
  rintro e e' hs ⟨hrole, hlast, hopen⟩
  refine ⟨?_, ?_, fun id ho => ?_⟩
  · exact (role_step hs).trans hrole
  · cases hs with
    | openPeer _ hid => exact hlast.trans hid.le
    | _ => exact hlast
  · cases hs with
    | note hn =>
      rcases mem_note.1 ho with ho | rfl
      · exact hopen id ho
      · exact absurd hn (fun h => h)
    | openPeer _ hid =>
      rcases mem_note.1 ho with ho | ho
      · exact hopen id ho
      · cases ho
        exact .inr (.inr (hlast.trans_lt hid))
    | openLocal _ _ hr =>
      rcases mem_note.1 ho with ho | ho
      · exact hopen id ho
      · cases ho
        exact .inr (.inl (hrole ▸ hr))
    | sendData | raise | raiseStream | overflow | fail | failAdjusted | failRaise | goAway =>
      exact hopen id (by simpa [Endpoint.note, Endpoint.set] using ho)
    | _ => exact hopen id ho

theorem framed_newSession {role : Role} {limits : SessionLimits}
    (h : newSession X role limits = .ok s) : s.Framed := by
  obtain ⟨output, header, payload, -, rfl⟩ := newSession_ok h
  refine ⟨fun _ hh => absurd hh (by simp [phase, receivedCalls]), fun _ ha => absurd ha ?_⟩
  simp [init, HeaderDecoder.new]

end WagoHttp.Http2.Session
