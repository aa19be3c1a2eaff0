import WagoHttp.Http2.Session.SendSync
import WagoHttp.Http2.Session.Sides

/-!
# What a session queues

A session has two queues, the octets that wait to be sent and the events that wait to be taken. Its
owner drains them; every other operation only adds to them. `Packet` lists what a session writes: a
frame, or all the frames of a header block. `Queues` says that a function adds packets to the output
and events to the queue, and that the entries it adds to the history are the entries of these.
`Enters` says so, and that the function keeps the books of the session. `Walks` says that it also
leaves a side alone: one walk over the functions of a session shows all of it, for every side. The
books of a session balance after every run.
-/

namespace WagoHttp.Http2

open List

/-- What a session writes at a time. A header block is cut into frames of at most `max` octets. -/
inductive Packet
  | data (streamID : ℕ) (payload : Bytes) (endStream : Bool)
  | headers (streamID : ℕ) (endStream : Bool) (max : ℕ) (block : Bytes)
  | pushPromise (streamID promisedID : ℕ) (max : ℕ) (block : Bytes)
  | rstStream (streamID : ℕ) (code : ErrorCode)
  | settings (params : List Setting)
  | settingsAck
  | ping (octets : Bytes) (ack : Bool)
  | goAway (lastStreamID : ℕ) (code : ErrorCode) (debug : Bytes)
  | windowUpdate (streamID increment : ℕ)
  | priorityUpdate (streamID : ℕ) (value : Bytes)

namespace Packet

/-- The frames of a packet. -/
def frames : Packet → List (FrameHeader × Bytes)
  | .data streamID payload endStream =>
    [({ type := .data, flags := if endStream then .endStream else 0, streamID }, payload)]
  | .headers streamID endStream max block =>
    Session.blockFrames .headers streamID 0 endStream max (block.length + 1) true block
  | .pushPromise streamID promisedID max block =>
    Session.blockFrames .pushPromise streamID promisedID false max (block.length + 1) true block
  | .rstStream streamID code => [({ type := .rstStream, streamID }, putUint32 code.toNat)]
  | .settings params => [({ type := .settings }, params.flatMap Session.settingBytes)]
  | .settingsAck => [({ type := .settings, flags := .ack }, [])]
  | .ping octets ack => [({ type := .ping, flags := if ack then .ack else 0 }, octets)]
  | .goAway lastStreamID code debug =>
    [({ type := .goAway }, putUint32 lastStreamID ++ putUint32 code.toNat ++ debug)]
  | .windowUpdate streamID increment =>
    [({ type := .windowUpdate, streamID }, putUint32 increment)]
  | .priorityUpdate streamID value =>
    [({ type := .priorityUpdate }, putUint32 (streamID % 2 ^ 31) ++ value)]

/-- The packet is well formed, in frames of at most `max` octets. -/
def Fits (max : ℕ) : Packet → Prop
  | .data streamID payload _ => streamID ≠ 0 ∧ streamID < 2 ^ 31 ∧ payload.length ≤ max
  | .headers streamID _ size _ => streamID ≠ 0 ∧ streamID < 2 ^ 31 ∧ 4 < size ∧ size ≤ max
  | .pushPromise streamID promisedID size _ =>
    streamID ≠ 0 ∧ streamID < 2 ^ 31 ∧ promisedID ≠ 0 ∧ promisedID < 2 ^ 31 ∧ 4 < size ∧ size ≤ max
  | .rstStream streamID _ => streamID ≠ 0 ∧ streamID < 2 ^ 31
  | .settings params => (∀ x ∈ params, validSetting x = true) ∧ params.length * 6 ≤ max
  | .settingsAck => True
  | .ping octets _ => octets.length = 8
  | .goAway _ _ debug => 8 + debug.length ≤ max
  | .windowUpdate streamID increment => streamID < 2 ^ 31 ∧ increment ≠ 0 ∧ increment < 2 ^ 31
  | .priorityUpdate _ value => 4 + value.length ≤ max

end Packet

/-- The event that an entry queues. -/
def Obs.events : Obs → List Event
  | .queued event => [event]
  | _ => []

/-- The frame that an entry puts into the output. -/
def Obs.frames : Obs → List (FrameHeader × Bytes)
  | .sent header payload => [(header, payload)]
  | _ => []

/-- The events that have been queued. -/
def queuedEvents (history : List Obs) : List Event := history.flatMap Obs.events

/-- The frames that have been put into the output. -/
def sentFrames (history : List Obs) : List (FrameHeader × Bytes) := history.flatMap Obs.frames

/-- The octets of a frame whose header has its length. -/
def octetsOf (frame : FrameHeader × Bytes) : Bytes := frameHeaderBytes frame.1 ++ frame.2

/-- A frame with the length in its header. -/
def withLength (frame : FrameHeader × Bytes) : FrameHeader × Bytes :=
  ({ frame.1 with length := frame.2.length }, frame.2)

namespace Session

open Endpoint Runs

variable {X : Externals} {s s' s'' : Session X} {a : Action} {max : ℕ} {reports : Bool}

/-- The entries of the history say what has been added to the queues. -/
structure Logs (s s' : Session X) (new : List Obs) : Prop where
  history : s'.history = s.history ++ new
  events : s'.events = s.events ++ queuedEvents new
  output : s'.output = s.output ++ (sentFrames new).flatMap octetsOf

theorem Logs.trans {new new' : List Obs} (h : Logs s s' new) (h' : Logs s' s'' new') :
    Logs s s'' (new ++ new') := by
  refine ⟨?_, ?_, ?_⟩
  · rw [h'.history, h.history, append_assoc]
  · rw [h'.events, h.events, queuedEvents, queuedEvents, queuedEvents, flatMap_append,
      append_assoc]
  · rw [h'.output, h.output, sentFrames, sentFrames, sentFrames, flatMap_append,
      flatMap_append, append_assoc]

/-- Only packets are added to the output, and events only if `reports`. -/
def Queues (max : ℕ) (reports : Bool) (s s' : Session X) : Prop :=
  ∃ new, Logs s s' new ∧ (reports = false → queuedEvents new = []) ∧
    ∃ packets : List Packet, (∀ p ∈ packets, p.Fits max) ∧
      sentFrames new = (packets.flatMap Packet.frames).map withLength

/-- The queues and the history. -/
def queues (s : Session X) : List Obs × List Event × Bytes := (s.history, s.events, s.output)

theorem Queues.of_eq (h : s'.queues = s.queues) : Queues max reports s s' := by
  simp only [queues, Prod.mk.injEq] at h
  exact ⟨[], ⟨by simp [h.1], by simp [h.2.1, queuedEvents], by simp [h.2.2, sentFrames]⟩,
    fun _ => rfl, [], by simp, rfl⟩

theorem Queues.refl (s : Session X) : Queues max reports s s := .of_eq rfl

theorem Queues.trans (h : Queues max reports s s') (h' : Queues max reports s' s'') :
    Queues max reports s s'' := by
  obtain ⟨new, hl, hq, ps, hps, hf⟩ := h
  obtain ⟨new', hl', hq', ps', hps', hf'⟩ := h'
  refine ⟨new ++ new', hl.trans hl', fun hr => ?_, ps ++ ps', ?_, ?_⟩
  · rw [queuedEvents, flatMap_append]
    exact append_eq_nil_iff.2 ⟨hq hr, hq' hr⟩
  · exact forall_mem_append.2 ⟨hps, hps'⟩
  · rw [sentFrames, flatMap_append, flatMap_append, map_append]
    exact congrArg₂ _ hf hf'

variable {o : Obs} {header : FrameHeader} {payload : Bytes} {id promised : ℕ} {st st' : Stream}
  {event : Event} {frameType : FrameType}

/-- An entry that concerns neither queue. -/
theorem Queues.noted (he : o.events = []) (hf : o.frames = []) : Queues max reports s (s.note o) :=
  ⟨[o], ⟨rfl, by simp [note, queuedEvents, he], by simp [note, sentFrames, hf]⟩,
    fun _ => by simp [queuedEvents, he], [], by simp, by simp [sentFrames, hf]⟩

/-! ## The queues -/

theorem queues_queueEvent (s : Session X) (event : Event) :
    Queues max true s (s.queueEvent event).1 := by
  unfold queueEvent
  simp only
  split
  · exact .refl s
  · exact ⟨[.queued event], ⟨rfl, rfl, by simp [note, sentFrames, Obs.frames]⟩, nofun, [],
      by simp, rfl⟩

/-! A frame is a packet, and the packet fits if the frame is valid. -/
variable (p : Packet) (hp : p.frames = [(header, payload)])
  (hfits : header.streamID < 2 ^ 31 → payload.length ≤ 16777215 →
    validateFrameHeader { header with length := payload.length } = .none → p.Fits max)

include hp hfits in
theorem queues_appendFrameEvenFailed :
    Queues max reports s (s.appendFrameEvenFailed header payload).1 := by
  obtain ⟨err, h⟩ | ⟨-, hlen, hid, hv, h⟩ := appendFrameEvenFailed_cases s header payload
  · rw [h]
    exact .refl s
  · rw [h]
    refine ⟨[.sent { header with length := payload.length } payload], ⟨rfl, ?_, ?_⟩, fun _ => rfl,
      [p], ?_, ?_⟩
    · simp [appended, note, queuedEvents, Obs.events]
    · simp [appended, note, sentFrames, Obs.frames, octetsOf]
    · rw [forall_mem_singleton]
      exact hfits (Nat.lt_succ_of_le hid) hlen hv
    · simp [sentFrames, Obs.frames, hp, withLength]

theorem queues_setStream (s : Session X) (id : ℕ) (st : Stream) :
    Queues max reports s (s.setStream id st) := .of_eq rfl

theorem queues_addStream (s : Session X) (id : ℕ) (st : Stream) :
    Queues max reports s (s.addStream id st) :=
  (queues_setStream s id st).trans (.noted rfl rfl)

theorem queues_closeStream (s : Session X) (id : ℕ) : Queues max reports s (s.closeStream id) := by
  unfold closeStream releaseActive
  split
  · exact .refl s
  split
  · exact .refl s
  · simp only
    split <;> exact .of_eq rfl

/-! ## Books and queues

What a session does between two drains of its queues keeps its books and adds to its queues. -/

/-- The books are kept, packets are added to the output, and events if `reports`. -/
structure Enters (max : ℕ) (reports : Bool) (s s' : Session X) : Prop where
  keeps : Keeps s s'
  queues : Queues max reports s s'

theorem Enters.of_eq (h : (s'.registry, s'.queues) = (s.registry, s.queues)) :
    Enters max reports s s' :=
  ⟨.of_eq (Prod.mk.inj h).1, .of_eq (Prod.mk.inj h).2⟩

theorem Enters.refl (s : Session X) : Enters max reports s s := .of_eq rfl

theorem Enters.trans (h : Enters max reports s s') (h' : Enters max reports s' s'') :
    Enters max reports s s'' :=
  ⟨h.keeps.trans h'.keeps, h.queues.trans h'.queues⟩

theorem Enters.noted (he : o.events = []) (hf : o.frames = []) :
    Enters max reports s (s.note o) := ⟨.of_eq rfl, .noted he hf⟩

theorem enters_setStream (hst : s.stream? id = some st) (hl : st'.isLocal = st.isLocal)
    (hc : st'.state = .closed ↔ st.state = .closed) :
    Enters max reports s (s.setStream id st') :=
  ⟨keeps_setStream hst hl hc, queues_setStream s id st'⟩

theorem enters_closeStream (s : Session X) (id : ℕ) : Enters max reports s (s.closeStream id) :=
  ⟨keeps_closeStream s id, queues_closeStream s id⟩

/-- A stream of the peer enters the table. -/
theorem enters_addPeer (state : StreamState) (hnew : s.stream? id = none)
    (hroom : s.streamCount < s.limits.maxStreams.toNat) (hs : state ≠ .closed) :
    Enters max reports s
      { s.addStream id (s.freshStream state false) with activePeer := s.activePeer + 1 } :=
  ⟨fun hb => hb.add (s.freshStream state false) hnew hroom hs,
    (queues_addStream s id _).trans (.of_eq rfl)⟩

theorem enters_queueEvent (s : Session X) (event : Event) :
    Enters max true s (s.queueEvent event).1 :=
  ⟨keeps_queueEvent s event, queues_queueEvent s event⟩

include hp hfits in
theorem enters_appendFrameEvenFailed :
    Enters max reports s (s.appendFrameEvenFailed header payload).1 :=
  ⟨keeps_appendFrameEvenFailed s header payload, queues_appendFrameEvenFailed p hp hfits⟩

include hp hfits in
theorem enters_appendFrame :
    Enters max reports s (s.appendFrame header payload).1 := by
  unfold appendFrame
  split
  · exact .refl s
  · exact enters_appendFrameEvenFailed p hp hfits

/-! ## Books, queues and a side

Most functions keep the books, add to the queues and leave a side alone. One walk over them shows
all of this. -/

/-- The books are kept, the queues are added to and the side is left alone. -/
structure Walks (S : Side) (max : ℕ) (reports : Bool) (s s' : Session X) : Prop where
  enters : Enters max reports s s'
  calm : Calm S s s'

variable {S : Side}

theorem Walks.block (hr : S.reads = false) (h : (s'.registry, s'.queues) = (s.registry, s.queues)) :
    Walks S max reports s s' :=
  ⟨.of_eq h, calm_blockChange hr (congrArg Registry.streams (Prod.mk.inj h).1)
    (congrArg Prod.fst (Prod.mk.inj h).2)⟩

theorem Walks.of_eq (h : (s'.registry, s'.queues) = (s.registry, s.queues))
    (hb : s'.block = s.block) : Walks S max reports s s' :=
  ⟨.of_eq h, .of_eq (congrArg Registry.streams (Prod.mk.inj h).1)
    (congrArg Prod.fst (Prod.mk.inj h).2) hb⟩

theorem Walks.refl (s : Session X) : Walks S max reports s s := .of_eq rfl rfl

theorem Walks.trans (h : Walks S max reports s s') (h' : Walks S max reports s' s'') :
    Walks S max reports s s'' :=
  ⟨h.enters.trans h'.enters, h.calm.trans h'.calm⟩

theorem Walks.noted (he : o.events = []) (hf : o.frames = []) (h : S.shows o = false) :
    Walks S max reports s (s.note o) := by
  refine ⟨.noted he hf, .noted h rfl rfl rfl ?_⟩
  rintro header payload rfl
  cases hf

theorem walks_setStream (hst : s.stream? id = some st) (h : S.same st st')
    (hl : st'.isLocal = st.isLocal) (hc : st'.state = .closed ↔ st.state = .closed) :
    Walks S max reports s (s.setStream id st') :=
  ⟨enters_setStream hst hl hc, calm_setStream hst h⟩

theorem walks_closeStream (s : Session X) (id : ℕ) : Walks S max reports s (s.closeStream id) :=
  ⟨enters_closeStream s id, calm_closeStream s id⟩

theorem walks_queueEvent (s : Session X) (h : S.shows (.queued event) = false) :
    Walks S max true s (s.queueEvent event).1 :=
  ⟨enters_queueEvent s event, calm_queueEvent h⟩

/-- An event that reports nothing. -/
theorem walks_offerEvent (s : Session X) (h : ¬event.isReport) :
    Walks S max true s (s.offerEvent event) := walks_queueEvent s (S.shows_queued h)

section Control

/-! A frame that neither carries a part of a message nor resets a stream. -/
variable (s) (type : FrameType) (ht : header.type = type)
  (h : (type ≠ .headers ∧ type ≠ .data ∧ type ≠ .continuation ∧ type ≠ .pushPromise) ∧
    type ≠ .rstStream)
include hp hfits ht h

theorem walks_control :
    Walks S max reports s (s.appendFrameEvenFailed header payload).1 :=
  ⟨enters_appendFrameEvenFailed p hp hfits,
    calm_appendFrameEvenFailed (shows_control type ht h) fun hr => absurd (ht.symm.trans hr) h.2⟩

theorem walks_controlFrame :
    Walks S max reports s (s.appendFrame header payload).1 := by
  unfold appendFrame
  split
  · exact .refl s
  · exact walks_control s p hp hfits type ht h

end Control

theorem walks_settingsAck (s : Session X) : Walks S max reports s (s.appendSettings [] true).1 :=
  walks_control s .settingsAck rfl (fun _ _ _ => trivial) .settings rfl (by decide)

theorem walks_appendWindowUpdate (s : Session X) (id increment : ℕ) :
    Walks S max reports s (s.appendWindowUpdate id increment).1 := by
  unfold appendWindowUpdate
  split
  · exact .refl s
  · next h =>
    obtain ⟨hz, hle⟩ := not_or.1 h
    refine walks_control s (.windowUpdate id increment) rfl (fun hid _ _ => ⟨hid, hz, ?_⟩)
      .windowUpdate rfl (by decide)
    unfold maxInt32 at hle
    omega

/-! ## Errors -/

/-- A frame that needs a stream has one. -/
theorem streamID_ne_zero_of_valid (hv : validateFrameHeader header = .none)
    (ht : header.type = .data ∨ header.type = .rstStream) : header.streamID ≠ 0 := by
  intro hz
  unfold validateFrameHeader at hv
  rcases ht with ht | ht <;> simp [ht, hz] at hv

theorem enters_rstStream (s : Session X) (id : ℕ) (code : ErrorCode) :
    Enters max reports s
      (s.appendFrame { type := .rstStream, streamID := id } (putUint32 code.toNat)).1 :=
  enters_appendFrame (.rstStream id code) rfl fun hid _ hv =>
    ⟨streamID_ne_zero_of_valid hv (.inr rfl), hid⟩

theorem walks_streamError (hS : S.IgnoresResets id) (s : Session X) (code : ErrorCode) :
    Walks S max true s (s.streamError id code) := by
  have hsent : Walks S max true (s.closeStream id) ((s.closeStream id).appendFrame
      { type := .rstStream, streamID := id } (putUint32 code.toNat)).1 :=
    ⟨enters_rstStream _ id code,
      calm_appendFrame (hS.frame _ _ rfl rfl) fun _ _ => closed_of_closeStream⟩
  unfold streamError
  exact ((walks_closeStream s id).trans hsent).trans (walks_queueEvent _ (hS.event _ rfl))

theorem walks_connectionError (hmax : 8 ≤ max) (s : Session X) (code : ErrorCode)
    (reason : String) : Walks S max reports s (s.connectionError code reason) := by
  unfold connectionError
  split
  · exact .refl s
  simp only
  have h : Walks S max reports s
      { s with failed := some (.protocol 0 code reason), goAwaySent := true } := .of_eq rfl rfl
  refine (h.trans (.noted (o := .failed (.protocol 0 code reason)) rfl rfl
    (S.shows_failed _))).trans ?_
  exact walks_control _ (.goAway s.lastProcessedPeerStream code [])
    (by simp [Packet.frames, note]) (fun _ _ _ => hmax) .goAway rfl (by decide)

theorem calm_connectionError (s : Session X) (code : ErrorCode) (reason : String) :
    Calm S s (s.connectionError code reason) :=
  (walks_connectionError le_rfl s code reason : Walks S 8 true _ _).calm

theorem walks_handleProtocolError (hmax : 8 ≤ max) (hS : S.IgnoresResets id) (s : Session X)
    {err : SessionError} (herr : SessionError.Concerns id err) :
    Walks S max true s (s.handleProtocolError err) := by
  unfold handleProtocolError
  split
  · next id' code reason =>
    split
    · exact walks_connectionError hmax s _ _
    · next hz =>
      obtain rfl := (herr id' code reason rfl).resolve_left hz
      exact walks_streamError hS s _
  · exact walks_connectionError hmax s _ _

/-! ## Received frames -/

theorem walks_endRemote (hst : s.stream? id = some st) :
    Walks S max reports s (s.endRemote id st) := by
  unfold endRemote
  split
  · next h => exact walks_setStream hst (S.state (h ▸ narrows_open_remote)) rfl (by simp [h])
  · exact walks_closeStream s id
  · next h => exact walks_setStream hst (S.state (h ▸ narrows_reservedRemote)) rfl (by simp [h])
  · exact .refl s

theorem walks_remoteEnd (hS : S.IgnoresEvents id) (s : Session X) :
    Walks S max true s (s.remoteEnd id) := by
  unfold remoteEnd
  split
  · exact .refl s
  next st hst =>
  split
  · exact walks_streamError hS.resets s _
  simp only
  split
  · exact ((walks_endRemote hst).trans (walks_queueEvent _ (hS.queued _))).trans (.of_eq rfl rfl)
  · exact walks_endRemote hst

theorem enters_beginDecoderBlock (s : Session X) : Enters max reports s s.beginDecoderBlock.1 := by
  unfold beginDecoderBlock
  split
  · exact .refl s
  · next decoder _ =>
    have h : Enters max reports s { s with decoder } := .of_eq rfl
    exact h.trans (.noted rfl rfl)

theorem enters_admitHeaders (h : s.admitHeaders id = .ok (s', st)) :
    Enters max reports s s' ∧ s'.stream? id = some st := by
  unfold admitHeaders at h
  split at h
  · next hnone =>
    split_ifs at h with h1 h2 h3
    cases h
    exact ⟨(enters_addPeer .open hnone (Nat.lt_of_not_le h3) (by simp)).trans (.of_eq rfl),
      AList.lookup_insert _⟩
  · next hst =>
    split_ifs at h
    cases h
    exact ⟨.refl s, hst⟩

theorem enters_beginInboundHeaders (s : Session X) (id : ℕ) (endStream : Bool) :
    Enters max reports s (s.beginInboundHeaders id endStream).1 := by
  unfold beginInboundHeaders
  split
  · exact .refl s
  next t st hadmit =>
  obtain ⟨h, hst⟩ := enters_admitHeaders hadmit
  split
  · exact h
  · have hstart : Enters max reports t (t.startSection id st endStream) := by
      unfold startSection
      simp only
      split
      · next hs =>
        exact ⟨fun hb => hb.set { st with state := .halfClosedLocal } hst rfl (by simp [hs]),
          .of_eq rfl⟩
      · exact .of_eq rfl
    exact (h.trans hstart).trans (enters_beginDecoderBlock _)

theorem walks_chargeData (hmax : 8 ≤ max) (hS : S.IgnoresResets header.streamID) (s : Session X) :
    Walks S max true s (s.chargeData header) := by
  unfold chargeData
  split
  · exact walks_streamError hS s _
  next st hst =>
  split
  · exact walks_streamError hS s _
  split
  · exact walks_connectionError hmax s _ _
  split
  · exact walks_streamError hS s _
  · have h : Walks S max true s
        { s with connectionRecvWindow := s.connectionRecvWindow - header.length } := .of_eq rfl rfl
    exact h.trans (walks_setStream hst (S.windows st st.sendWindow _) rfl Iff.rfl)

theorem walks_onFrameBegin (hmax : 8 ≤ max) (hr : S.reads = false)
    (hS : S.IgnoresResets header.streamID) (hids : s.endpoint.IdSpace) :
    Walks S max true s (s.onFrameBegin header) := by
  have hframe : Walks S max true s { s with currentFrame := header } := .of_eq rfl rfl
  unfold onFrameBegin
  split
  · exact .refl s
  simp only
  split
  · exact hframe.trans (walks_connectionError hmax _ _ _)
  split
  · have hids' : ({ s with currentFrame := header } : Session X).endpoint.IdSpace := hids
    have hbegin : Walks S max true _ (beginInboundHeaders { s with currentFrame := header }
        header.streamID (header.flags.has .endStream)).1 :=
      ⟨enters_beginInboundHeaders _ _ _, calm_beginInboundHeaders hr hids' _ _⟩
    have h := hframe.trans hbegin
    generalize hw : beginInboundHeaders { s with currentFrame := header } header.streamID
      (header.flags.has .endStream) = w at h
    obtain ⟨t, _ | err⟩ := w
    · exact h
    · exact h.trans (walks_handleProtocolError hmax hS t (concerns_beginInboundHeaders hw))
  split
  · exact hframe.trans (walks_chargeData hmax hS _)
  split
  · exact .of_eq rfl rfl
  · exact hframe

theorem walks_onData (hmax : 8 ≤ max) (hS : S.IgnoresEvents (s.listed id)) (data : Bytes)
    (endStream : Bool) : Walks S max true s (s.onData id data endStream) := by
  unfold onData
  split
  · exact .refl s
  split
  · exact .refl s
  next st hst =>
  rw [listed_some hst] at hS
  split
  · exact walks_streamError hS.resets s _
  have hset : Walks S max true s (s.setStream id
      { st with receiveBody := (st.receiveBody + data.length) % 2 ^ 64 }) :=
    walks_setStream hst (hS.body st _) rfl Iff.rfl
  simp only
  have h := hset.trans (walks_queueEvent _
    (hS.queued { type := .data, streamID := id, endStream, data }))
  generalize queueEvent (s.setStream id _) { type := .data, streamID := id, endStream, data } = w
    at h
  obtain ⟨t, _ | err⟩ := w
  · exact h
  · exact h.trans (walks_connectionError hmax t _ _)

theorem walks_writeDecoder (s : Session X) (fragment : Bytes) :
    Walks S max reports s (s.writeDecoder fragment).1 := by
  have hactive := s.decoder.write_active fragment
  have hnote : Walks S max reports s (s.note (.decoder (.write fragment))) :=
    .noted rfl rfl (S.shows_decoder _)
  unfold writeDecoder
  simp only
  split
  · refine hnote.trans (.of_eq rfl ?_)
    simp only [block, hactive]
    rfl
  · refine .of_eq rfl ?_
    simp only [block, hactive]

theorem walks_onHeaderBlock (hmax : 8 ≤ max) (s : Session X) (id : ℕ) (fragment : Bytes) :
    Walks S max true s (s.onHeaderBlock id fragment) := by
  unfold onHeaderBlock
  split
  · exact .refl s
  have h : Walks S max true s (s.writeDecoder fragment).1 := walks_writeDecoder s fragment
  generalize s.writeDecoder fragment = w at h
  obtain ⟨t, _ | err⟩ := w
  · exact h
  · exact h.trans (walks_connectionError hmax t _ _)

theorem walks_commitSection (hS : S.IgnoresReceives id) {endStream : Bool}
    (hst : s.stream? id = some st) : Walks S max true s (s.commitSection id st endStream) := by
  unfold commitSection
  simp only
  split
  · exact walks_setStream hst (hS.method st _) rfl Iff.rfl
  split
  · have h : Walks S max true s (s.setStream id (Stream.receiveSection st
        (inspectHeaderSection s.currentHeaders) s.currentHeaderTrailer)) :=
      walks_setStream hst (hS.receives st _ _) rfl Iff.rfl
    split
    · exact h.trans (walks_remoteEnd hS.toIgnoresEvents _)
    · exact h
  split
  · exact walks_streamError hS.toIgnoresEvents.resets s _
  · exact .refl s

theorem walks_endDecoderBlock (hr : S.reads = false) (s : Session X) :
    Walks S max true s s.endDecoderBlock.1 := by
  have hnote : Walks S max true s (s.note (.decoder .endBlock)) :=
    .noted rfl rfl (S.shows_decoder _)
  unfold endDecoderBlock
  simp only
  split
  · exact hnote.trans (.block hr rfl)
  · exact .block hr rfl

theorem walks_finishSection (hmax : 8 ≤ max) (hS : S.IgnoresReceives id)
    (hid : s.listed s.currentHeaderEventStream = id) (endStream : Bool) :
    Walks S max true s (s.finishSection endStream) := by
  unfold finishSection
  split
  · exact .refl s
  next st hst =>
  rw [listed_some hst] at hid
  subst hid
  split
  · exact walks_streamError hS.toIgnoresEvents.resets s _
  have h : Walks S max true s (s.queueEvent (s.sectionEvent endStream)).1 :=
    walks_queueEvent s (hS.queued _)
  obtain ⟨hstreams, -, hcur, -⟩ := queueEvent_frame s (s.sectionEvent endStream)
  generalize s.queueEvent (s.sectionEvent endStream) = w at h hstreams hcur
  obtain ⟨t, _ | err⟩ := w
  · have hst' : t.stream? t.currentHeaderEventStream = some st := by
      rw [stream?, hstreams, hcur]
      exact hst
    rw [← hcur] at hS
    exact (h.trans (walks_commitSection hS hst')).trans (.block hS.reads rfl)
  · exact h.trans (walks_connectionError hmax t _ _)

theorem walks_onHeaderBlockEnd (hmax : 8 ≤ max)
    (hS : S.IgnoresReceives (s.listed s.currentHeaderEventStream)) (id : ℕ) (endStream : Bool) :
    Walks S max true s (s.onHeaderBlockEnd id endStream) := by
  unfold onHeaderBlockEnd
  split
  · exact .refl s
  have h : Walks S max true s s.endDecoderBlock.1 := walks_endDecoderBlock hS.reads s
  have hlisted := listed_endDecoderBlock s
  generalize s.endDecoderBlock = w at h hlisted
  obtain ⟨t, _ | err⟩ := w
  · exact h.trans (walks_finishSection hmax hS hlisted endStream)
  · exact h.trans (walks_connectionError hmax t _ _)

theorem walks_onPushPromise (hmax : 8 ≤ max) (hr : S.reads = false) (hS : S.IgnoresResets promised)
    (hids : s.endpoint.IdSpace) (id : ℕ) :
    Walks S max true s (s.onPushPromise id promised) := by
  unfold onPushPromise
  split
  · exact .refl s
  split
  · exact walks_connectionError hmax s _ _
  next hinv =>
  split
  · exact walks_streamError hS s _
  next hroom =>
  have hnew : Obs.opened promised ∉ s.history := by
    simp only [Bool.or_eq_true, decide_eq_true_eq, not_or, not_not, Bool.not_eq_true] at hinv
    obtain ⟨⟨⟨⟨⟨⟨hrole, -⟩, -⟩, -⟩, heven⟩, hlt⟩, -⟩ := hinv
    refine not_opened_of_lastPeer_lt hids (Nat.lt_of_not_le hlt) ?_
    rw [hrole]
    simp [Role.initiates, heven]
  have hnone : s.stream? promised = none := by
    by_contra hne
    obtain ⟨st, hst⟩ := Option.ne_none_iff_exists'.1 hne
    exact hnew (hids.opened promised st hst).1
  have hreserve : Walks S max true s (s.reserveRemote id promised) :=
    ⟨(enters_addPeer .reservedRemote hnone (Nat.lt_of_not_le (not_or.1 hroom).2) (by simp)).trans
      (.of_eq rfl), (calm_addStream hnew (S.fresh_new _ _ _ _)).trans (calm_blockChange hr rfl rfl)⟩
  have hbegin : Walks S max true (s.reserveRemote id promised) _ :=
    ⟨enters_beginDecoderBlock _, calm_beginDecoderBlock hr _⟩
  have h := hreserve.trans hbegin
  generalize (s.reserveRemote id promised).beginDecoderBlock = w at h
  obtain ⟨t, _ | err⟩ := w
  · exact h
  · exact h.trans (walks_connectionError hmax t _ _)

theorem walks_creditConnection (s : Session X) : Walks S max reports s s.creditConnection := by
  unfold creditConnection
  simp only
  split
  · exact (walks_appendWindowUpdate s _ _).trans (.of_eq rfl rfl)
  · exact .refl s

/-- The windows that the end of a DATA frame tops up. -/
theorem walks_credits (hst : s.stream? id = some st) :
    Walks S max reports s (s.creditConnection.creditStream id st) := by
  have hst' (n : ℕ) : (s.creditConnection.appendWindowUpdate id n).1.stream? id = some st := by
    have hstreams := s.creditConnection_frame.1
    obtain ⟨output, heq | heq⟩ := s.creditConnection.appendWindowUpdate_cases id n <;>
    · rw [heq]
      change s.creditConnection.streams.lookup id = some st
      rw [hstreams]
      exact hst
  refine (walks_creditConnection s).trans ?_
  unfold creditStream
  simp only
  split
  · exact (walks_appendWindowUpdate _ _ _).trans
      (walks_setStream (hst' _) (S.windows st st.sendWindow _) rfl Iff.rfl)
  · exact .refl _

theorem walks_completePriorityUpdate (hmax : 8 ≤ max) (s : Session X) (header : FrameHeader) :
    Walks S max true s (s.completePriorityUpdate header) := by
  unfold completePriorityUpdate
  split
  · exact walks_connectionError hmax s _ _
  · exact walks_offerEvent s (by simp [Event.isReport, Event.isMessage])

theorem walks_onFrameComplete (hmax : 8 ≤ max) (hS : S.IgnoresEvents (s.listed header.streamID)) :
    Walks S max true s (s.onFrameComplete header) := by
  have hcount : Walks S max true s (s.countFrame header) := .of_eq rfl rfl
  unfold onFrameComplete
  split
  · exact .refl s
  simp only
  split
  · exact hcount.trans (walks_connectionError hmax _ _ _)
  split
  · refine hcount.trans ?_
    unfold completeData
    split
    · exact .refl _
    next st hst =>
    rw [listed_some (s := s) hst] at hS
    simp only
    split
    · exact (walks_credits hst).trans (walks_remoteEnd hS _)
    · exact walks_credits hst
  split
  · exact hcount.trans (walks_completePriorityUpdate hmax _ _)
  · exact hcount

/-! ## Received control frames -/

theorem walks_onRSTStream (hmax : 8 ≤ max)
    (hS : ∀ event : Event, event.type = .streamReset → S.shows (.queued event) = false)
    (s : Session X) (id : ℕ) (code : ErrorCode) : Walks S max true s (s.onRSTStream id code) := by
  unfold onRSTStream
  split
  · split
    · exact walks_connectionError hmax s _ _
    · exact .refl s
  · exact (walks_closeStream s id).trans (walks_queueEvent _ (hS _ rfl))

theorem walks_adjustSendWindows (change : ℤ) (ids : List ℕ) (s : Session X) :
    Walks S max reports s (adjustSendWindows change ids s).1 := by
  induction ids generalizing s with
  | nil => exact .refl s
  | cons id ids ih =>
    unfold adjustSendWindows
    split
    · exact ih s
    next st hst =>
    split_ifs
    · exact ih s
    · exact .refl s
    · have h : Walks S max reports s (s.setStream id
          { st with sendWindow := st.sendWindow + change }) :=
        walks_setStream hst (S.windows st _ st.recvWindow) rfl Iff.rfl
      exact h.trans (ih _)

/-- Applying a setting is a walk, and its errors concern the connection. -/
def WalksSetting (S : Side) (max : ℕ) (reports : Bool) (s : Session X)
    (r : Session X × Option SessionError) : Prop :=
  Walks S max reports s r.1 ∧ ∀ err, r.2 = some err → ∃ code reason, err = .protocol 0 code reason

theorem walks_applyInitialWindow (s : Session X) (value : ℕ) :
    WalksSetting S max reports s (s.applyInitialWindow value) := by
  have hrange : Walks S max reports s s.rangeStreams.2 := .of_eq rfl rfl
  have h := hrange.trans (walks_adjustSendWindows
    (value - s.rangeStreams.2.peerInitialWindow) s.rangeStreams.1 s.rangeStreams.2)
  unfold applyInitialWindow
  simp only
  generalize adjustSendWindows _ s.rangeStreams.1 s.rangeStreams.2 = w at h
  obtain ⟨t, _ | _⟩ := w
  · exact ⟨h, by rintro err ⟨⟩; exact ⟨_, _, rfl⟩⟩
  · exact ⟨h.trans (.of_eq rfl rfl), fun err he => nomatch he⟩

theorem walks_applyPeerSetting (s : Session X) (setting : Setting) :
    WalksSetting S max reports s (s.applyPeerSetting setting) := by
  unfold applyPeerSetting
  simp only
  split_ifs
  all_goals first
    | exact walks_applyInitialWindow s _
    | refine ⟨.of_eq rfl rfl, ?_⟩
      rintro err ⟨⟩ <;> exact ⟨_, _, rfl⟩

theorem walks_applyPeerSettings (settings : List Setting) (s : Session X) :
    WalksSetting S max reports s (applyPeerSettings settings s) := by
  induction settings generalizing s with
  | nil => exact ⟨.refl s, fun err he => nomatch he⟩
  | cons setting settings ih =>
    have h : WalksSetting S max reports s (s.applyPeerSetting setting) :=
      walks_applyPeerSetting s setting
    unfold applyPeerSettings
    generalize s.applyPeerSetting setting = w at h
    obtain ⟨t, _ | err⟩ := w
    · exact ⟨h.1.trans (ih t).1, (ih t).2⟩
    · exact h

theorem walks_onSettingsEnd (hmax : 8 ≤ max) (s : Session X) (ack : Bool) :
    Walks S max true s (s.onSettingsEnd ack) := by
  unfold onSettingsEnd
  split
  · exact .refl s
  split
  · split
    · exact walks_connectionError hmax s _ _
    · have h : Walks S max true s
          { s with localSettingsOutstanding := s.localSettingsOutstanding - 1 } := .of_eq rfl rfl
      exact h.trans (walks_offerEvent _ (by simp [Event.isReport, Event.isMessage]))
  have h : WalksSetting S max true s _ := walks_applyPeerSettings s.pendingSettings s
  generalize applyPeerSettings s.pendingSettings s = w at h
  obtain ⟨t, _ | err⟩ := w
  · simp only
    have h1 : Walks S max true t { t with pendingSettings := [], peerInitialSettings := true } :=
      .of_eq rfl rfl
    have h' := (h.1.trans h1).trans (walks_settingsAck _)
    generalize appendSettings
      { t with pendingSettings := [], peerInitialSettings := true } [] true = v at h'
    obtain ⟨u, _ | err⟩ := v
    · exact h'.trans (walks_offerEvent _ (by simp [Event.isReport, Event.isMessage]))
    · exact h'.trans (walks_connectionError hmax u _ _)
  · obtain ⟨code, reason, rfl⟩ := h.2 err rfl
    exact h.1.trans (walks_connectionError hmax t code reason)

theorem walks_onPriority (s : Session X) (id : ℕ) (priority : PriorityParam) :
    Walks S max true s (s.onPriority id priority) := by
  unfold onPriority
  split
  · exact .refl s
  · exact walks_offerEvent s (by simp [Event.isReport, Event.isMessage])

theorem length_of_valid_ping (ht : header.type = .ping) (hv : validateFrameHeader header = .none) :
    header.length = 8 := by
  by_contra hne
  unfold validateFrameHeader at hv
  simp only [ht, FrameType.ping, FrameType.data, FrameType.headers, FrameType.priority,
    FrameType.rstStream, FrameType.settings, FrameType.pushPromise] at hv
  split_ifs at hv <;> simp_all

theorem walks_onPing (hmax : 8 ≤ max) (s : Session X) (data : Bytes) (ack : Bool) :
    Walks S max true s (s.onPing data ack) := by
  unfold onPing
  split
  · exact .refl s
  split
  · exact walks_offerEvent s (by simp [Event.isReport, Event.isMessage])
  have h : Walks S max true s (s.appendFrame { type := .ping, flags := .ack } data).1 :=
    walks_controlFrame s (.ping data true) rfl (fun _ _ hv => length_of_valid_ping rfl hv) .ping
      rfl (by decide)
  generalize s.appendFrame { type := .ping, flags := .ack } data = w at h
  obtain ⟨t, _ | err⟩ := w
  · exact h.trans (walks_offerEvent t (by simp [Event.isReport, Event.isMessage]))
  · exact h.trans (walks_connectionError hmax t _ _)

theorem walks_refuseStreams
    (hS : ∀ event : Event, event.type = .streamReset → S.shows (.queued event) = false)
    (last : ℕ) (ids : List ℕ) (s : Session X) : Walks S max true s (refuseStreams last ids s) := by
  induction ids generalizing s with
  | nil => exact .refl s
  | cons id ids ih =>
    unfold refuseStreams
    split
    · exact ih s
    split
    · exact ((walks_closeStream s id).trans (walks_queueEvent _ (hS _ rfl))).trans (ih _)
    · exact ih s

theorem walks_onGoAway (hmax : 8 ≤ max)
    (hS : ∀ event : Event, event.type = .streamReset → S.shows (.queued event) = false)
    (s : Session X) (last : ℕ) (code : ErrorCode) : Walks S max true s (s.onGoAway last code) := by
  unfold onGoAway
  split
  · exact walks_connectionError hmax s _ _
  · have h : Walks S max true s { s with
        goAwayReceived := true, peerLastStream := last, ranges := s.ranges + 1 } := .of_eq rfl rfl
    exact (h.trans (walks_refuseStreams hS last _ _)).trans
      (walks_offerEvent _ (by simp [Event.isReport, Event.isMessage]))

theorem walks_onWindowUpdate (hmax : 8 ≤ max) (hS : S.IgnoresResets (s.listed id)) (increment : ℕ) :
    Walks S max true s (s.onWindowUpdate id increment) := by
  unfold onWindowUpdate
  split
  · exact .refl s
  split
  · split
    · exact walks_connectionError hmax s _ _
    · have h : Walks S max true s
          { s with connectionSendWindow := s.connectionSendWindow + increment } := .of_eq rfl rfl
      exact h.trans (walks_offerEvent _ (by simp [Event.isReport, Event.isMessage]))
  split
  · split
    · exact walks_connectionError hmax s _ _
    · exact .refl s
  next st hst =>
  rw [listed_some hst] at hS
  split_ifs
  · exact .refl s
  · exact walks_streamError hS s _
  · have h : Walks S max true s (s.setStream id
        { st with sendWindow := st.sendWindow + increment }) :=
      walks_setStream hst (S.windows st _ st.recvWindow) rfl Iff.rfl
    exact h.trans (walks_offerEvent _ (by simp [Event.isReport, Event.isMessage]))

theorem walks_onUnknown (hmax : 8 ≤ max) (s : Session X) (header : FrameHeader)
    (fragment : Bytes) : Walks S max true s (s.onUnknown header fragment) := by
  unfold onUnknown
  split_ifs
  · exact walks_connectionError hmax s _ _
  · exact .of_eq rfl rfl
  · exact .refl s

/-- The callbacks that carry no part of a message and begin no block. -/
def Callback.isControl : Callback → Prop
  | .frameBegin header => header.type ≠ .headers
  | .frameComplete header => header.type ≠ .data
  | .data .. | .headerBlockEnd .. | .pushPromise .. => False
  | _ => True

/-- The stream that a callback can reset. -/
def target (s : Session X) : Callback → ℕ
  | .frameBegin header =>
    if header.type = .headers ∨ header.type = .data then header.streamID else 0
  | .data id _ _ => s.listed id
  | .headerBlockEnd _ _ => s.listed s.currentHeaderEventStream
  | .pushPromise _ promised => promised
  | .windowUpdate id _ => s.listed id
  | .frameComplete header => s.listed header.streamID
  | _ => 0

/-- A side that does not see resets is left alone by everything but messages. -/
theorem walks_controlDeliver (hmax : 8 ≤ max) {call : Callback}
    (hS : S.IgnoresResets (s.target call)) (h : Callback.isControl call) :
    Walks S max true s (s.deliver call) := by
  have hnote : Walks S max true s (s.note (.received call)) :=
    .noted rfl rfl (S.shows_received call)
  refine hnote.trans ?_
  change Walks S max true _ ((s.note (.received call)).handle call)
  have hS : S.IgnoresResets ((s.note (.received call)).target call) := hS
  generalize s.note (.received call) = s' at hS
  cases call with
  | frameBegin header =>
    have hframe : Walks S max true s' { s' with currentFrame := header } := .of_eq rfl rfl
    change Walks S max true s' (s'.onFrameBegin header)
    unfold onFrameBegin
    simp only
    split_ifs with h1 h2 h3 h4 h5
    · exact .refl s'
    · exact hframe.trans (walks_connectionError hmax _ _ _)
    · exact absurd h3 h
    · rw [target, if_pos (.inr h4)] at hS
      exact hframe.trans (walks_chargeData hmax hS _)
    · exact .of_eq rfl rfl
    · exact hframe
  | headerBlock id fragment => exact walks_onHeaderBlock hmax _ id fragment
  | priority id priority => exact walks_onPriority _ id priority
  | rstStream id code => exact walks_onRSTStream hmax hS.event _ id code
  | setting => exact .of_eq rfl rfl
  | settingsEnd ack => exact walks_onSettingsEnd hmax _ ack
  | ping data ack => exact walks_onPing hmax _ data ack
  | goAway last code => exact walks_onGoAway hmax hS.event _ last code
  | goAwayDebug => exact .refl _
  | windowUpdate id increment => exact walks_onWindowUpdate (s := s') hmax hS increment
  | unknown header fragment => exact walks_onUnknown hmax _ header fragment
  | frameComplete header =>
    have hcount : Walks S max true s' (s'.countFrame header) := .of_eq rfl rfl
    change Walks S max true s' (s'.onFrameComplete header)
    unfold onFrameComplete
    simp only
    split_ifs with h1 h2 h3 h4
    · exact .refl s'
    · exact hcount.trans (walks_connectionError hmax _ _ _)
    · exact absurd h3 h
    · exact hcount.trans (walks_completePriorityUpdate hmax _ _)
    · exact hcount
  | _ => exact h.elim

/-- **A callback adds packets and events, and disturbs no side that does not see what is
received.** -/
theorem walks_deliver (hmax : 8 ≤ max) {call : Callback} (hS : S.IgnoresReceives (s.target call))
    (hids : s.endpoint.IdSpace) : Walks S max true s (s.deliver call) := by
  by_cases hc : Callback.isControl call
  · exact walks_controlDeliver hmax hS.toIgnoresEvents.resets hc
  have hnote : Walks S max true s (s.note (.received call)) :=
    .noted rfl rfl (S.shows_received call)
  have hids : (s.note (.received call)).endpoint.IdSpace := hids.note (by simp)
  refine hnote.trans ?_
  have hS : S.IgnoresReceives ((s.note (.received call)).target call) := hS
  change Walks S max true _ ((s.note (.received call)).handle call)
  generalize s.note (.received call) = s' at hS hids
  cases call with
  | frameBegin header =>
    rw [target, if_pos (.inl (not_not.1 hc))] at hS
    exact walks_onFrameBegin hmax hS.reads hS.toIgnoresEvents.resets hids
  | data id data endStream => exact walks_onData hmax hS.toIgnoresEvents data endStream
  | headerBlockEnd id endStream => exact walks_onHeaderBlockEnd hmax hS id endStream
  | pushPromise id promised =>
    exact walks_onPushPromise hmax hS.reads hS.toIgnoresEvents.resets hids id
  | frameComplete header => exact walks_onFrameComplete hmax hS.toIgnoresEvents
  | _ => exact absurd trivial hc

/-- What a session does when it receives adds packets and events. -/
theorem enters_act {a : Action} (hmax : 8 ≤ max) (hids : s.endpoint.IdSpace)
    (ha : ∀ call, a ≠ .call call) : Enters max true s (s.act a) := by
  cases a with
  | call call => exact absurd rfl (ha call)
  | preface => exact .of_eq rfl
  | deliver call => exact (walks_deliver hmax blindSide_ignoresReceives hids).enters
  | parsed parser => exact .of_eq rfl
  | fail code reason =>
    exact (walks_connectionError hmax s code reason : Walks (blindSide false) _ _ _ _).enters

/-! ## Calls that send no message -/

theorem walks_finish (hmax : 8 ≤ max) (s : Session X) : Walks S max reports s s.finish.1 := by
  unfold finish
  split_ifs
  · exact .refl s
  · exact .refl s
  · exact walks_connectionError hmax s _ _
  simp only
  have h : Walks S max reports s { s with parser := s.parser.finish.1 } := .of_eq rfl rfl
  split
  · exact h.trans (walks_connectionError hmax _ _ _)
  · exact h

theorem walks_resetStream (hS : S.IgnoresReset (s.listed id)) (code : ErrorCode) :
    Walks S max reports s (s.resetStream id code).1 := by
  unfold resetStream
  split
  · exact .refl s
  next st hst =>
  rw [listed_some hst] at hS
  split
  · exact .refl s
  have henters : Enters max reports s (s.appendFrame { type := .rstStream, streamID := id }
      (putUint32 code.toNat)).1 := enters_rstStream s id code
  obtain ⟨err, h⟩ | h :=
    appendFrame_cases s { type := .rstStream, streamID := id } (putUint32 code.toNat)
  · rw [h]
    exact .refl s
  rw [h] at henters ⊢
  refine ⟨(henters.trans (enters_closeStream _ id)).trans (.noted rfl rfl), ?_⟩
  simp only
  rw [closeStream_appended]
  have hsent : Calm S (s.closeStream id) ((s.closeStream id).appended
      { type := .rstStream, streamID := id } (putUint32 code.toNat)) := by
    refine .noted (hS _ _ rfl rfl) rfl rfl rfl ?_
    rintro _ _ ⟨⟩ -
    exact fun _ => closed_of_closeStream
  exact ((calm_closeStream s id).trans hsent).trans
    (.noted (S.shows_reset _ _) rfl rfl rfl (by simp))

/-- The settings of an update that is accepted are valid. -/
theorem valid_of_foldlM {settings : List Setting} {u u' : LocalUpdate}
    (h : settings.foldlM (LocalUpdate.setting s) u = some u') :
    ∀ x ∈ settings, validSetting x = true := by
  induction settings generalizing u with
  | nil => simp
  | cons setting settings ih =>
    rw [foldlM_cons] at h
    obtain ⟨v, hv, h⟩ := Option.bind_eq_some_iff.1 h
    refine forall_mem_cons.2 ⟨?_, ih h⟩
    unfold LocalUpdate.setting at hv
    split at hv
    · cases hv
    · next hvalid => simpa using hvalid

theorem walks_adjustRecvWindows (change : ℤ) (ids : List ℕ) (s : Session X) :
    Walks S max reports s (adjustRecvWindows change ids s) := by
  induction ids generalizing s with
  | nil => exact .refl s
  | cons id ids ih =>
    unfold adjustRecvWindows
    split
    · exact ih s
    next st hst =>
    have h : Walks S max reports s (s.setStream id
        { st with recvWindow := st.recvWindow + change }) :=
      walks_setStream hst (S.windows st st.sendWindow _) rfl Iff.rfl
    exact h.trans (ih _)

theorem walks_updateSettings (hmax : s.peerMaxFrame ≤ max) (settings : List Setting) :
    Walks S max reports s (s.updateSettings settings).1 := by
  unfold updateSettings
  split
  · exact .refl s
  split
  · exact .refl s
  next hlen =>
  split
  · exact .refl s
  simp only
  split
  · exact .refl s
  next u hu =>
  split
  · exact .refl s
  split
  · exact .refl s
  next decoder hdecoder =>
  have hactive := setAllowedDynamicTableBytes_active hdecoder
  have hset : Walks S max reports s { s with decoder } :=
    .of_eq rfl (by simp only [block, hactive])
  have h := hset.trans (walks_control { s with decoder } (.settings settings) rfl
    (fun _ _ _ => ⟨valid_of_foldlM hu, by omega⟩) .settings rfl (by decide))
  change Walks S max reports s (appendSettings { s with decoder } settings false).1 at h
  generalize appendSettings { s with decoder } settings false = w at h
  obtain ⟨t, _ | err⟩ := w
  · have happly : Walks S max reports t (t.applyUpdate u) :=
      ⟨⟨keeps_applyUpdate t u, .of_eq rfl⟩, .of_eq rfl rfl rfl⟩
    exact (h.trans happly).trans (walks_adjustRecvWindows _ _ _)
  · exact h

theorem walks_goAway (hmax : s.peerMaxFrame ≤ max) (height : 8 ≤ max) (code : ErrorCode)
    (debug : Bytes) : Walks S max reports s (s.goAway code debug).1 := by
  unfold goAway
  split
  · exact .refl s
  simp only
  have h : Walks S max reports s (s.appendFrame { type := .goAway }
      (putUint32 s.lastProcessedPeerStream ++ putUint32 code.toNat ++
        debug.take (s.peerMaxFrame - 8))).1 := by
    refine walks_controlFrame s (.goAway s.lastProcessedPeerStream code _) rfl (fun _ _ _ => ?_)
      .goAway rfl (by decide)
    change 8 + (debug.take (s.peerMaxFrame - 8)).length ≤ max
    rw [length_take]
    omega
  generalize s.appendFrame { type := .goAway } _ = w at h
  obtain ⟨t, _ | err⟩ := w
  · exact h.trans (.of_eq rfl rfl)
  · exact h

theorem walks_priorityUpdate (hmax : s.peerMaxFrame ≤ max) (height : 8 ≤ max) (id : ℕ)
    (value : Bytes) : Walks S max reports s (s.priorityUpdate id value).1 := by
  unfold priorityUpdate
  split
  · exact .refl s
  · refine walks_controlFrame s (.priorityUpdate id value) rfl (fun _ _ _ => ?_) .priorityUpdate
      rfl (by decide)
    change 4 + value.length ≤ max
    omega

theorem walks_ping (s : Session X) (data) :
    Walks S max reports s (s.ping data).1 :=
  walks_controlFrame s (.ping data.toList false) rfl (fun _ _ _ => data.size_toArray) .ping rfl
    (by decide)

variable {call : Call}

theorem calm_controlCall (hS : S.IgnoresReset (s.callTarget call)) (h : Call.isControl call) :
    Calm S s (s.call call) := by
  have height : 8 ≤ s.peerMaxFrame + 8 := Nat.le_add_left 8 _
  have hmax : s.peerMaxFrame ≤ s.peerMaxFrame + 8 := Nat.le_add_right _ 8
  cases call with
  | finish => exact (walks_finish height s : Walks S _ true _ _).calm
  | consumeOutput n =>
    change Calm S s (s.consumeOutput n).1
    unfold consumeOutput
    split <;> exact .of_eq rfl rfl rfl
  | nextEvent =>
    change Calm S s s.nextEvent.1
    unfold nextEvent
    split <;> exact .of_eq rfl rfl rfl
  | priorityUpdate id value =>
    exact (walks_priorityUpdate hmax height id value : Walks S _ true _ _).calm
  | resetStream id code => exact (walks_resetStream hS code : Walks S 0 true _ _).calm
  | updateSettings settings => exact (walks_updateSettings hmax settings : Walks S _ true _ _).calm
  | ping data => exact (walks_ping s data : Walks S 8 true _ _).calm
  | goAway code debug => exact (walks_goAway hmax height code debug : Walks S _ true _ _).calm
  | close => exact calm_close s
  | openStream | pushPromise | sendHeaders | sendData => exact h.elim

/-! ## Calls that send messages -/

theorem walks_localEnd (s : Session X) (id : ℕ) : Walks S max reports s (s.localEnd id) := by
  refine ⟨?_, calm_localEnd s id⟩
  unfold localEnd
  split
  · exact .refl s
  next st hst =>
  split
  · next h => exact enters_setStream hst rfl (by simp [h])
  · exact enters_closeStream s id
  · next h => exact enters_setStream hst rfl (by simp [h])
  · exact .refl s

theorem sentFrames_map_sentEntry (frames : List (FrameHeader × Bytes)) :
    sentFrames (frames.map sentEntry) = frames.map withLength := by
  induction frames with
  | nil => rfl
  | cons frame frames ih => exact congrArg _ ih

/-- The frames of a section. -/
theorem walks_sentSection (hS : S.IgnoresFrames) {headers : List HeaderField} {endStream : Bool}
    (p : Packet) (hp : p.frames = s.sectionFrames frameType id promised headers endStream)
    (hfits : p.Fits max) (ht : frameType.beginsBlock) (hroom : s.reserveOutput (frameOctets
      (s.sectionFrames frameType id promised headers endStream)) = true) :
    Walks S max reports s (s.sentSection frameType id promised headers endStream) := by
  have hcarries : ∀ frame ∈ s.sectionFrames frameType id promised headers endStream,
      frame.1.type ≠ .rstStream := fun frame hf hr => by
    have hb := carriesBlock_blockFrames ht _ _ _ frame hf
    simp only [FrameHeader.carriesBlock, hr] at hb
    exact absurd hb (by decide)
  unfold sentSection
  generalize s.sectionFrames frameType id promised headers endStream = frames at *
  have hevents : queuedEvents (frames.map sentEntry) = [] := by
    rw [queuedEvents, flatMap_map]
    exact flatMap_eq_nil_iff.2 fun _ _ => rfl
  refine ⟨⟨fun hb => { hb with output := ?_ }, frames.map sentEntry, ⟨rfl, ?_, ?_⟩, fun _ => hevents,
    [p], by simpa using hfits, ?_⟩, ⟨fun id st hst => .inl ⟨st, hst, S.refl st⟩, ?_,
    prefix_append _ _, fun _ => rfl, .of_new rfl ?_⟩⟩
  · have hnine (h : FrameHeader) : (frameHeaderBytes h).length = 9 := rfl
    have hroom : ((frameOctets frames : ℕ) : ℤ) ≤ _ := (of_decide_eq_true hroom : _ ∧ _).2
    rw [frameOctets] at hroom
    change (s.output ++ frames.flatMap _).length ≤ s.limits.maxQueuedOutputBytes.toNat
    simp only [length_append, length_flatMap, hnine]
    omega
  · rw [hevents, append_nil]
    rfl
  · rw [sentFrames_map_sentEntry, flatMap_map]
    rfl
  · rw [sentFrames_map_sentEntry, flatMap_singleton, hp]
  · change (s.history ++ frames.map sentEntry).filter S.shows = _
    rw [filter_append, shown, append_right_eq_self, filter_eq_nil_iff]
    rintro _ ho
    obtain ⟨frame, hf, rfl⟩ := mem_map.1 ho
    exact Bool.eq_false_iff.1 (hS.sent _ _ (hcarries frame hf))
  · intro header payload ho hr
    obtain ⟨frame, hf, heq⟩ := mem_map.1 ho
    cases heq
    exact absurd hr (hcarries frame hf)

theorem closed_sendSection (st : Stream) (m : HeaderSectionMetadata) :
    (Stream.sendSection st m).isLocal = st.isLocal ∧
      ((Stream.sendSection st m).state = .closed ↔ st.state = .closed) := by
  unfold Stream.sendSection
  simp only
  split_ifs <;> simp_all

/-- A section that is not sent leaves the streams alone. -/
theorem walks_sendHeaders (hS : S.IgnoresSends) (hmax : s.FrameRange)
    (hids : ∀ st, s.stream? id = some st → id < 2 ^ 31 ∧ id ≠ 0) (headers : List HeaderField)
    (endStream : Bool) :
    Walks S s.peerMaxFrame reports s (s.sendHeaders id headers endStream).1 ∧
      ((s.sendHeaders id headers endStream).2 ≠ none →
        (s.sendHeaders id headers endStream).1.streams = s.streams) := by
  obtain ⟨encoder, block, err, h, -⟩ | ⟨-, hroom, st, hcheck, h⟩ :=
    sendHeaders_cases headers endStream hmax hids
  · rw [h]
    exact ⟨.of_eq rfl rfl, fun _ => rfl⟩
  rw [h]
  refine ⟨?_, fun hne => absurd rfl hne⟩
  obtain ⟨hst, hsend⟩ := checkSendHeaders_ok hcheck
  obtain ⟨hid, hz⟩ := hids st hst
  obtain ⟨hl, hc⟩ := closed_sendSection st (inspectHeaderSection headers)
  have hset : Walks S s.peerMaxFrame reports s
    ((s.sentSection .headers id 0 headers endStream).setStream id
      (Stream.sendSection st (inspectHeaderSection headers))) :=
    (walks_sentSection hS.toIgnoresFrames (.headers id endStream s.peerMaxFrame _) rfl
      ⟨hz, hid, hmax.lt, le_rfl⟩ (.inl rfl) hroom).trans
      (walks_setStream hst (hS.sends st _ hsend) hl hc)
  change Walks _ _ _ s (if endStream then _ else _)
  split
  · exact hset.trans (walks_localEnd _ id)
  · exact hset

theorem stream_nextLocal (hids : s.endpoint.IdSpace) : s.stream? s.nextLocalStream = none := by
  by_contra hne
  obtain ⟨st, hst⟩ := Option.ne_none_iff_exists'.1 hne
  exact not_opened_nextLocal hids (hids.opened _ st hst).1

theorem walks_openStream (hS : S.IgnoresSends) (hmax : s.FrameRange)
    (hids : s.endpoint.IdSpace) (headers : List HeaderField) (endStream : Bool) :
    Walks S s.peerMaxFrame reports s (s.openStream headers endStream).1 := by
  unfold openStream
  split_ifs with h1 h2 h3 h4 h5
  all_goals try exact .refl s
  have hadd : Walks S s.peerMaxFrame reports s s.addLocal :=
    ⟨⟨fun hb => hb.add (s.freshStream .open true) (stream_nextLocal hids) (Nat.lt_of_not_le h5)
      (by simp [freshStream]), (queues_addStream s s.nextLocalStream _).trans (.of_eq rfl)⟩,
      (calm_addStream (not_opened_nextLocal hids) (S.fresh_new _ _ _ _)).trans (.of_eq rfl rfl rfl)⟩
  have hid : s.nextLocalStream < 2 ^ 31 ∧ s.nextLocalStream ≠ 0 := by
    unfold maxInt32 at h3
    omega
  obtain ⟨h, herr⟩ := walks_sendHeaders (s := s.addLocal) hS hmax (fun _ _ => hid) headers endStream
  simp only
  generalize s.addLocal.sendHeaders s.nextLocalStream headers endStream = w at h herr
  obtain ⟨t, _ | err⟩ := w
  · exact hadd.trans h
  · have hst : t.stream? s.nextLocalStream = some (s.freshStream .open true) := by
      rw [stream?, herr (by simp)]
      exact AList.lookup_insert _
    have h := hadd.trans h
    exact ⟨⟨fun hb => (h.enters.keeps hb).drop hst rfl (by simp [freshStream]),
      h.enters.queues.trans (.of_eq rfl)⟩, h.calm.trans (calm_erase t _ _)⟩

theorem walks_pushPromise (hS : S.IgnoresSends) (hmax : s.FrameRange)
    (hspace : s.endpoint.IdSpace) {parent : ℕ}
    (hids : ∀ st, s.stream? parent = some st → parent < 2 ^ 31 ∧ parent ≠ 0)
    (headers : List HeaderField) :
    Walks S s.peerMaxFrame reports s (s.pushPromise parent headers).1 := by
  unfold pushPromise
  split_ifs with h1 h2 h3 h4 h5 h6
  all_goals try exact .refl s
  obtain ⟨st, hst, -⟩ := Option.any_eq_true .. |>.1 (by simpa using h2)
  obtain ⟨hid, hz⟩ := hids st hst
  have hpromised : s.nextLocalStream ≠ 0 ∧ s.nextLocalStream < 2 ^ 31 := by
    unfold maxInt32 at h3
    omega
  have hnext : Walks S s.peerMaxFrame reports s
      { s with nextLocalStream := s.nextLocalStream + 2 } := .of_eq rfl rfl
  obtain ⟨encoder, block, err, h, -⟩ | ⟨-, hroom, h⟩ := encodeAndAppendHeaders_cases
    (s := { s with nextLocalStream := s.nextLocalStream + 2 }) s.nextLocalStream headers false
    (.inr rfl) hmax hid hz
  · simp only [h]
    exact .of_eq rfl rfl
  simp only [h]
  have hsent := hnext.trans (walks_sentSection hS.toIgnoresFrames
    (.pushPromise parent s.nextLocalStream s.peerMaxFrame _) rfl
    ⟨hz, hid, hpromised.1, hpromised.2, hmax.lt, le_rfl⟩ (.inr rfl) hroom)
  have hnew : Obs.opened s.nextLocalStream ∉ (sentSection
      { s with nextLocalStream := s.nextLocalStream + 2 } .pushPromise parent s.nextLocalStream
        headers false).history := by
    simp [sentSection, appendedAll, sentEntry, not_opened_nextLocal hspace]
  exact ⟨⟨fun hb => (hsent.enters.keeps hb).add { s.freshStream .reservedLocal true with
    method := (inspectHeaderSection headers).method } (stream_nextLocal hspace)
    (Nat.lt_of_not_le h5) (by simp [freshStream]),
    hsent.enters.queues.trans ((queues_addStream _ _ _).trans (.of_eq rfl))⟩,
    hsent.calm.trans ((calm_addStream hnew (hS.promised _ _ _ _ _)).trans (.of_eq rfl rfl rfl))⟩

theorem walks_sendData (hS : S.IgnoresFrames) (s : Session X) (id : ℕ) (src : Bytes)
    (endStream : Bool) : Walks S s.peerMaxFrame reports s (s.sendData id src endStream).1 := by
  have happend (payload : Bytes) (last : Bool) (hlen : payload.length ≤ s.peerMaxFrame) :
      Walks S s.peerMaxFrame reports s (s.appendFrame (dataHeader id last) payload).1 :=
    ⟨enters_appendFrame (.data id payload last) rfl fun hid _ hv =>
      ⟨streamID_ne_zero_of_valid hv (.inl rfl), hid, hlen⟩,
      calm_appendFrame (hS.sent _ _ (show FrameType.data ≠ _ by decide)) nofun⟩
  have hsends := sendsData s id src endStream
  generalize s.sendData id src endStream = r at hsends
  cases hsends with
  | nothing => exact .refl s
  | empty _ _ sent =>
    have h := happend [] true (Nat.zero_le _)
    rw [sent] at h
    exact h.trans (walks_localEnd _ id)
  | @data st payload last checked _ size _ _ _ sent =>
    have h := happend payload last size
    rw [sent] at h
    have hst : (s.appended (dataHeader id last) payload).stream? id = some st :=
      (checkSendData_ok checked).1
    generalize s.appended (dataHeader id last) payload = t at h hst
    have hconn : Walks S s.peerMaxFrame reports t
        { t with connectionSendWindow := t.connectionSendWindow - payload.length } := .of_eq rfl rfl
    have hset : Walks S s.peerMaxFrame reports s (t.charged id st payload.length) :=
      h.trans (hconn.trans (walks_setStream hst (hS.body st _ _) rfl Iff.rfl))
    change Walks _ _ _ s (if last then _ else _)
    split
    · exact hset.trans (walks_localEnd _ id)
    · exact hset

/-- The calls that drain a queue. -/
def Call.drains : Call → Prop
  | .consumeOutput _ | .nextEvent | .close => True
  | _ => False

/-- **A call that drains no queue adds packets and events, and disturbs no side that does not see
what is sent.** -/
theorem walks_call (hS : S.IgnoresSends) (hr : S.IgnoresReset (s.callTarget call))
    (hids : s.endpoint.IdSpace) (hb : Bounded s.endpoint) (h : ¬Call.drains call) :
    Walks S s.peerMaxFrame reports s (s.call call) := by
  have hmax : 16384 ≤ s.peerMaxFrame ∧ s.peerMaxFrame ≤ 16777215 := hb.maxFrame
  have height : 8 ≤ s.peerMaxFrame := by omega
  have hid (id : ℕ) (st : Stream) (hst : s.stream? id = some st) : id < 2 ^ 31 ∧ id ≠ 0 :=
    hb.id_of_stream hids hst
  cases call with
  | finish => exact walks_finish height s
  | consumeOutput | nextEvent | close => exact absurd trivial h
  | openStream headers endStream => exact walks_openStream hS hmax hids headers endStream
  | pushPromise parent headers => exact walks_pushPromise hS hmax hids (hid parent) headers
  | priorityUpdate id value => exact walks_priorityUpdate le_rfl height id value
  | sendHeaders id headers endStream =>
    exact (walks_sendHeaders hS hmax (hid id) headers endStream).1
  | sendData id src endStream => exact walks_sendData hS.toIgnoresFrames s id src endStream
  | resetStream id code => exact walks_resetStream hr code
  | updateSettings settings => exact walks_updateSettings le_rfl settings
  | ping data => exact walks_ping s data
  | goAway code debug => exact walks_goAway le_rfl height code debug

theorem enters_call (hw : s.WellFormed) (hb : Bounded s.endpoint) (h : ¬Call.drains call) :
    Enters s.peerMaxFrame reports s (s.call call) :=
  (walks_call blindSide_ignoresSends blindSide_ignoresEvents.frame hw.ids hb h :
    Walks (blindSide false) _ _ _ _).enters

/-- **No call disturbs a side that does not see what is sent.** -/
theorem calm_call (hS : S.IgnoresSends) (hr : S.IgnoresReset (s.callTarget call))
    (hids : s.endpoint.IdSpace) (hb : Bounded s.endpoint) : Calm S s (s.call call) := by
  by_cases h : Call.drains call
  · exact calm_controlCall hr (by cases call <;> trivial)
  · exact (walks_call hS hr hids hb h : Walks S _ true _ _).calm

/-! ## Operations -/

/-- What holds of a session between operations. -/
structure Steady (s : Session X) : Prop where
  wellFormed : s.WellFormed
  sound : s.Sound
  bounded : Bounded s.endpoint

theorem steady_newSession {role : Role} {limits : SessionLimits}
    (h : newSession X role limits = .ok s) : s.Steady := by
  obtain ⟨hw, hs⟩ := wellFormed_newSession h
  refine ⟨hw, hs, ?_⟩
  obtain ⟨output, header, payload, -, rfl⟩ := newSession_ok h
  exact ⟨by simp [endpoint, init], by simp [endpoint]⟩

theorem Steady.op (h : s.Steady) (o : Op) : (s.op o).Steady := by
  obtain ⟨hg, hw, hs⟩ := guarded_opActions o ⟨h.wellFormed, h.sound⟩
  refine ⟨hw, hs, ?_⟩
  rw [expands_opActions s o]
  exact (hg.invariant (I := fun t => t.WellFormed ∧ Bounded t.endpoint)
    (fun t a hI ha => ⟨hI.1.act ha, bounded_act hI.1 ha hI.2⟩) ⟨h.wellFormed, h.bounded⟩).2

/-- **The reception of octets adds packets and events.** -/
theorem Steady.feed (h : s.Steady) (hmax : 8 ≤ max) (src : Bytes) :
    Queues max true s (s.op (.feed src)) := by
  have hcalls : Guarded act (fun (_ : Session X) a => ∀ call, a ≠ .call call) s
      (s.opActions (.feed src)) := guarded_of_forall fun a => mem_feedActions
  obtain ⟨hg, -⟩ := guarded_opActions (.feed src) ⟨h.wellFormed, h.sound⟩
  rw [expands_opActions s (.feed src)]
  exact ((hg.and hcalls).invariant (I := fun t => t.WellFormed ∧ Queues max true s t)
    (fun t a hI ha => ⟨hI.1.act ha.1, hI.2.trans (enters_act hmax hI.1.ids ha.2).queues⟩)
    ⟨h.wellFormed, .refl s⟩).2

/-- **An operation that drains no queue adds packets and events.** -/
theorem Steady.queues (h : s.Steady) {o : Op} (ho : ∀ call, o = .call call → ¬Call.drains call) :
    Queues s.peerMaxFrame true s (s.op o) := by
  have hmax : 16384 ≤ s.peerMaxFrame ∧ s.peerMaxFrame ≤ 16777215 := h.bounded.maxFrame
  cases o with
  | call call => exact (enters_call h.wellFormed h.bounded (ho call rfl)).queues
  | feed src => exact h.feed (by omega) src

/-! ## The books -/

theorem closed_step {e₀ e e' : Endpoint X} (hs : Endpoint.Step a e₀ e e') (h : e.closed = true) :
    e'.closed = true := by
  cases hs <;> first | exact h | rfl

/-- A session that has been closed stays so. -/
theorem closed_of_act (hw : s.WellFormed) (ha : s.Allows a) (h : (s.act a).closed = false) :
    s.closed = false := by
  by_contra hc
  have hsome : s.endpoint.closed = true := Bool.not_eq_false _ |>.mp hc
  have : (s.act a).closed = true := (hw.reaches ha).invariant closed_step hsome
  simp [h] at this

theorem balanced_act (hw : s.WellFormed) (ha : s.Allows a) (hbound : Bounded s.endpoint)
    (hb : s.closed = false → s.registry.Balanced) (hopen : (s.act a).closed = false) :
    (s.act a).registry.Balanced := by
  have hb := hb (closed_of_act hw ha hopen)
  cases a with
  | call call =>
    by_cases hd : Call.drains call
    · cases call with
      | consumeOutput n => exact keeps_consumeOutput s n hb
      | nextEvent => exact keeps_nextEvent s hb
      | close =>
        change s.close.closed = false at hopen
        unfold close at hopen
        split at hopen
        · next hc => exact absurd (hc.symm.trans hopen) (by simp)
        · cases hopen
      | _ => exact hd.elim
    · have h : Enters s.peerMaxFrame true s (s.call call) := enters_call hw hbound hd
      exact h.keeps hb
  | preface | parsed => exact hb
  | deliver call =>
    exact (enters_act le_rfl hw.ids (a := .deliver call) nofun).keeps hb
  | fail code reason =>
    exact (enters_act le_rfl hw.ids (a := .fail code reason) nofun).keeps hb

/-- **The books balance.** After any run of calls and received octets, a session that has not been
closed has its table, counters, lists and queues in agreement and within their bounds. -/
theorem registry_balanced {role : Role} {limits : SessionLimits} {ops : List Op}
    (hnew : newSession X role limits = .ok s) (hopen : (s.run ops).closed = false) :
    (s.run ops).registry.Balanced :=
  (run_always
    (I := fun s => Bounded s.endpoint ∧ (s.closed = false → s.registry.Balanced)) hnew
    ⟨(steady_newSession hnew).bounded, fun _ => balanced_newSession hnew⟩
    (fun _ _ hw ha h => ⟨bounded_act hw ha h.1, balanced_act hw ha h.1 h.2⟩) ops).2 hopen

/-- Three requests, of which two are reset. -/
def resetTwo : List Op :=
  [.call (.openStream SmallHpack.getRequest false), .call (.openStream SmallHpack.getRequest false),
    .call (.openStream SmallHpack.getRequest true), .call (.resetStream 1 .cancel),
    .call (.resetStream 3 .cancel)]

/-- A client that retains one closed stream opens three and resets two of them. -/
theorem registry_balanced_client :
    ∃ s, newSession SmallHpack.externals .client { maxClosedStreams := 1 } = .ok s ∧
      (s.run resetTwo).streamCount = 2 ∧ (s.run resetTwo).closedStreams = [3] ∧
        (s.run resetTwo).registry.Balanced := by
  obtain ⟨s, hnew, hcount, hclosed, hopen⟩ := exists_newSession (X := SmallHpack.externals)
    (r := .client) (l := { maxClosedStreams := 1 }) (p := fun s =>
      (s.run resetTwo).streamCount = 2 ∧ (s.run resetTwo).closedStreams = [3] ∧
        (s.run resetTwo).closed = false) (by decide +kernel)
  exact ⟨s, hnew, hcount, hclosed, registry_balanced hnew hopen⟩

/-! ## The events that are taken -/

/-- The event that an operation takes. -/
def taken (s : Session X) : Op → List Event
  | .call .nextEvent => s.nextEvent.2.toList
  | _ => []

/-- The events that are taken in a run. -/
def yielded (s : Session X) : List Op → List Event
  | [] => []
  | o :: ops => s.taken o ++ (s.op o).yielded ops

/-- A closed session has no events, whatever comes. -/
theorem yielded_closed {ops : List Op} (h : s.Steady) (hc : s.closed = true)
    (he : s.events = []) : s.yielded ops = [] := by
  induction ops generalizing s with
  | nil => rfl
  | cons o ops ih =>
    have hclosed : (s.op o).closed = true ∧ (s.op o).events = [] := by
      cases o with
      | feed src => simp [op, feed, hc, he]
      | call call =>
        have hact : (s.act (.call call)).closed = true :=
          (h.wellFormed.reaches (a := .call call) trivial).invariant closed_step hc
        refine ⟨hact, ?_⟩
        by_cases hd : Call.drains call
        · cases call with
          | consumeOutput n =>
            change (s.consumeOutput n).1.events = []
            unfold consumeOutput
            split <;> exact he
          | nextEvent => simp [op, call, nextEvent, he]
          | close => simp [op, call, close, hc, he]
          | _ => exact hd.elim
        · have hcall : Queues s.peerMaxFrame false s (s.call call) :=
            (enters_call h.wellFormed h.bounded hd).queues
          obtain ⟨new, hlog, hq, -⟩ := hcall
          change (s.call call).events = []
          rw [hlog.events, he, hq rfl, append_nil]
    have htaken : s.taken o = [] := by
      unfold taken
      split
      · simp [nextEvent, he]
      · rfl
    rw [yielded, htaken, ih (h.op o) hclosed.1 hclosed.2, append_nil]

theorem history_run (h : s.Steady) (ops : List Op) : s.history <+: (s.run ops).history := by
  induction ops generalizing s with
  | nil => exact prefix_rfl
  | cons o ops ih =>
    refine List.IsPrefix.trans ?_ (ih (h.op o))
    obtain ⟨hg, -⟩ := guarded_opActions o ⟨h.wellFormed, h.sound⟩
    rw [expands_opActions s o]
    exact (hg.invariant (I := fun t => t.WellFormed ∧ s.history <+: t.history)
      (fun t a hI ha => ⟨hI.1.act ha, hI.2.trans (hI.1.reaches ha).history⟩)
      ⟨h.wellFormed, prefix_rfl⟩).2

/-- Only `Close` closes a session. -/
theorem closed_op {o : Op} (h : s.Steady) (ho : o ≠ .call .close) : (s.op o).closed = s.closed := by
  have hstep {a : Action} (ha : a ≠ .call .close) {e₀ e e' : Endpoint X} (hs : Step a e₀ e e') :
      e'.closed = e.closed := by
    cases hs with
    | closeAll hc => exact absurd hc ha
    | _ => rfl
  have hact : ∀ a ∈ s.opActions o, a ≠ .call .close := by
    rintro a hmem rfl
    cases o with
    | call call =>
      cases mem_singleton.1 hmem
      exact ho rfl
    | feed src => exact mem_feedActions hmem _ rfl
  obtain ⟨hg, -⟩ := guarded_opActions o ⟨h.wellFormed, h.sound⟩
  rw [expands_opActions s o]
  exact ((hg.and (guarded_of_forall hact)).invariant
    (I := fun t => t.WellFormed ∧ t.closed = s.closed)
    (fun t a hI ha => ⟨hI.1.act ha.1,
      ((hI.1.reaches ha.1).invariant (I := fun e => e.closed = t.closed)
        (fun hs he => (hstep ha.2 hs).trans he) rfl).trans hI.2⟩) ⟨h.wellFormed, rfl⟩).2

/-- What an operation does to the queue of events: it takes from the front what it yields and adds
to the back what it reports. -/
theorem events_op {o : Op} (h : s.Steady) (ho : o ≠ .call .close) :
    ∃ new, s.events ++ new = s.taken o ++ (s.op o).events ∧
      queuedEvents (s.op o).history = queuedEvents s.history ++ new := by
  by_cases hd : ∃ call, o = .call call ∧ Call.drains call
  · obtain ⟨call, rfl, hd⟩ := hd
    refine ⟨[], ?_⟩
    cases call with
    | consumeOutput n =>
      simp only [op, Session.call, consumeOutput, taken]
      split <;> simp
    | nextEvent =>
      simp only [op, Session.call, nextEvent, taken]
      split <;> simp_all
    | close => exact absurd rfl ho
    | _ => exact hd.elim
  · have hd (call : Call) (hc : o = .call call) : ¬Call.drains call := fun hdr => hd ⟨call, hc, hdr⟩
    obtain ⟨new, hlog, -⟩ := h.queues hd
    refine ⟨queuedEvents new, ?_, ?_⟩
    · have htaken : s.taken o = [] := by
        unfold taken
        split
        · exact absurd trivial (hd _ rfl)
        · rfl
      rw [htaken, nil_append, hlog.events]
    · rw [hlog.history, queuedEvents, flatMap_append, queuedEvents, queuedEvents]

/-- **The events are taken in the order in which they are queued.** -/
theorem yielded_prefix (ops : List Op) (h : s.Steady) (hc : s.closed = true → s.events = []) :
    s.yielded ops <+:
      s.events ++ (queuedEvents (s.run ops).history).drop (queuedEvents s.history).length := by
  induction ops generalizing s with
  | nil => exact nil_prefix
  | cons o ops ih =>
    by_cases hclosed : s.closed = true
    · rw [yielded_closed h hclosed (hc hclosed)]
      exact nil_prefix
    by_cases ho : o = .call .close
    · subst ho
      have hnone : (s.op (.call .close)).yielded ops = [] :=
        yielded_closed (h.op _) (by simp [op, call, close, hclosed])
          (by simp [op, call, close, hclosed])
      rw [yielded, hnone]
      exact nil_prefix
    · obtain ⟨new, htaken, hqueued⟩ := events_op h ho
      obtain ⟨rest, hrest⟩ := history_run (h.op o) ops
      have hih := ih (h.op o) fun hc' => absurd ((closed_op h ho).symm.trans hc') hclosed
      have hall : queuedEvents (s.run (o :: ops)).history =
          queuedEvents s.history ++ new ++ queuedEvents rest := by
        rw [← hqueued]
        change queuedEvents ((s.op o).run ops).history = _
        rw [← hrest, queuedEvents, flatMap_append, queuedEvents, queuedEvents]
      have hall' : queuedEvents ((s.op o).run ops).history =
          queuedEvents (s.op o).history ++ queuedEvents rest := by
        rw [hqueued]
        exact hall
      rw [hall', drop_left] at hih
      rw [hall, append_assoc, drop_left, yielded, ← append_assoc, htaken,
        append_assoc]
      exact (prefix_append_right_inj _).2 hih

end Session

end WagoHttp.Http2
