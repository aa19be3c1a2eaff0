import WagoHttp.Http2.Session.Inbound

/-!
# The calls of a session's owner

`NewSession` and the operations of the owner: draining output and events, opening streams and
pushing, sending headers and data, resetting streams, changing settings, and shutting down. `Call`
lists them, with their arguments.
-/

namespace WagoHttp.Http2

variable {X : Externals}

/-! ## Creation -/

def boolSetting (value : Bool) : UInt32 := if value then 1 else 0

def clampUint64To32 (value : UInt64) : UInt32 :=
  if value.toNat > 2 ^ 32 - 1 then 0xffffffff else UInt32.ofNat value.toNat

/-- The settings of the first SETTINGS frame. Only clients send SETTINGS_ENABLE_PUSH. -/
def initialSettings (role : Role) (limits : SessionLimits) : List Setting :=
  [{ id := .headerTableSize, value := limits.header.maxDynamicTableBytes }] ++
  (match role with
    | .client => [{ id := .enablePush, value := boolSetting limits.enablePush }]
    | .server => []) ++
  [{ id := .maxConcurrentStreams, value := limits.maxConcurrentStreams },
    { id := .initialWindowSize, value := limits.initialWindowSize },
    { id := .maxFrameSize, value := limits.frame.maxFrameSize },
    { id := .maxHeaderListSize, value := clampUint64To32 limits.header.maxHeaderListBytes },
    { id := .enableConnectProtocol, value := boolSetting limits.enableExtendedConnect },
    { id := .noRFC7540Priorities, value := 1 }]

namespace Session

/-- A session before `start`. -/
def init (X : Externals) (role : Role) (limits : SessionLimits) : Session X :=
  let limits := limits.normalized
  { role, limits
    caps := limits
    parser := newParser limits.frame
    decoder := HeaderDecoder.new X limits.header
    encoder := X.setMaxDynamicTableSizeLimit defaultMaxDynamicTableBytes X.newEncoder
    nextLocalStream := match role with
      | .client => 1
      | .server => 2
    localHeaderTable := limits.header.maxDynamicTableBytes
    connectionRecvWindow := limits.initialWindowSize.toNat }

/-- Queue the preface of a client. -/
def startPreface (s : Session X) : Except SessionError (Session X) :=
  match s.role with
  | .client =>
    if !s.reserveOutput clientPreface.length then .error .outputLimit
    else .ok { s with output := s.output ++ clientPreface }
  | .server => .ok s

/-- Queue the preface and the first SETTINGS frame. -/
def start (s : Session X) : Except SessionError (Session X) :=
  match s.startPreface with
  | .error err => .error err
  | .ok s =>
    match s.appendSettings (initialSettings s.role s.limits) false with
    | (_, some err) => .error err
    | (s, none) =>
      .ok { s with localSettingsOutstanding := (s.localSettingsOutstanding + 1) % 2 ^ 32 }

end Session

/-- Create and start a session. -/
def newSession (X : Externals) (role : Role) (limits : SessionLimits) :
    Except SessionError (Session X) := (Session.init X role limits).start

namespace Session

variable (s : Session X)

/-! ## Draining -/

/-- Drop octets of the output that have been written to the transport. -/
def consumeOutput (n : ℕ) : Session X × Option SessionError :=
  if n > s.output.length then (s, some .shortBuffer)
  else ({ s with output := s.output.drop n }, none)

/-- Take the oldest event. -/
def nextEvent : Session X × Option Event :=
  match s.events with
  | [] => (s, none)
  | event :: events =>
    ({ s with events, eventBytes := sub32 s.eventBytes (eventRetainedBytes event) }, some event)

/-! ## Header blocks -/

/-- Encode the fields of a section into a block of at most `limit` octets. The result is the
encoder, the block, and whether every field was written. -/
def encodeFields (X : Externals) (limit : ℤ) :
    List HeaderField → X.Encoder → Bytes → X.Encoder × Bytes × Bool
  | [], encoder, block => (encoder, block, true)
  | field :: fields, encoder, block =>
    let (encoder, src) := X.writeField field encoder
    if (src.length : ℤ) > limit - block.length then (encoder, block, false)
    else encodeFields X limit fields encoder (block ++ src)

/-- The octets before the fragment of a frame: the promised stream in the first frame of a
PUSH_PROMISE block. -/
def blockPromise (frameType : FrameType) (promisedID : ℕ) (first : Bool) : Bytes :=
  if first ∧ frameType = .pushPromise then putUint32 promisedID else []

def blockFlags (frameType : FrameType) (endStream first last : Bool) : Flags :=
  (if last then .endHeaders else 0) |||
    if first ∧ endStream ∧ frameType = .headers then .endStream else 0

/-- The frames that carry a block: the first of type `frameType`, then CONTINUATION frames. The
recursion is on a bound of the number of frames. -/
def blockFrames (frameType : FrameType) (streamID promisedID : ℕ) (endStream : Bool)
    (peerMaxFrame : ℕ) : ℕ → Bool → Bytes → List (FrameHeader × Bytes)
  | 0, _, _ => []
  | fuel + 1, first, block =>
    if first ∨ block ≠ [] then
      let promise := blockPromise frameType promisedID first
      let count := min block.length (peerMaxFrame - promise.length)
      let header : FrameHeader :=
        { type := if first then frameType else .continuation
          flags := blockFlags frameType endStream first (count == block.length), streamID }
      (header, promise ++ block.take count) ::
        blockFrames frameType streamID promisedID endStream peerMaxFrame fuel false
          (block.drop count)
    else []

/-- Append frames up to the first error. -/
def appendFrames : List (FrameHeader × Bytes) → Session X → Session X × Option SessionError
  | [], s => (s, none)
  | (header, payload) :: frames, s =>
    match s.appendFrame header payload with
    | (s, some err) => (s, some err)
    | (s, none) => appendFrames frames s

/-- The most octets of a block, `int(MaxHeaderListBytes)`: a bound of `2 ^ 63` or more is negative. -/
def maxBlock : ℤ := s.limits.header.maxHeaderListBytes.toInt64.toInt

/-- The octets that are reserved for a block: the block itself and the headers of its frames. -/
def blockReserve : ℤ :=
  s.maxBlock + (s.maxBlock.tdiv s.peerMaxFrame + 2) * 9 + 4

def encodeAndAppendHeaders (frameType : FrameType) (streamID promisedID : ℕ)
    (headers : List HeaderField) (endStream : Bool) : Session X × Option SessionError :=
  if !s.reserveOutput s.blockReserve then (s, some .wouldBlock)
  else
    let (encoder, block, ok) := encodeFields X s.maxBlock headers s.encoder []
    let s := { s with encoder, headerBlock := block }
    if !ok then (s, some .outputLimit)
    else
      appendFrames
        (blockFrames frameType streamID promisedID endStream s.peerMaxFrame (block.length + 1)
          true block) s

/-! ## Streams -/

/-- What the checks of `SendHeaders` establish: the stream and what its section says. -/
def checkSendHeaders (streamID : ℕ) (headers : List HeaderField)
    (endStream : Bool) : Except SessionError Stream :=
  match s.ready with
  | some err => .error err
  | none =>
    match s.stream? streamID with
    | none => .error .streamNotFound
    | some st =>
      let m := inspectHeaderSection headers
      let projectedNoBody := m.noBody || (st.method == ascii "HEAD" && m.response)
      if !canSend st.state || st.sentTrailers then .error .streamState
      else if st.sentHeaders && !endStream then .error .invalidHeaders
      else if !validateHeaderSection s.role true st.sentHeaders headers
          s.limits.enableExtendedConnect then .error .invalidHeaders
      else if m.informational && (st.sentHeaders || endStream) then .error .invalidHeaders
      else if !m.informational && m.noBody && !endStream then .error .invalidHeaders
      else if endStream && m.hasContentLength && !projectedNoBody &&
          m.contentLength != st.sendBody then .error .invalidHeaders
      else .ok st

/-- The stream after its section has been sent. -/
def Stream.sendSection (st : Stream) (m : HeaderSectionMetadata) : Stream :=
  let noBody := m.noBody || (st.method == ascii "HEAD" && m.response)
  let trailer := st.sentHeaders
  let st := if st.state = .reservedLocal then { st with state := .halfClosedRemote } else st
  let st :=
    if !m.informational then
      { st with
        sentHeaders := true
        method := firstNonEmpty st.method m.method
        sendNoBody := noBody
        sendHasLength := m.hasContentLength
        sendLength := m.contentLength }
    else st
  if trailer then { st with sentTrailers := true } else st

/-- Send a section on a stream. A failed length check at its end comes after the frames. -/
def sendHeaders (streamID : ℕ) (headers : List HeaderField) (endStream : Bool) :
    Session X × Option SessionError :=
  match s.checkSendHeaders streamID headers endStream with
  | .error err => (s, some err)
  | .ok st =>
    match s.encodeAndAppendHeaders .headers streamID 0 headers endStream with
    | (s, some err) => (s, some err)
    | (s, none) =>
      let st := Stream.sendSection st (inspectHeaderSection headers)
      let s := s.setStream streamID st
      if endStream then
        if st.sendHasLength && !st.sendNoBody && st.sendLength != st.sendBody then
          (s, some .invalidHeaders)
        else (s.localEnd streamID, none)
      else (s, none)

/-- Register the next stream of this endpoint. -/
def addLocal : Session X :=
  { s.addStream s.nextLocalStream (s.freshStream .open true) with
    nextLocalStream := s.nextLocalStream + 2, activeLocal := s.activeLocal + 1 }

/-- Open a locally initiated stream with its first section. -/
def openStream (headers : List HeaderField) (endStream : Bool) :
    Session X × Except SessionError ℕ :=
  if s.goAwayReceived || s.goAwaySent then (s, .error .sessionClosed)
  else if s.role ≠ .client then (s, .error .streamState)
  else if s.nextLocalStream = 0 ∨ s.nextLocalStream > maxInt32 then
    (s, .error .streamIDExhausted)
  else if s.activeLocal ≥ s.peerMaxConcurrent then (s, .error .wouldBlock)
  else if s.streamCount ≥ s.limits.maxStreams.toNat then (s, .error .streamLimit)
  else
    let streamID := s.nextLocalStream
    match s.addLocal.sendHeaders streamID headers endStream with
    | (s, some err) =>
      ({ s with streams := s.streams.erase streamID, activeLocal := s.activeLocal - 1 },
        .error err)
    | (s, none) => (s, .ok streamID)

/-- Reserve a pushed stream and send its request section on the parent stream. -/
def pushPromise (s : Session X) (parentStreamID : ℕ) (headers : List HeaderField) :
    Session X × Except SessionError ℕ :=
  if s.role ≠ .server || !s.limits.enablePush || !s.peerEnablePush then (s, .error .streamState)
  else if !(s.stream? parentStreamID).any (canSend ·.state) then (s, .error .streamNotFound)
  else if s.nextLocalStream = 0 ∨ s.nextLocalStream > maxInt32 then
    (s, .error .streamIDExhausted)
  else if s.activeLocal ≥ s.peerMaxConcurrent then (s, .error .wouldBlock)
  else if s.streamCount ≥ s.limits.maxStreams.toNat then (s, .error .streamLimit)
  else if !validateHeaderSection .client true false headers s.limits.enableExtendedConnect then
    (s, .error .invalidHeaders)
  else
    let promisedID := s.nextLocalStream
    let st :=
      { s.freshStream .reservedLocal true with
        method := (inspectHeaderSection headers).method }
    let s := { s with nextLocalStream := promisedID + 2 }
    match s.encodeAndAppendHeaders .pushPromise parentStreamID promisedID headers false with
    | (s, some err) => (s, .error err)
    | (s, none) =>
      ({ s.addStream promisedID st with activeLocal := s.activeLocal + 1 }, .ok promisedID)

/-- What the checks of `SendData` establish: the stream. -/
def checkSendData (streamID : ℕ) (src : Bytes) : Except SessionError Stream :=
  match s.ready with
  | some err => .error err
  | none =>
    match s.stream? streamID with
    | none => .error .streamNotFound
    | some st =>
      if !st.sentHeaders || !canSend st.state || st.sentTrailers || st.sendNoBody then
        .error .streamState
      else if st.sendHasLength && src.length > sub64 st.sendLength st.sendBody then
        .error .invalidHeaders
      else .ok st

/-- An empty DATA frame that ends the stream. -/
def sendEmptyData (streamID : ℕ) (st : Stream) : Session X × Except SessionError ℕ :=
  if st.sendHasLength && st.sendLength != st.sendBody then (s, .error .invalidHeaders)
  else
    match s.appendFrame { type := .data, flags := .endStream, streamID } [] with
    | (s, some err) => (s, .error err)
    | (s, none) => (s.localEnd streamID, .ok 0)

/-- Send as much of `src` as the windows, the frame size and the output limit permit. -/
def sendData (streamID : ℕ) (src : Bytes) (endStream : Bool) : Session X × Except SessionError ℕ :=
  match s.checkSendData streamID src with
  | .error err => (s, .error err)
  | .ok st =>
    if src = [] then
      if !endStream then (s, .ok 0) else s.sendEmptyData streamID st
    else
      let available : ℤ :=
        min (min (min src.length s.peerMaxFrame : ℤ) s.connectionSendWindow) st.sendWindow
      if available ≤ 0 then (s, .error .wouldBlock)
      else
        let n := available.toNat
        let last := n == src.length && endStream
        if last && st.sendHasLength && (st.sendBody + n) % 2 ^ 64 != st.sendLength then
          (s, .error .invalidHeaders)
        else
          match s.appendFrame { type := .data, flags := if last then .endStream else 0, streamID }
              (src.take n) with
          | (s, some err) => (s, .error err)
          | (s, none) =>
            let s := { s with connectionSendWindow := s.connectionSendWindow - n }.setStream
              streamID
              { st with
                sendWindow := st.sendWindow - n, sendBody := (st.sendBody + n) % 2 ^ 64 }
            (if last then s.localEnd streamID else s, .ok n)

/-- Send RST_STREAM and close the stream. -/
def resetStream (streamID : ℕ) (code : ErrorCode) : Session X × Option SessionError :=
  match s.stream? streamID with
  | none => (s, some .streamNotFound)
  | some st =>
    if st.state = .idle then (s, some .streamNotFound)
    else
      match s.appendFrame { type := .rstStream, streamID } (putUint32 code.toNat) with
      | (s, some err) => (s, some err)
      | (s, none) => ((s.closeStream streamID).note (.reset streamID st.state), none)

/-! ## Connection -/

/-- The local limits that a SETTINGS update changes. -/
structure LocalUpdate where
  headerTable : UInt32
  enablePush : Bool
  maxConcurrent : UInt32
  initialWindow : UInt32
  maxFrame : UInt32
  enableConnect : Bool

/-- One setting of an update, or `none` when it is rejected. -/
def LocalUpdate.setting (s : Session X) (u : LocalUpdate) (setting : Setting) :
    Option LocalUpdate :=
  if !validSetting setting then none
  else if setting.id = .headerTableSize then
    if setting.value > s.caps.header.maxDynamicTableBytes || s.decoder.active then none
    else some { u with headerTable := setting.value }
  else if setting.id = .enablePush then
    if s.role ≠ .client then none else some { u with enablePush := setting.value ≠ 0 }
  else if setting.id = .maxConcurrentStreams then
    if setting.value > s.caps.maxStreams then none
    else some { u with maxConcurrent := setting.value }
  else if setting.id = .initialWindowSize then some { u with initialWindow := setting.value }
  else if setting.id = .maxFrameSize then
    if setting.value > s.caps.frame.maxFrameSize then none
    else some { u with maxFrame := setting.value }
  else if setting.id = .maxHeaderListSize then
    if setting.value.toNat > s.caps.header.maxHeaderListBytes.toNat then none else some u
  else if setting.id = .enableConnectProtocol then
    some { u with enableConnect := setting.value ≠ 0 }
  else if setting.id = .noRFC7540Priorities then
    if setting.value ≠ 1 then none else some u
  else some u

/-- Change the receive window of every stream. -/
def adjustRecvWindows (change : ℤ) : List ℕ → Session X → Session X
  | [], s => s
  | id :: ids, s =>
    match s.stream? id with
    | none => adjustRecvWindows change ids s
    | some st =>
      adjustRecvWindows change ids
        (s.setStream id { st with recvWindow := st.recvWindow + change })

/-- Whether a change of the initial window keeps every receive window in range. -/
def recvWindowsFit (change : ℤ) : Bool :=
  s.streams.keys.all fun id => (s.stream? id).all fun st =>
    st.recvWindow + change ≤ maxInt32 && -2 ^ 31 ≤ st.recvWindow + change

/-- Adopt the limits of an update that has been sent. -/
def applyUpdate (u : LocalUpdate) : Session X :=
  { s with
    localHeaderTable := u.headerTable
    limits :=
      { s.limits with
        enablePush := u.enablePush
        maxConcurrentStreams := u.maxConcurrent
        initialWindowSize := u.initialWindow
        enableExtendedConnect := u.enableConnect }
    parser := { s.parser with limits := { s.parser.limits with maxFrameSize := u.maxFrame } }
    localSettingsOutstanding := (s.localSettingsOutstanding + 1) % 2 ^ 32 }

/-- Send and apply a local SETTINGS update. -/
def updateSettings (settings : List Setting) : Session X × Option SessionError :=
  match s.ready with
  | some err => (s, some err)
  | none =>
    if settings.length > s.peerMaxFrame / 6 then (s, some .invalidHeaders)
    else if !s.reserveOutput (9 + settings.length * 6) then (s, some .outputLimit)
    else
      let old : LocalUpdate :=
        { headerTable := s.localHeaderTable
          enablePush := s.limits.enablePush
          maxConcurrent := s.limits.maxConcurrentStreams
          initialWindow := s.limits.initialWindowSize
          maxFrame := s.parser.limits.maxFrameSize
          enableConnect := s.limits.enableExtendedConnect }
      match settings.foldlM (LocalUpdate.setting s) old with
      | none => (s, some .invalidHeaders)
      | some u =>
        let change : ℤ := u.initialWindow.toNat - s.limits.initialWindowSize.toNat
        if !s.recvWindowsFit change then (s, some .streamState)
        else
          match s.decoder.setAllowedDynamicTableBytes u.headerTable with
          | .error err => (s, some (.header err))
          | .ok decoder =>
            match { s with decoder }.appendSettings settings false with
            | (s, some err) => (s, some err)
            | (s, none) =>
              ((s.applyUpdate u).adjustRecvWindows change s.streams.keys, none)

/-- Send a PING frame. -/
def ping (data : Vector UInt8 8) : Session X × Option SessionError :=
  s.appendFrame { type := .ping } data.toList

/-- Send a PRIORITY_UPDATE frame. -/
def priorityUpdate (streamID : ℕ) (value : Bytes) : Session X × Option SessionError :=
  if value.length > s.peerMaxFrame - 4 then (s, some .outputLimit)
  else s.appendFrame { type := .priorityUpdate } (putUint32 (streamID % 2 ^ 31) ++ value)

/-- Start a graceful shutdown. -/
def goAway (code : ErrorCode) (debug : Bytes) : Session X × Option SessionError :=
  if s.goAwaySent then (s, none)
  else
    let debug := debug.take (s.peerMaxFrame - 8)
    match s.appendFrame { type := .goAway }
        (putUint32 s.lastProcessedPeerStream ++ putUint32 code.toNat ++ debug) with
    | (s, some err) => (s, some err)
    | (s, none) => ({ s with goAwaySent := true }, none)

/-- Release the retained state. -/
def close : Session X :=
  if s.closed then s
  else
    { s with
      closed := true, streams := ∅, events := [], output := [], headerBlock := []
      currentHeaders := [] }

end Session

/-- The calls of the owner of a session, other than `Feed`. -/
inductive Call
  | finish
  | consumeOutput (n : ℕ)
  | nextEvent
  | openStream (headers : List HeaderField) (endStream : Bool)
  | pushPromise (parentStreamID : ℕ) (headers : List HeaderField)
  | priorityUpdate (streamID : ℕ) (value : Bytes)
  | sendHeaders (streamID : ℕ) (headers : List HeaderField) (endStream : Bool)
  | sendData (streamID : ℕ) (src : Bytes) (endStream : Bool)
  | resetStream (streamID : ℕ) (code : ErrorCode)
  | updateSettings (settings : List Setting)
  | ping (data : Vector UInt8 8)
  | goAway (code : ErrorCode) (debug : Bytes)
  | close

/-- The session after a call. -/
def Session.call (s : Session X) : Call → Session X
  | .finish => s.finish.1
  | .consumeOutput n => (s.consumeOutput n).1
  | .nextEvent => s.nextEvent.1
  | .openStream headers endStream => (s.openStream headers endStream).1
  | .pushPromise parentStreamID headers => (s.pushPromise parentStreamID headers).1
  | .priorityUpdate streamID value => (s.priorityUpdate streamID value).1
  | .sendHeaders streamID headers endStream => (s.sendHeaders streamID headers endStream).1
  | .sendData streamID src endStream => (s.sendData streamID src endStream).1
  | .resetStream streamID code => (s.resetStream streamID code).1
  | .updateSettings settings => (s.updateSettings settings).1
  | .ping data => (s.ping data).1
  | .goAway code debug => (s.goAway code debug).1
  | .close => s.close

end WagoHttp.Http2
