import WagoHttp.Http2.Session.Basic

/-!
# Received frames

The callbacks the session installs in its frame parser, and `Feed`, which runs the parser over
received octets. A callback of the parser is delivered to the session by `deliver`.
-/

namespace WagoHttp.Http2.Session

variable {X : Externals} (s : Session X)

/-! ## The ends of a stream -/

/-- The local side has ended the stream. -/
def localEnd (id : ℕ) : Session X :=
  match s.stream? id with
  | none => s
  | some st =>
    match st.state with
    | .open => s.setStream id { st with state := .halfClosedLocal }
    | .halfClosedRemote => s.closeStream id
    | .reservedLocal => s.setStream id { st with state := .halfClosedRemote }
    | _ => s

/-- The stream after the peer has ended it. -/
def endRemote (id : ℕ) (st : Stream) : Session X :=
  match st.state with
  | .open => s.setStream id { st with state := .halfClosedRemote }
  | .halfClosedLocal => s.closeStream id
  | .reservedRemote => s.setStream id { st with state := .halfClosedLocal }
  | _ => s

/-- The peer has ended the stream, which fails when the body has not the declared length. -/
def remoteEnd (id : ℕ) : Session X :=
  match s.stream? id with
  | none => s
  | some st =>
    if st.receiveHasLength && !st.receiveNoBody && st.receiveLength != st.receiveBody then
      s.streamError id .protocol
    else
      let s := s.endRemote id st
      if st.state ≠ .closed then
        let s := s.offerEvent { type := .streamEnd, streamID := id }
        { s with lastProcessedPeerStream := max s.lastProcessedPeerStream id }
      else s

/-! ## Header blocks -/

/-- Whether the peer may open a stream with an identifier that is not in the table. -/
def peerMayOpen (streamID : ℕ) : Bool :=
  if streamID = 0 ∨ streamID ≤ s.lastPeerStream then false
  else
    match s.role with
    | .server => streamID % 2 == 1
    | .client => streamID % 2 == 0 && s.limits.enablePush

/-- A stream at the moment it enters the table. -/
def freshStream (state : StreamState) (isLocal : Bool) : Stream where
  state := state
  isLocal := isLocal
  sendWindow := s.peerInitialWindow
  recvWindow := s.limits.initialWindowSize.toNat

/-- Start a block in the header decoder. -/
def beginDecoderBlock : Session X × Option SessionError :=
  match s.decoder.beginBlock with
  | .error err => (s, some (.header err))
  | .ok decoder => ({ s with decoder }.note (.decoder .beginBlock), none)

/-- The stream of a HEADERS frame, opened if the peer may open it, or why the frame is refused. -/
def admitHeaders (streamID : ℕ) : Except SessionError (Session X × Stream) :=
  match s.stream? streamID with
  | none =>
    if !s.peerMayOpen streamID then
      .error (.protocol 0 .protocol "peer opened an invalid stream identifier")
    else if s.activePeer ≥ s.limits.maxConcurrentStreams.toNat then
      .error (.protocol streamID .refusedStream "peer concurrent stream limit exceeded")
    else if s.streamCount ≥ s.limits.maxStreams.toNat then
      .error (.protocol streamID .refusedStream "stream storage exhausted")
    else
      let st := s.freshStream .open false
      .ok ({ s.addStream streamID st with
             activePeer := s.activePeer + 1, lastPeerStream := streamID }, st)
  | some st =>
    if st.state = .closed then
      .error (.protocol 0 .streamClosed "HEADERS on a closed stream")
    else if !canReceive st.state || st.receivedTrailers then
      .error (.protocol streamID .streamClosed "HEADERS in invalid stream state")
    else .ok (s, st)

/-- Start the section of a HEADERS frame. -/
def startSection (streamID : ℕ) (st : Stream) (endStream : Bool) : Session X :=
  let s :=
    if st.state = .reservedRemote then
      s.setStream streamID { st with state := .halfClosedLocal }
    else s
  { s with
    currentHeaders := []
    currentHeaderStream := streamID
    currentHeaderEventStream := streamID
    currentHeaderEnd := endStream
    currentHeaderTrailer := st.receivedHeaders
    currentHeaderPush := false }

def beginInboundHeaders (streamID : ℕ) (endStream : Bool) : Session X × Option SessionError :=
  match s.admitHeaders streamID with
  | .error err => (s, some err)
  | .ok (s, st) =>
    if st.receivedHeaders && !endStream then
      (s, some (.protocol streamID .protocol "trailing HEADERS omitted END_STREAM"))
    else (s.startSection streamID st endStream).beginDecoderBlock

/-- Give a fragment of a block to the header decoder. -/
def writeDecoder (fragment : Bytes) : Session X × Option HeaderError :=
  let s' := if s.decoder.active then s.note (.decoder (.write fragment)) else s
  let (decoder, fields, err) := s.decoder.write fragment
  ({ s' with decoder, currentHeaders := s.currentHeaders ++ fields }, err)

def onHeaderBlock (streamID : ℕ) (fragment : Bytes) : Session X :=
  if s.failed ≠ none ∨ streamID ≠ s.currentHeaderStream then s
  else
    match s.writeDecoder fragment with
    | (s, some err) => s.connectionError .compression err.message
    | (s, none) => s

/-- End a block in the header decoder. -/
def endDecoderBlock : Session X × Option HeaderError :=
  let s' := if s.decoder.active then s.note (.decoder .endBlock) else s
  let (decoder, err) := s.decoder.endBlock
  ({ s' with decoder }, err)

/-- The stream after the section of a HEADERS frame that is not informational. -/
def Stream.receiveSection (st : Stream) (m : HeaderSectionMetadata) (trailer : Bool) : Stream :=
  let method := firstNonEmpty st.method m.method
  { st with
    receivedHeaders := true
    method
    receiveNoBody := m.noBody || (method == ascii "HEAD" && m.response)
    receiveHasLength := m.hasContentLength
    receiveLength := m.contentLength
    receivedTrailers := st.receivedTrailers || trailer }

/-- Commit a complete and valid section to its stream. -/
def commitSection (id : ℕ) (st : Stream) (endStream : Bool) : Session X :=
  let m := inspectHeaderSection s.currentHeaders
  if s.currentHeaderPush then s.setStream id { st with method := m.method }
  else if !m.informational then
    let s := s.setStream id (Stream.receiveSection st m s.currentHeaderTrailer)
    if endStream then s.remoteEnd id else s
  else if endStream then s.streamError id .protocol
  else s

/-- The event of a complete section. -/
def sectionEvent (endStream : Bool) : Event where
  type := if s.currentHeaderPush then .pushPromise else .headers
  streamID := s.currentHeaderEventStream
  endStream := endStream
  trailer := s.currentHeaderTrailer
  headers := s.currentHeaders

/-- Forget the section that has been committed. -/
def clearSection : Session X :=
  { s with
    currentHeaderStream := 0, currentHeaderEventStream := 0, currentHeaderPush := false
    currentHeaders := [] }

/-- Whether the decoded section is valid. A promised request is checked as a server checks it. -/
def validSection : Bool :=
  validateHeaderSection (if s.currentHeaderPush then .server else s.role) false
    s.currentHeaderTrailer s.currentHeaders s.limits.enableExtendedConnect

/-- Validate a complete section, report it and commit it. -/
def finishSection (endStream : Bool) : Session X :=
  match s.stream? s.currentHeaderEventStream with
  | none => s
  | some st =>
    if !s.validSection then s.streamError s.currentHeaderEventStream .protocol
    else
      match s.queueEvent (s.sectionEvent endStream) with
      | (s, some err) => s.connectionError .enhanceYourCalm err.message
      | (s, none) => (s.commitSection s.currentHeaderEventStream st endStream).clearSection

def onHeaderBlockEnd (streamID : ℕ) (endStream : Bool) : Session X :=
  if s.failed ≠ none ∨ streamID ≠ s.currentHeaderStream then s
  else
    match s.endDecoderBlock with
    | (s, some err) => s.connectionError .compression err.message
    | (s, none) => s.finishSection endStream

/-- Reserve a promised stream and start its section. -/
def reserveRemote (streamID promisedStreamID : ℕ) : Session X :=
  { s.addStream promisedStreamID (s.freshStream .reservedRemote false) with
    activePeer := s.activePeer + 1
    lastPeerStream := promisedStreamID
    currentHeaders := []
    currentHeaderStream := streamID
    currentHeaderEventStream := promisedStreamID
    currentHeaderEnd := false
    currentHeaderTrailer := false
    currentHeaderPush := true }

def onPushPromise (streamID promisedStreamID : ℕ) : Session X :=
  if s.failed ≠ none then s
  else if s.role ≠ .client || !s.limits.enablePush || !s.peerEnablePush ||
      promisedStreamID = 0 || promisedStreamID % 2 ≠ 0 || promisedStreamID ≤ s.lastPeerStream ||
      !(s.stream? streamID).any (canReceive ·.state) then
    s.connectionError .protocol "invalid PUSH_PROMISE"
  else if s.activePeer ≥ s.limits.maxConcurrentStreams.toNat ∨
      s.streamCount ≥ s.limits.maxStreams.toNat then
    s.streamError promisedStreamID .refusedStream
  else
    match (s.reserveRemote streamID promisedStreamID).beginDecoderBlock with
    | (s, some err) => s.connectionError .compression err.message
    | (s, none) => s

/-! ## DATA -/

/-- Charge a DATA frame to the receive windows when it begins. -/
def chargeData (header : FrameHeader) : Session X :=
  match s.stream? header.streamID with
  | none => s.streamError header.streamID .streamClosed
  | some st =>
    if !canReceive st.state || !st.receivedHeaders || st.receivedTrailers || st.receiveNoBody then
      s.streamError header.streamID .streamClosed
    else if header.length > s.connectionRecvWindow then
      s.connectionError .flowControl "connection receive window exceeded"
    else if header.length > st.recvWindow then
      s.streamError header.streamID .flowControl
    else
      { s with connectionRecvWindow := s.connectionRecvWindow - header.length }.setStream
        header.streamID { st with recvWindow := st.recvWindow - header.length }

def onFrameBegin (header : FrameHeader) : Session X :=
  if s.failed ≠ none then s
  else
    let s := { s with currentFrame := header }
    if !s.peerInitialSettings && (header.type ≠ .settings || header.flags.has .ack) then
      s.connectionError .protocol "peer did not begin with SETTINGS"
    else if header.type = .headers then
      match s.beginInboundHeaders header.streamID (header.flags.has .endStream) with
      | (s, some err) => s.handleProtocolError err
      | (s, none) => s
    else if header.type = .data then s.chargeData header
    else if header.type = .priorityUpdate then { s with extensionPayload := [] }
    else s

def onData (streamID : ℕ) (data : Bytes) (endStream : Bool) : Session X :=
  if s.failed ≠ none ∨ data = [] then s
  else
    match s.stream? streamID with
    | none => s
    | some st =>
      if st.receiveHasLength && data.length > sub64 st.receiveLength st.receiveBody then
        s.streamError streamID .protocol
      else
        let s := s.setStream streamID
          { st with receiveBody := (st.receiveBody + data.length) % 2 ^ 64 }
        match s.queueEvent { type := .data, streamID, endStream, data } with
        | (s, some err) => s.connectionError .enhanceYourCalm err.message
        | (s, none) => s

/-- Whether half of a receive window is used. -/
def updateDue (window : ℤ) : Bool :=
  window ≤ s.limits.initialWindowSize.toNat / 2 &&
    (s.limits.initialWindowSize.toNat : ℤ) - window > 0

/-- Top up the connection receive window when half of it is used. The update is credited whether
or not it could be queued. -/
def creditConnection : Session X :=
  let initial : ℤ := s.limits.initialWindowSize.toNat
  if s.updateDue s.connectionRecvWindow then
    let increment := initial - s.connectionRecvWindow
    let s := (s.appendWindowUpdate 0 (increment.toNat % 2 ^ 32)).1
    { s with connectionRecvWindow := s.connectionRecvWindow + increment }
  else s

/-- Top up the receive window of a stream when half of it is used. -/
def creditStream (id : ℕ) (st : Stream) : Session X :=
  let initial : ℤ := s.limits.initialWindowSize.toNat
  if s.updateDue st.recvWindow then
    let increment := initial - st.recvWindow
    let s := (s.appendWindowUpdate id (increment.toNat % 2 ^ 32)).1
    s.setStream id { st with recvWindow := st.recvWindow + increment }
  else s

/-- The end of a DATA frame. -/
def completeData (header : FrameHeader) : Session X :=
  match s.stream? header.streamID with
  | none => s
  | some st =>
    let s := s.creditConnection.creditStream header.streamID st
    if header.flags.has .endStream then s.remoteEnd header.streamID else s

/-- The end of a PRIORITY_UPDATE frame. -/
def completePriorityUpdate (header : FrameHeader) : Session X :=
  if header.streamID ≠ 0 ∨ s.extensionPayload.length < 4 then
    s.connectionError .protocol "invalid PRIORITY_UPDATE"
  else
    s.offerEvent
      { type := .priorityUpdate
        streamID := beNat (s.extensionPayload.take 4) % 2 ^ 31
        data := s.extensionPayload.drop 4 }

/-- Whether a frame counts against the quota of control frames rather than resetting it. -/
def isControlFrame (header : FrameHeader) : Bool :=
  header.type ≠ .data && header.type ≠ .headers && header.type ≠ .continuation

/-- Count a complete frame. -/
def countFrame (header : FrameHeader) : Session X :=
  { s with controlFrames := if isControlFrame header then (s.controlFrames + 1) % 2 ^ 32 else 0 }

def onFrameComplete (header : FrameHeader) : Session X :=
  if s.failed ≠ none then s
  else
    let s := s.countFrame header
    if isControlFrame header && s.controlFrames > s.limits.maxControlFrames.toNat then
      s.connectionError .enhanceYourCalm "control frame quota exceeded"
    else if header.type = .data then s.completeData header
    else if header.type = .priorityUpdate then s.completePriorityUpdate header
    else s

/-! ## Control frames -/

def onPriority (streamID : ℕ) (priority : PriorityParam) : Session X :=
  if s.failed ≠ none then s else s.offerEvent { type := .priority, streamID, priority }

def onRSTStream (streamID : ℕ) (code : ErrorCode) : Session X :=
  match s.stream? streamID with
  | none =>
    if streamID > s.lastPeerStream then
      s.connectionError .protocol "RST_STREAM on idle stream"
    else s
  | some _ =>
    (s.closeStream streamID).offerEvent { type := .streamReset, streamID, errorCode := code }

def onSetting (setting : Setting) : Session X :=
  { s with pendingSettings := s.pendingSettings ++ [setting] }

/-- Change the send windows of the open streams, in the order of the range loop, up to the first
one that overflows. -/
def adjustSendWindows (change : ℤ) : List ℕ → Session X → Session X × Bool
  | [], s => (s, true)
  | id :: ids, s =>
    match s.stream? id with
    | none => adjustSendWindows change ids s
    | some st =>
      if st.state = .closed then adjustSendWindows change ids s
      else if st.sendWindow + change > maxInt32 ∨ st.sendWindow + change < -2 ^ 31 then (s, false)
      else
        adjustSendWindows change ids
          (s.setStream id { st with sendWindow := st.sendWindow + change })

/-- The order in which the next `range` loop visits the stream table. -/
def rangeStreams : List ℕ × Session X :=
  (X.rangeOrder s.ranges s.streams.keys, { s with ranges := s.ranges + 1 })

/-- Apply SETTINGS_INITIAL_WINDOW_SIZE to the streams that are open. -/
def applyInitialWindow (value : ℕ) : Session X × Option SessionError :=
  let (ids, s) := s.rangeStreams
  match s.adjustSendWindows (value - s.peerInitialWindow) ids with
  | (s, false) =>
    (s, some (.protocol 0 .flowControl "SETTINGS_INITIAL_WINDOW_SIZE overflow"))
  | (s, true) => ({ s with peerInitialWindow := value }, none)

def applyPeerSetting (setting : Setting) : Session X × Option SessionError :=
  if setting.id = .headerTableSize then
    let encoder := X.setMaxDynamicTableSizeLimit setting.value s.encoder
    ({ s with encoder := X.setMaxDynamicTableSize setting.value encoder }, none)
  else if setting.id = .enablePush then
    if s.role = .client then
      (s, some (.protocol 0 .protocol "server sent SETTINGS_ENABLE_PUSH"))
    else ({ s with peerEnablePush := setting.value ≠ 0 }, none)
  else if setting.id = .maxConcurrentStreams then
    ({ s with peerMaxConcurrent := setting.value.toNat }, none)
  else if setting.id = .initialWindowSize then s.applyInitialWindow setting.value.toNat
  else if setting.id = .maxFrameSize then ({ s with peerMaxFrame := setting.value.toNat }, none)
  else if setting.id = .enableConnectProtocol then
    ({ s with peerEnableConnect := setting.value ≠ 0 }, none)
  else if setting.id = .noRFC7540Priorities then
    if s.peerInitialSettings && s.peerNoPriorities != (setting.value != 0) then
      (s, some (.protocol 0 .protocol
        "SETTINGS_NO_RFC7540_PRIORITIES changed after initial SETTINGS"))
    else ({ s with peerNoPriorities := setting.value ≠ 0 }, none)
  else (s, none)

/-- Apply the settings of a frame in order, up to the first error. -/
def applyPeerSettings : List Setting → Session X → Session X × Option SessionError
  | [], s => (s, none)
  | setting :: settings, s =>
    match s.applyPeerSetting setting with
    | (s, some err) => (s, some err)
    | (s, none) => applyPeerSettings settings s

def onSettingsEnd (ack : Bool) : Session X :=
  if s.failed ≠ none then s
  else if ack then
    if s.localSettingsOutstanding = 0 then
      s.connectionError .protocol "unexpected SETTINGS acknowledgement"
    else
      { s with localSettingsOutstanding := s.localSettingsOutstanding - 1 }.offerEvent
        { type := .settingsAck }
  else
    match s.applyPeerSettings s.pendingSettings with
    | (s, some err) => s.handleProtocolError err
    | (s, none) =>
      let settings := s.pendingSettings
      let s := { s with pendingSettings := [], peerInitialSettings := true }
      match s.appendSettings [] true with
      | (s, some err) => s.connectionError .internal err.message
      | (s, none) => s.offerEvent { type := .settings, settings }

def onPing (data : Bytes) (ack : Bool) : Session X :=
  if s.failed ≠ none then s
  else if ack then s.offerEvent { type := .pingAck, ping := data }
  else
    match s.appendFrame { type := .ping, flags := .ack } data with
    | (s, some err) => s.connectionError .internal err.message
    | (s, none) => s.offerEvent { type := .ping, ping := data }

/-- Close the local streams above the last one the peer has processed, in the order of the range
loop. -/
def refuseStreams (lastStreamID : ℕ) : List ℕ → Session X → Session X
  | [], s => s
  | id :: ids, s =>
    match s.stream? id with
    | none => refuseStreams lastStreamID ids s
    | some st =>
      if st.isLocal ∧ id > lastStreamID ∧ st.state ≠ .closed then
        refuseStreams lastStreamID ids <| (s.closeStream id).offerEvent
          { type := .streamReset, streamID := id, errorCode := .refusedStream }
      else refuseStreams lastStreamID ids s

def onGoAway (lastStreamID : ℕ) (code : ErrorCode) : Session X :=
  if s.goAwayReceived ∧ lastStreamID > s.peerLastStream then
    s.connectionError .protocol "GOAWAY last stream identifier increased"
  else
    let s := { s with goAwayReceived := true, peerLastStream := lastStreamID }
    let (ids, s) := s.rangeStreams
    (s.refuseStreams lastStreamID ids).offerEvent
      { type := .goAway, lastStreamID, errorCode := code }

def onWindowUpdate (streamID increment : ℕ) : Session X :=
  if s.failed ≠ none then s
  else if streamID = 0 then
    if s.connectionSendWindow > maxInt32 - increment then
      s.connectionError .flowControl "connection send window overflow"
    else
      { s with connectionSendWindow := s.connectionSendWindow + increment }.offerEvent
        { type := .windowUpdate, windowIncrement := increment }
  else
    match s.stream? streamID with
    | none =>
      if streamID > s.lastPeerStream then
        s.connectionError .protocol "WINDOW_UPDATE on idle stream"
      else s
    | some st =>
      if st.state = .closed then s
      else if st.sendWindow > maxInt32 - increment then s.streamError streamID .flowControl
      else
        (s.setStream streamID { st with sendWindow := st.sendWindow + increment }).offerEvent
          { type := .windowUpdate, streamID, windowIncrement := increment }

def onUnknown (header : FrameHeader) (fragment : Bytes) : Session X :=
  if header.type = .priorityUpdate then
    if (fragment.length : ℤ) > s.limits.frame.maxFrameSize.toNat - s.extensionPayload.length then
      s.connectionError .frameSize "PRIORITY_UPDATE too large"
    else { s with extensionPayload := s.extensionPayload ++ fragment }
  else s

/-! ## Delivery -/

/-- The function the session has installed for a callback. It installs none for the debug data of
a GOAWAY frame. -/
def handle : Callback → Session X
  | .frameBegin header => s.onFrameBegin header
  | .data streamID data endStream => s.onData streamID data endStream
  | .headerBlock streamID fragment => s.onHeaderBlock streamID fragment
  | .headerBlockEnd streamID endStream => s.onHeaderBlockEnd streamID endStream
  | .priority streamID priority => s.onPriority streamID priority
  | .rstStream streamID code => s.onRSTStream streamID code
  | .setting setting => s.onSetting setting
  | .settingsEnd ack => s.onSettingsEnd ack
  | .pushPromise streamID promisedStreamID => s.onPushPromise streamID promisedStreamID
  | .ping data ack => s.onPing data ack
  | .goAway lastStreamID code => s.onGoAway lastStreamID code
  | .goAwayDebug _ => s
  | .windowUpdate streamID increment => s.onWindowUpdate streamID increment
  | .unknown header fragment => s.onUnknown header fragment
  | .frameComplete header => s.onFrameComplete header

/-- Deliver one callback of the parser. -/
def deliver (call : Callback) : Session X := (s.note (.received call)).handle call

/-- Deliver the callbacks of one call of the parser. -/
def deliverAll (calls : List Callback) : Session X := calls.foldl deliver s

def frameCodeToError : Code → ErrorCode
  | .frameTooLarge => .frameSize
  | .invalidFrameSize => .frameSize
  | .headerBlockTooLarge => .enhanceYourCalm
  | .tooManyContinuations => .enhanceYourCalm
  | _ => .protocol

/-- What `Feed` returns: the session, the octets consumed and the error. -/
structure Fed (X : Externals) where
  session : Session X
  n : ℕ := 0
  err : Option SessionError := none

/-- The octets of the client preface that a server still expects, up to the first mismatch. -/
def matchPreface (s : Session X) : Bytes → Fed X
  | [] => { session := s }
  | b :: src =>
    if s.prefacePos < clientPreface.length then
      if some b ≠ clientPreface[s.prefacePos]? then
        let s := s.connectionError .protocol "invalid client connection preface"
        { session := s, err := s.failed }
      else
        let r := { s with prefacePos := s.prefacePos + 1 }.matchPreface src
        { r with n := r.n + 1 }
    else { session := s }

/-- The session after a call of the parser: its callbacks have been delivered. -/
def afterParse (r : Parser.Parsed) : Session X :=
  { s.deliverAll r.calls with parser := r.parser }

/-- The loop of `Feed` over the frames of `src`. -/
def feedFrames (s : Session X) (src : Bytes) : Fed X :=
  if src = [] then { session := s }
  else
    let r := s.parser.parseOne src
    let s := s.afterParse r
    if r.code ≠ .none then
      let s := s.connectionError (frameCodeToError r.code) r.code.string
      { session := s, n := r.n, err := s.failed }
    else if s.failed ≠ none then { session := s, n := r.n, err := s.failed }
    else if _hn : r.n = 0 then { session := s }
    else
      let f := s.feedFrames (src.drop r.n)
      { f with n := r.n + f.n }
termination_by src.length
decreasing_by
  have := List.length_pos_iff.2 ‹¬src = []›
  have hn : (Parser.parseOne _ _).n ≠ 0 := _hn
  rw [List.length_drop]
  omega

/-- Consume received octets. -/
def feed (src : Bytes) : Fed X :=
  if s.closed then { session := s, err := some .sessionClosed }
  else if s.failed ≠ none then { session := s, err := s.failed }
  else if s.role = .server ∧ s.prefacePos < clientPreface.length then
    let r := s.matchPreface src
    if r.err ≠ none then r
    else if r.n = src.length ∨ r.session.prefacePos < clientPreface.length then r
    else
      let f := r.session.feedFrames (src.drop r.n)
      { f with n := r.n + f.n }
  else s.feedFrames src

/-- Report a truncated preface, frame or continuation sequence. -/
def finish (s : Session X) : Session X × Option SessionError :=
  if s.closed then (s, some .sessionClosed)
  else if s.failed ≠ none then (s, s.failed)
  else if s.role = .server ∧ s.prefacePos ≠ clientPreface.length then
    let s := s.connectionError .protocol "truncated client connection preface"
    (s, s.failed)
  else
    let (parser, code) := s.parser.finish
    let s := { s with parser }
    if code ≠ .none then
      let s := s.connectionError (frameCodeToError code) code.string
      (s, s.failed)
    else (s, none)

end WagoHttp.Http2.Session
