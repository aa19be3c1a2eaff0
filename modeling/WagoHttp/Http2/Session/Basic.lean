import WagoHttp.Http2.Frame
import WagoHttp.Http2.Headers
import Mathlib.Data.List.AList

/-!
# The state of a session

`Session` is a bounded, event-driven HTTP/2 connection engine without input or output of its own:
its owner feeds it received octets, drains the octets it queues, and takes the events it commits.
This module has its state and the operations that both directions share: queueing events and
frames, closing streams, and stream and connection errors.

One field is not in the source. `history` records, in order, the callbacks of the frame parser as
they are delivered, the frames appended to the output, the events queued, the calls made to the
header decoder, and the streams opened and reset. No function reads it; it is what statements
about a whole run speak of.

Counters are natural numbers. Where a machine integer could wrap, the wrap is written out.
-/

namespace WagoHttp.Http2

/-- The lifecycle state of a stream. -/
inductive StreamState
  | idle
  | reservedLocal
  | reservedRemote
  | open
  | halfClosedLocal
  | halfClosedRemote
  | closed
  deriving DecidableEq, Repr

def canSend (state : StreamState) : Bool :=
  state == .open || state == .halfClosedRemote || state == .reservedLocal

def canReceive (state : StreamState) : Bool :=
  state == .open || state == .halfClosedLocal || state == .reservedRemote

inductive EventType
  | settings
  | settingsAck
  | headers
  | data
  | streamEnd
  | streamReset
  | ping
  | pingAck
  | goAway
  | priority
  | priorityUpdate
  | pushPromise
  | windowUpdate
  deriving DecidableEq, Repr

/-- One committed connection or stream event. -/
structure Event where
  type : EventType
  streamID : ℕ := 0
  endStream : Bool := false
  trailer : Bool := false
  headers : List HeaderField := []
  data : Bytes := []
  settings : List Setting := []
  errorCode : ErrorCode := 0
  lastStreamID : ℕ := 0
  windowIncrement : ℕ := 0
  priority : PriorityParam := {}
  ping : Bytes := []
  deriving DecidableEq, Repr

/-- The bounds of a session. A zero selects the default. -/
structure SessionLimits where
  frame : Limits := {}
  header : HeaderLimits := {}
  maxConcurrentStreams : UInt32 := 0
  maxStreams : UInt32 := 0
  maxClosedStreams : UInt32 := 0
  maxQueuedOutputBytes : UInt32 := 0
  maxQueuedEventBytes : UInt32 := 0
  maxQueuedEvents : UInt32 := 0
  initialWindowSize : UInt32 := 0
  maxControlFrames : UInt32 := 0
  enablePush : Bool := false
  enableExtendedConnect : Bool := false
  deriving DecidableEq, Repr

def maxInt32 : ℕ := 2 ^ 31 - 1

def SessionLimits.normalized (l : SessionLimits) : SessionLimits :=
  let orDefault (value default : UInt32) := if value = 0 then default else value
  let maxConcurrentStreams := orDefault l.maxConcurrentStreams 100
  let maxStreams := orDefault l.maxStreams 1024
  let maxStreams := if maxStreams < maxConcurrentStreams then maxConcurrentStreams else maxStreams
  let maxClosedStreams := orDefault l.maxClosedStreams 256
  let maxClosedStreams := if maxClosedStreams > maxStreams then maxStreams else maxClosedStreams
  let initialWindowSize := orDefault l.initialWindowSize 65535
  { l with
    frame := l.frame.normalized
    header := l.header.normalized
    maxConcurrentStreams, maxStreams, maxClosedStreams
    maxQueuedOutputBytes := orDefault l.maxQueuedOutputBytes 4194304
    maxQueuedEventBytes := orDefault l.maxQueuedEventBytes 4194304
    maxQueuedEvents := orDefault l.maxQueuedEvents 4096
    initialWindowSize :=
      if initialWindowSize > 0x7fffffff then 0x7fffffff else initialWindowSize
    maxControlFrames := orDefault l.maxControlFrames 4096 }

/-- The errors of the session's functions. -/
inductive SessionError
  | sessionClosed
  | wouldBlock
  | streamNotFound
  | streamState
  | streamIDExhausted
  | streamLimit
  | outputLimit
  | eventLimit
  | invalidHeaders
  | shortBuffer
  /-- A frame that `appendFrame` rejects. -/
  | invalidFrame (code : Code)
  | header (err : HeaderError)
  /-- A stream error, or a connection error when `streamID` is zero. -/
  | protocol (streamID : ℕ) (code : ErrorCode) (reason : String)
  deriving DecidableEq, Repr

def SessionError.message : SessionError → String
  | .sessionClosed => "wagohttp/http2: session is closed"
  | .wouldBlock => "wagohttp/http2: operation would block"
  | .streamNotFound => "wagohttp/http2: stream not found"
  | .streamState => "wagohttp/http2: invalid stream state"
  | .streamIDExhausted => "wagohttp/http2: stream identifier exhausted"
  | .streamLimit => "wagohttp/http2: stream resource limit"
  | .outputLimit => "wagohttp/http2: queued output limit"
  | .eventLimit => "wagohttp/http2: queued event limit"
  | .invalidHeaders => "wagohttp/http2: malformed field section"
  | .shortBuffer => "short buffer"
  | .invalidFrame code => "wagohttp/http2: malformed field section: " ++ code.string
  | .header err => err.message
  | .protocol streamID code reason =>
    let scope := if streamID ≠ 0 then "stream " ++ toString streamID else "connection"
    if reason = "" then "wagohttp/http2: " ++ scope ++ " error " ++ toString code
    else "wagohttp/http2: " ++ scope ++ " error: " ++ reason

/-- A stream of the session's table. Its identifier is the key under which the table holds it, and
`isLocal` tells the streams this endpoint has initiated. -/
structure Stream where
  state : StreamState
  isLocal : Bool
  sendWindow : ℤ
  recvWindow : ℤ
  sentHeaders : Bool := false
  receivedHeaders : Bool := false
  sentTrailers : Bool := false
  receivedTrailers : Bool := false
  method : Bytes := []
  receiveNoBody : Bool := false
  sendNoBody : Bool := false
  receiveHasLength : Bool := false
  receiveLength : ℕ := 0
  receiveBody : ℕ := 0
  sendHasLength : Bool := false
  sendLength : ℕ := 0
  sendBody : ℕ := 0
  deriving DecidableEq, Repr

/-- The calls of the session to its header decoder. -/
inductive DecoderCall
  | beginBlock
  | write (fragment : Bytes)
  | endBlock
  deriving DecidableEq, Repr

/-- One entry of the history of a session. -/
inductive Obs
  /-- A callback of the frame parser was delivered. -/
  | received (call : Callback)
  /-- A frame was appended to the output. -/
  | sent (header : FrameHeader) (payload : Bytes)
  /-- An event was queued. -/
  | queued (event : Event)
  /-- The header decoder was called, in a state that allows the call. -/
  | decoder (call : DecoderCall)
  /-- A stream entered the table. -/
  | opened (streamID : ℕ)
  /-- `ResetStream` sent RST_STREAM on a stream in the given state. -/
  | reset (streamID : ℕ) (state : StreamState)
  /-- A connection error was raised. -/
  | failed (err : SessionError)
  deriving DecidableEq, Repr

/-- The stream table. -/
abbrev StreamTable := AList fun _ : ℕ => Stream

/-- The state of a session. -/
structure Session (X : Externals) where
  role : Role
  limits : SessionLimits
  caps : SessionLimits
  parser : Parser
  decoder : HeaderDecoder X
  encoder : X.Encoder
  streams : StreamTable := ∅
  closedStreams : List ℕ := []
  nextLocalStream : ℕ
  lastPeerStream : ℕ := 0
  lastProcessedPeerStream : ℕ := 0
  activeLocal : ℕ := 0
  activePeer : ℕ := 0
  peerMaxConcurrent : ℕ := 2 ^ 32 - 1
  peerMaxFrame : ℕ := 16384
  localHeaderTable : UInt32
  peerInitialWindow : ℤ := 65535
  connectionSendWindow : ℤ := 65535
  connectionRecvWindow : ℤ
  peerEnablePush : Bool := true
  peerEnableConnect : Bool := false
  peerNoPriorities : Bool := false
  localSettingsOutstanding : ℕ := 0
  controlFrames : ℕ := 0
  closed : Bool := false
  failed : Option SessionError := none
  peerInitialSettings : Bool := false
  goAwayReceived : Bool := false
  goAwaySent : Bool := false
  peerLastStream : ℕ := 0
  prefacePos : ℕ := 0
  output : Bytes := []
  events : List Event := []
  eventBytes : ℕ := 0
  headerBlock : Bytes := []
  currentHeaders : List HeaderField := []
  currentHeaderStream : ℕ := 0
  currentHeaderEventStream : ℕ := 0
  currentHeaderEnd : Bool := false
  currentHeaderTrailer : Bool := false
  currentHeaderPush : Bool := false
  currentFrame : FrameHeader := {}
  pendingSettings : List Setting := []
  extensionPayload : Bytes := []
  /-- The number of `range` loops over the stream table so far. -/
  ranges : ℕ := 0
  /-- The history of the session, oldest entry first. -/
  history : List Obs := []

namespace Session

variable {X : Externals} (s : Session X)

/-- Add an entry to the history. -/
def note (o : Obs) : Session X := { s with history := s.history ++ [o] }

/-- The stream with a given identifier, if the table holds it. -/
def stream? (id : ℕ) : Option Stream := s.streams.lookup id

/-- Store a stream under an identifier. -/
def setStream (id : ℕ) (st : Stream) : Session X :=
  { s with streams := s.streams.insert id st }

/-- Enter a new stream in the table. -/
def addStream (id : ℕ) (st : Stream) : Session X :=
  (s.setStream id st).note (.opened id)

/-- The number of streams in the table. -/
def streamCount : ℕ := s.streams.keys.length

/-! ## Events -/

/-- The octets an event retains, as a 32-bit integer. -/
def eventRetainedBytes (event : Event) : ℕ :=
  min (event.data.length + event.settings.length * 6 + (event.headers.map HeaderField.size).sum)
    (2 ^ 32 - 1)

/-- Queue an event, unless a limit is reached. -/
def queueEvent (event : Event) : Session X × Option SessionError :=
  let bytes := eventRetainedBytes event
  if s.events.length ≥ s.limits.maxQueuedEvents.toNat ∨
      bytes > sub32 s.limits.maxQueuedEventBytes.toNat s.eventBytes then
    (s, some .eventLimit)
  else
    ({ s with events := s.events ++ [event], eventBytes := (s.eventBytes + bytes) % 2 ^ 32 }.note
      (.queued event), none)

/-- Queue an event, and drop it silently when a limit is reached. -/
def offerEvent (event : Event) : Session X := (s.queueEvent event).1

/-! ## Output -/

def reserveOutput (bytes : ℤ) : Bool :=
  0 ≤ bytes ∧ bytes ≤ (s.limits.maxQueuedOutputBytes.toNat : ℤ) - s.output.length

def ready : Option SessionError :=
  if s.closed then some .sessionClosed else s.failed

def appendFrameEvenFailed (header : FrameHeader) (payload : Bytes) :
    Session X × Option SessionError :=
  if !s.reserveOutput (9 + payload.length) then (s, some .outputLimit)
  else
    let (output, code) := appendFrame s.output header payload
    if code ≠ .none then ({ s with output }, some (.invalidFrame code))
    else
      ({ s with output }.note (.sent { header with length := payload.length } payload), none)

def appendFrame (header : FrameHeader) (payload : Bytes) : Session X × Option SessionError :=
  match s.ready with
  | some err => (s, some err)
  | none => s.appendFrameEvenFailed header payload

def settingBytes (setting : Setting) : Bytes :=
  putUint16 setting.id.toNat ++ putUint32 setting.value.toNat

def appendSettings (settings : List Setting) (ack : Bool) : Session X × Option SessionError :=
  if ack then s.appendFrameEvenFailed { type := .settings, flags := .ack } []
  else s.appendFrameEvenFailed { type := .settings } (settings.flatMap settingBytes)

def appendWindowUpdate (streamID increment : ℕ) : Session X × Option SessionError :=
  if increment = 0 ∨ increment > maxInt32 then (s, some .streamState)
  else s.appendFrameEvenFailed { type := .windowUpdate, streamID } (putUint32 increment)

/-! ## Closing streams -/

/-- Drop the oldest closed streams until at most `max` are retained. -/
def evictClosed (max : ℕ) (streams : StreamTable) : List ℕ → StreamTable × List ℕ
  | [] => (streams, [])
  | oldest :: rest =>
    if rest.length + 1 > max then
      let closed := (streams.lookup oldest).any (·.state == .closed)
      evictClosed max (if closed then streams.erase oldest else streams) rest
    else (streams, oldest :: rest)

/-- The counter of active streams that a stream belongs to, one lower. -/
def releaseActive (st : Stream) : Session X :=
  if st.isLocal then { s with activeLocal := s.activeLocal - 1 }
  else { s with activePeer := s.activePeer - 1 }

def closeStream (id : ℕ) : Session X :=
  match s.stream? id with
  | none => s
  | some st =>
    if st.state = .closed then s
    else
      let s := (s.setStream id { st with state := .closed }).releaseActive st
      let (streams, closedStreams) :=
        evictClosed s.limits.maxClosedStreams.toNat s.streams (s.closedStreams ++ [id])
      { s with streams, closedStreams }

/-! ## Errors -/

/-- Close the stream, reset it, and report the reset. -/
def streamError (streamID : ℕ) (code : ErrorCode) : Session X :=
  let s := s.closeStream streamID
  let s := (s.appendFrame { type := .rstStream, streamID } (putUint32 code.toNat)).1
  s.offerEvent { type := .streamReset, streamID, errorCode := code }

/-- Fail the session, and queue GOAWAY when there is room for it. -/
def connectionError (code : ErrorCode) (reason : String) : Session X :=
  if s.failed ≠ none then s
  else
    let err := SessionError.protocol 0 code reason
    let s := { s with failed := some err, goAwaySent := true }.note (.failed err)
    (s.appendFrameEvenFailed { type := .goAway }
      (putUint32 s.lastProcessedPeerStream ++ putUint32 code.toNat)).1

def handleProtocolError (err : SessionError) : Session X :=
  match err with
  | .protocol streamID code reason =>
    if streamID = 0 then s.connectionError code reason else s.streamError streamID code
  | err => s.connectionError .internal err.message

end Session

end WagoHttp.Http2
