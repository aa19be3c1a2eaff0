import WagoHttp.Foundations.Bytes
import Mathlib.Tactic.DeriveFintype

/-!
# HTTP/2 frames and the incremental frame parser

The frame layer of package `http2`: frame headers, settings and error codes, the validation of a
frame header, the writer `appendFrame`, and the incremental `Parser`.

The source's parser calls the functions of a `Callbacks` record while it consumes its input. The
functions are observers: none of them is given the parser, so what they do is independent of what
the parser does next. Here a call of the parser returns the list of the callbacks it makes, in
order, and whoever owns the parser acts on the list.

The buffers of the source are a fixed array and a count of the octets in use; here they are the
list of the octets in use.
-/

namespace WagoHttp.Http2

/-- The connection preface every client sends before its first frame. -/
def clientPreface : Bytes := ascii "PRI * HTTP/2.0\r\n\r\nSM\r\n\r\n"

/-- The frame type octet. Unknown types are extension frames. -/
abbrev FrameType := UInt8

namespace FrameType

def data : FrameType := 0x0
def headers : FrameType := 0x1
def priority : FrameType := 0x2
def rstStream : FrameType := 0x3
def settings : FrameType := 0x4
def pushPromise : FrameType := 0x5
def ping : FrameType := 0x6
def goAway : FrameType := 0x7
def windowUpdate : FrameType := 0x8
def continuation : FrameType := 0x9
/-- The PRIORITY_UPDATE extension frame. -/
def priorityUpdate : FrameType := 0x10

end FrameType

/-- The frame flags octet. -/
abbrev Flags := UInt8

namespace Flags

def endStream : Flags := 0x1
def ack : Flags := 0x1
def endHeaders : Flags := 0x4
def padded : Flags := 0x8
def priority : Flags := 0x20

def has (flags flag : Flags) : Bool := flags &&& flag != 0

end Flags

/-- The decoded nine-octet frame header. -/
structure FrameHeader where
  length : ℕ := 0
  type : FrameType := 0
  flags : Flags := 0
  streamID : ℕ := 0
  deriving DecidableEq, Repr

/-- Setting identifiers. Unknown ones are ignored. -/
abbrev SettingID := UInt16

namespace SettingID

def headerTableSize : SettingID := 0x1
def enablePush : SettingID := 0x2
def maxConcurrentStreams : SettingID := 0x3
def initialWindowSize : SettingID := 0x4
def maxFrameSize : SettingID := 0x5
def maxHeaderListSize : SettingID := 0x6
def enableConnectProtocol : SettingID := 0x8
def noRFC7540Priorities : SettingID := 0x9

end SettingID

/-- One SETTINGS parameter. -/
structure Setting where
  id : SettingID
  value : UInt32
  deriving DecidableEq, Repr

/-- The five-octet priority section. -/
structure PriorityParam where
  streamDependency : ℕ := 0
  exclusive : Bool := false
  weight : UInt8 := 0
  deriving DecidableEq, Repr

/-- Wire error codes. Any 32-bit value can be received. -/
abbrev ErrorCode := UInt32

namespace ErrorCode

def no : ErrorCode := 0x0
def protocol : ErrorCode := 0x1
def internal : ErrorCode := 0x2
def flowControl : ErrorCode := 0x3
def streamClosed : ErrorCode := 0x5
def frameSize : ErrorCode := 0x6
def refusedStream : ErrorCode := 0x7
def cancel : ErrorCode := 0x8
def compression : ErrorCode := 0x9
def enhanceYourCalm : ErrorCode := 0xb

end ErrorCode

/-- The result of incremental frame parsing. -/
inductive Code
  | none
  | frameTooLarge
  | invalidStreamID
  | invalidFrameSize
  | invalidPadding
  | invalidContinuation
  | headerBlockTooLarge
  | tooManyContinuations
  | invalidPriority
  | invalidSetting
  | invalidWindowUpdate
  | unexpectedEOF
  deriving DecidableEq, Repr

/-- The text of a result. -/
def Code.string : Code → String
  | .none => "ok"
  | .frameTooLarge => "frame too large"
  | .invalidStreamID => "invalid stream identifier"
  | .invalidFrameSize => "invalid frame size"
  | .invalidPadding => "invalid padding"
  | .invalidContinuation => "invalid CONTINUATION sequence"
  | .headerBlockTooLarge => "header block too large"
  | .tooManyContinuations => "too many CONTINUATION frames"
  | .invalidPriority => "invalid priority dependency"
  | .invalidSetting => "invalid SETTINGS value"
  | .invalidWindowUpdate => "invalid WINDOW_UPDATE increment"
  | .unexpectedEOF => "unexpected EOF"

def defaultMaxFrameSize : UInt32 := 16384
def defaultMaxHeaderBlockBytes : UInt64 := 1048576
def defaultMaxContinuationFrames : UInt32 := 1024
def maxFrameSize : UInt32 := 16777215

/-- The bounds of the parser. A zero selects the default. -/
structure Limits where
  maxFrameSize : UInt32 := 0
  maxHeaderBlockBytes : UInt64 := 0
  maxContinuationFrames : UInt32 := 0
  deriving DecidableEq, Repr

def Limits.normalized (l : Limits) : Limits where
  maxFrameSize :=
    let size := if l.maxFrameSize = 0 then defaultMaxFrameSize else l.maxFrameSize
    if size > Http2.maxFrameSize then Http2.maxFrameSize else size
  maxHeaderBlockBytes :=
    if l.maxHeaderBlockBytes = 0 then defaultMaxHeaderBlockBytes else l.maxHeaderBlockBytes
  maxContinuationFrames :=
    if l.maxContinuationFrames = 0 then defaultMaxContinuationFrames else l.maxContinuationFrames

/-- One call of a function of the `Callbacks` record, with its arguments. -/
inductive Callback
  | frameBegin (header : FrameHeader)
  | data (streamID : ℕ) (data : Bytes) (endStream : Bool)
  | headerBlock (streamID : ℕ) (fragment : Bytes)
  | headerBlockEnd (streamID : ℕ) (endStream : Bool)
  | priority (streamID : ℕ) (priority : PriorityParam)
  | rstStream (streamID : ℕ) (code : ErrorCode)
  | setting (setting : Setting)
  | settingsEnd (ack : Bool)
  | pushPromise (streamID promisedStreamID : ℕ)
  | ping (data : Bytes) (ack : Bool)
  | goAway (lastStreamID : ℕ) (code : ErrorCode)
  | goAwayDebug (fragment : Bytes)
  | windowUpdate (streamID increment : ℕ)
  | unknown (header : FrameHeader) (fragment : Bytes)
  | frameComplete (header : FrameHeader)
  deriving DecidableEq, Repr

/-! ## Frame headers -/

/-- The checks of a frame header that do not depend on the state of the connection. -/
def validateFrameHeader (header : FrameHeader) : Code :=
  let streamRequired := header.type = .data ∨ header.type = .headers ∨ header.type = .priority ∨
    header.type = .rstStream ∨ header.type = .pushPromise ∨ header.type = .continuation
  let streamForbidden := header.type = .settings ∨ header.type = .ping ∨ header.type = .goAway
  let pad := if header.flags.has .padded then 1 else 0
  if streamRequired ∧ header.streamID = 0 ∨ streamForbidden ∧ header.streamID ≠ 0 then
    .invalidStreamID
  else if header.type = .data then
    if header.length < pad then .invalidFrameSize else .none
  else if header.type = .headers then
    let minimum := pad + if header.flags.has .priority then 5 else 0
    if header.length < minimum then .invalidFrameSize else .none
  else if header.type = .priority then
    if header.length ≠ 5 then .invalidFrameSize else .none
  else if header.type = .rstStream then
    if header.length ≠ 4 then .invalidFrameSize else .none
  else if header.type = .settings then
    if header.flags.has .ack then
      if header.length ≠ 0 then .invalidFrameSize else .none
    else if header.length % 6 ≠ 0 then .invalidFrameSize else .none
  else if header.type = .pushPromise then
    if header.length < 4 + pad then .invalidFrameSize else .none
  else if header.type = .ping then
    if header.length ≠ 8 then .invalidFrameSize else .none
  else if header.type = .goAway then
    if header.length < 8 then .invalidFrameSize else .none
  else if header.type = .windowUpdate then
    if header.length ≠ 4 then .invalidFrameSize else .none
  else .none

/-- The range checks of setting values. -/
def validSetting (setting : Setting) : Bool :=
  if setting.id = .enablePush ∨ setting.id = .enableConnectProtocol ∨
      setting.id = .noRFC7540Priorities then
    setting.value ≤ 1
  else if setting.id = .initialWindowSize then
    setting.value ≤ 0x7fffffff
  else if setting.id = .maxFrameSize then
    setting.value ≥ defaultMaxFrameSize && setting.value ≤ maxFrameSize
  else true

def decodePriority (src : Bytes) : PriorityParam where
  streamDependency := beNat (src.take 4) % 2 ^ 31
  exclusive := beNat (src.take 4) / 2 ^ 31 != 0
  weight := src.getD 4 0

/-- The nine octets of a frame header. -/
def frameHeaderBytes (header : FrameHeader) : Bytes :=
  [UInt8.ofNat (header.length / 65536), UInt8.ofNat (header.length / 256),
    UInt8.ofNat header.length, header.type, header.flags] ++ putUint32 header.streamID

/-- The octets of a frame. -/
def frameBytes (type : FrameType) (flags : Flags) (streamID : ℕ) (payload : Bytes) : Bytes :=
  frameHeaderBytes { length := payload.length, type, flags, streamID } ++ payload

/-- Append one complete frame after validating its header. The length given in the header is zero
or the length of the payload. -/
def appendFrame (dst : Bytes) (header : FrameHeader) (payload : Bytes) : Bytes × Code :=
  if payload.length > maxFrameSize.toNat ∨
      header.length ≠ 0 ∧ header.length ≠ payload.length ∨ header.streamID > 0x7fffffff then
    (dst, .invalidFrameSize)
  else
    let header := { header with length := payload.length }
    let code := validateFrameHeader header
    if code ≠ .none then (dst, code)
    else (dst ++ frameHeaderBytes header ++ payload, .none)

/-! ## The parser -/

inductive PayloadState
  | start
  | fixed
  | content
  | padding
  deriving DecidableEq, Repr

/-- The state of the parser. `header` and `fixed` hold the octets copied so far of the frame header
and of the fixed fields (the source's `header[:headerN]` and `prefix[:prefixN]`), and `fixedNeed`
is the source's `prefixNeed`. -/
structure Parser where
  limits : Limits
  code : Code := .none
  pauseAfterFrame : Bool := false
  paused : Bool := false
  header : Bytes := []
  current : FrameHeader := {}
  payloadN : ℕ := 0
  state : PayloadState := .start
  fixed : Bytes := []
  fixedNeed : ℕ := 0
  padLength : ℕ := 0
  contentN : ℕ := 0
  continuationStream : ℕ := 0
  continuationCount : ℕ := 0
  headerBlockBytes : ℕ := 0
  headerBlockEndStream : Bool := false
  deriving DecidableEq, Repr

def newParser (limits : Limits) : Parser := { limits := limits.normalized }

namespace Parser

variable (p : Parser)

/-- Record a failure. The first one is sticky. -/
def fail (code : Code) : Parser :=
  if p.code = .none then { p with code } else p

/-- What a step of the parser returns: the parser, the octets consumed, whether the payload is
complete, the result code and the callbacks made. -/
structure Payload where
  parser : Parser
  n : ℕ := 0
  done : Bool := false
  code : Code := .none
  calls : List Callback := []

/-- The payload so far: nothing consumed beyond `n`, complete when `payloadN` says so. -/
def payloadSoFar (n : ℕ) (calls : List Callback) : Payload :=
  { parser := p, n, done := p.payloadN == p.current.length, calls }

/-- A rejected payload. -/
def reject (n : ℕ) (code : Code) (calls : List Callback := []) : Payload :=
  { parser := p.fail code, n, code := (p.fail code).code, calls }

/-- Continue with `k` on the octets that `r` left, unless `r` has ended the call. -/
def Payload.andThen (r : Payload) (src : Bytes) (k : Parser → Bytes → Payload) : Payload :=
  let q := k r.parser (src.drop r.n)
  { q with n := r.n + q.n, calls := r.calls ++ q.calls }

variable (src : Bytes)

/-- Copy octets of the fixed fields, up to `fixedNeed`. -/
def copyFixed : Parser × ℕ :=
  let count := min (p.fixedNeed - p.fixed.length) src.length
  ({ p with fixed := p.fixed ++ src.take count, payloadN := p.payloadN + count }, count)

/-- Read the padding length of a padded payload, which `minimum` octets of fixed fields follow.
The result is the parser and the octets consumed, with the rejection of a padding longer than the
rest of the frame. -/
def readPadding (minimum : ℕ) : Parser × ℕ × Bool :=
  if p.current.flags.has .padded then
    let p := { p with padLength := (src.headD 0).toNat, payloadN := p.payloadN + 1 }
    (p, 1, decide (p.padLength ≤ p.current.length - p.payloadN - minimum))
  else (p, 0, true)

/-- Enter the content of a payload whose fixed fields have been read. -/
def beginContent : Parser :=
  { p with contentN := p.current.length - p.payloadN - p.padLength, state := .content }

/-- Skip padding octets. -/
def skipPadding : Payload :=
  let count := min (p.current.length - p.payloadN) src.length
  payloadSoFar { p with payloadN := p.payloadN + count } count []

/-- The content of a DATA frame and its padding. -/
def parseDataContent : Payload :=
  let count := min p.contentN src.length
  let calls :=
    if p.state = .content ∧ count ≠ 0 then
      [.data p.current.streamID (src.take count) (p.current.flags.has .endStream)]
    else []
  let (p, n) :=
    if p.state = .content then
      ({ p with contentN := p.contentN - count, payloadN := p.payloadN + count }, count)
    else (p, 0)
  let p := if p.state = .content ∧ p.contentN = 0 then { p with state := .padding } else p
  if p.state = .padding then
    Payload.andThen { parser := p, n, calls } src skipPadding
  else payloadSoFar p n calls

def parseData : Payload :=
  if p.state = .start then
    let (p, n, ok) := p.readPadding src 0
    if !ok then p.reject n .invalidPadding
    else Payload.andThen { parser := p.beginContent, n } src parseDataContent
  else p.parseDataContent src

/-- A fragment of a header block, at most `remaining` octets long. -/
def parseHeaderFragment (remaining : ℕ) : Payload :=
  let count := min remaining src.length
  if count = 0 then { parser := p, done := remaining == 0 }
  else if (p.headerBlockBytes + count) % 2 ^ 64 > p.limits.maxHeaderBlockBytes.toNat then
    p.reject 0 .headerBlockTooLarge
  else
    { parser :=
        { p with
          headerBlockBytes := (p.headerBlockBytes + count) % 2 ^ 64
          payloadN := p.payloadN + count
          contentN := if p.state = .content then p.contentN - count else p.contentN }
      n := count
      done := count == remaining
      calls := [.headerBlock p.current.streamID (src.take count)] }

def parseHeaderContentAndPadding : Payload :=
  if p.state = .content ∧ p.contentN ≠ 0 ∧ src ≠ [] then
    let r := p.parseHeaderFragment src p.contentN
    if r.code ≠ .none then { r with done := false }
    else if !r.done then { r with done := false }
    else Payload.andThen { r with parser := { r.parser with contentN := 0, state := .padding } }
      src skipPadding
  else
    let p := if p.state = .content ∧ p.contentN = 0 then { p with state := .padding } else p
    if p.state = .padding then p.skipPadding src
    else payloadSoFar p 0 []

/-- The priority section of a HEADERS frame, once complete, and the content after it. -/
def parseHeadersFixed : Payload :=
  if p.state = .fixed then
    let (p, n) := p.copyFixed src
    if p.fixed.length < p.fixedNeed then { parser := p, n }
    else
      let priority := decodePriority (p.fixed.take 5)
      if priority.streamDependency = p.current.streamID then p.reject n .invalidPriority
      else
        Payload.andThen
          { parser := p.beginContent, n, calls := [.priority p.current.streamID priority] }
          src parseHeaderContentAndPadding
  else p.parseHeaderContentAndPadding src

def parseHeaders : Payload :=
  if p.state = .start then
    let (p, n, ok) := p.readPadding src (if p.current.flags.has .priority then 5 else 0)
    if !ok then p.reject n .invalidPadding
    else
      let p :=
        if p.current.flags.has .priority then { p with fixedNeed := 5, state := .fixed }
        else p.beginContent
      Payload.andThen { parser := p, n } src parseHeadersFixed
  else p.parseHeadersFixed src

/-- The promised stream of a PUSH_PROMISE frame, once complete, and the content after it. -/
def parsePushPromiseFixed : Payload :=
  if p.state = .fixed then
    let (p, n) := p.copyFixed src
    if p.fixed.length < p.fixedNeed then { parser := p, n }
    else
      let promised := beNat (p.fixed.take 4) % 2 ^ 31
      if promised = 0 then p.reject n .invalidStreamID
      else
        Payload.andThen
          { parser := p.beginContent, n, calls := [.pushPromise p.current.streamID promised] }
          src parseHeaderContentAndPadding
  else p.parseHeaderContentAndPadding src

def parsePushPromise : Payload :=
  if p.state = .start then
    let (p, n, ok) := p.readPadding src 4
    if !ok then p.reject n .invalidPadding
    else
      Payload.andThen { parser := { p with fixedNeed := 4, state := .fixed }, n } src
        parsePushPromiseFixed
  else p.parsePushPromiseFixed src

/-- A frame that is only a fixed field of `need` octets. -/
def parseFixed (need : ℕ) : Payload :=
  let (p, n) := { p with fixedNeed := need }.copyFixed src
  payloadSoFar p n []

/-- The entries of a SETTINGS frame. The recursion is on a bound of the entries that can be
complete in `src`. -/
def parseSettingsLoop : ℕ → Parser → Bytes → Payload
  | 0, p, _ => payloadSoFar p 0 []
  | fuel + 1, p, src =>
    if src ≠ [] ∧ p.payloadN < p.current.length then
      let (p, n) := p.copyFixed src
      if p.fixed.length < 6 then payloadSoFar p n []
      else
        let setting : Setting :=
          { id := UInt16.ofNat (beNat (p.fixed.take 2))
            value := UInt32.ofNat (beNat ((p.fixed.drop 2).take 4)) }
        if !validSetting setting then p.reject n .invalidSetting
        else
          Payload.andThen { parser := { p with fixed := [] }, n, calls := [.setting setting] } src
            (parseSettingsLoop fuel)
    else payloadSoFar p 0 []

def parseSettings : Payload :=
  parseSettingsLoop (src.length + 1) { p with fixedNeed := 6 } src

/-- The debug data of a GOAWAY frame. -/
def parseGoAwayDebug : Payload :=
  if p.payloadN < p.current.length ∧ src ≠ [] then
    let count := min (p.current.length - p.payloadN) src.length
    payloadSoFar { p with payloadN := p.payloadN + count } count [.goAwayDebug (src.take count)]
  else payloadSoFar p 0 []

def parseGoAway : Payload :=
  if p.payloadN < 8 then
    let (p, n) := { p with fixedNeed := 8 }.copyFixed src
    if p.fixed.length < 8 then { parser := p, n }
    else Payload.andThen { parser := p, n } src parseGoAwayDebug
  else p.parseGoAwayDebug src

/-- The payload of an extension frame. -/
def parseUnknown : Payload :=
  let count := min (p.current.length - p.payloadN) src.length
  payloadSoFar { p with payloadN := p.payloadN + count } count
    [.unknown p.current (src.take count)]

/-- One pass of the loop of `parsePayload`: the switch on the frame type. -/
def payloadStep : Payload :=
  if p.current.type = .data then p.parseData src
  else if p.current.type = .headers then p.parseHeaders src
  else if p.current.type = .priority then p.parseFixed src 5
  else if p.current.type = .rstStream then p.parseFixed src 4
  else if p.current.type = .settings then p.parseSettings src
  else if p.current.type = .pushPromise then p.parsePushPromise src
  else if p.current.type = .ping then p.parseFixed src 8
  else if p.current.type = .goAway then p.parseGoAway src
  else if p.current.type = .windowUpdate then p.parseFixed src 4
  else if p.current.type = .continuation then
    p.parseHeaderFragment src (p.current.length - p.payloadN)
  else p.parseUnknown src

/-- The loop of `parsePayload`. A pass that neither ends the call nor fails consumes an octet, so
the length of the input bounds the passes. -/
def parsePayloadLoop : ℕ → Parser → Bytes → Payload
  | 0, p, _ => payloadSoFar p 0 []
  | fuel + 1, p, src =>
    if src ≠ [] ∧ p.payloadN < p.current.length then
      let r := p.payloadStep src
      if r.code ≠ .none ∨ r.done then r
      else r.andThen src (parsePayloadLoop fuel)
    else payloadSoFar p 0 []

def parsePayload : Payload := parsePayloadLoop (src.length + 1) p src

/-- What a frame boundary function returns: the parser, the result code and the callbacks made. -/
structure Boundary where
  parser : Parser
  code : Code := .none
  calls : List Callback := []

/-- Decode a complete frame header. -/
def loadHeader : Parser :=
  { p with
    current :=
      { length := beNat (p.header.take 3)
        type := p.header.getD 3 0
        flags := p.header.getD 4 0
        streamID := beNat ((p.header.drop 5).take 4) % 2 ^ 31 }
    payloadN := 0, state := .start, fixed := [], fixedNeed := 0, padLength := 0, contentN := 0 }

/-- A rejected frame. -/
def rejectFrame (code : Code) : Boundary :=
  { parser := p.fail code, code := (p.fail code).code }

/-- A frame that may come here begins, if its header is valid. -/
def acceptFrame : Boundary :=
  let p :=
    if p.current.type = .headers ∧ p.continuationStream = 0 then
      { p with headerBlockEndStream := p.current.flags.has .endStream }
    else p
  let code := validateFrameHeader p.current
  if code ≠ .none then p.rejectFrame code
  else { parser := p, code := p.code, calls := [.frameBegin p.current] }

/-- The checks of a decoded frame header. -/
def checkFrame : Boundary :=
  if p.current.length > p.limits.maxFrameSize.toNat then p.rejectFrame .frameTooLarge
  else if p.continuationStream ≠ 0 then
    if p.current.type ≠ .continuation ∨ p.current.streamID ≠ p.continuationStream then
      p.rejectFrame .invalidContinuation
    else
      let p := { p with continuationCount := (p.continuationCount + 1) % 2 ^ 32 }
      if p.continuationCount > p.limits.maxContinuationFrames.toNat then
        p.rejectFrame .tooManyContinuations
      else p.acceptFrame
  else if p.current.type = .continuation then p.rejectFrame .invalidContinuation
  else p.acceptFrame

/-- Decode and validate a complete frame header. -/
def beginFrame : Boundary := p.loadHeader.checkFrame

/-- The callback of a complete frame, by its type, or the code that rejects it. -/
def finishCalls : Except Code (List Callback) :=
  let header := p.current
  if header.type = .priority then
    let priority := decodePriority (p.fixed.take 5)
    if priority.streamDependency = header.streamID then .error .invalidPriority
    else .ok [.priority header.streamID priority]
  else if header.type = .rstStream then
    .ok [.rstStream header.streamID (UInt32.ofNat (beNat (p.fixed.take 4)))]
  else if header.type = .settings then .ok [.settingsEnd (header.flags.has .ack)]
  else if header.type = .ping then .ok [.ping p.fixed (header.flags.has .ack)]
  else if header.type = .goAway then
    .ok [.goAway (beNat (p.fixed.take 4) % 2 ^ 31)
      (UInt32.ofNat (beNat ((p.fixed.drop 4).take 4)))]
  else if header.type = .windowUpdate then
    let increment := beNat (p.fixed.take 4) % 2 ^ 31
    if increment = 0 then .error .invalidWindowUpdate
    else .ok [.windowUpdate header.streamID increment]
  else .ok []

/-- The end of a frame that carries a header block: the end of the block, or the start of its
continuation. -/
def finishBlock : Parser × List Callback :=
  let header := p.current
  if header.type = .headers ∨ header.type = .pushPromise ∨ header.type = .continuation then
    if header.flags.has .endHeaders then
      ({ p with continuationStream := 0, continuationCount := 0, headerBlockBytes := 0,
                headerBlockEndStream := false },
        [.headerBlockEnd header.streamID p.headerBlockEndStream])
    else if p.continuationStream = 0 then
      ({ p with continuationStream := header.streamID, continuationCount := 0 }, [])
    else (p, [])
  else (p, [])

def finishFrame : Boundary :=
  match p.finishCalls with
  | .error code => { parser := p.fail code, code := (p.fail code).code }
  | .ok calls =>
    let (q, block) := p.finishBlock
    let calls := calls ++ block ++ [.frameComplete p.current]
    if q.code ≠ .none then { parser := q, code := q.code, calls }
    else
      { parser :=
          { q with header := [], current := {}, payloadN := 0, fixed := [], fixedNeed := 0,
                   state := .start, paused := q.pauseAfterFrame }
        calls }

/-! ## The loop over the input -/

/-- What one pass of the loop of `runParse` does: return, or go round again. -/
inductive Pass
  | next (parser : Parser) (n : ℕ) (calls : List Callback)
  | ret (parser : Parser) (n : ℕ) (code : Code) (calls : List Callback)

/-- The callbacks made before a pass. -/
def Pass.after (n : ℕ) (calls : List Callback) : Pass → Pass
  | .next p n' calls' => .next p (n + n') (calls ++ calls')
  | .ret p n' code calls' => .ret p (n + n') code (calls ++ calls')

def finishPass : Pass :=
  let f := p.finishFrame
  if f.code ≠ .none then .ret f.parser 0 f.code f.calls else .next f.parser 0 f.calls

/-- The part of a pass that parses the payload. -/
def payloadPass : Pass :=
  let r := p.parsePayload src
  if r.code ≠ .none then .ret r.parser r.n r.code r.calls
  else if r.parser.code ≠ .none then .ret r.parser r.n r.parser.code r.calls
  else if !r.done then .ret r.parser r.n .none r.calls
  else r.parser.finishPass.after r.n r.calls

/-- The part of a pass after octets of a frame header have been copied. -/
def headerPass : Pass :=
  if p.header.length < 9 then .ret p 0 .none []
  else
    let b := p.beginFrame
    if b.code ≠ .none then .ret b.parser 0 b.code b.calls
    else if b.parser.current.length = 0 then b.parser.finishPass.after 0 b.calls
    else (b.parser.payloadPass src).after 0 b.calls

/-- One pass of the loop of `runParse`, on a non-empty rest of the input. -/
def pass : Pass :=
  if p.header.length < 9 then
    let copied := min (9 - p.header.length) src.length
    (headerPass { p with header := p.header ++ src.take copied } (src.drop copied)).after copied []
  else p.payloadPass src

/-- What `runParse` returns: the parser, the octets consumed, the result and the callbacks. -/
structure Parsed where
  parser : Parser
  n : ℕ := 0
  code : Code := .none
  calls : List Callback := []

variable {p} {src} {q : Parser} {code : Code} {n : ℕ} {calls : List Callback}

theorem fail_code_ne (h : code ≠ .none) : (p.fail code).code ≠ .none := by
  unfold fail
  split <;> assumption

theorem finishCalls_error_ne (h : p.finishCalls = .error code) : code ≠ .none := by
  rintro rfl
  simp only [finishCalls] at h
  split_ifs at h <;> cases h

/-- A pass that goes round again has finished a frame. -/
theorem finishPass_next (h : p.finishPass = .next q n calls) : q.header = [] := by
  simp only [finishPass] at h
  split at h
  · cases h
  next hc =>
  simp only [Pass.next.injEq] at h
  obtain ⟨rfl, -, -⟩ := h
  unfold finishFrame at hc ⊢
  cases hf : p.finishCalls with
  | error code =>
    simp only [hf, not_not] at hc
    exact absurd hc (fail_code_ne (finishCalls_error_ne hf))
  | ok calls =>
    simp only [hf] at hc ⊢
    split at hc
    · next hq => exact absurd (not_not.1 hc) hq
    · next hq => simp [hq]

theorem Pass.after_next {pass : Pass} {k : ℕ} {calls' : List Callback}
    (h : pass.after k calls = .next q n calls') :
    ∃ n' calls'', pass = .next q n' calls'' ∧ n = k + n' := by
  cases pass with
  | next q' n' calls'' =>
    simp only [Pass.after, Pass.next.injEq] at h
    exact ⟨n', calls'', by rw [h.1], h.2.1.symm⟩
  | ret q' n' code calls'' => simp [Pass.after] at h

theorem payloadPass_next (h : p.payloadPass src = .next q n calls) : q.header = [] := by
  simp only [payloadPass] at h
  split_ifs at h
  obtain ⟨n', calls', hf, -⟩ := Pass.after_next h
  exact finishPass_next hf

theorem headerPass_next (h : p.headerPass src = .next q n calls) : q.header = [] := by
  simp only [headerPass] at h
  split_ifs at h
  · obtain ⟨n', calls', hf, -⟩ := Pass.after_next h
    exact finishPass_next hf
  · obtain ⟨n', calls', hf, -⟩ := Pass.after_next h
    exact payloadPass_next hf

/-- Whether the next octet continues a frame header or a payload. -/
def inPayload (p : Parser) : ℕ := if p.header.length < 9 then 0 else 1

/-- **A pass that goes round again makes progress**: it consumes an octet, or it finishes the frame
whose payload the input so far had completed. -/
theorem pass_next_lt (hs : src ≠ []) (h : p.pass src = .next q n calls) :
    2 * (src.drop n).length + q.inPayload < 2 * src.length + p.inPayload := by
  have hlen : 0 < src.length := List.length_pos_iff.2 hs
  rw [List.length_drop]
  unfold pass at h
  split at h
  · next hp =>
    obtain ⟨n', calls', hf, hn⟩ := Pass.after_next h
    simp only [inPayload, headerPass_next hf, List.length_nil, Nat.zero_lt_succ, if_true, hp]
    omega
  · next hp =>
    simp only [inPayload, payloadPass_next h, List.length_nil, Nat.zero_lt_succ, if_true, hp,
      if_false]
    omega

/-- The loop of `runParse`. -/
def runLoop (p : Parser) (src : Bytes) : Parsed :=
  if _hs : src = [] then { parser := p }
  else if p.paused then { parser := p }
  else
    match _h : p.pass src with
    | .ret q n code calls => { parser := q, n, code, calls }
    | .next q n calls =>
      let r := runLoop q (src.drop n)
      { r with n := n + r.n, calls := calls ++ r.calls }
termination_by 2 * src.length + p.inPayload
decreasing_by exact pass_next_lt _hs _h

def runParse (p : Parser) (src : Bytes) (pauseAfterFrame : Bool) : Parsed :=
  if p.code ≠ .none then { parser := p, code := p.code }
  else
    let r := { p with pauseAfterFrame, paused := false }.runLoop src
    { r with parser := { r.parser with pauseAfterFrame := false } }

/-- Consume as many complete or partial frames as `src` holds. -/
def parse (p : Parser) (src : Bytes) : Parsed := p.runParse src false

/-- Consume at most one frame. The frame is complete when the parser comes back paused. -/
def parseOne (p : Parser) (src : Bytes) : Parsed := p.runParse src true

/-- Report the truncation of a frame or of a continuation sequence. -/
def finish (p : Parser) : Parser × Code :=
  if p.code ≠ .none then (p, p.code)
  else if p.header ≠ [] ∨ p.continuationStream ≠ 0 then
    (p.fail .unexpectedEOF, (p.fail .unexpectedEOF).code)
  else (p, .none)

end Parser

end WagoHttp.Http2
