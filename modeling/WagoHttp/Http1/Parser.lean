import WagoHttp.Http1.Fields

/-!
# The HTTP/1 parser

The parser of package `http`: a state machine over the octets of a connection that reports what it
reads through callbacks. The loop of `Parser.parse` is cut into its iterations; one iteration, a
`Pass`, is the branch of the state the parser is in, and yields the parser after it, the number of
octets it consumed and the callbacks it made. A callback is an observer, and all of them are
recorded; `ResponseContext` alone answers, and its answers are part of the environment. The guard
against calls from inside a callback is left out.

As in the source, what finds something wrong records a code in the parser (`Parser.fail`), and the
loop returns it. Counters are natural numbers: each is bounded by a limit, except the two that count
messages.
-/

namespace WagoHttp.Http1

/-! ## State -/

inductive State
  | start
  | leadingLF
  | reqMethod
  | reqTarget
  | reqHTTP
  | versionMajor
  | versionDot
  | versionMinor
  | reqLineCR
  | reqLineLF
  | resHTTP
  | resSpaceBeforeStatus
  | resStatus
  | resReasonStart
  | resReason
  | resLineLF
  | headerStart
  | headerName
  | headerValueStart
  | headerValue
  | headerValueLF
  | headersLF
  | fixedBody
  | closeBody
  | chunkSizeStart
  | chunkSize
  | chunkExt
  | chunkSizeLF
  | chunkBody
  | chunkBodyCR
  | chunkBodyLF
  | upgrade
  | dead
  deriving DecidableEq, Repr

/-- The incremental parser. -/
structure Parser where
  limits : Limits
  kind : Kind
  state : State := .start
  code : Code := .none
  major : ℕ := 0
  minor : ℕ := 0
  status : ℕ := 0
  method : Method := .other
  messageNum : ℕ := 0
  exchangeNum : ℕ := 0
  startBytes : ℕ := 0
  prefixBytes : ℕ := 0
  headerBytes : ℕ := 0
  chunkLineBytes : ℕ := 0
  chunkCount : ℕ := 0
  chunkMetadataBytes : ℕ := 0
  headerCount : ℕ := 0
  bodyBytes : ℕ := 0
  remaining : ℕ := 0
  chunkSize : ℕ := 0
  literalPos : ℕ := 0
  statusDigits : ℕ := 0
  methodScan : MethodScan := {}
  destination : Destination := {}
  fieldName : FieldName := {}
  messageActive : Bool := false
  trailers : Bool := false
  hasContentLength : Bool := false
  hasTransferEncoding : Bool := false
  hasHost : Bool := false
  upgrade : Upgrade := {}
  options : Options := {}
  responseToHEAD : Bool := false
  responseToCONNECT : Bool := false
  pauseAfterMessage : Bool := false
  paused : Bool := false
  lengthScan : LengthScan := {}
  transfer : Transfer := {}
  connection : ConnectionScan := {}
  chunkDigits : Bool := false
  chunkExtState : ChunkExtState := .beforeName
  deriving DecidableEq, Repr

/-- A snapshot supplied at the boundaries of a message. -/
structure Message where
  kind : Kind
  method : Method
  status : ℕ
  major : ℕ
  minor : ℕ
  contentLength : ℕ
  hasContentLength : Bool
  keepAlive : Bool
  messageNumber : ℕ
  exchangeNumber : ℕ
  upgradeRequested : Bool
  connectRequested : Bool
  deriving DecidableEq, Repr

/-- A call of a callback. -/
inductive Call
  | responseContext (exchangeNumber : ℕ)
  | messageBegin
  | method (span : Bytes)
  | target (span : Bytes)
  | reason (span : Bytes)
  | startLine (message : Message)
  | headerName (span : Bytes)
  | headerValue (span : Bytes)
  | headerEnd (trailer : Bool)
  | headersComplete (message : Message)
  | chunkHeader (size : ℕ)
  | body (span : Bytes)
  | chunkComplete
  | messageComplete (message : Message)
  deriving DecidableEq, Repr

/-- One iteration of the loop. -/
structure Pass where
  parser : Parser
  n : ℕ := 0
  calls : List Call := []
  deriving DecidableEq, Repr

/-- A pass that comes after `n` octets and some callbacks. -/
def Pass.after (n : ℕ) (calls : List Call) (w : Pass) : Pass :=
  { w with n := n + w.n, calls := calls ++ w.calls }

namespace Parser

variable (env : Env) (p : Parser)

/-- Record a failure. The first one stays. -/
def fail (code : Code) : Parser :=
  if p.code = .none then { p with code, state := .dead } else p

/-- Go on, or fail. -/
def accept (ok : Bool) (code : Code) : Except Parser Parser :=
  if ok then .ok p else .error (p.fail code)

/-- A pass that fails at once. -/
def halt (code : Code) : Pass := { parser := p.fail code }

/-- A pass that ends if an attempt has failed. -/
def attempt (r : Except Parser Parser) (next : Parser → Pass) : Pass :=
  match r with
  | .error p => { parser := p }
  | .ok p => next p

/-! ## Limits -/

def takeStartByte : Except Parser Parser :=
  if p.startBytes = p.limits.maxStartLineBytes.toNat then .error (p.fail .startLineTooLarge)
  else .ok { p with startBytes := p.startBytes + 1 }

def takePrefixByte : Except Parser Parser :=
  if p.prefixBytes = p.limits.maxStartLineBytes.toNat then .error (p.fail .startLineTooLarge)
  else .ok { p with prefixBytes := p.prefixBytes + 1 }

def takeHeaderByte : Except Parser Parser :=
  if p.headerBytes = p.limits.maxHeaderBytes.toNat then .error (p.fail .headersTooLarge)
  else .ok { p with headerBytes := p.headerBytes + 1 }

def takeChunkLineByte : Except Parser Parser :=
  if p.chunkLineBytes = p.limits.maxChunkLineBytes.toNat then .error (p.fail .chunkLineTooLarge)
  else if p.chunkMetadataBytes ≥ p.limits.maxChunkMetadataBytes.toNat then
    .error (p.fail .chunkMetadataTooLarge)
  else
    .ok
      { p with
        chunkLineBytes := p.chunkLineBytes + 1, chunkMetadataBytes := p.chunkMetadataBytes + 1 }

def addBody (n : ℕ) : Except Parser Parser :=
  if n > p.limits.maxBodyBytes.toNat - p.bodyBytes then .error (p.fail .bodyTooLarge)
  else .ok { p with bodyBytes := p.bodyBytes + n }

/-! ## Messages -/

/-- The persistence semantics of the current or last message. -/
def keepAlive : Bool :=
  let noBody := p.responseToHEAD || (100 ≤ p.status && p.status < 200) || p.status == 204 ||
    p.status == 304 || p.responseToCONNECT && (200 ≤ p.status && p.status < 300)
  if p.options.connectionClose || p.options.connectionUpgrade && p.upgrade.hasUpgrade ||
      p.kind == .request && p.method == .connect then false
  else if p.kind == .response && (!noBody &&
      (!p.hasContentLength && !p.hasTransferEncoding ||
        p.hasTransferEncoding && !p.transfer.transferChunked)) then false
  else if p.major > 1 || p.major == 1 && p.minor ≥ 1 then true
  else p.options.connectionKeepAlive

def message : Message where
  kind := p.kind
  method := p.method
  status := p.status
  major := p.major
  minor := p.minor
  contentLength := if p.hasContentLength then p.remaining + p.bodyBytes else 0
  hasContentLength := p.hasContentLength
  keepAlive := p.keepAlive
  messageNumber := p.messageNum
  exchangeNumber := p.exchangeNum
  upgradeRequested :=
    p.kind == .request && p.options.connectionUpgrade && p.upgrade.hasUpgrade
  connectRequested := p.kind == .request && p.method == .connect

/-- Ask which request a response answers. -/
def askContext : Pass :=
  match p.kind, env.responseContext with
  | .response, some answer =>
    { parser :=
        { p with
          responseToHEAD := (answer p.messageNum p.exchangeNum).1
          responseToCONNECT := (answer p.messageNum p.exchangeNum).2 }
      calls := [.responseContext p.exchangeNum] }
  | _, _ => { parser := p }

def resetMessage : Parser :=
  { p with
    major := 0, minor := 0, status := 0, method := .other, startBytes := 0, prefixBytes := 0
    headerBytes := 0, chunkLineBytes := 0, chunkCount := 0, chunkMetadataBytes := 0
    headerCount := 0, bodyBytes := 0, remaining := 0, chunkSize := 0, literalPos := 0
    statusDigits := 0, methodScan := { methodMask := Method.known }, destination := {}
    hasContentLength := false, hasTransferEncoding := false, hasHost := false, upgrade := {}
    options := {}, trailers := false, messageActive := true }

def beginMessage : Pass :=
  let w := p.askContext env
  { w with parser := w.parser.resetMessage, calls := w.calls ++ [.messageBegin] }

def startLineComplete : Pass where
  parser := { p with state := .headerStart }
  calls := [.startLine p.message]

def completeMessage : Pass where
  parser :=
    { p with
      messageNum := p.messageNum + 1
      exchangeNum :=
        if p.kind = .response ∧ (p.status = 101 ∨ p.status ≥ 200) then p.exchangeNum + 1
        else p.exchangeNum
      messageActive := false, trailers := false, state := .start, paused := p.pauseAfterMessage }
  calls := [.messageComplete p.message]

/-- The status is one that answers CONNECT with a tunnel. -/
def opensTunnel : Bool := p.responseToCONNECT && (200 ≤ p.status && p.status < 300)

def informational : Bool := 100 ≤ p.status && p.status < 200

/-- What follows the header section of a message that is in order. -/
def beginContent : Pass :=
  let upgrade := p.kind == .response &&
    (p.status == 101 && p.options.connectionUpgrade && p.upgrade.hasUpgrade || p.opensTunnel)
  let noResponseBody := p.kind == .response &&
    (p.responseToHEAD || p.informational || p.status == 204 || p.status == 304 || p.opensTunnel)
  if noResponseBody then
    let w := p.completeMessage
    if upgrade then { w with parser := { w.parser with state := .upgrade } } else w
  else if p.hasTransferEncoding then
    -- a response whose last coding is not chunked ends with the connection
    if p.transfer.transferChunked then { parser := { p with state := .chunkSizeStart } }
    else { parser := { p with state := .closeBody } }
  else if p.hasContentLength then
    if p.remaining > p.limits.maxBodyBytes.toNat then p.halt .bodyTooLarge
    else if p.remaining = 0 then p.completeMessage
    else { parser := { p with state := .fixedBody } }
  else if p.kind = .request then p.completeMessage
  else { parser := { p with state := .closeBody } }

def headersComplete (p : Parser) : Pass :=
  if p.kind = .request ∧ p.major = 1 ∧ p.minor = 1 ∧ !p.hasHost then p.halt .missingHost
  else if p.hasTransferEncoding ∧ (p.major ≠ 1 ∨ p.minor ≠ 1) then
    p.halt .invalidTransferEncoding
  else if p.kind = .response ∧ p.status = 101 ∧
      (!p.options.connectionUpgrade ∨ !p.upgrade.hasUpgrade) then
    p.halt .invalidHeaderValue
  else if p.kind = .response ∧ (p.informational ∨ p.status = 204 ∨ p.opensTunnel) ∧
      (p.hasContentLength ∨ p.hasTransferEncoding) then
    p.halt .contentLengthConflict
  else if p.hasTransferEncoding ∧ p.kind = .request ∧ !p.transfer.transferChunked then
    p.halt .invalidTransferEncoding
  else p.beginContent.after 0 [.headersComplete p.message]

/-! ## Header fields -/

def beginHeader : Except Parser Parser :=
  if p.headerCount ≥ p.limits.maxHeaders.toNat then .error (p.fail .tooManyHeaders)
  else
    .ok
      { p with
        headerCount := p.headerCount + 1, fieldName := { fieldMask := FieldKind.known } }

/-- Prepare for the value of a field. -/
def beginValue : Except Parser Parser :=
  match p.fieldName.field with
  | .contentLength =>
    if p.hasContentLength then .error (p.fail .invalidContentLength)
    else if p.hasTransferEncoding then .error (p.fail .contentLengthConflict)
    else .ok { p with hasContentLength := true, lengthScan := {}, remaining := 0 }
  | .transferEncoding =>
    if p.hasTransferEncoding then .error (p.fail .invalidTransferEncoding)
    else if p.hasContentLength then .error (p.fail .contentLengthConflict)
    else .ok { p with hasTransferEncoding := true, transfer := p.transfer.beginTransferValue }
  | .connection => .ok { p with connection := { p.connection with connectionState := .beforeToken } }
  | .host =>
    if p.hasHost then .error (p.fail .duplicateHost)
    else
      .ok
        { p with
          hasHost := true
          destination :=
            { p.destination with
              hostNonEmpty := false, hostLiteralNonEmpty := false, hostState := .start } }
  | .upgrade =>
    .ok
      { p with
        upgrade :=
          { p.upgrade with upgradeState := .beforeProtocol, upgradeSawProtocol := false } }
  | .other | .trailer => .ok p

def finishFieldName : Except Parser Parser :=
  let p :=
    { p with fieldName := { p.fieldName with field := p.fieldName.namedField p.kind p.trailers } }
  if p.trailers ∧ p.fieldName.field ≠ .other then .error (p.fail .invalidHeaderName)
  else p.beginValue

/-- An octet of a value; only some fields have values that the parser looks into. -/
def consumeFieldValue (b : UInt8) : Except Parser Parser :=
  match p.fieldName.field with
  | .contentLength =>
    let r := p.lengthScan.consumeContentLength p.remaining b
    { p with lengthScan := r.1.1, remaining := r.1.2 }.accept r.2 .invalidContentLength
  | .transferEncoding =>
    let r := p.transfer.consumeTransferValue p.kind b
    { p with transfer := r.1 }.accept r.2 .invalidTransferEncoding
  | .connection =>
    let r := p.connection.consumeConnectionValue p.options b
    { p with connection := r.1.1, options := r.1.2 }.accept r.2 .invalidHeaderValue
  | .host =>
    let r := p.destination.consumeHostValue env b
    { p with destination := r.1 }.accept r.2 .invalidHeaderValue
  | .upgrade =>
    let r := p.upgrade.consumeUpgradeValue b
    { p with upgrade := r.1 }.accept r.2 .invalidHeaderValue
  | .other | .trailer => .ok p

def finishFieldValue : Except Parser Parser :=
  match p.fieldName.field with
  | .contentLength => p.accept p.lengthScan.contentLengthDigits .invalidContentLength
  | .transferEncoding =>
    let r := p.transfer.finishTransferValue
    { p with transfer := r.1 }.accept r.2 .invalidTransferEncoding
  | .connection =>
    let r := p.connection.finishConnectionValue p.options
    { p with options := r.1 }.accept r.2 .invalidHeaderValue
  | .host => p.accept (p.destination.finishHostValue == .none) p.destination.finishHostValue
  | .upgrade =>
    let r := p.upgrade.finishUpgradeValue
    { p with upgrade := r.1 }.accept r.2 .invalidHeaderValue
  | .other | .trailer => .ok p

/-! ## Passes -/

/-- Take octets while they fit. The result says how many were taken. -/
def scan (more : Parser → UInt8 → Bool) (step : Parser → UInt8 → Except Parser Parser) :
    Parser → Bytes → Except Parser Parser × ℕ
  | p, [] => (.ok p, 0)
  | p, b :: src =>
    if more p b then
      match step p b with
      | .error q => (.error q, 0)
      | .ok q =>
        let r := scan more step q src
        (r.1, r.2 + 1)
    else (.ok p, 0)

/-- A pass that takes octets while they fit, reports them, and looks at the one that follows. -/
def scanning (src : Bytes) (more : Parser → UInt8 → Bool)
    (step : Parser → UInt8 → Except Parser Parser) (report : Bytes → List Call)
    (finish : Parser → Option UInt8 → Pass) : Pass :=
  match p.scan more step src with
  | (.error q, n) => { parser := q, n }
  | (.ok q, n) =>
    (finish q (src.drop n).head?).after n (if n = 0 then [] else report (src.take n))

/-- A pass over one octet, which must fit. -/
def expect (fits : Bool) (code : Code) (take : Parser → Except Parser Parser)
    (next : Parser → Pass) : Pass :=
  if fits then attempt (take p) fun p => (next p).after 1 [] else p.halt code

/-- Move to another state. -/
def goto (state : State) (p : Parser) : Pass := { parser := { p with state } }

def passStart (b : UInt8) : Pass :=
  if p.kind = .request ∧ b = octet '\r' then
    p.expect true .none takePrefixByte (goto .leadingLF)
  else
    let w := p.beginMessage env
    { w with
      parser :=
        { w.parser with state := if w.parser.kind = .request then .reqMethod else .resHTTP } }

def stepMethod (b : UInt8) : Except Parser Parser := do
  let p ← p.takeStartByte
  return { p with methodScan := p.methodScan.matchMethod b }

def finishReqMethod : Option UInt8 → Pass
  | none => { parser := p }
  | some b =>
    if p.methodScan.methodPos = 0 then p.halt .invalidMethod
    else if b ≠ octet ' ' then p.halt .invalidMethod
    else
      { p with method := p.methodScan.finishMethod }.expect true .none takeStartByte
        (goto .reqTarget)

def stepTarget (b : UInt8) : Except Parser Parser := do
  let form := p.destination.consumeTargetForm env p.method b
  let p ← { p with destination := form.1 }.accept form.2 .invalidTarget
  let percent := p.destination.consumePercent b
  let p ← { p with destination := percent.1 }.accept percent.2 .invalidTarget
  let p ← p.takeStartByte
  let d := p.destination
  return { p with destination := { d with targetBytes := d.targetBytes + 1 } }

def finishReqTarget : Option UInt8 → Pass
  | none => { parser := p }
  | some b =>
    p.expect (p.destination.finishTarget && b == octet ' ') .invalidTarget takeStartByte fun p =>
      { parser := { p with literalPos := 0, state := .reqHTTP } }

def stepLiteral (b : UInt8) : Except Parser Parser := do
  let p ← p.accept ((ascii "HTTP/")[p.literalPos]? == some b) .invalidStartLine
  let p ← p.takeStartByte
  return { p with literalPos := p.literalPos + 1 }

def finishLiteral : Pass :=
  if p.literalPos = 5 then { parser := { p with major := 0, minor := 0, state := .versionMajor } }
  else { parser := p }

def stepStatus (b : UInt8) : Except Parser Parser := do
  let p ← p.accept (isDigit b) .invalidStatus
  let p ← p.takeStartByte
  return { p with status := p.status * 10 + (b.toNat - 0x30), statusDigits := p.statusDigits + 1 }

def finishStatus : Pass :=
  if p.statusDigits = 3 then
    if p.status < 100 then p.halt .invalidStatus else p.goto .resReasonStart
  else { parser := p }

def stepReason (b : UInt8) : Except Parser Parser := do
  let p ← p.accept (validReasonByte b) .invalidStatus
  p.takeStartByte

def finishReason : Option UInt8 → Pass
  | none => { parser := p }
  | some _ => p.expect true .none takeStartByte (goto .resLineLF)

def passHeaderStart (b : UInt8) : Pass :=
  if b = octet '\r' then p.expect true .none takeHeaderByte (goto .headersLF)
  else if isSpace b then p.halt .invalidHeaderName
  else attempt p.beginHeader (goto .headerName)

def stepHeaderName (b : UInt8) : Except Parser Parser := do
  let p ← p.takeHeaderByte
  let p ← p.accept (p.fieldName.headerNameBytes != p.limits.maxHeaderNameBytes.toNat)
    .headerNameTooLarge
  let name := { p.fieldName with headerNameBytes := p.fieldName.headerNameBytes + 1 }
  return { p with fieldName := name.matchField b }

def finishHeaderName : Option UInt8 → Pass
  | none => { parser := p }
  | some b =>
    p.expect (p.fieldName.headerNameBytes != 0 && b == octet ':') .invalidHeaderName takeHeaderByte
      fun p => attempt p.finishFieldName (goto .headerValueStart)

def finishValueStart : Option UInt8 → Pass
  | none => { parser := p }
  | some _ => p.goto .headerValue

def stepHeaderValue (b : UInt8) : Except Parser Parser := do
  let p ← p.accept (validFieldValueByte b) .invalidHeaderValue
  let p ← p.takeHeaderByte
  p.consumeFieldValue env b

def finishHeaderValue : Option UInt8 → Pass
  | none => { parser := p }
  | some _ => attempt p.finishFieldValue fun p =>
      p.expect true .none takeHeaderByte (goto .headerValueLF)

def endHeader : Pass where
  parser := { p with state := .headerStart }
  calls := [.headerEnd p.trailers]

/-- The end of a header section, or of the trailers and with them of the message. -/
def endHeaders : Pass :=
  if p.trailers then p.completeMessage.after 0 [.chunkComplete] else p.headersComplete

/-- The callback for some octets of a body, if there are any. -/
def bodyCall (span : Bytes) : List Call := if span = [] then [] else [.body span]

def passFixedBody (src : Bytes) : Pass :=
  let take := min src.length p.remaining
  attempt (p.addBody take) fun p =>
    let p := { p with remaining := p.remaining - take }
    (if p.remaining = 0 then p.completeMessage else { parser := p }).after take
      (bodyCall (src.take take))

def passCloseBody (src : Bytes) : Pass :=
  let take := min src.length (p.limits.maxBodyBytes.toNat - p.bodyBytes)
  let p := { p with bodyBytes := p.bodyBytes + take }
  (if take ≠ src.length then p.halt .bodyTooLarge else { parser := p }).after take
    (bodyCall (src.take take))

def passChunkSizeStart : Pass where
  parser := { p with chunkSize := 0, chunkDigits := false, chunkLineBytes := 0, state := .chunkSize }

def stepChunkSize (b : UInt8) : Except Parser Parser := do
  let digit := (hexValue b).getD 0
  let p ← { p with chunkDigits := true }.takeChunkLineByte
  let p ← p.accept (p.chunkSize ≤ (2 ^ 64 - 1 - digit) / 16) .invalidChunkSize
  return { p with chunkSize := p.chunkSize * 16 + digit }

def finishChunkSize : Option UInt8 → Pass
  | none => { parser := p }
  | some b =>
    if !p.chunkDigits then p.halt .invalidChunkSize
    else if b = octet ';' then
      p.expect true .none takeChunkLineByte fun p =>
        { parser := { p with chunkExtState := .beforeName, state := .chunkExt } }
    else p.expect (b == octet '\r') .invalidChunkSize takeChunkLineByte (goto .chunkSizeLF)

def stepChunkExt (b : UInt8) : Except Parser Parser := do
  let p ← p.takeChunkLineByte
  let r := p.chunkExtState.consumeChunkExtension b
  { p with chunkExtState := r.1 }.accept r.2 .invalidChunkExtension

def finishChunkExt : Option UInt8 → Pass
  | none => { parser := p }
  | some _ =>
    if !p.chunkExtState.finishChunkExtension then p.halt .invalidChunkExtension
    else p.expect true .none takeChunkLineByte (goto .chunkSizeLF)

/-- The end of the line of a chunk. -/
def endChunkLine : Pass :=
  if p.chunkSize > p.limits.maxBodyBytes.toNat - p.bodyBytes then p.halt .bodyTooLarge
  else if p.chunkSize = 0 then
    { parser := { p with trailers := true, state := .headerStart }, calls := [.chunkHeader 0] }
  else if p.chunkCount ≥ p.limits.maxChunks.toNat then p.halt .tooManyChunks
  else
    { parser :=
        { p with
          chunkCount := p.chunkCount + 1, remaining := p.chunkSize, state := .chunkBody }
      calls := [.chunkHeader p.chunkSize] }

def passChunkBody (src : Bytes) : Pass :=
  let take := min src.length p.remaining
  attempt (p.addBody take) fun p =>
    let p := { p with remaining := p.remaining - take }
    (if p.remaining = 0 then p.goto .chunkBodyCR else { parser := p }).after take
      (bodyCall (src.take take))

def endChunk : Pass where
  parser := { p with state := .chunkSizeStart }
  calls := [.chunkComplete]

/-- One iteration of the loop, over the octets `b :: src` that are left. -/
def pass (b : UInt8) (src : Bytes) : Pass :=
  match p.state with
  | .start => p.passStart env b
  | .leadingLF => p.expect (b == octet '\n') .invalidLineEnding takePrefixByte (goto .start)
  | .reqMethod =>
    p.scanning (b :: src) (fun _ b => isTChar b) stepMethod (fun s => [.method s]) finishReqMethod
  | .reqTarget =>
    p.scanning (b :: src) (fun _ b => validTargetByte b) (stepTarget env) (fun s => [.target s])
      finishReqTarget
  | .reqHTTP | .resHTTP =>
    p.scanning (b :: src) (fun p _ => p.literalPos < 5) stepLiteral (fun _ => [])
      fun p _ => p.finishLiteral
  | .versionMajor =>
    p.expect (isDigit b) .invalidVersion takeStartByte fun p =>
      { parser := { p with major := b.toNat - 0x30, state := .versionDot } }
  | .versionDot => p.expect (b == octet '.') .invalidVersion takeStartByte (goto .versionMinor)
  | .versionMinor =>
    p.expect (isDigit b) .invalidVersion takeStartByte fun p =>
      { parser :=
          { p with
            minor := b.toNat - 0x30
            state := if p.kind = .request then .reqLineCR else .resSpaceBeforeStatus } }
  | .reqLineCR =>
    if b ≠ octet '\r' then p.halt .invalidLineEnding
    else p.expect (validHTTPVersion p.major p.minor) .invalidVersion takeStartByte (goto .reqLineLF)
  | .reqLineLF | .resLineLF =>
    p.expect (b == octet '\n') .invalidLineEnding takeStartByte startLineComplete
  | .resSpaceBeforeStatus =>
    p.expect (b == octet ' ' && validHTTPVersion p.major p.minor) .invalidStartLine takeStartByte
      fun p => { parser := { p with status := 0, statusDigits := 0, state := .resStatus } }
  | .resStatus =>
    p.scanning (b :: src) (fun p _ => p.statusDigits < 3) stepStatus (fun _ => [])
      fun p _ => p.finishStatus
  | .resReasonStart => p.expect (b == octet ' ') .invalidStatus takeStartByte (goto .resReason)
  | .resReason =>
    p.scanning (b :: src) (fun _ b => b != octet '\r') stepReason (fun s => [.reason s])
      finishReason
  | .headerStart => p.passHeaderStart b
  | .headerName =>
    p.scanning (b :: src) (fun _ b => isTChar b) stepHeaderName (fun s => [.headerName s])
      finishHeaderName
  | .headerValueStart =>
    p.scanning (b :: src) (fun _ b => isSpace b) (fun p _ => p.takeHeaderByte) (fun _ => [])
      finishValueStart
  | .headerValue =>
    p.scanning (b :: src) (fun _ b => b != octet '\r') (stepHeaderValue env)
      (fun s => [.headerValue s]) finishHeaderValue
  | .headerValueLF => p.expect (b == octet '\n') .invalidLineEnding takeHeaderByte endHeader
  | .headersLF => p.expect (b == octet '\n') .invalidLineEnding takeHeaderByte endHeaders
  | .fixedBody => p.passFixedBody (b :: src)
  | .closeBody => p.passCloseBody (b :: src)
  | .chunkSizeStart => p.passChunkSizeStart
  | .chunkSize =>
    p.scanning (b :: src) (fun _ b => (hexValue b).isSome) stepChunkSize (fun _ => [])
      finishChunkSize
  | .chunkExt =>
    p.scanning (b :: src) (fun _ b => b != octet '\r') stepChunkExt (fun _ => []) finishChunkExt
  | .chunkSizeLF => p.expect (b == octet '\n') .invalidLineEnding takeChunkLineByte endChunkLine
  | .chunkBody => p.passChunkBody (b :: src)
  | .chunkBodyCR => p.expect (b == octet '\r') .invalidLineEnding .ok (goto .chunkBodyLF)
  | .chunkBodyLF => p.expect (b == octet '\n') .invalidLineEnding .ok endChunk
  | .upgrade | .dead => p.halt .invalidStartLine

end Parser

/-! ## Calls of the parser -/

/-- The result of a call: the parser, the octets consumed, the code and the callbacks made. -/
structure Parsed where
  parser : Parser
  n : ℕ := 0
  code : Code := .none
  calls : List Call := []
  deriving DecidableEq, Repr

def Parsed.after (n : ℕ) (calls : List Call) (r : Parsed) : Parsed :=
  { r with n := n + r.n, calls := calls ++ r.calls }

namespace Parser

/-- The loop. No two passes in a row consume nothing, so `2 * src.length` passes are enough. -/
def loop (env : Env) : ℕ → Parser → Bytes → Parsed
  | 0, p, _ => { parser := p }
  | _ + 1, p, [] => { parser := p }
  | fuel + 1, p, b :: src =>
    if p.paused then { parser := p }
    else
      let w := p.pass env b src
      if w.parser.code ≠ .none then
        { parser := w.parser, n := w.n, code := w.parser.code, calls := w.calls }
      else if w.parser.state = .upgrade then
        { parser := w.parser, n := w.n, code := .upgrade, calls := w.calls }
      else (loop env fuel w.parser ((b :: src).drop w.n)).after w.n w.calls

variable (env : Env) (p : Parser)

def parseAll (src : Bytes) : Parsed :=
  if p.code ≠ .none then { parser := p, code := p.code }
  else if p.state = .upgrade then { parser := p, code := .upgrade }
  else p.loop env (2 * src.length) src

def runParse (src : Bytes) (pauseAfterMessage : Bool) : Parsed :=
  let r := { p with pauseAfterMessage, paused := false }.parseAll env src
  { r with parser := { r.parser with pauseAfterMessage := false } }

def parse (src : Bytes) : Parsed := p.runParse env src false

/-- Consume at most one message. The parser that results is `paused` if one was completed. -/
def parseOne (src : Bytes) : Parsed := p.runParse env src true

/-- The end of the input. It completes a body that ends with the connection. -/
def finish : Parsed :=
  if p.code ≠ .none then { parser := p, code := p.code }
  else if p.state = .upgrade then { parser := p, code := .upgrade }
  else if p.state = .closeBody then
    let w := p.completeMessage
    { parser := w.parser, code := w.parser.code, calls := w.calls }
  else if p.state = .start ∧ !p.messageActive then { parser := p }
  else { parser := p.fail .unexpectedEOF, code := (p.fail .unexpectedEOF).code }

def setResponseContext (head connect : Bool) : Parser :=
  { p with responseToHEAD := head, responseToCONNECT := connect }

end Parser

def newParser (kind : Kind) (limits : Limits) : Parser :=
  let p : Parser := { limits := limits.normalized, kind }
  if kind = .other then p.fail .invalidKind else p

/-! ## Runs -/

/-- A call of the parser by its user. -/
inductive Input
  | parse (src : Bytes)
  | parseOne (src : Bytes)
  | finish
  | setResponseContext (head connect : Bool)
  deriving DecidableEq, Repr

def Parser.act (env : Env) (p : Parser) : Input → Parsed
  | .parse src => p.parse env src
  | .parseOne src => p.parseOne env src
  | .finish => p.finish
  | .setResponseContext head connect => { parser := p.setResponseContext head connect }

/-- The results of the calls of a run, in order. -/
def Parser.run (env : Env) : Parser → List Input → List Parsed
  | _, [] => []
  | p, i :: is => p.act env i :: Parser.run env (p.act env i).parser is

/-- The parser after a run. -/
def Parser.after (env : Env) : Parser → List Input → Parser
  | p, [] => p
  | p, i :: is => Parser.after env (p.act env i).parser is

/-- The callbacks that a run makes. -/
def Parser.trace (env : Env) (p : Parser) (is : List Input) : List Call :=
  (p.run env is).flatMap (·.calls)

end WagoHttp.Http1
