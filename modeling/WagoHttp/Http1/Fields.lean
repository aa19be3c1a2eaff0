import WagoHttp.Http1.Syntax

/-!
# Names and values, octet by octet

The parser of package `http` recognises methods, targets, field names, field values and chunk
extensions while they arrive, one octet at a time. Each of these automata uses a few fields of the
parser of its own; here they are records, with the names of the fields of the source. A function
that can find something wrong returns the record as it stands, and whether to go on.

The source represents the candidates of a name as a bit mask; here they are the list of them, in the
order of the bits. The octets of an address literal are an array and a count in the source, and the
list of the octets in use here.
-/

namespace WagoHttp.Http1

/-- A position that stops at the largest octet. -/
def advance (pos : ℕ) : ℕ := if pos ≠ 255 then pos + 1 else pos

/-! ## Methods -/

structure MethodScan where
  methodPos : ℕ := 0
  methodMask : List Method := []
  deriving DecidableEq, Repr

namespace MethodScan

/-- The methods that begin with an octet. -/
def methodsOf (b : UInt8) : List Method :=
  if b = octet 'G' then [.get]
  else if b = octet 'H' then [.head]
  else if b = octet 'P' then [.post, .put, .patch]
  else if b = octet 'D' then [.delete]
  else if b = octet 'C' then [.connect]
  else if b = octet 'O' then [.options]
  else if b = octet 'T' then [.trace]
  else []

def matchMethod (s : MethodScan) (b : UInt8) : MethodScan where
  methodMask :=
    let fits (m : Method) : Bool := m.name[s.methodPos]? == some b
    if s.methodPos = 0 then methodsOf b
    else
      match s.methodMask with
      | [] => []
      | [m] => if fits m then [m] else []
      | mask => mask.filter fun m => !([Method.post, .put, .patch].contains m) || fits m
  methodPos := advance s.methodPos

def finishMethod (s : MethodScan) : Method :=
  (Method.known.find? fun m => s.methodMask.contains m && s.methodPos == m.name.length).getD .other

end MethodScan

/-! ## Targets and hosts -/

inductive TargetForm
  | unknown
  | origin
  | asterisk
  | scheme
  | absolute
  | authority
  deriving DecidableEq, Repr

inductive HostState
  | start
  | regName
  | percentFirst
  | percentSecond
  | ipLiteral
  | afterLiteral
  | portStart
  | port
  | trailing
  deriving DecidableEq, Repr

/-- Where a request goes: its target and its Host field, which share the room for a literal. -/
structure Destination where
  targetBytes : ℕ := 0
  targetPercent : ℕ := 0
  targetForm : TargetForm := .unknown
  targetAuthorityBracket : Bool := false
  targetAuthorityClosed : Bool := false
  targetAuthorityColon : Bool := false
  targetAuthorityPort : Bool := false
  ipLiteral : Bytes := []
  hostNonEmpty : Bool := false
  hostLiteralNonEmpty : Bool := false
  hostState : HostState := .start
  deriving DecidableEq, Repr

namespace Destination

/-- Add an octet to a literal, if there is room for it. -/
def appendIPLiteral (d : Destination) (b : UInt8) : Destination × Bool :=
  if d.ipLiteral.length = maxIPLiteralBytes then (d, false)
  else ({ d with ipLiteral := d.ipLiteral ++ [b] }, true)

/-- The first octet of a target decides its form. -/
def beginTarget (d : Destination) (method : Method) (b : UInt8) : Destination × Bool :=
  if b = octet '/' then ({ d with targetForm := .origin }, true)
  else if b = octet '*' then ({ d with targetForm := .asterisk }, true)
  else if method = .connect then
    let d := { d with targetForm := .authority }
    if b = octet '[' then ({ d with targetAuthorityBracket := true, ipLiteral := [] }, true)
    else (d, !(ascii ":/?@]").contains b)
  else if isAlpha b then ({ d with targetForm := .scheme }, true)
  else (d, false)

/-- An octet of the target of CONNECT, after the first. -/
def consumeAuthority (env : Env) (d : Destination) (b : UInt8) : Destination × Bool :=
  if d.targetAuthorityBracket then
    if b = octet ']' then
      if !validIPLiteral env d.ipLiteral then (d, false)
      else ({ d with targetAuthorityBracket := false, targetAuthorityClosed := true }, true)
    else d.appendIPLiteral b
  else if !d.targetAuthorityColon then
    if d.targetAuthorityClosed && b != octet ':' then (d, false)
    else if b = octet ':' then ({ d with targetAuthorityColon := true }, true)
    else (d, !(ascii "/?@[]").contains b)
  else if !isDigit b then (d, false)
  else ({ d with targetAuthorityPort := true }, true)

def consumeTargetForm (env : Env) (method : Method) (d : Destination) (b : UInt8) :
    Destination × Bool :=
  if d.targetBytes = 0 then d.beginTarget method b
  else
    match d.targetForm with
    | .asterisk => (d, false)
    | .scheme =>
      if b = octet ':' then ({ d with targetForm := .absolute }, true) else (d, isSchemeChar b)
    | .authority => d.consumeAuthority env b
    | .unknown | .origin | .absolute => (d, true)

/-- Percent escapes in a target are two hexadecimal digits. -/
def consumePercent (d : Destination) (b : UInt8) : Destination × Bool :=
  if d.targetPercent ≠ 0 then
    if !isHexByte b then (d, false)
    else
      ({ d with targetPercent := if d.targetPercent + 1 = 3 then 0 else d.targetPercent + 1 }, true)
  else if b = octet '%' then ({ d with targetPercent := 1 }, true)
  else (d, true)

def finishTarget (d : Destination) : Bool :=
  if d.targetBytes = 0 ∨ d.targetPercent ≠ 0 ∨ d.targetForm = .scheme then false
  else if d.targetForm = .authority ∧
      (d.targetAuthorityBracket ∨ ¬d.targetAuthorityColon ∨ ¬d.targetAuthorityPort) then false
  else true

def consumeHostValue (env : Env) (d : Destination) (b : UInt8) : Destination × Bool :=
  match d.hostState with
  | .start =>
    if b = octet '[' then
      ({ d with
        hostNonEmpty := true, hostLiteralNonEmpty := false, ipLiteral := []
        hostState := .ipLiteral }, true)
    else if isRegNameChar b then ({ d with hostNonEmpty := true, hostState := .regName }, true)
    else if b = octet '%' then ({ d with hostNonEmpty := true, hostState := .percentFirst }, true)
    else (d, false)
  | .regName =>
    if isRegNameChar b then (d, true)
    else if b = octet '%' then ({ d with hostState := .percentFirst }, true)
    else if b = octet ':' then ({ d with hostState := .portStart }, true)
    else if isSpace b then ({ d with hostState := .trailing }, true)
    else (d, false)
  | .percentFirst =>
    if isHexByte b then ({ d with hostState := .percentSecond }, true) else (d, false)
  | .percentSecond => if isHexByte b then ({ d with hostState := .regName }, true) else (d, false)
  | .ipLiteral =>
    if b = octet ']' then
      if !d.hostLiteralNonEmpty || !validIPLiteral env d.ipLiteral then (d, false)
      else ({ d with hostState := .afterLiteral }, true)
    else
      let (d, room) := d.appendIPLiteral b
      if room then ({ d with hostLiteralNonEmpty := true }, true) else (d, false)
  | .afterLiteral =>
    if b = octet ':' then ({ d with hostState := .portStart }, true)
    else if isSpace b then ({ d with hostState := .trailing }, true)
    else (d, false)
  | .portStart =>
    if isDigit b then ({ d with hostState := .port }, true)
    else if isSpace b then ({ d with hostState := .trailing }, true)
    else (d, false)
  | .port =>
    if isDigit b then (d, true)
    else if isSpace b then ({ d with hostState := .trailing }, true)
    else (d, false)
  | .trailing => (d, isSpace b)

/-- The value of a Host field may end here; the code if it may not. -/
def finishHostValue (d : Destination) : Code :=
  if !d.hostNonEmpty then .missingHost
  else
    match d.hostState with
    | .regName | .afterLiteral | .portStart | .port | .trailing => .none
    | _ => .invalidHeaderValue

end Destination

/-! ## Field names -/

structure FieldName where
  headerNameBytes : ℕ := 0
  fieldPos : ℕ := 0
  fieldMask : List FieldKind := []
  field : FieldKind := .other
  deriving DecidableEq, Repr

namespace FieldName

/-- The fields that begin with an octet in lower case. -/
def fieldsOf (b : UInt8) : List FieldKind :=
  if b = octet 'c' then [.contentLength, .connection]
  else if b = octet 't' then [.transferEncoding, .trailer]
  else if b = octet 'u' then [.upgrade]
  else if b = octet 'h' then [.host]
  else []

def matchField (s : FieldName) (b : UInt8) : FieldName :=
  let fits (f : FieldKind) : Bool := f.name[s.fieldPos]? == some (asciiLower b)
  { s with
    fieldMask :=
      if s.fieldPos = 0 then fieldsOf (asciiLower b)
      else
        match s.fieldMask with
        | [f] => if fits f then [f] else []
        | [f, g] => [f, g].filter fits
        | mask => mask
    fieldPos := s.fieldPos + 1 }

/-- The field that a name has turned out to be. Host means nothing in the header of a response. -/
def namedField (s : FieldName) (kind : Kind) (trailers : Bool) : FieldKind :=
  let field := (FieldKind.known.find? fun f =>
    s.fieldMask.contains f && s.fieldPos == f.name.length).getD .other
  if kind = .response ∧ ¬trailers ∧ field = .host then .other else field

end FieldName

/-! ## Content-Length -/

structure LengthScan where
  contentLengthDigits : Bool := false
  contentLengthTrailing : Bool := false
  deriving DecidableEq, Repr

/-- An octet of a Content-Length, with the value of the digits so far. -/
def LengthScan.consumeContentLength (s : LengthScan) (remaining : ℕ) (b : UInt8) :
    (LengthScan × ℕ) × Bool :=
  if isSpace b then
    ((if s.contentLengthDigits then { s with contentLengthTrailing := true } else s, remaining),
      true)
  else if !isDigit b || s.contentLengthTrailing then ((s, remaining), false)
  else
    let s := { s with contentLengthDigits := true }
    let digit := b.toNat - 0x30
    if remaining > (2 ^ 64 - 1 - digit) / 10 then ((s, remaining), false)
    else ((s, remaining * 10 + digit), true)

/-! ## Transfer-Encoding -/

inductive TransferState
  | beforeToken
  | token
  | afterToken
  | paramBeforeName
  | paramName
  | paramAfterName
  | paramBeforeValue
  | paramTokenValue
  | paramQuoted
  | paramQuotedEscape
  | paramAfterValue
  deriving DecidableEq, Repr

structure Transfer where
  transferState : TransferState := .beforeToken
  transferTokenPos : ℕ := 0
  transferChunked : Bool := false
  transferCurrentChunked : Bool := false
  transferSawToken : Bool := false
  transferSawChunked : Bool := false
  deriving DecidableEq, Repr

namespace Transfer

/-- The start of a value. The position in a coding is left as it is until a coding begins. -/
def beginTransferValue (t : Transfer) : Transfer :=
  { t with
    transferState := .beforeToken, transferSawToken := false, transferSawChunked := false
    transferCurrentChunked := false, transferChunked := false }

def finishTransferToken (t : Transfer) : Transfer × Bool :=
  let chunked := t.transferCurrentChunked && t.transferTokenPos == (ascii "chunked").length
  let t :=
    { t with
      transferSawToken := true, transferCurrentChunked := chunked, transferChunked := chunked }
  if chunked then
    if t.transferSawChunked then (t, false) else ({ t with transferSawChunked := true }, true)
  else (t, true)

/-- What may follow a coding: a parameter, unless the coding is chunked, or another coding. -/
def afterTransferToken (t : Transfer) (b : UInt8) : Transfer × Bool :=
  if isSpace b then ({ t with transferState := .afterToken }, true)
  else if b = octet ';' then
    if t.transferChunked then (t, false)
    else ({ t with transferState := .paramBeforeName }, true)
  else if b = octet ',' then ({ t with transferState := .beforeToken }, true)
  else (t, false)

/-- An octet in a coding. -/
def consumeTransferToken (t : Transfer) (b : UInt8) : Transfer × Bool :=
  if isTChar b then
    ({ t with
      transferCurrentChunked :=
        t.transferCurrentChunked && (ascii "chunked")[t.transferTokenPos]? == some (asciiLower b)
      transferTokenPos := advance t.transferTokenPos }, true)
  else if t.transferTokenPos = 0 then (t, false)
  else
    let (t, first) := t.finishTransferToken
    if first then t.afterTransferToken b else (t, false)

def consumeTransferValue (kind : Kind) (t : Transfer) (b : UInt8) : Transfer × Bool :=
  match t.transferState with
  | .beforeToken =>
    if isSpace b then (t, true)
    else if !isTChar b || t.transferSawChunked && kind == .request then (t, false)
    else
      { t with
        transferState := .token, transferTokenPos := 0
        transferCurrentChunked := true }.consumeTransferToken b
  | .token => t.consumeTransferToken b
  | .afterToken => t.afterTransferToken b
  | .paramBeforeName =>
    if isSpace b then (t, true)
    else if !isTChar b then (t, false)
    else ({ t with transferState := .paramName }, true)
  | .paramName =>
    if isTChar b then (t, true)
    else if isSpace b then ({ t with transferState := .paramAfterName }, true)
    else if b = octet '=' then ({ t with transferState := .paramBeforeValue }, true)
    else (t, false)
  | .paramAfterName =>
    if isSpace b then (t, true)
    else if b = octet '=' then ({ t with transferState := .paramBeforeValue }, true)
    else (t, false)
  | .paramBeforeValue =>
    if isSpace b then (t, true)
    else if b = octet '"' then ({ t with transferState := .paramQuoted }, true)
    else if isTChar b then ({ t with transferState := .paramTokenValue }, true)
    else (t, false)
  | .paramTokenValue =>
    if isTChar b then (t, true)
    else if isSpace b then ({ t with transferState := .paramAfterValue }, true)
    else if b = octet ';' then ({ t with transferState := .paramBeforeName }, true)
    else if b = octet ',' then ({ t with transferState := .beforeToken }, true)
    else (t, false)
  | .paramQuoted =>
    if b = octet '\\' then ({ t with transferState := .paramQuotedEscape }, true)
    else if b = octet '"' then ({ t with transferState := .paramAfterValue }, true)
    else (t, isQDText b)
  | .paramQuotedEscape =>
    if !isQuotedPairByte b then (t, false) else ({ t with transferState := .paramQuoted }, true)
  | .paramAfterValue =>
    if isSpace b then (t, true)
    else if b = octet ';' then ({ t with transferState := .paramBeforeName }, true)
    else if b = octet ',' then ({ t with transferState := .beforeToken }, true)
    else (t, false)

def finishTransferValue (t : Transfer) : Transfer × Bool :=
  match t.transferState with
  | .token =>
    let (t, first) := t.finishTransferToken
    (t, first && t.transferSawToken)
  | .afterToken | .paramTokenValue | .paramAfterValue => (t, t.transferSawToken)
  | _ => (t, false)

end Transfer

/-! ## Connection -/

inductive ConnectionState
  | beforeToken
  | token
  | afterToken
  deriving DecidableEq, Repr

/-- The position in a Connection field, and how the option read so far compares. -/
structure ConnectionScan where
  connectionState : ConnectionState := .beforeToken
  connectionTokenPos : ℕ := 0
  connectionCloseMatch : Bool := false
  connectionUpgradeMatch : Bool := false
  connectionKeepAliveMatch : Bool := false
  deriving DecidableEq, Repr

/-- The options of a message that mean something to the parser. -/
structure Options where
  connectionClose : Bool := false
  connectionUpgrade : Bool := false
  connectionKeepAlive : Bool := false
  deriving DecidableEq, Repr

namespace ConnectionScan

def finishConnectionToken (c : ConnectionScan) (o : Options) : Options where
  connectionClose := o.connectionClose ||
    c.connectionCloseMatch && c.connectionTokenPos == (ascii "close").length
  connectionUpgrade := o.connectionUpgrade ||
    c.connectionUpgradeMatch && c.connectionTokenPos == (ascii "upgrade").length
  connectionKeepAlive := o.connectionKeepAlive ||
    c.connectionKeepAliveMatch && c.connectionTokenPos == (ascii "keep-alive").length

def afterConnectionToken (c : ConnectionScan) (b : UInt8) : ConnectionScan × Bool :=
  if isSpace b then ({ c with connectionState := .afterToken }, true)
  else if b = octet ',' then ({ c with connectionState := .beforeToken }, true)
  else (c, false)

/-- An octet in an option. -/
def consumeConnectionToken (c : ConnectionScan) (o : Options) (b : UInt8) :
    (ConnectionScan × Options) × Bool :=
  if isTChar b then
    let fits (word : String) : Bool := (ascii word)[c.connectionTokenPos]? == some (asciiLower b)
    (({ c with
      connectionCloseMatch := c.connectionCloseMatch && fits "close"
      connectionUpgradeMatch := c.connectionUpgradeMatch && fits "upgrade"
      connectionKeepAliveMatch := c.connectionKeepAliveMatch && fits "keep-alive"
      connectionTokenPos := advance c.connectionTokenPos }, o), true)
  else
    let r := c.afterConnectionToken b
    ((r.1, c.finishConnectionToken o), r.2)

def consumeConnectionValue (c : ConnectionScan) (o : Options) (b : UInt8) :
    (ConnectionScan × Options) × Bool :=
  match c.connectionState with
  | .beforeToken =>
    if isSpace b then ((c, o), true)
    else if !isTChar b then ((c, o), false)
    else
      { c with
        connectionState := .token, connectionTokenPos := 0, connectionCloseMatch := true
        connectionUpgradeMatch := true
        connectionKeepAliveMatch := true }.consumeConnectionToken o b
  | .token => c.consumeConnectionToken o b
  | .afterToken =>
    let r := c.afterConnectionToken b
    ((r.1, o), r.2)

def finishConnectionValue (c : ConnectionScan) (o : Options) : Options × Bool :=
  match c.connectionState with
  | .token => (c.finishConnectionToken o, true)
  | .afterToken => (o, true)
  | .beforeToken => (o, false)

end ConnectionScan

/-! ## Upgrade -/

inductive UpgradeState
  | beforeProtocol
  | name
  | afterName
  | versionStart
  | version
  | afterProtocol
  deriving DecidableEq, Repr

structure Upgrade where
  hasUpgrade : Bool := false
  upgradeState : UpgradeState := .beforeProtocol
  upgradeSawProtocol : Bool := false
  deriving DecidableEq, Repr

namespace Upgrade

def consumeUpgradeValue (u : Upgrade) (b : UInt8) : Upgrade × Bool :=
  match u.upgradeState with
  | .beforeProtocol =>
    if isSpace b then (u, true)
    else if isTChar b then ({ u with upgradeState := .name, upgradeSawProtocol := true }, true)
    else (u, false)
  | .name =>
    if isTChar b then (u, true)
    else if b = octet '/' then ({ u with upgradeState := .versionStart }, true)
    else if isSpace b then ({ u with upgradeState := .afterName }, true)
    else if b = octet ',' then ({ u with upgradeState := .beforeProtocol }, true)
    else (u, false)
  | .afterName =>
    if isSpace b then (u, true)
    else if b = octet ',' then ({ u with upgradeState := .beforeProtocol }, true)
    else (u, false)
  | .versionStart => if isTChar b then ({ u with upgradeState := .version }, true) else (u, false)
  | .version =>
    if isTChar b then (u, true)
    else if isSpace b then ({ u with upgradeState := .afterProtocol }, true)
    else if b = octet ',' then ({ u with upgradeState := .beforeProtocol }, true)
    else (u, false)
  | .afterProtocol =>
    if isSpace b then (u, true)
    else if b = octet ',' then ({ u with upgradeState := .beforeProtocol }, true)
    else (u, false)

def finishUpgradeValue (u : Upgrade) : Upgrade × Bool :=
  if !u.upgradeSawProtocol then (u, false)
  else
    match u.upgradeState with
    | .name | .version | .afterName | .afterProtocol => ({ u with hasUpgrade := true }, true)
    | _ => (u, false)

end Upgrade

/-! ## Chunk extensions -/

inductive ChunkExtState
  | beforeName
  | name
  | afterName
  | beforeValue
  | tokenValue
  | quotedValue
  | quotedEscape
  | afterValue
  deriving DecidableEq, Repr

namespace ChunkExtState

def consumeChunkExtension (s : ChunkExtState) (b : UInt8) : ChunkExtState × Bool :=
  match s with
  | .beforeName =>
    if isSpace b then (s, true) else if !isTChar b then (s, false) else (.name, true)
  | .name =>
    if isTChar b then (s, true)
    else if isSpace b then (.afterName, true)
    else if b = octet '=' then (.beforeValue, true)
    else if b = octet ';' then (.beforeName, true)
    else (s, false)
  | .afterName =>
    if isSpace b then (s, true)
    else if b = octet '=' then (.beforeValue, true)
    else if b = octet ';' then (.beforeName, true)
    else (s, false)
  | .beforeValue =>
    if isSpace b then (s, true)
    else if b = octet '"' then (.quotedValue, true)
    else if isTChar b then (.tokenValue, true)
    else (s, false)
  | .tokenValue =>
    if isTChar b then (s, true)
    else if isSpace b then (.afterValue, true)
    else if b = octet ';' then (.beforeName, true)
    else (s, false)
  | .quotedValue =>
    if b = octet '\\' then (.quotedEscape, true)
    else if b = octet '"' then (.afterValue, true)
    else (s, isQDText b)
  | .quotedEscape => if !isQuotedPairByte b then (s, false) else (.quotedValue, true)
  | .afterValue =>
    if isSpace b then (s, true)
    else if b = octet ';' then (.beforeName, true)
    else (s, false)

def finishChunkExtension (s : ChunkExtState) : Bool :=
  match s with
  | .name | .afterName | .tokenValue | .afterValue => true
  | _ => false

end ChunkExtState

end WagoHttp.Http1
