import WagoHttp.Foundations.Bytes

/-!
# HTTP/1 messages

The vocabulary of package `http`: kinds of messages, limits, result codes, methods and the header
fields that the parser understands, and the classes of octets of its grammar.
-/

namespace WagoHttp.Http1

/-! ## Kinds, limits and codes -/

/-- The message grammar a parser accepts. `other` is any value that is neither of the two. -/
inductive Kind
  | request
  | response
  | other
  deriving DecidableEq, Repr

structure Limits where
  maxStartLineBytes : UInt32 := 0
  maxHeaderBytes : UInt32 := 0
  maxChunkLineBytes : UInt32 := 0
  maxChunks : UInt32 := 0
  maxChunkMetadataBytes : UInt64 := 0
  maxHeaderNameBytes : UInt16 := 0
  maxHeaders : UInt16 := 0
  maxBodyBytes : UInt64 := 0
  deriving DecidableEq, Repr

/-- Zero values select the defaults. -/
def Limits.normalized (l : Limits) : Limits where
  maxStartLineBytes := if l.maxStartLineBytes = 0 then 8192 else l.maxStartLineBytes
  maxHeaderBytes := if l.maxHeaderBytes = 0 then 32768 else l.maxHeaderBytes
  maxChunkLineBytes := if l.maxChunkLineBytes = 0 then 8192 else l.maxChunkLineBytes
  maxChunks := if l.maxChunks = 0 then 65536 else l.maxChunks
  maxChunkMetadataBytes :=
    if l.maxChunkMetadataBytes = 0 then 1048576 else l.maxChunkMetadataBytes
  maxHeaderNameBytes := if l.maxHeaderNameBytes = 0 then 256 else l.maxHeaderNameBytes
  maxHeaders := if l.maxHeaders = 0 then 100 else l.maxHeaders
  maxBodyBytes := if l.maxBodyBytes = 0 then 67108864 else l.maxBodyBytes

def maxIPLiteralBytes : ℕ := 64

/-- The result of a call of the parser. -/
inductive Code
  | none
  | upgrade
  | invalidKind
  | invalidStartLine
  | invalidMethod
  | invalidTarget
  | invalidVersion
  | invalidStatus
  | invalidHeaderName
  | invalidHeaderValue
  | invalidLineEnding
  | startLineTooLarge
  | headersTooLarge
  | headerNameTooLarge
  | chunkLineTooLarge
  | chunkMetadataTooLarge
  | tooManyChunks
  | tooManyHeaders
  | invalidContentLength
  | contentLengthConflict
  | invalidTransferEncoding
  | missingHost
  | duplicateHost
  | bodyTooLarge
  | invalidChunkSize
  | invalidChunkExtension
  | unexpectedEOF
  deriving DecidableEq, Repr

/-! ## Methods and fields -/

inductive Method
  | other
  | get
  | head
  | post
  | put
  | delete
  | connect
  | options
  | trace
  | patch
  deriving DecidableEq, Repr

namespace Method

/-- The name of a method that is known. -/
def name : Method → Bytes
  | other => []
  | get => ascii "GET"
  | head => ascii "HEAD"
  | post => ascii "POST"
  | put => ascii "PUT"
  | delete => ascii "DELETE"
  | connect => ascii "CONNECT"
  | options => ascii "OPTIONS"
  | trace => ascii "TRACE"
  | patch => ascii "PATCH"

/-- The methods that are known, in the order of their numbers. -/
def known : List Method := [get, head, post, put, delete, connect, options, trace, patch]

end Method

/-- The header fields that the parser understands. -/
inductive FieldKind
  | other
  | contentLength
  | transferEncoding
  | connection
  | upgrade
  | host
  | trailer
  deriving DecidableEq, Repr

namespace FieldKind

/-- The name of a field that is known, in lower case. -/
def name : FieldKind → Bytes
  | other => []
  | contentLength => ascii "content-length"
  | transferEncoding => ascii "transfer-encoding"
  | connection => ascii "connection"
  | upgrade => ascii "upgrade"
  | host => ascii "host"
  | trailer => ascii "trailer"

/-- The fields that are known, in the order of their numbers. -/
def known : List FieldKind :=
  [contentLength, transferEncoding, connection, upgrade, host, trailer]

end FieldKind

/-! ## Octets -/

/-- What is true of every number below 256 as an octet is true of every octet. -/
theorem forall_octet {P : UInt8 → Prop} (h : ∀ n : Fin 256, P (UInt8.ofNat n)) (b : UInt8) :
    P b := by
  have hb := h ⟨b.toNat, b.toNat_lt⟩
  rwa [UInt8.ofNat_toNat] at hb

def isDigit (b : UInt8) : Bool := octet '0' ≤ b && b ≤ octet '9'

def isAlpha (b : UInt8) : Bool :=
  octet 'A' ≤ b && b ≤ octet 'Z' || octet 'a' ≤ b && b ≤ octet 'z'

/-- Optional whitespace. -/
def isSpace (b : UInt8) : Bool := b == octet ' ' || b == octet '\t'

def isSchemeChar (b : UInt8) : Bool := isDigit b || isAlpha b || (ascii "+-.").contains b

def validTargetByte (b : UInt8) : Bool :=
  isDigit b || isAlpha b || (ascii "!$%&'()*+,-./:;=?@[]_~").contains b

def isQDText (b : UInt8) : Bool :=
  b == octet '\t' || b == octet ' ' || b == octet '!' || 0x23 ≤ b && b ≤ 0x5b ||
    0x5d ≤ b && b ≤ 0x7e || 0x80 ≤ b

def isQuotedPairByte (b : UInt8) : Bool :=
  b == octet '\t' || b == octet ' ' || 0x21 ≤ b && b ≤ 0x7e || 0x80 ≤ b

def validReasonByte (b : UInt8) : Bool := b == octet '\t' || 0x20 ≤ b && b != 0x7f

def validFieldValueByte (b : UInt8) : Bool := b == octet '\t' || 0x20 ≤ b && b != 0x7f

def asciiLower (b : UInt8) : UInt8 := if octet 'A' ≤ b && b ≤ octet 'Z' then b + 0x20 else b

def isTChar (b : UInt8) : Bool :=
  isDigit b || isAlpha b || (ascii "!#$%&'*+-.^_`|~").contains b

def isRegNameChar (b : UInt8) : Bool :=
  isDigit b || isAlpha b || (ascii "!$&'()*+-.;=_~").contains b

/-- The value of a hexadecimal digit. -/
def hexValue (b : UInt8) : Option ℕ :=
  if isDigit b then some (b.toNat - 0x30)
  else if octet 'a' ≤ b && b ≤ octet 'f' then some (b.toNat - 0x61 + 10)
  else if octet 'A' ≤ b && b ≤ octet 'F' then some (b.toNat - 0x41 + 10)
  else none

def isHexByte (b : UInt8) : Bool :=
  isDigit b || octet 'a' ≤ b && b ≤ octet 'f' || octet 'A' ≤ b && b ≤ octet 'F'

def validHTTPVersion (major minor : ℕ) : Bool := major == 1 && (minor == 0 || minor == 1)

/-! ## Address literals -/

/-- What the parser does not decide itself. -/
structure Env where
  /-- The callback that tells which request a response answers: whether it was HEAD, and whether it
  was CONNECT. It is asked once for each message, so its answers depend on the number of the message
  and on that of the exchange. -/
  responseContext : Option (ℕ → ℕ → Bool × Bool) := none
  /-- `netip.ParseAddr` accepts the text, and the address is one of version 6. -/
  parseAddr6 : Bytes → Bool

/-- The octets of a literal with its percent escapes decoded, if they are valid and none is zero. -/
def decodeLiteral : Bytes → Option Bytes
  | [] => some []
  | b :: raw =>
    if b = octet '%' then
      match raw with
      | high :: low :: raw =>
        match hexValue high, hexValue low with
        | some high, some low =>
          if high * 16 + low = 0 then none
          else (decodeLiteral raw).map (UInt8.ofNat (high * 16 + low) :: ·)
        | _, _ => none
      | _ => none
    else if b = 0 then none
    else (decodeLiteral raw).map (b :: ·)

def validIPLiteral (env : Env) (raw : Bytes) : Bool :=
  if raw.length = 0 || raw.length > maxIPLiteralBytes then false
  else
    match decodeLiteral raw with
    | none => false
    | some decoded => env.parseAddr6 decoded

end WagoHttp.Http1
