import WagoHttp.Http2.Hpack

/-!
# Field sections

The validation of a field section of an HTTP/2 message (`validateHeaderSection`) and what the
session reads from one (`inspectHeaderSection`): whether it is a request or a response, the method
and the status, and the declared content length.
-/

namespace WagoHttp.Http2

/-- Which side of a connection a session implements. -/
inductive Role
  | client
  | server
  deriving DecidableEq, Repr

structure HeaderSectionMetadata where
  request : Bool := false
  response : Bool := false
  informational : Bool := false
  noBody : Bool := false
  invalid : Bool := false
  method : Bytes := []
  status : Bytes := []
  hasContentLength : Bool := false
  contentLength : ℕ := 0
  deriving DecidableEq, Repr

def maxUint64 : ℕ := 2 ^ 64 - 1

/-- The loop of `parseSessionContentLength`, with the value of the digits read so far. -/
def parseContentLengthDigits (parsed : ℕ) : Bytes → Option ℕ
  | [] => some parsed
  | b :: value =>
    if b < octet '0' ∨ b > octet '9' then none
    else
      let digit := (b - octet '0').toNat
      if parsed > (maxUint64 - digit) / 10 then none
      else parseContentLengthDigits (parsed * 10 + digit) value

def parseSessionContentLength (value : Bytes) : Option ℕ :=
  if value = [] then none else parseContentLengthDigits 0 value

/-- What one field adds to the metadata of its section. -/
def inspectField (m : HeaderSectionMetadata) (field : HeaderField) : HeaderSectionMetadata :=
  if field.name = ascii ":method" then { m with request := true, method := field.value }
  else if field.name = ascii ":status" then
    { m with
      response := true
      status := field.value
      informational :=
        m.informational || (field.value.length == 3 && field.value.head? == some (octet '1'))
      noBody := field.value == ascii "204" || field.value == ascii "304" }
  else if field.name = ascii "content-length" then
    if m.hasContentLength then { m with invalid := true }
    else
      match parseSessionContentLength field.value with
      | none => { m with invalid := true }
      | some value => { m with hasContentLength := true, contentLength := value }
  else m

def inspectHeaderSection (headers : List HeaderField) : HeaderSectionMetadata :=
  let m := headers.foldl inspectField {}
  if m.status = ascii "204" ∧ m.hasContentLength then { m with invalid := true } else m

def firstNonEmpty (current next : Bytes) : Bytes := if current ≠ [] then current else next

/-- The octets of a token, with letters in lower case only. -/
def lowerTokenByte (b : UInt8) : Bool :=
  (octet 'a' ≤ b && b ≤ octet 'z') || (octet '0' ≤ b && b ≤ octet '9') ||
    b ∈ ascii "!#$%&'*+-.^_`|~"

def validSessionHeaderName (name : Bytes) : Bool :=
  match name with
  | [] => false
  | b :: rest =>
    if b = octet ':' then !rest.isEmpty && rest.all lowerTokenByte else name.all lowerTokenByte

def isBlank (b : UInt8) : Bool := b == octet ' ' || b == octet '\t'

def validSessionHeaderValue (value : Bytes) : Bool :=
  !(value.head?.any isBlank || value.getLast?.any isBlank) &&
    value.all fun b => !(b != octet '\t' && b < 0x20 || b == 0x7f)

def isConnectionSpecific (name value : Bytes) : Bool :=
  if name = ascii "connection" ∨ name = ascii "proxy-connection" ∨ name = ascii "keep-alive" ∨
      name = ascii "transfer-encoding" ∨ name = ascii "upgrade" then true
  else if name = ascii "te" then value != ascii "trailers"
  else false

/-- The local variables of the loop of `validateHeaderSection`. -/
structure SectionScan where
  pseudoDone : Bool := false
  seen : List Bytes := []
  method : Bytes := []
  scheme : Bytes := []
  authority : Bytes := []
  path : Bytes := []
  protocol : Bytes := []
  status : Bytes := []
  deriving DecidableEq, Repr

/-- Record a pseudo-field, if it is a known one. -/
def SectionScan.setPseudo (v : SectionScan) (field : HeaderField) : Option SectionScan :=
  let v := { v with seen := field.name :: v.seen }
  if field.name = ascii ":method" then some { v with method := field.value }
  else if field.name = ascii ":scheme" then some { v with scheme := field.value }
  else if field.name = ascii ":authority" then some { v with authority := field.value }
  else if field.name = ascii ":path" then some { v with path := field.value }
  else if field.name = ascii ":protocol" then some { v with protocol := field.value }
  else if field.name = ascii ":status" then some { v with status := field.value }
  else none

/-- One field of the section, or `none` when the section is malformed. -/
def SectionScan.field (trailer : Bool) (v : SectionScan) (field : HeaderField) :
    Option SectionScan :=
  if !validSessionHeaderName field.name || !validSessionHeaderValue field.value then none
  else if field.name.head? = some (octet ':') then
    if trailer || v.pseudoDone || v.seen.contains field.name then none
    else v.setPseudo field
  else if isConnectionSpecific field.name field.value then none
  else some { v with pseudoDone := true }

/-- The pseudo-fields of a request section. -/
def validRequestPseudo (v : SectionScan) (extendedConnect : Bool) : Bool :=
  if v.method = [] ∨ v.status ≠ [] then false
  else if v.method = ascii "CONNECT" then
    if v.protocol = [] then !(v.authority.isEmpty || !v.scheme.isEmpty || !v.path.isEmpty)
    else !(!extendedConnect || v.authority.isEmpty || v.scheme.isEmpty || v.path.isEmpty)
  else !(v.scheme.isEmpty || v.path.isEmpty || !v.protocol.isEmpty)

/-- The pseudo-fields of a response section. -/
def validResponsePseudo (v : SectionScan) : Bool :=
  if v.status.length ≠ 3 ∨ v.method ≠ [] ∨ v.scheme ≠ [] ∨ v.authority ≠ [] ∨ v.path ≠ [] ∨
      v.protocol ≠ [] then false
  else v.status.all (fun b => octet '0' ≤ b && b ≤ octet '9') && v.status != ascii "101"

/-- Whether a section sent (`outbound`) or received by an endpoint of the given role is valid. -/
def validateHeaderSection (role : Role) (outbound trailer : Bool) (headers : List HeaderField)
    (extendedConnect : Bool) : Bool :=
  if headers = [] then false
  else if (inspectHeaderSection headers).invalid then false
  else
    match headers.foldlM (SectionScan.field trailer) {} with
    | none => false
    | some v =>
      if trailer then true
      else if role = .client && outbound || role = .server && !outbound then
        validRequestPseudo v extendedConnect
      else validResponsePseudo v

end WagoHttp.Http2
