import WagoHttp.Http2.Frame
import WagoHttp.Http2.Hpack

/-!
# A small codec

An instance of `Externals` on which sessions can be run. It writes and reads the representations of
RFC 7541 without Huffman coding and without references to names. The library writes the same octets
for the fields of the beginning of the static table, for fields that are in the dynamic table, and
for new fields whose name is in no table and whose strings Huffman coding does not shorten. Its
`range` loops keep the order of the keys.
-/

namespace WagoHttp.Http2.SmallHpack

/-! ## Integers and strings -/

/-- The octets of an integer after its first octet. -/
def varIntRest (i : ℕ) : Bytes :=
  if i < 128 then [UInt8.ofNat i] else UInt8.ofNat (128 + i % 128) :: varIntRest (i / 128)

/-- An integer whose first octet has `n` bits for it, under the given flags. -/
def varInt (n flags i : ℕ) : Bytes :=
  if i < 2 ^ n - 1 then [UInt8.ofNat (flags + i)]
  else UInt8.ofNat (flags + (2 ^ n - 1)) :: varIntRest (i - (2 ^ n - 1))

def readIntRest : Bytes → Option (ℕ × Bytes)
  | [] => none
  | b :: src =>
    if b.toNat < 128 then some (b.toNat, src)
    else (readIntRest src).map fun (i, src) => (b.toNat - 128 + 128 * i, src)

def readInt (n : ℕ) : Bytes → Option (ℕ × Bytes)
  | [] => none
  | b :: src =>
    if b.toNat % 2 ^ n < 2 ^ n - 1 then some (b.toNat % 2 ^ n, src)
    else (readIntRest src).map fun (i, src) => (2 ^ n - 1 + i, src)

def string (s : Bytes) : Bytes := varInt 7 0 s.length ++ s

def readString (src : Bytes) : Option (Bytes × Bytes) :=
  match readInt 7 src with
  | none => none
  | some (n, src) => if n ≤ src.length then some (src.take n, src.drop n) else none

/-! ## Tables -/

/-- The beginning of the static table. -/
def staticTable : List HeaderField :=
  [(":authority", ""), (":method", "GET"), (":method", "POST"), (":path", "/"),
    (":path", "/index.html"), (":scheme", "http"), (":scheme", "https"), (":status", "200"),
    (":status", "204"), (":status", "206"), (":status", "304"), (":status", "400"),
    (":status", "404"), (":status", "500")].map fun (name, value) =>
      { name := ascii name, value := ascii value }

/-- The index of the first dynamic entry. -/
def firstDynamic : ℕ := 62

/-- The entries that fit a table, newest first. -/
def fit (max : ℕ) : List HeaderField → List HeaderField
  | [] => []
  | field :: fields => if field.size ≤ max then field :: fit (max - field.size) fields else []

/-- The index of a field in the tables. -/
def index? (table : List HeaderField) (field : HeaderField) : Option ℕ :=
  match staticTable.idxOf? field with
  | some i => some (i + 1)
  | none => (table.idxOf? field).map (firstDynamic + ·)

/-- The field with an index. -/
def lookup? (table : List HeaderField) (i : ℕ) : Option HeaderField :=
  if i = 0 then none
  else if i < firstDynamic then staticTable[i - 1]?
  else table[i - firstDynamic]?

/-! ## Encoding -/

structure Encoder where
  table : List HeaderField := []
  maxSize : ℕ := 4096
  limit : ℕ := 4096
  /-- The least size since the last update that was written, when one has to be written. -/
  update : Option ℕ := none
  deriving DecidableEq

namespace Encoder

def setLimit (v : UInt32) (e : Encoder) : Encoder :=
  if e.maxSize > v.toNat then
    { e with
      limit := v.toNat, maxSize := v.toNat, table := fit v.toNat e.table
      update := some (e.update.getD (2 ^ 32 - 1)) }
  else { e with limit := v.toNat }

def setMaxSize (v : UInt32) (e : Encoder) : Encoder :=
  let size := min v.toNat e.limit
  { e with
    maxSize := size, table := fit size e.table
    update := some (min (e.update.getD (2 ^ 32 - 1)) size) }

/-- The size updates that have to be written. -/
def updates (e : Encoder) : Bytes :=
  match e.update with
  | none => []
  | some least =>
    (if least < e.maxSize then varInt 5 0x20 least else []) ++ varInt 5 0x20 e.maxSize

/-- A field that is in no table. -/
def literal (e : Encoder) (field : HeaderField) : Encoder × Bytes :=
  let strings := string field.name ++ string field.value
  if field.sensitive then (e, 0x10 :: strings)
  else if field.size ≤ e.maxSize then
    ({ e with table := fit e.maxSize (field :: e.table) }, 0x40 :: strings)
  else (e, 0x00 :: strings)

def writeField (field : HeaderField) (e : Encoder) : Encoder × Bytes :=
  let updates := e.updates
  let e := { e with update := none }
  match if field.sensitive then none else index? e.table field with
  | some i => (e, updates ++ varInt 7 0x80 i)
  | none =>
    let (e, src) := e.literal field
    (e, updates ++ src)

end Encoder

/-! ## Decoding -/

structure Decoder where
  table : List HeaderField := []
  maxSize : ℕ := 4096
  /-- The octets of an unfinished representation. -/
  saved : Bytes := []
  deriving DecidableEq

namespace Decoder

def readLiteral (src : Bytes) (sensitive : Bool) : Option (HeaderField × Bytes) :=
  match readString src with
  | none => none
  | some (name, src) =>
    match readString src with
    | none => none
    | some (value, src) => some ({ name, value, sensitive }, src)

/-- One representation: the decoder, the field if it is one, and the octets that follow. -/
def read (d : Decoder) (src : Bytes) : Option (Decoder × Option HeaderField × Bytes) :=
  match src with
  | [] => none
  | b :: rest =>
    if b.toNat ≥ 0x80 then
      match readInt 7 src with
      | none => none
      | some (i, src) => (lookup? d.table i).map fun field => (d, some field, src)
    else if b = 0x40 then
      (readLiteral rest false).map fun (field, src) =>
        ({ d with table := fit d.maxSize (field :: d.table) }, some field, src)
    else if b.toNat / 0x20 = 1 then
      (readInt 5 src).map fun (size, src) =>
        ({ d with maxSize := size, table := fit size d.table }, none, src)
    else (readLiteral rest (b == 0x10)).map fun (field, src) => (d, some field, src)

/-- The representations of `src`, as long as they are complete. -/
def readAll : ℕ → Decoder → Bytes → Decoder × List HeaderField × Bytes
  | 0, d, src => (d, [], src)
  | fuel + 1, d, src =>
    match d.read src with
    | none => (d, [], src)
    | some (d, field, src) =>
      let (d, fields, src) := readAll fuel d src
      (d, field.toList ++ fields, src)

def write (src : Bytes) (d : Decoder) : Decoder × List HeaderField × Option String :=
  if src = [] then (d, [], none)
  else
    let (d, fields, saved) := readAll (d.saved ++ src).length d (d.saved ++ src)
    ({ d with saved }, fields, none)

def close (d : Decoder) : Decoder × Option String :=
  if d.saved = [] then (d, none) else ({ d with saved := [] }, some "truncated headers")

end Decoder

/-- The codec. -/
def externals : Externals where
  Encoder := Encoder
  Decoder := Decoder
  newEncoder := {}
  setMaxDynamicTableSizeLimit := Encoder.setLimit
  setMaxDynamicTableSize := Encoder.setMaxSize
  writeField := Encoder.writeField
  newDecoder size := { maxSize := size.toNat }
  setAllowedMaxDynamicTableSize _ d := d
  setMaxStringLength _ d := d
  write := Decoder.write
  close := Decoder.close
  rangeOrder _ keys := keys
  rangeOrder_perm _ keys := .refl keys

/-! ## Messages -/

/-- A request without a body. -/
def getRequest : List HeaderField :=
  [{ name := ascii ":method", value := ascii "GET" },
    { name := ascii ":scheme", value := ascii "http" },
    { name := ascii ":path", value := ascii "/" }]

/-- The preface and the SETTINGS frame of a client. -/
def clientStart : Bytes := clientPreface ++ frameBytes .settings 0 0 []

/-- The HEADERS frame of `getRequest`, which is the whole request. -/
def getFrame (streamID : ℕ) : Bytes := frameBytes .headers 0x5 streamID [0x82, 0x86, 0x84]

/-- The HEADERS frame of a request that has a body. -/
def postFrame (streamID : ℕ) : Bytes := frameBytes .headers .endHeaders streamID [0x83, 0x86, 0x84]

end WagoHttp.Http2.SmallHpack
