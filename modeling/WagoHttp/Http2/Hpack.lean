import WagoHttp.Foundations.Bytes

/-!
# Header compression

`HeaderDecoder` wraps the decoder of `golang.org/x/net/http2/hpack` and bounds what it emits. The
compression library itself is not part of the repository: `Externals` is what the package uses of
it, an encoder and a decoder as state machines. It also fixes the order in which each `range` loop
over a map visits the keys, which the language leaves open.

`writeField` gives the encoder after a field together with the octets of the field. The encoder
hands the octets to its writer after it has updated its table, so the new encoder is the same
whether or not the writer takes them.
-/

namespace WagoHttp.Http2

/-- A header field. -/
structure HeaderField where
  name : Bytes
  value : Bytes
  sensitive : Bool := false
  deriving DecidableEq, Repr

/-- What the package uses of code outside the repository. -/
structure Externals where
  /-- The state of `hpack.Encoder`: its table and the pending table size update. -/
  Encoder : Type
  /-- The state of `hpack.Decoder`: its table and the unfinished field representation. -/
  Decoder : Type
  newEncoder : Encoder
  setMaxDynamicTableSizeLimit : UInt32 → Encoder → Encoder
  setMaxDynamicTableSize : UInt32 → Encoder → Encoder
  writeField : HeaderField → Encoder → Encoder × Bytes
  newDecoder : UInt32 → Decoder
  setAllowedMaxDynamicTableSize : UInt32 → Decoder → Decoder
  setMaxStringLength : ℕ → Decoder → Decoder
  /-- The fields emitted by `Decoder.Write`, and its error. -/
  write : Bytes → Decoder → Decoder × List HeaderField × Option String
  close : Decoder → Decoder × Option String
  /-- The order of the keys in the `n`-th `range` loop over a map. -/
  rangeOrder : ℕ → List ℕ → List ℕ
  rangeOrder_perm : ∀ n keys, (rangeOrder n keys).Perm keys

/-- The bounds of the decoder. A zero selects the default. -/
structure HeaderLimits where
  maxDynamicTableBytes : UInt32 := 0
  maxFieldBytes : UInt32 := 0
  maxHeaderListBytes : UInt64 := 0
  maxHeaders : UInt32 := 0
  deriving DecidableEq, Repr

def defaultMaxDynamicTableBytes : UInt32 := 4096
def defaultMaxFieldBytes : UInt32 := 16384
def defaultMaxHeaderListBytes : UInt64 := 65536
def defaultMaxHeaders : UInt32 := 256

def HeaderLimits.normalized (l : HeaderLimits) : HeaderLimits where
  maxDynamicTableBytes :=
    if l.maxDynamicTableBytes = 0 then defaultMaxDynamicTableBytes else l.maxDynamicTableBytes
  maxFieldBytes := if l.maxFieldBytes = 0 then defaultMaxFieldBytes else l.maxFieldBytes
  maxHeaderListBytes :=
    if l.maxHeaderListBytes = 0 then defaultMaxHeaderListBytes else l.maxHeaderListBytes
  maxHeaders := if l.maxHeaders = 0 then defaultMaxHeaders else l.maxHeaders

/-- The errors of the decoder, its own and those of the library. -/
inductive HeaderError
  | headerDecoderState
  | headerListTooLarge
  | tooManyHeaders
  | hpack (message : String)
  deriving DecidableEq, Repr

def HeaderError.message : HeaderError → String
  | .headerDecoderState => "wagohttp/http2: invalid header decoder state"
  | .headerListTooLarge => "wagohttp/http2: decoded header list too large"
  | .tooManyHeaders => "wagohttp/http2: too many decoded headers"
  | .hpack message => message

/-- The bounded decoder. The fields it passes on are returned rather than given to a function. -/
structure HeaderDecoder (X : Externals) where
  decoder : X.Decoder
  limits : HeaderLimits
  active : Bool := false
  fields : ℕ := 0
  listSize : ℕ := 0
  err : Option HeaderError := none

/-- The size of a field in the sense of RFC 7541. -/
def HeaderField.size (field : HeaderField) : ℕ := field.name.length + field.value.length + 32

namespace HeaderDecoder

variable {X : Externals}

def new (X : Externals) (limits : HeaderLimits) : HeaderDecoder X :=
  let limits := limits.normalized
  let decoder := X.newDecoder limits.maxDynamicTableBytes
  let decoder := X.setAllowedMaxDynamicTableSize limits.maxDynamicTableBytes decoder
  { decoder := X.setMaxStringLength limits.maxFieldBytes.toNat decoder, limits }

def beginBlock (d : HeaderDecoder X) : Except HeaderError (HeaderDecoder X) :=
  if d.active then .error .headerDecoderState
  else .ok { d with active := true, fields := 0, listSize := 0, err := none }

/-- Count a field against the bounds, and pass it on if it is within them. -/
def emitField (d : HeaderDecoder X) (field : HeaderField) : HeaderDecoder X × List HeaderField :=
  if d.err ≠ none then (d, [])
  else
    let d := { d with fields := (d.fields + 1) % 2 ^ 32 }
    if d.fields > d.limits.maxHeaders.toNat then ({ d with err := some .tooManyHeaders }, [])
    else if field.size > d.limits.maxHeaderListBytes.toNat - d.listSize then
      ({ d with err := some .headerListTooLarge }, [])
    else ({ d with listSize := d.listSize + field.size }, [field])

/-- The fields of one write, in order. -/
def emitFields (d : HeaderDecoder X) : List HeaderField → HeaderDecoder X × List HeaderField
  | [] => (d, [])
  | field :: fields =>
    let (d, emitted) := d.emitField field
    let (d, rest) := d.emitFields fields
    (d, emitted ++ rest)

/-- Decode one fragment of the active block. -/
def write (d : HeaderDecoder X) (src : Bytes) :
    HeaderDecoder X × List HeaderField × Option HeaderError :=
  if !d.active then (d, [], some .headerDecoderState)
  else if d.err ≠ none then (d, [], d.err)
  else
    let (decoder, fields, err) := X.write src d.decoder
    let (d, emitted) := { d with decoder }.emitFields fields
    (d, emitted, if d.err ≠ none then d.err else err.map .hpack)

/-- End the active block, which fails when a field representation is unfinished. -/
def endBlock (d : HeaderDecoder X) : HeaderDecoder X × Option HeaderError :=
  if !d.active then (d, some .headerDecoderState)
  else
    let (decoder, err) := X.close d.decoder
    ({ d with active := false, decoder }, if d.err ≠ none then d.err else err.map .hpack)

def setAllowedDynamicTableBytes (d : HeaderDecoder X) (size : UInt32) :
    Except HeaderError (HeaderDecoder X) :=
  if d.active ∨ size > d.limits.maxDynamicTableBytes then .error .headerDecoderState
  else .ok { d with decoder := X.setAllowedMaxDynamicTableSize size d.decoder }

/-! ### A block stays active until it ends -/

theorem emitField_active (d : HeaderDecoder X) (field : HeaderField) :
    (d.emitField field).1.active = d.active := by
  unfold emitField
  simp only
  split_ifs <;> rfl

theorem emitFields_active (d : HeaderDecoder X) (fields : List HeaderField) :
    (d.emitFields fields).1.active = d.active := by
  induction fields generalizing d with
  | nil => rfl
  | cons field fields ih => exact (ih _).trans (emitField_active d field)

theorem write_active (d : HeaderDecoder X) (src : Bytes) : (d.write src).1.active = d.active := by
  unfold write
  split_ifs
  · rfl
  · rfl
  · exact emitFields_active _ _

end HeaderDecoder

/-! ## Lossless codecs -/

namespace Externals

variable (X : Externals)

/-- The octets of a block, without a bound. -/
def encodeBlock : List HeaderField → X.Encoder → X.Encoder × Bytes
  | [], encoder => (encoder, [])
  | field :: fields, encoder =>
    let (encoder, src) := X.writeField field encoder
    let (encoder, rest) := encodeBlock fields encoder
    (encoder, src ++ rest)

theorem encodeBlock_cons (field : HeaderField) (fields : List HeaderField) (encoder : X.Encoder) :
    X.encodeBlock (field :: fields) encoder =
      ((X.encodeBlock fields (X.writeField field encoder).1).1,
        (X.writeField field encoder).2 ++
          (X.encodeBlock fields (X.writeField field encoder).1).2) := rfl

/-- The fields of a whole block, unless the decoder reports an error. -/
def decodeBlock (block : Bytes) (decoder : X.Decoder) : Option (X.Decoder × List HeaderField) :=
  match X.write block decoder with
  | (_, _, some _) => none
  | (decoder, fields, none) =>
    match X.close decoder with
    | (_, some _) => none
    | (decoder, none) => some (decoder, fields)

/-- The fields of a sequence of blocks, block by block. -/
def decodeBlocks : List Bytes → X.Decoder → Option (X.Decoder × List (List HeaderField))
  | [], decoder => some (decoder, [])
  | block :: blocks, decoder =>
    match X.decodeBlock block decoder with
    | none => none
    | some (decoder, fields) =>
      (decodeBlocks blocks decoder).map fun (decoder, sections) => (decoder, fields :: sections)

theorem decodeBlocks_concat {X : Externals} {blocks : List Bytes} {block : Bytes}
    {d d' d'' : X.Decoder} {sections : List (List HeaderField)} {fields : List HeaderField}
    (h : X.decodeBlocks blocks d = some (d', sections))
    (hb : X.decodeBlock block d' = some (d'', fields)) :
    X.decodeBlocks (blocks ++ [block]) d = some (d'', sections ++ [fields]) := by
  induction blocks generalizing d sections with
  | nil =>
    cases h
    simp [decodeBlocks, hb]
  | cons b blocks ih =>
    simp only [decodeBlocks, List.cons_append] at h ⊢
    split at h
    · cases h
    · next d₁ fs hd₁ =>
      obtain ⟨⟨d₂, rest⟩, hrest, heq⟩ := Option.map_eq_some_iff.1 h
      cases heq
      simp [ih hrest]

/-- The decoder of a peer: it begins with the default table size, and it takes every later size. -/
def peerDecoder : X.Decoder :=
  X.setAllowedMaxDynamicTableSize 0xffffffff (X.newDecoder defaultMaxDynamicTableBytes)

/-- What the documentation of the library promises: a decoder that is given every block of an
encoder, in order, emits its fields and stays synchronised with it. A change of the table size
reaches the decoder with the next block. -/
structure Lossless (Sync : X.Encoder → X.Decoder → Prop) : Prop where
  start : Sync (X.setMaxDynamicTableSizeLimit defaultMaxDynamicTableBytes X.newEncoder)
    X.peerDecoder
  block : ∀ {encoder decoder} (fields : List HeaderField), Sync encoder decoder →
    ∃ decoder', X.decodeBlock (X.encodeBlock fields encoder).2 decoder = some (decoder', fields) ∧
      Sync (X.encodeBlock fields encoder).1 decoder'
  resize : ∀ {encoder decoder} (v : UInt32), Sync encoder decoder →
    Sync (X.setMaxDynamicTableSize v (X.setMaxDynamicTableSizeLimit v encoder)) decoder

end Externals

end WagoHttp.Http2
