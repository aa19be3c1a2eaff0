import WagoHttp.Http2.Abi.Manager

/-!
# The memory of a guest

The entry points read and write the memory of the guest through slices that they cut at pointers
and lengths from the guest. An index or a slice that is out of bounds panics: a function that cuts
slices returns `none` then. `abiMemory` cuts one slice, and `readABIHeaders` reads a table of
pointers to header fields and follows them.
-/

namespace WagoHttp.Http2.Abi

open List

/-- A part of the memory, whose capacity is its length. -/
structure Slice where
  start : ℕ
  length : ℕ
  deriving DecidableEq, Repr

/-- The number that a little-endian field denotes. -/
def leNat : Bytes → ℕ
  | [] => 0
  | b :: bs => b.toNat + 256 * leNat bs

/-- The four octets of a 32-bit integer, least significant first. -/
def putUint32LE (v : ℕ) : Bytes :=
  [UInt8.ofNat v, UInt8.ofNat (v / 256), UInt8.ofNat (v / 65536), UInt8.ofNat (v / 16777216)]

namespace Slice

variable (memory : Bytes) (x : Slice)

/-- The slice expression `x[lo:hi]`. -/
def sub (lo hi : ℕ) : Option Slice :=
  if lo ≤ hi ∧ hi ≤ x.length then some { start := x.start + lo, length := hi - lo } else none

/-- The octets of the slice. -/
def octets : Bytes := (memory.drop x.start).take x.length

/-- `binary.LittleEndian.Uint32`. -/
def uint32 : Option UInt32 :=
  if x.length < 4 then none else some (UInt32.ofNat (leNat ((x.octets memory).take 4)))

/-- `binary.LittleEndian.Uint32` of the slice expression `x[lo:hi]`. -/
def uint32At (lo hi : ℕ) : Option UInt32 :=
  (x.sub lo hi).bind (uint32 memory)

/-- Copy octets to the slice, as many as fit. -/
def copy (src : Bytes) : Bytes :=
  memory.take x.start ++ src.take x.length ++ memory.drop (x.start + min src.length x.length)

/-- `binary.LittleEndian.PutUint32`. -/
def putUint32 (v : ℕ) : Option Bytes :=
  if x.length < 4 then none else some (x.copy memory (putUint32LE v))

end Slice

/-- The slice of the memory at a pointer, if it is inside. -/
def abiMemory (memory : Bytes) (pointer length : UInt32) : Option (Option Slice) :=
  let «end» := pointer.toNat + length.toNat
  if «end» > memory.length then some none
  else
    (({ start := 0, length := memory.length } : Slice).sub pointer.toNat («end» % 2 ^ 32)).map some

def abiHeaderV1Size : ℕ := 24

/-- One entry of the table of fields. -/
def readABIHeader (memory : Bytes) (encoded : Slice) (limits : HeaderLimits) (index : ℕ) :
    Option (Except Status HeaderField) := do
  let entry ← encoded.sub (index * abiHeaderV1Size % 2 ^ 32) ((index + 1) * abiHeaderV1Size % 2 ^ 32)
  let namePointer ← entry.uint32At memory 0 4
  let nameLength ← entry.uint32At memory 4 8
  let valuePointer ← entry.uint32At memory 8 12
  let valueLength ← entry.uint32At memory 12 16
  let flags ← entry.uint32At memory 16 20
  match ← abiMemory memory namePointer nameLength, ← abiMemory memory valuePointer valueLength with
  | some name, some value =>
    if name.length > limits.maxFieldBytes.toNat ∨ value.length > limits.maxFieldBytes.toNat then
      return .error .invalidArgument
    else
      return .ok
        { name := name.octets memory, value := value.octets memory
          sensitive := flags &&& 1 ≠ 0 }
  | _, _ => return .error .invalidArgument

/-- The size of a field in a header list. -/
def HeaderField.listSize (field : HeaderField) : ℕ := field.name.length + field.value.length + 32

/-- The loop over the table, for the entries from `index` on. -/
def readEntries (memory : Bytes) (encoded : Slice) (limits : HeaderLimits) :
    ℕ → ℕ → ℕ → Option (Except Status (List HeaderField))
  | 0, _, _ => some (.ok [])
  | n + 1, index, listBytes => do
    match ← readABIHeader memory encoded limits index with
    | .error status => return .error status
    | .ok field =>
      let listBytes := (listBytes + HeaderField.listSize field) % 2 ^ 64
      if listBytes > limits.maxHeaderListBytes.toNat then return .error .resourceLimit
      else
        match ← readEntries memory encoded limits n (index + 1) listBytes with
        | .error status => return .error status
        | .ok fields => return .ok (field :: fields)

/-- The header fields of a call. -/
def readABIHeaders (memory : Bytes) (pointer count : UInt32) (limits : HeaderLimits) :
    Option (Except Status (List HeaderField)) := do
  let limits := limits.normalized
  if count > limits.maxHeaders ∨ count.toNat * abiHeaderV1Size > 2 ^ 32 - 1 then
    return .error .resourceLimit
  else
    match ← abiMemory memory pointer (count * 24) with
    | none => return .error .invalidArgument
    | some encoded => readEntries memory encoded limits count.toNat 0 0

/-! ## Slices -/

variable {lo hi : ℕ}

theorem sub_eq {x : Slice} (hlo : lo ≤ hi) (hhi : hi ≤ x.length) :
    x.sub lo hi = some { start := x.start + lo, length := hi - lo } := if_pos ⟨hlo, hhi⟩

/-- **A slice is cut exactly where it is asked for**, unless it ends at the end of a memory of
`2 ^ 32` octets. -/
theorem abiMemory_eq {memory : Bytes} (hlen : memory.length < 2 ^ 32) (pointer length : UInt32) :
    abiMemory memory pointer length =
      some (if pointer.toNat + length.toNat ≤ memory.length then
        some { start := pointer.toNat, length := length.toNat } else none) := by
  unfold abiMemory
  simp only
  by_cases hfits : pointer.toNat + length.toNat ≤ memory.length
  · rw [if_neg (not_lt.2 hfits), if_pos hfits, Nat.mod_eq_of_lt (hfits.trans_lt hlen),
      sub_eq (Nat.le_add_right _ _) hfits]
    simp
  · rw [if_pos (not_le.1 hfits), if_neg hfits]

/-- At the end of a memory of `2 ^ 32` octets the end of the slice wraps to zero. -/
theorem abiMemory_end {memory : Bytes} (hlen : memory.length = 2 ^ 32) :
    abiMemory memory 1 (2 ^ 32 - 1) = none := by
  have hend : (1 : UInt32).toNat + (2 ^ 32 - 1 : UInt32).toNat = 2 ^ 32 := by decide
  unfold abiMemory
  simp only
  rw [hend, hlen, if_neg (lt_irrefl _), Nat.mod_self]
  rfl

/-! ## Header fields -/

/-- The 32-bit integer at a place of the memory. -/
def word (memory : Bytes) (place : ℕ) : UInt32 :=
  UInt32.ofNat (leNat ((memory.drop place).take 4))

/-- The field that an entry of the table describes. -/
def fieldAt (memory : Bytes) (place : ℕ) : HeaderField where
  name := Slice.octets memory
    { start := (word memory place).toNat, length := (word memory (place + 4)).toNat }
  value := Slice.octets memory
    { start := (word memory (place + 8)).toNat, length := (word memory (place + 12)).toNat }
  sensitive := word memory (place + 16) &&& 1 ≠ 0

/-- The name and the value of an entry are inside of the memory, and within the limit. -/
structure ValidEntry (memory : Bytes) (limits : HeaderLimits) (place : ℕ) : Prop where
  name : (word memory place).toNat + (word memory (place + 4)).toNat ≤ memory.length
  value : (word memory (place + 8)).toNat + (word memory (place + 12)).toNat ≤ memory.length
  nameLength : (word memory (place + 4)).toNat ≤ limits.maxFieldBytes.toNat
  valueLength : (word memory (place + 12)).toNat ≤ limits.maxFieldBytes.toNat

/-- The words of an entry are inside of it. -/
theorem uint32At_eq {memory : Bytes} {start length : ℕ} (h : hi ≤ length) (hhi : hi = lo + 4) :
    Slice.uint32At memory { start, length } lo hi = some (word memory (start + lo)) := by
  subst hhi
  rw [Slice.uint32At, sub_eq (Nat.le_add_right _ _) h]
  simp [Slice.uint32, Slice.octets, word, take_take]

section Read

variable {memory : Bytes} {pointer count : ℕ}

/-- An entry of the table is read if it is valid, and refused otherwise. -/
theorem readABIHeader_eq (limits : HeaderLimits) (hlen : memory.length < 2 ^ 32)
    (htable : pointer + count * abiHeaderV1Size ≤ memory.length) {index : ℕ} (hi : index < count) :
    (ValidEntry memory limits (pointer + index * abiHeaderV1Size) ∧
      readABIHeader memory { start := pointer, length := count * abiHeaderV1Size } limits index =
        some (.ok (fieldAt memory (pointer + index * abiHeaderV1Size)))) ∨
    ¬ValidEntry memory limits (pointer + index * abiHeaderV1Size) ∧
      readABIHeader memory { start := pointer, length := count * abiHeaderV1Size } limits index =
        some (.error .invalidArgument) := by
  have hle : (index + 1) * abiHeaderV1Size ≤ count * abiHeaderV1Size :=
    Nat.mul_le_mul_right _ hi
  have hsucc : (index + 1) * abiHeaderV1Size = index * abiHeaderV1Size + 24 := by
    rw [Nat.add_mul, abiHeaderV1Size]
  have hentry : Slice.sub { start := pointer, length := count * abiHeaderV1Size }
      (index * abiHeaderV1Size % 2 ^ 32) ((index + 1) * abiHeaderV1Size % 2 ^ 32) =
        some { start := pointer + index * abiHeaderV1Size, length := 24 } := by
    rw [Nat.mod_eq_of_lt (by omega), Nat.mod_eq_of_lt (by omega), sub_eq (by omega) hle]
    simp [hsucc]
  unfold readABIHeader
  rw [hentry]
  simp only [Option.bind_eq_bind, Option.bind_some]
  generalize pointer + index * abiHeaderV1Size = place
  rw [uint32At_eq (by decide) rfl, uint32At_eq (by decide) rfl, uint32At_eq (by decide) rfl,
    uint32At_eq (by decide) rfl, uint32At_eq (by decide) rfl]
  simp only [Option.bind_some, abiMemory_eq hlen, Nat.add_zero]
  by_cases hname : (word memory place).toNat + (word memory (place + 4)).toNat ≤ memory.length
  · by_cases hvalue :
        (word memory (place + 8)).toNat + (word memory (place + 12)).toNat ≤ memory.length
    · rw [if_pos hname, if_pos hvalue]
      simp only
      split
      · next hlong =>
        refine .inr ⟨fun h => ?_, rfl⟩
        exact hlong.elim (not_lt.2 h.nameLength) (not_lt.2 h.valueLength)
      · next hshort =>
        rw [not_or, gt_iff_lt, gt_iff_lt, not_lt, not_lt] at hshort
        exact .inl ⟨⟨hname, hvalue, hshort.1, hshort.2⟩, rfl⟩
    · rw [if_neg hvalue]
      refine .inr ⟨fun h => hvalue h.value, ?_⟩
      split
      · next heq => cases heq
      · rfl
  · rw [if_neg hname]
    refine .inr ⟨fun h => hname h.name, ?_⟩
    split
    · next heq _ => cases heq
    · rfl

/-- The list size of the fields of a valid entry. -/
theorem listSize_le (hlen : memory.length < 2 ^ 32) (place : ℕ) :
    HeaderField.listSize (fieldAt memory place) ≤ 2 ^ 33 + 32 := by
  unfold HeaderField.listSize fieldAt Slice.octets
  simp only [length_take, length_drop]
  omega

/-- The loop from an entry on: it never panics, and it succeeds exactly on valid entries within the
limit of the list size. -/
theorem readEntries_spec (limits : HeaderLimits) (hlen : memory.length < 2 ^ 32)
    (htable : pointer + count * abiHeaderV1Size ≤ memory.length) (n index listBytes : ℕ)
    (hn : index + n = count) (hlist : listBytes ≤ index * (2 ^ 33 + 32))
    (hlimit : listBytes ≤ limits.maxHeaderListBytes.toNat) :
    ∃ result, readEntries memory { start := pointer, length := count * abiHeaderV1Size } limits n
        index listBytes = some result ∧
      ∀ fields, result = .ok fields ↔
        (∀ i, index ≤ i → i < count →
          ValidEntry memory limits (pointer + i * abiHeaderV1Size)) ∧
        fields = (range' index n).map (fun i => fieldAt memory (pointer + i * abiHeaderV1Size)) ∧
        listBytes + (fields.map HeaderField.listSize).sum ≤ limits.maxHeaderListBytes.toNat := by
  induction n generalizing index listBytes with
  | zero =>
    refine ⟨_, rfl, fun fields => ?_⟩
    simp only [Except.ok.injEq, range'_zero, map_nil]
    constructor
    · rintro rfl
      exact ⟨fun i h1 h2 => absurd h2 (by omega), rfl, by simpa using hlimit⟩
    · exact fun h => h.2.1.symm
  | succ n ih =>
    have hcount : count * 24 < 2 ^ 32 := by
      unfold abiHeaderV1Size at htable
      omega
    have hsize := listSize_le hlen (pointer + index * abiHeaderV1Size)
    have hnowrap : listBytes + HeaderField.listSize
        (fieldAt memory (pointer + index * abiHeaderV1Size)) < 2 ^ 64 := by omega
    unfold readEntries
    rcases readABIHeader_eq limits hlen htable (show index < count by omega) with
      ⟨hvalid, heq⟩ | ⟨hinvalid, heq⟩
    · rw [heq]
      simp only [Option.bind_eq_bind, Option.bind_some]
      rw [Nat.mod_eq_of_lt hnowrap]
      split
      · next hbig =>
        refine ⟨_, rfl, fun fields => ⟨nofun, ?_⟩⟩
        rintro ⟨-, rfl, hle⟩
        rw [range'_succ, map_cons, map_cons, sum_cons] at hle
        omega
      · next hfits =>
        obtain ⟨result, hrest, hiff⟩ := ih (index + 1) _ (by omega)
          (by omega : listBytes + HeaderField.listSize
            (fieldAt memory (pointer + index * abiHeaderV1Size)) ≤ _) (not_lt.1 hfits)
        rw [hrest]
        simp only [Option.bind_some]
        cases result with
        | error status =>
          refine ⟨_, rfl, fun fields => ⟨nofun, ?_⟩⟩
          rintro ⟨hall, rfl, hle⟩
          rw [range'_succ, map_cons, map_cons, sum_cons] at hle
          exact absurd ((hiff _).2 ⟨fun i h1 h2 => hall i (by omega) h2, rfl, by omega⟩) nofun
        | ok rest =>
          obtain ⟨hall, hrest, hle⟩ := (hiff rest).1 rfl
          refine ⟨_, rfl, fun fields => ?_⟩
          rw [Except.ok.injEq]
          constructor
          · rintro rfl
            refine ⟨fun i h1 h2 => ?_, by rw [range'_succ, map_cons, hrest], ?_⟩
            · rcases Nat.eq_or_lt_of_le h1 with rfl | h1
              · exact hvalid
              · exact hall i h1 h2
            · rw [map_cons, sum_cons]
              omega
          · rintro ⟨-, rfl, -⟩
            rw [range'_succ, map_cons, hrest]
    · rw [heq]
      refine ⟨_, rfl, fun fields => ⟨nofun, fun h => ?_⟩⟩
      exact absurd (h.1 index le_rfl (by omega)) hinvalid

end Read

/-- What `readABIHeaders` accepts, and what it returns then. -/
structure ReadsHeaders (memory : Bytes) (pointer count : UInt32) (limits : HeaderLimits)
    (fields : List HeaderField) : Prop where
  few : count ≤ limits.normalized.maxHeaders
  table : pointer.toNat + count.toNat * abiHeaderV1Size ≤ memory.length
  entries : ∀ i < count.toNat,
    ValidEntry memory limits.normalized (pointer.toNat + i * abiHeaderV1Size)
  read : fields = (range count.toNat).map fun i =>
    fieldAt memory (pointer.toNat + i * abiHeaderV1Size)
  size : (fields.map HeaderField.listSize).sum ≤ limits.normalized.maxHeaderListBytes.toNat

/-- **The header fields of a call are read exactly.** -/
theorem readABIHeaders_spec {memory : Bytes} (hlen : memory.length < 2 ^ 32)
    (pointer count : UInt32) (limits : HeaderLimits) :
    ∃ result, readABIHeaders memory pointer count limits = some result ∧
      ∀ fields, result = .ok fields ↔ ReadsHeaders memory pointer count limits fields := by
  unfold readABIHeaders
  simp only
  split
  · next hmany =>
    refine ⟨_, rfl, fun fields => ⟨nofun, fun h => ?_⟩⟩
    rcases hmany with hmany | hmany
    · exact absurd h.few (UInt32.not_le.2 hmany)
    · have := h.table
      omega
  next hfew =>
  rw [not_or] at hfew
  have hmul : (count * 24).toNat = count.toNat * abiHeaderV1Size := by
    rw [UInt32.toNat_mul, Nat.mod_eq_of_lt]
    · rfl
    · have := hfew.2
      change count.toNat * 24 < 2 ^ 32
      unfold abiHeaderV1Size at this
      omega
  rw [abiMemory_eq hlen, hmul]
  by_cases htable : pointer.toNat + count.toNat * abiHeaderV1Size ≤ memory.length
  · rw [if_pos htable]
    simp only [Option.bind_eq_bind, Option.bind_some]
    obtain ⟨result, heq, hiff⟩ := readEntries_spec limits.normalized hlen htable
      count.toNat 0 0 (Nat.zero_add _) (Nat.zero_le _) (Nat.zero_le _)
    refine ⟨result, heq, fun fields => (hiff fields).trans ?_⟩
    rw [← range_eq_range', Nat.zero_add]
    constructor
    · rintro ⟨hall, hfields, hsize⟩
      exact ⟨UInt32.not_lt.1 hfew.1, htable, fun i hi => hall i (Nat.zero_le _) hi, hfields, hsize⟩
    · rintro ⟨-, -, hall, hfields, hsize⟩
      exact ⟨fun i _ hi => hall i hi, hfields, hsize⟩
  · rw [if_neg htable]
    exact ⟨_, rfl, fun fields => ⟨nofun, fun h => absurd h.table htable⟩⟩

end WagoHttp.Http2.Abi
