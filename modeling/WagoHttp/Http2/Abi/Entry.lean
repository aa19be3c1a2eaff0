import WagoHttp.Http2.Abi.Memory
import WagoHttp.Http2.SmallHpack

/-!
# The entry points

The functions that the module exports to its guests, with the arguments as the guest passes them.
A call that would index or slice out of bounds is `none`. `abi_exact` says for which memories the
access of the guests is exact and total: for all that are shorter than `2 ^ 32` octets.
-/

namespace WagoHttp.Http2.Abi

/-- What an entry point returns to the guest. -/
inductive Result
  | status (status : Status)
  | value (value : ℕ)
  deriving DecidableEq, Repr

/-- The state after a call. The result is missing if the call has the wrong number of arguments. -/
structure Return (X : Externals) where
  manager : Manager X
  memory : Bytes
  result : Option Result := none

namespace Manager

variable {X : Externals}

/-- Return a status. -/
def status (m : Manager X) (memory : Bytes) (status : Status) : Option (Return X) :=
  some { manager := m, memory, result := some (.status status) }

/-- A call with the wrong number of arguments or results does nothing. -/
def ignore (m : Manager X) (memory : Bytes) : Option (Return X) := some { manager := m, memory }

/-- `lookup`, for a call that goes on with the session. The caller is `none` if the host does not
identify its instance. -/
def withSession (m : Manager X) (caller : Option ℕ) (memory : Bytes) (handle : UInt64)
    (body : Manager X → ℕ → AbiSession X → Option (Return X)) : Option (Return X) :=
  match caller with
  | none => m.status memory .invalidState
  | some inst =>
    let (m, r) := m.caller inst
    match (m.find r handle.toUInt32).bind fun p => (m.sessions p).map fun x => (p, x) with
    | none => m.status memory .badHandle
    | some (p, x) => body m p x

/-- Store the session after an operation, and return the status for its error. -/
def settle (m : Manager X) (p : ℕ) (x : AbiSession X) (memory : Bytes)
    (r : Session X × Option SessionError) : Option (Return X) :=
  (m.setSession p { x with session := r.1 }).status memory (statusForError r.2)

/-- Pass octets of the guest and a place for their count to the rest of a call. -/
def withCount (m : Manager X) (memory : Bytes) (pointer length count : UInt64)
    (body : Slice → Slice → Option (Return X)) : Option (Return X) := do
  let data ← abiMemory memory pointer.toUInt32 length.toUInt32
  let count ← abiMemory memory count.toUInt32 4
  match data, count with
  | some data, some count => body data count
  | _, _ => m.status memory .invalidArgument

/-! The arguments of an entry point: the caller, the memory of the guest and the words of the call. -/
variable (m : Manager X) (caller : Option ℕ) (memory : Bytes) (params : List UInt64) (results : ℕ)

def sessionOpen : Option (Return X) := do
  match params, results with
  | [role, out], 1 =>
    match caller with
    | none => m.status memory .invalidState
    | some inst =>
      let (m, r) := m.caller inst
      match ← abiMemory memory out.toUInt32 4 with
      | none => m.status memory .invalidArgument
      | some out =>
        match m.insert r (roleOf role.toUInt32) with
        | (m, .error err) => m.status memory err
        | (m, .ok handle) => m.status (← out.putUint32 memory handle.toNat) .ok
  | _, _ => m.ignore memory

def sessionClose : Option (Return X) :=
  match params, results with
  | [handle], 1 =>
    match caller with
    | none => m.status memory .invalidState
    | some inst =>
      let (m, r) := m.caller inst
      match m.remove r handle.toUInt32 with
      | (m, none) => m.status memory .badHandle
      | (m, some p) => (m.closeSession p).status memory .ok
  | _, _ => m.ignore memory

def sessionFeed : Option (Return X) :=
  match params, results with
  | [handle, pointer, length, consumed], 1 =>
    m.withSession caller memory handle fun m p x =>
      m.withCount memory pointer length consumed fun src consumed => do
        let fed := x.session.feed (src.octets memory)
        m.settle p x (← consumed.putUint32 memory fed.n) (fed.session, fed.err)
  | _, _ => m.ignore memory

def sessionOutput : Option (Return X) :=
  match params, results with
  | [handle, pointer, length, written], 1 =>
    m.withSession caller memory handle fun m p x =>
      m.withCount memory pointer length written fun dst written => do
        if x.session.output = [] then m.status (← written.putUint32 memory 0) .again
        else
          let n := min dst.length x.session.output.length
          let copied := dst.copy memory x.session.output
          m.settle p x (← written.putUint32 copied n) ((x.session.consumeOutput n).1, none)
  | _, _ => m.ignore memory

/-- Open a stream with headers of the guest, and return the stream to it. -/
def settleStream (m : Manager X) (p : ℕ) (x : AbiSession X) (memory : Bytes)
    (pointer count out : UInt64) (op : List HeaderField → Session X × Except SessionError ℕ) :
    Option (Return X) := do
  let headers ← readABIHeaders memory pointer.toUInt32 count.toUInt32 x.session.limits.header
  let out ← abiMemory memory out.toUInt32 4
  match headers, out with
  | _, none => m.status memory .invalidArgument
  | .error status, some _ => m.status memory status
  | .ok headers, some out =>
    match op headers with
    | (session, .error err) => m.settle p x memory (session, some err)
    | (session, .ok streamID) => m.settle p x (← out.putUint32 memory streamID) (session, none)

/-- Pass octets of the guest to an operation. -/
def settleOctets (m : Manager X) (p : ℕ) (x : AbiSession X) (memory : Bytes)
    (pointer length : UInt32) (op : Bytes → Session X × Option SessionError) :
    Option (Return X) := do
  match ← abiMemory memory pointer length with
  | none => m.status memory .invalidArgument
  | some src => m.settle p x memory (op (src.octets memory))

def streamOpen : Option (Return X) :=
  match params, results with
  | [handle, pointer, count, flags, out], 1 =>
    m.withSession caller memory handle fun m p x =>
      m.settleStream p x memory pointer count out
        (x.session.openStream · (flags.toUInt32 &&& 1 ≠ 0))
  | _, _ => m.ignore memory

def streamHeaders : Option (Return X) :=
  match params, results with
  | [handle, streamID, pointer, count, flags], 1 =>
    m.withSession caller memory handle fun m p x => do
      match ← readABIHeaders memory pointer.toUInt32 count.toUInt32 x.session.limits.header with
      | .error status => m.status memory status
      | .ok headers =>
        m.settle p x memory (x.session.sendHeaders streamID.toUInt32.toNat headers
          (flags.toUInt32 &&& 1 ≠ 0))
  | _, _ => m.ignore memory

def streamData : Option (Return X) :=
  match params, results with
  | [handle, streamID, pointer, length, flags, consumed], 1 =>
    m.withSession caller memory handle fun m p x =>
      m.withCount memory pointer length consumed fun src consumed => do
        match x.session.sendData streamID.toUInt32.toNat (src.octets memory)
            (flags.toUInt32 &&& 1 ≠ 0) with
        | (session, .error err) =>
          m.settle p x (← consumed.putUint32 memory 0) (session, some err)
        | (session, .ok n) => m.settle p x (← consumed.putUint32 memory n) (session, none)
  | _, _ => m.ignore memory

def streamPush : Option (Return X) :=
  match params, results with
  | [handle, parent, pointer, count, out], 1 =>
    m.withSession caller memory handle fun m p x =>
      m.settleStream p x memory pointer count out (x.session.pushPromise parent.toUInt32.toNat)
  | _, _ => m.ignore memory

def abiSettingV1Size : ℕ := 8

/-- One setting of an update. -/
def readSetting (memory : Bytes) (encoded : Slice) (index : ℕ) : Option Setting := do
  let entry ← encoded.sub (index * abiSettingV1Size % 2 ^ 32)
    ((index + 1) * abiSettingV1Size % 2 ^ 32)
  return { id := (← entry.uint32At memory 0 4).toUInt16, value := ← entry.uint32At memory 4 8 }

def sessionSettings : Option (Return X) :=
  match params, results with
  | [handle, pointer, count], 1 =>
    m.withSession caller memory handle fun m p x => do
      if count.toUInt32 > 64 then m.status memory .resourceLimit
      else
        match ← abiMemory memory pointer.toUInt32 (count.toUInt32 * 8) with
        | none => m.status memory .invalidArgument
        | some encoded =>
          let settings ← (List.range count.toUInt32.toNat).mapM (readSetting memory encoded)
          m.settle p x memory (x.session.updateSettings settings)
  | _, _ => m.ignore memory

/-- The octets of a PING, from a copy that fills an array of eight. -/
def pingData (data : Bytes) : Vector UInt8 8 := Vector.ofFn fun i => data.getD i 0

def sessionPing : Option (Return X) :=
  match params, results with
  | [handle, pointer], 1 =>
    m.withSession caller memory handle fun m p x =>
      m.settleOctets p x memory pointer.toUInt32 8 fun data => x.session.ping (pingData data)
  | _, _ => m.ignore memory

def sessionGoAway : Option (Return X) :=
  match params, results with
  | [handle, code, pointer, length], 1 =>
    m.withSession caller memory handle fun m p x =>
      m.settleOctets p x memory pointer.toUInt32 length.toUInt32 (x.session.goAway code.toUInt32)
  | _, _ => m.ignore memory

def streamPriorityUpdate : Option (Return X) :=
  match params, results with
  | [handle, streamID, pointer, length], 1 =>
    m.withSession caller memory handle fun m p x =>
      m.settleOctets p x memory pointer.toUInt32 length.toUInt32
        (x.session.priorityUpdate streamID.toUInt32.toNat)
  | _, _ => m.ignore memory

def streamReset : Option (Return X) :=
  match params, results with
  | [handle, streamID, code], 1 =>
    m.withSession caller memory handle fun m p x =>
      m.settle p x memory (x.session.resetStream streamID.toUInt32.toNat code.toUInt32)
  | _, _ => m.ignore memory

/-- The codes of the types of events. -/
def eventCode : EventType → ℕ
  | .settings => 1
  | .settingsAck => 2
  | .headers => 3
  | .data => 4
  | .streamEnd => 5
  | .streamReset => 6
  | .ping => 7
  | .pingAck => 8
  | .goAway => 9
  | .priority => 10
  | .priorityUpdate => 11
  | .pushPromise => 12
  | .windowUpdate => 13

/-- The data of an event: the octets of a PING, or the payload. -/
def eventPayload (event : Event) : Bytes :=
  if event.type = .ping ∨ event.type = .pingAck then event.ping else event.data

def abiEventDataLength (event : Event) : ℕ :=
  if event.type = .ping ∨ event.type = .pingAck then 8 else min event.data.length (2 ^ 32 - 1)

def abiEventV1Size : UInt32 := 32

/-- The words of an event. -/
def eventWords (event : Event) : List ℕ :=
  [eventCode event.type, event.streamID,
    (if event.endStream then 1 else 0) + (if event.trailer then 2 else 0), event.errorCode.toNat,
    if event.type = .windowUpdate then event.windowIncrement else event.lastStreamID,
    abiEventDataLength event, event.headers.length % 2 ^ 32, event.settings.length % 2 ^ 32]

/-- Write words to consecutive places of a slice. -/
def putWords (dst : Slice) : ℕ → List ℕ → Bytes → Option Bytes
  | _, [], memory => some memory
  | place, v :: vs, memory => do
    putWords dst (place + 4) vs (← (← dst.sub place (place + 4)).putUint32 memory v)

def eventNext : Option (Return X) :=
  match params, results with
  | [handle, pointer], 1 =>
    m.withSession caller memory handle fun m p x => do
      match ← abiMemory memory pointer.toUInt32 abiEventV1Size with
      | none => m.status memory .invalidArgument
      | some dst =>
        match x.session.nextEvent with
        | (session, none) => (m.setSession p { x with session }).status memory .again
        | (session, some event) =>
          (m.setSession p { session, current := some event }).status
            (← putWords dst 0 (eventWords event) memory) .ok
  | _, _ => m.ignore memory

def eventData : Option (Return X) :=
  match params, results with
  | [handle, pointer, length, written], 1 =>
    m.withSession caller memory handle fun m _ x =>
      match x.current with
      | none => m.status memory .invalidState
      | some event =>
        m.withCount memory pointer length written fun dst written => do
          let n := min dst.length (eventPayload event).length
          m.status (← written.putUint32 (dst.copy memory (eventPayload event)) n) .ok
  | _, _ => m.ignore memory

def eventHeader : Option (Return X) :=
  match params, results with
  | [handle, index, namePointer, nameRoom, nameLen, valuePointer, valueRoom, valueLen], 1 =>
    m.withSession caller memory handle fun m _ x => do
      match x.current with
      | none => m.status memory .invalidArgument
      | some event =>
        if index.toUInt32 ≥ UInt32.ofNat event.headers.length then
          m.status memory .invalidArgument
        else
          let field ← event.headers[index.toUInt32.toNat]?
          let name ← abiMemory memory namePointer.toUInt32 nameRoom.toUInt32
          let nameLen ← abiMemory memory nameLen.toUInt32 4
          let value ← abiMemory memory valuePointer.toUInt32 valueRoom.toUInt32
          let valueLen ← abiMemory memory valueLen.toUInt32 4
          match name, nameLen, value, valueLen with
          | some name, some nameLen, some value, some valueLen =>
            let memory := value.copy (name.copy memory field.name) field.value
            let memory ← nameLen.putUint32 memory field.name.length
            let memory ← valueLen.putUint32 memory field.value.length
            if name.length < field.name.length ∨ value.length < field.value.length then
              m.status memory .messageTooLarge
            else m.status memory .ok
          | _, _, _, _ => m.status memory .invalidArgument
  | _, _ => m.ignore memory

def eventSetting : Option (Return X) :=
  match params, results with
  | [handle, index, pointer], 1 =>
    m.withSession caller memory handle fun m _ x => do
      match x.current with
      | none => m.status memory .invalidArgument
      | some event =>
        if index.toUInt32 ≥ UInt32.ofNat event.settings.length then
          m.status memory .invalidArgument
        else
          match ← abiMemory memory pointer.toUInt32 8 with
          | none => m.status memory .invalidArgument
          | some dst =>
            let setting ← event.settings[index.toUInt32.toNat]?
            m.status (← putWords dst 0 [setting.id.toNat, setting.value.toNat] memory) .ok
  | _, _ => m.ignore memory

/-- The entry points that answer with a constant. -/
def constant (value : ℕ) (m : Manager X) (memory : Bytes) (params : List UInt64) (results : ℕ) :
    Option (Return X) :=
  match params, results with
  | [], 1 => some { manager := m, memory, result := some (.value value) }
  | _, _ => m.ignore memory

end Manager

/-- The entry points of the module. -/
inductive EntryPoint
  | abiVersion
  | featureFlags
  | sessionOpen
  | sessionClose
  | sessionFeed
  | sessionOutput
  | streamOpen
  | streamHeaders
  | streamData
  | streamPush
  | streamReset
  | streamPriorityUpdate
  | sessionSettings
  | sessionPing
  | sessionGoAway
  | eventNext
  | eventData
  | eventHeader
  | eventSetting
  deriving DecidableEq, Repr

/-- A call of an entry point, or `none` if it indexes or slices out of bounds. -/
def EntryPoint.call {X : Externals} (entry : EntryPoint) (m : Manager X) (caller : Option ℕ)
    (memory : Bytes) (params : List UInt64) (results : ℕ) : Option (Return X) :=
  match entry with
  | .abiVersion => m.constant 0x00010000 memory params results
  | .featureFlags => m.constant 63 memory params results
  | .sessionOpen => m.sessionOpen caller memory params results
  | .sessionClose => m.sessionClose caller memory params results
  | .sessionFeed => m.sessionFeed caller memory params results
  | .sessionOutput => m.sessionOutput caller memory params results
  | .streamOpen => m.streamOpen caller memory params results
  | .streamHeaders => m.streamHeaders caller memory params results
  | .streamData => m.streamData caller memory params results
  | .streamPush => m.streamPush caller memory params results
  | .streamReset => m.streamReset caller memory params results
  | .streamPriorityUpdate => m.streamPriorityUpdate caller memory params results
  | .sessionSettings => m.sessionSettings caller memory params results
  | .sessionPing => m.sessionPing caller memory params results
  | .sessionGoAway => m.sessionGoAway caller memory params results
  | .eventNext => m.eventNext caller memory params results
  | .eventData => m.eventData caller memory params results
  | .eventHeader => m.eventHeader caller memory params results
  | .eventSetting => m.eventSetting caller memory params results

/-! ## No entry point goes out of bounds -/

open List

section Total

variable {X : Externals} {m : Manager X} {caller : Option ℕ} {memory : Bytes}
  {params : List UInt64} {results : ℕ}

theorem isSome_withSession {handle : UInt64}
    {body : Manager X → ℕ → AbiSession X → Option (Return X)}
    (h : ∀ m p x, (body m p x).isSome = true) :
    (m.withSession caller memory handle body).isSome = true := by
  unfold Manager.withSession
  split
  · rfl
  · simp only
    split
    · rfl
    · exact h _ _ _

variable {α β : Type} {f : α → Option β} {l : List α}

/-- A step that does not panic, before the rest of a call. -/
theorem isSome_bind {x : Option α} {p : α → Prop} (hx : ∃ a, x = some a ∧ p a)
    (hf : ∀ a, p a → (f a).isSome = true) :
    (x >>= f).isSome = true := by
  obtain ⟨a, rfl, ha⟩ := hx
  exact hf a ha

theorem exists_putUint32 {x : Slice} (h : 4 ≤ x.length) (memory : Bytes) (v : ℕ) :
    ∃ memory', x.putUint32 memory v = some memory' ∧ True :=
  ⟨_, if_neg (not_lt.2 h), trivial⟩

theorem exists_putWords {dst : Slice} {vs : List ℕ} (place : ℕ)
    (h : place + 4 * vs.length ≤ dst.length) (memory : Bytes) :
    ∃ memory', Manager.putWords dst place vs memory = some memory' ∧ True := by
  induction vs generalizing place memory with
  | nil => exact ⟨memory, rfl, trivial⟩
  | cons v vs ih =>
    rw [length_cons] at h
    obtain ⟨memory', hput, -⟩ := exists_putUint32
      (x := { start := dst.start + place, length := place + 4 - place }) (by simp) memory v
    obtain ⟨memory'', hrest, -⟩ := ih (place + 4) (by omega) memory'
    refine ⟨memory'', ?_, trivial⟩
    unfold Manager.putWords
    rw [sub_eq (Nat.le_add_right _ _) (by omega)]
    simp only [Option.bind_eq_bind, Option.bind_some, hput, hrest]

theorem isSome_sessionClose : (m.sessionClose caller memory params results).isSome = true := by
  unfold Manager.sessionClose
  split
  · split
    · rfl
    · simp only
      split <;> rfl
  · rfl

theorem exists_readSetting {encoded : Slice} {count index : ℕ} (hcount : count ≤ 64)
    (hlength : encoded.length = count * Manager.abiSettingV1Size) (hi : index < count) :
    ∃ setting, Manager.readSetting memory encoded index = some setting ∧ True := by
  unfold Manager.abiSettingV1Size at hlength
  unfold Manager.readSetting Manager.abiSettingV1Size
  rw [Nat.mod_eq_of_lt (by omega), Nat.mod_eq_of_lt (by omega), sub_eq (by omega) (by omega)]
  simp only [Option.bind_eq_bind, Option.bind_some]
  rw [uint32At_eq (by omega) rfl, uint32At_eq (by omega) rfl]
  exact ⟨_, rfl, trivial⟩

theorem exists_mapM (h : ∀ a ∈ l, ∃ b, f a = some b ∧ True) : ∃ bs, l.mapM f = some bs ∧ True := by
  induction l with
  | nil => exact ⟨[], rfl, trivial⟩
  | cons a l ih =>
    obtain ⟨b, hb, -⟩ := h a mem_cons_self
    obtain ⟨bs, hbs, -⟩ := ih fun a ha => h a (mem_cons_of_mem _ ha)
    exact ⟨b :: bs, by simp [mapM_cons, hb, hbs], trivial⟩

/-- An index that passes the check is inside of the list, even if the length is truncated. -/
theorem exists_getElem {index : UInt32} (h : ¬index ≥ UInt32.ofNat l.length) :
    ∃ a, l[index.toNat]? = some a ∧ True := by
  have hlt : index.toNat < l.length := by
    have h := UInt32.lt_iff_toNat_lt.1 (UInt32.not_le.1 h)
    rw [UInt32.toNat_ofNat'] at h
    exact h.trans_le (Nat.mod_le _ _)
  exact ⟨_, getElem?_eq_getElem hlt, trivial⟩

variable (hlen : memory.length < 2 ^ 32)
include hlen

/-- A slice, if it is inside of the memory, has the length that was asked for. -/
theorem exists_abiMemory (pointer length : UInt32) :
    ∃ x, abiMemory memory pointer length = some x ∧ ∀ y ∈ x, y.length = length.toNat := by
  refine ⟨_, abiMemory_eq hlen pointer length, fun y hy => ?_⟩
  split at hy
  · cases hy
    rfl
  · cases hy

theorem exists_readABIHeaders (pointer count : UInt32) (limits : HeaderLimits) :
    ∃ result, readABIHeaders memory pointer count limits = some result ∧ True := by
  obtain ⟨result, heq, -⟩ := readABIHeaders_spec hlen pointer count limits
  exact ⟨result, heq, trivial⟩

theorem isSome_sessionOpen : (m.sessionOpen caller memory params results).isSome = true := by
  unfold Manager.sessionOpen
  split
  · split
    · rfl
    · refine isSome_bind (exists_abiMemory hlen _ _) fun out hout => ?_
      split
      · rfl
      · split
        · rfl
        · exact isSome_bind (exists_putUint32 (by simp [hout _ rfl]) _ _) fun _ _ => rfl
  · rfl

theorem isSome_withCount {pointer length count : UInt64} {body : Slice → Slice → Option (Return X)}
    (h : ∀ data count, 4 ≤ count.length → (body data count).isSome = true) :
    (m.withCount memory pointer length count body).isSome = true := by
  refine isSome_bind (exists_abiMemory hlen _ _) fun data _ => ?_
  refine isSome_bind (exists_abiMemory hlen _ _) fun count hcount => ?_
  split
  · exact h _ _ (hcount _ rfl).ge
  · rfl

theorem isSome_settleStream {p : ℕ} {x : AbiSession X} {pointer count out : UInt64}
    {op : List HeaderField → Session X × Except SessionError ℕ} :
    (m.settleStream p x memory pointer count out op).isSome = true := by
  refine isSome_bind (exists_readABIHeaders hlen _ _ _) fun headers _ => ?_
  refine isSome_bind (exists_abiMemory hlen _ _) fun out hout => ?_
  split
  · rfl
  · rfl
  · split
    · rfl
    · exact isSome_bind (exists_putUint32 (by simp [hout _ rfl]) _ _) fun _ _ => rfl

theorem isSome_sessionSettings :
    (m.sessionSettings caller memory params results).isSome = true := by
  unfold Manager.sessionSettings
  split
  · next handle pointer count =>
    refine isSome_withSession fun m p x => ?_
    split
    · rfl
    next hcount =>
    have hcount : count.toUInt32.toNat ≤ 64 := UInt32.le_iff_toNat_le.1 (UInt32.not_lt.1 hcount)
    refine isSome_bind (exists_abiMemory hlen _ _) fun encoded hencoded => ?_
    split
    · rfl
    next encoded =>
    have hlength : encoded.length = count.toUInt32.toNat * Manager.abiSettingV1Size := by
      rw [hencoded _ rfl, UInt32.toNat_mul, Nat.mod_eq_of_lt]
      · rfl
      · change count.toUInt32.toNat * 8 < 2 ^ 32
        omega
    exact isSome_bind (exists_mapM fun index hi =>
      exists_readSetting hcount hlength (mem_range.1 hi)) fun _ _ => rfl
  · rfl

theorem isSome_eventNext : (m.eventNext caller memory params results).isSome = true := by
  unfold Manager.eventNext
  split
  · refine isSome_withSession fun m p x => ?_
    refine isSome_bind (exists_abiMemory hlen _ _) fun dst hdst => ?_
    split
    · rfl
    · split
      · rfl
      · have hsize := hdst _ rfl
        exact isSome_bind (exists_putWords 0 (by simp [hsize, Manager.eventWords,
          Manager.abiEventV1Size]) _) fun _ _ => rfl
  · rfl

theorem isSome_eventHeader : (m.eventHeader caller memory params results).isSome = true := by
  unfold Manager.eventHeader
  split
  · refine isSome_withSession fun m p x => ?_
    split
    · rfl
    split
    · rfl
    next hindex =>
    refine isSome_bind (exists_getElem hindex) fun field _ => ?_
    refine isSome_bind (exists_abiMemory hlen _ _) fun name _ => ?_
    refine isSome_bind (exists_abiMemory hlen _ _) fun nameLen hname => ?_
    refine isSome_bind (exists_abiMemory hlen _ _) fun value _ => ?_
    refine isSome_bind (exists_abiMemory hlen _ _) fun valueLen hvalue => ?_
    split
    · refine isSome_bind (exists_putUint32 (by simp [hname _ rfl]) _ _) fun _ _ => ?_
      refine isSome_bind (exists_putUint32 (by simp [hvalue _ rfl]) _ _) fun _ _ => ?_
      split <;> rfl
    · rfl
  · rfl

theorem isSome_eventSetting : (m.eventSetting caller memory params results).isSome = true := by
  unfold Manager.eventSetting
  split
  · refine isSome_withSession fun m p x => ?_
    split
    · rfl
    split
    · rfl
    next hindex =>
    refine isSome_bind (exists_abiMemory hlen _ _) fun dst hdst => ?_
    split
    · rfl
    · refine isSome_bind (exists_getElem hindex) fun setting _ => ?_
      exact isSome_bind (exists_putWords 0 (by simp [hdst _ rfl]) _) fun _ _ => rfl
  · rfl

/-- No entry point goes out of bounds of a memory that is shorter than `2 ^ 32` octets. -/
theorem isSome_call (entry : EntryPoint) :
    (entry.call m caller memory params results).isSome = true := by
  cases entry with
  | sessionOpen => exact isSome_sessionOpen hlen
  | sessionClose => exact isSome_sessionClose
  | sessionSettings => exact isSome_sessionSettings hlen
  | eventNext => exact isSome_eventNext hlen
  | eventHeader => exact isSome_eventHeader hlen
  | eventSetting => exact isSome_eventSetting hlen
  | abiVersion | featureFlags =>
    simp only [EntryPoint.call, Manager.constant]
    split <;> rfl
  | sessionFeed =>
    simp only [EntryPoint.call, Manager.sessionFeed]
    split
    · refine isSome_withSession fun m p x => isSome_withCount hlen fun src consumed hcount => ?_
      exact isSome_bind (exists_putUint32 hcount _ _) fun _ _ => rfl
    · rfl
  | sessionOutput | streamData =>
    simp only [EntryPoint.call, Manager.sessionOutput, Manager.streamData]
    split
    · refine isSome_withSession fun m p x => isSome_withCount hlen fun _ _ hcount => ?_
      split
      · exact isSome_bind (exists_putUint32 hcount _ _) fun _ _ => rfl
      · exact isSome_bind (exists_putUint32 hcount _ _) fun _ _ => rfl
    · rfl
  | eventData =>
    simp only [EntryPoint.call, Manager.eventData]
    split
    · refine isSome_withSession fun m p x => ?_
      split
      · rfl
      · refine isSome_withCount hlen fun dst written hcount => ?_
        exact isSome_bind (exists_putUint32 hcount _ _) fun _ _ => rfl
    · rfl
  | streamOpen | streamPush =>
    simp only [EntryPoint.call, Manager.streamOpen, Manager.streamPush]
    split
    · exact isSome_withSession fun m p x => isSome_settleStream hlen
    · rfl
  | streamHeaders =>
    simp only [EntryPoint.call, Manager.streamHeaders]
    split
    · refine isSome_withSession fun m p x => ?_
      refine isSome_bind (exists_readABIHeaders hlen _ _ _) fun headers _ => ?_
      split <;> rfl
    · rfl
  | streamReset =>
    simp only [EntryPoint.call, Manager.streamReset]
    split
    · exact isSome_withSession fun m p x => rfl
    · rfl
  | sessionPing | sessionGoAway | streamPriorityUpdate =>
    simp only [EntryPoint.call, Manager.sessionPing, Manager.sessionGoAway,
      Manager.streamPriorityUpdate]
    split
    · refine isSome_withSession fun m p x => isSome_bind (exists_abiMemory hlen _ _) fun src _ => ?_
      split <;> rfl
    · rfl

end Total

/-- The access of the guests to a memory is exact and total. -/
structure Exact (X : Externals) (memory : Bytes) : Prop where
  slices : ∀ pointer length : UInt32, abiMemory memory pointer length =
    some (if pointer.toNat + length.toNat ≤ memory.length then
      some { start := pointer.toNat, length := length.toNat } else none)
  headers : ∀ pointer count limits fields,
    readABIHeaders memory pointer count limits = some (.ok fields) ↔
      ReadsHeaders memory pointer count limits fields
  total : ∀ (entry : EntryPoint) (m : Manager X) caller params results,
    entry.call m caller memory params results ≠ none

/-- **The access of the guests is exact and total for the memories that are shorter than `2 ^ 32`
octets**, and for no longer one. -/
theorem abi_exact (X : Externals) (memory : Bytes) (hlen : memory.length ≤ 2 ^ 32) :
    Exact X memory ↔ memory.length < 2 ^ 32 := by
  constructor
  · intro h
    by_contra hlong
    have hlen : memory.length = 2 ^ 32 := by omega
    have hslice := h.slices 1 (2 ^ 32 - 1)
    rw [abiMemory_end hlen] at hslice
    cases hslice
  · intro hlen
    refine ⟨abiMemory_eq hlen, fun pointer count limits fields => ?_,
      fun entry m caller params results => ?_⟩
    · obtain ⟨result, heq, hiff⟩ := readABIHeaders_spec hlen pointer count limits
      rw [heq, Option.some.injEq]
      exact hiff fields
    · exact Option.ne_none_iff_isSome.2 (isSome_call hlen entry)

/-- A memory with one entry of a table: the field `a: b`. -/
def smallMemory : Bytes :=
  putUint32LE 20 ++ putUint32LE 1 ++ putUint32LE 21 ++ putUint32LE 1 ++ putUint32LE 0 ++
    [octet 'a', octet 'b', 0, 0]

theorem abi_exact_small :
    readABIHeaders smallMemory 0 1 {} =
        some (.ok [{ name := ascii "a", value := ascii "b", sensitive := false }]) ∧
      (Exact SmallHpack.externals smallMemory ↔ smallMemory.length < 2 ^ 32) :=
  ⟨by decide +kernel, abi_exact SmallHpack.externals smallMemory (by decide)⟩

/-- In a memory of `2 ^ 32` octets the slice of the last `2 ^ 32 - 1` octets panics. -/
theorem slice_of_full_memory :
    abiMemory (replicate (2 ^ 32) 0) 1 (2 ^ 32 - 1) = none ∧
      ¬Exact SmallHpack.externals (replicate (2 ^ 32) 0) := by
  have hnone : abiMemory (replicate (2 ^ 32) 0) 1 (2 ^ 32 - 1) = none :=
    abiMemory_end length_replicate
  refine ⟨hnone, fun h => ?_⟩
  have hslice := h.slices 1 (2 ^ 32 - 1)
  rw [hnone] at hslice
  cases hslice

end WagoHttp.Http2.Abi
