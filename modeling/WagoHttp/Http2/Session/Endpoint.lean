import WagoHttp.Http2.Phase
import WagoHttp.Http2.Session.Actions
import Mathlib.Logic.Relation
import Mathlib.Logic.Function.Basic

/-!
# The protocol state of a session

The guarantees about whole runs speak of a small part of a session: its streams with their states
and windows, the connection windows, the stream identifiers used so far, whether a header block is
being decoded, and the history. `Endpoint` is that part, and `Endpoint.Step` lists what one action
can do to it, one elementary change per constructor. Everything else in a session (queues, limits,
buffers, the texts of errors) does not appear here.

`IdSpace` is the first consequence: identifiers are used once, in order, by the side they belong to.
-/

namespace WagoHttp.Http2

open List

/-- Whether an identifier is one of the streams that an endpoint of the given role initiates. -/
def Role.initiates (role : Role) (id : ℕ) : Prop :=
  match role with
  | .client => id % 2 = 1
  | .server => id % 2 = 0

instance (role : Role) (id : ℕ) : Decidable (role.initiates id) := by
  cases role <;> exact inferInstanceAs (Decidable (_ = _))

/-- The events that hand a part of a message to the owner of the session. -/
def Event.isMessage (event : Event) : Prop :=
  event.type = .headers ∨ event.type = .data ∨ event.type = .pushPromise ∨ event.type = .streamEnd

instance (event : Event) : Decidable event.isMessage := inferInstanceAs (Decidable (_ ∨ _))

/-- The message events of a history. -/
def messageEvents (history : List Obs) : List Event :=
  history.filterMap fun
    | .queued event => if event.isMessage then some event else none
    | _ => none

/-- The callbacks of a history. -/
def receivedCalls (history : List Obs) : List Callback :=
  history.filterMap fun
    | .received call => some call
    | _ => none

/-! ## The actions by what they touch -/

namespace Action

/-- The action can open the stream of the peer with this identifier. -/
def opensPeer (a : Action) (id : ℕ) : Prop :=
  (∃ header : FrameHeader, a = .deliver (.frameBegin header) ∧ header.type = .headers ∧
    header.streamID = id) ∨ ∃ parent, a = .deliver (.pushPromise parent id)

/-- The action can send a header block. -/
def sendsBlock : Action → Prop
  | .call (.openStream ..) => True
  | .call (.pushPromise ..) => True
  | .call (.sendHeaders ..) => True
  | _ => False

/-- The action can open a stream of this endpoint. -/
def opensLocal : Action → Prop
  | .call (.openStream ..) => True
  | .call (.pushPromise ..) => True
  | _ => False

/-- The action belongs to a received header block. -/
def readsBlock : Action → Prop
  | .deliver (.frameBegin header) => header.type = .headers
  | .deliver (.pushPromise ..) => True
  | .deliver (.headerBlock ..) => True
  | .deliver (.headerBlockEnd ..) => True
  | _ => False

/-- The action can change a receive window. -/
def movesRecv : Action → Prop
  | .deliver (.frameBegin header) => header.type = .data
  | .deliver (.frameComplete header) => header.type = .data
  | .call (.updateSettings _) => True
  | _ => False

/-- A receive window after such an action: the beginning of a DATA frame is charged to it, the end
raises it to its initial size, and new settings move it with that size. -/
def moved (a : Action) (old initial : ℕ) (w : ℤ) : ℤ :=
  match a with
  | .deliver (.frameBegin header) => w - header.length
  | .deliver (.frameComplete _) => w + (initial - w)
  | .call (.updateSettings _) => w + (initial - old)
  | _ => w

/-- The action is the end of a SETTINGS frame. -/
def appliesSettings : Action → Prop
  | .deliver (.settingsEnd _) => True
  | _ => False

/-- The action can replace the frame parser. -/
def movesParser : Action → Prop
  | .parsed _ => True
  | .call .finish => True
  | .call (.updateSettings _) => True
  | _ => False

/-- The action can hand a part of a message on the stream to the owner. The stream of a header
block is not known from its end alone. -/
def delivers (a : Action) (id : ℕ) : Prop :=
  (∃ data endStream, a = .deliver (.data id data endStream)) ∨
    (∃ header : FrameHeader, a = .deliver (.frameComplete header) ∧ header.streamID = id) ∨
    ∃ streamID endStream, a = .deliver (.headerBlockEnd streamID endStream)

end Action

/-! ## The state -/

/-- What the peer has announced about the streams that it accepts. -/
structure Announced where
  maxConcurrent : ℕ := 2 ^ 32 - 1
  enablePush : Bool := true
  enableConnect : Bool := false
  deriving DecidableEq

/-- The protocol state of a session. -/
structure Endpoint (X : Externals) where
  role : Role
  prefacePos : ℕ
  parser : Parser
  streams : ℕ → Option Stream
  nextLocal : ℕ
  lastPeer : ℕ
  lastProcessed : ℕ
  sendWindow : ℤ
  recvWindow : ℤ
  peerInitial : ℤ
  localInitial : ℕ
  peerMaxFrame : ℕ
  announced : Announced
  encoder : X.Encoder
  decoding : Bool
  blockStream : ℕ
  pending : List Setting
  failed : Bool
  closed : Bool
  history : List Obs

namespace Endpoint

variable {X : Externals}

def note (e : Endpoint X) (o : Obs) : Endpoint X := { e with history := e.history ++ [o] }

def set (e : Endpoint X) (id : ℕ) (x : Option Stream) : Endpoint X :=
  { e with streams := Function.update e.streams id x }

/-- A stream that has just been opened. -/
structure Fresh (e : Endpoint X) (st : Stream) (isLocal : Bool) : Prop where
  state : st.state ≠ .closed
  local_eq : st.isLocal = isLocal
  sendWindow : st.sendWindow = e.peerInitial
  recvWindow : st.recvWindow = e.localInitial

/-- A change of a stream that moves no window and reopens nothing. -/
def Tame (st : Stream) (x : Option Stream) : Prop :=
  ∀ st', x = some st' → st'.isLocal = st.isLocal ∧
    (st'.state ≠ .closed →
      st.state ≠ .closed ∧ st'.sendWindow = st.sendWindow ∧ st'.recvWindow = st.recvWindow)

/-- The send window of an open stream after a change of the peer's initial window. -/
def adjustSend (change : ℤ) (st : Stream) : Stream :=
  if st.state = .closed then st else { st with sendWindow := st.sendWindow + change }

/-- The frames an endpoint can send at any time. -/
def isControl (header : FrameHeader) : Prop :=
  header.type = .rstStream ∨ header.type = .settings ∨ header.type = .ping ∨
    header.type = .priorityUpdate

/-- The callback raises a send window, if the endpoint has not failed. -/
def Raises (e : Endpoint X) (call : Callback) : Prop :=
  ∃ id n, call = .windowUpdate id n ∧ e.failed = false ∧
    (id = 0 ∨ ∃ st, e.streams id = some st ∧ st.state ≠ .closed)

/-- The payload of a WINDOW_UPDATE frame: what the window falls short of its initial size. -/
def Credits (e : Endpoint X) (id : ℕ) (payload : Bytes) : Prop :=
  ∃ w, (id = 0 ∧ w = e.recvWindow ∨ ∃ st, e.streams id = some st ∧ w = st.recvWindow) ∧
    payload = putUint32 ((e.localInitial - w).toNat % 2 ^ 32)

/-- The entries that an action that finds the endpoint in `e₀` can add to the history without a
further change. The callback of a delivery comes first. -/
def Noted (a : Action) (e₀ e : Endpoint X) : Obs → Prop
  | .received call => a = .deliver call ∧ e.history = e₀.history ∧ ¬e.Raises call
  | .sent header payload =>
    isControl header ∨ (header.carriesBlock ∧ a.sendsBlock) ∨
      (header.type = .windowUpdate ∧ a.movesRecv ∧ e.Credits header.streamID payload) ∨
      (header.type = .data ∧ payload = [])
  | .queued event =>
    event.isMessage →
      e.failed = false ∧ a.delivers event.streamID ∧ .opened event.streamID ∈ e.history
  | .decoder _ => a.readsBlock
  | .reset id _ =>
    (∃ code, a = .call (.resetStream id code)) ∧ .opened id ∈ e.history ∧
      ∀ st, e.streams id = some st → st.state = .closed
  | .opened _ => False
  | .failed _ => False

/-- What an action `a` that finds the endpoint in `e₀` can do, one change at a time. -/
inductive Step (a : Action) (e₀ : Endpoint X) : Endpoint X → Endpoint X → Prop
  | note {e : Endpoint X} {o} (h : Noted a e₀ e o) : Step a e₀ e (e.note o)
  | stream {e : Endpoint X} {id st x} (h : e.streams id = some st) (ht : Tame st x) :
      Step a e₀ e (e.set id x)
  | openPeer {e : Endpoint X} {id st} (ha : a.opensPeer id) (hid : e.lastPeer < id)
      (hr : ¬e.role.initiates id) (hnew : .opened id ∉ e.history) (hst : Fresh e st false) :
      Step a e₀ e ({ e.set id (some st) with lastPeer := id }.note (.opened id))
  | allocate {e : Endpoint X} (ha : a.opensLocal) :
      Step a e₀ e { e with nextLocal := e.nextLocal + 2 }
  | openLocal {e : Endpoint X} {id st} (ha : a.opensLocal) (hid : id < e.nextLocal)
      (hr : e.role.initiates id) (hz : id ≠ 0) (hlt : id < 2 ^ 31)
      (hnew : .opened id ∉ e.history) (hst : Fresh e st true) :
      Step a e₀ e ((e.set id (some st)).note (.opened id))
  | processed {e : Endpoint X} {id} (ha : a.delivers id) (h : .opened id ∈ e.history) :
      Step a e₀ e { e with lastProcessed := max e.lastProcessed id }
  | sendData {e : Endpoint X} {id : ℕ} {st : Stream} {body : ℕ} {header : FrameHeader}
      {payload : Bytes} (ha : ∃ src endStream, a = .call (.sendData id src endStream))
      (he : e = e₀) (h : e.streams id = some st) (hst : st.state ≠ .closed)
      (hconn : (payload.length : ℤ) ≤ e.sendWindow)
      (hstream : (payload.length : ℤ) ≤ st.sendWindow) (ht : header.type = .data)
      (hid : header.streamID = id) :
      Step a e₀ e (({ e with sendWindow := e.sendWindow - payload.length }.set id
        (some { st with sendWindow := st.sendWindow - payload.length, sendBody := body })).note
          (.sent header payload))
  | raise {e : Endpoint X} {n : ℕ} (ha : a = .deliver (.windowUpdate 0 n))
      (hh : e.history = e₀.history) (h : e.sendWindow ≤ maxInt32 - n) :
      Step a e₀ e ({ e with sendWindow := e.sendWindow + n }.note (.received (.windowUpdate 0 n)))
  | raiseStream {e : Endpoint X} {id : ℕ} {st : Stream} {n : ℕ}
      (ha : a = .deliver (.windowUpdate id n)) (hh : e.history = e₀.history) (hz : id ≠ 0)
      (hs : e.streams id = some st) (hst : st.state ≠ .closed)
      (h : st.sendWindow ≤ maxInt32 - n) :
      Step a e₀ e ((e.set id (some { st with sendWindow := st.sendWindow + n })).note
        (.received (.windowUpdate id n)))
  | overflow {e : Endpoint X} {id n st} (ha : a = .deliver (.windowUpdate id n))
      (hh : e.history = e₀.history) (hz : id ≠ 0) (hs : e.streams id = some st)
      (hst : st.state ≠ .closed) :
      Step a e₀ e ((e.set id (some { st with state := .closed })).note
        (.received (.windowUpdate id n)))
  | recvWindow {e : Endpoint X} (ha : a.movesRecv) (hd : ∃ call, a = .deliver call) :
      Step a e₀ e
        { e with recvWindow := a.moved e₀.localInitial e.localInitial e.recvWindow }
  | streamRecv {e : Endpoint X} {id st} (ha : a.movesRecv) (h : e.streams id = some st) :
      Step a e₀ e (e.set id (some
        { st with recvWindow := a.moved e₀.localInitial e.localInitial st.recvWindow }))
  | localInitial {e : Endpoint X} {v} (ha : ∃ settings, a = .call (.updateSettings settings)) :
      Step a e₀ e { e with localInitial := v }
  | peerInitial {e : Endpoint X} {v : ℤ} (ha : a.appliesSettings) (hv : 0 ≤ v ∧ v ≤ maxInt32)
      (hfit : ∀ id st, e.streams id = some st → st.state ≠ .closed →
        -2 ^ 31 ≤ st.sendWindow + (v - e.peerInitial) ∧
          st.sendWindow + (v - e.peerInitial) ≤ maxInt32) :
      Step a e₀ e
        { e with
          peerInitial := v
          streams := fun id => (e.streams id).map (adjustSend (v - e.peerInitial)) }
  | peerMaxFrame {e : Endpoint X} {v} (ha : a.appliesSettings) (hv : 16384 ≤ v ∧ v ≤ 16777215) :
      Step a e₀ e { e with peerMaxFrame := v }
  | announce {e : Endpoint X} {x} (ha : a.appliesSettings) : Step a e₀ e { e with announced := x }
  | pend {e : Endpoint X} {setting} (ha : a = .deliver (.setting setting))
      (hv : validSetting setting) : Step a e₀ e { e with pending := e.pending ++ [setting] }
  | clear {e : Endpoint X} (ha : a.appliesSettings) : Step a e₀ e { e with pending := [] }
  | encoder {e : Endpoint X} {enc} (ha : a.sendsBlock) : Step a e₀ e { e with encoder := enc }
  | resize {e : Endpoint X} {v : UInt32} (ha : a.appliesSettings) :
      Step a e₀ e
        { e with
          encoder := X.setMaxDynamicTableSize v (X.setMaxDynamicTableSizeLimit v e.encoder) }
  | decoding {e : Endpoint X} {b} (ha : a.readsBlock) : Step a e₀ e { e with decoding := b }
  | blockStream {e : Endpoint X} {id} (ha : a.readsBlock) : Step a e₀ e { e with blockStream := id }
  | preface {e : Endpoint X} (ha : a = .preface) :
      Step a e₀ e { e with prefacePos := e.prefacePos + 1 }
  | parser {e : Endpoint X} {p} (ha : a.movesParser) : Step a e₀ e { e with parser := p }
  | fail {e : Endpoint X} {err} (h : e.failed = false) (hp : e.lastProcessed = e₀.lastProcessed)
      (hm : messageEvents e.history = messageEvents e₀.history) :
      Step a e₀ e ({ e with failed := true }.note (.failed err))
  /-- A connection error while the streams are being changed: nothing more is known of them. -/
  | failAdjusted {e : Endpoint X} {err} (streams : ℕ → Option Stream) (ha : a.appliesSettings)
      (h : e.failed = false)
      (hs : ∀ id, (e.streams id).map Stream.isLocal = (streams id).map Stream.isLocal)
      (hc : ∀ id st st', e.streams id = some st → streams id = some st' →
        st.state = .closed → st'.state = .closed)
      (hp : e.lastProcessed = e₀.lastProcessed)
      (hm : messageEvents e.history = messageEvents e₀.history) :
      Step a e₀ e ({ e with streams, failed := true }.note (.failed err))
  /-- A connection error raised by a WINDOW_UPDATE frame. -/
  | failRaise {e : Endpoint X} {id n err} (ha : a = .deliver (.windowUpdate id n))
      (hh : e.history = e₀.history) (h : e.failed = false) (hp : e.lastProcessed = e₀.lastProcessed)
      (hm : messageEvents e.history = messageEvents e₀.history) :
      Step a e₀ e (({ e with failed := true }.note (.received (.windowUpdate id n))).note
        (.failed err))
  | goAway {e : Endpoint X} {rest} {header : FrameHeader} (ht : header.type = .goAway)
      (hp : e.lastProcessed = e₀.lastProcessed)
      (hm : messageEvents e.history = messageEvents e₀.history)
      (hf : e.failed = true ∨ ∃ code debug, a = .call (.goAway code debug)) :
      Step a e₀ e (e.note (.sent header (putUint32 e.lastProcessed ++ rest)))
  | closeAll {e : Endpoint X} (ha : a = .call .close) :
      Step a e₀ e { e with streams := fun _ => none, closed := true }

/-- What an action can do to the endpoint. -/
def Steps (a : Action) (e₀ : Endpoint X) : Endpoint X → Endpoint X → Prop :=
  Relation.ReflTransGen (Step a e₀)

variable {I : Endpoint X → Prop} {a : Action} {e₀ e e' : Endpoint X} {id : ℕ} {x : Option Stream}
  {st : Stream}

/-- **The invariant rule**: what every elementary change keeps, an action keeps. -/
theorem Steps.invariant (hstep : ∀ {e e'}, Step a e₀ e e' → I e → I e') (h : Steps a e₀ e e')
    (he : I e) : I e' := by
  induction h with
  | refl => exact he
  | tail _ hs ih => exact hstep hs ih

/-! ## The history -/

/-- The history only grows. -/
theorem Step.history (h : Step a e₀ e e') : e.history <+: e'.history := by
  cases h with
  | failRaise => exact (prefix_append _ _).trans (prefix_append _ _)
  | note | openPeer | openLocal | sendData | raise | raiseStream | overflow | fail | failAdjusted
  | goAway => exact prefix_append _ _
  | _ => exact prefix_rfl

/-- Only the delivery of a callback receives one, and before anything else. -/
theorem Step.received (h : Step a e₀ e e')
    (hne : (∀ call, a ≠ .deliver call) ∨ e.history ≠ e₀.history) :
    receivedCalls e'.history = receivedCalls e.history := by
  have key : ∀ {call}, a = .deliver call → e.history = e₀.history → False := fun ha hh =>
    hne.elim (fun h => h _ ha) fun h => h hh
  cases h with
  | @note o ho =>
    cases o with
    | received call => exact (key ho.1 ho.2.1).elim
    | _ => simp [Endpoint.note, receivedCalls]
  | raise ha hh => exact (key ha hh).elim
  | raiseStream ha hh => exact (key ha hh).elim
  | overflow ha hh => exact (key ha hh).elim
  | failRaise ha hh => exact (key ha hh).elim
  | openPeer | openLocal | sendData | fail | failAdjusted | goAway =>
    simp [Endpoint.note, Endpoint.set, receivedCalls]
  | _ => rfl

theorem Steps.history (h : Steps a e₀ e e') : e.history <+: e'.history :=
  h.invariant (I := fun e' => e.history <+: e'.history) (fun hs hp => hp.trans hs.history)
    prefix_rfl

theorem Steps.received (h : Steps a e₀ e e')
    (hne : (∀ call, a ≠ .deliver call) ∨ e₀.history.length < e.history.length) :
    receivedCalls e'.history = receivedCalls e.history := by
  refine (h.invariant (I := fun e' => receivedCalls e'.history = receivedCalls e.history ∧
    e.history <+: e'.history) (fun hs hI => ⟨(hs.received ?_).trans hI.1, hI.2.trans hs.history⟩)
    ⟨rfl, prefix_rfl⟩).1
  refine hne.imp_right fun hlt heq => ?_
  have := hI.2.length_le
  rw [heq] at this
  omega

/-- The invariant rule for changes whose entries are known to stay in the history. -/
theorem Steps.invariant_within {f : Endpoint X} (h : Steps a e₀ e f)
    (hstep : ∀ {e e'}, Step a e₀ e e' → e'.history <+: f.history → I e → I e') (he : I e) :
    I f := by
  induction h with
  | refl => exact he
  | tail _ hs ih =>
    exact hstep hs prefix_rfl (ih fun hs' hp => hstep hs' (hp.trans hs.history))

/-! ## Identifiers -/

/-- Identifiers are used once, in order, by the side they belong to. -/
structure IdSpace (e : Endpoint X) : Prop where
  local_lt : ∀ id, .opened id ∈ e.history → e.role.initiates id → id < e.nextLocal
  peer_le : ∀ id, .opened id ∈ e.history → ¬e.role.initiates id → id ≤ e.lastPeer
  ne_zero : ∀ id, .opened id ∈ e.history → id ≠ 0
  opened : ∀ id st, e.streams id = some st →
    .opened id ∈ e.history ∧ (st.isLocal = true ↔ e.role.initiates id)
  next : e.role.initiates e.nextLocal
  next_pos : 0 < e.nextLocal

@[simp] theorem mem_note {o o' : Obs} : o' ∈ (e.note o).history ↔ o' ∈ e.history ∨ o' = o := by
  simp [note]

/-- What holds of the stream that is set and of all others. -/
theorem forall_update {P : ℕ → Stream → Prop} {streams : ℕ → Option Stream}
    (hself : ∀ st, x = some st → P id st)
    (hother : ∀ id' ≠ id, ∀ st, streams id' = some st → P id' st) :
    ∀ id' st, Function.update streams id x id' = some st → P id' st := by
  intro id' st hst
  by_cases hid : id' = id
  · subst hid
    rw [Function.update_self] at hst
    exact hself st hst
  · rw [Function.update_of_ne hid] at hst
    exact hother id' hid st hst

/-- An entry that opens no stream. -/
theorem IdSpace.note (h : e.IdSpace) {o : Obs} (ho : ∀ id, o ≠ .opened id) :
    (e.note o).IdSpace := by
  have hmem : ∀ id, .opened id ∈ (e.note o).history ↔ .opened id ∈ e.history := fun id => by
    simp [(ho id).symm]
  exact ⟨fun id hid => h.local_lt id ((hmem id).1 hid),
    fun id hid => h.peer_le id ((hmem id).1 hid), fun id hid => h.ne_zero id ((hmem id).1 hid),
    fun id st hst => ⟨(hmem id).2 (h.opened id st hst).1, (h.opened id st hst).2⟩, h.next,
    h.next_pos⟩

/-- Streams that stay on their side. -/
theorem IdSpace.of_streams (h : e.IdSpace) {streams : ℕ → Option Stream}
    (hs : ∀ id st', streams id = some st' →
      ∃ st, e.streams id = some st ∧ st'.isLocal = st.isLocal) :
    IdSpace { e with streams } := by
  refine ⟨h.local_lt, h.peer_le, h.ne_zero, fun id st' hst' => ?_, h.next, h.next_pos⟩
  obtain ⟨st, hst, hl⟩ := hs id st' hst'
  exact ⟨(h.opened id st hst).1, by rw [hl]; exact (h.opened id st hst).2⟩

theorem IdSpace.set (h : e.IdSpace) (hst : e.streams id = some st)
    (hx : ∀ st', x = some st' → st'.isLocal = st.isLocal) :
    (e.set id x).IdSpace :=
  h.of_streams <| forall_update (fun st' hst' => ⟨st, hst, hx st' hst'⟩)
    fun _ _ st' hst' => ⟨st', hst', rfl⟩

/-- A new stream enters the table. -/
theorem IdSpace.opens (h : e.IdSpace) {lastPeer : ℕ} (hpos : id ≠ 0)
    (hl : e.role.initiates id → id < e.nextLocal) (hp : ¬e.role.initiates id → id ≤ lastPeer)
    (hle : e.lastPeer ≤ lastPeer) (hst : st.isLocal = true ↔ e.role.initiates id) :
    ({ e.set id (some st) with lastPeer }.note (.opened id)).IdSpace := by
  have hmem : ∀ id', Obs.opened id' ∈
      ({ e.set id (some st) with lastPeer }.note (.opened id)).history →
      Obs.opened id' ∈ e.history ∨ id' = id := fun id' hid => by
    rcases mem_note.1 hid with hid | hid
    · exact .inl hid
    · exact .inr (Obs.opened.inj hid)
  refine ⟨fun id' hid => ?_, fun id' hid => ?_, fun id' hid => ?_, forall_update ?_ ?_, h.next,
    h.next_pos⟩
  · rcases hmem id' hid with hid | rfl
    · exact h.local_lt id' hid
    · exact hl
  · rcases hmem id' hid with hid | rfl
    · exact fun hr => (h.peer_le id' hid hr).trans hle
    · exact hp
  · rcases hmem id' hid with hid | rfl
    · exact h.ne_zero id' hid
    · exact hpos
  · rintro st' ⟨⟩
    exact ⟨mem_note.2 (.inr rfl), hst⟩
  · exact fun id' _ st' hst' =>
      ⟨mem_note.2 (.inl (h.opened id' st' hst').1), (h.opened id' st' hst').2⟩

theorem initiates_add_two {role : Role} : role.initiates (id + 2) ↔ role.initiates id := by
  cases role <;> simp [Role.initiates]

/-- The use of identifiers is kept by every change. -/
theorem IdSpace.step (hs : Step a e₀ e e') (h : e.IdSpace) : e'.IdSpace := by
  cases hs with
  | note ho => exact h.note (by rintro id rfl; exact ho)
  | stream hst ht => exact h.set hst fun st' hx => (ht st' hx).1
  | openPeer ha hid hr hnew hst =>
    exact h.opens (by omega) (fun hl => absurd hl hr) (fun _ => le_rfl) hid.le
      (by simp [hst.local_eq, hr])
  | allocate ha =>
    exact ⟨fun id hid hr => (h.local_lt id hid hr).trans (by simp), h.peer_le, h.ne_zero, h.opened,
      initiates_add_two.2 h.next, by simp⟩
  | openLocal ha hid hr hz hlt hnew hst =>
    exact h.opens hz (fun _ => hid) (fun hl => absurd hr hl) le_rfl (by simp [hst.local_eq, hr])
  | @sendData id st body header payload _ _ hst =>
    have h' : (e.set id (some { st with
        sendWindow := st.sendWindow - payload.length, sendBody := body })).IdSpace :=
      h.set hst (by rintro st' ⟨⟩; rfl)
    refine IdSpace.note ?_ (by simp)
    exact ⟨h'.1, h'.2, h'.3, h'.4, h'.5, h'.6⟩
  | raise | fail =>
    refine IdSpace.note ?_ (by simp)
    exact ⟨h.1, h.2, h.3, h.4, h.5, h.6⟩
  | raiseStream _ _ _ hst | overflow _ _ _ hst =>
    exact (h.set hst (by rintro st' ⟨⟩; rfl)).note (by simp)
  | streamRecv _ hst => exact h.set hst (by rintro st' ⟨⟩; rfl)
  | @peerInitial v =>
    have h' : IdSpace { e with
        streams := fun id => (e.streams id).map (adjustSend (v - e.peerInitial)) } := by
      refine h.of_streams fun id st' hst' => ?_
      obtain ⟨st, hst, rfl⟩ := Option.map_eq_some_iff.1 hst'
      refine ⟨st, hst, ?_⟩
      unfold adjustSend
      split <;> rfl
    exact ⟨h'.1, h'.2, h'.3, h'.4, h'.5, h'.6⟩
  | failAdjusted streams _ _ hs =>
    have h' : IdSpace { e with streams } := by
      refine h.of_streams fun id st' hst' => ?_
      have hl := hs id
      rw [hst'] at hl
      obtain ⟨st, hst, hl⟩ := Option.map_eq_some_iff.1 hl
      exact ⟨st, hst, hl.symm⟩
    refine IdSpace.note ?_ (by simp)
    exact ⟨h'.1, h'.2, h'.3, h'.4, h'.5, h'.6⟩
  | failRaise =>
    refine IdSpace.note (IdSpace.note ?_ (by simp)) (by simp)
    exact ⟨h.1, h.2, h.3, h.4, h.5, h.6⟩
  | goAway => exact h.note (by simp)
  | closeAll =>
    have h' : IdSpace { e with streams := fun _ => none } := h.of_streams (by simp)
    exact ⟨h'.1, h'.2, h'.3, h'.4, h'.5, h'.6⟩
  | _ => exact ⟨h.1, h.2, h.3, h.4, h.5, h.6⟩

/-- No stream is opened twice, and the peer opens its streams in increasing order. -/
def InOrder (e : Endpoint X) : Prop :=
  e.history.Pairwise fun o o' => ∀ id id', o = .opened id → o' = .opened id' →
    id ≠ id' ∧ (e.role.initiates id ∨ e.role.initiates id' ∨ id < id')

theorem InOrder.step (hs : Step a e₀ e e') (hids : e.IdSpace) (h : e.InOrder) : e'.InOrder := by
  unfold InOrder at *
  have hpeer := hids.peer_le
  cases hs with
  | @note o ho =>
    have hnew (id) : o ≠ .opened id := by rintro rfl; exact ho
    simpa [Endpoint.note, pairwise_append, hnew] using h
  | openPeer | openLocal =>
    refine pairwise_append.2 ⟨h, pairwise_singleton .., ?_⟩
    rintro _ (ho : _ ∈ e.history) _ ho' id _ rfl rfl
    cases mem_singleton.1 ho'
    change _ ∧ (e.role.initiates _ ∨ e.role.initiates _ ∨ _)
    grind
  | sendData | raise | raiseStream | overflow | fail | failAdjusted | failRaise | goAway =>
    simpa [Endpoint.note, Endpoint.set, pairwise_append] using h
  | _ => exact h

end Endpoint

end WagoHttp.Http2
