import WagoHttp.Http2.Session.Run

/-!
# The persistent client connection

`Transport` runs many requests over one client session. Each call of `Do` has an exchange with a
bounded channel of events. The read loop feeds the session, looks up the exchange of each event and
sends the event into its channel; the call receives it there. The mutex-protected sections and the
channel operations are the steps of a transition system (`Transport.step`), so that a run is any
interleaving of the read loop, the calls, the consumers of pushed streams and `Close`. A step that
is not enabled changes nothing.

`SendsAlive` says that the exchange that the read loop is about to send to still has an open channel
and a consumer that has not returned, and that the send does not wait for somebody who reads no
more. -/

namespace WagoHttp.Http2.Request

open Runs SmallHpack List

/-- The errors that a call of the client returns. -/
inductive CallError
  | streamReset (code : ErrorCode) (retryable : Bool)
  | goAway (lastStreamID : ℕ) (code : ErrorCode)
  | session (err : SessionError)
  | invalidResponse
  | responseBodyTooLarge
  | unexpectedEOF
  | noProgress
  | closedPipe
  /-- Any other error, of the stream or of the context. -/
  | other (tag : ℕ)
  deriving DecidableEq, Repr

/-- What is known of a response. -/
structure Response where
  status : ℕ := 0
  contentLength : ℕ := 0
  hasContentLength : Bool := false
  bodyBytes : ℕ := 0
  deriving DecidableEq, Repr

/-- Where the goroutine stands that receives the events of an exchange. -/
inductive Consumer
  /-- A call that sends its body or its trailers. -/
  | sending
  /-- A call that waits for events. -/
  | waiting
  /-- The consumer of a pushed stream. -/
  | pushed
  /-- At `cancelStream`; afterwards it also deletes the exchange, or returns. -/
  | cancelling (deletes : Bool)
  /-- About to delete the exchange. -/
  | deleting
  | returned
  deriving DecidableEq, Repr

/-- An exchange and its channel. -/
structure Exchange where
  streamID : ℕ
  consumer : Consumer
  queue : List Event := []
  closed : Bool := false
  response : Response := {}
  finalHeaders : Bool := false
  complete : Bool := false
  deriving DecidableEq, Repr

/-- A decimal number below a power of two. -/
def parseUint (bits : ℕ) (value : Bytes) : Option ℕ :=
  (parseSessionContentLength value).filter fun n => n < 2 ^ bits

namespace Exchange

/-- One field of a section that is not a trailer section, with the status read so far. -/
def consumeField (acc : Response × ℕ) (field : HeaderField) : Option (Response × ℕ) :=
  if field.name = ascii ":status" then (parseUint 16 field.value).map fun n => (acc.1, n)
  else if field.name = ascii "content-length" then
    (parseUint 64 field.value).map fun n =>
      ({ acc.1 with hasContentLength := true, contentLength := n }, acc.2)
  else some acc

/-- What an event does to an exchange. -/
def consume (x : Exchange) (maxBody : ℕ) (event : Event) : Except CallError Exchange :=
  match event.type with
  | .headers =>
    if event.trailer then .ok x
    else
      match event.headers.foldlM consumeField (x.response, 0) with
      | none => .error .invalidResponse
      | some (response, status) =>
        if status = 0 then .error .invalidResponse
        else if status < 200 then .ok { x with response }
        else .ok { x with response := { response with status }, finalHeaders := true }
  | .data =>
    if !x.finalHeaders then .error .invalidResponse
    else if event.data.length > sub64 maxBody x.response.bodyBytes then
      .error .responseBodyTooLarge
    else
      .ok { x with
        response := { x.response with bodyBytes := x.response.bodyBytes + event.data.length } }
  | .streamEnd =>
    if !x.finalHeaders then .error .invalidResponse else .ok { x with complete := true }
  | .streamReset =>
    .error (.streamReset event.errorCode (event.errorCode == .refusedStream && !x.finalHeaders))
  | _ => .ok x

/-- Receive an event and act on it. A call that is still sending finds out later that its exchange
is complete. -/
def receive (x : Exchange) (maxBody : ℕ) : Exchange :=
  match x.queue with
  | [] => x
  | event :: queue =>
    match { x with queue }.consume maxBody event with
    | .error _ => { x with queue, consumer := .cancelling (x.consumer = .pushed) }
    | .ok y =>
      if y.complete ∧ x.consumer ≠ .sending then { y with consumer := .deleting }
      else { y with consumer := x.consumer }

/-- What an event leaves of an exchange. -/
theorem consume_ok {x y : Exchange} {maxBody : ℕ} {event : Event}
    (h : x.consume maxBody event = .ok y) : ∃ response finalHeaders complete,
      y = { x with response, finalHeaders, complete } := by
  unfold consume at h
  repeat' split at h
  all_goals
    cases h
    try exact ⟨_, _, _, rfl⟩

/-- The consumer goes on to receive. -/
def Reads (x : Exchange) : Prop :=
  x.consumer = .sending ∨ x.consumer = .waiting ∨ x.consumer = .pushed

instance (x : Exchange) : Decidable x.Reads := inferInstanceAs (Decidable (_ ∨ _))

/-- A send into the channel does not wait for ever: the consumer receives, or there is room. -/
def Ready (x : Exchange) (eventBuffer : ℕ) : Prop := x.Reads ∨ x.queue.length < eventBuffer

instance (x : Exchange) (eventBuffer : ℕ) : Decidable (x.Ready eventBuffer) :=
  inferInstanceAs (Decidable (_ ∨ _))

/-- A consumer that receives an event does not return at once, and leaves room. -/
theorem receive_channel (x : Exchange) (maxBody : ℕ) :
    (x.receive maxBody).streamID = x.streamID ∧ (x.receive maxBody).closed = x.closed ∧
      (x.receive maxBody = x ∨ (x.receive maxBody).queue.length < x.queue.length) ∧
      ((x.receive maxBody).consumer = .returned → x.consumer = .returned) := by
  unfold receive
  split
  · exact ⟨rfl, rfl, .inl rfl, id⟩
  · next hq =>
    rw [hq]
    split
    · exact ⟨rfl, rfl, .inr (by simp), nofun⟩
    · next hy =>
      obtain ⟨response, finalHeaders, complete, rfl⟩ := consume_ok hy
      split
      · exact ⟨rfl, rfl, .inr (by simp), nofun⟩
      · exact ⟨rfl, rfl, .inr (by simp), id⟩

end Exchange

/-- Where the read loop stands. -/
inductive Reader
  /-- At `Read`. -/
  | reading
  /-- In `dispatch`, at the first of the events. -/
  | dispatching (events : List Event)
  /-- At the send of an event to an exchange that has been looked up. -/
  | sending (exchange : ℕ) (event : Event) (events : List Event)
  /-- About to call `fail`. -/
  | failing (err : CallError)
  | stopped
  deriving DecidableEq, Repr

/-- A connection, the exchanges of its calls, and its read loop. An exchange is named by its
position in `exchanges`, which keeps those that are over. -/
structure Transport (X : Externals) where
  session : Session X
  eventBuffer : ℕ
  maxResponseBody : ℕ
  exchanges : List Exchange := []
  pending : ℕ → Option ℕ := fun _ => none
  err : Option CallError := none
  goAway : Option CallError := none
  /-- `fail` has run. -/
  once : Bool := false
  done : Bool := false
  reader : Reader := .reading
  /-- A goroutine has sent on a closed channel. -/
  panicked : Bool := false

/-- How the stream takes the queued output: all of it, or some octets and an error. -/
inductive Write
  | all
  | short (n : ℕ) (err : CallError)
  deriving DecidableEq, Repr

inductive TransportStep
  /-- The locked section of `Do`. -/
  | open (headers : List HeaderField) (endHeaders : Bool) (write : Write)
  /-- A locked `SendData` of `sendBody`. -/
  | sendData (exchange : ℕ) (src : Bytes) (endStream : Bool) (write : Write)
  | sendTrailers (exchange : ℕ) (headers : List HeaderField) (write : Write)
  /-- `sendBody` finds its exchange complete. -/
  | stopSending (exchange : ℕ)
  /-- The body and the trailers have been sent. -/
  | sent (exchange : ℕ)
  | receive (exchange : ℕ)
  /-- The context is done, the body cannot be read, or a trailer is not valid. -/
  | interrupt (exchange : ℕ)
  /-- `done` or the channel is found closed. -/
  | observe (exchange : ℕ)
  | cancel (exchange : ℕ) (write : Write)
  | delete (exchange : ℕ)
  | feed (src : Bytes) (write : Write)
  | readError (err : CallError)
  /-- `dispatch` takes the next event. -/
  | lookup (accepted : Bool) (write : Write)
  /-- The select of `dispatch` sends the event. -/
  | deliver
  /-- The select of `dispatch` finds `done` closed. -/
  | skip
  /-- The read loop calls `fail`. -/
  | fail
  /-- `Close` calls `fail`. -/
  | close
  /-- `fail` closes `done`. -/
  | closeDone
  deriving DecidableEq, Repr

namespace Transport

variable {X : Externals} (t : Transport X)

def exchange? (e : ℕ) : Option Exchange := t.exchanges[e]?

/-- Change an exchange. -/
def modify (t : Transport X) (e : ℕ) (f : Exchange → Exchange) : Transport X :=
  { t with exchanges := t.exchanges.modify e f }

/-- The exchange that the read loop is about to send to. -/
def sendingTo : Option ℕ :=
  match t.reader with
  | .sending e _ _ => some e
  | _ => none

/-- Write the queued output. -/
def flushLocked (s : Session X) : Write → Session X × Option CallError
  | .all => ((s.consumeOutput s.output.length).1, none)
  | .short n err =>
    if s.output = [] then (s, none)
    else ((s.consumeOutput (min n s.output.length)).1, some err)

/-- Take all events of the session. -/
def collectEventsLocked (s : Session X) : Session X × List Event :=
  ((fun s : Session X => s.nextEvent.1)^[s.events.length] s, s.events)

/-- Enter an exchange for a stream. -/
def enter (streamID : ℕ) (consumer : Consumer) : Transport X :=
  { t with
    exchanges := t.exchanges ++ [{ streamID, consumer }]
    pending := Function.update t.pending streamID (some t.exchanges.length) }

/-- The locked section of `Do`. A call whose output cannot be written returns and leaves its
exchange in the table. -/
def openExchange (headers : List HeaderField) (endHeaders : Bool) (write : Write) : Transport X :=
  if t.err ≠ none ∨ t.goAway ≠ none then t
  else
    match t.session.openStream headers endHeaders with
    | (session, .error _) => { t with session }
    | (session, .ok streamID) =>
      match flushLocked session write with
      | (session, some _) => { t with session }.enter streamID .returned
      | (session, none) =>
        { t with session }.enter streamID (if endHeaders then .waiting else .sending)

/-- The end of a locked section that has queued output: whether it fails. -/
def flushSent (session : Session X) (write : Write) : Session X × Bool :=
  ((flushLocked session write).1, (flushLocked session write).2.isSome)

/-- A locked `SendData` of `sendBody`, and whether it fails. A part of the body is not sent on a
connection that has failed, and when the session would block, the call waits; the end of the body is
neither checked nor tried again. -/
def sendBody (src : Bytes) (endStream : Bool) (write : Write) (streamID : ℕ) : Session X × Bool :=
  if !endStream && t.err.isSome then (t.session, true)
  else
    match t.session.sendData streamID src endStream with
    | (session, .error err) => (session, endStream || err != SessionError.wouldBlock)
    | (session, .ok n) => if endStream || n != 0 then flushSent session write else (session, false)

/-- The locked section of `sendTrailers`, and whether it fails. -/
def sendTrailers (headers : List HeaderField) (write : Write) (streamID : ℕ) : Session X × Bool :=
  match t.session.sendHeaders streamID headers true with
  | (session, some _) => (session, true)
  | (session, none) => flushSent session write

/-- A locked section of a call that is sending. A failure makes it cancel its stream. -/
def sendLocked (e : ℕ) (send : ℕ → Session X × Bool) : Transport X :=
  match t.exchange? e with
  | none => t
  | some x =>
    if x.consumer ≠ .sending then t
    else
      { t with session := (send x.streamID).1 }.modify e fun x =>
        if (send x.streamID).2 then { x with consumer := .cancelling false } else x

/-- The locked section of `cancelStream`. -/
def cancelStream (streamID : ℕ) (write : Write) : Transport X :=
  { t with
    session := (flushLocked (t.session.resetStream streamID .cancel).1 write).1
    pending := Function.update t.pending streamID none }

/-- The locked section of `fail`, which runs once. -/
def fail (err : CallError) : Transport X :=
  if t.once then t
  else
    { t with
      once := true
      err := some err
      exchanges := t.exchanges.mapIdx fun e x =>
        if t.pending x.streamID = some e then { x with closed := true } else x
      pending := fun _ => none
      session := t.session.close }

/-- The read loop feeds what it has read. -/
def feed (t : Transport X) (src : Bytes) (write : Write) : Transport X :=
  let fed := t.session.feed src
  let (session, err) :=
    match fed.err with
    | some err => (fed.session, some (.session err))
    | none =>
      if fed.n ≠ src.length then (fed.session, some .noProgress)
      else flushLocked fed.session write
  let (session, events) := collectEventsLocked session
  { t with
    session
    reader := match err with
      | some err => .failing err
      | none => .dispatching events }

/-- `dispatch` takes the event `event`. -/
def lookup (event : Event) (events : List Event) (accepted : Bool) (write : Write) : Transport X :=
  let t := { t with reader := .dispatching events }
  if event.type = .pushPromise then
    if !accepted then t.cancelStream event.streamID write
    else if t.err ≠ none then t
    else t.enter event.streamID .pushed
  else if event.streamID = 0 then
    if event.type = .goAway then
      { t with goAway := some (.goAway event.lastStreamID event.errorCode) }
    else t
  else
    match t.pending event.streamID with
    | none => t
    | some e => { t with reader := .sending e event events }

/-- The send of `dispatch`, which blocks while the channel is full. -/
def deliver (e : ℕ) (event : Event) (events : List Event) : Transport X :=
  match t.exchange? e with
  | none => t
  | some x =>
    if x.closed then { t with panicked := true, reader := .stopped }
    else if x.queue.length < t.eventBuffer then
      { t with reader := .dispatching events }.modify e fun x =>
        { x with queue := x.queue ++ [event] }
    else t

def step : TransportStep → Transport X
  | .open headers endHeaders write => t.openExchange headers endHeaders write
  | .sendData e src endStream write => t.sendLocked e (t.sendBody src endStream write)
  | .sendTrailers e headers write => t.sendLocked e (t.sendTrailers headers write)
  | .stopSending e =>
    t.modify e fun x =>
      if x.consumer = .sending ∧ x.complete then { x with consumer := .cancelling true } else x
  | .sent e =>
    t.modify e fun x =>
      if x.consumer = .sending then
        { x with consumer := if x.complete then .deleting else .waiting }
      else x
  | .receive e =>
    t.modify e fun x => if x.Reads then x.receive t.maxResponseBody else x
  | .interrupt e =>
    t.modify e fun x =>
      if x.consumer = .sending ∨ x.consumer = .waiting then
        { x with consumer := .cancelling false }
      else x
  | .observe e =>
    t.modify e fun x =>
      if x.consumer = .sending ∧ (t.done ∨ x.closed ∧ x.queue = []) then
        { x with consumer := .cancelling false }
      else if x.consumer = .waiting ∧ (t.done ∨ x.closed ∧ x.queue = []) ∨
          x.consumer = .pushed ∧ x.closed ∧ x.queue = [] then
        { x with consumer := .returned }
      else x
  | .cancel e write =>
    match t.exchange? e with
    | none => t
    | some x =>
      match x.consumer with
      | .cancelling deletes =>
        (t.cancelStream x.streamID write).modify e fun x =>
          { x with consumer := if deletes then .deleting else .returned }
      | _ => t
  | .delete e =>
    match t.exchange? e with
    | none => t
    | some x =>
      if x.consumer = .deleting then
        { t with pending := Function.update t.pending x.streamID none }.modify e fun x =>
          { x with consumer := .returned }
      else t
  | .feed src write => if t.reader = .reading then t.feed src write else t
  | .readError err => if t.reader = .reading then { t with reader := .failing err } else t
  | .lookup accepted write =>
    match t.reader with
    | .dispatching [] => { t with reader := .reading }
    | .dispatching (event :: events) => t.lookup event events accepted write
    | _ => t
  | .deliver =>
    match t.reader with
    | .sending e event events => t.deliver e event events
    | _ => t
  | .skip =>
    match t.reader with
    | .sending _ _ _ => if t.done then { t with reader := .reading } else t
    | _ => t
  | .fail =>
    match t.reader with
    | .failing err => { t.fail err with reader := .stopped }
    | _ => t
  | .close => t.fail (.session .sessionClosed)
  | .closeDone => if t.once then { t with done := true } else t

def run (steps : List TransportStep) : Transport X := steps.foldl step t

/-- A new transport, over a client session whose preface has been written. -/
def create (session : Session X) (eventBuffer maxResponseBody : ℕ) : Transport X where
  session
  eventBuffer
  maxResponseBody

/-- **The read loop sends to nobody who is gone**, and it does not wait at a full channel that
nobody will read. -/
def SendsAlive : Prop :=
  ∀ e, t.sendingTo = some e → ∃ x, t.exchange? e = some x ∧ x.closed = false ∧
    x.consumer ≠ .returned ∧ x.Ready t.eventBuffer

/-! ## When it holds -/

/-- The exchange that the next event of `dispatch` is for. -/
def target : Option ℕ :=
  match t.reader with
  | .dispatching (event :: _) =>
    if event.type = .pushPromise ∨ event.streamID = 0 then none else t.pending event.streamID
  | _ => none

/-- If the read loop is about to send to the exchange and its consumer quits, there is room in the
channel. -/
def RoomIf (e : ℕ) (quits : Exchange → Bool) : Prop :=
  t.sendingTo = some e → ∀ x ∈ t.exchange? e, quits x → x.queue.length < t.eventBuffer

instance (t : Transport X) (e : ℕ) (quits : Exchange → Bool) : Decidable (t.RoomIf e quits) :=
  inferInstanceAs (Decidable (_ → _))

/-- The output of `Do` can be written, no exchange is cancelled, deleted or closed while the read
loop is about to send to it, the read loop takes up no event for a full channel that nobody will
read, and no consumer quits while the read loop is about to send to its full channel. -/
def Undisturbed : TransportStep → Prop
  | .open _ _ write => write = .all
  | .sendData e src endStream write =>
    t.RoomIf e fun x => (t.sendBody src endStream write x.streamID).2
  | .sendTrailers e headers write => t.RoomIf e fun x => (t.sendTrailers headers write x.streamID).2
  | .stopSending e | .sent e => t.RoomIf e Exchange.complete
  | .interrupt e => t.RoomIf e fun _ => true
  | .cancel e _ | .delete e => t.sendingTo ≠ some e
  | .lookup _ _ => ∀ e ∈ t.target, ∀ x ∈ t.exchange? e, x.Ready t.eventBuffer
  | .close => t.sendingTo = none
  | _ => True

instance : DecidableRel (Undisturbed (X := X)) := fun t step => by
  unfold Undisturbed
  split <;> infer_instance

/-- What holds of a transport between steps: whoever is in the table is there to receive. -/
structure Sane (t : Transport X) : Prop where
  pending : ∀ id e, t.pending id = some e →
    ∃ x, t.exchange? e = some x ∧ x.streamID = id ∧ x.consumer ≠ .returned
  closed : ∀ e x, t.exchange? e = some x → x.closed = true → t.once = true
  fits : ∀ e x, t.exchange? e = some x → x.queue.length ≤ t.eventBuffer
  gone : t.once = true → (∀ id, t.pending id = none) ∧ t.err ≠ none ∧ t.sendingTo = none
  done : t.done = true → t.once = true
  sends : ∀ e, t.sendingTo = some e → ∃ x, t.exchange? e = some x ∧ x.consumer ≠ .returned ∧
    x.Ready t.eventBuffer
  calm : t.panicked = false

variable {t} {e : ℕ} {f : Exchange → Exchange} {session : Session X}

theorem Sane.sendsAlive (h : t.Sane) : t.SendsAlive := by
  intro e hsend
  obtain ⟨x, hx, hr, hready⟩ := h.sends e hsend
  refine ⟨x, hx, ?_, hr, hready⟩
  by_contra hclosed
  have hover := (h.gone (h.closed e x hx (by simpa using hclosed))).2.2
  rw [hsend] at hover
  cases hover

/-- Only the session, the GOAWAY and the place of the read loop outside a send have changed. -/
theorem Sane.congr (h : t.Sane) {goAway : Option CallError} {reader : Reader}
    (hr : sendingTo { t with reader } = t.sendingTo ∨ sendingTo { t with reader } = none) :
    Sane { t with session, goAway, reader } := by
  refine ⟨h.pending, h.closed, h.fits, fun ho => ?_, h.done, fun e hsend => ?_, h.calm⟩
  · obtain ⟨h1, h2, h3⟩ := h.gone ho
    exact ⟨h1, h2, hr.elim (fun hr => hr.trans h3) id⟩
  · exact h.sends e (hr.elim (fun hr => hr ▸ hsend) fun hr => nomatch hr ▸ hsend)

theorem exchange?_modify (t : Transport X) (e e' : ℕ) (f : Exchange → Exchange) :
    (t.modify e f).exchange? e' = (t.exchange? e').map (if e = e' then f else id) := by
  rw [exchange?, modify, getElem?_modify]
  split <;> simp [exchange?]

/-- An exchange changes. Its consumer may return only if nobody can find the exchange any more. -/
theorem Sane.modify (h : t.Sane) (hf : ∀ x, t.exchange? e = some x → (f x).streamID = x.streamID ∧
      (f x).closed = x.closed ∧ (f x).queue.length ≤ t.eventBuffer ∧
      (t.sendingTo = some e → (f x).Ready t.eventBuffer))
    (hret : ∀ x, t.exchange? e = some x → x.consumer ≠ .returned → (f x).consumer = .returned →
      (∀ id, t.pending id ≠ some e) ∧ t.sendingTo ≠ some e) : (t.modify e f).Sane := by
  have hold : ∀ e' x, (t.modify e f).exchange? e' = some x →
      ∃ y, t.exchange? e' = some y ∧ (e = e' ∧ x = f y ∨ x = y) := by
    intro e' x hx
    rw [exchange?_modify] at hx
    obtain ⟨y, hy, rfl⟩ := Option.map_eq_some_iff.1 hx
    split
    · next he => exact ⟨y, hy, .inl ⟨he, rfl⟩⟩
    · exact ⟨y, hy, .inr rfl⟩
  refine ⟨?_, ?_, ?_, h.gone, h.done, ?_, h.calm⟩
  · intro id e' hp
    obtain ⟨x, hx, hxid, hxr⟩ := h.pending id e' hp
    by_cases he : e = e'
    · subst he
      refine ⟨f x, ?_, (hf x hx).1.trans hxid, fun hr => (hret x hx hxr hr).1 id hp⟩
      simp [exchange?_modify, hx]
    · exact ⟨x, by simp [exchange?_modify, hx, he], hxid, hxr⟩
  · intro e' x hx hc
    obtain ⟨y, hy, ⟨rfl, rfl⟩ | rfl⟩ := hold e' x hx
    · exact h.closed e y hy ((hf y hy).2.1 ▸ hc)
    · exact h.closed e' x hy hc
  · intro e' x hx
    obtain ⟨y, hy, ⟨rfl, rfl⟩ | rfl⟩ := hold e' x hx
    · exact (hf y hy).2.2.1
    · exact h.fits e' x hy
  · intro e' hsend
    obtain ⟨x, hx, hxr, hready⟩ := h.sends e' hsend
    by_cases he : e = e'
    · subst he
      refine ⟨f x, ?_, fun hr => (hret x hx hxr hr).2 hsend, (hf x hx).2.2.2 hsend⟩
      simp [exchange?_modify, hx]
    · exact ⟨x, by simp [exchange?_modify, hx, he], hxr, hready⟩

theorem Sane.ready (h : t.Sane) {x : Exchange} (hx : t.exchange? e = some x)
    (hsend : t.sendingTo = some e) : x.Ready t.eventBuffer := by
  obtain ⟨y, hy, -, hready⟩ := h.sends e hsend
  cases hx.symm.trans hy
  exact hready

/-- A consumer goes elsewhere, and does not return. -/
theorem Sane.moves (h : t.Sane) (e : ℕ) {P : Exchange → Prop} [DecidablePred P]
    {c : Exchange → Consumer} (hc : ∀ x, c x ≠ .returned)
    (hok : t.sendingTo = some e → ∀ x, t.exchange? e = some x → P x →
      Exchange.Reads { x with consumer := c x } ∨ x.queue.length < t.eventBuffer) :
    (t.modify e fun x => if P x then { x with consumer := c x } else x).Sane := by
  refine h.modify (fun x hx => ?_) fun x _ hr hr' => ?_
  · split
    · next hp => exact ⟨rfl, rfl, h.fits e x hx, fun hsend => hok hsend x hx hp⟩
    · exact ⟨rfl, rfl, h.fits e x hx, h.ready hx⟩
  · split at hr'
    · exact absurd hr' (hc x)
    · exact absurd hr' hr

/-- A new exchange whose consumer is there. -/
theorem Sane.enter (h : t.Sane) (herr : t.err = none) (id : ℕ) {consumer : Consumer}
    (hc : consumer ≠ .returned) : (t.enter id consumer).Sane := by
  have hlt {e : ℕ} {x : Exchange} (hx : t.exchange? e = some x) : e < t.exchanges.length :=
    (List.getElem?_eq_some_iff.1 hx).1
  have hkeep {e : ℕ} {x : Exchange} (hx : t.exchange? e = some x) :
      (t.enter id consumer).exchange? e = some x := by
    rw [exchange?, Transport.enter, List.getElem?_append_left (hlt hx)]
    exact hx
  have honce : t.once ≠ true := fun ho => (h.gone ho).2.1 herr
  have hold {e : ℕ} {x : Exchange} (hx : (t.enter id consumer).exchange? e = some x) :
      t.exchange? e = some x ∨ x = { streamID := id, consumer } := by
    rcases Nat.lt_or_ge e t.exchanges.length with hlt' | hge
    · rw [exchange?, Transport.enter, List.getElem?_append_left hlt'] at hx
      exact Or.inl hx
    · rw [exchange?, Transport.enter, List.getElem?_append_right hge,
        List.getElem?_singleton] at hx
      split at hx
      · exact Or.inr (Option.some.inj hx).symm
      · cases hx
  refine ⟨?_, ?_, ?_, fun ho => absurd ho honce, h.done, ?_, h.calm⟩
  · intro id' e hp
    by_cases hid : id' = id
    · subst hid
      simp only [Transport.enter, Function.update_self, Option.some.injEq] at hp
      subst hp
      exact ⟨{ streamID := id', consumer }, by simp [exchange?, Transport.enter], rfl, hc⟩
    · simp only [Transport.enter, Function.update_of_ne hid] at hp
      obtain ⟨x, hx, hxid, hxr⟩ := h.pending id' e hp
      exact ⟨x, hkeep hx, hxid, hxr⟩
  · intro e x hx hclosed
    rcases hold hx with hx | rfl
    · exact h.closed e x hx hclosed
    · cases hclosed
  · intro e x hx
    rcases hold hx with hx | rfl
    · exact h.fits e x hx
    · exact Nat.zero_le _
  · intro e hsend
    obtain ⟨x, hx, hxr⟩ := h.sends e hsend
    exact ⟨x, hkeep hx, hxr⟩

/-- An exchange leaves the table. -/
theorem Sane.remove (h : t.Sane) (id : ℕ) (session : Session X) :
    Sane { t with session, pending := Function.update t.pending id none } := by
  refine ⟨?_, h.closed, h.fits, ?_, h.done, h.sends, h.calm⟩
  · intro id' e hp
    by_cases hid : id' = id
    · subst hid
      simp at hp
    · exact h.pending id' e (by simpa [Function.update_of_ne hid] using hp)
  · intro ho
    obtain ⟨h1, h2, h3⟩ := h.gone ho
    refine ⟨fun id' => ?_, h2, h3⟩
    by_cases hid : id' = id
    · subst hid
      simp
    · simpa [Function.update_of_ne hid] using h1 id'

theorem Sane.not_pending (h : t.Sane) {x : Exchange} (hx : t.exchange? e = some x) (id : ℕ) :
    Function.update t.pending x.streamID none id ≠ some e := by
  intro hp
  by_cases hid : id = x.streamID
  · subst hid
    simp at hp
  · rw [Function.update_of_ne hid] at hp
    obtain ⟨y, hy, hyid, -⟩ := h.pending id e hp
    cases hx.symm.trans hy
    exact hid hyid.symm

/-- The consumer of an exchange takes it out of the table. -/
theorem Sane.leave (h : t.Sane) {x : Exchange} (hx : t.exchange? e = some x)
    (hsend : t.sendingTo ≠ some e) (c : Consumer) :
    ({ t with session, pending := Function.update t.pending x.streamID none }.modify e fun x =>
      { x with consumer := c }).Sane :=
  (h.remove x.streamID session).modify
    (fun y hy => ⟨rfl, rfl, h.fits e y hy, fun hs => absurd hs hsend⟩)
    fun _ _ _ _ => ⟨h.not_pending hx, hsend⟩

/-- The connection fails while the read loop sends to nobody. -/
theorem Sane.fail (h : t.Sane) (err : CallError) (hsend : t.sendingTo = none) :
    (t.fail err).Sane := by
  unfold Transport.fail
  split
  · exact h
  · refine ⟨nofun, fun _ _ _ _ => rfl, fun e x hx => ?_, fun _ => ⟨fun _ => rfl, by simp, hsend⟩,
      fun _ => rfl, fun e hs => absurd (hsend.symm.trans hs) (by simp), h.calm⟩
    rw [exchange?, getElem?_mapIdx] at hx
    obtain ⟨y, hy, rfl⟩ := Option.map_eq_some_iff.1 hx
    split <;> exact h.fits e y hy

theorem Sane.openExchange (h : t.Sane) (headers : List HeaderField) (endHeaders : Bool) :
    (t.openExchange headers endHeaders .all).Sane := by
  unfold Transport.openExchange
  split
  · exact h
  next herr =>
  split
  · exact h.congr (.inl rfl)
  · next session streamID _ =>
    have hsession : Sane { t with session := (session.consumeOutput session.output.length).1 } :=
      h.congr (.inl rfl)
    refine hsession.enter (not_not.1 (not_or.1 herr).1) streamID ?_
    split <;> nofun

theorem Sane.sendLocked (h : t.Sane) {e : ℕ} {send : ℕ → Session X × Bool}
    (hok : t.RoomIf e fun x => (send x.streamID).2) : (t.sendLocked e send).Sane := by
  unfold Transport.sendLocked
  split
  · exact h
  split
  · exact h
  · exact (h.congr (.inl rfl)).moves e (fun _ => nofun) fun hs x hx hq => .inr (hok hs x hx hq)

theorem Sane.receive (h : t.Sane) (e maxBody : ℕ) :
    (t.modify e fun x => if x.Reads then x.receive maxBody else x).Sane := by
  refine h.modify (fun x hx => ?_) fun x _ hr hr' => ?_
  · have hfits := h.fits e x hx
    split
    · obtain ⟨hid, hclosed, heq | hlt, -⟩ := x.receive_channel maxBody
      · rw [heq]
        exact ⟨rfl, rfl, hfits, h.ready hx⟩
      · exact ⟨hid, hclosed, by omega, fun _ => .inr (by omega)⟩
    · exact ⟨rfl, rfl, hfits, h.ready hx⟩
  · split at hr'
    · exact absurd ((x.receive_channel maxBody).2.2.2 hr') hr
    · exact absurd hr' hr

/-- A consumer finds the connection over: then the read loop sends to nobody. -/
theorem Sane.observe (h : t.Sane) (e : ℕ) : (t.step (.observe e)).Sane := by
  have hover {x : Exchange} (hx : t.exchange? e = some x)
      (hc : t.done = true ∨ x.closed = true ∧ x.queue = []) :
      (∀ id, t.pending id ≠ some e) ∧ t.sendingTo ≠ some e := by
    obtain ⟨hp, -, hs⟩ := h.gone (hc.elim h.done fun hc => h.closed e x hx hc.1)
    exact ⟨fun id => by rw [hp id]; nofun, by rw [hs]; nofun⟩
  refine h.modify (fun x hx => ?_) fun x hx hr hr' => ?_
  · have hfits := h.fits e x hx
    split
    · next hc => exact ⟨rfl, rfl, hfits, fun hs => absurd hs (hover hx hc.2).2⟩
    split
    · next hc =>
      exact ⟨rfl, rfl, hfits, fun hs => absurd hs (hover hx (hc.elim And.right fun hc => .inr hc.2)).2⟩
    · exact ⟨rfl, rfl, hfits, h.ready hx⟩
  · split at hr'
    · cases hr'
    split at hr'
    · next hc => exact hover hx (hc.elim And.right fun hc => .inr hc.2)
    · exact absurd hr' hr

theorem Sane.feed (h : t.Sane) (src : Bytes) (write : Write) : (t.feed src write).Sane := by
  refine h.congr (.inr ?_)
  unfold sendingTo
  simp only
  split
  · next hr => split at hr <;> cases hr
  · rfl

/-- The read loop sends, if there is room. -/
theorem Sane.deliver (h : t.Sane) {event : Event} {events : List Event}
    (hr : t.reader = .sending e event events) : (t.deliver e event events).Sane := by
  unfold Transport.deliver
  split
  · exact h
  next x hx =>
  split
  · next hclosed =>
    obtain ⟨y, hy, hopen, -⟩ := h.sendsAlive e (by rw [sendingTo, hr])
    cases hx.symm.trans hy
    exact absurd (hclosed.symm.trans hopen) (by decide)
  split
  · next hroom =>
    have hnext : Sane { t with reader := .dispatching events } := h.congr (.inr rfl)
    refine hnext.modify (fun y hy => ⟨rfl, rfl, ?_, nofun⟩) fun _ _ hr hr' => absurd hr' hr
    cases hx.symm.trans hy
    rw [length_append]
    exact hroom
  · exact h

theorem Sane.lookup (h : t.Sane) {event : Event} {events : List Event}
    (hr : t.reader = .dispatching (event :: events)) (accepted : Bool) (write : Write)
    (hok : ∀ e ∈ t.target, ∀ x ∈ t.exchange? e, x.Ready t.eventBuffer) :
    (t.lookup event events accepted write).Sane := by
  have hnext : Sane { t with reader := .dispatching events } := h.congr (.inr rfl)
  unfold Transport.lookup
  simp only
  split
  · split
    · exact hnext.remove _ _
    split
    · exact hnext
    · next herr => exact hnext.enter (not_not.1 herr) _ nofun
  next hpush =>
  split
  · split
    · exact hnext.congr (.inl rfl)
    · exact hnext
  next hz =>
  split
  · exact hnext
  · next e he =>
    have honce : t.once ≠ true := by
      intro ho
      rw [(h.gone ho).1] at he
      cases he
    refine ⟨h.pending, h.closed, h.fits, fun ho => absurd ho honce, h.done, ?_, h.calm⟩
    rintro e' ⟨⟩
    obtain ⟨x, hx, -, hxr⟩ := h.pending _ _ he
    refine ⟨x, hx, hxr, hok e ?_ x hx⟩
    simpa [target, hr, hpush, hz] using he

/-- **An undisturbed step keeps the transport sane.** -/
theorem Sane.step (h : t.Sane) {st : TransportStep} (hok : t.Undisturbed st) :
    (t.step st).Sane := by
  cases st with simp only [Transport.step]
  | «open» headers endHeaders write =>
    cases hok
    exact h.openExchange headers endHeaders
  | sendData | sendTrailers => exact h.sendLocked hok
  | stopSending e =>
    exact h.moves e (fun _ => nofun) fun hs x hx hq => .inr (hok hs x hx hq.2)
  | sent e =>
    refine h.moves e (fun x => by split <;> nofun) fun hs x hx _ => ?_
    by_cases hc : x.complete = true
    · exact .inr (hok hs x hx hc)
    · exact .inl (.inr (.inl (if_neg hc)))
  | receive e => exact h.receive e _
  | interrupt e => exact h.moves e (fun _ => nofun) fun hs x hx _ => .inr (hok hs x hx rfl)
  | observe e => exact h.observe e
  | cancel | delete =>
    split
    · exact h
    next x hx =>
    split
    · exact h.leave hx hok _
    · exact h
  | feed src write =>
    split
    · exact h.feed src write
    · exact h
  | readError err =>
    split
    · exact h.congr (.inr rfl)
    · exact h
  | lookup accepted write =>
    split
    · exact h.congr (.inr rfl)
    · next hr => exact h.lookup hr accepted write hok
    · exact h
  | deliver =>
    split
    · next hr => exact h.deliver hr
    · exact h
  | skip =>
    split
    · split
      · exact h.congr (.inr rfl)
      · exact h
    · exact h
  | fail =>
    split
    · next err hr =>
      have hidle : t.sendingTo = none := by rw [sendingTo, hr]
      exact (h.fail err hidle).congr (.inr rfl)
    · exact h
  | close => exact h.fail _ hok
  | closeDone =>
    split
    · next ho => exact ⟨h.pending, h.closed, h.fits, h.gone, fun _ => ho, h.sends, h.calm⟩
    · exact h

/-- **The read loop sends to an exchange that is alive.** In every run of undisturbed steps the
exchange that the read loop is about to send to has an open channel and a consumer that has not
returned, and that receives unless there is room; nobody sends on a closed channel. -/
theorem sends_alive {session : Session X} {eventBuffer maxResponseBody : ℕ}
    {steps : List TransportStep}
    (hok : Guarded step Undisturbed (create session eventBuffer maxResponseBody) steps) :
    ((create session eventBuffer maxResponseBody).run steps).SendsAlive ∧
      ((create session eventBuffer maxResponseBody).run steps).panicked = false := by
  have hnew : (create session eventBuffer maxResponseBody).Sane :=
    ⟨nofun, nofun, nofun, nofun, nofun, nofun, rfl⟩
  have h := hok.invariant (fun t st h hok => h.step hok) hnew
  exact ⟨h.sendsAlive, h.calm⟩

/-- SETTINGS of a server and the head of a response on stream 1. -/
def serverStart : Bytes :=
  frameBytes .settings 0 0 [] ++ frameBytes .headers .endHeaders 1 [0x88]

/-- A request whose response begins to arrive: the read loop is about to send its head. -/
def responseArrives : List TransportStep :=
  [.open getRequest true .all, .feed serverStart .all, .lookup false .all,
    .lookup false .all]

/-- A call receives the head of its response. -/
theorem sends_alive_response :
    ∃ s : Session externals, newSession externals .client {} = .ok s ∧
      ((create s 16 1024).run (responseArrives ++ [.deliver, .receive 0])).SendsAlive ∧
      ((create s 16 1024).run (responseArrives ++ [.deliver, .receive 0])).panicked = false := by
  obtain ⟨s, hs, hok⟩ : ∃ s : Session externals,
      newSession externals .client {} = .ok s ∧
      Guarded step Undisturbed (create s 16 1024) (responseArrives ++ [.deliver, .receive 0]) :=
    Session.exists_newSession (by decide +kernel)
  exact ⟨s, hs, sends_alive hok⟩

/-- The context of a call is done while the read loop is about to send to its exchange: the call
returns, and the read loop still sends. `Close` closes the channel in the same place: the read loop
sends on a closed channel. -/
theorem sends_to_dead_exchange :
    ∃ s : Session externals, newSession externals .client {} = .ok s ∧
      ¬((create s 16 1024).run (responseArrives ++ [.interrupt 0, .cancel 0 .all])).SendsAlive ∧
      ((create s 16 1024).run (responseArrives ++ [.close, .deliver])).panicked = true := by
  obtain ⟨s, hs, hsend, hgone, hpanic⟩ : ∃ s : Session externals,
      newSession externals .client {} = .ok s ∧
      ((create s 16 1024).run (responseArrives ++ [.interrupt 0, .cancel 0 .all])).sendingTo =
        some 0 ∧
      (((create s 16 1024).run (responseArrives ++ [.interrupt 0, .cancel 0 .all])).exchange? 0).map
        Exchange.consumer = some .returned ∧
      ((create s 16 1024).run (responseArrives ++ [.close, .deliver])).panicked = true :=
    Session.exists_newSession (by decide +kernel)
  refine ⟨s, hs, fun halive => ?_, hpanic⟩
  obtain ⟨x, hx, -, hr, -⟩ := halive 0 hsend
  rw [hx, Option.map_some, Option.some.injEq] at hgone
  exact hr hgone

end Transport

end WagoHttp.Http2.Request
