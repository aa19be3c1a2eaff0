import WagoHttp.Http2.Session.Framing
import WagoHttp.Http2.Session.Messages

/-!
# Content-Length

The first final section of a message can declare how long its body is. `Exchange` reads from the
parts of a stream what each direction has declared and carried, and `Direction.Kept` is the promise:
the body never exceeds the declared length, and has it when the message ends. A session keeps the
declared length in the stream, where the trailing section overwrites it; `LengthCondition` says when
this does no harm.
-/

namespace WagoHttp.Http2

open Http2.Stream SmallHpack List

/-! ## One direction of a stream -/

/-- One direction of a stream: its first final section, and what followed. -/
structure Direction where
  head : Option HeaderSectionMetadata := none
  /-- The message has no body, whatever it declares. -/
  bodyless : Bool := false
  body : ℕ := 0
  ended : Bool := false

/-- What a stream records of one direction. -/
structure Counter where
  started : Bool
  noBody : Bool
  hasLength : Bool
  length : ℕ
  body : ℕ

namespace Counter

def begins (c : Counter) (m : HeaderSectionMetadata) (noBody : Bool) : Counter :=
  { c with started := true, noBody, hasLength := m.hasContentLength, length := m.contentLength }

def data (c : Counter) (n : ℕ) : Counter := { c with body := (c.body + n) % 2 ^ 64 }

end Counter

namespace Direction

/-- A final section: the first is the head of the message, the second trails it. -/
def begins (d : Direction) (m : HeaderSectionMetadata) (bodyless : Bool) : Direction :=
  if d.head.isSome then d else { d with head := some m, bodyless }

def data (d : Direction) (n : ℕ) : Direction := { d with body := d.body + n }

def ends (d : Direction) (e : Bool) : Direction := { d with ended := d.ended || e }

@[simp] theorem ends_false (d : Direction) : d.ends false = d := by simp [ends]

/-- The body has at most the declared length, and all of it when the message has ended. -/
def Kept (d : Direction) : Prop :=
  ∀ m ∈ d.head, m.hasContentLength = true → d.bodyless = false →
    d.body ≤ m.contentLength ∧ (d.ended = true → d.body = m.contentLength)

instance (d : Direction) : Decidable d.Kept := inferInstanceAs (Decidable (∀ m ∈ d.head, _))

/-- The record of a stream agrees with the parts of the message. A stream that is closed may have
carried a body before any section. -/
structure Agrees (d : Direction) (c : Counter) (closed : Prop) : Prop where
  started : c.started = d.head.isSome
  body : c.body = d.body % 2 ^ 64
  bound : ∀ m ∈ d.head, m.contentLength < 2 ^ 64
  declared : ∀ m ∈ d.head, m.hasContentLength = true → d.bodyless = false →
    c.hasLength = true ∧ c.noBody = false ∧ c.length = m.contentLength
  idle : d.head = none → d.ended = false ∧ (d.body = 0 ∨ closed)

variable {d : Direction} {c : Counter} {closed : Prop} {m : HeaderSectionMetadata} {n : ℕ}

variable {closed' : Prop}

theorem Agrees.mono (h : d.Agrees c closed) (hc : closed → closed') : d.Agrees c closed' :=
  { h with idle := fun hn => ⟨(h.idle hn).1, (h.idle hn).2.imp_right hc⟩ }

/-- The length that is left, when the body has not exceeded it. -/
theorem Agrees.left (h : d.Agrees c closed) (hk : d.Kept) (hm : m ∈ d.head)
    (hl : m.hasContentLength = true) (hb : d.bodyless = false) :
    c.body = d.body ∧ sub64 c.length c.body = m.contentLength - d.body := by
  obtain ⟨-, -, hlength⟩ := h.declared m hm hl hb
  have hle := (hk m hm hl hb).1
  have hlt := h.bound m hm
  have hbody : c.body = d.body := by
    rw [h.body]
    exact Nat.mod_eq_of_lt (by omega)
  refine ⟨hbody, ?_⟩
  rw [hlength, hbody]
  unfold sub64
  omega

/-- A piece of the body that is no longer than what is left. -/
theorem Agrees.data (h : d.Agrees c closed) (hk : d.Kept)
    (hn : c.hasLength = true → n ≤ sub64 c.length c.body) (hs : c.started = true ∨ closed) :
    (d.data n).Kept ∧ (d.data n).Agrees (c.data n) closed := by
  refine ⟨fun m hm hl hb => ?_, h.started, ?_, h.bound, h.declared, fun hnone => ?_⟩
  · obtain ⟨hbody, hleft⟩ := h.left hk hm hl hb
    obtain ⟨hle, hend⟩ := hk m hm hl hb
    have hn := hn (h.declared m hm hl hb).1
    rw [hleft] at hn
    refine ⟨?_, fun he => ?_⟩
    · simp only [Direction.data]
      omega
    · have := hend he
      simp only [Direction.data]
      omega
  · simp only [Counter.data, Direction.data, h.body]
    omega
  · refine ⟨(h.idle hnone).1, .inr (hs.resolve_left ?_)⟩
    rw [h.started, show d.head = none from hnone]
    decide

/-- The head of the message. -/
theorem Agrees.head {noBody bodyless : Bool} (h : d.Agrees c closed) (hs : c.started = false)
    (hbody : d.body = 0) (hm : m.contentLength < 2 ^ 64) (hb : bodyless = false → noBody = false) :
    (d.begins m bodyless).Kept ∧ (d.begins m bodyless).Agrees (c.begins m noBody) closed' := by
  have hnone : d.head = none := by
    rw [h.started] at hs
    simpa using hs
  have heq : d.begins m bodyless = { d with head := some m, bodyless } := by
    simp [Direction.begins, hnone]
  rw [heq]
  refine ⟨?_, rfl, h.body, ?_, ?_, nofun⟩
  · rintro _ ⟨⟩ - -
    refine ⟨by simp [hbody], fun he => ?_⟩
    rw [(h.idle hnone).1] at he
    cases he
  · rintro _ ⟨⟩
    exact hm
  · rintro _ ⟨⟩ hl hbl
    exact ⟨hl, hb hbl, rfl⟩

/-- A trailing section that restates the length, if the head has declared one. -/
theorem Agrees.trailer {noBody : Bool} (bodyless : Bool) (h : d.Agrees c closed)
    (hs : c.started = true) (hb : noBody = false)
    (hm : c.hasLength = true → c.noBody = false →
      m.hasContentLength = true ∧ m.contentLength = c.length) :
    d.begins m bodyless = d ∧ d.Agrees (c.begins m noBody) closed := by
  have hsome : d.head.isSome = true := h.started.symm.trans hs
  refine ⟨if_pos hsome, hsome.symm, h.body, h.bound, fun m' hm' hl hbl => ?_, h.idle⟩
  obtain ⟨hhas, hno, hlength⟩ := h.declared m' hm' hl hbl
  obtain ⟨hl', hcl⟩ := hm hhas hno
  exact ⟨hl', hb, hcl.trans hlength⟩

/-- The end of a message whose body has the recorded length. -/
theorem Agrees.ends (h : d.Agrees c closed) (hk : d.Kept) (hs : c.started = true)
    (hc : c.hasLength = true → c.noBody = false → c.length = c.body) :
    (d.ends true).Kept ∧ (d.ends true).Agrees c closed := by
  refine ⟨fun m hm hl hb => ?_, h.started, h.body, h.bound, h.declared, fun hnone => ?_⟩
  · obtain ⟨hhas, hno, hlength⟩ := h.declared m hm hl hb
    have hbody := (h.left hk hm hl hb).1
    have hcomplete := hc hhas hno
    exact ⟨(hk m hm hl hb).1, fun _ => by simp only [Direction.ends]; omega⟩
  · rw [h.started, show d.head = none from hnone] at hs
    cases hs

/-- A message ends with a part of it or goes on. -/
theorem Agrees.ends_if {e : Bool} (h : d.Agrees c closed) (hk : d.Kept) (hs : c.started = true)
    (hc : e = true → c.hasLength = true → c.noBody = false → c.length = c.body) :
    (d.ends e).Kept ∧ (d.ends e).Agrees c closed := by
  cases e with
  | false =>
    rw [ends_false]
    exact ⟨hk, h⟩
  | true => exact h.ends hk hs (hc rfl)

end Direction

/-! ## Both directions -/

/-- The messages of a stream. -/
structure Exchange where
  method : Bytes := []
  received : Direction := {}
  sent : Direction := {}

namespace Exchange

/-- What a part adds. A response to HEAD has no body; nor has one with status 204 or 304. -/
def next (role : Role) (x : Exchange) : Part → Exchange
  | .promise m => { x with method := firstNonEmpty x.method m.method }
  | .received m _ =>
    if m.informational then x
    else
      { x with
        method := firstNonEmpty x.method m.method
        received := x.received.begins m
          (m.noBody || (role = .client && x.method = ascii "HEAD")) }
  | .receivedData n => { x with received := x.received.data n }
  | .receivedEnd => { x with received := x.received.ends true }
  | .sent m endStream =>
    if m.informational then { x with sent := x.sent.ends endStream }
    else
      { x with
        method := firstNonEmpty x.method m.method
        sent := (x.sent.begins m
          (m.noBody || (role = .server && x.method = ascii "HEAD"))).ends endStream }
  | .sentData n endStream => { x with sent := (x.sent.data n).ends endStream }

def Kept (x : Exchange) : Prop := x.received.Kept ∧ x.sent.Kept

end Exchange

/-- The messages of a stream, from their parts. -/
def exchange (role : Role) (parts : List Part) : Exchange := parts.foldl (Exchange.next role) {}

/-- The declared lengths are kept after every part. -/
def KeepsLength (role : Role) (parts : List Part) : Prop :=
  ∀ ps ∈ parts.inits, (exchange role ps).Kept

variable {ps : List Part}

theorem KeepsLength.kept {role : Role} (h : KeepsLength role ps) :
    (exchange role ps).Kept := h ps ((mem_inits _ _).2 prefix_rfl)

theorem KeepsLength.concat {role : Role} {part : Part} (h : KeepsLength role ps)
    (hn : ((exchange role ps).next role part).Kept) : KeepsLength role (ps ++ [part]) := by
  intro qs hqs
  rcases prefix_concat_iff.1 ((mem_inits _ _).1 hqs) with rfl | hqs
  · rw [exchange, foldl_append]
    exact hn
  · exact h qs ((mem_inits _ _).2 hqs)

namespace Session

open Endpoint

variable {X : Externals} {s s' : Session X} {a : Action} {id : ℕ} {st : Stream}

/-! ## The table -/

def Stream.receiving (st : Stream) : Counter where
  started := st.receivedHeaders
  noBody := st.receiveNoBody
  hasLength := st.receiveHasLength
  length := st.receiveLength
  body := st.receiveBody

def Stream.sending (st : Stream) : Counter where
  started := st.sentHeaders
  noBody := st.sendNoBody
  hasLength := st.sendHasLength
  length := st.sendLength
  body := st.sendBody

/-- The record of a stream agrees with the parts of its messages. -/
structure Stream.Agrees (role : Role) (st : Stream) (x : Exchange) : Prop where
  method : x.method = st.method
  received : x.received.Agrees (receiving st) (st.state = .closed)
  sent : canSend st.state = true → x.sent.Agrees (sending st) (st.state = .closed)
  /-- A client knows the method of a stream only from its request. -/
  unsent : role = .client → st.sentHeaders = false → canSend st.state = true → st.method = []

theorem agrees_fresh {role : Role} {reads : Bool} (h : (messageSide reads).fresh st) :
    Stream.Agrees role st {} := by
  have h : Stream.record st = {} := h
  simp only [Stream.record, Stream.Record.mk.injEq] at h
  obtain ⟨h1, h2, -, -, -, -, h7, h8, -, -, -, -, h13⟩ := h
  refine ⟨h1.symm, ⟨h2, h7, nofun, nofun, fun _ => ⟨rfl, .inl rfl⟩⟩,
    fun _ => ⟨h8, h13, nofun, nofun, fun _ => ⟨rfl, .inl rfl⟩⟩, fun _ _ _ => h1⟩

variable {st' : Stream} {endStream : Bool} {header : FrameHeader} {call : Call} {promised : ℕ}

theorem Stream.Agrees.same {role : Role} {reads : Bool} {x : Exchange} (h : Stream.Agrees role st x)
    (hs : (messageSide reads).same st st') :
    Stream.Agrees role st' x := by
  obtain ⟨hrecord, hstate⟩ := hs
  simp only [record, Stream.Record.mk.injEq] at hrecord
  obtain ⟨h1, h2, h3, h4, h5, h6, h7, h8, h9, h10, h11, h12, h13⟩ := hrecord
  have hr : receiving st' = receiving st := by
    simp only [receiving, h2, h4, h5, h6, h7]
  have hs : sending st' = sending st := by
    simp only [sending, h8, h10, h11, h12, h13]
  refine ⟨h.method.trans h1.symm, ?_, fun hcan => ?_, fun hrole hsent hcan => ?_⟩
  · rw [hr]
    exact h.received.mono hstate.closed
  · rw [hs]
    exact (h.sent (hstate.send hcan)).mono hstate.closed
  · exact h1.trans (h.unsent hrole (h8.symm.trans hsent) (hstate.send hcan))

/-- The lengths of the messages of a stream are kept, and the table agrees. -/
structure Accounted (role : Role) (s : Session X) (j : List Entry) (id : ℕ) : Prop where
  kept : KeepsLength role (parts id j)
  agrees : s.failed = none → ∀ st, s.stream? id = some st →
    Stream.Agrees role st (exchange role (parts id j))
  unopened : .opened id ∉ s.history → parts id j = []

section Steps

variable {role : Role} {j : List Entry} {fields : List HeaderField} {reads : Bool} {part : Part}

theorem Accounted.calm (h : Accounted role s j id) (hc : Calm (messageSide reads) s s')
    (hf : s'.failed = none → s.failed = none) :
    Accounted role s' (j ++ newEntries s s' fields) id := by
  have hparts : parts id (j ++ newEntries s s' fields) = parts id j := by
    rw [parts_append, hc.parts_newEntries, append_nil]
  refine ⟨hparts ▸ h.kept, fun hf' st' hst' => ?_, fun hn => ?_⟩
  · rw [hparts]
    obtain ⟨st, hst, hsame⟩ | ⟨hnew, hfresh⟩ := hc.streams id st' hst'
    · exact (h.agrees (hf hf') st hst).same hsame
    · rw [h.unopened hnew]
      exact agrees_fresh hfresh
  · rw [hparts]
    exact h.unopened fun ho => hn (hc.history.subset ho)

/-- One part of the messages of one stream. -/
theorem Accounted.moves (h : ∀ id, Accounted role s j id)
    (hm : Moves reads s s' fields id part st) (hf : s'.failed = none → s.failed = none)
    (hk : ((exchange role (parts id j)).next role part).Kept)
    (hst : Stream.Agrees role st ((exchange role (parts id j)).next role part)) (id' : ℕ) :
    Accounted role s' (j ++ newEntries s s' fields) id' := by
  by_cases hid : id' = id
  · subst hid
    have hparts : parts id' (j ++ newEntries s s' fields) = parts id' j ++ [part] := by
      rw [parts_append, hm.parts, if_pos rfl]
    refine ⟨?_, fun _ st' hst' => ?_, fun hn => absurd hm.opened hn⟩
    · rw [hparts]
      exact (h id').kept.concat hk
    · rw [hparts, exchange, foldl_append]
      exact hst.same (hm.self st' hst')
  · have hparts : parts id' (j ++ newEntries s s' fields) = parts id' j := by
      rw [parts_append, hm.parts, if_neg hid, append_nil]
    refine ⟨hparts ▸ (h id').kept, fun hf' st' hst' => ?_, fun hn => ?_⟩
    · rw [hparts]
      obtain ⟨st₀, hst₀, hsame⟩ | ⟨hnew, hfresh⟩ := hm.others id' st' hid hst'
      · exact ((h id').agrees (hf hf') st₀ hst₀).same hsame
      · rw [(h id').unopened hnew]
        exact agrees_fresh hfresh
    · rw [hparts]
      exact (h id').unopened fun ho => hn (hm.history.subset ho)

/-- The session has failed, and nothing shows. -/
theorem Accounted.fails (h : Accounted role s j id) (hf : s'.failed ≠ none)
    (hh : s.history <+: s'.history) (hp : parts id (newEntries s s' fields) = []) :
    Accounted role s' (j ++ newEntries s s' fields) id := by
  have hparts : parts id (j ++ newEntries s s' fields) = parts id j := by
    rw [parts_append, hp, append_nil]
  refine ⟨hparts ▸ h.kept, fun hf' => absurd hf' hf, fun hn => ?_⟩
  rw [hparts]
  exact h.unopened fun ho => hn (hh.subset ho)

end Steps

/-! ## Sending -/

@[simp] theorem receiving_endLocal (st : Stream) (ends : Bool) :
    Stream.receiving (Stream.endLocal st ends) = Stream.receiving st := by
  cases ends <;> rfl

@[simp] theorem sending_endLocal (st : Stream) (ends : Bool) :
    Stream.sending (Stream.endLocal st ends) = Stream.sending st := by
  cases ends <;> rfl

@[simp] theorem receiving_sendSection (st : Stream) (m : HeaderSectionMetadata) :
    Stream.receiving (Stream.sendSection st m) = Stream.receiving st := by
  unfold Stream.sendSection
  simp only
  split_ifs <;> rfl

/-- Whether a section that is sent announces that no body follows. -/
def Stream.sendsNoBody (st : Stream) (m : HeaderSectionMetadata) : Bool :=
  m.noBody || (st.method == ascii "HEAD" && m.response)

theorem sendSection_final (st : Stream) {m : HeaderSectionMetadata} (h : m.informational = false) :
    Stream.sending (Stream.sendSection st m) =
        (Stream.sending st).begins m (Stream.sendsNoBody st m) ∧
      (Stream.sendSection st m).method = firstNonEmpty st.method m.method ∧
      (Stream.sendSection st m).sentHeaders = true := by
  unfold Stream.sendSection
  simp only [h, Bool.not_false, if_true]
  split_ifs <;> exact ⟨rfl, rfl, rfl⟩

theorem sendSection_informational {m : HeaderSectionMetadata} (h : m.informational = true)
    (hs : st.sentHeaders = false) :
    Stream.sending (Stream.sendSection st m) = Stream.sending st ∧
      (Stream.sendSection st m).method = st.method := by
  unfold Stream.sendSection
  simp only [h, Bool.not_true, Bool.false_eq_true, if_false]
  rw [if_neg (by simp [hs])]
  split_ifs <;> exact ⟨rfl, rfl⟩

/-- A trailing section restates the length that the stream has recorded, or the body has it. -/
def RestatesSent (st : Stream) (fields : List HeaderField) : Prop :=
  st.sentHeaders = true → st.sendHasLength = true → st.sendNoBody = false →
    (inspectHeaderSection fields).hasContentLength = true ∧
      (inspectHeaderSection fields).contentLength = st.sendLength ∨ st.sendBody = st.sendLength

instance (st : Stream) (fields : List HeaderField) : Decidable (RestatesSent st fields) :=
  inferInstanceAs (Decidable (_ → _))

variable {role : Role} {j : List Entry} {fields : List HeaderField} {part : Part} {x : Exchange}

/-- The head of a message that is sent. -/
theorem agrees_headSent (fields : List HeaderField) (hx : Stream.Agrees role st x)
    (hcan : canSend st.state = true) (hs : st.sentHeaders = false) :
    let d := x.sent.begins (inspectHeaderSection fields) ((inspectHeaderSection fields).noBody ||
      (role = .server && x.method = ascii "HEAD"))
    d.Kept ∧ d.Agrees ((Stream.sending st).begins (inspectHeaderSection fields)
      (Stream.sendsNoBody st (inspectHeaderSection fields))) (st.state = .closed) := by
  have hsent := hx.sent hcan
  have hnone : x.sent.head = none := by
    have := hsent.started
    rw [show (Stream.sending st).started = false from hs] at this
    simpa using this.symm
  have hbody := (hsent.idle hnone).2.resolve_right (ne_closed_of_canSend hcan)
  refine hsent.head hs hbody (contentLength_lt fields) fun hb => ?_
  obtain ⟨hno, hhead⟩ := Bool.or_eq_false_iff.1 hb
  -- A client knows no method yet; a server answers a request that is not HEAD.
  have hmethod : st.method ≠ ascii "HEAD" := by
    cases role with
    | client =>
      rw [hx.unsent rfl hs hcan]
      decide
    | server => simpa [hx.method] using hhead
  simp [Stream.sendsNoBody, hno, hmethod]

/-- A trailing section ends its message, whose body has the declared length. -/
theorem kept_trailerSent (hk : x.sent.Kept)
    (hx : x.sent.Agrees (Stream.sending st) (st.state = .closed))
    (hs : st.sentHeaders = true) (hok : RestatesSent st fields)
    (hlength : (inspectHeaderSection fields).hasContentLength = true →
      (inspectHeaderSection fields).contentLength = st.sendBody) : (x.sent.ends true).Kept := by
  intro m hm hl hb
  obtain ⟨hhas, hno, hdeclared⟩ := hx.declared m hm hl hb
  refine ⟨(hk m hm hl hb).1, fun _ => ?_⟩
  have hcomplete : st.sendBody = st.sendLength := by
    rcases hok hs hhas hno with ⟨hrestates, heq⟩ | heq
    · exact (hlength hrestates).symm.trans heq
    · exact heq
  exact (hx.left hk hm hl hb).1.symm.trans (hcomplete.trans hdeclared)

theorem canSend_ended (st : Stream) (m : HeaderSectionMetadata) :
    canSend (Stream.endLocal (Stream.sendSection st m) true).state = false := by
  change canSend (endLocalState (Stream.sendSection st m).state) = false
  rw [sendSection_state]
  cases st.state <;> rfl

/-- A section that is sent. -/
theorem agrees_sendHeaders (hk : x.Kept) (hx : Stream.Agrees role st x)
    (hc : s.checkSendHeaders id fields endStream = .ok st) (hok : RestatesSent st fields) :
    (x.next role (.sent (inspectHeaderSection fields) endStream)).Kept ∧
      Stream.Agrees role
        (Stream.endLocal (Stream.sendSection st (inspectHeaderSection fields)) endStream)
        (x.next role (.sent (inspectHeaderSection fields) endStream)) := by
  have hchecked := headersChecked hc
  have hne := ne_closed_of_canSend hchecked.can
  cases hinf : (inspectHeaderSection fields).informational with
  | true =>
    obtain ⟨hs, rfl⟩ := hchecked.informational hinf
    obtain ⟨hsend, hmethod⟩ := sendSection_informational hinf hs
    have hnext : x.next role (.sent (inspectHeaderSection fields) false) = x := by
      simp [Exchange.next, hinf]
    rw [hnext]
    refine ⟨hk, ?_, ?_, ?_, fun hr _ _ => ?_⟩
    · rw [method_endLocal, hmethod, hx.method]
    · rw [receiving_endLocal, receiving_sendSection]
      exact hx.received.mono fun hclosed => absurd hclosed hne
    · rw [sending_endLocal, hsend]
      exact fun _ => (hx.sent hchecked.can).mono fun hclosed => absurd hclosed hne
    · rw [method_endLocal, hmethod]
      exact hx.unsent hr hs hchecked.can
  | false =>
    obtain ⟨hsend, hmethod, hsent⟩ := sendSection_final st hinf
    generalize hcounter : (Stream.sending st).begins (inspectHeaderSection fields)
      (Stream.sendsNoBody st (inspectHeaderSection fields)) = counter at hsend
    have hlength : endStream = true → counter.hasLength = true → counter.noBody = false →
        counter.length = counter.body := by
      rintro rfl hl hn
      rw [← hsend] at hl hn ⊢
      have hl' : (Stream.sendSection st (inspectHeaderSection fields)).sendHasLength = true := hl
      have hn' : (Stream.sendSection st (inspectHeaderSection fields)).sendNoBody = false := hn
      change (Stream.sendSection st (inspectHeaderSection fields)).sendLength =
        (Stream.sendSection st (inspectHeaderSection fields)).sendBody
      simpa [hl', hn'] using length_of_checkSendHeaders hc
    simp only [Exchange.next, hinf, Bool.false_eq_true, if_false]
    generalize hd : x.sent.begins (inspectHeaderSection fields)
      ((inspectHeaderSection fields).noBody || (role = .server && x.method = ascii "HEAD")) = d
    have hdir : (d.ends endStream).Kept ∧ (canSend (Stream.endLocal (Stream.sendSection st
        (inspectHeaderSection fields)) endStream).state = true →
          (d.ends endStream).Agrees counter (st.state = .closed)) := by
      cases hs : st.sentHeaders with
      | false =>
        obtain ⟨hk', ha'⟩ := agrees_headSent fields hx hchecked.can hs
        rw [hd, hcounter] at ha'
        rw [hd] at hk'
        have hended := ha'.ends_if hk' (hcounter ▸ rfl) hlength
        exact ⟨hended.1, fun _ => hended.2⟩
      | true =>
        obtain rfl := hchecked.trailing hs
        have hsame : d = x.sent := by
          rw [← hd]
          exact if_pos ((hx.sent hchecked.can).started.symm.trans hs)
        obtain ⟨-, hresponse, hno, -⟩ := trailer_metadata (hs ▸ hchecked.valid)
        subst hsame hcounter
        refine ⟨kept_trailerSent hk.2 (hx.sent hchecked.can) hs hok fun hl => ?_, fun hcan => ?_⟩
        · exact hlength rfl hl (by simp [Counter.begins, Stream.sendsNoBody, hno, hresponse])
        · exact absurd hcan (by rw [canSend_ended]; decide)
    refine ⟨⟨hk.1, hdir.1⟩, ?_, ?_, fun hcan => ?_, fun _ hs _ => ?_⟩
    · rw [method_endLocal, hmethod, hx.method]
    · rw [receiving_endLocal, receiving_sendSection]
      exact hx.received.mono fun hclosed => absurd hclosed hne
    · rw [sending_endLocal, hsend]
      exact (hdir.2 hcan).mono fun hclosed => absurd hclosed hne
    · rw [sentHeaders_endLocal, hsent] at hs
      cases hs

/-- What is sent keeps the declared length, and the stream records it. -/
theorem agrees_sends (hs : Sends s fields id part st) (hrole : s.role = role)
    (h : ∀ id, Accounted role s j id) (hf : s.failed = none)
    (hok : ∀ st m endStream, part = .sent m endStream → s.stream? id = some st →
      RestatesSent st fields) :
    ((exchange role (parts id j)).next role part).Kept ∧
      Stream.Agrees role st ((exchange role (parts id j)).next role part) := by
  have hk := (h id).kept.kept
  cases hs with
  | headers checked =>
    have hst := (headersChecked checked).stream
    exact agrees_sendHeaders hk ((h id).agrees hf _ hst) checked (hok _ _ _ rfl hst)
  | promise server new ready =>
    rw [(h id).unopened new] at hk ⊢
    refine ⟨⟨hk.1, hk.2⟩, rfl, ⟨rfl, rfl, nofun, nofun, fun _ => ⟨rfl, .inl rfl⟩⟩,
      fun _ => ⟨rfl, rfl, nofun, nofun, fun _ => ⟨rfl, .inl rfl⟩⟩, fun hc => ?_⟩
    rw [← hrole, server] at hc
    cases hc
  | data checked le complete =>
    have hd := dataChecked checked
    have hx := (h id).agrees hf _ hd.stream
    have hne := ne_closed_of_canSend hd.can
    obtain ⟨hk', ha'⟩ := (hx.sent hd.can).data hk.2 (fun hl => le.trans (hd.length hl))
      (.inl hd.started)
    obtain ⟨hk', ha'⟩ := ha'.ends_if hk' hd.started (fun hl hh _ => (complete hl hh).symm)
    refine ⟨⟨hk.1, hk'⟩, ?_, ?_, ?_, fun _ hs _ => ?_⟩
    · rw [method_endLocal]
      exact hx.method
    · rw [receiving_endLocal]
      exact hx.received.mono fun hclosed => absurd hclosed hne
    · rw [sending_endLocal]
      exact fun _ => ha'.mono fun hclosed => absurd hclosed hne
    · rw [sentHeaders_endLocal] at hs
      exact absurd (hd.started.symm.trans hs) (by decide)
  | empty checked complete =>
    have hd := dataChecked checked
    have hx := (h id).agrees hf _ hd.stream
    have hne := ne_closed_of_canSend hd.can
    obtain ⟨hk', ha'⟩ := (hx.sent hd.can).ends hk.2 hd.started fun hl _ => complete hl
    refine ⟨⟨hk.1, hk'⟩, ?_, ?_, ?_, fun _ hs _ => ?_⟩
    · rw [method_endLocal]
      exact hx.method
    · rw [receiving_endLocal]
      exact hx.received.mono fun hclosed => absurd hclosed hne
    · rw [sending_endLocal]
      exact fun _ => ha'.mono fun hclosed => absurd hclosed hne
    · rw [sentHeaders_endLocal] at hs
      exact absurd (hd.started.symm.trans hs) (by decide)

/-! ## Receiving -/

/-- The peer ends a message. -/
theorem accounted_ends {reads : Bool} (h : ∀ id, Accounted role s j id)
    (he : Ends reads s s' id) (hf : s.failed = none)
    (hstarted : ∀ st, s.stream? id = some st → st.state ≠ .closed → st.receivedHeaders = true)
    (id' : ℕ) : Accounted role s' (j ++ newEntries s s' []) id' := by
  cases he with
  | nothing calm => exact (h id').calm calm fun _ => hf
  | ends stream active complete moves =>
    have hk := (h id).kept.kept
    have hx := (h id).agrees hf _ stream
    obtain ⟨hk', ha'⟩ := hx.received.ends hk.1 (hstarted _ stream active) complete
    exact Accounted.moves h moves (fun _ => hf) ⟨hk', hk.2⟩
      ⟨hx.method, ha', hx.sent, hx.unsent⟩ id'

/-- A piece of a body. -/
theorem accounted_onData {data : Bytes} (h : ∀ id, Accounted role s j id)
    (hids : ∀ st, s.stream? id = some st → .opened id ∈ s.history)
    (hstarted : s.failed = none → ∀ st, s.stream? id = some st →
      st.receivedHeaders = true ∨ st.state = .closed)
    (hf : (s.onData id data endStream).failed = none → s.failed = none) (id' : ℕ) :
    Accounted role (s.onData id data endStream)
      (j ++ newEntries s (s.onData id data endStream) []) id' := by
  obtain hc | ⟨hfail, hhist, hparts⟩ | ⟨st, hf₀, hst, hlength, hm⟩ :=
    onData_cases data endStream hids
  · exact (h id').calm hc hf
  · exact (h id').fails hfail hhist (hparts id')
  · have hk := (h id).kept.kept
    have hx := (h id).agrees hf₀ st hst
    obtain ⟨hk', ha'⟩ := hx.received.data hk.1 hlength (hstarted hf₀ st hst)
    exact Accounted.moves h hm (fun _ => hf₀) ⟨hk', hk.2⟩ ⟨hx.method, ha', hx.sent, hx.unsent⟩ id'

/-- A trailing section restates the length that the stream has recorded, and a request has no
status. -/
def RestatesReceived (role : Role) (st : Stream) (fields : List HeaderField) : Prop :=
  (st.receivedHeaders = true → st.receiveHasLength = true → st.receiveNoBody = false →
    (inspectHeaderSection fields).hasContentLength = true ∧
      (inspectHeaderSection fields).contentLength = st.receiveLength) ∧
    (role = .server → (inspectHeaderSection fields).response = false)

instance (role : Role) (st : Stream) (fields : List HeaderField) :
    Decidable (RestatesReceived role st fields) := inferInstanceAs (Decidable (_ ∧ _))

/-- The section that is being received fits the messages of its stream. -/
structure SectionAccounted (role : Role) (s : Session X) (j : List Entry) : Prop where
  opened : .opened s.currentHeaderEventStream ∈ s.history
  push : s.currentHeaderPush = true → parts s.currentHeaderEventStream j = [] ∧
    ∀ st, s.stream? s.currentHeaderEventStream = some st → canSend st.state = false
  trailer : s.currentHeaderPush = false → ∀ st, s.stream? s.currentHeaderEventStream = some st →
    s.currentHeaderTrailer = st.receivedHeaders
  body : s.currentHeaderPush = false → s.currentHeaderTrailer = false →
    (exchange role (parts s.currentHeaderEventStream j)).received.body = 0

/-- Whether a section that is received announces that no body follows. -/
def Stream.receivesNoBody (st : Stream) (m : HeaderSectionMetadata) : Bool :=
  m.noBody || (firstNonEmpty st.method m.method == ascii "HEAD" && m.response)

/-- A final section that is received: the head of the message, or a trailing section. -/
theorem agrees_finalReceived (hk : x.Kept) (hx : Stream.Agrees role st x) (hrole : s.role = role)
    (hvalid : s.validSection = true) (hpush : s.currentHeaderPush = false)
    (htrailer : s.currentHeaderTrailer = st.receivedHeaders)
    (hbody : s.currentHeaderTrailer = false → x.received.body = 0)
    (hinf : (inspectHeaderSection s.currentHeaders).informational = false)
    (hok : RestatesReceived role st s.currentHeaders) :
    (x.next role (.received (inspectHeaderSection s.currentHeaders) s.currentHeaderTrailer)).Kept ∧
      Stream.Agrees role
        (Stream.receiveSection st (inspectHeaderSection s.currentHeaders) s.currentHeaderTrailer)
        (x.next role (.received (inspectHeaderSection s.currentHeaders)
          s.currentHeaderTrailer)) := by
  unfold validSection at hvalid
  rw [hpush, if_neg Bool.false_ne_true, hrole] at hvalid
  have hlt := contentLength_lt s.currentHeaders
  -- What a client receives names no method.
  have hmethod : role = .client → (inspectHeaderSection s.currentHeaders).method = [] := by
    rintro rfl
    cases ht : s.currentHeaderTrailer with
    | true =>
      rw [ht] at hvalid
      exact (trailer_metadata hvalid).2.2.2
    | false =>
      rw [ht] at hvalid
      exact (response_metadata rfl hvalid).2
  generalize htr : s.currentHeaderTrailer = trailer at *
  generalize hfields : s.currentHeaders = fields at *
  have hdir : (x.received.begins (inspectHeaderSection fields) ((inspectHeaderSection fields).noBody ||
      (role = .client && x.method = ascii "HEAD"))).Kept ∧
      (x.received.begins (inspectHeaderSection fields) ((inspectHeaderSection fields).noBody ||
        (role = .client && x.method = ascii "HEAD"))).Agrees
        ((Stream.receiving st).begins (inspectHeaderSection fields)
          (Stream.receivesNoBody st (inspectHeaderSection fields))) (st.state = .closed) := by
    cases trailer with
    | false =>
      refine hx.received.head htrailer.symm (hbody rfl) hlt fun hb => ?_
      obtain ⟨hno, hhead⟩ := Bool.or_eq_false_iff.1 hb
      cases role with
      | client =>
        have hne : st.method ≠ ascii "HEAD" := by simpa [hx.method] using hhead
        simp [Stream.receivesNoBody, hno, hmethod rfl, firstNonEmpty_nil, hne]
      | server => simp [Stream.receivesNoBody, hno, hok.2 rfl]
    | true =>
      obtain ⟨-, hresponse, hno, -⟩ := trailer_metadata hvalid
      have hnb : Stream.receivesNoBody st (inspectHeaderSection fields) = false := by
        simp [Stream.receivesNoBody, hno, hresponse]
      obtain ⟨heq, hag⟩ := Direction.Agrees.trailer ((inspectHeaderSection fields).noBody ||
        (role = .client && x.method = ascii "HEAD")) hx.received htrailer.symm hnb
        (hok.1 htrailer.symm)
      rw [heq]
      exact ⟨hk.1, hag⟩
  simp only [Exchange.next, hinf, Bool.false_eq_true, if_false]
  refine ⟨⟨hdir.1, hk.2⟩, ?_, hdir.2, hx.sent, fun hr hs hcan => ?_⟩
  · rw [hx.method]
    rfl
  · change firstNonEmpty st.method (inspectHeaderSection fields).method = []
    rw [hmethod hr, firstNonEmpty_nil]
    exact hx.unsent hr hs hcan

/-! ## What is being received -/

/-- The stream of the section is left alone. -/
theorem SectionAccounted.unchanged {j' : List Entry} (h : SectionAccounted role s j)
    (hb : s'.block = s.block) (hhist : s.history <+: s'.history)
    (hparts : parts s.currentHeaderEventStream j' = parts s.currentHeaderEventStream j)
    (hstream : ∀ st', s'.stream? s.currentHeaderEventStream = some st' →
      (∃ st, s.stream? s.currentHeaderEventStream = some st ∧ (messageSide true).same st st') ∨
        .opened s.currentHeaderEventStream ∉ s.history ∧ (messageSide true).fresh st') :
    SectionAccounted role s' j' := by
  simp only [Session.block, Block.mk.injEq] at hb
  obtain ⟨-, -, hev, htrailer, hpush⟩ := hb
  refine ⟨?_, ?_, ?_, ?_⟩
  · rw [hev]
    exact hhist.subset h.opened
  · rw [hpush, hev, hparts]
    refine fun hp => ⟨(h.push hp).1, fun st' hst' => ?_⟩
    obtain ⟨st, hst, hsame⟩ := (hstream st' hst').resolve_right fun hn => hn.1 h.opened
    rw [Bool.eq_false_iff]
    intro hcan
    exact absurd (hsame.2.send hcan) (by rw [(h.push hp).2 st hst]; decide)
  · rw [hpush, hev, htrailer]
    intro hp st' hst'
    obtain ⟨st, hst, hsame⟩ := (hstream st' hst').resolve_right fun hn => hn.1 h.opened
    rw [h.trailer hp st hst]
    exact (congrArg Stream.Record.receivedHeaders hsame.1).symm
  · rw [hpush, hev, htrailer, hparts]
    exact h.body

theorem SectionAccounted.calm (h : SectionAccounted role s j)
    (hc : Calm (messageSide true) s s') :
    SectionAccounted role s' (j ++ newEntries s s' fields) := by
  refine h.unchanged (hc.block rfl) hc.history ?_ (hc.streams _)
  rw [parts_append, hc.parts_newEntries, append_nil]

/-- What is sent on a stream leaves what is received on it alone. -/
theorem received_sends (role : Role) (hs : Sends s fields id part st) (x : Exchange) :
    (x.next role part).received = x.received ∧ (.opened id ∉ s.history ∨
      ∃ st₀, s.stream? id = some st₀ ∧ canSend st₀.state = true ∧
        st.receivedHeaders = st₀.receivedHeaders) := by
  have hlocal : ∀ (st : Stream) ends, (Stream.endLocal st ends).receivedHeaders = st.receivedHeaders :=
    fun st ends => by cases ends <;> rfl
  cases hs with
  | headers checked =>
    have hc := headersChecked checked
    refine ⟨?_, .inr ⟨_, hc.stream, hc.can, ?_⟩⟩
    · simp only [Exchange.next]
      split_ifs <;> rfl
    · rw [hlocal]
      exact congrArg Counter.started (receiving_sendSection _ _)
  | promise _ new _ => exact ⟨rfl, .inl new⟩
  | data checked =>
    have hd := dataChecked checked
    exact ⟨rfl, .inr ⟨_, hd.stream, hd.can, hlocal _ _⟩⟩
  | empty checked =>
    have hd := dataChecked checked
    exact ⟨rfl, .inr ⟨_, hd.stream, hd.can, hlocal _ _⟩⟩

theorem SectionAccounted.sends (h : SectionAccounted role s j) (hs : Sends s fields id part st)
    (hm : Moves true s s' fields id part st) :
    SectionAccounted role s' (j ++ newEntries s s' fields) := by
  have hb := hm.block rfl
  simp only [Session.block, Block.mk.injEq] at hb
  obtain ⟨-, -, hev, htrailer, hpush⟩ := hb
  by_cases hid : s.currentHeaderEventStream = id
  · obtain ⟨hreceived, hnew | ⟨st₀, hst₀, hcan, hheaders⟩⟩ :=
      received_sends role hs (exchange role (parts id j))
    · exact absurd (hid ▸ h.opened) hnew
    have hpush₀ : s.currentHeaderPush = false := by
      rw [Bool.eq_false_iff]
      intro hp
      exact absurd ((h.push hp).2 st₀ (hid ▸ hst₀)) (by rw [hcan]; decide)
    have hparts : parts id (j ++ newEntries s s' fields) = parts id j ++ [part] := by
      rw [parts_append, hm.parts, if_pos rfl]
    refine ⟨?_, fun hp => ?_, fun _ st' hst' => ?_, fun _ ht => ?_⟩
    · rw [hev]
      exact hm.history.subset h.opened
    · rw [hpush, hpush₀] at hp
      cases hp
    · rw [hev, hid] at hst'
      rw [htrailer, h.trailer hpush₀ st₀ (hid ▸ hst₀), ← hheaders]
      exact (congrArg Stream.Record.receivedHeaders (hm.self st' hst').1).symm
    · rw [hev, hid, hparts, exchange, foldl_append]
      refine (congrArg Direction.body hreceived).trans ?_
      have := h.body hpush₀ (htrailer ▸ ht)
      rwa [hid] at this
  · refine h.unchanged (hm.block rfl) hm.history ?_ fun st' => hm.others _ st' hid
    rw [parts_append, hm.parts, if_neg hid, append_nil]

/-- During a DATA frame: its stream has received its head or is closed, and it is not a stream that
this endpoint may still open. -/
structure DataAccounted (role : Role) (s : Session X) (id : ℕ) : Prop where
  known : .opened id ∈ s.history ∨ ¬role.initiates id
  started : ∀ st, s.stream? id = some st → st.receivedHeaders = true ∨ st.state = .closed

theorem DataAccounted.unchanged (h : DataAccounted role s id) (hhist : s.history <+: s'.history)
    (hnew : .opened id ∉ s.history → s'.stream? id ≠ none → role.initiates id)
    (hstream : ∀ st', s'.stream? id = some st' → .opened id ∈ s.history →
      ∃ st, s.stream? id = some st ∧ (st.receivedHeaders = true → st'.receivedHeaders = true) ∧
        (st.state = .closed → st'.state = .closed)) : DataAccounted role s' id := by
  refine ⟨h.known.imp_left fun ho => hhist.subset ho, fun st' hst' => ?_⟩
  by_cases ho : .opened id ∈ s.history
  · obtain ⟨st, hst, hreceived, hclosed⟩ := hstream st' hst' ho
    exact (h.started st hst).imp hreceived hclosed
  · exact absurd (hnew ho (by rw [hst']; simp)) (h.known.resolve_left ho)

/-! ## Runs -/

/-- The declared lengths are kept, and what is being received fits. -/
structure Accounts (role : Role) (s : Session X) (j : List Entry) : Prop where
  role_eq : s.role = role
  bounded : Bounded s.endpoint
  framed : s.Framed
  streams : ∀ id, Accounted role s j id
  block : s.failed = none → s.decoder.active = true → SectionAccounted role s j
  data : s.failed = none → ∀ header, s.phase.frame = some header → header.type = .data →
    DataAccounted role s header.streamID

/-- When every declared length is kept: a trailing section restates the length, or follows a body
that was sent in full; a request that is received has no status, and a DATA frame never comes on a
stream that this endpoint has yet to open. What is received has to restate the length even after the
full body, since data that comes after the section is still reported. -/
def LengthCondition (s : Session X) : Action → Prop
  | .deliver (.frameBegin header) => header.type = .data →
    .opened header.streamID ∈ s.history ∨ ¬s.role.initiates header.streamID
  | .deliver (.headerBlockEnd _ _) => s.currentHeaderPush = false →
    ∀ st ∈ s.stream? s.currentHeaderEventStream, RestatesReceived s.role st s.currentHeaders
  | .call (.sendHeaders id headers _) => ∀ st ∈ s.stream? id, RestatesSent st headers
  | _ => True

instance (s : Session X) (a : Action) : Decidable (s.LengthCondition a) := by
  induction a using Action.casesOn with
  | deliver call =>
    induction call using Callback.casesOn <;> (dsimp only [LengthCondition]; infer_instance)
  | call call =>
    induction call using Call.casesOn <;> (dsimp only [LengthCondition]; infer_instance)
  | _ => exact .isTrue trivial

/-- The stream of the DATA frame that is being received, after an action. -/
theorem Accounts.data_act (h : Accounts role s j) (hw : s.WellFormed) (ha : s.Allows a)
    (hf : s.failed = none) (hframe : s.phase.frame = some header) (ht : header.type = .data)
    (hstream : ∀ st', (s.act a).stream? header.streamID = some st' →
      .opened header.streamID ∈ s.history → ∃ st, s.stream? header.streamID = some st ∧
        (st.receivedHeaders = true → st'.receivedHeaders = true) ∧
        (st.state = .closed → st'.state = .closed)) :
    DataAccounted role (s.act a) header.streamID := by
  refine (h.data hf header hframe ht).unchanged (hw.reaches ha).history (fun ho hne => ?_) hstream
  obtain ⟨st, hst⟩ := Option.ne_none_iff_exists'.1 hne
  have ho' := ((hw.act ha).ids.opened _ st hst).1
  exact h.role_eq ▸ (initiates_of_opened hw ha
    (fun _ => not_opensPeer_of_data ha hframe ht) ho').resolve_left ho

/-- What leaves the messages alone. -/
theorem Accounts.calm_act (h : Accounts role s j) (hw : s.WellFormed) (ha : s.Allows a)
    (hc : Calm (messageSide true) s (s.act a))
    (hdata : ∀ header, a = .deliver (.frameBegin header) → header.type = .data →
      (s.act a).failed = none → DataAccounted role (s.act a) header.streamID) :
    Accounts role (s.act a) (j ++ s.entries a) := by
  refine ⟨(role_act hw ha).trans h.role_eq, bounded_act hw ha h.bounded, framed_act hw ha h.framed,
    fun id => (h.streams id).calm hc (failed_of_act hw ha), fun hf hactive => ?_,
    fun hf header hframe ht => ?_⟩
  · have hb := hc.block rfl
    simp only [Session.block, Block.mk.injEq] at hb
    exact (h.block (failed_of_act hw ha hf) (hb.1 ▸ hactive)).calm hc
  · rcases frame_of_act hw ha hframe with hold | rfl
    · refine h.data_act hw ha (failed_of_act hw ha hf) hold ht fun st' hst' ho => ?_
      obtain ⟨st, hst, hsame⟩ := (hc.streams _ st' hst').resolve_right fun hn => hn.1 ho
      refine ⟨st, hst, fun hr => ?_, hsame.2.closed⟩
      exact (congrArg Stream.Record.receivedHeaders hsame.1).trans hr
    · exact hdata header rfl ht hf

theorem RestatesSent.same (h : RestatesSent st fields) (hs : (messageSide true).same st st') :
    RestatesSent st' fields := by
  have hrecord := hs.1
  simp only [Stream.record, Stream.Record.mk.injEq] at hrecord
  obtain ⟨-, -, -, -, -, -, -, h8, -, h10, h11, h12, h13⟩ := hrecord
  unfold RestatesSent
  rw [h8, h10, h11, h12, h13]
  exact h

/-- The section of a call restates the length where it has to. -/
theorem restatesSent_of_target {t : Session X} (hids : s.endpoint.IdSpace)
    (hc : Calm (messageSide true) s t) (htarget : Call.names call id part ∨ .opened id ∉ s.history)
    (hok : s.LengthCondition (.call call)) {m : HeaderSectionMetadata}
    (hpart : part = .sent m endStream) (hst : t.stream? id = some st) :
    RestatesSent st (Action.call call).fields := by
  obtain ⟨st₀, hst₀, hsame⟩ | ⟨-, hfresh⟩ := hc.streams id st hst
  · rcases htarget with hnames | hnew
    · subst hpart
      cases call with
      | sendHeaders id' headers e =>
        obtain rfl : id = id' := hnames
        exact (hok st₀ hst₀).same hsame
      | _ => exact absurd hnames fun h => h
    · exact absurd (hids.opened id st₀ hst₀).1 hnew
  · have hs : st.sentHeaders = false := congrArg Stream.Record.sentHeaders hfresh
    exact fun hsent => absurd (hs.symm.trans hsent) (by decide)

theorem accounts_call (hw : s.WellFormed) (h : Accounts role s j)
    (hok : s.LengthCondition (.call call)) :
    Accounts role (s.act (.call call)) (j ++ s.entries (.call call)) := by
  have ha : s.Allows (.call call) := trivial
  cases sending_call call hw.ids h.bounded with
  | nothing hc => exact h.calm_act hw ha hc (fun _ h => by cases h)
  | @part t id part st hc hrole hfailed htarget hs hm _ =>
    change Moves true t (s.act (.call call)) _ _ _ _ at hm
    have hf := hs.failed
    have hf₀ : s.failed = none := hfailed ▸ hf
    have hstreams : ∀ id, Accounted role t (j ++ newEntries s t (Action.call call).fields) id :=
      fun id => (h.streams id).calm hc fun _ => hf₀
    have hentries : j ++ s.entries (.call call) = j ++ newEntries s t (Action.call call).fields ++
        newEntries t (s.act (.call call)) (Action.call call).fields := by
      rw [append_assoc, ← newEntries_trans hc.history hm.history]
      rfl
    rw [hentries]
    refine ⟨(role_act hw ha).trans h.role_eq, bounded_act hw ha h.bounded,
      framed_act hw ha h.framed, ?_, fun _ hactive => ?_, fun _ header hframe ht => ?_⟩
    · obtain ⟨hk, hst⟩ := agrees_sends hs (hrole.trans h.role_eq) hstreams hf fun st' m e hp hst' =>
        restatesSent_of_target hw.ids hc htarget hok hp hst'
      exact Accounted.moves hstreams hm (fun _ => hf) hk hst
    · have hb := hm.block rfl
      have hb' := hc.block rfl
      simp only [Session.block, Block.mk.injEq] at hb hb'
      exact ((h.block hf₀ (hb'.1 ▸ hb.1 ▸ hactive)).calm hc).sends hs hm
    · have hold := (frame_of_act hw ha hframe).resolve_right (by simp)
      refine h.data_act hw ha hf₀ hold ht fun st' hst' ho => ?_
      have hold : ∀ st', t.stream? header.streamID = some st' →
          ∃ st, s.stream? header.streamID = some st ∧ (messageSide true).same st st' :=
        fun st' hst' => (hc.streams _ st' hst').resolve_right fun hn => hn.1 ho
      by_cases hid : header.streamID = id
      · rw [hid] at ho hst' hold ⊢
        obtain ⟨-, hnew | ⟨st₀, hst₀, hcan, hheaders⟩⟩ :=
          received_sends role hs (exchange role (parts id j))
        · exact absurd (hc.history.subset ho) hnew
        obtain ⟨st₁, hst₁, hsame⟩ := hold st₀ hst₀
        refine ⟨st₁, hst₁, fun hr => ?_, fun hclosed => ?_⟩
        · have h1 : st'.receivedHeaders = st.receivedHeaders :=
            congrArg Stream.Record.receivedHeaders (hm.self st' hst').1
          have h2 : st₀.receivedHeaders = st₁.receivedHeaders :=
            congrArg Stream.Record.receivedHeaders hsame.1
          rw [h1, hheaders, h2, hr]
        · exact absurd (hsame.2.closed hclosed) (ne_closed_of_canSend hcan)
      · obtain ⟨st₀, hst₀, hsame₀⟩ := (hm.others _ st' hid hst').resolve_right fun hn =>
          hn.1 (hc.history.subset ho)
        obtain ⟨st₁, hst₁, hsame⟩ := hold st₀ hst₀
        have hsame := (messageSide true).trans hsame hsame₀
        refine ⟨st₁, hst₁, fun hr => ?_, hsame.2.closed⟩
        exact (congrArg Stream.Record.receivedHeaders hsame.1).trans hr

/-- The new streams of a section that begins. -/
theorem SectionAccounted.of_begun (h : ∀ id, Accounted role s j id) (hids : s'.endpoint.IdSpace)
    (hf : s.failed = none) (hb : Begun s s' id)
    (hparts : parts id (newEntries s s' fields) = []) :
    SectionAccounted role s' (j ++ newEntries s s' fields) := by
  obtain ⟨-, hevent, hpush, st, state, hst, htrailer, hs⟩ := hb
  refine ⟨?_, fun hp => ?_, fun _ st' hst' => ?_, fun _ ht => ?_⟩
  · rw [hevent]
    exact (hids.opened id _ hst).1
  · rw [hpush] at hp
    cases hp
  · rw [hevent, hst] at hst'
    cases hst'
    exact htrailer
  · rw [hevent, parts_append, hparts, append_nil]
    rcases hs with ⟨hst₀, hcan⟩ | ⟨hnew, -⟩
    · have hx := ((h id).agrees hf st hst₀).received
      have hnone : (exchange role (parts id j)).received.head = none := by
        have := hx.started
        rw [show (Stream.receiving st).started = false from htrailer.symm.trans ht] at this
        simpa using this.symm
      refine (hx.idle hnone).2.resolve_right fun hc => ?_
      rw [hc] at hcan
      cases hcan
    · rw [(h id).unopened hnew]
      rfl

theorem SectionAccounted.of_promised (h : ∀ id, Accounted role s j id) (hids : s'.endpoint.IdSpace)
    (hb : Promised s s' id promised) (hparts : parts promised (newEntries s s' fields) = []) :
    SectionAccounted role s' (j ++ newEntries s s' fields) := by
  obtain ⟨-, hevent, hpush, hnew, hst⟩ := hb
  refine ⟨?_, fun _ => ⟨?_, fun st' hst' => ?_⟩, fun hp => ?_, fun hp => ?_⟩
  · rw [hevent]
    exact (hids.opened promised _ hst).1
  · rw [hevent, parts_append, hparts, append_nil, (h promised).unopened hnew]
  · rw [hevent, hst] at hst'
    cases hst'
    rfl
  · rw [hpush] at hp
    cases hp
  · rw [hpush] at hp
    cases hp

/-- The callbacks that begin a block. -/
theorem Accounts.begins_act (h : Accounts role s j) (hw : s.WellFormed) (ha : s.Allows a)
    (hc : Calm (messageSide false) s (s.act a))
    (hblock : (s.act a).failed = none → (s.act a).decoder.active = true →
      SectionAccounted role (s.act a) (j ++ s.entries a))
    (hframe : ∀ header, (s.act a).phase.frame = some header → header.type ≠ .data) :
    Accounts role (s.act a) (j ++ s.entries a) :=
  ⟨(role_act hw ha).trans h.role_eq, bounded_act hw ha h.bounded, framed_act hw ha h.framed,
    fun id => (h.streams id).calm hc (failed_of_act hw ha), hblock,
    fun _ header hh ht => absurd ht (hframe header hh)⟩

/-- What the end of a block commits. -/
theorem accounted_receives (h : ∀ id, Accounted role s j id) (hb : SectionAccounted role s j)
    (hrole : s.role = role) (hf : s.failed = none)
    (hok : s.currentHeaderPush = false → ∀ st, s.stream? s.currentHeaderEventStream = some st →
      RestatesReceived role st s.currentHeaders)
    (hr : Receives s s') (id : ℕ) : Accounted role s' (j ++ newEntries s s' []) id := by
  have hk := (h s.currentHeaderEventStream).kept.kept
  cases hr with
  | nothing calm => exact (h id).calm calm fun _ => hf
  | promise stream push moves =>
    obtain ⟨hparts, hcan⟩ := hb.push push
    have hx := (h _).agrees hf _ stream
    rw [hparts] at hk hx
    refine Accounted.moves h moves (fun _ => hf) ?_ ?_ id
    · rw [hparts]
      exact hk
    · rw [hparts]
      refine ⟨rfl, hx.received, hx.sent, fun _ _ hs => ?_⟩
      exact absurd ((hcan _ stream).symm.trans hs) (by decide)
  | informational stream push valid informational moves =>
    have hnext : (exchange role (parts s.currentHeaderEventStream j)).next role
        (.received (inspectHeaderSection s.currentHeaders) s.currentHeaderTrailer) =
          exchange role (parts s.currentHeaderEventStream j) := by
      simp [Exchange.next, informational]
    refine Accounted.moves h moves (fun _ => hf) ?_ ?_ id
    · rw [hnext]
      exact hk
    · rw [hnext]
      exact (h _).agrees hf _ stream
  | @final st t stream push valid final moves hrole' failed ends =>
    obtain ⟨hk', hx'⟩ := agrees_finalReceived hk ((h _).agrees hf st stream) hrole valid push
      (hb.trailer push st stream) (hb.body push) final (hok push st stream)
    have hstreams := Accounted.moves h moves (fun _ => hf) hk' hx'
    have hended := accounted_ends hstreams ends (failed.trans hf) (fun st' hst' _ => by
      exact congrArg Stream.Record.receivedHeaders (moves.self st' hst').1) id
    rwa [append_assoc, ← newEntries_trans moves.history] at hended
    cases ends with
    | nothing calm => exact calm.history
    | ends _ _ _ moves => exact moves.history

/-- The callback is noted before it is handled. -/
theorem Accounts.noted (h : Accounts role s j) (call : Callback) :
    (∀ id, Accounted role (s.note (.received call))
      (j ++ newEntries s (s.note (.received call)) []) id) ∧
    ∀ s', Calm (blindSide false) (s.note (.received call)) s' →
      j ++ newEntries s (s.note (.received call)) [] ++
        newEntries (s.note (.received call)) s' [] = j ++ newEntries s s' [] := by
  have hnote := calm_note_received (messageSide true) s call
  refine ⟨fun id => (h.streams id).calm hnote fun hf => hf, fun s' hs' => ?_⟩
  rw [append_assoc, ← newEntries_trans hnote.history hs'.history]

/-- After the beginning of a DATA frame its stream has received its head, or it is closed. -/
theorem started_chargeData (hf : (s.chargeData header).failed = none)
    (hst' : (s.chargeData header).stream? header.streamID = some st') :
    st'.receivedHeaders = true ∨ st'.state = .closed := by
  have herror : ∀ code, (s.streamError header.streamID code).stream? header.streamID = some st' →
      st'.state = .closed := fun code h => by
    unfold streamError at h
    simp only [stream?, offerEvent, (queueEvent_frame _ _).1,
      (sentFrame_appendFrame _ _ _).streams] at h
    exact closed_of_closeStream h
  unfold chargeData at hf hst'
  split at hst'
  · exact .inr (herror _ hst')
  next st hst =>
  simp only [hst] at hf
  split at hst'
  · exact .inr (herror _ hst')
  next htakes =>
  rw [if_neg htakes] at hf
  split at hst'
  · next hwindow =>
    rw [if_pos hwindow] at hf
    exact absurd hf (failed_connectionError _ _ _)
  split at hst'
  · exact .inr (herror _ hst')
  · simp only [setStream, stream?, AList.lookup_insert, Option.some.injEq] at hst'
    have hreceived : st.receivedHeaders = true := by
      by_contra hne
      exact htakes (by simp [hne])
    rw [← hst']
    exact .inl hreceived

section Deliveries

variable (hw : s.WellFormed) (h : Accounts role s j)
include hw h

theorem accounts_frameBegin (ha : s.Allows (.deliver (.frameBegin header)))
    (ht : header.type = .headers) :
    Accounts role (s.act (.deliver (.frameBegin header)))
      (j ++ s.entries (.deliver (.frameBegin header))) := by
  have hids : (s.note (.received (.frameBegin header))).endpoint.IdSpace := hw.ids.note (by simp)
  have hnote := calm_note_received (messageSide false) s (.frameBegin header)
  have hc : Calm (messageSide false) s (s.act (.deliver (.frameBegin header))) :=
    hnote.trans (walks_onFrameBegin le_rfl rfl (messageSide_ignoresResets false) hids).calm
  refine h.begins_act hw ha hc (fun hf hactive => ?_) fun header' hh => ?_
  · have hf₀ := failed_of_act hw ha hf
    rcases begun_onFrameBegin hids ht hf with hb | hb
    · exact .of_begun h.streams (hw.act ha).ids hf₀ hb.of_note hc.parts_newEntries
    · have hinactive := h.framed.inactive hf₀ (block_eq_none ha ht)
      exact absurd (hactive.symm.trans (hb.trans hinactive)) (by decide)
  · rcases frame_of_act hw ha hh with hold | heq
    · exact nomatch ha.1.symm.trans hold
    · cases heq
      rw [ht]
      decide

theorem accounts_pushPromise (ha : s.Allows (.deliver (.pushPromise id promised))) :
    Accounts role (s.act (.deliver (.pushPromise id promised)))
      (j ++ s.entries (.deliver (.pushPromise id promised))) := by
  have hids : (s.note (.received (.pushPromise id promised))).endpoint.IdSpace :=
    hw.ids.note (by simp)
  have hnote := calm_note_received (messageSide false) s (.pushPromise id promised)
  have hc : Calm (messageSide false) s (s.act (.deliver (.pushPromise id promised))) :=
    hnote.trans (walks_onPushPromise le_rfl rfl (messageSide_ignoresResets false) hids id).calm
  have hallows := ha
  obtain ⟨header, hframe, ht, -, -, -, hblock⟩ := hallows
  refine h.begins_act hw ha hc (fun hf hactive => ?_) fun header' hh => ?_
  · rcases promised_onPushPromise hids hf with hb | hb
    · exact .of_promised h.streams (hw.act ha).ids hb.of_note hc.parts_newEntries
    · have hinactive := h.framed.inactive (failed_of_act hw ha hf) hblock
      exact absurd (hactive.symm.trans (hb.trans hinactive)) (by decide)
  · rcases frame_of_act hw ha hh with hold | heq
    · cases hframe.symm.trans hold
      rw [ht]
      decide
    · cases heq

theorem accounts_headerBlockEnd (ha : s.Allows (.deliver (.headerBlockEnd id endStream)))
    (hok : s.LengthCondition (.deliver (.headerBlockEnd id endStream))) :
    Accounts role (s.act (.deliver (.headerBlockEnd id endStream)))
      (j ++ s.entries (.deliver (.headerBlockEnd id endStream))) := by
  have hids : (s.note (.received (.headerBlockEnd id endStream))).endpoint.IdSpace :=
    hw.ids.note (by simp)
  have hallows := ha
  obtain ⟨header, hframe, hcarries, -, hblock⟩ := hallows
  obtain ⟨hstreams, hentries⟩ := h.noted (.headerBlockEnd id endStream)
  refine ⟨(role_act hw ha).trans h.role_eq, bounded_act hw ha h.bounded,
    framed_act hw ha h.framed, fun id' => ?_, fun hf hactive => ?_, fun _ header' hh ht => ?_⟩
  · obtain hc | ⟨hf, hactive, hr⟩ := receives_onHeaderBlockEnd id endStream
      fun id st hst => (hids.opened id st hst).1
    · change Accounted role _ (j ++ newEntries s
        ((s.note (.received (.headerBlockEnd id endStream))).onHeaderBlockEnd id endStream) []) id'
      rw [← hentries _ (walks_onHeaderBlockEnd le_rfl blindSide_ignoresReceives id endStream).calm]
      exact (hstreams id').calm hc fun hf => (show s.failed = none from failed_of_act hw ha hf)
    · have hnote := calm_note_received (messageSide true) s (.headerBlockEnd id endStream)
      have := accounted_receives hstreams ((h.block hf hactive).calm hnote) h.role_eq hf
        (fun hp st hst => h.role_eq ▸ hok hp st hst) hr id'
      rwa [hentries _ (walks_onHeaderBlockEnd le_rfl blindSide_ignoresReceives id endStream).calm] at this
  · have hinactive := inactive_onHeaderBlockEnd hids (fun hactive => Option.some.inj
      ((h.framed.block (failed_of_act hw ha hf) hactive).symm.trans hblock)) hf
    exact absurd (hactive.symm.trans hinactive) (by decide)
  · rcases frame_of_act hw ha hh with hold | heq
    · cases hframe.symm.trans hold
      rcases hcarries with hc | hc | hc <;> rw [hc] at ht <;> exact absurd ht (by decide)
    · cases heq

theorem accounts_data {data : Bytes} (ha : s.Allows (.deliver (.data id data endStream))) :
    Accounts role (s.act (.deliver (.data id data endStream)))
      (j ++ s.entries (.deliver (.data id data endStream))) := by
  have hids : (s.note (.received (.data id data endStream))).endpoint.IdSpace :=
    hw.ids.note (by simp)
  have hopen : ∀ st, (s.note (.received (.data id data endStream))).stream? id = some st →
      .opened id ∈ (s.note (.received (.data id data endStream))).history :=
    fun st hst => (hids.opened id st hst).1
  have hallows := ha
  obtain ⟨header, hframe, ht, rfl, -⟩ := hallows
  obtain ⟨hstreams, hentries⟩ := h.noted (.data header.streamID data endStream)
  have hframed := framed_act hw ha h.framed
  have hblock : (s.act (.deliver (.data header.streamID data endStream))).phase.block = none :=
    (congrArg Phase.block (phase_deliver hw ha)).trans
      (h.framed.block_none hframe (by simp only [FrameHeader.carriesBlock, ht]; decide))
  refine ⟨(role_act hw ha).trans h.role_eq, bounded_act hw ha h.bounded, hframed, fun id' => ?_,
    fun hf hactive => ?_, fun hf header' hh _ => ?_⟩
  · have := accounted_onData hstreams hopen
      (fun hf => (h.data hf header hframe ht).started)
      (fun hf => (show s.failed = none from failed_of_act hw ha hf)) id'
    rwa [hentries _ (walks_onData le_rfl blindSide_ignoresEvents data endStream).calm]
      at this
  · exact absurd (hactive.symm.trans (hframed.inactive hf hblock)) (by decide)
  · have hf₀ := failed_of_act hw ha hf
    obtain hold | heq := frame_of_act hw ha hh
    · cases hframe.symm.trans hold
      refine h.data_act hw ha hf₀ hframe ht fun st' hst' ho => ?_
      have ho : .opened header.streamID ∈
          (s.note (.received (.data header.streamID data endStream))).history :=
        mem_append_left _ ho
      obtain hc | ⟨hfail, -⟩ | ⟨st, -, hst, -, hm⟩ :=
        onData_cases data endStream hopen
      · obtain ⟨st, hst, hsame⟩ := (hc.streams _ st' hst').resolve_right fun hn => hn.1 ho
        exact ⟨st, hst, fun hr => (congrArg Stream.Record.receivedHeaders hsame.1).trans hr,
          hsame.2.closed⟩
      · exact absurd hf hfail
      · have hsame := hm.self st' hst'
        exact ⟨st, hst, fun hr => (congrArg Stream.Record.receivedHeaders hsame.1).trans hr,
          hsame.2.closed⟩
    · cases heq

theorem accounts_frameComplete (ha : s.Allows (.deliver (.frameComplete header)))
    (ht : header.type = .data) :
    Accounts role (s.act (.deliver (.frameComplete header)))
      (j ++ s.entries (.deliver (.frameComplete header))) := by
  have hids : (s.note (.received (.frameComplete header))).endpoint.IdSpace :=
    hw.ids.note (by simp)
  have hnote := calm_note_received (messageSide true) s (.frameComplete header)
  obtain hc | ⟨t, hf, hft, hopen, hc, hends⟩ := onFrameComplete_data hids ht
  · exact h.calm_act hw ha (hnote.trans hc) nofun
  have hc : Calm (messageSide true) s t := hnote.trans hc
  have hframed := framed_act hw ha h.framed
  have hphase := phase_deliver hw ha
  have hhist : t.history <+: (s.act (.deliver (.frameComplete header))).history := by
    cases hends with
    | nothing calm => exact calm.history
    | ends _ _ _ moves => exact moves.history
  refine ⟨(role_act hw ha).trans h.role_eq, bounded_act hw ha h.bounded, hframed, fun id' => ?_,
    fun hf' hactive => ?_, fun _ header' hh _ => ?_⟩
  · rw [entries, newEntries_trans hc.history hhist, ← append_assoc]
    refine accounted_ends (fun id => (h.streams id).calm hc fun _ => hf) hends hft
      (fun st' hst' hs => ?_) id'
    obtain ⟨st, hst, hsame⟩ := (hc.streams _ st' hst').resolve_right fun hn => hn.1
      (by simpa [note] using hopen)
    refine (congrArg Stream.Record.receivedHeaders hsame.1).trans ?_
    exact ((h.data hf header ha ht).started st hst).resolve_right fun hclosed =>
      hs (hsame.2.closed hclosed)
  · have hblock : (s.act (.deliver (.frameComplete header))).phase.block = none :=
      (congrArg Phase.block hphase).trans
        (h.framed.block_none ha (by simp only [FrameHeader.carriesBlock, ht]; decide))
    exact absurd (hactive.symm.trans (hframed.inactive hf' hblock)) (by decide)
  · rw [show (s.act (.deliver (.frameComplete header))).phase = _ from hphase] at hh
    cases hh

theorem accounts_act (ha : s.Allows a) (hok : s.LengthCondition a) :
    Accounts role (s.act a) (j ++ s.entries a) := by
  cases a with
  | call call => exact accounts_call hw h hok
  | preface => exact h.calm_act hw ha (.of_eq rfl rfl rfl) nofun
  | parsed parser => exact h.calm_act hw ha (.of_eq rfl rfl rfl) nofun
  | fail code reason => exact h.calm_act hw ha (calm_connectionError s _ _) nofun
  | deliver call =>
    by_cases hc : Callback.isControl call
    · refine h.calm_act hw ha (walks_controlDeliver le_rfl (messageSide_ignoresResets true) hc).calm ?_
      rintro header heq ht hf
      cases heq
      have hhist : s.history <+: (s.act (.deliver (.frameBegin header))).history :=
        (hw.reaches ha).history
      have heq : s.act (.deliver (.frameBegin header)) = _ := (onFrameBegin_ok hf).2.2 ht
      refine ⟨?_, fun st' hst' => started_chargeData (heq ▸ hf) (heq ▸ hst')⟩
      exact h.role_eq ▸ (hok ht).imp_left fun ho => hhist.subset ho
    cases call with
    | frameBegin header => exact accounts_frameBegin hw h ha (not_not.1 hc)
    | data id data endStream => exact accounts_data hw h ha
    | headerBlockEnd id endStream => exact accounts_headerBlockEnd hw h ha hok
    | pushPromise id promised => exact accounts_pushPromise hw h ha
    | frameComplete header => exact accounts_frameComplete hw h ha (not_not.1 hc)
    | _ => exact absurd trivial hc

end Deliveries

theorem accounts_newSession {limits : SessionLimits} (h : newSession X role limits = .ok s) :
    Accounts role s [] := by
  have hframed := framed_newSession h
  have hbounded := (steady_newSession h).bounded
  obtain ⟨output, header, payload, -, rfl⟩ := newSession_ok h
  refine ⟨rfl, hbounded, hframed, fun id => ⟨?_, fun _ st hst => ?_, fun _ => rfl⟩, ?_, ?_⟩
  · intro ps hps
    obtain rfl : ps = [] := by simpa [parts] using hps
    constructor <;> rintro _ ⟨⟩
  · exact absurd hst (by simp [stream?, init])
  · exact fun _ ha => absurd ha (by simp [init, HeaderDecoder.new])
  · exact fun _ _ hh => absurd hh (by simp [phase, receivedCalls])

/-- **Content-Length.** In every run whose actions meet `LengthCondition`, and for every stream: if
the first final section of a direction declares a length and the message is not bodyless, then the
body of this direction never exceeds it, and has it when the message ends. -/
theorem contentLength_kept {limits : SessionLimits} {s₀ : Session X} {ops : List Op}
    (hnew : newSession X role limits = .ok s₀) (hok : Meets LengthCondition s₀ ops) (id : ℕ) :
    KeepsLength role (parts id (s₀.journal ops)) :=
  ((run_journal hnew (accounts_newSession hnew)
    (fun _ _ _ hw ha h hok => accounts_act hw h ha hok) hok).streams id).kept

/-- A request with a body of the given length, which follows. -/
def uploadFrame (streamID : ℕ) (length : String) : Bytes :=
  frameBytes .headers .endHeaders streamID ([0x83, 0x86, 0x84, 0x00] ++
    SmallHpack.string (ascii "content-length") ++ SmallHpack.string (ascii length))

/-- A trailing section that ends its message. -/
def trailerFrame (streamID : ℕ) : Bytes :=
  frameBytes .headers 0x5 streamID
    (0x00 :: SmallHpack.string (ascii "x") ++ SmallHpack.string (ascii "y"))

/-- A response with a body of the given length, which follows. -/
def lengthResponse (length : String) : List HeaderField :=
  [{ name := ascii ":status", value := ascii "200" },
    { name := ascii "content-length", value := ascii length }]

/-- A server receives three octets and answers with two, as declared. -/
theorem contentLength_kept_server :
    ∃ s₀, newSession externals .server {} = .ok s₀ ∧
      let j := s₀.journal [.feed (SmallHpack.clientStart ++ uploadFrame 1 "3" ++
        frameBytes .data .endStream 1 [0, 0, 0]), .call (.sendHeaders 1 (lengthResponse "2") false),
        .call (.sendData 1 [0, 0] true)]
      (exchange .server (parts 1 j)).received.body = 3 ∧
        (exchange .server (parts 1 j)).sent.body = 2 ∧ KeepsLength .server (parts 1 j) := by
  obtain ⟨s₀, hnew, hok, hreceived, hsent⟩ := exists_newSession (X := externals)
    (r := .server) (l := {}) (p := fun s₀ =>
      let ops := [.feed (SmallHpack.clientStart ++ uploadFrame 1 "3" ++
        frameBytes .data .endStream 1 [0, 0, 0]), .call (.sendHeaders 1 (lengthResponse "2") false),
        .call (.sendData 1 [0, 0] true)]
      Meets LengthCondition s₀ ops ∧
        (exchange .server (parts 1 (s₀.journal ops))).received.body = 3 ∧
        (exchange .server (parts 1 (s₀.journal ops))).sent.body = 2) (by decide +kernel)
  exact ⟨s₀, hnew, hreceived, hsent, contentLength_kept hnew hok 1⟩

/-- A trailing section without a length makes a session forget the declared one, in both
directions: a request that declares ten octets is reported as complete after three, and a response
that declares ten octets is sent as complete after three. -/
theorem contentLength_forgotten :
    ∃ s₀, newSession externals .server {} = .ok s₀ ∧
      let j := s₀.journal [.feed (SmallHpack.clientStart ++ uploadFrame 1 "10" ++
        frameBytes .data 0 1 [0, 0, 0] ++ trailerFrame 1),
        .call (.sendHeaders 1 (lengthResponse "10") false), .call (.sendData 1 [0, 0, 0] false),
        .call (.sendHeaders 1 [{ name := ascii "x", value := ascii "y" }] true)]
      let x := exchange .server (parts 1 j)
      x.received.head.map (·.contentLength) = some 10 ∧ x.received.body = 3 ∧
        x.received.ended = true ∧ ¬x.received.Kept ∧
        x.sent.head.map (·.contentLength) = some 10 ∧ x.sent.body = 3 ∧ x.sent.ended = true ∧
        ¬x.sent.Kept :=
  exists_newSession (by decide +kernel)

end Session

end WagoHttp.Http2
