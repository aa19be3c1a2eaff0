import WagoHttp.Http2.Request.Transport

/-!
# The connection pool

`Pool` keeps one current `Transport` and dials a new one when there is none. A call that fails
before its response may be made again on another connection: only then is the current one discarded.
What happens on a connection during a call, and the dialer, are the environment of the call
(`Round`). -/

namespace WagoHttp.Http2.Request

/-- What the pool reads of a request. `invalid` is the error with which `transportRequest` rejects
it. -/
structure PoolRequest where
  method : Bytes
  hasBodyReader : Bool := false
  hasReplayBody : Bool := false
  invalid : Option CallError := none
  deriving DecidableEq, Repr

def idempotentMethod (method : Bytes) : Bool :=
  method ∈ [ascii "GET", ascii "HEAD", ascii "PUT", ascii "DELETE", ascii "OPTIONS", ascii "TRACE"]

def retryableRequest (request : PoolRequest) (err : CallError) : Bool :=
  if !idempotentMethod request.method then false
  else if request.hasBodyReader && !request.hasReplayBody then false
  else
    match err with
    | .streamReset _ retryable => retryable
    | .goAway _ _ => true
    | _ => false

/-- The environment of one attempt of a call: the session of a connection that is dialled for it,
what happens on the connection until the attempt ends, how it ends, and the error of `ReplayBody`
afterwards. -/
structure Round (X : Externals) where
  session : Session X
  steps : List TransportStep := []
  result : Except CallError Response
  replayError : Option CallError := none

/-- How a call of `Transport.Do` ends. -/
inductive Answer
  /-- The request is rejected as invalid. -/
  | invalid (err : CallError)
  /-- The connection had recorded the error, or a GOAWAY, before the call. -/
  | stale (err : CallError)
  | executed (result : Except CallError Response)
  deriving DecidableEq

def Answer.result : Answer → Except CallError Response
  | .invalid err => .error err
  | .stale err => .error err
  | .executed result => result

/-- Whether the request is made again after an answer. -/
def Answer.retryable (request : PoolRequest) (answer : Answer) : Bool :=
  match answer.result with
  | .ok _ => false
  | .error err => retryableRequest request err

/-- How a call of `Pool.Do` ends. -/
inductive Outcome
  | answered (answer : Answer)
  /-- The pool is closed. -/
  | refused (err : CallError)
  /-- `ReplayBody` fails. -/
  | unreplayable (err : CallError)
  deriving DecidableEq

namespace Transport

variable {X : Externals}

/-- The failure or GOAWAY that a connection has recorded. -/
def recorded (t : Transport X) : Option CallError := t.err <|> t.goAway

/-- A call of `Transport.Do`. -/
def call (t : Transport X) (request : PoolRequest) (round : Round X) : Transport X × Answer :=
  match request.invalid with
  | some err => (t, .invalid err)
  | none =>
    match t.recorded with
    | some err => (t, .stale err)
    | none => (t.run round.steps, .executed round.result)

end Transport

structure Pool (X : Externals) where
  maxRetries : ℕ := 0
  eventBuffer : ℕ := 16
  maxResponseBody : ℕ := 2 ^ 64 - 1
  /-- Every connection that has been dialled, oldest first. -/
  transports : List (Transport X) := []
  current : Option ℕ := none
  closed : Bool := false

namespace Pool

variable {X : Externals} (p : Pool X)

/-- The current connection, or a new one. -/
def transport (session : Session X) : Pool X × Except CallError ℕ :=
  if p.closed then (p, .error .closedPipe)
  else
    match p.current with
    | some i => (p, .ok i)
    | none =>
      ({ p with
          transports := p.transports ++
            [Transport.create session p.eventBuffer p.maxResponseBody]
          current := some p.transports.length },
        .ok p.transports.length)

def discard (i : ℕ) : Pool X :=
  if p.current = some i then { p with current := none } else p

/-- One attempt of a call: the connection that is handed out, and its answer. -/
def attempt (request : PoolRequest) (round : Round X) : Pool X × Except CallError (ℕ × Answer) :=
  match p.transport round.session with
  | (p, .error err) => (p, .error err)
  | (p, .ok i) =>
    match p.transports[i]? with
    | none => (p, .error .closedPipe)
    | some t =>
      ({ p with transports := p.transports.set i (t.call request round).1 },
        .ok (i, (t.call request round).2))

/-- The attempts of a call, with the number of those that may still follow. -/
def attempts (request : PoolRequest) (rounds : ℕ → Round X) :
    ℕ → ℕ → Pool X → Pool X × Outcome
  | 0, k, p =>
    match p.attempt request (rounds k) with
    | (p, .error err) => (p, .refused err)
    | (p, .ok (_, answer)) => (p, .answered answer)
  | retries + 1, k, p =>
    match p.attempt request (rounds k) with
    | (p, .error err) => (p, .refused err)
    | (p, .ok (i, answer)) =>
      if !answer.retryable request then (p, .answered answer)
      else
        match if request.hasBodyReader then (rounds k).replayError else none with
        | some err => (p.discard i, .unreplayable err)
        | none => attempts request rounds retries (k + 1) (p.discard i)

/-- How often a call may be made again. -/
def retries : ℕ := if p.maxRetries = 0 then 1 else p.maxRetries

/-- A call of `Pool.Do`. -/
def call (request : PoolRequest) (rounds : ℕ → Round X) : Pool X × Outcome :=
  p.attempts request rounds p.retries 0

/-- A call of the owner of the pool, or steps of one of its connections between the calls. -/
inductive PoolOp (X : Externals)
  | call (request : PoolRequest) (rounds : ℕ → Round X)
  | steps (i : ℕ) (steps : List TransportStep)
  | close

def step : PoolOp X → Pool X
  | .call request rounds => (p.call request rounds).1
  | .steps i steps => { p with transports := p.transports.modify i fun t => t.run steps }
  | .close => { p with closed := true, current := none }

def run (ops : List (PoolOp X)) : Pool X := ops.foldl step p

/-- What the current connection has recorded. -/
def recorded (p : Pool X) : Option CallError :=
  (p.current.bind fun i => p.transports[i]?).bind Transport.recorded

/-- The current connection is one of those that were dialled, and a closed pool has none. -/
structure Valid (p : Pool X) : Prop where
  current : ∀ i, p.current = some i → i < p.transports.length
  closed : p.closed = true → p.current = none

/-- The connection that `transport` hands out. -/
def Selects (session : Session X) (i : ℕ) (t : Transport X) : Prop :=
  ∃ q, p.transport session = (q, .ok i) ∧ q.transports[i]? = some t

/-- **A request is executed**, with so many retries left and so many attempts made: each attempt
selects a connection that has recorded nothing, and the call ends with the result of the last one
or with the error of the body that could not be replayed. -/
inductive Executed (request : PoolRequest) (rounds : ℕ → Round X) :
    ℕ → ℕ → Pool X → Outcome → Prop
  | answered {retries k p i t} (hs : Selects p (rounds k).session i t) (hu : t.recorded = none)
      (hlast : retries = 0 ∨ (Answer.executed (rounds k).result).retryable request = false) :
      Executed request rounds retries k p (.answered (.executed (rounds k).result))
  | unreplayable {retries k p i t err} (hs : Selects p (rounds k).session i t)
      (hu : t.recorded = none) (hretry : (Answer.executed (rounds k).result).retryable request)
      (hbody : request.hasBodyReader) (herr : (rounds k).replayError = some err) :
      Executed request rounds (retries + 1) k p (.unreplayable err)
  | again {retries k p i t o} (hs : Selects p (rounds k).session i t) (hu : t.recorded = none)
      (hretry : (Answer.executed (rounds k).result).retryable request)
      (hbody : request.hasBodyReader → (rounds k).replayError = none)
      (h : Executed request rounds retries (k + 1) ((p.attempt request (rounds k)).1.discard i) o) :
      Executed request rounds (retries + 1) k p o

variable {p} {q : Pool X} {request : PoolRequest} {rounds : ℕ → Round X}

/-- What `transport` hands out: the current connection, or a new one, which has recorded nothing. -/
theorem transport_cases (h : p.Valid) (session : Session X) :
    p.closed = true ∧ p.transport session = (p, .error .closedPipe) ∨
      ∃ q i t, p.transport session = (q, .ok i) ∧ q.Valid ∧ q.transports[i]? = some t ∧
        q.current = some i ∧ q.closed = p.closed ∧ t.recorded = p.recorded := by
  unfold transport
  cases hclosed : p.closed with
  | true => exact .inl ⟨rfl, if_pos rfl⟩
  | false =>
    refine .inr ?_
    rw [if_neg (by decide)]
    cases hcur : p.current with
    | some i =>
      have hlt := h.current i hcur
      refine ⟨p, i, p.transports[i], rfl, h, List.getElem?_eq_getElem hlt, hcur, hclosed, ?_⟩
      simp [Pool.recorded, hcur, List.getElem?_eq_getElem hlt]
    | none =>
      refine ⟨_, _, _, rfl, ⟨?_, ?_⟩, List.getElem?_concat_length, rfl, rfl, ?_⟩
      · rintro i ⟨⟩
        simp
      · nofun
      · simp [Pool.recorded, hcur, Transport.recorded, Transport.create]

theorem Valid.set (h : p.Valid) (i : ℕ) (t : Transport X) :
    Valid { p with transports := p.transports.set i t } :=
  ⟨fun j hj => by simpa using h.current j hj, h.closed⟩

theorem Valid.discard (h : p.Valid) (i : ℕ) : (p.discard i).Valid := by
  unfold Pool.discard
  split
  · exact ⟨nofun, fun _ => rfl⟩
  · exact h

theorem recorded_of_closed (h : p.Valid) (hc : p.closed = true) : p.recorded = none := by
  rw [Pool.recorded, h.closed hc]
  rfl

/-- What one attempt does. -/
theorem attempt_cases (h : p.Valid) (request : PoolRequest) (round : Round X) :
    p.closed = true ∧ p.attempt request round = (p, .error .closedPipe) ∨
      ∃ q i t, p.Selects round.session i t ∧ t.recorded = p.recorded ∧
        p.attempt request round = (q, .ok (i, (t.call request round).2)) ∧ q.Valid ∧
        (q.discard i).closed = p.closed ∧ (q.discard i).recorded = none := by
  unfold attempt
  rcases transport_cases h round.session with ⟨hc, ht⟩ | ⟨q, i, t, ht, hq, hi, hcur, hclosed, hrec⟩
  · rw [ht]
    exact .inl ⟨hc, rfl⟩
  · refine .inr ⟨_, i, t, ⟨q, ht, hi⟩, hrec, ?_, hq.set i (t.call request round).1, ?_⟩
    · rw [ht]
      simp only [hi]
    · simp [Pool.discard, hcur, hclosed, Pool.recorded]

theorem Selects.unique {session : Session X} {i j : ℕ} {t u : Transport X}
    (h : p.Selects session i t) (h' : p.Selects session j u) : t = u := by
  obtain ⟨q, ht, hi⟩ := h
  obtain ⟨q', ht', hi'⟩ := h'
  cases ht.symm.trans ht'
  exact Option.some.inj (hi.symm.trans hi')

/-- What `transport` hands out has recorded what the current connection has. -/
theorem selects_recorded_iff (h : p.Valid) (session : Session X) :
    (∃ i t, p.Selects session i t ∧ t.recorded ≠ none) ↔ p.recorded ≠ none := by
  rcases transport_cases h session with ⟨hc, ht⟩ | ⟨q, i, t, ht, -, hi, -, -, hrec⟩
  · refine iff_of_false ?_ (by simp [recorded_of_closed h hc])
    rintro ⟨i, t, ⟨q, h', -⟩, -⟩
    cases ht.symm.trans h'
  · have hs : p.Selects session i t := ⟨q, ht, hi⟩
    rw [← hrec]
    refine ⟨?_, fun hr => ⟨i, t, hs, hr⟩⟩
    rintro ⟨_, _, hs', hr⟩
    exact hs'.unique hs ▸ hr

/-- **A call is executed** if the current connection has recorded nothing: the connections of its
other attempts are new. -/
theorem executed_attempts (h : p.Valid) (hopen : p.closed = false) (hvalid : request.invalid = none)
    (hrec : p.recorded = none) (retries k : ℕ) :
    Executed request rounds retries k p (p.attempts request rounds retries k).2 := by
  induction retries generalizing p k with
  | zero =>
    rcases attempt_cases h request (rounds k) with ⟨hc, -⟩ | ⟨q, i, t, hs, ht, ha, -⟩
    · exact absurd (hopen.symm.trans hc) (by decide)
    · rw [attempts, ha]
      simp only [Transport.call, hvalid, ht.trans hrec]
      exact .answered hs (ht.trans hrec) (.inl rfl)
  | succ retries ih =>
    rcases attempt_cases h request (rounds k) with ⟨hc, -⟩ | ⟨q, i, t, hs, ht, ha, hq, hclosed, hnone⟩
    · exact absurd (hopen.symm.trans hc) (by decide)
    · have hu := ht.trans hrec
      have hrest := ih (hq.discard i) (hclosed.trans hopen) hnone (k + 1)
      rw [attempts, ha]
      simp only [Transport.call, hvalid, hu]
      split_ifs with hno hbody
      · exact .answered hs hu (.inr (by simpa using hno))
      · cases herr : (rounds k).replayError with
        | some err => exact .unreplayable hs hu (by simpa using hno) hbody herr
        | none => exact .again hs hu (by simpa using hno) (fun _ => herr) (by rwa [ha])
      · exact .again hs hu (by simpa using hno) (fun hb => absurd hb hbody) (by rwa [ha])

/-- The first connection of an executed call has recorded nothing. -/
theorem Executed.recorded {retries k : ℕ} {o : Outcome} (h : p.Valid)
    (he : Executed request rounds retries k p o) : p.recorded = none := by
  by_contra hne
  obtain ⟨i, t, hs, hr⟩ := (selects_recorded_iff h (rounds k).session).2 hne
  cases he with
  | answered hs' hu | unreplayable hs' hu | again hs' hu => exact hr (hs.unique hs' ▸ hu)

theorem Executed.ne_stale {retries k : ℕ} {o : Outcome} (err : CallError)
    (he : Executed request rounds retries k p o) : o ≠ .answered (.stale err) := by
  induction he with
  | answered | unreplayable => simp
  | again _ _ _ _ _ ih => exact ih

/-- **When a call returns what its connection had recorded.** -/
theorem attempts_stale_iff (h : p.Valid) (hvalid : request.invalid = none) (retries k : ℕ)
    (err : CallError) : (p.attempts request rounds (retries + 1) k).2 = .answered (.stale err) ↔
      p.recorded = some err ∧ retryableRequest request err = false := by
  by_cases hrec : p.recorded = none
  · refine iff_of_false ?_ (by simp [hrec])
    by_cases hc : p.closed = true
    · simp [attempts, attempt, transport, hc]
    · exact (executed_attempts h (by simpa using hc) hvalid hrec _ k).ne_stale err
  obtain ⟨old, hold⟩ := Option.ne_none_iff_exists'.1 hrec
  rcases attempt_cases h request (rounds k) with ⟨hc, -⟩ | ⟨q, i, t, -, ht, ha, hq, hclosed, hnone⟩
  · exact absurd (recorded_of_closed h hc) hrec
  have hopen : p.closed = false := Bool.eq_false_iff.2 fun hc => hrec (recorded_of_closed h hc)
  have hrest : Executed request rounds retries (k + 1) (q.discard i) _ :=
    executed_attempts (hq.discard i) (hclosed.trans hopen) hvalid hnone retries (k + 1)
  rw [attempts, ha]
  simp only [Transport.call, hvalid, ht.trans hold, Answer.retryable, Answer.result, hold]
  cases hr : retryableRequest request old with
  | false =>
    simp only [Bool.not_false, if_true, Outcome.answered.injEq, Answer.stale.injEq,
      Option.some.injEq]
    exact ⟨fun he => ⟨he, he ▸ hr⟩, And.left⟩
  | true =>
    refine iff_of_false ?_ (by rintro ⟨⟨⟩, hno⟩; simp [hr] at hno)
    simp only [Bool.not_true, Bool.false_eq_true, if_false]
    split
    · simp
    · exact hrest.ne_stale err

theorem Valid.attempts (h : p.Valid) (retries k : ℕ) :
    (p.attempts request rounds retries k).1.Valid := by
  induction retries generalizing p k with
  | zero =>
    unfold Pool.attempts
    rcases attempt_cases h request (rounds k) with ⟨-, ha⟩ | ⟨q, i, t, -, -, ha, hq, -⟩
    · rw [ha]
      exact h
    · rw [ha]
      exact hq
  | succ retries ih =>
    unfold Pool.attempts
    rcases attempt_cases h request (rounds k) with ⟨-, ha⟩ | ⟨q, i, t, -, -, ha, hq, -⟩
    · rw [ha]
      exact h
    · rw [ha]
      simp only
      split
      · exact hq
      · split
        · exact hq.discard i
        · exact ih (hq.discard i) _

theorem Valid.step (h : p.Valid) (o : PoolOp X) : (p.step o).Valid := by
  cases o with
  | call request rounds => exact h.attempts _ _
  | steps i steps => exact ⟨fun j hj => by simpa [Pool.step] using h.current j hj, h.closed⟩
  | close => exact ⟨nofun, fun _ => rfl⟩

theorem Valid.run (h : p.Valid) (ops : List (PoolOp X)) : (p.run ops).Valid := by
  induction ops generalizing p with
  | nil => exact h
  | cons o ops ih => exact ih (h.step o)

/-- **When a pool hands out a dead connection, and when a call is executed.** After any run,
`transport` hands out a connection that has recorded a failure or a GOAWAY exactly when the current
one has. A call with a valid request on an open pool is executed, each time on a connection that has
recorded nothing, exactly when the current one has not; it returns what was recorded before it
exactly when the request is not made again after that error. -/
theorem call_executed_iff (maxRetries eventBuffer maxResponseBody : ℕ) (ops : List (PoolOp X)) :
    let p := run { maxRetries, eventBuffer, maxResponseBody : Pool X } ops
    (∀ session, (∃ i t, p.Selects session i t ∧ t.recorded ≠ none) ↔ p.recorded ≠ none) ∧
    ∀ (request : PoolRequest) (rounds : ℕ → Round X),
      p.closed = false → request.invalid = none →
        (Executed request rounds p.retries 0 p (p.call request rounds).2 ↔ p.recorded = none) ∧
          ∀ err, (p.call request rounds).2 = .answered (.stale err) ↔
            p.recorded = some err ∧ retryableRequest request err = false := by
  intro p
  have hnew : Valid { maxRetries, eventBuffer, maxResponseBody : Pool X } := ⟨nofun, nofun⟩
  have h : p.Valid := hnew.run ops
  refine ⟨selects_recorded_iff h, fun request rounds hopen hvalid => ⟨⟨fun he => he.recorded h,
    fun hrec => executed_attempts h hopen hvalid hrec _ 0⟩, fun err => ?_⟩⟩
  obtain ⟨retries, hretries⟩ : ∃ retries, p.retries = retries + 1 := by
    unfold Pool.retries
    split
    · exact ⟨0, rfl⟩
    · next hne => exact Nat.exists_eq_succ_of_ne_zero hne
  rw [call, hretries]
  exact attempts_stale_iff h hvalid retries 0 err

/-- The connection of a pool fails after a call. Every later call returns the same error, also one
that could be made again. -/
theorem dead_connection_stays :
    ∃ s : Session SmallHpack.externals, newSession SmallHpack.externals .client {} = .ok s ∧
      let ok : ℕ → Round SmallHpack.externals := fun _ => { session := s, result := .ok {} }
      let p := run {} [.call { method := ascii "GET" } ok, .steps 0 [.readError (.other 0), .fail]]
      p.closed = false ∧ p.recorded = some (.other 0) ∧
        (p.call { method := ascii "GET" } ok).2 = .answered (.stale (.other 0)) ∧
        ((p.step (.call { method := ascii "GET" } ok)).call { method := ascii "GET" } ok).2 =
          .answered (.stale (.other 0)) :=
  Session.exists_newSession (by decide +kernel)

end Pool

end WagoHttp.Http2.Request
