import WagoHttp.Foundations.Table
import WagoHttp.Http2.Session.Calls

/-!
# The sessions of the guests

Guests reach HTTP/2 sessions through 32-bit handles. The manager has a record for each instance,
which has the table of its handles; records and sessions are shared by reference, so that here they
live in a heap. The functions of this module are the sections of `abi.go` that hold the lock of the
manager or of a session: a call of a guest is a sequence of them.
-/

namespace WagoHttp.Http2.Abi

/-- The status codes that the entry points return. -/
inductive Status
  | ok
  | again
  | badHandle
  | invalidArgument
  | invalidState
  | resourceLimit
  | messageTooLarge
  | io
  deriving DecidableEq, Repr

def statusForError : Option SessionError → Status
  | none => .ok
  | some .wouldBlock => .again
  | some .streamNotFound => .badHandle
  | some .invalidHeaders => .invalidArgument
  | some .streamState => .invalidState
  | some .sessionClosed => .invalidState
  -- a protocol error unwraps to `ErrSessionFailed`
  | some (.protocol _ _ _) => .invalidState
  | some .streamLimit => .resourceLimit
  | some .outputLimit => .resourceLimit
  | some .eventLimit => .resourceLimit
  | some .streamIDExhausted => .resourceLimit
  | some _ => .io

/-- A role from the low octet of an argument, or `none` for one that `NewSession` rejects. -/
def roleOf (param : UInt32) : Option Role :=
  if param.toUInt8 = 1 then some .client
  else if param.toUInt8 = 2 then some .server
  else none

/-- A session of a guest and the event that it looks at. -/
structure AbiSession (X : Externals) where
  session : Session X
  current : Option Event := none

/-- The record of an instance: the next handle to try, and the sessions by their handles. -/
structure AbiInstance where
  next : UInt32 := 1
  sessions : AList fun _ : UInt32 => ℕ := ∅

/-- The manager with its heap of records and sessions. -/
structure Manager (X : Externals) where
  limits : SessionLimits
  maxSessions : UInt32
  instances : AList fun _ : ℕ => ℕ := ∅
  records : ℕ → AbiInstance := fun _ => {}
  recordCount : ℕ := 0
  sessions : ℕ → Option (AbiSession X) := fun _ => none
  sessionCount : ℕ := 0

def newABIManager (X : Externals) (limits : SessionLimits) (maxSessions : UInt32) : Manager X where
  limits := limits.normalized
  maxSessions := if maxSessions = 0 then 8 else maxSessions

/-- The loop that looks for a free handle, from `next` on and once around. The recursion is on a
bound of the number of handles that are left. -/
def freeHandle (sessions : AList fun _ : UInt32 => ℕ) (next : UInt32) : ℕ → UInt32 → Option UInt32
  | 0, _ => none
  | fuel + 1, handle =>
    if handle = 0 ∨ (sessions.lookup handle).isSome then
      if handle + 1 = next then none else freeHandle sessions next fuel (handle + 1)
    else some handle

namespace Manager

variable {X : Externals} (m : Manager X)

/-- The section of `caller`: the record of the instance, which is created if there is none. -/
def caller (inst : ℕ) : Manager X × ℕ :=
  match m.instances.lookup inst with
  | some r => (m, r)
  | none =>
    ({ m with
      instances := m.instances.insert inst m.recordCount
      records := Function.update m.records m.recordCount {}
      recordCount := m.recordCount + 1 }, m.recordCount)

/-- The section of `sessionOpen` that creates a session and inserts it into a record. -/
def insert (m : Manager X) (r : ℕ) (role : Option Role) : Manager X × Except Status UInt32 :=
  let state := m.records r
  if UInt32.ofNat state.sessions.keys.length ≥ m.maxSessions then (m, .error .resourceLimit)
  else
    match role with
    | none => (m, .error .invalidArgument)
    | some role =>
      match newSession X role m.limits with
      | .error err => (m, .error (statusForError (some err)))
      | .ok session =>
        match freeHandle state.sessions state.next (2 ^ 32) state.next with
        | none => (m, .error .resourceLimit)
        | some handle =>
          ({ m with
            records := Function.update m.records r
              { next := handle + 1, sessions := state.sessions.insert handle m.sessionCount }
            sessions := Function.update m.sessions m.sessionCount (some { session })
            sessionCount := m.sessionCount + 1 }, .ok handle)

/-- The section of `sessionClose` that takes a session out of a record. -/
def remove (r : ℕ) (handle : UInt32) : Manager X × Option ℕ :=
  let state := m.records r
  ({ m with
    records := Function.update m.records r { state with sessions := state.sessions.erase handle } },
    state.sessions.lookup handle)

/-- The section of `lookup`. -/
def find (r : ℕ) (handle : UInt32) : Option ℕ := (m.records r).sessions.lookup handle

/-- Replace a session, under its lock. -/
def setSession (p : ℕ) (x : AbiSession X) : Manager X :=
  { m with sessions := Function.update m.sessions p (some x) }

/-- Close a session, under its lock. -/
def closeSession (p : ℕ) : Manager X :=
  match m.sessions p with
  | none => m
  | some x => m.setSession p { x with session := x.session.close }

/-- The section of `closeInstance`: the record of the instance is dropped. -/
def detach (inst : ℕ) : Manager X × Option ℕ :=
  ({ m with instances := m.instances.erase inst }, m.instances.lookup inst)

/-- The section of `closeAll`: all records are dropped. -/
def detachAll : Manager X × List ℕ :=
  ({ m with instances := ∅ }, m.instances.entries.map (·.2))

/-- The session has been closed. -/
def isClosed (p : ℕ) : Bool := (m.sessions p).all (·.session.closed)

theorem closed_close (s : Session X) : s.close.closed = true := by
  unfold Session.close
  split
  · assumption
  · rfl

/-- Closing a session closes this session and no other. -/
theorem isClosed_closeSession (m : Manager X) (p q : ℕ) :
    (m.closeSession p).isClosed q = (m.isClosed q || q == p) := by
  unfold closeSession
  split
  · next h =>
    by_cases hq : q = p
    · subst hq
      simp [isClosed, h]
    · simp [hq]
  · by_cases hq : q = p
    · subst hq
      simp [isClosed, setSession, closed_close]
    · simp [isClosed, setSession, hq]

/-- A handle that the loop finds is not zero and not in use. -/
theorem freeHandle_spec {sessions : AList fun _ : UInt32 => ℕ} {next : UInt32} {fuel : ℕ}
    {start handle : UInt32} (h : freeHandle sessions next fuel start = some handle) :
    handle ≠ 0 ∧ sessions.lookup handle = none := by
  induction fuel generalizing start with
  | zero => cases h
  | succ fuel ih =>
    unfold freeHandle at h
    split at h
    · split at h
      · cases h
      · exact ih h
    next hfree =>
    cases h
    simpa [not_or] using hfree

/-- The manager after the insertion of a new session under a handle of a record. -/
structure Inserted (m : Manager X) (r : ℕ) (handle : UInt32) (m' : Manager X) : Prop where
  instances : m'.instances = m.instances
  recordCount : m'.recordCount = m.recordCount
  sessionCount : m'.sessionCount = m.sessionCount + 1
  find : ∀ r' handle', m'.find r' handle' =
    if r' = r ∧ handle' = handle then some m.sessionCount else m.find r' handle'
  closed : ∀ p < m.sessionCount, m'.isClosed p = m.isClosed p
  size : (∀ r, (m.records r).sessions.keys.length ≤ m.maxSessions.toNat) →
    ∀ r, (m'.records r).sessions.keys.length ≤ m'.maxSessions.toNat

/-- What the insertion does: it fails and changes nothing, or it stores a new session under a free
handle of the record, which had room. -/
theorem insert_cases (m : Manager X) (r : ℕ) (role : Option Role) :
    (∃ status, m.insert r role = (m, .error status)) ∨
      ∃ handle m', m.insert r role = (m', .ok handle) ∧ handle ≠ 0 ∧ m.find r handle = none ∧
        m.Inserted r handle m' := by
  unfold insert
  simp only
  split
  · exact .inl ⟨_, rfl⟩
  next hroom =>
  split
  · exact .inl ⟨_, rfl⟩
  split
  · exact .inl ⟨_, rfl⟩
  split
  · exact .inl ⟨_, rfl⟩
  next session _ _ handle hfree =>
  obtain ⟨hz, hnone⟩ := freeHandle_spec hfree
  refine .inr ⟨handle, _, rfl, hz, hnone, rfl, rfl, rfl, fun r' handle' => ?_, fun p hp => ?_,
    fun hsize r' => ?_⟩
  · by_cases hr : r' = r
    · subst hr
      by_cases hh : handle' = handle
      · subst hh
        simp [find]
      · simp [find, hh, AList.lookup_insert_ne hh]
    · simp [find, hr]
  · simp [isClosed, hp.ne]
  · by_cases hr : r' = r
    · subst hr
      have hlt := UInt32.lt_iff_toNat_lt.1 (UInt32.not_le.1 hroom)
      rw [UInt32.toNat_ofNat_of_lt' ((hsize r').trans_lt m.maxSessions.toNat_lt)] at hlt
      simp only [Function.update_self, Table.length_keys_insert_new hnone]
      exact hlt
    · simpa [hr] using hsize r'

theorem find_remove (m : Manager X) (r : ℕ) (handle : UInt32) (r' : ℕ) (handle' : UInt32) :
    (m.remove r handle).1.find r' handle' =
      if r' = r ∧ handle' = handle then none else m.find r' handle' := by
  by_cases hr : r' = r
  · subst hr
    by_cases hh : handle' = handle
    · subst hh
      simp [remove, find]
    · simp [remove, find, hh, AList.lookup_erase_ne hh]
  · simp [remove, find, hr]

@[simp] theorem find_closeSession (m : Manager X) (p r : ℕ) (handle : UInt32) :
    (m.closeSession p).find r handle = m.find r handle := by
  unfold closeSession
  split <;> rfl

@[simp] theorem instances_closeSession (m : Manager X) (p : ℕ) :
    (m.closeSession p).instances = m.instances := by
  unfold closeSession
  split <;> rfl

@[simp] theorem records_closeSession (m : Manager X) (p : ℕ) :
    (m.closeSession p).records = m.records ∧ (m.closeSession p).recordCount = m.recordCount ∧
      (m.closeSession p).maxSessions = m.maxSessions ∧
      (m.closeSession p).sessionCount = m.sessionCount := by
  unfold closeSession
  split <;> exact ⟨rfl, rfl, rfl, rfl⟩

end Manager

end WagoHttp.Http2.Abi
