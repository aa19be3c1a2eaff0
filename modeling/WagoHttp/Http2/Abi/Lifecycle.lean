import WagoHttp.Foundations.Runs
import WagoHttp.Http2.Abi.Manager
import WagoHttp.Http2.SmallHpack

/-!
# The life of the sessions of the guests

The calls of the guests and the hooks that close instances run concurrently, and interleave at the
sections that hold the lock of the manager. `Machine.step` lets one of them take its next section.
A session that is open is in the table of its instance, or a call or a hook in flight is about to
close it, unless it was inserted into a record that a hook had dropped before: `session_open` finds
the record of its instance in one section and inserts into it in another. `Undisturbed` says that no
hook comes in between.
-/

namespace WagoHttp.Http2.Abi

open Runs List

/-- The calls of a guest that concern the table of its handles. -/
inductive GuestCall
  /-- `session_open`; `fits` says that the argument for the handle is inside of the memory. -/
  | open (role : Option Role) (fits : Bool)
  | close (handle : UInt32)
  /-- Any other call looks up its handle first. -/
  | lookup (handle : UInt32)
  deriving DecidableEq, Repr

/-- Where a call or a hook stands. -/
inductive Thread
  /-- Before `caller`. -/
  | entered (inst : ℕ) (call : GuestCall)
  /-- `session_open` between `caller` and the insertion. -/
  | opening (inst : ℕ) (role : Option Role) (r : ℕ)
  /-- `session_close` between `caller` and the removal. -/
  | removing (inst : ℕ) (handle : UInt32) (r : ℕ)
  /-- `session_close` between the removal and the close of the session. -/
  | releasing (inst : ℕ) (p : ℕ)
  | looking (inst : ℕ) (handle : UInt32) (r : ℕ)
  /-- A lookup that has found a session. -/
  | resolved (inst : ℕ) (p : ℕ)
  /-- A hook that closes the sessions of the records that it has dropped. The handles that were
  there when it began and that it has not visited are in `todo`. -/
  | sweeping (records : List ℕ) (todo : List (ℕ × UInt32))
  | done
  deriving DecidableEq, Repr

namespace Thread

/-- The thread is a call of `session_open` that has not inserted its session. -/
def opens : Thread → Option ℕ
  | .entered inst (.open _ _) => some inst
  | .opening inst _ _ => some inst
  | _ => none

end Thread

/-- The manager, the calls and hooks, and a record of who owns what. -/
structure Machine (X : Externals) where
  manager : Manager X
  threads : List Thread := []
  /-- The instances of the records and of the sessions. -/
  recordOwner : ℕ → ℕ := fun _ => 0
  sessionOwner : ℕ → ℕ := fun _ => 0
  /-- The instances that have been closed, and for which no call has started since. -/
  retired : ℕ → Bool := fun _ => false

/-- What may happen next. -/
inductive Step
  /-- A guest calls. -/
  | call (inst : ℕ) (call : GuestCall)
  /-- The hook for the end of an instance takes its section. -/
  | closeInstance (inst : ℕ)
  | closeAll
  /-- A call or hook takes its next section. -/
  | advance (t : ℕ)
  /-- A hook visits a handle of a record that it has dropped. -/
  | visit (t : ℕ) (r : ℕ) (handle : UInt32)
  deriving DecidableEq, Repr

namespace Machine

variable {X : Externals} (st : Machine X)

/-- The handles of some records. -/
def handles (m : Manager X) (rs : List ℕ) : List (ℕ × UInt32) :=
  rs.flatMap fun r => (m.records r).sessions.keys.map fun handle => (r, handle)

/-- `caller`, for a call that goes on as `next` of the record. -/
def enter (t inst : ℕ) (next : ℕ → Thread) : Machine X :=
  let (m, r) := st.manager.caller inst
  { st with
    manager := m
    recordOwner :=
      if (st.manager.instances.lookup inst).isSome then st.recordOwner
      else Function.update st.recordOwner r inst
    threads := st.threads.set t (next r) }

/-- The next section of a thread. -/
def advance (t : ℕ) : Machine X :=
  match st.threads[t]? with
  | some (.entered inst (.open role fits)) =>
    st.enter t inst fun r => if fits then .opening inst role r else .done
  | some (.entered inst (.close handle)) => st.enter t inst (.removing inst handle)
  | some (.entered inst (.lookup handle)) => st.enter t inst (.looking inst handle)
  | some (.opening inst role r) =>
    let (m, result) := st.manager.insert r role
    { st with
      manager := m
      sessionOwner :=
        if result.isOk then Function.update st.sessionOwner st.manager.sessionCount inst
        else st.sessionOwner
      threads := st.threads.set t .done }
  | some (.removing inst handle r) =>
    let (m, found) := st.manager.remove r handle
    { st with
      manager := m
      threads := st.threads.set t (found.elim .done (.releasing inst)) }
  | some (.releasing _ p) =>
    { st with manager := st.manager.closeSession p, threads := st.threads.set t .done }
  | some (.looking inst handle r) =>
    { st with threads := st.threads.set t ((st.manager.find r handle).elim .done (.resolved inst)) }
  | some (.sweeping _ todo) =>
    -- the range loop ends when every handle that is still there has been visited
    if todo.any fun x => (st.manager.find x.1 x.2).isSome then st
    else { st with threads := st.threads.set t .done }
  | _ => st

/-- A hook closes the session of a handle, if it is still there. -/
def visit (t r : ℕ) (handle : UInt32) : Machine X :=
  match st.threads[t]?, st.manager.find r handle with
  | some (.sweeping rs todo), some p =>
    if r ∈ rs then
      { st with
        manager := st.manager.closeSession p
        threads := st.threads.set t (.sweeping rs (todo.filter (· ≠ (r, handle)))) }
    else st
  | _, _ => st

def step : Step → Machine X
  | .call inst call =>
    { st with
      threads := st.threads ++ [.entered inst call]
      retired := Function.update st.retired inst false }
  | .closeInstance inst =>
    let (m, r) := st.manager.detach inst
    { st with
      manager := m
      threads := st.threads ++ [.sweeping r.toList (handles st.manager r.toList)]
      retired := Function.update st.retired inst true }
  | .closeAll =>
    let (m, rs) := st.manager.detachAll
    { st with
      manager := m
      threads := st.threads ++ [.sweeping rs (handles st.manager rs)]
      retired := fun _ => true }
  | .advance t => st.advance t
  | .visit t r handle => st.visit t r handle

/-- The thread is no call of the instance that has more to do, and no hook that has one of its
handles to visit. -/
def Leaves (inst : ℕ) : Thread → Prop
  | .entered i _ | .opening i _ _ | .removing i _ _ | .releasing i _ | .looking i _ _ => i ≠ inst
  | .sweeping _ todo => ∀ x ∈ todo, st.recordOwner x.1 ≠ inst
  | _ => True

instance (inst : ℕ) (t : Thread) : Decidable (st.Leaves inst t) := by
  cases t <;> unfold Leaves <;> infer_instance

/-- Nothing is in flight for the instance. -/
def Idle (inst : ℕ) : Prop := ∀ t ∈ st.threads, st.Leaves inst t

/-- **What the life of the sessions is to be like.** -/
structure Orderly (st : Machine X) : Prop where
  /-- The handles of an instance are not zero, and name different sessions. -/
  handles : ∀ inst r handle p, st.manager.instances.lookup inst = some r →
    st.manager.find r handle = some p → handle ≠ 0 ∧
      ∀ handle', st.manager.find r handle' = some p → handle' = handle
  bounded : ∀ inst r, st.manager.instances.lookup inst = some r →
    (st.manager.records r).sessions.keys.length ≤ st.manager.maxSessions.toNat
  /-- A handle names a session of the instance, and a lookup finds one. -/
  isolated : ∀ inst r handle p, st.manager.instances.lookup inst = some r →
    st.manager.find r handle = some p → st.sessionOwner p = inst
  resolved : ∀ inst p, .resolved inst p ∈ st.threads → st.sessionOwner p = inst
  /-- When an instance has been closed and nothing is in flight for it, its sessions are closed. -/
  released : ∀ inst, st.retired inst = true → st.Idle inst →
    ∀ p < st.manager.sessionCount, st.sessionOwner p = inst → st.manager.isClosed p = true

/-- **When every session is released**: no hook drops the record of an instance for which a call of
`session_open` is in flight. -/
def Undisturbed : Step → Prop
  | .closeInstance inst => ∀ t ∈ st.threads, t.opens ≠ some inst
  | .closeAll => ∀ t ∈ st.threads, t.opens = none
  | _ => True

instance (st : Machine X) (a : Step) : Decidable (st.Undisturbed a) := by
  cases a <;> unfold Undisturbed <;> infer_instance

/-! ## The invariant -/

/-- The tables: each record and session has an owner, and no session is in two places. -/
structure Tables (st : Machine X) : Prop where
  owned : ∀ inst r, st.manager.instances.lookup inst = some r →
    r < st.manager.recordCount ∧ st.recordOwner r = inst
  entry : ∀ r handle p, st.manager.find r handle = some p →
    r < st.manager.recordCount ∧ p < st.manager.sessionCount ∧
      st.sessionOwner p = st.recordOwner r ∧ handle ≠ 0
  unique : ∀ r handle r' handle' p, st.manager.find r handle = some p →
    st.manager.find r' handle' = some p → r' = r ∧ handle' = handle
  size : ∀ r, (st.manager.records r).sessions.keys.length ≤ st.manager.maxSessions.toNat

/-- A thread has a record or a session of its instance. -/
def Holds : Thread → Prop
  | .opening inst _ r => st.manager.instances.lookup inst = some r
  | .removing inst _ r => r < st.manager.recordCount ∧ st.recordOwner r = inst
  | .looking inst _ r => r < st.manager.recordCount ∧ st.recordOwner r = inst
  | .releasing inst p | .resolved inst p => p < st.manager.sessionCount ∧ st.sessionOwner p = inst
  | _ => True

/-- The session is in the table of an instance, or somebody is about to close it. -/
def Tracked (p : ℕ) : Prop :=
  (∃ inst r handle, st.manager.instances.lookup inst = some r ∧
    st.manager.find r handle = some p) ∨
  (∃ inst, .releasing inst p ∈ st.threads) ∨
  ∃ rs todo r handle, .sweeping rs todo ∈ st.threads ∧ (r, handle) ∈ todo ∧
    st.manager.find r handle = some p

structure Inv (st : Machine X) : Prop where
  tables : st.Tables
  holds : ∀ t ∈ st.threads, st.Holds t
  tracked : ∀ p < st.manager.sessionCount, st.manager.isClosed p = true ∨ st.Tracked p
  retired : ∀ inst, st.retired inst = true → (∀ t ∈ st.threads, t.opens ≠ some inst) ∧
    ∀ r, st.manager.instances.lookup inst = some r → ∀ handle, st.manager.find r handle = none

theorem Inv.orderly {st : Machine X} (h : st.Inv) : st.Orderly where
  handles inst r handle p _ hf :=
    ⟨(h.tables.entry r handle p hf).2.2.2, fun handle' hf' => (h.tables.unique _ _ _ _ p hf hf').2⟩
  bounded _ r _ := h.tables.size r
  isolated inst r handle p hr hf := by
    rw [(h.tables.entry r handle p hf).2.2.1]
    exact (h.tables.owned inst r hr).2
  resolved inst p hm := (h.holds _ hm).2
  released inst hretired hidle p hp howner := by
    refine (h.tracked p hp).resolve_right ?_
    rintro (⟨inst', r, handle, hr, hf⟩ | ⟨inst', hm⟩ | ⟨rs, todo, r, handle, hm, htodo, hf⟩)
    · have hinst : inst' = inst := by
        rw [← (h.tables.owned inst' r hr).2, ← (h.tables.entry r handle p hf).2.2.1, howner]
      rw [(h.retired inst hretired).2 r (hinst ▸ hr) handle] at hf
      cases hf
    · exact hidle _ hm ((h.holds _ hm).2.symm.trans howner)
    · exact hidle _ hm _ htodo ((h.tables.entry r handle p hf).2.2.1.symm.trans howner)

/-! ## Threads -/

section Threads

variable {threads : List Thread} {t : ℕ} {u v w : Thread}

theorem mem_set (h : w ∈ threads.set t v) : w ∈ threads ∨ w = v :=
  mem_or_eq_of_mem_set h

/-- The other threads are still there. -/
theorem mem_set_of_ne (hu : threads[t]? = some u) (h : w ∈ threads) (hne : w ≠ u) :
    w ∈ threads.set t v := by
  obtain ⟨i, hi, rfl⟩ := mem_iff_getElem.1 h
  have hit : t ≠ i := by
    rintro rfl
    rw [getElem?_eq_getElem hi] at hu
    exact hne (Option.some.inj hu)
  rw [← getElem_set_ne hit (by simpa using hi)]
  exact getElem_mem _

theorem mem_set_self (hu : threads[t]? = some u) : v ∈ threads.set t v := by
  obtain ⟨ht, -⟩ := List.getElem?_eq_some_iff.1 hu
  exact List.mem_set ht v

end Threads

variable {st} {st' : Machine X}

variable {inst r p : ℕ} {call : GuestCall} {handle : UInt32}

/-- Records and sessions stay, and keep their owners. -/
structure Extends (st st' : Machine X) : Prop where
  records : st.manager.recordCount ≤ st'.manager.recordCount
  sessions : st.manager.sessionCount ≤ st'.manager.sessionCount
  recordOwner : ∀ r < st.manager.recordCount, st'.recordOwner r = st.recordOwner r
  sessionOwner : ∀ p < st.manager.sessionCount, st'.sessionOwner p = st.sessionOwner p

/-- A thread holds what it has held, if a record into which it inserts is still in the table. -/
theorem Extends.holds {t : Thread} (h : Extends st st') (ht : st.Holds t)
    (hkept : ∀ inst r, t.opens = some inst → st.manager.instances.lookup inst = some r →
      st'.manager.instances.lookup inst = some r) : st'.Holds t := by
  cases t with
  | opening inst _ r => exact hkept inst r rfl ht
  | removing | looking => exact ⟨ht.1.trans_le h.records, (h.recordOwner _ ht.1).trans ht.2⟩
  | releasing | resolved => exact ⟨ht.1.trans_le h.sessions, (h.sessionOwner _ ht.1).trans ht.2⟩
  | _ => trivial

theorem Tracked.mono (h : st.Tracked p)
    (hlive : ∀ inst r, st.manager.instances.lookup inst = some r →
      st'.manager.instances.lookup inst = some r)
    (hfind : ∀ r handle, st.manager.find r handle = some p → st'.manager.find r handle = some p)
    (hrel : ∀ inst, .releasing inst p ∈ st.threads → .releasing inst p ∈ st'.threads)
    (hsweep : ∀ rs todo, .sweeping rs todo ∈ st.threads → .sweeping rs todo ∈ st'.threads) :
    st'.Tracked p := by
  rcases h with ⟨inst, r, handle, hr, hf⟩ | ⟨inst, hm⟩ | ⟨rs, todo, r, handle, hm, htodo, hf⟩
  · exact .inl ⟨inst, r, handle, hlive inst r hr, hfind r handle hf⟩
  · exact .inr (.inl ⟨inst, hrel inst hm⟩)
  · exact .inr (.inr ⟨rs, todo, r, handle, hsweep rs todo hm, htodo, hfind r handle hf⟩)

theorem inv_call (h : st.Inv) : (st.step (.call inst call)).Inv where
  tables := ⟨h.tables.owned, h.tables.entry, h.tables.unique, h.tables.size⟩
  holds t ht := by
    rcases mem_append.1 ht with ht | ht
    · have := h.holds t ht
      cases t <;> exact this
    · rw [mem_singleton.1 ht]
      trivial
  tracked p hp := (h.tracked p hp).imp_right fun htr => htr.mono (fun _ _ => id) (fun _ _ => id)
    (fun _ => mem_append_left _) fun _ _ => mem_append_left _
  retired i hi := by
    by_cases heq : i = inst
    · subst heq
      simp [step] at hi
    · have hi : st.retired i = true := by simpa [step, heq] using hi
      refine ⟨fun t ht => ?_, (h.retired i hi).2⟩
      rcases mem_append.1 ht with ht | ht
      · exact (h.retired i hi).1 t ht
      · rw [mem_singleton.1 ht]
        cases call <;> simp [Thread.opens, Ne.symm heq]

theorem mem_handles {m : Manager X} {rs : List ℕ} (hr : r ∈ rs) (hf : m.find r handle = some p) :
    (r, handle) ∈ handles m rs :=
  mem_flatMap.2 ⟨r, hr, mem_map.2 ⟨handle, Table.mem_keys_of_lookup hf, rfl⟩⟩

/-- A hook drops the records of the instances in `gone`, for which no session is being opened. -/
theorem inv_drop {retired : ℕ → Bool} (instances : AList fun _ : ℕ => ℕ) (rs : List ℕ)
    (gone : ℕ → Prop) (h : st.Inv)
    (hkept : ∀ i, ¬gone i → instances.lookup i = st.manager.instances.lookup i)
    (hgone : ∀ i, gone i → instances.lookup i = none)
    (hrs : ∀ i r, gone i → st.manager.instances.lookup i = some r → r ∈ rs)
    (hopens : ∀ t ∈ st.threads, ∀ i, t.opens = some i → ¬gone i)
    (hretired : ∀ i, retired i = true → gone i ∨ st.retired i = true) :
    Inv { st with
      manager := { st.manager with instances }
      threads := st.threads ++ [.sweeping rs (handles st.manager rs)]
      retired } := by
  have hlookup : ∀ i r, instances.lookup i = some r →
      ¬gone i ∧ st.manager.instances.lookup i = some r := fun i r hi => by
    by_cases hg : gone i
    · rw [hgone i hg] at hi
      cases hi
    · exact ⟨hg, hkept i hg ▸ hi⟩
  refine ⟨⟨fun i r hi => h.tables.owned i r (hlookup i r hi).2, h.tables.entry, h.tables.unique,
    h.tables.size⟩, fun t hmem => ?_, fun p hp => ?_,
    fun i hi => ⟨fun t hmem => ?_, fun r hlook handle => ?_⟩⟩
  · rcases mem_append.1 hmem with hmem | hmem
    · have hext : Extends st { st with
          manager := { st.manager with instances }
          threads := st.threads ++ [.sweeping rs (handles st.manager rs)]
          retired } := ⟨le_rfl, le_rfl, fun _ _ => rfl, fun _ _ => rfl⟩
      exact hext.holds (h.holds t hmem) fun i r ho hi => (hkept i (hopens t hmem i ho)).trans hi
    · rw [mem_singleton.1 hmem]
      trivial
  · refine (h.tracked p hp).imp_right ?_
    rintro (⟨i, r, handle, hi, hf⟩ | ⟨i, hmem⟩ | ⟨rs', todo, r, handle, hmem, hrest⟩)
    · by_cases hg : gone i
      · exact .inr (.inr ⟨rs, _, r, handle, mem_append_right _ (mem_singleton.2 rfl),
          mem_handles (hrs i r hg hi) hf, hf⟩)
      · exact .inl ⟨i, r, handle, (hkept i hg).trans hi, hf⟩
    · exact .inr (.inl ⟨i, mem_append_left _ hmem⟩)
    · exact .inr (.inr ⟨rs', todo, r, handle, mem_append_left _ hmem, hrest⟩)
  · rcases mem_append.1 hmem with hmem | hmem
    · intro ho
      exact (hretired i hi).elim (hopens t hmem i ho) fun hi => (h.retired i hi).1 t hmem ho
    · rw [mem_singleton.1 hmem]
      simp [Thread.opens]
  · obtain ⟨hg, hlook⟩ := hlookup i r hlook
    exact (h.retired i ((hretired i hi).resolve_left hg)).2 r hlook handle

theorem inv_closeInstance (h : st.Inv) (hok : st.Undisturbed (.closeInstance inst)) :
    (st.step (.closeInstance inst)).Inv := by
  refine inv_drop _ (st.manager.instances.lookup inst).toList (· = inst) h
    (fun i hi => AList.lookup_erase_ne hi) ?_ ?_ ?_ ?_
  · rintro i rfl
    exact AList.lookup_erase _ _
  · rintro i r rfl hr
    simp [hr]
  · rintro t ht i ho rfl
    exact hok t ht ho
  · intro i hi
    by_cases heq : i = inst
    · exact .inl heq
    · exact .inr (by simpa [step, heq] using hi)

theorem inv_closeAll (h : st.Inv) (hok : st.Undisturbed .closeAll) : (st.step .closeAll).Inv := by
  refine inv_drop ∅ (st.manager.instances.entries.map (·.2)) (fun _ => True) h
    (fun i hi => absurd trivial hi) (fun i _ => rfl) ?_ ?_ fun i _ => .inl trivial
  · intro i r _ hr
    exact mem_map.2 ⟨⟨i, r⟩, AList.mem_lookup_iff.1 hr, rfl⟩
  · intro t ht i ho
    rw [hok t ht] at ho
    cases ho

/-- A thread moves on, and the tables stay as they are. -/
theorem inv_thread {t : ℕ} {u v : Thread} (h : st.Inv) (hu : st.threads[t]? = some u)
    (hv : st.Holds v) (hopens : ∀ i, v.opens = some i → u.opens = some i)
    (hlost : ∀ p, st.Tracked p →
      st.manager.isClosed p = true ∨ Tracked { st with threads := st.threads.set t v } p) :
    Inv { st with threads := st.threads.set t v } := by
  have hmem : u ∈ st.threads := mem_of_getElem? hu
  refine ⟨⟨h.tables.owned, h.tables.entry, h.tables.unique, h.tables.size⟩, fun w hw => ?_,
    fun p hp => ?_, fun i hi => ⟨fun w hw => ?_, (h.retired i hi).2⟩⟩
  · rcases mem_set hw with hw | rfl
    · have := h.holds w hw
      cases w <;> exact this
    · cases w <;> exact hv
  · exact (h.tracked p hp).elim .inl (hlost p)
  · rcases mem_set hw with hw | rfl
    · exact (h.retired i hi).1 w hw
    · exact fun ho => (h.retired i hi).1 u hmem (hopens i ho)

/-- What a thread that is neither releasing nor sweeping leaves behind. -/
theorem tracked_set {t : ℕ} {u v : Thread} (hu : st.threads[t]? = some u)
    (hr : ∀ inst, .releasing inst p ≠ u) (hs : ∀ rs todo, .sweeping rs todo ≠ u)
    (h : st.Tracked p) : Tracked { st with threads := st.threads.set t v } p :=
  h.mono (fun _ _ => id) (fun _ _ => id) (fun inst hm => mem_set_of_ne hu hm (hr inst))
    fun rs todo hm => mem_set_of_ne hu hm (hs rs todo)

/-! ## `caller` -/

/-- The state after `caller`, before the thread moves on. -/
def called (st : Machine X) (inst : ℕ) : Machine X :=
  { st with
    manager := (st.manager.caller inst).1
    recordOwner :=
      if (st.manager.instances.lookup inst).isSome then st.recordOwner
      else Function.update st.recordOwner (st.manager.caller inst).2 inst }

theorem lookup_called (st : Machine X) (inst : ℕ) :
    (st.called inst).manager.instances.lookup inst = some (st.manager.caller inst).2 := by
  cases hl : st.manager.instances.lookup inst with
  | some r => simp [called, Manager.caller, hl]
  | none => simp [called, Manager.caller, hl]

theorem inv_called (h : st.Inv) : (st.called inst).Inv := by
  cases hl : st.manager.instances.lookup inst with
  | some r =>
    have heq : st.called inst = st := by simp [called, Manager.caller, hl]
    rw [heq]
    exact h
  | none =>
    have hm : (st.called inst).manager =
        { st.manager with
          instances := st.manager.instances.insert inst st.manager.recordCount
          records := Function.update st.manager.records st.manager.recordCount {}
          recordCount := st.manager.recordCount + 1 } := by
      simp [called, Manager.caller, hl]
    have hr : (st.called inst).recordOwner =
        Function.update st.recordOwner st.manager.recordCount inst := by
      simp [called, Manager.caller, hl]
    -- the new record is empty, and so was the place where it is
    have hempty : ∀ handle, st.manager.find st.manager.recordCount handle = none := fun handle => by
      by_contra hne
      obtain ⟨p, hp⟩ := Option.ne_none_iff_exists'.1 hne
      exact lt_irrefl _ (h.tables.entry _ _ _ hp).1
    have hfind : ∀ r handle,
        (st.called inst).manager.find r handle = st.manager.find r handle := fun r handle => by
      rw [hm]
      by_cases hrc : r = st.manager.recordCount
      · subst hrc
        rw [hempty]
        simp [Manager.find]
      · simp [Manager.find, hrc]
    have hext : Extends st (st.called inst) := by
      refine ⟨by rw [hm]; exact Nat.le_succ _, by rw [hm], fun r hlt => ?_, fun _ _ => rfl⟩
      rw [hr, Function.update_of_ne hlt.ne]
    have hkept : ∀ i r, st.manager.instances.lookup i = some r →
        (st.called inst).manager.instances.lookup i = some r := fun i r hi => by
      have hne : i ≠ inst := by
        rintro rfl
        rw [hl] at hi
        cases hi
      rw [hm]
      exact (AList.lookup_insert_ne hne).trans hi
    have hback : ∀ i r, (st.called inst).manager.instances.lookup i = some r →
        i = inst ∧ r = st.manager.recordCount ∨ st.manager.instances.lookup i = some r := by
      intro i r hi
      rw [hm] at hi
      by_cases hne : i = inst
      · subst hne
        exact .inl ⟨rfl, (Option.some.inj ((AList.lookup_insert _).symm.trans hi)).symm⟩
      · exact .inr ((AList.lookup_insert_ne hne).symm.trans hi)
    refine ⟨⟨fun i r hi => ?_, fun r handle p hf => ?_, fun r handle r' handle' p hf hf' => ?_,
      fun r => ?_⟩, fun t ht => hext.holds (h.holds t ht) fun i r _ => hkept i r, fun p hp => ?_,
      fun i hi => ⟨(h.retired i hi).1, fun r hi' handle => ?_⟩⟩
    · rcases hback i r hi with ⟨rfl, rfl⟩ | hi
      · exact ⟨by rw [hm]; exact Nat.lt_succ_self _, by rw [hr, Function.update_self]⟩
      · obtain ⟨hlt, ho⟩ := h.tables.owned i r hi
        exact ⟨hlt.trans_le hext.records, (hext.recordOwner r hlt).trans ho⟩
    · rw [hfind] at hf
      obtain ⟨hlt, hp, ho, hz⟩ := h.tables.entry r handle p hf
      exact ⟨hlt.trans_le hext.records, hp.trans_le hext.sessions,
        ho.trans (hext.recordOwner r hlt).symm, hz⟩
    · rw [hfind] at hf hf'
      exact h.tables.unique r handle r' handle' p hf hf'
    · rw [hm]
      by_cases hrc : r = st.manager.recordCount
      · subst hrc
        simp
      · simpa [hrc] using h.tables.size r
    · rw [hm] at hp
      have hclosed : (st.called inst).manager.isClosed p = st.manager.isClosed p := by rw [hm]; rfl
      rw [hclosed]
      exact (h.tracked p hp).imp_right fun htr => htr.mono hkept
        (fun r handle hf => (hfind r handle).trans hf) (fun _ => id) fun _ _ => id
    · rw [hfind]
      rcases hback i r hi' with ⟨-, rfl⟩ | hi'
      · exact hempty handle
      · exact (h.retired i hi).2 r hi' handle

theorem inv_enter {t : ℕ} {next : ℕ → Thread} (h : st.Inv)
    (hu : st.threads[t]? = some (.entered inst call))
    (hv : (st.called inst).Holds (next (st.manager.caller inst).2))
    (hopens : ∀ r i, (next r).opens = some i → (Thread.entered inst call).opens = some i) :
    (st.enter t inst next).Inv :=
  have htracked : ∀ p, (st.called inst).Tracked p → Tracked { st.called inst with
      threads := st.threads.set t (next (st.manager.caller inst).2) } p :=
    fun _ hp => tracked_set hu (by simp) (by simp) hp
  inv_thread (inv_called h) hu hv (hopens _) fun p hp => .inr (htracked p hp)

theorem owned_called (h : st.Inv) :
    (st.manager.caller inst).2 < (st.called inst).manager.recordCount ∧
      (st.called inst).recordOwner (st.manager.caller inst).2 = inst :=
  (inv_called h).tables.owned inst _ (lookup_called st inst)

/-! ## Insertion and removal -/

theorem inv_insert {t : ℕ} {role : Option Role} (h : st.Inv)
    (hu : st.threads[t]? = some (.opening inst role r)) : (st.advance t).Inv := by
  have hmem := mem_of_getElem? hu
  have hrecord : st.manager.instances.lookup inst = some r := h.holds _ hmem
  obtain ⟨hlt, howner⟩ := h.tables.owned inst r hrecord
  unfold advance
  rw [hu]
  simp only
  rcases st.manager.insert_cases r role with ⟨status, heq⟩ | ⟨handle, m, heq, hz, hfree, hm⟩
  · rw [heq]
    exact inv_thread h hu trivial nofun
      fun _ hp => .inr (tracked_set hu (by simp) (by simp) hp)
  rw [heq]
  simp only [Except.isOk, Except.toBool, if_true]
  have hnew : m.find r handle = some st.manager.sessionCount := by
    rw [hm.find, if_pos ⟨rfl, rfl⟩]
  have hold : ∀ r' handle' p, st.manager.find r' handle' = some p →
      m.find r' handle' = some p := by
    intro r' handle' p hf
    rw [hm.find, if_neg, hf]
    rintro ⟨rfl, rfl⟩
    rw [hfree] at hf
    cases hf
  have hback : ∀ r' handle' p, m.find r' handle' = some p →
      r' = r ∧ handle' = handle ∧ p = st.manager.sessionCount ∨
        st.manager.find r' handle' = some p := by
    intro r' handle' p hf
    rw [hm.find] at hf
    split at hf
    · next heq => exact .inl ⟨heq.1, heq.2, (Option.some.inj hf).symm⟩
    · exact .inr hf
  have hsession : ∀ p < st.manager.sessionCount,
      Function.update st.sessionOwner st.manager.sessionCount inst p = st.sessionOwner p :=
    fun p hp => Function.update_of_ne hp.ne _ _
  have hext : Extends st { st with
      manager := m
      sessionOwner := Function.update st.sessionOwner st.manager.sessionCount inst
      threads := st.threads.set t .done } :=
    ⟨hm.recordCount.ge, hm.sessionCount ▸ Nat.le_succ _, fun _ _ => rfl, hsession⟩
  refine ⟨⟨?_, fun r' handle' p hf => ?_, fun r₁ handle₁ r₂ handle₂ p hf₁ hf₂ => ?_,
    hm.size h.tables.size⟩, fun w hw => ?_, fun p hp => ?_, fun i hi => ⟨fun w hw => ?_, ?_⟩⟩
  · simpa only [hm.instances, hm.recordCount] using h.tables.owned
  · rcases hback r' handle' p hf with ⟨rfl, rfl, rfl⟩ | hf
    · exact ⟨hlt.trans_le hext.records, hm.sessionCount ▸ Nat.lt_succ_self _,
        (Function.update_self _ _ _).trans howner.symm, hz⟩
    · obtain ⟨h1, h2, h3, h4⟩ := h.tables.entry r' handle' p hf
      exact ⟨h1.trans_le hext.records, h2.trans_le hext.sessions, (hsession p h2).trans h3, h4⟩
  · have hbound := fun r' handle' (hf : st.manager.find r' handle' = some p) =>
      (h.tables.entry r' handle' p hf).2.1
    rcases hback r₁ handle₁ p hf₁ with ⟨rfl, rfl, rfl⟩ | hf₁
    · rcases hback r₂ handle₂ _ hf₂ with ⟨rfl, rfl, -⟩ | hf₂
      · exact ⟨rfl, rfl⟩
      · exact absurd (hbound _ _ hf₂) (lt_irrefl _)
    · rcases hback r₂ handle₂ p hf₂ with ⟨-, -, rfl⟩ | hf₂
      · exact absurd (hbound _ _ hf₁) (lt_irrefl _)
      · exact h.tables.unique r₁ handle₁ r₂ handle₂ p hf₁ hf₂
  · rcases mem_set hw with hw | rfl
    · exact hext.holds (h.holds w hw) fun i r' _ hi => hm.instances ▸ hi
    · trivial
  · by_cases hlast : p = st.manager.sessionCount
    · subst hlast
      exact .inr (.inl ⟨inst, r, handle, hm.instances ▸ hrecord, hnew⟩)
    have hp : p < st.manager.sessionCount := by
      rw [hm.sessionCount] at hp
      omega
    rw [hm.closed p hp]
    exact (h.tracked p hp).imp_right fun htr => htr.mono (fun _ _ hi => hm.instances ▸ hi)
      (fun r' handle' => hold r' handle' p) (fun _ hm => mem_set_of_ne hu hm (by simp))
      fun _ _ hm => mem_set_of_ne hu hm (by simp)
  · rcases mem_set hw with hw | rfl
    · exact (h.retired i hi).1 w hw
    · simp [Thread.opens]
  · intro r' hr' handle'
    rw [hm.instances] at hr'
    have hne : i ≠ inst := fun heq => (h.retired i hi).1 _ hmem (heq ▸ rfl)
    rw [hm.find, if_neg, (h.retired i hi).2 r' hr' handle']
    rintro ⟨rfl, -⟩
    exact hne ((h.tables.owned i r' hr').2.symm.trans howner)

theorem inv_remove {t : ℕ} (h : st.Inv) (hu : st.threads[t]? = some (.removing inst handle r)) :
    (st.advance t).Inv := by
  have hmem := mem_of_getElem? hu
  unfold advance
  rw [hu]
  simp only
  have hfind := st.manager.find_remove r handle
  have hsub : ∀ r' handle' p, (st.manager.remove r handle).1.find r' handle' = some p →
      st.manager.find r' handle' = some p := fun r' handle' p hf => by
    rw [hfind] at hf
    split at hf
    · cases hf
    · exact hf
  have hthread : ∀ w ∈ st.threads.set t (((st.manager.remove r handle).2).elim .done
      (Thread.releasing inst)), w ∈ st.threads ∨ w = .done ∨
        ∃ p, w = .releasing inst p ∧ st.manager.find r handle = some p := by
    intro w hw
    refine (mem_set hw).imp_right ?_
    rintro rfl
    cases hp : (st.manager.remove r handle).2 with
    | none => exact .inl rfl
    | some p => exact .inr ⟨p, rfl, hp⟩
  refine ⟨⟨h.tables.owned, fun r' handle' p hf => h.tables.entry _ _ _ (hsub _ _ _ hf),
    fun _ _ _ _ _ hf hf' => h.tables.unique _ _ _ _ _ (hsub _ _ _ hf) (hsub _ _ _ hf'),
    fun r' => ?_⟩, fun w hw => ?_, fun p hp => ?_, fun i hi => ⟨fun w hw => ?_, ?_⟩⟩
  · by_cases hr : r' = r
    · subst hr
      simpa [Manager.remove] using (Table.length_keys_erase_le _ handle).trans (h.tables.size r')
    · simpa [Manager.remove, hr] using h.tables.size r'
  · rcases hthread w hw with hw | rfl | ⟨p, rfl, hf⟩
    · have hold := h.holds w hw
      cases w <;> exact hold
    · trivial
    · obtain ⟨-, hp, howner, -⟩ := h.tables.entry r handle p hf
      exact ⟨hp, howner.trans (h.holds _ hmem).2⟩
  · -- what has been removed is about to be closed
    have hgone : ∀ r' handle', st.manager.find r' handle' = some p →
        (st.manager.remove r handle).1.find r' handle' = some p ∨
          Thread.releasing inst p ∈ st.threads.set t (((st.manager.remove r handle).2).elim .done
            (Thread.releasing inst)) := by
      intro r' handle' hf
      by_cases heq : r' = r ∧ handle' = handle
      · obtain ⟨rfl, rfl⟩ := heq
        have hfound : (st.manager.remove r' handle').2 = some p := hf
        rw [hfound]
        exact .inr (mem_set_self hu)
      · rw [hfind, if_neg heq]
        exact .inl hf
    refine (h.tracked p hp).imp_right ?_
    rintro (⟨i, r', handle', hi, hf⟩ | ⟨i, hm⟩ | ⟨rs, todo, r', handle', hm, htodo, hf⟩)
    · rcases hgone r' handle' hf with hf | hrel
      · exact .inl ⟨i, r', handle', hi, hf⟩
      · exact .inr (.inl ⟨inst, hrel⟩)
    · exact .inr (.inl ⟨i, mem_set_of_ne hu hm (by simp)⟩)
    · rcases hgone r' handle' hf with hf | hrel
      · exact .inr (.inr ⟨rs, todo, r', handle', mem_set_of_ne hu hm (by simp), htodo, hf⟩)
      · exact .inr (.inl ⟨inst, hrel⟩)
  · rcases hthread w hw with hw | rfl | ⟨p, rfl, -⟩
    · exact (h.retired i hi).1 w hw
    · simp [Thread.opens]
    · simp [Thread.opens]
  · intro r' hr' handle'
    rw [hfind]
    split
    · rfl
    · exact (h.retired i hi).2 r' hr' handle'

/-! ## Closing -/

/-- A thread closes a session. -/
theorem inv_close {t : ℕ} {v : Thread} (h : st.Inv) (hv : st.Holds v) (hopens : v.opens = none)
    (hlost : ∀ q, q ≠ p → st.Tracked q →
      Tracked { st with threads := st.threads.set t v } q) :
    Inv { st with manager := st.manager.closeSession p, threads := st.threads.set t v } := by
  obtain ⟨hrecords, hrc, hmax, hsc⟩ := st.manager.records_closeSession p
  refine ⟨⟨?_, ?_, ?_, ?_⟩, fun w hw => ?_, fun q hq => ?_, fun i hi => ⟨fun w hw => ?_, ?_⟩⟩
  · simpa [hrc] using h.tables.owned
  · simpa [hrc, hsc] using h.tables.entry
  · simpa using h.tables.unique
  · simpa [hrecords, hmax] using h.tables.size
  · have hold : st.Holds w := (mem_set hw).elim (h.holds w) fun heq => heq ▸ hv
    cases w with
    | opening | removing | releasing | looking | resolved => simpa [Holds, hrc, hsc] using hold
    | _ => trivial
  · simp only [hsc] at hq
    rw [Manager.isClosed_closeSession]
    by_cases hqp : q = p
    · simp [hqp]
    · rcases h.tracked q hq with hclosed | htr
      · simp [hclosed]
      · refine .inr ?_
        rcases hlost q hqp htr with hlive | hrel | hsweep
        · exact .inl (by simpa using hlive)
        · exact .inr (.inl hrel)
        · exact .inr (.inr (by simpa using hsweep))
  · rcases mem_set hw with hw | rfl
    · exact (h.retired i hi).1 w hw
    · simp [hopens]
  · simpa using (h.retired i hi).2

theorem inv_visit {t : ℕ} (h : st.Inv) : (st.visit t r handle).Inv := by
  unfold visit
  split
  · next rs todo p hu hf =>
    split
    · refine inv_close h trivial rfl fun q hq htr => ?_
      rcases htr with hlive | ⟨i, hm⟩ | ⟨rs', todo', r', handle', hm, htodo, hf'⟩
      · exact .inl hlive
      · exact .inr (.inl ⟨i, mem_set_of_ne hu hm (by simp)⟩)
      · by_cases heq : Thread.sweeping rs' todo' = .sweeping rs todo
        · cases heq
          refine .inr (.inr ⟨rs, _, r', handle', mem_set_self hu, mem_filter.2 ⟨htodo, ?_⟩,
            hf'⟩)
          simp only [ne_eq, decide_not, Bool.not_eq_true', decide_eq_false_iff_not]
          rintro ⟨⟩
          exact hq (Option.some.inj (hf'.symm.trans hf))
        · exact .inr (.inr ⟨rs', todo', r', handle', mem_set_of_ne hu hm heq, htodo, hf'⟩)
    · exact h
  · exact h

theorem inv_advance {t : ℕ} (h : st.Inv) : (st.advance t).Inv := by
  cases hu : st.threads[t]? with
  | none =>
    unfold advance
    rw [hu]
    exact h
  | some u =>
    have hmem := mem_of_getElem? hu
    cases u with
    | entered inst call =>
      have hlook := lookup_called st inst
      cases call with
      | «open» role fits =>
        have heq : st.advance t = st.enter t inst fun r =>
            if fits then .opening inst role r else .done := by simp [advance, hu]
        rw [heq]
        cases fits with
        | true => exact inv_enter h hu hlook fun _ _ ho => ho
        | false => exact inv_enter h hu trivial nofun
      | close handle =>
        have heq : st.advance t = st.enter t inst (.removing inst handle) := by simp [advance, hu]
        rw [heq]
        exact inv_enter h hu (owned_called h) nofun
      | lookup handle =>
        have heq : st.advance t = st.enter t inst (.looking inst handle) := by simp [advance, hu]
        rw [heq]
        exact inv_enter h hu (owned_called h) nofun
    | opening => exact inv_insert h hu
    | removing => exact inv_remove h hu
    | releasing inst p =>
      have heq : st.advance t =
          { st with manager := st.manager.closeSession p, threads := st.threads.set t .done } := by
        simp [advance, hu]
      rw [heq]
      refine inv_close h trivial rfl fun q hq htr => tracked_set hu ?_ (by simp) htr
      rintro i ⟨⟩
      exact hq rfl
    | looking inst handle r =>
      have heq : st.advance t =
          { st with
            threads := st.threads.set t
              ((st.manager.find r handle).elim .done (.resolved inst)) } := by
        simp [advance, hu]
      rw [heq]
      have hr : r < st.manager.recordCount ∧ st.recordOwner r = inst := h.holds _ hmem
      have htr : ∀ v p, st.Tracked p → st.manager.isClosed p = true ∨
          Tracked { st with threads := st.threads.set t v } p :=
        fun v p hp => .inr (tracked_set hu (by simp) (by simp) hp)
      cases hf : st.manager.find r handle with
      | none => exact inv_thread h hu trivial nofun (htr _)
      | some p =>
        obtain ⟨-, hp, howner, -⟩ := h.tables.entry r handle p hf
        exact inv_thread h hu ⟨hp, howner.trans hr.2⟩ nofun (htr _)
    | sweeping rs todo =>
      unfold advance
      rw [hu]
      simp only
      split
      · exact h
      next hdone =>
      refine inv_thread h hu trivial nofun fun p hp => .inr ?_
      rcases hp with hlive | ⟨i, hm⟩ | ⟨rs', todo', r', handle', hm, htodo, hf⟩
      · exact .inl hlive
      · exact .inr (.inl ⟨i, mem_set_of_ne hu hm (by simp)⟩)
      · refine .inr (.inr ⟨rs', todo', r', handle', mem_set_of_ne hu hm ?_, htodo, hf⟩)
        rintro ⟨⟩
        exact hdone (any_eq_true.2 ⟨(r', handle'), htodo, by simp [hf]⟩)
    | resolved | done =>
      unfold advance
      rw [hu]
      exact h

/-- **What one step keeps.** -/
theorem inv_step {a : Step} (h : st.Inv) (hok : st.Undisturbed a) : (st.step a).Inv := by
  cases a with
  | call => exact inv_call h
  | closeInstance => exact inv_closeInstance h hok
  | closeAll => exact inv_closeAll h hok
  | advance => exact inv_advance h
  | visit => exact inv_visit h

end Machine

/-- The manager before the first call. -/
def start (X : Externals) (limits : SessionLimits) (maxSessions : UInt32) : Machine X :=
  { manager := newABIManager X limits maxSessions }

namespace Machine

variable {X : Externals}

theorem inv_start (limits : SessionLimits) (maxSessions : UInt32) :
    (start X limits maxSessions).Inv where
  tables := ⟨nofun, nofun, nofun, fun _ => Nat.zero_le _⟩
  holds := nofun
  tracked := nofun
  retired := nofun

/-- **The sessions of the guests live in order and are all released**, in every interleaving of
calls and hooks in which no hook drops the record of an instance while one of its sessions is being
opened. -/
theorem orderly_run {limits : SessionLimits} {maxSessions : UInt32} {steps : List Step}
    (h : Guarded step Undisturbed (start X limits maxSessions) steps) :
    (steps.foldl step (start X limits maxSessions)).Orderly :=
  (h.invariant (fun _ _ hI hok => inv_step hI hok) (inv_start limits maxSessions)).orderly

/-- An instance opens two sessions and closes one; then the instance is closed. -/
def twoSessions : List Step :=
  [.call 7 (.open (some .client) true), .advance 0, .advance 0,
    .call 7 (.open (some .server) true), .advance 1, .advance 1,
    .call 7 (.close 1), .advance 2, .advance 2, .advance 2,
    .closeInstance 7, .visit 3 0 2, .advance 3]

theorem orderly_twoSessions :
    ((twoSessions.foldl step (start SmallHpack.externals {} 0)).retired 7 = true ∧
      (twoSessions.foldl step (start SmallHpack.externals {} 0)).manager.sessionCount = 2) ∧
        (twoSessions.foldl step (start SmallHpack.externals {} 0)).Orderly :=
  ⟨by decide +kernel, orderly_run (by decide +kernel)⟩

/-- The instance is closed between the two sections of `session_open`. -/
def closedWhileOpening : List Step :=
  [.call 7 (.open (some .client) true), .advance 0, .closeInstance 7, .advance 1, .advance 0]

/-- **A session is lost**: it is inserted into a record that has been dropped, nothing is in flight,
and the session is open. -/
theorem lost_session :
    ¬(closedWhileOpening.foldl step (start SmallHpack.externals {} 0)).Orderly := by
  intro h
  have hidle : (closedWhileOpening.foldl step (start SmallHpack.externals {} 0)).Idle 7 := by
    unfold Idle
    decide +kernel
  have hclosed := h.released 7 (by decide +kernel) hidle 0 (by decide +kernel) (by decide +kernel)
  exact absurd hclosed (by decide +kernel)

end Machine

end WagoHttp.Http2.Abi
