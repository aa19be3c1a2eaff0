import WagoHttp.Http2.Session.Run

/-!
# Two sessions

A client and a server joined by reliable channels of octets. The owner of a session writes octets of
the output to the channel and then consumes them, so `ConsumeOutput` is where octets leave a
session; the octets arrive in order and in pieces of any size. The run of a pair is a run of each
session (`run_sessions`).
-/

namespace WagoHttp.Http2

open Runs

/-- The other side of a connection. -/
def Role.peer : Role → Role
  | .client => .server
  | .server => .client

/-- Two sessions and the octets on the way to each of them. -/
structure Pair (X : Externals) where
  sessions : Role → Session X
  channels : Role → Bytes := fun _ => []

/-- A call of the owner of one side, or the arrival of at most `n` octets at one side. -/
inductive PairOp
  | call (side : Role) (call : Call)
  | deliver (side : Role) (n : ℕ)

namespace Pair

variable {X : Externals}

/-- The octets that leave a session with a call. -/
def transmitted (s : Session X) : Call → Bytes
  | .consumeOutput n => if n > s.output.length then [] else s.output.take n
  | _ => []

/-- Arrival at a side: it is fed octets of its channel, and those it consumes leave the channel. -/
def arrive (p : Pair X) (side : Role) (n : ℕ) : Session.Fed X :=
  (p.sessions side).feed ((p.channels side).take n)

def step (p : Pair X) : PairOp → Pair X
  | .call side call =>
    { sessions := Function.update p.sessions side ((p.sessions side).call call)
      channels := Function.update p.channels side.peer
        (p.channels side.peer ++ transmitted (p.sessions side) call) }
  | .deliver side n =>
    { sessions := Function.update p.sessions side (p.arrive side n).session
      channels := Function.update p.channels side ((p.channels side).drop (p.arrive side n).n) }

def run (p : Pair X) (ops : List PairOp) : Pair X := ops.foldl step p

/-- A new pair. -/
def create (X : Externals) (client server : SessionLimits) : Except SessionError (Pair X) :=
  match newSession X .client client, newSession X .server server with
  | .ok c, .ok s => .ok { sessions := fun | .client => c | .server => s }
  | .error err, _ => .error err
  | _, .error err => .error err

/-! ## The run of one side -/

/-- What an operation of the pair is for a side. -/
def sideOp (p : Pair X) (side : Role) : PairOp → Option Op
  | .call r call => if r = side then some (.call call) else none
  | .deliver r n => if r = side then some (.feed ((p.channels side).take n)) else none

/-- The operations of a side in a run of the pair. -/
def sideOps (p : Pair X) (side : Role) : List PairOp → List Op
  | [] => []
  | o :: ops => (p.sideOp side o).toList ++ (p.step o).sideOps side ops

theorem step_sessions (p : Pair X) (side : Role) (o : PairOp) :
    (p.step o).sessions side = (p.sessions side).run (p.sideOp side o).toList := by
  cases o with
  | call r call =>
    by_cases hr : r = side
    · subst hr
      simp [step, sideOp, Session.run, Session.op]
    · simp [step, sideOp, Session.run, hr, Function.update_of_ne (Ne.symm hr)]
  | deliver r n =>
    by_cases hr : r = side
    · subst hr
      simp [step, sideOp, Session.run, Session.op, arrive]
    · simp [step, sideOp, Session.run, hr, Function.update_of_ne (Ne.symm hr)]

/-- **A run of the pair is a run of each side.** -/
theorem run_sessions (p : Pair X) (side : Role) (ops : List PairOp) :
    (p.run ops).sessions side = (p.sessions side).run (p.sideOps side ops) := by
  induction ops generalizing p with
  | nil => rfl
  | cons o ops ih =>
    have h := ih (p.step o)
    rw [step_sessions, Session.run, Session.run, ← List.foldl_append] at h
    exact h

theorem newSession_of_create {client server : SessionLimits} {p : Pair X}
    (h : create X client server = .ok p) (side : Role) :
    ∃ limits, newSession X side limits = .ok (p.sessions side) := by
  unfold create at h
  split at h
  · next c s hc hs =>
    cases h
    cases side with
    | client => exact ⟨client, hc⟩
    | server => exact ⟨server, hs⟩
  · cases h
  · cases h

/-- A pair that a computation finds. -/
theorem exists_create {c s : SessionLimits} {q : Pair X → Prop} [DecidablePred q]
    (h : ((create X c s).toOption.any fun p => decide (q p)) = true) :
    ∃ p, create X c s = .ok p ∧ q p := by
  obtain ⟨p, hp, hq⟩ := Option.any_eq_true .. |>.1 h
  refine ⟨p, ?_, of_decide_eq_true hq⟩
  generalize create X c s = x at hp
  cases x with
  | error => cases hp
  | ok => cases hp; rfl

end Pair

end WagoHttp.Http2
