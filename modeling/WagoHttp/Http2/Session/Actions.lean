import WagoHttp.Foundations.Runs
import WagoHttp.Http2.Session.Calls

/-!
# The actions of a session

An operation on a session is a call of its owner or the reception of octets. The reception of
octets is a sequence of smaller steps: the octets of the preface, the callbacks of the frame parser,
and the errors of the parser. An `Action` is such a step or a call, and `opActions` lists the
actions of an operation, in the state that finds it.
-/

namespace WagoHttp.Http2

open Runs List

/-- An operation on a session. -/
inductive Op
  | call (call : Call)
  | feed (src : Bytes)

/-- One step of an operation. -/
inductive Action
  | call (call : Call)
  /-- The next octet of the client preface. -/
  | preface
  /-- A callback of the frame parser. -/
  | deliver (call : Callback)
  /-- The frame parser returns. -/
  | parsed (parser : Parser)
  | fail (code : ErrorCode) (reason : String)

namespace Session

variable {X : Externals}

def act (s : Session X) : Action → Session X
  | .call call => s.call call
  | .preface => { s with prefacePos := s.prefacePos + 1 }
  | .deliver call => s.deliver call
  | .parsed parser => { s with parser }
  | .fail code reason => s.connectionError code reason

/-- The session after an operation. -/
def op (s : Session X) : Op → Session X
  | .call call => s.call call
  | .feed src => (s.feed src).session

/-- The session after a sequence of operations. -/
def run (s : Session X) (ops : List Op) : Session X := ops.foldl op s

/-! ## The actions of an operation -/

def prefaceActions (s : Session X) : Bytes → List Action
  | [] => []
  | b :: src =>
    if s.prefacePos < clientPreface.length then
      if some b ≠ clientPreface[s.prefacePos]? then
        [.fail .protocol "invalid client connection preface"]
      else .preface :: { s with prefacePos := s.prefacePos + 1 }.prefaceActions src
    else []

/-- The actions of one call of the parser. -/
def parseActions (r : Parser.Parsed) : List Action :=
  r.calls.map .deliver ++ .parsed r.parser ::
    if r.code ≠ .none then [.fail (frameCodeToError r.code) r.code.string] else []

def frameActions (s : Session X) (src : Bytes) : List Action :=
  if src = [] then []
  else
    let r := s.parser.parseOne src
    let s := s.afterParse r
    if r.code ≠ .none ∨ s.failed ≠ none then parseActions r
    else if _hn : r.n = 0 then parseActions r
    else parseActions r ++ s.frameActions (src.drop r.n)
termination_by src.length
decreasing_by
  have := length_pos_iff.2 ‹¬src = []›
  have hn : (Parser.parseOne _ _).n ≠ 0 := _hn
  rw [length_drop]
  omega

def feedActions (s : Session X) (src : Bytes) : List Action :=
  if s.closed || s.failed.isSome then []
  else if s.role = .server ∧ s.prefacePos < clientPreface.length then
    let r := s.matchPreface src
    s.prefaceActions src ++
      if r.err ≠ none ∨ r.n = src.length ∨ r.session.prefacePos < clientPreface.length then []
      else r.session.frameActions (src.drop r.n)
  else s.frameActions src

def opActions (s : Session X) : Op → List Action
  | .call call => [.call call]
  | .feed src => s.feedActions src

/-- The entries that an operation adds to the history. -/
def added (s : Session X) (o : Op) : List Obs := (s.op o).history.drop s.history.length

theorem foldl_deliver (s : Session X) (calls : List Callback) :
    (calls.map Action.deliver).foldl act s = s.deliverAll calls := by
  rw [foldl_map]
  rfl

theorem matchPreface_session (s : Session X) (src : Bytes) :
    (s.matchPreface src).session = (s.prefaceActions src).foldl act s := by
  induction src generalizing s with
  | nil => rfl
  | cons b src ih =>
    unfold matchPreface prefaceActions
    split_ifs
    · rfl
    · exact ih _
    · rfl

theorem foldl_parseActions (s : Session X) (r : Parser.Parsed) :
    (parseActions r).foldl act s =
      if r.code ≠ .none then
        (s.afterParse r).connectionError (frameCodeToError r.code) r.code.string
      else s.afterParse r := by
  rw [parseActions, foldl_append, foldl_deliver]
  split_ifs <;> rfl

theorem feedFrames_session (s : Session X) (src : Bytes) :
    (s.feedFrames src).session = (s.frameActions src).foldl act s := by
  induction hl : src.length using Nat.strong_induction_on generalizing s src with
  | _ l ih =>
    rw [feedFrames, frameActions]
    split
    · rfl
    · next hs =>
      have hlen := length_pos_iff.2 hs
      have hfold := foldl_parseActions s (s.parser.parseOne src)
      by_cases hc : (s.parser.parseOne src).code = .none
      · simp only [hc, ne_eq, not_true_eq_false, if_false, false_or] at hfold ⊢
        by_cases hf : (s.afterParse (s.parser.parseOne src)).failed = none
        · simp only [hf, not_true_eq_false, if_false]
          split_ifs with hn
          · exact hfold.symm
          · rw [foldl_append, hfold]
            exact ih _ (by rw [length_drop]; omega) _ _ rfl
        · simp only [hf, not_false_eq_true, if_true]
          exact hfold.symm
      · simp only [hc, ne_eq, not_false_eq_true, if_true, true_or] at hfold ⊢
        exact hfold.symm

variable {a : Action} {s : Session X} {src : Bytes}

theorem mem_parseActions {r : Parser.Parsed} (h : a ∈ parseActions r) :
    a ≠ .preface ∧ ∀ call, a ≠ .call call := by
  unfold parseActions at h
  constructor
  · rintro rfl
    split_ifs at h <;> simp at h
  · rintro call rfl
    split_ifs at h <;> simp at h

theorem mem_frameActions (h : a ∈ s.frameActions src) : a ≠ .preface ∧ ∀ call, a ≠ .call call := by
  induction hl : src.length using Nat.strong_induction_on generalizing s src with
  | _ l ih =>
    rw [frameActions] at h
    split at h
    · simp at h
    next hs =>
    have hlen := length_pos_iff.2 hs
    simp only at h
    split at h
    · exact mem_parseActions h
    split at h
    · exact mem_parseActions h
    · rcases mem_append.1 h with h | h
      · exact mem_parseActions h
      · exact ih _ (by rw [← hl, length_drop]; omega) h rfl

theorem mem_prefaceActions (h : a ∈ s.prefaceActions src) : ∀ call, a ≠ .call call := by
  induction src generalizing s with
  | nil => simp [prefaceActions] at h
  | cons b src ih =>
    unfold prefaceActions at h
    split_ifs at h
    · rw [mem_singleton.1 h]
      exact fun _ h => nomatch h
    · rcases mem_cons.1 h with rfl | h
      · exact fun _ h => nomatch h
      · exact ih h
    · simp at h

/-- The reception of octets makes no calls. -/
theorem mem_feedActions (h : a ∈ s.feedActions src) : ∀ call, a ≠ .call call := by
  unfold feedActions at h
  split at h
  · simp at h
  split at h
  · rcases mem_append.1 h with h | h
    · exact mem_prefaceActions h
    · split at h
      · simp at h
      · exact (mem_frameActions h).2
  · exact (mem_frameActions h).2

/-- **An operation is the run of its actions.** -/
theorem expands_opActions : Expands (act (X := X)) op opActions := by
  rintro s (call | src)
  · rfl
  · simp only [op, opActions, feed, feedActions]
    by_cases hclosed : s.closed
    · simp [hclosed]
    · by_cases hfailed : s.failed = none
      · simp only [hclosed, hfailed, Bool.false_eq_true, if_false, ne_eq, not_true_eq_false,
          Option.isSome_none, Bool.or_false]
        by_cases hpre : s.role = .server ∧ s.prefacePos < clientPreface.length
        · rw [if_pos hpre, if_pos hpre, foldl_append, ← matchPreface_session]
          by_cases herr : (s.matchPreface src).err = none
          · simp only [herr, not_true_eq_false, if_false, false_or]
            split_ifs
            · rfl
            · exact feedFrames_session _ _
          · simp only [herr, not_false_eq_true, if_true, true_or, foldl_nil]
        · rw [if_neg hpre, if_neg hpre]
          exact feedFrames_session s src
      · have hsome : s.failed.isSome := Option.isSome_iff_ne_none.2 hfailed
        simp [hclosed, hfailed, hsome]

end Session

end WagoHttp.Http2
