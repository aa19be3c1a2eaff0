import WagoHttp.Http2.Decoding

/-!
# Fragmentation

Feeding a byte string whole, feeding it in pieces, and taking it frame by frame from `parseOne` are
three ways to read the same frames. Each of them passes the frames that a decoder finds which cuts
the string at its frame boundaries, and stops where the first frame is wrong.
-/

namespace WagoHttp.Http2

open List

/-! ## Merging fragments -/

namespace Callback

/-- Two fragments of the same kind make one. -/
def join : Callback → Callback → Option Callback
  | .data id bytes endStream, .data id' bytes' endStream' =>
    if id = id' ∧ endStream = endStream' then some (.data id (bytes ++ bytes') endStream) else none
  | .headerBlock id fragment, .headerBlock id' fragment' =>
    if id = id' then some (.headerBlock id (fragment ++ fragment')) else none
  | .goAwayDebug fragment, .goAwayDebug fragment' => some (.goAwayDebug (fragment ++ fragment'))
  | .unknown header fragment, .unknown header' fragment' =>
    if header = header' then some (.unknown header (fragment ++ fragment')) else none
  | _, _ => none

/-- A callback before callbacks that are merged already. -/
def mergeOnto (call : Callback) : List Callback → List Callback
  | [] => [call]
  | next :: calls =>
    match call.join next with
    | some joined => joined :: calls
    | none => call :: next :: calls

/-- The callbacks that `mk` makes of fragments join with each other and with nothing else. -/
structure Spans (mk : Bytes → Callback) : Prop where
  join : ∀ fragment fragment', (mk fragment).join (mk fragment') = some (mk (fragment ++ fragment'))
  other : ∀ call, (∃ fragment, call = mk fragment) ∨ ∀ fragment, (mk fragment).join call = none

variable {mk : Bytes → Callback}

theorem Spans.mergeOnto (h : Spans mk) (fragment fragment' : Bytes) (calls : List Callback) :
    (mk fragment).mergeOnto ((mk fragment').mergeOnto calls) =
      (mk (fragment ++ fragment')).mergeOnto calls := by
  cases calls with
  | nil => simp only [Callback.mergeOnto, h.join]
  | cons call calls =>
    rcases h.other call with ⟨fragment'', rfl⟩ | hnone
    · simp only [Callback.mergeOnto, h.join, append_assoc]
    · simp only [Callback.mergeOnto, h.join, hnone]

theorem Spans.octets (h : Spans mk) {fragment : Bytes} (hne : fragment ≠ [])
    (calls : List Callback) :
    (fragment.map fun b => mk [b]).foldr Callback.mergeOnto calls =
      (mk fragment).mergeOnto calls := by
  induction fragment with
  | nil => exact absurd rfl hne
  | cons b fragment ih =>
    by_cases hlast : fragment = []
    · subst hlast
      rfl
    · rw [map_cons, foldr_cons, ih hlast, h.mergeOnto]
      rfl

theorem spans_data (id : ℕ) (endStream : Bool) : Spans fun bytes => .data id bytes endStream := by
  refine ⟨fun _ _ => by simp [Callback.join], fun call => ?_⟩
  cases call with
  | data id' bytes endStream' =>
    by_cases hsame : id = id' ∧ endStream = endStream'
    · obtain ⟨rfl, rfl⟩ := hsame
      exact .inl ⟨bytes, rfl⟩
    · exact .inr fun _ => if_neg hsame
  | _ => exact .inr fun _ => rfl

theorem spans_headerBlock (id : ℕ) : Spans (.headerBlock id) := by
  refine ⟨fun _ _ => by simp [Callback.join], fun call => ?_⟩
  cases call with
  | headerBlock id' fragment =>
    by_cases hsame : id = id'
    · subst hsame
      exact .inl ⟨fragment, rfl⟩
    · exact .inr fun _ => if_neg hsame
  | _ => exact .inr fun _ => rfl

theorem spans_goAwayDebug : Spans .goAwayDebug := by
  refine ⟨fun _ _ => rfl, fun call => ?_⟩
  cases call with
  | goAwayDebug fragment => exact .inl ⟨fragment, rfl⟩
  | _ => exact .inr fun _ => rfl

theorem spans_unknown (header : FrameHeader) : Spans (.unknown header) := by
  refine ⟨fun _ _ => by simp [Callback.join], fun call => ?_⟩
  cases call with
  | unknown header' fragment =>
    by_cases hsame : header = header'
    · subst hsame
      exact .inl ⟨fragment, rfl⟩
    · exact .inr fun _ => if_neg hsame
  | _ => exact .inr fun _ => rfl

/-- A callback is merged as its octets are, unless its fragment is empty. -/
theorem foldr_octets {call : Callback} (h : call.octets ≠ []) (calls : List Callback) :
    call.octets.foldr mergeOnto calls = call.mergeOnto calls := by
  cases call with
  | data id bytes endStream => exact (spans_data id endStream).octets (by simpa [octets] using h) _
  | headerBlock id fragment => exact (spans_headerBlock id).octets (by simpa [octets] using h) _
  | goAwayDebug fragment => exact spans_goAwayDebug.octets (by simpa [octets] using h) _
  | unknown header fragment => exact (spans_unknown header).octets (by simpa [octets] using h) _
  | _ => rfl

end Callback

/-- Callbacks with adjacent fragments of the same kind merged. -/
def mergeCalls (calls : List Callback) : List Callback := calls.foldr Callback.mergeOnto []

/-- No fragment is empty. -/
def Solid (calls : List Callback) : Prop := ∀ call ∈ calls, call.octets ≠ []

theorem solid_nil : Solid [] := fun _ h => absurd h not_mem_nil

theorem solid_append {calls calls' : List Callback} (h : Solid calls) (h' : Solid calls') :
    Solid (calls ++ calls') := fun call hcall => (mem_append.1 hcall).elim (h call) (h' call)

theorem solid_singleton {call : Callback} (h : call.octets ≠ []) : Solid [call] :=
  forall_mem_singleton.2 h

/-- Callbacks with the same octets are the same once they are merged. -/
theorem mergeCalls_octetCalls {calls : List Callback} (h : Solid calls) :
    mergeCalls (octetCalls calls) = mergeCalls calls := by
  induction calls with
  | nil => rfl
  | cons call calls ih =>
    obtain ⟨hcall, hcalls⟩ := forall_mem_cons.1 h
    have hrest : octetCalls (call :: calls) = call.octets ++ octetCalls calls := rfl
    rw [mergeCalls, hrest, foldr_append]
    change call.octets.foldr Callback.mergeOnto (mergeCalls (octetCalls calls)) = _
    rw [ih hcalls, Callback.foldr_octets hcall]
    rfl

namespace Parser

variable {c p : Parser} {acc src : Bytes}

/-! ## No fragment is empty -/

theorem Payload.Stays.solid {r : Payload} {block : Option ℕ} (h : r.Stays p block) :
    Solid r.calls := fun c hc => (h.inner c hc).2.2

theorem solid_parsePushPromiseFixed (ht : p.current.type = .pushPromise) (src : Bytes) :
    Solid (p.parsePushPromiseFixed src).calls := by
  have hcontent {q : Parser} (hq : q.current = p.current) (src : Bytes) :
      Solid (q.parseHeaderContentAndPadding src).calls :=
    (stays_parseHeaderContentAndPadding (.inr (.inl (hq ▸ ht)))).solid
  unfold parsePushPromiseFixed
  split
  · simp only
    split
    · exact solid_nil
    · split
      · exact solid_nil
      · exact solid_append (solid_singleton (cons_ne_nil _ _))
          (hcontent (q := (p.copyFixed src).1.beginContent) rfl _)
  · exact hcontent rfl src

theorem solid_parsePushPromise (ht : p.current.type = .pushPromise) (src : Bytes) :
    Solid (p.parsePushPromise src).calls := by
  unfold parsePushPromise
  split
  · have hs := sameFrame_readPadding p src 4
    generalize p.readPadding src 4 = r at hs
    obtain ⟨q, n, ok⟩ := r
    simp only
    split
    · exact solid_nil
    · exact solid_append solid_nil
        (solid_parsePushPromiseFixed (p := { q with fixedNeed := 4, state := .fixed })
          ((congrArg FrameHeader.type hs.current).trans ht) _)
  · exact solid_parsePushPromiseFixed ht src

theorem solid_payloadStep (hs : src ≠ []) (hlt : p.payloadN < p.current.length) :
    Solid (p.payloadStep src).calls := by
  by_cases ht : p.current.type = .pushPromise
  · rw [payloadStep_pushPromise ht]
    exact solid_parsePushPromise ht src
  · exact (stays_payloadStep hs hlt ht).solid

theorem solid_parsePayloadLoop (fuel : ℕ) (p : Parser) (src : Bytes) :
    Solid (parsePayloadLoop fuel p src).calls := by
  induction fuel generalizing p src with
  | zero => exact solid_nil
  | succ fuel ih =>
    unfold parsePayloadLoop
    split
    · next hgo =>
      have hstep := solid_payloadStep hgo.1 hgo.2
      simp only
      split
      · exact hstep
      · exact solid_append hstep (ih _ _)
    · exact solid_nil

/-- The callbacks of a pass. -/
def Pass.calls : Pass → List Callback
  | .next _ _ calls => calls
  | .ret _ _ _ calls => calls

variable {n m : ℕ} {fs fs' : List Bytes} {rest rest' : Bytes} {code : Code}

theorem Pass.solid_after {pass : Pass} {calls : List Callback} (h : Solid calls)
    (h' : Solid pass.calls) : Solid (pass.after n calls).calls := by
  cases pass <;> exact solid_append h h'

theorem solid_finishFrame (p : Parser) : Solid p.finishFrame.calls := by
  have hcalls {calls : List Callback} (h : p.finishCalls = .ok calls) : Solid calls := by
    simp only [finishCalls] at h
    split_ifs at h <;> cases h
    all_goals first | exact solid_nil | exact solid_singleton (by simp [Callback.octets])
  have hblock : Solid p.finishBlock.2 := by
    unfold finishBlock
    simp only
    split_ifs
    all_goals first | exact solid_nil | exact solid_singleton (by simp [Callback.octets])
  have hend : Solid [.frameComplete p.current] := solid_singleton (by simp [Callback.octets])
  unfold finishFrame
  cases hf : p.finishCalls with
  | error code => exact solid_nil
  | ok calls =>
    simp only
    split <;> exact solid_append (solid_append (hcalls hf) hblock) hend

theorem solid_finishPass (p : Parser) : Solid p.finishPass.calls := by
  unfold finishPass
  simp only
  split <;> exact solid_finishFrame p

theorem solid_pass (p : Parser) (src : Bytes) : Solid (p.pass src).calls := by
  have hpayload (p : Parser) (src : Bytes) : Solid (p.payloadPass src).calls := by
    have hcalls := solid_parsePayloadLoop (src.length + 1) p src
    unfold payloadPass
    simp only
    split
    · exact hcalls
    · split
      · exact hcalls
      · split
        · exact hcalls
        · exact Pass.solid_after hcalls (solid_finishPass _)
  have hbegin (p : Parser) : Solid p.beginFrame.calls := by
    unfold beginFrame checkFrame acceptFrame
    simp only
    split_ifs
    all_goals first | exact solid_nil | exact solid_singleton (by simp [Callback.octets])
  unfold pass
  split
  · refine Pass.solid_after solid_nil ?_
    unfold headerPass
    simp only
    split
    · exact solid_nil
    · split
      · exact hbegin _
      · split
        · exact Pass.solid_after (hbegin _) (solid_finishPass _)
        · exact Pass.solid_after (hbegin _) (hpayload _ _)
  · exact hpayload p src

theorem solid_runLoop (p : Parser) (src : Bytes) : Solid (p.runLoop src).calls := by
  induction hm : 2 * src.length + p.inPayload using Nat.strong_induction_on generalizing p src with
  | _ m ih =>
    have hpass := solid_pass p src
    rw [runLoop]
    split_ifs with hs hpaused
    · exact solid_nil
    · exact solid_nil
    · split
      · next heq =>
        rw [heq] at hpass
        exact hpass
      · next heq =>
        rw [heq] at hpass
        exact solid_append hpass (ih _ (hm ▸ pass_next_lt hs heq) _ _ rfl)

theorem solid_runParse (p : Parser) (src : Bytes) (pauseAfterFrame : Bool) :
    Solid (p.runParse src pauseAfterFrame).calls := by
  unfold runParse
  split
  · exact solid_nil
  · exact solid_runLoop _ _

/-! ## The pause flags -/

/-- The parser with its pause flags cleared. -/
def rested (p : Parser) : Parser := { p with pauseAfterFrame := false, paused := false }

/-- A parser between two frames that no flag pauses. -/
structure Calm (c : Parser) : Prop where
  idle : Idle c
  rested : c.rested = c

theorem Calm.flags (h : Calm c) : c.pauseAfterFrame = false ∧ c.paused = false := by
  rw [← h.rested]
  exact ⟨rfl, rfl⟩

theorem after_flags (c : Parser) (acc : Bytes) :
    (c.after acc).code = c.code ∧ (c.after acc).pauseAfterFrame = c.pauseAfterFrame ∧
      (c.after acc).paused = c.paused := by
  unfold after
  split <;> exact ⟨rfl, rfl, rfl⟩

theorem rested_eq_self (h : p.pauseAfterFrame = false) (h' : p.paused = false) : p.rested = p := by
  cases p
  subst h h'
  rfl

theorem rested_after (c : Parser) (acc : Bytes) : (c.after acc).rested = c.rested.after acc := by
  unfold after
  split <;> rfl

theorem Calm.completed (h : Calm c) (hw : Whole acc) (hv : c.verdict acc = .none) :
    Calm (c.completed acc).parser := by
  have hdone := completes h.idle hw hv
  exact ⟨hdone.idle, rested_eq_self (hdone.pauseAfterFrame.trans h.flags.1)
    (hdone.paused.trans h.flags.1)⟩

theorem Calm.passed (h : Calm c) (ha : c.Accepts fs) : Calm (c.passed fs) := by
  induction fs generalizing c with
  | nil => exact h
  | cons f fs ih => exact ih (h.completed ha.1 ha.2.1) ha.2.2

/-! ## Readings -/

/-- The call that returned `r` for `src`, after the octets `acc` of an unfinished frame, has read
the frames `fs` and stands in the octets `rest` after them, or it has stopped there. -/
structure Parsed.Reads (r : Parsed) (c : Parser) (acc src : Bytes) (fs : List Bytes)
    (rest : Bytes) : Prop where
  accepts : c.Accepts fs
  octets : acc ++ src = fs.flatten ++ rest
  goes : r.code = .none → r.n = src.length ∧ Stands (c.passed fs) rest ∧
    r.parser.rested = (c.passed fs).after rest ∧
    callsSoFar acc ++ octetCalls r.calls = c.passedCalls fs ++ callsSoFar rest
  stops : r.code ≠ .none → r.parser.code = r.code ∧
    ∃ m, fs.flatten.length + m = acc.length + r.n ∧ Stops (c.passed fs) rest m r.code

/-- Two calls in a row. -/
def Parsed.followedBy (r r' : Parsed) : Parsed :=
  { r' with n := r.n + r'.n, calls := r.calls ++ r'.calls }

variable {r r' : Parsed}

theorem Parsed.Reads.followedBy {src' : Bytes} (h : r.Reads c acc src fs rest)
    (hcode : r.code = .none) (h' : r'.Reads (c.passed fs) rest src' fs' rest') :
    (r.followedBy r').Reads c acc (src ++ src') (fs ++ fs') rest' := by
  obtain ⟨hn, -, -, hcalls⟩ := h.goes hcode
  refine ⟨accepts_append h.accepts h'.accepts, ?_, fun hc => ?_, fun hne => ?_⟩
  · rw [← append_assoc, h.octets, append_assoc, h'.octets, flatten_append,
      append_assoc]
  · obtain ⟨hn', hstands, hparser, hcalls'⟩ := h'.goes hc
    refine ⟨?_, ?_, ?_, ?_⟩
    · change r.n + r'.n = _
      rw [hn, hn', length_append]
    · rwa [passed_append]
    · rwa [passed_append]
    · change callsSoFar acc ++ octetCalls (r.calls ++ r'.calls) = _
      rw [octetCalls_append, ← append_assoc, hcalls, append_assoc, hcalls',
        passedCalls_append, append_assoc]
  · obtain ⟨hfailed, m, hm, hstops⟩ := h'.stops hne
    refine ⟨hfailed, m, ?_, ?_⟩
    · have hlen := congrArg length h.octets
      rw [length_append, length_append] at hlen
      change _ = acc.length + (r.n + r'.n)
      rw [flatten_append, length_append]
      omega
    · rwa [passed_append]

/-- More octets than a failed call has read. -/
theorem Parsed.Reads.append (hc : Idle c) (h : r.Reads c acc src fs rest) (hne : r.code ≠ .none)
    (x : Bytes) (hno : c.headerBlockBytes + (acc ++ src ++ x).length < 2 ^ 64) :
    r.Reads c acc (src ++ x) fs (rest ++ x) := by
  obtain ⟨hfailed, m, hm, hstops⟩ := h.stops hne
  obtain ⟨hidle, hblock⟩ := h.accepts.idle hc
  refine ⟨h.accepts, ?_, fun hcode => absurd hcode hne, fun _ => ⟨hfailed, m, hm, ?_⟩⟩
  · rw [← append_assoc, h.octets, append_assoc]
  · refine hstops.append hidle x ?_
    rw [h.octets, append_assoc, length_append] at hno
    omega

/-! ## One call of `parse` -/

/-- Nothing of the next frame has come. -/
theorem stands_nil (c : Parser) : Stands c [] := ⟨if_pos (by decide), fun h => by simp at h⟩

/-- A call that has read nothing. -/
theorem reads_nothing (hp : p.rested = c.after acc) (h : Stands c acc) :
    ({ parser := p } : Parsed).Reads c acc [] [] acc :=
  ⟨trivial, append_nil acc, fun _ => ⟨rfl, h, hp, append_nil _⟩,
    fun hne => absurd rfl hne⟩

/-- A call that returns from the loop inside a frame. -/
theorem reads_ret {q : Parser} {calls : List Callback} (hc : Calm c)
    (h : Pass.Reads c acc src (.ret q n code calls)) :
    ({ parser := q, n, code, calls } : Parsed).Reads c acc src [] (acc ++ src) := by
  refine ⟨trivial, rfl, fun hcode => ?_, fun hne => ?_⟩
  · obtain ⟨hn, hstands, hparser, hcalls⟩ := h.1 hcode
    refine ⟨hn, hstands, ?_, hcalls⟩
    change q.rested = c.after (acc ++ src)
    rw [hparser, rested_after, hc.rested]
  · obtain ⟨hstops, hfailed, -⟩ := h.2 hne
    exact ⟨hfailed, acc.length + n, Nat.zero_add _, hstops⟩

/-- A frame that a pass has read. -/
theorem reads_next {q : Parser} {calls : List Callback} (hc : Calm c)
    (h : Pass.Reads c acc src (.next q n calls)) :
    ({ parser := q, n, calls } : Parsed).Reads c acc (src.take n) [acc ++ src.take n] [] := by
  obtain ⟨hn, hw, hv, hq, hcalls⟩ := h
  have hcalm := hc.completed hw hv
  refine ⟨⟨hw, hv, trivial⟩, ?_, fun _ => ⟨?_, stands_nil _, ?_, ?_⟩, fun hne => absurd rfl hne⟩
  · simp
  · rw [length_take, Nat.min_eq_left hn]
  · change q.rested = (c.completed (acc ++ src.take n)).parser.after []
    rw [after_nil hcalm.idle, hq, hcalm.rested]
  · rw [hcalls]
    simp [passedCalls, callsSoFar]

theorem runLoop_reads (hc : Calm c) (hno : c.headerBlockBytes + (acc ++ src).length < 2 ^ 64)
    (h : Stands c acc) : ∃ fs rest, ((c.after acc).runLoop src).Reads c acc src fs rest := by
  -- By induction on the input left, as the loop runs.
  induction hm : 2 * src.length + (c.after acc).inPayload using Nat.strong_induction_on
    generalizing c acc src with
  | _ m ih =>
    have hpass := pass_reads hc.idle hno h
    have hrested : (c.after acc).rested = c.after acc := by rw [rested_after, hc.rested]
    have hpaused : (c.after acc).paused = false := by
      rw [← hrested]
      rfl
    rw [runLoop]
    split_ifs with hs hp
    · subst hs
      exact ⟨[], acc, reads_nothing hrested h⟩
    · exact absurd (hp.symm.trans hpaused) (by decide)
    · split
      · next q n code calls heq =>
        rw [heq] at hpass
        exact ⟨[], acc ++ src, reads_ret hc hpass⟩
      · next q n calls heq =>
        rw [heq] at hpass
        have hstep := reads_next hc hpass
        obtain ⟨hn, hw, hv, hq, -⟩ := hpass
        have hcalm := hc.completed hw hv
        have hdone := (completes hc.idle hw hv).block
        rw [length_append, length_take] at hdone
        have hqafter : q = (c.completed (acc ++ src.take n)).parser.after [] := by
          rw [after_nil hcalm.idle, hq]
        have hlt := pass_next_lt hs heq
        rw [hqafter, hm] at hlt
        obtain ⟨fs, rest, hrest⟩ := ih _ hlt hcalm (by
          rw [nil_append, length_drop]
          rw [length_append] at hno
          omega) (stands_nil _) rfl
        rw [← hqafter] at hrest
        have hboth := hstep.followedBy rfl hrest
        rw [take_append_drop] at hboth
        exact ⟨_, _, hboth⟩

/-- **One call of `parse`** reads whole frames and the beginning of another. -/
theorem parse_reads (hc : Calm c) (hp : p.rested = c.after acc)
    (hno : c.headerBlockBytes + (acc ++ src).length < 2 ^ 64) (h : Stands c acc) :
    ∃ fs rest, (p.parse src).Reads c acc src fs rest := by
  have hcode : p.code = .none := by
    have := congrArg code hp
    rw [(after_flags c acc).1, hc.idle.code] at this
    exact this
  obtain ⟨fs, rest, hreads⟩ := runLoop_reads hc hno h
  refine ⟨fs, rest, ?_⟩
  unfold parse runParse
  rw [if_neg (not_not.2 hcode)]
  change Parsed.Reads { p.rested.runLoop src with
    parser := { (p.rested.runLoop src).parser with pauseAfterFrame := false } } c acc src fs rest
  rw [hp]
  exact ⟨hreads.accepts, hreads.octets, hreads.goes, hreads.stops⟩

/-! ## One call of `parseOne` -/

/-- The parser that is to pause after a frame. -/
def pausing (p : Parser) : Parser := { p with pauseAfterFrame := true }

theorem finishFrame_pausing (p : Parser) :
    p.pausing.finishFrame.code = p.finishFrame.code ∧
      p.pausing.finishFrame.calls = p.finishFrame.calls ∧
      p.pausing.finishFrame.parser.rested = p.finishFrame.parser.rested := by
  have hcalls : p.pausing.finishCalls = p.finishCalls := rfl
  have hblock : p.pausing.finishBlock = (p.finishBlock.1.pausing, p.finishBlock.2) := by
    unfold finishBlock pausing
    simp only
    split_ifs <;> rfl
  unfold finishFrame
  rw [hcalls, hblock]
  cases p.finishCalls with
  | error code => by_cases hp : p.code = .none <;> simp [fail, pausing, rested, hp]
  | ok calls => by_cases hq : p.finishBlock.1.code = .none <;> simp [pausing, rested, hq]

theorem completed_pausing (c : Parser) (frame : Bytes) :
    (c.pausing.completed frame).code = (c.completed frame).code ∧
      (c.pausing.completed frame).calls = (c.completed frame).calls ∧
      (c.pausing.completed frame).parser.rested = (c.completed frame).parser.rested :=
  finishFrame_pausing ((c.begun frame).within (frame.drop 9))

theorem verdict_pausing (c : Parser) (acc : Bytes) : c.pausing.verdict acc = c.verdict acc := by
  rw [verdict, (completed_pausing c acc).1]
  rfl

theorem Stands.of_pausing (h : Stands c.pausing acc) : Stands c acc :=
  ⟨(verdict_pausing c acc).symm.trans h.verdict, h.open_⟩

theorem Stops.of_pausing (h : Stops c.pausing acc m code) : Stops c acc m code := by
  obtain ⟨hne, hverdict, hfirst⟩ := h
  simp only [verdict_pausing] at hverdict hfirst
  exact ⟨hne, hverdict, hfirst⟩

/-- **One call of `parseOne`** reads one frame and pauses, or it reads the beginning of a frame. -/
theorem parseOne_reads (hc : Calm c) (hp : p.rested = c.after acc) (hs : src ≠ [])
    (hno : c.headerBlockBytes + (acc ++ src).length < 2 ^ 64) (h : Stands c acc) :
    (p.parseOne src).parser.paused = true ∧ (p.parseOne src).code = .none ∧
        0 < (p.parseOne src).n ∧ (p.parseOne src).n ≤ src.length ∧
        (p.parseOne src).Reads c acc (src.take (p.parseOne src).n)
          [acc ++ src.take (p.parseOne src).n] [] ∨
      (p.parseOne src).parser.paused = false ∧
        (p.parseOne src).Reads c acc src [] (acc ++ src) := by
  have hcode : p.code = .none := by
    have := congrArg code hp
    rw [(after_flags c acc).1, hc.idle.code] at this
    exact this
  have hidle : Idle c.pausing := ⟨hc.idle.code, hc.idle.header, hc.idle.block⟩
  have hstands : Stands c.pausing acc := ⟨(verdict_pausing c acc).trans h.verdict, h.open_⟩
  have hpass : ((c.pausing.after acc).pass src).Reads c.pausing acc src :=
    pass_reads hidle hno hstands
  have hstart : { p with pauseAfterFrame := true, paused := false } = c.pausing.after acc := by
    have hset : p.rested.pausing = (c.after acc).pausing := congrArg pausing hp
    refine hset.trans ?_
    unfold after
    split <;> rfl
  have hpaused : (c.pausing.after acc).paused = false := by
    rw [← hstart]
  have hrun : p.parseOne src = { (c.pausing.after acc).runLoop src with
      parser := { ((c.pausing.after acc).runLoop src).parser with pauseAfterFrame := false } } := by
    unfold parseOne runParse
    rw [if_neg (not_not.2 hcode), hstart]
  rw [hrun, runLoop, dif_neg hs, hpaused, if_neg (by decide)]
  split
  · next q n code calls heq =>
    rw [heq] at hpass
    right
    have hflags := after_flags c.pausing (acc ++ src)
    refine ⟨?_, trivial, rfl, fun hnone => ?_, fun hne => ?_⟩
    · change q.paused = false
      by_cases hnone : code = .none
      · rw [(hpass.1 hnone).2.2.1, hflags.2.2]
        exact hc.flags.2
      · rw [(hpass.2 hnone).2.2]
        exact hc.flags.2
    · obtain ⟨hn, hopen, hq, hcalls⟩ := hpass.1 hnone
      refine ⟨hn, hopen.of_pausing, ?_, hcalls⟩
      change q.rested = c.after (acc ++ src)
      rw [hq, rested_after]
      exact congrArg (after · _) hc.rested
    · obtain ⟨hstops, hfailed, -⟩ := hpass.2 hne
      exact ⟨hfailed, acc.length + n, Nat.zero_add _, hstops.of_pausing⟩
  · next q n calls heq =>
    rw [heq] at hpass
    left
    obtain ⟨hn, hw, hv, hq, hcalls⟩ := hpass
    obtain ⟨hdcode, hdcalls, hdparser⟩ := completed_pausing c (acc ++ src.take n)
    have hqpaused : q.paused = true := by
      rw [hq]
      exact (completes hidle hw hv).paused
    have hloop : q.runLoop (src.drop n) = { parser := q } := by
      rw [runLoop, if_pos hqpaused, dite_eq_ite, ite_self]
    rw [verdict_pausing] at hv
    rw [hdcalls] at hcalls
    have hcalm := hc.completed hw hv
    simp only [hloop, Nat.add_zero, append_nil]
    have hpos : 0 < n := by
      by_contra hzero
      obtain hzero : n = 0 := by omega
      rw [hzero, take_zero, append_nil] at hw
      exact absurd (h.open_ hw.header) (not_lt.2 hw.length.ge)
    refine ⟨hqpaused, trivial, hpos, hn, ⟨hw, hv, trivial⟩, ?_, fun _ => ⟨?_, stands_nil _, ?_, ?_⟩,
      fun hne => absurd rfl hne⟩
    · simp
    · rw [length_take, Nat.min_eq_left hn]
    · change q.rested = (c.completed (acc ++ src.take n)).parser.after []
      rw [after_nil hcalm.idle, hq, hdparser, hcalm.rested]
    · rw [hcalls]
      simp [passedCalls, callsSoFar]

/-- `parseOne` says that a frame is complete if and only if it has come to a frame boundary. -/
theorem paused_iff (hc : Calm c) (hp : p.rested = c.after acc)
    (hno : c.headerBlockBytes + (acc ++ src).length < 2 ^ 64) (h : Stands c acc) :
    (p.parseOne src).parser.paused = true ↔ (p.parseOne src).code = .none ∧
      0 < (p.parseOne src).n ∧ (p.parseOne src).parser.header = [] := by
  by_cases hs : src = []
  · have hcode : p.code = .none := by
      have := congrArg code hp
      rw [(after_flags c acc).1, hc.idle.code] at this
      exact this
    rw [hs, parseOne, runParse, if_neg (not_not.2 hcode), runLoop, dif_pos rfl]
    simp
  rcases parseOne_reads hc hp hs hno h with ⟨hpaused, hcode, hpos, -, hreads⟩ | ⟨hpaused, hreads⟩
  · refine iff_of_true hpaused ⟨hcode, hpos, ?_⟩
    obtain ⟨-, -, hparser, -⟩ := hreads.goes hcode
    have hheader := congrArg header hparser
    rw [after_nil (hc.passed hreads.accepts).idle, (hc.passed hreads.accepts).idle.header] at hheader
    exact hheader
  · rw [hpaused]
    refine iff_of_false (by decide) ?_
    rintro ⟨hcode, -, hheader⟩
    obtain ⟨-, -, hparser, -⟩ := hreads.goes hcode
    have hnil : (c.after (acc ++ src)).header = [] := (congrArg header hparser).symm.trans hheader
    unfold after at hnil
    split at hnil
    · exact hs (append_eq_nil_iff.1 hnil).2
    · next hlen =>
      have hzero := congrArg length hnil
      rw [show (((c.begun (acc ++ src)).within _).header) = (acc ++ src).take 9 from rfl,
        length_take, length_nil] at hzero
      omega

/-! ## Three ways to read a byte string -/

/-- Feed pieces to `parse` one after another. -/
def parseAll : Parser → List Bytes → Parsed
  | p, [] => { parser := p, code := p.code }
  | p, piece :: pieces => (p.parse piece).followedBy ((p.parse piece).parser.parseAll pieces)

/-- Call `parseOne` on what the call before has left, until nothing is left or the parser fails.
The recursion is on a bound of the calls. -/
def parseFrames : ℕ → Parser → Bytes → Parsed
  | 0, p, _ => { parser := p }
  | fuel + 1, p, src =>
    if src = [] then { parser := p }
    else if (p.parseOne src).code ≠ .none then p.parseOne src
    else (p.parseOne src).followedBy
      (parseFrames fuel (p.parseOne src).parser (src.drop (p.parseOne src).n))

/-- A failed parser takes nothing. -/
theorem parseAll_failed (hp : p.code ≠ .none) (pieces : List Bytes) :
    p.parseAll pieces = { parser := p, code := p.code } := by
  have hparse (piece : Bytes) : p.parse piece = { parser := p, code := p.code } := by
    rw [parse, runParse, if_pos hp]
  induction pieces with
  | nil => rfl
  | cons piece pieces ih => simp only [parseAll, hparse, ih, Parsed.followedBy, Nat.add_zero,
      append_nil]

theorem parseAll_reads (pieces : List Bytes) (hc : Calm c) (hp : p.rested = c.after acc)
    (hno : c.headerBlockBytes + (acc ++ pieces.flatten).length < 2 ^ 64) (h : Stands c acc) :
    ∃ fs rest, (p.parseAll pieces).Reads c acc pieces.flatten fs rest := by
  induction pieces generalizing c p acc with
  | nil =>
    have hcode : p.code = .none := by
      have := congrArg code hp
      rw [(after_flags c acc).1, hc.idle.code] at this
      exact this
    refine ⟨[], acc, ?_⟩
    rw [parseAll, hcode]
    exact reads_nothing hp h
  | cons piece pieces ih =>
    rw [flatten_cons, ← append_assoc] at hno
    rw [flatten_cons]
    have hpiece : c.headerBlockBytes + (acc ++ piece).length < 2 ^ 64 := by
      rw [length_append] at hno
      omega
    obtain ⟨fs, rest, hreads⟩ := parse_reads hc hp hpiece h
    rw [parseAll]
    by_cases hcode : (p.parse piece).code = .none
    · obtain ⟨hn, hopen, hparser, -⟩ := hreads.goes hcode
      have hblock := (hreads.accepts.idle hc.idle).2
      obtain ⟨fs', rest', hreads'⟩ := ih (hc.passed hreads.accepts) hparser (by
        rw [hreads.octets, append_assoc, length_append] at hno
        omega) hopen
      exact ⟨_, _, hreads.followedBy hcode hreads'⟩
    · have hfailed := (hreads.stops hcode).1
      have hall := hreads.append hc.idle hcode pieces.flatten hno
      have hself : (p.parse piece).followedBy ⟨(p.parse piece).parser, 0,
          (p.parse piece).parser.code, []⟩ = p.parse piece := by
        rw [hfailed]
        simp only [Parsed.followedBy, Nat.add_zero, append_nil]
      rw [parseAll_failed (by rwa [hfailed]), hself]
      exact ⟨_, _, hall⟩

theorem parseFrames_reads (fuel : ℕ) (hfuel : src.length ≤ fuel) (hc : Calm c)
    (hp : p.rested = c.after acc) (hno : c.headerBlockBytes + (acc ++ src).length < 2 ^ 64)
    (h : Stands c acc) : ∃ fs rest, (parseFrames fuel p src).Reads c acc src fs rest := by
  induction fuel generalizing c p acc src with
  | zero =>
    obtain rfl : src = [] := eq_nil_of_length_eq_zero (Nat.le_zero.1 hfuel)
    exact ⟨[], acc, reads_nothing hp h⟩
  | succ fuel ih =>
    rw [parseFrames]
    split
    · next hs =>
      subst hs
      exact ⟨[], acc, reads_nothing hp h⟩
    next hs =>
    rcases parseOne_reads hc hp hs hno h with ⟨-, hcode, hpos, hn, hreads⟩ | ⟨-, hreads⟩
    · rw [if_neg (not_not.2 hcode)]
      obtain ⟨-, hopen, hparser, -⟩ := hreads.goes hcode
      have hblock := (hreads.accepts.idle hc.idle).2
      rw [flatten_singleton, length_append, length_take] at hblock
      have hless : (src.drop (p.parseOne src).n).length ≤ fuel := by
        rw [length_drop]
        omega
      obtain ⟨fs, rest, hrest⟩ := ih hless (hc.passed hreads.accepts) hparser (by
          rw [nil_append, length_drop]
          rw [length_append] at hno
          omega) hopen
      have hboth := hreads.followedBy hcode hrest
      rw [take_append_drop] at hboth
      exact ⟨_, _, hboth⟩
    · split
      · exact ⟨_, _, hreads⟩
      · next hcode =>
        rw [not_not] at hcode
        obtain ⟨hn, hopen, hparser, -⟩ := hreads.goes hcode
        rw [hn, drop_length]
        have hrest : parseFrames fuel (p.parseOne src).parser [] =
            { parser := (p.parseOne src).parser } := by
          cases fuel <;> rfl
        have hboth := hreads.followedBy hcode (hrest ▸ reads_nothing hparser hopen)
        rw [append_nil] at hboth
        exact ⟨_, _, hboth⟩

theorem solid_parseAll (p : Parser) (pieces : List Bytes) : Solid (p.parseAll pieces).calls := by
  induction pieces generalizing p with
  | nil => exact solid_nil
  | cons piece pieces ih => exact solid_append (solid_runParse p piece false) (ih _)

theorem solid_parseFrames (fuel : ℕ) (p : Parser) (src : Bytes) :
    Solid (parseFrames fuel p src).calls := by
  induction fuel generalizing p src with
  | zero => exact solid_nil
  | succ fuel ih =>
    have hone : Solid (p.parseOne src).calls := solid_runParse p src true
    rw [parseFrames]
    split_ifs
    · exact solid_nil
    · exact hone
    · exact solid_append hone (ih _ _)

theorem calm_newParser (limits : Limits) : Calm (newParser limits) :=
  ⟨⟨rfl, rfl, Nat.zero_le _⟩, rfl⟩

theorem Stands.not_stops (h : Stands c rest) (h' : Stops c rest m code) : False := by
  have hpart : framePart rest = rest := by
    unfold framePart
    split
    · rfl
    · next hlen => exact take_of_length_le (h.open_ (not_lt.1 hlen)).le
  have hverdict := h'.verdict
  rw [hpart, h.verdict] at hverdict
  exact h'.ne hverdict.symm

/-- The parser stops at one place only. -/
theorem Stops.unique {m' : ℕ} (h : Stops c rest m code) (h' : Stops c rest m' code)
    (hother : code ≠ .headerBlockTooLarge) : m = m' := by
  obtain ⟨-, hat, hbefore⟩ := h.first hother
  obtain ⟨-, hat', hbefore'⟩ := h'.first hother
  rcases Nat.lt_trichotomy m m' with hlt | heq | hlt
  · exact absurd (hbefore' m hlt) hat
  · exact heq
  · exact absurd (hbefore m' hlt) hat'

theorem Parsed.Reads.ends (h : r.Reads c acc src fs rest) : Ends (c.passed fs) rest := by
  by_cases hcode : r.code = .none
  · exact (h.goes hcode).2.1.ends
  · obtain ⟨-, m, -, hstops⟩ := h.stops hcode
    exact hstops.ends

/-- **Two readings of the same octets agree.** -/
theorem Parsed.Reads.agree (h : r.Reads c acc src fs rest) (h' : r'.Reads c acc src fs' rest') :
    r'.code = r.code ∧ (r.code ≠ .headerBlockTooLarge → r'.n = r.n) ∧
      (r.code = .none → r'.parser.rested = r.parser.rested ∧
        octetCalls r'.calls = octetCalls r.calls) := by
  obtain ⟨rfl, rfl⟩ := frames_unique h.accepts h'.accepts h.ends h'.ends
    (h.octets.symm.trans h'.octets)
  by_cases hcode : r.code = .none
  · obtain ⟨hn, hstands, hparser, hcalls⟩ := h.goes hcode
    have hcode' : r'.code = .none := by
      by_contra hne
      obtain ⟨-, m, -, hstops⟩ := h'.stops hne
      exact hstands.not_stops hstops
    obtain ⟨hn', -, hparser', hcalls'⟩ := h'.goes hcode'
    refine ⟨hcode'.trans hcode.symm, fun _ => hn'.trans hn.symm, fun _ =>
      ⟨hparser'.trans hparser.symm, ?_⟩⟩
    exact append_cancel_left (hcalls'.trans hcalls.symm)
  · obtain ⟨-, m, hm, hstops⟩ := h.stops hcode
    have hcode' : r'.code ≠ .none := fun hnone => (h'.goes hnone).2.1.not_stops hstops
    obtain ⟨-, m', hm', hstops'⟩ := h'.stops hcode'
    have hsame : r'.code = r.code := hstops'.verdict.symm.trans hstops.verdict
    refine ⟨hsame, fun hother => ?_, fun hnone => absurd hnone hcode⟩
    rw [hsame] at hstops'
    obtain rfl := hstops.unique hstops' hother
    omega

/-- **Contiguous, fragmented and frame by frame are the same.** The pieces of a byte string (no
longer than a slice can be), fed one after another, the whole string, and its frames one by one
lead to the same code; to the same number of consumed octets unless a header block is too long; and,
if nothing fails, to the same parser, pause flags aside, and to the same callbacks, adjacent
fragments merged. Afterwards `parseOne` says that a frame is complete if and only if it stops,
without a failure, between two frames with an octet consumed. -/
theorem parse_fragmentation (limits : Limits) (pieces : List Bytes)
    (hlen : pieces.flatten.length < 2 ^ 63) :
    let whole := (newParser limits).parse pieces.flatten
    let cut := (newParser limits).parseAll pieces
    let framed := parseFrames pieces.flatten.length (newParser limits) pieces.flatten
    (cut.code = whole.code ∧ framed.code = whole.code) ∧
      (whole.code ≠ .headerBlockTooLarge → cut.n = whole.n ∧ framed.n = whole.n) ∧
      (whole.code = .none →
        (cut.parser.rested = whole.parser.rested ∧ framed.parser.rested = whole.parser.rested) ∧
        (mergeCalls cut.calls = mergeCalls whole.calls ∧
          mergeCalls framed.calls = mergeCalls whole.calls) ∧
        ∀ p ∈ [whole.parser, cut.parser, framed.parser], ∀ src : Bytes,
          pieces.flatten.length + src.length < 2 ^ 63 →
          ((p.parseOne src).parser.paused = true ↔
            (p.parseOne src).code = .none ∧ 0 < (p.parseOne src).n ∧
              (p.parseOne src).parser.header = [])) := by
  intro whole cut framed
  have hc := calm_newParser limits
  have hstart : (newParser limits).rested = (newParser limits).after [] :=
    hc.rested.trans (after_nil hc.idle).symm
  have hno : (newParser limits).headerBlockBytes + ([] ++ pieces.flatten).length < 2 ^ 64 := by
    change 0 + pieces.flatten.length < _
    omega
  obtain ⟨fs, rest, hwhole⟩ := parse_reads hc hstart hno (stands_nil _)
  obtain ⟨fs', rest', hcut⟩ := parseAll_reads pieces hc hstart hno (stands_nil _)
  obtain ⟨fs'', rest'', hframed⟩ := parseFrames_reads _ le_rfl hc hstart hno (stands_nil _)
  obtain ⟨hcode, hn, hsame⟩ := hwhole.agree hcut
  obtain ⟨hcode', hn', hsame'⟩ := hwhole.agree hframed
  refine ⟨⟨hcode, hcode'⟩, fun hother => ⟨hn hother, hn' hother⟩, fun hnone => ?_⟩
  obtain ⟨hparser, hcalls⟩ := hsame hnone
  obtain ⟨hparser', hcalls'⟩ := hsame' hnone
  have hsolid' : Solid whole.calls := solid_runParse _ _ _
  have hmerge {calls : List Callback} (hsolid : Solid calls)
      (heq : octetCalls calls = octetCalls whole.calls) :
      mergeCalls calls = mergeCalls whole.calls := by
    rw [← mergeCalls_octetCalls hsolid, heq, mergeCalls_octetCalls hsolid']
  refine ⟨⟨hparser, hparser'⟩, ⟨hmerge (solid_parseAll _ _) hcalls,
    hmerge (solid_parseFrames _ _ _) hcalls'⟩, fun p hp src hsrc => ?_⟩
  obtain ⟨-, hstands, hlast, -⟩ := hwhole.goes hnone
  have hrested : p.rested = ((newParser limits).passed fs).after rest := by
    simp only [mem_cons, not_mem_nil, or_false] at hp
    rcases hp with rfl | rfl | rfl
    · exact hlast
    · exact hparser.trans hlast
    · exact hparser'.trans hlast
  refine paused_iff (hc.passed hwhole.accepts) hrested ?_ hstands
  have hblock := (hwhole.accepts.idle hc.idle).2
  have hoctets := congrArg length hwhole.octets
  rw [nil_append, length_append] at hoctets
  change _ ≤ 0 + _ at hblock
  rw [length_append]
  omega

/-- A PING frame cut in its header and in its payload. -/
theorem parse_fragmentation_ping :
    let pieces : List Bytes := [[0, 0, 8, 6], [0, 0, 0, 0, 0, 1, 2, 3], [4, 5, 6, 7, 8]]
    pieces.flatten.length < 2 ^ 63 ∧
      ((newParser {}).parseAll pieces).code = ((newParser {}).parse pieces.flatten).code :=
  ⟨by decide, (parse_fragmentation {} [[0, 0, 8, 6], [0, 0, 0, 0, 0, 1, 2, 3], [4, 5, 6, 7, 8]]
    (by decide)).1.1⟩

end Parser

end WagoHttp.Http2
