import WagoHttp.Foundations.Runs
import WagoHttp.Http2.Frame

/-!
# The grammar of the parser's callbacks

Whatever the input and however it is cut, the callbacks of the frame parser come in a fixed order:
a frame begins, callbacks of its type follow, it completes; a header block begins with a HEADERS
frame or with the promised stream of a PUSH_PROMISE frame, and nothing but CONTINUATION frames of
the same stream comes before its end. `Phase` is the state of the automaton that checks this order,
and `parseOne_tracks` shows that the parser keeps to it.
-/

namespace WagoHttp.Http2

open Runs List

/-- A callback with its fragment cut into octets. -/
def Callback.octets : Callback → List Callback
  | .data streamID bytes endStream => bytes.map fun b => .data streamID [b] endStream
  | .headerBlock streamID fragment => fragment.map fun b => .headerBlock streamID [b]
  | .goAwayDebug fragment => fragment.map fun b => .goAwayDebug [b]
  | .unknown header fragment => fragment.map fun b => .unknown header [b]
  | call => [call]

/-- A frame that carries a fragment of a header block. -/
def FrameHeader.carriesBlock (header : FrameHeader) : Prop :=
  header.type = .headers ∨ header.type = .pushPromise ∨ header.type = .continuation

/-- The type of the first frame of a header block. -/
def FrameType.beginsBlock (type : FrameType) : Prop := type = .headers ∨ type = .pushPromise

/-- Where a sequence of callbacks stands: the frame that has begun, and the stream whose header
block has begun. -/
structure Phase where
  frame : Option FrameHeader := none
  block : Option ℕ := none
  deriving DecidableEq

namespace Phase

/-- Whether a frame may begin: inside a block, only a continuation of the block. -/
def MayBegin (block : Option ℕ) (header : FrameHeader) : Prop :=
  match block with
  | none => header.type ≠ .continuation
  | some id => header.type = .continuation ∧ header.streamID = id

/-- The callbacks that may come next. -/
def Allows (ph : Phase) : Callback → Prop
  | .frameBegin header =>
    ph.frame = none ∧ validateFrameHeader header = .none ∧ header.streamID < 2 ^ 31 ∧
      MayBegin ph.block header
  | .data streamID data endStream =>
    ∃ header, ph.frame = some header ∧ header.type = .data ∧ streamID = header.streamID ∧
      data ≠ [] ∧ endStream = header.flags.has .endStream
  | .headerBlock streamID _ =>
    ∃ header, ph.frame = some header ∧ header.carriesBlock ∧ header.streamID = streamID ∧
      ph.block = some streamID
  | .headerBlockEnd streamID _ =>
    ∃ header, ph.frame = some header ∧ header.carriesBlock ∧ header.streamID = streamID ∧
      ph.block = some streamID
  | .priority streamID _ =>
    ∃ header, ph.frame = some header ∧ (header.type = .priority ∨ header.type = .headers) ∧
      header.streamID = streamID
  | .rstStream streamID _ =>
    ∃ header, ph.frame = some header ∧ header.type = .rstStream ∧ header.streamID = streamID
  | .setting setting =>
    ∃ header, ph.frame = some header ∧ header.type = .settings ∧ validSetting setting
  | .settingsEnd ack =>
    ∃ header, ph.frame = some header ∧ header.type = .settings ∧ ack = header.flags.has .ack
  | .pushPromise streamID promisedStreamID =>
    ∃ header, ph.frame = some header ∧ header.type = .pushPromise ∧ header.streamID = streamID ∧
      promisedStreamID ≠ 0 ∧ promisedStreamID < 2 ^ 31 ∧ ph.block = none
  | .ping _ ack =>
    ∃ header, ph.frame = some header ∧ header.type = .ping ∧ ack = header.flags.has .ack
  | .goAway lastStreamID _ =>
    ∃ header, ph.frame = some header ∧ header.type = .goAway ∧ lastStreamID < 2 ^ 31
  | .goAwayDebug _ => ∃ header, ph.frame = some header ∧ header.type = .goAway
  | .windowUpdate streamID increment =>
    ∃ header, ph.frame = some header ∧ header.type = .windowUpdate ∧
      header.streamID = streamID ∧ increment ≠ 0 ∧ increment < 2 ^ 31
  | .unknown header _ => ph.frame = some header
  | .frameComplete header => ph.frame = some header

/-- Where the sequence stands after a callback. -/
def next (ph : Phase) : Callback → Phase
  | .frameBegin header =>
    { frame := some header
      block := if header.type = .headers then some header.streamID else ph.block }
  | .pushPromise streamID _ => { ph with block := some streamID }
  | .headerBlockEnd _ _ => { ph with block := none }
  | .frameComplete _ => { ph with frame := none }
  | _ => ph

/-- A callback that may come next and leaves the phase as it is. Its fragment is not empty. -/
def Inner (ph : Phase) (call : Callback) : Prop :=
  ph.Allows call ∧ ph.next call = ph ∧ call.octets ≠ []

theorem guarded_of_inner {ph : Phase} {calls : List Callback} (h : ∀ c ∈ calls, ph.Inner c) :
    Guarded next Allows ph calls ∧ calls.foldl next ph = ph := by
  induction calls with
  | nil => exact ⟨trivial, rfl⟩
  | cons c calls ih =>
    obtain ⟨hc, hcalls⟩ := forall_mem_cons.1 h
    rw [guarded_cons, foldl_cons, hc.2.1]
    exact ⟨⟨hc.1, (ih hcalls).1⟩, (ih hcalls).2⟩

end Phase

namespace Parser

/-! ## The parser inside a frame -/

/-- The block that is open while the parser is inside a frame: in a PUSH_PROMISE frame it begins
with the promised stream. -/
def blockInFrame (p : Parser) : Option ℕ :=
  if p.current.type = .headers ∨ p.current.type = .continuation then some p.current.streamID
  else if p.current.type = .pushPromise ∧ p.state ≠ .start ∧ p.state ≠ .fixed then
    some p.current.streamID
  else none

/-- The octets of a payload before the fixed fields. -/
def padOctets (header : FrameHeader) : ℕ := if header.flags.has .padded then 1 else 0

/-- The parser has begun a frame. -/
structure InFrame (p : Parser) : Prop where
  valid : validateFrameHeader p.current = .none
  continuation :
    p.continuationStream = if p.current.type = .continuation then p.current.streamID else 0
  /-- A PUSH_PROMISE frame is incomplete while the promised stream is. -/
  start : p.current.type = .pushPromise → p.state = .start → p.payloadN = 0 ∧ p.fixed = []
  fixed : p.current.type = .pushPromise → p.state = .fixed →
    p.fixedNeed = 4 ∧ p.fixed.length < 4 ∧ p.payloadN = padOctets p.current + p.fixed.length

/-- What parsing a payload leaves unchanged. -/
structure SameFrame (p q : Parser) : Prop where
  current : q.current = p.current
  header : q.header = p.header
  continuation : q.continuationStream = p.continuationStream
  code : q.code = p.code

theorem SameFrame.refl (p : Parser) : SameFrame p p := ⟨rfl, rfl, rfl, rfl⟩

variable {p q : Parser} {block : Option ℕ} {n fuel : ℕ} {code : Code} {src : Bytes}
  {calls : List Callback}

theorem SameFrame.trans {r : Parser} (h : SameFrame p q) (h' : SameFrame q r) : SameFrame p r :=
  ⟨h'.current.trans h.current, h'.header.trans h.header, h'.continuation.trans h.continuation,
    h'.code.trans h.code⟩

/-- The result of parsing a payload makes callbacks that leave the phase as it is. -/
structure Payload.Stays (r : Payload) (p : Parser) (block : Option ℕ) : Prop where
  inner : ∀ c ∈ r.calls, (Phase.mk (some p.current) block).Inner c
  same : r.code = .none → SameFrame p r.parser

theorem stays_payloadSoFar (h : SameFrame p q) : (payloadSoFar q n []).Stays p block :=
  ⟨by simp [payloadSoFar], fun _ => h⟩

theorem stays_reject (hc : code ≠ .none) : (q.reject n code).Stays p block :=
  ⟨by simp [reject], fun h => absurd h (fail_code_ne hc)⟩

variable {r : Payload} {k : Parser → Bytes → Payload}

theorem Payload.Stays.andThen (hr : r.Stays p block) (hsame : SameFrame p r.parser)
    (hk : (k r.parser (src.drop r.n)).Stays r.parser block) :
    (r.andThen src k).Stays p block := by
  refine ⟨fun c hc => ?_, fun h => hsame.trans (hk.same h)⟩
  rcases mem_append.1 hc with hc | hc
  · exact hr.inner c hc
  · have := hk.inner c hc
    rwa [hsame.current] at this

/-! ## Payloads that leave the phase as it is -/

theorem stays_skipPadding : (p.skipPadding src).Stays p block :=
  stays_payloadSoFar ⟨rfl, rfl, rfl, rfl⟩

theorem stays_parseDataContent (ht : p.current.type = .data) :
    (p.parseDataContent src).Stays p block := by
  have hcall : p.contentN ≠ 0 ∧ src ≠ [] →
      (Phase.mk (some p.current) block).Inner (.data p.current.streamID
        (src.take (min p.contentN src.length)) (p.current.flags.has .endStream)) := by
    rintro ⟨hn, hs⟩
    have hne : src.take (min p.contentN src.length) ≠ [] := by
      simpa [take_eq_nil_iff] using ⟨hn, hs⟩
    exact ⟨⟨p.current, rfl, ht, rfl, hne, rfl⟩, rfl, mt map_eq_nil_iff.1 hne⟩
  unfold parseDataContent
  by_cases hc : p.state = .content
  · by_cases hcount : min p.contentN src.length = 0
    · simp only [hc, hcount, ne_eq, not_true_eq_false, and_false, if_false, if_true, true_and]
      split
      · exact Payload.Stays.andThen ⟨by simp, fun _ => ⟨rfl, rfl, rfl, rfl⟩⟩
          ⟨rfl, rfl, rfl, rfl⟩ stays_skipPadding
      · exact stays_payloadSoFar ⟨rfl, rfl, rfl, rfl⟩
    · have hns : p.contentN ≠ 0 ∧ src ≠ [] := by
        rw [← length_pos_iff]
        omega
      simp only [hc, hcount, ne_eq, not_false_eq_true, and_self, if_true, true_and]
      split
      · exact Payload.Stays.andThen ⟨by simpa using hcall hns, fun _ => ⟨rfl, rfl, rfl, rfl⟩⟩
          ⟨rfl, rfl, rfl, rfl⟩ stays_skipPadding
      · exact ⟨by simpa [payloadSoFar] using hcall hns, fun _ => ⟨rfl, rfl, rfl, rfl⟩⟩
  · simp only [hc, false_and, if_false]
    split
    · exact Payload.Stays.andThen ⟨by simp, fun _ => ⟨rfl, rfl, rfl, rfl⟩⟩
        ⟨rfl, rfl, rfl, rfl⟩ stays_skipPadding
    · exact stays_payloadSoFar ⟨rfl, rfl, rfl, rfl⟩

theorem sameFrame_readPadding (p : Parser) (src : Bytes) (minimum : ℕ) :
    SameFrame p (p.readPadding src minimum).1 := by
  unfold readPadding
  split <;> exact ⟨rfl, rfl, rfl, rfl⟩

theorem sameFrame_copyFixed (p : Parser) (src : Bytes) : SameFrame p (p.copyFixed src).1 :=
  ⟨rfl, rfl, rfl, rfl⟩

theorem stays_parseData (ht : p.current.type = .data) : (p.parseData src).Stays p block := by
  unfold parseData
  split
  · have hs := sameFrame_readPadding p src 0
    generalize p.readPadding src 0 = r at hs
    obtain ⟨q, n, ok⟩ := r
    simp only
    split
    · exact stays_reject (by decide)
    · refine Payload.Stays.andThen ⟨by simp, fun _ => hs.trans ⟨rfl, rfl, rfl, rfl⟩⟩
        (hs.trans ⟨rfl, rfl, rfl, rfl⟩) (stays_parseDataContent ?_)
      exact (congrArg FrameHeader.type hs.current).trans ht
  · exact stays_parseDataContent ht

theorem stays_parseHeaderFragment {remaining : ℕ} (ht : p.current.carriesBlock) :
    (p.parseHeaderFragment src remaining).Stays p (some p.current.streamID) := by
  simp only [parseHeaderFragment]
  split
  · exact ⟨by simp, fun _ => SameFrame.refl p⟩
  · next hcount =>
    split
    · exact stays_reject (by decide)
    · refine ⟨?_, fun _ => ⟨rfl, rfl, rfl, rfl⟩⟩
      rw [forall_mem_singleton]
      refine ⟨⟨p.current, rfl, ht, rfl, rfl⟩, rfl, mt map_eq_nil_iff.1 ?_⟩
      rw [take_eq_nil_iff, not_or]
      exact ⟨hcount, fun hnil => hcount (by simp [hnil])⟩

theorem stays_parseHeaderContentAndPadding (ht : p.current.carriesBlock) :
    (p.parseHeaderContentAndPadding src).Stays p (some p.current.streamID) := by
  unfold parseHeaderContentAndPadding
  split
  · have hf : (p.parseHeaderFragment src p.contentN).Stays p (some p.current.streamID) :=
      stays_parseHeaderFragment ht
    simp only
    split
    · exact ⟨hf.inner, hf.same⟩
    · next hc =>
      have hsame := hf.same (not_not.1 hc)
      split
      · exact ⟨hf.inner, hf.same⟩
      · exact Payload.Stays.andThen ⟨hf.inner, fun _ => hsame.trans ⟨rfl, rfl, rfl, rfl⟩⟩
          (hsame.trans ⟨rfl, rfl, rfl, rfl⟩) stays_skipPadding
  · obtain ⟨q, hq, hs⟩ : ∃ q, (if p.state = .content ∧ p.contentN = 0 then
        { p with state := .padding } else p) = q ∧ SameFrame p q :=
      ⟨_, rfl, by split <;> exact ⟨rfl, rfl, rfl, rfl⟩⟩
    simp only [hq]
    split
    · exact stays_payloadSoFar (hs.trans ⟨rfl, rfl, rfl, rfl⟩)
    · exact stays_payloadSoFar hs

theorem stays_parseHeadersFixed (ht : p.current.type = .headers) :
    (p.parseHeadersFixed src).Stays p (some p.current.streamID) := by
  unfold parseHeadersFixed
  split
  · have hs := sameFrame_copyFixed p src
    generalize p.copyFixed src = r at hs
    obtain ⟨q, n⟩ := r
    simp only at hs ⊢
    rw [← hs.current] at ht ⊢
    split
    · exact ⟨by simp, fun _ => hs⟩
    · split
      · exact stays_reject (by decide)
      · have hq : SameFrame p q.beginContent := hs.trans ⟨rfl, rfl, rfl, rfl⟩
        refine Payload.Stays.andThen ⟨?_, fun _ => hq⟩ hq
          (stays_parseHeaderContentAndPadding (.inl ht))
        exact forall_mem_singleton.2 ⟨⟨p.current, rfl, .inr (hs.current ▸ ht), by rw [hs.current]⟩,
          rfl, cons_ne_nil _ _⟩
  · exact stays_parseHeaderContentAndPadding (.inl ht)

theorem stays_parseHeaders (ht : p.current.type = .headers) :
    (p.parseHeaders src).Stays p (some p.current.streamID) := by
  unfold parseHeaders
  split
  · have hs := sameFrame_readPadding p src (if p.current.flags.has .priority then 5 else 0)
    generalize p.readPadding src _ = r at hs
    obtain ⟨q, n, ok⟩ := r
    simp only at hs ⊢
    split
    · exact stays_reject (by decide)
    · have hq : SameFrame p (if q.current.flags.has .priority = true then
          { q with fixedNeed := 5, state := .fixed } else q.beginContent) := by
        split <;> exact hs.trans ⟨rfl, rfl, rfl, rfl⟩
      generalize (if q.current.flags.has .priority = true then
          { q with fixedNeed := 5, state := .fixed } else q.beginContent) = q' at hq
      refine Payload.Stays.andThen ⟨by simp, fun _ => hq⟩ hq ?_
      rw [← hq.current] at ht ⊢
      exact stays_parseHeadersFixed ht
  · exact stays_parseHeadersFixed ht

theorem stays_parseFixed {need : ℕ} : (p.parseFixed src need).Stays p block :=
  stays_payloadSoFar ⟨rfl, rfl, rfl, rfl⟩

theorem stays_parseSettingsLoop (ht : p.current.type = .settings) :
    (parseSettingsLoop fuel p src).Stays p block := by
  induction fuel generalizing p src with
  | zero => exact stays_payloadSoFar (SameFrame.refl p)
  | succ fuel ih =>
    unfold parseSettingsLoop
    split
    · have hs := sameFrame_copyFixed p src
      generalize p.copyFixed src = r at hs
      obtain ⟨q, n⟩ := r
      simp only at hs ⊢
      split
      · exact stays_payloadSoFar hs
      · split
        · exact stays_reject (by decide)
        · next hv =>
          have hq : SameFrame p { q with fixed := [] } := hs.trans ⟨rfl, rfl, rfl, rfl⟩
          refine Payload.Stays.andThen ⟨?_, fun _ => hq⟩ hq
            (ih ((congrArg FrameHeader.type hq.current).trans ht))
          exact forall_mem_singleton.2
            ⟨⟨p.current, rfl, ht, by simpa using hv⟩, rfl, cons_ne_nil _ _⟩
    · exact stays_payloadSoFar (SameFrame.refl p)

theorem stays_parseSettings (ht : p.current.type = .settings) :
    (p.parseSettings src).Stays p block := by
  have h : (p.parseSettings src).Stays { p with fixedNeed := 6 } block :=
    stays_parseSettingsLoop ht
  have hp : SameFrame p { p with fixedNeed := 6 } := ⟨rfl, rfl, rfl, rfl⟩
  exact ⟨h.inner, fun hc => hp.trans (h.same hc)⟩

theorem stays_parseGoAwayDebug (ht : p.current.type = .goAway) :
    (p.parseGoAwayDebug src).Stays p block := by
  unfold parseGoAwayDebug
  split
  · next hgo =>
    refine ⟨forall_mem_singleton.2 ⟨⟨p.current, rfl, ht⟩, rfl, mt map_eq_nil_iff.1 ?_⟩,
      fun _ => ⟨rfl, rfl, rfl, rfl⟩⟩
    rw [take_eq_nil_iff, not_or]
    have hpos := length_pos_iff.2 hgo.2
    exact ⟨by omega, hgo.2⟩
  · exact stays_payloadSoFar (SameFrame.refl p)

theorem stays_parseGoAway (ht : p.current.type = .goAway) : (p.parseGoAway src).Stays p block := by
  unfold parseGoAway
  split
  · have hs : SameFrame p (copyFixed { p with fixedNeed := 8 } src).1 := ⟨rfl, rfl, rfl, rfl⟩
    generalize copyFixed { p with fixedNeed := 8 } src = r at hs
    obtain ⟨q, n⟩ := r
    simp only at hs ⊢
    split
    · exact ⟨by simp, fun _ => hs⟩
    · exact Payload.Stays.andThen ⟨by simp, fun _ => hs⟩ hs
        (stays_parseGoAwayDebug ((congrArg FrameHeader.type hs.current).trans ht))
  · exact stays_parseGoAwayDebug ht

theorem stays_parseUnknown (hs : src ≠ []) (hlt : p.payloadN < p.current.length) :
    (p.parseUnknown src).Stays p block := by
  refine ⟨forall_mem_singleton.2 ⟨rfl, rfl, mt map_eq_nil_iff.1 ?_⟩,
    fun _ => ⟨rfl, rfl, rfl, rfl⟩⟩
  rw [take_eq_nil_iff, not_or]
  have hpos := length_pos_iff.2 hs
  exact ⟨by omega, hs⟩

/-- A payload that is not the one of a PUSH_PROMISE frame leaves the phase as it is. -/
theorem stays_payloadStep (hs : src ≠ []) (hlt : p.payloadN < p.current.length)
    (ht : p.current.type ≠ .pushPromise) :
    (p.payloadStep src).Stays p p.blockInFrame := by
  have hblock : p.current.type = .headers ∨ p.current.type = .continuation →
      p.blockInFrame = some p.current.streamID := fun h => by simp [blockInFrame, h]
  unfold payloadStep
  split_ifs with hdata hheaders _ _ hsettings _ hgoAway _ hcont
  · exact stays_parseData hdata
  · rw [hblock (.inl hheaders)]
    exact stays_parseHeaders hheaders
  · exact stays_parseFixed
  · exact stays_parseFixed
  · exact stays_parseSettings hsettings
  · exact stays_parseFixed
  · exact stays_parseGoAway hgoAway
  · exact stays_parseFixed
  · rw [hblock (.inr hcont)]
    exact stays_parseHeaderFragment (.inr (.inr hcont))
  · exact stays_parseUnknown hs hlt

/-! ## Payloads in general -/

/-- The phase of a parser inside a frame. -/
def framePhase (p : Parser) : Phase := ⟨some p.current, p.blockInFrame⟩

/-- The promised stream of a PUSH_PROMISE frame has been read. -/
def PastFixed (p : Parser) : Prop :=
  p.current.type = .pushPromise → p.state ≠ .start ∧ p.state ≠ .fixed

/-- The callbacks of a payload take the phase of the parser before it to the phase of the parser
after it. -/
structure Payload.Tracks (r : Payload) (p : Parser) : Prop where
  guarded : Guarded Phase.next Phase.Allows p.framePhase r.calls
  next : r.code = .none → r.calls.foldl Phase.next p.framePhase = r.parser.framePhase
  same : r.code = .none → SameFrame p r.parser
  inFrame : r.code = .none → r.parser.InFrame
  done : r.code = .none → r.done → r.parser.PastFixed

theorem blockInFrame_of_same (h : SameFrame p q) (hp : p.PastFixed) (hq : q.PastFixed) :
    q.blockInFrame = p.blockInFrame := by
  have ht := congrArg FrameHeader.type h.current
  unfold blockInFrame
  by_cases hpush : p.current.type = .pushPromise
  · have hp' := hp hpush
    have hq' := hq (ht.trans hpush)
    rw [h.current]
    simp only [hp', hq', ne_eq, not_false_eq_true, and_true]
  · rw [h.current]
    simp only [hpush, false_and]

theorem inFrame_of_same (h : SameFrame p q) (hp : p.InFrame) (hq : q.PastFixed) :
    q.InFrame where
  valid := h.current ▸ hp.valid
  continuation := by rw [h.continuation, h.current, hp.continuation]
  start ht hs := absurd hs (hq ht).1
  fixed ht hs := absurd hs (hq ht).2

theorem pastFixed_of_type (ht : p.current.type ≠ .pushPromise) : p.PastFixed :=
  fun h => absurd h ht

/-- A payload that leaves the phase as it is, after the fixed fields of a PUSH_PROMISE frame. -/
theorem Payload.Stays.tracks (h : r.Stays p p.blockInFrame) (hp : p.InFrame) (hpast : p.PastFixed)
    (hr : r.code = .none → r.parser.PastFixed) :
    r.Tracks p := by
  obtain ⟨hg, hf⟩ := Phase.guarded_of_inner h.inner
  refine ⟨hg, fun hc => ?_, h.same, fun hc => inFrame_of_same (h.same hc) hp (hr hc),
    fun hc _ => hr hc⟩
  rw [framePhase, hf, framePhase, (h.same hc).current,
    blockInFrame_of_same (h.same hc) hpast (hr hc)]

theorem pushPromise_length (hp : p.InFrame) (ht : p.current.type = .pushPromise) :
    4 + padOctets p.current ≤ p.current.length := by
  by_contra hlt
  have hv := hp.valid
  rw [not_le, padOctets] at hlt
  simp only [validateFrameHeader, ht, show FrameType.pushPromise ≠ .data by decide,
    show FrameType.pushPromise ≠ .headers by decide,
    show FrameType.pushPromise ≠ .priority by decide,
    show FrameType.pushPromise ≠ .rstStream by decide,
    show FrameType.pushPromise ≠ .settings by decide, if_false, if_true,
    if_pos hlt] at hv
  split at hv <;> cases hv

/-- A payload that is complete is past the fixed fields. -/
theorem pastFixed_of_done (hp : p.InFrame) (hn : p.payloadN = p.current.length) : p.PastFixed := by
  intro ht
  have hlen := pushPromise_length hp ht
  constructor <;> intro hs
  · have := (hp.start ht hs).1
    omega
  · have := hp.fixed ht hs
    omega

theorem tracks_payloadSoFar (hp : p.InFrame) : (payloadSoFar p n []).Tracks p :=
  ⟨trivial, fun _ => rfl, fun _ => SameFrame.refl p, fun _ => hp,
    fun _ hd => pastFixed_of_done hp (by simpa [payloadSoFar] using hd)⟩

theorem tracks_reject (hc : code ≠ .none) : (q.reject n code).Tracks p :=
  ⟨by simp [reject], fun h => absurd h (fail_code_ne hc), fun h => absurd h (fail_code_ne hc),
    fun h => absurd h (fail_code_ne hc), fun h => absurd h (fail_code_ne hc)⟩

theorem Payload.Tracks.andThen (hr : r.Tracks p) (hc : r.code = .none)
    (hk : (k r.parser (src.drop r.n)).Tracks r.parser) : (r.andThen src k).Tracks p where
  guarded := by
    rw [Payload.andThen, guarded_append, hr.next hc]
    exact ⟨hr.guarded, hk.guarded⟩
  next h := by
    rw [Payload.andThen, foldl_append, hr.next hc]
    exact hk.next h
  same h := (hr.same hc).trans (hk.same h)
  inFrame h := hk.inFrame h
  done h hd := hk.done h hd

/-! ## PUSH_PROMISE -/

theorem pastFixed_parseHeaderContentAndPadding (hs : p.state = .content ∨ p.state = .padding) :
    (p.parseHeaderContentAndPadding src).parser.PastFixed := by
  intro _
  have hf : (p.parseHeaderFragment src p.contentN).parser.state = p.state := by
    simp only [parseHeaderFragment, reject, fail, apply_ite Payload.parser, apply_ite Parser.state,
      ite_self]
  have key : (p.parseHeaderContentAndPadding src).parser.state = .content ∨
      (p.parseHeaderContentAndPadding src).parser.state = .padding := by
    unfold parseHeaderContentAndPadding
    split
    · simp only
      split_ifs
      · rwa [← hf] at hs
      · rwa [← hf] at hs
      · exact .inr rfl
    · simp only
      split_ifs <;> simp_all [skipPadding, payloadSoFar]
  rcases key with h | h <;> simp [h]

theorem stays_parsePushPromiseContent (hp : p.InFrame) (ht : p.current.type = .pushPromise)
    (hs : p.state = .content ∨ p.state = .padding) :
    (p.parseHeaderContentAndPadding src).Tracks p := by
  have hpast : p.PastFixed := fun _ => by rcases hs with h | h <;> simp [h]
  have hblock : p.blockInFrame = some p.current.streamID := by
    simp [blockInFrame, ht, hpast ht]
  refine Payload.Stays.tracks ?_ hp hpast fun _ => pastFixed_parseHeaderContentAndPadding hs
  rw [hblock]
  exact stays_parseHeaderContentAndPadding (.inr (.inl ht))

theorem blockInFrame_fixed (ht : p.current.type = .pushPromise)
    (hs : p.state = .start ∨ p.state = .fixed) : p.blockInFrame = none := by
  have h : ¬(p.state ≠ .start ∧ p.state ≠ .fixed) := by rcases hs with h | h <;> simp [h]
  simp [blockInFrame, ht, h, show FrameType.pushPromise ≠ .headers by decide,
    show FrameType.pushPromise ≠ .continuation by decide]

theorem tracks_parsePushPromiseFixed (hp : p.InFrame) (ht : p.current.type = .pushPromise)
    (hs : p.state ≠ .start) :
    (p.parsePushPromiseFixed src).Tracks p := by
  unfold parsePushPromiseFixed
  split
  · next hfixed =>
    obtain ⟨hneed, hlen, hpay⟩ := hp.fixed ht hfixed
    have hblock := blockInFrame_fixed ht (.inr hfixed)
    obtain ⟨q, n, hq, hsame, hstate, hneed', hq_in⟩ :
        ∃ q n, p.copyFixed src = (q, n) ∧ SameFrame p q ∧ q.state = .fixed ∧ q.fixedNeed = 4 ∧
          (q.fixed.length < 4 → q.InFrame) := by
      refine ⟨_, _, rfl, ⟨rfl, rfl, rfl, rfl⟩, hfixed, hneed, fun hlt => ?_⟩
      refine ⟨hp.valid, hp.continuation, fun _ h => absurd (hfixed.symm.trans h) (by decide),
        fun _ _ => ⟨hneed, hlt, ?_⟩⟩
      simp only [hpay, length_append, length_take]
      omega
    simp only [hq, hneed']
    have hqt : q.current.type = .pushPromise := by rw [hsame.current, ht]
    have hqb := blockInFrame_fixed hqt (.inr hstate)
    have hphase : q.framePhase = p.framePhase := by
      rw [framePhase, framePhase, hqb, hblock, hsame.current]
    split
    · next hlt =>
      exact ⟨trivial, fun _ => hphase.symm, fun _ => hsame, fun _ => hq_in hlt, by simp⟩
    · split
      · exact tracks_reject (by decide)
      · next hprom =>
        have hcur : q.beginContent.current = p.current := hsame.current
        have hin : q.beginContent.InFrame :=
          ⟨hcur ▸ hp.valid, by
            rw [hcur, ← hp.continuation]
            exact hsame.continuation, fun _ h => absurd h (by simp [beginContent]),
            fun _ h => absurd h (by simp [beginContent])⟩
        have hbegin : q.beginContent.blockInFrame = some q.current.streamID := by
          simp [blockInFrame, beginContent, hqt]
        refine Payload.Tracks.andThen ⟨?_, fun _ => ?_, fun _ => hsame.trans ⟨rfl, rfl, rfl, rfl⟩,
          fun _ => hin, by simp⟩ rfl (stays_parsePushPromiseContent hin hqt (.inl rfl))
        · refine ⟨⟨p.current, rfl, ht, by rw [hsame.current], hprom, ?_, hblock⟩, trivial⟩
          exact Nat.mod_lt _ (by norm_num)
        · simp only [foldl_cons, foldl_nil, Phase.next, framePhase, hbegin, hcur]
  · next hfixed =>
    refine stays_parsePushPromiseContent hp ht ?_
    cases h : p.state <;> simp_all

theorem tracks_parsePushPromise (hp : p.InFrame) (ht : p.current.type = .pushPromise) :
    (p.parsePushPromise src).Tracks p := by
  unfold parsePushPromise
  split
  · next hstart =>
    obtain ⟨hpay, hfix⟩ := hp.start ht hstart
    obtain ⟨q, n, ok, hq, hsame, hqfix, hqpay⟩ : ∃ q n ok, p.readPadding src 4 = (q, n, ok) ∧
        SameFrame p q ∧ q.fixed = [] ∧ q.payloadN = padOctets p.current := by
      unfold readPadding padOctets
      split
      · exact ⟨_, _, _, rfl, ⟨rfl, rfl, rfl, rfl⟩, hfix, by simp [hpay]⟩
      · exact ⟨_, _, _, rfl, ⟨rfl, rfl, rfl, rfl⟩, hfix, by simp [hpay]⟩
    simp only [hq]
    have hqt : q.current.type = .pushPromise := by rw [hsame.current, ht]
    split
    · exact tracks_reject (by decide)
    · obtain ⟨q', hq', hsame', hstate, hin⟩ :
          ∃ q', { q with fixedNeed := 4, state := .fixed } = q' ∧ SameFrame p q' ∧
            q'.state = .fixed ∧ q'.InFrame := by
        refine ⟨_, rfl, hsame.trans ⟨rfl, rfl, rfl, rfl⟩, rfl, hsame.current ▸ hp.valid, ?_,
          (fun _ h => nomatch h), fun _ _ => ⟨rfl, ?_, ?_⟩⟩
        · simpa only [hsame.current, hsame.continuation] using hp.continuation
        · simp [hqfix]
        · simp [hqfix, hqpay, hsame.current]
      simp only [hq']
      have hqt' : q'.current.type = .pushPromise := by rw [hsame'.current, ht]
      refine Payload.Tracks.andThen ⟨trivial, fun _ => ?_, fun _ => hsame', fun _ => hin, by simp⟩
        rfl (tracks_parsePushPromiseFixed hin hqt' (by simp [hstate]))
      simp only [foldl_nil, framePhase, blockInFrame_fixed ht (.inl hstart),
        blockInFrame_fixed hqt' (.inr hstate), hsame'.current]
  · next hstart => exact tracks_parsePushPromiseFixed hp ht hstart

/-! ## The loop over a payload -/

theorem payloadStep_pushPromise (ht : p.current.type = .pushPromise) :
    p.payloadStep src = p.parsePushPromise src := by
  simp only [payloadStep, ht, show FrameType.pushPromise ≠ .data by decide,
    show FrameType.pushPromise ≠ .headers by decide,
    show FrameType.pushPromise ≠ .priority by decide,
    show FrameType.pushPromise ≠ .rstStream by decide,
    show FrameType.pushPromise ≠ .settings by decide, if_false, if_true]

theorem tracks_payloadStep (hp : p.InFrame) (hs : src ≠ []) (hlt : p.payloadN < p.current.length) :
    (p.payloadStep src).Tracks p := by
  by_cases ht : p.current.type = .pushPromise
  · rw [payloadStep_pushPromise ht]
    exact tracks_parsePushPromise hp ht
  · have hstays := stays_payloadStep hs hlt ht
    refine hstays.tracks hp (pastFixed_of_type ht) fun hc => pastFixed_of_type ?_
    rwa [(hstays.same hc).current]

theorem tracks_parsePayloadLoop (hp : p.InFrame) : (parsePayloadLoop fuel p src).Tracks p := by
  induction fuel generalizing p src with
  | zero => exact tracks_payloadSoFar hp
  | succ fuel ih =>
    unfold parsePayloadLoop
    split
    · next hgo =>
      have hstep := tracks_payloadStep hp hgo.1 hgo.2
      simp only
      split
      · exact hstep
      · next hc =>
        have hcode : (p.payloadStep src).code = .none := not_not.1 (not_or.1 hc).1
        exact hstep.andThen hcode (ih (hstep.inFrame hcode))
    · exact tracks_payloadSoFar hp

/-! ## Frame boundaries -/

/-- The phase of a parser. -/
def phase (p : Parser) : Phase :=
  if p.header.length < 9 then
    ⟨none, if p.continuationStream = 0 then none else some p.continuationStream⟩
  else p.framePhase

/-- A parser that has not failed, between two calls. -/
structure Ready (p : Parser) : Prop where
  code : p.code = .none
  header : p.header.length ≤ 9
  inFrame : p.header.length = 9 → p.InFrame

/-- A frame that carries a block has a stream. -/
theorem streamID_ne_zero {header : FrameHeader} (hv : validateFrameHeader header = .none)
    (hb : header.carriesBlock) : header.streamID ≠ 0 := by
  intro h0
  have hreq : header.type = .data ∨ header.type = .headers ∨ header.type = .priority ∨
      header.type = .rstStream ∨ header.type = .pushPromise ∨ header.type = .continuation := by
    rcases hb with h | h | h <;> simp [h]
  rw [validateFrameHeader, if_pos (.inl ⟨hreq, h0⟩)] at hv
  cases hv

theorem phase_idle (h : p.header = []) :
    p.phase = ⟨none, if p.continuationStream = 0 then none else some p.continuationStream⟩ := by
  simp [phase, h]

/-- The callbacks of a complete frame, before its block ends. -/
theorem finishCalls_inner (h : p.finishCalls = .ok calls) : ∀ c ∈ calls, p.framePhase.Inner c := by
  have hone {call : Callback} (ha : p.framePhase.Allows call)
      (hn : p.framePhase.next call = p.framePhase) (ho : call.octets ≠ []) :
      ∀ c ∈ [call], p.framePhase.Inner c := forall_mem_singleton.2 ⟨ha, hn, ho⟩
  simp only [finishCalls] at h
  split_ifs at h with h1 _ h2 h3 h4 h5 h6 h7 <;> cases h
  · exact hone ⟨p.current, rfl, .inl h1, rfl⟩ rfl (cons_ne_nil _ _)
  · exact hone ⟨p.current, rfl, h2, rfl⟩ rfl (cons_ne_nil _ _)
  · exact hone ⟨p.current, rfl, h3, rfl⟩ rfl (cons_ne_nil _ _)
  · exact hone ⟨p.current, rfl, h4, rfl⟩ rfl (cons_ne_nil _ _)
  · exact hone ⟨p.current, rfl, h5, Nat.mod_lt _ (by norm_num)⟩ rfl (cons_ne_nil _ _)
  · exact hone ⟨p.current, rfl, h6, rfl, h7, Nat.mod_lt _ (by norm_num)⟩ rfl (cons_ne_nil _ _)
  · simp

/-- The end of a frame's part of a header block. -/
theorem finishBlock_tracks (hp : p.InFrame) (hpast : p.PastFixed) :
    Guarded Phase.next Phase.Allows p.framePhase p.finishBlock.2 ∧
      p.finishBlock.2.foldl Phase.next p.framePhase =
        ⟨some p.current, if p.finishBlock.1.continuationStream = 0 then none
          else some p.finishBlock.1.continuationStream⟩ ∧
      p.finishBlock.1.code = p.code := by
  unfold finishBlock
  simp only
  split
  · next hcarries =>
    have hid := streamID_ne_zero hp.valid hcarries
    have hblock : p.blockInFrame = some p.current.streamID := by
      rcases hcarries with h | h | h
      · simp [blockInFrame, h]
      · simp [blockInFrame, h, hpast h]
      · simp [blockInFrame, h]
    split
    · exact ⟨⟨⟨p.current, rfl, hcarries, rfl, hblock⟩, trivial⟩, by simp [Phase.next, framePhase],
        rfl⟩
    · split
      · exact ⟨trivial, by simp [framePhase, hblock], rfl⟩
      · next hcs =>
        have hcont := hp.continuation
        split at hcont
        · exact ⟨trivial, by simp [framePhase, hblock, hcont], rfl⟩
        · exact absurd hcont hcs
  · next hcarries =>
    have hnot := not_or.1 hcarries
    have hnot' := not_or.1 hnot.2
    have hcont : p.continuationStream = 0 := by rw [hp.continuation, if_neg hnot'.2]
    refine ⟨trivial, ?_, rfl⟩
    simp [framePhase, blockInFrame, hnot.1, hnot'.1, hnot'.2, hcont]

theorem finishFrame_tracks (hp : p.InFrame) (hpast : p.PastFixed) (hcode : p.code = .none) :
    Guarded Phase.next Phase.Allows p.framePhase p.finishFrame.calls ∧
      (p.finishFrame.code = .none → p.finishFrame.parser.Ready ∧
        p.finishFrame.calls.foldl Phase.next p.framePhase = p.finishFrame.parser.phase) := by
  unfold finishFrame
  cases hf : p.finishCalls with
  | error code =>
    exact ⟨trivial, fun h => absurd h (fail_code_ne (finishCalls_error_ne hf))⟩
  | ok calls =>
    obtain ⟨hguard, hfold⟩ := Phase.guarded_of_inner (finishCalls_inner hf)
    obtain ⟨hguard', hfold', hcode'⟩ := finishBlock_tracks hp hpast
    generalize p.finishBlock = b at hguard' hfold' hcode'
    obtain ⟨q, block⟩ := b
    have hq : q.code = .none := hcode'.trans hcode
    simp only at hguard' hfold' ⊢
    rw [if_neg (not_not.2 hq)]
    refine ⟨?_, fun _ => ⟨⟨hq, by simp, by simp⟩, ?_⟩⟩
    · simp only [guarded_append, guarded_cons, guarded_nil, and_true, foldl_append, hfold,
        hfold']
      exact ⟨⟨hguard, hguard'⟩, rfl⟩
    · simp only [foldl_append, hfold, hfold']
      rw [phase_idle rfl]
      rfl

/-! ## Passes and calls -/

/-- What a pass of the loop does to the phase. -/
def Pass.Tracks (ph : Phase) : Pass → Prop
  | .next p _ calls =>
    Guarded Phase.next Phase.Allows ph calls ∧ p.Ready ∧ calls.foldl Phase.next ph = p.phase
  | .ret p _ code calls =>
    Guarded Phase.next Phase.Allows ph calls ∧
      (code = .none → p.Ready ∧ calls.foldl Phase.next ph = p.phase)

theorem Pass.Tracks.after {ph ph' : Phase} {pass : Pass}
    (hcalls : Guarded Phase.next Phase.Allows ph calls) (hph : calls.foldl Phase.next ph = ph')
    (h : pass.Tracks ph') : (pass.after n calls).Tracks ph := by
  subst hph
  cases pass with
  | next p n' calls' =>
    obtain ⟨hg, hready, hfold⟩ := h
    exact ⟨guarded_append.2 ⟨hcalls, hg⟩, hready, by rw [foldl_append, hfold]⟩
  | ret p n' code calls' =>
    obtain ⟨hg, hret⟩ := h
    exact ⟨guarded_append.2 ⟨hcalls, hg⟩, fun hc => by rw [foldl_append]; exact hret hc⟩

theorem finishPass_tracks (hp : p.InFrame) (hpast : p.PastFixed) (hcode : p.code = .none) :
    p.finishPass.Tracks p.framePhase := by
  obtain ⟨hg, hret⟩ := finishFrame_tracks hp hpast hcode
  unfold finishPass
  simp only
  split
  · exact ⟨hg, hret⟩
  · next hc => exact ⟨hg, hret (not_not.1 hc)⟩

theorem payloadPass_tracks (hp : p.InFrame) (hlen : p.header.length = 9) (hcode : p.code = .none) :
    (p.payloadPass src).Tracks p.framePhase := by
  have h : (p.parsePayload src).Tracks p := tracks_parsePayloadLoop hp
  unfold payloadPass
  simp only
  split_ifs with hc hc' hd
  · exact ⟨h.guarded, fun hn => absurd hn hc⟩
  · exact ⟨h.guarded, fun hn => absurd hn hc'⟩
  · have hc := not_not.1 hc
    have hsame := h.same hc
    have hlen' : (p.parsePayload src).parser.header.length = 9 := by rw [hsame.header, hlen]
    refine ⟨h.guarded, fun _ => ⟨⟨hsame.code.trans hcode, hlen'.le, fun _ => h.inFrame hc⟩, ?_⟩⟩
    rw [h.next hc, phase, if_neg (by omega)]
  · have hc := not_not.1 hc
    refine Pass.Tracks.after h.guarded (h.next hc) (finishPass_tracks (h.inFrame hc) ?_ ?_)
    · exact h.done hc (by simpa using hd)
    · exact (h.same hc).code.trans hcode

/-- The phase of a parser between two frames. -/
def idlePhase (p : Parser) : Phase :=
  ⟨none, if p.continuationStream = 0 then none else some p.continuationStream⟩

/-- What the beginning of a frame does to the phase. -/
structure Boundary.Begins (b : Boundary) (p : Parser) : Prop where
  guarded : Guarded Phase.next Phase.Allows p.idlePhase b.calls
  next : b.code = .none → b.calls.foldl Phase.next p.idlePhase = b.parser.framePhase
  inFrame : b.code = .none → b.parser.InFrame
  header : b.code = .none → b.parser.header = p.header
  code : b.code = .none → b.parser.code = .none
  payloadN : b.code = .none → b.parser.payloadN = 0

theorem begins_rejectFrame (hc : code ≠ .none) : (q.rejectFrame code).Begins p := by
  have h : (q.rejectFrame code).code ≠ .none := fail_code_ne hc
  exact ⟨trivial, fun h' => absurd h' h, fun h' => absurd h' h, fun h' => absurd h' h,
    fun h' => absurd h' h, fun h' => absurd h' h⟩

theorem begins_acceptFrame (hstate : p.state = .start) (hpay : p.payloadN = 0)
    (hfixed : p.fixed = []) (hid : p.current.streamID < 2 ^ 31)
    (hmay : Phase.MayBegin p.idlePhase.block p.current) : p.acceptFrame.Begins p := by
  obtain ⟨q, hq, hsame, hstate', hpay', hfixed'⟩ : ∃ q,
      (if p.current.type = .headers ∧ p.continuationStream = 0 then
        { p with headerBlockEndStream := p.current.flags.has .endStream } else p) = q ∧
      SameFrame p q ∧ q.state = .start ∧ q.payloadN = 0 ∧ q.fixed = [] := by
    refine ⟨_, rfl, ?_⟩
    split
    · exact ⟨⟨rfl, rfl, rfl, rfl⟩, hstate, hpay, hfixed⟩
    · exact ⟨SameFrame.refl p, hstate, hpay, hfixed⟩
  unfold acceptFrame
  simp only [hq]
  split
  · next hv => exact begins_rejectFrame hv
  · next hv =>
    have hv : validateFrameHeader q.current = .none := not_not.1 hv
    rw [hsame.current] at hv ⊢
    -- which block is open says which type the frame has
    have hcont : q.continuationStream =
        if q.current.type = .continuation then q.current.streamID else 0 := by
      rw [hsame.continuation, hsame.current]
      by_cases h0 : p.continuationStream = 0
      · rw [idlePhase, if_pos h0] at hmay
        rw [if_neg hmay, h0]
      · rw [idlePhase, if_neg h0] at hmay
        rw [if_pos hmay.1, hmay.2]
    have hblock : q.blockInFrame =
        if p.current.type = .headers then some p.current.streamID else p.idlePhase.block := by
      unfold blockInFrame idlePhase
      rw [hsame.current, ← hsame.continuation, hcont, hsame.current, hstate']
      by_cases hh : p.current.type = .headers
      · simp [hh]
      · by_cases hc : p.current.type = .continuation
        · simp [hc, streamID_ne_zero hv (.inr (.inr hc))]
        · simp [hh, hc]
    refine ⟨⟨⟨rfl, hv, hid, hmay⟩, trivial⟩, fun _ => ?_, fun _ => ⟨?_, hcont, ?_, ?_⟩,
      fun _ => hsame.header, fun h => h, fun _ => hpay'⟩
    · simp only [foldl_cons, foldl_nil, Phase.next, framePhase, hblock, hsame.current]
    · rw [hsame.current]
      exact hv
    · exact fun _ _ => ⟨hpay', hfixed'⟩
    · exact fun _ h => absurd (hstate'.symm.trans h) (by decide)

/-- A frame begins. -/
theorem begins_beginFrame (p : Parser) : p.beginFrame.Begins p := by
  have hid : p.loadHeader.current.streamID < 2 ^ 31 := Nat.mod_lt _ (by norm_num)
  have key : ∀ q : Parser, q.idlePhase = p.idlePhase → q.header = p.header →
      q.acceptFrame.Begins q → q.acceptFrame.Begins p := by
    intro q hphase hheader h
    exact ⟨hphase ▸ h.guarded, hphase ▸ h.next, h.inFrame, fun hc => (h.header hc).trans hheader,
      h.code, h.payloadN⟩
  unfold beginFrame checkFrame
  split
  · exact begins_rejectFrame (by decide)
  · split
    · next hcs =>
      split
      · exact begins_rejectFrame (by decide)
      · next hc =>
        obtain ⟨ht, hs⟩ := not_or.1 hc
        simp only
        split
        · exact begins_rejectFrame (by decide)
        · refine key _ rfl rfl (begins_acceptFrame rfl rfl rfl hid ?_)
          rw [idlePhase, if_neg hcs]
          exact ⟨not_not.1 ht, not_not.1 hs⟩
    · next hcs =>
      split
      · exact begins_rejectFrame (by decide)
      · next hc =>
        refine key _ rfl rfl (begins_acceptFrame rfl rfl rfl hid ?_)
        rw [idlePhase, if_pos (not_not.1 hcs)]
        exact hc

theorem headerPass_tracks (hcode : p.code = .none) (hlen : p.header.length ≤ 9) :
    (p.headerPass src).Tracks p.idlePhase := by
  unfold headerPass
  split
  · next hlt =>
    exact ⟨trivial, fun _ => ⟨⟨hcode, hlen, fun h => absurd h hlt.ne⟩,
      by rw [phase, if_pos hlt, idlePhase, foldl_nil]⟩⟩
  · next hlt =>
    have hb := begins_beginFrame p
    simp only
    split_ifs with hc hz
    · exact ⟨hb.guarded, fun h => absurd h hc⟩
    · have hc := not_not.1 hc
      exact Pass.Tracks.after hb.guarded (hb.next hc) (finishPass_tracks (hb.inFrame hc)
        (pastFixed_of_done (hb.inFrame hc) ((hb.payloadN hc).trans hz.symm)) (hb.code hc))
    · have hc := not_not.1 hc
      exact Pass.Tracks.after hb.guarded (hb.next hc) (payloadPass_tracks (hb.inFrame hc)
        ((congrArg length (hb.header hc)).trans (le_antisymm hlen (not_lt.1 hlt)))
        (hb.code hc))

theorem pass_tracks (hp : p.Ready) : (p.pass src).Tracks p.phase := by
  unfold pass
  split
  · next hlt =>
    rw [phase, if_pos hlt]
    refine Pass.Tracks.after trivial rfl (headerPass_tracks hp.code ?_)
    simp only [length_append, length_take]
    omega
  · next hlt =>
    have hlen : p.header.length = 9 := le_antisymm hp.header (not_lt.1 hlt)
    rw [phase, if_neg hlt]
    exact payloadPass_tracks (hp.inFrame hlen) hlen hp.code

/-- What a call of the parser does to the phase. -/
structure Parsed.Tracks (r : Parsed) (ph : Phase) : Prop where
  guarded : Guarded Phase.next Phase.Allows ph r.calls
  ready : r.code = .none → r.parser.Ready
  next : r.code = .none → r.calls.foldl Phase.next ph = r.parser.phase

theorem runLoop_tracks (hp : p.Ready) : (p.runLoop src).Tracks p.phase := by
  induction hm : 2 * src.length + p.inPayload using Nat.strong_induction_on generalizing p src with
  | _ m ih =>
    have hpass : (p.pass src).Tracks p.phase := pass_tracks hp
    rw [runLoop]
    split_ifs with hs hpaused
    · exact ⟨trivial, fun _ => hp, fun _ => rfl⟩
    · exact ⟨trivial, fun _ => hp, fun _ => rfl⟩
    · split
      · next q n code calls heq =>
        rw [heq] at hpass
        exact ⟨hpass.1, fun hc => (hpass.2 hc).1, fun hc => (hpass.2 hc).2⟩
      · next q n calls heq =>
        rw [heq] at hpass
        obtain ⟨hg, hready, hfold⟩ := hpass
        have hr := ih _ (hm ▸ pass_next_lt hs heq) hready rfl
        refine ⟨guarded_append.2 ⟨hg, hfold ▸ hr.guarded⟩, hr.ready, fun hc => ?_⟩
        rw [foldl_append, hfold]
        exact hr.next hc

/-- **The callbacks of the parser keep to the grammar**: those of one call take the phase of the
parser before the call to its phase after it. -/
theorem parseOne_tracks (hp : p.Ready) : (p.parseOne src).Tracks p.phase := by
  have h : (runLoop { p with pauseAfterFrame := true, paused := false } src).Tracks p.phase :=
    runLoop_tracks ⟨hp.code, hp.header, fun hl => ⟨(hp.inFrame hl).valid,
      (hp.inFrame hl).continuation, (hp.inFrame hl).start, (hp.inFrame hl).fixed⟩⟩
  unfold parseOne runParse
  rw [if_neg (not_not.2 hp.code)]
  refine ⟨h.guarded, fun hc => ?_, h.next⟩
  have hr := h.ready hc
  exact ⟨hr.code, hr.header, fun hl => ⟨(hr.inFrame hl).valid, (hr.inFrame hl).continuation,
    (hr.inFrame hl).start, (hr.inFrame hl).fixed⟩⟩

theorem ready_newParser (limits : Limits) : (newParser limits).Ready :=
  ⟨rfl, by simp [newParser], by simp [newParser]⟩

theorem phase_newParser (limits : Limits) : (newParser limits).phase = {} := by
  simp [phase, newParser]

end Parser

end WagoHttp.Http2
