import WagoHttp.Http2.Session.Output

/-!
# Appending frames and parsing them

`AppendFrame` and the parser are inverse to each other. The octets that `AppendFrame` adds are one
frame whose header is read back as it was given, with the length of the payload; so what the parser
calls back for a sequence of such frames is what the reference says of each of them, and where it
fails, it fails for what is in a payload or for where a frame stands, and not for a header that
`AppendFrame` accepts.
-/

namespace WagoHttp.Http2

open List hiding span

open Reference

/-! ## The callbacks of frames -/

namespace Reference

/-- The callbacks of frames, with a header block open. -/
def calls : Option OpenBlock → List (FrameHeader × Bytes) → List Callback
  | _, [] => []
  | block, (h, payload) :: frames =>
    frameCalls block h payload ++ calls (nextBlock block h payload) frames

theorem solid_calls (block : Option OpenBlock) (frames : List (FrameHeader × Bytes)) :
    Solid (calls block frames) := by
  induction frames generalizing block with
  | nil => exact solid_nil
  | cons frame frames ih => exact solid_append (Parser.solid_frameCalls _ _ _) (ih _)

end Reference

/-- What is read off the callbacks, whatever the fragments are cut into. -/
theorem flatMap_of_octetCalls {α : Type} {view : Callback → List α}
    (hview : ∀ call, call.octets.flatMap view = view call) {calls calls' : List Callback}
    (h : octetCalls calls = octetCalls calls') : calls.flatMap view = calls'.flatMap view := by
  have hflat : ∀ calls, (octetCalls calls).flatMap view = calls.flatMap view := by
    intro calls
    rw [octetCalls, flatMap_assoc]
    exact flatMap_congr fun call _ => hview call
  rw [← hflat, h, hflat]

/-- The header of a frame that begins. -/
def Callback.begins : Callback → List FrameHeader
  | .frameBegin h => [h]
  | _ => []

/-- The header of a frame that is complete. -/
def Callback.completes : Callback → List FrameHeader
  | .frameComplete h => [h]
  | _ => []

theorem begins_octets (call : Callback) : call.octets.flatMap Callback.begins = call.begins := by
  cases call <;> simp [Callback.octets, Callback.begins, flatMap_map]

theorem completes_octets (call : Callback) :
    call.octets.flatMap Callback.completes = call.completes := by
  cases call <;> simp [Callback.octets, Callback.completes, flatMap_map]

/-- Between the beginning and the end of a frame no frame begins or ends. -/
theorem inner_calls (block : Option OpenBlock) (h : FrameHeader) (payload : Bytes) :
    ∀ call ∈ bodyCalls h payload ++ blockCalls block h,
      call.begins = [] ∧ call.completes = [] := by
  have hspan {mk : Bytes → Callback} {fragment : Bytes}
      (hmk : (mk fragment).begins = [] ∧ (mk fragment).completes = []) :
      ∀ call ∈ span mk fragment, call.begins = [] ∧ call.completes = [] := by
    unfold span
    split_ifs
    · exact forall_mem_nil _
    · exact forall_mem_singleton.2 hmk
  refine forall_mem_append.2 ⟨?_, ?_⟩
  · unfold bodyCalls
    split_ifs
    · exact hspan ⟨rfl, rfl⟩
    · exact forall_mem_cons.2 ⟨⟨rfl, rfl⟩, hspan ⟨rfl, rfl⟩⟩
    · exact hspan ⟨rfl, rfl⟩
    · exact forall_mem_cons.2 ⟨⟨rfl, rfl⟩, hspan ⟨rfl, rfl⟩⟩
    · exact hspan ⟨rfl, rfl⟩
    · exact forall_mem_append.2 ⟨forall_mem_map.2 fun _ _ => ⟨rfl, rfl⟩,
        forall_mem_singleton.2 ⟨rfl, rfl⟩⟩
    · exact forall_mem_append.2 ⟨hspan ⟨rfl, rfl⟩, forall_mem_singleton.2 ⟨rfl, rfl⟩⟩
    all_goals first
      | exact forall_mem_singleton.2 ⟨rfl, rfl⟩
      | exact hspan ⟨rfl, rfl⟩
  · unfold blockCalls
    split_ifs
    · exact forall_mem_singleton.2 ⟨rfl, rfl⟩
    · exact forall_mem_nil _

/-- The frames that begin are the frames, and so are those that are complete. -/
theorem begins_calls (block : Option OpenBlock) (frames : List (FrameHeader × Bytes)) :
    (calls block frames).flatMap Callback.begins = frames.map Prod.fst ∧
      (calls block frames).flatMap Callback.completes = frames.map Prod.fst := by
  induction frames generalizing block with
  | nil => exact ⟨rfl, rfl⟩
  | cons frame frames ih =>
    obtain ⟨h, payload⟩ := frame
    have hinner := inner_calls block h payload
    have hb := flatMap_eq_nil_iff.2 fun call hcall => (hinner call hcall).1
    have hc := flatMap_eq_nil_iff.2 fun call hcall => (hinner call hcall).2
    simp only [calls, frameCalls, cons_append, flatMap_cons, flatMap_append, hb, hc,
      ih]
    exact ⟨rfl, rfl⟩

/-! ## Frames that can be appended -/

/-- A frame that `AppendFrame` accepts, with its length. -/
structure Framed (frame : FrameHeader × Bytes) : Prop where
  length : frame.1.length = frame.2.length
  size : frame.2.length ≤ 16777215
  streamID : frame.1.streamID < 2 ^ 31
  valid : validateFrameHeader frame.1 = .none

theorem appendFrame_accepted {h : FrameHeader} {payload dst : Bytes}
    (hok : (appendFrame dst h payload).2 = .none) :
    Framed (withLength (h, payload)) ∧
      ∀ dst, appendFrame dst h payload = (dst ++ octetsOf (withLength (h, payload)), .none) := by
  unfold appendFrame at hok
  split at hok
  · cases hok
  next hsize =>
  simp only at hok
  split at hok
  · next hne => exact absurd hok hne
  next hvalid =>
  rw [not_not] at hvalid
  have hlen : ¬payload.length > 16777215 := fun h => hsize (.inl h)
  have hid : ¬h.streamID > 0x7fffffff := fun h => hsize (.inr (.inr h))
  refine ⟨⟨rfl, not_lt.1 hlen, Nat.lt_succ_of_le (not_lt.1 hid), hvalid⟩, fun dst => ?_⟩
  rw [appendFrame, if_neg hsize]
  simp only [hvalid, ne_eq, not_true_eq_false, if_false, append_assoc]
  rfl

/-- Append frames to a buffer. -/
def appendAll (dst : Bytes) (frames : List (FrameHeader × Bytes)) : Bytes :=
  frames.foldl (fun dst frame => (appendFrame dst frame.1 frame.2).1) dst

theorem appendAll_eq {frames : List (FrameHeader × Bytes)}
    (hok : ∀ frame ∈ frames, (appendFrame [] frame.1 frame.2).2 = .none) (dst : Bytes) :
    appendAll dst frames = dst ++ ((frames.map withLength).map octetsOf).flatten := by
  induction frames generalizing dst with
  | nil => exact (append_nil dst).symm
  | cons frame frames ih =>
    obtain ⟨hframe, hok⟩ := forall_mem_cons.1 hok
    have happend := (appendFrame_accepted hframe).2 dst
    rw [appendAll, foldl_cons, happend]
    exact (ih hok _).trans (by simp)

variable {frame : FrameHeader × Bytes}

theorem Framed.whole (h : Framed frame) :
    Parser.Whole (octetsOf frame) := Parser.whole_octetsOf h.length h.size h.streamID

theorem Framed.decode (h : Framed frame) : FrameHeader.decode (octetsOf frame) = frame.1 :=
  FrameHeader.decode_octetsOf (by have := h.size; have := h.length; omega) h.streamID frame.2

namespace Parser

variable {limits : Limits} {block : Option OpenBlock} {c : Parser}

variable {frames : List (FrameHeader × Bytes)}

/-- The callbacks for frames in which nothing is wrong. -/
theorem Follows.passedCalls (hf : Follows limits block c) (hframes : ∀ frame ∈ frames, Framed frame)
    (ha : c.Accepts (frames.map octetsOf))
    (hno : c.headerBlockBytes + (frames.map octetsOf).flatten.length < 2 ^ 64) :
    c.passedCalls (frames.map octetsOf) = octetCalls (calls block frames) := by
  induction frames generalizing c block with
  | nil => rfl
  | cons frame frames ih =>
    obtain ⟨hframe, hframes⟩ := forall_mem_cons.1 hframes
    obtain ⟨hw, hv, ha⟩ := ha
    rw [map_cons, flatten_cons, length_append] at hno
    obtain ⟨hnext, hcalls⟩ := hf.completed hw (by omega) hv
    have hblock := (completes hf.idle hw hv).block
    have hdrop : (octetsOf frame).drop 9 = frame.2 := rfl
    rw [hframe.decode, hdrop] at hnext hcalls
    rw [calls, octetCalls_append, ← ih hnext hframes ha (by omega), ← hcalls]
    rfl

/-- Whole frames that begin a sequence of frames are the first of them. -/
theorem accepted_frames {fs : List Bytes} {rest : Bytes} (hframes : ∀ frame ∈ frames, Framed frame)
    (ha : c.Accepts fs) (heq : (frames.map octetsOf).flatten = fs.flatten ++ rest) :
    ∃ before after, frames = before ++ after ∧ fs = before.map octetsOf ∧
      rest = (after.map octetsOf).flatten := by
  induction fs generalizing c frames with
  | nil => exact ⟨[], frames, rfl, rfl, by simpa using heq.symm⟩
  | cons f fs ih =>
    obtain ⟨hw, -, ha⟩ := ha
    cases frames with
    | nil =>
      have hnil : f = [] := by
        simp only [map_nil, flatten_nil, flatten_cons, append_assoc] at heq
        exact (append_eq_nil_iff.1 heq.symm).1
      have hnine := hw.header
      simp [hnil] at hnine
    | cons frame frames =>
      obtain ⟨hframe, hframes⟩ := forall_mem_cons.1 hframes
      rw [map_cons, flatten_cons, flatten_cons, append_assoc] at heq
      obtain rfl := hframe.whole.unique hw heq
      obtain ⟨before, after, rfl, rfl, rfl⟩ := ih hframes ha (append_cancel_left heq)
      exact ⟨frame :: before, after, rfl, rfl, rfl⟩

/-- What is wrong with a frame whose header is valid is not the size of the frame, nor its
stream. -/
theorem verdict_of_valid {frame : Bytes} (hc : Idle c) (hw : Whole frame)
    (hvalid : validateFrameHeader (FrameHeader.decode frame) = .none) :
    c.verdict frame ≠ .invalidFrameSize ∧
      (c.verdict frame = .invalidStreamID → (FrameHeader.decode frame).type = .pushPromise ∧
        beNat ((FrameHeader.decode frame).fixedFields (frame.drop 9)) % 2 ^ 31 = 0) := by
  have hhead : c.headerFault (FrameHeader.decode frame) ∉
      [Code.invalidFrameSize, .invalidStreamID] := by
    unfold headerFault
    split_ifs
    all_goals first | decide | (rw [hvalid]; decide)
  have hfinish : (c.completed frame).code ∉ [Code.invalidFrameSize, .invalidStreamID] := by
    unfold completed finishFrame
    have hcode : ((c.begun frame).within (frame.drop 9)).code = .none := hc.code
    cases hcalls : ((c.begun frame).within (frame.drop 9)).finishCalls with
    | error code =>
      simp only [fail, hcode, if_true]
      simp only [finishCalls] at hcalls
      split_ifs at hcalls
      all_goals
        obtain rfl := Except.error.inj hcalls
        decide
    | ok calls =>
      simp only [finishBlock_code, hcode, ne_eq, not_true_eq_false, if_false]
      decide
  simp only [mem_cons, not_mem_nil, or_false, not_or] at hhead hfinish
  unfold verdict FrameHeader.payloadFault
  rw [if_neg (not_lt.2 hw.header)]
  split_ifs with h1 h2 h3 h4 h5 h6
  all_goals first
    | exact ⟨hhead.1, fun h => absurd h hhead.2⟩
    | exact ⟨hfinish.1, fun h => absurd h hfinish.2⟩
    | exact ⟨by decide, fun h => absurd h (by decide)⟩
    | exact ⟨by decide, fun _ => ⟨‹_ ∧ _ ∧ _›.1, ‹_ ∧ _ ∧ _›.2.2⟩⟩

/-- **`AppendFrame` and the parser are inverse to each other.** -/
theorem appendFrame_parse {frames : List (FrameHeader × Bytes)} {limits : Limits}
    (hok : ∀ frame ∈ frames, (appendFrame [] frame.1 frame.2).2 = .none)
    (hlen : (appendAll [] frames).length < 2 ^ 63) :
    (∀ frame ∈ frames, ∀ dst, ∃ added,
        appendFrame dst frame.1 frame.2 = (dst ++ added, .none) ∧
          added.length = 9 + frame.2.length) ∧
      (((newParser limits).parse (appendAll [] frames)).code = .none →
        ((newParser limits).parse (appendAll [] frames)).calls.flatMap Callback.begins =
            frames.map (fun frame => { frame.1 with length := frame.2.length }) ∧
          ((newParser limits).parse (appendAll [] frames)).calls.flatMap Callback.completes =
            frames.map (fun frame => { frame.1 with length := frame.2.length }) ∧
          mergeCalls ((newParser limits).parse (appendAll [] frames)).calls =
            mergeCalls (calls none (frames.map withLength))) ∧
      ((newParser limits).parse (appendAll [] frames)).code ≠ .invalidFrameSize ∧
      (((newParser limits).parse (appendAll [] frames)).code = .invalidStreamID →
        ∃ frame ∈ frames, frame.1.type = .pushPromise ∧
          beNat ((withLength frame).1.fixedFields frame.2) % 2 ^ 31 = 0) := by
  have hframes : ∀ frame ∈ frames.map withLength, Framed frame := by
    intro frame hframe
    obtain ⟨frame, hmem, rfl⟩ := mem_map.1 hframe
    exact (appendFrame_accepted (hok frame hmem)).1
  have hall : appendAll [] frames = ((frames.map withLength).map octetsOf).flatten :=
    appendAll_eq hok []
  rw [hall] at hlen ⊢
  obtain ⟨fs, rest, hreads⟩ := parse_reads_all limits hlen
  obtain ⟨before, after, hsplit, rfl, rfl⟩ := accepted_frames hframes hreads.accepts hreads.octets
  have hidle := ((calm_newParser limits).passed hreads.accepts).idle
  refine ⟨fun frame hframe dst => ?_, fun hcode => ?_, ?_⟩
  · exact ⟨_, (appendFrame_accepted (hok frame hframe)).2 dst, length_octetsOf _⟩
  · have hnil : after = [] := by
      cases after with
      | nil => rfl
      | cons frame after =>
        -- a whole frame does not stand unfinished before the parser
        have hw := (hframes frame (by simp [hsplit])).whole
        obtain ⟨-, hstands, -, -⟩ := hreads.goes hcode
        rw [map_cons, flatten_cons] at hstands
        have hopen := hstands.open_ (hw.header.trans (by simp))
        rw [frameLength_append hw.header, length_append, ← hw.length] at hopen
        omega
    rw [hnil, append_nil] at hsplit
    rw [hsplit] at hlen hframes ⊢
    have hcalls := (parse_of_accepts hlen hreads.accepts).2.2
    rw [(follows_newParser limits).passedCalls hframes hreads.accepts (by
      change 0 + _ < _
      omega)] at hcalls
    have hheaders : before.map Prod.fst =
        frames.map (fun frame => { frame.1 with length := frame.2.length }) := by
      rw [← hsplit, map_map]
      rfl
    refine ⟨?_, ?_, ?_⟩
    · rw [flatMap_of_octetCalls begins_octets hcalls, (begins_calls none before).1, hheaders]
    · rw [flatMap_of_octetCalls completes_octets hcalls, (begins_calls none before).2, hheaders]
    · have hmerge := congrArg mergeCalls hcalls
      rw [mergeCalls_octetCalls (solid_calls _ _)] at hmerge
      exact (mergeCalls_octetCalls (solid_runParse _ _ _)).symm.trans hmerge
  · by_cases hcode : ((newParser limits).parse ((frames.map withLength).map octetsOf).flatten).code =
        .none
    · rw [hcode]
      exact ⟨nofun, nofun⟩
    obtain ⟨-, m, -, hstops⟩ := hreads.stops hcode
    cases after with
    | nil => exact absurd hstops (stands_nil _).not_stops
    | cons frame after =>
      have hmem : frame ∈ frames.map withLength := by simp [hsplit]
      have hframe := hframes frame hmem
      obtain ⟨frame, hin, rfl⟩ := mem_map.1 hmem
      have hverdict := hstops.verdict
      rw [map_cons, flatten_cons, framePart_whole hframe.whole] at hverdict
      have hvalid := verdict_of_valid hidle hframe.whole (hframe.decode ▸ hframe.valid)
      rw [hverdict, hframe.decode] at hvalid
      exact ⟨hvalid.1, fun h => ⟨frame, hin, hvalid.2 h⟩⟩

/-- A padded DATA frame and a frame of an unknown type. -/
theorem appendFrame_parse_two : let frames : List (FrameHeader × Bytes) :=
      [({ type := .data, flags := .padded, streamID := 1 }, [1, 7, 0]), ({ type := 0xbb }, [5])]
    ((newParser {}).parse (appendAll [] frames)).code = .none ∧
      ((newParser {}).parse (appendAll [] frames)).calls.flatMap Callback.begins =
        frames.map (fun frame => { frame.1 with length := frame.2.length }) := by
  intro frames
  have hcode : ((newParser {}).parse (appendAll [] frames)).code = .none := by decide +kernel
  exact ⟨hcode, ((appendFrame_parse (by decide +kernel) (by decide +kernel)).2.1 hcode).1⟩

end Parser

end WagoHttp.Http2
