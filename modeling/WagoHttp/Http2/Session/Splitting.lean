import Mathlib.Algebra.BigOperators.Group.List.Basic
import WagoHttp.Http2.RoundTrip

/-!
# Header blocks on the wire

A session cuts a header block into frames of at most the size that its peer accepts, and the parser
puts it together again: the fragments it hands out are the block, the promise of a PUSH_PROMISE
frame is handed out once, and the block ends at its last frame.
-/

namespace WagoHttp.Http2

open Reference

/-- The octets of a header block that are delivered. -/
def Callback.blockOctets : Callback → Bytes
  | .headerBlock _ fragment => fragment
  | _ => []

/-- The promise, the end of a header block, and where frames end. -/
def Callback.blockMarks : Callback → List Callback
  | .pushPromise id promised => [.pushPromise id promised]
  | .headerBlockEnd id endStream => [.headerBlockEnd id endStream]
  | .frameComplete h => [.frameComplete h]
  | _ => []

namespace Session

/-- The callback for the promise in the first frame of a block. -/
def promiseCalls (frameType : FrameType) (id promised : ℕ) (first : Bool) : List Callback :=
  if first ∧ frameType = .pushPromise then [.pushPromise id promised] else []

/-- The header block that is open before a frame of a block, of which `octets` octets and `frames`
frames are left. -/
structure Opened (limits : Limits) (id : ℕ) (ends first : Bool) (octets frames : ℕ)
    (block : Option OpenBlock) : Prop where
  first : block.isNone = first
  same : ∀ b ∈ block, b.streamID = id ∧ b.endStream = ends
  octets : (block.map OpenBlock.octets).getD 0 + octets ≤ limits.maxHeaderBlockBytes.toNat
  frames : (block.map fun b => b.frames + 1).getD 0 + frames ≤
    limits.maxContinuationFrames.toNat + 1

/-- The frames that are read with a header block open, the octets of the block that they hold, and
the marks that are called back. -/
def Reassembles (limits : Limits) (block : Option OpenBlock) (fs : List (FrameHeader × Bytes))
    (bs : Bytes) (promise : List Callback) (id : ℕ) (ends : Bool) : Prop :=
  ∃ calls, decodeFrom limits fs.length block (fs.map octetsOf).flatten = some calls ∧
    calls.flatMap Callback.blockOctets = bs ∧
    ∃ headers last, fs.map Prod.fst = headers ++ [last] ∧
      calls.flatMap Callback.blockMarks =
        promise ++ (headers.map .frameComplete ++ [.headerBlockEnd id ends, .frameComplete last])

section Frames

variable {frameType : FrameType} {id promised octets frames : ℕ} {endStream first last ends : Bool}
  {fragment : Bytes} {frame : FrameHeader × Bytes} {limits : Limits} {block : Option OpenBlock}
  (ht : frameType.beginsBlock) (hp : frameType = .pushPromise → promised ≠ 0 ∧ promised < 2 ^ 31)
  (hframe : withLength (blockHeader frameType id endStream first last,
    blockPromise frameType promised first ++ fragment) = frame)

include ht hp hframe

/-- The content of a frame of a header block. -/
theorem bodyCalls_blockFrame :
    bodyCalls frame.1 frame.2 =
        promiseCalls frameType id promised first ++ span (.headerBlock id) fragment ∧
      frame.1.blockOctets frame.2 = fragment.length := by
  obtain ⟨-, hpad, hprio⟩ := has_blockFlags frameType endStream first last
  have hflags : frame.1.flags = blockFlags frameType endStream first last := by rw [← hframe]; rfl
  have hlength : frame.1.length = frame.2.length := by rw [← hframe]; rfl
  rw [← hflags] at hpad hprio
  cases first with
  | false =>
    subst hframe
    simp only [bodyCalls, FrameHeader.blockOctets]
    exact ⟨rfl, rfl⟩
  | true =>
    have hcontent : frame.1.content frame.2 = frame.2.drop frame.1.fixedOctets := by
      simp [FrameHeader.content, FrameHeader.contentEnd, FrameHeader.padLength, hpad,
        FrameHeader.contentStart, Parser.padOctets, hlength]
    rcases ht with rfl | rfl
    · have htype : frame.1.type = .headers := by rw [← hframe]; rfl
      rw [FrameHeader.fixedOctets, if_pos htype, hprio] at hcontent
      simp only [bodyCalls, FrameHeader.blockOctets, htype, hcontent, hprio]
      subst hframe
      exact ⟨rfl, rfl⟩
    · have htype : frame.1.type = .pushPromise := by rw [← hframe]; rfl
      have hfixed : frame.1.fixedFields frame.2 = putUint32 promised := by
        have hmay : frame.1.mayPad := .inr (.inr htype)
        rw [FrameHeader.fixedFields, if_pos hmay, Parser.padOctets, hpad, ← hframe]
        rfl
      obtain ⟨-, hlt⟩ := hp rfl
      simp only [bodyCalls, FrameHeader.blockOctets, htype, hcontent, hfixed]
      rw [beNat_putUint32 (by omega), Nat.mod_eq_of_lt hlt, ← hframe]
      exact ⟨rfl, rfl⟩

omit ht hp in
theorem Opened.endStream_eq (ho : Opened limits id ends first octets frames block)
    (hends : ends = (endStream && decide (frameType = .headers))) :
    Reference.endStream block frame.1 = ends := by
  cases block with
  | some b => exact (ho.same b rfl).2
  | none =>
    obtain rfl : true = first := ho.first
    subst hends hframe
    change (decide (frameType = .headers) && (blockFlags frameType endStream true last).has _) = _
    by_cases ht : frameType = .headers
    · subst ht
      cases endStream <;> cases last <;> rfl
    · simp [ht]

/-- A frame of a header block is read. -/
theorem Opened.step (ho : Opened limits id ends first (fragment.length + octets) (frames + 1) block)
    (hends : ends = (endStream && decide (frameType = .headers))) (hid : id < 2 ^ 31) (hz : id ≠ 0)
    (hlen : frame.2.length ≤ 16777215) (hmax : frame.2.length ≤ limits.maxFrameSize.toNat) :
    ∃ next calls, (∀ fuel rest, decodeFrom limits (fuel + 1) block (octetsOf frame ++ rest) =
        (decodeFrom limits fuel next rest).map (calls ++ ·)) ∧
      (if last then next = none else Opened limits id ends false octets frames next) ∧
      calls.flatMap Callback.blockOctets = fragment ∧
      calls.flatMap Callback.blockMarks = promiseCalls frameType id promised first ++
        ((if last then [.headerBlockEnd id ends] else []) ++ [.frameComplete frame.1]) := by
  have hproper : Proper frame := by
    subst hframe
    exact proper_blockFrame ht hid hz hp hlen
  have hframed : Http2.Framed frame := ⟨hproper.length, hproper.size, hproper.streamID,
    (validateFrameHeader_iff _).2 ⟨hproper.stream, hproper.lengths⟩⟩
  obtain ⟨hbody, hoctets⟩ := bodyCalls_blockFrame ht hp hframe
  have hflag := ho.endStream_eq hframe hends
  have hlast : frame.1.flags.has .endHeaders = last := by
    rw [← hframe]
    exact (has_blockFlags frameType endStream first last).1
  have hstream : frame.1.streamID = id := by rw [← hframe]; rfl
  have htype : frame.1.type = if first then frameType else .continuation := by rw [← hframe]; rfl
  have hcarries : frame.1.carriesBlock := by
    rw [← hframe]
    exact (type_blockHeader ht : (blockHeader frameType id endStream first last).carriesBlock)
  have hsum : Reference.blockOctets block frame.1 frame.2 =
      (block.map OpenBlock.octets).getD 0 + fragment.length := congrArg (_ + ·) hoctets
  obtain ⟨hfirst, hsame, hroom, hcount⟩ := ho
  have hadmits : Admits limits block frame.1 frame.2 := by
    refine ⟨hproper.length ▸ hmax, ⟨?_, fun b hb => ?_⟩, hproper.stream, hproper.lengths,
      hproper.payload, by omega⟩
    · rintro rfl
      obtain rfl : true = first := hfirst
      rw [htype]
      rcases ht with rfl | rfl <;> decide
    · obtain rfl : block = some b := hb
      obtain rfl : false = first := hfirst
      refine ⟨htype, hstream.trans (hsame b rfl).1.symm, ?_⟩
      change b.frames + 1 + (frames + 1) ≤ _ at hcount
      omega
  refine ⟨nextBlock block frame.1 frame.2, frameCalls block frame.1 frame.2, fun fuel rest => ?_,
    ?_, ?_, ?_⟩
  · have hdrop : (octetsOf frame).drop 9 = frame.2 := rfl
    rw [Parser.decodeFrom_frame hframed.whole, hframed.decode, hdrop, if_pos hadmits]
  · simp only [nextBlock, if_pos hcarries, hlast, hsum, hstream, hflag]
    cases last with
    | true => rfl
    | false =>
      refine ⟨rfl, ?_, ?_, ?_⟩
      · intro b hb
        obtain rfl := Option.some.inj hb
        exact ⟨rfl, rfl⟩
      · change (block.map OpenBlock.octets).getD 0 + fragment.length + octets ≤ _
        omega
      · change (block.map fun b => b.frames + 1).getD 0 + 1 + frames ≤ _
        omega
  · simp only [frameCalls, hbody, blockCalls, span, promiseCalls, List.cons_append,
      List.flatMap_append, List.flatMap_cons]
    split_ifs <;> simp_all [Callback.blockOctets]
  · simp only [frameCalls, hbody, blockCalls, span, promiseCalls, hcarries, hlast, hstream, hflag]
    split_ifs <;> simp_all [Callback.blockMarks]

end Frames

/-- What the parser calls back for the frames of a header block. -/
theorem Reassembles.parse {limits : Limits} {fs : List (FrameHeader × Bytes)} {bs : Bytes}
    {promise : List Callback} {id : ℕ} {ends : Bool}
    (h : Reassembles limits.normalized none fs bs promise id ends)
    (hlen : (fs.map octetsOf).flatten.length < 2 ^ 32) :
    let r := (newParser limits).parse (fs.map octetsOf).flatten
    r.code = .none ∧ r.calls.flatMap Callback.blockOctets = bs ∧
      ∃ headers last, fs.map Prod.fst = headers ++ [last] ∧
        r.calls.flatMap Callback.blockMarks = promise ++
          (headers.map .frameComplete ++ [.headerBlockEnd id ends, .frameComplete last]) := by
  intro r
  obtain ⟨calls, hdecode, hblock, headers, last, hheaders, hmarks⟩ := h
  obtain ⟨gs, ha, heq, -, hcalls⟩ :=
    Parser.accepts_of_decodeFrom (Parser.follows_newParser limits) (by
      change 0 + _ < _
      omega) hdecode
  simp only [r]
  rw [heq] at hlen ⊢
  obtain ⟨hcode, -, hparse⟩ := Parser.parse_of_accepts (hlen.trans (by decide)) ha
  rw [← hcalls] at hparse
  refine ⟨hcode, ?_, headers, last, hheaders, ?_⟩
  · rw [flatMap_of_octetCalls ?_ hparse, hblock]
    intro call
    cases call <;> simp [Callback.octets, Callback.blockOctets, List.flatMap_map]
  · rw [flatMap_of_octetCalls ?_ hparse, hmarks]
    intro call
    cases call <;> simp [Callback.octets, Callback.blockMarks, List.flatMap_map]

/-- The frames of a header block are read, and its octets are the block. -/
theorem reassembles_blockFrames {frameType : FrameType} {id promised : ℕ}
    {endStream first ends : Bool} {bs : Bytes} {limits : Limits} {max fuel : ℕ}
    (ht : frameType.beginsBlock) (hid : id < 2 ^ 31) (hz : id ≠ 0)
    (hp : frameType = .pushPromise → promised ≠ 0 ∧ promised < 2 ^ 31)
    (hends : ends = (endStream && decide (frameType = .headers))) (hmax : 4 < max)
    (hle : max ≤ 16777215) (hframe : max ≤ limits.maxFrameSize.toNat)
    (hfirst : first = true ∨ bs ≠ []) (hfuel : bs.length < fuel) :
    ∀ block, Opened limits id ends first bs.length
        (blockFrames frameType id promised endStream max fuel first bs).length block →
      Reassembles limits block
        ((blockFrames frameType id promised endStream max fuel first bs).map withLength) bs
        (promiseCalls frameType id promised first) id ends := by
  refine blockFrames_induction hmax (motive := fun first bs fs => ∀ block,
    Opened limits id ends first bs.length fs.length block → Reassembles limits block
      (fs.map withLength) bs (promiseCalls frameType id promised first) id ends)
    ?_ ?_ hfirst hfuel
  · intro first bs hlen block ho
    rw [← List.length_append] at hlen
    have ho : Opened limits id ends first (bs.length + 0) (0 + 1) block := ho
    have hone : withLength (blockHeader frameType id endStream first true,
      blockPromise frameType promised first ++ bs) = _ := rfl
    obtain ⟨next, calls, hdecode, rfl, hoctets, hmarks⟩ :=
      Opened.step ht hp hone ho hends hid hz (hlen.trans hle) (hlen.trans hframe)
    refine ⟨calls ++ [], hdecode 0 [], ?_, [], _, rfl, ?_⟩
    · rw [List.append_nil, hoctets]
    · rw [List.append_nil, hmarks]
      rfl
  · intro first piece rest fs hlen hne ih block ho
    rw [← List.length_append] at hlen
    rw [List.length_append, List.length_cons] at ho
    have hone : withLength (blockHeader frameType id endStream first false,
      blockPromise frameType promised first ++ piece) = _ := rfl
    obtain ⟨next, calls, hdecode, hnext, hoctets, hmarks⟩ :=
      Opened.step ht hp hone ho hends hid hz (hlen.le.trans hle) (hlen.le.trans hframe)
    obtain ⟨others, hothers, hrest, headers, last, hheaders, htail⟩ := ih _ hnext
    refine ⟨calls ++ others, (hdecode _ _).trans (congrArg _ hothers), ?_, _ :: headers, last,
      congrArg (_ :: ·) hheaders, ?_⟩
    · rw [List.flatMap_append, hoctets, hrest]
    · rw [List.flatMap_append, hmarks, htail]
      simp [promiseCalls]

/-- **Header blocks are split and reassembled without change.** -/
theorem encodeAndAppendHeaders_reassembled {X : Externals} {s : Session X} {frameType : FrameType}
    {id promised : ℕ} {headers : List HeaderField} {endStream : Bool} {encoder : X.Encoder}
    {bs : Bytes} (ht : frameType = .headers ∨ frameType = .pushPromise)
    (hid : id < 2 ^ 31) (hz : id ≠ 0)
    (hp : frameType = .pushPromise → promised ≠ 0 ∧ promised < 2 ^ 31)
    (hmax : 16384 ≤ s.peerMaxFrame ∧ s.peerMaxFrame ≤ 16777215) (hready : s.ready = none)
    (hroom : s.reserveOutput s.blockReserve = true)
    (henc : encodeFields X s.maxBlock headers s.encoder [] = (encoder, bs, true))
    (hfits : (bs.length : ℤ) ≤ s.maxBlock) :
    ∃ (t : Session X) (fs : List (FrameHeader × Bytes)),
      s.encodeAndAppendHeaders frameType id promised headers endStream = (t, none) ∧
      t.output = s.output ++ (fs.map octetsOf).flatten ∧
      (∀ frame ∈ fs, frame.2.length ≤ s.peerMaxFrame) ∧
      ∀ limits : Limits, s.peerMaxFrame ≤ limits.normalized.maxFrameSize.toNat →
        bs.length ≤ limits.normalized.maxHeaderBlockBytes.toNat →
        fs.length ≤ limits.normalized.maxContinuationFrames.toNat + 1 →
        let r := (newParser limits).parse (fs.map octetsOf).flatten
        r.code = .none ∧ r.calls.flatMap Callback.blockOctets = bs ∧
          ∃ headers last, fs.map Prod.fst = headers ++ [last] ∧
            r.calls.flatMap Callback.blockMarks =
              (if frameType = .pushPromise then [.pushPromise id promised] else []) ++
                (headers.map .frameComplete ++
                  [.headerBlockEnd id (endStream && decide (frameType = .headers)),
                    .frameComplete last]) := by
  have hfour : 4 < s.peerMaxFrame := by omega
  obtain ⟨fs, hfs⟩ : ∃ fs, blockFrames frameType id promised endStream s.peerMaxFrame
    (bs.length + 1) true bs = fs := ⟨_, rfl⟩
  have hoctets : frameOctets fs ≤ _ := hfs ▸ frameOctets_block hfour bs
  have hreserve := reserve_block hroom hfits hoctets
  have happend := appendFrames_ok (s := { s with encoder, headerBlock := bs }) hready hreserve
    (hfs ▸ validFrame_blockFrames ht hfour hmax.2 hid hz)
  refine ⟨(appendFrames fs { s with encoder, headerBlock := bs }).1, fs.map withLength, ?_, ?_,
    List.forall_mem_map.2 fun frame hframe => ?_, fun limits hframe hblock hcount => ?_⟩
  · have hcall : s.encodeAndAppendHeaders frameType id promised headers endStream =
        appendFrames fs { s with encoder, headerBlock := bs } := by
      rw [encodeAndAppendHeaders, hroom, henc, ← hfs]
      rfl
    rw [hcall, happend]
  · rw [happend, List.map_map, ← List.flatMap_def]
    rfl
  · exact (proper_blockFrames ht hid hz hp hfour hmax.2 frame (hfs ▸ hframe)).2
  · rw [List.length_map] at hcount
    have hends : (endStream && decide (frameType = .headers)) = _ := rfl
    have hread := reassembles_blockFrames ht hid hz hp hends hfour hmax.2 hframe (.inl rfl)
      (Nat.lt_succ_self bs.length) none
    rw [hfs] at hread
    have hpromise : promiseCalls frameType id promised true =
      if frameType = .pushPromise then [.pushPromise id promised] else [] := by simp [promiseCalls]
    rw [← hpromise]
    refine (hread ⟨rfl, nofun, ?_, ?_⟩).parse ?_
    · simpa using hblock
    · simpa using hcount
    · have hwire : ((fs.map withLength).map octetsOf).flatten.length = frameOctets fs := by
        rw [List.length_flatten, List.map_map, List.map_map]
        exact congrArg List.sum (List.map_congr_left fun frame _ => length_octetsOf _)
      have hcap := s.limits.maxQueuedOutputBytes.toNat_lt
      simp only [reserveOutput, decide_eq_true_eq] at hreserve
      omega

/-- A server promises a request, and a parser with the default limits reads the block back. -/
theorem encodeAndAppendHeaders_reassembled_push :
    ∃ s t fs, newSession SmallHpack.externals .server {} = .ok s ∧
      s.encodeAndAppendHeaders .pushPromise 1 2 SmallHpack.getRequest false = (t, none) ∧
      t.output = s.output ++ (List.map octetsOf fs).flatten ∧
      let r := (newParser {}).parse (List.map octetsOf fs).flatten
      r.code = .none ∧ r.calls.flatMap Callback.blockOctets =
          (encodeFields _ s.maxBlock SmallHpack.getRequest s.encoder []).2.1 ∧
        ∃ headers last, fs.map Prod.fst = headers ++ [last] ∧
          r.calls.flatMap Callback.blockMarks = .pushPromise 1 2 ::
            (headers.map .frameComplete ++ [.headerBlockEnd 1 false, .frameComplete last]) := by
  obtain ⟨s, hnew, hmax, hready, hroom, hok, hfits, hframe, hblock, hcount⟩ := exists_newSession
    (X := SmallHpack.externals) (r := .server) (l := {}) (p := fun s =>
      let e := encodeFields _ s.maxBlock SmallHpack.getRequest s.encoder []
      let l := ({} : Limits).normalized
      (16384 ≤ s.peerMaxFrame ∧ s.peerMaxFrame ≤ 16777215) ∧ s.ready = none ∧
        s.reserveOutput s.blockReserve = true ∧ e.2.2 = true ∧ (e.2.1.length : ℤ) ≤ s.maxBlock ∧
        s.peerMaxFrame ≤ l.maxFrameSize.toNat ∧ e.2.1.length ≤ l.maxHeaderBlockBytes.toNat ∧
        (s.encodeAndAppendHeaders .pushPromise 1 2 SmallHpack.getRequest false).1.output.length ≤
          s.output.length + l.maxContinuationFrames.toNat) (by decide +kernel)
  obtain ⟨t, fs, hcall, hwire, -, hread⟩ := encodeAndAppendHeaders_reassembled (Or.inr rfl)
    (by decide : 1 < 2 ^ 31) (by decide) (fun _ => by decide : _ → 2 ≠ 0 ∧ 2 < 2 ^ 31) hmax hready
    hroom (Prod.ext rfl (Prod.ext rfl hok)) hfits
  refine ⟨s, t, fs, hnew, hcall, hwire, hread {} hframe hblock ?_⟩
  -- A frame has an octet or more, so there are no more frames than octets.
  have hle := List.length_le_sum_of_one_le ((fs.map octetsOf).map List.length) (by
    simp only [List.forall_mem_map, length_octetsOf]
    omega)
  rw [← List.length_flatten, List.length_map, List.length_map] at hle
  rw [hcall, hwire, List.length_append] at hcount
  omega

end Session

end WagoHttp.Http2
