import WagoHttp.Http2.Session.Run
import WagoHttp.Http2.SmallHpackSync

/-!
# The header encoder and the wire

The encoder of a connection has state, so the peer has to receive every block that it has encoded.
A call that succeeds puts its block into the output as a whole. A call that fails leaves the encoder
alone in the runs in which every block that is encoded fits the limit (`EncodeCondition`). A block
that does not fit is abandoned after some of its fields have changed the table of the encoder.
-/

namespace WagoHttp.Http2

open Runs List SmallHpack

/-! ## The blocks on the wire -/

/-- Header blocks in a sequence of frames: the whole ones, and the beginning of one that has not
ended. -/
structure Blocks where
  complete : List Bytes := []
  unfinished : Option Bytes := none

namespace Blocks

/-- The next fragment. -/
def add (b : Blocks) (fragment : Bytes × Bool) : Blocks :=
  let block := b.unfinished.getD [] ++ fragment.1
  if fragment.2 then { complete := b.complete ++ [block] }
  else { b with unfinished := some block }

end Blocks

/-- The fragment that a sent frame carries, and whether it ends the block. -/
def Obs.fragment : Obs → Option (Bytes × Bool)
  | .sent header payload =>
    if header.type = .headers ∨ header.type = .continuation then
      some (payload, header.flags.has .endHeaders)
    else if header.type = .pushPromise then
      some (payload.drop 4, header.flags.has .endHeaders)
    else none
  | _ => none

/-- The blocks that have been sent. -/
def sentBlocks (history : List Obs) : Blocks := (history.filterMap Obs.fragment).foldl .add {}

theorem sentBlocks_append (history entries : List Obs) :
    sentBlocks (history ++ entries) =
      (entries.filterMap Obs.fragment).foldl .add (sentBlocks history) := by
  rw [sentBlocks, filterMap_append, foldl_append, sentBlocks]

variable {history : List Obs}

theorem fragments_concat {o : Obs} (h : o.fragment = none) :
    (history ++ [o]).filterMap Obs.fragment = history.filterMap Obs.fragment := by
  simp [h]

theorem sentBlocks_concat {o : Obs} (h : o.fragment = none) :
    sentBlocks (history ++ [o]) = sentBlocks history := by
  rw [sentBlocks, fragments_concat h, sentBlocks]

namespace Session

open Endpoint

variable {X : Externals} {a : Action} {s s' s'' : Session X}

/-- The size of the frames that the peer takes is within the bounds of the protocol. -/
def FrameRange (s : Session X) : Prop := 16384 ≤ s.peerMaxFrame ∧ s.peerMaxFrame ≤ 16777215

theorem FrameRange.lt (h : s.FrameRange) : 4 < s.peerMaxFrame := lt_of_lt_of_le (by decide) h.1

/-! ## The frames of a block -/

/-- The entry of a frame that has been appended. -/
def sentEntry (frame : FrameHeader × Bytes) : Obs :=
  .sent { frame.1 with length := frame.2.length } frame.2

section Frames

variable {frameType : FrameType} {streamID promisedID peerMaxFrame : ℕ} {endStream : Bool}

theorem length_blockPromise (frameType : FrameType) (promisedID : ℕ) (first : Bool) :
    (blockPromise frameType promisedID first).length ≤ 4 := by
  unfold blockPromise
  split_ifs <;> simp

theorem has_blockFlags (frameType : FrameType) (endStream first last : Bool) :
    (blockFlags frameType endStream first last).has .endHeaders = last ∧
      (blockFlags frameType endStream first last).has .padded = false ∧
      (blockFlags frameType endStream first last).has .priority = false := by
  unfold blockFlags
  cases last
  · rw [if_neg Bool.false_ne_true]
    split_ifs <;> decide
  · rw [if_pos rfl]
    split_ifs <;> decide

theorem blockFrames_nil (fuel : ℕ) :
    blockFrames frameType streamID promisedID endStream peerMaxFrame fuel false [] = [] := by
  cases fuel <;> simp [blockFrames]

variable {first last : Bool} {block : Bytes}

/-- The frames of a block are its last frame alone, or a frame of full length and the frames of the
rest. -/
theorem blockFrames_induction (hmax : 4 < peerMaxFrame)
    {motive : Bool → Bytes → List (FrameHeader × Bytes) → Prop} (last : ∀ first block,
      (blockPromise frameType promisedID first).length + block.length ≤ peerMaxFrame →
        motive first block [(blockHeader frameType streamID endStream first true,
          blockPromise frameType promisedID first ++ block)]) (more : ∀ first piece rest frames,
      (blockPromise frameType promisedID first).length + piece.length = peerMaxFrame → rest ≠ [] →
        motive false rest frames →
          motive first (piece ++ rest) ((blockHeader frameType streamID endStream first false,
            blockPromise frameType promisedID first ++ piece) :: frames)) {fuel : ℕ}
    (hfirst : first = true ∨ block ≠ []) (hfuel : block.length < fuel) :
    motive first block
      (blockFrames frameType streamID promisedID endStream peerMaxFrame fuel first block) := by
  induction fuel generalizing first block with
  | zero => omega
  | succ fuel ih =>
    have hlen := length_blockPromise frameType promisedID first
    have hone := last first block
    have hmore := more first
    rw [blockFrames, if_pos hfirst]
    generalize blockPromise frameType promisedID first = promise at hlen hone hmore
    rcases le_or_gt block.length (peerMaxFrame - promise.length) with hle | hgt
    · simp only [min_eq_left hle, drop_length, take_length, blockFrames_nil, beq_self_eq_true]
      exact hone (by omega)
    · simp only [min_eq_right hgt.le, beq_eq_false_iff_ne.2 hgt.ne]
      have hrest : block.drop (peerMaxFrame - promise.length) ≠ [] := by
        rw [ne_eq, drop_eq_nil_iff]
        omega
      have hpiece : promise.length + (block.take (peerMaxFrame - promise.length)).length =
          peerMaxFrame := by
        rw [length_take]
        omega
      have hall := hmore _ _ _ hpiece hrest (ih (.inr hrest) (by rw [length_drop]; omega))
      rwa [take_append_drop] at hall

/-- The fragment of a frame of a block. -/
theorem fragment_sentEntry (ht : frameType.beginsBlock) {fragment : Bytes} :
    (sentEntry (blockHeader frameType streamID endStream first last,
      blockPromise frameType promisedID first ++ fragment)).fragment = some (fragment, last) := by
  have hend := (has_blockFlags frameType endStream first last).1
  cases first with
  | false => simp [sentEntry, Obs.fragment, blockPromise, blockHeader, hend]
  | true =>
    have hne : FrameType.headers ≠ .pushPromise := by decide
    have hne' : FrameType.pushPromise ≠ .continuation := by decide
    rcases ht with rfl | rfl
    · simp [sentEntry, Obs.fragment, blockPromise, blockHeader, hend, hne]
    · simp [sentEntry, Obs.fragment, blockPromise, blockHeader, hend, hne.symm, hne',
        drop_append]

/-- **The frames of a block carry the block.** -/
theorem foldl_blockFrames (ht : frameType.beginsBlock)
    (hmax : 4 < peerMaxFrame) (block : Bytes) (b : Blocks) :
    (((blockFrames frameType streamID promisedID endStream peerMaxFrame (block.length + 1) true
      block).map sentEntry).filterMap Obs.fragment).foldl .add b =
        { complete := b.complete ++ [b.unfinished.getD [] ++ block] } := by
  refine blockFrames_induction (motive := fun _ block frames => ∀ b,
    ((frames.map sentEntry).filterMap Obs.fragment).foldl .add b =
      { complete := b.complete ++ [b.unfinished.getD [] ++ block] }) hmax ?_ ?_
    (.inl rfl) (Nat.lt_succ_self _) b
  · intro first block _ b
    rw [map_singleton, filterMap_cons, fragment_sentEntry ht]
    rfl
  · intro first piece rest frames _ _ ih b
    rw [map_cons, filterMap_cons, fragment_sentEntry ht, foldl_cons, ih]
    simp [Blocks.add]

/-- The octets of frames. -/
def frameOctets (frames : List (FrameHeader × Bytes)) : ℕ :=
  (frames.map fun frame => 9 + frame.2.length).sum

theorem frameOctets_cons (frame : FrameHeader × Bytes) (frames : List (FrameHeader × Bytes)) :
    frameOctets (frame :: frames) = 9 + frame.2.length + frameOctets frames := by
  simp [frameOctets]

/-- The octets of the frames of a block, which with its promise has `n` octets. -/
theorem frameOctets_le (hmax : 4 < peerMaxFrame) {n : ℕ}
    (hn : n = (blockPromise frameType promisedID true).length + block.length) :
    frameOctets (blockFrames frameType streamID promisedID endStream peerMaxFrame
      (block.length + 1) true block) ≤ n + 9 * (n / peerMaxFrame + 1) := by
  refine blockFrames_induction (motive := fun first block frames => ∀ n,
    n = (blockPromise frameType promisedID first).length + block.length →
      frameOctets frames ≤ n + 9 * (n / peerMaxFrame + 1)) hmax ?_ ?_ (.inl rfl)
    (Nat.lt_succ_self _) n hn
  · intro first block _ n hn
    rw [frameOctets_cons, length_append, ← hn]
    generalize n / peerMaxFrame = q
    simp only [frameOctets, map_nil, sum_nil]
    omega
  · intro first piece rest frames hpiece _ ih n hn
    have hrest := ih rest.length (Nat.zero_add _).symm
    have hn' : n = peerMaxFrame + rest.length := by
      rw [hn, length_append, ← Nat.add_assoc, hpiece]
    rw [frameOctets_cons, length_append, hpiece, hn', Nat.add_div_left _ (by omega)]
    omega

/-- **The reserve of a block is enough for its frames.** -/
theorem frameOctets_block (hmax : 4 < peerMaxFrame) (block : Bytes) :
    frameOctets (blockFrames frameType streamID promisedID endStream peerMaxFrame
      (block.length + 1) true block) ≤
        block.length + (block.length / peerMaxFrame + 2) * 9 + 4 := by
  have hlen := length_blockPromise frameType promisedID true
  refine (frameOctets_le hmax rfl).trans ?_
  have hdiv : ((blockPromise frameType promisedID true).length + block.length) / peerMaxFrame ≤
      block.length / peerMaxFrame + 1 := by
    rw [← Nat.add_div_right _ (by omega)]
    exact Nat.div_le_div_right (by omega)
  omega

/-- A frame that can be appended to the output. -/
structure ValidFrame (frame : FrameHeader × Bytes) : Prop where
  size : frame.2.length ≤ maxFrameSize.toNat
  length : frame.1.length = 0
  id : frame.1.streamID < 2 ^ 31
  valid : validateFrameHeader { frame.1 with length := frame.2.length } = .none

theorem validateFrameHeader_block {header : FrameHeader}
    (ht : header.type = .headers ∨ header.type = .pushPromise ∨ header.type = .continuation)
    (hz : header.streamID ≠ 0) (hpad : header.flags.has .padded = false)
    (hprio : header.flags.has .priority = false)
    (hlen : header.type = .pushPromise → 4 ≤ header.length) :
    validateFrameHeader header = .none := by
  unfold validateFrameHeader
  rcases ht with ht | ht | ht
  · simp [ht, hz, hpad, hprio, FrameType.data, FrameType.headers, FrameType.settings,
      FrameType.ping, FrameType.goAway]
  · simp [ht, hz, hpad, hlen ht, FrameType.data, FrameType.headers, FrameType.priority,
      FrameType.rstStream, FrameType.settings, FrameType.pushPromise, FrameType.ping,
      FrameType.goAway]
  · simp [ht, hz, FrameType.continuation, FrameType.data, FrameType.headers, FrameType.priority,
      FrameType.rstStream, FrameType.settings, FrameType.pushPromise, FrameType.ping,
      FrameType.goAway, FrameType.windowUpdate]

theorem length_blockFrame (hmax : 4 < peerMaxFrame) {fragment : Bytes}
    (h : fragment.length ≤ peerMaxFrame - (blockPromise frameType promisedID first).length) :
    (blockPromise frameType promisedID first ++ fragment).length ≤ peerMaxFrame := by
  have hlen := length_blockPromise frameType promisedID first
  rw [length_append]
  omega

theorem validFrame_blockFrame (ht : frameType.beginsBlock)
    (hid : streamID < 2 ^ 31) (hz : streamID ≠ 0) {fragment : Bytes}
    (hlen : (blockPromise frameType promisedID first ++ fragment).length ≤ 16777215) :
    ValidFrame (blockHeader frameType streamID endStream first last,
      blockPromise frameType promisedID first ++ fragment) := by
  obtain ⟨-, hpad, hprio⟩ := has_blockFlags frameType endStream first last
  have hcarries : (blockHeader frameType streamID endStream first last).carriesBlock :=
    type_blockHeader ht
  refine ⟨hlen, rfl, hid, validateFrameHeader_block hcarries hz hpad hprio ?_⟩
  intro hpush
  cases first with
  | false =>
    have hpush : FrameType.continuation = .pushPromise := hpush
    exact absurd hpush (by decide)
  | true =>
    have hpush : frameType = .pushPromise := hpush
    simp [blockPromise, hpush]

theorem validFrame_blockFrames (ht : frameType.beginsBlock)
    (hmax : 4 < peerMaxFrame) (hle : peerMaxFrame ≤ 16777215) (hid : streamID < 2 ^ 31)
    (hz : streamID ≠ 0) {fuel : ℕ} :
    ∀ frame ∈ blockFrames frameType streamID promisedID endStream peerMaxFrame fuel first block,
      ValidFrame frame := by
  intro frame hframe
  obtain ⟨first, last, fragment, -, hfragment, rfl⟩ := mem_blockFrames hframe
  exact validFrame_blockFrame ht hid hz ((length_blockFrame hmax hfragment).trans hle)

end Frames

variable {frames : List (FrameHeader × Bytes)} {block : Bytes} {headers : List HeaderField}
  {r : Session X × Option SessionError} {header : FrameHeader} {e₀ e e' : Endpoint X}
  {err : Option SessionError} {id : ℕ} {st : Stream}

/-- The session after frames have been appended to its output. -/
def appendedAll (s : Session X) (frames : List (FrameHeader × Bytes)) : Session X :=
  { s with
    output := s.output ++ frames.flatMap fun frame =>
      frameHeaderBytes { frame.1 with length := frame.2.length } ++ frame.2
    history := s.history ++ frames.map sentEntry }

/-- Valid frames for which there is room are all appended. -/
theorem appendFrames_ok (hready : s.ready = none)
    (hroom : s.reserveOutput (frameOctets frames) = true)
    (hvalid : ∀ frame ∈ frames, ValidFrame frame) :
    appendFrames frames s = (s.appendedAll frames, none) := by
  induction frames generalizing s with
  | nil => simp [appendFrames, appendedAll]
  | cons frame frames ih =>
    obtain ⟨header, payload⟩ := frame
    obtain ⟨hframe, hvalid⟩ := forall_mem_cons.1 hvalid
    rw [frameOctets_cons] at hroom
    have happend := appendFrameEvenFailed_ok header payload
      (reserveOutput_mono hroom (by positivity) (by push_cast; omega)) hframe.size hframe.length
      (Nat.le_of_lt_succ hframe.id) hframe.valid
    simp only [appendFrames, appendFrame, hready, happend]
    rw [ih (by exact hready) ?_ hvalid]
    · simp [appendedAll, appended, note, sentEntry]
    · have hnine (h : FrameHeader) : (frameHeaderBytes h).length = 9 := rfl
      simp only [reserveOutput, decide_eq_true_eq, appended, note, length_append, hnine] at hroom ⊢
      push_cast at hroom ⊢
      omega

/-! ## Encoding -/

/-- The fields of a block that fits are all encoded. -/
theorem encodeFields_eq {limit : ℤ} {fields : List HeaderField} {encoder : X.Encoder}
    (h : fields = [] ∨ (block.length + (X.encodeBlock fields encoder).2.length : ℤ) ≤ limit) :
    encodeFields X limit fields encoder block =
      ((X.encodeBlock fields encoder).1, block ++ (X.encodeBlock fields encoder).2, true) := by
  induction fields generalizing encoder block with
  | nil => simp [encodeFields, Externals.encodeBlock]
  | cons field fields ih =>
    have h := h.resolve_left (cons_ne_nil _ _)
    rw [X.encodeBlock_cons] at h ⊢
    rw [encodeFields]
    generalize X.writeField field encoder = w at h ⊢
    obtain ⟨encoder', src⟩ := w
    simp only [length_append] at h ⊢
    push_cast at h
    rw [if_neg (by omega), ih (.inr (by push_cast [length_append]; omega)),
      append_assoc]

/-- A block that has been encoded fits the limit, unless it is of no field. -/
theorem encodeFields_ok {limit : ℤ} {fields : List HeaderField} {encoder e : X.Encoder} {b : Bytes}
    (h : encodeFields X limit fields encoder block = (e, b, true)) :
    e = (X.encodeBlock fields encoder).1 ∧ b = block ++ (X.encodeBlock fields encoder).2 ∧
      (fields = [] ∨ (b.length : ℤ) ≤ limit) := by
  induction fields generalizing encoder block with
  | nil =>
    cases h
    exact ⟨rfl, (append_nil _).symm, .inl rfl⟩
  | cons field fields ih =>
    rw [encodeFields] at h
    rw [X.encodeBlock_cons]
    generalize X.writeField field encoder = w at h ⊢
    obtain ⟨encoder', src⟩ := w
    simp only at h ⊢
    split at h
    · cases h
    · next hle =>
      obtain ⟨he, hb, hlen⟩ := ih h
      refine ⟨he, hb.trans (append_assoc ..), .inr ?_⟩
      rcases hlen with rfl | hlen
      · cases h
        push_cast [length_append]
        omega
      · exact hlen

/-- A section can be encoded: when there is room for a block, its block fits the limit. -/
def BlockFits (s : Session X) (headers : List HeaderField) : Prop :=
  s.reserveOutput s.blockReserve = true →
    headers = [] ∨ ((X.encodeBlock headers s.encoder).2.length : ℤ) ≤ s.maxBlock

/-- A call that has sent nothing: the encoder is as it was, if the session can still send. -/
structure Unsent (s s' : Session X) : Prop where
  blocks : sentBlocks s'.history = sentBlocks s.history
  encoder : s.ready = none → s'.encoder = s.encoder

/-- A call that has sent a section as one block. -/
structure Sent (headers : List HeaderField) (s s' : Session X) : Prop where
  ready : s.ready = none
  blocks : (sentBlocks s.history).unfinished = none → sentBlocks s'.history =
    { complete := (sentBlocks s.history).complete ++ [(X.encodeBlock headers s.encoder).2] }
  encoder : s'.encoder = (X.encodeBlock headers s.encoder).1

/-- What an attempt to send a section comes to. -/
def Attempt (headers : List HeaderField) (s : Session X) (r : Session X × Option SessionError) :
    Prop :=
  match r.2 with
  | none => Sent headers s r.1
  | some _ => Unsent s r.1

/-- The frames of a block, when the session has failed or is closed. -/
theorem appendFrames_not_ready (hready : s.ready ≠ none) (hne : frames ≠ []) :
    ∃ err, appendFrames frames s = (s, some err) := by
  obtain ⟨err, herr⟩ := Option.ne_none_iff_exists'.1 hready
  obtain ⟨frame, frames, rfl⟩ := exists_cons_of_ne_nil hne
  exact ⟨err, by simp [appendFrames, appendFrame, herr]⟩

/-- A frame for which there is no room. -/
theorem appendFrames_full {frame : FrameHeader × Bytes} (hready : s.ready = none)
    (hroom : ¬s.reserveOutput (frameOctets [frame]) = true) :
    appendFrames [frame] s = (s, some .outputLimit) := by
  have h : s.reserveOutput (9 + frame.2.length) = false := by simpa [frameOctets] using hroom
  simp [appendFrames, appendFrame, hready, appendFrameEvenFailed, h]

theorem blockFrames_ne_nil {frameType : FrameType} {streamID promisedID peerMaxFrame fuel : ℕ}
    {endStream : Bool} :
    blockFrames frameType streamID promisedID endStream peerMaxFrame
    (fuel + 1) true block ≠ [] := by
  simp [blockFrames]

/-- The reserve is enough for the frames of a block that is not empty. -/
theorem reserve_block (hroom : s.reserveOutput s.blockReserve = true)
    (hfits : (block.length : ℤ) ≤ s.maxBlock)
    (hoctets : frameOctets frames ≤ block.length + (block.length / s.peerMaxFrame + 2) * 9 + 4) :
    s.reserveOutput (frameOctets frames) = true := by
  obtain ⟨limit, hlimit⟩ := Int.eq_ofNat_of_zero_le (le_trans (Int.natCast_nonneg _) hfits)
  have hle : block.length ≤ limit := by omega
  have hdiv := Nat.div_le_div_right (c := s.peerMaxFrame) hle
  refine reserveOutput_mono hroom (by positivity) ?_
  unfold blockReserve
  rw [hlimit, ← Int.ofNat_tdiv]
  generalize block.length / s.peerMaxFrame = m at hoctets hdiv
  generalize limit / s.peerMaxFrame = n at hdiv ⊢
  omega

/-- The entries of the frames of a block. -/
theorem sentBlocks_blockFrames {frameType : FrameType} {streamID promisedID peerMaxFrame : ℕ}
    {endStream : Bool} {history : List Obs} (ht : frameType.beginsBlock)
    (hmax : 4 < peerMaxFrame) (h : (sentBlocks history).unfinished = none) :
    sentBlocks (history ++ (blockFrames frameType streamID promisedID endStream peerMaxFrame
      (block.length + 1) true block).map sentEntry) =
        { complete := (sentBlocks history).complete ++ [block] } := by
  rw [sentBlocks_append, foldl_blockFrames ht hmax, h]
  rfl

/-- The frames of a section that is sent. -/
def sectionFrames (s : Session X) (frameType : FrameType) (streamID promisedID : ℕ)
    (headers : List HeaderField) (endStream : Bool) : List (FrameHeader × Bytes) :=
  blockFrames frameType streamID promisedID endStream s.peerMaxFrame
    ((X.encodeBlock headers s.encoder).2.length + 1) true (X.encodeBlock headers s.encoder).2

/-- The session after a section has been encoded and sent. -/
def sentSection (s : Session X) (frameType : FrameType) (streamID promisedID : ℕ)
    (headers : List HeaderField) (endStream : Bool) : Session X :=
  { s with
    encoder := (X.encodeBlock headers s.encoder).1
    headerBlock := (X.encodeBlock headers s.encoder).2 }.appendedAll
      (s.sectionFrames frameType streamID promisedID headers endStream)

/-- **A block is sent as a whole or not at all.** A section that fits is not sent only if it is
empty or the session is not ready. -/
theorem encodeAndAppendHeaders_cases {frameType : FrameType} {streamID : ℕ} (promisedID : ℕ)
    (headers : List HeaderField) (endStream : Bool) (ht : frameType.beginsBlock)
    (hmax : s.FrameRange) (hid : streamID < 2 ^ 31) (hz : streamID ≠ 0) :
    (∃ encoder block err, s.encodeAndAppendHeaders frameType streamID promisedID headers endStream =
        ({ s with encoder, headerBlock := block }, some err) ∧
      (s.ready = none → s.BlockFits headers → encoder = s.encoder)) ∨
    s.ready = none ∧ s.reserveOutput (frameOctets
        (s.sectionFrames frameType streamID promisedID headers endStream)) = true ∧
      s.encodeAndAppendHeaders frameType streamID promisedID headers endStream =
        (s.sentSection frameType streamID promisedID headers endStream, none) := by
  have hfour := hmax.lt
  unfold encodeAndAppendHeaders
  split
  · exact .inl ⟨s.encoder, s.headerBlock, _, rfl, fun _ _ => rfl⟩
  next hroom =>
  have hroom : s.reserveOutput s.blockReserve = true := by simpa using hroom
  generalize henc : encodeFields X s.maxBlock headers s.encoder [] = r
  obtain ⟨encoder, block, _ | _⟩ := r
  · refine .inl ⟨encoder, block, _, rfl, fun _ hfits => ?_⟩
    rw [encodeFields_eq (by simpa using hfits hroom)] at henc
    cases henc
  obtain ⟨rfl, rfl, hfits⟩ := encodeFields_ok henc
  by_cases hready : s.ready = none
  · by_cases hfit : s.reserveOutput (frameOctets
        (s.sectionFrames frameType streamID promisedID headers endStream)) = true
    · exact .inr ⟨hready, hfit, appendFrames_ok (by exact hready) hfit
        (validFrame_blockFrames ht hfour hmax.2 hid hz)⟩
    rcases hfits with rfl | hfits
    · -- an empty section is one frame, and the encoder has not been used
      obtain ⟨frame, hframe⟩ : ∃ frame,
          s.sectionFrames frameType streamID promisedID [] endStream = [frame] := by
        simp [sectionFrames, blockFrames, Externals.encodeBlock]
      rw [hframe] at hfit
      refine .inl ⟨s.encoder, [], .outputLimit, ?_, fun _ _ => rfl⟩
      change appendFrames (s.sectionFrames frameType streamID promisedID [] endStream) _ = _
      rw [hframe]
      exact appendFrames_full (s := { s with headerBlock := [] }) hready hfit
    · exact absurd (reserve_block hroom hfits (frameOctets_block hfour _)) hfit
  · obtain ⟨err, h⟩ := appendFrames_not_ready (s := { s with
        encoder := (X.encodeBlock headers s.encoder).1
        headerBlock := (X.encodeBlock headers s.encoder).2 }) (by exact hready)
      (show s.sectionFrames frameType streamID promisedID headers endStream ≠ [] from
        blockFrames_ne_nil)
    exact .inl ⟨_, _, err, h, fun h => absurd h hready⟩

theorem attempt_encodeAndAppendHeaders {frameType : FrameType} {streamID promisedID : ℕ}
    {endStream : Bool} (ht : frameType.beginsBlock) (hmax : s.FrameRange) (hid : streamID < 2 ^ 31)
    (hz : streamID ≠ 0) (hfits : s.ready = none → s.BlockFits headers) :
    Attempt headers s (s.encodeAndAppendHeaders frameType streamID promisedID headers endStream) := by
  obtain ⟨encoder, block, err, h, henc⟩ | ⟨hready, -, h⟩ :=
    encodeAndAppendHeaders_cases promisedID headers endStream ht hmax hid hz
  · rw [h]
    exact ⟨rfl, fun hready => henc hready (hfits hready)⟩
  · rw [h]
    exact ⟨hready, fun hu => sentBlocks_blockFrames ht hmax.lt hu, rfl⟩

/-! ## Calls -/

/-- What neither encodes nor sends a block. -/
structure Quiet (s s' : Session X) : Prop where
  blocks : sentBlocks s'.history = sentBlocks s.history
  encoder : s'.encoder = s.encoder

theorem fragment_sent {payload : Bytes} (h : ¬header.carriesBlock) :
    (Obs.sent header payload).fragment = none := by
  simp only [FrameHeader.carriesBlock, not_or] at h
  simp [Obs.fragment, h]

theorem not_carriesBlock_of_type {type : FrameType} (h : header.type = type)
    (ht : type ≠ .headers ∧ type ≠ .pushPromise ∧ type ≠ .continuation) :
    ¬header.carriesBlock := by
  simp [FrameHeader.carriesBlock, h, ht]

/-- Entries of actions that send no block. -/
theorem fragment_of_noted {o : Obs} (ha : ¬a.sendsBlock) (h : Noted a e₀ e o) :
    o.fragment = none := by
  cases o with
  | sent header payload =>
    refine fragment_sent ?_
    rcases h with (h | h | h | h) | ⟨-, hb⟩ | ⟨h, -⟩ | ⟨h, -⟩
    · exact not_carriesBlock_of_type h (by decide)
    · exact not_carriesBlock_of_type h (by decide)
    · exact not_carriesBlock_of_type h (by decide)
    · exact not_carriesBlock_of_type h (by decide)
    · exact absurd hb ha
    · exact not_carriesBlock_of_type h (by decide)
    · exact not_carriesBlock_of_type h (by decide)
  | _ => rfl

/-- Actions that send no block leave the fragments alone. -/
theorem fragments_step (ha : ¬a.sendsBlock) (hs : Step a e₀ e e') :
    e'.history.filterMap Obs.fragment = e.history.filterMap Obs.fragment := by
  cases hs with
  | note ho => exact fragments_concat (fragment_of_noted ha ho)
  | sendData _ _ _ _ _ _ ht =>
    exact fragments_concat (fragment_sent (not_carriesBlock_of_type ht (by decide)))
  | goAway ht =>
    exact fragments_concat (fragment_sent (not_carriesBlock_of_type ht (by decide)))
  | failRaise => exact (fragments_concat rfl).trans (fragments_concat rfl)
  | openPeer | openLocal | raise | raiseStream | overflow | fail | failAdjusted =>
    exact fragments_concat rfl
  | _ => rfl

theorem quiet_step (ha : ¬a.sendsBlock) (hs : Step a e₀ e e') :
    sentBlocks e'.history = sentBlocks e.history := by
  rw [sentBlocks, fragments_step ha hs, sentBlocks]

/-- What an action that neither sends blocks nor applies settings can do. -/
theorem quiet_of_reaches (ha : ¬a.sendsBlock) (ha' : ¬a.appliesSettings) (h : Reaches a e₀ s s') :
    Quiet s s' := by
  have key := h.invariant (I := fun e => sentBlocks e.history = sentBlocks s.history ∧
    e.encoder = s.encoder) (fun hs he => ⟨(quiet_step ha hs).trans he.1, ?_⟩) ⟨rfl, rfl⟩
  · exact ⟨key.1, key.2⟩
  · cases hs with
    | encoder hb => exact absurd hb ha
    | resize hb => exact absurd hb ha'
    | _ => exact he.2

theorem Attempt.quiet (h : Attempt headers s (s', err)) (hq : Quiet s' s'') :
    Attempt headers s (s'', err) := by
  cases err with
  | none =>
    exact ⟨h.ready, fun hu => hq.blocks.trans (h.blocks hu), hq.encoder.trans h.encoder⟩
  | some err =>
    exact ⟨hq.blocks.trans h.blocks, fun hr => hq.encoder.trans (h.encoder hr)⟩

/-- An attempt after a change that the encoder does not see. -/
theorem Attempt.after (hq : Quiet s s') (hready : s'.ready = s.ready) (h : Attempt headers s' r) :
    Attempt headers s r := by
  obtain ⟨t, err⟩ := r
  cases err with
  | none =>
    refine ⟨hready.symm.trans h.ready, fun hu => ?_, ?_⟩
    · rw [h.blocks (hq.blocks ▸ hu), hq.blocks, hq.encoder]
    · rw [h.encoder, hq.encoder]
  | some err =>
    exact ⟨h.blocks.trans hq.blocks, fun hr => (h.encoder (hready.trans hr)).trans hq.encoder⟩

/-- The check before a section is sent covers the check after it. -/
theorem length_of_checkSendHeaders (h : s.checkSendHeaders id headers true = .ok st) :
    ¬((Stream.sendSection st (inspectHeaderSection headers)).sendHasLength &&
      !(Stream.sendSection st (inspectHeaderSection headers)).sendNoBody &&
      (Stream.sendSection st (inspectHeaderSection headers)).sendLength !=
        (Stream.sendSection st (inspectHeaderSection headers)).sendBody) = true := by
  unfold checkSendHeaders at h
  split at h
  · cases h
  split at h
  · cases h
  next st' _ =>
  simp only at h
  split_ifs at h with _ _ _ hinfo _ hlength
  obtain rfl : st' = st := Except.ok.inj h
  generalize inspectHeaderSection headers = m at hinfo hlength ⊢
  have hinfo : m.informational = false := by simpa using hinfo
  have hfields : (Stream.sendSection st' m).sendHasLength = m.hasContentLength ∧
      (Stream.sendSection st' m).sendNoBody =
        (m.noBody || (st'.method == ascii "HEAD" && m.response)) ∧
      (Stream.sendSection st' m).sendLength = m.contentLength ∧
      (Stream.sendSection st' m).sendBody = st'.sendBody := by
    unfold Stream.sendSection
    simp only [hinfo, Bool.not_false, if_true]
    split_ifs <;> exact ⟨rfl, rfl, rfl, rfl⟩
  rw [hfields.1, hfields.2.1, hfields.2.2.1, hfields.2.2.2]
  simpa using hlength

/-- A section is sent on a stream, or the stream is left alone. -/
theorem sendHeaders_cases (headers : List HeaderField) (endStream : Bool) (hmax : s.FrameRange)
    (hids : ∀ st, s.stream? id = some st → id < 2 ^ 31 ∧ id ≠ 0) :
    (∃ encoder block err, s.sendHeaders id headers endStream =
        ({ s with encoder, headerBlock := block }, some err) ∧
      (s.ready = none → (∀ st, s.checkSendHeaders id headers endStream = .ok st →
        s.BlockFits headers) → encoder = s.encoder)) ∨
    s.ready = none ∧ s.reserveOutput (frameOctets
        (s.sectionFrames .headers id 0 headers endStream)) = true ∧
      ∃ st, s.checkSendHeaders id headers endStream = .ok st ∧
        s.sendHeaders id headers endStream =
          (let t := (s.sentSection .headers id 0 headers endStream).setStream id
            (Stream.sendSection st (inspectHeaderSection headers))
          (if endStream then t.localEnd id else t, none)) := by
  unfold sendHeaders
  split
  · exact .inl ⟨s.encoder, s.headerBlock, _, rfl, fun _ _ => rfl⟩
  next st hcheck =>
  obtain ⟨hlt, hz⟩ := hids st (checkSendHeaders_ok hcheck).1
  obtain ⟨encoder, block, err, h, henc⟩ | ⟨hready, hroom, h⟩ :=
    encodeAndAppendHeaders_cases 0 headers endStream (.inl rfl) hmax hlt hz
  · rw [h]
    exact .inl ⟨encoder, block, err, rfl, fun hready hfits => henc hready (hfits st hcheck)⟩
  · rw [h]
    refine .inr ⟨hready, hroom, st, hcheck, ?_⟩
    cases endStream with
    | false => rfl
    | true =>
      simp only [if_true]
      rw [if_neg (length_of_checkSendHeaders hcheck)]

theorem attempt_sendHeaders {endStream : Bool} (hmax : s.FrameRange)
    (hid : ∀ st, s.stream? id = some st → id < 2 ^ 31 ∧ id ≠ 0)
    (hfits : ∀ st, s.checkSendHeaders id headers endStream = .ok st → s.BlockFits headers) :
    Attempt headers s (s.sendHeaders id headers endStream) := by
  obtain ⟨encoder, block, err, h, henc⟩ | ⟨hready, -, st, -, h⟩ :=
    sendHeaders_cases headers endStream hmax hid
  · rw [h]
    exact ⟨rfl, fun hready => henc hready hfits⟩
  rw [h]
  have hsent : Attempt headers s ((s.sentSection .headers id 0 headers endStream).setStream id
      (Stream.sendSection st (inspectHeaderSection headers)), none) :=
    ⟨hready, fun hu => sentBlocks_blockFrames (.inl rfl) hmax.lt hu, rfl⟩
  cases endStream with
  | false => exact hsent
  | true =>
    have hend : Reaches .preface s.endpoint _ _ := reaches_localEnd
      ((s.sentSection .headers id 0 headers true).setStream id
        (Stream.sendSection st (inspectHeaderSection headers))) id
    exact hsent.quiet (quiet_of_reaches (a := .preface) (fun h => h) (fun h => h) hend)

theorem validate_of_checkSendHeaders {endStream : Bool}
    (h : s.checkSendHeaders id headers endStream = .ok st) :
    validateHeaderSection s.role true st.sentHeaders headers s.limits.enableExtendedConnect = true := by
  unfold checkSendHeaders at h
  split at h
  · cases h
  split at h
  · cases h
  next st' _ =>
  simp only at h
  split_ifs at h with _ _ hvalid
  obtain rfl : st' = st := Except.ok.inj h
  simpa using hvalid

/-- The error that a call returns, if it returns one. -/
def errorOf {α : Type} : Except SessionError α → Option SessionError
  | .ok _ => none
  | .error err => some err

theorem attempt_openStream {endStream : Bool} (hids : s.endpoint.IdSpace) (hmax : s.FrameRange)
    (hfits : validateHeaderSection s.role true false headers s.limits.enableExtendedConnect = true →
      s.BlockFits headers) :
    Attempt headers s ((s.openStream headers endStream).1,
      errorOf (s.openStream headers endStream).2) := by
  unfold openStream
  simp only
  split_ifs with _ _ hlt
  · exact ⟨rfl, fun _ => rfl⟩
  · exact ⟨rfl, fun _ => rfl⟩
  · exact ⟨rfl, fun _ => rfl⟩
  · exact ⟨rfl, fun _ => rfl⟩
  · exact ⟨rfl, fun _ => rfl⟩
  have hspec : Attempt headers s.addLocal
      (s.addLocal.sendHeaders s.nextLocalStream headers endStream) := by
    refine attempt_sendHeaders hmax
      (fun _ _ => ⟨lt_of_not_exhausted hlt, hids.next_pos.ne'⟩) fun st hcheck => ?_
    have hst : s.addLocal.stream? s.nextLocalStream = some (s.freshStream .open true) := by
      simp [addLocal, addStream, stream?, setStream, note]
    have hvalid := validate_of_checkSendHeaders hcheck
    rw [← Option.some.inj (hst.symm.trans (checkSendHeaders_ok hcheck).1)] at hvalid
    exact hfits hvalid
  have hquiet : Quiet s s.addLocal := ⟨sentBlocks_concat rfl, rfl⟩
  have hspec := hspec.after hquiet rfl
  generalize s.addLocal.sendHeaders s.nextLocalStream headers endStream = w at hspec
  obtain ⟨t, _ | err⟩ := w
  · exact hspec
  · exact hspec.quiet ⟨rfl, rfl⟩

theorem attempt_pushPromise {parent : ℕ}
    (hids : ∀ st, s.stream? parent = some st → parent < 2 ^ 31 ∧ parent ≠ 0) (hmax : s.FrameRange)
    (hfits : validateHeaderSection .client true false headers s.limits.enableExtendedConnect = true →
      s.BlockFits headers) :
    Attempt headers s ((s.pushPromise parent headers).1,
      errorOf (s.pushPromise parent headers).2) := by
  unfold pushPromise
  simp only
  split_ifs with _ hparent _ _ _ hvalid
  · exact ⟨rfl, fun _ => rfl⟩
  · exact ⟨rfl, fun _ => rfl⟩
  · exact ⟨rfl, fun _ => rfl⟩
  · exact ⟨rfl, fun _ => rfl⟩
  · exact ⟨rfl, fun _ => rfl⟩
  · exact ⟨rfl, fun _ => rfl⟩
  obtain ⟨st, hst⟩ : ∃ st, s.stream? parent = some st := by
    cases h : s.stream? parent with
    | none => simp [h] at hparent
    | some st => exact ⟨st, rfl⟩
  have hspec : Attempt headers { s with nextLocalStream := s.nextLocalStream + 2 }
      (encodeAndAppendHeaders { s with nextLocalStream := s.nextLocalStream + 2 } .pushPromise
        parent s.nextLocalStream headers false) :=
    attempt_encodeAndAppendHeaders (.inr rfl) hmax (hids st hst).1 (hids st hst).2
      fun _ => hfits (by simpa using hvalid)
  have hquiet : Quiet s { s with nextLocalStream := s.nextLocalStream + 2 } := ⟨rfl, rfl⟩
  have hspec := hspec.after hquiet rfl
  generalize encodeAndAppendHeaders { s with nextLocalStream := s.nextLocalStream + 2 }
    .pushPromise parent s.nextLocalStream headers false = w at hspec
  obtain ⟨t, _ | err⟩ := w
  · exact hspec.quiet ⟨sentBlocks_concat rfl, rfl⟩
  · exact hspec

/-- The section that a call sends, and the error that it returns. -/
def sendAttempt (s : Session X) : Call → Option (List HeaderField × Option SessionError)
  | .openStream headers endStream => some (headers, errorOf (s.openStream headers endStream).2)
  | .pushPromise parent headers => some (headers, errorOf (s.pushPromise parent headers).2)
  | .sendHeaders id headers endStream => some (headers, (s.sendHeaders id headers endStream).2)
  | _ => none

/-- Every block that is encoded fits: the block of a section that passes the checks of its call. -/
def EncodeCondition (s : Session X) : Action → Prop
  | .call (.openStream headers _) =>
    validateHeaderSection s.role true false headers s.limits.enableExtendedConnect = true →
      s.BlockFits headers
  | .call (.pushPromise _ headers) =>
    validateHeaderSection .client true false headers s.limits.enableExtendedConnect = true →
      s.BlockFits headers
  | .call (.sendHeaders id headers endStream) =>
    (s.checkSendHeaders id headers endStream).toOption.isSome = true → s.BlockFits headers
  | _ => True

instance (s : Session X) (headers : List HeaderField) : Decidable (s.BlockFits headers) := by
  unfold BlockFits
  infer_instance

instance (s : Session X) (a : Action) : Decidable (s.EncodeCondition a) := by
  unfold EncodeCondition
  split <;> infer_instance

/-- The bounds of what a session sends. -/
structure Bounded (e : Endpoint X) : Prop where
  maxFrame : 16384 ≤ e.peerMaxFrame ∧ e.peerMaxFrame ≤ 16777215
  ids : ∀ id, .opened id ∈ e.history → id < 2 ^ 31

theorem Bounded.note {o : Obs} (h : Bounded e) (ho : ∀ id, o = .opened id → id < 2 ^ 31) :
    Bounded (e.note o) := by
  refine ⟨h.maxFrame, fun id hid => ?_⟩
  rcases mem_note.1 hid with hid | hid
  · exact h.ids id hid
  · exact ho id hid.symm

theorem Bounded.step (hids : ∀ id, a.opensPeer id → id < 2 ^ 31) (hs : Step a e₀ e e')
    (h : Bounded e) : Bounded e' := by
  cases hs with
  | note ho => exact h.note (by rintro id rfl; exact ho.elim)
  | openPeer ha =>
    exact Bounded.note ⟨h.maxFrame, h.ids⟩ (by rintro id ⟨⟩; exact hids _ ha)
  | openLocal _ _ _ _ hlt => exact Bounded.note ⟨h.maxFrame, h.ids⟩ (by rintro id ⟨⟩; exact hlt)
  | failRaise =>
    exact Bounded.note (Bounded.note ⟨h.maxFrame, h.ids⟩ (by simp)) (by simp)
  | sendData | raise | raiseStream | overflow | fail | failAdjusted | goAway =>
    exact Bounded.note ⟨h.maxFrame, h.ids⟩ (by simp)
  | peerMaxFrame _ hv => exact ⟨hv, h.ids⟩
  | _ => exact ⟨h.maxFrame, h.ids⟩

theorem Bounded.id_of_stream (hb : Bounded s.endpoint) (hids : s.endpoint.IdSpace)
    (hst : s.stream? id = some st) : id < 2 ^ 31 ∧ id ≠ 0 :=
  ⟨hb.ids id (hids.opened id st hst).1, hids.ne_zero id (hids.opened id st hst).1⟩

/-- An attempt of a call that meets the condition. -/
theorem attempt_call {call : Call} (hw : s.WellFormed) (hb : Bounded s.endpoint)
    (hok : s.EncodeCondition (.call call)) (h : s.sendAttempt call = some (headers, err)) :
    Attempt headers s (s.call call, err) := by
  have hids : ∀ id st, s.stream? id = some st → id < 2 ^ 31 ∧ id ≠ 0 := fun _ _ =>
    hb.id_of_stream hw.ids
  cases call with
  | openStream headers endStream =>
    cases h
    exact attempt_openStream hw.ids hb.maxFrame hok
  | pushPromise parent headers =>
    cases h
    exact attempt_pushPromise (hids parent) hb.maxFrame hok
  | sendHeaders id headers endStream =>
    cases h
    refine attempt_sendHeaders hb.maxFrame (hids id) fun st hcheck => hok ?_
    rw [hcheck]
    rfl
  | _ => cases h

/-! ## Runs -/

/-- The section of an action that is a call and returns no error. -/
def acceptedBy (s : Session X) : Action → List (List HeaderField)
  | .call call =>
    match s.sendAttempt call with
    | some (headers, none) => [headers]
    | _ => []
  | _ => []

/-- The sections of the calls that return no error. -/
def accepted (s : Session X) : List Op → List (List HeaderField)
  | [] => []
  | .call call :: ops => s.acceptedBy (.call call) ++ (s.call call).accepted ops
  | .feed src :: ops => (s.feed src).session.accepted ops

/-- The peer has decoded `sections`, and its decoder is synchronised with the encoder as long as the
session can send. -/
structure InSync (Sync : X.Encoder → X.Decoder → Prop) (sections : List (List HeaderField))
    (e : Endpoint X) : Prop where
  unfinished : (sentBlocks e.history).unfinished = none
  decodes : ∃ d, X.decodeBlocks (sentBlocks e.history).complete X.peerDecoder = some (d, sections) ∧
    (e.failed = false → e.closed = false → Sync e.encoder d)

section Sync

variable {Sync : X.Encoder → X.Decoder → Prop} {sections : List (List HeaderField)}

/-- Actions that send no block keep the decoder synchronised. -/
theorem InSync.step {e₀ e e' : Endpoint X} (hX : X.Lossless Sync) (ha : ¬a.sendsBlock)
    (hs : Step a e₀ e e') (h : InSync Sync sections e) : InSync Sync sections e' := by
  obtain ⟨d, hdecode, hsync⟩ := h.decodes
  refine ⟨by rw [quiet_step ha hs, h.unfinished], d, by rw [quiet_step ha hs, hdecode], ?_⟩
  cases hs with
  | resize => exact fun hf hc => hX.resize _ (hsync hf hc)
  | encoder hb => exact absurd hb ha
  | fail | failAdjusted | failRaise => exact fun hf => by cases hf
  | closeAll => exact fun _ hc => by cases hc
  | _ => exact hsync

theorem ready_iff : s.ready = none ↔ s.endpoint.failed = false ∧ s.endpoint.closed = false := by
  unfold ready endpoint
  cases s.closed <;> simp

/-- A session that can send could send before. -/
theorem ready_of_act (hw : s.WellFormed) (ha : s.Allows a) (h : (s.act a).ready = none) :
    s.ready = none := by
  have key : ∀ {e₀ e e' : Endpoint X}, Step a e₀ e e' → e'.failed = false ∧ e'.closed = false →
      e.failed = false ∧ e.closed = false := by
    intro e₀ e e' hs he
    cases hs with
    | fail | failAdjusted | failRaise => exact absurd he.1 (by simp [Endpoint.note])
    | closeAll => exact absurd he.2 (by simp)
    | _ => exact he
  rw [ready_iff] at h ⊢
  by_contra hc
  exact Steps.invariant (I := fun e => ¬(e.failed = false ∧ e.closed = false))
    (fun hs he he' => he (key hs he')) (hw.reaches ha) hc h

/-- An attempt keeps the decoder synchronised: the peer decodes the section if it was sent. -/
theorem InSync.attempt {headers : List HeaderField} {err : Option SessionError}
    (hX : X.Lossless Sync) (h : InSync Sync sections s.endpoint)
    (hready : s'.ready = none → s.ready = none) (hatt : Attempt headers s (s', err)) :
    InSync Sync (sections ++ if err = none then [headers] else []) s'.endpoint := by
  obtain ⟨d, hdecode, hsync⟩ := h.decodes
  cases err with
  | some err =>
    refine ⟨(congrArg Blocks.unfinished hatt.blocks).trans h.unfinished, d, ?_, fun hf hc => ?_⟩
    · rw [if_neg (by simp), append_nil]
      exact (congrArg (X.decodeBlocks ·.complete X.peerDecoder) hatt.blocks).trans hdecode
    · have hr := hready (ready_iff.2 ⟨hf, hc⟩)
      rw [ready_iff] at hr
      have henc : s'.endpoint.encoder = s.endpoint.encoder := hatt.encoder (ready_iff.2 hr)
      rw [henc]
      exact hsync hr.1 hr.2
  | none =>
    obtain ⟨hf, hc⟩ := ready_iff.1 hatt.ready
    obtain ⟨d', hd', hsync'⟩ := hX.block headers (hsync hf hc)
    have hblocks : sentBlocks s'.endpoint.history = _ := hatt.blocks h.unfinished
    have henc : s'.endpoint.encoder = _ := hatt.encoder
    refine ⟨by rw [hblocks], d', ?_, fun _ _ => by rw [henc]; exact hsync'⟩
    rw [hblocks, if_pos rfl]
    exact Externals.decodeBlocks_concat hdecode hd'

theorem not_sendsBlock_of_no_attempt
    (h : ∀ call headers err, a = .call call → s.sendAttempt call ≠ some (headers, err)) :
    ¬a.sendsBlock ∧ s.acceptedBy a = [] := by
  cases a with
  | call call =>
    cases call with
    | openStream | pushPromise | sendHeaders => exact absurd rfl (h _ _ _ rfl)
    | _ => exact ⟨fun h => h, rfl⟩
  | _ => exact ⟨fun h => h, rfl⟩

/-- What every action that meets the condition keeps, with the section that it sends. -/
theorem InSync.act (hX : X.Lossless Sync) (hw : s.WellFormed) (hb : Bounded s.endpoint)
    (ha : s.Allows a) (hok : s.EncodeCondition a) (h : InSync Sync sections s.endpoint) :
    InSync Sync (sections ++ s.acceptedBy a) (s.act a).endpoint := by
  by_cases hsend : ∃ call headers err, a = .call call ∧ s.sendAttempt call = some (headers, err)
  · obtain ⟨call, headers, err, rfl, hatt⟩ := hsend
    have hacc : s.acceptedBy (.call call) = if err = none then [headers] else [] := by
      simp only [acceptedBy, hatt]
      cases err <;> rfl
    rw [hacc]
    exact h.attempt hX (ready_of_act hw ha) (attempt_call hw hb hok hatt)
  · obtain ⟨hquiet, hnone⟩ := not_sendsBlock_of_no_attempt (s := s)
      fun call headers err ha hatt => hsend ⟨call, headers, err, ha, hatt⟩
    rw [hnone, append_nil]
    exact Steps.invariant (InSync.step hX hquiet) (hw.reaches ha) h

theorem bounded_act (hw : s.WellFormed) (ha : s.Allows a) (h : Bounded s.endpoint) :
    Bounded (s.act a).endpoint :=
  Steps.invariant (Bounded.step fun _ => lt_of_opensPeer ha) (hw.reaches ha) h

/-- The actions of one operation. -/
theorem inSync_op {o : Op} (hX : X.Lossless Sync) (hw : s.WellFormed ∧ s.Sound)
    (hb : Bounded s.endpoint) (hok : Guarded act EncodeCondition s (s.opActions o))
    (h : InSync Sync sections s.endpoint) :
    InSync Sync (sections ++ s.accepted [o]) (s.op o).endpoint ∧ Bounded (s.op o).endpoint := by
  have hallows := (guarded_opActions o hw).1
  cases o with
  | call call =>
    have hacc : s.accepted [.call call] = s.acceptedBy (.call call) := append_nil _
    rw [hacc]
    exact ⟨h.act hX hw.1 hb hallows.1 hok.1, bounded_act hw.1 hallows.1 hb⟩
  | feed src =>
    rw [show s.accepted [.feed src] = [] from rfl, append_nil, expands_opActions s (.feed src)]
    -- no action of a feed is a call
    have hfeed : Guarded act (fun (_ : Session X) a => ∀ call, a ≠ .call call) s
        (s.opActions (.feed src)) := guarded_of_forall fun a => mem_feedActions
    have key := (hallows.and (hok.and hfeed)).invariant
      (I := fun s => s.WellFormed ∧ InSync Sync sections s.endpoint ∧ Bounded s.endpoint)
      (fun s a hI hg => ?_) ⟨hw.1, h, hb⟩
    · exact key.2
    · obtain ⟨ha, hok, hcall⟩ := hg
      have hsync := hI.2.1.act hX hI.1 hI.2.2 ha hok
      rw [(not_sendsBlock_of_no_attempt (s := s) fun call _ _ hc => absurd hc (hcall call)).2,
        append_nil] at hsync
      exact ⟨hI.1.act ha, hsync, bounded_act hI.1 ha hI.2.2⟩

theorem accepted_cons (s : Session X) (o : Op) (ops : List Op) :
    s.accepted (o :: ops) = s.accepted [o] ++ (s.op o).accepted ops := by
  cases o with
  | call call => simp [accepted, op]
  | feed src => rfl

/-- **The run**: the peer decodes the sections of the calls that return no error. -/
theorem inSync_run {ops : List Op} (hX : X.Lossless Sync) (hw : s.WellFormed ∧ s.Sound)
    (hb : Bounded s.endpoint) (hok : Meets EncodeCondition s ops)
    (h : InSync Sync sections s.endpoint) :
    InSync Sync (sections ++ s.accepted ops) (s.run ops).endpoint ∧
      Bounded (s.run ops).endpoint := by
  induction ops generalizing s sections with
  | nil => exact ⟨(append_nil sections).symm ▸ h, hb⟩
  | cons o ops ih =>
    obtain ⟨h1, hb1⟩ := inSync_op hX hw hb hok.1 h
    have := ih (guarded_opActions o hw).2 hb1 hok.2 h1
    rwa [append_assoc, ← accepted_cons] at this

theorem inSync_newSession {role : Role} {limits : SessionLimits} (hX : X.Lossless Sync)
    (hnew : newSession X role limits = .ok s) :
    InSync Sync [] s.endpoint ∧ Bounded s.endpoint := by
  obtain ⟨output, header, payload, ht, rfl⟩ := newSession_ok hnew
  have hnone : (Obs.sent header payload).fragment = none :=
    fragment_sent (not_carriesBlock_of_type ht (by decide))
  have hblocks : sentBlocks [.sent header payload] = {} := by simp [sentBlocks, hnone]
  refine ⟨⟨congrArg Blocks.unfinished hblocks, X.peerDecoder, ?_, fun _ _ => hX.start⟩, ?_⟩
  · exact congrArg (X.decodeBlocks ·.complete X.peerDecoder) hblocks
  · exact ⟨⟨le_rfl, by simp [endpoint, init]⟩, by simp [endpoint]⟩

/-- **Outbound HPACK synchronisation.** In every run in which every block that is encoded fits the
limit, a decoder that is given the blocks of the output decodes, block for block, the sections of
the calls that have returned no error; and a call that returns an error leaves the encoder as it
was, as long as the session has not failed and is not closed. -/
theorem sentBlocks_decode {role : Role} {limits : SessionLimits} {s₀ : Session X} {ops : List Op}
    (hX : X.Lossless Sync) (hnew : newSession X role limits = .ok s₀)
    (hok : Meets EncodeCondition s₀ ops) :
    (sentBlocks (s₀.run ops).history).unfinished = none ∧
      (X.decodeBlocks (sentBlocks (s₀.run ops).history).complete X.peerDecoder).map Prod.snd =
        some (s₀.accepted ops) ∧
      ((s₀.run ops).ready = none → ∀ call headers err,
        (s₀.run ops).EncodeCondition (.call call) →
        (s₀.run ops).sendAttempt call = some (headers, some err) →
        ((s₀.run ops).call call).encoder = (s₀.run ops).encoder) := by
  obtain ⟨h₀, hb₀⟩ := inSync_newSession hX hnew
  obtain ⟨h, hb⟩ := inSync_run hX (wellFormed_newSession hnew) hb₀ hok h₀
  obtain ⟨d, hdecode, -⟩ := h.decodes
  refine ⟨h.unfinished, ?_, fun hready call headers err hcond hatt => ?_⟩
  · rw [show sentBlocks (s₀.run ops).history = sentBlocks (s₀.run ops).endpoint.history from rfl,
      hdecode]
    rfl
  · have hw := (sound_run hnew ops).1
    exact (attempt_call hw hb hcond hatt).encoder hready

end Sync

/-- A request with a field of its own. -/
def ownField : List HeaderField :=
  SmallHpack.getRequest ++ [{ name := ascii "x", value := ascii "1" }]

/-- The same request with a long field at its end. -/
def longField : List HeaderField :=
  ownField ++ [{ name := ascii "y", value := ascii "aaaaaaaaaaaaaaaaaaaa" }]

/-- A client sends a request, fails to send one that is not valid, and sends the first one again,
whose own field is now in the table. -/
theorem sentBlocks_decode_client :
    ∃ s₀, newSession externals .client {} = .ok s₀ ∧
      let s := s₀.run [.call (.openStream ownField true), .call (.openStream [] true),
        .call (.openStream ownField true)]
      (externals.decodeBlocks (sentBlocks s.history).complete
        externals.peerDecoder).map Prod.snd = some [ownField, ownField] := by
  obtain ⟨s₀, hnew, hok, hacc⟩ := exists_newSession (X := externals) (r := .client)
    (l := {}) (p := fun s₀ =>
      Meets EncodeCondition s₀ [.call (.openStream ownField true), .call (.openStream [] true),
        .call (.openStream ownField true)] ∧
      s₀.accepted [.call (.openStream ownField true), .call (.openStream [] true),
        .call (.openStream ownField true)] = [ownField, ownField]) (by decide +kernel)
  have h := (sentBlocks_decode lossless hnew hok).2.1
  rw [hacc] at h
  exact ⟨s₀, hnew, h⟩

/-- The block of a request does not fit the limit of twelve octets: nothing is sent, but the field
before the one that does not fit is in the table of the encoder. The next request refers to it, and
the peer cannot decode it. -/
theorem sentBlocks_after_overflow :
    ∃ s₀, newSession externals .client { header := { maxHeaderListBytes := 12 } } =
        .ok s₀ ∧
      let ops := [.call (.openStream longField true), .call (.openStream ownField true)]
      (s₀.run ops).ready = none ∧ s₀.accepted ops = [ownField] ∧
        (externals.decodeBlocks (sentBlocks (s₀.run ops).history).complete
          externals.peerDecoder).map Prod.snd ≠ some (s₀.accepted ops) :=
  exists_newSession (by decide +kernel)

end Session

end WagoHttp.Http2
