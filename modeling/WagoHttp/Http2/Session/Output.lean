import WagoHttp.Http2.Reference
import WagoHttp.Http2.Session.Queues

/-!
# What a session writes

The octets that a session queues, over a whole run, are frames that the frame parser accepts. The
two halves of the argument meet at `Proper`, a frame that is well formed by itself, and
`Contiguous`, a sequence of frames in which header blocks are not interrupted: the packets of a
session are such frames, and the parser accepts every sequence of such frames.
-/

namespace WagoHttp.Http2

open Reference List FrameHeader

/-! ## Frames on the wire -/

variable {h : FrameHeader}

/-- The header of a frame, read back. -/
theorem FrameHeader.decode_octetsOf (hlen : h.length < 2 ^ 24) (hid : h.streamID < 2 ^ 31)
    (payload : Bytes) : decode (octetsOf (h, payload)) = h := by
  obtain ⟨length, type, flags, streamID⟩ := h
  simp only at hlen hid
  simp only [decode, octetsOf, frameHeaderBytes, putUint32, cons_append, nil_append,
    take_succ_cons, take_zero, drop_succ_cons, drop_zero, getD_cons_succ,
    getD_cons_zero, beNat, foldl_cons, foldl_nil, UInt8.toNat_ofNat']
  congr 1 <;> omega

theorem length_octetsOf (frame : FrameHeader × Bytes) :
    (octetsOf frame).length = 9 + frame.2.length := by
  rw [octetsOf, length_append]
  rfl

/-- The entries of a SETTINGS payload, read back. -/
theorem settingEntries_settingBytes (params : List Setting) :
    settingEntries (params.flatMap Session.settingBytes) = params := by
  induction params with
  | nil => rfl
  | cons x params ih =>
    have hid := x.id.toNat_lt
    have hvalue := x.value.toNat_lt
    have h16 : beNat (putUint16 x.id.toNat) = x.id.toNat := by
      simp only [beNat, putUint16, foldl_cons, foldl_nil, UInt8.toNat_ofNat']
      omega
    have hentry : settingEntries ((x :: params).flatMap Session.settingBytes) =
        { id := UInt16.ofNat (beNat (putUint16 x.id.toNat))
          value := UInt32.ofNat (beNat (putUint32 x.value.toNat)) } ::
          settingEntries (params.flatMap Session.settingBytes) := rfl
    rw [hentry, ih, h16, beNat_putUint32 hvalue, UInt16.ofNat_toNat, UInt32.ofNat_toNat]

theorem length_settingBytes (params : List Setting) :
    (params.flatMap Session.settingBytes).length = params.length * 6 := by
  induction params with
  | nil => rfl
  | cons x params ih =>
    rw [flatMap_cons, length_append, ih, length_cons, Nat.add_mul]
    exact Nat.add_comm _ _

/-- A frame that is well formed by itself. -/
structure Proper (frame : FrameHeader × Bytes) : Prop where
  length : frame.1.length = frame.2.length
  size : frame.2.length ≤ 16777215
  streamID : frame.1.streamID < 2 ^ 31
  stream : StreamRule frame.1
  lengths : LengthRule frame.1
  payload : PayloadRule frame.1 frame.2

/-- After the frames before, with the header block of the given stream open, header blocks are not
interrupted, and the last one is complete. -/
def Contiguous : Option ℕ → List FrameHeader → Prop
  | block, [] => block = none
  | none, h :: hs =>
    h.type ≠ .continuation ∧
      Contiguous (if h.carriesBlock ∧ ¬h.flags.has .endHeaders then some h.streamID else none) hs
  | some id, h :: hs =>
    h.type = .continuation ∧ h.streamID = id ∧
      Contiguous (if h.flags.has .endHeaders then none else some id) hs

/-! ## The parser accepts them -/

/-- The largest limits of the parser. -/
def largestLimits : Limits where
  maxFrameSize := 0xffffff
  maxHeaderBlockBytes := 0xffffffffffffffff
  maxContinuationFrames := 0xffffffff

namespace Parser

variable {c : Parser} {block : Option OpenBlock}

theorem whole_octetsOf {frame : FrameHeader × Bytes} (hlen : frame.1.length = frame.2.length)
    (hsize : frame.2.length ≤ 16777215) (hid : frame.1.streamID < 2 ^ 31) :
    Whole (octetsOf frame) := by
  have hall := length_octetsOf frame
  refine ⟨by omega, ?_⟩
  rw [hall, frameLength, decode_octetsOf (by omega) hid, hlen]

/-- The header block that is open after a frame. -/
theorem streamID_nextBlock {h : FrameHeader} (payload : Bytes)
    (hnone : block = none ∨ h.carriesBlock) : (nextBlock block h payload).map OpenBlock.streamID =
      if h.carriesBlock ∧ ¬h.flags.has .endHeaders then some h.streamID else none := by
  unfold nextBlock
  by_cases hcb : h.carriesBlock
  · by_cases heh : h.flags.has .endHeaders = true <;> simp [hcb, heh]
  · obtain rfl := hnone.resolve_right hcb
    simp [hcb]

/-- **The parser accepts proper frames with contiguous header blocks.** -/
theorem accepts_of_contiguous {frames : List (FrameHeader × Bytes)}
    (hf : Follows largestLimits block c) (hp : ∀ frame ∈ frames, Proper frame)
    (hc : Contiguous (block.map OpenBlock.streamID) (frames.map Prod.fst))
    (hno : c.headerBlockBytes + (frames.flatMap octetsOf).length < 2 ^ 64) :
    c.Accepts (frames.map octetsOf) ∧ (c.passed (frames.map octetsOf)).continuationStream = 0 := by
  induction frames generalizing c block with
  | nil =>
    have hnone : block = none := by
      cases block with
      | none => rfl
      | some b => cases hc
    exact ⟨trivial, (hf.closed hnone).1⟩
  | cons frame frames ih =>
    obtain ⟨hframe, hp⟩ := forall_mem_cons.1 hp
    have hw := whole_octetsOf hframe.length hframe.size hframe.streamID
    have hdecode : decode (octetsOf frame) = frame.1 :=
      decode_octetsOf (by have := hframe.size; have := hframe.length; omega)
        hframe.streamID frame.2
    have hdrop : (octetsOf frame).drop 9 = frame.2 := rfl
    rw [flatMap_cons, length_append] at hno
    have hoctets : Reference.blockOctets block frame.1 frame.2 ≤ 2 ^ 64 - 1 := by
      have hle := blockOctets_le frame.1 frame.2
      rw [Reference.blockOctets, hf.octets]
      have := length_octetsOf frame
      omega
    have hseq : WrappedRule largestLimits block frame.1 ∧
        Contiguous ((nextBlock block frame.1 frame.2).map OpenBlock.streamID)
          (frames.map Prod.fst) := by
      cases block with
      | none =>
        obtain ⟨ht, hc⟩ := hc
        rw [streamID_nextBlock _ (.inl rfl)]
        exact ⟨⟨fun _ => ht, by simp⟩, hc⟩
      | some b =>
        obtain ⟨ht, hid, hc⟩ := hc
        have hcb : frame.1.carriesBlock := .inr (.inr ht)
        refine ⟨⟨by simp, fun b' hb => ?_⟩, ?_⟩
        · obtain rfl := Option.mem_some_iff.1 hb
          exact ⟨ht, hid, Nat.le_of_lt_succ (Nat.mod_lt _ (by norm_num))⟩
        · rw [streamID_nextBlock _ (.inr hcb)]
          by_cases heh : frame.1.flags.has .endHeaders = true
          · simpa [hcb, heh] using hc
          · simpa [hcb, heh, hid] using hc
    have hv : c.verdict (octetsOf frame) = .none := by
      refine (hf.verdict_iff hw (by omega)).2 ?_
      rw [hdecode, hdrop]
      refine ⟨?_, hseq.1, hframe.stream, hframe.lengths, hframe.payload, hoctets⟩
      rw [hframe.length]
      exact hframe.size
    have hnext := (hf.completed hw (by omega) hv).1
    have hblock := (completes hf.idle hw hv).block
    rw [hdecode, hdrop] at hnext
    obtain ⟨ha, hclosed⟩ := ih hnext hp hseq.2 (by omega)
    exact ⟨⟨hw, hv, ha⟩, hclosed⟩

end Parser

/-! ## A session writes them -/

theorem contiguous_append {frames frames' : List FrameHeader} {block : Option ℕ}
    (h : Contiguous block frames) (h' : Contiguous none frames') :
    Contiguous block (frames ++ frames') := by
  induction frames generalizing block with
  | nil =>
    cases h
    exact h'
  | cons header frames ih =>
    cases block with
    | none => exact ⟨h.1, ih h.2⟩
    | some id => exact ⟨h.1, h.2.1, ih h.2.2⟩

/-- A frame that carries no header block. -/
theorem contiguous_single (hb : ¬h.carriesBlock) : Contiguous none [h] := by
  refine ⟨fun ht => hb (.inr (.inr ht)), ?_⟩
  rw [if_neg fun h => hb h.1]
  rfl

namespace Session

variable {frameType : FrameType} {id promised max : ℕ} {endStream : Bool}

theorem contiguous_blockFrames (ht : frameType.beginsBlock) (hmax : 4 < max) (block : Bytes) :
    Contiguous none ((blockFrames frameType id promised endStream max (block.length + 1) true
      block).map Prod.fst) := by
  refine blockFrames_induction (motive := fun first _ frames =>
    Contiguous (if first then none else some id) (frames.map Prod.fst)) hmax ?_ ?_
    (.inl rfl) (Nat.lt_succ_self _)
  · intro first block _
    have hend := (has_blockFlags frameType endStream first true).1
    cases first with
    | false => exact ⟨rfl, rfl, if_pos hend⟩
    | true =>
      refine ⟨?_, if_neg fun h => h.2 hend⟩
      change frameType ≠ _
      rcases ht with rfl | rfl <;> decide
  · intro first piece rest frames _ _ ih
    have hend := (has_blockFlags frameType endStream first false).1
    cases first with
    | false =>
      refine ⟨rfl, rfl, ?_⟩
      rw [if_neg (by simp [blockHeader, hend])]
      exact ih
    | true =>
      refine ⟨?_, ?_⟩
      · change frameType ≠ _
        rcases ht with rfl | rfl <;> decide
      · rw [if_pos ⟨ht.imp_right .inl, by simp [blockHeader, hend]⟩]
        exact ih

theorem proper_of_valid {frame : FrameHeader × Bytes} (h : ValidFrame frame)
    (hp : PayloadRule (withLength frame).1 frame.2) : Proper (withLength frame) := by
  obtain ⟨hstream, hlengths⟩ := (validateFrameHeader_iff _).1 h.valid
  exact ⟨rfl, h.size, h.id, hstream, hlengths, hp⟩

/-- A payload without padding or priority fields. -/
theorem payloadRule_of_block {h : FrameHeader} {payload : Bytes}
    (ht : h.type = .headers ∨ h.type = .pushPromise ∨ h.type = .continuation)
    (hpad : h.flags.has .padded = false) (hprio : h.flags.has .priority = false)
    (hpush : h.type = .pushPromise → beNat (payload.take 4) % 2 ^ 31 ≠ 0) :
    PayloadRule h payload := by
  have hother {t : FrameType} (hne : t ≠ .headers ∧ t ≠ .pushPromise ∧ t ≠ .continuation) :
      h.type ≠ t := by
    rintro rfl
    exact ht.elim hne.1 (Or.elim · hne.2.1 hne.2.2)
  refine ⟨fun _ => ?_, ?_, fun h => absurd h (hother (by decide)), fun hp => ?_,
    fun h => absurd h (hother (by decide))⟩
  · simp [padLength, hpad]
  · rintro (⟨-, h⟩ | h)
    · simp [hprio] at h
    · exact absurd h (hother (by decide))
  · have hfixed : h.fixedFields payload = payload.take 4 := by
      simp +decide [fixedFields, mayPad, fixedOctets,
        Parser.padOctets, hp, hpad]
    rw [hfixed]
    exact hpush hp

/-- A frame of a block is well formed by itself. -/
theorem proper_blockFrame {first last : Bool} {fragment : Bytes}
    (ht : frameType.beginsBlock) (hid : id < 2 ^ 31) (hz : id ≠ 0)
    (hp : frameType = .pushPromise → promised ≠ 0 ∧ promised < 2 ^ 31)
    (hlen : (blockPromise frameType promised first ++ fragment).length ≤ 16777215) :
    Proper (withLength (blockHeader frameType id endStream first last,
      blockPromise frameType promised first ++ fragment)) := by
  obtain ⟨-, hpad, hprio⟩ := has_blockFlags frameType endStream first last
  have hcarries : (blockHeader frameType id endStream first last).carriesBlock :=
    type_blockHeader ht
  refine proper_of_valid (validFrame_blockFrame ht hid hz hlen)
    (payloadRule_of_block hcarries hpad hprio fun hpush => ?_)
  cases first with
  | false =>
    have hpush : FrameType.continuation = .pushPromise := hpush
    exact absurd hpush (by decide)
  | true =>
    have hpush : frameType = .pushPromise := hpush
    obtain ⟨hne, hlt⟩ := hp hpush
    have hfour : blockPromise frameType promised true = putUint32 promised := if_pos ⟨rfl, hpush⟩
    rw [hfour]
    have htake : (putUint32 promised ++ fragment).take 4 = putUint32 promised := rfl
    rw [htake, beNat_putUint32 (by omega), Nat.mod_eq_of_lt hlt]
    exact hne

theorem proper_blockFrames (ht : frameType.beginsBlock) (hid : id < 2 ^ 31) (hz : id ≠ 0)
    (hp : frameType = .pushPromise → promised ≠ 0 ∧ promised < 2 ^ 31) (hmax : 4 < max)
    (hle : max ≤ 16777215) {fuel : ℕ} {first : Bool} {block : Bytes} :
    ∀ frame ∈ blockFrames frameType id promised endStream max fuel first block,
      Proper (withLength frame) ∧ frame.2.length ≤ max := by
  intro frame hframe
  obtain ⟨first, last, fragment, -, hfragment, rfl⟩ := mem_blockFrames hframe
  have hlen := length_blockFrame hmax hfragment
  exact ⟨proper_blockFrame ht hid hz hp (hlen.trans hle), hlen⟩

end Session

namespace Packet

variable {p : Packet} {max : ℕ}

theorem Fits.mono {max' : ℕ} (h : p.Fits max) (hle : max ≤ max') : p.Fits max' := by
  cases p with
  | data => exact ⟨h.1, h.2.1, h.2.2.trans hle⟩
  | headers => exact ⟨h.1, h.2.1, h.2.2.1, h.2.2.2.trans hle⟩
  | pushPromise => exact ⟨h.1, h.2.1, h.2.2.1, h.2.2.2.1, h.2.2.2.2.1, h.2.2.2.2.2.trans hle⟩
  | settings => exact ⟨h.1, h.2.trans hle⟩
  | goAway => exact Nat.le_trans h hle
  | priorityUpdate => exact Nat.le_trans h hle
  | rstStream | settingsAck | ping | windowUpdate => exact h

/-- A frame whose header is valid and whose payload has valid fields. -/
theorem proper_plain {h : FrameHeader} {payload : Bytes} (hlen : payload.length ≤ 16777215)
    (hid : h.streamID < 2 ^ 31)
    (hvalid : validateFrameHeader { h with length := payload.length } = .none)
    (hrule : PayloadRule { h with length := payload.length } payload) :
    Proper (withLength (h, payload)) := by
  obtain ⟨hstream, hlengths⟩ := (validateFrameHeader_iff _).1 hvalid
  exact ⟨rfl, hlen, hid, hstream, hlengths, hrule⟩

/-- **The frames of a packet are proper and within the size.** -/
theorem proper_frames (h : p.Fits max) (hle : max ≤ 16777215) (height : 8 ≤ max) :
    ∀ frame ∈ p.frames, Proper (withLength frame) ∧ frame.2.length ≤ max := by
  cases p with
  | data id payload endStream =>
    obtain ⟨hz, hid, hlen⟩ := h
    have hflags : (if endStream then Flags.endStream else 0).has .padded = false := by
      cases endStream <;> decide
    refine forall_mem_singleton.2 ⟨proper_plain (hlen.trans hle) hid ?_ ?_, hlen⟩
    · simp +decide [validateFrameHeader, hz, hflags]
    · simp +decide [PayloadRule, mayPad, padLength, hflags]
  | headers id endStream size block =>
    obtain ⟨hz, hid, hfour, hsize⟩ := h
    intro frame hframe
    obtain ⟨hp, hlen⟩ := Session.proper_blockFrames (.inl rfl) hid hz (by simp +decide) hfour
      (hsize.trans hle) frame hframe
    exact ⟨hp, hlen.trans hsize⟩
  | pushPromise id promised size block =>
    obtain ⟨hz, hid, hpz, hpid, hfour, hsize⟩ := h
    intro frame hframe
    obtain ⟨hp, hlen⟩ := Session.proper_blockFrames (.inr rfl) hid hz (fun _ => ⟨hpz, hpid⟩) hfour
      (hsize.trans hle) frame hframe
    exact ⟨hp, hlen.trans hsize⟩
  | rstStream id code =>
    obtain ⟨hz, hid⟩ := h
    have hlen : (putUint32 code.toNat).length ≤ max := by rw [length_putUint32]; omega
    refine forall_mem_singleton.2 ⟨proper_plain (hlen.trans hle) hid ?_ ?_, hlen⟩
    · simp +decide [validateFrameHeader, hz]
    · simp +decide [PayloadRule, mayPad]
  | settings params =>
    obtain ⟨hvalid, hlen⟩ := h
    rw [← length_settingBytes] at hlen
    refine forall_mem_singleton.2 ⟨proper_plain (hlen.trans hle) (by norm_num) ?_ ?_, hlen⟩
    · have hmod : (params.flatMap Session.settingBytes).length % 6 = 0 := by
        rw [length_settingBytes, Nat.mul_mod_left]
      simp +decide [validateFrameHeader, -length_flatMap, hmod]
    · simp +decide [PayloadRule, mayPad, settingEntries_settingBytes]
      exact fun x hx => (validSetting_iff x).1 (hvalid x hx)
  | settingsAck =>
    refine forall_mem_singleton.2 ⟨proper_plain (by simp) (by norm_num) ?_ ?_, by simp⟩
    · decide
    · decide
  | ping octets ack =>
    have hlen : octets.length = 8 := h
    have hle' : octets.length ≤ max := by omega
    refine forall_mem_singleton.2 ⟨proper_plain (hle'.trans hle) (by norm_num) ?_ ?_, hle'⟩
    · simp +decide [validateFrameHeader, hlen]
    · simp +decide [PayloadRule, mayPad]
  | goAway last code debug =>
    have hlen : (putUint32 last ++ putUint32 code.toNat ++ debug).length ≤ max := by
      simp only [length_append, length_putUint32]
      exact h
    refine forall_mem_singleton.2 ⟨proper_plain (hlen.trans hle) (by norm_num) ?_ ?_, hlen⟩
    · simp +decide [validateFrameHeader]
      omega
    · simp +decide [PayloadRule, mayPad]
  | windowUpdate id increment =>
    obtain ⟨hid, hz, hlt⟩ := h
    have hlen : (putUint32 increment).length ≤ max := by rw [length_putUint32]; omega
    refine forall_mem_singleton.2 ⟨proper_plain (hlen.trans hle) hid ?_ ?_, hlen⟩
    · simp +decide [validateFrameHeader]
    · simp +decide [PayloadRule, mayPad]
      rw [beNat_putUint32 (by omega)]
      omega
  | priorityUpdate id value =>
    have hlen : (putUint32 (id % 2 ^ 31) ++ value).length ≤ max := by
      rw [length_append, length_putUint32]
      exact h
    refine forall_mem_singleton.2 ⟨proper_plain (hlen.trans hle) (by norm_num) ?_ ?_, hlen⟩
    · simp +decide [validateFrameHeader]
    · simp +decide [PayloadRule, mayPad]

/-- The length in a header does not matter to the order of frames. -/
theorem contiguous_withLength {frames : List (FrameHeader × Bytes)} {block : Option ℕ}
    (h : Contiguous block (frames.map Prod.fst)) :
    Contiguous block ((frames.map withLength).map Prod.fst) := by
  induction frames generalizing block with
  | nil => exact h
  | cons frame frames ih =>
    cases block with
    | none => exact ⟨h.1, ih h.2⟩
    | some id => exact ⟨h.1, h.2.1, ih h.2.2⟩

/-- **The header blocks of a packet are complete and not interrupted.** -/
theorem contiguous_frames (h : p.Fits max) :
    Contiguous none ((p.frames.map withLength).map Prod.fst) := by
  apply contiguous_withLength
  cases p with
  | headers id endStream size block =>
    exact Session.contiguous_blockFrames (.inl rfl) h.2.2.1 block
  | pushPromise id promised size block =>
    exact Session.contiguous_blockFrames (.inr rfl) h.2.2.2.2.1 block
  | _ => exact contiguous_single (by unfold carriesBlock; simp +decide)

/-- The frames of packets, in order. -/
theorem contiguous_packets {packets : List Packet} (h : ∀ p ∈ packets, p.Fits max) :
    Contiguous none (((packets.flatMap Packet.frames).map withLength).map Prod.fst) := by
  induction packets with
  | nil => rfl
  | cons p packets ih =>
    obtain ⟨hp, hrest⟩ := forall_mem_cons.1 h
    rw [flatMap_cons, map_append, map_append]
    exact contiguous_append (contiguous_frames hp) (ih hrest)

end Packet

namespace Session

open Runs

variable {X : Externals} {s s' : Session X}

/-! ## Everything that is queued -/

/-- The octets that an operation removes from the front of the output. -/
def drained (s : Session X) : Op → Bytes
  | .call (.consumeOutput n) => if n ≤ s.output.length then s.output.take n else []
  | .call .close => if s.closed then [] else s.output
  | _ => []

/-- All octets that a run has queued: those that have been removed from the output, in order, and
those that are still in it. -/
def queuedOctets (s : Session X) : List Op → Bytes
  | [] => s.output
  | o :: ops => s.drained o ++ (s.op o).queuedOctets ops

/-- The history says what an operation queues, and that it is packets. -/
theorem octets_op (h : s.Steady) (o : Op) :
    ∃ new, (s.op o).history = s.history ++ new ∧
      s.drained o ++ (s.op o).output = s.output ++ (sentFrames new).flatMap octetsOf ∧
      ∃ packets : List Packet, (∀ p ∈ packets, p.Fits s.peerMaxFrame) ∧
        sentFrames new = (packets.flatMap Packet.frames).map withLength := by
  by_cases hd : ∃ call, o = .call call ∧ Call.drains call
  · obtain ⟨call, rfl, hd⟩ := hd
    refine ⟨[], and_assoc.1 ⟨?_, [], by simp, rfl⟩⟩
    cases call with
    | consumeOutput n =>
      simp only [op, Session.call, consumeOutput, drained]
      by_cases hn : n ≤ s.output.length
      · rw [if_pos hn, if_neg (by omega)]
        simp [sentFrames]
      · rw [if_neg hn, if_pos (by omega)]
        simp [sentFrames]
    | nextEvent =>
      simp only [op, Session.call, nextEvent, drained]
      split <;> simp [sentFrames]
    | close =>
      simp only [op, Session.call, close, drained]
      split <;> simp [sentFrames]
    | _ => exact hd.elim
  · have hd (call : Call) (hc : o = .call call) : ¬Call.drains call := fun hdr => hd ⟨call, hc, hdr⟩
    obtain ⟨new, hlog, -, packets, hfits, hframes⟩ := h.queues hd
    refine ⟨new, hlog.history, ?_, packets, hfits, hframes⟩
    have hnone : s.drained o = [] := by
      unfold drained
      split
      · exact absurd trivial (hd _ rfl)
      · exact absurd trivial (hd _ rfl)
      · rfl
    rw [hnone, nil_append, hlog.output]

/-- **A run queues packets**, and its history lists their frames. -/
theorem octets_run (h : s.Steady) (ops : List Op) :
    ∃ new, (s.run ops).history = s.history ++ new ∧
      s.queuedOctets ops = s.output ++ (sentFrames new).flatMap octetsOf ∧
      ∃ packets : List Packet, (∀ p ∈ packets, p.Fits 16777215) ∧
        sentFrames new = (packets.flatMap Packet.frames).map withLength := by
  induction ops generalizing s with
  | nil => exact ⟨[], by simp [run], by simp [queuedOctets, sentFrames], [], by simp, rfl⟩
  | cons o ops ih =>
    obtain ⟨new, hhist, hout, packets, hfits, hframes⟩ := octets_op h o
    obtain ⟨new', hhist', hout', packets', hfits', hframes'⟩ := ih (h.op o)
    refine ⟨new ++ new', ?_, ?_, packets ++ packets', ?_, ?_⟩
    · change ((s.op o).run ops).history = _
      rw [hhist', hhist, append_assoc]
    · rw [queuedOctets, hout', ← append_assoc, hout, sentFrames, sentFrames, sentFrames,
        flatMap_append, flatMap_append, append_assoc]
    · refine forall_mem_append.2 ⟨fun p hp => (hfits p hp).mono ?_, hfits'⟩
      exact h.bounded.maxFrame.2
    · rw [sentFrames, flatMap_append, flatMap_append, map_append]
      exact congrArg₂ _ hframes hframes'

/-- A frame size that may be announced. -/
def FrameSizeValid (limits : SessionLimits) : Prop :=
  limits.frame.maxFrameSize = 0 ∨ 16384 ≤ limits.frame.maxFrameSize.toNat

variable {limits : SessionLimits}

theorem validSetting_initialSettings (h : FrameSizeValid limits) (role : Role) :
    ∀ x ∈ initialSettings role limits.normalized, validSetting x = true := by
  have hbool : ∀ b, boolSetting b ≤ 1 := by decide
  have hwindow : limits.normalized.initialWindowSize ≤ 0x7fffffff := by
    simp only [SessionLimits.normalized]
    generalize (if limits.initialWindowSize = 0 then 65535 else limits.initialWindowSize) = w
    split
    · exact UInt32.le_refl _
    · next hle => exact UInt32.not_lt.1 hle
  have hframe : limits.normalized.frame.maxFrameSize ≥ defaultMaxFrameSize ∧
      limits.normalized.frame.maxFrameSize ≤ maxFrameSize := by
    simp only [SessionLimits.normalized, Limits.normalized]
    rcases h with hz | hge
    · simp +decide [hz]
    · have hne : limits.frame.maxFrameSize ≠ 0 := by
        intro hz
        simp [hz] at hge
      rw [if_neg hne]
      split
      · decide
      · next hle => exact ⟨UInt32.le_iff_toNat_le.2 hge, UInt32.not_lt.1 hle⟩
  have hge : defaultMaxFrameSize ≤ limits.normalized.frame.maxFrameSize := hframe.1
  cases role <;>
    simp +decide [initialSettings, validSetting, hbool, hwindow, hge, hframe.2]

/-- The output of a new session: the preface of a client, and one SETTINGS frame. -/
theorem output_newSession {role : Role} (hlimits : FrameSizeValid limits)
    (h : newSession X role limits = .ok s) :
    ∃ p : Packet, p.Fits 16777215 ∧ sentFrames s.history = p.frames.map withLength ∧
      s.output = (if role = .client then clientPreface else []) ++
        (sentFrames s.history).flatMap octetsOf := by
  have hpre : ∀ t, (init X role limits).startPreface = .ok t → t.history = [] ∧
      t.role = role ∧ t.limits = limits.normalized ∧
      t.output = if role = .client then clientPreface else [] := by
    intro t ht
    unfold startPreface at ht
    split at ht
    · next hr =>
      have hr : role = .client := hr
      split at ht
      · cases ht
      · cases ht
        exact ⟨rfl, rfl, rfl, (if_pos hr).symm⟩
    · next hr =>
      have hr : role = .server := hr
      cases ht
      exact ⟨rfl, rfl, rfl, by simp [hr, init]⟩
  unfold newSession start at h
  split at h
  · cases h
  next t ht =>
  obtain ⟨hhist, hrole, hlim, hout⟩ := hpre t ht
  have hwhole := appendFrameEvenFailed_cases t { type := .settings }
    ((initialSettings t.role t.limits).flatMap settingBytes)
  have happend : t.appendSettings (initialSettings t.role t.limits) false =
      t.appendFrameEvenFailed { type := .settings }
        ((initialSettings t.role t.limits).flatMap settingBytes) := rfl
  rw [happend] at h
  obtain ⟨err, heq⟩ | ⟨-, -, -, -, heq⟩ := hwhole
  · rw [heq] at h
    cases h
  · rw [heq] at h
    cases h
    refine ⟨.settings (initialSettings t.role t.limits), ⟨?_, ?_⟩, ?_, ?_⟩
    · rw [hlim]
      exact validSetting_initialSettings hlimits _
    · cases t.role <;> simp [initialSettings]
    · simp [appended, note, hhist, sentFrames, Obs.frames, Packet.frames, withLength]
    · simp [appended, note, hhist, hout, sentFrames, Obs.frames, octetsOf]

/-- The frames that an action queues are within the peer's limit. -/
def SizeKept (s : Session X) (a : Action) : Prop :=
  ∀ frame ∈ sentFrames ((s.act a).history.drop s.history.length), frame.2.length ≤ s.peerMaxFrame

theorem sizeKept_of_queues {a : Action} (h : Queues s.peerMaxFrame true s (s.act a))
    (hmax : s.FrameRange) : s.SizeKept a := by
  obtain ⟨new, hlog, -, packets, hfits, hframes⟩ := h
  intro frame hframe
  rw [hlog.history, drop_left, hframes] at hframe
  obtain ⟨f, hf, rfl⟩ := mem_map.1 hframe
  obtain ⟨p, hp, hf⟩ := mem_flatMap.1 hf
  exact (Packet.proper_frames (hfits p hp) hmax.2 (le_trans (by decide) hmax.1) f hf).2

theorem sizeKept_act {a : Action} (hw : s.WellFormed) (hb : Bounded s.endpoint) : s.SizeKept a := by
  have hmax : 16384 ≤ s.peerMaxFrame ∧ s.peerMaxFrame ≤ 16777215 := hb.maxFrame
  have height : 8 ≤ s.peerMaxFrame := by omega
  cases a with
  | call call =>
    by_cases hd : Call.drains call
    · have hhist : (s.act (.call call)).history = s.history := by
        cases call with
        | consumeOutput n =>
          simp only [act, Session.call, consumeOutput]
          split <;> rfl
        | nextEvent =>
          simp only [act, Session.call, nextEvent]
          split <;> rfl
        | close =>
          simp only [act, Session.call, close]
          split <;> rfl
        | _ => exact hd.elim
      intro frame hframe
      rw [hhist, drop_length] at hframe
      cases hframe
    · exact sizeKept_of_queues (enters_call hw hb hd).queues hmax
  | preface => exact sizeKept_of_queues (.of_eq rfl) hmax
  | deliver call =>
    exact sizeKept_of_queues (enters_act (a := .deliver call) height hw.ids (by simp)).queues hmax
  | parsed parser => exact sizeKept_of_queues (.of_eq rfl) hmax
  | fail code reason =>
    exact sizeKept_of_queues (enters_act (a := .fail code reason) height hw.ids (by simp)).queues hmax

/-- **Everything that a session writes is a well-formed frame stream.** Over any run, the octets
that have been queued (fewer than a slice can hold) are the client preface, if the session is a
client, and frames that the frame parser accepts. Header blocks are not interrupted, and every frame
is within the size that the peer allowed when it was queued. -/
theorem output_wellFormed {role : Role} {limits : SessionLimits} {s₀ : Session X} {ops : List Op}
    (hlimits : FrameSizeValid limits) (hnew : newSession X role limits = .ok s₀)
    (hlen : (s₀.queuedOctets ops).length < 2 ^ 63) :
    ∃ frames : List (FrameHeader × Bytes),
      s₀.queuedOctets ops =
          (if role = .client then clientPreface else []) ++ frames.flatMap octetsOf ∧
        ((newParser largestLimits).parse (frames.flatMap octetsOf)).code = .none ∧
        ((newParser largestLimits).parse (frames.flatMap octetsOf)).parser.finish.2 = .none ∧
        Contiguous none (frames.map Prod.fst) ∧
        frames = sentFrames (s₀.run ops).history ∧ Meets SizeKept s₀ ops := by
  have hsteady := steady_newSession hnew
  obtain ⟨p, hp, hsent, hout⟩ := output_newSession hlimits hnew
  obtain ⟨new, hhist, hoctets, packets, hfits, hframes⟩ := octets_run hsteady ops
  have hall : sentFrames (s₀.run ops).history =
      ((p :: packets).flatMap Packet.frames).map withLength := by
    rw [hhist, sentFrames, flatMap_append, flatMap_cons, map_append]
    exact congrArg₂ _ hsent hframes
  have hfits' : ∀ q ∈ p :: packets, q.Fits 16777215 := forall_mem_cons.2 ⟨hp, hfits⟩
  have hqueued : s₀.queuedOctets ops = (if role = .client then clientPreface else []) ++
      (sentFrames (s₀.run ops).history).flatMap octetsOf := by
    rw [hoctets, hout, hhist, sentFrames, sentFrames, sentFrames, flatMap_append,
      flatMap_append, append_assoc]
  have hcontiguous := Packet.contiguous_packets hfits'
  rw [← hall] at hcontiguous
  have hproper : ∀ frame ∈ sentFrames (s₀.run ops).history, Proper frame := by
    intro frame hframe
    rw [hall] at hframe
    obtain ⟨f, hf, rfl⟩ := mem_map.1 hframe
    obtain ⟨q, hq, hf⟩ := mem_flatMap.1 hf
    exact (Packet.proper_frames (hfits' q hq) le_rfl (by norm_num) f hf).1
  rw [hqueued, length_append] at hlen
  have hflat : (sentFrames (s₀.run ops).history).flatMap octetsOf =
      ((sentFrames (s₀.run ops).history).map octetsOf).flatten := flatMap_def ..
  have hno : (newParser largestLimits).headerBlockBytes +
      ((sentFrames (s₀.run ops).history).flatMap octetsOf).length < 2 ^ 64 := by
    change 0 + _ < _
    omega
  obtain ⟨haccepts, hclosed⟩ := Parser.accepts_of_contiguous
    (Parser.follows_newParser largestLimits) hproper hcontiguous hno
  have hslice : ((sentFrames (s₀.run ops).history).flatMap octetsOf).length < 2 ^ 63 := by omega
  have hparse := (Parser.parse_accepts_iff largestLimits hslice).2 ⟨_, haccepts, hflat, hclosed⟩
  have hany : Meets (fun _ _ => True) s₀ ops :=
    guarded_always (fun _ _ => guarded_always (fun _ _ => trivial) _ _) s₀ ops
  refine ⟨_, hqueued, hparse.1, hparse.2, hcontiguous, rfl, ?_⟩
  exact run_meets (I := fun s => Bounded s.endpoint) hnew hsteady.bounded
    (fun _ _ hw ha hb _ => bounded_act hw ha hb) (fun _ _ hw _ hb _ => sizeKept_act hw hb) hany

/-- A client sends two requests, of which the first is consumed and then reset. -/
def writeSome : List Op :=
  [.call (.openStream SmallHpack.getRequest false), .call (.consumeOutput 100),
    .call (.openStream SmallHpack.getRequest true), .call (.resetStream 1 .cancel)]

theorem output_wellFormed_client :
    ∃ s, newSession SmallHpack.externals .client {} = .ok s ∧
      ∃ frames : List (FrameHeader × Bytes), frames.length = 4 ∧
        s.queuedOctets writeSome = clientPreface ++ frames.flatMap octetsOf ∧
          ((newParser largestLimits).parse (frames.flatMap octetsOf)).code = .none := by
  obtain ⟨s, hnew, hlen, hfour⟩ := exists_newSession (X := SmallHpack.externals) (r := .client)
    (l := {}) (p := fun s => (s.queuedOctets writeSome).length < 2 ^ 63 ∧
      (sentFrames (s.run writeSome).history).length = 4) (by decide +kernel)
  obtain ⟨frames, hoctets, hcode, -, -, hframes, -⟩ :=
    output_wellFormed (.inl rfl) hnew hlen
  exact ⟨s, hnew, frames, hframes ▸ hfour, hoctets, hcode⟩

end Session

end WagoHttp.Http2
