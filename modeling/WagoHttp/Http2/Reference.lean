import WagoHttp.Http2.Fragments

/-!
# The grammar of the frame parser

The reference decoder cuts a byte string at its frame boundaries and checks each frame as a whole.
The parser, which never sees a whole frame, accepts what the reference accepts and calls back what
the reference decodes, as long as its counter of CONTINUATION frames does not wrap.
-/

namespace WagoHttp.Http2

open List hiding span beq_eq_decide

open FrameHeader

/-- A header block that has begun and has not ended: its stream, the CONTINUATION frames and the
octets of it so far, and whether the HEADERS frame that began it ends the stream. -/
structure OpenBlock where
  streamID : ℕ
  frames : ℕ := 0
  octets : ℕ := 0
  endStream : Bool := false
  deriving DecidableEq, Repr

namespace Reference

/-! ## The rules -/

/-- The frames that belong to a stream, and those that belong to the connection. -/
def StreamRule (h : FrameHeader) : Prop :=
  (h.type ∈ [.data, .headers, .priority, .rstStream, .pushPromise, .continuation] →
      h.streamID ≠ 0) ∧
    (h.type ∈ [.settings, .ping, .goAway] → h.streamID = 0)

/-- The lengths a frame of each type can have. -/
def LengthRule (h : FrameHeader) : Prop :=
  (h.mayPad → h.contentStart ≤ h.length) ∧
    (h.type ∈ [.priority, .rstStream, .ping, .windowUpdate] → h.length = h.fixedOctets) ∧
    (h.type = .settings → h.length % 6 = 0 ∧ (h.flags.has .ack → h.length = 0)) ∧
    (h.type = .goAway → 8 ≤ h.length)

/-- The values of a setting. -/
def SettingRule (setting : Setting) : Prop :=
  (setting.id ∈ [.enablePush, .enableConnectProtocol, .noRFC7540Priorities] →
      setting.value.toNat < 2) ∧
    (setting.id = .initialWindowSize → setting.value.toNat < 2 ^ 31) ∧
    (setting.id = .maxFrameSize → 2 ^ 14 ≤ setting.value.toNat ∧ setting.value.toNat < 2 ^ 24)

/-- The octets of a priority: the stream below the bit for an exclusive dependency, the weight. -/
def priority (fields : Bytes) : PriorityParam where
  streamDependency := beNat (fields.take 4) % 2 ^ 31
  exclusive := 2 ^ 31 ≤ beNat (fields.take 4)
  weight := fields.getD 4 0

/-- The values of the fields of a payload. -/
def PayloadRule (h : FrameHeader) (payload : Bytes) : Prop :=
  (h.mayPad → h.padLength payload ≤ h.length - h.contentStart) ∧
    (h.type = .headers ∧ h.flags.has .priority ∨ h.type = .priority →
      (priority (h.fixedFields payload)).streamDependency ≠ h.streamID) ∧
    (h.type = .settings → ∀ setting ∈ settingEntries payload, SettingRule setting) ∧
    (h.type = .pushPromise → beNat (h.fixedFields payload) % 2 ^ 31 ≠ 0) ∧
    (h.type = .windowUpdate → beNat payload % 2 ^ 31 ≠ 0)

/-- While a header block is open only CONTINUATION frames of its stream come, not too many of
them. -/
def SequenceRule (limits : Limits) (block : Option OpenBlock) (h : FrameHeader) : Prop :=
  (block = none → h.type ≠ .continuation) ∧
    ∀ b ∈ block, h.type = .continuation ∧ h.streamID = b.streamID ∧
      b.frames + 1 ≤ limits.maxContinuationFrames.toNat

/-- The octets of the header block with those of a frame. -/
def blockOctets (block : Option OpenBlock) (h : FrameHeader) (payload : Bytes) : ℕ :=
  (block.map OpenBlock.octets).getD 0 + h.blockOctets payload

/-- What the reference asks of a frame. -/
def Admits (limits : Limits) (block : Option OpenBlock) (h : FrameHeader) (payload : Bytes) :
    Prop :=
  h.length ≤ limits.maxFrameSize.toNat ∧ SequenceRule limits block h ∧ StreamRule h ∧
    LengthRule h ∧ PayloadRule h payload ∧
    blockOctets block h payload ≤ limits.maxHeaderBlockBytes.toNat

instance (h : FrameHeader) : Decidable (StreamRule h) := inferInstanceAs (Decidable (_ ∧ _))

instance (h : FrameHeader) : Decidable (LengthRule h) := inferInstanceAs (Decidable (_ ∧ _))

instance (setting : Setting) : Decidable (SettingRule setting) :=
  inferInstanceAs (Decidable (_ ∧ _))

instance (h : FrameHeader) (payload : Bytes) : Decidable (PayloadRule h payload) :=
  inferInstanceAs (Decidable (_ ∧ _))

instance (limits : Limits) (block : Option OpenBlock) (h : FrameHeader) :
    Decidable (SequenceRule limits block h) := inferInstanceAs (Decidable (_ ∧ _))

instance (limits : Limits) (block : Option OpenBlock) (h : FrameHeader) (payload : Bytes) :
    Decidable (Admits limits block h payload) := inferInstanceAs (Decidable (_ ∧ _))

/-! ## The decoder -/

/-- A fragment, unless it is empty. -/
def span (mk : Bytes → Callback) (fragment : Bytes) : List Callback :=
  if fragment = [] then [] else [mk fragment]

/-- The content of a payload. -/
def bodyCalls (h : FrameHeader) (payload : Bytes) : List Callback :=
  if h.type = .data then span (.data h.streamID · (h.flags.has .endStream)) (h.content payload)
  else if h.type = .headers then
    (if h.flags.has .priority then
      [.priority h.streamID (priority (h.fixedFields payload))] else []) ++
      span (.headerBlock h.streamID) (h.content payload)
  else if h.type = .pushPromise then
    .pushPromise h.streamID (beNat (h.fixedFields payload) % 2 ^ 31) ::
      span (.headerBlock h.streamID) (h.content payload)
  else if h.type = .continuation then span (.headerBlock h.streamID) payload
  else if h.type = .settings then
    (settingEntries payload).map .setting ++ [.settingsEnd (h.flags.has .ack)]
  else if h.type = .goAway then
    span .goAwayDebug (payload.drop 8) ++
      [.goAway (beNat (payload.take 4) % 2 ^ 31)
        (UInt32.ofNat (beNat ((payload.drop 4).take 4)))]
  else if h.type = .priority then [.priority h.streamID (priority payload)]
  else if h.type = .rstStream then [.rstStream h.streamID (UInt32.ofNat (beNat payload))]
  else if h.type = .ping then [.ping payload (h.flags.has .ack)]
  else if h.type = .windowUpdate then [.windowUpdate h.streamID (beNat payload % 2 ^ 31)]
  else span (.unknown h) payload

/-- The END_STREAM flag of the HEADERS frame that began the header block. -/
def endStream (block : Option OpenBlock) (h : FrameHeader) : Bool :=
  match block with
  | some b => b.endStream
  | none => decide (h.type = .headers) && h.flags.has .endStream

instance (h : FrameHeader) : Decidable h.carriesBlock := inferInstanceAs (Decidable (_ ∨ _))

/-- The end of a header block. -/
def blockCalls (block : Option OpenBlock) (h : FrameHeader) : List Callback :=
  if h.carriesBlock ∧ h.flags.has .endHeaders then
    [.headerBlockEnd h.streamID (endStream block h)]
  else []

/-- A frame, decoded. -/
def frameCalls (block : Option OpenBlock) (h : FrameHeader) (payload : Bytes) : List Callback :=
  .frameBegin h :: bodyCalls h payload ++ blockCalls block h ++ [.frameComplete h]

/-- The header block that is open after a frame. -/
def nextBlock (block : Option OpenBlock) (h : FrameHeader) (payload : Bytes) : Option OpenBlock :=
  if h.carriesBlock then
    if h.flags.has .endHeaders then none
    else some
      { streamID := h.streamID
        frames := (block.map fun b => b.frames + 1).getD 0
        octets := blockOctets block h payload
        endStream := endStream block h }
  else block

/-- The reference decoder, with a header block open. The recursion is on a bound of the frames. -/
def decodeFrom (limits : Limits) : ℕ → Option OpenBlock → Bytes → Option (List Callback)
  | 0, block, bs => if bs = [] ∧ block = none then some [] else none
  | fuel + 1, block, bs =>
    if bs = [] then if block = none then some [] else none
    else if bs.length < 9 ∨ bs.length < frameLength bs then none
    else if Admits limits block (decode bs) ((bs.drop 9).take (frameLength bs - 9)) then
      (decodeFrom limits fuel
        (nextBlock block (decode bs) ((bs.drop 9).take (frameLength bs - 9)))
        (bs.drop (frameLength bs))).map
        (frameCalls block (decode bs) ((bs.drop 9).take (frameLength bs - 9)) ++ ·)
    else none

/-- **The reference decoder**: the callbacks for a byte string that is whole frames, or nothing. -/
def decode (limits : Limits) (bs : Bytes) : Option (List Callback) :=
  decodeFrom limits.normalized bs.length none bs

/-! ## The checks of the parser are the rules -/

theorem validateFrameHeader_iff (h : FrameHeader) :
    validateFrameHeader h = .none ↔ StreamRule h ∧ LengthRule h := by
  have hstream : StreamRule h ↔ ¬((h.type = .data ∨ h.type = .headers ∨ h.type = .priority ∨
      h.type = .rstStream ∨ h.type = .pushPromise ∨ h.type = .continuation) ∧ h.streamID = 0 ∨
      (h.type = .settings ∨ h.type = .ping ∨ h.type = .goAway) ∧ h.streamID ≠ 0) := by
    simp only [StreamRule, mem_cons, not_mem_nil, or_false]
    tauto
  rw [hstream]
  simp only [validateFrameHeader]
  split
  · next hbad => simp [hbad]
  next hgood =>
  simp only [hgood, not_false_eq_true, true_and]
  simp only [LengthRule, mayPad, contentStart, fixedOctets,
    Parser.padOctets]
  by_cases hdata : h.type = .data
  · simp +decide [hdata]
  by_cases hheaders : h.type = .headers
  · simp +decide [hheaders]
  by_cases hpriority : h.type = .priority
  · simp +decide [hpriority]
  by_cases hrstStream : h.type = .rstStream
  · simp +decide [hrstStream]
  by_cases hsettings : h.type = .settings
  · simp +decide [hsettings]
    split_ifs with hack hz hsix
    · simp [hz]
    · simp [hz, hack]
    · simp [hack, hsix]
    · simp [hsix]
  by_cases hpushPromise : h.type = .pushPromise
  · simp +decide [hpushPromise]
    rw [Nat.add_comm]
  by_cases hping : h.type = .ping
  · simp +decide [hping]
  by_cases hgoAway : h.type = .goAway
  · simp +decide [hgoAway]
  by_cases hwindowUpdate : h.type = .windowUpdate
  · simp +decide [hwindowUpdate]
  simp [hdata, hheaders, hpriority, hrstStream, hsettings, hpushPromise, hping, hgoAway,
    hwindowUpdate]

theorem validSetting_iff (setting : Setting) : validSetting setting ↔ SettingRule setting := by
  simp only [validSetting, SettingRule, mem_cons, not_mem_nil, or_false, UInt32.le_iff_toNat_le]
  split_ifs with hbool hwindow hframe
  · rcases hbool with h | h | h <;> simp +decide [h, Nat.lt_succ_iff]
  · simp +decide [hwindow, Nat.lt_succ_iff]
  · simp +decide [hframe, Nat.lt_succ_iff]
    rfl
  · simp [hbool, hwindow, hframe]

theorem decodePriority_eq (fields : Bytes) : decodePriority fields = priority fields := by
  simp only [decodePriority, priority, PriorityParam.mk.injEq, true_and, and_true]
  rw [Bool.eq_iff_iff, bne_iff_ne, decide_eq_true_eq]
  omega

end Reference

namespace Parser

variable {c : Parser} {frame : Bytes}

open Reference

theorem headerFault_iff (c : Parser) (h : FrameHeader) :
    c.headerFault h = .none ↔ h.length ≤ c.limits.maxFrameSize.toNat ∧
      (c.continuationStream = 0 → h.type ≠ .continuation) ∧
      (c.continuationStream ≠ 0 → h.type = .continuation ∧ h.streamID = c.continuationStream ∧
        (c.continuationCount + 1) % 2 ^ 32 ≤ c.limits.maxContinuationFrames.toNat) ∧
      StreamRule h ∧ LengthRule h := by
  rw [← validateFrameHeader_iff]
  unfold headerFault
  split_ifs with hbig hseq hmany hcont
  · simp only [false_iff]
    omega
  · simp only [false_iff]
    rintro ⟨-, -, hopen, -⟩
    obtain ⟨ht, hid, -⟩ := hopen hseq.1
    exact hseq.2.elim (fun h => h ht) fun h => h hid
  · simp only [false_iff]
    rintro ⟨-, -, hopen, -⟩
    have := (hopen hmany.1).2.2
    omega
  · simp only [false_iff]
    rintro ⟨-, hclosed, -⟩
    exact hclosed hcont.1 hcont.2
  · refine ⟨fun hv => ⟨by omega, fun hz ht => hcont ⟨hz, ht⟩, fun hz => ⟨?_, ?_, ?_⟩, hv⟩,
      fun hall => hall.2.2.2⟩
    · by_contra ht
      exact hseq ⟨hz, .inl ht⟩
    · by_contra hid
      exact hseq ⟨hz, .inr hid⟩
    · by_contra hm
      exact hmany ⟨hz, by omega⟩

variable {h : FrameHeader} {payload bs src : Bytes} {mk : Bytes → Callback} {fuel k n : ℕ}
  {fs : List Bytes} {calls : List Callback}

/-- What is wrong with a whole payload, its end apart. -/
theorem payloadFault_iff (hl : LengthRule h) (hlen : payload.length = h.length) :
    h.payloadFault payload = .none ↔
      (h.mayPad → h.padLength payload ≤ h.length - h.contentStart) ∧
        (h.type = .headers ∧ h.flags.has .priority →
          (decodePriority (h.fixedFields payload)).streamDependency ≠ h.streamID) ∧
        (h.type = .settings → ∀ setting ∈ settingEntries payload, validSetting setting) ∧
        (h.type = .pushPromise → beNat (h.fixedFields payload) % 2 ^ 31 ≠ 0) := by
  have hstart (hp : h.mayPad) : h.contentStart ≤ payload.length := hlen ▸ hl.1 hp
  unfold payloadFault
  split_ifs with hpad hprio hpush hset
  · simp only [false_iff]
    rintro ⟨hall, -⟩
    have := hall hpad.1
    omega
  · simp only [false_iff]
    rintro ⟨-, hall, -⟩
    exact hall ⟨hprio.1, hprio.2.1⟩ hprio.2.2.2
  · simp only [false_iff]
    rintro ⟨-, -, -, hall⟩
    exact hall hpush.1 hpush.2.2
  · simp only [false_iff]
    rintro ⟨-, -, hall, -⟩
    obtain ⟨ht, x, hx, hbad⟩ := hset
    simp [hall ht x hx] at hbad
  · refine iff_of_true rfl ⟨fun hp => ?_, fun hp heq => ?_, fun ht x hx => ?_, fun ht hz => ?_⟩
    · by_contra hlt
      exact hpad ⟨hp, by omega⟩
    · exact hprio ⟨hp.1, hp.2, hstart (.inr (.inl hp.1)), heq⟩
    · by_contra hbad
      exact hset ⟨ht, x, hx, by simpa using hbad⟩
    · exact hpush ⟨ht, hstart (.inr (.inr ht)), hz⟩

/-- The callbacks at the end of a frame with the fixed fields `fixed`. -/
def endCalls (h : FrameHeader) (fixed : Bytes) : List Callback :=
  if h.type = .priority then [.priority h.streamID (decodePriority (fixed.take 5))]
  else if h.type = .rstStream then
    [.rstStream h.streamID (UInt32.ofNat (beNat (fixed.take 4)))]
  else if h.type = .settings then [.settingsEnd (h.flags.has .ack)]
  else if h.type = .ping then [.ping fixed (h.flags.has .ack)]
  else if h.type = .goAway then
    [.goAway (beNat (fixed.take 4) % 2 ^ 31) (UInt32.ofNat (beNat ((fixed.drop 4).take 4)))]
  else if h.type = .windowUpdate then [.windowUpdate h.streamID (beNat (fixed.take 4) % 2 ^ 31)]
  else []

theorem finishCalls_iff (p : Parser) (calls : List Callback) :
    p.finishCalls = .ok calls ↔ calls = endCalls p.current p.fixed ∧
      (p.current.type = .priority →
        (decodePriority (p.fixed.take 5)).streamDependency ≠ p.current.streamID) ∧
      (p.current.type = .windowUpdate → beNat (p.fixed.take 4) % 2 ^ 31 ≠ 0) := by
  by_cases hp : p.current.type = .priority
  · by_cases hself : (decodePriority (p.fixed.take 5)).streamDependency = p.current.streamID
    · simp +decide [finishCalls, hp, hself]
    · simp +decide [finishCalls, endCalls, hp, hself, @eq_comm _ calls]
  by_cases hw : p.current.type = .windowUpdate
  · by_cases hz : beNat (p.fixed.take 4) % 2 ^ 31 = 0
    · simp only [finishCalls, hw, hz]
      simp +decide
    · simp only [finishCalls, endCalls, hw, hz]
      simp +decide [@eq_comm _ calls]
      exact fun _ => hz
  · simp only [finishCalls, endCalls, hp, hw, if_false, false_implies, and_true]
    split_ifs <;> exact ⟨fun h => (Except.ok.inj h).symm, fun h => congrArg _ h.symm⟩

theorem finishBlock_code (p : Parser) : p.finishBlock.1.code = p.code := by
  unfold finishBlock
  simp only
  split_ifs <;> rfl

/-- The end of a frame in which nothing is wrong. -/
theorem finishFrame_ok {p : Parser} (hcode : p.code = .none) :
    p.finishFrame.code = .none ↔ ∃ calls, p.finishCalls = .ok calls := by
  unfold finishFrame
  cases hf : p.finishCalls with
  | error code =>
    simp only [reduceCtorEq, exists_false, iff_false]
    exact fail_code_ne (finishCalls_error_ne hf)
  | ok calls =>
    simp only [finishBlock_code, hcode, ne_eq, not_true_eq_false, if_false, true_iff]
    exact ⟨calls, rfl⟩

/-- The parser between two frames, and the callbacks at the end of a frame. -/
theorem finishFrame_eq {p : Parser} (hcode : p.code = .none) (h : p.finishFrame.code = .none) :
    p.finishFrame = {
      parser :=
        { p.finishBlock.1 with
          header := [], current := {}, payloadN := 0, fixed := [], fixedNeed := 0, state := .start
          paused := p.finishBlock.1.pauseAfterFrame }
      calls := endCalls p.current p.fixed ++ p.finishBlock.2 ++ [.frameComplete p.current] } := by
  obtain ⟨calls, hcalls⟩ := (finishFrame_ok hcode).1 h
  have hq : p.finishBlock.1.code = .none := (finishBlock_code p).trans hcode
  unfold finishFrame
  rw [hcalls, ((finishCalls_iff p calls).1 hcalls).1]
  simp only [hq, ne_eq, not_true_eq_false, if_false]

theorem octetCalls_span (hmk : ∀ fragment, (mk fragment).octets = fragment.map fun b => mk [b])
    (fragment : Bytes) :
    octetCalls (span mk fragment) = fragment.map fun b => mk [b] := by
  unfold span
  split
  · next hnil => simp [hnil]
  · simp [octetCalls, hmk]

/-- The reference decodes the payload that the parser reads. -/
theorem octetCalls_bodyCalls (hl : LengthRule h) (hlen : payload.length = h.length) :
    octetCalls (bodyCalls h payload) =
      h.payloadCalls payload ++ endCalls h (h.fixedFields payload) := by
  have hstart (hp : h.mayPad) : h.contentStart ≤ payload.length := hlen ▸ hl.1 hp
  have hwhole (ht : h.type ∈ [.priority, .rstStream, .ping, .windowUpdate]) :
      payload.take h.fixedOctets = payload :=
    take_of_length_le (hlen.trans (hl.2.1 ht)).le
  have hplain (hset : h.type ≠ .settings) (hp : ¬h.mayPad) :
      h.fixedFields payload = payload.take h.fixedOctets := by
    rw [fixedFields, if_neg hp, if_neg hset]
  by_cases hdata : h.type = .data
  · have hspan : octetCalls (span (.data h.streamID · (h.flags.has .endStream))
        (h.content payload)) = (h.content payload).map fun b =>
          .data h.streamID [b] (h.flags.has .endStream) := octetCalls_span (fun _ => rfl) _
    simp +decide [bodyCalls, payloadCalls, endCalls, hdata, hspan]
  have hblock (bytes : Bytes) : octetCalls (span (.headerBlock h.streamID) bytes) =
      bytes.map fun b => .headerBlock h.streamID [b] := octetCalls_span (fun _ => rfl) bytes
  have hcons (call : Callback) (calls : List Callback) :
      octetCalls (call :: calls) = call.octets ++ octetCalls calls := rfl
  by_cases hheaders : h.type = .headers
  · have hge := hstart (.inr (.inl hheaders))
    by_cases hprio : h.flags.has .priority = true
    · simp +decide [bodyCalls, payloadCalls, endCalls, hheaders, hblock, hprio, hge,
        hcons, Callback.octets, decodePriority_eq]
    · simp +decide [bodyCalls, payloadCalls, endCalls, hheaders, hblock, hprio]
  by_cases hpush : h.type = .pushPromise
  · have hge := hstart (.inr (.inr hpush))
    simp +decide [bodyCalls, payloadCalls, endCalls, hpush, hblock, hge, hcons,
      Callback.octets]
  by_cases hcont : h.type = .continuation
  · simp +decide [bodyCalls, payloadCalls, endCalls, hcont, hblock]
  by_cases hset : h.type = .settings
  · have hmap (l : List Setting) : octetCalls (l.map .setting) = l.map .setting := by
      induction l with
      | nil => rfl
      | cons x l ih => exact congrArg (Callback.setting x :: ·) ih
    simp +decide [bodyCalls, payloadCalls, endCalls, hset, hmap]
    rfl
  have hp : ¬h.mayPad := by simp [mayPad, hdata, hheaders, hpush]
  by_cases hgo : h.type = .goAway
  · have hspan : octetCalls (span .goAwayDebug (payload.drop 8)) =
        (payload.drop 8).map fun b => .goAwayDebug [b] := octetCalls_span (fun _ => rfl) _
    have height : h.fixedFields payload = payload.take 8 := by
      rw [hplain hset hp]
      simp +decide [fixedOctets, hgo]
    have hfour : ((payload.take 8).drop 4).take 4 = (payload.drop 4).take 4 := by
      rw [drop_take, take_take]
      rfl
    simp +decide [bodyCalls, payloadCalls, endCalls, hgo, hspan, height,
      take_take, hfour]
    rfl
  by_cases hpriority : h.type = .priority
  · have hall := hwhole (by simp [hpriority])
    have hfields := (hplain hset hp).trans hall
    simp +decide only [fixedOctets, hpriority, if_false, if_true] at hall
    simp +decide [bodyCalls, payloadCalls, endCalls, hpriority, hfields, hall, decodePriority_eq]
    rfl
  by_cases hrst : h.type = .rstStream
  · have hall := hwhole (by simp [hrst])
    have hfields := (hplain hset hp).trans hall
    simp +decide only [fixedOctets, hrst, if_false, if_true] at hall
    simp +decide [bodyCalls, payloadCalls, endCalls, hrst, hfields, hall]
    rfl
  by_cases hping : h.type = .ping
  · have hfields := (hplain hset hp).trans (hwhole (by simp [hping]))
    simp +decide [bodyCalls, payloadCalls, endCalls, hping, hfields]
    rfl
  by_cases hwin : h.type = .windowUpdate
  · have hall := hwhole (by simp [hwin])
    have hfields := (hplain hset hp).trans hall
    simp +decide only [fixedOctets, hwin, if_false, if_true] at hall
    simp +decide [bodyCalls, payloadCalls, endCalls, hwin, hfields, hall]
    rfl
  · have hspan : octetCalls (span (.unknown h) payload) =
        payload.map fun b => .unknown h [b] := octetCalls_span (fun _ => rfl) _
    simp [bodyCalls, payloadCalls, endCalls, hdata, hheaders, hpush, hcont, hset, hgo,
      hpriority, hrst, hping, hwin, hspan]

/-- The parser `c` stands between two frames where the reference stands with `block`. -/
structure Follows (limits : Limits) (block : Option OpenBlock) (c : Parser) : Prop where
  idle : Idle c
  limits : c.limits = limits
  closed : block = none → c.continuationStream = 0 ∧ c.headerBlockBytes = 0 ∧
    c.headerBlockEndStream = false
  opened : ∀ b ∈ block, c.continuationStream = b.streamID ∧ b.streamID ≠ 0 ∧
    c.continuationCount = b.frames % 2 ^ 32 ∧ c.headerBlockBytes = b.octets ∧
    c.headerBlockEndStream = b.endStream

theorem follows_newParser (limits : Limits) : Follows limits.normalized none (newParser limits) :=
  ⟨(calm_newParser limits).idle, rfl, fun _ => ⟨rfl, rfl, rfl⟩, nofun⟩

variable {limits : Limits} {block : Option OpenBlock}

theorem Follows.octets (h : Follows limits block c) :
    (block.map OpenBlock.octets).getD 0 = c.headerBlockBytes := by
  cases block with
  | none => exact (h.closed rfl).2.1.symm
  | some b => exact (h.opened b rfl).2.2.2.1.symm

/-- The rule of sequence with the counter of the parser, which wraps. -/
def WrappedRule (limits : Limits) (block : Option OpenBlock) (h : FrameHeader) : Prop :=
  (block = none → h.type ≠ .continuation) ∧
    ∀ b ∈ block, h.type = .continuation ∧ h.streamID = b.streamID ∧
      (b.frames + 1) % 2 ^ 32 ≤ limits.maxContinuationFrames.toNat

theorem Follows.headerFault_iff (hf : Follows limits block c) (h : FrameHeader) :
    c.headerFault h = .none ↔ h.length ≤ limits.maxFrameSize.toNat ∧ WrappedRule limits block h ∧
      StreamRule h ∧ LengthRule h := by
  rw [Parser.headerFault_iff, hf.limits]
  refine and_congr_right fun _ => ?_
  rw [← and_assoc]
  refine and_congr_left fun _ => ?_
  cases block with
  | none =>
    simp only [WrappedRule, (hf.closed rfl).1, forall_const, ne_eq, not_true_eq_false,
      false_implies, and_true, Option.not_mem_none, implies_true]
  | some b =>
    obtain ⟨hid, hne, hcount, -⟩ := hf.opened b rfl
    simp only [WrappedRule, hid, hne, hcount, false_implies, true_and, ne_eq, not_false_eq_true,
      forall_const, reduceCtorEq, Option.mem_some_iff, forall_eq', Nat.mod_add_mod]

/-- The parser at the end of a frame, before it finishes the frame. -/
structure AtEnd (limits : Limits) (block : Option OpenBlock) (h : FrameHeader) (payload : Bytes)
    (w : Parser) : Prop where
  current : w.current = h
  limits : w.limits = limits
  octets : w.headerBlockBytes = Reference.blockOctets block h payload
  endStream : w.headerBlockEndStream = Reference.endStream block h
  closed : block = none → w.continuationStream = 0
  opened : ∀ b ∈ block, w.continuationStream = b.streamID ∧ b.streamID ≠ 0 ∧
    w.continuationCount = (b.frames + 1) % 2 ^ 32

theorem Follows.atEnd (hf : Follows limits block c)
    (hno : c.headerBlockBytes + frame.length < 2 ^ 64) :
    AtEnd limits block (decode frame) (frame.drop 9)
      ((c.begun frame).within (frame.drop 9)) := by
  refine ⟨rfl, hf.limits, ?_, ?_, fun hb => (hf.closed hb).1, fun b hb => ?_⟩
  · have hle := blockOctets_le (decode frame) (frame.drop 9)
    rw [length_drop] at hle
    rw [Reference.blockOctets, hf.octets]
    change (c.headerBlockBytes + (decode frame).blockOctets (frame.drop 9)) % 2 ^ 64 = _
    exact Nat.mod_eq_of_lt (by omega)
  · change (if (decode frame).type = .headers ∧ c.continuationStream = 0 then
      (decode frame).flags.has .endStream else c.headerBlockEndStream) = _
    cases block with
    | none =>
      obtain ⟨hzero, -, hfalse⟩ := hf.closed rfl
      simp only [hzero, and_true, hfalse, endStream]
      split_ifs with ht <;> simp [ht]
    | some b =>
      obtain ⟨hid, hne, -, -, hes⟩ := hf.opened b rfl
      rw [if_neg fun h => hne (hid.symm.trans h.2), hes]
      rfl
  · obtain ⟨hid, hne, hcount, -⟩ := hf.opened b hb
    refine ⟨hid, hne, ?_⟩
    change (if c.continuationStream ≠ 0 then (c.continuationCount + 1) % 2 ^ 32
      else c.continuationCount) = _
    rw [if_pos (hid ▸ hne), hcount, Nat.mod_add_mod]

theorem length_payload (hw : Whole frame) :
    (frame.drop 9).length = (decode frame).length := by
  rw [length_drop, hw.length, frameLength, Nat.add_sub_cancel_left]

/-- **What is wrong with a whole frame** for the parser and for the reference, the counter of the
parser apart. -/
theorem Follows.verdict_iff (hf : Follows limits block c) (hw : Whole frame)
    (hno : c.headerBlockBytes + frame.length < 2 ^ 64) :
    c.verdict frame = .none ↔
      (decode frame).length ≤ limits.maxFrameSize.toNat ∧
        WrappedRule limits block (decode frame) ∧
        StreamRule (decode frame) ∧ LengthRule (decode frame) ∧
        PayloadRule (decode frame) (frame.drop 9) ∧
        Reference.blockOctets block (decode frame) (frame.drop 9) ≤
          limits.maxHeaderBlockBytes.toNat := by
  have hlen := length_payload hw
  have hsplit : c.verdict frame = .none ↔ Sound c frame ∧ (c.completed frame).code = .none := by
    constructor
    · intro hv
      have hsound := sound_of_verdict hw.header hv
      rw [hsound.verdict hw.header, if_neg (not_lt.2 hw.length.ge)] at hv
      exact ⟨hsound, hv⟩
    · rintro ⟨hsound, hcode⟩
      rw [hsound.verdict hw.header, if_neg (not_lt.2 hw.length.ge), hcode]
  have hexceeds : ¬(c.begun frame).Exceeds (frame.drop 9) ↔
      Reference.blockOctets block (decode frame) (frame.drop 9) ≤
        limits.maxHeaderBlockBytes.toNat := by
    rw [← (hf.atEnd hno).octets, ← hf.limits]
    exact not_lt
  have hend (hl : LengthRule (decode frame)) : (c.completed frame).code = .none ↔
      ((decode frame).type = .priority →
        (decodePriority ((decode frame).fixedFields (frame.drop 9))).streamDependency ≠
          (decode frame).streamID) ∧
      ((decode frame).type = .windowUpdate → beNat (frame.drop 9) % 2 ^ 31 ≠ 0) := by
    rw [completed, finishFrame_ok (p := (c.begun frame).within (frame.drop 9)) hf.idle.code]
    simp only [finishCalls_iff, exists_eq_left]
    change ((decode frame).type = .priority →
      (decodePriority (((decode frame).fixedFields (frame.drop 9)).take 5)
        ).streamDependency ≠ _) ∧ ((decode frame).type = .windowUpdate →
      beNat (((decode frame).fixedFields (frame.drop 9)).take 4) % 2 ^ 31 ≠ 0) ↔ _
    refine and_congr (forall_congr' fun ht => ?_) (forall_congr' fun ht => ?_)
    · have hfive : ((decode frame).fixedFields (frame.drop 9)).length ≤ 5 := by
        simp +decide [fixedFields, mayPad, fixedOctets, ht]
      rw [take_of_length_le hfive]
      rfl
    · have hfour := hl.2.1 (by simp [ht])
      simp +decide only [fixedOctets, ht, if_false, if_true] at hfour
      have hfields : (decode frame).fixedFields (frame.drop 9) = frame.drop 9 := by
        simp +decide only [fixedFields, mayPad, fixedOctets, ht,
          if_false, if_true, or_false]
        exact take_of_length_le (by omega)
      rw [hfields, take_of_length_le (by omega)]
  rw [hsplit]
  constructor
  · rintro ⟨⟨hhead, hpay, hblock⟩, hcode⟩
    obtain ⟨hsize, hseq, hstream, hl⟩ := (hf.headerFault_iff _).1 hhead
    obtain ⟨hpad, hprio, hset, hpush⟩ := (payloadFault_iff hl hlen).1 hpay
    obtain ⟨hprio', hwin⟩ := (hend hl).1 hcode
    have hset' := fun ht x hx => (validSetting_iff x).1 (hset ht x hx)
    exact ⟨hsize, hseq, hstream, hl, ⟨hpad, fun h => h.elim hprio hprio', hset', hpush, hwin⟩,
      hexceeds.1 hblock⟩
  · rintro ⟨hsize, hseq, hstream, hl, ⟨hpad, hprio, hset, hpush, hwin⟩, hblock⟩
    have hset' := fun ht x hx => (validSetting_iff x).2 (hset ht x hx)
    exact ⟨⟨(hf.headerFault_iff _).2 ⟨hsize, hseq, hstream, hl⟩,
      (payloadFault_iff hl hlen).2 ⟨hpad, fun h => hprio (.inl h), hset', hpush⟩,
      hexceeds.2 hblock⟩, (hend hl).2 ⟨fun h => hprio (.inr h), hwin⟩⟩

theorem finishBlock_eq (w : Parser) :
    w.finishBlock =
      if w.current.carriesBlock then
        if w.current.flags.has .endHeaders then
          ({ w with
              continuationStream := 0, continuationCount := 0, headerBlockBytes := 0
              headerBlockEndStream := false },
            [.headerBlockEnd w.current.streamID w.headerBlockEndStream])
        else if w.continuationStream = 0 then
          ({ w with continuationStream := w.current.streamID, continuationCount := 0 }, [])
        else (w, [])
      else (w, []) :=
  rfl

theorem AtEnd.blockCalls {w : Parser} (hw : AtEnd limits block h payload w) :
    w.finishBlock.2 = Reference.blockCalls block h := by
  obtain ⟨rfl, -, -, hend, -⟩ := hw
  rw [Reference.blockCalls, ← hend, finishBlock_eq]
  by_cases hcb : w.current.carriesBlock
  · by_cases heh : w.current.flags.has .endHeaders = true
    · simp [hcb, heh]
    · simp only [hcb, heh, if_true, Bool.false_eq_true, and_false, if_false]
      split <;> rfl
  · simp [hcb]

/-- The parser finishes the frame: its header block ends, begins or goes on, or there is none. -/
theorem AtEnd.follows {w q : Parser} (hw : AtEnd limits block h payload w) (hidle : Idle q)
    (hseq : WrappedRule limits block h) (hstream : StreamRule h)
    (hq : q = { w.finishBlock.1 with
      header := [], current := {}, payloadN := 0, fixed := [], fixedNeed := 0, state := .start
      paused := w.finishBlock.1.pauseAfterFrame }) :
    Follows limits (nextBlock block h payload) q := by
  obtain ⟨rfl, hlimits, hoctets, hend, hclosed, hopened⟩ := hw
  rw [finishBlock_eq] at hq
  unfold nextBlock
  by_cases hcb : w.current.carriesBlock
  · rw [if_pos hcb] at hq ⊢
    by_cases heh : w.current.flags.has .endHeaders = true
    · rw [if_pos heh] at hq ⊢
      subst hq
      exact ⟨hidle, hlimits, fun _ => ⟨rfl, rfl, rfl⟩, nofun⟩
    rw [if_neg heh] at hq ⊢
    have hid : w.current.streamID ≠ 0 := by
      refine hstream.1 ?_
      rcases hcb with ht | ht | ht <;> simp [ht]
    cases block with
    | none =>
      rw [if_pos (hclosed rfl)] at hq
      subst hq
      refine ⟨hidle, hlimits, nofun, fun b hb => ?_⟩
      obtain rfl := Option.mem_some_iff.1 hb
      exact ⟨rfl, hid, rfl, hoctets, hend⟩
    | some b =>
      obtain ⟨hsame, hne, hcount⟩ := hopened b rfl
      rw [if_neg (hsame ▸ hne)] at hq
      subst hq
      refine ⟨hidle, hlimits, nofun, fun b' hb => ?_⟩
      obtain rfl := Option.mem_some_iff.1 hb
      exact ⟨hsame.trans (hseq.2 b rfl).2.1.symm, hid, hcount, hoctets, hend⟩
  · obtain rfl : block = none := by
      cases block with
      | none => rfl
      | some b => exact absurd (.inr (.inr (hseq.2 b rfl).1)) hcb
    rw [if_neg hcb] at hq ⊢
    subst hq
    unfold carriesBlock at hcb
    rw [not_or, not_or] at hcb
    refine ⟨hidle, hlimits, fun _ => ⟨hclosed rfl, hoctets.trans ?_, hend.trans ?_⟩, nofun⟩
    · simp [Reference.blockOctets, FrameHeader.blockOctets, hcb]
    · simp [Reference.endStream, hcb]

/-- **A whole frame in which nothing is wrong** takes the parser where it takes the reference, with
the callbacks that the reference decodes. -/
theorem Follows.completed (hf : Follows limits block c) (hw : Whole frame)
    (hno : c.headerBlockBytes + frame.length < 2 ^ 64) (hv : c.verdict frame = .none) :
    Follows limits (nextBlock block (decode frame) (frame.drop 9))
        (c.completed frame).parser ∧
      callsSoFar frame ++ (c.completed frame).calls =
        octetCalls (frameCalls block (decode frame) (frame.drop 9)) := by
  have hidle := (completes hf.idle hw hv).idle
  obtain ⟨-, hseq, hstream, hl, -, -⟩ := (hf.verdict_iff hw hno).1 hv
  have hsound := sound_of_verdict hw.header hv
  rw [hsound.verdict hw.header, if_neg (not_lt.2 hw.length.ge)] at hv
  have heq := finishFrame_eq (p := (c.begun frame).within (frame.drop 9)) hf.idle.code hv
  have hat := hf.atEnd hno
  refine ⟨hat.follows hidle hseq hstream (congrArg Boundary.parser heq), ?_⟩
  have hself : octetCalls (blockCalls block (decode frame)) =
      blockCalls block (decode frame) := by
    unfold blockCalls
    split_ifs <;> rfl
  have hfixed : ((c.begun frame).within (frame.drop 9)).fixed =
      (decode frame).fixedFields (frame.drop 9) := rfl
  rw [Parser.completed, heq, hat.blockCalls, hat.current, hfixed, frameCalls, octetCalls_append,
    octetCalls_append, hself, callsSoFar, if_neg (by have := hw.header; omega)]
  change _ = (.frameBegin (decode frame) :: octetCalls _) ++ _ ++
    [.frameComplete (decode frame)]
  rw [octetCalls_bodyCalls hl (length_payload hw)]
  simp only [cons_append, append_assoc]

/-! ## Whole byte strings -/

/-- The CONTINUATION frames of the open block are within the limit. -/
def Counted (limits : Limits) (block : Option OpenBlock) : Prop :=
  ∀ b ∈ block, b.frames ≤ limits.maxContinuationFrames.toNat

theorem counted_nextBlock (hr : SequenceRule limits block h) (hc : Counted limits block) :
    Counted limits (nextBlock block h payload) := by
  unfold nextBlock
  split_ifs
  · exact nofun
  · intro b hb
    obtain rfl := Option.mem_some_iff.1 hb
    cases block with
    | none => exact Nat.zero_le _
    | some b => exact (hr.2 b rfl).2.2
  · exact hc

/-- The reference decodes a frame, and what follows it. -/
theorem decodeFrom_frame {rest : Bytes} (hw : Whole frame) :
    decodeFrom limits (fuel + 1) block (frame ++ rest) =
      if Admits limits block (decode frame) (frame.drop 9) then
        (decodeFrom limits fuel (nextBlock block (decode frame) (frame.drop 9))
          rest).map (frameCalls block (decode frame) (frame.drop 9) ++ ·)
      else none := by
  have hnine := hw.header
  have hlength := hw.length
  have hdecode := decode_append hnine rest
  have hframe : frameLength (frame ++ rest) = frame.length :=
    (frameLength_append hnine rest).trans hlength.symm
  have hpayload : ((frame ++ rest).drop 9).take (frame.length - 9) = frame.drop 9 := by
    rw [drop_append_of_le_length hnine, take_append_of_le_length,
      take_of_length_le] <;> rw [length_drop]
  rw [decodeFrom, if_neg, if_neg, hframe, hdecode, hpayload, drop_left]
  · rw [hframe, length_append]
    omega
  · intro hnil
    rw [(append_eq_nil_iff.1 hnil).1] at hnine
    simp at hnine

/-- What the parser accepts the reference decodes, as long as the counter of CONTINUATION frames
does not wrap. -/
theorem decodeFrom_of_accepts (hmax : limits.maxContinuationFrames ≠ 0xffffffff)
    (hf : Follows limits block c) (hcount : Counted limits block) (hfuel : fs.flatten.length ≤ fuel)
    (hno : c.headerBlockBytes + fs.flatten.length < 2 ^ 64) (ha : c.Accepts fs)
    (hclosed : (c.passed fs).continuationStream = 0) :
    ∃ calls, decodeFrom limits fuel block fs.flatten = some calls ∧
      octetCalls calls = c.passedCalls fs := by
  induction fs generalizing c block fuel with
  | nil =>
    have hnone : block = none := by
      cases block with
      | none => rfl
      | some b =>
        obtain ⟨hid, hne, -⟩ := hf.opened b rfl
        exact absurd (hid.symm.trans hclosed) hne
    subst hnone
    cases fuel <;> exact ⟨[], rfl, rfl⟩
  | cons f fs ih =>
    obtain ⟨hw, hv, ha⟩ := ha
    have hnine := hw.header
    rw [flatten_cons, length_append] at hfuel hno
    obtain ⟨hnext, hcalls⟩ := hf.completed hw (by omega) hv
    obtain ⟨hsize, hseq, hstream, hl, hpay, hoctets⟩ := (hf.verdict_iff hw (by omega)).1 hv
    have hlt : limits.maxContinuationFrames.toNat < 2 ^ 32 - 1 := by
      have hle := limits.maxContinuationFrames.toNat_lt
      have hne : limits.maxContinuationFrames.toNat ≠ 2 ^ 32 - 1 := fun h =>
        hmax (UInt32.toNat_inj.1 h)
      omega
    have hrule : SequenceRule limits block (decode f) := by
      refine ⟨hseq.1, fun b hb => ?_⟩
      obtain ⟨ht, hid, hle⟩ := hseq.2 b hb
      have := hcount b hb
      rw [Nat.mod_eq_of_lt (by omega)] at hle
      exact ⟨ht, hid, hle⟩
    have hblock := (completes hf.idle hw hv).block
    obtain ⟨fuel, rfl⟩ : ∃ n, fuel = n + 1 := Nat.exists_eq_add_one.2 (by omega)
    have hfuel' : fs.flatten.length ≤ fuel := by omega
    obtain ⟨calls, hdecode, hpassed⟩ := ih hnext (counted_nextBlock hrule hcount) hfuel' (by omega)
      ha hclosed
    refine ⟨frameCalls block (decode f) (f.drop 9) ++ calls, ?_, ?_⟩
    · rw [flatten_cons, decodeFrom_frame hw,
        if_pos ⟨hsize, hrule, hstream, hl, hpay, hoctets⟩, hdecode]
      rfl
    · rw [octetCalls_append, hpassed, ← hcalls]
      rfl

/-- What the reference decodes the parser accepts. -/
theorem accepts_of_decodeFrom (hf : Follows limits block c)
    (hno : c.headerBlockBytes + bs.length < 2 ^ 64)
    (h : decodeFrom limits fuel block bs = some calls) :
    ∃ fs, c.Accepts fs ∧ bs = fs.flatten ∧ (c.passed fs).continuationStream = 0 ∧
      octetCalls calls = c.passedCalls fs := by
  induction fuel generalizing c block bs calls with
  | zero =>
    unfold decodeFrom at h
    split at h
    · next hend =>
      obtain ⟨rfl, rfl⟩ := hend
      obtain rfl := Option.some.inj h
      exact ⟨[], trivial, rfl, (hf.closed rfl).1, rfl⟩
    · cases h
  | succ fuel ih =>
    by_cases hnil : bs = []
    · subst hnil
      rw [decodeFrom, if_pos rfl] at h
      split at h
      · next hnone =>
        subst hnone
        obtain rfl := Option.some.inj h
        exact ⟨[], trivial, rfl, (hf.closed rfl).1, rfl⟩
      · cases h
    by_cases hshort : bs.length < 9 ∨ bs.length < frameLength bs
    · rw [decodeFrom, if_neg hnil, if_pos hshort] at h
      cases h
    rw [not_or, not_lt, not_lt] at hshort
    obtain ⟨hnine, hlong⟩ := hshort
    have hge : 9 ≤ frameLength bs := le_self_add
    have htake : (bs.take (frameLength bs)).length = frameLength bs := by
      rw [length_take]
      omega
    have hsplit := take_append_drop (frameLength bs) bs
    have hsame : frameLength (bs.take (frameLength bs) ++ bs.drop (frameLength bs)) =
        frameLength (bs.take (frameLength bs)) := frameLength_append (by omega) _
    rw [hsplit] at hsame
    have hw : Whole (bs.take (frameLength bs)) := ⟨by omega, htake.trans hsame⟩
    rw [← hsplit, decodeFrom_frame hw] at h
    have hno' : c.headerBlockBytes + (bs.take (frameLength bs)).length < 2 ^ 64 := by omega
    split at h
    · next hadmits =>
      obtain ⟨hsize, hseq, hstream, hl, hpay, hoctets⟩ := hadmits
      have hwrapped : WrappedRule limits block (decode (bs.take (frameLength bs))) := by
        refine ⟨hseq.1, fun b hb => ?_⟩
        obtain ⟨ht, hid, hle⟩ := hseq.2 b hb
        exact ⟨ht, hid, (Nat.mod_le _ _).trans hle⟩
      have hv := (hf.verdict_iff hw hno').2 ⟨hsize, hwrapped, hstream, hl, hpay, hoctets⟩
      obtain ⟨hnext, hcalls⟩ := hf.completed hw hno' hv
      have hblock := (completes hf.idle hw hv).block
      obtain ⟨calls', hrest, rfl⟩ := Option.map_eq_some_iff.1 h
      obtain ⟨fs, ha, hfs, hclosed, hpassed⟩ := ih hnext (by
        rw [length_drop]
        omega) hrest
      refine ⟨_ :: fs, ⟨hw, hv, ha⟩, ?_, hclosed, ?_⟩
      · rw [flatten_cons, ← hfs, hsplit]
      · rw [octetCalls_append, ← hcalls, hpassed]
        rfl
    · cases h

/-- A whole byte string, read from the beginning. -/
theorem parse_reads_all (limits : Limits) (hlen : src.length < 2 ^ 63) :
    ∃ fs rest, ((newParser limits).parse src).Reads (newParser limits) [] src fs rest := by
  have hc := calm_newParser limits
  refine parse_reads hc (hc.rested.trans (after_nil hc.idle).symm) ?_ (stands_nil _)
  change 0 + src.length < _
  omega

/-- The parser reads whole frames in which nothing is wrong. -/
theorem parse_of_accepts (hlen : fs.flatten.length < 2 ^ 63) (ha : (newParser limits).Accepts fs) :
    ((newParser limits).parse fs.flatten).code = .none ∧
      ((newParser limits).parse fs.flatten).parser.rested = (newParser limits).passed fs ∧
      octetCalls ((newParser limits).parse fs.flatten).calls =
        (newParser limits).passedCalls fs := by
  obtain ⟨fs', rest, hreads⟩ := parse_reads_all limits hlen
  have hidle := ((calm_newParser limits).passed ha).idle
  obtain ⟨rfl, rfl⟩ := frames_unique hreads.accepts ha hreads.ends (stands_nil _).ends (by
    rw [← hreads.octets, append_nil]
    rfl)
  have hcode : ((newParser limits).parse fs'.flatten).code = .none := by
    by_contra hne
    obtain ⟨-, m, -, hstops⟩ := hreads.stops hne
    exact (stands_nil _).not_stops hstops
  obtain ⟨-, -, hparser, hcalls⟩ := hreads.goes hcode
  rw [after_nil hidle] at hparser
  exact ⟨hcode, hparser, by simpa [callsSoFar] using hcalls⟩

/-- **What the parser accepts** is whole frames, the last header block complete. -/
theorem parse_accepts_iff (limits : Limits) (hlen : src.length < 2 ^ 63) :
    (((newParser limits).parse src).code = .none ∧
        ((newParser limits).parse src).parser.finish.2 = .none) ↔
      ∃ fs, (newParser limits).Accepts fs ∧ src = fs.flatten ∧
        ((newParser limits).passed fs).continuationStream = 0 := by
  constructor
  · rintro ⟨hcode, hfinish⟩
    obtain ⟨fs, rest, hreads⟩ := parse_reads_all limits hlen
    have hidle := ((calm_newParser limits).passed hreads.accepts).idle
    obtain ⟨-, -, hparser, hcalls⟩ := hreads.goes hcode
    have hpcode : ((newParser limits).parse src).parser.code = .none := by
      have := congrArg Parser.code hparser
      rw [(after_flags _ rest).1, hidle.code] at this
      exact this
    have hclosed : ((newParser limits).parse src).parser.header = [] ∧
        ((newParser limits).parse src).parser.continuationStream = 0 := by
      unfold finish at hfinish
      rw [if_neg (not_not.2 hpcode)] at hfinish
      split at hfinish
      · exact absurd hfinish (fail_code_ne (by decide))
      · next hnone =>
        rwa [not_or, not_not, not_not] at hnone
    have hheader := (congrArg Parser.header hparser).symm.trans hclosed.1
    have hstream := (congrArg Parser.continuationStream hparser).symm.trans hclosed.2
    obtain rfl : rest = [] := by
      unfold after at hheader
      split at hheader
      · exact hheader
      · next hge =>
        have hzero := congrArg List.length hheader
        rw [show ((((newParser limits).passed fs).begun rest).within _).header = rest.take 9 from
          rfl, length_take, length_nil] at hzero
        omega
    rw [after_nil hidle] at hstream
    exact ⟨fs, hreads.accepts, by simpa using hreads.octets, hstream⟩
  · rintro ⟨fs, ha, rfl, hclosed⟩
    have hidle := ((calm_newParser limits).passed ha).idle
    obtain ⟨hcode, hparser, -⟩ := parse_of_accepts hlen ha
    refine ⟨hcode, ?_⟩
    have hpcode : ((newParser limits).parse fs.flatten).parser.code = .none :=
      (congrArg Parser.code hparser).trans hidle.code
    have hheader : ((newParser limits).parse fs.flatten).parser.header = [] :=
      (congrArg Parser.header hparser).trans hidle.header
    have hstream : ((newParser limits).parse fs.flatten).parser.continuationStream = 0 :=
      (congrArg Parser.continuationStream hparser).trans hclosed
    rw [finish, if_neg (not_not.2 hpcode), if_neg]
    rw [hheader, hstream]
    simp

/-- The parser accepts `src` if and only if the reference does, and calls back what the reference
decodes. -/
def Agrees (limits : Limits) (src : Bytes) : Prop :=
  ((((newParser limits).parse src).code = .none ∧
      ((newParser limits).parse src).parser.finish.2 = .none) ↔
    ∃ calls, Reference.decode limits src = some calls) ∧
  ∀ calls, Reference.decode limits src = some calls →
    mergeCalls ((newParser limits).parse src).calls = mergeCalls calls

theorem solid_span (hmk : ∀ fragment, (mk fragment).octets = fragment.map fun b => mk [b])
    (fragment : Bytes) :
    Solid (span mk fragment) := by
  unfold span
  split
  · exact solid_nil
  · next hne => exact solid_singleton (by simpa [hmk] using hne)

theorem solid_frameCalls (block : Option OpenBlock) (h : FrameHeader) (payload : Bytes) :
    Solid (frameCalls block h payload) := by
  have hone {call : Callback} (hcall : call.octets = [call]) : Solid [call] :=
    solid_singleton (by simp [hcall])
  have hbody : Solid (bodyCalls h payload) := by
    unfold bodyCalls
    split_ifs
    · exact solid_span (fun _ => rfl) _
    · exact solid_append (hone rfl) (solid_span (fun _ => rfl) _)
    · exact solid_append solid_nil (solid_span (fun _ => rfl) _)
    · exact solid_append (hone rfl) (solid_span (fun _ => rfl) _)
    · exact solid_span (fun _ => rfl) _
    · refine solid_append (fun call hcall => ?_) (hone rfl)
      obtain ⟨x, -, rfl⟩ := mem_map.1 hcall
      simp [Callback.octets]
    · exact solid_append (solid_span (fun _ => rfl) _) (hone rfl)
    · exact hone rfl
    · exact hone rfl
    · exact hone rfl
    · exact hone rfl
    · exact solid_span (fun _ => rfl) _
  have hblock : Solid (blockCalls block h) := by
    unfold blockCalls
    split_ifs
    · exact hone rfl
    · exact solid_nil
  exact solid_append (solid_append (solid_append (hone rfl) hbody) hblock) (hone rfl)

theorem solid_decodeFrom (h : decodeFrom limits fuel block bs = some calls) : Solid calls := by
  induction fuel generalizing block bs calls with
  | zero =>
    unfold decodeFrom at h
    split_ifs at h
    obtain rfl := Option.some.inj h
    exact solid_nil
  | succ fuel ih =>
    unfold decodeFrom at h
    split_ifs at h
    · obtain rfl := Option.some.inj h
      exact solid_nil
    · obtain ⟨calls', hrest, rfl⟩ := Option.map_eq_some_iff.1 h
      exact solid_append (solid_frameCalls _ _ _) (ih hrest)

theorem agrees (limits : Limits) (hmax : limits.normalized.maxContinuationFrames ≠ 0xffffffff)
    (hlen : src.length < 2 ^ 63) : Agrees limits src := by
  have hf := follows_newParser limits
  have hno : (newParser limits).headerBlockBytes + src.length < 2 ^ 64 := by
    change 0 + src.length < _
    omega
  have hparse := parse_accepts_iff limits hlen
  refine ⟨⟨fun hok => ?_, ?_⟩, fun calls hcalls => ?_⟩
  · obtain ⟨fs, ha, rfl, hclosed⟩ := hparse.1 hok
    obtain ⟨calls, hcalls, -⟩ :=
      decodeFrom_of_accepts hmax hf nofun le_rfl hno ha hclosed
    exact ⟨calls, hcalls⟩
  · rintro ⟨calls, hcalls⟩
    obtain ⟨fs, ha, hsrc, hclosed, -⟩ := accepts_of_decodeFrom hf hno hcalls
    exact hparse.2 ⟨fs, ha, hsrc, hclosed⟩
  · obtain ⟨fs, ha, rfl, -, hpassed⟩ := accepts_of_decodeFrom hf hno hcalls
    rw [← mergeCalls_octetCalls (solid_decodeFrom hcalls), hpassed,
      ← (parse_of_accepts hlen ha).2.2]
    exact (mergeCalls_octetCalls (solid_runParse _ _ _)).symm

/-! ## The counter that wraps -/

/-- An empty frame of a header block on stream 1. -/
def emptyFrame (type : FrameType) (flags : Flags) : Bytes := frameBytes type flags 1 []

/-- A header block of an empty HEADERS frame, `n` empty CONTINUATION frames and an empty one that
ends it. -/
def emptyBlock (n : ℕ) : List Bytes :=
  emptyFrame .headers 0 :: (replicate n (emptyFrame .continuation 0) ++
    [emptyFrame .continuation .endHeaders])

theorem length_emptyBlock (n : ℕ) : (emptyBlock n).flatten.length = 9 * (n + 2) := by
  have hframes : ((replicate n (emptyFrame .continuation 0)).flatten).length = n * 9 := by
    induction n with
    | zero => rfl
    | succ n ih =>
      rw [replicate_succ, flatten_cons, length_append, ih]
      change 9 + n * 9 = _
      omega
  rw [emptyBlock, flatten_cons, flatten_append, length_append, length_append,
    hframes]
  change 9 + (n * 9 + 9) = _
  omega

/-- The parser takes an empty CONTINUATION frame after any number of them if the limit is as large
as the counter. -/
theorem Follows.emptyFrame (hmax : limits.maxContinuationFrames = 0xffffffff)
    (hf : Follows limits (some { streamID := 1, frames := k }) c) {flags : Flags}
    (hflags : flags = 0 ∨ flags = .endHeaders) (hno : c.headerBlockBytes + 9 < 2 ^ 64) :
    Whole (emptyFrame .continuation flags) ∧
    c.verdict (emptyFrame .continuation flags) = .none := by
  have hw : Whole (Parser.emptyFrame .continuation flags) := by
    rcases hflags with rfl | rfl <;> exact ⟨by decide, by decide⟩
  refine ⟨hw, (hf.verdict_iff hw ?_).2 ⟨?_, ⟨nofun, fun b hb => ?_⟩, ?_⟩⟩
  · rcases hflags with rfl | rfl <;> exact hno
  · rcases hflags with rfl | rfl <;> exact Nat.zero_le _
  · obtain rfl := Option.mem_some_iff.1 hb
    rw [hmax]
    refine ⟨?_, ?_, ?_⟩
    · rcases hflags with rfl | rfl <;> decide
    · rcases hflags with rfl | rfl <;> rfl
    · change (k + 1) % 2 ^ 32 ≤ 2 ^ 32 - 1
      omega
  · rcases hflags with rfl | rfl
    · exact ⟨by decide, by decide, by decide, Nat.zero_le _⟩
    · exact ⟨by decide, by decide, by decide, Nat.zero_le _⟩

theorem accepts_emptyFrames (hmax : limits.maxContinuationFrames = 0xffffffff)
    (hf : Follows limits (some { streamID := 1, frames := k }) c) :
    c.Accepts (replicate n (emptyFrame .continuation 0) ++
        [emptyFrame .continuation .endHeaders]) ∧
      (c.passed (replicate n (emptyFrame .continuation 0) ++
        [emptyFrame .continuation .endHeaders])).continuationStream = 0 := by
  induction n generalizing k c with
  | zero =>
    have hno : c.headerBlockBytes + 9 < 2 ^ 64 := by
      rw [(hf.opened _ rfl).2.2.2.1]
      change 0 + 9 < _
      decide
    obtain ⟨hw, hv⟩ := hf.emptyFrame hmax (.inr rfl) hno
    have hnext := (hf.completed hw hno hv).1
    exact ⟨⟨hw, hv, trivial⟩, (hnext.closed rfl).1⟩
  | succ n ih =>
    have hno : c.headerBlockBytes + 9 < 2 ^ 64 := by
      rw [(hf.opened _ rfl).2.2.2.1]
      change 0 + 9 < _
      decide
    obtain ⟨hw, hv⟩ := hf.emptyFrame hmax (.inl rfl) hno
    have hnext : Follows limits (some { streamID := 1, frames := k + 1 }) _ :=
      (hf.completed hw hno hv).1
    obtain ⟨ha, hclosed⟩ := ih hnext
    exact ⟨⟨hw, hv, ha⟩, hclosed⟩

/-- The reference does not take more than the limit. -/
theorem decodeFrom_emptyFrames (hmany : limits.maxContinuationFrames.toNat ≤ k + n) :
    decodeFrom limits fuel (some { streamID := 1, frames := k })
      (replicate n (emptyFrame .continuation 0) ++
        [emptyFrame .continuation .endHeaders]).flatten = none := by
  induction n generalizing k fuel with
  | zero =>
    cases fuel with
    | zero => rfl
    | succ fuel =>
      have hw : Whole (emptyFrame .continuation .endHeaders) := ⟨by decide, by decide⟩
      rw [replicate_zero, nil_append, flatten_cons, decodeFrom_frame hw, if_neg]
      rintro ⟨-, hseq, -⟩
      have := (hseq.2 _ rfl).2.2
      simp only at this
      omega
  | succ n ih =>
    cases fuel with
    | zero => rfl
    | succ fuel =>
      have hw : Whole (emptyFrame .continuation 0) := ⟨by decide, by decide⟩
      rw [replicate_succ, cons_append, flatten_cons, decodeFrom_frame hw]
      split
      · have hrest : decodeFrom limits fuel (some { streamID := 1, frames := k + 1 }) _ = none :=
          ih (by omega)
        rw [show nextBlock (some { streamID := 1, frames := k })
          (decode (emptyFrame .continuation 0)) ((emptyFrame .continuation 0).drop 9) =
            some { streamID := 1, frames := k + 1 } from rfl, hrest]
        rfl
      · rfl

/-- With the largest limit the parser takes more CONTINUATION frames than the limit. -/
theorem emptyBlock_diverges (limits : Limits)
    (hmax : limits.normalized.maxContinuationFrames = 0xffffffff) (hmany : 2 ^ 32 - 1 ≤ n)
    (hlen : 9 * (n + 2) < 2 ^ 63) :
    (((newParser limits).parse (emptyBlock n).flatten).code = .none ∧
        ((newParser limits).parse (emptyBlock n).flatten).parser.finish.2 = .none) ∧
      Reference.decode limits (emptyBlock n).flatten = none := by
  have hf := follows_newParser limits
  have hw : Whole (emptyFrame .headers 0) := ⟨by decide, by decide⟩
  have hno : (newParser limits).headerBlockBytes + (emptyFrame .headers 0).length < 2 ^ 64 := by
    change 0 + 9 < _
    decide
  have hv : (newParser limits).verdict (emptyFrame .headers 0) = .none :=
    (hf.verdict_iff hw hno).2 ⟨Nat.zero_le _, ⟨fun _ => by decide, nofun⟩, by decide, by decide,
      by decide, Nat.zero_le _⟩
  have hnext : Follows limits.normalized (some { streamID := 1 }) _ := (hf.completed hw hno hv).1
  obtain ⟨ha, hclosed⟩ := accepts_emptyFrames (n := n) hmax hnext
  refine ⟨(parse_accepts_iff limits (by rwa [length_emptyBlock])).2
    ⟨emptyBlock n, ⟨hw, hv, ha⟩, rfl, hclosed⟩, ?_⟩
  rw [Reference.decode, length_emptyBlock, emptyBlock, flatten_cons,
    show 9 * (n + 2) = (9 * n + 17) + 1 by omega, decodeFrom_frame hw]
  split
  · rw [show nextBlock none (decode (emptyFrame .headers 0))
      ((emptyFrame .headers 0).drop 9) = some { streamID := 1 } from rfl,
      decodeFrom_emptyFrames (by
        rw [hmax, Nat.zero_add]
        exact hmany)]
    rfl
  · rfl

/-! ## No subtraction wraps -/

/-- The subtractions of the parser inside a frame: what is left of the payload, the room for the
padding, the length of the content and what is left of it, and the octets missing of the fixed
fields. -/
structure Subtracts (p : Parser) : Prop where
  payload : p.payloadN ≤ p.current.length
  padding : p.current.mayPad → padOctets p.current + p.current.fixedOctets ≤ p.current.length
  content : p.current.mayPad → p.current.contentStart + p.padLength ≤ p.current.length
  contentLeft : p.contentN ≤ p.current.length - p.payloadN
  fixed : p.fixed.length ≤ p.current.fixedOctets

theorem length_fixedFields_le (h : FrameHeader) (acc : Bytes) :
    (h.fixedFields acc).length ≤ h.fixedOctets := by
  unfold fixedFields
  split_ifs with hp hset
  · rw [length_take]
    exact min_le_left _ _
  · have hsix : h.fixedOctets = 6 := by simp +decide [fixedOctets, hset]
    rw [length_settingRest, hsix]
    omega
  · rw [length_take]
    exact min_le_left _ _

theorem subtracts_of_stands {acc : Bytes} (h : Stands c acc) (hlen : 9 ≤ acc.length) :
    Subtracts (c.after acc) := by
  have hsound := sound_of_verdict hlen h.verdict
  have hopen := h.open_ hlen
  have hframe : frameLength acc = 9 + (decode acc).length := rfl
  have hpay : (acc.drop 9).length = acc.length - 9 := length_drop
  obtain ⟨-, -, -, -, hl⟩ := (headerFault_iff c _).1 hsound.header
  have hpads (hp : (decode acc).mayPad) :
      (decode acc).padLength (acc.drop 9) ≤
        (decode acc).length - (decode acc).contentStart := by
    by_contra hlt
    have hfault := hsound.payload
    rw [payloadFault, if_pos ⟨hp, not_le.1 hlt⟩] at hfault
    cases hfault
  rw [after, if_neg (by omega)]
  refine ⟨?_, hl.1, fun hp => ?_, ?_, length_fixedFields_le _ _⟩
  · change (acc.drop 9).length ≤ (decode acc).length
    omega
  · have hstart := hl.1 hp
    have hle := hpads hp
    change (decode acc).contentStart +
      (decode acc).padLength (acc.drop 9) ≤ (decode acc).length
    omega
  · change (if _ then _ else _) ≤ (decode acc).length - (acc.drop 9).length
    split_ifs
    · exact Nat.sub_le_sub_right (Nat.sub_le _ _) _
    · exact Nat.zero_le _

/-- **The parser accepts its grammar and decodes it.** With every limit but the largest on
CONTINUATION frames, the parser accepts a byte string (no longer than a slice can be) if and only if
the reference does, and calls back what the reference decodes, adjacent fragments merged. Wherever
the input ends without a failure, no subtraction of the parser wraps. -/
theorem parse_grammar (limits : Limits) :
    ((∀ src : Bytes, src.length < 2 ^ 63 → Agrees limits src) ↔
        limits.maxContinuationFrames ≠ 0xffffffff) ∧
      ∀ src : Bytes, src.length < 2 ^ 63 → ((newParser limits).parse src).code = .none →
        ((newParser limits).parse src).parser.header.length ≤ 9 ∧
          (((newParser limits).parse src).parser.header.length = 9 →
            Subtracts ((newParser limits).parse src).parser) := by
  have hnormal : limits.normalized.maxContinuationFrames = 0xffffffff ↔
      limits.maxContinuationFrames = 0xffffffff := by
    simp only [Limits.normalized]
    split_ifs with hzero
    · rw [hzero]
      decide
    · exact Iff.rfl
  refine ⟨⟨fun hall hmax => ?_, fun hmax src => agrees limits (mt hnormal.1 hmax)⟩,
    fun src hlen hcode => ?_⟩
  · obtain ⟨hok, hnone⟩ := emptyBlock_diverges limits (hnormal.2 hmax)
      (n := 2 ^ 32) (by decide) (by decide)
    obtain ⟨calls, hcalls⟩ := (hall _ (by rw [length_emptyBlock]; decide)).1.1 hok
    rw [hnone] at hcalls
    cases hcalls
  · obtain ⟨fs, rest, hreads⟩ := parse_reads_all limits hlen
    obtain ⟨-, hstands, hparser, -⟩ := hreads.goes hcode
    have hheader := congrArg Parser.header hparser
    change ((newParser limits).parse src).parser.header = _ at hheader
    by_cases hshort : rest.length < 9
    · have hrest : ((newParser limits).parse src).parser.header = rest := by
        rw [hheader, after, if_pos hshort]
      rw [hrest]
      exact ⟨hshort.le, fun h => by omega⟩
    · have hnine : ((newParser limits).parse src).parser.header.length ≤ 9 := by
        rw [hheader, after, if_neg hshort]
        change (rest.take 9).length ≤ 9
        rw [length_take]
        exact min_le_left _ _
      refine ⟨hnine, fun _ => ?_⟩
      have hsub := subtracts_of_stands hstands (not_lt.1 hshort)
      rw [← hparser] at hsub
      exact ⟨hsub.payload, hsub.padding, hsub.content, hsub.contentLeft, hsub.fixed⟩

/-- With the largest limit on CONTINUATION frames, 4294967295, a header block of 4294967297 of them
is accepted. -/
theorem continuation_count_wraps :
    (((newParser { maxContinuationFrames := 0xffffffff }).parse
        (emptyBlock (2 ^ 32)).flatten).code = .none ∧
      ((newParser { maxContinuationFrames := 0xffffffff }).parse
        (emptyBlock (2 ^ 32)).flatten).parser.finish.2 = .none) ∧
      Reference.decode { maxContinuationFrames := 0xffffffff }
        (emptyBlock (2 ^ 32)).flatten = none :=
  emptyBlock_diverges _ (by decide) (by decide) (by decide)

end Parser

end WagoHttp.Http2
