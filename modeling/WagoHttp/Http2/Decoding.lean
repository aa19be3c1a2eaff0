import WagoHttp.Http2.Reading

/-!
# The parser as a decoder of frames

Between two octets the parser is where the octets of the unfinished frame have brought it: it has
passed a number of whole frames, and the rest of its state is computed from the octets since the
last frame boundary. A call of `parse` or `parseOne` therefore does what a decoder does that cuts
its input at the frame boundaries, wherever the input was cut before.
-/

namespace WagoHttp.Http2

open List hiding beq_eq_decide

open FrameHeader

namespace FrameHeader

variable {h : FrameHeader}

/-! ## What the checks of a frame header give -/

/-- The fixed fields of a frame that can be padded fit into it. -/
theorem contentStart_le_length (hv : validateFrameHeader h = .none) (hp : h.mayPad) :
    h.contentStart ≤ h.length := by
  simp only [validateFrameHeader] at hv
  split at hv
  · cases hv
  rcases hp with ht | ht | ht
  · simp +decide [ht] at hv
    simp +decide [contentStart, fixedOctets, ht, Parser.padOctets, hv]
  · simp +decide [ht] at hv
    simp +decide [contentStart, fixedOctets, ht, Parser.padOctets, hv]
  · simp +decide [ht] at hv
    simp +decide only [contentStart, fixedOctets, ht, Parser.padOctets, if_true, if_false]
    omega

/-- A frame that is a fixed field has its length. -/
theorem length_eq_fixedOctets (hv : validateFrameHeader h = .none)
    (ht : h.type = .priority ∨ h.type = .rstStream ∨ h.type = .ping ∨ h.type = .windowUpdate) :
    h.length = h.fixedOctets := by
  simp only [validateFrameHeader] at hv
  split at hv
  · cases hv
  rcases ht with ht | ht | ht | ht <;>
    · simp +decide [ht] at hv
      simp +decide [fixedOctets, ht, hv]

theorem length_mod_six (hv : validateFrameHeader h = .none) (ht : h.type = .settings) :
    h.length % 6 = 0 := by
  simp only [validateFrameHeader] at hv
  split at hv
  · cases hv
  simp +decide [ht] at hv
  split_ifs at hv with hack hz hsix
  · rw [hz]
  · exact hsix

theorem eight_le_length (hv : validateFrameHeader h = .none) (ht : h.type = .goAway) :
    8 ≤ h.length := by
  simp only [validateFrameHeader] at hv
  split at hv
  · cases hv
  simpa +decide [ht] using hv

end FrameHeader

/-- The frame header in the first nine octets of a frame. -/
def FrameHeader.decode (bs : Bytes) : FrameHeader where
  length := beNat (bs.take 3)
  type := bs.getD 3 0
  flags := bs.getD 4 0
  streamID := beNat ((bs.drop 5).take 4) % 2 ^ 31

theorem FrameHeader.decode_append {bs : Bytes} (h : 9 ≤ bs.length) (x : Bytes) :
    decode (bs ++ x) = decode bs := by
  simp only [decode]
  rw [take_append_of_le_length (by omega), drop_append_of_le_length (by omega),
    take_append_of_le_length (by rw [length_drop]; omega),
    getD_eq_getElem?_getD, getD_eq_getElem?_getD, getElem?_append_left (by omega),
    getElem?_append_left (by omega)]
  rfl

/-- The octets of the frame that begins with `bs`, once its header is complete. -/
def frameLength (bs : Bytes) : ℕ := 9 + (decode bs).length

theorem frameLength_append {bs : Bytes} (h : 9 ≤ bs.length) (x : Bytes) :
    frameLength (bs ++ x) = frameLength bs := by
  rw [frameLength, decode_append h, frameLength]

namespace Parser

variable {base c p q : Parser} {acc src : Bytes}

/-! ## The payload -/

theorem reads_payloadStep (hv : validateFrameHeader base.current = .none)
    (hcode : base.code = .none) (h : Within base acc p)
    (hfault : base.current.payloadFault acc = .none) (hlt : acc.length < base.current.length)
    (hs : src ≠ []) : (p.payloadStep src).Reads base acc src := by
  have hfits := contentStart_le_length hv
  have hfixed := length_eq_fixedOctets hv
  have hfield (need : ℕ) (hneed : base.current.fixedOctets = need)
      (ht : base.current.type = .priority ∨ base.current.type = .rstStream ∨
        base.current.type = .ping ∨ base.current.type = .windowUpdate) :
      (p.parseFixed src need).Reads base acc src := by
    subst hneed
    exact reads_parseFixed h ht (hfixed ht) hlt hs
  unfold payloadStep
  rw [h.current]
  split_ifs with hd hh hpr hr hset hpp hpi hg hw hc
  · exact reads_parseData hcode h hfault (hfits (.inl hd)) hlt hs hd
  · exact reads_parseHeaders hcode h hfault (hfits (.inr (.inl hh))) hlt hs hh
  · exact hfield 5 (by simp +decide [fixedOctets, hpr]) (.inl hpr)
  · exact hfield 4 (by simp +decide [fixedOctets, hr]) (.inr (.inl hr))
  · exact reads_parseSettings hset hcode (length_mod_six hv hset) h hfault hlt hs
  · exact reads_parsePushPromise hcode h hfault (hfits (.inr (.inr hpp))) hlt hs hpp
  · exact hfield 8 (by simp +decide [fixedOctets, hpi]) (.inr (.inr (.inl hpi)))
  · exact reads_parseGoAway hg h (eight_le_length hv hg) hlt hs
  · exact hfield 4 (by simp +decide [fixedOctets, hw]) (.inr (.inr (.inr hw)))
  · have hcont := reads_continuation hcode h hc hlt hs
    rwa [h.current] at hcont
  · refine reads_parseUnknown h ?_ hlt hs
    simp [hd, hh, hpr, hr, hset, hpp, hpi, hg, hw, hc]

/-- A pass that ends neither the frame nor the call has taken the whole input. -/
theorem reads_parsePayload (hv : validateFrameHeader base.current = .none)
    (hcode : base.code = .none) (h : Within base acc p)
    (hfault : base.current.payloadFault acc = .none) (hle : acc.length ≤ base.current.length) :
    (p.parsePayload src).Reads base acc src := by
  unfold parsePayload parsePayloadLoop
  split
  · next hgo =>
    obtain ⟨hs, hlt⟩ := hgo
    rw [h.current, h.payloadN] at hlt
    have hstep := reads_payloadStep hv hcode h hfault hlt hs
    simp only
    split
    · exact hstep
    · next hgoes =>
      rw [not_or, not_not, Bool.not_eq_true] at hgoes
      obtain ⟨hfault', hroom, hcalls, hn, hdone, hparser⟩ := hstep.goes hgoes.1
      rw [hgoes.2] at hdone
      have hshort : acc.length + src.length < base.current.length :=
        not_le.1 (of_decide_eq_false hdone.symm)
      have hall : (p.payloadStep src).n = src.length := by omega
      have hend : parsePayloadLoop src.length (p.payloadStep src).parser
          (src.drop (p.payloadStep src).n) = payloadSoFar (p.payloadStep src).parser 0 [] := by
        rw [hall, drop_length]
        cases src.length with
        | zero => rfl
        | succ n => simp [parsePayloadLoop]
      refine ⟨fun _ => ⟨hfault', hroom, ?_, ?_, ?_, ?_⟩, fun hne => ?_⟩
      · simpa only [Payload.andThen, hend, payloadSoFar, append_nil] using hcalls
      · simpa only [Payload.andThen, hend, payloadSoFar, Nat.add_zero] using hn
      · simp only [Payload.andThen, hend, payloadSoFar, hparser.current, hparser.payloadN,
          length_taken, beq_eq_decide]
        exact decide_eq_decide.2 (by omega)
      · simpa only [Payload.andThen, hend, payloadSoFar] using hparser
      · simp only [Payload.andThen, hend, payloadSoFar] at hne
        exact absurd rfl hne
  · next hstop =>
    rw [h.current, h.payloadN, not_and_or, not_not, not_lt] at hstop
    exact reads_payloadSoFar h hstop hle hfault

/-! ## The frame header -/

/-- What is wrong with a frame header that comes to the parser `c`. -/
def headerFault (c : Parser) (h : FrameHeader) : Code :=
  if h.length > c.limits.maxFrameSize.toNat then .frameTooLarge
  else if c.continuationStream ≠ 0 ∧
      (h.type ≠ .continuation ∨ h.streamID ≠ c.continuationStream) then .invalidContinuation
  else if c.continuationStream ≠ 0 ∧
      (c.continuationCount + 1) % 2 ^ 32 > c.limits.maxContinuationFrames.toNat then
    .tooManyContinuations
  else if c.continuationStream = 0 ∧ h.type = .continuation then .invalidContinuation
  else validateFrameHeader h

/-- The parser `c` after the header of the frame that begins with `bs`. -/
def begun (c : Parser) (bs : Bytes) : Parser :=
  { c with
    header := bs.take 9
    current := decode bs
    payloadN := 0, state := .start, fixed := [], fixedNeed := 0, padLength := 0, contentN := 0
    continuationCount :=
      if c.continuationStream ≠ 0 then (c.continuationCount + 1) % 2 ^ 32 else c.continuationCount
    headerBlockEndStream :=
      if (decode bs).type = .headers ∧ c.continuationStream = 0 then
        (decode bs).flags.has .endStream
      else c.headerBlockEndStream }

/-- What `beginFrame` does with a complete header. -/
structure Boundary.Opens (b : Boundary) (c : Parser) (bs : Bytes) : Prop where
  code : b.code = c.headerFault (decode bs)
  parser : b.code = .none → b.parser = c.begun bs
  calls : b.code = .none → b.calls = [.frameBegin (decode bs)]
  failed : b.code ≠ .none → b.parser.code = b.code ∧ b.parser.paused = c.paused

variable {code : Code} {k m : ℕ} {fs fs' : List Bytes} {rest : Bytes}

theorem rejectFrame_code (h : p.code = .none) : (p.rejectFrame code).code = code := by
  simp [rejectFrame, fail, h]

theorem beginFrame_opens {bs : Bytes} (hcode : c.code = .none) (hlen : bs.length = 9) :
    (beginFrame { c with header := bs }).Opens c bs := by
  have hload : loadHeader { c with header := bs } =
      { c with
        header := bs, current := decode bs, payloadN := 0, state := .start, fixed := []
        fixedNeed := 0, padLength := 0, contentN := 0 } := rfl
  have hnine : bs.take 9 = bs := take_of_length_le hlen.le
  have hreject {p : Parser} {code : Code} (hp : p.code = .none) (hpaused : p.paused = c.paused)
      (hc : code = c.headerFault (decode bs)) (hne : code ≠ .none) :
      (p.rejectFrame code).Opens c bs := by
    have hcode : (p.rejectFrame code).code = code := rejectFrame_code hp
    refine ⟨hcode.trans hc, fun h => absurd (hcode.symm.trans h) hne,
      fun h => absurd (hcode.symm.trans h) hne, fun _ => ⟨rfl, ?_⟩⟩
    rw [← hpaused]
    simp only [rejectFrame, fail]
    split <;> rfl
  have haccept {p : Parser} (hp : p.code = .none) (hcur : p.current = decode bs)
      (hc : c.headerFault (decode bs) = validateFrameHeader (decode bs))
      (hbegun : { p with headerBlockEndStream :=
        if p.current.type = .headers ∧ p.continuationStream = 0 then p.current.flags.has .endStream
        else p.headerBlockEndStream } = c.begun bs) : p.acceptFrame.Opens c bs := by
    have hset : (if p.current.type = .headers ∧ p.continuationStream = 0 then
        { p with headerBlockEndStream := p.current.flags.has .endStream } else p) = c.begun bs := by
      rw [← hbegun]
      split_ifs <;> rfl
    unfold acceptFrame
    simp only [hset]
    split
    · next hne => exact hreject hcode rfl hc.symm hne
    · next hv => exact ⟨hcode.trans (hc.trans (not_not.1 hv)).symm, fun _ => rfl, fun _ => rfl,
        fun hne => absurd hcode hne⟩
  unfold beginFrame checkFrame
  rw [hload]
  simp only
  split
  · next hbig => exact hreject hcode rfl (if_pos hbig).symm (by decide)
  next hbig =>
  split
  · next hopen =>
    split
    · next hbad =>
      refine hreject hcode rfl ?_ (by decide)
      rw [headerFault, if_neg hbig, if_pos ⟨hopen, hbad⟩]
    · next hgood =>
      split
      · next hmany =>
        refine hreject hcode rfl ?_ (by decide)
        rw [headerFault, if_neg hbig, if_neg fun h => hgood h.2, if_pos ⟨hopen, hmany⟩]
      · next hfew =>
        refine haccept hcode rfl ?_ ?_
        · rw [headerFault, if_neg hbig, if_neg fun h => hgood h.2, if_neg fun h => hfew h.2,
            if_neg fun h => hopen h.1]
        · simp only [begun, hnine, hopen, ne_eq, not_false_eq_true, if_true]
  · next hclosed =>
    rw [not_not] at hclosed
    split
    · next hcont =>
      refine hreject hcode rfl ?_ (by decide)
      rw [headerFault, if_neg hbig, if_neg fun h => h.1 hclosed, if_neg fun h => h.1 hclosed,
        if_pos ⟨hclosed, hcont⟩]
    · next hcont =>
      refine haccept hcode rfl ?_ ?_
      · rw [headerFault, if_neg hbig, if_neg fun h => h.1 hclosed, if_neg fun h => h.1 hclosed,
          if_neg fun h => hcont h.2]
      · simp only [begun, hnine, hclosed, ne_eq, not_true_eq_false, if_false]

/-! ## The position of the parser -/

/-- The parser `base`, which has begun a frame, after the octets `acc` of its payload. -/
def within (base : Parser) (acc : Bytes) : Parser :=
  { base with
    payloadN := acc.length
    state := base.current.payloadState acc
    fixed := base.current.fixedFields acc
    fixedNeed := if acc = [] then 0 else base.current.fixedOctets
    padLength := base.current.padLength acc
    contentN :=
      if base.current.mayPad ∧ acc ≠ [] ∧ base.current.contentStart ≤ acc.length then
        base.current.contentEnd acc - acc.length
      else 0
    headerBlockBytes := (base.headerBlockBytes + base.current.blockOctets acc) % 2 ^ 64 }

theorem within_within (base : Parser) (acc : Bytes) : Within base acc (base.within acc) :=
  ⟨rfl, rfl, rfl, rfl, rfl, rfl, rfl, rfl⟩

theorem Within.eq (h : Within base acc p) : p = base.within acc := by
  obtain ⟨hshell, h1, h2, h3, h4, h5, h6, h7⟩ := h
  simp only [Parser.shell, Prod.mk.injEq] at hshell
  obtain ⟨s1, s2, s3, s4, s5, s6, s7, s8, s9⟩ := hshell
  cases p
  subst s1 s2 s3 s4 s5 s6 s7 s8 s9 h1 h2 h3 h4 h5 h6 h7
  rfl

/-- The parser `c`, which is between two frames, after the octets `acc` of the next frame. -/
def after (c : Parser) (acc : Bytes) : Parser :=
  if acc.length < 9 then { c with header := acc } else (c.begun acc).within (acc.drop 9)

/-- The callbacks for the octets `acc` of a frame, octet by octet, as long as it is not complete. -/
def callsSoFar (acc : Bytes) : List Callback :=
  if acc.length < 9 then []
  else .frameBegin (decode acc) :: (decode acc).payloadCalls (acc.drop 9)

/-- The end of the frame `frame`. -/
def completed (c : Parser) (frame : Bytes) : Boundary :=
  ((c.begun frame).within (frame.drop 9)).finishFrame

instance (base : Parser) (acc : Bytes) : Decidable (base.Exceeds acc) :=
  inferInstanceAs (Decidable (_ > _))

/-- What is wrong with the octets `acc` of the next frame. -/
def verdict (c : Parser) (acc : Bytes) : Code :=
  if acc.length < 9 then .none
  else if c.headerFault (decode acc) ≠ .none then
    c.headerFault (decode acc)
  else if (decode acc).payloadFault (acc.drop 9) ≠ .none then
    (decode acc).payloadFault (acc.drop 9)
  else if (c.begun acc).Exceeds (acc.drop 9) then .headerBlockTooLarge
  else if acc.length < frameLength acc then .none
  else (c.completed acc).code

/-- The parser is between two frames, and has not failed. -/
structure Idle (c : Parser) : Prop where
  code : c.code = .none
  header : c.header = []
  block : c.headerBlockBytes ≤ c.limits.maxHeaderBlockBytes.toNat

/-- The octets `acc` are the beginning of a frame in which nothing is wrong so far. -/
structure Stands (c : Parser) (acc : Bytes) : Prop where
  verdict : c.verdict acc = .none
  open_ : 9 ≤ acc.length → acc.length < frameLength acc

theorem after_nil (hc : Idle c) : c.after [] = c := by
  rw [after, if_pos (by decide), ← hc.header]

theorem begun_append (h : 9 ≤ acc.length) (x : Bytes) : c.begun (acc ++ x) = c.begun acc := by
  rw [begun, begun, decode_append h, take_append_of_le_length h]

/-! ## What is wrong stays wrong -/

theorem blockOctets_le (h : FrameHeader) (acc : Bytes) : h.blockOctets acc ≤ acc.length := by
  unfold blockOctets content
  split_ifs
  · rw [length_drop, length_take]
    omega
  · exact le_rfl
  · exact Nat.zero_le _

/-- Past the first octet of a header block, more octets change neither what is wrong with the frame
nor the octets of the block so far. -/
theorem past_block {h : FrameHeader} (hpos : 0 < h.blockOctets acc) (x : Bytes) :
    h.payloadFault (acc ++ x) = h.payloadFault acc ∧
      h.blockOctets acc ≤ h.blockOctets (acc ++ x) := by
  by_cases ht : h.type = .headers ∨ h.type = .pushPromise
  · have hstart : h.contentStart ≤ acc.length := by
      by_contra hlt
      rw [blockOctets, if_pos ht, content_eq_nil (by omega)] at hpos
      exact absurd hpos (lt_irrefl _)
    refine ⟨payloadFault_append ht hstart x, ?_⟩
    rw [blockOctets_append ht hstart x]
    omega
  · rw [not_or] at ht
    have hcont : h.type = .continuation := by
      by_contra hc
      simp [blockOctets, ht, hc] at hpos
    simp +decide [payloadFault, blockOctets, mayPad, hcont]

/-- A header block that is too long stays too long. -/
theorem Exceeds.append (hex : base.Exceeds acc) (x : Bytes)
    (hlimit : base.headerBlockBytes ≤ base.limits.maxHeaderBlockBytes.toNat)
    (hno : base.headerBlockBytes + (acc ++ x).length < 2 ^ 64) :
    base.Exceeds (acc ++ x) ∧
      base.current.payloadFault (acc ++ x) = base.current.payloadFault acc := by
  have hle := blockOctets_le base.current (acc ++ x)
  have hle' := blockOctets_le base.current acc
  have hlen : acc.length ≤ (acc ++ x).length := by
    rw [length_append]
    omega
  unfold Exceeds at hex ⊢
  rw [Nat.mod_eq_of_lt (by omega)] at hex ⊢
  have hpos : 0 < base.current.blockOctets acc := by omega
  obtain ⟨hfault, hmono⟩ := past_block hpos x
  exact ⟨by omega, hfault⟩

theorem verdict_append (hc : Idle c) (hno : c.headerBlockBytes + (acc ++ src).length < 2 ^ 64)
    (hin : 9 ≤ acc.length → (acc ++ src).length ≤ frameLength acc)
    (hne : c.verdict acc ≠ .none) : c.verdict (acc ++ src) = c.verdict acc := by
  by_cases hshort : acc.length < 9
  · rw [verdict, if_pos hshort] at hne
    exact absurd rfl hne
  have hnine : 9 ≤ acc.length := not_lt.1 hshort
  have hlen : (acc ++ src).length = acc.length + src.length := length_append
  have hlong : ¬(acc ++ src).length < 9 := by omega
  have hdrop : (acc ++ src).drop 9 = acc.drop 9 ++ src := drop_append_of_le_length hnine
  unfold verdict at hne ⊢
  rw [if_neg hshort] at hne ⊢
  rw [if_neg hlong, decode_append hnine, begun_append hnine, hdrop,
    frameLength_append hnine]
  by_cases hhead : c.headerFault (decode acc) ≠ .none
  · rw [if_pos hhead, if_pos hhead]
  rw [if_neg hhead] at hne ⊢
  rw [if_neg hhead]
  by_cases hpay : (decode acc).payloadFault (acc.drop 9) ≠ .none
  · rw [payloadFault_append_of_ne src hpay, if_pos hpay, if_pos hpay]
  rw [if_neg hpay] at hne ⊢
  by_cases hex : (c.begun acc).Exceeds (acc.drop 9)
  · have hdropped : (acc.drop 9 ++ src).length ≤ (acc ++ src).length := by
      rw [← hdrop, length_drop]
      omega
    obtain ⟨hex', hfault⟩ := hex.append src hc.block
      (lt_of_le_of_lt (Nat.add_le_add_left hdropped _) hno)
    have hfault' : (decode acc).payloadFault (acc.drop 9 ++ src) =
        (decode acc).payloadFault (acc.drop 9) := hfault
    rw [hfault', if_neg hpay, if_pos hex', if_pos hex]
  rw [if_neg hex] at hne
  by_cases hpart : acc.length < frameLength acc
  · rw [if_pos hpart] at hne
    exact absurd rfl hne
  obtain rfl : src = [] := by
    refine eq_nil_of_length_eq_zero ?_
    have := hin hnine
    omega
  rw [append_nil, append_nil, if_neg hpay]

/-- Nothing is wrong with the octets `acc` of the next frame, its end apart. -/
structure Sound (c : Parser) (acc : Bytes) : Prop where
  header : c.headerFault (decode acc) = .none
  payload : (decode acc).payloadFault (acc.drop 9) = .none
  block : ¬(c.begun acc).Exceeds (acc.drop 9)

theorem sound_of_verdict (hlen : 9 ≤ acc.length) (h : c.verdict acc = .none) : Sound c acc := by
  unfold verdict at h
  rw [if_neg (by omega)] at h
  by_cases hhead : c.headerFault (decode acc) = .none
  · rw [if_neg (not_not.2 hhead)] at h
    by_cases hpay : (decode acc).payloadFault (acc.drop 9) = .none
    · rw [if_neg (not_not.2 hpay)] at h
      refine ⟨hhead, hpay, fun hex => ?_⟩
      rw [if_pos hex] at h
      cases h
    · rw [if_pos hpay] at h
      exact absurd h hpay
  · rw [if_pos hhead] at h
    exact absurd h hhead

theorem Sound.verdict (h : Sound c acc) (hlen : 9 ≤ acc.length) :
    c.verdict acc = if acc.length < frameLength acc then .none else (c.completed acc).code := by
  rw [Parser.verdict, if_neg (by omega), if_neg (not_not.2 h.header), if_neg (not_not.2 h.payload),
    if_neg h.block]

/-- Nothing is wrong with fewer octets of a frame. -/
theorem verdict_take (hc : Idle c) (hno : c.headerBlockBytes + acc.length < 2 ^ 64)
    (hin : 9 ≤ acc.length → acc.length ≤ frameLength acc) (h : c.verdict acc = .none) (k : ℕ) :
    c.verdict (acc.take k) = .none := by
  by_contra hne
  have hsplit := take_append_drop k acc
  refine hne (Eq.trans (Eq.symm ?_) h)
  have hkeep : c.verdict (acc.take k ++ acc.drop k) = _ :=
    verdict_append hc (by rwa [hsplit]) (fun hlen => ?_) hne
  · rwa [hsplit] at hkeep
  · rw [hsplit, ← frameLength_append hlen (acc.drop k), hsplit]
    refine hin (hlen.trans ?_)
    rw [length_take]
    omega

/-- A whole frame. -/
structure Whole (bs : Bytes) : Prop where
  header : 9 ≤ bs.length
  length : bs.length = frameLength bs

/-- Nothing is wrong with a frame before its last octet if nothing is wrong with it but, perhaps,
its end. -/
theorem Sound.before (h : Sound c acc) (hc : Idle c)
    (hno : c.headerBlockBytes + acc.length < 2 ^ 64) (hw : Whole acc) (hk : k < acc.length) :
    c.verdict (acc.take k) = .none := by
  have hlen : (acc.take k).length = k := by
    rw [length_take]
    omega
  by_cases hshort : k < 9
  · rw [Parser.verdict, if_pos (by omega)]
  have hnine : 9 ≤ (acc.take k).length := by omega
  have hsplit := take_append_drop k acc
  have hdecode : decode (acc.take k) = decode acc := by
    rw [← decode_append hnine (acc.drop k), hsplit]
  have hbegun : c.begun (acc.take k) = c.begun acc := by
    rw [← begun_append hnine (acc.drop k), hsplit]
  have hdrop : acc.drop 9 = (acc.take k).drop 9 ++ acc.drop k := by
    rw [← drop_append_of_le_length hnine, hsplit]
  have hsound : Sound c (acc.take k) := by
    refine ⟨hdecode ▸ h.header, ?_, fun hex => h.block ?_⟩
    · rw [hdecode]
      refine payloadFault_of_append (x := acc.drop k) ?_
      rw [← hdrop]
      exact h.payload
    · rw [hbegun] at hex
      rw [hdrop]
      refine (hex.append _ hc.block ?_).1
      rw [← hdrop, length_drop]
      change c.headerBlockBytes + _ < _
      omega
  have hpart : frameLength (acc.take k) = acc.length := by
    rw [frameLength, hdecode]
    exact hw.length.symm
  rw [hsound.verdict hnine, if_pos (by omega)]

/-! ## A pass of the loop -/

/-- The octets of `bs` that belong to the frame that begins with them. -/
def framePart (bs : Bytes) : Bytes := if bs.length < 9 then bs else bs.take (frameLength bs)

/-- The parser stops with `code` in the frame that begins with `bs`, after `m` octets of it. Unless
the header block is too long, these are just enough octets to see what is wrong. -/
structure Stops (c : Parser) (bs : Bytes) (m : ℕ) (code : Code) : Prop where
  ne : code ≠ .none
  verdict : c.verdict (framePart bs) = code
  first : code ≠ .headerBlockTooLarge →
    m ≤ bs.length ∧ c.verdict (bs.take m) ≠ .none ∧ ∀ k < m, c.verdict (bs.take k) = .none

/-- What a pass does with `src` after the octets `acc` of a frame. -/
def Pass.Reads (c : Parser) (acc src : Bytes) : Pass → Prop
  | .next q n calls =>
    n ≤ src.length ∧ Whole (acc ++ src.take n) ∧ c.verdict (acc ++ src.take n) = .none ∧
      q = (c.completed (acc ++ src.take n)).parser ∧
      callsSoFar acc ++ octetCalls calls =
        callsSoFar (acc ++ src.take n) ++ (c.completed (acc ++ src.take n)).calls
  | .ret q n code calls =>
    (code = .none → n = src.length ∧ Stands c (acc ++ src) ∧ q = c.after (acc ++ src) ∧
      callsSoFar acc ++ octetCalls calls = callsSoFar (acc ++ src)) ∧
    (code ≠ .none → Stops c (acc ++ src) (acc.length + n) code ∧ q.code = code ∧
      q.paused = c.paused)

theorem Pass.Reads.after {pass : Pass} {calls : List Callback} (hk : k ≤ src.length)
    (hcalls : callsSoFar acc ++ octetCalls calls = callsSoFar (acc ++ src.take k))
    (h : pass.Reads c (acc ++ src.take k) (src.drop k)) : (pass.after k calls).Reads c acc src := by
  have hall : acc ++ src.take k ++ src.drop k = acc ++ src := by
    rw [append_assoc, take_append_drop]
  have hlen : (acc ++ src.take k).length = acc.length + k := by
    rw [length_append, length_take, Nat.min_eq_left hk]
  cases pass with
  | next q n calls' =>
    obtain ⟨hn, hwhole, hverdict, hq, hcalls'⟩ := h
    rw [length_drop] at hn
    have htake : acc ++ src.take k ++ (src.drop k).take n = acc ++ src.take (k + n) := by
      rw [append_assoc, ← take_add]
    rw [htake] at hwhole hverdict hq hcalls'
    refine ⟨by omega, hwhole, hverdict, hq, ?_⟩
    rw [← hcalls', ← hcalls, octetCalls_append, append_assoc]
  | ret q n code calls' =>
    obtain ⟨hgoes, hstops⟩ := h
    rw [hall] at hgoes hstops
    rw [hlen, Nat.add_assoc] at hstops
    refine ⟨fun hcode => ?_, hstops⟩
    obtain ⟨hn, hstands, hq, hcalls'⟩ := hgoes hcode
    rw [length_drop] at hn
    refine ⟨by omega, hstands, hq, ?_⟩
    rw [← hcalls', ← hcalls, octetCalls_append, append_assoc]

theorem octetCalls_finishFrame (p : Parser) :
    octetCalls p.finishFrame.calls = p.finishFrame.calls := by
  have hcalls {calls : List Callback} (h : p.finishCalls = .ok calls) :
      octetCalls calls = calls := by
    simp only [finishCalls] at h
    split_ifs at h <;> cases h <;> rfl
  have hblock : octetCalls p.finishBlock.2 = p.finishBlock.2 := by
    unfold finishBlock
    simp only
    split_ifs <;> rfl
  have hend : octetCalls [.frameComplete p.current] = [.frameComplete p.current] := rfl
  unfold finishFrame
  cases hf : p.finishCalls with
  | error code => rfl
  | ok calls =>
    simp only
    split
    · rw [octetCalls_append, octetCalls_append, hcalls hf, hblock, hend]
    · rw [octetCalls_append, octetCalls_append, hcalls hf, hblock, hend]

/-- A frame whose end is wrong fails the parser. -/
theorem finishFrame_failed (h : p.finishFrame.code ≠ .none) :
    p.finishFrame.parser.code = p.finishFrame.code ∧ p.finishFrame.parser.paused = p.paused := by
  unfold finishFrame at h ⊢
  cases hf : p.finishCalls with
  | error code =>
    simp only [fail, true_and]
    split <;> rfl
  | ok calls =>
    simp only [hf] at h ⊢
    split at h
    · next hq =>
      rw [if_pos hq]
      refine ⟨rfl, ?_⟩
      simp only [finishBlock]
      split_ifs <;> rfl
    · exact absurd rfl h

theorem framePart_append (hlen : 9 ≤ acc.length) (hin : acc.length ≤ frameLength acc)
    (src : Bytes) : framePart (acc ++ src) = acc ++ src.take (frameLength acc - acc.length) := by
  have hlong : ¬(acc ++ src).length < 9 := by
    rw [length_append]
    omega
  rw [framePart, if_neg hlong, frameLength_append hlen, take_append,
    take_of_length_le hin]

theorem finishPass_reads (hc : Idle c) (hno : c.headerBlockBytes + acc.length < 2 ^ 64)
    (h : Sound c acc) (hw : Whole acc) (src : Bytes) :
    ((c.begun acc).within (acc.drop 9)).finishPass.Reads c acc src := by
  have hverdict : c.verdict acc = (c.completed acc).code := by
    rw [h.verdict hw.header, if_neg (not_lt.2 hw.length.ge)]
  unfold finishPass
  simp only
  split
  · next hne =>
    refine ⟨fun hcode => absurd hcode hne,
      fun _ => ⟨⟨hne, ?_, fun _ => ⟨?_, ?_, fun k hk => ?_⟩⟩, finishFrame_failed hne⟩⟩
    · rw [framePart_append hw.header hw.length.le, hw.length, Nat.sub_self, take_zero,
        append_nil]
      exact hverdict
    · rw [length_append]
      omega
    · rw [Nat.add_zero, take_append_of_le_length le_rfl, take_length, hverdict]
      exact hne
    · rw [take_append_of_le_length (by omega)]
      exact h.before hc hno hw hk
  · next hgood =>
    rw [not_not] at hgood
    refine ⟨Nat.zero_le _, ?_⟩
    rw [take_zero, append_nil]
    refine ⟨hw, hverdict.trans hgood, rfl, ?_⟩
    exact congrArg (callsSoFar acc ++ ·) (octetCalls_finishFrame _)

/-- What is wrong with the payload is what is wrong with the frame. -/
theorem Sound.verdict_fault {x : Bytes} (h : Sound c acc) (hlen : 9 ≤ acc.length)
    (hx : (decode acc).payloadFault (acc.drop 9 ++ x) ≠ .none) :
    c.verdict (acc ++ x) = (decode acc).payloadFault (acc.drop 9 ++ x) := by
  rw [Parser.verdict, if_neg (by rw [length_append]; omega), decode_append hlen,
    if_neg (not_not.2 h.header), drop_append_of_le_length hlen, if_pos hx]

/-- The parser stops where something is wrong with the payload for the first time. -/
theorem Stands.stops (hc : Idle c) (hno : c.headerBlockBytes + (acc ++ src).length < 2 ^ 64)
    (hlen : 9 ≤ acc.length) (h : Stands c acc) (hne : code ≠ .none)
    (hfirst : FirstFault (decode acc) (acc.drop 9) src n code) :
    Stops c (acc ++ src) (acc.length + n) code := by
  have hsound := sound_of_verdict hlen h.verdict
  have hopen := h.open_ hlen
  have hframe : frameLength acc = 9 + (decode acc).length := rfl
  rw [length_append] at hno
  obtain ⟨hle, hfault, hbefore⟩ := hfirst
  rw [length_drop] at hle
  have hfault' : (decode acc).payloadFault (acc.drop 9 ++ src.take n) ≠ .none :=
    fun hgood => hne (hfault.symm.trans hgood)
  refine ⟨hne, ?_, fun _ => ⟨?_, ?_, fun k hk => ?_⟩⟩
  · have hsplit := take_append_drop n (src.take (frameLength acc - acc.length))
    rw [take_take, Nat.min_eq_left (by omega)] at hsplit
    have hkeep := payloadFault_append_of_ne
      ((src.take (frameLength acc - acc.length)).drop n) hfault'
    rw [append_assoc, hsplit] at hkeep
    rw [framePart_append hlen hopen.le, hsound.verdict_fault hlen (hkeep ▸ hfault'), hkeep, hfault]
  · rw [length_append]
    omega
  · rw [take_length_add_append, hsound.verdict_fault hlen hfault']
    exact hfault'
  · rcases Nat.lt_or_ge k acc.length with hlt | hge
    · rw [take_append_of_le_length hlt.le]
      exact verdict_take hc (by omega) (fun _ => hopen.le) h.verdict k
    · obtain ⟨j, rfl⟩ := Nat.exists_eq_add_of_le hge
      have hj : j < n := by omega
      rw [take_length_add_append]
      have hjlen : (acc ++ src.take j).length = acc.length + j := by
        rw [length_append, length_take]
        omega
      have hgood := hbefore j hj
      refine (Sound.verdict ⟨?_, ?_, fun hex => ?_⟩ (by omega)).trans (if_pos ?_)
      · rw [decode_append hlen]
        exact hsound.header
      · rw [decode_append hlen, drop_append_of_le_length hlen]
        exact hgood
      · -- The fault could not come after octets of a header block.
        rw [begun_append hlen, drop_append_of_le_length hlen] at hex
        have hsplit := take_append_drop j (src.take n)
        rw [take_take, Nat.min_eq_left hj.le] at hsplit
        have hno' : (c.begun acc).headerBlockBytes + (acc.drop 9 ++ src.take j ++
            (src.take n).drop j).length < 2 ^ 64 := by
          rw [append_assoc, hsplit, length_append, length_take, length_drop]
          change c.headerBlockBytes + _ < _
          omega
        have hkeep := (hex.append _ hc.block hno').2
        rw [append_assoc, hsplit] at hkeep
        exact hfault' (hkeep.trans hgood)
      · rw [frameLength_append hlen]
        omega

theorem payloadPass_reads (hc : Idle c) (hno : c.headerBlockBytes + (acc ++ src).length < 2 ^ 64)
    (hlen : 9 ≤ acc.length) (h : Stands c acc) :
    ((c.after acc).payloadPass src).Reads c acc src := by
  have hsound := sound_of_verdict hlen h.verdict
  have hopen := h.open_ hlen
  have hpay : (acc.drop 9).length = acc.length - 9 := length_drop
  have hframe : frameLength acc = 9 + (decode acc).length := rfl
  have hv : validateFrameHeader (c.begun acc).current = .none := by
    have := hsound.header
    unfold headerFault at this
    split_ifs at this
    exact this
  have hafter : c.after acc = (c.begun acc).within (acc.drop 9) := if_neg (by omega)
  have hreads : (((c.begun acc).within (acc.drop 9)).parsePayload src).Reads (c.begun acc)
      (acc.drop 9) src := reads_parsePayload hv hc.code (within_within _ _) hsound.payload (by
    change _ ≤ (decode acc).length
    omega)
  rw [← hafter] at hreads
  have htaken : (c.begun acc).current.taken (acc.drop 9) src = (framePart (acc ++ src)).drop 9 := by
    rw [framePart_append hlen hopen.le, drop_append_of_le_length hlen, taken, hpay]
    congr 2
    change (decode acc).length - _ = _
    omega
  have hpart : framePart (acc ++ src) = acc ++ src.take (frameLength acc - acc.length) :=
    framePart_append hlen hopen.le src
  have hlast : (framePart (acc ++ src)).length = acc.length +
      min (frameLength acc - acc.length) src.length := by
    rw [hpart, length_append, length_take]
  have hpartlen : 9 ≤ (framePart (acc ++ src)).length := by omega
  have hdecode : decode (framePart (acc ++ src)) = decode acc := by
    rw [hpart, decode_append hlen]
  have hsame : frameLength (framePart (acc ++ src)) = frameLength acc := by
    rw [hpart, frameLength_append hlen]
  have hbegun : c.begun (framePart (acc ++ src)) = c.begun acc := by
    rw [hpart, begun_append hlen]
  unfold payloadPass
  simp only
  split
  · -- The parser fails inside the payload.
    next hne =>
    obtain ⟨hstops, hfailed, -⟩ := hreads.stops hne
    refine ⟨fun hcode => absurd hcode hne, fun _ => ⟨?_, hfailed⟩⟩
    rcases hstops with hfirst | ⟨hbig, hex, hfault⟩
    · exact h.stops hc hno hlen hne hfirst
    · refine ⟨hne, ?_, fun hother => absurd hbig hother⟩
      rw [htaken] at hex hfault
      rw [verdict, if_neg (by omega), hdecode, if_neg (not_not.2 hsound.header), hbegun, if_neg,
        if_pos hex, hbig]
      exact not_not.2 hfault
  next hcode =>
  rw [not_not] at hcode
  obtain ⟨hfault, hroom, hcalls, hn, hdone, hparser⟩ := hreads.goes hcode
  rw [htaken] at hfault hroom hcalls hparser
  have hsound' : Sound c (framePart (acc ++ src)) := by
    refine ⟨hdecode ▸ hsound.header, ?_, fun hex => hsound.block ?_⟩
    · rw [hdecode]
      exact hfault
    · rw [hbegun] at hex
      exact hroom hex
  have hcode' : ((c.after acc).parsePayload src).parser.code = .none :=
    (code_of_shell hparser.shell).trans hc.code
  rw [hcode', if_neg (not_not.2 rfl), hdone]
  have hcalls' : callsSoFar acc ++ octetCalls ((c.after acc).parsePayload src).calls =
      callsSoFar (framePart (acc ++ src)) := by
    rw [callsSoFar, if_neg (by omega), callsSoFar, if_neg (by omega), hdecode]
    exact congrArg _ hcalls
  have hq : ((c.after acc).parsePayload src).parser =
      (c.begun (framePart (acc ++ src))).within ((framePart (acc ++ src)).drop 9) := by
    rw [hbegun]
    exact hparser.eq
  have hn' : ((c.after acc).parsePayload src).n =
      min (frameLength acc - acc.length) src.length := by
    rw [hn]
    change min ((decode acc).length - _) _ = _
    omega
  have hcut : acc ++ src.take ((c.after acc).parsePayload src).n = framePart (acc ++ src) := by
    rw [hn', hpart, ← take_eq_take_min]
  have hlength : (c.begun acc).current.length = frameLength acc - 9 := by
    change (decode acc).length = _
    omega
  by_cases hend : (c.begun acc).current.length ≤ (acc.drop 9).length + src.length
  · simp only [hend, decide_true, Bool.not_true, Bool.false_eq_true, if_false]
    refine Pass.Reads.after (by omega) (hcut ▸ hcalls') ?_
    rw [hcut, hq]
    refine finishPass_reads hc ?_ hsound' ⟨hpartlen, ?_⟩ _
    · rw [hlast]
      rw [length_append] at hno
      omega
    · rw [hlast, hsame]
      omega
  · simp only [hend, decide_false, Bool.not_false, if_true]
    have hwhole : framePart (acc ++ src) = acc ++ src := by
      rw [hpart, take_of_length_le (by omega)]
    rw [hwhole] at hsound' hcalls' hq hlast hsame
    refine ⟨fun _ => ⟨by omega, ⟨?_, fun _ => ?_⟩, ?_, hcalls'⟩, fun hne => absurd rfl hne⟩
    · rw [hsound'.verdict (by omega), if_pos (by omega)]
    · omega
    · exact hq.trans (if_neg (by omega)).symm

/-- The parser after a frame header is inside an empty part of the payload. -/
theorem begun_eq_within (hc : Idle c) (bs : Bytes) : c.begun bs = (c.begun bs).within [] := by
  have hblock : (FrameHeader.decode bs).blockOctets [] = 0 :=
    Nat.le_zero.1 (blockOctets_le _ _)
  have hmod : c.headerBlockBytes % 2 ^ 64 = c.headerBlockBytes := by
    refine Nat.mod_eq_of_lt (lt_of_le_of_lt hc.block ?_)
    exact c.limits.maxHeaderBlockBytes.toNat_lt
  refine Within.eq ⟨rfl, rfl, ?_, ?_, rfl, ?_, ?_, ?_⟩
  · exact (if_pos (.inr rfl)).symm
  · unfold FrameHeader.fixedFields
    split_ifs <;> simp [begun, settingRest]
  · unfold FrameHeader.padLength
    split_ifs <;> rfl
  · exact (if_neg fun h => h.2.1 rfl).symm
  · change c.headerBlockBytes = (c.headerBlockBytes + (FrameHeader.decode bs).blockOctets []) % 2 ^ 64
    rw [hblock, Nat.add_zero, hmod]

theorem payloadFault_nil (h : FrameHeader) : h.payloadFault [] = .none := by
  have hpad : h.padLength [] = 0 := by
    unfold FrameHeader.padLength
    split_ifs <;> rfl
  rw [payloadFault, hpad, if_neg fun hc => Nat.not_lt_zero _ hc.2, if_neg, if_neg,
    if_neg]
  · rintro ⟨-, x, hx, -⟩
    simp [settingEntries] at hx
  · rintro ⟨ht, hs, -⟩
    simp +decide [contentStart, fixedOctets, ht] at hs
  · rintro ⟨ht, hprio, hs, -⟩
    simp [contentStart, fixedOctets, ht, hprio] at hs

theorem payloadCalls_nil (h : FrameHeader) : h.payloadCalls [] = [] := by
  have hcontent : h.content [] = [] := by simp [content]
  by_cases hp : h.mayPad
  · exact payloadCalls_opened hp (Nat.zero_le _)
  · simp only [mayPad, not_or] at hp
    simp [payloadCalls, hp, settingEntries]

theorem Pass.after_after (pass : Pass) (n n' : ℕ) (calls calls' : List Callback) :
    (pass.after n calls).after n' calls' = pass.after (n' + n) (calls' ++ calls) := by
  cases pass <;> simp [Pass.after, Nat.add_assoc]

/-- **A pass of the loop** does with the octets `src` what they ask for after the octets `acc` of
an unfinished frame, however many of them there are. -/
theorem pass_reads (hc : Idle c) (hno : c.headerBlockBytes + (acc ++ src).length < 2 ^ 64)
    (h : Stands c acc) : ((c.after acc).pass src).Reads c acc src := by
  by_cases hlen : acc.length < 9
  · have hafter : c.after acc = { c with header := acc } := if_pos hlen
    have hnil : callsSoFar acc = [] := if_pos hlen
    unfold pass
    rw [hafter, if_pos hlen]
    simp only
    generalize hcopied : min (9 - acc.length) src.length = copied
    have hlen' : (acc ++ src.take copied).length = acc.length + copied := by
      rw [length_append, length_take]
      omega
    have hall : acc ++ src.take copied ++ src.drop copied = acc ++ src := by
      rw [append_assoc, take_append_drop]
    unfold headerPass
    simp only
    split
    · -- The input ends inside the frame header.
      next hshort =>
      have hwhole : acc ++ src.take copied = acc ++ src := by
        rw [take_of_length_le (by omega)]
      rw [hwhole] at hshort hlen' ⊢
      rw [length_append] at hlen'
      refine ⟨fun _ => ⟨by omega, ⟨if_pos hshort, fun hge => by omega⟩, (if_pos hshort).symm, ?_⟩,
        fun hne => absurd rfl hne⟩
      rw [hnil, callsSoFar, if_pos hshort]
      rfl
    next hlong =>
    have hnine : (acc ++ src.take copied).length = 9 := by omega
    have hopens := beginFrame_opens (c := c) hc.code hnine
    split
    · -- The frame header is rejected.
      next hne =>
      refine ⟨fun hcode => absurd hcode hne, fun _ => ⟨?_, hopens.failed hne⟩⟩
      have hverdict (x : Bytes) : c.verdict (acc ++ src.take copied ++ x) =
          (beginFrame { c with header := acc ++ src.take copied }).code := by
        have hge : ¬(acc ++ src.take copied ++ x).length < 9 := by
          rw [length_append]
          omega
        rw [verdict, if_neg hge, decode_append hnine.ge, ← hopens.code, if_pos hne]
      refine ⟨hne, ?_, fun _ => ⟨?_, ?_, fun k hk => ?_⟩⟩
      · rw [← hall, framePart_append hnine.ge (hnine.trans_le le_self_add)]
        exact hverdict _
      · rw [← hall, length_append]
        omega
      · rw [Nat.add_zero, ← hlen', ← hall, take_append_of_le_length le_rfl, take_length,
          ← append_nil (acc ++ _), hverdict]
        exact hne
      · rw [verdict, if_pos]
        rw [length_take]
        omega
    next hcode =>
    rw [not_not] at hcode
    have hdrop : (acc ++ src.take copied).drop 9 = [] := drop_eq_nil_of_le hnine.le
    have hfault := hopens.code.symm.trans hcode
    have hsound : Sound c (acc ++ src.take copied) := by
      refine ⟨hfault, ?_, fun hex => ?_⟩
      · rw [hdrop]
        exact payloadFault_nil _
      · have hzero : (decode (acc ++ src.take copied)).blockOctets [] = 0 :=
          Nat.le_zero.1 (blockOctets_le _ _)
        rw [hdrop] at hex
        change (c.headerBlockBytes + (decode _).blockOctets []) % 2 ^ 64 > _ at hex
        rw [hzero, Nat.add_zero] at hex
        exact absurd (lt_of_lt_of_le hex (Nat.mod_le _ _)) (not_lt.2 hc.block)
    have hcalls : callsSoFar acc ++ octetCalls
        ([] ++ (beginFrame { c with header := acc ++ src.take copied }).calls) =
        callsSoFar (acc ++ src.take copied) := by
      rw [hnil, hopens.calls hcode, callsSoFar, if_neg (by omega), hdrop, payloadCalls_nil]
      rfl
    have hlength : (c.begun (acc ++ src.take copied)).current.length =
        frameLength (acc ++ src.take copied) - 9 := (Nat.add_sub_cancel_left _ _).symm
    rw [hopens.parser hcode]
    split
    · next hzero =>
      rw [Pass.after_after]
      refine Pass.Reads.after (by omega) hcalls ?_
      have hfin := finishPass_reads hc ?_ hsound ⟨hnine.ge, ?_⟩ (src.drop copied)
      · rwa [hdrop, ← begun_eq_within hc] at hfin
      · rw [length_append] at hno
        omega
      · have : 9 ≤ frameLength (acc ++ src.take copied) := le_self_add
        omega
    · next hpos =>
      rw [Pass.after_after]
      refine Pass.Reads.after (by omega) hcalls ?_
      have hopen : (acc ++ src.take copied).length < frameLength (acc ++ src.take copied) := by
        omega
      have hno' : c.headerBlockBytes + (acc ++ src.take copied ++ src.drop copied).length < 2 ^ 64 := by
        rwa [hall]
      have hpass := payloadPass_reads hc hno' hnine.ge
        ⟨(hsound.verdict hnine.ge).trans (if_pos hopen), fun _ => hopen⟩
      rwa [after, if_neg (by omega), hdrop, ← begun_eq_within hc] at hpass
  · have hheader : (c.after acc).header = acc.take 9 := by
      rw [after, if_neg hlen]
      rfl
    have hnine : ¬(acc.take 9).length < 9 := by
      rw [length_take]
      omega
    unfold pass
    rw [hheader, if_neg hnine]
    exact payloadPass_reads hc hno (not_lt.1 hlen) h

/-! ## Whole frames -/

/-- The parser between two frames after a whole frame in which nothing is wrong. -/
structure Completes (c : Parser) (frame : Bytes) (q : Parser) : Prop where
  idle : Idle q
  block : q.headerBlockBytes ≤ c.headerBlockBytes + frame.length
  pauseAfterFrame : q.pauseAfterFrame = c.pauseAfterFrame
  paused : q.paused = c.pauseAfterFrame

theorem completes (hc : Idle c) (hw : Whole acc) (h : c.verdict acc = .none) :
    Completes c acc (c.completed acc).parser := by
  have hsound := sound_of_verdict hw.header h
  rw [hsound.verdict hw.header, if_neg (not_lt.2 hw.length.ge)] at h
  have hle := blockOctets_le (decode acc) (acc.drop 9)
  rw [length_drop] at hle
  have hmod := Nat.mod_le
    (c.headerBlockBytes + (decode acc).blockOctets (acc.drop 9)) (2 ^ 64)
  have hblock := not_lt.1 hsound.block
  unfold completed finishFrame at h ⊢
  generalize hw : (c.begun acc).within (acc.drop 9) = w at h ⊢
  have hcode : w.code = .none := by
    rw [← hw]
    exact hc.code
  have hpause : w.pauseAfterFrame = c.pauseAfterFrame := by
    rw [← hw]
    rfl
  have hbytes : w.headerBlockBytes ≤ w.limits.maxHeaderBlockBytes.toNat ∧
      w.headerBlockBytes ≤ c.headerBlockBytes + acc.length := by
    rw [← hw]
    refine ⟨hblock, ?_⟩
    change (c.headerBlockBytes + (decode acc).blockOctets (acc.drop 9)) % 2 ^ 64 ≤ _
    omega
  have hfinish : w.finishBlock.1.code = .none ∧ w.finishBlock.1.limits = w.limits ∧
      w.finishBlock.1.pauseAfterFrame = c.pauseAfterFrame ∧
      w.finishBlock.1.headerBlockBytes ≤ w.headerBlockBytes := by
    unfold finishBlock
    simp only
    split_ifs
    · exact ⟨hcode, rfl, hpause, Nat.zero_le _⟩
    · exact ⟨hcode, rfl, hpause, le_rfl⟩
    · exact ⟨hcode, rfl, hpause, le_rfl⟩
    · exact ⟨hcode, rfl, hpause, le_rfl⟩
  obtain ⟨hfcode, hflimits, hfpause, hfbytes⟩ := hfinish
  cases hf : w.finishCalls with
  | error code =>
    simp only [hf] at h
    exact absurd h (fail_code_ne (finishCalls_error_ne hf))
  | ok calls =>
    simp only [hfcode, ne_eq, not_true_eq_false, if_false]
    refine ⟨⟨rfl, rfl, ?_⟩, ?_, hfpause, hfpause⟩
    · change w.finishBlock.1.headerBlockBytes ≤ w.finishBlock.1.limits.maxHeaderBlockBytes.toNat
      rw [hflimits]
      omega
    · change w.finishBlock.1.headerBlockBytes ≤ _
      omega

/-- The parser after whole frames. -/
def passed : Parser → List Bytes → Parser
  | c, [] => c
  | c, frame :: frames => passed (c.completed frame).parser frames

/-- The callbacks of whole frames. -/
def passedCalls : Parser → List Bytes → List Callback
  | _, [] => []
  | c, frame :: frames =>
    callsSoFar frame ++ (c.completed frame).calls ++ passedCalls (c.completed frame).parser frames

/-- Whole frames in which nothing is wrong. -/
def Accepts : Parser → List Bytes → Prop
  | _, [] => True
  | c, frame :: frames =>
    Whole frame ∧ c.verdict frame = .none ∧ Accepts (c.completed frame).parser frames

theorem passed_append (c : Parser) (fs fs' : List Bytes) :
    c.passed (fs ++ fs') = (c.passed fs).passed fs' := by
  induction fs generalizing c with
  | nil => rfl
  | cons f fs ih => exact ih _

theorem passedCalls_append (c : Parser) (fs fs' : List Bytes) :
    c.passedCalls (fs ++ fs') = c.passedCalls fs ++ (c.passed fs).passedCalls fs' := by
  induction fs generalizing c with
  | nil => rfl
  | cons f fs ih => simp only [cons_append, passedCalls, passed, ih, append_assoc]

theorem accepts_append (h : c.Accepts fs) (h' : (c.passed fs).Accepts fs') :
    c.Accepts (fs ++ fs') := by
  induction fs generalizing c with
  | nil => exact h'
  | cons f fs ih => exact ⟨h.1, h.2.1, ih h.2.2 h'⟩

/-- The parser between two frames, after any number of them. -/
theorem Accepts.idle (hc : Idle c) (h : c.Accepts fs) :
    Idle (c.passed fs) ∧
      (c.passed fs).headerBlockBytes ≤ c.headerBlockBytes + fs.flatten.length := by
  induction fs generalizing c with
  | nil => exact ⟨hc, Nat.le_add_right _ _⟩
  | cons f fs ih =>
    have hdone := completes hc h.1 h.2.1
    obtain ⟨hidle, hle⟩ := ih hdone.idle h.2.2
    have hblock := hdone.block
    refine ⟨hidle, hle.trans ?_⟩
    rw [flatten_cons, length_append]
    omega

/-! ## Where the frames end -/

/-- The octets `rest` do not begin with a whole frame in which nothing is wrong. -/
def Ends (c : Parser) (rest : Bytes) : Prop :=
  ∀ frame x, rest = frame ++ x → Whole frame → c.verdict frame ≠ .none

theorem framePart_whole {frame : Bytes} (h : Whole frame) (x : Bytes) :
    framePart (frame ++ x) = frame := by
  rw [framePart_append h.header h.length.le, ← h.length, Nat.sub_self, take_zero,
    append_nil]

theorem Stands.ends (h : Stands c rest) : Ends c rest := by
  rintro frame x rfl hw -
  have hlen := h.open_ (hw.header.trans (by rw [length_append]; omega))
  rw [frameLength_append hw.header, length_append, ← hw.length] at hlen
  omega

theorem Stops.ends (h : Stops c rest m code) : Ends c rest := by
  rintro frame x rfl hw hnone
  have hverdict := h.verdict
  rw [framePart_whole hw] at hverdict
  exact h.ne (hverdict.symm.trans hnone)

/-- Two whole frames that begin the same octets are the same. -/
theorem Whole.unique {f f' x x' : Bytes} (h : Whole f) (h' : Whole f') (heq : f ++ x = f' ++ x') :
    f = f' := by
  have hpart := framePart_whole h x
  rw [heq, framePart_whole h'] at hpart
  exact hpart.symm

/-- **The frames of a byte string are determined by it.** -/
theorem frames_unique {rest' : Bytes} (h : c.Accepts fs) (h' : c.Accepts fs')
    (hend : Ends (c.passed fs) rest) (hend' : Ends (c.passed fs') rest')
    (heq : fs.flatten ++ rest = fs'.flatten ++ rest') : fs = fs' ∧ rest = rest' := by
  induction fs generalizing c fs' with
  | nil =>
    cases fs' with
    | nil => exact ⟨rfl, heq⟩
    | cons f' fs' =>
      refine absurd h'.2.1 (hend f' (fs'.flatten ++ rest') ?_ h'.1)
      simpa using heq
  | cons f fs ih =>
    cases fs' with
    | nil =>
      refine absurd h.2.1 (hend' f (fs.flatten ++ rest) ?_ h.1)
      simpa using heq.symm
    | cons f' fs' =>
      rw [flatten_cons, flatten_cons, append_assoc, append_assoc] at heq
      obtain rfl := h.1.unique h'.1 heq
      obtain ⟨hfs, hrest⟩ := ih h.2.2 h'.2.2 hend hend' (append_cancel_left heq)
      exact ⟨by rw [hfs], hrest⟩

/-- What stops the parser still stops it if more octets follow. -/
theorem Stops.append (hc : Idle c) (h : Stops c rest m code) (x : Bytes)
    (hno : c.headerBlockBytes + (rest ++ x).length < 2 ^ 64) :
    Stops c (rest ++ x) m code := by
  have hne : c.verdict (framePart rest) ≠ .none := fun hnone => h.ne (h.verdict.symm.trans hnone)
  have hlen : 9 ≤ rest.length := by
    by_contra hshort
    rw [framePart, if_pos (by omega), Parser.verdict, if_pos (by omega)] at hne
    exact absurd rfl hne
  have hpart : framePart rest = rest.take (frameLength rest) := if_neg (by omega)
  have hpart' : framePart (rest ++ x) =
      framePart rest ++ x.take (frameLength rest - rest.length) := by
    rw [framePart, if_neg (by rw [length_append]; omega), frameLength_append hlen,
      take_append, hpart]
  have hnine : 9 ≤ frameLength rest := le_self_add
  have hsame : frameLength (framePart rest) = frameLength rest := by
    have hdecode : decode (rest.take (frameLength rest)) = decode rest := by
      rw [← decode_append _ (rest.drop (frameLength rest)), take_append_drop]
      rw [length_take]
      omega
    rw [hpart, frameLength, hdecode, frameLength]
  refine ⟨h.ne, ?_, fun hother => ?_⟩
  · rw [hpart', verdict_append hc _ _ hne, h.verdict]
    · rw [← hpart', framePart, if_neg (by rw [length_append]; omega), length_take]
      omega
    · intro _
      rw [hsame, ← hpart', framePart, if_neg (by rw [length_append]; omega),
        frameLength_append hlen, length_take]
      exact min_le_left _ _
  · obtain ⟨hm, hstop, hbefore⟩ := h.first hother
    refine ⟨?_, ?_, fun k hk => ?_⟩
    · rw [length_append]
      omega
    · rwa [take_append_of_le_length hm]
    · rw [take_append_of_le_length (by omega)]
      exact hbefore k hk

end Parser

end WagoHttp.Http2
