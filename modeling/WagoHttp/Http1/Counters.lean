import WagoHttp.Foundations.Runs
import WagoHttp.Http1.Buffering

/-!
# Counters and limits

Every counter of the parser stays within its limit, in a parser that has failed as in one that has
not, and so no counter or position leaves the range of its type. The octets of a message are
counted where they are taken, so one message takes no more of them than the limits add up to.
-/

namespace WagoHttp.Http1

/-! ## Positions in names and values -/

theorem advance_le {pos : ℕ} (h : pos ≤ 255) : advance pos ≤ 255 := by
  unfold advance
  split <;> omega

variable {t : Transfer} {c : ConnectionScan} {o : Options}

theorem Transfer.consumeTransferToken_pos {b : UInt8} (h : t.transferTokenPos ≤ 255) :
    (t.consumeTransferToken b).1.transferTokenPos ≤ 255 := by
  unfold consumeTransferToken finishTransferToken afterTransferToken
  simp only
  split_ifs
  all_goals first | exact advance_le h | exact h

theorem Transfer.consumeTransferValue_pos {kind : Kind} {b : UInt8} (h : t.transferTokenPos ≤ 255) :
    (t.consumeTransferValue kind b).1.transferTokenPos ≤ 255 := by
  unfold consumeTransferValue
  split
  case h_1 =>
    split_ifs
    · exact h
    · exact h
    · exact consumeTransferToken_pos (Nat.zero_le _)
  case h_2 => exact consumeTransferToken_pos h
  case h_3 =>
    unfold afterTransferToken
    split_ifs <;> exact h
  all_goals split_ifs <;> exact h

theorem Transfer.finishTransferValue_pos (h : t.transferTokenPos ≤ 255) :
    t.finishTransferValue.1.transferTokenPos ≤ 255 := by
  unfold finishTransferValue finishTransferToken
  split
  · simp only
    split_ifs <;> exact h
  all_goals exact h

theorem ConnectionScan.consumeConnectionToken_pos {b : UInt8} (h : c.connectionTokenPos ≤ 255) :
    (c.consumeConnectionToken o b).1.1.connectionTokenPos ≤ 255 := by
  unfold consumeConnectionToken afterConnectionToken
  split_ifs
  all_goals first | exact advance_le h | exact h

theorem ConnectionScan.consumeConnectionValue_pos {b : UInt8} (h : c.connectionTokenPos ≤ 255) :
    (c.consumeConnectionValue o b).1.1.connectionTokenPos ≤ 255 := by
  unfold consumeConnectionValue
  split
  · split_ifs
    · exact h
    · exact h
    · exact consumeConnectionToken_pos (Nat.zero_le _)
  · exact consumeConnectionToken_pos h
  · unfold afterConnectionToken
    split_ifs <;> exact h

namespace Destination

variable {d : Destination} {env : Env} {method : Method} {b : UInt8}

/-- The literal stays within its limit, and no octet of the target is counted. -/
def Kept (d d' : Destination) : Prop :=
  (d.ipLiteral.length ≤ maxIPLiteralBytes → d'.ipLiteral.length ≤ maxIPLiteralBytes) ∧
    d'.targetBytes = d.targetBytes

theorem kept_appendIPLiteral : d.Kept (d.appendIPLiteral b).1 := by
  unfold appendIPLiteral
  split_ifs with hfull
  · exact ⟨id, rfl⟩
  · refine ⟨fun h => ?_, rfl⟩
    rw [List.length_append]
    exact Nat.succ_le_of_lt (lt_of_le_of_ne h hfull)

theorem kept_beginTarget : d.Kept (d.beginTarget method b).1 := by
  unfold beginTarget
  simp only
  split_ifs <;> first | exact ⟨id, rfl⟩ | exact ⟨fun _ => Nat.zero_le _, rfl⟩

theorem kept_consumeAuthority : d.Kept (d.consumeAuthority env b).1 := by
  unfold consumeAuthority
  split_ifs <;> first | exact ⟨id, rfl⟩ | exact kept_appendIPLiteral

theorem kept_consumeTargetForm : d.Kept (d.consumeTargetForm env method b).1 := by
  by_cases h0 : d.targetBytes = 0
  · rw [consumeTargetForm, if_pos h0]
    exact kept_beginTarget
  · rw [consumeTargetForm, if_neg h0]
    split
    · exact ⟨id, rfl⟩
    · split <;> exact ⟨id, rfl⟩
    · exact kept_consumeAuthority
    all_goals exact ⟨id, rfl⟩

theorem kept_consumePercent : d.Kept (d.consumePercent b).1 := by
  unfold consumePercent
  split_ifs <;> exact ⟨id, rfl⟩

theorem kept_consumeHostValue : d.Kept (d.consumeHostValue env b).1 := by
  unfold consumeHostValue
  split
  case h_5 =>
    have happend : d.Kept (d.appendIPLiteral b).1 := kept_appendIPLiteral
    simp only
    split_ifs <;> first | exact ⟨id, rfl⟩ | exact happend
  case h_1 => split_ifs <;> first | exact ⟨id, rfl⟩ | exact ⟨fun _ => Nat.zero_le _, rfl⟩
  all_goals first | exact ⟨id, rfl⟩ | (split_ifs <;> exact ⟨id, rfl⟩)

end Destination

/-! ## Digits -/

theorem digit_le {b : UInt8} (h : isDigit b = true) : b.toNat - 0x30 ≤ 9 := by
  have h' : b ≤ octet '9' := by
    simp only [isDigit, Bool.and_eq_true, decide_eq_true_eq] at h
    exact h.2
  have h9 : b.toNat ≤ (octet '9').toNat := UInt8.le_iff_toNat_le.mp h'
  have hc : (octet '9').toNat = 0x39 := by decide
  omega

theorem LengthScan.consumeContentLength_lt {s : LengthScan} {n : ℕ} {b : UInt8} (h : n < 2 ^ 64) :
    (s.consumeContentLength n b).1.2 < 2 ^ 64 := by
  unfold consumeContentLength
  simp only
  split_ifs with hspace hdigits hother
  · exact h
  · exact h
  · exact h
  · exact h
  · have hdigit : b.toNat - 0x30 ≤ 9 := by
      simp only [Bool.or_eq_true, Bool.not_eq_true', not_or, Bool.not_eq_false] at hother
      exact digit_le hother.1
    simp only
    omega

namespace Parser

variable {p q : Parser} {k : ℕ} {code : Code} {b : UInt8} {src : Bytes} {env : Env}

/-! ## Bounds -/

/-- Counters are within their limits, and positions and numbers within their types. -/
structure Bounded (p : Parser) : Prop where
  startLine : p.startBytes ≤ p.limits.maxStartLineBytes.toNat
  leading : p.prefixBytes ≤ p.limits.maxStartLineBytes.toNat
  target : p.destination.targetBytes ≤ p.startBytes
  header : p.headerBytes ≤ p.limits.maxHeaderBytes.toNat
  headers : p.headerCount ≤ p.limits.maxHeaders.toNat
  name : p.fieldName.headerNameBytes ≤ p.limits.maxHeaderNameBytes.toNat
  field : p.fieldName.fieldPos ≤ p.fieldName.headerNameBytes
  chunkLine : p.chunkLineBytes ≤ p.limits.maxChunkLineBytes.toNat
  metadata : p.chunkMetadataBytes ≤ p.limits.maxChunkMetadataBytes.toNat
  chunks : p.chunkCount ≤ p.limits.maxChunks.toNat
  body : p.bodyBytes ≤ p.limits.maxBodyBytes.toNat
  literal : p.destination.ipLiteral.length ≤ maxIPLiteralBytes
  method : p.methodScan.methodPos ≤ 255
  transfer : p.transfer.transferTokenPos ≤ 255
  connection : p.connection.connectionTokenPos ≤ 255
  word : p.literalPos ≤ 5
  digits : p.statusDigits ≤ 3
  status : p.status < 10 ^ p.statusDigits
  major : p.major ≤ 9
  minor : p.minor ≤ 9
  chunk : p.chunkSize < 2 ^ 64
  content : p.remaining + p.bodyBytes < 2 ^ 64
  failure : p.code ≠ .upgrade

/-- The octets of the current message that have been counted. -/
def taken (p : Parser) : ℕ :=
  p.startBytes + p.headerBytes + p.bodyBytes + p.chunkMetadataBytes + 2 * p.chunkCount

/-- The octets at the end of a chunk are counted with the chunk, before they are taken. -/
def owed (p : Parser) : ℕ :=
  match p.state with
  | .chunkBody | .chunkBodyCR => 2
  | .chunkBodyLF => 1
  | _ => 0

/-- `q` comes from `p` by taking `k` octets of one message. -/
structure Counts (p : Parser) (k : ℕ) (q : Parser) : Prop where
  limits : q.limits = p.limits
  bounded : q.Bounded
  counted : p.taken + k + q.owed ≤ q.taken + p.owed

theorem Counts.refl (h : p.Bounded) : Counts p 0 p := ⟨rfl, h, le_rfl⟩

theorem Counts.less (h : Counts p (k + 1) q) : Counts p k q :=
  ⟨h.limits, h.bounded, by have := h.counted; omega⟩

/-- A change that takes nothing, and after which no more is owed. -/
theorem Counts.set {r : Parser} (h : Counts p k q) (hr : r.Bounded)
    (hsame : (r.limits, r.taken) = (q.limits, q.taken)) (ho : r.owed ≤ q.owed) : Counts p k r := by
  obtain ⟨hl, ht⟩ := Prod.mk.inj hsame
  refine ⟨hl.trans h.limits, hr, ?_⟩
  have := h.counted
  omega

/-- A change that counts `n` more octets. -/
theorem Counts.count {r : Parser} {n : ℕ} (h : Counts p k q) (hr : r.Bounded)
    (hl : r.limits = q.limits) (hc : q.taken + n + r.owed ≤ r.taken + q.owed) :
    Counts p (k + n) r := by
  refine ⟨hl.trans h.limits, hr, ?_⟩
  have := h.counted
  omega

theorem Bounded.fail (h : p.Bounded) (hc : code ≠ .upgrade) : (p.fail code).Bounded := by
  unfold Parser.fail
  split
  · exact { h with failure := hc }
  · exact h

theorem Counts.fail (h : Counts p k q) (hc : code ≠ .upgrade) : Counts p k (q.fail code) := by
  unfold Parser.fail
  split
  · exact h.set { h.bounded with failure := hc } rfl (Nat.zero_le _)
  · exact h

variable {state : State} {c : ℕ}

/-- Moving to a state in which nothing is owed. -/
theorem Counts.goto (h : Counts p k q) (ho : ({ q with state }).owed = 0) :
    Counts p k { q with state } := h.set { h.bounded with } rfl (ho ▸ Nat.zero_le _)

/-! ## Attempts -/

/-- An attempt that fails leaves a parser as `E` says, and one that does not, one as `P` says. -/
def Leaves (E P : Parser → Prop) (r : Except Parser Parser) : Prop :=
  match r with
  | .error q => E q
  | .ok q => P q

section Rules

variable {E P Q : Parser → Prop} {r : Except Parser Parser} {w : Pass}

theorem Leaves.mono (h : Leaves E P r) (hPQ : ∀ q, P q → Q q) : Leaves E Q r := by
  cases r with
  | error q => exact h
  | ok q => exact hPQ q h

theorem Leaves.bind {f : Parser → Except Parser Parser} (h : Leaves E P r)
    (hf : ∀ q, P q → Leaves E Q (f q)) : Leaves E Q (r >>= f) := by
  cases r with
  | error q => exact h
  | ok q => exact hf q h

theorem leaves_accept {ok : Bool} (h : Counts p k q) (hc : code ≠ .upgrade) :
    Leaves (Counts p k) (fun q' => q' = q ∧ ok = true) (q.accept ok code) := by
  unfold accept
  split
  · exact ⟨rfl, ‹_›⟩
  · exact h.fail hc

theorem leaves_accepted {ok : Bool} (h : Counts p k q) (hc : code ≠ .upgrade) (hq : P q) :
    Leaves (Counts p k) P (q.accept ok code) :=
  (leaves_accept h hc).mono fun _ h => h.1 ▸ hq

theorem leaves_takeStartByte (h : Counts p k q) :
    Leaves (Counts p k)
      (fun q' => Counts p (k + 1) q' ∧ q' = { q with startBytes := q.startBytes + 1 })
      q.takeStartByte := by
  unfold takeStartByte
  split
  · exact h.fail (by decide)
  · refine ⟨h.count { h.bounded with
      startLine := Nat.succ_le_of_lt (lt_of_le_of_ne h.bounded.startLine ‹_›)
      target := h.bounded.target.trans (Nat.le_succ _) } rfl ?_, rfl⟩
    simp only [taken, owed]
    omega

theorem leaves_takeHeaderByte (h : Counts p k q) :
    Leaves (Counts p k)
      (fun q' => Counts p (k + 1) q' ∧ q' = { q with headerBytes := q.headerBytes + 1 })
      q.takeHeaderByte := by
  unfold takeHeaderByte
  split
  · exact h.fail (by decide)
  · refine ⟨h.count { h.bounded with
      header := Nat.succ_le_of_lt (lt_of_le_of_ne h.bounded.header ‹_›) } rfl ?_, rfl⟩
    simp only [taken, owed]
    omega

theorem leaves_takeChunkLineByte (h : Counts p k q) :
    Leaves (Counts p k)
      (fun q' => Counts p (k + 1) q' ∧ q' = { q with
        chunkLineBytes := q.chunkLineBytes + 1
        chunkMetadataBytes := q.chunkMetadataBytes + 1 })
      q.takeChunkLineByte := by
  unfold takeChunkLineByte
  split_ifs with hline hmeta
  · exact h.fail (by decide)
  · exact h.fail (by decide)
  · refine ⟨h.count { h.bounded with
      chunkLine := Nat.succ_le_of_lt (lt_of_le_of_ne h.bounded.chunkLine hline)
      metadata := Nat.succ_le_of_lt (not_le.mp hmeta) } rfl ?_, rfl⟩
    simp only [taken, owed]
    omega

/-- The pass, after `k` octets, counts what it takes. -/
def Grows (p : Parser) (k : ℕ) (w : Pass) : Prop := Counts p (k + w.n) w.parser

theorem grows_halt (h : Counts p k q) (hc : code ≠ .upgrade) : Grows p k (q.halt code) := h.fail hc

theorem Grows.after {n : ℕ} {calls : List Call} (h : Grows p (k + n) w) :
    Grows p k (w.after n calls) := by
  unfold Grows Pass.after at *
  rwa [← Nat.add_assoc]

theorem grows_attempt {next : Parser → Pass} (h : Leaves (Counts p k) P r)
    (hn : ∀ q, P q → Grows p k (next q)) : Grows p k (attempt r next) := by
  cases r with
  | error q => exact h
  | ok q => exact hn q h

theorem grows_expect {fits : Bool} {take : Parser → Except Parser Parser} {next : Parser → Pass}
    (h : Counts p k q) (hc : code ≠ .upgrade) (ht : Leaves (Counts p k) P (take q))
    (hn : fits = true → ∀ q, P q → Grows p (k + 1) (next q)) :
    Grows p k (q.expect fits code take next) := by
  unfold expect
  split
  · exact grows_attempt ht fun q hq => (hn ‹_› q hq).after
  · exact grows_halt h hc

section Taken

variable {fits : Bool} {next : Parser → Pass} (h : Counts p k q) (hc : code ≠ .upgrade)
  (hn : fits = true → ∀ q, Counts p (k + 1) q → Grows p (k + 1) (next q))
include h hc hn

theorem grows_startByte : Grows p k (q.expect fits code takeStartByte next) :=
  grows_expect h hc (leaves_takeStartByte h) fun hf q hq => hn hf q hq.1

theorem grows_headerByte : Grows p k (q.expect fits code takeHeaderByte next) :=
  grows_expect h hc (leaves_takeHeaderByte h) fun hf q hq => hn hf q hq.1

theorem grows_chunkLineByte : Grows p k (q.expect fits code takeChunkLineByte next) :=
  grows_expect h hc (leaves_takeChunkLineByte h) fun hf q hq => hn hf q hq.1

end Taken

variable {more : Parser → UInt8 → Bool} {step : Parser → UInt8 → Except Parser Parser}
  {report : Bytes → List Call} {finish : Parser → Option UInt8 → Pass}

theorem grows_scanning {I : ℕ → Parser → Prop}
    (hstep : ∀ k q b, I k q → more q b = true → Leaves (Counts p k) (I (k + 1)) (step q b))
    (hfinish : ∀ k q o, I k q → Grows p k (finish q o)) (h : I 0 p) :
    Grows p 0 (p.scanning src more step report finish) := by
  have hscan : ∀ src k q, I k q →
      Leaves (Counts p (k + (q.scan more step src).2)) (I (k + (q.scan more step src).2))
        (q.scan more step src).1 := by
    intro src
    induction src with
    | nil => exact fun k q hq => hq
    | cons b src ih =>
      intro k q hq
      unfold scan
      split
      · have hb := hstep k q b hq ‹_›
        cases hs : step q b with
        | error q' =>
          rw [hs] at hb
          exact hb
        | ok q' =>
          rw [hs] at hb
          have hrest := ih (k + 1) q' hb
          rw [Nat.add_assoc, Nat.add_comm 1] at hrest
          exact hrest
      · exact hq
  have hall := hscan src 0 p h
  unfold scanning
  generalize p.scan more step src = r at hall
  obtain ⟨_ | q, n⟩ := r
  · exact hall
  · exact (hfinish (0 + n) q _ hall).after

/-- A scan up to a delimiter. -/
theorem grows_delimited (hp : p.Bounded)
    (hstep : ∀ {k q}, Counts p k q → ∀ b, Leaves (Counts p k) (Counts p (k + 1)) (step q b))
    (hnone : ∀ q, finish q none = { parser := q })
    (hsome : ∀ k q c, Counts p k q → Grows p k (finish q (some c))) :
    Grows p 0 (p.scanning src more step report finish) := by
  refine grows_scanning (I := Counts p) (fun k q b h _ => hstep h b) ?_ (.refl hp)
  intro k q o h
  cases o with
  | none => rw [hnone]; exact h
  | some c => exact hsome k q c h

end Rules

/-! ## Start lines -/

section Passes

variable {s : Stage}

theorem leaves_stepMethod (h : Counts p k q) (b : UInt8) :
    Leaves (Counts p k) (Counts p (k + 1)) (q.stepMethod b) := by
  refine (leaves_takeStartByte h).bind ?_
  rintro q' ⟨h', -⟩
  exact h'.set { h'.bounded with method := advance_le h'.bounded.method } rfl le_rfl

theorem leaves_stepTarget (h : Counts p k q) (b : UInt8) :
    Leaves (Counts p k) (Counts p (k + 1)) (q.stepTarget env b) := by
  have hform : Counts p k { q with
      destination := (q.destination.consumeTargetForm env q.method b).1 } :=
    h.set { h.bounded with
      literal := Destination.kept_consumeTargetForm.1 h.bounded.literal
      target := Destination.kept_consumeTargetForm.2.trans_le h.bounded.target } rfl le_rfl
  refine (leaves_accept hform (by decide)).bind ?_
  rintro _ ⟨rfl, -⟩
  generalize (q.destination.consumeTargetForm env q.method b).1 = d at hform
  have hpercent : Counts p k { q with destination := (d.consumePercent b).1 } :=
    h.set { hform.bounded with
      literal := Destination.kept_consumePercent.1 hform.bounded.literal
      target := Destination.kept_consumePercent.2.trans_le hform.bounded.target } rfl le_rfl
  refine (leaves_accept hpercent (by decide)).bind ?_
  rintro _ ⟨rfl, -⟩
  refine (leaves_takeStartByte hpercent).bind ?_
  rintro _ ⟨h', rfl⟩
  exact h'.set { h'.bounded with target := Nat.succ_le_succ hpercent.bounded.target } rfl le_rfl

theorem leaves_stepLiteral (h : Counts p k q) (b : UInt8) :
    Leaves (Counts p k) (Counts p (k + 1)) (q.stepLiteral b) := by
  refine (leaves_accept h (by decide)).bind ?_
  rintro q ⟨rfl, hb⟩
  refine (leaves_takeStartByte h).bind ?_
  rintro _ ⟨h', rfl⟩
  have hpos : q.literalPos < (ascii "HTTP/").length := by
    by_contra hpos
    rw [List.getElem?_eq_none (by simpa using hpos)] at hb
    cases hb
  exact h'.set { h'.bounded with word := hpos } rfl le_rfl

theorem grows_literal (hs : p.state = .reqHTTP ∨ p.state = .resHTTP) (hp : p.Bounded) :
    Grows p 0 (p.pass env b src) := by
  rw [pass_literal hs]
  refine grows_scanning (I := Counts p) (fun k q b h _ => leaves_stepLiteral h b) ?_ (.refl hp)
  intro k q o h
  simp only [finishLiteral]
  split_ifs
  · exact h.set { h.bounded with major := Nat.zero_le _, minor := Nat.zero_le _ } rfl (Nat.zero_le _)
  · exact h

theorem leaves_stepStatus (h : Counts p k q) (b : UInt8) (hmore : q.statusDigits < 3) :
    Leaves (Counts p k) (Counts p (k + 1)) (q.stepStatus b) := by
  refine (leaves_accept h (by decide)).bind ?_
  rintro _ ⟨rfl, hb⟩
  refine (leaves_takeStartByte h).bind ?_
  rintro _ ⟨h', rfl⟩
  have hd := digit_le hb
  refine h'.set { h'.bounded with digits := hmore, status := ?_ } rfl le_rfl
  have hlt := h.bounded.status
  simp only [pow_succ]
  omega

theorem grows_resStatus (hs : p.state = .resStatus) (hp : p.Bounded) :
    Grows p 0 (p.pass env b src) := by
  rw [pass_resStatus hs]
  refine grows_scanning (I := Counts p)
    (fun k q b h hm => leaves_stepStatus h b (of_decide_eq_true hm)) ?_ (.refl hp)
  intro k q o h
  simp only [finishStatus]
  split_ifs
  · exact grows_halt h (by decide)
  · exact h.goto rfl
  · exact h

theorem leaves_stepReason (h : Counts p k q) (b : UInt8) :
    Leaves (Counts p k) (Counts p (k + 1)) (q.stepReason b) := by
  refine (leaves_accept h (by decide)).bind ?_
  rintro _ ⟨rfl, -⟩
  exact (leaves_takeStartByte h).mono fun _ hq => hq.1

/-! ## Header sections -/

theorem leaves_beginHeader (h : Counts p k q) : Leaves (Counts p k) (Counts p k) q.beginHeader := by
  unfold beginHeader
  split
  · exact h.fail (by decide)
  · exact h.set { h.bounded with
      headers := Nat.succ_le_of_lt (not_le.mp ‹_›), name := Nat.zero_le _, field := Nat.zero_le _ }
      rfl le_rfl

theorem leaves_stepHeaderName (h : Counts p k q) (b : UInt8) :
    Leaves (Counts p k) (Counts p (k + 1)) (q.stepHeaderName b) := by
  refine (leaves_takeHeaderByte h).bind ?_
  rintro _ ⟨h', rfl⟩
  refine (leaves_accept h'.less (by decide)).bind ?_
  rintro _ ⟨rfl, hlong⟩
  have hlong' : q.fieldName.headerNameBytes ≠ q.limits.maxHeaderNameBytes.toNat := by
    simpa using hlong
  exact h'.set { h'.bounded with
    name := Nat.succ_le_of_lt (lt_of_le_of_ne h.bounded.name hlong')
    field := Nat.succ_le_succ h.bounded.field } rfl le_rfl

theorem leaves_beginValue (h : Counts p k q) : Leaves (Counts p k) (Counts p k) q.beginValue := by
  unfold beginValue
  split
  · split_ifs
    · exact h.fail (by decide)
    · exact h.fail (by decide)
    · refine h.set { h.bounded with content := ?_ } rfl le_rfl
      have := h.bounded.content
      simp only
      omega
  · split_ifs
    · exact h.fail (by decide)
    · exact h.fail (by decide)
    · exact h.set { h.bounded with } rfl le_rfl
  · exact h.set { h.bounded with } rfl le_rfl
  · split_ifs
    · exact h.fail (by decide)
    · exact h.set { h.bounded with } rfl le_rfl
  · exact h.set { h.bounded with } rfl le_rfl
  · exact h
  · exact h

theorem leaves_finishFieldName (h : Counts p k q) :
    Leaves (Counts p k) (Counts p k) q.finishFieldName := by
  have h' : Counts p k { q with
      fieldName := { q.fieldName with field := q.fieldName.namedField q.kind q.trailers } } :=
    h.set { h.bounded with } rfl le_rfl
  unfold finishFieldName
  simp only
  split_ifs
  · exact h'.fail (by decide)
  · exact leaves_beginValue h'

/-- In a Content-Length field no octets of the body have been taken. -/
def Unspent (q : Parser) : Prop := q.fieldName.field = .contentLength → q.bodyBytes = 0

theorem leaves_consumeFieldValue (h : Counts p (k + 1) q) (hu : q.Unspent) (b : UInt8) :
    Leaves (Counts p k) (fun q' => Counts p (k + 1) q' ∧ q'.Unspent)
      (q.consumeFieldValue env b) := by
  have haccept : ∀ {r : Parser} {ok : Bool} {code : Code}, Counts p (k + 1) r → r.Unspent →
      code ≠ .upgrade →
      Leaves (Counts p k) (fun q' => Counts p (k + 1) q' ∧ q'.Unspent) (r.accept ok code) :=
    fun h hu hc => leaves_accepted h.less hc ⟨h, hu⟩
  unfold consumeFieldValue
  split
  · next hfield =>
    have hlt := LengthScan.consumeContentLength_lt (s := q.lengthScan) (b := b)
      (Nat.lt_of_le_of_lt (Nat.le_add_right _ _) h.bounded.content)
    refine haccept (h.set { h.bounded with content := ?_ } rfl le_rfl) hu (by decide)
    simp only [hu hfield]
    exact hlt
  · exact haccept (h.set { h.bounded with
      transfer := Transfer.consumeTransferValue_pos h.bounded.transfer } rfl le_rfl) hu (by decide)
  · exact haccept (h.set { h.bounded with
      connection := ConnectionScan.consumeConnectionValue_pos h.bounded.connection }
      rfl le_rfl) hu (by decide)
  · exact haccept (h.set { h.bounded with
      literal := Destination.kept_consumeHostValue.1 h.bounded.literal
      target := Destination.kept_consumeHostValue.2.trans_le h.bounded.target } rfl le_rfl) hu (by decide)
  · exact haccept (h.set { h.bounded with } rfl le_rfl) hu (by decide)
  · exact ⟨h, hu⟩
  · exact ⟨h, hu⟩

theorem leaves_stepHeaderValue (h : Counts p k q) (hu : q.Unspent) (b : UInt8) :
    Leaves (Counts p k) (fun q' => Counts p (k + 1) q' ∧ q'.Unspent) (q.stepHeaderValue env b) := by
  refine (leaves_accept h (by decide)).bind ?_
  rintro _ ⟨rfl, -⟩
  refine (leaves_takeHeaderByte h).bind ?_
  rintro _ ⟨h', rfl⟩
  exact leaves_consumeFieldValue h' hu b

theorem leaves_finishFieldValue (h : Counts p k q) :
    Leaves (Counts p k) (Counts p k) q.finishFieldValue := by
  have haccept : ∀ {r : Parser} {ok : Bool} {code : Code}, Counts p k r → code ≠ .upgrade →
      Leaves (Counts p k) (Counts p k) (r.accept ok code) := fun h hc => leaves_accepted h hc h
  unfold finishFieldValue
  split
  · exact haccept h (by decide)
  · exact haccept (h.set { h.bounded with
      transfer := Transfer.finishTransferValue_pos h.bounded.transfer } rfl le_rfl) (by decide)
  · exact haccept (h.set { h.bounded with } rfl le_rfl) (by decide)
  · refine haccept h ?_
    unfold Destination.finishHostValue
    split
    · decide
    · split <;> decide
  · exact haccept (h.set { h.bounded with } rfl le_rfl) (by decide)
  · exact h
  · exact h

theorem grows_headerValue (hs : p.state = .headerValue) (hp : p.Bounded) (hplaced : p.Placed s) :
    Grows p 0 (p.pass env b src) := by
  have hu : p.Unspent := by
    simp only [Placed, hs] at hplaced
    obtain ⟨hd, m, hm, -⟩ := hplaced
    intro hfield
    unfold InHeader at hm
    split at hm
    · exact absurd ((hd hfield).symm.trans hm.2) (by decide)
    · exact hm.2.1
  rw [pass_headerValue hs]
  refine grows_scanning (I := fun k q => Counts p k q ∧ q.Unspent)
    (fun k q b h _ => leaves_stepHeaderValue h.1 h.2 b) ?_ ⟨.refl hp, hu⟩
  rintro k q o ⟨h, -⟩
  cases o with
  | none => exact h
  | some c =>
    refine grows_attempt (leaves_finishFieldValue h) fun q h => ?_
    exact grows_headerByte h (by decide) fun _ _ h => h.goto rfl

theorem Counts.completeMessage (h : Counts p k q) : Counts p k q.completeMessage.parser :=
  h.set { h.bounded with } rfl (Nat.zero_le _)

theorem grows_beginContent (h : Counts p k q) : Grows p k q.beginContent := by
  unfold beginContent
  simp only
  split_ifs
  · exact h.completeMessage.goto rfl
  · exact h.completeMessage
  · exact h.goto rfl
  · exact h.goto rfl
  · exact grows_halt h (by decide)
  · exact h.completeMessage
  · exact h.goto rfl
  · exact h.completeMessage
  · exact h.goto rfl

theorem grows_endHeaders (h : Counts p k q) : Grows p k q.endHeaders := by
  unfold endHeaders headersComplete
  split_ifs
  · exact Grows.after h.completeMessage
  all_goals first | exact (grows_beginContent h).after | exact grows_halt h (by decide)

/-! ## Bodies -/

/-- Octets of a body that is counted. -/
theorem leaves_addBody {n : ℕ} (hp : p.Bounded) (hn : n ≤ p.remaining) :
    Leaves (Counts p 0)
      (fun q => Counts p n { q with remaining := q.remaining - n }) (p.addBody n) := by
  unfold addBody
  split_ifs with hbig
  · exact (Counts.refl hp).fail (by decide)
  · have hbody := hp.body
    have hcontent := hp.content
    refine ⟨rfl, { hp with body := ?_, content := ?_ }, ?_⟩
    · simp only
      omega
    · simp only
      omega
    · simp only [taken, owed]
      omega

theorem grows_fixedBody (hs : p.state = .fixedBody) (hp : p.Bounded) :
    Grows p 0 (p.pass env b src) := by
  simp only [pass, hs, passFixedBody]
  refine grows_attempt (leaves_addBody hp (min_le_right _ _)) fun q hq => ?_
  refine Grows.after ?_
  rw [Nat.zero_add]
  split_ifs
  · exact hq.completeMessage
  · exact hq

theorem grows_chunkBody (hs : p.state = .chunkBody) (hp : p.Bounded) :
    Grows p 0 (p.pass env b src) := by
  simp only [pass, hs, passChunkBody]
  have hadd := leaves_addBody (n := min (b :: src).length p.remaining) hp (min_le_right _ _)
  have hstate := yields_addBody (p := p) (n := min (b :: src).length p.remaining)
  revert hadd hstate
  generalize p.addBody _ = r
  intro hadd hstate
  cases r with
  | error q => exact hadd
  | ok q =>
    simp only [Leaves] at hadd
    refine Grows.after ?_
    rw [Nat.zero_add]
    split_ifs
    · -- the end of the chunk is owed before and after
      have hq : q.state = .chunkBody := by rw [show q = _ from hstate]; exact hs
      exact hadd.set { hadd.bounded with } rfl (by simp only [owed, hq, Parser.goto, le_refl])
    · exact hadd

theorem grows_closeBody (hs : p.state = .closeBody) (hp : p.Bounded) (hplaced : p.Placed s) :
    Grows p 0 (p.pass env b src) := by
  have hr : p.remaining = 0 := by
    simp only [Placed, hs] at hplaced
    obtain ⟨-, -, ⟨-, hr⟩, -⟩ := hplaced
    exact hr
  have hmax := p.limits.maxBodyBytes.toNat_lt
  simp only [pass, hs, passCloseBody]
  generalize hn : min (b :: src).length (p.limits.maxBodyBytes.toNat - p.bodyBytes) = n
  have hbody := hp.body
  have h : Counts p n { p with bodyBytes := p.bodyBytes + n, state := .closeBody } := by
    refine ⟨rfl, { hp with body := ?_, content := ?_ }, ?_⟩
    · simp only
      omega
    · simp only
      omega
    · simp only [taken, owed, hs]
      omega
  refine Grows.after ?_
  rw [Nat.zero_add]
  split_ifs
  · exact grows_halt h (by decide)
  · exact h

theorem hexValue_le (b : UInt8) : (hexValue b).getD 0 < 2 ^ 64 := by
  have hb := b.toNat_lt
  unfold hexValue
  split_ifs
  all_goals
    simp only [Option.getD_some, Option.getD_none]
    omega

theorem leaves_stepChunkSize (h : Counts p k q) (b : UInt8) :
    Leaves (Counts p k) (Counts p (k + 1)) (q.stepChunkSize b) := by
  have hd : Counts p k { q with chunkDigits := true } := h.set { h.bounded with } rfl le_rfl
  refine (leaves_takeChunkLineByte hd).bind ?_
  rintro _ ⟨h', rfl⟩
  refine (leaves_accept h'.less (by decide)).bind ?_
  rintro _ ⟨rfl, hfits⟩
  have hfits' : q.chunkSize ≤ (2 ^ 64 - 1 - (hexValue b).getD 0) / 16 := by
    simpa only [decide_eq_true_eq] using hfits
  have hdigit := hexValue_le b
  refine h'.set { h'.bounded with chunk := ?_ } rfl le_rfl
  simp only
  omega

theorem leaves_stepChunkExt (h : Counts p k q) (b : UInt8) :
    Leaves (Counts p k) (Counts p (k + 1)) (q.stepChunkExt b) := by
  refine (leaves_takeChunkLineByte h).bind ?_
  rintro _ ⟨h', rfl⟩
  have h'' := h'.set (r := { q with
    chunkLineBytes := q.chunkLineBytes + 1, chunkMetadataBytes := q.chunkMetadataBytes + 1
    chunkExtState := (q.chunkExtState.consumeChunkExtension b).1 }) { h'.bounded with } rfl le_rfl
  exact leaves_accepted h''.less (by decide) h''

theorem grows_chunkSizeLF (hs : p.state = .chunkSizeLF) (hp : p.Bounded) :
    Grows p 0 (p.pass env b src) := by
  have hmax := p.limits.maxBodyBytes.toNat_lt
  have hbody := hp.body
  simp only [pass, hs]
  refine grows_expect (.refl hp) (by decide) (leaves_takeChunkLineByte (.refl hp)) ?_
  rintro - _ ⟨h, rfl⟩
  simp only [endChunkLine]
  split_ifs with hbig hzero hmany
  · exact grows_halt h (by decide)
  · exact h.set { h.bounded with } rfl (Nat.zero_le _)
  · exact grows_halt h (by decide)
  · refine ⟨rfl, { h.bounded with
      chunks := Nat.succ_le_of_lt (not_le.mp hmany), content := ?_ }, ?_⟩
    · simp only at hbig ⊢
      omega
    · have := h.counted
      simp only [taken, owed, hs] at this ⊢
      omega

/-- **One pass counts what it takes**, once a message has begun. -/
theorem grows_pass (hp : p.Bounded) (hplaced : p.Placed s)
    (hbegun : p.state ≠ .start ∧ p.state ≠ .leadingLF) : Grows p 0 (p.pass env b src) := by
  have h : Counts p 0 p := .refl hp
  cases hs : p.state with
  | start => exact absurd hs hbegun.1
  | leadingLF => exact absurd hs hbegun.2
  | reqMethod =>
    rw [pass_reqMethod hs]
    refine grows_delimited hp leaves_stepMethod (fun _ => rfl) fun k q c h => ?_
    simp only [finishReqMethod]
    split_ifs
    · exact grows_halt h (by decide)
    · exact grows_halt h (by decide)
    · exact grows_startByte (h.set { h.bounded with } rfl le_rfl) (by decide) fun _ _ h => h.goto rfl
  | reqTarget =>
    rw [pass_reqTarget hs]
    refine grows_delimited hp leaves_stepTarget (fun _ => rfl) fun k q c h => ?_
    refine grows_startByte h (by decide) fun _ q h => ?_
    exact h.set { h.bounded with word := Nat.zero_le _ } rfl (Nat.zero_le _)
  | reqHTTP => exact grows_literal (.inl hs) hp
  | resHTTP => exact grows_literal (.inr hs) hp
  | resStatus => exact grows_resStatus hs hp
  | resReason =>
    rw [pass_resReason hs]
    refine grows_delimited hp leaves_stepReason (fun _ => rfl) fun k q c h => ?_
    exact grows_startByte h (by decide) fun _ _ h => h.goto rfl
  | headerName =>
    rw [pass_headerName hs]
    refine grows_delimited hp leaves_stepHeaderName (fun _ => rfl) fun k q c h => ?_
    refine grows_headerByte h (by decide) fun _ q h => ?_
    exact grows_attempt (leaves_finishFieldName h) fun _ h => h.goto rfl
  | headerValueStart =>
    rw [pass_headerValueStart hs]
    refine grows_delimited hp (fun h _ => (leaves_takeHeaderByte h).mono fun _ hq => hq.1)
      (fun _ => rfl) fun k q c h => ?_
    exact h.goto rfl
  | headerValue => exact grows_headerValue hs hp hplaced
  | fixedBody => exact grows_fixedBody hs hp
  | closeBody => exact grows_closeBody hs hp hplaced
  | chunkSize =>
    rw [pass_chunkSize hs]
    refine grows_delimited hp leaves_stepChunkSize (fun _ => rfl) fun k q c h => ?_
    simp only [finishChunkSize]
    split_ifs
    · exact grows_halt h (by decide)
    · refine grows_chunkLineByte h (by decide) fun _ _ h => ?_
      exact h.set { h.bounded with } rfl (Nat.zero_le _)
    · exact grows_chunkLineByte h (by decide) fun _ _ h => h.goto rfl
  | chunkExt =>
    rw [pass_chunkExt hs]
    refine grows_delimited hp leaves_stepChunkExt (fun _ => rfl) fun k q c h => ?_
    simp only [finishChunkExt]
    split_ifs
    · exact grows_halt h (by decide)
    · exact grows_chunkLineByte h (by decide) fun _ _ h => h.goto rfl
  | chunkSizeLF => exact grows_chunkSizeLF hs hp
  | chunkBody => exact grows_chunkBody hs hp
  | versionMajor =>
    simp only [pass, hs]
    refine grows_startByte h (by decide) fun hd _ h => ?_
    exact h.set { h.bounded with major := digit_le hd } rfl (Nat.zero_le _)
  | versionMinor =>
    simp only [pass, hs]
    refine grows_startByte h (by decide) fun hd q h => ?_
    refine h.set { h.bounded with minor := digit_le hd } rfl ?_
    by_cases hk : q.kind = .request
    all_goals
      simp only [hk, if_true, if_false, owed]
      exact Nat.zero_le _
  | reqLineCR =>
    simp only [pass, hs]
    split
    · exact grows_halt h (by decide)
    · exact grows_startByte h (by decide) fun _ _ h => h.goto rfl
  | resSpaceBeforeStatus =>
    simp only [pass, hs]
    refine grows_startByte h (by decide) fun _ _ h => ?_
    exact h.set { h.bounded with digits := Nat.zero_le _, status := Nat.one_pos } rfl (Nat.zero_le _)
  | versionDot | resReasonStart | reqLineLF | resLineLF =>
    simp only [pass, hs]
    exact grows_startByte h (by decide) fun _ _ h => h.goto rfl
  | headerStart =>
    simp only [pass, hs, passHeaderStart]
    split_ifs
    · exact grows_headerByte h (by decide) fun _ _ h => h.goto rfl
    · exact grows_halt h (by decide)
    · exact grows_attempt (leaves_beginHeader h) fun _ h => h.goto rfl
  | headerValueLF =>
    simp only [pass, hs]
    exact grows_headerByte h (by decide) fun _ _ h => h.goto rfl
  | headersLF =>
    simp only [pass, hs]
    exact grows_headerByte h (by decide) fun _ _ h => grows_endHeaders h
  | chunkSizeStart =>
    simp only [pass, hs]
    exact h.set { hp with chunkLine := Nat.zero_le _, chunk := Nat.two_pow_pos 64 } rfl
      (Nat.zero_le _)
  | chunkBodyCR | chunkBodyLF =>
    simp only [pass, hs]
    refine grows_expect (P := fun q => q = p) h (by decide) rfl ?_
    rintro - _ rfl
    exact ⟨rfl, { hp with }, by simp [taken, owed, hs, goto, endChunk]⟩
  | upgrade | dead =>
    simp only [pass, hs]
    exact grows_halt h (by decide)

end Passes

/-! ## Between messages -/

theorem bounded_resetMessage (hp : p.Bounded) : p.resetMessage.Bounded := by
  constructor
  case name => exact hp.name
  case field => exact hp.field
  case transfer => exact hp.transfer
  case connection => exact hp.connection
  case failure => exact hp.failure
  case chunk | content => exact Nat.two_pow_pos 64
  case status => exact Nat.one_pos
  all_goals exact Nat.zero_le _

/-- The octets that one message may take. -/
def messageBound (l : Limits) : ℕ :=
  2 * l.maxStartLineBytes.toNat + l.maxHeaderBytes.toNat + l.maxBodyBytes.toNat +
    l.maxChunkMetadataBytes.toNat + 2 * l.maxChunks.toNat

/-- `c` octets have been taken since the last message was completed. -/
def Spent (p : Parser) (c : ℕ) : Prop :=
  if p.code ≠ .none then c ≤ messageBound p.limits
  else
    match p.state with
    | .start | .leadingLF => c ≤ p.prefixBytes
    | .upgrade => c ≤ messageBound p.limits
    | _ => c + p.owed ≤ p.limits.maxStartLineBytes.toNat + p.taken

theorem Bounded.taken_le (hp : p.Bounded) :
    p.limits.maxStartLineBytes.toNat + p.taken ≤ messageBound p.limits := by
  have h1 := hp.startLine
  have h2 := hp.header
  have h3 := hp.body
  have h4 := hp.metadata
  have h5 := hp.chunks
  unfold taken messageBound
  omega

theorem Bounded.leading_le (hp : p.Bounded) : p.prefixBytes ≤ messageBound p.limits :=
  hp.leading.trans ((Nat.le_add_right _ _).trans hp.taken_le)

theorem Spent.le (hp : p.Bounded) (h : p.Spent c) : c ≤ messageBound p.limits := by
  unfold Spent at h
  split at h
  · exact h
  · split at h
    · exact h.trans hp.leading_le
    · exact h.trans hp.leading_le
    · exact h
    · exact (Nat.le_add_right _ _).trans (h.trans hp.taken_le)

theorem spent_zero (hs : p.state = .start ∨ p.state = .leadingLF ∨ p.state = .upgrade) :
    p.Spent 0 := by
  unfold Spent
  split
  · exact Nat.zero_le _
  · rcases hs with hs | hs | hs
    all_goals
      rw [hs]
      exact Nat.zero_le _

/-- In the middle of a message the octets are those that have been counted, and those before it. -/
theorem spent_iff (hcode : p.code = .none) (hs : p.state ≠ .start ∧ p.state ≠ .leadingLF)
    (hup : p.state ≠ .upgrade) :
    p.Spent c ↔ c + p.owed ≤ p.limits.maxStartLineBytes.toNat + p.taken := by
  rw [Spent, if_neg (not_not.mpr hcode)]
  split
  · exact absurd ‹_› hs.1
  · exact absurd ‹_› hs.2
  · exact absurd ‹_› hup
  · exact Iff.rfl

/-- What is kept while the octets of a message are taken. -/
structure Within (p : Parser) (c : ℕ) : Prop where
  bounded : p.Bounded
  spent : p.Spent c

/-- What a pass does to the counters, `c` octets after the last message was completed. -/
structure Takes (p : Parser) (c : ℕ) (w : Pass) : Prop where
  limits : w.parser.limits = p.limits
  bounded : w.parser.Bounded
  total : c + w.n ≤ messageBound p.limits
  spent : w.parser.code ≠ .none ∨ Continues p w → w.parser.Spent (c + w.n)

theorem limits_fail : (p.fail code).limits = p.limits := by
  unfold Parser.fail
  split <;> rfl

theorem takes_halt (hp : p.Bounded) (hc : c ≤ messageBound p.limits)
    (hne : code ≠ .none ∧ code ≠ .upgrade) : Takes p c (p.halt code) := by
  have hfail : (p.fail code).code ≠ .none := code_fail hne.1
  refine ⟨limits_fail, hp.fail hne.2, hc, fun _ => ?_⟩
  simp only [halt, Spent, if_pos hfail, limits_fail]
  exact hc

/-- An octet before the message. -/
theorem takes_prefixByte (hcode : p.code = .none) (hp : p.Bounded) (hc : c ≤ p.prefixBytes)
    (hstate : state = .start ∨ state = .leadingLF) :
    Takes p c (attempt p.takePrefixByte fun q => (q.goto state).after 1 []) := by
  have hbound := hp.taken_le
  unfold takePrefixByte
  split
  · exact takes_halt hp (hc.trans hp.leading_le) (by decide)
  · rename_i hfull
    have hlt : p.prefixBytes < p.limits.maxStartLineBytes.toNat := lt_of_le_of_ne hp.leading hfull
    refine ⟨rfl, { hp with leading := hlt }, ?_, fun _ => ?_⟩
    · simp only [attempt, Pass.after, Parser.goto]
      omega
    · obtain rfl | rfl := hstate
      all_goals
        simp only [attempt, Pass.after, Parser.goto, Spent, hcode, ne_eq, not_true_eq_false, if_false]
        omega

theorem takes_start (hs : p.state = .start) (hcode : p.code = .none) (hp : p.Bounded)
    (hc : p.Spent c) : Takes p c (p.pass env b src) := by
  rw [Spent, if_neg (not_not.mpr hcode), hs] at hc
  simp only [pass, hs, passStart]
  split
  · exact takes_prefixByte hcode hp hc (.inr rfl)
  · have hkeeps : (p.beginMessage env).parser.limits = p.limits ∧
        (p.beginMessage env).parser.Bounded ∧ (p.beginMessage env).n = 0 := by
      unfold beginMessage askContext
      split
      · exact ⟨rfl, bounded_resetMessage { hp with }, rfl⟩
      · exact ⟨rfl, bounded_resetMessage hp, rfl⟩
    obtain ⟨hlimits, hb, hn⟩ := hkeeps
    refine ⟨hlimits, { hb with }, by rw [hn]; exact hc.trans hp.leading_le, fun _ => ?_⟩
    have hle : c ≤ p.limits.maxStartLineBytes.toNat := hc.trans hp.leading
    have hnone : (p.beginMessage env).parser.code = .none := by
      unfold beginMessage askContext
      split <;> exact hcode
    rw [← hlimits] at hle
    simp only [hn, Nat.add_zero]
    by_cases hk : (p.beginMessage env).parser.kind = .request
    all_goals
      simp only [hk, if_true, Spent, hnone, ne_eq, not_true_eq_false, if_false]
      exact hle

theorem takes_leadingLF (hs : p.state = .leadingLF) (hcode : p.code = .none) (hp : p.Bounded)
    (hc : p.Spent c) : Takes p c (p.pass env b src) := by
  rw [Spent, if_neg (not_not.mpr hcode), hs] at hc
  simp only [pass, hs]
  unfold expect
  split
  · exact takes_prefixByte hcode hp hc (.inl rfl)
  · exact takes_halt hp (hc.trans hp.leading_le) (by decide)

theorem bounded_pass {s : Stage} (hcode : p.code = .none) (hplaced : p.Placed s) (hp : p.Bounded) :
    (p.pass env b src).parser.Bounded ∧ (p.pass env b src).parser.limits = p.limits := by
  by_cases hs : p.state = .start
  · have htakes : Takes p 0 (p.pass env b src) := takes_start hs hcode hp (spent_zero (.inl hs))
    exact ⟨htakes.bounded, htakes.limits⟩
  by_cases hs' : p.state = .leadingLF
  · have htakes : Takes p 0 (p.pass env b src) :=
      takes_leadingLF hs' hcode hp (spent_zero (.inr (.inl hs')))
    exact ⟨htakes.bounded, htakes.limits⟩
  have hgrows : Counts p _ (p.pass env b src).parser := grows_pass hp hplaced ⟨hs, hs'⟩
  exact ⟨hgrows.bounded, hgrows.limits⟩

/-- **One pass** takes no more octets than the limits allow a message. -/
theorem takes_pass {s : Stage} (hcode : p.code = .none) (hup : p.state ≠ .upgrade)
    (hplaced : p.Placed s) (hp : p.Bounded) (hc : p.Spent c) : Takes p c (p.pass env b src) := by
  by_cases hs : p.state = .start
  · exact takes_start hs hcode hp hc
  by_cases hs' : p.state = .leadingLF
  · exact takes_leadingLF hs' hcode hp hc
  have hgrows : Counts p (0 + (p.pass env b src).n) (p.pass env b src).parser :=
    grows_pass hp hplaced ⟨hs, hs'⟩
  rw [Nat.zero_add] at hgrows
  rw [spent_iff hcode ⟨hs, hs'⟩ hup] at hc
  have hcounted := hgrows.counted
  have hsum : c + (p.pass env b src).n + (p.pass env b src).parser.owed ≤
      (p.pass env b src).parser.limits.maxStartLineBytes.toNat + (p.pass env b src).parser.taken := by
    rw [hgrows.limits]
    omega
  have htotal := hgrows.bounded.taken_le
  refine ⟨hgrows.limits, hgrows.bounded, ?_, fun h => ?_⟩
  · rw [← hgrows.limits]
    omega
  · by_cases hfail : (p.pass env b src).parser.code = .none
    · have hgo := h.resolve_left (not_not.mpr hfail)
      have hb : ¬(p.pass env b src).parser.Between := fun hb => by
        obtain h | h := hgo.between hb
        · exact hs h
        · exact hs' h
      rw [Between, not_or] at hb
      exact (spent_iff hfail hb hgo.state).mpr hsum
    · rw [Spent, if_pos hfail]
      omega

/-! ## Runs -/

theorem Takes.completed {w : Pass} (h : Takes p c w) (hdone : Completes p w) : Within w.parser 0 :=
  ⟨h.bounded, spent_zero (hdone.state.imp_right .inr)⟩

/-- The counters after a loop, however it ends. -/
theorem bounded_loop (fuel : ℕ) (src : Bytes) (hocc : p.Occurs) (hcode : p.code = .none)
    (hp : p.Bounded) :
    (p.loop env fuel src).parser.Bounded ∧ (p.loop env fuel src).parser.limits = p.limits := by
  induction fuel generalizing p src with
  | zero => exact ⟨hp, rfl⟩
  | succ fuel ih =>
    cases src with
    | nil => exact ⟨hp, rfl⟩
    | cons b src =>
      obtain ⟨s, hplaced⟩ := hocc.placed
      have hpass : (p.pass env b src).parser.Bounded ∧
          (p.pass env b src).parser.limits = p.limits := bounded_pass hcode hplaced hp
      simp only [loop]
      split_ifs with hpaused hcode' hup'
      · exact ⟨hp, rfl⟩
      · exact hpass
      · exact hpass
      · obtain ⟨hb, hl⟩ := ih _ (occurs_pass hocc (not_not.mp hcode')) (not_not.mp hcode') hpass.1
        exact ⟨hb, hl.trans hpass.2⟩

theorem bounded_runParse (src : Bytes) (after : Bool) (hocc : p.code = .none → p.Occurs)
    (hp : p.Bounded) :
    (p.runParse env src after).parser.Bounded ∧
      (p.runParse env src after).parser.limits = p.limits := by
  simp only [runParse, parseAll]
  split_ifs with hcode hup
  · exact ⟨{ hp with }, rfl⟩
  · exact ⟨{ hp with }, rfl⟩
  · obtain ⟨hb, hl⟩ : (Parser.loop env (2 * src.length)
        { p with pauseAfterMessage := after, paused := false } src).parser.Bounded ∧ _ :=
      bounded_loop _ src (occurs_flags (hocc (not_not.mp hcode))) (not_not.mp hcode) { hp with }
    exact ⟨{ hb with }, hl⟩

theorem bounded_act (hocc : p.code = .none → p.Occurs) (hp : p.Bounded) (i : Input) :
    (p.act env i).parser.Bounded ∧ (p.act env i).parser.limits = p.limits := by
  cases i with
  | parse src => exact bounded_runParse src false hocc hp
  | parseOne src => exact bounded_runParse src true hocc hp
  | finish =>
    simp only [act, finish]
    split_ifs
    · exact ⟨hp, rfl⟩
    · exact ⟨hp, rfl⟩
    · exact ⟨{ hp with }, rfl⟩
    · exact ⟨hp, rfl⟩
    · exact ⟨hp.fail (by decide), limits_fail⟩
  | setResponseContext head connect => exact ⟨{ hp with }, rfl⟩

theorem bounded_after (hocc : p.code = .none → p.Occurs) (hp : p.Bounded) (is : List Input) :
    (p.after env is).Bounded ∧ (p.after env is).limits = p.limits := by
  induction is generalizing p with
  | nil => exact ⟨hp, rfl⟩
  | cons i is ih =>
    have hstep : (p.act env i).parser.Bounded ∧ _ := bounded_act hocc hp i
    obtain ⟨hb, hl⟩ := ih (occurs_act hocc i) hstep.1
    exact ⟨hb, hl.trans hstep.2⟩

/-- A loop that pauses after a message takes no more octets than the limits allow a message. -/
theorem within_loop (fuel : ℕ) (src : Bytes) (hp : p.Reading) (hpause : p.pauseAfterMessage = true)
    (hw : Within p c) :
    c + (p.loop env fuel src).n ≤ messageBound p.limits ∧
      Within (p.loop env fuel src).parser
        (if (p.loop env fuel src).parser.paused then 0 else c + (p.loop env fuel src).n) := by
  have hpaused : p.paused = false := (stop_eq_none.mp hp.stop).2.2
  have hidle : c + 0 ≤ messageBound p.limits ∧ Within p (if p.paused then 0 else c + 0) := by
    rw [hpaused]
    exact ⟨hw.spent.le hw.bounded, hw⟩
  induction fuel generalizing p c src with
  | zero => exact hidle
  | succ fuel ih =>
    cases src with
    | nil => exact hidle
    | cons b src =>
      obtain ⟨hcode, hup, -⟩ := stop_eq_none.mp hp.stop
      obtain ⟨s, hplaced⟩ := hp.placed
      have htakes : Takes p c (p.pass env b src) :=
        takes_pass hcode hup hplaced hw.bounded hw.spent
      have hgoes : Goes p (p.pass env b src) := goes_pass
      simp only [loop, hpaused, Bool.false_eq_true, if_false]
      generalize hw' : p.pass env b src = w at htakes hgoes
      by_cases hcode' : w.parser.code = .none
      · obtain hgo | hdone := hgoes hcode'
        · -- the message goes on
          have hnot : w.parser.paused = false := hgo.paused.trans hpaused
          simp only [hcode', ne_eq, not_true_eq_false, if_false, hgo.state]
          have hread : w.parser.Reading := by
            subst hw'
            exact ⟨occurs_pass hp.toOccurs hcode', stop_eq_none.mpr ⟨hcode', hgo.state, hnot⟩⟩
          have hspent := htakes.spent (.inr hgo)
          have hrest := ih (c := c + w.n) ((b :: src).drop w.n) hread
            (hgo.pause.trans hpause) ⟨htakes.bounded, hspent⟩ hnot (by
              rw [hnot]
              exact ⟨hspent.le htakes.bounded, htakes.bounded, hspent⟩)
          rw [htakes.limits, Nat.add_assoc] at hrest
          exact hrest
        · -- the message is complete
          have hyes : w.parser.paused = true := hdone.paused.trans hpause
          have hzero := htakes.completed hdone
          simp only [hcode', ne_eq, not_true_eq_false, if_false, loop_of_paused _ _ hyes]
          split
          · exact ⟨htakes.total, hzero⟩
          · simp only [Parsed.after, hyes, if_true, Nat.add_zero]
            exact ⟨htakes.total, hzero⟩
      · simp only [hcode', ne_eq, not_false_eq_true, if_true]
        refine ⟨htakes.total, ?_⟩
        have hspent := htakes.spent (.inl hcode')
        split
        · refine ⟨htakes.bounded, ?_⟩
          rw [Spent, if_pos hcode']
          exact Nat.zero_le _
        · exact ⟨htakes.bounded, hspent⟩

/-! ## Numbers -/

/-- Taking digits accumulates their value, and fails only for lack of room or because the value does
not fit in 64 bits. -/
theorem scan_accumulates {more : Parser → UInt8 → Bool}
    {step : Parser → UInt8 → Except Parser Parser} (acc : Parser → ℕ) (base : ℕ)
    (digit : UInt8 → ℕ) {fits : UInt8 → Bool} (room : Code → Prop) (huge : Code)
    (I : Parser → Prop) (hbase : 1 ≤ base) (hmore : ∀ q b, fits b = true → more q b = true)
    (hstep : ∀ q b, I q → fits b = true →
      Leaves (fun q' => room q'.code ∨ q'.code = huge ∧ 2 ^ 64 ≤ acc q * base + digit b)
        (fun q' => I q' ∧ acc q' = acc q * base + digit b ∧ acc q' < 2 ^ 64) (step q b))
    (digits : Bytes) (hdigits : ∀ b ∈ digits, fits b = true) (hp : I p) (hacc : acc p < 2 ^ 64) :
    Leaves
      (fun q => room q.code ∨ q.code = huge ∧
        2 ^ 64 ≤ digits.foldl (fun n b => n * base + digit b) (acc p))
      (fun q => acc q = digits.foldl (fun n b => n * base + digit b) (acc p) ∧ acc q < 2 ^ 64)
      (p.scan more step digits).1 := by
  have hgrows : ∀ (ds : Bytes) n, n ≤ ds.foldl (fun n b => n * base + digit b) n := by
    intro ds
    induction ds with
    | nil => exact fun n => le_rfl
    | cons b ds ih =>
      intro n
      refine le_trans ?_ (ih (n * base + digit b))
      exact (Nat.le_mul_of_pos_right n hbase).trans (Nat.le_add_right _ _)
  induction digits generalizing p with
  | nil => exact ⟨rfl, hacc⟩
  | cons b digits ih =>
    have hb := hdigits b List.mem_cons_self
    have hone := hstep p b hp hb
    simp only [scan, hmore p b hb, if_true]
    cases hs : step p b with
    | error q =>
      rw [hs] at hone
      refine hone.imp_right fun h => ⟨h.1, h.2.trans ?_⟩
      exact hgrows digits _
    | ok q =>
      rw [hs] at hone
      obtain ⟨hq, hvalue, hlt⟩ := hone
      have hrest := ih (fun c hc => hdigits c (List.mem_cons_of_mem _ hc)) hq hlt
      rw [hvalue] at hrest
      exact hrest

end Parser

/-- The value of decimal digits. -/
def decimal (digits : Bytes) : ℕ := digits.foldl (fun n b => n * 10 + (b.toNat - 0x30)) 0

/-- The value of a hexadecimal digit: its place among the digits. -/
def digitValue (b : UInt8) : ℕ :=
  ((ascii "0123456789ABCDEF").idxOf? b).getD ((ascii "0123456789abcdef").idxOf b)

/-- The value of hexadecimal digits. -/
def hexadecimal (digits : Bytes) : ℕ := digits.foldl (fun n b => n * 16 + digitValue b) 0

theorem hexadecimal_eq {digits : Bytes} (h : ∀ b ∈ digits, (hexValue b).isSome = true) :
    hexadecimal digits = digits.foldl (fun n b => n * 16 + (hexValue b).getD 0) 0 := by
  have hone : ∀ b, (hexValue b).isSome = true → digitValue b = (hexValue b).getD 0 :=
    forall_octet (by decide +kernel)
  exact List.foldl_ext _ _ _ fun n b hb => by rw [hone b (h b hb)]

namespace Parser

variable {p q : Parser} {b : UInt8} {env : Env}

theorem digit_valid (b : UInt8) : isDigit b = true →
    isSpace b = false ∧ validFieldValueByte b = true ∧ (b != octet '\r') = true :=
  forall_octet (P := fun b => isDigit b = true →
    isSpace b = false ∧ validFieldValueByte b = true ∧
    (b != octet '\r') = true) (by decide +kernel) b

/-- A digit of a Content-Length. -/
theorem leaves_lengthDigit (env : Env) (hf : q.fieldName.field = .contentLength)
    (ht : q.lengthScan.contentLengthTrailing = false) (hc : q.code = .none)
    (hb : isDigit b = true) :
    Leaves
      (fun q' => q'.code = .headersTooLarge ∨ q'.code = .invalidContentLength ∧
        2 ^ 64 ≤ q.remaining * 10 + (b.toNat - 0x30))
      (fun q' => (q'.fieldName.field = .contentLength ∧
        q'.lengthScan.contentLengthTrailing = false ∧ q'.code = .none) ∧
        q'.remaining = q.remaining * 10 + (b.toNat - 0x30) ∧ q'.remaining < 2 ^ 64)
      (q.stepHeaderValue env b) := by
  obtain ⟨hspace, hvalid, -⟩ := digit_valid b hb
  have hd := digit_le hb
  unfold stepHeaderValue takeHeaderByte
  simp only [accept, hvalid, if_true, bind, Except.bind]
  split_ifs with hfull
  · exact .inl (by simp [Parser.fail, hc])
  · simp only [consumeFieldValue, hf, LengthScan.consumeContentLength, hspace, hb, ht, accept]
    by_cases hbig : q.remaining > (2 ^ 64 - 1 - (b.toNat - 0x30)) / 10
    · simp only [Bool.false_eq_true, if_false, Bool.not_true, Bool.or_self, hbig, if_true]
      refine .inr ⟨by simp [Parser.fail, hc], ?_⟩
      omega
    · simp only [Bool.false_eq_true, if_false, Bool.not_true, Bool.or_self, hbig, if_true]
      refine ⟨⟨hf, rfl, hc⟩, rfl, ?_⟩
      simp only
      omega

/-- The value of a Content-Length is the value of its digits, if that fits in 64 bits. -/
theorem scan_contentLength (digits : Bytes) (hdigits : ∀ b ∈ digits, isDigit b = true)
    (hfield : p.fieldName.field = .contentLength) (hscan : p.lengthScan = {})
    (hzero : p.remaining = 0) (hcode : p.code = .none) :
    Leaves
      (fun q => q.code = .headersTooLarge ∨
        q.code = .invalidContentLength ∧ 2 ^ 64 ≤ decimal digits)
      (fun q => q.remaining = decimal digits ∧ decimal digits < 2 ^ 64)
      (p.scan (fun _ b => b != octet '\r') (stepHeaderValue env) digits).1 := by
  have hall := scan_accumulates (p := p) remaining 10 (fun b => b.toNat - 0x30)
    (· = .headersTooLarge) .invalidContentLength
    (fun q => q.fieldName.field = .contentLength ∧ q.lengthScan.contentLengthTrailing = false ∧
      q.code = .none) (by decide) (fun _ b hb => (digit_valid b hb).2.2)
    (fun _ _ hq hb => leaves_lengthDigit env hq.1 hq.2.1 hq.2.2 hb) digits hdigits
    ⟨hfield, by rw [hscan], hcode⟩ (by rw [hzero]; exact Nat.two_pow_pos 64)
  rw [hzero] at hall
  refine hall.mono fun q hq => ⟨hq.1, ?_⟩
  rw [decimal, ← hq.1]
  exact hq.2

/-- A digit of the size of a chunk. -/
theorem leaves_sizeDigit (hc : q.code = .none) :
    Leaves
      (fun q' => (q'.code = .chunkLineTooLarge ∨ q'.code = .chunkMetadataTooLarge) ∨
        q'.code = .invalidChunkSize ∧ 2 ^ 64 ≤ q.chunkSize * 16 + (hexValue b).getD 0)
      (fun q' => q'.code = .none ∧
        q'.chunkSize = q.chunkSize * 16 + (hexValue b).getD 0 ∧ q'.chunkSize < 2 ^ 64)
      (q.stepChunkSize b) := by
  have hd := hexValue_le b
  unfold stepChunkSize takeChunkLineByte
  simp only [accept, bind, Except.bind, pure, Except.pure]
  split_ifs with hline hmeta
  · exact .inl (.inl (by simp [Parser.fail, hc]))
  · exact .inl (.inr (by simp [Parser.fail, hc]))
  · by_cases hbig : q.chunkSize ≤ (2 ^ 64 - 1 - (hexValue b).getD 0) / 16
    · simp only [hbig, decide_true, if_true]
      refine ⟨hc, rfl, ?_⟩
      simp only
      omega
    · simp only [hbig, decide_false, Bool.false_eq_true, if_false]
      refine .inr ⟨by simp [Parser.fail, hc], ?_⟩
      omega

/-- The size of a chunk is the value of its digits, if that fits in 64 bits. -/
theorem scan_chunkSize (digits : Bytes) (hdigits : ∀ b ∈ digits, (hexValue b).isSome = true)
    (hzero : p.chunkSize = 0) (hcode : p.code = .none) :
    Leaves
      (fun q => (q.code = .chunkLineTooLarge ∨ q.code = .chunkMetadataTooLarge) ∨
        q.code = .invalidChunkSize ∧ 2 ^ 64 ≤ hexadecimal digits)
      (fun q => q.chunkSize = hexadecimal digits ∧ hexadecimal digits < 2 ^ 64)
      (p.scan (fun _ b => (hexValue b).isSome) stepChunkSize digits).1 := by
  have hall := scan_accumulates (p := p) chunkSize 16 (fun b => (hexValue b).getD 0)
    (fun c => c = .chunkLineTooLarge ∨ c = .chunkMetadataTooLarge) .invalidChunkSize
    (fun q => q.code = .none) (by decide) (fun _ _ hb => hb) (fun _ _ hq _ => leaves_sizeDigit hq)
    digits hdigits hcode (by rw [hzero]; exact Nat.two_pow_pos 64)
  rw [hzero, ← hexadecimal_eq hdigits] at hall
  refine hall.mono fun q hq => ⟨hq.1, ?_⟩
  rw [← hq.1]
  exact hq.2

/-! ## Widths -/

/-- Every counter, position and number is in the range of the type it has in the source. -/
structure Fits (p : Parser) : Prop where
  bits8 : p.literalPos < 2 ^ 8 ∧ p.statusDigits < 2 ^ 8 ∧ p.methodScan.methodPos < 2 ^ 8 ∧
    p.transfer.transferTokenPos < 2 ^ 8 ∧ p.connection.connectionTokenPos < 2 ^ 8
  bits16 : p.major < 2 ^ 16 ∧ p.minor < 2 ^ 16 ∧ p.status < 2 ^ 16 ∧ p.headerCount < 2 ^ 16 ∧
    p.fieldName.headerNameBytes < 2 ^ 16 ∧ p.fieldName.fieldPos < 2 ^ 16 ∧
    p.destination.ipLiteral.length < 2 ^ 16
  bits32 : p.startBytes < 2 ^ 32 ∧ p.prefixBytes < 2 ^ 32 ∧ p.headerBytes < 2 ^ 32 ∧
    p.chunkLineBytes < 2 ^ 32 ∧ p.chunkCount < 2 ^ 32 ∧ p.destination.targetBytes < 2 ^ 32
  bits64 : p.chunkMetadataBytes < 2 ^ 64 ∧ p.bodyBytes < 2 ^ 64 ∧ p.remaining < 2 ^ 64 ∧
    p.chunkSize < 2 ^ 64

theorem Bounded.fits (h : p.Bounded) : p.Fits := by
  have hstatus : p.status < 1000 :=
    h.status.trans_le (Nat.pow_le_pow_right (by decide) h.digits)
  have hname : p.fieldName.headerNameBytes < 2 ^ 16 :=
    h.name.trans_lt p.limits.maxHeaderNameBytes.toNat_lt
  have hline : p.startBytes < 2 ^ 32 := h.startLine.trans_lt p.limits.maxStartLineBytes.toNat_lt
  have hliteral : p.destination.ipLiteral.length ≤ 64 := h.literal
  have h1 := h.word
  have h2 := h.digits
  have h3 := h.method
  have h4 := h.transfer
  have h5 := h.connection
  have h6 := h.major
  have h7 := h.minor
  have h8 := h.content
  refine ⟨⟨by omega, by omega, by omega, by omega, by omega⟩,
    ⟨by omega, by omega, by omega, h.headers.trans_lt p.limits.maxHeaders.toNat_lt, hname,
      h.field.trans_lt hname, by omega⟩,
    ⟨hline, h.leading.trans_lt p.limits.maxStartLineBytes.toNat_lt,
      h.header.trans_lt p.limits.maxHeaderBytes.toNat_lt,
      h.chunkLine.trans_lt p.limits.maxChunkLineBytes.toNat_lt,
      h.chunks.trans_lt p.limits.maxChunks.toNat_lt, h.target.trans_lt hline⟩,
    h.metadata.trans_lt p.limits.maxChunkMetadataBytes.toNat_lt,
    h.body.trans_lt p.limits.maxBodyBytes.toNat_lt, by omega, h.chunk⟩

/-! ## Messages -/

/-- One call of `ParseOne`, with the octets taken since the last message was completed. -/
def oneMessage (env : Env) (s : Parser × ℕ) (src : Bytes) : Parser × ℕ :=
  let r := s.1.parseOne env src
  (r.parser, if r.parser.paused then 0 else s.2 + r.n)

theorem within_parseOne {c : ℕ} (src : Bytes) (hocc : p.code = .none → p.Occurs)
    (hw : Within p c) :
    c + (p.parseOne env src).n ≤ messageBound p.limits ∧
      Within (p.parseOne env src).parser
        (if (p.parseOne env src).parser.paused then 0 else c + (p.parseOne env src).n) := by
  by_cases hgo : p.code = .none ∧ p.state ≠ .upgrade
  · have hp : Parser.Reading { p with pauseAfterMessage := true, paused := false } :=
      ⟨occurs_flags (hocc hgo.1), stop_eq_none.mpr ⟨hgo.1, hgo.2, rfl⟩⟩
    have hstart : Within { p with pauseAfterMessage := true, paused := false } c :=
      ⟨{ hw.bounded with }, hw.spent⟩
    obtain ⟨htotal, hwithin⟩ : c + (Parser.loop env
        (2 * src.length) { p with pauseAfterMessage := true, paused := false } src).n ≤
          messageBound p.limits ∧ _ := within_loop (2 * src.length) src hp rfl hstart
    simp only [parseOne, runParse, parseAll]
    rw [if_neg (not_not.mpr hgo.1), if_neg hgo.2]
    exact ⟨htotal, { hwithin.bounded with }, hwithin.spent⟩
  · -- a parser that has failed or switched protocols takes nothing
    have hnone : (p.parseOne env src).n = 0 ∧
        (p.parseOne env src).parser = { p with pauseAfterMessage := false, paused := false } := by
      simp only [parseOne, runParse, parseAll]
      split_ifs with hcode hup
      · exact ⟨rfl, rfl⟩
      · exact ⟨rfl, rfl⟩
      · exact absurd ⟨not_not.mp hcode, hup⟩ hgo
    rw [hnone.1, hnone.2]
    exact ⟨hw.spent.le hw.bounded, { hw.bounded with }, hw.spent⟩

theorem guarded_oneMessage {c : ℕ} (srcs : List Bytes) (hocc : p.code = .none → p.Occurs)
    (hw : Within p c) :
    Runs.Guarded (oneMessage env)
      (fun s src => s.2 + (s.1.parseOne env src).n ≤ messageBound p.limits) (p, c) srcs := by
  induction srcs generalizing p c with
  | nil => trivial
  | cons src srcs ih =>
    obtain ⟨htotal, hwithin⟩ : c + (p.parseOne env src).n ≤ messageBound p.limits ∧ _ :=
      within_parseOne src hocc hw
    refine ⟨htotal, ?_⟩
    have hlimits : (p.parseOne env src).parser.limits = p.limits :=
      (bounded_runParse src true hocc hw.bounded).2
    rw [← hlimits]
    exact ih (occurs_runParse src true hocc) hwithin

end Parser

theorem bounded_newParser (kind : Kind) (limits : Limits) : (newParser kind limits).Bounded ∧
    (newParser kind limits).limits = limits.normalized := by
  have hfresh : ({ limits := limits.normalized, kind } : Parser).Bounded := by
    constructor
    case failure => exact Code.noConfusion
    case chunk | content => exact Nat.two_pow_pos 64
    case status => exact Nat.one_pos
    all_goals exact Nat.zero_le _
  unfold newParser
  simp only
  split
  · exact ⟨hfresh.fail (by decide), Parser.limits_fail⟩
  · exact ⟨hfresh, rfl⟩

end WagoHttp.Http1
