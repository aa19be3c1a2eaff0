import WagoHttp.Http1.Callbacks

/-!
# One pass of the loop

A pass that does not fail goes on within a message, or it completes one. It completes one exactly if
it reports so; then the number of messages grows by one, and a parser that is to pause after a
message is paused. Every pass makes progress: it takes an octet or moves to a state from which the
next pass does, and it leaves something to be done that fits.
-/

namespace WagoHttp.Http1

open List

/-- The call ends a message. -/
def Call.completes : Call → Bool
  | .messageComplete _ => true
  | _ => false

/-- A state in the middle of a message in which a parser is poised whatever it has counted. -/
def State.plain : State → Bool
  | .start | .leadingLF | .upgrade | .reqHTTP | .resHTTP | .resStatus | .fixedBody | .chunkBody =>
    false
  | _ => true

namespace Parser

variable {p q : Parser} {code : Code} {b : UInt8} {src : Bytes} {env : Env}

/-! ## The states that occur -/

/-- Something is left to be done, and it fits. -/
def Poised (p : Parser) : Prop :=
  match p.state with
  | .reqHTTP | .resHTTP => p.literalPos < 5
  | .resStatus => p.statusDigits < 3
  | .fixedBody | .chunkBody => p.bodyBytes + p.remaining ≤ p.limits.maxBodyBytes.toNat
  | _ => True

/-- States that a pass can leave without taking an octet have the rank one. -/
def rank (p : Parser) : ℕ :=
  match p.state with
  | .start | .headerStart | .headerValueStart | .chunkSizeStart => 1
  | _ => 0

theorem poised_of_plain (h : q.state.plain = true) : q.Poised := by
  unfold Poised
  split <;> first | trivial | simp_all [State.plain]

/-! ## Within a token -/

/-- `q` comes from `p` within the same token. -/
structure Stays (p q : Parser) : Prop where
  state : q.state = p.state
  code : q.code = p.code
  paused : q.paused = p.paused
  pause : q.pauseAfterMessage = p.pauseAfterMessage
  messageNum : q.messageNum = p.messageNum
  exchangeNum : q.exchangeNum = p.exchangeNum

/-- What is kept within a message. -/
def marks (p : Parser) : Bool × Bool × ℕ × ℕ :=
  (p.paused, p.pauseAfterMessage, p.messageNum, p.exchangeNum)

theorem Stays.of_eq (h : (q.state, q.code, q.marks) = (p.state, p.code, p.marks)) : p.Stays q := by
  simp only [Parser.marks, Prod.mk.injEq] at h
  exact ⟨h.1, h.2.1, h.2.2.1, h.2.2.2.1, h.2.2.2.2.1, h.2.2.2.2.2⟩

theorem Stays.refl (p : Parser) : p.Stays p := .of_eq rfl

theorem Stays.marks (h : p.Stays q) : q.marks = p.marks := by
  simp only [Parser.marks, h.paused, h.pause, h.messageNum, h.exchangeNum]

theorem Stays.trans {r : Parser} (h : p.Stays q) (h' : q.Stays r) : p.Stays r :=
  ⟨h'.state.trans h.state, h'.code.trans h.code, h'.paused.trans h.paused,
    h'.pause.trans h.pause, h'.messageNum.trans h.messageNum, h'.exchangeNum.trans h.exchangeNum⟩

theorem stays_takeHeaderByte : Yields p.takeHeaderByte p.Stays := by
  refine yields_takeHeaderByte.mono ?_
  rintro _ rfl
  exact .of_eq rfl

theorem stays_consumeFieldValue : Yields (p.consumeFieldValue env b) p.Stays := by
  unfold consumeFieldValue
  split
  case h_6 | h_7 => exact .of_eq rfl
  all_goals
    refine (yields_accept (by decide)).mono ?_
    rintro _ ⟨rfl, -⟩
    exact .of_eq rfl

theorem stays_stepHeaderValue : Yields (p.stepHeaderValue env b) p.Stays := by
  refine (yields_accept (by decide)).bind ?_
  rintro _ ⟨rfl, -⟩
  refine stays_takeHeaderByte.bind fun q hq => ?_
  exact stays_consumeFieldValue.mono fun q' hq' => hq.trans hq'

theorem stays_takeStartByte : Yields p.takeStartByte p.Stays := by
  refine yields_takeStartByte.mono ?_
  rintro _ rfl
  exact .of_eq rfl

theorem stays_takeChunkLineByte : Yields p.takeChunkLineByte p.Stays := by
  refine yields_takeChunkLineByte.mono ?_
  rintro _ rfl
  exact .of_eq rfl

theorem stays_stepMethod : Yields (p.stepMethod b) p.Stays := by
  refine (yields_stepMethod p b ⟨_, _, rfl⟩).mono ?_
  rintro _ ⟨⟨_, _, rfl⟩, -⟩
  exact .of_eq rfl

theorem stays_stepTarget : Yields (p.stepTarget env b) p.Stays := by
  refine (yields_stepTarget p b ⟨_, _, rfl⟩).mono ?_
  rintro _ ⟨⟨_, _, rfl⟩, -⟩
  exact .of_eq rfl

theorem stays_stepLiteral : Yields (p.stepLiteral b) p.Stays := by
  refine (yields_stepLiteral p b ⟨_, _, rfl⟩).mono ?_
  rintro _ ⟨⟨_, _, rfl⟩, -⟩
  exact .of_eq rfl

theorem stays_stepStatus : Yields (p.stepStatus b) p.Stays := by
  refine (yields_stepStatus p b ⟨_, _, _, rfl⟩).mono ?_
  rintro _ ⟨⟨_, _, _, rfl⟩, -⟩
  exact .of_eq rfl

theorem stays_stepReason : Yields (p.stepReason b) p.Stays := by
  refine (yields_stepReason p b ⟨_, rfl⟩).mono ?_
  rintro _ ⟨⟨_, rfl⟩, -⟩
  exact .of_eq rfl

theorem stays_stepHeaderName : Yields (p.stepHeaderName b) p.Stays := by
  refine (yields_stepHeaderName p b ⟨_, _, rfl⟩).mono ?_
  rintro _ ⟨⟨_, _, rfl⟩, -⟩
  exact .of_eq rfl

theorem stays_stepChunkSize : Yields (p.stepChunkSize b) p.Stays := by
  refine (inLine_stepChunkSize p b (inLine_refl p)).mono ?_
  rintro _ ⟨⟨_, _, _, _, _, rfl⟩, -⟩
  exact .of_eq rfl

theorem stays_stepChunkExt : Yields (p.stepChunkExt b) p.Stays := by
  refine (inLine_stepChunkExt p b (inLine_refl p)).mono ?_
  rintro _ ⟨⟨_, _, _, _, _, rfl⟩, -⟩
  exact .of_eq rfl

/-! ## The states that scan -/

theorem pass_reqMethod (hs : p.state = .reqMethod) :
    p.pass env b src = p.scanning (b :: src) (fun _ b => isTChar b) stepMethod
      (fun s => [.method s]) finishReqMethod := by
  simp only [pass, hs]

theorem pass_reqTarget (hs : p.state = .reqTarget) :
    p.pass env b src = p.scanning (b :: src) (fun _ b => validTargetByte b) (stepTarget env)
      (fun s => [.target s]) finishReqTarget := by
  simp only [pass, hs]

theorem pass_literal (hs : p.state = .reqHTTP ∨ p.state = .resHTTP) :
    p.pass env b src = p.scanning (b :: src) (fun p _ => p.literalPos < 5) stepLiteral
      (fun _ => []) fun p _ => p.finishLiteral := by
  rcases hs with hs | hs <;> simp only [pass, hs]

theorem pass_resStatus (hs : p.state = .resStatus) :
    p.pass env b src = p.scanning (b :: src) (fun p _ => p.statusDigits < 3) stepStatus
      (fun _ => []) fun p _ => p.finishStatus := by
  simp only [pass, hs]

theorem pass_resReason (hs : p.state = .resReason) :
    p.pass env b src = p.scanning (b :: src) (fun _ b => b != octet '\r') stepReason
      (fun s => [.reason s]) finishReason := by
  simp only [pass, hs]

theorem pass_headerName (hs : p.state = .headerName) :
    p.pass env b src = p.scanning (b :: src) (fun _ b => isTChar b) stepHeaderName
      (fun s => [.headerName s]) finishHeaderName := by
  simp only [pass, hs]

theorem pass_headerValueStart (hs : p.state = .headerValueStart) :
    p.pass env b src = p.scanning (b :: src) (fun _ b => isSpace b) (fun p _ => p.takeHeaderByte)
      (fun _ => []) finishValueStart := by
  simp only [pass, hs]

theorem pass_headerValue (hs : p.state = .headerValue) :
    p.pass env b src = p.scanning (b :: src) (fun _ b => b != octet '\r') (stepHeaderValue env)
      (fun s => [.headerValue s]) finishHeaderValue := by
  simp only [pass, hs]

theorem pass_chunkSize (hs : p.state = .chunkSize) :
    p.pass env b src = p.scanning (b :: src) (fun _ b => (hexValue b).isSome) stepChunkSize
      (fun _ => []) finishChunkSize := by
  simp only [pass, hs]

theorem pass_chunkExt (hs : p.state = .chunkExt) :
    p.pass env b src = p.scanning (b :: src) (fun _ b => b != octet '\r') stepChunkExt
      (fun _ => []) finishChunkExt := by
  simp only [pass, hs]

/-! ## Messages that are completed -/

/-- The parser is between two messages. -/
def Between (p : Parser) : Prop := p.state = .start ∨ p.state = .leadingLF

/-- The pass has not completed a message. -/
structure Continues (p : Parser) (w : Pass) : Prop where
  paused : w.parser.paused = p.paused
  pause : w.parser.pauseAfterMessage = p.pauseAfterMessage
  messageNum : w.parser.messageNum = p.messageNum
  exchangeNum : w.parser.exchangeNum = p.exchangeNum
  calls : ∀ c ∈ w.calls, c.completes = false
  state : w.parser.state ≠ .upgrade
  between : w.parser.Between → p.Between

/-- The pass has completed a message. -/
structure Completes (p : Parser) (w : Pass) : Prop where
  paused : w.parser.paused = p.pauseAfterMessage
  pause : w.parser.pauseAfterMessage = p.pauseAfterMessage
  messageNum : w.parser.messageNum = p.messageNum + 1
  exchangeNum : w.parser.exchangeNum ≤ p.exchangeNum + 1
  calls : ∃ before m, w.calls = before ++ [.messageComplete m] ∧ ∀ c ∈ before, c.completes = false
  state : w.parser.state = .start ∨ w.parser.state = .upgrade
  active : w.parser.messageActive = false

/-- A pass that does not fail goes on or completes a message. -/
def Goes (p : Parser) (w : Pass) : Prop :=
  w.parser.code = .none → Continues p w ∨ Completes p w

/-- What a pass has to bring about: the parser is poised, and took an octet or lost its rank. -/
def Advanced (r : ℕ) (n : ℕ) (q : Parser) : Prop := q.Poised ∧ (n = 0 → q.rank < r)

/-- The parser is in a state that occurs. -/
structure Stands (p : Parser) : Prop where
  placed : ∃ s, p.Placed s
  poised : p.Poised

/-- The pass, after `k` octets, goes on or completes a message, and makes progress. -/
structure Moves (p : Parser) (k : ℕ) (w : Pass) : Prop where
  goes : Goes p w
  lands : p.Stands → w.parser.code = .none → Advanced p.rank (k + w.n) w.parser

section Rules

variable {k : ℕ} {P : Parser → Prop} {r : Except Parser Parser} {w : Pass}

theorem moves_halt (hc : code ≠ .none) : Moves p k (q.halt code) :=
  ⟨fun h => absurd h (code_fail hc), fun _ h => absurd h (code_fail hc)⟩

theorem Continues.of_marks (hsame : w.parser.marks = p.marks)
    (hcalls : ∀ c ∈ w.calls, c.completes = false) (hs : w.parser.state ≠ .upgrade)
    (hb : w.parser.Between → p.Between) : Continues p w := by
  simp only [marks, Prod.mk.injEq] at hsame
  exact ⟨hsame.1, hsame.2.1, hsame.2.2.1, hsame.2.2.2, hcalls, hs, hb⟩

/-- A pass that stays in the message, in the state `state`. -/
theorem moves_to (state : State) (h : p.Stays q) (hw : w.parser.state = state)
    (hsame : w.parser.marks = q.marks)
    (hs : state ≠ .start ∧ state ≠ .leadingLF ∧ state ≠ .upgrade)
    (hcalls : ∀ c ∈ w.calls, c.completes = false)
    (hl : p.Stands → Advanced p.rank (k + w.n) w.parser) : Moves p k w := by
  subst hw
  refine ⟨fun _ => .inl (.of_marks (hsame.trans h.marks) hcalls hs.2.2 fun hb => ?_),
    fun hp _ => hl hp⟩
  obtain hb | hb := hb
  · exact absurd hb hs.1
  · exact absurd hb hs.2.1

/-- After an octet it is enough to be poised. -/
theorem advanced_taken (hn : k ≠ 0) (h : q.Poised) (n : ℕ) : Advanced p.rank (k + n) q :=
  ⟨h, fun h0 => absurd h0 (by omega)⟩

/-- A pass that has taken an octet and moves to a state in which a parser is poised whatever it has
counted. -/
theorem moves_plain (state : State) (h : p.Stays q) (hw : w.parser.state = state)
    (hsame : w.parser.marks = q.marks) (hs : state.plain = true)
    (hcalls : ∀ c ∈ w.calls, c.completes = false) (hn : k ≠ 0) : Moves p k w := by
  refine moves_to state h hw hsame ?_ hcalls fun _ => advanced_taken hn ?_ _
  · refine ⟨?_, ?_, ?_⟩
    all_goals
      rintro rfl
      cases hs
  · exact poised_of_plain (hw ▸ hs)

/-- A pass that makes no callback. -/
theorem moves_move {r : Parser} (state : State) (h : p.Stays q) (hr : r.state = state)
    (hsame : r.marks = q.marks) (hs : state.plain = true) (hn : k ≠ 0) :
    Moves p k { parser := r } :=
  moves_plain state h hr hsame hs (forall_mem_nil _) hn

/-- A pass that leaves everything as it is. -/
theorem moves_silent (h : p.Stays q) (hs : p.state ≠ .upgrade)
    (hl : p.Stands → Advanced p.rank k q) : Moves p k { parser := q } := by
  refine ⟨fun _ => .inl (.of_marks h.marks (forall_mem_nil _) (h.state ▸ hs) fun hb => ?_),
    fun hp _ => hl hp⟩
  unfold Between at hb ⊢
  rwa [← h.state]

theorem exchangeNum_completeMessage (h : p.Stays q) :
    q.completeMessage.parser.exchangeNum ≤ p.exchangeNum + 1 := by
  rw [← h.exchangeNum]
  simp only [completeMessage]
  split <;> omega

theorem moves_completeMessage (h : p.Stays q) (hn : p.Stands → k ≠ 0) :
    Moves p k q.completeMessage :=
  ⟨fun _ => .inr ⟨h.pause, h.pause, congrArg (· + 1) h.messageNum, exchangeNum_completeMessage h,
    ⟨[], _, rfl, forall_mem_nil _⟩, .inl rfl, rfl⟩,
    fun hp _ => advanced_taken (hn hp) (by trivial) _⟩

theorem Moves.after {n : ℕ} {calls : List Call} (hcalls : ∀ c ∈ calls, c.completes = false)
    (h : Moves p (k + n) w) : Moves p k (w.after n calls) := by
  refine ⟨fun hcode => ?_, fun hp hcode => ?_⟩
  · obtain hc | hc := h.goes hcode
    · refine .inl ⟨hc.paused, hc.pause, hc.messageNum, hc.exchangeNum, ?_, hc.state, hc.between⟩
      exact forall_mem_append.2 ⟨hcalls, hc.calls⟩
    · obtain ⟨before, m, heq, hbefore⟩ := hc.calls
      refine .inr ⟨hc.paused, hc.pause, hc.messageNum, hc.exchangeNum,
        ⟨calls ++ before, m, ?_, forall_mem_append.2 ⟨hcalls, hbefore⟩⟩, hc.state, hc.active⟩
      simp only [Pass.after, heq, append_assoc]
  · have hl := h.lands hp hcode
    rwa [Nat.add_assoc] at hl

variable {next : Parser → Pass} {fits : Bool} {take : Parser → Except Parser Parser}
  {more : Parser → UInt8 → Bool} {step : Parser → UInt8 → Except Parser Parser}
  {report : Bytes → List Call} {finish : Parser → Option UInt8 → Pass}

theorem moves_attempt (h : Yields r P) (hn : ∀ q, P q → Moves p k (next q)) :
    Moves p k (attempt r next) := by
  cases r with
  | error q => exact ⟨fun hq => absurd hq h, fun _ hq => absurd hq h⟩
  | ok q => exact hn q h

theorem moves_expect (hc : fits = false → code ≠ .none) (h : Yields (take q) P)
    (hn : ∀ q, P q → Moves p (k + 1) (next q)) : Moves p k (q.expect fits code take next) := by
  unfold expect
  split
  · exact moves_attempt h fun q hq => (hn q hq).after (forall_mem_nil _)
  · exact moves_halt (hc (Bool.eq_false_iff.mpr ‹_›))

/-- An octet that ends a part of the message. -/
theorem moves_next (state : State) (hc : fits = false → code ≠ .none) (h : p.Stays q)
    (ht : Yields (take q) q.Stays) (hs : state.plain = true) :
    Moves p k (q.expect fits code take (goto state)) :=
  moves_expect hc ht fun _ hq => moves_move state (h.trans hq) rfl rfl hs (Nat.succ_ne_zero _)

/-- The octet that ends a scan is one that does not fit. -/
theorem moves_scanning {I : Parser → Prop}
    (hstep : ∀ q b, I q → more q b = true → Yields (step q b) I) (h : I p)
    (hreport : ∀ s, ∀ c ∈ report s, c.completes = false)
    (h0 : more p b = false → Moves p 0 (finish p (some b)))
    (hn : ∀ q n o, I q → n ≠ 0 → Moves p n (finish q o)) :
    Moves p 0 (p.scanning (b :: src) more step report finish) := by
  have hscan : Yields (p.scan more step (b :: src)).1 _ :=
    yields_scan (J := fun _ => True)
      (fun q b hq hm => (hstep q b hq hm).mono fun _ hq' => ⟨hq', trivial⟩) (b :: src) h
  have hzero : (p.scan more step (b :: src)).2 = 0 →
      more p b = false ∨ ∃ q, (p.scan more step (b :: src)).1 = .error q := by
    unfold scan
    split
    · cases hs : step p b with
      | error q => exact fun _ => .inr ⟨q, rfl⟩
      | ok q => exact fun h0 => absurd h0 (Nat.succ_ne_zero _)
    · exact fun _ => .inl (Bool.eq_false_iff.mpr ‹_›)
  unfold scanning
  generalize p.scan more step (b :: src) = w at hscan hzero
  obtain ⟨_ | q, n⟩ := w
  · exact ⟨fun hq => absurd hq hscan, fun _ hq => absurd hq hscan⟩
  · obtain ⟨hI, ⟨h', rfl⟩ | ⟨hne, -⟩⟩ := hscan
    · simp only at h'
      subst h'
      obtain hm | ⟨q', hq'⟩ := hzero rfl
      · exact (h0 hm).after (forall_mem_nil _)
      · cases hq'
    · simp only [if_neg hne]
      refine Moves.after (hreport _) ?_
      rw [Nat.zero_add]
      exact hn q n _ hI hne

/-- A pass over octets up to a delimiter. -/
theorem moves_delimited {state : State} (hs : p.state = state) (hplain : state.plain = true)
    (hstep : ∀ q b, Yields (step q b) q.Stays) (hreport : ∀ s, ∀ c ∈ report s, c.completes = false)
    (hnone : ∀ q, finish q none = { parser := q })
    (hsome : ∀ q c k, p.Stays q → Moves p k (finish q (some c))) :
    Moves p 0 (p.scanning (b :: src) more step report finish) := by
  subst hs
  refine moves_scanning (I := p.Stays) (fun q b hq _ => (hstep q b).mono fun _ h => hq.trans h)
    (Stays.refl p) hreport (fun _ => hsome p b 0 (Stays.refl p)) ?_
  intro q n o hq hn
  cases o with
  | none =>
    rw [hnone]
    refine moves_silent hq (fun hup => ?_) fun _ =>
      advanced_taken hn (poised_of_plain (hq.state ▸ hplain)) 0
    rw [hup] at hplain
    cases hplain
  | some c => exact hsome q c n hq

end Rules

/-! ## Passes -/

theorem moves_start (hs : p.state = .start) : Moves p 0 (p.pass env b src) := by
  simp only [pass, hs, passStart]
  split
  · refine moves_expect Bool.noConfusion yields_takePrefixByte ?_
    rintro _ rfl
    exact ⟨fun _ => .inl (.of_marks rfl (forall_mem_nil _) State.noConfusion fun _ => .inl hs),
      fun _ _ => advanced_taken one_ne_zero (by trivial) 0⟩
  · have hcalls : ∀ c ∈ (p.beginMessage env).calls, c.completes = false := by
      unfold beginMessage askContext
      split <;> simp [Call.completes]
    have hkeeps : (p.beginMessage env).parser.marks = p.marks := by
      unfold beginMessage askContext
      split <;> rfl
    have hr : p.rank = 1 := by simp [rank, hs]
    have hpos : (p.beginMessage env).parser.literalPos = 0 := rfl
    refine ⟨fun _ => .inl (.of_marks hkeeps hcalls ?_ fun _ => .inl hs), fun _ _ => ?_⟩
    · simp only
      split <;> exact State.noConfusion
    · by_cases hk : (p.beginMessage env).parser.kind = .request
      all_goals
        rw [hr]
        simp [hk, Advanced, Poised, rank, hpos]

theorem moves_leadingLF (hs : p.state = .leadingLF) : Moves p 0 (p.pass env b src) := by
  simp only [pass, hs]
  refine moves_expect (fun _ => by decide) yields_takePrefixByte ?_
  rintro _ rfl
  exact ⟨fun _ => .inl (.of_marks rfl (forall_mem_nil _) State.noConfusion fun _ => .inr hs),
    fun _ _ => advanced_taken one_ne_zero (by trivial) 0⟩

theorem moves_reqMethod (hs : p.state = .reqMethod) : Moves p 0 (p.pass env b src) := by
  rw [pass_reqMethod hs]
  refine moves_delimited hs rfl (fun _ _ => stays_stepMethod) (by simp [Call.completes])
    (fun _ => rfl) fun q c k h => ?_
  simp only [finishReqMethod]
  split_ifs
  · exact moves_halt (by decide)
  · exact moves_halt (by decide)
  · have h' : p.Stays { q with method := q.methodScan.finishMethod } :=
      ⟨h.state, h.code, h.paused, h.pause, h.messageNum, h.exchangeNum⟩
    exact moves_next .reqTarget Bool.noConfusion h' stays_takeStartByte rfl

theorem moves_reqTarget (hs : p.state = .reqTarget) : Moves p 0 (p.pass env b src) := by
  rw [pass_reqTarget hs]
  refine moves_delimited hs rfl (fun _ _ => stays_stepTarget) (by simp [Call.completes])
    (fun _ => rfl) fun q c k h => ?_
  refine moves_expect (fun _ => by decide) stays_takeStartByte fun q' hq' => ?_
  exact moves_to .reqHTTP (h.trans hq') rfl rfl (by decide) (forall_mem_nil _)
    fun _ => advanced_taken (Nat.succ_ne_zero _) (by simp [Poised]) _

/-- A pass over a fixed number of octets, which the parser counts. -/
theorem moves_numbered {count : Parser → ℕ} {max : ℕ} {done next : Parser → Pass}
    (hup : p.state ≠ .upgrade) (hpoised : ∀ q : Parser, p.Stays q → (q.Poised ↔ count q < max))
    (hstep : ∀ q b, p.Stays q → count q < max →
      Yields (step q b) fun q' => p.Stays q' ∧ count q' ≤ max)
    (hdone : ∀ q, done q = if count q = max then next q else { parser := q })
    (hnext : ∀ q n, p.Stays q → (p.Stands → n ≠ 0) → Moves p n (next q)) :
    Moves p 0 (p.scanning (b :: src) (fun p _ => count p < max) step (fun _ => [])
      fun p _ => done p) := by
  have hfinish : ∀ (q : Parser) n, p.Stays q → (p.Stands → count q ≤ max ∧ n ≠ 0) →
      Moves p n (done q) := by
    intro q n hq hn
    rw [hdone]
    split
    · exact hnext q n hq fun hp => (hn hp).2
    · next hne =>
      refine moves_silent hq hup fun hp => advanced_taken (hn hp).2 ((hpoised q hq).2 ?_) 0
      exact lt_of_le_of_ne (hn hp).1 hne
  have hlt (hp : p.Stands) : count p < max := (hpoised p (.refl p)).1 hp.poised
  refine moves_scanning (I := fun q => p.Stays q ∧ (p.Stands → count q ≤ max)) ?_
    ⟨.refl p, fun hp => (hlt hp).le⟩ (fun _ => forall_mem_nil _)
    (fun hm => hfinish p 0 (.refl p) fun hp => absurd (hlt hp) (of_decide_eq_false hm))
    fun q n _ hq hn => hfinish q n hq.1 fun hp => ⟨hq.2 hp, hn⟩
  rintro q b ⟨hq, -⟩ hm
  exact (hstep q b hq (of_decide_eq_true hm)).mono fun _ h => ⟨h.1, fun _ => h.2⟩

theorem moves_literal (hs : p.state = .reqHTTP ∨ p.state = .resHTTP) :
    Moves p 0 (p.pass env b src) := by
  rw [pass_literal hs]
  refine moves_numbered (by rcases hs with hs | hs <;> simp [hs]) (fun q hq => ?_)
    (fun q b hq hk => ?_) (fun _ => rfl) fun q n hq hn => ?_
  · rcases hs with hs | hs <;> simp only [Poised, hq.state.trans hs]
  · refine (yields_accept (by decide)).bind ?_
    rintro _ ⟨rfl, -⟩
    refine yields_takeStartByte.bind ?_
    rintro _ rfl
    exact ⟨hq.trans (.of_eq rfl), hk⟩
  · exact moves_to .versionMajor hq rfl rfl (by decide) (forall_mem_nil _)
      fun hp => advanced_taken (hn hp) (by trivial) _

theorem moves_resStatus (hs : p.state = .resStatus) : Moves p 0 (p.pass env b src) := by
  rw [pass_resStatus hs]
  refine moves_numbered (by simp [hs]) (fun q hq => ?_) (fun q b hq hk => ?_) (fun _ => rfl)
    fun q n hq hn => ?_
  · simp only [Poised, hq.state.trans hs]
  · refine (yields_accept (by decide)).bind ?_
    rintro _ ⟨rfl, -⟩
    refine yields_takeStartByte.bind ?_
    rintro _ rfl
    exact ⟨hq.trans (.of_eq rfl), hk⟩
  · split
    · exact moves_halt (by decide)
    · exact moves_to .resReasonStart hq rfl rfl (by decide) (forall_mem_nil _)
        fun hp => advanced_taken (hn hp) (by trivial) _

theorem moves_resReason (hs : p.state = .resReason) : Moves p 0 (p.pass env b src) := by
  rw [pass_resReason hs]
  refine moves_delimited hs rfl (fun _ _ => stays_stepReason) (by simp [Call.completes])
    (fun _ => rfl) fun q c k h => ?_
  exact moves_next .resLineLF Bool.noConfusion h stays_takeStartByte rfl

theorem moves_headerStart (hs : p.state = .headerStart) : Moves p 0 (p.pass env b src) := by
  simp only [pass, hs, passHeaderStart]
  split_ifs
  · exact moves_next .headersLF Bool.noConfusion (.refl p) stays_takeHeaderByte rfl
  · exact moves_halt (by decide)
  · refine moves_attempt yields_beginHeader ?_
    rintro _ rfl
    exact moves_to .headerName (Stays.refl p) rfl rfl (by decide) (forall_mem_nil _)
      fun _ => ⟨trivial, fun _ => by simp [rank, hs, goto]⟩

theorem stays_beginValue : Yields p.beginValue p.Stays := by
  unfold beginValue
  split
  case h_1 | h_2 | h_4 =>
    split_ifs
    all_goals first | exact code_fail (by decide) | exact .of_eq rfl
  all_goals exact .of_eq rfl

theorem stays_finishFieldName : Yields p.finishFieldName p.Stays := by
  unfold finishFieldName
  simp only
  split_ifs
  · exact code_fail (by decide)
  · exact stays_beginValue.mono fun q hq =>
      ⟨hq.state, hq.code, hq.paused, hq.pause, hq.messageNum, hq.exchangeNum⟩

theorem stays_finishFieldValue : Yields p.finishFieldValue p.Stays := by
  unfold finishFieldValue
  split
  case h_4 =>
    unfold accept
    split_ifs with hf
    · exact Stays.refl p
    · exact code_fail fun h => hf (by simp [h])
  case h_6 | h_7 => exact Stays.refl p
  all_goals
    refine (yields_accept (by decide)).mono ?_
    rintro _ ⟨rfl, -⟩
    exact .of_eq rfl

theorem moves_headerName (hs : p.state = .headerName) : Moves p 0 (p.pass env b src) := by
  rw [pass_headerName hs]
  refine moves_delimited hs rfl (fun _ _ => stays_stepHeaderName) (by simp [Call.completes])
    (fun _ => rfl) fun q c k h => ?_
  refine moves_expect (fun _ => by decide) stays_takeHeaderByte fun q' hq' => ?_
  refine moves_attempt stays_finishFieldName fun q'' hq'' => ?_
  exact moves_move .headerValueStart ((h.trans hq').trans hq'') rfl rfl rfl (Nat.succ_ne_zero _)

theorem moves_headerValueStart (hs : p.state = .headerValueStart) :
    Moves p 0 (p.pass env b src) := by
  rw [pass_headerValueStart hs]
  refine moves_delimited hs rfl (fun _ _ => stays_takeHeaderByte) (fun _ => forall_mem_nil _)
    (fun _ => rfl) fun q c k h => ?_
  exact moves_to .headerValue h rfl rfl (by decide) (forall_mem_nil _)
    fun _ => ⟨trivial, fun _ => by simp [rank, hs, finishValueStart, goto]⟩

theorem moves_headerValue (hs : p.state = .headerValue) : Moves p 0 (p.pass env b src) := by
  rw [pass_headerValue hs]
  refine moves_delimited hs rfl (fun _ _ => stays_stepHeaderValue) (by simp [Call.completes])
    (fun _ => rfl) fun q c k h => ?_
  refine moves_attempt stays_finishFieldValue fun q' hq' => ?_
  exact moves_next .headerValueLF Bool.noConfusion (h.trans hq') stays_takeHeaderByte rfl

/-- What follows a header section. No octets of the body have been taken. -/
theorem moves_beginContent (h : p.Stays q) {k : ℕ} (hk : k ≠ 0)
    (hb : p.Stands → q.trailers = false → q.bodyBytes = 0) (ht : q.trailers = false) :
    Moves p k q.beginContent := by
  unfold beginContent
  simp only
  split_ifs with _ _ _ _ _ hfit
  · exact ⟨fun _ => .inr ⟨h.pause, h.pause, congrArg (· + 1) h.messageNum,
      exchangeNum_completeMessage h, ⟨[], _, rfl, forall_mem_nil _⟩, .inr rfl, rfl⟩,
      fun _ _ => advanced_taken hk (by trivial) _⟩
  · exact moves_completeMessage h fun _ => hk
  · exact moves_move .chunkSizeStart h rfl rfl rfl hk
  · exact moves_move .closeBody h rfl rfl rfl hk
  · exact moves_halt (by decide)
  · exact moves_completeMessage h fun _ => hk
  · refine moves_to .fixedBody h rfl rfl (by decide) (forall_mem_nil _) fun hp =>
      advanced_taken hk ?_ _
    simpa only [Poised, hb hp ht, Nat.zero_add] using not_lt.mp hfit
  · exact moves_completeMessage h fun _ => hk
  · exact moves_move .closeBody h rfl rfl rfl hk

theorem moves_headersLF (hs : p.state = .headersLF) : Moves p 0 (p.pass env b src) := by
  have hbody : p.Stands → p.trailers = false → p.bodyBytes = 0 := by
    rintro ⟨⟨s, hp⟩, -⟩ ht
    simp only [Placed, hs] at hp
    obtain ⟨m, hm, -⟩ := hp
    rw [InHeader, if_neg (by simp [ht])] at hm
    exact hm.2.1
  simp only [pass, hs]
  refine moves_expect (fun _ => by decide) yields_takeHeaderByte ?_
  rintro _ rfl
  simp only [endHeaders, headersComplete]
  split_ifs with ht
  · refine Moves.after (by simp [Call.completes]) (moves_completeMessage (.of_eq rfl) ?_)
    exact fun _ => Nat.succ_ne_zero _
  all_goals first
    | exact moves_halt (by decide)
    | refine Moves.after (by simp [Call.completes]) ?_
      refine moves_beginContent ?_ (by decide) ?_ (Bool.eq_false_iff.mpr ht)
      · exact .of_eq rfl
      · exact hbody

theorem bodyCall_open (span : Bytes) : ∀ c ∈ bodyCall span, c.completes = false := by
  unfold bodyCall
  split <;> simp [Call.completes]

/-- What is left of a body that is counted still fits. -/
theorem moves_counted (hs : p.state = .fixedBody ∨ p.state = .chunkBody) {next : Parser → Pass}
    {n : ℕ} (hn : n = min (b :: src).length p.remaining)
    (hnext : ∀ q, p.Stays q → (p.Stands → n ≠ 0) → Moves p (0 + n) (next q)) :
    Moves p 0 (attempt (p.addBody n) fun q =>
      (if q.remaining - n = 0 then next { q with remaining := q.remaining - n }
        else { parser := { q with remaining := q.remaining - n } }).after n
          (bodyCall ((b :: src).take n))) := by
  have hpos : p.Stands → n ≠ 0 := by
    rintro ⟨⟨s, hp⟩, -⟩
    have hrem : 0 < p.remaining := by
      rcases hs with hs | hs
      all_goals
        simp only [Placed, hs] at hp
        obtain ⟨-, -, -, hrem, -⟩ := hp
        exact hrem
    simp only [length_cons] at hn
    omega
  refine moves_attempt yields_addBody ?_
  rintro _ rfl
  refine Moves.after (bodyCall_open _) ?_
  split_ifs
  · exact hnext _ (.of_eq rfl) hpos
  · refine moves_silent (.of_eq rfl) (by rcases hs with hs | hs <;> simp [hs]) fun hp => ?_
    refine advanced_taken (k := 0 + n) (by rw [Nat.zero_add]; exact hpos hp) ?_ 0
    have hfit := hp.poised
    rcases hs with hs | hs
    all_goals
      simp only [Poised, hs] at hfit ⊢
      omega

theorem moves_fixedBody (hs : p.state = .fixedBody) : Moves p 0 (p.pass env b src) := by
  simp only [pass, hs]
  exact moves_counted (.inl hs) rfl fun q hq hn =>
    moves_completeMessage hq fun hp => by rw [Nat.zero_add]; exact hn hp

theorem moves_chunkBody (hs : p.state = .chunkBody) : Moves p 0 (p.pass env b src) := by
  simp only [pass, hs]
  exact moves_counted (.inr hs) rfl fun q hq hn => moves_to .chunkBodyCR hq rfl rfl (by decide)
    (forall_mem_nil _) fun hp =>
      advanced_taken (by rw [Nat.zero_add]; exact hn hp) (by trivial) _

theorem moves_closeBody (hs : p.state = .closeBody) : Moves p 0 (p.pass env b src) := by
  simp only [pass, hs, passCloseBody]
  refine Moves.after (bodyCall_open _) ?_
  split_ifs with hall
  · exact moves_halt (by decide)
  · refine moves_silent ⟨hs.symm, rfl, rfl, rfl, rfl, rfl⟩ (by simp [hs]) fun _ =>
      advanced_taken ?_ (by simp only [Poised]) 0
    rw [not_not.mp hall]
    simp

theorem moves_chunkSize (hs : p.state = .chunkSize) : Moves p 0 (p.pass env b src) := by
  rw [pass_chunkSize hs]
  refine moves_delimited hs rfl (fun _ _ => stays_stepChunkSize) (fun _ => forall_mem_nil _)
    (fun _ => rfl) fun q c k h => ?_
  simp only [finishChunkSize]
  split_ifs
  · exact moves_halt (by decide)
  · refine moves_expect Bool.noConfusion stays_takeChunkLineByte fun q' hq' => ?_
    exact moves_move .chunkExt (h.trans hq') rfl rfl rfl (Nat.succ_ne_zero _)
  · exact moves_next .chunkSizeLF (fun _ => by decide) h stays_takeChunkLineByte rfl

theorem moves_chunkExt (hs : p.state = .chunkExt) : Moves p 0 (p.pass env b src) := by
  rw [pass_chunkExt hs]
  refine moves_delimited hs rfl (fun _ _ => stays_stepChunkExt) (fun _ => forall_mem_nil _)
    (fun _ => rfl) fun q c k h => ?_
  simp only [finishChunkExt]
  split_ifs
  · exact moves_halt (by decide)
  · exact moves_next .chunkSizeLF Bool.noConfusion h stays_takeChunkLineByte rfl

theorem moves_chunkSizeLF (hs : p.state = .chunkSizeLF) : Moves p 0 (p.pass env b src) := by
  simp only [pass, hs]
  refine moves_expect (fun _ => by decide) stays_takeChunkLineByte fun q hq => ?_
  unfold endChunkLine
  split_ifs
  · exact moves_halt (by decide)
  · exact moves_plain .headerStart hq rfl rfl rfl (by simp [Call.completes]) (Nat.succ_ne_zero _)
  · exact moves_halt (by decide)
  · refine moves_to .chunkBody hq rfl rfl (by decide) (by simp [Call.completes]) fun _ =>
      advanced_taken (Nat.succ_ne_zero _) ?_ _
    simp only [Poised]
    omega

/-- **One pass** goes on within a message or completes one, and it makes progress: it takes an octet
or moves to a state from which the next pass does. -/
theorem moves_pass : Moves p 0 (p.pass env b src) := by
  cases hs : p.state with
  | start => exact moves_start hs
  | leadingLF => exact moves_leadingLF hs
  | reqMethod => exact moves_reqMethod hs
  | reqTarget => exact moves_reqTarget hs
  | reqHTTP => exact moves_literal (.inl hs)
  | resHTTP => exact moves_literal (.inr hs)
  | resStatus => exact moves_resStatus hs
  | resReason => exact moves_resReason hs
  | headerStart => exact moves_headerStart hs
  | headerName => exact moves_headerName hs
  | headerValueStart => exact moves_headerValueStart hs
  | headerValue => exact moves_headerValue hs
  | headersLF => exact moves_headersLF hs
  | fixedBody => exact moves_fixedBody hs
  | closeBody => exact moves_closeBody hs
  | chunkSize => exact moves_chunkSize hs
  | chunkExt => exact moves_chunkExt hs
  | chunkSizeLF => exact moves_chunkSizeLF hs
  | chunkBody => exact moves_chunkBody hs
  | versionMajor =>
    simp only [pass, hs]
    refine moves_expect (fun _ => by decide) stays_takeStartByte fun q hq => ?_
    exact moves_move .versionDot hq rfl rfl rfl (Nat.succ_ne_zero _)
  | versionDot =>
    simp only [pass, hs]
    exact moves_next .versionMinor (fun _ => by decide) (.refl p) stays_takeStartByte rfl
  | versionMinor =>
    simp only [pass, hs]
    refine moves_expect (fun _ => by decide) stays_takeStartByte fun q hq => ?_
    by_cases hk : q.kind = .request
    · exact moves_move .reqLineCR hq (if_pos hk) rfl rfl (Nat.succ_ne_zero _)
    · exact moves_move .resSpaceBeforeStatus hq (if_neg hk) rfl rfl (Nat.succ_ne_zero _)
  | reqLineCR =>
    simp only [pass, hs]
    split
    · exact moves_halt (by decide)
    · exact moves_next .reqLineLF (fun _ => by decide) (.refl p) stays_takeStartByte rfl
  | reqLineLF | resLineLF =>
    simp only [pass, hs]
    refine moves_expect (fun _ => by decide) stays_takeStartByte fun q hq => ?_
    exact moves_plain .headerStart hq rfl rfl rfl (by simp [startLineComplete, Call.completes])
      (Nat.succ_ne_zero _)
  | resSpaceBeforeStatus =>
    simp only [pass, hs]
    refine moves_expect (fun _ => by decide) stays_takeStartByte fun q hq => ?_
    exact moves_to .resStatus hq rfl rfl (by decide) (forall_mem_nil _) fun _ =>
      advanced_taken (Nat.succ_ne_zero _) (by simp [Poised]) _
  | resReasonStart =>
    simp only [pass, hs]
    exact moves_next .resReason (fun _ => by decide) (.refl p) stays_takeStartByte rfl
  | headerValueLF =>
    simp only [pass, hs]
    refine moves_expect (fun _ => by decide) stays_takeHeaderByte fun q hq => ?_
    exact moves_plain .headerStart hq rfl rfl rfl (by simp [endHeader, Call.completes])
      (Nat.succ_ne_zero _)
  | chunkSizeStart =>
    simp only [pass, hs]
    exact moves_to .chunkSize (Stays.refl p) rfl rfl (by decide) (forall_mem_nil _)
      fun _ => ⟨trivial, fun _ => by simp [rank, hs, passChunkSizeStart]⟩
  | chunkBodyCR =>
    simp only [pass, hs]
    exact moves_next .chunkBodyLF (fun _ => by decide) (.refl p) (.refl p) rfl
  | chunkBodyLF =>
    simp only [pass, hs]
    refine moves_expect (P := p.Stays) (fun _ => by decide) (.refl p) fun q hq => ?_
    exact moves_plain .chunkSizeStart hq rfl rfl rfl (by simp [endChunk, Call.completes])
      (Nat.succ_ne_zero _)
  | upgrade | dead =>
    simp only [pass, hs]
    exact moves_halt (by decide)

theorem goes_pass : Goes p (p.pass env b src) := moves_pass.goes

theorem advanced_pass (h : p.Stands) (hcode : (p.pass env b src).parser.code = .none) :
    Advanced p.rank (p.pass env b src).n (p.pass env b src).parser := by
  have hl := moves_pass.lands h hcode
  rwa [Nat.zero_add] at hl

end Parser

/-! ## Counting messages -/

/-- The number of messages that some callbacks complete. -/
def completions (calls : List Call) : ℕ := calls.countP Call.completes

namespace Parser

variable {p q : Parser} {b : UInt8} {src : Bytes} {env : Env}

variable {calls : List Call}

theorem completions_of_open (h : ∀ c ∈ calls, c.completes = false) : completions calls = 0 := by
  rw [completions, countP_eq_zero]
  exact fun c hc => by simp [h c hc]

/-- The counters of messages and exchanges after some callbacks. -/
structure Numbers (p : Parser) (calls : List Call) (q : Parser) : Prop where
  messageNum : q.messageNum = p.messageNum + completions calls
  exchangeNum : q.exchangeNum ≤ p.exchangeNum + completions calls

theorem Numbers.refl (p : Parser) : Numbers p [] p := ⟨rfl, le_rfl⟩

theorem Numbers.trans {calls' : List Call} {r : Parser} (h : Numbers p calls q)
    (h' : Numbers q calls' r) : Numbers p (calls ++ calls') r := by
  have hm := h.messageNum
  have hm' := h'.messageNum
  have he := h.exchangeNum
  have he' := h'.exchangeNum
  have hsum : completions (calls ++ calls') = completions calls + completions calls' :=
    countP_append
  exact ⟨by omega, by omega⟩

theorem numbers_pass (h : (p.pass env b src).parser.code = .none) :
    Numbers p (p.pass env b src).calls (p.pass env b src).parser := by
  obtain hgo | hdone : _ ∨ _ := goes_pass h
  · have hzero := completions_of_open hgo.calls
    exact ⟨by rw [hzero, hgo.messageNum, Nat.add_zero], by rw [hgo.exchangeNum]; omega⟩
  · obtain ⟨before, m, hcalls, hbefore⟩ := hdone.calls
    have hone : completions (p.pass env b src).calls = 1 := by
      rw [hcalls, completions, countP_append, countP_singleton]
      have hzero : countP Call.completes before = 0 := completions_of_open hbefore
      rw [hzero]
      rfl
    exact ⟨by rw [hone, hdone.messageNum], by rw [hone]; exact hdone.exchangeNum⟩

theorem numbers_loop (fuel : ℕ) (src : Bytes) (h : (p.loop env fuel src).parser.code = .none) :
    Numbers p (p.loop env fuel src).calls (p.loop env fuel src).parser := by
  induction fuel generalizing p src with
  | zero => exact .refl p
  | succ fuel ih =>
    cases src with
    | nil => exact .refl p
    | cons b src =>
      simp only [loop] at h ⊢
      split_ifs at h ⊢ with hpaused hcode hup
      · exact .refl p
      · exact absurd h hcode
      · exact numbers_pass h
      · exact (numbers_pass (not_not.mp hcode)).trans (ih _ h)

theorem numbers_act (i : Input) (h : (p.act env i).parser.code = .none) :
    Numbers p (p.act env i).calls (p.act env i).parser := by
  have hrun : ∀ src after, (p.runParse env src after).parser.code = .none →
      Numbers p (p.runParse env src after).calls (p.runParse env src after).parser := by
    intro src after h
    simp only [runParse, parseAll] at h ⊢
    split_ifs at h ⊢ with hcode hup
    · exact ⟨rfl, le_rfl⟩
    · exact ⟨rfl, le_rfl⟩
    · have hloop := numbers_loop (2 * src.length) src h
      exact ⟨hloop.messageNum, hloop.exchangeNum⟩
  cases i with
  | parse src => exact hrun src false h
  | parseOne src => exact hrun src true h
  | finish =>
    simp only [act, finish] at h ⊢
    split_ifs at h ⊢
    · exact .refl p
    · exact .refl p
    · exact ⟨rfl, exchangeNum_completeMessage (Stays.refl p)⟩
    · exact .refl p
    · exact absurd h (code_fail (by decide))
  | setResponseContext head connect => exact ⟨rfl, le_rfl⟩

/-- The messages of a run are counted. -/
theorem numbers_after (is : List Input) (hp : p.code = .none) (h : (p.after env is).code = .none) :
    Numbers p (p.trace env is) (p.after env is) := by
  induction is generalizing p with
  | nil => exact .refl p
  | cons i is ih =>
    have hcode : (p.act env i).parser.code = .none := by
      by_contra hne
      have hkept : (p.after env (i :: is)).code = _ := after_failed hne is
      exact hne (hkept ▸ h)
    exact (numbers_act i hcode).trans (ih hcode h)

end Parser

end WagoHttp.Http1
