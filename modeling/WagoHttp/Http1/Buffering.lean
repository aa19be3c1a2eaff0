import WagoHttp.Foundations.Buffered
import WagoHttp.Http1.Completion

/-!
# The parser and its buffers

A call of `Parse` is given some octets, and one pass of the loop may take many of them at once. The
parser is a buffered reader all the same: in every state that occurs, a pass over `b :: rest` is the
pass over `b` alone, or that pass followed by one over `rest`. So what the parser does depends on
the octets it is given and not on how they are cut into calls.

The states that occur are those of `Parser.Placed` in which, moreover, something is left to be done
(`Parser.Poised`): a literal or a status is not complete yet, and the body that is left fits in its
limit.
-/

namespace WagoHttp.Http1

open Trace Buffered List

/-! ## Outcomes -/

/-- The tokens that are reported in parts. -/
inductive Token
  | method
  | target
  | reason
  | headerName
  | headerValue
  | body
  deriving DecidableEq, Repr

/-- A callback as the entry of a trace: a part of a token, or a mark. -/
def Call.entry : Call → Entry Token UInt8 Call
  | .method span => .span .method span
  | .target span => .span .target span
  | .reason span => .span .reason span
  | .headerName span => .span .headerName span
  | .headerValue span => .span .headerValue span
  | .body span => .span .body span
  | c => .mark c

/-- Why the loop ends before the octets do. -/
inductive Stop
  | failed (code : Code)
  | upgraded
  | paused
  deriving DecidableEq, Repr

/-- The loop ends, but nothing is wrong. -/
def Stop.Fine : Stop → Prop
  | .failed _ => False
  | .upgraded | .paused => True

namespace Parser

/-- Why the loop ends with this parser, if it does. -/
def stop (p : Parser) : Option Stop :=
  if p.code ≠ .none then some (.failed p.code)
  else if p.state = .upgrade then some .upgraded
  else if p.paused then some .paused
  else none

end Parser

@[simp] theorem Pass.after_zero (w : Pass) : w.after 0 [] = w := by
  simp [Pass.after]

def Pass.outcome (w : Pass) : Outcome Parser UInt8 Token Call Stop where
  taken := w.n
  state := w.parser
  trace := w.calls.map Call.entry
  stop := w.parser.stop

namespace Parser

variable {p q : Parser} {code : Code} {b : UInt8} {src rest : Bytes} {env : Env}

/-- A pass over the octets that are left. -/
def readPass (env : Env) (p : Parser) : Bytes → Outcome Parser UInt8 Token Call Stop
  | [] => .idle p
  | b :: src => (p.pass env b src).outcome

theorem stop_eq_none : p.stop = none ↔ p.code = .none ∧ p.state ≠ .upgrade ∧ p.paused = false := by
  unfold stop
  split_ifs with hcode hup hpaused <;> simp_all

theorem stop_of_code (h : p.code ≠ .none) : p.stop = some (.failed p.code) := if_pos h

/-! ## What a pass takes -/

theorem scan_le (more : Parser → UInt8 → Bool) (step : Parser → UInt8 → Except Parser Parser)
    (p : Parser) (src : Bytes) : (p.scan more step src).2 ≤ src.length := by
  induction src generalizing p with
  | nil => exact le_rfl
  | cons b src ih =>
    unfold scan
    split
    · cases step p b with
      | error q => exact Nat.zero_le _
      | ok q => exact Nat.succ_le_succ (ih q)
    · exact Nat.zero_le _

/-- What looks at the octet after a scan takes at most that octet. -/
theorem scanning_le {more : Parser → UInt8 → Bool} {step : Parser → UInt8 → Except Parser Parser}
    {report : Bytes → List Call} {finish : Parser → Option UInt8 → Pass}
    (hnone : ∀ q, (finish q none).n = 0) (hsome : ∀ q c, (finish q (some c)).n ≤ 1) :
    (p.scanning src more step report finish).n ≤ src.length := by
  have hle := scan_le more step p src
  unfold scanning
  generalize p.scan more step src = w at hle
  obtain ⟨_ | q, n⟩ := w
  · exact hle
  · simp only [Pass.after] at hle ⊢
    cases ho : (src.drop n).head? with
    | none => simpa [hnone] using hle
    | some c =>
      have hlt : n < src.length := by
        by_contra hn
        rw [drop_eq_nil_of_le (not_lt.mp hn)] at ho
        cases ho
      have := hsome q c
      omega

variable {next : Parser → Pass}

theorem expect_le {fits : Bool} {take : Parser → Except Parser Parser} (h : ∀ q, (next q).n = 0) :
    (p.expect fits code take next).n ≤ 1 := by
  unfold expect
  split
  · cases ht : take p with
    | error q => exact Nat.zero_le _
    | ok q => simp [attempt, Pass.after, h]
  · exact Nat.zero_le _

theorem attempt_le {r : Except Parser Parser} {n : ℕ} (h : ∀ q, (next q).n ≤ n) :
    (attempt r next).n ≤ n := by
  cases r with
  | error q => exact Nat.zero_le _
  | ok q => exact h q

theorem beginContent_n (p : Parser) : p.beginContent.n = 0 := by
  unfold beginContent
  simp only
  split_ifs <;> rfl

theorem endHeaders_n (p : Parser) : p.endHeaders.n = 0 := by
  unfold endHeaders headersComplete
  split_ifs <;> simp [Pass.after, completeMessage, halt, beginContent_n]

theorem endChunkLine_n (p : Parser) : p.endChunkLine.n = 0 := by
  unfold endChunkLine
  split_ifs <;> rfl

theorem pass_le : (p.pass env b src).n ≤ src.length + 1 := by
  have hone : ∀ {n : ℕ}, n ≤ 1 → n ≤ src.length + 1 := fun h => h.trans (by omega)
  cases hs : p.state with simp only [pass, hs]
  | start =>
    simp only [passStart]
    split
    · exact hone (expect_le fun _ => rfl)
    · unfold beginMessage askContext
      split <;> exact Nat.zero_le _
  | reqMethod =>
    refine scanning_le (fun _ => rfl) fun q c => ?_
    simp only [finishReqMethod]
    split_ifs
    · exact Nat.zero_le _
    · exact Nat.zero_le _
    · exact expect_le fun _ => rfl
  | reqTarget => exact scanning_le (fun _ => rfl) fun q c => expect_le fun _ => rfl
  | reqHTTP | resHTTP =>
    have hfinish : ∀ q : Parser, q.finishLiteral.n = 0 := by
      intro q
      unfold finishLiteral
      split <;> rfl
    exact scanning_le hfinish fun q _ => by simp [hfinish]
  | resStatus =>
    have hfinish : ∀ q : Parser, q.finishStatus.n = 0 := by
      intro q
      unfold finishStatus
      split_ifs <;> rfl
    exact scanning_le hfinish fun q _ => by simp [hfinish]
  | resReason => exact scanning_le (fun _ => rfl) fun q c => expect_le fun _ => rfl
  | headerStart =>
    simp only [passHeaderStart]
    split_ifs
    · exact hone (expect_le fun _ => rfl)
    · exact Nat.zero_le _
    · exact attempt_le fun _ => Nat.zero_le _
  | headerName =>
    refine scanning_le (fun _ => rfl) fun q c => expect_le fun q => ?_
    exact Nat.le_zero.mp (attempt_le fun _ => le_rfl)
  | headerValueStart => exact scanning_le (fun _ => rfl) fun q c => Nat.zero_le _
  | headerValue =>
    exact scanning_le (fun _ => rfl) fun q c => attempt_le fun _ => expect_le fun _ => rfl
  | headersLF => exact hone (expect_le endHeaders_n)
  | fixedBody =>
    simp only [passFixedBody]
    refine attempt_le fun q => ?_
    split_ifs <;> exact min_le_left _ _
  | closeBody =>
    simp only [passCloseBody]
    split_ifs <;> exact min_le_left _ _
  | chunkSizeStart => exact Nat.zero_le _
  | chunkSize =>
    refine scanning_le (fun _ => rfl) fun q c => ?_
    simp only [finishChunkSize]
    split_ifs
    · exact Nat.zero_le _
    · exact expect_le fun _ => rfl
    · exact expect_le fun _ => rfl
  | chunkExt =>
    refine scanning_le (fun _ => rfl) fun q c => ?_
    simp only [finishChunkExt]
    split_ifs
    · exact Nat.zero_le _
    · exact expect_le fun _ => rfl
  | chunkSizeLF => exact hone (expect_le endChunkLine_n)
  | chunkBody =>
    simp only [passChunkBody]
    refine attempt_le fun q => ?_
    split_ifs <;> exact min_le_left _ _
  | reqLineCR =>
    split
    · exact Nat.zero_le _
    · exact hone (expect_le fun _ => rfl)
  | leadingLF | versionMajor | versionDot | versionMinor | reqLineLF | resLineLF
  | resSpaceBeforeStatus | resReasonStart | headerValueLF | chunkBodyCR | chunkBodyLF =>
    exact hone (expect_le fun _ => rfl)
  | upgrade | dead => exact Nat.zero_le _

/-! ## Passes are local -/

theorem Stays.stop (h : p.Stays q) : q.stop = p.stop := by
  unfold Parser.stop
  rw [h.state, h.code, h.paused]

section Scanning

variable {more : Parser → UInt8 → Bool} {step : Parser → UInt8 → Except Parser Parser}
  {report : Bytes → List Call} {finish : Parser → Option UInt8 → Pass}

/-- A report of some octets makes no mark, and is the report of two parts of them. -/
structure Divisible (report : Bytes → List Call) : Prop where
  divides : ∀ x y, merge ((report (x ++ y)).map Call.entry) =
    merge ((report x).map Call.entry ++ (report y).map Call.entry)
  unmarked : ∀ x, ∀ e ∈ (report x).map Call.entry, e.closes (fun _ => true) = false

theorem divisible_span {f : Bytes → Call} {token : Token}
    (h : ∀ x, (f x).entry = .span token x) : Divisible fun x => [f x] := by
  refine ⟨fun x y => ?_, fun x => ?_⟩
  · simp only [map_cons, map_nil, h]
    exact merge_span_append token x y
  · simp only [map_cons, map_nil, h, mem_singleton, forall_eq]
    rfl

theorem divisible_nil : Divisible fun _ => [] := ⟨fun _ _ => rfl, fun _ => forall_mem_nil _⟩

theorem scanning_stop (hm : more p b = false) :
    p.scanning (b :: rest) more step report finish = finish p (some b) := by
  simp [scanning, scan, hm]

theorem scanning_error (hm : more p b = true) (hs : step p b = .error q) :
    p.scanning (b :: rest) more step report finish = { parser := q } := by
  simp [scanning, scan, hm, hs]

theorem scanning_ok (hm : more p b = true) (hs : step p b = .ok q) :
    p.scanning (b :: rest) more step report finish =
      match q.scan more step rest with
      | (.error q', n) => { parser := q', n := n + 1 }
      | (.ok q', n) => (finish q' (rest.drop n).head?).after (n + 1) (report (b :: rest.take n)) := by
  simp only [scanning, scan, hm, hs, if_true]
  generalize q.scan more step rest = w
  obtain ⟨_ | q', n⟩ := w <;> simp

theorem scanning_one (hm : more p b = true) (hs : step p b = .ok q) :
    p.scanning [b] more step report finish = (finish q none).after 1 (report [b]) := by
  rw [scanning_ok hm hs]
  rfl

/-- A scan over two parts is a scan over the first and a scan over the second. -/
theorem agree_scanning (hstep : ∀ q b, Yields (step q b) q.Stays) (hrep : Divisible report)
    (hstop : q.stop = none) (hm : more p b = true) (hs : step p b = .ok q) :
    Agree (fun _ => true) Stop.Fine
      (p.scanning (b :: rest) more step report finish).outcome
      ((Pass.after 1 (report [b]) { parser := q }).outcome.andThen fun q =>
        (q.scanning rest more step report finish).outcome) := by
  have hscan : Yields (q.scan more step rest).1 fun _ => True :=
    (yields_scan (I := fun _ => True) (J := fun _ => True)
      (fun q b _ _ => (hstep q b).mono fun _ _ => ⟨trivial, trivial⟩) rest trivial).mono
      fun _ _ => trivial
  rw [scanning_ok hm hs, Outcome.andThen_of_none (show _ = none from hstop)]
  unfold scanning
  simp only [Pass.outcome, Pass.after, Nat.add_zero, append_nil]
  generalize q.scan more step rest = w at hscan
  obtain ⟨_ | q', n⟩ := w
  · -- a span that was reported before the failure is not settled
    refine ⟨Nat.add_comm _ _, rfl, rfl, .of_open (forall_mem_nil _) ?_, fun hfine => ?_⟩
    · simpa only [map_nil, append_nil] using hrep.unmarked [b]
    · exact (hfine _ (stop_of_code hscan)).elim
  · refine .of_merge (by simp only; omega) rfl rfl ?_
    simp only [map_append, ← append_assoc]
    refine merge_append_congr ?_ rfl
    split
    · rename_i hn
      subst hn
      simp
    · exact hrep.divides [b] (rest.take n)

/-- A pass over octets up to a delimiter, or up to a number of them, is local. -/
theorem local_scanning
    (hpass : ∀ (q : Parser) c rest, q.state = p.state →
      q.pass env c rest = q.scanning (c :: rest) more step report finish)
    (hstop : p.stop = none) (hstep : ∀ q b, Yields (step q b) q.Stays) (hrep : Divisible report)
    (hfinish : ∀ q, finish q none = { parser := q } ∨
      ∀ c, more q c = false ∧ finish q (some c) = finish q none)
    (hrest : rest ≠ []) : Local (fun _ => true) Stop.Fine (readPass env) p b rest := by
  obtain ⟨c, rest, rfl⟩ := exists_cons_of_ne_nil hrest
  simp only [Local, readPass, hpass p _ _ rfl]
  cases hm : more p b with
  | false => exact .inl (by rw [scanning_stop hm, scanning_stop hm])
  | true =>
    cases hs : step p b with
    | error q => exact .inl (by rw [scanning_error hm hs, scanning_error hm hs])
    | ok q =>
      have hq : p.Stays q := by
        have := hstep p b
        rwa [hs] at this
      rcases hfinish q with hnone | hdone
      · have hone : (p.scanning [b] more step report finish).outcome =
            (Pass.after 1 (report [b]) { parser := q }).outcome := by
          rw [scanning_one hm hs, hnone]
        refine .inr ⟨?_, ?_, ?_⟩
        · rw [hone]
          exact hq.stop.trans hstop
        · rw [hone]
          rfl
        · rw [hone]
          refine (agree_scanning hstep hrep (hq.stop.trans hstop) hm hs).trans ?_
          refine (Agree.refl _).andThen fun _ => ?_
          change Agree _ _ (q.scanning (c :: rest) more step report finish).outcome
            (q.pass env c rest).outcome
          rw [hpass q c rest hq.state]
          exact .refl _
      · refine .inl ?_
        rw [scanning_one hm hs, scanning_ok hm hs]
        simp [scan, (hdone c).1, (hdone c).2]

end Scanning

/-! ## Bodies -/

section Bodies

/-- The parser after `n` octets of a body that is counted. -/
def ate (n : ℕ) (p : Parser) : Parser :=
  { p with bodyBytes := p.bodyBytes + n, remaining := p.remaining - n }

/-- A pass over a body that is counted, and what follows it. -/
def counted (next : Parser → Pass) (p : Parser) (src : Bytes) : Pass :=
  let n := min src.length p.remaining
  (if (p.ate n).remaining = 0 then next (p.ate n) else { parser := p.ate n }).after n
    (bodyCall (src.take n))

theorem addBody_eq {n : ℕ} (h : p.bodyBytes + n ≤ p.limits.maxBodyBytes.toNat) :
    p.addBody n = .ok { p with bodyBytes := p.bodyBytes + n } := by
  rw [addBody, if_neg (by omega)]

theorem passFixedBody_eq (h : p.bodyBytes + p.remaining ≤ p.limits.maxBodyBytes.toNat) :
    p.passFixedBody src = counted completeMessage p src := by
  rw [passFixedBody, addBody_eq (by omega)]
  rfl

theorem passChunkBody_eq (h : p.bodyBytes + p.remaining ≤ p.limits.maxBodyBytes.toNat) :
    p.passChunkBody src = counted (goto .chunkBodyCR) p src := by
  rw [passChunkBody, addBody_eq (by omega)]
  rfl

/-- The callback for a body is a span of it, if there is any. -/
theorem merge_bodyCall (b : UInt8) (xs : Bytes) :
    merge ((bodyCall (b :: xs)).map Call.entry) =
      merge ((bodyCall [b]).map Call.entry ++ (bodyCall xs).map Call.entry) := by
  cases xs with
  | nil => rfl
  | cons c xs => exact merge_span_append Token.body [b] (c :: xs)

/-- A pass that takes an octet of a body, and one that takes more of it and ends in the same way. -/
theorem local_body {w : Pass} {c : UInt8} {k : ℕ} (hstop : q.stop = none)
    (hone : p.pass env b [] = Pass.after 1 (bodyCall [b]) { parser := q })
    (hall : p.pass env b (c :: rest) = w.after (1 + k) (bodyCall ((b :: c :: rest).take (1 + k))))
    (hrest : q.pass env c rest = w.after k (bodyCall ((c :: rest).take k))) :
    Local (fun _ => true) Stop.Fine (readPass env) p b (c :: rest) := by
  simp only [Local, readPass, hone, hall]
  refine .inr ⟨hstop, rfl, ?_⟩
  rw [Outcome.andThen_of_none (show _ = none from hstop)]
  simp only [Pass.outcome, Pass.after, hrest]
  refine .of_merge (by simp [Nat.add_assoc]) rfl rfl ?_
  simp only [map_append, ← append_assoc]
  refine merge_append_congr ?_ rfl
  rw [Nat.add_comm 1 k, take_succ_cons]
  simpa using merge_bodyCall b ((c :: rest).take k)

theorem local_counted (next : Parser → Pass) (hstop : p.stop = none) (hpos : 0 < p.remaining)
    (hp : p.bodyBytes + p.remaining ≤ p.limits.maxBodyBytes.toNat)
    (hpass : ∀ (q : Parser) c rest, q.state = p.state →
      q.bodyBytes + q.remaining ≤ q.limits.maxBodyBytes.toNat →
      q.pass env c rest = counted next q (c :: rest))
    (hrest : rest ≠ []) : Local (fun _ => true) Stop.Fine (readPass env) p b rest := by
  obtain ⟨c, rest, rfl⟩ := exists_cons_of_ne_nil hrest
  have hmin : min ([b] : Bytes).length p.remaining = 1 := by simp; omega
  by_cases hone : p.remaining = 1
  · -- the last octet of the body
    refine .inl ?_
    have hmin' : min (b :: c :: rest).length p.remaining = 1 := by simp; omega
    simp only [readPass, hpass p _ _ rfl hp, counted, hmin, hmin', take_succ_cons, take_zero]
  · have hne : (p.ate 1).remaining ≠ 0 := by simp only [ate]; omega
    have hn : min (b :: c :: rest).length p.remaining =
        1 + min (c :: rest).length (p.ate 1).remaining := by
      simp only [length_cons, ate]
      omega
    have hate : ∀ n, p.ate (1 + n) = (p.ate 1).ate n := by
      intro n
      simp only [ate, Nat.add_assoc, Nat.sub_add_eq]
    refine local_body (q := p.ate 1) hstop ?_ ?_
      (hpass (p.ate 1) _ _ rfl (by simp only [ate]; omega))
    · simp only [hpass p _ _ rfl hp, counted, hmin, if_neg hne]
      rfl
    · simp only [hpass p _ _ rfl hp, counted, hn, hate]

theorem local_closeBody (hs : p.state = .closeBody) (hstop : p.stop = none) (hrest : rest ≠ []) :
    Local (fun _ => true) Stop.Fine (readPass env) p b rest := by
  obtain ⟨c, rest, rfl⟩ := exists_cons_of_ne_nil hrest
  have hpass : ∀ (q : Parser) c rest, q.state = .closeBody →
      q.pass env c rest = q.passCloseBody (c :: rest) := by
    intro q c rest hq
    simp only [pass, hq]
  rcases Nat.eq_zero_or_pos (p.limits.maxBodyBytes.toNat - p.bodyBytes) with hfull | hroom
  · refine .inl ?_
    simp [readPass, hpass p _ _ hs, passCloseBody, hfull]
  · have hmin : min ([b] : Bytes).length (p.limits.maxBodyBytes.toNat - p.bodyBytes) = 1 := by
      simp; omega
    have hn : min (b :: c :: rest).length (p.limits.maxBodyBytes.toNat - p.bodyBytes) =
        1 + min (c :: rest).length (p.limits.maxBodyBytes.toNat - (p.bodyBytes + 1)) := by
      simp only [length_cons]
      omega
    have hend : ∀ k, 1 + k ≠ (b :: c :: rest).length ↔ k ≠ (c :: rest).length := by
      intro k
      simp only [length_cons]
      omega
    refine local_body (q := { p with bodyBytes := p.bodyBytes + 1 }) hstop ?_ ?_
      (hpass { p with bodyBytes := p.bodyBytes + 1 } _ _ hs)
    · simp only [hpass p _ _ hs, passCloseBody, hmin]
      rfl
    · simp only [hpass p _ _ hs, passCloseBody, hn, hend, ← Nat.add_assoc]

end Bodies

/-! ## The reader -/

/-- The parser is in a state that occurs. -/
structure Occurs (p : Parser) : Prop where
  kind : p.kind ≠ .other
  placed : ∃ s, p.Placed s
  poised : p.Poised

/-- The parser is in a state that occurs, and the loop does not end here. -/
structure Reading (p : Parser) : Prop extends p.Occurs where
  stop : p.stop = none

/-- **Passes are local.** -/
theorem local_pass (hp : p.Reading) (hrest : rest ≠ []) :
    Local (fun _ => true) Stop.Fine (readPass env) p b rest := by
  obtain ⟨⟨-, ⟨s, hplaced⟩, hpoised⟩, hstop⟩ := hp
  cases hs : p.state with
  | reqMethod =>
    exact local_scanning (fun _ _ _ hq => pass_reqMethod (hq.trans hs)) hstop
      (fun _ _ => stays_stepMethod) (divisible_span fun _ => rfl) (fun _ => .inl rfl) hrest
  | reqTarget =>
    exact local_scanning (fun _ _ _ hq => pass_reqTarget (hq.trans hs)) hstop
      (fun _ _ => stays_stepTarget) (divisible_span fun _ => rfl) (fun _ => .inl rfl) hrest
  | reqHTTP | resHTTP =>
    have hs' : p.state = .reqHTTP ∨ p.state = .resHTTP := by simp [hs]
    refine local_scanning (fun q _ _ hq => pass_literal (by rwa [hq])) hstop
      (fun _ _ => stays_stepLiteral) divisible_nil (fun q => ?_) hrest
    by_cases h5 : q.literalPos = 5
    · exact .inr fun _ => ⟨by simp [h5], rfl⟩
    · exact .inl (by simp [finishLiteral, h5])
  | resStatus =>
    refine local_scanning (fun _ _ _ hq => pass_resStatus (hq.trans hs)) hstop
      (fun _ _ => stays_stepStatus) divisible_nil (fun q => ?_) hrest
    by_cases h3 : q.statusDigits = 3
    · exact .inr fun _ => ⟨by simp [h3], rfl⟩
    · exact .inl (by simp [finishStatus, h3])
  | resReason =>
    exact local_scanning (fun _ _ _ hq => pass_resReason (hq.trans hs)) hstop
      (fun _ _ => stays_stepReason) (divisible_span fun _ => rfl) (fun _ => .inl rfl) hrest
  | headerName =>
    exact local_scanning (fun _ _ _ hq => pass_headerName (hq.trans hs)) hstop
      (fun _ _ => stays_stepHeaderName) (divisible_span fun _ => rfl) (fun _ => .inl rfl) hrest
  | headerValueStart =>
    exact local_scanning (fun _ _ _ hq => pass_headerValueStart (hq.trans hs)) hstop
      (fun _ _ => stays_takeHeaderByte) divisible_nil (fun _ => .inl rfl) hrest
  | headerValue =>
    exact local_scanning (fun _ _ _ hq => pass_headerValue (hq.trans hs)) hstop
      (fun _ _ => stays_stepHeaderValue) (divisible_span fun _ => rfl) (fun _ => .inl rfl) hrest
  | chunkSize =>
    exact local_scanning (fun _ _ _ hq => pass_chunkSize (hq.trans hs)) hstop
      (fun _ _ => stays_stepChunkSize) divisible_nil (fun _ => .inl rfl) hrest
  | chunkExt =>
    exact local_scanning (fun _ _ _ hq => pass_chunkExt (hq.trans hs)) hstop
      (fun _ _ => stays_stepChunkExt) divisible_nil (fun _ => .inl rfl) hrest
  | fixedBody =>
    simp only [Placed, hs] at hplaced
    simp only [Poised, hs] at hpoised
    obtain ⟨-, -, -, hpos, -⟩ := hplaced
    refine local_counted completeMessage hstop hpos hpoised (fun q c rest hq hle => ?_) hrest
    simp only [pass, hq, hs]
    exact passFixedBody_eq hle
  | chunkBody =>
    simp only [Placed, hs] at hplaced
    simp only [Poised, hs] at hpoised
    obtain ⟨-, -, -, hpos, -⟩ := hplaced
    refine local_counted (goto .chunkBodyCR) hstop hpos hpoised (fun q c rest hq hle => ?_) hrest
    simp only [pass, hq, hs]
    exact passChunkBody_eq hle
  | closeBody => exact local_closeBody hs hstop hrest
  | _ =>
    -- these passes do not look beyond the first octet
    exact .inl (by simp only [readPass, pass, hs])

theorem occurs_pass (hp : p.Occurs) (hcode : (p.pass env b src).parser.code = .none) :
    (p.pass env b src).parser.Occurs := by
  obtain ⟨hk, ⟨s, hplaced⟩, hpoised⟩ := hp
  obtain ⟨g, -, ht⟩ : Reported p.kind env.responseContext.isSome _ (p.pass env b src) :=
    reported_pass hk hplaced
  obtain ⟨hkind, -, -, hplaced'⟩ := ht hcode
  exact ⟨by rw [hkind]; exact hk, ⟨_, hplaced'⟩, (advanced_pass ⟨⟨_, hplaced⟩, hpoised⟩ hcode).1⟩

/-- The parser as a buffered reader. -/
def reader (env : Env) : Reader Parser UInt8 Token Call Stop (fun _ => true) Stop.Fine where
  pass := readPass env
  good := Reading
  rank := rank
  bound := 1
  rank_le p := by
    unfold rank
    split <;> decide
  taken_le _ _ _ := pass_le
  good_pass hp hstop := ⟨occurs_pass hp.toOccurs (stop_eq_none.mp hstop).1, hstop⟩
  progress := by
    intro p b rest hp hstop hn
    obtain ⟨s, hplaced⟩ := hp.placed
    exact (advanced_pass ⟨⟨_, hplaced⟩, hp.poised⟩ (stop_eq_none.mp hstop).1).2 hn
  isLocal _ _ := local_pass

end Parser

/-! ## Calls of the parser -/

/-- The code that a call returns when the loop ends this way. -/
def Stop.code : Option Stop → Code
  | some (.failed code) => code
  | some .upgraded => .upgrade
  | some .paused | none => .none

/-- The result of a call is what a reader has done. -/
structure Parsed.Shows (r : Parsed) (o : Outcome Parser UInt8 Token Call Stop) : Prop where
  parser : r.parser = o.state
  n : r.n = o.taken
  code : r.code = Stop.code o.stop
  calls : r.calls.map Call.entry = o.trace

namespace Parser

variable {p : Parser} {env : Env} {src : Bytes}

theorem loop_of_paused (fuel : ℕ) (src : Bytes) (h : p.paused = true) :
    p.loop env fuel src = { parser := p } := by
  match fuel, src with
  | 0, _ => rfl
  | _ + 1, [] => rfl
  | _ + 1, _ :: _ => simp only [loop, h, if_true]

/-- The loop is that of the reader. -/
theorem loop_shows (fuel : ℕ) (src : Bytes) (h : p.stop = none) :
    (p.loop env fuel src).Shows (Buffered.loop (readPass env) fuel p src) := by
  have hidle : ({ parser := p } : Parsed).Shows (.idle p) := ⟨rfl, rfl, rfl, rfl⟩
  induction fuel generalizing p src with
  | zero => exact hidle
  | succ fuel ih =>
    match src with
    | [] => exact hidle
    | b :: src =>
      simp only [loop, Buffered.loop, readPass, (stop_eq_none.mp h).2.2, Bool.false_eq_true, if_false]
      generalize p.pass env b src = w
      by_cases hcode : w.parser.code = .none
      · by_cases hup : w.parser.state = .upgrade
        · have hstop : w.outcome.stop = some .upgraded := by
            simp [Pass.outcome, Parser.stop, hcode, hup]
          rw [Outcome.andThen_of_some hstop]
          simp only [hcode, hup, ne_eq, not_true_eq_false, if_false, if_true]
          exact ⟨rfl, rfl, (congrArg Stop.code hstop).symm, rfl⟩
        · simp only [hcode, hup, ne_eq, not_true_eq_false, if_false]
          cases hpaused : w.parser.paused with
          | true =>
            have hstop : w.outcome.stop = some .paused := by
              simp [Pass.outcome, Parser.stop, hcode, hup, hpaused]
            rw [Outcome.andThen_of_some hstop, loop_of_paused _ _ hpaused]
            refine ⟨rfl, rfl, (congrArg Stop.code hstop).symm, ?_⟩
            simp [Parsed.after, Pass.outcome]
          | false =>
            have hstop : w.outcome.stop = none := stop_eq_none.mpr ⟨hcode, hup, hpaused⟩
            rw [Outcome.andThen_of_none hstop]
            have hrest := ih ((b :: src).drop w.n) hstop ⟨rfl, rfl, rfl, rfl⟩
            refine ⟨hrest.parser, congrArg (w.n + ·) hrest.n, hrest.code, ?_⟩
            simp only [Parsed.after, map_append, hrest.calls]
            rfl
      · have hstop : w.outcome.stop = some (.failed w.parser.code) := stop_of_code hcode
        rw [Outcome.andThen_of_some hstop]
        simp only [hcode, ne_eq, not_false_eq_true, if_true]
        exact ⟨rfl, rfl, (congrArg Stop.code hstop).symm, rfl⟩

/-- Why the loop ends is read off the parser it leaves. -/
theorem loop_stop (fuel : ℕ) (src : Bytes) (h : p.stop = none) :
    (Buffered.loop (readPass env) fuel p src).stop =
      (Buffered.loop (readPass env) fuel p src).state.stop := by
  induction fuel generalizing p src with
  | zero => exact h.symm
  | succ fuel ih =>
    match src with
    | [] => exact h.symm
    | b :: src =>
      simp only [Buffered.loop, readPass]
      cases hstop : (p.pass env b src).outcome.stop with
      | some c =>
        rw [Outcome.andThen_of_some hstop]
        rfl
      | none =>
        rw [Outcome.andThen_of_none hstop]
        exact ih _ hstop

theorem parseAll_shows (h : p.stop = none) :
    (p.parseAll env src).Shows ((reader env).run p src) := by
  obtain ⟨hcode, hup, -⟩ := stop_eq_none.mp h
  simp only [parseAll, hcode, hup, ne_eq, not_true_eq_false, if_false]
  exact loop_shows _ _ h

theorem occurs_loop (fuel : ℕ) (src : Bytes) (hp : p.Occurs)
    (h : (p.loop env fuel src).parser.code = .none) : (p.loop env fuel src).parser.Occurs := by
  induction fuel generalizing p src with
  | zero => exact hp
  | succ fuel ih =>
    cases src with
    | nil => exact hp
    | cons b src =>
      simp only [loop] at h ⊢
      split_ifs at h ⊢ with hpaused hcode hup
      · exact hp
      · exact absurd h hcode
      · exact occurs_pass hp h
      · exact ih _ (occurs_pass hp (not_not.mp hcode)) h

/-- That a state occurs does not depend on the flags of a pause or on the context. -/
theorem occurs_flags {after paused head connect : Bool} (hp : p.Occurs) :
    { p with
      pauseAfterMessage := after, paused := paused, responseToHEAD := head
      responseToCONNECT := connect }.Occurs := by
  obtain ⟨hk, ⟨s, hplaced⟩, hpoised⟩ := hp
  exact ⟨hk, ⟨s, placed_flags hplaced⟩, hpoised⟩

theorem occurs_runParse (src : Bytes) (after : Bool) (hp : p.code = .none → p.Occurs)
    (h : (p.runParse env src after).parser.code = .none) :
    (p.runParse env src after).parser.Occurs := by
  simp only [runParse, parseAll] at h ⊢
  split_ifs at h ⊢ with hcode hup
  · exact absurd h hcode
  · exact occurs_flags (p := p) (hp (not_not.mp hcode))
  · exact occurs_flags (occurs_loop _ _ (occurs_flags (hp (not_not.mp hcode))) h)

theorem occurs_finish (hp : p.code = .none → p.Occurs) (h : p.finish.parser.code = .none) :
    p.finish.parser.Occurs := by
  simp only [finish] at h ⊢
  split_ifs at h ⊢ with hcode hup hclose hidle
  · exact hp h
  · exact hp h
  · exact ⟨(hp (not_not.mp hcode)).kind, ⟨.idle, rfl⟩, trivial⟩
  · exact hp h
  · exact absurd h (code_fail (by decide))

/-- A call that does not fail leaves the parser in a state that occurs. -/
theorem occurs_act (hp : p.code = .none → p.Occurs) (i : Input)
    (h : (p.act env i).parser.code = .none) : (p.act env i).parser.Occurs := by
  cases i with
  | parse src => exact occurs_runParse src false hp h
  | parseOne src => exact occurs_runParse src true hp h
  | finish => exact occurs_finish hp h
  | setResponseContext head connect => exact occurs_flags (hp h)

theorem occurs_after (hp : p.code = .none → p.Occurs) (is : List Input)
    (h : (p.after env is).code = .none) : (p.after env is).Occurs := by
  induction is generalizing p with
  | nil => exact hp h
  | cons i is ih => exact ih (occurs_act hp i) h

end Parser

theorem occurs_newParser (kind : Kind) (limits : Limits)
    (h : (newParser kind limits).code = .none) : (newParser kind limits).Occurs := by
  unfold newParser at h ⊢
  simp only at h ⊢
  split_ifs at h ⊢ with hk
  · exact absurd h (Parser.code_fail (by decide))
  · exact ⟨hk, ⟨.idle, rfl⟩, trivial⟩

/-- **Every state of a run occurs**, unless the parser has failed. -/
theorem occurs_run (env : Env) (kind : Kind) (limits : Limits) (is : List Input)
    (h : ((newParser kind limits).after env is).code = .none) :
    ((newParser kind limits).after env is).Occurs :=
  Parser.occurs_after (occurs_newParser kind limits) is h

/-! ## Progress -/

namespace Parser

variable {p : Parser} {env : Env} {b : UInt8} {src : Bytes}

/-- The parser and the octets that are left when an iteration of the loop begins, if it does. The
iterations are numbered from zero. -/
def iteration (env : Env) : ℕ → Parser → Bytes → Option (Parser × UInt8 × Bytes)
  | _, _, [] => none
  | 0, p, b :: src => if p.paused then none else some (p, b, src)
  | k + 1, p, b :: src =>
    let w := p.pass env b src
    if p.paused ∨ w.parser.code ≠ .none ∨ w.parser.state = .upgrade then none
    else iteration env k w.parser ((b :: src).drop w.n)

/-- An iteration gets somewhere: it does not take the branch for unexpected states, a body has
octets left, and if it takes no octet, then the next iteration takes one or fails. -/
structure Progresses (env : Env) (p : Parser) (b : UInt8) (src : Bytes) : Prop where
  code : p.code = .none
  expected : p.state ≠ .dead ∧ p.state ≠ .upgrade
  body : p.state = .fixedBody ∨ p.state = .chunkBody → 0 < p.remaining
  next : (p.pass env b src).parser.code = .none → (p.pass env b src).n = 0 →
    ((p.pass env b src).parser.pass env b src).parser.code ≠ .none ∨
      0 < ((p.pass env b src).parser.pass env b src).n

theorem Occurs.body (hp : p.Occurs) :
    p.state ≠ .dead ∧ (p.state = .fixedBody ∨ p.state = .chunkBody → 0 < p.remaining) := by
  obtain ⟨s, hplaced⟩ := hp.placed
  refine ⟨fun hs => ?_, ?_⟩
  · simp only [Placed, hs] at hplaced
  · rintro (hs | hs)
    all_goals
      simp only [Placed, hs] at hplaced
      obtain ⟨-, -, -, hpos, -⟩ := hplaced
      exact hpos

theorem Reading.progresses (hp : p.Reading) : p.Progresses env b src := by
  obtain ⟨hcode, hup, -⟩ := stop_eq_none.mp hp.stop
  refine ⟨hcode, ⟨hp.toOccurs.body.1, hup⟩, hp.toOccurs.body.2, fun hcode' hn => ?_⟩
  have hnext := occurs_pass hp.toOccurs hcode'
  have hrank := (advanced_pass ⟨hp.placed, hp.poised⟩ hcode').2 hn
  have hle := (reader env).rank_le p
  generalize (p.pass env b src).parser = q at hnext hrank
  by_contra hstuck
  rw [not_or, not_not, Nat.not_lt, Nat.le_zero] at hstuck
  have hlower := (advanced_pass ⟨hnext.placed, hnext.poised⟩ hstuck.1).2 hstuck.2
  change p.rank ≤ 1 at hle
  omega

theorem reading_pass (hp : p.Reading) (hcode : (p.pass env b src).parser.code = .none)
    (hup : (p.pass env b src).parser.state ≠ .upgrade)
    (hpaused : (p.pass env b src).parser.paused = false) : (p.pass env b src).parser.Reading :=
  ⟨occurs_pass hp.toOccurs hcode, stop_eq_none.mpr ⟨hcode, hup, hpaused⟩⟩

theorem iteration_of_paused (k : ℕ) (src : Bytes) (h : p.paused = true) :
    p.iteration env k src = none := by
  match k, src with
  | _, [] => simp [iteration]
  | 0, _ :: _ => simp [iteration, h]
  | _ + 1, _ :: _ => simp [iteration, h]

theorem progresses_iteration {k : ℕ} {q : Parser} {c : UInt8} {rest : Bytes} (hp : p.Reading)
    (h : p.iteration env k src = some (q, c, rest)) : q.Progresses env c rest := by
  induction k generalizing p src with
  | zero =>
    match src with
    | [] => simp [iteration] at h
    | b :: src =>
      simp only [iteration, Option.ite_none_left_eq_some, Option.some.injEq, Prod.mk.injEq] at h
      obtain ⟨-, rfl, -⟩ := h
      exact hp.progresses
  | succ k ih =>
    match src with
    | [] => simp [iteration] at h
    | b :: src =>
      simp only [iteration, Option.ite_none_left_eq_some, not_or, not_not] at h
      obtain ⟨⟨-, hcode, hup⟩, h⟩ := h
      cases hpaused : (p.pass env b src).parser.paused with
      | true =>
        rw [iteration_of_paused k _ hpaused] at h
        cases h
      | false => exact ih (reading_pass hp hcode hup hpaused) h

/-- The loop ends before it runs out of fuel. -/
theorem loop_ends {m n : ℕ} (hp : p.Reading) (hm : (reader env).todo p src.length ≤ m)
    (hn : (reader env).todo p src.length ≤ n) :
    p.iteration env m src = none ∧ p.loop env m src = p.loop env n src := by
  induction m generalizing p src n with
  | zero =>
    match src with
    | [] => cases n <;> exact ⟨by simp [iteration], rfl⟩
    | b :: src => simp [Reader.todo_cons] at hm
  | succ m ih =>
    match src, n with
    | [], 0 | [], n + 1 => exact ⟨by simp [iteration], rfl⟩
    | b :: src, 0 => simp [Reader.todo_cons] at hn
    | b :: src, n + 1 =>
      simp only [iteration, loop, (stop_eq_none.mp hp.stop).2.2, Bool.false_eq_true, false_or,
        if_false]
      by_cases hcode : (p.pass env b src).parser.code = .none
      · by_cases hup : (p.pass env b src).parser.state = .upgrade
        · simp only [hup, or_true, if_true, and_self]
        · simp only [hcode, hup, ne_eq, not_true_eq_false, or_self, if_false]
          cases hpaused : (p.pass env b src).parser.paused with
          | true =>
            exact ⟨iteration_of_paused m _ hpaused,
              by rw [loop_of_paused _ _ hpaused, loop_of_paused _ _ hpaused]⟩
          | false =>
            have hread := reading_pass hp hcode hup hpaused
            have hlt := (reader env).todo_lt hp
              (show ((reader env).pass p (b :: src)).stop = none from hread.stop)
            obtain ⟨hnone, hloop⟩ := ih hread (Nat.le_of_lt_succ (hlt.trans_le hm))
              (Nat.le_of_lt_succ (hlt.trans_le hn))
            exact ⟨hnone, congrArg _ hloop⟩
      · simp only [hcode, ne_eq, not_false_eq_true, true_or, if_true, and_self]

/-- A call that returns `CodeNone` and has not paused has taken everything. -/
theorem parseAll_consumes (hp : p.Reading) (hcode : (p.parseAll env src).code = .none)
    (hpaused : (p.parseAll env src).parser.paused = false) :
    (p.parseAll env src).n = src.length := by
  have hshows : (p.parseAll env src).Shows _ := parseAll_shows hp.stop
  have hstop : ((reader env).run p src).stop = _ := loop_stop (2 * src.length) src hp.stop
  rw [hshows.code] at hcode
  rw [hshows.parser] at hpaused
  rw [hshows.n]
  refine ((reader env).run_goes_on hp ?_).2
  change _ = ((reader env).run p src).state.stop at hstop
  rw [hstop] at hcode ⊢
  unfold stop at hcode ⊢
  split_ifs at hcode ⊢ with h1 h2 h3
  · exact absurd hcode h1
  · cases hcode
  · rw [hpaused] at h3
    cases h3
  · rfl

end Parser

/-- **The loop ends and makes progress.** From any state that a parser can be in, over any octets:
a call that returns `CodeNone` and does not pause has taken all of them. The loop ends within twice
as many iterations as there are octets. No iteration takes the branch for unexpected states or finds
a body without octets left, and no two iterations in a row take nothing without failing. -/
theorem parse_progresses (env : Env) (kind : Kind) (limits : Limits) (is : List Input) (src : Bytes)
    (pauseAfterMessage : Bool) :
    let p := (newParser kind limits).after env is
    let r := p.runParse env src pauseAfterMessage
    let q := { p with pauseAfterMessage, paused := false }
    (p.code = .none →
      p.state ≠ .dead ∧ (p.state = .fixedBody ∨ p.state = .chunkBody → 0 < p.remaining)) ∧
    (r.code = .none → r.parser.paused = false → r.n = src.length) ∧
    (p.code = .none → p.state ≠ .upgrade →
      (∀ k, 2 * src.length ≤ k → q.iteration env k src = none ∧
        q.loop env k src = q.loop env (2 * src.length) src) ∧
      ∀ k t b rest, q.iteration env k src = some (t, b, rest) → t.Progresses env b rest) := by
  intro p r q
  have hoccurs : p.code = .none → p.Occurs := occurs_run env kind limits is
  have hreading : p.code = .none → p.state ≠ .upgrade → q.Reading := fun hcode hup =>
    ⟨Parser.occurs_flags (p := p) (hoccurs hcode), Parser.stop_eq_none.mpr ⟨hcode, hup, rfl⟩⟩
  refine ⟨fun hcode => (hoccurs hcode).body, fun hcode hpaused => ?_, fun hcode hup => ⟨?_, ?_⟩⟩
  · have hstarted : p.code = .none ∧ p.state ≠ .upgrade := by
      simp only [r, Parser.runParse, Parser.parseAll] at hcode
      split_ifs at hcode with h1 h2
      · exact absurd hcode h1
      · exact ⟨not_not.mp h1, h2⟩
    exact Parser.parseAll_consumes (hreading hstarted.1 hstarted.2) hcode hpaused
  · intro k hk
    have hq := hreading hcode hup
    have hle : (Parser.reader env).todo q src.length ≤ 2 * src.length := Reader.todo_le _ _ _
    exact Parser.loop_ends hq (hle.trans hk) hle
  · intro k t b rest h
    exact Parser.progresses_iteration (hreading hcode hup) h

end WagoHttp.Http1
