import WagoHttp.Http1.Grammar

/-!
# The callbacks of the parser follow the grammar

The state of the parser determines the stage of the grammar (`Parser.Placed`). One pass of the loop
keeps the two together, and so does a whole run.
-/

namespace WagoHttp.Http1

open List

/-! ## Attempts -/

/-- An attempt fails with a code, or its result has a property. -/
def Yields (r : Except Parser Parser) (P : Parser → Prop) : Prop :=
  match r with
  | .error q => q.code ≠ .none
  | .ok q => P q

namespace Yields

variable {r : Except Parser Parser} {P Q : Parser → Prop}

theorem mono (h : Yields r P) (hPQ : ∀ q, P q → Q q) : Yields r Q := by
  cases r with
  | error q => exact h
  | ok q => exact hPQ q h

theorem bind {f : Parser → Except Parser Parser} (h : Yields r P)
    (hf : ∀ q, P q → Yields (f q) Q) : Yields (r >>= f) Q := by
  cases r with
  | error q => exact h
  | ok q => exact hf q h

end Yields

namespace Parser

variable {p q : Parser} {code : Code} {b : UInt8} {src : Bytes} {env : Env}

theorem code_fail (hc : code ≠ .none) : (p.fail code).code ≠ .none := by
  unfold fail
  split
  · exact hc
  · assumption

theorem yields_accept {ok : Bool} (hc : code ≠ .none) :
    Yields (p.accept ok code) fun q => q = p ∧ ok := by
  unfold accept
  split
  · exact ⟨rfl, ‹_›⟩
  · exact code_fail hc

theorem yields_takeStartByte :
    Yields p.takeStartByte fun q => q = { p with startBytes := p.startBytes + 1 } := by
  unfold takeStartByte
  split
  · exact code_fail (by decide)
  · exact rfl

theorem yields_takePrefixByte :
    Yields p.takePrefixByte fun q => q = { p with prefixBytes := p.prefixBytes + 1 } := by
  unfold takePrefixByte
  split
  · exact code_fail (by decide)
  · exact rfl

theorem yields_takeHeaderByte :
    Yields p.takeHeaderByte fun q => q = { p with headerBytes := p.headerBytes + 1 } := by
  unfold takeHeaderByte
  split
  · exact code_fail (by decide)
  · exact rfl

theorem yields_takeChunkLineByte :
    Yields p.takeChunkLineByte fun q =>
      q = { p with
        chunkLineBytes := p.chunkLineBytes + 1
        chunkMetadataBytes := p.chunkMetadataBytes + 1 } := by
  unfold takeChunkLineByte
  split_ifs
  · exact code_fail (by decide)
  · exact code_fail (by decide)
  · exact rfl

theorem yields_addBody {n : ℕ} :
    Yields (p.addBody n) fun q => q = { p with bodyBytes := p.bodyBytes + n } := by
  unfold addBody
  split
  · exact code_fail (by decide)
  · exact rfl

/-- Taking octets keeps what one step keeps, and brings about what one step brings about. -/
theorem yields_scan {more : Parser → UInt8 → Bool} {step : Parser → UInt8 → Except Parser Parser}
    {I J : Parser → Prop}
    (hstep : ∀ q b, I q → more q b = true → Yields (step q b) fun q' => I q' ∧ J q')
    (src : Bytes) (h : I p) :
    Yields (p.scan more step src).1 fun q =>
      I q ∧ ((p.scan more step src).2 = 0 ∧ q = p ∨ (p.scan more step src).2 ≠ 0 ∧ J q) := by
  suffices h' : ∀ src p, I p → Yields (p.scan more step src).1 fun q =>
      I q ∧ ((p.scan more step src).2 = 0 ∧ q = p ∨ (p.scan more step src).2 ≠ 0 ∧ J q) from
    h' src p h
  intro src
  induction src with
  | nil => intro p hp; exact ⟨hp, .inl ⟨rfl, rfl⟩⟩
  | cons b src ih =>
    intro p hp
    unfold scan
    split
    · have hb := hstep p b hp ‹_›
      cases hr : step p b with
      | error q => rw [hr] at hb; exact hb
      | ok q =>
        rw [hr] at hb
        refine (ih q hb.1).mono fun q' hq' => ⟨hq'.1, .inr ⟨Nat.succ_ne_zero _, ?_⟩⟩
        obtain ⟨-, rfl⟩ | ⟨-, hJ⟩ := hq'.2
        · exact hb.2
        · exact hJ
    · exact ⟨hp, .inl ⟨rfl, rfl⟩⟩

/-! ## The stage of a parser -/

/-- No header field has been read. -/
def Fresh (p : Parser) : Prop :=
  p.bodyBytes = 0 ∧ p.trailers = false ∧ (p.hasContentLength = false ∧ p.remaining = 0) ∧
    p.hasTransferEncoding = false

/-- The last snapshot `m`, of the start line or, in the trailers, of the header section, is still
true of the parser. -/
def InHeader (p : Parser) (m : Message) : Prop :=
  if p.trailers then m.SameHead p.message ∧ p.hasContentLength = false
  else m.SameLine p.message ∧ p.bodyBytes = 0 ∧
    (p.hasContentLength = false ∧ p.remaining = 0 ∨
      p.hasContentLength = true ∧ p.hasTransferEncoding = false)

/-- A Content-Length is recorded before its value is read. -/
def Declared (p : Parser) : Prop :=
  p.fieldName.field = .contentLength → p.hasContentLength = true

/-- The stage that belongs to the state of a parser. -/
def Placed (p : Parser) (s : Stage) : Prop :=
  match p.state with
  | .start | .leadingLF | .upgrade => s = .idle
  | .reqMethod =>
    p.kind = .request ∧ p.Fresh ∧ p.destination.targetBytes = 0 ∧
      s = if p.methodScan.methodPos = 0 then .begun else .methods
  | .reqTarget =>
    p.kind = .request ∧ p.Fresh ∧ s = if p.destination.targetBytes = 0 then .methods else .targets
  | .reqHTTP | .reqLineCR | .reqLineLF => p.kind = .request ∧ p.Fresh ∧ s = .targets
  | .versionMajor | .versionDot | .versionMinor =>
    p.Fresh ∧ (p.kind = .request ∧ s = .targets ∨ p.kind = .response ∧ s = .begun)
  | .resHTTP | .resSpaceBeforeStatus | .resStatus | .resReasonStart | .resReason | .resLineLF =>
    p.kind = .response ∧ p.Fresh ∧ s = .begun
  | .headerStart | .headersLF => ∃ m, p.InHeader m ∧ s = .fields p.trailers m
  | .headerName =>
    ∃ m, p.InHeader m ∧
      s = if p.fieldName.headerNameBytes = 0 then .fields p.trailers m else .named p.trailers m
  | .headerValueStart | .headerValue =>
    p.Declared ∧ ∃ m, p.InHeader m ∧ (s = .named p.trailers m ∨ s = .valued p.trailers m)
  | .headerValueLF => ∃ m, p.InHeader m ∧ (s = .named p.trailers m ∨ s = .valued p.trailers m)
  | .fixedBody =>
    ∃ m, m.SameHead p.message ∧ p.hasContentLength = true ∧ 0 < p.remaining ∧
      (s = .content m ∧ p.remaining = m.contentLength ∨ s = .counted m p.remaining)
  | .closeBody =>
    ∃ m, m.SameHead p.message ∧ (p.hasContentLength = false ∧ p.remaining = 0) ∧
      (s = .content m ∨ s = .untilClose m)
  | .chunkSizeStart | .chunkSize | .chunkExt | .chunkSizeLF =>
    ∃ m, m.SameHead p.message ∧ p.hasContentLength = false ∧ (s = .content m ∨ s = .chunks m)
  | .chunkBody =>
    ∃ m, m.SameHead p.message ∧ p.hasContentLength = false ∧ 0 < p.remaining ∧
      s = .chunk m p.remaining
  | .chunkBodyCR | .chunkBodyLF =>
    ∃ m, m.SameHead p.message ∧ p.hasContentLength = false ∧ s = .chunk m 0
  | .dead => False

/-- A parser and the progress of its callbacks. -/
structure Tracks (kind : Kind) (p : Parser) (g : Progress) : Prop where
  kind : p.kind = kind
  messages : g.messages = p.messageNum
  exchanges : g.exchanges = p.exchangeNum
  stage : p.Placed g.stage

/-- The callbacks of a pass follow the grammar, and end where the parser stands. -/
def Reported (kind : Kind) (asks : Bool) (g : Progress) (w : Pass) : Prop :=
  ∃ g', Reports kind asks g w.calls g' ∧ (w.parser.code = .none → Tracks kind w.parser g')

/-- The callbacks of a pass of the parser, at the stage `s`. -/
abbrev Tells (p : Parser) (asks : Bool) (s : Stage) (w : Pass) : Prop :=
  Reported p.kind asks ⟨p.messageNum, p.exchangeNum, s⟩ w

section Rules

variable {kind : Kind} {asks : Bool} {g g' : Progress} {w : Pass}
  {r : Except Parser Parser} {P : Parser → Prop}

theorem reported_halt (hc : code ≠ .none) : Reported kind asks g (p.halt code) :=
  ⟨g, .nil, fun h => absurd h (code_fail hc)⟩

theorem reported_silent (h : Tracks kind p g) : Reported kind asks g { parser := p } :=
  ⟨g, .nil, fun _ => h⟩

theorem Reported.after {n : ℕ} {calls : List Call} (h : Reports kind asks g calls g')
    (hw : Reported kind asks g' w) : Reported kind asks g (w.after n calls) := by
  obtain ⟨g'', hr, ht⟩ := hw
  exact ⟨g'', h.append hr, ht⟩

variable {next : Parser → Pass} {take : Parser → Except Parser Parser}

theorem reported_attempt (h : Yields r P) (hn : ∀ q, P q → Reported kind asks g (next q)) :
    Reported kind asks g (attempt r next) := by
  cases r with
  | error q => exact ⟨g, .nil, fun hq => absurd hq h⟩
  | ok q => exact hn q h

theorem reported_expect {fits : Bool} (hc : fits = false → code ≠ .none) (h : Yields (take p) P)
    (hn : fits = true → ∀ q, P q → Reported kind asks g (next q)) :
    Reported kind asks g (p.expect fits code take next) := by
  unfold expect
  split
  · exact reported_attempt h fun q hq => (hn ‹_› q hq).after .nil
  · exact reported_halt (hc (Bool.eq_false_iff.mpr ‹_›))

/-- A pass over one octet, whatever it is. -/
theorem reported_take (h : Yields (take p) P) (hn : ∀ q, P q → Reported kind asks g (next q)) :
    Reported kind asks g (p.expect true code take next) :=
  reported_attempt h fun q hq => (hn q hq).after .nil

theorem reported_scanning {more : Parser → UInt8 → Bool}
    {step : Parser → UInt8 → Except Parser Parser} {report : Bytes → List Call}
    {finish : Parser → Option UInt8 → Pass} {I J : Parser → Prop}
    (hstep : ∀ q b, I q → Yields (step q b) fun q' => I q' ∧ J q') (h : I p)
    (h0 : ∀ o, Reported kind asks g (finish p o))
    (hn : ∀ q span, I q → J q → ∃ g', Reports kind asks g (report span) g' ∧
      ∀ o, Reported kind asks g' (finish q o)) :
    Reported kind asks g (p.scanning src more step report finish) := by
  have hscan : Yields (p.scan more step src).1 _ :=
    yields_scan (fun q b hq _ => hstep q b hq) src h
  unfold scanning
  generalize p.scan more step src = w at hscan
  obtain ⟨_ | q, n⟩ := w
  · exact ⟨g, .nil, fun hq => absurd hq hscan⟩
  · obtain ⟨hI, ⟨h', rfl⟩ | ⟨hne, hJ⟩⟩ := hscan
    · simp only at h'
      subst h'
      exact (h0 _).after .nil
    · obtain ⟨g', hr, hf⟩ := hn q (src.take n) hI hJ
      simp only [if_neg hne]
      exact (hf _).after hr

end Rules

/-! ## Start lines -/

section Passes

variable {asks : Bool} {s : Stage}

/-- Where a parser stands while its callbacks have come to a stage. -/
theorem tracks_of (h : p.Placed s) : Tracks p.kind p ⟨p.messageNum, p.exchangeNum, s⟩ :=
  ⟨rfl, rfl, rfl, h⟩

/-- Beginning a message. A parser with a context to ask for asks first. -/
theorem reported_beginMessage (hk : p.kind ≠ .other) : p.Tells env.responseContext.isSome .idle
      { p.beginMessage env with
        parser :=
          { (p.beginMessage env).parser with
            state := if (p.beginMessage env).parser.kind = .request then .reqMethod
              else .resHTTP } } := by
  unfold Tells beginMessage askContext
  cases hkind : p.kind with
  | other => exact absurd hkind hk
  | request =>
    refine ⟨⟨_, _, .begun⟩, .single (.begin (by simp)), fun _ => ⟨hkind, rfl, rfl, ?_⟩⟩
    simp [Placed, resetMessage, hkind, Fresh]
  | response =>
    cases hctx : env.responseContext with
    | none =>
      refine ⟨⟨_, _, .begun⟩, .single (.begin (by simp)), fun _ => ⟨hkind, rfl, rfl, ?_⟩⟩
      simp [Placed, resetMessage, hkind, Fresh]
    | some answer =>
      refine ⟨⟨_, _, .begun⟩, .cons (.ask (by simp)) (.single .beginAsked),
        fun _ => ⟨rfl, rfl, rfl, ?_⟩⟩
      simp [Placed, resetMessage, Fresh]

theorem reported_start (hs : p.state = .start) (hk : p.kind ≠ .other) (hp : p.Placed s) :
    p.Tells env.responseContext.isSome s (p.pass env b src) := by
  simp only [Placed, hs] at hp
  subst hp
  simp only [pass, hs, passStart]
  split
  · refine reported_take yields_takePrefixByte ?_
    rintro _ rfl
    exact reported_silent ⟨rfl, rfl, rfl, rfl⟩
  · exact reported_beginMessage hk

theorem reported_leadingLF (hs : p.state = .leadingLF) (hp : p.Placed s) :
    p.Tells asks s (p.pass env b src) := by
  simp only [Placed, hs] at hp
  subst hp
  simp only [pass, hs]
  refine reported_expect (fun _ => by decide) yields_takePrefixByte fun _ => ?_
  rintro _ rfl
  exact reported_silent ⟨rfl, rfl, rfl, rfl⟩

variable {p₀ : Parser} {m : Message} {n : ℕ}

theorem yields_stepMethod (q : Parser) (b : UInt8)
    (h : ∃ n s, q = { p₀ with startBytes := n, methodScan := s }) :
    Yields (q.stepMethod b) fun q' =>
      (∃ n s, q' = { p₀ with startBytes := n, methodScan := s }) ∧
        q'.methodScan.methodPos ≠ 0 := by
  obtain ⟨n, s, rfl⟩ := h
  refine yields_takeStartByte.bind ?_
  rintro _ rfl
  refine ⟨⟨_, _, rfl⟩, ?_⟩
  change advance s.methodPos ≠ 0
  unfold advance
  split <;> omega

theorem reported_finishReqMethod (hs : p.state = .reqMethod) (hp : p.Placed s) (o : Option UInt8) :
    p.Tells asks s (p.finishReqMethod o) := by
  cases o with
  | none => exact reported_silent (tracks_of hp)
  | some b =>
    simp only [Placed, hs] at hp
    obtain ⟨hreq, hfresh, ht, hst⟩ := hp
    simp only [finishReqMethod]
    split_ifs with h0
    · exact reported_halt (by decide)
    · exact reported_halt (by decide)
    · refine reported_take yields_takeStartByte ?_
      rintro _ rfl
      rw [if_neg h0] at hst
      exact reported_silent ⟨rfl, rfl, rfl, hreq, hfresh, hst.trans (if_pos ht).symm⟩

theorem reported_reqMethod (hs : p.state = .reqMethod) (hp : p.Placed s) :
    p.Tells asks s (p.pass env b src) := by
  simp only [pass, hs]
  refine reported_scanning yields_stepMethod ⟨_, _, rfl⟩ (reported_finishReqMethod hs hp) ?_
  rintro _ span ⟨n, s', rfl⟩ hpos
  simp only [Placed, hs] at hp
  obtain ⟨hreq, hfresh, ht, rfl⟩ := hp
  refine ⟨⟨p.messageNum, p.exchangeNum, .methods⟩, .single (.method hreq ?_), fun o => ?_⟩
  · split <;> simp
  · refine reported_finishReqMethod (p := { p with startBytes := n, methodScan := s' }) hs ?_ o
    simp only [Placed, hs]
    exact ⟨hreq, hfresh, ht, (if_neg hpos).symm⟩

theorem yields_stepTarget (q : Parser) (b : UInt8)
    (h : ∃ n d, q = { p₀ with startBytes := n, destination := d }) :
    Yields (q.stepTarget env b) fun q' =>
      (∃ n d, q' = { p₀ with startBytes := n, destination := d }) ∧
        q'.destination.targetBytes ≠ 0 := by
  obtain ⟨n, d, rfl⟩ := h
  refine (yields_accept (by decide)).bind ?_
  rintro _ ⟨rfl, -⟩
  refine (yields_accept (by decide)).bind ?_
  rintro _ ⟨rfl, -⟩
  refine yields_takeStartByte.bind ?_
  rintro _ rfl
  exact ⟨⟨_, _, rfl⟩, Nat.succ_ne_zero _⟩

theorem reported_finishReqTarget (hs : p.state = .reqTarget) (hp : p.Placed s) (o : Option UInt8) :
    p.Tells asks s (p.finishReqTarget o) := by
  cases o with
  | none => exact reported_silent (tracks_of hp)
  | some b =>
    simp only [Placed, hs] at hp
    obtain ⟨hreq, hfresh, hst⟩ := hp
    refine reported_expect (fun _ => by decide) yields_takeStartByte fun hf => ?_
    rintro _ rfl
    have ht : p.destination.targetBytes ≠ 0 := by
      intro h0
      simp [Destination.finishTarget, h0] at hf
    exact reported_silent ⟨rfl, rfl, rfl, hreq, hfresh, hst.trans (if_neg ht)⟩

theorem reported_reqTarget (hs : p.state = .reqTarget) (hp : p.Placed s) :
    p.Tells asks s (p.pass env b src) := by
  simp only [pass, hs]
  refine reported_scanning yields_stepTarget ⟨_, _, rfl⟩ (reported_finishReqTarget hs hp) ?_
  rintro _ span ⟨n, d, rfl⟩ hbytes
  simp only [Placed, hs] at hp
  obtain ⟨hreq, hfresh, rfl⟩ := hp
  refine ⟨⟨p.messageNum, p.exchangeNum, .targets⟩, .single (.target ?_), fun o => ?_⟩
  · split <;> simp
  · refine reported_finishReqTarget (p := { p with startBytes := n, destination := d }) hs ?_ o
    simp only [Placed, hs]
    exact ⟨hreq, hfresh, (if_neg hbytes).symm⟩

theorem yields_stepLiteral (q : Parser) (b : UInt8)
    (h : ∃ n k, q = { p₀ with startBytes := n, literalPos := k }) :
    Yields (q.stepLiteral b) fun q' =>
      (∃ n k, q' = { p₀ with startBytes := n, literalPos := k }) ∧ True := by
  obtain ⟨n, k, rfl⟩ := h
  refine (yields_accept (by decide)).bind ?_
  rintro _ ⟨rfl, -⟩
  refine yields_takeStartByte.bind ?_
  rintro _ rfl
  exact ⟨⟨_, _, rfl⟩, trivial⟩

/-- What a pass over part of a start line that makes no callback has to show. -/
theorem reported_literal (hs : p.state = .reqHTTP ∨ p.state = .resHTTP) (hp : p.Placed s) :
    p.Tells asks s (p.pass env b src) := by
  have hfinish : ∀ n k, p.Tells asks s
      { p with startBytes := n, literalPos := k }.finishLiteral := by
    intro n k
    unfold finishLiteral
    rcases hs with hs | hs
    all_goals
      simp only [Placed, hs] at hp
      obtain ⟨hkind, hfresh, rfl⟩ := hp
      split
    · exact reported_silent ⟨rfl, rfl, rfl, hfresh, .inl ⟨hkind, rfl⟩⟩
    · exact reported_silent ⟨rfl, rfl, rfl, by simp only [Placed, hs]; exact ⟨hkind, hfresh, trivial⟩⟩
    · exact reported_silent ⟨rfl, rfl, rfl, hfresh, .inr ⟨hkind, rfl⟩⟩
    · exact reported_silent ⟨rfl, rfl, rfl, by simp only [Placed, hs]; exact ⟨hkind, hfresh, trivial⟩⟩
  have hpass : p.Tells asks s
      (p.scanning (b :: src) (fun p _ => p.literalPos < 5) stepLiteral (fun _ => [])
        fun p _ => p.finishLiteral) := by
    refine reported_scanning yields_stepLiteral ⟨_, _, rfl⟩ (fun _ => hfinish _ _) ?_
    rintro _ span ⟨n, k, rfl⟩ -
    exact ⟨_, .nil, fun _ => hfinish n k⟩
  rcases hs with hs | hs
  all_goals
    simp only [pass, hs]
    exact hpass

theorem reported_version
    (hs : p.state = .versionMajor ∨ p.state = .versionDot ∨ p.state = .versionMinor)
    (hp : p.Placed s) : p.Tells asks s (p.pass env b src) := by
  have hp' : p.Fresh ∧ (p.kind = .request ∧ s = .targets ∨ p.kind = .response ∧ s = .begun) := by
    rcases hs with hs | hs | hs <;> simpa only [Placed, hs] using hp
  rcases hs with hs | hs | hs
  all_goals
    simp only [pass, hs]
    refine reported_expect (fun _ => by decide) yields_takeStartByte fun _ => ?_
    rintro _ rfl
  · exact reported_silent ⟨rfl, rfl, rfl, hp'⟩
  · exact reported_silent ⟨rfl, rfl, rfl, hp'⟩
  · refine reported_silent ⟨rfl, rfl, rfl, ?_⟩
    obtain ⟨hfresh, ⟨hk, rfl⟩ | ⟨hk, rfl⟩⟩ := hp'
    · simp only [Placed, hk, if_true]
      exact ⟨trivial, hfresh, trivial⟩
    · simp only [Placed, hk, reduceCtorEq, if_false]
      exact ⟨trivial, hfresh, trivial⟩

theorem reported_reqLineCR (hs : p.state = .reqLineCR) (hp : p.Placed s) :
    p.Tells asks s (p.pass env b src) := by
  simp only [Placed, hs] at hp
  simp only [pass, hs]
  split
  · exact reported_halt (by decide)
  · refine reported_expect (fun _ => by decide) yields_takeStartByte fun _ => ?_
    rintro _ rfl
    exact reported_silent ⟨rfl, rfl, rfl, hp⟩

/-- The snapshot of a start line is true of the parser that makes it. -/
theorem reported_startLineComplete (hfresh : p.Fresh)
    (hp : p.kind = .request ∧ s = .targets ∨ p.kind = .response ∧ s = .begun) :
    p.Tells asks s p.startLineComplete := by
  obtain ⟨hb, ht, hl, he⟩ := hfresh
  refine ⟨⟨_, _, .fields false p.message⟩, .single (.startLine hp ⟨rfl, rfl⟩),
    fun _ => ⟨rfl, rfl, rfl, p.message, ?_, by simp [startLineComplete, ht]⟩⟩
  simp only [InHeader, startLineComplete, ht]
  exact ⟨⟨rfl, rfl, rfl, rfl, rfl, rfl⟩, hb, .inl hl⟩

theorem reported_lineLF (hs : p.state = .reqLineLF ∨ p.state = .resLineLF) (hp : p.Placed s) :
    p.Tells asks s (p.pass env b src) := by
  have hp' : p.Fresh ∧ (p.kind = .request ∧ s = .targets ∨ p.kind = .response ∧ s = .begun) := by
    rcases hs with hs | hs
    all_goals
      simp only [Placed, hs] at hp
      obtain ⟨hk, hfresh, hst⟩ := hp
      simp [hk, hfresh, hst]
  have hpass : p.Tells asks s
      (p.expect (b == octet '\n') .invalidLineEnding takeStartByte startLineComplete) := by
    refine reported_expect (fun _ => by decide) yields_takeStartByte fun _ => ?_
    rintro _ rfl
    exact reported_startLineComplete (p := { p with startBytes := p.startBytes + 1 }) hp'.1 hp'.2
  rcases hs with hs | hs
  all_goals
    simp only [pass, hs]
    exact hpass

theorem yields_stepStatus (q : Parser) (b : UInt8)
    (h : ∃ n v d, q = { p₀ with startBytes := n, status := v, statusDigits := d }) :
    Yields (q.stepStatus b) fun q' =>
      (∃ n v d, q' = { p₀ with startBytes := n, status := v, statusDigits := d }) ∧ True := by
  obtain ⟨n, v, d, rfl⟩ := h
  refine (yields_accept (by decide)).bind ?_
  rintro _ ⟨rfl, -⟩
  refine yields_takeStartByte.bind ?_
  rintro _ rfl
  exact ⟨⟨_, _, _, rfl⟩, trivial⟩

theorem reported_resStatus (hs : p.state = .resStatus) (hp : p.Placed s) :
    p.Tells asks s (p.pass env b src) := by
  simp only [Placed, hs] at hp
  have hfinish : ∀ n v d, p.Tells asks s
      { p with startBytes := n, status := v, statusDigits := d }.finishStatus := by
    intro n v d
    unfold finishStatus
    split_ifs
    · exact reported_halt (by decide)
    · exact reported_silent ⟨rfl, rfl, rfl, hp⟩
    · exact reported_silent ⟨rfl, rfl, rfl, by simp only [Placed, hs]; exact hp⟩
  simp only [pass, hs]
  refine reported_scanning yields_stepStatus ⟨_, _, _, rfl⟩ (fun _ => hfinish _ _ _) ?_
  rintro _ span ⟨n, v, d, rfl⟩ -
  exact ⟨_, .nil, fun _ => hfinish n v d⟩

theorem yields_stepReason (q : Parser) (b : UInt8) (h : ∃ n, q = { p₀ with startBytes := n }) :
    Yields (q.stepReason b) fun q' => (∃ n, q' = { p₀ with startBytes := n }) ∧ True := by
  obtain ⟨n, rfl⟩ := h
  refine (yields_accept (by decide)).bind ?_
  rintro _ ⟨rfl, -⟩
  refine yields_takeStartByte.mono ?_
  rintro _ rfl
  exact ⟨⟨_, rfl⟩, trivial⟩

theorem reported_resReason (hs : p.state = .resReason) (hp : p.Placed s) :
    p.Tells asks s (p.pass env b src) := by
  simp only [Placed, hs] at hp
  have hfinish : ∀ n o, p.Tells asks s
      ({ p with startBytes := n }.finishReason o) := by
    intro n o
    cases o with
    | none => exact reported_silent ⟨rfl, rfl, rfl, by simp only [Placed, hs]; exact hp⟩
    | some b =>
      refine reported_take yields_takeStartByte ?_
      rintro _ rfl
      exact reported_silent ⟨rfl, rfl, rfl, hp⟩
  simp only [pass, hs]
  refine reported_scanning yields_stepReason ⟨_, rfl⟩ (hfinish _) ?_
  rintro _ span ⟨n, rfl⟩ -
  obtain ⟨hres, hfresh, rfl⟩ := hp
  exact ⟨_, .single (.reason hres), hfinish n⟩

theorem reported_resSpace (hs : p.state = .resSpaceBeforeStatus ∨ p.state = .resReasonStart)
    (hp : p.Placed s) : p.Tells asks s (p.pass env b src) := by
  have hp' : p.kind = .response ∧ p.Fresh ∧ s = .begun := by
    rcases hs with hs | hs <;> simpa only [Placed, hs] using hp
  rcases hs with hs | hs
  all_goals
    simp only [pass, hs]
    refine reported_expect (fun _ => by decide) yields_takeStartByte fun _ => ?_
    rintro _ rfl
    exact reported_silent ⟨rfl, rfl, rfl, hp'⟩

/-! ## Header sections -/

/-- Without a Content-Length a snapshot does not depend on what is counted. -/
theorem sameHead_iff (hl : p.hasContentLength = false) :
    m.SameHead p.message ↔
      m.SameLine p.message ∧ m.contentLength = 0 ∧ m.hasContentLength = false := by
  have hc : p.message.contentLength = 0 := by simp [message, hl]
  have hh : p.message.hasContentLength = false := hl
  rw [Message.SameHead, hc, hh, eq_comm, @eq_comm _ false]

/-- `q` comes from `p` within the same header section. -/
structure Keeps (p q : Parser) : Prop where
  state : q.state = p.state
  kind : q.kind = p.kind
  messageNum : q.messageNum = p.messageNum
  exchangeNum : q.exchangeNum = p.exchangeNum
  trailers : q.trailers = p.trailers
  inHeader : ∀ m, p.InHeader m → q.InHeader m
  declared : p.Declared → q.Declared

theorem Keeps.refl (p : Parser) : p.Keeps p := ⟨rfl, rfl, rfl, rfl, rfl, fun _ h => h, id⟩

theorem Keeps.trans {r : Parser} (h : p.Keeps q) (h' : q.Keeps r) : p.Keeps r :=
  ⟨h'.state.trans h.state, h'.kind.trans h.kind, h'.messageNum.trans h.messageNum,
    h'.exchangeNum.trans h.exchangeNum, h'.trailers.trans h.trailers,
    fun m hm => h'.inHeader m (h.inHeader m hm), fun hd => h'.declared (h.declared hd)⟩

theorem inHeader_remaining {l : LengthScan} (hl : p.hasContentLength = true) (h : p.InHeader m) :
    { p with lengthScan := l, remaining := n }.InHeader m := by
  unfold InHeader at h ⊢
  split at h
  · exact absurd (hl.symm.trans h.2) (by decide)
  · rename_i ht
    rw [if_neg ht]
    exact ⟨h.1, h.2.1, h.2.2.imp_left fun hn => absurd (hl.symm.trans hn.1) (by decide)⟩

theorem keeps_takeHeaderByte : Yields p.takeHeaderByte p.Keeps := by
  refine yields_takeHeaderByte.mono ?_
  rintro _ rfl
  exact ⟨rfl, rfl, rfl, rfl, rfl, fun _ h => h, id⟩

theorem keeps_beginValue (h : p.trailers = true → p.fieldName.field = .other) :
    Yields p.beginValue fun q => p.Keeps q ∧ q.Declared := by
  have hother {f : FieldKind} (hf : p.fieldName.field = f) (hne : f ≠ .contentLength) :
      p.Declared := fun hc => absurd (hf.symm.trans hc) hne
  unfold beginValue
  split
  case h_1 hfield =>
    have ht : p.trailers = false := Bool.eq_false_iff.mpr fun ht => by simp [h ht] at hfield
    split_ifs with hl he
    · exact code_fail (by decide)
    · exact code_fail (by decide)
    · refine ⟨⟨rfl, rfl, rfl, rfl, rfl, fun m hm => ?_, fun _ _ => rfl⟩, fun _ => rfl⟩
      simp only [InHeader, ht] at hm ⊢
      exact ⟨hm.1, hm.2.1, .inr ⟨trivial, Bool.eq_false_iff.mpr he⟩⟩
  case h_2 hfield =>
    have ht : p.trailers = false := Bool.eq_false_iff.mpr fun ht => by simp [h ht] at hfield
    split_ifs with he hl
    · exact code_fail (by decide)
    · exact code_fail (by decide)
    · refine ⟨⟨rfl, rfl, rfl, rfl, rfl, fun m hm => ?_, id⟩, hother hfield (by decide)⟩
      simp only [InHeader, ht] at hm ⊢
      exact ⟨hm.1, hm.2.1, hm.2.2.imp_right fun hn => absurd hn.1 hl⟩
  case h_4 hfield =>
    split_ifs
    · exact code_fail (by decide)
    · exact ⟨⟨rfl, rfl, rfl, rfl, rfl, fun _ hm => hm, id⟩, hother hfield (by decide)⟩
  all_goals
    rename_i hfield
    exact ⟨⟨rfl, rfl, rfl, rfl, rfl, fun _ hm => hm, id⟩, hother hfield (by decide)⟩

theorem keeps_finishFieldName : Yields p.finishFieldName fun q => p.Keeps q ∧ q.Declared := by
  unfold finishFieldName
  simp only
  split_ifs with h
  · exact code_fail (by decide)
  · refine (keeps_beginValue fun ht => ?_).mono fun q hq =>
      ⟨⟨hq.1.state, hq.1.kind, hq.1.messageNum, hq.1.exchangeNum, hq.1.trailers,
        hq.1.inHeader, fun _ => hq.2⟩, hq.2⟩
    exact not_not.mp fun hne => h ⟨ht, hne⟩

theorem keeps_consumeFieldValue (hd : p.Declared) : Yields (p.consumeFieldValue env b) p.Keeps := by
  unfold consumeFieldValue
  split
  case h_1 hfield =>
    refine (yields_accept (by decide)).mono ?_
    rintro _ ⟨rfl, -⟩
    exact ⟨rfl, rfl, rfl, rfl, rfl, fun _ hm => inHeader_remaining (hd hfield) hm, id⟩
  case h_6 | h_7 => exact Keeps.refl p
  all_goals
    refine (yields_accept (by decide)).mono ?_
    rintro _ ⟨rfl, -⟩
    exact ⟨rfl, rfl, rfl, rfl, rfl, fun _ hm => hm, id⟩

theorem keeps_finishFieldValue : Yields p.finishFieldValue p.Keeps := by
  unfold finishFieldValue
  split
  case h_4 =>
    unfold accept
    split_ifs with hf
    · exact Keeps.refl p
    · exact code_fail fun h => hf (by simp [h])
  case h_6 | h_7 => exact Keeps.refl p
  all_goals
    refine (yields_accept (by decide)).mono ?_
    rintro _ ⟨rfl, -⟩
    exact ⟨rfl, rfl, rfl, rfl, rfl, fun _ hm => hm, id⟩

/-- A parser in a field stands where the parser it comes from stood. -/
theorem Keeps.tracks (h : p.Keeps q) (hq : q.Placed s) :
    Tracks p.kind q ⟨p.messageNum, p.exchangeNum, s⟩ :=
  ⟨h.kind, h.messageNum.symm, h.exchangeNum.symm, hq⟩

theorem yields_beginHeader :
    Yields p.beginHeader fun q =>
      q = { p with
        headerCount := p.headerCount + 1, fieldName := { fieldMask := FieldKind.known } } := by
  unfold beginHeader
  split
  · exact code_fail (by decide)
  · exact rfl

theorem reported_headerStart (hs : p.state = .headerStart) (hp : p.Placed s) :
    p.Tells asks s (p.pass env b src) := by
  simp only [Placed, hs] at hp
  simp only [pass, hs, passHeaderStart]
  split_ifs
  · refine reported_take yields_takeHeaderByte ?_
    rintro _ rfl
    exact reported_silent ⟨rfl, rfl, rfl, hp⟩
  · exact reported_halt (by decide)
  · refine reported_attempt yields_beginHeader ?_
    rintro _ rfl
    exact reported_silent ⟨rfl, rfl, rfl, hp⟩

theorem yields_stepHeaderName (q : Parser) (b : UInt8)
    (h : ∃ n f, q = { p₀ with headerBytes := n, fieldName := f }) :
    Yields (q.stepHeaderName b) fun q' =>
      (∃ n f, q' = { p₀ with headerBytes := n, fieldName := f }) ∧
        q'.fieldName.headerNameBytes ≠ 0 := by
  obtain ⟨n, f, rfl⟩ := h
  refine yields_takeHeaderByte.bind ?_
  rintro _ rfl
  refine (yields_accept (by decide)).bind ?_
  rintro _ ⟨rfl, -⟩
  exact ⟨⟨_, _, rfl⟩, Nat.succ_ne_zero _⟩

theorem reported_finishHeaderName (hs : p.state = .headerName) (hp : p.Placed s)
    (o : Option UInt8) : p.Tells asks s (p.finishHeaderName o) := by
  cases o with
  | none => exact reported_silent (tracks_of hp)
  | some b =>
    simp only [Placed, hs] at hp
    obtain ⟨m, hm, hst⟩ := hp
    refine reported_expect (fun _ => by decide) keeps_takeHeaderByte fun hf q hq => ?_
    have hne : p.fieldName.headerNameBytes ≠ 0 := by
      intro h0
      simp [h0] at hf
    rw [if_neg hne] at hst
    refine reported_attempt keeps_finishFieldName fun q' ⟨hq', hd⟩ => ?_
    have hk := hq.trans hq'
    refine reported_silent ⟨hk.kind, hk.messageNum.symm, hk.exchangeNum.symm, hd, m, ?_⟩
    exact ⟨hk.inHeader m hm, .inl (by rw [hst, ← hk.trailers])⟩

theorem reported_headerName (hs : p.state = .headerName) (hp : p.Placed s) :
    p.Tells asks s (p.pass env b src) := by
  simp only [pass, hs]
  refine reported_scanning yields_stepHeaderName ⟨_, _, rfl⟩ (reported_finishHeaderName hs hp) ?_
  rintro _ span ⟨n, f, rfl⟩ hne
  simp only [Placed, hs] at hp
  obtain ⟨m, hm, rfl⟩ := hp
  refine ⟨⟨p.messageNum, p.exchangeNum, .named p.trailers m⟩, .single (.name ?_), fun o => ?_⟩
  · split <;> simp
  · refine reported_finishHeaderName (p := { p with headerBytes := n, fieldName := f }) hs ?_ o
    simp only [Placed, hs]
    exact ⟨m, hm, (if_neg hne).symm⟩

theorem reported_headerValueStart (hs : p.state = .headerValueStart) (hp : p.Placed s) :
    p.Tells asks s (p.pass env b src) := by
  simp only [Placed, hs] at hp
  obtain ⟨hd, m, hm, hst⟩ := hp
  have hfinish : ∀ q o, p.Keeps q →
      p.Tells asks s (q.finishValueStart o) := by
    intro q o hq
    have hplaced : q.Declared ∧
        ∃ m, q.InHeader m ∧ (s = .named q.trailers m ∨ s = .valued q.trailers m) :=
      ⟨hq.declared hd, m, hq.inHeader m hm, by rwa [hq.trailers]⟩
    cases o with
    | none => exact reported_silent (hq.tracks (by simpa only [Placed, hq.state, hs] using hplaced))
    | some b =>
      exact reported_silent ⟨hq.kind, hq.messageNum.symm, hq.exchangeNum.symm, hplaced⟩
  simp only [pass, hs]
  refine reported_scanning (I := p.Keeps) (J := fun _ => True) ?_ (Keeps.refl p)
    (fun o => hfinish p o (Keeps.refl p)) fun q span hq _ => ⟨_, .nil, fun o => hfinish q o hq⟩
  exact fun q b hq => keeps_takeHeaderByte.mono fun q' hq' => ⟨hq.trans hq', trivial⟩

theorem keeps_stepHeaderValue (hd : p.Declared) : Yields (p.stepHeaderValue env b) p.Keeps := by
  refine (yields_accept (by decide)).bind ?_
  rintro _ ⟨rfl, -⟩
  refine keeps_takeHeaderByte.bind fun q hq => ?_
  exact (keeps_consumeFieldValue (hq.declared hd)).mono fun q' hq' => hq.trans hq'

theorem reported_headerValue (hs : p.state = .headerValue) (hp : p.Placed s) :
    p.Tells asks s (p.pass env b src) := by
  simp only [Placed, hs] at hp
  obtain ⟨hd, m, hm, hst⟩ := hp
  have hfinish : ∀ q s o, p.Keeps q → (s = .named p.trailers m ∨ s = .valued p.trailers m) →
      p.Tells asks s (q.finishHeaderValue o) := by
    intro q s o hq hst
    cases o with
    | none =>
      refine reported_silent (hq.tracks ?_)
      simp only [Placed, hq.state, hs, hq.trailers]
      exact ⟨hq.declared hd, m, hq.inHeader m hm, hst⟩
    | some b =>
      refine reported_attempt keeps_finishFieldValue fun q' hq' => ?_
      refine reported_take keeps_takeHeaderByte fun q'' hq'' => ?_
      have hk := (hq.trans hq').trans hq''
      refine reported_silent ⟨hk.kind, hk.messageNum.symm, hk.exchangeNum.symm, m, ?_⟩
      exact ⟨hk.inHeader m hm, by rw [← hk.trailers] at hst; exact hst⟩
  simp only [pass, hs]
  refine reported_scanning (I := p.Keeps) (J := fun _ => True) ?_ (Keeps.refl p)
    (fun o => hfinish p s o (Keeps.refl p) hst) fun q span hq _ => ?_
  · exact fun q b hq =>
      (keeps_stepHeaderValue (hq.declared hd)).mono fun q' hq' => ⟨hq.trans hq', trivial⟩
  · exact ⟨_, .single (.value hst), fun o => hfinish q _ o hq (.inr rfl)⟩

theorem reported_headerValueLF (hs : p.state = .headerValueLF) (hp : p.Placed s) :
    p.Tells asks s (p.pass env b src) := by
  simp only [Placed, hs] at hp
  obtain ⟨m, hm, hst⟩ := hp
  simp only [pass, hs]
  refine reported_expect (fun _ => by decide) yields_takeHeaderByte fun _ => ?_
  rintro _ rfl
  exact ⟨⟨_, _, .fields p.trailers m⟩, .single (.fieldEnd hst),
    fun _ => ⟨rfl, rfl, rfl, m, hm, rfl⟩⟩

/-! ## Completion -/

theorem reports_completeMessage
    (hs : s = .content m ∨ s = .counted m 0 ∨ s = .untilClose m ∨ s = .trailed m)
    (hm : m.SameHead p.message) :
    Reports p.kind asks ⟨p.messageNum, p.exchangeNum, s⟩ p.completeMessage.calls
      ⟨p.completeMessage.parser.messageNum, p.completeMessage.parser.exchangeNum, .idle⟩ :=
  .single (.complete hs hm)

theorem reported_completeMessage
    (hs : s = .content m ∨ s = .counted m 0 ∨ s = .untilClose m ∨ s = .trailed m)
    (hm : m.SameHead p.message) : p.Tells asks s p.completeMessage :=
  ⟨_, reports_completeMessage hs hm, fun _ => ⟨rfl, rfl, rfl, rfl⟩⟩

theorem Message.SameHead.refl (m : Message) : m.SameHead m :=
  ⟨⟨rfl, rfl, rfl, rfl, rfl, rfl⟩, rfl, rfl⟩

/-- The content of a message is read as its header section says. -/
theorem reported_beginContent (hb : p.bodyBytes = 0)
    (hone : p.hasContentLength = false ∧ p.remaining = 0 ∨
      p.hasContentLength = true ∧ p.hasTransferEncoding = false) :
    p.Tells asks (.content p.message) p.beginContent := by
  have hrefl := Message.SameHead.refl p.message
  unfold beginContent
  simp only
  split_ifs with hno hup hte hch hcl hmax h0 hreq
  · exact ⟨_, reports_completeMessage (.inl rfl) hrefl, fun _ => ⟨rfl, rfl, rfl, rfl⟩⟩
  · exact reported_completeMessage (.inl rfl) hrefl
  · have hl := hone.resolve_right (by simp [hte])
    exact reported_silent ⟨rfl, rfl, rfl, p.message, hrefl, hl.1, .inl rfl⟩
  · have hl := hone.resolve_right (by simp [hte])
    exact reported_silent ⟨rfl, rfl, rfl, p.message, hrefl, hl, .inl rfl⟩
  · exact reported_halt (by decide)
  · exact reported_completeMessage (.inl rfl) hrefl
  · have hlength : p.remaining = p.message.contentLength := by simp [message, hcl, hb]
    exact reported_silent ⟨rfl, rfl, rfl, p.message, hrefl, hcl, Nat.pos_of_ne_zero h0,
      .inl ⟨rfl, hlength⟩⟩
  · exact reported_completeMessage (.inl rfl) hrefl
  · have hl := hone.resolve_right (by simp [hcl])
    exact reported_silent ⟨rfl, rfl, rfl, p.message, hrefl, hl, .inl rfl⟩

theorem reported_headersComplete (hm : m.SameLine p.message) (hb : p.bodyBytes = 0)
    (hone : p.hasContentLength = false ∧ p.remaining = 0 ∨
      p.hasContentLength = true ∧ p.hasTransferEncoding = false) :
    p.Tells asks (.fields false m) p.headersComplete := by
  unfold headersComplete
  split_ifs
  iterate 5 exact reported_halt (by decide)
  exact (reported_beginContent hb hone).after (.single (.headersComplete hm))

theorem reported_headersLF (hs : p.state = .headersLF) (hp : p.Placed s) :
    p.Tells asks s (p.pass env b src) := by
  simp only [Placed, hs] at hp
  obtain ⟨m, hm, rfl⟩ := hp
  simp only [pass, hs]
  refine reported_expect (fun _ => by decide) yields_takeHeaderByte fun _ => ?_
  rintro _ rfl
  unfold endHeaders
  unfold InHeader at hm
  split_ifs at hm ⊢ with ht
  · have hst : Stage.fields p.trailers m = .fields true m := by rw [ht]
    rw [hst]
    exact (reported_completeMessage (p := { p with headerBytes := p.headerBytes + 1 })
      (.inr (.inr (.inr rfl))) hm.1).after (.single .trailersEnd)
  · have hst : Stage.fields p.trailers m = .fields false m := by rw [Bool.eq_false_iff.mpr ht]
    rw [hst]
    exact reported_headersComplete (p := { p with headerBytes := p.headerBytes + 1 })
      hm.1 hm.2.1 hm.2.2

/-! ## Bodies -/

theorem bodyCall_of_pos (h : 0 < n) (hn : n ≤ (b :: src).length) :
    bodyCall ((b :: src).take n) = [.body ((b :: src).take n)] := by
  refine if_neg fun h0 => ?_
  have hlength : ((b :: src).take n).length = n := length_take_of_le hn
  rw [h0, length_nil] at hlength
  omega

/-- How much of a body of which some is left a pass takes. -/
theorem take_bounds {take : ℕ} (hpos : 0 < n) (htake : min (b :: src).length n = take) :
    0 < take ∧ take ≤ (b :: src).length ∧ take ≤ n := by
  simp only [length_cons] at htake ⊢
  omega

theorem reported_fixedBody (hs : p.state = .fixedBody) (hp : p.Placed s) :
    p.Tells asks s (p.pass env b src) := by
  simp only [Placed, hs] at hp
  obtain ⟨m, hm, hl, hpos, hst⟩ := hp
  simp only [pass, hs, passFixedBody]
  generalize htake : min (b :: src).length p.remaining = take
  obtain ⟨h0, hle, hrem⟩ := take_bounds hpos htake
  refine reported_attempt yields_addBody ?_
  rintro _ rfl
  rw [bodyCall_of_pos h0 hle]
  have hspan : ((b :: src).take take).length = take := length_take_of_le hle
  have hleft : p.remaining = ((b :: src).take take).length + (p.remaining - take) := by omega
  have hcall : Follows p.kind asks ⟨p.messageNum, p.exchangeNum, s⟩
      (.body ((b :: src).take take))
      ⟨p.messageNum, p.exchangeNum, .counted m (p.remaining - take)⟩ :=
    .counted (hm.2.2.symm.trans hl) hst hleft
  -- what has been delivered and what is left add up to the length that was announced
  have hm' : m.SameHead
      { p with bodyBytes := p.bodyBytes + take, remaining := p.remaining - take }.message := by
    refine ⟨hm.1, ?_, hm.2.2⟩
    rw [← hm.2.1]
    simp only [message, hl, if_true]
    omega
  refine Reported.after (.single hcall) ?_
  split_ifs with hz
  · simp only at hz
    rw [hz] at hm' ⊢
    exact reported_completeMessage (p := { p with bodyBytes := p.bodyBytes + take, remaining := 0 })
      (.inr (.inl rfl)) hm'
  · refine reported_silent ⟨rfl, rfl, rfl, ?_⟩
    simp only [Placed, hs]
    exact ⟨m, hm', hl, Nat.pos_of_ne_zero hz, .inr rfl⟩

theorem reported_closeBody (hs : p.state = .closeBody) (hp : p.Placed s) :
    p.Tells asks s (p.pass env b src) := by
  simp only [Placed, hs] at hp
  obtain ⟨m, hm, ⟨hl, hr⟩, hst⟩ := hp
  have hpass : p.pass env b src = p.passCloseBody (b :: src) := by simp only [pass, hs]
  rw [hpass]
  simp only [passCloseBody]
  generalize min (b :: src).length _ = take
  have hm' : m.SameHead { p with bodyBytes := p.bodyBytes + take }.message :=
    (sameHead_iff (p := { p with bodyBytes := p.bodyBytes + take }) hl).mpr
      ((sameHead_iff hl).mp hm)
  have hcall : Follows p.kind asks ⟨p.messageNum, p.exchangeNum, s⟩
      (.body ((b :: src).take take)) ⟨p.messageNum, p.exchangeNum, .untilClose m⟩ :=
    .untilClose (hm.2.2.symm.trans hl) hst
  have hrest : ∀ s', (s' = .content m ∨ s' = .untilClose m) →
      p.Tells asks s'
        (if take ≠ (b :: src).length then
          { p with bodyBytes := p.bodyBytes + take }.halt .bodyTooLarge
        else { parser := { p with bodyBytes := p.bodyBytes + take } }) := by
    intro s' hs'
    split_ifs
    · exact reported_halt (by decide)
    · refine reported_silent ⟨rfl, rfl, rfl, ?_⟩
      simp only [Placed, hs]
      exact ⟨m, hm', ⟨hl, hr⟩, hs'⟩
  by_cases hspan : (b :: src).take take = []
  · have hnone : bodyCall ((b :: src).take take) = [] := if_pos hspan
    rw [hnone]
    exact (hrest s hst).after .nil
  · have hsome : bodyCall ((b :: src).take take) = [.body ((b :: src).take take)] := if_neg hspan
    rw [hsome]
    exact (hrest _ (.inr rfl)).after (.single hcall)

/-! ## Chunks -/

theorem reported_chunkSizeStart (hs : p.state = .chunkSizeStart) (hp : p.Placed s) :
    p.Tells asks s (p.pass env b src) := by
  simp only [Placed, hs] at hp
  simp only [pass, hs]
  exact reported_silent ⟨rfl, rfl, rfl, hp⟩

/-- `q` comes from `p` within the line of a chunk. -/
def InLine (p q : Parser) : Prop :=
  ∃ n k v d e, q =
    { p with
      chunkLineBytes := n, chunkMetadataBytes := k, chunkSize := v, chunkDigits := d
      chunkExtState := e }

theorem inLine_refl (p : Parser) : p.InLine p := ⟨_, _, _, _, _, rfl⟩

theorem inLine_takeChunkLineByte (h : p.InLine q) : Yields q.takeChunkLineByte p.InLine := by
  obtain ⟨n, k, v, d, e, rfl⟩ := h
  refine yields_takeChunkLineByte.mono ?_
  rintro _ rfl
  exact ⟨_, _, _, _, _, rfl⟩

theorem inLine_stepChunkSize (q : Parser) (b : UInt8) (h : p.InLine q) :
    Yields (q.stepChunkSize b) fun q' => p.InLine q' ∧ True := by
  obtain ⟨n, k, v, d, e, rfl⟩ := h
  refine (inLine_takeChunkLineByte (p := p) ⟨_, _, _, _, _, rfl⟩).bind ?_
  rintro _ ⟨n, k, v, d, e, rfl⟩
  refine (yields_accept (by decide)).bind ?_
  rintro _ ⟨rfl, -⟩
  exact ⟨⟨_, _, _, _, _, rfl⟩, trivial⟩

theorem inLine_stepChunkExt (q : Parser) (b : UInt8) (h : p.InLine q) :
    Yields (q.stepChunkExt b) fun q' => p.InLine q' ∧ True := by
  refine (inLine_takeChunkLineByte h).bind ?_
  rintro _ ⟨n, k, v, d, e, rfl⟩
  refine (yields_accept (by decide)).mono ?_
  rintro _ ⟨rfl, -⟩
  exact ⟨⟨_, _, _, _, _, rfl⟩, trivial⟩

/-- What a parser in the line of a chunk has to show. -/
def AtChunk (p : Parser) (s : Stage) : Prop :=
  ∃ m, m.SameHead p.message ∧ p.hasContentLength = false ∧ (s = .content m ∨ s = .chunks m)

theorem reported_chunkLine (hs : p.state = .chunkSize ∨ p.state = .chunkExt) (hp : p.Placed s) :
    p.Tells asks s (p.pass env b src) := by
  have hp' : p.AtChunk s := by
    rcases hs with hs | hs
    all_goals
      simp only [Placed, hs] at hp
      exact hp
  have hstay : ∀ q, p.InLine q →
      p.Tells asks s { parser := q } := by
    rintro _ ⟨n, k, v, d, e, rfl⟩
    refine reported_silent ⟨rfl, rfl, rfl, ?_⟩
    rcases hs with hs | hs
    all_goals
      simp only [Placed, hs]
      exact hp'
  have hline : ∀ fits q code, code ≠ .none → p.InLine q →
      p.Tells asks s
        (q.expect fits code takeChunkLineByte (goto .chunkSizeLF)) := by
    intro fits q code hc hq
    refine reported_expect (fun _ => hc) (inLine_takeChunkLineByte hq) fun _ => ?_
    rintro _ ⟨n, k, v, d, e, rfl⟩
    exact reported_silent ⟨rfl, rfl, rfl, hp'⟩
  have hline' : ∀ q, p.InLine q → p.Tells asks s
      (q.expect true .none takeChunkLineByte (goto .chunkSizeLF)) := by
    intro q hq
    refine reported_take (inLine_takeChunkLineByte hq) ?_
    rintro _ ⟨n, k, v, d, e, rfl⟩
    exact reported_silent ⟨rfl, rfl, rfl, hp'⟩
  rcases hs with hs | hs
  · have hfinish : ∀ q o, p.InLine q →
        p.Tells asks s (q.finishChunkSize o) := by
      intro q o hq
      cases o with
      | none => exact hstay q hq
      | some b =>
        simp only [finishChunkSize]
        split_ifs
        · exact reported_halt (by decide)
        · refine reported_take (inLine_takeChunkLineByte hq) ?_
          rintro _ ⟨n, k, v, d, e, rfl⟩
          exact reported_silent ⟨rfl, rfl, rfl, hp'⟩
        · exact hline _ q _ (by decide) hq
    simp only [pass, hs]
    exact reported_scanning inLine_stepChunkSize (inLine_refl p)
      (fun o => hfinish p o (inLine_refl p)) fun q _ hq _ => ⟨_, .nil, fun o => hfinish q o hq⟩
  · have hfinish : ∀ q o, p.InLine q →
        p.Tells asks s (q.finishChunkExt o) := by
      intro q o hq
      cases o with
      | none => exact hstay q hq
      | some b =>
        simp only [finishChunkExt]
        split_ifs
        · exact reported_halt (by decide)
        · exact hline' q hq
    simp only [pass, hs]
    exact reported_scanning inLine_stepChunkExt (inLine_refl p)
      (fun o => hfinish p o (inLine_refl p)) fun q _ hq _ => ⟨_, .nil, fun o => hfinish q o hq⟩

theorem reported_endChunkLine (hp : p.AtChunk s) : p.Tells asks s p.endChunkLine := by
  obtain ⟨m, hm, hl, hst⟩ := hp
  unfold endChunkLine
  split_ifs with hbig hzero hmany
  · exact reported_halt (by decide)
  · refine ⟨_, .single (.lastChunk hst), fun _ => ⟨rfl, rfl, rfl, m, ?_, rfl⟩⟩
    simp only [InHeader, if_true]
    exact ⟨hm, hl⟩
  · exact reported_halt (by decide)
  · have hpos := Nat.pos_of_ne_zero hzero
    refine ⟨_, .single (.chunkHeader hst hpos), fun _ => ⟨rfl, rfl, rfl, m, ?_, hl, hpos, rfl⟩⟩
    exact (sameHead_iff (p := { p with
      chunkCount := p.chunkCount + 1, remaining := p.chunkSize, state := .chunkBody }) hl).mpr
      ((sameHead_iff hl).mp hm)

theorem reported_chunkSizeLF (hs : p.state = .chunkSizeLF) (hp : p.Placed s) :
    p.Tells asks s (p.pass env b src) := by
  simp only [Placed, hs] at hp
  simp only [pass, hs]
  refine reported_expect (fun _ => by decide) yields_takeChunkLineByte fun _ => ?_
  rintro _ rfl
  exact reported_endChunkLine (p := { p with
    chunkLineBytes := p.chunkLineBytes + 1, chunkMetadataBytes := p.chunkMetadataBytes + 1 }) hp

theorem reported_chunkBody (hs : p.state = .chunkBody) (hp : p.Placed s) :
    p.Tells asks s (p.pass env b src) := by
  simp only [Placed, hs] at hp
  obtain ⟨m, hm, hl, hpos, rfl⟩ := hp
  simp only [pass, hs, passChunkBody]
  generalize htake : min (b :: src).length p.remaining = take
  obtain ⟨h0, hle, hrem⟩ := take_bounds hpos htake
  refine reported_attempt yields_addBody ?_
  rintro _ rfl
  rw [bodyCall_of_pos h0 hle]
  have hspan : ((b :: src).take take).length = take := length_take_of_le hle
  have hleft : p.remaining = ((b :: src).take take).length + (p.remaining - take) := by omega
  have hm' := (sameHead_iff (p := { p with
    bodyBytes := p.bodyBytes + take, remaining := p.remaining - take }) hl).mpr
    ((sameHead_iff hl).mp hm)
  refine Reported.after (.single (.chunkData hleft)) ?_
  split_ifs with hz
  · simp only at hz
    rw [hz] at hm' ⊢
    exact reported_silent ⟨rfl, rfl, rfl, m, hm', hl, rfl⟩
  · refine reported_silent ⟨rfl, rfl, rfl, ?_⟩
    simp only [Placed, hs]
    exact ⟨m, hm', hl, Nat.pos_of_ne_zero hz, rfl⟩

theorem reported_chunkEnd (hs : p.state = .chunkBodyCR ∨ p.state = .chunkBodyLF)
    (hp : p.Placed s) : p.Tells asks s (p.pass env b src) := by
  have htake : Yields (.ok p) fun q => q = p := rfl
  rcases hs with hs | hs
  all_goals
    simp only [Placed, hs] at hp
    obtain ⟨m, hm, hl, rfl⟩ := hp
    simp only [pass, hs]
    refine reported_expect (fun _ => by decide) htake fun _ => ?_
    rintro _ rfl
  · exact reported_silent ⟨rfl, rfl, rfl, m, hm, hl, rfl⟩
  · exact ⟨_, .single .chunkEnd, fun _ => ⟨rfl, rfl, rfl, m, hm, hl, .inr rfl⟩⟩

/-! ## Runs -/

/-- **One pass.** Its callbacks follow the grammar, and the parser is where they lead. -/
theorem reported_pass (hk : p.kind ≠ .other) (hp : p.Placed s) :
    p.Tells env.responseContext.isSome s (p.pass env b src) := by
  cases hs : p.state with
  | start => exact reported_start hs hk hp
  | leadingLF => exact reported_leadingLF hs hp
  | reqMethod => exact reported_reqMethod hs hp
  | reqTarget => exact reported_reqTarget hs hp
  | reqHTTP => exact reported_literal (.inl hs) hp
  | resHTTP => exact reported_literal (.inr hs) hp
  | versionMajor => exact reported_version (.inl hs) hp
  | versionDot => exact reported_version (.inr (.inl hs)) hp
  | versionMinor => exact reported_version (.inr (.inr hs)) hp
  | reqLineCR => exact reported_reqLineCR hs hp
  | reqLineLF => exact reported_lineLF (.inl hs) hp
  | resLineLF => exact reported_lineLF (.inr hs) hp
  | resSpaceBeforeStatus => exact reported_resSpace (.inl hs) hp
  | resReasonStart => exact reported_resSpace (.inr hs) hp
  | resStatus => exact reported_resStatus hs hp
  | resReason => exact reported_resReason hs hp
  | headerStart => exact reported_headerStart hs hp
  | headerName => exact reported_headerName hs hp
  | headerValueStart => exact reported_headerValueStart hs hp
  | headerValue => exact reported_headerValue hs hp
  | headerValueLF => exact reported_headerValueLF hs hp
  | headersLF => exact reported_headersLF hs hp
  | fixedBody => exact reported_fixedBody hs hp
  | closeBody => exact reported_closeBody hs hp
  | chunkSizeStart => exact reported_chunkSizeStart hs hp
  | chunkSize => exact reported_chunkLine (.inl hs) hp
  | chunkExt => exact reported_chunkLine (.inr hs) hp
  | chunkSizeLF => exact reported_chunkSizeLF hs hp
  | chunkBody => exact reported_chunkBody hs hp
  | chunkBodyCR => exact reported_chunkEnd (.inl hs) hp
  | chunkBodyLF => exact reported_chunkEnd (.inr hs) hp
  | upgrade =>
    simp only [pass, hs]
    exact reported_halt (by decide)
  | dead =>
    simp only [Placed, hs] at hp

theorem Reports.kept {kind : Kind} {asks : Bool} {g g' : Progress} {cs cs' : List Call}
    {P : Progress → Prop} (h : Reports kind asks g cs g')
    (h' : ∃ g'', Reports kind asks g' cs' g'' ∧ P g'') :
    ∃ g'', Reports kind asks g (cs ++ cs') g'' ∧ P g'' := by
  obtain ⟨g'', hr, hP⟩ := h'
  exact ⟨g'', h.append hr, hP⟩

/-- The loop, from any parser that has not failed. -/
theorem reports_loop (hk : p.kind ≠ .other) (fuel : ℕ) (src : Bytes) (hp : p.Placed s) :
    ∃ g', Reports p.kind env.responseContext.isSome ⟨p.messageNum, p.exchangeNum, s⟩
        (p.loop env fuel src).calls g' ∧
      ((p.loop env fuel src).parser.code = .none →
        Tracks p.kind (p.loop env fuel src).parser g') := by
  induction fuel generalizing p s src with
  | zero => exact ⟨_, .nil, fun _ => tracks_of hp⟩
  | succ fuel ih =>
    cases src with
    | nil => exact ⟨_, .nil, fun _ => tracks_of hp⟩
    | cons b src =>
      simp only [loop]
      obtain ⟨g', hr, ht⟩ : Reported p.kind env.responseContext.isSome
          ⟨p.messageNum, p.exchangeNum, s⟩ (p.pass env b src) := reported_pass hk hp
      split_ifs with hpaused hcode hup
      · exact ⟨_, .nil, fun _ => tracks_of hp⟩
      · exact ⟨g', hr, ht⟩
      · exact ⟨g', hr, ht⟩
      · obtain ⟨hkind, hm, hx, hq⟩ := ht (not_not.mp hcode)
        obtain ⟨n, k, s'⟩ := g'
        simp only at hm hx
        subst hm hx
        rw [← hkind] at hk hr ⊢
        exact Reports.kept hr (ih hk _ hq)

/-- Where a parser stands does not depend on the flags of a pause or on the context. -/
theorem placed_flags {after paused head connect : Bool} (hp : p.Placed s) :
    { p with
      pauseAfterMessage := after, paused := paused, responseToHEAD := head
      responseToCONNECT := connect }.Placed s := by
  unfold Placed at hp ⊢
  exact hp

end Passes

/-! ## Calls of the parser -/

theorem reports_runParse {kind : Kind} {g : Progress} (hk : kind ≠ .other)
    (h : p.code = .none → Tracks kind p g) (src : Bytes) (after : Bool) :
    ∃ g', Reports kind env.responseContext.isSome g (p.runParse env src after).calls g' ∧
      ((p.runParse env src after).parser.code = .none →
        Tracks kind (p.runParse env src after).parser g') := by
  simp only [runParse, parseAll]
  split_ifs with hcode hup
  · exact ⟨g, .nil, fun h' => absurd h' hcode⟩
  · obtain ⟨hkind, hm, hx, hp⟩ := h (not_not.mp hcode)
    exact ⟨g, .nil, fun _ => ⟨hkind, hm, hx, placed_flags hp⟩⟩
  · obtain ⟨rfl, hm, hx, hp⟩ := h (not_not.mp hcode)
    obtain ⟨n, k, s⟩ := g
    simp only at hm hx hp
    subst hm hx
    obtain ⟨g', hr, ht⟩ := reports_loop (p := { p with pauseAfterMessage := after, paused := false })
      hk (2 * src.length) src (placed_flags hp)
    refine ⟨g', hr, fun h' => ?_⟩
    obtain ⟨hkind, hm, hx, hp'⟩ := ht h'
    exact ⟨hkind, hm, hx, placed_flags hp'⟩

theorem reports_finish {kind : Kind} {asks : Bool} {g : Progress}
    (h : p.code = .none → Tracks kind p g) :
    ∃ g', Reports kind asks g p.finish.calls g' ∧
      (p.finish.parser.code = .none → Tracks kind p.finish.parser g') := by
  simp only [finish]
  split_ifs with hcode hup hclose hidle
  · exact ⟨g, .nil, h⟩
  · exact ⟨g, .nil, h⟩
  · obtain ⟨rfl, hm, hx, hp⟩ := h (not_not.mp hcode)
    obtain ⟨n, k, s⟩ := g
    simp only at hm hx hp
    subst hm hx
    simp only [Placed, hclose] at hp
    obtain ⟨m, hm, hl, hst⟩ := hp
    exact reported_completeMessage (hst.imp_right fun hs => .inr (.inl hs)) hm
  · exact ⟨g, .nil, h⟩
  · exact ⟨g, .nil, fun h' => absurd h' (code_fail (by decide))⟩

/-- **One call.** Its callbacks follow the grammar, and the parser is where they lead. -/
theorem reports_act {kind : Kind} {g : Progress} (hk : kind ≠ .other)
    (h : p.code = .none → Tracks kind p g) (i : Input) :
    ∃ g', Reports kind env.responseContext.isSome g (p.act env i).calls g' ∧
      ((p.act env i).parser.code = .none → Tracks kind (p.act env i).parser g') := by
  cases i with
  | parse src => exact reports_runParse hk h src false
  | parseOne src => exact reports_runParse hk h src true
  | finish => exact reports_finish h
  | setResponseContext head connect =>
    refine ⟨g, .nil, fun hcode => ?_⟩
    obtain ⟨hkind, hm, hx, hp⟩ := h hcode
    exact ⟨hkind, hm, hx, placed_flags hp⟩

theorem reports_run {kind : Kind} {g : Progress} (hk : kind ≠ .other)
    (h : p.code = .none → Tracks kind p g) (is : List Input) :
    ∃ g', Reports kind env.responseContext.isSome g (p.trace env is) g' := by
  induction is generalizing p g with
  | nil => exact ⟨g, .nil⟩
  | cons i is ih =>
    obtain ⟨g', hr, ht⟩ := reports_act hk h i
    obtain ⟨g'', hr'⟩ := ih ht
    exact ⟨g'', hr.append hr'⟩

end Parser

/-! ## Failures -/

/-- The code that a call returns is the one that the parser keeps, unless nothing is wrong. -/
def Parsed.Honest (r : Parsed) : Prop :=
  r.code = r.parser.code ∨ r.code = .upgrade ∧ r.parser.code = .none

/-- The input is one that returns a code. -/
def Input.returnsCode : Input → Bool
  | .parse _ | .parseOne _ | .finish => true
  | .setResponseContext _ _ => false

namespace Parser

variable {p : Parser} {env : Env} {i : Input}

theorem honest_loop (fuel : ℕ) (src : Bytes) (h : p.code = .none) :
    (p.loop env fuel src).Honest := by
  induction fuel generalizing p src with
  | zero => exact .inl h.symm
  | succ fuel ih =>
    cases src with
    | nil => exact .inl h.symm
    | cons b src =>
      simp only [loop]
      split_ifs with hpaused hcode hup
      · exact .inl h.symm
      · exact .inl rfl
      · exact .inr ⟨rfl, not_not.mp hcode⟩
      · exact ih _ (not_not.mp hcode)

theorem honest_runParse (src : Bytes) (after : Bool) : (p.runParse env src after).Honest := by
  simp only [runParse, parseAll]
  split_ifs with hcode hup
  · exact .inl rfl
  · exact .inr ⟨rfl, not_not.mp hcode⟩
  · exact honest_loop (p := { p with pauseAfterMessage := after, paused := false }) _ _
      (not_not.mp hcode)

theorem honest_act (hi : i.returnsCode = true) : (p.act env i).Honest := by
  cases i with
  | parse src => exact honest_runParse src false
  | parseOne src => exact honest_runParse src true
  | finish =>
    simp only [act, finish]
    split_ifs with hcode hup hclose hidle
    · exact .inl rfl
    · exact .inr ⟨rfl, not_not.mp hcode⟩
    · exact .inl rfl
    · exact .inl (not_not.mp hcode).symm
    · exact .inl rfl
  | setResponseContext head connect => cases hi

/-- A parser that has failed does nothing more. -/
theorem act_failed (h : p.code ≠ .none) (i : Input) :
    (p.act env i).parser.code = p.code ∧ (p.act env i).n = 0 ∧ (p.act env i).calls = [] ∧
      (i.returnsCode = true → (p.act env i).code = p.code) := by
  cases i with
  | parse src => simp [act, parse, runParse, parseAll, h]
  | parseOne src => simp [act, parseOne, runParse, parseAll, h]
  | finish => simp [act, finish, h]
  | setResponseContext head connect => exact ⟨rfl, rfl, rfl, nofun⟩

theorem after_failed (h : p.code ≠ .none) (is : List Input) : (p.after env is).code = p.code := by
  induction is generalizing p with
  | nil => rfl
  | cons i is ih =>
    have hcode : (p.act env i).parser.code = p.code := (act_failed h i).1
    exact (ih (by rw [hcode]; exact h)).trans hcode

theorem after_append (xs ys : List Input) :
    p.after env (xs ++ ys) = (p.after env xs).after env ys := by
  induction xs generalizing p with
  | nil => rfl
  | cons x xs ih => exact ih

theorem trace_failed (h : p.code ≠ .none) (is : List Input) : p.trace env is = [] := by
  induction is generalizing p with
  | nil => rfl
  | cons i is ih =>
    have hcode : (p.act env i).parser.code = p.code := (act_failed h i).1
    have hcalls : (p.act env i).calls = [] := (act_failed h i).2.2.1
    have hrest : (p.act env i).parser.trace env is = [] := ih (by rw [hcode]; exact h)
    unfold trace at hrest ⊢
    rw [run, flatMap_cons, hcalls, hrest]
    rfl

end Parser

theorem tracks_newParser {kind : Kind} (hk : kind ≠ .other) (limits : Limits) :
    Parser.Tracks kind (newParser kind limits) {} := by
  rw [newParser, if_neg hk]
  exact ⟨rfl, rfl, rfl, rfl⟩

/-- **The callbacks of a connection.** Whatever is given to a parser, and in whatever pieces, its
callbacks are the beginning of a transcript: each message is reported in the order of its parts, and
the snapshots of one message agree. A call that fails is the last to make a callback, and every
later one returns its code and consumes nothing. -/
theorem trace_isPrefix_transcript (env : Env) (kind : Kind) (limits : Limits) (is : List Input) :
    (∃ rest, Transcript kind env.responseContext.isSome 0 0
      ((newParser kind limits).trace env is ++ rest)) ∧
    ∀ before i later j, is = before ++ i :: later → i.returnsCode = true →
      (((newParser kind limits).after env before).act env i).code ≠ .none →
      (((newParser kind limits).after env before).act env i).code ≠ .upgrade →
      (((newParser kind limits).after env is).act env j).calls = [] ∧
      (((newParser kind limits).after env is).act env j).n = 0 ∧
      (j.returnsCode = true → (((newParser kind limits).after env is).act env j).code =
        (((newParser kind limits).after env before).act env i).code) := by
  refine ⟨?_, ?_⟩
  · by_cases hk : kind = .other
    · have hfailed : (newParser kind limits).code ≠ .none := by
        rw [newParser, if_pos hk]
        exact Parser.code_fail (by decide)
      exact ⟨[], by rw [Parser.trace_failed hfailed]; exact .nil⟩
    · obtain ⟨g, hr⟩ := Parser.reports_run hk (fun _ => tracks_newParser hk limits) is
      exact hr.isPrefix_transcript hk
  · rintro before i later j rfl hi hnone hup
    rw [Parser.after_append]
    generalize (newParser kind limits).after env before = p at *
    -- the parser keeps the code that the call returned
    have hkept : (p.act env i).code = (p.act env i).parser.code :=
      (Parser.honest_act hi).resolve_right fun h => hup h.1
    have hfailed : (p.act env i).parser.code ≠ .none := by rwa [← hkept]
    have hlater : (p.after env (i :: later)).code = (p.act env i).parser.code :=
      Parser.after_failed hfailed later
    obtain ⟨-, hn, hcalls, hcode⟩ := Parser.act_failed (p := p.after env (i :: later))
      (by rw [hlater]; exact hfailed) j
    exact ⟨hcalls, hn, fun hj => by rw [hcode hj, hlater, hkept]⟩

/-- A body in chunks, and a second request that is cut short. -/
theorem trace_isPrefix_transcript_chunks :
    let env : Env := { parseAddr6 := fun _ => false }
    let is : List Input :=
      [.parse (ascii "POST /a HTTP/1.1\r\nHost: x\r\nTransfer-Encoding: chunked\r\n\r\n3\r\nab"),
        .parse (ascii "c\r\n0\r\n\r\nGE"), .finish]
    (newParser .request {}).trace env is ≠ [] ∧
      (((newParser .request {}).after env is).act env .finish).code = .unexpectedEOF := by
  intro env is
  have hcode : (((newParser .request {}).after env (is.take 2)).act env .finish).code =
      .unexpectedEOF := by decide +kernel
  have hlater := (trace_isPrefix_transcript env .request {} is).2 (is.take 2) .finish [] .finish rfl
    rfl (by rw [hcode]; decide) (by rw [hcode]; decide)
  exact ⟨by decide +kernel, (hlater.2.2 rfl).trans hcode⟩

end WagoHttp.Http1
