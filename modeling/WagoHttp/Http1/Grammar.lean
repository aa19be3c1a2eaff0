import WagoHttp.Http1.Parser

/-!
# The grammar of callbacks

What the user of a parser may rely on: the callbacks of a connection come in the order of its
messages and of the parts of each. A `Stage` says how far the current message has been reported,
and `Follows` which callback may come next.
-/

namespace WagoHttp.Http1

open List

/-- Two snapshots are of the same message. -/
def Message.SameLine (m m' : Message) : Prop :=
  m'.kind = m.kind ∧ m'.method = m.method ∧ m'.status = m.status ∧ m'.major = m.major ∧
    m'.minor = m.minor ∧ m'.messageNumber = m.messageNumber

/-- Two snapshots are of the same message, and of the same length of its body. -/
def Message.SameHead (m m' : Message) : Prop :=
  m.SameLine m' ∧ m'.contentLength = m.contentLength ∧ m'.hasContentLength = m.hasContentLength

/-- A message that answers a request for good. -/
def Message.isFinal (m : Message) : Prop := m.kind = .response ∧ (m.status = 101 ∨ m.status ≥ 200)

instance (m : Message) : Decidable m.isFinal := inferInstanceAs (Decidable (_ ∧ _))

/-! ## Transcripts -/

/-- The callbacks for the start line of a message, up to the snapshot. -/
inductive LineReport : Kind → Type
  | request (methods targets : List Bytes) (hm : methods ≠ []) (ht : targets ≠ []) :
    LineReport .request
  | response (reasons : List Bytes) : LineReport .response

def LineReport.calls {kind : Kind} : LineReport kind → List Call
  | .request methods targets _ _ => methods.map .method ++ targets.map .target
  | .response reasons => reasons.map .reason

/-- The callbacks for a header field. A name or a value may come in several spans. -/
structure FieldReport where
  names : List Bytes
  values : List Bytes
  named : names ≠ []

def FieldReport.calls (trailer : Bool) (f : FieldReport) : List Call :=
  f.names.map .headerName ++ (f.values.map .headerValue ++ [.headerEnd trailer])

/-- The callbacks for a chunk. As it is not empty there is at least one span of it. -/
structure ChunkReport where
  size : ℕ
  spans : List Bytes
  pos : 0 < size
  total : spans.flatten.length = size

def ChunkReport.calls (c : ChunkReport) : List Call :=
  .chunkHeader c.size :: (c.spans.map .body ++ [.chunkComplete])

/-- The callbacks for the content of a message, in one of the four forms. -/
inductive ContentReport (m : Message) : Type
  | nothing
  | counted (spans : List Bytes) (h : m.hasContentLength = true)
      (total : spans.flatten.length = m.contentLength)
  | untilClose (spans : List Bytes) (h : m.hasContentLength = false)
  | chunked (chunks : List ChunkReport) (trailers : List FieldReport)

def ContentReport.calls {m : Message} : ContentReport m → List Call
  | .nothing => []
  | .counted spans _ _ => spans.map .body
  | .untilClose spans _ => spans.map .body
  | .chunked chunks trailers =>
    chunks.flatMap ChunkReport.calls ++
      .chunkHeader 0 :: (trailers.flatMap (FieldReport.calls true) ++ [.chunkComplete])

/-- The callbacks for a message, the `number`-th of a connection. The snapshots agree. -/
structure MessageReport (kind : Kind) (number : ℕ) where
  line : LineReport kind
  start : Message
  fields : List FieldReport
  head : Message
  content : ContentReport head
  complete : Message
  kind_start : start.kind = kind
  number_start : start.messageNumber = number
  same_line : start.SameLine head
  same_head : head.SameHead complete

/-- A parser with a context to ask for asks before each response, by the number of the exchange. -/
def opening (kind : Kind) (asks : Bool) (exchange : ℕ) : List Call :=
  if kind = .response ∧ asks then [.responseContext exchange, .messageBegin] else [.messageBegin]

def MessageReport.calls {kind : Kind} {number : ℕ} (asks : Bool) (exchange : ℕ)
    (m : MessageReport kind number) : List Call :=
  opening kind asks exchange ++ (m.line.calls ++ .startLine m.start ::
    (m.fields.flatMap (FieldReport.calls false) ++ .headersComplete m.head ::
      (m.content.calls ++ [.messageComplete m.complete])))

/-- The callbacks for a sequence of messages, after `n` messages and `k` final responses. -/
inductive Transcript (kind : Kind) (asks : Bool) : ℕ → ℕ → List Call → Prop
  | nil {n k} : Transcript kind asks n k []
  | cons {n k cs} (m : MessageReport kind n)
      (h : Transcript kind asks (n + 1) (if m.complete.isFinal then k + 1 else k) cs) :
    Transcript kind asks n k (m.calls asks k ++ cs)

/-! ## Stages -/

/-- How far the current message has been reported. The last snapshot is kept. -/
inductive Stage
  /-- Between two messages. -/
  | idle
  /-- The context of the next response has been asked for. -/
  | asked
  /-- Begun; for a response, perhaps with some of its reason. -/
  | begun
  | methods
  | targets
  /-- Before a field of the header section or, if `trailer`, of the trailers. -/
  | fields (trailer : Bool) (m : Message)
  | named (trailer : Bool) (m : Message)
  | valued (trailer : Bool) (m : Message)
  /-- After the header section. -/
  | content (m : Message)
  /-- In a body of a known length, of which `left` octets are left. -/
  | counted (m : Message) (left : ℕ)
  | untilClose (m : Message)
  /-- Between two chunks. -/
  | chunks (m : Message)
  | chunk (m : Message) (left : ℕ)
  /-- After the trailers. -/
  | trailed (m : Message)
  deriving DecidableEq, Repr

/-- A stage, with the number of messages and of final responses that are complete. -/
structure Progress where
  messages : ℕ := 0
  exchanges : ℕ := 0
  stage : Stage := .idle
  deriving DecidableEq, Repr

/-- The callback that may come next. `asks` says that the context of responses is asked for. -/
inductive Follows (kind : Kind) (asks : Bool) : Progress → Call → Progress → Prop
  | ask {n k} (h : kind = .response ∧ asks) :
    Follows kind asks ⟨n, k, .idle⟩ (.responseContext k) ⟨n, k, .asked⟩
  | begin {n k} (h : ¬(kind = .response ∧ asks)) :
    Follows kind asks ⟨n, k, .idle⟩ .messageBegin ⟨n, k, .begun⟩
  | beginAsked {n k} : Follows kind asks ⟨n, k, .asked⟩ .messageBegin ⟨n, k, .begun⟩
  | method {n k s span} (h : kind = .request) (hs : s = .begun ∨ s = .methods) :
    Follows kind asks ⟨n, k, s⟩ (.method span) ⟨n, k, .methods⟩
  | target {n k s span} (hs : s = .methods ∨ s = .targets) :
    Follows kind asks ⟨n, k, s⟩ (.target span) ⟨n, k, .targets⟩
  | reason {n k span} (h : kind = .response) :
    Follows kind asks ⟨n, k, .begun⟩ (.reason span) ⟨n, k, .begun⟩
  | startLine {n k s m} (h : kind = .request ∧ s = .targets ∨ kind = .response ∧ s = .begun)
      (hm : m.kind = kind ∧ m.messageNumber = n) :
    Follows kind asks ⟨n, k, s⟩ (.startLine m) ⟨n, k, .fields false m⟩
  | name {n k s t m span} (hs : s = .fields t m ∨ s = .named t m) :
    Follows kind asks ⟨n, k, s⟩ (.headerName span) ⟨n, k, .named t m⟩
  | value {n k s t m span} (hs : s = .named t m ∨ s = .valued t m) :
    Follows kind asks ⟨n, k, s⟩ (.headerValue span) ⟨n, k, .valued t m⟩
  | fieldEnd {n k s t m} (hs : s = .named t m ∨ s = .valued t m) :
    Follows kind asks ⟨n, k, s⟩ (.headerEnd t) ⟨n, k, .fields t m⟩
  | headersComplete {n k m m'} (hm : m.SameLine m') :
    Follows kind asks ⟨n, k, .fields false m⟩ (.headersComplete m') ⟨n, k, .content m'⟩
  | counted {n k s m left left' span} (hm : m.hasContentLength = true)
      (hs : s = .content m ∧ left = m.contentLength ∨ s = .counted m left)
      (hl : left = span.length + left') :
    Follows kind asks ⟨n, k, s⟩ (.body span) ⟨n, k, .counted m left'⟩
  | untilClose {n k s m span} (hm : m.hasContentLength = false)
      (hs : s = .content m ∨ s = .untilClose m) :
    Follows kind asks ⟨n, k, s⟩ (.body span) ⟨n, k, .untilClose m⟩
  | chunkHeader {n k s m size} (hs : s = .content m ∨ s = .chunks m) (h : 0 < size) :
    Follows kind asks ⟨n, k, s⟩ (.chunkHeader size) ⟨n, k, .chunk m size⟩
  | chunkData {n k m left left' span} (hl : left = span.length + left') :
    Follows kind asks ⟨n, k, .chunk m left⟩ (.body span) ⟨n, k, .chunk m left'⟩
  | chunkEnd {n k m} : Follows kind asks ⟨n, k, .chunk m 0⟩ .chunkComplete ⟨n, k, .chunks m⟩
  | lastChunk {n k s m} (hs : s = .content m ∨ s = .chunks m) :
    Follows kind asks ⟨n, k, s⟩ (.chunkHeader 0) ⟨n, k, .fields true m⟩
  | trailersEnd {n k m} :
    Follows kind asks ⟨n, k, .fields true m⟩ .chunkComplete ⟨n, k, .trailed m⟩
  | complete {n k s m m'}
      (hs : s = .content m ∨ s = .counted m 0 ∨ s = .untilClose m ∨ s = .trailed m)
      (hm : m.SameHead m') :
    Follows kind asks ⟨n, k, s⟩ (.messageComplete m')
      ⟨n + 1, if m'.isFinal then k + 1 else k, .idle⟩

/-- A sequence of callbacks, each of which may come next. -/
inductive Reports (kind : Kind) (asks : Bool) : Progress → List Call → Progress → Prop
  | nil {g} : Reports kind asks g [] g
  | cons {g g' g'' c cs} (h : Follows kind asks g c g') (hs : Reports kind asks g' cs g'') :
    Reports kind asks g (c :: cs) g''

namespace Reports

variable {kind : Kind} {asks : Bool} {g g' g'' : Progress} {c : Call} {cs cs' : List Call}

theorem single (h : Follows kind asks g c g') : Reports kind asks g [c] g' := .cons h .nil

theorem append (h : Reports kind asks g cs g') (h' : Reports kind asks g' cs' g'') :
    Reports kind asks g (cs ++ cs') g'' := by
  induction h with
  | nil => exact h'
  | cons h _ ih => exact .cons h (ih h')

end Reports

/-! ## What may still come -/

section Rest

variable (kind : Kind) (asks : Bool) (n k : ℕ)

/-- The rest of a transcript after the content of a message. -/
def AfterContent (m : Message) (cs : List Call) : Prop :=
  ∃ m' cs', m.SameHead m' ∧
    Transcript kind asks (n + 1) (if m'.isFinal then k + 1 else k) cs' ∧
    cs = .messageComplete m' :: cs'

/-- The rest from the end of the fields of a header section or of the trailers on. -/
def AfterFields (trailer : Bool) (m : Message) (cs : List Call) : Prop :=
  if trailer then ∃ cs', AfterContent kind asks n k m cs' ∧ cs = .chunkComplete :: cs'
  else ∃ m' cs', ∃ c : ContentReport m', m.SameLine m' ∧ AfterContent kind asks n k m' cs' ∧
    cs = .headersComplete m' :: (c.calls ++ cs')

/-- The rest from the start of a field on. -/
def InFields (trailer : Bool) (m : Message) (cs : List Call) : Prop :=
  ∃ (fields : List FieldReport) (cs' : List Call), AfterFields kind asks n k trailer m cs' ∧
    cs = fields.flatMap (FieldReport.calls trailer) ++ cs'

/-- The rest from the start of a chunk on. -/
def InChunks (m : Message) (cs : List Call) : Prop :=
  ∃ (chunks : List ChunkReport) (cs' : List Call), InFields kind asks n k true m cs' ∧
    cs = chunks.flatMap ChunkReport.calls ++ .chunkHeader 0 :: cs'

/-- The rest from the end of a start line on. -/
def AfterLine (cs : List Call) : Prop :=
  ∃ m cs', m.kind = kind ∧ m.messageNumber = n ∧ InFields kind asks n k false m cs' ∧
    cs = .startLine m :: cs'

/-- The rest from the beginning of a message on. -/
def AfterBegin (cs : List Call) : Prop :=
  ∃ (l : LineReport kind) (cs' : List Call), AfterLine kind asks n k cs' ∧ cs = l.calls ++ cs'

/-- What may still come at a stage. -/
def Rest : Stage → List Call → Prop
  | .idle, cs => Transcript kind asks n k cs
  | .asked, cs => ∃ cs', AfterBegin kind asks n k cs' ∧ cs = .messageBegin :: cs'
  | .begun, cs => AfterBegin kind asks n k cs
  | .methods, cs => ∃ (methods targets : List Bytes) (cs' : List Call),
      targets ≠ [] ∧ AfterLine kind asks n k cs' ∧
      cs = methods.map .method ++ (targets.map .target ++ cs')
  | .targets, cs => ∃ (targets : List Bytes) (cs' : List Call), AfterLine kind asks n k cs' ∧
      cs = targets.map .target ++ cs'
  | .fields t m, cs => InFields kind asks n k t m cs
  | .named t m, cs => ∃ (names values : List Bytes) (cs' : List Call),
      InFields kind asks n k t m cs' ∧
      cs = names.map .headerName ++ (values.map .headerValue ++ .headerEnd t :: cs')
  | .valued t m, cs => ∃ (values : List Bytes) (cs' : List Call),
      InFields kind asks n k t m cs' ∧ cs = values.map .headerValue ++ .headerEnd t :: cs'
  | .content m, cs => ∃ (c : ContentReport m) (cs' : List Call),
      AfterContent kind asks n k m cs' ∧ cs = c.calls ++ cs'
  | .counted m left, cs => ∃ (spans : List Bytes) (cs' : List Call),
      spans.flatten.length = left ∧ AfterContent kind asks n k m cs' ∧ cs = spans.map .body ++ cs'
  | .untilClose m, cs => ∃ (spans : List Bytes) (cs' : List Call),
      AfterContent kind asks n k m cs' ∧ cs = spans.map .body ++ cs'
  | .chunks m, cs => InChunks kind asks n k m cs
  | .chunk m left, cs => ∃ (spans : List Bytes) (cs' : List Call), spans.flatten.length = left ∧
      InChunks kind asks n k m cs' ∧ cs = spans.map .body ++ .chunkComplete :: cs'
  | .trailed m, cs => AfterContent kind asks n k m cs

end Rest

section Completion

variable {kind : Kind} {asks : Bool} {n k : ℕ} {cs : List Call} {m : Message} {t : Bool}

/-- A message whose opening and the rest of which are there is a message. -/
theorem transcript_of_begun (h : AfterBegin kind asks n k cs) :
    Transcript kind asks n k (opening kind asks k ++ cs) := by
  obtain ⟨line, _, ⟨start, _, hkind, hnumber, ⟨fields, _, hfields, rfl⟩, rfl⟩, rfl⟩ := h
  obtain ⟨head, _, content, hline, ⟨complete, cs', hhead, hrest, rfl⟩, rfl⟩ := hfields
  let report : MessageReport kind n :=
    { line, start, fields, head, content, complete, kind_start := hkind, number_start := hnumber
      same_line := hline, same_head := hhead }
  have htranscript : Transcript kind asks n k (report.calls asks k ++ cs') := .cons report hrest
  simpa [MessageReport.calls, report] using htranscript

/-- A field that has a name, and what follows it. -/
theorem inFields_cons {names values : List Bytes} (hn : names ≠ [])
    (h : InFields kind asks n k t m cs) :
    InFields kind asks n k t m
      (names.map .headerName ++ (values.map .headerValue ++ .headerEnd t :: cs)) := by
  obtain ⟨fields, cs', hafter, rfl⟩ := h
  refine ⟨⟨names, values, hn⟩ :: fields, cs', hafter, ?_⟩
  simp [FieldReport.calls]

theorem inChunks_cons {spans : List Bytes} {size : ℕ} (hpos : 0 < size)
    (htotal : spans.flatten.length = size) (h : InChunks kind asks n k m cs) :
    InChunks kind asks n k m
      (.chunkHeader size :: (spans.map .body ++ .chunkComplete :: cs)) := by
  obtain ⟨chunks, cs', hafter, rfl⟩ := h
  refine ⟨⟨size, spans, hpos, htotal⟩ :: chunks, cs', hafter, ?_⟩
  simp [ChunkReport.calls]

/-- Chunks are a form of content. -/
theorem rest_content_of_chunks (h : InChunks kind asks n k m cs) :
    Rest kind asks n k (.content m) cs := by
  obtain ⟨chunks, _, ⟨trailers, _, ⟨cs', hafter, rfl⟩, rfl⟩, rfl⟩ := h
  refine ⟨.chunked chunks trailers, cs', hafter, ?_⟩
  simp [ContentReport.calls]

/-- **One callback.** What may follow it may follow, with it, what comes before. -/
theorem rest_of_follows {g g' : Progress} {c : Call} (h : Follows kind asks g c g')
    (hr : Rest kind asks g'.messages g'.exchanges g'.stage cs) :
    Rest kind asks g.messages g.exchanges g.stage (c :: cs) := by
  cases h with
  | ask h =>
    obtain ⟨cs', hbegin, rfl⟩ := hr
    have htranscript := transcript_of_begun hbegin
    rwa [opening, if_pos h] at htranscript
  | begin h =>
    have htranscript := transcript_of_begun hr
    rwa [opening, if_neg h] at htranscript
  | beginAsked => exact ⟨cs, hr, rfl⟩
  | method h hs =>
    rename_i s span
    subst h
    obtain ⟨methods, targets, cs', ht, hline, rfl⟩ := hr
    obtain rfl | rfl := hs
    · exact ⟨.request (span :: methods) targets (cons_ne_nil _ _) ht, cs', hline,
        by simp [LineReport.calls]⟩
    · exact ⟨span :: methods, targets, cs', ht, hline, rfl⟩
  | target hs =>
    obtain ⟨targets, cs', hline, rfl⟩ := hr
    obtain rfl | rfl := hs
    · exact ⟨[], _ :: targets, cs', cons_ne_nil _ _, hline, rfl⟩
    · exact ⟨_ :: targets, cs', hline, rfl⟩
  | reason h =>
    rename_i span
    subst h
    obtain ⟨l, cs', hline, rfl⟩ := hr
    cases l with
    | response reasons => exact ⟨.response (span :: reasons), cs', hline, rfl⟩
  | startLine h hm =>
    have hline : AfterLine kind asks _ _ (.startLine _ :: cs) := ⟨_, cs, hm.1, hm.2, hr, rfl⟩
    obtain ⟨-, rfl⟩ | ⟨rfl, rfl⟩ := h
    · exact ⟨[], _, hline, rfl⟩
    · exact ⟨.response [], _, hline, rfl⟩
  | name hs =>
    rename_i span
    obtain ⟨names, values, cs', hfields, rfl⟩ := hr
    obtain rfl | rfl := hs
    · exact inFields_cons (cons_ne_nil span names) hfields
    · exact ⟨span :: names, values, cs', hfields, rfl⟩
  | value hs =>
    obtain ⟨values, cs', hfields, rfl⟩ := hr
    obtain rfl | rfl := hs
    · exact ⟨[], _ :: values, cs', hfields, rfl⟩
    · exact ⟨_ :: values, cs', hfields, rfl⟩
  | fieldEnd hs =>
    obtain rfl | rfl := hs
    · exact ⟨[], [], cs, hr, rfl⟩
    · exact ⟨[], cs, hr, rfl⟩
  | headersComplete hm =>
    obtain ⟨c, cs', hafter, rfl⟩ := hr
    exact ⟨[], _, ⟨_, cs', c, hm, hafter, rfl⟩, rfl⟩
  | counted hm hs hl =>
    rename_i left _ span
    obtain ⟨spans, cs', htotal, hafter, rfl⟩ := hr
    have htotal' : (span :: spans).flatten.length = left := by
      rw [flatten_cons, length_append, htotal]
      exact hl.symm
    obtain ⟨rfl, hlength⟩ | rfl := hs
    · exact ⟨.counted (span :: spans) hm (htotal'.trans hlength), cs', hafter, rfl⟩
    · exact ⟨span :: spans, cs', htotal', hafter, rfl⟩
  | untilClose hm hs =>
    obtain ⟨spans, cs', hafter, rfl⟩ := hr
    obtain rfl | rfl := hs
    · exact ⟨.untilClose (_ :: spans) hm, cs', hafter, rfl⟩
    · exact ⟨_ :: spans, cs', hafter, rfl⟩
  | chunkHeader hs h =>
    obtain ⟨spans, cs', htotal, hchunks, rfl⟩ := hr
    have hcons := inChunks_cons h htotal hchunks
    obtain rfl | rfl := hs
    · exact rest_content_of_chunks hcons
    · exact hcons
  | chunkData hl =>
    obtain ⟨spans, cs', htotal, hchunks, rfl⟩ := hr
    exact ⟨_ :: spans, cs', by simp [htotal, hl], hchunks, rfl⟩
  | chunkEnd => exact ⟨[], cs, rfl, hr, rfl⟩
  | lastChunk hs =>
    have hchunks : InChunks kind asks _ _ _ (.chunkHeader 0 :: cs) := ⟨[], cs, hr, rfl⟩
    obtain rfl | rfl := hs
    · exact rest_content_of_chunks hchunks
    · exact hchunks
  | trailersEnd => exact ⟨[], _, ⟨cs, hr, rfl⟩, rfl⟩
  | complete hs hm =>
    have hafter : AfterContent kind asks _ _ _ (.messageComplete _ :: cs) := ⟨_, cs, hm, hr, rfl⟩
    obtain rfl | rfl | rfl | rfl := hs
    · exact ⟨.nothing, _, hafter, rfl⟩
    · exact ⟨[], _, rfl, hafter, rfl⟩
    · exact ⟨[], _, hafter, rfl⟩
    · exact hafter

/-- Every stage can be brought to an end. -/
theorem exists_rest (hk : kind ≠ .other) (n k : ℕ) (s : Stage) : ∃ cs, Rest kind asks n k s cs := by
  have hdone (m) : AfterContent kind asks n k m [.messageComplete m] :=
    ⟨m, [], ⟨⟨rfl, rfl, rfl, rfl, rfl, rfl⟩, rfl, rfl⟩, .nil, rfl⟩
  have hfields (t m) : ∃ cs, InFields kind asks n k t m cs := by
    cases t with
    | false =>
      exact ⟨_, [], _, ⟨m, _, .nothing, ⟨rfl, rfl, rfl, rfl, rfl, rfl⟩, hdone m, rfl⟩, rfl⟩
    | true => exact ⟨_, [], _, ⟨_, hdone m, rfl⟩, rfl⟩
  have hchunks (m) : ∃ cs, InChunks kind asks n k m cs := by
    obtain ⟨cs, h⟩ := hfields true m
    exact ⟨_, [], cs, h, rfl⟩
  have hline : ∃ cs, AfterLine kind asks n k cs := by
    let m : Message :=
      { kind, method := .other, status := 0, major := 0, minor := 0, contentLength := 0
        hasContentLength := false, keepAlive := false, messageNumber := n, exchangeNumber := k
        upgradeRequested := false, connectRequested := false }
    obtain ⟨cs, h⟩ := hfields false m
    exact ⟨_, m, cs, rfl, rfl, h, rfl⟩
  have hbegin : ∃ cs, AfterBegin kind asks n k cs := by
    obtain ⟨cs, h⟩ := hline
    cases kind with
    | request =>
      exact ⟨_, .request [[]] [[]] (cons_ne_nil _ _) (cons_ne_nil _ _), cs, h, rfl⟩
    | response => exact ⟨_, .response [], cs, h, rfl⟩
    | other => exact absurd rfl hk
  cases s with
  | idle => exact ⟨[], .nil⟩
  | asked =>
    obtain ⟨cs, h⟩ := hbegin
    exact ⟨_, cs, h, rfl⟩
  | begun => exact hbegin
  | methods =>
    obtain ⟨cs, h⟩ := hline
    exact ⟨_, [], [[]], cs, cons_ne_nil _ _, h, rfl⟩
  | targets =>
    obtain ⟨cs, h⟩ := hline
    exact ⟨_, [], cs, h, rfl⟩
  | fields t m => exact hfields t m
  | named t m =>
    obtain ⟨cs, h⟩ := hfields t m
    exact ⟨_, [], [], cs, h, rfl⟩
  | valued t m =>
    obtain ⟨cs, h⟩ := hfields t m
    exact ⟨_, [], cs, h, rfl⟩
  | content m => exact ⟨_, .nothing, _, hdone m, rfl⟩
  | counted m left => exact ⟨_, [replicate left 0], _, by simp, hdone m, rfl⟩
  | untilClose m => exact ⟨_, [], _, hdone m, rfl⟩
  | chunks m => exact hchunks m
  | chunk m left =>
    obtain ⟨cs, h⟩ := hchunks m
    exact ⟨_, [replicate left 0], cs, by simp, h, rfl⟩
  | trailed m => exact ⟨_, hdone m⟩

/-- **Callbacks that follow one another begin a transcript.** -/
theorem Reports.isPrefix_transcript {g : Progress} (hk : kind ≠ .other)
    (h : Reports kind asks ⟨n, k, .idle⟩ cs g) :
    ∃ rest, Transcript kind asks n k (cs ++ rest) := by
  obtain ⟨rest, hrest⟩ : ∃ rest, Rest kind asks g.messages g.exchanges g.stage rest :=
    exists_rest hk _ _ _
  refine ⟨rest, ?_⟩
  have hreads : ∀ {g g' : Progress} {cs}, Reports kind asks g cs g' →
      Rest kind asks g'.messages g'.exchanges g'.stage rest →
      Rest kind asks g.messages g.exchanges g.stage (cs ++ rest) := by
    intro g g' cs h hr
    induction h with
    | nil => exact hr
    | cons hc _ ih => exact rest_of_follows hc (ih hr)
  exact hreads h hrest

end Completion

end WagoHttp.Http1
