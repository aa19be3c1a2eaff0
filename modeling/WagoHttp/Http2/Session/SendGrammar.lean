import WagoHttp.Http2.Session.Framing
import WagoHttp.Http2.Session.Messages

/-!
# The order of what is sent on a stream

`Outbound` reads the journal of a run for one stream: informational sections, the head of a message,
its body and a trailing section, in this order, and nothing after the message has ended or the
stream has been reset. `Outbound.next` rejects everything else. A session that takes RST_STREAM for
a stream that it has not opened yet can still open it later; `ResetsOpened` excludes this.
-/

namespace WagoHttp.Http2

open List SmallHpack

/-! ## The order -/

/-- How far a stream is in sending its message. -/
inductive Stage
  | start
  | body (bodyless : Bool)
  | ended
  /-- The stream has been reset or refused. -/
  | dead
  deriving DecidableEq

/-- Send a part of a message. -/
def Stage.send (bodyless : Bool) : Stage → Part → Option Stage
  | .start, .sent m endStream =>
    if m.informational then if endStream then none else some .start
    else some (if endStream then .ended else .body bodyless)
  | .body _, .sent m endStream => if m.informational || !endStream then none else some .ended
  | _, .sent .. => none
  | .body false, .sentData _ endStream => some (if endStream then .ended else .body false)
  | _, .sentData .. => none
  | stage, _ => some stage

/-- What the journal has about sending on a stream. -/
structure Outbound where
  opened : Bool := false
  method : Bytes := []
  stage : Stage := .start
  deriving DecidableEq

/-- The entry is the opening of the stream. -/
def Obs.opens (id : ℕ) : Obs → Bool
  | .opened id' => id' = id
  | _ => false

namespace Outbound

/-- The entry ends the stream: RST_STREAM in either direction, or GOAWAY that refuses it. -/
def cut (role : Role) (id : ℕ) (opened : Bool) : Obs → Bool
  | .received (.rstStream id' _) => id' = id
  | .received (.goAway last _) => opened && role.initiates id && last < id
  | .sent header _ => opened && header.type = .rstStream && header.streamID = id
  | _ => false

/-- Whether a section that is sent is the head of a response without a body. -/
def bodyless (role : Role) (x : Outbound) : Part → Bool
  | .sent m _ => m.noBody || (role = .server && x.method = ascii "HEAD")
  | _ => false

/-- Read an entry of the journal. -/
def next (role : Role) (id : ℕ) (x : Outbound) (entry : Entry) : Option Outbound :=
  let opened := x.opened || entry.obs.opens id
  if cut role id opened entry.obs then some { x with opened, stage := .dead }
  else
    match entry.part id with
    | none => some { x with opened }
    | some part => do
      let stage ← x.stage.send (x.bodyless role part) part
      some { opened, stage, method := firstNonEmpty x.method part.method }

/-- What a journal has about sending on a stream, or `none` if something is out of order. -/
def read (role : Role) (id : ℕ) (journal : List Entry) : Option Outbound :=
  journal.foldlM (next role id) {}

end Outbound

/-- **What is sent on a stream is in order.** -/
def SendsInOrder (role : Role) (id : ℕ) (journal : List Entry) : Prop :=
  (Outbound.read role id journal).isSome = true

instance (role : Role) (id : ℕ) (journal : List Entry) : Decidable (SendsInOrder role id journal) :=
  inferInstanceAs (Decidable (_ = _))

/-- The part is sent. -/
def Part.isSent : Part → Bool
  | .sent .. | .sentData .. => true
  | _ => false

namespace Outbound

variable {role : Role} {id : ℕ} {x : Outbound}

theorem read_append {j es : List Entry} (h : read role id j = some x) :
    read role id (j ++ es) = es.foldlM (next role id) x := by
  rw [read, foldlM_append]
  change (read role id j >>= _) = _
  rw [h]
  rfl

theorem cut_quiet {opened : Bool} {o : Obs} (fields : List HeaderField)
    (h : cut role id opened o = true) :
    o.opens id = false ∧ Entry.part id { obs := o, fields } = none := by
  cases o with
  | sent header payload =>
    simp only [cut, Bool.and_eq_true, decide_eq_true_eq] at h
    refine ⟨rfl, ?_⟩
    simp only [Entry.part, sentPart, h.1.2]
    rfl
  | _ => exact ⟨by simp_all [cut, Obs.opens], by simp_all [cut, Entry.part]⟩

theorem send_unsent {part : Part} (h : part.isSent = false) (bodyless : Bool) (stage : Stage) :
    stage.send bodyless part = some stage := by
  cases part with
  | sent => cases h
  | sentData => cases h
  | _ => simp [Stage.send]

theorem parts_cons (id : ℕ) (entry : Entry) (j : List Entry) :
    parts id (entry :: j) = (entry.part id).toList ++ parts id j := by
  cases h : entry.part id <;> simp [parts, h]

section Folds

variable {new : List Obs} {fields : List HeaderField}

/-- Entries that do not end the stream and have at most one part of a message. -/
theorem fold_part {m : Option Part} {y : Outbound}
    (hcut : ∀ o ∈ new, ∀ opened, cut role id opened o = false)
    (hp : parts id (new.map fun obs => { obs, fields }) = m.toList) {x : Outbound}
    (hy : m.elim (some x) (fun part => (x.stage.send (x.bodyless role part) part).map fun stage =>
      { x with stage, method := firstNonEmpty x.method part.method }) = some y) :
    (new.map fun obs => ({ obs, fields } : Entry)).foldlM (next role id) x =
      some { y with opened := x.opened || new.any (Obs.opens id) } := by
  induction new generalizing x y m with
  | nil =>
    rw [Option.toList_eq_nil_iff.1 hp.symm] at hy
    cases hy
    simp
  | cons o new ih =>
    have hcut' : ∀ o ∈ new, ∀ opened, cut role id opened o = false :=
      fun o' ho' => hcut o' (mem_cons_of_mem _ ho')
    rw [map_cons, parts_cons] at hp
    rw [map_cons, foldlM_cons]
    cases hpart : Entry.part id { obs := o, fields } with
    | none =>
      rw [hpart] at hp
      have hnext : next role id x { obs := o, fields } =
          some { x with opened := x.opened || o.opens id } := by
        simp [next, hcut o mem_cons_self, hpart]
      rw [hnext]
      refine (ih (x := { x with opened := x.opened || o.opens id }) hcut' hp
        (y := { y with opened := x.opened || o.opens id }) ?_).trans ?_
      · cases m with
        | none => cases hy; rfl
        | some part =>
          obtain ⟨stage, hs, rfl⟩ := Option.map_eq_some_iff.1 hy
          exact Option.map_eq_some_iff.2 ⟨stage, hs, rfl⟩
      · simp [Bool.or_assoc]
    | some part' =>
      rw [hpart, Option.toList_some, singleton_append] at hp
      cases m with
      | none => cases hp
      | some part =>
        obtain ⟨rfl, hp'⟩ := cons.inj hp
        obtain ⟨stage, hs, rfl⟩ := Option.map_eq_some_iff.1 hy
        have hnext : next role id x { obs := o, fields } =
            some { opened := x.opened || o.opens id, stage
                   method := firstNonEmpty x.method part'.method } := by
          simp [next, hcut o mem_cons_self, hpart, hs]
        rw [hnext]
        refine (ih hcut' (m := none) hp' rfl).trans ?_
        simp [Bool.or_assoc]

/-- Entries in which nothing is sent. They can end the stream. -/
theorem fold_unsent (role : Role) (hp : ∀ o ∈ new, ∀ part,
      Entry.part id { obs := o, fields } = some part → part.isSent = false) (x : Outbound) :
    ∃ x', (new.map fun obs => ({ obs, fields } : Entry)).foldlM (next role id) x = some x' ∧
      x'.opened = (x.opened || new.any (Obs.opens id)) ∧
      x'.method = (parts id (new.map fun obs => { obs, fields })).foldl
        (fun method part => firstNonEmpty method part.method) x.method ∧
      (x'.stage = x.stage ∨ x'.stage = .dead ∧ ∃ before o after, new = before ++ o :: after ∧
        cut role id (x.opened || before.any (Obs.opens id)) o = true) := by
  induction new generalizing x with
  | nil => exact ⟨x, rfl, by simp, rfl, .inl rfl⟩
  | cons o new ih =>
    have hp' : ∀ o ∈ new, ∀ part, Entry.part id { obs := o, fields } = some part →
        part.isSent = false := fun o' ho' => hp o' (mem_cons_of_mem _ ho')
    rw [map_cons, foldlM_cons, parts_cons]
    by_cases hc : cut role id (x.opened || o.opens id) o = true
    · obtain ⟨hopens, hnone⟩ := cut_quiet fields hc
      have hnext : next role id x { obs := o, fields } =
          some { x with opened := x.opened || o.opens id, stage := .dead } := by
        rw [next, if_pos hc]
      obtain ⟨x', hx', hopened, hmethod, hstage⟩ :=
        ih hp' { x with opened := x.opened || o.opens id, stage := .dead }
      rw [hnext, hnone]
      refine ⟨x', hx', ?_, hmethod, .inr ⟨hstage.elim (fun h => h) And.left,
        [], o, new, rfl, ?_⟩⟩
      · simp [hopened, Bool.or_assoc]
      · simpa [hopens] using hc
    · have hc : cut role id (x.opened || o.opens id) o = false := by simpa using hc
      have hnext : next role id x { obs := o, fields } = some { x with
          opened := x.opened || o.opens id
          method := (Entry.part id { obs := o, fields }).toList.foldl
            (fun method part => firstNonEmpty method part.method) x.method } := by
        cases hpart : Entry.part id { obs := o, fields } with
        | none => simp [next, hc, hpart]
        | some part =>
          have hsent := hp o mem_cons_self part hpart
          simp [next, hc, hpart, send_unsent hsent]
      rw [hnext]
      obtain ⟨x', hx', hopened, hmethod, hstage⟩ := ih hp' { x with
          opened := x.opened || o.opens id
          method := (Entry.part id { obs := o, fields }).toList.foldl
            (fun method part => firstNonEmpty method part.method) x.method }
      refine ⟨x', hx', ?_, ?_, hstage.imp_right fun hdead => ⟨hdead.1, ?_⟩⟩
      · simp [hopened, Bool.or_assoc]
      · rw [hmethod, foldl_append]
      · obtain ⟨before, o', after, rfl, hcut⟩ := hdead.2
        refine ⟨o :: before, o', after, rfl, ?_⟩
        simpa [Bool.or_assoc] using hcut

end Folds

end Outbound

namespace Session

open Endpoint

variable {X : Externals} {s s' : Session X} {a : Action} {j : List Entry} {id : ℕ}

/-! ## The method of a request -/

/-- Every stream has the method that the journal has. -/
structure Named (s : Session X) (j : List Entry) : Prop where
  method : s.failed = none → ∀ id st, s.stream? id = some st → st.method = methodOf (parts id j)
  unopened : ∀ id, .opened id ∉ s.history → parts id j = []

section Steps

variable {fields : List HeaderField} {reads : Bool} {part : Part} {st : Stream}

theorem Named.calm (h : Named s j) (hc : Calm (messageSide reads) s s')
    (hf : s'.failed = none → s.failed = none) : Named s' (j ++ newEntries s s' fields) := by
  have hparts : ∀ id, parts id (j ++ newEntries s s' fields) = parts id j := fun id => by
    rw [parts_append, hc.parts_newEntries, append_nil]
  refine ⟨fun hf' id st' hst' => ?_, fun id hn => ?_⟩
  · rw [hparts]
    obtain ⟨st, hst, hsame⟩ | ⟨hnew, hfresh⟩ := hc.streams id st' hst'
    · exact (congrArg Stream.Record.method hsame.1).trans (h.method (hf hf') id st hst)
    · rw [h.unopened id hnew]
      exact congrArg Stream.Record.method hfresh
  · rw [hparts]
    exact h.unopened id fun ho => hn (hc.history.subset ho)

theorem Named.moves (h : Named s j) (hm : Moves reads s s' fields id part st)
    (hf : s'.failed = none → s.failed = none)
    (hst : st.method = firstNonEmpty (methodOf (parts id j)) part.method) :
    Named s' (j ++ newEntries s s' fields) := by
  refine ⟨fun hf' id' st' hst' => ?_, fun id' hn => ?_⟩
  · rw [parts_append, hm.parts]
    by_cases hid : id' = id
    · subst hid
      rw [if_pos rfl, methodOf_concat, ← hst]
      exact congrArg Stream.Record.method (hm.self st' hst').1
    · rw [if_neg hid, append_nil]
      obtain ⟨st₀, hst₀, hsame⟩ | ⟨hnew, hfresh⟩ := hm.others id' st' hid hst'
      · exact (congrArg Stream.Record.method hsame.1).trans (h.method (hf hf') id' st₀ hst₀)
      · rw [h.unopened id' hnew]
        exact congrArg Stream.Record.method hfresh
  · have hid : id' ≠ id := by
      rintro rfl
      exact hn hm.opened
    rw [parts_append, hm.parts, if_neg hid, append_nil]
    exact h.unopened id' fun ho => hn (hm.history.subset ho)

/-- The session has failed, and nothing shows. -/
theorem Named.fails (h : Named s j) (hf : s'.failed ≠ none) (hh : s.history <+: s'.history)
    (hp : ∀ id, parts id (newEntries s s' fields) = []) :
    Named s' (j ++ newEntries s s' fields) := by
  refine ⟨fun hf' => absurd hf' hf, fun id hn => ?_⟩
  rw [parts_append, hp, append_nil]
  exact h.unopened id fun ho => hn (hh.subset ho)

theorem sendSection_method (st : Stream) (m : HeaderSectionMetadata) :
    (Stream.sendSection st m).method =
      firstNonEmpty st.method (if m.informational then [] else m.method) := by
  unfold Stream.sendSection
  cases m.informational
  · simp only [Bool.not_false, if_true, Bool.false_eq_true, if_false]
    split_ifs <;> rfl
  · simp only [Bool.not_true, Bool.false_eq_true, if_false, if_true, firstNonEmpty_nil]
    split_ifs <;> rfl

theorem Named.sends (h : Named s j) (hs : Sends s fields id part st) (hf : s.failed = none) :
    st.method = firstNonEmpty (methodOf (parts id j)) part.method := by
  cases hs with
  | headers checked =>
    rw [method_endLocal, sendSection_method, ← h.method hf id _ (headersChecked checked).stream]
    rfl
  | promise _ new =>
    rw [h.unopened id new]
    rfl
  | data checked =>
    rw [method_endLocal, ← h.method hf id _ (dataChecked checked).stream]
    exact (firstNonEmpty_nil _).symm
  | empty checked =>
    rw [method_endLocal, ← h.method hf id _ (dataChecked checked).stream]
    exact (firstNonEmpty_nil _).symm

theorem Named.ends (h : Named s j) (he : Ends reads s s' id) (hf : s.failed = none) :
    Named s' (j ++ newEntries s s' []) := by
  cases he with
  | nothing calm => exact h.calm calm fun _ => hf
  | ends stream _ _ moves =>
    refine h.moves moves (fun _ => hf) ?_
    rw [← h.method hf id _ stream]
    exact (firstNonEmpty_nil _).symm

theorem Named.receives (h : Named s j) (hp : s.currentHeaderPush = false) (hf : s.failed = none)
    (hr : Receives s s') : Named s' (j ++ newEntries s s' []) := by
  cases hr with
  | nothing calm => exact h.calm calm fun _ => hf
  | promise _ push => exact absurd (push.symm.trans hp) (by decide)
  | informational stream _ _ informational moves =>
    refine h.moves moves (fun _ => hf) ?_
    rw [← h.method hf _ _ stream]
    simp [Part.method, informational, firstNonEmpty_nil]
  | @final st t stream _ _ final moves _ failed ends =>
    have hmoved : Named t (j ++ newEntries s t []) := by
      refine h.moves moves (fun _ => hf) ?_
      rw [← h.method hf _ _ stream]
      simp [Part.method, final, Stream.receiveSection]
    have hended := hmoved.ends ends (failed.trans hf)
    rwa [append_assoc, ← newEntries_trans moves.history] at hended
    cases ends with
    | nothing calm => exact calm.history
    | ends _ _ _ moves => exact moves.history

end Steps

/-- What a server knows of the requests that it answers. -/
structure Serves (s : Session X) (j : List Entry) : Prop where
  role : s.role = .server
  bounded : Bounded s.endpoint
  framed : s.Framed
  pushless : s.failed = none → s.decoder.active = true → s.currentHeaderPush = false
  named : Named s j

theorem failed_onPushPromise {promised : ℕ} (hrole : s.role = .server) :
    (s.onPushPromise id promised).failed ≠ none := by
  unfold onPushPromise
  split
  · assumption
  · rw [if_pos (by simp [hrole])]
    exact failed_connectionError _ _ _

/-- A server receives no pushed request. -/
theorem pushless_act (hw : s.WellFormed) (ha : s.Allows a) (h : Serves s j)
    (hf : (s.act a).failed = none) (hactive : (s.act a).decoder.active = true) :
    (s.act a).currentHeaderPush = false := by
  have hf₀ := failed_of_act hw ha hf
  have hcalm (hc : Calm (blindSide true) s (s.act a)) : (s.act a).currentHeaderPush = false := by
    have hb := hc.block rfl
    simp only [Session.block, Block.mk.injEq] at hb
    rw [hb.2.2.2.2]
    exact h.pushless hf₀ (hb.1 ▸ hactive)
  cases a with
  | call call =>
    exact hcalm (calm_call blindSide_ignoresSends blindSide_ignoresEvents.frame hw.ids h.bounded)
  | preface => exact hcalm (.of_eq rfl rfl rfl)
  | parsed parser => exact hcalm (.of_eq rfl rfl rfl)
  | fail code reason => exact hcalm (calm_connectionError s _ _)
  | deliver call =>
    by_cases hc : Callback.isControl call
    · exact hcalm (walks_controlDeliver le_rfl blindSide_ignoresEvents.resets hc).calm
    have hnote := calm_note_received (blindSide true) s call
    have hids : (s.note (.received call)).endpoint.IdSpace := hw.ids.note (by simp)
    cases call with
    | frameBegin header =>
      have ht : header.type = .headers := not_not.1 hc
      rcases begun_onFrameBegin hids ht hf with hb | hb
      · exact hb.push
      · have hinactive := h.framed.inactive hf₀ (block_eq_none ha ht)
        exact absurd (hactive.symm.trans (hb.trans hinactive)) (by decide)
    | data id data endStream =>
      exact hcalm (hnote.trans (walks_onData le_rfl blindSide_ignoresEvents data endStream).calm)
    | headerBlockEnd id endStream =>
      obtain ⟨header, -, -, -, hblock⟩ := ha
      have hinactive := inactive_onHeaderBlockEnd hids (fun hactive => Option.some.inj
        ((h.framed.block hf₀ hactive).symm.trans hblock)) hf
      exact absurd (hactive.symm.trans hinactive) (by decide)
    | pushPromise id promised => exact absurd hf (failed_onPushPromise h.role)
    | frameComplete header =>
      exact hcalm (hnote.trans (walks_onFrameComplete le_rfl blindSide_ignoresEvents).calm)
    | _ => exact absurd trivial hc

theorem named_call {call : Call} (hw : s.WellFormed) (h : Serves s j) :
    Named (s.act (.call call)) (j ++ s.entries (.call call)) := by
  have ha : s.Allows (.call call) := trivial
  cases sending_call call hw.ids h.bounded with
  | nothing hc => exact h.named.calm hc (failed_of_act hw ha)
  | @part t id part st hc _ hfailed _ hs hm _ =>
    change Moves true t (s.act (.call call)) _ _ _ _ at hm
    have hf := hs.failed
    have ht : Named t (j ++ newEntries s t (Action.call call).fields) :=
      h.named.calm hc fun _ => hfailed ▸ hf
    have := ht.moves hm (fun _ => hf) (ht.sends hs hf)
    rwa [append_assoc, ← newEntries_trans hc.history hm.history] at this

variable {call : Callback} {code : ErrorCode} {last : ℕ}

theorem named_deliver (hw : s.WellFormed) (ha : s.Allows (.deliver call)) (h : Serves s j) :
    Named (s.act (.deliver call)) (j ++ s.entries (.deliver call)) := by
  have hf := failed_of_act hw ha
  have hcalm {reads : Bool} (hc : Calm (messageSide reads) s (s.act (.deliver call))) :
      Named (s.act (.deliver call)) (j ++ s.entries (.deliver call)) := h.named.calm hc hf
  by_cases hc : Callback.isControl call
  · exact hcalm (walks_controlDeliver le_rfl (messageSide_ignoresResets true) hc).calm
  have hnote := calm_note_received (messageSide true) s call
  have hnamed : Named (s.note (.received call)) (j ++ newEntries s (s.note (.received call)) []) :=
    h.named.calm hnote fun hf => hf
  have hids : (s.note (.received call)).endpoint.IdSpace := hw.ids.note (by simp)
  have hopen : ∀ id st, (s.note (.received call)).stream? id = some st →
      .opened id ∈ (s.note (.received call)).history := fun id st hst => (hids.opened id st hst).1
  -- The callback is noted before it is handled.
  have hentries {t : Session X} (hh : (s.note (.received call)).history <+: t.history)
      (ht : Named t (j ++ newEntries s (s.note (.received call)) [] ++
        newEntries (s.note (.received call)) t [])) : Named t (j ++ newEntries s t []) := by
    rwa [append_assoc, ← newEntries_trans hnote.history hh] at ht
  cases call with
  | frameBegin header =>
    exact hcalm (hnote.weaken.trans
      (walks_onFrameBegin le_rfl rfl (messageSide_ignoresResets false) hids).calm)
  | pushPromise id promised =>
    exact hcalm
      (hnote.weaken.trans (walks_onPushPromise le_rfl rfl (messageSide_ignoresResets false) hids _).calm)
  | data id data endStream =>
    obtain hc | ⟨hfail, hhist, hparts⟩ | ⟨st, hf₀, hst, -, hm⟩ :=
      onData_cases data endStream (hopen id)
    · exact hcalm (hnote.trans hc)
    · exact hentries hhist (hnamed.fails hfail hhist hparts)
    · refine hentries hm.history (hnamed.moves hm (fun _ => hf₀) ?_)
      rw [← hnamed.method hf₀ id st hst]
      exact (firstNonEmpty_nil _).symm
  | headerBlockEnd id endStream =>
    obtain hc | ⟨hf₀, hactive, hr⟩ := receives_onHeaderBlockEnd id endStream hopen
    · exact hcalm (hnote.weaken.trans hc)
    · exact hentries (walks_onHeaderBlockEnd le_rfl blindSide_ignoresReceives id endStream).calm.history
        (hnamed.receives (h.pushless hf₀ hactive) hf₀ hr)
  | frameComplete header =>
    obtain hc | ⟨t, hf₀, hft, -, hc, hends⟩ := onFrameComplete_data hids (not_not.1 hc)
    · exact hcalm (hnote.trans hc)
    · have ht : Named t (j ++ newEntries s t []) := h.named.calm (hnote.trans hc) fun _ => hf₀
      have := ht.ends hends hft
      rwa [append_assoc, ← newEntries_trans (hnote.trans hc).history] at this
      cases hends with
      | nothing calm => exact calm.history
      | ends _ _ _ moves => exact moves.history
  | _ => exact absurd trivial hc

theorem Serves.act (hw : s.WellFormed) (ha : s.Allows a) (h : Serves s j) :
    Serves (s.act a) (j ++ s.entries a) := by
  refine ⟨(role_act hw ha).trans h.role, bounded_act hw ha h.bounded, framed_act hw ha h.framed,
    pushless_act hw ha h, ?_⟩
  cases a with
  | call call => exact named_call hw h
  | deliver call => exact named_deliver hw ha h
  | preface =>
    have hc : Calm (messageSide true) s (s.act .preface) := .of_eq rfl rfl rfl
    exact h.named.calm hc (failed_of_act hw ha)
  | parsed parser =>
    have hc : Calm (messageSide true) s (s.act (.parsed parser)) := .of_eq rfl rfl rfl
    exact h.named.calm hc (failed_of_act hw ha)
  | fail code reason =>
    have hc : Calm (messageSide true) s (s.act (.fail code reason)) := calm_connectionError s _ _
    exact h.named.calm hc (failed_of_act hw ha)

theorem serves_newSession {limits : SessionLimits} (h : newSession X .server limits = .ok s) :
    Serves s [] := by
  have hframed := framed_newSession h
  have hbounded := (steady_newSession h).bounded
  obtain ⟨output, header, payload, -, rfl⟩ := newSession_ok h
  refine ⟨rfl, hbounded, hframed, fun _ ha => absurd ha ?_, fun _ id st hst => ?_, fun _ _ => rfl⟩
  · simp [init, HeaderDecoder.new]
  · exact absurd hst (by simp [stream?, init])

/-! ## The side of what is sent -/

/-- What a stream has sent. -/
def sendSide : Side where
  same st st' := st'.sentHeaders = st.sentHeaders ∧ st'.sendNoBody = st.sendNoBody ∧
    st.state.Narrows st'.state
  fresh st := st.sentHeaders = false
  shows
    | .sent header _ => FrameHeader.showsPart header
    | _ => false
  reads := false
  refl _ := ⟨rfl, rfl, narrows_refl _⟩
  trans h h' := ⟨h'.1.trans h.1, h'.2.1.trans h.2.1, h.2.2.trans h'.2.2⟩
  closed h := h.2.2.closed
  fresh_of_same h hf := h.1.trans hf
  fresh_new _ _ _ _ := rfl
  windows _ _ _ := ⟨rfl, rfl, narrows_refl _⟩
  state h := ⟨rfl, rfl, h⟩
  shows_sent h _ := decide_showsPart h
  shows_queued _ := rfl

theorem sendSide_ignoresReceives {id : ℕ} : sendSide.IgnoresReceives id where
  frame header payload ht _ := messageSide_ignoresReset true header payload ht rfl
  queued _ := rfl
  body _ _ := ⟨rfl, rfl, narrows_refl _⟩
  receives _ _ _ := ⟨rfl, rfl, narrows_refl _⟩
  method _ _ := ⟨rfl, rfl, narrows_refl _⟩
  reads := rfl

theorem same_send {reads : Bool} {st st' : Stream} (h : (messageSide reads).same st st') :
    sendSide.same st st' :=
  ⟨congrArg Stream.Record.sentHeaders h.1, congrArg Stream.Record.sendNoBody h.1, h.2⟩

/-- What leaves the messages alone leaves alone what is sent. -/
theorem Calm.send {reads : Bool} (h : Calm (messageSide reads) s s') : Calm sendSide s s' := by
  refine ⟨fun id st' hst' => ?_, ?_, h.history, nofun, h.resets⟩
  · exact (h.streams id st' hst').imp (fun ⟨st, hst, hsame⟩ => ⟨st, hst, same_send hsame⟩)
      fun ⟨hnew, hfresh⟩ => ⟨hnew, congrArg Stream.Record.sentHeaders hfresh⟩
  · obtain ⟨new, hnew⟩ := h.history
    have hshown := h.not_shown hnew.symm
    unfold Session.shown
    have hnil : new.filter sendSide.shows = [] := by
      rw [filter_eq_nil_iff]
      intro o ho
      have := hshown o ho
      cases o <;> simp_all [messageSide, sendSide]
    rw [← hnew, filter_append, hnil, append_nil]

/-! ## The stream agrees with the journal -/

/-- The stream has recorded what it has sent. -/
structure Recorded (x : Outbound) (st : Stream) : Prop where
  start : x.stage = .start → st.sentHeaders = false
  body : ∀ b, x.stage = .body b → st.sentHeaders = true ∧ (b = true → st.sendNoBody = true)
  past : x.stage = .ended ∨ x.stage = .dead → canSend st.state = false
  reserved : st.state = .reservedLocal → st.sentHeaders = false

theorem Recorded.same {x : Outbound} {st st' : Stream} (h : Recorded x st)
    (hs : sendSide.same st st') : Recorded x st' := by
  obtain ⟨hheaders, hbody, hstate⟩ := hs
  refine ⟨fun hx => hheaders.trans (h.start hx), fun b hx => ?_, fun hx => ?_, fun hr => ?_⟩
  · rw [hheaders, hbody]
    exact h.body b hx
  · rw [Bool.eq_false_iff]
    intro hcan
    exact absurd (hstate.send hcan) (by rw [h.past hx]; decide)
  · exact hheaders.trans (h.reserved (hstate.pushed hr))

theorem recorded_fresh {x : Outbound} {st : Stream} (hx : x.stage = .start)
    (hst : st.sentHeaders = false) : Recorded x st := by
  refine ⟨fun _ => hst, fun _ h => ?_, fun h => ?_, fun _ => hst⟩
  · cases hx.symm.trans h
  · rcases h with h | h <;> cases hx.symm.trans h

theorem recorded_closed {x : Outbound} {st : Stream} (hx : x.stage = .dead)
    (hst : st.state = .closed) : Recorded x st := by
  refine ⟨fun h => ?_, fun _ h => ?_, fun _ => ?_, fun h => ?_⟩
  · cases hx.symm.trans h
  · cases hx.symm.trans h
  · rw [hst]
    rfl
  · cases hst.symm.trans h

/-- What the journal has about sending on a stream fits the session. -/
structure Tracks (role : Role) (s : Session X) (j : List Entry) (id : ℕ) (x : Outbound) :
    Prop where
  read : Outbound.read role id j = some x
  opened : x.opened = true ↔ .opened id ∈ s.history
  method : x.method = methodOf (parts id j)
  unopened : .opened id ∉ s.history → x.stage = .start ∨
    x.stage = .dead ∧ (s.failed ≠ none ∨ ¬role.initiates id ∧ id ≤ s.lastPeerStream)
  agrees : s.failed = none → ∀ st, s.stream? id = some st → Recorded x st

theorem any_opens {new : List Obs} : new.any (Obs.opens id) = true ↔ .opened id ∈ new := by
  rw [any_eq_true]
  constructor
  · rintro ⟨o, ho, hopens⟩
    cases o with
    | opened id' => simpa [Obs.opens] using (of_decide_eq_true hopens : id' = id) ▸ ho
    | _ => cases hopens
  · exact fun h => ⟨_, h, by simp [Obs.opens]⟩

theorem foldl_method (ps ps' : List Part) :
    ps'.foldl (fun method part => firstNonEmpty method part.method) (methodOf ps) =
      methodOf (ps ++ ps') := by
  rw [methodOf, methodOf, foldl_append]

/-! ## What ends a stream -/

theorem closed_onRSTStream {st : Stream} (h : (s.onRSTStream id code).stream? id = some st) :
    st.state = .closed := by
  unfold onRSTStream at h
  split at h
  · next hst =>
    split at h
    · rw [stream?, streams_connectionError] at h
      cases hst.symm.trans h
    · cases hst.symm.trans h
  · simp only [stream?, offerEvent, (queueEvent_frame _ _).1] at h
    exact closed_of_closeStream h

/-- Streams are refused or left alone. -/
theorem stream_refuseStreams (ids : List ℕ) {st : Stream}
    (h : (refuseStreams last ids s).stream? id = some st) :
    ∃ st₀, s.stream? id = some st₀ ∧ st.isLocal = st₀.isLocal ∧
      (st₀.state = .closed → st.state = .closed) := by
  induction ids generalizing s with
  | nil => exact ⟨st, h, rfl, fun hc => hc⟩
  | cons id' ids ih =>
    unfold refuseStreams at h
    split at h
    · exact ih h
    split at h
    · obtain ⟨st₁, hst₁, hlocal, hclosed⟩ := ih h
      simp only [stream?, offerEvent, (queueEvent_frame _ _).1] at hst₁
      obtain ⟨st₀, hst₀, rfl | ⟨-, -, rfl⟩⟩ := stream_closeStream hst₁
      · exact ⟨st₁, hst₀, hlocal, hclosed⟩
      · exact ⟨st₀, hst₀, hlocal, fun _ => hclosed rfl⟩
    · exact ih h

/-- The streams of this endpoint above the last one are refused. -/
theorem closed_refuseStreams {ids : List ℕ} {st : Stream} (hid : id ∈ ids) (hlt : last < id)
    (hlocal : st.isLocal = true) (h : (refuseStreams last ids s).stream? id = some st) :
    st.state = .closed := by
  induction ids generalizing s with
  | nil => cases hid
  | cons id' ids ih =>
    by_cases hmem : id ∈ ids
    · unfold refuseStreams at h
      split at h
      · exact ih hmem h
      split at h <;> exact ih hmem h
    obtain rfl : id = id' := (mem_cons.1 hid).resolve_right hmem
    unfold refuseStreams at h
    split at h
    · next hnone =>
      obtain ⟨st₀, hst₀, -⟩ := stream_refuseStreams ids h
      cases hnone.symm.trans hst₀
    next st' hst' =>
    split at h
    · obtain ⟨st₀, hst₀, -, hclosed⟩ := stream_refuseStreams ids h
      simp only [stream?, offerEvent, (queueEvent_frame _ _).1] at hst₀
      exact hclosed (closed_of_closeStream hst₀)
    · next hkept =>
      obtain ⟨st₀, hst₀, hlocal₀, hclosed⟩ := stream_refuseStreams ids h
      cases hst'.symm.trans hst₀
      refine hclosed (by_contra fun hs => hkept ⟨hlocal₀ ▸ hlocal, hlt, hs⟩)

theorem closed_onGoAway {st : Stream} (hf : (s.onGoAway last code).failed = none) (hlt : last < id)
    (hlocal : st.isLocal = true) (h : (s.onGoAway last code).stream? id = some st) :
    st.state = .closed := by
  unfold onGoAway at h hf
  split at h
  · next hinc =>
    rw [if_pos hinc] at hf
    exact absurd hf (failed_connectionError _ _ _)
  · simp only [rangeStreams, stream?, offerEvent, (queueEvent_frame _ _).1] at h
    obtain ⟨st₀, hst₀, -⟩ := stream_refuseStreams _ h
    refine closed_refuseStreams ?_ hlt hlocal h
    rw [(X.rangeOrder_perm _ _).mem_iff, ← AList.mem_keys, ← AList.lookup_isSome]
    exact Option.isSome_iff_exists.2 ⟨st₀, hst₀⟩

/-- **A callback that ends a stream closes it.** -/
theorem closed_of_cut {role : Role} {st : Stream} (hw : s.WellFormed)
    (ha : s.Allows (.deliver call)) (hrole : s.role = role)
    (hcut : Outbound.cut role id true (.received call) = true)
    (hf : (s.act (.deliver call)).failed = none)
    (hst : (s.act (.deliver call)).stream? id = some st) : st.state = .closed := by
  cases call with
  | rstStream id' code =>
    obtain rfl : id' = id := of_decide_eq_true hcut
    exact closed_onRSTStream hst
  | goAway last code =>
    simp only [Outbound.cut, Bool.true_and, Bool.and_eq_true, decide_eq_true_eq] at hcut
    have hlocal : st.isLocal = true := by
      refine ((hw.act ha).ids.opened id st hst).2.2 ?_
      change (s.act (.deliver (.goAway last code))).role.initiates id
      rw [role_act hw ha, hrole]
      exact hcut.1
    exact closed_onGoAway hf hcut.2 hlocal hst
  | _ => cases hcut

/-! ## Sending -/

section Sending

variable {role : Role} {x : Outbound} {st : Stream} {fields : List HeaderField} {part : Part}

theorem sendSection_sentHeaders (st : Stream) (m : HeaderSectionMetadata) :
    (Stream.sendSection st m).sentHeaders = (st.sentHeaders || !m.informational) := by
  unfold Stream.sendSection
  cases m.informational
  · simp only [Bool.not_false, if_true, Bool.or_true]
    split_ifs <;> rfl
  · simp only [Bool.not_true, Bool.false_eq_true, if_false, Bool.or_false]
    split_ifs <;> rfl

theorem sendSection_sendNoBody (st : Stream) {m : HeaderSectionMetadata}
    (h : m.informational = false) : (Stream.sendSection st m).sendNoBody =
      (m.noBody || (st.method == ascii "HEAD" && m.response)) := by
  unfold Stream.sendSection
  simp only [h, Bool.not_false, if_true]
  split_ifs <;> rfl

/-- The end of what is sent. -/
theorem recorded_ended (hreserved : st.state ≠ .reservedLocal) (opened : Bool) (method : Bytes) :
    Recorded { opened, method, stage := .ended } (Stream.endLocal st true) := by
  refine ⟨nofun, nofun, fun _ => ?_, fun hr => ?_⟩
  · change canSend (endLocalState st.state) = false
    cases hs : st.state <;> first | rfl | exact absurd hs hreserved
  · have hr : endLocalState st.state = .reservedLocal := hr
    cases hs : st.state <;> rw [hs] at hr <;> cases hr

variable {endStream : Bool}

theorem recorded_endLocal {stage : Stage} (hreserved : st.state ≠ .reservedLocal)
    (h : ∀ opened method, Recorded { opened, method, stage } st) (opened : Bool) (method : Bytes) :
    Recorded { opened, method, stage := if endStream then .ended else stage }
      (Stream.endLocal st endStream) := by
  cases endStream with
  | false => exact h opened method
  | true => exact recorded_ended hreserved opened method

theorem recorded_headers (hx : Recorded x st) (hc : HeadersChecked s id fields endStream st)
    (hrole : s.role = role) (hmethod : role = .server → st.method = x.method) :
    ∃ stage, x.stage.send (x.bodyless role (.sent (inspectHeaderSection fields) endStream))
        (.sent (inspectHeaderSection fields) endStream) = some stage ∧
      ∀ opened method, Recorded { opened, method, stage }
        (Stream.endLocal (Stream.sendSection st (inspectHeaderSection fields)) endStream) := by
  have hstate : (Stream.sendSection st (inspectHeaderSection fields)).state ≠ .reservedLocal := by
    rw [sendSection_state]
    split
    · decide
    · assumption
  have hheaders := sendSection_sentHeaders st (inspectHeaderSection fields)
  have hvalid := hc.valid
  cases hstage : x.stage with
  | start =>
    have hsent := hx.start hstage
    cases hinf : (inspectHeaderSection fields).informational with
    | true =>
      obtain ⟨-, rfl⟩ := hc.informational hinf
      refine ⟨.start, by simp [Stage.send, hinf], fun opened method => ?_⟩
      refine ⟨fun _ => ?_, nofun, by simp, fun hr => absurd hr hstate⟩
      rw [sentHeaders_endLocal, hheaders, hsent, hinf]
      rfl
    | false =>
      refine ⟨_, by simp only [Stage.send, hinf, Bool.false_eq_true, if_false]; rfl, ?_⟩
      refine recorded_endLocal hstate fun opened method => ⟨nofun, ?_, by simp,
        fun hr => absurd hr hstate⟩
      rintro b ⟨⟩
      refine ⟨by simp [hheaders, hinf], fun hb => ?_⟩
      rw [sendSection_sendNoBody st hinf]
      simp only [Outbound.bodyless, Bool.or_eq_true, Bool.and_eq_true, decide_eq_true_eq] at hb
      rcases hb with hb | ⟨rfl, hb⟩
      · simp [hb]
      · -- A server sends a response, which has a status.
        rw [hsent, hrole] at hvalid
        simp [(response_metadata rfl hvalid).1, hmethod rfl, hb]
  | body b =>
    have hsent := (hx.body b hstage).1
    obtain rfl := hc.trailing hsent
    rw [hsent] at hvalid
    have hinf := (trailer_metadata hvalid).1
    exact ⟨.ended, by simp [Stage.send, hinf], recorded_ended hstate⟩
  | ended => exact absurd (hx.past (.inl hstage)) (by rw [hc.can]; decide)
  | dead => exact absurd (hx.past (.inr hstage)) (by rw [hc.can]; decide)

/-- A piece of a body. -/
theorem recorded_data {src : Bytes} {n : ℕ} {last : Bool} {st' : Stream} (hx : Recorded x st)
    (hc : DataChecked s id src st) (hsame : sendSide.same st st') :
    ∃ stage, x.stage.send (x.bodyless role (.sentData n last)) (.sentData n last) = some stage ∧
      ∀ opened method, Recorded { opened, method, stage } (Stream.endLocal st' last) := by
  have hst' := hx.same hsame
  cases hstage : x.stage with
  | body b =>
    cases b with
    | true => exact absurd ((hx.body true hstage).2 rfl) (by rw [hc.body]; decide)
    | false =>
      have hsent := (hst'.body false hstage).1
      have hstate : st'.state ≠ .reservedLocal := fun hr =>
        absurd (hst'.reserved hr) (by rw [hsent]; decide)
      refine ⟨_, rfl, recorded_endLocal hstate fun opened method => ⟨nofun, ?_, by simp,
        hst'.reserved⟩⟩
      rintro b ⟨⟩
      exact ⟨hsent, nofun⟩
  | start => exact absurd (hx.start hstage) (by rw [hc.started]; decide)
  | ended => exact absurd (hx.past (.inl hstage)) (by rw [hc.can]; decide)
  | dead => exact absurd (hx.past (.inr hstage)) (by rw [hc.can]; decide)

/-- **What is sent is in order, and the stream records it.** -/
theorem recorded_sends (hs : Sends s fields id part st) (hrole : s.role = role)
    (hx : ∀ st, s.stream? id = some st → Recorded x st)
    (hnew : .opened id ∉ s.history → x.stage = .start)
    (hmethod : role = .server → ∀ st, s.stream? id = some st → st.method = x.method) :
    ∃ stage, x.stage.send (x.bodyless role part) part = some stage ∧
      ∀ opened method, Recorded { opened, method, stage } st := by
  cases hs with
  | headers checked =>
    have hc := headersChecked checked
    exact recorded_headers (hx _ hc.stream) hc hrole fun hserver => hmethod hserver _ hc.stream
  | promise _ new =>
    refine ⟨x.stage, Outbound.send_unsent rfl _ _, fun opened method => ?_⟩
    rw [hnew new]
    exact ⟨fun _ => rfl, nofun, by simp, fun _ => rfl⟩
  | data checked =>
    have hc := dataChecked checked
    exact recorded_data (hx _ hc.stream) hc ⟨rfl, rfl, narrows_refl _⟩
  | empty checked =>
    have hc := dataChecked checked
    exact recorded_data (hx _ hc.stream) hc (sendSide.refl _)

end Sending

/-! ## Runs -/

/-- RST_STREAM names no stream of this endpoint that it has not opened yet, unless this fails the
session. -/
def ResetsOpened (s : Session X) : Action → Prop
  | .deliver (.rstStream id _) =>
    s.role.initiates id → .opened id ∈ s.history ∨ s.lastPeerStream < id
  | _ => True

instance : DecidableRel (ResetsOpened (X := X)) := fun s a => by
  induction a using Action.casesOn with
  | deliver call =>
    induction call using Callback.casesOn <;> (dsimp only [ResetsOpened]; infer_instance)
  | _ => exact .isTrue trivial

section Runs

variable {role : Role} {x : Outbound}

/-- A stream that is reset before it is opened is never opened. -/
theorem unopened_of_rst {code : ErrorCode} (hw : s.WellFormed)
    (ha : s.Allows (.deliver (.rstStream id code)))
    (hok : s.ResetsOpened (.deliver (.rstStream id code)))
    (hn : .opened id ∉ (s.act (.deliver (.rstStream id code))).history) :
    (s.act (.deliver (.rstStream id code))).failed ≠ none ∨
      ¬s.role.initiates id ∧ id ≤ (s.act (.deliver (.rstStream id code))).lastPeerStream := by
  have hn₀ : .opened id ∉ s.history := fun ho => hn ((hw.reaches ha).history.subset ho)
  have hnone : (s.note (.received (.rstStream id code))).stream? id = none := by
    by_contra hne
    obtain ⟨st, hst⟩ := Option.ne_none_iff_exists'.1 hne
    exact hn₀ (hw.ids.opened id st hst).1
  by_cases hlt : s.lastPeerStream < id
  · left
    change ((s.note (.received (.rstStream id code))).onRSTStream id code).failed ≠ none
    unfold onRSTStream
    rw [hnone]
    simp only
    rw [if_pos (show id > (s.note _).lastPeerStream from hlt)]
    exact failed_connectionError _ _ _
  · right
    refine ⟨fun hr => (hok hr).elim hn₀ hlt, ?_⟩
    exact (not_lt.1 hlt).trans (opened_new hw ha).1

/-- The stream is closed, and if it has not been opened it never is. -/
def Over (role : Role) (s : Session X) (id : ℕ) : Prop :=
  (s.failed = none → ∀ st, s.stream? id = some st → st.state = .closed) ∧
    (.opened id ∉ s.history → s.failed ≠ none ∨ ¬role.initiates id ∧ id ≤ s.lastPeerStream)

/-- **Whatever ends a stream closes it.** -/
theorem over_of_cut {S : Side} {before after : List Obs} {o : Obs} {opened : Bool}
    (hw : s.WellFormed) (ha : s.Allows a) (hok : s.ResetsOpened a) (hrole : s.role = role)
    (hc : Calm S s (s.act a)) (hnew : (s.act a).history = s.history ++ (before ++ o :: after))
    (hopen : opened = true → .opened id ∈ s.history ++ before)
    (hcut : Outbound.cut role id opened o = true) : Over role (s.act a) id := by
  have hopen' : opened = true → .opened id ∈ (s.act a).history := fun ho => by
    rw [hnew, ← append_assoc]
    exact mem_append_left _ (hopen ho)
  cases o with
  | received call =>
    have hd : a = .deliver call := received_new hw ha hnew (by simp)
    subst hd
    refine ⟨fun hf st hst => closed_of_cut hw ha hrole ?_ hf hst, fun hn => ?_⟩
    · cases call <;> simp_all [Outbound.cut]
    · cases call with
      | rstStream id' code =>
        obtain rfl : id' = id := of_decide_eq_true hcut
        exact hrole ▸ unopened_of_rst hw ha hok hn
      | goAway last code =>
        simp only [Outbound.cut, Bool.and_eq_true] at hcut
        exact absurd (hopen' hcut.1.1) hn
      | _ => cases hcut
  | sent header payload =>
    simp only [Outbound.cut, Bool.and_eq_true, decide_eq_true_eq] at hcut
    obtain ⟨⟨ho, ht⟩, rfl⟩ := hcut
    refine ⟨fun _ => ?_, fun hn => absurd (hopen' ho) hn⟩
    exact hc.resets (s.history ++ before) header payload after
      (by rw [hnew, append_assoc]) (prefix_append _ _) ht (hopen ho)
  | _ => cases hcut

/-- Nothing that is sent shows. -/
theorem Calm.unsent {new : List Obs} {fields : List HeaderField} (hc : Calm sendSide s s')
    (hnew : s'.history = s.history ++ new) : ∀ o ∈ new, ∀ part,
      Entry.part id { obs := o, fields } = some part → part.isSent = false := by
  intro o ho part hpart
  have hshown := hc.not_shown hnew o ho
  cases o with
  | queued event =>
    unfold Entry.part Event.part at hpart
    simp only at hpart
    split_ifs at hpart
    split at hpart <;> cases hpart <;> rfl
  | sent header payload =>
    have hs : ¬FrameHeader.showsPart header := of_decide_eq_false hshown
    simp only [FrameHeader.showsPart, not_or] at hs
    simp [Entry.part, sentPart, hs] at hpart
  | _ => cases hpart

/-- Nothing has been sent on a stream that is being opened. -/
theorem Tracks.start_of_new (h : Tracks role s j id x) (hw : s.WellFormed) (ha : s.Allows a)
    (hrole : s.role = role) (hf : s.failed = none) (hn : .opened id ∉ s.history)
    (ho : .opened id ∈ (s.act a).history) : x.stage = .start := by
  refine (h.unopened hn).resolve_right ?_
  rintro ⟨-, hfail | ⟨hr, hle⟩⟩
  · exact hfail hf
  · rcases (opened_new hw ha).2 id ho with ho | hr' | hlt
    · exact hn ho
    · exact hr (hrole ▸ hr')
    · exact absurd hlt (not_lt.2 hle)

/-- An action that sends nothing on the streams. -/
theorem tracks_calm (hw : s.WellFormed) (ha : s.Allows a) (hok : s.ResetsOpened a)
    (hrole : s.role = role) (hc : Calm sendSide s (s.act a)) (h : Tracks role s j id x) :
    ∃ x', Tracks role (s.act a) (j ++ s.entries a) id x' := by
  obtain ⟨new, hnew⟩ := hc.history
  have hentries : s.entries a = new.map fun obs => { obs, fields := a.fields } :=
    newEntries_eq hnew.symm
  obtain ⟨x', hx', hopened, hmethod, hstage⟩ :=
    Outbound.fold_unsent role (hc.unsent hnew.symm) x
  have hover : x'.stage ≠ x.stage → x'.stage = .dead ∧ Over role (s.act a) id := by
    intro hne
    obtain ⟨hdead, before, o, after, rfl, hcut⟩ := hstage.resolve_left hne
    refine ⟨hdead, over_of_cut hw ha hok hrole hc hnew.symm (fun ho => ?_) hcut⟩
    rwa [Bool.or_eq_true, h.opened, any_opens, ← mem_append] at ho
  have hagrees : x'.stage = x.stage → ∀ st, Recorded x st → Recorded x' st := fun heq st hst => by
    obtain ⟨h1, h2, h3, h4⟩ := hst
    rw [← heq] at h1 h2 h3
    exact ⟨h1, h2, h3, h4⟩
  refine ⟨x', ?_, ?_, ?_, fun hn => ?_, fun hf st' hst' => ?_⟩
  · rw [hentries, Outbound.read_append h.read]
    exact hx'
  · rw [hopened, Bool.or_eq_true, h.opened, any_opens, ← hnew, mem_append]
  · rw [hentries, parts_append, hmethod, h.method, foldl_method]
  · by_cases heq : x'.stage = x.stage
    · have hn₀ : .opened id ∉ s.history := fun ho => hn (hc.history.subset ho)
      rw [heq]
      refine (h.unopened hn₀).imp_right fun ⟨hdead, hwhy⟩ => ⟨hdead, hwhy.imp ?_ ?_⟩
      · exact fun hf hf' => hf (failed_of_act hw ha hf')
      · exact fun hid => ⟨hid.1, hid.2.trans (opened_new hw ha).1⟩
    · exact .inr ⟨(hover heq).1, (hover heq).2.2 hn⟩
  · have hf₀ := failed_of_act hw ha hf
    by_cases heq : x'.stage = x.stage
    · obtain ⟨st, hst, hsame⟩ | ⟨hn, hfresh⟩ := hc.streams id st' hst'
      · exact hagrees heq st' ((h.agrees hf₀ st hst).same hsame)
      · have hstart := h.start_of_new hw ha hrole hf₀ hn ((hw.act ha).ids.opened id st' hst').1
        exact hagrees heq st' (recorded_fresh hstart hfresh)
    · exact recorded_closed (hover heq).1 ((hover heq).2.1 hf st' hst')

/-- A call that sends a part of a message. -/
theorem tracks_part {call : Call} {t : Session X} {target : ℕ} {part : Part} {st : Stream}
    (hw : s.WellFormed) (hrole : s.role = role) (hserves : role = .server → Serves s j)
    (hc : Calm (messageSide true) s t) (hrole' : t.role = s.role) (hfailed : t.failed = s.failed)
    (hs : Sends t (Action.call call).fields target part st)
    (hm : Moves true t (s.act (.call call)) (Action.call call).fields target part st)
    (hu : Unreset s (s.act (.call call))) (h : Tracks role s j id x) :
    ∃ x', Tracks role (s.act (.call call)) (j ++ s.entries (.call call)) id x' := by
  have ha : s.Allows (.call call) := trivial
  have hf₀ : s.failed = none := hfailed ▸ hs.failed
  have hm' := hc.moves hm
  obtain ⟨new, hnew, hreset⟩ := hu
  have hentries : s.entries (.call call) =
      new.map fun obs => { obs, fields := (Action.call call).fields } := newEntries_eq hnew
  have hcut : ∀ o ∈ new, ∀ opened, Outbound.cut role id opened o = false := by
    intro o ho opened
    cases o with
    | received c => exact nomatch received_new hw ha hnew ho
    | sent header payload => simp [Outbound.cut, hreset header payload ho]
    | _ => rfl
  have hparts := hm'.parts id
  rw [newEntries_eq hnew] at hparts
  have hopened : (x.opened || new.any (Obs.opens id)) = true ↔
      .opened id ∈ (s.act (.call call)).history := by
    rw [Bool.or_eq_true, h.opened, any_opens, hnew, mem_append]
  by_cases hid : id = target
  · subst hid
    rw [if_pos rfl] at hparts
    have hnewStart : .opened id ∉ s.history → x.stage = .start := fun hn =>
      h.start_of_new hw ha hrole hf₀ hn hm.opened
    have hstream : ∀ st, t.stream? id = some st → Recorded x st := by
      intro st₀ hst₀
      obtain ⟨st₁, hst₁, hsame⟩ | ⟨hn, hfresh⟩ := hc.streams id st₀ hst₀
      · exact (h.agrees hf₀ st₁ hst₁).same (same_send hsame)
      · exact recorded_fresh (hnewStart hn) (congrArg Stream.Record.sentHeaders hfresh)
    have hmethod : role = .server → ∀ st, t.stream? id = some st → st.method = x.method := by
      intro hserver st₀ hst₀
      obtain ⟨st₁, hst₁, hsame⟩ | ⟨hn, hfresh⟩ := hc.streams id st₀ hst₀
      · rw [h.method, ← (hserves hserver).named.method hf₀ id st₁ hst₁]
        exact congrArg Stream.Record.method hsame.1
      · rw [h.method, (hserves hserver).named.unopened id hn]
        exact congrArg Stream.Record.method hfresh
    obtain ⟨stage, hsend, hagrees⟩ := recorded_sends hs (hrole'.trans hrole) hstream
      (fun hn => hnewStart fun ho => hn (hc.history.subset ho)) hmethod
    refine ⟨{ opened := x.opened || new.any (Obs.opens id), stage
              method := firstNonEmpty x.method part.method }, ?_, hopened, ?_,
      fun hn => absurd hm.opened hn, fun _ st' hst' => ?_⟩
    · rw [hentries, Outbound.read_append h.read]
      exact Outbound.fold_part (m := some part) hcut hparts (congrArg (Option.map _) hsend)
    · rw [hentries, parts_append, hparts, methodOf_concat, h.method]
    · exact (hagrees _ _).same (same_send (hm.self st' hst'))
  · rw [if_neg hid] at hparts
    refine ⟨{ x with opened := x.opened || new.any (Obs.opens id) }, ?_, hopened, ?_, fun hn => ?_,
      fun _ st' hst' => ?_⟩
    · rw [hentries, Outbound.read_append h.read]
      exact Outbound.fold_part (m := none) hcut hparts rfl
    · rw [hentries, parts_append, hparts, append_nil]
      exact h.method
    · refine (h.unopened fun ho => hn (hm'.history.subset ho)).imp_right
        fun ⟨hdead, hwhy⟩ => ⟨hdead, hwhy.imp ?_ ?_⟩
      · exact fun hf => absurd hf₀ hf
      · exact fun hid => ⟨hid.1, hid.2.trans (opened_new hw ha).1⟩
    · have hsame_stage : ∀ st, Recorded x st →
          Recorded { x with opened := x.opened || new.any (Obs.opens id) } st :=
        fun st hst => ⟨hst.start, hst.body, hst.past, hst.reserved⟩
      obtain ⟨st₀, hst₀, hsame⟩ | ⟨hn, hfresh⟩ := hm'.others id st' hid hst'
      · exact hsame_stage st' ((h.agrees hf₀ st₀ hst₀).same (same_send hsame))
      · have ho := ((hw.act ha).ids.opened id st' hst').1
        exact hsame_stage st' (recorded_fresh (h.start_of_new hw ha hrole hf₀ hn ho)
          (congrArg Stream.Record.sentHeaders hfresh))

/-- Every stream fits its journal. -/
structure Orders (role : Role) (s : Session X) (j : List Entry) : Prop where
  role_eq : s.role = role
  bounded : Bounded s.endpoint
  serves : role = .server → Serves s j
  streams : ∀ id, ∃ x, Tracks role s j id x

theorem orders_act (hw : s.WellFormed) (ha : s.Allows a) (h : Orders role s j)
    (hok : s.ResetsOpened a) : Orders role (s.act a) (j ++ s.entries a) := by
  refine ⟨(role_act hw ha).trans h.role_eq, bounded_act hw ha h.bounded,
    fun hserver => (h.serves hserver).act hw ha, fun id => ?_⟩
  obtain ⟨x, hx⟩ := h.streams id
  have hcalm (hc : Calm sendSide s (s.act a)) :
      ∃ x', Tracks role (s.act a) (j ++ s.entries a) id x' := tracks_calm hw ha hok h.role_eq hc hx
  cases a with
  | call call =>
    cases sending_call call hw.ids h.bounded with
    | nothing hc => exact hcalm hc.send
    | part hc hrole hfailed _ hs hm hu =>
      exact tracks_part hw h.role_eq h.serves hc hrole hfailed hs hm hu hx
  | deliver call => exact hcalm (walks_deliver le_rfl sendSide_ignoresReceives hw.ids).calm
  | preface => exact hcalm (.of_eq rfl rfl rfl)
  | parsed parser => exact hcalm (.of_eq rfl rfl rfl)
  | fail code reason => exact hcalm (calm_connectionError s _ _)

theorem orders_newSession {limits : SessionLimits} (h : newSession X role limits = .ok s) :
    Orders role s [] := by
  have hbounded := (steady_newSession h).bounded
  refine ⟨role_newSession h, hbounded, ?_, fun id => ⟨{}, rfl, ?_, rfl, fun _ => .inl rfl, ?_⟩⟩
  · rintro rfl
    exact serves_newSession h
  · obtain ⟨output, header, payload, -, rfl⟩ := newSession_ok h
    simp
  · obtain ⟨output, header, payload, -, rfl⟩ := newSession_ok h
    exact fun _ st hst => absurd hst (by simp [stream?, init])

/-- **What is sent on a stream is in order.** In every run whose actions meet `ResetsOpened`, and
for every stream: informational sections, a head, a body and a trailing section are sent in this
order, nothing follows the end of the message, and nothing follows a reset or a refusal. -/
theorem sends_in_order {limits : SessionLimits} {s₀ : Session X} {ops : List Op}
    (hnew : newSession X role limits = .ok s₀) (hok : Meets ResetsOpened s₀ ops) (id : ℕ) :
    SendsInOrder role id (s₀.journal ops) := by
  obtain ⟨x, hx⟩ := (run_journal hnew (orders_newSession hnew)
    (fun _ _ _ hw ha h hok => orders_act hw ha h hok) hok).streams id
  rw [SendsInOrder, hx.read]
  rfl

/-- A section with a status only. -/
def statusResponse (status : String) : List HeaderField :=
  [{ name := ascii ":status", value := ascii status }]

/-- A server answers with an informational section, a head and a body. The client resets the stream,
and nothing more is sent on it. -/
theorem sends_in_order_server :
    ∃ s₀, newSession externals .server {} = .ok s₀ ∧
      let j := s₀.journal [.feed (clientStart ++ postFrame 1),
        .call (.sendHeaders 1 (statusResponse "100") false),
        .call (.sendHeaders 1 (statusResponse "200") false), .call (.sendData 1 [0, 0] false),
        .feed (frameBytes .rstStream 0 1 (putUint32 8)), .call (.sendData 1 [0, 0] true)]
      (parts 1 j).length = 4 ∧ (Outbound.read .server 1 j).map (·.stage) = some .dead ∧
        SendsInOrder .server 1 j := by
  obtain ⟨s₀, hnew, hok, hparts, hstage⟩ := exists_newSession (X := externals)
    (r := .server) (l := {}) (p := fun s₀ =>
      let ops := [.feed (clientStart ++ postFrame 1),
        .call (.sendHeaders 1 (statusResponse "100") false),
        .call (.sendHeaders 1 (statusResponse "200") false), .call (.sendData 1 [0, 0] false),
        .feed (frameBytes .rstStream 0 1 (putUint32 8)), .call (.sendData 1 [0, 0] true)]
      Meets ResetsOpened s₀ ops ∧ (parts 1 (s₀.journal ops)).length = 4 ∧
        (Outbound.read .server 1 (s₀.journal ops)).map (·.stage) = some .dead)
    (by decide +kernel)
  exact ⟨s₀, hnew, hparts, hstage, sends_in_order hnew hok 1⟩

/-- A client that has been promised stream 4 takes RST_STREAM for stream 3, which it has not opened,
and then opens stream 3 and sends a request on it. -/
theorem sends_after_reset :
    ∃ s₀, newSession externals .client { enablePush := true } = .ok s₀ ∧
      let ops := [.call (.openStream getRequest true),
        .feed (frameBytes .settings 0 0 [] ++
          frameBytes .pushPromise .endHeaders 1 (putUint32 4 ++ [0x82, 0x86, 0x84]) ++
          frameBytes .rstStream 0 3 (putUint32 8)),
        .call (.openStream getRequest true)]
      (s₀.run ops).failed = none ∧
        parts 3 (s₀.journal ops) = [.sent (inspectHeaderSection getRequest) true] ∧
        ¬SendsInOrder .client 3 (s₀.journal ops) :=
  exists_newSession (by decide +kernel)

end Runs

end Session

end WagoHttp.Http2
