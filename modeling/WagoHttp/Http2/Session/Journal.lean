import WagoHttp.Http2.Sections
import WagoHttp.Http2.Session.Queues

/-!
# The journal of a run

The history of a session has the frames that it sends, but not the sections that the owner passes
for them. The journal of a run is the history together with these sections. `Entry.part` reads off
what an entry says about a stream, and `messageSide` is the side of a stream that the parts of
messages concern, in both directions. What leaves this side alone adds no part to the journal.
-/

namespace WagoHttp.Http2

open Runs List

/-- The section that the owner passes with a call. -/
def Action.fields : Action → List HeaderField
  | .call (.openStream headers _) => headers
  | .call (.pushPromise _ headers) => headers
  | .call (.sendHeaders _ headers _) => headers
  | _ => []

/-- An entry of the history, and the section that was passed with the call that made it. -/
structure Entry where
  obs : Obs
  fields : List HeaderField

/-- A part of the messages of a stream. -/
inductive Part
  /-- The request of a pushed stream. -/
  | promise (m : HeaderSectionMetadata)
  | received (m : HeaderSectionMetadata) (trailer : Bool)
  | receivedData (length : ℕ)
  | receivedEnd
  | sent (m : HeaderSectionMetadata) (endStream : Bool)
  | sentData (length : ℕ) (endStream : Bool)
  deriving DecidableEq

/-- What an event says about its stream. -/
def Event.part (event : Event) : Option Part :=
  match event.type with
  | .pushPromise => some (.promise (inspectHeaderSection event.headers))
  | .headers => some (.received (inspectHeaderSection event.headers) event.trailer)
  | .data => some (.receivedData event.data.length)
  | .streamEnd => some .receivedEnd
  | _ => none

/-- What a frame that is sent says about a stream. A header block shows in its first frame. -/
def sentPart (id : ℕ) (header : FrameHeader) (payload : Bytes) (fields : List HeaderField) :
    Option Part :=
  if header.type = .headers then
    if header.streamID = id then
      some (.sent (inspectHeaderSection fields) (header.flags.has .endStream))
    else none
  else if header.type = .data then
    if header.streamID = id then some (.sentData payload.length (header.flags.has .endStream))
    else none
  else if header.type = .pushPromise then
    if beNat (payload.take 4) = id then some (.promise (inspectHeaderSection fields)) else none
  else none

/-- What an entry says about a stream. -/
def Entry.part (id : ℕ) (entry : Entry) : Option Part :=
  match entry.obs with
  | .queued event => if event.streamID = id then event.part else none
  | .sent header payload => sentPart id header payload entry.fields
  | _ => none

/-- The parts of the messages of a stream, in order. -/
def parts (id : ℕ) (journal : List Entry) : List Part := journal.filterMap (Entry.part id)

theorem parts_append (id : ℕ) (j j' : List Entry) :
    parts id (j ++ j') = parts id j ++ parts id j' := filterMap_append

/-- The method of the request, if the part has it. -/
def Part.method : Part → Bytes
  | .promise m => m.method
  | .received m _ => if m.informational then [] else m.method
  | .sent m _ => if m.informational then [] else m.method
  | _ => []

/-- The method of the request of a stream: the first that a part has. -/
def methodOf (parts : List Part) : Bytes :=
  parts.foldl (fun method part => firstNonEmpty method part.method) []

theorem methodOf_concat (ps : List Part) (p : Part) :
    methodOf (ps ++ [p]) = firstNonEmpty (methodOf ps) p.method := by
  simp [methodOf]

namespace Session

variable {X : Externals} {s s' : Session X}

/-- What is added to the journal between two states, with a section of the owner. -/
def newEntries (s s' : Session X) (fields : List HeaderField) : List Entry :=
  (s'.history.drop s.history.length).map fun obs => { obs, fields }

theorem newEntries_eq {new : List Obs} {fields : List HeaderField}
    (h : s'.history = s.history ++ new) :
    newEntries s s' fields = new.map fun obs => { obs, fields } := by
  rw [newEntries, h, drop_left]

theorem newEntries_trans {s'' : Session X} {fields : List HeaderField}
    (h : s.history <+: s'.history) (h' : s'.history <+: s''.history) :
    newEntries s s'' fields = newEntries s s' fields ++ newEntries s' s'' fields := by
  obtain ⟨new, hnew⟩ := h
  obtain ⟨new', hnew'⟩ := h'
  rw [newEntries_eq hnew.symm, newEntries_eq hnew'.symm, ← map_append]
  exact newEntries_eq (by rw [← hnew', ← hnew, append_assoc])

/-- What an action adds to the journal. -/
def entries (s : Session X) (a : Action) : List Entry := newEntries s (s.act a) a.fields

/-- The journal of a run. -/
def journal (s : Session X) (ops : List Op) : List Entry :=
  emits op (fun s o => emits act entries s (s.opActions o)) s ops

/-- **The rule for the journal.** What a new session has with an empty journal, and every allowed
action that meets `ok` keeps, a session has with the journal of every run whose actions meet `ok`. -/
theorem run_journal {role : Role} {limits : SessionLimits} {ops : List Op}
    {I : Session X → List Entry → Prop} {ok : Session X → Action → Prop}
    (hnew : newSession X role limits = .ok s) (hs : I s [])
    (hact : ∀ s a j, s.WellFormed → s.Allows a → I s j → ok s a → I (s.act a) (j ++ s.entries a))
    (h : Meets ok s ops) : I (s.run ops) (s.journal ops) := by
  have key := expands_opActions.invariant_emits (f := entries)
    (I := fun s j => I s j ∧ s.WellFormed) (J := fun s => s.WellFormed ∧ s.Sound)
    (fun s o hJ => ⟨(guarded_opActions o hJ).1, (guarded_opActions o hJ).2⟩)
    (fun s a j hI ha hok => ⟨hact s a j hI.2 ha hI.1 hok, hI.2.act ha⟩) h
    ⟨hs, (wellFormed_newSession hnew).1⟩ (wellFormed_newSession hnew)
  exact key.1

/-! ## The side of messages -/

/-- What a stream records of its messages. -/
structure Stream.Record where
  method : Bytes := []
  receivedHeaders : Bool := false
  receivedTrailers : Bool := false
  receiveNoBody : Bool := false
  receiveHasLength : Bool := false
  receiveLength : ℕ := 0
  receiveBody : ℕ := 0
  sentHeaders : Bool := false
  sentTrailers : Bool := false
  sendNoBody : Bool := false
  sendHasLength : Bool := false
  sendLength : ℕ := 0
  sendBody : ℕ := 0

def Stream.record (st : Stream) : Stream.Record := { st with }

/-- The frames in which the parts of messages show. -/
def FrameHeader.showsPart (header : FrameHeader) : Prop :=
  header.type = .headers ∨ header.type = .data ∨ header.type = .pushPromise

instance (header : FrameHeader) : Decidable (FrameHeader.showsPart header) :=
  inferInstanceAs (Decidable (_ ∨ _))

theorem decide_showsPart {header : FrameHeader} (h : ¬header.carriesMessage) :
    decide (FrameHeader.showsPart header) = false :=
  decide_eq_false fun hs => h (hs.imp_right (Or.imp_right .inr))

/-- The messages of a stream, in both directions. -/
def messageSide (reads : Bool) : Side where
  same st st' := Stream.record st' = Stream.record st ∧ st.state.Narrows st'.state
  fresh st := Stream.record st = {}
  shows
    | .queued event => event.isMessage
    | .sent header _ => FrameHeader.showsPart header
    | _ => false
  reads := reads
  refl _ := ⟨rfl, narrows_refl _⟩
  trans h h' := ⟨h'.1.trans h.1, h.2.trans h'.2⟩
  closed h := h.2.closed
  fresh_of_same h hf := h.1.trans hf
  fresh_new _ _ _ _ := rfl
  windows _ _ _ := ⟨rfl, narrows_refl _⟩
  state h := ⟨rfl, h⟩
  shows_sent h _ := decide_showsPart h
  shows_queued h := decide_eq_false fun hs => h (.inl hs)

theorem messageSide_ignoresReset (reads : Bool) {id : ℕ} : (messageSide reads).IgnoresReset id := by
  intro header payload ht _
  exact decide_eq_false (by simp only [FrameHeader.showsPart, ht]; decide)

theorem messageSide_ignoresResets (reads : Bool) {id : ℕ} :
    (messageSide reads).IgnoresResets id := by
  refine ⟨messageSide_ignoresReset reads, fun event ht => ?_⟩
  simp [messageSide, Event.isMessage, ht]

theorem Calm.weaken {reads : Bool} (h : Calm (messageSide reads) s s') :
    Calm (messageSide false) s s' := ⟨h.streams, h.shown, h.history, nofun, h.resets⟩

/-- An entry outside of this side is no part of a message. -/
theorem part_eq_none {reads : Bool} {id : ℕ} {o : Obs} {fields : List HeaderField}
    (h : (messageSide reads).shows o = false) : Entry.part id { obs := o, fields } = none := by
  cases o with
  | queued event =>
    have hm : ¬event.isMessage := of_decide_eq_false h
    have hpart : event.part = none := by
      unfold Event.isMessage at hm
      unfold Event.part
      cases ht : event.type <;> simp_all
    simp [Entry.part, hpart]
  | sent header payload =>
    have hs : ¬FrameHeader.showsPart header := of_decide_eq_false h
    unfold FrameHeader.showsPart at hs
    simp only [not_or] at hs
    simp [Entry.part, sentPart, hs]
  | _ => rfl

/-- What leaves the messages alone adds no part to the journal. -/
theorem Calm.parts_newEntries {reads : Bool} {id : ℕ} {fields : List HeaderField}
    (h : Calm (messageSide reads) s s') : parts id (newEntries s s' fields) = [] := by
  obtain ⟨new, hnew⟩ := h.history
  have hshown := h.not_shown hnew.symm
  rw [newEntries_eq hnew.symm, parts, filterMap_map, filterMap_eq_nil_iff]
  exact fun o ho => part_eq_none (hshown o ho)

/-- One part of the messages of one stream: the stream becomes `st`, and the other streams are left
alone. -/
structure Moves (reads : Bool) (s s' : Session X) (fields : List HeaderField) (id : ℕ)
    (part : Part) (st : Stream) : Prop where
  parts : ∀ id', parts id' (newEntries s s' fields) = if id' = id then [part] else []
  history : s.history <+: s'.history
  opened : .opened id ∈ s'.history
  self : ∀ st', s'.stream? id = some st' → (messageSide reads).same st st'
  others : ∀ id' st', id' ≠ id → s'.stream? id' = some st' →
    (∃ st, s.stream? id' = some st ∧ (messageSide reads).same st st') ∨
      .opened id' ∉ s.history ∧ (messageSide reads).fresh st'
  block : reads = true → s'.block = s.block

section Moves

variable {s'' : Session X} {reads : Bool} {fields : List HeaderField} {id : ℕ} {part : Part}
  {st : Stream}

theorem Moves.calm (h : Moves reads s s' fields id part st) (hc : Calm (messageSide reads) s' s'') :
    Moves reads s s'' fields id part st := by
  refine ⟨fun id' => ?_, h.history.trans hc.history, hc.history.subset h.opened, ?_, ?_,
    fun hr => (hc.block hr).trans (h.block hr)⟩
  · rw [newEntries_trans h.history hc.history, parts_append, hc.parts_newEntries, append_nil]
    exact h.parts id'
  · intro st'' hst''
    obtain ⟨st', hst', hsame⟩ | ⟨hnew, -⟩ := hc.streams id st'' hst''
    · exact (messageSide reads).trans (h.self st' hst') hsame
    · exact absurd h.opened hnew
  · intro id' st'' hne hst''
    obtain ⟨st', hst', hsame⟩ | ⟨hnew, hfresh⟩ := hc.streams id' st'' hst''
    · obtain ⟨st₀, hst₀, hsame₀⟩ | ⟨hnew, hfresh⟩ := h.others id' st' hne hst'
      · exact .inl ⟨st₀, hst₀, (messageSide reads).trans hsame₀ hsame⟩
      · exact .inr ⟨hnew, (messageSide reads).fresh_of_same hsame hfresh⟩
    · exact .inr ⟨fun hmem => hnew (h.history.subset hmem), hfresh⟩

theorem Calm.moves (hc : Calm (messageSide reads) s s') (h : Moves reads s' s'' fields id part st) :
    Moves reads s s'' fields id part st := by
  refine ⟨fun id' => ?_, hc.history.trans h.history, h.opened, h.self, ?_,
    fun hr => (h.block hr).trans (hc.block hr)⟩
  · rw [newEntries_trans hc.history h.history, parts_append, hc.parts_newEntries, nil_append]
    exact h.parts id'
  · intro id' st'' hne hst''
    obtain ⟨st', hst', hsame⟩ | ⟨hnew, hfresh⟩ := h.others id' st'' hne hst''
    · obtain ⟨st₀, hst₀, hsame₀⟩ | ⟨hnew, hfresh⟩ := hc.streams id' st' hst'
      · exact .inl ⟨st₀, hst₀, (messageSide reads).trans hsame₀ hsame⟩
      · exact .inr ⟨hnew, (messageSide reads).fresh_of_same hsame hfresh⟩
    · exact .inr ⟨fun hmem => hnew (hc.history.subset hmem), hfresh⟩

variable {new : List Obs}

/-- The part shows in new entries of the history, and the stream is stored. -/
theorem Moves.of_insert (hh : s'.history = s.history ++ new)
    (hp : ∀ id', Http2.parts id' (new.map fun obs => { obs, fields }) =
      if id' = id then [part] else []) (ho : .opened id ∈ s'.history)
    (hs : s'.streams = s.streams.insert id st) (hb : reads = true → s'.block = s.block) :
    Moves reads s s' fields id part st := by
  refine ⟨fun id' => ?_, hh ▸ prefix_append _ _, ho, fun st' hst' => ?_,
    fun id' st' hne hst' => .inl ⟨st', ?_, (messageSide reads).refl st'⟩, hb⟩
  · rw [newEntries_eq hh]
    exact hp id'
  · rw [stream?, hs, AList.lookup_insert, Option.some.injEq] at hst'
    subst hst'
    exact (messageSide reads).refl st
  · rw [stream?, hs, AList.lookup_insert_ne hne] at hst'
    exact hst'

/-- The part shows in new entries of the history, after a change that leaves the messages alone. -/
theorem Moves.of_calm (hc : Calm (messageSide reads) s s') (hst : s.stream? id = some st)
    (ho : .opened id ∈ s.history) (hh : s''.history = s'.history ++ new)
    (hp : ∀ id', Http2.parts id' (new.map fun obs => { obs, fields }) =
      if id' = id then [part] else []) (hs : s''.streams = s'.streams)
    (hb : reads = true → s''.block = s'.block) :
    Moves reads s s'' fields id part st := by
  have hstream : ∀ id', s''.stream? id' = s'.stream? id' := fun id' => by rw [stream?, hs, stream?]
  have hhist : s'.history <+: s''.history := hh ▸ prefix_append _ _
  refine ⟨fun id' => ?_, hc.history.trans hhist, hhist.subset (hc.history.subset ho), ?_, ?_,
    fun hr => (hb hr).trans (hc.block hr)⟩
  · rw [newEntries_trans hc.history hhist, parts_append, hc.parts_newEntries, newEntries_eq hh]
    exact hp id'
  · intro st' hst'
    obtain ⟨st₀, hst₀, hsame⟩ | ⟨hnew, -⟩ := hc.streams id st' (hstream id ▸ hst')
    · cases hst.symm.trans hst₀
      exact hsame
    · exact absurd ho hnew
  · intro id' st' hne hst'
    exact hc.streams id' st' (hstream id' ▸ hst')

theorem Moves.weaken (h : Moves reads s s' fields id part st) :
    Moves false s s' fields id part st :=
  ⟨h.parts, h.history, h.opened, h.self, h.others, fun hr => nomatch hr⟩

end Moves

end Session

end WagoHttp.Http2
