import WagoHttp.Http2.Sections
import WagoHttp.Http2.Session.Queues

/-!
# The order of the events of a stream

The owner of a session should see, for each stream, a promise, informational sections, the final
section, data, a trailing section and the end, in this order and each as often as a message has it,
possibly cut short by one reset. `Progress` is the automaton of this grammar. Under
`GrammarCondition` the events of every stream keep to it; elsewhere they do not: a DATA frame that
is answered with a reset is reported all the same, a second RST_STREAM frame is reported again, and
a stream that was refused can be opened later.
-/

namespace WagoHttp.Http2

open List SmallHpack

/-! ## The grammar -/

/-- The section of the event is informational. -/
def Event.isInformational (event : Event) : Bool :=
  (inspectHeaderSection event.headers).informational

/-- How far the events of a stream have come. -/
inductive Progress
  | start
  /-- After a promise or an informational section. -/
  | waiting
  /-- After the final section. -/
  | body
  | trailed
  | ended
  /-- After a reset. -/
  | dead
  deriving DecidableEq, Repr

namespace Progress

/-- The next event of a stream, if the grammar has it there. -/
def next (p : Progress) (event : Event) : Option Progress :=
  match event.type, p with
  | .pushPromise, .start => some .waiting
  | .headers, .start | .headers, .waiting =>
    if event.trailer then none else if event.isInformational then some .waiting else some .body
  | .headers, .body => if event.trailer then some .trailed else none
  | .data, .body => some .body
  | .streamEnd, .body | .streamEnd, .trailed => some .ended
  | .streamReset, .dead => none
  | .streamReset, _ => some .dead
  | _, _ => none

/-- What a stream of the table records when its events have come this far. -/
structure Agrees (p : Progress) (st : Stream) : Prop where
  reserved : st.state = .reservedRemote → st.receivedHeaders = false
  head : p = .start ∨ p = .waiting → st.receivedHeaders = false
  body : p = .body ∨ p = .trailed → st.receivedHeaders = true
  trailed : p = .trailed → st.receivedTrailers = true
  ended : p = .ended → canReceive st.state = false
  dead : p = .dead → st.state = .closed

theorem next_reset {p : Progress} {event : Event} (h : event.type = .streamReset)
    (hp : p ≠ .dead) : p.next event = some .dead := by
  cases p <;> simp_all [next]

end Progress

/-- The reports about a stream in a list of events. -/
def reportsOf (id : ℕ) (events : List Event) : List Event :=
  events.filter fun event => event.isReport ∧ event.streamID = id

/-- The reports about a stream in a history. -/
def reportsOn (id : ℕ) (history : List Obs) : List Event :=
  history.filterMap fun
    | .queued event => if event.isReport ∧ event.streamID = id then some event else none
    | _ => none

/-- What a stream receives, as its reports show it. -/
def reportSide : Side where
  same st st' := st'.receivedHeaders = st.receivedHeaders ∧
    st'.receivedTrailers = st.receivedTrailers ∧ st.state.Narrows st'.state
  fresh st := st.receivedHeaders = false ∧ st.receivedTrailers = false
  shows
    | .queued event => event.isReport
    | _ => false
  reads := true
  refl _ := ⟨rfl, rfl, narrows_refl _⟩
  trans h h' := ⟨h'.1.trans h.1, h'.2.1.trans h.2.1, h.2.2.trans h'.2.2⟩
  closed h := h.2.2.closed
  fresh_of_same h hf := ⟨h.1.trans hf.1, h.2.1.trans hf.2⟩
  fresh_new _ _ _ _ := ⟨rfl, rfl⟩
  windows _ _ _ := ⟨rfl, rfl, narrows_refl _⟩
  state h := ⟨rfl, rfl, h⟩
  shows_sent _ _ := rfl
  shows_queued h := decide_eq_false h

theorem reportSide_ignoresSends : reportSide.IgnoresSends where
  sent _ _ _ := rfl
  sends st m h := by
    unfold Session.Stream.sendSection
    simp only
    have hn : st.state.Narrows (if st.state = .reservedLocal then .halfClosedRemote
        else st.state) := by
      split
      · next hr => exact hr ▸ narrows_reservedLocal
      · exact narrows_refl _
    split at hn <;> split_ifs <;> exact ⟨rfl, rfl, hn⟩
  promised _ _ _ _ _ := ⟨rfl, rfl⟩
  body _ _ _ := ⟨rfl, rfl, narrows_refl _⟩

theorem Progress.Agrees.same {p : Progress} {st st' : Stream} (h : p.Agrees st)
    (hs : reportSide.same st st') : p.Agrees st' := by
  obtain ⟨hheaders, htrailers, hstate⟩ := hs
  refine ⟨fun hr => hheaders.trans (h.reserved (hstate.reserved hr)),
    fun hp => hheaders.trans (h.head hp), fun hp => hheaders.trans (h.body hp),
    fun hp => htrailers.trans (h.trailed hp), fun hp => ?_, fun hp => hstate.closed (h.dead hp)⟩
  rw [Bool.eq_false_iff]
  intro hr
  have := hstate.receive hr
  rw [h.ended hp] at this
  cases this

theorem reportsOn_eq (id : ℕ) (history : List Obs) :
    reportsOn id history = reportsOf id (queuedEvents history) := by
  induction history with
  | nil => rfl
  | cons o history ih =>
    unfold reportsOn reportsOf queuedEvents at ih ⊢
    rw [filterMap_cons, flatMap_cons, filter_append, ih]
    cases o with
    | queued event =>
      by_cases h : event.isReport ∧ event.streamID = id <;> simp [Obs.events, h]
    | _ => rfl

theorem reportsOn_filter (id : ℕ) (history : List Obs) :
    reportsOn id (history.filter reportSide.shows) = reportsOn id history := by
  unfold reportsOn
  rw [filterMap_filter]
  refine filterMap_congr fun o _ => ?_
  cases o with
  | queued event =>
    by_cases h : event.isReport <;> simp [reportSide, h]
  | _ => rfl

theorem reportsOn_received (id : ℕ) (history : List Obs) (call : Callback) :
    reportsOn id (history ++ [.received call]) = reportsOn id history := by
  simp [reportsOn]

theorem reportsOn_concat (id : ℕ) (history : List Obs) (event : Event) (h : event.isReport) :
    reportsOn id (history ++ [.queued event]) =
      reportsOn id history ++ if event.streamID = id then [event] else [] := by
  unfold reportsOn
  by_cases hid : event.streamID = id <;> simp [h, hid]

namespace Session

open Endpoint Runs

variable {X : Externals} {s s' : Session X} {a : Action} {id : ℕ} {p q : Progress}

/-- How far the events of a stream have come, unless they have left the grammar. -/
def progressOn (s : Session X) (id : ℕ) : Option Progress :=
  (reportsOn id s.history).foldlM Progress.next .start

/-- The events of a stream have come as far as `p`, and the table agrees. -/
structure Fits (s : Session X) (id : ℕ) (p : Progress) : Prop where
  progress : s.progressOn id = some p
  agrees : ∀ st, s.stream? id = some st → p.Agrees st
  opened : p ≠ .start → .opened id ∈ s.history

/-- The events of every stream keep to the grammar. -/
def Ordered (s : Session X) : Prop := ∀ id, ∃ p, s.Fits id p

theorem progressOn_of_shown (h : s'.shown reportSide = s.shown reportSide) :
    s'.progressOn id = s.progressOn id := by
  unfold progressOn
  rw [← reportsOn_filter, show s'.history.filter _ = _ from h, shown, reportsOn_filter]

theorem Fits.calm (h : s.Fits id p) (hc : Calm reportSide s s') : s'.Fits id p := by
  refine ⟨(progressOn_of_shown hc.shown).trans h.progress, fun st' hst' => ?_,
    fun hp => hc.history.subset (h.opened hp)⟩
  obtain ⟨st, hst, hsame⟩ | ⟨hnew, hfresh⟩ := hc.streams id st' hst'
  · exact (h.agrees st hst).same hsame
  · -- A new stream has no reports.
    have hp : p = .start := by_contra fun hp => hnew (h.opened hp)
    subst hp
    exact ⟨fun _ => hfresh.1, fun _ => hfresh.1, by simp, by simp, by simp, by simp⟩

theorem Ordered.calm (h : s.Ordered) (hc : Calm reportSide s s') : s'.Ordered := fun id =>
  (h id).imp fun _ hp => hp.calm hc

variable {event : Event} {code : ErrorCode} {st : Stream} {t : Session X} {endStream : Bool}
  {header : FrameHeader} {err : Option SessionError} {data : Bytes} {call : Callback}

/-- One report about a stream. -/
theorem Ordered.report (h : s.Ordered) (hrep : event.isReport)
    (hshown : s'.shown reportSide = s.shown reportSide ++ [.queued event])
    (hhist : ∀ o ∈ s.history, o ∈ s'.history) (hp : s.Fits event.streamID p)
    (hn : p.next event = some q) (hopen : .opened event.streamID ∈ s.history)
    (hself : ∀ st', s'.stream? event.streamID = some st' → q.Agrees st')
    (hothers : ∀ id st', id ≠ event.streamID → s'.stream? id = some st' →
      ∃ st, s.stream? id = some st ∧ reportSide.same st st') :
    s'.Ordered ∧ s'.Fits event.streamID q := by
  have hprogress : ∀ id, s'.progressOn id = (s.progressOn id).bind fun p =>
      if event.streamID = id then p.next event else some p := by
    intro id
    unfold progressOn
    rw [← reportsOn_filter, show s'.history.filter _ = _ from hshown, shown,
      reportsOn_concat _ _ _ hrep, reportsOn_filter, foldlM_append]
    congr 1
    funext x
    split <;> simp
  have hq : s'.Fits event.streamID q := by
    refine ⟨?_, hself, fun _ => hhist _ hopen⟩
    rw [hprogress, hp.progress]
    simpa using hn
  refine ⟨fun id => ?_, hq⟩
  by_cases hid : id = event.streamID
  · subst hid
    exact ⟨q, hq⟩
  · obtain ⟨p', hp'⟩ := h id
    refine ⟨p', ?_, fun st' hst' => ?_, fun hne => hhist _ (hp'.opened hne)⟩
    · rw [hprogress, hp'.progress]
      simp [Ne.symm hid]
    · obtain ⟨st, hst, hsame⟩ := hothers id st' hid hst'
      exact (hp'.agrees st hst).same hsame

/-- An event is queued in a state that agrees with it already. -/
theorem ordered_queueEvent (h : s.Ordered) (hrep : event.isReport) (hp : s.Fits event.streamID p)
    (hn : p.next event = some q) (hopen : .opened event.streamID ∈ s.history)
    (hself : ∀ st, s.stream? event.streamID = some st → q.Agrees st) :
    (s.queueEvent event).1.Ordered := by
  unfold queueEvent
  simp only
  split
  · exact h
  · refine (Ordered.report h hrep ?_ ?_ hp hn hopen ?_ ?_).1
    · simp [shown, note, reportSide, hrep]
    · exact fun o ho => mem_append_left _ ho
    · exact hself
    · exact fun id st _ hst => ⟨st, hst, reportSide.refl st⟩

/-! ## Resets -/

/-- A stream that has left the table or is closed in it is reported as reset. -/
theorem ordered_offerReset (h : s.Ordered) (hp : s.Fits id p) (hne : p ≠ .dead)
    (hopen : .opened id ∈ s.history) (hclosed : ∀ st, s.stream? id = some st → st.state = .closed) :
    (s.offerEvent { type := .streamReset, streamID := id, errorCode := code }).Ordered := by
  refine ordered_queueEvent h (.inr rfl) hp (Progress.next_reset rfl hne) hopen fun st hst => ?_
  have hc := hclosed st hst
  exact ⟨by simp [hc], by simp, by simp, by simp, by simp, fun _ => hc⟩

theorem ordered_streamError (h : s.Ordered) (hp : s.Fits id p) (hne : p ≠ .dead)
    (hopen : .opened id ∈ s.history) : (s.streamError id code).Ordered := by
  have hclose : Calm reportSide s (s.closeStream id) := calm_closeStream s id
  have hcut : Calm reportSide (s.closeStream id) ((s.closeStream id).appendFrame
      { type := .rstStream, streamID := id } (putUint32 code.toNat)).1 :=
    calm_appendFrame rfl fun _ _ => closed_of_closeStream
  have hc := hclose.trans hcut
  refine ordered_offerReset (h.calm hc) (hp.calm hc) hne (hc.history.subset hopen) ?_
  intro st hst
  rw [stream?, (sentFrame_appendFrame _ _ _).streams] at hst
  exact closed_of_closeStream hst

/-- A stream that is not closed has not been reset. -/
theorem Fits.ne_dead (hp : s.Fits id p) (hst : s.stream? id = some st) (hs : st.state ≠ .closed) :
    p ≠ .dead := fun h => hs ((hp.agrees st hst).dead h)

/-- A stream error on a stream of the table that is not closed. -/
theorem ordered_streamError_open (h : s.Ordered) (hids : s.endpoint.IdSpace)
    (hst : s.stream? id = some st) (hs : st.state ≠ .closed) :
    (s.streamError id code).Ordered := by
  obtain ⟨p, hp⟩ := h id
  exact ordered_streamError h hp (hp.ne_dead hst hs) (hids.opened id st hst).1

theorem ordered_refuseStreams {last : ℕ} (ids : List ℕ) (s : Session X) (h : s.Ordered)
    (hopen : ∀ id st, s.stream? id = some st → .opened id ∈ s.history) :
    (refuseStreams last ids s).Ordered := by
  induction ids generalizing s with
  | nil => exact h
  | cons id ids ih =>
    unfold refuseStreams
    split
    · exact ih s h hopen
    next st hst =>
    split
    · next hcond =>
      obtain ⟨p, hp⟩ := h id
      have hc : Calm reportSide s (s.closeStream id) := calm_closeStream s id
      refine ih _ ?_ fun id' st' hst' => ?_
      · exact ordered_offerReset (h.calm hc) (hp.calm hc) (hp.ne_dead hst hcond.2.2)
          (hc.history.subset (hopen id st hst)) fun st' hst' => closed_of_closeStream hst'
      · rw [stream?, offerEvent, (queueEvent_frame _ _).1] at hst'
        obtain ⟨st₀, hst₀, -⟩ := stream_closeStream hst'
        refine history_offerEvent_mem ?_
        rw [(closeStream_frame s id).1]
        exact hopen id' st₀ hst₀
    · exact ih s h hopen

/-! ## The ends of a message -/

/-- After the peer has ended a stream, it receives nothing more. -/
theorem stream_endRemote {st' : Stream} (hst : s.stream? id = some st)
    (hs : st.state ≠ .reservedRemote) (h : (s.endRemote id st).stream? id = some st') :
    canReceive st'.state = false := by
  unfold endRemote at h
  split at h
  · simp only [setStream, stream?, AList.lookup_insert, Option.some.injEq] at h
    rw [← h]
    rfl
  · rw [closed_of_closeStream h]
    rfl
  · next hr => exact absurd hr hs
  · next h1 h2 h3 =>
    cases hst.symm.trans h
    cases hstate : st.state <;> simp_all [canReceive]

theorem ordered_remoteEnd (h : s.Ordered) (hp : s.Fits id p) (hbody : p = .body ∨ p = .trailed) :
    (s.remoteEnd id).Ordered := by
  have hne : p ≠ .dead := by rintro rfl; simp at hbody
  have hopen : .opened id ∈ s.history := hp.opened (by rintro rfl; simp at hbody)
  unfold remoteEnd
  split
  · exact h
  next st hst =>
  split
  · exact ordered_streamError h hp hne hopen
  have hreserved : st.state ≠ .reservedRemote := fun hr => by
    have hheaders := (hp.agrees st hst).body hbody
    rw [(hp.agrees st hst).reserved hr] at hheaders
    cases hheaders
  have hend : Calm reportSide s (s.endRemote id st) :=
    (walks_endRemote hst : Walks _ 8 true _ _).calm
  have hnext : p.next { type := .streamEnd, streamID := id } = some .ended := by
    rcases hbody with rfl | rfl <;> rfl
  simp only
  split
  · have hq : ((s.endRemote id st).offerEvent { type := .streamEnd, streamID := id }).Ordered := by
      refine ordered_queueEvent (h.calm hend) (.inl (.inr (.inr (.inr rfl))))
        (hp.calm hend) hnext (hend.history.subset hopen) fun st' hst' => ?_
      have hr := stream_endRemote hst hreserved hst'
      refine ⟨fun hres => ?_, by simp, by simp, by simp, fun _ => hr, by simp⟩
      rw [hres] at hr
      cases hr
    exact hq.calm (.of_eq rfl rfl rfl)
  · exact h.calm hend

/-! ## Sections -/

/-- A change that concerns neither the table nor the reports. -/
theorem Fits.congr (h : s.Fits id p) (hs : s'.streams = s.streams)
    (hshown : s'.shown reportSide = s.shown reportSide) (hhist : s.history <+: s'.history) :
    s'.Fits id p := by
  refine ⟨(progressOn_of_shown hshown).trans h.progress, fun st hst => ?_,
    fun hp => hhist.subset (h.opened hp)⟩
  rw [stream?, hs] at hst
  exact h.agrees st hst

theorem Ordered.congr (h : s.Ordered) (hs : s'.streams = s.streams)
    (hshown : s'.shown reportSide = s.shown reportSide) (hhist : s.history <+: s'.history) :
    s'.Ordered := fun id => (h id).imp fun _ hp => hp.congr hs hshown hhist

/-- The block that is being received fits the events of its stream. -/
structure SectionFits (s : Session X) (p : Progress) : Prop where
  fits : s.Fits s.currentHeaderEventStream p
  opened : .opened s.currentHeaderEventStream ∈ s.history
  push : s.currentHeaderPush = true → p = .start
  trailer : s.currentHeaderPush = false → s.currentHeaderTrailer = true → p = .body
  head : s.currentHeaderPush = false → s.currentHeaderTrailer = false → p = .start ∨ p = .waiting
  reserved : s.currentHeaderPush = false → ∀ st, s.stream? s.currentHeaderEventStream = some st →
    st.state ≠ .reservedRemote

theorem SectionFits.ne_dead (h : s.SectionFits p) : p ≠ .dead := by
  rintro rfl
  cases hpush : s.currentHeaderPush with
  | true => exact nomatch h.push hpush
  | false =>
    cases htrailer : s.currentHeaderTrailer with
    | true => exact nomatch h.trailer hpush htrailer
    | false => simpa using h.head hpush htrailer

theorem SectionFits.congr (h : s.SectionFits p) (hs : s'.streams = s.streams)
    (hshown : s'.shown reportSide = s.shown reportSide) (hhist : s.history <+: s'.history)
    (hev : s'.currentHeaderEventStream = s.currentHeaderEventStream)
    (hpush : s'.currentHeaderPush = s.currentHeaderPush)
    (htrailer : s'.currentHeaderTrailer = s.currentHeaderTrailer) : s'.SectionFits p := by
  refine ⟨?_, ?_, ?_, ?_, ?_, ?_⟩
  · rw [hev]
    exact h.fits.congr hs hshown hhist
  · rw [hev]
    exact hhist.subset h.opened
  · rw [hpush]
    exact h.push
  · rw [hpush, htrailer]
    exact h.trailer
  · rw [hpush, htrailer]
    exact h.head
  · rw [hpush, hev, stream?, hs]
    exact h.reserved

/-- A section is reported, and its stream takes what it says. -/
theorem ordered_section (st : Stream) (h : s.Ordered) (hq : s.queueEvent event = (t, none))
    (hrep : event.isReport) (hid : event.streamID = id) (hp : s.Fits id p)
    (hn : p.next event = some q) (hopen : .opened id ∈ s.history) (hst : q.Agrees st) :
    (t.setStream id st).Ordered ∧ (t.setStream id st).Fits id q := by
  subst hid
  rw [queueEvent_ok hq]
  refine Ordered.report h hrep ?_ ?_ hp hn hopen ?_ ?_
  · simp [shown, note, setStream, reportSide, hrep]
  · exact fun o ho => mem_append_left _ ho
  · intro st' hst'
    simp only [setStream, note, stream?, AList.lookup_insert, Option.some.injEq] at hst'
    exact hst' ▸ hst
  · intro id st' hid hst'
    simp only [setStream, note, stream?, AList.lookup_insert_ne hid] at hst'
    exact ⟨st', hst', reportSide.refl st'⟩

/-- An informational section leaves its stream as it is. -/
theorem ordered_informational (h : s.Ordered) (hq : s.queueEvent event = (t, none))
    (hrep : event.isReport) (hid : event.streamID = id) (hp : s.Fits id p)
    (hn : p.next event = some q) (hopen : .opened id ∈ s.history)
    (hself : ∀ st, s.stream? id = some st → q.Agrees st) : t.Ordered ∧ t.Fits id q := by
  subst hid
  rw [queueEvent_ok hq]
  refine Ordered.report h hrep ?_ ?_ hp hn hopen hself ?_
  · simp [shown, note, reportSide, hrep]
  · exact fun o ho => mem_append_left _ ho
  · exact fun id st _ hst => ⟨st, hst, reportSide.refl st⟩

theorem isReport_sectionEvent (s : Session X) (endStream : Bool) :
    (s.sectionEvent endStream).isReport := by
  unfold sectionEvent Event.isReport Event.isMessage
  simp only
  split <;> simp

/-- What a section makes of the events of its stream. -/
theorem next_sectionEvent (h : s.SectionFits p) (endStream : Bool) :
    p.next (s.sectionEvent endStream) = some
      (if s.currentHeaderPush then .waiting
      else if s.currentHeaderTrailer then .trailed
      else if (inspectHeaderSection s.currentHeaders).informational then .waiting else .body) := by
  cases hpush : s.currentHeaderPush with
  | true =>
    rw [h.push hpush]
    simp [Progress.next, sectionEvent, hpush]
  | false =>
    cases htrailer : s.currentHeaderTrailer with
    | true =>
      rw [h.trailer hpush htrailer]
      simp [Progress.next, sectionEvent, hpush, htrailer]
    | false =>
      have hif : ∀ b : Bool, (if b = true then some Progress.waiting else some Progress.body) =
          some (if b = true then Progress.waiting else Progress.body) := by decide
      rcases h.head hpush htrailer with rfl | rfl
      · simpa [Progress.next, sectionEvent, hpush, htrailer, Event.isInformational] using hif _
      · simpa [Progress.next, sectionEvent, hpush, htrailer, Event.isInformational] using hif _

theorem trailer_not_informational (hvalid : s.validSection = true)
    (htrailer : s.currentHeaderTrailer = true) :
    (inspectHeaderSection s.currentHeaders).informational = false := by
  unfold validSection at hvalid
  rw [htrailer] at hvalid
  have hp := pseudo_trailer hvalid
  simp only [HeaderSectionMetadata.pseudo, Prod.mk.injEq] at hp
  exact hp.2.2.1

theorem ordered_commitSection (h : s.Ordered) (hb : s.SectionFits p)
    (hvalid : s.validSection = true) (hst : s.stream? s.currentHeaderEventStream = some st)
    (hq : s.queueEvent (s.sectionEvent endStream) = (t, none)) :
    (t.commitSection s.currentHeaderEventStream st endStream).Ordered := by
  have hagrees := hb.fits.agrees st hst
  have hnext := next_sectionEvent hb endStream
  have hrep := isReport_sectionEvent s endStream
  have ht := queueEvent_ok hq
  have hpush : t.currentHeaderPush = s.currentHeaderPush := by rw [ht]; rfl
  have htrailer : t.currentHeaderTrailer = s.currentHeaderTrailer := by rw [ht]; rfl
  have hheaders : t.currentHeaders = s.currentHeaders := by rw [ht]; rfl
  unfold commitSection
  rw [hpush, htrailer, hheaders]
  simp only
  split
  · next hp =>
    -- A promise: the stream is as new.
    rw [if_pos hp] at hnext
    have hhead := hagrees.head (.inl (hb.push hp))
    exact (ordered_section { st with method := (inspectHeaderSection s.currentHeaders).method }
      h hq hrep rfl hb.fits hnext hb.opened
      ⟨hagrees.reserved, fun _ => hhead, by simp, by simp, by simp, by simp⟩).1
  next hp =>
  rw [if_neg hp] at hnext
  have hp : s.currentHeaderPush = false := by simpa using hp
  have hreserved := hb.reserved hp st hst
  split
  · next hfinal =>
    rw [Bool.not_eq_true'] at hfinal
    have hend : ∀ q, p.next (s.sectionEvent endStream) = some q → q = .body ∨ q = .trailed →
        q.Agrees (Stream.receiveSection st (inspectHeaderSection s.currentHeaders)
          s.currentHeaderTrailer) →
        (if endStream = true then
          (t.setStream s.currentHeaderEventStream (Stream.receiveSection st
            (inspectHeaderSection s.currentHeaders) s.currentHeaderTrailer)).remoteEnd
              s.currentHeaderEventStream
        else t.setStream s.currentHeaderEventStream (Stream.receiveSection st
            (inspectHeaderSection s.currentHeaders) s.currentHeaderTrailer)).Ordered := by
      intro q hn hbody hq'
      obtain ⟨ho, hf⟩ := ordered_section _ h hq hrep rfl hb.fits hn hb.opened hq'
      split
      · exact ordered_remoteEnd ho hf hbody
      · exact ho
    split at hnext
    · next htr =>
      exact hend _ hnext (.inr rfl) ⟨fun hr => absurd hr hreserved, by simp, fun _ => rfl,
        fun _ => by simp [Stream.receiveSection, htr], by simp, by simp⟩
    · rw [if_neg (by simp [hfinal])] at hnext
      exact hend _ hnext (.inl rfl) ⟨fun hr => absurd hr hreserved, by simp, fun _ => rfl,
        by simp, by simp, by simp⟩
  · next hinf =>
    -- An informational section: a trailing one has no status.
    have hinf : (inspectHeaderSection s.currentHeaders).informational = true := by
      simpa using hinf
    have htr : s.currentHeaderTrailer = false := by
      rw [Bool.eq_false_iff]
      intro htr
      rw [trailer_not_informational hvalid htr] at hinf
      cases hinf
    rw [if_neg (by simp [htr]), if_pos hinf] at hnext
    have hhead := hagrees.head (hb.head hp htr)
    obtain ⟨ho, hf⟩ := ordered_informational h hq hrep rfl hb.fits hnext hb.opened
      fun x hx => by
        cases hst.symm.trans hx
        exact ⟨hagrees.reserved, fun _ => hhead, by simp, by simp, by simp, by simp⟩
    split
    · refine ordered_streamError ho hf (by simp) ?_
      rw [ht]
      exact mem_append_left _ hb.opened
    · exact ho

theorem ordered_finishSection (h : s.Ordered) (hb : s.SectionFits p) :
    (s.finishSection endStream).Ordered := by
  unfold finishSection
  split
  · exact h
  next st hst =>
  split
  · exact ordered_streamError h hb.fits hb.ne_dead hb.opened
  next hvalid =>
  have hvalid : s.validSection = true := by simpa using hvalid
  generalize hq : s.queueEvent (s.sectionEvent endStream) = w
  obtain ⟨t, _ | err⟩ := w
  · have hcur : t.currentHeaderEventStream = s.currentHeaderEventStream := by
      rw [queueEvent_ok hq]
      rfl
    have hcommit := ordered_commitSection h hb hvalid hst hq
    rw [← hcur] at hcommit
    exact hcommit.congr rfl rfl prefix_rfl
  · rw [queueEvent_error hq]
    exact h.calm (calm_connectionError s _ _)

/-! ## The condition -/

/-- When the events of every stream keep to the grammar: no stream is refused, DATA frames come on
streams that take them and no longer than declared, and RST_STREAM frames come on streams that have
not been reported as reset. -/
def GrammarCondition (s : Session X) : Action → Prop
  | .deliver (.frameBegin header) =>
    (header.type = .headers → s.stream? header.streamID = none → s.HasRoom) ∧
      (header.type = .data → s.TakesData header)
  | .deliver (.data id data _) => ∀ st ∈ s.stream? id, st.receiveHasLength = true →
    data.length ≤ sub64 st.receiveLength st.receiveBody
  | .deliver (.pushPromise _ _) => s.HasRoom
  | .deliver (.rstStream id _) => ∀ event ∈ reportsOn id s.history, event.type ≠ .streamReset
  | _ => True

instance (s : Session X) (a : Action) : Decidable (s.GrammarCondition a) := by
  induction a using Action.casesOn with
  | deliver call =>
    induction call using Callback.casesOn <;> (dsimp only [GrammarCondition]; infer_instance)
  | _ => exact .isTrue trivial

/-- Only a reset leads to the end of the reports. -/
theorem dead_of_next (h : p.next event = some .dead) : event.type = .streamReset := by
  unfold Progress.next at h
  split at h
  case h_9 heq _ => exact heq
  all_goals first
    | cases h
    | (split_ifs at h <;> cases h)

theorem reset_of_dead (events : List Event)
    (h : events.foldlM Progress.next .start = some .dead) :
    ∃ event ∈ events, event.type = .streamReset := by
  rcases eq_nil_or_concat events with rfl | ⟨init, event, rfl⟩
  · cases h
  · rw [concat_eq_append, foldlM_append] at h
    obtain ⟨p, -, hp⟩ := Option.bind_eq_some_iff.1 h
    refine ⟨event, by simp, dead_of_next (p := p) ?_⟩
    simpa using hp

/-! ## Actions -/

/-- The events keep to the grammar, and so does what is being received. -/
structure Orderly (s : Session X) : Prop where
  ordered : s.Ordered
  frame : ∀ header, s.phase.frame = some header → s.phase.block ≠ none → header.carriesBlock
  block : s.failed = none → s.decoder.active = true →
    s.phase.block = some s.currentHeaderStream ∧ ∃ p, s.SectionFits p
  data : s.failed = none → ∀ header, s.phase.frame = some header → header.type = .data →
    s.Fits header.streamID .body

theorem SectionFits.calm (h : s.SectionFits p) (hc : Calm reportSide s s') : s'.SectionFits p := by
  have hb := hc.block rfl
  simp only [Session.block, Block.mk.injEq] at hb
  obtain ⟨-, -, hev, htrailer, hpush⟩ := hb
  refine ⟨?_, ?_, ?_, ?_, ?_, ?_⟩
  · rw [hev]
    exact h.fits.calm hc
  · rw [hev]
    exact hc.history.subset h.opened
  · rw [hpush]
    exact h.push
  · rw [hpush, htrailer]
    exact h.trailer
  · rw [hpush, htrailer]
    exact h.head
  · rw [hpush, hev]
    intro hp st' hst' hr
    obtain ⟨st, hst, hsame⟩ | ⟨hnew, -⟩ := hc.streams _ st' hst'
    · exact h.reserved hp st hst (hsame.2.2.reserved hr)
    · exact hnew h.opened

/-- What leaves the received messages alone, and the phase of the callbacks. -/
theorem Orderly.calm (h : s.Orderly) (hc : Calm reportSide s s')
    (hf : s'.failed = none → s.failed = none) (hblock : s'.phase.block = s.phase.block)
    (hframe : ∀ header, s'.phase.frame = some header → s.phase.frame = some header ∨
      header.type ≠ .data ∧ (s.phase.block ≠ none → header.carriesBlock)) : s'.Orderly := by
  refine ⟨h.ordered.calm hc, fun header hh => ?_, fun hf' ha => ?_, fun hf' header hh ht => ?_⟩
  · rw [hblock]
    rcases hframe header hh with hh | hh
    · exact h.frame header hh
    · exact hh.2
  · have hb := hc.block rfl
    simp only [Session.block, Block.mk.injEq] at hb
    obtain ⟨hphase, p, hp⟩ := h.block (hf hf') (hb.1 ▸ ha)
    refine ⟨?_, p, hp.calm hc⟩
    rw [hblock, hb.2.1]
    exact hphase
  · rcases hframe header hh with hh | hh
    · exact (h.data (hf hf') header hh ht).calm hc
    · exact absurd ht hh.1

/-- Outside of messages, only the events are at stake. -/
theorem orderly_outside (header : FrameHeader) (ho : s.Ordered)
    (hframe : s.phase.frame = some header) (ht : header.type ≠ .data)
    (hblock : s.phase.block = none) (hactive : s.failed = none → s.decoder.active = false) :
    s.Orderly := by
  refine ⟨ho, fun _ _ hne => absurd hblock hne, fun hf ha => ?_, fun _ header' hh ht' => ?_⟩
  · rw [hactive hf] at ha
    cases ha
  · cases hframe.symm.trans hh
    exact absurd ht' ht

/-- A frame that carries no part of a block comes outside of blocks. -/
theorem Orderly.block_none (h : s.Orderly) (hframe : s.phase.frame = some header)
    (ht : ¬header.carriesBlock) : s.phase.block = none :=
  by_contra fun hne => ht (h.frame header hframe hne)

theorem Orderly.inactive (h : s.Orderly) (hf : s.failed = none) (hblock : s.phase.block = none) :
    s.decoder.active = false := by
  rw [Bool.eq_false_iff]
  intro ha
  rw [(h.block hf ha).1] at hblock
  cases hblock

/-! ## Control frames -/

theorem ordered_onRSTStream (h : s.Ordered) (hids : s.endpoint.IdSpace)
    (hok : ∀ event ∈ reportsOn id s.history, event.type ≠ .streamReset) :
    (s.onRSTStream id code).Ordered := by
  unfold onRSTStream
  split
  · split
    · exact h.calm (calm_connectionError s _ _)
    · exact h
  next st hst =>
  obtain ⟨p, hp⟩ := h id
  have hne : p ≠ .dead := by
    rintro rfl
    obtain ⟨event, hmem, ht⟩ := reset_of_dead _ hp.progress
    exact hok event hmem ht
  have hc : Calm reportSide s (s.closeStream id) := calm_closeStream s id
  exact ordered_offerReset (h.calm hc) (hp.calm hc) hne
    (hc.history.subset (hids.opened id st hst).1) fun st' hst' => closed_of_closeStream hst'

theorem ordered_onGoAway {last : ℕ} (h : s.Ordered) (hids : s.endpoint.IdSpace) :
    (s.onGoAway last code).Ordered := by
  unfold onGoAway
  split
  · exact h.calm (calm_connectionError s _ _)
  · have hc : Calm reportSide s { s with
        goAwayReceived := true, peerLastStream := last, ranges := s.ranges + 1 } :=
      .of_eq rfl rfl rfl
    refine (ordered_refuseStreams _ _ (h.calm hc) fun id st hst => ?_).calm
      (calm_offerEvent (by simp [Event.isReport, Event.isMessage]))
    exact (hids.opened id st hst).1

theorem ordered_onWindowUpdate {increment : ℕ} (h : s.Ordered) (hids : s.endpoint.IdSpace) :
    (s.onWindowUpdate id increment).Ordered := by
  by_cases hover : ∃ st, s.stream? id = some st ∧ st.state ≠ .closed ∧
      st.sendWindow > maxInt32 - increment ∧ id ≠ 0 ∧ s.failed = none
  · obtain ⟨st, hst, hs, hwindow, hz, hf⟩ := hover
    unfold onWindowUpdate
    simp only [hf, hz, hst, hs, hwindow, ne_eq, not_true_eq_false, if_false, if_true]
    exact ordered_streamError_open h hids hst hs
  · refine h.calm ?_
    unfold onWindowUpdate
    split
    · exact .refl s
    next hf =>
    split
    · split
      · exact calm_connectionError s _ _
      · have h : Calm reportSide s
            { s with connectionSendWindow := s.connectionSendWindow + increment } :=
          .of_eq rfl rfl rfl
        exact h.trans (calm_offerEvent (by simp [Event.isReport, Event.isMessage]))
    next hz =>
    split
    · split
      · exact calm_connectionError s _ _
      · exact .refl s
    next st hst =>
    split_ifs with hs hwindow
    · exact .refl s
    · exact absurd ⟨st, hst, hs, hwindow, hz, not_not.1 hf⟩ hover
    · have h : Calm reportSide s
          (s.setStream id { st with sendWindow := st.sendWindow + increment }) :=
        calm_setStream hst (reportSide.windows st _ st.recvWindow)
      exact h.trans (calm_offerEvent (by simp [Event.isReport, Event.isMessage]))

/-! ## The beginning of a block -/

/-- A section begins on a stream that takes one. -/
theorem sectionFits_startSection (endStream : Bool) (h : s.Ordered) (hids : s.endpoint.IdSpace)
    (hst : s.stream? id = some st) (hr : canReceive st.state = true)
    (ht : st.receivedTrailers = false) :
    (s.startSection id st endStream).Ordered ∧
      ∃ p, (s.startSection id st endStream).SectionFits p := by
  obtain ⟨p, hp⟩ := h id
  have hagrees := hp.agrees st hst
  have hopen := (hids.opened id st hst).1
  -- The stream after the beginning has the same fields, in a narrower state.
  have hset : ∃ state, st.state.Narrows state ∧ state ≠ .reservedRemote ∧
      (s.startSection id st endStream).stream? id = some { st with state } ∧
      ∀ id', id' ≠ id → (s.startSection id st endStream).stream? id' = s.stream? id' := by
    unfold startSection
    simp only
    split
    · next hres =>
      refine ⟨.halfClosedLocal, hres ▸ narrows_reservedRemote, by simp, AList.lookup_insert _, ?_⟩
      exact fun id' hid => AList.lookup_insert_ne hid
    · next hres => exact ⟨st.state, narrows_refl _, hres, hst, fun _ _ => rfl⟩
  obtain ⟨state, hnarrow, hne, hself, hothers⟩ := hset
  have hhist : (s.startSection id st endStream).history = s.history := by
    unfold startSection
    simp only
    split <;> rfl
  have hprogress : ∀ id', (s.startSection id st endStream).progressOn id' = s.progressOn id' :=
    fun id' => by rw [progressOn, hhist, progressOn]
  have hfits : (s.startSection id st endStream).Fits id p := by
    refine ⟨(hprogress id).trans hp.progress, fun st' hst' => ?_, fun hn => ?_⟩
    · rw [hself] at hst'
      cases hst'
      exact hagrees.same ⟨rfl, rfl, hnarrow⟩
    · rw [hhist]
      exact hp.opened hn
  refine ⟨fun id' => ?_, p, ⟨hfits, ?_, ?_, ?_, ?_, ?_⟩⟩
  · by_cases hid : id' = id
    · subst hid
      exact ⟨p, hfits⟩
    · obtain ⟨p', hp'⟩ := h id'
      refine ⟨p', (hprogress id').trans hp'.progress, fun st' hst' => ?_, fun hn => ?_⟩
      · rw [hothers id' hid] at hst'
        exact hp'.agrees st' hst'
      · rw [hhist]
        exact hp'.opened hn
  · rw [hhist]
    exact hopen
  · exact fun hc => nomatch hc
  · intro _ htr
    change st.receivedHeaders = true at htr
    cases p with
    | body => rfl
    | start | waiting => simp [hagrees.head] at htr
    | trailed => simp [hagrees.trailed] at ht
    | ended => simp [hagrees.ended] at hr
    | dead => simp [hagrees.dead, canReceive] at hr
  · intro _ htr
    change st.receivedHeaders = false at htr
    cases p with
    | start | waiting => simp
    | body | trailed => simp [hagrees.body] at htr
    | ended => simp [hagrees.ended] at hr
    | dead => simp [hagrees.dead, canReceive] at hr
  · intro _ st' hst' hres
    change (s.startSection id st endStream).stream? id = some st' at hst'
    rw [hself] at hst'
    cases hst'
    exact hne hres

/-- A section that starts makes a block. -/
theorem orderly_startSection (h : s.Ordered) (hids : s.endpoint.IdSpace)
    (hst : s.stream? id = some st) (hr : canReceive st.state = true)
    (ht : st.receivedTrailers = false)
    (hb : (s.startSection id st endStream).beginDecoderBlock = (t, err)) :
    t.Ordered ∧ (err = none → t.currentHeaderStream = id ∧ ∃ p, t.SectionFits p) ∧
      ∀ e, err = some e → ∃ e', e = .header e' := by
  obtain ⟨ho, p, hp⟩ := sectionFits_startSection endStream h hids hst hr ht
  obtain ⟨e, he⟩ | ⟨decoder, -, hd⟩ := beginDecoderBlock_cases (s.startSection id st endStream)
  · rw [he] at hb
    cases hb
    exact ⟨ho, by simp, fun e' he' => ⟨e, (Option.some.inj he').symm⟩⟩
  · rw [hd] at hb
    cases hb
    have hshown : ({ s.startSection id st endStream with decoder }.note
        (.decoder .beginBlock)).shown reportSide = (s.startSection id st endStream).shown reportSide := by
      simp [shown, note, reportSide]
    exact ⟨ho.congr rfl hshown (prefix_append _ _),
      fun _ => ⟨rfl, p, hp.congr rfl hshown (prefix_append _ _) rfl rfl rfl⟩,
      by simp⟩

/-- What the beginning of a HEADERS frame leaves, between blocks and with room for a new stream. -/
theorem ordered_beginHeaders (h : s.Ordered) (hids : s.endpoint.IdSpace) (hz : id ≠ 0)
    (hactive : s.decoder.active = false) (hroom : s.stream? id = none → s.HasRoom)
    (hb : s.beginInboundHeaders id endStream = (t, err)) :
    (err = none → t.Ordered ∧ t.currentHeaderStream = id ∧ ∃ p, t.SectionFits p) ∧
      ∀ e, err = some e → (t.handleProtocolError e).Ordered ∧
        ((t.handleProtocolError e).failed = none →
          (t.handleProtocolError e).decoder.active = false) := by
  have hbegins := begins_beginInboundHeaders s id endStream
  rw [hb] at hbegins
  -- A stream error: the decoder has not been touched.
  have hstream : ∀ code reason, (s.streamError id code).Ordered →
      (s.handleProtocolError (.protocol id code reason)).Ordered ∧
        ((s.handleProtocolError (.protocol id code reason)).failed = none →
          (s.handleProtocolError (.protocol id code reason)).decoder.active = false) := by
    intro code reason ho
    simp only [handleProtocolError, if_neg hz]
    exact ⟨ho, fun _ => (kept_streamError s id code).active.trans hactive⟩
  generalize hr : ((t, err) : Session X × Option SessionError) = r at hbegins
  cases hbegins with
  | fails code reason =>
    cases hr
    refine ⟨by simp, ?_⟩
    rintro e ⟨⟩
    exact ⟨h.calm (calm_connectionError s _ _), fun hn => absurd hn (failed_connectionError _ _ _)⟩
  | refused reason hst hopen hroom' => exact absurd (hroom hst) hroom'
  | rejected code reason hst hs =>
    cases hr
    refine ⟨by simp, ?_⟩
    rintro e ⟨⟩
    exact hstream code reason (ordered_streamError_open h hids hst hs)
  | known hst hcan htrail =>
    obtain ⟨ho, hok, herr⟩ := orderly_startSection h hids hst hcan htrail hr.symm
    refine ⟨fun hn => ⟨ho, hok hn⟩, fun e he => ?_⟩
    obtain ⟨e', rfl⟩ := herr e he
    exact ⟨ho.calm (calm_connectionError t _ _), fun hn => absurd hn (failed_connectionError _ _ _)⟩
  | opens hst hopen hroom' =>
    obtain ⟨hlt, hrole⟩ := peerMayOpen_spec hopen
    have hnew := not_opened_of_lastPeer_lt hids hlt hrole
    have hadd : Calm reportSide s (s.openPeer id) :=
      (calm_addStream hnew (reportSide.fresh_new _ _ _ _)).trans (.of_eq rfl rfl rfl)
    have hids' : (s.openPeer id).endpoint.IdSpace := by
      have hreach : Reaches (.deliver (.pushPromise 0 id)) s.endpoint s (s.openPeer id) :=
        reaches_addPeer (.inr ⟨0, rfl⟩) hids hlt hrole (by simp)
      exact hreach.invariant IdSpace.step hids
    obtain ⟨ho, hok, herr⟩ := orderly_startSection (h.calm hadd) hids' (AList.lookup_insert _)
      (by simp [freshStream, canReceive]) rfl hr.symm
    refine ⟨fun hn => ⟨ho, hok hn⟩, fun e he => ?_⟩
    obtain ⟨e', rfl⟩ := herr e he
    exact ⟨ho.calm (calm_connectionError t _ _), fun hn => absurd hn (failed_connectionError _ _ _)⟩

/-! ## DATA frames -/

/-- The stream of a DATA frame that is taken is between its headers and its trailers. -/
theorem TakesData.fits (h : s.TakesData header) (ho : s.Ordered) :
    s.Fits header.streamID .body := by
  obtain ⟨st, hst, hr, hheaders, htrailers, -⟩ := h
  obtain ⟨p, hp⟩ := ho header.streamID
  have ha := hp.agrees st hst
  cases p with
  | body => exact hp
  | start | waiting => simp [ha.head] at hheaders
  | trailed => simp [ha.trailed] at htrailers
  | ended => simp [ha.ended] at hr
  | dead => simp [ha.dead, canReceive] at hr

theorem calm_chargeData_of_takes (h : s.TakesData header) :
    Calm reportSide s (s.chargeData header) := by
  obtain ⟨st, hst, hr, hheaders, htrailers, hbody, hwindow⟩ := h
  rw [Option.mem_def] at hst
  unfold chargeData
  simp only [hst]
  rw [if_neg (by simp [hr, hheaders, htrailers, hbody])]
  split_ifs with hconn hstream
  · exact calm_connectionError s _ _
  · exact absurd hwindow (not_le.2 hstream)
  · have h : Calm reportSide s
        { s with connectionRecvWindow := s.connectionRecvWindow - header.length } :=
      .of_eq rfl rfl rfl
    exact h.trans (calm_setStream hst (reportSide.windows st st.sendWindow _))

/-- The beginning of a frame that starts no section. -/
theorem calm_onFrameBegin_other (hh : header.type ≠ .headers)
    (hd : header.type = .data → s.failed = none → s.TakesData header) :
    Calm reportSide s (s.onFrameBegin header) := by
  have hframe : Calm reportSide s { s with currentFrame := header } := .of_eq rfl rfl rfl
  unfold onFrameBegin
  split
  · exact .refl s
  next hf =>
  simp only
  split
  · exact hframe.trans (calm_connectionError _ _ _)
  split
  · next hdata =>
    have ht : TakesData { s with currentFrame := header } header := hd hdata (not_not.1 hf)
    exact hframe.trans (calm_chargeData_of_takes ht)
  split
  · exact .of_eq rfl rfl rfl
  · exact hframe

/-- A part of a body that is no longer than declared. -/
theorem ordered_onData (endStream : Bool) (h : s.Ordered) (hp : s.failed = none → s.Fits id .body)
    (hok : ∀ st ∈ s.stream? id, st.receiveHasLength = true →
      data.length ≤ sub64 st.receiveLength st.receiveBody) :
    (s.onData id data endStream).Ordered ∧
      ((s.onData id data endStream).failed = none → (s.onData id data endStream).Fits id .body) := by
  unfold onData
  split
  · exact ⟨h, hp⟩
  next hor =>
  obtain ⟨hf, -⟩ := not_or.1 hor
  have hp := hp (not_not.1 hf)
  split
  · exact ⟨h, fun _ => hp⟩
  next st hst =>
  rw [if_neg (by simpa using hok st hst)]
  have hc : Calm reportSide s (s.setStream id
      { st with receiveBody := (st.receiveBody + data.length) % 2 ^ 64 }) :=
    calm_setStream hst ⟨rfl, rfl, narrows_refl _⟩
  have hp' := hp.calm hc
  simp only
  generalize s.setStream id { st with receiveBody := (st.receiveBody + data.length) % 2 ^ 64 } = t
    at hc hp'
  generalize hq : t.queueEvent { type := .data, streamID := id, endStream, data } = w
  obtain ⟨u, _ | err⟩ := w
  · have hu := ordered_informational (h.calm hc) hq (.inl (by simp [Event.isMessage])) rfl hp'
      (q := .body) rfl (hp'.opened (by simp)) fun st hst => hp'.agrees st hst
    exact ⟨hu.1, fun _ => hu.2⟩
  · rw [queueEvent_error hq]
    exact ⟨(h.calm hc).calm (calm_connectionError t _ _),
      fun hn => absurd hn (failed_connectionError _ _ _)⟩

theorem calm_onFrameComplete_other (ht : header.type ≠ .data) :
    Calm reportSide s (s.onFrameComplete header) := by
  have hcount : Calm reportSide s (s.countFrame header) := .of_eq rfl rfl rfl
  unfold onFrameComplete
  split
  · exact .refl s
  simp only
  split
  · exact hcount.trans (calm_connectionError _ _ _)
  split
  · exact hcount.trans (walks_completePriorityUpdate le_rfl _ _).calm
  · exact hcount

theorem ordered_onFrameComplete (h : s.Ordered) (ht : header.type = .data)
    (hp : s.failed = none → s.Fits header.streamID .body) :
    (s.onFrameComplete header).Ordered := by
  have hcount : Calm reportSide s (s.countFrame header) := .of_eq rfl rfl rfl
  unfold onFrameComplete
  split
  · exact h
  next hf =>
  have hp := (hp (not_not.1 hf)).calm hcount
  have h := h.calm hcount
  simp only
  split
  · exact h.calm (calm_connectionError _ _ _)
  unfold completeData
  split
  · exact h
  next st hst =>
  have hc := (walks_credits hst : Walks reportSide 8 true _ _).calm
  simp only
  split
  · exact ordered_remoteEnd (h.calm hc) (hp.calm hc) (.inl rfl)
  · exact h.calm hc

/-! ## Promises and the ends of blocks -/

theorem ordered_onPushPromise (id promised : ℕ) (h : s.Ordered) (hids : s.endpoint.IdSpace)
    (hroom : s.HasRoom) : (s.onPushPromise id promised).Ordered ∧
      ((s.onPushPromise id promised).failed = none →
        (s.onPushPromise id promised).decoder.active = true →
        (s.onPushPromise id promised).currentHeaderStream = id ∧
          ∃ p, (s.onPushPromise id promised).SectionFits p) := by
  unfold onPushPromise
  split
  · next hf => exact ⟨h, fun hn => absurd hn hf⟩
  next hf =>
  split
  · exact ⟨h.calm (calm_connectionError s _ _), fun hn => absurd hn (failed_connectionError _ _ _)⟩
  next hinv =>
  have hnew : Obs.opened promised ∉ s.history := by
    simp only [Bool.or_eq_true, decide_eq_true_eq, not_or, not_not, Bool.not_eq_true] at hinv
    obtain ⟨⟨⟨⟨⟨⟨hrole, -⟩, -⟩, -⟩, heven⟩, hlt⟩, -⟩ := hinv
    refine not_opened_of_lastPeer_lt hids (Nat.lt_of_not_le hlt) ?_
    rw [hrole]
    simp [Role.initiates, heven]
  rw [if_neg (by obtain ⟨h1, h2⟩ := hroom; omega)]
  have hadd : Calm reportSide s (s.addStream promised (s.freshStream .reservedRemote false)) :=
    calm_addStream hnew (reportSide.fresh_new _ _ _ _)
  have hstart : s.Fits promised .start := by
    obtain ⟨p, hp⟩ := h promised
    have : p = .start := by_contra fun hne => hnew (hp.opened hne)
    exact this ▸ hp
  have ho : (s.reserveRemote id promised).Ordered :=
    (h.calm hadd).congr rfl rfl prefix_rfl
  have hfits : (s.reserveRemote id promised).SectionFits .start := by
    refine ⟨(hstart.calm hadd).congr rfl rfl prefix_rfl, ?_, fun _ => rfl, ?_, ?_, ?_⟩
    · exact mem_append_right _ (by simp [reserveRemote])
    · simp [reserveRemote]
    · simp [reserveRemote]
    · simp [reserveRemote]
  obtain ⟨e, he⟩ | ⟨decoder, -, hd⟩ := beginDecoderBlock_cases (s.reserveRemote id promised)
  · rw [he]
    exact ⟨ho.calm (calm_connectionError _ _ _),
      fun hn => absurd hn (failed_connectionError _ _ _)⟩
  · rw [hd]
    have hshown : ({ s.reserveRemote id promised with decoder }.note
        (.decoder .beginBlock)).shown reportSide = (s.reserveRemote id promised).shown reportSide := by
      simp [shown, note, reportSide]
    exact ⟨ho.congr rfl hshown (prefix_append _ _), fun _ _ =>
      ⟨rfl, .start, hfits.congr rfl hshown (prefix_append _ _) rfl rfl rfl⟩⟩

theorem ordered_endDecoderBlock (h : s.Ordered) : s.endDecoderBlock.1.Ordered := by
  unfold endDecoderBlock
  simp only
  split
  · refine h.congr rfl ?_ (prefix_append _ _)
    simp [shown, note, reportSide]
  · exact h.congr rfl rfl prefix_rfl

/-- The end of a block commits its section, if it has one, and leaves none. -/
theorem ordered_onHeaderBlockEnd (id : ℕ) (endStream : Bool) (h : s.Ordered)
    (hids : s.endpoint.IdSpace) (hb : s.failed = none → s.decoder.active = true →
      s.currentHeaderStream = id ∧ ∃ p, s.SectionFits p) :
    (s.onHeaderBlockEnd id endStream).Ordered ∧ ((s.onHeaderBlockEnd id endStream).failed = none →
      (s.onHeaderBlockEnd id endStream).decoder.active = false) := by
  unfold onHeaderBlockEnd
  split
  · next hor =>
    refine ⟨h, fun hf => ?_⟩
    rw [Bool.eq_false_iff]
    exact fun hactive => hor.elim (fun hne => hne hf) fun hne => hne (hb hf hactive).1.symm
  next hor =>
  obtain ⟨hf, -⟩ := not_or.1 hor
  have hf := not_not.1 hf
  generalize hend : s.endDecoderBlock = w
  obtain ⟨t, _ | err⟩ := w
  · obtain ⟨hactive, decoder, hd, rfl⟩ := endDecoderBlock_ok hend
    obtain ⟨-, p, hp⟩ := hb hf hactive
    have hshown : ({ s.note (.decoder .endBlock) with decoder } : Session X).shown reportSide =
        s.shown reportSide := by
      simp [shown, note, reportSide]
    refine ⟨ordered_finishSection (h.congr rfl hshown (prefix_append _ _))
      (hp.congr rfl hshown (prefix_append _ _) rfl rfl rfl), fun _ => ?_⟩
    have hreach : Reaches (.deliver (.headerBlock 0 [])) s.endpoint s s.endDecoderBlock.1 :=
      reaches_endDecoderBlock trivial
    rw [hend] at hreach
    exact (kept_finishSection (hreach.invariant IdSpace.step hids) hf).active.trans hd
  · have ho := ordered_endDecoderBlock h
    rw [hend] at ho
    exact ⟨ho.calm (calm_connectionError t _ _),
      fun hn => absurd hn (failed_connectionError _ _ _)⟩

/-! ## Runs -/

theorem idSpace_note_received (hids : s.endpoint.IdSpace) (call : Callback) :
    (s.note (.received call)).endpoint.IdSpace :=
  hids.note (by simp)

/-- An action other than a callback leaves the received messages alone. -/
theorem orderly_of_calm_act (hw : s.WellFormed) (ha : s.Allows a) (hne : ∀ call, a ≠ .deliver call)
    (h : s.Orderly) (hc : Calm reportSide s (s.act a)) : (s.act a).Orderly := by
  have hphase := phase_act hw ha hne
  refine h.calm hc (failed_of_act hw ha) (by rw [hphase]) fun header hh => .inl ?_
  rwa [hphase] at hh

/-- A callback inside a frame that leaves the received messages alone. -/
theorem orderly_of_calm_deliver (hw : s.WellFormed) (ha : s.Allows (.deliver call)) (h : s.Orderly)
    (hc : Calm reportSide (s.note (.received call)) (s.deliver call))
    (hblock : (s.phase.next call).block = s.phase.block)
    (hframe : ∀ header, call = .frameBegin header →
      header.type ≠ .data ∧ (s.phase.block ≠ none → header.carriesBlock)) :
    (s.deliver call).Orderly := by
  have hphase := phase_deliver hw ha
  refine h.calm ((calm_note_received reportSide s call).trans hc)
    (failed_of_act hw ha) ?_ fun header hh => ?_
  · rw [hphase, hblock]
  · rw [hphase] at hh
    exact (frame_next hh).imp_right (hframe header)

/-- Outside of blocks, what does not belong to a block starts none. -/
theorem Orderly.stays_inactive (h : s.Orderly) (hw : s.WellFormed) (ha : s.Allows a)
    (hr : ¬a.readsBlock) (hblock : s.phase.block = none) (hf : (s.act a).failed = none) :
    (s.act a).decoder.active = false :=
  (kept_of_reaches hr (hw.reaches ha)).1.active.trans (h.inactive (failed_of_act hw ha hf) hblock)

/-- A callback of a control frame that can report resets. -/
theorem orderly_of_control (hw : s.WellFormed) (ha : s.Allows (.deliver call)) (h : s.Orderly)
    (hframe : s.phase.frame = some header)
    (ht : header.type = .rstStream ∨ header.type = .goAway ∨ header.type = .windowUpdate)
    (hnext : s.phase.next call = s.phase) (hr : ¬(Action.deliver call).readsBlock)
    (ho : (s.deliver call).Ordered) : (s.deliver call).Orderly := by
  have hcarries : ¬header.carriesBlock := by
    rcases ht with ht | ht | ht <;> simp only [FrameHeader.carriesBlock, ht] <;> decide
  have hdata : header.type ≠ .data := by
    rcases ht with ht | ht | ht <;> rw [ht] <;> decide
  have hblock := h.block_none hframe hcarries
  have hphase := phase_deliver hw ha
  rw [hnext] at hphase
  exact orderly_outside header ho (hphase ▸ hframe) hdata (hphase ▸ hblock)
    (h.stays_inactive hw ha hr hblock)

theorem ordered_onFrameBegin_headers (h : s.Ordered) (hids : s.endpoint.IdSpace)
    (hz : header.streamID ≠ 0) (ht : header.type = .headers)
    (hactive : s.failed = none → s.decoder.active = false)
    (hroom : s.stream? header.streamID = none → s.HasRoom) :
    (s.onFrameBegin header).Ordered ∧ ((s.onFrameBegin header).failed = none →
      (s.onFrameBegin header).decoder.active = true →
      (s.onFrameBegin header).currentHeaderStream = header.streamID ∧
        ∃ p, (s.onFrameBegin header).SectionFits p) := by
  have hframe : Calm reportSide s { s with currentFrame := header } := .of_eq rfl rfl rfl
  unfold onFrameBegin
  split
  · next hf => exact ⟨h, fun hn => absurd hn hf⟩
  next hf =>
  simp only
  split
  · exact ⟨h.calm (hframe.trans (calm_connectionError _ _ _)),
      fun hn => absurd hn (failed_connectionError _ _ _)⟩
  have hids' : ({ s with currentFrame := header } : Session X).endpoint.IdSpace := hids
  generalize hb : beginInboundHeaders { s with currentFrame := header } header.streamID
    (header.flags.has .endStream) = w
  obtain ⟨t, err⟩ := w
  obtain ⟨hok, herr⟩ := ordered_beginHeaders (h.calm hframe) hids' hz (hactive (not_not.1 hf))
    hroom hb
  cases err with
  | none => exact ⟨(hok rfl).1, fun _ _ => (hok rfl).2⟩
  | some e =>
    refine ⟨(herr e rfl).1, fun hn ha => ?_⟩
    rw [(herr e rfl).2 hn] at ha
    cases ha

/-- The beginning of a HEADERS frame. -/
theorem orderly_frameBegin_headers (hw : s.WellFormed)
    (ha : s.Allows (.deliver (.frameBegin header))) (h : s.Orderly) (ht : header.type = .headers)
    (hroom : s.stream? header.streamID = none → s.HasRoom) :
    (s.deliver (.frameBegin header)).Orderly := by
  have hphase := phase_deliver hw ha
  have hblock := block_eq_none ha ht
  have hcarries : header.carriesBlock := .inl ht
  obtain ⟨ho, hb⟩ := ordered_onFrameBegin_headers
    (h.ordered.calm (calm_note_received reportSide s _))
    (idSpace_note_received hw.ids _) (Parser.streamID_ne_zero ha.2.1 hcarries) ht
    (fun hf => h.inactive hf hblock) hroom
  refine ⟨ho, ?_, fun hf hactive => ?_, fun _ header' hh ht' => ?_⟩
  · rw [hphase]
    rintro header' ⟨⟩ -
    exact hcarries
  · obtain ⟨hcur, hp⟩ := hb hf hactive
    refine ⟨?_, hp⟩
    rw [hphase]
    refine (if_pos ht).trans ?_
    exact congrArg some hcur.symm
  · rw [hphase] at hh
    cases hh
    rw [ht] at ht'
    exact absurd ht' (by decide)

/-- The beginning of a DATA frame. -/
theorem orderly_frameBegin_data (hw : s.WellFormed) (ha : s.Allows (.deliver (.frameBegin header)))
    (h : s.Orderly) (ht : header.type = .data) (htakes : s.TakesData header) :
    (s.deliver (.frameBegin header)).Orderly := by
  have hphase := phase_deliver hw ha
  have hne : header.type ≠ .headers := by rw [ht]; decide
  have hnext : (s.phase.next (.frameBegin header)).block = s.phase.block := if_neg hne
  have hblock : s.phase.block = none := by
    obtain ⟨-, -, -, hmay⟩ := ha
    unfold Phase.MayBegin at hmay
    split at hmay
    · assumption
    · rw [ht] at hmay
      exact absurd hmay.1 (by decide)
  have hc : Calm reportSide s (s.deliver (.frameBegin header)) :=
    (calm_note_received reportSide s _).trans (calm_onFrameBegin_other hne fun _ _ => htakes)
  refine ⟨h.ordered.calm hc, ?_, fun hf hactive => ?_, fun _ header' hh _ => ?_⟩
  · rw [hphase, hnext, hblock]
    exact fun _ _ hn => absurd rfl hn
  · have hinactive := h.stays_inactive hw ha hne hblock hf
    exact absurd (hinactive.symm.trans hactive) (by decide)
  · rw [hphase] at hh
    cases hh
    exact (htakes.fits h.ordered).calm hc

theorem orderly_frameBegin (hw : s.WellFormed) (ha : s.Allows (.deliver (.frameBegin header)))
    (h : s.Orderly) (hok : s.GrammarCondition (.deliver (.frameBegin header))) :
    (s.deliver (.frameBegin header)).Orderly := by
  by_cases hh : header.type = .headers
  · exact orderly_frameBegin_headers hw ha h hh (hok.1 hh)
  by_cases hd : header.type = .data
  · exact orderly_frameBegin_data hw ha h hd (hok.2 hd)
  refine orderly_of_calm_deliver hw ha h (calm_onFrameBegin_other hh fun hc => absurd hc hd)
    (if_neg hh) ?_
  rintro header' ⟨⟩
  refine ⟨hd, fun hne => ?_⟩
  obtain ⟨-, -, -, hmay⟩ := ha
  unfold Phase.MayBegin at hmay
  split at hmay
  · next hnone => exact absurd hnone hne
  · exact .inr (.inr hmay.1)

/-- A part of a body. -/
theorem orderly_data (hw : s.WellFormed) (ha : s.Allows (.deliver (.data id data endStream)))
    (h : s.Orderly) (hok : s.GrammarCondition (.deliver (.data id data endStream))) :
    (s.deliver (.data id data endStream)).Orderly := by
  have hphase : (s.deliver (.data id data endStream)).phase = s.phase := phase_deliver hw ha
  have hallows := ha
  obtain ⟨header, hframe, ht, rfl, -⟩ := hallows
  have hblock := h.block_none hframe (by simp only [FrameHeader.carriesBlock, ht]; decide)
  have hc := calm_note_received reportSide s (.data header.streamID data endStream)
  obtain ⟨ho, hp⟩ := ordered_onData endStream (h.ordered.calm hc)
    (fun hf => (h.data hf header hframe ht).calm hc) hok
  refine ⟨ho, ?_, fun hf hactive => ?_, fun hf header' hh _ => ?_⟩
  · rw [hphase, hblock]
    exact fun _ _ hn => absurd rfl hn
  · have hinactive := h.stays_inactive hw ha (fun hc => hc) hblock hf
    exact absurd (hinactive.symm.trans hactive) (by decide)
  · rw [hphase, hframe] at hh
    cases hh
    exact hp hf

theorem orderly_pushPromise {promised : ℕ} (hw : s.WellFormed)
    (ha : s.Allows (.deliver (.pushPromise id promised))) (h : s.Orderly) (hroom : s.HasRoom) :
    (s.deliver (.pushPromise id promised)).Orderly := by
  have hphase := phase_deliver hw ha
  obtain ⟨header, hframe, ht, -⟩ := ha
  obtain ⟨ho, hb⟩ := ordered_onPushPromise id promised
    (h.ordered.calm (calm_note_received reportSide s (.pushPromise id promised)))
    (idSpace_note_received hw.ids _) hroom
  refine ⟨ho, ?_, fun hf hactive => ?_, fun _ header' hh ht' => ?_⟩
  · rw [hphase]
    intro header' hh _
    cases hframe.symm.trans hh
    exact .inr (.inl ht)
  · obtain ⟨hcur, hp⟩ := hb hf hactive
    refine ⟨?_, hp⟩
    rw [hphase]
    exact congrArg some hcur.symm
  · rw [hphase] at hh
    cases hframe.symm.trans hh
    rw [ht] at ht'
    exact absurd ht' (by decide)

theorem orderly_headerBlockEnd (hw : s.WellFormed)
    (ha : s.Allows (.deliver (.headerBlockEnd id endStream))) (h : s.Orderly) :
    (s.deliver (.headerBlockEnd id endStream)).Orderly := by
  have hphase := phase_deliver hw ha
  obtain ⟨header, hframe, hcarries, -, hblock⟩ := ha
  have hc := calm_note_received reportSide s (.headerBlockEnd id endStream)
  obtain ⟨ho, hinactive⟩ := ordered_onHeaderBlockEnd id endStream
    (h.ordered.calm hc) (idSpace_note_received hw.ids _) fun hf hactive => by
      obtain ⟨hcur, p, hp⟩ := h.block hf hactive
      exact ⟨Option.some.inj (hcur.symm.trans hblock), p, hp.calm hc⟩
  refine orderly_outside header ho ?_ ?_ ?_ hinactive
  · rw [hphase]
    exact hframe
  · rcases hcarries with ht | ht | ht <;> rw [ht] <;> decide
  · rw [hphase]
    rfl

theorem orderly_frameComplete (hw : s.WellFormed) (ha : s.Allows (.deliver (.frameComplete header)))
    (h : s.Orderly) :
    (s.deliver (.frameComplete header)).Orderly := by
  have hphase := phase_deliver hw ha
  have hframe : s.phase.frame = some header := ha
  have hc := calm_note_received reportSide s (.frameComplete header)
  by_cases ht : header.type = .data
  · have ho := ordered_onFrameComplete (h.ordered.calm hc) ht
      fun hf => (h.data hf header hframe ht).calm hc
    have hblock := h.block_none hframe (by simp only [FrameHeader.carriesBlock, ht]; decide)
    refine ⟨ho, ?_, fun hf hactive => ?_, fun _ header' hh _ => ?_⟩
    · rw [hphase]
      rintro _ ⟨⟩
    · have hinactive := h.stays_inactive hw ha (fun hc => hc) hblock hf
      exact absurd (hinactive.symm.trans hactive) (by decide)
    · rw [hphase] at hh
      cases hh
  · exact orderly_of_calm_deliver hw ha h (calm_onFrameComplete_other ht) rfl fun _ hb => by cases hb

/-- **Every action that meets the condition keeps the events in order.** -/
theorem orderly_act (hw : s.WellFormed) (hb : Bounded s.endpoint) (ha : s.Allows a) (h : s.Orderly)
    (hok : s.GrammarCondition a) : (s.act a).Orderly := by
  cases a with
  | call call =>
    exact orderly_of_calm_act hw ha (by simp) h
      (calm_call reportSide_ignoresSends (fun _ _ _ _ => rfl) hw.ids hb)
  | preface => exact orderly_of_calm_act hw ha (by simp) h (.of_eq rfl rfl rfl)
  | parsed parser => exact orderly_of_calm_act hw ha (by simp) h (.of_eq rfl rfl rfl)
  | fail code reason => exact orderly_of_calm_act hw ha (by simp) h (calm_connectionError s _ _)
  | deliver call =>
    have hcalm (hc : Calm reportSide (s.note (.received call)) (s.deliver call))
        (hnext : s.phase.next call = s.phase) (hne : ∀ header, call ≠ .frameBegin header) :
        (s.deliver call).Orderly :=
      orderly_of_calm_deliver hw ha h hc (by rw [hnext]) fun header hb => absurd hb (hne header)
    have hids := idSpace_note_received hw.ids call
    have hnote := h.ordered.calm (calm_note_received reportSide s call)
    cases call with
    | frameBegin header => exact orderly_frameBegin hw ha h hok
    | data id data endStream => exact orderly_data hw ha h hok
    | headerBlock id fragment => exact hcalm (walks_onHeaderBlock le_rfl _ _ _).calm rfl (by simp)
    | headerBlockEnd id endStream => exact orderly_headerBlockEnd hw ha h
    | priority id priority => exact hcalm (walks_onPriority _ _ _ : Walks _ 8 _ _ _).calm rfl (by simp)
    | rstStream id code =>
      have hallows := ha
      obtain ⟨header, hframe, ht, -⟩ := hallows
      refine orderly_of_control hw ha h hframe (.inl ht) rfl (fun hc => hc) ?_
      refine ordered_onRSTStream hnote hids ?_
      rwa [show reportsOn _ (s.note _).history = _ from reportsOn_received ..]
    | setting setting => exact hcalm (.of_eq rfl rfl rfl) rfl (by simp)
    | settingsEnd ack => exact hcalm (walks_onSettingsEnd le_rfl _ _).calm rfl (by simp)
    | pushPromise id promised => exact orderly_pushPromise hw ha h hok
    | ping data ack => exact hcalm (walks_onPing le_rfl _ _ _).calm rfl (by simp)
    | goAway last code =>
      have hallows := ha
      obtain ⟨header, hframe, ht, -⟩ := hallows
      exact orderly_of_control hw ha h hframe (.inr (.inl ht)) rfl (fun hc => hc)
        (ordered_onGoAway hnote hids)
    | goAwayDebug debug => exact hcalm (.refl _) rfl (by simp)
    | windowUpdate id increment =>
      have hallows := ha
      obtain ⟨header, hframe, ht, -⟩ := hallows
      exact orderly_of_control hw ha h hframe (.inr (.inr ht)) rfl (fun hc => hc)
        (ordered_onWindowUpdate hnote hids)
    | unknown header fragment => exact hcalm (walks_onUnknown le_rfl _ _ _).calm rfl (by simp)
    | frameComplete header => exact orderly_frameComplete hw ha h

theorem orderly_newSession {role : Role} {limits : SessionLimits}
    (h : newSession X role limits = .ok s) : s.Orderly := by
  obtain ⟨output, header, payload, -, rfl⟩ := newSession_ok h
  refine ⟨fun id => ⟨.start, rfl, fun st hst => ?_, fun hne => absurd rfl hne⟩, ?_, ?_, ?_⟩
  · exact absurd hst (by simp [stream?, init])
  · exact fun _ hh => absurd hh (by simp [phase, receivedCalls])
  · exact fun _ ha => absurd ha (by simp [init, HeaderDecoder.new])
  · exact fun _ _ hh => absurd hh (by simp [phase, receivedCalls])

/-- **The events of a stream.** In every run whose actions meet `GrammarCondition`, the reports that
the owner takes about a stream keep to the grammar: a promise, informational sections, the final
section, data, a trailing section and the end, in this order, possibly cut short by one reset. -/
theorem yielded_in_grammar {role : Role} {limits : SessionLimits} {s₀ : Session X} {ops : List Op}
    (hnew : newSession X role limits = .ok s₀) (hok : Meets GrammarCondition s₀ ops) (id : ℕ) :
    ((reportsOf id (s₀.yielded ops)).foldlM Progress.next .start).isSome = true := by
  have hrun : (s₀.run ops).Orderly := (run_invariant
    (I := fun s => Bounded s.endpoint ∧ s.Orderly) hnew
    ⟨(steady_newSession hnew).bounded, orderly_newSession hnew⟩
    (fun _ _ hw ha h hok => ⟨bounded_act hw ha h.1, orderly_act hw h.1 ha h.2 hok⟩) hok).2
  obtain ⟨p, hp⟩ := hrun.ordered id
  have hsteady := steady_newSession hnew
  obtain ⟨output, header, payload, -, rfl⟩ := newSession_ok hnew
  obtain ⟨rest, hrest⟩ := yielded_prefix ops hsteady fun _ => rfl
  have hprogress := hp.progress
  rw [progressOn, reportsOn_eq, show queuedEvents _ = _ from hrest.symm, reportsOf,
    filter_append, foldlM_append] at hprogress
  obtain ⟨q, hq, -⟩ := Option.bind_eq_some_iff.1 hprogress
  rw [reportsOf, hq]
  rfl

/-- The owner takes `n` events. -/
def takeEvents (n : ℕ) : List Op := replicate n (.call .nextEvent)

/-- A server receives a request with a body of two octets. -/
theorem yielded_in_grammar_server :
    ∃ s₀, newSession externals .server {} = .ok s₀ ∧
      let events := s₀.yielded (.feed (clientStart ++ postFrame 1 ++
        frameBytes .data .endStream 1 [0, 0]) :: takeEvents 4)
      (reportsOf 1 events).map (·.type) = [.headers, .data, .streamEnd] ∧
        ((reportsOf 1 events).foldlM Progress.next .start).isSome = true := by
  obtain ⟨s₀, hnew, hok, hevents⟩ := exists_newSession (X := externals) (r := .server)
    (l := {}) (p := fun s₀ =>
      let ops := .feed (clientStart ++ postFrame 1 ++
        frameBytes .data .endStream 1 [0, 0]) :: takeEvents 4
      Meets GrammarCondition s₀ ops ∧
        (reportsOf 1 (s₀.yielded ops)).map (·.type) = [.headers, .data, .streamEnd])
    (by decide +kernel)
  exact ⟨s₀, hnew, hevents, yielded_in_grammar hnew hok 1⟩

/-- A DATA frame for a request that has ended is answered with a reset, and its octets are reported
after the reset. -/
theorem yielded_data_after_reset :
    ∃ s₀, newSession externals .server {} = .ok s₀ ∧
      let events := s₀.yielded (.feed (clientStart ++ getFrame 1 ++
        frameBytes .data 0 1 [0, 0]) :: takeEvents 5)
      (reportsOf 1 events).map (·.type) = [.headers, .streamEnd, .streamReset, .data] ∧
        (reportsOf 1 events).foldlM Progress.next .start = none :=
  exists_newSession (by decide +kernel)

end Session

end WagoHttp.Http2
