import WagoHttp.Http2.Session.Framing
import WagoHttp.Http2.Session.Messages
import WagoHttp.Http2.Session.PeerSettings

/-!
# Idle and used identifiers

A stream identifier is used once a HEADERS frame or a promise that was sent or received has named
it, and so are the smaller identifiers of the same initiator. A session keeps no record of the
identifiers that have left its table, and compares what it does not find with the highest stream
that the peer has opened. `Classified` says that this tells idle identifiers from used ones, and
that no HEADERS frame creates a stream again. `NamesListed` says when it is so.
-/

namespace WagoHttp.Http2

open SmallHpack List

/-- The identifier that an entry uses. An identifier that `OpenStream` takes and fails to send is
not used. -/
def Obs.used : Obs → Option ℕ
  | .sent header payload =>
    if header.type = .headers then some header.streamID
    else if header.type = .pushPromise then some (beNat (payload.take 4))
    else none
  | .received (.frameBegin header) => if header.type = .headers then some header.streamID else none
  | .received (.pushPromise _ promised) => some promised
  | _ => none

/-- The identifiers that a history uses. -/
def usedIds (history : List Obs) : List ℕ := history.filterMap Obs.used

/-- Neither the identifier nor a higher one of the same initiator has been used. -/
def Idle (history : List Obs) (id : ℕ) : Prop := ∀ id' ∈ usedIds history, id' % 2 = id % 2 → id' < id

instance (history : List Obs) (id : ℕ) : Decidable (Idle history id) := decidableBAll _ _

/-- The frame resets a stream or raises its window. -/
def FrameHeader.namesStream (header : FrameHeader) : Prop :=
  (header.type = .rstStream ∨ header.type = .windowUpdate) ∧ header.streamID ≠ 0

instance (header : FrameHeader) : Decidable header.namesStream :=
  inferInstanceAs (Decidable (_ ∧ _))

theorem FrameHeader.namesStream.types {header : FrameHeader} (hn : header.namesStream) :
    header.type ≠ .headers ∧ header.type ≠ .data ∧ header.type ≠ .priorityUpdate := by
  rcases hn.1 with ht | ht <;> rw [ht] <;> decide

/-- The entry resets the stream. -/
def Obs.resets (id : ℕ) : Obs → Bool
  | .sent header _ => header.type = .rstStream && header.streamID = id
  | .received (.rstStream id' _) => id' = id
  | _ => false

/-- The stream has been opened, refused or reset. -/
def Touched (history : List Obs) (id : ℕ) : Prop :=
  id ∈ usedIds history ∨ history.any (Obs.resets id) = true

instance (history : List Obs) (id : ℕ) : Decidable (Touched history id) :=
  inferInstanceAs (Decidable (_ ∨ _))

variable {history : List Obs} {role : Role}

theorem mem_usedIds {id : ℕ} :
    id ∈ usedIds history ↔ ∃ o ∈ history, o.used = some id := mem_filterMap

theorem initiates_congr {id id' : ℕ} (h : id' % 2 = id % 2) :
    role.initiates id' ↔ role.initiates id := by
  cases role <;> simp [Role.initiates, h]

theorem mod_eq_of_initiates {id id' : ℕ} (h : ¬role.initiates id) (h' : ¬role.initiates id') :
    id' % 2 = id % 2 := by
  cases role <;> simp only [Role.initiates] at h h' <;> omega

namespace Session

open Endpoint

variable {X : Externals} {s s' : Session X} {a : Action} {id : ℕ}

/-- **Idle identifiers are told from used ones.** RST_STREAM and WINDOW_UPDATE fail the session
exactly on idle streams, nothing else in their frames fails it, and a HEADERS frame creates no
stream that has been opened, refused or reset. -/
structure Classified (s : Session X) (a : Action) : Prop where
  frame : ∀ header : FrameHeader, header.namesStream → s.failed = none →
    a = .deliver (.frameBegin header) ∨ a = .deliver (.frameComplete header) ∨
      (∃ code reason, a = .fail code reason) ∧ s.phase.frame = some header →
    (s.act a).failed = none
  rst : ∀ id code, a = .deliver (.rstStream id code) → id ≠ 0 → s.failed = none →
    ((s.act a).failed ≠ none ↔ Idle s.history id)
  window : ∀ id n, a = .deliver (.windowUpdate id n) → id ≠ 0 → s.failed = none →
    ((s.act a).failed ≠ none ↔ Idle s.history id)
  headers : ∀ header : FrameHeader, a = .deliver (.frameBegin header) → header.type = .headers →
    Touched s.history header.streamID → s.stream? header.streamID = none →
      (s.act a).stream? header.streamID = none

/-- The identifier is one of the peer, or one of this endpoint whose place in the table and among
those of the peer tells whether it is used. -/
def Telling (s : Session X) (id : ℕ) : Prop :=
  ¬s.role.initiates id ∨ s.nextLocalStream ≤ id ∧ s.lastPeerStream < id ∨
    id ∈ usedIds s.history ∧ ((s.stream? id).isSome ∨ id ≤ s.lastPeerStream)

instance (s : Session X) (id : ℕ) : Decidable (s.Telling id) := inferInstanceAs (Decidable (_ ∨ _))

/-- No stream is refused, and DATA begins on no idle stream of the peer. RST_STREAM and
WINDOW_UPDATE name identifiers that tell whether they are used. They come after the SETTINGS of the
peer and within the quota of control frames, and the parser finds no error in them. -/
def NamesListed (s : Session X) : Action → Prop
  | .deliver (.frameBegin header) =>
    (header.type = .headers → (s.stream? header.streamID).isSome ∨ s.HasRoom ∨
      s.peerMayOpen header.streamID = false) ∧
    (header.type = .data → (s.stream? header.streamID).isSome ∨
      s.role.initiates header.streamID ∨ header.streamID ≤ s.lastPeerStream) ∧
    (header.namesStream → s.peerInitialSettings = true)
  | .deliver (.frameComplete header) =>
    header.namesStream → s.controlFrames < s.limits.maxControlFrames.toNat
  | .fail _ _ => ∀ header ∈ s.phase.frame, ¬header.namesStream
  | .deliver (.pushPromise _ _) => s.HasRoom
  | .deliver (.rstStream id _) => s.Telling id
  | .deliver (.windowUpdate id _) => id = 0 ∨ s.Telling id
  | _ => True

instance : DecidableRel (NamesListed (X := X)) := fun s a => by
  induction a using Action.casesOn with
  | deliver call =>
    induction call using Callback.casesOn <;> (dsimp only [NamesListed]; infer_instance)
  | fail => dsimp only [NamesListed]; infer_instance
  | _ => exact .isTrue trivial

/-! ## The streams that an action can reset -/

/-- The side that sees the frames that reset other streams. -/
def targetSide (id : ℕ) : Side where
  same st st' := st.state = .closed → st'.state = .closed
  fresh _ := True
  shows
    | .sent header _ => header.type = .rstStream && header.streamID != id
    | _ => false
  reads := false
  refl _ h := h
  trans := closed_trans
  closed h := h
  fresh_of_same _ _ := trivial
  fresh_new _ _ _ _ := trivial
  windows _ _ _ h := h
  state := closed_of_narrows
  shows_sent _ h := by simp [h]
  shows_queued _ := rfl

theorem targetSide_ignoresReset : (targetSide id).IgnoresReset id := by
  intro header payload _ hid
  simp [targetSide, hid]

theorem targetSide_ignoresReceives : (targetSide id).IgnoresReceives id where
  frame := targetSide_ignoresReset
  queued _ := rfl
  body _ _ h := h
  receives _ _ _ h := h
  method _ _ h := h
  reads := rfl

theorem targetSide_ignoresSends : (targetSide id).IgnoresSends where
  sent _ _ h := by simp [targetSide, h]
  body _ _ _ h := h
  sends st m h hc := by
    rw [hc] at h
    cases h
  promised _ _ _ _ _ := trivial

/-- The stream that an action can reset. -/
def actTarget (s : Session X) : Action → ℕ
  | .deliver call => s.target call
  | .call call => s.callTarget call
  | _ => 0

theorem calm_target (hw : s.WellFormed) (hb : Bounded s.endpoint) (a : Action) :
    Calm (targetSide (s.actTarget a)) s (s.act a) := by
  cases a with
  | call call => exact calm_call targetSide_ignoresSends targetSide_ignoresReset hw.ids hb
  | deliver call => exact (walks_deliver le_rfl targetSide_ignoresReceives hw.ids).calm
  | preface => exact .of_eq rfl rfl rfl
  | parsed parser => exact .of_eq rfl rfl rfl
  | fail code reason => exact calm_connectionError s _ _

variable {new : List Obs} {header : FrameHeader}

/-- **An action resets at most one stream.** -/
theorem target_of_reset {payload : Bytes} (hw : s.WellFormed) (hb : Bounded s.endpoint)
    (hnew : (s.act a).history = s.history ++ new) (hm : .sent header payload ∈ new)
    (ht : header.type = .rstStream) :
    header.streamID = s.actTarget a := by
  have := (calm_target hw hb a).not_shown hnew _ hm
  simpa [targetSide, ht] using this

/-! ## Frames that name streams -/

theorem opened_stream (hids : s.endpoint.IdSpace) (h : (s.stream? id).isSome) :
    .opened id ∈ s.history := by
  obtain ⟨st, hst⟩ := Option.isSome_iff_exists.1 h
  exact (hids.opened id st hst).1

theorem opened_beginInboundHeaders {endStream : Bool} {t : Session X} {err : Option SessionError}
    (hst : s.stream? id = none) (hroom : s.HasRoom ∨ s.peerMayOpen id = false)
    (hb : s.beginInboundHeaders id endStream = (t, err)) :
    .opened id ∈ t.history ∨ ∃ code reason, err = some (.protocol 0 code reason) := by
  have hbegins := begins_beginInboundHeaders s id endStream
  rw [hb] at hbegins
  generalize hr : ((t, err) : Session X × Option SessionError) = r at hbegins
  cases hbegins with
  | fails code reason =>
    cases hr
    exact .inr ⟨code, reason, rfl⟩
  | refused _ _ hopen hfull =>
    rcases hroom with hroom | hclosed
    · exact absurd hroom hfull
    · exact absurd (hopen.symm.trans hclosed) (by decide)
  | rejected _ _ hst' => cases hst.symm.trans hst'
  | known hst' => cases hst.symm.trans hst'
  | opens =>
    left
    have hopen : .opened id ∈ ((s.openPeer id).startSection id
        (s.freshStream .open false) endStream).history := by
      unfold startSection
      simp only
      split <;> simp [openPeer, addStream, note, setStream]
    obtain ⟨e, he⟩ | ⟨decoder, -, hd⟩ := beginDecoderBlock_cases
      ((s.openPeer id).startSection id (s.freshStream .open false) endStream)
    · rw [he] at hr
      cases hr
      exact hopen
    · rw [hd] at hr
      cases hr
      exact mem_append_left _ hopen

/-- A HEADERS frame that is neither refused nor an error names a stream that has been opened. -/
theorem opened_onFrameBegin (hids : s.endpoint.IdSpace) (ht : header.type = .headers)
    (hroom : (s.stream? header.streamID).isSome ∨ s.HasRoom ∨
      s.peerMayOpen header.streamID = false) (hf : (s.onFrameBegin header).failed = none) :
    .opened header.streamID ∈ (s.onFrameBegin header).history := by
  by_cases hst : (s.stream? header.streamID).isSome
  · have hc : Calm (blindSide false) s (s.onFrameBegin header) :=
      (walks_onFrameBegin le_rfl rfl blindSide_ignoresEvents.resets hids).calm
    exact hc.history.subset (opened_stream hids hst)
  obtain ⟨t, err, hb, heq⟩ := (onFrameBegin_ok hf).2.1 ht
  have hbegin := opened_beginInboundHeaders (s := { s with currentFrame := header })
    (show s.stream? header.streamID = none by simpa using hst) (hroom.resolve_left hst) hb
  rw [heq] at hf ⊢
  cases err with
  | none => exact hbegin.resolve_right nofun
  | some err =>
    rcases hbegin with ho | ⟨code, reason, herr⟩
    · have hc : Calm (blindSide false) t (t.handleProtocolError err) :=
        (walks_handleProtocolError le_rfl blindSide_ignoresEvents.resets t
          (concerns_beginInboundHeaders hb)).calm
      exact hc.history.subset ho
    · cases herr
      exact absurd hf (failed_connectionError _ _ _)

/-- A promise that is neither refused nor an error names a stream that has been opened. -/
theorem opened_onPushPromise {promised : ℕ} (hroom : s.HasRoom)
    (hf : (s.onPushPromise id promised).failed = none) :
    .opened promised ∈ (s.onPushPromise id promised).history := by
  obtain ⟨-, -, -, -, ⟨hfull, -⟩ | ⟨-, decoder, -, heq⟩⟩ := onPushPromise_ok hf
  · exact absurd hroom hfull
  · rw [heq]
    simp [reserveRemote, addStream, note, setStream]

/-- A part of a message is sent on a stream that has been opened. -/
theorem Sending.opened {call : Call} (h : Sending s s' call)
    (hp : parts id (newEntries s s' (Action.call call).fields) ≠ []) : .opened id ∈ s'.history := by
  cases h with
  | nothing calm => exact absurd (calm.parts_newEntries ..) hp
  | part calm _ _ _ _ moves =>
    rw [newEntries_trans calm.history moves.history, parts_append, calm.parts_newEntries,
      nil_append, moves.parts] at hp
    split_ifs at hp with hid
    · exact hid ▸ moves.opened
    · exact absurd rfl hp

/-- A HEADERS frame or a promise that is sent names a stream that has been opened. -/
theorem opened_of_sent {payload : Bytes} (hw : s.WellFormed) (hb : Bounded s.endpoint)
    (ha : s.Allows a) (hnew : (s.act a).history = s.history ++ new)
    (hm : .sent header payload ∈ new) (hu : (Obs.sent header payload).used = some id) :
    .opened id ∈ (s.act a).history := by
  by_cases hs : a.sendsBlock
  · cases a with
    | call call =>
      refine (sending_call call hw.ids hb).opened fun hnil => ?_
      rw [newEntries_eq (show (s.call call).history = _ from hnew), parts,
        filterMap_eq_nil_iff] at hnil
      have hpart := hnil _ (mem_map_of_mem hm)
      simp only [Entry.part, sentPart] at hpart
      simp only [Obs.used] at hu
      split_ifs at hu with ht ht' <;> obtain rfl := Option.some.inj hu
      · simp [ht] at hpart
      · rw [if_neg ht, if_neg (by rw [ht']; decide), if_pos ht', if_pos rfl] at hpart
        cases hpart
    | _ => cases hs
  · obtain ⟨new', hnew', hblock⟩ := emits_of_reaches (p := fun _ => False) hs (hw.reaches ha)
    obtain rfl : new' = new := append_cancel_left (hnew'.symm.trans hnew)
    refine (hblock header payload hm ?_).elim
    simp only [Obs.used] at hu
    split_ifs at hu with ht ht
    · exact .inl ht
    · exact .inr (.inl ht)

/-! ## The marks -/

/-- The highest stream of the peer is used. -/
theorem top_act (hw : s.WellFormed) (ha : s.Allows a)
    (h : s.lastPeerStream = 0 ∨ s.lastPeerStream ∈ usedIds s.history ∧
      ¬s.role.initiates s.lastPeerStream) :
    (s.act a).lastPeerStream = 0 ∨ (s.act a).lastPeerStream ∈ usedIds (s.act a).history ∧
      ¬(s.act a).role.initiates (s.act a).lastPeerStream := by
  have hused : ∀ id, a.opensPeer id → id ∈ usedIds (s.act a).history := by
    have hmem : ∀ call, a = .deliver call → .received call ∈ (s.act a).history := by
      rintro call rfl
      have hcall : call ∈ receivedCalls (s.deliver call).history := by
        simp [receivedCalls_deliver hw ha]
      obtain ⟨o, ho, heq⟩ := mem_filterMap.1 hcall
      cases o <;> cases heq
      exact ho
    rintro id (⟨header, hd, ht, rfl⟩ | ⟨parent, hd⟩)
    · exact mem_usedIds.2 ⟨_, hmem _ hd, if_pos ht⟩
    · exact mem_usedIds.2 ⟨_, hmem _ hd, rfl⟩
  have hhist := (hw.reaches ha).history
  refine (hw.reaches ha).invariant (I := fun e => e.lastPeer = 0 ∨
    e.lastPeer ∈ usedIds (s.act a).history ∧ ¬e.role.initiates e.lastPeer) (fun hs he => ?_)
    (h.imp_right fun hu => ⟨(hhist.sublist.filterMap _).subset hu.1, hu.2⟩)
  cases hs with
  | openPeer ha _ hr => exact .inr ⟨hused _ ha, hr⟩
  | _ => exact he

/-- What the session keeps tells which identifiers have been used. -/
structure Marked (s : Session X) : Prop where
  top : s.lastPeerStream = 0 ∨ s.lastPeerStream ∈ usedIds s.history ∧
    ¬s.role.initiates s.lastPeerStream
  peer : s.failed = none → ∀ id, Touched s.history id → ¬s.role.initiates id →
    id ≤ s.lastPeerStream
  own : s.failed = none → ∀ id ∈ usedIds s.history, s.role.initiates id → .opened id ∈ s.history

/-- A new entry that uses an identifier. -/
theorem opened_of_used {o : Obs} (hw : s.WellFormed) (hb : Bounded s.endpoint) (ha : s.Allows a)
    (hok : s.NamesListed a) (hf : (s.act a).failed = none)
    (hnew : (s.act a).history = s.history ++ new) (ho : o ∈ new) (hu : o.used = some id) :
    .opened id ∈ (s.act a).history := by
  cases o with
  | sent header payload => exact opened_of_sent hw hb ha hnew ho hu
  | received call =>
    have hd : a = .deliver call := received_new hw ha hnew ho
    subst hd
    have hids : (s.note (.received call)).endpoint.IdSpace := hw.ids.note (by simp)
    cases call with
    | frameBegin header =>
      simp only [Obs.used] at hu
      split_ifs at hu with ht
      cases hu
      exact opened_onFrameBegin hids ht (hok.1 ht) hf
    | pushPromise parent promised =>
      cases hu
      exact opened_onPushPromise hok hf
    | _ => cases hu
  | _ => cases hu

/-- A stream that is reset is one of this endpoint, or it is not above those of the peer. -/
theorem le_of_resets {o : Obs} (hw : s.WellFormed) (hb : Bounded s.endpoint) (ha : s.Allows a)
    (hok : s.NamesListed a) (hf : (s.act a).failed = none)
    (hnew : (s.act a).history = s.history ++ new) (ho : o ∈ new) (hr : o.resets id = true)
    (hi : ¬s.role.initiates id) : id ≤ (s.act a).lastPeerStream := by
  have hle := (opened_new hw ha).1
  have hopened : .opened id ∈ (s.act a).history → id ≤ (s.act a).lastPeerStream := fun h =>
    (hw.act ha).ids.peer_le id h (show ¬(s.act a).role.initiates id by rwa [role_act hw ha])
  have hlisted : ∀ id', s.listed id' = id → id ≤ (s.act a).lastPeerStream := by
    intro id' hid
    unfold listed at hid
    split_ifs at hid with hst
    · subst hid
      refine hopened ((hw.reaches ha).history.subset (opened_stream hw.ids hst))
    · omega
  cases o with
  | sent header payload =>
    simp only [Obs.resets, Bool.and_eq_true, decide_eq_true_eq] at hr
    obtain ⟨ht, rfl⟩ := hr
    have htarget := target_of_reset hw hb hnew ho ht
    cases a with
    | call call =>
      cases call with
      | resetStream id code => exact hlisted id htarget.symm
      | _ => exact htarget ▸ Nat.zero_le _
    | deliver call =>
      have hids : (s.note (.received call)).endpoint.IdSpace := hw.ids.note (by simp)
      cases call with
      | frameBegin header' =>
        change header.streamID = if _ then _ else _ at htarget
        split_ifs at htarget with htype
        · rw [htarget] at hi hopened ⊢
          rcases htype with htype | htype
          · exact hopened (opened_onFrameBegin hids htype (hok.1 htype) hf)
          · rcases hok.2.1 htype with hst | hi' | hle'
            · exact hopened ((hw.reaches ha).history.subset (opened_stream hw.ids hst))
            · exact absurd hi' hi
            · exact hle'.trans hle
        · exact htarget ▸ Nat.zero_le _
      | data id data endStream => exact hlisted id htarget.symm
      | headerBlockEnd id endStream => exact hlisted _ htarget.symm
      | pushPromise parent promised =>
        change header.streamID = promised at htarget
        rw [htarget] at hopened ⊢
        exact hopened (opened_onPushPromise hok hf)
      | windowUpdate id n => exact hlisted id htarget.symm
      | frameComplete header' => exact hlisted _ htarget.symm
      | _ => exact htarget ▸ Nat.zero_le _
    | _ => exact htarget ▸ Nat.zero_le _
  | received call =>
    have hd : a = .deliver call := received_new hw ha hnew ho
    subst hd
    cases call with
    | rstStream id' code =>
      obtain rfl : id' = id := of_decide_eq_true hr
      by_contra hlt
      refine absurd hf ?_
      have hnone : (s.note (.received (.rstStream id' code))).stream? id' = none := by
        by_contra hne
        refine hlt (hopened ((hw.reaches ha).history.subset (opened_stream hw.ids ?_)))
        exact Option.isSome_iff_ne_none.2 hne
      change ((s.note (.received (.rstStream id' code))).onRSTStream id' code).failed ≠ none
      unfold onRSTStream
      rw [hnone]
      simp only
      rw [if_pos (show id' > (s.note _).lastPeerStream from
        lt_of_le_of_lt hle (not_le.1 hlt))]
      exact failed_connectionError _ _ _
    | _ => cases hr
  | _ => cases hr

theorem Marked.act (hw : s.WellFormed) (hb : Bounded s.endpoint) (ha : s.Allows a)
    (hok : s.NamesListed a) (h : s.Marked) : (s.act a).Marked := by
  have hle := (opened_new hw ha).1
  have hrole := role_act hw ha
  obtain ⟨new, hnew⟩ := (hw.reaches ha).history
  have hnew : (s.act a).history = s.history ++ new := hnew.symm
  refine ⟨top_act hw ha h.top, fun hf id ht hi => ?_, fun hf id hu hi => ?_⟩
  · have hf₀ := failed_of_act hw ha hf
    rw [hrole] at hi
    unfold Touched usedIds at ht
    rw [hnew, filterMap_append, mem_append, any_append, Bool.or_eq_true] at ht
    have hold (ht : Touched s.history id) := (h.peer hf₀ id ht hi).trans hle
    rcases ht with (ht | ht) | (ht | ht)
    · exact hold (.inl ht)
    · obtain ⟨o, ho, hu⟩ := mem_filterMap.1 ht
      exact (hw.act ha).ids.peer_le id (opened_of_used hw hb ha hok hf hnew ho hu)
        (show ¬(s.act a).role.initiates id by rwa [hrole])
    · exact hold (.inr ht)
    · obtain ⟨o, ho, hr⟩ := any_eq_true.1 ht
      exact le_of_resets hw hb ha hok hf hnew ho hr hi
  · have hf₀ := failed_of_act hw ha hf
    rw [hrole] at hi
    unfold usedIds at hu
    rw [hnew, filterMap_append, mem_append] at hu
    rcases hu with hu | hu
    · rw [hnew]
      exact mem_append_left _ (h.own hf₀ id hu hi)
    · obtain ⟨o, ho, hu⟩ := mem_filterMap.1 hu
      exact opened_of_used hw hb ha hok hf hnew ho hu

/-! ## Telling idle identifiers from used ones -/

theorem idle_iff_of_peer (h : s.Marked) (hf : s.failed = none) (hz : id ≠ 0)
    (hi : ¬s.role.initiates id) : Idle s.history id ↔ s.lastPeerStream < id := by
  constructor
  · intro hidle
    rcases h.top with h0 | ⟨hu, hi'⟩
    · omega
    · exact hidle _ hu (mod_eq_of_initiates hi hi')
  · intro hlt id' hu hmod
    exact (h.peer hf id' (.inl hu) (mt (initiates_congr hmod).1 hi)).trans_lt hlt

theorem idle_of_nextLocal_le (h : s.Marked) (hw : s.WellFormed) (hf : s.failed = none)
    (hi : s.role.initiates id) (hle : s.nextLocalStream ≤ id) : Idle s.history id := by
  intro id' hu hmod
  have hi' := (initiates_congr hmod).2 hi
  exact (hw.ids.local_lt id' (h.own hf id' hu hi') hi').trans_le hle

/-- An identifier is idle if it is not in the table and above those of the peer. -/
theorem idle_iff (h : s.Marked) (hw : s.WellFormed) (hf : s.failed = none) (hz : id ≠ 0)
    (ht : s.Telling id) :
    Idle s.history id ↔ s.stream? id = none ∧ s.lastPeerStream < id := by
  have hnone : .opened id ∉ s.history → s.stream? id = none := fun hn =>
    Option.not_isSome_iff_eq_none.1 (mt (opened_stream hw.ids) hn)
  by_cases hi : s.role.initiates id
  · rcases ht with hi' | ⟨hle, hlt⟩ | ⟨hu, hknown⟩
    · exact absurd hi hi'
    · refine iff_of_true (idle_of_nextLocal_le h hw hf hi hle) ⟨hnone fun ho => ?_, hlt⟩
      exact absurd (hw.ids.local_lt id ho hi) (not_lt.2 hle)
    · refine iff_of_false (fun hidle => lt_irrefl id (hidle id hu rfl)) fun hn => ?_
      rcases hknown with hst | hle
      · simp [hn.1] at hst
      · exact absurd hn.2 (not_lt.2 hle)
  · rw [idle_iff_of_peer h hf hz hi]
    exact ⟨fun hlt => ⟨hnone fun ho => absurd (hw.ids.peer_le id ho hi) (not_le.2 hlt), hlt⟩,
      And.right⟩

theorem failed_onRSTStream {code : ErrorCode} (hf : s.failed = none) :
    (s.onRSTStream id code).failed ≠ none ↔ s.stream? id = none ∧ s.lastPeerStream < id := by
  unfold onRSTStream
  split
  · next hst =>
    split
    · next hlt => exact ⟨fun _ => ⟨hst, hlt⟩, fun _ => failed_connectionError _ _ _⟩
    · next hlt => exact ⟨fun h => absurd hf h, fun h => absurd h.2 hlt⟩
  · next st hst =>
    rw [failed_offerEvent, (closeStream_frame s id).2.1]
    exact ⟨fun h => absurd hf h, fun h => by simp [hst] at h⟩

theorem failed_onWindowUpdate {n : ℕ} (hf : s.failed = none) (hz : id ≠ 0) :
    (s.onWindowUpdate id n).failed ≠ none ↔ s.stream? id = none ∧ s.lastPeerStream < id := by
  unfold onWindowUpdate
  rw [if_neg (by simp [hf]), if_neg hz]
  split
  · next hst =>
    split
    · next hlt => exact ⟨fun _ => ⟨hst, hlt⟩, fun _ => failed_connectionError _ _ _⟩
    · next hlt => exact ⟨fun h => absurd hf h, fun h => absurd h.2 hlt⟩
  · next st hst =>
    have hsome : ¬(s.stream? id = none ∧ s.lastPeerStream < id) := by simp [hst]
    refine ⟨fun h => absurd ?_ h, fun h => absurd h hsome⟩
    split_ifs
    · exact hf
    · exact (failed_streamError s id _).trans hf
    · exact (failed_offerEvent _ _).trans hf

/-- A HEADERS frame creates no stream that the peer may not open. -/
theorem stream_onFrameBegin (ht : header.type = .headers) (hst : s.stream? header.streamID = none)
    (hopen : s.failed = none → s.peerMayOpen header.streamID = false) :
    (s.onFrameBegin header).stream? header.streamID = none := by
  unfold onFrameBegin
  split
  · exact hst
  next hf =>
  simp only
  split
  · rw [stream?, streams_connectionError]
    exact hst
  have hopen := hopen (not_not.1 hf)
  have hbegins := begins_beginInboundHeaders { s with currentFrame := header } header.streamID
    (header.flags.has .endStream)
  generalize beginInboundHeaders { s with currentFrame := header } header.streamID
    (header.flags.has .endStream) = r at hbegins
  cases hbegins with
  | fails code reason =>
    change (connectionError { s with currentFrame := header } code reason).stream? _ = none
    rw [stream?, streams_connectionError]
    exact hst
  | refused _ _ hmay => exact absurd (hmay.symm.trans hopen) (by decide)
  | rejected _ _ hst' => cases hst.symm.trans hst'
  | known hst' => cases hst.symm.trans hst'
  | opens _ hmay => exact absurd (hmay.symm.trans hopen) (by decide)

theorem failed_frameBegin_names (hn : header.namesStream) (hf : s.failed = none)
    (hp : s.peerInitialSettings = true) : (s.onFrameBegin header).failed = none := by
  simp [onFrameBegin, hf, hp, hn.types]

theorem failed_frameComplete_names (hn : header.namesStream) (hf : s.failed = none)
    (hq : s.controlFrames < s.limits.maxControlFrames.toNat) :
    (s.onFrameComplete header).failed = none := by
  have hle : (s.countFrame header).controlFrames ≤ s.limits.maxControlFrames.toNat := by
    unfold countFrame
    simp only
    split_ifs
    · exact (Nat.mod_le _ _).trans hq
    · exact Nat.zero_le _
  unfold onFrameComplete
  rw [if_neg (not_not.2 hf)]
  simp only
  rw [if_neg (by simp [show (s.countFrame header).limits = s.limits from rfl, hle])]
  simp [countFrame, hf, hn.types]

/-- What a session does with the frames that name a stream. -/
theorem classified_act (hw : s.WellFormed) (h : s.Marked) (hok : s.NamesListed a) :
    Classified s a := by
  refine ⟨?_, ?_, ?_, ?_⟩
  · rintro header hn hf (rfl | rfl | ⟨⟨code, reason, rfl⟩, hframe⟩)
    · exact failed_frameBegin_names hn hf (hok.2.2 hn)
    · exact failed_frameComplete_names hn hf (hok hn)
    · exact absurd hn (hok header hframe)
  · rintro id code rfl hz hf
    rw [show s.act (.deliver (.rstStream id code)) =
      (s.note (.received (.rstStream id code))).onRSTStream id code from rfl,
      failed_onRSTStream (show (s.note _).failed = none from hf)]
    exact (idle_iff h hw hf hz hok).symm
  · rintro id n rfl hz hf
    rw [show s.act (.deliver (.windowUpdate id n)) =
      (s.note (.received (.windowUpdate id n))).onWindowUpdate id n from rfl,
      failed_onWindowUpdate (show (s.note _).failed = none from hf) hz]
    exact (idle_iff h hw hf hz (hok.resolve_left hz)).symm
  · rintro header rfl ht htouched hst
    refine stream_onFrameBegin ht hst fun hf => ?_
    by_contra hopen
    obtain ⟨hlt, hi⟩ := peerMayOpen_spec (by simpa using hopen)
    exact absurd (h.peer hf _ htouched hi) (not_le.2 hlt)

theorem marked_newSession {role : Role} {limits : SessionLimits}
    (h : newSession X role limits = .ok s) : s.Marked := by
  obtain ⟨output, header, payload, ht, rfl⟩ := newSession_ok h
  have hne : header.type ≠ .rstStream := by
    rw [ht]
    decide
  have hnil : usedIds [.sent header payload] = [] := by
    simp only [usedIds, filterMap_cons, Obs.used, ht]
    rfl
  refine ⟨.inl rfl, fun _ id htouched => ?_, fun _ id hu => ?_⟩
  · exact absurd htouched (by simp [Touched, hnil, Obs.resets, hne])
  · exact absurd hu (by simp [hnil])

end Session

end WagoHttp.Http2
