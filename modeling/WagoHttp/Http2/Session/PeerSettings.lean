import WagoHttp.Http2.Session.Journal

/-!
# The settings of the peer

What a session may open and send depends on what its peer has announced: how many streams it
accepts, whether it accepts pushed streams, and whether it accepts the extended CONNECT method.
`peerSettings` reads the announcements off the callbacks of a history, and `HonoursPeer` says that
an action keeps to them. A session looks at its own setting, not at the peer's, before it sends a
request with `:protocol`; `ConnectCondition` leaves this to the owner.
-/

namespace WagoHttp.Http2

open Table Runs Endpoint List

/-! ## Announcements -/

def Announced.apply (x : Announced) (setting : Setting) : Announced :=
  if setting.id = .enablePush then { x with enablePush := setting.value ≠ 0 }
  else if setting.id = .maxConcurrentStreams then { x with maxConcurrent := setting.value.toNat }
  else if setting.id = .enableConnectProtocol then { x with enableConnect := setting.value ≠ 0 }
  else x

/-- The announcements in force, and the settings of a frame that has not ended. -/
structure Announcements where
  inForce : Announced := {}
  pending : List Setting := []

/-- The settings of a frame come into force together, at its end. -/
def Announcements.next (x : Announcements) : Callback → Announcements
  | .setting setting => { x with pending := x.pending ++ [setting] }
  | .settingsEnd false => { inForce := x.pending.foldl Announced.apply x.inForce }
  | _ => x

/-- What the peer has announced so far. -/
def peerSettings (history : List Obs) : Announced :=
  ((receivedCalls history).foldl Announcements.next {}).inForce

/-- The section has the pseudo-field of the extended CONNECT method. -/
def namesProtocol (fields : List HeaderField) : Prop :=
  ∃ field ∈ fields, field.name = ascii ":protocol"

instance (fields : List HeaderField) : Decidable (namesProtocol fields) :=
  inferInstanceAs (Decidable (∃ field ∈ fields, _))

namespace Session

variable {X : Externals} {s s' : Session X} {a : Action}

/-- An action keeps to what the peer has announced: it opens or promises a stream only below the
bound of the peer, it sends PUSH_PROMISE only if the peer accepts pushed streams, and a client sends
a request with `:protocol` only if the peer accepts the extended CONNECT method. -/
structure HonoursPeer (s : Session X) (a : Action) : Prop where
  opens : ∀ headers endStream id, a = .call (.openStream headers endStream) →
    (s.openStream headers endStream).2 = .ok id →
    countIf (Stream.isActive true) s.streams < (peerSettings s.history).maxConcurrent
  promises : ∀ parent headers id, a = .call (.pushPromise parent headers) →
    (s.pushPromise parent headers).2 = .ok id →
    countIf (Stream.isActive true) s.streams < (peerSettings s.history).maxConcurrent
  pushes : ∀ entry ∈ s.entries a, ∀ header payload, entry.obs = .sent header payload →
    header.type = .pushPromise → (peerSettings s.history).enablePush = true
  connects : ∀ entry ∈ s.entries a, ∀ header payload, entry.obs = .sent header payload →
    header.type = .headers → s.role = .client → namesProtocol entry.fields →
    (peerSettings s.history).enableConnect = true

/-- **When a client keeps to the peer's extended CONNECT setting**: a section with `:protocol` is
sent once the peer has announced the setting, or the client has turned the method off for itself and
the field is not empty, so that the section is refused. -/
def ConnectCondition (s : Session X) (a : Action) : Prop :=
  s.role = .client → namesProtocol a.fields →
    s.peerEnableConnect = true ∨ s.limits.enableExtendedConnect = false ∧
      ∀ field ∈ a.fields, field.name = ascii ":protocol" → field.value ≠ []

instance (s : Session X) (a : Action) : Decidable (s.ConnectCondition a) :=
  inferInstanceAs (Decidable (_ → _ → _))

/-! ## What is recorded of the peer -/

/-- Unless the session has failed, it records what the peer has announced. -/
def Informed (s : Session X) : Prop :=
  s.failed = none → (receivedCalls s.history).foldl Announcements.next {} =
    { inForce := s.endpoint.announced, pending := s.pendingSettings }

theorem Informed.peerSettings (h : s.Informed) (hf : s.failed = none) :
    peerSettings s.history = s.endpoint.announced := by
  rw [Http2.peerSettings, h hf]

variable {e₀ e e' : Endpoint X} {headers : List HeaderField} {endStream : Bool}

theorem announced_step (hne : ¬a.appliesSettings) (hs : Endpoint.Step a e₀ e e') :
    e'.announced = e.announced := by
  cases hs with
  | announce ha => exact absurd ha hne
  | _ => rfl

theorem pending_of_step (hne : ¬a.appliesSettings)
    (hset : ∀ setting, a ≠ .deliver (.setting setting)) (hs : Endpoint.Step a e₀ e e') :
    e'.pending = e.pending := by
  cases hs with
  | clear ha => exact absurd ha hne
  | pend ha => exact absurd ha (hset _)
  | _ => rfl

/-- A change that is possible at any time leaves the record of the peer alone. -/
theorem record_of_reaches (h : Reaches .preface s.endpoint s s') :
    s'.endpoint.announced = s.endpoint.announced ∧ s'.pendingSettings = s.pendingSettings :=
  ⟨h.invariant (I := fun e => e.announced = s.endpoint.announced)
      (fun hs hI => (announced_step (by simp [Action.appliesSettings]) hs).trans hI) rfl,
    h.invariant (I := fun e => e.pending = s.pendingSettings)
      (fun hs hI => (pending_of_step (by simp [Action.appliesSettings]) (by simp) hs).trans hI) rfl⟩

theorem announced_adjustSendWindows {change : ℤ} (ids : List ℕ) (s : Session X) :
    (s.adjustSendWindows change ids).1.endpoint.announced = s.endpoint.announced := by
  induction ids generalizing s with
  | nil => rfl
  | cons id ids ih =>
    unfold adjustSendWindows
    split
    · exact ih s
    · split_ifs
      · exact ih s
      · rfl
      · exact ih _

theorem announced_applyInitialWindow (s : Session X) (value : ℕ) :
    (s.applyInitialWindow value).1.endpoint.announced = s.endpoint.announced := by
  unfold applyInitialWindow
  simp only
  generalize hw : adjustSendWindows _ _ s.rangeStreams.2 = w
  have h : w.1.endpoint.announced = s.endpoint.announced := by
    rw [← hw]
    exact announced_adjustSendWindows _ _
  obtain ⟨t, _ | _⟩ := w
  · exact h
  · exact h

/-- A setting that is accepted comes into force. -/
theorem announced_applyPeerSetting {setting : Setting} {t : Session X}
    (h : s.applyPeerSetting setting = (t, none)) :
    t.endpoint.announced = s.endpoint.announced.apply setting := by
  have hwindow : (s.applyInitialWindow setting.value.toNat).1.endpoint.announced = _ :=
    announced_applyInitialWindow s setting.value.toNat
  have hother : ∀ id : SettingID, setting.id = id → id ≠ .enablePush →
      id ≠ .maxConcurrentStreams → id ≠ .enableConnectProtocol →
        s.endpoint.announced.apply setting = s.endpoint.announced := by
    rintro id rfl h1 h2 h3
    simp [Announced.apply, h1, h2, h3]
  unfold applyPeerSetting at h
  split_ifs at h with htable hpush hrole hmax hinitial hframe hconnect hpriorities hchanged
  · cases h
    exact (hother _ htable (by decide) (by decide) (by decide)).symm
  · cases h
  · cases h
    simp [endpoint, Announced.apply, hpush]
  · cases h
    simp [endpoint, Announced.apply, hmax,
      show SettingID.maxConcurrentStreams ≠ .enablePush by decide]
  · rw [h] at hwindow
    exact hwindow.trans (hother _ hinitial (by decide) (by decide) (by decide)).symm
  · cases h
    exact (hother _ hframe (by decide) (by decide) (by decide)).symm
  · cases h
    simp [endpoint, Announced.apply, hconnect,
      show SettingID.enableConnectProtocol ≠ .enablePush by decide,
      show SettingID.enableConnectProtocol ≠ .maxConcurrentStreams by decide]
  · cases h
  · cases h
    exact (hother _ hpriorities (by decide) (by decide) (by decide)).symm
  · cases h
    exact (hother _ rfl hpush hmax hconnect).symm

theorem announced_applyPeerSettings {settings : List Setting} {s t : Session X}
    (h : s.applyPeerSettings settings = (t, none)) :
    t.endpoint.announced = settings.foldl Announced.apply s.endpoint.announced := by
  induction settings generalizing s with
  | nil =>
    cases h
    rfl
  | cons setting settings ih =>
    unfold applyPeerSettings at h
    split at h
    · cases h
    next u hu => rw [ih h, announced_applyPeerSetting hu, foldl_cons]

/-- The settings of a frame come into force at its end. -/
theorem record_onSettingsEnd (hv : ∀ x ∈ s.pendingSettings, validSetting x = true)
    (hf : s.failed = none) (h : (s.onSettingsEnd false).failed = none) :
    (s.onSettingsEnd false).endpoint.announced =
        s.pendingSettings.foldl Announced.apply s.endpoint.announced ∧
      (s.onSettingsEnd false).pendingSettings = [] := by
  have happlied : Applied (.deliver (.settingsEnd false)) s.endpoint s
      (applyPeerSettings s.pendingSettings s) := applied_applyPeerSettings trivial hv
  unfold onSettingsEnd at h ⊢
  rw [if_neg (not_not.2 hf)] at h ⊢
  simp only [Bool.false_eq_true, if_false] at h ⊢
  generalize hr : applyPeerSettings s.pendingSettings s = r at h happlied ⊢
  obtain ⟨t, _ | err⟩ := r
  · have hforce := announced_applyPeerSettings hr
    have hack : (appendSettings { t with pendingSettings := [], peerInitialSettings := true } []
        true).1.endpoint.announced = t.endpoint.announced ∧ _ :=
      record_of_reaches (s := { t with pendingSettings := [], peerInitialSettings := true })
        reaches_appendSettings
    simp only at h ⊢
    generalize appendSettings { t with pendingSettings := [], peerInitialSettings := true } [] true
      = w at h hack ⊢
    obtain ⟨u, _ | err⟩ := w
    · have hoffer : (u.offerEvent { type := .settings, settings := t.pendingSettings }
          ).endpoint.announced = u.endpoint.announced ∧ _ :=
        record_of_reaches (reaches_offerEvent (by simp [Event.isMessage]))
      exact ⟨(hoffer.1.trans hack.1).trans hforce, hoffer.2.trans hack.2⟩
    · exact absurd h (failed_connectionError u _ _)
  · obtain ⟨-, code, reason, rfl⟩ := happlied
    simp only [handleProtocolError, if_true] at h
    exact absurd h (failed_connectionError t _ _)

/-- An acknowledgement changes nothing. -/
theorem record_onSettingsAck (s : Session X) :
    (s.onSettingsEnd true).endpoint.announced = s.endpoint.announced ∧
      (s.onSettingsEnd true).pendingSettings = s.pendingSettings := by
  unfold onSettingsEnd
  split
  · exact ⟨rfl, rfl⟩
  simp only [if_true]
  split
  · exact record_of_reaches (reaches_connectionError ⟨rfl, rfl⟩)
  · exact record_of_reaches
      (s := { s with localSettingsOutstanding := s.localSettingsOutstanding - 1 })
      (reaches_offerEvent (by simp [Event.isMessage]))

theorem informed_newSession {role : Role} {limits : SessionLimits}
    (h : newSession X role limits = .ok s) : s.Informed := by
  obtain ⟨output, header, payload, -, rfl⟩ := newSession_ok h
  exact fun _ => rfl

theorem informed_act (hw : s.WellFormed) (ha : s.Allows a) (h : s.Informed) :
    (s.act a).Informed := by
  intro hf
  have hf₀ := failed_of_act hw ha hf
  have hreach := hw.reaches ha
  have hsame (hne : ¬a.appliesSettings) (hset : ∀ setting, a ≠ .deliver (.setting setting)) :
      ({ inForce := s.endpoint.announced, pending := s.pendingSettings } : Announcements) =
        { inForce := (s.act a).endpoint.announced, pending := (s.act a).pendingSettings } := by
    rw [show (s.act a).endpoint.announced = s.endpoint.announced from
        hreach.invariant (I := fun e => e.announced = s.endpoint.announced)
          (fun hs hI => (announced_step hne hs).trans hI) rfl,
      show (s.act a).pendingSettings = s.pendingSettings from
        hreach.invariant (I := fun e => e.pending = s.pendingSettings)
          (fun hs hI => (pending_of_step hne hset hs).trans hI) rfl]
  by_cases hd : ∃ call, a = .deliver call
  · obtain ⟨call, rfl⟩ := hd
    change (receivedCalls (s.deliver call).history).foldl _ _ = _
    rw [receivedCalls_deliver hw ha, foldl_append, h hf₀, foldl_cons, foldl_nil]
    cases call with
    | setting setting => rfl
    | settingsEnd ack =>
      cases ack with
      | false =>
        obtain ⟨hforce, hpending⟩ := record_onSettingsEnd
          (s := s.note (.received (.settingsEnd false))) hw.pending hf₀ hf
        exact congrArg₂ Announcements.mk hforce.symm hpending.symm
      | true =>
        obtain ⟨hforce, hpending⟩ := record_onSettingsAck (s.note (.received (.settingsEnd true)))
        exact congrArg₂ Announcements.mk hforce.symm hpending.symm
    | _ => exact hsame (fun h => h) (by simp)
  · have hcalls : receivedCalls (s.act a).history = receivedCalls s.history :=
      Steps.received hreach (.inl fun call hc => hd ⟨call, hc⟩)
    rw [hcalls, h hf₀]
    refine hsame (fun hs => ?_) fun setting hc => hd ⟨_, hc⟩
    cases a with
    | deliver call => exact hd ⟨call, rfl⟩
    | _ => exact hs

/-! ## Header blocks -/

/-- The frames of header blocks that are sent between two states. -/
def Emits (p : FrameHeader → Prop) (s s' : Session X) : Prop :=
  ∃ new, s'.history = s.history ++ new ∧
    ∀ header payload, .sent header payload ∈ new → header.carriesBlock → p header

section Emits

variable {s'' : Session X} {p q : FrameHeader → Prop}

theorem Emits.of_history (h : s'.history = s.history) : Emits p s s' :=
  ⟨[], h.trans (append_nil _).symm, nofun⟩

theorem Emits.trans (h : Emits p s s') (h' : Emits p s' s'') : Emits p s s'' := by
  obtain ⟨new, hh, hn⟩ := h
  obtain ⟨new', hh', hn'⟩ := h'
  refine ⟨new ++ new', by rw [hh', hh, append_assoc], fun header payload hm => ?_⟩
  exact (mem_append.1 hm).elim (hn header payload) (hn' header payload)

/-- An action that sends no header block. -/
theorem emits_of_reaches {e₀ : Endpoint X} (ha : ¬a.sendsBlock) (h : Reaches a e₀ s s') :
    Emits p s s' := by
  have key : s.history <+: s'.history ∧
      s'.history.filterMap Obs.fragment = s.history.filterMap Obs.fragment :=
    h.invariant (I := fun e => s.history <+: e.history ∧
        e.history.filterMap Obs.fragment = s.history.filterMap Obs.fragment)
      (fun hs hI => ⟨hI.1.trans hs.history, (fragments_step ha hs).trans hI.2⟩)
      ⟨prefix_rfl, rfl⟩
  obtain ⟨⟨new, hnew⟩, hfragments⟩ := key
  rw [← hnew, filterMap_append, append_right_eq_self, filterMap_eq_nil_iff]
    at hfragments
  refine ⟨new, hnew.symm, fun header payload hm hb => ?_⟩
  have hnone := hfragments _ hm
  simp only [Obs.fragment] at hnone
  rcases hb with hb | hb | hb
  · simp [hb] at hnone
  · rw [hb, if_neg (by decide), if_pos rfl] at hnone
    cases hnone
  · simp [hb] at hnone

variable {frameType : FrameType} {streamID promisedID : ℕ} {endStream : Bool}

/-- The frames of a block are of the type of its first frame, or CONTINUATION frames. -/
theorem type_blockFrames {max : ℕ} (fuel : ℕ) (first : Bool) (block : Bytes) :
    ∀ frame ∈ blockFrames frameType streamID promisedID
      endStream max fuel first block, frame.1.type = frameType ∨ frame.1.type = .continuation := by
  intro frame hframe
  obtain ⟨_ | _, last, fragment, -, -, rfl⟩ := mem_blockFrames hframe
  · exact .inr rfl
  · exact .inl rfl

theorem emits_sentSection {headers : List HeaderField}
    (hp : ∀ header, header.type = frameType ∨ header.type = .continuation → p header) :
    Emits p s (s.sentSection frameType streamID promisedID headers endStream) := by
  refine ⟨_, rfl, fun header payload hm _ => hp header ?_⟩
  obtain ⟨frame, hframe, heq⟩ := mem_map.1 hm
  cases heq
  exact type_blockFrames _ _ _ frame hframe

end Emits

/-- What a session has checked of its peer when it sends a frame of a header block. -/
structure Permitted (s : Session X) (a : Action) (header : FrameHeader) : Prop where
  failed : s.failed = none
  push : header.type = .pushPromise → s.peerEnablePush = true
  connect : header.type = .headers → s.role = .client → namesProtocol a.fields →
    s.peerEnableConnect = true

theorem failed_of_ready (h : s.ready = none) : s.failed = none := by
  unfold ready at h
  split at h
  · cases h
  · exact h

/-- A section that is sent has passed the checks. -/
theorem emits_sendHeaders {p : FrameHeader → Prop} {id : ℕ} (headers : List HeaderField)
    (endStream : Bool) (hmax : s.FrameRange)
    (hids : ∀ st, s.stream? id = some st → id < 2 ^ 31 ∧ id ≠ 0)
    (hp : ∀ header trailer, s.ready = none → header.type ≠ .pushPromise →
      validateHeaderSection s.role true trailer headers s.limits.enableExtendedConnect = true →
        p header) : Emits p s (s.sendHeaders id headers endStream).1 := by
  obtain ⟨encoder, block, err, h, -⟩ | ⟨hready, -, st, hcheck, h⟩ :=
    sendHeaders_cases headers endStream hmax hids
  · rw [h]
    exact .of_history rfl
  rw [h]
  have hset : Emits p s ((s.sentSection .headers id 0 headers endStream).setStream id
      (Stream.sendSection st (inspectHeaderSection headers))) :=
    emits_sentSection fun header hh => hp header _ hready
      (fun ht => absurd (ht ▸ hh) (by decide)) (validate_of_checkSendHeaders hcheck)
  cases endStream with
  | false => exact hset
  | true => exact hset.trans (.of_history (history_localEnd _ _))

theorem permitted_of_valid {trailer : Bool} {header : FrameHeader} (hfields : a.fields = headers)
    (hok : s.ConnectCondition a) (hready : s.ready = none) (ht : header.type ≠ .pushPromise)
    (hvalid : validateHeaderSection s.role true trailer headers
      s.limits.enableExtendedConnect = true) : s.Permitted a header := by
  refine ⟨failed_of_ready hready, fun hp => absurd hp ht, fun _ hrole hnames => ?_⟩
  rcases hok hrole hnames with hpeer | ⟨hoff, hvalue⟩
  · exact hpeer
  · obtain ⟨field, hf, hn⟩ := hnames
    rw [hrole, hoff, ← hfields] at hvalid
    exact absurd (protocol_of_valid hvalid hf hn) (hvalue field hf hn)

theorem emits_openStream (hmax : s.FrameRange)
    (hok : s.ConnectCondition (.call (.openStream headers endStream))) :
    Emits (s.Permitted (.call (.openStream headers endStream))) s
      (s.openStream headers endStream).1 := by
  unfold openStream
  split_ifs with _ _ hnext
  all_goals try exact .of_history rfl
  have hadd : Emits (s.Permitted (.call (.openStream headers endStream))) s s.addLocal := by
    refine ⟨[.opened s.nextLocalStream], rfl, fun header payload hm => ?_⟩
    cases mem_singleton.1 hm
  have h : Emits (s.Permitted (.call (.openStream headers endStream))) s.addLocal _ :=
    emits_sendHeaders headers endStream hmax
      (fun _ _ => ⟨lt_of_not_exhausted hnext, fun hz => hnext (.inl hz)⟩)
      fun _ _ => permitted_of_valid rfl hok
  simp only
  generalize s.addLocal.sendHeaders s.nextLocalStream headers endStream = w at h
  obtain ⟨t, _ | err⟩ := w
  · exact hadd.trans h
  · exact hadd.trans h

theorem emits_pushPromise {parent : ℕ} (headers : List HeaderField) (hmax : s.FrameRange)
    (hids : ∀ st, s.stream? parent = some st → parent < 2 ^ 31 ∧ parent ≠ 0) :
    Emits (s.Permitted (.call (.pushPromise parent headers))) s (s.pushPromise parent headers).1 ∧
      ∀ id, (s.pushPromise parent headers).2 = .ok id →
        s.ready = none ∧ s.activeLocal < s.peerMaxConcurrent := by
  unfold pushPromise
  split_ifs with hpush hparent _ hroom
  all_goals try exact ⟨.of_history rfl, nofun⟩
  simp only [Bool.or_eq_true, Bool.not_eq_true', not_or, Bool.not_eq_false,
    decide_eq_true_eq, not_not] at hpush
  obtain ⟨st, hst, -⟩ := Option.any_eq_true .. |>.1 (by simpa using hparent)
  obtain ⟨hid, hz⟩ := hids st hst
  obtain ⟨encoder, block, err, h, -⟩ | ⟨hready, -, h⟩ := encodeAndAppendHeaders_cases
    (s := { s with nextLocalStream := s.nextLocalStream + 2 }) s.nextLocalStream headers false
    (.inr rfl) hmax hid hz
  · simp only [h]
    exact ⟨.of_history rfl, nofun⟩
  simp only [h]
  have hsent : Emits (s.Permitted (.call (.pushPromise parent headers))) s (sentSection
      { s with nextLocalStream := s.nextLocalStream + 2 } .pushPromise parent s.nextLocalStream
        headers false) :=
    emits_sentSection fun header hh => ⟨failed_of_ready hready, fun _ => hpush.2,
      fun ht => absurd (ht ▸ hh) (by decide)⟩
  refine ⟨hsent.trans ⟨[.opened s.nextLocalStream], rfl, fun header payload hm => ?_⟩,
    fun _ _ => ⟨hready, Nat.lt_of_not_le hroom⟩⟩
  cases mem_singleton.1 hm

/-- **What is sent has been checked against the peer's settings.** -/
theorem emits_act (hw : s.WellFormed) (hb : Bounded s.endpoint) (ha : s.Allows a)
    (hok : s.ConnectCondition a) : Emits (s.Permitted a) s (s.act a) := by
  by_cases hs : a.sendsBlock
  · cases a with
    | call call =>
      cases call with
      | openStream headers endStream => exact emits_openStream hb.maxFrame hok
      | pushPromise parent headers =>
        exact (emits_pushPromise headers hb.maxFrame fun _ => hb.id_of_stream hw.ids).1
      | sendHeaders id headers endStream =>
        exact emits_sendHeaders headers endStream hb.maxFrame (fun _ => hb.id_of_stream hw.ids)
          fun _ _ => permitted_of_valid rfl hok
      | _ => exact hs.elim
    | _ => exact hs.elim
  · exact emits_of_reaches hs (hw.reaches ha)

/-! ## Opening streams -/

/-- A stream that is opened has been checked against the peer's bound. -/
theorem room_of_openStream {id : ℕ} (h : (s.openStream headers endStream).2 = .ok id) :
    s.ready = none ∧ s.activeLocal < s.peerMaxConcurrent := by
  unfold openStream at h
  split_ifs at h with h1 h2 h3 h4 h5
  refine ⟨?_, Nat.lt_of_not_le h4⟩
  by_contra hready
  obtain ⟨err, herr⟩ := Option.ne_none_iff_exists'.1 hready
  have hcheck : s.addLocal.checkSendHeaders s.nextLocalStream headers endStream = .error err := by
    unfold checkSendHeaders
    rw [show s.addLocal.ready = some err from herr]
  simp only [sendHeaders, hcheck] at h
  cases h

/-! ## The peer's settings -/

/-- What an action has to know of a session: it records what the peer has announced, and its books
are in order. -/
structure PeerRecord (s : Session X) : Prop where
  informed : s.Informed
  books : s.closed = false → s.registry.Balanced

theorem PeerRecord.room (h : s.PeerRecord) (hready : s.ready = none)
    (hlt : s.activeLocal < s.peerMaxConcurrent) :
    countIf (Stream.isActive true) s.streams < (peerSettings s.history).maxConcurrent := by
  obtain ⟨-, hclosed⟩ := ready_iff.1 hready
  have hcount : s.activeLocal = countIf (Stream.isActive true) s.streams :=
    (h.books hclosed).activeLocal
  rw [h.informed.peerSettings (failed_of_ready hready), ← hcount]
  exact hlt

theorem honoursPeer_act (hw : s.WellFormed) (hb : Bounded s.endpoint) (ha : s.Allows a)
    (h : s.PeerRecord) (hok : s.ConnectCondition a) : s.HonoursPeer a := by
  have hsent : ∀ entry ∈ s.entries a, entry.fields = a.fields ∧ ∀ header payload,
      entry.obs = .sent header payload → header.carriesBlock → s.Permitted a header := by
    obtain ⟨new, hh, hn⟩ := emits_act hw hb ha hok
    intro entry hentry
    rw [entries, newEntries_eq hh] at hentry
    obtain ⟨o, ho, rfl⟩ := mem_map.1 hentry
    exact ⟨rfl, fun header payload hobs => hn header payload (hobs ▸ ho)⟩
  refine ⟨?_, ?_, ?_, ?_⟩
  · rintro headers endStream id rfl hres
    exact h.room (room_of_openStream hres).1 (room_of_openStream hres).2
  · rintro parent headers id rfl hres
    have hroom := (emits_pushPromise headers hb.maxFrame
      fun _ => hb.id_of_stream hw.ids).2 id hres
    exact h.room hroom.1 hroom.2
  · intro entry hentry header payload hobs ht
    have hp := (hsent entry hentry).2 header payload hobs (.inr (.inl ht))
    rw [h.informed.peerSettings hp.failed]
    exact hp.push ht
  · intro entry hentry header payload hobs ht hrole hnames
    have hp := (hsent entry hentry).2 header payload hobs (.inl ht)
    rw [h.informed.peerSettings hp.failed]
    exact hp.connect ht hrole ((hsent entry hentry).1 ▸ hnames)

/-- **A session keeps to the settings of its peer**, in every run in which a client leaves extended
CONNECT requests alone until the peer has announced that it accepts them. -/
theorem honoursPeer_run {role : Role} {limits : SessionLimits} {s₀ : Session X} {ops : List Op}
    (hnew : newSession X role limits = .ok s₀) (hok : Meets ConnectCondition s₀ ops) :
    Meets HonoursPeer s₀ ops :=
  run_meets (I := fun s => Bounded s.endpoint ∧ s.PeerRecord) hnew
    ⟨(steady_newSession hnew).bounded, informed_newSession hnew,
      fun _ => balanced_newSession hnew⟩
    (fun _ _ hw ha h _ => ⟨bounded_act hw ha h.1, informed_act hw ha h.2.informed,
      balanced_act hw ha h.1 h.2.books⟩)
    (fun _ _ hw ha h hok => honoursPeer_act hw h.1 ha h.2 hok) hok

/-- An extended CONNECT request. -/
def connectRequest : List HeaderField :=
  [{ name := ascii ":method", value := ascii "CONNECT" },
    { name := ascii ":protocol", value := ascii "websocket" },
    { name := ascii ":scheme", value := ascii "http" },
    { name := ascii ":path", value := ascii "/" },
    { name := ascii ":authority", value := ascii "a" }]

/-- The server announces that it accepts the extended CONNECT method. -/
def announceConnect : Op :=
  .feed (frameBytes .settings 0 0 (settingBytes { id := .enableConnectProtocol, value := 1 }))

/-- A client that opens a tunnel after the announcement of the server. -/
theorem honoursPeer_announced :
    ∃ s, newSession SmallHpack.externals .client { enableExtendedConnect := true } = .ok s ∧
      (peerSettings (s.run [announceConnect]).history).enableConnect = true ∧
        ((s.run [announceConnect, .call (.openStream connectRequest false)]).stream? 1).isSome ∧
          Meets HonoursPeer s [announceConnect, .call (.openStream connectRequest false)] := by
  obtain ⟨s, hnew, hpeer, hopen, hok⟩ := exists_newSession (X := SmallHpack.externals)
    (r := .client) (l := { enableExtendedConnect := true }) (p := fun s =>
      (peerSettings (s.run [announceConnect]).history).enableConnect = true ∧
        ((s.run [announceConnect, .call (.openStream connectRequest false)]).stream? 1).isSome ∧
          Meets ConnectCondition s [announceConnect, .call (.openStream connectRequest false)])
    (by decide +kernel)
  exact ⟨s, hnew, hpeer, hopen, honoursPeer_run hnew hok⟩

/-- The type of the frame, if the entry is one that is sent. -/
def Obs.sentType : Obs → Option FrameType
  | .sent header _ => some header.type
  | _ => none

/-- The server has announced nothing, and the client sends an extended CONNECT request. -/
theorem connect_unannounced :
    ∃ s, newSession SmallHpack.externals .client { enableExtendedConnect := true } = .ok s ∧
      (peerSettings s.history).enableConnect = false ∧
        ¬Meets HonoursPeer s [.call (.openStream connectRequest false)] := by
  obtain ⟨s, hnew, hrole, hpeer, entry, hentry, htype, hnames⟩ := exists_newSession
    (X := SmallHpack.externals) (r := .client) (l := { enableExtendedConnect := true })
    (p := fun s => s.role = .client ∧ (peerSettings s.history).enableConnect = false ∧
      ∃ entry ∈ s.entries (.call (.openStream connectRequest false)),
        Obs.sentType entry.obs = some .headers ∧ namesProtocol entry.fields) (by decide +kernel)
  refine ⟨s, hnew, hpeer, fun h => ?_⟩
  have hhonours : s.HonoursPeer (.call (.openStream connectRequest false)) := h.1.1
  obtain ⟨header, payload, hobs, ht⟩ : ∃ header payload, entry.obs = .sent header payload ∧
      header.type = .headers := by
    cases hobs : entry.obs with
    | sent header payload =>
      rw [hobs] at htype
      exact ⟨header, payload, rfl, Option.some.inj htype⟩
    | _ =>
      rw [hobs] at htype
      cases htype
  have hconnect := hhonours.connects entry hentry header payload hobs ht hrole hnames
  rw [hpeer] at hconnect
  cases hconnect

end Session

end WagoHttp.Http2
