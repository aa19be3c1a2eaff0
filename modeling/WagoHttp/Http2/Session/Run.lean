import WagoHttp.Http2.Session.Refine.Calls
import WagoHttp.Http2.SmallHpack

/-!
# Runs of a session

The rule for statements about every reachable state: what holds of a new session, and is kept by
every action that the frame parser allows and that meets a condition, holds after every run whose
actions meet the condition (`run_invariant`). The actions of a run keep to the grammar of the
callbacks (`Allows`), because the parser and the callbacks delivered so far stay in step (`Sound`).
-/

namespace WagoHttp.Http2.Session

open Endpoint Runs List

variable {X : Externals} {s s' : Session X} {a : Action}

/-! ## Well-formed sessions -/

/-- Where the callbacks delivered so far stand. -/
def phase (s : Session X) : Phase := (receivedCalls s.history).foldl Phase.next {}

/-- A callback is delivered only where the grammar of the parser has it. -/
def Allows (s : Session X) : Action → Prop
  | .deliver call => s.phase.Allows call
  | _ => True

/-- What every session has: its identifiers are in order, its pending settings are valid, and so
is the frame that is being received. -/
structure WellFormed (s : Session X) : Prop where
  ids : s.endpoint.IdSpace
  pending : ∀ x ∈ s.pendingSettings, validSetting x = true
  frame : ∀ header, s.phase.frame = some header →
    validateFrameHeader header = .none ∧ header.streamID < 2 ^ 31

theorem validSetting_of_allows {setting : Setting} (h : s.Allows (.deliver (.setting setting))) :
    validSetting setting = true := by
  obtain ⟨_, _, _, hv⟩ := h
  exact hv

theorem lt_of_opensPeer (ha : s.Allows a) {id : ℕ} (h : a.opensPeer id) : id < 2 ^ 31 := by
  rcases h with ⟨header, rfl, -, rfl⟩ | ⟨parent, rfl⟩
  · exact ha.2.2.1
  · obtain ⟨_, _, _, _, _, hlt, _⟩ := ha
    exact hlt

theorem WellFormed.reaches (h : s.WellFormed) (ha : s.Allows a) :
    Steps a s.endpoint s.endpoint (s.act a).endpoint := by
  refine reaches_act a h.ids h.pending fun setting hset => ?_
  subst hset
  exact validSetting_of_allows ha

variable {e₀ e e' : Endpoint X} {call : Callback} {header : FrameHeader} {src : Bytes}
  {u u' : LocalUpdate} {role : Role} {limits : SessionLimits} {ok ok' : Session X → Action → Prop}
  {ops : List Op} {I : Session X → Prop}

theorem pending_step (hs : Step a e₀ e e') (h : ∀ x ∈ e.pending, validSetting x = true) :
    ∀ x ∈ e'.pending, validSetting x = true := by
  cases hs with
  | pend _ hv =>
    intro x hx
    rcases mem_append.1 hx with hx | hx
    · exact h x hx
    · rw [mem_singleton.1 hx]
      exact hv
  | clear => simp
  | _ => exact h

/-! ## Failure -/

theorem failed_step (hs : Step a e₀ e e') (h : e.failed = true) : e'.failed = true := by
  cases hs <;> first | exact h | rfl

/-- A session that has failed stays so. -/
theorem failed_of_act (h : s.WellFormed) (ha : s.Allows a) (hf : (s.act a).failed = none) :
    s.failed = none := by
  by_contra hne
  have hsome : s.endpoint.failed = true := Option.isSome_iff_ne_none.2 hne
  have : (s.act a).failed.isSome = true := (h.reaches ha).invariant failed_step hsome
  simp [hf] at this

theorem failed_connectionError (s : Session X) (code : ErrorCode) (reason : String) :
    (s.connectionError code reason).failed ≠ none := by
  unfold connectionError
  split
  · next h => exact h
  · rw [(appendFrameEvenFailed_frame _ _ _).2.1]
    exact Option.some_ne_none _

/-- The beginning of a frame that does not fail the session. -/
theorem onFrameBegin_ok {header : FrameHeader} (hf : (s.onFrameBegin header).failed = none) :
    s.failed = none ∧ (header.type = .headers → ∃ t err,
        beginInboundHeaders { s with currentFrame := header } header.streamID
          (header.flags.has .endStream) = (t, err) ∧
        s.onFrameBegin header = err.elim t t.handleProtocolError) ∧
      (header.type = .data →
        s.onFrameBegin header = { s with currentFrame := header }.chargeData header) := by
  unfold onFrameBegin at hf ⊢
  split at hf
  · next h => exact absurd hf h
  next h =>
  simp only at hf
  split at hf
  · exact absurd hf (failed_connectionError _ _ _)
  next hp =>
  rw [if_neg h]
  simp only
  rw [if_neg hp]
  refine ⟨not_not.1 h, fun ht => ?_, fun ht => ?_⟩
  · rw [if_pos ht]
    rcases beginInboundHeaders _ _ _ with ⟨t, _ | err⟩
    · exact ⟨t, none, rfl, rfl⟩
    · exact ⟨t, some err, rfl, rfl⟩
  · rw [if_neg (by rw [ht]; decide), if_pos ht]

theorem beginDecoderBlock_cases (s : Session X) :
    (∃ err, s.beginDecoderBlock = (s, some (.header err))) ∨
      ∃ decoder : HeaderDecoder X, decoder.active = true ∧
        s.beginDecoderBlock = ({ s with decoder }.note (.decoder .beginBlock), none) := by
  unfold beginDecoderBlock HeaderDecoder.beginBlock
  split
  · exact .inl ⟨_, rfl⟩
  · next hd =>
    split_ifs at hd
    cases hd
    exact .inr ⟨_, rfl, rfl⟩

/-- There is room for one more stream of the peer. -/
def HasRoom (s : Session X) : Prop :=
  s.activePeer < s.limits.maxConcurrentStreams.toNat ∧ s.streamCount < s.limits.maxStreams.toNat

instance (s : Session X) : Decidable s.HasRoom := inferInstanceAs (Decidable (_ ∧ _))

/-- A PUSH_PROMISE frame that does not fail the session. -/
theorem onPushPromise_ok {id promised : ℕ} (hf : (s.onPushPromise id promised).failed = none) :
    s.failed = none ∧ s.role = .client ∧ promised % 2 = 0 ∧ s.lastPeerStream < promised ∧
      (¬s.HasRoom ∧ s.onPushPromise id promised = s.streamError promised .refusedStream ∨
        s.HasRoom ∧ ∃ decoder : HeaderDecoder X, decoder.active = true ∧ s.onPushPromise id promised =
          { s.reserveRemote id promised with decoder }.note (.decoder .beginBlock)) := by
  unfold onPushPromise at hf ⊢
  split at hf
  · next h => exact absurd hf h
  next h =>
  split at hf
  · exact absurd hf (failed_connectionError _ _ _)
  next hvalid =>
  rw [if_neg h, if_neg hvalid]
  simp only [Bool.or_eq_true, decide_eq_true_eq, not_or, not_le, ne_eq, not_not] at hvalid
  refine ⟨not_not.1 h, hvalid.1.1.1.1.1.1, by omega, by omega, ?_⟩
  unfold HasRoom
  split
  · next hfull => exact .inl ⟨by omega, rfl⟩
  next hfull =>
  rw [if_neg hfull] at hf
  obtain ⟨e, he⟩ | ⟨decoder, hactive, hd⟩ := beginDecoderBlock_cases (s.reserveRemote id promised)
  · rw [he] at hf
    exact absurd hf (failed_connectionError _ _ _)
  · rw [hd]
    exact .inr ⟨by omega, decoder, hactive, rfl⟩

/-! ## The phase of a session -/

/-- A change that is possible at any time records no callback. -/
theorem receivedCalls_of_reaches (h : Reaches .preface s.endpoint s s') :
    receivedCalls s'.history = receivedCalls s.history :=
  Steps.received h (.inl fun _ h => nomatch h)

theorem receivedCalls_onWindowUpdate (s : Session X) (id n : ℕ) :
    receivedCalls (s.onWindowUpdate id n).history = receivedCalls s.history := by
  have herr : ∀ code reason, receivedCalls (s.connectionError code reason).history =
      receivedCalls s.history := fun code reason =>
    receivedCalls_of_reaches (reaches_connectionError ⟨rfl, rfl⟩)
  have hoffer : ∀ (t : Session X) (event : Event), ¬event.isMessage →
      receivedCalls (t.offerEvent event).history = receivedCalls t.history := fun t event h =>
    receivedCalls_of_reaches (reaches_offerEvent h)
  unfold onWindowUpdate
  split
  · rfl
  split
  · split
    · exact herr _ _
    · exact hoffer _ _ (by simp [Event.isMessage])
  split
  · split
    · exact herr _ _
    · rfl
  split
  · rfl
  split
  · exact receivedCalls_of_reaches (reaches_streamError s _ _)
  · exact hoffer _ _ (by simp [Event.isMessage])

theorem receivedCalls_note (s : Session X) (call : Callback) :
    receivedCalls (s.note (.received call)).history = receivedCalls s.history ++ [call] := by
  simp [note, receivedCalls]

/-- The delivery of a callback records this callback. -/
theorem receivedCalls_deliver (h : s.WellFormed) (ha : s.Allows (.deliver call)) :
    receivedCalls (s.deliver call).history = receivedCalls s.history ++ [call] := by
  rw [← receivedCalls_note]
  by_cases hw : ∃ id n, call = .windowUpdate id n
  · obtain ⟨id, n, rfl⟩ := hw
    exact receivedCalls_onWindowUpdate (s.note _) id n
  · refine Steps.received (reaches_handle h.ids h.pending (fun setting hset => ?_)
      fun id n hc => hw ⟨id, n, hc⟩) (.inr (by simp [endpoint, note]))
    subst hset
    exact validSetting_of_allows ha

theorem phase_deliver (h : s.WellFormed) (ha : s.Allows (.deliver call)) :
    (s.deliver call).phase = s.phase.next call := by
  rw [phase, receivedCalls_deliver h ha, foldl_append]
  rfl

theorem phase_act (h : s.WellFormed) (ha : s.Allows a) (hne : ∀ call, a ≠ .deliver call) :
    (s.act a).phase = s.phase :=
  congrArg (foldl Phase.next {}) (Steps.received (h.reaches ha) (.inl hne))

/-- The frame of a phase is the one that has begun. -/
theorem frame_next {ph : Phase} (h : (ph.next call).frame = some header) :
    ph.frame = some header ∨ call = .frameBegin header := by
  cases call with
  | frameBegin => exact .inr (by cases h; rfl)
  | frameComplete => cases h
  | _ => exact .inl h

theorem frame_act (h : s.WellFormed) (ha : s.Allows a)
    (hframe : (s.act a).phase.frame = some header) :
    validateFrameHeader header = .none ∧ header.streamID < 2 ^ 31 := by
  by_cases hd : ∃ call, a = .deliver call
  · obtain ⟨call, rfl⟩ := hd
    change (s.deliver call).phase.frame = some header at hframe
    rw [phase_deliver h ha] at hframe
    rcases frame_next hframe with hframe | rfl
    · exact h.frame header hframe
    · exact ⟨ha.2.1, ha.2.2.1⟩
  · rw [phase_act h ha fun call hc => hd ⟨call, hc⟩] at hframe
    exact h.frame header hframe

theorem WellFormed.act (h : s.WellFormed) (ha : s.Allows a) : (s.act a).WellFormed :=
  ⟨(h.reaches ha).invariant IdSpace.step h.ids, (h.reaches ha).invariant pending_step h.pending,
    fun _ hframe => frame_act h ha hframe⟩

/-! ## The parser and the session -/

/-- Unless the session has failed, its parser is where the callbacks stand. -/
def Sound (s : Session X) : Prop :=
  s.failed = none → s.parser.Ready ∧ s.parser.phase = s.phase

theorem guarded_deliverAll {calls : List Callback} (h : s.WellFormed)
    (hcalls : Guarded Phase.next Phase.Allows s.phase calls) :
    Guarded act Allows s (calls.map .deliver) ∧ (s.deliverAll calls).WellFormed ∧
      (s.deliverAll calls).phase = calls.foldl Phase.next s.phase := by
  induction calls generalizing s with
  | nil => exact ⟨trivial, h, rfl⟩
  | cons call calls ih =>
    have ha : s.Allows (.deliver call) := hcalls.1
    have hcalls' : Guarded Phase.next Phase.Allows (s.deliver call).phase calls := by
      rw [phase_deliver h ha]
      exact hcalls.2
    obtain ⟨hg, hw, hp⟩ := ih (h.act ha) hcalls'
    refine ⟨⟨ha, hg⟩, hw, ?_⟩
    rw [deliverAll, foldl_cons, foldl_cons, ← phase_deliver h ha]
    exact hp

theorem guarded_parseActions {r : Parser.Parsed} (h : s.WellFormed) (hr : r.Tracks s.phase) :
    Guarded act Allows s (parseActions r) ∧ (s.afterParse r).WellFormed ∧
      (r.code = .none → (s.afterParse r).Sound) := by
  obtain ⟨hg, hw, hp⟩ := guarded_deliverAll h hr.guarded
  refine ⟨?_, hw.act (a := .parsed r.parser) trivial, fun hc _ => ⟨hr.ready hc, ?_⟩⟩
  · rw [parseActions, guarded_append]
    refine ⟨hg, trivial, ?_⟩
    split <;> simp [Allows]
  · exact (hr.next hc).symm.trans hp.symm

theorem guarded_frameActions (h : s.WellFormed) (hs : s.Sound) (hf : s.failed = none) :
    Guarded act Allows s (s.frameActions src) ∧ ((s.frameActions src).foldl act s).Sound := by
  induction hl : src.length using Nat.strong_induction_on generalizing s src with
  | _ l ih =>
    rw [frameActions]
    split
    · exact ⟨trivial, hs⟩
    next hsrc =>
    have hlen := length_pos_iff.2 hsrc
    have htracks : (s.parser.parseOne src).Tracks s.phase :=
      (hs hf).2 ▸ Parser.parseOne_tracks (hs hf).1
    obtain ⟨hg, hw, hsound⟩ := guarded_parseActions h htracks
    have hfold := foldl_parseActions s (s.parser.parseOne src)
    simp only
    split
    · next hor =>
      refine ⟨hg, ?_⟩
      rw [hfold]
      split
      · exact fun hnone => absurd hnone (failed_connectionError _ _ _)
      · next hc => exact hsound (not_not.1 hc)
    · next hor =>
      obtain ⟨hc, hnf⟩ := not_or.1 hor
      rw [if_neg hc] at hfold
      split
      · rw [hfold]
        exact ⟨hg, hsound (not_not.1 hc)⟩
      · next hn =>
        rw [guarded_append, foldl_append, hfold]
        have hlt : (src.drop (s.parser.parseOne src).n).length < l := by
          rw [length_drop]
          omega
        obtain ⟨hg', hs'⟩ := ih _ hlt hw (hsound (not_not.1 hc)) (not_not.1 hnf) rfl
        exact ⟨⟨hg, hg'⟩, hs'⟩

theorem guarded_prefaceActions (s : Session X) : Guarded act Allows s (s.prefaceActions src) := by
  induction src generalizing s with
  | nil => trivial
  | cons b src ih =>
    unfold prefaceActions
    split_ifs
    · exact ⟨trivial, trivial⟩
    · exact ⟨trivial, ih _⟩
    · trivial

/-- The octets of the preface concern neither the parser nor the history. -/
theorem matchPreface_frame (s : Session X) (h : (s.matchPreface src).err = none) :
    (s.matchPreface src).session.failed = s.failed ∧
      (s.matchPreface src).session.parser = s.parser ∧
      (s.matchPreface src).session.history = s.history := by
  induction src generalizing s with
  | nil => exact ⟨rfl, rfl, rfl⟩
  | cons b src ih =>
    unfold matchPreface at h ⊢
    split_ifs at h ⊢
    · exact absurd h (failed_connectionError _ _ _)
    · exact ih { s with prefacePos := s.prefacePos + 1 } h
    · exact ⟨rfl, rfl, rfl⟩

theorem sound_of_matchPreface_err (s : Session X) (h : (s.matchPreface src).err ≠ none) :
    (s.matchPreface src).session.Sound := by
  induction src generalizing s with
  | nil => exact absurd rfl h
  | cons b src ih =>
    unfold matchPreface at h ⊢
    split_ifs at h ⊢
    · exact fun hnone => absurd hnone (failed_connectionError _ _ _)
    · exact ih { s with prefacePos := s.prefacePos + 1 } h
    · exact absurd rfl h

theorem wellFormed_foldl {as : List Action} (h : s.WellFormed) (hg : Guarded act Allows s as) :
    (as.foldl act s).WellFormed :=
  hg.invariant (fun _ _ hw ha => hw.act ha) h

theorem guarded_feedActions (h : s.WellFormed) (hs : s.Sound) :
    Guarded act Allows s (s.feedActions src) ∧ ((s.feedActions src).foldl act s).Sound := by
  unfold feedActions
  split
  · exact ⟨trivial, hs⟩
  next hne =>
  have hf : s.failed = none := by
    by_contra hsome
    exact hne (by simp [Option.isSome_iff_ne_none.2 hsome])
  split
  · have hpre : Guarded act Allows s (s.prefaceActions src) := guarded_prefaceActions s
    have hw := wellFormed_foldl h hpre
    simp only
    rw [guarded_append, foldl_append]
    rw [← matchPreface_session] at hw ⊢
    by_cases herr : (s.matchPreface src).err = none
    · obtain ⟨hf', hp', hh'⟩ := matchPreface_frame s herr
      have hs' : (s.matchPreface src).session.Sound := fun _ => by
        rw [hp', phase, hh']
        exact hs hf
      split
      · exact ⟨⟨hpre, trivial⟩, hs'⟩
      · obtain ⟨hg, hs''⟩ := guarded_frameActions hw hs' (hf'.trans hf)
        exact ⟨⟨hpre, hg⟩, hs''⟩
    · rw [if_pos (.inl herr)]
      exact ⟨⟨hpre, trivial⟩, sound_of_matchPreface_err s herr⟩
  · exact guarded_frameActions h hs hf

/-! ## Calls -/

theorem parser_step (hne : ¬a.movesParser) (hs : Step a e₀ e e') : e'.parser = e.parser := by
  cases hs with
  | parser ha => exact absurd ha hne
  | _ => rfl

theorem parser_of_reaches (hne : ¬a.movesParser) (h : Reaches a s.endpoint s s') :
    s'.parser = s.parser :=
  h.invariant (I := fun e => e.parser = s.parser) (fun hs he => (parser_step hne hs).trans he) rfl

theorem finish_eq_self {p : Parser} (h : p.finish.2 = .none) : p.finish.1 = p := by
  unfold Parser.finish at h ⊢
  split_ifs at h ⊢
  · rfl
  · exact absurd h (Parser.fail_code_ne (by decide))
  · rfl

theorem parser_finish : s.finish.1.failed = none → s.finish.1.parser = s.parser := by
  unfold finish
  simp only
  split
  · exact fun _ => rfl
  split
  · exact fun _ => rfl
  split
  · exact fun h => absurd h (failed_connectionError _ _ _)
  split
  · exact fun h => absurd h (failed_connectionError _ _ _)
  · next hc => exact fun _ => finish_eq_self (not_not.1 hc)

theorem parser_adjustRecvWindows {change : ℤ} (ids : List ℕ) (s : Session X) :
    (adjustRecvWindows change ids s).parser = s.parser := by
  induction ids generalizing s with
  | nil => rfl
  | cons id ids ih =>
    unfold adjustRecvWindows
    split
    · exact ih s
    · exact ih _

theorem maxFrame_setting {x : Setting} (h : u.setting s x = some u') :
    u'.maxFrame = u.maxFrame ∨ x.id = .maxFrameSize ∧ u'.maxFrame = x.value := by
  unfold LocalUpdate.setting at h
  split_ifs at h <;> cases h <;> first | exact .inl rfl | exact .inr ⟨‹_›, rfl⟩

/-- The frame size of an update is one of its settings, if it changes. -/
theorem maxFrame_settings {settings : List Setting}
    (h : settings.foldlM (LocalUpdate.setting s) u = some u') :
    u'.maxFrame = u.maxFrame ∨ ∃ x ∈ settings, x.id = .maxFrameSize ∧ u'.maxFrame = x.value := by
  induction settings generalizing u with
  | nil =>
    cases h
    exact .inl rfl
  | cons x settings ih =>
    rw [foldlM_cons] at h
    obtain ⟨v, hv, hrest⟩ := Option.bind_eq_some_iff.1 h
    rcases ih hrest with hsame | ⟨y, hy, hid, hvalue⟩
    · refine (maxFrame_setting hv).imp hsame.trans fun ⟨hid, hvalue⟩ => ?_
      exact ⟨x, mem_cons_self, hid, hsame.trans hvalue⟩
    · exact .inr ⟨y, mem_cons_of_mem x hy, hid, hvalue⟩

/-- A SETTINGS update changes the largest frame of the parser only. -/
theorem parser_updateSettings (s : Session X) (settings : List Setting) :
    ∃ size, (s.updateSettings settings).1.parser =
        { s.parser with limits := { s.parser.limits with maxFrameSize := size } } ∧
      (size = s.parser.limits.maxFrameSize ∨
        ∃ x ∈ settings, x.id = .maxFrameSize ∧ size = x.value) := by
  unfold updateSettings
  split
  · exact ⟨_, rfl, .inl rfl⟩
  split
  · exact ⟨_, rfl, .inl rfl⟩
  split
  · exact ⟨_, rfl, .inl rfl⟩
  simp only
  split
  · exact ⟨_, rfl, .inl rfl⟩
  split
  · exact ⟨_, rfl, .inl rfl⟩
  split
  · exact ⟨_, rfl, .inl rfl⟩
  next u hu _ _ decoder _ =>
  have h : (appendSettings { s with decoder } settings false).1.parser = s.parser :=
    parser_of_reaches (a := .preface) (s := { s with decoder }) (fun h => h) reaches_appendSettings
  generalize appendSettings { s with decoder } settings false = w at h
  obtain ⟨t, _ | err⟩ := w
  · rw [parser_adjustRecvWindows, ← h]
    exact ⟨u.maxFrame, rfl, h ▸ maxFrame_settings hu⟩
  · exact ⟨_, h, .inl rfl⟩

theorem ready_limits {p : Parser} (h : p.Ready) (limits : Limits) :
    Parser.Ready { p with limits } ∧ Parser.phase { p with limits } = p.phase :=
  ⟨⟨h.code, h.header, fun hl => ⟨(h.inFrame hl).valid, (h.inFrame hl).continuation,
    (h.inFrame hl).start, (h.inFrame hl).fixed⟩⟩, rfl⟩

theorem sound_call {call : Call} (h : s.WellFormed) (hs : s.Sound) : (s.call call).Sound := by
  intro hf
  have ha : s.Allows (.call call) := trivial
  have hphase : (s.call call).phase = s.phase := phase_act h ha fun _ h => nomatch h
  obtain ⟨hr, hp⟩ := hs (failed_of_act h ha hf)
  rw [hphase, ← hp]
  by_cases hm : (Action.call call).movesParser
  · cases call with
    | finish =>
      have : (s.call .finish).parser = s.parser := parser_finish hf
      rw [this]
      exact ⟨hr, rfl⟩
    | updateSettings settings =>
      obtain ⟨size, hsize, -⟩ := parser_updateSettings s settings
      rw [show (s.call (.updateSettings settings)).parser = _ from hsize]
      exact ready_limits hr _
    | _ => exact hm.elim
  · have : (s.call call).parser = s.parser := parser_of_reaches hm (h.reaches ha)
    rw [this]
    exact ⟨hr, rfl⟩

/-! ## Runs -/

/-- The actions of an operation keep to the grammar, and the parser stays in step. -/
theorem guarded_opActions (o : Op) (h : s.WellFormed ∧ s.Sound) :
    Guarded act Allows s (s.opActions o) ∧ (s.op o).WellFormed ∧ (s.op o).Sound := by
  have key : Guarded act Allows s (s.opActions o) ∧ ((s.opActions o).foldl act s).Sound := by
    cases o with
    | call call => exact ⟨⟨trivial, trivial⟩, sound_call h.1 h.2⟩
    | feed src => exact guarded_feedActions h.1 h.2
  rw [expands_opActions s o]
  exact ⟨key.1, wellFormed_foldl h.1 key.1, key.2⟩

/-- What a new session has done: it has queued the preface and its settings. -/
theorem newSession_ok (h : newSession X role limits = .ok s) :
    ∃ output header payload, header.type = .settings ∧
      s = { init X role limits with
        output, localSettingsOutstanding := 1, history := [.sent header payload] } := by
  have hpre : ∀ t, (init X role limits).startPreface = .ok t →
      ∃ output, t = { init X role limits with output } := by
    intro t ht
    unfold startPreface at ht
    split at ht
    · split at ht
      · cases ht
      · cases ht
        exact ⟨_, rfl⟩
    · cases ht
      exact ⟨_, rfl⟩
  unfold newSession start at h
  split at h
  · cases h
  next t ht =>
  obtain ⟨err, hap⟩ | ⟨-, -, -, -, hap⟩ := appendFrameEvenFailed_cases t { type := .settings }
    ((initialSettings t.role t.limits).flatMap settingBytes)
  · rw [show t.appendSettings (initialSettings t.role t.limits) false = _ from hap] at h
    cases h
  · rw [show t.appendSettings (initialSettings t.role t.limits) false = _ from hap] at h
    cases h
    obtain ⟨_, rfl⟩ := hpre t ht
    exact ⟨_, _, _, rfl, rfl⟩

theorem idSpace_newSession (h : newSession X role limits = .ok s) : s.endpoint.IdSpace := by
  obtain ⟨output, header, payload, -, rfl⟩ := newSession_ok h
  refine ⟨by simp [endpoint], by simp [endpoint], by simp [endpoint], ?_, ?_, ?_⟩
  · intro id st hst
    exact absurd hst (by simp [endpoint, stream?, init])
  · cases role <;> simp [endpoint, init, Role.initiates]
  · cases role <;> simp [endpoint, init]

theorem wellFormed_newSession (h : newSession X role limits = .ok s) : s.WellFormed ∧ s.Sound := by
  have hid := idSpace_newSession h
  obtain ⟨output, header, payload, -, rfl⟩ := newSession_ok h
  exact ⟨⟨hid, by simp [init], by simp [phase, receivedCalls]⟩,
    fun _ => ⟨Parser.ready_newParser _, Parser.phase_newParser _⟩⟩

/-- A session that a computation finds. -/
theorem exists_newSession {r : Role} {l : SessionLimits} {p : Session X → Prop} [DecidablePred p]
    (h : ((newSession X r l).toOption.any fun s => decide (p s)) = true) :
    ∃ s, newSession X r l = .ok s ∧ p s := by
  obtain ⟨s, hs, hp⟩ := Option.any_eq_true .. |>.1 h
  refine ⟨s, ?_, of_decide_eq_true hp⟩
  generalize newSession X r l = x at hs
  cases x with
  | error => cases hs
  | ok => cases hs; rfl

/-- Every action of the run meets `ok` in the state that finds it. -/
def Meets (ok : Session X → Action → Prop) (s : Session X) (ops : List Op) : Prop :=
  Guarded op (fun s o => Guarded act ok s (s.opActions o)) s ops

instance (ok : Session X → Action → Prop) [∀ s a, Decidable (ok s a)] (s : Session X)
    (ops : List Op) : Decidable (Meets ok s ops) := inferInstanceAs (Decidable (Guarded ..))

theorem Meets.and (h : Meets ok s ops) (h' : Meets ok' s ops) :
    Meets (fun s a => ok s a ∧ ok' s a) s ops :=
  (Guarded.and h h').mono fun _ _ hg => hg.1.and hg.2

theorem Meets.mono (h : Meets ok s ops) (hle : ∀ s a, ok s a → ok' s a) : Meets ok' s ops :=
  Guarded.mono h fun _ _ hg => hg.mono hle

/-- A condition that concerns calls only. -/
theorem meets_of_calls {p : Action → Prop} (hcalls : ∀ call, .call call ∈ ops → p (.call call))
    (hfeed : ∀ a, (∀ call, a ≠ .call call) → p a) : Meets (fun _ a => p a) s ops := by
  have key : ∀ o ∈ ops, ∀ s : Session X, ∀ a ∈ s.opActions o, p a := by
    rintro (call | src) ho s a ha
    · rw [mem_singleton.1 ha]
      exact hcalls call ho
    · exact hfeed a (mem_feedActions ha)
  exact (guarded_of_forall key).mono fun s o h => guarded_of_forall (h s)

/-- What a new session has, and every allowed action that meets `ok` keeps. -/
theorem run_rule (hnew : newSession X role limits = .ok s) (hs : I s)
    (hact : ∀ s a, s.WellFormed → s.Allows a → I s → ok s a → I (s.act a)) (h : Meets ok s ops) :
    (I (s.run ops) ∧ (s.run ops).WellFormed) ∧
      Meets (fun s a => (I s ∧ s.WellFormed) ∧ s.Allows a ∧ ok s a) s ops :=
  expands_opActions.invariant (I := fun s => I s ∧ s.WellFormed)
    (J := fun s => s.WellFormed ∧ s.Sound) (fun _ o hJ => guarded_opActions o hJ)
    (fun s a hI ha hok => ⟨hact s a hI.2 ha hI.1 hok, hI.2.act ha⟩) h
    ⟨hs, (wellFormed_newSession hnew).1⟩ (wellFormed_newSession hnew)

/-- **The rule for reachable states.** What a new session has, and every allowed action that meets
`ok` keeps, a session has after every run whose actions meet `ok`. -/
theorem run_invariant (hnew : newSession X role limits = .ok s) (hs : I s)
    (hact : ∀ s a, s.WellFormed → s.Allows a → I s → ok s a → I (s.act a)) (h : Meets ok s ops) :
    I (s.run ops) := (run_rule hnew hs hact h).1.1

/-- **The rule for actions.** What the invariant and `ok` imply of an allowed action is true of
every action of a run whose actions meet `ok`. -/
theorem run_meets {P : Session X → Action → Prop} (hnew : newSession X role limits = .ok s)
    (hs : I s) (hact : ∀ s a, s.WellFormed → s.Allows a → I s → ok s a → I (s.act a))
    (hP : ∀ s a, s.WellFormed → s.Allows a → I s → ok s a → P s a) (h : Meets ok s ops) :
    Meets P s ops :=
  (run_rule hnew hs hact h).2.mono fun s a h => hP s a h.1.2 h.2.1 h.1.1 h.2.2

/-- The rule for what every action keeps. -/
theorem run_always (hnew : newSession X role limits = .ok s) (hs : I s)
    (hact : ∀ s a, s.WellFormed → s.Allows a → I s → I (s.act a)) (ops : List Op) :
    I (s.run ops) := by
  have hg : Meets (fun _ _ => True) s ops :=
    guarded_always (fun _ _ => guarded_always (fun _ _ => trivial) _ _) s ops
  exact run_invariant hnew hs (fun s a hw ha h _ => hact s a hw ha h) hg

theorem sound_run (hnew : newSession X role limits = .ok s) (ops : List Op) :
    (s.run ops).WellFormed ∧ (s.run ops).Sound := by
  have hg : Guarded op (fun (_ : Session X) _ => True) s ops :=
    guarded_always (fun _ _ => trivial) s ops
  exact hg.invariant (I := fun s => s.WellFormed ∧ s.Sound)
    (fun _ o h _ => (guarded_opActions o h).2) (wellFormed_newSession hnew)

/-! ## DATA frames -/

/-- The stream of a DATA frame takes it. -/
def TakesData (s : Session X) (header : FrameHeader) : Prop :=
  ∃ st ∈ s.stream? header.streamID, canReceive st.state = true ∧ st.receivedHeaders = true ∧
    st.receivedTrailers = false ∧ st.receiveNoBody = false ∧ (header.length : ℤ) ≤ st.recvWindow

instance (s : Session X) (header : FrameHeader) : Decidable (s.TakesData header) :=
  inferInstanceAs (Decidable (∃ st ∈ s.stream? header.streamID, _))

/-! ## Reachable sessions -/

/-- A session after any calls and received octets. -/
structure Reached (X : Externals) where
  role : Role
  limits : SessionLimits
  created : Session X
  new : newSession X role limits = .ok created
  ops : List Op

def Reached.session (r : Reached X) : Session X := r.created.run r.ops

/-- **A session refines its protocol state.** In every run each action keeps to the grammar of the
callbacks, and what it does to the protocol state is a sequence of elementary changes. -/
theorem Reached.refines (r : Reached X) :
    Meets (fun s a => s.Allows a ∧ Steps a s.endpoint s.endpoint (s.act a).endpoint)
      r.created r.ops := by
  have hany : Meets (fun _ _ => True) r.created r.ops :=
    guarded_always (fun _ _ => guarded_always (fun _ _ => trivial) _ _) _ _
  exact run_meets (I := fun _ => True) r.new trivial (fun _ _ _ _ _ _ => trivial)
    (fun _ _ hw ha _ _ => ⟨ha, hw.reaches ha⟩) hany

/-- **Streams are opened once and in order**, whatever a session receives. -/
theorem Reached.streams_inOrder (r : Reached X) : r.session.endpoint.InOrder := by
  refine run_always (I := fun s => s.endpoint.InOrder) r.new ?_ (fun s a hw ha h => ?_) r.ops
  · obtain ⟨_, _, _, -, h⟩ := newSession_ok r.new
    simp [h, InOrder, endpoint]
  · exact ((hw.reaches ha).invariant (I := fun e => e.IdSpace ∧ e.InOrder)
      (fun hs hI => ⟨hI.1.step hs, hI.2.step hs hI.1⟩) ⟨hw.ids, h⟩).2

/-- A server that has received two requests. -/
theorem Reached.streams_inOrder_requests : ∃ r : Reached SmallHpack.externals,
    r.session.streams.keys = [3, 1] ∧ r.session.endpoint.InOrder := by
  let ops : List Op := [.feed (SmallHpack.clientStart ++ SmallHpack.getFrame 1 ++
    SmallHpack.getFrame 3)]
  obtain ⟨s, hnew, hkeys⟩ := exists_newSession (X := SmallHpack.externals) (r := .server) (l := {})
    (p := fun s => (s.run ops).streams.keys = [3, 1]) (by decide +kernel)
  exact ⟨⟨.server, {}, s, hnew, ops⟩, hkeys, Reached.streams_inOrder _⟩

end WagoHttp.Http2.Session
