import WagoHttp.Http2.Fragments
import WagoHttp.Http2.Session.Identifiers

/-!
# Callbacks and their fragments

The frame parser passes the octets of a payload as they arrive, so the same frame can reach a
session in one callback or in many. `effects` says what a session does with callbacks when no limit
of its queues is in the way. The effect of a fragment is that of its octets one by one, up to the
merging of adjacent data events, as long as no data exceeds the length that was announced for it.
-/

namespace WagoHttp.Http2

open Runs List

/-! ## Merging events -/

namespace Event

/-- Two data events of the same stream make one. -/
def join (event event' : Event) : Option Event :=
  if event.type = .data ∧ event'.type = .data ∧ event.streamID = event'.streamID ∧
      event.endStream = event'.endStream then
    some { event with data := event.data ++ event'.data }
  else none

/-- An event before events that are merged already. -/
def mergeOnto (event : Event) : List Event → List Event
  | [] => [event]
  | next :: events =>
    match event.join next with
    | some joined => joined :: events
    | none => event :: next :: events

end Event

/-- Events with adjacent data of the same stream merged. -/
def mergeEvents (events : List Event) : List Event := events.foldr Event.mergeOnto []

/-- The events are the same once they are merged, whatever comes after them. -/
def SameEvents (events events' : List Event) : Prop :=
  ∀ rest, events.foldr Event.mergeOnto rest = events'.foldr Event.mergeOnto rest

theorem SameEvents.append {events events' more more' : List Event} (h : SameEvents events events')
    (h' : SameEvents more more') : SameEvents (events ++ more) (events' ++ more') := fun rest => by
  rw [foldr_append, foldr_append, h' rest, h]

/-- The event that reports data. -/
def Event.ofData (streamID : ℕ) (endStream : Bool) (data : Bytes) : Event :=
  { type := .data, streamID, endStream, data }

theorem sameEvents_data (id : ℕ) (endStream : Bool) (data data' : Bytes) :
    SameEvents [.ofData id endStream data, .ofData id endStream data']
      [.ofData id endStream (data ++ data')] := by
  have hjoin (d d' : Bytes) : (Event.ofData id endStream d).join (.ofData id endStream d') =
      some (.ofData id endStream (d ++ d')) := if_pos ⟨rfl, rfl, rfl, rfl⟩
  rintro (_ | ⟨next, rest⟩)
  · simp only [foldr_cons, foldr_nil, Event.mergeOnto, hjoin]
  · by_cases hnext : next.type = .data ∧ id = next.streamID ∧ endStream = next.endStream
    · have hone (d : Bytes) : (Event.ofData id endStream d).join next =
          some (.ofData id endStream (d ++ next.data)) :=
        if_pos ⟨rfl, hnext.1, hnext.2.1, hnext.2.2⟩
      simp only [foldr_cons, foldr_nil, Event.mergeOnto, hone, hjoin, append_assoc]
    · have hnone (d : Bytes) : (Event.ofData id endStream d).join next = none :=
        if_neg fun h => hnext ⟨h.2.1, h.2.2.1, h.2.2.2⟩
      simp only [foldr_cons, foldr_nil, Event.mergeOnto, hnone, hjoin]

/-! ## Effects -/

/-- What callbacks do: the session after them, apart from its queues, and what they queue. -/
structure Effect (X : Externals) where
  state : Session X
  events : List Event := []
  output : Bytes := []

/-- One effect after another. -/
def Effect.andThen {X : Externals} (x y : Effect X) : Effect X :=
  { y with events := x.events ++ y.events, output := x.output ++ y.output }

namespace Session

variable {X : Externals} {s t : Session X}

/-- The session with empty queues and the largest limits for them. The callbacks read neither the
parser nor the history, which are blank here. -/
def relieved (s : Session X) : Session X :=
  { s with
    parser := newParser {}, history := [], events := [], eventBytes := 0, output := []
    limits :=
      { s.limits with
        maxQueuedEvents := 0xffffffff, maxQueuedEventBytes := 0xffffffff
        maxQueuedOutputBytes := 0xffffffff } }

/-- What a callback does when no limit of the queues is in the way. -/
def effect (s : Session X) (call : Callback) : Effect X where
  state := (s.relieved.deliver call).relieved
  events := (s.relieved.deliver call).events
  output := (s.relieved.deliver call).output

/-- What callbacks do, one after another. -/
def effects (s : Session X) : List Callback → Effect X
  | [] => { state := s.relieved }
  | call :: calls => (s.effect call).andThen ((s.effect call).state.effects calls)

/-- **No limit of the queues is reached**: the session does with the callback what it does with it
when its queues are empty and their limits are as large as can be. -/
structure Unhindered (s : Session X) (call : Callback) : Prop where
  state : (s.deliver call).relieved = (s.effect call).state
  events : (s.deliver call).events = s.events ++ (s.effect call).events
  output : (s.deliver call).output = s.output ++ (s.effect call).output

theorem effect_congr (h : s.relieved = t.relieved) (call : Callback) :
    s.effect call = t.effect call := by
  unfold effect
  rw [h]

theorem effects_congr (h : s.relieved = t.relieved) (calls : List Callback) :
    s.effects calls = t.effects calls := by
  cases calls with
  | nil => rw [effects, effects, h]
  | cons call calls => rw [effects, effects, effect_congr h]

theorem Effect.andThen_assoc (x y z : Effect X) :
    (x.andThen y).andThen z = x.andThen (y.andThen z) := by
  simp [Effect.andThen, append_assoc]

theorem relieved_effects (s : Session X) (calls : List Callback) :
    (s.effects calls).state.relieved = (s.effects calls).state := by
  induction calls generalizing s with
  | nil => rfl
  | cons call calls ih => exact ih _

theorem effects_append (s : Session X) (calls calls' : List Callback) :
    s.effects (calls ++ calls') =
      (s.effects calls).andThen ((s.effects calls).state.effects calls') := by
  induction calls generalizing s with
  | nil =>
    have hidem : s.relieved = s.relieved.relieved := rfl
    simp [effects, Effect.andThen, effects_congr hidem]
  | cons call calls ih =>
    rw [cons_append, effects, ih, effects, Effect.andThen_assoc]
    rfl

theorem effects_singleton (s : Session X) (call : Callback) : s.effects [call] = s.effect call := by
  have hidem : (s.effect call).state.relieved = (s.effect call).state := rfl
  simp [effects, Effect.andThen, hidem]

variable {calls : List Callback} {x y : Effect X} {id n : ℕ} {data data' : Bytes} {endStream : Bool}

/-- **Callbacks that no limit hinders have their effects.** -/
theorem effects_of_unhindered (h : Guarded deliver Unhindered s calls) :
    (s.deliverAll calls).relieved = (s.effects calls).state ∧
      (s.deliverAll calls).events = s.events ++ (s.effects calls).events ∧
      (s.deliverAll calls).output = s.output ++ (s.effects calls).output := by
  induction calls generalizing s with
  | nil => exact ⟨rfl, (append_nil _).symm, (append_nil _).symm⟩
  | cons call calls ih =>
    obtain ⟨hone, hrest⟩ := h
    obtain ⟨hstate, hevents, houtput⟩ := ih hrest
    have hidem : (s.deliver call).relieved = (s.effect call).state.relieved := hone.state
    have hsame := effects_congr hidem calls
    refine ⟨?_, ?_, ?_⟩
    · change ((s.deliver call).deliverAll calls).relieved = _
      rw [hstate, hsame]
      rfl
    · change ((s.deliver call).deliverAll calls).events = _
      rw [hevents, hone.events, hsame, append_assoc]
      rfl
    · change ((s.deliver call).deliverAll calls).output = _
      rw [houtput, hone.output, hsame, append_assoc]
      rfl

/-! ## Failures -/

theorem failed_closeStream (s : Session X) (id : ℕ) : (s.closeStream id).failed = s.failed := by
  unfold closeStream releaseActive
  split
  · rfl
  split
  · rfl
  · simp only
    split <;> rfl

theorem failed_refuseStreams (last : ℕ) (ids : List ℕ) (s : Session X) :
    (s.refuseStreams last ids).failed = s.failed := by
  induction ids generalizing s with
  | nil => rfl
  | cons id ids ih =>
    unfold refuseStreams
    split
    · exact ih s
    split
    · rw [ih, failed_offerEvent, failed_closeStream]
    · exact ih s

/-- **A session that has failed stays so.** -/
theorem failed_deliver {call : Callback} (h : s.failed ≠ none) :
    (s.deliver call).failed ≠ none := by
  have hnote : (s.note (.received call)).failed ≠ none := h
  unfold deliver
  generalize s.note (.received call) = t at hnote
  have herr : ∀ code reason, (t.connectionError code reason).failed ≠ none :=
    failed_connectionError t
  cases call with
  | frameBegin header =>
    change (t.onFrameBegin header).failed ≠ none
    rwa [onFrameBegin, if_pos hnote]
  | data id data endStream =>
    change (t.onData id data endStream).failed ≠ none
    rwa [onData, if_pos (.inl hnote)]
  | headerBlock id fragment =>
    change (t.onHeaderBlock id fragment).failed ≠ none
    rwa [onHeaderBlock, if_pos (.inl hnote)]
  | headerBlockEnd id endStream =>
    change (t.onHeaderBlockEnd id endStream).failed ≠ none
    rwa [onHeaderBlockEnd, if_pos (.inl hnote)]
  | priority id priority =>
    change (t.onPriority id priority).failed ≠ none
    rwa [onPriority, if_pos hnote]
  | rstStream id code =>
    change (t.onRSTStream id code).failed ≠ none
    unfold onRSTStream
    split
    · split
      · exact herr _ _
      · exact hnote
    · rwa [failed_offerEvent, failed_closeStream]
  | setting => exact hnote
  | settingsEnd ack =>
    change (t.onSettingsEnd ack).failed ≠ none
    rwa [onSettingsEnd, if_pos hnote]
  | pushPromise id promised =>
    change (t.onPushPromise id promised).failed ≠ none
    rwa [onPushPromise, if_pos hnote]
  | ping data ack =>
    change (t.onPing data ack).failed ≠ none
    rwa [onPing, if_pos hnote]
  | goAway last code =>
    change (t.onGoAway last code).failed ≠ none
    unfold onGoAway
    split
    · exact herr _ _
    · simp only [rangeStreams]
      rwa [failed_offerEvent, failed_refuseStreams]
  | goAwayDebug => exact hnote
  | windowUpdate id increment =>
    change (t.onWindowUpdate id increment).failed ≠ none
    rwa [onWindowUpdate, if_pos hnote]
  | unknown header fragment =>
    change (t.onUnknown header fragment).failed ≠ none
    unfold onUnknown
    split_ifs
    · exact herr _ _
    · exact hnote
    · exact hnote
  | frameComplete header =>
    change (t.onFrameComplete header).failed ≠ none
    rwa [onFrameComplete, if_pos hnote]

theorem failed_effects (h : s.failed ≠ none) : (s.effects calls).state.failed ≠ none := by
  induction calls generalizing s with
  | nil => exact h
  | cons call calls ih =>
    have hone : (s.relieved.deliver call).failed ≠ none := failed_deliver h
    exact ih hone

/-- The effects are the same once their events are merged, or both are failures. -/
def Alike (x y : Effect X) : Prop :=
  (x.state.failed ≠ none ∧ y.state.failed ≠ none) ∨
    x.state = y.state ∧ x.output = y.output ∧ SameEvents x.events y.events

theorem Alike.refl (x : Effect X) : Alike x x := .inr ⟨rfl, rfl, fun _ => rfl⟩

theorem Alike.symm (h : Alike x y) : Alike y x :=
  h.imp And.symm fun h => ⟨h.1.symm, h.2.1.symm, fun rest => (h.2.2 rest).symm⟩

theorem Alike.trans {z : Effect X} (h : Alike x y) (h' : Alike y z) : Alike x z := by
  rcases h with ⟨hx, hy⟩ | ⟨hs, ho, he⟩
  · rcases h' with ⟨-, hz⟩ | ⟨hs', -, -⟩
    · exact .inl ⟨hx, hz⟩
    · exact .inl ⟨hx, hs' ▸ hy⟩
  · rcases h' with ⟨hy, hz⟩ | ⟨hs', ho', he'⟩
    · exact .inl ⟨hs ▸ hy, hz⟩
    · exact .inr ⟨hs.trans hs', ho.trans ho', fun rest => (he rest).trans (he' rest)⟩

/-- Alike effects, followed by alike effects. -/
theorem Alike.andThen {x' y' : Effect X} (h : Alike x y)
    (hx : x.state.failed ≠ none → x'.state.failed ≠ none)
    (hy : y.state.failed ≠ none → y'.state.failed ≠ none) (h' : x.state = y.state → Alike x' y') :
    Alike (x.andThen x') (y.andThen y') := by
  rcases h with ⟨hfx, hfy⟩ | ⟨hs, ho, he⟩
  · exact .inl ⟨hx hfx, hy hfy⟩
  · rcases h' hs with hf | ⟨hs', ho', he'⟩
    · exact .inl hf
    · exact .inr ⟨hs', congrArg₂ _ ho ho', he.append he'⟩

/-! ## Data -/

/-- Data does not exceed the length that was announced for it. -/
def DataFits (s : Session X) : Callback → Prop
  | .data id data _ =>
    s.failed = none → ∀ st ∈ s.stream? id,
      (st.receiveHasLength && data.length > sub64 st.receiveLength st.receiveBody) = false
  | _ => True

/-- An empty queue with the largest limits takes any event. -/
theorem queueEvent_blank {event : Event} (he : s.events = []) (hb : s.eventBytes = 0)
    (hl : s.limits.maxQueuedEvents = 0xffffffff)
    (hl' : s.limits.maxQueuedEventBytes = 0xffffffff) :
    s.queueEvent event =
      ({ s with events := [event], eventBytes := eventRetainedBytes event % 2 ^ 32 }.note
        (.queued event), none) := by
  have hmin : eventRetainedBytes event ≤ 2 ^ 32 - 1 := Nat.min_le_right _ _
  have hsub : sub32 (0xffffffff : UInt32).toNat 0 = 2 ^ 32 - 1 := by decide
  have hpos : 0 < (0xffffffff : UInt32).toNat := by decide
  unfold queueEvent
  rw [he, hb, hl, hl', hsub]
  simp only [length_nil, nil_append, Nat.zero_add]
  rw [if_neg (by omega)]

/-- The effect of data that is reported. -/
theorem effect_data {st : Stream} (hf : s.failed = none) (hst : s.stream? id = some st)
    (hne : data ≠ [])
    (hfits : (st.receiveHasLength && data.length > sub64 st.receiveLength st.receiveBody) = false) :
    s.effect (.data id data endStream) =
      { state := (s.setStream id
          { st with receiveBody := (st.receiveBody + data.length) % 2 ^ 64 }).relieved
        events := [.ofData id endStream data] } := by
  have hst' : (s.relieved.note (.received (.data id data endStream))).stream? id = some st := hst
  have hgo : ¬((s.relieved.note (.received (.data id data endStream))).failed ≠ none ∨ data = []) :=
    not_or.2 ⟨not_not.2 hf, hne⟩
  have hdeliver : s.relieved.deliver (.data id data endStream) =
      (s.relieved.note (.received (.data id data endStream))).onData id data endStream := rfl
  rw [effect, hdeliver, onData, if_neg hgo, hst']
  simp only [hfits]
  rw [if_neg Bool.false_ne_true, queueEvent_blank rfl rfl rfl rfl]
  rfl

/-- Data on a stream that the table does not hold has no effect. -/
theorem effect_data_unknown (hst : s.stream? id = none) :
    s.effect (.data id data endStream) = { state := s.relieved } := by
  have hst' : (s.relieved.note (.received (.data id data endStream))).stream? id = none := hst
  have hdeliver : s.relieved.deliver (.data id data endStream) =
      s.relieved.note (.received (.data id data endStream)) := by
    change (s.relieved.note (.received (.data id data endStream))).onData id data endStream = _
    unfold onData
    rw [hst']
    simp only [ite_self]
  rw [effect, hdeliver]
  rfl

/-- What remains of an announced length after data that fits it. -/
theorem sub64_receive {length body : ℕ} (hn : 0 < n) (hle : n ≤ sub64 length body) :
    sub64 length ((body + n) % 2 ^ 64) = sub64 length body - n := by
  unfold sub64 at hle ⊢
  omega

theorem fits_receive (st : Stream) {m : ℕ} (hn : 0 < n) :
    (st.receiveHasLength && decide (n + m > sub64 st.receiveLength st.receiveBody)) = false ↔
      (st.receiveHasLength && decide (n > sub64 st.receiveLength st.receiveBody)) = false ∧
        (st.receiveHasLength && decide (m > sub64 st.receiveLength
          ((st.receiveBody + n) % 2 ^ 64))) = false := by
  cases hl : st.receiveHasLength with
  | false => simp
  | true =>
    simp only [Bool.true_and, decide_eq_false_iff_not, not_lt]
    constructor
    · intro h
      have hle : n ≤ sub64 st.receiveLength st.receiveBody := by omega
      rw [sub64_receive hn hle]
      omega
    · rintro ⟨hle, h⟩
      rw [sub64_receive hn hle] at h
      omega

/-- Data fits if and only if its parts fit, one after the other. -/
theorem dataFits_append (hne : data ≠ []) :
    s.DataFits (.data id (data ++ data') endStream) ↔
      s.DataFits (.data id data endStream) ∧
        (s.effect (.data id data endStream)).state.DataFits (.data id data' endStream) := by
  by_cases hf : s.failed = none
  · cases hst : s.stream? id with
    | none =>
      rw [effect_data_unknown hst]
      have hst' : s.relieved.stream? id = none := hst
      simp [DataFits, hst, hst']
    | some st =>
      have hpos := length_pos_iff.2 hne
      have key := fits_receive st (m := data'.length) hpos
      have hwhole : s.DataFits (.data id (data ++ data') endStream) ↔ (st.receiveHasLength &&
          decide (data.length + data'.length > sub64 st.receiveLength st.receiveBody)) = false := by
        simp only [DataFits, hf, hst, forall_const, Option.mem_some_iff, forall_eq',
          length_append]
      have hone : s.DataFits (.data id data endStream) ↔ (st.receiveHasLength &&
          decide (data.length > sub64 st.receiveLength st.receiveBody)) = false := by
        simp only [DataFits, hf, hst, forall_const, Option.mem_some_iff, forall_eq']
      rw [hwhole, key, hone]
      refine and_congr_right fun hfits => ?_
      rw [effect_data hf hst hne hfits]
      have hf' : (s.setStream id { st with
          receiveBody := (st.receiveBody + data.length) % 2 ^ 64 }).relieved.failed = none := hf
      have hst' : (s.setStream id { st with
          receiveBody := (st.receiveBody + data.length) % 2 ^ 64 }).relieved.stream? id =
          some { st with receiveBody := (st.receiveBody + data.length) % 2 ^ 64 } :=
        AList.lookup_insert _
      simp only [DataFits, hf', hst', forall_const, Option.mem_some_iff, forall_eq']
  · have hf' : (s.effect (.data id data endStream)).state.failed ≠ none := failed_deliver hf
    simp [DataFits, hf, hf']

/-- **Data in two parts has the effect of data in one.** -/
theorem alike_data (hne : data ≠ []) (hne' : data' ≠ [])
    (hfits : s.DataFits (.data id (data ++ data') endStream)) :
    Alike (s.effects [.data id data endStream, .data id data' endStream])
      (s.effects [.data id (data ++ data') endStream]) := by
  by_cases hf : s.failed = none
  · obtain ⟨hone, htwo⟩ := (dataFits_append hne).1 hfits
    have hall : data ++ data' ≠ [] := fun h => hne (append_eq_nil_iff.1 h).1
    simp only [effects, Effect.andThen, append_nil]
    cases hst : s.stream? id with
    | none =>
      have hst' : s.relieved.stream? id = none := hst
      rw [effect_data_unknown hst, effect_data_unknown hst]
      simp only
      rw [effect_data_unknown (s := s.relieved) hst']
      exact .refl _
    | some st =>
      have hfits₁ := hfits hf st hst
      have hfits₂ := hone hf st hst
      rw [effect_data hf hst hne hfits₂] at htwo ⊢
      have hst' : (s.setStream id { st with
          receiveBody := (st.receiveBody + data.length) % 2 ^ 64 }).relieved.stream? id =
          some { st with receiveBody := (st.receiveBody + data.length) % 2 ^ 64 } :=
        AList.lookup_insert _
      have hfits₃ := htwo hf _ hst'
      rw [effect_data hf hst hall hfits₁]
      simp only
      rw [effect_data (s := (s.setStream id { st with
          receiveBody := (st.receiveBody + data.length) % 2 ^ 64 }).relieved) hf hst' hne' hfits₃]
      refine .inr ⟨?_, rfl, sameEvents_data id endStream data data'⟩
      have hbody : ((st.receiveBody + data.length) % 2 ^ 64 + data'.length) % 2 ^ 64 =
          (st.receiveBody + (data ++ data').length) % 2 ^ 64 := by
        rw [length_append]
        omega
      have htable (st₁ st₂ : Stream) : ((s.setStream id st₁).relieved.setStream id st₂).relieved =
          (s.setStream id st₂).relieved := by
        simp only [relieved, setStream, AList.insert_insert]
      simp only [htable, hbody]
  · refine .inl ⟨failed_effects hf, failed_effects hf⟩

end Session

/-! ## Header blocks -/

/-- The header decoder of the library takes a block in any fragments. -/
structure Externals.Incremental (X : Externals) : Prop where
  ok : ∀ {decoder decoder' fragment fields}, X.write fragment decoder = (decoder', fields, none) →
    ∀ more, X.write (fragment ++ more) decoder =
      ((X.write more decoder').1, fields ++ (X.write more decoder').2.1,
        (X.write more decoder').2.2)
  error : ∀ {decoder fragment}, (X.write fragment decoder).2.2 ≠ none →
    ∀ more, (X.write (fragment ++ more) decoder).2.2 ≠ none

namespace HeaderDecoder

variable {X : Externals} {d : HeaderDecoder X}

theorem emitFields_append (d : HeaderDecoder X) (fields more : List HeaderField) :
    d.emitFields (fields ++ more) =
      (((d.emitFields fields).1.emitFields more).1,
        (d.emitFields fields).2 ++ ((d.emitFields fields).1.emitFields more).2) := by
  induction fields generalizing d with
  | nil => rfl
  | cons field fields ih => simp only [cons_append, emitFields, ih, append_assoc]

theorem emitField_decoder (d : HeaderDecoder X) (decoder : X.Decoder) (field : HeaderField) :
    ({ d with decoder } : HeaderDecoder X).emitField field =
      ({ (d.emitField field).1 with decoder }, (d.emitField field).2) := by
  unfold emitField
  simp only
  split_ifs <;> rfl

/-- The fields are counted without regard to the decoder of the library. -/
theorem emitFields_decoder (d : HeaderDecoder X) (decoder : X.Decoder) (fields : List HeaderField) :
    ({ d with decoder } : HeaderDecoder X).emitFields fields =
      ({ (d.emitFields fields).1 with decoder }, (d.emitFields fields).2) := by
  induction fields generalizing d with
  | nil => rfl
  | cons field fields ih => simp only [emitFields, emitField_decoder, ih]

variable {fields : List HeaderField} {fragment : Bytes}

theorem emitFields_err (h : d.err ≠ none) : d.emitFields fields = (d, []) := by
  induction fields with
  | nil => rfl
  | cons field fields ih =>
    have hone : d.emitField field = (d, []) := if_pos h
    simp only [emitFields, hone, ih, append_nil]

/-- What a fragment does to a decoder in a block that has not failed. -/
theorem write_eq (hactive : d.active = true) (herr : d.err = none) (src : Bytes) :
    d.write src =
      ({ (d.emitFields (X.write src d.decoder).2.1).1 with decoder := (X.write src d.decoder).1 },
        (d.emitFields (X.write src d.decoder).2.1).2,
        if (d.emitFields (X.write src d.decoder).2.1).1.err ≠ none then
          (d.emitFields (X.write src d.decoder).2.1).1.err
        else (X.write src d.decoder).2.2.map .hpack) := by
  unfold write
  rw [if_neg (by simp [hactive]), if_neg (not_not.2 herr)]
  rcases X.write src d.decoder with ⟨decoder, fields, err⟩
  simp only [emitFields_decoder]

/-- **A block in two fragments is decoded as in one.** -/
theorem write_append (hX : X.Incremental) {d' : HeaderDecoder X}
    (h : d.write fragment = (d', fields, none)) (more : Bytes) :
    d.write (fragment ++ more) =
      ((d'.write more).1, fields ++ (d'.write more).2.1, (d'.write more).2.2) := by
  have hactive : d.active = true := by
    by_contra hne
    rw [write, if_pos (by simpa using hne)] at h
    cases h
  have herr : d.err = none := by
    by_contra hne
    rw [write, if_neg (by simp [hactive]), if_pos hne] at h
    exact hne (congrArg (·.2.2) h)
  rw [write_eq hactive herr] at h
  rcases hw : X.write fragment d.decoder with ⟨decoder, emitted, err⟩
  rw [hw] at h
  simp only [Prod.mk.injEq] at h
  obtain ⟨rfl, rfl, hcode⟩ := h
  have hnone : (d.emitFields emitted).1.err = none := by
    by_contra hne
    rw [if_pos hne] at hcode
    exact hne hcode
  rw [if_neg (not_not.2 hnone)] at hcode
  obtain rfl : err = none := Option.map_eq_none_iff.1 hcode
  have hact := (emitFields_active d emitted).trans hactive
  rw [write_eq hactive herr, hX.ok hw more, write_eq (d := { (d.emitFields emitted).1 with
    decoder }) hact hnone]
  simp only [emitFields_append, emitFields_decoder]

/-- A fragment that fails makes every block fail that begins with it. -/
theorem write_append_error (hX : X.Incremental) (h : (d.write fragment).2.2 ≠ none) (more : Bytes) :
    (d.write (fragment ++ more)).2.2 ≠ none := by
  by_cases hactive : d.active = true
  · by_cases herr : d.err = none
    · rw [write_eq hactive herr] at h ⊢
      rcases hw : X.write fragment d.decoder with ⟨decoder, emitted, err⟩
      rw [hw] at h
      cases err with
      | some message =>
        have hfail : (X.write fragment d.decoder).2.2 ≠ none := by
          rw [hw]
          simp
        have hmore := hX.error hfail more
        simp only
        split
        · assumption
        · simpa using hmore
      | none =>
        have hne : (d.emitFields emitted).1.err ≠ none := by
          intro hnone
          simp [hnone] at h
        rw [hX.ok hw more]
        simp only [emitFields_append, emitFields_err hne]
        rw [if_pos hne]
        exact hne
    · rw [write, if_neg (by simp [hactive]), if_pos herr]
      exact herr
  · rw [write, if_pos (by simpa using hactive)]
    simp

end HeaderDecoder

namespace Session

variable {X : Externals} {s : Session X}

variable {id : ℕ} {fragment : Bytes} {header : FrameHeader} {calls : List Callback}

/-- A fragment of a block that is not awaited has no effect. -/
theorem effect_headerBlock_ignored (h : s.failed ≠ none ∨ id ≠ s.currentHeaderStream) :
    s.effect (.headerBlock id fragment) = { state := s.relieved } := by
  have hdeliver : s.relieved.deliver (.headerBlock id fragment) =
      s.relieved.note (.received (.headerBlock id fragment)) := if_pos h
  rw [effect, hdeliver]
  rfl

theorem effect_headerBlock {decoder : HeaderDecoder X} {fields : List HeaderField}
    (hf : s.failed = none) (hid : id = s.currentHeaderStream)
    (h : s.decoder.write fragment = (decoder, fields, none)) :
    s.effect (.headerBlock id fragment) =
      { state := { s with decoder, currentHeaders := s.currentHeaders ++ fields }.relieved } := by
  have hgo : ¬((s.relieved.note (.received (.headerBlock id fragment))).failed ≠ none ∨
      id ≠ (s.relieved.note (.received (.headerBlock id fragment))).currentHeaderStream) :=
    not_or.2 ⟨not_not.2 hf, not_not.2 hid⟩
  have hw : (s.relieved.note (.received (.headerBlock id fragment))).decoder.write fragment =
      (decoder, fields, none) := h
  have hdeliver : s.relieved.deliver (.headerBlock id fragment) =
      (s.relieved.note (.received (.headerBlock id fragment))).onHeaderBlock id fragment := rfl
  rw [effect, hdeliver, onHeaderBlock, if_neg hgo, writeDecoder, hw]
  simp only
  split <;> rfl

theorem effect_headerBlock_error (hf : s.failed = none) (hid : id = s.currentHeaderStream)
    (h : (s.decoder.write fragment).2.2 ≠ none) :
    (s.effect (.headerBlock id fragment)).state.failed ≠ none := by
  have hgo : ¬((s.relieved.note (.received (.headerBlock id fragment))).failed ≠ none ∨
      id ≠ (s.relieved.note (.received (.headerBlock id fragment))).currentHeaderStream) :=
    not_or.2 ⟨not_not.2 hf, not_not.2 hid⟩
  change ((s.relieved.note (.received (.headerBlock id fragment))).onHeaderBlock id
    fragment).failed ≠ none
  obtain ⟨err, herr⟩ := Option.ne_none_iff_exists'.1 h
  have hw : ((s.relieved.note (.received (.headerBlock id fragment))).decoder.write fragment).2.2 =
      some err := herr
  rw [onHeaderBlock, if_neg hgo, writeDecoder]
  simp only [hw]
  exact failed_connectionError _ _ _

/-- **A header block in two fragments has the effect of one.** -/
theorem alike_headerBlock (hX : X.Incremental) (id : ℕ) (fragment fragment' : Bytes) :
    Alike (s.effects [.headerBlock id fragment, .headerBlock id fragment'])
      (s.effects [.headerBlock id (fragment ++ fragment')]) := by
  by_cases hgo : s.failed ≠ none ∨ id ≠ s.currentHeaderStream
  · have hgo' : s.relieved.failed ≠ none ∨ id ≠ s.relieved.currentHeaderStream := hgo
    simp only [effects, effect_headerBlock_ignored hgo, effect_headerBlock_ignored hgo']
    exact .refl _
  obtain ⟨hf, hid⟩ := not_or.1 hgo
  rw [not_not] at hf hid
  rcases hw : s.decoder.write fragment with ⟨decoder, fields, _ | err⟩
  · have hone := effect_headerBlock hf hid hw
    have happend := HeaderDecoder.write_append hX hw fragment'
    rcases hw' : decoder.write fragment' with ⟨decoder', fields', _ | err⟩
    · rw [hw'] at happend
      have htwo := effect_headerBlock (s :=
        { s with decoder, currentHeaders := s.currentHeaders ++ fields }.relieved) hf hid hw'
      have hall := effect_headerBlock hf hid happend
      simp only [effects, Effect.andThen, hone, htwo, hall]
      refine .inr ⟨?_, rfl, fun _ => rfl⟩
      simp only [relieved, append_assoc]
    · have hone' : (decoder.write fragment').2.2 ≠ none := by
        rw [hw']
        simp
      have hall' : (s.decoder.write (fragment ++ fragment')).2.2 ≠ none := by
        rw [happend, hw']
        simp
      have htwo := effect_headerBlock_error (s :=
        { s with decoder, currentHeaders := s.currentHeaders ++ fields }.relieved) hf hid hone'
      have hall := effect_headerBlock_error hf hid hall'
      refine .inl ⟨?_, ?_⟩
      · simp only [effects, Effect.andThen, hone]
        exact htwo
      · exact hall
  · have hne : (s.decoder.write fragment).2.2 ≠ none := by rw [hw]; simp
    have hone := effect_headerBlock_error hf hid hne
    have hall := effect_headerBlock_error hf hid
      (HeaderDecoder.write_append_error hX hne fragment')
    have htwo : ((s.effect (.headerBlock id fragment)).state.effects
        [.headerBlock id fragment']).state.failed ≠ none := failed_effects hone
    exact .inl ⟨htwo, hall⟩

/-! ## Other spans -/

/-- The debug data of GOAWAY has no effect. -/
theorem effect_goAwayDebug (fragment : Bytes) :
    s.effect (.goAwayDebug fragment) = { state := s.relieved } := rfl

theorem effect_unknown_other (ht : header.type ≠ .priorityUpdate) (fragment : Bytes) :
    s.effect (.unknown header fragment) = { state := s.relieved } := by
  have hdeliver : s.relieved.deliver (.unknown header fragment) =
      s.relieved.note (.received (.unknown header fragment)) := if_neg ht
  rw [effect, hdeliver]
  rfl

/-- The octets that an extension payload may still take. -/
def extensionRoom (s : Session X) : ℤ :=
  s.limits.frame.maxFrameSize.toNat - s.extensionPayload.length

theorem extensionRoom_append (s : Session X) (fragment : Bytes) :
    { s with extensionPayload := s.extensionPayload ++ fragment }.relieved.extensionRoom =
      s.extensionRoom - fragment.length := by
  simp only [extensionRoom, relieved, length_append]
  omega

theorem effect_unknown (ht : header.type = .priorityUpdate)
    (hfits : ¬fragment.length > s.extensionRoom) :
    s.effect (.unknown header fragment) =
      { state := { s with extensionPayload := s.extensionPayload ++ fragment }.relieved } := by
  have hdeliver : s.relieved.deliver (.unknown header fragment) =
      { s.relieved.note (.received (.unknown header fragment)) with
        extensionPayload := s.extensionPayload ++ fragment } :=
    (if_pos ht).trans (if_neg hfits)
  rw [effect, hdeliver]
  rfl

theorem effect_unknown_error (ht : header.type = .priorityUpdate)
    (hbig : fragment.length > s.extensionRoom) :
    (s.effect (.unknown header fragment)).state.failed ≠ none := by
  have hdeliver : s.relieved.deliver (.unknown header fragment) =
      (s.relieved.note (.received (.unknown header fragment))).connectionError .frameSize
        "PRIORITY_UPDATE too large" := (if_pos ht).trans (if_pos hbig)
  rw [effect, hdeliver]
  exact failed_connectionError _ _ _

/-- **An extension payload in two fragments has the effect of one.** -/
theorem alike_unknown (header : FrameHeader) (fragment fragment' : Bytes) :
    Alike (s.effects [.unknown header fragment, .unknown header fragment'])
      (s.effects [.unknown header (fragment ++ fragment')]) := by
  by_cases ht : header.type = .priorityUpdate
  · have hroom := extensionRoom_append s fragment
    have hlength : ((fragment ++ fragment').length : ℤ) = fragment.length + fragment'.length := by
      rw [length_append, Nat.cast_add]
    by_cases hbig : fragment.length > s.extensionRoom
    · have hone := effect_unknown_error ht hbig
      have htwo : ((s.effect (.unknown header fragment)).state.effects
          [.unknown header fragment']).state.failed ≠ none := failed_effects hone
      exact .inl ⟨htwo, effect_unknown_error ht (by omega)⟩
    · have hone := effect_unknown ht hbig
      by_cases hbig' : fragment'.length > s.extensionRoom - fragment.length
      · rw [← hroom] at hbig'
        have htwo := effect_unknown_error ht hbig'
        refine .inl ⟨?_, effect_unknown_error ht (by omega)⟩
        simp only [effects, Effect.andThen, hone]
        exact htwo
      · rw [← hroom] at hbig'
        have htwo := effect_unknown ht hbig'
        have hall : ¬(fragment ++ fragment').length > s.extensionRoom := by omega
        refine .inr ?_
        simp only [effects, Effect.andThen, hone, htwo, effect_unknown ht hall]
        refine ⟨?_, rfl, fun _ => rfl⟩
        simp only [relieved, append_assoc]
  · have hidem : s.relieved.relieved = s.relieved := rfl
    simp only [effects, Effect.andThen, effect_unknown_other ht, hidem]
    exact .refl _

/-! ## Octet by octet -/

/-- The data of every callback fits, in the session that the callbacks before it make. -/
def EffectsFit (s : Session X) : List Callback → Prop
  | [] => True
  | call :: calls => s.DataFits call ∧ (s.effect call).state.EffectsFit calls

theorem dataFits_congr {t : Session X} (h : s.relieved = t.relieved) (call : Callback) :
    s.DataFits call ↔ t.DataFits call := by
  have hf : s.relieved.failed = t.relieved.failed := by rw [h]
  have hst : s.relieved.streams = t.relieved.streams := by rw [h]
  change s.failed = t.failed at hf
  change s.streams = t.streams at hst
  cases call <;> simp only [DataFits, stream?, hf, hst]

theorem effectsFit_congr {t : Session X} (h : s.relieved = t.relieved) (calls : List Callback) :
    s.EffectsFit calls ↔ t.EffectsFit calls := by
  cases calls with
  | nil => exact Iff.rfl
  | cons call calls => rw [EffectsFit, EffectsFit, dataFits_congr h, effect_congr h]

theorem effectsFit_append (s : Session X) (calls calls' : List Callback) :
    s.EffectsFit (calls ++ calls') ↔
      s.EffectsFit calls ∧ (s.effects calls).state.EffectsFit calls' := by
  induction calls generalizing s with
  | nil =>
    have hidem : s.relieved = s.relieved.relieved := rfl
    simp only [nil_append, EffectsFit, effects, true_and]
    exact effectsFit_congr hidem calls'
  | cons call calls ih =>
    rw [cons_append, EffectsFit, ih, EffectsFit, and_assoc]
    rfl

/-- The data of a session that has failed is not looked at. -/
theorem effectsFit_of_failed (h : s.failed ≠ none) (calls : List Callback) :
    s.EffectsFit calls := by
  induction calls generalizing s with
  | nil => trivial
  | cons call calls ih =>
    refine ⟨?_, ih (failed_deliver h)⟩
    cases call <;> first | exact trivial | exact fun hf => absurd hf h

/-- The callbacks that `mk` makes of a fragment have the effect of those of its parts. -/
structure Divisible (mk : Bytes → Callback) : Prop where
  fits : ∀ (s : Session X) {x y : Bytes}, x ≠ [] →
    (s.DataFits (mk (x ++ y)) ↔ s.DataFits (mk x) ∧ (s.effect (mk x)).state.DataFits (mk y))
  alike : ∀ (s : Session X) {x y : Bytes}, x ≠ [] → y ≠ [] → s.DataFits (mk (x ++ y)) →
    Alike (s.effects [mk x, mk y]) (s.effects [mk (x ++ y)])

theorem Divisible.octets {mk : Bytes → Callback} (h : Divisible (X := X) mk) (s : Session X)
    {x : Bytes} (hx : x ≠ []) :
    (s.DataFits (mk x) ↔ s.EffectsFit (x.map fun b => mk [b])) ∧
      (s.DataFits (mk x) → Alike (s.effects (x.map fun b => mk [b])) (s.effects [mk x])) := by
  induction x generalizing s with
  | nil => exact absurd rfl hx
  | cons b x ih =>
    by_cases hlast : x = []
    · subst hlast
      exact ⟨(and_iff_left trivial).symm, fun _ => .refl _⟩
    · have hb : [b] ≠ [] := cons_ne_nil b []
      have hsplit := h.fits s (y := x) hb
      obtain ⟨hfits, halike⟩ := ih (s.effect (mk [b])).state hlast
      refine ⟨?_, fun hall => ?_⟩
      · rw [map_cons, EffectsFit, ← hfits]
        exact hsplit
      · refine Alike.trans ?_ (h.alike s hb hlast hall)
        refine Alike.andThen (.refl _) failed_effects failed_effects fun _ => ?_
        exact halike (hsplit.1 hall).2

theorem divisible_data (id : ℕ) (endStream : Bool) :
    Divisible (X := X) fun bytes => .data id bytes endStream :=
  ⟨fun _ _ _ hne => dataFits_append hne, fun _ _ _ hne hne' hfits => alike_data hne hne' hfits⟩

theorem divisible_headerBlock (hX : X.Incremental) (id : ℕ) :
    Divisible (X := X) (.headerBlock id) :=
  ⟨fun _ _ _ _ => iff_of_true trivial ⟨trivial, trivial⟩,
    fun _ _ _ _ _ _ => alike_headerBlock hX id _ _⟩

theorem divisible_goAwayDebug : Divisible (X := X) .goAwayDebug := by
  refine ⟨fun _ _ _ _ => iff_of_true trivial ⟨trivial, trivial⟩, fun s _ _ _ _ _ => ?_⟩
  have hidem : s.relieved.relieved = s.relieved := rfl
  simp only [effects, Effect.andThen, effect_goAwayDebug, hidem]
  exact .refl _

theorem divisible_unknown (header : FrameHeader) : Divisible (X := X) (.unknown header) :=
  ⟨fun _ _ _ _ => iff_of_true trivial ⟨trivial, trivial⟩,
    fun _ _ _ _ _ _ => alike_unknown header _ _⟩

/-- A callback has the effect of its octets, one by one. -/
theorem alike_octets (hX : X.Incremental) (s : Session X) {call : Callback}
    (h : call.octets ≠ []) :
    (s.DataFits call ↔ s.EffectsFit call.octets) ∧
      (s.DataFits call → Alike (s.effects call.octets) (s.effects [call])) := by
  cases call with
  | data id bytes endStream =>
    exact (divisible_data id endStream).octets s (by simpa [Callback.octets] using h)
  | headerBlock id fragment =>
    exact (divisible_headerBlock hX id).octets s (by simpa [Callback.octets] using h)
  | goAwayDebug fragment =>
    exact divisible_goAwayDebug.octets s (by simpa [Callback.octets] using h)
  | unknown header fragment =>
    exact (divisible_unknown header).octets s (by simpa [Callback.octets] using h)
  | _ => exact ⟨(and_iff_left trivial).symm, fun _ => .refl _⟩

/-- **Callbacks have the effects of their octets, one by one.** -/
theorem alike_octetCalls (hX : X.Incremental) (s : Session X) (h : Solid calls) :
    (s.EffectsFit calls ↔ s.EffectsFit (octetCalls calls)) ∧
      (s.EffectsFit calls → Alike (s.effects (octetCalls calls)) (s.effects calls)) := by
  induction calls generalizing s with
  | nil => exact ⟨Iff.rfl, fun _ => .refl _⟩
  | cons call calls ih =>
    obtain ⟨hcall, hcalls⟩ := forall_mem_cons.1 h
    have hrest : octetCalls (call :: calls) = call.octets ++ octetCalls calls := rfl
    obtain ⟨hfit, halike⟩ := alike_octets hX s hcall
    obtain ⟨hfits, halikes⟩ := ih (s.effect call).state hcalls
    rw [hrest, effectsFit_append, effects_append, EffectsFit, ← hfit]
    refine ⟨and_congr_right fun hone => ?_, fun ⟨hone, hmore⟩ => ?_⟩
    · rw [hfits]
      rcases halike hone with ⟨hf, hf'⟩ | ⟨hstate, -, -⟩
      · exact iff_of_true (effectsFit_of_failed hf' _) (effectsFit_of_failed hf _)
      · rw [hstate]
        rfl
    · have hfirst := halike hone
      rw [effects_singleton] at hfirst
      refine hfirst.andThen failed_effects failed_effects fun hstate => ?_
      rw [hstate]
      exact halikes hmore

/-- **Callbacks with the same octets have the same effects.** -/
theorem alike_of_octets (hX : X.Incremental) {calls' : List Callback} (h : Solid calls)
    (h' : Solid calls') (hsame : octetCalls calls' = octetCalls calls)
    (hfits : s.EffectsFit calls) :
    Alike (s.effects calls') (s.effects calls) := by
  obtain ⟨hfit, halike⟩ := alike_octetCalls hX s h
  obtain ⟨hfit', halike'⟩ := alike_octetCalls hX s h'
  rw [hsame] at hfit' halike'
  exact (halike' (hfit'.2 (hfit.1 hfits))).symm.trans (halike hfits)

end Session

end WagoHttp.Http2
