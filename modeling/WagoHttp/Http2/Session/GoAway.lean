import WagoHttp.Http2.Session.Run

/-!
# What a GOAWAY frame says

A GOAWAY frame names the last stream of the peer that the session has processed. A peer will repeat
its requests on later streams, so no part of a message on a later stream may reach the owner. The
session names the last stream that has ended, of whichever side, and goes on accepting streams after
the frame. What the frame says is true in the runs in which it is sent when no later stream of the
peer has been reported, and in which nothing comes on a later one after it (`GoAwayCondition`).
-/

namespace WagoHttp.Http2

open Runs SmallHpack List

/-- The last stream that the payload of a GOAWAY frame names. -/
def goAwayLastStream (payload : Bytes) : ℕ := beNat (payload.take 4)

/-- The last stream that is named, if a GOAWAY frame was sent. -/
def Obs.named : Obs → Option ℕ
  | .sent header payload => if header.type = .goAway then some (goAwayLastStream payload) else none
  | _ => none

theorem goAwayLastStream_append {id : ℕ} (h : id < 2 ^ 32) (rest : Bytes) :
    goAwayLastStream (putUint32 id ++ rest) = id := by
  have : (putUint32 id ++ rest).take 4 = putUint32 id := rfl
  rw [goAwayLastStream, this, beNat_putUint32 h]

namespace Endpoint

variable {X : Externals} {a : Action} {e₀ e e' : Endpoint X}

/-- Every part of a message on a stream of the peer came on a stream up to `last`. -/
def ReportedUpTo (e : Endpoint X) (last : ℕ) : Prop :=
  ∀ event ∈ messageEvents e.history, ¬e.role.initiates event.streamID → event.streamID ≤ last

/-- What a GOAWAY frame that names `last` says. -/
def Names (e : Endpoint X) (last : ℕ) : Prop :=
  (last = 0 ∨ ¬e.role.initiates last) ∧ e.ReportedUpTo last

/-- What every GOAWAY frame says that has been sent is true. -/
structure Truthful (e : Endpoint X) : Prop where
  opened : ∀ id, .opened id ∈ e.history → id < 2 ^ 31
  processed : e.lastProcessed < 2 ^ 31
  sent : ∀ o ∈ e.history, ∀ last ∈ o.named, e.Names last

/-- What an action has to meet, in the endpoint that finds it and with the history it leaves: if it
sends GOAWAY, what the frame says is true; after GOAWAY, nothing comes on a later stream. -/
structure Timely (a : Action) (e₀ : Endpoint X) (history : List Obs) : Prop where
  bound : ∀ id, a.opensPeer id → id < 2 ^ 31
  last : (∃ o ∈ history.drop e₀.history.length, o.named.isSome) → e₀.Names e₀.lastProcessed
  later : e₀.failed = false → ∀ o ∈ e₀.history, ∀ last ∈ o.named, ∀ id, a.delivers id →
    ¬e₀.role.initiates id → id ≤ e₀.lastPeer → id ≤ last

variable {history : List Obs} {event : Event} {o : Obs}

theorem mem_messageEvents :
    event ∈ messageEvents history ↔ .queued event ∈ history ∧ event.isMessage := by
  simp only [messageEvents, mem_filterMap]
  constructor
  · rintro ⟨o, ho, h⟩
    cases o with
    | queued event' =>
      simp only at h
      split_ifs at h with hm
      cases h
      exact ⟨ho, hm⟩
    | _ => cases h
  · rintro ⟨ho, hm⟩
    exact ⟨_, ho, by simp [hm]⟩

/-- What an action leaves in order while it runs. -/
structure Along (a : Action) (e₀ e : Endpoint X) : Prop where
  history : e₀.history <+: e.history
  role : e.role = e₀.role
  failed : e.failed = false → e₀.failed = false
  lastPeer : (∃ id, a.delivers id) → e.lastPeer = e₀.lastPeer
  sent : ∀ o ∈ e.history, o.named ≠ none → o ∈ e₀.history ∨ e.failed = true ∨ ∃ call, a = .call call

theorem Along.refl (a : Action) (e₀ : Endpoint X) : Along a e₀ e₀ :=
  ⟨prefix_rfl, rfl, id, fun _ => rfl, fun _ ho _ => .inl ho⟩

/-- Entries that are no GOAWAY frames. -/
theorem Along.note (h : Along a e₀ e) (ho : o.named = none) : Along a e₀ (e.note o) := by
  refine ⟨h.history.trans (prefix_append _ _), h.role, h.failed, h.lastPeer, fun o' ho' hgo => ?_⟩
  rcases mem_note.1 ho' with ho' | rfl
  · exact h.sent o' ho' hgo
  · exact absurd ho hgo

theorem not_opensPeer_of_delivers {id id' : ℕ} (h : a.delivers id) : ¬a.opensPeer id' := by
  rintro (⟨_, rfl, -⟩ | ⟨_, rfl⟩) <;> rcases h with ⟨_, _, h⟩ | ⟨_, h, -⟩ | ⟨_, _, h⟩ <;> cases h

theorem named_of_noted (h : Noted a e₀ e o) : o.named = none := by
  cases o with
  | sent header payload =>
    refine if_neg fun ht => ?_
    rcases h with h | ⟨h, -⟩ | ⟨h, -⟩ | ⟨h, -⟩
    · rcases h with h | h | h | h <;> exact absurd (ht.symm.trans h) (by decide)
    · rcases h with h | h | h <;> exact absurd (ht.symm.trans h) (by decide)
    · exact absurd (ht.symm.trans h) (by decide)
    · exact absurd (ht.symm.trans h) (by decide)
  | _ => rfl

theorem named_of_data {header : FrameHeader} {payload : Bytes} (ht : header.type = .data) :
    (Obs.sent header payload).named = none := if_neg (by rw [ht]; decide)

theorem Along.step (hs : Step a e₀ e e') (h : Along a e₀ e) : Along a e₀ e' := by
  have hfail : ∀ streams, Along a e₀ { e with streams, failed := true } := fun _ =>
    ⟨h.1, h.2, nofun, h.4, fun _ _ _ => .inr (.inl rfl)⟩
  cases hs with
  | note ho => exact h.note (named_of_noted ho)
  | openPeer ha =>
    refine Along.note ?_ rfl
    exact ⟨h.1, h.2, h.3, fun ⟨_, hd⟩ => absurd ha (not_opensPeer_of_delivers hd), h.5⟩
  | openLocal => exact Along.note ⟨h.1, h.2, h.3, h.4, h.5⟩ rfl
  | sendData _ _ _ _ _ _ ht => exact Along.note ⟨h.1, h.2, h.3, h.4, h.5⟩ (named_of_data ht)
  | raise => exact Along.note ⟨h.1, h.2, h.3, h.4, h.5⟩ rfl
  | raiseStream => exact Along.note ⟨h.1, h.2, h.3, h.4, h.5⟩ rfl
  | overflow => exact Along.note ⟨h.1, h.2, h.3, h.4, h.5⟩ rfl
  | fail => exact (hfail _).note rfl
  | failAdjusted => exact (hfail _).note rfl
  | failRaise => exact ((hfail _).note rfl).note rfl
  | goAway _ _ _ hf =>
    refine ⟨h.history.trans (prefix_append _ _), h.role, h.failed, h.lastPeer,
      fun o ho hgo => .inr ?_⟩
    exact hf.imp_right fun ⟨code, debug, ha⟩ => ⟨_, ha⟩
  | _ => exact ⟨h.1, h.2, h.3, h.4, h.5⟩

/-- An entry after which every frame still says the truth, itself included. -/
theorem Truthful.noted (h : e.Truthful) (hopen : ∀ id, o = .opened id → id < 2 ^ 31)
    (hold : ∀ last, (∃ o ∈ e.history, last ∈ o.named) → e.Names last → (e.note o).Names last)
    (hnew : ∀ last ∈ o.named, (e.note o).Names last) : (e.note o).Truthful := by
  refine ⟨fun id hid => ?_, h.processed, fun o' ho' last hlast => ?_⟩
  · exact (mem_note.1 hid).elim (h.opened id) fun heq => hopen id heq.symm
  · rcases mem_note.1 ho' with ho' | rfl
    · exact hold last ⟨o', ho', hlast⟩ (h.sent o' ho' last hlast)
    · exact hnew last hlast

/-- An entry that does not report a message. -/
theorem Names.note {last : ℕ} (h : e.Names last)
    (hm : ∀ event, o = .queued event → ¬event.isMessage) : (e.note o).Names last :=
  ⟨h.1, fun event hev => h.2 event (Session.messageEvents_append hm ▸ hev)⟩

theorem Truthful.note (h : e.Truthful) (hopen : ∀ id, o = .opened id → id < 2 ^ 31)
    (ho : o.named = none) (hm : ∀ event, o = .queued event → ¬event.isMessage) :
    (e.note o).Truthful :=
  h.noted hopen (fun _ _ hn => hn.note hm) (by simp [ho])

/-- A part of a message reaches the owner. -/
theorem Truthful.report (h : e.Truthful) (hle : ¬e.role.initiates event.streamID →
    ∀ o ∈ e.history, ∀ last ∈ o.named, event.streamID ≤ last) :
    (e.note (.queued event)).Truthful := by
  refine h.noted nofun (fun last ⟨o, ho, hlast⟩ hn => ⟨hn.1, fun event' hev hrole => ?_⟩) nofun
  obtain ⟨hq, hm⟩ := mem_messageEvents.1 hev
  rcases mem_note.1 hq with hq | hq
  · exact hn.2 event' (mem_messageEvents.2 ⟨hq, hm⟩) hrole
  · cases hq
    exact hle hrole o ho last hlast

/-- What is appended after `l` is beyond the entries of a beginning of `l`. -/
theorem mem_drop_of_append {l l' : List Obs} (h : l ++ [o] <+: history) (hl : l' <+: l) :
    o ∈ history.drop l'.length := by
  obtain ⟨t, rfl⟩ := h
  obtain ⟨u, rfl⟩ := hl
  simp [append_assoc]

/-- **What a GOAWAY frame says stays true** under every change of a timely action. -/
theorem Truthful.step (hs : Step a e₀ e e') (hw : e'.history <+: history) (hT : Timely a e₀ history)
    (halong : Along a e₀ e) (hid : e.IdSpace) (h : e.Truthful) : e'.Truthful := by
  cases hs with
  | @note o ho =>
    by_cases hm : ∃ event, o = .queued event ∧ event.isMessage
    · obtain ⟨event, rfl, hm⟩ := hm
      obtain ⟨hf, hdel, hopen⟩ := ho hm
      refine h.report fun hrole o ho last hlast => ?_
      have hle := halong.lastPeer ⟨_, hdel⟩ ▸ hid.peer_le _ hopen hrole
      rcases halong.sent o ho (by rw [hlast]; nofun) with ho | hfail | ⟨call, rfl⟩
      · exact hT.later (halong.failed hf) o ho last hlast _ hdel (halong.role ▸ hrole) hle
      · exact absurd (hf.symm.trans hfail) (by decide)
      · rcases hdel with ⟨_, _, h⟩ | ⟨_, h, -⟩ | ⟨_, _, h⟩ <;> cases h
    · exact h.note (by rintro id rfl; exact ho.elim) (named_of_noted ho)
        fun event heq hmsg => hm ⟨event, heq, hmsg⟩
  | @openPeer id st ha =>
    refine Truthful.note ⟨h.1, h.2, h.3⟩ ?_ rfl (by simp)
    rintro _ ⟨⟩
    exact hT.bound id ha
  | openLocal _ _ _ _ hlt =>
    refine Truthful.note ⟨h.1, h.2, h.3⟩ ?_ rfl (by simp)
    rintro _ ⟨⟩
    exact hlt
  | processed _ hopen => exact ⟨h.1, max_lt h.2 (h.1 _ hopen), h.3⟩
  | sendData _ _ _ _ _ _ ht => exact Truthful.note ⟨h.1, h.2, h.3⟩ nofun (named_of_data ht) (by simp)
  | raise => exact Truthful.note ⟨h.1, h.2, h.3⟩ nofun rfl (by simp)
  | raiseStream => exact Truthful.note ⟨h.1, h.2, h.3⟩ nofun rfl (by simp)
  | overflow => exact Truthful.note ⟨h.1, h.2, h.3⟩ nofun rfl (by simp)
  | fail => exact Truthful.note ⟨h.1, h.2, h.3⟩ nofun rfl (by simp)
  | failAdjusted => exact Truthful.note ⟨h.1, h.2, h.3⟩ nofun rfl (by simp)
  | failRaise =>
    exact Truthful.note (Truthful.note ⟨h.1, h.2, h.3⟩ nofun rfl (by simp)) nofun rfl (by simp)
  | @goAway rest header ht hp hm =>
    have hnamed : (Obs.sent header (putUint32 e.lastProcessed ++ rest)).named =
        some e₀.lastProcessed := by
      refine (if_pos ht).trans ?_
      rw [goAwayLastStream_append (h.processed.trans (by norm_num)), hp]
    obtain ⟨hpeer, hreported⟩ := hT.last ⟨_, mem_drop_of_append hw halong.history, by simp [hnamed]⟩
    refine h.noted nofun (fun _ _ hn => hn.note (by simp)) fun last hlast => Names.note ?_ (by simp)
    cases Option.mem_unique hlast hnamed
    refine ⟨halong.role ▸ hpeer, fun event hev => ?_⟩
    rw [hm] at hev
    exact halong.role ▸ hreported event hev
  | _ => exact ⟨h.1, h.2, h.3⟩

theorem Truthful.steps {f : Endpoint X} (hs : Steps a e e f) (hT : Timely a e f.history)
    (hid : e.IdSpace) (h : e.Truthful) : f.Truthful :=
  (hs.invariant_within (I := fun e' => Along a e e' ∧ e'.IdSpace ∧ e'.Truthful)
    (fun hstep hw hI => ⟨hI.1.step hstep, IdSpace.step hstep hI.2.1,
      Truthful.step hstep hw hT hI.1 hI.2.1 hI.2.2⟩) ⟨.refl a e, hid, h⟩).2.2

end Endpoint

namespace Session

open Endpoint

variable {X : Externals} {s : Session X}

/-- GOAWAY is sent only when the last stream that has ended is none or one of the peer, and no part
of a message on a later stream of the peer has been reported. After it, nothing comes on a later
stream that the peer has opened; the stream of a header block is not known from its end, so at the
end of a block there is no later one. -/
def GoAwayCondition (s : Session X) (a : Action) : Prop :=
  ((∃ o ∈ (s.act a).history.drop s.history.length, o.named.isSome) →
    s.endpoint.Names s.lastProcessedPeerStream) ∧
  (s.failed = none → ∀ o ∈ s.history, ∀ last ∈ o.named,
    match a with
    | .deliver (.headerBlockEnd _ _) => s.lastPeerStream ≤ last
    | .deliver (.data id _ _) => ¬s.role.initiates id → id ≤ s.lastPeerStream → id ≤ last
    | .deliver (.frameComplete header) =>
      ¬s.role.initiates header.streamID → header.streamID ≤ s.lastPeerStream → header.streamID ≤ last
    | _ => True)

instance (s : Session X) (a : Action) : Decidable (s.GoAwayCondition a) := by
  have (last : ℕ) : Decidable (s.endpoint.Names last) :=
    inferInstanceAs (Decidable ((last = 0 ∨ ¬s.role.initiates last) ∧ ∀ event ∈ _, _))
  induction a using Action.casesOn with
  | deliver call =>
    induction call using Callback.casesOn <;> (dsimp only [GoAwayCondition]; infer_instance)
  | _ => dsimp only [GoAwayCondition]; infer_instance

theorem timely_of_condition {a : Action} (ha : s.Allows a) (hok : s.GoAwayCondition a) :
    Timely a s.endpoint (s.act a).history := by
  refine ⟨fun id => lt_of_opensPeer ha, hok.1, fun hf o ho last hlast id hdel hr hle => ?_⟩
  have hlater := hok.2 (by simpa [endpoint] using hf) o ho last hlast
  rcases hdel with ⟨data, endStream, rfl⟩ | ⟨header, rfl, rfl⟩ | ⟨streamID, endStream, rfl⟩
  · exact hlater hr hle
  · exact hlater hr hle
  · exact hle.trans hlater

variable {role : Role} {limits : SessionLimits}

theorem truthful_newSession (h : newSession X role limits = .ok s) : s.endpoint.Truthful := by
  obtain ⟨output, header, payload, ht, rfl⟩ := newSession_ok h
  refine ⟨by simp [endpoint], by simp [endpoint, init], fun o ho last hlast => ?_⟩
  cases mem_singleton.1 ho
  rw [Obs.named, if_neg (by rw [ht]; decide)] at hlast
  cases hlast

theorem role_step {a : Action} {e₀ e e' : Endpoint X} (hs : Step a e₀ e e') : e'.role = e.role := by
  cases hs <;> rfl

theorem role_act {a : Action} (hw : s.WellFormed) (ha : s.Allows a) : (s.act a).role = s.role :=
  (hw.reaches ha).invariant (I := fun e => e.role = s.role)
    (fun hs he => (role_step hs).trans he) rfl

theorem role_newSession (h : newSession X role limits = .ok s) : s.role = role := by
  obtain ⟨output, header, payload, -, rfl⟩ := newSession_ok h
  rfl

end Session

end WagoHttp.Http2
