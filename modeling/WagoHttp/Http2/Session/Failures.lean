import WagoHttp.Http2.Session.Feeding

/-!
# Calls that fail

A call of the owner that returns an error is to leave the session as it was. All but two do: opening
and pushing a stream take the next identifier before they encode the section, and keep it when that
fails.
-/

namespace WagoHttp.Http2.Session

open SmallHpack

variable {X : Externals} {s : Session X} {call : Call}

/-- What a call that fails is to leave as it was. -/
def retained (s : Session X) :=
  (s.output, s.stream?, s.activeLocal, s.activePeer, s.nextLocalStream, s.connectionSendWindow,
    s.connectionRecvWindow, s.limits, s.parser.limits, s.localHeaderTable,
    s.localSettingsOutstanding)

/-- The error that a call returns. The calls that drain a queue or end the session are left out. -/
def callError (s : Session X) : Call → Option SessionError
  | .openStream headers endStream => errorOf (s.openStream headers endStream).2
  | .pushPromise parent headers => errorOf (s.pushPromise parent headers).2
  | .priorityUpdate id value => (s.priorityUpdate id value).2
  | .sendHeaders id headers endStream => (s.sendHeaders id headers endStream).2
  | .sendData id src endStream => errorOf (s.sendData id src endStream).2
  | .resetStream id code => (s.resetStream id code).2
  | .updateSettings settings => (s.updateSettings settings).2
  | .ping data => (s.ping data).2
  | .goAway code debug => (s.goAway code debug).2
  | .finish | .consumeOutput _ | .nextEvent | .close => none

/-- There is an identifier for a new stream, and room for the stream. -/
def HasIdentifier (s : Session X) : Prop :=
  ¬(s.nextLocalStream = 0 ∨ s.nextLocalStream > maxInt32) ∧
    s.activeLocal < s.peerMaxConcurrent ∧ s.streamCount < s.limits.maxStreams.toNat

/-- The call gets as far as taking an identifier. -/
def TakesIdentifier (s : Session X) : Call → Prop
  | .openStream _ _ =>
    (s.goAwayReceived || s.goAwaySent) = false ∧ s.role = .client ∧ s.HasIdentifier
  | .pushPromise parent headers =>
    (s.role ≠ .server || !s.limits.enablePush || !s.peerEnablePush) = false ∧
      (s.stream? parent).any (canSend ·.state) = true ∧ s.HasIdentifier ∧
        validateHeaderSection .client true false headers s.limits.enableExtendedConnect = true
  | _ => False

instance (s : Session X) : Decidable s.HasIdentifier := inferInstanceAs (Decidable (_ ∧ _))

instance (s : Session X) (call : Call) : Decidable (s.TakesIdentifier call) := by
  unfold TakesIdentifier
  split <;> infer_instance

/-- The session after a call, if the call fails. -/
def Retains (s : Session X) (r : Session X × Option SessionError) : Prop :=
  r.2 ≠ none → r.1.retained = s.retained

theorem Retains.same (err : Option SessionError) : Retains s (s, err) := fun _ => rfl

theorem retains_andThen {w : Session X × Option SessionError} {f : Session X → Session X} :
    Retains s w → Retains s (match w with
      | (t, some err) => (t, some err)
      | (t, none) => (f t, none)) := by
  obtain ⟨t, _ | err⟩ := w
  · exact fun _ hne => absurd rfl hne
  · exact fun h => h

theorem retains_appendFrameEvenFailed (s : Session X) (header : FrameHeader) (payload : Bytes) :
    Retains s (s.appendFrameEvenFailed header payload) := by
  obtain ⟨err, h⟩ | ⟨-, -, -, -, h⟩ := appendFrameEvenFailed_cases s header payload
  · rw [h]
    exact .same _
  · rw [h]
    exact fun hne => absurd rfl hne

theorem retains_appendFrame (s : Session X) (header : FrameHeader) (payload : Bytes) :
    Retains s (s.appendFrame header payload) := by
  unfold appendFrame
  split
  · exact .same _
  · exact retains_appendFrameEvenFailed s header payload

theorem retains_updateSettings (s : Session X) (settings : List Setting) :
    Retains s (s.updateSettings settings) := by
  unfold updateSettings
  split
  · exact .same _
  split
  · exact .same _
  split
  · exact .same _
  simp only
  split
  · exact .same _
  split
  · exact .same _
  split
  · exact .same _
  next decoder _ =>
  have h : Retains s (appendSettings { s with decoder } settings false) :=
    retains_appendFrameEvenFailed { s with decoder } _ _
  exact retains_andThen h

/-- A call that takes no identifier keeps everything when it fails. -/
theorem retains_call (hids : s.endpoint.IdSpace) (hb : Bounded s.endpoint)
    (hcall : ∀ headers endStream, call ≠ .openStream headers endStream)
    (hcall' : ∀ parent headers, call ≠ .pushPromise parent headers) :
    Retains s (s.call call, s.callError call) := by
  cases call with
  | openStream headers endStream => exact absurd rfl (hcall headers endStream)
  | pushPromise parent headers => exact absurd rfl (hcall' parent headers)
  | priorityUpdate id value =>
    change Retains s (s.priorityUpdate id value)
    unfold priorityUpdate
    split
    · exact .same _
    · exact retains_appendFrame s _ _
  | sendHeaders id headers endStream =>
    change Retains s (s.sendHeaders id headers endStream)
    obtain ⟨encoder, block, err, h, -⟩ | ⟨-, -, st, -, h⟩ :=
      sendHeaders_cases headers endStream hb.maxFrame fun _ => hb.id_of_stream hids
    · rw [h]
      exact fun _ => rfl
    · rw [h]
      exact fun hne => absurd rfl hne
  | sendData id src endStream =>
    have hsends := sendsData s id src endStream
    simp only [Session.call, callError]
    generalize s.sendData id src endStream = r at hsends
    cases hsends with
    | nothing r => exact .same _
    | empty | data => exact fun hne => absurd rfl hne
  | resetStream id code =>
    change Retains s (s.resetStream id code)
    unfold resetStream
    split
    · exact .same _
    split
    · exact .same _
    · exact retains_andThen (retains_appendFrame s _ _)
  | updateSettings settings => exact retains_updateSettings s settings
  | ping data => exact retains_appendFrame s _ _
  | goAway code debug =>
    change Retains s (s.goAway code debug)
    unfold goAway
    split
    · exact .same _
    · exact retains_andThen (retains_appendFrame s _ _)
  | finish | consumeOutput | nextEvent | close => exact fun hne => absurd rfl hne

/-- A call that fails keeps everything, or everything but the next identifier. -/
theorem retained_call (hids : s.endpoint.IdSpace) (hb : Bounded s.endpoint)
    (herr : s.callError call ≠ none) :
    (¬s.TakesIdentifier call ∧ (s.call call).retained = s.retained) ∨
      (s.TakesIdentifier call ∧ (s.call call).retained =
        ({ s with nextLocalStream := s.nextLocalStream + 2 } : Session X).retained) := by
  have hlt (h : ¬(s.nextLocalStream = 0 ∨ s.nextLocalStream > maxInt32)) :
      s.nextLocalStream < 2 ^ 31 ∧ s.nextLocalStream ≠ 0 :=
    ⟨lt_of_not_exhausted h, fun hz => h (.inl hz)⟩
  cases call with
  | openStream headers endStream =>
    simp only [callError, Session.call, TakesIdentifier, HasIdentifier] at herr ⊢
    unfold openStream at herr ⊢
    split_ifs at herr ⊢ with h1 h2 h3 h4 h5
    iterate 5 exact .inl ⟨fun h => by simp_all <;> omega, rfl⟩
    refine .inr ⟨⟨by simpa using h1, not_not.1 h2, h3, by omega, by omega⟩, ?_⟩
    obtain ⟨encoder, block, err, h, -⟩ | ⟨-, -, st, -, h⟩ := sendHeaders_cases (s := s.addLocal)
      headers endStream hb.maxFrame fun _ _ => hlt h3
    · simp only [h]
      refine Prod.ext rfl (Prod.ext (funext fun id => ?_) (Prod.ext (Nat.add_sub_cancel ..) rfl))
      change ((s.streams.insert _ _).erase _).lookup id = s.streams.lookup id
      by_cases hid : id = s.nextLocalStream
      · subst hid
        rw [AList.lookup_erase]
        exact (stream_nextLocal hids).symm
      · rw [AList.lookup_erase_ne hid, AList.lookup_insert_ne hid]
    · simp only [h, errorOf, ne_eq, not_true_eq_false] at herr
  | pushPromise parent headers =>
    simp only [callError, Session.call, TakesIdentifier, HasIdentifier] at herr ⊢
    unfold pushPromise at herr ⊢
    split_ifs at herr ⊢ with h1 h2 h3 h4 h5 h6
    iterate 6 exact .inl ⟨fun h => by simp_all <;> omega, rfl⟩
    have hparent : (s.stream? parent).any (canSend ·.state) = true := by simpa using h2
    refine .inr ⟨⟨by simpa using h1, hparent, ⟨h3, by omega, by omega⟩, by simpa using h6⟩, ?_⟩
    obtain ⟨st, hst, -⟩ := Option.any_eq_true .. |>.1 hparent
    obtain ⟨hid, hz⟩ := hb.id_of_stream hids hst
    obtain ⟨encoder, block, err, h, -⟩ | ⟨-, -, h⟩ := encodeAndAppendHeaders_cases
      (s := { s with nextLocalStream := s.nextLocalStream + 2 }) s.nextLocalStream headers false
      (.inr rfl) hb.maxFrame hid hz
    · simp only [h]
      rfl
    · simp only [h, errorOf, ne_eq, not_true_eq_false] at herr
  | _ => exact .inl ⟨fun h => h, retains_call hids hb (by simp) (by simp) herr⟩

/-- **A call that fails changes nothing**, exactly if it is not one that has taken an identifier for
a new stream. -/
theorem failed_call_retains_iff {role : Role} {limits : SessionLimits} {s₀ : Session X}
    (hnew : newSession X role limits = .ok s₀) (ops : List Op)
    (herr : (s₀.run ops).callError call ≠ none) :
    ((s₀.run ops).call call).retained = (s₀.run ops).retained ↔
      ¬(s₀.run ops).TakesIdentifier call := by
  have hsteady := steady_run hnew ops
  generalize s₀.run ops = s at herr hsteady ⊢
  obtain ⟨hnot, h⟩ | ⟨htakes, h⟩ := retained_call hsteady.wellFormed.ids hsteady.bounded herr
  · exact iff_of_true h hnot
  · refine iff_of_false (fun heq => ?_) (not_not.2 htakes)
    have hnext := congrArg (·.2.2.2.2.1) (h.symm.trans heq)
    simp only [retained] at hnext
    omega

def openPending : List Op := [.call (.openStream getRequest false)]

/-- A client with an open request sends its fields again, and the stream is not ended by them. -/
theorem failed_call_retains_again :
    ∃ s, newSession externals .client {} = .ok s ∧ ((s.run openPending).stream? 1).isSome ∧
      (s.run openPending).callError (.sendHeaders 1 getRequest false) = some .invalidHeaders ∧
        ((s.run openPending).call (.sendHeaders 1 getRequest false)).retained =
          (s.run openPending).retained := by
  obtain ⟨s, hnew, hopen, herr⟩ := exists_newSession (X := externals) (r := .client) (l := {})
    (p := fun s => ((s.run openPending).stream? 1).isSome ∧
      (s.run openPending).callError (.sendHeaders 1 getRequest false) = some .invalidHeaders)
    (by decide +kernel)
  exact ⟨s, hnew, hopen, herr, (failed_call_retains_iff hnew _ (by simp [herr])).2 fun h => h⟩

/-- A client opens a stream without fields: the call fails, and its identifier is gone. -/
theorem failed_openStream_takes :
    ∃ s, newSession externals .client {} = .ok s ∧
      s.callError (.openStream [] true) = some .invalidHeaders ∧ s.nextLocalStream = 1 ∧
        (s.call (.openStream [] true)).nextLocalStream = 3 :=
  exists_newSession (X := externals) (r := .client) (l := {})
    (p := fun s => s.callError (.openStream [] true) = some .invalidHeaders ∧
      s.nextLocalStream = 1 ∧ (s.call (.openStream [] true)).nextLocalStream = 3) (by decide +kernel)

end WagoHttp.Http2.Session
