import WagoHttp.Http2.Session.Feeding

/-!
# How much of a message a call sends

`SendData` sends as much as the frame size of the peer, the windows and the free output allow. Its
caller sends the rest later, so a call has to advance whenever all of these allow it to. The free
output is not looked at when the size of the frame is chosen: a frame that does not fit is refused
as a whole, although a smaller one would fit.
-/

namespace WagoHttp.Http2.Session

variable {X : Externals} {s : Session X} {id n : ℕ} {src : Bytes} {endStream : Bool} {st : Stream}

/-- What the frame size of the peer and the windows allow. -/
def windowBudget (s : Session X) (st : Stream) (src : Bytes) : ℤ :=
  min (min (min src.length s.peerMaxFrame : ℤ) s.connectionSendWindow) st.sendWindow

/-- The payload of a frame for which there is room in the output. -/
def outputRoom (s : Session X) : ℤ :=
  (s.limits.maxQueuedOutputBytes.toNat : ℤ) - s.output.length - 9

/-- What a call can send. -/
def dataBudget (s : Session X) (st : Stream) (src : Bytes) : ℤ :=
  min (s.windowBudget st src) s.outputRoom

/-- The octets of a DATA frame with the first `n` octets of `src`. -/
def dataFrame (id : ℕ) (src : Bytes) (endStream : Bool) (n : ℕ) : Bytes :=
  let flags : Flags := if n == src.length && endStream then .endStream else 0
  octetsOf (withLength ({ type := .data, flags, streamID := id }, src.take n))

/-- The call sends what it can, in one frame; if it can send nothing, it changes nothing. -/
structure Advances (s : Session X) (id : ℕ) (st : Stream) (src : Bytes) (endStream : Bool) :
    Prop where
  sends : 0 < s.dataBudget st src → ∃ t,
    s.sendData id src endStream = (t, .ok (s.dataBudget st src).toNat) ∧
      t.output = s.output ++ dataFrame id src endStream (s.dataBudget st src).toNat
  blocks : s.dataBudget st src ≤ 0 → ∃ err, s.sendData id src endStream = (s, .error err)

/-- There is room in the output for what the windows allow, or for no frame at all; and a call that
ends the stream does not fall short of the declared length. -/
structure RoomCondition (s : Session X) (st : Stream) (src : Bytes) (endStream : Bool) : Prop where
  room : 0 < s.outputRoom → s.windowBudget st src ≤ s.outputRoom
  length : 0 < s.outputRoom → s.windowBudget st src = src.length → endStream = true →
    st.sendHasLength = true → (st.sendBody + src.length) % 2 ^ 64 = st.sendLength

theorem windowBudget_le (s : Session X) (st : Stream) (src : Bytes) :
    s.windowBudget st src ≤ src.length ∧ s.windowBudget st src ≤ s.peerMaxFrame := by
  unfold windowBudget
  omega

theorem output_localEnd (s : Session X) (id : ℕ) : (s.localEnd id).output = s.output := by
  unfold localEnd
  split
  · rfl
  split
  · rfl
  · unfold closeStream releaseActive
    split
    · rfl
    split
    · rfl
    simp only
    split <;> rfl
  · rfl
  · rfl

/-- A DATA frame is refused only for want of room. -/
theorem appendFrame_data (hready : s.ready = none) {header : FrameHeader} {payload : Bytes}
    (ht : header.type = .data) (hid : header.streamID ≠ 0 ∧ header.streamID < 2 ^ 31)
    (hflags : header.flags.has .padded = false) (hzero : header.length = 0)
    (hlen : payload.length ≤ 16777215) :
    s.appendFrame header payload =
      if (payload.length : ℤ) ≤ s.outputRoom then
        ({ s with output := s.output ++ octetsOf (withLength (header, payload)) }.note
          (.sent { header with length := payload.length } payload), none)
      else (s, some .outputLimit) := by
  unfold appendFrame
  simp only [hready]
  unfold appendFrameEvenFailed
  have hroom : s.reserveOutput (9 + payload.length) = true ↔
      (payload.length : ℤ) ≤ s.outputRoom := by
    unfold reserveOutput outputRoom
    rw [decide_eq_true_iff]
    omega
  by_cases hfits : (payload.length : ℤ) ≤ s.outputRoom
  · have hvalid : validateFrameHeader { header with length := payload.length } = .none := by
      have hother : FrameType.data ≠ .settings ∧ FrameType.data ≠ .ping ∧
          FrameType.data ≠ .goAway := by decide
      simp [validateFrameHeader, ht, hid.1, hflags, hother]
    have hmax : maxFrameSize.toNat = 16777215 := rfl
    have hsize : ¬(payload.length > maxFrameSize.toNat ∨
        header.length ≠ 0 ∧ header.length ≠ payload.length ∨ header.streamID > 0x7fffffff) := by
      omega
    rw [if_pos hfits, if_neg (by simpa using hroom.2 hfits), Http2.appendFrame, if_neg hsize]
    simp only [hvalid, ne_eq, not_true_eq_false, if_false, octetsOf, withLength, List.append_assoc]
  · rw [if_neg hfits, if_pos (by simpa using fun h => hfits (hroom.1 h))]

/-- The windows, the declared length and the output all have room for the frame. -/
def Sendable (s : Session X) (st : Stream) (src : Bytes) (endStream : Bool) : Prop :=
  0 < s.windowBudget st src ∧ s.windowBudget st src ≤ s.outputRoom ∧
    (s.windowBudget st src = src.length → endStream = true → st.sendHasLength = true →
      (st.sendBody + src.length) % 2 ^ 64 = st.sendLength)

theorem sendData_cases (hdata : DataChecked s id src st) (hsrc : src ≠ [])
    (hid : id ≠ 0 ∧ id < 2 ^ 31) (hmax : s.peerMaxFrame ≤ 16777215) (endStream : Bool) :
    (∃ err, s.sendData id src endStream = (s, .error err)) ∧ ¬s.Sendable st src endStream ∨
      s.Sendable st src endStream ∧
        ∃ t, s.sendData id src endStream = (t, .ok (s.windowBudget st src).toNat) ∧
          t.output = s.output ++ dataFrame id src endStream (s.windowBudget st src).toNat := by
  unfold Sendable
  obtain ⟨hlen, hpeer⟩ := windowBudget_le s st src
  unfold sendData
  simp only [hdata.ok, if_neg hsrc]
  rw [show min (min (min (src.length : ℤ) s.peerMaxFrame) s.connectionSendWindow) st.sendWindow =
    s.windowBudget st src from rfl]
  by_cases hpos : s.windowBudget st src ≤ 0
  · rw [if_pos hpos]
    exact .inl ⟨⟨_, rfl⟩, fun h => absurd h.1 (by omega)⟩
  rw [if_neg hpos]
  generalize hn : (s.windowBudget st src).toNat = n
  have hbudget : s.windowBudget st src = n := by omega
  have htake : (src.take n).length = n := by
    rw [List.length_take]
    omega
  rw [hbudget] at hlen hpeer ⊢
  -- The declared length is looked at only if the call ends the stream.
  by_cases hshort : n = src.length ∧ endStream = true ∧ st.sendHasLength = true ∧
      (st.sendBody + src.length) % 2 ^ 64 ≠ st.sendLength
  · obtain ⟨rfl, hend, hhas, hne⟩ := hshort
    rw [if_pos (by simp only [hend, hhas, bne_iff_ne.2 hne, beq_self_eq_true, Bool.and_self])]
    exact .inl ⟨⟨_, rfl⟩, fun h => hne (h.2.2 rfl hend hhas)⟩
  have hdeclared : (n : ℤ) = src.length → endStream = true → st.sendHasLength = true →
      (st.sendBody + src.length) % 2 ^ 64 = st.sendLength := by
    intro heq hend hhas
    by_contra hne
    exact hshort ⟨by omega, hend, hhas, hne⟩
  rw [if_neg (by
    simp only [Bool.and_eq_true, beq_iff_eq, bne_iff_ne, not_and, not_not]
    rintro ⟨⟨rfl, hend⟩, hhas⟩
    exact hdeclared rfl hend hhas)]
  rw [dataFrame]
  generalize (n == src.length && endStream) = last
  have hflags : (if last = true then Flags.endStream else 0).has .padded = false := by
    cases last <;> decide
  rw [appendFrame_data hdata.ready rfl hid hflags rfl (by omega), htake]
  by_cases hroom : (n : ℤ) ≤ s.outputRoom
  · simp only [if_pos hroom]
    refine .inr ⟨⟨by omega, hroom, hdeclared⟩, _, rfl, ?_⟩
    cases last with
    | false => rfl
    | true => exact output_localEnd _ id
  · simp only [if_neg hroom]
    exact .inl ⟨⟨_, rfl⟩, fun h => hroom h.2.1⟩

/-- **A call of `SendData` makes all the progress it can**, in a session after any run, exactly if
the output has room for all that the windows allow or for no frame at all, and the call does not end
the stream short of the declared length. DATA may be sent on the stream, and `src` is within the
declared length. -/
theorem sendData_advances_iff {role : Role} {limits : SessionLimits} {s₀ : Session X}
    (hnew : newSession X role limits = .ok s₀) (ops : List Op)
    (hdata : DataChecked (s₀.run ops) id src st) (hsrc : src ≠ []) :
    (s₀.run ops).Advances id st src endStream ↔ (s₀.run ops).RoomCondition st src endStream := by
  have hsteady := steady_run hnew ops
  generalize s₀.run ops = s at hdata hsteady ⊢
  have hopened := (hsteady.wellFormed.ids.opened id st hdata.stream).1
  have hid : id ≠ 0 ∧ id < 2 ^ 31 :=
    ⟨hsteady.wellFormed.ids.ne_zero id hopened, hsteady.bounded.ids id hopened⟩
  have hpos : (0 : ℤ) < src.length := by
    have := List.length_pos_of_ne_nil hsrc
    omega
  obtain ⟨⟨err, herr⟩, hnot⟩ | ⟨⟨hbudget, hroom, hdeclared⟩, t, ht, hout⟩ :=
    sendData_cases hdata hsrc hid hsteady.bounded.maxFrame.2 endStream
  · constructor
    · rintro ⟨hsends, -⟩
      have hle : s.dataBudget st src ≤ 0 := by
        by_contra hlt
        obtain ⟨t, ht, -⟩ := hsends (by omega)
        rw [herr] at ht
        cases ht
      unfold dataBudget at hle
      exact ⟨fun h => by omega, fun h heq => by omega⟩
    · rintro ⟨hroom, hlength⟩
      have hle : s.dataBudget st src ≤ 0 := by
        by_contra hlt
        unfold dataBudget at hlt
        exact hnot ⟨by omega, hroom (by omega), hlength (by omega)⟩
      exact ⟨fun h => absurd h (by omega), fun _ => ⟨err, herr⟩⟩
  · have heq : s.dataBudget st src = s.windowBudget st src := by
      unfold dataBudget
      omega
    refine iff_of_true ⟨fun _ => ⟨t, ?_, ?_⟩, fun h => ?_⟩ ⟨fun _ => hroom, fun _ => hdeclared⟩
    · rw [heq]
      exact ht
    · rw [heq]
      exact hout
    · omega

/-- A client whose output takes 106 octets. A request leaves room for a frame of 4 octets. -/
def narrowLimits : SessionLimits :=
  { maxQueuedOutputBytes := 106, header := { maxHeaderListBytes := 3 } }

def openPost : List Op := [.call (.openStream SmallHpack.getRequest false)]

theorem ok_of_toOption {r : Except SessionError Stream} (h : r.toOption = some st) :
    r = .ok st := by
  cases r with
  | error => cases h
  | ok => exact congrArg _ (Option.some.inj h)

/-- Four octets of a body fit. -/
theorem sendData_advances_four :
    ∃ s, newSession SmallHpack.externals .client narrowLimits = .ok s ∧
      ∃ st, DataChecked (s.run openPost) 1 [1, 2, 3, 4] st ∧
        (s.run openPost).Advances 1 st [1, 2, 3, 4] true := by
  obtain ⟨s, hnew, hcheck⟩ := exists_newSession (X := SmallHpack.externals) (r := .client)
    (l := narrowLimits) (p := fun s =>
      ((s.run openPost).checkSendData 1 [1, 2, 3, 4]).toOption.any (fun st =>
        (s.run openPost).windowBudget st [1, 2, 3, 4] ≤ (s.run openPost).outputRoom ∧
          st.sendHasLength = false) = true) (by decide +kernel)
  obtain ⟨st, hst, hroom⟩ := Option.any_eq_true .. |>.1 hcheck
  obtain ⟨hle, hhas⟩ := of_decide_eq_true hroom
  have hdata := dataChecked (ok_of_toOption hst)
  refine ⟨s, hnew, st, hdata, (sendData_advances_iff hnew openPost hdata (by decide)).2 ?_⟩
  exact ⟨fun _ => hle, fun _ _ _ h => absurd h (by simp [hhas])⟩

/-- Of five octets none is sent, although there is room for four. -/
theorem sendData_stuck :
    ∃ s, newSession SmallHpack.externals .client narrowLimits = .ok s ∧
      ∃ st, DataChecked (s.run openPost) 1 [1, 2, 3, 4, 5] st ∧
        (s.run openPost).dataBudget st [1, 2, 3, 4, 5] = 4 ∧
          ((s.run openPost).sendData 1 [1, 2, 3, 4, 5] false).2 = .error .outputLimit ∧
          ¬(s.run openPost).Advances 1 st [1, 2, 3, 4, 5] false := by
  obtain ⟨s, hnew, hcheck, herr⟩ := exists_newSession (X := SmallHpack.externals) (r := .client)
    (l := narrowLimits) (p := fun s =>
      ((s.run openPost).checkSendData 1 [1, 2, 3, 4, 5]).toOption.any (fun st =>
        (s.run openPost).dataBudget st [1, 2, 3, 4, 5] = 4) = true ∧
      ((s.run openPost).sendData 1 [1, 2, 3, 4, 5] false).2 = .error .outputLimit)
    (by decide +kernel)
  obtain ⟨st, hst, hbudget⟩ := Option.any_eq_true .. |>.1 hcheck
  have hbudget := of_decide_eq_true hbudget
  refine ⟨s, hnew, st, dataChecked (ok_of_toOption hst), hbudget, herr, fun h => ?_⟩
  obtain ⟨t, ht, -⟩ := h.sends (by omega)
  rw [ht] at herr
  cases herr

end WagoHttp.Http2.Session
