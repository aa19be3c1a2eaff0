import WagoHttp.Http2.Session.Merging

/-!
# Fragmentation of the octets that a session is fed

Whether octets reach `Feed` in one call or in many, the frame parser finds the same frames in them
and makes the same callbacks, up to the cuts of their fragments. So the session does the same, as
long as the limits of its queues are not in the way and no data exceeds the length that was
announced for it.
-/

namespace WagoHttp.Http2

open Runs List SmallHpack

namespace Parser

variable {c p : Parser} {acc src rest : Bytes} {r : Parsed} {fs : List Bytes}

/-- The parser is in the frame that begins with `acc`, after the frames that led to `c`. -/
structure Placed (p c : Parser) (acc : Bytes) : Prop where
  calm : Calm c
  parser : p.rested = c.after acc
  stands : Stands c acc

theorem Parsed.Reads.placed (hc : Calm c) (h : r.Reads c acc src fs rest) (hcode : r.code = .none) :
    r.parser.Placed (c.passed fs) rest :=
  ⟨hc.passed h.accepts, (h.goes hcode).2.2.1, (h.goes hcode).2.1⟩

/-- The header block in progress has no more octets than have come. -/
theorem Parsed.Reads.block (hc : Calm c) (h : r.Reads c acc src fs rest) :
    (c.passed fs).headerBlockBytes + rest.length ≤
      c.headerBlockBytes + acc.length + src.length := by
  have hblock := (h.accepts.idle hc.idle).2
  have hlen := congrArg length h.octets
  rw [length_append, length_append] at hlen
  omega

/-- A call of `parseOne` that does not fail reads at least one octet. -/
theorem Placed.parseOne (h : p.Placed c acc) (hs : src ≠ [])
    (hno : c.headerBlockBytes + (acc ++ src).length < 2 ^ 64)
    (hcode : (p.parseOne src).code = .none) :
    0 < (p.parseOne src).n ∧ ∃ fs rest,
      (p.parseOne src).Reads c acc (src.take (p.parseOne src).n) fs rest := by
  rcases parseOne_reads h.calm h.parser hs hno h.stands with
    ⟨-, -, hpos, -, hreads⟩ | ⟨-, hreads⟩
  · exact ⟨hpos, _, _, hreads⟩
  · have hn := (hreads.goes hcode).1
    refine ⟨hn ▸ length_pos_iff.2 hs, [], acc ++ src, ?_⟩
    rw [hn, take_length]
    exact hreads

theorem Placed.limits (h : p.Placed c acc) : p.limits = c.limits := by
  have := congrArg Parser.limits h.parser
  unfold after at this
  split at this <;> exact this

/-- The header of the frame has come. -/
theorem Placed.header (h : p.Placed c acc) (hlen : 9 ≤ acc.length) :
    p.header.length = 9 ∧ p.current = FrameHeader.decode acc := by
  have hparser : p.rested = (c.begun acc).within (acc.drop 9) :=
    h.parser.trans (if_neg (Nat.not_lt.2 hlen))
  have hheader : p.header = acc.take 9 := congrArg Parser.header hparser
  refine ⟨?_, congrArg Parser.current hparser⟩
  rw [hheader, length_take, Nat.min_eq_left hlen]

theorem Placed.length_le (h : p.Placed c acc) (hlen : 9 ≤ acc.length) :
    (FrameHeader.decode acc).length ≤ p.limits.maxFrameSize.toNat := by
  have hfault := (sound_of_verdict hlen h.stands.verdict).header
  rw [h.limits]
  unfold headerFault at hfault
  split at hfault
  · cases hfault
  · next hle => exact Nat.not_lt.1 hle

/-- The largest frame may change, if it does not forbid the frame that is being read. -/
theorem Placed.sized (h : p.Placed c acc) (size : UInt32)
    (hsize : 9 ≤ acc.length → (FrameHeader.decode acc).length ≤ size.toNat) :
    Placed { p with limits := { p.limits with maxFrameSize := size } }
      { c with limits := { c.limits with maxFrameSize := size } } acc := by
  refine ⟨⟨⟨h.calm.idle.code, h.calm.idle.header, h.calm.idle.block⟩, ?_⟩, ?_, ?_, h.stands.open_⟩
  · exact congrArg (fun q : Parser => { q with limits := { c.limits with maxFrameSize := size } })
      h.calm.rested
  · rw [h.limits]
    have := congrArg (fun q : Parser => { q with
      limits := { c.limits with maxFrameSize := size } }) h.parser
    refine this.trans ?_
    unfold after
    split <;> rfl
  · by_cases hlen : 9 ≤ acc.length
    · have hsound := sound_of_verdict hlen h.stands.verdict
      have hheader : headerFault { c with limits := { c.limits with maxFrameSize := size } }
          (FrameHeader.decode acc) = .none := by
        have hfault := hsound.header
        unfold headerFault at hfault ⊢
        rw [if_neg (Nat.not_lt.2 (hsize hlen))]
        split at hfault
        · cases hfault
        · exact hfault
      have hsound' : Sound { c with limits := { c.limits with maxFrameSize := size } } acc :=
        ⟨hheader, hsound.payload, hsound.block⟩
      rw [hsound'.verdict hlen, if_pos (h.stands.open_ hlen)]
    · exact if_pos (Nat.not_le.1 hlen)

end Parser

namespace Session

variable {X : Externals} {s t u : Session X} {c : Parser} {acc src : Bytes} {fit : Prop}
  {r r' : Parser.Parsed}

/-! ## One call of the parser -/

/-- No limit of the queues is reached. -/
def NoLimit (s : Session X) : Action → Prop
  | .deliver call => s.Unhindered call
  | _ => True

/-- No data exceeds the length that was announced for it. -/
def FitsLength (s : Session X) : Action → Prop
  | .deliver call => s.DataFits call
  | _ => True

/-- What the session becomes that is fed octets: `r` is what the parser makes of them. If `fit`,
then the data is known to fit. -/
structure Feeds (fit : Prop) (s : Session X) (r : Parser.Parsed) (t : Session X) : Prop where
  failed : t.failed ≠ none ↔ r.code ≠ .none ∨ (s.effects r.calls).state.failed ≠ none
  goes : t.failed = none → t.relieved = (s.effects r.calls).state ∧
    t.events = s.events ++ (s.effects r.calls).events ∧
    t.output = s.output ++ (s.effects r.calls).output ∧ t.parser = r.parser
  fits : fit → r.code = .none → s.EffectsFit r.calls

theorem feeds_nothing (hf : s.failed = none) : Feeds fit s { parser := s.parser } s where
  failed := by
    have hf' : s.relieved.failed = none := hf
    simp [effects, hf, hf']
  goes _ := ⟨rfl, (append_nil _).symm, (append_nil _).symm, rfl⟩
  fits _ _ := trivial

/-- The parser has failed. -/
theorem feeds_failed (hcode : r.code ≠ .none) (hf : t.failed ≠ none) : Feeds fit s r t :=
  ⟨iff_of_true hf (.inl hcode), fun h => absurd h hf, fun _ h => absurd h hcode⟩

theorem Feeds.code (h : Feeds fit s r t) (hf : t.failed = none) : r.code = .none := by
  by_contra hne
  exact h.failed.2 (.inl hne) hf

/-- One after the other. -/
theorem Feeds.followedBy (h : Feeds fit s r t) (hf : t.failed = none) (h' : Feeds fit t r' u) :
    Feeds fit s (r.followedBy r') u := by
  obtain ⟨hstate, hevents, houtput, -⟩ := h.goes hf
  have hrelieved : t.relieved = (s.effects r.calls).state.relieved :=
    hstate.trans (relieved_effects s r.calls).symm
  have hall : s.effects (r.calls ++ r'.calls) =
      (s.effects r.calls).andThen (t.effects r'.calls) := by
    rw [effects_append, effects_congr hrelieved]
  refine ⟨?_, fun hu => ?_, fun hfit hcode => ?_⟩
  · change _ ↔ r'.code ≠ .none ∨ (s.effects (r.calls ++ r'.calls)).state.failed ≠ none
    rw [hall]
    exact h'.failed
  · obtain ⟨hstate', hevents', houtput', hparser'⟩ := h'.goes hu
    change _ = (s.effects (r.calls ++ r'.calls)).state ∧ _ =
      _ ++ (s.effects (r.calls ++ r'.calls)).events ∧ _ =
      _ ++ (s.effects (r.calls ++ r'.calls)).output ∧ _
    rw [hall]
    refine ⟨hstate', ?_, ?_, hparser'⟩
    · rw [hevents', hevents, append_assoc]
      rfl
    · rw [houtput', houtput, append_assoc]
      rfl
  · change s.EffectsFit (r.calls ++ r'.calls)
    rw [effectsFit_append, ← effectsFit_congr hrelieved]
    exact ⟨h.fits hfit (h.code hf), h'.fits hfit hcode⟩

/-- Nothing more happens once the session has failed. -/
theorem Feeds.followedBy_failed (h : Feeds fit s r t) (hcode : r.code = .none)
    (hf : t.failed ≠ none) : Feeds fit s (r.followedBy r') t := by
  have hfailed := (h.failed.1 hf).resolve_left (not_not.2 hcode)
  have hall : (s.effects (r.calls ++ r'.calls)).state.failed ≠ none := by
    rw [effects_append]
    exact failed_effects hfailed
  refine ⟨iff_of_true hf (.inr hall), fun h => absurd h hf, fun hfit _ => ?_⟩
  change s.EffectsFit (r.calls ++ r'.calls)
  rw [effectsFit_append]
  exact ⟨h.fits hfit hcode, effectsFit_of_failed hfailed _⟩

variable {calls : List Callback} {x more : Bytes} {n : ℕ} {ops : List Op} {role : Role}

theorem guarded_deliver {ok : Session X → Action → Prop} :
    Guarded act ok s (calls.map .deliver) ↔
      Guarded deliver (fun s call => ok s (.deliver call)) s calls := by
  induction calls generalizing s with
  | nil => exact Iff.rfl
  | cons call calls ih => exact and_congr_right fun _ => ih

theorem effectsFit_of_guarded (h : Guarded deliver Unhindered s calls)
    (h' : Guarded deliver DataFits s calls) : s.EffectsFit calls := by
  induction calls generalizing s with
  | nil => trivial
  | cons call calls ih =>
    have hstate : (s.deliver call).relieved = (s.effect call).state.relieved := h.1.state
    exact ⟨h'.1, (effectsFit_congr hstate calls).1 (ih h.2 h'.2)⟩

theorem feeds_afterParse (hcode : r.code = .none) (hg : Guarded act NoLimit s (parseActions r))
    (hfit : fit → Guarded act FitsLength s (parseActions r)) :
    Feeds fit s r (s.afterParse r) := by
  have hcalls : Guarded deliver Unhindered s r.calls :=
    guarded_deliver.1 (guarded_append.1 hg).1
  obtain ⟨hstate, hevents, houtput⟩ := effects_of_unhindered hcalls
  have hfailed : (s.deliverAll r.calls).relieved.failed = (s.effects r.calls).state.failed := by
    rw [hstate]
  refine ⟨?_, fun _ => ⟨hstate, hevents, houtput, rfl⟩, fun hf _ => ?_⟩
  · change (s.deliverAll r.calls).relieved.failed ≠ none ↔ _
    rw [hfailed, or_iff_right (not_not.2 hcode)]
  · exact effectsFit_of_guarded hcalls (guarded_deliver.1 (guarded_append.1 (hfit hf)).1)

/-! ## The frames of a call of `Feed` -/

/-- **`Feed` gives the session the callbacks of the frames.** -/
theorem feeds_feedFrames (fuel : ℕ) (hfuel : src.length ≤ fuel) (h : s.parser.Placed c acc)
    (hno : c.headerBlockBytes + (acc ++ src).length < 2 ^ 64) (hf : s.failed = none)
    (hg : Guarded act NoLimit s (s.frameActions src))
    (hfit : fit → Guarded act FitsLength s (s.frameActions src)) :
    Feeds fit s (s.parser.parseFrames fuel src) (s.feedFrames src).session := by
  induction fuel generalizing s c acc src with
  | zero =>
    obtain rfl : src = [] := eq_nil_of_length_eq_zero (Nat.le_zero.1 hfuel)
    rw [feedFrames, if_pos rfl]
    exact feeds_nothing hf
  | succ fuel ih =>
    rw [Parser.parseFrames, feedFrames]
    by_cases hs : src = []
    · rw [if_pos hs, if_pos hs]
      exact feeds_nothing hf
    rw [frameActions, if_neg hs] at hg hfit
    rw [if_neg hs, if_neg hs]
    simp only at hg hfit ⊢
    by_cases hcode : (s.parser.parseOne src).code = .none
    · rw [if_neg (not_not.2 hcode), if_neg (not_not.2 hcode)]
      obtain ⟨hpos, fs, rest, hreads⟩ := h.parseOne hs hno hcode
      by_cases hfailed : (s.afterParse (s.parser.parseOne src)).failed = none
      · have hgo : ¬((s.parser.parseOne src).code ≠ .none ∨
            (s.afterParse (s.parser.parseOne src)).failed ≠ none) :=
          not_or.2 ⟨not_not.2 hcode, not_not.2 hfailed⟩
        rw [if_neg hgo, dif_neg (Nat.pos_iff_ne_zero.1 hpos), guarded_append,
          foldl_parseActions, if_neg (not_not.2 hcode)] at hg hfit
        rw [if_neg (not_not.2 hfailed), dif_neg (Nat.pos_iff_ne_zero.1 hpos)]
        have hone : Feeds fit s _ _ := feeds_afterParse hcode hg.1 fun hft => (hfit hft).1
        have hblock := hreads.block h.calm
        refine hone.followedBy hfailed ?_
        refine ih (s := s.afterParse (s.parser.parseOne src)) ?_ (hreads.placed h.calm hcode) ?_
          hfailed hg.2 fun hft => (hfit hft).2
        · rw [length_drop]
          omega
        · rw [length_append, length_drop]
          rw [length_append] at hno
          rw [length_take] at hblock
          omega
      · have hstop : (s.parser.parseOne src).code ≠ .none ∨
            (s.afterParse (s.parser.parseOne src)).failed ≠ none := .inr hfailed
        rw [if_pos hstop] at hg hfit
        rw [if_pos hfailed]
        exact (feeds_afterParse hcode hg hfit).followedBy_failed hcode hfailed
    · rw [if_pos hcode, if_pos hcode]
      exact feeds_failed hcode (failed_connectionError _ _ _)

/-! ## The client preface -/

/-- The octets of the client preface that are still awaited. -/
def awaited (s : Session X) : Bytes :=
  if s.role = .server then clientPreface.drop s.prefacePos else []

/-- The session when the preface has come. -/
def greeted (s : Session X) : Session X :=
  { s with prefacePos := s.prefacePos + s.awaited.length }

/-- The session when some octets of the preface have come. -/
def advanced (s : Session X) (n : ℕ) : Session X := { s with prefacePos := s.prefacePos + n }

theorem awaited_advanced (h : s.awaited = x ++ more) : (s.advanced x.length).awaited = more := by
  unfold awaited at h ⊢
  change (if s.role = .server then clientPreface.drop (s.prefacePos + x.length) else []) = _
  split at h
  · next hrole => rw [if_pos hrole, ← drop_drop, h, drop_left]
  · next hrole =>
    rw [if_neg hrole]
    exact (append_eq_nil_iff.1 h.symm).2.symm

theorem greeted_advanced (h : s.awaited = x ++ more) :
    (s.advanced x.length).greeted = s.greeted := by
  have hlen := congrArg length h
  rw [length_append] at hlen
  rw [greeted, awaited_advanced h, greeted, hlen, advanced]
  simp only [Nat.add_assoc]

theorem awaited_greeted (s : Session X) : s.greeted.awaited = [] :=
  awaited_advanced (append_nil _).symm

theorem greeted_eq_self (h : s.awaited = []) : s.greeted = s := by
  rw [greeted, h]
  rfl

theorem awaited_cons {b : UInt8} {w : Bytes} (h : s.awaited = b :: w) :
    s.role = .server ∧ s.prefacePos < clientPreface.length ∧
      clientPreface[s.prefacePos]? = some b := by
  unfold awaited at h
  split at h
  · next hrole =>
    have hget : (clientPreface.drop s.prefacePos)[0]? = some b := by rw [h]; rfl
    rw [getElem?_drop, Nat.add_zero] at hget
    exact ⟨hrole, (List.getElem?_eq_some_iff.1 hget).1, hget⟩
  · cases h

/-- Octets of the preface are taken. -/
theorem matchPreface_append (h : s.awaited = x ++ more) (body : Bytes) :
    s.matchPreface (x ++ body) =
      { (s.advanced x.length).matchPreface body with
        n := ((s.advanced x.length).matchPreface body).n + x.length } := by
  induction x generalizing s with
  | nil => rfl
  | cons b x ih =>
    obtain ⟨-, hlt, hget⟩ := awaited_cons h
    have hnext : (s.advanced 1).awaited = x ++ more := awaited_advanced (x := [b]) h
    have hsame : s.advanced (b :: x).length = (s.advanced 1).advanced x.length := by
      simp only [advanced, length_cons, Nat.add_assoc, Nat.add_comm 1]
    rw [cons_append, matchPreface, if_pos hlt, hget, if_neg (not_not.2 rfl), hsame]
    change { (s.advanced 1).matchPreface (x ++ body) with
      n := ((s.advanced 1).matchPreface (x ++ body)).n + 1 } = _
    rw [ih hnext]
    rfl

/-- Once the preface has come, nothing more of it is taken. -/
theorem matchPreface_done (hrole : s.role = .server) (h : s.awaited = []) (body : Bytes) :
    s.matchPreface body = { session := s } := by
  rw [awaited, if_pos hrole, drop_eq_nil_iff] at h
  cases body with
  | nil => rfl
  | cons b body => rw [matchPreface, if_neg (Nat.not_lt.2 h)]

theorem failed_of_matchPreface (h : (s.matchPreface src).err ≠ none) :
    (s.matchPreface src).session.failed ≠ none := by
  induction src generalizing s with
  | nil => exact absurd rfl h
  | cons b src ih =>
    unfold matchPreface at h ⊢
    split_ifs at h ⊢
    · exact h
    · exact ih h
    · exact absurd rfl h

/-- Other octets than those of the preface are an error. -/
theorem matchPreface_stranger (h : ¬src <+: s.awaited) (h' : ¬s.awaited <+: src) :
    (s.matchPreface src).err ≠ none := by
  induction src generalizing s with
  | nil => exact absurd nil_prefix h
  | cons b src ih =>
    cases hw : s.awaited with
    | nil => exact absurd (hw ▸ nil_prefix) h'
    | cons b' w =>
      obtain ⟨-, hlt, hget⟩ := awaited_cons hw
      have hnext : (s.advanced 1).awaited = w := awaited_advanced (x := [b']) hw
      rw [hw] at h h'
      rw [matchPreface, if_pos hlt, hget]
      split
      · exact failed_connectionError _ _ _
      · next hsame =>
        obtain rfl : b = b' := Option.some_inj.1 (not_not.1 hsame)
        rw [prefix_cons_inj] at h h'
        rw [← hnext] at h h'
        exact ih h h'

/-! ## One call of `Feed` -/

/-- The frames leave alone what is awaited of the preface. -/
theorem awaited_feedFrames (hw : s.WellFormed) (hg : Guarded act Allows s (s.frameActions src)) :
    (s.feedFrames src).session.awaited = s.awaited := by
  have hstep {a : Action} (ha : a ≠ .preface) {e₀ e e' : Endpoint X}
      (hs : Endpoint.Step a e₀ e e') : e'.role = e.role ∧ e'.prefacePos = e.prefacePos := by
    cases hs with
    | preface hp => exact absurd hp ha
    | _ => exact ⟨rfl, rfl⟩
  have hne : ∀ a ∈ s.frameActions src, a ≠ .preface := fun a ha => (mem_frameActions ha).1
  have hall := (hg.and (guarded_of_forall hne)).invariant
    (I := fun t => t.WellFormed ∧ t.role = s.role ∧ t.prefacePos = s.prefacePos)
    (fun t a hI ha => ?_) ⟨hw, rfl, rfl⟩
  · rw [← feedFrames_session] at hall
    rw [awaited, awaited, hall.2.1, hall.2.2]
  · have hkept := (hI.1.reaches ha.1).invariant
      (I := fun e => e.role = t.role ∧ e.prefacePos = t.prefacePos)
      (fun hs he => ⟨(hstep ha.2 hs).1.trans he.1, (hstep ha.2 hs).2.trans he.2⟩) ⟨rfl, rfl⟩
    exact ⟨hI.1.act ha.1, hkept.1.trans hI.2.1, hkept.2.trans hI.2.2⟩

/-- What becomes of a session that is fed octets, in the frame that begins with `acc` after the
frames that led the parser to `c`. -/
inductive Takes (fit : Prop) (c : Parser) (acc : Bytes) (s : Session X) (src : Bytes)
    (t : Session X) : Prop
  | greeting {more : Bytes} (hne : more ≠ []) (h : s.awaited = src ++ more)
      (ht : t = s.advanced src.length)
  | stranger (h : ¬src <+: s.awaited) (h' : ¬s.awaited <+: src) (ht : t.failed ≠ none)
  | frames {body rest : Bytes} {fs : List Bytes} {r : Parser.Parsed} (h : src = s.awaited ++ body)
      (hr : r.Reads c acc body fs rest) (hs : Solid r.calls) (ht : Feeds fit s.greeted r t)
      (hdone : t.awaited = [])

theorem takes_frames {body : Bytes} (hw : s.greeted.WellFormed) (hf : s.failed = none)
    (h : s.parser.Placed c acc) (hno : c.headerBlockBytes + (acc ++ body).length < 2 ^ 64)
    (hg : Guarded act Allows s.greeted (s.greeted.frameActions body))
    (hl : Guarded act NoLimit s.greeted (s.greeted.frameActions body))
    (hfit : fit → Guarded act FitsLength s.greeted (s.greeted.frameActions body)) :
    Takes fit c acc s (s.awaited ++ body) (s.greeted.feedFrames body).session := by
  obtain ⟨fs, rest, hreads⟩ := Parser.parseFrames_reads body.length le_rfl h.calm h.parser hno
    h.stands
  have hplaced : s.greeted.parser.Placed c acc := h
  refine .frames rfl hreads (Parser.solid_parseFrames _ _ _)
    (feeds_feedFrames body.length le_rfl hplaced hno hf hl hfit) ?_
  rw [awaited_feedFrames hw hg, awaited_greeted]

/-- **One call of `Feed`.** -/
theorem takes_feed (hst : s.Steady) (hc : s.closed = false) (hf : s.failed = none)
    (h : s.parser.Placed c acc) (hno : c.headerBlockBytes + (acc ++ src).length < 2 ^ 64)
    (hl : Guarded act NoLimit s (s.feedActions src))
    (hfit : fit → Guarded act FitsLength s (s.feedActions src)) :
    Takes fit c acc s src (s.feed src).session := by
  have hg : Guarded act Allows s (s.feedActions src) :=
    (guarded_feedActions hst.wellFormed hst.sound).1
  have hopen : ¬(s.closed || s.failed.isSome) = true := by simp [hc, hf]
  rw [feedActions, if_neg hopen] at hg hl hfit
  rw [feed, if_neg (by simp [hc]), if_neg (not_not.2 hf)]
  have hpre : Guarded act Allows s (s.prefaceActions src) := guarded_prefaceActions s
  have hwf := wellFormed_foldl hst.wellFormed hpre
  rw [← matchPreface_session] at hwf
  cases hw : s.awaited with
  | nil =>
    have hcome : ¬(s.role = .server ∧ s.prefacePos < clientPreface.length) := by
      rintro ⟨hrole, hlt⟩
      rw [awaited, if_pos hrole, drop_eq_nil_iff] at hw
      omega
    rw [if_neg hcome] at hg hl hfit ⊢
    have hself := greeted_eq_self hw
    have hall : Takes fit c acc s (s.awaited ++ src) (s.greeted.feedFrames src).session := by
      refine takes_frames ?_ hf h hno ?_ ?_ ?_ <;> rw [hself]
      · exact hst.wellFormed
      · exact hg
      · exact hl
      · exact hfit
    rwa [hself, hw, nil_append] at hall
  | cons b w =>
    obtain ⟨hrole, hlt, -⟩ := awaited_cons hw
    rw [if_pos ⟨hrole, hlt⟩] at hg hl hfit ⊢
    simp only at hg hl hfit ⊢
    by_cases hbegin : src <+: s.awaited
    · obtain ⟨more, hmore⟩ := hbegin
      have hmatch := matchPreface_append hmore.symm []
      rw [append_nil, matchPreface, Nat.zero_add] at hmatch
      rw [hmatch, if_neg (by simp), if_pos (.inl rfl)]
      by_cases hnil : more = []
      · rw [hnil, append_nil] at hmore
        have hgreeted : s.advanced src.length = s.greeted := by rw [hmore]; rfl
        rw [hgreeted]
        refine .frames (by rw [hmore, append_nil])
          (Parser.reads_nothing h.parser h.stands) solid_nil (feeds_nothing hf) (awaited_greeted s)
      · exact .greeting hnil hmore.symm rfl
    by_cases hend : s.awaited <+: src
    · obtain ⟨body, rfl⟩ := hend
      have hmatch := matchPreface_append (append_nil s.awaited).symm body
      have hgreeted : s.advanced s.awaited.length = s.greeted := rfl
      have hrole' : s.greeted.role = .server := hrole
      rw [hgreeted, matchPreface_done hrole' (awaited_greeted s), Nat.zero_add] at hmatch
      have hbody : body ≠ [] := by
        rintro rfl
        exact hbegin (by rw [append_nil])
      have hpos := length_pos_iff.2 hbody
      have hlen : ¬s.awaited.length = (s.awaited ++ body).length := by
        rw [length_append]
        omega
      have hcome : ¬s.greeted.prefacePos < clientPreface.length := by
        have := awaited_greeted s
        rw [awaited, if_pos hrole', drop_eq_nil_iff] at this
        omega
      have hgo : ¬((none : Option SessionError) ≠ none ∨
          s.awaited.length = (s.awaited ++ body).length ∨
          s.greeted.prefacePos < clientPreface.length) := by
        simp only [ne_eq, not_true_eq_false, false_or, not_or]
        exact ⟨hlen, hcome⟩
      rw [guarded_append, ← matchPreface_session, hmatch] at hg hl hfit
      rw [hmatch] at hwf ⊢
      simp only at hg hl hfit hwf ⊢
      rw [if_neg hgo, drop_left] at hg hl hfit
      rw [if_neg (not_not.2 rfl), if_neg (not_or.2 ⟨hlen, hcome⟩), drop_left]
      refine takes_frames hwf hf h ?_ hg.2 hl.2 fun hft => (hfit hft).2
      rw [length_append, length_append] at hno
      rw [length_append]
      omega
    · have herr := matchPreface_stranger hbegin hend
      rw [if_pos herr]
      exact .stranger hbegin hend (failed_of_matchPreface herr)

/-! ## Calls of `Feed` in a row -/

theorem takes_nothing (hf : s.failed = none) (h : s.parser.Placed c acc) :
    Takes fit c acc s [] s := by
  by_cases hw : s.awaited = []
  · refine .frames (by rw [hw]; rfl) (Parser.reads_nothing h.parser h.stands) solid_nil ?_ hw
    rw [greeted_eq_self hw]
    exact feeds_nothing hf
  · exact .greeting hw rfl rfl

/-- A call after the first, if the first has not failed. -/
theorem Takes.append {y : Bytes} (hf : s.failed = none) (hp : s.parser.Placed c acc)
    (hno : c.headerBlockBytes + (acc ++ (src ++ y)).length < 2 ^ 64) (h : Takes fit c acc s src t)
    (hstop : t.failed ≠ none → u = t)
    (hgo : t.failed = none → ∀ c' acc', t.parser.Placed c' acc' →
      c'.headerBlockBytes + (acc' ++ y).length < 2 ^ 64 → Takes fit c' acc' t y u) :
    Takes fit c acc s (src ++ y) u := by
  rw [length_append, length_append] at hno
  cases h with
  | @greeting more hne h ht =>
    subst ht
    have hmore := awaited_advanced h
    have hsame := greeted_advanced h
    have hnext := hgo hf c acc hp (by rw [length_append]; omega)
    cases hnext with
    | @greeting more' hne' h' ht' =>
      rw [hmore] at h'
      refine .greeting hne' (by rw [h, h', append_assoc]) ?_
      rw [ht', length_append]
      simp only [advanced, Nat.add_assoc]
    | stranger h' h'' ht' =>
      rw [hmore] at h' h''
      refine .stranger ?_ ?_ ht' <;> rw [h, prefix_append_right_inj]
      · exact h'
      · exact h''
    | @frames body rest fs r h' hr hs ht' hdone =>
      rw [hmore] at h'
      rw [hsame] at ht'
      exact .frames (by rw [h, h', append_assoc]) hr hs ht' hdone
  | stranger h h' ht =>
    rw [hstop ht]
    refine .stranger (fun hall => h ((prefix_append src y).trans hall)) (fun hall => ?_) ht
    rcases prefix_or_prefix_of_prefix hall (prefix_append src y) with hw | hw
    · exact h' hw
    · exact h hw
  | @frames body rest fs r h hr hs ht hdone =>
    subst h
    have hlen : body.length ≤ (s.awaited ++ body).length := by
      rw [length_append]
      omega
    have hblock := hr.block hp.calm
    by_cases hcode : r.code = .none
    · have hplaced := hr.placed hp.calm hcode
      have hbound : (c.passed fs).headerBlockBytes + (rest ++ y).length < 2 ^ 64 := by
        rw [length_append]
        omega
      by_cases hft : t.failed = none
      · have hparser := (ht.goes hft).2.2.2
        have hnext := hgo hft _ _ (hparser ▸ hplaced) hbound
        cases hnext with
        | greeting hne' h' => exact absurd (append_eq_nil_iff.1 (hdone ▸ h').symm).2 hne'
        | stranger h' h'' => exact absurd (hdone ▸ nil_prefix) h''
        | @frames body' rest' fs' r' h' hr' hs' ht' hdone' =>
          rw [hdone, nil_append] at h'
          subst h'
          rw [greeted_eq_self hdone] at ht'
          exact .frames (append_assoc _ _ _) (hr.followedBy hcode hr') (solid_append hs hs')
            (ht.followedBy hft ht') hdone'
      · rw [hstop hft]
        obtain ⟨fs', rest', hr'⟩ := Parser.parseFrames_reads y.length le_rfl hplaced.calm
          hplaced.parser hbound hplaced.stands
        exact .frames (append_assoc _ _ _) (hr.followedBy hcode hr')
          (solid_append hs (Parser.solid_parseFrames _ _ _)) (ht.followedBy_failed hcode hft) hdone
    · have hft : t.failed ≠ none := ht.failed.2 (.inl hcode)
      rw [hstop hft]
      refine .frames (append_assoc _ _ _) (hr.append hp.calm.idle hcode y ?_) hs ht hdone
      rw [length_append, length_append]
      omega

/-- A session that is closed or has failed takes nothing. -/
theorem run_stopped (hf : s.closed = true ∨ s.failed ≠ none) (pieces : List Bytes) :
    s.run (pieces.map .feed) = s := by
  have hfeed (piece : Bytes) : s.op (.feed piece) = s := by
    change (s.feed piece).session = s
    unfold feed
    split
    · rfl
    · next hopen => rw [if_pos (hf.resolve_left hopen)]
  induction pieces with
  | nil => rfl
  | cons piece pieces ih =>
    rw [map_cons, run, foldl_cons, hfeed]
    exact ih

/-- **Pieces fed one after another.** -/
theorem takes_pieces (pieces : List Bytes) (hst : s.Steady) (hc : s.closed = false)
    (hf : s.failed = none) (h : s.parser.Placed c acc)
    (hno : c.headerBlockBytes + (acc ++ pieces.flatten).length < 2 ^ 64)
    (hl : Meets NoLimit s (pieces.map .feed)) :
    Takes False c acc s pieces.flatten (s.run (pieces.map .feed)) := by
  induction pieces generalizing s c acc with
  | nil => exact takes_nothing hf h
  | cons piece pieces ih =>
    have hfirst : Takes False c acc s piece (s.op (.feed piece)) := by
      refine takes_feed hst hc hf h ?_ hl.1 False.elim
      rw [flatten_cons, ← append_assoc, length_append] at hno
      omega
    refine hfirst.append hf h hno (fun hft => run_stopped (.inr hft) pieces)
      fun hft c' acc' hp hno' => ?_
    have hclosed : (s.op (.feed piece)).closed = s.closed := closed_op hst nofun
    exact ih (hst.op _) (hclosed.trans hc) hft hp hno' hl.2

/-! ## Whole and in pieces -/

/-- What two sessions have in common that were fed the same octets: both have failed, or they differ
in the cuts of their data events only. -/
structure Agree (t u : Session X) : Prop where
  failed : u.failed ≠ none ↔ t.failed ≠ none
  state : t.failed = none → u.relieved = t.relieved
  output : t.failed = none → u.output = t.output
  events : t.failed = none → mergeEvents u.events = mergeEvents t.events

theorem Agree.refl (s : Session X) : Agree s s :=
  ⟨Iff.rfl, fun _ => rfl, fun _ => rfl, fun _ => rfl⟩

theorem agree_of_failed (ht : t.failed ≠ none) (hu : u.failed ≠ none) : Agree t u :=
  ⟨iff_of_true hu ht, fun h => absurd h ht, fun h => absurd h ht, fun h => absurd h ht⟩

theorem Feeds.agree (hX : X.Incremental) (h : Feeds True s r t) (h' : Feeds fit s r' u)
    (hs : Solid r.calls) (hs' : Solid r'.calls) (hcode : r'.code = r.code)
    (hsame : r.code = .none → octetCalls r'.calls = octetCalls r.calls) : Agree t u := by
  by_cases hc : r.code = .none
  · have halike := alike_of_octets hX hs hs' (hsame hc) (h.fits trivial hc)
    have hc' := hcode.trans hc
    rcases halike with ⟨hf', hf⟩ | ⟨hstate, houtput, hevents⟩
    · exact agree_of_failed (h.failed.2 (.inr hf)) (h'.failed.2 (.inr hf'))
    have hiff : u.failed ≠ none ↔ t.failed ≠ none := by
      rw [h.failed, h'.failed, hcode, hstate]
    have hgo (hf : t.failed = none) := h'.goes (not_not.1 (mt hiff.1 (not_not.2 hf)))
    refine ⟨hiff, fun hf => ?_, fun hf => ?_, fun hf => ?_⟩
    · rw [(hgo hf).1, (h.goes hf).1, hstate]
    · rw [(hgo hf).2.2.1, (h.goes hf).2.2.1, houtput]
    · rw [(hgo hf).2.1, (h.goes hf).2.1, mergeEvents, mergeEvents, foldr_append,
        foldr_append, hevents]
  · exact agree_of_failed (h.failed.2 (.inl hc)) (h'.failed.2 (.inl (hcode ▸ hc)))

/-- **Two ways to be fed the same octets agree.** -/
theorem Takes.agree (hX : X.Incremental) (h : Takes True c acc s src t)
    (h' : Takes fit c acc s src u) : Agree t u := by
  cases h with
  | @greeting more hne h ht =>
    cases h' with
    | greeting _ _ ht' =>
      rw [ht, ht']
      exact .refl _
    | stranger hno => exact absurd ⟨more, h.symm⟩ hno
    | @frames body _ _ _ h' =>
      rw [h', append_assoc, self_eq_append_right, append_eq_nil_iff] at h
      exact absurd h.2 hne
  | stranger hno hno' ht =>
    cases h' with
    | @greeting more _ h' => exact absurd ⟨more, h'.symm⟩ hno
    | stranger _ _ ht' => exact agree_of_failed ht ht'
    | @frames body _ _ _ h' => exact absurd ⟨body, h'.symm⟩ hno'
  | @frames body rest fs r h hr hs ht hdone =>
    cases h' with
    | @greeting more hne h' =>
      rw [h, append_assoc, self_eq_append_right, append_eq_nil_iff] at h'
      exact absurd h'.2 hne
    | stranger _ hno' => exact absurd ⟨body, h.symm⟩ hno'
    | @frames body' rest' fs' r' h' hr' hs' ht' hdone' =>
      obtain rfl : body = body' := append_cancel_left (h.symm.trans h')
      obtain ⟨hcode, -, hsame⟩ := hr.agree hr'
      exact ht.agree hX ht' hs hs' hcode fun hc => (hsame hc).2

/-! ## The parser of a session -/

/-- Unless the session has failed, its parser is in some frame, and `n` bounds the octets of it and
of the header block before it. -/
def InFrame (s : Session X) (n : ℕ) : Prop :=
  s.failed = none → ∃ c acc, s.parser.Placed c acc ∧ c.headerBlockBytes + acc.length ≤ n

theorem InFrame.mono {m : ℕ} (h : s.InFrame n) (hle : n ≤ m) : s.InFrame m := fun hf =>
  let ⟨c, acc, hp, hn⟩ := h hf
  ⟨c, acc, hp, hn.trans hle⟩

theorem inFrame_feedFrames (h : s.InFrame n) (hno : n + src.length < 2 ^ 64) (hf : s.failed = none)
    : (s.feedFrames src).session.InFrame (n + src.length) := by
  induction hl : src.length using Nat.strong_induction_on generalizing s src n with
  | _ l ih =>
    subst hl
    obtain ⟨c, acc, hp, hn⟩ := h hf
    rw [feedFrames]
    by_cases hs : src = []
    · rw [if_pos hs]
      exact fun _ => ⟨c, acc, hp, by omega⟩
    rw [if_neg hs]
    simp only
    split
    · exact fun h => absurd h (failed_connectionError _ _ _)
    next hcode =>
    split
    · next hfailed => exact fun h => absurd h hfailed
    next hfailed =>
    rw [not_not] at hcode hfailed
    have hbound : c.headerBlockBytes + (acc ++ src).length < 2 ^ 64 := by
      rw [length_append]
      omega
    obtain ⟨hpos, fs, rest, hreads⟩ := hp.parseOne hs hbound hcode
    have hblock := hreads.block hp.calm
    rw [length_take] at hblock
    rw [dif_neg (Nat.pos_iff_ne_zero.1 hpos)]
    have hread : (s.parser.parseOne src).n ≤ src.length := by
      have := (hreads.goes hcode).1
      rw [length_take] at this
      omega
    have hnext : (s.afterParse (s.parser.parseOne src)).InFrame
        (n + (s.parser.parseOne src).n) := fun _ =>
      ⟨_, _, hreads.placed hp.calm hcode, by omega⟩
    have hless : (src.drop (s.parser.parseOne src).n).length < src.length := by
      rw [length_drop]
      omega
    refine (ih _ hless hnext ?_ hfailed rfl).mono ?_ <;> rw [length_drop] <;> omega

theorem inFrame_feed (h : s.InFrame n) (hno : n + src.length < 2 ^ 64) :
    (s.feed src).session.InFrame (n + src.length) := by
  have hle : n ≤ n + src.length := Nat.le_add_right _ _
  unfold feed
  split
  · exact h.mono hle
  split
  · next hfailed => exact fun hf => absurd hf hfailed
  next hf =>
  rw [not_not] at hf
  split
  · simp only
    split
    · next herr => exact fun hnone => absurd hnone (failed_of_matchPreface herr)
    next herr =>
    obtain ⟨hfailed, hparser, -⟩ := matchPreface_frame s (not_not.1 herr)
    have hsame : (s.matchPreface src).session.InFrame n := fun _ => by
      rw [hparser]
      exact h hf
    split
    · exact hsame.mono hle
    · have hdrop : (src.drop (s.matchPreface src).n).length ≤ src.length := by
        rw [length_drop]
        omega
      exact (inFrame_feedFrames hsame (by omega) (hfailed.trans hf)).mono (by omega)
  · exact inFrame_feedFrames h hno hf

/-- A SETTINGS update does not forbid the frame that is being received. The size of a frame is
checked at its header only, but a parser in a larger frame than it allows is in no state of the
reference decoder. -/
def SettingsFit (s : Session X) : Action → Prop
  | .call (.updateSettings settings) =>
    s.parser.header.length = 9 → ∀ x ∈ settings, x.id = .maxFrameSize →
      s.parser.current.length ≤ x.value.toNat
  | _ => True

theorem inFrame_call {call : Call} (hw : s.WellFormed) (h : s.InFrame n)
    (hfit : s.SettingsFit (.call call)) : (s.call call).InFrame n := by
  intro hf
  have ha : s.Allows (.call call) := trivial
  obtain ⟨c, acc, hp, hn⟩ := h (failed_of_act hw ha hf)
  by_cases hm : (Action.call call).movesParser
  · cases call with
    | finish =>
      have : (s.call .finish).parser = s.parser := parser_finish hf
      rw [this]
      exact ⟨c, acc, hp, hn⟩
    | updateSettings settings =>
      obtain ⟨size, hsize, hor⟩ := parser_updateSettings s settings
      rw [show (s.call (.updateSettings settings)).parser = _ from hsize]
      refine ⟨_, acc, hp.sized size fun hlen => ?_, hn⟩
      obtain ⟨hheader, hcurrent⟩ := hp.header hlen
      rcases hor with hold | ⟨x, hx, hid, hvalue⟩
      · rw [hold]
        exact hp.length_le hlen
      · rw [hvalue, ← hcurrent]
        exact hfit hheader x hx hid
    | _ => exact hm.elim
  · have : (s.call call).parser = s.parser := parser_of_reaches hm (hw.reaches ha)
    rw [this]
    exact ⟨c, acc, hp, hn⟩

/-- Without SETTINGS updates there is nothing to forbid. -/
theorem meets_settingsFit (h : ∀ settings, .call (.updateSettings settings) ∉ ops) :
    Meets SettingsFit s ops := by
  have hne : Meets (fun (_ : Session X) a => ∀ settings, a ≠ .call (.updateSettings settings)) s
      ops := by
    refine meets_of_calls (fun call hc settings heq => ?_) fun a ha settings => ha _
    cases heq
    exact h settings hc
  refine hne.mono fun s a ha => ?_
  cases a with
  | call call =>
    cases call with
    | updateSettings settings => exact absurd rfl (ha settings)
    | _ => trivial
  | _ => trivial

/-- The octets that an operation receives. -/
def fedBy : Op → ℕ
  | .feed src => src.length
  | .call _ => 0

theorem inFrame_run (hst : s.Steady) (h : s.InFrame n) (hfit : Meets SettingsFit s ops)
    (hno : n + (ops.map fedBy).sum < 2 ^ 64) :
    (s.run ops).InFrame (n + (ops.map fedBy).sum) := by
  induction ops generalizing s n with
  | nil => exact h
  | cons o ops ih =>
    rw [map_cons, sum_cons] at hno ⊢
    rw [← Nat.add_assoc] at hno ⊢
    refine ih (hst.op o) ?_ hfit.2 hno
    cases o with
    | call call => exact inFrame_call hst.wellFormed h hfit.1.1
    | feed src => exact inFrame_feed h (Nat.lt_of_le_of_lt (Nat.le_add_right _ _) hno)

theorem inFrame_newSession {limits : SessionLimits} (h : newSession X role limits = .ok s) :
    s.InFrame 0 := by
  obtain ⟨output, header, payload, -, rfl⟩ := newSession_ok h
  have hc := Parser.calm_newParser limits.normalized.frame
  exact fun _ => ⟨_, [], ⟨hc, hc.rested.trans (Parser.after_nil hc.idle).symm,
    Parser.stands_nil _⟩, le_rfl⟩

theorem steady_run {limits : SessionLimits} (h : newSession X role limits = .ok s) (ops : List Op) :
    (s.run ops).Steady := by
  have hall : Guarded op (fun (_ : Session X) _ => True) s ops :=
    guarded_always (fun _ _ => trivial) s ops
  exact hall.invariant (fun _ o hst _ => hst.op o) (steady_newSession h)

/-- **`Feed` does not depend on fragmentation.** A session has run any operations, of which no
SETTINGS update forbids the frame that is being received. Octets are fed to it whole, or in pieces
one after another, and neither run reaches a limit of the queues. If no data exceeds the length that
was announced for it, then one run fails if and only if the other does; and if none fails, the
queued output, the streams and the windows are the same, and so are the events, adjacent data
merged. -/
theorem feed_fragmentation (hX : X.Incremental) {role : Role} {limits : SessionLimits}
    (hnew : newSession X role limits = .ok s) {ops : List Op} (hsettings : Meets SettingsFit s ops)
    {pieces : List Bytes} (hlen : (ops.map fedBy).sum + pieces.flatten.length < 2 ^ 63)
    (hwhole : Meets NoLimit (s.run ops) [.feed pieces.flatten])
    (hcut : Meets NoLimit (s.run ops) (pieces.map .feed))
    (hfits : Meets FitsLength (s.run ops) [.feed pieces.flatten]) :
    let whole := (s.run ops).run [.feed pieces.flatten]
    let cut := (s.run ops).run (pieces.map .feed)
    (cut.failed ≠ none ↔ whole.failed ≠ none) ∧
      (whole.failed = none → cut.output = whole.output ∧ cut.streams = whole.streams ∧
        (cut.connectionSendWindow, cut.connectionRecvWindow) =
          (whole.connectionSendWindow, whole.connectionRecvWindow) ∧
        mergeEvents cut.events = mergeEvents whole.events) := by
  intro whole cut
  have hst := steady_run hnew ops
  have hin := inFrame_run (steady_newSession hnew) (inFrame_newSession hnew) hsettings (by omega)
  rw [Nat.zero_add] at hin
  suffices h : Agree whole cut by
    refine ⟨h.failed, fun hf => ⟨h.output hf, ?_, ?_, h.events hf⟩⟩
    · have hstreams : cut.relieved.streams = whole.relieved.streams := by rw [h.state hf]
      exact hstreams
    · have hwindows : (cut.relieved.connectionSendWindow, cut.relieved.connectionRecvWindow) =
          (whole.relieved.connectionSendWindow, whole.relieved.connectionRecvWindow) := by
        rw [h.state hf]
      exact hwindows
  by_cases hgo : (s.run ops).closed = true ∨ (s.run ops).failed ≠ none
  · have hw : whole = s.run ops := run_stopped hgo [pieces.flatten]
    have hu : cut = s.run ops := run_stopped hgo pieces
    rw [hw, hu]
    exact .refl _
  · obtain ⟨hc, hf⟩ := not_or.1 hgo
    rw [Bool.not_eq_true] at hc
    rw [not_not] at hf
    obtain ⟨c, acc, hp, hn⟩ := hin hf
    have hno : c.headerBlockBytes + (acc ++ pieces.flatten).length < 2 ^ 64 := by
      rw [length_append]
      omega
    have hone : Takes True c acc (s.run ops) pieces.flatten whole :=
      takes_feed hst hc hf hp hno hwhole.1 fun _ => hfits.1
    exact hone.agree hX (takes_pieces pieces hst hc hf hp hno hcut)

end Session

/-! ## Sessions that run -/

theorem SmallHpack.incremental : externals.Incremental where
  ok {decoder decoder' fragment fields} h more := by
    have hw : Decoder.write fragment decoder = (decoder', fields, none) := h
    have := Decoder.write_append decoder fragment more
    rw [hw] at this
    exact this
  error h := absurd (Decoder.write_error _ _) h

section

variable {X : Externals} [DecidableEq X.Encoder] [DecidableEq X.Decoder]

-- The instance of the library is by rewriting, so it does not compute.
instance : DecidableEq StreamTable := fun table table' =>
  decidable_of_iff (table.entries = table'.entries) AList.ext_iff.symm

instance : DecidableEq (HeaderDecoder X)
  | .mk .., .mk .. => decidable_of_iff' _ (iff_of_eq (HeaderDecoder.mk.injEq ..))

instance : DecidableEq (Session X)
  | .mk .., .mk .. => decidable_of_iff' _ (iff_of_eq (Session.mk.injEq ..))

instance (s : Session X) (call : Callback) : Decidable (s.Unhindered call) :=
  decidable_of_iff ((s.deliver call).relieved = (s.effect call).state ∧
      (s.deliver call).events = s.events ++ (s.effect call).events ∧
      (s.deliver call).output = s.output ++ (s.effect call).output)
    ⟨fun h => ⟨h.1, h.2.1, h.2.2⟩, fun h => ⟨h.state, h.events, h.output⟩⟩

instance (s : Session X) : ∀ a, Decidable (s.NoLimit a)
  | .deliver call => inferInstanceAs (Decidable (s.Unhindered call))
  | .call _ | .preface | .parsed _ | .fail .. => isTrue trivial

instance (s : Session X) : ∀ call, Decidable (s.DataFits call)
  | .data id data _ => inferInstanceAs (Decidable (s.failed = none → ∀ st ∈ s.stream? id,
      (st.receiveHasLength && data.length > sub64 st.receiveLength st.receiveBody) = false))
  | .frameBegin .. | .headerBlock .. | .headerBlockEnd .. | .priority .. | .rstStream .. |
    .setting .. | .settingsEnd .. | .pushPromise .. | .ping .. | .goAway .. | .goAwayDebug .. |
    .windowUpdate .. | .unknown .. | .frameComplete .. => isTrue trivial

instance (s : Session X) : ∀ a, Decidable (s.FitsLength a)
  | .deliver call => inferInstanceAs (Decidable (s.DataFits call))
  | .call _ | .preface | .parsed _ | .fail .. => isTrue trivial

end

instance : DecidableEq externals.Encoder :=
  inferInstanceAs (DecidableEq SmallHpack.Encoder)

instance : DecidableEq externals.Decoder :=
  inferInstanceAs (DecidableEq SmallHpack.Decoder)

namespace Session

/-- The HEADERS frame of a request that announces a body of `length` octets. -/
def announcing (length : String) : Bytes :=
  frameBytes .headers .endHeaders 1 ([0x83, 0x86, 0x84, 0x00] ++
    SmallHpack.string (ascii "content-length") ++ SmallHpack.string (ascii length))

/-- A DATA frame of five octets, in two pieces. -/
def dataPieces : List Bytes :=
  [(frameBytes .data .endStream 1 (ascii "hello")).take 11,
    (frameBytes .data .endStream 1 (ascii "hello")).drop 11]

/-- What a server has received before the data. -/
def upTo (length : String) : List Op := [.feed (clientStart ++ announcing length)]

/-- A body of the announced length is the same whole and in pieces. -/
theorem feed_fragmentation_body :
    ∃ s, newSession externals .server {} = .ok s ∧
      ((s.run (upTo "5")).run (dataPieces.map .feed)).failed = none ∧
        mergeEvents ((s.run (upTo "5")).run (dataPieces.map .feed)).events =
          mergeEvents ((s.run (upTo "5")).run [.feed dataPieces.flatten]).events := by
  obtain ⟨s, hnew, hf, hcut, hwhole, hfits⟩ := exists_newSession (X := externals)
    (r := .server) (l := {}) (p := fun s =>
      ((s.run (upTo "5")).run (dataPieces.map .feed)).failed = none ∧
        Meets NoLimit (s.run (upTo "5")) (dataPieces.map .feed) ∧
          Meets NoLimit (s.run (upTo "5")) [.feed dataPieces.flatten] ∧
            Meets FitsLength (s.run (upTo "5")) [.feed dataPieces.flatten]) (by decide +kernel)
  have hsettings : Meets SettingsFit s (upTo "5") := meets_settingsFit (by simp [upTo])
  obtain ⟨hiff, hsame⟩ := feed_fragmentation incremental hnew hsettings
    (by decide +kernel) hwhole hcut hfits
  exact ⟨s, hnew, hf, (hsame (by_contra fun hne => hiff.2 hne hf)).2.2.2⟩

/-- A body that is longer than announced: whole, it is not reported at all, and in two pieces the
first of them is. No limit is reached. -/
theorem excess_depends_on_cut :
    ∃ s, newSession externals .server {} = .ok s ∧
      Meets NoLimit (s.run (upTo "3")) (dataPieces.map .feed) ∧
        Meets NoLimit (s.run (upTo "3")) [.feed dataPieces.flatten] ∧
          ((s.run (upTo "3")).run (dataPieces.map .feed)).failed = none ∧
            ((s.run (upTo "3")).run [.feed dataPieces.flatten]).failed = none ∧
              (mergeEvents ((s.run (upTo "3")).run (dataPieces.map .feed)).events).map Event.type =
                [.settings, .headers, .data, .streamReset, .streamReset] ∧
                (mergeEvents ((s.run (upTo "3")).run [.feed dataPieces.flatten]).events).map
                  Event.type = [.settings, .headers, .streamReset, .streamReset] :=
  exists_newSession (by decide +kernel)

end Session

end WagoHttp.Http2
