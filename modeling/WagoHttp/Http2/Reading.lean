import WagoHttp.Http2.Phase

/-!
# Reading frames

The parser takes octets in pieces of any size. Inside a frame its state does not depend on how the
octets came: `Parser.Within` computes it from the octets of the payload so far, and `Payload.Reads`
says that a function of the parser takes the state of the octets before to the state of the octets
after. The pieces only show in the lengths of the fragments that callbacks report, which
`octetCalls` forgets.
-/

namespace WagoHttp.Http2

open List hiding beq_eq_decide

open FrameHeader

/-- Callbacks with their fragments cut into octets. -/
def octetCalls (calls : List Callback) : List Callback := calls.flatMap Callback.octets

@[simp] theorem octetCalls_nil : octetCalls [] = [] := rfl

@[simp] theorem octetCalls_append (calls calls' : List Callback) :
    octetCalls (calls ++ calls') = octetCalls calls ++ octetCalls calls' := flatMap_append

/-! ## The layout of a payload -/

/-- The entries of a SETTINGS payload. -/
def settingEntries : Bytes → List Setting
  | a :: b :: c :: d :: e :: f :: rest =>
    { id := UInt16.ofNat (beNat [a, b]), value := UInt32.ofNat (beNat [c, d, e, f]) } ::
      settingEntries rest
  | _ => []

/-- The octets of a SETTINGS payload after its last complete entry. -/
def settingRest : Bytes → Bytes
  | _ :: _ :: _ :: _ :: _ :: _ :: rest => settingRest rest
  | rest => rest

theorem length_settingRest (acc : Bytes) : (settingRest acc).length = acc.length % 6 := by
  fun_induction settingRest acc with
  | case1 a b c d e f rest ih =>
    rw [ih]
    simp only [length_cons]
    omega
  | case2 rest hshort =>
    have hlt : rest.length < 6 := by
      by_contra hge
      match rest, hge with
      | a :: b :: c :: d :: e :: f :: rest, _ => exact hshort a b c d e f rest rfl
      | [], hge | [_], hge | [_, _], hge | [_, _, _], hge | [_, _, _, _], hge
      | [_, _, _, _, _], hge => simp at hge
    omega

theorem settingRest_append (acc x : Bytes) :
    settingRest (acc ++ x) = settingRest (settingRest acc ++ x) := by
  fun_induction settingRest acc with
  | case1 a b c d e f rest ih =>
    rw [← ih]
    rfl
  | case2 => rfl

theorem settingEntries_append (acc x : Bytes) :
    settingEntries (acc ++ x) = settingEntries acc ++ settingEntries (settingRest acc ++ x) := by
  fun_induction settingRest acc with
  | case1 a b c d e f rest ih =>
    exact congrArg (_ :: ·) ih
  | case2 rest hshort =>
    rw [show settingEntries rest = [] from by
      unfold settingEntries
      split
      · exact absurd rfl (hshort _ _ _ _ _ _ _)
      · rfl]
    rfl

/-- Fewer octets than an entry has. -/
theorem settingEntries_short {l : Bytes} (h : l.length < 6) :
    settingEntries l = [] ∧ settingRest l = l := by
  match l, h with
  | a :: b :: c :: d :: e :: f :: rest, h =>
    simp only [length_cons] at h
    omega
  | [], _ | [_], _ | [_, _], _ | [_, _, _], _ | [_, _, _, _], _ | [_, _, _, _, _], _ =>
    exact ⟨rfl, rfl⟩

/-- The octets of one entry. -/
theorem settingEntries_single {l : Bytes} (h : l.length = 6) :
    settingEntries l = [{ id := UInt16.ofNat (beNat (l.take 2))
                          value := UInt32.ofNat (beNat ((l.drop 2).take 4)) }] ∧
      settingRest l = [] := by
  match l, h with
  | [a, b, c, d, e, f], _ => exact ⟨rfl, rfl⟩

namespace FrameHeader

variable (h : FrameHeader)

/-- The frames that can be padded. -/
def mayPad : Prop := h.type = .data ∨ h.type = .headers ∨ h.type = .pushPromise

instance : Decidable h.mayPad := inferInstanceAs (Decidable (_ ∨ _))

/-- The octets of the fixed fields of a payload, or of an entry of SETTINGS. -/
def fixedOctets : ℕ :=
  if h.type = .headers then if h.flags.has .priority then 5 else 0
  else if h.type = .priority then 5
  else if h.type = .rstStream then 4
  else if h.type = .settings then 6
  else if h.type = .pushPromise then 4
  else if h.type = .ping then 8
  else if h.type = .goAway then 8
  else if h.type = .windowUpdate then 4
  else 0

/-- The octets of a payload before its content. -/
def contentStart : ℕ := Parser.padOctets h + h.fixedOctets

/-- The length of the padding, which the first octet of a padded payload gives. -/
def padLength (acc : Bytes) : ℕ :=
  if h.mayPad ∧ h.flags.has .padded then (acc.headD 0).toNat else 0

/-- The octets of a payload before its padding. -/
def contentEnd (acc : Bytes) : ℕ := h.length - h.padLength acc

/-- The content in the octets of a payload so far. -/
def content (acc : Bytes) : Bytes := (acc.take (h.contentEnd acc)).drop h.contentStart

/-- The fixed fields in the octets of a payload so far. -/
def fixedFields (acc : Bytes) : Bytes :=
  if h.mayPad then (acc.drop (Parser.padOctets h)).take h.fixedOctets
  else if h.type = .settings then settingRest acc
  else acc.take h.fixedOctets

/-- The octets of a header block in the octets of a payload so far. -/
def blockOctets (acc : Bytes) : ℕ :=
  if h.type = .headers ∨ h.type = .pushPromise then (h.content acc).length
  else if h.type = .continuation then acc.length
  else 0

/-- The state of the parser after some octets of a payload. -/
def payloadState (acc : Bytes) : PayloadState :=
  if ¬h.mayPad ∨ acc = [] then .start
  else if acc.length < h.contentStart then .fixed
  else if h.contentEnd acc ≤ acc.length then .padding
  else .content

/-- The callbacks for some octets of a payload, octet by octet. -/
def payloadCalls (acc : Bytes) : List Callback :=
  if h.type = .data then
    (h.content acc).map fun b => .data h.streamID [b] (h.flags.has .endStream)
  else if h.type = .headers then
    (if h.flags.has .priority ∧ h.contentStart ≤ acc.length then
      [.priority h.streamID (decodePriority (h.fixedFields acc))] else []) ++
      (h.content acc).map fun b => .headerBlock h.streamID [b]
  else if h.type = .pushPromise then
    (if h.contentStart ≤ acc.length then
      [.pushPromise h.streamID (beNat (h.fixedFields acc) % 2 ^ 31)] else []) ++
      (h.content acc).map fun b => .headerBlock h.streamID [b]
  else if h.type = .settings then (settingEntries acc).map .setting
  else if h.type = .goAway then (acc.drop 8).map fun b => .goAwayDebug [b]
  else if h.type = .continuation then acc.map fun b => .headerBlock h.streamID [b]
  else if h.type = .priority ∨ h.type = .rstStream ∨ h.type = .ping ∨ h.type = .windowUpdate then []
  else acc.map fun b => .unknown h [b]

/-- What is wrong with some octets of a payload. -/
def payloadFault (acc : Bytes) : Code :=
  if h.mayPad ∧ h.length - h.contentStart < h.padLength acc then .invalidPadding
  else if h.type = .headers ∧ h.flags.has .priority ∧ h.contentStart ≤ acc.length ∧
      (decodePriority (h.fixedFields acc)).streamDependency = h.streamID then .invalidPriority
  else if h.type = .pushPromise ∧ h.contentStart ≤ acc.length ∧
      beNat (h.fixedFields acc) % 2 ^ 31 = 0 then .invalidStreamID
  else if h.type = .settings ∧ ∃ x ∈ settingEntries acc, validSetting x = false then .invalidSetting
  else .none

/-- Some octets of a payload, with those of `src` that belong to it. -/
def taken (acc src : Bytes) : Bytes := acc ++ src.take (h.length - acc.length)

variable {h}

theorem length_taken (acc src : Bytes) :
    (h.taken acc src).length = acc.length + min (h.length - acc.length) src.length := by
  rw [taken, length_append, length_take]

theorem taken_ne_nil {acc src : Bytes} (hlt : acc.length < h.length) (hs : src ≠ []) :
    h.taken acc src ≠ [] := by
  have hlen := length_pos_iff.2 hs
  refine ne_nil_of_length_pos ?_
  rw [length_taken]
  omega

theorem padLength_append {acc : Bytes} (x : Bytes) (hs : Parser.padOctets h ≤ acc.length) :
    h.padLength (acc ++ x) = h.padLength acc := by
  unfold padLength
  split
  · next hp =>
    cases acc with
    | nil => simp [Parser.padOctets, hp.2] at hs
    | cons b acc => rfl
  · rfl

theorem contentEnd_append {acc : Bytes} (x : Bytes) (hs : Parser.padOctets h ≤ acc.length) :
    h.contentEnd (acc ++ x) = h.contentEnd acc := by
  rw [contentEnd, contentEnd, padLength_append x hs]

/-- The rest of a payload after some octets of `src`. -/
theorem taken_taken {acc src : Bytes} {k : ℕ} (hk : k ≤ src.length)
    (hle : acc.length + k ≤ h.length) :
    h.taken (acc ++ src.take k) (src.drop k) = h.taken acc src := by
  have hsum : h.length - acc.length = k + (h.length - (acc.length + k)) := by omega
  rw [taken, taken, length_append, length_take, Nat.min_eq_left hk, hsum, take_add,
    append_assoc]

theorem content_append {acc : Bytes} (x : Bytes) (hs : h.contentStart ≤ acc.length) :
    h.content (acc ++ x) = h.content acc ++ x.take (h.contentEnd acc - acc.length) := by
  rw [content, content, contentEnd_append x ((Nat.le_add_right _ _).trans hs), take_append,
    drop_append]
  congr 1
  by_cases hle : h.contentEnd acc ≤ acc.length
  · simp [Nat.sub_eq_zero_of_le hle]
  · rw [take_of_length_le (by omega), Nat.sub_eq_zero_of_le hs, drop_zero]

theorem fixedFields_append {acc : Bytes} (x : Bytes) (hp : h.mayPad)
    (hs : h.contentStart ≤ acc.length) : h.fixedFields (acc ++ x) = h.fixedFields acc := by
  rw [fixedFields, fixedFields, if_pos hp, if_pos hp]
  unfold contentStart at hs
  rw [drop_append_of_le_length (by omega), take_append_of_le_length]
  rw [length_drop]
  omega

/-- What is wrong with a payload stays wrong. -/
theorem payloadFault_append_of_ne {acc : Bytes} (x : Bytes) (hf : h.payloadFault acc ≠ .none) :
    h.payloadFault (acc ++ x) = h.payloadFault acc := by
  have hpadded (hne : acc ≠ []) : Parser.padOctets h ≤ acc.length := by
    have := length_pos_iff.2 hne
    unfold Parser.padOctets
    split <;> omega
  have hlen : acc.length ≤ (acc ++ x).length := by
    rw [length_append]
    omega
  by_cases hpad : h.mayPad ∧ h.length - h.contentStart < h.padLength acc
  · have hne : acc ≠ [] := by
      rintro rfl
      obtain ⟨-, hlt⟩ := hpad
      unfold padLength at hlt
      split at hlt
      · simp at hlt
      · exact absurd hlt (Nat.not_lt_zero _)
    rw [payloadFault, payloadFault, padLength_append x (hpadded hne), if_pos hpad, if_pos hpad]
  by_cases hfixed : h.mayPad ∧ 0 < h.contentStart ∧ h.contentStart ≤ acc.length
  · obtain ⟨hp, -, hs⟩ := hfixed
    have hset : h.type ≠ .settings := by
      rcases hp with ht | ht | ht <;> rw [ht] <;> decide
    simp only [payloadFault, padLength_append x ((Nat.le_add_right _ _).trans hs),
      fixedFields_append x hp hs, hs, hs.trans hlen, hset, false_and, if_false]
  · have hprio : ¬(h.type = .headers ∧ h.flags.has .priority = true ∧
        h.contentStart ≤ acc.length ∧
          (decodePriority (h.fixedFields acc)).streamDependency = h.streamID) := by
      rintro ⟨ht, hprio, hs, -⟩
      refine hfixed ⟨.inr (.inl ht), ?_, hs⟩
      rw [contentStart, fixedOctets, if_pos ht, if_pos hprio]
      omega
    have hpush : ¬(h.type = .pushPromise ∧ h.contentStart ≤ acc.length ∧
        beNat (h.fixedFields acc) % 2 ^ 31 = 0) := by
      rintro ⟨ht, hs, -⟩
      refine hfixed ⟨.inr (.inr ht), ?_, hs⟩
      simp +decide only [contentStart, fixedOctets, ht, if_false, if_true]
      omega
    have hset : h.type = .settings ∧ ∃ e ∈ settingEntries acc, validSetting e = false := by
      by_contra hset
      rw [payloadFault, if_neg hpad, if_neg hprio, if_neg hpush] at hf
      exact hf (if_neg hset)
    have hold : h.payloadFault acc = .invalidSetting := by
      rw [payloadFault, if_neg hpad, if_neg hprio, if_neg hpush, if_pos hset]
    obtain ⟨ht, e, he, hbad⟩ := hset
    have hany : ∃ e ∈ settingEntries (acc ++ x), validSetting e = false := by
      refine ⟨e, ?_, hbad⟩
      rw [settingEntries_append]
      exact mem_append_left _ he
    have hp : ¬h.mayPad := by
      rw [mayPad, ht]
      decide
    rw [hold, payloadFault, if_neg fun hc => hp hc.1,
      if_neg fun hc => absurd (ht.symm.trans hc.1) (by decide),
      if_neg fun hc => absurd (ht.symm.trans hc.1) (by decide), if_pos ⟨ht, hany⟩]

/-- Nothing is wrong with fewer octets. -/
theorem payloadFault_of_append {acc x : Bytes} (hf : h.payloadFault (acc ++ x) = .none) :
    h.payloadFault acc = .none := by
  by_contra hne
  exact hne ((payloadFault_append_of_ne x hne).symm.trans hf)

end FrameHeader

namespace Parser

/-- What parsing a payload leaves as it is. -/
def shell (p : Parser) : Limits × Code × Bool × Bool × Bytes × FrameHeader × ℕ × ℕ × Bool :=
  (p.limits, p.code, p.pauseAfterFrame, p.paused, p.header, p.current, p.continuationStream,
    p.continuationCount, p.headerBlockEndStream)

/-- The parser `p` is `base`, which has begun a frame, after the octets `acc` of its payload. -/
structure Within (base : Parser) (acc : Bytes) (p : Parser) : Prop where
  shell : p.shell = base.shell
  payloadN : p.payloadN = acc.length
  state : p.state = base.current.payloadState acc
  fixed : p.fixed = base.current.fixedFields acc
  fixedNeed : p.fixedNeed = if acc = [] then 0 else base.current.fixedOctets
  padLength : p.padLength = base.current.padLength acc
  contentN : p.contentN = if base.current.mayPad ∧ acc ≠ [] ∧ base.current.contentStart ≤ acc.length
    then base.current.contentEnd acc - acc.length else 0
  block : p.headerBlockBytes = (base.headerBlockBytes + base.current.blockOctets acc) % 2 ^ 64

/-- The header block is longer than the limit once the octets `acc` have come. -/
def Exceeds (base : Parser) (acc : Bytes) : Prop :=
  (base.headerBlockBytes + base.current.blockOctets acc) % 2 ^ 64 >
    base.limits.maxHeaderBlockBytes.toNat

variable {acc' : Bytes} {n : ℕ} {calls : List Callback}

theorem Exceeds.of_eq {base : Parser} {acc : Bytes} (h : base.Exceeds acc')
    (heq : base.current.blockOctets acc' = base.current.blockOctets acc) : base.Exceeds acc := by
  rw [Exceeds, ← heq]
  exact h

/-- The result `r` of parsing `src` after the octets `acc` of a payload, if it is no failure. -/
structure Payload.Advances (r : Payload) (base : Parser) (acc src : Bytes) : Prop where
  fault : base.current.payloadFault (base.current.taken acc src) = .none
  room : base.Exceeds (base.current.taken acc src) → base.Exceeds acc
  calls : base.current.payloadCalls acc ++ octetCalls r.calls =
    base.current.payloadCalls (base.current.taken acc src)
  n : r.n = min (base.current.length - acc.length) src.length
  done : r.done = decide (base.current.length ≤ acc.length + src.length)
  parser : Within base (base.current.taken acc src) r.parser

/-- Something is wrong with the octets `acc` of a payload and `n` octets of `src`, and with no
fewer. -/
structure FirstFault (h : FrameHeader) (acc src : Bytes) (n : ℕ) (code : Code) : Prop where
  le : n ≤ min (h.length - acc.length) src.length
  fault : h.payloadFault (acc ++ src.take n) = code
  before : ∀ k < n, h.payloadFault (acc ++ src.take k) = .none

/-- The result `r` of parsing `src` after the octets `acc` of a payload. -/
structure Payload.Reads (r : Payload) (base : Parser) (acc src : Bytes) : Prop where
  goes : r.code = .none → r.Advances base acc src
  stops : r.code ≠ .none → (FirstFault base.current acc src r.n r.code ∨
      r.code = .headerBlockTooLarge ∧ base.Exceeds (base.current.taken acc src) ∧
        base.current.payloadFault (base.current.taken acc src) = .none) ∧
    (r.parser.code = r.code ∧ r.parser.paused = base.paused) ∧
    base.current.payloadCalls acc ++ octetCalls r.calls <+:
      base.current.payloadCalls (base.current.taken acc src)

variable {r : Payload}

theorem Payload.Advances.reads {base : Parser} {acc src : Bytes} (h : r.Advances base acc src)
    (hc : r.code = .none) : r.Reads base acc src :=
  ⟨fun _ => h, fun hne => absurd hc hne⟩

/-- Parsing that goes on after the octets that `r` has taken. -/
theorem Payload.Reads.andThen {base : Parser} {acc src : Bytes} {k : Parser → Bytes → Payload}
    (hacc : acc' = acc ++ src.take r.n) (hn : r.n ≤ src.length)
    (hle : acc.length + r.n ≤ base.current.length) (hgood : base.current.payloadFault acc' = .none)
    (hblock : base.current.blockOctets acc' = base.current.blockOctets acc)
    (hcalls : base.current.payloadCalls acc ++ octetCalls r.calls = base.current.payloadCalls acc')
    (hk : (k r.parser (src.drop r.n)).Reads base acc' (src.drop r.n)) :
    (r.andThen src k).Reads base acc src := by
  subst hacc
  have htaken : base.current.taken (acc ++ src.take r.n) (src.drop r.n) =
      base.current.taken acc src := taken_taken hn hle
  have hall : base.current.payloadCalls acc ++ octetCalls (r.andThen src k).calls =
      base.current.payloadCalls (acc ++ src.take r.n) ++
        octetCalls (k r.parser (src.drop r.n)).calls := by
    rw [← hcalls, append_assoc, ← octetCalls_append]
    rfl
  have hlen : (acc ++ src.take r.n).length = acc.length + r.n := by
    rw [length_append, length_take, Nat.min_eq_left hn]
  constructor
  · intro hc
    obtain ⟨hfault, hroom, hcalls', hn', hdone, hparser⟩ := hk.goes hc
    rw [htaken] at hfault hroom hcalls' hparser
    rw [hlen, length_drop] at hn' hdone
    refine ⟨hfault, fun hex => (hroom hex).of_eq hblock, hall.trans hcalls', ?_, ?_, hparser⟩
    · change r.n + (k r.parser (src.drop r.n)).n = _
      omega
    · change (k r.parser (src.drop r.n)).done = _
      rw [hdone]
      exact decide_eq_decide.2 (by omega)
  · intro hc
    obtain ⟨hstop, hfailed, hpre⟩ := hk.stops hc
    rw [htaken, ← hall] at hpre
    refine ⟨hstop.imp (fun hfirst => ?_) (fun hbig => htaken ▸ hbig), hfailed, hpre⟩
    obtain ⟨hle', hfault, hbefore⟩ := hfirst
    rw [hlen, length_drop] at hle'
    have hcut (j : ℕ) (hj : r.n ≤ j) :
        acc ++ src.take r.n ++ (src.drop r.n).take (j - r.n) = acc ++ src.take j := by
      rw [append_assoc, ← take_add, Nat.add_sub_cancel' hj]
    refine ⟨?_, ?_, fun j hj => ?_⟩
    · change r.n + _ ≤ _
      omega
    · change base.current.payloadFault (acc ++ src.take (r.n + _)) = _
      rw [← hcut _ (Nat.le_add_right _ _), Nat.add_sub_cancel_left]
      exact hfault
    · rcases Nat.lt_or_ge j r.n with hlt | hge
      · refine payloadFault_of_append (x := (src.take r.n).drop j) ?_
        have hsplit := take_append_drop j (src.take r.n)
        rw [take_take, Nat.min_eq_left hlt.le] at hsplit
        rw [append_assoc, hsplit]
        exact hgood
      · rw [← hcut j hge]
        refine hbefore _ ?_
        change j < r.n + _ at hj
        omega

/-! ## Content and padding -/

/-- The parser is in the content or the padding of a payload. -/
structure Body (base : Parser) (acc : Bytes) (p : Parser) : Prop where
  shell : p.shell = base.shell
  payloadN : p.payloadN = acc.length
  fixed : p.fixed = base.current.fixedFields acc
  fixedNeed : p.fixedNeed = base.current.fixedOctets
  padLength : p.padLength = base.current.padLength acc
  contentN : p.contentN = base.current.contentEnd acc - acc.length
  block : p.headerBlockBytes = (base.headerBlockBytes + base.current.blockOctets acc) % 2 ^ 64
  state : p.state = .content ∨ p.state = .padding ∧ p.contentN = 0
  start : base.current.contentStart ≤ acc.length
  mayPad : base.current.mayPad
  pads : base.current.padLength acc ≤ base.current.length - base.current.contentStart
  le : acc.length ≤ base.current.length

variable {base p q : Parser} {acc src : Bytes}

theorem current_of_shell (h : p.shell = base.shell) : p.current = base.current := by
  simp only [shell, Prod.mk.injEq] at h
  exact h.2.2.2.2.2.1

theorem code_of_shell (h : p.shell = base.shell) : p.code = base.code := by
  simp only [shell, Prod.mk.injEq] at h
  exact h.2.1

theorem limits_of_shell (h : p.shell = base.shell) : p.limits = base.limits := by
  simp only [shell, Prod.mk.injEq] at h
  exact h.1

theorem reject_code {code : Code} (h : p.code = .none) : (p.reject n code calls).code = code := by
  simp [reject, fail, h]

/-- A rejection fails the parser. -/
theorem reject_fails {code : Code} (h : p.shell = base.shell) :
    (p.reject n code calls).parser.code = (p.reject n code calls).code ∧
      (p.reject n code calls).parser.paused = base.paused := by
  have hpaused : p.paused = base.paused := by
    simp only [shell, Prod.mk.injEq] at h
    exact h.2.2.2.1
  refine ⟨rfl, ?_⟩
  rw [← hpaused]
  simp only [reject, fail]
  split <;> rfl

theorem reads_reject {code : Code} (hshell : p.shell = base.shell) (hcode : base.code = .none)
    (hne : code ≠ .none) (hfirst : FirstFault base.current acc src n code)
    (hcalls : base.current.payloadCalls acc <+:
      base.current.payloadCalls (base.current.taken acc src)) :
    (p.reject n code).Reads base acc src := by
  have hc : (p.reject n code).code = code := reject_code ((code_of_shell hshell).trans hcode)
  refine ⟨fun h => absurd (hc.symm.trans h) hne,
    fun _ => ⟨.inl (hc.symm ▸ hfirst), reject_fails hshell, ?_⟩⟩
  simpa [reject] using hcalls

theorem Body.padded (h : Body base acc p) : padOctets base.current ≤ acc.length :=
  (Nat.le_add_right _ _).trans h.start

theorem Body.current (h : Body base acc p) : p.current = base.current := current_of_shell h.shell

theorem Body.contentN_le (h : Body base acc p) : p.contentN ≤ base.current.length - acc.length :=
  h.contentN.trans_le (Nat.sub_le_sub_right (Nat.sub_le _ _) _)

/-- The parser after the octets of `src` that belong to the payload. -/
theorem Body.within (h : Body base acc p) (hne : base.current.taken acc src ≠ [])
    (hshell : q.shell = p.shell) (hfixed : q.fixed = p.fixed) (hneed : q.fixedNeed = p.fixedNeed)
    (hpad : q.padLength = p.padLength)
    (hN : q.payloadN = acc.length + min (base.current.length - acc.length) src.length)
    (hcontent : q.contentN = p.contentN - min p.contentN src.length)
    (hstate : q.state = if q.contentN = 0 then .padding else .content)
    (hblock : q.headerBlockBytes =
      (base.headerBlockBytes + base.current.blockOctets (base.current.taken acc src)) % 2 ^ 64) :
    Within base (base.current.taken acc src) q := by
  have hlen := length_taken (h := base.current) acc src
  have hstart := h.start
  have hend : base.current.contentEnd (base.current.taken acc src) = base.current.contentEnd acc :=
    contentEnd_append _ h.padded
  have hle : base.current.contentEnd acc ≤ base.current.length := Nat.sub_le _ _
  have hleft : q.contentN =
      base.current.contentEnd acc - (base.current.taken acc src).length := by
    rw [hcontent, h.contentN, hlen]
    omega
  have hpast : ¬(base.current.taken acc src).length < base.current.contentStart := by omega
  refine ⟨hshell.trans h.shell, hN.trans hlen.symm, ?_, ?_, ?_, ?_, ?_, hblock⟩
  · rw [hstate, hleft, payloadState, if_neg (not_or.2 ⟨not_not.2 h.mayPad, hne⟩),
      if_neg hpast, hend]
    exact if_congr Nat.sub_eq_zero_iff_le rfl rfl
  · rw [hfixed, h.fixed]
    exact (fixedFields_append _ h.mayPad h.start).symm
  · rw [hneed, h.fixedNeed, if_neg hne]
  · rw [hpad, h.padLength]
    exact (padLength_append _ h.padded).symm
  · rw [if_pos ⟨h.mayPad, hne, by omega⟩, hend, hleft]

/-- Nothing is wrong with the content of a DATA frame. -/
theorem payloadFault_data {h : FrameHeader} (ht : h.type = .data)
    (hpad : h.padLength acc ≤ h.length - h.contentStart) : h.payloadFault acc = .none := by
  simp +decide [payloadFault, ht, not_lt.2 hpad]

/-- A part of the content in which nothing is wrong, with the calls it makes, and the padding after
the last part. -/
theorem Body.reads (h : Body base acc p) {block : ℕ} (hne : base.current.taken acc src ≠ [])
    (hfault : base.current.payloadFault (base.current.taken acc src) = .none)
    (hroom : base.Exceeds (base.current.taken acc src) → base.Exceeds acc)
    (hcalls : base.current.payloadCalls acc ++ octetCalls calls =
      base.current.payloadCalls (base.current.taken acc src))
    (hblock : block =
      (base.headerBlockBytes + base.current.blockOctets (base.current.taken acc src)) % 2 ^ 64)
    (hn : n = min p.contentN src.length) :
    (if p.contentN - n = 0 then Payload.andThen
        { parser := { p with contentN := 0, payloadN := p.payloadN + n, headerBlockBytes := block,
                             state := .padding }, n, calls } src skipPadding
      else payloadSoFar { p with contentN := p.contentN - n, payloadN := p.payloadN + n,
                                 headerBlockBytes := block } n calls).Reads base acc src := by
  have hcur := h.current
  have hN := h.payloadN
  have hleft := h.contentN_le
  have hle := h.le
  split
  · next hz =>
    refine Payload.Advances.reads ⟨hfault, hroom, ?_, ?_, ?_,
      h.within hne rfl rfl rfl rfl ?_ (hz.symm.trans (hn ▸ rfl)) rfl hblock⟩ rfl
    · simpa only [Payload.andThen, skipPadding, payloadSoFar, append_nil] using hcalls
    · simp only [Payload.andThen, skipPadding, payloadSoFar, hcur, hN, length_drop]
      omega
    · simp only [Payload.andThen, skipPadding, payloadSoFar, hcur, hN, length_drop, beq_eq_decide]
      exact decide_eq_decide.2 (by omega)
    · simp only [Payload.andThen, skipPadding, payloadSoFar, hcur, hN, length_drop]
      omega
  · next hz =>
    have hst : p.state = .content := h.state.resolve_right fun h0 => hz (by omega)
    refine Payload.Advances.reads ⟨hfault, hroom, hcalls, ?_, ?_,
      h.within hne rfl rfl rfl rfl ?_ (hn ▸ rfl) (hst.trans (if_neg hz).symm) hblock⟩ rfl
    · change n = _
      omega
    · simp only [payloadSoFar, hcur, hN, beq_eq_decide]
      exact decide_eq_decide.2 (by omega)
    · change p.payloadN + n = _
      omega

theorem reads_parseDataContent (ht : base.current.type = .data) (h : Body base acc p)
    (hne : base.current.taken acc src ≠ []) : (p.parseDataContent src).Reads base acc src := by
  have hfault : base.current.payloadFault (base.current.taken acc src) = .none :=
    payloadFault_data ht ((padLength_append _ h.padded).trans_le h.pads)
  have hblock (acc : Bytes) : base.current.blockOctets acc = 0 := by
    simp +decide [blockOctets, ht]
  have hroom (hex : base.Exceeds (base.current.taken acc src)) : base.Exceeds acc :=
    hex.of_eq ((hblock _).trans (hblock acc).symm)
  have hbytes : p.headerBlockBytes = (base.headerBlockBytes +
      base.current.blockOctets (base.current.taken acc src)) % 2 ^ 64 := by
    rw [hblock, ← hblock acc]
    exact h.block
  have hcalls : base.current.payloadCalls acc ++ octetCalls (if min p.contentN src.length ≠ 0 then
        [.data p.current.streamID (src.take (min p.contentN src.length))
          (p.current.flags.has .endStream)] else []) =
      base.current.payloadCalls (base.current.taken acc src) := by
    rw [payloadCalls, if_pos ht, payloadCalls, if_pos ht, taken, content_append _ h.start, map_append,
      take_take, ← h.contentN, Nat.min_eq_left h.contentN_le, ← take_eq_take_min, h.current]
    split
    · simp [octetCalls, Callback.octets]
    · next h0 => simp [take_eq_take_min, not_not.1 h0]
  have hread := h.reads hne hfault hroom hcalls hbytes rfl
  unfold parseDataContent
  rcases h.state with hst | ⟨hst, h0⟩
  · simp only [hst, true_and, if_true]
    by_cases hz : p.contentN - min p.contentN src.length = 0
    · simpa only [hz, if_true] using hread
    · simpa only [hz, if_false, hst, reduceCtorEq] using hread
  · have hp : { p with contentN := 0, state := .padding } = p := by rw [← h0, ← hst]
    simpa only [hst, h0, hp, reduceCtorEq, false_and, if_false, if_true, Nat.zero_min, Nat.sub_zero,
      Nat.add_zero, ne_eq, not_true_eq_false] using hread

/-- The frames that carry a header block and can be padded. -/
theorem payloadCalls_append {h : FrameHeader} (ht : h.type = .headers ∨ h.type = .pushPromise)
    (hs : h.contentStart ≤ acc.length) (x : Bytes) :
    h.payloadCalls (acc ++ x) = h.payloadCalls acc ++
      (x.take (h.contentEnd acc - acc.length)).map fun b => .headerBlock h.streamID [b] := by
  have hs' : h.contentStart ≤ (acc ++ x).length := by
    rw [length_append]
    omega
  have hcontent := content_append x hs
  have hfixed := fixedFields_append x (.inr ht) hs
  rcases ht with ht | ht
  · simp +decide only [payloadCalls, ht, if_true, if_false, hs, hs', hfixed, hcontent,
      map_append, append_assoc]
  · simp +decide only [payloadCalls, ht, if_true, if_false, hs, hs', hfixed, hcontent,
      map_append, append_assoc]

theorem blockOctets_append {h : FrameHeader} (ht : h.type = .headers ∨ h.type = .pushPromise)
    (hs : h.contentStart ≤ acc.length) (x : Bytes) :
    h.blockOctets (acc ++ x) =
      h.blockOctets acc + min (h.contentEnd acc - acc.length) x.length := by
  rw [blockOctets, if_pos ht, blockOctets, if_pos ht,
    content_append x hs, length_append, length_take]

/-- What is wrong with a payload shows before its content. -/
theorem payloadFault_append {h : FrameHeader} (ht : h.type = .headers ∨ h.type = .pushPromise)
    (hs : h.contentStart ≤ acc.length) (x : Bytes) :
    h.payloadFault (acc ++ x) = h.payloadFault acc := by
  have hs' : h.contentStart ≤ (acc ++ x).length := by
    rw [length_append]
    omega
  have hset : h.type ≠ .settings := by
    rcases ht with ht | ht <;> rw [ht] <;> decide
  simp only [payloadFault, padLength_append x (le_trans le_self_add hs),
    fixedFields_append x (.inr ht) hs, hs, hs', hset, false_and, if_false]

/-- A header block that grows past its limit. -/
theorem reads_tooLarge (hshell : p.shell = base.shell) (hcode : base.code = .none)
    (hex : base.Exceeds (base.current.taken acc src))
    (hfault : base.current.payloadFault (base.current.taken acc src) = .none)
    (hcalls : base.current.payloadCalls acc <+:
      base.current.payloadCalls (base.current.taken acc src)) :
    (p.reject 0 .headerBlockTooLarge).Reads base acc src := by
  have hc : (p.reject 0 .headerBlockTooLarge).code = .headerBlockTooLarge :=
    reject_code ((code_of_shell hshell).trans hcode)
  refine ⟨fun h => absurd (hc.symm.trans h) (by decide),
    fun _ => ⟨.inr ⟨hc, hex, hfault⟩, reject_fails hshell, ?_⟩⟩
  simpa [reject] using hcalls

section HeaderContent

variable (ht : base.current.type = .headers ∨ base.current.type = .pushPromise)
  (h : Body base acc p)

include ht h

/-- The callbacks for the next part of a header block. -/
theorem Body.headerCalls (src : Bytes) : base.current.payloadCalls acc ++
    ((src.take p.contentN).map fun b => .headerBlock base.current.streamID [b]) =
      base.current.payloadCalls (base.current.taken acc src) := by
  rw [taken, payloadCalls_append ht h.start, take_take, ← h.contentN, Nat.min_eq_left h.contentN_le]

/-- The octets of a header block with the next part. -/
theorem Body.headerBlock (src : Bytes) :
    (p.headerBlockBytes + min p.contentN src.length) % 2 ^ 64 = (base.headerBlockBytes +
      base.current.blockOctets (base.current.taken acc src)) % 2 ^ 64 := by
  have hleft := h.contentN_le
  rw [taken, blockOctets_append ht h.start, h.block, Nat.mod_add_mod, Nat.add_assoc, length_take,
    ← h.contentN]
  congr 3
  omega

variable (hfault : base.current.payloadFault acc = .none) (hne : base.current.taken acc src ≠ [])

include hfault hne

/-- Octets of a header block have come. -/
theorem Body.reads_fragment (hcode : base.code = .none) (hst : p.state = .content)
    (hz : p.contentN ≠ 0) (hs : src ≠ []) :
    (p.parseHeaderContentAndPadding src).Reads base acc src := by
  have hpos := length_pos_iff.2 hs
  have hcount : min p.contentN src.length ≠ 0 := by omega
  have hblock := h.headerBlock ht src
  have hfault' : base.current.payloadFault (base.current.taken acc src) = .none :=
    (payloadFault_append ht h.start _).trans hfault
  have hcalls : base.current.payloadCalls acc ++ octetCalls [.headerBlock p.current.streamID
      (src.take (min p.contentN src.length))] =
        base.current.payloadCalls (base.current.taken acc src) := by
    rw [← h.headerCalls ht src, ← take_eq_take_min, h.current]
    simp [octetCalls, Callback.octets]
  have hbig : (p.headerBlockBytes + min p.contentN src.length) % 2 ^ 64 >
      p.limits.maxHeaderBlockBytes.toNat ↔ base.Exceeds (base.current.taken acc src) := by
    rw [hblock, limits_of_shell h.shell, Exceeds]
  rw [parseHeaderContentAndPadding, if_pos ⟨hst, hz, hs⟩]
  simp only [parseHeaderFragment, hcount, if_false]
  by_cases hex : base.Exceeds (base.current.taken acc src)
  · have hread := reads_tooLarge h.shell hcode hex hfault' ⟨_, hcalls⟩
    have hc : (p.reject 0 .headerBlockTooLarge).code ≠ .none := by
      rw [reject_code ((code_of_shell h.shell).trans hcode)]
      decide
    simp only [if_pos (hbig.2 hex), if_pos hc]
    exact hread
  · have hread := h.reads hne hfault' (fun hc => absurd hc hex) hcalls hblock rfl
    simp only [if_neg (mt hbig.1 hex), ne_eq, not_true_eq_false, if_false, if_pos hst]
    by_cases hall : min p.contentN src.length = p.contentN
    · simp only [hall, Nat.sub_self, if_true, beq_self_eq_true, Bool.not_true, Bool.false_eq_true,
        if_false] at hread ⊢
      exact hread
    · have hlt : p.payloadN + min p.contentN src.length ≠ p.current.length := by
        have hleft := h.contentN_le
        rw [h.payloadN, h.current]
        omega
      rw [if_neg (by omega), payloadSoFar, beq_eq_false_iff_ne.2 hlt] at hread
      simpa only [beq_eq_false_iff_ne.2 hall, Bool.not_false, if_true] using hread

/-- No octet of a header block is left, or none has come. -/
theorem Body.reads_rest (hst : ¬(p.state = .content ∧ p.contentN ≠ 0 ∧ src ≠ [])) :
    (p.parseHeaderContentAndPadding src).Reads base acc src := by
  have hzero : min p.contentN src.length = 0 := by
    by_contra hpos
    refine hst ⟨h.state.resolve_right fun h0 => ?_, ?_, ?_⟩
    · omega
    · omega
    · rintro rfl
      simp at hpos
  have hcalls := h.headerCalls ht src
  have hblock := h.headerBlock ht src
  rw [take_eq_take_min, hzero, take_zero, map_nil, ← octetCalls_nil] at hcalls
  rw [hzero, Nat.add_zero, h.block, Nat.mod_mod, ← h.block] at hblock
  have hroom (hex : base.Exceeds (base.current.taken acc src)) : base.Exceeds acc := by
    rwa [Exceeds, ← hblock, h.block] at hex
  have hread := h.reads hne ((payloadFault_append ht h.start _).trans hfault) hroom hcalls hblock
    hzero.symm
  rw [parseHeaderContentAndPadding, if_neg hst]
  by_cases hz : p.contentN = 0
  · have hpadding : (if p.state = .content ∧ p.contentN = 0 then { p with state := .padding }
        else p) = { p with contentN := 0, state := .padding } := by
      rcases h.state with hst' | ⟨hst', -⟩
      · rw [if_pos ⟨hst', hz⟩, ← hz]
      · rw [if_neg (by simp [hst']), ← hst', ← hz]
    rw [hpadding]
    simpa [hz, Payload.andThen] using hread
  · have hst' : p.state ≠ .padding := by simp [h.state.resolve_right fun h0 => hz h0.2]
    simpa only [hz, and_false, if_false, if_neg hst', Nat.sub_zero, Nat.add_zero] using hread

end HeaderContent

theorem reads_parseHeaderContentAndPadding
    (ht : base.current.type = .headers ∨ base.current.type = .pushPromise) (h : Body base acc p)
    (hcode : base.code = .none) (hfault : base.current.payloadFault acc = .none)
    (hne : base.current.taken acc src ≠ []) :
    (p.parseHeaderContentAndPadding src).Reads base acc src := by
  by_cases hst : p.state = .content ∧ p.contentN ≠ 0 ∧ src ≠ []
  · exact h.reads_fragment ht hfault hne hcode hst.1 hst.2.1 hst.2.2
  · exact h.reads_rest ht hfault hne hst

/-! ## The fixed fields before the content -/

/-- The parser is in the fixed fields of a payload. -/
structure Fields (base : Parser) (acc : Bytes) (p : Parser) : Prop where
  shell : p.shell = base.shell
  payloadN : p.payloadN = acc.length
  fixed : p.fixed = base.current.fixedFields acc
  fixedNeed : p.fixedNeed = base.current.fixedOctets
  padLength : p.padLength = base.current.padLength acc
  contentN : p.contentN = 0
  block : p.headerBlockBytes = base.headerBlockBytes % 2 ^ 64
  state : p.state = .fixed
  mayPad : base.current.mayPad
  padded : padOctets base.current ≤ acc.length
  pads : base.current.padLength acc ≤ base.current.length - base.current.contentStart
  fits : base.current.contentStart ≤ base.current.length

theorem content_eq_nil {h : FrameHeader} (hle : acc.length ≤ h.contentStart) :
    h.content acc = [] := by
  rw [content, drop_eq_nil_iff, length_take]
  omega

theorem blockOctets_eq_zero {h : FrameHeader} (hp : h.mayPad) (hle : acc.length ≤ h.contentStart) :
    h.blockOctets acc = 0 := by
  have ht : h.type ≠ .continuation := by
    rcases hp with ht | ht | ht <;> rw [ht] <;> decide
  rw [blockOctets, content_eq_nil hle, if_neg ht]
  exact ite_self _

theorem length_fixedFields {h : FrameHeader} (hp : h.mayPad) (hle : acc.length ≤ h.contentStart) :
    (h.fixedFields acc).length = acc.length - padOctets h := by
  unfold contentStart at hle
  rw [fixedFields, if_pos hp, length_take, length_drop]
  omega

/-- Copying octets of the fixed fields. -/
theorem Fields.copy (h : Fields base acc p) (src : Bytes)
    (hle : acc.length ≤ base.current.contentStart) :
    (p.copyFixed src).2 = min (base.current.contentStart - acc.length) src.length ∧
      Fields base (acc ++ src.take (p.copyFixed src).2) (p.copyFixed src).1 := by
  have hpadded := h.padded
  have hlen := length_fixedFields h.mayPad hle
  have hcount : (p.copyFixed src).2 = min (base.current.contentStart - acc.length) src.length := by
    simp only [copyFixed, h.fixedNeed, h.fixed, hlen, contentStart]
    congr 1
    omega
  have hpad := padLength_append (src.take (p.copyFixed src).2) h.padded
  refine ⟨hcount, h.shell, ?_, ?_, h.fixedNeed, ?_, h.contentN, h.block, h.state, h.mayPad, ?_, ?_,
    h.fits⟩
  · change p.payloadN + (p.copyFixed src).2 = _
    rw [length_append, length_take, h.payloadN, hcount]
    omega
  · change p.fixed ++ src.take (p.copyFixed src).2 = _
    have hroom : (src.take (p.copyFixed src).2).length ≤
        base.current.fixedOctets - (acc.length - padOctets base.current) := by
      rw [length_take, hcount, contentStart]
      omega
    unfold contentStart at hle
    rw [h.fixed, fixedFields, if_pos h.mayPad, fixedFields,
      if_pos h.mayPad, drop_append_of_le_length h.padded, take_append,
      take_of_length_le (l := drop _ _) (by rw [length_drop]; omega), length_drop,
      take_of_length_le hroom]
  · exact h.padLength.trans hpad.symm
  · rw [length_append]
    omega
  · rw [hpad]
    exact h.pads

theorem Fields.within (h : Fields base acc p) (hlt : acc.length < base.current.contentStart)
    (hne : acc ≠ []) : Within base acc p := by
  refine ⟨h.shell, h.payloadN, ?_, h.fixed, ?_, h.padLength, ?_, ?_⟩
  · rw [h.state, payloadState, if_neg (not_or.2 ⟨not_not.2 h.mayPad, hne⟩), if_pos hlt]
  · rw [h.fixedNeed, if_neg hne]
  · rw [h.contentN, if_neg fun hc => absurd hc.2.2 (not_le.2 hlt)]
  · rw [blockOctets_eq_zero h.mayPad hlt.le]
    exact h.block

/-- The fixed fields are complete. -/
theorem Fields.body (h : Fields base acc p) (heq : acc.length = base.current.contentStart) :
    Body base acc p.beginContent := by
  have hcur : p.current = base.current := current_of_shell h.shell
  refine ⟨h.shell, h.payloadN, h.fixed, h.fixedNeed, h.padLength, ?_, ?_, .inl rfl, heq.ge,
    h.mayPad, h.pads, heq.trans_le h.fits⟩
  · change p.current.length - p.payloadN - p.padLength = _
    rw [hcur, h.payloadN, h.padLength, contentEnd]
    omega
  · rw [blockOctets_eq_zero h.mayPad heq.le]
    exact h.block

/-- Whether the fixed fields are incomplete. -/
theorem Fields.short_iff (h : Fields base acc p) (hle : acc.length ≤ base.current.contentStart) :
    p.fixed.length < p.fixedNeed ↔ acc.length < base.current.contentStart := by
  have hpadded := h.padded
  rw [h.fixed, h.fixedNeed, length_fixedFields h.mayPad hle, contentStart]
  omega

/-- There are no callbacks before the fixed fields are complete. -/
theorem payloadCalls_eq_nil {h : FrameHeader} (ht : h.type = .headers ∨ h.type = .pushPromise)
    (hlt : acc.length < h.contentStart) : h.payloadCalls acc = [] := by
  rcases ht with ht | ht
  · simp +decide [payloadCalls, ht, not_le.2 hlt, content_eq_nil hlt.le]
  · simp +decide [payloadCalls, ht, not_le.2 hlt, content_eq_nil hlt.le]

/-- Before the fixed fields are complete, only the padding can be wrong. -/
theorem payloadFault_fields {h : FrameHeader} (ht : h.type = .headers ∨ h.type = .pushPromise)
    (hpads : h.padLength acc ≤ h.length - h.contentStart) (hlt : acc.length < h.contentStart) :
    h.payloadFault acc = .none := by
  have hset : h.type ≠ .settings := by
    rcases ht with ht | ht <;> rw [ht] <;> decide
  simp [payloadFault, not_lt.2 hpads, not_le.2 hlt, hset]

/-- The octets do not complete the fixed fields. -/
theorem Fields.reads (ht : base.current.type = .headers ∨ base.current.type = .pushPromise)
    (h : Fields base acc p) (hlt : acc.length + src.length < base.current.contentStart)
    (hne : base.current.taken acc src ≠ []) :
    ({ parser := (p.copyFixed src).1, n := (p.copyFixed src).2 } : Payload).Reads base acc src := by
  obtain ⟨hcount, hcopy⟩ := h.copy src (by omega)
  have hfits := h.fits
  have htaken : base.current.taken acc src = acc ++ src := by
    rw [taken, take_of_length_le (by omega)]
  have hall : (p.copyFixed src).2 = src.length := by
    rw [hcount]
    omega
  have hlt' : (acc ++ src).length < base.current.contentStart := by rwa [length_append]
  rw [hall, take_length] at hcopy
  rw [htaken] at hne
  refine Payload.Advances.reads ⟨?_, fun hex => hex.of_eq ?_, ?_, ?_, ?_, ?_⟩ rfl
  · rw [htaken]
    exact payloadFault_fields ht hcopy.pads hlt'
  · rw [htaken, blockOctets_eq_zero h.mayPad hlt'.le, blockOctets_eq_zero h.mayPad (by omega)]
  · rw [htaken, payloadCalls_eq_nil ht hlt', payloadCalls_eq_nil ht (by omega)]
    rfl
  · change (p.copyFixed src).2 = _
    omega
  · exact (decide_eq_false (by omega)).symm
  · rw [htaken]
    exact hcopy.within hlt' hne

/-- The fixed fields before a header block: once they are complete they are rejected, or the content
follows. -/
theorem Fields.parse (ht : base.current.type = .headers ∨ base.current.type = .pushPromise)
    (hcode : base.code = .none) (h : Fields base acc p)
    (hlt : acc.length < base.current.contentStart)
    (hne : base.current.taken acc src ≠ []) {need : ℕ}
    (hneed : base.current.fixedOctets = need) (bad : Bytes → Prop) [DecidablePred bad] {code : Code}
    (hbad : code ≠ .none) (call : Bytes → Callback) (hcall : ∀ l, (call l).octets = [call l])
    (hfault : ∀ acc', acc'.length = base.current.contentStart → Fields base acc' q →
      base.current.payloadFault acc' = if bad (base.current.fixedFields acc') then code else .none)
    (hcalls : ∀ acc', acc'.length = base.current.contentStart →
      base.current.payloadCalls acc' = [call (base.current.fixedFields acc')])
    (hcopy : p.copyFixed src = (q, n)) :
    (if q.fixed.length < q.fixedNeed then { parser := q, n }
      else if bad (q.fixed.take need) then q.reject n code
      else Payload.andThen { parser := q.beginContent, n, calls := [call (q.fixed.take need)] } src
        parseHeaderContentAndPadding).Reads base acc src := by
  obtain ⟨hcount, hfields⟩ := h.copy src hlt.le
  rw [hcopy] at hcount hfields
  simp only at hcount hfields
  have hfits := h.fits
  have hlen : (acc ++ src.take n).length = acc.length + n := by
    rw [length_append, length_take]
    omega
  have hshort := hfields.short_iff (by omega)
  split
  · next hlt' =>
    have hread := h.reads ht (by have := hshort.1 hlt'; omega) hne
    rwa [hcopy] at hread
  · next hge =>
    rw [hshort] at hge
    have hlen' : (acc ++ src.take n).length = base.current.contentStart := by omega
    have htake : q.fixed.take need = base.current.fixedFields (acc ++ src.take n) := by
      rw [hfields.fixed, take_of_length_le]
      rw [length_fixedFields hfields.mayPad hlen'.le, hlen', contentStart, hneed]
      omega
    have hnil := payloadCalls_eq_nil ht hlt
    have hfault := hfault _ hlen' hfields
    rw [htake]
    split
    · next hb =>
      refine reads_reject hfields.shell hcode hbad ⟨by omega, hfault.trans (if_pos hb), fun k hk =>
        payloadFault_fields ht ?_ ?_⟩ (hnil ▸ nil_prefix)
      · rw [padLength_append _ h.padded]
        exact h.pads
      · rw [length_append, length_take]
        omega
    · next hb =>
      rw [if_neg hb] at hfault
      refine Payload.Reads.andThen rfl (by simp only; omega) (by simp only; omega) hfault ?_ ?_ ?_
      · rw [blockOctets_eq_zero h.mayPad hlen'.le, blockOctets_eq_zero h.mayPad hlt.le]
      · rw [hnil, hcalls _ hlen']
        simpa [octetCalls] using hcall _
      · refine reads_parseHeaderContentAndPadding ht (hfields.body hlen') hcode hfault ?_
        rwa [taken_taken (by simp only; omega) (by simp only; omega)]

theorem reads_parseHeadersFixed (ht : base.current.type = .headers) (hcode : base.code = .none)
    (h : Fields base acc p) (hprio : base.current.flags.has .priority)
    (hlt : acc.length < base.current.contentStart) (hne : base.current.taken acc src ≠ []) :
    (p.parseHeadersFixed src).Reads base acc src := by
  have hneed : base.current.fixedOctets = 5 := by
    rw [fixedOctets, if_pos ht, if_pos hprio]
  rw [parseHeadersFixed, if_pos h.state]
  refine h.parse (.inl ht) hcode hlt hne hneed
    (fun l => (decodePriority l).streamDependency = p.current.streamID) (by decide)
    (fun l => .priority p.current.streamID (decodePriority l)) (fun _ => rfl)
    (fun acc' hlen hfields => ?_) (fun acc' hlen => ?_) rfl
  · simp +decide [payloadFault, not_lt.2 hfields.pads, ht, hprio, hlen.ge, current_of_shell h.shell]
  · simp +decide [payloadCalls, ht, hprio, hlen.ge, content_eq_nil hlen.le, current_of_shell h.shell]

theorem reads_parsePushPromiseFixed (ht : base.current.type = .pushPromise)
    (hcode : base.code = .none) (h : Fields base acc p)
    (hlt : acc.length < base.current.contentStart) (hne : base.current.taken acc src ≠ []) :
    (p.parsePushPromiseFixed src).Reads base acc src := by
  rw [parsePushPromiseFixed, if_pos h.state]
  refine h.parse (.inr ht) hcode hlt hne (by simp +decide [fixedOctets, ht])
    (fun l => beNat l % 2 ^ 31 = 0) (by decide)
    (fun l => .pushPromise p.current.streamID (beNat l % 2 ^ 31)) (fun _ => rfl)
    (fun acc' hlen hfields => ?_) (fun acc' hlen => ?_) rfl
  · simp +decide [payloadFault, not_lt.2 hfields.pads, ht, hlen.ge]
  · simp +decide [payloadCalls, ht, hlen.ge, content_eq_nil hlen.le, current_of_shell h.shell]

/-! ## The padding length -/

/-- The parser has read the padding length of a payload, or found that there is none. -/
structure Opened (base : Parser) (acc : Bytes) (p : Parser) : Prop where
  fields : Fields base acc { p with fixedNeed := base.current.fixedOctets, state := .fixed }
  fixedNeed : p.fixedNeed = 0
  length : acc.length = padOctets base.current

theorem Opened.body (h : Opened base acc p) (hz : base.current.fixedOctets = 0) :
    Body base acc p.beginContent := by
  have hbody := h.fields.body (by rw [h.length, contentStart, hz, Nat.add_zero])
  rwa [hz, ← h.fixedNeed] at hbody

theorem payloadCalls_opened {h : FrameHeader} (hp : h.mayPad) (hle : acc.length ≤ padOctets h) :
    h.payloadCalls acc = [] := by
  have hcontent : h.content acc = [] := content_eq_nil (hle.trans le_self_add)
  rcases hp with ht | ht | ht
  · simp [payloadCalls, ht, hcontent]
  · have hprio : ¬(h.flags.has .priority = true ∧ h.contentStart ≤ acc.length) := by
      rintro ⟨hprio, hle'⟩
      rw [contentStart, fixedOctets, if_pos ht, if_pos hprio] at hle'
      omega
    simp +decide only [payloadCalls, ht, if_false, if_true, if_neg hprio, hcontent,
      map_nil, append_nil]
  · refine payloadCalls_eq_nil (.inr ht) ?_
    simp +decide only [contentStart, fixedOctets, ht, if_false, if_true]
    omega

/-- What `readPadding` returns, with or without padding. -/
theorem opened_readPadding (h : Within base [] p) (hp : base.current.mayPad) (hs : src ≠ [])
    (hfits : base.current.contentStart ≤ base.current.length) {ok : Bool}
    (hread : p.readPadding src base.current.fixedOctets = (q, n, ok)) :
    n = padOctets base.current ∧ q.shell = base.shell ∧
      (ok = true ↔ base.current.padLength (src.take (padOctets base.current)) ≤
        base.current.length - base.current.contentStart) ∧
      (ok = true → Opened base (src.take (padOctets base.current)) q) := by
  have hcur : p.current = base.current := current_of_shell h.shell
  have hfixed : p.fixed = [] := by
    rw [h.fixed, fixedFields, if_pos hp, drop_nil, take_nil]
  have hblock : p.headerBlockBytes = base.headerBlockBytes % 2 ^ 64 := by
    rw [h.block, blockOctets_eq_zero hp (Nat.zero_le _), Nat.add_zero]
  have hcontent : p.contentN = 0 := h.contentN.trans (if_neg fun hc => hc.2.1 rfl)
  unfold readPadding at hread
  split at hread
  · next hpadded =>
    rw [hcur] at hpadded
    have hone : padOctets base.current = 1 := if_pos hpadded
    obtain ⟨b, rest, rfl⟩ := exists_cons_of_ne_nil hs
    have hpad : base.current.padLength ((b :: rest).take 1) = b.toNat := if_pos ⟨hp, hpadded⟩
    have hlen : base.current.length - 1 - base.current.fixedOctets =
        base.current.length - base.current.contentStart := by
      rw [contentStart, hone]
      omega
    simp only [Prod.mk.injEq, headD_cons] at hread
    obtain ⟨rfl, rfl, hok⟩ := hread
    rw [h.payloadN, hcur, length_nil, Nat.zero_add, hlen] at hok
    subst hok
    rw [hone, hpad]
    refine ⟨rfl, h.shell, decide_eq_true_iff, fun hok => ⟨⟨h.shell, ?_, ?_, rfl, hpad.symm,
      hcontent, hblock, rfl, hp, hone.le, hpad.trans_le (of_decide_eq_true hok), hfits⟩,
      h.fixedNeed, hone.symm⟩⟩
    · change p.payloadN + 1 = _
      rw [h.payloadN]
      rfl
    · rw [fixedFields, if_pos hp, hone]
      exact hfixed.trans take_nil.symm
  · next hpadded =>
    rw [hcur] at hpadded
    have hzero : padOctets base.current = 0 := if_neg hpadded
    have hpad (acc : Bytes) : base.current.padLength acc = 0 := if_neg fun hc => hpadded hc.2
    simp only [Prod.mk.injEq] at hread
    obtain ⟨rfl, rfl, rfl⟩ := hread
    rw [hzero, hpad]
    exact ⟨rfl, h.shell, iff_of_true rfl (Nat.zero_le _), fun hok => ⟨⟨h.shell, h.payloadN, h.fixed,
      rfl, h.padLength, hcontent, hblock, rfl, hp, hzero.le, (hpad _).trans_le (Nat.zero_le _),
      hfits⟩,
      h.fixedNeed, hzero.symm⟩⟩

/-- Up to the padding length nothing but it can be wrong. -/
theorem payloadFault_opened {h : FrameHeader} (hp : h.mayPad)
    (hpads : h.padLength acc ≤ h.length - h.contentStart) (hle : acc.length ≤ padOctets h) :
    h.payloadFault acc = .none := by
  have hset : h.type ≠ .settings := by
    rcases hp with ht | ht | ht <;> rw [ht] <;> decide
  rw [payloadFault, if_neg fun hc => absurd hc.2 (not_lt.2 hpads), if_neg, if_neg,
    if_neg fun hc => hset hc.1]
  · rintro ⟨ht, hs, -⟩
    simp +decide only [contentStart, fixedOctets, ht, if_false,
      if_true] at hs
    omega
  · rintro ⟨ht, hprio, hs, -⟩
    rw [contentStart, fixedOctets, if_pos ht, if_pos hprio] at hs
    omega

/-- The start of a payload that can be padded: the padding length, and what follows it. -/
theorem reads_padded (next : Parser → Bytes → Payload) (prep : Parser → Parser)
    (h : Within base [] p) (hp : base.current.mayPad) (hcode : base.code = .none) (hs : src ≠ [])
    (hfits : base.current.contentStart ≤ base.current.length) (hlt : 0 < base.current.length)
    {ok : Bool} (hread : p.readPadding src base.current.fixedOctets = (q, n, ok))
    (hgo : Opened base (src.take (padOctets base.current)) q →
      base.current.taken (src.take (padOctets base.current))
        (src.drop (padOctets base.current)) ≠ [] →
        (next (prep q) (src.drop (padOctets base.current))).Reads base
        (src.take (padOctets base.current)) (src.drop (padOctets base.current))) :
    (if !ok then q.reject n .invalidPadding
      else Payload.andThen { parser := prep q, n } src next).Reads base [] src := by
  have hpos := length_pos_iff.2 hs
  have hk : padOctets base.current ≤ src.length := by
    unfold padOctets
    split <;> omega
  have hle : padOctets base.current ≤ base.current.length := le_trans le_self_add hfits
  have hlen : (src.take (padOctets base.current)).length = padOctets base.current := by
    rw [length_take, Nat.min_eq_left hk]
  have htaken : base.current.taken (src.take (padOctets base.current))
      (src.drop (padOctets base.current)) = base.current.taken [] src := by
    have hle' : ([] : Bytes).length + padOctets base.current ≤ base.current.length := by
      simpa using hle
    exact taken_taken hk hle'
  have hnil : base.current.payloadCalls [] = [] := payloadCalls_opened hp (Nat.zero_le _)
  obtain ⟨rfl, hshell, hok, hopened⟩ := opened_readPadding h hp hs hfits hread
  cases ok with
  | false =>
    refine reads_reject hshell hcode (by decide) ?_ ?_
    · have hbad := mt hok.2 (by decide)
      refine ⟨?_, ?_, fun k hk => payloadFault_opened hp ?_ ?_⟩
      · rw [length_nil]
        omega
      · rw [nil_append, payloadFault, if_pos ⟨hp, not_le.1 hbad⟩]
      · have hzero : k = 0 := by
          unfold padOctets at hk
          split at hk <;> omega
        rw [hzero, FrameHeader.padLength]
        simp
      · rw [nil_append, length_take]
        omega
    · rw [hnil]
      exact nil_prefix
  | true =>
    have hacc : src.take (padOctets base.current) = [] ++ src.take (padOctets base.current) := rfl
    refine Payload.Reads.andThen hacc hk ?_ (payloadFault_opened hp (hok.1 rfl) hlen.le) ?_ ?_
      (hgo (hopened rfl) (htaken ▸ taken_ne_nil hlt hs))
    · simpa using hle
    · rw [blockOctets_eq_zero hp (hlen.trans_le le_self_add),
        blockOctets_eq_zero hp (Nat.zero_le _)]
    · rw [hnil, payloadCalls_opened hp hlen.le]
      rfl

/-! ## Frames with content -/

theorem Within.current (h : Within base acc p) : p.current = base.current :=
  current_of_shell h.shell

theorem Within.state_start (h : Within base [] p) : p.state = .start := by
  rw [h.state, payloadState, if_pos (.inr rfl)]

/-- Past the padding length the parser is in the fixed fields or in the content. -/
theorem Within.inside (h : Within base acc p) (hp : base.current.mayPad) (hne : acc ≠ [])
    (hfault : base.current.payloadFault acc = .none)
    (hfits : base.current.contentStart ≤ base.current.length)
    (hle : acc.length ≤ base.current.length) :
    acc.length < base.current.contentStart ∧ Fields base acc p ∨
      p.state ≠ .start ∧ p.state ≠ .fixed ∧ Body base acc p := by
  have hneed : p.fixedNeed = base.current.fixedOctets := by rw [h.fixedNeed, if_neg hne]
  have hstate := h.state
  rw [payloadState, if_neg (not_or.2 ⟨not_not.2 hp, hne⟩)] at hstate
  have hpads : base.current.padLength acc ≤ base.current.length - base.current.contentStart := by
    by_contra hbad
    rw [payloadFault, if_pos ⟨hp, not_le.1 hbad⟩] at hfault
    cases hfault
  have hpadded : padOctets base.current ≤ acc.length := by
    have := length_pos_iff.2 hne
    unfold padOctets
    split <;> omega
  by_cases hlt : acc.length < base.current.contentStart
  · have hblock := h.block
    rw [blockOctets_eq_zero hp hlt.le] at hblock
    rw [if_pos hlt] at hstate
    refine .inl ⟨hlt, h.shell, h.payloadN, h.fixed, hneed, h.padLength, ?_, hblock, hstate, hp,
      hpadded, hpads, hfits⟩
    rw [h.contentN, if_neg fun hc => absurd hc.2.2 (not_le.2 hlt)]
  · have hcontent := h.contentN
    rw [if_pos ⟨hp, hne, not_lt.1 hlt⟩] at hcontent
    rw [if_neg hlt] at hstate
    refine .inr ⟨?_, ?_, h.shell, h.payloadN, h.fixed, hneed, h.padLength, hcontent, h.block, ?_,
      not_lt.1 hlt, hp, hpads, hle⟩
    · rw [hstate]
      split <;> decide
    · rw [hstate]
      split <;> decide
    · split at hstate
      · exact .inr ⟨hstate, by omega⟩
      · exact .inl hstate

section Content

variable (hcode : base.code = .none) (h : Within base acc p)
  (hfault : base.current.payloadFault acc = .none)
  (hfits : base.current.contentStart ≤ base.current.length)
  (hlt : acc.length < base.current.length) (hs : src ≠ [])

include hcode h hfault hfits hlt hs

theorem reads_parseData (ht : base.current.type = .data) :
    (p.parseData src).Reads base acc src := by
  have hp : base.current.mayPad := .inl ht
  have hzero : base.current.fixedOctets = 0 := by simp +decide [fixedOctets, ht]
  unfold parseData
  by_cases hnil : acc = []
  · subst hnil
    rw [if_pos h.state_start, ← hzero]
    rcases hread : p.readPadding src base.current.fixedOctets with ⟨q, n, ok⟩
    exact reads_padded parseDataContent beginContent h hp hcode hs hfits hlt hread
      fun hopened hne => reads_parseDataContent ht (hopened.body hzero) hne
  · rcases h.inside hp hnil hfault hfits hlt.le with ⟨hlt', hfields⟩ | ⟨hstart, -, hbody⟩
    · rw [contentStart, hzero] at hlt'
      exact absurd hfields.padded (not_le.2 hlt')
    · rw [if_neg hstart]
      exact reads_parseDataContent ht hbody (taken_ne_nil hlt hs)

theorem reads_parseHeaders (ht : base.current.type = .headers) :
    (p.parseHeaders src).Reads base acc src := by
  have hp : base.current.mayPad := .inr (.inl ht)
  have hneed : base.current.fixedOctets = if base.current.flags.has .priority then 5 else 0 :=
    if_pos ht
  unfold parseHeaders
  by_cases hnil : acc = []
  · subst hnil
    rw [if_pos h.state_start, h.current, ← hneed]
    rcases hread : p.readPadding src base.current.fixedOctets with ⟨q, n, ok⟩
    refine reads_padded parseHeadersFixed
      (fun q => if q.current.flags.has .priority then { q with fixedNeed := 5, state := .fixed }
        else q.beginContent) h hp hcode hs hfits hlt hread fun hopened hne => ?_
    have hq : q.current = base.current := current_of_shell hopened.fields.shell
    by_cases hprio : base.current.flags.has .priority
    · rw [if_pos hprio] at hneed
      have hfields := hopened.fields
      rw [hneed] at hfields
      rw [if_pos (hq ▸ hprio)]
      refine reads_parseHeadersFixed ht hcode hfields hprio ?_ hne
      rw [hopened.length, contentStart, hneed]
      omega
    · rw [if_neg hprio] at hneed
      rw [if_neg (hq ▸ hprio), parseHeadersFixed,
        if_neg (show q.beginContent.state ≠ .fixed by simp [beginContent])]
      refine reads_parseHeaderContentAndPadding (.inl ht) (hopened.body hneed) hcode ?_ hne
      simp +decide [payloadFault, not_lt.2 hopened.fields.pads, ht, hprio]
  · rcases h.inside hp hnil hfault hfits hlt.le with ⟨hlt', hfields⟩ | ⟨hstart, hfixed, hbody⟩
    · rw [if_neg (by rw [hfields.state]; decide)]
      refine reads_parseHeadersFixed ht hcode hfields ?_ hlt' (taken_ne_nil hlt hs)
      by_contra hprio
      rw [contentStart, hneed, if_neg hprio] at hlt'
      exact absurd hfields.padded (not_le.2 hlt')
    · rw [if_neg hstart, parseHeadersFixed, if_neg hfixed]
      exact reads_parseHeaderContentAndPadding (.inl ht) hbody hcode hfault
        (taken_ne_nil hlt hs)

theorem reads_parsePushPromise (ht : base.current.type = .pushPromise) :
    (p.parsePushPromise src).Reads base acc src := by
  have hp : base.current.mayPad := .inr (.inr ht)
  have hneed : base.current.fixedOctets = 4 := by simp +decide [fixedOctets, ht]
  unfold parsePushPromise
  by_cases hnil : acc = []
  · subst hnil
    rw [if_pos h.state_start, ← hneed]
    rcases hread : p.readPadding src base.current.fixedOctets with ⟨q, n, ok⟩
    refine reads_padded parsePushPromiseFixed
      (fun q => { q with fixedNeed := base.current.fixedOctets, state := .fixed })
      h hp hcode hs hfits hlt hread fun hopened hne =>
        reads_parsePushPromiseFixed ht hcode hopened.fields ?_ hne
    rw [hopened.length, contentStart, hneed]
    omega
  · rcases h.inside hp hnil hfault hfits hlt.le with ⟨hlt', hfields⟩ | ⟨hstart, hfixed, hbody⟩
    · rw [if_neg (by rw [hfields.state]; decide)]
      exact reads_parsePushPromiseFixed ht hcode hfields hlt' (taken_ne_nil hlt hs)
    · rw [if_neg hstart, parsePushPromiseFixed, if_neg hfixed]
      exact reads_parseHeaderContentAndPadding (.inr ht) hbody hcode hfault
        (taken_ne_nil hlt hs)

end Content

/-! ## Frames without padding -/

/-- The parser after octets of a payload that cannot be padded. -/
theorem Within.plain (h : Within base acc p) (hp : ¬base.current.mayPad) (hne : acc' ≠ [])
    (hshell : q.shell = p.shell) (hstate : q.state = p.state) (hpad : q.padLength = p.padLength)
    (hcontent : q.contentN = p.contentN) (hN : q.payloadN = acc'.length)
    (hfixed : q.fixed = base.current.fixedFields acc')
    (hneed : q.fixedNeed = base.current.fixedOctets) (hblock : q.headerBlockBytes =
      (base.headerBlockBytes + base.current.blockOctets acc') % 2 ^ 64) : Within base acc' q := by
  have hnopad (acc : Bytes) : base.current.padLength acc = 0 := if_neg fun hc => hp hc.1
  refine ⟨hshell.trans h.shell, hN, ?_, hfixed, ?_, ?_, ?_, hblock⟩
  · rw [hstate, h.state, payloadState, payloadState, if_pos (.inl hp),
      if_pos (.inl hp)]
  · rw [hneed, if_neg hne]
  · rw [hpad, h.padLength, hnopad, hnopad]
  · rw [hcontent, h.contentN, if_neg fun hc => hp hc.1, if_neg fun hc => hp hc.1]

/-- The frames that are a fixed field. -/
theorem reads_parseFixed (h : Within base acc p)
    (ht : base.current.type = .priority ∨ base.current.type = .rstStream ∨
      base.current.type = .ping ∨ base.current.type = .windowUpdate)
    (hlen : base.current.length = base.current.fixedOctets)
    (hlt : acc.length < base.current.length) (hs : src ≠ []) :
    (p.parseFixed src base.current.fixedOctets).Reads base acc src := by
  have hp : ¬base.current.mayPad := by
    unfold mayPad
    rcases ht with ht | ht | ht | ht <;> rw [ht] <;> decide
  have hset : base.current.type ≠ .settings := by
    rcases ht with ht | ht | ht | ht <;> rw [ht] <;> decide
  have hfields (acc : Bytes) (hle : acc.length ≤ base.current.length) :
      base.current.fixedFields acc = acc := by
    rw [fixedFields, if_neg hp, if_neg hset, take_of_length_le (hlen ▸ hle)]
  have hcalls (acc : Bytes) : base.current.payloadCalls acc = [] := by
    rcases ht with ht | ht | ht | ht <;> simp +decide [payloadCalls, ht]
  have hblock (acc : Bytes) : base.current.blockOctets acc = 0 := by
    rcases ht with ht | ht | ht | ht <;> simp +decide [blockOctets, ht]
  have hfault (acc : Bytes) : base.current.payloadFault acc = .none := by
    rcases ht with ht | ht | ht | ht <;> simp +decide [payloadFault, ht, hp]
  have hcount : min (base.current.fixedOctets - p.fixed.length) src.length =
      min (base.current.length - acc.length) src.length := by
    rw [h.fixed, hfields acc hlt.le, hlen]
  have htaken := length_taken (h := base.current) acc src
  unfold parseFixed copyFixed payloadSoFar
  simp only
  refine Payload.Advances.reads ⟨hfault _,
    fun hex => hex.of_eq ((hblock _).trans (hblock acc).symm), ?_, hcount, ?_, ?_⟩ rfl
  · rw [hcalls, hcalls]
    rfl
  · simp only [h.payloadN, hcount, h.current, beq_eq_decide]
    exact decide_eq_decide.2 (by omega)
  · refine h.plain hp (taken_ne_nil hlt hs) rfl rfl rfl rfl ?_ ?_ rfl ?_
    · simp only [h.payloadN, hcount, htaken]
    · simp only [hcount]
      rw [hfields _ (by omega), h.fixed, hfields acc hlt.le, taken,
        ← take_eq_take_min]
    · rw [hblock, ← hblock acc]
      exact h.block

theorem reads_parseUnknown (h : Within base acc p)
    (hother : ∀ type ∈ [FrameType.data, .headers, .priority, .rstStream, .settings, .pushPromise,
      .ping, .goAway, .windowUpdate, .continuation], base.current.type ≠ type)
    (hlt : acc.length < base.current.length) (hs : src ≠ []) :
    (p.parseUnknown src).Reads base acc src := by
  simp only [forall_mem_cons, not_mem_nil, false_implies, implies_true, and_true] at hother
  obtain ⟨h1, h2, h3, h4, h5, h6, h7, h8, h9, h10⟩ := hother
  have hp : ¬base.current.mayPad := by simp [mayPad, h1, h2, h6]
  have hneed : base.current.fixedOctets = 0 := by
    simp [fixedOctets, h2, h3, h4, h5, h6, h7, h8, h9]
  have hfields (acc : Bytes) : base.current.fixedFields acc = [] := by
    rw [fixedFields, if_neg hp, if_neg h5, hneed, take_zero]
  have hcalls (acc : Bytes) :
      base.current.payloadCalls acc = acc.map fun b => .unknown base.current [b] := by
    simp [payloadCalls, h1, h2, h3, h4, h5, h6, h7, h8, h9, h10]
  have hblock (acc : Bytes) : base.current.blockOctets acc = 0 := by
    simp [blockOctets, h2, h6, h10]
  have hfault (acc : Bytes) : base.current.payloadFault acc = .none := by
    simp [payloadFault, hp, h2, h5, h6]
  have htaken := length_taken (h := base.current) acc src
  unfold parseUnknown payloadSoFar
  simp only
  refine Payload.Advances.reads ⟨hfault _,
    fun hex => hex.of_eq ((hblock _).trans (hblock acc).symm), ?_, ?_, ?_, ?_⟩ rfl
  · rw [hcalls, hcalls, taken, map_append, h.current, h.payloadN,
      ← take_eq_take_min]
    simp [octetCalls, Callback.octets]
  · simp only [h.current, h.payloadN]
  · simp only [h.payloadN, h.current, beq_eq_decide]
    exact decide_eq_decide.2 (by omega)
  · refine h.plain hp (taken_ne_nil hlt hs) rfl rfl rfl rfl ?_ ?_ ?_ ?_
    · simp only [h.current, h.payloadN, htaken]
    · change p.fixed = _
      rw [h.fixed, hfields, hfields]
    · change p.fixedNeed = _
      rw [h.fixedNeed, hneed, ite_self]
    · rw [hblock, ← hblock acc]
      exact h.block

theorem reads_continuation (hcode : base.code = .none) (h : Within base acc p)
    (ht : base.current.type = .continuation) (hlt : acc.length < base.current.length)
    (hs : src ≠ []) :
    (p.parseHeaderFragment src (p.current.length - p.payloadN)).Reads base acc src := by
  have hp : ¬base.current.mayPad := by simp +decide [mayPad, ht]
  have hneed : base.current.fixedOctets = 0 := by simp +decide [fixedOctets, ht]
  have hfields (acc : Bytes) : base.current.fixedFields acc = [] := by
    rw [fixedFields, if_neg hp, if_neg (by rw [ht]; decide), hneed, take_zero]
  have hcalls (acc : Bytes) : base.current.payloadCalls acc =
      acc.map fun b => .headerBlock base.current.streamID [b] := by
    simp +decide [payloadCalls, ht]
  have hblock (acc : Bytes) : base.current.blockOctets acc = acc.length := by
    simp +decide [blockOctets, ht]
  have hfault (acc : Bytes) : base.current.payloadFault acc = .none := by
    simp +decide [payloadFault, hp, ht]
  have htaken := length_taken (h := base.current) acc src
  have hpos := length_pos_iff.2 hs
  have hcount : min (base.current.length - acc.length) src.length ≠ 0 := by omega
  have hstate : p.state = .start := by
    rw [h.state, payloadState, if_pos (.inl hp)]
  have hsum : (p.headerBlockBytes + min (base.current.length - acc.length) src.length) % 2 ^ 64 =
      (base.headerBlockBytes + base.current.blockOctets (base.current.taken acc src)) % 2 ^ 64 := by
    rw [h.block, hblock, hblock, htaken, Nat.mod_add_mod, Nat.add_assoc]
  have hfrag : base.current.payloadCalls (base.current.taken acc src) =
      base.current.payloadCalls acc ++ octetCalls [.headerBlock base.current.streamID
        (src.take (min (base.current.length - acc.length) src.length))] := by
    rw [hcalls, hcalls, taken, map_append, ← take_eq_take_min]
    simp [octetCalls, Callback.octets]
  rw [h.current, h.payloadN]
  unfold parseHeaderFragment
  simp only [hcount, if_false]
  split
  · next hex =>
    refine reads_tooLarge h.shell hcode ?_ (hfault _) ⟨_, hfrag.symm⟩
    rw [Exceeds, ← hsum, ← limits_of_shell h.shell]
    exact hex
  · next hex =>
    have hroom (hc : base.Exceeds (base.current.taken acc src)) : base.Exceeds acc := by
      rw [Exceeds, ← hsum, ← limits_of_shell h.shell] at hc
      exact absurd hc hex
    refine Payload.Advances.reads ⟨hfault _, hroom, ?_, rfl, ?_, ?_⟩ rfl
    · rw [hfrag, h.current]
    · simp only [beq_eq_decide]
      exact decide_eq_decide.2 (by omega)
    · refine h.plain hp (taken_ne_nil hlt hs) rfl rfl rfl ?_ ?_ ?_ ?_ hsum
      · simp only [hstate, reduceCtorEq, if_false]
      · simp only [h.payloadN, htaken]
      · change p.fixed = _
        rw [h.fixed, hfields, hfields]
      · change p.fixedNeed = _
        rw [h.fixedNeed, hneed, ite_self]

theorem FrameHeader.taken_eq_self {h : FrameHeader} (hend : src = [] ∨ h.length ≤ acc.length) :
    h.taken acc src = acc := by
  rw [taken]
  rcases hend with rfl | hle
  · rw [take_nil, append_nil]
  · rw [Nat.sub_eq_zero_of_le hle, take_zero, append_nil]

/-- Nothing is left to do. -/
theorem reads_payloadSoFar (h : Within base acc p)
    (hend : src = [] ∨ base.current.length ≤ acc.length) (hle : acc.length ≤ base.current.length)
    (hfault : base.current.payloadFault acc = .none) :
    (payloadSoFar p 0 []).Reads base acc src := by
  have htaken := FrameHeader.taken_eq_self hend
  refine Payload.Advances.reads ⟨?_, ?_, ?_, ?_, ?_, ?_⟩ rfl
  · rwa [htaken]
  · rw [htaken]
    exact id
  · rw [htaken]
    simp [payloadSoFar]
  · rcases hend with rfl | hge
    · simp [payloadSoFar]
    · change 0 = _
      omega
  · simp only [payloadSoFar, h.current, h.payloadN, beq_eq_decide]
    refine decide_eq_decide.2 ?_
    rcases hend with rfl | hge
    · simp only [length_nil]
      omega
    · omega
  · rwa [htaken]

section GoAway

variable (ht : base.current.type = .goAway) (h : Within base acc p)

include ht

theorem payloadFault_goAway (acc : Bytes) : base.current.payloadFault acc = .none := by
  simp +decide [payloadFault, mayPad, ht]

variable {acc' : Bytes}

theorem Exceeds.goAway (hex : base.Exceeds acc') (acc : Bytes) : base.Exceeds acc := by
  refine hex.of_eq ?_
  simp +decide [blockOctets, ht]

theorem payloadCalls_goAway (acc : Bytes) :
    base.current.payloadCalls acc = (acc.drop 8).map fun b => .goAwayDebug [b] := by
  simp +decide [payloadCalls, ht]

theorem fixedFields_goAway (acc : Bytes) : base.current.fixedFields acc = acc.take 8 := by
  simp +decide [fixedFields, fixedOctets, mayPad, ht]

/-- The parser after octets of a GOAWAY frame. -/
theorem Within.goAway (h : Within base acc p) (hne : acc' ≠ []) (hshell : q.shell = p.shell)
    (hstate : q.state = p.state) (hpad : q.padLength = p.padLength)
    (hcontent : q.contentN = p.contentN) (hN : q.payloadN = acc'.length)
    (hfixed : q.fixed = acc'.take 8) (hneed : q.fixedNeed = 8)
    (hbytes : q.headerBlockBytes = p.headerBlockBytes) : Within base acc' q := by
  have hblock (acc : Bytes) : base.current.blockOctets acc = 0 := by
    simp +decide [blockOctets, ht]
  refine h.plain (by simp +decide [mayPad, ht]) hne hshell hstate hpad hcontent hN
    (hfixed.trans (fixedFields_goAway ht acc').symm) ?_ ?_
  · rw [hneed]
    simp +decide [fixedOctets, ht]
  · rw [hbytes, h.block, hblock, hblock]

include h

theorem reads_parseGoAwayDebug (hge : 8 ≤ acc.length) (hle : acc.length ≤ base.current.length) :
    (p.parseGoAwayDebug src).Reads base acc src := by
  have htaken := length_taken (h := base.current) acc src
  unfold parseGoAwayDebug
  split
  · next hgo =>
    obtain ⟨hlt, hs⟩ := hgo
    rw [h.current, h.payloadN] at hlt
    refine Payload.Advances.reads ⟨payloadFault_goAway ht _, fun hex => hex.goAway ht acc, ?_, ?_,
      ?_, ?_⟩ rfl
    · rw [payloadCalls_goAway ht, payloadCalls_goAway ht, taken,
        drop_append_of_le_length hge, map_append]
      simp [payloadSoFar, octetCalls, Callback.octets, h.current, h.payloadN,
        ← take_eq_take_min]
    · simp only [payloadSoFar, h.current, h.payloadN]
    · simp only [payloadSoFar, h.current, h.payloadN, beq_eq_decide]
      exact decide_eq_decide.2 (by omega)
    · refine h.goAway ht (taken_ne_nil hlt hs) rfl rfl rfl rfl ?_ ?_ ?_ rfl
      · simp only [payloadSoFar, h.current, h.payloadN, htaken]
      · change p.fixed = _
        rw [h.fixed, fixedFields_goAway ht, taken, take_append_of_le_length hge]
      · change p.fixedNeed = _
        rw [h.fixedNeed, if_neg (ne_nil_of_length_pos (by omega))]
        simp +decide [fixedOctets, ht]
  · next hstop =>
    refine reads_payloadSoFar h ?_ hle (payloadFault_goAway ht acc)
    rw [h.current, h.payloadN, not_and_or, not_lt, not_not] at hstop
    exact hstop.symm

theorem reads_parseGoAway (hlen : 8 ≤ base.current.length) (hlt : acc.length < base.current.length)
    (hs : src ≠ []) : (p.parseGoAway src).Reads base acc src := by
  have hpos := length_pos_iff.2 hs
  have hN := h.payloadN
  unfold parseGoAway
  split
  · next hshort =>
    have hfixed : p.fixed = acc := by
      rw [h.fixed, fixedFields_goAway ht, take_of_length_le (by omega)]
    rcases hcopy : copyFixed { p with fixedNeed := 8 } src with ⟨q, n⟩
    obtain ⟨hn, hq, hqfixed⟩ : n = min (8 - acc.length) src.length ∧
        Within base (acc ++ src.take n) q ∧ q.fixed = acc ++ src.take n := by
      simp only [copyFixed, Prod.mk.injEq, hfixed] at hcopy
      obtain ⟨rfl, rfl⟩ := hcopy
      refine ⟨rfl, ?_, rfl⟩
      have hlen' : (acc ++ src.take (min (8 - acc.length) src.length)).length =
          acc.length + min (8 - acc.length) src.length := by
        rw [length_append, length_take]
        omega
      refine h.goAway ht (ne_nil_of_length_pos (by omega)) rfl rfl rfl rfl ?_ ?_ rfl rfl
      · rw [hlen', ← hN]
      · have hcut : (acc ++ src.take (min (8 - acc.length) src.length)).take 8 = _ :=
          take_of_length_le (by omega)
        exact hcut.symm
    have hlen' : (acc ++ src.take n).length = acc.length + n := by
      rw [length_append, length_take]
      omega
    simp only
    rw [hqfixed, hlen']
    split
    · next hinc =>
      have hall : n = src.length := by omega
      have htaken : base.current.taken acc src = acc ++ src := by
        rw [taken, take_of_length_le (by omega)]
      rw [hall, take_length] at hq
      refine Payload.Advances.reads ⟨payloadFault_goAway ht _, fun hex => hex.goAway ht acc, ?_, ?_,
        ?_, ?_⟩ rfl
      · rw [htaken, payloadCalls_goAway ht, payloadCalls_goAway ht,
          drop_eq_nil_of_le (by omega), drop_eq_nil_of_le (by
            rw [length_append]
            omega)]
        rfl
      · change n = _
        omega
      · exact (decide_eq_false (by omega)).symm
      · rw [htaken]
        exact hq
    · next hfull =>
      have hge : 8 ≤ (acc ++ src.take n).length := by omega
      have hle : (acc ++ src.take n).length ≤ base.current.length := by omega
      refine Payload.Reads.andThen rfl (by simp only; omega) (by simp only; omega)
        (payloadFault_goAway ht _) ?_ ?_ (reads_parseGoAwayDebug ht hq hge hle)
      · simp +decide [blockOctets, ht]
      simp only
      rw [payloadCalls_goAway ht, payloadCalls_goAway ht, drop_eq_nil_of_le (by omega),
        drop_eq_nil_of_le (by omega)]
      rfl
  · next hge => exact reads_parseGoAwayDebug ht h (by omega) hlt.le

end GoAway

section Settings

variable (ht : base.current.type = .settings)

include ht

theorem blockOctets_settings (acc : Bytes) : base.current.blockOctets acc = 0 := by
  simp +decide [blockOctets, ht]

theorem payloadCalls_settings (acc : Bytes) :
    base.current.payloadCalls acc = (settingEntries acc).map .setting := by
  simp +decide [payloadCalls, ht]

theorem payloadFault_settings (acc : Bytes) : base.current.payloadFault acc =
    if ∃ x ∈ settingEntries acc, validSetting x = false then .invalidSetting else .none := by
  simp +decide [payloadFault, mayPad, ht]

theorem fixedFields_settings (acc : Bytes) : base.current.fixedFields acc = settingRest acc := by
  simp +decide [fixedFields, mayPad, ht]

/-- The parser inside a SETTINGS frame, which knows the length of an entry. -/
theorem Within.settings (h : Within base acc p) (hne : acc' ≠ []) {fixed : Bytes}
    (hfixed : fixed = settingRest acc') :
    Within base acc' { p with fixedNeed := 6, fixed, payloadN := acc'.length } := by
  refine h.plain (by simp +decide [mayPad, ht]) hne rfl rfl rfl rfl rfl
    (hfixed.trans (fixedFields_settings ht _).symm) ?_ ?_
  · simp +decide [fixedOctets, ht]
  · rw [blockOctets_settings ht, ← blockOctets_settings ht acc]
    exact h.block

section Entry

variable (h : Within base acc p) (hfault : base.current.payloadFault acc = .none)
  (hsix : base.current.length % 6 = 0) (hlt : acc.length < base.current.length)
  (hn : n = min (6 - acc.length % 6) src.length)

include hfault hsix hlt hn

include h in
/-- The octets end inside an entry. -/
theorem reads_shortEntry (hs : src ≠ []) (hshort : (settingRest acc ++ src.take n).length < 6) :
    (payloadSoFar { p with fixedNeed := 6, fixed := settingRest acc ++ src.take n,
                           payloadN := acc.length + n } n []).Reads base acc src := by
  obtain ⟨hnone, hself⟩ := settingEntries_short hshort
  have hrest := length_settingRest acc
  rw [length_append, length_take] at hshort
  have hwhole : base.current.taken acc src = acc ++ src.take n := by
    rw [taken, take_of_length_le (by omega), take_of_length_le (by omega)]
  have hentries : settingEntries (acc ++ src.take n) = settingEntries acc := by
    rw [settingEntries_append, hnone, append_nil]
  have hlen : (acc ++ src.take n).length = acc.length + n := by
    rw [length_append, length_take]
    omega
  have hwithin := h.settings ht (hwhole ▸ taken_ne_nil hlt hs)
    (hself.symm.trans (settingRest_append acc _).symm)
  rw [hlen] at hwithin
  refine Payload.Advances.reads ⟨?_, fun hex => hex.of_eq ?_, ?_, ?_, ?_, hwhole ▸ hwithin⟩ rfl
  · rwa [hwhole, payloadFault_settings ht, hentries, ← payloadFault_settings ht]
  · rw [blockOctets_settings ht, blockOctets_settings ht]
  · rw [hwhole, payloadCalls_settings ht, payloadCalls_settings ht, hentries]
    exact append_nil _
  · change n = _
    omega
  · simp only [payloadSoFar, h.current, beq_eq_decide]
    exact decide_eq_decide.2 (by omega)

variable {setting : Setting} (hone : settingEntries (settingRest acc ++ src.take n) = [setting])

include hone

/-- An entry that is not valid. -/
theorem reads_invalidEntry (hcode : base.code = .none) (hshell : q.shell = base.shell)
    (hbad : validSetting setting = false) :
    (q.reject n .invalidSetting).Reads base acc src := by
  have hentries : settingEntries (acc ++ src.take n) = settingEntries acc ++ [setting] := by
    rw [settingEntries_append, hone]
  refine reads_reject hshell hcode (by decide) ⟨by omega, ?_, fun k hk => ?_⟩ ?_
  · rw [payloadFault_settings ht, if_pos]
    exact ⟨setting, hentries ▸ mem_append_right _ (mem_singleton_self _), hbad⟩
  · have hshort : (settingRest acc ++ src.take k).length < 6 := by
      rw [length_append, length_take, length_settingRest]
      omega
    rwa [payloadFault_settings ht, settingEntries_append, (settingEntries_short hshort).1,
      append_nil, ← payloadFault_settings ht]
  · rw [← taken_taken (k := n) (by omega) (by omega), taken, payloadCalls_settings ht,
      payloadCalls_settings ht, settingEntries_append, hentries, append_assoc, map_append]
    exact prefix_append _ _

omit hsix hlt hn in
/-- Nothing is wrong after a valid entry. -/
theorem payloadFault_validEntry (hgood : validSetting setting = true) :
    base.current.payloadFault (acc ++ src.take n) = .none := by
  rw [payloadFault_settings ht] at hfault ⊢
  rw [settingEntries_append, hone, if_neg]
  rw [ite_eq_right_iff] at hfault
  rintro ⟨x, hx, hinv⟩
  rcases mem_append.1 hx with hx | hx
  · exact absurd (hfault ⟨x, hx, hinv⟩) (by decide)
  · rw [mem_singleton.1 hx, hgood] at hinv
    cases hinv

end Entry

theorem reads_parseSettingsLoop (hcode : base.code = .none) (hsix : base.current.length % 6 = 0)
    (fuel : ℕ) (hfuel : src.length < fuel) (h : Within base acc p)
    (hfault : base.current.payloadFault acc = .none) (hle : acc.length ≤ base.current.length)
    (hne : base.current.taken acc src ≠ []) :
    (parseSettingsLoop fuel { p with fixedNeed := 6 } src).Reads base acc src := by
  induction fuel generalizing acc p src with
  | zero => omega
  | succ fuel ih =>
    have hrest := length_settingRest acc
    have hfixed : p.fixed = settingRest acc := h.fixed.trans (fixedFields_settings ht acc)
    rw [parseSettingsLoop]
    split
    · next hgo =>
      simp only [h.current, h.payloadN] at hgo
      obtain ⟨hs, hlt⟩ := hgo
      have hpos := length_pos_iff.2 hs
      simp only [copyFixed, hfixed, hrest, h.payloadN]
      generalize hn : min (6 - acc.length % 6) src.length = n
      have hlen : (acc ++ src.take n).length = acc.length + n := by
        rw [length_append, length_take]
        omega
      split
      · next hshort => exact reads_shortEntry ht h hfault hsix hlt hn.symm hs hshort
      · next hfull =>
        obtain ⟨hone, hnil⟩ := settingEntries_single (l := settingRest acc ++ src.take n) (by
          rw [length_append, length_take] at hfull ⊢
          omega)
        split
        · next hbad =>
          exact reads_invalidEntry ht hfault hsix hlt hn.symm hone hcode h.shell (by simpa using hbad)
        · next hgood =>
          have hfault' := payloadFault_validEntry ht hfault hone (by simpa using hgood)
          have hnext := h.settings ht (ne_nil_of_length_pos (by omega))
            (hnil.symm.trans (settingRest_append acc (src.take n)).symm)
          rw [hlen] at hnext
          refine Payload.Reads.andThen rfl (by simp only; omega) (by simp only; omega) hfault' ?_ ?_
            (ih ?_ hnext hfault' (by omega) ?_)
          · rw [blockOctets_settings ht, blockOctets_settings ht]
          · simp only
            rw [payloadCalls_settings ht, payloadCalls_settings ht, settingEntries_append, hone,
              map_append]
            rfl
          · rw [length_drop]
            simp only
            omega
          · rwa [taken_taken (by omega) (by omega)]
    · next hstop =>
      simp only [h.current, h.payloadN, not_and_or, not_not, not_lt] at hstop
      rw [FrameHeader.taken_eq_self hstop] at hne
      have hwithin := h.settings ht hne hfixed
      rw [← h.payloadN] at hwithin
      exact reads_payloadSoFar hwithin hstop hle hfault

theorem reads_parseSettings (hcode : base.code = .none) (hsix : base.current.length % 6 = 0)
    (h : Within base acc p) (hfault : base.current.payloadFault acc = .none)
    (hlt : acc.length < base.current.length) (hs : src ≠ []) :
    (p.parseSettings src).Reads base acc src :=
  reads_parseSettingsLoop ht hcode hsix _ (Nat.lt_succ_self _) h hfault hlt.le (taken_ne_nil hlt hs)

end Settings

end Parser

end WagoHttp.Http2
