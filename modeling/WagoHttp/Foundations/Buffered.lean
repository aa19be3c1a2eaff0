import WagoHttp.Foundations.Trace

/-!
# Buffered readers

A reader is given its input one buffer at a time and works through a buffer in *passes*: a pass
looks at the rest of the buffer, consumes some of it, reports a trace, and either goes on or stops
with a code. `loop` repeats a pass until the buffer is empty or a pass stops.

A pass may consume a whole run of elements at once, so what it does depends on where the buffer
ends. The reader is nevertheless indifferent to the buffering if every pass is `Local`: over
`b :: rest` it does what it does over `[b]`, or what it does over `[b]` followed by a pass over
`rest`, with the two spans of the token reported as one. Then reading `xs ++ ys` is reading `xs` and
then `ys` (`Reader.run_append`), and reading a string cut into pieces in any way is reading the
string (`Reader.feed_agree`).
-/

namespace WagoHttp.Buffered

open Trace List

variable {σ α κ ν γ : Type*}

/-! ## Outcomes -/

/-- What a pass over a buffer or a whole run does: how many elements it consumes, the state it
leaves, what it reports, and the code it stops with, if it does not go on. -/
structure Outcome (σ α κ ν γ : Type*) where
  taken : ℕ
  state : σ
  trace : List (Entry κ α ν)
  stop : Option γ
  deriving DecidableEq

namespace Outcome

/-- Nothing happens. -/
def idle (s : σ) : Outcome σ α κ ν γ := ⟨0, s, [], none⟩

/-- First `o` and, if it goes on, what `k` does in the state it leaves. -/
def andThen (o : Outcome σ α κ ν γ) (k : σ → Outcome σ α κ ν γ) : Outcome σ α κ ν γ :=
  match o.stop with
  | some _ => o
  | none => ⟨o.taken + (k o.state).taken, (k o.state).state, o.trace ++ (k o.state).trace,
      (k o.state).stop⟩

variable {o : Outcome σ α κ ν γ}

theorem andThen_of_some {c : γ} (h : o.stop = some c) (k : σ → Outcome σ α κ ν γ) :
    o.andThen k = o := by
  simp [andThen, h]

theorem andThen_of_none (h : o.stop = none) (k : σ → Outcome σ α κ ν γ) :
    o.andThen k = ⟨o.taken + (k o.state).taken, (k o.state).state,
      o.trace ++ (k o.state).trace, (k o.state).stop⟩ := by
  simp [andThen, h]

@[simp] theorem idle_andThen (s : σ) (k : σ → Outcome σ α κ ν γ) : (idle s).andThen k = k s := by
  simp [idle, andThen]

@[simp] theorem andThen_idle (o : Outcome σ α κ ν γ) : o.andThen idle = o := by
  obtain ⟨n, s, t, _ | c⟩ := o <;> simp [idle, andThen]

theorem andThen_assoc (o : Outcome σ α κ ν γ) (k l : σ → Outcome σ α κ ν γ) :
    (o.andThen k).andThen l = o.andThen fun s => (k s).andThen l := by
  cases ho : o.stop with
  | some c => rw [andThen_of_some ho, andThen_of_some ho, andThen_of_some ho]
  | none =>
    rw [andThen_of_none ho, andThen_of_none ho]
    cases hk : (k o.state).stop with
    | some c => rw [andThen_of_some (c := c) rfl, andThen_of_some hk, hk]
    | none => rw [andThen_of_none rfl, andThen_of_none hk, Nat.add_assoc, append_assoc]

end Outcome

variable [DecidableEq κ] (closing : ν → Bool) (fine : γ → Prop)

/-- The outcomes are the same up to the cutting of spans; when they stop with a code that is not
`fine`, only up to the last closing mark of their traces. -/
structure Agree (a b : Outcome σ α κ ν γ) : Prop where
  taken : a.taken = b.taken
  state : a.state = b.state
  stop : a.stop = b.stop
  concur : Concur closing a.trace b.trace
  merge : (∀ c, a.stop = some c → fine c) → merge a.trace = merge b.trace

namespace Agree

variable {closing fine} {a b c : Outcome σ α κ ν γ}

theorem of_merge (htaken : a.taken = b.taken) (hstate : a.state = b.state)
    (hstop : a.stop = b.stop) (h : Trace.merge a.trace = Trace.merge b.trace) :
    Agree closing fine a b :=
  ⟨htaken, hstate, hstop, .of_merge_eq h, fun _ => h⟩

theorem refl (a : Outcome σ α κ ν γ) : Agree closing fine a a := of_merge rfl rfl rfl rfl

theorem symm (h : Agree closing fine a b) : Agree closing fine b a :=
  ⟨h.taken.symm, h.state.symm, h.stop.symm, h.concur.symm,
    fun hfine => (h.merge (h.stop ▸ hfine)).symm⟩

theorem trans (h : Agree closing fine a b) (h' : Agree closing fine b c) : Agree closing fine a c :=
  ⟨h.taken.trans h'.taken, h.state.trans h'.state, h.stop.trans h'.stop,
    h.concur.trans h'.concur, fun hfine => (h.merge hfine).trans (h'.merge (h.stop ▸ hfine))⟩

theorem andThen (h : Agree closing fine a b) {k l : σ → Outcome σ α κ ν γ}
    (hkl : a.stop = none → Agree closing fine (k a.state) (l a.state)) :
    Agree closing fine (a.andThen k) (b.andThen l) := by
  cases hstop : a.stop with
  | some c =>
    rw [Outcome.andThen_of_some hstop, Outcome.andThen_of_some (h.stop ▸ hstop)]
    exact h
  | none =>
    have hmerge := h.merge (by simp [hstop])
    have hk := hkl hstop
    rw [Outcome.andThen_of_none hstop, Outcome.andThen_of_none (h.stop ▸ hstop), ← h.state,
      h.taken]
    exact ⟨congrArg (b.taken + ·) hk.taken, hk.state, hk.stop, hk.concur.append_left hmerge,
      fun hfine => merge_append_congr hmerge (hk.merge hfine)⟩

end Agree

/-! ## Readers -/

/-- Passes over the buffer until it is empty or a pass stops. -/
def loop (pass : σ → List α → Outcome σ α κ ν γ) : ℕ → σ → List α → Outcome σ α κ ν γ
  | 0, s, _ => .idle s
  | _ + 1, s, [] => .idle s
  | fuel + 1, s, b :: rest =>
    (pass s (b :: rest)).andThen fun s' =>
      loop pass fuel s' ((b :: rest).drop (pass s (b :: rest)).taken)

/-- In the state `s` the pass over `b :: rest` is the pass over `[b]`, which may be followed by a
pass over `rest`. -/
def Local (pass : σ → List α → Outcome σ α κ ν γ) (s : σ) (b : α) (rest : List α) : Prop :=
  pass s (b :: rest) = pass s [b] ∨
    (pass s [b]).stop = none ∧ (pass s [b]).taken = 1 ∧
      Agree closing fine (pass s (b :: rest)) ((pass s [b]).andThen fun s' => pass s' rest)

/-- A reader: passes that are local and make progress in the states that occur. A pass that goes on
without consuming anything lowers the rank of the state. -/
structure Reader (σ α κ ν γ : Type*) [DecidableEq κ] (closing : ν → Bool) (fine : γ → Prop) where
  pass : σ → List α → Outcome σ α κ ν γ
  good : σ → Prop
  rank : σ → ℕ
  bound : ℕ
  rank_le : ∀ s, rank s ≤ bound
  taken_le : ∀ {s} b rest, good s → (pass s (b :: rest)).taken ≤ rest.length + 1
  good_pass : ∀ {s b rest}, good s → (pass s (b :: rest)).stop = none →
    good (pass s (b :: rest)).state
  progress : ∀ {s b rest}, good s → (pass s (b :: rest)).stop = none →
    (pass s (b :: rest)).taken = 0 → rank (pass s (b :: rest)).state < rank s
  isLocal : ∀ {s} b rest, good s → rest ≠ [] → Local closing fine pass s b rest

namespace Reader

variable {closing fine} (R : Reader σ α κ ν γ closing fine)

/-- Reading a buffer. -/
def run (s : σ) (input : List α) : Outcome σ α κ ν γ :=
  loop R.pass ((R.bound + 1) * input.length) s input

/-- How many passes there can be in the state `s` with `n` elements of the buffer left. -/
def todo (s : σ) (n : ℕ) : ℕ := (R.bound + 1) * n + R.rank s - R.bound

theorem todo_cons (s : σ) (n : ℕ) : R.todo s (n + 1) = (R.bound + 1) * n + R.rank s + 1 := by
  rw [todo, Nat.mul_succ]
  omega

theorem todo_le (s : σ) (n : ℕ) : R.todo s n ≤ (R.bound + 1) * n := by
  have := R.rank_le s
  rw [todo]
  omega

variable {s : σ} {input : List α}

theorem todo_lt {b : α} {rest : List α} (hs : R.good s)
    (hstop : (R.pass s (b :: rest)).stop = none) :
    R.todo (R.pass s (b :: rest)).state
      ((b :: rest).drop (R.pass s (b :: rest)).taken).length < R.todo s (rest.length + 1) := by
  rw [R.todo_cons s, length_drop, length_cons]
  rcases Nat.eq_zero_or_pos (R.pass s (b :: rest)).taken with h | h
  · have := R.progress hs hstop h
    rw [h, Nat.sub_zero, todo_cons]
    omega
  · have hmul : (R.bound + 1) * (rest.length + 1 - (R.pass s (b :: rest)).taken) ≤
        (R.bound + 1) * rest.length := Nat.mul_le_mul_left _ (by omega)
    have := R.todo_le (R.pass s (b :: rest)).state (rest.length + 1 - (R.pass s (b :: rest)).taken)
    omega

/-- Enough fuel is as good as more. -/
theorem loop_eq_loop {m n : ℕ} (hs : R.good s) (hm : R.todo s input.length ≤ m)
    (hn : R.todo s input.length ≤ n) :
    loop R.pass m s input = loop R.pass n s input := by
  induction m generalizing s input n with
  | zero =>
    match input with
    | [] => cases n <;> rfl
    | b :: rest => simp [todo_cons] at hm
  | succ m ih =>
    match input, n with
    | [], 0 => rfl
    | [], n + 1 => rfl
    | b :: rest, 0 => simp [todo_cons] at hn
    | b :: rest, n + 1 =>
      simp only [loop]
      cases hstop : (R.pass s (b :: rest)).stop with
      | some c => rw [Outcome.andThen_of_some hstop, Outcome.andThen_of_some hstop]
      | none =>
        have hlt := R.todo_lt hs hstop
        rw [length_cons] at hm hn
        rw [Outcome.andThen_of_none hstop, Outcome.andThen_of_none hstop,
          ih (R.good_pass hs hstop) (by omega) (show _ ≤ n by omega)]

@[simp] theorem run_nil (s : σ) : R.run s [] = .idle s := by
  simp only [run, length_nil, Nat.mul_zero, loop]

/-- One pass of a run. -/
theorem run_cons (b : α) (rest : List α) (hs : R.good s) :
    R.run s (b :: rest) = (R.pass s (b :: rest)).andThen fun s' =>
      R.run s' ((b :: rest).drop (R.pass s (b :: rest)).taken) := by
  have hfuel : (R.bound + 1) * (b :: rest).length =
      ((R.bound + 1) * rest.length + R.bound) + 1 := by
    simp only [length_cons, Nat.mul_add, Nat.mul_one]
    omega
  rw [run, hfuel, loop]
  cases hstop : (R.pass s (b :: rest)).stop with
  | some c => rw [Outcome.andThen_of_some hstop, Outcome.andThen_of_some hstop]
  | none =>
    have hlt := R.todo_lt hs hstop
    have hrank := R.rank_le s
    rw [R.todo_cons s] at hlt
    rw [Outcome.andThen_of_none hstop, Outcome.andThen_of_none hstop,
      R.loop_eq_loop (R.good_pass hs hstop) (by omega) (R.todo_le _ _)]
    rfl

/-- A run that does not stop consumes the whole buffer and leaves a state that occurs. -/
theorem run_goes_on (hs : R.good s) (h : (R.run s input).stop = none) :
    R.good (R.run s input).state ∧ (R.run s input).taken = input.length := by
  induction hk : R.todo s input.length using Nat.strongRecOn generalizing s input with
  | ind k ih =>
    match input with
    | [] => simp [Outcome.idle, hs]
    | b :: rest =>
      rw [R.run_cons b rest hs] at h ⊢
      cases hstop : (R.pass s (b :: rest)).stop with
      | some c =>
        rw [Outcome.andThen_of_some hstop] at h
        rw [h] at hstop
        cases hstop
      | none =>
        rw [Outcome.andThen_of_none hstop] at h ⊢
        obtain ⟨hgood, htaken⟩ := ih _ (hk ▸ R.todo_lt hs hstop) (R.good_pass hs hstop) h rfl
        refine ⟨hgood, ?_⟩
        have hle := R.taken_le b rest hs
        simp only [htaken, length_drop, length_cons]
        omega

/-- **The first element can be read by itself.** -/
theorem run_cons_agree (b : α) (rest : List α) (hs : R.good s) :
    Agree closing fine (R.run s (b :: rest)) ((R.run s [b]).andThen fun s' => R.run s' rest) := by
  induction hk : R.rank s using Nat.strongRecOn generalizing s with
  | ind k ih =>
    rcases eq_or_ne rest [] with rfl | hrest
    · have : (fun s' => R.run s' []) = Outcome.idle := funext R.run_nil
      rw [this, Outcome.andThen_idle]
      exact .refl _
    rcases R.isLocal b rest hs hrest with heq | ⟨hstop, htaken, hagree⟩
    · -- the pass looks at `b` alone
      rw [R.run_cons b rest hs, R.run_cons b [] hs, heq, Outcome.andThen_assoc]
      refine (Agree.refl _).andThen fun hstop => ?_
      have hgood := R.good_pass hs hstop
      have hle := R.taken_le b [] hs
      rcases Nat.eq_zero_or_pos (R.pass s [b]).taken with h | h
      · rw [h, drop_zero, drop_zero]
        exact ih _ (hk ▸ R.progress hs hstop h) hgood rfl
      · have h1 : (R.pass s [b]).taken = 1 := Nat.le_antisymm hle h
        rw [h1]
        simp [Agree.refl]
    · -- the pass over `[b]` ends with the buffer, and the next one goes on from there
      have hgood := R.good_pass hs hstop
      obtain ⟨c, rest', rfl⟩ := exists_cons_of_ne_nil hrest
      have hone : R.run s [b] = R.pass s [b] := by
        rw [R.run_cons b [] hs, htaken]
        simp only [drop_succ_cons, drop_nil, run_nil]
        exact Outcome.andThen_idle _
      have hwhole := hagree.taken
      rw [Outcome.andThen_of_none hstop, htaken] at hwhole
      rw [hone, R.run_cons b (c :: rest') hs]
      refine (hagree.andThen fun _ => .refl _).trans ?_
      rw [Outcome.andThen_assoc]
      refine (Agree.refl _).andThen fun _ => ?_
      rw [R.run_cons c rest' hgood, hwhole, Nat.add_comm 1, drop_succ_cons]
      exact .refl _

/-- **Reading a buffer is reading its two parts one after the other.** -/
theorem run_append {xs ys : List α} (hs : R.good s) :
    Agree closing fine (R.run s (xs ++ ys)) ((R.run s xs).andThen fun s' => R.run s' ys) := by
  induction xs generalizing s with
  | nil =>
    rw [run_nil, Outcome.idle_andThen]
    exact .refl _
  | cons b xs ih =>
    have hsplit := R.run_cons_agree b xs hs
    refine (R.run_cons_agree b (xs ++ ys) hs).trans ?_
    have hback := hsplit.symm.andThen (k := fun s' => R.run s' ys) (l := fun s' => R.run s' ys)
      fun _ => .refl _
    refine Agree.trans ?_ hback
    rw [Outcome.andThen_assoc]
    exact (Agree.refl _).andThen fun hstop => ih (R.run_goes_on hs hstop).1

/-- Reading buffers one after the other, up to the first that stops the reader. -/
def feed (s : σ) : List (List α) → Outcome σ α κ ν γ
  | [] => .idle s
  | x :: xs => (R.run s x).andThen fun s' => feed s' xs

/-- **How the input is cut into buffers makes no difference.** -/
theorem feed_agree {xs : List (List α)} (hs : R.good s) :
    Agree closing fine (R.feed s xs) (R.run s xs.flatten) := by
  induction xs generalizing s with
  | nil => simp [feed, Agree.refl]
  | cons x xs ih =>
    rw [feed, flatten_cons]
    refine Agree.trans ?_ (R.run_append hs).symm
    exact (Agree.refl _).andThen fun hstop => ih (R.run_goes_on hs hstop).1

end Reader

end WagoHttp.Buffered
