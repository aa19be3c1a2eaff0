import Mathlib.Data.List.Basic

/-!
# Traces of spans and marks

An incremental reader reports what it reads as a trace: *spans*, each a part of some token, and
*marks* between them. Where the input is cut in two a token is reported in two spans, so what a
trace says is its merged form (`merge`), in which adjacent spans of one token are one span.

`settled` is the part of a trace up to its last closing mark, and two traces `Concur` when their
merged forms are settled alike, as any two traces without closing marks are.
-/

namespace WagoHttp.Trace

open List

variable {κ α ν : Type*}

/-- An entry of a trace: a part of a token, or a mark. -/
inductive Entry (κ α ν : Type*)
  | span (token : κ) (part : List α)
  | mark (m : ν)
  deriving DecidableEq

section Merge

variable [DecidableEq κ]

/-- An entry in front of a merged trace: it is joined to a leading span of its own token. -/
def glue : Entry κ α ν → List (Entry κ α ν) → List (Entry κ α ν)
  | .span k x, .span l y :: t =>
    if k = l then .span k (x ++ y) :: t else .span k x :: .span l y :: t
  | e, t => e :: t

/-- A trace with adjacent spans of one token joined. -/
def merge (t : List (Entry κ α ν)) : List (Entry κ α ν) := t.foldr glue []

@[simp] theorem merge_cons (e : Entry κ α ν) (t : List (Entry κ α ν)) :
    merge (e :: t) = glue e (merge t) := rfl

@[simp] theorem glue_nil (e : Entry κ α ν) : glue e [] = [e] := by
  cases e <;> rfl

theorem glue_span_same (k : κ) (x y : List α) (t : List (Entry κ α ν)) :
    glue (.span k x) (.span k y :: t) = .span k (x ++ y) :: t := if_pos rfl

theorem glue_span_ne {k l : κ} (h : k ≠ l) (x y : List α) (t : List (Entry κ α ν)) :
    glue (.span k x) (.span l y :: t) = .span k x :: .span l y :: t := if_neg h

/-- Two spans of one token are one, whatever follows them. -/
theorem glue_glue (k : κ) (x y : List α) (t : List (Entry κ α ν)) :
    glue (.span k x) (glue (.span k y) t) = glue (.span k (x ++ y)) t := by
  match t with
  | [] => simp [glue_span_same]
  | .mark m :: t => exact glue_span_same k x y _
  | .span l z :: t =>
    by_cases h : k = l
    · subst h
      simp only [glue_span_same, append_assoc]
    · simp only [glue_span_ne h, glue_span_same]

/-- Gluing the entries of a trace one by one is gluing those of its merged form. -/
theorem foldr_glue_merge (s t : List (Entry κ α ν)) : (merge s).foldr glue t = s.foldr glue t := by
  induction s with
  | nil => rfl
  | cons e s ih =>
    rw [merge_cons, foldr_cons, ← ih]
    match e, merge s with
    | .mark m, s' => rfl
    | .span k x, [] => rfl
    | .span k x, .mark m :: s' => rfl
    | .span k x, .span l y :: s' =>
      by_cases h : k = l
      · subst h
        simp only [glue_span_same, foldr_cons, glue_glue]
      · simp only [glue_span_ne h, foldr_cons]

theorem merge_append (s t : List (Entry κ α ν)) :
    merge (s ++ t) = (merge s).foldr glue (merge t) := by
  rw [foldr_glue_merge, merge, foldr_append]
  rfl

theorem merge_append_congr {s s' t t' : List (Entry κ α ν)} (hs : merge s = merge s')
    (ht : merge t = merge t') : merge (s ++ t) = merge (s' ++ t') := by
  rw [merge_append, merge_append, hs, ht]

/-- A span cut in two. -/
theorem merge_span_append (k : κ) (x y : List α) :
    merge [.span k (x ++ y)] = merge ([.span k x, .span k y] : List (Entry κ α ν)) :=
  (glue_span_same k x y []).symm

end Merge

section Settled

variable (closing : ν → Bool)

/-- The entry is a closing mark. -/
def Entry.closes : Entry κ α ν → Bool
  | .span _ _ => false
  | .mark m => closing m

/-- The part of a trace up to its last closing mark. -/
def settled : List (Entry κ α ν) → List (Entry κ α ν)
  | [] => []
  | e :: t => if settled t = [] then (if e.closes closing then [e] else []) else e :: settled t

/-- What is settled up to a closing mark is settled up to the last mark. -/
theorem settled_settled (t : List (Entry κ α ν)) :
    settled closing (settled (fun _ => true) t) = settled closing t := by
  induction t with
  | nil => rfl
  | cons e t ih =>
    by_cases ht : settled (fun _ => true) t = []
    · have ht' : settled closing t = [] := by rw [← ih, ht]; rfl
      match e with
      | .span k x => simp [settled, ht, ht', Entry.closes]
      | .mark m => simp [settled, ht, ht', Entry.closes]
    · rw [settled, if_neg ht, settled, settled, ih]

end Settled

section Concur

variable [DecidableEq κ] {closing : ν → Bool}

/-- What the settled part of a glued trace is depends on the settled part of its tail alone. -/
theorem settled_glue (e : Entry κ α ν) (t : List (Entry κ α ν)) :
    settled closing (glue e t) =
      if settled closing t = [] then (if e.closes closing then [e] else [])
      else glue e (settled closing t) := by
  match e, t with
  | .mark m, t => rfl
  | .span k x, [] => rfl
  | .span k x, .mark m :: t =>
    rw [show glue (.span k x) (.mark m :: t) = .span k x :: .mark m :: t from rfl, settled]
    split
    · rfl
    · next h =>
      simp only [settled] at h ⊢
      split
      · next ht =>
        rw [if_pos ht] at h
        split
        · rfl
        · next hm => exact absurd (if_neg hm) h
      · rfl
  | .span k x, .span l y :: t =>
    by_cases hkl : k = l
    · subst hkl
      rw [glue_span_same]
      simp only [settled, Entry.closes]
      split
      · simp
      · simp [glue_span_same]
    · rw [glue_span_ne hkl]
      simp only [settled, Entry.closes]
      split
      · simp
      · simp [glue_span_ne hkl]

variable {s t : List (Entry κ α ν)}

theorem settled_foldr_glue {t' : List (Entry κ α ν)} (h : settled closing t = settled closing t') :
    settled closing (s.foldr glue t) = settled closing (s.foldr glue t') := by
  induction s with
  | nil => exact h
  | cons e s ih => rw [foldr_cons, foldr_cons, settled_glue, settled_glue, ih]

theorem settled_merge_open (h : ∀ e ∈ t, e.closes closing = false) :
    settled closing (merge t) = [] := by
  have key : settled closing (t.foldr glue []) = settled closing ([] : List (Entry κ α ν)) := by
    induction t with
    | nil => rfl
    | cons e t ih =>
      have ht := ih fun e' he' => h e' (mem_cons_of_mem _ he')
      rw [foldr_cons, settled_glue, ht]
      simp [settled, h e mem_cons_self]
  exact key

/-- The merged traces are the same up to their last closing mark. -/
def Concur (closing : ν → Bool) (s t : List (Entry κ α ν)) : Prop :=
  settled closing (merge s) = settled closing (merge t)

theorem Concur.of_merge_eq (h : merge s = merge t) :
    Concur closing s t := congrArg (settled closing) h

theorem Concur.of_all (h : Concur (fun _ => true) s t) (closing : ν → Bool) :
    Concur closing s t := by
  rw [Concur, ← settled_settled closing (merge s), ← settled_settled closing (merge t), h]

theorem Concur.of_open (hs : ∀ e ∈ s, e.closes closing = false)
    (ht : ∀ e ∈ t, e.closes closing = false) : Concur closing s t := by
  rw [Concur, settled_merge_open hs, settled_merge_open ht]

/-- Concurring traces stay so behind traces that are the same up to merging. -/
theorem Concur.append_left {r r' : List (Entry κ α ν)} (h : Concur closing s t)
    (hr : merge r = merge r') : Concur closing (r ++ s) (r' ++ t) := by
  rw [Concur, merge_append, merge_append, hr]
  exact settled_foldr_glue h

end Concur

end WagoHttp.Trace
