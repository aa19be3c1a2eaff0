import Mathlib.Data.List.Basic

/-!
# Guarded runs

A deterministic machine is a step function `step : σ → α → σ`, and a run of it is a fold over a
list of inputs. `Guarded step ok s as` says that along the run of `as` from `s` every input meets
the condition `ok` in the state that finds it. A property that every step meeting the condition
keeps holds at the end of a guarded run (`Guarded.invariant`).

A machine may work in two granularities: an operation `b` expands, in the state that finds it, to a
list of smaller steps. Conditions on the small steps lift to the operations (`Expands`), and so do
invariants.
-/

namespace WagoHttp.Runs

variable {σ α β γ : Type*}

/-- Every input of the run meets `ok` in the state that finds it. -/
def Guarded (step : σ → α → σ) (ok : σ → α → Prop) : σ → List α → Prop
  | _, [] => True
  | s, a :: as => ok s a ∧ Guarded step ok (step s a) as

instance Guarded.decidable (step : σ → α → σ) (ok : σ → α → Prop) [∀ s a, Decidable (ok s a)] :
    ∀ s as, Decidable (Guarded step ok s as)
  | _, [] => isTrue trivial
  | s, a :: as =>
    have := Guarded.decidable step ok (step s a) as
    inferInstanceAs (Decidable (ok s a ∧ Guarded step ok (step s a) as))

section

variable {step : σ → α → σ} {ok ok' : σ → α → Prop}

@[simp] theorem guarded_nil (s : σ) : Guarded step ok s [] := trivial

variable {s : σ} {as : List α}

@[simp] theorem guarded_cons {a : α} :
    Guarded step ok s (a :: as) ↔ ok s a ∧ Guarded step ok (step s a) as := Iff.rfl

theorem guarded_append {bs : List α} :
    Guarded step ok s (as ++ bs) ↔
      Guarded step ok s as ∧ Guarded step ok (as.foldl step s) bs := by
  induction as generalizing s with
  | nil => simp
  | cons a as ih => simp [ih, and_assoc]

theorem guarded_of_forall {p : α → Prop} (h : ∀ a ∈ as, p a) :
    Guarded step (fun _ a => p a) s as := by
  induction as generalizing s with
  | nil => trivial
  | cons a as ih => exact ⟨h a (by simp), ih fun b hb => h b (by simp [hb])⟩

theorem guarded_always (h : ∀ s a, ok s a) (s : σ) (as : List α) : Guarded step ok s as := by
  induction as generalizing s with
  | nil => trivial
  | cons a as ih => exact ⟨h s a, ih _⟩

theorem Guarded.mono (h : Guarded step ok s as) (himp : ∀ s a, ok s a → ok' s a) :
    Guarded step ok' s as := by
  induction as generalizing s with
  | nil => trivial
  | cons a as ih => exact ⟨himp s a h.1, ih h.2⟩

theorem Guarded.and (h : Guarded step ok s as) (h' : Guarded step ok' s as) :
    Guarded step (fun s a => ok s a ∧ ok' s a) s as := by
  induction as generalizing s with
  | nil => trivial
  | cons a as ih => exact ⟨⟨h.1, h'.1⟩, ih h.2 h'.2⟩

/-- **The invariant rule**: what every guarded step keeps, a guarded run keeps. -/
theorem Guarded.invariant {I : σ → Prop} (hstep : ∀ s a, I s → ok s a → I (step s a))
    (h : Guarded step ok s as) (hs : I s) : I (as.foldl step s) := by
  induction as generalizing s with
  | nil => exact hs
  | cons a as ih => exact ih h.2 (hstep s a hs h.1)

/-- Every step of the run finds the invariant. -/
theorem Guarded.keeps {I : σ → Prop} (hstep : ∀ s a, I s → ok s a → I (step s a))
    (h : Guarded step ok s as) (hs : I s) : Guarded step (fun s a => I s ∧ ok s a) s as := by
  induction as generalizing s with
  | nil => trivial
  | cons a as ih => exact ⟨⟨hs, h.1⟩, ih h.2 (hstep s a hs h.1)⟩

end

/-- Each operation of the coarse machine `op` is the run of a list of steps of the fine one. -/
def Expands (step : σ → α → σ) (op : σ → β → σ) (expand : σ → β → List α) : Prop :=
  ∀ s b, op s b = (expand s b).foldl step s

section

variable {step : σ → α → σ} {op : σ → β → σ} {expand : σ → β → List α}

variable {I J : σ → Prop} {bs : List β}

/-- The invariant rule at two granularities: `J` is kept by whole operations and makes their steps
meet `wf`; `I` is kept by the steps that meet `wf` and the condition `ok`. -/
theorem Expands.invariant (hexp : Expands step op expand) {wf ok : σ → α → Prop}
    (hJ : ∀ s b, J s → Guarded step wf s (expand s b) ∧ J (op s b))
    (hI : ∀ s a, I s → wf s a → ok s a → I (step s a)) {s : σ}
    (h : Guarded op (fun s b => Guarded step ok s (expand s b)) s bs) (hs : I s) (hj : J s) :
    I (bs.foldl op s) ∧ Guarded op (fun s b =>
      Guarded step (fun s a => I s ∧ wf s a ∧ ok s a) s (expand s b)) s bs := by
  have hI' (s a) (hIs : I s) (h : wf s a ∧ ok s a) : I (step s a) := hI s a hIs h.1 h.2
  have hop (s b) (hIJ : I s ∧ J s) (hok : Guarded step ok s (expand s b)) :
      I (op s b) ∧ J (op s b) := by
    obtain ⟨hwf, hJ'⟩ := hJ s b hIJ.2
    refine ⟨?_, hJ'⟩
    rw [hexp s b]
    exact (hwf.and hok).invariant hI' hIJ.1
  exact ⟨(h.invariant hop ⟨hs, hj⟩).1, (h.keeps hop ⟨hs, hj⟩).mono fun s b hk =>
    ((hJ s b hk.1.2).1.and hk.2).keeps hI' hk.1.1⟩

end

/-! ## What a run emits -/

/-- What the steps of a run emit, in order. -/
def emits (step : σ → α → σ) (f : σ → α → List γ) : σ → List α → List γ
  | _, [] => []
  | s, a :: as => f s a ++ emits step f (step s a) as

section

variable {step : σ → α → σ} {f : σ → α → List γ}

variable {I : σ → List γ → Prop}

/-- The invariant rule for the state together with what has been emitted so far. -/
theorem Guarded.invariant_emits {ok : σ → α → Prop}
    (hstep : ∀ s a t, I s t → ok s a → I (step s a) (t ++ f s a)) {s : σ} {as : List α} {t : List γ}
    (h : Guarded step ok s as) (hs : I s t) :
    I (as.foldl step s) (t ++ emits step f s as) := by
  induction as generalizing s t with
  | nil =>
    rw [emits, List.append_nil]
    exact hs
  | cons a as ih =>
    rw [emits, ← List.append_assoc]
    exact ih h.2 (hstep s a t hs h.1)

variable {op : σ → β → σ} {expand : σ → β → List α}

/-- The invariant rule at two granularities, together with what has been emitted. -/
theorem Expands.invariant_emits (hexp : Expands step op expand) {wf ok : σ → α → Prop}
    {J : σ → Prop} (hJ : ∀ s b, J s → Guarded step wf s (expand s b) ∧ J (op s b))
    (hI : ∀ s a t, I s t → wf s a → ok s a → I (step s a) (t ++ f s a)) {s : σ} {bs : List β}
    (h : Guarded op (fun s b => Guarded step ok s (expand s b)) s bs) (hs : I s []) (hj : J s) :
    I (bs.foldl op s) (emits op (fun s b => emits step f s (expand s b)) s bs) := by
  have key := h.invariant_emits (I := fun s t => I s t ∧ J s)
    (f := fun s b => emits step f s (expand s b)) (fun s b t hIJ hok => ?_) ⟨hs, hj⟩
  · rw [List.nil_append] at key
    exact key.1
  · obtain ⟨hwf, hJ'⟩ := hJ s b hIJ.2
    refine ⟨?_, hJ'⟩
    rw [hexp s b]
    exact (hwf.and hok).invariant_emits (fun s a t hIs h => hI s a t hIs h.1 h.2) hIJ.1

end

end WagoHttp.Runs
