import Mathlib.Data.List.AList

/-!
# Counting in finite tables

`countIf p t` is the number of entries of a finite table whose value satisfies `p`. Storing a value
under a key and removing a key change it by what they change at that key.
-/

namespace WagoHttp.Table

open List

variable {κ β : Type*} [DecidableEq κ]

/-- The number of entries of a table whose value satisfies `p`. -/
def countIf (p : β → Bool) (t : AList fun _ : κ => β) : ℕ :=
  (t.keys.filter fun k => (t.lookup k).any p).length

variable {p : β → Bool} {t : AList fun _ : κ => β} {k : κ} {v w : β}

theorem mem_keys_of_lookup (h : t.lookup k = some v) : k ∈ t.keys := by
  rw [← AList.mem_keys, ← AList.lookup_isSome, h]
  rfl

theorem notMem_keys_of_lookup (h : t.lookup k = none) : k ∉ t.keys := by
  rw [← AList.mem_keys]
  exact AList.lookup_eq_none.1 h

/-- The entries under other keys. -/
theorem filter_congr_erase (p : β → Bool) {t u : AList fun _ : κ => β}
    (h : ∀ k' ≠ k, u.lookup k' = t.lookup k') :
    (t.keys.erase k).filter (fun k => (u.lookup k).any p) =
      (t.keys.erase k).filter (fun k => (t.lookup k).any p) := by
  refine filter_congr fun k' hk' => ?_
  rw [h k' fun heq => ?_]
  subst heq
  exact t.keys_nodup.not_mem_erase hk'

/-- A new key. -/
theorem countIf_insert_new (h : t.lookup k = none) :
    countIf p (t.insert k v) = countIf p t + if p v then 1 else 0 := by
  have hk := notMem_keys_of_lookup h
  have hcongr := filter_congr_erase p (t := t) (u := t.insert k v)
    fun k' hk' => AList.lookup_insert_ne hk'
  rw [erase_of_not_mem hk] at hcongr
  unfold countIf
  rw [AList.keys_insert, filter_cons, erase_of_not_mem hk, hcongr]
  simp only [AList.lookup_insert, Option.any_some]
  split <;> simp

/-- The entries of a table: the one under `k` and the others. -/
theorem countIf_eq_erase (h : t.lookup k = some v) :
    countIf p t = countIf p (t.erase k) + if p v then 1 else 0 := by
  have hcongr := filter_congr_erase p (t := t) (u := t.erase k)
    fun k' hk' => AList.lookup_erase_ne hk'
  have hperm := (perm_cons_erase (mem_keys_of_lookup h)).filter fun k => (t.lookup k).any p
  unfold countIf
  rw [hperm.length_eq, AList.keys_erase, hcongr, filter_cons]
  simp only [h, Option.any_some]
  split <;> simp

/-- A key whose value changes. -/
theorem countIf_insert_of_lookup (h : t.lookup k = some w) :
    countIf p (t.insert k v) + (if p w then 1 else 0) = countIf p t + if p v then 1 else 0 := by
  have hcongr := filter_congr_erase p (t := t) (u := t.insert k v)
    fun k' hk' => AList.lookup_insert_ne hk'
  have hcongr' := filter_congr_erase p (t := t) (u := t.erase k)
    fun k' hk' => AList.lookup_erase_ne hk'
  rw [countIf_eq_erase h]
  unfold countIf
  rw [AList.keys_insert, filter_cons, hcongr, AList.keys_erase, hcongr']
  simp only [AList.lookup_insert, Option.any_some]
  split
  · simp only [length_cons]
    omega
  · rfl

/-- A value that replaces one that `p` treats alike. -/
theorem countIf_insert_same (h : t.lookup k = some w) (hp : p v = p w) :
    countIf p (t.insert k v) = countIf p t := by
  have := countIf_insert_of_lookup (p := p) (v := v) h
  rw [hp] at this
  omega

theorem length_keys_insert (h : t.lookup k = some w) :
    (t.insert k v).keys.length = t.keys.length := by
  have hk := mem_keys_of_lookup h
  have hpos := length_pos_of_mem hk
  rw [AList.keys_insert, length_cons, length_erase_of_mem hk]
  omega

theorem length_keys_insert_new (h : t.lookup k = none) :
    (t.insert k v).keys.length = t.keys.length + 1 := by
  rw [AList.keys_insert, length_cons, erase_of_not_mem (notMem_keys_of_lookup h)]

theorem length_keys_erase_le (t : AList fun _ : κ => β) (k : κ) :
    (t.erase k).keys.length ≤ t.keys.length := by
  rw [AList.keys_erase]
  exact length_erase_le

theorem countIf_congr {q : β → Bool} (h : ∀ v, p v = q v) : countIf p t = countIf q t := by
  rw [funext h]

/-- The entries that satisfy `p` are those that satisfy `q` too and the others. -/
theorem countIf_eq_add (q : β → Bool) :
    countIf p t = countIf (fun v => p v && q v) t + countIf (fun v => p v && !q v) t := by
  unfold countIf
  rw [length_eq_length_filter_add fun k => (t.lookup k).any q, filter_filter,
    filter_filter]
  congr 2
  · refine filter_congr fun k _ => ?_
    cases t.lookup k <;> simp [Bool.and_comm]
  · refine filter_congr fun k hk => ?_
    obtain ⟨v, hv⟩ := Option.isSome_iff_exists.1 (AList.lookup_isSome.2 (AList.mem_keys.2 hk))
    simp [hv, Bool.and_comm]

/-- The entries of a table are those that satisfy `q` and the others. -/
theorem length_keys_eq_add (q : β → Bool) :
    t.keys.length = countIf q t + countIf (fun v => !q v) t := by
  have hall : countIf (fun _ => true) t = t.keys.length := by
    unfold countIf
    rw [filter_eq_self.2]
    intro k hk
    obtain ⟨v, hv⟩ := Option.isSome_iff_exists.1 (AList.lookup_isSome.2 (AList.mem_keys.2 hk))
    simp [hv]
  rw [← hall, countIf_eq_add q]
  simp

end WagoHttp.Table
