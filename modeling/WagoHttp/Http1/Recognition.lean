import WagoHttp.Http1.Parser

/-!
# Names are recognised as if they were compared

The parser knows a few methods and fields by their names, and recognises them octet by octet: it
keeps the candidates that begin with the octets so far, and a position that stops at 255 for
methods. When the name ends, the candidate as long as the name is the one that is meant. This is the
same as comparing the whole name.
-/

namespace WagoHttp.Http1

open List

/-! ## Candidates -/

section Candidates

variable {α : Type} {name : α → Bytes} {known mask : List α} {other m : α}
  {w : Bytes} {pos : ℕ}

/-- The names that begin with the octets so far. -/
def candidates (name : α → Bytes) (known : List α) (w : Bytes) : List α :=
  known.filter fun m => w.isPrefixOf (name m)

theorem mem_candidates (hm : m ∈ known) : m ∈ candidates name known w ↔ w <+: name m := by
  simp [candidates, hm]

theorem prefix_octet_iff {l : Bytes} {b : UInt8} :
    w ++ [b] <+: l ↔ w <+: l ∧ l[w.length]? = some b := by
  constructor
  · rintro ⟨rest, rfl⟩
    simp
  · rintro ⟨⟨rest, rfl⟩, hb⟩
    rw [getElem?_append_right le_rfl, Nat.sub_self] at hb
    obtain ⟨rest, rfl⟩ : ∃ tail, rest = b :: tail := by cases rest <;> simp_all
    exact ⟨rest, by simp⟩

/-- One more octet leaves those that have it at its place. -/
theorem candidates_concat (w : Bytes) (b : UInt8) :
    candidates name known (w ++ [b]) =
      (candidates name known w).filter fun m => (name m)[w.length]? == some b := by
  rw [candidates, candidates, filter_filter]
  refine filter_congr fun m _ => ?_
  rw [Bool.eq_iff_iff, Bool.and_eq_true, isPrefixOf_iff_prefix, isPrefixOf_iff_prefix,
    beq_iff_eq, prefix_octet_iff, and_comm]

/-- The first octet bounds the candidates of every longer name. -/
theorem candidates_sublist (b : UInt8) (w : Bytes) :
    candidates name known (b :: w) <+ candidates name known [b] := by
  refine monotone_filter_right _ fun m hm => ?_
  simp only [ isPrefixOf_iff_prefix] at hm ⊢
  exact (prefix_append [b] w).trans hm

/-- A candidate as long as the name is the one that is meant. -/
theorem found_iff [DecidableEq α] (hinj : ∀ x ∈ known, ∀ y ∈ known, name x = name y → x = y)
    (hother : other ∉ known) (hmask : mask = candidates name known w)
    (hpos : ∀ x ∈ known, pos = (name x).length ↔ w.length = (name x).length) (hm : m ∈ known) :
    (known.find? fun x => mask.contains x && pos == (name x).length).getD other = m ↔
      w = name m := by
  have key : ∀ x ∈ known, (mask.contains x && pos == (name x).length) = true ↔ w = name x := by
    intro x hx
    rw [Bool.and_eq_true, contains_iff_mem, hmask, mem_candidates hx, beq_iff_eq, hpos x hx]
    exact ⟨fun h => h.1.eq_of_length h.2, fun h => ⟨h ▸ prefix_rfl, congrArg _ h⟩⟩
  cases hfind : known.find? fun x => mask.contains x && pos == (name x).length with
  | none =>
    refine iff_of_false (fun h : other = m => hother (h ▸ hm)) fun hw => ?_
    exact find?_eq_none.1 hfind m hm ((key m hm).2 hw)
  | some x =>
    have hx := mem_of_find?_eq_some hfind
    have hw := (key x hx).1 (by simpa using find?_some hfind)
    refine ⟨fun h => h ▸ hw, fun h => hinj x hx m hm (hw.symm.trans h)⟩

end Candidates

/-! ## Methods -/

namespace MethodScan

theorem methodsOf_eq (b : UInt8) : methodsOf b = candidates Method.name Method.known [b] := by
  revert b
  exact forall_octet (by decide +kernel)

/-- Only POST, PUT and PATCH begin alike. -/
theorem methodsOf_few (b : UInt8) :
    (methodsOf b).length ≤ 1 ∨ ∀ m ∈ methodsOf b, m ∈ [Method.post, .put, .patch] := by
  revert b
  exact forall_octet (by decide +kernel)

theorem length_name (m : Method) : m.name.length ≤ 7 := by cases m <;> decide

/-- Beyond the longest name, where the position stops does not matter. -/
theorem getElem?_name_min (m : Method) (n : ℕ) : m.name[min n 255]? = m.name[n]? := by
  have hlen := length_name m
  rcases le_total n 255 with hn | hn
  · rw [min_eq_left hn]
  · rw [min_eq_right hn, getElem?_eq_none (by omega), getElem?_eq_none (by omega)]

/-- The candidates and the position after the octets of a method. -/
theorem foldl_matchMethod (w : Bytes) :
    w.foldl matchMethod { methodMask := Method.known } =
      { methodMask := candidates Method.name Method.known w, methodPos := min w.length 255 } := by
  induction w using reverseRecOn with
  | nil => decide
  | append_singleton w b ih =>
    rw [foldl_append, ih, foldl_cons, foldl_nil, matchMethod]
    have hpos : advance (min w.length 255) = min (w ++ [b]).length 255 := by
      rw [length_append, length_singleton, advance]
      split <;> omega
    simp only [hpos, getElem?_name_min]
    congr 1
    rcases w with _ | ⟨b₀, w⟩
    · exact methodsOf_eq b
    rw [if_neg (by rw [length_cons]; omega), candidates_concat]
    have hsub := methodsOf_eq b₀ ▸ candidates_sublist b₀ w
    generalize candidates Method.name Method.known (b₀ :: w) = mask at hsub
    match mask with
    | [] => rfl
    | [m] => simp [filter_cons]
    | m :: m' :: rest =>
      refine filter_congr fun x hx => ?_
      have hlen := hsub.length_le
      simp only [length_cons] at hlen
      have hx := (methodsOf_few b₀).resolve_left (by omega) x (hsub.subset hx)
      simp [hx]

end MethodScan

/-! ## Fields -/

namespace FieldName

theorem fieldsOf_eq (b : UInt8) : fieldsOf b = candidates FieldKind.name FieldKind.known [b] := by
  revert b
  exact forall_octet (by decide +kernel)

theorem length_fieldsOf (b : UInt8) : (fieldsOf b).length ≤ 2 := by
  revert b
  exact forall_octet (by decide +kernel)

/-- The candidates and the position after the octets of a field name. -/
theorem foldl_matchField (s : FieldName) (hmask : s.fieldMask = FieldKind.known)
    (hpos : s.fieldPos = 0) (w : Bytes) :
    w.foldl matchField s = { s with
      fieldMask := candidates FieldKind.name FieldKind.known (w.map asciiLower)
      fieldPos := w.length } := by
  induction w using reverseRecOn with
  | nil =>
    rw [foldl_nil, map_nil, length_nil, ← hpos, ← show s.fieldMask = candidates _ _ [] from
      hmask.trans (by decide)]
  | append_singleton w b ih =>
    rw [foldl_append, ih, foldl_cons, foldl_nil, map_append, map_singleton, length_append]
    simp only [matchField]
    congr 1
    rcases w with _ | ⟨b₀, w⟩
    · exact fieldsOf_eq _
    rw [if_neg (by simp), candidates_concat, length_map]
    have hsub := fieldsOf_eq (asciiLower b₀) ▸ candidates_sublist (asciiLower b₀) (w.map asciiLower)
    have hlen := hsub.length_le.trans (length_fieldsOf _)
    rw [map_cons]
    generalize candidates FieldKind.name FieldKind.known _ = mask at hlen
    match mask with
    | [] => rfl
    | [f] => simp [filter_cons]
    | [f, g] => rfl
    | _ :: _ :: _ :: _ => simp at hlen

end FieldName

/-- **Names are recognised as if they were compared.** A method is a known one exactly if its octets
are the name. A header name within the limit, where the position of the source does not wrap, is
that of a known field exactly if it is equal to the name up to the case of letters, except that Host
is not a field of a response header. -/
theorem names_recognised (p : Parser) :
    (∀ (w : Bytes) (m : Method), m ≠ .other →
      ((w.foldl MethodScan.matchMethod p.resetMessage.methodScan).finishMethod = m ↔ w = m.name)) ∧
    ∀ q, p.beginHeader = .ok q → ∀ w : Bytes, w.length ≤ q.limits.maxHeaderNameBytes.toNat →
      ∀ f : FieldKind, f ≠ .other →
        ((w.foldl FieldName.matchField q.fieldName).namedField q.kind q.trailers = f ↔
          w.map asciiLower = f.name ∧ ¬(q.kind = .response ∧ ¬q.trailers ∧ f = .host)) := by
  refine ⟨fun w m hm => ?_, fun q hq w _ f hf => ?_⟩
  · rw [show p.resetMessage.methodScan = { methodMask := Method.known } from rfl,
      MethodScan.foldl_matchMethod]
    refine found_iff (by decide) (by decide) rfl (fun x _ => ?_)
      (by cases m <;> first | decide | exact absurd rfl hm)
    have := MethodScan.length_name x
    change min w.length 255 = _ ↔ _
    omega
  · unfold Parser.beginHeader at hq
    split at hq
    · cases hq
    cases hq
    rw [FieldName.foldl_matchField _ rfl rfl]
    have hfound : (FieldKind.known.find? fun x => (candidates FieldKind.name FieldKind.known
        (w.map asciiLower)).contains x && w.length == x.name.length).getD .other = f ↔ _ :=
      found_iff (by decide) (by decide) rfl (fun x _ => by rw [length_map])
        (by cases f <;> first | decide | exact absurd rfl hf)
    simp only [FieldName.namedField]
    generalize (FieldKind.known.find? _).getD .other = g at hfound
    rw [← hfound]
    split
    · next h => exact iff_of_false hf.symm fun hg => hg.2 (hg.1 ▸ h)
    · next h => exact ⟨fun hg => ⟨hg, hg ▸ h⟩, fun hg => hg.1⟩

/-- The field of a request that is named in capitals. -/
theorem names_recognised_host : ∃ q, (newParser .request {}).beginHeader = .ok q ∧
    ((ascii "HOST").foldl FieldName.matchField q.fieldName).namedField q.kind q.trailers = .host :=
  ⟨_, rfl, ((names_recognised (newParser .request {})).2 _ rfl (ascii "HOST") (by decide) .host
    (by decide)).2 (by decide)⟩

end WagoHttp.Http1
