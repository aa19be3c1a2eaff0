import WagoHttp.Http2.Session.Feeding

/-!
# Header blocks in fragments

The header decoder keeps a table from block to block. When a fragment exceeds one of its bounds, the
rest of the block is not decoded, and what the rest would have entered into the table is missing
from it: what the next blocks mean then depends on where the block was cut. `Spares` says when it
does not: no octets of the block are left after the fragment that exceeds a bound.
-/

namespace WagoHttp.Http2

open List

/-- The library gives the same fields, table and error for the fragments of a block, up to the first
error, as for the block. -/
structure Externals.Fragmentary (X : Externals) : Prop extends X.Incremental where
  nil : ∀ decoder, X.write [] decoder = (decoder, [], none)
  stops : ∀ {decoder fragment}, (X.write fragment decoder).2.2 ≠ none →
    ∀ more, X.write (fragment ++ more) decoder = X.write fragment decoder

namespace HeaderDecoder

variable {X : Externals} {d : HeaderDecoder X}

/-- The fragments of a block are written one after the other, up to the first error. -/
def writeAll (d : HeaderDecoder X) :
    List Bytes → HeaderDecoder X × List HeaderField × Option HeaderError
  | [] => (d, [], none)
  | src :: rest =>
    match d.write src with
    | (d, fields, some err) => (d, fields, some err)
    | (d, fields, none) =>
      let (d, more, err) := d.writeAll rest
      (d, fields ++ more, err)

/-- A block, from `beginBlock` to `endBlock`: the fields that it emits, and whether it succeeds. -/
def block (d : HeaderDecoder X) (cut : List Bytes) :
    HeaderDecoder X × List HeaderField × Bool :=
  match d.beginBlock with
  | .error _ => (d, [], false)
  | .ok d =>
    let (d, fields, err) := d.writeAll cut
    let (d, err') := d.endBlock
    (d, fields, err.isNone && err'.isNone)

/-- The results of a sequence of blocks. -/
def blocks (d : HeaderDecoder X) : List (List Bytes) → List (List HeaderField × Bool)
  | [] => []
  | cut :: cuts => (d.block cut).2 :: (d.block cut).1.blocks cuts

/-! ## Fragments -/

/-- No octets are left after a fragment that exceeds a bound. -/
def Spares (d : HeaderDecoder X) : List Bytes → Prop
  | [] => True
  | src :: rest =>
    match d.write src with
    | (d, _, some _) => d.err = none ∨ rest.flatten = []
    | (d, _, none) => d.Spares rest

/-- **When a cut makes no difference.** -/
def CutCondition (d : HeaderDecoder X) (cut : List Bytes) : Prop :=
  match d.beginBlock with
  | .error _ => True
  | .ok d => d.Spares cut

variable {d' : HeaderDecoder X} {src : Bytes} {cut : List Bytes}

theorem write_ok {fields : List HeaderField} (hactive : d.active = true) (herr : d.err = none)
    (h : d.write src = (d', fields, none)) :
    d'.active = true ∧ d'.err = none := by
  rw [write_eq hactive herr] at h
  simp only [Prod.mk.injEq] at h
  obtain ⟨rfl, -, hcode⟩ := h
  refine ⟨(emitFields_active _ _).trans hactive, ?_⟩
  by_contra hne
  rw [if_pos hne] at hcode
  exact hne hcode

/-- What follows an error of the library makes no difference. -/
theorem write_failed (hX : X.Fragmentary) {fields : List HeaderField} {err : HeaderError}
    (hactive : d.active = true) (herr : d.err = none) (h : d.write src = (d', fields, some err))
    (hd : d'.err = none) (more : Bytes) : d.write (src ++ more) = d.write src := by
  have hfail : (X.write src d.decoder).2.2 ≠ none := by
    intro hnone
    rw [write_eq hactive herr, hnone] at h
    simp only [Prod.mk.injEq] at h
    obtain ⟨rfl, -, hcode⟩ := h
    rw [if_neg (not_not.2 hd)] at hcode
    cases hcode
  rw [write_eq hactive herr, write_eq hactive herr, hX.stops hfail more]

/-- A block is decoded in fragments as in one. -/
theorem writeAll_eq_write (hX : X.Fragmentary) (hactive : d.active = true) (herr : d.err = none)
    (h : d.Spares cut) : d.writeAll cut = d.write cut.flatten := by
  induction cut generalizing d with
  | nil =>
    obtain ⟨decoder, limits, active, count, listSize, err⟩ := d
    obtain rfl : active = true := hactive
    obtain rfl : err = none := herr
    simp [writeAll, write, hX.nil, emitFields]
  | cons src rest ih =>
    rw [flatten_cons]
    rcases hw : d.write src with ⟨d', fields, err⟩
    simp only [Spares, writeAll, hw] at h ⊢
    cases err with
    | none =>
      obtain ⟨hactive', herr'⟩ := write_ok hactive herr hw
      rw [write_append hX.toIncremental hw]
      simp only [ih hactive' herr' h]
    | some err =>
      rcases h with hd | hrest
      · rw [write_failed hX hactive herr hw hd, hw]
      · rw [hrest, append_nil, hw]

theorem block_eq_whole (hX : X.Fragmentary) (h : d.CutCondition cut) :
    d.block cut = d.block [cut.flatten] := by
  unfold CutCondition at h
  unfold block
  unfold beginBlock at h ⊢
  split_ifs at h ⊢ with hactive
  · rfl
  · simp only at h ⊢
    have hwhole : ∀ (e : HeaderDecoder X) src, e.writeAll [src] = e.write src := by
      intro e src
      rcases hw : e.write src with ⟨e', fields, _ | err⟩ <;> simp [writeAll, hw]
    rw [writeAll_eq_write hX rfl rfl h, hwhole]

/-! ## Bounds -/

/-- The size of a list of fields. -/
def sizes (fields : List HeaderField) : ℕ := (fields.map HeaderField.size).sum

/-- The counter of fields does not wrap before one of the bounds is reached. -/
def Limited (l : HeaderLimits) : Prop :=
  l.maxHeaders.toNat + 1 < 2 ^ 32 ∨ l.maxHeaderListBytes.toNat < 2 ^ 37

/-- The decoder has counted the fields that the block has emitted. -/
structure Emitted (l : HeaderLimits) (d : HeaderDecoder X) (fields : List HeaderField) : Prop where
  limits : d.limits = l
  size : d.listSize = sizes fields
  sizes : sizes fields ≤ l.maxHeaderListBytes.toNat
  count : d.err = none → d.fields = fields.length
  length : fields.length ≤ l.maxHeaders.toNat

theorem le_sizes (fields : List HeaderField) : 32 * fields.length ≤ sizes fields := by
  induction fields with
  | nil => exact Nat.zero_le _
  | cons field fields ih =>
    have hsize : sizes (field :: fields) = field.size + sizes fields := sum_cons
    rw [hsize, length_cons, HeaderField.size]
    omega

variable {l : HeaderLimits} {fields : List HeaderField}

theorem emitted_emitField (field : HeaderField) (hl : Limited l) (h : d.Emitted l fields) :
    (d.emitField field).1.Emitted l (fields ++ (d.emitField field).2) := by
  have hsize : sizes (fields ++ [field]) = sizes fields + field.size := by simp [sizes]
  have hfull := le_sizes (fields ++ [field])
  rw [hsize, length_append, length_singleton] at hfull
  have hbound := h.sizes
  unfold emitField
  split
  · rwa [append_nil]
  next herr =>
  rw [h.count (not_not.1 herr), h.limits]
  simp only
  split_ifs with hmany hlarge
  · rw [append_nil]
    exact ⟨rfl, h.size, h.sizes, nofun, h.length⟩
  · rw [append_nil]
    exact ⟨rfl, h.size, h.sizes, nofun, h.length⟩
  · rw [h.size] at hlarge
    -- the counter wraps only after more fields than the size allows
    have hwrap : fields.length + 1 < 2 ^ 32 := by
      have hlength := h.length
      have hmax := l.maxHeaders.toNat_lt
      rcases hl with hl | hl <;> omega
    rw [Nat.mod_eq_of_lt hwrap] at hmany ⊢
    have hlist : d.listSize + field.size = sizes (fields ++ [field]) := by rw [hsize, h.size]
    have hfits : sizes (fields ++ [field]) ≤ l.maxHeaderListBytes.toNat := by omega
    refine ⟨rfl, hlist, hfits, fun _ => by simp, ?_⟩
    rw [length_append, length_singleton]
    omega

theorem emitted_emitFields (more : List HeaderField) (hl : Limited l) (h : d.Emitted l fields) :
    (d.emitFields more).1.Emitted l (fields ++ (d.emitFields more).2) := by
  induction more generalizing d fields with
  | nil => rwa [emitFields, append_nil]
  | cons field more ih =>
    have hrest := ih (emitted_emitField field hl h)
    rwa [append_assoc] at hrest

theorem emitted_write (src : Bytes) (hl : Limited l) (h : d.Emitted l fields) :
    (d.write src).1.Emitted l (fields ++ (d.write src).2.1) := by
  unfold write
  split_ifs
  · rwa [append_nil]
  · rwa [append_nil]
  · exact emitted_emitFields (d := { d with decoder := (X.write src d.decoder).1 }) _ hl
      ⟨h.limits, h.size, h.sizes, h.count, h.length⟩

theorem emitted_writeAll (cut : List Bytes) (hl : Limited l) (h : d.Emitted l fields) :
    (d.writeAll cut).1.Emitted l (fields ++ (d.writeAll cut).2.1) := by
  induction cut generalizing d fields with
  | nil => rwa [writeAll, append_nil]
  | cons src rest ih =>
    have hone := emitted_write src hl h
    rcases hw : d.write src with ⟨d', emitted, _ | err⟩
    · rw [hw] at hone
      have hrest := ih hone
      simp only [writeAll, hw]
      rwa [append_assoc] at hrest
    · rw [hw] at hone
      simp only [writeAll, hw]
      exact hone

theorem block_bounded (cut : List Bytes) (hl : Limited l) (hd : d.limits = l) :
    ((d.block cut).2.1.length ≤ l.maxHeaders.toNat ∧
      sizes (d.block cut).2.1 ≤ l.maxHeaderListBytes.toNat) ∧ (d.block cut).1.limits = l := by
  unfold block beginBlock
  split_ifs
  · exact ⟨⟨Nat.zero_le _, Nat.zero_le _⟩, hd⟩
  · have hstart : Emitted l { d with active := true, fields := 0, listSize := 0, err := none } [] :=
      ⟨hd, rfl, Nat.zero_le _, fun _ => rfl, Nat.zero_le _⟩
    have hall : Emitted l _ _ := emitted_writeAll cut hl hstart
    have hend : ∀ e : HeaderDecoder X, e.endBlock.1.limits = e.limits := by
      intro e
      unfold endBlock
      split <;> rfl
    exact ⟨⟨hall.length, hall.sizes⟩, (hend _).trans hall.limits⟩

/-- **Blocks in fragments.** If no octets of a block are left after a fragment that exceeds a bound,
a sequence of blocks emits the same fields and succeeds or fails alike however the blocks are cut.
However they are cut, no block emits more than the bounds allow. -/
theorem blocks_fragmentation (hX : X.Fragmentary) (limits : HeaderLimits)
    (cuts : List (List Bytes))
    (hcut : Runs.Guarded (fun d cut => (block d cut).1) CutCondition (new X limits) cuts)
    (hl : Limited limits.normalized) :
    (new X limits).blocks cuts = (new X limits).blocks (cuts.map fun cut => [cut.flatten]) ∧
      ∀ r ∈ (new X limits).blocks cuts,
        r.1.length ≤ limits.normalized.maxHeaders.toNat ∧
          sizes r.1 ≤ limits.normalized.maxHeaderListBytes.toNat := by
  have hlimits : (new X limits).limits = limits.normalized := rfl
  generalize new X limits = d at hcut hlimits
  induction cuts generalizing d with
  | nil => exact ⟨rfl, forall_mem_nil _⟩
  | cons cut cuts ih =>
    obtain ⟨hbound, hsame⟩ := block_bounded cut hl hlimits
    obtain ⟨hrest, hbounds⟩ := ih _ hcut.2 hsame
    refine ⟨?_, forall_mem_cons.2 ⟨hbound, hbounds⟩⟩
    rw [blocks, map_cons, blocks, ← block_eq_whole hX hcut.1, hrest]

/-! ## A cut that differs -/

theorem fragmentary_externals : SmallHpack.externals.Fragmentary where
  toIncremental := SmallHpack.incremental
  nil _ := rfl
  stops h := absurd (SmallHpack.Decoder.write_error _ _) h

/-- A literal that is entered into the table. -/
def entry (name value : String) : Bytes :=
  0x40 :: SmallHpack.string (ascii name) ++ SmallHpack.string (ascii value)

/-- Three blocks, the first of which is cut before the field that exceeds the bound. -/
theorem blocks_fragmentation_cut :
    let d := new SmallHpack.externals { maxHeaders := 1 }
    d.blocks [[entry "a" "1", entry "b" "2"], [entry "c" "3"], [[0xbf], []]] =
      d.blocks [[entry "a" "1" ++ entry "b" "2"], [entry "c" "3"], [[0xbf]]] :=
  (blocks_fragmentation fragmentary_externals { maxHeaders := 1 }
    [[entry "a" "1", entry "b" "2"], [entry "c" "3"], [[0xbf], []]]
    (by
      refine ⟨?_, trivial, ?_, trivial⟩
      · exact .inr rfl
      · trivial)
    (.inl (by decide))).1

/-- With a bound of one field, the block that follows a block of three fields is another one if the
three are cut before the last. -/
theorem blocks_cut_differ :
    let d := new SmallHpack.externals { maxHeaders := 1 }
    SmallHpack.externals.Fragmentary ∧
      d.blocks [[entry "a" "1" ++ entry "b" "2", entry "c" "3"], [[0xbe]]] =
        [([{ name := ascii "a", value := ascii "1" }], false),
          ([{ name := ascii "b", value := ascii "2" }], true)] ∧
      d.blocks [[entry "a" "1" ++ entry "b" "2" ++ entry "c" "3"], [[0xbe]]] =
        [([{ name := ascii "a", value := ascii "1" }], false),
          ([{ name := ascii "c", value := ascii "3" }], true)] :=
  ⟨fragmentary_externals, by decide +kernel, by decide +kernel⟩

end HeaderDecoder

end WagoHttp.Http2
