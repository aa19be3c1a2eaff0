import WagoHttp.Http2.SmallHpack

/-!
# The small codec is lossless

`lossless`: the decoder of `SmallHpack` emits the fields of every block of the encoder and stays
synchronised with it. Synchronised decoders have the table of the encoder, or will have it after
the size updates that the encoder writes before its next field. A block that comes in fragments is
read as if it came whole (`Decoder.write_append`).
-/

namespace WagoHttp.Http2.SmallHpack

open List

/-! ## Integers and strings -/

theorem readIntRest_varIntRest (i : ℕ) (rest : Bytes) :
    readIntRest (varIntRest i ++ rest) = some (i, rest) := by
  induction i using Nat.strong_induction_on with
  | _ i ih =>
    rw [varIntRest]
    split_ifs with hi
    · have hb : (UInt8.ofNat i).toNat = i := by
        rw [UInt8.toNat_ofNat']
        omega
      simp [readIntRest, hb, hi]
    · have hb : (UInt8.ofNat (128 + i % 128)).toNat = 128 + i % 128 := by
        rw [UInt8.toNat_ofNat']
        omega
      have hlt : i / 128 < i := by omega
      simp only [cons_append, readIntRest, hb, ih _ hlt, Option.map_some]
      rw [if_neg (by omega)]
      simp only [Option.some.injEq, Prod.mk.injEq, and_true]
      omega

/-- The first octet of an integer. -/
theorem varInt_head (n flags i : ℕ) : ∃ k rest, k ≤ 2 ^ n - 1 ∧
    varInt n flags i = UInt8.ofNat (flags + k) :: rest := by
  unfold varInt
  split_ifs with hi
  · exact ⟨i, [], hi.le, rfl⟩
  · exact ⟨_, _, le_rfl, rfl⟩

/-- An integer is read back, whatever follows it. -/
theorem readInt_varInt (n flags : ℕ) (hn : 0 < n) (hflags : flags % 2 ^ n = 0)
    (hlt : flags + 2 ^ n ≤ 256) (i : ℕ) (rest : Bytes) :
    readInt n (varInt n flags i ++ rest) = some (i, rest) := by
  have hpow : 2 ≤ 2 ^ n := Nat.le_self_pow hn.ne' 2
  have hoctet : ∀ k ≤ 2 ^ n - 1, (UInt8.ofNat (flags + k)).toNat % 2 ^ n = k := by
    intro k hk
    have hsum : flags + k < 2 ^ 8 := by omega
    rw [UInt8.toNat_ofNat', Nat.mod_eq_of_lt hsum, Nat.add_mod, hflags, zero_add, Nat.mod_mod,
      Nat.mod_eq_of_lt (by omega)]
  unfold varInt
  split_ifs with hi
  · simp only [singleton_append, readInt, hoctet i (by omega)]
    rw [if_pos hi]
  · simp only [cons_append, readInt, hoctet _ le_rfl, readIntRest_varIntRest, Option.map_some]
    rw [if_neg (by omega)]
    simp only [Option.some.injEq, Prod.mk.injEq, and_true]
    omega

theorem readString_string (s rest : Bytes) : readString (string s ++ rest) = some (s, rest) := by
  unfold readString string
  rw [append_assoc, readInt_varInt 7 0 (by norm_num) (by norm_num) (by norm_num)]
  simp

/-! ## Tables -/

theorem fit_fit (a b : ℕ) (table : List HeaderField) :
    fit a (fit b table) = fit (min a b) table := by
  induction table generalizing a b with
  | nil => rfl
  | cons field fields ih =>
    by_cases hb : field.size ≤ b
    · by_cases ha : field.size ≤ a
      · simp only [fit, hb, ha, if_true, ih, le_min_iff, and_self]
        congr 2
        omega
      · simp [fit, hb, ha]
    · simp [fit, hb]

variable {i : ℕ} {e : Encoder} {d : Decoder} {rest src : Bytes}

theorem lookup?_index? {table : List HeaderField} {field : HeaderField}
    (h : index? table field = some i) : lookup? table i = some field := by
  unfold index? at h
  split at h
  · next j hj =>
    cases h
    obtain ⟨hlt, hget, -⟩ := findIdx?_eq_some_iff_getElem.1 hj
    have hlen : staticTable.length = 14 := rfl
    have hdyn : j + 1 < firstDynamic := by
      unfold firstDynamic
      omega
    unfold lookup?
    rw [if_neg (by omega), if_pos hdyn, Nat.add_sub_cancel, getElem?_eq_getElem hlt]
    exact congrArg some (eq_of_beq hget)
  · obtain ⟨j, hj, rfl⟩ := Option.map_eq_some_iff.1 h
    obtain ⟨hlt, hget, -⟩ := findIdx?_eq_some_iff_getElem.1 hj
    unfold lookup?
    rw [if_neg (by unfold firstDynamic; omega), if_neg (by omega), Nat.add_sub_cancel_left,
      getElem?_eq_getElem hlt]
    exact congrArg some (eq_of_beq hget)

/-! ## Representations -/

namespace Decoder

/-- The decoder reads `src` as one representation, whatever follows it. -/
def Reads (d : Decoder) (src : Bytes) (d' : Decoder) (field : Option HeaderField) : Prop :=
  src ≠ [] ∧ ∀ rest, d.read (src ++ rest) = some (d', field, rest)

variable {field : HeaderField}

theorem reads_indexed {d : Decoder} {i : ℕ} (h : index? d.table field = some i) :
    d.Reads (varInt 7 0x80 i) d (some field) := by
  obtain ⟨k, tail, hk, heq⟩ := varInt_head 7 0x80 i
  have hb : (UInt8.ofNat (0x80 + k)).toNat ≥ 0x80 := by
    rw [UInt8.toNat_ofNat']
    omega
  refine ⟨by simp [heq], fun rest => ?_⟩
  have hint := readInt_varInt 7 0x80 (by norm_num) (by norm_num) (by norm_num) i rest
  rw [heq, cons_append] at hint ⊢
  simp only [read, if_pos hb, hint, lookup?_index? h, Option.map_some]

theorem reads_update (d : Decoder) (size : ℕ) :
    d.Reads (varInt 5 0x20 size) { d with maxSize := size, table := fit size d.table } none := by
  obtain ⟨k, tail, hk, heq⟩ := varInt_head 5 0x20 size
  have hb : (UInt8.ofNat (0x20 + k)).toNat = 0x20 + k := by
    rw [UInt8.toNat_ofNat']
    omega
  have hne : UInt8.ofNat (0x20 + k) ≠ 0x40 := fun h => by
    have := congrArg UInt8.toNat h
    rw [hb] at this
    simp at this
    omega
  refine ⟨by simp [heq], fun rest => ?_⟩
  have hint := readInt_varInt 5 0x20 (by norm_num) (by norm_num) (by norm_num) size rest
  rw [heq, cons_append] at hint ⊢
  simp only [read, hint, hb, Option.map_some]
  rw [if_neg (by omega), if_neg hne, if_pos (by omega)]

theorem readLiteral_strings (field : HeaderField) (rest : Bytes) :
    readLiteral (string field.name ++ string field.value ++ rest) field.sensitive =
      some (field, rest) := by
  unfold readLiteral
  rw [append_assoc, readString_string]
  simp only [readString_string]

/-- A literal that goes into the table. -/
theorem reads_indexing (d : Decoder) (hs : field.sensitive = false) :
    d.Reads (0x40 :: (string field.name ++ string field.value))
      { d with table := fit d.maxSize (field :: d.table) } (some field) := by
  refine ⟨by simp, fun rest => ?_⟩
  have hlit := readLiteral_strings field rest
  rw [hs] at hlit
  simp only [cons_append, read]
  rw [if_neg (by decide), if_pos trivial, hlit]
  rfl

/-- A literal that stays out of the table. -/
theorem reads_literal (d : Decoder) (field : HeaderField) :
    d.Reads ((if field.sensitive then 0x10 else 0x00) :: (string field.name ++ string field.value))
      d (some field) := by
  refine ⟨by simp, fun rest => ?_⟩
  have hlit := readLiteral_strings field rest
  simp only [cons_append, read]
  by_cases hs : field.sensitive = true
  · rw [hs] at hlit
    rw [if_pos hs, if_neg (by decide), if_neg (by decide), if_neg (by decide),
      show ((0x10 : UInt8) == 0x10) = true from rfl, hlit]
    rfl
  · rw [Bool.not_eq_true] at hs
    rw [hs] at hlit
    rw [hs, if_neg (by decide), if_neg (by decide), if_neg (by decide), if_neg (by decide),
      show ((0x00 : UInt8) == 0x10) = false from rfl, hlit]
    rfl

theorem readAll_of_reads {d d' : Decoder} {src rest : Bytes} {field : Option HeaderField} {fuel : ℕ}
    (h : d.Reads src d' field) (hfuel : (src ++ rest).length ≤ fuel) :
    ∃ fuel', rest.length ≤ fuel' ∧
      readAll fuel d (src ++ rest) =
        ((readAll fuel' d' rest).1, field.toList ++ (readAll fuel' d' rest).2.1,
          (readAll fuel' d' rest).2.2) := by
  obtain ⟨hne, hread⟩ := h
  have hpos := length_pos_iff.2 hne
  rw [length_append] at hfuel
  obtain ⟨fuel', rfl⟩ : ∃ n, fuel = n + 1 := ⟨fuel - 1, by omega⟩
  refine ⟨fuel', by omega, ?_⟩
  simp only [readAll, hread]

end Decoder

/-! ## Synchronisation -/

/-- The decoder has the table of the encoder, up to the size updates that the encoder is still to
write: the table has been cut to the least size since the last update. -/
def InStep (e : Encoder) (d : Decoder) : Prop :=
  match e.update with
  | none => e.maxSize = d.maxSize ∧ e.table = d.table
  | some least => least ≤ e.maxSize ∧ e.table = fit least d.table

/-- A decoder between blocks that is in step with the encoder. -/
def Sync (e : Encoder) (d : Decoder) : Prop := InStep e d ∧ d.saved = []

open Decoder

/-- The decoder after the size updates of the encoder. -/
def caughtUp (e : Encoder) (d : Decoder) : Decoder :=
  { d with maxSize := e.maxSize, table := e.table }

/-- The size updates bring the decoder to the table of the encoder. -/
theorem readAll_updates {fuel : ℕ} (h : InStep e d) (hfuel : (e.updates ++ rest).length ≤ fuel) :
    ∃ fuel', rest.length ≤ fuel' ∧
      readAll fuel d (e.updates ++ rest) = readAll fuel' (caughtUp e d) rest := by
  unfold InStep at h
  unfold Encoder.updates at hfuel ⊢
  generalize e.update = update at h hfuel
  cases update with
  | none =>
    refine ⟨fuel, hfuel, ?_⟩
    simp [caughtUp, h.1, h.2]
  | some least =>
    obtain ⟨hle, htable⟩ := h
    simp only [append_assoc] at hfuel ⊢
    -- after the least size has been read, the last update cuts nothing more
    by_cases hlt : least < e.maxSize
    · rw [if_pos hlt] at hfuel ⊢
      obtain ⟨fuel₁, hfuel₁, h₁⟩ := readAll_of_reads (reads_update d least) hfuel
      obtain ⟨fuel₂, hfuel₂, h₂⟩ := readAll_of_reads (reads_update _ e.maxSize) hfuel₁
      refine ⟨fuel₂, hfuel₂, ?_⟩
      rw [h₁, h₂]
      simp only [fit_fit, min_eq_right hle, caughtUp, htable, Option.toList_none, nil_append]
    · rw [if_neg hlt] at hfuel ⊢
      obtain ⟨fuel₁, hfuel₁, h₁⟩ := readAll_of_reads (reads_update d e.maxSize) hfuel
      refine ⟨fuel₁, hfuel₁, ?_⟩
      have heq : least = e.maxSize := by omega
      rw [nil_append, h₁]
      simp only [caughtUp, htable, heq, Option.toList_none, nil_append]

/-- One field: the decoder reads it back and is in step again. -/
theorem readAll_writeField (field : HeaderField) (h : InStep e d) :
    ∃ d', d'.saved = d.saved ∧ InStep (e.writeField field).1 d' ∧
      ∀ (rest : Bytes) (fuel : ℕ), ((e.writeField field).2 ++ rest).length ≤ fuel →
        ∃ fuel', rest.length ≤ fuel' ∧
          readAll fuel d ((e.writeField field).2 ++ rest) =
            ((readAll fuel' d' rest).1, field :: (readAll fuel' d' rest).2.1,
              (readAll fuel' d' rest).2.2) := by
  -- the updates first, then one representation
  have key : ∀ {src : Bytes} {d' : Decoder}, (caughtUp e d).Reads src d' (some field) →
      ∀ (rest : Bytes) (fuel : ℕ), (e.updates ++ src ++ rest).length ≤ fuel →
        ∃ fuel', rest.length ≤ fuel' ∧
          readAll fuel d (e.updates ++ src ++ rest) =
            ((readAll fuel' d' rest).1, field :: (readAll fuel' d' rest).2.1,
              (readAll fuel' d' rest).2.2) := by
    intro src d' hreads rest fuel hfuel
    rw [append_assoc] at hfuel ⊢
    obtain ⟨fuel₁, hfuel₁, h₁⟩ := readAll_updates h hfuel
    obtain ⟨fuel₂, hfuel₂, h₂⟩ := readAll_of_reads hreads hfuel₁
    exact ⟨fuel₂, hfuel₂, h₁.trans h₂⟩
  unfold Encoder.writeField
  simp only
  split
  · next i hi =>
    have hindex : index? e.table field = some i := by
      split at hi
      · cases hi
      · exact hi
    exact ⟨caughtUp e d, rfl, ⟨rfl, rfl⟩, key (reads_indexed hindex)⟩
  · unfold Encoder.literal
    simp only
    split_ifs with hs hsize
    · have hreads := reads_literal (caughtUp e d) field
      rw [if_pos hs] at hreads
      exact ⟨caughtUp e d, rfl, ⟨rfl, rfl⟩, key hreads⟩
    · have hreads := reads_indexing (caughtUp e d) (Bool.not_eq_true _ ▸ hs)
      exact ⟨{ caughtUp e d with table := fit e.maxSize (field :: e.table) }, rfl, ⟨rfl, rfl⟩,
        key hreads⟩
    · have hreads := reads_literal (caughtUp e d) field
      rw [if_neg hs] at hreads
      exact ⟨caughtUp e d, rfl, ⟨rfl, rfl⟩, key hreads⟩

/-- A block: the decoder reads all of its fields and is in step again. -/
theorem readAll_encodeBlock (fields : List HeaderField) (h : InStep e d) :
    ∃ d', d'.saved = d.saved ∧ InStep (externals.encodeBlock fields e).1 d' ∧
      ∀ {fuel : ℕ}, (externals.encodeBlock fields e).2.length ≤ fuel →
        readAll fuel d (externals.encodeBlock fields e).2 = (d', fields, []) := by
  induction fields generalizing e d with
  | nil =>
    refine ⟨d, rfl, h, fun {fuel} _ => ?_⟩
    cases fuel <;> rfl
  | cons field fields ih =>
    obtain ⟨d₁, hsaved₁, hstep₁, hread₁⟩ := readAll_writeField field h
    obtain ⟨d₂, hsaved₂, hstep₂, hread₂⟩ := ih hstep₁
    refine ⟨d₂, hsaved₂.trans hsaved₁, hstep₂, fun {fuel} hfuel => ?_⟩
    obtain ⟨fuel', hfuel', heq⟩ :=
      hread₁ (externals.encodeBlock fields (e.writeField field).1).2 fuel hfuel
    rw [hread₂ hfuel'] at heq
    exact heq

theorem inStep_resize (v : UInt32) (h : InStep e d) : InStep ((e.setLimit v).setMaxSize v) d := by
  -- the limit and the size are the same, so the table is cut once
  obtain ⟨limit, heq⟩ : ∃ limit, (e.setLimit v).setMaxSize v =
      { e with
        limit, maxSize := v.toNat, table := fit v.toNat e.table
        update := some (min (e.update.getD (2 ^ 32 - 1)) v.toNat) } := by
    unfold Encoder.setLimit
    split_ifs <;> exact ⟨v.toNat, by simp [Encoder.setMaxSize, fit_fit]⟩
  rw [heq]
  refine ⟨min_le_right _ _, ?_⟩
  have hv : v.toNat < 2 ^ 32 := v.toNat_lt
  unfold InStep at h
  generalize e.update = update at h
  cases update with
  | none =>
    simp only [Option.getD_none, h.2]
    congr 1
    omega
  | some least => simp only [Option.getD_some, h.2, fit_fit, min_comm]

/-- **The small codec is lossless.** -/
theorem lossless : externals.Lossless Sync where
  start := ⟨⟨rfl, rfl⟩, rfl⟩
  block := by
    rintro e d fields ⟨hstep, hsaved⟩
    obtain ⟨d', hsaved', hstep', hread⟩ := readAll_encodeBlock fields hstep
    have hsaved'' := hsaved'.trans hsaved
    refine ⟨d', ?_, hstep', hsaved''⟩
    have hwrite : externals.write (externals.encodeBlock fields e).2 d = (d', fields, none) := by
      have hall := hread le_rfl
      change Decoder.write _ d = _
      unfold Decoder.write
      split
      · next hnil =>
        rw [hnil] at hall
        cases hall
        rfl
      · rw [hsaved, nil_append, hall]
        simp [← hsaved'']
    have hclose : externals.close d' = (d', none) := if_pos hsaved''
    unfold Externals.decodeBlock
    rw [hwrite]
    simp only [hclose]
  resize v := fun ⟨hstep, hsaved⟩ => ⟨inStep_resize v hstep, hsaved⟩

/-! ## Blocks in fragments -/

theorem readIntRest_append (h : readIntRest src = some (i, rest)) (x : Bytes) :
    readIntRest (src ++ x) = some (i, rest ++ x) ∧ rest.length < src.length := by
  induction src generalizing i rest with
  | nil => cases h
  | cons b src ih =>
    rw [readIntRest] at h
    rw [cons_append, readIntRest]
    split
    · next hb =>
      rw [if_pos hb] at h
      cases h
      exact ⟨rfl, Nat.lt_succ_self _⟩
    · next hb =>
      rw [if_neg hb] at h
      obtain ⟨⟨j, rest'⟩, hj, heq⟩ := Option.map_eq_some_iff.1 h
      cases heq
      obtain ⟨hmore, hlen⟩ := ih hj
      exact ⟨by rw [hmore]; rfl, Nat.lt_succ_of_lt hlen⟩

theorem readInt_append {n : ℕ} (h : readInt n src = some (i, rest)) (x : Bytes) :
    readInt n (src ++ x) = some (i, rest ++ x) ∧ rest.length < src.length := by
  cases src with
  | nil => cases h
  | cons b src =>
    rw [readInt] at h
    rw [cons_append, readInt]
    split
    · next hb =>
      rw [if_pos hb] at h
      cases h
      exact ⟨rfl, Nat.lt_succ_self _⟩
    · next hb =>
      rw [if_neg hb] at h
      obtain ⟨⟨j, rest'⟩, hj, heq⟩ := Option.map_eq_some_iff.1 h
      cases heq
      obtain ⟨hmore, hlen⟩ := readIntRest_append hj x
      exact ⟨by rw [hmore]; rfl, Nat.lt_succ_of_lt hlen⟩

theorem readString_append {s : Bytes} (h : readString src = some (s, rest)) (x : Bytes) :
    readString (src ++ x) = some (s, rest ++ x) ∧ rest.length < src.length := by
  unfold readString at h ⊢
  cases hn : readInt 7 src with
  | none => rw [hn] at h; cases h
  | some p =>
    obtain ⟨n, src'⟩ := p
    obtain ⟨hmore, hlen⟩ := readInt_append hn x
    rw [hn] at h
    rw [hmore]
    simp only at h ⊢
    split at h
    · next hle =>
      cases h
      rw [if_pos (by rw [length_append]; omega), take_append_of_le_length hle,
        drop_append_of_le_length hle, length_drop]
      exact ⟨rfl, by omega⟩
    · cases h

namespace Decoder

variable {src rest : Bytes}

theorem readLiteral_append {b : Bool} {field : HeaderField}
    (h : readLiteral src b = some (field, rest)) (x : Bytes) :
    readLiteral (src ++ x) b = some (field, rest ++ x) ∧ rest.length < src.length := by
  unfold readLiteral at h ⊢
  cases hn : readString src with
  | none => rw [hn] at h; cases h
  | some p =>
    obtain ⟨name, src'⟩ := p
    obtain ⟨hmore, hlen⟩ := readString_append hn x
    rw [hn] at h
    rw [hmore]
    simp only at h ⊢
    cases hv : readString src' with
    | none => rw [hv] at h; cases h
    | some q =>
      obtain ⟨value, src''⟩ := q
      obtain ⟨hmore', hlen'⟩ := readString_append hv x
      rw [hv] at h
      rw [hmore']
      cases h
      exact ⟨rfl, by omega⟩

/-- A representation that is complete is read as it is whatever comes after it. -/
theorem read_append {d d' : Decoder} {field : Option HeaderField}
    (h : d.read src = some (d', field, rest)) (x : Bytes) :
    d.read (src ++ x) = some (d', field, rest ++ x) ∧ rest.length < src.length := by
  cases src with
  | nil => cases h
  | cons b src =>
    rw [cons_append]
    unfold read at h ⊢
    simp only at h ⊢
    split at h
    · next hb =>
      rw [if_pos hb]
      cases hn : readInt 7 (b :: src) with
      | none => rw [hn] at h; cases h
      | some p =>
        obtain ⟨i, src'⟩ := p
        obtain ⟨hmore, hlen⟩ := readInt_append hn x
        rw [cons_append] at hmore
        rw [hn] at h
        rw [hmore]
        obtain ⟨field', hfield, heq⟩ := Option.map_eq_some_iff.1 h
        cases heq
        exact ⟨by simp [hfield], hlen⟩
    next hb =>
    rw [if_neg hb]
    split at h
    · next hb' =>
      rw [if_pos hb']
      obtain ⟨⟨f, src'⟩, hf, heq⟩ := Option.map_eq_some_iff.1 h
      cases heq
      obtain ⟨hmore, hlen⟩ := readLiteral_append hf x
      exact ⟨by rw [hmore]; rfl, Nat.lt_succ_of_lt hlen⟩
    next hb' =>
    rw [if_neg hb']
    split at h
    · next hb'' =>
      rw [if_pos hb'']
      obtain ⟨⟨i, src'⟩, hi, heq⟩ := Option.map_eq_some_iff.1 h
      cases heq
      obtain ⟨hmore, hlen⟩ := readInt_append hi x
      rw [cons_append] at hmore
      exact ⟨by rw [hmore]; rfl, hlen⟩
    next hb'' =>
    rw [if_neg hb'']
    obtain ⟨⟨f, src'⟩, hf, heq⟩ := Option.map_eq_some_iff.1 h
    cases heq
    obtain ⟨hmore, hlen⟩ := readLiteral_append hf x
    exact ⟨by rw [hmore]; rfl, Nat.lt_succ_of_lt hlen⟩

/-- The saved octets do not matter for what is read. -/
theorem read_saved (d : Decoder) (saved src : Bytes) :
    read { d with saved } src =
      (d.read src).map fun (d', field, rest) => ({ d' with saved }, field, rest) := by
  cases src with
  | nil => rfl
  | cons b src =>
    unfold read
    simp only
    split_ifs
    · cases readInt 7 (b :: src) with
      | none => rfl
      | some p => cases hl : lookup? d.table p.1 <;> simp [hl]
    · cases readLiteral src false <;> rfl
    · cases readInt 5 (b :: src) <;> rfl
    · cases readLiteral src (b == 0x10) <;> rfl

theorem readAll_saved (fuel : ℕ) (d : Decoder) (saved src : Bytes) :
    readAll fuel { d with saved } src =
      ({ (readAll fuel d src).1 with saved }, (readAll fuel d src).2) := by
  induction fuel generalizing d src with
  | zero => rfl
  | succ fuel ih =>
    rw [readAll, readAll, read_saved]
    cases d.read src with
    | none => rfl
    | some p =>
      simp only [Option.map_some, ih]

/-- More fuel than there are octets makes no difference. -/
theorem readAll_fuel {n m : ℕ} {d : Decoder} (hn : src.length ≤ n) (hm : src.length ≤ m) :
    readAll n d src = readAll m d src := by
  induction n generalizing m d src with
  | zero =>
    obtain rfl : src = [] := eq_nil_of_length_eq_zero (Nat.le_zero.1 hn)
    cases m <;> rfl
  | succ n ih =>
    cases m with
    | zero =>
      obtain rfl : src = [] := eq_nil_of_length_eq_zero (Nat.le_zero.1 hm)
      rfl
    | succ m =>
      rw [readAll, readAll]
      cases hread : d.read src with
      | none => rfl
      | some p =>
        have hlen := (read_append hread []).2
        simp only
        rw [ih (m := m) (by omega) (by omega)]

/-- Octets are read in two parts as in one. -/
theorem readAll_append {fuel n m : ℕ} (d : Decoder) (src x : Bytes) (hf : src.length ≤ fuel)
    (hn : (src ++ x).length ≤ n) (hm : ((readAll fuel d src).2.2 ++ x).length ≤ m) :
    readAll n d (src ++ x) =
      ((readAll m (readAll fuel d src).1 ((readAll fuel d src).2.2 ++ x)).1,
        (readAll fuel d src).2.1 ++
          (readAll m (readAll fuel d src).1 ((readAll fuel d src).2.2 ++ x)).2.1,
        (readAll m (readAll fuel d src).1 ((readAll fuel d src).2.2 ++ x)).2.2) := by
  induction fuel generalizing d src n with
  | zero =>
    obtain rfl : src = [] := eq_nil_of_length_eq_zero (Nat.le_zero.1 hf)
    exact readAll_fuel hn hm
  | succ fuel ih =>
    cases hread : d.read src with
    | none =>
      have hstop : readAll (fuel + 1) d src = (d, [], src) := by rw [readAll, hread]
      rw [hstop] at hm ⊢
      exact readAll_fuel hn hm
    | some p =>
      obtain ⟨d', field, rest⟩ := p
      obtain ⟨hmore, hlen⟩ := read_append hread x
      have hgo : readAll (fuel + 1) d src = ((readAll fuel d' rest).1,
          field.toList ++ (readAll fuel d' rest).2.1, (readAll fuel d' rest).2.2) := by
        rw [readAll, hread]
      obtain ⟨k, rfl⟩ : ∃ k, n = k + 1 := Nat.exists_eq_add_one.2 (by
        rw [length_append] at hn
        omega)
      rw [hgo] at hm ⊢
      have hrest : (rest ++ x).length ≤ k := by
        rw [length_append] at hn ⊢
        omega
      rw [readAll, hmore]
      simp only [ih d' rest (by omega) hrest hm, append_assoc]

theorem write_error (src : Bytes) (d : Decoder) : (write src d).2.2 = none := by
  unfold write
  split <;> rfl

/-- A block is read in two parts as in one. -/
theorem write_append (d : Decoder) (src x : Bytes) :
    write (src ++ x) d = ((write x (write src d).1).1,
      (write src d).2.1 ++ (write x (write src d).1).2.1, (write x (write src d).1).2.2) := by
  by_cases hsrc : src = []
  · subst hsrc
    rfl
  by_cases hx : x = []
  · subst hx
    rw [append_nil]
    exact Prod.ext rfl (Prod.ext (append_nil _).symm (write_error src d))
  have h := readAll_append d (d.saved ++ src) x le_rfl le_rfl le_rfl
  rw [append_assoc] at h
  simp only [write, append_eq_nil_iff, hsrc, hx, and_false, if_false, h, readAll_saved]

end Decoder

end WagoHttp.Http2.SmallHpack
