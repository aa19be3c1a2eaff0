import WagoHttp.Http2.Headers

/-!
# What a section says

Facts about the metadata that `inspectHeaderSection` finds in a section: a declared length fits a
64-bit integer, a section that passes `validateHeaderSection` as a trailing one has no
pseudo-fields, and one that passes as a response has no method.
-/

namespace WagoHttp.Http2

open List

theorem parseContentLengthDigits_le {parsed n : ℕ} (value : Bytes) (hp : parsed ≤ maxUint64)
    (h : parseContentLengthDigits parsed value = some n) : n ≤ maxUint64 := by
  induction value generalizing parsed with
  | nil =>
    cases h
    exact hp
  | cons b value ih =>
    unfold parseContentLengthDigits at h
    simp only at h
    split_ifs at h with hdigit hbig
    refine ih ?_ h
    have := (b - octet '0').toNat_lt
    unfold maxUint64 at hbig ⊢
    omega

/-- A declared length is a 64-bit integer. -/
theorem contentLength_lt (headers : List HeaderField) :
    (inspectHeaderSection headers).contentLength < 2 ^ 64 := by
  have hfold : (headers.foldl inspectField {}).contentLength ≤ maxUint64 := by
    refine foldlRecOn (motive := fun m : HeaderSectionMetadata => m.contentLength ≤ maxUint64)
      headers inspectField (Nat.zero_le _) fun m hm field _ => ?_
    unfold inspectField
    split_ifs
    · exact hm
    · exact hm
    · exact hm
    · split
      · exact hm
      · next value hvalue =>
        unfold parseSessionContentLength at hvalue
        split_ifs at hvalue
        exact parseContentLengthDigits_le field.value (Nat.zero_le _) hvalue
    · exact hm
  have hlt : maxUint64 < 2 ^ 64 := by decide
  unfold inspectHeaderSection
  simp only
  split_ifs <;> exact hfold.trans_lt hlt

/-- What the pseudo-fields of a section determine. -/
def HeaderSectionMetadata.pseudo (m : HeaderSectionMetadata) :
    Bool × Bool × Bool × Bool × Bytes × Bytes :=
  (m.request, m.response, m.informational, m.noBody, m.method, m.status)

variable {m : HeaderSectionMetadata} {field : HeaderField} {trailer outbound extendedConnect : Bool}
  {v w : SectionScan} {role : Role} {headers : List HeaderField}

/-- A field that is neither `:method` nor `:status`. -/
theorem inspectField_other (hm : field.name ≠ ascii ":method") (hs : field.name ≠ ascii ":status") :
    (inspectField m field).pseudo = m.pseudo := by
  unfold inspectField
  rw [if_neg hm, if_neg hs]
  split_ifs
  · rfl
  · split <;> rfl
  · rfl

/-- One field of the scan. -/
theorem scan_inspectField (h : SectionScan.field trailer v field = some w)
    (hm : v.method = m.method) (hs : v.status = m.status) :
    w.method = (inspectField m field).method ∧ w.status = (inspectField m field).status := by
  have hother : field.name ≠ ascii ":method" → field.name ≠ ascii ":status" →
      (inspectField m field).method = m.method ∧ (inspectField m field).status = m.status := by
    intro h1 h2
    have hp := inspectField_other (m := m) h1 h2
    simp only [HeaderSectionMetadata.pseudo, Prod.mk.injEq] at hp
    exact ⟨hp.2.2.2.2.1, hp.2.2.2.2.2⟩
  unfold SectionScan.field at h
  split_ifs at h with h1 h2 h3 h4
  · unfold SectionScan.setPseudo at h
    simp only at h
    split_ifs at h with hmethod hscheme hauth hpath hproto hstatus
    · cases h
      simp [inspectField, hmethod, hs]
    · cases h
      obtain ⟨e1, e2⟩ := hother hmethod (by rw [hscheme]; decide)
      exact ⟨hm.trans e1.symm, hs.trans e2.symm⟩
    · cases h
      obtain ⟨e1, e2⟩ := hother hmethod (by rw [hauth]; decide)
      exact ⟨hm.trans e1.symm, hs.trans e2.symm⟩
    · cases h
      obtain ⟨e1, e2⟩ := hother hmethod (by rw [hpath]; decide)
      exact ⟨hm.trans e1.symm, hs.trans e2.symm⟩
    · cases h
      obtain ⟨e1, e2⟩ := hother hmethod (by rw [hproto]; decide)
      exact ⟨hm.trans e1.symm, hs.trans e2.symm⟩
    · cases h
      rw [inspectField, if_neg hmethod, if_pos hstatus]
      exact ⟨hm, rfl⟩
  · cases h
    have hne : ∀ name : Bytes, name.head? = some (octet ':') → field.name ≠ name := by
      rintro name hname rfl
      exact h2 hname
    obtain ⟨e1, e2⟩ := hother (hne _ rfl) (hne _ rfl)
    exact ⟨hm.trans e1.symm, hs.trans e2.symm⟩

/-- The scan of a section has the pseudo-fields that the inspection finds. -/
theorem scan_inspect (headers : List HeaderField)
    (h : headers.foldlM (SectionScan.field trailer) v = some w) (hm : v.method = m.method)
    (hs : v.status = m.status) :
    w.method = (headers.foldl inspectField m).method ∧
      w.status = (headers.foldl inspectField m).status := by
  induction headers generalizing v m with
  | nil =>
    cases h
    exact ⟨hm, hs⟩
  | cons field headers ih =>
    rw [foldlM_cons] at h
    obtain ⟨u, hu, h⟩ := Option.bind_eq_some_iff.1 h
    obtain ⟨hm', hs'⟩ := scan_inspectField hu hm hs
    exact ih h hm' hs'

theorem pseudo_inspectHeaderSection (headers : List HeaderField) :
    (inspectHeaderSection headers).pseudo = (headers.foldl inspectField {}).pseudo := by
  unfold inspectHeaderSection
  simp only
  split_ifs <;> rfl

/-- A valid section has been scanned to its end. -/
theorem scan_of_valid
    (h : validateHeaderSection role outbound trailer headers extendedConnect = true) :
    ∃ v, headers.foldlM (SectionScan.field trailer) {} = some v ∧
      (trailer = false →
        (if role = .client && outbound || role = .server && !outbound then
          validRequestPseudo v extendedConnect
        else validResponsePseudo v) = true) := by
  unfold validateHeaderSection at h
  split at h
  · cases h
  split at h
  · cases h
  split at h
  · cases h
  next v hv =>
  refine ⟨v, hv, ?_⟩
  rintro rfl
  exact h

/-- What one field does to the record of `:protocol`. -/
theorem scan_protocol (h : SectionScan.field trailer v field = some w) :
    (ascii ":protocol" ∈ v.seen → ascii ":protocol" ∈ w.seen ∧ w.protocol = v.protocol) ∧
      (field.name = ascii ":protocol" →
        ascii ":protocol" ∈ w.seen ∧ w.protocol = field.value ∧ trailer = false) := by
  unfold SectionScan.field at h
  split_ifs at h with h1 h2 h3 h4
  · simp only [Bool.or_eq_true, not_or, Bool.not_eq_true, contains_iff_mem] at h3
    unfold SectionScan.setPseudo at h
    simp only at h
    split_ifs at h with hmethod hscheme hauth hpath hproto hstatus
    · cases h
      exact ⟨fun hs => ⟨mem_cons_of_mem _ hs, rfl⟩, fun hn => absurd (hn ▸ hmethod) (by decide)⟩
    · cases h
      exact ⟨fun hs => ⟨mem_cons_of_mem _ hs, rfl⟩, fun hn => absurd (hn ▸ hscheme) (by decide)⟩
    · cases h
      exact ⟨fun hs => ⟨mem_cons_of_mem _ hs, rfl⟩, fun hn => absurd (hn ▸ hauth) (by decide)⟩
    · cases h
      exact ⟨fun hs => ⟨mem_cons_of_mem _ hs, rfl⟩, fun hn => absurd (hn ▸ hpath) (by decide)⟩
    · cases h
      refine ⟨fun hs => absurd (hproto ▸ hs) h3.2, fun hn => ⟨?_, rfl, h3.1.1⟩⟩
      exact hn ▸ mem_cons_self
    · cases h
      exact ⟨fun hs => ⟨mem_cons_of_mem _ hs, rfl⟩, fun hn => absurd (hn ▸ hstatus) (by decide)⟩
  · cases h
    exact ⟨fun hs => ⟨hs, rfl⟩, fun hn => absurd (by rw [hn]; rfl) h2⟩

/-- A section that is scanned to its end has at most one `:protocol`, and it is recorded. -/
theorem scan_protocols (headers : List HeaderField)
    (h : headers.foldlM (SectionScan.field trailer) v = some w) :
    (ascii ":protocol" ∈ v.seen → w.protocol = v.protocol) ∧
      ∀ field ∈ headers, field.name = ascii ":protocol" →
        w.protocol = field.value ∧ trailer = false := by
  induction headers generalizing v with
  | nil =>
    cases h
    exact ⟨fun _ => rfl, nofun⟩
  | cons field headers ih =>
    rw [foldlM_cons] at h
    obtain ⟨u, hu, h⟩ := Option.bind_eq_some_iff.1 h
    obtain ⟨hkeep, hset⟩ := scan_protocol hu
    obtain ⟨hkeep', hrest⟩ := ih h
    refine ⟨fun hs => (hkeep' (hkeep hs).1).trans (hkeep hs).2, fun f hf hn => ?_⟩
    rcases mem_cons.1 hf with rfl | hf
    · exact ⟨(hkeep' (hset hn).1).trans (hset hn).2.1, (hset hn).2.2⟩
    · exact hrest f hf hn

/-- Without the extended CONNECT method, a client sends no `:protocol` with a value. -/
theorem protocol_of_valid (h : validateHeaderSection .client true trailer headers false = true)
    (hf : field ∈ headers) (hn : field.name = ascii ":protocol") : field.value = [] := by
  obtain ⟨v, hv, hvalid⟩ := scan_of_valid h
  obtain ⟨hvalue, ht⟩ := (scan_protocols headers hv).2 field hf hn
  have hvalid := hvalid ht
  rw [← hvalue]
  by_contra hne
  unfold validRequestPseudo at hvalid
  simp [hne] at hvalid

/-- A trailing section has no pseudo-fields. -/
theorem pseudo_trailer
    (h : validateHeaderSection role outbound true headers extendedConnect = true) :
    (inspectHeaderSection headers).pseudo = HeaderSectionMetadata.pseudo {} := by
  have key : ∀ (headers : List HeaderField) (v w : SectionScan) (m : HeaderSectionMetadata),
      headers.foldlM (SectionScan.field true) v = some w →
        (headers.foldl inspectField m).pseudo = m.pseudo := by
    intro headers
    induction headers with
    | nil => exact fun _ _ _ _ => rfl
    | cons field headers ih =>
      intro v w m hw
      rw [foldlM_cons] at hw
      obtain ⟨u, hu, hw⟩ := Option.bind_eq_some_iff.1 hw
      have hne : ∀ name : Bytes, name.head? = some (octet ':') → field.name ≠ name := by
        rintro name hname rfl
        unfold SectionScan.field at hu
        simp only [hname, Bool.true_or, if_true] at hu
        split at hu <;> cases hu
      exact (ih u w _ hw).trans (inspectField_other (hne _ rfl) (hne _ rfl))
  obtain ⟨v, hv, -⟩ := scan_of_valid h
  rw [pseudo_inspectHeaderSection]
  exact key headers _ v {} hv

/-- A response has a status and no method. -/
theorem response_metadata (hrole : outbound = decide (role = .server))
    (h : validateHeaderSection role outbound false headers extendedConnect = true) :
    (inspectHeaderSection headers).response = true ∧
    (inspectHeaderSection headers).method = [] := by
  have hfold : (headers.foldl inspectField {}).status ≠ [] →
      (headers.foldl inspectField {}).response = true := by
    refine foldlRecOn (motive := fun m : HeaderSectionMetadata =>
      m.status ≠ [] → m.response = true) headers inspectField (fun h => absurd rfl h) ?_
    intro m hm field _
    unfold inspectField
    split_ifs
    · exact hm
    · exact fun _ => rfl
    · exact hm
    · split <;> exact hm
    · exact hm
  have hp := pseudo_inspectHeaderSection headers
  simp only [HeaderSectionMetadata.pseudo, Prod.mk.injEq] at hp
  obtain ⟨v, hv, hvalid⟩ := scan_of_valid h
  have hside : ¬((role = .client && outbound || role = .server && !outbound) = true) := by
    rw [hrole]
    cases role <;> decide
  have hvalid := hvalid rfl
  rw [if_neg hside] at hvalid
  obtain ⟨hmethod, hstatus⟩ := scan_inspect (m := {}) headers hv rfl rfl
  rw [hp.2.1, hp.2.2.2.2.1, ← hmethod]
  refine ⟨hfold fun hempty => ?_, by_contra fun hne => ?_⟩
  · rw [← hstatus] at hempty
    simp [validResponsePseudo, hempty] at hvalid
  · rw [validResponsePseudo, if_pos (.inr (.inl hne))] at hvalid
    cases hvalid

/-- What a trailing section says. -/
theorem trailer_metadata {fields : List HeaderField}
    (h : validateHeaderSection role outbound true fields extendedConnect = true) :
    (inspectHeaderSection fields).informational = false ∧
      (inspectHeaderSection fields).response = false ∧
      (inspectHeaderSection fields).noBody = false ∧ (inspectHeaderSection fields).method = [] := by
  have hp := pseudo_trailer h
  simp only [HeaderSectionMetadata.pseudo, Prod.mk.injEq] at hp
  exact ⟨hp.2.2.1, hp.2.1, hp.2.2.2.1, hp.2.2.2.2.1⟩

theorem firstNonEmpty_nil (method : Bytes) : firstNonEmpty method [] = method := by
  unfold firstNonEmpty
  split_ifs with h
  · rfl
  · exact (not_not.1 h).symm

end WagoHttp.Http2
