import DevHermit.Shmem.Format.ImageHeader

namespace DevHermit.Shmem.Format

open Lib Wire List Codec

theorem maxMethods_eq : maxMethods = 118 := rfl

theorem MethodEntry.spans (method : MethodEntry) (offset : Nat) :
    Spans offset (method.fields offset) (offset + methodEntrySize) := by
  simp [MethodEntry.fields, Spans, methodEntrySize]

theorem spans_table (index : Nat) (methods : List MethodEntry) :
    Spans (entryOffset index) (tableFields index methods)
      (entryOffset (index + methods.length)) := by
  induction methods generalizing index with
  | nil => rfl
  | cons method rest ih =>
    have hnext : entryOffset index + methodEntrySize = entryOffset (index + 1) := by
      simp only [entryOffset, Nat.add_mul]
      omega
    have hhead := method.spans (entryOffset index)
    rw [hnext] at hhead
    have htail := ih (index + 1)
    rw [Nat.add_assoc, Nat.add_comm 1] at htail
    exact hhead.append htail

theorem MethodEntry.holds {b : List UInt8} {offset : Nat} {method : MethodEntry} :
    (∀ f ∈ method.fields offset, f.Holds b) ↔ MethodEntry.read b offset = method := by
  obtain ⟨id, signature, flags, start, size, alignment, reserved⟩ := method
  simp only [MethodEntry.fields, MethodEntry.read, forall_mem_cons, field_holds,
    MethodEntry.mk.injEq, not_mem_nil, false_implies, implies_true, and_true]

theorem holds_table {b : List UInt8} {index : Nat} {methods : List MethodEntry} :
    (∀ f ∈ tableFields index methods, f.Holds b) ↔
      (List.range' index methods.length).map (fun i => MethodEntry.read b (entryOffset i)) =
        methods := by
  induction methods generalizing index with
  | nil => simp [tableFields]
  | cons method rest ih =>
    rw [tableFields, forall_mem_append, MethodEntry.holds, ih, length_cons,
      range'_succ, map_cons, List.cons.injEq]

namespace ImageHeader

theorem spans_fixed (h : ImageHeader) : Spans 0 h.fixedFields 272 := by
  simp only [fixedFields, Spans, field_offset, field_fin]
  decide

structure Preamble (b : List UInt8) (methodCount : Nat) : Prop where
  magic : (Codec.array 8).get b 0 = imageMagic
  version : Codec.u16.get b 8 = imageVersion
  endian : Codec.byte.get b 10 = endianLittle
  width : Codec.byte.get b 11 = pointerWidth
  size : Codec.u32.get b 12 = UInt32.ofNat headerSize
  os : Codec.u16.get b 16 = targetOsLinux
  arch : Codec.u16.get b 18 = targetArchX86
  page : Codec.u32.get b 20 = UInt32.ofNat pageSize
  entry : Codec.u16.get b 24 = UInt16.ofNat methodEntrySize
  count : Codec.u16.get b 26 = UInt16.ofNat methodCount
  abi : Codec.u32.get b 28 = imageAbiRevision
  table : Codec.u32.get b 264 = UInt32.ofNat methodTableOffset
  extent : Codec.u32.get b 268 = UInt32.ofNat (methodCount * methodEntrySize)

variable {b : List UInt8} {h : ImageHeader}

theorem holds_fields : (∀ f ∈ h.fixedFields ++ tableFields 0 h.methods, f.Holds b) ↔
      Preamble b h.methods.length ∧ read b h.methods.length = h := by
  obtain ⟨imageLen, codeOffset, codeLen, codeAlignment, stateFileLen, payloadOffset, payloadLen,
    stateAlignment, codeSha256, ⟨api, state, build, provenance, required, optional, hardening,
    cpu, address⟩, methods⟩ := h
  rw [forall_mem_append, holds_table]
  simp only [fixedFields, read, forall_mem_cons, field_holds, ImageHeader.mk.injEq,
    ImageMetadata.mk.injEq, not_mem_nil, false_implies, implies_true, and_true]
  constructor
  · rintro ⟨⟨h1, h2, h3, h4, h5, h6, h7, h8, h9, h10, h11, h12, h13, h14, h15, h16, h17, h18,
      h19, h20, h21, h22, h23, h24, h25, h26, h27, h28, h29, h30, h31⟩, hm⟩
    exact ⟨⟨h1, h2, h3, h4, h5, h6, h7, h8, h9, h10, h11, h30, h31⟩, h12, h13, h14, h15, h16,
      h17, h18, h19, h27, ⟨h25, h26, h29, h28, h21, h22, h23, h24, h20⟩, hm⟩
  · rintro ⟨⟨h1, h2, h3, h4, h5, h6, h7, h8, h9, h10, h11, h30, h31⟩, h12, h13, h14, h15, h16,
      h17, h18, h19, h27, ⟨h25, h26, h29, h28, h21, h22, h23, h24, h20⟩, hm⟩
    exact ⟨⟨h1, h2, h3, h4, h5, h6, h7, h8, h9, h10, h11, h12, h13, h14, h15, h16, h17, h18,
      h19, h20, h21, h22, h23, h24, h25, h26, h27, h28, h29, h30, h31⟩, hm⟩

def Reserved (count i : Nat) : Prop :=
  272 ≤ i ∧ i < methodTableOffset ∨ entryOffset count ≤ i ∧ i < headerSize

structure Canonical (b : List UInt8) (h : ImageHeader) : Prop where
  size : headerSize ≤ b.length
  nonempty : h.methods.length ≠ 0
  bound : h.methods.length ≤ maxMethods
  fields : ∀ f ∈ h.fixedFields ++ tableFields 0 h.methods, f.Holds b
  reserved : ∀ i, Reserved h.methods.length i → b[i]? = some 0
  valid : h.validate = .ok ()

theorem entryOffset_le {count : Nat} (h : count ≤ maxMethods) : entryOffset count ≤ headerSize := by
  rw [maxMethods_eq] at h
  simp only [entryOffset, methodTableOffset, methodEntrySize, headerSize]
  omega

theorem reserved_iff {count : Nat} (hb : headerSize ≤ b.length) (hc : count ≤ maxMethods) :
    (∀ i, Reserved count i → b[i]? = some 0) ↔
      (slice b 272 (methodTableOffset - 272)).any (· != 0) = false ∧
        (slice b (entryOffset count) (headerSize - entryOffset count)).any (· != 0) = false := by
  have hle := entryOffset_le hc
  rw [slice_any_ne_zero (by rw [methodTableOffset]; rw [headerSize] at hb; omega),
    slice_any_ne_zero (by omega), Nat.add_sub_cancel' hle]
  constructor
  · exact fun h => ⟨fun i hl hh => h i (.inl ⟨hl, hh⟩), fun i hl hh => h i (.inr ⟨hl, hh⟩)⟩
  · rintro ⟨hgap, htail⟩ i (⟨hl, hh⟩ | ⟨hl, hh⟩)
    · exact hgap i hl hh
    · exact htail i hl hh

theorem length_read (b : List UInt8) (count : Nat) : (read b count).methods.length = count := by
  simp [read]

theorem Canonical.of_decode (hd : decode b = .ok h) : Canonical b h := by
  simp only [decode, andThen_eq_ok, reject_eq_ok, not_or, not_lt, ne_eq, not_not] at hd
  obtain ⟨hsize, hmagic, ⟨hversion, hendian, hwidth, hheader, hos, harch, hpage, hentry, habi⟩,
    htable, -, ⟨hzero, hmax, hextent, -⟩, ⟨hgap, htail⟩, hvalid, hread⟩ := hd
  have hlen := length_read b (u16.get b 26).toNat
  rw [Except.ok.inj hread] at hlen hvalid
  refine ⟨hsize, by rw [hlen]; exact hzero, by rw [hlen]; exact hmax, ?_, ?_, hvalid⟩
  · rw [holds_fields, hlen]
    refine ⟨⟨hmagic, hversion, hendian, hwidth, ?_, hos, harch, ?_, ?_, ?_, habi, ?_, ?_⟩,
      Except.ok.inj hread⟩
    · rw [← hheader, UInt32.ofNat_toNat]
    · rw [← hpage, UInt32.ofNat_toNat]
    · rw [← hentry, UInt16.ofNat_toNat]
    · rw [UInt16.ofNat_toNat]
    · rw [← htable, UInt32.ofNat_toNat]
    · rw [← hextent, UInt32.ofNat_toNat]
  · rw [hlen, reserved_iff hsize hmax]
    exact ⟨Bool.eq_false_of_not_eq_true hgap, Bool.eq_false_of_not_eq_true htail⟩

theorem Canonical.decode (hc : Canonical b h) : decode b = .ok h := by
  obtain ⟨hp, hread⟩ := holds_fields.mp hc.fields
  have hbound := hc.bound
  rw [maxMethods_eq] at hbound
  have hcount : (u16.get b 26).toNat = h.methods.length := by
    rw [hp.count, UInt16.toNat_ofNat']
    omega
  have hextent : (u32.get b 268).toNat = h.methods.length * methodEntrySize := by
    rw [hp.extent, UInt32.toNat_ofNat', methodEntrySize]
    omega
  obtain ⟨hgap, htail⟩ := (reserved_iff hc.size hc.bound).mp hc.reserved
  simp only [ImageHeader.decode, andThen_eq_ok, reject_eq_ok, not_or, not_lt, ne_eq, not_not]
  rw [hcount, hread]
  refine ⟨hc.size, hp.magic, ⟨hp.version, hp.endian, hp.width, ?_, hp.os, hp.arch, ?_, ?_, hp.abi⟩,
    ?_, ?_, ⟨hc.nonempty, hc.bound, hextent, entryOffset_le hc.bound⟩, ⟨?_, ?_⟩, hc.valid, rfl⟩
  · rw [hp.size]
    rfl
  · rw [hp.page]
    rfl
  · rw [hp.entry]
    rfl
  · rw [hp.table]
    rfl
  · rw [methodEntrySize]
    omega
  · exact ne_true_of_eq_false hgap
  · exact ne_true_of_eq_false htail

variable {f : Field}

theorem fields_bounds (hf : f ∈ h.fixedFields ++ tableFields 0 h.methods) :
    f.fin ≤ 272 ∨ methodTableOffset ≤ f.offset ∧ f.fin ≤ entryOffset h.methods.length := by
  rcases mem_append.mp hf with hf | hf
  · exact .inl (h.spans_fixed.bounds hf).2
  · have hb := (spans_table 0 h.methods).bounds hf
    rw [Nat.zero_add] at hb
    refine .inr ⟨?_, hb.2⟩
    have := hb.1
    rw [entryOffset] at this
    omega

theorem fields_pairwise (h : ImageHeader) :
    (h.fixedFields ++ tableFields 0 h.methods).Pairwise fun f g => f.fin ≤ g.offset := by
  refine pairwise_append.mpr ⟨h.spans_fixed.pairwise, (spans_table 0 _).pairwise, ?_⟩
  intro f hf g hg
  have hlow := (h.spans_fixed.bounds hf).2
  have hhigh := ((spans_table 0 h.methods).bounds hg).1
  rw [entryOffset, methodTableOffset] at hhigh
  omega

theorem fields_fin_le (hc : h.methods.length ≤ maxMethods)
    (hf : f ∈ h.fixedFields ++ tableFields 0 h.methods) : f.fin ≤ headerSize := by
  have hle := entryOffset_le hc
  rcases fields_bounds hf with hb | hb
  · rw [headerSize]
    omega
  · omega

theorem covers_or_reserved (h : ImageHeader) {i : Nat} (hi : i < headerSize) :
    (∃ f ∈ h.fixedFields ++ tableFields 0 h.methods, f.Covers i) ∨ Reserved h.methods.length i := by
  by_cases hfixed : i < 272
  · obtain ⟨f, hf, hc⟩ := h.spans_fixed.covered (Nat.zero_le i) hfixed
    exact .inl ⟨f, mem_append_left _ hf, hc⟩
  · by_cases hgap : i < methodTableOffset
    · exact .inr (.inl ⟨Nat.le_of_not_lt hfixed, hgap⟩)
    · by_cases htable : i < entryOffset h.methods.length
      · obtain ⟨f, hf, hc⟩ := (spans_table 0 h.methods).covered
          (i := i) (by rw [entryOffset]; omega) (by rw [Nat.zero_add]; exact htable)
        exact .inl ⟨f, mem_append_right _ hf, hc⟩
      · exact .inr (.inr ⟨Nat.le_of_not_lt htable, hi⟩)

theorem not_covers_of_reserved {i : Nat} (hr : Reserved h.methods.length i)
    (hf : f ∈ h.fixedFields ++ tableFields 0 h.methods) : ¬ f.Covers i := by
  rintro ⟨hl, hh⟩
  have htable : methodTableOffset ≤ entryOffset h.methods.length := Nat.le_add_right _ _
  have hoffset : methodTableOffset = 320 := rfl
  rcases fields_bounds hf with hb | hb
  · rcases hr with hr | hr <;> omega
  · rcases hr with hr | hr <;> omega

theorem method_count_of_validate (hv : h.validate = .ok ()) :
    h.methods.length ≠ 0 ∧ h.methods.length ≤ maxMethods := by
  simp only [validate, andThen_eq_ok, reject_eq_ok, not_or, not_lt] at hv
  obtain ⟨-, -, -, ⟨hne, hle⟩, -⟩ := hv
  exact ⟨fun h0 => hne (length_eq_zero_iff.mp h0), hle⟩

theorem encode_eq_ok : h.encode = .ok b ↔ h.validate = .ok () ∧
      writeAll (List.replicate headerSize 0) (h.fixedFields ++ tableFields 0 h.methods) = b := by
  rw [encode, andThen_eq_ok]
  exact and_congr_right fun _ => ⟨Except.ok.inj, congrArg Except.ok⟩

theorem canonical_encode (he : h.encode = .ok b) : b.length = headerSize ∧ Canonical b h := by
  obtain ⟨hv, rfl⟩ := encode_eq_ok.mp he
  obtain ⟨hne, hle⟩ := method_count_of_validate hv
  have hin : ∀ f ∈ h.fixedFields ++ tableFields 0 h.methods,
      f.fin ≤ (List.replicate headerSize (0 : UInt8)).length := by
    intro f hf
    rw [length_replicate]
    exact fields_fin_le hle hf
  have hlen := length_writeAll hin
  rw [length_replicate] at hlen
  refine ⟨hlen, hlen.ge, hne, hle, fun f hf => holds_writeAll h.fields_pairwise hin hf, ?_, hv⟩
  intro i hr
  rw [getElem?_writeAll_of_not_covers hin fun f hf => not_covers_of_reserved hr hf]
  refine List.getElem?_replicate_of_lt ?_
  have hoff := entryOffset_le hle
  rcases hr with hr | hr
  · have := hr.2
    rw [methodTableOffset] at this
    rw [headerSize]
    omega
  · exact hr.2

theorem Canonical.encode (hc : Canonical b h) (hlen : b.length = headerSize) : h.encode = .ok b := by
  refine encode_eq_ok.mpr ⟨hc.valid, writeAll_eq ?_ ?_ hc.fields ?_⟩
  · rw [length_replicate, hlen]
  · intro f hf
    rw [length_replicate]
    exact fields_fin_le hc.bound hf
  · intro i hi
    by_cases hlt : i < headerSize
    · rcases h.covers_or_reserved hlt with ⟨f, hf, hcov⟩ | hr
      · exact absurd hcov (hi f hf)
      · rw [hc.reserved i hr, List.getElem?_replicate_of_lt hlt]
    · rw [List.getElem?_eq_none (by rw [length_replicate]; omega), List.getElem?_eq_none (by omega)]

theorem image_header_format_is_canonical :
    (∀ h : ImageHeader, h.validate = .ok () →
      ∃ b, h.encode = .ok b ∧ b.length = headerSize ∧ decode b = .ok h) ∧
    (∀ (b : List UInt8) (h : ImageHeader), b.length = headerSize → decode b = .ok h →
      h.encode = .ok b) ∧
    (∀ b : List UInt8, b.length = headerSize →
      ((∃ h, decode b = .ok h) ↔ ∃ h : ImageHeader, h.validate = .ok () ∧ h.encode = .ok b)) ∧
    ∀ (b b' : List UInt8) (h : ImageHeader), b.length = headerSize → b'.length = headerSize →
      decode b = .ok h → decode b' = .ok h → b = b' := by
  have hback : ∀ (b : List UInt8) (h : ImageHeader), b.length = headerSize → decode b = .ok h →
      h.encode = .ok b :=
    fun b h hlen hd => (Canonical.of_decode hd).encode hlen
  refine ⟨fun h hv => ?_, hback, fun b hlen => ⟨?_, ?_⟩, fun b b' h hb hb' hd hd' => ?_⟩
  · have he := encode_eq_ok.mpr ⟨hv, rfl⟩
    obtain ⟨hlen, hc⟩ := canonical_encode he
    exact ⟨_, he, hlen, hc.decode⟩
  · rintro ⟨h, hd⟩
    exact ⟨h, (Canonical.of_decode hd).valid, hback b h hlen hd⟩
  · rintro ⟨h, -, he⟩
    exact ⟨h, (canonical_encode he).2.decode⟩
  · exact Except.ok.inj ((hback b h hb hd).symm.trans (hback b' h hb' hd'))

def demoHeader : ImageHeader where
  imageLen := 5120
  codeOffset := 4096
  codeLen := 1024
  codeAlignment := 16
  stateFileLen := 1052672
  payloadOffset := 4096
  payloadLen := 1048576
  stateAlignment := 4096
  codeSha256 := List.Vector.replicate 32 7
  metadata :=
    { apiFingerprint := 5
      stateFingerprint := 7
      buildSha256 := List.Vector.replicate 32 8
      provenanceSha256 := List.Vector.replicate 32 9
      requiredCapabilities := capOffsetArena
      optionalCapabilities := 0
      requiredHardening := knownHardening
      requiredCpuFeatures := cpuX86Baseline
      requiredStateAddress := 0 }
  methods := [⟨1, 1, 0, 4096, 16, 16, 0⟩, ⟨20, 3, 0, 4128, 16, 16, 0⟩]

theorem demo_header_round_trips :
    demoHeader.validate = .ok () ∧ ∃ b, demoHeader.encode = .ok b ∧ decode b = .ok demoHeader := by
  have hv : demoHeader.validate = .ok () := by decide +kernel
  obtain ⟨b, he, hlen, hd⟩ := image_header_format_is_canonical.1 demoHeader hv
  exact ⟨hv, b, he, hd⟩

end ImageHeader

end DevHermit.Shmem.Format
