import Mathlib

namespace DevHermit.Lib.Wire

open List

def toLe : Nat → Nat → List UInt8
  | 0, _ => []
  | w + 1, n => UInt8.ofNat n :: toLe w (n / 256)

def ofLe : List UInt8 → Nat
  | [] => 0
  | b :: bs => b.toNat + 256 * ofLe bs

@[simp]
theorem length_toLe (w n : Nat) : (toLe w n).length = w := by
  induction w generalizing n with
  | zero => rfl
  | succ w ih => rw [toLe, length_cons, ih]

theorem ofLe_toLe (w n : Nat) : ofLe (toLe w n) = n % 256 ^ w := by
  induction w generalizing n with
  | zero => rw [toLe, ofLe, pow_zero, Nat.mod_one]
  | succ w ih =>
    have hbyte : (UInt8.ofNat n).toNat = n % 256 := UInt8.toNat_ofNat'
    rw [toLe, ofLe, ih, hbyte, pow_succ', Nat.mod_mul]

theorem toLe_ofLe (bs : List UInt8) : toLe bs.length (ofLe bs) = bs := by
  induction bs with
  | nil => rfl
  | cons b bs ih =>
    have hb : b.toNat < 256 := b.toNat_lt
    have hdiv : (b.toNat + 256 * ofLe bs) / 256 = ofLe bs := by omega
    have hmod : UInt8.ofNat (b.toNat + 256 * ofLe bs) = b := by
      apply UInt8.toNat_inj.mp
      rw [UInt8.toNat_ofNat']
      omega
    rw [length_cons, toLe, ofLe, hdiv, hmod, ih]

theorem ofLe_lt (bs : List UInt8) : ofLe bs < 256 ^ bs.length := by
  induction bs with
  | nil => exact Nat.one_pos
  | cons b bs ih =>
    have hb : b.toNat < 256 := b.toNat_lt
    rw [ofLe, length_cons, pow_succ']
    omega

theorem pow_byte (w : Nat) : 256 ^ w = 2 ^ (8 * w) := by
  rw [pow_mul]
  norm_num

def slice (b : List UInt8) (offset n : Nat) : List UInt8 := (b.drop offset).takeD n 0

@[simp]
theorem slice_eq_take {b : List UInt8} {offset n : Nat} (h : offset + n ≤ b.length) :
    slice b offset n = (b.drop offset).take n :=
  takeD_eq_take _ (by rw [length_drop]; omega)

def write (b : List UInt8) (offset : Nat) (s : List UInt8) : List UInt8 :=
  b.take offset ++ s ++ b.drop (offset + s.length)

structure Field where
  offset : Nat
  bytes : List UInt8

namespace Field

def fin (f : Field) : Nat := f.offset + f.bytes.length

def Covers (f : Field) (i : Nat) : Prop := f.offset ≤ i ∧ i < f.fin

def Holds (f : Field) (b : List UInt8) : Prop := slice b f.offset f.bytes.length = f.bytes

end Field

def writeAll (b : List UInt8) (fs : List Field) : List UInt8 :=
  fs.foldl (fun b f => write b f.offset f.bytes) b

section

variable {b b' s : List UInt8} {f g : Field} {fs : List Field}

theorem length_write {offset : Nat} (h : offset + s.length ≤ b.length) :
    (write b offset s).length = b.length := by
  simp only [write, length_append, length_take, length_drop]
  omega

theorem getElem?_write {offset i : Nat} (h : offset + s.length ≤ b.length) :
    (write b offset s)[i]? =
      if offset ≤ i ∧ i < offset + s.length then s[i - offset]? else b[i]? := by
  have htake : (b.take offset).length = offset := by
    rw [length_take]
    omega
  rw [write, append_assoc]
  by_cases hlow : i < offset
  · rw [List.getElem?_append_left (by omega), List.getElem?_take_of_lt hlow, if_neg (by omega)]
  · rw [List.getElem?_append_right (by omega), htake]
    by_cases hhigh : i < offset + s.length
    · rw [List.getElem?_append_left (by omega), if_pos ⟨by omega, hhigh⟩]
    · rw [List.getElem?_append_right (by omega), List.getElem?_drop, if_neg (by omega)]
      congr 1
      omega

theorem Field.getElem?_write_of_covers {i : Nat} (h : f.fin ≤ b.length) (hc : f.Covers i) :
    (Wire.write b f.offset f.bytes)[i]? = f.bytes[i - f.offset]? :=
  (getElem?_write h).trans (if_pos hc)

theorem Field.getElem?_write_of_not_covers {i : Nat} (h : f.fin ≤ b.length)
    (hc : ¬ f.Covers i) : (Wire.write b f.offset f.bytes)[i]? = b[i]? :=
  (getElem?_write h).trans (if_neg hc)

theorem Field.holds_iff (h : f.fin ≤ b.length) :
    f.Holds b ↔ ∀ i, f.Covers i → b[i]? = f.bytes[i - f.offset]? := by
  rw [Field.Holds, slice_eq_take h]
  constructor
  · intro he i hi
    have hlow := hi.1
    have hlt : i < f.offset + f.bytes.length := hi.2
    rw [← he, List.getElem?_take_of_lt (by omega), List.getElem?_drop, Nat.add_sub_cancel' hlow]
  · intro he
    refine ext_getElem? fun k => ?_
    by_cases hk : k < f.bytes.length
    · rw [List.getElem?_take_of_lt hk, List.getElem?_drop,
        he _ ⟨Nat.le_add_right _ _, Nat.add_lt_add_left hk _⟩, Nat.add_sub_cancel_left]
    · rw [List.getElem?_take_eq_none (by omega), List.getElem?_eq_none (by omega)]

theorem Field.holds_write (h : f.fin ≤ b.length) : f.Holds (write b f.offset f.bytes) := by
  rw [Field.holds_iff (by rw [length_write h]; exact h)]
  exact fun i hi => Field.getElem?_write_of_covers h hi

theorem Field.Holds.write (hf : f.Holds b) (hb : f.fin ≤ b.length) (hg : g.fin ≤ b.length)
    (hd : f.fin ≤ g.offset) : f.Holds (write b g.offset g.bytes) := by
  have hlen : (Wire.write b g.offset g.bytes).length = b.length := length_write hg
  rw [Field.holds_iff (by omega)]
  intro i hi
  have hlt := hi.2
  rw [Field.getElem?_write_of_not_covers hg fun hc => by have := hc.1; omega]
  exact (Field.holds_iff hb).mp hf i hi

theorem length_writeAll (h : ∀ f ∈ fs, f.fin ≤ b.length) : (writeAll b fs).length = b.length := by
  induction fs generalizing b with
  | nil => rfl
  | cons f fs ih =>
    obtain ⟨hf, hfs⟩ := forall_mem_cons.mp h
    have hlen : (write b f.offset f.bytes).length = b.length := length_write hf
    rw [writeAll, foldl_cons]
    exact (ih (by rw [hlen]; exact hfs)).trans hlen

theorem Field.Holds.writeAll (hf : f.Holds b) (hb : f.fin ≤ b.length)
    (h : ∀ g ∈ fs, g.fin ≤ b.length) (hd : ∀ g ∈ fs, f.fin ≤ g.offset) :
    f.Holds (writeAll b fs) := by
  induction fs generalizing b with
  | nil => exact hf
  | cons g fs ih =>
    obtain ⟨hg, hfs⟩ := forall_mem_cons.mp h
    obtain ⟨hdg, hdfs⟩ := forall_mem_cons.mp hd
    have hlen : (Wire.write b g.offset g.bytes).length = b.length := length_write hg
    exact ih (hf.write hb hg hdg) (hlen.symm ▸ hb) (hlen.symm ▸ hfs) hdfs

theorem holds_writeAll (hd : fs.Pairwise fun f g => f.fin ≤ g.offset)
    (h : ∀ f ∈ fs, f.fin ≤ b.length) (hf : f ∈ fs) : f.Holds (writeAll b fs) := by
  induction fs generalizing b with
  | nil => cases hf
  | cons g fs ih =>
    obtain ⟨hg, hfs⟩ := forall_mem_cons.mp h
    obtain ⟨hdg, hdfs⟩ := pairwise_cons.mp hd
    have hlen : (write b g.offset g.bytes).length = b.length := length_write hg
    rcases mem_cons.mp hf with rfl | hf
    · exact (Field.holds_write hg).writeAll (by omega) (by rw [hlen]; exact hfs) hdg
    · exact ih hdfs (by rw [hlen]; exact hfs) hf

theorem writeAll_eq (hlen : b.length = b'.length) (h : ∀ f ∈ fs, f.fin ≤ b.length)
    (hholds : ∀ f ∈ fs, f.Holds b')
    (hout : ∀ i, (∀ f ∈ fs, ¬ f.Covers i) → b[i]? = b'[i]?) : writeAll b fs = b' := by
  induction fs generalizing b with
  | nil => exact ext_getElem? fun i => hout i fun f hf => absurd hf not_mem_nil
  | cons f fs ih =>
    obtain ⟨hf, hfs⟩ := forall_mem_cons.mp h
    obtain ⟨hh, hholds⟩ := forall_mem_cons.mp hholds
    have hlen' : (write b f.offset f.bytes).length = b.length := length_write hf
    refine ih (hlen'.trans hlen) (by rw [hlen']; exact hfs) hholds fun i hi => ?_
    by_cases hc : f.Covers i
    · rw [Field.getElem?_write_of_covers hf hc]
      exact ((Field.holds_iff (by rw [← hlen]; exact hf)).mp hh i hc).symm
    · rw [Field.getElem?_write_of_not_covers hf hc]
      exact hout i (forall_mem_cons.mpr ⟨hc, hi⟩)

theorem getElem?_writeAll_of_not_covers {i : Nat} (h : ∀ f ∈ fs, f.fin ≤ b.length)
    (hi : ∀ f ∈ fs, ¬ f.Covers i) : (writeAll b fs)[i]? = b[i]? := by
  induction fs generalizing b with
  | nil => rfl
  | cons f fs ih =>
    obtain ⟨hf, hfs⟩ := forall_mem_cons.mp h
    obtain ⟨hfi, hi⟩ := forall_mem_cons.mp hi
    have hlen : (write b f.offset f.bytes).length = b.length := length_write hf
    exact (ih (hlen.symm ▸ hfs) hi).trans (Field.getElem?_write_of_not_covers hf hfi)

theorem slice_any_ne_zero {offset n : Nat} (h : offset + n ≤ b.length) :
    (slice b offset n).any (· != 0) = false ↔
      ∀ i, offset ≤ i → i < offset + n → b[i]? = some 0 := by
  rw [List.any_eq_false, slice_eq_take h]
  constructor
  · intro hz i hlow hhigh
    have hi : i < b.length := by omega
    have hmem : b[i] ∈ (b.drop offset).take n := by
      refine mem_of_getElem? (i := i - offset) ?_
      rw [List.getElem?_take_of_lt (by omega), List.getElem?_drop, Nat.add_sub_cancel' hlow,
        List.getElem?_eq_getElem hi]
    have hzero := hz _ hmem
    rw [Bool.not_eq_true, bne_eq_false_iff_eq] at hzero
    rw [List.getElem?_eq_getElem hi, hzero]
  · intro hz x hx
    obtain ⟨k, hk⟩ := mem_iff_getElem?.mp hx
    have hlt : k < n := by
      by_contra hk'
      rw [List.getElem?_take_eq_none (by omega)] at hk
      cases hk
    rw [List.getElem?_take_of_lt hlt, List.getElem?_drop,
      hz (offset + k) (by omega) (by omega)] at hk
    rw [← Option.some.inj hk]
    decide

end

def Spans (start : Nat) : List Field → Nat → Prop
  | [], stop => start = stop
  | f :: fs, stop => f.offset = start ∧ Spans f.fin fs stop

namespace Spans

variable {a b c i : Nat} {f : Field} {fs gs : List Field}

theorem le (h : Spans a fs b) : a ≤ b := by
  induction fs generalizing a with
  | nil => exact Nat.le_of_eq h
  | cons f fs ih =>
    obtain ⟨rfl, h⟩ := h
    exact (Nat.le_add_right _ _).trans (ih h)

theorem append (h : Spans a fs b) (h' : Spans b gs c) : Spans a (fs ++ gs) c := by
  induction fs generalizing a with
  | nil =>
    cases h
    exact h'
  | cons f fs ih => exact ⟨h.1, ih h.2⟩

theorem bounds (h : Spans a fs b) (hf : f ∈ fs) : a ≤ f.offset ∧ f.fin ≤ b := by
  induction fs generalizing a with
  | nil => cases hf
  | cons g fs ih =>
    obtain ⟨rfl, h⟩ := h
    rcases mem_cons.mp hf with rfl | hf
    · exact ⟨le_rfl, h.le⟩
    · exact ⟨(Nat.le_add_right _ _).trans (ih h hf).1, (ih h hf).2⟩

theorem pairwise (h : Spans a fs b) : fs.Pairwise fun f g => f.fin ≤ g.offset := by
  induction fs generalizing a with
  | nil => exact List.Pairwise.nil
  | cons f fs ih => exact List.Pairwise.cons (fun g hg => (h.2.bounds hg).1) (ih h.2)

theorem covered (h : Spans a fs b) (ha : a ≤ i) (hb : i < b) : ∃ f ∈ fs, f.Covers i := by
  induction fs generalizing a with
  | nil =>
    have hab : a = b := h
    omega
  | cons f fs ih =>
    obtain ⟨rfl, h⟩ := h
    by_cases hi : i < f.fin
    · exact ⟨f, mem_cons_self .., ha, hi⟩
    · obtain ⟨g, hg, hc⟩ := ih h (Nat.le_of_not_lt hi)
      exact ⟨g, mem_cons_of_mem _ hg, hc⟩

end Spans

def allZero {n : Nat} (v : List.Vector UInt8 n) : Prop := v.val.all (· == 0) = true

instance {n : Nat} (v : List.Vector UInt8 n) : Decidable (allZero v) :=
  inferInstanceAs (Decidable (_ = _))

structure Codec (α : Type) (n : Nat) where
  encode : α → List UInt8
  decode : List UInt8 → α
  length_encode : ∀ a, (encode a).length = n
  decode_encode : ∀ a, decode (encode a) = a
  encode_decode : ∀ bs, bs.length = n → encode (decode bs) = bs

namespace Codec

variable {α β : Type} {n : Nat} (C : Codec α n)

def field (offset : Nat) (a : α) : Field := ⟨offset, C.encode a⟩

def get (b : List UInt8) (offset : Nat) : α := C.decode (slice b offset n)

@[simp]
theorem field_offset (offset : Nat) (a : α) : (C.field offset a).offset = offset := rfl

@[simp]
theorem field_fin (offset : Nat) (a : α) : (C.field offset a).fin = offset + n :=
  congrArg (offset + ·) (C.length_encode a)

@[simp]
theorem field_holds {b : List UInt8} {offset : Nat} {a : α} :
    (C.field offset a).Holds b ↔ C.get b offset = a := by
  rw [Field.Holds, field, C.length_encode, get]
  constructor
  · intro h
    rw [h, C.decode_encode]
  · intro h
    rw [← h, C.encode_decode (slice b offset n) (List.takeD_length ..)]

def ofEquiv (e : β ≃ α) : Codec β n where
  encode := fun a => C.encode (e a)
  decode := fun bs => e.symm (C.decode bs)
  length_encode := fun a => C.length_encode (e a)
  decode_encode := fun a => by rw [C.decode_encode, e.symm_apply_apply]
  encode_decode := fun bs h => by rw [e.apply_symm_apply, C.encode_decode bs h]

def word (w : Nat) : Codec (BitVec (8 * w)) w where
  encode := fun v => toLe w v.toNat
  decode := fun bs => BitVec.ofNat (8 * w) (ofLe bs)
  length_encode := fun v => length_toLe w v.toNat
  decode_encode := by
    intro v
    rw [ofLe_toLe]
    apply BitVec.eq_of_toNat_eq
    rw [BitVec.toNat_ofNat, pow_byte w,
      Nat.mod_mod, Nat.mod_eq_of_lt v.isLt]
  encode_decode := by
    intro bs h
    have hlt := ofLe_lt bs
    rw [h, pow_byte w] at hlt
    rw [BitVec.toNat_ofNat, Nat.mod_eq_of_lt hlt, ← h, toLe_ofLe]

def byte : Codec UInt8 1 where
  encode := fun v => [v]
  decode := fun bs => bs.headD 0
  length_encode := fun _ => rfl
  decode_encode := fun _ => rfl
  encode_decode := by
    intro bs h
    obtain ⟨v, rfl⟩ := length_eq_one_iff.mp h
    rfl

def u16 : Codec UInt16 2 := (word 2).ofEquiv ⟨UInt16.toBitVec, UInt16.ofBitVec, fun _ => rfl,
  fun _ => rfl⟩

def u32 : Codec UInt32 4 := (word 4).ofEquiv ⟨UInt32.toBitVec, UInt32.ofBitVec, fun _ => rfl,
  fun _ => rfl⟩

def u64 : Codec UInt64 8 := (word 8).ofEquiv ⟨UInt64.toBitVec, UInt64.ofBitVec, fun _ => rfl,
  fun _ => rfl⟩

def u128 : Codec (BitVec 128) 16 := word 16

def i32 : Codec Int32 4 := u32.ofEquiv ⟨Int32.toUInt32, Int32.ofUInt32, fun _ => rfl, fun _ => rfl⟩

def array (n : Nat) : Codec (List.Vector UInt8 n) n where
  encode := fun v => v.val
  decode := fun bs => ⟨bs.takeD n 0, takeD_length ..⟩
  length_encode := fun v => v.property
  decode_encode := by
    intro v
    apply Subtype.ext
    exact (takeD_eq_take _ (Nat.le_of_eq v.property.symm)).trans
      (take_of_length_le (Nat.le_of_eq v.property))
  encode_decode := by
    intro bs h
    exact (takeD_eq_take _ (Nat.le_of_eq h.symm)).trans (take_of_length_le (Nat.le_of_eq h))

end Codec

end DevHermit.Lib.Wire
