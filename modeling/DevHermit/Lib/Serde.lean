import DevHermit.Lib.Json

namespace DevHermit.Lib

open Option

namespace Json

def asStr : Json → Option String
  | .str s => some s
  | _ => none

def asBool : Json → Option Bool
  | .bool b => some b
  | _ => none

def asUnsigned (width : Nat) : Json → Option Nat
  | .int n => if 0 ≤ n ∧ n < 2 ^ width then some n.toNat else none
  | _ => none

theorem lt_of_asUnsigned {width : Nat} {j : Json} {n : Nat} (h : j.asUnsigned width = some n) :
    n < 2 ^ width := by
  cases j with
  | int m =>
    rw [asUnsigned] at h
    split at h
    case isTrue hm =>
      have hcast : (m.toNat : Int) < ((2 ^ width : Nat) : Int) := by
        rw [Int.toNat_of_nonneg hm.1, Nat.cast_pow]
        exact hm.2
      rw [← Option.some.inj h]
      exact Int.ofNat_lt.mp hcast
    case isFalse => cases h
  | _ => cases h

def asSigned (width : Nat) : Json → Option Int
  | .int n => if -(2 ^ (width - 1)) ≤ n ∧ n < 2 ^ (width - 1) then some n else none
  | _ => none

def asU64 : Json → Option Nat := asUnsigned 64

def asArray : Json → Option (List Json)
  | .arr items => some items
  | _ => none

def asObject : Json → Option (List (String × Json))
  | .obj fields => some fields
  | _ => none

def isNumber : Json → Bool
  | .int _ | .float _ _ => true
  | _ => false

end Json

structure Codec (α : Type) where
  decode : Json → Option α
  encode : α → Json
  exact : ∀ {j a}, decode j = some a → j = encode a

namespace Codec

variable {α : Type}

def str : Codec String where
  decode := Json.asStr
  encode := Json.str
  exact := by
    intro j a h
    cases j with
    | str s => exact congrArg Json.str (Option.some.inj h)
    | _ => cases h

def bool : Codec Bool where
  decode := Json.asBool
  encode := Json.bool
  exact := by
    intro j a h
    cases j with
    | bool b => exact congrArg Json.bool (Option.some.inj h)
    | _ => cases h

def unsigned (width : Nat) : Codec Nat where
  decode := Json.asUnsigned width
  encode n := .int n
  exact := by
    intro j a h
    cases j with
    | int n =>
      rw [Json.asUnsigned] at h
      split at h
      case isTrue hn => rw [← Option.some.inj h, Int.toNat_of_nonneg hn.1]
      case isFalse => cases h
    | _ => cases h

def signed (width : Nat) : Codec Int where
  decode := Json.asSigned width
  encode := Json.int
  exact := by
    intro j a h
    cases j with
    | int n =>
      rw [Json.asSigned] at h
      split at h
      · exact congrArg Json.int (Option.some.inj h)
      · cases h
    | _ => cases h

def list (c : Codec α) : Codec (List α) where
  decode
    | .arr items => items.mapM c.decode
    | _ => none
  encode items := .arr (items.map c.encode)
  exact := by
    intro j values h
    cases j with
    | arr items =>
      dsimp only at h
      refine congrArg Json.arr ?_
      induction items generalizing values with
      | nil =>
        rw [List.mapM_nil] at h
        rw [← Option.some.inj h, List.map_nil]
      | cons item rest ih =>
        rw [List.mapM_cons, bind_eq_bind, bind_eq_some_iff] at h
        obtain ⟨value, hvalue, h⟩ := h
        rw [bind_eq_bind, bind_eq_some_iff] at h
        obtain ⟨tail, htail, h⟩ := h
        rw [← Option.some.inj h, List.map_cons, ← c.exact hvalue, ← ih htail]
    | _ => cases h

def nullable (c : Codec α) : Codec (Option α) where
  decode
    | .null => some none
    | j => (c.decode j).map some
  encode v := (v.map c.encode).getD .null
  exact := by
    intro j v h
    cases j with
    | null => rw [← Option.some.inj h, map_none, getD_none]
    | _ =>
      dsimp only at h
      rw [map_eq_some_iff] at h
      obtain ⟨value, hvalue, rfl⟩ := h
      exact c.exact hvalue

end Codec

abbrev Fields := String → Option Json

namespace Fields

variable {α : Type}

def of (entries : List (String × Json)) : Fields := fun k => entries.lookup k

def ofStruct (names : List String) : Json → Option Fields
  | .obj fields => some (of fields)
  | .arr items => if items.length ≤ names.length then some (of (names.zip items)) else none
  | _ => none

def value (fields : Fields) (k : String) : Json := (fields k).getD .null

def required (fields : Fields) (k : String) (c : Codec α) : Option α := (fields k).bind c.decode

def defaulted (fields : Fields) (k : String) (default : α) (decode : Json → Option α) : Option α :=
  match fields k with
  | none => some default
  | some j => decode j

def optional (fields : Fields) (k : String) (c : Codec α) : Option (Option α) :=
  fields.defaulted k none c.nullable.decode

variable {a : α} {c : Codec α} {fields : Fields} {k : String}

theorem eq_some_of_required (h : fields.required k c = some a) : fields k = some (c.encode a) := by
  obtain ⟨j, hj, ha⟩ := bind_eq_some_iff.mp h
  rw [hj, c.exact ha]

theorem value_of_required (h : fields.required k c = some a) : fields.value k = c.encode a := by
  rw [value, eq_some_of_required h, getD_some]

theorem value_of_optional {v : Option α} (h : fields.optional k c = some v) :
    fields.value k = c.nullable.encode v := by
  rw [optional, defaulted] at h
  rw [value]
  cases hj : fields k with
  | none =>
    rw [hj] at h
    rw [← Option.some.inj h]
    rfl
  | some j =>
    rw [hj] at h
    exact c.nullable.exact h

theorem mem_of_of_eq_some {entries : List (String × Json)} {j : Json} (h : of entries k = some j) :
    (k, j) ∈ entries := by
  rw [of, List.lookup_eq_some_iff] at h
  obtain ⟨before, after, rfl, -⟩ := h
  exact List.mem_append_right _ List.mem_cons_self

theorem ofStruct_arr {names : List String} {items : List Json}
    (h : ofStruct names (.arr items) = some fields) :
    items.length ≤ names.length ∧ ∀ {k j}, fields k = some j → j ∈ items := by
  rw [ofStruct] at h
  split at h
  case isTrue hlen =>
    refine ⟨hlen, fun hk => ?_⟩
    rw [← Option.some.inj h] at hk
    exact (List.of_mem_zip (mem_of_of_eq_some hk)).2
  case isFalse => cases h

end Fields

end DevHermit.Lib
