import DevHermit.Lib.Json

namespace DevHermit.Lib

open List

inductive PyError where
  | typeError
  | attributeError
  | raised (kind : String)
  deriving DecidableEq, Repr

def decimalZeros : List Nat :=
  [0x30, 0x660, 0x6f0, 0x7c0, 0x966, 0x9e6, 0xa66, 0xae6, 0xb66, 0xbe6, 0xc66, 0xce6, 0xd66, 0xde6,
    0xe50, 0xed0, 0xf20, 0x1040, 0x1090, 0x17e0, 0x1810, 0x1946, 0x19d0, 0x1a80, 0x1a90, 0x1b50,
    0x1bb0, 0x1c40, 0x1c50, 0xa620, 0xa8d0, 0xa900, 0xa9d0, 0xa9f0, 0xaa50, 0xabf0, 0xff10, 0x104a0,
    0x10d30, 0x11066, 0x110f0, 0x11136, 0x111d0, 0x112f0, 0x11450, 0x114d0, 0x11650, 0x116c0,
    0x11730, 0x118e0, 0x11950, 0x11c50, 0x11d50, 0x11da0, 0x16a60, 0x16ac0, 0x16b50, 0x1d7ce,
    0x1d7d8, 0x1d7e2, 0x1d7ec, 0x1d7f6, 0x1e140, 0x1e2f0, 0x1e950, 0x1fbf0]

def decimalValue? (c : Char) : Option Nat :=
  (decimalZeros.find? fun base => base ≤ c.toNat ∧ c.toNat < base + 10).map (c.toNat - ·)

def isDecimalDigit (c : Char) : Bool := (decimalValue? c).isSome

def hasInfix (needle text : List Char) : Bool := text.tails.any needle.isPrefixOf

def replaceFrom (old new : List Char) : Nat → List Char → List Char
  | _, [] => []
  | skip + 1, _ :: rest => replaceFrom old new skip rest
  | 0, c :: rest =>
    if old.isPrefixOf (c :: rest) then new ++ replaceFrom old new (old.length - 1) rest
    else c :: replaceFrom old new 0 rest

def replaceAll (old new text : String) : String :=
  if old = "" then String.ofList (new.toList ++ text.toList.flatMap fun c => c :: new.toList)
  else String.ofList (replaceFrom old.toList new.toList 0 text.toList)

namespace PyError

variable {α β γ δ : Type}

def Agree (R : α → β → Prop) : Except PyError α → Except PyError β → Prop
  | .ok a, .ok b => R a b
  | .error x, .error y => x = y
  | _, _ => False

variable {R : α → β → Prop} {x : Except PyError α}

theorem Agree.bind {S : γ → δ → Prop} {y : Except PyError β} {f : α → Except PyError γ}
    {g : β → Except PyError δ} (h : Agree R x y) (hf : ∀ a b, R a b → Agree S (f a) (g b)) :
    Agree S (x >>= f) (y >>= g) := by
  cases x with
  | error ex =>
    cases y with
    | error ey => exact h
    | ok b => exact h.elim
  | ok a =>
    cases y with
    | error ey => exact h.elim
    | ok b => exact hf a b h

theorem Agree.eq {y : Except PyError α} (h : Agree Eq x y) : x = y := by
  cases x <;> cases y
  case error.error ex ey => exact congrArg _ h
  case error.ok => exact h.elim
  case ok.error => exact h.elim
  case ok.ok a b => exact congrArg _ h

theorem Agree.foldlM {P : γ → δ → Prop} {f : α → γ → Except PyError α}
    {g : β → δ → Except PyError β} (hstep : ∀ a b, R a b → ∀ c d, P c d → Agree R (f a c) (g b d))
    {cs : List γ} {ds : List δ} (hcs : List.Forall₂ P cs ds) {a : α} {b : β} (hab : R a b) :
    Agree R (cs.foldlM f a) (ds.foldlM g b) := by
  induction hcs generalizing a b with
  | nil => exact hab
  | cons hcd _ ih =>
    rw [foldlM_cons, foldlM_cons]
    exact (hstep a b hab _ _ hcd).bind fun a' b' hab' => ih hab'

end PyError

namespace Json

def truthy : Json → Bool
  | .null => false
  | .bool b => b
  | .int n => n ≠ 0
  | .float _ v => v ≠ 0
  | .str s => s ≠ ""
  | .arr items => !items.isEmpty
  | .obj fields => !fields.isEmpty

def hashable : Json → Bool
  | .arr _ | .obj _ => false
  | _ => true

def number? : Json → Option ℚ
  | .bool b => some (if b then 1 else 0)
  | .int n => some n
  | .float _ v => some v
  | _ => none

def hashKey (j : Json) : Except PyError (ℚ ⊕ Json) :=
  match j.number? with
  | some v => .ok (.inl v)
  | none => if j.hashable then .ok (.inr j) else .error .typeError

def keyEq (j k : Json) : Bool :=
  match j.number?, k.number? with
  | some v, some w => v == w
  | _, _ => j == k

theorem truthy_canonical (j : Json) : j.canonical.truthy = j.truthy := by
  cases j with
  | arr items => cases items <;> rfl
  | obj fields =>
    cases fields with
    | nil => rfl
    | cons f rest =>
      have hne : sortFields (canonicalFields (f :: rest)) ≠ [] := by
        intro h
        have hlen := congrArg List.length h
        rw [sortFields, length_insertionSort, canonicalFields] at hlen
        exact absurd hlen (Nat.succ_ne_zero _)
      rw [canonical, truthy, truthy, isEmpty_cons, isEmpty_eq_false_iff.mpr hne]
  | _ => rfl

theorem hashable_canonical (j : Json) : j.canonical.hashable = j.hashable := by cases j <;> rfl

variable {j : Json}

theorem canonical_of_hashable (h : j.hashable = true) : j.canonical = j := by
  cases j with
  | arr items => cases h
  | obj fields => cases h
  | _ => rfl

theorem eq_of_canonical_eq {k : Json} (h : j.canonical = k.canonical) (hj : j.hashable = true) :
    j = k := by
  have hk : k.hashable = true := by rw [← hashable_canonical, ← h, hashable_canonical, hj]
  rw [← canonical_of_hashable hj, h, canonical_of_hashable hk]

mutual

def pyEq : Json → Json → Bool
  | .null, .null => true
  | .str s, .str t => s == t
  | .arr items, .arr items' => pyEqItems items items'
  | .obj fields, .obj fields' => fields.length == fields'.length && pyEqFields fields fields'
  | j, k => match j.number?, k.number? with
    | some v, some w => v == w
    | _, _ => false
termination_by structural j => j

def pyEqItems : List Json → List Json → Bool
  | [], [] => true
  | j :: rest, k :: rest' => pyEq j k && pyEqItems rest rest'
  | _, _ => false
termination_by structural j => j

def pyEqField : String × Json → List (String × Json) → Bool
  | (k, v), fields => match fields.lookup k with
    | some w => pyEq v w
    | none => false
termination_by structural j => j

def pyEqFields : List (String × Json) → List (String × Json) → Bool
  | [], _ => true
  | f :: rest, fields => pyEqField f fields && pyEqFields rest fields
termination_by structural j => j

end

def hexDigit (n : Nat) : Char := if n < 10 then Char.ofNat (48 + n) else Char.ofNat (87 + n)

def escapeChar (quote c : Char) : List Char :=
  if c = '\\' then ['\\', '\\']
  else if c = quote then ['\\', c]
  else if c = '\n' then ['\\', 'n']
  else if c = '\r' then ['\\', 'r']
  else if c = '\t' then ['\\', 't']
  else if c.toNat < 32 ∨ c.toNat = 127 then
    ['\\', 'x', hexDigit (c.toNat / 16), hexDigit (c.toNat % 16)]
  else [c]

def reprString (s : String) : String :=
  let quote := if '\'' ∈ s.toList ∧ '"' ∉ s.toList then '"' else '\''
  String.ofList (quote :: s.toList.flatMap (escapeChar quote) ++ [quote])

mutual

def pyRepr : Json → String
  | .null => "None"
  | .bool b => if b then "True" else "False"
  | .int n => toString n
  | .float r _ => r
  | .str s => reprString s
  | .arr items => "[" ++ ", ".intercalate (pyReprItems items) ++ "]"
  | .obj fields => "\x7b" ++ ", ".intercalate (pyReprFields fields) ++ "\x7d"
termination_by structural j => j

def pyReprItems : List Json → List String
  | [] => []
  | j :: rest => pyRepr j :: pyReprItems rest
termination_by structural j => j

def pyReprField : String × Json → String
  | (k, v) => reprString k ++ ": " ++ pyRepr v
termination_by structural j => j

def pyReprFields : List (String × Json) → List String
  | [] => []
  | f :: rest => pyReprField f :: pyReprFields rest
termination_by structural j => j

end

def pyStr : Json → String
  | .str s => s
  | j => pyRepr j

def identical : Json → Json → Bool
  | .null, .null => true
  | .bool b, .bool c => b == c
  | _, _ => false

def orZero (j : Json) : Json := if j.truthy then j else .int 0

def numLe (j k : Json) : Except PyError Bool :=
  match j.number?, k.number? with
  | some v, some w => .ok (v ≤ w)
  | _, _ => .error .typeError

theorem numLe_int (n m : Int) : numLe (.int n) (.int m) = .ok (decide (n ≤ m)) := by
  rw [numLe, number?, number?]
  simp only [Rat.intCast_le_intCast]

theorem orZero_int (n : Int) : orZero (.int n) = .int n := by
  rw [orZero, truthy]
  split_ifs with h
  · rfl
  · rw [decide_eq_true_eq, not_not] at h
    rw [h]

end Json

def upsertEntry {α : Type} (k : String) (f : Option α → α) :
    List (String × α) → List (String × α)
  | [] => [(k, f none)]
  | (l, v) :: rest => if l = k then (k, f (some v)) :: rest else (l, v) :: upsertEntry k f rest

variable {α : Type}

theorem keys_upsertEntry (k : String) (f : Option α → α) (entries : List (String × α)) :
    (upsertEntry k f entries).map Prod.fst = if k ∈ entries.map Prod.fst then entries.map Prod.fst
      else entries.map Prod.fst ++ [k] := by
  induction entries with
  | nil => rfl
  | cons entry rest ih =>
    obtain ⟨l, v⟩ := entry
    rw [upsertEntry]
    split
    case isTrue h =>
      subst h
      simp only [map_cons, mem_cons_self, if_true]
    case isFalse h =>
      rw [map_cons, ih]
      have hne : k ≠ l := fun heq => h heq.symm
      by_cases hmem : k ∈ rest.map Prod.fst
      · simp only [hmem, map_cons, mem_cons, or_true, if_true]
      · simp only [hmem, map_cons, mem_cons, hne, or_self, if_false, cons_append]

theorem lookup_upsertEntry (k : String) (f : Option α → α) (entries : List (String × α))
    (j : String) : (upsertEntry k f entries).lookup j =
      if j = k then some (f (entries.lookup k)) else entries.lookup j := by
  induction entries with
  | nil =>
    rw [upsertEntry, lookup_cons]
    by_cases hj : j = k
    · simp only [hj, beq_self_eq_true, if_true, lookup_nil]
    · simp only [beq_eq_false_iff_ne.mpr hj, hj, if_false, lookup_nil]
  | cons entry rest ih =>
    obtain ⟨l, v⟩ := entry
    rw [upsertEntry]
    split
    case isTrue h =>
      subst h
      by_cases hj : j = l
      · simp only [hj, lookup_cons, beq_self_eq_true, if_true]
      · simp only [lookup_cons, beq_eq_false_iff_ne.mpr hj, hj, if_false]
    case isFalse h =>
      have hne : (k == l) = false := beq_eq_false_iff_ne.mpr fun heq => h heq.symm
      rw [lookup_cons, ih, lookup_cons, lookup_cons, hne]
      by_cases hj : j = l
      · subst hj
        simp only [beq_self_eq_true, h, if_false]
      · simp only [beq_eq_false_iff_ne.mpr hj]

structure Dict (α : Type) where
  entries : List (String × α)
  nodup : (entries.map Prod.fst).Nodup

namespace Dict

variable {α : Type}

instance [DecidableEq α] : DecidableEq (Dict α) := fun d d' =>
  decidable_of_iff (d.entries = d'.entries) (by
    cases d
    cases d'
    simp)

def empty : Dict α := ⟨[], nodup_nil⟩

def get? (d : Dict α) (k : String) : Option α := d.entries.lookup k

def upsert (d : Dict α) (k : String) (f : Option α → α) : Dict α where
  entries := upsertEntry k f d.entries
  nodup := by
    rw [keys_upsertEntry]
    split_ifs with h
    · exact d.nodup
    · exact nodup_append.mpr ⟨d.nodup, nodup_singleton k, by
      intro l hl m hm
      rw [mem_singleton.mp hm]
      rintro rfl
      exact h hl⟩

def set (d : Dict α) (k : String) (v : α) : Dict α := d.upsert k fun _ => v

def setDefault (d : Dict α) (k : String) (v : α) : Dict α := d.upsert k fun old => old.getD v

variable (d : Dict α)

variable (k : String)

theorem get?_upsert (f : Option α → α) (j : String) :
    (d.upsert k f).get? j = if j = k then some (f (d.get? k)) else d.get? j :=
  lookup_upsertEntry k f d.entries j

theorem get?_set (v : α) (j : String) : (d.set k v).get? j = if j = k then some v else d.get? j :=
  d.get?_upsert k (fun _ => v) j

def setDefaults (d : Dict α) (items : List (String × α)) : Dict α :=
  items.foldl (fun d p => d.setDefault p.1 p.2) d

def update (d : Dict α) (items : List (String × α)) : Dict α :=
  items.foldl (fun d p => d.set p.1 p.2) d

theorem get?_setDefaults (items : List (String × α)) (j : String) :
    (d.setDefaults items).get? j = (d.get? j).or (items.lookup j) := by
  induction items generalizing d with
  | nil => simp [setDefaults]
  | cons item rest ih =>
    obtain ⟨k, v⟩ := item
    rw [setDefaults, foldl_cons, ← setDefaults, ih, setDefault, get?_upsert, lookup_cons]
    by_cases hj : j = k
    · subst hj
      cases d.get? j <;> simp
    · simp only [if_neg hj, beq_eq_false_iff_ne.mpr hj]

variable {items : List (String × α)}

theorem lookup_eq_none_of_not_mem {j : String} (h : j ∉ items.map Prod.fst) : items.lookup j = none := by
  rw [lookup_eq_none_iff]
  intro item hitem
  have hne : j ≠ item.1 := fun heq => h (heq ▸ List.mem_map_of_mem hitem)
  exact bne_iff_ne.mpr hne

theorem lookup_filter (hnd : (items.map Prod.fst).Nodup) (p : String × α → Bool) (j : String) :
    (items.filter p).lookup j = (items.lookup j).filter fun v => p (j, v) := by
  induction items with
  | nil => rfl
  | cons item rest ih =>
    obtain ⟨k, v⟩ := item
    rw [map_cons, nodup_cons] at hnd
    have hrest := ih hnd.2
    rw [filter_cons, lookup_cons]
    by_cases hj : j = k
    · subst hj
      rw [lookup_eq_none_of_not_mem hnd.1] at hrest
      by_cases hp : p (j, v) = true
      · simp only [hp, if_true, lookup_cons, beq_self_eq_true, Option.filter_some]
      · simp only [hp, Bool.false_eq_true, if_false, hrest, beq_self_eq_true, Option.filter_some,
          Option.filter_none]
    · by_cases hp : p (k, v) = true
      · simp only [hp, if_true, lookup_cons, beq_eq_false_iff_ne.mpr hj, hrest]
      · simp only [hp, Bool.false_eq_true, if_false, beq_eq_false_iff_ne.mpr hj, hrest]

theorem get?_update (items : List (String × α)) (hnd : (items.map Prod.fst).Nodup)
    (j : String) : (d.update items).get? j = (items.lookup j).or (d.get? j) := by
  induction items generalizing d with
  | nil => simp [update]
  | cons item rest ih =>
    obtain ⟨k, v⟩ := item
    rw [map_cons, nodup_cons] at hnd
    rw [update, foldl_cons, ← update, ih (d.set k v) hnd.2, get?_set, lookup_cons]
    by_cases hj : j = k
    · subst hj
      simp only [lookup_eq_none_of_not_mem hnd.1, beq_self_eq_true, if_true, Option.none_or,
        Option.some_or]
    · simp only [if_neg hj, beq_eq_false_iff_ne.mpr hj]

theorem mem_entries_iff (v : α) : (k, v) ∈ d.entries ↔ d.get? k = some v := by
  obtain ⟨entries, hnd⟩ := d
  rw [get?]
  induction entries with
  | nil => simp
  | cons entry rest ih =>
    obtain ⟨l, w⟩ := entry
    rw [map_cons, nodup_cons] at hnd
    rw [mem_cons, lookup_cons]
    by_cases hk : k = l
    · subst hk
      have hrest : (k, v) ∉ rest := fun hmem => hnd.1 (List.mem_map.mpr ⟨(k, v), hmem, rfl⟩)
      simp only [Prod.mk.injEq, true_and, hrest, or_false, beq_self_eq_true, Option.some.injEq]
      exact eq_comm
    · simp only [Prod.mk.injEq, hk, false_and, false_or, beq_eq_false_iff_ne.mpr hk]
      exact ih hnd.2

theorem keys_canonicalFields (fields : List (String × Json)) :
    (Json.canonicalFields fields).map Prod.fst = fields.map Prod.fst := by
  induction fields with
  | nil => rfl
  | cons f rest ih => rw [Json.canonicalFields, map_cons, ih, map_cons, Json.canonicalField]

def canonicalDict (d : Dict Json) : Dict Json where
  entries := Json.sortFields (Json.canonicalFields d.entries)
  nodup := by
    have hperm := (perm_insertionSort (fun f g : String × Json => f.1 ≤ g.1)
      (Json.canonicalFields d.entries)).map Prod.fst
    rw [Json.sortFields, hperm.nodup_iff, keys_canonicalFields]
    exact d.nodup

theorem get?_canonicalDict (d : Dict Json) (k : String) :
    d.canonicalDict.get? k = (d.get? k).map Json.canonical := by
  rw [get?, canonicalDict, Json.lookup_sortFields, Json.lookup_canonicalFields, get?]

theorem canonicalDict_increasing (d : Dict Json) :
    d.canonicalDict.entries.Pairwise fun f g => f.1 < g.1 := by
  have hle : d.canonicalDict.entries.Pairwise fun f g => f.1 ≤ g.1 := pairwise_insertionSort _ _
  have hne : d.canonicalDict.entries.Pairwise fun f g => f.1 ≠ g.1 :=
    pairwise_map.mp d.canonicalDict.nodup
  exact (hle.and hne).imp fun {_ _} h => lt_of_le_of_ne h.1 h.2

theorem canonical_eq_of_get? {d d' : Dict Json}
    (h : ∀ k, (d.get? k).map Json.canonical = (d'.get? k).map Json.canonical) :
    Json.canonical (.obj d.entries) = Json.canonical (.obj d'.entries) := by
  have hentries : d.canonicalDict.entries = d'.canonicalDict.entries := by
    refine d.canonicalDict_increasing.eq_of_mem_iff d'.canonicalDict_increasing fun item => ?_
    rw [mem_entries_iff, mem_entries_iff, get?_canonicalDict, get?_canonicalDict, h]
  exact congrArg Json.obj hentries

end Dict

structure Document (L : Type) where
  literals : List L
  shape : List Json → Dict Json

namespace Document

variable {L : Type} {d : Document L} {number number' : L → Json}

def read (d : Document L) (number : L → Json) : Dict Json := d.shape (d.literals.map number)

theorem read_congr (h : ∀ l ∈ d.literals, number l = number' l) :
    d.read number = d.read number' := congrArg d.shape (map_congr_left h)

end Document

end DevHermit.Lib
