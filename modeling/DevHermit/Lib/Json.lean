import Mathlib

namespace DevHermit.Lib

open List

inductive Json where
  | null
  | bool (b : Bool)
  | int (n : Int)
  | float (repr : String) (value : ℚ)
  | str (s : String)
  | arr (items : List Json)
  | obj (fields : List (String × Json))

namespace Json

mutual

def same : Json → Json → Bool
  | .null, .null => true
  | .bool b, .bool c => b == c
  | .int n, .int m => n == m
  | .float r v, .float s w => r == s && v == w
  | .str s, .str t => s == t
  | .arr items, .arr items' => sameItems items items'
  | .obj fields, .obj fields' => sameFields fields fields'
  | _, _ => false
termination_by structural j => j

def sameItems : List Json → List Json → Bool
  | [], [] => true
  | j :: rest, k :: rest' => same j k && sameItems rest rest'
  | _, _ => false
termination_by structural j => j

def sameField : String × Json → String × Json → Bool
  | (k, v), (l, w) => k == l && same v w
termination_by structural j => j

def sameFields : List (String × Json) → List (String × Json) → Bool
  | [], [] => true
  | f :: rest, g :: rest' => sameField f g && sameFields rest rest'
  | _, _ => false
termination_by structural j => j

end

mutual

theorem same_iff : ∀ j k : Json, same j k = true ↔ j = k
  | .null, k => by cases k <;> simp [same]
  | .bool b, k => by cases k <;> simp [same]
  | .int n, k => by cases k <;> simp [same]
  | .float r v, k => by cases k <;> simp [same]
  | .str s, k => by cases k <;> simp [same]
  | .arr items, k => by
      cases k with
      | arr items' => simp [same, sameItems_iff items items']
      | _ => simp [same]
  | .obj fields, k => by
      cases k with
      | obj fields' => simp [same, sameFields_iff fields fields']
      | _ => simp [same]

theorem sameItems_iff : ∀ js ks : List Json, sameItems js ks = true ↔ js = ks
  | [], ks => by cases ks <;> simp [sameItems]
  | j :: rest, ks => by
      cases ks with
      | nil => simp [sameItems]
      | cons k rest' => simp [sameItems, same_iff j k, sameItems_iff rest rest']

theorem sameField_iff : ∀ f g : String × Json, sameField f g = true ↔ f = g
  | (k, v), (l, w) => by simp [sameField, same_iff v w]

theorem sameFields_iff : ∀ fs gs : List (String × Json), sameFields fs gs = true ↔ fs = gs
  | [], gs => by cases gs <;> simp [sameFields]
  | f :: rest, gs => by
      cases gs with
      | nil => simp [sameFields]
      | cons g rest' => simp [sameFields, sameField_iff f g, sameFields_iff rest rest']

end

instance : DecidableEq Json := fun j k => decidable_of_iff (same j k = true) (same_iff j k)

def sortFields (fields : List (String × Json)) : List (String × Json) :=
  fields.insertionSort fun f g => f.1 ≤ g.1

mutual

def canonical : Json → Json
  | .null => .null
  | .bool b => .bool b
  | .int n => .int n
  | .float r v => .float r v
  | .str s => .str s
  | .arr items => .arr (canonicalItems items)
  | .obj fields => .obj (sortFields (canonicalFields fields))
termination_by structural j => j

def canonicalItems : List Json → List Json
  | [] => []
  | j :: rest => canonical j :: canonicalItems rest
termination_by structural j => j

def canonicalField : String × Json → String × Json
  | (k, v) => (k, canonical v)
termination_by structural j => j

def canonicalFields : List (String × Json) → List (String × Json)
  | [] => []
  | f :: rest => canonicalField f :: canonicalFields rest
termination_by structural j => j

end

theorem lookup_orderedInsert (f : String × Json) (fields : List (String × Json)) (k : String) :
    (fields.orderedInsert (fun f g => f.1 ≤ g.1) f).lookup k = (f :: fields).lookup k := by
  induction fields with
  | nil => rfl
  | cons g rest ih =>
    rw [orderedInsert_cons]
    split_ifs with hle
    · rfl
    · rw [lookup_cons, ih, lookup_cons, lookup_cons, lookup_cons]
      by_cases hg : k = g.1
      · subst hg
        have hf : g.1 ≠ f.1 := fun heq => hle heq.ge
        simp only [beq_eq_false_iff_ne.mpr hf, beq_self_eq_true]
      · simp only [beq_eq_false_iff_ne.mpr hg]

variable (fields : List (String × Json))

theorem lookup_sortFields (k : String) : (sortFields fields).lookup k = fields.lookup k := by
  induction fields with
  | nil => rfl
  | cons f rest ih =>
    rw [sortFields, insertionSort_cons, lookup_orderedInsert, lookup_cons, lookup_cons]
    split
    · rfl
    · exact ih

theorem lookup_canonicalFields (k : String) :
    (canonicalFields fields).lookup k = (fields.lookup k).map canonical := by
  induction fields with
  | nil => rfl
  | cons f rest ih =>
    obtain ⟨l, v⟩ := f
    rw [canonicalFields, canonicalField, lookup_cons, lookup_cons]
    split
    · rfl
    · exact ih

theorem canonicalField_fst (f : String × Json) : (canonicalField f).1 = f.1 := by
  obtain ⟨k, v⟩ := f
  rw [canonicalField]

theorem canonicalFields_sortFields :
    canonicalFields (sortFields fields) = sortFields (canonicalFields fields) := by
  have hmap : ∀ fs : List (String × Json), canonicalFields fs = fs.map canonicalField := by
    intro fs
    induction fs with
    | nil => rfl
    | cons f rest ih => rw [canonicalFields, ih, map_cons]
  rw [hmap, hmap, sortFields, sortFields]
  refine map_insertionSort _ _ canonicalField fields fun f _ g _ => ?_
  rw [canonicalField_fst, canonicalField_fst]

theorem sortFields_idem : sortFields (sortFields fields) = sortFields fields :=
  List.Pairwise.insertionSort_eq (pairwise_insertionSort _ fields)

mutual

theorem canonical_idem : ∀ j : Json, j.canonical.canonical = j.canonical
  | .null => rfl
  | .bool _ => rfl
  | .int _ => rfl
  | .float _ _ => rfl
  | .str _ => rfl
  | .arr items => by rw [canonical, canonical, canonicalItems_idem items]
  | .obj fields => by
      rw [canonical, canonical, canonicalFields_sortFields, canonicalFields_idem fields,
        sortFields_idem]

theorem canonicalItems_idem : ∀ items : List Json,
    canonicalItems (canonicalItems items) = canonicalItems items
  | [] => rfl
  | j :: rest => by rw [canonicalItems, canonicalItems, canonical_idem j, canonicalItems_idem rest]

theorem canonicalField_idem : ∀ f : String × Json,
    canonicalField (canonicalField f) = canonicalField f
  | (k, v) => by rw [canonicalField, canonicalField, canonical_idem v]

theorem canonicalFields_idem : ∀ fields : List (String × Json),
    canonicalFields (canonicalFields fields) = canonicalFields fields
  | [] => rfl
  | f :: rest => by
      rw [canonicalFields, canonicalFields, canonicalField_idem f, canonicalFields_idem rest]

end

theorem lookup_of_canonical {fields fields' : List (String × Json)}
    (h : canonical (.obj fields) = canonical (.obj fields')) (k : String) :
    (fields.lookup k).map canonical = (fields'.lookup k).map canonical := by
  have hsort : sortFields (canonicalFields fields) = sortFields (canonicalFields fields') :=
    Json.obj.inj h
  rw [← lookup_canonicalFields, ← lookup_canonicalFields, ← lookup_sortFields, hsort,
    lookup_sortFields]

end Json

end DevHermit.Lib
