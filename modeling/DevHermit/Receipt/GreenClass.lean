import DevHermit.Lib.Python
import DevHermit.Lib.Serde

namespace DevHermit.Receipt

open Lib Option Json

inductive GreenClass where
  | hard
  | softRebaseOnly
  | softUpstreamDelta
  | softForceFull
  | notGreen
  | refused
  deriving DecidableEq, Repr

def GreenClass.text : GreenClass → String
  | .hard => "hard"
  | .softRebaseOnly => "soft-rebase-only"
  | .softUpstreamDelta => "soft-upstream-delta"
  | .softForceFull => "soft-force-full-touched"
  | .notGreen => "not-green"
  | .refused => "refused"

def deltaRebaseOnly : String := "rebase-only"

def deltaRebasePlusUpstream : String := "rebase-plus-upstream"

def deltaNewBranchCommits : String := "new-branch-commits"

def validDeltaKinds : List String :=
  [deltaNewBranchCommits, deltaRebaseOnly, deltaRebasePlusUpstream]

abbrev Classified := GreenClass × String

def nonnegativeInt? : Option Json → Option Nat
  | some (.int n) => if 0 ≤ n ∧ n ≤ 2 ^ 64 - 1 then some n.toNat else none
  | _ => none

def pathList? : Json → Option (List String)
  | .arr items => items.mapM Json.asStr
  | _ => none

def shortSha (sha : String) : String := String.ofList (sha.toList.take 12)

def classifyCounts (validated kind : String) (branchCommits upstream : Nat)
    (forceFull : List String) : Classified :=
  if kind = deltaNewBranchCommits ∨ branchCommits > 0 then
    (.notGreen, "the branch itself gained " ++ toString branchCommits ++
      " commit(s): the ancestor's green does not speak for code it never ran")
  else if kind = deltaRebaseOnly then
    if upstream ≠ 0 then
      (.refused, "delta_kind=rebase-only contradicts upstream_commits=" ++ toString upstream)
    else
      (.softRebaseOnly, "rebase-only onto " ++ shortSha validated ++
        ": the branch's own patches are unchanged and no new upstream commits came in")
  else if upstream = 0 then
    (.refused, "delta_kind=rebase-plus-upstream requires a positive upstream_commits")
  else if forceFull ≠ [] then
    (.softForceFull, toString upstream ++ " new upstream commit(s) include force_full-class " ++
      "path(s) (" ++ ", ".intercalate (forceFull.take 3) ++
      "): the blast radius is the whole suite, so the ancestor's green covers none of it")
  else
    (.softUpstreamDelta, toString upstream ++ " new upstream commit(s) pulled in; the ancestor's " ++
      "green says nothing about interactions with code that did not exist when it ran")

def classifyDelta (validated kind : String) (inherited : List (String × Json)) : Classified :=
  match nonnegativeInt? (inherited.lookup "branch_commits") with
  | none => (.refused, "inherited_from.branch_commits must be a non-negative int")
  | some branchCommits =>
    match pathList? ((inherited.lookup "force_full_paths").getD (.arr [])) with
    | none => (.refused, "inherited_from.force_full_paths must be a list of strings")
    | some forceFull =>
      match nonnegativeInt? (some ((inherited.lookup "upstream_commits").getD (.int 0))) with
      | none => (.refused, "inherited_from.upstream_commits must be a non-negative int")
      | some upstream => classifyCounts validated kind branchCommits upstream forceFull

def classifyInherited (validated : String) (inherited : Json) : Except PyError Classified :=
  match inherited with
  | .null =>
    .ok (.refused, "soft green claimed (validated at " ++ shortSha validated ++
      ", recorded at a different head) with NO inherited_from provenance: a label with no " ++
      "backing is exactly the fake-green shape")
  | .obj fields =>
    let kind := (fields.lookup "delta_kind").getD .null
    if !kind.hashable then .error .typeError
    else
      match kind.asStr with
      | some text =>
        if text ∈ validDeltaKinds then .ok (classifyDelta validated text fields)
        else .ok (unknownKind kind)
      | none => .ok (unknownKind kind)
  | _ => .ok (.refused, "inherited_from is not an object")
where
  unknownKind (kind : Json) : Classified :=
    (.refused, "inherited_from.delta_kind " ++ kind.pyRepr ++ " is not one of " ++
      Json.pyRepr (.arr (validDeltaKinds.map Json.str)) ++
      "; an unrecognised delta is not a soft green")

def explicitNull? (row : Dict Json) : Option String :=
  ["validated_head_sha", "inherited_from", "green_class"].find? fun field =>
    row.get? field = some .null

def deriveFrom (commit : String) (row : Dict Json) : Except PyError Classified :=
  let inherited := (row.get? "inherited_from").getD .null
  match row.get? "validated_head_sha" with
  | none => .ok (exactHead " (validated_head_sha absent; defaulted to commit)" inherited)
  | some (.str validated) =>
    if validated = commit then .ok (exactHead "" inherited)
    else classifyInherited validated inherited
  | some _ => .ok (.refused, "validated_head_sha must be a string")
where
  exactHead (note : String) (inherited : Json) : Classified :=
    if inherited ≠ .null then
      (.refused, "contradiction: validated_head_sha == commit (claims exact-head " ++
        "validation) yet inherited_from is present (claims inheritance)")
    else (.hard, "validated at this exact head" ++ note)

def checkLabel (label : Json) (derived : Classified) : Classified :=
  if label ≠ .null ∧ derived.1 ≠ .refused ∧ label ≠ .str derived.1.text then
    (.refused, "green_class label " ++ label.pyRepr ++ " disagrees with the class derived from " ++
      "provenance (" ++ Json.reprString derived.1.text ++
      "); the label is a cache, never the authority")
  else derived

def deriveClass (row : Dict Json) : Except PyError Classified :=
  match row.get? "commit" with
  | some (.str commit) =>
    if commit = "" ∨ commit = "unknown" then .ok noCommit
    else
      match explicitNull? row with
      | some field =>
        .ok (.refused, field ++ " is explicitly null; omit legacy fields or carry a value")
      | none => (deriveFrom commit row).map (checkLabel ((row.get? "green_class").getD .null))
  | _ => .ok noCommit
where
  noCommit : Classified := (.refused, "no commit on the row: nothing to bind a class to")

def forceFullPaths (inherited : List (String × Json)) : Option (List Json) :=
  match inherited.lookup "force_full_paths" with
  | none => some []
  | some value => value.asArray.filter fun paths => paths.all fun path => path.asStr.isSome

def upstreamCommits (inherited : List (String × Json)) : Option Nat :=
  match inherited.lookup "upstream_commits" with
  | none => some 0
  | some value => value.asU64

def deltaClass (kind : String) (branchCommits upstream : Nat) (forceFull : List Json) :
    Option GreenClass :=
  if kind = "new-branch-commits" ∨ branchCommits > 0 then some .notGreen
  else if kind = "rebase-only" then
    if upstream ≠ 0 then none else some .softRebaseOnly
  else if upstream = 0 then none
  else if forceFull = [] then some .softUpstreamDelta
  else some .softForceFull

def inheritedGreenClass (inherited : List (String × Json)) : Option GreenClass :=
  ((inherited.lookup "delta_kind").bind Json.asStr).bind fun kind =>
    if kind ∈ ["rebase-only", "rebase-plus-upstream", "new-branch-commits"] then
      ((inherited.lookup "branch_commits").bind Json.asU64).bind fun branchCommits =>
        (forceFullPaths inherited).bind fun forceFull =>
          (upstreamCommits inherited).bind fun upstream =>
            deltaClass kind branchCommits upstream forceFull
    else none

def headClass (commit : String) (extra : String → Option Json) : Option GreenClass :=
  let validated := match extra "validated_head_sha" with
    | none => some commit
    | some value => value.asStr
  validated.bind fun validated =>
    if validated = commit then
      if (extra "inherited_from").isSome then none else some .hard
    else ((extra "inherited_from").bind Json.asObject).bind inheritedGreenClass

def derivedGreenClass (commit : Option String) (extra : String → Option Json) : Option GreenClass :=
  commit.bind fun commit =>
    if commit = "unknown" then none
    else
      (headClass commit extra).bind fun derived =>
        match extra "green_class" with
        | none => some derived
        | some label => if label.asStr ≠ some derived.text then none else some derived

def GreenClass.granted (derived : GreenClass) : Option GreenClass :=
  if derived = .refused then none else some derived

theorem nonnegativeInt?_some (value : Json) : nonnegativeInt? (some value) = value.asU64 := by
  cases value with
  | int n =>
    rw [nonnegativeInt?, asU64, asUnsigned]
    have hbound : (0 ≤ n ∧ n ≤ 2 ^ 64 - 1) ↔ 0 ≤ n ∧ n < 2 ^ 64 := by omega
    simp only [hbound]
  | _ => rfl

theorem mapM_asStr (items : List Json) :
    (∃ paths, items.mapM asStr = some paths ∧ (paths = [] ↔ items = []) ∧
      (items.all fun path => path.asStr.isSome) = true) ∨
    (items.mapM asStr = none ∧ (items.all fun path => path.asStr.isSome) = false) := by
  induction items with
  | nil => exact Or.inl ⟨[], rfl, by simp, rfl⟩
  | cons item rest ih =>
    rw [List.mapM_cons, List.all_cons]
    cases hitem : item.asStr with
    | none => exact Or.inr ⟨rfl, rfl⟩
    | some path =>
      rcases ih with ⟨paths, hpaths, -, hall⟩ | ⟨hnone, hall⟩
      · exact Or.inl ⟨path :: paths, by rw [hpaths]; rfl, by simp, by rw [hall]; rfl⟩
      · exact Or.inr ⟨by rw [hnone]; rfl, by rw [hall]; rfl⟩

variable (validated : String)

theorem deltaClass_eq (kind : String) (branchCommits upstream : Nat)
    {forceFull : List String} {paths : List Json} (hpaths : forceFull = [] ↔ paths = []) :
    deltaClass kind branchCommits upstream paths =
      (classifyCounts validated kind branchCommits upstream forceFull).1.granted := by
  rw [deltaClass, classifyCounts, deltaNewBranchCommits, deltaRebaseOnly]
  by_cases hgrew : kind = "new-branch-commits" ∨ branchCommits > 0
  · rw [if_pos hgrew, if_pos hgrew]
    rfl
  · rw [if_neg hgrew, if_neg hgrew]
    by_cases honly : kind = "rebase-only"
    · rw [if_pos honly, if_pos honly]
      split
      · rfl
      · rfl
    · rw [if_neg honly, if_neg honly]
      by_cases hzero : upstream = 0
      · rw [if_pos hzero, if_pos hzero]
        rfl
      · rw [if_neg hzero, if_neg hzero]
        by_cases hnone : paths = []
        · rw [if_pos hnone, if_neg (not_not.mpr (hpaths.mpr hnone))]
          rfl
        · rw [if_neg hnone, if_pos fun h => hnone (hpaths.mp h)]
          rfl

variable (inherited : List (String × Json))

theorem forceFullPaths_eq : (∃ forceFull paths, forceFullPaths inherited = some paths ∧
      pathList? ((inherited.lookup "force_full_paths").getD (.arr [])) = some forceFull ∧
      (forceFull = [] ↔ paths = [])) ∨ (forceFullPaths inherited = none ∧
      pathList? ((inherited.lookup "force_full_paths").getD (.arr [])) = none) := by
  rw [forceFullPaths]
  cases inherited.lookup "force_full_paths" with
  | none => exact Or.inl ⟨[], [], rfl, rfl, by simp⟩
  | some value =>
    cases value with
    | arr items =>
      rcases mapM_asStr items with ⟨paths, hpaths, hnil, hall⟩ | ⟨hnone, hall⟩
      · refine Or.inl ⟨paths, items, ?_, hpaths, hnil⟩
        show (some items).filter _ = some items
        rw [filter_some, if_pos hall]
      · refine Or.inr ⟨?_, hnone⟩
        show (some items).filter _ = none
        rw [filter_some, hall]
        rfl
    | _ => exact Or.inr ⟨rfl, rfl⟩

theorem upstreamCommits_eq : upstreamCommits inherited =
      nonnegativeInt? (some ((inherited.lookup "upstream_commits").getD (.int 0))) := by
  rw [upstreamCommits, nonnegativeInt?_some]
  cases inherited.lookup "upstream_commits" <;> rfl

theorem branchCommits_eq : (inherited.lookup "branch_commits").bind asU64 =
      nonnegativeInt? (inherited.lookup "branch_commits") := by
  cases inherited.lookup "branch_commits" with
  | none => rfl
  | some value => exact (nonnegativeInt?_some value).symm

variable {inherited : List (String × Json)}

theorem inheritedGreenClass_eq {kind : String}
    (hkind : inherited.lookup "delta_kind" = some (.str kind)) (hvalid : kind ∈ validDeltaKinds)
    (validated : String) :
    inheritedGreenClass inherited = (classifyDelta validated kind inherited).1.granted := by
  have hlisted : kind ∈ ["rebase-only", "rebase-plus-upstream", "new-branch-commits"] := by
    rw [validDeltaKinds, deltaNewBranchCommits, deltaRebaseOnly, deltaRebasePlusUpstream] at hvalid
    grind
  rw [inheritedGreenClass, hkind, bind_some, asStr, bind_some, if_pos hlisted,
    branchCommits_eq, upstreamCommits_eq, classifyDelta]
  cases nonnegativeInt? (inherited.lookup "branch_commits") with
  | none => rfl
  | some branchCommits =>
    rcases forceFullPaths_eq inherited with ⟨forceFull, paths, hr, hp, hnil⟩ | ⟨hr, hp⟩
    · rw [hr, hp]
      simp only [bind_some]
      cases nonnegativeInt? (some ((inherited.lookup "upstream_commits").getD (.int 0))) with
      | none => rfl
      | some upstream => exact deltaClass_eq validated kind branchCommits upstream hnil
    · rw [hr, hp]
      rfl

def UnhashableKind (inherited : Json) : Prop :=
  ∃ fields kind, inherited = .obj fields ∧ fields.lookup "delta_kind" = some kind ∧
    kind.hashable = false

theorem inheritedGreenClass_of_invalid
    (h : ∀ kind, inherited.lookup "delta_kind" = some (.str kind) → kind ∉ validDeltaKinds) :
    inheritedGreenClass inherited = none := by
  rw [inheritedGreenClass]
  cases hkind : inherited.lookup "delta_kind" with
  | none => rfl
  | some value =>
    cases value with
    | str kind =>
      have hnot := h kind hkind
      rw [validDeltaKinds, deltaNewBranchCommits, deltaRebaseOnly, deltaRebasePlusUpstream] at hnot
      exact if_neg (by grind)
    | _ => rfl

theorem classifyCounts_ne_hard (kind : String) (branchCommits upstream : Nat)
    (forceFull : List String) :
    (classifyCounts validated kind branchCommits upstream forceFull).1 ≠ .hard := by
  rw [classifyCounts]
  split_ifs <;> simp

theorem classifyDelta_ne_hard (kind : String) (inherited : List (String × Json)) :
    (classifyDelta validated kind inherited).1 ≠ .hard := by
  rw [classifyDelta]
  split
  · simp
  · split
    · simp
    · split
      · simp
      · exact classifyCounts_ne_hard _ _ _ _ _

theorem classifyInherited_unhashable {inherited : Json}
    (h : UnhashableKind inherited) : classifyInherited validated inherited = .error .typeError := by
  obtain ⟨fields, kind, rfl, hkind, hhash⟩ := h
  simp [classifyInherited, hkind, hhash]

theorem classifyInherited_ok {inherited : Json} (h : ¬ UnhashableKind inherited) :
    ∃ out, classifyInherited validated inherited = .ok out ∧
      inherited.asObject.bind inheritedGreenClass = out.1.granted ∧ out.1 ≠ .hard := by
  cases inherited with
  | obj fields =>
    have hhash : ((fields.lookup "delta_kind").getD .null).hashable = true := by
      cases hkind : fields.lookup "delta_kind" with
      | none => rfl
      | some kind =>
        by_contra hnot
        exact h ⟨fields, kind, rfl, hkind, by simpa using hnot⟩
    simp only [classifyInherited, hhash, Bool.not_true, Bool.false_eq_true, if_false]
    have hobject : (Json.obj fields).asObject = some fields := rfl
    rw [hobject, bind_some]
    cases hkind : ((fields.lookup "delta_kind").getD .null).asStr with
    | none =>
      refine ⟨_, rfl, ?_, by simp [classifyInherited.unknownKind]⟩
      apply inheritedGreenClass_of_invalid
      intro kind hlookup
      rw [hlookup] at hkind
      cases hkind
    | some text =>
      have hlookup : fields.lookup "delta_kind" = some (.str text) := by
        cases hl : fields.lookup "delta_kind" with
        | none =>
          rw [hl] at hkind
          cases hkind
        | some value =>
          rw [hl] at hkind
          cases value with
          | str s => exact congrArg (fun t => some (Json.str t)) (some.inj hkind)
          | _ => cases hkind
      dsimp only
      split_ifs with hvalid
      · exact ⟨_, rfl, inheritedGreenClass_eq hlookup hvalid validated,
          classifyDelta_ne_hard validated text fields⟩
      · refine ⟨_, rfl, ?_, by simp [classifyInherited.unknownKind]⟩
        apply inheritedGreenClass_of_invalid
        intro kind hl
        rw [hlookup] at hl
        exact Json.str.inj (some.inj hl) ▸ hvalid
  | _ => exact ⟨_, rfl, rfl, by simp⟩

theorem granted_eq_some {derived c : GreenClass} (h : derived.granted = some c) : derived = c := by
  rw [GreenClass.granted] at h
  split at h
  · cases h
  · exact some.inj h

theorem checkLabel_ne_refused {label : Json} {derived : Classified}
    (h : (checkLabel label derived).1 ≠ .refused) : checkLabel label derived = derived := by
  rw [checkLabel] at h ⊢
  split_ifs at h with hlabel
  · exact absurd rfl h
  · rw [if_neg hlabel]

theorem granted_checkLabel {label : Option Json} (hnull : label ≠ some .null)
    (derived : Classified) :
    (checkLabel (label.getD .null) derived).1.granted =
      derived.1.granted.bind fun c =>
        match label with
        | none => some c
        | some value => if value.asStr ≠ some c.text then none else some c := by
  rw [checkLabel]
  by_cases hrefused : derived.1 = .refused
  · rw [if_neg fun h => h.2.1 hrefused, hrefused]
    rfl
  · have hgranted : derived.1.granted = some derived.1 := if_neg hrefused
    rw [hgranted, bind_some]
    cases label with
    | none => rw [getD_none, if_neg fun h => h.1 rfl, hgranted]
    | some value =>
      have hvalue : value ≠ .null := fun h => hnull (congrArg some h)
      have htext : value = .str derived.1.text ↔ value.asStr = some derived.1.text := by
        cases value with
        | str s =>
          refine ⟨fun h => congrArg some (Json.str.inj h), fun h => ?_⟩
          exact congrArg Json.str (some.inj h)
        | _ => exact iff_of_false nofun nofun
      rw [getD_some]
      dsimp only
      by_cases hsame : value.asStr = some derived.1.text
      · rw [if_neg fun h => h.2.2 (htext.mpr hsame), hgranted, if_neg (not_not.mpr hsame)]
      · rw [if_pos ⟨hvalue, hrefused, fun h => hsame (htext.mp h)⟩, if_pos hsame]
        rfl

variable {row : Dict Json}

theorem explicitNull?_eq_none (h : explicitNull? row = none) :
    row.get? "validated_head_sha" ≠ some .null ∧ row.get? "inherited_from" ≠ some .null ∧
      row.get? "green_class" ≠ some .null := by
  rw [explicitNull?, List.find?_eq_none] at h
  exact ⟨fun heq => h "validated_head_sha" (by simp) (decide_eq_true heq),
    fun heq => h "inherited_from" (by simp) (decide_eq_true heq),
    fun heq => h "green_class" (by simp) (decide_eq_true heq)⟩

theorem derivedGreenClass_of_explicitNull {field : String} (commit : String)
    (h : explicitNull? row = some field) : derivedGreenClass (some commit) row.get? = none := by
  have hnull : row.get? field = some .null := by
    have hfound := List.find?_some h
    exact of_decide_eq_true hfound
  have hmem := List.mem_of_find?_eq_some h
  rw [derivedGreenClass, bind_some]
  split
  · rfl
  · simp only [List.mem_cons, List.not_mem_nil, or_false] at hmem
    rcases hmem with rfl | rfl | rfl
    · have hhead : headClass commit row.get? = none := by
        rw [headClass, hnull]
        rfl
      rw [hhead, bind_none]
    · have hhead : headClass commit row.get? = none := by
        rw [headClass, hnull]
        generalize (match row.get? "validated_head_sha" with
          | none => some commit
          | some value => value.asStr) = validated
        cases validated with
        | none => rfl
        | some validated =>
          rw [bind_some]
          split
          · rfl
          · rfl
      rw [hhead, bind_none]
    · rw [hnull]
      cases headClass commit row.get? with
      | none => rfl
      | some c =>
        rw [bind_some]
        exact if_pos (some_ne_none _).symm

def UnhashableDelta (commit : String) (row : Dict Json) : Prop :=
  explicitNull? row = none ∧ ∃ validated inherited,
    row.get? "validated_head_sha" = some (.str validated) ∧ validated ≠ commit ∧
      row.get? "inherited_from" = some inherited ∧ UnhashableKind inherited

def ExactHead (commit : String) (row : Dict Json) : Prop :=
  (row.get? "validated_head_sha" = none ∨ row.get? "validated_head_sha" = some (.str commit)) ∧
    row.get? "inherited_from" = none

theorem exactHead_spec (note : String) {inherited : Option Json} (hnull : inherited ≠ some .null) :
    (deriveFrom.exactHead note (inherited.getD .null)).1.granted =
      (if inherited.isSome then none else some .hard) ∧
    ((deriveFrom.exactHead note (inherited.getD .null)).1 = .hard → inherited = none) := by
  cases inherited with
  | none => exact ⟨rfl, fun _ => rfl⟩
  | some value =>
    have hvalue : value ≠ .null := fun h => hnull (congrArg some h)
    rw [deriveFrom.exactHead, getD_some, if_pos hvalue]
    exact ⟨rfl, nofun⟩

theorem deriveFrom_spec (commit : String) (hnull : explicitNull? row = none) :
    (UnhashableDelta commit row ∧ deriveFrom commit row = .error .typeError) ∨
    (¬ UnhashableDelta commit row ∧ ∃ out, deriveFrom commit row = .ok out ∧
      headClass commit row.get? = out.1.granted ∧ (out.1 = .hard → ExactHead commit row)) := by
  obtain ⟨-, hinherited, -⟩ := explicitNull?_eq_none hnull
  rw [deriveFrom, headClass, UnhashableDelta, ExactHead]
  cases hv : row.get? "validated_head_sha" with
  | none =>
    obtain ⟨hgranted, hhard⟩ :=
      exactHead_spec " (validated_head_sha absent; defaulted to commit)" hinherited
    refine Or.inr ⟨?_, _, rfl, ?_, fun h => ⟨Or.inl rfl, hhard h⟩⟩
    · rintro ⟨-, _, _, h, -⟩
      cases h
    · rw [hgranted, bind_some, if_pos rfl]
  | some value =>
    cases value with
    | str validated =>
      by_cases hsame : validated = commit
      · subst hsame
        obtain ⟨hgranted, hhard⟩ := exactHead_spec "" hinherited
        refine Or.inr ⟨?_, _, if_pos rfl, ?_, fun h => ⟨Or.inr rfl, hhard h⟩⟩
        · rintro ⟨-, _, _, h, hne, -⟩
          exact hne (Json.str.inj (some.inj h)).symm
        · rw [hgranted]
          exact if_pos rfl
      · have hdelta : (explicitNull? row = none ∧ ∃ v inherited,
            some (Json.str validated) = some (.str v) ∧ v ≠ commit ∧
            row.get? "inherited_from" = some inherited ∧ UnhashableKind inherited) ↔
            UnhashableKind ((row.get? "inherited_from").getD .null) := by
          constructor
          · rintro ⟨-, _, inherited, -, -, hget, hkind⟩
            rw [hget]
            exact hkind
          · intro hkind
            cases hget : row.get? "inherited_from" with
            | none =>
              rw [hget] at hkind
              obtain ⟨_, _, h, -⟩ := hkind
              cases h
            | some inherited =>
              rw [hget] at hkind
              exact ⟨hnull, validated, inherited, rfl, hsame, rfl, hkind⟩
        rw [hdelta]
        dsimp only
        rw [if_neg hsame]
        by_cases hkind : UnhashableKind ((row.get? "inherited_from").getD .null)
        · exact Or.inl ⟨hkind, classifyInherited_unhashable validated hkind⟩
        · obtain ⟨out, hout, hgranted, hhard⟩ := classifyInherited_ok validated hkind
          refine Or.inr ⟨hkind, out, hout, ?_, fun h => absurd h hhard⟩
          rw [← hgranted, asStr, bind_some, if_neg hsame]
          cases row.get? "inherited_from" <;> rfl
    | _ =>
      refine Or.inr ⟨?_, _, rfl, rfl, nofun⟩
      rintro ⟨-, _, _, h, -⟩
      cases h

theorem deriveClass_spec {commit : String} (hcommit : row.get? "commit" = some (.str commit))
    (hne : commit ≠ "") : ((commit ≠ "unknown" ∧ UnhashableDelta commit row) ∧
      deriveClass row = .error .typeError) ∨
    (¬ (commit ≠ "unknown" ∧ UnhashableDelta commit row) ∧ ∃ out, deriveClass row = .ok out ∧
      derivedGreenClass (some commit) row.get? = out.1.granted ∧
      (out.1 = .hard → ExactHead commit row)) := by
  rw [deriveClass, hcommit]
  dsimp only
  by_cases hunknown : commit = "unknown"
  · rw [if_pos (Or.inr hunknown)]
    refine Or.inr ⟨fun h => h.1 hunknown, _, rfl, ?_, nofun⟩
    rw [derivedGreenClass, bind_some, if_pos hunknown]
    rfl
  · rw [if_neg (not_or.mpr ⟨hne, hunknown⟩)]
    cases hnull : explicitNull? row with
    | some field =>
      refine Or.inr ⟨fun h => ?_, _, rfl, ?_, nofun⟩
      · have hnone := h.2.1
        rw [hnull] at hnone
        cases hnone
      · rw [derivedGreenClass_of_explicitNull commit hnull]
        rfl
    | none =>
      dsimp only
      obtain ⟨-, -, hlabel⟩ := explicitNull?_eq_none hnull
      rcases deriveFrom_spec commit hnull with ⟨hdelta, herr⟩ | ⟨hdelta, out, hout, hhead, hhard⟩
      · rw [herr]
        exact Or.inl ⟨⟨hunknown, hdelta⟩, rfl⟩
      · rw [hout]
        refine Or.inr ⟨fun h => hdelta h.2, _, rfl, ?_, fun h => ?_⟩
        · rw [derivedGreenClass, bind_some, if_neg hunknown, hhead, granted_checkLabel hlabel]
        · have hrefused : (checkLabel ((row.get? "green_class").getD .null) out).1 ≠ .refused := by
            rw [h]
            decide
          rw [checkLabel_ne_refused hrefused] at h
          exact hhard h

theorem deriveClass_agrees_iff {row : Dict Json} {commit : String}
    (hcommit : row.get? "commit" = some (.str commit)) (hne : commit ≠ "") :
    (∃ out, deriveClass row = .ok out ∧
      (∀ c, c ≠ .refused → (out.1 = c ↔ derivedGreenClass (some commit) row.get? = some c)) ∧
      (out.1 = .refused ↔ derivedGreenClass (some commit) row.get? = none) ∧
      (out.1 = .hard → ExactHead commit row)) ↔
    ¬ (commit ≠ "unknown" ∧ UnhashableDelta commit row) := by
  rcases deriveClass_spec hcommit hne with ⟨hraises, herror⟩ | ⟨hhashable, out, hout, hsame, hhard⟩
  · refine iff_of_false ?_ (not_not.mpr hraises)
    rintro ⟨out, hout, -⟩
    rw [herror] at hout
    cases hout
  · refine iff_of_true ⟨out, hout, fun c hc => ?_, ?_, hhard⟩ hhashable
    · rw [hsame]
      constructor
      · rintro rfl
        exact if_neg hc
      · exact granted_eq_some
    · rw [hsame, GreenClass.granted]
      constructor
      · exact fun h => if_pos h
      · intro h
        by_contra hrefused
        rw [if_neg hrefused] at h
        cases h

theorem engines_derive_one_class {L : Type} {python serde : L → Json} {row : Document L}
    {commit : String} (hnumbers : ∀ l ∈ row.literals, python l = serde l)
    (hcommit : (row.read python).get? "commit" = some (.str commit)) (hne : commit ≠ "") :
    (∃ out, deriveClass (row.read python) = .ok out ∧
      (∀ c, c ≠ .refused →
        (out.1 = c ↔ derivedGreenClass (some commit) (row.read serde).get? = some c)) ∧
      (out.1 = .refused ↔ derivedGreenClass (some commit) (row.read serde).get? = none) ∧
      (out.1 = .hard → ExactHead commit (row.read python))) ↔
    ¬ (commit ≠ "unknown" ∧ UnhashableDelta commit (row.read python)) := by
  rw [← Document.read_congr hnumbers]
  exact deriveClass_agrees_iff hcommit hne

def rebasedRow (kind commits : Json) : Dict Json :=
  Dict.empty.update [("commit", .str "b"), ("validated_head_sha", .str "a"),
    ("inherited_from", .obj [("delta_kind", kind), ("branch_commits", commits)])]

def rebasedDocument : Document Nat :=
  ⟨[0], fun numbers => rebasedRow (.str "rebase-only") (numbers.headD .null)⟩

def plainInteger (n : Nat) : Json := .int n

theorem rebased_row_derives_one_class :
    ∃ out, deriveClass (rebasedDocument.read plainInteger) = .ok out ∧
      (out.1 = .softRebaseOnly ↔
        derivedGreenClass (some "b") (rebasedDocument.read plainInteger).get? =
          some .softRebaseOnly) := by
  have hhashable : ¬ ("b" ≠ "unknown" ∧
      UnhashableDelta "b" (rebasedDocument.read plainInteger)) := by
    rintro ⟨-, -, validated, inherited, -, -, hget, hkind⟩
    have hinherited : inherited =
        .obj [("delta_kind", .str "rebase-only"), ("branch_commits", .int 0)] :=
      (Option.some.inj hget).symm
    obtain ⟨fields, kind, hobj, hlookup, hunhashable⟩ := hkind
    rw [hinherited] at hobj
    rw [← Json.obj.inj hobj] at hlookup
    rw [← Option.some.inj hlookup] at hunhashable
    cases hunhashable
  obtain ⟨out, hout, hclass, -⟩ :=
    (engines_derive_one_class (fun _ _ => rfl) rfl (by decide)).mpr hhashable
  exact ⟨out, hout, hclass .softRebaseOnly (by decide)⟩

theorem array_delta_kind_raises_in_one_engine :
    (deriveClass (rebasedRow (.arr []) (.int 0)) = .error .typeError ∧
      derivedGreenClass (some "b") (rebasedRow (.arr []) (.int 0)).get? = none) ∧
    (deriveClass (rebasedRow (.str "rebase-only") (.int 0))).map Prod.fst = .ok .softRebaseOnly ∧
      derivedGreenClass (some "b")
        (rebasedRow (.str "rebase-only") (.float "-0.0" 0)).get? = none := by
  exact ⟨⟨rfl, rfl⟩, rfl, rfl⟩

end DevHermit.Receipt
