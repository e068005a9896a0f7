import Mathlib

namespace DevHermit.TestSelection

def star : UInt8 := 42

def question : UInt8 := 63

def slash : UInt8 := 47

def anySuffix (accepts : List UInt8 → Bool) : List UInt8 → Bool
  | [] => accepts []
  | c :: text => accepts (c :: text) || anySuffix accepts text

def anySegment (accepts : List UInt8 → Bool) : List UInt8 → Bool
  | [] => accepts []
  | c :: text => accepts (c :: text) || (c != slash && anySegment accepts text)

def globInner : List UInt8 → List UInt8 → Bool
  | [], text => text.isEmpty
  | c :: rest, text =>
    if c = star then
      match rest with
      | [] => anySegment (fun t => globInner [] t) text
      | d :: rest =>
        if d = star then
          match rest with
          | [] => anySuffix (fun t => globInner [] t) text
          | e :: rest =>
            if e = slash then anySuffix (fun t => globInner rest t) text
            else anySuffix (fun t => globInner (e :: rest) t) text
        else anySegment (fun t => globInner (d :: rest) t) text
    else
      match text with
      | [] => false
      | t :: text =>
        if c = question then t != slash && globInner rest text
        else c == t && globInner rest text

def globMatch (pattern text : String) : Bool :=
  globInner pattern.toUTF8.data.toList text.toUTF8.data.toList

def matchesAny (globs : List String) (file : String) : Bool :=
  globs.any fun g => globMatch g file

inductive Action where
  | full
  | irrelevant
  | steps (ids : List String)
  deriving DecidableEq, Repr

structure Rule where
  globs : List String
  action : Action
  why : String
  deriving DecidableEq, Repr

def kvmSteps : List String :=
  ["privileged:e2e.manifest_backend_parity_c", "privileged:e2e.manifest_applications"]

def dbiSteps : List String :=
  ["portable:test.dbi_parity", "portable:e2e.manifest_backend_parity_c"]

def sabreSteps : List String :=
  ["portable:test.sabre_examples", "portable:e2e.manifest_backend_parity_c"]

def liteinstSteps : List String :=
  ["portable:test.liteinst_strict", "portable:build.liteinst_runtime_release",
    "portable:e2e.manifest_backend_parity_c"]

def e9patchSteps : List String :=
  ["portable:e2e.manifest_backend_parity_c", "privileged:e2e.manifest_backend_parity_c"]

def preflight : List String :=
  ["portable:lint.rustfmt", "portable:check.backend_abstraction",
    "portable:check.portability_paths"]

def rules : List Rule :=
  [⟨["Cargo.toml", "Cargo.lock", "rust-toolchain.toml", ".cargo/**", "ci/**", "validate.sh",
      "scripts/lib/**", ".github/workflows/ci-portable.yml",
      ".github/workflows/ci-privileged.yml", ".github/workflows/merge-gate.yml"], .full,
      "build/CI machinery — can invalidate any node"⟩,
    ⟨["**/*.md", "docs/**", "ai_docs/**", "experiments/**", "LICENSE", "CODEOWNERS",
      ".gitignore", "**/.gitignore", ".gitattributes", ".editorconfig", "**/*.png", "**/*.svg",
      "**/*.jpg"], .irrelevant, "docs/notes — CI-irrelevant"⟩,
    ⟨["reverie/reverie-kvm/**"], .steps kvmSteps,
      "reverie-kvm backend crate -> KVM (privileged) steps only"⟩,
    ⟨["reverie/reverie-dbi/**", "detcore-dbi/**"], .steps dbiSteps,
      "DBI backend crate/dir -> DBI steps only"⟩,
    ⟨["reverie/reverie-liteinst/**"], .steps liteinstSteps,
      "reverie-liteinst backend crate -> LiteInst steps only"⟩,
    ⟨["reverie/reverie-e9patch/**"], .steps e9patchSteps,
      "reverie-e9patch preprocessing -> backend-parity steps only"⟩,
    ⟨["detcore-sabre/**"], .steps sabreSteps, "detcore-sabre backend dir -> SaBRe steps only"⟩,
    ⟨["reverie/**"], .full, "reverie CORE — depended on by all of Hermit"⟩]

def firstRule (path : String) : Option Rule :=
  rules.find? fun r => matchesAny r.globs path

def classify (path : String) : Action × String :=
  match firstRule path with
  | some r => (r.action, r.why)
  | none => (.full, "unmapped path — conservative full")

theorem firstRule_steps_ne_nil {path : String} {r : Rule} {ids : List String}
    (h : firstRule path = some r) (ha : r.action = .steps ids) : ids ≠ [] := by
  have hall : ∀ r ∈ rules, r.action ≠ .steps [] := by decide
  have hr := hall r (List.mem_of_find?_eq_some h)
  rintro rfl
  exact hr ha

example : (classify "reverie/reverie-kvm/src/lib.rs").1 = .steps kvmSteps := by decide +kernel

example : (classify "detcore/src/scheduler.rs").1 = .full := by decide +kernel

end DevHermit.TestSelection
