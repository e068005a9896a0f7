import Mathlib

namespace DevHermit.Shmem.Migration

structure SchemaIdentity where
  version : UInt64
  fingerprintLow : UInt64
  fingerprintHigh : UInt64
  deriving DecidableEq, Repr

structure BackingIdentity where
  w0 : UInt64
  w1 : UInt64
  w2 : UInt64
  w3 : UInt64
  deriving DecidableEq, Repr

structure AuthorityIdentity where
  w0 : UInt64
  w1 : UInt64
  deriving DecidableEq, Repr

structure GenerationIdentity where
  schema : SchemaIdentity
  regionId : UInt64
  sequence : UInt64
  backing : BackingIdentity
  deriving DecidableEq, Repr

structure MigrationPlan where
  transactionId : UInt64
  source : GenerationIdentity
  target : GenerationIdentity
  targetAuthority : AuthorityIdentity
  deriving DecidableEq, Repr

inductive MigrationPhase where
  | uninitialized
  | initializing
  | copying
  | targetReady
  | committed
  | reclaimed
  | poisoned
  deriving DecidableEq, Repr

inductive MigrationError where
  | zeroSchemaVersion
  | zeroTransactionId
  | zeroRegionId
  | zeroGenerationSequence
  | zeroBackingIdentity
  | zeroAuthorityIdentity
  | reusedRegionId
  | reusedBackingIdentity
  | generationDidNotIncrease (source target : UInt64)
  | versionDidNotIncrease (source target : UInt64)
  | sourceNotDrained
  | sourcePlanMismatch (boundTransactionId suppliedTransactionId boundSourceTag suppliedSourceTag
      boundTargetTag suppliedTargetTag : UInt64) (boundAuthority suppliedAuthority : AuthorityIdentity)
      (transactionMatches sourceMatches targetMatches authorityMatches : Bool)
  | targetGenerationMismatch (expectedTag observedTag : UInt64)
  | targetAuthorityMismatch (expected observed : AuthorityIdentity)
  | targetAlreadyPublished
  | wrongPhase (expected actual : MigrationPhase)
  | corruptPhase (raw : UInt64)
  | corruptMetadata
  | transactionMismatch
  | noAuthoritativeGeneration (phase : MigrationPhase)
  deriving DecidableEq, Repr

def BackingIdentity.isZero (b : BackingIdentity) : Bool :=
  b.w0 == 0 && b.w1 == 0 && b.w2 == 0 && b.w3 == 0

def AuthorityIdentity.isZero (a : AuthorityIdentity) : Bool := a.w0 == 0 && a.w1 == 0

def SchemaIdentity.validate (s : SchemaIdentity) : Except MigrationError Unit :=
  if s.version = 0 then .error .zeroSchemaVersion else .ok ()

def GenerationIdentity.validate (g : GenerationIdentity) : Except MigrationError Unit := do
  g.schema.validate
  if g.regionId = 0 then throw .zeroRegionId
  if g.sequence = 0 then throw .zeroGenerationSequence
  if g.backing.isZero then throw .zeroBackingIdentity

def MigrationPlan.validate (plan : MigrationPlan) : Except MigrationError Unit := do
  plan.source.validate
  plan.target.validate
  if plan.transactionId = 0 then throw .zeroTransactionId
  if plan.targetAuthority.isZero then throw .zeroAuthorityIdentity
  if plan.source.regionId = plan.target.regionId then throw .reusedRegionId
  if plan.source.backing = plan.target.backing then throw .reusedBackingIdentity
  if plan.target.sequence ≤ plan.source.sequence then
    throw (.generationDidNotIncrease plan.source.sequence plan.target.sequence)
  if plan.target.schema.version ≤ plan.source.schema.version then
    throw (.versionDidNotIncrease plan.source.schema.version plan.target.schema.version)

def rotateLeft (state bits : UInt64) : UInt64 := (state <<< bits) ||| (state >>> (64 - bits))

def checksumMix (state value : UInt64) : UInt64 :=
  (rotateLeft state 17 + (value ^^^ 0xa0761d6478bd642f)) * 0xe7037ed1a0b428db

def GenerationIdentity.words (g : GenerationIdentity) : List UInt64 :=
  [g.schema.version, g.schema.fingerprintLow, g.schema.fingerprintHigh, g.regionId, g.sequence,
    g.backing.w0, g.backing.w1, g.backing.w2, g.backing.w3]

def checksumGeneration (state : UInt64) (generation : GenerationIdentity) : UInt64 :=
  generation.words.foldl checksumMix state

def generationTag (generation : GenerationIdentity) : UInt64 :=
  checksumGeneration 0xd6e8feb86659fd93 generation

def planChecksum (plan : MigrationPlan) : UInt64 :=
  let state := checksumMix 0x9e3779b97f4a7c15 plan.transactionId
  let state := checksumGeneration state plan.source
  let state := checksumGeneration state plan.target
  let state := checksumMix state plan.targetAuthority.w0
  checksumMix state plan.targetAuthority.w1

def sourcePlanMismatch (bound supplied : MigrationPlan) : MigrationError :=
  .sourcePlanMismatch bound.transactionId supplied.transactionId
    (generationTag bound.source) (generationTag supplied.source)
    (generationTag bound.target) (generationTag supplied.target)
    bound.targetAuthority supplied.targetAuthority
    (bound.transactionId == supplied.transactionId) (bound.source == supplied.source)
    (bound.target == supplied.target) (bound.targetAuthority == supplied.targetAuthority)

def MigrationPlan.words (plan : MigrationPlan) : List UInt64 :=
  plan.transactionId :: (plan.source.words ++ plan.target.words ++
    [plan.targetAuthority.w0, plan.targetAuthority.w1])

def MigrationPlan.record (plan : MigrationPlan) : List UInt64 := plan.words ++ [planChecksum plan]

def GenerationIdentity.ofWords (word : Nat → UInt64) (start : Nat) : GenerationIdentity where
  schema := ⟨word start, word (start + 1), word (start + 2)⟩
  regionId := word (start + 3)
  sequence := word (start + 4)
  backing := ⟨word (start + 5), word (start + 6), word (start + 7), word (start + 8)⟩

def MigrationPlan.ofWords (word : Nat → UInt64) : MigrationPlan where
  transactionId := word 0
  source := .ofWords word 1
  target := .ofWords word 10
  targetAuthority := ⟨word 19, word 20⟩

def recordLen : Nat := 22

def checkRecord (loaded : List UInt64) : Option MigrationPlan :=
  let plan := MigrationPlan.ofWords fun i => loaded.getD i 0
  match plan.validate with
  | .error _ => none
  | .ok () => if loaded.getD 21 0 ≠ planChecksum plan then none else some plan

theorem MigrationPlan.record_length (plan : MigrationPlan) : plan.record.length = recordLen := rfl

theorem MigrationPlan.ofWords_record (plan : MigrationPlan) :
    MigrationPlan.ofWords (fun i => plan.record.getD i 0) = plan := rfl

theorem checkRecord_record {plan : MigrationPlan} (h : plan.validate = .ok ()) :
    checkRecord plan.record = some plan := by
  have hc : plan.record.getD 21 0 = planChecksum plan := rfl
  simp only [checkRecord, MigrationPlan.ofWords_record, h, hc, ne_eq, not_true_eq_false, ↓reduceIte]

end DevHermit.Shmem.Migration
