import DevHermit.Shmem.Admission.Protocol
import DevHermit.Shmem.Snzi.Invariant

namespace DevHermit.Shmem.Admission

open Lib CounterTree Snzi

structure GateOk (gate : UInt64) (r k : Nat) : Prop where
  reserved : reservations gate = r
  checkers : k = if (flags gate).checking then 1 else 0
  checking : (flags gate).checking = true →
    (flags gate).closed = true ∧ (flags gate).drained = false ∧ r = 0
  drained : (flags gate).drained = true → flags gate = drainedFlags ∧ r = 0

namespace GateOk

variable {gate gate' : UInt64} {r k : Nat}

theorem of_view {f : Flags} {n : Nat} (hv : View gate f n)
    (hc : f.checking = true → f.closed = true ∧ f.drained = false ∧ n = 0)
    (hd : f.drained = true → f = drainedFlags ∧ n = 0) :
    GateOk gate n (if f.checking then 1 else 0) := by
  obtain ⟨rfl, rfl⟩ := hv
  exact ⟨rfl, rfl, hc, hd⟩

theorem terminal (h : GateOk gate r k) (hd : (flags gate).drained = true) :
    gate = terminalDrained := by
  obtain ⟨hf, hr⟩ := h.drained hd
  have hv : View gate drainedFlags 0 := ⟨hf, h.reserved.trans hr⟩
  exact hv.unique view_terminal

theorem reserve (h : GateOk gate r k) (hc : (flags gate).checking = false)
    (hd : (flags gate).drained = false) (hm : reservations gate ≠ maxReservations) :
    GateOk (gate + 1) (r + 1) k := by
  have hv := of_view (view_succ hm) (by simp [hc]) (by simp [hd])
  rwa [h.reserved, ← h.checkers] at hv

theorem release (h : GateOk gate (r + 1) k) : GateOk (gate - 1) r k := by
  have hne : reservations gate ≠ 0 := by
    rw [h.reserved]
    exact Nat.succ_ne_zero r
  have hv := of_view (view_pred hne) (fun hc => absurd (h.checking hc).2.2 (Nat.succ_ne_zero r))
    (fun hd => absurd (h.drained hd).2 (Nat.succ_ne_zero r))
  rwa [h.reserved, ← h.checkers] at hv

theorem poison (h : GateOk gate r k) (hd : (flags gate).drained = false) :
    GateOk (gate ||| poisonedBit) r k := by
  have hv := of_view view_poison
    (fun hc => h.reserved.symm ▸ h.checking hc) (fun hd' => absurd (hd.symm.trans hd') (by simp))
  rw [h.reserved] at hv
  rw [h.checkers]
  exact hv

theorem close (h : GateOk gate r k) : GateOk (gate ||| closedBit) r k := by
  have hv := of_view view_close (fun hc => ⟨rfl, h.reserved.symm ▸ (h.checking hc).2⟩) (fun hd => by
      obtain ⟨hf, hr⟩ := h.drained hd
      exact ⟨by rw [hf]; rfl, h.reserved.trans hr⟩)
  rw [h.reserved] at hv
  rw [h.checkers]
  exact hv

theorem check (h : GateOk closedBit r k) : GateOk (closedBit ||| checkingBit) r (k + 1) := by
  have hr : r = 0 := h.reserved.symm.trans view_closedBit.reservations
  have hk : k = 0 := by
    have := h.checkers
    rwa [view_closedBit.flags] at this
  subst hr hk
  exact of_view view_checking (fun _ => ⟨rfl, rfl, rfl⟩) nofun

theorem sealed (h : GateOk (closedBit ||| checkingBit) r (k + 1)) (quiescent : Bool) :
    GateOk (sealWord (closedBit ||| checkingBit) quiescent) r k := by
  have hr : r = 0 := h.reserved.symm.trans view_checking.reservations
  have hk : k = 0 := by
    have := h.checkers
    rw [view_checking.flags] at this
    exact Nat.succ.inj this
  subst hr hk
  cases quiescent with
  | true =>
    have hw : sealWord (closedBit ||| checkingBit) true = terminalDrained := by decide +kernel
    rw [hw]
    exact of_view view_terminal nofun fun _ => ⟨rfl, rfl⟩
  | false =>
    have hw : sealWord (closedBit ||| checkingBit) false = closedBit := by decide +kernel
    rw [hw]
    exact of_view view_closedBit nofun nofun

theorem checking_of_checker (h : GateOk gate r (k + 1)) : (flags gate).checking = true := by
  by_contra hc
  have := h.checkers
  rw [if_neg hc] at this
  omega

theorem restore (h : GateOk gate r (k + 1)) : GateOk (gate &&& ~~~ checkingBit) r k := by
  have hc := h.checking_of_checker
  have hk : k = 0 := by
    have := h.checkers
    rw [if_pos hc] at this
    exact Nat.succ.inj this
  have hv := of_view view_uncheck nofun fun hd =>
    absurd ((h.checking hc).2.1.symm.trans hd) (by simp)
  rw [h.reserved] at hv
  subst hk
  exact hv

theorem seal_failed (h : GateOk gate r (k + 1)) (hne : gate ≠ closedBit ||| checkingBit) :
    (flags gate).poisoned = true := by
  have hc := h.checking_of_checker
  obtain ⟨hclosed, hdrained, hr⟩ := h.checking hc
  by_contra hp
  rw [Bool.not_eq_true] at hp
  have hv : View gate checkingFlags 0 := ⟨Flags.ext hclosed hp hc hdrained, h.reserved.trans hr⟩
  exact hne (hv.unique view_checking)

end GateOk

structure Vacated (t : TreeSize) (m : Memory) : Prop where
  root : m.root = 0
  poison : m.poison = Snzi.poisonNone
  nodes : ∀ n, n < t.nodes → Snzi.stateIsHalf (m.nodes n) = false ∧ Snzi.stateCount (m.nodes n) = 0

def Ret.solid (t : TreeSize) : Ret → Claim → Nat
  | .entered token => unit (leafClaim t token.leaf)
  | _ => 0

def Pc.solid (t : TreeSize) : Pc → Claim → Nat
  | .entering _ pc => pc.solid t
  | .departing pc => pc.solid t
  | .departLoad token _ => unit (leafClaim t token.leaf)
  | .departCas token _ _ => unit (leafClaim t token.leaf)
  | .departPoison token => unit (leafClaim t token.leaf)
  | .releaseLoad ret => ret.solid t
  | .releaseCas ret _ => ret.solid t
  | .releasePoison ret => ret.solid t
  | .done ret => ret.solid t
  | _ => 0

def Pc.vowed : Pc → Claim → Nat
  | .entering _ pc => pc.vowed
  | .departing pc => pc.vowed
  | _ => 0

def Pc.reserved : Pc → Nat
  | .entering _ _ => 1
  | .enterPoison _ => 1
  | .departing _ => 1
  | .releaseLoad _ => 1
  | .releaseCas _ _ => 1
  | .releasePoison _ => 1
  | _ => 0

def Pc.checking : Pc → Nat
  | .drainScan _ _ => 1
  | .drainSeal _ _ => 1
  | .drainRestore => 1
  | _ => 0

def Scan.Clean (s : Snzi.Scan) : Prop :=
  s.activeNodes = 0 ∧ s.halfNodes = 0 ∧ s.invalidNodes = 0

def Idle (m : Memory) (k : Nat) : Prop :=
  ∀ n, n < k → Snzi.stateIsHalf (m.nodes n) = false ∧ Snzi.stateCount (m.nodes n) = 0

def ScanOk (t : TreeSize) (m : Memory) : Snzi.Pc → Prop
  | .scanNode index scan => index < t.nodes ∧ (Scan.Clean scan → Idle m index)
  | .scanRoot scan => Scan.Clean scan → Idle m t.nodes
  | .scanPoison scan root => (Scan.Clean scan → Idle m t.nodes) ∧ (root = 0 → m.root = 0)
  | .done (.quiescent answer) => answer = true → Vacated t m
  | _ => False

def QueryOk : Snzi.Pc → Prop
  | .queryRoot => True
  | .queryPoison => True
  | .done (.active _) => True
  | _ => False

def Ret.Ok (t : TreeSize) (sh : Shared) : Ret → Prop
  | .entered token => Issued t sh.mem token.leaf token.generation
  | .drained true => (flags sh.gate).drained = true
  | _ => True

def Pc.Ok (t : TreeSize) (sh : Shared) : Pc → Prop
  | .reserveCas _ state => (flags state).closed = false ∧ reservations state ≠ maxReservations
  | .entering _ pc => pc.Ok t sh.mem
  | .departing pc => pc.Ok t sh.mem
  | .departLoad token _ => Issued t sh.mem token.leaf token.generation
  | .departCas token _ state => Issued t sh.mem token.leaf token.generation ∧
      (flags state).drained = false ∧ (flags state).checking = false ∧
      reservations state ≠ maxReservations
  | .departPoison token => Issued t sh.mem token.leaf token.generation
  | .releaseLoad ret => ret.Ok t sh
  | .releaseCas ret _ => ret.Ok t sh
  | .releasePoison _ => False
  | .drainQuery gate pc => gate = closedBit ∧ QueryOk pc
  | .drainCas gate => gate = closedBit
  | .drainScan checking pc => checking = closedBit ||| checkingBit ∧ ScanOk t sh.mem pc
  | .drainSeal checking quiescent => checking = closedBit ||| checkingBit ∧
      (quiescent = true → Vacated t sh.mem)
  | .done ret => ret.Ok t sh
  | _ => True

section

variable {t : TreeSize} {sh sh' : Shared}

theorem token_valid {leaf : Nat} {generation : UInt64} {x : Claim}
    (hi : Issued t sh.mem leaf generation) (hx : unit (leafClaim t leaf) x ≠ 0) : x.Valid t.nodes :=
  Snzi.unit_valid (y := leafClaim t leaf) (Tree.leaf_node_lt hi.1) hx

theorem Ret.solid_valid {ret : Ret} {x : Claim} (hok : ret.Ok t sh) (h : ret.solid t x ≠ 0) :
    x.Valid t.nodes := by
  cases ret with
  | entered token => exact token_valid hok h
  | _ => exact absurd rfl h

theorem Pc.holds_valid {pc : Pc} {x : Claim} (hok : pc.Ok t sh)
    (h : pc.solid t x + pc.vowed x ≠ 0) : x.Valid t.nodes := by
  cases pc with
  | entering leaf inner | departing inner => exact Snzi.Pc.holds_valid hok h
  | departLoad token raw => exact token_valid hok h
  | departCas token raw state => exact token_valid hok.1 h
  | departPoison token => exact token_valid hok h
  | releaseLoad ret | releaseCas ret state | done ret => exact Ret.solid_valid hok h
  | releasePoison ret => exact False.elim hok
  | _ => exact absurd rfl h

theorem Ret.Ok.stable {ret : Ret} (h : ret.Ok t sh) (hs : Snzi.Stable sh.mem sh'.mem)
    (hd : (flags sh.gate).drained = true → (flags sh'.gate).drained = true)
    (hc : ∀ x, ret.solid t x ≠ 0 → Snzi.counts sh.mem (site Tree.parent x) ≠ 0) : ret.Ok t sh' := by
  cases ret with
  | entered token => exact Issued.stable h hs (hc _ (by simp [Ret.solid]))
  | drained answer =>
    cases answer with
    | true => exact hd h
    | false => trivial
  | _ => trivial

theorem Pc.Ok.stable {pc : Pc} (h : pc.Ok t sh) (hs : Snzi.Stable sh.mem sh'.mem)
    (hd : (flags sh.gate).drained = true → (flags sh'.gate).drained = true)
    (hm : pc.checking = 1 → sh'.mem = sh.mem) (hc : ∀ x, pc.solid t x + pc.vowed x ≠ 0 →
      Snzi.counts sh.mem (site Tree.parent x) ≠ 0) : pc.Ok t sh' := by
  cases pc with
  | entering leaf inner | departing inner => exact Snzi.Pc.Ok.stable h hs hc
  | departLoad token raw => exact Issued.stable h hs (hc _ (by simp [Pc.solid]))
  | departCas token raw state => exact ⟨Issued.stable h.1 hs (hc _ (by simp [Pc.solid])), h.2⟩
  | departPoison token => exact Issued.stable h hs (hc _ (by simp [Pc.solid]))
  | releaseLoad ret | releaseCas ret state | done ret => exact Ret.Ok.stable h hs hd hc
  | drainScan checking inner | drainSeal checking quiescent =>
    exact ⟨h.1, by rw [hm rfl]; exact h.2⟩
  | _ => exact h

end

structure Lawful (t : TreeSize) (R Q : Claim → Nat) (r k : Nat) (sh : Shared) (pc : Pc)
    (sh' : Shared) (pc' : Pc) : Prop where
  books : ∃ L M, Books t sh'.mem (R + L + pooled t sh'.tokens + pc'.solid t) (Q + M + pc'.vowed)
  gate : GateOk sh'.gate (r + pc'.reserved) (k + pc'.checking)
  ok : pc'.Ok t sh'
  tokens : ∀ token ∈ sh'.tokens, Issued t sh'.mem token.leaf token.generation
  stable : Snzi.Stable sh.mem sh'.mem
  still : pc.reserved = 0 → sh'.mem = sh.mem
  drained : (flags sh.gate).drained = true → (flags sh'.gate).drained = true
  vacated : (flags sh'.gate).drained = true → Vacated t sh'.mem

structure Before (t : TreeSize) (R Q : Claim → Nat) (r k : Nat) (sh : Shared) (pc : Pc) :
    Prop where
  books : Books t sh.mem (R + pooled t sh.tokens + pc.solid t) (Q + pc.vowed)
  gate : GateOk sh.gate (r + pc.reserved) (k + pc.checking)
  ok : pc.Ok t sh
  tokens : ∀ token ∈ sh.tokens, Issued t sh.mem token.leaf token.generation
  vacated : (flags sh.gate).drained = true → Vacated t sh.mem

variable {t : TreeSize} {R Q : Claim → Nat} {r k : Nat} {sh sh' : Shared} {pc pc' : Pc}

namespace Before

section

variable (h : Before t R Q r k sh pc)
include h

theorem undrained_of_reserved (hr : pc.reserved = 1) : (flags sh.gate).drained = false := by
  by_contra hd
  rw [Bool.not_eq_false] at hd
  have := (h.gate.drained hd).2
  omega

theorem undrained_of_token {token : Token} (hs : pc.solid t = unit (leafClaim t token.leaf))
    (hi : Issued t sh.mem token.leaf token.generation) : (flags sh.gate).drained = false := by
  by_contra hd
  rw [Bool.not_eq_false] at hd
  refine h.books.root_ne_zero (x := leafClaim t token.leaf) (Tree.leaf_node_lt hi.1) ?_
    (h.vacated hd).root
  rw [hs]
  simp

theorem drop (hs : pc'.solid t = 0) (hv : pc'.vowed = 0) :
    ∃ L M, Books t sh.mem (R + L + pooled t sh.tokens + pc'.solid t) (Q + M + pc'.vowed) := by
  refine ⟨pc.solid t, pc.vowed, ?_⟩
  rw [hs, hv, add_zero, add_zero, add_right_comm]
  exact h.books

theorem keep (hs : pc'.solid t = pc.solid t) (hv : pc'.vowed = pc.vowed) :
    ∃ L M, Books t sh.mem (R + L + pooled t sh.tokens + pc'.solid t) (Q + M + pc'.vowed) := by
  refine ⟨0, 0, ?_⟩
  rw [hs, hv, add_zero, add_zero]
  exact h.books

section

variable {gate : UInt64}
  (hb : ∃ L M, Books t sh.mem (R + L + pooled t sh.tokens + pc'.solid t) (Q + M + pc'.vowed))
include hb

theorem stay
    (hr : pc'.reserved = pc.reserved) (hk : pc'.checking = pc.checking) (hok : pc'.Ok t sh) :
    Lawful t R Q r k sh pc sh pc' where
  books := hb
  gate := by
    rw [hr, hk]
    exact h.gate
  ok := hok
  tokens := h.tokens
  stable := Snzi.Stable.refl _
  still := fun _ => rfl
  drained := id
  vacated := h.vacated

theorem regate (hg : GateOk gate (r + pc'.reserved) (k + pc'.checking))
    (hd : (flags sh.gate).drained = true → (flags gate).drained = true)
    (hv : (flags gate).drained = true → Vacated t sh.mem) (hok : pc'.Ok t (sh.setGate gate)) :
    Lawful t R Q r k sh pc (sh.setGate gate) pc' where
  books := hb
  gate := hg
  ok := hok
  tokens := h.tokens
  stable := Snzi.Stable.refl _
  still := fun _ => rfl
  drained := hd
  vacated := hv

end

end

end Before

end DevHermit.Shmem.Admission
