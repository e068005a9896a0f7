import DevHermit.Shmem.Admission.Holdings

namespace DevHermit.Shmem.Admission

open Lib CounterTree Snzi

variable {t : TreeSize} {R Q : Claim → Nat} {r k : Nat} {sh sh' : Shared} {pc pc' : Pc} {leaf : Nat}

theorem Before.settle (h : Before t R Q r k sh pc) {claims : Claim → Nat}
    (hs : pc.solid t = claims) (hv : pc.vowed = 0) (hr : pc.reserved = 0) (hk : pc.checking = 0)
    (hs' : pc'.solid t = claims) (hv' : pc'.vowed = 0) (hr' : pc'.reserved = 0)
    (hk' : pc'.checking = 0) (hok : pc'.Ok t sh) : Lawful t R Q r k sh pc sh pc' :=
  h.stay (h.keep (hs'.trans hs.symm) (hv'.trans hv.symm)) (hr'.trans hr.symm) (hk'.trans hk.symm)
    hok

theorem reserveDecide_lawful (h : Before t R Q r k sh pc) (hs : pc.solid t = 0) (hv : pc.vowed = 0)
    (hr : pc.reserved = 0) (hk : pc.checking = 0) :
    Lawful t R Q r k sh pc sh (reserveDecide leaf sh.gate) := by
  have hstay {pc' : Pc} := @Before.settle _ _ _ _ _ _ _ pc' h _ hs hv hr hk
  rw [reserveDecide]
  split_ifs with hc hp hm
  · exact hstay rfl rfl rfl rfl trivial
  · exact hstay rfl rfl rfl rfl trivial
  · exact hstay rfl rfl rfl rfl trivial
  · exact hstay rfl rfl rfl rfl ⟨not_closed_iff.mpr (not_not.mp hc), fun he => hm (full_iff.mpr he)⟩

variable {token : Token} {raw : Bool}

theorem reserveDepartureDecide_lawful (h : Before t R Q r k sh pc)
    (hs : pc.solid t = unit (leafClaim t token.leaf)) (hv : pc.vowed = 0) (hr : pc.reserved = 0)
    (hk : pc.checking = 0) (hi : Issued t sh.mem token.leaf token.generation) :
    Lawful t R Q r k sh pc sh (reserveDepartureDecide token raw sh.gate) := by
  have hstay {pc' : Pc} := @Before.settle _ _ _ _ _ _ _ pc' h _ hs hv hr hk
  have hlose : ∀ e, Lawful t R Q r k sh pc sh (.done (.departFailed e)) := fun e =>
    h.stay (h.drop rfl rfl) hr.symm hk.symm trivial
  rw [reserveDepartureDecide]
  split_ifs with hp hd hc hm
  · exact hlose _
  · exact hlose _
  · exact hstay rfl rfl rfl rfl hi
  · exact hstay rfl rfl rfl rfl hi
  · refine hstay rfl rfl rfl rfl ⟨hi, ?_, ?_, fun he => hm (full_iff.mpr he)⟩
    · exact not_drained_iff.mpr (not_not.mp hd)
    · exact bne_eq_false_iff_eq.mpr (not_not.mp hc)

variable {ret : Ret}

theorem releaseDecide_lawful (h : Before t R Q r k sh pc) (hs : pc.solid t = ret.solid t)
    (hv : pc.vowed = 0) (hr : pc.reserved = 1) (hk : pc.checking = 0) (hok : ret.Ok t sh) :
    Lawful t R Q r k sh pc sh (releaseDecide ret sh.gate) := by
  have hne : ¬ sh.gate &&& reservationMask = 0 := by
    rw [empty_iff, h.gate.reserved]
    omega
  rw [releaseDecide, if_neg hne]
  exact h.stay (h.keep hs.symm hv.symm) hr.symm hk.symm hok

theorem drainDecide_lawful (h : Before t R Q r k sh pc) (hs : pc.solid t = 0)
    (hv : pc.vowed = 0) (hr : pc.reserved = 0) (hk : pc.checking = 0) :
    Lawful t R Q r k sh pc sh (drainDecide sh.gate) := by
  have hstay {pc' : Pc} := @Before.settle _ _ _ _ _ _ _ pc' h _ hs hv hr hk
  rw [drainDecide]
  split_ifs with hd hb
  · refine hstay rfl rfl rfl rfl ?_
    by_cases ht : sh.gate = terminalDrained
    · rw [decide_eq_true ht]
      exact drained_iff.mpr hd
    · rw [decide_eq_false ht]
      trivial
  · exact hstay rfl rfl rfl rfl trivial
  · refine hstay rfl rfl rfl rfl ⟨?_, trivial⟩
    rw [not_or, not_not, not_not] at hb
    have hf := congrArg flags hb.1
    have hmask : flags (closedBit ||| poisonedBit ||| checkingBit) = ⟨true, true, true, false⟩ := by
      decide +kernel
    rw [flags_and, hmask, view_closedBit.flags, closedIdle, Flags.mk.injEq] at hf
    simp only [Bool.and_true, Bool.and_false, and_true] at hf
    refine View.unique ⟨Flags.ext hf.1 hf.2.1 hf.2.2 ?_, empty_iff.mp hb.2⟩ view_closedBit
    exact not_drained_iff.mpr (not_not.mp hd)

variable {inner : Snzi.Pc} {wrap : Snzi.Pc → Pc}

theorem nested_cases {finish : Snzi.Ret → Option Pc}
    (h : nested t sh inner wrap finish = some (sh', pc')) :
    (∃ ret, inner = .done ret ∧ finish ret = some pc' ∧ sh' = sh) ∨
      ∃ m' inner', Snzi.advance t sh.mem inner = some (m', inner') ∧
        sh' = { sh with mem := m' } ∧ pc' = wrap inner' := by
  by_cases hd : ∃ ret, inner = .done ret
  · obtain ⟨ret, rfl⟩ := hd
    rw [nested, Option.map_eq_some_iff] at h
    obtain ⟨pc₁, hf, he⟩ := h
    cases he
    exact .inl ⟨ret, rfl, hf, rfl⟩
  · have hn : nested t sh inner wrap finish =
        (Snzi.advance t sh.mem inner).map fun r => ({ sh with mem := r.1 }, wrap r.2) := by
      cases inner with
      | done ret => exact absurd ⟨ret, rfl⟩ hd
      | _ => rfl
    rw [hn, Option.map_eq_some_iff] at h
    obtain ⟨⟨m', inner'⟩, ha, he⟩ := h
    cases he
    exact .inr ⟨m', inner', ha, rfl, rfl⟩

-- A nested tree operation runs under a reservation, so nothing is sealed while it moves memory.
variable {inner' : Snzi.Pc} {m' : Memory}

theorem nested_lawful (h : Before t R Q r k sh (wrap inner))
    (hs : ∀ i, (wrap i).solid t = i.solid t) (hv : ∀ i, (wrap i).vowed = i.vowed)
    (hr : ∀ i, (wrap i).reserved = 1) (hk : ∀ i, (wrap i).checking = 0)
    (hok : ∀ i sh, (wrap i).Ok t sh ↔ i.Ok t sh.mem)
    (ha : Snzi.advance t sh.mem inner = some (m', inner')) :
    Lawful t R Q r k sh (wrap inner) { sh with mem := m' } (wrap inner') := by
  have hb := h.books
  rw [hs, hv] at hb
  obtain ⟨⟨L, M, hb', -⟩, hok', hst⟩ := Snzi.advance_lawful hb ((hok inner sh).mp h.ok) ha
  have hund := h.undrained_of_reserved (hr inner)
  refine ⟨⟨L, M, ?_⟩, ?_, (hok inner' _).mpr hok', fun token ht => ?_, hst, fun hz => ?_, id,
    fun hd => absurd (hund.symm.trans hd) (by simp)⟩
  · rw [hs, hv, add_right_comm R L]
    exact hb'
  · rw [hr, hk]
    have hg := h.gate
    rwa [hr, hk] at hg
  · refine (h.tokens token ht).stable hst ?_
    have ha := h.books.active_of_solid (x := leafClaim t token.leaf)
      (Tree.leaf_node_lt (h.tokens token ht).1) rfl (by
        rw [Snzi.pooled_erase t ht]
        simp only [Pi.add_apply, unit_self]
        omega)
    exact fun hz => (Snzi.isActive_iff.mp ha).2 (Snzi.virtual_eq_zero.mp hz).2
  · rw [hr] at hz
    cases hz

theorem entering_lawful (h : Before t R Q r k sh (.entering leaf inner))
    (hstep : nested t sh inner (.entering leaf) arrived = some (sh', pc')) :
    Lawful t R Q r k sh (.entering leaf inner) sh' pc' := by
  rcases nested_cases hstep with ⟨ret, rfl, hf, rfl⟩ | ⟨m', inner', ha, rfl, rfl⟩
  · have hok := h.ok
    cases ret with
    | arrived token =>
      obtain rfl := Option.some.inj hf
      exact h.stay (h.keep rfl rfl) rfl rfl hok
    | error kind e =>
      cases e with
      | poisoned reason =>
        obtain rfl := Option.some.inj hf
        exact h.stay (h.keep rfl rfl) rfl rfl trivial
      | _ =>
        obtain rfl := Option.some.inj hf
        exact h.stay (h.keep rfl rfl) rfl rfl trivial
    | _ => cases hf
  · exact nested_lawful h (fun _ => rfl) (fun _ => rfl) (fun _ => rfl) (fun _ => rfl)
      (fun _ _ => Iff.rfl) ha

theorem departing_lawful (h : Before t R Q r k sh (.departing inner))
    (hstep : nested t sh inner .departing departed = some (sh', pc')) :
    Lawful t R Q r k sh (.departing inner) sh' pc' := by
  rcases nested_cases hstep with ⟨ret, rfl, hf, rfl⟩ | ⟨m', inner', ha, rfl, rfl⟩
  · cases ret with
    | departed | error kind e =>
      obtain rfl := Option.some.inj hf
      exact h.stay (h.keep rfl rfl) rfl rfl trivial
    | _ => cases hf
  · exact nested_lawful h (fun _ => rfl) (fun _ => rfl) (fun _ => rfl) (fun _ => rfl)
      (fun _ _ => Iff.rfl) ha

theorem query_advance {m : Memory} (hq : QueryOk inner)
    (h : Snzi.advance t m inner = some (m', inner')) : m' = m ∧ QueryOk inner' := by
  cases inner with
  | queryRoot =>
    cases h
    split_ifs <;> exact ⟨rfl, trivial⟩
  | queryPoison =>
    cases h
    exact ⟨rfl, trivial⟩
  | done ret => cases h
  | _ => exact False.elim hq

theorem drainQuery_lawful {gate : UInt64} (h : Before t R Q r k sh (.drainQuery gate inner))
    (hstep : nested t sh inner (.drainQuery gate) (queried gate) = some (sh', pc')) :
    Lawful t R Q r k sh (.drainQuery gate inner) sh' pc' := by
  obtain ⟨hgate, hq⟩ := h.ok
  rcases nested_cases hstep with ⟨ret, rfl, hf, rfl⟩ | ⟨m', inner', ha, rfl, rfl⟩
  · cases ret with
    | active answer =>
      obtain rfl := Option.some.inj hf
      cases answer with
      | true => exact h.stay (h.keep rfl rfl) rfl rfl trivial
      | false => exact h.stay (h.keep rfl rfl) rfl rfl hgate
    | _ => exact False.elim hq
  · obtain ⟨rfl, hq'⟩ := query_advance hq ha
    exact h.stay (h.keep rfl rfl) rfl rfl ⟨hgate, hq'⟩

theorem Scan.clean_of_visit {s : Snzi.Scan} {state : UInt64} (h : Clean (s.visit state)) :
    Clean s ∧ Snzi.stateIsHalf state = false ∧ Snzi.stateCount state = 0 := by
  rw [Snzi.Scan.visit] at h
  split_ifs at h with hh hc hc
  · exact absurd h.2.1 (Nat.succ_ne_zero _)
  · exact absurd h.2.1 (Nat.succ_ne_zero _)
  · exact absurd h.1 (Nat.succ_ne_zero _)
  · exact ⟨h, by simpa using hh, by simpa using hc⟩

theorem scan_advance {m m' : Memory} {inner inner' : Snzi.Pc} (hs : ScanOk t m inner)
    (h : Snzi.advance t m inner = some (m', inner')) : m' = m ∧ ScanOk t m inner' := by
  cases inner with
  | scanNode index scan =>
    cases h
    obtain ⟨hlt, hidle⟩ := hs
    have hnext : Scan.Clean (scan.visit (m.nodes index)) → Idle m (index + 1) := by
      intro hc n hn
      obtain ⟨hscan, hnode⟩ := Scan.clean_of_visit hc
      by_cases he : n = index
      · exact he ▸ hnode
      · exact hidle hscan n (by omega)
    split_ifs with hmore
    · exact ⟨rfl, hmore, hnext⟩
    · have heq : index + 1 = t.nodes := by omega
      exact ⟨rfl, fun hc => heq ▸ hnext hc⟩
  | scanRoot scan =>
    cases h
    exact ⟨rfl, hs, id⟩
  | scanPoison scan root =>
    cases h
    refine ⟨rfl, fun hq => ?_⟩
    simp only [Snzi.SnziSnapshot.isQuiescent, Snzi.Scan.snapshot, Bool.and_eq_true,
      beq_iff_eq, Option.isNone_iff_eq_none] at hq
    obtain ⟨⟨⟨⟨hroot, hactive⟩, hhalf⟩, hinvalid⟩, hpoison⟩ := hq
    exact ⟨hs.2 hroot, Snzi.PoisonReason.fromCode_eq_none.mp hpoison,
      hs.1 ⟨hactive, hhalf, hinvalid⟩⟩
  | done ret => cases h
  | _ => exact False.elim hs

theorem drainScan_lawful {checking : UInt64} (h : Before t R Q r k sh (.drainScan checking inner))
    (hstep : nested t sh inner (.drainScan checking) (scanned checking) = some (sh', pc')) :
    Lawful t R Q r k sh (.drainScan checking inner) sh' pc' := by
  obtain ⟨hgate, hs⟩ := h.ok
  rcases nested_cases hstep with ⟨ret, rfl, hf, rfl⟩ | ⟨m', inner', ha, rfl, rfl⟩
  · cases ret with
    | quiescent answer =>
      obtain rfl := Option.some.inj hf
      exact h.stay (h.keep rfl rfl) rfl rfl ⟨hgate, hs⟩
    | _ => exact False.elim hs
  · obtain ⟨rfl, hs'⟩ := scan_advance hs ha
    exact h.stay (h.keep rfl rfl) rfl rfl ⟨hgate, hs'⟩

def Calm (sh : Shared) (pc : Pc) : Prop :=
  pc = .reservePoison → sh.gate &&& drainedBit = 0

theorem poison_lawful (h : Before t R Q r k sh pc) (hd : (flags sh.gate).drained = false)
    (hb : ∃ L M, Books t sh.mem (R + L + pooled t sh.tokens + pc'.solid t) (Q + M + pc'.vowed))
    (hr : pc'.reserved = pc.reserved) (hk : pc'.checking = pc.checking)
    (hok : pc'.Ok t (sh.setGate (sh.gate ||| poisonedBit))) :
    Lawful t R Q r k sh pc (sh.setGate (sh.gate ||| poisonedBit)) pc' := by
  have hflag : (flags (sh.gate ||| poisonedBit)).drained = false := by
    rw [view_poison.flags]
    exact hd
  refine h.regate hb ?_ (fun hd' => absurd (hd.symm.trans hd') (by simp))
    (fun hd' => absurd (hflag.symm.trans hd') (by simp)) hok
  rw [hr, hk]
  exact h.gate.poison hd

theorem reserve_lawful (h : Before t R Q r k sh pc) (hr : pc.reserved = 0)
    (hk : pc.checking = 0) (hc : (flags sh.gate).checking = false)
    (hd : (flags sh.gate).drained = false) (hm : reservations sh.gate ≠ maxReservations)
    (hb : ∃ L M, Books t sh.mem (R + L + pooled t sh.tokens + pc'.solid t) (Q + M + pc'.vowed))
    (hr' : pc'.reserved = 1) (hk' : pc'.checking = 0) (hok : pc'.Ok t (sh.setGate (sh.gate + 1))) :
    Lawful t R Q r k sh pc (sh.setGate (sh.gate + 1)) pc' := by
  have hg := h.gate
  rw [hr, hk] at hg
  have hg' := hg.reserve hc hd hm
  have hflag : (flags (sh.gate + 1)).drained = false := by
    rw [(view_succ hm).flags]
    exact hd
  refine h.regate hb ?_ (fun hd' => absurd (hd.symm.trans hd') (by simp))
    (fun hd' => absurd (hflag.symm.trans hd') (by simp)) hok
  rw [hr', hk']
  exact hg'

theorem reserveCas_lawful (h : Before t R Q r k sh (.reserveCas leaf sh.gate)) :
    Lawful t R Q r k sh (.reserveCas leaf sh.gate) (sh.setGate (sh.gate + 1))
      (.entering leaf (Snzi.arriveStart t leaf)) := by
  obtain ⟨hclosed, hm⟩ := h.ok
  have hc : (flags sh.gate).checking = false := by
    by_contra hc
    rw [Bool.not_eq_false] at hc
    exact absurd ((h.gate.checking hc).1.symm.trans hclosed) (by simp)
  have hd : (flags sh.gate).drained = false := by
    by_contra hd
    rw [Bool.not_eq_false] at hd
    rw [(h.gate.drained hd).1] at hclosed
    cases hclosed
  have hstart : (Snzi.arriveStart t leaf).solid t = 0 ∧ (Snzi.arriveStart t leaf).vowed = 0 ∧
      (Snzi.arriveStart t leaf).Ok t sh.mem := by
    rw [Snzi.arriveStart, Snzi.leafNode]
    by_cases hl : Tree.layoutLeafCount t.nodes ≤ leaf
    · rw [if_pos hl]
      exact ⟨rfl, rfl, trivial⟩
    · rw [if_neg hl]
      exact ⟨rfl, rfl, Nat.not_le.mp hl⟩
  exact reserve_lawful h rfl rfl hc hd hm (h.keep hstart.1 hstart.2.1) rfl rfl hstart.2.2

theorem token_generation (hb : Books t sh.mem R Q)
    (hi : Issued t sh.mem token.leaf token.generation) (hne : R (leafClaim t token.leaf) ≠ 0) :
    decodeRaw token.intoRaw = some token := by
  obtain ⟨hl, hg⟩ := hi
  have ha := hb.active_of_solid (x := leafClaim t token.leaf) (Tree.leaf_node_lt hl) rfl hne
  refine decodeRaw_intoRaw (hl.trans_le (Tree.layoutLeafCount_le t.nodes)) ?_ ?_
  · rw [← hg]
    exact Snzi.stateGeneration_lt _
  · rw [← hg]
    exact (hb.valid _).generation (.inr (Snzi.isActive_iff.mp ha).2)

theorem departCas_lawful (h : Before t R Q r k sh (.departCas token raw sh.gate)) :
    Lawful t R Q r k sh (.departCas token raw sh.gate) (sh.setGate (sh.gate + 1))
      (.departing (if raw then Snzi.departRawStart t token.intoRaw
        else Snzi.departToken t token)) := by
  obtain ⟨hi, hd, hc, hm⟩ := h.ok
  have hleaf : Snzi.departToken t token = .departHealthy token.leaf token.generation := by
    rw [Snzi.departToken, Snzi.leafNode, if_neg (Nat.not_le.mpr hi.1)]
  have hraw : Snzi.departRawStart t token.intoRaw = Snzi.departToken t token := by
    rw [Snzi.departRawStart, token_generation h.books hi (by simp [Pc.solid])]
  have hstart : (if raw then Snzi.departRawStart t token.intoRaw else Snzi.departToken t token) =
      .departHealthy token.leaf token.generation := by
    rw [hraw, ite_self, hleaf]
  rw [hstart]
  exact reserve_lawful h rfl rfl hc hd hm (h.keep rfl rfl) rfl rfl hi

theorem releaseCas_lawful (h : Before t R Q r k sh (.releaseCas ret sh.gate)) :
    Lawful t R Q r k sh (.releaseCas ret sh.gate) (sh.setGate (sh.gate - 1)) (.done ret) := by
  have hd := h.undrained_of_reserved rfl
  have hne : reservations sh.gate ≠ 0 := by
    rw [h.gate.reserved]
    exact Nat.succ_ne_zero r
  have hflag : (flags (sh.gate - 1)).drained = false := by
    rw [(view_pred hne).flags]
    exact hd
  refine h.regate (h.keep rfl rfl) h.gate.release (fun hd' => absurd (hd.symm.trans hd') (by simp))
    (fun hd' => absurd (hflag.symm.trans hd') (by simp)) ?_
  have hok := h.ok
  cases ret with
  | entered token => exact hok
  | drained answer =>
    cases answer with
    | true => exact absurd (hd.symm.trans hok) (by simp)
    | false => trivial
  | _ => trivial

theorem drainCas_lawful (h : Before t R Q r k sh (.drainCas sh.gate)) :
    Lawful t R Q r k sh (.drainCas sh.gate) (sh.setGate (sh.gate ||| checkingBit))
      (.drainScan (sh.gate ||| checkingBit) Snzi.scanStart) := by
  have hgate : sh.gate = closedBit := h.ok
  have hg : GateOk sh.gate r k := h.gate
  have hg' : GateOk (sh.gate ||| checkingBit) r (k + 1) := by
    rw [hgate] at hg ⊢
    exact hg.check
  have hold : (flags sh.gate).drained = false := by
    rw [hgate, view_closedBit.flags]
    rfl
  have hnew : (flags (sh.gate ||| checkingBit)).drained = false := by
    rw [hgate, view_checking.flags]
    rfl
  refine h.regate (h.keep rfl rfl) hg' (fun hd => absurd (hold.symm.trans hd) (by simp))
    (fun hd => absurd (hnew.symm.trans hd) (by simp)) ⟨by rw [hgate], t.nodes_pos, ?_⟩
  intro _ n hn
  exact absurd hn (Nat.not_lt_zero n)

theorem drainSeal_lawful {quiescent : Bool}
    (h : Before t R Q r k sh (.drainSeal sh.gate quiescent)) :
    Lawful t R Q r k sh (.drainSeal sh.gate quiescent) (sh.setGate (sealWord sh.gate quiescent))
      (.done (.drained quiescent)) := by
  obtain ⟨hgate, hq⟩ := h.ok
  have hg : GateOk sh.gate r (k + 1) := h.gate
  have hg' : GateOk (sealWord sh.gate quiescent) r k := by
    rw [hgate] at hg ⊢
    exact hg.sealed quiescent
  have hold : (flags sh.gate).drained = false := by
    rw [hgate, view_checking.flags]
    rfl
  have hnew : (flags (sealWord sh.gate quiescent)).drained = quiescent := by
    rw [hgate]
    cases quiescent <;> decide +kernel
  refine h.regate (h.keep rfl rfl) hg' (fun hd => absurd (hold.symm.trans hd) (by simp))
    (fun hd => hq (hnew.symm.trans hd)) ?_
  cases quiescent with
  | true => exact hnew
  | false => trivial

theorem drainRestore_lawful (h : Before t R Q r k sh .drainRestore) :
    Lawful t R Q r k sh .drainRestore (sh.setGate (sh.gate &&& ~~~ checkingBit))
      (.done (.drained false)) := by
  have hd := (h.gate.checking h.gate.checking_of_checker).2.1
  have hflag : (flags (sh.gate &&& ~~~ checkingBit)).drained = false := by
    rw [view_uncheck.flags]
    exact hd
  exact h.regate (h.keep rfl rfl) h.gate.restore (fun hd' => absurd (hd.symm.trans hd') (by simp))
    (fun hd' => absurd (hflag.symm.trans hd') (by simp)) trivial

theorem closeOr_lawful (h : Before t R Q r k sh .closeOr) :
    Lawful t R Q r k sh .closeOr (sh.setGate (sh.gate ||| closedBit))
      (.done (.closed (sh.gate &&& closedBit == 0))) := by
  have hflag : (flags (sh.gate ||| closedBit)).drained = (flags sh.gate).drained := by
    rw [view_close.flags]
  exact h.regate (h.keep rfl rfl) h.gate.close (fun hd => hflag.trans hd)
    (fun hd => h.vacated (hflag.symm.trans hd)) trivial

theorem advance_lawful {weak : Bool} (h : Before t R Q r k sh pc) (hcalm : Calm sh pc)
    (hstep : advance t sh weak pc = some (sh', pc')) : Lawful t R Q r k sh pc sh' pc' := by
  cases pc with
  | idle | done ret => cases hstep
  | reserveLoad leaf =>
    cases hstep
    exact reserveDecide_lawful h rfl rfl rfl rfl
  | reserveCas leaf state =>
    rw [advance] at hstep
    split_ifs at hstep with hcas <;> cases hstep
    · obtain ⟨-, rfl⟩ := hcas
      exact reserveCas_lawful h
    · exact reserveDecide_lawful h rfl rfl rfl rfl
  | reservePoison =>
    cases hstep
    exact poison_lawful h (not_drained_iff.mpr (hcalm rfl)) (h.keep rfl rfl) rfl rfl trivial
  | entering leaf inner => exact entering_lawful h hstep
  | enterPoison e =>
    cases hstep
    exact poison_lawful h (h.undrained_of_reserved rfl) (h.keep rfl rfl) rfl rfl trivial
  | departLoad token raw =>
    cases hstep
    exact reserveDepartureDecide_lawful h rfl rfl rfl rfl h.ok
  | departCas token raw state =>
    rw [advance] at hstep
    by_cases hcas : weak = false ∧ sh.gate = state
    · rw [if_pos hcas] at hstep
      cases hstep
      obtain ⟨-, rfl⟩ := hcas
      exact departCas_lawful h
    · rw [if_neg hcas] at hstep
      cases hstep
      exact reserveDepartureDecide_lawful h rfl rfl rfl rfl h.ok.1
  | departPoison token =>
    cases hstep
    exact poison_lawful h (h.undrained_of_token rfl h.ok) (h.drop rfl rfl) rfl rfl trivial
  | departing inner => exact departing_lawful h hstep
  | releaseLoad ret =>
    cases hstep
    exact releaseDecide_lawful h rfl rfl rfl rfl h.ok
  | releaseCas ret state =>
    rw [advance] at hstep
    split_ifs at hstep with hcas <;> cases hstep
    · obtain ⟨-, rfl⟩ := hcas
      exact releaseCas_lawful h
    · exact releaseDecide_lawful h rfl rfl rfl rfl h.ok
  | releasePoison ret => exact False.elim h.ok
  | closeOr =>
    cases hstep
    exact closeOr_lawful h
  | drainLoad =>
    cases hstep
    exact drainDecide_lawful h rfl rfl rfl rfl
  | drainQuery gate inner => exact drainQuery_lawful h hstep
  | drainCas gate =>
    rw [advance] at hstep
    split_ifs at hstep with hcas <;> cases hstep
    · obtain ⟨-, rfl⟩ := hcas
      exact drainCas_lawful h
    · exact drainDecide_lawful h rfl rfl rfl rfl
  | drainScan checking inner => exact drainScan_lawful h hstep
  | drainSeal checking quiescent =>
    rw [advance] at hstep
    split_ifs at hstep with hcas <;> cases hstep
    · obtain rfl := hcas
      exact drainSeal_lawful h
    · exact h.stay (h.keep rfl rfl) rfl rfl trivial
  | drainRestore =>
    cases hstep
    exact drainRestore_lawful h

end DevHermit.Shmem.Admission
