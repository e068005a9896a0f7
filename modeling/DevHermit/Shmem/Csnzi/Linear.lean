import DevHermit.Shmem.Csnzi.Abstract

namespace DevHermit.Shmem.Csnzi

open Lib CounterTree List Function Option

variable {P : Type}

def tolerant : Answer → Bool
  | .rejected _ => true
  | .departed .active => true
  | .closed .pending => true
  | .closed .alreadyClosed => true
  | .active true => true
  | _ => false

variable {closed closed' : Bool} {n n' : Nat}

theorem apply_tolerant {request : Request} {answer : Answer} (ht : tolerant answer = true)
    (h : applyAbstract (closed, n) request answer = some (closed', n')) :
    applyAbstract (closed, n + 1) request answer = some (closed', n' + 1) := by
  cases request with
  | tryEnter =>
    cases answer with
    | entered => cases ht
    | rejected error =>
      simp only [applyAbstract, ite_none_right_eq_some, some.injEq, Prod.mk.injEq] at h ⊢
      exact ⟨h.1, h.2.1, by omega⟩
    | _ => simp [applyAbstract] at h
  | depart =>
    cases answer with
    | departed outcome =>
      cases outcome with
      | drained => cases ht
      | active =>
        simp only [applyAbstract, reduceCtorEq, false_iff, ite_none_right_eq_some,
          some.injEq, Prod.mk.injEq] at h ⊢
        refine ⟨⟨Nat.succ_ne_zero n, fun hz => h.1.1 hz.2⟩, h.2.1, ?_⟩
        omega
    | _ => simp [applyAbstract] at h
  | close =>
    cases answer with
    | closed outcome =>
      cases closed with
      | true => cases outcome <;> simp_all [applyAbstract]
      | false =>
        have hn : n ≠ 0 := by
          rintro rfl
          cases outcome <;> simp_all [applyAbstract, tolerant]
        simp_all [applyAbstract]
    | _ => simp [applyAbstract] at h
  | query =>
    cases answer with
    | active b => cases b <;> simp_all [applyAbstract, tolerant]
    | _ => simp [applyAbstract] at h

theorem run_tolerant {xs : List (Call P Request Answer)} (ht : ∀ a ∈ xs, tolerant a.ret = true)
    (h : abstractSpec.run (closed, n) xs = some (closed', n')) :
    abstractSpec.run (closed, n + 1) xs = some (closed', n' + 1) := by
  induction xs generalizing closed n with
  | nil =>
    simp only [Spec.run, some.injEq, Prod.mk.injEq] at h ⊢
    exact ⟨h.1, by omega⟩
  | cons a rest ih =>
    simp only [Spec.run, bind_eq_some_iff] at h ⊢
    obtain ⟨⟨closed₁, n₁⟩, h₁, h₂⟩ := h
    exact ⟨(closed₁, n₁ + 1), apply_tolerant (ht a (mem_cons_self ..)) h₁,
      ih (fun b hb => ht b (mem_cons_of_mem _ hb)) h₂⟩

structure Log (h : List (Event P Request Answer)) (before after : List (Call P Request Answer))
    (status : P → Option (Request × Option Answer)) (closed : Bool) (size : Nat) (busy : Prop)
    (arriving : P → Prop) : Prop where
  tracks : Tracks h (before ++ after) status
  runs : ∃ n, abstractSpec.run (false, 0) before = some (false, n) ∧
    abstractSpec.run (false, n) after = some (closed, size)
  fresh : closed = false → after = []
  tolerant : closed = true → busy → ∀ a ∈ after, tolerant a.ret = true
  late : ∀ p, arriving p → ∀ s r, Pending h p .tryEnter s →
    ∀ b ∈ after, ¬ Precedes h b ⟨p, .tryEnter, r, s⟩

namespace Log

variable {h : List (Event P Request Answer)} {before after : List (Call P Request Answer)}
  {status : P → Option (Request × Option Answer)} {closed : Bool} {size : Nat} {busy : Prop}
  {arriving : P → Prop} {p : P} {request : Request} {answer : Answer} {busy' : Prop}

theorem relax {status' : P → Option (Request × Option Answer)} {arriving' : P → Prop}
    (hl : Log h before after status closed size busy arriving) (hs : ∀ q, status' q = status q)
    (hb : busy' → busy) (ha : ∀ q, arriving' q → arriving q ∨ closed = false) :
    Log h before after status' closed size busy' arriving' := by
  refine ⟨hl.tracks.congr hs, hl.runs, hl.fresh, fun hc hb' => hl.tolerant hc (hb hb'),
    fun q hq s r hp b hmem => ?_⟩
  rcases ha q hq with hq | hc
  · exact hl.late q hq s r hp b hmem
  · rw [hl.fresh hc] at hmem
    cases hmem

theorem late_append (hl : Log h before after status closed size busy arriving)
    (e : Event P Request Answer) (he : ¬ arriving e.proc) (q : P) (hq : arriving q) (s : Nat)
    (r : Answer) (hp : Pending (h ++ [e]) q .tryEnter s) :
    ∀ b ∈ after, ¬ Precedes (h ++ [e]) b ⟨q, .tryEnter, r, s⟩ := by
  intro b hb
  have hne : e.proc ≠ q := by
    rintro rfl
    exact he hq
  have hp' := hp.of_append_other hne
  rw [precedes_append (a := ⟨q, .tryEnter, r, s⟩) hp'.lt_length.le]
  exact hl.late q hq s r hp' b hb

variable [DecidableEq P]

section

variable (hl : Log h before after status closed size busy arriving)
include hl

theorem invoke (hs : status p = none) (hp : ¬ arriving p) (request : Request) :
    Log (h ++ [.inv p request]) before after
      (update status p (some (request, none))) closed size busy arriving :=
  ⟨hl.tracks.invoke hs request, hl.runs, hl.fresh, hl.tolerant,
    fun q hq s r hpend => hl.late_append (.inv p request) hp q hq s r hpend⟩

theorem ret (hs : status p = some (request, some answer)) (hp : ¬ arriving p) :
    Log (h ++ [.ret p answer]) before after (update status p none) closed size busy arriving :=
  ⟨hl.tracks.ret hs, hl.runs, hl.fresh, hl.tolerant,
    fun q hq s r hpend => hl.late_append (.ret p answer) hp q hq s r hpend⟩

theorem extend {size' : Nat} (hs : status p = some (request, none))
    (ha : applyAbstract (closed, size) request answer = some (closed, size'))
    (ht : closed = true → busy → Csnzi.tolerant answer = true) :
    ∃ before' after', Log h before' after'
      (update status p (some (request, some answer))) closed size' busy arriving := by
  obtain ⟨s, hp⟩ := hl.tracks.busy p request none hs
  obtain ⟨n, hbefore, hafter⟩ := hl.runs
  have htracks : Tracks h ((before ++ after) ++ [⟨p, request, answer, s⟩])
      (update status p (some (request, some answer))) := by
    have ht := hl.tracks
    rw [← append_nil (before ++ after)] at ht
    exact ht.settle hs hp nofun
  cases closed with
  | true =>
    refine ⟨before, after ++ [⟨p, request, answer, s⟩], ?_, ⟨n, hbefore, ?_⟩, nofun, ?_, ?_⟩
    · rw [← append_assoc]
      exact htracks
    · exact Spec.run_concat hafter ha
    · intro hc hb a ha'
      rcases mem_append.mp ha' with ha' | ha'
      · exact hl.tolerant hc hb a ha'
      · rw [mem_singleton.mp ha']
        exact ht hc hb
    · intro q hq s' r hpend b hb
      rcases mem_append.mp hb with hb | hb
      · exact hl.late q hq s' r hpend b hb
      · rw [mem_singleton.mp hb]
        exact Pending.not_precedes (a := ⟨p, request, answer, s⟩) hp
  | false =>
    have hnil := hl.fresh rfl
    subst hnil
    rw [append_nil] at htracks
    refine ⟨before ++ [⟨p, request, answer, s⟩], [], ?_, ?_, fun _ => rfl, by simp,
      by simp⟩
    · rw [append_nil]
      exact htracks
    · have hn : n = size := by
        simp only [Spec.run, some.injEq, Prod.mk.injEq] at hafter
        exact hafter.2
      subst hn
      exact ⟨size', Spec.run_concat hbefore ha, rfl⟩

theorem enter (hs : status p = some (.tryEnter, none)) (harr : arriving p)
    (hb : closed = true → busy) :
    ∃ before', Log h before' after (update status p (some (.tryEnter, some .entered)))
      closed (size + 1) busy arriving := by
  obtain ⟨s, hp⟩ := hl.tracks.busy p .tryEnter none hs
  obtain ⟨n, hbefore, hafter⟩ := hl.runs
  refine ⟨before ++ [⟨p, .tryEnter, .entered, s⟩], ?_, ⟨n + 1, ?_, ?_⟩, hl.fresh, hl.tolerant,
    hl.late⟩
  · rw [append_assoc, singleton_append]
    exact hl.tracks.settle hs hp (hl.late p harr s _ hp)
  · exact Spec.run_concat hbefore rfl
  · cases closed with
    | true => exact run_tolerant (hl.tolerant rfl (hb rfl)) hafter
    | false =>
      rw [hl.fresh rfl] at hafter ⊢
      simp only [Spec.run, some.injEq, Prod.mk.injEq, true_and] at hafter ⊢
      omega

end

theorem close {outcome : CloseOutcome} (hl : Log h before after status false size busy arriving)
    (hs : status p = some (.close, none)) (ho : outcome = if size = 0 then .drained else .pending)
    (hb : busy' → size ≠ 0) : ∃ after', Log h before after'
      (update status p (some (.close, some (.closed outcome)))) true size busy' arriving := by
  obtain ⟨s, hp⟩ := hl.tracks.busy p .close none hs
  obtain ⟨n, hbefore, hafter⟩ := hl.runs
  have hnil := hl.fresh rfl
  subst hnil
  have hn : n = size := by
    simp only [Spec.run, some.injEq, Prod.mk.injEq] at hafter
    exact hafter.2
  subst hn
  refine ⟨[⟨p, .close, .closed outcome, s⟩], ?_, ⟨n, hbefore, ?_⟩, by simp, ?_, ?_⟩
  · exact hl.tracks.settle hs hp (by simp)
  · simp [Spec.run, abstractSpec, applyAbstract, ho]
  · intro _ hbusy a ha
    rw [mem_singleton.mp ha, ho, if_neg (hb hbusy)]
    rfl
  · intro q _ s' r _ b hmem
    rw [mem_singleton.mp hmem]
    exact Pending.not_precedes (a := ⟨p, .close, .closed outcome, s⟩) hp

end Log

section

variable [Fintype P] {t : TreeSize} {c : Config P Shared Pc} {phase : RootPhase} {count : UInt64}

def size (c : Config P Shared Pc) : Nat := c.sh.tokens.length + tally Pc.present c.lo

variable {pc : Pc}

omit [Fintype P] in
theorem present_of_claims (h : pc.claims t = []) : pc.present = pc.tails := by
  cases pc with
  | arrive leaf callers a =>
    cases a <;> simp_all [Pc.claims, ArrivePc.claims, Pc.present, Pc.tails, ArrivePc.represented]
  | enterFinish leaf generation | departHealthy leaf generation | depart d => cases h
  | done ret => cases ret <;> first | rfl | cases h
  | _ => rfl

omit [Fintype P] in
theorem claims_of_present (h : pc.present = 0) : pc.claims t = [] := by
  cases pc with
  | arrive leaf callers a =>
    cases a with
    | healthy node arrived | load node arrived | cas node arrived state =>
      cases arrived <;> simp_all [Pc.claims, ArrivePc.claims, Pc.present, ArrivePc.represented]
    | compensate node generation d => cases h
    | _ => rfl
  | enterFinish leaf generation | departHealthy leaf generation | depart d => cases h
  | done ret => cases ret <;> first | rfl | cases h
  | _ => rfl

section

variable (h : Inv t c phase count)
include h

theorem Inv.size_of_empty (hz : count = 0) : size c = tailRole phase := by
  have hpresent : tally Pc.present c.lo = tally Pc.tails c.lo :=
    Finset.sum_congr rfl fun p _ => present_of_claims (h.claims_nil hz p)
  rw [size, h.tokens_nil hz, hpresent, h.tails]
  simp

theorem Inv.size_pos (hc : count ≠ 0) : size c ≠ 0 := by
  intro hz
  have htok : c.sh.tokens = [] := eq_nil_of_length_eq_zero (by simp only [size] at hz; omega)
  have hpresent : tally Pc.present c.lo = 0 := by simp only [size] at hz; omega
  have hpend : ∀ x, pend t c x = 0 := by
    intro x
    have hclaims : tally (fun pc => (pc.claims t).count x) c.lo = 0 :=
      tally_eq_zero.mpr fun p => by
        rw [claims_of_present (tally_eq_zero.mp hpresent p)]
        exact count_nil
    simp [pend, pooled, htok, hclaims]
  have hroot := h.ledger.count_eq_zero_of_no_pend (fun _ _ => Tree.parent_lt) hpend none
  rw [counts_none_of_decode c.sh h.root] at hroot
  exact hc (toNat_eq_zero.mp hroot)

theorem Inv.size_ne_zero_iff : size c ≠ 0 ↔ count ≠ 0 ∨ phase.isTail = true := by
  by_cases hz : count = 0
  · rw [h.size_of_empty hz, tailRole]
    cases phase.isTail <;> simp [hz]
  · simp [hz, h.size_pos hz]

theorem Inv.count_of_busy (hb : Busy t c.sh) : count ≠ 0 := by
  rintro rfl
  rcases hb with hs | ⟨n, hn, hs⟩
  · exact hs (counts_none_of_decode c.sh h.root)
  · exact hs (h.idle_of_count rfl hn)

theorem Inv.counts_of_count (hc : count ≠ 0) : phase.counts = true := by
  by_contra hp
  exact hc ((rootIs_of_decode h.root).empty (by simpa using hp))

theorem Inv.closedBusy_of_counts (hp : phase.counts = true)
    (hc : isClosed c.sh.root) : ClosedBusy c.sh.root := by
  have hclosed := (isClosed_iff h.root).mp hc
  cases phase with
  | closed => exact ⟨count, h.root⟩
  | opened => cases hclosed
  | _ => cases hp

theorem Inv.count_of_closedBusy (hb : ClosedBusy c.sh.root) : count ≠ 0 := by
  obtain ⟨k, hk⟩ := hb
  exact h.busy (decodeRoot_unique h.root hk).1

end

theorem queryRoot_eq {root : UInt64} (h : decodeRoot root = some (phase, count)) :
    queryRoot root = decide (count ≠ 0 ∨ phase.isTail = true) := by
  have hr := rootIs_of_decode h
  rw [queryRoot, hr.status, hr.field]
  have hstatus : (phase.status == rootOpenTail || phase.status == rootClosedTail) =
      phase.isTail := by
    cases phase <;> decide +kernel
  rw [Bool.or_assoc, hstatus]
  by_cases hc : count = 0 <;> cases phase.isTail <;> simp [hc]

end

section

variable [Fintype P] [DecidableEq P] {t : TreeSize} {c : Config P Shared Pc}
  {phase phase' : RootPhase} {count count' : UInt64} {p : P} {sh' : Shared} {pc' : Pc}
  {h : List (Event P Request Answer)}

def Pc.status (pc : Pc) : Option (Request × Option Answer) :=
  pc.request.map fun request => (request, pc.settled)

def LogOf (c : Config P Shared Pc) (h : List (Event P Request Answer)) : Prop :=
  ∃ before after closed, (closed = true ↔ isClosed c.sh.root) ∧
    Log h before after (fun q => (c.lo q).status) closed (size c) (ClosedBusy c.sh.root)
      fun q => (c.lo q).arriving = true

theorem size_update (c : Config P Shared Pc) (p : P) (sh' : Shared) (pc' : Pc) :
    size ⟨sh', update c.lo p pc'⟩ + c.sh.tokens.length + (c.lo p).present =
      size c + sh'.tokens.length + pc'.present := by
  have h := tally_update Pc.present c.lo p pc'
  simp only [size]
  omega

omit [Fintype P] in
theorem status_update (c : Config P Shared Pc) (p : P) {pc' : Pc}
    {s : Option (Request × Option Answer)} (hs : pc'.status = s) (q : P) :
    (update c.lo p pc' q).status = update (fun q => (c.lo q).status) p s q := by
  by_cases hq : q = p
  · subst hq
    simp [hs]
  · simp [update_of_ne hq]

omit [Fintype P] in
theorem arriving_update (c : Config P Shared Pc) (p : P) {pc' : Pc} {Q : Prop}
    (hp : pc'.arriving = true → (c.lo p).arriving = true ∨ Q) (q : P)
    (hq : (update c.lo p pc' q).arriving = true) : (c.lo q).arriving = true ∨ Q := by
  by_cases hqp : q = p
  · subst hqp
    rw [update_self] at hq
    exact hp hq
  · rw [update_of_ne hqp] at hq
    exact .inl hq

theorem log_logical (hi : Inv t c phase count)
    (hi' : Inv t ⟨sh', update c.lo p pc'⟩ phase' count') (hl : LogOf c h)
    (hm : Logical t c.sh (c.lo p) sh' pc') : LogOf ⟨sh', update c.lo p pc'⟩ h := by
  obtain ⟨before, after, closed, hclosed, hlog⟩ := hl
  have hsize := size_update c p sh' pc'
  cases hm with
  | silent _ _ hk hs harr =>
    refine ⟨before, after, closed, hclosed.trans hs.closed.symm, ?_⟩
    have hsame : size ⟨sh', update c.lo p pc'⟩ = size c := by
      rw [hs.tokens, hk.present] at hsize
      omega
    rw [hsame]
    have hstatus : pc'.status = (c.lo p).status := by simp only [Pc.status, hk.request, hk.settled]
    refine hlog.relax (fun q => ?_) hs.busy (arriving_update c p fun ha => ?_)
    · rw [status_update c p hstatus]
      exact congrFun (update_eq_self p _) q
    · refine (harr ha).imp_right fun hc => ?_
      cases closed with
      | true => exact absurd (hclosed.mp rfl) hc
      | false => rfl
  | enter _ _ harr hreq hset hpres hreq' hset' hpres' harr' hs hb =>
    have hp : (c.lo p).status = some (.tryEnter, none) := by simp [Pc.status, hreq, hset]
    have hp' : pc'.status = some (.tryEnter, some .entered) := by simp [Pc.status, hreq', hset']
    have hbusy : closed = true → ClosedBusy c.sh.root := by
      intro hc
      rcases hb with hb | ⟨phase₀, count₀, hd, hcounts, -⟩
      · exact hi.closedBusy_of_counts (hi.counts_of_count (hi.count_of_busy hb)) (hclosed.mp hc)
      · obtain ⟨rfl, -⟩ := decodeRoot_unique hi.root hd
        exact hi.closedBusy_of_counts hcounts (hclosed.mp hc)
    obtain ⟨before', hlog'⟩ := hlog.enter hp harr hbusy
    refine ⟨before', after, closed, hclosed.trans hs.closed.symm, ?_⟩
    have hgrow : size ⟨sh', update c.lo p pc'⟩ = size c + 1 := by
      rw [hs.tokens, hpres, hpres'] at hsize
      omega
    rw [hgrow]
    refine hlog'.relax (status_update c p hp') hs.busy (arriving_update c p fun ha => ?_)
    rw [harr'] at ha
    cases ha
  | depart _ outcome hreq hset hpres hs ho =>
    have hp : (c.lo p).status = some (.depart, none) := by simp [Pc.status, hreq, hset]
    have hshrink : size ⟨sh', update c.lo p (.done (.departed outcome))⟩ + 1 = size c := by
      rw [hs.tokens, hpres] at hsize
      simp only [Pc.present] at hsize
      omega
    have happly : applyAbstract (closed, size c) .depart (.departed outcome) =
        some (closed, size ⟨sh', update c.lo p (.done (.departed outcome))⟩) := by
      have hpred : size c - 1 = size ⟨sh', update c.lo p (.done (.departed outcome))⟩ := by omega
      rw [applyAbstract, if_pos ?_, hpred]
      refine ⟨by omega, ?_⟩
      rw [hpred]
      rcases ho with ⟨rfl, hb | hopen⟩ | ⟨rfl, hdrained⟩
      · simpa using fun _ => hi'.size_pos (hi'.count_of_busy hb)
      · have hc : closed = false := by
          cases closed with
          | true => exact absurd (hs.closed.mpr (hclosed.mp rfl)) hopen
          | false => rfl
        simp [hc]
      · obtain ⟨rfl, rfl⟩ := hi'.phase_of_drained hdrained
        have hc : closed = true := hclosed.mpr (hs.closed.mp ((isClosed_iff hi'.root).mpr rfl))
        exact iff_of_true rfl ⟨hc, hi'.size_of_empty rfl⟩
    have htol : closed = true → ClosedBusy sh'.root → tolerant (.departed outcome) = true := by
      rintro - ⟨k, hk⟩
      rcases ho with ⟨rfl, -⟩ | ⟨rfl, hdrained⟩
      · rfl
      · obtain ⟨rfl, rfl⟩ := hi'.phase_of_drained hdrained
        cases (decodeRoot_unique hi'.root hk).1
    have hlog' := hlog.relax (fun _ => rfl) hs.busy fun _ ha => .inl ha
    obtain ⟨before', after', hlog''⟩ := hlog'.extend hp happly htol
    refine ⟨before', after', closed, hclosed.trans hs.closed.symm, ?_⟩
    exact hlog''.relax (status_update c p rfl) id (arriving_update c p nofun)
  | close _ _ phase₀ count₀ outcome hreq hset hpres hreq' hset' hpres' harr' htok hd hopen hshut ho =>
    obtain ⟨rfl, rfl⟩ := decodeRoot_unique hi.root hd
    have hp : (c.lo p).status = some (.close, none) := by simp [Pc.status, hreq, hset]
    have hp' : pc'.status = some (.close, some (.closed outcome)) := by
      simp [Pc.status, hreq', hset']
    have hsame : size ⟨sh', update c.lo p pc'⟩ = size c := by
      rw [htok, hpres, hpres'] at hsize
      omega
    have hc : closed = false := by
      cases closed with
      | true =>
        have := (isClosed_iff hi.root).mp (hclosed.mp rfl)
        rw [hopen] at this
        cases this
      | false => rfl
    subst hc
    have hout : outcome = if size c = 0 then .drained else .pending := by
      rw [ho]
      have hiff := hi.size_ne_zero_iff
      by_cases hz : size c = 0
      · rw [if_pos hz, if_neg (fun hne => hiff.mpr hne hz)]
      · rw [if_neg hz, if_pos (hiff.mp hz)]
    have hbusy : ClosedBusy sh'.root → size c ≠ 0 := fun hb =>
      hsame ▸ hi'.size_pos (hi'.count_of_closedBusy hb)
    obtain ⟨after', hlog'⟩ := hlog.close hp hout hbusy
    refine ⟨before, after', true, by simpa using hshut, ?_⟩
    rw [hsame]
    refine hlog'.relax (status_update c p hp') id (arriving_update c p fun ha => ?_)
    rw [harr'] at ha
    cases ha
  | query _ hpc hreq' hset' hpres' harr' =>
    have hp : (c.lo p).status = some (.query, none) := by rw [hpc]; rfl
    have hp' : pc'.status = some (.query, some (.active (queryRoot c.sh.root))) := by
      simp [Pc.status, hreq', hset']
    have hsame : size ⟨c.sh, update c.lo p pc'⟩ = size c := by
      rw [hpc, hpres'] at hsize
      simp only [Pc.present] at hsize
      omega
    have hquery : queryRoot c.sh.root = decide (0 < size c) := by
      rw [queryRoot_eq hi.root]
      exact decide_eq_decide.mpr (hi.size_ne_zero_iff.symm.trans Nat.pos_iff_ne_zero.symm)
    have htol : closed = true → ClosedBusy c.sh.root →
        tolerant (.active (queryRoot c.sh.root)) = true := by
      intro _ hb
      rw [queryRoot_eq hi.root, decide_eq_true (.inl (hi.count_of_closedBusy hb))]
      rfl
    have happly : applyAbstract (closed, size c) .query (.active (queryRoot c.sh.root)) =
        some (closed, size c) := if_pos hquery
    obtain ⟨before', after', hlog'⟩ := hlog.extend hp happly htol
    refine ⟨before', after', closed, hclosed, ?_⟩
    rw [hsame]
    refine hlog'.relax (status_update c p hp') id (arriving_update c p fun ha => ?_)
    rw [harr'] at ha
    cases ha

variable {op : Op}

theorem log_call (hl : LogOf c h) (hidle : c.lo p = .idle)
    (hview : pc'.request = op.request ∧ pc'.settled = none ∧ pc'.arriving = false)
    (hroot : sh'.root = c.sh.root) (htok : sh'.tokens.length + pc'.present = c.sh.tokens.length) :
    LogOf ⟨sh', update c.lo p pc'⟩ (h ++ observe p .idle (.call op)) := by
  obtain ⟨before, after, closed, hclosed, hlog⟩ := hl
  obtain ⟨hreq, hset, harr⟩ := hview
  have hsize := size_update c p sh' pc'
  have hpresent : (c.lo p).present = 0 := by rw [hidle]; rfl
  have hsame : size ⟨sh', update c.lo p pc'⟩ = size c := by omega
  have hquiet : ∀ q, (update c.lo p pc' q).arriving = true →
      (c.lo q).arriving = true ∨ closed = false :=
    arriving_update c p fun ha => by rw [harr] at ha; cases ha
  have hpstatus : (c.lo p).status = none := by rw [hidle]; rfl
  refine ⟨before, after, closed, by rw [hroot]; exact hclosed, ?_⟩
  rw [hsame, hroot]
  cases hop : op.request with
  | none =>
    have hnil : observe p .idle (.call op) = [] := by simp [observe, hop]
    rw [hnil, append_nil]
    refine hlog.relax (fun q => ?_) id hquiet
    have hstatus : pc'.status = (c.lo p).status := by
      rw [hpstatus, Pc.status, hreq, hop]
      rfl
    rw [status_update c p hstatus]
    exact congrFun (update_eq_self p _) q
  | some request =>
    have hone : observe p .idle (.call op) = [.inv p request] := by simp [observe, hop]
    rw [hone]
    have hnot : ¬ (c.lo p).arriving = true := by rw [hidle]; rintro ⟨⟩
    have hstatus : pc'.status = some (request, none) := by simp [Pc.status, hreq, hop, hset]
    exact (hlog.invoke hpstatus hnot request).relax (status_update c p hstatus) id hquiet

omit [Fintype P] [DecidableEq P] in
theorem start_view (hs : Safe t c.sh .idle) (h : start t c.sh op = some (sh', pc')) :
    (pc'.request = op.request ∧ pc'.settled = none ∧ pc'.arriving = false) ∧
      sh'.root = c.sh.root ∧ sh'.tokens.length + pc'.present = c.sh.tokens.length := by
  have hdepart : ∀ token, token ∈ c.sh.tokens →
      (c.sh.tokens.erase token).length + 1 = c.sh.tokens.length := by
    intro token htok
    have hpos := length_pos_of_mem htok
    rw [length_erase_of_mem htok]
    omega
  cases op with
  | tryEnter leaf =>
    rw [start] at h
    cases hl : leafNode t leaf <;> rw [hl] at h <;>
      obtain ⟨rfl, rfl⟩ := Prod.mk.inj (some.inj h) <;> exact ⟨⟨rfl, rfl, rfl⟩, rfl, rfl⟩
  | depart token =>
    rw [start] at h
    split_ifs at h with htok
    rw [departToken_eq (hs.tokens token htok).1.1] at h
    cases h
    exact ⟨⟨rfl, rfl, rfl⟩, rfl, hdepart token htok⟩
  | departRaw token =>
    rw [start] at h
    split_ifs at h with htok
    rw [decodeRaw_issued hs htok] at h
    simp only [departToken_eq (hs.tokens token htok).1.1] at h
    cases h
    exact ⟨⟨rfl, rfl, rfl⟩, rfl, hdepart token htok⟩
  | _ =>
    cases h
    exact ⟨⟨rfl, rfl, rfl⟩, rfl, rfl⟩

variable {closed : Bool}

theorem rejects_of_rejects {e : CsnziError} {sh : Shared} (h : e.Rejects sh)
    (hc : closed = true ↔ isClosed sh.root) : rejects closed e = true := by
  cases e <;> first | rfl | exact hc.mpr h | exact False.elim h

variable {ret : Ret}

omit [Fintype P] in
theorem settle_return {before after : List (Call P Request Answer)} {busy : Prop}
    {arriving : P → Prop} {n : Nat} {answer : Answer} {request : Request}
    {status : P → Option (Request × Option Answer)}
    (hlog : Log h before after status closed n busy arriving) (hs : status p = (Pc.done ret).status)
    (hreq : ret.request = some request) (hans : ret.answer = some answer) (hok : ret.Ok t c.sh)
    (hc : closed = true ↔ isClosed c.sh.root) : ∃ before' after', Log h before' after'
      (update status p (some (request, some answer))) closed n busy arriving := by
  have hsame : ∀ settled, ret.settled = some settled → settled = answer →
      ∃ before' after', Log h before' after'
        (update status p (some (request, some answer))) closed n busy arriving := by
    rintro settled hset rfl
    refine ⟨before, after, hlog.relax (fun q => ?_) id fun _ ha => .inl ha⟩
    have hp : some (request, some settled) = status p := by
      rw [hs]
      simp [Pc.status, Pc.request, hreq, Pc.settled, hset]
    rw [hp, update_eq_self]
  have hp : ret.settled = none → status p = some (request, none) := by
    intro hset
    rw [hs]
    simp [Pc.status, Pc.request, hreq, Pc.settled, hset]
  cases ret with
  | drained b => cases hans
  | closed outcome =>
    cases outcome with
    | pending | drained => exact hsame _ rfl (some.inj hans)
    | alreadyClosed =>
      obtain rfl := some.inj hreq
      obtain rfl := some.inj hans
      have hclosed : closed = true := hc.mpr hok
      exact hlog.extend (hp rfl) (by rw [applyAbstract, if_pos hclosed, if_pos rfl])
        fun _ _ => rfl
  | error kind e =>
    cases kind with
    | tryEnter =>
      obtain rfl := some.inj hreq
      obtain rfl := some.inj hans
      exact hlog.extend (hp rfl) (if_pos (rejects_of_rejects hok hc)) fun _ _ => rfl
    | depart | close => exact False.elim hok
  | _ => exact hsame _ rfl (some.inj hans)

theorem log_return (hl : LogOf c h) (hdone : c.lo p = .done ret) (hok : ret.Ok t c.sh) :
    LogOf ⟨returned c.sh ret, update c.lo p .idle⟩ (h ++ returnEvent p (.done ret)) := by
  obtain ⟨before, after, closed, hclosed, hlog⟩ := hl
  have hsize := size_update c p (returned c.sh ret) .idle
  have hsame : size ⟨returned c.sh ret, update c.lo p .idle⟩ = size c := by
    rw [hdone] at hsize
    cases ret <;> simp only [returned, Pc.present, length_cons] at hsize ⊢ <;> omega
  have hroot : (returned c.sh ret).root = c.sh.root := by cases ret <;> rfl
  have hquiet : ∀ q, (update c.lo p .idle q).arriving = true →
      (c.lo q).arriving = true ∨ closed = false := arriving_update c p (by rintro ⟨⟩)
  cases hans : ret.answer with
  | none =>
    have hnil : returnEvent p (.done ret) = [] := by simp [returnEvent, hans]
    have hstatus : Pc.idle.status = (c.lo p).status := by
      rw [hdone]
      cases ret with
      | error kind e => cases kind <;> cases hans
      | drained b => rfl
      | _ => cases hans
    refine ⟨before, after, closed, by rw [hroot]; exact hclosed, ?_⟩
    rw [hsame, hroot, hnil, append_nil]
    refine hlog.relax (fun q => ?_) id hquiet
    rw [status_update c p hstatus]
    exact congrFun (update_eq_self p _) q
  | some answer =>
    have hone : returnEvent p (.done ret) = [.ret p answer] := by simp [returnEvent, hans]
    obtain ⟨request, hreq⟩ : ∃ request, ret.request = some request := by
      cases ret <;> first | exact ⟨_, rfl⟩ | cases hans
    have hnot : ¬ (c.lo p).arriving = true := by rw [hdone]; rintro ⟨⟩
    have hs : (c.lo p).status = (Pc.done ret).status := by rw [hdone]
    obtain ⟨before', after', hlog'⟩ := settle_return hlog hs hreq hans hok hclosed
    refine ⟨before', after', closed, by rw [hroot]; exact hclosed, ?_⟩
    rw [hsame, hroot, hone]
    refine (hlog'.ret (update_self ..) hnot).relax (fun q => ?_) id hquiet
    rw [status_update c p rfl, update_idem]
    rfl

theorem recorded_log (hr : (machine t P).Recorded observe c h) : LogOf c h := by
  induction hr with
  | init =>
    refine ⟨[], [], false, ?_, ?_⟩
    · have hroot : decodeRoot (machine t P).init.sh.root = some (.opened, 0) :=
        decodeRoot_status .opened
      rw [isClosed_iff hroot]
      exact ⟨nofun, nofun⟩
    · have hz : size (machine t P).init = 0 := inv_init.size_of_empty rfl
      rw [hz]
      exact ⟨Tracks.init, ⟨0, rfl, rfl⟩, fun _ => rfl, nofun, nofun⟩
  | @step c c' h p i hr hn ih =>
    obtain ⟨phase, count, hi⟩ := reachable_inv hr.reachable
    obtain ⟨phase', count', hi', -⟩ := inv_next hi hn
    obtain ⟨sh', pc', hs, rfl⟩ := Machine.next_eq_some.mp hn
    have hgo : ∀ weak, advance t c.sh weak (c.lo p) = some (sh', pc') →
        LogOf ⟨sh', update c.lo p pc'⟩ (h ++ returnEvent p (c.lo p)) := by
      intro weak ha
      by_cases hdone : ∃ ret, c.lo p = .done ret
      · obtain ⟨ret, hdone⟩ := hdone
        have hok := hi.ok p
        rw [hdone] at ha hok ⊢
        cases ha
        exact log_return ih hdone hok
      · have hnil : returnEvent p (c.lo p) = ([] : List (Event P Request Answer)) := by
          cases hpc : c.lo p with
          | done ret => exact absurd ⟨ret, hpc⟩ hdone
          | _ => rfl
        rw [hnil, append_nil]
        exact log_logical hi hi' ih
          (advance_logical (hi.safe p) (hi.ok p) (fun ret he => hdone ⟨ret, he⟩) ha)
    cases i with
    | call op =>
      have hs' : step t c.sh (c.lo p) (.call op) = some (sh', pc') := hs
      rw [step] at hs'
      split_ifs at hs' with hidle
      have hsafe := hi.safe p
      rw [hidle] at hsafe ⊢
      obtain ⟨hview, hroot, htok⟩ := start_view hsafe hs'
      exact log_call ih hidle hview hroot htok
    | go => exact hgo false hs
    | spurious => exact hgo true hs

end

section

variable {answer : Answer} {n : Nat} {s : Bool × Nat}

theorem apply_closed {request : Request} (h : applyAbstract (true, n) request answer = some s) :
    s.1 = true ∧ ¬ (request = .tryEnter ∧ answer = .entered) := by
  cases request <;> cases answer <;>
    simp only [applyAbstract, reduceCtorEq, if_true, ite_none_right_eq_some, some.injEq] at h <;>
    obtain ⟨-, rfl⟩ := h <;> simp

theorem apply_close {s' : Bool × Nat} (h : applyAbstract s .close answer = some s') : s'.1 = true := by
  obtain ⟨closed, n⟩ := s
  cases closed with
  | true => exact (apply_closed h).1
  | false =>
    cases answer <;> simp only [applyAbstract, reduceCtorEq, Bool.false_eq_true, if_false,
      ite_none_right_eq_some, some.injEq] at h
    rw [← h.2]

variable {xs : List (Call P Request Answer)}

theorem run_closed (h : (abstractSpec.run (true, n) xs).isSome) :
    ∀ b ∈ xs, ¬ (b.op = .tryEnter ∧ b.ret = .entered) := by
  induction xs generalizing n with
  | nil => rintro call ⟨⟩
  | cons a rest ih =>
    simp only [Spec.run, isSome_bind, any_eq_true_iff_get] at h
    obtain ⟨hsome, hrest⟩ := h
    obtain ⟨⟨closed, m⟩, ha⟩ := isSome_iff_exists.mp hsome
    have hclosed := apply_closed ha
    simp only [ha, get_some] at hrest
    obtain rfl : closed = true := hclosed.1
    intro b hb
    rcases mem_cons.mp hb with rfl | hb
    · exact hclosed.2
    · exact ih hrest b hb

theorem run_after_close {ys : List (Call P Request Answer)} {a : Call P Request Answer}
    (h : (abstractSpec.run s (xs ++ a :: ys)).isSome) (ha : a.op = .close) :
    ∀ b ∈ ys, ¬ (b.op = .tryEnter ∧ b.ret = .entered) := by
  rw [Spec.run_append] at h
  obtain ⟨s', hs'⟩ := isSome_iff_exists.mp h
  obtain ⟨s₁, -, h₁⟩ := bind_eq_some_iff.mp hs'
  obtain ⟨⟨closed, n⟩, h₂, h₃⟩ := bind_eq_some_iff.mp h₁
  have hclose : applyAbstract s₁ .close a.ret = some (closed, n) := ha ▸ h₂
  obtain rfl : closed = true := apply_close hclose
  exact run_closed (isSome_iff_exists.mpr ⟨s', h₃⟩)

end

variable [Fintype P] [DecidableEq P]

theorem csnzi_linearizable (t : TreeSize) (c : Config P Shared Pc)
    (h : List (Event P Request Answer)) (hr : (machine t P).Recorded observe c h) :
    (Complete h → Linearizable abstractSpec h) ∧
      ∀ a b, Completed h a → a.op = .close → Completed h b → b.op = .tryEnter →
        b.ret = .entered → ¬ Precedes h a b := by
  obtain ⟨before, after, closed, -, hlog⟩ := recorded_log hr
  have hlegal : (abstractSpec.run abstractSpec.init (before ++ after)).isSome := by
    obtain ⟨n, hbefore, hafter⟩ := hlog.runs
    rw [Spec.run_append]
    exact isSome_iff_exists.mpr ⟨_, bind_eq_some_iff.mpr ⟨_, hbefore, hafter⟩⟩
  refine ⟨fun hc => ⟨_, hlog.tracks.linearization hc hlegal⟩, ?_⟩
  intro a b ha hclose hb henter hentered hprec
  have hmema := hlog.tracks.completed a ha
  have hmemb := hlog.tracks.completed b hb
  obtain ⟨xs, ys, hsplit⟩ := append_of_mem hmema
  rw [hsplit] at hmemb hlegal
  have horder := hlog.tracks.order
  rw [hsplit, pairwise_append] at horder
  rcases mem_append.mp hmemb with hmem | hmem
  · exact horder.2.2 b hmem a (mem_cons_self ..) hprec
  · rcases mem_cons.mp hmem with rfl | hmem
    · rw [hclose] at henter
      cases henter
    · exact run_after_close hlegal hclose b hmem ⟨henter, hentered⟩

def lateJoinTrace : List (Bool × In) :=
  (false, .call (.tryEnter 0)) :: replicate 12 (false, .go) ++
    (false, .call (.tryEnter 0)) :: replicate 2 (false, .go) ++
    (true, .call .close) :: replicate 4 (true, .go) ++ replicate 5 (false, .go)

def lateJoinHistory : List (Event Bool Request Answer) :=
  [.inv false .tryEnter, .ret false .entered, .inv false .tryEnter, .inv true .close,
    .ret true (.closed .pending), .ret false .entered]

theorem lateJoinHistory_complete : Complete lateJoinHistory := by
  intro k p op hk
  have hlt : k < 6 := (List.getElem?_eq_some_iff.mp hk).1
  interval_cases k <;> simp only [lateJoinHistory, List.getElem?_cons_zero,
    List.getElem?_cons_succ, some.injEq, reduceCtorEq, Event.inv.injEq] at hk
  · obtain ⟨rfl, rfl⟩ := hk
    exact ⟨.entered, 1, rfl, by decide, rfl, fun j e h₁ h₂ => by omega⟩
  · obtain ⟨rfl, rfl⟩ := hk
    refine ⟨.entered, 5, rfl, by decide, rfl, fun j e h₁ h₂ he => ?_⟩
    have hj : j = 3 ∨ j = 4 := by simp only at h₁ h₂; omega
    rcases hj with rfl | rfl <;> obtain rfl := some.inj he <;> rintro ⟨⟩
  · obtain ⟨rfl, rfl⟩ := hk
    exact ⟨.closed .pending, 4, rfl, by decide, rfl, fun j e h₁ h₂ => by simp only at h₁; omega⟩

theorem csnzi_linearizable_late_join :
    (∃ c, (machine fourNodes Bool).Recorded observe c lateJoinHistory) ∧
      Linearizable abstractSpec lateJoinHistory := by
  have hrun : ((machine fourNodes Bool).record observe (machine fourNodes Bool).init []
      lateJoinTrace).map Prod.snd = some lateJoinHistory := by
    decide +kernel
  obtain ⟨c, hr⟩ := Machine.exists_recorded hrun
  exact ⟨⟨c, hr⟩, (csnzi_linearizable fourNodes c _ hr).1 lateJoinHistory_complete⟩

end DevHermit.Shmem.Csnzi
