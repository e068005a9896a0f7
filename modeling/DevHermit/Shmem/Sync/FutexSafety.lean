import DevHermit.Shmem.Sync.FutexMutex

namespace DevHermit.Shmem.Futex

open Pc Local Lib Function

variable {P : Type} [DecidableEq P]

def Pc.op? : Pc → Option Op
  | .acquire op | .deadline op | .spin op _ | .mark op _ _ | .wait op | .asleep op => some op
  | .spinMark | .spinLoad => some .lock
  | .done op _ => some op
  | .idle | .release | .wake => none

def Pc.remarking : Pc → Prop
  | .mark _ _ true => True
  | _ => False

def Pc.asleep? : Pc → Prop
  | .asleep _ => True
  | _ => False

def Pc.plain : Pc → Prop
  | .asleep _ | .release | .wake | .mark _ _ true => False
  | _ => True

inductive Move (p : P) (sh : Shared P) (l : Local) : Shared P → Local → Prop where
  | quiet (pc : Pc) : l.pc.plain → ¬ pc.asleep? → (pc = .release → 0 < l.guards) →
      Move p sh l sh (l.goto pc)
  | wakened (op : Op) : l.pc = .asleep op → p ∉ sh.queue →
      Move p sh l sh (l.goto (.mark op (some false) true))
  | returned (op : Op) (r : Syscall) : l.pc = .asleep op → p ∈ sh.queue →
      Move p sh l { sh with queue := sh.queue.erase p } (l.goto (afterWait op r true))
  | enqueued (op : Op) : l.pc = .wait op → sh.word = contended →
      Move p sh l { sh with queue := sh.queue ++ [p] } (l.goto (.asleep op))
  | acquired (w : UInt32) : sh.word = unlocked → w ≠ unlocked → l.pc.op? ≠ none →
      ¬ l.pc.asleep? → (l.pc.remarking → w = contended) →
      Move p sh l { sh with word := w } l.acquired
  | missed (w : UInt32) (pc : Pc) : sh.word ≠ unlocked → w = sh.word ∨ w = contended →
      l.pc.op? ≠ none → ¬ l.pc.asleep? → (l.pc.remarking → w = contended) → pc.plain →
      Move p sh l { sh with word := w } (l.goto pc)
  | released : l.pc = .release →
      Move p sh l { sh with word := unlocked }
        ⟨if sh.word = contended then .wake else .idle, l.guards - 1⟩
  | woke (q : P) : l.pc = .wake → q ∈ sh.queue →
      Move p sh l { sh with queue := sh.queue.erase q } (l.goto .idle)
  | wokeNobody : l.pc = .wake → sh.queue = [] → Move p sh l sh (l.goto .idle)

variable (op : Op)

theorem nextSpin_plain (k : Nat) : (nextSpin op k).plain := by cases k <;> simp [nextSpin, plain]

theorem lockMissed_plain : (lockMissed op).plain := by
  cases op with
  | tryLockFor zero => cases zero <;> simp [lockMissed, plain]
  | tryLock => simp [lockMissed, plain]
  | lock => exact nextSpin_plain .lock futexSpinLimit
  | lockFallible => exact nextSpin_plain .lockFallible futexSpinLimit

theorem markMissed_plain (waited : Option Bool) : (markMissed op waited).plain := by
  unfold markMissed
  split <;> simp [plain]

theorem waitFailed_plain (e : Errno) : (waitFailed op e).plain := by
  cases op <;> simp [waitFailed, plain]

theorem plain_not_asleep {pc : Pc} (h : pc.plain) : ¬ pc.asleep? := by
  cases pc <;> simp_all [plain, asleep?]

theorem plain_not_release {pc : Pc} (h : pc.plain) : pc ≠ .release := by
  cases pc <;> simp_all [plain]

theorem afterWait_cases (r : Syscall) (slept : Bool) : afterWait op r slept = .wait op ∨
    (∃ b, afterWait op r slept = .mark op (some b) slept) ∨ (afterWait op r slept).plain := by
  unfold afterWait
  cases waitedBy r op with
  | retry => exact Or.inl rfl
  | ready b => exact Or.inr (Or.inl ⟨b, rfl⟩)
  | failed e => exact Or.inr (Or.inr (waitFailed_plain op e))

theorem afterWait_not_asleep (r : Syscall) (slept : Bool) : ¬ (afterWait op r slept).asleep? := by
  rcases afterWait_cases op r slept with h | ⟨b, h⟩ | h
  · simp [h, asleep?]
  · simp [h, asleep?]
  · exact plain_not_asleep h

theorem afterWait_not_release (r : Syscall) (slept : Bool) : afterWait op r slept ≠ .release := by
  rcases afterWait_cases op r slept with h | ⟨b, h⟩ | h
  · simp [h]
  · simp [h]
  · exact plain_not_release h

variable {l : Local} {p : P} {sh : Shared P}

theorem attempt_acquire_move {missed : Pc} (ho : l.pc.op? ≠ none) (hs : ¬ l.pc.asleep?)
    (hr : ¬ l.pc.remarking) (hm : missed.plain) :
    Move p sh l (attempt sh l (futexTryAcquire sh.word) missed).1
      (attempt sh l (futexTryAcquire sh.word) missed).2 := by
  by_cases hw : sh.word = unlocked
  · simp only [attempt, futexTryAcquire, hw, if_true]
    exact Move.acquired locked hw (by decide) ho hs (fun h => absurd h hr)
  · simp only [attempt, futexTryAcquire, hw, if_false]
    exact Move.missed sh.word missed hw (Or.inl rfl) ho hs (fun h => absurd h hr) hm

theorem attempt_mark_move {missed : Pc} (ho : l.pc.op? ≠ none) (hs : ¬ l.pc.asleep?)
    (hm : missed.plain) : Move p sh l (attempt sh l (futexMarkContended sh.word) missed).1
      (attempt sh l (futexMarkContended sh.word) missed).2 := by
  by_cases hw : sh.word = unlocked
  · simp only [attempt, futexMarkContended, hw, beq_self_eq_true, if_true]
    exact Move.acquired contended hw (by decide) ho hs (fun _ => rfl)
  · simp only [attempt, futexMarkContended, hw, beq_iff_eq, if_false]
    exact Move.missed contended missed hw (Or.inr rfl) ho hs (fun _ => rfl) hm

variable {sh' : Shared P}

theorem step_move {l' : Local} {i : In P} (h : step p sh l i = some (sh', l')) : Move p sh l sh' l' := by
  cases i with
  | call op =>
    simp only [step] at h
    split at h <;> cases h
    next hpc => exact Move.quiet _ (by simp [hpc, plain]) (by simp [asleep?]) (by simp)
  | drop =>
    simp only [step] at h
    split at h
    · next hpc =>
        split at h <;> cases h
        next hg => exact Move.quiet _ (by simp [hpc, plain]) (by simp [asleep?]) (fun _ => by omega)
    · cases h
  | clock r =>
    simp only [step] at h
    split at h <;> cases h
    · next op hpc =>
        exact Move.quiet _ (by simp [hpc, plain]) (plain_not_asleep (nextSpin_plain _ _))
          (fun h => absurd h (plain_not_release (nextSpin_plain _ _)))
    · next op e hpc => exact Move.quiet _ (by simp [hpc, plain]) (by simp [asleep?]) (by simp)
  | enqueue =>
    simp only [step] at h
    split at h
    · next op hpc =>
        split at h <;> cases h
        next hw => exact Move.enqueued op hpc hw
    · cases h
  | result r =>
    simp only [step] at h
    split at h
    · next op hpc =>
        cases h
        exact Move.quiet _ (by simp [hpc, plain]) (afterWait_not_asleep _ _ _)
          (fun h => absurd h (afterWait_not_release _ _ _))
    · next op hpc =>
        split at h
        · next hq =>
            cases h
            exact Move.returned op r hpc hq
        · next hq =>
            split at h <;> cases h
            next hr =>
              have he : afterWait op r true = .mark op (some false) true := by subst hr; cases op <;> rfl
              rw [he]
              exact Move.wakened op hpc hq
    · cases h
  | wake q =>
    simp only [step] at h
    split at h
    · next hpc =>
        split at h <;> cases h
        next hq => exact Move.woke q hpc hq
    · cases h
  | wakeNobody =>
    simp only [step] at h
    split at h
    · next hpc =>
        split at h <;> cases h
        next hq => exact Move.wokeNobody hpc hq
    · cases h
  | go =>
    simp only [step] at h
    split at h <;> cases h
    · next op hpc =>
        exact attempt_acquire_move (by simp [hpc, op?]) (by simp [hpc, asleep?])
          (by simp [hpc, remarking]) (lockMissed_plain op)
    · next op k hpc =>
        exact attempt_acquire_move (by simp [hpc, op?]) (by simp [hpc, asleep?])
          (by simp [hpc, remarking]) (nextSpin_plain op k)
    · next op waited slept hpc =>
        exact attempt_mark_move (by simp [hpc, op?]) (by simp [hpc, asleep?])
          (markMissed_plain op waited)
    · next hpc =>
        exact attempt_mark_move (by simp [hpc, op?]) (by simp [hpc, asleep?])
          (by simp [plain])
    · next hpc =>
        have he : (if sh.word = unlocked then l.goto .spinMark else l) =
            l.goto (if sh.word = unlocked then .spinMark else .spinLoad) := by
          split <;> simp [goto, ← hpc]
        rw [he]
        refine Move.quiet _ (by simp [hpc, plain]) ?_ ?_
        · split <;> simp [asleep?]
        · split <;> simp
    · next hpc => simpa only [futexRelease, beq_iff_eq] using Move.released hpc
    · next op r hpc => exact Move.quiet _ (by simp [hpc, plain]) (by simp [asleep?]) (by simp)

def Rouses (sh : Shared P) (p : P) (l : Local) : Prop :=
  l.pc = .wake ∨ (l.pc.asleep? ∧ p ∉ sh.queue) ∨ l.pc.remarking

omit [DecidableEq P] in
theorem not_rouses_of_plain (h : l.pc.plain) : ¬ Rouses sh p l := by
  cases hp : l.pc with
  | mark op waited slept => cases slept <;> simp_all [Rouses, plain, asleep?, remarking]
  | _ => simp_all [Rouses, plain, asleep?, remarking]

omit [DecidableEq P] in
theorem not_rouses_of_op (hop : l.pc.op? ≠ none) (hna : ¬ l.pc.asleep?)
    (hmark : ¬ l.pc.remarking) : ¬ Rouses sh p l := by
  rintro (hr | ⟨ha, _⟩ | hr)
  · simp [hr, op?] at hop
  · exact hna ha
  · exact hmark hr

theorem rouses_keep {lo : P → Local} (h : ∃ q, Rouses sh q (lo q))
    (hp : Rouses sh p (lo p) → Rouses sh' p l) (hq : ∀ q, q ∈ sh'.queue → q ∈ sh.queue) :
    ∃ q, Rouses sh' q (update lo p l q) := by
  obtain ⟨q, hr⟩ := h
  refine ⟨q, ?_⟩
  by_cases he : q = p
  · subst he
    simpa using hp hr
  · rw [update_of_ne he]
    rcases hr with hr | ⟨ha, hn⟩ | hr
    · exact Or.inl hr
    · exact Or.inr (Or.inl ⟨ha, fun hm => hn (hq q hm)⟩)
    · exact Or.inr (Or.inr hr)

structure Inv [Fintype P] (c : Config P (Shared P) Local) : Prop where
  guards : tally Local.guards c.lo = if c.sh.word = unlocked then 0 else 1
  dropping : ∀ p, (c.lo p).pc = .release → 0 < (c.lo p).guards
  nodup : c.sh.queue.Nodup
  queued : ∀ q ∈ c.sh.queue, (c.lo q).pc.asleep?
  wakeup : c.sh.queue ≠ [] → c.sh.word ≠ contended → ∃ p, Rouses c.sh p (c.lo p)

section

variable [Fintype P] {c : Config P (Shared P) Local} {p : P} {l : Local}

theorem guards_update (h : Inv c) {sh : Shared P}
    (hw : (if sh.word = unlocked then 0 else 1) + (c.lo p).guards =
      (if c.sh.word = unlocked then 0 else 1) + l.guards) :
    tally Local.guards (update c.lo p l) = if sh.word = unlocked then 0 else 1 := by
  have ht := tally_update Local.guards c.lo p l
  have hg := h.guards
  omega

theorem dropping_update (h : Inv c) (hl : l.pc = .release → 0 < l.guards) (q : P)
    (hq : (update c.lo p l q).pc = .release) : 0 < (update c.lo p l q).guards := by
  by_cases he : q = p
  · subst he
    simp only [update_self] at hq ⊢
    exact hl hq
  · rw [update_of_ne he] at hq ⊢
    exact h.dropping q hq

theorem queued_update (h : Inv c) {queue : List P} (hs : ∀ q ∈ queue, q ≠ p → q ∈ c.sh.queue)
    (hp : p ∈ queue → l.pc.asleep?) : ∀ q ∈ queue, (update c.lo p l q).pc.asleep? := by
  intro q hq
  by_cases he : q = p
  · subst he
    simpa using hp hq
  · rw [update_of_ne he]
    exact h.queued q (hs q hq he)

omit [DecidableEq P] in
theorem not_queued (h : Inv c) (hp : ¬ (c.lo p).pc.asleep?) : p ∉ c.sh.queue :=
  fun hm => hp (h.queued p hm)

theorem inv_move (h : Inv c) {sh : Shared P} (hm : Move p c.sh (c.lo p) sh l) :
    Inv ⟨sh, update c.lo p l⟩ := by
  cases hm with
  | quiet pc hpl hna hrel =>
    have hq := not_queued h (plain_not_asleep hpl)
    refine ⟨guards_update h (by simp [goto]), dropping_update h hrel, h.nodup,
      queued_update h (fun _ hm _ => hm) (fun hm => absurd hm hq), fun hne hw => ?_⟩
    exact rouses_keep (h.wakeup hne hw) (fun hr => absurd hr (not_rouses_of_plain hpl))
      (fun _ hm => hm)
  | wakened op hpc hq =>
    refine ⟨guards_update h (by simp [goto]), dropping_update h (by simp [goto]),
      h.nodup, queued_update h (fun _ hm _ => hm) (fun hm => absurd hm hq), fun hne hw => ?_⟩
    exact ⟨p, by simp [Rouses, goto, remarking]⟩
  | returned op r hpc hq =>
    have hsub : ∀ q, q ∈ c.sh.queue.erase p → q ∈ c.sh.queue := fun _ => List.mem_of_mem_erase
    refine ⟨guards_update h (by simp [goto]),
      dropping_update h (fun hr => absurd hr (afterWait_not_release op r true)), h.nodup.erase p,
      queued_update h (fun q hm _ => hsub q hm)
        (fun hm => absurd hm h.nodup.not_mem_erase), fun hne hw => ?_⟩
    have hne' : c.sh.queue ≠ [] := List.ne_nil_of_mem hq
    refine rouses_keep (h.wakeup hne' hw) (fun hr => ?_) hsub
    rcases hr with hr | ⟨_, hn⟩ | hr
    · simp [hpc] at hr
    · exact absurd hq hn
    · simp [hpc, remarking] at hr
  | enqueued op hpc hw =>
    have hq := not_queued h (p := p) (by simp [hpc, asleep?])
    refine ⟨guards_update h (by simp [goto]), dropping_update h (by simp [goto]),
      ?_, queued_update h ?_ (by simp [goto, asleep?]), fun _ hne => absurd hw hne⟩
    · refine h.nodup.append (List.nodup_singleton p) ?_
      simpa using hq
    · intro q hm hqp
      simpa [hqp] using hm
  | acquired w hw hwn hop hna hmark =>
    have hq := not_queued h hna
    refine ⟨guards_update h (by simp [Local.acquired, hw, hwn, Nat.add_comm]),
      dropping_update h (by simp [Local.acquired]), h.nodup,
      queued_update h (fun _ hm _ => hm) (fun hm => absurd hm hq), fun hne hwc => ?_⟩
    refine rouses_keep (h.wakeup hne (by rw [hw]; decide)) (fun hr => absurd hr ?_) (fun _ hm => hm)
    exact not_rouses_of_op hop hna fun hr => hwc (hmark hr)
  | missed w pc hw hwc hop hna hmark hpl =>
    have hq := not_queued h hna
    have hwu : w ≠ unlocked := by
      rcases hwc with rfl | rfl
      · exact hw
      · decide
    refine ⟨guards_update h (by simp [goto, hw, hwu]),
      dropping_update h (fun hr => absurd hr (plain_not_release hpl)), h.nodup,
      queued_update h (fun _ hm _ => hm) (fun hm => absurd hm hq), fun hne hwn => ?_⟩
    have hsame : w = c.sh.word := hwc.resolve_right hwn
    refine rouses_keep (h.wakeup hne (hsame ▸ hwn)) (fun hr => absurd hr ?_) (fun _ hm => hm)
    exact not_rouses_of_op hop hna fun hr => hwn (hmark hr)
  | released hpc =>
    have hq := not_queued h (p := p) (by simp [hpc, asleep?])
    have hg := h.dropping p hpc
    have hle := le_tally Local.guards c.lo p
    have hword : c.sh.word ≠ unlocked := by
      intro hw
      have := h.guards
      simp only [hw, if_true] at this
      omega
    refine ⟨guards_update h ?_, dropping_update h ?_, h.nodup,
      queued_update h (fun _ hm _ => hm) (fun hm => absurd hm hq), fun hne _ => ?_⟩
    · simp only [if_true, hword, if_false]
      omega
    · split <;> simp
    · by_cases hc : c.sh.word = contended
      · exact ⟨p, by simp [Rouses, hc]⟩
      · refine rouses_keep (h.wakeup hne hc) (fun hr => ?_) (fun _ hm => hm)
        simp [Rouses, hpc, asleep?, remarking] at hr
  | woke q hpc hq =>
    have hp := not_queued h (p := p) (by simp [hpc, asleep?])
    have hqp : q ≠ p := fun he => hp (he ▸ hq)
    refine ⟨guards_update h (by simp [goto]), dropping_update h (by simp [goto]),
      h.nodup.erase q, queued_update h (fun _ hm _ => List.mem_of_mem_erase hm)
        (fun hm => absurd (List.mem_of_mem_erase hm) hp), fun _ _ => ⟨q, ?_⟩⟩
    have hrouse : Rouses (P := P) ⟨c.sh.word, c.sh.queue.erase q⟩ q (c.lo q) :=
      Or.inr (Or.inl ⟨h.queued q hq, h.nodup.not_mem_erase⟩)
    simpa [update_of_ne hqp] using hrouse
  | wokeNobody hpc hq =>
    have hp := not_queued h (p := p) (by simp [hpc, asleep?])
    exact ⟨guards_update h (by simp [goto]), dropping_update h (by simp [goto]),
      h.nodup, queued_update h (fun _ hm _ => hm) (fun hm => absurd hm hp),
      fun hne _ => absurd hq hne⟩

theorem inv_init : Inv (machine P).init := by constructor <;> simp [machine, Machine.init, tally]

theorem preserves_inv : (machine P).Preserves Inv := fun _ _ _ _ _ h hs => inv_move h (step_move hs)

theorem reachable_inv (hc : (machine P).Reachable c) : Inv c := preserves_inv.reachable inv_init hc

end

theorem move_keeps_locked {l' : Local} (hm : Move p sh l sh' l') (hop : l.pc.op? ≠ none)
    (hw : sh.word ≠ unlocked) : sh'.word ≠ unlocked := by
  cases hm with
  | acquired w _ hwn => exact hwn
  | missed w pc _ hwc =>
    rcases hwc with rfl | rfl
    · exact hw
    · simp [unlocked, contended]
  | released hpc => simp [hpc, op?] at hop
  | _ => exact hw

def LostWakeup (c : Config P (Shared P) Local) : Prop :=
  c.sh.queue ≠ [] ∧ c.sh.word = unlocked ∧ ∀ p, ¬ Rouses c.sh p (c.lo p)

theorem futex_mutex_safe [Fintype P] (c : Config P (Shared P) Local)
    (hc : (machine P).Reachable c) :
    tally Local.guards c.lo ≤ 1 ∧
    (c.sh.word ≠ unlocked ↔ ∃ p, 0 < (c.lo p).guards) ∧
    ¬ LostWakeup c ∧
    ∀ p i c', (machine P).next c p i = some c' → (c.lo p).pc.op? ≠ none →
      c.sh.word ≠ unlocked → c'.sh.word ≠ unlocked := by
  have h := reachable_inv hc
  have hg := h.guards
  refine ⟨?_, ?_, ?_, ?_⟩
  · split at hg <;> omega
  · rw [← tally_pos, hg]
    split <;> simp_all
  · rintro ⟨hne, hw, hno⟩
    obtain ⟨p, hp⟩ := h.wakeup hne (by rw [hw]; decide)
    exact hno p hp
  · intro p i c' hn hop hw
    obtain ⟨sh, l, hs, rfl⟩ := Machine.next_eq_some.mp hn
    exact move_keeps_locked (step_move hs) hop hw

def handoffTrace : List (Bool × In Bool) :=
  [(false, .call .tryLock), (false, .go), (true, .call .lock), (true, .go)] ++
    (List.replicate futexSpinLimit (true, .go) ++
      [(true, .go), (true, .enqueue), (false, .drop), (false, .go)])

theorem futex_mutex_safe_at_handoff :
    ∃ c, (machine Bool).Reachable c ∧ (c.sh.queue, c.sh.word) = ([true], unlocked) ∧
      ¬ LostWakeup c := by
  have hrun : ((machine Bool).run (machine Bool).init handoffTrace).map
      (fun c => (c.sh.queue, c.sh.word)) = some ([true], unlocked) := by
    decide +kernel
  obtain ⟨c, hc, hv⟩ := Machine.exists_reachable hrun
  exact ⟨c, hc, hv, (futex_mutex_safe c hc).2.2.1⟩

end DevHermit.Shmem.Futex
