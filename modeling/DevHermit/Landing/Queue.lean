import DevHermit.Landing.QueueFile
import DevHermit.Landing.Specs

namespace DevHermit.Landing

open Lib List

inductive Command where
  | tryAcquire (args : AcquireArgs)
  | timeOut (agent : String)
  | renew (agent : String) (hold : UInt64)
  | release (agent : String)
  | reclaimDead
  deriving DecidableEq, Repr

def Command.plan (env : Env) (d : Disk) :
    Command → Except LandLockError (Plan (Option AcquireToken))
  | .tryAcquire args => do
      let p ← Landing.tryAcquire env args d
      pure (p.1, some p.2)
  | .timeOut agent => pure (removeFromQueue agent d, none)
  | .renew agent hold => do
      let p ← Landing.renew env agent hold d
      pure (p.1, none)
  | .release agent => do
      let p ← Landing.release env agent d
      pure (p.1, none)
  | .reclaimDead => do
      let p ← Landing.reclaimDead env d
      pure (p.1, none)

def Command.after (env : Env) (command : Command) (d : Disk) : Disk :=
  match command.plan env d with
  | .ok p => d.perform p.1
  | .error _ => d

def Command.answer (env : Env) (command : Command) (d : Disk) : Option AcquireToken :=
  match command.plan env d with
  | .ok p => p.2
  | .error _ => none

def AcquireToken.Granted : AcquireToken → Prop
  | .acquired | .acquiredReclaimed _ => True
  | .held _ _ | .waitTurn _ => False

def Command.Plain (env : Env) : Command → Prop
  | .tryAcquire args => InI64 env.now ∧ args.Plain
  | _ => True

instance (env : Env) : (command : Command) → Decidable (Command.Plain env command)
  | .tryAcquire args => inferInstanceAs (Decidable (InI64 env.now ∧ args.Plain))
  | .timeOut _ | .renew _ _ | .release _ | .reclaimDead => inferInstanceAs (Decidable True)

def Guarded (d d' : Disk) : Prop :=
  ∃ env command, Command.Plain env command ∧ d' = Command.after env command d

abbrev Run : Disk → Disk → Prop := Relation.ReflTransGen Guarded

structure Shift (keep : QueueEntry → Bool) (new queue queue' : List QueueEntry) : Prop where
  eq : queue' = queue.filter keep ++ new
  fresh : ∀ entry ∈ new, entry.agent ∉ queue.map QueueEntry.agent
  single : new.length ≤ 1

theorem Shift.refl (queue : List QueueEntry) : Shift (fun _ => true) [] queue queue where
  eq := by rw [filter_true, append_nil]
  fresh := by rintro entry ⟨⟩
  single := Nat.zero_le 1

variable {queue : List QueueEntry}

theorem Shift.filter {keep : QueueEntry → Bool} {new queue' : List QueueEntry}
    (h : Shift keep new queue queue') (p : QueueEntry → Bool) :
    Shift (fun entry => p entry && keep entry) (new.filter p) queue (queue'.filter p) where
  eq := by rw [h.eq, filter_append, List.filter_filter]
  fresh := fun entry he => h.fresh entry (mem_of_mem_filter he)
  single := (length_filter_le p new).trans h.single

theorem Shift.enqueue (now : Int) (args : AcquireArgs) (queue : List QueueEntry) :
    ∃ new, Shift (fun _ => true) new queue (enqueue now args queue) := by
  rw [Landing.enqueue]
  split_ifs with h
  · exact ⟨[], Shift.refl queue⟩
  · refine ⟨[⟨now, args.agent, args.pr⟩], by rw [filter_true], ?_, Nat.le_refl 1⟩
    intro entry he hmem
    rw [mem_singleton] at he
    obtain ⟨other, ho, hagent⟩ := List.mem_map.mp hmem
    exact h ⟨other, ho, by rw [hagent, he]⟩

def recent (now : Int) (entry : QueueEntry) : Bool :=
  decide (now - 2 * defaultWaitSeconds ≤ entry.enqueuedAt)

theorem Shift.pool (now : Int) (args : AcquireArgs) (queue : List QueueEntry) :
    ∃ new, Shift (recent now) new queue (prune now (Landing.enqueue now args queue)) := by
  obtain ⟨new, h⟩ := Shift.enqueue now args queue
  have hp := h.filter (recent now)
  simp only [Bool.and_true] at hp
  exact ⟨_, hp⟩

section

variable {keep : QueueEntry → Bool} {new queue queue' : List QueueEntry}

section

variable (h : Shift keep new queue queue')
include h

theorem Shift.nodup
    (hn : (queue.map QueueEntry.agent).Nodup) : (queue'.map QueueEntry.agent).Nodup := by
  rw [h.eq, map_append, nodup_append']
  refine ⟨hn.sublist (filter_sublist.map _), ?_, ?_⟩
  · rcases new with - | ⟨entry, rest⟩
    · exact nodup_nil
    · have hr : rest = [] :=
        length_eq_zero_iff.mp (Nat.le_zero.mp (Nat.le_of_succ_le_succ h.single))
      rw [hr]
      exact nodup_singleton _
  · intro agent hkept hnew
    obtain ⟨entry, he, rfl⟩ := List.mem_map.mp hnew
    exact h.fresh entry he ((filter_sublist.map _).subset hkept)

theorem Shift.keep_of_mem {entry : QueueEntry}
    (he : entry ∈ queue) (he' : entry ∈ queue') : keep entry = true := by
  rw [h.eq, mem_append] at he'
  rcases he' with hk | hn
  · exact (mem_filter.mp hk).2
  · exact absurd (List.mem_map_of_mem he) (h.fresh entry hn)

theorem Shift.order {a b : QueueEntry}
    (hab : List.Sublist [a, b] queue) (ha : a ∈ queue') (hb : b ∈ queue') :
    List.Sublist [a, b] queue' := by
  have ka : keep a = true := h.keep_of_mem (hab.subset (by simp)) ha
  have kb : keep b = true := h.keep_of_mem (hab.subset (by simp)) hb
  have hf : [a, b].filter keep = [a, b] := by simp [ka, kb]
  rw [h.eq, ← hf]
  exact (hab.filter keep).trans (sublist_append_left _ _)

theorem Shift.dropped {entry : QueueEntry}
    (he : entry ∈ queue) (he' : entry ∉ queue') : keep entry = false := by
  rw [h.eq, mem_append, mem_filter, not_or, not_and, Bool.not_eq_true] at he'
  exact he'.1 he

end

end

inductive Effect (env : Env) (d d' : Disk) : Command → Option AcquireToken → Prop
  | waits {args : AcquireArgs} {token : AcquireToken} (ht : ¬ token.Granted)
      (hholder : d'.holder = d.holder)
      (hqueue : d'.queue = prune env.now (enqueue env.now args d.queue)) :
      Effect env d d' (.tryAcquire args) (some token)
  | granted {args : AcquireArgs} {token : AcquireToken} (ht : token.Granted)
      (hhead : ∀ head, (prune env.now (enqueue env.now args d.queue)).head? = some head →
        head.agent = args.agent)
      (hqueue : d'.queue =
        withdraw args.agent (prune env.now (enqueue env.now args d.queue))) :
      Effect env d d' (.tryAcquire args) (some token)
  | timedOut {agent : String} (hqueue : d'.queue = withdraw agent d.queue) :
      Effect env d d' (.timeOut agent) none
  | released {agent : String} (hqueue : d'.queue = withdraw agent d.queue) :
      Effect env d d' (.release agent) none
  | untouched {command : Command} (hqueue : d'.queue = d.queue) : Effect env d d' command none

theorem grantToken_granted (reclaimed : Option Reclaimed) : (grantToken reclaimed).Granted := by
  cases reclaimed with
  | none => trivial
  | some previous =>
    rw [grantToken.eq_def]
    dsimp only
    split_ifs
    · trivial
    · trivial

variable {d : Disk} {env : Env} {args : AcquireArgs}

theorem effect_tryAcquire {p : Plan AcquireToken} (h : tryAcquire env args d = .ok p) :
    Effect env d (d.perform p.1) (.tryAcquire args) (some p.2) := by
  obtain ⟨holder, dead, -, -, -, ⟨live, -, rfl⟩ | ⟨-, rfl⟩⟩ := tryAcquire_ok h
  · exact .waits not_false rfl rfl
  · rcases takeTurn_cases env args holder dead (prune env.now (enqueue env.now args d.queue)) with
      ⟨head, -, -, ht⟩ | ⟨hhead, ht⟩
    · rw [ht]
      exact .waits not_false rfl rfl
    · rw [ht]
      exact .granted (grantToken_granted _) hhead rfl

variable {command : Command}

theorem effect_of_plan {p : Plan (Option AcquireToken)} (h : command.plan env d = .ok p) :
    Effect env d (d.perform p.1) command p.2 := by
  cases command with
  | tryAcquire args =>
    rw [Command.plan, bind_eq_ok] at h
    obtain ⟨q, hq, hp⟩ := h
    cases hp
    exact effect_tryAcquire hq
  | timeOut agent =>
    cases h
    exact .timedOut rfl
  | renew agent hold =>
    rw [Command.plan, bind_eq_ok] at h
    obtain ⟨q, hq, hp⟩ := h
    cases hp
    obtain ⟨holder, -, -, -, hops⟩ := renew_ok hq
    exact .untouched (by rw [hops]; rfl)
  | release agent =>
    rw [Command.plan, bind_eq_ok] at h
    obtain ⟨q, hq, hp⟩ := h
    cases hp
    obtain ⟨-, ⟨-, hops⟩ | ⟨holder, -, -, hops⟩⟩ := release_ok hq
    · exact .untouched (by rw [hops]; rfl)
    · exact .released (by rw [hops]; rfl)
  | reclaimDead =>
    rw [Command.plan, bind_eq_ok] at h
    obtain ⟨q, hq, hp⟩ := h
    cases hp
    rcases reclaimDead_ok hq with ⟨-, -, hops⟩ | ⟨holder, reason, -, -, -, hops⟩
    · exact .untouched (by rw [hops]; rfl)
    · exact .untouched (by rw [hops]; rfl)

theorem effect (env : Env) (command : Command) (d : Disk) :
    Effect env d (command.after env d) command (command.answer env d) := by
  rw [Command.after, Command.answer]
  cases hp : command.plan env d with
  | error e => exact .untouched rfl
  | ok p => exact effect_of_plan hp

variable {d' : Disk} {token : Option AcquireToken}

theorem Effect.shift (h : Effect env d d' command token) :
    ∃ keep new, Shift keep new d.queue d'.queue := by
  cases h with
  | waits ht hholder hqueue =>
    rw [hqueue]
    exact ⟨_, Shift.pool _ _ _⟩
  | granted ht hhead hqueue =>
    rw [hqueue]
    obtain ⟨new, hs⟩ := Shift.pool env.now _ d.queue
    exact ⟨_, _, hs.filter _⟩
  | timedOut hqueue | released hqueue =>
    rw [hqueue]
    exact ⟨_, _, (Shift.refl d.queue).filter _⟩
  | untouched hqueue =>
    rw [hqueue]
    exact ⟨_, _, Shift.refl d.queue⟩

variable {entry : QueueEntry} {now : Int}

theorem stale_of_not_recent (h : recent now entry = false) : 3600 < now - entry.enqueuedAt := by
  rw [recent, decide_eq_false_iff_not, not_le, defaultWaitSeconds] at h
  omega

theorem Effect.vanished (h : Effect env d d' command token) (he : entry ∈ d.queue)
    (he' : entry ∉ d'.queue) : command = .timeOut entry.agent ∨ command = .release entry.agent ∨
      ∃ args answer, command = .tryAcquire args ∧ token = some answer ∧
        (entry.agent = args.agent ∧ answer.Granted ∨ 3600 < env.now - entry.enqueuedAt) := by
  have own : ∀ {agent : String}, decide (entry.agent ≠ agent) = false → entry.agent = agent :=
    fun hd => not_not.mp (decide_eq_false_iff_not.mp hd)
  cases h with
  | waits ht hholder hqueue =>
    rw [hqueue] at he'
    obtain ⟨new, hs⟩ := Shift.pool env.now _ d.queue
    exact .inr (.inr ⟨_, _, rfl, rfl, .inr (stale_of_not_recent (hs.dropped he he'))⟩)
  | granted ht hhead hqueue =>
    rw [hqueue] at he'
    obtain ⟨new, hs⟩ := Shift.pool env.now _ d.queue
    rcases Bool.and_eq_false_iff.mp ((hs.filter _).dropped he he') with hd | hf
    · exact .inr (.inr ⟨_, _, rfl, rfl, .inl ⟨own hd, ht⟩⟩)
    · exact .inr (.inr ⟨_, _, rfl, rfl, .inr (stale_of_not_recent hf)⟩)
  | timedOut hqueue =>
    rw [hqueue] at he'
    have hd := ((Shift.refl d.queue).filter _).dropped he he'
    rw [Bool.and_true] at hd
    exact .inl (congrArg Command.timeOut (own hd).symm)
  | released hqueue =>
    rw [hqueue] at he'
    have hd := ((Shift.refl d.queue).filter _).dropped he he'
    rw [Bool.and_true] at hd
    exact .inr (.inl (congrArg Command.release (own hd).symm))
  | untouched hqueue => exact absurd (hqueue ▸ he) he'

variable {ahead behind : List QueueEntry}

theorem head_of_recent (args : AcquireArgs) (hq : queue = ahead ++ entry :: behind)
    (hf : recent now entry = true) :
    ∃ head, (prune now (enqueue now args queue)).head? = some head ∧
      (head ∈ ahead ∨ head = entry) := by
  obtain ⟨new, hs⟩ := Shift.pool now args queue
  rw [hs.eq, hq, filter_append, filter_cons_of_pos hf, append_assoc, cons_append]
  cases hk : ahead.filter (recent now) with
  | nil => exact ⟨entry, rfl, .inr rfl⟩
  | cons head rest =>
    refine ⟨head, rfl, .inl ?_⟩
    exact mem_of_mem_filter (hk ▸ mem_cons_self)

theorem Effect.no_overtaking {token : AcquireToken}
    (h : Effect env d d' (.tryAcquire args) (some token)) (ht : token.Granted)
    (hq : d.queue = ahead ++ entry :: behind) (hother : entry.agent ≠ args.agent)
    (hahead : ∀ earlier ∈ ahead, earlier.agent ≠ args.agent) :
    3600 < env.now - entry.enqueuedAt := by
  cases h with
  | waits hn hholder hqueue => exact absurd ht hn
  | granted hg hhead hqueue =>
    apply stale_of_not_recent
    by_contra hf
    obtain ⟨head, hh, hin | rfl⟩ := head_of_recent args hq (Bool.not_eq_false _ ▸ hf)
    · exact hahead head hin (hhead head hh)
    · exact hother (hhead head hh)

theorem Effect.patient {token : AcquireToken} (h : Effect env d d' command (some token))
    (ht : ¬ token.Granted) : d'.holder = d.holder := by
  cases h with
  | waits hn hholder hqueue => exact hholder
  | granted hg hhead hqueue => exact absurd hg ht

theorem Effect.plain (h : Effect env d d' command token) (hplain : command.Plain env)
    (hq : ∀ entry ∈ d.queue, entry.Plain) : ∀ entry ∈ d'.queue, entry.Plain := by
  have hpool : ∀ args, command = .tryAcquire args →
      ∀ entry ∈ prune env.now (enqueue env.now args d.queue), entry.Plain := by
    rintro args rfl entry he
    have he := mem_of_mem_filter he
    rw [enqueue] at he
    split_ifs at he
    · exact hq entry he
    · rcases mem_append.mp he with he | he
      · exact hq entry he
      · rw [mem_singleton.mp he]
        exact ⟨hplain.1, hplain.2.1, hplain.2.2⟩
  cases h with
  | waits ht hholder hqueue =>
    rw [hqueue]
    exact hpool _ rfl
  | granted ht hhead hqueue =>
    rw [hqueue]
    exact fun entry he => hpool _ rfl entry (mem_of_mem_filter he)
  | timedOut hqueue | released hqueue =>
    rw [hqueue]
    exact fun entry he => hq entry (mem_of_mem_filter he)
  | untouched hqueue =>
    rw [hqueue]
    exact hq

theorem Run.plain (h : Run d d') (hq : ∀ entry ∈ d.queue, entry.Plain) :
    ∀ entry ∈ d'.queue, entry.Plain := by
  induction h with
  | refl => exact hq
  | tail hrun hstep ih =>
    obtain ⟨env, command, hplain, rfl⟩ := hstep
    exact (effect env command _).plain hplain ih

theorem Run.nodup (h : Run d d') (hn : (d.queue.map QueueEntry.agent).Nodup) :
    (d'.queue.map QueueEntry.agent).Nodup := by
  induction h with
  | refl => exact hn
  | tail hrun hstep ih =>
    obtain ⟨env, command, -, rfl⟩ := hstep
    obtain ⟨keep, new, hs⟩ := (effect env command _).shift
    exact hs.nodup ih

theorem Run.survivors (h : Run d d') :
    ∃ survivors newer, d'.queue = survivors ++ newer ∧ List.Sublist survivors d.queue := by
  induction h with
  | refl => exact ⟨_, [], (append_nil _).symm, .refl _⟩
  | tail hrun hstep ih =>
    obtain ⟨env, command, -, rfl⟩ := hstep
    obtain ⟨keep, new, hs⟩ := (effect env command _).shift
    obtain ⟨survivors, newer, hq, hsub⟩ := ih
    refine ⟨survivors.filter keep, newer.filter keep ++ new, ?_, ?_⟩
    · rw [hs.eq, hq, filter_append, append_assoc]
    · exact filter_sublist.trans hsub

theorem landing_queue_is_fifo {start d : Disk} (hstart : start.queue = []) (hrun : Run start d) :
    readQueue (writeQueue d.queue) = some d.queue ∧ (d.queue.map QueueEntry.agent).Nodup ∧
    (∀ later, Run d later → ∃ survivors newer,
      later.queue = survivors ++ newer ∧ List.Sublist survivors d.queue) ∧
    ∀ (env : Env) (command : Command), command.Plain env →
      readQueue (writeQueue (command.after env d).queue) = some (command.after env d).queue ∧
      (∀ a b, List.Sublist [a, b] d.queue → a ∈ (command.after env d).queue →
        b ∈ (command.after env d).queue → List.Sublist [a, b] (command.after env d).queue) ∧
      (∀ args token, command = .tryAcquire args → command.answer env d = some token →
        token.Granted → ∀ ahead entry behind, d.queue = ahead ++ entry :: behind →
          entry.agent ≠ args.agent → (∀ earlier ∈ ahead, earlier.agent ≠ args.agent) →
          env.now - entry.enqueuedAt > 3600) ∧
      (∀ entry ∈ d.queue, entry ∉ (command.after env d).queue →
        command = .timeOut entry.agent ∨ command = .release entry.agent ∨
          ∃ args answer, command = .tryAcquire args ∧ command.answer env d = some answer ∧
            (entry.agent = args.agent ∧ answer.Granted ∨ env.now - entry.enqueuedAt > 3600)) ∧
      (∀ token, command.answer env d = some token → ¬ token.Granted →
        (command.after env d).holder = d.holder) := by
  have hplain := hrun.plain (by rw [hstart]; rintro entry ⟨⟩)
  refine ⟨QueueEntry.Plain.readQueue_writeQueue hplain,
    hrun.nodup (by rw [hstart]; exact nodup_nil), fun later h => h.survivors, ?_⟩
  intro env command hcommand
  have he := effect env command d
  obtain ⟨keep, new, hs⟩ := he.shift
  refine ⟨QueueEntry.Plain.readQueue_writeQueue (he.plain hcommand hplain),
    fun a b hab ha hb => hs.order hab ha hb, ?_, ?_, ?_⟩
  · rintro args token rfl hanswer ht ahead entry behind hq hother hahead
    rw [hanswer] at he
    exact he.no_overtaking ht hq hother hahead
  · exact fun entry hin hout => he.vanished hin hout
  · intro token hanswer ht
    rw [hanswer] at he
    exact he.patient ht

def demoEnv (now : Int) : Env := ⟨now, now, "box", some 0, fun _ => .missing, fun _ => .absent, ⟨1, 1⟩⟩

def demoQueue : Disk :=
  Command.after (demoEnv 30) (.release "a") <|
    Command.after (demoEnv 20) (.tryAcquire ⟨"c", "3", 600⟩) <|
      Command.after (demoEnv 10) (.tryAcquire ⟨"b", "2", 600⟩) <|
        Command.after (demoEnv 0) (.tryAcquire ⟨"a", "1", 600⟩) Disk.empty

theorem demoQueue_run : Run Disk.empty demoQueue :=
  .tail (.tail (.tail (.tail .refl ⟨_, _, by decide +kernel, rfl⟩) ⟨_, _, by decide +kernel, rfl⟩)
    ⟨_, _, by decide +kernel, rfl⟩) ⟨_, _, by decide +kernel, rfl⟩

theorem stale_entry_passed_over :
    demoQueue.queue = [⟨10, "b", "2"⟩, ⟨20, "c", "3"⟩] ∧
      Command.answer (demoEnv 3615) (.tryAcquire ⟨"c", "3", 600⟩) demoQueue = some .acquired ∧
      (demoEnv 3615).now - 10 > 3600 := by
  have hq : demoQueue.queue = [⟨10, "b", "2"⟩, ⟨20, "c", "3"⟩] := by decide +kernel
  have ha : Command.answer (demoEnv 3615) (.tryAcquire ⟨"c", "3", 600⟩) demoQueue =
      some .acquired := by decide +kernel
  obtain ⟨-, -, -, hstep⟩ := landing_queue_is_fifo rfl demoQueue_run
  obtain ⟨-, -, hfifo, -⟩ := hstep (demoEnv 3615) (.tryAcquire ⟨"c", "3", 600⟩)
    (by decide +kernel)
  exact ⟨hq, ha, hfifo _ _ rfl ha trivial [] _ _ hq (by decide) nofun⟩

def forgedPr : String := "1\n5\tb\t2"

def demoHeld : Disk := Command.after (demoEnv 0) (.tryAcquire ⟨"a", "1", 600⟩) Disk.empty

theorem forged_pr_queues_agent_twice :
    Run Disk.empty demoHeld ∧
      (Command.answer (demoEnv 10) (.tryAcquire ⟨"b", forgedPr, 600⟩) demoHeld).isSome ∧
      readQueue (writeQueue
        (Command.after (demoEnv 10) (.tryAcquire ⟨"b", forgedPr, 600⟩) demoHeld).queue) =
        some [⟨10, "b", "1"⟩, ⟨5, "b", "2"⟩] :=
  ⟨.single ⟨_, _, by decide +kernel, rfl⟩, by decide +kernel, by decide +kernel⟩

end DevHermit.Landing
