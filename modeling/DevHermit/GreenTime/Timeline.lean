import DevHermit.Lib.Python
import DevHermit.Lib.Timeline

namespace DevHermit.GreenTime

open Lib List

inductive State where
  | red
  | softGreen
  | hardGreen
  | unknown
  deriving DecidableEq, Repr

def states : List State := [.red, .softGreen, .hardGreen]

structure Commit where
  sha : String
  timestamp : Int
  nonempty : sha ≠ ""
  deriving DecidableEq

structure Segment where
  state : State
  startTs : Int
  endTs : Int
  startSha : String
  sourceSha : Option String
  deriving DecidableEq, Repr

def Segment.seconds (s : Segment) : Int := max 0 (s.endTs - s.startTs)

abbrev Signals := Dict State

structure Carry where
  state : State
  source : Option String
  startTs : Int
  startSha : String
  deriving DecidableEq, Repr

def Carry.close (c : Carry) (endTs : Int) : Segment :=
  ⟨c.state, c.startTs, endTs, c.startSha, c.source⟩

section

variable (signals : Signals)

def flip (state : State) (commit : Commit) : State := (signals.get? commit.sha).getD state

def Carry.next (c : Carry) (commit : Commit) : Carry :=
  if flip signals c.state commit ≠ c.state then
    ⟨flip signals c.state commit, some commit.sha, commit.timestamp, commit.sha⟩
  else if (signals.get? commit.sha).isSome then { c with source := some commit.sha }
  else c

def Carry.closed (c : Carry) (commit : Commit) : List Segment :=
  if flip signals c.state commit ≠ c.state ∧
      (c.startTs < commit.timestamp ∨ c.state ≠ .unknown) then [c.close commit.timestamp]
  else []

def segmentsFrom (endTs : Int) : Carry → List Commit → List Segment
  | c, [] => [c.close endTs]
  | c, commit :: rest => c.closed signals commit ++ segmentsFrom endTs (c.next signals commit) rest

def closing (now : Int) (first : Commit) (rest : List Commit) : Int :=
  max now ((first :: rest).getLast (cons_ne_nil _ _)).timestamp

def buildTimeline (commits : List Commit) (now : Int) : Except PyError (List Segment) :=
  match commits with
  | [] => .ok []
  | first :: rest =>
    if ∃ entry ∈ signals.entries, entry.2 ∉ states then .error (.raised "ValueError")
    else .ok ((segmentsFrom signals (closing now first rest)
      ⟨.unknown, none, first.timestamp, first.sha⟩ (first :: rest)).filter fun s => 0 < s.seconds)

end

def secondsIn (segments : List Segment) (state : State) : Int :=
  ((segments.filter fun s => s.state = state).map Segment.seconds).sum

structure Seconds where
  red : Int
  softGreen : Int
  hardGreen : Int
  unknownLead : Int
  attributable : Int
  deriving DecidableEq, Repr

def Seconds.total (s : Seconds) : Int := s.red + s.softGreen + s.hardGreen + s.unknownLead

def summarizeSeconds (segments : List Segment) : Seconds where
  red := secondsIn segments .red
  softGreen := secondsIn segments .softGreen
  hardGreen := secondsIn segments .hardGreen
  unknownLead := secondsIn segments .unknown
  attributable := secondsIn segments .red + secondsIn segments .softGreen +
    secondsIn segments .hardGreen + secondsIn segments .unknown - secondsIn segments .unknown

def carriedAt (signals : Signals) (commits : List Commit) (t : ℚ) : State :=
  ((commits.filter fun c => (signals.get? c.sha).isSome && decide ((c.timestamp : ℚ) ≤ t)).getLast?.bind
    fun c => signals.get? c.sha).getD .unknown

def leadEnd (signals : Signals) (endTs : Int) : List Commit → Int
  | [] => endTs
  | c :: rest => if (signals.get? c.sha).isSome then c.timestamp else leadEnd signals endTs rest

section

variable {signals : Signals} {endTs : Int} {c : Carry} {commit : Commit} {rest : List Commit}
  {s : Segment}

theorem next_state : (c.next signals commit).state = flip signals c.state commit := by
  rw [Carry.next]
  split_ifs with h
  · rfl
  all_goals exact (not_not.mp h).symm

theorem next_startTs :
    (c.next signals commit).startTs = if flip signals c.state commit ≠ c.state then commit.timestamp
      else c.startTs := by
  rw [Carry.next]
  split_ifs <;> rfl

def Ascending (endTs : Int) : Int → List Commit → Prop
  | a, [] => a ≤ endTs
  | a, c :: rest => a ≤ c.timestamp ∧ Ascending endTs c.timestamp rest

variable {a : Int}

theorem Ascending.mono {b : Int} (h : Ascending endTs b rest) (hab : a ≤ b) :
    Ascending endTs a rest := by
  cases rest with
  | nil => exact hab.trans h
  | cons c rest => exact ⟨hab.trans h.1, h.2⟩

theorem Ascending.next (h : Ascending endTs c.startTs (commit :: rest)) :
    Ascending endTs (c.next signals commit).startTs rest := by
  rw [next_startTs]
  split_ifs
  · exact h.2
  · exact h.2.mono h.1

theorem Ascending.le (h : Ascending endTs a rest) : ∀ d ∈ rest, a ≤ d.timestamp := by
  induction rest generalizing a with
  | nil => simp
  | cons d rest ih =>
    intro e he
    rcases mem_cons.mp he with rfl | he
    · exact h.1
    · exact h.1.trans (ih h.2 e he)

theorem ascending_of_pairwise {first : Commit} {now : Int}
    (h : (first :: rest).Pairwise fun x y => x.timestamp ≤ y.timestamp) :
    Ascending (closing now first rest) first.timestamp rest := by
  induction rest generalizing first with
  | nil => exact le_max_right _ _
  | cons d rest ih =>
    obtain ⟨hd, hrest⟩ := pairwise_cons.mp h
    refine ⟨hd d mem_cons_self, ?_⟩
    have hclosing : closing now first (d :: rest) = closing now d rest := by simp [closing]
    rw [hclosing]
    exact ih hrest

theorem closed_tiles (h : flip signals c.state commit ≠ c.state → c.startTs ≤ commit.timestamp) :
    Tiles Segment.startTs Segment.endTs c.startTs (c.next signals commit).startTs
      (c.closed signals commit) := by
  rw [next_startTs, Carry.closed]
  by_cases hflip : flip signals c.state commit ≠ c.state
  · rw [if_pos hflip]
    split_ifs with hclose
    · exact ⟨rfl, h hflip, rfl⟩
    · exact le_antisymm (h hflip) (not_lt.mp fun hlt => hclose ⟨hflip, .inl hlt⟩)
  · rw [if_neg hflip, if_neg fun hclose => hflip hclose.1]
    rfl

theorem segmentsFrom_tiles (h : Ascending endTs c.startTs rest) :
    Tiles Segment.startTs Segment.endTs c.startTs endTs (segmentsFrom signals endTs c rest) := by
  induction rest generalizing c with
  | nil => exact ⟨rfl, h, rfl⟩
  | cons commit rest ih => exact (closed_tiles fun _ => h.1).append (ih h.next)

theorem mem_closed (h : s ∈ c.closed signals commit) :
    s = c.close commit.timestamp ∧ flip signals c.state commit ≠ c.state := by
  rw [Carry.closed] at h
  split_ifs at h with hclose
  · exact ⟨mem_singleton.mp h, hclose.1⟩
  · cases h

def carryAt (signals : Signals) (t : ℚ) : State → List Commit → State
  | state, [] => state
  | state, c :: rest =>
    carryAt signals t (if (c.timestamp : ℚ) ≤ t then flip signals state c else state) rest

theorem carryAt_eq (t : ℚ) (state : State) (commits : List Commit) :
    carryAt signals t state commits = ((commits.filter fun c => (signals.get? c.sha).isSome &&
      decide ((c.timestamp : ℚ) ≤ t)).getLast?.bind fun c => signals.get? c.sha).getD state := by
  induction commits generalizing state with
  | nil => rfl
  | cons c rest ih =>
    rw [carryAt, ih, flip]
    by_cases ht : (c.timestamp : ℚ) ≤ t
    · cases hsig : signals.get? c.sha with
      | none => simp [ht, hsig]
      | some value =>
        rw [filter_cons_of_pos (by simp [hsig, ht]), List.getLast?_cons, if_pos ht]
        cases hlast : (rest.filter fun c => (signals.get? c.sha).isSome &&
            decide ((c.timestamp : ℚ) ≤ t)).getLast? with
        | none => simp [hsig]
        | some d =>
          have hd := (mem_filter.mp (mem_of_getLast? hlast)).2
          obtain ⟨value', hvalue⟩ := Option.isSome_iff_exists.mp (Bool.and_eq_true_iff.mp hd).1
          simp [hvalue]
    · rw [filter_cons_of_neg (by simp [ht]), if_neg ht]

variable {t : ℚ}

theorem carryAt_later {state : State} (h : ∀ d ∈ rest, t < d.timestamp) :
    carryAt signals t state rest = state := by
  induction rest generalizing state with
  | nil => rfl
  | cons d rest ih =>
    rw [carryAt, if_neg (not_le.mpr (h d mem_cons_self))]
    exact ih fun e he => h e (mem_cons_of_mem _ he)

theorem segmentsFrom_state (h : Ascending endTs c.startTs rest)
    (hs : s ∈ segmentsFrom signals endTs c rest) (hlo : (s.startTs : ℚ) ≤ t) (hhi : t < s.endTs) :
    s.state = carryAt signals t c.state rest := by
  induction rest generalizing c with
  | nil =>
    rw [mem_singleton.mp hs]
    rfl
  | cons commit rest ih =>
    rcases mem_append.mp hs with hclosed | hs
    · obtain ⟨rfl, -⟩ := mem_closed hclosed
      refine (carryAt_later fun d hd => ?_).symm
      have hle : commit.timestamp ≤ d.timestamp := by
        rcases mem_cons.mp hd with rfl | hd
        · exact le_rfl
        · exact h.2.le d hd
      exact hhi.trans_le (by exact_mod_cast hle)
    · rw [ih h.next hs, carryAt, next_state]
      by_cases hflip : flip signals c.state commit ≠ c.state
      · have hstart := ((segmentsFrom_tiles h.next).bounds hs).1
        rw [next_startTs, if_pos hflip] at hstart
        rw [if_pos (le_trans (by exact_mod_cast hstart) hlo)]
      · rw [not_not.mp hflip, ite_self]

def Backed (signals : Signals) (commits : List Commit) (state : State) (source : Option String)
    (startTs : Int) (upTo : Int → Prop) : Prop :=
  state ≠ .unknown → ∃ x ∈ commits, signals.get? x.sha = some state ∧ source = some x.sha ∧
    startTs ≤ x.timestamp ∧ upTo x.timestamp

theorem Backed.next {commits : List Commit} (hmem : commit ∈ commits)
    (h : Ascending endTs c.startTs (commit :: rest))
    (hc : Backed signals commits c.state c.source c.startTs fun a =>
      Ascending endTs a (commit :: rest)) :
    Backed signals commits (c.next signals commit).state (c.next signals commit).source
      (c.next signals commit).startTs fun a => Ascending endTs a rest := by
  rw [Carry.next]
  cases hsig : signals.get? commit.sha with
  | none =>
    have hflip : flip signals c.state commit = c.state := by simp [flip, hsig]
    simp only [hflip, ne_eq, not_true_eq_false, if_false, Option.isSome_none, Bool.false_eq_true]
    intro hstate
    obtain ⟨x, hx, hvalue, hsource, hlo, hup⟩ := hc hstate
    exact ⟨x, hx, hvalue, hsource, hlo, hup.2.mono hup.1⟩
  | some value =>
    have hflip : flip signals c.state commit = value := by simp [flip, hsig]
    rw [hflip]
    split_ifs with hne hsome
    · exact fun _ => ⟨commit, hmem, hsig, rfl, le_rfl, h.2⟩
    · rw [not_not.mp hne] at hsig
      exact fun _ => ⟨commit, hmem, hsig, rfl, h.1, h.2⟩
    · cases hsome rfl

theorem segmentsFrom_backed {commits : List Commit} (hsub : ∀ d ∈ rest, d ∈ commits)
    (h : Ascending endTs c.startTs rest)
    (hc : Backed signals commits c.state c.source c.startTs fun a => Ascending endTs a rest)
    (hs : s ∈ segmentsFrom signals endTs c rest) :
    Backed signals commits s.state s.sourceSha s.startTs fun a => a ≤ s.endTs := by
  induction rest generalizing c with
  | nil =>
    rw [mem_singleton.mp hs]
    exact hc
  | cons commit rest ih =>
    rcases mem_append.mp hs with hclosed | hs
    · obtain ⟨rfl, -⟩ := mem_closed hclosed
      intro hstate
      obtain ⟨x, hx, hvalue, hsource, hlo, hup⟩ := hc hstate
      exact ⟨x, hx, hvalue, hsource, hlo, hup.1⟩
    · exact ih (fun d hd => hsub d (mem_cons_of_mem _ hd)) h.next
        (hc.next (hsub commit mem_cons_self) h) hs

end

variable (l : List Segment)

theorem secondsIn_append (l' : List Segment) (state : State) :
    secondsIn (l ++ l') state = secondsIn l state + secondsIn l' state := by
  simp [secondsIn]

theorem secondsIn_singleton (s : Segment) (state : State) :
    secondsIn [s] state = if s.state = state then s.seconds else 0 := by
  by_cases h : s.state = state <;> simp [secondsIn, h]

theorem sum_seconds_filter :
    ((l.filter fun s => 0 < s.seconds).map Segment.seconds).sum = (l.map Segment.seconds).sum := by
  induction l with
  | nil => rfl
  | cons s l ih =>
    have hnonneg : 0 ≤ s.seconds := le_max_left _ _
    by_cases hpos : 0 < s.seconds
    · simp [hpos, ih]
    · simp [ih, le_antisymm (not_lt.mp hpos) hnonneg]

theorem secondsIn_filter (state : State) :
    secondsIn (l.filter fun s => 0 < s.seconds) state = secondsIn l state := by
  rw [secondsIn, filter_comm, sum_seconds_filter]
  rfl

theorem total_eq_sum : (summarizeSeconds l).total = (l.map Segment.seconds).sum := by
  induction l with
  | nil => rfl
  | cons s l ih =>
    have hsplit : ∀ state, secondsIn (s :: l) state = secondsIn [s] state + secondsIn l state :=
      secondsIn_append [s] l
    simp only [summarizeSeconds, Seconds.total, hsplit, secondsIn_singleton] at ih ⊢
    rw [map_cons, sum_cons, ← ih]
    cases s.state <;> simp <;> ring

variable {rest : List Commit} {signals : Signals}

theorem lead_seconds {endTs : Int} {c : Carry}
    (hsignals : ∀ sha value, signals.get? sha = some value → value ≠ .unknown)
    (h : Ascending endTs c.startTs rest) : secondsIn (segmentsFrom signals endTs c rest) .unknown =
      if c.state = .unknown then leadEnd signals endTs rest - c.startTs else 0 := by
  induction rest generalizing c with
  | nil =>
    have hle : c.startTs ≤ endTs := h
    rw [segmentsFrom, secondsIn_singleton]
    simp [Carry.close, Segment.seconds, leadEnd, hle]
  | cons commit rest ih =>
    have hstep := h.1
    rw [segmentsFrom, secondsIn_append, ih h.next, next_state, next_startTs, Carry.closed]
    cases hsig : signals.get? commit.sha with
    | none => simp [flip, hsig, leadEnd, secondsIn]
    | some value =>
      have hvalue := hsignals _ _ hsig
      have hflip : flip signals c.state commit = value := by simp [flip, hsig]
      rw [hflip, if_neg hvalue, add_zero]
      by_cases hstate : c.state = .unknown
      · simp only [hstate, if_true, leadEnd, hsig, Option.isSome_some]
        by_cases hlt : c.startTs < commit.timestamp
        · rw [if_pos ⟨hvalue, .inl hlt⟩, secondsIn_singleton]
          simp [Carry.close, Segment.seconds, hstate, hstep]
        · rw [if_neg fun hclose => hclose.2.elim hlt fun hne => hne rfl, secondsIn]
          simp only [filter_nil, map_nil, sum_nil]
          omega
      · rw [if_neg hstate]
        split_ifs
        · rw [secondsIn_singleton]
          exact if_neg hstate
        · rfl

theorem buildTimeline_eq_ok {first : Commit} {now : Int}
    (h : ∀ entry ∈ signals.entries, entry.2 ∈ states) :
    buildTimeline signals (first :: rest) now = .ok ((segmentsFrom signals (closing now first rest)
      ⟨.unknown, none, first.timestamp, first.sha⟩ (first :: rest)).filter fun s => 0 < s.seconds) := by
  rw [buildTimeline, if_neg]
  rintro ⟨entry, hentry, hnot⟩
  exact hnot (h entry hentry)

theorem get?_ne_unknown (h : ∀ entry ∈ signals.entries, entry.2 ∈ states) (sha : String)
    (value : State) (hget : signals.get? sha = some value) : value ≠ .unknown := by
  have hmem : value ∈ states := h (sha, value) ((signals.mem_entries_iff sha value).mpr hget)
  rintro rfl
  simp [states] at hmem

theorem timeline_attributes_each_second_once (signals : Signals) (first : Commit)
    (rest : List Commit) (now : Int)
    (hts : (first :: rest).Pairwise fun x y => x.timestamp ≤ y.timestamp)
    (hstates : ∀ entry ∈ signals.entries, entry.2 ∈ states) :
    ∃ segments, buildTimeline signals (first :: rest) now = .ok segments ∧
      Tiles Segment.startTs Segment.endTs first.timestamp (closing now first rest) segments ∧
      (∀ s ∈ segments, s.startTs < s.endTs) ∧
      (segments = [] ↔ first.timestamp = closing now first rest) ∧
      (∀ s ∈ segments, ∀ t : ℚ, (s.startTs : ℚ) ≤ t → t < s.endTs →
        s.state = carriedAt signals (first :: rest) t) ∧
      (∀ s ∈ segments, s.state ≠ .unknown → ∃ x ∈ first :: rest,
        signals.get? x.sha = some s.state ∧ s.sourceSha = some x.sha ∧
          s.startTs ≤ x.timestamp ∧ x.timestamp ≤ s.endTs) ∧
      (summarizeSeconds segments).total = closing now first rest - first.timestamp ∧
      (summarizeSeconds segments).unknownLead =
        leadEnd signals (closing now first rest) (first :: rest) - first.timestamp := by
  have hasc : Ascending (closing now first rest) first.timestamp (first :: rest) :=
    ⟨le_rfl, ascending_of_pairwise hts⟩
  have htiles : Tiles Segment.startTs Segment.endTs first.timestamp (closing now first rest)
      (segmentsFrom signals (closing now first rest) ⟨.unknown, none, first.timestamp, first.sha⟩
        (first :: rest)) :=
    segmentsFrom_tiles (c := ⟨.unknown, none, first.timestamp, first.sha⟩) hasc
  have hlong : ∀ s : Segment, s.seconds > 0 → s.startTs < s.endTs := by
    intro s hs
    rw [Segment.seconds] at hs
    omega
  refine ⟨_, buildTimeline_eq_ok hstates, htiles.filter, fun s hs => ?_, ⟨fun hnil => ?_, fun heq => ?_⟩,
    fun s hs t hlo hhi => ?_, fun s hs => ?_, ?_, ?_⟩
  · exact hlong s (by simpa using (mem_filter.mp hs).2)
  · have hwhole := htiles.filter
    rwa [show (List.filter (fun s : Segment => 0 < max 0 (s.endTs - s.startTs)) _) = [] from hnil]
      at hwhole
  · refine filter_eq_nil_iff.mpr fun s hs hpos => ?_
    obtain ⟨hlo, -, hhi⟩ := htiles.bounds hs
    have hlt := hlong s (by simpa using hpos)
    exact absurd (hlo.trans_lt (hlt.trans_le hhi)) (not_lt.mpr heq.ge)
  · rw [segmentsFrom_state hasc (mem_filter.mp hs).1 hlo hhi, carryAt_eq]
    rfl
  · exact segmentsFrom_backed (fun d hd => hd) hasc (fun hne => absurd rfl hne) (mem_filter.mp hs).1
  · rw [total_eq_sum, sum_seconds_filter]
    exact htiles.sum
  · exact ((secondsIn_filter _ _).trans (lead_seconds (get?_ne_unknown hstates) hasc)).trans
      (if_pos rfl)

theorem two_commits_attributed :
    ∃ segments, buildTimeline ⟨[("b", .red)], by decide⟩
        [⟨"a", 0, by decide⟩, ⟨"b", 10, by decide⟩] 15 = .ok segments ∧
      (summarizeSeconds segments).unknownLead = 10 := by
  obtain ⟨segments, hok, -, -, -, -, -, -, hlead⟩ := timeline_attributes_each_second_once
    ⟨[("b", .red)], by decide⟩ ⟨"a", 0, by decide⟩ [⟨"b", 10, by decide⟩] 15 (by simp) (by simp [states])
  refine ⟨segments, hok, hlead.trans ?_⟩
  decide

def least (now : Int) (commits : List Commit) : Int := (commits.map Commit.timestamp).foldr min now

def greatest (now : Int) (commits : List Commit) : Int :=
  (commits.map Commit.timestamp).foldr max now

theorem window_bounds (now : Int) (commits : List Commit) : now ≤ greatest now commits ∧
      ∀ c ∈ commits, least now commits ≤ c.timestamp ∧ c.timestamp ≤ greatest now commits := by
  induction commits with
  | nil => exact ⟨le_rfl, by simp⟩
  | cons d commits ih =>
    refine ⟨le_max_of_le_right ih.1, fun c hc => ?_⟩
    obtain rfl | hc := mem_cons.mp hc
    · exact ⟨min_le_left _ _, le_max_left _ _⟩
    · exact ⟨min_le_of_right_le (ih.2 c hc).1, le_max_of_le_right (ih.2 c hc).2⟩

def flipTimes (signals : Signals) : State → List Commit → List Int
  | _, [] => []
  | state, c :: rest =>
    if flip signals state c ≠ state then
      c.timestamp :: flipTimes signals (flip signals state c) rest
    else flipTimes signals state rest

theorem segmentsFrom_tiles_of_flipTimes {endTs : Int} {c : Carry}
    (h : (c.startTs :: (flipTimes signals c.state rest ++ [endTs])).Pairwise (· ≤ ·)) :
    Tiles Segment.startTs Segment.endTs c.startTs endTs (segmentsFrom signals endTs c rest) := by
  induction rest generalizing c with
  | nil => exact ⟨rfl, (pairwise_cons.mp h).1 endTs mem_cons_self, rfl⟩
  | cons commit rest ih =>
    rw [flipTimes] at h
    by_cases hflip : flip signals c.state commit ≠ c.state
    · rw [if_pos hflip, cons_append] at h
      obtain ⟨hle, hrest⟩ := pairwise_cons.mp h
      refine (closed_tiles fun _ => hle _ mem_cons_self).append (ih ?_)
      rwa [next_startTs, if_pos hflip, next_state]
    · rw [if_neg hflip] at h
      refine (closed_tiles fun h => absurd h hflip).append (ih ?_)
      rwa [next_startTs, if_neg hflip, next_state, not_not.mp hflip]

theorem ordered_flips_count_once (signals : Signals) (first : Commit) (rest : List Commit)
    (now : Int) (segments : List Segment)
    (hok : buildTimeline signals (first :: rest) now = .ok segments)
    (hflips : (first.timestamp :: (flipTimes signals .unknown (first :: rest) ++
      [closing now first rest])).Pairwise (· ≤ ·)) :
    Tiles Segment.startTs Segment.endTs first.timestamp (closing now first rest) segments ∧
      (segments.map Segment.seconds).sum ≤
        greatest now (first :: rest) - least now (first :: rest) := by
  rw [buildTimeline] at hok
  split_ifs at hok
  obtain rfl := Except.ok.inj hok
  have htiles := @segmentsFrom_tiles_of_flipTimes (first :: rest) signals (closing now first rest)
    ⟨.unknown, none, first.timestamp, first.sha⟩ hflips
  obtain ⟨hnow, hbounds⟩ := window_bounds now (first :: rest)
  have hlast := (hbounds _ (getLast_mem (cons_ne_nil first rest))).2
  have hclosing : closing now first rest ≤ greatest now (first :: rest) := max_le hnow hlast
  have hleast := (hbounds first mem_cons_self).1
  have hsum : (((segmentsFrom signals (closing now first rest)
      ⟨.unknown, none, first.timestamp, first.sha⟩ (first :: rest)).filter
        fun s => 0 < s.seconds).map Segment.seconds).sum =
      closing now first rest - first.timestamp := by
    rw [sum_seconds_filter]
    exact htiles.sum
  exact ⟨htiles.filter, by omega⟩

theorem late_merge_without_flip_counts_once :
    ∃ segments, buildTimeline ⟨[("a", .hardGreen), ("b", .red), ("d", .softGreen)], by decide⟩
        [⟨"a", 0, by decide⟩, ⟨"b", 100, by decide⟩, ⟨"c", 10, by decide⟩, ⟨"d", 110, by decide⟩]
        115 = .ok segments ∧ segments.length = 3 ∧ (segments.map Segment.seconds).sum ≤ 115 := by
  refine ⟨_, rfl, by decide, ?_⟩
  exact (ordered_flips_count_once ⟨[("a", .hardGreen), ("b", .red), ("d", .softGreen)], by decide⟩
    ⟨"a", 0, by decide⟩ [⟨"b", 100, by decide⟩, ⟨"c", 10, by decide⟩, ⟨"d", 110, by decide⟩] 115
    _ rfl (by decide)).2

theorem backward_merge_counts_twice :
    ∃ segments, buildTimeline
        ⟨[("a", .hardGreen), ("b", .red), ("c", .hardGreen), ("d", .red)], by decide⟩
        [⟨"a", 0, by decide⟩, ⟨"b", 100, by decide⟩, ⟨"c", 10, by decide⟩, ⟨"d", 110, by decide⟩]
        110 = .ok segments ∧
      (segments.map Segment.seconds).sum = 200 ∧
      greatest 110
          [⟨"a", 0, by decide⟩, ⟨"b", 100, by decide⟩, ⟨"c", 10, by decide⟩, ⟨"d", 110, by decide⟩] -
        least 110
          [⟨"a", 0, by decide⟩, ⟨"b", 100, by decide⟩, ⟨"c", 10, by decide⟩, ⟨"d", 110, by decide⟩] =
        110 :=
  ⟨_, rfl, by decide, by decide⟩

end DevHermit.GreenTime
