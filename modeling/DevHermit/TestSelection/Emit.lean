import DevHermit.TestSelection.Sound

namespace DevHermit.TestSelection

open Lib List Option

section

variable {files : Lane → List Step} {dag : Dag}

def laneNodes (files : Lane → List Step) (lane : Lane) : List Node :=
  (files lane).map (Step.node lane)

def qualifiedIds (files : Lane → List Step) : List String :=
  ([.portable, .privileged] : List Lane).flatMap fun lane =>
    (files lane).map fun s => lane.qualify s.jobName

structure WellFormed (files : Lane → List Step) : Prop where
  distinct : (qualifiedIds files).Nodup
  deps : ∀ lane, ∀ s ∈ files lane, ∀ deps, s.deps = some deps → ∀ d ∈ deps,
    ∃ s' ∈ files lane, d = some s'.jobName

theorem foldl_insert {nodes more : List Node} (h : ((nodes ++ more).map Node.id).Nodup) :
    more.foldl Dag.insert nodes = nodes ++ more := by
  induction more generalizing nodes with
  | nil => exact (append_nil nodes).symm
  | cons node more ih =>
    have hfresh : Dag.insert nodes node = nodes ++ [node] := by
      rw [Dag.insert, filter_eq_self.mpr]
      intro n hn
      rw [decide_eq_true_eq]
      rw [map_append, nodup_append] at h
      exact h.2.2 _ (List.mem_map_of_mem hn) _ (List.mem_map_of_mem mem_cons_self)
    rw [foldl_cons, hfresh, ih, append_assoc, singleton_append]
    rw [append_assoc, singleton_append]
    exact h

section

variable (hwf : WellFormed files) (h : Dag.load files = some dag)
include hwf h

theorem WellFormed.load : dag.nodes = laneNodes files .portable ++ laneNodes files .privileged := by
  have hids : ((laneNodes files .portable ++ laneNodes files .privileged).map Node.id).Nodup := by
    have hd := hwf.distinct
    simp only [qualifiedIds, flatMap_cons, flatMap_nil, append_nil] at hd
    simp only [laneNodes, map_append, List.map_map]
    exact hd
  have hfirst : (([] ++ laneNodes files .portable).map Node.id).Nodup := by
    rw [map_append] at hids
    exact (nodup_append.mp hids).1
  simp only [Dag.load, foldl_cons, foldl_nil, ← foldl_map, ite_none_left_eq_some,
    Option.some.injEq] at h
  obtain ⟨-, rfl⟩ := h
  have h₁ : ((files .portable).map (Step.node .portable)).foldl Dag.insert [] =
      laneNodes files .portable := foldl_insert hfirst
  rw [h₁]
  exact foldl_insert hids

theorem WellFormed.mem_nodes
    {node : Node} : node ∈ dag.nodes ↔ ∃ lane, ∃ s ∈ files lane, s.node lane = node := by
  rw [hwf.load h, mem_append, laneNodes, laneNodes, List.mem_map, List.mem_map]
  constructor
  · rintro (hs | hs)
    · exact ⟨.portable, hs⟩
    · exact ⟨.privileged, hs⟩
  · rintro ⟨lane, hs⟩
    cases lane with
    | portable => exact .inl hs
    | privileged => exact .inr hs

theorem WellFormed.get {lane : Lane} {s : Step} (hs : s ∈ files lane) :
    dag.get? (lane.qualify s.jobName) = some (s.node lane) := by
  have hmem : s.node lane ∈ dag.nodes := (hwf.mem_nodes h).mpr ⟨lane, s, hs, rfl⟩
  have hnodup : (dag.nodes.map Node.id).Nodup := by
    have hd := hwf.distinct
    simp only [qualifiedIds, flatMap_cons, flatMap_nil, append_nil] at hd
    rw [hwf.load h]
    simp only [laneNodes, map_append, List.map_map]
    exact hd
  have hsome : (dag.get? (lane.qualify s.jobName)).isSome = true :=
    dag.containsKey_iff.mpr (List.mem_map_of_mem hmem)
  obtain ⟨node, hget⟩ := isSome_iff_exists.mp hsome
  have hfound := List.find?_some hget
  have hid : node.id = (s.node lane).id := beq_iff_eq.mp hfound
  rw [hget, inj_on_of_nodup_map hnodup (List.mem_of_find?_eq_some hget) hmem hid]

end

theorem mem_node_deps {lane : Lane} {s : Step} {dep : String} : dep ∈ (s.node lane).deps ↔
      ∃ deps, s.deps = some deps ∧ ∃ name, some name ∈ deps ∧ lane.qualify name = dep := by
  simp only [Step.node, mem_filterMap, map_eq_some_iff]
  cases s.deps with
  | none => simp
  | some deps => simp

theorem WellFormed.present (hwf : WellFormed files) (h : Dag.load files = some dag)
    {id dep : String} (hneed : dag.Needs id dep) : dag.containsKey dep = true := by
  rw [Dag.Needs, Dag.depsOf] at hneed
  cases hget : dag.get? id with
  | none =>
    rw [hget] at hneed
    cases hneed
  | some node =>
    rw [hget] at hneed
    obtain ⟨lane, s, hs, rfl⟩ := (hwf.mem_nodes h).mp (List.mem_of_find?_eq_some hget)
    obtain ⟨deps, hdeps, name, hname, rfl⟩ := mem_node_deps.mp hneed
    obtain ⟨s', hs', heq⟩ := hwf.deps lane s hs deps hdeps _ hname
    rw [Option.some.inj heq, Dag.containsKey, hwf.get h hs']
    rfl

end

section

variable {files : Lane → List Step} {dag : Dag} {sel : Selection}

theorem stripLane_eq_some {lane : Lane} {id job : String} :
    stripLane lane id = some job ↔ id = lane.qualify job := by
  simp only [stripLane, map_eq_some_iff, List.dropPrefix?_eq_some_iff, Lane.qualify]
  constructor
  · rintro ⟨rest, ⟨lead, hid, hlead⟩, rfl⟩
    rw [← String.toList_inj, hid, String.toList_append, String.toList_ofList, beq_iff_eq.mp hlead]
  · rintro rfl
    exact ⟨job.toList, ⟨_, String.toList_append, beq_self_eq_true _⟩, String.ofList_toList⟩

def keepOf (lane : Lane) (sel : Selection) : List String :=
  (sel.selected.filterMap (stripLane lane)).foldl insertId []

theorem mem_keepOf {lane : Lane} {job : String} :
    job ∈ keepOf lane sel ↔ lane.qualify job ∈ sel.selected := by
  rw [keepOf, mem_foldl_insertId, mem_filterMap]
  simp only [not_mem_nil, false_or, stripLane_eq_some]
  constructor
  · rintro ⟨id, hid, rfl⟩
    exact hid
  · intro h
    exact ⟨_, h, rfl⟩

section

variable (hwf : WellFormed files) (h : Dag.load files = some dag)
  (hclosed : ∀ id ∈ sel.selected, ∀ dep, dag.Needs id dep → dep ∈ sel.selected)
include hwf h hclosed

theorem emitStep_eq {lane : Lane} {s : Step} (hs : s ∈ files lane) : emitStep (keepOf lane sel) s =
      if lane.qualify s.jobName ∈ sel.selected then some s else none := by
  simp only [emitStep, mem_keepOf]
  split
  case isFalse => rfl
  case isTrue hsel =>
    cases hdeps : s.deps with
    | none => rw [map_none, ← hdeps]
    | some deps =>
      have hall : deps.filter (fun d => (d.map (keepOf lane sel).contains).getD false) = deps := by
        refine filter_eq_self.mpr fun d hd => ?_
        obtain ⟨s', hs', rfl⟩ := hwf.deps lane s hs deps hdeps d hd
        have hneed : dag.Needs (lane.qualify s.jobName) (lane.qualify s'.jobName) := by
          rw [Dag.Needs, Dag.depsOf, hwf.get h hs]
          exact mem_node_deps.mpr ⟨deps, hdeps, _, hd, rfl⟩
        exact contains_iff_mem.mpr (mem_keepOf.mpr (hclosed _ hsel _ hneed))
      rw [map_some, hall, ← hdeps]

theorem emitDag_eq (lane : Lane) : (emitDag lane (files lane) sel).1 =
      (files lane).filter fun s => lane.qualify s.jobName ∈ sel.selected := by
  have hstep : (files lane).filterMap (emitStep (keepOf lane sel)) =
      (files lane).filterMap (Option.guard fun s => lane.qualify s.jobName ∈ sel.selected) := by
    refine filterMap_congr fun s hs => ?_
    rw [emitStep_eq hwf h hclosed hs, Option.guard]
    simp only [decide_eq_true_eq]
  rw [emitDag, ← keepOf, hstep, filterMap_eq_filter]

end

end

variable {files : Lane → List Step} {dag : Dag} {F G : List String}

theorem selected_closed (hwf : WellFormed files) (h : Dag.load files = some dag) (hne : F ≠ []) :
    ∀ id ∈ (select dag F).selected, ∀ dep, dag.Needs id dep → dep ∈ (select dag F).selected := by
  intro id hid dep hneed
  by_cases hforce : Forces dag F
  · rw [(select_forced hne hforce).2, dag.mem_allIds]
    exact hwf.present h hneed
  · by_cases hinert : ∀ f ∈ F, Inert f
    · rw [(select_inert hne hinert).2] at hid
      cases hid
    · obtain ⟨-, hsel⟩ := select_narrow hne hforce hinert
      exact (hsel dep).mpr (From.step ((hsel id).mp hid) hneed)

theorem selected_present (hwf : WellFormed files) (h : Dag.load files = some dag) (hne : F ≠ []) :
    ∀ id ∈ (select dag F).selected, dag.containsKey id = true := by
  intro id hid
  by_cases hforce : Forces dag F
  · rw [(select_forced hne hforce).2, dag.mem_allIds] at hid
    exact hid
  · by_cases hinert : ∀ f ∈ F, Inert f
    · rw [(select_inert hne hinert).2] at hid
      cases hid
    · obtain ⟨-, hsel⟩ := select_narrow hne hforce hinert
      refine From.least (c := {x | dag.containsKey x = true}) ?_
        (fun _ _ _ hneed => hwf.present h hneed) ((hsel id).mp hid)
      rintro x (⟨f, hf, hm⟩ | ⟨-, hp⟩)
      · by_contra hmiss
        exact hforce ⟨f, hf, .inr ⟨x, hm, Bool.eq_false_iff.mpr hmiss⟩⟩
      · exact hp

theorem Forces.mono (hsub : F ⊆ G) (h : Forces dag F) : Forces dag G := by
  obtain ⟨f, hf, hwhy⟩ := h
  exact ⟨f, hsub hf, hwhy⟩

theorem Seeds.mono (hsub : F ⊆ G) : Seeds dag F ⊆ Seeds dag G := by
  rintro id (⟨f, hf, hm⟩ | hp)
  · exact .inl ⟨f, hsub hf, hm⟩
  · exact .inr hp

theorem selected_mono (hwf : WellFormed files) (h : Dag.load files = some dag) (hF : F ≠ [])
    (hsub : F ⊆ G) : (select dag F).selected ⊆ (select dag G).selected := by
  have hG : G ≠ [] := by
    rintro rfl
    exact hF (subset_nil.mp hsub)
  intro id hid
  by_cases hforceG : Forces dag G
  · rw [(select_forced hG hforceG).2, dag.mem_allIds]
    exact selected_present hwf h hF id hid
  · have hforceF : ¬ Forces dag F := fun hf => hforceG (hf.mono hsub)
    by_cases hinertF : ∀ f ∈ F, Inert f
    · rw [(select_inert hF hinertF).2] at hid
      cases hid
    · have hinertG : ¬ ∀ f ∈ G, Inert f := fun hall => hinertF fun f hf => hall f (hsub hf)
      rw [(select_narrow hG hforceG hinertG).2]
      exact From.mono (Seeds.mono hsub) (((select_narrow hF hforceF hinertF).2 id).mp hid)

theorem decision_congr (hF : F ≠ []) (hset : ∀ f, f ∈ F ↔ f ∈ G) :
    (select dag F).decision = (select dag G).decision := by
  have hG : G ≠ [] := by
    obtain ⟨f, hf⟩ := exists_mem_of_ne_nil F hF
    exact ne_nil_of_mem ((hset f).mp hf)
  have hFG : F ⊆ G := fun f hf => (hset f).mp hf
  have hGF : G ⊆ F := fun f hf => (hset f).mpr hf
  by_cases hforce : Forces dag F
  · rw [(select_forced hF hforce).1, (select_forced hG (hforce.mono hFG)).1]
  · have hforce' : ¬ Forces dag G := fun hg => hforce (hg.mono hGF)
    by_cases hinert : ∀ f ∈ F, Inert f
    · rw [(select_inert hF hinert).1, (select_inert hG fun f hf => hinert f (hGF hf)).1]
    · have hinert' : ¬ ∀ f ∈ G, Inert f := fun hall => hinert fun f hf => hall f (hFG hf)
      rw [(select_narrow hF hforce hinert).1, (select_narrow hG hforce' hinert').1]

theorem selection_never_drops_needed_step (hwf : WellFormed files)
    (hload : Dag.load files = some dag) (hF : F ≠ []) :
    ((select dag F).decision = .skip → ∀ f ∈ F, Inert f) ∧
    (Forces dag F → (select dag F).decision = .full ∧
      ∀ id, id ∈ (select dag F).selected ↔ dag.containsKey id = true) ∧
    (¬ Forces dag F → (¬ ∀ f ∈ F, Inert f) → ∀ id,
      id ∈ (select dag F).selected ↔ id ∈ From dag.Needs (Seeds dag F)) ∧
    (∀ G, (∀ f, f ∈ F ↔ f ∈ G) → (select dag F).decision = (select dag G).decision ∧
      ∀ id, id ∈ (select dag F).selected ↔ id ∈ (select dag G).selected) ∧
    (∀ G, F ⊆ G → (select dag F).selected ⊆ (select dag G).selected) ∧
    ∀ lane, (emitDag lane (files lane) (select dag F)).1 =
      (files lane).filter fun s => lane.qualify s.jobName ∈ (select dag F).selected := by
  refine ⟨?_, ?_, ?_, ?_, ?_, ?_⟩
  · intro hskip
    by_contra hinert
    by_cases hforce : Forces dag F
    · cases hskip.symm.trans (select_forced hF hforce).1
    · cases hskip.symm.trans (select_narrow hF hforce hinert).1
  · intro hforce
    obtain ⟨hdecision, hsel⟩ := select_forced hF hforce
    refine ⟨hdecision, fun id => ?_⟩
    rw [hsel, dag.mem_allIds]
  · intro hforce hinert
    exact (select_narrow hF hforce hinert).2
  · intro G hset
    have hG : G ≠ [] := by
      obtain ⟨f, hf⟩ := exists_mem_of_ne_nil F hF
      exact ne_nil_of_mem ((hset f).mp hf)
    exact ⟨decision_congr hF hset, fun id =>
      ⟨fun hid => selected_mono hwf hload hF (fun f hf => (hset f).mp hf) hid,
        fun hid => selected_mono hwf hload hG (fun f hf => (hset f).mpr hf) hid⟩⟩
  · intro G hsub
    exact selected_mono hwf hload hF hsub
  · intro lane
    exact emitDag_eq hwf hload (selected_closed hwf hload hF) lane

def kvmLane : Lane → List Step
  | .portable => [⟨some "lint", some "rustfmt", none⟩]
  | .privileged =>
    [⟨some "build", some "privileged_tests", some []⟩,
      ⟨some "e2e", some "manifest_backend_parity_c", some [some "build.privileged_tests"]⟩,
      ⟨some "e2e", some "manifest_applications", some []⟩]

theorem kvmLane_wellFormed : WellFormed kvmLane := by
  refine ⟨by decide +kernel, ?_⟩
  intro lane s hs deps hdeps d hd
  have hall : ∀ s ∈ kvmLane lane, ∀ d ∈ s.deps.getD [],
      ∃ s' ∈ kvmLane lane, d = some s'.jobName := by
    cases lane <;> decide +kernel
  exact hall s hs d (hdeps ▸ hd)

def kvmDag : Dag := ⟨laneNodes kvmLane .portable ++ laneNodes kvmLane .privileged⟩

theorem kvm_change_selects_closure :
    Dag.load kvmLane = some kvmDag ∧
    (∀ id, id ∈ (select kvmDag ["reverie/reverie-kvm/src/lib.rs"]).selected ↔
      id ∈ From kvmDag.Needs (Seeds kvmDag ["reverie/reverie-kvm/src/lib.rs"])) ∧
    ∀ lane, (emitDag lane (kvmLane lane) (select kvmDag ["reverie/reverie-kvm/src/lib.rs"])).1 =
      (kvmLane lane).filter fun s => lane.qualify s.jobName ∈
        (select kvmDag ["reverie/reverie-kvm/src/lib.rs"]).selected := by
  have hload : Dag.load kvmLane = some kvmDag := by decide +kernel
  have hclass : (classify "reverie/reverie-kvm/src/lib.rs").1 = .steps kvmSteps := by decide +kernel
  obtain ⟨-, hu, hi, hm⟩ := classify_steps hclass
  have hforce : ¬ Forces kvmDag ["reverie/reverie-kvm/src/lib.rs"] := by
    rintro ⟨f, hf, hwhy⟩
    rw [mem_singleton.mp hf] at hwhy
    obtain hun | ⟨id, hid, hmiss⟩ := hwhy
    · exact hu hun
    · have hall : ∀ id ∈ kvmSteps, kvmDag.containsKey id = true := by decide +kernel
      cases hmiss.symm.trans (hall id ((hm id).mp hid))
  have hinert : ¬ ∀ f ∈ ["reverie/reverie-kvm/src/lib.rs"], Inert f := fun hall =>
    hi (hall _ mem_cons_self)
  obtain ⟨-, -, hselect, -, -, hemit⟩ := selection_never_drops_needed_step kvmLane_wellFormed hload
    (cons_ne_nil "reverie/reverie-kvm/src/lib.rs" [])
  exact ⟨hload, hselect hforce hinert, hemit⟩

end DevHermit.TestSelection
