/-
# Routing in a system with one scheduler and one cluster

Every daemon runs `init_routes` on the same definition and decides by its own tables where a
message goes next.  `Fits.exists_knows` says what these tables are: those of the tree of the daemons.

* A message to a daemon of the job arrives, and visits no daemon twice
  (`every_daemon_is_reached`), for a definition that fits its types.  A definition with `2^31` rows
  does not: the count is packed as a negative number and no daemon learns of any other
  (`unreachable_behind_too_many_rows`).
* A message to a process of ANOTHER job should go up to the scheduler.  `get_route` compares vpids
  only, so it goes astray exactly at the daemons above the daemon that has the target's vpid
  (`foreign_goes_up_iff`).
-/
import Sensys.Orte.RoutedNames

namespace Sensys.Orte.Routed

open Opal Orcm List Option Forest Table

/-! ## 1. The tables of the daemons -/

/-- A daemon as a process. -/
def process (system : SystemDefinition) (daemon : ProcName × ProcType) : Process :=
  { name := daemon.1
    procType := daemon.2
    numProcs := system.numProcs
    scheduler := system.schedulers.headD nameInvalid
    routingIsEnabled := true }

/-- What a daemon's call of `init_routes` leaves. -/
def routesOf (system : SystemDefinition) (daemon : ProcName × ProcType) : Option (Rc × Routes) :=
  initRoutes (process system daemon) 0 (some system.clusterbuf) noRoutes

/-- The system of one scheduler and one cluster. -/
def oneCluster (cluster : Cluster NodeState) : SystemDefinition := defineSystem 1 [cluster]

variable (cluster : Cluster NodeState)

theorem oneCluster_eq : oneCluster cluster = {
        schedulers := [⟨0, 0⟩]
        clusters := [(nameCluster 1 cluster).1]
        numProcs := (nameCluster 1 cluster).2
        clusterbuf := .buffer [.name ⟨0, 0⟩] :: packCluster (nameCluster 1 cluster).1 } := by
  simp [oneCluster, defineSystem, nameEach, nameDaemon, nextVpid]

/-- The tree of its daemons. -/
def systemTree (cluster : Cluster NodeState) : Forest ℕ :=
  .cons 0 (clusterForest (nameCluster 1 cluster).1) .nil

/-- **The daemons are the labels of the tree.** -/
theorem daemons_oneCluster_eq :
    (daemons (oneCluster cluster)).map Prod.fst = named 0 (systemTree cluster) := by
  have hcluster := named_clusterForest (nameCluster_of 1 cluster)
  rw [named] at hcluster ⊢
  simp [oneCluster_eq, daemons, systemTree, labels, hcluster]

variable {cluster : Cluster NodeState} {daemon : ProcName × ProcType} {vpid : ℕ} {target : ProcName}

theorem name_of_daemon (hd : daemon ∈ daemons (oneCluster cluster)) :
    ∃ vpid ∈ (systemTree cluster).labels, daemon.1 = ⟨0, vpid⟩ := by
  have hname : daemon.1 ∈ named 0 (systemTree cluster) := by
    rw [← daemons_oneCluster_eq]
    exact mem_map_of_mem hd
  obtain ⟨vpid, hmem, heq⟩ := mem_map.mp hname
  exact ⟨vpid, hmem, heq.symm⟩

/-- The scheduler, and the daemons of the cluster. -/
theorem mem_daemons_oneCluster : daemon ∈ daemons (oneCluster cluster) ↔
      daemon = (⟨0, 0⟩, .scheduler) ∨ daemon ∈ clusterDaemons (nameCluster 1 cluster).1 := by
  simp [oneCluster_eq, daemons]

theorem ne_tool_of_daemon (hd : daemon ∈ daemons (oneCluster cluster)) : daemon.2 ≠ .tool := by
  rcases mem_daemons_oneCluster.mp hd with rfl | hcluster
  · simp
  · rcases type_of_mem_clusterDaemons hcluster with ht | ⟨ht, -⟩ <;> simp [ht]

section Tables

variable {cluster : Cluster NodeState} (h : Fits cluster)

include h

theorem Fits.le_vpidLimit : 1 + clusterSize cluster ≤ vpidLimit := by
  have hsize := h.size
  simp only [Bitmap.sizeLimit] at hsize
  simp only [vpidLimit]
  omega

theorem Fits.numProcs : (oneCluster cluster).numProcs = clusterSize cluster + 1 := by
  exact (nameCluster_consecutive cluster 1 h.le_vpidLimit).next.trans (Nat.add_comm _ _)

theorem Fits.labels_cluster :
    (clusterForest (nameCluster 1 cluster).1).labels = List.range' 1 (clusterSize cluster) :=
  (nameCluster_consecutive cluster 1 h.le_vpidLimit).labels

theorem Fits.labels_tree :
    (systemTree cluster).labels = List.range' 0 (clusterSize cluster + 1) := by
  rw [systemTree, labels, h.labels_cluster, labels, List.append_nil,
    range'_succ]

theorem Fits.nodup_tree : (systemTree cluster).labels.Nodup := by
  rw [h.labels_tree]
  exact nodup_range'

variable {daemon : ProcName × ProcType}

/-- `init_routes` on the buffer is the walk of the cluster below the scheduler. -/
theorem Fits.routesOf_eq (htool : daemon.2 ≠ .tool) (hjob : daemon.1.jobid = 0) :
    routesOf (oneCluster cluster) daemon = (walkAll (process (oneCluster cluster) daemon)
          ((clusterForest (nameCluster 1 cluster).1).visits [0]) ⟨nameInvalid, []⟩).map
        fun (rc, walk) => (rc, ⟨walk.parent, walk.added.reverse⟩) := by
  set me := process (oneCluster cluster) daemon with hme
  have hmyJob : me.name.jobid = 0 := hjob
  have hthere : ProcName.isPresent ⟨0, 0⟩ = true := by decide
  have hsched : (schedLevel me ⟨0, 0⟩).Right me := by
    refine ⟨fun _ => hmyJob.symm, ?_⟩
    rw [schedLevel, hthere, Bool.true_and]
    exact decide_eq_decide.mpr
      ⟨fun heq => by rw [← heq], fun heq => ProcName.eq_iff.mpr ⟨hmyJob.symm, heq⟩⟩
  have hcluster : ClusterOf me.name.jobid (nameCluster 1 cluster).1 := hmyJob ▸ nameCluster_of 1 cluster
  have hne : (nameCluster 1 cluster).1.controller.isPresent = true →
      (nameCluster 1 cluster).1.controller.vpid ≠ 0 := by
    intro hp hzero
    -- a controller that is there is a label, and the labels start with 1
    have hmem : (nameCluster 1 cluster).1.controller.vpid
        ∈ (clusterForest (nameCluster 1 cluster).1).labels := by
      rw [clusterForest, controlled, if_pos hp]
      exact mem_cons_self
    rw [h.labels_cluster, mem_range'_1] at hmem
    omega
  have hrows := initRows_eq hsched hthere hcluster (h.toCounted.named 1) hne ⟨nameInvalid, []⟩
  have hbuf : (oneCluster cluster).clusterbuf
      = .buffer [.name ⟨0, 0⟩] :: packCluster (nameCluster 1 cluster).1 := by rw [oneCluster_eq]
  have hnoTool : me.procType ≠ .tool := htool
  rw [routesOf, hbuf, initRoutes, ← hme, if_neg (by simp [hmyJob]), readDefinition,
    if_neg (by simp [hthere]), if_neg hnoTool]
  simp only [noRoutes, nil_append]
  rw [hrows]
  rfl

/-- **What a daemon knows after `init_routes`**: its parent is the one in the tree, and its children
are those in the tree, with the daemons below them. -/
structure Knows (cluster : Cluster NodeState) (daemon : ProcName × ProcType) (routes : Routes)
    (above : List ℕ) (sub : Forest ℕ) : Prop where
  locate : (systemTree cluster).locate daemon.1.vpid [] = some (above, sub)
  parent : routes.parent = (above.head?.map fun vpid => ⟨0, vpid⟩).getD nameInvalid
  children : List.Forall₂ (fun child entry => child.vpid = entry.1 ∧
    child.relatives.Holds (oneCluster cluster).numProcs entry.2) routes.children sub.entries

variable {sub : Forest ℕ}

/-- What the table of the tree says.  The scheduler itself is not visited, and a new table would not
change by that visit. -/
theorem Fits.learn_eq {vpid above}
    (hlocate : (systemTree cluster).locate vpid [] = some (above, sub)) :
    ((clusterForest (nameCluster 1 cluster).1).visits [0]).foldlM (learn vpid) ⟨none, []⟩
      = some ⟨above.head?, sub.entries.reverse⟩ := by
  have hfirst : learn vpid ⟨none, []⟩ ([], 0) = some ⟨none, []⟩ := by
    simp [learn, descend]
  have hlearn := learn_locate h.nodup_tree not_mem_nil hlocate ⟨none, []⟩
  rwa [systemTree, visits, foldlM_cons, hfirst, bind_eq_bind, bind_some, visits,
    List.append_nil, List.append_nil] at hlearn

/-- What the walk leaves is what the table of the tree says. -/
theorem Fits.knows_of_locate (htool : daemon.2 ≠ .tool) (hjob : daemon.1.jobid = 0) {above}
    (hlocate : (systemTree cluster).locate daemon.1.vpid [] = some (above, sub)) :
    ∃ routes, routesOf (oneCluster cluster) daemon = some (.success, routes) ∧
      Knows cluster daemon routes above sub := by
  set me := process (oneCluster cluster) daemon with hme
  have hprocs : me.numProcs = clusterSize cluster + 1 := h.numProcs
  have hstart : Agree me.name.jobid me.numProcs ⟨nameInvalid, []⟩ ⟨none, []⟩ :=
    ⟨rfl, List.Forall₂.nil⟩
  have hvisits : ∀ v ∈ (clusterForest (nameCluster 1 cluster).1).visits [0],
      v.2 < me.numProcs ∧ v.1 ≠ [] := by
    intro v hv
    obtain ⟨hmem, hsuffix⟩ := mem_visits hv
    rw [h.labels_cluster, mem_range'_1] at hmem
    refine ⟨by omega, ?_⟩
    rintro hnil
    rw [hnil] at hsuffix
    simpa using eq_nil_of_suffix_nil hsuffix
  obtain ⟨walk, hwalk, hagree⟩ := walkAll_learn (by omega) (hprocs ▸ h.size) hstart hvisits
    (h.learn_eq hlocate)
  refine ⟨⟨walk.parent, walk.added.reverse⟩, ?_, hlocate, ?_, ?_⟩
  · rw [h.routesOf_eq htool hjob, ← hme, hwalk]
    rfl
  · rw [hagree.parent]
    have hmyJob : me.name.jobid = 0 := hjob
    rw [hmyJob]
  · have hrev := List.forall₂_reverse_iff.mpr hagree.children
    rwa [reverse_reverse] at hrev

/-- **Every daemon's call succeeds, and the daemon knows its place in the tree.**  The scheduler is
the root; nodes have nothing below them. -/
theorem Fits.exists_knows (hd : daemon ∈ daemons (oneCluster cluster)) :
    ∃ routes above sub, routesOf (oneCluster cluster) daemon = some (.success, routes) ∧
      Knows cluster daemon routes above sub ∧ (daemon.2 = .scheduler → daemon.1.vpid = 0 ∧
        sub = clusterForest (nameCluster 1 cluster).1) ∧
      (daemon.2 ≠ .scheduler → above ≠ []) ∧ (daemon.2 = .daemon → sub = .nil) := by
  obtain ⟨vpid, hmem, hname⟩ := name_of_daemon hd
  obtain ⟨above, sub, hlocate⟩ := exists_locate hmem []
  have hvpid : daemon.1.vpid = vpid := by rw [hname]
  obtain ⟨routes, hroutes, hknows⟩ :=
    h.knows_of_locate (ne_tool_of_daemon hd) (by rw [hname]) (hvpid ▸ hlocate)
  refine ⟨routes, above, sub, hroutes, hknows, ?_⟩
  rcases mem_daemons_oneCluster.mp hd with rfl | hcluster
  · cases hvpid
    cases (if_pos rfl : (systemTree cluster).locate 0 [] = _).symm.trans hlocate
    simp
  · have hnamed : daemon.1 ∈ named 0 (clusterForest (nameCluster 1 cluster).1) := by
      rw [named_clusterForest (nameCluster_of 1 cluster)]
      exact mem_map_of_mem hcluster
    obtain ⟨label, hlabel, hlabelled⟩ := mem_map.mp hnamed
    rw [h.labels_cluster, mem_range'_1] at hlabel
    have hsame : label = vpid := by rw [← hvpid, ← hlabelled]
    have htype := type_of_mem_clusterDaemons hcluster
    refine ⟨?_, fun _ => ?_, ?_⟩
    · intro hscheduler
      rcases htype with ht | ⟨ht, -⟩ <;> simp [ht] at hscheduler
    · rintro rfl
      rcases locate_parent h.nodup_tree hlocate with ⟨-, hroot⟩ | ⟨p, rest, psub, hnil, -⟩
      · have hzero : vpid = 0 := by
          simpa [systemTree, Forest.entries] using congrArg Prod.fst (List.mem_singleton.mp hroot)
        omega
      · cases hnil
    · intro hdaemon
      rcases htype with ht | ⟨-, hleaf⟩
      · simp [ht] at hdaemon
      · obtain ⟨ab, hlocate'⟩ := (Forest.Leaf.down .nil hleaf).locate h.nodup_tree []
        cases hknows.locate.symm.trans hlocate'
        rfl

end Tables

/-! ## 2. The search of `get_route` -/

/-- A set bit is a relative, for every vpid there is. -/
theorem isSetBit_eq {relatives : Bitmap} {size held} (hholds : relatives.Holds size held)
    (hheld : ∀ n ∈ held, n < 2 ^ 31) (hvpid : vpid < 2 ^ 32) :
    relatives.isSetBit (int32 vpid) = held.contains vpid := by
  rw [Bool.eq_iff_iff, hholds.bits, contains_iff_mem]
  have hcast : int32 vpid = if vpid < 2 ^ 31 then (vpid : ℤ) else vpid - 2 ^ 32 := by
    rw [int32, Int.bmod_def]
    split <;> omega
  rw [hcast]
  constructor
  · rintro ⟨n, hn, heq⟩
    split at heq
    · have hsame : vpid = n := by omega
      exact hsame ▸ hn
    · omega
  · intro hmem
    have hlt := hheld vpid hmem
    exact ⟨vpid, hmem, if_pos hlt⟩

/-- The search among the children is the search of the table. -/
theorem searchChildren_eq {me : Process} (htarget : target.vpid < 2 ^ 32) {size children}
    {entries : List (ℕ × List ℕ)}
    (hagree : List.Forall₂ (fun child entry => child.vpid = entry.1 ∧
      child.relatives.Holds size entry.2) children entries)
    (hheld : ∀ entry ∈ entries, ∀ n ∈ entry.2, n < 2 ^ 31) : searchChildren me target children
      = (entries.find? fun entry =>
          decide (entry.1 = target.vpid) || entry.2.contains target.vpid).map fun entry =>
        if entry.1 = target.vpid then target else ⟨me.name.jobid, entry.1⟩ := by
  induction hagree with
  | nil => rfl
  | @cons child entry children entries hhead _ ih =>
    obtain ⟨hchild, hholds⟩ := hhead
    have hbit := isSetBit_eq hholds (hheld entry mem_cons_self) htarget
    rw [searchChildren, hchild, hbit, find?_cons]
    by_cases hsame : entry.1 = target.vpid
    · simp [hsame]
    · cases hin : entry.2.contains target.vpid with
      | true => simp [hsame]
      | false =>
        simp only [hsame, decide_false, Bool.false_or, if_false, Bool.false_eq_true]
        exact ih fun e he => hheld e (mem_cons_of_mem _ he)

/-- `get_route` at a daemon that is not a tool and not the target. -/
theorem getRoute_eq (system : SystemDefinition) (routes : Routes) (htool : daemon.2 ≠ .tool)
    (hme : target ≠ daemon.1) : getRoute (process system daemon) routes target
      = if target.jobid ≠ daemon.1.jobid ∧ daemon.2 = .scheduler then target
        else if daemon.2 = .daemon then ⟨daemon.1.jobid, routes.parent.vpid⟩
        else (searchChildren (process system daemon) target routes.children).getD
          ⟨daemon.1.jobid, routes.parent.vpid⟩ := by
  have htool' : (process system daemon).procType ≠ .tool := htool
  have hme' : target ≠ (process system daemon).name := hme
  rw [getRoute, if_neg htool', if_neg (by simp [process]), if_neg hme']
  rfl

/-- The search of a daemon that knows its place. -/
theorem Fits.search_eq (h : Fits cluster) {routes above}
    (hknows : Knows cluster daemon routes above sub) (htarget : target.vpid < 2 ^ 32)
    (parent : Option ℕ) :
    searchChildren (process (oneCluster cluster) daemon) target routes.children
      = (via target.vpid ⟨parent, sub.entries.reverse⟩).map fun entry =>
        if entry.1 = target.vpid then target else ⟨daemon.1.jobid, entry.1⟩ := by
  have hheld : ∀ entry ∈ sub.entries, ∀ n ∈ entry.2, n < 2 ^ 31 := by
    rintro ⟨c, rel⟩ hentry n hn
    have hsub : n ∈ sub.labels := (mem_labels_of_mem_entries hentry).2 hn
    have htree := (sublist_of_locate hknows.locate).subset (mem_cons_of_mem _ hsub)
    have hsize := h.size
    rw [h.labels_tree, mem_range'_1] at htree
    simp only [Bitmap.sizeLimit] at hsize
    omega
  rw [searchChildren_eq htarget hknows.children hheld, via, reverse_reverse]
  rfl

/-! ## 3. Messages of the job arrive -/

/-- The daemon a message for the target goes to next. -/
def hop (system : SystemDefinition) (target name : ProcName) : ProcName :=
  match (daemons system).find? fun daemon => decide (daemon.1 = name) with
  | none => name
  | some daemon =>
    match routesOf system daemon with
    | some (_, routes) => getRoute (process system daemon) routes target
    | none => name

theorem hop_eq {system name rc routes} (target : ProcName)
    (hfind : (daemons system).find? (fun daemon => decide (daemon.1 = name)) = some daemon)
    (hroutes : routesOf system daemon = some (rc, routes)) :
    hop system target name = getRoute (process system daemon) routes target := by
  rw [hop, hfind]
  simp only [hroutes]

theorem find_daemon (hv : vpid ∈ (systemTree cluster).labels) :
    ∃ daemon, daemon ∈ daemons (oneCluster cluster) ∧ daemon.1 = ⟨0, vpid⟩ ∧
      (daemons (oneCluster cluster)).find? (fun daemon => decide (daemon.1 = ⟨0, vpid⟩))
        = some daemon := by
  have hname : (⟨0, vpid⟩ : ProcName) ∈ (daemons (oneCluster cluster)).map Prod.fst := by
    rw [daemons_oneCluster_eq]
    exact mem_map_of_mem hv
  obtain ⟨daemon₀, hmem₀, hname₀⟩ := mem_map.mp hname
  have hsome : ((daemons (oneCluster cluster)).find? fun daemon =>
      decide (daemon.1 = ⟨0, vpid⟩)).isSome = true := by
    rw [find?_isSome]
    exact ⟨daemon₀, hmem₀, decide_eq_true hname₀⟩
  obtain ⟨daemon, hfind⟩ := isSome_iff_exists.mp hsome
  have hfound := find?_some hfind
  exact ⟨daemon, mem_of_find?_eq_some hfind, by simpa using hfound, hfind⟩

theorem hop_outside (hv : vpid ∉ (systemTree cluster).labels) (target : ProcName) :
    hop (oneCluster cluster) target ⟨0, vpid⟩ = ⟨0, vpid⟩ := by
  have hnone : (daemons (oneCluster cluster)).find? (fun daemon =>
      decide (daemon.1 = ⟨0, vpid⟩)) = none := by
    rw [find?_eq_none]
    intro daemon hd hfound
    obtain ⟨label, hlabel, hname⟩ := name_of_daemon hd
    rw [decide_eq_true_eq, hname, ProcName.mk.injEq] at hfound
    exact hv (hfound.2 ▸ hlabel)
  rw [hop, hnone]

section Reach

variable {cluster : Cluster NodeState} (h : Fits cluster)

include h

variable {b : ℕ}

/-- `get_route` for a daemon of the job goes where the table of the tree says. -/
theorem Fits.getRoute_route {daemon} (hd : daemon ∈ daemons (oneCluster cluster))
    (hb : b ∈ (systemTree cluster).labels) (hne : daemon.1.vpid ≠ b) :
    ∃ routes above sub next, routesOf (oneCluster cluster) daemon = some (.success, routes) ∧
      (systemTree cluster).locate daemon.1.vpid [] = some (above, sub) ∧
      getRoute (process (oneCluster cluster) daemon) routes ⟨0, b⟩ = ⟨0, next⟩ ∧
      route b ⟨above.head?, sub.entries.reverse⟩ = some next := by
  obtain ⟨routes, above, sub, hroutes, hknows, hroot, habove, hleaf⟩ := h.exists_knows hd
  obtain ⟨vpid, -, hname⟩ := name_of_daemon hd
  have hjob : daemon.1.jobid = 0 := by rw [hname]
  have hother : (⟨0, b⟩ : ProcName) ≠ daemon.1 := fun heq => hne (by rw [← heq])
  have hsmall : b < 2 ^ 32 := by
    have hsize := h.size
    rw [h.labels_tree, mem_range'_1] at hb
    simp only [Bitmap.sizeLimit] at hsize
    omega
  have hparent : above ≠ [] → ∃ p, above.head? = some p ∧ routes.parent = ⟨0, p⟩ := by
    intro hcons
    obtain ⟨p, rest, rfl⟩ := exists_cons_of_ne_nil hcons
    exact ⟨p, rfl, hknows.parent⟩
  have hroute := getRoute_eq (oneCluster cluster) routes (ne_tool_of_daemon hd) hother
  rw [if_neg (by simp [hjob]), hjob] at hroute
  refine ⟨routes, above, sub, ?_⟩
  by_cases hdaemon : daemon.2 = .daemon
  · -- a node can only go up, and has nothing below
    obtain ⟨p, hhead, hp⟩ := hparent (habove (by simp [hdaemon]))
    rw [if_pos hdaemon, hp] at hroute
    refine ⟨p, hroutes, hknows.locate, hroute, ?_⟩
    rw [route, via_eq_none (by simp [hleaf hdaemon, labels]), hhead]
    rfl
  · rw [if_neg hdaemon, h.search_eq hknows hsmall above.head?] at hroute
    cases hvia : via b ⟨above.head?, sub.entries.reverse⟩ with
    | some entry =>
      obtain ⟨c, rel⟩ := entry
      refine ⟨c, hroutes, hknows.locate, ?_, by rw [route, hvia]; rfl⟩
      rw [hroute, hvia, map_some, getD_some, hjob]
      by_cases hc : c = b <;> simp [hc]
    | none =>
      -- the scheduler has every other daemon below it
      have hcons : above ≠ [] := by
        refine habove fun hscheduler => ?_
        obtain ⟨hzero, rfl⟩ := hroot hscheduler
        have hbelow : b ∈ (clusterForest (nameCluster 1 cluster).1).labels := by
          simp only [systemTree, labels, mem_cons, List.append_nil] at hb
          rcases hb with rfl | hb
          · exact absurd hzero hne
          · exact hb
        obtain ⟨c, rel, hsome, -⟩ := exists_via hbelow above.head?
        rw [hsome] at hvia
        cases hvia
      obtain ⟨p, hhead, hp⟩ := hparent hcons
      refine ⟨p, hroutes, hknows.locate, ?_, by rw [route, hvia, hhead]; rfl⟩
      rw [hroute, hvia, hp]
      rfl

/-- A hop towards a daemon of the job is a hop by the table. -/
theorem Fits.hop_route {x} (hb : b ∈ (systemTree cluster).labels) (hne : x ≠ b) {above}
    (hloc : (systemTree cluster).locate x [] = some (above, sub)) :
    ∃ next, hop (oneCluster cluster) ⟨0, b⟩ ⟨0, x⟩ = ⟨0, next⟩ ∧
      route b ⟨above.head?, sub.entries.reverse⟩ = some next := by
  obtain ⟨daemon, hd, hname, hfind⟩ := find_daemon (mem_labels_of_locate hloc)
  have hvpid : daemon.1.vpid = x := by rw [hname]
  obtain ⟨routes, above', sub', next, hroutes, hloc', hget, hroute⟩ :=
    h.getRoute_route hd hb (hvpid ▸ hne)
  rw [hvpid, hloc] at hloc'
  cases hloc'
  exact ⟨next, (hop_eq _ hfind hroutes).trans hget, hroute⟩

end Reach

/-- **Every daemon is reached from every daemon, without a detour through a daemon twice**, in a
system of one scheduler and one cluster that fits its types: every daemon's `init_routes` succeeds,
and going by `get_route` from daemon to daemon leads to the target. -/
theorem every_daemon_is_reached {cluster : Cluster NodeState} (h : Fits cluster) :
    (∀ daemon ∈ daemons (oneCluster cluster), ∃ routes,
      routesOf (oneCluster cluster) daemon = some (.success, routes)) ∧
    ∀ A ∈ daemons (oneCluster cluster), ∀ B ∈ daemons (oneCluster cluster), ∃ n,
      (hop (oneCluster cluster) B.1)^[n] A.1 = B.1 ∧ ∀ i j, i < j → j ≤ n →
        (hop (oneCluster cluster) B.1)^[i] A.1 ≠ (hop (oneCluster cluster) B.1)^[j] A.1 := by
  constructor
  · intro daemon hd
    obtain ⟨routes, above, sub, hroutes, -⟩ := h.exists_knows hd
    exact ⟨routes, hroutes⟩
  · intro A hA B hB
    obtain ⟨a, ha, hAname⟩ := name_of_daemon hA
    obtain ⟨b, hb, hBname⟩ := name_of_daemon hB
    rw [hAname, hBname]
    exact exists_path (e := fun vpid => (⟨0, vpid⟩ : ProcName)) ProcName.vpid
      h.nodup_tree (fun _ => rfl) (fun _ _ _ hne hloc => h.hop_route hb hne hloc) ha

/-- The scheduler, the row controller, and a node in a rack without a controller. -/
theorem every_daemon_is_reached_three : Fits ⟨.undef, [⟨.unknown, [⟨.undef, [.unknown]⟩]⟩]⟩ ∧
      ∃ n, (hop (oneCluster ⟨.undef, [⟨.unknown, [⟨.undef, [.unknown]⟩]⟩]⟩) ⟨0, 2⟩)^[n] ⟨0, 0⟩
        = ⟨0, 2⟩ := by
  have hfits : Fits ⟨.undef, [⟨.unknown, [⟨.undef, [.unknown]⟩]⟩]⟩ :=
    ⟨⟨by decide, by decide⟩, by decide⟩
  obtain ⟨n, hn, -⟩ := (every_daemon_is_reached hfits).2 (⟨0, 0⟩, .scheduler) (by decide +kernel)
    (⟨0, 2⟩, .daemon) (by decide +kernel)
  exact ⟨hfits, n, hn⟩

/-- A row with one node, after many empty rows. -/
def manyRows (n : ℕ) : Cluster NodeState :=
  ⟨.undef, List.replicate n ⟨.undef, []⟩ ++ [⟨.undef, [⟨.undef, [.unknown]⟩]⟩]⟩

theorem clusterSize_manyRows (n : ℕ) : clusterSize (manyRows n) = 1 := by
  simp [clusterSize, manyRows, rowSize, rackSize, controllerSize]

theorem labels_manyRows (n : ℕ) : (systemTree (manyRows n)).labels = [0, 1] := by
  have hlabels := (nameCluster_consecutive (manyRows n) 1
    (by rw [clusterSize_manyRows, vpidLimit]; omega)).labels
  rw [clusterSize_manyRows] at hlabels
  rw [systemTree, labels, hlabels, labels]
  rfl

/-- With a count that is negative as an `int32_t` the scheduler reads no row. -/
theorem routesOf_manyRows {n : ℕ} (hn : (int32 (n + 1)).toNat = 0) :
    routesOf (oneCluster (manyRows n)) (⟨0, 0⟩, .scheduler) = some (.success, noRoutes) := by
  set cluster := (nameCluster 1 (manyRows n)).1 with hcluster
  have hcontroller : cluster.controller = nameInvalid := rfl
  have hrows : cluster.rows.length = n + 1 := by
    rw [hcluster, nameCluster]
    simp only [length_nameEach, manyRows, length_append, length_replicate,
      length_singleton]
  have hcount : (int32 cluster.rows.length).toNat = 0 := by
    rw [hrows, Nat.cast_add, Nat.cast_one, hn]
  have hthere : ProcName.isPresent ⟨0, 0⟩ = true := by decide
  have habsent : nameInvalid.isPresent = false := by decide
  rw [routesOf, oneCluster_eq, ← hcluster]
  simp only [initRoutes, process, ne_eq, not_true_eq_false, if_false, readDefinition, hthere,
    Bool.true_eq_false, reduceCtorEq, packCluster, initRows, hcount, initEach, hcontroller,
    initCluster, clusterLevel, habsent, Bool.false_eq_true, noRoutes]
  rfl

theorem getRoute_noRoutes (system : SystemDefinition) :
    getRoute (process system (⟨0, 0⟩, .scheduler)) noRoutes ⟨0, 1⟩ = ⟨0, nameInvalid.vpid⟩ := by
  have hother : (⟨0, 1⟩ : ProcName) ≠ ⟨0, 0⟩ := by simp
  rw [getRoute_eq _ _ (by simp) hother]
  simp [noRoutes, searchChildren]

/-- The scheduler then sends everything to its parent, which is not there. -/
theorem hop_of_no_row {rows : ℕ} (hcount : (int32 (rows + 1)).toNat = 0) :
    hop (oneCluster (manyRows rows)) ⟨0, 1⟩ ⟨0, 0⟩ = ⟨0, nameInvalid.vpid⟩ := by
  have hfind : (daemons (oneCluster (manyRows rows))).find?
      (fun daemon => decide (daemon.1 = ⟨0, 0⟩)) = some (⟨0, 0⟩, .scheduler) := by
    simp [oneCluster_eq, daemons]
  exact (hop_eq _ hfind (routesOf_manyRows hcount)).trans (getRoute_noRoutes _)

theorem hop_lost (rows : ℕ) :
    hop (oneCluster (manyRows rows)) ⟨0, 1⟩ ⟨0, nameInvalid.vpid⟩ = ⟨0, nameInvalid.vpid⟩ :=
  hop_outside (by simp [labels_manyRows, nameInvalid]) _

/-- If the scheduler reads no row, it does not find the node of the last one. -/
theorem unreachable_of_no_row {rows : ℕ} (hcount : (int32 (rows + 1)).toNat = 0) :
    ∃ A ∈ daemons (oneCluster (manyRows rows)), ∃ B ∈ daemons (oneCluster (manyRows rows)),
      A ≠ B ∧ ∀ n, (hop (oneCluster (manyRows rows)) B.1)^[n] A.1 ≠ B.1 := by
  have hone : 1 ∈ (systemTree (manyRows rows)).labels := by simp [labels_manyRows]
  obtain ⟨B, hB, hname, -⟩ := find_daemon hone
  refine ⟨(⟨0, 0⟩, .scheduler), mem_daemons_oneCluster.mpr (.inl rfl), B, hB, ?_, ?_⟩
  · rintro rfl
    simp at hname
  · intro n
    rw [hname]
    cases n with
    | zero => simp
    | succ n =>
      rw [Function.iterate_succ_apply, hop_of_no_row hcount, Function.iterate_fixed (hop_lost rows)]
      simp [nameInvalid]

/-- With `2^31` rows the count is negative. -/
theorem unreachable_behind_too_many_rows : ∃ A ∈ daemons (oneCluster (manyRows (2 ^ 31 - 1))),
      ∃ B ∈ daemons (oneCluster (manyRows (2 ^ 31 - 1))), A ≠ B ∧
        ∀ n, (hop (oneCluster (manyRows (2 ^ 31 - 1))) B.1)^[n] A.1 ≠ B.1 :=
  unreachable_of_no_row (by rw [int32, Int.bmod_def]; omega)

/-! ## 4. Messages to other jobs -/

/-- The vpids of the daemons below a daemon. -/
def beneath (cluster : Cluster NodeState) (vpid : ℕ) : List ℕ :=
  match (systemTree cluster).locate vpid [] with
  | some (_, sub) => sub.labels
  | none => []

/-- **A message to another job goes up to the scheduler, and from there to the target, except at
the controllers above a daemon that has the target's vpid.**  Those take the target for one of their
own. -/
theorem foreign_goes_up_iff {cluster : Cluster NodeState} (h : Fits cluster)
    {daemon : ProcName × ProcType} (hd : daemon ∈ daemons (oneCluster cluster))
    {target : ProcName} (hjob : target.jobid ≠ daemon.1.jobid) (htarget : target.vpid < 2 ^ 32) :
    (∃ routes, routesOf (oneCluster cluster) daemon = some (.success, routes) ∧
      getRoute (process (oneCluster cluster) daemon) routes target
        = if daemon.2 = .scheduler then target else routes.parent) ↔
      daemon.2 = .scheduler ∨ target.vpid ∉ beneath cluster daemon.1.vpid := by
  obtain ⟨routes, above, sub, hroutes, hknows, -, habove, hleaf⟩ := h.exists_knows hd
  obtain ⟨vpid, -, hname⟩ := name_of_daemon hd
  have hmyJob : daemon.1.jobid = 0 := by rw [hname]
  have hother : target ≠ daemon.1 := fun heq => hjob (by rw [heq])
  have hroute := getRoute_eq (oneCluster cluster) routes (ne_tool_of_daemon hd) hother
  simp only [hroutes, some.injEq, Prod.mk.injEq, true_and, exists_eq_left', hroute,
    beneath, hknows.locate]
  by_cases hsched : daemon.2 = .scheduler
  · simp [hsched, hjob]
  · obtain ⟨p, rest, rfl⟩ := exists_cons_of_ne_nil (habove hsched)
    have hparent : routes.parent = ⟨0, p⟩ := hknows.parent
    simp only [hsched, and_false, if_false, false_or, hparent, hmyJob]
    by_cases hdaemon : daemon.2 = .daemon
    · simp [hdaemon, hleaf hdaemon, labels]
    · rw [if_neg hdaemon, h.search_eq hknows htarget (some p)]
      constructor
      · intro hup hbelow
        obtain ⟨c, rel, hvia, hentry, -⟩ := exists_via hbelow (some p)
        rw [hvia, map_some, getD_some] at hup
        split at hup
        · -- the target itself is not a daemon of the job
          rw [hup] at hjob
          exact hjob hmyJob.symm
        · have hc : c ∈ sub.labels := (mem_labels_of_mem_entries hentry).1
          rw [hmyJob, ProcName.mk.injEq] at hup
          exact ne_parent_of_below h.nodup_tree hknows.locate rfl hc hup.2
      · intro hnot
        rw [via_eq_none hnot]
        rfl

/-- At the node of the system of three, with the vpid of the node itself. -/
theorem foreign_goes_up_iff_node :
    ∃ routes, routesOf (oneCluster ⟨.undef, [⟨.unknown, [⟨.undef, [.unknown]⟩]⟩]⟩)
        (⟨0, 2⟩, .daemon) = some (.success, routes) ∧
      getRoute (process (oneCluster ⟨.undef, [⟨.unknown, [⟨.undef, [.unknown]⟩]⟩]⟩)
        (⟨0, 2⟩, .daemon)) routes ⟨5, 2⟩ = routes.parent := by
  have hd : (⟨0, 2⟩, .daemon) ∈ daemons
      (oneCluster ⟨.undef, [⟨.unknown, [⟨.undef, [.unknown]⟩]⟩]⟩) := by decide +kernel
  exact (foreign_goes_up_iff ⟨⟨by decide, by decide⟩, by decide⟩ hd (by decide)
    (by decide)).mpr (by decide +kernel)

/-- The row controller of the system of three sends a message for process 2 of job 5 to the process
itself; its parent is the scheduler. -/
theorem foreign_goes_down :
    (⟨0, 1⟩, .aggregator) ∈ daemons (oneCluster ⟨.undef, [⟨.unknown, [⟨.undef, [.unknown]⟩]⟩]⟩) ∧
      ∃ routes, routesOf (oneCluster ⟨.undef, [⟨.unknown, [⟨.undef, [.unknown]⟩]⟩]⟩)
          (⟨0, 1⟩, .aggregator) = some (.success, routes) ∧ routes.parent = ⟨0, 0⟩ ∧
        getRoute (process (oneCluster ⟨.undef, [⟨.unknown, [⟨.undef, [.unknown]⟩]⟩]⟩)
          (⟨0, 1⟩, .aggregator)) routes ⟨5, 2⟩ = ⟨5, 2⟩ := by
  refine ⟨by decide +kernel, _, rfl, ?_, ?_⟩ <;> decide +kernel

end Sensys.Orte.Routed
