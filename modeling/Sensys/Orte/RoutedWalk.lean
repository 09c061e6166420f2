/-
# What `init_routes` builds

The daemons of a cluster are a forest: every controller that is there has below it what it
controls, and what a missing controller would control hangs one level higher (`clusterForest`).

At every level `init_routes` asks the same three questions with other flags: is the process the
nearest controller above this daemon, is it further above, is it the daemon itself?  `visit` asks
them once, for the list of the controllers above; `initNode_eq_visit` and its companions show that
each level asks these questions, and `initRows_eq` that the whole call is a preorder walk of the
forest.

With that the tables are those of the forest library: the walk simulates `Table.learn`, a list of
vpids standing for a bitmap (`visit_learn`).
-/
import Sensys.Lib.Forest
import Sensys.Orte.Routed

namespace Sensys.Orte.Routed

open Opal Orcm List Option

/-! ## 1. The forest of a cluster -/

/-- The nodes of a rack. -/
def leaves : List ProcName → Forest ℕ
  | [] => .nil
  | name :: names => .cons name.vpid .nil (leaves names)

/-- A controller and what it controls, which moves up if the controller is missing. -/
def controlled (controller : ProcName) (forest : Forest ℕ) : Forest ℕ :=
  if controller.isPresent then .cons controller.vpid forest .nil else forest

/-- The forests of the members of a list, one after the other. -/
def forestOf {α : Type} (forest : α → Forest ℕ) : List α → Forest ℕ
  | [] => .nil
  | a :: as => (forest a).append (forestOf forest as)

/-- The daemons of a rack. -/
def rackForest (rack : Orcm.Rack ProcName) : Forest ℕ := controlled rack.controller (leaves rack.nodes)

/-- The daemons of a row. -/
def rowForest (row : Row ProcName) : Forest ℕ :=
  controlled row.controller (forestOf rackForest row.racks)

/-- The daemons of a cluster. -/
def clusterForest (cluster : Cluster ProcName) : Forest ℕ :=
  controlled cluster.controller (forestOf rowForest cluster.rows)

/-! ## 2. One question for all levels -/

/-- The vpids of the controllers that are there. -/
def above (levels : List Level) : List ℕ :=
  (levels.filter Level.present).map fun level => level.name.vpid

/-- What a process does about a daemon with the given controllers above it. -/
def visit (me : Process) (walk : Walk) (daemon : List ℕ × ℕ) : Option Walk :=
  let walk :=
    if daemon.1.head? = some me.name.vpid then some (addChild me daemon.2 walk)
    else if daemon.1.contains me.name.vpid then addRelative daemon.2 walk
    else some walk
  walk.map fun walk =>
    if daemon.2 = me.name.vpid then
      { walk with parent := ⟨me.name.jobid, daemon.1.headD me.name.vpid⟩ }
    else walk

/-- The level is what the process should think of it. -/
structure Level.Right (me : Process) (level : Level) : Prop where
  jobid : level.present = true → level.name.jobid = me.name.jobid
  iAm : level.iAm = (level.present && decide (level.name.vpid = me.name.vpid))

variable {l sched : Level} {me : Process} {levels : List Level}

theorem above_cons_present (h : l.present = true) (levels : List Level) :
    above (l :: levels) = l.name.vpid :: above levels := by
  simp [above, h]

theorem above_cons_absent (h : l.present = false) (levels : List Level) :
    above (l :: levels) = above levels := by
  simp [above, h]

section

variable (h : ∀ l ∈ levels, l.Right me)
include h

theorem nearest_eq : nearest me levels = ⟨me.name.jobid, (above levels).headD me.name.vpid⟩ := by
  induction levels with
  | nil => rfl
  | cons l levels ih =>
    cases hp : l.present with
    | true =>
      have hjob := (h l mem_cons_self).jobid hp
      rw [nearest, above_cons_present hp, find?_cons_of_pos hp]
      simp [← hjob]
    | false =>
      rw [above_cons_absent hp, ← ih fun l hl => h l (mem_cons_of_mem _ hl), nearest, nearest,
        find?_cons_of_neg (by simp [hp])]

/-- The nearest controller that is there is the process. -/
def nearestIsMe : List Level → Bool
  | [] => false
  | l :: levels => l.iAm || (!l.present && nearestIsMe levels)

theorem above_head : (above levels).head? = some me.name.vpid ↔ nearestIsMe levels = true := by
  induction levels with
  | nil => simp [above, nearestIsMe]
  | cons l levels ih =>
    obtain ⟨hl, hlevels⟩ := forall_mem_cons.mp h
    cases hp : l.present with
    | true => simp [above_cons_present hp, nearestIsMe, hl.iAm, hp]
    | false => simp [above_cons_absent hp, nearestIsMe, hl.iAm, hp, ih hlevels]

theorem above_contains : (above levels).contains me.name.vpid = levels.any Level.iAm := by
  induction levels with
  | nil => rfl
  | cons l levels ih =>
    obtain ⟨hl, hlevels⟩ := forall_mem_cons.mp h
    rw [any_cons, ← ih hlevels]
    cases hp : l.present with
    | true => simp [above_cons_present hp, hl.iAm, hp, eq_comm]
    | false => simp [above_cons_absent hp, hl.iAm, hp]

end

/-- The three questions, in the form the levels ask them. -/
theorem visit_eq {vpid iAm} (hright : ∀ l ∈ levels, l.Right me)
    (hiAm : iAm = decide (vpid = me.name.vpid)) (walk : Walk) : visit me walk (above levels, vpid)
      = (if nearestIsMe levels then some (addChild me vpid walk)
        else if levels.any Level.iAm then addRelative vpid walk else some walk).map fun walk =>
          if iAm then { walk with parent := nearest me levels } else walk := by
  simp only [visit, above_head hright, above_contains hright, nearest_eq hright, hiAm,
    decide_eq_true_eq]

theorem Level.Right.iAm_of_present (h : l.Right me) (hp : l.present = true) :
    l.iAm = decide (l.name.vpid = me.name.vpid) := by
  simp [h.iAm, hp]

section Levels

variable {me : Process} {sched cluster row rack : Level} (hsched : sched.Right me)
  (hcluster : cluster.Right me)

include hsched hcluster

/-- The controller of a row asks the three questions; the scheduler asks the second one first. -/
theorem initRowController_eq_visit (hother : sched.iAm = true → cluster.iAm = false)
    (hrow : row.Right me) (walk : Walk) : initRowController me sched cluster row walk
      = if row.present then visit me walk (above [cluster, sched], row.name.vpid)
        else some walk := by
  refine if_ctx_congr Iff.rfl (fun hp => ?_) fun _ => rfl
  rw [visit_eq (by simp [hcluster, hsched]) (hrow.iAm_of_present hp)]
  cases hs : sched.iAm with
  | false => obtain ⟨_ | _, _, _ | _⟩ := cluster <;> simp [nearestIsMe, hs]
  | true => cases hc : cluster.present <;> simp [nearestIsMe, hs, hc, hother hs]

/-- The controller of a rack asks the three questions. -/
theorem initRackController_eq_visit (hrow : row.Right me) (hrack : rack.Right me) (walk : Walk) :
    initRackController me sched cluster row rack walk
      = if rack.present then visit me walk (above [row, cluster, sched], rack.name.vpid)
        else some walk := by
  refine if_ctx_congr Iff.rfl (fun hp => ?_) fun _ => rfl
  rw [visit_eq (by simp [hrow, hcluster, hsched]) (hrack.iAm_of_present hp)]
  obtain ⟨_ | _, _, _ | _⟩ := row <;> obtain ⟨_ | _, _, _ | _⟩ := cluster <;>
    obtain ⟨_ | _, _, _ | _⟩ := sched <;> rfl

/-- A node asks the three questions. -/
theorem initNode_eq_visit (hrow : row.Right me) (hrack : rack.Right me) {name}
    (hjob : name.jobid = me.name.jobid) (walk : Walk) : initNode me sched cluster row rack name walk
      = visit me walk (above [rack, row, cluster, sched], name.vpid) := by
  have hiAm : decide (me.name = name) = decide (name.vpid = me.name.vpid) := by
    refine decide_eq_decide.mpr ⟨fun h => by rw [h], fun h => ?_⟩
    exact ProcName.eq_iff.mpr ⟨hjob.symm, h.symm⟩
  rw [initNode, visit_eq (by simp [hrack, hrow, hcluster, hsched]) hiAm]
  simp only [decide_eq_true_eq]
  obtain ⟨_ | _, _, _ | _⟩ := rack <;> obtain ⟨_ | _, _, _ | _⟩ := row <;>
    obtain ⟨_ | _, _, _ | _⟩ := cluster <;> obtain ⟨_ | _, _, _ | _⟩ := sched <;> rfl

end Levels

/-! ## 3. The walk -/

/-- The walk through a list of daemons. -/
def walkAll (me : Process) (daemons : List (List ℕ × ℕ)) (walk : Walk) : Option (Rc × Walk) :=
  (daemons.foldlM (visit me) walk).map fun walk => (.success, walk)

theorem walkAll_cons (me : Process) (daemon : List ℕ × ℕ) (daemons : List (List ℕ × ℕ))
    (walk : Walk) :
    walkAll me (daemon :: daemons) walk = (visit me walk daemon).bind (walkAll me daemons) := by
  rw [walkAll, foldlM_cons, bind_eq_bind, Option.map_bind]
  rfl

theorem walkAll_append (me : Process) (daemons daemons' : List (List ℕ × ℕ)) (walk : Walk) :
    walkAll me (daemons ++ daemons') walk
      = (walkAll me daemons walk).bind fun result => walkAll me daemons' result.2 := by
  rw [walkAll, foldlM_append, bind_eq_bind, Option.map_bind, walkAll, bind_map]
  rfl

/-- The walk through what a controller controls, which is visited first if it is there. -/
theorem walkAll_controlled (hl : l.name.isPresent = l.present) (forest : Forest ℕ) (walk : Walk) :
    walkAll me ((controlled l.name forest).visits (above levels)) walk
      = (if l.present then visit me walk (above levels, l.name.vpid) else some walk).bind
          (walkAll me (forest.visits (above (l :: levels)))) := by
  rw [controlled, hl]
  cases hp : l.present with
  | true =>
    rw [if_pos rfl, if_pos rfl, Forest.visits, Forest.visits, List.append_nil, walkAll_cons,
      above_cons_present hp]
  | false =>
    rw [above_cons_absent hp]
    rfl

/-- The names of a rack belong to the job. -/
structure RackOf (job : ℕ) (rack : Orcm.Rack ProcName) : Prop where
  controller : rack.controller.isPresent = true → rack.controller.jobid = job
  nodes : ∀ name ∈ rack.nodes, name.jobid = job

/-- The names of a row belong to the job. -/
structure RowOf (job : ℕ) (row : Row ProcName) : Prop where
  controller : row.controller.isPresent = true → row.controller.jobid = job
  racks : ∀ rack ∈ row.racks, RackOf job rack

/-- The names of a cluster belong to the job. -/
structure ClusterOf (job : ℕ) (cluster : Cluster ProcName) : Prop where
  controller : cluster.controller.isPresent = true → cluster.controller.jobid = job
  rows : ∀ row ∈ cluster.rows, RowOf job row

/-- The rows and racks can be counted in `int32_t`. -/
structure Counted {α : Type} (cluster : Cluster α) : Prop where
  rows : cluster.rows.length < 2 ^ 31
  racks : ∀ row ∈ cluster.rows, row.racks.length < 2 ^ 31

theorem level_right {name} (h : name.isPresent = true → name.jobid = me.name.jobid) :
    (level me name).Right me := by
  refine ⟨h, ?_⟩
  rw [level]
  cases hp : name.isPresent with
  | false => rfl
  | true =>
    refine decide_eq_decide.mpr ⟨fun heq => by rw [heq], fun heq => ?_⟩
    exact ProcName.eq_iff.mpr ⟨h hp, heq⟩

section Walks

variable {me : Process} {sched cluster row rack : Level} (hsched : sched.Right me)
  (hcluster : cluster.Right me)

include hsched hcluster

theorem initNodes_eq (hrow : row.Right me) (hrack : rack.Right me) :
    ∀ names, (∀ name ∈ names, name.jobid = me.name.jobid) → ∀ walk,
      initNodes me sched cluster row rack (names.map .name) walk
        = walkAll me ((leaves names).visits (above [rack, row, cluster, sched])) walk
  | [], _, walk => rfl
  | name :: names, h, walk => by
    rw [map_cons, initNodes,
      initNode_eq_visit hsched hcluster hrow hrack (h name mem_cons_self), leaves,
      Forest.visits, Forest.visits, nil_append, walkAll_cons]
    congr 1
    funext walk
    exact initNodes_eq hrow hrack names (fun name hn => h name (mem_cons_of_mem _ hn)) walk

theorem initRack_eq (hrow : row.Right me) {rack} (h : RackOf me.name.jobid rack) (walk : Walk) :
    initRack me sched cluster row (packRack rack) walk
      = walkAll me ((rackForest rack).visits (above [row, cluster, sched])) walk := by
  have hrack := level_right h.controller
  have hnodes := funext (initNodes_eq hsched hcluster hrow hrack rack.nodes h.nodes)
  rw [packRack, initRack, initRackController_eq_visit hsched hcluster hrow hrack, hnodes]
  exact (walkAll_controlled (l := level me rack.controller) rfl _ walk).symm

end Walks

/-- A loop over packed buffers is a walk through their forests, one after the other. -/
theorem initEach_eq {α : Type} {init} {pack : α → List Orcm.Item} {forest ab} :
    ∀ as, (∀ a ∈ as, ∀ walk, init (pack a) walk
        = walkAll me ((forest a).visits ab) walk) → ∀ walk,
      initEach init as.length (as.map fun a => .buffer (pack a)) walk
        = walkAll me ((forestOf forest as).visits ab) walk
  | [], _, walk => rfl
  | a :: as, h, walk => by
    rw [map_cons, length_cons, initEach, h a mem_cons_self, forestOf,
      Forest.visits_append, walkAll_append]
    have hrest := initEach_eq as fun b hb => h b (mem_cons_of_mem _ hb)
    rw [walkAll]
    cases ((forest a).visits ab).foldlM (visit me) walk with
    | none => rfl
    | some walk => exact hrest walk

theorem toNat_int32 {n : ℕ} (h : n < 2 ^ 31) : (int32 n).toNat = n := by
  rw [int32_eq (by omega) (by omega), Int.toNat_natCast]

theorem initRow_eq {cluster : Level} (hsched : sched.Right me)
    (hcluster : cluster.Right me) (hother : sched.iAm = true → cluster.iAm = false)
    {row : Row ProcName} (h : RowOf me.name.jobid row) (hcount : row.racks.length < 2 ^ 31)
    (walk : Walk) : initRow me sched cluster (packRow row) walk
      = walkAll me ((rowForest row).visits (above [cluster, sched])) walk := by
  have hrow := level_right h.controller
  have hracks := initEach_eq row.racks fun rack hmem =>
    initRack_eq hsched hcluster hrow (h.racks rack hmem)
  rw [packRow, initRow, toNat_int32 hcount, initRowController_eq_visit hsched hcluster hother hrow,
    funext hracks]
  exact (walkAll_controlled (l := level me row.controller) rfl _ walk).symm

/-- The cluster controller, below the scheduler. -/
theorem initCluster_eq_visit {cluster} (hsched : sched.Right me) (hthere : sched.present = true)
    (hcluster : cluster.Right me) (hother : sched.iAm = true → cluster.iAm = false) (walk : Walk) :
    some (initCluster me sched cluster walk)
      = if cluster.present then visit me walk (above [sched], cluster.name.vpid)
        else some walk := by
  rw [initCluster, apply_ite some]
  refine if_ctx_congr Iff.rfl (fun hp => ?_) fun _ => rfl
  rw [visit_eq (by simp [hsched]) (hcluster.iAm_of_present hp)]
  cases hs : sched.iAm with
  | true => simp [nearestIsMe, hs, hother hs]
  | false => cases cluster.iAm <;> simp [nearestIsMe, hs, nearest, hthere]

/-- **The whole call is a preorder walk of the cluster**, below the scheduler. -/
theorem initRows_eq (hsched : sched.Right me)
    (hthere : sched.present = true) {cluster : Cluster ProcName}
    (h : ClusterOf me.name.jobid cluster) (hcount : Counted cluster)
    (hne : cluster.controller.isPresent = true → cluster.controller.vpid ≠ sched.name.vpid)
    (walk : Walk) : initRows me sched (packCluster cluster) walk
      = walkAll me ((clusterForest cluster).visits [sched.name.vpid]) walk := by
  set level := clusterLevel me sched cluster.controller with hlevel
  have hother : sched.iAm = true → level.iAm = false := by
    intro hs
    simp [hlevel, clusterLevel, hs]
  have hcluster : level.Right me := by
    refine ⟨h.controller, ?_⟩
    have hright := (level_right h.controller).iAm
    rw [Routed.level] at hright
    simp only [hlevel, clusterLevel]
    cases hs : sched.iAm with
    | false => simpa using hright
    | true =>
      -- the process is the scheduler, and has another vpid
      have hme : sched.name.vpid = me.name.vpid := by
        simpa [hsched.iAm, hthere] using hs
      cases hp : cluster.controller.isPresent with
      | false => rfl
      | true => simp [← hme, hne hp]
  have habove : above [sched] = [sched.name.vpid] := by simp [above, hthere]
  have hrows := initEach_eq cluster.rows fun row hmem =>
    initRow_eq hsched hcluster hother (h.rows row hmem) (hcount.racks row hmem)
  rw [packCluster, initRows, toNat_int32 hcount.rows, hrows, ← habove]
  refine Eq.trans ?_ (walkAll_controlled (l := level) rfl _ walk).symm
  rw [← initCluster_eq_visit hsched hthere hcluster hother]
  rfl

/-! ## 4. The tables -/

/-- The routes hold what the table says, for a job of `numProcs` daemons. -/
structure Agree (job numProcs : ℕ) (walk : Walk) (table : Table ℕ) : Prop where
  parent : walk.parent = (table.parent.map fun vpid => ⟨job, vpid⟩).getD nameInvalid
  children : List.Forall₂ (fun child entry => child.vpid = entry.1 ∧
    child.relatives.Holds numProcs entry.2) walk.added table.children

section Simulation

variable {me : Process} (hpos : 0 < me.numProcs) (hlimit : me.numProcs ≤ Bitmap.sizeLimit)

include hpos hlimit

variable {walk : Walk} {table : Table ℕ}

theorem addChild_agree (h : Agree me.name.jobid me.numProcs walk table) (vpid : ℕ) :
    Agree me.name.jobid me.numProcs (addChild me vpid walk)
      { table with children := (vpid, []) :: table.children } := by
  have hsize : int32 me.numProcs = me.numProcs := by
    simp only [Bitmap.sizeLimit] at hlimit
    exact int32_eq (by omega) (by omega)
  refine ⟨h.parent, List.Forall₂.cons ⟨rfl, ?_⟩ h.children⟩
  rw [hsize]
  exact Bitmap.holds_init hpos hlimit

omit hpos in
theorem addRelative_agree {parent child rel children}
    (h : Agree me.name.jobid me.numProcs walk ⟨parent, (child, rel) :: children⟩) {vpid}
    (hvpid : vpid < me.numProcs) : ∃ walk', addRelative vpid walk = some walk' ∧
      Agree me.name.jobid me.numProcs walk' ⟨parent, (child, rel ++ [vpid]) :: children⟩ := by
  obtain ⟨hparent, hchildren⟩ := h
  obtain ⟨parent', added⟩ := walk
  cases hchildren with
  | @cons tree _ trees _ hhead htail =>
    obtain ⟨hchild, hholds⟩ := hhead
    obtain ⟨relatives, hset, hholds'⟩ := hholds.setBit hlimit hvpid
    have hbit : int32 vpid = vpid := by
      simp only [Bitmap.sizeLimit] at hlimit
      exact int32_eq (by omega) (by omega)
    refine ⟨⟨parent', ⟨tree.vpid, relatives⟩ :: trees⟩, ?_, hparent, ?_⟩
    · simp only [addRelative, hbit, hset, map_some]
    · exact List.Forall₂.cons ⟨hchild, hholds'⟩ htail

/-- **One visit**: the process learns what the table learns. -/
theorem visit_learn {table'} (h : Agree me.name.jobid me.numProcs walk table) {daemon}
    (hvpid : daemon.2 < me.numProcs) (hne : daemon.1 ≠ [])
    (hlearn : table.learn me.name.vpid daemon = some table') :
    ∃ walk', visit me walk daemon = some walk' ∧ Agree me.name.jobid me.numProcs walk' table' := by
  obtain ⟨learnt, hdescend, rfl⟩ := map_eq_some_iff.mp hlearn
  -- the first two questions
  have hdown : ∃ walk₁, (if daemon.1.head? = some me.name.vpid then
        some (addChild me daemon.2 walk)
      else if daemon.1.contains me.name.vpid then addRelative daemon.2 walk
      else some walk) = some walk₁ ∧ Agree me.name.jobid me.numProcs walk₁ learnt := by
    rw [Table.descend] at hdescend
    by_cases hhead : daemon.1.head? = some me.name.vpid
    · rw [if_pos hhead] at hdescend ⊢
      cases hdescend
      exact ⟨_, rfl, addChild_agree hpos hlimit h daemon.2⟩
    · rw [if_neg hhead] at hdescend ⊢
      by_cases hin : daemon.1.contains me.name.vpid = true
      · rw [if_pos hin] at hdescend ⊢
        obtain ⟨parent, children⟩ := table
        cases children with
        | nil => cases hdescend
        | cons entry children =>
          cases hdescend
          exact addRelative_agree hlimit h hvpid
      · rw [if_neg hin] at hdescend ⊢
        cases hdescend
        exact ⟨walk, rfl, h⟩
  obtain ⟨walk₁, hwalk₁, hagree⟩ := hdown
  rw [visit]
  simp only [hwalk₁, map_some]
  refine ⟨_, rfl, ?_⟩
  split
  · obtain ⟨nearest, rest, hcons⟩ := exists_cons_of_ne_nil hne
    exact ⟨by simp [hcons], hagree.children⟩
  · exact hagree

/-- **The walk**, by induction over the daemons visited. -/
theorem walkAll_learn {table' daemons} (h : Agree me.name.jobid me.numProcs walk table)
    (hdaemons : ∀ daemon ∈ daemons, daemon.2 < me.numProcs ∧ daemon.1 ≠ [])
    (hlearn : daemons.foldlM (Table.learn me.name.vpid) table = some table') :
    ∃ walk', walkAll me daemons walk = some (.success, walk') ∧
      Agree me.name.jobid me.numProcs walk' table' := by
  induction daemons generalizing walk table with
  | nil =>
    cases hlearn
    exact ⟨walk, rfl, h⟩
  | cons daemon daemons ih =>
    obtain ⟨table₁, hone, hrest⟩ := bind_eq_some_iff.mp hlearn
    obtain ⟨hvpid, hne⟩ := hdaemons daemon mem_cons_self
    obtain ⟨walk₁, hvisit, hagree⟩ := visit_learn hpos hlimit h hvpid hne hone
    rw [walkAll_cons, hvisit, bind_some]
    exact ih hagree (fun d hd => hdaemons d (mem_cons_of_mem _ hd)) hrest

end Simulation

end Sensys.Orte.Routed
