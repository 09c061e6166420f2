/-
# The topologies of the nodes

`orcm/mca/scd/base/scd_base_rm_recv.c`, the messages of nodes that come up.  A message carries the
topology of its node.  The scheduler keeps every topology once: one that it has is destroyed ("yes -
just point to it"), and a new one is kept.  But what the node then gets is `topo`, which was set to
`NULL` when the topology was destroyed, and not the one that was found: a node with a topology that
another one has sent before ends up with NONE.

* `topologies_right_iff`: the nodes have their topologies as long as all of them are new.
* `same_topology_lost`: two nodes with the same topology.
-/
import Sensys.Lib.Run
import Sensys.Orcm.Scd

namespace Sensys.Orcm.ScdTopologies

open Scd List

variable {τ : Type}

/-- `orcm_node_t`, with its topology. -/
structure Host (τ : Type) where
  node : Node
  topology : Option τ
  deriving DecidableEq

/-- The nodes and the topologies of `orcm_scd_base`. -/
structure Base (τ : Type) where
  nodes : List (Option (Host τ))
  topologies : List τ

/-- `update_nodestate_byproc` for one node that is up. -/
def updateNodestateByproc (name : ProcName) (topo : Option τ) :
    List (Option (Host τ)) → List (Option (Host τ))
  | [] => []
  | none :: nodes => none :: updateNodestateByproc name topo nodes
  | some host :: nodes =>
    if host.node.daemon = name then some ⟨setNodeState .up .up host.node, topo⟩ :: nodes
    else some host :: updateNodestateByproc name topo nodes

/-- `ORCM_NODE_STATE_UP`, for a message with a topology. -/
def recvUp [DecidableEq τ] (base : Base τ) (message : ProcName × τ) : Base τ :=
  let found := base.topologies.any fun t => decide (message.2 = t)
  let topo := if found then none else some message.2
  ⟨updateNodestateByproc message.1 topo base.nodes, base.topologies ++ topo.toList⟩

/-- The topology of the node with a daemon. -/
def topologyOf (name : ProcName) : List (Option (Host τ)) → Option τ
  | [] => none
  | none :: nodes => topologyOf name nodes
  | some host :: nodes =>
    if host.node.daemon = name then host.topology else topologyOf name nodes

/-- The daemons of the nodes. -/
def daemons (nodes : List (Option (Host τ))) : List ProcName :=
  nodes.filterMap (Option.map fun host => host.node.daemon)

/-- Apart from the topology this is the update of the scheduler's model. -/
theorem map_updateNodestateByproc (name : ProcName) (topo : Option τ) :
    ∀ nodes : List (Option (Host τ)),
      (updateNodestateByproc name topo nodes).map (Option.map Host.node) =
        (Scd.updateNodestateByproc .up [name] (nodes.map (Option.map Host.node))).2
  | [] => rfl
  | none :: nodes => congrArg (none :: ·) (map_updateNodestateByproc name topo nodes)
  | some host :: nodes => by
    have ih := map_updateNodestateByproc name topo nodes
    simp only [Scd.updateNodestateByproc, updateEach] at ih ⊢
    by_cases h : host.node.daemon = name
    · simp [updateNodestateByproc, updateFirst, h]
    · simp [updateNodestateByproc, updateFirst, h, ih]

theorem daemons_update (name : ProcName) (topo : Option τ) : ∀ nodes : List (Option (Host τ)),
      daemons (updateNodestateByproc name topo nodes) = daemons nodes
  | [] => rfl
  | none :: nodes => daemons_update name topo nodes
  | some host :: nodes => by
    rw [updateNodestateByproc]
    split
    · rfl
    · exact congrArg (host.node.daemon :: ·) (daemons_update name topo nodes)

theorem topologyOf_update {name} (topo : Option τ) :
    ∀ nodes : List (Option (Host τ)), name ∈ daemons nodes →
      topologyOf name (updateNodestateByproc name topo nodes) = topo
  | [], h => absurd h not_mem_nil
  | none :: nodes, h => topologyOf_update topo nodes h
  | some host :: nodes, h => by
    rw [updateNodestateByproc]
    split
    · rename_i heq
      exact if_pos heq
    · rename_i hne
      rw [topologyOf, if_neg hne]
      exact topologyOf_update topo nodes ((mem_cons.mp h).resolve_left (Ne.symm hne))

section Runs

variable [DecidableEq τ] (nodes : List (Option (Host τ)))

/-- The messages, one after the other. -/
def run (messages : List (ProcName × τ)) : Base τ := messages.foldl recvUp ⟨nodes, []⟩

variable (messages : List (ProcName × τ))

theorem run_concat (message : ProcName × τ) :
    run nodes (messages ++ [message]) = recvUp (run nodes messages) message := by
  simp [run]

omit [DecidableEq τ] in
theorem nodup_concat_iff {ts} {t : τ} : (ts ++ [t]).Nodup ↔ ts.Nodup ∧ t ∉ ts := by
  grind

/-- What a run keeps: the daemons, and every topology that was sent, once. -/
theorem run_spec :
    daemons (run nodes messages).nodes = daemons nodes ∧ (run nodes messages).topologies.Nodup ∧
      ∀ t, t ∈ (run nodes messages).topologies ↔ t ∈ messages.map Prod.snd := by
  induction messages using List.reverseRecOn with
  | nil => exact ⟨rfl, nodup_nil, by simp [run]⟩
  | append_singleton messages message ih =>
    obtain ⟨hdaemons, hnodup, hmem⟩ := ih
    rw [run_concat, recvUp, daemons_update, map_append]
    refine ⟨hdaemons, ?_⟩
    by_cases hfound : message.2 ∈ (run nodes messages).topologies
    · rw [if_pos (by simpa using hfound), Option.toList_none, List.append_nil]
      refine ⟨hnodup, fun t => ?_⟩
      rw [hmem, mem_append]
      refine ⟨.inl, fun hsent => hsent.elim id fun heq => ?_⟩
      rw [List.mem_singleton.mp heq]
      exact (hmem _).mp hfound
    · rw [if_neg (by simpa using hfound), Option.toList_some]
      refine ⟨nodup_concat_iff.mpr ⟨hnodup, hfound⟩, fun t => ?_⟩
      rw [mem_append, mem_append, hmem]
      rfl

/-- **The nodes have their topologies** after every message if and only if all messages carry
different ones. -/
theorem topologies_right_iff (messages : List (ProcName × τ))
    (hknown : ∀ message ∈ messages, message.1 ∈ daemons nodes) :
    (∀ done message, done ++ [message] <+: messages →
      (run nodes (done ++ [message])).topologies.Nodup ∧
        topologyOf message.1 (run nodes (done ++ [message])).nodes = some message.2) ↔
    (messages.map Prod.snd).Nodup := by
  have hnew : ∀ done message, done ++ [message] <+: messages →
      ((run nodes (done ++ [message])).topologies.Nodup ∧
        topologyOf message.1 (run nodes (done ++ [message])).nodes = some message.2 ↔
      message.2 ∉ done.map Prod.snd) := by
    intro done message hdone
    obtain ⟨hdaemons, -, hmem⟩ := run_spec nodes done
    have hname : message.1 ∈ daemons (run nodes done).nodes :=
      hdaemons ▸ hknown message (hdone.subset (by simp))
    rw [and_iff_right (run_spec nodes _).2.1, run_concat, recvUp, topologyOf_update _ _ hname,
      ← hmem]
    simp
  have hall : (∀ done, done <+: messages → (done.map Prod.snd).Nodup) ↔
      (messages.map Prod.snd).Nodup :=
    ⟨fun h => h messages (prefix_refl _),
      fun h done hdone => h.sublist (hdone.sublist.map Prod.snd)⟩
  rw [forall₃_congr hnew, ← hall, forall_prefix_iff (Q := fun done message =>
    message.2 ∉ done.map Prod.snd), and_iff_right (by simp)]
  intro done message hdone
  rw [map_append, map_singleton, nodup_concat_iff, and_iff_right hdone]

end Runs

/-- Two nodes. -/
def twoNodes : List (Option (Host ℕ)) :=
  [some ⟨newNode [] ⟨0, 1⟩, none⟩, some ⟨newNode [] ⟨0, 2⟩, none⟩]

/-- They have different topologies. -/
theorem topologies_right_iff_two : (run twoNodes [(⟨0, 1⟩, 7), (⟨0, 2⟩, 8)]).topologies.Nodup ∧
      topologyOf ⟨0, 2⟩ (run twoNodes [(⟨0, 1⟩, 7), (⟨0, 2⟩, 8)]).nodes = some 8 := by
  exact (topologies_right_iff twoNodes [(⟨0, 1⟩, 7), (⟨0, 2⟩, 8)] (by decide)).mpr (by decide)
    [(⟨0, 1⟩, 7)] (⟨0, 2⟩, 8) (prefix_refl _)

/-- **They have the same topology**, and the second one has none. -/
theorem same_topology_lost :
    topologyOf ⟨0, 2⟩ (run twoNodes [(⟨0, 1⟩, 7), (⟨0, 2⟩, 7)]).nodes = none := by
  decide

end Sensys.Orcm.ScdTopologies
