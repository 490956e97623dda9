import Mathlib

/-! The node and adjacency view of an `OperatorGraph` that `GXFExecutor::initialize_fragment`
walks. `get_nodes()` lists the operators in insertion order; `get_next_nodes` and
`get_previous_nodes` return each neighbour once, in an order the graph leaves open, so the
adjacency lists are fields and every result holds for all of their orders. -/
namespace HoloscanLowering

/-- A finite directed graph, self-loops allowed: duplicate-free node and adjacency lists, the
predecessor lists inverse to the successor lists, every edge between listed nodes. -/
structure Digraph (α : Type) where
  nodes : List α
  nextNodes : α → List α
  prevNodes : α → List α
  nodes_nodup : nodes.Nodup
  next_nodup : ∀ u, (nextNodes u).Nodup
  prev_nodup : ∀ v, (prevNodes v).Nodup
  mem_prev : ∀ {u v}, u ∈ prevNodes v ↔ v ∈ nextNodes u
  mem_nodes : ∀ {u v}, v ∈ nextNodes u → u ∈ nodes ∧ v ∈ nodes

namespace Digraph

variable {α : Type} (g : Digraph α)

def Edge (u v : α) : Prop := v ∈ g.nextNodes u

def Acyclic : Prop := ∀ v, ¬Relation.TransGen g.Edge v v

/-- `v` is reachable from a node that lies on a directed cycle. -/
def FromCycle (v : α) : Prop :=
  ∃ w, Relation.TransGen g.Edge w w ∧ Relation.ReflTransGen g.Edge w v

/-- `c` is a closed walk of `r`-steps: each node to the next, and the last to the first. -/
def IsCycle (r : α → α → Prop) (c : List α) : Prop :=
  ∃ v vs, c = v::vs ∧ List.Chain r v (vs++[v])

variable {g}

theorem prev_mem_nodes {u v : α} (h : u ∈ g.prevNodes v) : u ∈ g.nodes ∧ v ∈ g.nodes :=
  g.mem_nodes (g.mem_prev.mp h)

theorem edge_of_mem_prev {u v : α} (h : u ∈ g.prevNodes v) : g.Edge u v := g.mem_prev.mp h

theorem acyclic_of_rank (f : α → Nat) (hf : ∀ u v, g.Edge u v → f u < f v) : g.Acyclic := by
  have hlt : ∀ {a b}, Relation.TransGen g.Edge a b → f a < f b := fun h => by
    induction h with
    | single h => exact hf _ _ h
    | tail _ h ih => exact ih.trans (hf _ _ h)
  exact fun v h => lt_irrefl _ (hlt h)

/-- A finite set of nodes each of which has a predecessor in the set is reached, member by
member, from a cycle: follow predecessors back inside the set until one repeats. -/
theorem fromCycle_of_pred_closed [DecidableEq α] {S : List α}
    (hS : ∀ y ∈ S, ∃ p ∈ S, g.Edge p y) {x : α} (hx : x ∈ S) : g.FromCycle x := by
  by_contra hno
  let r : {y // y ∈ S} → {y // y ∈ S} → Prop := fun a b =>
    Relation.TransGen g.Edge a.1 b.1 ∧ Relation.ReflTransGen g.Edge b.1 x
  haveI : IsTrans _ r := ⟨fun _ _ _ hab hbc => ⟨hab.1.trans hbc.1,hbc.2⟩⟩
  haveI : IsIrrefl _ r := ⟨fun a h => hno ⟨a.1,h.1,h.2⟩⟩
  obtain ⟨m,hm,hmin⟩ := (Finite.wellFounded_of_trans_of_irrefl r).has_min
    {y | Relation.ReflTransGen g.Edge y.1 x} ⟨⟨x,hx⟩,Relation.ReflTransGen.refl⟩
  obtain ⟨p,hp,he⟩ := hS m.1 m.2
  exact hmin ⟨p,hp⟩ (Relation.ReflTransGen.head he hm) ⟨Relation.TransGen.single he,hm⟩

theorem Acyclic.eq_nil_of_pred_closed [DecidableEq α] (hg : g.Acyclic) {S : List α}
    (hS : ∀ y ∈ S, ∃ p ∈ S, g.Edge p y) : S = [] := by
  cases S with
  | nil => rfl
  | cons x _ =>
    obtain ⟨w,hw,-⟩ := fromCycle_of_pred_closed hS (List.mem_cons_self x _)
    exact absurd hw (hg w)

theorem chain_exists_pred {r : α → α → Prop} {a : α} {l : List α} (h : List.Chain r a l) :
    ∀ y ∈ l, ∃ p ∈ a::l, r p y := by
  induction h with
  | nil => simp
  | @cons a b l hab _ ih =>
    intro y hy
    rcases List.mem_cons.mp hy with rfl | hy
    · exact ⟨a,List.mem_cons_self _ _,hab⟩
    · obtain ⟨p,hp,hr⟩ := ih y hy
      exact ⟨p,List.mem_cons_of_mem _ hp,hr⟩

theorem IsCycle.exists_pred {r : α → α → Prop} {c : List α} (h : IsCycle r c) :
    ∀ y ∈ c, ∃ p ∈ c, r p y := by
  obtain ⟨v,vs,rfl,hc⟩ := h
  intro y hy
  obtain ⟨p,hp,hr⟩ := chain_exists_pred hc y (by simp at hy ⊢; tauto)
  exact ⟨p,by simp at hp ⊢; tauto,hr⟩

def ofEdges [DecidableEq α] (nodes : List α) (edges : List (α × α)) (hn : nodes.Nodup)
    (he : ∀ e ∈ edges, e.1 ∈ nodes ∧ e.2 ∈ nodes) : Digraph α where
  nodes := nodes
  nextNodes u := ((edges.filter (·.1 = u)).map (·.2)).dedup
  prevNodes v := ((edges.filter (·.2 = v)).map (·.1)).dedup
  nodes_nodup := hn
  next_nodup _ := List.nodup_dedup _
  prev_nodup _ := List.nodup_dedup _
  mem_prev := by simp [and_comm]
  mem_nodes := by
    intro u v h
    simp only [List.mem_dedup,List.mem_map,List.mem_filter,decide_eq_true_eq] at h
    obtain ⟨e,⟨hm,rfl⟩,rfl⟩ := h
    exact he e hm

end Digraph

end HoloscanLowering
