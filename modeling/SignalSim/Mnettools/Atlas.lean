import Mathlib.Data.List.Nodup
import SignalSim.Foundations.Text
import SignalSim.Foundations.Walk

/-!
# The atlas

`patch-atlas.py` adds a node of large bandwidth to the graph that the simulation routes packets on,
with edges like those of a node that is there. The message servers are put on the node by its
number.

## Main definitions

* `Networkx` — the graphs of `networkx` with their attributes
* `patchAtlas` — the graph with the new node
* `Networkx.unlabelled` — the edges without their labels
* `Graph` — graphs of that kind

## Main results

* `patchAtlas_spec` — routes over the new node are those over the node that it imitates
-/

namespace SignalSim.Mnettools

/-! ### Graphs -/

/-- A table of attributes. -/
abbrev Attrs := Text → Option Text

/-- `update`. -/
def Attrs.update (d e : Attrs) : Attrs := fun k => (e k).or (d k)

def Attrs.empty : Attrs := fun _ => none

def Attrs.ofList (es : List (Text × Text)) : Attrs := fun k => es.lookup k

/-- The undirected graphs of `networkx`. An edge has one table of attributes, which is found from
both ends. -/
class Networkx (G : Type) where
  /-- The nodes in the order in which they are written. -/
  nodes : G → List (Text × Attrs)
  getEdgeData : G → Text → Text → Option Attrs
  addNode : G → Text → Attrs → G
  addEdge : G → Text → Text → Attrs → G
  addEdgesFrom : G → List (Text × Text × Attrs) → G
  /-- `edges(n, data=True)`. -/
  edges : G → Text → List (Text × Text × Attrs)
  /-- `g[u][v].update`. -/
  updateEdge : G → Text → Text → Attrs → G
  nodup_nodes (g : G) : ((nodes g).map Prod.fst).Nodup
  getEdgeData_symm (g : G) (u v : Text) : getEdgeData g u v = getEdgeData g v u
  mem_nodes (g : G) (u v : Text) : (getEdgeData g u v).isSome → u ∈ (nodes g).map Prod.fst
  /-- A new node comes last. -/
  nodes_addNode (g : G) (n : Text) (attrs : Attrs) : n ∉ (nodes g).map Prod.fst →
    nodes (addNode g n attrs) = nodes g ++ [(n, attrs)]
  getEdgeData_addNode (g : G) (n : Text) (attrs : Attrs) :
    getEdgeData (addNode g n attrs) = getEdgeData g
  /-- Only nodes that are not there are added with an edge. -/
  nodes_addEdge (g : G) (u v : Text) (attrs : Attrs) : u ∈ (nodes g).map Prod.fst →
    v ∈ (nodes g).map Prod.fst → nodes (addEdge g u v attrs) = nodes g
  /-- The attributes of an edge that is there are updated. -/
  getEdgeData_addEdge (g : G) (u v x y : Text) (attrs : Attrs) :
    getEdgeData (addEdge g u v attrs) x y = if x = u ∧ y = v ∨ x = v ∧ y = u then
      some (((getEdgeData g u v).getD .empty).update attrs) else getEdgeData g x y
  addEdgesFrom_nil (g : G) : addEdgesFrom g [] = g
  addEdgesFrom_cons (g : G) (e : Text × Text × Attrs) (es : List (Text × Text × Attrs)) :
    addEdgesFrom g (e :: es) = addEdgesFrom (addEdge g e.1 e.2.1 e.2.2) es
  /-- Every edge of the node comes once, with the node as its first end. -/
  mem_edges (g : G) (n : Text) (e : Text × Text × Attrs) : n ∈ (nodes g).map Prod.fst →
    (e ∈ edges g n ↔ e.1 = n ∧ getEdgeData g n e.2.1 = some e.2.2)
  nodup_edges (g : G) (n : Text) : n ∈ (nodes g).map Prod.fst →
    ((edges g n).map fun e => e.2.1).Nodup
  nodes_updateEdge (g : G) (u v : Text) (attrs : Attrs) : nodes (updateEdge g u v attrs) = nodes g
  getEdgeData_updateEdge (g : G) (u v x y : Text) (attrs : Attrs) : (getEdgeData g u v).isSome →
    getEdgeData (updateEdge g u v attrs) x y = if x = u ∧ y = v ∨ x = v ∧ y = u then
      (getEdgeData g u v).map (·.update attrs) else getEdgeData g x y

open Networkx

variable {G : Type} [Networkx G]

def Networkx.names (g : G) : List Text := (nodes g).map Prod.fst

/-! ### The patch -/

def newNode : Text := "node at 1.1.1.1".toList

def newNodeAttrs : Attrs := .ofList
  [("label".toList, newNode), ("ip_address".toList, "1.1.1.1".toList),
    ("city_code".toList, "4744870".toList), ("country_code".toList, "US".toList),
    ("bandwidth_down".toList, "10000000 Kibit".toList),
    ("bandwidth_up".toList, "10000000 Kibit".toList)]

def imitatedNode : Text := "node at 76.104.11.141".toList

/-- `remap_edge`. -/
def remapEdge (e : Text × Text × Attrs) : Text × Text × Attrs :=
  (if e.1 = imitatedNode then newNode else e.1,
    if e.2.1 = imitatedNode then newNode else e.2.1, e.2.2)

/-- `patch-atlas.py` on a graph; `none` is a node without an edge to itself, for which the label
cannot be set. -/
def patchAtlas (g : G) : Option G := do
  let g := addNode g newNode newNodeAttrs
  let copiedEdges := (edges g imitatedNode).map remapEdge
  let g := addEdgesFrom g copiedEdges
  let edge ← getEdgeData g imitatedNode imitatedNode
  let edge := edge.update (.ofList
    [("label".toList, "path from 1.1.1.1 to 76.104.11.141".toList)])
  let g := addEdge g newNode imitatedNode .empty
  return updateEdge g newNode imitatedNode edge

/-- The number of the node that the servers are put on. -/
def networkNodeId : ℕ := 2521

/-- Everything on an edge but its label. -/
def Attrs.unlabelled (d : Attrs) : Attrs := fun k => if k = "label".toList then none else d k

def Networkx.unlabelled (g : G) (u v : Text) : Option Attrs :=
  (getEdgeData g u v).map Attrs.unlabelled

/-- The node that a node stands for. -/
def imitated (u : Text) : Text := if u = newNode then imitatedNode else u

/-! ### What is added -/

section

variable {g : G} {u v n x y : Text} {attrs : Attrs} {e : Text × Text × Attrs}
  {es : List (Text × Text × Attrs)}

@[simp] theorem Attrs.empty_update (d : Attrs) : Attrs.empty.update d = d :=
  funext fun _ => Option.or_none

theorem newNode_ne : newNode ≠ imitatedNode := by decide

theorem getEdgeData_eq_none (hn : n ∉ names g) (y : Text) : getEdgeData g n y = none :=
  Option.not_isSome_iff_eq_none.mp (mt (mem_nodes g n y) hn)

theorem getEdgeData_addEdge_of_ne (hu : x ≠ u) (hv : x ≠ v) :
    getEdgeData (addEdge g u v attrs) x y = getEdgeData g x y := by
  rw [getEdgeData_addEdge, if_neg fun h => h.elim (fun h => hu h.1) fun h => hv h.1]

/-- Edges between other nodes. -/
theorem getEdgeData_addEdgesFrom_of_ne (hes : ∀ e ∈ es, x ≠ e.1 ∧ x ≠ e.2.1) :
    getEdgeData (addEdgesFrom g es) x y = getEdgeData g x y := by
  induction es generalizing g with
  | nil => rw [addEdgesFrom_nil]
  | cons e es ih =>
    obtain ⟨he, hes⟩ := List.forall_mem_cons.mp hes
    rw [addEdgesFrom_cons, ih hes, getEdgeData_addEdge_of_ne he.1 he.2]

/-- No copied edge ends at the node that is imitated. -/
theorem ne_of_mem_remapped (he : e ∈ es.map remapEdge) :
    imitatedNode ≠ e.1 ∧ imitatedNode ≠ e.2.1 := by
  have hend (v : Text) : imitatedNode ≠ if v = imitatedNode then newNode else v := by
    by_cases hv : v = imitatedNode
    · rw [if_pos hv]
      exact newNode_ne.symm
    · rw [if_neg hv]
      exact Ne.symm hv
  obtain ⟨e, -, rfl⟩ := List.mem_map.mp he
  exact ⟨hend e.1, hend e.2.1⟩

/-- Edges from one node to others that it has no edge to. -/
theorem addEdgesFrom_spec {cs : List (Text × Attrs)} (hn : n ∈ names g)
    (hcs : ∀ c ∈ cs, c.1 ∈ names g ∧ getEdgeData g n c.1 = none)
    (hnodup : (cs.map Prod.fst).Nodup) :
    nodes (addEdgesFrom g (cs.map fun c => (n, c.1, c.2))) = nodes g ∧
      (∀ x y, x ≠ n → y ≠ n →
        getEdgeData (addEdgesFrom g (cs.map fun c => (n, c.1, c.2))) x y = getEdgeData g x y) ∧
      ∀ y d, getEdgeData (addEdgesFrom g (cs.map fun c => (n, c.1, c.2))) n y = some d ↔
        (y, d) ∈ cs ∨ getEdgeData g n y = some d := by
  induction cs generalizing g with
  | nil =>
    rw [List.map_nil, addEdgesFrom_nil]
    exact ⟨rfl, fun _ _ _ _ => rfl, fun y d => by simp⟩
  | cons c cs ih =>
    obtain ⟨⟨hmem, hnone⟩, hcs⟩ := List.forall_mem_cons.mp hcs
    obtain ⟨hnot, hnodup⟩ := List.nodup_cons.mp hnodup
    have hnodes : nodes (addEdge g n c.1 c.2) = nodes g := nodes_addEdge g n c.1 c.2 hn hmem
    have hadj (y : Text) : getEdgeData (addEdge g n c.1 c.2) n y =
        if y = c.1 then some c.2 else getEdgeData g n y := by
      rw [getEdgeData_addEdge, hnone, Option.getD_none, Attrs.empty_update]
      refine if_congr ?_ rfl rfl
      exact ⟨fun h => h.elim And.right fun h => h.2.trans h.1, fun h => .inl ⟨rfl, h⟩⟩
    have hrest : ∀ c' ∈ cs, c'.1 ∈ names (addEdge g n c.1 c.2) ∧
        getEdgeData (addEdge g n c.1 c.2) n c'.1 = none := by
      intro c' hc'
      have hne : c'.1 ≠ c.1 := fun heq => hnot (heq ▸ List.mem_map_of_mem hc')
      rw [names, hnodes, hadj, if_neg hne]
      exact hcs c' hc'
    obtain ⟨hnodes', hold, hnew⟩ := ih (by rwa [names, hnodes]) hrest hnodup
    rw [List.map_cons, addEdgesFrom_cons]
    refine ⟨hnodes'.trans hnodes, fun x y hx hy => (hold x y hx hy).trans ?_, fun y d => ?_⟩
    · rw [getEdgeData_addEdge, if_neg fun h => h.elim (fun h => hx h.1) fun h => hy h.2]
    · refine (hnew y d).trans ?_
      rw [hadj, List.mem_cons]
      by_cases hy : y = c.1
      · subst hy
        have hnot' : (c.1, d) ∉ cs := fun h => hnot (List.mem_map.mpr ⟨_, h, rfl⟩)
        rw [if_pos rfl, hnone, Option.some_inj]
        simp only [hnot', false_or, reduceCtorEq, or_false]
        exact ⟨fun h => h ▸ rfl, fun h => (Prod.mk.inj h).2.symm⟩
      · rw [if_neg hy]
        have hne : (y, d) ≠ c := fun h => hy (h ▸ rfl)
        simp only [hne, false_or]

/-! ### The copied edges -/

/-- The other end of a copied edge, and what is on it. -/
def copies (g : G) : List (Text × Attrs) :=
  (edges g imitatedNode).map fun e => (if e.2.1 = imitatedNode then newNode else e.2.1, e.2.2)

theorem map_remapEdge_edges (himitated : imitatedNode ∈ names g) :
    (edges g imitatedNode).map remapEdge = (copies g).map fun c => (newNode, c.1, c.2) := by
  rw [copies, List.map_map]
  refine List.map_congr_left fun e he => ?_
  rw [remapEdge, if_pos ((mem_edges g imitatedNode e himitated).mp he).1]
  rfl

theorem mem_copies (himitated : imitatedNode ∈ names g) {c : Text × Attrs} :
    c ∈ copies g ↔ ∃ v, getEdgeData g imitatedNode v = some c.2 ∧
      (if v = imitatedNode then newNode else v) = c.1 := by
  rw [copies, List.mem_map]
  constructor
  · rintro ⟨e, he, rfl⟩
    exact ⟨e.2.1, ((mem_edges g imitatedNode e himitated).mp he).2, rfl⟩
  · rintro ⟨v, hd, hv⟩
    refine ⟨(imitatedNode, v, c.2), (mem_edges g imitatedNode _ himitated).mpr ⟨rfl, hd⟩, ?_⟩
    rw [hv]

section

variable (hnew : ∀ y, getEdgeData g newNode y = none) (himitated : imitatedNode ∈ names g)

include hnew himitated

theorem nodup_copies : ((copies g).map Prod.fst).Nodup := by
  have hends := nodup_edges g imitatedNode himitated
  have hne : ∀ v ∈ (edges g imitatedNode).map fun e => e.2.1, v ≠ newNode := by
    rintro v hv rfl
    obtain ⟨e, he, heq⟩ := List.mem_map.mp hv
    have hdata := ((mem_edges g imitatedNode e himitated).mp he).2
    rw [heq, getEdgeData_symm, hnew] at hdata
    cases hdata
  have hmap : (copies g).map Prod.fst = ((edges g imitatedNode).map fun e => e.2.1).map
      fun v => if v = imitatedNode then newNode else v := by
    rw [copies, List.map_map, List.map_map]
    rfl
  rw [hmap]
  refine hends.map_on fun v hv v' hv' heq => ?_
  have hv := hne v hv
  have hv' := hne v' hv'
  grind

/-- The new node has the edges of the node that it imitates. -/
theorem getEdgeData_addEdgesFrom_copies (hmem : newNode ∈ names g) :
    let g' := addEdgesFrom g ((edges g imitatedNode).map remapEdge)
    nodes g' = nodes g ∧
      (∀ x y, x ≠ newNode → y ≠ newNode → getEdgeData g' x y = getEdgeData g x y) ∧
      ∀ y, getEdgeData g' newNode y =
        if y = imitatedNode then none else getEdgeData g imitatedNode (imitated y) := by
  have hcs : ∀ c ∈ copies g, c.1 ∈ names g ∧ getEdgeData g newNode c.1 = none := by
    intro c hc
    obtain ⟨v, hv, heq⟩ := (mem_copies himitated).mp hc
    refine ⟨?_, hnew _⟩
    rw [← heq]
    split
    · exact hmem
    · exact mem_nodes g v imitatedNode (by rw [getEdgeData_symm, hv]; rfl)
  rw [map_remapEdge_edges himitated]
  obtain ⟨hnodes, hold, hadj⟩ := addEdgesFrom_spec hmem hcs (nodup_copies hnew himitated)
  refine ⟨hnodes, hold, fun y => Option.ext fun d => ?_⟩
  rw [hadj, mem_copies himitated, hnew]
  simp only [reduceCtorEq, or_false]
  unfold imitated
  constructor
  · rintro ⟨v, hv, heq⟩
    split at heq
    case isTrue him =>
      subst him heq
      rw [if_neg newNode_ne, if_pos rfl]
      exact hv
    case isFalse him =>
      subst heq
      have hv' : v ≠ newNode := by
        rintro rfl
        rw [getEdgeData_symm, hnew] at hv
        cases hv
      rw [if_neg him, if_neg hv']
      exact hv
  · intro h
    split at h
    case isTrue => cases h
    case isFalse him =>
      split at h
      case isTrue hy => exact ⟨imitatedNode, h, (if_pos rfl).trans hy.symm⟩
      case isFalse => exact ⟨y, h, if_neg him⟩

end

/-! ### The patched graph -/

theorem Attrs.unlabelled_update (d : Attrs) (label : Text) :
    (d.update (.ofList [("label".toList, label)])).unlabelled = d.unlabelled := by
  funext k
  rw [Attrs.unlabelled, Attrs.unlabelled]
  refine if_ctx_congr Iff.rfl (fun _ => rfl) fun hk => ?_
  have hnone : Attrs.ofList [("label".toList, label)] k = none := by
    rw [Attrs.ofList, List.lookup_cons, beq_false_of_ne hk]
    rfl
  rw [Attrs.update, hnone, Option.none_or]

theorem unlabelled_symm (g : G) (u v : Text) : unlabelled g u v = unlabelled g v u :=
  congrArg (Option.map Attrs.unlabelled) (getEdgeData_symm g u v)

theorem names_addNode (hn : n ∉ names g) : names (addNode g n attrs) = names g ++ [n] := by
  rw [names, nodes_addNode g n attrs hn, List.map_append]
  rfl

/-- What the patch makes of a graph without the new node. -/
theorem patchAtlas_eq_some {g' : G} (hnew : newNode ∉ names g) (h : patchAtlas g = some g') :
    nodes g' = nodes g ++ [(newNode, newNodeAttrs)] ∧
      (∀ x y, x ≠ newNode → y ≠ newNode → getEdgeData g' x y = getEdgeData g x y) ∧
      ∀ y, unlabelled g' newNode y = unlabelled g imitatedNode (imitated y) := by
  obtain ⟨edge, hedge, h⟩ := Option.bind_eq_some_iff.mp h
  obtain rfl := Option.some_inj.mp h
  have hadj₁ := getEdgeData_addNode g newNode newNodeAttrs
  set g₁ := addNode g newNode newNodeAttrs with hg₁
  have hnone : ∀ y, getEdgeData g₁ newNode y = none := fun y => by
    rw [hadj₁, getEdgeData_eq_none hnew]
  have hloop : getEdgeData g imitatedNode imitatedNode = some edge := by
    rw [← hadj₁, ← hedge]
    exact (getEdgeData_addEdgesFrom_of_ne fun _ => ne_of_mem_remapped).symm
  have hmem : newNode ∈ names g₁ := by simp [hg₁, names_addNode hnew]
  have himitated : imitatedNode ∈ names g₁ := mem_nodes g₁ _ _ (by rw [hadj₁, hloop]; rfl)
  obtain ⟨hnodes, hold, hadj⟩ := getEdgeData_addEdgesFrom_copies hnone himitated hmem
  set g₂ := addEdgesFrom g₁ ((edges g₁ imitatedNode).map remapEdge)
  have hnew₂ : newNode ∈ names g₂ := by rwa [names, hnodes]
  have himitated₂ : imitatedNode ∈ names g₂ := by rwa [names, hnodes]
  have hedge₂ : getEdgeData (addEdge g₂ newNode imitatedNode .empty) newNode imitatedNode =
      some .empty := by
    rw [getEdgeData_addEdge, if_pos (.inl ⟨rfl, rfl⟩), hadj, if_pos rfl]
    rfl
  have hadj' (x y : Text) := getEdgeData_updateEdge
    (addEdge g₂ newNode imitatedNode .empty) newNode imitatedNode x y
    (edge.update (.ofList [("label".toList, "path from 1.1.1.1 to 76.104.11.141".toList)]))
    (by rw [hedge₂]; rfl)
  refine ⟨?_, ?_, ?_⟩
  · rw [nodes_updateEdge, nodes_addEdge _ _ _ _ hnew₂ himitated₂, hnodes, hg₁]
    exact nodes_addNode g newNode newNodeAttrs hnew
  · intro x y hx hy
    have hnot : ¬ (x = newNode ∧ y = imitatedNode ∨ x = imitatedNode ∧ y = newNode) :=
      fun h => h.elim (fun h => hx h.1) fun h => hy h.2
    rw [hadj', if_neg hnot, getEdgeData_addEdge, if_neg hnot, hold x y hx hy, hadj₁]
  · intro y
    rw [unlabelled, hadj']
    by_cases hy : y = imitatedNode
    · -- the edge between the two nodes is that of the node to itself, with its own label
      subst hy
      have himit : imitated imitatedNode = imitatedNode := if_neg newNode_ne.symm
      rw [if_pos (.inl ⟨rfl, rfl⟩), hedge₂, Option.map_some, Option.map_some,
        Attrs.empty_update, Attrs.unlabelled_update, himit, unlabelled, hloop, Option.map_some]
    · have hnot : ¬ (newNode = newNode ∧ y = imitatedNode ∨
          newNode = imitatedNode ∧ y = newNode) :=
        fun h => h.elim (fun h => hy h.2) fun h => newNode_ne h.1
      rw [if_neg hnot, getEdgeData_addEdge, if_neg hnot, hadj, if_neg hy, hadj₁, unlabelled]

/-- **The atlas.** A graph can be patched exactly if the node to imitate has an edge to itself. The
nodes that were there keep their numbers, attributes and edges, the servers are on the new node
exactly if the graph has as many nodes as its number, and routes from and to the new node have the
edges of those from and to the node that it imitates. -/
theorem patchAtlas_spec (hnew : newNode ∉ names g) :
    ((patchAtlas g).isSome ↔ (getEdgeData g imitatedNode imitatedNode).isSome) ∧
      ∀ g', patchAtlas g = some g' →
        (∀ i < (nodes g).length, (nodes g')[i]? = (nodes g)[i]?) ∧
        ((names g')[networkNodeId]? = some newNode ↔ (nodes g).length = networkNodeId) ∧
        (∀ u v, u ≠ newNode → v ≠ newNode → getEdgeData g' u v = getEdgeData g u v) ∧
        ∀ u v ds, Walk (unlabelled g') u ds v ↔
          Walk (unlabelled g) (imitated u) ds (imitated v) := by
  constructor
  · have hsame : getEdgeData (addEdgesFrom (addNode g newNode newNodeAttrs)
        ((edges (addNode g newNode newNodeAttrs) imitatedNode).map remapEdge)) imitatedNode
          imitatedNode = getEdgeData g imitatedNode imitatedNode := by
      rw [getEdgeData_addEdgesFrom_of_ne fun _ => ne_of_mem_remapped, getEdgeData_addNode]
    rw [patchAtlas, hsame]
    change (Option.bind (getEdgeData g imitatedNode imitatedNode) _).isSome ↔ _
    cases getEdgeData g imitatedNode imitatedNode <;> rfl
  · intro g' h
    obtain ⟨hnodes, hold, hadj⟩ := patchAtlas_eq_some hnew h
    refine ⟨fun i hi => by rw [hnodes, List.getElem?_append_left hi], ?_, hold, ?_⟩
    · have hnames : names g' = names g ++ [newNode] := by
        rw [names, hnodes, List.map_append]
        rfl
      have hlength : (names g).length = (nodes g).length := List.length_map _
      rw [hnames, ← hlength]
      constructor
      · intro hget
        rcases Nat.lt_trichotomy networkNodeId (names g).length with hlt | heq | hgt
        · rw [List.getElem?_append_left hlt] at hget
          exact absurd (List.mem_of_getElem? hget) hnew
        · exact heq.symm
        · have hlen : (names g ++ [newNode]).length ≤ networkNodeId := by
            rw [List.length_append]
            exact hgt
          rw [List.getElem?_eq_none hlen] at hget
          cases hget
      · intro heq
        rw [← heq]
        exact List.getElem?_concat_length
    · intro u v ds
      refine Walk.pullback_iff (fun x y => ?_) fun x y d hd => ?_
      · by_cases hx : x = newNode
        · subst hx
          rw [hadj]
          rfl
        · by_cases hy : y = newNode
          · subst hy
            rw [unlabelled_symm, hadj, unlabelled_symm]
            rfl
          · rw [unlabelled, hold x y hx hy, imitated, if_neg hx, imitated, if_neg hy, unlabelled]
      · obtain ⟨d', hd', -⟩ := Option.map_eq_some_iff.mp hd
        have hy : y ∈ names g := mem_nodes g y x (by rw [getEdgeData_symm, hd']; rfl)
        have hne : y ≠ newNode := fun heq => hnew (heq ▸ hy)
        exact ⟨y, if_neg hne⟩

end

/-! ### Graphs with a function for the edges -/

/-- Nodes, and what is on the edge between two of them. -/
structure Graph where
  nodes : List (Text × Attrs)
  adj : Text → Text → Option Attrs
  nodup : (nodes.map Prod.fst).Nodup
  symm : ∀ u v, adj u v = adj v u
  known : ∀ u v, (adj u v).isSome → u ∈ nodes.map Prod.fst

namespace Graph

def names (g : Graph) : List Text := g.nodes.map Prod.fst

variable (g : Graph) (u v n : Text) (attrs : Attrs)

/-- The nodes after `add_node`. -/
def withNode : List (Text × Attrs) :=
  if n ∈ g.names then g.nodes.map fun p => if p.1 = n then (p.1, p.2.update attrs) else p
  else g.nodes ++ [(n, attrs)]

theorem map_fst_withNode : (g.withNode n attrs).map Prod.fst =
    if n ∈ g.names then g.names else g.names ++ [n] := by
  unfold withNode
  split
  · rw [List.map_map, names]
    refine List.map_congr_left fun p _ => ?_
    rw [Function.comp_apply]
    split <;> rfl
  · rw [List.map_append]
    rfl

/-- `add_node`. -/
def addNode : Graph where
  nodes := g.withNode n attrs
  adj := g.adj
  nodup := by
    rw [map_fst_withNode]
    split
    case isTrue => exact g.nodup
    case isFalse hn => exact List.concat_eq_append ▸ List.Nodup.concat hn g.nodup
  symm := g.symm
  known u v h := by
    have hu : u ∈ g.names := g.known u v h
    rw [map_fst_withNode]
    split
    · exact hu
    · exact List.mem_append_left _ hu

theorem names_addNode : (g.addNode n attrs).names =
    if n ∈ g.names then g.names else g.names ++ [n] :=
  g.map_fst_withNode n attrs

theorem mem_names_addNode {m : Text} : m ∈ (g.addNode n attrs).names ↔ m ∈ g.names ∨ m = n := by
  rw [names_addNode]
  split
  case isTrue hn =>
    refine (or_iff_left_of_imp ?_).symm
    rintro rfl
    exact hn
  case isFalse => rw [List.mem_append, List.mem_singleton]

/-- `add_edge`, which adds the nodes that are not there. -/
def addEdge : Graph where
  nodes := ((g.addNode u .empty).addNode v .empty).nodes
  adj x y := if x = u ∧ y = v ∨ x = v ∧ y = u then
    some (((g.adj u v).getD .empty).update attrs) else g.adj x y
  nodup := ((g.addNode u .empty).addNode v .empty).nodup
  symm x y := by
    rw [g.symm x y]
    exact if_congr (by tauto) rfl rfl
  known x y h := by
    have hmem : x ∈ ((g.addNode u .empty).addNode v .empty).names := by
      rw [mem_names_addNode, mem_names_addNode]
      split at h
      case isTrue heq =>
        rcases heq with ⟨rfl, -⟩ | ⟨rfl, -⟩
        · exact .inl (.inr rfl)
        · exact .inr rfl
      case isFalse => exact .inl (.inl (g.known x y h))
    exact hmem

/-- `edges(n, data=True)`. -/
def edges : List (Text × Text × Attrs) :=
  g.names.filterMap fun v => (g.adj n v).map fun d => (n, v, d)

/-- `add_edges_from`. -/
def addEdgesFrom (es : List (Text × Text × Attrs)) : Graph :=
  es.foldl (fun g e => g.addEdge e.1 e.2.1 e.2.2) g

theorem nodes_addNode_empty {g : Graph} {n : Text} (hn : n ∈ g.names) :
    (g.addNode n .empty).nodes = g.nodes := by
  have hsame : ∀ p ∈ g.nodes, (if p.1 = n then (p.1, p.2.update .empty) else p) = p := by
    intro p _
    split <;> rfl
  exact (if_pos hn).trans ((List.map_congr_left hsame).trans (List.map_id' _))

/-- The attributes of the edge are updated. -/
def updateEdge : Graph where
  nodes := g.nodes
  adj x y := if x = u ∧ y = v ∨ x = v ∧ y = u then (g.adj u v).map (·.update attrs) else g.adj x y
  nodup := g.nodup
  symm x y := by
    rw [g.symm x y]
    exact if_congr (by tauto) rfl rfl
  known x y h := by
    split at h
    case isTrue heq =>
      rw [Option.isSome_map] at h
      rcases heq with ⟨rfl, -⟩ | ⟨rfl, -⟩
      · exact g.known x v h
      · exact g.known x u (g.symm u x ▸ h)
    case isFalse => exact g.known x y h

theorem mem_edges {e : Text × Text × Attrs} :
    e ∈ g.edges n ↔ e.1 = n ∧ g.adj n e.2.1 = some e.2.2 := by
  rw [edges, List.mem_filterMap]
  constructor
  · rintro ⟨v, -, hv⟩
    obtain ⟨d, hd, rfl⟩ := Option.map_eq_some_iff.mp hv
    exact ⟨rfl, hd⟩
  · rintro ⟨rfl, hd⟩
    have hmem : e.2.1 ∈ g.names := g.known e.2.1 e.1 (by rw [g.symm, hd]; rfl)
    exact ⟨e.2.1, hmem, by rw [hd]; rfl⟩

theorem nodup_edges : ((g.edges n).map fun e => e.2.1).Nodup := by
  rw [edges, List.map_filterMap]
  refine g.nodup.filterMap fun v v' b hv hv' => ?_
  simp only [Option.map_map, Option.mem_def, Option.map_eq_some_iff, Function.comp_apply] at hv hv'
  obtain ⟨d, -, rfl⟩ := hv
  obtain ⟨d', -, heq⟩ := hv'
  exact heq.symm

instance : Networkx Graph where
  nodes := nodes
  getEdgeData := adj
  addNode := addNode
  addEdge := addEdge
  addEdgesFrom := addEdgesFrom
  edges := edges
  updateEdge := updateEdge
  nodup_nodes := nodup
  getEdgeData_symm := symm
  mem_nodes := known
  nodes_addNode _ _ _ hn := if_neg hn
  getEdgeData_addNode _ _ _ := rfl
  nodes_addEdge g u v _ hu hv := by
    have hv' : v ∈ (g.addNode u .empty).names := g.mem_names_addNode u _ |>.mpr (.inl hv)
    exact (nodes_addNode_empty hv').trans (nodes_addNode_empty hu)
  getEdgeData_addEdge _ _ _ _ _ _ := rfl
  addEdgesFrom_nil _ := rfl
  addEdgesFrom_cons _ _ _ := rfl
  mem_edges g n _ _ := g.mem_edges n
  nodup_edges g n _ := g.nodup_edges n
  nodes_updateEdge _ _ _ _ := rfl
  getEdgeData_updateEdge _ _ _ _ _ _ _ := rfl

end Graph

def probeNode : Text := "node at 5.1.2.3".toList

/-- An atlas of two nodes. -/
def smallAtlas : Graph where
  nodes := [(probeNode, .empty), (imitatedNode, .empty)]
  adj u v :=
    if u = imitatedNode ∧ v = imitatedNode then
      some (.ofList [("latency".toList, "2.0 ms".toList)])
    else if u = probeNode ∧ v = imitatedNode ∨ u = imitatedNode ∧ v = probeNode then
      some (.ofList [("latency".toList, "80.5 ms".toList)])
    else none
  nodup := by decide
  symm u v := by
    refine if_congr and_comm rfl (if_congr ?_ rfl rfl)
    rw [or_comm, and_comm, @and_comm (u = probeNode)]
  known u v h := by
    split at h
    case isTrue heq =>
      obtain ⟨rfl, -⟩ := heq
      exact List.mem_cons_of_mem _ List.mem_cons_self
    case isFalse =>
      split at h
      case isTrue heq =>
        rcases heq with ⟨rfl, -⟩ | ⟨rfl, -⟩
        · exact List.mem_cons_self
        · exact List.mem_cons_of_mem _ List.mem_cons_self
      case isFalse => cases h

theorem patchAtlas_spec_small : ∃ g', patchAtlas smallAtlas = some g' ∧
    ∀ ds, Walk (unlabelled g') newNode ds probeNode ↔
      Walk (unlabelled smallAtlas) imitatedNode ds probeNode := by
  obtain ⟨hiff, hspec⟩ := @patchAtlas_spec Graph _ smallAtlas (by decide)
  obtain ⟨g', hg'⟩ := Option.isSome_iff_exists.mp (hiff.mpr (by decide))
  exact ⟨g', hg', fun ds => (hspec g' hg').2.2.2 newNode probeNode ds⟩

end SignalSim.Mnettools
