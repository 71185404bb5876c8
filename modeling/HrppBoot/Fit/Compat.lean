import HrppBoot.Fit.Signature

/-!
# The configuration for a device tree

`fit_conf_find_compat` of `common/image-fit.c` looks for the configuration whose device tree is
compatible with the earliest string of U-Boot's list. The traversal of `fdt_next_node` is that of a
tree in document order; what `fdt_node_check_compatible` says about the data of an image is a
parameter.
-/

namespace HrppBoot.Fit.Compat

/-! ## The image -/

/-- A node of a FIT image, with the properties that are read. -/
inductive FitNode where
  /-- A node at an offset, with its name, its `fdt` and `data`, and its subnodes. -/
  | node (offset : Nat) (name : List UInt8) (fdt data : Option (List UInt8))
      (subnodes : List FitNode)

namespace FitNode

def offset : FitNode → Nat
  | node offset _ _ _ _ => offset

/-- `fdt_get_name` -/
def name : FitNode → List UInt8
  | node _ name _ _ _ => name

/-- The property `fdt`. -/
def fdt : FitNode → Option (List UInt8)
  | node _ _ fdt _ _ => fdt

/-- The property `data`. -/
def data : FitNode → Option (List UInt8)
  | node _ _ _ data _ => data

def subnodes : FitNode → List FitNode
  | node _ _ _ _ subnodes => subnodes

/-- `fdt_subnode_offset` -/
def subnodeOffset (parent : FitNode) (name : List UInt8) : Option FitNode :=
  parent.subnodes.find? fun child => fdtNodenameEq child.name name

end FitNode

/-- The tags of the structure block, without the properties. -/
inductive Tag where
  /-- `FDT_BEGIN_NODE`, at an offset. -/
  | beginNode (offset : Nat)
  /-- `FDT_END_NODE` -/
  | endNode

mutual

def tags : FitNode → List Tag
  | .node offset _ _ _ subnodes => .beginNode offset :: (tagsOf subnodes ++ [.endNode])

def tagsOf : List FitNode → List Tag
  | [] => []
  | node :: rest => tags node ++ tagsOf rest

end

/-- The tags behind the one that begins the node at an offset. -/
def behindOffset (noffset : Nat) : List Tag → List Tag
  | [] => []
  | .beginNode offset :: rest => if offset = noffset then rest else behindOffset noffset rest
  | .endNode :: rest => behindOffset noffset rest

/-- What `fdt_next_node` returns, called again and again from a place on: offsets and depths. It
ends at the end of the block, or where the depth goes below zero. -/
def nextNodes (depth : Int) : List Tag → List (Nat × Int)
  | [] => []
  | .beginNode offset :: rest => (offset, depth + 1) :: nextNodes (depth + 1) rest
  | .endNode :: rest => if depth - 1 < 0 then [] else nextNodes (depth - 1) rest

mutual

/-- A node and its descendants, in document order. -/
def nodes : FitNode → List FitNode
  | .node offset name fdt data subnodes => .node offset name fdt data subnodes :: nodesOf subnodes

def nodesOf : List FitNode → List FitNode
  | [] => []
  | node :: rest => nodes node ++ nodesOf rest

end

/-- A FIT image: a tree whose nodes are at distinct offsets, the root at 0. -/
structure FitTree where
  root : FitNode
  root_offset : root.offset = 0
  distinct : ((nodes root).map FitNode.offset).Nodup

def nodeAt (fit : FitTree) (noffset : Nat) : Option FitNode :=
  (nodes fit.root).find? fun node => node.offset = noffset

/-! ## The search -/

/-- `best_match_offset` and `best_match_pos`. -/
structure Best where
  /-- `best_match_offset`, zero if there is none. -/
  offset : Nat
  /-- `best_match_pos` -/
  pos : Nat
  deriving DecidableEq

/-- The loop over U-Boot's strings, for a configuration at an offset; `cur` is what is left of the
list. -/
def compatLoop (check : List UInt8 → Int) (noffset : Nat) (cur : List UInt8) (i : Nat)
    (best : Best) : Best :=
  if cur ≠ [] ∧ (best.offset = 0 ∨ best.pos > i) then
    if check (cString cur) = 0 then ⟨noffset, i⟩
    else compatLoop check noffset (cur.drop ((cString cur).length + 1)) (i + 1) best
  else best
termination_by cur.length
decreasing_by
  rename_i goes _
  have := List.length_pos_iff.mpr goes.1
  rw [List.length_drop]
  omega

variable (check : List UInt8 → List UInt8 → Int)

/-- The data of the device tree of a configuration: the image that `fdt` names has to be there, with
`data`. -/
def kfdt (images conf : FitNode) : Option (List UInt8) :=
  conf.fdt.bind fun name => (images.subnodeOffset (cString name)).bind FitNode.data

/-- What the loop does for a configuration. -/
def visit (images : FitNode) (compat : List UInt8) (conf : FitNode) (best : Best) : Best :=
  match kfdt images conf with
  | none => best
  | some data => compatLoop (check data) conf.offset compat 0 best

/-- The loop over the nodes behind `/configurations`: it stops where the depth is not above zero,
and skips what is deeper than 1. -/
def confLoop (fit : FitTree) (images : FitNode) (compat : List UInt8) :
    List (Nat × Int) → Best → Best
  | [], best => best
  | (noffset, ndepth) :: rest, best =>
    if ndepth > 0 then
      if ndepth > 1 then confLoop fit images compat rest best
      else
        match nodeAt fit noffset with
        | none => confLoop fit images compat rest best
        | some conf => confLoop fit images compat rest (visit check images compat conf best)
    else best

/-- `fit_conf_find_compat`, with U-Boot's property `compatible`. -/
def fitConfFindCompat (fit : FitTree) (compatible : Option (List UInt8)) : Int :=
  match fit.root.subnodeOffset (ascii "configurations"),
      fit.root.subnodeOffset (ascii "images") with
  | some confs, some images =>
    match compatible with
    | none => -1
    | some compat =>
      let best := confLoop check fit images compat
        (nextNodes 0 (behindOffset confs.offset (tags fit.root))) ⟨0, 0⟩
      if best.offset = 0 then -1 else best.offset
  | _, _ => -1

/-! ## The traversal -/

theorem FitNode.induction {one : FitNode → Prop} {all : List FitNode → Prop}
    (node : ∀ offset name fdt data subnodes, all subnodes →
      one (.node offset name fdt data subnodes)) (nil : all [])
    (cons : ∀ child rest, one child → all rest → all (child :: rest)) :
    (∀ tree, one tree) ∧ ∀ trees, all trees :=
  ⟨@FitNode.rec one all node nil cons, @FitNode.rec_1 one all node nil cons⟩

variable {check} {fit : FitTree} {images : FitNode} {compat : List UInt8}

theorem confLoop_deep (check : List UInt8 → List UInt8 → Int) (fit : FitTree) (images : FitNode)
    (compat : List UInt8) :
    (∀ node rest (depth : Int) best, 1 ≤ depth →
      confLoop check fit images compat (nextNodes depth (tags node ++ rest)) best =
        confLoop check fit images compat (nextNodes depth rest) best) ∧
    ∀ list rest (depth : Int) best, 1 ≤ depth →
      confLoop check fit images compat (nextNodes depth (tagsOf list ++ rest)) best =
        confLoop check fit images compat (nextNodes depth rest) best := by
  apply FitNode.induction
  · intro offset name fdt data subnodes ih rest depth best deep
    rw [tags, List.cons_append, List.append_assoc, List.singleton_append, nextNodes, confLoop,
      if_pos (by omega), if_pos (by omega), ih _ _ _ (by omega), nextNodes, if_neg (by omega),
      Int.add_sub_cancel]
  · intro rest depth best _
    rfl
  · intro child later first ih rest depth best deep
    rw [tagsOf, List.append_assoc, first _ _ _ deep, ih _ _ _ deep]

theorem confLoop_children {children : List FitNode}
    (found : ∀ child ∈ children, nodeAt fit child.offset = some child) (rest : List Tag)
    (best : Best) :
    confLoop check fit images compat (nextNodes 0 (tagsOf children ++ .endNode :: rest)) best =
      children.foldl (fun best conf => visit check images compat conf best) best := by
  induction children generalizing best with
  | nil => rfl
  | cons child later ih =>
    have here := found child List.mem_cons_self
    have ih := ih (fun child member => found child (List.mem_cons_of_mem _ member))
    cases child with
    | node offset name fdt data subnodes =>
      rw [tagsOf, tags, List.cons_append, List.cons_append, List.append_assoc, List.append_assoc,
        List.singleton_append, nextNodes, confLoop, if_pos (by omega), if_neg (by omega)]
      rw [FitNode.offset] at here
      rw [here]
      dsimp only
      rw [(confLoop_deep check fit images compat).2 _ _ _ _ (by omega), nextNodes,
        if_neg (by omega), Int.add_sub_cancel, ih]
      rfl

theorem behindOffset_skip (noffset : Nat) :
    (∀ node rest, noffset ∉ (nodes node).map FitNode.offset →
      behindOffset noffset (tags node ++ rest) = behindOffset noffset rest) ∧
    ∀ list rest, noffset ∉ (nodesOf list).map FitNode.offset →
      behindOffset noffset (tagsOf list ++ rest) = behindOffset noffset rest := by
  apply FitNode.induction
  · intro offset name fdt data subnodes ih rest elsewhere
    rw [nodes, List.map_cons, List.mem_cons, not_or] at elsewhere
    rw [tags, List.cons_append, List.append_assoc, List.singleton_append, behindOffset,
      if_neg (fun same => elsewhere.1 same.symm), ih _ elsewhere.2, behindOffset]
  · intro rest _
    rfl
  · intro child later first ih rest elsewhere
    rw [nodesOf, List.map_append, List.mem_append, not_or] at elsewhere
    rw [tagsOf, List.append_assoc, first _ elsewhere.1, ih _ elsewhere.2]

theorem mem_nodes_self (node : FitNode) : node ∈ nodes node := by
  cases node
  exact List.mem_cons_self

theorem nodesOf_sublist_nodes {node : FitNode} : (nodesOf node.subnodes).Sublist (nodes node) := by
  cases node
  exact List.sublist_cons_self _ _

variable {child : FitNode} {best : Best}

theorem nodes_sublist_nodesOf {list : List FitNode} (member : child ∈ list) :
    (nodes child).Sublist (nodesOf list) := by
  induction list with
  | nil => exact absurd member List.not_mem_nil
  | cons first later ih =>
    rw [nodesOf]
    rcases List.mem_cons.mp member with rfl | other
    · exact List.sublist_append_left _ _
    · exact (ih other).trans (List.sublist_append_right _ _)

theorem nodeAt_offset {node : FitNode} (member : node ∈ nodes fit.root) :
    nodeAt fit node.offset = some node := by
  have distinct := fit.distinct
  unfold nodeAt
  generalize nodes fit.root = list at member distinct
  induction list with
  | nil => exact absurd member List.not_mem_nil
  | cons first later ih =>
    rw [List.map_cons, List.nodup_cons] at distinct
    rcases List.mem_cons.mp member with rfl | other
    · rw [List.find?_cons_of_pos (by simp)]
    · have apart : first.offset ≠ node.offset := fun same =>
        distinct.1 (same ▸ List.mem_map_of_mem other)
      rw [List.find?_cons_of_neg (by simpa using apart), ih other distinct.2]

/-- The direct children of `/configurations`; there are none where there is no such node. -/
def configurations (fit : FitTree) : List FitNode :=
  match fit.root.subnodeOffset (ascii "configurations") with
  | some confs => confs.subnodes
  | none => []

theorem behindOffset_among {list : List FitNode} (member : child ∈ list)
    (distinct : ((nodesOf list).map FitNode.offset).Nodup) (rest : List Tag) :
    ∃ rest', behindOffset child.offset (tagsOf list ++ rest) =
      tagsOf child.subnodes ++ .endNode :: rest' := by
  induction list with
  | nil => exact absurd member List.not_mem_nil
  | cons first later ih =>
    rw [tagsOf, List.append_assoc]
    rw [nodesOf, List.map_append, List.nodup_append] at distinct
    obtain ⟨-, distinctLater, apart⟩ := distinct
    rcases List.mem_cons.mp member with rfl | other
    · refine ⟨tagsOf later ++ rest, ?_⟩
      cases child
      rw [tags, List.cons_append, behindOffset, FitNode.offset, if_pos rfl, List.append_assoc]
      rfl
    · have inLater : child.offset ∈ (nodesOf later).map FitNode.offset :=
        List.mem_map_of_mem ((nodes_sublist_nodesOf other).subset (mem_nodes_self child))
      rw [(behindOffset_skip _).1 _ _ fun inFirst => apart _ inFirst _ inLater rfl]
      exact ih other distinctLater

theorem behindOffset_child (member : child ∈ fit.root.subnodes) :
    ∃ rest, behindOffset child.offset (tags fit.root) =
      tagsOf child.subnodes ++ .endNode :: rest := by
  have distinct := fit.distinct
  generalize fit.root = root at member distinct ⊢
  cases root with
  | node offset name fdt data subnodes =>
    rw [nodes, List.map_cons, List.nodup_cons] at distinct
    have inside : child.offset ∈ (nodesOf subnodes).map FitNode.offset :=
      List.mem_map_of_mem ((nodes_sublist_nodesOf member).subset (mem_nodes_self child))
    have apart : offset ≠ child.offset := fun same => distinct.1 (same ▸ inside)
    rw [tags, behindOffset, if_neg apart]
    exact behindOffset_among member distinct.2 _

/-! ## The best configuration -/

/-- The first string with which the device tree of a configuration is compatible. -/
def rank (check : List UInt8 → List UInt8 → Int) (images : FitNode)
    (strings : List (List UInt8)) (conf : FitNode) : Option Nat :=
  (kfdt images conf).bind fun data => strings.findIdx? fun string => check data string = 0

def property (strings : List (List UInt8)) : List UInt8 :=
  strings.flatMap fun string => string ++ [0]

/-- What a configuration of some rank does to the best one so far. -/
def better (best : Best) (offset : Nat) : Option Nat → Best
  | none => best
  | some k => if best.offset = 0 ∨ k < best.pos then ⟨offset, k⟩ else best

theorem better_settled {i : Nat} (settled : ¬(best.offset = 0 ∨ best.pos > i)) (offset : Nat)
    (found : Option Nat) :
    better best offset (found.map fun k => k + i) = best := by
  cases found with
  | none => rfl
  | some k =>
    rw [Option.map_some, better, if_neg]
    omega

theorem cString_property {string : List UInt8} (text : 0 ∉ string) (rest : List UInt8) :
    cString (string ++ 0 :: rest) = string := by
  unfold cString
  rw [List.takeWhile_append_of_pos]
  · rw [List.takeWhile_cons_of_neg (by simp), List.append_nil]
  · intro c member
    simpa using fun zero : c = 0 => text (zero ▸ member)

/-- The loop over the strings finds the first one, unless the best one so far is as good. -/
theorem compatLoop_eq {check : List UInt8 → Int} {noffset : Nat} {strings : List (List UInt8)}
    (texts : ∀ string ∈ strings, 0 ∉ string) (i : Nat) (best : Best) :
    compatLoop check noffset (property strings) i best =
      better best noffset
        ((strings.findIdx? fun string => check string = 0).map fun k => k + i) := by
  induction strings generalizing i with
  | nil =>
    rw [property, List.flatMap_nil, compatLoop, if_neg (fun goes => goes.1 rfl)]
    rfl
  | cons string strings ih =>
    have text := texts string List.mem_cons_self
    have ih := ih (fun string member => texts string (List.mem_cons_of_mem _ member)) (i + 1)
    have split : property (string :: strings) = string ++ 0 :: property strings := by
      rw [property, List.flatMap_cons, List.append_assoc]
      rfl
    have rest : (property (string :: strings)).drop (string.length + 1) = property strings := by
      rw [split]
      simp
    have first : cString (property (string :: strings)) = string := by
      rw [split, cString_property text]
    have some : property (string :: strings) ≠ [] := by simp [split]
    rw [compatLoop, first, rest, ih, List.findIdx?_cons]
    by_cases unsettled : best.offset = 0 ∨ best.pos > i
    · rw [if_pos ⟨some, unsettled⟩]
      by_cases matching : check string = 0
      · rw [if_pos matching, if_pos (by simpa using matching), Option.map_some, better,
          Nat.zero_add, if_pos unsettled]
      · rw [if_neg matching, if_neg (by simpa using matching), Option.map_map]
        congr 2
        funext k
        exact (Nat.add_right_comm k 1 i).symm
    · rw [if_neg fun goes => unsettled goes.2, better_settled unsettled]

theorem visit_eq {strings : List (List UInt8)} (texts : ∀ string ∈ strings, 0 ∉ string)
    (conf : FitNode) (best : Best) :
    visit check images (property strings) conf best =
      better best conf.offset (rank check images strings conf) := by
  unfold visit rank
  cases kfdt images conf with
  | none => rfl
  | some data =>
    dsimp only [Option.bind_some]
    rw [compatLoop_eq texts]
    simp

/-- The best one so far is the first of the best rank; there is none if none has a rank. -/
def BestOf (ranks : FitNode → Option Nat) (visited : List FitNode) (best : Best) : Prop :=
  (best.offset = 0 ∧ ∀ conf ∈ visited, ranks conf = none) ∨
    ∃ before conf after, visited = before ++ conf :: after ∧ best.offset = conf.offset ∧
      ranks conf = some best.pos ∧
      (∀ other ∈ before, ∀ k, ranks other = some k → best.pos < k) ∧
      ∀ other ∈ after, ∀ k, ranks other = some k → best.pos ≤ k

/-- One more configuration. -/
theorem BestOf.better {ranks : FitNode → Option Nat} {visited : List FitNode}
    (bestOf : BestOf ranks visited best) (nonzero : ∀ conf ∈ visited, conf.offset ≠ 0)
    (conf : FitNode) :
    BestOf ranks (visited ++ [conf]) (better best conf.offset (ranks conf)) := by
  cases ranked : ranks conf with
  | none =>
    rcases bestOf with ⟨zero, none⟩ | ⟨before, found, after, rfl, offset, pos, first, last⟩
    · exact .inl ⟨zero, List.forall_mem_append.mpr ⟨none, List.forall_mem_singleton.mpr ranked⟩⟩
    · refine .inr ⟨before, found, after ++ [conf], by simp, offset, pos, first, ?_⟩
      refine List.forall_mem_append.mpr ⟨last, List.forall_mem_singleton.mpr fun k known => ?_⟩
      rw [ranked] at known
      cases known
  | some k =>
    rcases bestOf with ⟨zero, none⟩ | ⟨before, found, after, rfl, offset, pos, first, last⟩
    · rw [Compat.better, if_pos (.inl zero)]
      refine .inr ⟨visited, conf, [], rfl, rfl, ranked, fun other member k known => ?_, by simp⟩
      rw [none other member] at known
      cases known
    · have nonzero : best.offset ≠ 0 := offset ▸ nonzero found (by simp)
      rw [Compat.better]
      by_cases earlier : k < best.pos
      · rw [if_pos (.inr earlier)]
        refine .inr ⟨_, conf, [], rfl, rfl, ranked, fun other member k' known => ?_, by simp⟩
        rcases List.mem_append.mp member with front | behind
        · exact Nat.lt_trans earlier (first other front k' known)
        · rcases List.mem_cons.mp behind with rfl | later
          · rw [pos] at known
            cases known
            exact earlier
          · exact Nat.lt_of_lt_of_le earlier (last other later k' known)
      · rw [if_neg (by tauto)]
        refine .inr ⟨before, found, after ++ [conf], by simp, offset, pos, first, ?_⟩
        refine List.forall_mem_append.mpr ⟨last, List.forall_mem_singleton.mpr fun k known => ?_⟩
        rw [ranked] at known
        cases known
        omega

theorem BestOf.foldl {ranks : FitNode → Option Nat} {visited : List FitNode}
    (bestOf : BestOf ranks visited best) {later : List FitNode}
    (nonzero : ∀ conf ∈ visited ++ later, conf.offset ≠ 0) :
    BestOf ranks (visited ++ later)
      (later.foldl (fun best conf => Compat.better best conf.offset (ranks conf)) best) := by
  induction later generalizing visited best with
  | nil => simpa using bestOf
  | cons conf later ih =>
    have next := bestOf.better (fun other member => nonzero other (List.mem_append_left _ member))
      conf
    have all := ih next (by simpa using nonzero)
    rwa [List.append_assoc, List.singleton_append] at all

theorem mem_configurations {confs conf : FitNode}
    (named : fit.root.subnodeOffset (ascii "configurations") = some confs)
    (member : conf ∈ confs.subnodes) : conf ∈ nodes fit.root ∧ conf.offset ≠ 0 := by
  have child := List.mem_of_find?_eq_some named
  have below : conf ∈ nodesOf fit.root.subnodes :=
    (nodes_sublist_nodesOf child).subset
      (nodesOf_sublist_nodes.subset ((nodes_sublist_nodesOf member).subset (mem_nodes_self conf)))
  refine ⟨nodesOf_sublist_nodes.subset below, fun zero => ?_⟩
  have distinct := fit.distinct
  have rootOffset := fit.root_offset
  generalize fit.root = root at below distinct rootOffset
  cases root with
  | node offset name fdt data subnodes =>
    rw [nodes, List.map_cons, List.nodup_cons] at distinct
    have atRoot : conf.offset ∈ (nodesOf subnodes).map FitNode.offset := List.mem_map_of_mem below
    rw [zero, ← rootOffset] at atRoot
    exact distinct.1 atRoot

/-- The configuration's device tree is compatible with the string. -/
def Matches (check : List UInt8 → List UInt8 → Int) (fit : FitTree) (conf : FitNode)
    (string : List UInt8) : Prop :=
  ∃ images data, fit.root.subnodeOffset (ascii "images") = some images ∧
    kfdt images conf = some data ∧ check data string = 0

/-- The configuration at an offset is a child of `/configurations` that is compatible with a string;
none is compatible with an earlier string, and none in front of it with this one. -/
def FirstBest (check : List UInt8 → List UInt8 → Int) (fit : FitTree)
    (strings : List (List UInt8)) (noffset : Int) : Prop :=
  ∃ (before : List FitNode) (conf : FitNode) (after : List FitNode) (i : Nat)
    (string : List UInt8), configurations fit = before ++ conf :: after ∧
    noffset = conf.offset ∧ strings[i]? = some string ∧ Matches check fit conf string ∧
    (∀ j < i, ∀ earlier, strings[j]? = some earlier →
      ∀ other ∈ configurations fit, ¬Matches check fit other earlier) ∧
    ∀ other ∈ before, ¬Matches check fit other string

section Rank

variable {strings : List (List UInt8)} {conf : FitNode}
variable (named : fit.root.subnodeOffset (ascii "images") = some images)
include named

theorem matches_iff {string : List UInt8} :
    Matches check fit conf string ↔ ∃ data ∈ kfdt images conf, check data string = 0 := by
  constructor
  · rintro ⟨images', data, named', there, matching⟩
    rw [named] at named'
    cases named'
    exact ⟨data, there, matching⟩
  · rintro ⟨data, there, matching⟩
    exact ⟨images, data, named, there, matching⟩

theorem rank_eq_none :
    rank check images strings conf = none ↔
      ∀ string ∈ strings, ¬Matches check fit conf string := by
  unfold rank
  simp only [matches_iff named]
  cases kfdt images conf with
  | none => simp
  | some data => simp [List.findIdx?_eq_none_iff]

theorem rank_eq_some {k : Nat} :
    rank check images strings conf = some k ↔
      ∃ string, strings[k]? = some string ∧ Matches check fit conf string ∧
        ∀ j < k, ∀ earlier, strings[j]? = some earlier → ¬Matches check fit conf earlier := by
  unfold rank
  simp only [matches_iff named]
  cases kfdt images conf with
  | none => simp
  | some data =>
    simp only [Option.bind_some, List.findIdx?_eq_some_iff_getElem, Option.mem_some_iff,
      exists_eq_left', decide_eq_true_eq, List.getElem?_eq_some_iff]
    constructor
    · rintro ⟨inside, matching, before⟩
      refine ⟨strings[k], ⟨inside, rfl⟩, matching, ?_⟩
      rintro j less earlier ⟨_, rfl⟩
      exact before j less
    · rintro ⟨string, ⟨inside, rfl⟩, matching, before⟩
      exact ⟨inside, matching, fun j less => before j less _ ⟨Nat.lt_trans less inside, rfl⟩⟩

end Rank

/-! ## The result -/

section Result

variable {strings : List (List UInt8)} {confs : FitNode}
variable (check) (texts : ∀ string ∈ strings, 0 ∉ string)
variable (isConfs : fit.root.subnodeOffset (ascii "configurations") = some confs)
variable (isImages : fit.root.subnodeOffset (ascii "images") = some images)
include texts isConfs

theorem confLoop_bestOf :
    BestOf (rank check images strings) confs.subnodes
      (confLoop check fit images (property strings)
        (nextNodes 0 (behindOffset confs.offset (tags fit.root))) ⟨0, 0⟩) := by
  obtain ⟨rest, behind⟩ := behindOffset_child (List.mem_of_find?_eq_some isConfs)
  rw [behind, confLoop_children fun child member =>
    nodeAt_offset (mem_configurations isConfs member).1]
  simp only [visit_eq texts]
  have start : BestOf (rank check images strings) [] ⟨0, 0⟩ := .inl ⟨rfl, by simp⟩
  exact start.foldl fun conf member => (mem_configurations isConfs member).2

include isImages

theorem fitConfFindCompat_bestOf : ∃ best, BestOf (rank check images strings) confs.subnodes best ∧
    fitConfFindCompat check fit (some (property strings)) =
      if best.offset = 0 then (-1 : Int) else best.offset := by
  refine ⟨_, confLoop_bestOf check texts isConfs, ?_⟩
  rw [fitConfFindCompat, isConfs, isImages]

end Result

theorem BestOf.firstBest {strings : List (List UInt8)} {before after : List FitNode}
    {conf : FitNode} (isImages : fit.root.subnodeOffset (ascii "images") = some images)
    (all : configurations fit = before ++ conf :: after) (isBest : best.offset = conf.offset)
    (ranked : rank check images strings conf = some best.pos)
    (first : ∀ other ∈ before, ∀ k, rank check images strings other = some k → best.pos < k)
    (last : ∀ other ∈ after, ∀ k, rank check images strings other = some k → best.pos ≤ k) :
    FirstBest check fit strings best.offset := by
  obtain ⟨string, there, matching, earliest⟩ := (rank_eq_some isImages).mp ranked
  have above (other : FitNode) (j : Nat) (earlier : List UInt8) (at_j : strings[j]? = some earlier)
      (low : ∀ k, rank check images strings other = some k → j < k) :
      ¬Matches check fit other earlier := by
    intro matches'
    cases ranks : rank check images strings other with
    | none =>
      exact (rank_eq_none isImages).mp ranks earlier (List.mem_of_getElem? at_j) matches'
    | some k =>
      obtain ⟨-, -, -, least⟩ := (rank_eq_some isImages).mp ranks
      exact least j (low k ranks) earlier at_j matches'
  refine ⟨before, conf, after, best.pos, string, all, congrArg _ isBest, there, matching, ?_,
    fun other member => above other best.pos string there (first other member)⟩
  intro j less earlier at_j other member
  refine above other j earlier at_j fun k ranks => ?_
  rw [all, List.mem_append, List.mem_cons] at member
  rcases member with front | rfl | behind
  · exact Nat.lt_trans less (first other front k ranks)
  · rw [ranked] at ranks
    cases ranks
    exact less
  · exact Nat.lt_of_lt_of_le less (last other behind k ranks)

/-- `fit_conf_find_compat` returns the first configuration that is compatible with the earliest
string of U-Boot's list, and -1 exactly where no configuration is compatible with any. -/
theorem fit_conf_find_compat_first (check : List UInt8 → List UInt8 → Int) (fit : FitTree)
    (strings : List (List UInt8)) (texts : ∀ string ∈ strings, 0 ∉ string) :
    (fitConfFindCompat check fit (some (property strings)) = -1 ↔
      ∀ conf ∈ configurations fit, ∀ string ∈ strings, ¬Matches check fit conf string) ∧
    (fitConfFindCompat check fit (some (property strings)) ≠ -1 →
      FirstBest check fit strings (fitConfFindCompat check fit (some (property strings)))) := by
  cases isConfs : fit.root.subnodeOffset (ascii "configurations") with
  | none => simp [fitConfFindCompat, configurations, isConfs]
  | some confs =>
    cases isImages : fit.root.subnodeOffset (ascii "images") with
    | none => simp [fitConfFindCompat, isConfs, isImages, Matches]
    | some images =>
      have all : configurations fit = confs.subnodes := by rw [configurations, isConfs]
      obtain ⟨best, bestOf, result⟩ := fitConfFindCompat_bestOf check texts isConfs isImages
      rw [result, all]
      rcases bestOf with ⟨zero, none⟩ | ⟨before, conf, after, parts, offset, ranked, first, last⟩
      · rw [if_pos zero]
        exact ⟨iff_of_true rfl fun conf member => (rank_eq_none isImages).mp (none conf member),
          fun other => absurd rfl other⟩
      · have member : conf ∈ confs.subnodes := by simp [parts]
        have nonzero := offset ▸ (mem_configurations isConfs member).2
        obtain ⟨string, there, matching, -⟩ := (rank_eq_some isImages).mp ranked
        rw [if_neg nonzero]
        refine ⟨iff_of_false (by omega) fun none => ?_, fun _ =>
          BestOf.firstBest isImages (all.trans parts) offset ranked first last⟩
        exact none conf member string (List.mem_of_getElem? there) matching

/-- A FIT image with two configurations: the second one has the device tree `b`. -/
def twoConfigurations : FitTree where
  root := .node 0 [] none none
    [.node 1 (ascii "images") none none [.node 2 [97] none (some [1]) [],
      .node 3 [98] none (some [2]) []],
      .node 4 (ascii "configurations") none none [.node 5 [99] (some [97]) none [],
        .node 6 [100] (some [98]) none []]]
  root_offset := rfl
  distinct := by decide

/-- The second configuration is returned: its device tree is compatible with the first string. -/
theorem fit_conf_find_compat_second :
    (∀ string ∈ ([[120], [121]] : List (List UInt8)), 0 ∉ string) ∧
      FirstBest (fun data string => if data = [2] ∧ string = [120] then 0 else 1) twoConfigurations
        [[120], [121]] 6 := by
  have found := fit_conf_find_compat_first
    (fun data string => if data = [2] ∧ string = [120] then 0 else 1) twoConfigurations
    [[120], [121]] (by decide)
  have result : fitConfFindCompat
      (fun data string => if data = [2] ∧ string = [120] then 0 else 1) twoConfigurations
      (some (property [[120], [121]])) = 6 := by decide +kernel
  rw [result] at found
  exact ⟨by decide, found.2 (by decide)⟩

end HrppBoot.Fit.Compat
