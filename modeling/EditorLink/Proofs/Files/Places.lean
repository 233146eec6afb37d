import EditorLink.Files.Tree
import Mathlib

/-!
# EditorLink.Proofs.Files.Places -- where paths lead, and trees that differ in one place

A path seen from a directory leads to where the directory is, and on by the path's own parts. What a lookup reads of a tree are the node
where the path leads and the nodes above it. So trees that are the same outside one place (`Tree.SameOutside`) answer every lookup alike
that does not lead there, and list the same names but for the one name that is the place.
-/

namespace EditorLink.Files

/-! ## Paths -/

namespace Path

/-- A name that a file or directory can have. -/
structure Regular (name : String) : Prop where
  nonempty : name ≠ ""
  notHere : name ≠ "."
  notUp : name ≠ ".."
  single : '/' ∉ name.toList

end Path
/-! ## Names in a directory -/

namespace Tree

/-- The name of a node among the nodes directly below some parts. -/
def nameBelow? (parts : List String) (n : List String × Node) : Option String :=
  match n.1.reverse with
  | last :: above => if above.reverse = parts then some last else none
  | [] => none

theorem nameBelow?_eq_some_iff {parts : List String} {n : List String × Node} {name : String} :
    nameBelow? parts n = some name ↔ n.1 = parts ++ [name] := by
  rw [nameBelow?]
  constructor
  · intro h
    split at h
    · next last above hreverse =>
      split at h
      · next habove =>
        obtain rfl := Option.some.inj h
        rw [← List.reverse_reverse n.1, hreverse, List.reverse_cons, habove]
      · cases h
    · cases h
  · intro h
    rw [h, List.reverse_append]
    simp

theorem names_eq (t : Tree) (parts : List String) :
    t.names parts = (t.nodes.filterMap (nameBelow? parts)).mergeSort fun a b => a ≤ b := rfl

theorem mem_names {t : Tree} {parts : List String} {name : String} :
    name ∈ t.names parts ↔ ∃ node, (parts ++ [name], node) ∈ t.nodes := by
  rw [names_eq, (List.mergeSort_perm _ _).mem_iff, List.mem_filterMap]
  constructor
  · rintro ⟨⟨path, node⟩, hmem, hname⟩
    obtain rfl : path = parts ++ [name] := nameBelow?_eq_some_iff.mp hname
    exact ⟨node, hmem⟩
  · rintro ⟨node, hmem⟩
    exact ⟨_, hmem, nameBelow?_eq_some_iff.mpr rfl⟩

theorem names_sorted (t : Tree) (parts : List String) : (t.names parts).Pairwise (· ≤ ·) := by
  have htrans : ∀ a b c : String, decide (a ≤ b) = true → decide (b ≤ c) = true → decide (a ≤ c) = true := by
    intro a b c hab hbc
    simp only [decide_eq_true_eq] at *
    exact le_trans hab hbc
  have htotal : ∀ a b : String, (decide (a ≤ b) || decide (b ≤ a)) = true := fun a b => by simpa using le_total a b
  simpa [names_eq] using List.pairwise_mergeSort htrans htotal (t.nodes.filterMap (nameBelow? parts))

/-- All parts of all paths in the tree are names. -/
def Regular (t : Tree) : Prop :=
  ∀ n ∈ t.nodes, ∀ part ∈ n.1, Path.Regular part

theorem Regular.names {t : Tree} (h : t.Regular) {parts : List String} {name : String} (hname : name ∈ t.names parts) : Path.Regular name := by
  obtain ⟨node, hmem⟩ := mem_names.mp hname
  exact h _ hmem name (by simp)

/-! ## Trees that differ in one place -/

/-- Two trees have the same nodes but at and below one place. -/
structure SameOutside (place : List String) (t t' : Tree) : Prop where
  cwd : t'.cwd = t.cwd
  nodes : (t'.nodes.filter fun n => ¬ place <+: n.1) = t.nodes.filter fun n => ¬ place <+: n.1

section SameOutside

variable {place : List String} {t t' : Tree}

theorem find?_outside {parts : List String} (outside : ¬ place <+: parts) (nodes : List (List String × Node)) :
    (nodes.filter fun n => ¬ place <+: n.1).find? (·.1 = parts) = nodes.find? (·.1 = parts) := by
  rw [List.find?_filter]
  congr 1
  funext n
  by_cases h : n.1 = parts <;> simp [h, outside]

theorem SameOutside.at? (h : SameOutside place t t') {parts : List String} (outside : ¬ place <+: parts) : t'.at? parts = t.at? parts := by
  rw [Tree.at?, Tree.at?, ← find?_outside outside, h.nodes, find?_outside outside]

theorem isPrefix_of_mem_ancestors {parts above : List String} (h : above ∈ ancestors parts) : above <+: parts := by
  obtain ⟨n, -, rfl⟩ := List.mem_map.mp h
  exact List.take_prefix n parts

/-- What is above a path that is outside is outside. -/
theorem SameOutside.above (h : SameOutside place t t') {parts : List String} (outside : ¬ place <+: parts) :
    (ancestors parts).any t'.isFileAt = (ancestors parts).any t.isFileAt := by
  rw [Bool.eq_iff_iff, List.any_eq_true, List.any_eq_true]
  refine exists_congr fun above => and_congr_right fun habove => ?_
  have houtside : ¬ place <+: above := fun hplace => outside (hplace.trans (isPrefix_of_mem_ancestors habove))
  rw [isFileAt, isFileAt, h.at? houtside]

theorem SameOutside.find (h : SameOutside place t t') {path : String} (outside : ¬ place <+: Path.resolve t.cwd path) :
    t'.find path = t.find path := by
  rw [Tree.find, Tree.find, h.cwd]
  simp only [h.above outside, h.at? outside]

theorem SameOutside.read? (h : SameOutside place t t') {path : String} (outside : ¬ place <+: Path.resolve t.cwd path) :
    t'.read? path = t.read? path := by
  rw [Tree.read?, Tree.read?, h.find outside]

theorem SameOutside.isFile (h : SameOutside place t t') {path : String} (outside : ¬ place <+: Path.resolve t.cwd path) :
    t'.isFile path = t.isFile path := by
  rw [Tree.isFile, Tree.isFile, h.read? outside]

theorem SameOutside.isDirectory (h : SameOutside place t t') {path : String} (outside : ¬ place <+: Path.resolve t.cwd path) :
    t'.isDirectory path = t.isDirectory path := by
  rw [Tree.isDirectory, Tree.isDirectory, h.find outside]

/-- One part below an outside path there is only one that is not outside. -/
theorem outside_concat {parts : List String} (outside : ¬ place <+: parts) (name : String) :
    place <+: parts ++ [name] ↔ parts ++ [name] = place := by
  rw [List.prefix_concat_iff]
  exact ⟨fun h => h.elim Eq.symm fun h => absurd h outside, fun h => Or.inl h.symm⟩

/-- **The same names are listed outside**, but for the place itself. -/
theorem SameOutside.names (h : SameOutside place t t') {parts : List String} (outside : ¬ place <+: parts) :
    (t'.names parts).filter (fun name => parts ++ [name] ≠ place) = (t.names parts).filter fun name => parts ++ [name] ≠ place := by
  -- as they are found in the nodes, before they are put in order
  have hfound : ∀ u : Tree, (u.nodes.filterMap (nameBelow? parts)).filter (fun name => parts ++ [name] ≠ place) =
      (u.nodes.filter fun n => ¬ place <+: n.1).filterMap (nameBelow? parts) := by
    intro u
    rw [List.filter_filterMap, List.filterMap_filter]
    refine List.filterMap_congr fun n _ => ?_
    cases hname : nameBelow? parts n with
    | none => simp
    | some name =>
      have hpath := nameBelow?_eq_some_iff.mp hname
      by_cases hplace : parts ++ [name] = place <;> simp [hpath, outside_concat outside, hplace]
  have hperm : ∀ u : Tree, ((u.names parts).filter fun name => parts ++ [name] ≠ place).Perm
      ((u.nodes.filter fun n => ¬ place <+: n.1).filterMap (nameBelow? parts)) := by
    intro u
    rw [← hfound u, names_eq]
    exact (List.mergeSort_perm _ _).filter _
  have hsorted : ∀ u : Tree, ((u.names parts).filter fun name => parts ++ [name] ≠ place).Pairwise (· ≤ ·) :=
    fun u => (u.names_sorted parts).filter _
  exact List.Perm.eq_of_pairwise (fun a b _ _ hab hba => le_antisymm hab hba) (hsorted t') (hsorted t)
    ((hperm t').trans (h.nodes ▸ (hperm t).symm))

end SameOutside
end Tree
end EditorLink.Files
