import ModuleAtlas.Proofs.Files.Locate

/-! # Listings in order

A folder lists its items in the order of their names, at every level.  Setting an item keeps that
order, so what is put into a folder item after item is ordered (`Folder.Ordered.put`,
`Folder.Ordered.makeFolder`).

Following a path leads from the root to folders below it, whatever links are on the way.  So in a
file tree with an ordered root, every path that leads to a folder leads to an ordered one
(`FileTree.ordered_of_status`).  The names of any other folder can be sorted, and what is sorted is
in the order of the octets (`FileTree.exists_sortedNames`).
-/
namespace ModuleAtlas

/-- What is a folder is ordered. -/
def Node.Ordered (node : Node) : Prop := ∀ inner, node = .folder inner → inner.Ordered

namespace Folder
variable {f : Folder} {name n : OsText} {node other : Node} {rest : Folder}

/-- A listing is empty or begins with an item. -/
theorem cons_induction {P : Folder → Prop} (hempty : P .empty)
    (hcons : ∀ name node rest, P rest → P (cons name node rest)) (f : Folder) : P f := by
  induction f with
  | empty => exact hempty
  | file name content rest ih => exact hcons name (.file content) rest ih
  | link name target rest ih => exact hcons name (.link target) rest ih
  | folder name inner rest _ ih => exact hcons name (.folder inner) rest ih

theorem names_cons : (cons name node rest).names = name :: rest.names := by
  cases node <;> rfl

theorem ordered_cons_iff :
    (cons name node rest).Ordered ↔ (∀ n ∈ rest.names, name < n) ∧ node.Ordered ∧ rest.Ordered := by
  cases node with
  | file content => simp [cons, Ordered, Node.Ordered]
  | link target => simp [cons, Ordered, Node.Ordered]
  | folder inner => simp [cons, Ordered, Node.Ordered]

theorem set_cons :
    (cons n other rest).set name node =
      if name < n then cons name node (cons n other rest)
      else if name = n then cons name node rest
      else cons n other (rest.set name node) := by
  cases other <;> rfl

theorem Ordered.of_find? (h : f.Ordered) (hfind : f.find? name = some node) : node.Ordered := by
  rintro inner rfl
  exact h.of_mem_items (mem_items_of_find? hfind)

/-! ## Setting items -/

theorem mem_names_set (h : n ∈ (f.set name node).names) : n = name ∨ n ∈ f.names := by
  induction f using cons_induction with
  | hempty =>
    rw [set, names_cons] at h
    exact .inl (List.mem_singleton.mp h)
  | hcons first item rest ih =>
    rw [set_cons] at h
    rw [names_cons, List.mem_cons]
    split at h
    · rw [names_cons, names_cons, List.mem_cons, List.mem_cons] at h
      exact h
    · split at h
      · rw [names_cons, List.mem_cons] at h
        exact h.imp_right .inr
      · rw [names_cons, List.mem_cons] at h
        rcases h with rfl | h
        · exact .inr (.inl rfl)
        · exact (ih h).imp_right .inr

/-- Setting an item keeps the order. -/
theorem Ordered.set (h : f.Ordered) (hnode : node.Ordered) : (f.set name node).Ordered := by
  induction f using cons_induction with
  | hempty => exact ordered_cons_iff.mpr ⟨fun n hn => absurd hn List.not_mem_nil, hnode, h⟩
  | hcons first item rest ih =>
    obtain ⟨hfirst, hitem, hrest⟩ := ordered_cons_iff.mp h
    rw [set_cons]
    split
    · next hlt =>
      refine ordered_cons_iff.mpr ⟨fun n hn => ?_, hnode, h⟩
      rw [names_cons, List.mem_cons] at hn
      rcases hn with rfl | hn
      · exact hlt
      · exact OsText.lt_trans hlt (hfirst n hn)
    · next hle =>
      split
      · next he =>
        subst he
        exact ordered_cons_iff.mpr ⟨hfirst, hnode, hrest⟩
      · next hne =>
        refine ordered_cons_iff.mpr ⟨fun n hn => ?_, hitem, ih hrest⟩
        rcases mem_names_set hn with rfl | hn
        · exact OsText.lt_of_not_lt hle (Ne.symm hne)
        · exact hfirst n hn

/-- The folder that an item is, or else an empty one. -/
theorem Ordered.innerOf (h : f.Ordered) :
    Ordered (match f.find? name with
      | some (.folder inner) => inner
      | _ => .empty) := by
  split
  · next inner hfind => exact h.of_find? hfind inner rfl
  · exact trivial

/-- Putting an item somewhere below a folder keeps the order at every level. -/
theorem Ordered.put (h : f.Ordered) (hnode : node.Ordered) (location : List OsText) :
    (f.put location node).Ordered := by
  induction location generalizing f with
  | nil => exact h
  | cons first location ih =>
    cases location with
    | nil => exact h.set hnode
    | cons second location =>
      refine h.set ?_
      rintro inner he
      rw [← Node.folder.inj he]
      exact ih h.innerOf

theorem Ordered.makeFolder (h : f.Ordered) (location : List OsText) :
    (f.makeFolder location).Ordered := by
  induction location generalizing f with
  | nil => exact h
  | cons first location ih =>
    refine h.set ?_
    rintro inner he
    rw [← Node.folder.inj he]
    exact ih h.innerOf

end Folder

/-! ## Following paths -/

namespace FileTree

/-- Where folders are ordered, following a path leads to ordered folders only. -/
theorem ordered_of_follow {last : Bool} {root : Folder} (hroot : root.Ordered) {links : Nat}
    {here : List Folder} {names : List OsText} {node : Node} (hhere : ∀ f ∈ here, f.Ordered)
    (h : follow last root links here names = .ok node) : node.Ordered := by
  have htop : ∀ here : List Folder, (∀ f ∈ here, f.Ordered) → (here.head?.getD root).Ordered := by
    intro here hhere
    cases here with
    | nil => exact hroot
    | cons f here => exact hhere f List.mem_cons_self
  induction links, here, names using follow.induct last root with
  | case1 links here =>
    rw [follow] at h
    rintro inner rfl
    rw [← Node.folder.inj (Except.ok.inj h)]
    exact htop here hhere
  | case2 links here names ih =>
    rw [follow_here] at h
    exact ih hhere h
  | case3 links here names hne ih =>
    rw [follow_up] at h
    exact ih (fun f hf => hhere f (List.mem_of_mem_tail hf)) h
  | case4 links here first names hdot hup hfind =>
    rw [follow_name last hdot hup, hfind] at h
    cases h
  | case5 links here first hdot hup content hfind =>
    rw [follow_name last hdot hup, hfind] at h
    obtain rfl := Except.ok.inj h
    intro inner he
    cases he
  | case6 links here first names hdot hup content hfind hne =>
    rw [follow_name last hdot hup, hfind] at h
    cases (if_neg hne).symm.trans h
  | case7 links here first names hdot hup inner hfind ih =>
    rw [follow_name last hdot hup, hfind] at h
    refine ih (List.forall_mem_cons.mpr ⟨?_, hhere⟩) h
    exact (htop here hhere).of_find? hfind inner rfl
  | case8 links here first names hdot hup target hfind hlast =>
    rw [follow_name last hdot hup, hfind] at h
    obtain rfl := Except.ok.inj ((if_pos hlast).symm.trans h)
    intro inner he
    cases he
  | case9 here first names hdot hup target hfind hlast =>
    rw [follow_name last hdot hup, hfind] at h
    cases (if_neg hlast).symm.trans h
  | case10 here first names hdot hup target hfind hlast links ih =>
    rw [follow_name last hdot hup, hfind] at h
    refine ih ?_ ((if_neg hlast).symm.trans h)
    split
    · exact fun f hf => absurd hf List.not_mem_nil
    · exact hhere

theorem ordered_of_status {tree : FileTree} (hroot : tree.root.Ordered) {p : Path} {f : Folder}
    (h : tree.status p = .ok (.folder f)) : f.Ordered := by
  unfold status lookup at h
  split at h
  · cases h
  · split at h
    · cases h
    · exact ordered_of_follow hroot (fun f hf => absurd hf List.not_mem_nil) h f rfl

/-- The names in a folder in order are those that it lists, in the order of their octets. -/
theorem exists_sortedNames {tree : FileTree} {p : Path} (h : tree.isFolder p = true) :
    ∃ listed names : List OsText, tree.listFolder p = .ok listed ∧
      tree.sortedNames p = .ok names ∧ names.Perm listed ∧ names.Pairwise (· ≤ ·) := by
  unfold isFolder at h
  split at h
  · next f hstatus =>
    have hlist : tree.listFolder p = .ok f.names := by rw [listFolder, hstatus]
    have hsorted := @List.pairwise_mergeSort OsText (fun m n => decide (m ≤ n))
      (fun a b c hab hbc => decide_eq_true
        (OsText.le_trans (of_decide_eq_true hab) (of_decide_eq_true hbc)))
      (fun a b => by simpa using OsText.le_total a b) f.names
    exact ⟨f.names, f.names.mergeSort, hlist, by rw [sortedNames, hlist]; rfl,
      List.mergeSort_perm _ _, hsorted.imp of_decide_eq_true⟩
  · cases h

end FileTree
end ModuleAtlas
