import ModuleAtlas.Proofs.Image.Locations

/-! # The slots of a written image

A written image has a slot for each resource.  A slot holds where the location of the resource
starts, and the location holds the positions of its texts and of its content.  Reading the slots in
order gives the resources back, each with the place of its content (`readModules_locationsFrom`).
Resources without a module and those of synthetic modules are written like the others, and are
passed over in reading.
-/
namespace ModuleAtlas.Image

/-! ## Places of contents -/

/-- Whether an image lists a resource: it belongs to a module, and not to a synthetic one. -/
def NewResource.isListed (r : NewResource) : Bool :=
  decide (r.module ≠ "" ∧ r.module ∉ syntheticModules)

/-- The resources that an image lists. -/
def listed (resources : List NewResource) : List NewResource :=
  resources.filter NewResource.isListed

/-- A resource as it is read when its content starts at `offset`. -/
def NewResource.storedAt (r : NewResource) (offset : Nat) : Resource :=
  ⟨r.module, r.entry, ⟨offset, 0, r.content.length⟩⟩

/-- Resources with the places of their contents, which stand one behind the other. -/
def placesFrom (start : Nat) (resources : List NewResource) : List (NewResource × Nat) :=
  resources.zip (startsFrom start (resources.map fun r => r.content.length))

theorem placesFrom_cons (start : Nat) (r : NewResource) (resources : List NewResource) :
    placesFrom start (r :: resources) =
      (r, start) :: placesFrom (start + r.content.length) resources := rfl

theorem map_fst_placesFrom (start : Nat) (resources : List NewResource) :
    (placesFrom start resources).map Prod.fst = resources := by
  induction resources generalizing start with
  | nil => rfl
  | cons r resources ih => rw [placesFrom_cons, List.map_cons, ih]

/-- The content of a resource stands at its place. -/
theorem eq_append_of_mem_placesFrom {start : Nat} {resources : List NewResource}
    {p : NewResource × Nat} (h : p ∈ placesFrom start resources) :
    ∃ front back, resources.flatMap NewResource.content = front ++ (p.1.content ++ back) ∧
      p.2 = start + front.length := by
  induction resources generalizing start with
  | nil => exact absurd h List.not_mem_nil
  | cons r resources ih =>
    rw [placesFrom_cons] at h
    rcases List.mem_cons.mp h with rfl | h
    · exact ⟨[], resources.flatMap NewResource.content, rfl, rfl⟩
    · obtain ⟨front, back, hcontent, hplace⟩ := ih h
      refine ⟨r.content ++ front, back, ?_, ?_⟩
      · rw [List.flatMap_cons, hcontent, List.append_assoc]
      · rw [hplace, List.length_append, Nat.add_assoc]

/-! ## Slots -/

/-- The attributes of a resource, those with value zero included. -/
def fullAttributesOf (texts : List String) (r : NewResource) (offset : Nat) : List Attribute :=
  let parts := NameParts.ofEntry r.entry
  [⟨moduleKind, textPosition texts r.module⟩, ⟨parentKind, textPosition texts parts.parent⟩,
    ⟨baseKind, textPosition texts parts.base⟩, ⟨extensionKind, textPosition texts parts.extension⟩,
    ⟨offsetKind, offset⟩, ⟨uncompressedKind, r.content.length⟩]

/-- A resource whose location can be written and read back: its values have a place in eight
bytes, its texts are read at their positions, and they make up its name. -/
structure NewResource.Readable (texts : List String) (r : NewResource) (offset : Nat) : Prop where
  values : ∀ a ∈ fullAttributesOf texts r offset, a.value < Nat.pow 256 8
  texts : ∀ t ∈ r.texts, readString (stringTable texts) (textPosition texts t) = .ok t
  entry : entryName (NameParts.ofEntry r.entry).parent (NameParts.ofEntry r.entry).base
    (NameParts.ofEntry r.entry).extension = r.entry

theorem kinds_fullAttributesOf (texts : List String) (r : NewResource) (offset : Nat) :
    (fullAttributesOf texts r offset).map Attribute.kind = [1, 2, 3, 4, 5, 7] := rfl

theorem fitsIn_of_mem_attributesOf {texts : List String} {r : NewResource} {offset : Nat}
    (h : r.Readable texts offset) {a : Attribute} (ha : a ∈ attributesOf texts r offset) :
    a.FitsIn (byteCount a.value) := by
  have hmem : a ∈ fullAttributesOf texts r offset := (List.mem_filter.mp ha).1
  have hkind : a.kind ∈ [1, 2, 3, 4, 5, 7] :=
    kinds_fullAttributesOf texts r offset ▸ List.mem_map_of_mem hmem
  have hrange : 0 < a.kind ∧ a.kind < 32 := by
    revert hkind
    generalize a.kind = kind
    simp only [List.mem_cons, List.not_mem_nil, or_false]
    omega
  exact ⟨hrange.1, hrange.2, byteCount_pos _, byteCount_le (by decide) (h.values a hmem),
    lt_pow_byteCount _⟩

/-- The location of a resource is read back. -/
theorem readResource_encodeLocation {texts : List String} {r : NewResource} {offset : Nat}
    (h : r.Readable texts offset) {locations rest : Bytes} {position : Nat}
    (hdrop : locations.drop position = encodeLocation (attributesOf texts r offset) ++ rest) :
    readResource locations (stringTable texts) position =
      .ok (if r.isListed then some (r.storedAt offset) else none) := by
  have hdecode : decodeAttributes (locations.drop position) =
      .ok (attributesOf texts r offset) := by
    rw [hdrop, encodeLocation, List.append_assoc]
    exact (decodeAttributes_written (fun a => fitsIn_of_mem_attributesOf h) (by decide) rest).trans
      (congrArg Except.ok (List.map_id' _))
  have hdistinct : ((fullAttributesOf texts r offset).map Attribute.kind).Nodup := by
    rw [kinds_fullAttributesOf]
    decide
  have hvalue : ∀ a ∈ fullAttributesOf texts r offset,
      valueOf (attributesOf texts r offset) a.kind = a.value :=
    fun a ha => valueOf_of_mem hdistinct ha
  have hcompressed : valueOf (attributesOf texts r offset) compressedKind = 0 := by
    refine valueOf_of_forall_ne fun a ha hk => ?_
    have hmem : compressedKind ∈ (fullAttributesOf texts r offset).map Attribute.kind :=
      hk ▸ List.mem_map_of_mem (List.mem_filter.mp ha).1
    rw [kinds_fullAttributesOf] at hmem
    revert hmem
    decide
  simp only [fullAttributesOf, List.forall_mem_cons] at hvalue
  obtain ⟨hm, hp, hb, he, ho, hu, -⟩ := hvalue
  have htexts := h.texts
  simp only [NewResource.texts, List.forall_mem_cons] at htexts
  obtain ⟨tm, tp, tb, te, -⟩ := htexts
  unfold readResource
  rw [hdecode]
  dsimp only [bind, Except.bind]
  rw [hm, hp, hb, he, ho, hu, hcompressed, tm, tp, tb, te]
  dsimp only
  rw [h.entry]
  by_cases hl : r.module = "" ∨ r.module ∈ syntheticModules
  · have hlisted : r.isListed = false := decide_eq_false fun hn => hl.elim hn.1 hn.2
    rw [if_pos hl, hlisted]
    rfl
  · have hlisted : r.isListed = true := decide_eq_true (not_or.mp hl)
    rw [if_neg hl, hlisted]
    rfl

/-- The listed resources with their places. -/
def listedFrom (start : Nat) (resources : List NewResource) : List (NewResource × Nat) :=
  (placesFrom start resources).filter fun p => p.1.isListed

theorem map_fst_listedFrom (start : Nat) (resources : List NewResource) :
    (listedFrom start resources).map Prod.fst = listed resources := by
  conv_rhs => rw [← map_fst_placesFrom start resources, listed, List.filter_map]
  rfl

/-- The resources that are read, in the order in which they were written. -/
def storedFrom (start : Nat) (resources : List NewResource) : List Resource :=
  (listedFrom start resources).map fun p => p.1.storedAt p.2

theorem storedFrom_cons (start : Nat) (r : NewResource) (resources : List NewResource) :
    storedFrom start (r :: resources) =
      if r.isListed then r.storedAt start :: storedFrom (start + r.content.length) resources
      else storedFrom (start + r.content.length) resources := by
  unfold storedFrom listedFrom
  rw [placesFrom_cons, List.filter_cons]
  cases r.isListed <;> rfl

/-- Reading goes through the slots in order; `front` is what stands before the first of the
locations. -/
theorem readModules_locationsFrom {texts : List String} {resources : List NewResource}
    {offset : Nat} (h : ∀ p ∈ placesFrom offset resources, p.1.Readable texts p.2) (front : Bytes)
    (modules : Modules) :
    readModules (front ++ (locationsFrom texts offset resources).flatten)
        (stringTable texts) modules
        (startsFrom front.length ((locationsFrom texts offset resources).map List.length)) =
      .ok ((storedFrom offset resources).foldl addResource modules) := by
  induction resources generalizing offset front modules with
  | nil => rfl
  | cons r resources ih =>
    rw [placesFrom_cons] at h
    have hr : r.Readable texts offset := h (r, offset) List.mem_cons_self
    have hrest : ∀ p ∈ placesFrom (offset + r.content.length) resources, p.1.Readable texts p.2 :=
      fun p hp => h p (List.mem_cons_of_mem _ hp)
    rw [locationsFrom, List.flatten_cons, List.map_cons, startsFrom, readModules,
      readResource_encodeLocation hr List.drop_left]
    -- the location that has been read joins what stands before the others
    have hstart : front.length + (encodeLocation (attributesOf texts r offset)).length =
        (front ++ encodeLocation (attributesOf texts r offset)).length := List.length_append.symm
    rw [hstart, ← List.append_assoc]
    by_cases hl : r.isListed = true
    · rw [if_pos hl, storedFrom_cons, if_pos hl]
      exact ih hrest _ _
    · rw [if_neg hl, storedFrom_cons, if_neg hl]
      exact ih hrest _ _

end ModuleAtlas.Image
