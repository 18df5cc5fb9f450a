import ModuleAtlas.Proofs.Files.Locate
import ModuleAtlas.Proofs.Image.Slots
import ModuleAtlas.Proofs.Image.Tables
import ModuleAtlas.Proofs.Image.Words

/-! # Reading a written image

A written image is made of parts that are counted separately: the words with the starts of the
locations, the locations with the positions of texts and contents, and the texts.  The contents
follow.  `Writable` says which resources an image can be written for.  The parts of such an image
are found at the places that its header tells (`Writable.readIndex_write`), so opening it gives back
the table of its resources, and reading an entry the content that was written.
-/
namespace ModuleAtlas.Image

open Binary (ByteOrder)

/-- Resources that an image can be written for.  No text holds the character that ends texts; no
entry is a file of the root folder written with the root; no file name ends with a dot; the sizes
of the tables fit into words; and there is no file that positions do not reach to the end of. -/
structure Writable (order : ByteOrder) (resources : List NewResource) : Prop where
  moduleText : ∀ r ∈ resources, '\x00' ∉ r.module.toList
  entryText : ∀ r ∈ resources, '\x00' ∉ r.entry.toList
  rooted : ∀ r ∈ resources, ∀ name, r.entry = "/" ++ name → '/' ∈ name.toList
  ending : ∀ r ∈ resources, r.entry.toList.getLast? ≠ some '.'
  slots : resources.length < wordLimit
  locations : (locationsFrom (textsOf resources) 0 resources).flatten.length < wordLimit
  strings : (stringTable (textsOf resources)).length < wordLimit
  file : (write order resources).length < maxPosition

/-- The words of a written image up to the starts of the locations: header and redirect table. -/
def frontWords (resources : List NewResource) : List Nat :=
  [magic, supportedMajor * 0x10000, 0, resources.length, resources.length,
    (locationsFrom (textsOf resources) 0 resources).flatten.length,
    (stringTable (textsOf resources)).length] ++
  List.replicate resources.length 0

/-- The starts of the locations. -/
def startWords (resources : List NewResource) : List Nat :=
  startsFrom 0 ((locationsFrom (textsOf resources) 0 resources).map List.length)

/-- The words of a written image. -/
def wordsOf (resources : List NewResource) : List Nat :=
  frontWords resources ++ startWords resources

theorem write_eq (order : ByteOrder) (resources : List NewResource) :
    write order resources = (wordsOf resources).flatMap (order.write 4) ++
      ((locationsFrom (textsOf resources) 0 resources).flatten ++
        (stringTable (textsOf resources) ++ resources.flatMap NewResource.content)) := by
  rw [← List.append_assoc, ← List.append_assoc]
  rfl

/-- The header of a written image. -/
def headerOf (resources : List NewResource) : Header where
  major := supportedMajor
  minor := 0
  flags := 0
  resourceCount := resources.length
  tableLength := resources.length
  locationsSize := (locationsFrom (textsOf resources) 0 resources).flatten.length
  stringsSize := (stringTable (textsOf resources)).length

theorem length_locationsFrom (texts : List String) (offset : Nat) (resources : List NewResource) :
    (locationsFrom texts offset resources).length = resources.length := by
  induction resources generalizing offset with
  | nil => rfl
  | cons r resources ih => rw [locationsFrom, List.length_cons, ih, List.length_cons]

theorem length_startsFrom (start : Nat) (lengths : List Nat) :
    (startsFrom start lengths).length = lengths.length := by
  induction lengths generalizing start with
  | nil => rfl
  | cons n lengths ih => rw [startsFrom, List.length_cons, ih, List.length_cons]

theorem le_of_mem_startsFrom {start n : Nat} {parts : List Bytes}
    (h : n ∈ startsFrom start (parts.map List.length)) : n ≤ start + parts.flatten.length := by
  induction parts generalizing start with
  | nil => exact absurd h List.not_mem_nil
  | cons part parts ih =>
    rw [List.map_cons, startsFrom] at h
    rw [List.flatten_cons, List.length_append]
    rcases List.mem_cons.mp h with rfl | h
    · exact Nat.le_add_right n _
    · have hn := ih h
      omega

theorem length_frontWords (resources : List NewResource) :
    (frontWords resources).length = 7 + resources.length := by
  rw [frontWords, List.length_append, List.length_replicate]
  rfl

theorem length_startWords (resources : List NewResource) :
    (startWords resources).length = resources.length := by
  rw [startWords, length_startsFrom, List.length_map, length_locationsFrom]

theorem length_wordsOf (resources : List NewResource) :
    (wordsOf resources).length = 7 + resources.length + resources.length := by
  rw [wordsOf, List.length_append, length_frontWords, length_startWords]

theorem indexSize_headerOf (resources : List NewResource) :
    (headerOf resources).indexSize = 4 * (wordsOf resources).length +
      (locationsFrom (textsOf resources) 0 resources).flatten.length +
      (stringTable (textsOf resources)).length := by
  rw [length_wordsOf]
  simp only [Header.indexSize, Header.stringsStart, Header.locationsStart, Header.offsetsStart,
    headerSize, headerOf]
  omega

theorem length_write_eq (order : ByteOrder) (resources : List NewResource) :
    (write order resources).length = (headerOf resources).indexSize +
      (resources.flatMap NewResource.content).length := by
  rw [write_eq, List.length_append, List.length_append, List.length_append, length_words,
    indexSize_headerOf]
  omega

/-- The contents stand behind the index. -/
theorem drop_indexSize (order : ByteOrder) (resources : List NewResource) :
    (write order resources).drop (headerOf resources).indexSize =
      resources.flatMap NewResource.content := by
  rw [write_eq, ← List.append_assoc, ← List.append_assoc]
  refine List.drop_left' ?_
  rw [List.length_append, List.length_append, length_words, indexSize_headerOf]

theorem locationsStart_headerOf (resources : List NewResource) :
    (headerOf resources).locationsStart = 4 * (wordsOf resources).length := by
  rw [length_wordsOf]
  simp only [Header.locationsStart, Header.offsetsStart, headerSize, headerOf]
  omega

theorem locations_write (order : ByteOrder) (resources : List NewResource) :
    ((write order resources).drop (headerOf resources).locationsStart).take
        (headerOf resources).locationsSize =
      (locationsFrom (textsOf resources) 0 resources).flatten := by
  rw [write_eq, List.drop_left' ((length_words _ _).trans (locationsStart_headerOf resources).symm)]
  exact List.take_left

theorem strings_write (order : ByteOrder) (resources : List NewResource) :
    ((write order resources).drop (headerOf resources).stringsStart).take
        (headerOf resources).stringsSize =
      stringTable (textsOf resources) := by
  have hfront : ((wordsOf resources).flatMap (order.write 4) ++
      (locationsFrom (textsOf resources) 0 resources).flatten).length =
      (headerOf resources).stringsStart := by
    rw [List.length_append, length_words, ← locationsStart_headerOf]
    rfl
  rw [write_eq, ← List.append_assoc, List.drop_left' hfront]
  exact List.take_left

/-- The starts of the locations stand behind the header and the redirect table. -/
theorem drop_offsetsStart (order : ByteOrder) (resources : List NewResource) :
    ∃ rest, (write order resources).drop (headerOf resources).offsetsStart =
      (startWords resources).flatMap (order.write 4) ++ rest := by
  have hfront : ((frontWords resources).flatMap (order.write 4)).length =
      (headerOf resources).offsetsStart := by
    rw [length_words, length_frontWords]
    simp only [Header.offsetsStart, headerSize, headerOf]
    omega
  rw [write_eq, wordsOf, List.flatMap_append, List.append_assoc, List.drop_left' hfront]
  exact ⟨_, rfl⟩

namespace Writable
variable {order : ByteOrder} {resources : List NewResource} (h : Writable order resources)
include h

theorem readHeader_write : readHeader order (write order resources) = .ok (headerOf resources) := by
  have hw : ∀ i n, (wordsOf resources)[i]? = some n → n < wordLimit →
      word order (write order resources) (4 * i) = n := by
    intro i n hi hn
    rw [write_eq]
    exact word_words _ hi hn
  have h1 : word order (write order resources) 4 = supportedMajor * 0x10000 :=
    hw 1 _ rfl (by decide)
  have h2 : word order (write order resources) 8 = 0 := hw 2 _ rfl (by decide)
  have h3 : word order (write order resources) 12 = _ := hw 3 _ rfl h.slots
  have h4 : word order (write order resources) 16 = _ := hw 4 _ rfl h.slots
  have h5 : word order (write order resources) 20 = _ := hw 5 _ rfl h.locations
  have h6 : word order (write order resources) 24 = _ := hw 6 _ rfl h.strings
  rw [readHeader, h1, h2, h3, h4, h5, h6]
  rfl

theorem zero_not_mem_texts {r : NewResource} (hr : r ∈ resources) {t : String} (ht : t ∈ r.texts) :
    '\x00' ∉ t.toList := by
  obtain ⟨hparent, hbase, hextension⟩ := ofEntry_subset r.entry
  have hentry := h.entryText r hr
  simp only [NewResource.texts, List.mem_cons, List.not_mem_nil, or_false] at ht
  rcases ht with rfl | rfl | rfl | rfl
  · exact h.moduleText r hr
  · exact fun hc => hentry (hparent hc)
  · exact fun hc => hentry (hbase hc)
  · exact fun hc => hentry (hextension hc)

theorem readable_of_mem_placesFrom {p : NewResource × Nat} (hp : p ∈ placesFrom 0 resources) :
    p.1.Readable (textsOf resources) p.2 := by
  have hr : p.1 ∈ resources := by
    rw [← map_fst_placesFrom 0 resources]
    exact List.mem_map_of_mem hp
  have htexts : ∀ t ∈ p.1.texts, t ≠ "" → t ∈ textsOf resources := by
    intro t ht hne
    refine mem_distinct.mpr (List.mem_filter.mpr ⟨?_, decide_eq_true hne⟩)
    exact List.mem_flatMap.mpr ⟨p.1, hr, ht⟩
  have hposition : ∀ t ∈ p.1.texts, textPosition (textsOf resources) t < Nat.pow 256 8 := by
    intro t ht
    have hlt := textPosition_lt (htexts t ht)
    exact Nat.lt_trans hlt (Nat.lt_trans h.strings (by decide))
  obtain ⟨front, back, hcontent, hplace⟩ := eq_append_of_mem_placesFrom hp
  have hfile := h.file
  rw [length_write_eq, hcontent, List.length_append, List.length_append] at hfile
  have hlimit : maxPosition < Nat.pow 256 8 := by decide
  refine ⟨?_, ?_, entryName_ofEntry (h.rooted p.1 hr) (h.ending p.1 hr)⟩
  · simp only [NewResource.texts, List.forall_mem_cons] at hposition
    obtain ⟨hm, hpa, hb, he, -⟩ := hposition
    simp only [fullAttributesOf, List.forall_mem_cons]
    exact ⟨hm, hpa, hb, he, by omega, by omega, fun _ hn => absurd hn List.not_mem_nil⟩
  · exact fun t ht => readString_textPosition (htexts t ht) (h.zero_not_mem_texts hr ht)

/-- Header and index are read back. -/
theorem readIndex_write : readIndex (write order resources) =
    .ok (headerOf resources, (storedFrom 0 resources).foldl addResource ∅) := by
  have hlength := length_write_eq order resources
  have hsize : headerSize ≤ (headerOf resources).indexSize := by
    simp only [Header.indexSize, Header.stringsStart, Header.locationsStart, Header.offsetsStart]
    omega
  have hheader : ((write order resources).take headerSize).length = headerSize :=
    List.length_take_of_le (by omega)
  have horder : byteOrder (write order resources) = .ok order := by
    rw [write_eq]
    exact byteOrder_words _ _
  obtain ⟨rest, hstarts⟩ := drop_offsetsStart order resources
  have hfits : ∀ n ∈ startWords resources, n < wordLimit := by
    intro n hn
    have hle := le_of_mem_startsFrom hn
    have hlimit := h.locations
    omega
  have hpositions : readTable order (headerOf resources).tableLength
      ((write order resources).drop (headerOf resources).offsetsStart) = startWords resources := by
    rw [hstarts, show (headerOf resources).tableLength = (startWords resources).length from
      (length_startWords resources).symm]
    exact readTable_words rest hfits
  have hmodules : readModules (locationsFrom (textsOf resources) 0 resources).flatten
      (stringTable (textsOf resources)) ∅ (startWords resources) =
      .ok ((storedFrom 0 resources).foldl addResource ∅) :=
    readModules_locationsFrom (fun p hp => h.readable_of_mem_placesFrom hp) [] ∅
  rw [readIndex, hheader]
  dsimp only [bind, Except.bind]
  rw [if_neg (not_not_intro rfl), horder]
  dsimp only
  rw [h.readHeader_write]
  dsimp only
  rw [if_neg (by omega), locations_write, strings_write, hpositions, hmodules]
  rfl

/-- The content of a resource is read from its place. -/
theorem readLocation_storedAt {p : NewResource × Nat} (hp : p ∈ placesFrom 0 resources) :
    readLocation (headerOf resources) (write order resources) (p.1.storedAt p.2).location =
      .ok p.1.content := by
  obtain ⟨front, back, hcontent, hplace⟩ := eq_append_of_mem_placesFrom hp
  rw [Nat.zero_add] at hplace
  have hfile := h.file
  rw [length_write_eq, hcontent, List.length_append, List.length_append] at hfile
  have hlimit : maxPosition < 0x10000000000000000 := by decide
  have hstart : startOf (headerOf resources) (p.1.storedAt p.2).location =
      (headerOf resources).indexSize + p.2 := by
    show ((headerOf resources).indexSize + p.2) % 0x10000000000000000 = _
    exact Nat.mod_eq_of_lt (by omega)
  have hdrop : (write order resources).drop ((headerOf resources).indexSize + p.2) =
      p.1.content ++ back := by
    rw [← List.drop_drop, drop_indexSize, hcontent, hplace, List.drop_left]
  have hslice : Binary.slice? (write order resources) ((headerOf resources).indexSize + p.2)
      p.1.content.length = some p.1.content := by
    rw [Binary.slice?, hdrop, Binary.take?_append]
    rfl
  have hbound : ¬ Binary.bufferBound ≤ p.1.content.length := by
    rw [show Binary.bufferBound = maxPosition from rfl]
    omega
  rw [readLocation, hstart,
    show (p.1.storedAt p.2).location.uncompressed = p.1.content.length from rfl, if_neg hbound,
    if_neg (by omega), hslice]

end Writable

/-! ## What an image gives back -/

/-- The listed resource of a name that was added last. -/
def lastAdded (resources : List NewResource) (m e : String) : Option NewResource :=
  (listed resources).reverse.find? fun r => r.module == m && r.entry == e

theorem map_module_storedFrom (start : Nat) (resources : List NewResource) :
    (storedFrom start resources).map Resource.module =
      (listed resources).map NewResource.module := by
  rw [storedFrom, ← map_fst_listedFrom start, List.map_map, List.map_map]
  rfl

theorem map_entry_storedFrom (start : Nat) (resources : List NewResource) (m : String) :
    ((storedFrom start resources).filter fun r => r.module == m).map Resource.entry =
      ((listed resources).filter fun r => r.module == m).map NewResource.entry := by
  rw [storedFrom, ← map_fst_listedFrom start, List.filter_map, List.filter_map, List.map_map,
    List.map_map]
  rfl

/-- The resource of a name that is found is the one that was added last, at its place. -/
theorem find?_storedFrom (start : Nat) (resources : List NewResource) (m e : String) :
    ∃ found : Option (NewResource × Nat), (∀ p ∈ found, p ∈ placesFrom start resources) ∧
      lastAdded resources m e = found.map Prod.fst ∧
      ((storedFrom start resources).reverse.find? fun r => r.module == m && r.entry == e) =
        found.map fun p => p.1.storedAt p.2 := by
  refine ⟨(listedFrom start resources).reverse.find? fun p => p.1.module == m && p.1.entry == e,
    ?_, ?_, ?_⟩
  · intro p hp
    exact (List.mem_filter.mp (List.mem_reverse.mp (List.mem_of_find?_eq_some hp))).1
  · rw [lastAdded, ← map_fst_listedFrom start, ← List.map_reverse, List.find?_map]
    rfl
  · rw [storedFrom, ← List.map_reverse, List.find?_map]
    rfl

/-- The image that a written file opens as. -/
def imageOf (order : ByteOrder) (resources : List NewResource) (path : Path) (handle : Handle) :
    RuntimeImage where
  path := path
  header := headerOf resources
  modules := (storedFrom 0 resources).foldl addResource ∅
  content := write order resources
  handle := handle

section
variable {order : ByteOrder} {resources : List NewResource}

theorem openFile_eq (h : Writable order resources) {tree : FileTree} {path : Path}
    (hfile : tree.status path = .ok (.file (write order resources))) (handle : Handle) :
    RuntimeImage.openFile tree handle path = .ok (imageOf order resources path handle) := by
  rw [RuntimeImage.openFile, hfile]
  dsimp only
  rw [h.readIndex_write]
  rfl

theorem moduleNames_imageOf (path : Path) (handle : Handle) :
    (imageOf order resources path handle).moduleNames =
      distinct ((listed resources).map NewResource.module) := by
  rw [← map_module_storedFrom 0]
  exact keys_modulesOf _

theorem entries_imageOf (path : Path) (handle : Handle) (m : String) :
    (imageOf order resources path handle).entries m =
      distinct (((listed resources).filter fun r => r.module == m).map NewResource.entry) := by
  rw [← map_entry_storedFrom 0]
  exact keys_entriesOf _ m

theorem read_imageOf (h : Writable order resources) (path : Path) {handle : Handle}
    {closed : Closed} (hopen : closed.contains handle = false) (m e : String) :
    (imageOf order resources path handle).read closed m e =
      .ok ((lastAdded resources m e).map NewResource.content) := by
  obtain ⟨found, hplaces, hlast, hfound⟩ := find?_storedFrom 0 resources m e
  have hfind : (imageOf order resources path handle).find? m e =
      (found.map fun p => p.1.storedAt p.2).map Resource.location := by
    rw [RuntimeImage.find?_eq, ← hfound]
    exact find?_entriesOf _ m e
  rw [RuntimeImage.read, hfind, hlast]
  cases found with
  | none => rfl
  | some p =>
    have hread : readLocation (imageOf order resources path handle).header
        (imageOf order resources path handle).content (p.1.storedAt p.2).location =
        .ok p.1.content := h.readLocation_storedAt (hplaces p rfl)
    have hstored : (p.1.storedAt p.2).location.compressed = 0 := rfl
    have hhandle : closed.contains (imageOf order resources path handle).handle = false := hopen
    dsimp only [Option.map_some]
    rw [if_neg (not_not_intro hstored), hhandle, hread]
    rfl

end
end ModuleAtlas.Image

namespace ModuleAtlas
open Image

/-- **A written image is read back.**  Whatever the byte order, the image opens.  Its modules are
those of the listed resources and the entries of a module are those of its resources, each where it
was added first.  Exactly these are contained, and while the image is open reading gives the content
that was added last under the name, and nothing for any other name. -/
theorem openFile_write {order : Binary.ByteOrder} {resources : List NewResource}
    (h : Writable order resources) {tree : FileTree} {path : Path}
    (hfile : tree.status path = .ok (.file (write order resources))) (handle : Handle) :
    ∃ image, RuntimeImage.openFile tree handle path = .ok image ∧
      image.moduleNames = distinct ((listed resources).map NewResource.module) ∧
      ∀ m, image.entries m = distinct
          (((listed resources).filter fun r => r.module == m).map NewResource.entry) ∧
        ∀ e, (image.contains m e = true ↔ e ∈ image.entries m) ∧
          ∀ closed : Closed, closed.contains handle = false →
            image.read closed m e = .ok ((lastAdded resources m e).map NewResource.content) := by
  refine ⟨imageOf order resources path handle, openFile_eq h hfile handle,
    moduleNames_imageOf path handle, fun m => ⟨entries_imageOf path handle m, fun e => ?_⟩⟩
  exact ⟨RuntimeImage.contains_iff, fun closed hopen => read_imageOf h path hopen m e⟩

namespace Shop

/-- Resources of two modules, one of them written twice, and two resources that are not listed. -/
def resources : List NewResource :=
  [⟨"base", "module-info.class", [1, 2]⟩, ⟨"base", "base/Item.class", [3]⟩,
    ⟨"packages", "base/base", []⟩, ⟨"app", "app/App.class", [4]⟩, ⟨"", "stray", [5]⟩,
    ⟨"base", "base/Item.class", [6, 7]⟩]

/-- A file tree with an image of these resources. -/
def imageTree : FileTree where
  root := .file "image" (write .big resources) .empty

theorem status_image : imageTree.status ⟨"/image"⟩ = .ok (.file (write .big resources)) :=
  FileTree.status_root_item (by decide : IsName "image") rfl nofun

theorem writable_resources : Writable .big resources where
  moduleText := by decide
  entryText := by decide
  rooted := by
    intro r hr name he
    have hhead : ∀ r ∈ resources, r.entry.toList.head? ≠ some '/' := by decide
    refine absurd ?_ (hhead r hr)
    rw [he, String.toList_append]
    rfl
  ending := by decide
  slots := by decide
  locations := by cbv
  strings := by cbv
  file := by cbv

/-- The entry that is written twice has the later content, and synthetic modules hold nothing. -/
theorem openFile_image :
    ∃ image, RuntimeImage.openFile imageTree default ⟨"/image"⟩ = .ok image ∧
      image.moduleNames = ["base", "app"] ∧
      image.entries "base" = ["module-info.class", "base/Item.class"] ∧
      image.contains "packages" "base/base" = false ∧
      image.read {} "base" "base/Item.class" = .ok (some [6, 7]) ∧
      image.read {} "app" "base/Item.class" = .ok none := by
  obtain ⟨image, hopen, hmodules, hentries⟩ :=
    openFile_write writable_resources status_image default
  refine ⟨image, hopen, hmodules.trans (by decide), (hentries "base").1.trans (by decide), ?_, ?_,
    ?_⟩
  · rw [Bool.eq_false_iff, ne_eq, ((hentries "packages").2 "base/base").1, (hentries "packages").1]
    decide
  · rw [((hentries "base").2 "base/Item.class").2 {} rfl]
    decide
  · rw [((hentries "app").2 "base/Item.class").2 {} rfl]
    decide

end Shop
end ModuleAtlas
