import ModuleAtlas.Proofs.Image.Tables
import ModuleAtlas.Proofs.Image.Words
import ModuleAtlas.Proofs.Steps
import ModuleAtlas.Proofs.Files.Locate

/-! # Where resources are read

A resource starts at its offset behind the index, and the sum of the two is a position in the file.
The values of an image have at most eight bytes, and positions have as many
(`Resource.isBounded_of_readResource`).  The sum may need one more, and then it starts over: an
offset that is short of the last position by less than the index is long leads back into header and
index (`RuntimeImage.readsAt_of_openFile`).  All other resources are read at their place or not at
all.

The length of a resource is a value like the offset.  If no buffer can be that long, then the call
that reads the resource is broken off before any place is looked at.
-/
namespace ModuleAtlas
open Steps

/-! ## Numbers of a given width -/

namespace Binary

theorem ByteOrder.value_lt (order : ByteOrder) (bytes : Bytes) :
    order.value bytes < Nat.pow 256 bytes.length := by
  cases order with
  | little => exact littleEndian_lt bytes
  | big => exact bigEndian_lt bytes

/-- No number of fewer bytes is too great. -/
theorem lt_pow_of_length_le {bytes : Bytes} {n width : Nat} (h : n < Nat.pow 256 bytes.length)
    (hle : bytes.length ≤ width) : n < Nat.pow 256 width :=
  Nat.lt_of_lt_of_le h (Nat.pow_le_pow_right (by decide) hle)

/-- A part of some bytes is what they begin with from its position on. -/
theorem slice?_eq_some_iff {bytes part : Bytes} {start length : Nat} :
    slice? bytes start length = some part ↔ part <+: bytes.drop start ∧ part.length = length := by
  rw [slice?, take?_eq]
  constructor
  · intro h
    split at h
    · next hle =>
      obtain rfl := Option.some.inj h
      exact ⟨List.take_prefix _ _, List.length_take_of_le hle⟩
    · cases h
  · rintro ⟨hbegins, rfl⟩
    rw [if_pos hbegins.length_le, Option.map_some, ← List.prefix_iff_eq_take.mp hbegins]

end Binary

namespace Image

/-! ## Values of locations -/

/-- Positions are counted up to this, and then from zero again. -/
def positionSpan : Nat := 0x10000000000000000

theorem value_lt_of_decodeAttributes {bytes : Bytes} {attributes : List Attribute}
    (h : decodeAttributes bytes = .ok attributes) : ∀ a ∈ attributes, a.value < positionSpan := by
  induction bytes using decodeAttributes.induct generalizing attributes with
  | case1 =>
    rw [decodeAttributes] at h
    cases h
  | case2 b rest hend =>
    rw [decodeAttributes, if_pos hend] at h
    obtain rfl := Except.ok.inj h
    exact fun a ha => absurd ha List.not_mem_nil
  | case3 b rest hkind hshort =>
    rw [decodeAttributes, if_neg hkind, hshort] at h
    cases h
  | case4 b rest hkind value behind hvalue e hmore ih =>
    rw [decodeAttributes, if_neg hkind, hvalue, hmore] at h
    cases h
  | case5 b rest hkind value behind hvalue more hmore ih =>
    rw [decodeAttributes, if_neg hkind, hvalue, hmore] at h
    obtain rfl := Except.ok.inj h
    have hlength : value.length ≤ 8 := by
      rw [Binary.take?_eq] at hvalue
      split at hvalue
      · obtain ⟨rfl, -⟩ := Prod.mk.inj (Option.some.inj hvalue)
        rw [List.length_take]
        omega
      · cases hvalue
    intro a ha
    rcases List.mem_cons.mp ha with rfl | ha
    · exact Binary.lt_pow_of_length_le (Binary.bigEndian_lt value) hlength
    · exact ih hmore a ha

theorem valueOf_lt {attributes : List Attribute} (h : ∀ a ∈ attributes, a.value < positionSpan)
    (kind : Nat) : valueOf attributes kind < positionSpan := by
  unfold valueOf
  cases hfind : attributes.reverse.find? fun a => a.kind == kind with
  | none =>
    show 0 < positionSpan
    decide
  | some a => exact h a (List.mem_reverse.mp (List.mem_of_find?_eq_some hfind))

/-- A location whose values have a place in eight bytes. -/
structure Location.IsBounded (location : Location) : Prop where
  offset : location.offset < positionSpan
  uncompressed : location.uncompressed < positionSpan

theorem Resource.isBounded_of_readResource {locations strings : Bytes} {position : Nat}
    {r : Resource} (h : readResource locations strings position = .ok (some r)) :
    r.location.IsBounded := by
  obtain ⟨attributes, hattributes, h⟩ := bind_eq_ok_iff.mp h
  have hvalues := valueOf_lt (value_lt_of_decodeAttributes hattributes)
  obtain ⟨module, -, h⟩ := bind_eq_ok_iff.mp h
  split at h
  · cases h
  · obtain ⟨parent, -, h⟩ := bind_eq_ok_iff.mp h
    obtain ⟨base, -, h⟩ := bind_eq_ok_iff.mp h
    obtain ⟨extension, -, h⟩ := bind_eq_ok_iff.mp h
    obtain rfl := Option.some.inj (Except.ok.inj h)
    exact ⟨hvalues offsetKind, hvalues uncompressedKind⟩

/-- The table of an image is made of the resources of its slots. -/
theorem exists_of_readModules {locations strings : Bytes} {modules table : Modules}
    {positions : List Nat} (h : readModules locations strings modules positions = .ok table) :
    ∃ resources : List Resource, table = resources.foldl addResource modules ∧
      ∀ r ∈ resources, ∃ position ∈ positions,
        readResource locations strings position = .ok (some r) := by
  induction positions generalizing modules with
  | nil =>
    obtain rfl := Except.ok.inj h
    exact ⟨[], rfl, fun r hr => absurd hr List.not_mem_nil⟩
  | cons position positions ih =>
    obtain ⟨found, hfound, h⟩ := bind_eq_ok_iff.mp h
    cases found with
    | none =>
      obtain ⟨resources, htable, hread⟩ := ih h
      refine ⟨resources, htable, fun r hr => ?_⟩
      obtain ⟨p, hp, hr⟩ := hread r hr
      exact ⟨p, List.mem_cons_of_mem position hp, hr⟩
    | some first =>
      obtain ⟨resources, htable, hread⟩ := ih h
      refine ⟨first :: resources, htable, fun r hr => ?_⟩
      rcases List.mem_cons.mp hr with rfl | hr
      · exact ⟨position, List.mem_cons_self, hfound⟩
      · obtain ⟨p, hp, hr⟩ := hread r hr
        exact ⟨p, List.mem_cons_of_mem position hp, hr⟩

/-! ## The index -/

theorem word_lt (order : Binary.ByteOrder) (bytes : Bytes) (start : Nat) :
    word order bytes start < wordLimit := by
  have hlength : ((bytes.drop start).take 4).length ≤ 4 := List.length_take_le _ _
  exact Binary.lt_pow_of_length_le (order.value_lt _) hlength

/-- The sizes in a header are words, so the index ends long before positions start over. -/
theorem indexSize_lt_of_readHeader {order : Binary.ByteOrder} {bytes : Bytes} {header : Header}
    (h : readHeader order bytes = .ok header) : header.indexSize < maxPosition := by
  unfold readHeader at h
  dsimp only at h
  split at h
  · obtain rfl := Except.ok.inj h
    have htable := word_lt order bytes 16
    have hlocations := word_lt order bytes 20
    have hstrings := word_lt order bytes 24
    unfold wordLimit at htable hlocations hstrings
    unfold Header.indexSize Header.stringsStart Header.locationsStart Header.offsetsStart headerSize
      maxPosition
    dsimp only
    omega
  · cases h

/-- What is known of an index that has been read. -/
structure IsIndexOf (content : Bytes) (header : Header) (modules : Modules) : Prop where
  size_lt : header.indexSize < maxPosition
  size_le : header.indexSize ≤ content.length
  bounded : ∀ m e location, (entriesOf modules m).find? e = some location → location.IsBounded

/-- An index is read if each of its parts is. -/
theorem readIndex_eq_of_parts {content : Bytes} {order : Binary.ByteOrder} {header : Header}
    {modules : Modules} (hbegin : headerSize ≤ content.length)
    (horder : byteOrder content = .ok order) (hheader : readHeader order content = .ok header)
    (hindex : header.indexSize ≤ content.length)
    (hmodules : readModules ((content.drop header.locationsStart).take header.locationsSize)
      ((content.drop header.stringsStart).take header.stringsSize) ∅
      (readTable order header.tableLength (content.drop header.offsetsStart)) = .ok modules) :
    readIndex content = .ok (header, modules) := by
  have hlength : (content.take headerSize).length = headerSize := List.length_take_of_le hbegin
  simp only [readIndex, if_neg (not_not_intro hlength), horder, hheader,
    if_neg (Nat.not_lt.mpr hindex), hmodules, bind, Except.bind, pure, Except.pure]

theorem isIndexOf_of_readIndex {content : Bytes} {header : Header} {modules : Modules}
    (h : readIndex content = .ok (header, modules)) : IsIndexOf content header modules := by
  unfold readIndex at h
  split at h
  · cases h
  · obtain ⟨order, -, h⟩ := bind_eq_ok_iff.mp h
    obtain ⟨read, hheader, h⟩ := bind_eq_ok_iff.mp h
    split at h
    · cases h
    · next hlong =>
      obtain ⟨table, htable, he⟩ := bind_eq_ok_iff.mp h
      obtain ⟨rfl, rfl⟩ := Prod.mk.inj (Except.ok.inj he)
      refine ⟨indexSize_lt_of_readHeader hheader, Nat.le_of_not_lt hlong, ?_⟩
      intro m e location hfind
      obtain ⟨resources, rfl, hread⟩ := exists_of_readModules htable
      rw [find?_entriesOf] at hfind
      obtain ⟨r, hr, rfl⟩ := Option.map_eq_some_iff.mp hfind
      obtain ⟨position, -, hr⟩ := hread r (List.mem_reverse.mp (List.mem_of_find?_eq_some hr))
      exact Resource.isBounded_of_readResource hr

end Image

/-! ## Reading -/

namespace RuntimeImage
open Image

/-- An opened image is the content of a file together with its index. -/
theorem openFile_eq_ok_iff {tree : FileTree} {handle : Handle} {path : Path}
    {image : RuntimeImage} :
    openFile tree handle path = .ok image ↔
      ∃ content header modules, tree.status path = .ok (.file content) ∧
        readIndex content = .ok (header, modules) ∧
        image = { path, header, modules, content, handle } := by
  unfold openFile
  cases hstatus : tree.status path with
  | error e => exact iff_of_false nofun (by simp)
  | ok node =>
    cases node with
    | folder inner => exact iff_of_false nofun (by simp)
    | link target => exact iff_of_false nofun (by simp)
    | file content =>
      dsimp only
      rw [bind_eq_ok_iff]
      constructor
      · rintro ⟨⟨header, modules⟩, hindex, he⟩
        exact ⟨content, header, modules, rfl, hindex, (Except.ok.inj he).symm⟩
      · rintro ⟨content', header, modules, hcontent, hindex, rfl⟩
        obtain rfl := Node.file.inj (Except.ok.inj hcontent)
        exact ⟨(header, modules), hindex, rfl⟩

/-- What reading an entry comes to that has a length and a position in the file. -/
structure ReadsAt (image : RuntimeImage) (m e : String) (start length : Nat) : Prop where
  /-- It gives as many bytes of the file as are asked for, from the position on, as long as the image
  is open, a buffer can be that long and the position is one to read from.  It gives nothing else. -/
  found_iff : ∀ closed found, image.read closed m e = .ok found ↔
    closed.contains image.handle = false ∧ length < Binary.bufferBound ∧ start < maxPosition ∧
      ∃ bytes, found = some bytes ∧ bytes <+: image.content.drop start ∧ bytes.length = length
  /-- It is broken off if the image is open and no buffer can be that long.  In all other cases it
  gives an answer. -/
  overlong_iff : ∀ closed, image.read closed m e = .error .overlong ↔
    closed.contains image.handle = false ∧ Binary.bufferBound ≤ length

theorem readLocation_eq_ok_iff {header : Header} {content bytes : Bytes}
    {location : Image.Location} :
    readLocation header content location = .ok bytes ↔
      location.uncompressed < Binary.bufferBound ∧ startOf header location < maxPosition ∧
        bytes <+: content.drop (startOf header location) ∧
        bytes.length = location.uncompressed := by
  rw [readLocation, ← Binary.slice?_eq_some_iff]
  by_cases hlong : Binary.bufferBound ≤ location.uncompressed
  · rw [if_pos hlong]
    exact iff_of_false nofun fun h => absurd h.1 (Nat.not_lt.mpr hlong)
  rw [if_neg hlong, and_iff_right (Nat.lt_of_not_le hlong)]
  by_cases hfar : maxPosition ≤ startOf header location
  · rw [if_pos hfar]
    exact iff_of_false nofun fun h => absurd h.1 (Nat.not_lt.mpr hfar)
  rw [if_neg hfar, and_iff_right (Nat.lt_of_not_le hfar)]
  cases Binary.slice? content (startOf header location) location.uncompressed with
  | none => exact iff_of_false nofun nofun
  | some part => exact ⟨fun h => congrArg some (Except.ok.inj h), fun h => congrArg Except.ok
      (Option.some.inj h)⟩

theorem readLocation_eq_overlong_iff {header : Header} {content : Bytes}
    {location : Image.Location} :
    readLocation header content location = .error .overlong ↔
      Binary.bufferBound ≤ location.uncompressed := by
  rw [readLocation]
  by_cases hlong : Binary.bufferBound ≤ location.uncompressed
  · rw [if_pos hlong]
    exact iff_of_true rfl hlong
  rw [if_neg hlong]
  refine iff_of_false (fun h => ?_) hlong
  split at h
  · cases h
  · split at h <;> cases h

theorem readsAt_startOf {image : RuntimeImage} {m e : String} {location : Image.Location}
    (hfind : image.find? m e = some location) (hplain : location.compressed = 0) :
    image.ReadsAt m e (startOf image.header location) location.uncompressed := by
  have hread : ∀ closed, image.read closed m e =
      if closed.contains image.handle then .error (.io (.other "runtime image has been closed"))
      else (readLocation image.header image.content location).map some := by
    intro closed
    rw [read, hfind]
    exact if_neg (not_not_intro hplain)
  constructor
  case found_iff =>
    intro closed found
    rw [hread]
    by_cases hclosed : closed.contains image.handle = true
    · rw [if_pos hclosed, hclosed]
      exact iff_of_false nofun fun h => absurd h.1 nofun
    rw [if_neg hclosed, and_iff_right (Bool.eq_false_iff.mpr hclosed), map_eq_ok_iff]
    simp only [readLocation_eq_ok_iff]
    constructor
    · rintro ⟨bytes, ⟨hlong, hfar, hbytes⟩, rfl⟩
      exact ⟨hlong, hfar, bytes, rfl, hbytes⟩
    · rintro ⟨hlong, hfar, bytes, rfl, hbytes⟩
      exact ⟨bytes, ⟨hlong, hfar, hbytes⟩, rfl⟩
  case overlong_iff =>
    intro closed
    rw [hread]
    by_cases hclosed : closed.contains image.handle = true
    · rw [if_pos hclosed, hclosed]
      exact iff_of_false nofun fun h => absurd h.1 nofun
    have hoverlong : readLocation image.header image.content location = .error .overlong ↔ _ :=
      readLocation_eq_overlong_iff
    rw [if_neg hclosed, and_iff_right (Bool.eq_false_iff.mpr hclosed), ← hoverlong]
    cases readLocation image.header image.content location <;> simp [Except.map]

theorem isIndexOf_of_openFile {tree : FileTree} {handle : Handle} {path : Path}
    {image : RuntimeImage} (h : openFile tree handle path = .ok image) :
    tree.status path = .ok (.file image.content) ∧
      IsIndexOf image.content image.header image.modules := by
  obtain ⟨content, header, modules, hstatus, hindex, rfl⟩ := openFile_eq_ok_iff.mp h
  exact ⟨hstatus, isIndexOf_of_readIndex hindex⟩

/-- **Resources are read at their place.**  An opened image holds the content of a file, which
begins with header and index.  A resource that is not compressed is read from where its offset leads
to behind them, or not at all, unless that place is beyond what positions can tell.  Then the
position starts over, and the resource is read from somewhere in header and index.  In either case
the call gives an answer, if only that the resource cannot be read, unless no buffer can hold the
resource; then it is broken off. -/
theorem readsAt_of_openFile {tree : FileTree} {handle : Handle} {path : Path}
    {image : RuntimeImage} (h : openFile tree handle path = .ok image) {m e : String}
    {location : Image.Location} (hfind : image.find? m e = some location)
    (hplain : location.compressed = 0) :
    tree.status path = .ok (.file image.content) ∧
      image.header.indexSize ≤ image.content.length ∧
      (image.header.indexSize + location.offset < positionSpan →
        image.ReadsAt m e (image.header.indexSize + location.offset) location.uncompressed) ∧
      (positionSpan ≤ image.header.indexSize + location.offset →
        ∃ start < image.header.indexSize,
          start + positionSpan = image.header.indexSize + location.offset ∧
            image.ReadsAt m e start location.uncompressed) := by
  obtain ⟨hstatus, hindex⟩ := isIndexOf_of_openFile h
  have hread := readsAt_startOf hfind hplain
  have hplace : startOf image.header location =
      (image.header.indexSize + location.offset) % positionSpan := rfl
  refine ⟨hstatus, hindex.size_le, ?_, ?_⟩
  · intro hwithin
    rwa [hplace, Nat.mod_eq_of_lt hwithin] at hread
  · intro hbeyond
    -- the sum passes the span once, for each of its parts stays below it
    have hoffset : location.offset < positionSpan := by
      rw [find?_eq] at hfind
      exact (hindex.bounded m e location hfind).offset
    have hsize : image.header.indexSize < positionSpan :=
      Nat.lt_trans hindex.size_lt (by decide)
    have hshort : image.header.indexSize + location.offset - positionSpan < positionSpan := by
      omega
    rw [hplace, Nat.mod_eq_sub_mod hbeyond, Nat.mod_eq_of_lt hshort] at hread
    exact ⟨_, by omega, Nat.sub_add_cancel hbeyond, hread⟩

end RuntimeImage

namespace Shop
open Image

/-- The texts of an image with a resource behind its index, and with another one whose place is
beyond all positions. -/
def depotTexts : Bytes := stringTable ["depot", "near", "far"]

/-- The locations of the two resources. -/
def depotLocations : List Bytes := [
  encodeLocation [⟨moduleKind, 1⟩, ⟨baseKind, 7⟩, ⟨uncompressedKind, 1⟩],
  encodeLocation [⟨moduleKind, 1⟩, ⟨baseKind, 12⟩, ⟨offsetKind, positionSpan - 83⟩,
    ⟨uncompressedKind, 4⟩]]

/-- The image. -/
def depot : Bytes :=
  [magic, supportedMajor * 0x10000, 0, 2, 2, 23, 16, 0, 0, 0, 7].flatMap
      (Binary.ByteOrder.big.write 4) ++
    depotLocations.flatten ++ depotTexts ++ [7]

/-- The image when it is open. -/
def depotImage : RuntimeImage where
  path := ⟨"/depot"⟩
  header := ⟨1, 0, 0, 2, 2, 23, 16⟩
  modules := addResource (addResource ∅ ⟨"depot", "near", ⟨0, 0, 1⟩⟩)
    ⟨"depot", "far", ⟨positionSpan - 83, 0, 4⟩⟩
  content := depot
  handle := default

/-- A file tree with the image. -/
def depotTree : FileTree where
  root := .file "depot" depot .empty

/-- The parts of the file. -/
theorem parts_depot :
    depot.length = 84 ∧ byteOrder depot = .ok .big ∧
      readHeader .big depot = .ok depotImage.header ∧
      readTable .big 2 (depot.drop 36) = [0, 7] ∧
      (depot.drop 44).take 23 = depotLocations.flatten ∧ (depot.drop 67).take 16 = depotTexts ∧
      readResource depotLocations.flatten depotTexts 0 =
        .ok (some ⟨"depot", "near", ⟨0, 0, 1⟩⟩) ∧
      readResource depotLocations.flatten depotTexts 7 =
        .ok (some ⟨"depot", "far", ⟨positionSpan - 83, 0, 4⟩⟩) := by
  decide +kernel

theorem readModules_depot :
    readModules depotLocations.flatten depotTexts ∅ [0, 7] = .ok depotImage.modules := by
  obtain ⟨-, -, -, -, -, -, hnear, hfar⟩ := parts_depot
  rw [readModules, hnear]
  dsimp only [bind, Except.bind]
  rw [readModules, hfar]
  dsimp only [bind, Except.bind]
  rw [readModules, depotImage]

theorem readIndex_depot : readIndex depot = .ok (depotImage.header, depotImage.modules) := by
  obtain ⟨hlength, horder, hheader, hpositions, hlocations, htexts, -, -⟩ := parts_depot
  refine readIndex_eq_of_parts (by rw [hlength]; decide) horder hheader
    (by rw [hlength]; decide) ?_
  show readModules ((depot.drop 44).take 23) ((depot.drop 67).take 16) ∅
    (readTable .big 2 (depot.drop 36)) = _
  rw [hpositions, hlocations, htexts, readModules_depot]

/-- A file tree with any file in place of the image. -/
def depotTreeOf (content : Bytes) : FileTree where
  root := .file "depot" content .empty

theorem status_depotTreeOf (content : Bytes) :
    (depotTreeOf content).status ⟨"/depot"⟩ = .ok (.file content) :=
  FileTree.status_root_item (by decide : IsName "depot") rfl nofun

theorem status_depot : depotTree.status ⟨"/depot"⟩ = .ok (.file depot) := status_depotTreeOf depot

theorem openFile_depot : RuntimeImage.openFile depotTree default ⟨"/depot"⟩ = .ok depotImage :=
  RuntimeImage.openFile_eq_ok_iff.mpr ⟨depot, _, _, status_depot, readIndex_depot, rfl⟩

/-- The near resource is read at its place, behind 83 bytes of header and index.  The place of the
far one is where positions start over, and it is read from the start of the file. -/
theorem readsAt_depot :
    depotImage.find? "depot" "near" = some ⟨0, 0, 1⟩ ∧
      depotImage.find? "depot" "far" = some ⟨positionSpan - 83, 0, 4⟩ ∧
      depotImage.ReadsAt "depot" "near" 83 1 ∧ depotImage.ReadsAt "depot" "far" 0 4 := by
  have hnear : depotImage.find? "depot" "near" = some ⟨0, 0, 1⟩ := by decide
  have hfar : depotImage.find? "depot" "far" = some ⟨positionSpan - 83, 0, 4⟩ := by decide
  obtain ⟨-, -, hwithin, -⟩ := RuntimeImage.readsAt_of_openFile openFile_depot hnear rfl
  obtain ⟨-, -, -, hbeyond⟩ := RuntimeImage.readsAt_of_openFile openFile_depot hfar rfl
  obtain ⟨start, -, hstart, hread⟩ := hbeyond (by decide)
  have hzero : start = 0 := by
    change start + positionSpan = 83 + (positionSpan - 83) at hstart
    have hspan : 83 ≤ positionSpan := by decide
    omega
  subst hzero
  exact ⟨hnear, hfar, hwithin (by decide), hread⟩

/-- What is read of a resource is not always what follows the index at its offset: of the far
resource the mark is read with which the file begins. -/
theorem not_reads_behind_index :
    ¬ ∀ (tree : FileTree) (handle : Handle) (path : Path) (image : RuntimeImage),
        RuntimeImage.openFile tree handle path = .ok image →
          ∀ m e location, image.find? m e = some location → location.compressed = 0 →
            ∀ closed bytes, image.read closed m e = .ok (some bytes) →
              bytes <+: image.content.drop (image.header.indexSize + location.offset) ∧
                bytes.length = location.uncompressed := by
  intro h
  have hfar : depotImage.find? "depot" "far" = some ⟨positionSpan - 83, 0, 4⟩ := by decide
  have hread : depotImage.read {} "depot" "far" = .ok (some (Binary.toBigEndian 4 magic)) :=
    ((RuntimeImage.readsAt_startOf hfar rfl).found_iff {} _).mpr
      ⟨rfl, by decide, by decide, _, rfl, List.prefix_append _ _, rfl⟩
  obtain ⟨hbytes, -⟩ := h depotTree default ⟨"/depot"⟩ depotImage openFile_depot "depot" "far"
    ⟨positionSpan - 83, 0, 4⟩ hfar rfl {} _ hread
  have hlength : depotImage.content.length = 84 := parts_depot.1
  have hbehind : depotImage.content.drop (83 + (positionSpan - 83)) = [] := by
    apply List.drop_eq_nil_of_le
    rw [hlength]
    decide
  change _ <+: depotImage.content.drop (83 + (positionSpan - 83)) at hbytes
  rw [hbehind] at hbytes
  exact absurd (List.prefix_nil.mp hbytes) (by decide)

/-- An image with a resource that no buffer can hold. -/
def cask : Bytes :=
  [magic, supportedMajor * 0x10000, 0, 1, 1, 14, 11, 0, 0].flatMap
      (Binary.ByteOrder.big.write 4) ++
    encodeLocation [⟨moduleKind, 1⟩, ⟨baseKind, 6⟩, ⟨uncompressedKind, Binary.bufferBound⟩] ++
    stringTable ["cask", "deep"]

/-- The image when it is open. -/
def caskImage (path : Path) (handle : Handle) : RuntimeImage where
  path := path
  header := ⟨1, 0, 0, 1, 1, 14, 11⟩
  modules := addResource ∅ ⟨"cask", "deep", ⟨0, 0, Binary.bufferBound⟩⟩
  content := cask
  handle := handle

theorem openFile_cask {tree : FileTree} {path : Path} (h : tree.status path = .ok (.file cask))
    (handle : Handle) :
    RuntimeImage.openFile tree handle path = .ok (caskImage path handle) := by
  have hparts : cask.length = 61 ∧ byteOrder cask = .ok .big ∧
      readHeader .big cask = .ok ⟨1, 0, 0, 1, 1, 14, 11⟩ ∧
      readTable .big 1 (cask.drop 32) = [0] ∧
      readResource ((cask.drop 36).take 14) ((cask.drop 50).take 11) 0 =
        .ok (some ⟨"cask", "deep", ⟨0, 0, Binary.bufferBound⟩⟩) := by
    decide +kernel
  obtain ⟨hlength, horder, hheader, hpositions, hdeep⟩ := hparts
  refine RuntimeImage.openFile_eq_ok_iff.mpr ⟨cask, _, _, h,
    readIndex_eq_of_parts (by rw [hlength]; decide) horder hheader (by rw [hlength]; decide) ?_,
    rfl⟩
  show readModules ((cask.drop 36).take 14) ((cask.drop 50).take 11) ∅
    (readTable .big 1 (cask.drop 32)) = _
  rw [hpositions, readModules, hdeep]
  rfl

/-- The call that reads this resource is broken off. -/
theorem read_cask (path : Path) {handle : Handle} {closed : Closed}
    (hopen : closed.contains handle = false) :
    (caskImage path handle).read closed "cask" "deep" = .error .overlong := by
  have hdeep : (caskImage path handle).find? "cask" "deep" = some ⟨0, 0, Binary.bufferBound⟩ :=
    rfl
  exact ((RuntimeImage.readsAt_startOf hdeep rfl).overlong_iff closed).mpr ⟨hopen, Nat.le_refl _⟩

end Shop
end ModuleAtlas
