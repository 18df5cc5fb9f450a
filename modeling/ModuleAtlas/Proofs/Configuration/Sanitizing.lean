import ModuleAtlas.Proofs.Configuration.Homes

/-! # Sanitizing is not seen

A sanitized descriptor is what the analysis of dependencies needs of a descriptor.  So in a family
of modules any of the descriptors may be sanitized, all or none, or just some of those that share a
name.  The family has the default roots that it had (`defaultRoots_of_forall₂`), and over layers of
such families resolution has the outcome that it had (`Finder.related_stack`).  This is put together
with the laws of sanitizing in `sanitized_invisible`.
-/
namespace ModuleAtlas
open Steps

/-- A reference to a module whose descriptor may have been sanitized.  The module is where it was. -/
structure ModuleReference.MaybeSanitized (r r' : ModuleReference) : Prop where
  descriptor : r.descriptor.MaybeSanitized r'.descriptor
  location : r.location = r'.location

theorem ModuleReference.MaybeSanitized.alike {r r' : ModuleReference} (h : r.MaybeSanitized r') :
    r.Alike r' :=
  ⟨h.descriptor.name_eq, h.descriptor.requires_eq⟩

theorem Finder.related_stack {layers layers' : List (List ModuleReference)}
    (h : List.Forall₂ (List.Forall₂ ModuleReference.MaybeSanitized) layers layers') :
    Related ModuleReference.MaybeSanitized (stack (layers.map ofList))
      (stack (layers'.map ofList)) := by
  intro n
  rw [find?_stack, find?_stack, List.findSome?_map, List.findSome?_map]
  refine findSome?_of_forall₂ (h.imp fun l l' hl => ?_)
  show Option.Rel _ ((ofList l).find? n) ((ofList l').find? n)
  rw [find?_ofList, find?_ofList]
  exact findName_of_forall₂ (fun _ _ hr => hr.alike) hl n

/-- What is seen of a graph: its modules in order, each with its name, its location and the names of
the modules that it reads. -/
def ResolvedGraph.outline (g : ResolvedGraph) : List (String × Location × List String) :=
  g.modules.map fun m => (m.reference.name, m.reference.location, m.reads)

theorem ResolvedGraph.Matches.outline_eq {g g' : ResolvedGraph}
    (h : g.Matches ModuleReference.MaybeSanitized g') : g.outline = g'.outline := by
  refine map_eq_map_of_forall₂ (h.imp fun m m' hm => ?_)
  obtain ⟨hreference, hreads⟩ := hm
  rw [hreference.alike.name, hreference.location, hreads]

/-- **Sanitizing is not seen by analysis.**  Sanitizing twice is sanitizing once, and packages of
entries are added before it or after it with the same result.  It leaves the packages alone of a
descriptor that was read.  Whichever descriptors of a family are sanitized, the default roots stay
as they are, for every aggregator; and whichever are sanitized in layers of such families, every set
of roots is resolved to modules of the same names in the same order, at the same locations and with
the same reads, or fails for the same reason. -/
theorem sanitized_invisible :
    (∀ d : ModuleDescriptor, d.sanitized.sanitized = d.sanitized ∧
      ∀ entries, (d.extendPackages entries).sanitized = d.sanitized.extendPackages entries) ∧
    (∀ bytes d, ClassFile.parseModuleInfo bytes = .ok d → d.sanitized.packages = d.packages) ∧
    (∀ family family' : List ModuleDescriptor,
      List.Forall₂ ModuleDescriptor.MaybeSanitized family family' →
      ∀ aggregator, defaultRoots family aggregator = defaultRoots family' aggregator) ∧
    ∀ layers layers' : List (List ModuleReference),
      List.Forall₂ (List.Forall₂ ModuleReference.MaybeSanitized) layers layers' →
      ∀ roots, (resolve (Finder.stack (layers.map Finder.ofList)) roots).map ResolvedGraph.outline =
        (resolve (Finder.stack (layers'.map Finder.ofList)) roots).map ResolvedGraph.outline := by
  refine ⟨fun d => ⟨d.sanitized_sanitized, d.sanitized_extendPackages⟩, ?_, ?_, ?_⟩
  · intro bytes d hparse
    exact ModuleDescriptor.packages_sanitized (ClassFile.holdsVisible_of_parseModuleInfo hparse)
  · exact fun family family' h aggregator => defaultRoots_of_forall₂ h aggregator
  · intro layers layers' h roots
    have hagree : Agree (ResolvedGraph.Matches ModuleReference.MaybeSanitized)
        (resolve (Finder.stack (layers.map Finder.ofList)) roots)
        (resolve (Finder.stack (layers'.map Finder.ofList)) roots) :=
      resolve_agree (fun _ _ hr => hr.alike) (Finder.related_stack h) roots
    exact hagree.map_eq_map fun _ _ hgraph => hgraph.outline_eq

namespace Shop

/-- The library, if it needed the program. -/
def circularLibrary : ModuleDescriptor :=
  { declaredLibrary with
    opens := [{ source := "base" }]
    mainClass := some "base.Main"
    requires := [{ name := "app" }] }

/-- The library and the program, the library in a layer of its own and twice. -/
def doubledLayers (library library' : ModuleDescriptor) : List (List ModuleReference) :=
  [[⟨library, .platform⟩, ⟨library', .platform⟩], [⟨programDescriptor, .platform⟩]]

/-- The library loses its version when it is sanitized, but the program is resolved as before; and a
circle stays a circle. -/
theorem sanitized_invisible_library :
    declaredLibrary.sanitized ≠ declaredLibrary ∧
    declaredLibrary.sanitized.packages = declaredLibrary.packages ∧
    defaultRoots [declaredLibrary.sanitized, programDescriptor] "java.se" = ["base"] ∧
    (resolve (Finder.stack ((doubledLayers declaredLibrary.sanitized declaredLibrary).map
      Finder.ofList)) (.ofList ["app"])).map ResolvedGraph.outline =
        .ok [("app", .platform, ["base"]), ("base", .platform, [])] ∧
    (resolve (Finder.stack ((doubledLayers circularLibrary.sanitized circularLibrary).map
      Finder.ofList)) (.ofList ["app"])).map ResolvedGraph.outline =
        .error (.cycle ["app", "base", "app"]) := by
  obtain ⟨-, hpackages, hroots, hresolve⟩ := sanitized_invisible
  have hlayers : ∀ d : ModuleDescriptor,
      List.Forall₂ (List.Forall₂ ModuleReference.MaybeSanitized) (doubledLayers d d)
        (doubledLayers d.sanitized d) := by
    intro d
    exact .cons (.cons ⟨.sanitized, rfl⟩ (.cons ⟨.kept, rfl⟩ .nil))
      (.cons (.cons ⟨.kept, rfl⟩ .nil) .nil)
  refine ⟨by decide, hpackages _ _ parse_library, ?_, ?_, ?_⟩
  · exact (hroots _ _ (.cons .sanitized (.cons .kept .nil)) "java.se").symm.trans (by decide)
  · exact (hresolve _ _ (hlayers declaredLibrary) (.ofList ["app"])).symm.trans (by cbv)
  · exact (hresolve _ _ (hlayers circularLibrary) (.ofList ["app"])).symm.trans (by cbv)

end Shop
end ModuleAtlas
