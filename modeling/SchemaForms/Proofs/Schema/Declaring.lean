import SchemaForms.Proofs.Duplicates
import SchemaForms.Proofs.Schema.Retrying

/-!
What loads declare. A load goes through the elements at the top of a document, and at the imports
among them through those of other documents; each element that declares a global one and can be read
is registered, one after the other, until the load ends or fails. Of the declarations of a name the
last one is kept, at the place of the first. The members of a substitution group are kept in another
way: a name that is declared under a head stays a member, also if its last declaration is under
another head or none.
-/

namespace SchemaForms

/-- The element declaration that a component is. -/
def Component.declaration? : Component → Option ElementDeclaration
  | .element declaration => some declaration
  | _ => none

namespace Loading

/-- The document that an element makes the loader load. -/
def followed? (schema : Xml.Element) (location : String) (element : Xml.Element)
    (loader : Loader) : Option SchemaSource :=
  match Import.ofElement element schema location with
  | .error _ => none
  | .ok reference =>
    reference.resolvedLocation?.bind fun target =>
      if (loader.loaded.lookup target).isSome then none
      else match firstAnswer? reference loader.resolvers with
        | .ok answer => answer
        | .error _ => none

/-- The declarations that an element at the top of a document registers. What an imported document
registers is given. -/
def registeredAt (inner : SchemaSource → Loader → List ElementDeclaration) (schema : Xml.Element)
    (location : String) (origin : Origin) (element : Xml.Element) (loader : Loader) :
    List ElementDeclaration :=
  if Import.isImportTag element.name.localName then
    match followed? schema location element loader with
    | some source => inner source loader
    | none => []
  else
    match ((Reading.component origin element).run.run loader.set.types).1 with
    | .ok component => component.declaration?.toList
    | .error _ => []

/-- The declarations that the elements at the top register, up to the first one that fails. -/
def registeredAll (load : SchemaSource → Loading DocumentId)
    (inner : SchemaSource → Loader → List ElementDeclaration) (schema : Xml.Element)
    (location : String) (origin : Origin) : List Xml.Element → Loader → List ElementDeclaration
  | [], _ => []
  | element :: others, loader =>
    registeredAt inner schema location origin element loader ++
      match (topElement load schema location origin element).run.run loader with
      | (.ok _, after) => registeredAll load inner schema location origin others after
      | (.error _, _) => []

/-- The declarations that the load of a document registers. -/
def registeredIn : Nat → SchemaSource → Loader → List ElementDeclaration
  | 0, _, _ => []
  | depth + 1, source, loader =>
    match loader.loaded.lookup source.location, source.root? loader.allowsDoctype with
    | none, some root =>
      registeredAll (document depth) (registeredIn depth) root source.location
        ⟨loader.set.documents.length, root.attribute? "targetNamespace",
          (documentOf source.location root).qualifiesElements⟩ root.children
        (loader.entering (documentOf source.location root))
    | _, _ => []

end Loading

namespace SchemaSet

/-- The schema has registered the declarations since, in their order. -/
structure Registers (declared : List ElementDeclaration) (before after : SchemaSet) : Prop where
  elements : after.elements =
    Keyed.putAll (declared.map fun declaration => (declaration.name, declaration)) before.elements
  members : after.members = declared.foldl membersWith before.members

variable {declared declared' : List ElementDeclaration} {before middle after : SchemaSet}

theorem registers_nothing (helements : after.elements = before.elements)
    (hmembers : after.members = before.members) : Registers [] before after :=
  ⟨helements, hmembers⟩

theorem Registers.append (h : Registers declared before middle)
    (hnext : Registers declared' middle after) :
    Registers (declared ++ declared') before after where
  elements := by
    rw [hnext.elements, h.elements, List.map_append, Keyed.putAll, Keyed.putAll, Keyed.putAll,
      List.foldl_append]
  members := by rw [hnext.members, h.members, List.foldl_append]

theorem registers_enter (set : SchemaSet) (component : Component) :
    Registers component.declaration?.toList set (set.enter component) := by
  rw [enter_eq]
  cases component <;> exact ⟨rfl, rfl⟩

theorem registers_read (set : SchemaSet) (origin : Origin) (element : Xml.Element) :
    Registers (match ((Reading.component origin element).run.run set.types).1 with
      | .ok component => component.declaration?.toList
      | .error _ => []) set (set.read origin element).2 := by
  unfold read enterRead
  rcases (Reading.component origin element).run.run set.types with ⟨error | component, types⟩
  · exact registers_nothing rfl rfl
  · have henter := registers_enter { set with types := types } component
    exact ⟨henter.elements, henter.members⟩

end SchemaSet

namespace Loading

variable {load : SchemaSource → Loading DocumentId}
  {inner : SchemaSource → Loader → List ElementDeclaration}

section Following

variable {schema element : Xml.Element} {location : String} {loader : Loader}

theorem run_followImport_of_some {source : SchemaSource}
    (h : followed? schema location element loader = some source) :
    ((followImport load schema location element).run.run loader).2 =
      ((load source).run.run loader).2 := by
  unfold followed? at h
  unfold followImport
  cases hreference : Import.ofElement element schema location with
  | error error =>
    rw [hreference] at h
    contradiction
  | ok reference =>
    rw [hreference] at h
    rw [ok_bind]
    obtain ⟨target, htarget, hanswer⟩ := Option.bind_eq_some_iff.mp h
    rw [htarget]
    dsimp only
    rw [run_get_bind]
    split at hanswer
    · contradiction
    · rename_i hunknown
      rw [if_neg hunknown]
      split at hanswer
      · rename_i answer hfirst
        rw [hfirst, hanswer]
        dsimp only
        rw [ExceptT.run_bind, StateT.run_bind]
        rcases (load source).run.run loader with ⟨error | id, after⟩ <;> rfl
      · contradiction

theorem run_followImport_of_none (h : followed? schema location element loader = none) :
    ∃ warnings, ((followImport load schema location element).run.run loader).2 =
      { loader with warnings := warnings } := by
  unfold followed? at h
  unfold followImport
  cases hreference : Import.ofElement element schema location with
  | error error => exact ⟨loader.warnings, rfl⟩
  | ok reference =>
    rw [hreference] at h
    rw [ok_bind]
    cases htarget : reference.resolvedLocation? with
    | none => exact ⟨loader.warnings, rfl⟩
    | some target =>
      dsimp only at h ⊢
      rw [htarget, Option.bind_some] at h
      rw [run_get_bind]
      split
      · exact ⟨loader.warnings, rfl⟩
      · rename_i hunknown
        rw [if_neg hunknown] at h
        split at h
        · rename_i answer hfirst
          rw [hfirst, h]
          exact ⟨loader.warnings ++ [.importSkipped target], rfl⟩
        · rename_i failure hfirst
          rw [hfirst]
          exact ⟨loader.warnings, rfl⟩

end Following

/-- The load registers what is told of it. -/
def IsTold (load : SchemaSource → Loading DocumentId)
    (inner : SchemaSource → Loader → List ElementDeclaration) : Prop :=
  ∀ source loader,
    SchemaSet.Registers (inner source loader) loader.set ((load source).run.run loader).2.set

theorem registers_topElement (hinner : IsTold load inner) (schema : Xml.Element)
    (location : String) (origin : Origin) (element : Xml.Element) (loader : Loader) :
    SchemaSet.Registers (registeredAt inner schema location origin element loader) loader.set
      ((topElement load schema location origin element).run.run loader).2.set := by
  unfold registeredAt
  cases htag : Import.isImportTag element.name.localName with
  | true =>
    rw [if_pos rfl, topElement_of_isImportTag load schema location origin htag]
    cases hfollowed : followed? schema location element loader with
    | some source =>
      rw [run_followImport_of_some hfollowed]
      exact hinner source loader
    | none =>
      obtain ⟨warnings, hrun⟩ : ∃ warnings,
          ((followImport load schema location element).run.run loader).2 =
            { loader with warnings := warnings } := run_followImport_of_none hfollowed
      rw [hrun]
      exact SchemaSet.registers_nothing rfl rfl
  | false =>
    rw [if_neg (by decide)]
    obtain ⟨warnings, hrun⟩ := run_topElement load schema location origin htag loader
    rw [hrun]
    exact loader.set.registers_read origin element

theorem registers_topElements (hinner : IsTold load inner) (schema : Xml.Element)
    (location : String) (origin : Origin) (elements : List Xml.Element) (loader : Loader) :
    SchemaSet.Registers (registeredAll load inner schema location origin elements loader)
      loader.set ((topElements load schema location origin elements).run.run loader).2.set := by
  induction elements generalizing loader with
  | nil => exact SchemaSet.registers_nothing rfl rfl
  | cons element others ih =>
    have hfirst := registers_topElement hinner schema location origin element loader
    rw [registeredAll, topElements, ExceptT.run_bind, StateT.run_bind]
    rcases hrun : (topElement load schema location origin element).run.run loader with
      ⟨error | done, after⟩
    · rw [hrun] at hfirst
      exact hfirst.append (SchemaSet.registers_nothing rfl rfl)
    · rw [hrun] at hfirst
      exact hfirst.append (ih after)

/-- The induction is on how deep documents nest. -/
theorem isTold_document (depth : Nat) : IsTold (document depth) (registeredIn depth) := by
  induction depth with
  | zero =>
    intro source loader
    have hsame : ((document 0 source).run.run loader).2 = loader := by
      rw [document, unlessLoaded, run_get_bind]
      split <;> rfl
    rw [hsame]
    exact SchemaSet.registers_nothing rfl rfl
  | succ depth ih =>
    intro source loader
    rw [registeredIn]
    cases hnew : loader.loaded.lookup source.location with
    | some id =>
      rw [run_document_of_loaded hnew]
      exact SchemaSet.registers_nothing rfl rfl
    | none =>
      cases hroot : source.root? loader.allowsDoctype with
      | none =>
        rw [run_document_of_rejected hnew hroot]
        exact SchemaSet.registers_nothing rfl rfl
      | some root =>
        rw [run_document_of_root? hnew hroot]
        have htop := registers_topElements ih root source.location
          ⟨loader.set.documents.length, root.attribute? "targetNamespace",
            (documentOf source.location root).qualifiesElements⟩ root.children
          (loader.entering (documentOf source.location root))
        rw [run_bind_pure (Prod.mk.eta (p := _)).symm]
        exact ⟨htop.elements, htop.members⟩

end Loading

namespace Loader

/-- The declarations that a load registers, also if it fails in the end. -/
def registers (loader : Loader) (source : SchemaSource) : List ElementDeclaration :=
  Loading.registeredIn loader.maxDepth source loader

/-- The loader after any number of loads. -/
def loadAll (loader : Loader) : List SchemaSource → Loader
  | [] => loader
  | source :: others => (loader.load source).2.loadAll others

/-- All declarations that the loads register, one load after the other. -/
def registersAll (loader : Loader) : List SchemaSource → List ElementDeclaration
  | [] => []
  | source :: others => loader.registers source ++ (loader.load source).2.registersAll others

theorem registers_load (loader : Loader) (source : SchemaSource) :
    SchemaSet.Registers (loader.registers source) loader.set (loader.load source).2.set :=
  Loading.isTold_document loader.maxDepth source loader

theorem registers_loadAll (loader : Loader) (sources : List SchemaSource) :
    SchemaSet.Registers (loader.registersAll sources) loader.set (loader.loadAll sources).set := by
  induction sources generalizing loader with
  | nil => exact SchemaSet.registers_nothing rfl rfl
  | cons source others ih => exact (loader.registers_load source).append (ih _)

end Loader

namespace SchemaSet

/-- The members of a head after one more declaration: its name comes last, unless it is there. -/
theorem lookup_membersWith (members : List (ExpandedName × List ExpandedName))
    (declaration : ElementDeclaration) (head : ExpandedName) :
    ((membersWith members declaration).lookup head).getD [] =
      let held := (members.lookup head).getD []
      if declaration.substitutionGroup = some head ∧ declaration.name ∉ held then
        held ++ [declaration.name]
      else held := by
  dsimp only
  unfold membersWith
  cases hgroup : declaration.substitutionGroup with
  | none => simp
  | some other =>
    dsimp only
    by_cases hheld : declaration.name ∈ (members.lookup other).getD []
    · rw [if_pos hheld]
      by_cases hsame : other = head
      · subst hsame
        simp [hheld]
      · simp [hsame]
    · rw [if_neg hheld, Keyed.lookup_put]
      by_cases hsame : head = other
      · subst hsame
        simp [hheld]
      · simp [hsame, Ne.symm hsame]

/-- The names that were declared under a head, in the order of their first declarations under it. -/
def declaredUnder (declared : List ElementDeclaration) (head : ExpandedName) : List ExpandedName :=
  ((declared.filter (·.substitutionGroup = some head)).map ElementDeclaration.name).eraseDups

theorem mem_declaredUnder {declared : List ElementDeclaration} {head name : ExpandedName} :
    name ∈ declaredUnder declared head ↔
      ∃ declaration ∈ declared, declaration.name = name ∧
        declaration.substitutionGroup = some head := by
  simp only [declaredUnder, List.mem_eraseDups, List.mem_map, List.mem_filter, decide_eq_true_eq]
  constructor
  · rintro ⟨declaration, ⟨hmem, hgroup⟩, hname⟩
    exact ⟨declaration, hmem, hname, hgroup⟩
  · rintro ⟨declaration, hmem, hname, hgroup⟩
    exact ⟨declaration, ⟨hmem, hgroup⟩, hname⟩

/-- Nothing that was declared under a head is ever taken off its list. -/
theorem lookup_foldl_membersWith (declared : List ElementDeclaration) (head : ExpandedName) :
    ((declared.foldl membersWith []).lookup head).getD [] = declaredUnder declared head := by
  induction declared using List.reverseRecOn with
  | nil => rfl
  | append_singleton declared declaration ih =>
    rw [List.foldl_concat, lookup_membersWith, ih]
    dsimp only
    by_cases hgroup : declaration.substitutionGroup = some head
    · have hnames : ((declared ++ [declaration]).filter (·.substitutionGroup = some head)).map
          ElementDeclaration.name = (declared.filter (·.substitutionGroup = some head)).map
            ElementDeclaration.name ++ [declaration.name] := by
        simp [hgroup]
      by_cases hheld : declaration.name ∈ declaredUnder declared head
      · rw [if_neg (by simp [hheld]), declaredUnder, declaredUnder, hnames,
          eraseDups_append_of_subset]
        simpa [declaredUnder, List.mem_eraseDups] using hheld
      · rw [if_pos ⟨hgroup, hheld⟩, declaredUnder, declaredUnder, hnames,
          eraseDups_concat_of_not_mem]
        simpa [declaredUnder, List.mem_eraseDups] using hheld
    · rw [if_neg (by simp [hgroup]), declaredUnder, declaredUnder]
      simp [hgroup]

end SchemaSet

theorem lookup_declared (declared : List ElementDeclaration) (name : ExpandedName) :
    (declared.map fun declaration => (declaration.name, declaration)).reverse.lookup name =
      (declared.filter (·.name = name)).getLast? := by
  induction declared using List.reverseRecOn with
  | nil => rfl
  | append_singleton declared declaration ih =>
    rw [List.map_append, List.map_singleton, List.reverse_concat, List.lookup_cons, ih,
      List.filter_append]
    by_cases hname : declaration.name = name
    · simp [hname]
    · have hne : (name == declaration.name) = false := by simpa using Ne.symm hname
      simp [hname, hne]

/-- What is known of global elements after any number of loads, with failures among them. Each name
is listed once, at the place of its first declaration and with its last one. The members of a
substitution group are the names that were ever declared under its head, each of them once. So they
are the elements whose declarations name that head if and only if no name that was declared under it
was declared again in another way. -/
theorem declarations_kept (resolvers : List Resolver) (allowsDoctype : Bool)
    (sources : List SchemaSource) :
    let loader := Loader.new resolvers allowsDoctype
    let set := (loader.loadAll sources).set
    let declared := loader.registersAll sources
    let last (name : ExpandedName) := (declared.filter (·.name = name)).getLast?
    (set.globalElements.map ElementDeclaration.name =
        (declared.map ElementDeclaration.name).eraseDups ∧
      (set.globalElements.map ElementDeclaration.name).Nodup ∧
      set.globalElements = (declared.map ElementDeclaration.name).eraseDups.filterMap last ∧
      ∀ name, set.element? name = last name) ∧
    ∀ head, set.substitutionMembers head = SchemaSet.declaredUnder declared head ∧
      (set.substitutionMembers head).Nodup ∧
      ((∀ name, name ∈ set.substitutionMembers head ↔
          ∃ declaration, set.element? name = some declaration ∧
            declaration.substitutionGroup = some head) ↔
        ∀ declaration ∈ declared, declaration.substitutionGroup = some head →
          ∀ latest, last declaration.name = some latest →
            latest.substitutionGroup = some head) := by
  intro loader set declared last
  have hregisters : SchemaSet.Registers declared .initial set := loader.registers_loadAll sources
  have hkeys : Keyed.keys set.elements = (declared.map ElementDeclaration.name).eraseDups := by
    rw [hregisters.elements]
    exact (Keyed.keys_putAll _).trans (by rw [Keyed.keys, List.map_map]; rfl)
  have hnodup : (Keyed.keys set.elements).Nodup := by
    rw [hkeys]
    exact nodup_eraseDups _
  have hlast (name : ExpandedName) : set.element? name = last name := by
    rw [SchemaSet.element?, hregisters.elements, Keyed.lookup_putAll, lookup_declared]
    exact Option.or_none
  have hname {name : ExpandedName} {declaration : ElementDeclaration}
      (h : last name = some declaration) : declaration ∈ declared ∧ declaration.name = name := by
    have hmem := List.mem_of_getLast? h
    simpa using hmem
  have hnames : set.globalElements.map ElementDeclaration.name = Keyed.keys set.elements := by
    rw [SchemaSet.globalElements, List.map_map, Keyed.keys]
    refine List.map_congr_left fun entry hentry => ?_
    have hlookup := (Keyed.lookup_eq_some_iff_mem hnodup).mpr hentry
    exact (hname ((hlast entry.1).symm.trans hlookup)).2
  have hvalues : set.globalElements = (Keyed.keys set.elements).filterMap last := by
    have hfound := Keyed.map_eq_of_nodup hnodup id
    have hlookup : (fun name => (set.elements.lookup name).map id) = last := by
      funext name
      rw [Option.map_id]
      exact hlast name
    rw [hlookup] at hfound
    have hsome := congrArg (List.filterMap id) hfound
    rw [List.filterMap_map, List.filterMap_map] at hsome
    rw [SchemaSet.globalElements, ← List.filterMap_eq_map]
    exact hsome
  refine ⟨⟨hnames.trans hkeys, hnames ▸ hnodup, hkeys ▸ hvalues, hlast⟩, fun head => ?_⟩
  have hmembers : set.substitutionMembers head = SchemaSet.declaredUnder declared head := by
    rw [SchemaSet.substitutionMembers, hregisters.members]
    exact SchemaSet.lookup_foldl_membersWith declared head
  refine ⟨hmembers, hmembers ▸ nodup_eraseDups _, ?_⟩
  constructor
  · intro hexact declaration hmem hgroup latest hlatest
    have hmember : declaration.name ∈ set.substitutionMembers head := by
      rw [hmembers]
      exact SchemaSet.mem_declaredUnder.mpr ⟨declaration, hmem, rfl, hgroup⟩
    obtain ⟨kept, hkept, hhead⟩ := (hexact declaration.name).mp hmember
    rw [hlast, hlatest] at hkept
    rwa [Option.some.inj hkept]
  · intro hfaithful name
    rw [hmembers, SchemaSet.mem_declaredUnder, hlast]
    constructor
    · rintro ⟨declaration, hmem, rfl, hgroup⟩
      have hne : declared.filter (·.name = declaration.name) ≠ [] :=
        List.ne_nil_of_mem (List.mem_filter.mpr ⟨hmem, by simp⟩)
      obtain ⟨latest, hlatest⟩ := Option.isSome_iff_exists.mp (List.getLast?_isSome.mpr hne)
      exact ⟨latest, hlatest, hfaithful declaration hmem hgroup latest hlatest⟩
    · rintro ⟨declaration, hlatest, hgroup⟩
      obtain ⟨hmem, hname⟩ := hname hlatest
      exact ⟨declaration, hmem, hname, hgroup⟩

/-- An element that is declared under one head and then again under another one. -/
def movedMember : SchemaSource :=
  ⟨"main.xsd", "<x:schema xmlns:x='http://www.w3.org/2001/XMLSchema'>" ++
    "<x:element name='h1'/><x:element name='h2'/><x:element name='m' substitutionGroup='h1'/>" ++
    "<x:element name='m' substitutionGroup='h2'/></x:schema>"⟩

/-- It stays a member of the first group, although its declaration names the second one. -/
theorem moved_member_stays :
    let set := ((Loader.new [] false).load movedMember).2.set
    ((Loader.new [] false).load movedMember).1 = .ok 0 ∧
      (set.element? ⟨none, "m"⟩).map ElementDeclaration.substitutionGroup =
        some (some ⟨none, "h2"⟩) ∧
      set.substitutionMembers ⟨none, "h1"⟩ = [⟨none, "m"⟩] ∧
      set.substitutionMembers ⟨none, "h2"⟩ = [⟨none, "m"⟩] := by
  decide +kernel

end SchemaForms
