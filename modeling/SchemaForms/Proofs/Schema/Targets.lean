import SchemaForms.Proofs.Schema.Importing
import SchemaForms.Proofs.Schema.Reordering

/-!
The namespaces that components are declared in. Whatever was loaded, everything that a schema
declares is in the target namespace of some document of it. The types of the language are entered
without a declaration, and an attribute at the top of a document may only refer to another one.
-/

namespace SchemaForms

/-- What a component declares is in the namespace. -/
def Component.DeclaredIn (target : Option String) : Component → Prop
  | .attr declaration => declaration.isReference = true ∨ declaration.name.namespaceName = target
  | component => ∀ key ∈ component.key?, key.2.namespaceName = target

/-- Every component that an element at the top of a document declares is in the target namespace. -/
theorem Reading.keeps_declaredIn (origin : Origin) (element : Xml.Element) :
    Keeps (fun _ => True) (Component.DeclaredIn origin.targetNamespace)
      (component origin element) := by
  have htype : Keeps (fun _ => True) (Component.DeclaredIn origin.targetNamespace)
      (typeComponent origin element) := by
    refine .after fun written => ?_
    dsimp only
    split <;> exact .bind (keeps_anything _) fun _ _ => .bind (keeps_anything _) fun _ _ =>
      .pure (by rintro _ ⟨⟩; rfl)
  have hattribute : Keeps (fun _ => True) (fun declaration : AttributeDeclaration =>
      declaration.isReference = true ∨ declaration.name.namespaceName = origin.targetNamespace)
      (attributeDeclaration origin true element) := by
    unfold attributeDeclaration
    split
    · exact .after fun _ => .bind (keeps_anything _) fun _ _ => .pure (.inl rfl)
    · exact .after fun _ => .bind (keeps_anything _) fun _ _ => .pure (.inr rfl)
  have helement : Keeps (fun _ => True) (fun declaration : ElementDeclaration =>
      declaration.name.namespaceName = origin.targetNamespace) (globalElement origin element) :=
    .after fun _ => .after fun _ => .after fun _ => .bind (keeps_anything _) fun _ _ => .pure rfl
  have hattributes : Keeps (fun _ => True) (fun group : AttributeGroup =>
      group.name.namespaceName = origin.targetNamespace) (globalAttributeGroup origin element) :=
    .after fun _ => .bind (keeps_anything _) fun _ _ => .pure rfl
  have hmodel : Keeps (fun _ => True) (fun group : ModelGroup =>
      group.name.namespaceName = origin.targetNamespace) (globalModelGroup origin element) := by
    refine .after fun _ => ?_
    split
    · exact .after fun _ => .bind (keeps_anything _) fun _ _ => .pure rfl
    · exact .throw
  unfold component
  split
  · exact .bind helement fun _ h => .pure (by rintro _ ⟨⟩; exact h)
  · exact htype
  · exact htype
  · exact .bind hattributes fun _ h => .pure (by rintro _ ⟨⟩; exact h)
  · exact .bind hmodel fun _ h => .pure (by rintro _ ⟨⟩; exact h)
  · exact .bind hattribute fun _ h => .pure h
  · exact .pure nofun

namespace SchemaSet

def targets (set : SchemaSet) : List (Option String) :=
  set.documents.map SchemaDocument.targetNamespace

/-- What is declared is in one of the namespaces. -/
structure DeclaredIn (namespaces : List (Option String)) (set : SchemaSet) : Prop where
  types : ∀ name, name.isBuiltin = false → (set.types.namedType? name).isSome = true →
    name.namespaceName ∈ namespaces
  elements : ∀ name, (set.element? name).isSome = true → name.namespaceName ∈ namespaces
  attributes : ∀ name declaration, set.attribute? name = some declaration →
    declaration.isReference = true ∨ name.namespaceName ∈ namespaces
  attributeGroups : ∀ name, (set.attributeGroup? name).isSome = true →
    name.namespaceName ∈ namespaces
  modelGroups : ∀ name, (set.modelGroup? name).isSome = true → name.namespaceName ∈ namespaces

variable {set : SchemaSet} {namespaces : List (Option String)}

theorem lookup_put?_cases {α β : Type} [DecidableEq α] {entry : Option (α × β)} {key : α}
    {value : β} {entries : List (α × β)}
    (h : (Keyed.put? entry entries).lookup key = some value) :
    entry = some (key, value) ∨ entries.lookup key = some value := by
  cases entry with
  | none => exact .inr h
  | some entry =>
    obtain ⟨held, new⟩ := entry
    rw [Keyed.put?, Keyed.lookup_put] at h
    split at h
    · rename_i hkey
      obtain rfl := Option.some.inj h
      exact .inl (by rw [hkey])
    · exact .inr h

theorem isSome_put?_cases {α β : Type} [DecidableEq α] {entry : Option (α × β)} {key : α}
    {entries : List (α × β)} (h : ((Keyed.put? entry entries).lookup key).isSome = true) :
    (∃ value, entry = some (key, value)) ∨ (entries.lookup key).isSome = true := by
  obtain ⟨value, hvalue⟩ := Option.isSome_iff_exists.mp h
  rcases lookup_put?_cases hvalue with hnew | hold
  · exact .inl ⟨value, hnew⟩
  · exact .inr (Option.isSome_of_eq_some hold)

theorem DeclaredIn.mono (h : set.DeclaredIn namespaces) {others : List (Option String)}
    (hothers : namespaces ⊆ others) : set.DeclaredIn others where
  types name hbuiltin hname := hothers (h.types name hbuiltin hname)
  elements name hname := hothers (h.elements name hname)
  attributes name declaration hname := (h.attributes name declaration hname).imp_right (hothers ·)
  attributeGroups name hname := hothers (h.attributeGroups name hname)
  modelGroups name hname := hothers (h.modelGroups name hname)

/-- Reading gives no name to types, apart from those of the language. -/
theorem namedType?_run_component (origin : Origin) (element : Xml.Element) (table : TypeTable)
    (name : ExpandedName) (hname : name.isBuiltin = false) :
    ((Reading.component origin element).run.run table).2.namedType? name =
      table.namedType? name := by
  have huniform : Reading.Uniform origin Component.Matches (Reading.component origin element) :=
    Reading.uniform_component element
  obtain ⟨later, hextends, -, hleft, -⟩ :=
    huniform (World.start table table fun _ => True) trivial (World.sound_start ..)
  have hleft : ((Reading.component origin element).run.run table).2 = later.left := hleft
  rw [hleft]
  exact hextends.names name hname

theorem DeclaredIn.enter (h : set.DeclaredIn namespaces) {component : Component}
    {target : Option String} (hcomponent : component.DeclaredIn target)
    (htarget : target ∈ namespaces) : (set.enter component).DeclaredIn namespaces := by
  rw [enter_eq]
  refine ⟨fun name hbuiltin hname => ?_, fun name hname => ?_, fun name declaration hname => ?_,
    fun name hname => ?_, fun name hname => ?_⟩
  · rcases isSome_put?_cases hname with ⟨_, hnew⟩ | hold
    · cases component <;> cases hnew
      exact hcomponent _ rfl ▸ htarget
    · exact h.types name hbuiltin hold
  · rcases isSome_put?_cases hname with ⟨_, hnew⟩ | hold
    · cases component <;> cases hnew
      exact hcomponent _ rfl ▸ htarget
    · exact h.elements name hold
  · rcases lookup_put?_cases hname with hnew | hold
    · cases component <;> cases hnew
      refine Or.imp_right (fun hsame => ?_) hcomponent
      exact hsame ▸ htarget
    · exact h.attributes name declaration hold
  · rcases isSome_put?_cases hname with ⟨_, hnew⟩ | hold
    · cases component <;> cases hnew
      exact hcomponent _ rfl ▸ htarget
    · exact h.attributeGroups name hold
  · rcases isSome_put?_cases hname with ⟨_, hnew⟩ | hold
    · cases component <;> cases hnew
      exact hcomponent _ rfl ▸ htarget
    · exact h.modelGroups name hold

/-- What is read from a document is declared in its target namespace. -/
theorem DeclaredIn.read (h : set.DeclaredIn namespaces) {origin : Origin}
    (htarget : origin.targetNamespace ∈ namespaces) (element : Xml.Element) :
    (set.read origin element).2.DeclaredIn namespaces := by
  have hnames := namedType?_run_component origin element set.types
  have hmade := (Reading.keeps_declaredIn origin element set.types trivial).2
  unfold SchemaSet.read enterRead
  generalize (Reading.component origin element).run.run set.types = made at hnames hmade
  obtain ⟨error | component, types⟩ := made
  all_goals
    have hread : DeclaredIn namespaces { set with types := types } :=
      ⟨fun name hbuiltin hname => h.types name hbuiltin ((hnames name hbuiltin).symm ▸ hname),
        h.elements, h.attributes, h.attributeGroups, h.modelGroups⟩
  · exact hread
  · exact hread.enter (hmade component rfl) htarget

/-- The components of a schema are in the target namespaces of its documents, among which are
these. -/
structure KnowsTargets (targets : List (Option String)) (set : SchemaSet) : Prop where
  declared : set.DeclaredIn set.targets
  targets : targets ⊆ set.targets

end SchemaSet

def Loader.KnowsTargets (targets : List (Option String)) (loader : Loader) : Prop :=
  loader.set.KnowsTargets targets

namespace Loading

variable {targets : List (Option String)}

theorem isKeptByReading_knowsTargets {origin : Origin} (horigin : origin.targetNamespace ∈ targets)
    (element : Xml.Element) : IsKeptByReading (Loader.KnowsTargets targets) origin element := by
  intro loader h
  have hsame : (loader.set.read origin element).2.targets = loader.set.targets := by
    rw [SchemaSet.targets, SchemaSet.documents_read, SchemaSet.targets]
  have hread := h.declared.read (h.targets horigin) element
  exact ⟨hsame.symm ▸ hread, hsame.symm ▸ h.targets⟩

theorem knowsTargets_entering {loader : Loader} (h : loader.KnowsTargets targets)
    (document : SchemaDocument) :
    (loader.entering document).KnowsTargets (document.targetNamespace :: targets) := by
  have htargets : (loader.entering document).set.targets =
      loader.set.targets ++ [document.targetNamespace] := List.map_append ..
  refine ⟨?_, ?_⟩
  · have hdeclared := h.declared.mono
      (List.subset_append_left loader.set.targets [document.targetNamespace])
    rw [htargets]
    exact ⟨hdeclared.types, hdeclared.elements, hdeclared.attributes, hdeclared.attributeGroups,
      hdeclared.modelGroups⟩
  · rw [htargets]
    exact List.cons_subset.mpr ⟨List.mem_append_right _ List.mem_cons_self,
      fun target htarget => List.mem_append_left _ (h.targets htarget)⟩

/-- Once a document is entered, its target namespace is known as well. -/
theorem carries_knowsTargets : Carries Loader.KnowsTargets where
  ignores _ _ _ h := h
  entered targets loader source root h _ _ := by
    refine ⟨_, knowsTargets_entering h _, fun after hafter => ⟨hafter.declared, ?_⟩,
      fun element _ => isKeptByReading_knowsTargets ?_ element⟩
    · exact fun target htarget => hafter.targets (List.mem_cons_of_mem _ htarget)
    · exact List.mem_cons_self

end Loading

/-- Every component of a loaded schema is in the target namespace of one of its documents. -/
theorem Loader.Loaded.declaredIn {loader : Loader} (h : loader.Loaded) :
    loader.set.DeclaredIn loader.set.targets := by
  have hknows : loader.set.KnowsTargets [] := by
    induction h with
    | new resolvers allowsDoctype =>
      refine ⟨⟨fun name hbuiltin hname => ?_, nofun, nofun, nofun, nofun⟩, List.nil_subset _⟩
      have hne : ∀ localName, name ≠ schemaName localName := by
        rintro localName rfl
        simp [ExpandedName.isBuiltin, schemaName] at hbuiltin
      have hnone : TypeTable.initial.namedType? name = none :=
        ((TypeTable.grows_intern _ _).others (hne _)).trans
          ((TypeTable.grows_intern _ _).others (hne _))
      rw [show (Loader.new resolvers allowsDoctype).set.types = TypeTable.initial from rfl,
        hnone] at hname
      cases hname
    | @load loader h source ih => exact Loading.carries_knowsTargets.load ih source
  exact hknows.declared

end SchemaForms
