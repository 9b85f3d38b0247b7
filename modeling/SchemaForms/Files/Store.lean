import SchemaForms.Schema.Loader

/-!
Files as they are read: a path gives the text of a file with its canonical location, or a reason why
it cannot be read. A store of files resolves references between schema documents, except those to
the web.
-/

namespace SchemaForms

structure FileStore where
  stock : List SchemaSource
  read : String → Except String SchemaSource
  mem_stock : ∀ {path source}, read path = .ok source → source ∈ stock

/-- The files that a schema document refers to. -/
def SchemaSource.references (allowsDoctype : Bool) (source : SchemaSource) : List String :=
  match Xml.read? allowsDoctype source.text with
  | none => []
  | some schema =>
    let tags := schema.children.filter fun child => Import.isImportTag child.name.localName
    let locations := tags.filterMap fun tag =>
      Import.resolvedLocation? ⟨none, tag.attribute? "schemaLocation", source.location⟩
    locations.filter (!Location.isWeb ·)

namespace FileStore

def missing : String := "No such file or directory (os error 2)"

/-- The store of what was found at some paths. Nothing is found at other paths. -/
def ofReadings (readings : List (String × Except String SchemaSource)) : FileStore where
  stock := readings.filterMap fun (_, result) => result.toOption
  read path := (readings.lookup path).getD (.error missing)
  mem_stock := by
    intro path source h
    cases found : readings.lookup path with
    | none => simp [found] at h
    | some result =>
      obtain ⟨before, _, split, _⟩ := List.lookup_eq_some_iff.mp found
      simp only [found, Option.getD_some] at h
      subst h
      simp [split, Except.toOption]

/-- The source of a schema document at a path. -/
def schemaSource (store : FileStore) (path : String) : Except ImportFailure SchemaSource :=
  if Location.isWeb path then .error .unsupported
  else (store.read path).mapError .unreadable

def resolver (store : FileStore) : Resolver where
  stock := store.stock
  answer reference :=
    match reference.resolvedLocation? with
    | none => .error .unsupported
    | some location => store.schemaSource location
  mem_stock := by
    intro reference source h
    split at h
    · cases h
    · rename_i location _
      unfold schemaSource at h
      split at h
      · cases h
      · cases hread : store.read location with
        | error reason =>
          rw [hread] at h
          cases h
        | ok found =>
          rw [hread] at h
          obtain rfl := Except.ok.inj h
          exact store.mem_stock hread

end FileStore

end SchemaForms
