import SchemaForms.Proofs.Form.Everywhere
import SchemaForms.Proofs.Form.Places
import SchemaForms.Proofs.Form.Shown

/-!
Fields that are found wherever there is something to show. What surrounds a field of a template may
keep it from being shown: guards, and iterations without rows. It does not where guards only ask for
places on the way to the field and iterations only go over elements on the way. Then the form has
the field at each place that selects something, with the value found there.
-/

namespace SchemaForms

namespace TemplateNode

mutual

/-- The node holds a field at the address, and what is around the field asks for nothing but places
on the way to it. -/
def reaches (target : Address) : TemplateNode → Bool
  | group _ children => reachesAll target children
  | field address .. => address = target
  | guard test place children =>
    test = .present && place.leadsTo target && reachesAll target children
  | iteration siblings _ item children =>
    siblings = item.siblingPath && 2 ≤ item.depth && item.leadsTo target &&
      item.segments.isPrefixOf target.segments && reachesAll target children
  | _ => false

def reachesAll (target : Address) : List TemplateNode → Bool
  | [] => false
  | node :: others => reaches target node || reachesAll target others

end

end TemplateNode

namespace FormNode

/-- A field of the form at the address, with this value. -/
def IsFieldAt (address : Address) (value : Option String) (node : FormNode) : Prop :=
  ∃ input label controls, node = .field address input label value controls

/-- A field holds the value that the record has at its address. -/
def Held (record : Instance) : FormNode → Prop
  | .field address _ _ value _ => value = record.value? address
  | _ => True

/-- The nodes hold a field at the address, with the value that the record has there. -/
def HasField (record : Instance) (address : Address) (nodes : List FormNode) : Prop :=
  ∃ node ∈ walkAll nodes, node.IsFieldAt address (record.value? address)

namespace HasField

variable {record : Instance} {address : Address} {left right : List FormNode}

theorem append_left (h : HasField record address left) :
    HasField record address (left ++ right) := by
  obtain ⟨node, hnode, hfield⟩ := h
  exact ⟨node, by simp [walkAll_append, hnode], hfield⟩

theorem append_right (h : HasField record address right) :
    HasField record address (left ++ right) := by
  obtain ⟨node, hnode, hfield⟩ := h
  exact ⟨node, by simp [walkAll_append, hnode], hfield⟩

theorem inside {node : FormNode} (h : HasField record address node.children) :
    HasField record address [node] := by
  obtain ⟨found, hfound, hfield⟩ := h
  exact ⟨found, by simp [walkAll, walk_eq, hfound], hfield⟩

theorem row {make : Nat → FormNode} {numbers : List Nat} {number : Nat}
    (hnumber : number ∈ numbers) (h : HasField record address [make number]) :
    HasField record address (numbers.map make) := by
  obtain ⟨before, after, rfl⟩ := List.append_of_mem hnumber
  rw [List.map_append, List.map_cons]
  have hfollowed : HasField record address ([make number] ++ after.map make) := h.append_left
  exact hfollowed.append_right

end HasField

end FormNode

namespace TemplateNode

open FormNode Bindings

mutual

theorem held_fill (record : Instance) (bindings : Bindings) (node : TemplateNode) :
    Everywhere (Held record) (fill record bindings node) := by
  cases node with
  | group kind children =>
    rw [fill, everywhere_singleton]
    exact ⟨trivial, held_fillAll record bindings children⟩
  | header label controls =>
    rw [fill, everywhere_singleton]
    exact ⟨trivial, held_fillAll record bindings controls⟩
  | field address input label options controls =>
    rw [fill, everywhere_singleton]
    exact ⟨rfl, held_fillAll record bindings controls⟩
  | guard test target children =>
    rw [← fillAll_singleton]
    exact everywhere_guard fun _ => held_fillAll record bindings children
  | iteration siblings var item children =>
    rw [fill]
    exact everywhere_map fun number _ => ⟨trivial, held_fillAll record _ children⟩
  | affordance kind target label candidates =>
    rw [fill, everywhere_singleton]
    exact ⟨trivial, everywhere_nil⟩
  | choicePrompt target isRequired candidates =>
    rw [fill, everywhere_singleton]
    exact ⟨trivial, everywhere_nil⟩
  | toggle label children =>
    rw [fill, everywhere_singleton]
    exact ⟨trivial, held_fillAll record bindings children⟩
  | recursive address =>
    rw [fill, everywhere_singleton]
    exact ⟨trivial, everywhere_nil⟩

/-- Filling reads the values of fields from the record. -/
theorem held_fillAll (record : Instance) (bindings : Bindings) (nodes : List TemplateNode) :
    Everywhere (Held record) (fillAll record bindings nodes) := by
  cases nodes with
  | nil => exact everywhere_nil
  | cons node others =>
    rw [fillAll, everywhere_append]
    exact ⟨held_fill record bindings node, held_fillAll record bindings others⟩

end

/-- An iteration on the way to a field has a row for the element on the way. -/
theorem row_of_item {record : Instance} {target : Address} {final : Bindings}
    (hplaces : final.Places target.vars)
    (hselects : record.elements (target.substitute final) ≠ []) {siblings item : Address}
    {var : String} (hitem : item = siblings.withIndex (.var var))
    (hleaf : siblings = item.siblingPath) (hbelow : 2 ≤ item.depth)
    (hleads : item.leadsTo target = true) (hfront : item.segments <+: target.segments) :
    ∃ number, final.lookup var = some number ∧
      number ∈ List.range' 1 (record.count (siblings.substitute final)) := by
  have hpath := Address.isAttribute_of_leadsTo hleads
  have hsiblings : siblings.segments ≠ [] := by
    intro hnil
    have hdepth := Address.depth_siblingPath item
    rw [← hleaf, Address.depth, hnil, List.length_nil] at hdepth
    omega
  have helement : siblings.isAttribute = false := by
    rw [hleaf, Address.isAttribute_siblingPath]
    exact Address.isAttribute_eq_false hpath
  obtain ⟨ancestors, name, hsegments, hindexed⟩ := Address.segments_of_item (.var var) hsiblings
    helement (by rw [hleaf, Address.siblingPath_siblingPath])
  rw [← hitem] at hindexed
  have hvar : var ∈ target.vars := by
    obtain ⟨rest, hrest⟩ := hfront
    simp [Address.vars, ← hrest, hindexed, Segment.index?, Index.varName?]
  obtain ⟨number, hnumber, hpos⟩ := hplaces var hvar
  have hposition : item.substitute final =
      (siblings.substitute final).withIndex (.position number) := by
    rw [hitem, Address.substitute_withIndex]
    simp [Index.substitute, hnumber]
  have hfound := Instance.elements_ne_nil_of_leadsTo
    (Address.leadsTo_substitute hleads final) hselects
  rw [hposition] at hfound
  have hle : number ≤ record.count (siblings.substitute final) := by
    refine Instance.le_count_of_position ?_ ?_ ?_ hpos hfound
    · intro segment hsegment
      obtain ⟨own, hown, rfl⟩ := List.mem_map.mp hsegment
      rw [Segment.isAttribute_substitute]
      rw [hsegments] at hown
      rcases List.mem_append.mp hown with hancestor | hown
      · exact hpath own (by simp [hindexed, hancestor])
      · rw [List.mem_singleton.mp hown]
        rfl
    · rw [Address.siblingPath_substitute, hleaf, Address.siblingPath_siblingPath]
    · have hdepth := Address.depth_siblingPath item
      rw [← hleaf] at hdepth
      have hsiblings : 2 ≤ siblings.depth := by omega
      simpa [Address.depth, Address.substitute] using hsiblings
  exact ⟨number, hnumber, List.mem_range'_1.mpr ⟨hpos, by omega⟩⟩

mutual

theorem hasField_fill {record : Instance} {target : Address} {final : Bindings}
    (hplaces : final.Places target.vars)
    (hselects : record.elements (target.substitute final) ≠ []) (node : TemplateNode)
    {bound : List String} {bindings : Bindings} (hscoped : Scoped bound node)
    (hreaches : reaches target node = true) (hagree : Agree bound bindings final) :
    HasField record (target.substitute final) (fill record bindings node) := by
  cases node with
  | group kind children =>
    rw [fill]
    exact .inside (hasField_fillAll hplaces hselects children hscoped hreaches hagree)
  | field address input label options controls =>
    obtain rfl : address = target := by simpa [reaches] using hreaches
    rw [fill, substitute_eq_of_agree hscoped.1 hagree]
    exact ⟨_, List.mem_append_left _ List.mem_cons_self, _, _, _, rfl⟩
  | guard test place children =>
    simp only [reaches, Bool.and_eq_true, decide_eq_true_eq] at hreaches
    obtain ⟨⟨rfl, hleads⟩, hchildren⟩ := hreaches
    have hcount : 0 < record.count (place.substitute final) :=
      Instance.count_pos_of_leadsTo (Address.leadsTo_substitute hleads final) hselects
    rw [fill, substitute_eq_of_agree hscoped.1 hagree, if_pos (Instance.holds_present.mpr hcount)]
    exact hasField_fillAll hplaces hselects children hscoped.2 hchildren hagree
  | iteration siblings var item children =>
    obtain ⟨hsiblings, hfresh, hitem, -, hinner⟩ := hscoped
    simp only [reaches, Bool.and_eq_true, decide_eq_true_eq, List.isPrefixOf_iff_prefix]
      at hreaches
    obtain ⟨⟨⟨⟨hleaf, hbelow⟩, hleads⟩, hfront⟩, hchildren⟩ := hreaches
    obtain ⟨number, hnumber, hmem⟩ :=
      row_of_item hplaces hselects hitem hleaf hbelow hleads hfront
    rw [fill, substitute_eq_of_agree hsiblings hagree]
    refine .row hmem (.inside ?_)
    have hagree := hagree.insert_of_lookup hnumber
    exact hasField_fillAll hplaces hselects children hinner hchildren hagree
  | header label controls => simp [reaches] at hreaches
  | affordance kind place label candidates => simp [reaches] at hreaches
  | choicePrompt place isRequired candidates => simp [reaches] at hreaches
  | toggle label children => simp [reaches] at hreaches
  | recursive address => simp [reaches] at hreaches

/-- A field that is reached is in the form at each of its places that selects something. -/
theorem hasField_fillAll {record : Instance} {target : Address} {final : Bindings}
    (hplaces : final.Places target.vars)
    (hselects : record.elements (target.substitute final) ≠ []) (nodes : List TemplateNode)
    {bound : List String} {bindings : Bindings} (hscoped : ScopedAll bound nodes)
    (hreaches : reachesAll target nodes = true) (hagree : Agree bound bindings final) :
    HasField record (target.substitute final) (fillAll record bindings nodes) := by
  cases nodes with
  | nil => simp [reachesAll] at hreaches
  | cons node others =>
    rw [fillAll]
    rcases Bool.or_eq_true_iff.mp hreaches with hhere | hlater
    · exact (hasField_fill hplaces hselects node hscoped.1 hhere hagree).append_left
    · exact (hasField_fillAll hplaces hselects others hscoped.2 hlater hagree).append_right

end

end TemplateNode

end SchemaForms
