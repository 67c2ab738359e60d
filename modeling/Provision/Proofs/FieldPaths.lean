import Mathlib.Data.String.Basic
import Provision.Configuration
import Provision.Proofs.OrderedMap
import Provision.Proofs.Text.Trimming

/-!
A configuration is told by its fields, which are its values under their full paths. The path of a
key begins with its section, and no path has two readings, whatever dots or names of sections the
key holds; so reading, setting and removing at a path are what they seem to be in the list of
fields.
-/

namespace Provision

namespace ConfigSection

variable {s t : ConfigSection} {key other : String}

/-- The path of a key in a section. -/
def path (s : ConfigSection) (key : String) : String :=
  s.text ++ "." ++ key

/-- Whether a section is listed before another one. -/
inductive Before : ConfigSection → ConfigSection → Prop
  | settings_options : Before .settings .options
  | settings_requires : Before .settings .requires
  | options_requires : Before .options .requires

private theorem mem_all (s : ConfigSection) : s ∈ all := by
  cases s <;> decide

private theorem pairwise_before_all : all.Pairwise Before := by
  simp [all, Before.settings_options, Before.settings_requires, Before.options_requires]

private theorem Before.ne (h : s.Before t) : s ≠ t := by
  cases h <;> decide

private theorem dot_notMem_text (s : ConfigSection) : '.' ∉ s.text.toList := by
  cases s <;> decide

private theorem text_inj : s.text = t.text ↔ s = t := by
  cases s <;> cases t <;> simp [text]

/-- A path names one section and one key in it, as its first dot ends the section. -/
theorem path_inj : s.path key = t.path other ↔ s = t ∧ key = other := by
  rw [path, path, String.append_assoc, String.append_assoc,
    Text.append_inj_of_notMem (by simp) s.dot_notMem_text t.dot_notMem_text, text_inj]

end ConfigSection

namespace Configuration

open ConfigSection

variable {c d : Configuration} {s t : ConfigSection} {key other value path : String}

/-- The path with its section: a path that begins with none of the sections is one of a setting. -/
def fullPath (path : String) : String :=
  if ConfigSection.all.any fun s => (s.path "").toList.isPrefixOf path.toList then path
  else ConfigSection.settings.path path

/-- A path is another one, or lies under it. -/
def IsUnder (parent path : String) : Prop :=
  path = parent ∨ ∃ rest, path = parent ++ "." ++ rest

/-- A field is listed before another one: in an earlier section, or in the same one under a lesser
key. -/
inductive FieldBefore : String × String → String × String → Prop
  | earlier {s t : ConfigSection} {key other value value' : String} (h : s.Before t) :
      FieldBefore (s.path key, value) (t.path other, value')
  | key {s : ConfigSection} {key other value value' : String} (h : key < other) :
      FieldBefore (s.path key, value) (s.path other, value')

/-! ### Paths -/

private theorem isPrefixOf_path_iff :
    (s.path "").toList.isPrefixOf path.toList = true ↔ ∃ key, path = s.path key := by
  rw [List.isPrefixOf_iff_prefix]
  constructor
  · rintro ⟨rest, h⟩
    refine ⟨String.ofList rest, ?_⟩
    rw [← String.toList_inj, ← h]
    simp [ConfigSection.path]
  · rintro ⟨key, rfl⟩
    exact ⟨key.toList, by simp [ConfigSection.path]⟩

private theorem fullPath_path (s : ConfigSection) (key : String) :
    fullPath (s.path key) = s.path key := by
  apply if_pos
  exact List.any_eq_true.mpr ⟨s, mem_all s, isPrefixOf_path_iff.mpr ⟨key, rfl⟩⟩

private theorem fullPath_of_forall_ne (h : ∀ s key, path ≠ ConfigSection.path s key) :
    fullPath path = ConfigSection.settings.path path := by
  apply if_neg
  intro hany
  obtain ⟨s, -, hs⟩ := List.any_eq_true.mp hany
  obtain ⟨key, hkey⟩ := isPrefixOf_path_iff.mp hs
  exact h s key hkey

/-- A path is cut after its section, or names a setting as a whole. -/
theorem splitPath_cases (path : String) :
    (∃ s key, path = ConfigSection.path s key ∧ splitPath path = (s, key)) ∨
      (∀ s key, path ≠ ConfigSection.path s key) ∧ splitPath path = (.settings, path) := by
  unfold splitPath
  split
  · rename_i place hplace
    obtain ⟨s, -, hs⟩ := List.exists_of_findSome?_eq_some hplace
    obtain ⟨key, hkey, rfl⟩ := Option.map_eq_some_iff.mp hs
    exact .inl ⟨s, key, Text.dropStart_eq_some_iff.mp hkey, rfl⟩
  · rename_i hnone
    refine .inr ⟨fun s key hpath => ?_, rfl⟩
    have hs := List.findSome?_eq_none_iff.mp hnone s (mem_all s)
    rw [Text.dropStart_eq_some_iff.mpr hpath] at hs
    cases hs

/-- The section and the key of a path make its full path. -/
theorem fullPath_eq (path : String) :
    fullPath path = (splitPath path).1.path (splitPath path).2 := by
  rcases splitPath_cases path with ⟨s, key, rfl, hsplit⟩ | ⟨hne, hsplit⟩
  · rw [hsplit, fullPath_path]
  · rw [hsplit, fullPath_of_forall_ne hne]

private theorem path_eq_fullPath_iff :
    s.path key = fullPath path ↔ s = (splitPath path).1 ∧ key = (splitPath path).2 := by
  rw [fullPath_eq, path_inj]

private theorem isUnder_fullPath_iff : IsUnder (fullPath path) (s.path key) ↔
    s = (splitPath path).1 ∧ Values.isKeyOrSubKey (splitPath path).2 key = true := by
  have hsub : ∀ rest, fullPath path ++ "." ++ rest =
      (splitPath path).1.path ((splitPath path).2 ++ "." ++ rest) := by
    intro rest
    simp [fullPath_eq, ConfigSection.path, String.append_assoc]
  simp only [IsUnder, path_eq_fullPath_iff, hsub, path_inj, Values.isKeyOrSubKey_iff,
    exists_and_left, and_or_left]

/-! ### Fields -/

private theorem mem_fields_iff {field : String × String} : field ∈ c.fields ↔
    ∃ s key value, field = (ConfigSection.path s key, value) ∧
      (c.get s).get? key = some value := by
  simp only [fields, List.mem_flatMap, List.mem_map, Prod.exists, OrderedMap.get?_eq_some_iff]
  constructor
  · rintro ⟨s, -, key, value, hentry, rfl⟩
    exact ⟨s, key, value, rfl, hentry⟩
  · rintro ⟨s, key, value, rfl, hentry⟩
    exact ⟨s, mem_all s, key, value, hentry, rfl⟩

private theorem path_mem_fields_iff :
    (s.path key, value) ∈ c.fields ↔ (c.get s).get? key = some value := by
  rw [mem_fields_iff]
  constructor
  · rintro ⟨t, other, value', hfield, hget⟩
    obtain ⟨hpath, rfl⟩ := Prod.mk.inj hfield
    obtain ⟨rfl, rfl⟩ := path_inj.mp hpath
    exact hget
  · intro hget
    exact ⟨s, key, value, rfl, hget⟩

private theorem pairwise_fields (c : Configuration) : c.fields.Pairwise FieldBefore := by
  unfold fields
  rw [List.pairwise_flatMap]
  constructor
  · intro s _
    rw [List.pairwise_map]
    refine (c.get s).sorted.imp fun hlt => ?_
    exact .key (compare_lt_iff_lt.mp hlt)
  · refine pairwise_before_all.imp fun hbefore => ?_
    intro x hx y hy
    obtain ⟨e, -, rfl⟩ := List.mem_map.mp hx
    obtain ⟨f, -, rfl⟩ := List.mem_map.mp hy
    exact .earlier hbefore

private theorem FieldBefore.path_ne {f g : String × String} (h : FieldBefore f g) : f.1 ≠ g.1 := by
  intro hpath
  cases h with
  | earlier h => exact h.ne (path_inj.mp hpath).1
  | key h =>
    have hsame := (path_inj.mp hpath).2
    rw [hsame] at h
    exact lt_irrefl _ h

private theorem nodup_fields (c : Configuration) : (c.fields.map (·.1)).Nodup := by
  apply List.pairwise_map.mpr
  exact c.pairwise_fields.imp FieldBefore.path_ne

/-- A path is looked up among the fields by what stands under it. -/
theorem lookup_fields_eq_some_iff :
    c.fields.lookup path = some value ↔ (path, value) ∈ c.fields := by
  constructor
  · exact OrderedMap.mem_of_lookup_eq_some
  · intro h
    apply OrderedMap.lookup_eq_some_of_forall h
    intro other hother
    exact (Prod.mk.inj (List.inj_on_of_nodup_map c.nodup_fields hother h rfl)).2

private theorem lookup_fields (c : Configuration) (s : ConfigSection) (key : String) :
    c.fields.lookup (s.path key) = (c.get s).get? key := by
  refine Option.ext fun value => ?_
  rw [lookup_fields_eq_some_iff, path_mem_fields_iff]

/-- There is no field whose path begins with no section. -/
theorem lookup_fields_eq_none (c : Configuration)
    (h : ∀ s key, path ≠ ConfigSection.path s key) : c.fields.lookup path = none := by
  apply List.lookup_eq_none_iff.mpr
  intro field hfield
  obtain ⟨s, key, value, rfl, -⟩ := mem_fields_iff.mp hfield
  exact bne_iff_ne.mpr (h s key)

private theorem fullPath_of_mem_fields {field : String × String} (h : field ∈ c.fields) :
    fullPath field.1 = field.1 := by
  obtain ⟨s, key, value, rfl, -⟩ := mem_fields_iff.mp h
  exact fullPath_path s key

/-- A configuration is told by what its fields hold. -/
theorem ext_lookup_fields (h : ∀ path, c.fields.lookup path = d.fields.lookup path) : c = d := by
  have hget : ∀ s, c.get s = d.get s := by
    intro s
    apply OrderedMap.ext_get?
    intro key
    rw [← lookup_fields, ← lookup_fields, h]
  obtain ⟨settings, options, requires⟩ := c
  obtain ⟨settings', options', requires'⟩ := d
  rw [mk.injEq]
  exact ⟨hget .settings, hget .options, hget .requires⟩

/-! ### Operations at paths -/

private theorem get_modify (c : Configuration) (s t : ConfigSection) (f : Values → Values) :
    (c.modify s f).get t = if t = s then f (c.get t) else c.get t := by
  cases s <;> cases t <;> rfl

private theorem value?_eq (c : Configuration) (path : String) :
    c.value? path = c.fields.lookup (fullPath path) := by
  rw [fullPath_eq, lookup_fields]
  rfl

private theorem lookup_fields_set (c : Configuration) (path value other : String) :
    (c.set path value).fields.lookup other =
      if other = fullPath path then some value else c.fields.lookup other := by
  by_cases hother : ∃ s key, other = ConfigSection.path s key
  · obtain ⟨s, key, rfl⟩ := hother
    have hset : c.set path value =
        c.modify (splitPath path).1 (·.insert (splitPath path).2 value) := rfl
    rw [lookup_fields, lookup_fields, hset, get_modify]
    by_cases hs : s = (splitPath path).1
    · rw [if_pos hs, OrderedMap.get?_insert]
      simp only [path_eq_fullPath_iff, hs, true_and, beq_iff_eq]
    · rw [if_neg hs, if_neg fun h => hs (path_eq_fullPath_iff.mp h).1]
  · have hnone : ∀ s key, other ≠ ConfigSection.path s key := fun s key h => hother ⟨s, key, h⟩
    rw [lookup_fields_eq_none _ hnone, lookup_fields_eq_none _ hnone, if_neg]
    rw [fullPath_eq]
    exact hnone _ _

/-- Of several fields with one path that are set the last one counts. -/
theorem lookup_fields_foldl_set {assigned : List (String × String)}
    (h : ∀ field ∈ assigned, fullPath field.1 = field.1) (d : Configuration) (path : String) :
    (assigned.foldl (fun d field => d.set field.1 field.2) d).fields.lookup path =
      (assigned.reverse.lookup path).or (d.fields.lookup path) := by
  induction assigned generalizing d with
  | nil => rfl
  | cons first rest ih =>
    obtain ⟨hfirst, hrest⟩ := List.forall_mem_cons.mp h
    rw [List.foldl_cons, ih hrest, lookup_fields_set, hfirst, List.reverse_cons,
      List.lookup_append, Option.or_assoc, List.lookup_cons]
    by_cases hpath : path = first.1
    · simp [hpath]
    · rw [if_neg hpath, beq_false_of_ne hpath]
      rfl

/-- Setting all fields, one after the other, makes the configuration. -/
theorem foldl_set_fields (c : Configuration) :
    c.fields.foldl (fun d field => d.set field.1 field.2) ∅ = c := by
  apply ext_lookup_fields
  intro path
  have hempty : (∅ : Configuration).fields = [] := rfl
  rw [lookup_fields_foldl_set fun field => fullPath_of_mem_fields, hempty, List.lookup_nil,
    Option.or_none]
  refine Option.ext fun value => ⟨fun h => ?_, fun h => ?_⟩
  · have hmem := List.mem_reverse.mp (OrderedMap.mem_of_lookup_eq_some h)
    exact lookup_fields_eq_some_iff.mpr hmem
  · have hmem := lookup_fields_eq_some_iff.mp h
    apply OrderedMap.lookup_eq_some_of_forall (List.mem_reverse.mpr hmem)
    intro other hother
    have hlookup := lookup_fields_eq_some_iff.mpr (List.mem_reverse.mp hother)
    exact Option.some.inj (hlookup.symm.trans h)

/-- A value stays if its path is neither the one that is removed nor under it. -/
theorem get?_remove : ((c.remove path).get s).get? key = some value ↔
    (c.get s).get? key = some value ∧ ¬IsUnder (fullPath path) (s.path key) := by
  have hremove : c.remove path = c.modify (splitPath path).1 (·.remove (splitPath path).2) := rfl
  rw [hremove, get_modify, isUnder_fullPath_iff]
  by_cases hs : s = (splitPath path).1
  · rw [if_pos hs, Values.remove, OrderedMap.get?_filter, Option.filter_eq_some_iff]
    simp [hs]
  · rw [if_neg hs]
    simp [hs]

private theorem mem_fields_remove {field : String × String} : field ∈ (c.remove path).fields ↔
    field ∈ c.fields ∧ ¬IsUnder (fullPath path) field.1 := by
  constructor
  · intro h
    obtain ⟨s, key, value, rfl, hget⟩ := mem_fields_iff.mp h
    obtain ⟨hget, hunder⟩ := get?_remove.mp hget
    exact ⟨path_mem_fields_iff.mpr hget, hunder⟩
  · rintro ⟨h, hunder⟩
    obtain ⟨s, key, value, rfl, hget⟩ := mem_fields_iff.mp h
    exact path_mem_fields_iff.mpr (get?_remove.mpr ⟨hget, hunder⟩)

private theorem covers_iff : c.covers path = true ↔
    ∃ field ∈ c.fields, IsUnder (fullPath path) field.1 := by
  have hcovers : c.covers path = (c.get (splitPath path).1).keys.any
      (Values.isKeyOrSubKey (splitPath path).2) := rfl
  rw [hcovers, List.any_eq_true]
  constructor
  · rintro ⟨key, hkey, hsub⟩
    obtain ⟨⟨_, value⟩, hentry, rfl⟩ := List.mem_map.mp hkey
    have hget := OrderedMap.get?_eq_some_iff.mpr hentry
    exact ⟨_, path_mem_fields_iff.mpr hget, isUnder_fullPath_iff.mpr ⟨rfl, hsub⟩⟩
  · rintro ⟨field, hfield, hunder⟩
    obtain ⟨s, key, value, rfl, hget⟩ := mem_fields_iff.mp hfield
    obtain ⟨rfl, hsub⟩ := isUnder_fullPath_iff.mp hunder
    exact ⟨key, List.mem_map_of_mem (OrderedMap.get?_eq_some_iff.mp hget), hsub⟩

/-- A configuration is what its fields say. They are in order and each stands there once, and what
is read, set or removed at a path are the fields at its full path or under it. -/
structure IsDescribedByFields (c : Configuration) : Prop where
  nodup : (c.fields.map (·.1)).Nodup
  sorted : c.fields.Pairwise FieldBefore
  rebuilt : c.fields.foldl (fun d field => d.set field.1 field.2) ∅ = c
  read : ∀ path, c.value? path = c.fields.lookup (fullPath path)
  set : ∀ path value other, (c.set path value).fields.lookup other =
    if other = fullPath path then some value else c.fields.lookup other
  remove : ∀ path field, field ∈ (c.remove path).fields ↔
    field ∈ c.fields ∧ ¬IsUnder (fullPath path) field.1
  /-- There is something to remove just if some field is lost. -/
  covers : ∀ path, c.covers path = true ↔ ∃ field ∈ c.fields, field ∉ (c.remove path).fields

/-- Reading, setting and removing at a path are operations on the list of fields, which gives the
configuration back. -/
theorem isDescribedByFields (c : Configuration) : c.IsDescribedByFields where
  nodup := c.nodup_fields
  sorted := c.pairwise_fields
  rebuilt := c.foldl_set_fields
  read := c.value?_eq
  set := c.lookup_fields_set
  remove path field := mem_fields_remove
  covers path := by
    rw [covers_iff]
    apply exists_congr
    intro field
    rw [mem_fields_remove, not_and, not_not]
    exact ⟨fun h => ⟨h.1, fun _ => h.2⟩, fun h => ⟨h.1, h.2 h.1⟩⟩

/-- A key that looks like a path of another section, an empty key, and a setting without its
section: the first is no option, and removing the settings called `a` leaves `a_b`. -/
example :
    let c : Configuration := ((((∅ : Configuration).set "settings.options.x" "1").set "" "2").set
      "a.b" "3").set "a_b" "4"
    c.fields = [("settings.", "2"), ("settings.a.b", "3"), ("settings.a_b", "4"),
        ("settings.options.x", "1")] ∧
      c.value? "options.x" = none ∧
      (c.remove "a").fields.map (·.1) = ["settings.", "settings.a_b", "settings.options.x"] := by
  decide +kernel

end Configuration

end Provision
