import AmoAnalytics.Amo.WebhookBody

/-!
# Decoding a form-encoded tree

The bracket form-encoding of a tree lists its leaves with their paths as keys. Rebuilding an object from these
entries, in any order, gives the tree again up to the order of its keys: what is found at every path is determined by
the leaves, and each entry adds its own leaf.
-/

namespace AmoAnalytics.Amo

open JsText JsValue

/-! ## Trees and their encoding -/

/-- A key that is not empty, has no brackets and is no name that every object inherits. -/
structure GoodKey (key : JsString) : Prop where
  nonempty : key ≠ []
  noOpen : (91 : UInt16) ∉ key
  noClose : (93 : UInt16) ∉ key
  own : key ∉ inherited

/-- An object tree whose leaves are strings. -/
inductive IsTree : JsValue → Prop
  | str (s : JsString) : IsTree (.str s)
  | obj (fields : Fields) : fields ≠ [] → (fields.map Prod.fst).Nodup →
    (∀ field ∈ fields, GoodKey field.1) → (∀ field ∈ fields, IsTree field.2) → IsTree (.obj fields)

/-- The properties of a body whose values are trees. -/
structure IsForm (fields : Fields) : Prop where
  keys : (fields.map Prod.fst).Nodup
  good : ∀ field ∈ fields, GoodKey field.1
  tree : ∀ field ∈ fields, IsTree field.2

mutual

/-- The leaves of a value with their paths. -/
def leaves : JsValue → List (List JsString × JsValue)
  | .obj fields => leavesOf fields
  | v => [([], v)]

def leavesOf : List (JsString × JsValue) → List (List JsString × JsValue)
  | [] => []
  | (key, v) :: fields => (leaves v).map (fun leaf => (key :: leaf.1, leaf.2)) ++ leavesOf fields

end

/-- The key of a path: `a[b][c]`. -/
def formKey : List JsString → JsString
  | [] => []
  | part :: path => part ++ path.flatMap fun part => 91 :: (part ++ [93])

/-- The entry of a leaf in a form-encoded body. -/
def formEntry (leaf : List JsString × JsValue) : JsString × JsValue := (formKey leaf.1, leaf.2)

/-! ## Keys -/

theorem bracketGroups_skip {text rest : JsString} (h : (91 : UInt16) ∉ text) :
    bracketGroups none (text ++ rest) = bracketGroups none rest := by
  induction text with
  | nil => rfl
  | cons c text ih =>
    have hc : c ≠ 91 := fun heq => h (heq ▸ List.mem_cons_self)
    rw [List.cons_append, bracketGroups, if_neg hc, ih fun hmem => h (List.mem_cons_of_mem _ hmem)]

theorem bracketGroups_close {text rest acc : JsString} (h : (93 : UInt16) ∉ text) :
    bracketGroups (some acc) (text ++ 93 :: rest) = (acc ++ text) :: bracketGroups none rest := by
  induction text generalizing acc with
  | nil => rw [List.nil_append, bracketGroups, if_pos rfl, List.append_nil]
  | cons c text ih =>
    have hc : c ≠ 93 := fun heq => h (heq ▸ List.mem_cons_self)
    rw [List.cons_append, bracketGroups, if_neg hc, ih fun hmem => h (List.mem_cons_of_mem _ hmem), List.append_assoc]
    rfl

theorem bracketGroups_path {path : List JsString} (h : ∀ part ∈ path, GoodKey part) :
    bracketGroups none (path.flatMap fun part => 91 :: (part ++ [93])) = path := by
  induction path with
  | nil => rfl
  | cons part path ih =>
    have hpart := h part List.mem_cons_self
    rw [List.flatMap_cons, List.cons_append, bracketGroups, if_pos rfl, List.append_assoc, List.singleton_append,
      bracketGroups_close hpart.noClose, List.nil_append,
      ih fun other hother => h other (List.mem_cons_of_mem _ hother)]

/-- The path is read back from its key. -/
theorem parseFormBodyPath_formKey {path : List JsString} (hne : path ≠ []) (h : ∀ part ∈ path, GoodKey part) :
    parseFormBodyPath (formKey path) = path := by
  cases path with
  | nil => exact absurd rfl hne
  | cons part path =>
    have hpart := h part List.mem_cons_self
    have hpath : ∀ other ∈ path, GoodKey other := fun other hother => h other (List.mem_cons_of_mem _ hother)
    have hfirst : (formKey (part :: path)).takeWhile (· ≠ 91) = part := by
      have hall : ∀ c ∈ part, decide (c ≠ 91) = true := fun c hc => decide_eq_true fun heq => hpart.noOpen (heq ▸ hc)
      rw [formKey, List.takeWhile_append_of_pos hall]
      cases path with
      | nil => rw [List.flatMap_nil, List.takeWhile_nil, List.append_nil]
      | cons other path =>
        rw [List.flatMap_cons, List.cons_append, List.takeWhile_cons_of_neg (by decide), List.append_nil]
    rw [parseFormBodyPath, hfirst, formKey, bracketGroups_skip hpart.noOpen, bracketGroups_path hpath,
      List.filter_eq_self]
    intro other hother
    exact decide_eq_true (h other hother).nonempty

/-! ## What the leaves say -/

/-- The leaves determine what is found at every path. -/
structure Describes (leaves : List (List JsString × JsValue)) (v : JsValue) : Prop where
  leaf : ∀ {path s}, (path, s) ∈ leaves → valueAt v path = some (some s)
  inner : ∀ {path part rest s}, (path ++ part :: rest, s) ∈ leaves → valueAt v path = some none
  found : ∀ {path}, valueAt v path ≠ none → path = [] ∨ ∃ leaf ∈ leaves, path <+: leaf.1

theorem mem_leavesOf {fields : Fields} {path : List JsString} {s : JsValue} :
    (path, s) ∈ leavesOf fields ↔ ∃ field ∈ fields, ∃ rest, (rest, s) ∈ leaves field.2 ∧ path = field.1 :: rest := by
  induction fields with
  | nil => simp [leavesOf]
  | cons field fields ih =>
    rw [leavesOf, List.mem_append, ih, List.exists_mem_cons_iff, List.mem_map]
    refine or_congr_left ⟨?_, ?_⟩
    · rintro ⟨leaf, hleaf, heq⟩
      obtain ⟨rfl, rfl⟩ := Prod.mk.inj heq
      exact ⟨leaf.1, hleaf, rfl⟩
    · rintro ⟨rest, hleaf, rfl⟩
      exact ⟨(rest, s), hleaf, rfl⟩

/-- An object is described by the leaves of its properties. -/
theorem describes_leavesOf {fields : Fields} (hkeys : (fields.map Prod.fst).Nodup)
    (h : ∀ field ∈ fields, Describes (leaves field.2) field.2 ∧ leaves field.2 ≠ []) :
    Describes (leavesOf fields) (.obj fields) where
  leaf hmem := by
    obtain ⟨field, hfield, rest, hleaf, rfl⟩ := mem_leavesOf.1 hmem
    rw [valueAt_obj_cons, get?_of_mem hkeys (show (field.1, field.2) ∈ fields from hfield)]
    exact (h field hfield).1.leaf hleaf
  inner {path part rest s} hmem := by
    obtain ⟨field, hfield, rest', hleaf, heq⟩ := mem_leavesOf.1 hmem
    cases path with
    | nil => exact valueAt_obj_nil
    | cons key path =>
      obtain ⟨rfl, rfl⟩ := List.cons.inj heq
      rw [valueAt_obj_cons, get?_of_mem hkeys (show (field.1, field.2) ∈ fields from hfield)]
      exact (h field hfield).1.inner hleaf
  found {path} hfound := by
    cases path with
    | nil => exact Or.inl rfl
    | cons key path =>
      rw [valueAt_obj_cons] at hfound
      rcases hget : JsMap.get? key fields with _ | v
      · exact absurd (by rw [hget]; rfl) hfound
      rw [hget, Option.bind_some] at hfound
      have hfield := JsMap.mem_of_get? hget
      obtain ⟨hdescribes, hne⟩ := h _ hfield
      right
      rcases hdescribes.found hfound with rfl | ⟨leaf, hleaf, hbegins⟩
      · obtain ⟨leaf, hleaf⟩ := List.exists_mem_of_ne_nil _ hne
        exact ⟨(key :: leaf.1, leaf.2), mem_leavesOf.2 ⟨_, hfield, leaf.1, hleaf, rfl⟩, leaf.1, rfl⟩
      · exact ⟨(key :: leaf.1, leaf.2), mem_leavesOf.2 ⟨_, hfield, leaf.1, hleaf, rfl⟩,
          (List.cons_prefix_cons).2 ⟨rfl, hbegins⟩⟩

theorem leaves_leaf {v : JsValue} (h : v.isObject = false) : leaves v = [([], v)] := by
  cases v <;> first | rfl | exact nomatch h

/-- A tree is described by its leaves, and it has some. -/
theorem describes_leaves {v : JsValue} (h : IsTree v) : Describes (leaves v) v ∧ leaves v ≠ [] := by
  induction h with
  | str s =>
    rw [leaves_leaf rfl]
    refine ⟨⟨fun hmem => ?_, fun hmem => ?_, fun {path} hfound => ?_⟩, List.cons_ne_nil _ _⟩
    · obtain ⟨rfl, rfl⟩ := Prod.mk.inj (List.mem_singleton.1 hmem)
      exact valueAt_leaf_nil rfl
    · have hnil := (Prod.mk.inj (List.mem_singleton.1 hmem)).1
      exact absurd hnil (by simp)
    · cases path with
      | nil => exact Or.inl rfl
      | cons key path => exact absurd (valueAt_leaf_cons rfl) hfound
  | obj fields hne hkeys hgood htree ih =>
    refine ⟨describes_leavesOf hkeys ih, ?_⟩
    obtain ⟨field, hfield⟩ := List.exists_mem_of_ne_nil _ hne
    obtain ⟨leaf, hleaf⟩ := List.exists_mem_of_ne_nil _ (ih field hfield).2
    exact List.ne_nil_of_mem (mem_leavesOf.2 ⟨field, hfield, leaf.1, hleaf, rfl⟩)

/-- Objects that the same leaves describe are equal. -/
theorem Describes.same {leaves leaves' : List (List JsString × JsValue)} {fields gs : Fields}
    (h : Describes leaves (.obj fields)) (h' : Describes leaves' (.obj gs))
    (hiff : ∀ leaf, leaf ∈ leaves ↔ leaf ∈ leaves') : Same (.obj fields) (.obj gs) := by
  have hnone : ∀ {leaves leaves' : List (List JsString × JsValue)} {fields gs : Fields} (path),
      Describes leaves (.obj fields) → Describes leaves' (.obj gs) → (∀ leaf, leaf ∈ leaves ↔ leaf ∈ leaves') →
      valueAt (.obj fields) path ≠ none → valueAt (.obj fields) path = valueAt (.obj gs) path := by
    intro leaves leaves' fields gs path h h' hiff hfound
    rcases h.found hfound with rfl | ⟨leaf, hleaf, rest, hrest⟩
    · rw [valueAt_obj_nil, valueAt_obj_nil]
    · cases rest with
      | nil =>
        rw [List.append_nil] at hrest
        subst hrest
        rw [h.leaf hleaf, h'.leaf ((hiff _).1 hleaf)]
      | cons part rest =>
        have hmem : (path ++ part :: rest, leaf.2) ∈ leaves := by
          rw [hrest]
          exact hleaf
        rw [h.inner hmem, h'.inner ((hiff _).1 hmem)]
  intro path
  by_cases hleft : valueAt (.obj fields) path = none
  · by_contra hne
    have hright : valueAt (.obj gs) path ≠ none := fun hright => hne (hleft.trans hright.symm)
    exact hne (hnone path h' h (fun leaf => (hiff leaf).symm) hright).symm
  · exact hnone path h h' hiff hleft

/-! ## Writing a leaf -/

theorem get?_append {fields gs : Fields} {key : JsString} (h : key ∉ fields.map Prod.fst) :
    JsMap.get? key (fields ++ gs) = JsMap.get? key gs := by
  induction fields with
  | nil => rfl
  | cons field fields ih =>
    have hne : field.1 ≠ key := fun heq => h (heq ▸ List.mem_cons_self)
    rw [List.cons_append, JsMap.get?_cons, if_neg hne, ih fun hmem => h (List.mem_cons_of_mem _ hmem)]

theorem get?_insert {fields gs : Fields} {key new : JsString} {value : JsValue} (hne : new ≠ key) :
    JsMap.get? key (fields ++ (new, value) :: gs) = JsMap.get? key (fields ++ gs) := by
  induction fields with
  | nil => rw [List.nil_append, JsMap.get?_cons, if_neg hne, List.nil_append]
  | cons field fields ih => rw [List.cons_append, List.cons_append, JsMap.get?_cons, JsMap.get?_cons, ih]

theorem get?_assign (key new : JsString) (value : JsValue) (fields : Fields) :
    JsMap.get? key (assign new value fields) = if new = key then some value else JsMap.get? key fields := by
  unfold assign
  split_ifs with hmem heq heq
  · rw [JsMap.get?_set, if_pos heq]
  · rw [JsMap.get?_set, if_neg heq]
  · subst heq
    rw [get?_append, JsMap.get?_cons, if_pos rfl]
    intro htaken
    exact hmem ((List.takeWhile_sublist _).map Prod.fst |>.subset htaken)
  · rw [get?_insert heq, List.takeWhile_append_dropWhile]

theorem mem_assign {new : JsString} {value : JsValue} {fields : Fields} {field : JsString × JsValue}
    (h : field ∈ assign new value fields) : field = (new, value) ∨ field ∈ fields := by
  unfold assign at h
  split_ifs at h
  · exact JsMap.mem_of_mem_set h
  · rcases List.mem_append.1 h with h | h
    · exact Or.inr ((List.takeWhile_sublist _).subset h)
    · exact (List.mem_cons.1 h).imp_right fun h => (List.dropWhile_sublist _).subset h

theorem nodup_assign {new : JsString} {value : JsValue} {fields : Fields} (h : (fields.map Prod.fst).Nodup) :
    ((assign new value fields).map Prod.fst).Nodup := by
  unfold assign
  split_ifs with hmem
  · exact JsMap.nodup_keys_set h
  · have hperm : (fields.takeWhile (precedes new) ++ (new, value) :: fields.dropWhile (precedes new)).Perm
        ((new, value) :: fields) := by
      refine List.perm_middle.trans (List.Perm.cons _ ?_)
      rw [List.takeWhile_append_dropWhile]
    exact (hperm.map Prod.fst).nodup_iff.2 (List.nodup_cons.2 ⟨hmem, h⟩)

theorem wellKeyed_assign {new : JsString} {value : JsValue} {fields : Fields} (h : WellKeyed (.obj fields))
    (hvalue : WellKeyed value) : WellKeyed (.obj (assign new value fields)) := by
  cases h with
  | leaf _ hleaf => exact nomatch hleaf
  | obj _ hkeys hfields =>
    refine .obj _ (nodup_assign hkeys) fun field hfield => ?_
    rcases mem_assign hfield with rfl | hold
    · exact hvalue
    · exact hfields field hold

/-- A leaf written at a free path, with objects or nothing on the way. -/
theorem setWebhookBodyValue_spec {path : List JsString} {value : JsValue} (hvalue : value.isObject = false)
    (hkeys : ∀ part ∈ path, part ∉ inherited) (hne : path ≠ []) {target : Fields}
    (hway : ∀ before s, before <+: path → valueAt (.obj target) before ≠ some (some s))
    (hfree : valueAt (.obj target) path = none) (hwell : WellKeyed (.obj target)) :
    ∃ result, setWebhookBodyValue target path value = some result ∧ WellKeyed (.obj result) ∧
      ∀ other, valueAt (.obj result) other = if other = path then some (some value)
        else if other <+: path then some none else valueAt (.obj target) other := by
  induction path generalizing target with
  | nil => exact absurd rfl hne
  | cons part path ih =>
    have hpart := hkeys part List.mem_cons_self
    cases path with
    | nil =>
      have hproto : part ≠ js "__proto__" := fun heq => hpart (heq ▸ List.mem_cons_self)
      refine ⟨_, by rw [setWebhookBodyValue, if_neg hproto], wellKeyed_assign hwell (.leaf _ hvalue), fun other => ?_⟩
      cases other with
      | nil => rw [valueAt_obj_nil, if_neg (by simp), if_pos (List.nil_prefix)]
      | cons key other =>
        rw [valueAt_obj_cons, get?_assign]
        by_cases hkey : part = key
        · subst hkey
          rw [if_pos rfl, Option.bind_some]
          cases other with
          | nil => rw [valueAt_leaf_nil hvalue, if_pos rfl]
          | cons next other =>
            rw [valueAt_leaf_cons hvalue, if_neg (by simp), if_neg (by simp), valueAt_obj_cons]
            rw [valueAt_obj_cons, Option.bind_eq_none_iff] at hfree
            cases hget : JsMap.get? part target with
            | none => rfl
            | some v => exact absurd (hfree v hget) valueAt_nil_ne_none
        · rw [if_neg hkey, if_neg (by simp [Ne.symm hkey]), if_neg (by simp [Ne.symm hkey]), valueAt_obj_cons]
    | cons next rest =>
      have hrest : ∀ other ∈ next :: rest, other ∉ inherited := fun other hother =>
        hkeys other (List.mem_cons_of_mem _ hother)
      -- Whether the property is missing or an object, the rest of the path is written into its properties.
      have hdescend : ∀ inner : Fields, (JsMap.get? part target = some (.obj inner) ∨
            JsMap.get? part target = none ∧ inner = []) → WellKeyed (.obj inner) →
          ∃ result, setWebhookBodyValue target (part :: next :: rest) value = some result ∧
            WellKeyed (.obj result) ∧ ∀ other, valueAt (.obj result) other =
              if other = part :: next :: rest then some (some value)
              else if other <+: part :: next :: rest then some none else valueAt (.obj target) other := by
        intro inner hinner hinnerWell
        have hbelow : ∀ other, other ≠ [] → valueAt (.obj inner) other = valueAt (.obj target) (part :: other) := by
          intro other hother
          rw [valueAt_obj_cons]
          rcases hinner with hget | ⟨hget, rfl⟩
          · rw [hget, Option.bind_some]
          · rw [hget]
            cases other with
            | nil => exact absurd rfl hother
            | cons key other => exact valueAt_obj_cons
        obtain ⟨inner', hset, hwell', hat⟩ := @ih hrest (List.cons_ne_nil _ _) inner
          (fun before s hbefore => by
            cases before with
            | nil => rw [valueAt_obj_nil]; nofun
            | cons key before =>
              rw [hbelow _ (List.cons_ne_nil _ _)]
              exact hway _ s (List.cons_prefix_cons.2 ⟨rfl, hbefore⟩))
          (by rw [hbelow _ (List.cons_ne_nil _ _), hfree]) hinnerWell
        refine ⟨assign part (.obj inner') target, ?_, wellKeyed_assign hwell hwell', fun other => ?_⟩
        · rw [setWebhookBodyValue]
          rcases hinner with hget | ⟨hget, rfl⟩
          · rw [hget]
            exact congrArg (Option.map _) hset
          · rw [hget]
            dsimp only
            rw [if_neg hpart, hset, Option.map_some]
        · cases other with
          | nil => rw [valueAt_obj_nil, if_neg (by simp), if_pos List.nil_prefix]
          | cons key other =>
            rw [valueAt_obj_cons, get?_assign]
            by_cases hkey : part = key
            · subst hkey
              rw [if_pos rfl, Option.bind_some, hat]
              by_cases hother : other = []
              · subst hother
                rw [if_neg (by simp), if_pos List.nil_prefix, if_neg (by simp), if_pos (by simp)]
              · rw [hbelow other hother]
                simp only [List.cons.injEq, true_and, List.cons_prefix_cons]
            · rw [if_neg hkey, if_neg (by simp [Ne.symm hkey]), if_neg (by simp [Ne.symm hkey]), valueAt_obj_cons]
      rcases hget : JsMap.get? part target with _ | v
      · exact hdescend [] (Or.inr ⟨hget, rfl⟩) (.obj [] List.nodup_nil nofun)
      · cases hv : v.isObject with
        | true =>
          obtain ⟨inner, rfl⟩ := exists_fields hv
          refine hdescend inner (Or.inl hget) ?_
          cases hwell with
          | leaf _ hleaf => exact nomatch hleaf
          | obj _ _ hfields => exact hfields _ (JsMap.mem_of_get? hget)
        | false =>
          refine absurd ?_ (hway [part] v (List.cons_prefix_cons.2 ⟨rfl, List.nil_prefix⟩))
          rw [valueAt_obj_cons, hget, Option.bind_some, valueAt_leaf_nil hv]

/-! ## The leaves of a form -/

theorem leaf_facts {v : JsValue} (h : IsTree v) {leaf : List JsString × JsValue} (hleaf : leaf ∈ leaves v) :
    (∀ part ∈ leaf.1, GoodKey part) ∧ leaf.2.isObject = false := by
  induction h generalizing leaf with
  | str s =>
    rw [leaves_leaf rfl, List.mem_singleton] at hleaf
    subst hleaf
    exact ⟨fun _ hmem => absurd hmem List.not_mem_nil, rfl⟩
  | obj fields _ _ hgood _ ih =>
    obtain ⟨field, hfield, rest, hrest, hpath⟩ := mem_leavesOf.1 hleaf
    obtain ⟨hparts, hobject⟩ := ih field hfield hrest
    refine ⟨fun part hpart => ?_, hobject⟩
    rw [hpath] at hpart
    rcases List.mem_cons.1 hpart with rfl | hpart
    · exact hgood field hfield
    · exact hparts part hpart

theorem nodup_leavesOf {fields : Fields} (hkeys : (fields.map Prod.fst).Nodup)
    (h : ∀ field ∈ fields, ((leaves field.2).map Prod.fst).Nodup) : ((leavesOf fields).map Prod.fst).Nodup := by
  induction fields with
  | nil => exact List.nodup_nil
  | cons field fields ih =>
    rw [List.map_cons, List.nodup_cons] at hkeys
    rw [leavesOf, List.map_append, List.map_map, List.nodup_append]
    refine ⟨?_, ih hkeys.2 fun other hother => h other (List.mem_cons_of_mem _ hother), ?_⟩
    · have hcons := (h field List.mem_cons_self).map (List.cons_injective (a := field.1))
      rwa [List.map_map] at hcons
    · intro path hpath path' hpath' heq
      obtain ⟨leaf, -, rfl⟩ := List.mem_map.1 hpath
      obtain ⟨⟨_, s⟩, hleaf', rfl⟩ := List.mem_map.1 hpath'
      obtain ⟨other, hother, rest, -, rfl⟩ := mem_leavesOf.1 hleaf'
      exact hkeys.1 ((List.cons.inj heq).1 ▸ List.mem_map_of_mem hother)

theorem nodup_leaves {v : JsValue} (h : IsTree v) : ((leaves v).map Prod.fst).Nodup := by
  induction h with
  | str s =>
    rw [leaves_leaf rfl]
    exact List.nodup_singleton _
  | obj fields _ hkeys _ _ ih => exact nodup_leavesOf hkeys ih

namespace IsForm

variable {fields : Fields} (h : IsForm fields)

include h

theorem describes : Describes (leavesOf fields) (.obj fields) :=
  describes_leavesOf h.keys fun field hfield => describes_leaves (h.tree field hfield)

theorem nodup : ((leavesOf fields).map Prod.fst).Nodup :=
  nodup_leavesOf h.keys fun field hfield => nodup_leaves (h.tree field hfield)

theorem facts {leaf : List JsString × JsValue} (hleaf : leaf ∈ leavesOf fields) :
    leaf.1 ≠ [] ∧ (∀ part ∈ leaf.1, GoodKey part) ∧ leaf.2.isObject = false := by
  obtain ⟨field, hfield, rest, hrest, hpath⟩ := mem_leavesOf.1 hleaf
  obtain ⟨hparts, hobject⟩ := leaf_facts (h.tree field hfield) hrest
  rw [hpath]
  refine ⟨List.cons_ne_nil _ _, fun part hpart => ?_, hobject⟩
  rcases List.mem_cons.1 hpart with rfl | hpart
  · exact h.good field hfield
  · exact hparts part hpart

/-- No leaf lies below another one. -/
theorem prefix_free {leaf leaf' : List JsString × JsValue} (hleaf : leaf ∈ leavesOf fields)
    (hleaf' : leaf' ∈ leavesOf fields) (hbegins : leaf.1 <+: leaf'.1) : leaf.1 = leaf'.1 := by
  obtain ⟨rest, hrest⟩ := hbegins
  cases rest with
  | nil => rwa [List.append_nil] at hrest
  | cons part rest =>
    have hmem : (leaf.1 ++ part :: rest, leaf'.2) ∈ leavesOf fields := by
      rw [hrest]
      exact hleaf'
    exact nomatch (h.describes.leaf hleaf).symm.trans (h.describes.inner hmem)

/-! ## Decoding the entries -/

/-- One more entry adds its leaf. -/
theorem setEntry_describes {done : List (List JsString × JsValue)} {leaf : List JsString × JsValue} {result : Fields}
    (hdone : done ⊆ leavesOf fields) (hleaf : leaf ∈ leavesOf fields) (hnew : leaf.1 ∉ done.map Prod.fst)
    (hresult : Describes done (.obj result)) (hwell : WellKeyed (.obj result)) :
    ∃ next, setEntry result (formEntry leaf) = some next ∧ WellKeyed (.obj next) ∧
      Describes (done ++ [leaf]) (.obj next) := by
  obtain ⟨hne, hgood, hobject⟩ := h.facts hleaf
  have hapart : ∀ {other}, other ∈ done → leaf.1 <+: other.1 ∨ other.1 <+: leaf.1 → False := by
    intro other hother hbegins
    refine hnew (List.mem_map.2 ⟨other, hother, ?_⟩)
    rcases hbegins with hbegins | hbegins
    · exact (h.prefix_free hleaf (hdone hother) hbegins).symm
    · exact h.prefix_free (hdone hother) hleaf hbegins
  have hway : ∀ before s, before <+: leaf.1 → valueAt (.obj result) before ≠ some (some s) := by
    intro before s hbefore hat
    rcases hresult.found (by rw [hat]; nofun) with rfl | ⟨other, hother, rest, hrest⟩
    · exact nomatch valueAt_obj_nil.symm.trans hat
    · cases rest with
      | nil =>
        rw [List.append_nil] at hrest
        exact hapart hother (Or.inr (hrest ▸ hbefore))
      | cons part rest =>
        have hmem : (before ++ part :: rest, other.2) ∈ done := by
          rw [hrest]
          exact hother
        exact nomatch (hresult.inner hmem).symm.trans hat
  have hfree : valueAt (.obj result) leaf.1 = none := by
    by_contra hfound
    rcases hresult.found hfound with hnil | ⟨other, hother, hbegins⟩
    · exact hne hnil
    · exact hapart hother (Or.inl hbegins)
  obtain ⟨next, hset, hwell', hat⟩ := setWebhookBodyValue_spec hobject (fun part hpart => (hgood part hpart).own) hne
    hway hfree hwell
  refine ⟨next, ?_, hwell', fun {path s} hmem => ?_, fun {path part rest s} hmem => ?_, fun {path} hfound => ?_⟩
  · have hpath : parseFormBodyPath (formEntry leaf).1 = leaf.1 := parseFormBodyPath_formKey hne hgood
    simp only [setEntry, hpath, if_neg hne]
    exact hset
  · rw [hat]
    rcases List.mem_append.1 hmem with hmem | hmem
    · rw [if_neg fun heq : path = leaf.1 => hapart hmem (Or.inl (heq ▸ List.prefix_rfl)),
        if_neg fun hbegins => hapart hmem (Or.inr hbegins), hresult.leaf hmem]
    · rw [← List.mem_singleton.1 hmem, if_pos rfl]
  · rw [hat]
    rcases List.mem_append.1 hmem with hmem | hmem
    · rw [if_neg fun heq : path = leaf.1 => hapart hmem (Or.inl (heq ▸ List.prefix_append _ _)),
        hresult.inner hmem, ite_self]
    · have hpath := congrArg Prod.fst (List.mem_singleton.1 hmem)
      rw [← hpath, if_neg (by simp), if_pos (List.prefix_append _ _)]
  · rw [hat] at hfound
    split_ifs at hfound with heq hbegins
    · exact Or.inr ⟨leaf, List.mem_append_right _ (List.mem_singleton_self _), heq ▸ List.prefix_rfl⟩
    · exact Or.inr ⟨leaf, List.mem_append_right _ (List.mem_singleton_self _), hbegins⟩
    · refine (hresult.found hfound).imp_right fun ⟨other, hother, hbegins⟩ => ?_
      exact ⟨other, List.mem_append_left _ hother, hbegins⟩

/-- The entries of some leaves rebuild an object that they describe. -/
theorem foldlM_setEntry {order : List (List JsString × JsValue)} (hsub : order ⊆ leavesOf fields)
    (hnodup : (order.map Prod.fst).Nodup) : ∃ result, (order.map formEntry).foldlM setEntry [] = some result ∧
      WellKeyed (.obj result) ∧ Describes order (.obj result) := by
  induction order using List.reverseRecOn with
  | nil =>
    refine ⟨[], rfl, .obj [] List.nodup_nil nofun, nofun, nofun, fun {path} hfound => ?_⟩
    cases path with
    | nil => exact Or.inl rfl
    | cons key path => exact absurd valueAt_obj_cons hfound
  | append_singleton order leaf ih =>
    rw [List.map_append, List.nodup_append] at hnodup
    obtain ⟨result, hfold, hwell, hdescribes⟩ := ih (List.append_subset.1 hsub).1 hnodup.1
    obtain ⟨next, hset, hwell', hdescribes'⟩ := h.setEntry_describes (List.append_subset.1 hsub).1
      ((List.append_subset.1 hsub).2 (List.mem_singleton_self _))
      (fun hmem => hnodup.2.2 _ hmem _ (List.mem_singleton_self _) rfl) hdescribes hwell
    refine ⟨next, ?_, hwell', hdescribes'⟩
    rw [List.map_append, List.foldlM_append, hfold]
    exact (bind_pure _).trans hset

/-- A form without a bracket is a form already. -/
theorem describes_flat {order : List (List JsString × JsValue)} (hsub : order ⊆ leavesOf fields)
    (hnodup : (order.map Prod.fst).Nodup) (hflat : ∀ leaf ∈ order, (91 : UInt16) ∉ formKey leaf.1) :
    WellKeyed (.obj (order.map formEntry)) ∧ Describes order (.obj (order.map formEntry)) := by
  have hsingle : ∀ leaf ∈ order, ∃ key, leaf.1 = [key] ∧ formEntry leaf = (key, leaf.2) := by
    intro leaf hleaf
    obtain ⟨hne, -, -⟩ := h.facts (hsub hleaf)
    rcases hpath : leaf.1 with _ | ⟨key, rest⟩
    · exact absurd hpath hne
    · cases rest with
      | nil => exact ⟨key, rfl, by simp [formEntry, formKey, hpath]⟩
      | cons next rest =>
        refine absurd ?_ (hflat leaf hleaf)
        rw [hpath]
        exact List.mem_append_right _ List.mem_cons_self
  have hkeys : ((order.map formEntry).map Prod.fst).Nodup := by
    rw [List.map_map]
    refine (List.nodup_map_iff_inj_on (List.Nodup.of_map _ hnodup)).2 fun leaf hleaf other hother heq => ?_
    obtain ⟨key, hpath, hentry⟩ := hsingle leaf hleaf
    obtain ⟨key', hpath', hentry'⟩ := hsingle other hother
    have hkey : key = key' := by
      simpa [hentry, hentry'] using heq
    exact List.inj_on_of_nodup_map hnodup hleaf hother (by rw [hpath, hpath', hkey])
  have hmem : ∀ leaf ∈ order, ∀ key, leaf.1 = [key] → JsMap.get? key (order.map formEntry) = some leaf.2 := by
    intro leaf hleaf key hpath
    refine get?_of_mem hkeys (List.mem_map.2 ⟨leaf, hleaf, ?_⟩)
    obtain ⟨key', hpath', hentry⟩ := hsingle leaf hleaf
    rw [hentry, (List.cons.inj (hpath.symm.trans hpath')).1]
  refine ⟨.obj _ hkeys fun field hfield => ?_, fun {path s} hleaf => ?_, fun {path part rest s} hleaf => ?_,
    fun {path} hfound => ?_⟩
  · obtain ⟨leaf, hleaf, rfl⟩ := List.mem_map.1 hfield
    exact .leaf _ (h.facts (hsub hleaf)).2.2
  · obtain ⟨key, hpath, -⟩ := hsingle _ hleaf
    have hobject := (h.facts (hsub hleaf)).2.2
    dsimp only at hpath hobject
    subst hpath
    rw [valueAt_obj_cons, hmem _ hleaf key rfl, Option.bind_some, valueAt_leaf_nil hobject]
  · obtain ⟨key, hpath, -⟩ := hsingle _ hleaf
    cases path with
    | nil => exact valueAt_obj_nil
    | cons first path => exact absurd (congrArg List.length hpath) (by simp)
  · cases path with
    | nil => exact Or.inl rfl
    | cons key path =>
      rw [valueAt_obj_cons] at hfound
      rcases hget : JsMap.get? key (order.map formEntry) with _ | v
      · exact absurd (by rw [hget]; rfl) hfound
      obtain ⟨leaf, hleaf, heq⟩ := List.mem_map.1 (JsMap.mem_of_get? hget)
      obtain ⟨key', hpath, hentry⟩ := hsingle leaf hleaf
      obtain ⟨rfl, rfl⟩ := Prod.mk.inj (hentry.symm.trans heq)
      refine Or.inr ⟨leaf, hleaf, ?_⟩
      rw [hget, Option.bind_some] at hfound
      cases path with
      | nil => rw [hpath]
      | cons next path => exact absurd (valueAt_leaf_cons (h.facts (hsub hleaf)).2.2) hfound

/-- Every encoding is decoded to the tree, up to the order of the keys. -/
theorem normalize_encoding {order : List (List JsString × JsValue)} (horder : order.Perm (leavesOf fields)) :
    ∃ result, normalizeWebhookBody (.obj (order.map formEntry)) = some (.obj result) ∧ WellKeyed (.obj result) ∧
      Same (.obj result) (.obj fields) := by
  have hnodup : (order.map Prod.fst).Nodup := ((horder.map Prod.fst).nodup_iff).2 h.nodup
  have hiff : ∀ leaf, leaf ∈ order ↔ leaf ∈ leavesOf fields := fun leaf => horder.mem_iff
  unfold normalizeWebhookBody
  dsimp only
  split_ifs with hbracket
  · obtain ⟨result, hfold, hwell, hdescribes⟩ := h.foldlM_setEntry (fun leaf => (hiff leaf).1) hnodup
    exact ⟨result, by rw [hfold]; rfl, hwell, hdescribes.same h.describes hiff⟩
  · rw [List.any_eq_true, not_exists] at hbracket
    obtain ⟨hwell, hdescribes⟩ := h.describes_flat (fun leaf => (hiff leaf).1) hnodup fun leaf hleaf hopen =>
      hbracket (formEntry leaf) ⟨List.mem_map_of_mem hleaf, List.contains_iff_mem.2 hopen⟩
    exact ⟨_, rfl, hwell, hdescribes.same h.describes hiff⟩

/-- A tree is left as it is. -/
theorem normalize_tree : normalizeWebhookBody (.obj fields) = some (.obj fields) := by
  unfold normalizeWebhookBody
  dsimp only
  rw [if_neg]
  rw [List.any_eq_true]
  rintro ⟨field, hfield, hopen⟩
  exact (h.good field hfield).noOpen (List.contains_iff_mem.1 hopen)

end IsForm

end AmoAnalytics.Amo
