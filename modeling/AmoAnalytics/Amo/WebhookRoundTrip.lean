import AmoAnalytics.Amo.WebhookDecode

/-!
# The events of a form-encoded body

Equal bodies have the same events, up to their order and the order of the keys in a payload, so every encoding of a
tree has the events of the tree. In the order of enumeration the decoded object is the tree itself, and the list of
events is the same.
-/

namespace AmoAnalytics.Amo

open JsText JsValue

/-! ## Events of equal bodies -/

/-- The same event, whatever the order of the keys in the payload. -/
structure SameEvent (a b : AmoWebhookItem) : Prop where
  entity : a.entity = b.entity
  action : a.action = b.action
  externalId : a.externalId = b.externalId
  payload : Same a.payload b.payload

theorem same_refl (v : JsValue) : Same v v := fun _ => rfl

theorem nullish_same {v w : JsValue} (h : Same v w) : nullish v = nullish w := by
  rcases h.cases with ⟨hv, hw⟩ | ⟨-, rfl⟩
  · obtain ⟨fields, rfl⟩ := exists_fields hv
    obtain ⟨gs, rfl⟩ := exists_fields hw
    rfl
  · rfl

theorem typeofObject_same {v w : JsValue} (h : Same v w) : typeofObject v = typeofObject w := by
  rcases h.cases with ⟨hv, hw⟩ | ⟨-, rfl⟩
  · obtain ⟨fields, rfl⟩ := exists_fields hv
    obtain ⟨gs, rfl⟩ := exists_fields hw
    rfl
  · rfl

theorem coalesce_same {values values' : List JsValue} (h : List.Forall₂ Same values values') :
    Same (coalesce values) (coalesce values') := by
  induction h with
  | nil => exact same_refl _
  | @cons v w values values' hvw _ ih =>
    unfold coalesce at *
    rw [List.find?_cons, List.find?_cons, nullish_same hvw]
    cases nullish w
    · exact hvw
    · exact ih

section Events

variable (toLowerCase : JsString → JsString)

theorem externalId_same (entity action : JsString) {item item' : JsValue} (h : Same item item') :
    Same (webhookExternalId toLowerCase entity action item) (webhookExternalId toLowerCase entity action item') := by
  have hnote : Same (if (item.get "note").isObject then item.get "note" else .null)
      (if (item'.get "note").isObject then item'.get "note" else .null) := by
    rcases (h.get "note").cases with ⟨hv, hw⟩ | ⟨-, heq⟩
    · rw [if_pos hv, if_pos hw]
      exact h.get "note"
    · rw [heq]
      exact same_refl _
  have hgets : ∀ {v w : JsValue}, Same v w → ∀ keys : List String,
      List.Forall₂ Same (keys.map v.get) (keys.map w.get) := by
    intro v w hvw keys
    induction keys with
    | nil => exact .nil
    | cons key keys ih => exact .cons (hvw.get key) ih
  unfold webhookExternalId
  dsimp only
  generalize (if (item.get "note").isObject then item.get "note" else .null) = note at hnote ⊢
  generalize (if (item'.get "note").isObject then item'.get "note" else .null) = note' at hnote ⊢
  split_ifs <;> apply coalesce_same
  · exact hgets h ["contact_id", "element_id"]
  · exact .cons (hnote.get _) (.cons (hnote.get _)
      (hgets h ["element_id", "entity_id", "lead_id", "contact_id", "company_id", "customer_id"]))
  · exact hgets h ["task_id", "id", "entity_id"]
  · exact hgets h ["id", "uid", "entity_id", "task_id", "element_id"]

/-- Equal items have the same event. -/
theorem webhookEvent_same {entity action : JsString} {item item' : JsValue} (h : Same item item')
    {event : AmoWebhookItem} (hevent : webhookEvent toLowerCase entity action item' = some event) :
    ∃ event', webhookEvent toLowerCase entity action item = some event' ∧ SameEvent event' event := by
  have hid := externalId_same toLowerCase entity action h
  unfold webhookEvent at hevent ⊢
  dsimp only at hevent ⊢
  rw [nullish_same h, nullish_same hid, hid.text]
  split_ifs at hevent ⊢
  · obtain rfl := Option.some.inj hevent
    exact ⟨_, rfl, rfl, rfl, rfl, h⟩
  · obtain ⟨text, htext, rfl⟩ := Option.map_eq_some_iff.1 hevent
    refine ⟨{ entity, action, externalId := some text, payload := item }, ?_, rfl, rfl, rfl, h⟩
    rw [htext, Option.map_some]

end Events

/-! ## Items of equal bodies -/

/-- Two values are the same, or both have each key once. -/
def SharedKeys (v w : JsValue) : Prop := v = w ∨ (WellKeyed v ∧ WellKeyed w)

theorem entries_same {v w : JsValue} (h : Same v w) (hkeyed : SharedKeys v w) :
    Multiset.Rel (fun a b : JsString × JsValue => a.1 = b.1 ∧ Same a.2 b.2 ∧ SharedKeys a.2 b.2)
      (entries v) (entries w) := by
  have hrefl : Multiset.Rel (fun a b : JsString × JsValue => a.1 = b.1 ∧ Same a.2 b.2 ∧ SharedKeys a.2 b.2)
      (entries v) (entries v) := Multiset.rel_refl_of_refl_on fun a _ => ⟨rfl, same_refl _, Or.inl rfl⟩
  rcases hkeyed with rfl | ⟨hv, hw⟩
  · exact hrefl
  rcases h.cases with ⟨hobject, hobject'⟩ | ⟨-, rfl⟩
  swap
  · exact hrefl
  obtain ⟨fields, rfl⟩ := exists_fields hobject
  obtain ⟨gs, rfl⟩ := exists_fields hobject'
  cases hv with
  | leaf _ hleaf => exact nomatch hleaf
  | obj _ hkeys hfields =>
    cases hw with
    | leaf _ hleaf => exact nomatch hleaf
    | obj _ hkeys' hfields' =>
      refine (h.entries hkeys hkeys').mono fun a ha b hb hab => ⟨hab.1, hab.2, Or.inr ?_⟩
      exact ⟨hfields a (Multiset.mem_coe.1 ha), hfields' b (Multiset.mem_coe.1 hb)⟩

theorem items_same {raw raw' : JsValue} (h : Same raw raw') (hkeyed : SharedKeys raw raw') :
    Multiset.Rel Same (normalizeWebhookItems raw) (normalizeWebhookItems raw') := by
  have hentries := entries_same h hkeyed
  rcases h.cases with ⟨hobject, hobject'⟩ | ⟨-, rfl⟩
  swap
  · exact Multiset.rel_refl_of_refl_on fun a _ => same_refl a
  obtain ⟨fields, rfl⟩ := exists_fields hobject
  obtain ⟨gs, rfl⟩ := exists_fields hobject'
  have hvalues : Multiset.Rel Same (fields.map Prod.snd) (gs.map Prod.snd) := by
    rw [← Multiset.map_coe, ← Multiset.map_coe, Multiset.rel_map]
    exact hentries.mono fun a _ b _ hab => hab.2.1
  have hempty : (fields.map Prod.snd).isEmpty = (gs.map Prod.snd).isEmpty := by
    have hcard := Multiset.card_eq_card_of_rel hvalues
    rw [Multiset.coe_card, Multiset.coe_card] at hcard
    rw [Bool.eq_iff_iff, List.isEmpty_iff_length_eq_zero, List.isEmpty_iff_length_eq_zero, hcard]
  have hall : (fields.map Prod.snd).all typeofObject = (gs.map Prod.snd).all typeofObject := by
    rw [Bool.eq_iff_iff, List.all_eq_true, List.all_eq_true]
    constructor
    · intro hleft w hw
      obtain ⟨v, hv, hsame⟩ := Multiset.exists_mem_of_rel_of_mem (Multiset.rel_flip.2 hvalues) (Multiset.mem_coe.2 hw)
      rw [← typeofObject_same hsame]
      exact hleft v (Multiset.mem_coe.1 hv)
    · intro hright v hv
      obtain ⟨w, hw, hsame⟩ := Multiset.exists_mem_of_rel_of_mem hvalues (Multiset.mem_coe.2 hv)
      rw [typeofObject_same hsame]
      exact hright w (Multiset.mem_coe.1 hw)
  unfold normalizeWebhookItems
  dsimp only
  rw [hempty, hall]
  split_ifs
  · exact hvalues
  · exact (Multiset.rel_cons_left).2 ⟨_, _, h, Multiset.Rel.zero, rfl⟩

/-- Equal bodies have equal items under the same entities and actions. -/
theorem webhookItems_same {body body' : JsValue} (h : Same body body') (hkeyed : SharedKeys body body') :
    Multiset.Rel (fun a b : JsString × JsString × JsValue => a.1 = b.1 ∧ a.2.1 = b.2.1 ∧ Same a.2.2 b.2.2)
      (webhookItems body) (webhookItems body') := by
  unfold webhookItems
  rw [← Multiset.coe_bind, ← Multiset.coe_bind]
  refine Multiset.rel_bind ?_ (entries_same h hkeyed)
  rintro ⟨entity, actions⟩ ⟨entity', actions'⟩ ⟨hentity, hactions, hactionsKeyed⟩
  obtain rfl : entity = entity' := hentity
  have hkind : isObjectOrArray actions = isObjectOrArray actions' := by
    rcases hactions.cases with ⟨hv, hw⟩ | ⟨-, heq⟩
    · obtain ⟨fields, hfields⟩ := exists_fields hv
      obtain ⟨gs, hgs⟩ := exists_fields hw
      dsimp only at hfields hgs
      rw [hfields, hgs]
      rfl
    · exact congrArg isObjectOrArray heq
  dsimp only
  rw [hkind]
  split_ifs with hskip
  · exact Multiset.Rel.zero
  rw [← Multiset.coe_bind, ← Multiset.coe_bind]
  refine Multiset.rel_bind ?_ (entries_same hactions hactionsKeyed)
  rintro ⟨action, raw⟩ ⟨action', raw'⟩ ⟨haction, hraw, hrawKeyed⟩
  obtain rfl : action = action' := haction
  dsimp only
  rw [← Multiset.map_coe, ← Multiset.map_coe, Multiset.rel_map]
  exact (items_same hraw hrawKeyed).mono fun _ _ _ _ hitem => ⟨rfl, rfl, hitem⟩

/-! ## The events of a tree -/

section Tree

variable (toLowerCase : JsString → JsString)

/-- What is read of a tree: nothing, or a tree. -/
def TreeOrNothing (v : JsValue) : Prop := nullish v = true ∨ IsTree v

theorem get_tree {v : JsValue} (h : TreeOrNothing v) (key : String) : TreeOrNothing (v.get key) := by
  rcases h with h | h
  · cases v <;> first | exact Or.inl rfl | exact nomatch h
  · cases h with
    | str => exact Or.inl rfl
    | obj fields _ _ _ htree =>
      change TreeOrNothing ((JsMap.get? (js key) fields).getD .undefined)
      rcases hget : JsMap.get? (js key) fields with _ | w
      · exact Or.inl rfl
      · exact Or.inr (htree _ (JsMap.mem_of_get? hget))

theorem coalesce_tree {values : List JsValue} (h : ∀ v ∈ values, TreeOrNothing v) :
    TreeOrNothing (coalesce values) := by
  unfold coalesce
  rcases hfind : values.find? fun value => !nullish value with _ | v
  · exact Or.inl rfl
  · exact h v (List.mem_of_find?_eq_some hfind)

theorem externalId_tree (entity action : JsString) {item : JsValue} (h : IsTree item) :
    TreeOrNothing (webhookExternalId toLowerCase entity action item) := by
  have hnote : TreeOrNothing (if (item.get "note").isObject then item.get "note" else .null) := by
    split_ifs
    · exact get_tree (Or.inr h) "note"
    · exact Or.inl rfl
  have hgets : ∀ {v : JsValue}, TreeOrNothing v → ∀ keys : List String, ∀ w ∈ keys.map v.get, TreeOrNothing w := by
    intro v hv keys w hw
    obtain ⟨key, -, rfl⟩ := List.mem_map.1 hw
    exact get_tree hv key
  unfold webhookExternalId
  dsimp only
  generalize (if (item.get "note").isObject then item.get "note" else .null) = note at hnote ⊢
  split_ifs <;> apply coalesce_tree
  · exact hgets (Or.inr h) ["contact_id", "element_id"]
  · intro w hw
    rcases List.mem_append.1 (show w ∈ ["element_id", "entity_id"].map note.get ++
      ["element_id", "entity_id", "lead_id", "contact_id", "company_id", "customer_id"].map item.get from hw)
      with hw | hw
    · exact hgets hnote _ w hw
    · exact hgets (Or.inr h) _ w hw
  · exact hgets (Or.inr h) ["task_id", "id", "entity_id"]
  · exact hgets (Or.inr h) ["id", "uid", "entity_id", "task_id", "element_id"]

theorem text_tree {v : JsValue} (h : IsTree v) : ∃ text, v.text = some text := by
  cases h with
  | str s => exact ⟨s, by rw [JsValue.text]⟩
  | obj fields _ _ hgood _ =>
    refine ⟨js "[object Object]", ?_⟩
    rw [JsValue.text, if_neg]
    rw [List.any_eq_true]
    rintro ⟨field, hfield, hkey⟩
    refine (hgood field hfield).own ?_
    rw [of_decide_eq_true hkey]
    decide

theorem webhookEvent_tree (entity action : JsString) {item : JsValue} (h : IsTree item) :
    ∃ event, webhookEvent toLowerCase entity action item = some event := by
  unfold webhookEvent
  dsimp only
  have hitem : ¬ nullish item = true := by cases h <;> nofun
  rw [if_neg hitem]
  split_ifs with hid
  · exact ⟨_, rfl⟩
  · obtain ⟨text, htext⟩ := text_tree ((externalId_tree toLowerCase entity action h).resolve_left hid)
    exact ⟨_, by rw [htext, Option.map_some]⟩

theorem goodKey_id : GoodKey (js "id") := ⟨by decide, by decide, by decide, by decide⟩

theorem items_tree {raw item : JsValue} (h : IsTree raw) (hitem : item ∈ normalizeWebhookItems raw) :
    IsTree item := by
  cases h with
  | str s =>
    obtain rfl : item = .obj [(js "id", .str s)] := List.mem_singleton.1 hitem
    refine .obj _ (List.cons_ne_nil _ _) (List.nodup_singleton _) (fun field hfield => ?_) fun field hfield => ?_
    · rw [List.mem_singleton.1 hfield]
      exact goodKey_id
    · rw [List.mem_singleton.1 hfield]
      exact .str s
  | obj fields hne hkeys hgood htree =>
    unfold normalizeWebhookItems at hitem
    dsimp only at hitem
    split_ifs at hitem
    · obtain ⟨field, hfield, rfl⟩ := List.mem_map.1 hitem
      exact htree field hfield
    · rw [List.mem_singleton.1 hitem]
      exact .obj fields hne hkeys hgood htree

theorem webhookItems_tree {fields : Fields} (h : IsForm fields) {item : JsString × JsString × JsValue}
    (hitem : item ∈ webhookItems (.obj fields)) : IsTree item.2.2 := by
  obtain ⟨field, hfield, hitem⟩ := List.mem_flatMap.1 hitem
  dsimp only at hitem
  split_ifs at hitem with hskip
  · exact absurd hitem List.not_mem_nil
  obtain ⟨action, haction, hitem⟩ := List.mem_flatMap.1 hitem
  obtain ⟨payload, hpayload, rfl⟩ := List.mem_map.1 hitem
  refine items_tree ?_ hpayload
  cases hactions : field.2 with
  | obj actions =>
    have htree := h.tree field hfield
    rw [hactions] at htree haction
    cases htree with
    | obj _ _ _ _ htree => exact htree _ haction
  | arr items =>
    have htree := h.tree field hfield
    rw [hactions] at htree
    exact nomatch htree
  | _ =>
    rw [hactions] at haction
    exact absurd haction List.not_mem_nil

end Tree

/-! ## The order of enumeration -/

/-- The properties stand in the order in which JavaScript enumerates them. -/
inductive InOrder : JsValue → Prop
  | leaf (v : JsValue) : v.isObject = false → InOrder v
  | obj (fields : Fields) : fields.Pairwise (fun a b => precedes b.1 a = true) → (∀ field ∈ fields, InOrder field.2) →
    InOrder (.obj fields)

/-- Write the leaves one after the other. -/
def writeLeaves (target : Fields) (order : List (List JsString × JsValue)) : Option Fields :=
  order.foldlM (fun target leaf => setWebhookBodyValue target leaf.1 leaf.2) target

/-- A new property that all others precede is the last one. -/
theorem assign_last {fields : Fields} {key : JsString} {value : JsValue} (hnew : key ∉ fields.map Prod.fst)
    (hlast : ∀ field ∈ fields, precedes key field = true) : assign key value fields = fields ++ [(key, value)] := by
  rw [assign, if_neg hnew, List.takeWhile_eq_self_iff.2 hlast, List.dropWhile_eq_nil_iff.2 hlast]

theorem get?_last {fields : Fields} {key : JsString} {value : JsValue} (hnew : key ∉ fields.map Prod.fst) :
    JsMap.get? key (fields ++ [(key, value)]) = some value := by
  rw [get?_append hnew, JsMap.get?_cons, if_pos rfl]

theorem set_last {fields : Fields} {key : JsString} {value value' : JsValue} (hnew : key ∉ fields.map Prod.fst) :
    JsMap.set key value' (fields ++ [(key, value)]) = fields ++ [(key, value')] := by
  induction fields with
  | nil => rw [List.nil_append, JsMap.set, if_pos rfl, List.nil_append]
  | cons field fields ih =>
    have hne : field.1 ≠ key := fun heq => hnew (heq ▸ List.mem_cons_self)
    rw [List.cons_append, JsMap.set, if_neg hne, ih fun hmem => hnew (List.mem_cons_of_mem _ hmem), List.cons_append]

/-- Writing below the last property changes its object. -/
theorem set_below {fields inner : Fields} {key : JsString} {path : List JsString} {value : JsValue}
    (hnew : key ∉ fields.map Prod.fst) (hpath : path ≠ []) :
    setWebhookBodyValue (fields ++ [(key, .obj inner)]) (key :: path) value =
      (setWebhookBodyValue inner path value).map fun inner => fields ++ [(key, .obj inner)] := by
  cases path with
  | nil => exact absurd rfl hpath
  | cons next rest =>
    rw [setWebhookBodyValue, get?_last hnew]
    dsimp only
    congr 1
    funext inner'
    rw [assign, if_pos (by simp), set_last hnew]

/-- Writing below a missing property begins its object. -/
theorem set_begin {fields : Fields} {key : JsString} {path : List JsString} {value : JsValue}
    (hnew : key ∉ fields.map Prod.fst) (hlast : ∀ field ∈ fields, precedes key field = true) (hown : key ∉ inherited)
    (hpath : path ≠ []) : setWebhookBodyValue fields (key :: path) value =
      setWebhookBodyValue (fields ++ [(key, .obj [])]) (key :: path) value := by
  rw [set_below hnew hpath]
  cases path with
  | nil => exact absurd rfl hpath
  | cons next rest =>
    rw [setWebhookBodyValue, get?_eq_none hnew]
    dsimp only
    rw [if_neg hown]
    congr 1
    funext inner
    exact assign_last hnew hlast

theorem writeLeaves_below {fields inner : Fields} {key : JsString} {order : List (List JsString × JsValue)}
    (hnew : key ∉ fields.map Prod.fst) (horder : ∀ leaf ∈ order, leaf.1 ≠ []) :
    writeLeaves (fields ++ [(key, .obj inner)]) (order.map fun leaf => (key :: leaf.1, leaf.2)) =
      (writeLeaves inner order).map fun inner => fields ++ [(key, .obj inner)] := by
  induction order generalizing inner with
  | nil => rfl
  | cons leaf order ih =>
    have hrest : ∀ other ∈ order, other.1 ≠ [] := fun other hother => horder other (List.mem_cons_of_mem _ hother)
    unfold writeLeaves at *
    rw [List.map_cons, List.foldlM_cons, List.foldlM_cons, set_below hnew (horder leaf List.mem_cons_self)]
    cases setWebhookBodyValue inner leaf.1 leaf.2 with
    | none => rfl
    | some inner' => exact ih hrest

/-- The leaves of some properties are written behind the properties that are there. -/
theorem writeLeaves_fields {fields before : Fields}
    (h : ∀ field ∈ fields, ∀ before : Fields, field.1 ∉ before.map Prod.fst →
      (∀ other ∈ before, precedes field.1 other = true) →
      writeLeaves before ((leaves field.2).map fun leaf => (field.1 :: leaf.1, leaf.2)) = some (before ++ [field]))
    (hkeys : ((before ++ fields).map Prod.fst).Nodup)
    (horder : (before ++ fields).Pairwise fun a b => precedes b.1 a = true) :
    writeLeaves before (leavesOf fields) = some (before ++ fields) := by
  induction fields generalizing before with
  | nil => exact congrArg some (List.append_nil _).symm
  | cons field fields ih =>
    have hnew : field.1 ∉ before.map Prod.fst := by
      rw [List.map_append, List.nodup_append] at hkeys
      exact fun hmem => hkeys.2.2 _ hmem _ List.mem_cons_self rfl
    have hlast : ∀ other ∈ before, precedes field.1 other = true := fun other hother =>
      (List.pairwise_append.1 horder).2.2 other hother field List.mem_cons_self
    have hfirst := h field List.mem_cons_self before hnew hlast
    have hshift : before ++ field :: fields = before ++ [field] ++ fields := by simp
    rw [hshift] at hkeys horder ⊢
    have hrest := ih (fun other hother => h other (List.mem_cons_of_mem _ hother)) hkeys horder
    unfold writeLeaves at *
    rw [leavesOf, List.foldlM_append, hfirst]
    exact hrest

/-- The leaves of a tree are written as the last property. -/
theorem writeLeaves_tree {v : JsValue} (h : IsTree v) (horder : InOrder v) {key : JsString} (hown : key ∉ inherited)
    {before : Fields} (hnew : key ∉ before.map Prod.fst) (hlast : ∀ other ∈ before, precedes key other = true) :
    writeLeaves before ((leaves v).map fun leaf => (key :: leaf.1, leaf.2)) = some (before ++ [(key, v)]) := by
  induction h generalizing key before with
  | str s =>
    have hproto : key ≠ js "__proto__" := fun heq => hown (heq ▸ List.mem_cons_self)
    rw [leaves_leaf rfl, ← assign_last hnew hlast]
    show (setWebhookBodyValue before [key] (.str s)).bind some = _
    rw [setWebhookBodyValue, if_neg hproto, Option.bind_some]
  | obj fields hne hkeys hgood htree ih =>
    cases horder with
    | leaf _ hleaf => cases hleaf
    | obj _ hpairs hinner =>
      have hpaths : ∀ leaf ∈ leavesOf fields, leaf.1 ≠ [] := by
        intro leaf hleaf
        obtain ⟨_, _, _, _, hpath⟩ := mem_leavesOf.1 hleaf
        rw [hpath]
        exact List.cons_ne_nil _ _
      have hwritten : writeLeaves [] (leavesOf fields) = some fields := by
        refine writeLeaves_fields (fun field hfield before hnew hlast => ?_) hkeys hpairs
        exact ih field hfield (hinner field hfield) (hgood field hfield).own hnew hlast
      have hbegin : writeLeaves before ((leavesOf fields).map fun leaf => (key :: leaf.1, leaf.2)) =
          writeLeaves (before ++ [(key, .obj [])]) ((leavesOf fields).map fun leaf => (key :: leaf.1, leaf.2)) := by
        have hsome := (describes_leaves (.obj fields hne hkeys hgood htree)).2
        change leavesOf fields ≠ [] at hsome
        obtain ⟨leaf, order, heq⟩ := List.exists_cons_of_ne_nil hsome
        have hleaf : leaf.1 ≠ [] := hpaths leaf (heq ▸ List.mem_cons_self)
        unfold writeLeaves
        rw [heq, List.map_cons, List.foldlM_cons, List.foldlM_cons, set_begin hnew hlast hown hleaf]
      change writeLeaves before ((leavesOf fields).map fun leaf => (key :: leaf.1, leaf.2)) = _
      rw [hbegin, writeLeaves_below hnew hpaths, hwritten]
      rfl

namespace IsForm

variable {fields : Fields} (h : IsForm fields)

include h

/-- The entries of the leaves are written at their paths. -/
theorem foldlM_formEntry {order : List (List JsString × JsValue)} (hsub : order ⊆ leavesOf fields) (target : Fields) :
    (order.map formEntry).foldlM setEntry target = writeLeaves target order := by
  induction order generalizing target with
  | nil => rfl
  | cons leaf order ih =>
    obtain ⟨hne, hgood, -⟩ := h.facts (hsub List.mem_cons_self)
    have hpath : parseFormBodyPath (formEntry leaf).1 = leaf.1 := parseFormBodyPath_formKey hne hgood
    have hset : setEntry target (formEntry leaf) = setWebhookBodyValue target leaf.1 leaf.2 := by
      simp only [setEntry, hpath, if_neg hne]
      rfl
    unfold writeLeaves at *
    rw [List.map_cons, List.foldlM_cons, List.foldlM_cons, hset]
    congr 1
    funext next
    exact ih (fun other hother => hsub (List.mem_cons_of_mem _ hother)) next

theorem wellKeyed : WellKeyed (.obj fields) := by
  refine .obj _ h.keys fun field hfield => ?_
  have htree := h.tree field hfield
  revert htree
  generalize field.2 = v
  intro htree
  induction htree with
  | str s => exact .leaf _ rfl
  | obj fields _ hkeys _ _ ih => exact .obj _ hkeys ih

/-- In the order of enumeration the decoded object is the tree. -/
theorem normalize_inOrder (horder : InOrder (.obj fields)) :
    normalizeWebhookBody (.obj ((leavesOf fields).map formEntry)) = some (.obj fields) := by
  cases horder with
  | leaf _ hleaf => exact nomatch hleaf
  | obj _ hpairs hinner =>
    unfold normalizeWebhookBody
    dsimp only
    split_ifs with hbracket
    · have hwritten : writeLeaves [] (leavesOf fields) = some fields := by
        refine writeLeaves_fields (fun field hfield before hnew hlast => ?_) h.keys hpairs
        exact writeLeaves_tree (h.tree field hfield) (hinner field hfield) (h.good field hfield).own hnew hlast
      rw [h.foldlM_formEntry (List.Subset.refl _), hwritten]
      rfl
    · have hflat : ∀ field ∈ fields, leaves field.2 = [([], field.2)] := by
        intro field hfield
        refine leaves_leaf ?_
        by_contra hobject
        obtain ⟨inner, hinner'⟩ := exists_fields (Bool.not_eq_false _ ▸ hobject)
        obtain ⟨⟨path, s⟩, hleaf⟩ := List.exists_mem_of_ne_nil _ (describes_leaves (h.tree field hfield)).2
        have hin := hleaf
        rw [hinner'] at hin
        obtain ⟨_, _, rest, -, hpath⟩ := mem_leavesOf.1 hin
        refine hbracket (List.any_eq_true.2 ⟨formEntry (field.1 :: path, s), List.mem_map_of_mem
          (mem_leavesOf.2 ⟨field, hfield, path, hleaf, rfl⟩), ?_⟩)
        rw [List.contains_iff_mem, hpath]
        exact List.mem_append_right _ List.mem_cons_self
      have heq : (leavesOf fields).map formEntry = fields := by
        clear hbracket hpairs hinner h
        induction fields with
        | nil => rfl
        | cons field fields ih =>
          rw [leavesOf, hflat field List.mem_cons_self, List.map_append,
            ih fun other hother => hflat other (List.mem_cons_of_mem _ hother)]
          simp [formEntry, formKey]
      rw [heq]

end IsForm

/-! ## The events of an encoding -/

theorem mapM_eq_map {α β : Type*} {f : α → Option β} {g : α → β} {items : List α}
    (h : ∀ a ∈ items, f a = some (g a)) : items.mapM f = some (items.map g) := by
  induction items with
  | nil => rfl
  | cons a items ih =>
    rw [List.mapM_cons, h a List.mem_cons_self, ih fun b hb => h b (List.mem_cons_of_mem _ hb)]
    rfl

/-- **Webhook bodies.** The events of an encoding of a tree, in any order of its leaves, are the events of the tree,
one by one, up to their order and the order of the keys in a payload; in the order of enumeration they are the same
list. -/
theorem webhook_round_trip (toLowerCase : JsString → JsString) {fields : Fields} (h : IsForm fields) :
    ∃ events, flattenWebhook toLowerCase (.obj fields) = some events ∧
      (∀ order : List (List JsString × JsValue), order.Perm (leavesOf fields) → ∃ decoded,
        flattenWebhook toLowerCase (.obj (order.map formEntry)) = some decoded ∧
          Multiset.Rel SameEvent decoded events) ∧
      (InOrder (.obj fields) →
        flattenWebhook toLowerCase (.obj ((leavesOf fields).map formEntry)) = some events) := by
  -- Every item of the tree has its event.
  let event : JsString × JsString × JsValue → AmoWebhookItem := fun item =>
    (webhookEvent toLowerCase item.1 item.2.1 item.2.2).getD ⟨[], [], none, .null⟩
  have hevent : ∀ item ∈ webhookItems (.obj fields),
      webhookEvent toLowerCase item.1 item.2.1 item.2.2 = some (event item) := by
    intro item hitem
    obtain ⟨found, hfound⟩ := webhookEvent_tree toLowerCase item.1 item.2.1 (webhookItems_tree h hitem)
    exact hfound.trans (congrArg some (by simp only [event, hfound, Option.getD_some]))
  have htree : flattenWebhook toLowerCase (.obj fields) = some ((webhookItems (.obj fields)).map event) := by
    rw [flattenWebhook, h.normalize_tree, Option.bind_some]
    exact mapM_eq_map hevent
  refine ⟨_, htree, fun order horder => ?_, fun hinOrder => ?_⟩
  · obtain ⟨result, hnormal, hwell, hsame⟩ := h.normalize_encoding horder
    have hitems := webhookItems_same hsame (Or.inr ⟨hwell, h.wellKeyed⟩)
    have hpair : ∀ item, ∀ other ∈ webhookItems (.obj fields),
        item.1 = other.1 ∧ item.2.1 = other.2.1 ∧ Same item.2.2 other.2.2 →
        webhookEvent toLowerCase item.1 item.2.1 item.2.2 = some (event item) ∧
          SameEvent (event item) (event other) := by
      rintro ⟨entity, action, item⟩ ⟨entity', action', other⟩ hother ⟨hentity, haction, hpayload⟩
      obtain rfl : entity = entity' := hentity
      obtain rfl : action = action' := haction
      obtain ⟨found, hfound, hsameEvent⟩ := webhookEvent_same toLowerCase hpayload (hevent _ hother)
      have hitem : event (entity, action, item) = found := by simp only [event, hfound, Option.getD_some]
      rw [hitem]
      exact ⟨hfound, hsameEvent⟩
    refine ⟨(webhookItems (.obj result)).map event, ?_, ?_⟩
    · rw [flattenWebhook, hnormal, Option.bind_some]
      refine mapM_eq_map fun item hitem => ?_
      obtain ⟨other, hother, hrelated⟩ := Multiset.exists_mem_of_rel_of_mem hitems (Multiset.mem_coe.2 hitem)
      exact (hpair item other (Multiset.mem_coe.1 hother) hrelated).1
    · rw [← Multiset.map_coe, ← Multiset.map_coe, Multiset.rel_map]
      exact hitems.mono fun item _ other hother hrelated => (hpair item other (Multiset.mem_coe.1 hother) hrelated).2
  · rw [flattenWebhook, h.normalize_inOrder hinOrder]
    rw [flattenWebhook, h.normalize_tree] at htree
    exact htree

section Sample

theorem isTree_single {key : JsString} {v : JsValue} (hkey : GoodKey key) (hv : IsTree v) :
    IsTree (.obj [(key, v)]) := by
  refine .obj _ (List.cons_ne_nil _ _) (List.nodup_singleton _) (fun field hfield => ?_) fun field hfield => ?_
  · rw [List.mem_singleton.1 hfield]
    exact hkey
  · rw [List.mem_singleton.1 hfield]
    exact hv

/-- A new contact and a new lead. -/
def twoEvents : Fields :=
  ["contacts", "leads"].map fun entity =>
    (js entity, .obj [(js "add", .obj [(js "0", .obj [(js "id", .str (js entity))])])])

theorem isForm_twoEvents : IsForm twoEvents where
  keys := by decide
  good field hfield := by
    simp only [twoEvents, List.map_cons, List.map_nil, List.mem_cons, List.not_mem_nil, or_false] at hfield
    rcases hfield with rfl | rfl
    · exact ⟨by decide, by decide, by decide, by decide⟩
    · exact ⟨by decide, by decide, by decide, by decide⟩
  tree field hfield := by
    obtain ⟨entity, -, rfl⟩ := List.mem_map.1 hfield
    have hadd : GoodKey (js "add") := ⟨by decide, by decide, by decide, by decide⟩
    have hzero : GoodKey (js "0") := ⟨by decide, by decide, by decide, by decide⟩
    exact isTree_single hadd (isTree_single hzero (isTree_single goodKey_id (.str _)))

/-- With its leaves the other way round the body has the same events. -/
theorem webhook_round_trip_sample : ∃ events decoded, flattenWebhook id (.obj twoEvents) = some events ∧
    flattenWebhook id (.obj ((leavesOf twoEvents).reverse.map formEntry)) = some decoded ∧
      Multiset.Rel SameEvent decoded events := by
  obtain ⟨events, hevents, horders, -⟩ := webhook_round_trip id isForm_twoEvents
  obtain ⟨decoded, hdecoded, hrel⟩ := horders _ (List.reverse_perm _)
  exact ⟨events, decoded, hevents, hdecoded, hrel⟩

/-- The list of the events follows the order of the entries. -/
theorem webhook_order : ∃ (fields : Fields) (order : List (List JsString × JsValue)), IsForm fields ∧
    order.Perm (leavesOf fields) ∧
    (flattenWebhook id (.obj (order.map formEntry))).map (fun events => events.map (·.entity)) ≠
      (flattenWebhook id (.obj fields)).map fun events => events.map (·.entity) :=
  ⟨twoEvents, (leavesOf twoEvents).reverse, isForm_twoEvents, List.reverse_perm _, by decide +kernel⟩

end Sample

end AmoAnalytics.Amo
