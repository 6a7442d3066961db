import AmoAnalytics.CrmControl.SourceIndex

/-!
# The revisions of archived rows

What `normalizeCrmControlWebhookRows` makes of a list of rows: every revision that the rows hold, once, marked when
another row of the message has other contents.
-/

namespace AmoAnalytics.CrmControl.Source

open JsText AmoAnalytics.Json

/-! ## What a row says about its message -/

theorem mem_issueIf {condition : Bool} {code issue : String} (h : issue ∈ issueIf condition code) : issue = code := by
  unfold issueIf at h
  split_ifs at h
  · exact List.mem_singleton.1 h
  · cases h

/-- The fields of a message that tell its place, read from the row. -/
structure IsRead (rt : Runtime) (row : WebhookRow) (message : MessageEvidence) : Prop where
  connectionId : message.connectionId = row.connectionId
  sourceRefs : message.sourceRefs = ⟨⟨row.id, row.receivedAt⟩, []⟩
  rawSha256 : message.rawSha256 = row.digest rt
  messageId : message.messageId = ref (row.payload.get "id")
  occurredAt : message.occurredAt = timestamp (row.payload.get "created_at")
  talkId : message.talkId = entityId (row.payload.get "talk_id")
  binding : binding rt row.payload (entityId (row.payload.get "talk_id")) (entityId (row.payload.get "contact_id")) =
    some message.binding
  unmarked : conflictCode ∉ message.issues

theorem normalize_isRead {rt : Runtime} {row : WebhookRow} {message : MessageEvidence}
    (h : normalizeCrmControlWebhook rt row = some (some message)) : IsRead rt row message := by
  unfold normalizeCrmControlWebhook at h
  split_ifs at h with hholds
  · cases Option.some.inj h
  obtain ⟨kind, -, h⟩ := Option.bind_eq_some_iff.1 h
  obtain ⟨resolved, hbinding, h⟩ := Option.bind_eq_some_iff.1 h
  obtain rfl := Option.some.inj (Option.some.inj h)
  refine ⟨rfl, rfl, rfl, rfl, rfl, rfl, hbinding, fun hmem => ?_⟩
  simp only [List.mem_append] at hmem
  rcases hmem with (((((((h | h) | h) | h) | h) | h) | h) | h) | h <;> exact absurd (mem_issueIf h) (by decide)

/-! ## The same contents -/

section Same

variable {a b : Option AmoAnalytics.Json}

theorem ref_same (h : SameOption a b) : ref a = ref b := by
  obtain ⟨rfl, rfl⟩ | ⟨x, y, rfl, rfl, h⟩ := h
  · rfl
  · cases h <;> rfl

theorem entityId_same (h : SameOption a b) : entityId a = entityId b := by
  rw [entityId, entityId, ref_same h]

theorem timestamp_same (h : SameOption a b) : timestamp a = timestamp b := by
  obtain ⟨rfl, rfl⟩ | ⟨x, y, rfl, rfl, h⟩ := h
  · rfl
  · cases h <;> rfl

theorem entityKind_same (rt : Runtime) (h : SameOption a b) : entityKind rt a = entityKind rt b := by
  obtain ⟨rfl, rfl⟩ | ⟨x, y, rfl, rfl, h⟩ := h
  · rfl
  · have htext : asText (some x) = asText (some y) := by
      have hsame := h.asText
      cases h <;> first | rfl | exact hsame
    rw [entityKind, entityKind, htext]

end Same

theorem binding_same (rt : Runtime) {a b : AmoAnalytics.Json} (h : Same a b) (ha : Distinct a) (hb : Distinct b)
    (talkId contactId : Option JsString) : binding rt a talkId contactId = binding rt b talkId contactId := by
  have hpair : ∀ kind id : String, entityPair rt (a.get kind) (a.get id) = entityPair rt (b.get kind) (b.get id) := by
    intro kind id
    rw [entityPair, entityPair, entityKind_same rt (h.get ha hb kind), entityId_same (h.get ha hb id)]
  rw [binding, binding, hpair, hpair]

theorem WebhookRow.distinct_contents (row : WebhookRow) : Distinct row.contents := by
  have hkeys : [js "entity", js "action", js "payload"].Nodup := by decide
  refine .obj hkeys fun field hfield => ?_
  simp only [List.mem_cons, List.not_mem_nil, or_false] at hfield
  obtain rfl | rfl | rfl := hfield
  · exact .str _
  · exact .str _
  · exact row.distinct

theorem same_payload {row row' : WebhookRow} (h : Same row.contents row'.contents) :
    Same row.payload row'.payload := by
  have hget := h.get row.distinct_contents row'.distinct_contents "payload"
  obtain ⟨hnone, -⟩ | ⟨x, y, hx, hy, hsame⟩ := hget
  · cases hnone
  · cases hx
    cases hy
    exact hsame

/-- The digests of the rows tell their contents apart. -/
def DigestsDiffer (rt : Runtime) (rows : List WebhookRow) : Prop :=
  ∀ row ∈ rows, ∀ row' ∈ rows, row.digest rt = row'.digest rt →
    canonicalJson row.contents = canonicalJson row'.contents

/-- Two messages with the same fields that tell their place. -/
structure Alike (message message' : MessageEvidence) : Prop where
  connectionId : message.connectionId = message'.connectionId
  occurredAt : message.occurredAt = message'.occurredAt
  talkId : message.talkId = message'.talkId
  binding : message.binding = message'.binding
  marked : conflictCode ∈ message.issues ↔ conflictCode ∈ message'.issues

theorem IsRead.alike {rt : Runtime} {row row' : WebhookRow} {message message' : MessageEvidence}
    (h : IsRead rt row message) (h' : IsRead rt row' message') (hconnection : row.connectionId = row'.connectionId)
    (hcontents : canonicalJson row.contents = canonicalJson row'.contents) : Alike message message' := by
  have hsame := same_payload ((sortedText_codeUnits row.distinct_contents row'.distinct_contents).1 hcontents)
  have hget := fun key => hsame.get row.distinct row'.distinct key
  have hbinding := h.binding
  rw [entityId_same (hget "talk_id"), entityId_same (hget "contact_id"),
    binding_same rt hsame row.distinct row'.distinct, h'.binding] at hbinding
  exact
    { connectionId := by rw [h.connectionId, h'.connectionId, hconnection]
      occurredAt := by rw [h.occurredAt, h'.occurredAt, timestamp_same (hget _)]
      talkId := by rw [h.talkId, h'.talkId, entityId_same (hget _)]
      binding := (Option.some.inj hbinding).symm
      marked := iff_of_false h.unmarked h'.unmarked }

/-! ## The revisions of a list of rows -/

/-- A row with its message. -/
abbrev Held := WebhookRow × MessageEvidence

def Held.key (held : Held) : MessageKey := held.1.key held.2

/-- The rows that hold a message, with the message. -/
def heldIn (rt : Runtime) (rows : List WebhookRow) : List Held :=
  rows.filterMap fun row => (normalizeCrmControlWebhook rt row).join.map (row, ·)

/-- No row throws. -/
def Readable (rt : Runtime) (rows : List WebhookRow) : Prop := ∀ row ∈ rows, normalizeCrmControlWebhook rt row ≠ none

theorem mem_heldIn {rt : Runtime} {rows : List WebhookRow} {held : Held} :
    held ∈ heldIn rt rows ↔ held.1 ∈ rows ∧ normalizeCrmControlWebhook rt held.1 = some (some held.2) := by
  simp only [heldIn, List.mem_filterMap, Option.map_eq_some_iff, Option.join_eq_some_iff]
  constructor
  · rintro ⟨row, hrow, message, hmessage, rfl⟩
    exact ⟨hrow, hmessage⟩
  · rintro ⟨hrow, hmessage⟩
    exact ⟨held.1, hrow, held.2, hmessage, rfl⟩

/-- The loop over the rows, as a loop over the messages they hold. -/
def groupsOf (items : List Held) (groups : List (MessageKey × Variants)) : List (MessageKey × Variants) :=
  JsMap.collect Held.key (fun variants held => retain (variants.getD []) held.2) items groups

theorem foldlM_readRow (rt : Runtime) (rows : List WebhookRow) (groups result : List (MessageKey × Variants)) :
    rows.foldlM (readRow rt) groups = some result ↔
      Readable rt rows ∧ groupsOf (heldIn rt rows) groups = result := by
  induction rows generalizing groups with
  | nil =>
    change some groups = some result ↔ Readable rt [] ∧ groups = result
    simp [Readable]
  | cons row rows ih =>
    rw [List.foldlM_cons, readRow, Readable, List.forall_mem_cons]
    cases hrow : normalizeCrmControlWebhook rt row with
    | none =>
      refine iff_of_false ?_ fun h => h.1.1 rfl
      nofun
    | some message =>
      cases message with
      | none =>
        have hheld : heldIn rt (row :: rows) = heldIn rt rows := by
          rw [heldIn, List.filterMap_cons_none (by rw [hrow]; rfl), ← heldIn]
        rw [hheld]
        refine (ih groups).trans (and_congr_left fun _ => ?_)
        exact ⟨fun h => ⟨nofun, h⟩, And.right⟩
      | some message =>
        have hheld : heldIn rt (row :: rows) = (row, message) :: heldIn rt rows := by
          rw [heldIn, List.filterMap_cons_some (by rw [hrow]; rfl), ← heldIn]
        rw [hheld]
        refine (ih (addRow groups row message)).trans (and_congr_left fun _ => ?_)
        exact ⟨fun h => ⟨nofun, h⟩, And.right⟩

/-- The messages of the rows, from what the rows hold. -/
def messagesIn (items : List Held) : List MessageEvidence := (JsMap.values (groupsOf items [])).flatMap messagesOf

theorem normalizeCrmControlWebhookRows_iff {rt : Runtime} {rows : List WebhookRow} {messages : List MessageEvidence} :
    normalizeCrmControlWebhookRows rt rows = some messages ↔
      Readable rt rows ∧ messages = messagesIn (heldIn rt rows) := by
  rw [normalizeCrmControlWebhookRows]
  constructor
  · intro h
    obtain ⟨groups, hgroups, h⟩ := Option.bind_eq_some_iff.1 h
    obtain ⟨hreadable, rfl⟩ := (foldlM_readRow rt rows [] groups).1 hgroups
    exact ⟨hreadable, (Option.some.inj h).symm⟩
  · rintro ⟨hreadable, rfl⟩
    rw [(foldlM_readRow rt rows [] _).2 ⟨hreadable, rfl⟩]
    rfl

/-! ## Variants -/

/-- The revisions of one message's rows. -/
def variantsOf (items : List Held) : Variants :=
  JsMap.collect (fun held : Held => held.2.rawSha256) (fun same held => merge same held.2) items []

theorem foldl_retain {items : List Held} (h : items ≠ []) :
    items.foldl (fun variants held => some (retain (variants.getD []) held.2)) none = some (variantsOf items) := by
  have hfold : ∀ variants : Option Variants,
      (items.foldl (fun variants held => some (retain (variants.getD []) held.2)) variants).getD [] =
        JsMap.collect (fun held : Held => held.2.rawSha256) (fun same held => merge same held.2) items
          (variants.getD []) := by
    clear h
    induction items with
    | nil => exact fun _ => rfl
    | cons held items ih => exact fun variants => ih _
  obtain ⟨variants, hvariants⟩ := Option.isSome_iff_exists.1
    ((JsMap.foldl_some_isSome fun variants held => retain (variants.getD []) held.2).2 h)
  have hget := hfold none
  rw [hvariants] at hget ⊢
  exact congrArg some hget

theorem get?_groupsOf {items : List Held} {k : MessageKey} {variants : Variants} :
    JsMap.get? k (groupsOf items []) = some variants ↔
      (items.filter fun held => held.key = k) ≠ [] ∧
        variantsOf (items.filter fun held => held.key = k) = variants := by
  rw [groupsOf, JsMap.get?_collect]
  change List.foldl _ none _ = _ ↔ _
  by_cases h : (items.filter fun held => held.key = k) = []
  · rw [h]
    exact iff_of_false nofun fun h => h.1 rfl
  · rw [foldl_retain h]
    exact ⟨fun hvariants => ⟨h, Option.some.inj hvariants⟩, fun hvariants => congrArg some hvariants.2⟩

/-- A message as its first row holds it, with the references of further rows. -/
def Extends (message first : MessageEvidence) : Prop :=
  ∃ rest, message = { first with sourceRefs := ⟨first.sourceRefs.first, rest⟩ }

theorem merged_extends {items : List Held} {message : MessageEvidence}
    (h : items.foldl (fun same held => some (merge same held.2)) none = some message) :
    ∃ held ∈ items, Extends message held.2 := by
  induction items using List.reverseRecOn generalizing message with
  | nil => cases h
  | append_singleton items held ih =>
    rw [List.foldl_append] at h
    obtain rfl := Option.some.inj h
    cases hsame : items.foldl (fun same held => some (merge same held.2)) none with
    | none => exact ⟨held, List.mem_append_right _ List.mem_cons_self, held.2.sourceRefs.rest, rfl⟩
    | some same =>
      obtain ⟨first, hfirst, rest, rfl⟩ := ih hsame
      exact ⟨first, List.mem_append_left _ hfirst, _, rfl⟩

theorem nodup_variantsOf (items : List Held) : ((variantsOf items).map Prod.fst).Nodup :=
  JsMap.nodup_keys_collect _ _ List.nodup_nil

theorem mem_variantsOf {items : List Held} {digest : JsString} {message : MessageEvidence}
    (h : (digest, message) ∈ variantsOf items) :
    ∃ held ∈ items, held.2.rawSha256 = digest ∧ Extends message held.2 := by
  rw [← JsMap.get?_eq_some_iff (nodup_variantsOf items), variantsOf, JsMap.get?_collect] at h
  obtain ⟨held, hheld, hextends⟩ := merged_extends h
  obtain ⟨hmem, hdigest⟩ := List.mem_filter.1 hheld
  exact ⟨held, hmem, of_decide_eq_true hdigest, hextends⟩

/-- There are two revisions exactly when two rows differ. -/
theorem one_lt_variantsOf {items : List Held} {held : Held} (h : held ∈ items) :
    1 < (variantsOf items).length ↔ ∃ other ∈ items, other.2.rawSha256 ≠ held.2.rawSha256 := by
  have hkeys : ∀ digest, digest ∈ (variantsOf items).map Prod.fst ↔ ∃ held ∈ items, held.2.rawSha256 = digest :=
    fun _ => JsMap.mem_keys_collect _ _
  have hmem := (hkeys _).2 ⟨held, h, rfl⟩
  have hnodup := nodup_variantsOf items
  rw [← List.length_map (f := Prod.fst)]
  generalize (variantsOf items).map Prod.fst = digests at hkeys hmem hnodup
  constructor
  · intro hlength
    by_contra hall
    simp only [not_exists, not_and, not_not] at hall
    have hsub : digests ⊆ [held.2.rawSha256] := fun digest hdigest => by
      obtain ⟨other, hother, rfl⟩ := (hkeys digest).1 hdigest
      exact List.mem_singleton.2 (hall other hother)
    have hle := (hnodup.subperm hsub).length_le
    rw [List.length_singleton] at hle
    omega
  · rintro ⟨other, hother, hne⟩
    have hpair : [other.2.rawSha256, held.2.rawSha256].Nodup := by simpa using hne
    have hsub : [other.2.rawSha256, held.2.rawSha256] ⊆ digests := by
      simpa using ⟨(hkeys _).2 ⟨other, hother, rfl⟩, hmem⟩
    exact (hpair.subperm hsub).length_le

/-! ## Revisions -/

/-- The key that a message stands under, and the digest of its contents. -/
def MessageEvidence.revision (message : MessageEvidence) : MessageKey × JsString :=
  ((message.connectionId, message.messageId.getD (js "inbox:" ++ message.sourceRefs.first.inboxId)),
    message.rawSha256)

def Held.revision (held : Held) : MessageKey × JsString := (held.key, held.2.rawSha256)

/-- The messages refer to the rows that they were read from. -/
def Fresh (items : List Held) : Prop := ∀ held ∈ items, held.2.revision = held.revision

theorem fresh_heldIn (rt : Runtime) (rows : List WebhookRow) : Fresh (heldIn rt rows) := by
  intro held hheld
  have hread := normalize_isRead (mem_heldIn.1 hheld).2
  rw [MessageEvidence.revision, Held.revision, Held.key, WebhookRow.key, hread.sourceRefs]

theorem Extends.revision {message first : MessageEvidence} (h : Extends message first) :
    message.revision = first.revision := by
  obtain ⟨rest, rfl⟩ := h
  rfl

/-- Another row of the message has other contents. -/
def Conflicts (items : List Held) (held : Held) : Prop :=
  ∃ other ∈ items, other.key = held.key ∧ other.2.rawSha256 ≠ held.2.rawSha256

/-- A message of the list: its revision as merged, marked when other rows of the message differ. -/
def IsMarked (items : List Held) (held : Held) (message : MessageEvidence) : Prop :=
  ∃ merged, Extends merged held.2 ∧
    (Conflicts items held ∧ message = merged.conflicting ∨ ¬Conflicts items held ∧ message = merged)

theorem IsMarked.revision {items : List Held} {held : Held} {message : MessageEvidence}
    (h : IsMarked items held message) : message.revision = held.2.revision := by
  obtain ⟨merged, hextends, ⟨-, rfl⟩ | ⟨-, rfl⟩⟩ := h
  · exact hextends.revision
  · exact hextends.revision

/-- Rows of one revision conflict alike. -/
theorem Conflicts.congr {items : List Held} {held held' : Held} (h : held.revision = held'.revision) :
    Conflicts items held ↔ Conflicts items held' := by
  obtain ⟨hkey, hdigest⟩ := Prod.mk.inj h
  rw [Conflicts, Conflicts, hkey, hdigest]

theorem nodup_groupsOf (items : List Held) : ((groupsOf items []).map Prod.fst).Nodup :=
  JsMap.nodup_keys_collect _ _ List.nodup_nil

section Groups

variable {items : List Held} {k : MessageKey} {variants : Variants}

/-- What a group makes of its entries. -/
theorem isMarked_of_mem (hgroup : (k, variants) ∈ groupsOf items []) {entry : JsString × MessageEvidence}
    (hentry : entry ∈ variants) :
    ∃ held ∈ items, held.revision = (k, entry.1) ∧
      IsMarked items held (if 1 < variants.length then entry.2.conflicting else entry.2) := by
  rw [← JsMap.get?_eq_some_iff (nodup_groupsOf items)] at hgroup
  obtain ⟨-, rfl⟩ := get?_groupsOf.1 hgroup
  obtain ⟨held, hheld, hdigest, hextends⟩ := mem_variantsOf hentry
  obtain ⟨hmem, hkey⟩ := List.mem_filter.1 hheld
  have hkey' : held.key = k := of_decide_eq_true hkey
  refine ⟨held, hmem, Prod.ext hkey' hdigest, entry.2, hextends, ?_⟩
  have hlength : 1 < (variantsOf (items.filter fun held => held.key = k)).length ↔ Conflicts items held := by
    rw [one_lt_variantsOf hheld, Conflicts, hkey']
    simp only [List.mem_filter, decide_eq_true_eq, and_assoc]
  split_ifs with h
  · exact .inl ⟨hlength.1 h, rfl⟩
  · exact .inr ⟨fun hconflicts => h (hlength.2 hconflicts), rfl⟩

end Groups

theorem mem_messagesIn_iff {items : List Held} {message : MessageEvidence} :
    message ∈ messagesIn items ↔ ∃ group ∈ groupsOf items [], ∃ entry ∈ group.2,
      message = if 1 < group.2.length then entry.2.conflicting else entry.2 := by
  simp only [messagesIn, JsMap.values, messagesOf, List.mem_flatMap, List.mem_map, exists_exists_and_eq_and]
  exact exists_congr fun group => and_congr_right fun _ => exists_congr fun entry => and_congr_right fun _ => eq_comm

theorem isMarked_of_mem_messagesIn {items : List Held} {message : MessageEvidence} (h : message ∈ messagesIn items) :
    ∃ held ∈ items, IsMarked items held message := by
  obtain ⟨group, hgroup, entry, hentry, rfl⟩ := mem_messagesIn_iff.1 h
  obtain ⟨held, hheld, -, hmarked⟩ := isMarked_of_mem hgroup hentry
  exact ⟨held, hheld, hmarked⟩

/-- Every row that holds a message has its revision in the list. -/
theorem exists_mem_messagesIn {items : List Held} (hfresh : Fresh items) {held : Held} (h : held ∈ items) :
    ∃ message ∈ messagesIn items, message.revision = held.revision := by
  have hheld : held ∈ items.filter fun other => other.key = held.key := List.mem_filter.2 ⟨h, decide_eq_true rfl⟩
  have hgroup : (held.key, variantsOf (items.filter fun other => other.key = held.key)) ∈ groupsOf items [] :=
    JsMap.mem_of_get? (get?_groupsOf.2 ⟨List.ne_nil_of_mem hheld, rfl⟩)
  have hdigest : held.2.rawSha256 ∈ (variantsOf (items.filter fun other => other.key = held.key)).map Prod.fst :=
    (JsMap.mem_keys_collect _ _).2 ⟨held, hheld, rfl⟩
  obtain ⟨entry, hentry, hentryDigest⟩ := List.mem_map.1 hdigest
  obtain ⟨other, hother, hrevision, hmarked⟩ := isMarked_of_mem hgroup hentry
  refine ⟨_, mem_messagesIn_iff.2 ⟨_, hgroup, entry, hentry, rfl⟩, ?_⟩
  rw [hmarked.revision, hfresh other hother, hrevision, hentryDigest]
  rfl

/-- No revision stands twice in the list. -/
theorem nodup_revisions {items : List Held} (hfresh : Fresh items) :
    ((messagesIn items).map (·.revision)).Nodup := by
  have hgroups := nodup_groupsOf items
  have hkeys : (messagesIn items).map (·.revision) =
      (groupsOf items []).flatMap fun group => group.2.map fun entry => (group.1, entry.1) := by
    rw [messagesIn, JsMap.values, List.flatMap_map, List.map_flatMap]
    refine List.flatMap_congr fun group hgroup => ?_
    rw [messagesOf, JsMap.values, List.map_map, List.map_map]
    refine List.map_congr_left fun entry hentry => ?_
    obtain ⟨held, hheld, hrevision, hmarked⟩ := isMarked_of_mem hgroup hentry
    rw [← hrevision, ← hfresh held hheld, ← hmarked.revision]
    rfl
  rw [hkeys, List.nodup_flatMap]
  constructor
  · intro group hgroup
    obtain ⟨-, hvariants⟩ := get?_groupsOf.1 ((JsMap.get?_eq_some_iff hgroups).2 hgroup)
    have hnodup := nodup_variantsOf (items.filter fun held => held.key = group.1)
    rw [hvariants] at hnodup
    have hmap : (group.2.map fun entry => (group.1, entry.1)) =
        (group.2.map Prod.fst).map fun digest => (group.1, digest) := by
      rw [List.map_map]
      rfl
    rw [hmap]
    exact hnodup.map fun _ _ h => (Prod.mk.inj h).2
  · refine (List.pairwise_map.1 hgroups).imp fun {group other} hne => ?_
    intro revision hleft hright
    obtain ⟨_, -, rfl⟩ := List.mem_map.1 hleft
    obtain ⟨_, -, hkey⟩ := List.mem_map.1 hright
    exact hne (Prod.mk.inj hkey).1.symm

end AmoAnalytics.CrmControl.Source
