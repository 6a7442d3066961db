import AmoAnalytics.CrmControl.SourcePartition

/-!
# Every archived message has one place

Each revision that the rows hold is in one class of the index, revisions of one message that differ are never bound,
and neither depends on the order of the rows.
-/

namespace AmoAnalytics.CrmControl.Source

open JsText AmoAnalytics.Json

/-! ## Classes -/

/-- Where the index puts a message. -/
inductive SourceClass
  | otherConnection
  | excluded
  | unresolved
  | outOfScope
  | bound (dealExternalId : JsString)
  deriving DecidableEq

def classify (options : IndexOptions) (observedAt : ℤ) (message : MessageEvidence) : SourceClass :=
  if message.connectionId ≠ options.connectionId then .otherConnection
  else match message.occurredAt with
    | none => .unresolved
    | some occurredAt =>
      if observedAt < occurredAt then .excluded
      else if message.isUnclear then .unresolved
      else match leadIdsAt options message occurredAt with
        | [leadId] => if leadId ∈ options.dealExternalIds then .bound leadId else .outOfScope
        | _ => .unresolved

variable {options : IndexOptions} {observedAt : ℤ}

/-- Messages with the same telling fields are in one class. -/
theorem Alike.classify {message message' : MessageEvidence} (h : Alike message message') :
    classify options observedAt message = classify options observedAt message' := by
  have hunclear : message.isUnclear = message'.isUnclear := by
    have hmarked : message.issues.contains conflictCode = message'.issues.contains conflictCode := by
      rw [Bool.eq_iff_iff, List.contains_iff_mem, List.contains_iff_mem, h.marked]
    rw [MessageEvidence.isUnclear, MessageEvidence.isUnclear, h.binding, hmarked]
  have hleads : ∀ occurredAt, leadIdsAt options message occurredAt = leadIdsAt options message' occurredAt := by
    intro occurredAt
    rw [leadIdsAt, leadIdsAt, matchesAt, matchesAt, MessageEvidence.ownLead, MessageEvidence.ownLead, h.talkId,
      h.binding]
  simp only [Source.classify, h.connectionId, h.occurredAt, hunclear, hleads]

/-- A marked message is never told to be of a deal. -/
theorem classify_of_marked {message : MessageEvidence} (h : conflictCode ∈ message.issues) :
    classify options observedAt message ∈ [SourceClass.otherConnection, .excluded, .unresolved] := by
  have hunclear : message.isUnclear = true := by
    rw [MessageEvidence.isUnclear, List.contains_iff_mem.2 h, Bool.or_true]
  unfold classify
  split
  · simp
  · split
    · simp
    · split_ifs <;> simp

/-! ## The loop over the messages -/

/-- The index holds and counts the messages read so far, each in its class. -/
structure Indexes (options : IndexOptions) (observedAt : ℤ) (index : SourceDealIndex)
    (messages : List MessageEvidence) : Prop where
  deal : ∀ deal ∈ options.dealExternalIds, ∃ held, JsMap.get? deal index.byDeal = some held ∧
    (held.map (·.message)).Perm (messages.filter fun message => classify options observedAt message = .bound deal)
  noDeal : ∀ deal ∉ options.dealExternalIds, JsMap.get? deal index.byDeal = none
  unresolved : index.unresolved = messages.filter fun message => classify options observedAt message = .unresolved
  outOfScope : index.outOfScopeCount =
    messages.countP fun message => classify options observedAt message = .outOfScope
  excluded : index.excludedAfterObservationCount =
    messages.countP fun message => classify options observedAt message = .excluded

theorem indexes_emptyIndex : Indexes options observedAt (emptyIndex options) [] := by
  have hget := fun deal => JsMap.get?_ofEntries_const ([] : List DealMessage) options.dealExternalIds deal
  exact
    { deal := fun deal hdeal => ⟨[], (hget deal).trans (if_pos hdeal), .nil⟩
      noDeal := fun deal hdeal => (hget deal).trans (if_neg hdeal)
      unresolved := rfl
      outOfScope := rfl
      excluded := rfl }

/-- A message of no deal is counted or kept in its class. -/
def SourceDealIndex.record (index : SourceDealIndex) (message : MessageEvidence) : SourceClass → SourceDealIndex
  | .otherConnection => index
  | .excluded => { index with excludedAfterObservationCount := index.excludedAfterObservationCount + 1 }
  | .unresolved => { index with unresolved := index.unresolved ++ [message] }
  | .outOfScope => { index with outOfScopeCount := index.outOfScopeCount + 1 }
  | .bound _ => index

section Append

variable {index : SourceDealIndex} {messages : List MessageEvidence} {message : MessageEvidence}

theorem Indexes.record (h : Indexes options observedAt index messages) {c : SourceClass}
    (hclass : classify options observedAt message = c) (hbound : ∀ deal, c ≠ .bound deal) :
    Indexes options observedAt (index.record message c) (messages ++ [message]) := by
  have hdeals : (index.record message c).byDeal = index.byDeal := by cases c <;> rfl
  refine ⟨fun deal hdeal => ?_, fun deal hdeal => by rw [hdeals, h.noDeal deal hdeal], ?_, ?_, ?_⟩
  · obtain ⟨held, hget, hperm⟩ := h.deal deal hdeal
    refine ⟨held, by rw [hdeals, hget], ?_⟩
    rwa [List.filter_append, List.filter_cons_of_neg (by simpa [hclass] using hbound deal), List.filter_nil,
      List.append_nil]
  · rw [List.filter_append, ← h.unresolved]
    cases c <;> simp [SourceDealIndex.record, hclass]
  · rw [List.countP_append, ← h.outOfScope]
    cases c <;> simp [SourceDealIndex.record, hclass]
  · rw [List.countP_append, ← h.excluded]
    cases c <;> simp [SourceDealIndex.record, hclass]

theorem Indexes.bind (h : Indexes options observedAt index messages) {leadId : JsString} {target : List DealMessage}
    (hclass : classify options observedAt message = .bound leadId)
    (htarget : JsMap.get? leadId index.byDeal = some target)
    {entry : DealMessage} (hentry : entry.message = message) :
    Indexes options observedAt { index with byDeal := JsMap.set leadId (target ++ [entry]) index.byDeal }
      (messages ++ [message]) := by
  refine ⟨fun deal hdeal => ?_, fun deal hdeal => ?_, ?_, ?_, ?_⟩
  · obtain ⟨held, hget, hperm⟩ := h.deal deal hdeal
    by_cases hlead : leadId = deal
    · subst hlead
      obtain rfl := Option.some.inj (hget.symm.trans htarget)
      refine ⟨held ++ [entry], by rw [JsMap.get?_set, if_pos rfl], ?_⟩
      rw [List.map_append, List.map_singleton, hentry, List.filter_append,
        List.filter_cons_of_pos (by simpa using hclass), List.filter_nil]
      exact hperm.append_right _
    · refine ⟨held, by rw [JsMap.get?_set, if_neg hlead, hget], ?_⟩
      rwa [List.filter_append, List.filter_cons_of_neg (by simpa [hclass] using hlead), List.filter_nil,
        List.append_nil]
  · have hlead : leadId ≠ deal := by
      rintro rfl
      rw [h.noDeal leadId hdeal] at htarget
      cases htarget
    rw [JsMap.get?_set, if_neg hlead, h.noDeal deal hdeal]
  · rw [h.unresolved]
    simp [hclass]
  · rw [h.outOfScope]
    simp [hclass]
  · rw [h.excluded]
    simp [hclass]

/-- A round puts the message where it belongs. -/
theorem Indexes.append (h : Indexes options observedAt index messages) (message : MessageEvidence) :
    Indexes options observedAt (indexMessage options observedAt index message) (messages ++ [message]) := by
  by_cases hconnection : message.connectionId ≠ options.connectionId
  · rw [indexMessage, if_pos hconnection]
    exact h.record (if_pos hconnection) fun _ h => by cases h
  rw [indexMessage, if_neg hconnection]
  split
  · rename_i hdated
    have hclass : classify options observedAt message = .unresolved := by
      rw [classify, if_neg hconnection, hdated]
    exact h.record hclass fun _ h => by cases h
  rename_i occurredAt hdated
  have hclass : classify options observedAt message =
      if observedAt < occurredAt then .excluded
      else if message.isUnclear then .unresolved
      else match leadIdsAt options message occurredAt with
        | [leadId] => if leadId ∈ options.dealExternalIds then .bound leadId else .outOfScope
        | _ => .unresolved := by
    rw [classify, if_neg hconnection, hdated]
  split_ifs at hclass ⊢ with hafter hunclear
  · exact h.record hclass fun _ h => by cases h
  · exact h.record hclass fun _ h => by cases h
  obtain ⟨leadIds, hlead⟩ : ∃ leadIds, leadIdsAt options message occurredAt = leadIds := ⟨_, rfl⟩
  rw [hlead] at hclass ⊢
  rcases leadIds with _ | ⟨leadId, _ | ⟨next, rest⟩⟩
  · exact h.record hclass fun _ h => by cases h
  · dsimp only at hclass ⊢
    by_cases hdeal : leadId ∈ options.dealExternalIds
    · rw [if_pos hdeal] at hclass
      obtain ⟨target, htarget, -⟩ := h.deal leadId hdeal
      simp only [htarget]
      exact h.bind hclass htarget rfl
    · rw [if_neg hdeal] at hclass
      simp only [h.noDeal leadId hdeal]
      exact h.record hclass fun _ h => by cases h
  · exact h.record hclass fun _ h => by cases h

end Append

theorem indexes_foldl (messages : List MessageEvidence) :
    Indexes options observedAt (messages.foldl (indexMessage options observedAt) (emptyIndex options)) messages := by
  induction messages using List.reverseRecOn with
  | nil => exact indexes_emptyIndex
  | append_singleton messages message ih =>
    rw [List.foldl_append]
    exact ih.append message

/-- The index that the code returns, each deal's messages sorted. -/
theorem indexes_of_index {localeCompare : Collation} {messages : List MessageEvidence} {index : SourceDealIndex}
    (hobserved : options.observedAt = some observedAt)
    (h : indexCrmControlSourcesForDeals localeCompare messages options = some index) :
    Indexes options observedAt index messages := by
  rw [indexCrmControlSourcesForDeals, hobserved] at h
  obtain rfl := Option.some.inj h
  have hindexes : Indexes options observedAt _ messages := indexes_foldl messages
  refine ⟨fun deal hdeal => ?_, fun deal hdeal => ?_, hindexes.unresolved, hindexes.outOfScope, hindexes.excluded⟩
  · obtain ⟨held, hget, hperm⟩ := hindexes.deal deal hdeal
    refine ⟨held.mergeSort (notAfter localeCompare), ?_, ((List.mergeSort_perm _ _).map _).trans hperm⟩
    exact (JsMap.get?_map (·.mergeSort (notAfter localeCompare)) _ _).trans (congrArg _ hget)
  · exact (JsMap.get?_map (·.mergeSort (notAfter localeCompare)) _ _).trans (congrArg _ (hindexes.noDeal deal hdeal))

/-! ## The order of the rows -/

theorem Extends.alike {message first message' first' : MessageEvidence} (h : Extends message first)
    (h' : Extends message' first') (halike : Alike first first') : Alike message message' := by
  obtain ⟨rest, rfl⟩ := h
  obtain ⟨rest', rfl⟩ := h'
  exact ⟨halike.connectionId, halike.occurredAt, halike.talkId, halike.binding, halike.marked⟩

theorem Alike.conflicting {message message' : MessageEvidence} (h : Alike message message') :
    Alike message.conflicting message'.conflicting where
  connectionId := h.connectionId
  occurredAt := h.occurredAt
  talkId := h.talkId
  binding := h.binding
  marked := iff_of_true (List.mem_append_right _ List.mem_cons_self) (List.mem_append_right _ List.mem_cons_self)

/-- What both lists make of a revision tells the same place, when they hold the same rows. -/
theorem IsMarked.alike {items items' : List Held} {held held' : Held} {message message' : MessageEvidence}
    (h : IsMarked items held message) (h' : IsMarked items' held' message')
    (hconflicts : Conflicts items held ↔ Conflicts items' held') (halike : Alike held.2 held'.2) :
    Alike message message' := by
  obtain ⟨merged, hextends, ⟨hconflict, rfl⟩ | ⟨hconflict, rfl⟩⟩ := h
  · obtain ⟨merged', hextends', ⟨-, rfl⟩ | ⟨hconflict', -⟩⟩ := h'
    · exact (hextends.alike hextends' halike).conflicting
    · exact absurd (hconflicts.1 hconflict) hconflict'
  · obtain ⟨merged', hextends', ⟨hconflict', -⟩ | ⟨-, rfl⟩⟩ := h'
    · exact absurd (hconflicts.2 hconflict') hconflict
    · exact hextends.alike hextends' halike

/-- Rows of one revision tell their message alike. -/
theorem alike_of_revision {rt : Runtime} {rows : List WebhookRow} (hdigests : DigestsDiffer rt rows)
    {held held' : Held} (h : held ∈ heldIn rt rows) (h' : held' ∈ heldIn rt rows)
    (hrevision : held.revision = held'.revision) :
    Alike held.2 held'.2 := by
  obtain ⟨hrow, hnormal⟩ := mem_heldIn.1 h
  obtain ⟨hrow', hnormal'⟩ := mem_heldIn.1 h'
  have hread := normalize_isRead hnormal
  have hread' := normalize_isRead hnormal'
  have hconnection : held.1.connectionId = held'.1.connectionId := by
    rw [← hread.connectionId, ← hread'.connectionId]
    exact congrArg (fun revision => revision.1.1) hrevision
  have hdigest : held.1.digest rt = held'.1.digest rt := by
    rw [← hread.rawSha256, ← hread'.rawSha256]
    exact congrArg (fun revision => revision.2) hrevision
  exact hread.alike hread' hconnection (hdigests _ hrow _ hrow' hdigest)

def placeOf (options : IndexOptions) (observedAt : ℤ) (message : MessageEvidence) :
    (MessageKey × JsString) × SourceClass :=
  (message.revision, classify options observedAt message)

section Order

variable {rt : Runtime} {rows rows' : List WebhookRow}

theorem mem_heldIn_of_perm (hperm : rows.Perm rows') {held : Held} :
    held ∈ heldIn rt rows ↔ held ∈ heldIn rt rows' := by
  rw [mem_heldIn, mem_heldIn, hperm.mem_iff]

theorem exists_place (hperm : rows.Perm rows') (hdigests : DigestsDiffer rt rows) {message : MessageEvidence}
    (h : message ∈ messagesIn (heldIn rt rows)) :
    ∃ message' ∈ messagesIn (heldIn rt rows'),
      placeOf options observedAt message' = placeOf options observedAt message := by
  obtain ⟨held, hheld, hmarked⟩ := isMarked_of_mem_messagesIn h
  obtain ⟨message', hmessage', hrevision⟩ :=
    exists_mem_messagesIn (fresh_heldIn rt rows') ((mem_heldIn_of_perm hperm).1 hheld)
  obtain ⟨held', hheld', hmarked'⟩ := isMarked_of_mem_messagesIn hmessage'
  rw [hmarked'.revision, fresh_heldIn rt rows' held' hheld'] at hrevision
  have hconflicts : Conflicts (heldIn rt rows) held ↔ Conflicts (heldIn rt rows') held' := by
    rw [Conflicts.congr hrevision, Conflicts, Conflicts]
    simp only [mem_heldIn_of_perm hperm]
  have halike := alike_of_revision hdigests ((mem_heldIn_of_perm hperm).2 hheld') hheld hrevision
  refine ⟨message', hmessage', Prod.ext ?_ (hmarked'.alike hmarked hconflicts.symm halike).classify⟩
  change message'.revision = message.revision
  rw [hmarked.revision, hmarked'.revision, fresh_heldIn rt rows' held' hheld', fresh_heldIn rt rows held hheld,
    hrevision]

theorem nodup_places (rt : Runtime) (rows : List WebhookRow) :
    ((messagesIn (heldIn rt rows)).map (placeOf options observedAt)).Nodup := by
  refine List.Nodup.of_map Prod.fst ?_
  rw [List.map_map]
  exact nodup_revisions (fresh_heldIn rt rows)

theorem perm_places (hperm : rows.Perm rows') (hdigests : DigestsDiffer rt rows) :
    ((messagesIn (heldIn rt rows)).map (placeOf options observedAt)).Perm
      ((messagesIn (heldIn rt rows')).map (placeOf options observedAt)) := by
  have hdigests' : DigestsDiffer rt rows' := fun row hrow row' hrow' =>
    hdigests row (hperm.mem_iff.2 hrow) row' (hperm.mem_iff.2 hrow')
  rw [List.perm_ext_iff_of_nodup (nodup_places rt rows) (nodup_places rt rows')]
  intro place
  simp only [List.mem_map]
  constructor
  · rintro ⟨message, hmessage, rfl⟩
    exact exists_place hperm hdigests hmessage
  · rintro ⟨message, hmessage, rfl⟩
    exact exists_place hperm.symm hdigests' hmessage

end Order

/-! ## Revisions of one message -/

/-- Two messages under one key are marked. -/
theorem marked_of_key {rt : Runtime} {rows : List WebhookRow} {message message' : MessageEvidence}
    (h : message ∈ messagesIn (heldIn rt rows)) (h' : message' ∈ messagesIn (heldIn rt rows))
    (hkey : message.revision.1 = message'.revision.1) (hne : message ≠ message') : conflictCode ∈ message.issues := by
  have hfresh := fresh_heldIn rt rows
  have hrevision : message.revision ≠ message'.revision := fun heq =>
    hne (List.inj_on_of_nodup_map (nodup_revisions hfresh) h h' heq)
  obtain ⟨held, hheld, hmarked⟩ := isMarked_of_mem_messagesIn h
  obtain ⟨held', hheld', hmarked'⟩ := isMarked_of_mem_messagesIn h'
  rw [hmarked.revision, hmarked'.revision, hfresh held hheld, hfresh held' hheld'] at hkey hrevision
  have hconflicts : Conflicts (heldIn rt rows) held :=
    ⟨held', hheld', hkey.symm, fun hdigest => hrevision (Prod.ext hkey hdigest.symm)⟩
  obtain ⟨merged, -, ⟨-, rfl⟩ | ⟨hnot, -⟩⟩ := hmarked
  · exact List.mem_append_right _ List.mem_cons_self
  · exact absurd hconflicts hnot

/-- Every revision that the rows hold is in the index once, in one class; revisions of one message that differ are of
no deal; the classes do not depend on the order of the rows. -/
theorem source_index_partition (rt : Runtime) (localeCompare : Collation) (options : IndexOptions) {observedAt : ℤ}
    (hobserved : options.observedAt = some observedAt) {rows rows' : List WebhookRow} (hperm : rows.Perm rows')
    (hdigests : DigestsDiffer rt rows) :
    (normalizeCrmControlWebhookRows rt rows = none ↔ normalizeCrmControlWebhookRows rt rows' = none) ∧
    ∀ messages, normalizeCrmControlWebhookRows rt rows = some messages →
      (∃ index, indexCrmControlSourcesForDeals localeCompare messages options = some index ∧
        Indexes options observedAt index messages) ∧
      (messages.map (·.revision)).Nodup ∧
      (∀ row ∈ rows, ∀ message, normalizeCrmControlWebhook rt row = some (some message) →
        ∃ kept ∈ messages, kept.revision = message.revision) ∧
      (∀ message ∈ messages, ∀ message' ∈ messages, message.revision.1 = message'.revision.1 → message ≠ message' →
        classify options observedAt message ∈ [SourceClass.otherConnection, .excluded, .unresolved]) ∧
      ∃ messages', normalizeCrmControlWebhookRows rt rows' = some messages' ∧
        (messages.map (placeOf options observedAt)).Perm (messages'.map (placeOf options observedAt)) := by
  have hreadable : Readable rt rows ↔ Readable rt rows' := by
    simp only [Readable, hperm.mem_iff]
  have hnone : ∀ rows, normalizeCrmControlWebhookRows rt rows = none ↔ ¬Readable rt rows := by
    intro rows
    rw [Option.eq_none_iff_forall_ne_some]
    simp only [ne_eq, normalizeCrmControlWebhookRows_iff, not_and]
    exact ⟨fun h hread => h _ hread rfl, fun h _ hread => absurd hread h⟩
  refine ⟨by rw [hnone, hnone, hreadable], fun messages hmessages => ?_⟩
  obtain ⟨hread, rfl⟩ := normalizeCrmControlWebhookRows_iff.1 hmessages
  refine ⟨?_, nodup_revisions (fresh_heldIn rt rows), ?_, ?_, ?_⟩
  · obtain ⟨index, hindex⟩ : ∃ index,
        indexCrmControlSourcesForDeals localeCompare (messagesIn (heldIn rt rows)) options = some index := by
      rw [indexCrmControlSourcesForDeals, hobserved]
      exact ⟨_, rfl⟩
    exact ⟨index, hindex, indexes_of_index hobserved hindex⟩
  · intro row hrow message hmessage
    have hheld : ((row, message) : Held) ∈ heldIn rt rows := mem_heldIn.2 ⟨hrow, hmessage⟩
    obtain ⟨kept, hkept, hrevision⟩ := exists_mem_messagesIn (fresh_heldIn rt rows) hheld
    exact ⟨kept, hkept, hrevision.trans (fresh_heldIn rt rows _ hheld).symm⟩
  · intro message hmessage message' hmessage' hkey hne
    exact classify_of_marked (marked_of_key hmessage hmessage' hkey hne)
  · exact ⟨_, normalizeCrmControlWebhookRows_iff.2 ⟨hreadable.1 hread, rfl⟩, perm_places hperm hdigests⟩

/-! ## Samples -/

/-- A runtime whose digest is the text itself. -/
def sampleRuntime : Runtime := ⟨fun s => s, fun s => s, fun _ => none⟩

def sampleOptions : IndexOptions := ⟨js "crm", [js "7"], some 150000, []⟩

/-- An archived message of a lead, at a second of the clock. -/
def sampleRow (id seconds : JsString) : WebhookRow where
  id
  connectionId := js "crm"
  entity := js "message"
  action := js "add"
  payload := .obj [(js "id", .str (js "m")), (js "created_at", .str seconds), (js "entity_type", .str (js "lead")),
    (js "entity_id", .str (js "7"))]
  receivedAt := some 300000
  distinct := by
    have hkeys : [js "id", js "created_at", js "entity_type", js "entity_id"].Nodup := by decide
    refine .obj hkeys fun field hfield => ?_
    simp only [List.mem_cons, List.not_mem_nil, or_false] at hfield
    obtain rfl | rfl | rfl | rfl := hfield <;> exact .str _

/-- Two rows of one revision in either order. -/
theorem source_index_partition_sample :
    (normalizeCrmControlWebhookRows sampleRuntime
        [sampleRow (js "r1") (js "100"), sampleRow (js "r2") (js "100")] = none ↔
      normalizeCrmControlWebhookRows sampleRuntime
        [sampleRow (js "r2") (js "100"), sampleRow (js "r1") (js "100")] = none) ∧
    ∀ messages, normalizeCrmControlWebhookRows sampleRuntime
        [sampleRow (js "r1") (js "100"), sampleRow (js "r2") (js "100")] = some messages →
      (messages.map (·.revision)).Nodup := by
  have h := source_index_partition sampleRuntime codeUnits sampleOptions rfl
    (List.Perm.swap (sampleRow (js "r2") (js "100")) (sampleRow (js "r1") (js "100")) []) fun _ _ _ _ h => h
  exact ⟨h.1, fun messages hmessages => (h.2 messages hmessages).2.1⟩

/-- A message archived with two times, one of them after the observation, is both excluded and unresolved. -/
theorem revisions_in_two_classes :
    ∃ first second index, normalizeCrmControlWebhookRows sampleRuntime
        [sampleRow (js "r1") (js "100"), sampleRow (js "r2") (js "200")] = some [first, second] ∧
      first.messageId = some (js "m") ∧ second.messageId = some (js "m") ∧
      indexCrmControlSourcesForDeals codeUnits [first, second] sampleOptions = some index ∧
      index.unresolved = [first] ∧ index.excludedAfterObservationCount = 1 := by
  obtain ⟨first, hfirst⟩ : ∃ first, normalizeCrmControlWebhook sampleRuntime (sampleRow (js "r1") (js "100")) =
      some (some first) := ⟨_, rfl⟩
  obtain ⟨second, hsecond⟩ : ∃ second, normalizeCrmControlWebhook sampleRuntime (sampleRow (js "r2") (js "200")) =
      some (some second) := ⟨_, rfl⟩
  have hread := normalize_isRead hfirst
  have hread' := normalize_isRead hsecond
  have hdigest : first.rawSha256 ≠ second.rawSha256 := by
    rw [hread.rawSha256, hread'.rawSha256]
    intro heq
    have hsame := (sortedText_codeUnits (WebhookRow.distinct_contents _) (WebhookRow.distinct_contents _)).1 heq
    have htime := (same_payload hsame).get (sampleRow _ _).distinct (sampleRow _ _).distinct "created_at"
    exact absurd (timestamp_same htime) (by decide)
  have hkey : (sampleRow (js "r1") (js "100")).key first = (js "crm", js "m") := by
    rw [WebhookRow.key, hread.connectionId, hread.messageId]
    rfl
  have hkey' : (sampleRow (js "r2") (js "200")).key second = (js "crm", js "m") := by
    rw [WebhookRow.key, hread'.connectionId, hread'.messageId]
    rfl
  have hrows : normalizeCrmControlWebhookRows sampleRuntime
      [sampleRow (js "r1") (js "100"), sampleRow (js "r2") (js "200")] =
        some [first.conflicting, second.conflicting] := by
    simp [normalizeCrmControlWebhookRows, readRow, hfirst, hsecond, addRow, hkey, hkey', retain, JsMap.set,
      JsMap.get?, merge, hdigest, messagesOf, JsMap.values]
  have hclass : classify sampleOptions 150000 first.conflicting = .unresolved := by
    have hconnection : first.conflicting.connectionId = sampleOptions.connectionId := hread.connectionId
    have htime : first.conflicting.occurredAt = some 100000 := hread.occurredAt
    have hunclear : first.conflicting.isUnclear = true := by
      simp [MessageEvidence.isUnclear, MessageEvidence.conflicting]
    rw [classify, if_neg (not_not.2 hconnection), htime]
    simp [hunclear]
  have hclass' : classify sampleOptions 150000 second.conflicting = .excluded := by
    have hconnection : second.conflicting.connectionId = sampleOptions.connectionId := hread'.connectionId
    have htime : second.conflicting.occurredAt = some 200000 := hread'.occurredAt
    rw [classify, if_neg (not_not.2 hconnection), htime]
    rfl
  obtain ⟨index, hindex⟩ : ∃ index, indexCrmControlSourcesForDeals codeUnits
      [first.conflicting, second.conflicting] sampleOptions = some index := ⟨_, rfl⟩
  have hindexes := indexes_of_index rfl hindex
  refine ⟨first.conflicting, second.conflicting, index, hrows, hread.messageId, hread'.messageId, hindex, ?_, ?_⟩
  · rw [hindexes.unresolved]
    simp [hclass, hclass']
  · rw [hindexes.excluded]
    simp [hclass, hclass']

end AmoAnalytics.CrmControl.Source
