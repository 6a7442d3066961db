import AmoAnalytics.CrmControl.ChatMessage

/-!
# The direction of a chat message

Who wrote a message and to whom, from the catalog of the account, the actors that the account does not know and the
native contact of the chat. The catalog is read entry by entry, but what it says of an id depends only on the entries
that it has: an id is a user's when all its valid entries name one CRM user, and a conflict otherwise.
-/

namespace AmoAnalytics.CrmControl.Chat

open JsText

/-! ## The catalog by its entries -/

def AccountUser.isValid (user : AccountUser) : Bool := isId user.amojoId && isNumericId user.crmUserId

/-- A valid entry of the catalog. -/
def Listed (users : List AccountUser) (amojoId crmUserId : JsString) : Prop :=
  ∃ user ∈ users, user.isValid = true ∧ user.amojoId = amojoId ∧ user.crmUserId = crmUserId

/-- Two valid entries name different CRM users. -/
def Conflicting (users : List AccountUser) (amojoId : JsString) : Prop :=
  ∃ crmUserId crmUserId', Listed users amojoId crmUserId ∧ Listed users amojoId crmUserId' ∧ crmUserId ≠ crmUserId'

theorem listed_append {users : List AccountUser} {user : AccountUser} {amojoId crmUserId : JsString} :
    Listed (users ++ [user]) amojoId crmUserId ↔
      Listed users amojoId crmUserId ∨ user.isValid = true ∧ user.amojoId = amojoId ∧ user.crmUserId = crmUserId := by
  unfold Listed
  simp only [List.mem_append, List.mem_singleton, or_and_right, exists_or, exists_eq_left]

/-- What the loop over the entries has made of those it has seen. -/
structure Catalog.Reads (catalog : Catalog) (users : List AccountUser) (unknown : List JsString) : Prop where
  invalid : catalog.invalid = users.any (!·.isValid)
  /-- The last entry of an id. -/
  listed : ∀ amojoId crmUserId, JsMap.get? amojoId catalog.users = some crmUserId → Listed users amojoId crmUserId
  known : ∀ amojoId crmUserId, Listed users amojoId crmUserId → (JsMap.get? amojoId catalog.users).isSome = true
  ambiguous : ∀ amojoId, amojoId ∈ catalog.ambiguous ↔ amojoId ∈ unknown ∨ Conflicting users amojoId

theorem Catalog.reads_nil (unknown : List JsString) : Catalog.Reads { ambiguous := unknown } [] unknown where
  invalid := rfl
  listed := nofun
  known := fun _ _ ⟨_, h, _⟩ => absurd h List.not_mem_nil
  ambiguous := fun _ => ⟨.inl, fun h => h.resolve_right fun ⟨_, _, ⟨_, h, _⟩, _⟩ => List.not_mem_nil h⟩

section Step

variable {catalog : Catalog} {users : List AccountUser} {unknown : List JsString} {user : AccountUser}

theorem Catalog.add_invalid (h : user.isValid = false) : catalog.add user = { catalog with invalid := true } := by
  have hcond : (!isId user.amojoId || !isNumericId user.crmUserId) = true := by
    rw [← Bool.not_and, ← AccountUser.isValid, h]
    rfl
  exact if_pos hcond

theorem Catalog.add_valid (h : user.isValid = true) :
    catalog.add user =
      { catalog with
        users := JsMap.set user.amojoId user.crmUserId catalog.users
        ambiguous :=
          if (JsMap.get? user.amojoId catalog.users).any (· ≠ user.crmUserId) then user.amojoId :: catalog.ambiguous
          else catalog.ambiguous } := by
  have hcond : ¬ (!isId user.amojoId || !isNumericId user.crmUserId) = true := by
    rw [← Bool.not_and, ← AccountUser.isValid, h]
    exact Bool.false_ne_true
  exact if_neg hcond

/-- An entry of another id, or an invalid one, says nothing of an id. -/
theorem conflicting_append {amojoId : JsString} :
    Conflicting (users ++ [user]) amojoId ↔ Conflicting users amojoId ∨
      user.isValid = true ∧ user.amojoId = amojoId ∧ ∃ crmUserId, Listed users amojoId crmUserId ∧
        crmUserId ≠ user.crmUserId := by
  unfold Conflicting
  simp only [listed_append]
  constructor
  · rintro ⟨a, b, ha | ⟨hvalid, hid, rfl⟩, hb | ⟨hvalid', hid', rfl⟩, hne⟩
    · exact .inl ⟨a, b, ha, hb, hne⟩
    · exact .inr ⟨hvalid', hid', a, ha, hne⟩
    · exact .inr ⟨hvalid, hid, b, hb, Ne.symm hne⟩
    · exact absurd rfl hne
  · rintro (⟨a, b, ha, hb, hne⟩ | ⟨hvalid, hid, a, ha, hne⟩)
    · exact ⟨a, b, .inl ha, .inl hb, hne⟩
    · exact ⟨a, user.crmUserId, .inl ha, .inr ⟨hvalid, hid, rfl⟩, hne⟩

theorem Catalog.Reads.add (h : catalog.Reads users unknown) (user : AccountUser) :
    (catalog.add user).Reads (users ++ [user]) unknown := by
  cases hvalid : user.isValid with
  | false =>
    rw [Catalog.add_invalid hvalid]
    refine { invalid := ?_, listed := ?_, known := ?_, ambiguous := ?_ }
    · rw [List.any_append, List.any_cons, hvalid]
      simp
    · exact fun amojoId crmUserId hget => listed_append.2 (.inl (h.listed amojoId crmUserId hget))
    · intro amojoId crmUserId hlisted
      rcases listed_append.1 hlisted with hlisted | hnew
      · exact h.known amojoId crmUserId hlisted
      · exact absurd (hvalid ▸ hnew.1) Bool.false_ne_true
    · intro amojoId
      rw [h.ambiguous, conflicting_append, hvalid]
      simp
  | true =>
    rw [Catalog.add_valid hvalid]
    refine { invalid := ?_, listed := ?_, known := ?_, ambiguous := ?_ }
    · rw [List.any_append, List.any_cons, hvalid, h.invalid]
      simp
    · intro amojoId crmUserId hget
      rw [JsMap.get?_set] at hget
      split_ifs at hget with hid
      · exact listed_append.2 (.inr ⟨hvalid, hid, Option.some.inj hget⟩)
      · exact listed_append.2 (.inl (h.listed amojoId crmUserId hget))
    · intro amojoId crmUserId hlisted
      rw [JsMap.get?_set]
      split_ifs with hid
      · rfl
      · rcases listed_append.1 hlisted with hlisted | hnew
        · exact h.known amojoId crmUserId hlisted
        · exact absurd hnew.2.1 hid
    · intro amojoId
      have hprevious : (JsMap.get? user.amojoId catalog.users).any (· ≠ user.crmUserId) = true →
          ∃ crmUserId, Listed users user.amojoId crmUserId ∧ crmUserId ≠ user.crmUserId := by
        intro hany
        obtain ⟨crmUserId, hget, hne⟩ := (Option.any_eq_true _ _).1 hany
        exact ⟨crmUserId, h.listed _ _ hget, of_decide_eq_true hne⟩
      rw [conflicting_append, hvalid, ← or_assoc, ← h.ambiguous]
      by_cases hany : (JsMap.get? user.amojoId catalog.users).any (· ≠ user.crmUserId) = true
      · rw [if_pos hany, List.mem_cons]
        constructor
        · rintro (rfl | hold)
          · exact .inr ⟨rfl, rfl, hprevious hany⟩
          · exact .inl hold
        · rintro (hold | ⟨-, hid, -⟩)
          · exact .inr hold
          · exact .inl hid.symm
      · -- The previous entry agrees, so another one that does not was a conflict before.
        rw [if_neg hany]
        refine ⟨.inl, ?_⟩
        rintro (hold | ⟨-, rfl, crmUserId, hlisted, hne⟩)
        · exact hold
        obtain ⟨previous, hget⟩ := Option.isSome_iff_exists.1 (h.known _ _ hlisted)
        have hsame : previous = user.crmUserId := by
          by_contra hother
          exact hany ((Option.any_eq_true _ _).2 ⟨previous, hget, decide_eq_true hother⟩)
        exact (h.ambiguous _).2 (.inr ⟨crmUserId, previous, hlisted, h.listed _ _ hget, hsame ▸ hne⟩)

end Step

theorem foldl_reads (users : List AccountUser) (unknown : List JsString) :
    (users.foldl Catalog.add { ambiguous := unknown }).Reads users unknown := by
  induction users using List.reverseRecOn with
  | nil => exact Catalog.reads_nil unknown
  | append_singleton users user ih =>
    rw [List.foldl_append, List.foldl_cons, List.foldl_nil]
    exact ih.add user

/-- The catalog says of an id what its entries say. -/
theorem readCatalog_spec (users : List AccountUser) (unknown : List JsString) :
    (readCatalog users unknown).invalid = users.any (!·.isValid) ∧
      (∀ amojoId, amojoId ∈ (readCatalog users unknown).ambiguous ↔ amojoId ∈ unknown ∨ Conflicting users amojoId) ∧
      ∀ amojoId crmUserId, JsMap.get? amojoId (readCatalog users unknown).users = some crmUserId ↔
        Listed users amojoId crmUserId ∧ amojoId ∉ unknown ∧ ¬ Conflicting users amojoId := by
  have hreads := foldl_reads users unknown
  refine ⟨hreads.invalid, hreads.ambiguous, fun amojoId crmUserId => ?_⟩
  have hget : JsMap.get? amojoId (readCatalog users unknown).users =
      if amojoId ∈ (users.foldl Catalog.add { ambiguous := unknown }).ambiguous then none
      else JsMap.get? amojoId (users.foldl Catalog.add { ambiguous := unknown }).users := by
    unfold readCatalog
    dsimp only
    rw [JsMap.get?, List.find?_filter]
    split_ifs with hambiguous
    · rw [List.find?_eq_none.2, Option.map_none]
      intro user _ huser
      obtain ⟨hnot, hid⟩ := of_decide_eq_true huser
      rw [of_decide_eq_true hid, List.contains_iff_mem.2 hambiguous] at hnot
      exact Bool.false_ne_true hnot
    · refine congrArg (Option.map Prod.snd) (List.find?_congr fun user _ => ?_)
      by_cases hid : user.1 = amojoId
      · simp [hid, hambiguous]
      · simp [hid]
  rw [hget]
  by_cases hambiguous : amojoId ∈ (users.foldl Catalog.add { ambiguous := unknown }).ambiguous
  · rw [if_pos hambiguous]
    refine iff_of_false (Option.some_ne_none _).symm fun h => ?_
    exact ((hreads.ambiguous amojoId).1 hambiguous).elim h.2.1 h.2.2
  · rw [if_neg hambiguous]
    obtain ⟨hknown, hconflict⟩ := not_or.1 fun h => hambiguous ((hreads.ambiguous amojoId).2 h)
    refine ⟨fun h => ⟨hreads.listed _ _ h, hknown, hconflict⟩, fun h => ?_⟩
    have hlisted := h.1
    obtain ⟨last, hlast⟩ := Option.isSome_iff_exists.1 (hreads.known _ _ hlisted)
    have hsame : last = crmUserId := by
      by_contra hne
      exact hconflict ⟨last, crmUserId, hreads.listed _ _ hlast, hlisted, hne⟩
    rw [hlast, hsame]

/-! ## The same entries -/

/-- Two catalogs with the same entries, in whatever order and number. -/
structure SameEntries (users users' : List AccountUser) (unknown unknown' : Option (List JsString)) : Prop where
  users : ∀ user, user ∈ users ↔ user ∈ users'
  unknown : ∀ amojoId, amojoId ∈ unknown.getD [] ↔ amojoId ∈ unknown'.getD []

/-- Within the limits of the catalogs. -/
def CatalogFits (users : List AccountUser) (unknown : Option (List JsString)) : Prop :=
  users.length ≤ 10_000 ∧ ∀ ids, unknown = some ids → ids.length ≤ 10_000

section Same

variable {users users' : List AccountUser} {unknown unknown' : Option (List JsString)}

theorem SameEntries.listed (h : SameEntries users users' unknown unknown') {amojoId crmUserId : JsString} :
    Listed users amojoId crmUserId ↔ Listed users' amojoId crmUserId := by
  unfold Listed
  simp only [h.users]

theorem SameEntries.conflicting (h : SameEntries users users' unknown unknown') {amojoId : JsString} :
    Conflicting users amojoId ↔ Conflicting users' amojoId := by
  unfold Conflicting
  simp only [h.listed]

theorem SameEntries.get? (h : SameEntries users users' unknown unknown') (amojoId : JsString) :
    JsMap.get? amojoId (readCatalog users (unknown.getD [])).users =
      JsMap.get? amojoId (readCatalog users' (unknown'.getD [])).users := by
  refine Option.ext fun crmUserId => ?_
  rw [(readCatalog_spec users _).2.2, (readCatalog_spec users' _).2.2, h.listed, h.unknown, h.conflicting]

theorem SameEntries.ambiguous (h : SameEntries users users' unknown unknown') (amojoId : JsString) :
    (readCatalog users (unknown.getD [])).ambiguous.contains amojoId =
      (readCatalog users' (unknown'.getD [])).ambiguous.contains amojoId := by
  rw [Bool.eq_iff_iff, List.contains_iff_mem, List.contains_iff_mem, (readCatalog_spec users _).2.1,
    (readCatalog_spec users' _).2.1, h.unknown, h.conflicting]

theorem SameEntries.issues (h : SameEntries users users' unknown unknown') :
    (readCatalog users (unknown.getD [])).issues = (readCatalog users' (unknown'.getD [])).issues := by
  have hinvalid : (readCatalog users (unknown.getD [])).invalid =
      (readCatalog users' (unknown'.getD [])).invalid := by
    rw [(readCatalog_spec users _).1, (readCatalog_spec users' _).1, Bool.eq_iff_iff, List.any_eq_true,
      List.any_eq_true]
    simp only [h.users]
  have hempty : (readCatalog users (unknown.getD [])).ambiguous.isEmpty =
      (readCatalog users' (unknown'.getD [])).ambiguous.isEmpty := by
    rw [Bool.eq_iff_iff, List.isEmpty_iff, List.isEmpty_iff, List.eq_nil_iff_forall_not_mem,
      List.eq_nil_iff_forall_not_mem]
    simp only [← List.contains_iff_mem, h.ambiguous]
  rw [Catalog.issues, hinvalid, hempty, Catalog.issues]

end Same

/-- Catalogs that say the same of every id give the same sides of a message. -/
theorem parties_same {parties : Parties} {catalog : Catalog}
    (hget : ∀ amojoId, JsMap.get? amojoId parties.catalog.users = JsMap.get? amojoId catalog.users)
    (hambiguous : ∀ amojoId, parties.catalog.ambiguous.contains amojoId = catalog.ambiguous.contains amojoId) :
    { parties with catalog }.authorUserId = parties.authorUserId ∧
      { parties with catalog }.actorKind = parties.actorKind ∧
      { parties with catalog }.direction = parties.direction ∧ { parties with catalog }.issues = parties.issues := by
  have huser : { parties with catalog }.authorUserId = parties.authorUserId := by
    unfold Parties.authorUserId
    simp only [hget]
  have hconflict : { parties with catalog }.roleConflict = parties.roleConflict := by
    unfold Parties.roleConflict Catalog.has
    have hcontains : parties.catalog.ambiguous.contains = catalog.ambiguous.contains := funext hambiguous
    simp only [hget, hambiguous, hcontains]
  have hkind : { parties with catalog }.actorKind = parties.actorKind := by
    unfold Parties.actorKind
    rw [hconflict, huser]
    rfl
  have hdirection : { parties with catalog }.direction = parties.direction := by
    unfold Parties.direction
    rw [hconflict, hkind]
    rfl
  refine ⟨huser, hkind, hdirection, ?_⟩
  unfold Parties.issues
  rw [hconflict, hkind, hdirection]

/-! ## What a direction proves -/

/-- All valid entries of an id, of which there are some, name one CRM user. -/
def OneUser (users : List AccountUser) (amojoId : JsString) : Prop :=
  ∃ crmUserId, Listed users amojoId crmUserId ∧ ∀ other, Listed users amojoId other → other = crmUserId

/-- The native contact of the chat and of the contact of its talk. -/
structure IsContact (input : MessageInput) (proof : BindingProof) (contact : ExternalContact) : Prop where
  given : input.externalContact = some contact
  chat : contact.chatId = proof.scope.chatId
  talk : contact.contactId = proof.contactId
  identifier : isId contact.amojoId = true

/-- What an outgoing message that is evidence has. -/
structure OutgoingProven (rt : Runtime) (input : MessageInput) (proof : BindingProof) (message : NormalizedMessage) :
    Prop where
  author : (input.value.get "author").get "bot" = .bool true ∨
    ∃ authorId, message.authorId = some authorId ∧ OneUser input.accountUsers authorId
  recipient : ∃ contact, IsContact input proof contact ∧ message.recipientId = some contact.amojoId ∧
    (∀ crmUserId, ¬ Listed input.accountUsers contact.amojoId crmUserId) ∧
      contact.amojoId ∉ input.accountUnknownActorIds.getD []
  time : ∃ ms observedAt capturedAt, message.occurredAt = some (Semantic.isoString ms) ∧
    rt.dateParse proof.scope.observedAt = some observedAt ∧ rt.dateParse proof.messageCapturedAt = some capturedAt ∧
      ms ≤ observedAt ∧ ms ≤ capturedAt

section Direction

variable {rt : Runtime} {input : MessageInput} {proof : BindingProof}

theorem occurredAt_ok {value auxiliary : JsValue} {unit : TimestampUnit} {ms : ℤ}
    (h : occurredAt rt value unit auxiliary proof = .ok ms) :
    ∃ observedAt capturedAt, rt.dateParse proof.scope.observedAt = some observedAt ∧
      rt.dateParse proof.messageCapturedAt = some capturedAt ∧ ms ≤ observedAt ∧ ms ≤ capturedAt := by
  unfold occurredAt at h
  cases hstamp : positive value with
  | none =>
    rw [hstamp] at h
    exact nomatch h
  | some stamp =>
    rw [hstamp] at h
    dsimp only at h
    split at h
    · exact nomatch h
    split at h
    · exact nomatch h
    split at h
    · rename_i observedAt capturedAt hobserved hcaptured
      split_ifs at h with hbefore
      obtain rfl := Except.ok.inj h
      exact ⟨observedAt, capturedAt, hobserved, hcaptured, hbefore⟩
    · exact nomatch h

theorem isContact_of_externalId {amojoId : JsString} (h : externalId proof input.externalContact = some amojoId) :
    ∃ contact, IsContact input proof contact ∧ contact.amojoId = amojoId := by
  obtain ⟨contact, hfilter, rfl⟩ := Option.map_eq_some_iff.1 h
  obtain ⟨hgiven, hcond⟩ := Option.filter_eq_some_iff.1 hfilter
  simp only [Bool.and_eq_true, decide_eq_true_eq] at hcond
  exact ⟨contact, ⟨hgiven, hcond.1.1, hcond.1.2, hcond.2⟩, rfl⟩

/-- Without a conflict the contact is in neither catalog. -/
theorem contact_unlisted {amojoId : JsString} (hexternal : (partiesOf input proof).externalId = some amojoId)
    (h : (partiesOf input proof).roleConflict = false) :
    (∀ crmUserId, ¬ Listed input.accountUsers amojoId crmUserId) ∧
      amojoId ∉ input.accountUnknownActorIds.getD [] := by
  obtain ⟨-, hambiguous, hget⟩ := readCatalog_spec input.accountUsers (input.accountUnknownActorIds.getD [])
  have hcontact := (Bool.or_eq_false_iff.1 h).1
  rw [hexternal, Option.any_some, Bool.or_eq_false_iff] at hcontact
  have hnot : amojoId ∉ (partiesOf input proof).catalog.ambiguous := by
    rw [← List.contains_iff_mem, hcontact.2]
    exact Bool.false_ne_true
  obtain ⟨hunknown, hconflict⟩ := not_or.1 (mt (hambiguous amojoId).2 hnot)
  refine ⟨fun crmUserId hlisted => ?_, hunknown⟩
  have hhas : (partiesOf input proof).catalog.has amojoId = true :=
    Option.isSome_iff_exists.2 ⟨crmUserId, (hget amojoId crmUserId).2 ⟨hlisted, hunknown, hconflict⟩⟩
  exact Bool.false_ne_true (hcontact.1.symm.trans hhas)

theorem authorUserId_oneUser {crmUserId : JsString}
    (h : (partiesOf input proof).authorUserId = some crmUserId) :
    ∃ authorId, (partiesOf input proof).authorId = some authorId ∧ OneUser input.accountUsers authorId := by
  obtain ⟨authorId, hauthor, hget⟩ := Option.bind_eq_some_iff.1 h
  obtain ⟨hlisted, -, hconflict⟩ := ((readCatalog_spec input.accountUsers _).2.2 authorId crmUserId).1 hget
  refine ⟨authorId, hauthor, crmUserId, hlisted, fun other hother => ?_⟩
  by_contra hne
  exact hconflict ⟨other, crmUserId, hother, hlisted, hne⟩

theorem Parties.direction_outgoing {parties : Parties} (h : parties.direction = .outgoing) :
    parties.roleConflict = false ∧ parties.recipientExternal = true ∧
      (parties.actorKind = .internal ∨ parties.actorKind = .bot) := by
  unfold Parties.direction at h
  split_ifs at h with hunknown hauthor hrecipient
  simp only [Bool.or_eq_true, not_or, Bool.not_eq_true] at hunknown
  simp only [Bool.and_eq_true, Bool.or_eq_true, decide_eq_true_eq] at hrecipient
  exact ⟨hunknown.1.1, hrecipient⟩

theorem Parties.direction_incoming {parties : Parties} (h : parties.direction = .incoming) :
    parties.authorExternal = true := by
  unfold Parties.direction at h
  split_ifs at h with hunknown hauthor hrecipient
  exact hauthor

theorem Parties.actorKind_bot {parties : Parties} (h : parties.actorKind = .bot) : parties.bot = true := by
  unfold Parties.actorKind at h
  split_ifs at h with hconflict hbot
  exact hbot

theorem Parties.actorKind_internal {parties : Parties} (h : parties.actorKind = .internal) :
    parties.authorUserId.isSome = true := by
  unfold Parties.actorKind at h
  split_ifs at h with hconflict hbot huser
  exact huser

theorem outgoing_proven (h : (readMessage rt input proof).eligibleAsOutgoingEvidence = true) :
    OutgoingProven rt input proof (readMessage rt input proof) := by
  simp only [readMessage, Bool.and_eq_true, decide_eq_true_eq] at h
  obtain ⟨⟨htime, hdirection⟩, -⟩ := h
  obtain ⟨hconflict, hrecipient, hkind⟩ := Parties.direction_outgoing hdirection
  obtain ⟨hsome, hsame⟩ := Bool.and_eq_true_iff.1 hrecipient
  obtain ⟨recipientId, hrecipientId⟩ := Option.isSome_iff_exists.1 hsome
  have hexternal : (partiesOf input proof).externalId = some recipientId :=
    (of_decide_eq_true hsame).trans hrecipientId
  obtain ⟨contact, hcontact, rfl⟩ := isContact_of_externalId hexternal
  refine { author := ?_, recipient := ?_, time := ?_ }
  · rcases hkind with hinternal | hbot
    · obtain ⟨crmUserId, huser⟩ := Option.isSome_iff_exists.1 (Parties.actorKind_internal hinternal)
      exact .inr (authorUserId_oneUser huser)
    · left
      have hflag := Parties.actorKind_bot hbot
      unfold partiesOf at hflag
      dsimp only at hflag
      split at hflag
      · rename_i bot hvalue
        rw [hvalue, hflag]
      · exact absurd hflag Bool.false_ne_true
  · exact ⟨contact, hcontact, hrecipientId, contact_unlisted hexternal hconflict⟩
  · obtain ⟨ms, hms⟩ := Option.isSome_iff_exists.1 htime
    have hok : occurredAt rt (input.value.get "created_at") input.createdAtUnit (input.value.get "msec_created_at")
        proof = .ok ms := by
      cases hresult : occurredAt rt (input.value.get "created_at") input.createdAtUnit
          (input.value.get "msec_created_at") proof with
      | error code =>
        rw [hresult] at hms
        exact nomatch hms
      | ok stamp =>
        rw [hresult] at hms
        exact congrArg Except.ok (Option.some.inj hms)
    obtain ⟨observedAt, capturedAt, hbounds⟩ := occurredAt_ok hok
    refine ⟨ms, observedAt, capturedAt, ?_, hbounds⟩
    unfold readMessage
    dsimp only
    rw [hok]
    rfl

theorem incoming_proven (h : (readMessage rt input proof).direction = .incoming) :
    ∃ contact, IsContact input proof contact ∧ (readMessage rt input proof).authorId = some contact.amojoId := by
  obtain ⟨hsome, hsame⟩ := Bool.and_eq_true_iff.1 (Parties.direction_incoming h)
  obtain ⟨authorId, hauthor⟩ := Option.isSome_iff_exists.1 hsome
  obtain ⟨contact, hcontact, rfl⟩ := isContact_of_externalId ((of_decide_eq_true hsame).trans hauthor)
  exact ⟨contact, hcontact, hauthor⟩

/-! ## The catalogs of a message -/

theorem rejection_sameEntries {users : List AccountUser} {unknown : Option (List JsString)}
    (h : SameEntries input.accountUsers users input.accountUnknownActorIds unknown)
    (hfits : CatalogFits input.accountUsers input.accountUnknownActorIds) (hfits' : CatalogFits users unknown) :
    rejection rt { input with accountUsers := users, accountUnknownActorIds := unknown } proof =
      rejection rt input proof := by
  have hshort {users : List AccountUser} {unknown : Option (List JsString)} (hfits : CatalogFits users unknown) :
      ¬ 10_000 < users.length ∧ (unknown.any fun ids => 10_000 < ids.length || ids.any (!isId ·)) =
        (unknown.getD []).any (!isId ·) := by
    refine ⟨Nat.not_lt.2 hfits.1, ?_⟩
    cases hids : unknown with
    | none => rfl
    | some ids =>
      rw [Option.any_some, decide_eq_false (Nat.not_lt.2 (hfits.2 ids hids)), Bool.false_or, Option.getD_some]
  have hinvalid : (unknown.getD []).any (!isId ·) = (input.accountUnknownActorIds.getD []).any (!isId ·) := by
    rw [Bool.eq_iff_iff, List.any_eq_true, List.any_eq_true]
    simp only [h.unknown]
  unfold rejection
  dsimp only
  rw [(hshort hfits).2, (hshort hfits').2, if_neg (hshort hfits).1, if_neg (hshort hfits').1, hinvalid]

theorem readMessage_sameEntries {users : List AccountUser} {unknown : Option (List JsString)}
    (h : SameEntries input.accountUsers users input.accountUnknownActorIds unknown) :
    readMessage rt { input with accountUsers := users, accountUnknownActorIds := unknown } proof =
      readMessage rt input proof := by
  have hsides := @parties_same (partiesOf input proof) (readCatalog users (unknown.getD [])) h.get? h.ambiguous
  obtain ⟨huser, hkind, hdirection, hissues⟩ := hsides
  have hparties : partiesOf { input with accountUsers := users, accountUnknownActorIds := unknown } proof =
      { partiesOf input proof with catalog := readCatalog users (unknown.getD []) } := rfl
  unfold readMessage
  dsimp only
  rw [hparties, huser, hkind, hdirection, hissues]
  have hcatalog : (readCatalog users (unknown.getD [])).issues = (partiesOf input proof).catalog.issues :=
    h.issues.symm
  rw [hcatalog]

theorem normalize_bound (hstatus : input.binding.status = .bound) (hproof : input.binding.proof = some proof)
    (h : rejection rt input proof = none) :
    (normalizeCrmControlChatMessage rt input).message = some (readMessage rt input proof) := by
  unfold normalizeCrmControlChatMessage
  rw [hstatus, hproof]
  dsimp only
  rw [h]

theorem normalize_sameEntries {users : List AccountUser} {unknown : Option (List JsString)}
    (h : SameEntries input.accountUsers users input.accountUnknownActorIds unknown)
    (hfits : CatalogFits input.accountUsers input.accountUnknownActorIds) (hfits' : CatalogFits users unknown) :
    normalizeCrmControlChatMessage rt { input with accountUsers := users, accountUnknownActorIds := unknown } =
      normalizeCrmControlChatMessage rt input := by
  unfold normalizeCrmControlChatMessage
  dsimp only
  split
  · rw [rejection_sameEntries h hfits hfits', readMessage_sameEntries h]
  · rfl

end Direction

/-- Every direction of a message has its proof, and the catalogs count by their entries alone. -/
theorem chat_direction (rt : Runtime) (input : MessageInput) :
    (∀ message, (normalizeCrmControlChatMessage rt input).message = some message →
      ∃ proof, input.binding.proof = some proof ∧
        (message.eligibleAsOutgoingEvidence = true → OutgoingProven rt input proof message) ∧
        (message.direction = .incoming →
          ∃ contact, IsContact input proof contact ∧ message.authorId = some contact.amojoId)) ∧
      ∀ users unknown, SameEntries input.accountUsers users input.accountUnknownActorIds unknown →
        CatalogFits input.accountUsers input.accountUnknownActorIds → CatalogFits users unknown →
        normalizeCrmControlChatMessage rt { input with accountUsers := users, accountUnknownActorIds := unknown } =
          normalizeCrmControlChatMessage rt input := by
  refine ⟨fun message h => ?_, fun users unknown => normalize_sameEntries⟩
  obtain ⟨proof, hproof, -, rfl⟩ := normalize_message h
  exact ⟨proof, hproof, outgoing_proven, incoming_proven⟩

/-! ## A contact with an invalid entry -/

def directionRuntime : Runtime where
  textHash _ := []
  normalize s := s
  toLowerCase s := s
  parseDate _ := none
  dateTimeFormat _ := none
  parseJson _ := none
  sourceHash _ := some (js "5378e6287777074bbb3d20edb87b1a35196da4a8f10e8d8175ab2affe8209b27")
  attachments _ := ([], [])

def directionProof : BindingProof where
  scope := ⟨js "connection", js "42", js "123", js "chat-a", js "2026-09-22T16:05:00.000Z"⟩
  messageId := js "message-a"
  talkId := js "301"
  contactId := js "77"
  collectionStartedAt := js "2026-09-22T16:00:00.000Z"
  collectionFinishedAt := js "2026-09-22T16:04:00.000Z"
  messageCapturedAt := js "2026-09-22T16:01:00.000Z"
  talkCapturedAt := js "2026-09-22T16:02:00.000Z"
  confirmedAt := js "2026-09-22T16:03:00.000Z"
  messageSourceHash := js "5378e6287777074bbb3d20edb87b1a35196da4a8f10e8d8175ab2affe8209b27"
  talkSourceHash := js "5378e6287777074bbb3d20edb87b1a35196da4a8f10e8d8175ab2affe8209b27"
  confirmationSourceHash := js "5378e6287777074bbb3d20edb87b1a35196da4a8f10e8d8175ab2affe8209b27"

/-- A message of a manager to the contact of the chat. -/
def directionInput (users : List AccountUser) : MessageInput where
  value := .obj [
    (js "id", .str (js "message-a")),
    (js "created_at", .num (some 1790092800)),
    (js "message", .obj [(js "text", .str (js "offer"))]),
    (js "dialog", .obj [(js "id", .num (some 301))]),
    (js "author", .obj [(js "id", .str (js "staff-a"))]),
    (js "recipient", .obj [(js "id", .str (js "customer-a"))])]
  binding := ⟨.bound, [], some directionProof⟩
  accountUsers := users
  externalContact := some ⟨js "chat-a", js "77", js "customer-a"⟩

/-- An entry without a numeric CRM id is skipped, also when it is the contact's. -/
theorem chat_direction_fails :
    ∃ message, (normalizeCrmControlChatMessage directionRuntime
        (directionInput [⟨js "staff-a", js "101"⟩, ⟨js "customer-a", js "x"⟩])).message = some message ∧
      message.eligibleAsOutgoingEvidence = true ∧ message.recipientId = some (js "customer-a") ∧
      ∃ user ∈ (directionInput [⟨js "staff-a", js "101"⟩, ⟨js "customer-a", js "x"⟩]).accountUsers,
        user.amojoId = js "customer-a" := by
  refine ⟨readMessage directionRuntime (directionInput [⟨js "staff-a", js "101"⟩, ⟨js "customer-a", js "x"⟩])
    directionProof, ?_, ?_, ?_, ⟨js "customer-a", js "x"⟩, ?_, rfl⟩
  · exact normalize_bound rfl rfl (by decide +kernel)
  · decide +kernel
  · decide +kernel
  · exact List.mem_cons_of_mem _ List.mem_cons_self

theorem chat_direction_sample :
    (∃ proof, OutgoingProven directionRuntime (directionInput [⟨js "staff-a", js "101"⟩]) proof
      (readMessage directionRuntime (directionInput [⟨js "staff-a", js "101"⟩]) directionProof)) ∧
      normalizeCrmControlChatMessage directionRuntime
          (directionInput [⟨js "staff-a", js "101"⟩, ⟨js "staff-a", js "101"⟩]) =
        normalizeCrmControlChatMessage directionRuntime (directionInput [⟨js "staff-a", js "101"⟩]) := by
  obtain ⟨hproven, hsame⟩ := chat_direction directionRuntime (directionInput [⟨js "staff-a", js "101"⟩])
  constructor
  · obtain ⟨proof, -, houtgoing, -⟩ := hproven _ (normalize_bound rfl rfl (by decide +kernel))
    exact ⟨proof, houtgoing (by decide +kernel)⟩
  · refine hsame [⟨js "staff-a", js "101"⟩, ⟨js "staff-a", js "101"⟩] none ⟨fun user => ?_, fun _ => Iff.rfl⟩
      ⟨by decide, nofun⟩ ⟨by decide, nofun⟩
    simp [directionInput]

end AmoAnalytics.CrmControl.Chat
