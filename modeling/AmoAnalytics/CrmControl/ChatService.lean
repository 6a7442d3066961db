import AmoAnalytics.CrmControl.ChatCompleteness

/-!
# A source that serves fixed messages

A source whose inventories, messages and talks stay as they are, within the limits of the collection: every chat is
read completely, each of its messages once.
-/

namespace AmoAnalytics.CrmControl.Chat

open JsText Effect

variable {σ ω ω' α : Type}

/-! ## What is served -/

/-- An answer without its date. -/
structure Body where
  httpStatus : ℤ
  value : JsValue

def Body.captured (body : Body) (capturedAt : JsString) : JsonCapture := ⟨body.httpStatus, capturedAt, body.value⟩

/-- What a source serves, the states in which it does, the dates it gives and the cost of a message in the archive. -/
structure Service (σ : Type) where
  talkPage : ℕ → Body
  talkPages : ℕ
  talks : Session.Talks
  related : Body
  relatedIds : List JsString
  messages : JsString → List JsValue
  talk : JsString → Body
  serving : σ → Prop
  stamp : JsString → Prop
  cost : JsString → JsValue → ℕ

namespace Service

variable (service : Service σ) (session : Session σ)

/-- The request is always answered with the body. -/
def Answers (request : σ → Except Fault JsonCapture × σ) (body : Body) : Prop :=
  ∀ s, service.serving s → ∃ capturedAt t, request s = (.ok (body.captured capturedAt), t) ∧
    service.stamp capturedAt ∧ service.serving t

/-- Some pages from a page on, each with valid talks of the deal and a link to the next; the talks after them. -/
inductive IsInventory : ℕ → ℕ → Session.Talks → Session.Talks → Prop
  | absent {page : ℕ} {talks : Session.Talks} (h : (service.talkPage page).httpStatus = 204) :
      IsInventory page 1 talks talks
  | last {page : ℕ} {talks result : Session.Talks} (h : (service.talkPage page).httpStatus ≠ 204)
      (hread : session.readTalkPage ((service.talkPage page).captured []) page talks = .ok (result, false)) :
      IsInventory page 1 talks result
  | more {page pages : ℕ} {talks next result : Session.Talks} (h : (service.talkPage page).httpStatus ≠ 204)
      (hread : session.readTalkPage ((service.talkPage page).captured []) page talks = .ok (next, true))
      (hrest : IsInventory (page + 1) pages next result) : IsInventory page (pages + 1) talks result

def chatIds : List JsString := Session.chatIds service.talks service.relatedIds

/-- The page of a chat from an offset on. -/
def page (chatId : JsString) (offset : ℕ) : Body := ⟨200, .arr (((service.messages chatId).drop offset).take 50)⟩

/-- The talks that the messages of a chat name. -/
def dialogIds (chatId : JsString) : List JsString :=
  JsMap.distinct ((service.messages chatId).filterMap Session.dialogId)

/-- The number of pages of a chat, the last one short. -/
def pageCount (chatId : JsString) : ℕ := (service.messages chatId).length / 50 + 1

/-! ## Sizes -/

def bytes (body : Body) : ℕ := session.rt.valueBytes body.value

def talkBytes : ℕ → ℕ → ℕ
  | _, 0 => 0
  | page, pages + 1 => bytes session (service.talkPage page) + talkBytes (page + 1) pages

theorem talkBytes_one (page : ℕ) : service.talkBytes session page 1 = bytes session (service.talkPage page) := rfl

/-- The bytes of some pages of a chat, from a page on. -/
def pageBytes (chatId : JsString) : ℕ → ℕ → ℕ
  | _, 0 => 0
  | page, pages + 1 => bytes session (service.page chatId (50 * page)) + pageBytes chatId (page + 1) pages

/-- The bytes that a chat adds to the archive. -/
def chatBytes (chatId : JsString) : ℕ :=
  service.pageBytes session chatId 0 (service.pageCount chatId) + bytes session (service.page chatId 0) +
    2 * ((service.dialogIds chatId).map fun talkId => bytes session (service.talk talkId)).sum +
    ((service.messages chatId).map (service.cost chatId)).sum

def archiveBytes : ℕ :=
  2 * (service.talkBytes session 1 service.talkPages + bytes session service.related) +
    (service.chatIds.map (service.chatBytes session)).sum

/-! ## The service -/

/-- Every request is answered as the service says, in time. -/
structure Serves : Prop where
  talkPage : ∀ page, 1 ≤ page → page ≤ service.talkPages →
    service.Answers (session.transport.listTalks page 250) (service.talkPage page)
  related : service.Answers session.transport.listRelatedChats service.related
  page : ∀ chatId ∈ service.chatIds, ∀ offset,
    service.Answers (session.transport.readMessages chatId offset 50) (service.page chatId offset)
  count : ∀ chatId ∈ service.chatIds, ∀ s, service.serving s → ∃ t,
    session.transport.readCount chatId s = (.ok (some ((service.messages chatId).length : ℤ)), t) ∧ service.serving t
  talk : ∀ chatId ∈ service.chatIds, ∀ talkId ∈ service.dialogIds chatId,
    service.Answers (session.transport.readTalk talkId) (service.talk talkId)
  dateNow : ∀ s, service.serving s →
    (session.transport.dateNow s).1 < session.deadline ∧ service.serving (session.transport.dateNow s).2
  now : ∀ s, service.serving s →
    service.stamp (session.transport.now s).1 ∧ service.serving (session.transport.now s).2
  dated : ∀ stamp, service.stamp stamp → ((session.rt.dateParse stamp).any fun captured =>
    (session.rt.dateParse session.startedAt).all (· ≤ captured)) = true

/-- The service lies within the limits of the collection. -/
structure Fits : Prop where
  inventory : service.IsInventory session 1 service.talkPages [] service.talks
  talkPages : service.talkPages ≤ session.input.talkPageLimit
  related : if service.related.httpStatus = 204 then service.relatedIds = []
    else ∃ ids, Session.chatIdsOf (service.related.captured []) = .ok ids ∧ service.relatedIds = Session.sortTexts ids
  chats : service.chatIds.length ≤ session.input.chatLimit
  valid : ∀ chatId ∈ service.chatIds, ∀ value ∈ service.messages chatId, id (value.get "id") ≠ none
  distinct : ∀ chatId ∈ service.chatIds, ((service.messages chatId).map fun value => id (value.get "id")).Nodup
  pages : ∀ chatId ∈ service.chatIds, service.pageCount chatId ≤ session.input.pageLimit
  dialogs : ∀ chatId ∈ service.chatIds, (service.dialogIds chatId).length ≤ 100
  digest : ∀ chatId ∈ service.chatIds, session.rt.digest (service.page chatId 0).value ≠ none
  talkSizes : ∀ page, 1 ≤ page → page ≤ service.talkPages →
    bytes session (service.talkPage page) ≤ Session.captureLimit
  relatedSize : bytes session service.related ≤ Session.captureLimit
  pageSizes : ∀ chatId ∈ service.chatIds, ∀ offset, bytes session (service.page chatId offset) ≤ Session.captureLimit
  dialogSizes : ∀ chatId ∈ service.chatIds, ∀ talkId ∈ service.dialogIds chatId,
    bytes session (service.talk talkId) ≤ Session.captureLimit
  records : ∀ chatId ∈ service.chatIds, ∀ value ∈ service.messages chatId, ∀ finishedAt chat capturedAt,
    service.stamp finishedAt → service.stamp capturedAt →
    (∀ talk ∈ chat.talks ++ chat.confirmations, service.stamp talk.capturedAt) →
    session.rt.recordBytes ⟨chatId, capturedAt, value⟩ (bindCrmControlChatMessage session.rt.sourceHash
      (session.bindingInput chatId finishedAt chat ⟨chatId, capturedAt, value⟩)) ≤ service.cost chatId value
  archive : service.archiveBytes session ≤ Session.archiveLimit

/-! ## Rounds of the collection -/

/-- The source serves, the archive has room for so many bytes, and the condition holds of the output. -/
structure Room (left : ℕ) (P : ω → Prop) (world : World σ ω) : Prop where
  serving : service.serving world.source
  bytes : world.capturedBytes + left ≤ Session.archiveLimit
  output : P world.output

/-- The run ends with a value. -/
abbrev Succeeds (P : World σ ω → Prop) (run : Collect σ ω α) (Q : α → World σ ω → Prop) : Prop :=
  Triple P run Q fun _ _ => False

variable {service session} {left : ℕ} {P Q : ω → Prop}

theorem Room.of_le {left' : ℕ} {world : World σ ω} (h : service.Room left P world) (hle : left' ≤ left) :
    service.Room left' P world := ⟨h.serving, (Nat.add_le_add_left hle _).trans h.bytes, h.output⟩

theorem succeeds_check (h : service.Serves session) :
    Succeeds (service.Room left P) (session.check : Collect σ ω Unit) fun _ => service.Room left P := by
  refine .bind (Q := fun time world => service.Room left P world ∧ time < session.deadline) ?_
    fun time => .of_and fun htime => ?_
  · intro world hroom
    obtain ⟨htime, hserving⟩ := h.dateNow world.source hroom.serving
    exact ⟨⟨hserving, hroom.bytes, hroom.output⟩, htime⟩
  · exact .failIf (fun _ _ hlate => absurd (of_decide_eq_true hlate) htime.not_ge) fun _ hroom _ => hroom

theorem succeeds_spend {bytes cost : ℕ} (h : bytes ≤ cost) :
    Succeeds (service.Room (cost + left) P) (Session.spend bytes : Collect σ ω Unit)
      fun _ => service.Room left P := by
  refine .bind (Q := fun _ => service.Room left P) (.modify fun world hroom => ?_) fun _ => ?_
  · refine ⟨hroom.serving, ?_, hroom.output⟩
    have hbytes := hroom.bytes
    change world.capturedBytes + bytes + left ≤ _
    omega
  refine .bind (Q := fun total world => service.Room left P world ∧ total ≤ Session.archiveLimit)
    (.gets fun world hroom => ⟨hroom, ?_⟩) fun total => .of_and fun htotal => ?_
  · exact (Nat.le_add_right _ _).trans hroom.bytes
  · exact .failIf (fun _ _ hfull => absurd (of_decide_eq_true hfull) htotal.not_gt) fun _ hroom _ => hroom

theorem succeeds_ask {request : σ → Except Fault JsonCapture × σ} {body : Body} (h : service.Answers request body) :
    Succeeds (service.Room left P) (ask request : Collect σ ω JsonCapture) fun capture world =>
      service.Room left P world ∧ ∃ capturedAt, service.stamp capturedAt ∧ capture = body.captured capturedAt := by
  intro world hroom
  obtain ⟨capturedAt, t, hrequest, hstamp, hserving⟩ := h world.source hroom.serving
  rw [ask, hrequest]
  exact ⟨⟨hserving, hroom.bytes, hroom.output⟩, capturedAt, hstamp, rfl⟩

theorem succeeds_validCapture (h : service.Serves session) {body : Body} {capturedAt : JsString}
    (hstamp : service.stamp capturedAt) (hsize : bytes session body ≤ Session.captureLimit) :
    Succeeds (service.Room (bytes session body + left) P)
      (session.validCapture (body.captured capturedAt) : Collect σ ω JsonCapture)
      fun capture world => service.Room left P world ∧ capture = body.captured capturedAt := by
  have hcapture : session.isCapture (body.captured capturedAt) = true := by
    rw [Session.isCapture, Bool.and_eq_true]
    exact ⟨h.dated capturedAt hstamp, decide_eq_true hsize⟩
  rw [Session.validCapture, hcapture]
  refine .bind (Q := fun _ => service.Room (bytes session body + left) P) (.pure fun _ hroom => hroom) fun _ => ?_
  exact .bind (succeeds_spend le_rfl) fun _ => .pure fun _ hroom => ⟨hroom, rfl⟩

/-- A request that is answered, with the check of the capture and what follows. -/
theorem succeeds_request (h : service.Serves session) {request : σ → Except Fault JsonCapture × σ} {body : Body}
    (hanswers : service.Answers request body) (hsize : bytes session body ≤ Session.captureLimit)
    {next : JsonCapture → Collect σ ω α} {R : α → World σ ω → Prop}
    (hnext : ∀ capturedAt, service.stamp capturedAt →
      Succeeds (service.Room left P) (next (body.captured capturedAt)) R) :
    Succeeds (service.Room (bytes session body + left) P)
      (ask request >>= fun answer => session.validCapture answer >>= next) R := by
  refine .bind (succeeds_ask hanswers) fun capture => .of_and ?_
  rintro ⟨capturedAt, hstamp, rfl⟩
  refine .bind (succeeds_validCapture h hstamp hsize) fun capture => .of_and ?_
  rintro rfl
  exact hnext capturedAt hstamp

/-! ## The inventories -/

/-- One page of the inventory, with what follows. -/
theorem succeeds_talkPage (h : service.Serves session) (hfits : service.Fits session) {push : JsonCapture → ω → ω}
    (hpush : ∀ capture output, P output → P (push capture output)) {page fuel : ℕ} {talks : Session.Talks}
    {R : Session.Talks → World σ ω → Prop} (hpage : 1 ≤ page) (hpages : page ≤ service.talkPages)
    (hnext : ∀ capturedAt, Succeeds (service.Room left P)
      (if (service.talkPage page).httpStatus = 204 then pure talks
      else do
        let (talks, more) ← Effect.ofExcept
          (session.readTalkPage ((service.talkPage page).captured capturedAt) page talks)
        if more then session.inventory push fuel (page + 1) talks else pure talks) R) :
    Succeeds (service.Room (bytes session (service.talkPage page) + left) P)
      (session.inventory push (fuel + 1) page talks) R := by
  rw [Session.inventory]
  refine .bind (succeeds_check h) fun _ => ?_
  refine succeeds_request h (h.talkPage page hpage hpages) (hfits.talkSizes page hpage hpages) fun capturedAt _ => ?_
  refine .bind (Q := fun _ => service.Room left P) (.modify fun world hroom => ?_) fun _ => hnext capturedAt
  exact ⟨hroom.serving, hroom.bytes, hpush _ _ hroom.output⟩

theorem succeeds_inventory (h : service.Serves session) (hfits : service.Fits session) {push : JsonCapture → ω → ω}
    (hpush : ∀ capture output, P output → P (push capture output)) {page pages fuel : ℕ}
    {talks result : Session.Talks} (hinventory : service.IsInventory session page pages talks result)
    (hpage : 1 ≤ page) (hpages : page + pages ≤ service.talkPages + 1) (hfuel : pages ≤ fuel) :
    Succeeds (service.Room (service.talkBytes session page pages + left) P)
      (session.inventory push fuel page talks)
      fun talks world => service.Room left P world ∧ talks = result := by
  induction hinventory generalizing fuel with
  | @absent page talks hstatus =>
    obtain ⟨fuel, rfl⟩ := Nat.exists_eq_add_of_le' hfuel
    rw [talkBytes_one]
    refine succeeds_talkPage h hfits hpush hpage (by omega) fun capturedAt => ?_
    rw [if_pos hstatus]
    exact .pure fun _ hroom => ⟨hroom, rfl⟩
  | @last page talks result hstatus hread =>
    obtain ⟨fuel, rfl⟩ := Nat.exists_eq_add_of_le' hfuel
    rw [talkBytes_one]
    refine succeeds_talkPage h hfits hpush hpage (by omega) fun capturedAt => ?_
    have hpage : session.readTalkPage ((service.talkPage page).captured capturedAt) page talks =
        .ok (result, false) := hread
    rw [if_neg hstatus, hpage]
    exact Triple.pure (a := result) fun _ hroom => ⟨hroom, rfl⟩
  | @more page pages talks next result hstatus hread hrest ih =>
    obtain ⟨fuel, rfl⟩ := Nat.exists_eq_add_of_le' (hfuel.trans' (Nat.le_add_left 1 pages))
    rw [talkBytes, Nat.add_assoc]
    refine succeeds_talkPage h hfits hpush hpage (by omega) fun capturedAt => ?_
    have hpage : session.readTalkPage ((service.talkPage page).captured capturedAt) page talks =
        .ok (next, true) := hread
    rw [if_neg hstatus, hpage]
    exact ih (by omega) (by omega) (by omega)

theorem succeeds_relatedIds (h : service.Serves session) (hfits : service.Fits session) {capturedAt : JsString}
    (hstamp : service.stamp capturedAt) :
    Succeeds (service.Room (bytes session service.related + left) P)
      (session.relatedIds (service.related.captured capturedAt) : Collect σ ω (List JsString))
      fun ids world => service.Room left P world ∧ ids = service.relatedIds := by
  have hrelated := hfits.related
  refine .bind (succeeds_validCapture h hstamp hfits.relatedSize) fun capture => .of_and ?_
  rintro rfl
  change Succeeds _ (if service.related.httpStatus = 204 then _ else _) _
  split_ifs at hrelated ⊢
  · exact .pure fun _ hroom => ⟨hroom, hrelated.symm⟩
  · obtain ⟨ids, hids, hsorted⟩ := hrelated
    have hpage : Session.chatIdsOf (service.related.captured capturedAt) = .ok ids := hids
    rw [hpage, hsorted]
    exact Triple.pure (a := Session.sortTexts ids) fun _ hroom => ⟨hroom, rfl⟩

/-! ## The messages of a chat -/

/-- The messages seen are the values, in their order, each under its id. -/
structure Shows (chatId : JsString) (values : List JsValue) (seen : Session.Seen) : Prop where
  values : seen.map (·.2.value) = values
  ids : ∀ entry ∈ seen, id (entry.2.value.get "id") = some entry.1
  captured : ∀ entry ∈ seen, entry.2.requestedChatId = chatId ∧ service.stamp entry.2.capturedAt

theorem Shows.add {chatId capturedAt : JsString} {values : List JsValue} {value : JsValue} {seen : Session.Seen}
    (h : service.Shows chatId values seen) (hstamp : service.stamp capturedAt)
    (hnew : id (value.get "id") ∉ values.map fun value => id (value.get "id")) (hid : id (value.get "id") ≠ none) :
    ∃ seen', Session.addMessage chatId capturedAt seen value = .ok seen' ∧
      service.Shows chatId (values ++ [value]) seen' := by
  obtain ⟨messageId, hmessage⟩ := Option.ne_none_iff_exists'.1 hid
  have hfresh : messageId ∉ seen.map Prod.fst := by
    intro hmem
    obtain ⟨entry, hentry, rfl⟩ := List.mem_map.1 hmem
    refine hnew ?_
    rw [← h.values, List.map_map, hmessage]
    exact List.mem_map.2 ⟨entry, hentry, h.ids entry hentry⟩
  refine ⟨_, by rw [Session.addMessage, hmessage]; exact if_neg hfresh, ?_, ?_, ?_⟩
  · rw [List.map_append, h.values]
    rfl
  · intro entry hentry
    rcases List.mem_append.1 hentry with hentry | hentry
    · exact h.ids entry hentry
    · rw [List.mem_singleton.1 hentry]
      exact hmessage
  · intro entry hentry
    rcases List.mem_append.1 hentry with hentry | hentry
    · exact h.captured entry hentry
    · rw [List.mem_singleton.1 hentry]
      exact ⟨rfl, hstamp⟩

theorem Shows.addAll {chatId capturedAt : JsString} {shown values : List JsValue} {seen : Session.Seen}
    (h : service.Shows chatId shown seen) (hstamp : service.stamp capturedAt)
    (hdistinct : ((shown ++ values).map fun value => id (value.get "id")).Nodup)
    (hvalid : ∀ value ∈ values, id (value.get "id") ≠ none) :
    ∃ seen', values.foldlM (Session.addMessage chatId capturedAt) seen = .ok seen' ∧
      service.Shows chatId (shown ++ values) seen' := by
  induction values generalizing shown seen with
  | nil => exact ⟨seen, rfl, by rwa [List.append_nil]⟩
  | cons value values ih =>
    have hnew : id (value.get "id") ∉ shown.map fun value => id (value.get "id") := by
      rw [List.map_append, List.nodup_append] at hdistinct
      exact fun hmem => hdistinct.2.2 _ hmem _ List.mem_cons_self rfl
    obtain ⟨next, hnext, hshows⟩ := h.add hstamp hnew (hvalid value List.mem_cons_self)
    rw [← List.singleton_append, ← List.append_assoc] at hdistinct
    obtain ⟨seen', hseen', hshows'⟩ := ih hshows hdistinct fun v hv => hvalid v (List.mem_cons_of_mem _ hv)
    refine ⟨seen', ?_, by rwa [List.append_assoc, List.singleton_append] at hshows'⟩
    rw [List.foldlM_cons, hnext]
    exact hseen'

theorem shown_add_page (values : List JsValue) (page : ℕ) :
    values.take (50 * page) ++ (values.drop (50 * page)).take 50 = values.take (50 * (page + 1)) := by
  rw [Nat.mul_succ, List.take_add]

/-- The pages of a chat from a page on, the earlier ones seen. -/
theorem succeeds_readPages (h : service.Serves session) (hfits : service.Fits session) {chatId : JsString}
    (hchat : chatId ∈ service.chatIds) {digest : JsString}
    (hdigest : session.rt.digest (service.page chatId 0).value = some digest) {pages fuel : ℕ} (hfuel : pages ≤ fuel)
    {page : ℕ} (hpages : page + pages = service.pageCount chatId) (hpos : 0 < pages) {first : Option JsString}
    (hfirst : first = some digest ∨ first = none ∧ page = 0) {seen : Session.Seen}
    (hseen : service.Shows chatId ((service.messages chatId).take (50 * page)) seen) :
    Succeeds (service.Room (service.pageBytes session chatId page pages + left) P)
      (session.readPages chatId fuel (50 * page) first seen)
      fun result world => service.Room left P world ∧
        service.Shows chatId (service.messages chatId) result.1 ∧ result.2 = digest := by
  induction pages generalizing fuel page first seen with
  | zero => exact absurd hpos (Nat.lt_irrefl _)
  | succ pages ih =>
    obtain ⟨fuel, rfl⟩ := Nat.exists_eq_add_of_le' (hfuel.trans' (Nat.le_add_left 1 pages))
    rw [Session.readPages, pageBytes, Nat.add_assoc]
    refine .bind (succeeds_check h) fun _ => ?_
    refine succeeds_request h (h.page chatId hchat _) (hfits.pageSizes chatId hchat _) fun capturedAt hstamp => ?_
    generalize hpage : ((service.messages chatId).drop (50 * page)).take 50 = values
    have hlength : values.length = min 50 ((service.messages chatId).length - 50 * page) := by
      rw [← hpage, List.length_take, List.length_drop]
    have hshown : (service.messages chatId).take (50 * page) ++ values =
        (service.messages chatId).take (50 * (page + 1)) := hpage ▸ shown_add_page _ _
    have hvalues : Session.pageValues ((service.page chatId (50 * page)).captured capturedAt) = .ok values := by
      rw [Session.pageValues, Body.captured, Service.page, hpage]
      refine if_pos ?_
      rw [Bool.and_eq_true, decide_eq_true_eq, decide_eq_true_eq]
      exact ⟨rfl, by omega⟩
    have hfirstHash : session.firstHashOf first ((service.page chatId (50 * page)).captured capturedAt).value =
        .ok digest := by
      obtain rfl | ⟨rfl, rfl⟩ := hfirst
      · rfl
      · change session.digestOf (service.page chatId 0).value = _
        rw [Session.digestOf, hdigest]
    have hdistinct : (((service.messages chatId).take (50 * page) ++ values).map fun value =>
        id (value.get "id")).Nodup := by
      rw [hshown]
      exact (hfits.distinct chatId hchat).sublist ((List.take_sublist _ _).map _)
    obtain ⟨next, hnext, hshows⟩ := hseen.addAll hstamp hdistinct fun value hvalue =>
      hfits.valid chatId hchat value (List.mem_of_mem_drop (List.mem_of_mem_take (hpage ▸ hvalue)))
    rw [hvalues, Effect.ofExcept_bind, hfirstHash, Effect.ofExcept_bind, Body.captured, hnext, Effect.ofExcept_bind]
    rw [hshown] at hshows
    split_ifs with hshort
    · have hall : (service.messages chatId).take (50 * (page + 1)) = service.messages chatId :=
        List.take_of_length_le (by omega)
      rw [hall] at hshows
      exact .pure fun world hroom => ⟨hroom.of_le (Nat.le_add_left _ _), hshows, rfl⟩
    · have hcount : service.pageCount chatId = (service.messages chatId).length / 50 + 1 := rfl
      have hoffset : 50 * page + values.length = 50 * (page + 1) := by omega
      rw [hoffset]
      exact ih (by omega) (by omega) (by omega) (.inl rfl) hshows

end Service

end AmoAnalytics.CrmControl.Chat
