import AmoAnalytics.CrmControl.ChatService

/-!
# Chat history reading is exact

A source that serves fixed messages within the limits is read completely, each message once; and a complete history of
any source has as many different messages as were counted.
-/

namespace AmoAnalytics.CrmControl.Chat

open JsText Effect

variable {σ ω ω' α : Type}

namespace Service

variable {service : Service σ} {session : Session σ} {left : ℕ} {chatId : JsString}

/-! ## A chat -/

/-- The record of a chat of which some messages are pushed. -/
structure Reads (service : Service σ) (chatId : JsString) (done : List MessageCapture) (chat : ChatRecord) :
    Prop where
  chatId : chat.chatId = chatId
  reasons : chat.reasonCodes = []
  messages : chat.messages.map (·.capture) = done
  stamps : ∀ talk ∈ chat.talks ++ chat.confirmations, service.stamp talk.capturedAt

theorem reads_emptyChat (service : Service σ) (chatId : JsString) :
    service.Reads chatId [] (Session.emptyChat chatId) := ⟨rfl, rfl, rfl, nofun⟩

theorem succeeds_readCount (h : service.Serves session) (hchat : chatId ∈ service.chatIds) {P : ω → Prop} :
    Succeeds (service.Room left P) (ask (session.transport.readCount chatId) : Collect σ ω (Option ℤ))
      fun count world => service.Room left P world ∧ count = some ((service.messages chatId).length : ℤ) := by
  intro world hroom
  obtain ⟨t, hcount, hserving⟩ := h.count chatId hchat world.source hroom.serving
  rw [ask, hcount]
  exact ⟨⟨hserving, hroom.bytes, hroom.output⟩, rfl⟩

theorem succeeds_now (h : service.Serves session) {P : ω → Prop} :
    Succeeds (service.Room left P) (reading session.transport.now : Collect σ ω JsString)
      fun finishedAt world => service.Room left P world ∧ service.stamp finishedAt := by
  intro world hroom
  obtain ⟨hstamp, hserving⟩ := h.now world.source hroom.serving
  exact ⟨⟨hserving, hroom.bytes, hroom.output⟩, hstamp⟩

theorem succeeds_save {P Q : ω → Prop} {f : ω → ω} (hf : ∀ output, P output → Q (f output)) :
    Succeeds (service.Room left P) (save f : Collect σ ω Unit) fun _ => service.Room left Q :=
  .modify fun _ hroom => ⟨hroom.serving, hroom.bytes, hf _ hroom.output⟩

theorem succeeds_refuseIf {P : ω → Prop} {condition : Bool} (h : condition = false) (code : String) :
    Succeeds (service.Room left P) (refuseIf condition code : Collect σ ω Unit) fun _ => service.Room left P :=
  .failIf (fun _ _ htrue => absurd (h.symm.trans htrue) Bool.false_ne_true) fun _ hroom _ => hroom

theorem succeeds_pushTalks (h : service.Serves session) (hfits : service.Fits session)
    (hchat : chatId ∈ service.chatIds) {P : ChatRecord → Prop} {push : TalkCapture → ChatRecord → ChatRecord}
    (hpush : ∀ talk chat, service.stamp talk.capturedAt → P chat → P (push talk chat)) {talkIds : List JsString}
    (htalks : ∀ talkId ∈ talkIds, talkId ∈ service.dialogIds chatId) :
    Succeeds (service.Room ((talkIds.map fun talkId => bytes session (service.talk talkId)).sum + left) P)
      (Effect.each (session.pushTalk push) talkIds) fun _ => service.Room left P := by
  induction talkIds with
  | nil => exact .pure fun _ hroom => hroom.of_le (Nat.le_add_left _ _)
  | cons talkId rest ih =>
    have htalk := htalks talkId List.mem_cons_self
    rw [Effect.each, List.map_cons, List.sum_cons, Nat.add_assoc]
    refine .bind ?_ fun _ => ih fun talkId htalk => htalks talkId (List.mem_cons_of_mem _ htalk)
    rw [Session.pushTalk]
    refine .bind (succeeds_check h) fun _ => ?_
    refine succeeds_request h (h.talk chatId hchat talkId htalk) (hfits.dialogSizes chatId hchat talkId htalk)
      fun capturedAt hstamp => ?_
    exact succeeds_save fun chat hchat => hpush _ _ hstamp hchat

theorem succeeds_pushMessages (hfits : service.Fits session) (hchat : chatId ∈ service.chatIds)
    {finishedAt : JsString} (hfinished : service.stamp finishedAt) {captures done : List MessageCapture}
    (hvalues : ∀ capture ∈ captures, capture.value ∈ service.messages chatId)
    (hcaptures : ∀ capture ∈ captures, capture.requestedChatId = chatId ∧ service.stamp capture.capturedAt) :
    Succeeds (service.Room ((captures.map fun capture => service.cost chatId capture.value).sum + left)
        (service.Reads chatId done))
      (Effect.each (session.pushMessage chatId finishedAt) captures)
      fun _ => service.Room left (service.Reads chatId (done ++ captures)) := by
  induction captures generalizing done with
  | nil =>
    rw [List.append_nil]
    exact .pure fun _ hroom => hroom.of_le (Nat.le_add_left _ _)
  | cons capture rest ih =>
    rw [Effect.each, List.map_cons, List.sum_cons, Nat.add_assoc]
    have hrest : Succeeds _ _ fun _ => service.Room left (service.Reads chatId (done ++ [capture] ++ rest)) :=
      ih (fun c hc => hvalues c (List.mem_cons_of_mem _ hc)) fun c hc => hcaptures c (List.mem_cons_of_mem _ hc)
    rw [List.append_assoc, List.singleton_append] at hrest
    refine .bind ?_ fun _ => hrest
    rw [Session.pushMessage]
    refine .bind (Q := fun chat world => service.Room _ (service.Reads chatId done) world ∧
      service.Reads chatId done chat) (.gets fun world hroom => ⟨hroom, hroom.output⟩) fun chat => ?_
    refine .of_and fun hreads => ?_
    have hcost : session.rt.recordBytes capture (bindCrmControlChatMessage session.rt.sourceHash
        (session.bindingInput chatId finishedAt chat capture)) ≤ service.cost chatId capture.value := by
      obtain ⟨hrequested, hstamp⟩ := hcaptures capture List.mem_cons_self
      have hrecord := hfits.records chatId hchat capture.value (hvalues capture List.mem_cons_self) finishedAt chat
        capture.capturedAt hfinished hstamp hreads.stamps
      have hcapture : capture = ⟨chatId, capture.capturedAt, capture.value⟩ := by rw [← hrequested]
      rwa [← hcapture] at hrecord
    refine .bind (succeeds_spend hcost) fun _ => succeeds_save fun chat hreads => ?_
    exact ⟨hreads.chatId, hreads.reasons, by rw [List.map_append, hreads.messages]; rfl, hreads.stamps⟩

/-- A chat as the source serves it. -/
structure IsServed (service : Service σ) (chatId : JsString) (chat : ChatRecord) : Prop where
  complete : chat.readComplete = true
  reasons : chat.reasonCodes = []
  messages : (chat.messages.map fun message => message.capture.value) = service.messages chatId
  chatId : chat.chatId = chatId

theorem talkIdsOf_shows {seen : Session.Seen} (h : service.Shows chatId (service.messages chatId) seen) :
    Session.talkIdsOf seen = service.dialogIds chatId := by
  rw [Session.talkIdsOf, dialogIds, ← h.values, List.filterMap_map]
  rfl

theorem succeeds_readChat (h : service.Serves session) (hfits : service.Fits session)
    (hchat : chatId ∈ service.chatIds) :
    Succeeds (service.Room (service.chatBytes session chatId + left) (· = Session.emptyChat chatId))
      (session.readChat chatId) fun _ => service.Room left (service.IsServed chatId) := by
  obtain ⟨digest, hdigest⟩ := Option.ne_none_iff_exists'.1 (hfits.digest chatId hchat)
  generalize htalkBytes : ((service.dialogIds chatId).map fun talkId => bytes session (service.talk talkId)).sum =
    talkBytes
  generalize hcost : ((service.messages chatId).map (service.cost chatId)).sum = cost
  have hbytes : service.chatBytes session chatId + left =
      service.pageBytes session chatId 0 (service.pageCount chatId) +
        (bytes session (service.page chatId 0) + (talkBytes + (talkBytes + (cost + left)))) := by
    rw [chatBytes, htalkBytes, hcost]
    omega
  rw [hbytes, Session.readChat]
  refine Triple.conseq (P := service.Room _ (service.Reads chatId [])) ?_
    (fun world hroom => ⟨hroom.serving, hroom.bytes, hroom.output ▸ reads_emptyChat service chatId⟩)
    (fun _ _ h => h) fun _ _ h => h
  refine .bind (succeeds_check h) fun _ => ?_
  refine .bind (succeeds_readCount h hchat) fun totalBefore => .of_and ?_
  rintro rfl
  refine .bind (succeeds_save (Q := service.Reads chatId [])
    fun chat hreads => ⟨hreads.chatId, hreads.reasons, hreads.messages, hreads.stamps⟩) fun _ => ?_
  have hcount : (safeInteger (some ((service.messages chatId).length : ℤ))).all (· < 0) = false := by
    have hpages := hfits.pages chatId hchat
    have hlimit : session.input.pageLimit ≤ 100 := Nat.min_le_left _ _
    rw [pageCount] at hpages
    have hsafe : ((service.messages chatId).length : ℤ).natAbs < 2 ^ 53 := by
      rw [Int.natAbs_natCast]
      omega
    rw [safeInteger, Option.filter_some, if_pos (decide_eq_true hsafe)]
    exact decide_eq_false (Int.natCast_nonneg (service.messages chatId).length).not_gt
  refine .bind (succeeds_refuseIf hcount _) fun _ => ?_
  refine .bind (succeeds_readPages h hfits hchat hdigest (hfits.pages chatId hchat) (Nat.zero_add _)
    (Nat.succ_pos _) (.inr ⟨rfl, rfl⟩) ⟨rfl, List.forall_mem_nil _, List.forall_mem_nil _⟩) fun read => ?_
  obtain ⟨seen, firstHash⟩ := read
  refine .of_and ?_
  rintro ⟨hshows, rfl⟩
  have hlength : seen.length = (service.messages chatId).length := by
    rw [← hshows.values, List.length_map]
  refine .bind (succeeds_check h) fun _ => ?_
  refine .bind (succeeds_readCount h hchat) fun totalAfter => .of_and ?_
  rintro rfl
  refine .bind (succeeds_save (Q := service.Reads chatId [])
    fun chat hreads => ⟨hreads.chatId, hreads.reasons, hreads.messages, hreads.stamps⟩) fun _ => ?_
  refine .bind (succeeds_refuseIf (by simp [hlength]) _) fun _ => ?_
  refine succeeds_request h (h.page chatId hchat 0) (hfits.pageSizes chatId hchat 0) fun capturedAt _ => ?_
  refine .bind (succeeds_refuseIf (decide_eq_false (not_not.2 rfl)) _) fun _ => ?_
  have hrepeated : session.digestOf ((service.page chatId 0).captured capturedAt).value = .ok firstHash := by
    change session.digestOf (service.page chatId 0).value = _
    rw [Session.digestOf, hdigest]
  rw [hrepeated, Effect.ofExcept_bind]
  refine .bind (succeeds_refuseIf (decide_eq_false (not_not.2 rfl)) _) fun _ => ?_
  dsimp only
  rw [talkIdsOf_shows hshows]
  have hdialogs := hfits.dialogs chatId hchat
  refine .bind (succeeds_refuseIf (decide_eq_false hdialogs.not_gt) _) fun _ => ?_
  have hpushTalks : ∀ (left : ℕ) (push : TalkCapture → ChatRecord → ChatRecord),
      (∀ talk chat, service.stamp talk.capturedAt → service.Reads chatId [] chat →
        service.Reads chatId [] (push talk chat)) →
      Succeeds (service.Room (talkBytes + left) (service.Reads chatId []))
        (Effect.each (session.pushTalk push) (service.dialogIds chatId))
        fun _ => service.Room left (service.Reads chatId []) :=
    fun left push hpush => htalkBytes ▸ succeeds_pushTalks h hfits hchat hpush fun _ h => h
  refine .bind (hpushTalks _ _ fun talk chat hstamp hreads => ?_) fun _ => ?_
  · refine ⟨hreads.chatId, hreads.reasons, hreads.messages, fun other hother => ?_⟩
    have hother' : other ∈ chat.talks ++ chat.confirmations ∨ other = talk := by
      simp only [List.mem_append, List.mem_singleton] at hother ⊢
      tauto
    exact hother'.elim (hreads.stamps other) fun h => h ▸ hstamp
  refine .bind (hpushTalks _ _ fun talk chat hstamp hreads => ?_) fun _ => ?_
  · refine ⟨hreads.chatId, hreads.reasons, hreads.messages, fun other hother => ?_⟩
    have hother' : other ∈ chat.talks ++ chat.confirmations ∨ other = talk := by
      simp only [List.mem_append, List.mem_singleton] at hother ⊢
      tauto
    exact hother'.elim (hreads.stamps other) fun h => h ▸ hstamp
  refine .bind (succeeds_now h) fun finishedAt => .of_and fun hfinished => ?_
  have hvalues : (seen.map Prod.snd).map (·.value) = service.messages chatId := by
    rw [List.map_map]
    exact hshows.values
  have hcosts : ((seen.map Prod.snd).map fun capture => service.cost chatId capture.value).sum = cost := by
    simp only [← hcost, ← hvalues, List.map_map, Function.comp_def]
  have hpushMessages : Succeeds (service.Room (cost + left) (service.Reads chatId []))
      (Effect.each (session.pushMessage chatId finishedAt) (seen.map Prod.snd))
      fun _ => service.Room left (service.Reads chatId ([] ++ seen.map Prod.snd)) := by
    rw [← hcosts]
    refine succeeds_pushMessages hfits hchat hfinished (fun capture hcapture => ?_) fun capture hcapture => ?_
    · exact hvalues ▸ List.mem_map_of_mem hcapture
    · obtain ⟨entry, hentry, rfl⟩ := List.mem_map.1 hcapture
      exact hshows.captured entry hentry
  refine .bind hpushMessages fun _ => succeeds_save fun chat hreads => ?_
  refine ⟨rfl, hreads.reasons, ?_, hreads.chatId⟩
  rw [← hvalues, ← List.nil_append (seen.map Prod.snd), ← hreads.messages, List.map_map]
  rfl

/-! ## The collection -/

/-- A run of its own succeeds within another. -/
theorem succeeds_within {cost : ℕ} {start : ω'} {run : Collect σ ω' Unit} {Q : ω' → Prop} {P : ω → Prop}
    (h : Succeeds (service.Room (cost + left) (· = start)) run fun _ => service.Room left Q) :
    Succeeds (service.Room (cost + left) P) (within start run : Collect σ ω (Except Fault Unit × ω'))
      fun result world => service.Room left P world ∧ result.1 = .ok () ∧ Q result.2 := by
  intro world hroom
  have hrun := h ⟨world.source, world.capturedBytes, start⟩ ⟨hroom.serving, hroom.bytes, rfl⟩
  rw [within]
  revert hrun
  rcases run ⟨world.source, world.capturedBytes, start⟩ with ⟨e | u, t⟩
  · exact False.elim
  · exact fun hrun => ⟨⟨hrun.serving, hrun.bytes, hroom.output⟩, rfl, hrun.output⟩

/-- A history without reasons whose chats are these, as the source serves them. -/
structure Collects (service : Service σ) (chatIds : List JsString) (history : CrmChatHistory) : Prop where
  reasons : history.reasonCodes = []
  chats : List.Forall₂ service.IsServed chatIds history.chats

theorem Collects.append {done : List JsString} {history : CrmChatHistory} (h : service.Collects done history)
    {chat : ChatRecord} (hchat : service.IsServed chatId chat) :
    service.Collects (done ++ [chatId]) { history with chats := history.chats ++ [chat] } :=
  ⟨h.reasons, List.rel_append h.chats (.cons hchat .nil)⟩

theorem complete_of_served {chatIds : List JsString} {chats : List ChatRecord}
    (h : List.Forall₂ service.IsServed chatIds chats) : ∀ chat ∈ chats, chat.readComplete = true := by
  induction h with
  | nil => exact nofun
  | cons hserved _ ih => exact List.forall_mem_cons.2 ⟨hserved.complete, ih⟩

theorem Collects.complete {chatIds : List JsString} {history : CrmChatHistory}
    (h : service.Collects chatIds history) : (Session.conclude history).readComplete = true := by
  change (history.reasonCodes.isEmpty && history.chats.all (·.readComplete)) = true
  rw [h.reasons, Bool.and_eq_true, List.all_eq_true]
  exact ⟨rfl, complete_of_served h.chats⟩

theorem succeeds_readChats (h : service.Serves session) (hfits : service.Fits session) {rest done : List JsString}
    (hrest : ∀ chatId ∈ rest, chatId ∈ service.chatIds) :
    Succeeds (service.Room ((rest.map (service.chatBytes session)).sum + left) (service.Collects done))
      (session.readChats rest) fun _ => service.Room left (service.Collects (done ++ rest)) := by
  induction rest generalizing done with
  | nil =>
    rw [List.append_nil]
    exact .pure fun _ hroom => hroom.of_le (Nat.le_add_left _ _)
  | cons chatId rest ih =>
    rw [Session.readChats, List.map_cons, List.sum_cons, Nat.add_assoc]
    refine .bind (succeeds_within (succeeds_readChat h hfits (hrest chatId List.mem_cons_self)))
      fun read => ?_
    obtain ⟨result, chat⟩ := read
    refine .of_and ?_
    rintro ⟨rfl, hserved⟩
    refine .bind (Q := fun _ => service.Room _ (service.Collects done)) (.failIf (fun _ _ => Bool.false_ne_true)
      fun _ hroom _ => hroom) fun _ => ?_
    refine .bind (succeeds_save fun history hcollects => hcollects.append hserved) fun _ => ?_
    have hreasons : (chat.reasonCodes.contains (js "CHAT_ARCHIVE_LIMIT")) = false := by rw [hserved.reasons]; rfl
    change Succeeds _ (if chat.reasonCodes.contains (js "CHAT_ARCHIVE_LIMIT") then _ else _) _
    rw [hreasons]
    have hloop : Succeeds (service.Room ((rest.map (service.chatBytes session)).sum + left)
        (service.Collects (done ++ [chatId]))) (session.readChats rest)
        fun _ => service.Room left (service.Collects (done ++ [chatId] ++ rest)) :=
      ih fun chatId hchat => hrest chatId (List.mem_cons_of_mem _ hchat)
    rwa [List.append_assoc, List.singleton_append] at hloop

theorem succeeds_collectAll (h : service.Serves session) (hfits : service.Fits session) :
    Succeeds (service.Room (service.archiveBytes session) (service.Collects [])) session.collectAll
      fun _ => service.Room 0 fun history =>
        service.Collects service.chatIds history ∧ history.readComplete = true := by
  generalize hchats : (service.chatIds.map (service.chatBytes session)).sum = chats
  generalize htalks : service.talkBytes session 1 service.talkPages = talks
  have hbytes : service.archiveBytes session = talks + (bytes session service.related +
      (chats + (talks + (bytes session service.related + 0)))) := by
    rw [archiveBytes, hchats, htalks]
    omega
  have hinventory : ∀ {left : ℕ} {P : CrmChatHistory → Prop} (push : JsonCapture → CrmChatHistory → CrmChatHistory),
      (∀ capture history, P history → P (push capture history)) →
      Succeeds (service.Room (talks + left) P) (session.inventory push session.input.talkPageLimit 1 [])
        fun talks world => service.Room left P world ∧ talks = service.talks := fun push hpush =>
    htalks ▸ succeeds_inventory h hfits hpush hfits.inventory le_rfl (by omega) hfits.talkPages
  rw [hbytes, Session.collectAll]
  refine .bind (hinventory _ fun _ _ hcollects => ⟨hcollects.reasons, hcollects.chats⟩) fun initial => .of_and ?_
  rintro rfl
  refine .bind (succeeds_ask h.related) fun relatedInitial => .of_and ?_
  rintro ⟨capturedAt, hstamp, rfl⟩
  refine .bind (succeeds_save (Q := service.Collects []) fun _ hcollects => ⟨hcollects.reasons, hcollects.chats⟩)
    fun _ => ?_
  refine .bind (succeeds_relatedIds h hfits hstamp) fun related => .of_and ?_
  rintro rfl
  change Succeeds _ (saveIf (session.input.chatLimit < service.chatIds.length) _ >>= fun _ =>
    session.readChats (service.chatIds.take session.input.chatLimit) >>= _) _
  rw [List.take_of_length_le hfits.chats, saveIf, if_neg (by simpa using hfits.chats)]
  refine .bind (Q := fun _ => service.Room _ (service.Collects [])) (.pure fun _ hroom => hroom) fun _ => ?_
  refine .bind (hchats ▸ succeeds_readChats h hfits fun _ hchat => hchat) fun _ => ?_
  refine .bind (succeeds_check h) fun _ => ?_
  refine .bind (hinventory _ fun _ _ hcollects => ⟨hcollects.reasons, hcollects.chats⟩) fun confirmed => .of_and ?_
  rintro rfl
  refine .bind (succeeds_ask h.related) fun relatedConfirmation => .of_and ?_
  rintro ⟨confirmedAt, hconfirmed, rfl⟩
  refine .bind (succeeds_save (Q := service.Collects service.chatIds)
    fun _ hcollects => ⟨hcollects.reasons, hcollects.chats⟩) fun _ => ?_
  refine .bind (succeeds_relatedIds h hfits hconfirmed) fun confirmedIds => .of_and ?_
  rintro rfl
  rw [saveIf, if_neg (by simp)]
  refine .bind (Q := fun _ => service.Room 0 (service.Collects service.chatIds)) (.pure fun _ hroom => hroom)
    fun _ => succeeds_save fun _ hcollects => ⟨⟨hcollects.reasons, hcollects.chats⟩, hcollects.complete⟩

end Service

/-! ## The collection as a whole -/

section Start

variable (rt : HistoryRuntime) (transport : Transport σ) (input : HistoryInput) (source : σ)

/-- What the collection knows once it has read the clock. -/
def startSession : Session σ where
  rt
  transport
  input
  startedAt := (transport.now (transport.dateNow source).2).1
  deadline := (transport.dateNow source).1 + input.timeLimit

/-- The source after the first two readings of the clock. -/
def startSource : σ := (transport.now (transport.dateNow source).2).2

end Start

/-- A source that serves fixed messages within the limits is read completely, each message of each chat once; and
whatever a source answers, a complete history has as many different messages of each chat as its counts said. -/
theorem collectCrmChatHistory_exact (rt : HistoryRuntime) (transport : Transport σ) (input : HistoryInput)
    (source : σ) :
    (∀ service : Service σ, input.scopeInvalid = false → service.serving (startSource transport source) →
      service.Serves (startSession rt transport input source) →
      service.Fits (startSession rt transport input source) →
      ∃ history source', collectCrmChatHistory rt transport input source = (.ok history, source') ∧
        history.readComplete = true ∧ List.Forall₂ service.IsServed service.chatIds history.chats) ∧
    ∀ history source', collectCrmChatHistory rt transport input source = (.ok history, source') →
      history.readComplete = true → ∀ chat ∈ history.chats, chat.readComplete = true ∧ Session.IsExact chat := by
  refine ⟨fun service hscope hserving hserves hfits => ?_, fun history source' h hcomplete =>
    (isProof_collectCrmChatHistory h).proof hcomplete⟩
  have hstart : service.Room (service.archiveBytes (startSession rt transport input source)) (service.Collects [])
      ⟨startSource transport source, 0, Session.emptyHistory input (transport.now (transport.dateNow source).2).1⟩ :=
    ⟨hserving, by rw [Nat.zero_add]; exact hfits.archive, rfl, .nil⟩
  have hrun := Service.succeeds_collectAll hserves hfits _ hstart
  rcases hresult : (startSession rt transport input source).collectAll ⟨startSource transport source, 0,
    Session.emptyHistory input (transport.now (transport.dateNow source).2).1⟩ with ⟨e | u, world⟩
  · rw [hresult] at hrun
    exact hrun.elim
  · rw [hresult] at hrun
    obtain ⟨hcollects, hcomplete⟩ := hrun.output
    refine ⟨{ world.output with finishedAt := (transport.now world.source).1 }, (transport.now world.source).2, ?_,
      hcomplete, hcollects.chats⟩
    unfold collectCrmChatHistory
    rw [hscope]
    dsimp only [startSession, startSource] at hresult ⊢
    rw [hresult]
    rfl

/-! ## Sample -/

/-- One chat with one message, among no talks. -/
def sampleService : Service Unit where
  talkPage _ := ⟨204, .null⟩
  talkPages := 1
  talks := []
  related := ⟨200, .obj [(js "_embedded", .obj [(js "chats", .arr [.obj [(js "chat_id", .str (js "c"))]])])]⟩
  relatedIds := [js "c"]
  messages _ := [.obj [(js "id", .str (js "m"))]]
  talk _ := ⟨204, .null⟩
  serving _ := True
  stamp s := s = js "2026-09-22T16:05:00.000Z"
  cost _ _ := 247

def sampleRuntime : HistoryRuntime where
  dateParse _ := some 1790093100000
  valueBytes
    | .null => 4
    | .obj _ => 41
    | _ => 12
  recordBytes _ _ := 247
  digest _ := some (js "5378e6287777074bbb3d20edb87b1a35196da4a8f10e8d8175ab2affe8209b27")
  textsDigest _ := []
  sourceHash _ := none
  parseUrl _ := none

def sampleTransport : Transport Unit where
  listTalks _ _ _ := (.ok ((sampleService.talkPage 1).captured (js "2026-09-22T16:05:00.000Z")), ())
  listRelatedChats _ := (.ok (sampleService.related.captured (js "2026-09-22T16:05:00.000Z")), ())
  readMessages chatId offset _ _ :=
    (.ok ((sampleService.page chatId offset).captured (js "2026-09-22T16:05:00.000Z")), ())
  readCount _ _ := (.ok (some 1), ())
  readTalk talkId _ := (.ok ((sampleService.talk talkId).captured (js "2026-09-22T16:05:00.000Z")), ())
  dateNow _ := (1790093100000, ())
  now _ := (js "2026-09-22T16:05:00.000Z", ())

def sampleInput : HistoryInput := ⟨js "connection", js "42", js "123", none, none, none, none⟩

theorem chatIds_sample : sampleService.chatIds = [js "c"] := by
  have hids : JsMap.distinct (sampleService.talks.map (fun talk => talk.2.chatId) ++ sampleService.relatedIds) =
      [js "c"] := by decide
  rw [Service.chatIds, Session.chatIds, hids, Session.sortTexts, List.mergeSort_singleton]

theorem serves_sample :
    sampleService.Serves (startSession sampleRuntime sampleTransport sampleInput ()) where
  talkPage _ _ _ _ _ := ⟨_, (), rfl, rfl, trivial⟩
  related _ _ := ⟨_, (), rfl, rfl, trivial⟩
  page _ _ _ _ _ := ⟨_, (), rfl, rfl, trivial⟩
  count _ _ _ _ := ⟨(), rfl, trivial⟩
  talk _ _ _ _ _ _ := ⟨_, (), rfl, rfl, trivial⟩
  dateNow _ _ := ⟨show (1790093100000 : ℤ) < 1790093220000 by decide, trivial⟩
  now _ _ := ⟨rfl, trivial⟩
  dated _ _ := rfl

theorem fits_sample : sampleService.Fits (startSession sampleRuntime sampleTransport sampleInput ()) where
  inventory := .absent rfl
  talkPages := by decide
  related := by
    rw [if_neg (by decide)]
    exact ⟨[js "c"], rfl, by rw [Session.sortTexts, List.mergeSort_singleton]; rfl⟩
  chats := by rw [chatIds_sample]; decide
  valid _ _ value hvalue := by
    rw [List.mem_singleton.1 hvalue]
    decide
  distinct _ _ := List.nodup_singleton _
  pages _ _ := show 1 / 50 + 1 ≤ sampleInput.pageLimit by decide
  dialogs _ _ := show 0 ≤ 100 by decide
  digest _ _ := nofun
  talkSizes _ _ _ := show 4 ≤ Session.captureLimit by decide
  relatedSize := by decide
  pageSizes _ _ _ := show 12 ≤ Session.captureLimit by decide
  dialogSizes _ _ _ _ := show 4 ≤ Session.captureLimit by decide
  records _ _ _ _ _ _ _ _ _ _ := le_rfl
  archive := by
    rw [Service.archiveBytes, chatIds_sample]
    decide

theorem collectCrmChatHistory_exact_sample :
    ∃ history source', collectCrmChatHistory sampleRuntime sampleTransport sampleInput () = (.ok history, source') ∧
      history.readComplete = true ∧
      List.Forall₂ sampleService.IsServed sampleService.chatIds history.chats :=
  (collectCrmChatHistory_exact sampleRuntime sampleTransport sampleInput ()).1 sampleService (by decide) trivial
    serves_sample fits_sample

end AmoAnalytics.CrmControl.Chat
