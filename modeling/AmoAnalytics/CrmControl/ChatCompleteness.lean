import AmoAnalytics.CrmControl.ChatHistory

/-!
# A complete history has every message that was counted

Whatever the source answers, a chat is complete only with as many different messages as both counts said.
-/

namespace AmoAnalytics.CrmControl.Chat

open JsText Effect

variable {σ ω ω' α : Type}

/-! ## Runs that collect nothing -/

/-- A condition on what is collected. -/
abbrev Holds (P : ω → Prop) (world : World σ ω) : Prop := P world.output

/-- What holds of the output keeps holding. -/
def Quiet (run : Collect σ ω α) : Prop := ∀ P : ω → Prop, Triple (Holds P) run (fun _ => Holds P) fun _ => Holds P

namespace Quiet

theorem ask (request : σ → Except Fault α × σ) : Quiet (Chat.ask request : Collect σ ω α) := by
  intro P world hworld
  rcases hanswer : request world.source with ⟨e | a, s⟩
  · rw [Chat.ask, hanswer]
    exact hworld
  · rw [Chat.ask, hanswer]
    exact hworld

theorem reading (clock : σ → α × σ) : Quiet (Chat.reading clock : Collect σ ω α) := .ask _

theorem pure (a : α) : Quiet (Pure.pure a : Collect σ ω α) := fun _ => .pure fun _ h => h

theorem ofExcept (x : Except Fault α) : Quiet (Effect.ofExcept x : Collect σ ω α) :=
  fun _ => .ofExcept (fun _ _ h _ => h) fun _ _ h _ => h

theorem refuseIf (condition : Bool) (code : String) : Quiet (Chat.refuseIf condition code : Collect σ ω Unit) :=
  fun _ => .failIf (fun _ h _ => h) fun _ h _ => h

theorem bind {β : Type} {x : Collect σ ω α} {f : α → Collect σ ω β} (hx : Quiet x) (hf : ∀ a, Quiet (f a)) :
    Quiet (x >>= f) := fun P => .bind (hx P) fun a => hf a P

theorem triple {run : Collect σ ω α} (h : Quiet run) {P E : ω → Prop} (hE : ∀ output, P output → E output) :
    Triple (Holds P) run (fun _ => Holds P) fun _ => Holds E :=
  (h P).conseq (fun _ h => h) (fun _ _ h => h) fun _ _ h => hE _ h

end Quiet

namespace Session

variable (session : Session σ)

theorem quiet_check : Quiet (session.check : Collect σ ω Unit) :=
  .bind (.reading _) fun _ => .refuseIf _ _

theorem quiet_spend (bytes : ℕ) : Quiet (spend bytes : Collect σ ω Unit) :=
  .bind (fun _ => .modify fun _ h => h) fun _ => .bind (fun _ => .gets fun _ h => h) fun _ => .refuseIf _ _

theorem quiet_validCapture (capture : JsonCapture) : Quiet (session.validCapture capture : Collect σ ω JsonCapture) :=
  .bind (.refuseIf _ _) fun _ => .bind (quiet_spend _) fun _ => .pure _

theorem quiet_relatedIds (capture : JsonCapture) :
    Quiet (session.relatedIds capture : Collect σ ω (List JsString)) := by
  refine .bind (session.quiet_validCapture capture) fun capture => ?_
  split_ifs
  · exact .pure _
  · exact .bind (.ofExcept _) fun _ => .pure _

/-! ## The messages seen -/

/-- Every message stands once, under its id. -/
def IsSeen (seen : Seen) : Prop :=
  (seen.map Prod.fst).Nodup ∧ ∀ entry ∈ seen, id (entry.2.value.get "id") = some entry.1

theorem IsSeen.add {chatId capturedAt : JsString} {seen seen' : Seen} {value : JsValue} (h : IsSeen seen)
    (hadd : addMessage chatId capturedAt seen value = .ok seen') : IsSeen seen' := by
  unfold addMessage at hadd
  split at hadd
  · cases hadd
  · rename_i messageId hid
    split_ifs at hadd with hmem
    obtain rfl := Except.ok.inj hadd
    constructor
    · rw [List.map_append, List.nodup_append]
      refine ⟨h.1, List.nodup_singleton _, fun key hkey key' hkey' heq => hmem ?_⟩
      obtain rfl := List.mem_singleton.1 hkey'
      exact heq ▸ hkey
    · intro entry hentry
      rcases List.mem_append.1 hentry with hentry | hentry
      · exact h.2 entry hentry
      · rw [List.mem_singleton.1 hentry]
        exact hid

theorem IsSeen.addAll {chatId capturedAt : JsString} {values : List JsValue} {seen seen' : Seen} (h : IsSeen seen)
    (hadd : values.foldlM (addMessage chatId capturedAt) seen = .ok seen') : IsSeen seen' := by
  induction values generalizing seen with
  | nil =>
    obtain rfl := Except.ok.inj hadd
    exact h
  | cons value values ih =>
    rw [List.foldlM_cons] at hadd
    rcases hvalue : addMessage chatId capturedAt seen value with e | next
    · rw [hvalue] at hadd
      cases hadd
    · rw [hvalue] at hadd
      exact ih (h.add hvalue) hadd

theorem readPages_seen {P E : ω → Prop} (hE : ∀ output, P output → E output) (chatId : JsString) (pages offset : ℕ)
    (first : Option JsString) {seen : Seen} (h : IsSeen seen) :
    Triple (Holds P) (session.readPages chatId pages offset first seen)
      (fun result world => Holds P world ∧ IsSeen result.1) fun _ => Holds E := by
  induction pages generalizing offset first seen with
  | zero => exact Triple.fail fun _ hworld => hE _ hworld
  | succ pages ih =>
    rw [readPages]
    refine .bind (session.quiet_check.triple hE) fun _ => ?_
    refine .bind ((Quiet.ask _).triple hE) fun capture => ?_
    refine .bind ((session.quiet_validCapture capture).triple hE) fun capture => ?_
    refine .bind ((Quiet.ofExcept _).triple hE) fun values => ?_
    refine .bind ((Quiet.ofExcept _).triple hE) fun firstHash => ?_
    refine .bind (Q := fun seen world => Holds P world ∧ IsSeen seen) ?_ fun seen => .of_and fun hseen => ?_
    · exact .ofExcept (fun world seen hworld hseen => ⟨hworld, h.addAll hseen⟩) fun world _ hworld _ => hE _ hworld
    split_ifs
    · exact .pure fun world hworld => ⟨hworld, hseen⟩
    · exact ih _ _ hseen

/-! ## A chat -/

/-- As many different messages as both counts said. -/
structure IsExact (chat : ChatRecord) : Prop where
  before : chat.totalBefore = some (some (chat.messages.length : ℤ))
  after : chat.totalAfter = some (some (chat.messages.length : ℤ))
  valid : ∀ message ∈ chat.messages, id (message.capture.value.get "id") ≠ none
  distinct : (chat.messages.map fun message => id (message.capture.value.get "id")).Nodup

/-- The record of a chat whose messages are being pushed. -/
structure IsDraft (total : ℤ) (captures : List MessageCapture) (chat : ChatRecord) : Prop where
  incomplete : chat.readComplete = false
  before : chat.totalBefore = some (some total)
  after : chat.totalAfter = some (some total)
  messages : chat.messages.map (·.capture) = captures

theorem IsDraft.isExact {seen : Seen} {chat : ChatRecord}
    (h : IsDraft seen.length (seen.map Prod.snd) chat) (hseen : IsSeen seen) : IsExact chat := by
  have hlength : chat.messages.length = seen.length := by
    rw [← List.length_map (f := HistoryMessage.capture), h.messages, List.length_map]
  have hids : (chat.messages.map fun message => id (message.capture.value.get "id")) =
      (seen.map Prod.fst).map some := by
    have hcaptures : (chat.messages.map fun message => id (message.capture.value.get "id")) =
        (chat.messages.map (·.capture)).map fun capture => id (capture.value.get "id") := by
      rw [List.map_map]
      rfl
    rw [hcaptures, h.messages, List.map_map, List.map_map]
    exact List.map_congr_left fun entry hentry => hseen.2 entry hentry
  refine ⟨by rw [h.before, hlength], by rw [h.after, hlength], fun message hmessage hnone => ?_, ?_⟩
  · have hmem : (none : Option JsString) ∈ (seen.map Prod.fst).map some := by
      rw [← hids]
      exact List.mem_map.2 ⟨message, hmessage, hnone⟩
    obtain ⟨_, -, h⟩ := List.mem_map.1 hmem
    cases h
  · rw [hids]
    exact hseen.1.map (Option.some_injective _)

/-- Reading the talks changes nothing but their captures. -/
theorem each_pushTalk {P : ChatRecord → Prop} (push : TalkCapture → ChatRecord → ChatRecord)
    (hpush : ∀ talk chat, P chat → P (push talk chat)) {E : ChatRecord → Prop} (hE : ∀ chat, P chat → E chat)
    (talkIds : List JsString) :
    Triple (Holds P) (Effect.each (session.pushTalk push) talkIds) (fun _ => Holds P) fun _ => Holds E := by
  refine .each (I := fun _ => Holds P) fun done talkId rest _ => ?_
  refine .bind (session.quiet_check.triple hE) fun _ => ?_
  refine .bind ((Quiet.ask _).triple hE) fun capture => ?_
  refine .bind ((session.quiet_validCapture capture).triple hE) fun capture => ?_
  exact .modify fun world hworld => hpush _ _ hworld

theorem each_pushMessage (chatId finishedAt : JsString) (total : ℤ) (captures : List MessageCapture) :
    Triple (Holds (IsDraft total [])) (Effect.each (session.pushMessage chatId finishedAt) captures)
      (fun _ => Holds (IsDraft total captures)) fun _ => Holds (·.readComplete = false) := by
  refine .each (I := fun done => Holds (IsDraft total done)) fun done capture rest _ => ?_
  have hE : ∀ chat, IsDraft total done chat → chat.readComplete = false := fun _ h => h.incomplete
  refine .bind (Q := fun _ => Holds (IsDraft total done)) (.gets fun _ h => h) fun chat => ?_
  refine .bind ((quiet_spend _).triple hE) fun _ => ?_
  refine .modify fun world h => ⟨h.incomplete, h.before, h.after, ?_⟩
  rw [List.map_append, h.messages]
  rfl

theorem refuseIf_holds {P E : ω → Prop} (hE : ∀ output, P output → E output) (condition : Bool) (code : String) :
    Triple (Holds P) (refuseIf condition code : Collect σ ω Unit) (fun _ world => Holds P world ∧ condition = false)
      fun _ => Holds E :=
  .failIf (fun _ h _ => hE _ h) fun _ h hfalse => ⟨h, hfalse⟩

/-- A chat that is read to its end is exact; a fault leaves it incomplete. -/
theorem readChat_exact (chatId : JsString) :
    Triple (Holds (· = emptyChat chatId)) (session.readChat chatId) (fun _ => Holds IsExact)
      fun _ => Holds (·.readComplete = false) := by
  have hempty : ∀ chat, chat = emptyChat chatId → chat.readComplete = false := fun _ h => h ▸ rfl
  rw [readChat]
  refine .bind (session.quiet_check.triple hempty) fun _ => ?_
  refine .bind ((Quiet.ask _).triple hempty) fun totalBefore => ?_
  have hbefore : ∀ chat, chat = { emptyChat chatId with totalBefore := some totalBefore } →
      chat.readComplete = false := fun _ h => h ▸ rfl
  refine .bind (Q := fun _ => Holds (· = { emptyChat chatId with totalBefore := some totalBefore }))
    (.modify fun world h => by rw [Holds, h]) fun _ => ?_
  refine .bind ((Quiet.refuseIf _ _).triple hbefore) fun _ => ?_
  refine .bind (session.readPages_seen hbefore chatId _ _ _ ⟨.nil, nofun⟩) fun ⟨seen, firstHash⟩ =>
    .of_and fun hseen => ?_
  refine .bind (session.quiet_check.triple hbefore) fun _ => ?_
  refine .bind ((Quiet.ask _).triple hbefore) fun totalAfter => ?_
  have hafter : ∀ chat, chat =
      { emptyChat chatId with totalBefore := some totalBefore, totalAfter := some totalAfter } →
      chat.readComplete = false := fun _ h => h ▸ rfl
  refine .bind (Q := fun _ => Holds (· =
      { emptyChat chatId with totalBefore := some totalBefore, totalAfter := some totalAfter }))
    (.modify fun world h => by rw [Holds, h]) fun _ => ?_
  refine .bind (refuseIf_holds hafter _ _) fun _ => .of_and fun hcounts => ?_
  simp only [Bool.or_eq_false_iff, decide_eq_false_iff_not, not_not] at hcounts
  obtain ⟨rfl, rfl⟩ := hcounts
  have hdraft : ∀ chat, IsDraft seen.length [] chat → chat.readComplete = false := fun _ h => h.incomplete
  refine Triple.conseq (P := Holds (IsDraft seen.length [])) ?_ (fun world h => ?_) (fun _ _ h => h) fun _ _ h => h
  rotate_left
  · rw [Holds, show world.output = _ from h]
    exact ⟨rfl, rfl, rfl, rfl⟩
  refine .bind ((Quiet.ask _).triple hdraft) fun capture => ?_
  refine .bind ((session.quiet_validCapture capture).triple hdraft) fun repeated => ?_
  refine .bind ((Quiet.refuseIf _ _).triple hdraft) fun _ => ?_
  refine .bind ((Quiet.ofExcept _).triple hdraft) fun repeatedHash => ?_
  refine .bind ((Quiet.refuseIf _ _).triple hdraft) fun _ => ?_
  refine .bind ((Quiet.refuseIf _ _).triple hdraft) fun _ => ?_
  refine .bind (session.each_pushTalk _ (fun _ _ h => ⟨h.incomplete, h.before, h.after, h.messages⟩) hdraft _)
    fun _ => ?_
  refine .bind (session.each_pushTalk _ (fun _ _ h => ⟨h.incomplete, h.before, h.after, h.messages⟩) hdraft _)
    fun _ => ?_
  refine .bind ((Quiet.reading _).triple hdraft) fun finishedAt => ?_
  refine .bind (session.each_pushMessage chatId finishedAt _ _) fun _ => ?_
  exact .modify fun world h =>
    ⟨(h.isExact hseen).before, (h.isExact hseen).after, (h.isExact hseen).valid, (h.isExact hseen).distinct⟩

/-! ## The collection -/

/-- A run of its own leaves the output, and ends as its own conditions say. -/
theorem triple_within {start : ω'} {run : Collect σ ω' Unit} {Q E : ω' → Prop}
    (h : Triple (Holds (· = start)) run (fun _ => Holds Q) fun _ => Holds E) (P F : ω → Prop) :
    Triple (Holds P) (within start run)
      (fun result world => Holds P world ∧ match result.1 with
        | .ok _ => Q result.2
        | .error _ => E result.2) fun _ => Holds F := by
  intro world hworld
  have hrun := h ⟨world.source, world.capturedBytes, start⟩ rfl
  refine ⟨hworld, ?_⟩
  revert hrun
  rcases run ⟨world.source, world.capturedBytes, start⟩ with ⟨e | a, t⟩
  · exact fun hrun => hrun
  · exact fun hrun => hrun

/-- A history that is not yet complete, whose complete chats are exact. -/
structure IsOpen (history : CrmChatHistory) : Prop where
  incomplete : history.readComplete = false
  exact : ∀ chat ∈ history.chats, chat.readComplete = true → IsExact chat

theorem IsOpen.pushReason {history : CrmChatHistory} (h : IsOpen history) (code : JsString) :
    IsOpen (pushReason code history) := ⟨h.incomplete, h.exact⟩

theorem IsOpen.pushChat {history : CrmChatHistory} (h : IsOpen history) {chat : ChatRecord}
    (hchat : chat.readComplete = true → IsExact chat) : IsOpen { history with chats := history.chats ++ [chat] } := by
  refine ⟨h.incomplete, fun other hother => ?_⟩
  rcases List.mem_append.1 hother with hother | hother
  · exact h.exact other hother
  · exact List.mem_singleton.1 hother ▸ hchat

theorem closeChat_exact {result : Except Fault Unit} {chat : ChatRecord}
    (h : match result with
      | .ok _ => IsExact chat
      | .error _ => chat.readComplete = false) (hcomplete : (closeChat result chat).readComplete = true) :
    IsExact (closeChat result chat) := by
  cases result with
  | ok _ => exact h
  | error e =>
    have hfalse : (closeChat (.error e) chat).readComplete = false := h
    rw [hfalse] at hcomplete
    cases hcomplete

theorem triple_saveIf {P E : ω → Prop} {f : ω → ω} (hf : ∀ output, P output → P (f output)) (condition : Bool) :
    Triple (Holds P) (saveIf condition f : Collect σ ω Unit) (fun _ => Holds P) fun _ => Holds E := by
  cases condition with
  | false => exact .pure fun _ h => h
  | true => exact .modify fun _ h => hf _ h

theorem readChats_open (chatIds : List JsString) :
    Triple (Holds IsOpen) (session.readChats chatIds) (fun _ => Holds IsOpen) fun _ => Holds IsOpen := by
  induction chatIds with
  | nil => exact .pure fun _ h => h
  | cons chatId rest ih =>
    rw [readChats]
    refine .bind (triple_within (session.readChat_exact chatId) _ _) fun ⟨result, chat⟩ => .of_and fun hchat => ?_
    refine .bind (Q := fun _ => Holds IsOpen) (.failIf (fun _ h _ => h) fun _ h _ => h) fun _ => ?_
    refine .bind (Q := fun _ => Holds IsOpen)
      (.modify fun world h => h.pushChat (closeChat_exact hchat)) fun _ => ?_
    split_ifs
    · exact .modify fun world h => h.pushReason _
    · exact ih

theorem inventory_holds {P E : ω → Prop} (push : JsonCapture → ω → ω)
    (hpush : ∀ capture output, P output → P (push capture output)) (hE : ∀ output, P output → E output)
    (pages page : ℕ) (talks : Talks) :
    Triple (Holds P) (session.inventory push pages page talks) (fun _ => Holds P) fun _ => Holds E := by
  induction pages generalizing page talks with
  | zero => exact .fail fun _ h => hE _ h
  | succ pages ih =>
    rw [inventory]
    refine .bind (session.quiet_check.triple hE) fun _ => ?_
    refine .bind ((Quiet.ask _).triple hE) fun capture => ?_
    refine .bind ((session.quiet_validCapture capture).triple hE) fun capture => ?_
    refine .bind (Q := fun _ => Holds P) (.modify fun _ h => hpush _ _ h) fun _ => ?_
    split_ifs
    · exact .pure fun _ h => h
    · refine .bind ((Quiet.ofExcept _).triple hE) fun ⟨talks, more⟩ => ?_
      cases more with
      | true => exact ih _ _
      | false => exact .pure fun _ h => h

/-- A complete history is one of complete and exact chats. -/
structure IsProof (history : CrmChatHistory) : Prop where
  proof : history.readComplete = true → ∀ chat ∈ history.chats, chat.readComplete = true ∧ IsExact chat

theorem IsOpen.isProof {history : CrmChatHistory} (h : IsOpen history) : IsProof history :=
  ⟨fun hcomplete => absurd (h.incomplete.symm.trans hcomplete) Bool.false_ne_true⟩

theorem IsOpen.conclude {history : CrmChatHistory} (h : IsOpen history) : IsProof (conclude history) := by
  refine ⟨fun hcomplete chat hchat => ?_⟩
  have hall : (history.reasonCodes.isEmpty && history.chats.all (·.readComplete)) = true := hcomplete
  rw [Bool.and_eq_true, List.all_eq_true] at hall
  exact ⟨hall.2 chat hchat, h.exact chat hchat (hall.2 chat hchat)⟩

theorem collectAll_proof :
    Triple (Holds IsOpen) session.collectAll (fun _ => Holds IsProof) fun _ => Holds IsOpen := by
  have hopen : ∀ history, IsOpen history → IsOpen history := fun _ h => h
  rw [collectAll]
  refine .bind (session.inventory_holds _ (fun _ _ h => ⟨h.incomplete, h.exact⟩) hopen _ _ _) fun initial => ?_
  refine .bind ((Quiet.ask _).triple hopen) fun relatedInitial => ?_
  refine .bind (Q := fun _ => Holds IsOpen) (.modify fun _ h => ⟨h.incomplete, h.exact⟩) fun _ => ?_
  refine .bind ((session.quiet_relatedIds _).triple hopen) fun related => ?_
  refine .bind (triple_saveIf (fun _ h => h.pushReason _) _) fun _ => ?_
  refine .bind (session.readChats_open _) fun _ => ?_
  refine .bind (session.quiet_check.triple hopen) fun _ => ?_
  refine .bind (session.inventory_holds _ (fun _ _ h => ⟨h.incomplete, h.exact⟩) hopen _ _ _) fun confirmed => ?_
  refine .bind ((Quiet.ask _).triple hopen) fun relatedConfirmation => ?_
  refine .bind (Q := fun _ => Holds IsOpen) (.modify fun _ h => ⟨h.incomplete, h.exact⟩) fun _ => ?_
  refine .bind ((session.quiet_relatedIds _).triple hopen) fun confirmedIds => ?_
  refine .bind (triple_saveIf (fun _ h => h.pushReason _) _) fun _ => ?_
  exact .modify fun _ h => h.conclude

end Session

/-- Whatever the source answers, a complete history has as many different messages of each chat as both its counts
said. -/
theorem isProof_collectCrmChatHistory {rt : HistoryRuntime} {transport : Transport σ} {input : HistoryInput}
    {source source' : σ} {history : CrmChatHistory}
    (h : collectCrmChatHistory rt transport input source = (.ok history, source')) : Session.IsProof history := by
  unfold collectCrmChatHistory at h
  split_ifs at h with hscope
  · cases h
  dsimp only at h
  generalize hstart : Session.emptyHistory input _ = start at h
  have hopen : Session.IsOpen start := hstart ▸ ⟨rfl, nofun⟩
  generalize hsession : (Session.mk rt transport input _ _ : Session σ) = session at h
  have htriple := session.collectAll_proof ⟨((transport.now (transport.dateNow source).2).2), 0, start⟩ hopen
  rcases hrun : session.collectAll ⟨((transport.now (transport.dateNow source).2).2), 0, start⟩ with ⟨e | u, world⟩
  · rw [hrun] at h htriple
    cases e with
    | authExpired => cases h
    | error message =>
      obtain rfl := Except.ok.inj (Prod.mk.inj h).1
      have hopen' : Session.IsOpen (Session.pushReason (Session.codeOf (.error message)) world.output) :=
        Session.IsOpen.pushReason htriple _
      exact ⟨hopen'.isProof.proof⟩
  · rw [hrun] at h htriple
    obtain rfl := Except.ok.inj (Prod.mk.inj h).1
    have hproof : Session.IsProof world.output := htriple
    exact ⟨hproof.proof⟩

end AmoAnalytics.CrmControl.Chat
