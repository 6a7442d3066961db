import AmoAnalytics.Common.WeekdayTime
import AmoAnalytics.Lib.Run
import AmoAnalytics.Platform.LeadReminder

/-!
# Alerts about stale stages

A deal that stays too long in the stage of a sent invoice, of a presented proposal or of a prepared one is reported to
the leaders. The key of such an alert names the deal and the stage, not the stay: the first stay over the limit is
reported once, and another stay in the same stage never.
-/

namespace AmoAnalytics.Platform.CrmEvents

open Common CountedTime JsText Regex
open Reports.ForecastFeatures (trimmed)

/-! ## `crm-event-notifications.service.ts` -/

/-- `normalizeText`; `toLowerCase` is that of a string. -/
def normalizeText (toLowerCase : JsString → JsString) (value : JsString) : JsString :=
  replaceAll (lit "ё") (js "е") (toLowerCase (trimmed value))

/-- `normalized.includes(this.normalizeText(part))`. -/
def names (toLowerCase : JsString → JsString) (name : JsString) (part : String) : Bool :=
  includes (normalizeText toLowerCase name) (normalizeText toLowerCase (js part))

def isInvoiceSentStage (toLowerCase : JsString → JsString) (name : JsString) : Bool :=
  (names toLowerCase name "счет" || names toLowerCase name "счёт") &&
    (names toLowerCase name "отправ" || names toLowerCase name "выстав")

def isProposalOrObjectionStage (toLowerCase : JsString → JsString) (name : JsString) : Bool :=
  names toLowerCase name "кп" && (names toLowerCase name "отправ" || names toLowerCase name "презент") ||
    names toLowerCase name "возраж"

def isPreparedProposalStage (toLowerCase : JsString → JsString) (name : JsString) : Bool :=
  names toLowerCase name "кп" && names toLowerCase name "подготов"

structure StageLimits where
  invoiceNoPaymentDays : ℤ
  proposalStaleHours : ℤ
  preparedProposalDays : ℤ

/-- The three alerts, in the order of the scan. -/
inductive StageAlert
  | invoiceNoPayment
  | preparedProposal
  | proposal
deriving DecidableEq

/-- The stages that an alert watches. -/
def StageAlert.watches (toLowerCase : JsString → JsString) : StageAlert → JsString → Bool
  | .invoiceNoPayment => isInvoiceSentStage toLowerCase
  | .preparedProposal => isPreparedProposalStage toLowerCase
  | .proposal => isProposalOrObjectionStage toLowerCase

def StageAlert.eventType : StageAlert → EventType
  | .invoiceNoPayment => .amo_invoice_no_payment_3d
  | .preparedProposal => .amo_proposal_prepared_stale_2bd
  | .proposal => .amo_proposal_stale_24h

/-- The key of an alert. -/
def StageAlert.event (dealId stageId : String) : StageAlert → CrmEvent
  | .invoiceNoPayment => .invoiceNoPayment3d dealId stageId
  | .preparedProposal => .proposalPreparedStale2bd dealId stageId
  | .proposal => .proposalStale24h dealId stageId

def StageAlert.limit (limits : StageLimits) : StageAlert → ℤ
  | .invoiceNoPayment => limits.invoiceNoPaymentDays * 24 * 60 * 60_000
  | .preparedProposal => limits.preparedProposalDays * 24 * 60 * 60_000
  | .proposal => limits.proposalStaleHours * 60 * 60_000

/-- The common body: `elapsed` is the time on weekdays since the deal has entered its stage. -/
def notifyStale (alert : StageAlert) (env : Surroundings) (db : List Delivery) (leaders : List AppUser)
    (limits : StageLimits) (deal : NotificationDeal) (elapsed : ℤ) : Option (List Delivery × List DeliveryStatus) :=
  if leaders.isEmpty then some (db, [])
  else if elapsed < alert.limit limits then some (db, [])
  else sendNotification env db leaders alert.eventType { dealId := some deal.id } (alert.event deal.id deal.stageId)

def notifyInvoiceNoPayment := notifyStale .invoiceNoPayment

def notifyPreparedProposalStale := notifyStale .preparedProposal

def notifyProposalStale := notifyStale .proposal

/-! ## Histories -/

/-- The scan of a deal, with the time on weekdays since its entry into the stage. -/
structure StagePoll (offset : ℤ → ℤ) where
  env : Surroundings
  limits : StageLimits
  deal : NotificationDeal
  stageName : JsString
  now : ℤ
  elapsed : ℤ
  measured : Yields (moscowWeekdayElapsedMs offset (currentStageEnteredAt deal) now) elapsed

/-- An uninterrupted stay of a deal in a stage. -/
structure Stay where
  dealId : String
  stageId : String
  enteredAt : ℤ
deriving DecidableEq

/-- The deliveries, and the stays for which a scan has sent an alert. No statement reads the latter. -/
structure StageDb where
  deliveries : List Delivery := []
  alerts : List (StageAlert × Stay) := []

variable {offset : ℤ → ℤ}

namespace StagePoll

def leaders (poll : StagePoll offset) : List AppUser := teamLeaderUsers poll.env.users .sales

def stay (poll : StagePoll offset) : Stay := ⟨poll.deal.id, poll.deal.stageId, currentStageEnteredAt poll.deal⟩

/-- The key of an alert about the deal. -/
def event (poll : StagePoll offset) (alert : StageAlert) : CrmEvent := alert.event poll.deal.id poll.deal.stageId

/-- The messages of an alert about the deal. -/
def messages (poll : StagePoll offset) (alert : StageAlert) : List (DeliveryKey × DeliveryStatus) :=
  targets poll.env poll.leaders alert.eventType { dealId := some poll.deal.id } (poll.event alert)

/-- There is somebody to tell, and Telegram takes every message. -/
structure Succeeds (poll : StagePoll offset) : Prop where
  botToken : poll.env.botToken = true
  leaders : poll.leaders ≠ []
  reached : ∀ alert, poll.messages alert ≠ []
  sent : ∀ alert, ∀ message ∈ poll.messages alert, message.2 = .sent

end StagePoll

/-- Some message was sent between two states of the table. -/
def sentBetween (db db' : List Delivery) : Bool := (db'.drop db.length).any (·.status = .sent)

section Scans

variable (toLowerCase : JsString → JsString)

/-- The stay is in a stage that the alert watches, and over the limit. -/
def stale (alert : StageAlert) (poll : StagePoll offset) : Bool :=
  alert.watches toLowerCase poll.stageName && alert.limit poll.limits ≤ poll.elapsed

/-- One alert of the scan of a deal. -/
def alertStep (db : StageDb) (check : StageAlert × StagePoll offset) : Option StageDb :=
  let poll := check.2
  if check.1.watches toLowerCase poll.stageName then
    (notifyStale check.1 poll.env db.deliveries poll.leaders poll.limits poll.deal poll.elapsed).map fun sent =>
      { deliveries := sent.1
        alerts := if sentBetween db.deliveries sent.1 then db.alerts ++ [(check.1, poll.stay)] else db.alerts }
  else some db

/-- The part of `notifyStateBasedAlerts` for the stage of a deal. -/
def scanDeal (db : StageDb) (poll : StagePoll offset) : Option StageDb :=
  (alertStep toLowerCase db (.invoiceNoPayment, poll)).bind fun db =>
    (alertStep toLowerCase db (.preparedProposal, poll)).bind fun db =>
      alertStep toLowerCase db (.proposal, poll)

/-- Every stay that a scan finds over a limit produces exactly one alert. -/
def StaysReported (polls : List (StagePoll offset)) (db : StageDb) : Prop :=
  ∀ alert, ∀ poll ∈ polls, stale toLowerCase alert poll = true → db.alerts.count (alert, poll.stay) = 1

/-- A deal is over a limit in one of its stays in a stage only. -/
def OneStaleStay (polls : List (StagePoll offset)) : Prop :=
  ∀ alert, ∀ poll ∈ polls, ∀ other ∈ polls, stale toLowerCase alert poll = true →
    stale toLowerCase alert other = true → poll.deal.id = other.deal.id → poll.deal.stageId = other.deal.stageId →
    poll.stay = other.stay

end Scans

/-- The recipients of an alert about a deal in a stage stay as they are. -/
def SameRecipients (polls : List (StagePoll offset)) : Prop :=
  ∀ alert, ∀ poll ∈ polls, ∀ other ∈ polls, poll.deal.id = other.deal.id → poll.deal.stageId = other.deal.stageId →
    ∀ message ∈ poll.messages alert, message.1 ∈ (other.messages alert).map Prod.fst

/-! ## The stay that a scan sees -/
/-! ## One alert -/

theorem stageEvent_inj {alert alert' : StageAlert} {dealId stageId dealId' stageId' : String}
    (h : alert.event dealId stageId = alert'.event dealId' stageId') :
    alert = alert' ∧ dealId = dealId' ∧ stageId = stageId' := by
  cases alert <;> cases alert' <;> cases h <;> exact ⟨rfl, rfl, rfl⟩

section Checks

variable {toLowerCase : JsString → JsString} {db db' : StageDb} {check : StageAlert × StagePoll offset}
  {checks : List (StageAlert × StagePoll offset)}

/-- The stay that an alert is about. -/
def checkedStay (check : StageAlert × StagePoll offset) : StageAlert × Stay := (check.1, check.2.stay)

/-- The key that an alert was sent under. -/
def alertEvent (alert : StageAlert × Stay) : CrmEvent := alert.1.event alert.2.dealId alert.2.stageId

/-- The check is over the limit, and its alert has the key. -/
def staleUnder (toLowerCase : JsString → JsString) (event : CrmEvent) (check : StageAlert × StagePoll offset)
    : Bool :=
  stale toLowerCase check.1 check.2 && check.2.event check.1 = event

theorem staleUnder_iff {event : CrmEvent} : staleUnder toLowerCase event check = true ↔
    stale toLowerCase check.1 check.2 = true ∧ check.2.event check.1 = event := by
  rw [staleUnder, Bool.and_eq_true, decide_eq_true_iff]

/-- What is not over the limit changes nothing. -/
theorem alertStep_fresh (h : stale toLowerCase check.1 check.2 = false) :
    alertStep toLowerCase db check = some db := by
  unfold stale at h
  unfold alertStep notifyStale
  dsimp only
  by_cases hwatched : check.1.watches toLowerCase check.2.stageName = true
  · rw [hwatched, Bool.true_and, decide_eq_false_iff_not, not_le] at h
    rw [if_pos hwatched]
    have hsame : sentBetween db.deliveries db.deliveries = false := by
      unfold sentBetween
      rw [List.drop_length]
      rfl
    split_ifs <;> simp [hsame]
  · rw [if_neg hwatched]

/-- What is over the limit is sent. -/
theorem alertStep_stale (db : StageDb) (h : stale toLowerCase check.1 check.2 = true) (hsucceeds : check.2.Succeeds) :
    ∃ added, alertStep toLowerCase db check = some
        { deliveries := db.deliveries ++ added
          alerts := if added = [] then db.alerts else db.alerts ++ [checkedStay check] } ∧
      (∀ delivery ∈ added, delivery.eventKey.event = check.2.event check.1 ∧
        delivery.eventKey ∈ (check.2.messages check.1).map Prod.fst ∧
        delivery.eventKey ∉ db.deliveries.map Delivery.eventKey) ∧
      ∀ message ∈ check.2.messages check.1, message.1 ∈ (db.deliveries ++ added).map Delivery.eventKey := by
  obtain ⟨hwatched, hover⟩ := Bool.and_eq_true _ _ ▸ h
  obtain ⟨added, hadded, hnew, hrecorded⟩ := sendTargets_spec db.deliveries (check.2.messages check.1)
  refine ⟨added, ?_, fun delivery hmem => ⟨targets_event check.2.env (hnew delivery hmem).1,
    List.mem_map.2 ⟨_, (hnew delivery hmem).1, rfl⟩, (hnew delivery hmem).2⟩, hrecorded⟩
  have hsent : sentBetween db.deliveries (db.deliveries ++ added) = decide (added ≠ []) := by
    unfold sentBetween
    rw [List.drop_left]
    cases added with
    | nil => rfl
    | cons delivery added =>
      have hstatus := hsucceeds.sent check.1 _ (hnew delivery List.mem_cons_self).1
      rw [List.any_cons, decide_eq_true hstatus, Bool.true_or]
      rfl
  unfold alertStep notifyStale
  dsimp only
  rw [if_pos hwatched, if_neg (by simp [hsucceeds.leaders]), if_neg (not_lt.2 (of_decide_eq_true hover)),
    sendNotification_eq check.2.env hsucceeds.botToken, Option.map_some]
  change some (StageDb.mk (sendTargets db.deliveries (check.2.messages check.1)).1
    (if sentBetween db.deliveries (sendTargets db.deliveries (check.2.messages check.1)).1 = true then _ else _)) = _
  rw [hadded, hsent]
  by_cases hnone : added = []
  · rw [if_pos hnone, if_neg (by simp [hnone])]
  · rw [if_neg hnone, if_pos (decide_eq_true hnone)]
    rfl

/-! ## All checks of a history -/

/-- The first check over the limit under a key is the one that is reported. -/
structure StageInv (toLowerCase : JsString → JsString) (checks : List (StageAlert × StagePoll offset))
    (db : StageDb) : Prop where
  first : ∀ event, db.alerts.filter (alertEvent · = event) =
    ((checks.find? (staleUnder toLowerCase event)).map checkedStay).toList
  known : ∀ delivery ∈ db.deliveries, ∃ check ∈ checks, staleUnder toLowerCase delivery.eventKey.event check = true
  recorded : ∀ check ∈ checks, stale toLowerCase check.1 check.2 = true →
    ∀ message ∈ check.2.messages check.1, message.1 ∈ db.deliveries.map Delivery.eventKey

/-- The recipients of alerts under one key are the same. -/
def SameMessages (checks : List (StageAlert × StagePoll offset)) : Prop :=
  ∀ check ∈ checks, ∀ other ∈ checks, check.2.event check.1 = other.2.event other.1 →
    ∀ message ∈ check.2.messages check.1, message.1 ∈ (other.2.messages other.1).map Prod.fst

/-- A check that is under the limit keeps the invariant. -/
theorem StageInv.fresh (h : StageInv toLowerCase checks db) (hfresh : stale toLowerCase check.1 check.2 = false) :
    StageInv toLowerCase (checks ++ [check]) db := by
  refine ⟨fun event => ?_, fun delivery hmem => ?_, fun other hmem hstale => ?_⟩
  · have hnot : staleUnder toLowerCase event check = false := by
      rw [staleUnder, hfresh, Bool.false_and]
    rw [h.first event, List.find?_append, List.find?_singleton, hnot, if_neg Bool.false_ne_true, Option.or_none]
  · obtain ⟨other, hother, hunder⟩ := h.known delivery hmem
    exact ⟨other, List.mem_append_left _ hother, hunder⟩
  · rcases List.mem_append.1 hmem with hearlier | hlast
    · exact h.recorded other hearlier hstale
    · rw [List.mem_singleton.1 hlast, hfresh] at hstale
      exact absurd hstale Bool.false_ne_true

/-- The first check over the limit under its key is reported. -/
theorem StageInv.report (h : StageInv toLowerCase checks db) (hstale : stale toLowerCase check.1 check.2 = true)
    (hnone : checks.find? (staleUnder toLowerCase (check.2.event check.1)) = none) {added : List Delivery}
    (hadded : ∀ delivery ∈ added, delivery.eventKey.event = check.2.event check.1)
    (hrecorded : ∀ message ∈ check.2.messages check.1, message.1 ∈ (db.deliveries ++ added).map Delivery.eventKey) :
    StageInv toLowerCase (checks ++ [check]) ⟨db.deliveries ++ added, db.alerts ++ [checkedStay check]⟩ := by
  have hunder : staleUnder toLowerCase (check.2.event check.1) check = true := staleUnder_iff.2 ⟨hstale, rfl⟩
  refine ⟨fun event => ?_, fun delivery hmem => ?_, fun other hmem hother message hmessage => ?_⟩
  · dsimp only
    rw [List.filter_append, h.first event, List.find?_append, List.find?_singleton]
    by_cases hevent : check.2.event check.1 = event
    · subst hevent
      have hown : [checkedStay check].filter (alertEvent · = check.2.event check.1) = [checkedStay check] :=
        List.filter_cons_of_pos (decide_eq_true rfl)
      rw [hnone, hunder, if_pos rfl, hown]
      rfl
    · have hnot : staleUnder toLowerCase event check = false :=
        Bool.eq_false_iff.2 fun h => hevent (staleUnder_iff.1 h).2
      have hother : [checkedStay check].filter (alertEvent · = event) = [] :=
        List.filter_cons_of_neg fun h => hevent (of_decide_eq_true h)
      rw [hnot, if_neg Bool.false_ne_true, Option.or_none, hother, List.append_nil]
  · rcases List.mem_append.1 hmem with hold | hnew
    · obtain ⟨other, hother, hotherUnder⟩ := h.known delivery hold
      exact ⟨other, List.mem_append_left _ hother, hotherUnder⟩
    · exact ⟨check, List.mem_append_right _ (List.mem_singleton_self _), by rwa [hadded delivery hnew]⟩
  · rcases List.mem_append.1 hmem with hearlier | hlast
    · rw [List.map_append]
      exact List.mem_append_left _ (h.recorded other hearlier hother message hmessage)
    · rw [List.mem_singleton.1 hlast] at hmessage
      exact hrecorded message hmessage

/-- A later check under a key finds every message recorded. -/
theorem StageInv.repeat (h : StageInv toLowerCase checks db) (hsame : SameMessages (checks ++ [check]))
    {first : StageAlert × StagePoll offset}
    (hfirst : checks.find? (staleUnder toLowerCase (check.2.event check.1)) = some first) :
    (∀ message ∈ check.2.messages check.1, message.1 ∈ db.deliveries.map Delivery.eventKey) ∧
      StageInv toLowerCase (checks ++ [check]) db := by
  have hmem := List.mem_of_find?_eq_some hfirst
  obtain ⟨hstale, hevent⟩ := staleUnder_iff.1 (List.find?_some hfirst)
  have hrecorded : ∀ message ∈ check.2.messages check.1, message.1 ∈ db.deliveries.map Delivery.eventKey := by
    intro message hmessage
    obtain ⟨other, hother, heq⟩ := List.mem_map.1 (hsame check (List.mem_append_right _ (List.mem_singleton_self _))
      first (List.mem_append_left _ hmem) hevent.symm message hmessage)
    exact heq ▸ h.recorded first hmem hstale other hother
  refine ⟨hrecorded, fun event => ?_, fun delivery hdelivery => ?_, fun other hother hotherStale => ?_⟩
  · rw [h.first event, List.find?_append]
    by_cases heq : check.2.event check.1 = event
    · rw [← heq, hfirst, Option.some_or]
    · have hnot : staleUnder toLowerCase event check = false :=
        Bool.eq_false_iff.2 fun h => heq (staleUnder_iff.1 h).2
      rw [List.find?_singleton, hnot, if_neg Bool.false_ne_true, Option.or_none]
  · obtain ⟨other, hother, hunder⟩ := h.known delivery hdelivery
    exact ⟨other, List.mem_append_left _ hother, hunder⟩
  · rcases List.mem_append.1 hother with hearlier | hlast
    · exact h.recorded other hearlier hotherStale
    · rw [List.mem_singleton.1 hlast]
      exact hrecorded

theorem StageInv.step (h : StageInv toLowerCase checks db) (hsucceeds : check.2.Succeeds)
    (hsame : SameMessages (checks ++ [check])) :
    ∃ db', alertStep toLowerCase db check = some db' ∧ StageInv toLowerCase (checks ++ [check]) db' := by
  cases hstale : stale toLowerCase check.1 check.2 with
  | false => exact ⟨db, alertStep_fresh hstale, h.fresh hstale⟩
  | true =>
    obtain ⟨added, hstep, hadded, hrecorded⟩ := alertStep_stale db hstale hsucceeds
    refine ⟨_, hstep, ?_⟩
    cases hfind : checks.find? (staleUnder toLowerCase (check.2.event check.1)) with
    | none =>
      -- Nothing is recorded under the key, so a message is sent.
      have hsome : added ≠ [] := by
        rintro rfl
        obtain ⟨message, hmessage⟩ := List.exists_mem_of_ne_nil _ (hsucceeds.reached check.1)
        rw [List.append_nil] at hrecorded
        obtain ⟨delivery, hdelivery, hkey⟩ := List.mem_map.1 (hrecorded message hmessage)
        obtain ⟨other, hother, hunder⟩ := h.known delivery hdelivery
        rw [hkey, targets_event check.2.env hmessage] at hunder
        exact absurd hunder (List.find?_eq_none.1 hfind other hother)
      rw [if_neg hsome]
      exact h.report hstale hfind (fun delivery hmem => (hadded delivery hmem).1) hrecorded
    | some first =>
      obtain ⟨hall, hinv⟩ := h.repeat hsame hfind
      have hnone : added = [] := List.eq_nil_iff_forall_not_mem.2 fun delivery hmem => by
        obtain ⟨-, hkey, hnew⟩ := hadded delivery hmem
        obtain ⟨message, hmessage, heq⟩ := List.mem_map.1 hkey
        exact hnew (heq ▸ hall message hmessage)
      rw [if_pos hnone, hnone, List.append_nil]
      exact hinv

theorem stageInv_of_run (later : List (StageAlert × StagePoll offset)) (h : StageInv toLowerCase checks db)
    (hsucceed : ∀ check ∈ later, check.2.Succeeds) (hsame : SameMessages (checks ++ later)) :
    ∃ db', Run.run (alertStep toLowerCase) db later = some db' ∧ StageInv toLowerCase (checks ++ later) db' := by
  induction later generalizing checks db with
  | nil => exact ⟨db, rfl, (List.append_nil checks).symm ▸ h⟩
  | cons check later ih =>
    rw [List.append_cons] at hsame ⊢
    obtain ⟨db', hstep, hinv⟩ := h.step (hsucceed check List.mem_cons_self) fun other hother another hanother =>
      hsame other (List.mem_append_left _ hother) another (List.mem_append_left _ hanother)
    obtain ⟨db'', hrun, hinv'⟩ := ih hinv (fun other hother => hsucceed other (List.mem_cons_of_mem _ hother)) hsame
    exact ⟨db'', by rw [Run.run_cons, hstep, Option.bind_some, hrun], hinv'⟩

end Checks

/-! ## The alerts of a history -/

section Reports

variable (toLowerCase : JsString → JsString) (polls : List (StagePoll offset))

/-- The checks of a scan, in their order. -/
def stageChecks (poll : StagePoll offset) : List (StageAlert × StagePoll offset) :=
  [(.invoiceNoPayment, poll), (.preparedProposal, poll), (.proposal, poll)]

variable {polls}

theorem mem_stageChecks {check : StageAlert × StagePoll offset} :
    check ∈ polls.flatMap stageChecks ↔ check.2 ∈ polls := by
  rw [List.mem_flatMap]
  constructor
  · rintro ⟨poll, hpoll, hcheck⟩
    simp only [stageChecks, List.mem_cons, List.not_mem_nil, or_false] at hcheck
    rcases hcheck with rfl | rfl | rfl <;> exact hpoll
  · intro hmem
    refine ⟨check.2, hmem, ?_⟩
    obtain ⟨alert, poll⟩ := check
    cases alert <;> simp [stageChecks]

theorem scanDeal_eq_run (db : StageDb) (poll : StagePoll offset) :
    scanDeal toLowerCase db poll = Run.run (alertStep toLowerCase) db (stageChecks poll) := by
  unfold scanDeal stageChecks
  simp only [Run.run_cons, Run.run_nil, Option.bind_fun_some]

theorem scans_eq_run (polls : List (StagePoll offset)) (db : StageDb) :
    Run.run (scanDeal toLowerCase) db polls = Run.run (alertStep toLowerCase) db (polls.flatMap stageChecks) := by
  induction polls generalizing db with
  | nil => rfl
  | cons poll polls ih =>
    rw [List.flatMap_cons, Run.run_append, Run.run_cons, scanDeal_eq_run]
    exact congrArg _ (funext ih)

end Reports

section Reports

variable {toLowerCase : JsString → JsString} {polls : List (StagePoll offset)} {db : StageDb}

/-- An alert was sent once if the first check over the limit under its key is of its stay, and never otherwise. -/
theorem StageInv.count {checks : List (StageAlert × StagePoll offset)} (h : StageInv toLowerCase checks db)
    (alert : StageAlert × Stay) : db.alerts.count alert =
      ((checks.find? (staleUnder toLowerCase (alertEvent alert))).map checkedStay).toList.count alert := by
  rw [← h.first, List.count_filter (by simp)]

/-- The scans of a history end, and report the first stay over the limit under each key. -/
theorem scans_spec (toLowerCase : JsString → JsString) (hsucceed : ∀ poll ∈ polls, poll.Succeeds)
    (hsame : SameRecipients polls) :
    ∃ db, Run.run (scanDeal toLowerCase) {} polls = some db ∧
      StageInv toLowerCase (polls.flatMap stageChecks) db := by
  have hnone : StageInv toLowerCase ([] : List (StageAlert × StagePoll offset)) {} :=
    ⟨fun _ => rfl, fun _ h => absurd h List.not_mem_nil, fun _ h => absurd h List.not_mem_nil⟩
  rw [scans_eq_run]
  refine stageInv_of_run _ hnone (fun check hmem => hsucceed _ (mem_stageChecks.1 hmem)) ?_
  rw [List.nil_append]
  intro check hmem other hother hevent
  obtain ⟨alert, poll⟩ := check
  obtain ⟨halert, hdeal, hstage⟩ := stageEvent_inj hevent
  obtain ⟨otherAlert, otherPoll⟩ := other
  obtain rfl : alert = otherAlert := halert
  exact hsame alert poll (mem_stageChecks.1 hmem) otherPoll (mem_stageChecks.1 hother) hdeal hstage

/-- Every stay that is reported is the first one under its key. -/
theorem oneStaleStay_of_reported (h : StageInv toLowerCase (polls.flatMap stageChecks) db)
    (hreported : StaysReported toLowerCase polls db) : OneStaleStay toLowerCase polls := by
  intro alert poll hpoll other hother hstale hotherStale hdeal hstage
  have hfirst : ∀ poll ∈ polls, stale toLowerCase alert poll = true →
      ((polls.flatMap stageChecks).find? (staleUnder toLowerCase (poll.event alert))).map checkedStay =
        some (alert, poll.stay) := by
    intro poll hpoll hstale
    have hcount := h.count (alert, poll.stay)
    rw [hreported alert poll hpoll hstale] at hcount
    have hmem := List.count_pos_iff.1 (hcount ▸ Nat.one_pos)
    exact Option.mem_toList.1 hmem
  have hevent : poll.event alert = other.event alert := by
    unfold StagePoll.event
    rw [hdeal, hstage]
  have heq := (hfirst poll hpoll hstale).symm.trans (hevent ▸ hfirst other hother hotherStale)
  exact congrArg Prod.snd (Option.some.inj heq)

theorem reported_of_oneStaleStay (h : StageInv toLowerCase (polls.flatMap stageChecks) db)
    (hone : OneStaleStay toLowerCase polls) : StaysReported toLowerCase polls db := by
  intro alert poll hpoll hstale
  rw [h.count]
  change (((polls.flatMap stageChecks).find? (staleUnder toLowerCase (poll.event alert))).map
    checkedStay).toList.count (alert, poll.stay) = 1
  cases hfind : (polls.flatMap stageChecks).find? (staleUnder toLowerCase (poll.event alert)) with
  | none =>
    have hunder : staleUnder toLowerCase (poll.event alert) (alert, poll) = true := staleUnder_iff.2 ⟨hstale, rfl⟩
    exact absurd hunder (List.find?_eq_none.1 hfind (alert, poll) (mem_stageChecks.2 hpoll))
  | some first =>
    obtain ⟨firstAlert, other⟩ := first
    obtain ⟨hotherStale, hevent⟩ := staleUnder_iff.1 (List.find?_some hfind)
    obtain ⟨halert, hdeal, hstage⟩ := stageEvent_inj hevent
    obtain rfl : firstAlert = alert := halert
    have hstay := hone firstAlert other (mem_stageChecks.1 (List.mem_of_find?_eq_some hfind)) poll hpoll hotherStale
      hstale hdeal hstage
    change [(firstAlert, other.stay)].count (firstAlert, poll.stay) = 1
    rw [hstay, List.count_singleton_self]

end Reports

/-- **The alerts about stale stages.** Over every history of scans with the same recipients, each stay over a limit
produces exactly one alert if and only if no deal is over a limit in two of its stays in one stage. -/
theorem stale_stage_alerts (toLowerCase : JsString → JsString) (polls : List (StagePoll offset))
    (hsucceed : ∀ poll ∈ polls, poll.Succeeds) (hsame : SameRecipients polls) :
    ∃ db, Run.run (scanDeal toLowerCase) {} polls = some db ∧
      (StaysReported toLowerCase polls db ↔ OneStaleStay toLowerCase polls) := by
  obtain ⟨db, hrun, hinv⟩ := scans_spec toLowerCase hsucceed hsame
  exact ⟨db, hrun, oneStaleStay_of_reported hinv, reported_of_oneStaleStay hinv⟩

/-! ## A deal that comes back -/

/-- The leader of the sales team is connected, and the system chooses the recipients. -/
def oneLeader : Surroundings :=
  { reachable fun _ => some ⟨some [], true, []⟩ with
    users := [⟨js "leader", true, false, .ROP, some .sales, none⟩] }

/-- A deal in the stage of objections. -/
def objectedDeal (stageHistory : List StageMove) : NotificationDeal where
  id := "deal"
  createdAt := 1_785_531_600_000
  stageId := "objections"
  responsibleId := none
  stageHistory
  tasks := []

/-- A scan of the deal a day after its entry. -/
def dayLater (stageHistory : List StageMove)
    (measured : Yields (moscowWeekdayElapsedMs (fun _ => 3 * CivilDate.hour)
      (currentStageEnteredAt (objectedDeal stageHistory))
      (currentStageEnteredAt (objectedDeal stageHistory) + CivilDate.day)) CivilDate.day) :
    StagePoll fun _ => 3 * CivilDate.hour where
  env := oneLeader
  limits := ⟨3, 24, 2⟩
  deal := objectedDeal stageHistory
  stageName := js "возражения"
  now := currentStageEnteredAt (objectedDeal stageHistory) + CivilDate.day
  elapsed := CivilDate.day
  measured

/-- The days of a deal that entered its stage on Monday, 3 August 2026, and again on Thursday. -/
theorem monday_measured : Yields (moscowWeekdayElapsedMs (fun _ => 3 * CivilDate.hour) 1_785_704_400_000
    (1_785_704_400_000 + CivilDate.day)) CivilDate.day := by
  have hspent : spent Weekday 1_785_704_400_000 (1_785_704_400_000 + CivilDate.day) = CivilDate.day := by
    refine (spent_eq_length (by decide) fun t ht hend => ?_).trans (by decide)
    unfold Weekday CivilDate.MondayToFriday moscowDay CivilDate.hour CivilDate.day at *
    omega
  have hyields := weekdayElapsed_yields fixedFrom_firstCentury
    (show CivilDate.firstCentury ≤ 1_785_704_400_000 by decide) (1_785_704_400_000 + CivilDate.day)
  rwa [hspent] at hyields

theorem thursday_measured : Yields (moscowWeekdayElapsedMs (fun _ => 3 * CivilDate.hour) 1_785_963_600_000
    (1_785_963_600_000 + CivilDate.day)) CivilDate.day := by
  have hspent : spent Weekday 1_785_963_600_000 (1_785_963_600_000 + CivilDate.day) = CivilDate.day := by
    refine (spent_eq_length (by decide) fun t ht hend => ?_).trans (by decide)
    unfold Weekday CivilDate.MondayToFriday moscowDay CivilDate.hour CivilDate.day at *
    omega
  have hyields := weekdayElapsed_yields fixedFrom_firstCentury
    (show CivilDate.firstCentury ≤ 1_785_963_600_000 by decide) (1_785_963_600_000 + CivilDate.day)
  rwa [hspent] at hyields

def firstStay : StagePoll fun _ => 3 * CivilDate.hour :=
  dayLater [⟨"objections", 1_785_704_400_000⟩] monday_measured

/-- The deal has left the stage on Wednesday. -/
def secondStay : StagePoll fun _ => 3 * CivilDate.hour :=
  dayLater [⟨"objections", 1_785_704_400_000⟩, ⟨"other", 1_785_877_200_000⟩, ⟨"objections", 1_785_963_600_000⟩]
    thursday_measured

/-- The leader is told about the stay. -/
theorem dayLater_messages (stageHistory : List StageMove) (measured) (alert : StageAlert) :
    (dayLater stageHistory measured).messages alert =
      [(.user (alert.event "deal" "objections") (js "leader"), .sent)] := by
  cases alert <;> rfl

theorem dayLater_succeeds (stageHistory : List StageMove) (measured) :
    (dayLater stageHistory measured).Succeeds where
  botToken := rfl
  leaders := List.cons_ne_nil _ _
  reached := fun alert => by
    rw [dayLater_messages]
    exact List.cons_ne_nil _ _
  sent := fun alert message hmem => by
    rw [dayLater_messages] at hmem
    rw [List.mem_singleton.1 hmem]

theorem stays_succeed : ∀ poll ∈ [firstStay, secondStay], poll.Succeeds := by
  intro poll hpoll
  simp only [List.mem_cons, List.not_mem_nil, or_false] at hpoll
  rcases hpoll with rfl | rfl <;> exact dayLater_succeeds _ _

theorem stays_sameRecipients : SameRecipients [firstStay, secondStay] := by
  intro alert poll hpoll other hother _ _
  have hmessages : ∀ poll ∈ [firstStay, secondStay], poll.messages alert =
      [(.user (alert.event "deal" "objections") (js "leader"), .sent)] := by
    intro poll hpoll
    simp only [List.mem_cons, List.not_mem_nil, or_false] at hpoll
    rcases hpoll with rfl | rfl <;> exact dayLater_messages _ _ alert
  rw [hmessages poll hpoll, hmessages other hother]
  exact fun message hmessage => List.mem_map.2 ⟨message, hmessage, rfl⟩

/-- A stay that two scans find over the limit is reported once. -/
theorem stale_stage_alerts_sample : ∃ db, Run.run (scanDeal id) {} [firstStay, firstStay] = some db ∧
    (StaysReported id [firstStay, firstStay] db ↔ OneStaleStay id [firstStay, firstStay]) :=
  stale_stage_alerts id [firstStay, firstStay]
    (fun poll hpoll => stays_succeed poll (List.mem_of_mem_take (i := 1) (by simpa using hpoll)))
    (fun alert poll hpoll other hother => stays_sameRecipients alert poll
      (List.mem_of_mem_take (i := 1) (by simpa using hpoll)) other
      (List.mem_of_mem_take (i := 1) (by simpa using hother)))

/-- The second stay of a deal in the stage of objections is not reported. -/
theorem stale_stage_alerts_fails : ¬ ∀ polls : List (StagePoll fun _ => 3 * CivilDate.hour),
    (∀ poll ∈ polls, poll.Succeeds) → SameRecipients polls →
      ∃ db, Run.run (scanDeal id) {} polls = some db ∧ StaysReported id polls db := by
  intro h
  obtain ⟨db, hrun, hreported⟩ := h [firstStay, secondStay] stays_succeed stays_sameRecipients
  obtain ⟨db', hrun', hinv⟩ := scans_spec id stays_succeed stays_sameRecipients
  obtain rfl := Option.some.inj (hrun.symm.trans hrun')
  have hsame := oneStaleStay_of_reported hinv hreported .proposal firstStay (by simp) secondStay (by simp)
    (by decide +kernel) (by decide +kernel) rfl rfl
  revert hsame
  decide

end AmoAnalytics.Platform.CrmEvents
