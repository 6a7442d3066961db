import AmoAnalytics.Evidence.CaptureHistory

/-!
# The lease of an evidence capture

A lease is a start time and an attempt number. It is unique as long as no row is claimed with the start time and the
attempt number of a worker that is still under way; then only the last one to claim a row can write it.
-/

namespace AmoAnalytics.Evidence

open Table Actors

variable {env : CaptureEnv} {db db' last : EvidenceDb} {i j : ℕ} {phase other : CallPhase} {job row : EvidenceRow}
  {lease lease' : Lease} {id : String} {history : List Event} {action : EvidenceAction} {move : Move}
  {next : List EvidenceRow × List Event × CallPhase}

/-- The call whose claim is the last that has happened to a row. -/
def holder (id : String) : List Event → Option ℕ
  | [] => none
  | .recovered ids :: history | .reset ids :: history => if id ∈ ids then none else holder id history
  | .claimed i claimed :: history => if claimed = id then some i else holder id history
  | .wrote _ written :: history => if written = id then none else holder id history
  | _ :: history => holder id history

/-- A claim is not made with the lease of a worker that is still under way. -/
def Fresh (db : EvidenceDb) : EvidenceAction → Prop
  | .act i .claim => ∀ job claimedAt, db.calls[i]? = some (.claiming job claimedAt) → db.rows.any job.same = true →
    ∀ phase ∈ db.calls, phase.lease ≠ some ⟨job.id, claimedAt, job.attempts + 1⟩
  | _ => True

/-- Two calls have different leases. -/
def Apart (a b : CallPhase) : Prop := ∀ lease, a.lease = some lease → b.lease ≠ some lease

theorem Apart.symm {a b : CallPhase} (h : Apart a b) : Apart b a := fun lease hb ha => h lease ha hb

structure LeaseInv (db : EvidenceDb) : Prop where
  apart : Pairs Apart db.calls
  /-- A running row is held by the last one to claim it. -/
  held : ∀ row ∈ db.rows, row.status = .running → ∃ i phase lease, db.calls[i]? = some phase ∧
    phase.lease = some lease ∧ lease.holds row = true ∧ holder row.id db.history = some i

/-- Two leases that hold the same row are equal. -/
theorem eq_of_holds (h : lease.holds row = true) (h' : lease'.holds row = true) : lease = lease' := by
  obtain ⟨hid, -, hstarted, hattempts⟩ := Lease.holds_iff.1 h
  obtain ⟨hid', -, hstarted', hattempts'⟩ := Lease.holds_iff.1 h'
  cases lease
  cases lease'
  simp_all

/-- At most one lease on a row is current. -/
theorem LeaseInv.unique (h : LeaseInv db) (hi : db.calls[i]? = some phase) (hj : db.calls[j]? = some other)
    (hlease : phase.lease = some lease) (hlease' : other.lease = some lease') (hholds : lease.holds row = true)
    (hholds' : lease'.holds row = true) : i = j := by
  by_contra hij
  obtain rfl := eq_of_holds hholds hholds'
  exact h.apart i j phase other hij hi hj lease hlease hlease'

/-- The lease of a call after its move. -/
theorem MoveEffect.next_lease (h : MoveEffect env db i move phase next) : next.2.2.lease = none ∨
    next.2.2.lease = phase.lease ∨ ∃ job claimedAt row, move = .claim ∧ phase = .claiming job claimedAt ∧
      row ∈ db.rows ∧ job.same row = true ∧ next.2.2.lease = some ⟨job.id, claimedAt, job.attempts + 1⟩ := by
  cases h with
  | claim job claimedAt row hmem hsame =>
    exact Or.inr (Or.inr ⟨job, claimedAt, row, rfl, rfl, hmem, hsame, rfl⟩)
  | check job lease result stage checked heffect =>
    refine Or.inr (Or.inl ?_)
    cases heffect with
    | user => cases result <;> rfl
    | _ => rfl
  | captured => exact Or.inr (Or.inl rfl)
  | failed => exact Or.inr (Or.inl rfl)
  | fail _ _ _ _ hlease => exact Or.inr (Or.inl hlease.symm)
  | _ => exact Or.inl rfl

theorem LeaseInv.apart_act (h : LeaseInv db) (hi : db.calls[i]? = some phase)
    (heffect : MoveEffect env db i move phase next) (hfresh : Fresh db (.act i move)) :
    Pairs Apart (db.calls.set i next.2.2) := by
  refine h.apart.set fun j other hji hj => ?_
  have happart : Apart next.2.2 other := by
    intro lease hlease hother
    rcases heffect.next_lease with hnone | hkept | ⟨job, claimedAt, row, rfl, rfl, hmem, hsame, hnew⟩
    · rw [hnone] at hlease
      exact nomatch hlease
    · exact h.apart i j phase other (Ne.symm hji) hi hj lease (hkept.symm.trans hlease) hother
    · refine hfresh job claimedAt hi (List.any_eq_true.2 ⟨row, hmem, hsame⟩) other (List.mem_of_getElem? hj) ?_
      rw [hother, ← hlease, hnew]
  exact ⟨happart, happart.symm⟩

/-- What is known of a running row, for the row itself. -/
def Held (calls : List CallPhase) (history : List Event) (row : EvidenceRow) : Prop :=
  ∃ i phase lease, calls[i]? = some phase ∧ phase.lease = some lease ∧ lease.holds row = true ∧
    holder row.id history = some i

/-- A row is still held after a move that does not write it, and after which its holder has the same lease. -/
theorem Held.act {events : List Event} {phase' : CallPhase} (h : Held db.calls history row)
    (hi : db.calls[i]? = some phase) (hholder : holder row.id (events ++ history) = holder row.id history)
    (hkept : ∀ lease, phase.lease = some lease → lease.holds row = true → phase'.lease = some lease) :
    Held (db.calls.set i phase') (events ++ history) row := by
  obtain ⟨j, other, lease, hj, hlease, hholds, hlast⟩ := h
  by_cases hji : j = i
  · subst hji
    obtain rfl := Option.some.inj (hj.symm.trans hi)
    exact ⟨j, phase', lease, getElem?_set_self_of_some hj, hkept lease hlease hholds, hholds, hholder.trans hlast⟩
  · exact ⟨j, other, lease, (List.getElem?_set_ne (Ne.symm hji)).trans hj, hlease, hholds, hholder.trans hlast⟩

/-- Rows that an update leaves out have other ids than the ones it writes. -/
theorem not_mem_ids {p : EvidenceRow → Bool} (hids : (db.rows.map EvidenceRow.id).Nodup) (hrow : row ∈ db.rows)
    (hp : p row = false) : row.id ∉ (db.rows.filter p).map EvidenceRow.id := by
  intro hmem
  obtain ⟨written, hwritten, hid⟩ := List.mem_map.1 hmem
  obtain ⟨hwritten, hpw⟩ := List.mem_filter.1 hwritten
  rw [eq_of_id hids hwritten hrow hid, hp] at hpw
  exact nomatch hpw

theorem LeaseInv.held_act (h : LeaseInv db) (hinv : QueueInv env db) (hi : db.calls[i]? = some phase)
    (heffect : MoveEffect env db i move phase next) (hrow : row ∈ next.1) (hrunning : row.status = .running) :
    Held (db.calls.set i next.2.2) (next.2.1 ++ db.history) row := by
  have hsame : ∀ {events : List Event} {phase' : CallPhase}, row ∈ db.rows →
      holder row.id (events ++ db.history) = holder row.id db.history →
      (∀ lease, phase.lease = some lease → lease.holds row = true → phase'.lease = some lease) →
      Held (db.calls.set i phase') (events ++ db.history) row :=
    fun hmem hholder hkept => Held.act (h.held row hmem hrunning) hi hholder hkept
  cases heffect with
  | recover now readAt =>
    obtain ⟨old, hold, rfl⟩ := mem_updateWhere.1 hrow
    split_ifs at hrunning hsame ⊢ with hstale
    · cases hrunning
    · exact hsame hold (if_neg (not_mem_ids hinv.ids hold (Bool.eq_false_iff.2 hstale))) fun _ h => by cases h
  | claim job claimedAt claimed hmem hclaimed =>
    obtain ⟨old, hold, rfl⟩ := mem_updateWhere.1 hrow
    split_ifs at hrunning hsame ⊢ with hp
    · obtain ⟨hid, -, hattempts⟩ := EvidenceRow.same_iff.1 hp
      refine ⟨i, _, _, getElem?_set_self_of_some hi, rfl, ?_, if_pos hid.symm⟩
      exact Lease.holds_iff.2 ⟨hid, rfl, rfl, congrArg (· + 1) hattempts⟩
    · refine hsame hold (if_neg fun hid => hp ?_) fun _ h => by cases h
      rw [eq_of_id hinv.ids hold hmem (hid.symm.trans (EvidenceRow.same_iff.1 hclaimed).1.symm)]
      exact hclaimed
  | check job lease result stage checked heffect =>
    cases heffect with
    | user =>
      refine hsame hrow rfl fun lease' hlease _ => ?_
      cases result <;> exact hlease
    | _ => exact hsame hrow rfl fun _ hlease _ => hlease
  | captured => exact hsame hrow rfl fun _ hlease _ => hlease
  | failed => exact hsame hrow rfl fun _ hlease _ => hlease
  | fail _ _ _ _ hphase => exact hsame hrow rfl fun _ hlease _ => hphase.symm.trans hlease
  | write job lease outcome caught written hmem hholds =>
    obtain ⟨old, hold, rfl⟩ := mem_updateWhere.1 hrow
    split_ifs at hrunning hsame ⊢ with hp
    · cases outcome with
      | error => cases hrunning
      | captured result => cases hstatus : result.status <;>
          simp [Outcome.write, hstatus, CaptureStatus.toEvidence] at hrunning
    · have hid := (Lease.holds_iff.1 hholds).1.trans (hinv.knows i _ hi).1
      refine hsame hold (if_neg fun heq => hp ?_) fun lease' hlease hheld => absurd hheld ?_
      · rw [eq_of_id hinv.ids hold hmem (heq.symm.trans hid.symm)]
        exact hholds
      · cases hlease
        exact hp
  | lost job lease outcome caught hnone =>
    refine hsame hrow rfl fun lease' hlease hheld => ?_
    cases hlease
    rw [hnone row hrow] at hheld
    cases hheld
  | reset id status written hmem hwritten =>
    obtain ⟨old, hold, rfl⟩ := mem_updateWhere.1 hrow
    split_ifs at hrunning hsame ⊢ with hp
    · cases hrunning
    · refine hsame hold (if_neg fun hid => hp ?_) fun _ h => by cases h
      rw [eq_of_id hinv.ids hold hmem ((List.mem_singleton.1 hid).trans hwritten.1.symm)]
      exact decide_eq_true hwritten
  | _ => exact hsame hrow rfl fun _ h => by cases h

/-- A call that begins has no lease. -/
theorem LeaseInv.call {new : CallPhase} (h : LeaseInv db) (hnew : new.lease = none) :
    LeaseInv { db with calls := db.calls ++ [new] } := by
  have happart : ∀ b, Apart new b := fun b lease hlease => by
    rw [hnew] at hlease
    exact nomatch hlease
  refine ⟨h.apart.append fun b _ => ⟨happart b, (happart b).symm⟩, fun row hrow hrunning => ?_⟩
  obtain ⟨i, phase, lease, hi, hlease, hholds, hholder⟩ := h.held row hrow hrunning
  exact ⟨i, phase, lease, getElem?_append_of_some hi, hlease, hholds, hholder⟩

theorem LeaseInv.step (h : LeaseInv db) (hinv : QueueInv env db) (hfresh : Fresh db action)
    (hstep : evidenceStep env db action = some db') : LeaseInv db' := by
  cases stepEffect hstep with
  | tick => exact ⟨h.apart, h.held⟩
  | crm => exact ⟨h.apart, h.held⟩
  | kept => exact h
  | ensure id observationId observation sourceUrl unavailable hnew =>
    refine ⟨h.apart, fun row hrow hrunning => ?_⟩
    rcases List.mem_append.1 hrow with hold | hmem
    · exact h.held row hold hrunning
    · obtain rfl := List.mem_singleton.1 hmem
      cases unavailable <;> exact nomatch hrunning
  | requeue =>
    refine ⟨h.apart, fun row hrow hrunning => ?_⟩
    obtain ⟨old, hold, rfl⟩ := mem_updateWhere.1 hrow
    split_ifs at hrunning ⊢ with hp
    · exact nomatch hrunning
    · obtain ⟨i, phase, lease, hi, hlease, hholds, hholder⟩ := h.held old hold hrunning
      refine ⟨i, phase, lease, hi, hlease, hholds, ?_⟩
      exact (if_neg (not_mem_ids hinv.ids hold (Bool.eq_false_iff.2 hp))).trans hholder
  | process => exact h.call rfl
  | retry => exact h.call rfl
  | act i move phase next hi heffect =>
    exact ⟨h.apart_act hi heffect hfresh, fun row hrow hrunning => h.held_act hinv hi heffect hrow hrunning⟩

theorem leaseInv_of_reachable {crm : SourceCrm} (h : Run.ReachableVia (evidenceStep env) Fresh { crm } db) :
    LeaseInv db := by
  refine (h.invariant (I := fun db => QueueInv env db ∧ LeaseInv db) ⟨queueInv_of_reachable (.refl (G := Fresh) _),
    pairs_nil, fun _ hrow => absurd hrow List.not_mem_nil⟩ fun _ _ _ hinv hfresh hstep => ?_).2
  exact ⟨hinv.1.step hstep, hinv.2.step hinv.1 hfresh hstep⟩

/-- A worker that is not the last one to claim the row writes nothing. -/
theorem LeaseInv.fenced (h : LeaseInv db) (hi : db.calls[i]? = some phase)
    (hlease : phase.lease = some lease) (hlost : holder lease.id db.history ≠ some i)
    (hstep : evidenceStep env db (.act i move) = some db') : db'.rows = db.rows := by
  cases stepEffect hstep with
  | act i move phase' next hi' heffect =>
    obtain rfl := Option.some.inj (hi.symm.trans hi')
    cases heffect with
    | write job lease' outcome caught row hmem hholds =>
      cases hlease
      obtain ⟨hid, hrunning, -, -⟩ := Lease.holds_iff.1 hholds
      obtain ⟨j, other, lease₂, hj, hlease₂, hholds₂, hholder⟩ := h.held row hmem hrunning
      obtain rfl := h.unique hi hj rfl hlease₂ hholds hholds₂
      exact absurd (hid ▸ hholder) hlost
    | begin => rfl
    | recover => exact nomatch hlease
    | claim => exact nomatch hlease
    | reset => exact nomatch hlease
    | _ => rfl

/-! ## The queue -/

/-- What the queue guarantees in a state, and from it on. -/
structure CaptureSafe (env : CaptureEnv) (db : EvidenceDb) : Prop where
  /-- At most one lease on a row is current. -/
  unique : ∀ (i j : ℕ) (phase other : CallPhase) (lease lease' : Lease), db.calls[i]? = some phase →
    db.calls[j]? = some other → phase.lease = some lease → other.lease = some lease' →
      ∀ row ∈ db.rows, lease.holds row = true → lease'.holds row = true → i = j
  /-- A worker whose row has since been recovered, reset, claimed or written writes nothing. -/
  fenced : ∀ (i : ℕ) (phase : CallPhase) (lease : Lease) move db', db.calls[i]? = some phase →
    phase.lease = some lease → holder lease.id db.history ≠ some i →
      evidenceStep env db (.act i move) = some db' → db'.rows = db.rows
  /-- A ready row never changes again. -/
  ready : ∀ row ∈ db.rows, row.status = .ready →
    ∀ last, Run.Reachable (evidenceStep env) db last → row ∈ last.rows
  /-- Between two manual retries a row is claimed at most three times. -/
  claims : ∀ id, claimsSinceReset id db.history ≤ 3
  /-- The owner and the group matched the observation before and after the capture of a ready row. -/
  verified : ∀ row ∈ db.rows, row.status = .ready → Verified env row.observation row.id db.history

/-- **The evidence queue.** It is safe while every claim is fresh. -/
theorem capture_safe {crm : SourceCrm} (h : Run.ReachableVia (evidenceStep env) Fresh { crm } db) :
    CaptureSafe env db := by
  have hinv : QueueInv env db := queueInv_of_reachable h
  have hlease := leaseInv_of_reachable h
  constructor
  · exact fun i j phase other lease lease' hi hj hphase hother row _ hholds hholds' =>
      hlease.unique hi hj hphase hother hholds hholds'
  · exact fun i phase lease move db' hi hphase hlost hstep => hlease.fenced hi hphase hlost hstep
  · exact fun row hrow hready last hlater => ready_of_reachable hinv hlater hrow hready
  · exact claimsSinceReset_le hinv
  · exact fun row hrow hready => (hinv.rows row hrow).verified hready

namespace Sample

def captureEnv : CaptureEnv where
  userExternalId := fun _ => some "7"
  groupExternalId := fun _ => some "3"
  hostname := fun _ => "sales.amocrm.ru"

/-- The deal is with the user 7 of the group 3. -/
def sourceCrm : SourceCrm where
  domain := "sales.amocrm.ru"
  responsible := fun _ => some "7"
  groupOf := fun _ => some (some "3")

/-- A row is created for an observation of the deal. -/
def created : EvidenceAction :=
  .ensure "e" "o" ⟨"501", some "m", some "g"⟩ "https://sales.amocrm.ru/leads/detail/501" none

/-- A new call, the call `i`, comes to the claim of the row. -/
def finds (i readAt : ℕ) : List EvidenceAction :=
  [.process, .act i .begin, .act i (.recover readAt), .act i (.find "e"), .act i .stamp]

/-- The call `i`, which has claimed the row, captures the card and writes. -/
def captures (i : ℕ) : List EvidenceAction :=
  [.act i .check, .act i .check, .act i .check, .act i (.capture { status := .ready, storageKey := some "k" }),
    .act i .check, .act i .check, .act i .check, .act i .write]

/-- A worker stalls with its lease, and the next one takes the row over. -/
def takenOver : List EvidenceAction :=
  created :: finds 0 0 ++ [.act 0 .claim, .tick 600_001] ++ finds 1 600_001 ++ [.act 1 .claim] ++ captures 1

def isFresh (db : EvidenceDb) : EvidenceAction → Bool
  | .act i .claim =>
    match db.calls[i]? with
    | some (.claiming job claimedAt) =>
      db.calls.all fun phase => phase.lease ≠ some ⟨job.id, claimedAt, job.attempts + 1⟩
    | _ => true
  | _ => true

theorem fresh_of_isFresh (db : EvidenceDb) (action : EvidenceAction) (h : isFresh db action = true) :
    Fresh db action := by
  unfold Fresh
  split
  case h_1 i =>
    intro job claimedAt hi _ phase hphase
    simp only [isFresh, hi] at h
    exact of_decide_eq_true (List.all_eq_true.1 h phase hphase)
  case h_2 => trivial

end Sample

/-- The first worker is still under way, and the row is ready. -/
theorem capture_safe_sample : ∃ db, Run.ReachableVia (evidenceStep Sample.captureEnv) Fresh { crm := Sample.sourceCrm } db ∧
    (∃ row ∈ db.rows, row.status = .ready ∧ row.attempts = 2) ∧ (∃ phase ∈ db.calls, phase.lease = some ⟨"e", 0, 1⟩) ∧
      CaptureSafe Sample.captureEnv db := by
  have hrun : (Run.runIf Sample.isFresh (evidenceStep Sample.captureEnv) { crm := Sample.sourceCrm } Sample.takenOver).any
      (fun db => (∃ row ∈ db.rows, row.status = .ready ∧ row.attempts = 2) ∧
        ∃ phase ∈ db.calls, phase.lease = some ⟨"e", 0, 1⟩) = true := by
    decide +kernel
  obtain ⟨db, hreach, hdb⟩ := Run.exists_of_runIf Sample.fresh_of_isFresh hrun
  obtain ⟨hready, hlease⟩ := of_decide_eq_true hdb
  exact ⟨db, hreach, hready, hlease, capture_safe hreach⟩

namespace Sample

/-- Two workers find the row in the same millisecond. The first claims it and stalls, and the row is recovered and
put back by hand; then the second makes its claim. -/
def sameStart : List EvidenceAction :=
  created :: finds 0 0 ++ finds 1 0 ++ [.act 0 .claim, .tick 600_001, .process, .act 2 .begin,
    .act 2 (.recover 600_001), .retry "e", .act 3 .reset, .act 1 .claim]

end Sample

/-- **A lease that is not unique.** Both workers hold the row, and the one that has lost it writes it. -/
theorem shared_lease :
    ∃ db ∈ Run.run (evidenceStep Sample.captureEnv) { crm := Sample.sourceCrm } Sample.sameStart,
      (∃ row ∈ db.rows, (⟨"e", 0, 1⟩ : Lease).holds row = true) ∧
      db.calls[0]?.bind CallPhase.lease = some ⟨"e", 0, 1⟩ ∧ db.calls[1]?.bind CallPhase.lease = some ⟨"e", 0, 1⟩ ∧
      holder "e" db.history = some 1 ∧
        ∃ db' ∈ Run.run (evidenceStep Sample.captureEnv) db (Sample.captures 0), ∃ row ∈ db'.rows, row.status = .ready := by
  decide +kernel

end AmoAnalytics.Evidence
