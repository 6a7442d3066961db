import AmoAnalytics.Lib.FirstLeast

/-!
# The start of sales work on a stage

`salesResponsibleTaskStart` looks for the earliest instant of a stage at which an eligible manager has a task on the
deal and is its responsible. It takes every assignment of the history up to the end of the stage and every task of the
assigned manager, so an assignment has no end: a manager replaced before his task is created may be taken.
`salesResponsibleTaskStart_iff` says for which histories the result is the earliest start.
-/

namespace AmoAnalytics.Reports.SalesStart

open FirstLeast

variable {User : Type}

/-! ## `reports.service.ts` -/

structure StageEntry (User : Type) where
  movedAt : ℤ
  responsibleId : Option User

structure ResponsibleChange (User : Type) where
  fromUserId : Option User
  toUserId : Option User
  changedAt : ℤ

structure TaskFact (User : Type) where
  responsibleId : Option User
  createdAt : ℤ

structure Assignment (User : Type) where
  managerId : User
  assignedAt : ℤ

structure Start (User : Type) where
  startedAt : ℤ
  managerId : User
deriving DecidableEq

section Functions

variable [DecidableEq User]

/-- A user who is given and eligible. -/
def eligibleUser (eligibleManagers : Finset User) (userId : Option User) : Option User :=
  userId.filter (· ∈ eligibleManagers)

def responsibleAtStageEntry (entry : StageEntry User) (responsibleHistory : List (ResponsibleChange User))
    (eligibleManagers : Finset User) : Option User :=
  let lastBeforeEntry := responsibleHistory.reverse.find? fun item => item.changedAt ≤ entry.movedAt
  match lastBeforeEntry.bind fun item => eligibleUser eligibleManagers item.toUserId with
  | some user => some user
  | none =>
    let firstAfterEntry := responsibleHistory.find? fun item => entry.movedAt < item.changedAt
    match firstAfterEntry.bind fun item => eligibleUser eligibleManagers item.fromUserId with
    | some user => some user
    | none => if responsibleHistory = [] then eligibleUser eligibleManagers entry.responsibleId else none

/-- A change of the history that assigns an eligible manager between the entry and the end. -/
def assignmentOf (entry : StageEntry User) (endAt : ℤ) (eligibleManagers : Finset User)
    (item : ResponsibleChange User) : Option (Assignment User) :=
  match eligibleUser eligibleManagers item.toUserId with
  | none => none
  | some user => if item.changedAt < entry.movedAt ∨ endAt < item.changedAt then none else some ⟨user, item.changedAt⟩

def assignmentCandidates (entry : StageEntry User) (endAt : ℤ) (eligibleManagers : Finset User)
    (responsibleHistory : List (ResponsibleChange User)) : List (Assignment User) :=
  ((responsibleAtStageEntry entry responsibleHistory eligibleManagers).map
      fun managerId => (⟨managerId, entry.movedAt⟩ : Assignment User)).toList ++
    responsibleHistory.filterMap (assignmentOf entry endAt eligibleManagers)

/-- The start of a task of the assigned manager, unless it is at the end or later. -/
def startOf (entry : StageEntry User) (endAt : ℤ) (assignment : Assignment User) (task : TaskFact User) :
    Option (Start User) :=
  let startedAt := max (max entry.movedAt assignment.assignedAt) task.createdAt
  if endAt ≤ startedAt then none else some ⟨startedAt, assignment.managerId⟩

/-- The inner loop, over the tasks of the assigned manager. -/
def bestOfTasks (entry : StageEntry User) (endAt : ℤ) (tasks : List (TaskFact User)) (best : Option (Start User))
    (assignment : Assignment User) : Option (Start User) :=
  let managerTasks := tasks.filter fun task => task.responsibleId = some assignment.managerId ∧ task.createdAt ≤ endAt
  managerTasks.foldl (fun best task =>
    match startOf entry endAt assignment task with
    | none => best
    -- `!best || startedAt < best.startedAt`
    | some start => keep Start.startedAt best start) best

def salesResponsibleTaskStart (entry : StageEntry User) (endAt : ℤ) (eligibleManagers : Finset User)
    (responsibleHistory : List (ResponsibleChange User)) (tasks : List (TaskFact User)) : Option (Start User) :=
  if eligibleManagers = ∅ ∨ tasks = [] then none
  else
    (assignmentCandidates entry endAt eligibleManagers responsibleHistory).foldl (bestOfTasks entry endAt tasks) none

end Functions

/-! ## What the start is for -/

/-- The deal's responsible at an instant: set by the last change up to it; before all changes the user the first one
replaces, and without a history the one of the entry. -/
def responsibleAt (entry : StageEntry User) (responsibleHistory : List (ResponsibleChange User)) (t : ℤ) :
    Option User :=
  match responsibleHistory.reverse.find? fun item => item.changedAt ≤ t with
  | some item => item.toUserId
  | none => (responsibleHistory.head?.map (·.fromUserId)).getD entry.responsibleId

/-- A history in the order of time, each change replacing the user set by the one before. -/
structure Chained (responsibleHistory : List (ResponsibleChange User)) : Prop where
  sorted : responsibleHistory.Pairwise fun a b => a.changedAt ≤ b.changedAt
  linked : responsibleHistory.IsChain fun a b => a.toUserId = b.fromUserId

section Meaning

variable (entry : StageEntry User) (endAt : ℤ) (eligibleManagers : Finset User)
  (responsibleHistory : List (ResponsibleChange User)) (tasks : List (TaskFact User))

/-- At `t`, within the stage, the eligible manager is responsible and has a task that was created. -/
structure Working (t : ℤ) (managerId : User) : Prop where
  after : entry.movedAt ≤ t
  before : t < endAt
  eligible : managerId ∈ eligibleManagers
  responsible : responsibleAt entry responsibleHistory t = some managerId
  task : ∃ task ∈ tasks, task.responsibleId = some managerId ∧ task.createdAt ≤ t

/-- The result is the earliest such instant with its manager, and null when there is none. -/
def EarliestWorking (result : Option (Start User)) : Prop :=
  match result with
  | some start =>
    Working entry endAt eligibleManagers responsibleHistory tasks start.startedAt start.managerId ∧
      ∀ t managerId, t < start.startedAt → ¬ Working entry endAt eligibleManagers responsibleHistory tasks t managerId
  | none => ∀ t managerId, ¬ Working entry endAt eligibleManagers responsibleHistory tasks t managerId

/-- The assignment at a position: the responsible at the entry is at position 0, the changes of the history follow. -/
inductive Assigned : ℕ → User → ℤ → Prop
  | atEntry {managerId} (h : responsibleAt entry responsibleHistory entry.movedAt = some managerId)
      (heligible : managerId ∈ eligibleManagers) : Assigned 0 managerId entry.movedAt
  | change {k item managerId} (h : responsibleHistory[k]? = some item) (huser : item.toUserId = some managerId)
      (heligible : managerId ∈ eligibleManagers) (hafter : entry.movedAt ≤ item.changedAt)
      (hbefore : item.changedAt ≤ endAt) : Assigned (k + 1) managerId item.changedAt

/-- A task of the manager assigned at the position, whenever it is created, makes a start before the end. -/
def StartsFrom (k : ℕ) (managerId : User) (s : ℤ) : Prop :=
  ∃ a task, Assigned entry endAt eligibleManagers responsibleHistory k managerId a ∧ task ∈ tasks ∧
    task.responsibleId = some managerId ∧ s = max (max entry.movedAt a) task.createdAt ∧ s < endAt

/-- A start of a manager who is no longer responsible then comes after one of a manager who is: at a later instant, or
at the same one from a later assignment. -/
def LeftTasksLate : Prop :=
  ∀ k managerId s, StartsFrom entry endAt eligibleManagers responsibleHistory tasks k managerId s →
    responsibleAt entry responsibleHistory s ≠ some managerId →
    ∃ k' managerId' s', StartsFrom entry endAt eligibleManagers responsibleHistory tasks k' managerId' s' ∧
      responsibleAt entry responsibleHistory s' = some managerId' ∧ (s' < s ∨ s' = s ∧ k' < k)

end Meaning

/-! ## The responsible over time -/

section Responsible

variable {entry : StageEntry User} {responsibleHistory : List (ResponsibleChange User)}

/-- Without a change in between the responsible stays. -/
theorem responsibleAt_eq {s t : ℤ}
    (h : ∀ item ∈ responsibleHistory, (item.changedAt ≤ s ↔ item.changedAt ≤ t)) :
    responsibleAt entry responsibleHistory s = responsibleAt entry responsibleHistory t := by
  have hfind : (responsibleHistory.reverse.find? fun item => item.changedAt ≤ s) =
      responsibleHistory.reverse.find? fun item => item.changedAt ≤ t := by
    refine List.find?_congr fun item hitem => ?_
    exact decide_eq_decide.2 (h item (List.mem_reverse.1 hitem))
  rw [responsibleAt, responsibleAt, hfind]

/-- The last change up to an instant, and where it stands in the history. -/
theorem lastChange_spec (hsorted : responsibleHistory.Pairwise fun a b => a.changedAt ≤ b.changedAt) {t : ℤ}
    {item : ResponsibleChange User} (h : (responsibleHistory.reverse.find? fun item => item.changedAt ≤ t) = some item) :
    ∃ before after, responsibleHistory = before ++ item :: after ∧ item.changedAt ≤ t ∧
      (∀ x ∈ before, x.changedAt ≤ item.changedAt) ∧ ∀ x ∈ after, t < x.changedAt := by
  obtain ⟨hle, as, bs, hsplit, has⟩ := List.find?_eq_some_iff_append.1 h
  have hhistory : responsibleHistory = bs.reverse ++ item :: as.reverse := by
    have := congrArg List.reverse hsplit
    simpa using this
  rw [hhistory] at hsorted
  refine ⟨bs.reverse, as.reverse, hhistory, by simpa using hle, fun x hx => ?_, fun x hx => ?_⟩
  · exact (List.pairwise_append.1 hsorted).2.2 x hx item (List.mem_cons_self)
  · simpa using has x (List.mem_reverse.1 hx)

/-- From the last change up to `t` until `t` the responsible is the same. -/
theorem responsibleAt_of_lastChange (hsorted : responsibleHistory.Pairwise fun a b => a.changedAt ≤ b.changedAt)
    {s t : ℤ} {item : ResponsibleChange User}
    (h : (responsibleHistory.reverse.find? fun item => item.changedAt ≤ t) = some item) (hs : item.changedAt ≤ s)
    (hst : s ≤ t) : responsibleAt entry responsibleHistory s = responsibleAt entry responsibleHistory t := by
  obtain ⟨before, after, rfl, hle, hbefore, hafter⟩ := lastChange_spec hsorted h
  refine responsibleAt_eq fun x hx => ⟨fun hxs => hxs.trans hst, fun hxt => ?_⟩
  rcases List.mem_append.1 hx with hx | hx
  · exact (hbefore x hx).trans hs
  · rcases List.mem_cons.1 hx with rfl | hx
    · exact hs
    · exact absurd hxt (not_le.2 (hafter x hx))

end Responsible

/-! ## The candidates -/

section Candidates

variable [DecidableEq User] {entry : StageEntry User} {endAt : ℤ} {eligibleManagers : Finset User}
  {responsibleHistory : List (ResponsibleChange User)} {tasks : List (TaskFact User)}

theorem eligibleUser_eq_some {userId : Option User} {user : User} :
    eligibleUser eligibleManagers userId = some user ↔ userId = some user ∧ user ∈ eligibleManagers := by
  rw [eligibleUser, Option.filter_eq_some_iff, decide_eq_true_iff]

/-- In a chained history the responsible at the stage entry is the eligible one of that instant. -/
theorem responsibleAtStageEntry_eq (h : Chained responsibleHistory) :
    responsibleAtStageEntry entry responsibleHistory eligibleManagers =
      eligibleUser eligibleManagers (responsibleAt entry responsibleHistory entry.movedAt) := by
  unfold responsibleAtStageEntry responsibleAt
  dsimp only
  cases hlast : responsibleHistory.reverse.find? fun item => item.changedAt ≤ entry.movedAt with
  | some item =>
    obtain ⟨before, after, hsplit, hle, hbefore, hafter⟩ := lastChange_spec h.sorted hlast
    have hne : responsibleHistory ≠ [] := by
      rw [hsplit]
      exact List.append_ne_nil_of_right_ne_nil _ (List.cons_ne_nil _ _)
    rw [Option.bind_some]
    cases huser : eligibleUser eligibleManagers item.toUserId with
    | some user => rfl
    | none =>
      -- the first change after the entry replaces the same user, who is not eligible
      have hnext : ((responsibleHistory.find? fun item => entry.movedAt < item.changedAt).bind fun item =>
          eligibleUser eligibleManagers item.fromUserId) = none := by
        have hskip : (responsibleHistory.find? fun item => entry.movedAt < item.changedAt) =
            after.find? fun item => entry.movedAt < item.changedAt := by
          have hbefore' : (before.find? fun item => entry.movedAt < item.changedAt) = none := by
            rw [List.find?_eq_none]
            intro x hx
            have := hbefore x hx
            simp only [decide_eq_true_iff]
            omega
          rw [hsplit, List.find?_append, hbefore', Option.none_or, List.find?_cons_of_neg (by simpa using hle)]
        rw [hskip]
        cases after with
        | nil => rfl
        | cons next rest =>
          have hfrom : item.toUserId = next.fromUserId := by
            have hlinked := h.linked
            rw [hsplit] at hlinked
            exact (List.isChain_append.1 hlinked).2.1.rel
          rw [List.find?_cons_of_pos (by simpa using hafter next List.mem_cons_self), Option.bind_some, ← hfrom]
          exact huser
      rw [hnext]
      exact if_neg hne
  | none =>
    have hlater : ∀ item ∈ responsibleHistory, entry.movedAt < item.changedAt := by
      intro item hitem
      simpa using List.find?_eq_none.1 hlast item (List.mem_reverse.2 hitem)
    rw [Option.bind_none]
    cases responsibleHistory with
    | nil => rfl
    | cons first rest =>
      rw [List.find?_cons_of_pos (by simpa using hlater first List.mem_cons_self)]
      show (match eligibleUser eligibleManagers first.fromUserId with
        | some user => some user
        | none => if first :: rest = [] then _ else none) = eligibleUser eligibleManagers first.fromUserId
      cases eligibleUser eligibleManagers first.fromUserId with
      | some user => rfl
      | none => exact if_neg (List.cons_ne_nil _ _)

variable (entry endAt eligibleManagers responsibleHistory tasks)

/-- The candidates with their positions. -/
def positioned : List (ℕ × Assignment User) :=
  ((responsibleAtStageEntry entry responsibleHistory eligibleManagers).map
      fun managerId => (0, (⟨managerId, entry.movedAt⟩ : Assignment User))).toList ++
    responsibleHistory.zipIdx.filterMap fun (item, k) => (assignmentOf entry endAt eligibleManagers item).map (k + 1, ·)

/-- The starts that an assignment makes, in the order of the inner loop. -/
def startsOf (assignment : Assignment User) : List (Start User) :=
  (tasks.filter fun task => task.responsibleId = some assignment.managerId ∧ task.createdAt ≤ endAt).filterMap
    (startOf entry endAt assignment)

/-- All starts with the positions of their assignments. -/
def positionedStarts : List (ℕ × Start User) :=
  (positioned entry endAt eligibleManagers responsibleHistory).flatMap fun (k, assignment) =>
    (startsOf entry endAt tasks assignment).map (k, ·)

variable {entry endAt eligibleManagers responsibleHistory tasks}

theorem map_positioned : (positioned entry endAt eligibleManagers responsibleHistory).map Prod.snd =
    assignmentCandidates entry endAt eligibleManagers responsibleHistory := by
  unfold positioned assignmentCandidates
  rw [List.map_append]
  congr 1
  · cases responsibleAtStageEntry entry responsibleHistory eligibleManagers <;> rfl
  · rw [List.map_filterMap]
    have hplain : responsibleHistory = responsibleHistory.zipIdx.map Prod.fst := (List.zipIdx_map_fst 0 _).symm
    conv_rhs => rw [hplain, List.filterMap_map]
    refine List.filterMap_congr fun x _ => ?_
    show Option.map Prod.snd (Option.map _ (assignmentOf entry endAt eligibleManagers x.1)) = _
    rw [Option.map_map]
    exact congrFun Option.map_id _

theorem bestOfTasks_eq (best : Option (Start User)) (assignment : Assignment User) :
    bestOfTasks entry endAt tasks best assignment =
      (startsOf entry endAt tasks assignment).foldl (keep Start.startedAt) best := by
  unfold bestOfTasks startsOf
  dsimp only
  rw [List.foldl_filterMap]
  congr 1
  funext best task
  cases startOf entry endAt assignment task <;> rfl

/-- The two loops are one over all starts. -/
theorem foldl_candidates_eq :
    (assignmentCandidates entry endAt eligibleManagers responsibleHistory).foldl (bestOfTasks entry endAt tasks) none =
      ((positionedStarts entry endAt eligibleManagers responsibleHistory tasks).map Prod.snd).foldl
        (keep Start.startedAt) none := by
  have hstarts : (positionedStarts entry endAt eligibleManagers responsibleHistory tasks).map Prod.snd =
      (assignmentCandidates entry endAt eligibleManagers responsibleHistory).flatMap (startsOf entry endAt tasks) := by
    rw [← map_positioned, positionedStarts, List.map_flatMap, List.flatMap_map]
    refine List.flatMap_congr fun x _ => ?_
    rw [List.map_map]
    exact List.map_id _
  rw [hstarts, List.foldl_flatMap]
  congr 1
  funext best assignment
  exact bestOfTasks_eq best assignment

theorem pairwise_positioned :
    (positioned entry endAt eligibleManagers responsibleHistory).Pairwise fun x y => x.1 < y.1 := by
  unfold positioned
  rw [List.pairwise_append]
  refine ⟨?_, ?_, ?_⟩
  · cases responsibleAtStageEntry entry responsibleHistory eligibleManagers <;> simp
  · have hzip : responsibleHistory.zipIdx.Pairwise fun x y => x.2 < y.2 := by
      rw [← List.pairwise_map, List.zipIdx_map_snd]
      exact List.pairwise_lt_range'
    refine hzip.filterMap _ fun x y hxy a ha b hb => ?_
    obtain ⟨_, _, rfl⟩ := Option.map_eq_some_iff.1 ha
    obtain ⟨_, _, rfl⟩ := Option.map_eq_some_iff.1 hb
    exact Nat.succ_lt_succ hxy
  · intro x hx y hy
    obtain ⟨managerId, -, rfl⟩ := Option.map_eq_some_iff.1 (Option.mem_toList.1 hx)
    obtain ⟨_, -, hy⟩ := List.mem_filterMap.1 hy
    obtain ⟨_, -, rfl⟩ := Option.map_eq_some_iff.1 hy
    exact Nat.succ_pos _

theorem pairwise_positionedStarts :
    (positionedStarts entry endAt eligibleManagers responsibleHistory tasks).Pairwise fun x y => x.1 ≤ y.1 := by
  rw [positionedStarts, List.pairwise_flatMap]
  constructor
  · rintro ⟨k, assignment⟩ -
    rw [List.pairwise_map]
    exact List.pairwise_of_forall fun _ _ => le_rfl
  · refine pairwise_positioned.imp fun {x y} hxy => ?_
    intro s hs t ht
    obtain ⟨_, -, rfl⟩ := List.mem_map.1 hs
    obtain ⟨_, -, rfl⟩ := List.mem_map.1 ht
    exact hxy.le

theorem assignmentOf_eq_some {item : ResponsibleChange User} {managerId : User} {a : ℤ} :
    assignmentOf entry endAt eligibleManagers item = some ⟨managerId, a⟩ ↔
      item.toUserId = some managerId ∧ managerId ∈ eligibleManagers ∧ entry.movedAt ≤ item.changedAt ∧
        item.changedAt ≤ endAt ∧ item.changedAt = a := by
  unfold assignmentOf
  cases huser : eligibleUser eligibleManagers item.toUserId with
  | none =>
    constructor
    · rintro ⟨⟩
    · rintro ⟨hto, heligible, -⟩
      rw [eligibleUser_eq_some.2 ⟨hto, heligible⟩] at huser
      cases huser
  | some user =>
    obtain ⟨hto, heligible⟩ := eligibleUser_eq_some.1 huser
    dsimp only
    split_ifs with hout
    · constructor
      · rintro ⟨⟩
      · rintro ⟨-, -, hafter, hbefore, -⟩
        omega
    · constructor
      · rintro ⟨⟩
        exact ⟨hto, heligible, by omega, by omega, rfl⟩
      · rintro ⟨hto', -, -, -, rfl⟩
        rw [Option.some.inj (hto.symm.trans hto')]

theorem mem_positioned (h : Chained responsibleHistory) {k : ℕ} {managerId : User} {a : ℤ} :
    (k, (⟨managerId, a⟩ : Assignment User)) ∈ positioned entry endAt eligibleManagers responsibleHistory ↔
      Assigned entry endAt eligibleManagers responsibleHistory k managerId a := by
  rw [positioned, List.mem_append, responsibleAtStageEntry_eq h, Option.mem_toList, List.mem_filterMap]
  constructor
  · rintro (hentry | ⟨⟨item, i⟩, hitem, hchange⟩)
    · obtain ⟨user, huser, heq⟩ := Option.map_eq_some_iff.1 hentry
      cases heq
      obtain ⟨hresponsible, heligible⟩ := eligibleUser_eq_some.1 huser
      exact .atEntry hresponsible heligible
    · obtain ⟨_, hassigned, heq⟩ := Option.map_eq_some_iff.1 hchange
      cases heq
      obtain ⟨hto, heligible, hafter, hbefore, rfl⟩ := assignmentOf_eq_some.1 hassigned
      exact .change (List.mem_zipIdx_iff_getElem?.1 hitem) hto heligible hafter hbefore
  · intro hassigned
    cases hassigned with
    | atEntry hresponsible heligible =>
      exact Or.inl (Option.map_eq_some_iff.2 ⟨managerId, eligibleUser_eq_some.2 ⟨hresponsible, heligible⟩, rfl⟩)
    | @change i item _ hitem hto heligible hafter hbefore =>
      exact Or.inr ⟨(item, i), List.mem_zipIdx_iff_getElem?.2 hitem, Option.map_eq_some_iff.2
        ⟨_, assignmentOf_eq_some.2 ⟨hto, heligible, hafter, hbefore, rfl⟩, rfl⟩⟩

theorem mem_startsOf {assignment : Assignment User} {start : Start User} :
    start ∈ startsOf entry endAt tasks assignment ↔ ∃ task ∈ tasks, task.responsibleId = some assignment.managerId ∧
      start = ⟨max (max entry.movedAt assignment.assignedAt) task.createdAt, assignment.managerId⟩ ∧
        start.startedAt < endAt := by
  rw [startsOf, List.mem_filterMap]
  constructor
  · rintro ⟨task, htask, hstart⟩
    obtain ⟨htask, howner⟩ := List.mem_filter.1 htask
    unfold startOf at hstart
    dsimp only at hstart
    split_ifs at hstart with hend
    cases hstart
    exact ⟨task, htask, (of_decide_eq_true howner).1, rfl, not_le.1 hend⟩
  · rintro ⟨task, htask, howner, rfl, hend⟩
    have hcreated : task.createdAt ≤ endAt := (le_max_right _ _).trans hend.le
    exact ⟨task, List.mem_filter.2 ⟨htask, decide_eq_true ⟨howner, hcreated⟩⟩, if_neg (not_le.2 hend)⟩

/-- The starts the loops go through are those of the assignments and their managers' tasks. -/
theorem mem_positionedStarts (h : Chained responsibleHistory) {k : ℕ} {managerId : User} {s : ℤ} :
    (k, (⟨s, managerId⟩ : Start User)) ∈ positionedStarts entry endAt eligibleManagers responsibleHistory tasks ↔
      StartsFrom entry endAt eligibleManagers responsibleHistory tasks k managerId s := by
  rw [positionedStarts, List.mem_flatMap]
  constructor
  · rintro ⟨⟨i, assignment⟩, hassigned, hmem⟩
    obtain ⟨_, hstart, heq⟩ := List.mem_map.1 hmem
    cases heq
    obtain ⟨task, htask, howner, heq, hend⟩ := mem_startsOf.1 hstart
    cases heq
    exact ⟨_, task, (mem_positioned h).1 hassigned, htask, howner, rfl, hend⟩
  · rintro ⟨a, task, hassigned, htask, howner, rfl, hend⟩
    exact ⟨(k, ⟨managerId, a⟩), (mem_positioned h).2 hassigned,
      List.mem_map_of_mem (mem_startsOf.2 ⟨task, htask, howner, rfl, hend⟩)⟩

end Candidates

/-! ## The earliest start -/

section Earliest

variable {entry : StageEntry User} {endAt : ℤ} {eligibleManagers : Finset User}
  {responsibleHistory : List (ResponsibleChange User)} {tasks : List (TaskFact User)}

/-- A start is an instant of work when its manager is responsible then. -/
theorem StartsFrom.working {k : ℕ} {managerId : User} {s : ℤ}
    (h : StartsFrom entry endAt eligibleManagers responsibleHistory tasks k managerId s)
    (hresponsible : responsibleAt entry responsibleHistory s = some managerId) :
    Working entry endAt eligibleManagers responsibleHistory tasks s managerId := by
  obtain ⟨a, task, hassigned, htask, howner, rfl, hend⟩ := h
  have heligible : managerId ∈ eligibleManagers := by
    cases hassigned with
    | atEntry _ heligible => exact heligible
    | change _ _ heligible _ _ => exact heligible
  exact ⟨(le_max_left _ _).trans (le_max_left _ _), hend, heligible, hresponsible, task, htask, howner,
    le_max_right _ _⟩

/-- An instant of work lies in the tenure of an assignment, so a start of it with the same manager comes no later. -/
theorem Working.start (h : Chained responsibleHistory) {t : ℤ} {managerId : User}
    (hw : Working entry endAt eligibleManagers responsibleHistory tasks t managerId) :
    ∃ k s, StartsFrom entry endAt eligibleManagers responsibleHistory tasks k managerId s ∧ s ≤ t ∧
      responsibleAt entry responsibleHistory s = some managerId := by
  obtain ⟨task, htask, howner, hcreated⟩ := hw.task
  have hafter := hw.after
  -- a tenure from `a` on that reaches `t` starts at the later of `a` and the creation of the task
  have htenure : ∀ k a, Assigned entry endAt eligibleManagers responsibleHistory k managerId a → a ≤ t →
      (∀ s, max entry.movedAt a ≤ s → s ≤ t → responsibleAt entry responsibleHistory s = some managerId) →
      ∃ k s, StartsFrom entry endAt eligibleManagers responsibleHistory tasks k managerId s ∧ s ≤ t ∧
        responsibleAt entry responsibleHistory s = some managerId := by
    intro k a hassigned hat hresponsible
    have hle : max (max entry.movedAt a) task.createdAt ≤ t := max_le (max_le hafter hat) hcreated
    exact ⟨k, _, ⟨a, task, hassigned, htask, howner, rfl, hle.trans_lt hw.before⟩, hle,
      hresponsible _ (le_max_left _ _) hle⟩
  cases hlast : responsibleHistory.reverse.find? fun item => item.changedAt ≤ t with
  | some item =>
    obtain ⟨before, after, hsplit, hle, hbefore, hlater⟩ := lastChange_spec h.sorted hlast
    have huser : item.toUserId = some managerId := by
      have := hw.responsible
      unfold responsibleAt at this
      rwa [hlast] at this
    have hsame : ∀ s, item.changedAt ≤ s → s ≤ t → responsibleAt entry responsibleHistory s = some managerId :=
      fun s hs hst => (responsibleAt_of_lastChange h.sorted hlast hs hst).trans hw.responsible
    rcases le_or_gt entry.movedAt item.changedAt with hin | hout
    · have hitem : responsibleHistory[before.length]? = some item := by
        rw [hsplit, List.getElem?_append_right le_rfl, Nat.sub_self]
        rfl
      exact htenure (before.length + 1) item.changedAt
        (.change hitem huser hw.eligible hin (hle.trans hw.before.le)) hle
        fun s hs hst => hsame s ((le_max_right _ _).trans hs) hst
    · exact htenure 0 entry.movedAt (.atEntry (hsame _ hout.le hafter) hw.eligible) hafter
        fun s hs hst => hsame s (hout.le.trans ((le_max_left _ _).trans hs)) hst
  | none =>
    have hlater : ∀ item ∈ responsibleHistory, t < item.changedAt := by
      intro item hitem
      simpa using List.find?_eq_none.1 hlast item (List.mem_reverse.2 hitem)
    have hsame : ∀ s, s ≤ t → responsibleAt entry responsibleHistory s = some managerId := by
      intro s hst
      refine (responsibleAt_eq fun item hitem => ?_).trans hw.responsible
      have := hlater item hitem
      omega
    exact htenure 0 entry.movedAt (.atEntry (hsame _ hafter) hw.eligible) hafter fun s _ hst => hsame s hst

/-- A position has one manager. -/
theorem Assigned.manager_eq {k : ℕ} {managerId managerId' : User} {a a' : ℤ}
    (h : Assigned entry endAt eligibleManagers responsibleHistory k managerId a)
    (h' : Assigned entry endAt eligibleManagers responsibleHistory k managerId' a') : managerId = managerId' := by
  cases h with
  | atEntry hresponsible _ =>
    cases h' with
    | atEntry hresponsible' _ => exact Option.some.inj (hresponsible.symm.trans hresponsible')
  | change hitem hto _ _ _ =>
    cases h' with
    | change hitem' hto' _ _ _ =>
      cases hitem.symm.trans hitem'
      exact Option.some.inj (hto.symm.trans hto')

variable [DecidableEq User]

/-- The result is the first of the earliest starts. -/
theorem salesResponsibleTaskStart_spec (entry : StageEntry User) (endAt : ℤ) (eligibleManagers : Finset User)
    (tasks : List (TaskFact User)) (h : Chained responsibleHistory) :
    match salesResponsibleTaskStart entry endAt eligibleManagers responsibleHistory tasks with
    | some start => ∃ k, StartsFrom entry endAt eligibleManagers responsibleHistory tasks k start.managerId
          start.startedAt ∧
        ∀ k' managerId s, StartsFrom entry endAt eligibleManagers responsibleHistory tasks k' managerId s →
          start.startedAt ≤ s ∧ (s = start.startedAt → k ≤ k')
    | none => ∀ k managerId s, ¬ StartsFrom entry endAt eligibleManagers responsibleHistory tasks k managerId s := by
  unfold salesResponsibleTaskStart
  split_ifs with hempty
  · rintro k managerId s ⟨a, task, hassigned, htask, -⟩
    rcases hempty with rfl | rfl
    · cases hassigned with
      | atEntry _ heligible => exact absurd heligible (Finset.notMem_empty _)
      | change _ _ heligible _ _ => exact absurd heligible (Finset.notMem_empty _)
    · cases htask
  · rw [foldl_candidates_eq]
    cases hbest : ((positionedStarts entry endAt eligibleManagers responsibleHistory tasks).map Prod.snd).foldl
        (keep Start.startedAt) none with
    | none =>
      intro k managerId s hstart
      have hnil := List.map_eq_nil_iff.1 (foldl_keep_none.1 hbest)
      have hmem := (mem_positionedStarts h).2 hstart
      rw [hnil] at hmem
      cases hmem
    | some start =>
      obtain ⟨k, hk, hleast⟩ := (foldl_keep_some hbest).position_le pairwise_positionedStarts
      refine ⟨k, (mem_positionedStarts h).1 hk, fun k' managerId s hstart => ?_⟩
      exact hleast _ ((mem_positionedStarts h).2 hstart)

/-- The result is the earliest start, with its manager, exactly when the starts of managers who are no longer
responsible come late. -/
theorem salesResponsibleTaskStart_iff (h : Chained responsibleHistory) :
    EarliestWorking entry endAt eligibleManagers responsibleHistory tasks
        (salesResponsibleTaskStart entry endAt eligibleManagers responsibleHistory tasks) ↔
      LeftTasksLate entry endAt eligibleManagers responsibleHistory tasks := by
  have hspec := salesResponsibleTaskStart_spec entry endAt eligibleManagers tasks h
  cases hresult : salesResponsibleTaskStart entry endAt eligibleManagers responsibleHistory tasks with
  | none =>
    rw [hresult] at hspec
    constructor
    · intro _ k managerId s hstart
      exact absurd hstart (hspec k managerId s)
    · intro _ t managerId hw
      obtain ⟨k, s, hstart, -⟩ := hw.start h
      exact hspec k managerId s hstart
  | some start =>
    rw [hresult] at hspec
    obtain ⟨k, hstart, hleast⟩ := hspec
    constructor
    · rintro ⟨hworking, -⟩ k' managerId s hlater hleft
      obtain ⟨hle, hposition⟩ := hleast k' managerId s hlater
      refine ⟨k, start.managerId, start.startedAt, hstart, hworking.responsible, ?_⟩
      rcases hle.lt_or_eq with hlt | heq
      · exact Or.inl hlt
      · refine Or.inr ⟨heq, lt_of_le_of_ne (hposition heq.symm) ?_⟩
        rintro rfl
        obtain ⟨a, -, hassigned, -⟩ := hstart
        obtain ⟨a', -, hassigned', -⟩ := hlater
        exact hleft (by rw [← heq, hworking.responsible, hassigned.manager_eq hassigned'])
    · intro hlate
      have hresponsible : responsibleAt entry responsibleHistory start.startedAt = some start.managerId := by
        by_contra hleft
        obtain ⟨k', managerId', s', hother, -, hearlier⟩ := hlate k start.managerId start.startedAt hstart hleft
        obtain ⟨hle, hposition⟩ := hleast k' managerId' s' hother
        rcases hearlier with hlt | ⟨heq, hlt⟩
        · exact absurd hlt (not_lt.2 hle)
        · exact absurd (hposition heq) (not_le.2 hlt)
      refine ⟨hstart.working hresponsible, fun t managerId hlt hw => ?_⟩
      obtain ⟨k', s, hother, hle, -⟩ := hw.start h
      exact absurd ((hleast k' managerId s hother).1.trans hle) (not_le.2 hlt)

/-- One manager from the entry to the end. -/
theorem salesResponsibleTaskStart_iff_sample :
    EarliestWorking ⟨0, some 1⟩ 100 {1} [] [⟨some 1, 20⟩]
        (salesResponsibleTaskStart (⟨0, some 1⟩ : StageEntry ℕ) 100 {1} [] [⟨some 1, 20⟩]) ↔
      LeftTasksLate (⟨0, some 1⟩ : StageEntry ℕ) 100 {1} [] [⟨some 1, 20⟩] :=
  salesResponsibleTaskStart_iff ⟨List.Pairwise.nil, List.IsChain.nil⟩

/-- Manager 1 is replaced by manager 2 at 10 and gets a task at 20: the start at 20 is credited to manager 1. -/
theorem start_of_replaced_manager :
    Chained [(⟨some 1, some 2, 10⟩ : ResponsibleChange ℕ)] ∧
      salesResponsibleTaskStart (⟨0, some 2⟩ : StageEntry ℕ) 100 {1, 2} [⟨some 1, some 2, 10⟩] [⟨some 1, 20⟩] =
        some ⟨20, 1⟩ ∧
      ¬ EarliestWorking (⟨0, some 2⟩ : StageEntry ℕ) 100 {1, 2} [⟨some 1, some 2, 10⟩] [⟨some 1, 20⟩]
        (salesResponsibleTaskStart ⟨0, some 2⟩ 100 {1, 2} [⟨some 1, some 2, 10⟩] [⟨some 1, 20⟩]) := by
  have hresult : salesResponsibleTaskStart (⟨0, some 2⟩ : StageEntry ℕ) 100 {1, 2} [⟨some 1, some 2, 10⟩]
      [⟨some 1, 20⟩] = some ⟨20, 1⟩ := by decide
  refine ⟨⟨List.pairwise_singleton _ _, List.isChain_singleton _⟩, hresult, ?_⟩
  rw [hresult]
  rintro ⟨hworking, -⟩
  have hresponsible := hworking.responsible
  rw [show responsibleAt (⟨0, some 2⟩ : StageEntry ℕ) [⟨some 1, some 2, 10⟩] 20 = some 2 from rfl] at hresponsible
  exact absurd hresponsible (by decide)

end Earliest

end AmoAnalytics.Reports.SalesStart
