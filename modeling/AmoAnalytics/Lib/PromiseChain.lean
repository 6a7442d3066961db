import AmoAnalytics.Lib.Actors

/-!
# Jobs chained to one another

Jobs are put behind one another by chaining each to the promise of the one before it: the chain keeps its
last promise as its tail, a new job starts when the tail of its time has settled, and becomes the tail.
Nothing but the promises keeps the order. `Serial` says that it is kept: a job that has started has only
settled jobs before it, so at most one job runs, and a settled tail means that all jobs have settled.
-/

namespace AmoAnalytics.PromiseChain

open Actors

/-- A job waits for its turn, runs, writes back what it changed, or has ended either way. -/
inductive Phase
  | queued
  | running
  | saving
  | settled
  deriving DecidableEq

/-- A job, with the job whose promise it was chained to. -/
structure Job where
  owner : ℕ
  after : Option ℕ
  phase : Phase
  deriving DecidableEq

structure Chain where
  jobs : List Job
  tail : Option ℕ
  deriving DecidableEq

namespace Chain

/-- The chain of a promise that is settled from the start. -/
def empty : Chain := ⟨[], none⟩

/-- The promise of the job, or the one that the chain starts with, has settled. -/
def settled (c : Chain) : Option ℕ → Bool
  | none => true
  | some i => c.jobs[i]?.any (·.phase = .settled)

/-- Chain a job to the tail. -/
def push (c : Chain) (owner : ℕ) : Chain :=
  { jobs := c.jobs ++ [⟨owner, c.tail, .queued⟩]
    tail := some c.jobs.length }

/-- A job starts only after the promise it is chained to; it may save more than once. -/
def next (c : Chain) (job : Job) (phase : Phase) : Bool :=
  match job.phase, phase with
  | .queued, .running => c.settled job.after
  | .running, .running => true
  | .running, .saving => true
  | .saving, .running => true
  | .running, .settled => true
  | .saving, .settled => true
  | _, _ => false

/-- The job takes a step. -/
def advance (c : Chain) (i : ℕ) (phase : Phase) : Option Chain :=
  match c.jobs[i]? with
  | none => none
  | some job => if c.next job phase then some { c with jobs := c.jobs.set i { job with phase := phase } } else none

/-- What a step of a job does. -/
theorem advance_some {c c' : Chain} {i : ℕ} {phase : Phase} (h : c.advance i phase = some c') :
    ∃ job, c.jobs[i]? = some job ∧ c.next job phase = true ∧
      c' = { c with jobs := c.jobs.set i { job with phase := phase } } := by
  unfold advance at h
  split at h
  · exact nomatch h
  · rename_i job hjob
    split_ifs at h with hnext
    exact ⟨job, hjob, hnext, (Option.some.inj h).symm⟩

/-- A settled job takes no step. -/
theorem next_ne_settled {c : Chain} {job : Job} {phase : Phase} (h : c.next job phase = true) :
    job.phase ≠ .settled := by
  intro hsettled
  simp [next, hsettled] at h

/-- A queued job starts after the promise it is chained to. -/
theorem settled_of_start {c : Chain} {job : Job} {phase : Phase} (hq : job.phase = .queued)
    (h : c.next job phase = true) : c.settled job.after = true := by
  obtain ⟨owner, after, p⟩ := job
  obtain rfl : p = .queued := hq
  cases phase with
  | running => exact h
  | _ => exact nomatch h

/-! ## Order -/

/-- The promise that a job at this place is chained to. -/
def before : ℕ → Option ℕ
  | 0 => none
  | i + 1 => some i

/-- The jobs are chained one to the next, and a job that has started has only settled ones before it. -/
structure Serial (c : Chain) : Prop where
  tail : c.tail = before c.jobs.length
  after : ∀ (i : ℕ) (job : Job), c.jobs[i]? = some job → job.after = before i
  order : ∀ (i : ℕ) (job : Job), c.jobs[i]? = some job → job.phase ≠ .queued →
    ∀ k < i, ∀ earlier : Job, c.jobs[k]? = some earlier → earlier.phase = .settled

theorem serial_empty : Serial empty := ⟨rfl, fun _ _ h => (nomatch h), fun _ _ h => nomatch h⟩

namespace Serial

variable {c c' : Chain}

/-- Before a settled promise everything has settled. -/
theorem settled_before (h : c.Serial) {i : ℕ} (hsettled : c.settled (before i) = true) :
    ∀ k < i, ∀ job : Job, c.jobs[k]? = some job → job.phase = .settled := by
  intro k hk job hjob
  cases i with
  | zero => exact absurd hk (Nat.not_lt_zero k)
  | succ i =>
    obtain ⟨last, hlast, hphase⟩ := (Option.any_eq_true _ _).1 hsettled
    have hphase : last.phase = .settled := of_decide_eq_true hphase
    rcases Nat.lt_or_ge k i with hlt | hge
    · exact h.order i last hlast (by rw [hphase]; exact nofun) k hlt job hjob
    · obtain rfl : k = i := by omega
      obtain rfl := Option.some.inj (hlast.symm.trans hjob)
      exact hphase
/-- Once all jobs have settled, so has every promise of the chain. -/
theorem settled_of_all (hall : ∀ job ∈ c.jobs, Job.phase job = .settled) {t : Option ℕ}
    (ht : ∀ i, t = some i → i < c.jobs.length) : c.settled t = true := by
  cases t with
  | none => rfl
  | some i =>
    have hi := List.getElem?_eq_getElem (ht i rfl)
    rw [settled, hi]
    exact decide_eq_true (hall _ (List.getElem_mem _))

theorem tail_lt (h : c.Serial) {i : ℕ} (ht : c.tail = some i) : i < c.jobs.length := by
  rw [h.tail] at ht
  cases hlen : c.jobs.length with
  | zero => rw [hlen] at ht; exact nomatch ht
  | succ n =>
    rw [hlen] at ht
    obtain rfl := Option.some.inj ht
    exact Nat.lt_succ_self n

/-- Chaining a job keeps the order. -/
theorem push (h : c.Serial) (owner : ℕ) : (c.push owner).Serial where
  tail := by rw [Chain.push, List.length_append]; rfl
  after := by
    intro i job hjob
    rcases getElem?_append_cases hjob with hold | ⟨hge, hnew⟩
    · exact h.after i job hold
    · obtain rfl := List.mem_singleton.1 hnew
      obtain ⟨hlt, -⟩ := List.getElem?_eq_some_iff.1 hjob
      have hlt : i < c.jobs.length + 1 := by simpa [Chain.push] using hlt
      rw [h.tail, show i = c.jobs.length by omega]
  order := by
    intro i job hjob hphase k hk earlier hearlier
    rcases getElem?_append_cases hjob with hold | ⟨-, hnew⟩
    · rcases getElem?_append_cases hearlier with hold' | ⟨hge, -⟩
      · exact h.order i job hold hphase k hk earlier hold'
      · have := (List.getElem?_eq_some_iff.1 hold).1
        omega
    · obtain rfl := List.mem_singleton.1 hnew
      exact absurd rfl hphase

/-- A job that may take its step has only settled jobs before it. -/
theorem settled_of_next (h : c.Serial) {i : ℕ} {job : Job} {phase : Phase} (hjob : c.jobs[i]? = some job)
    (hnext : c.next job phase = true) :
    ∀ k < i, ∀ earlier : Job, c.jobs[k]? = some earlier → earlier.phase = .settled := by
  by_cases hq : job.phase = .queued
  · refine h.settled_before ?_
    rw [← h.after i job hjob]
    exact settled_of_start hq hnext
  · exact h.order i job hjob hq

/-- A step of a job keeps the order. -/
theorem advance (h : c.Serial) {i : ℕ} {phase : Phase} (hadvance : c.advance i phase = some c') : c'.Serial := by
  obtain ⟨job, hjob, hnext, rfl⟩ := advance_some hadvance
  refine ⟨?_, ?_, ?_⟩
  · exact h.tail.trans (congrArg before (List.length_set).symm)
  · intro j other hother
    rcases getElem?_set_cases hother with ⟨rfl, rfl⟩ | ⟨-, hold⟩
    · exact h.after j job hjob
    · exact h.after j other hold
  · intro j other hother hphase k hk earlier hearlier
    rcases getElem?_set_cases hearlier with ⟨rfl, rfl⟩ | ⟨hki, hold⟩
    · -- A later job that has started would have found this one settled.
      rcases getElem?_set_cases hother with ⟨rfl, -⟩ | ⟨-, hother⟩
      · exact absurd hk (lt_irrefl _)
      · exact absurd (h.order j other hother hphase k hk job hjob) (next_ne_settled hnext)
    · rcases getElem?_set_cases hother with ⟨rfl, -⟩ | ⟨-, hother⟩
      · exact h.settled_of_next hjob hnext k hk earlier hold
      · exact h.order j other hother hphase k hk earlier hold

/-- Two jobs that both run are one job. -/
theorem one_at_a_time (h : c.Serial) {i j : ℕ} {job other : Job} (hi : c.jobs[i]? = some job)
    (hj : c.jobs[j]? = some other) (hjob : job.phase = .running ∨ job.phase = .saving)
    (hother : other.phase = .running ∨ other.phase = .saving) : i = j := by
  have started : ∀ {p : Phase}, p = .running ∨ p = .saving → p ≠ .queued ∧ p ≠ .settled := by
    rintro p (rfl | rfl) <;> exact ⟨nofun, nofun⟩
  rcases Nat.lt_trichotomy i j with hlt | heq | hgt
  · exact absurd (h.order j other hj (started hother).1 i hlt job hi) (started hjob).2
  · exact heq
  · exact absurd (h.order i job hi (started hjob).1 j hgt other hj) (started hother).2

/-- While a job has not settled, some job can take a step. -/
theorem exists_advance (h : c.Serial) {i : ℕ} {job : Job} (hjob : c.jobs[i]? = some job)
    (hphase : job.phase ≠ .settled) : ∃ k ≤ i, ∃ phase, (c.advance k phase).isSome = true := by
  induction i using Nat.strong_induction_on generalizing job with
  | h i ih =>
    cases hcase : job.phase with
    | settled => exact absurd hcase hphase
    | running => exact ⟨i, le_rfl, .settled, by rw [Chain.advance, hjob]; simp [next, hcase]⟩
    | saving => exact ⟨i, le_rfl, .settled, by rw [Chain.advance, hjob]; simp [next, hcase]⟩
    | queued =>
      by_cases hset : c.settled job.after = true
      · exact ⟨i, le_rfl, .running, by rw [Chain.advance, hjob]; simp [next, hcase, hset]⟩
      · rw [h.after i job hjob] at hset
        cases i with
        | zero => exact absurd rfl hset
        | succ n =>
          have hlt : n < c.jobs.length := (Nat.lt_succ_self n).trans (List.getElem?_eq_some_iff.1 hjob).1
          have hn := List.getElem?_eq_getElem hlt
          have hunsettled : c.jobs[n].phase ≠ .settled := by
            intro heq
            refine hset ?_
            rw [before, settled, hn]
            exact decide_eq_true heq
          obtain ⟨k, hk, phase, hadvance⟩ := ih n (Nat.lt_succ_self n) hn hunsettled
          exact ⟨k, hk.trans n.le_succ, phase, hadvance⟩

end Serial

end Chain

end AmoAnalytics.PromiseChain
