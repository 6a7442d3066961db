import AmoAnalytics.CrmControl.SharedSession

/-!
# The invariant of the shared session

`Inv` ties the four fields of the service to the users and sessions: the counter counts the seated users,
all of them are seated in `authSession`, and a closing runs only while nobody is seated. `Fits` says what
one session satisfies, `line` lists the users who wait for a closing. Every step keeps the invariant; the
steps are put together from the few changes that they make.
-/

namespace AmoAnalytics.CrmControl.Session

open PromiseChain Run Actors

/-! ## What is invariant -/

/-- The user will wait for the read before leaving the session. -/
def UserPhase.Keeps (phase : UserPhase) (g i : ℕ) : Prop :=
  phase = .acting g ∨ ∃ k, phase = .awaiting g (some k) ∧ i ≤ k

/-- The user acts in the session or awaits a promise of its chain. -/
def UserPhase.works : UserPhase → Option ℕ
  | .acting g => some g
  | .awaiting g _ => some g
  | _ => none

/-- A session that users may be seated in. -/
def SessionPhase.serving : SessionPhase → Bool
  | .acquiring => true
  | .leased => true
  | .live => true
  | .dropping => true
  | .failed => true
  | _ => false

/-- A session that a closing has not finished with. -/
def SessionPhase.unclosed : SessionPhase → Bool
  | .failed => true
  | .live => true
  | .draining _ => true
  | .closingContext => true
  | .releasing _ => true
  | _ => false

/-- How often `context.close` has been called when the session is in the phase. -/
def SessionPhase.closes : SessionPhase → ℕ
  | .closingContext => 1
  | .releasing _ => 1
  | .closed => 1
  | _ => 0

/-- The phase of a session that is being closed. -/
def Closing.fits (c : Closing) (phase : SessionPhase) : Bool :=
  if c.settled = none then phase.unclosed else phase.over

namespace State

/-- The users who wait for a closing, in the order in which they go on. -/
def line (s : State) : List ℕ :=
  match s.authSessionClosing with
  | none => s.reactions.map Prod.fst
  | some c => if c.settled = none then c.waiters else s.reactions.tail.map Prod.fst

/-- The phase of a session agrees with the fields of the service. -/
structure Placed (s : State) (g : ℕ) (phase : SessionPhase) : Prop where
  serving : s.authSession = some g → phase.serving = true
  closing : ∀ c, s.authSessionClosing = some c → c.session = g → c.fits phase = true
  elsewhere : s.authSession ≠ some g → (∀ c, s.authSessionClosing = some c → c.session ≠ g) → phase.over = true

/-- What a session satisfies in a state. -/
structure Fits (s : State) (g : ℕ) (σ : AuthSession) : Prop where
  serial : σ.reads.Serial
  closes : σ.closes = σ.phase.closes
  drained : ∀ k, σ.phase = .draining (some k) → k < σ.reads.jobs.length
  placed : s.Placed g σ.phase
  live : ∀ (u : ℕ) (user : User), s.users[u]? = some user → user.phase.works = some g → σ.phase = .live
  kept : ∀ (i : ℕ) (job : Job), σ.reads.jobs[i]? = some job → job.phase ≠ .settled →
    ∃ user, s.users[job.owner]? = some user ∧ user.phase.Keeps g i
  awaited : ∀ (u : ℕ) (user : User) (k : ℕ), s.users[u]? = some user → user.phase = .awaiting g (some k) →
    k < σ.reads.jobs.length

/-- The invariant, for a line of waiting users. -/
structure Core (s : State) (line : List ℕ) : Prop where
  count : s.authSessionUsers = s.users.countP fun user => user.phase.seat.isSome
  seated : ∀ (u : ℕ) (user : User) (g : ℕ), s.users[u]? = some user → user.phase.seat = some g →
    s.authSession = some g
  occupied : ∀ g, s.authSession = some g →
    s.authSessionClosing = none ∧ g < s.sessions.length ∧ 0 < s.authSessionUsers
  closer : ∀ c, s.authSessionClosing = some c → c.session < s.sessions.length ∧
    ∃ kind, s.users[c.owner]? = some ⟨kind, .owning c.session⟩
  owning : ∀ (u : ℕ) (user : User) (g : ℕ), s.users[u]? = some user → user.phase = .owning g →
    ∃ c, s.authSessionClosing = some c ∧ c.owner = u ∧ c.session = g
  unsettled : ∀ c, s.authSessionClosing = some c → c.settled = none → s.reactions = []
  settled : ∀ c f, s.authSessionClosing = some c → c.settled = some f →
    ∃ rest, s.reactions = (c.owner, f) :: rest
  inLine : ∀ u, u ∈ line ↔ ∃ user, s.users[u]? = some user ∧ user.phase = .waiting
  nodup : line.Nodup
  fits : ∀ g σ, s.sessions[g]? = some σ → s.Fits g σ

/-- The invariant of the reachable states. -/
def Inv (s : State) : Prop := s.Core s.line

theorem inv_init : State.init.Inv where
  count := rfl
  seated _ _ _ h := nomatch h
  occupied _ h := nomatch h
  closer _ h := nomatch h
  owning _ _ _ h := nomatch h
  unsettled _ h := nomatch h
  settled _ _ h := nomatch h
  inLine _ := ⟨fun h => (nomatch h), fun ⟨_, h, _⟩ => nomatch h⟩
  nodup := List.nodup_nil
  fits _ _ h := nomatch h

variable {s : State} {line : List ℕ}

theorem works_seat {phase : UserPhase} {g : ℕ} (h : phase.works = some g) : phase.seat = some g := by
  cases phase <;> first | exact h | exact nomatch h

theorem keeps_works {phase : UserPhase} {g i : ℕ} (h : phase.Keeps g i) : phase.works = some g := by
  obtain rfl | ⟨k, rfl, -⟩ := h <;> rfl

/-- The count after a user has changed. -/
theorem count_set {users : List User} {u : ℕ} {old new : User} (hu : users[u]? = some old) (p : User → Bool) :
    (users.set u new).countP p + (p old).toNat = users.countP p + (p new).toNat := by
  obtain ⟨hlt, rfl⟩ := List.getElem?_eq_some_iff.1 hu
  rw [List.countP_set hlt]
  have hpos : p users[u] = true → 0 < users.countP p := fun hp =>
    List.countP_pos_iff.2 ⟨_, List.getElem_mem hlt, hp⟩
  cases hold : p users[u] with
  | false => cases p new <;> simp
  | true =>
    have := hpos hold
    cases p new <;> simp <;> omega

/-! ## Changes of one session -/

namespace Core

/-- A session is replaced by one that fits. -/
theorem setSession (h : s.Core line) {g : ℕ} {σ' : AuthSession} (hfits : s.Fits g σ') :
    (s.setSession g σ').Core line where
  count := h.count
  seated := h.seated
  occupied g' hg' := by
    obtain ⟨hclosing, hlt, hpos⟩ := h.occupied g' hg'
    exact ⟨hclosing, by rw [State.setSession, List.length_set]; exact hlt, hpos⟩
  closer c hc := by
    obtain ⟨hlt, howner⟩ := h.closer c hc
    exact ⟨by rw [State.setSession, List.length_set]; exact hlt, howner⟩
  owning := h.owning
  unsettled := h.unsettled
  settled := h.settled
  inLine := h.inLine
  nodup := h.nodup
  fits g' τ hτ := by
    have hfit : s.Fits g' τ := by
      rcases getElem?_set_cases hτ with ⟨rfl, rfl⟩ | ⟨-, hold⟩
      · exact hfits
      · exact h.fits g' τ hold
    exact { hfit with placed := ⟨hfit.placed.serving, hfit.placed.closing, hfit.placed.elsewhere⟩ }

/-- The reads of a session change, and every read that has not settled is kept by its user. -/
theorem setReads (h : s.Core line) {g : ℕ} {σ : AuthSession} {reads : Chain} (hσ : s.sessions[g]? = some σ)
    (hserial : reads.Serial) (hlen : σ.reads.jobs.length ≤ reads.jobs.length)
    (hkept : ∀ (i : ℕ) (job : Job), reads.jobs[i]? = some job → job.phase ≠ .settled →
      ∃ user, s.users[job.owner]? = some user ∧ user.phase.Keeps g i) :
    (s.setSession g { σ with reads := reads }).Core line := by
  have hfit := h.fits g σ hσ
  exact h.setSession
    { hfit with
      serial := hserial
      kept := hkept
      awaited := fun u user k hu hphase => (hfit.awaited u user k hu hphase).trans_le hlen
      drained := fun k hk => (hfit.drained k hk).trans_le hlen }

/-- The phase of a session in which nobody works changes. -/
theorem setPhase (h : s.Core line) {g closes : ℕ} {σ : AuthSession} {phase : SessionPhase}
    (hσ : s.sessions[g]? = some σ) (hcloses : closes = phase.closes) (hplaced : s.Placed g phase)
    (hidle : ∀ (u : ℕ) (user : User), s.users[u]? = some user → user.phase.works ≠ some g)
    (hdrained : ∀ k, phase = .draining (some k) → k < σ.reads.jobs.length) :
    (s.setSession g { σ with phase := phase, closes := closes }).Core line := by
  have hfit := h.fits g σ hσ
  exact h.setSession
    { hfit with
      closes := hcloses
      placed := hplaced
      live := fun u user hu hworks => absurd hworks (hidle u user hu)
      drained := hdrained }

/-! ## Changes of one user -/

/-- A session after a user has changed: it is live if the user works in it now, and the user keeps what is
left of the own reads. -/
theorem fits_setUser {t : State} {g u : ℕ} {σ : AuthSession} {new : User} (h : s.Fits g σ)
    (husers : t.users = s.users.set u new) (hplaced : t.Placed g σ.phase)
    (hlive : new.phase.works = some g → σ.phase = .live)
    (hkept : ∀ (i : ℕ) (job : Job), σ.reads.jobs[i]? = some job → job.phase ≠ .settled →
      ∀ old, job.owner = u → s.users[u]? = some old → old.phase.Keeps g i → new.phase.Keeps g i)
    (hawaited : ∀ k, new.phase = .awaiting g (some k) → k < σ.reads.jobs.length) : t.Fits g σ where
  serial := h.serial
  closes := h.closes
  drained := h.drained
  placed := hplaced
  live v user hv hworks := by
    rw [husers] at hv
    rcases getElem?_set_cases hv with ⟨-, rfl⟩ | ⟨-, hold⟩
    · exact hlive hworks
    · exact h.live v user hold hworks
  kept i job hjob hphase := by
    obtain ⟨old, hold, hkeeps⟩ := h.kept i job hjob hphase
    rw [husers]
    by_cases howner : job.owner = u
    · rw [howner] at hold ⊢
      exact ⟨new, getElem?_set_self_of_some hold, hkept i job hjob hphase old howner hold hkeeps⟩
    · exact ⟨old, by rw [List.getElem?_set_ne (Ne.symm howner)]; exact hold, hkeeps⟩
  awaited v user k hv hphase := by
    rw [husers] at hv
    rcases getElem?_set_cases hv with ⟨-, rfl⟩ | ⟨-, hold⟩
    · exact hawaited k hphase
    · exact h.awaited v user k hold hphase

/-- The line after a user who does not wait has changed into another one who does not. -/
theorem inLine_set (h : s.Core line) {u : ℕ} {old new : User} (hu : s.users[u]? = some old)
    (hold : old.phase ≠ .waiting) (hnew : new.phase ≠ .waiting) (w : ℕ) :
    w ∈ line ↔ ∃ user, (s.users.set u new)[w]? = some user ∧ user.phase = .waiting := by
  rw [h.inLine w]
  by_cases hw : w = u
  · subst hw
    rw [getElem?_set_self_of_some hu, hu]
    constructor
    · rintro ⟨user, huser, hphase⟩
      exact absurd hphase (Option.some.inj huser ▸ hold)
    · rintro ⟨user, huser, hphase⟩
      exact absurd hphase (Option.some.inj huser ▸ hnew)
  · rw [List.getElem?_set_ne (Ne.symm hw)]

/-- A user goes on in the session in which it is seated. -/
theorem reseat (h : s.Core line) {u g : ℕ} {old new : User} {σ : AuthSession} (hu : s.users[u]? = some old)
    (hold : old.phase.seat = some g) (hnew : new.phase.seat = some g) (hσ : s.sessions[g]? = some σ)
    (hlive : σ.phase = .live)
    (hkept : ∀ (i : ℕ) (job : Job), σ.reads.jobs[i]? = some job → old.phase.Keeps g i → new.phase.Keeps g i)
    (hawaited : ∀ k, new.phase = .awaiting g (some k) → k < σ.reads.jobs.length) :
    ({ s with users := s.users.set u new } : State).Core line where
  count := by
    have := @count_set s.users u old new hu fun user => user.phase.seat.isSome
    simp only [hold, hnew, Option.isSome_some] at this
    exact h.count.trans (Nat.add_right_cancel this).symm
  seated v user g' hv hseat := by
    rcases getElem?_set_cases hv with ⟨-, rfl⟩ | ⟨-, hv⟩
    · obtain rfl := Option.some.inj (hnew.symm.trans hseat)
      exact h.seated u old g hu hold
    · exact h.seated v user g' hv hseat
  occupied := h.occupied
  closer c hc := absurd hc (by rw [(h.occupied g (h.seated u old g hu hold)).1]; exact nofun)
  owning v user g' hv hphase := by
    rcases getElem?_set_cases hv with ⟨-, rfl⟩ | ⟨-, hv⟩
    · rw [hphase] at hnew
      exact nomatch hnew
    · exact h.owning v user g' hv hphase
  unsettled := h.unsettled
  settled := h.settled
  inLine := h.inLine_set hu (fun hw => by rw [hw] at hold; exact nomatch hold)
    (fun hw => by rw [hw] at hnew; exact nomatch hnew)
  nodup := h.nodup
  fits g' τ hτ := by
    have hfit := h.fits g' τ hτ
    refine fits_setUser hfit rfl ⟨hfit.placed.serving, hfit.placed.closing, hfit.placed.elsewhere⟩ ?_ ?_ ?_
    · intro hworks
      obtain rfl := Option.some.inj (hnew.symm.trans (works_seat hworks))
      obtain rfl := Option.some.inj (hσ.symm.trans hτ)
      exact hlive
    · intro i job hjob _ old' _ hold' hkeeps
      obtain rfl := Option.some.inj (hu.symm.trans hold')
      obtain rfl := Option.some.inj (hold.symm.trans (works_seat (keeps_works hkeeps)))
      obtain rfl := Option.some.inj (hσ.symm.trans hτ)
      exact hkept i job hjob hkeeps
    · intro k hphase
      obtain rfl := Option.some.inj (hnew.symm.trans (by rw [hphase]; rfl))
      obtain rfl := Option.some.inj (hσ.symm.trans hτ)
      exact hawaited k hphase

/-- A seated user changes into one who is not: nothing waits for the reads that this user has queued. -/
theorem fits_depart (h : s.Core line) {t : State} {u g g' : ℕ} {old new : User} {σ τ : AuthSession}
    (hu : s.users[u]? = some old) (hold : old.phase.seat = some g) (hnew : new.phase.seat = none)
    (hσ : s.sessions[g]? = some σ) (hτ : s.sessions[g']? = some τ)
    (hdone : ∀ (i : ℕ) (job : Job), σ.reads.jobs[i]? = some job → old.phase.Keeps g i → job.phase = .settled)
    (husers : t.users = s.users.set u new) (hplaced : t.Placed g' τ.phase) : t.Fits g' τ := by
  refine fits_setUser (h.fits g' τ hτ) husers hplaced ?_ ?_ ?_
  · intro hworks
    exact nomatch hnew.symm.trans (works_seat hworks)
  · intro i job hjob hphase old' _ hold' hkeeps
    obtain rfl := Option.some.inj (hu.symm.trans hold')
    obtain rfl := Option.some.inj (hold.symm.trans (works_seat (keeps_works hkeeps)))
    obtain rfl := Option.some.inj (hσ.symm.trans hτ)
    exact absurd (hdone i job hjob hkeeps) hphase
  · intro k hphase
    rw [hphase] at hnew
    exact nomatch hnew

/-- The count after a seated user has changed into one who is not. -/
theorem count_depart (h : s.Core line) {u g : ℕ} {old new : User} (hu : s.users[u]? = some old)
    (hold : old.phase.seat = some g) (hnew : new.phase.seat = none) :
    s.authSessionUsers - 1 = (s.users.set u new).countP fun user => user.phase.seat.isSome := by
  have hset := @count_set s.users u old new hu fun user => user.phase.seat.isSome
  have hcount := h.count
  simp only [hold, hnew, Option.isSome_some, Option.isSome_none, Bool.toNat_true, Bool.toNat_false] at hset
  omega

/-- The last user leaves and begins the closing. -/
theorem leave_last (h : s.Core line) {u g : ℕ} {kind : UserKind} {old : User} {σ : AuthSession}
    (hu : s.users[u]? = some old) (hold : old.phase.seat = some g) (hσ : s.sessions[g]? = some σ)
    (hdone : ∀ (i : ℕ) (job : Job), σ.reads.jobs[i]? = some job → old.phase.Keeps g i → job.phase = .settled)
    (hphase : σ.phase = .live ∨ σ.phase = .failed) (hquiet : s.reactions = []) (hlast : s.authSessionUsers - 1 = 0) :
    ({ s.setUser u kind (.owning g) with
        authSessionUsers := s.authSessionUsers - 1
        authSession := none
        authSessionClosing := some ⟨g, u, [], none⟩ } : State).Core line := by
  have hauth := h.seated u old g hu hold
  obtain ⟨hnone, hlt, hpos⟩ := h.occupied g hauth
  have hcount : s.authSessionUsers - 1 =
      (s.users.set u ⟨kind, .owning g⟩).countP fun user => user.phase.seat.isSome := h.count_depart hu hold rfl
  have hempty : ∀ (v : ℕ) (user : User), (s.users.set u ⟨kind, .owning g⟩)[v]? = some user →
      user.phase.seat = none := by
    intro v user hv
    have hzero := List.countP_eq_zero.1 (hcount.symm.trans hlast) user (List.mem_of_getElem? hv)
    exact Option.not_isSome_iff_eq_none.1 hzero
  refine ⟨hcount, ?_, nofun, ?_, ?_, ?_, ?_, ?_, h.nodup, ?_⟩
  · intro v user g' hv hseat
    exact nomatch hseat.symm.trans (hempty v user hv)
  · rintro c hc
    obtain rfl := Option.some.inj hc
    exact ⟨hlt, kind, getElem?_set_self_of_some hu⟩
  · intro v user g' hv hown
    rcases getElem?_set_cases hv with ⟨rfl, rfl⟩ | ⟨-, hv⟩
    · obtain rfl := UserPhase.owning.inj hown
      exact ⟨_, rfl, rfl, rfl⟩
    · obtain ⟨c, hc, -⟩ := h.owning v user g' hv hown
      exact nomatch hnone.symm.trans hc
  · exact fun _ _ _ => hquiet
  · rintro c f hc hset
    obtain rfl := Option.some.inj hc
    exact nomatch hset
  · exact h.inLine_set hu (fun hw => by rw [hw] at hold; exact nomatch hold) nofun
  · intro g' τ hτ
    refine @fits_depart s line h _ u g g' old ⟨kind, .owning g⟩ σ τ hu hold rfl hσ hτ hdone rfl ⟨nofun, ?_, ?_⟩
    · rintro c hc rfl
      obtain rfl := Option.some.inj hc
      obtain rfl := Option.some.inj (hσ.symm.trans hτ)
      obtain hphase | hphase := hphase <;> rw [hphase] <;> rfl
    · intro _ hne
      refine (h.fits g' τ hτ).placed.elsewhere ?_ fun c hc => nomatch hnone.symm.trans hc
      intro hg
      exact hne _ rfl (Option.some.inj (hauth.symm.trans hg))

/-- Another user leaves. -/
theorem leave_other (h : s.Core line) {u g : ℕ} {kind : UserKind} {old : User} {σ : AuthSession}
    (hu : s.users[u]? = some old) (hold : old.phase.seat = some g) (hσ : s.sessions[g]? = some σ)
    (hdone : ∀ (i : ℕ) (job : Job), σ.reads.jobs[i]? = some job → old.phase.Keeps g i → job.phase = .settled)
    (hmore : s.authSessionUsers - 1 ≠ 0) :
    ({ s.setUser u kind (.done g) with authSessionUsers := s.authSessionUsers - 1 } : State).Core line where
  count := h.count_depart hu hold rfl
  seated v user g' hv hseat := by
    rcases getElem?_set_cases hv with ⟨-, rfl⟩ | ⟨-, hv⟩
    · cases hseat
    · exact h.seated v user g' hv hseat
  occupied g' hg' := ⟨(h.occupied g' hg').1, (h.occupied g' hg').2.1, Nat.pos_of_ne_zero hmore⟩
  closer c hc := by
    rw [State.setUser, (h.occupied g (h.seated u old g hu hold)).1] at hc
    cases hc
  owning v user g' hv hown := by
    rcases getElem?_set_cases hv with ⟨-, rfl⟩ | ⟨-, hv⟩
    · cases hown
    · exact h.owning v user g' hv hown
  unsettled := h.unsettled
  settled := h.settled
  inLine := h.inLine_set hu (fun hw => by rw [hw] at hold; cases hold) UserPhase.noConfusion
  nodup := h.nodup
  fits g' τ hτ :=
    have hplaced := (h.fits g' τ hτ).placed
    @fits_depart s line h _ u g g' old ⟨kind, .done g⟩ σ τ hu hold rfl hσ hτ hdone rfl
      ⟨hplaced.serving, hplaced.closing, hplaced.elsewhere⟩

/-- A seated user leaves whose reads have settled. -/
theorem leave (h : s.Core line) {u g : ℕ} {kind : UserKind} {old : User} {σ : AuthSession}
    (hu : s.users[u]? = some old) (hold : old.phase.seat = some g) (hσ : s.sessions[g]? = some σ)
    (hdone : ∀ (i : ℕ) (job : Job), σ.reads.jobs[i]? = some job → old.phase.Keeps g i → job.phase = .settled)
    (hphase : σ.phase = .live ∨ σ.phase = .failed) (hquiet : s.reactions = []) : (s.leave u kind g).Core line := by
  have hauth := h.seated u old g hu hold
  unfold State.leave
  by_cases hlast : s.authSessionUsers - 1 = 0
  · rw [if_pos ⟨hlast, hauth⟩]
    exact h.leave_last hu hold hσ hdone hphase hquiet hlast
  · rw [if_neg fun hand => hlast hand.1]
    exact h.leave_other hu hold hσ hdone hlast

/-! ## The closing -/

/-- While a closing is under way nobody is seated. -/
theorem authSession_none (h : s.Core line) {c : Closing} (hc : s.authSessionClosing = some c) :
    s.authSession = none := by
  cases hauth : s.authSession with
  | none => rfl
  | some g => exact nomatch (h.occupied g hauth).1.symm.trans hc

/-- In a session in which nobody is seated all reads have settled. -/
theorem all_settled (h : s.Core line) {g : ℕ} {σ : AuthSession} (hσ : s.sessions[g]? = some σ)
    (hg : s.authSession ≠ some g) : ∀ job ∈ σ.reads.jobs, Job.phase job = .settled := by
  intro job hjob
  by_contra hphase
  obtain ⟨i, hi⟩ := List.mem_iff_getElem?.1 hjob
  obtain ⟨user, huser, hkeeps⟩ := (h.fits g σ hσ).kept i job hi hphase
  exact hg (h.seated _ user g huser (works_seat (keeps_works hkeeps)))

/-- Nobody works in a session in which nobody is seated. -/
theorem idle (h : s.Core line) {g : ℕ} (hg : s.authSession ≠ some g) (u : ℕ) (user : User)
    (hu : s.users[u]? = some user) : user.phase.works ≠ some g :=
  fun hworks => hg (h.seated u user g hu (works_seat hworks))

/-- A step of the closing that does not settle it. -/
theorem closing_step (h : s.Core line) {c : Closing} {σ : AuthSession} {phase : SessionPhase} {closes : ℕ}
    (hc : s.authSessionClosing = some c) (hset : c.settled = none) (hσ : s.sessions[c.session]? = some σ)
    (hcloses : closes = phase.closes) (hunclosed : phase.unclosed = true)
    (hdrained : ∀ k, phase = .draining (some k) → k < σ.reads.jobs.length) :
    (s.setSession c.session { σ with phase := phase, closes := closes }).Core line := by
  have hnone := h.authSession_none hc
  refine h.setPhase hσ hcloses ⟨fun hg => (nomatch hnone.symm.trans hg), ?_, ?_⟩ (h.idle ?_) hdrained
  · intro c' hc' _
    obtain rfl := Option.some.inj (hc.symm.trans hc')
    rw [Closing.fits, if_pos hset]
    exact hunclosed
  · exact fun _ hne => absurd rfl (hne c hc)
  · rw [hnone]
    exact nofun

/-- The step that settles the closing. -/
theorem settle (h : s.Core line) {c : Closing} {σ : AuthSession} {phase : SessionPhase} {closes : ℕ} {failed : Bool}
    (hc : s.authSessionClosing = some c) (hσ : s.sessions[c.session]? = some σ)
    (hcloses : closes = phase.closes) (hover : phase.over = true) :
    ((s.setSession c.session { σ with phase := phase, closes := closes }).settle c failed).Core line := by
  have hnone := h.authSession_none hc
  have hidle := h.idle (g := c.session) (by rw [hnone]; exact nofun)
  refine ⟨h.count, h.seated, fun g hg => (nomatch hnone.symm.trans hg), ?_, ?_, ?_, ?_, h.inLine, h.nodup, ?_⟩
  · rintro c' hc'
    obtain rfl := Option.some.inj hc'
    obtain ⟨hlt, howner⟩ := h.closer c hc
    exact ⟨by rw [State.settle, State.setSession, List.length_set]; exact hlt, howner⟩
  · intro v user g hv hown
    obtain ⟨c', hc', howner, hsession⟩ := h.owning v user g hv hown
    obtain rfl := Option.some.inj (hc.symm.trans hc')
    exact ⟨_, rfl, howner, hsession⟩
  · rintro c' hc' hset
    obtain rfl := Option.some.inj hc'
    exact nomatch hset
  · rintro c' f hc' hset
    obtain rfl := Option.some.inj hc'
    obtain rfl := Option.some.inj hset
    exact ⟨_, rfl⟩
  · intro g τ hτ
    rcases getElem?_set_cases hτ with ⟨rfl, rfl⟩ | ⟨hne, hold⟩
    · have hfit := h.fits c.session σ hσ
      refine { hfit with closes := hcloses, drained := ?_, placed := ?_, live := ?_ }
      · rintro k hk
        rw [show phase = .draining (some k) from hk] at hover
        exact nomatch hover
      · refine ⟨fun hg => (nomatch hnone.symm.trans hg), ?_, fun _ _ => hover⟩
        rintro c' hc' _
        obtain rfl := Option.some.inj hc'
        exact hover
      · exact fun v user hv hworks => absurd hworks (hidle v user hv)
    · have hfit := h.fits g τ hold
      refine { hfit with placed := ⟨fun hg => (nomatch hnone.symm.trans hg), ?_, ?_⟩ }
      · rintro c' hc' rfl
        obtain rfl := Option.some.inj hc'
        exact absurd rfl hne
      · intro hg _
        refine hfit.placed.elsewhere hg fun c' hc' hsession => ?_
        obtain rfl := Option.some.inj (hc.symm.trans hc')
        exact hne hsession.symm

/-! ## Reactions -/

/-- The user who has begun the closing goes on. -/
theorem resume_owner (h : s.Core line) {u g : ℕ} {kind : UserKind} {old : User} {rest : List (ℕ × Bool)}
    (hu : s.users[u]? = some old) (hold : old.phase = .owning g) (hreactions : s.reactions ≠ []) :
    ({ s.setUser u kind (.done g) with reactions := rest, authSessionClosing := none } : State).Core line := by
  obtain ⟨c, hc, howner, hsession⟩ := h.owning u old g hu hold
  have hset : c.settled ≠ none := fun hset => hreactions (h.unsettled c hc hset)
  have hnone := h.authSession_none hc
  refine ⟨?_, ?_, fun g hg => (nomatch hnone.symm.trans hg), nofun, ?_, nofun, nofun, ?_, h.nodup, ?_⟩
  · have := @count_set s.users u old ⟨kind, .done g⟩ hu fun user => user.phase.seat.isSome
    rw [hold] at this
    exact h.count.trans this.symm
  · intro v user g' hv hseat
    rcases getElem?_set_cases hv with ⟨-, rfl⟩ | ⟨-, hv⟩
    · exact nomatch hseat
    · exact h.seated v user g' hv hseat
  · intro v user g' hv hown
    rcases getElem?_set_cases hv with ⟨-, rfl⟩ | ⟨hne, hv⟩
    · exact nomatch hown
    · obtain ⟨c', hc', howner', -⟩ := h.owning v user g' hv hown
      obtain rfl := Option.some.inj (hc.symm.trans hc')
      exact absurd (howner'.symm.trans howner) hne
  · exact h.inLine_set hu (fun hw => nomatch hold.symm.trans hw) nofun
  · intro g' τ hτ
    have hfit := h.fits g' τ hτ
    refine @fits_setUser s _ g' u τ ⟨kind, .done g⟩ hfit rfl ⟨fun hg => (nomatch hnone.symm.trans hg), nofun, ?_⟩
      nofun ?_ nofun
    · intro _ _
      by_cases heq : c.session = g'
      · have hfits := hfit.placed.closing c hc heq
        rwa [Closing.fits, if_neg hset] at hfits
      · refine hfit.placed.elsewhere (by rw [hnone]; exact nofun) fun c' hc' => ?_
        obtain rfl := Option.some.inj (hc.symm.trans hc')
        exact heq
    · intro i job _ _ old' _ hold' hkeeps
      obtain rfl := Option.some.inj (hu.symm.trans hold')
      rw [hold] at hkeeps
      exact nomatch keeps_works hkeeps

/-- The line after its first user has stopped waiting. -/
theorem inLine_leave {rest : List ℕ} {u : ℕ} (h : s.Core (u :: rest)) {new : User} (hnew : new.phase ≠ .waiting)
    (w : ℕ) : w ∈ rest ↔ ∃ user, (s.users.set u new)[w]? = some user ∧ user.phase = .waiting := by
  obtain ⟨old, hu, -⟩ := (h.inLine u).1 List.mem_cons_self
  by_cases hw : w = u
  · subst hw
    constructor
    · exact fun hmem => absurd hmem (List.nodup_cons.1 h.nodup).1
    · rintro ⟨user, huser, hphase⟩
      rw [getElem?_set_self_of_some hu] at huser
      exact absurd hphase (Option.some.inj huser ▸ hnew)
  · rw [List.getElem?_set_ne (Ne.symm hw), ← h.inLine w, List.mem_cons]
    exact ⟨Or.inr, fun hor => hor.resolve_left hw⟩

/-- Without a closing the reactions that are left do not matter. -/
theorem setReactions (h : s.Core line) (hnone : s.authSessionClosing = none) (reactions : List (ℕ × Bool)) :
    ({ s with reactions := reactions } : State).Core line :=
  { h with
    unsettled := fun _ hc => nomatch hnone.symm.trans hc
    settled := fun _ _ hc => nomatch hnone.symm.trans hc
    fits := fun g σ hσ =>
      have hfit := h.fits g σ hσ
      { hfit with placed := ⟨hfit.placed.serving, hfit.placed.closing, hfit.placed.elsewhere⟩ } }

/-- The user who waited is rejected. -/
theorem reject {u : ℕ} {kind : UserKind} (h : s.Core (u :: line)) :
    (s.setUser u kind .rejected).Core line := by
  obtain ⟨old, hu, hold⟩ := (h.inLine u).1 List.mem_cons_self
  have hcases : ∀ {v : ℕ} {user : User}, (s.users.set u ⟨kind, .rejected⟩)[v]? = some user →
      user.phase = .rejected ∨ s.users[v]? = some user := by
    intro v user hv
    rcases getElem?_set_cases hv with ⟨-, rfl⟩ | ⟨-, hv⟩
    · exact Or.inl rfl
    · exact Or.inr hv
  refine ⟨?_, ?_, h.occupied, ?_, ?_, h.unsettled, h.settled, h.inLine_leave UserPhase.noConfusion,
    (List.nodup_cons.1 h.nodup).2, ?_⟩
  · have := @count_set s.users u old ⟨kind, .rejected⟩ hu fun user => user.phase.seat.isSome
    rw [hold] at this
    exact h.count.trans this.symm
  · intro v user g hv hseat
    rcases hcases hv with hphase | hv
    · rw [hphase] at hseat
      cases hseat
    · exact h.seated v user g hv hseat
  · intro c hc
    obtain ⟨hlt, kind', howner⟩ := h.closer c hc
    refine ⟨hlt, kind', ?_⟩
    rw [State.setUser, List.getElem?_set_ne, howner]
    rintro rfl
    obtain rfl := Option.some.inj (hu.symm.trans howner)
    cases hold
  · intro v user g hv hown
    rcases hcases hv with hphase | hv
    · cases hphase.symm.trans hown
    · exact h.owning v user g hv hown
  · intro g σ hσ
    have hfit := h.fits g σ hσ
    refine @fits_setUser s _ g u σ ⟨kind, .rejected⟩ hfit rfl
      ⟨hfit.placed.serving, hfit.placed.closing, hfit.placed.elsewhere⟩ (fun h => by cases h) ?_
      (fun _ h => by cases h)
    intro i job _ _ old' _ hold' hkeeps
    obtain rfl := Option.some.inj (hu.symm.trans hold')
    rw [hold] at hkeeps
    cases keeps_works hkeeps

/-! ## Entering -/

/-- The user who waited joins a session. -/
theorem enter {u : ℕ} (h : s.Core (u :: line)) (hnone : s.authSessionClosing = none) (kind : UserKind) :
    (s.enter u kind).Core line := by
  obtain ⟨old, hu, hold⟩ := (h.inLine u).1 List.mem_cons_self
  have hstays : ∀ (v : ℕ) (user : User) (g : ℕ), s.users[v]? = some user → user.phase.seat = some g →
      s.target = g := by
    intro v user g hv hseat
    rw [target, h.seated v user g hv hseat]
    rfl
  have hgone : ∀ {g i : ℕ} {old' : User}, s.users[u]? = some old' → ¬ old'.phase.Keeps g i := by
    intro g i old' hold' hkeeps
    obtain rfl := Option.some.inj (hu.symm.trans hold')
    rw [hold] at hkeeps
    exact nomatch keeps_works hkeeps
  rw [enter_eq]
  refine ⟨?_, ?_, ?_, fun c hc => (nomatch hnone.symm.trans hc), ?_, fun c hc => (nomatch hnone.symm.trans hc),
    fun c f hc => (nomatch hnone.symm.trans hc), h.inLine_leave nofun, (List.nodup_cons.1 h.nodup).2, ?_⟩
  · have := @count_set s.users u old ⟨kind, .joined s.target⟩ hu fun user => user.phase.seat.isSome
    rw [hold] at this
    exact (congrArg (· + 1) h.count).trans this.symm
  · intro v user g hv hseat
    rcases getElem?_set_cases hv with ⟨-, rfl⟩ | ⟨-, hv⟩
    · exact hseat
    · exact congrArg some (hstays v user g hv hseat)
  · rintro g hg
    obtain rfl := Option.some.inj hg
    refine ⟨hnone, ?_, Nat.succ_pos _⟩
    cases hauth : s.authSession with
    | none => simp [target, hauth]
    | some g => simpa [target, hauth] using (h.occupied g hauth).2.1
  · intro v user g hv hown
    rcases getElem?_set_cases hv with ⟨-, rfl⟩ | ⟨-, hv⟩
    · exact nomatch hown
    · obtain ⟨c, hc, -⟩ := h.owning v user g hv hown
      exact nomatch hnone.symm.trans hc
  · intro g σ hσ
    have hcases : s.sessions[g]? = some σ ∨ (s.authSession = none ∧ g = s.sessions.length ∧ σ = .opening) := by
      simp only at hσ
      split_ifs at hσ with hauth
      · rcases getElem?_append_cases hσ with hold | ⟨hge, hnew⟩
        · exact Or.inl hold
        · have hlt := (List.getElem?_eq_some_iff.1 hσ).1
          rw [List.length_append, List.length_singleton] at hlt
          exact Or.inr ⟨hauth, by omega, List.mem_singleton.1 hnew⟩
      · exact Or.inl hσ
    obtain hσ | ⟨hauth, rfl, rfl⟩ := hcases
    · have hfit := h.fits g σ hσ
      refine @fits_setUser s _ g u σ ⟨kind, .joined s.target⟩ hfit rfl ⟨?_, hfit.placed.closing, ?_⟩ nofun
        (fun i job _ _ old' _ hold' hkeeps => absurd hkeeps (hgone hold')) nofun
      · intro hg
        obtain rfl := Option.some.inj hg
        cases hauth : s.authSession with
        | none =>
          have hlt := (List.getElem?_eq_some_iff.1 hσ).1
          simp [target, hauth] at hlt
        | some g => exact hfit.placed.serving (by simp [target, hauth])
      · intro hg _
        refine hfit.placed.elsewhere (fun hauth => hg ?_) fun c hc => nomatch hnone.symm.trans hc
        rw [target, hauth]
        rfl
    · have hnobody : ∀ (v : ℕ) (user : User), (s.users.set u ⟨kind, .joined s.target⟩)[v]? = some user →
          user.phase.works = none := by
        intro v user hv
        rcases getElem?_set_cases hv with ⟨-, rfl⟩ | ⟨-, hv⟩
        · rfl
        · cases hworks : user.phase.works with
          | none => rfl
          | some g => exact nomatch hauth.symm.trans (h.seated v user g hv (works_seat hworks))
      refine ⟨Chain.serial_empty, rfl, nofun, ⟨fun _ => rfl, fun c hc => (nomatch hnone.symm.trans hc), ?_⟩, ?_,
        nofun, ?_⟩
      · intro hne _
        exact absurd (by simp [target, hauth]) hne
      · intro v user hv hworks
        exact nomatch (hnobody v user hv).symm.trans hworks
      · intro v user k hv hphase
        have hworks := hnobody v user hv
        rw [hphase] at hworks
        exact nomatch hworks

/-! ## Arriving -/

/-- A new user waits. -/
theorem append (h : s.Core line) (kind : UserKind) :
    (s.withUser kind).Core (s.users.length :: line) := by
  have hcases : ∀ {v : ℕ} {user : User}, (s.users ++ [⟨kind, .waiting⟩])[v]? = some user →
      s.users[v]? = some user ∨ user.phase = .waiting := by
    intro v user hv
    rcases getElem?_append_cases hv with hold | ⟨-, hnew⟩
    · exact Or.inl hold
    · exact Or.inr (List.mem_singleton.1 hnew ▸ rfl)
  refine ⟨?_, ?_, h.occupied, ?_, ?_, h.unsettled, h.settled, ?_, ?_, ?_⟩
  · rw [withUser, List.countP_append]
    exact h.count
  · intro v user g hv hseat
    rcases hcases hv with hv | hphase
    · exact h.seated v user g hv hseat
    · rw [hphase] at hseat
      exact nomatch hseat
  · intro c hc
    obtain ⟨hlt, kind', howner⟩ := h.closer c hc
    exact ⟨hlt, kind', getElem?_append_of_some howner⟩
  · intro v user g hv hown
    rcases hcases hv with hv | hphase
    · exact h.owning v user g hv hown
    · exact nomatch hphase.symm.trans hown
  · intro w
    rw [List.mem_cons, h.inLine w]
    constructor
    · rintro (rfl | ⟨user, huser, hphase⟩)
      · exact ⟨⟨kind, .waiting⟩, List.getElem?_concat_length, rfl⟩
      · exact ⟨user, getElem?_append_of_some huser, hphase⟩
    · rintro ⟨user, huser, hphase⟩
      rcases Nat.lt_or_ge w s.users.length with hlt | hge
      · rw [withUser, List.getElem?_append_left hlt] at huser
        exact Or.inr ⟨user, huser, hphase⟩
      · have hlt := (List.getElem?_eq_some_iff.1 huser).1
        rw [withUser, List.length_append, List.length_singleton] at hlt
        exact Or.inl (by omega)
  · refine List.nodup_cons.2 ⟨fun hmem => ?_, h.nodup⟩
    obtain ⟨user, huser, -⟩ := (h.inLine _).1 hmem
    exact absurd (List.getElem?_eq_some_iff.1 huser).1 (lt_irrefl _)
  · intro g σ hσ
    have hfit := h.fits g σ hσ
    refine { hfit with
      placed := ⟨hfit.placed.serving, hfit.placed.closing, hfit.placed.elsewhere⟩
      live := ?_
      kept := ?_
      awaited := ?_ }
    · intro v user hv hworks
      rcases hcases hv with hv | hphase
      · exact hfit.live v user hv hworks
      · rw [hphase] at hworks
        exact nomatch hworks
    · intro i job hjob hphase
      obtain ⟨user, huser, hkeeps⟩ := hfit.kept i job hjob hphase
      exact ⟨user, getElem?_append_of_some huser, hkeeps⟩
    · intro v user k hv hphase
      rcases hcases hv with hv | hwaiting
      · exact hfit.awaited v user k hv hphase
      · exact nomatch hwaiting.symm.trans hphase

/-- The order of the line does not matter. -/
theorem perm {line' : List ℕ} (h : s.Core line) (hperm : line.Perm line') : s.Core line' :=
  { h with
    inLine := fun u => by rw [← h.inLine u]; exact hperm.mem_iff.symm
    nodup := hperm.nodup_iff.1 h.nodup }

/-- The new user waits for the closing under way. -/
theorem await (h : s.Core line) {c : Closing} (hc : s.authSessionClosing = some c) (hset : c.settled = none)
    (waiters : List ℕ) : ({ s with authSessionClosing := some { c with waiters := waiters } } : State).Core line := by
  have hnone := h.authSession_none hc
  refine ⟨h.count, h.seated, fun g hg => (nomatch hnone.symm.trans hg), ?_, ?_, ?_, ?_, h.inLine, h.nodup, ?_⟩
  · rintro c' hc'
    obtain rfl := Option.some.inj hc'
    exact h.closer c hc
  · intro v user g hv hown
    obtain ⟨c', hc', howner⟩ := h.owning v user g hv hown
    obtain rfl := Option.some.inj (hc.symm.trans hc')
    exact ⟨_, rfl, howner⟩
  · rintro c' hc' _
    exact h.unsettled c hc hset
  · rintro c' f hc' hset'
    obtain rfl := Option.some.inj hc'
    exact nomatch hset.symm.trans hset'
  · intro g σ hσ
    have hfit := h.fits g σ hσ
    refine { hfit with placed := ⟨hfit.placed.serving, ?_, ?_⟩ }
    · rintro c' hc' hsession
      obtain rfl := Option.some.inj hc'
      exact hfit.placed.closing c hc hsession
    · intro hg hne
      refine hfit.placed.elsewhere hg fun c' hc' => ?_
      obtain rfl := Option.some.inj (hc.symm.trans hc')
      have hsession := hne _ rfl
      exact hsession

/-- The new user's reaction is queued behind those of a settled closing. -/
theorem behind (h : s.Core line) {c : Closing} {f : Bool} (hc : s.authSessionClosing = some c)
    (hset : c.settled = some f) (more : List (ℕ × Bool)) :
    ({ s with reactions := s.reactions ++ more } : State).Core line :=
  { h with
    unsettled := by
      intro c' hc' hset'
      obtain rfl := Option.some.inj (hc.symm.trans hc')
      exact nomatch hset.symm.trans hset'
    settled := by
      intro c' f' hc' hset'
      obtain ⟨rest, hrest⟩ := h.settled c' f' hc' hset'
      exact ⟨rest ++ more, by rw [hrest]; rfl⟩
    fits := fun g σ hσ =>
      have hfit := h.fits g σ hσ
      { hfit with placed := ⟨hfit.placed.serving, hfit.placed.closing, hfit.placed.elsewhere⟩ } }

end Core

/-! ## Steps -/

theorem quiet_some {t : Option State} {t' : State} (h : s.quiet t = some t') : s.reactions = [] ∧ t = some t' := by
  unfold quiet at h
  split_ifs at h with hr
  exact ⟨hr, h⟩

namespace Inv

theorem arrive (h : s.Inv) (kind : UserKind) : (s.arrive kind).Inv := by
  have happend := Core.append h kind
  cases hc : s.authSessionClosing with
  | none =>
    have hline : ((s.withUser kind).enter s.users.length kind).line = s.line := by
      simp [enter_eq, line, setUser, withUser, hc]
    rw [arrive_enter hc, Inv, hline]
    exact Core.enter happend hc kind
  | some c =>
    cases hset : c.settled with
    | none =>
      have hline : s.line = c.waiters := by simp [line, hc, hset]
      have hnew : ({ s.withUser kind with
          authSessionClosing := some { c with waiters := c.waiters ++ [s.users.length] } } : State).line =
          c.waiters ++ [s.users.length] := by
        simp [line, hset]
      rw [hline] at happend
      rw [arrive_wait hc hset, Inv, hnew]
      exact Core.perm (Core.await happend hc hset _) (List.perm_append_singleton _ _).symm
    | some f =>
      obtain ⟨rest, hrest⟩ := h.settled c f hc hset
      have hline : s.line = rest.map Prod.fst := by simp [line, hc, hset, hrest]
      have hnew : ({ s.withUser kind with reactions := s.reactions ++ [(s.users.length, f)] } : State).line =
          rest.map Prod.fst ++ [s.users.length] := by
        simp [line, withUser, hc, hset, hrest]
      rw [hline] at happend
      rw [arrive_behind hc hset, Inv, hnew]
      exact Core.perm (Core.behind happend hc hset _) (List.perm_append_singleton _ _).symm

theorem resume {t : State} (h : s.Inv) (ht : s.resume = some t) : t.Inv := by
  unfold State.resume at ht
  split at ht
  · exact nomatch ht
  · rename_i u failed rest hr
    split at ht
    · rename_i kind g hu
      obtain ⟨c, hc, howner, -⟩ := h.owning u _ g hu rfl
      have hline : s.line = rest.map Prod.fst := by
        have hset : c.settled ≠ none := fun hset => nomatch hr.symm.trans (h.unsettled c hc hset)
        simp [line, hc, hset, hr]
      obtain rfl := Option.some.inj ht
      have hcore := @Core.resume_owner s s.line h u g kind _ rest hu rfl (by rw [hr]; exact nofun)
      rw [hc, Option.map_some, if_pos (congrArg some howner), Inv, line]
      exact hline ▸ hcore
    · rename_i kind hu
      -- Only who has begun a closing stands before its waiters.
      have hnone : s.authSessionClosing = none := by
        cases hc : s.authSessionClosing with
        | none => rfl
        | some c =>
          cases hset : c.settled with
          | none => exact nomatch hr.symm.trans (h.unsettled c hc hset)
          | some f =>
            obtain ⟨rest', hrest⟩ := h.settled c f hc hset
            obtain ⟨-, kind', howner⟩ := h.closer c hc
            obtain rfl : u = c.owner := congrArg Prod.fst (List.cons.inj (hr.symm.trans hrest)).1
            exact nomatch hu.symm.trans howner
      have hline : s.line = u :: rest.map Prod.fst := by simp [line, hnone, hr]
      have hcore := Core.setReactions h hnone rest
      rw [hline] at hcore
      split_ifs at ht
      · obtain rfl := Option.some.inj ht
        have hline' : ({ s.setUser u kind .rejected with reactions := rest } : State).line = rest.map Prod.fst := by
          simp [line, setUser, hnone]
        rw [Inv, hline']
        exact Core.reject hcore
      · obtain rfl := Option.some.inj ht
        have hline' : (State.enter { s with reactions := rest } u kind).line = rest.map Prod.fst := by
          rw [enter_eq, line]
          simp [setUser, hnone]
        rw [Inv, hline']
        exact Core.enter hcore hnone kind
    · exact nomatch ht

/-- A session that is being opened is the current one. -/
theorem opening_current (h : s.Inv) {g : ℕ} {σ : AuthSession} {phase : SessionPhase}
    (hσ : s.sessions[g]? = some σ) (hopens : σ.phase.opens phase = true) : s.authSession = some g := by
  have hplaced := (h.fits g σ hσ).placed
  have hover : σ.phase.over = false := by
    cases hcase : σ.phase <;> first | rfl | (rw [hcase] at hopens; cases phase <;> exact nomatch hopens)
  have hunclosed : σ.phase.unclosed = false := by
    cases hcase : σ.phase <;> first | rfl | (rw [hcase] at hopens; cases phase <;> exact nomatch hopens)
  by_contra hg
  refine Bool.false_ne_true (hover.symm.trans (hplaced.elsewhere hg fun c hc hsession => ?_))
  have hfits := hplaced.closing c hc hsession
  unfold Closing.fits at hfits
  split_ifs at hfits
  · exact Bool.false_ne_true (hunclosed.symm.trans hfits)
  · exact Bool.false_ne_true (hover.symm.trans hfits)

theorem opening {t : State} {g : ℕ} {phase : SessionPhase} (h : s.Inv) (ht : s.opening g phase = some t) : t.Inv := by
  unfold State.opening at ht
  split at ht
  · exact nomatch ht
  · rename_i σ hσ
    split_ifs at ht with hopens
    obtain rfl := Option.some.inj ht
    have hg := h.opening_current hσ hopens
    have hfit := h.fits g σ hσ
    have hnew : σ.phase.closes = phase.closes ∧ phase.serving = true ∧ σ.phase ≠ .live ∧
        ∀ tail, phase ≠ .draining tail := by
      revert hopens
      cases σ.phase <;> cases phase <;> simp [SessionPhase.opens, SessionPhase.closes, SessionPhase.serving]
    refine @Core.setPhase s s.line h g σ.closes σ phase hσ (hfit.closes.trans hnew.1)
      ⟨fun _ => hnew.2.1, fun c hc => ?_, fun hne => absurd hg hne⟩ ?_ fun k hk => absurd hk (hnew.2.2.2 _)
    · exact nomatch (h.occupied g hg).1.symm.trans hc
    · exact fun u user hu hworks => hnew.2.2.1 (hfit.live u user hu hworks)

/-- Whoever acts queues a read. -/
theorem push (h : s.Core line) {u g : ℕ} {kind : UserKind} {σ : AuthSession}
    (hu : s.users[u]? = some ⟨kind, .acting g⟩) (hσ : s.sessions[g]? = some σ) :
    (s.setSession g { σ with reads := σ.reads.push u }).Core line := by
  have hfit := h.fits g σ hσ
  refine Core.setReads h hσ (hfit.serial.push u) (by simp [Chain.push]) ?_
  intro i job hjob hphase
  rcases getElem?_append_cases hjob with hold | ⟨-, hnew⟩
  · exact hfit.kept i job hold hphase
  · obtain rfl := List.mem_singleton.1 hnew
    exact ⟨_, hu, Or.inl rfl⟩

/-- Whoever acts awaits the tail. -/
theorem awaitTail (h : s.Core line) {u g : ℕ} {kind : UserKind} {σ : AuthSession}
    (hu : s.users[u]? = some ⟨kind, .acting g⟩) (hσ : s.sessions[g]? = some σ) :
    (s.setUser u kind (.awaiting g σ.reads.tail)).Core line := by
  have hfit := h.fits g σ hσ
  refine @Core.reseat s line h u g _ ⟨kind, .awaiting g σ.reads.tail⟩ σ hu rfl rfl hσ (hfit.live u _ hu rfl) ?_ ?_
  · intro i job hjob _
    refine Or.inr ?_
    rw [hfit.serial.tail]
    have hlt := (List.getElem?_eq_some_iff.1 hjob).1
    cases hlen : σ.reads.jobs.length with
    | zero => omega
    | succ n => exact ⟨n, rfl, by omega⟩
  · intro k hk
    exact hfit.serial.tail_lt (UserPhase.awaiting.inj hk).2

/-- Whoever leaves finds nobody waiting for a closing. -/
theorem leave (h : s.Inv) {u g : ℕ} {kind : UserKind} {old : User} {σ : AuthSession}
    (hu : s.users[u]? = some old) (hold : old.phase.seat = some g) (hσ : s.sessions[g]? = some σ)
    (hdone : ∀ (i : ℕ) (job : Job), σ.reads.jobs[i]? = some job → old.phase.Keeps g i → job.phase = .settled)
    (hphase : σ.phase = .live ∨ σ.phase = .failed) (hquiet : s.reactions = []) : (s.leave u kind g).Inv := by
  have hnone := (h.occupied g (h.seated u old g hu hold)).1
  have hline : (s.leave u kind g).line = s.line := by
    have hempty : s.line = [] := by simp [line, hnone, hquiet]
    rw [hempty]
    unfold State.leave
    split_ifs <;> simp [line, setUser, hnone, hquiet]
  rw [Inv, hline]
  exact Core.leave h hu hold hσ hdone hphase hquiet

theorem begin {t : State} {u : ℕ} (h : s.Inv) (hquiet : s.reactions = []) (ht : s.begin u = some t) : t.Inv := by
  unfold State.begin at ht
  split at ht
  · rename_i kind g hu
    split at ht
    · exact nomatch ht
    · rename_i σ hσ
      have hfit := h.fits g σ hσ
      split at ht
      · rename_i hlive
        have hacting : (s.setUser u kind (.acting g)).Core s.line := by
          refine @Core.reseat s s.line h u g ⟨kind, .joined g⟩ ⟨kind, .acting g⟩ σ hu rfl rfl hσ hlive ?_ nofun
          intro i job _ hkeeps
          exact nomatch keeps_works hkeeps
        have hu' : (s.setUser u kind (.acting g)).users[u]? = some ⟨kind, .acting g⟩ := getElem?_set_self_of_some hu
        split at ht
        · obtain rfl := Option.some.inj ht
          have hpushed := push hacting hu' hσ
          have hawaits := awaitTail hpushed hu' (getElem?_set_self_of_some hσ)
          refine (?_ : Core _ s.line)
          simpa [setUser, setSession, Chain.push, List.set_set] using hawaits
        · obtain rfl := Option.some.inj ht
          exact hacting
      · rename_i hfailed
        obtain rfl := Option.some.inj ht
        exact h.leave hu rfl hσ (fun i job _ hkeeps => nomatch keeps_works hkeeps) (Or.inr hfailed) hquiet
      · exact nomatch ht
  · exact nomatch ht

theorem queue {t : State} {u : ℕ} (h : s.Inv) (ht : s.queue u = some t) : t.Inv := by
  unfold State.queue at ht
  split at ht
  · rename_i kind g hu
    split at ht
    · exact nomatch ht
    · rename_i σ hσ
      obtain rfl := Option.some.inj ht
      exact push h hu hσ
  · exact nomatch ht

theorem finish {t : State} {u : ℕ} (h : s.Inv) (ht : s.finish u = some t) : t.Inv := by
  unfold State.finish at ht
  split at ht
  · rename_i kind g hu
    split at ht
    · exact nomatch ht
    · rename_i σ hσ
      obtain rfl := Option.some.inj ht
      exact awaitTail h hu hσ
  · exact nomatch ht

theorem read {t : State} {g i : ℕ} {phase : Phase} (h : s.Inv) (ht : s.read g i phase = some t) : t.Inv := by
  unfold State.read at ht
  split at ht
  · exact nomatch ht
  · rename_i σ hσ
    split at ht
    · exact nomatch ht
    · rename_i reads hreads
      obtain rfl := Option.some.inj ht
      have hfit := h.fits g σ hσ
      obtain ⟨job, hjob, hnext, heq⟩ := Chain.advance_some hreads
      refine Core.setReads h hσ (hfit.serial.advance hreads) (by simp [heq]) ?_
      intro k other hother hphase
      rw [heq] at hother
      rcases getElem?_set_cases hother with ⟨rfl, rfl⟩ | ⟨-, hold⟩
      · exact hfit.kept k job hjob (Chain.next_ne_settled hnext)
      · exact hfit.kept k other hold hphase

theorem leaveSettled {t : State} {u : ℕ} (h : s.Inv) (hquiet : s.reactions = []) (ht : s.leaveSettled u = some t) :
    t.Inv := by
  unfold State.leaveSettled at ht
  split at ht
  · rename_i kind g tail hu
    split at ht
    · exact nomatch ht
    · rename_i σ hσ
      split_ifs at ht with hsettled
      obtain rfl := Option.some.inj ht
      have hfit := h.fits g σ hσ
      refine h.leave hu rfl hσ ?_ (Or.inl (hfit.live u _ hu rfl)) hquiet
      rintro i job hjob (heq | ⟨k, heq, hle⟩)
      · exact nomatch heq
      · obtain rfl := (UserPhase.awaiting.inj heq).2
        exact hfit.serial.settled_before (i := k + 1) hsettled i (Nat.lt_succ_of_le hle) job hjob
  · exact nomatch ht

/-- A step that goes on with the closing. -/
theorem close_goes_on {g : ℕ} {failed : Bool} {σ σ' : AuthSession} (h : σ.close failed = some (σ', none))
    (hfit : s.Fits g σ) : ∃ phase closes, σ' = { σ with phase := phase, closes := closes } ∧
      closes = phase.closes ∧ phase.unclosed = true ∧ ∀ k, phase = .draining (some k) → k < σ.reads.jobs.length := by
  have hcloses := hfit.closes
  unfold AuthSession.close at h
  split at h
  · exact nomatch h
  · rename_i hphase
    obtain rfl := (Prod.mk.inj (Option.some.inj h)).1
    refine ⟨_, _, rfl, by rw [hcloses, hphase]; rfl, rfl, fun k hk => ?_⟩
    exact hfit.serial.tail_lt (SessionPhase.draining.inj hk)
  · rename_i tail hphase
    split_ifs at h
    obtain rfl := (Prod.mk.inj (Option.some.inj h)).1
    exact ⟨_, _, rfl, by rw [hcloses, hphase]; rfl, rfl, nofun⟩
  · rename_i hphase
    obtain rfl := (Prod.mk.inj (Option.some.inj h)).1
    exact ⟨_, _, rfl, by rw [hcloses, hphase]; rfl, rfl, nofun⟩
  · exact nomatch (Prod.mk.inj (Option.some.inj h)).2
  · exact nomatch h

/-- A step that ends the closing. -/
theorem close_settles {g : ℕ} {failed f : Bool} {σ σ' : AuthSession} (h : σ.close failed = some (σ', some f))
    (hfit : s.Fits g σ) : ∃ phase closes, σ' = { σ with phase := phase, closes := closes } ∧
      closes = phase.closes ∧ phase.over = true := by
  have hcloses := hfit.closes
  unfold AuthSession.close at h
  split at h
  · rename_i hphase
    obtain rfl := (Prod.mk.inj (Option.some.inj h)).1
    exact ⟨_, _, rfl, hcloses, by rw [hphase]; rfl⟩
  · exact nomatch (Prod.mk.inj (Option.some.inj h)).2
  · split_ifs at h
    exact nomatch (Prod.mk.inj (Option.some.inj h)).2
  · exact nomatch (Prod.mk.inj (Option.some.inj h)).2
  · rename_i hphase
    obtain rfl := (Prod.mk.inj (Option.some.inj h)).1
    exact ⟨_, _, rfl, by rw [hcloses, hphase]; rfl, rfl⟩
  · exact nomatch h

theorem closing {t : State} {failed : Bool} (h : s.Inv) (ht : s.closing failed = some t) : t.Inv := by
  unfold State.closing at ht
  split at ht
  · exact nomatch ht
  · rename_i c hc
    split_ifs at ht with hset
    have hset : c.settled = none := not_not.1 hset
    split at ht
    · exact nomatch ht
    · rename_i σ hσ
      have hfit := h.fits c.session σ hσ
      split at ht
      · exact nomatch ht
      · rename_i σ' hclose
        obtain rfl := Option.some.inj ht
        obtain ⟨phase, closes, rfl, hcloses, hunclosed, hdrained⟩ := close_goes_on hclose hfit
        exact Core.closing_step h hc hset hσ hcloses hunclosed hdrained
      · rename_i σ' closingFailed hclose
        obtain rfl := Option.some.inj ht
        obtain ⟨phase, closes, rfl, hcloses, hover⟩ := close_settles hclose hfit
        have hline : ((s.setSession c.session
            { σ with phase := phase, closes := closes }).settle c closingFailed).line = s.line := by
          simp [line, State.settle, hc, hset, Function.comp_def]
        rw [Inv, hline]
        exact Core.settle h hc hσ hcloses hover

/-- Every step keeps the invariant. -/
theorem step {t : State} {a : Act} (h : s.Inv) (ht : Session.step s a = some t) : t.Inv := by
  cases a with
  | arrive kind => exact Option.some.inj ht ▸ h.arrive kind
  | resume => exact h.resume ht
  | opening g phase => exact h.opening (quiet_some ht).2
  | begin u => exact h.begin (quiet_some ht).1 (quiet_some ht).2
  | queue u => exact h.queue (quiet_some ht).2
  | finish u => exact h.finish (quiet_some ht).2
  | read g i phase => exact h.read (quiet_some ht).2
  | leave u => exact h.leaveSettled (quiet_some ht).1 (quiet_some ht).2
  | closing failed => exact h.closing (quiet_some ht).2

end Inv

/-- Every reachable state satisfies the invariant. -/
theorem inv_of_reachable {G : State → Act → Prop} (h : ReachableVia Session.step G State.init s) : s.Inv :=
  h.invariant inv_init fun _ _ _ hinv _ hstep => hinv.step hstep

end State

end AmoAnalytics.CrmControl.Session
