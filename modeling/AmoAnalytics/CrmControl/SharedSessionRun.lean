import AmoAnalytics.CrmControl.SharedSessionInvariant

/-!
# Runs of the shared session

What the invariant promises in every reachable state (`Safe`), that the service comes to rest with every
opened session closed once (`State.Rested`) and never stands still before (`exists_step`), and that a user
who comes after a session has been given up obtains a later one (`Served`). A user who waits for a closing
that fails is rejected with its failure: `Calm` runs are those in which nobody does.
-/

namespace AmoAnalytics.CrmControl.Session

open PromiseChain Run Actors

/-! ## Safety -/

/-- One session at a time, its reads one at a time in the order in which they were queued and only while it
is open, and its closing at most once, after its users have left and their reads have ended. -/
structure Safe (s : State) : Prop where
  one : ∀ (g g' : ℕ) (σ σ' : AuthSession), s.sessions[g]? = some σ → s.sessions[g']? = some σ' →
    σ.phase.over = false → σ'.phase.over = false → g = g'
  single : ∀ (g : ℕ) (σ : AuthSession) (i j : ℕ) (job other : Job), s.sessions[g]? = some σ →
    σ.reads.jobs[i]? = some job → σ.reads.jobs[j]? = some other →
    (job.phase = .running ∨ job.phase = .saving) → (other.phase = .running ∨ other.phase = .saving) → i = j
  order : ∀ (g : ℕ) (σ : AuthSession) (i j : ℕ) (job other : Job), s.sessions[g]? = some σ →
    σ.reads.jobs[i]? = some job → σ.reads.jobs[j]? = some other →
    i < j → other.phase ≠ .queued → job.phase = .settled
  used : ∀ (g : ℕ) (σ : AuthSession), s.sessions[g]? = some σ → ∀ job ∈ σ.reads.jobs,
    (job.phase = .running ∨ job.phase = .saving) → σ.phase = .live ∧ s.authSession = some g
  once : ∀ (g : ℕ) (σ : AuthSession), s.sessions[g]? = some σ → σ.closes ≤ 1
  last : ∀ (g : ℕ) (σ : AuthSession), s.sessions[g]? = some σ → σ.closes ≠ 0 →
    (∀ job ∈ σ.reads.jobs, job.phase = .settled) ∧ ∀ user ∈ s.users, user.phase.seat ≠ some g

namespace State

variable {s t : State} {a : Act}

/-- A session that holds anything is the current one or the one being closed. -/
theorem Inv.current (h : s.Inv) {g : ℕ} {σ : AuthSession} (hσ : s.sessions[g]? = some σ)
    (hover : σ.phase.over = false) :
    s.authSession = some g ∨ ∃ c, s.authSessionClosing = some c ∧ c.session = g := by
  by_contra hne
  have hplaced := (h.fits g σ hσ).placed
  refine Bool.false_ne_true (hover.symm.trans (hplaced.elsewhere (fun hg => hne (Or.inl hg)) fun c hc hsession => ?_))
  exact hne (Or.inr ⟨c, hc, hsession⟩)

/-- There is at most one such session. -/
theorem Inv.one (h : s.Inv) {g g' : ℕ} {σ σ' : AuthSession} (hσ : s.sessions[g]? = some σ)
    (hσ' : s.sessions[g']? = some σ') (hover : σ.phase.over = false) (hover' : σ'.phase.over = false) : g = g' := by
  obtain hg | ⟨c, hc, hg⟩ := h.current hσ hover
  · obtain hg' | ⟨c', hc', -⟩ := h.current hσ' hover'
    · exact Option.some.inj (hg.symm.trans hg')
    · exact nomatch (h.occupied g hg).1.symm.trans hc'
  · obtain hg' | ⟨c', hc', hg'⟩ := h.current hσ' hover'
    · exact nomatch (h.occupied g' hg').1.symm.trans hc
    · obtain rfl := Option.some.inj (hc.symm.trans hc')
      exact hg.symm.trans hg'

/-- A read that has not settled belongs to the session that is open. -/
theorem Inv.used (h : s.Inv) {g : ℕ} {σ : AuthSession} (hσ : s.sessions[g]? = some σ) {job : Job}
    (hjob : job ∈ σ.reads.jobs) (hphase : job.phase ≠ .settled) : σ.phase = .live ∧ s.authSession = some g := by
  obtain ⟨i, hi⟩ := List.mem_iff_getElem?.1 hjob
  obtain ⟨user, huser, hkeeps⟩ := (h.fits g σ hσ).kept i job hi hphase
  exact ⟨(h.fits g σ hσ).live _ user huser (keeps_works hkeeps),
    h.seated _ user g huser (works_seat (keeps_works hkeeps))⟩

/-- Once the context of a session has been closed nobody is seated in it. -/
theorem Inv.closed_left (h : s.Inv) {g : ℕ} {σ : AuthSession} (hσ : s.sessions[g]? = some σ)
    (hcloses : σ.closes ≠ 0) : s.authSession ≠ some g := by
  intro hg
  have hfit := h.fits g σ hσ
  rw [hfit.closes] at hcloses
  have hserving := hfit.placed.serving hg
  revert hcloses hserving
  cases σ.phase <;> simp [SessionPhase.closes, SessionPhase.serving]

theorem Inv.safe (h : s.Inv) : Safe s where
  one _ _ _ _ hσ hσ' hover hover' := h.one hσ hσ' hover hover'
  single g σ _ _ _ _ hσ hjob hother := (h.fits g σ hσ).serial.one_at_a_time hjob hother
  order g σ i j job other hσ hjob hother hlt hphase :=
    (h.fits g σ hσ).serial.order j other hother hphase i hlt job hjob
  used g σ hσ job hjob hphase :=
    h.used hσ hjob (by rcases hphase with hphase | hphase <;> rw [hphase] <;> exact nofun)
  once g σ hσ := by
    rw [(h.fits g σ hσ).closes]
    cases σ.phase <;> simp [SessionPhase.closes]
  last g σ hσ hcloses := by
    have hg := h.closed_left hσ hcloses
    refine ⟨Core.all_settled h hσ hg, fun user huser hseat => ?_⟩
    obtain ⟨u, hu⟩ := List.mem_iff_getElem?.1 huser
    exact hg (h.seated u user g hu hseat)

/-! ## Rest -/

/-- No session is current, no closing under way, and no reaction left. -/
def Rested (s : State) : Prop :=
  s.authSession = none ∧ s.authSessionClosing = none ∧ s.reactions = []

/-- At rest every session was closed once, or could not be opened. -/
theorem Inv.rested (h : s.Inv) (hrest : s.Rested) {g : ℕ} {σ : AuthSession} (hσ : s.sessions[g]? = some σ) :
    (σ.phase = .closed ∧ σ.closes = 1) ∨ (σ.phase = .failed ∧ σ.closes = 0) := by
  obtain ⟨hnone, hclosing, -⟩ := hrest
  have hfit := h.fits g σ hσ
  have hover := hfit.placed.elsewhere (by rw [hnone]; exact nofun) fun c hc => nomatch hclosing.symm.trans hc
  have hcloses := hfit.closes
  revert hover hcloses
  cases σ.phase <;> simp [SessionPhase.over, SessionPhase.closes]

/-- At rest every user has had a session or was rejected. -/
theorem Inv.rested_user (h : s.Inv) (hrest : s.Rested) {u : ℕ} {user : User} (hu : s.users[u]? = some user) :
    (∃ g, user.phase = .done g) ∨ user.phase = .rejected := by
  obtain ⟨hnone, hclosing, hreactions⟩ := hrest
  have hseat : ∀ g, user.phase.seat ≠ some g := fun g hg => by cases hnone.symm.trans (h.seated u user g hu hg)
  cases hphase : user.phase with
  | waiting =>
    have hline : u ∈ s.line := (h.inLine u).2 ⟨user, hu, hphase⟩
    rw [line, hclosing, hreactions] at hline
    cases hline
  | joined g => exact absurd (by rw [hphase]; rfl) (hseat g)
  | acting g => exact absurd (by rw [hphase]; rfl) (hseat g)
  | awaiting g k => exact absurd (by rw [hphase]; rfl) (hseat g)
  | owning g =>
    obtain ⟨c, hc, -⟩ := h.owning u user g hu hphase
    cases hclosing.symm.trans hc
  | done g => exact Or.inl ⟨g, rfl⟩
  | rejected => exact Or.inr rfl

/-! ## Progress -/

/-- The service goes on without a new call. -/
def Moves (s : State) : Prop := ∃ a, (∀ kind, a ≠ .arrive kind) ∧ (step s a).isSome = true

/-- The next reaction runs. -/
theorem Inv.moves_reaction (h : s.Inv) (hr : s.reactions ≠ []) : s.Moves := by
  refine ⟨.resume, fun _ => nofun, ?_⟩
  cases hreactions : s.reactions with
  | nil => exact absurd hreactions hr
  | cons reaction rest =>
    obtain ⟨u, f⟩ := reaction
    simp only [Session.step, State.resume, hreactions]
    cases hc : s.authSessionClosing with
    | none =>
      have hline : u ∈ s.line := by simp [line, hc, hreactions]
      obtain ⟨⟨kind, phase⟩, hu, hwaiting⟩ := (h.inLine u).1 hline
      obtain rfl : phase = .waiting := hwaiting
      rw [hu]
      dsimp only
      split_ifs <;> rfl
    | some c =>
      cases hset : c.settled with
      | none => exact absurd (h.unsettled c hc hset) hr
      | some f' =>
        obtain ⟨rest', hrest⟩ := h.settled c f' hc hset
        obtain ⟨-, kind, howner⟩ := h.closer c hc
        obtain rfl : u = c.owner := congrArg Prod.fst (List.cons.inj (hreactions.symm.trans hrest)).1
        rw [howner]
        rfl

/-- The closing goes on: it waits only for reads, and they have all settled. -/
theorem Inv.moves_closing (h : s.Inv) {c : Closing} (hc : s.authSessionClosing = some c) (hquiet : s.reactions = []) :
    s.Moves := by
  refine ⟨.closing false, fun _ h => (by cases h), ?_⟩
  have hset : c.settled = none := by
    cases hset : c.settled with
    | none => rfl
    | some f =>
      obtain ⟨rest, hrest⟩ := h.settled c f hc hset
      cases hquiet.symm.trans hrest
  obtain ⟨hlt, -⟩ := h.closer c hc
  have hσ := List.getElem?_eq_getElem hlt
  have hfit := h.fits c.session _ hσ
  have hfits := hfit.placed.closing c hc rfl
  have hsettled := Core.all_settled h hσ (by rw [Core.authSession_none h hc]; exact (Option.some_ne_none _).symm)
  have hclose : (s.sessions[c.session].close false).isSome = true := by
    rw [Closing.fits, if_pos hset] at hfits
    unfold AuthSession.close
    cases hphase : s.sessions[c.session].phase with
    | draining tail =>
      have htail : s.sessions[c.session].reads.settled tail = true :=
        Chain.Serial.settled_of_all hsettled fun i hi => hfit.drained i (by rw [hphase, hi])
      simp [htail]
    | _ => simp_all [SessionPhase.unclosed]
  obtain ⟨⟨σ', out⟩, hout⟩ := Option.isSome_iff_exists.1 hclose
  have hstep : s.closing false =
      some (out.elim (s.setSession c.session σ') ((s.setSession c.session σ').settle c)) := by
    unfold State.closing
    simp only [hc, hset, hσ, hout]
    cases out <;> simp
  simp only [Session.step, quiet, hquiet, if_true, hstep]
  cases out <;> rfl

/-- A seated user of a session that is open or could not be opened goes on, or one of its reads does. -/
theorem Inv.moves_user (h : s.Inv) (hquiet : s.reactions = []) {u g : ℕ} {user : User} {σ : AuthSession}
    (hu : s.users[u]? = some user) (hseat : user.phase.seat = some g) (hσ : s.sessions[g]? = some σ)
    (hphase : σ.phase = .live ∨ σ.phase = .failed) : s.Moves := by
  obtain ⟨kind, phase⟩ := user
  have hfit := h.fits g σ hσ
  cases phase with
  | joined g' =>
    obtain rfl : g' = g := Option.some.inj hseat
    refine ⟨.begin u, fun _ h => (by cases h), ?_⟩
    simp only [Session.step, quiet, hquiet, if_true, State.begin, hu, hσ]
    rcases hphase with hphase | hphase <;> rw [hphase] <;> cases kind <;> rfl
  | acting g' =>
    obtain rfl : g' = g := Option.some.inj hseat
    refine ⟨.finish u, fun _ h => (by cases h), ?_⟩
    simp [Session.step, quiet, hquiet, State.finish, hu, hσ]
  | awaiting g' k =>
    obtain rfl : g' = g := Option.some.inj hseat
    by_cases hsettled : σ.reads.settled k = true
    · refine ⟨.leave u, fun _ h => (by cases h), ?_⟩
      simp [Session.step, quiet, hquiet, State.leaveSettled, hu, hσ, hsettled]
    · cases k with
      | none => exact absurd rfl hsettled
      | some i =>
        have hlt := hfit.awaited u _ i hu rfl
        have hi := List.getElem?_eq_getElem hlt
        have hunsettled : σ.reads.jobs[i].phase ≠ .settled := by
          intro heq
          refine hsettled ?_
          rw [Chain.settled, hi]
          exact decide_eq_true heq
        obtain ⟨j, -, phase, hadvance⟩ := hfit.serial.exists_advance hi hunsettled
        obtain ⟨reads, hreads⟩ := Option.isSome_iff_exists.1 hadvance
        refine ⟨.read g' j phase, fun _ h => (by cases h), ?_⟩
        simp [Session.step, quiet, hquiet, State.read, hσ, hreads]
  | _ => cases hseat

/-- The current session goes on. -/
theorem Inv.moves_current (h : s.Inv) {g : ℕ} (hg : s.authSession = some g) (hquiet : s.reactions = []) :
    s.Moves := by
  obtain ⟨-, hlt, hpos⟩ := h.occupied g hg
  have hσ := List.getElem?_eq_getElem hlt
  have hserving := (h.fits g _ hσ).placed.serving hg
  have hopening : ∀ phase, s.sessions[g].phase.opens phase = true → s.Moves := by
    intro phase hopens
    refine ⟨.opening g phase, fun _ => nofun, ?_⟩
    simp [Session.step, quiet, hquiet, State.opening, hσ, hopens]
  have huser : s.sessions[g].phase = .live ∨ s.sessions[g].phase = .failed → s.Moves := by
    intro hphase
    rw [h.count] at hpos
    obtain ⟨user, hmem, hseat⟩ := List.countP_pos_iff.1 hpos
    obtain ⟨g', hseat⟩ := Option.isSome_iff_exists.1 hseat
    obtain ⟨u, hu⟩ := List.mem_iff_getElem?.1 hmem
    obtain rfl : g = g' := Option.some.inj (hg.symm.trans (h.seated u user g' hu hseat))
    exact h.moves_user hquiet hu hseat hσ hphase
  cases hphase : s.sessions[g].phase with
  | acquiring => exact hopening .leased (by rw [hphase]; rfl)
  | leased => exact hopening .live (by rw [hphase]; rfl)
  | live => exact huser (Or.inl hphase)
  | dropping => exact hopening .failed (by rw [hphase]; rfl)
  | failed => exact huser (Or.inr hphase)
  | _ => rw [hphase] at hserving; exact nomatch hserving

/-- Until it rests the service never stands still. -/
theorem Inv.moves (h : s.Inv) (hrest : ¬ s.Rested) : s.Moves := by
  by_cases hr : s.reactions = []
  · cases hc : s.authSessionClosing with
    | some c => exact h.moves_closing hc hr
    | none =>
      cases hg : s.authSession with
      | some g => exact h.moves_current hg hr
      | none => exact absurd ⟨hg, hc, hr⟩ hrest
  · exact h.moves_reaction hr

/-! ## What a step does -/

/-- What the steps do that neither come, react nor close: a session changes, a seated user goes on in the
session, or leaves it. -/
inductive Change (s t : State) : Prop
  | sessions (sessions : List AuthSession) (hlen : sessions.length = s.sessions.length)
      (ht : t = { s with sessions := sessions })
  | seat (u g : ℕ) (old new : User) (sessions : List AuthSession) (hlen : sessions.length = s.sessions.length)
      (hu : s.users[u]? = some old) (hold : old.phase.seat = some g) (hnew : new.phase.seat = some g)
      (ht : t = { s with sessions := sessions, users := s.users.set u new })
  | leaves (u g : ℕ) (kind : UserKind) (old : User) (hu : s.users[u]? = some old) (hold : old.phase.seat = some g)
      (ht : t = s.leave u kind g)

theorem Change.setSession {g : ℕ} {σ : AuthSession} (ht : t = s.setSession g σ) : Change s t :=
  .sessions _ List.length_set ht

theorem Change.of_opening {g : ℕ} {phase : SessionPhase} (ht : s.opening g phase = some t) : Change s t := by
  unfold State.opening at ht
  split at ht
  · exact nomatch ht
  · split_ifs at ht
    exact .setSession (Option.some.inj ht).symm

theorem Change.of_begin {u : ℕ} (ht : s.begin u = some t) : Change s t := by
  unfold State.begin at ht
  split at ht
  · rename_i kind g hu
    split at ht
    · exact nomatch ht
    · split at ht
      · split at ht
        · exact .seat u g _ _ _ List.length_set hu rfl rfl (Option.some.inj ht).symm
        · exact .seat u g _ _ s.sessions rfl hu rfl rfl (Option.some.inj ht).symm
      · exact .leaves u g kind _ hu rfl (Option.some.inj ht).symm
      · exact nomatch ht
  · exact nomatch ht

theorem Change.of_queue {u : ℕ} (ht : s.queue u = some t) : Change s t := by
  unfold State.queue at ht
  split at ht
  · split at ht
    · exact nomatch ht
    · exact .setSession (Option.some.inj ht).symm
  · exact nomatch ht

theorem Change.of_finish {u : ℕ} (ht : s.finish u = some t) : Change s t := by
  unfold State.finish at ht
  split at ht
  · rename_i kind g hu
    split at ht
    · exact nomatch ht
    · exact .seat u g _ _ s.sessions rfl hu rfl rfl (Option.some.inj ht).symm
  · exact nomatch ht

theorem Change.of_read {g i : ℕ} {phase : Phase} (ht : s.read g i phase = some t) : Change s t := by
  unfold State.read at ht
  split at ht
  · exact nomatch ht
  · split at ht
    · exact nomatch ht
    · exact .setSession (Option.some.inj ht).symm

theorem Change.of_leave {u : ℕ} (ht : s.leaveSettled u = some t) : Change s t := by
  unfold State.leaveSettled at ht
  split at ht
  · rename_i kind g k hu
    split at ht
    · exact nomatch ht
    · split_ifs at ht
      exact .leaves u g kind _ hu rfl (Option.some.inj ht).symm
  · exact nomatch ht

/-- What a step of the closing does: it goes on, or it settles. -/
theorem closing_cases {failed : Bool} (ht : s.closing failed = some t) : ∃ c σ σ', s.authSessionClosing = some c ∧
    s.sessions[c.session]? = some σ ∧ ((σ.close failed = some (σ', none) ∧ t = s.setSession c.session σ') ∨
      ∃ f, σ.close failed = some (σ', some f) ∧ t = (s.setSession c.session σ').settle c f) := by
  unfold State.closing at ht
  split at ht
  · exact nomatch ht
  · rename_i c hc
    split_ifs at ht
    split at ht
    · exact nomatch ht
    · rename_i σ hσ
      split at ht
      · exact nomatch ht
      · rename_i σ' hclose
        exact ⟨c, σ, σ', hc, hσ, Or.inl ⟨hclose, (Option.some.inj ht).symm⟩⟩
      · rename_i σ' f hclose
        exact ⟨c, σ, σ', hc, hσ, Or.inr ⟨f, hclose, (Option.some.inj ht).symm⟩⟩

/-- What a reaction does: the user who closed ends, a waiting user is rejected, or goes on. -/
theorem resume_cases (ht : s.resume = some t) : ∃ u failed rest, s.reactions = (u, failed) :: rest ∧
    ((∃ kind g closing, s.users[u]? = some ⟨kind, .owning g⟩ ∧
        t = { s.setUser u kind (.done g) with reactions := rest, authSessionClosing := closing }) ∨
      (∃ kind, s.users[u]? = some ⟨kind, .waiting⟩ ∧ failed = true ∧
        t = { s.setUser u kind .rejected with reactions := rest }) ∨
      ∃ kind, s.users[u]? = some ⟨kind, .waiting⟩ ∧ t = ({ s with reactions := rest }.enter u kind)) := by
  unfold State.resume at ht
  split at ht
  · exact nomatch ht
  · rename_i u failed rest hr
    refine ⟨u, failed, rest, hr, ?_⟩
    split at ht
    · rename_i kind g hu
      exact Or.inl ⟨kind, g, _, hu, (Option.some.inj ht).symm⟩
    · rename_i kind hu
      split_ifs at ht with hfailed
      · exact Or.inr (Or.inl ⟨kind, hu, hfailed, (Option.some.inj ht).symm⟩)
      · exact Or.inr (Or.inr ⟨kind, hu, (Option.some.inj ht).symm⟩)
    · exact nomatch ht

/-- A step comes, reacts, closes or changes one place. -/
theorem step_cases (ht : step s a = some t) :
    (∃ kind, a = .arrive kind ∧ t = s.arrive kind) ∨ (a = .resume ∧ s.resume = some t) ∨
      (∃ failed, a = .closing failed ∧ s.closing failed = some t) ∨ Change s t := by
  cases a with
  | arrive kind => exact Or.inl ⟨kind, rfl, (Option.some.inj ht).symm⟩
  | resume => exact Or.inr (Or.inl ⟨rfl, ht⟩)
  | closing failed => exact Or.inr (Or.inr (Or.inl ⟨failed, rfl, (quiet_some ht).2⟩))
  | opening g phase => exact Or.inr (Or.inr (Or.inr (.of_opening (quiet_some ht).2)))
  | begin u => exact Or.inr (Or.inr (Or.inr (.of_begin (quiet_some ht).2)))
  | queue u => exact Or.inr (Or.inr (Or.inr (.of_queue (quiet_some ht).2)))
  | finish u => exact Or.inr (Or.inr (Or.inr (.of_finish (quiet_some ht).2)))
  | read g i phase => exact Or.inr (Or.inr (Or.inr (.of_read (quiet_some ht).2)))
  | leave u => exact Or.inr (Or.inr (Or.inr (.of_leave (quiet_some ht).2)))

/-! ## What a step does to a user -/

/-- A user after a step: as before but for the place in the same session, joining the session under way or a
new one, newly come, or rejected with the failure of the closing. -/
inductive UserStep (s : State) (u : ℕ) (user' : User) : Prop
  | goes (user : User) (hu : s.users[u]? = some user) (hobtained : user'.phase.obtained = user.phase.obtained)
      (hwaits : user'.phase = .waiting → user.phase = .waiting)
      (hrejected : user'.phase = .rejected → user.phase = .rejected)
  | enters (hphase : user'.phase = .joined s.target)
  | comes (hnew : u = s.users.length) (hphase : user'.phase = .waiting)
  | rejected (hr : (u, true) ∈ s.reactions) (user : User) (hu : s.users[u]? = some user)
      (hwaits : user.phase = .waiting) (hphase : user'.phase = .rejected)

namespace UserStep

/-- The user is not the one who has changed. -/
theorem same {u : ℕ} {user : User} (hu : s.users[u]? = some user) : UserStep s u user :=
  .goes user hu rfl id id

/-- The user who has changed keeps the session. -/
theorem set {u v g : ℕ} {old new user' : User} (hu : s.users[u]? = some old)
    (hv : (s.users.set u new)[v]? = some user') (hold : old.phase.obtained = some g)
    (hnew : new.phase.obtained = some g) : UserStep s v user' := by
  rcases getElem?_set_cases hv with ⟨rfl, rfl⟩ | ⟨-, hv⟩
  · refine .goes old hu (hnew.trans hold.symm) (fun h => ?_) fun h => ?_
    · rw [h] at hnew
      exact nomatch hnew
    · rw [h] at hnew
      exact nomatch hnew
  · exact .same hv

theorem obtained_of_seat {phase : UserPhase} {g : ℕ} (h : phase.seat = some g) : phase.obtained = some g := by
  cases phase <;> first | exact h | exact nomatch h

theorem of_change (ht : Change s t) {v : ℕ} {user' : User} (hv : t.users[v]? = some user') : UserStep s v user' := by
  cases ht with
  | sessions sessions hlen ht =>
    subst ht
    exact .same hv
  | seat u g old new sessions hlen hu hold hnew ht =>
    subst ht
    exact .set hu hv (obtained_of_seat hold) (obtained_of_seat hnew)
  | leaves u g kind old hu hold ht =>
    subst ht
    unfold State.leave at hv
    split_ifs at hv
    · exact .set hu hv (obtained_of_seat hold) rfl
    · exact .set hu hv (obtained_of_seat hold) rfl

/-- Who enters joins the target. -/
theorem enter {u v : ℕ} {kind : UserKind} {user' : User} (hv : (s.enter u kind).users[v]? = some user') :
    user'.phase = .joined s.target ∨ s.users[v]? = some user' := by
  rw [enter_eq] at hv
  rcases getElem?_set_cases hv with ⟨-, rfl⟩ | ⟨-, hold⟩
  · exact Or.inl rfl
  · exact Or.inr hold

/-- A call adds its user behind the others. -/
theorem call {v : ℕ} {kind : UserKind} {user' : User} (hv : (s.withUser kind).users[v]? = some user') :
    UserStep s v user' := by
  rcases getElem?_append_cases hv with hold | ⟨hge, hnew⟩
  · exact .same hold
  · have hlt := (List.getElem?_eq_some_iff.1 hv).1
    rw [withUser, List.length_append, List.length_singleton] at hlt
    exact .comes (by omega) (List.mem_singleton.1 hnew ▸ rfl)

theorem arrive {v : ℕ} {kind : UserKind} {user' : User} (hv : (s.arrive kind).users[v]? = some user') :
    UserStep s v user' := by
  cases hc : s.authSessionClosing with
  | none =>
    rw [arrive_enter hc] at hv
    rcases enter hv with hphase | hold
    · exact .enters hphase
    · exact .call hold
  | some c =>
    cases hset : c.settled with
    | none => exact .call (by rwa [arrive_wait hc hset] at hv)
    | some f => exact .call (by rwa [arrive_behind hc hset] at hv)

theorem resume {v : ℕ} {user' : User} (ht : s.resume = some t) (hv : t.users[v]? = some user') :
    UserStep s v user' := by
  obtain ⟨u, failed, rest, hr, howner | hrejected | hgoes⟩ := resume_cases ht
  · obtain ⟨kind, g, closing, hu, rfl⟩ := howner
    exact .set hu hv rfl rfl
  · obtain ⟨kind, hu, hfailed, rfl⟩ := hrejected
    rcases getElem?_set_cases hv with ⟨rfl, rfl⟩ | ⟨-, hold⟩
    · exact .rejected (by rw [hr, hfailed]; exact List.mem_cons_self) _ hu rfl rfl
    · exact .same hold
  · obtain ⟨kind, hu, rfl⟩ := hgoes
    rcases enter hv with hphase | hold
    · exact .enters hphase
    · exact .same hold

/-- What a step does to the users. -/
theorem of_step (ht : step s a = some t) {v : ℕ} {user' : User} (hv : t.users[v]? = some user') :
    UserStep s v user' := by
  obtain ⟨kind, -, rfl⟩ | ⟨-, hresume⟩ | ⟨failed, -, hclosing⟩ | hchange := step_cases ht
  · exact .arrive hv
  · exact .resume hresume hv
  · obtain ⟨c, σ, σ', -, -, ⟨-, rfl⟩ | ⟨f, -, rfl⟩⟩ := closing_cases hclosing
    · exact .same hv
    · exact .same hv
  · exact .of_change hchange hv

end UserStep

/-- A new current session is the target, and no user or session goes away. -/
structure Grows (s t : State) : Prop where
  auth : ∀ g, t.authSession = some g → s.authSession = some g ∨ g = s.target
  sessions : s.sessions.length ≤ t.sessions.length
  users : s.users.length ≤ t.users.length

namespace Grows

theorem enter (s : State) (u : ℕ) (kind : UserKind) : Grows s (s.enter u kind) := by
  rw [enter_eq]
  refine ⟨fun g hg => Or.inr (Option.some.inj hg).symm, ?_, by simp [setUser]⟩
  dsimp only
  split_ifs
  · simp
  · exact le_rfl

theorem arrive (s : State) (kind : UserKind) : Grows s (s.arrive kind) := by
  cases hc : s.authSessionClosing with
  | none =>
    have hgrows := enter (s.withUser kind) s.users.length kind
    rw [arrive_enter hc]
    exact ⟨hgrows.auth, hgrows.sessions, le_trans (by simp [withUser]) hgrows.users⟩
  | some c =>
    cases hset : c.settled with
    | none =>
      rw [arrive_wait hc hset]
      exact ⟨fun g hg => Or.inl hg, le_rfl, by simp [withUser]⟩
    | some f =>
      rw [arrive_behind hc hset]
      exact ⟨fun g hg => Or.inl hg, le_rfl, by simp [withUser]⟩

theorem of_step (ht : step s a = some t) : Grows s t := by
  obtain ⟨kind, -, rfl⟩ | ⟨-, hresume⟩ | ⟨failed, -, hclosing⟩ | hchange := step_cases ht
  · exact arrive s kind
  · obtain ⟨u, failed, rest, -, ⟨kind, g, closing, -, rfl⟩ | ⟨kind, -, -, rfl⟩ | ⟨kind, -, rfl⟩⟩ :=
      resume_cases hresume
    · exact ⟨fun g hg => Or.inl hg, le_rfl, by simp [setUser]⟩
    · exact ⟨fun g hg => Or.inl hg, le_rfl, by simp [setUser]⟩
    · have hgrows := enter { s with reactions := rest } u kind
      exact ⟨hgrows.auth, hgrows.sessions, hgrows.users⟩
  · obtain ⟨c, σ, σ', -, -, ⟨-, rfl⟩ | ⟨f, -, rfl⟩⟩ := closing_cases hclosing
    · exact ⟨fun g hg => Or.inl hg, by simp [State.setSession], le_rfl⟩
    · exact ⟨fun g hg => Or.inl hg, by simp [State.setSession, State.settle], le_rfl⟩
  · cases hchange with
    | sessions sessions hlen ht =>
      subst ht
      exact ⟨fun g hg => Or.inl hg, hlen.ge, le_rfl⟩
    | seat u g old new sessions hlen hu hold hnew ht =>
      subst ht
      exact ⟨fun g hg => Or.inl hg, hlen.ge, by simp⟩
    | leaves u g kind old hu hold ht =>
      subst ht
      unfold State.leave
      split_ifs
      · exact ⟨fun _ hg => (by cases hg), le_rfl, by simp [setUser]⟩
      · exact ⟨fun g hg => Or.inl hg, le_rfl, by simp [setUser]⟩

end Grows

/-! ## Later users -/

/-- The user is served, if at all, by a session later than the first `n`. -/
structure Served (n u : ℕ) (s : State) : Prop where
  sessions : n ≤ s.sessions.length
  auth : ∀ g, s.authSession = some g → n ≤ g
  user : u < s.users.length
  obtained : ∀ user, s.users[u]? = some user → ∀ g, user.phase.obtained = some g → n ≤ g

theorem Served.target {n u : ℕ} (h : Served n u s) : n ≤ s.target := by
  rw [State.target]
  cases hg : s.authSession with
  | none => exact h.sessions
  | some g => exact h.auth g hg

theorem Served.step {n u : ℕ} (h : Served n u s) (ht : Session.step s a = some t) : Served n u t := by
  have hgrows := Grows.of_step ht
  refine ⟨h.sessions.trans hgrows.sessions, fun g hg => ?_, h.user.trans_le hgrows.users, fun user' hu' g hg => ?_⟩
  · obtain hold | rfl := hgrows.auth g hg
    · exact h.auth g hold
    · exact h.target
  · cases UserStep.of_step ht hu' with
    | goes user hu hobtained => exact h.obtained user hu g (hobtained ▸ hg)
    | enters hphase =>
      rw [hphase] at hg
      exact Option.some.inj hg ▸ h.target
    | comes _ hphase =>
      rw [hphase] at hg
      cases hg
    | rejected _ _ _ _ hphase =>
      rw [hphase] at hg
      cases hg

/-- A user who comes while no session is current will only be served by a session opened after. -/
theorem Served.arrive (hs : s.authSession = none) (kind : UserKind) :
    Served s.sessions.length s.users.length (s.arrive kind) := by
  have hgrows := Grows.arrive s kind
  have htarget : s.target = s.sessions.length := by rw [State.target, hs]; rfl
  refine ⟨hgrows.sessions, fun g hg => ?_, ?_, fun user' hu' g hg => ?_⟩
  · obtain hold | rfl := hgrows.auth g hg
    · cases hs.symm.trans hold
    · exact htarget.ge
  · cases hc : s.authSessionClosing with
    | none => rw [arrive_enter hc, enter_eq]; simp [setUser, withUser]
    | some c =>
      cases hset : c.settled with
      | none => rw [arrive_wait hc hset]; simp [withUser]
      | some f => rw [arrive_behind hc hset]; simp [withUser]
  · cases UserStep.arrive hu' with
    | goes user hu => exact absurd (List.getElem?_eq_some_iff.1 hu).1 (lt_irrefl _)
    | enters hphase =>
      rw [hphase] at hg
      exact Option.some.inj hg ▸ htarget.ge
    | comes _ hphase =>
      rw [hphase] at hg
      cases hg
    | rejected _ _ _ _ hphase =>
      rw [hphase] at hg
      cases hg

/-! ## Calm runs -/

/-- Nobody was rejected, and nobody who waits will hear of a failure. -/
structure Unrejected (s : State) : Prop where
  users : ∀ (u : ℕ) (user : User), s.users[u]? = some user → user.phase ≠ .rejected
  reactions : ∀ u, (u, true) ∈ s.reactions → ∃ user, s.users[u]? = some user ∧ user.phase ≠ .waiting

/-- A failure is heard of by those who heard of it before, by who comes after the failure, and when the
closing fails by its owner and by those who wait for it. -/
theorem reaction_cases (ht : step s a = some t) {u : ℕ} (hmem : (u, true) ∈ t.reactions) :
    (u, true) ∈ s.reactions ∨
      (∃ kind c, a = .arrive kind ∧ s.authSessionClosing = some c ∧ c.settled = some true) ∨
      ∃ failed c σ σ', a = .closing failed ∧ s.authSessionClosing = some c ∧ s.sessions[c.session]? = some σ ∧
        σ.close failed = some (σ', some true) ∧ (u = c.owner ∨ u ∈ c.waiters) := by
  obtain ⟨kind, rfl, rfl⟩ | ⟨rfl, hresume⟩ | ⟨failed, rfl, hclosing⟩ | hchange := step_cases ht
  · cases hc : s.authSessionClosing with
    | none =>
      rw [arrive_enter hc, enter_eq] at hmem
      exact Or.inl hmem
    | some c =>
      cases hset : c.settled with
      | none =>
        rw [arrive_wait hc hset] at hmem
        exact Or.inl hmem
      | some f =>
        rw [arrive_behind hc hset] at hmem
        rcases List.mem_append.1 hmem with hold | hnew
        · exact Or.inl hold
        · obtain ⟨-, rfl⟩ := Prod.mk.inj (List.mem_singleton.1 hnew)
          exact Or.inr (Or.inl ⟨kind, c, rfl, rfl, hset⟩)
  · obtain ⟨v, failed, rest, hr, ⟨kind, g, closing, -, rfl⟩ | ⟨kind, -, -, rfl⟩ | ⟨kind, -, rfl⟩⟩ :=
      resume_cases hresume
    · exact Or.inl (hr ▸ List.mem_cons_of_mem _ hmem)
    · exact Or.inl (hr ▸ List.mem_cons_of_mem _ hmem)
    · rw [enter_eq] at hmem
      exact Or.inl (hr ▸ List.mem_cons_of_mem _ hmem)
  · obtain ⟨c, σ, σ', hc, hσ, ⟨-, rfl⟩ | ⟨f, hclose, rfl⟩⟩ := closing_cases hclosing
    · exact Or.inl hmem
    · refine Or.inr (Or.inr ⟨failed, c, σ, σ', rfl, hc, hσ, ?_⟩)
      rcases List.mem_cons.1 hmem with heq | hwaiter
      · obtain ⟨rfl, rfl⟩ := Prod.mk.inj heq
        exact ⟨hclose, Or.inl rfl⟩
      · obtain ⟨w, hw, heq⟩ := List.mem_map.1 hwaiter
        obtain ⟨rfl, rfl⟩ := Prod.mk.inj heq
        exact ⟨hclose, Or.inr hw⟩
  · refine Or.inl ?_
    cases hchange with
    | sessions sessions hlen ht =>
      subst ht
      exact hmem
    | seat v g old new sessions hlen hu hold hnew ht =>
      subst ht
      exact hmem
    | leaves u g kind old hu hold ht =>
      subst ht
      unfold State.leave at hmem
      split_ifs at hmem
      · exact hmem
      · exact hmem

theorem Unrejected.step (h : s.Unrejected) (hinv : s.Inv) (hcalm : Calm s a) (ht : Session.step s a = some t) :
    t.Unrejected := by
  have hstays : ∀ (u : ℕ) (user : User), s.users[u]? = some user → user.phase ≠ .waiting →
      ∃ user' : User, t.users[u]? = some user' ∧ user'.phase ≠ .waiting := by
    intro u user hu hphase
    have hlt := (List.getElem?_eq_some_iff.1 hu).1
    have hu' := List.getElem?_eq_getElem (hlt.trans_le (Grows.of_step ht).users)
    refine ⟨_, hu', fun hwaiting => ?_⟩
    cases UserStep.of_step ht hu' with
    | goes old hold _ hwaits =>
      obtain rfl := Option.some.inj (hu.symm.trans hold)
      exact hphase (hwaits hwaiting)
    | enters hjoined => exact nomatch hjoined.symm.trans hwaiting
    | comes hnew => exact absurd hnew hlt.ne
    | rejected _ _ _ _ hrejected => exact nomatch hrejected.symm.trans hwaiting
  refine ⟨fun u user' hu' hrejected => ?_, fun u hmem => ?_⟩
  · cases UserStep.of_step ht hu' with
    | goes user hu _ _ hback => exact h.users u user hu (hback hrejected)
    | enters hjoined => exact nomatch hjoined.symm.trans hrejected
    | comes _ hwaiting => exact nomatch hwaiting.symm.trans hrejected
    | rejected hr user hu hwaiting =>
      obtain ⟨user₀, hu₀, hne⟩ := h.reactions u hr
      obtain rfl := Option.some.inj (hu.symm.trans hu₀)
      exact hne hwaiting
  · obtain hold | ⟨kind, c, rfl, hc, hset⟩ | ⟨failed, c, σ, σ', rfl, hc, hσ, hclose, hor⟩ := reaction_cases ht hmem
    · obtain ⟨user, hu, hne⟩ := h.reactions u hold
      exact hstays u user hu hne
    · exact absurd hset (hcalm c hc)
    · obtain rfl | hwaiter := hor
      · obtain ⟨-, kind, howner⟩ := hinv.closer c hc
        exact hstays _ _ howner nofun
      · rw [hcalm c σ σ' hc hσ hclose] at hwaiter
        exact nomatch hwaiter

/-- In a calm run nobody is rejected. -/
theorem unrejected_of_calm (h : ReachableVia Session.step Calm State.init s) : s.Unrejected := by
  have hboth : s.Inv ∧ s.Unrejected := by
    refine h.invariant (I := fun s => s.Inv ∧ s.Unrejected) ⟨inv_init, nofun, nofun⟩ ?_
    intro s a t hs hcalm ht
    exact ⟨hs.1.step ht, hs.2.step hs.1 hcalm ht⟩
  exact hboth.2

end State

/-! ## The shared session -/

/-- Whatever comes, acts, fails and closes in whatever order, the session is shared safely, never stuck, and
at rest closed once for every time that it was opened; whoever comes while no session is current is served by
a later one. In a run in which nobody waits for a closing that fails, everybody is served. -/
theorem shared_session (s : State) (hs : Reachable step State.init s) :
    Safe s ∧ (¬ s.Rested → s.Moves) ∧
      (s.Rested → (∀ (g : ℕ) (σ : AuthSession), s.sessions[g]? = some σ →
          (σ.phase = .closed ∧ σ.closes = 1) ∨ (σ.phase = .failed ∧ σ.closes = 0)) ∧
        ∀ user ∈ s.users, (∃ g, user.phase = .done g) ∨ user.phase = .rejected) ∧
      (s.authSession = none → ∀ (kind : UserKind) (t : State), Reachable step (s.arrive kind) t →
        ∃ user, t.users[s.users.length]? = some user ∧ ∀ g, user.phase.obtained = some g → s.sessions.length ≤ g) ∧
      (ReachableVia step Calm State.init s → ∀ user ∈ s.users, user.phase ≠ .rejected) := by
  have hinv : s.Inv := State.inv_of_reachable hs
  refine ⟨hinv.safe, hinv.moves, fun hrest => ⟨fun g σ hσ => hinv.rested hrest hσ, fun user huser => ?_⟩, ?_, ?_⟩
  · obtain ⟨u, hu⟩ := List.mem_iff_getElem?.1 huser
    exact hinv.rested_user hrest hu
  · intro hnone kind t ht
    have hserved : State.Served s.sessions.length s.users.length t :=
      ht.invariant (State.Served.arrive hnone kind) fun _ _ _ h _ hstep => h.step hstep
    exact ⟨_, List.getElem?_eq_getElem hserved.user, hserved.obtained _ (List.getElem?_eq_getElem hserved.user)⟩
  · intro hcalm user huser
    obtain ⟨u, hu⟩ := List.mem_iff_getElem?.1 huser
    exact (State.unrejected_of_calm hcalm).users u user hu

/-- A card is read and saved, and its user closes the session; another one comes while the context is being
closed, which fails. -/
def failingClose : List Act :=
  [.arrive .card, .opening 0 .leased, .opening 0 .live, .begin 0, .read 0 0 .running, .read 0 0 .saving,
    .read 0 0 .settled, .leave 0, .closing false, .closing false, .arrive .card, .closing true, .closing false,
    .resume, .resume]

theorem shared_session_sample : ∃ s, Reachable step State.init s ∧ Safe s ∧ s.users.length = 2 := by
  have hrun : (run step State.init failingClose).any (fun s => s.users.length = 2) = true := by decide
  obtain ⟨s, hs, hlen⟩ := exists_of_run hrun
  exact ⟨s, hs, (shared_session s hs).1, of_decide_eq_true hlen⟩

/-- Who waits for a closing that fails does not obtain a session. -/
theorem shared_session_refuses :
    ¬ ∀ s, Reachable step State.init s → ∀ user ∈ s.users, user.phase ≠ .rejected := by
  intro h
  have hrun : (run step State.init failingClose).any
      (fun s => s.users.any fun user => user.phase = .rejected) = true := by decide
  obtain ⟨s, hs, hany⟩ := exists_of_run hrun
  obtain ⟨user, huser, hphase⟩ := List.any_eq_true.1 hany
  exact h s hs user huser (of_decide_eq_true hphase)

end AmoAnalytics.CrmControl.Session
