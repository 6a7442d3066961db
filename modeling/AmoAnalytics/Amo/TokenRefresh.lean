import AmoAnalytics.Amo.Connection
import AmoAnalytics.Lib.Workers

/-!
# Refreshing the tokens of a connection

Every API client holds a copy of the credentials as its connection row was read, and refreshes them
on its own. `refreshInFlight` keeps one client from sending two requests; nothing keeps two clients
from it. The provider exchanges a refresh token once.

A run keeps every exchange (`OneAtATime`) when a client sends its request only with the stored token
and while no exchange of another client waits to be saved, and when no answer is lost.
-/

namespace AmoAnalytics.Amo

/-! ## The provider and the stored row -/

/-- The answer to a refresh request. -/
structure AmoTokens where
  accessToken : String
  refreshToken : String
  expiresIn : ℤ

/-- The stored credentials and the provider's side: the refresh tokens issued and exchanged, the
access and refresh token of the last exchange, and the requests whose client is gone. `resent` lists
the tokens that were sent after their exchange. -/
structure TokenStore where
  credentials : AmoCredentials
  issued : List String
  exchanged : List String := []
  latest : String × String
  abandoned : List String := []
  resent : List String := []

namespace TokenStore

/-- The store after the connection was made. -/
def connected (credentials : AmoCredentials) : TokenStore where
  credentials := credentials
  issued := [credentials.refreshToken]
  latest := (credentials.accessToken, credentials.refreshToken)

/-- A refresh token that the provider accepts. -/
def Live (store : TokenStore) (token : String) : Prop :=
  token ∈ store.issued ∧ token ∉ store.exchanged

instance (store : TokenStore) (token : String) : Decidable (store.Live token) :=
  inferInstanceAs (Decidable (_ ∧ _))

/-- The provider takes a token and issues the next one. -/
def exchange (store : TokenStore) (token : String) (next : AmoTokens) : TokenStore :=
  { store with
    issued := next.refreshToken :: store.issued
    exchanged := token :: store.exchanged
    latest := (next.accessToken, next.refreshToken) }

end TokenStore

/-! ## The client -/

/-- `performTokenRefresh` after its request, with the token sent; after the provider's answer, `none`
for an error; and with the new credentials in memory, before `onCredentialsChanged`. -/
inductive RefreshPhase
  | requested (token : String)
  | answered (tokens : Option AmoTokens)
  | saving

/-- A program that has no client, has read the connection, or holds a client with the credentials in
memory and its `refreshInFlight`. -/
inductive AmoClient
  | absent
  | connectionRead (credentials : AmoCredentials)
  | client (credentials : AmoCredentials) (refreshInFlight : Option RefreshPhase)

/-- Why a refresh is wanted: `ensureFreshToken` at a time, or a response 401 to a request that used an
access token. -/
inductive RefreshReason
  | expired (now : ℤ)
  | rejected (usedAccessToken : String)

/-- The credentials in memory want a refresh. -/
def RefreshReason.wanted (credentials : AmoCredentials) : RefreshReason → Bool
  | .expired now => !decide (now < credentials.expiresAt - 60_000)
  | .rejected usedAccessToken => usedAccessToken == credentials.accessToken

inductive RefreshAction
  | readConnection
  | getClient
  | refreshToken (reason : RefreshReason)
  /-- The provider handles the request. -/
  | answer (next : AmoTokens)
  | receive (now : ℤ)
  /-- The request timed out or failed, on its way there or back. -/
  | requestFailed
  | save
  | saveFailed
  /-- The program ends or stops. -/
  | drop
  /-- The provider handles a request whose client is gone. -/
  | answerAbandoned (token : String) (next : AmoTokens)

/-- The credentials that an answer puts in memory. -/
def AmoTokens.credentials (tokens : AmoTokens) (now : ℤ) : AmoCredentials :=
  ⟨tokens.accessToken, tokens.refreshToken, now + tokens.expiresIn * 1000⟩

/-- One statement of a program that uses the connection. -/
def refreshAct (store : TokenStore) : AmoClient → RefreshAction → Option (TokenStore × AmoClient)
  | .absent, .readConnection => some (store, .connectionRead store.credentials)
  | .connectionRead credentials, .getClient => some (store, .client credentials none)
  | .client credentials none, .refreshToken reason =>
    if reason.wanted credentials then
      some ({ store with
        resent := if credentials.refreshToken ∈ store.exchanged
          then credentials.refreshToken :: store.resent else store.resent },
        .client credentials (some (.requested credentials.refreshToken)))
    else some (store, .client credentials none)
  -- The refresh in flight is waited for.
  | .client credentials (some phase), .refreshToken _ =>
    some (store, .client credentials (some phase))
  | .client credentials (some (.requested token)), .answer next =>
    if store.Live token then
      if next.refreshToken ∈ store.issued then none
      else some (store.exchange token next, .client credentials (some (.answered (some next))))
    else some (store, .client credentials (some (.answered none)))
  | .client _ (some (.answered (some tokens))), .receive now =>
    some (store, .client (tokens.credentials now) (some .saving))
  | .client credentials (some (.answered none)), .receive _ =>
    some (store, .client credentials none)
  | .client credentials (some (.requested token)), .requestFailed =>
    some ({ store with abandoned := token :: store.abandoned }, .client credentials none)
  | .client credentials (some (.answered _)), .requestFailed =>
    some (store, .client credentials none)
  | .client credentials (some .saving), .save =>
    some ({ store with credentials := credentials }, .client credentials none)
  | .client credentials (some .saving), .saveFailed => some (store, .client credentials none)
  | .client _ (some (.requested token)), .drop =>
    some ({ store with abandoned := token :: store.abandoned }, .absent)
  | _, .drop => some (store, .absent)
  | client, .answerAbandoned token next =>
    if token ∈ store.abandoned then
      if store.Live token then
        if next.refreshToken ∈ store.issued then none else some (store.exchange token next, client)
      else some (store, client)
    else none
  | _, _ => none

/-! ## What a client owes -/

/-- The token of the request on its way. -/
def AmoClient.request : AmoClient → Option String
  | .client _ (some (.requested token)) => some token
  | _ => none

/-- The tokens of an exchange that is not saved yet. -/
def AmoClient.unsaved : AmoClient → Option (String × String)
  | .client _ (some (.answered (some tokens))) => some (tokens.accessToken, tokens.refreshToken)
  | .client credentials (some .saving) => some (credentials.accessToken, credentials.refreshToken)
  | _ => none

/-- A new request carries the stored token and no exchange waits to be saved; no exchange is dropped
before it is saved, and the provider takes no token from a request that was given up. -/
def OneAtATime (w : World TokenStore AmoClient) (a : ℕ × RefreshAction) : Prop :=
  match a.2 with
  | .refreshToken reason => ∀ credentials, w.locals a.1 = .client credentials none →
    reason.wanted credentials = true →
    credentials.refreshToken = w.store.credentials.refreshToken ∧ ∀ i, (w.locals i).unsaved = none
  | .requestFailed | .saveFailed | .drop => (w.locals a.1).unsaved = none
  | .answerAbandoned token _ => ¬ w.store.Live token
  | _ => True

/-! ## The invariant -/

/-- The provider accepts no token but the last one issued. -/
structure ProviderInv (store : TokenStore) : Prop where
  exchanged_issued : ∀ token ∈ store.exchanged, token ∈ store.issued
  latest_live : store.Live store.latest.2
  eq_latest : ∀ token, store.Live token → token = store.latest.2

theorem ProviderInv.connected (credentials : AmoCredentials) :
    ProviderInv (.connected credentials) where
  exchanged_issued := fun _ h => absurd h List.not_mem_nil
  latest_live := ⟨List.mem_singleton_self _, List.not_mem_nil⟩
  eq_latest := fun _ h => List.mem_singleton.1 h.1

theorem ProviderInv.exchange {store : TokenStore} (h : ProviderInv store) {token : String}
    {next : AmoTokens} (hlive : store.Live token) (hfresh : next.refreshToken ∉ store.issued) :
    ProviderInv (store.exchange token next) := by
  have hissued : ∀ t ∈ token :: store.exchanged, t ∈ store.issued :=
    List.forall_mem_cons.2 ⟨hlive.1, h.exchanged_issued⟩
  refine ⟨fun t ht => List.mem_cons_of_mem _ (hissued t ht),
    ⟨List.mem_cons_self, fun hmem => hfresh (hissued _ hmem)⟩, ?_⟩
  rintro t ⟨ht, hexchanged⟩
  rcases List.mem_cons.1 ht with heq | hold
  · exact heq
  · -- Of the tokens issued before, only `token` was live, and it is exchanged now.
    have hlast : t = store.latest.2 :=
      h.eq_latest t ⟨hold, fun hmem => hexchanged (List.mem_cons_of_mem _ hmem)⟩
    have htoken : t = token := hlast.trans (h.eq_latest token hlive).symm
    exact absurd (htoken ▸ List.mem_cons_self) hexchanged

/-- What holds in every state of a run that keeps `OneAtATime`. -/
structure TokenInv (w : World TokenStore AmoClient) : Prop where
  provider : ProviderInv w.store
  resent : w.store.resent = []
  request : ∀ i token, (w.locals i).request = some token →
    token ∈ w.store.exchanged ∨ token = w.store.credentials.refreshToken
  saved : (∀ i, (w.locals i).unsaved = none) →
    (w.store.credentials.accessToken, w.store.credentials.refreshToken) = w.store.latest
  unsaved : ∀ i tokens, (w.locals i).unsaved = some tokens →
    tokens = w.store.latest ∧ w.store.credentials.refreshToken ∈ w.store.exchanged
  single : ∀ i j, (w.locals i).unsaved.isSome → (w.locals j).unsaved.isSome → i = j

namespace TokenInv

variable {w : World TokenStore AmoClient} {i : ℕ} {client : AmoClient}

theorem start (credentials : AmoCredentials) :
    TokenInv (.start (.connected credentials) .absent) where
  provider := .connected credentials
  resent := rfl
  request := fun _ _ h => nomatch h
  saved := fun _ => rfl
  unsaved := fun _ _ h => nomatch h
  single := fun _ _ h => nomatch h

/-- The requests on their way after a step of one client. -/
theorem forall_request {P : String → Prop} (hi : ∀ token, client.request = some token → P token)
    (h : ∀ j, j ≠ i → ∀ token, (w.locals j).request = some token → P token) (j : ℕ) (token : String)
    (ht : (Function.update w.locals i client j).request = some token) : P token :=
  World.forall_update (P := fun c : AmoClient => ∀ token, c.request = some token → P token) hi h j token ht

/-- While nothing is unsaved, the stored token is the live one. -/
theorem stored_live (h : TokenInv w) (hnone : ∀ i, (w.locals i).unsaved = none) :
    w.store.credentials.refreshToken ∉ w.store.exchanged := by
  have hlatest := congrArg Prod.snd (h.saved hnone)
  rw [show w.store.credentials.refreshToken = w.store.latest.2 from hlatest]
  exact h.provider.latest_live.2

/-- A step that neither sends nor exchanges nor saves. -/
theorem quiet (h : TokenInv w) (abandoned : List String)
    (hrequest : ∀ token, client.request = some token → (w.locals i).request = some token)
    (hunsaved : client.unsaved = (w.locals i).unsaved) :
    TokenInv ⟨{ w.store with abandoned := abandoned }, Function.update w.locals i client⟩ := by
  have hall : ∀ j, (Function.update w.locals i client j).unsaved = (w.locals j).unsaved := by
    intro j
    by_cases hj : j = i
    · subst hj
      rw [Function.update_self, hunsaved]
    · rw [Function.update_of_ne hj]
  refine ⟨⟨h.provider.1, h.provider.2, h.provider.3⟩, h.resent, ?_, ?_, ?_, ?_⟩
  · refine forall_request (fun token ht => h.request i token (hrequest token ht)) ?_
    exact fun j _ => h.request j
  · exact fun hnone => h.saved fun j => (hall j).symm.trans (hnone j)
  · exact fun j tokens ht => h.unsaved j tokens ((hall j).symm.trans ht)
  · intro j k hj hk
    rw [hall] at hj hk
    exact h.single j k hj hk

/-- A request with the stored token, while nothing is unsaved. -/
theorem send (h : TokenInv w) {credentials : AmoCredentials}
    (htoken : credentials.refreshToken = w.store.credentials.refreshToken)
    (hnone : ∀ i, (w.locals i).unsaved = none) :
    TokenInv ⟨{ w.store with
      resent := if credentials.refreshToken ∈ w.store.exchanged
        then credentials.refreshToken :: w.store.resent else w.store.resent },
      Function.update w.locals i
        (.client credentials (some (.requested credentials.refreshToken)))⟩ := by
  have hall : ∀ j, (Function.update w.locals i
      (.client credentials (some (.requested credentials.refreshToken))) j).unsaved = none :=
    World.forall_update (P := fun c : AmoClient => c.unsaved = none) rfl fun j _ => hnone j
  refine ⟨⟨h.provider.1, h.provider.2, h.provider.3⟩, ?_, ?_, fun _ => h.saved hnone, ?_, ?_⟩
  · show (if _ then _ else _) = []
    rw [if_neg (htoken ▸ h.stored_live hnone)]
    exact h.resent
  · refine forall_request ?_ fun j _ => h.request j
    rintro token ⟨rfl⟩
    exact Or.inr htoken
  · intro j tokens ht
    exact absurd (ht.symm.trans (hall j)) nofun
  · intro j k hj
    rw [hall] at hj
    exact absurd hj nofun

/-- The provider takes the token of a request. -/
theorem exchange (h : TokenInv w) {token : String} {next : AmoTokens}
    (hi : (w.locals i).unsaved = none) (hrequest : (w.locals i).request = some token)
    (hlive : w.store.Live token) (hfresh : next.refreshToken ∉ w.store.issued)
    (hclient : client.unsaved = some (next.accessToken, next.refreshToken))
    (hnew : client.request = none) :
    TokenInv ⟨w.store.exchange token next, Function.update w.locals i client⟩ := by
  -- The token is the stored one, so no other exchange is under way.
  have htoken : token = w.store.credentials.refreshToken :=
    (h.request i token hrequest).resolve_left hlive.2
  have hnone : ∀ j, (w.locals j).unsaved = none := by
    intro j
    rcases hj : (w.locals j).unsaved with _ | tokens
    · rfl
    · exact absurd (htoken ▸ (h.unsaved j tokens hj).2) hlive.2
  have hself : (Function.update w.locals i client i).unsaved =
      some (next.accessToken, next.refreshToken) := by
    rw [Function.update_self, hclient]
  have hother : ∀ j, j ≠ i → (Function.update w.locals i client j).unsaved = none := by
    intro j hj
    rw [Function.update_of_ne hj, hnone j]
  refine ⟨h.provider.exchange hlive hfresh, h.resent, ?_, ?_, ?_, ?_⟩
  · refine forall_request (fun t ht => ?_) fun j _ t ht => ?_
    · rw [hnew] at ht
      cases ht
    · exact (h.request j t ht).imp_left (List.mem_cons_of_mem _)
  · exact fun hall => absurd (hself.symm.trans (hall i)) nofun
  · intro j tokens ht
    by_cases hj : j = i
    · subst hj
      exact ⟨Option.some.inj (ht.symm.trans hself), htoken ▸ List.mem_cons_self⟩
    · exact absurd (ht.symm.trans (hother j hj)) nofun
  · have honly : ∀ j, (Function.update w.locals i client j).unsaved.isSome → j = i := by
      intro j hj
      by_contra hne
      rw [hother j hne] at hj
      cases hj
    intro j k hj hk
    exact (honly j hj).trans (honly k hk).symm

/-- A client saves its exchange. -/
theorem save (h : TokenInv w) {credentials : AmoCredentials}
    (hi : (w.locals i).unsaved = some (credentials.accessToken, credentials.refreshToken)) :
    TokenInv ⟨{ w.store with credentials := credentials },
      Function.update w.locals i (.client credentials none)⟩ := by
  obtain ⟨hlatest, hstored⟩ := h.unsaved i _ hi
  have hnone : ∀ j, (Function.update w.locals i (.client credentials none) j).unsaved = none := by
    refine World.forall_update (P := fun c : AmoClient => c.unsaved = none) rfl fun j hj => ?_
    rcases hj' : (w.locals j).unsaved with _ | tokens
    · rfl
    · exact absurd (h.single j i (by rw [hj']; rfl) (by rw [hi]; rfl)) hj
  refine ⟨⟨h.provider.1, h.provider.2, h.provider.3⟩, h.resent, ?_, fun _ => hlatest, ?_, ?_⟩
  · -- What was on its way with the old stored token is exchanged by now.
    refine forall_request (fun t ht => nomatch ht) fun j _ t ht => ?_
    exact Or.inl ((h.request j t ht).elim id fun heq => heq ▸ hstored)
  · intro j tokens ht
    exact absurd (ht.symm.trans (hnone j)) nofun
  · intro j k hj
    rw [hnone] at hj
    exact absurd hj nofun

/-- Every statement that meets the condition keeps the invariant. -/
theorem step {w' : World TokenStore AmoClient} {a : ℕ × RefreshAction} (h : TokenInv w)
    (hG : OneAtATime w a) (hstep : World.step refreshAct w a = some w') : TokenInv w' := by
  obtain ⟨i, action⟩ := a
  obtain ⟨store', client', hact, rfl⟩ := World.step_eq_some.1 hstep
  have hquiet : ∀ {client : AmoClient},
      (∀ token, client.request = some token → (w.locals i).request = some token) →
      client.unsaved = (w.locals i).unsaved →
      TokenInv ⟨w.store, Function.update w.locals i client⟩ :=
    fun hrequest hunsaved => h.quiet w.store.abandoned hrequest hunsaved
  unfold OneAtATime at hG
  generalize hclient : w.locals i = client at hact hquiet
  unfold refreshAct at hact
  split at hact
  case h_1 => cases hact; exact hquiet nofun rfl
  case h_2 => cases hact; exact hquiet nofun rfl
  case h_3 reason =>
    split at hact
    case isTrue hwanted =>
      cases hact
      obtain ⟨htoken, hnone⟩ := hG _ hclient hwanted
      exact h.send htoken hnone
    case isFalse => cases hact; exact hquiet nofun rfl
  case h_4 => cases hact; exact hquiet (fun _ => id) rfl
  case h_5 credentials token next =>
    split_ifs at hact with hlive hfresh
    · cases hact
      exact h.exchange (by rw [hclient]; rfl) (by rw [hclient]; rfl) hlive hfresh rfl rfl
    · cases hact
      exact hquiet nofun rfl
  case h_6 => cases hact; exact hquiet nofun rfl
  case h_7 => cases hact; exact hquiet nofun rfl
  case h_8 => cases hact; exact h.quiet _ nofun (by rw [hclient]; rfl)
  case h_9 => cases hact; exact hquiet nofun (hclient ▸ hG.symm)
  case h_10 => cases hact; exact h.save (by rw [hclient]; rfl)
  case h_11 => cases hact; exact hquiet nofun (hclient ▸ hG.symm)
  case h_12 => cases hact; exact h.quiet _ nofun (by rw [hclient]; rfl)
  case h_13 => cases hact; exact hquiet nofun (hclient ▸ hG.symm)
  case h_14 =>
    rw [if_neg hG] at hact
    split_ifs at hact
    cases hact
    exact hquiet (fun _ => id) rfl
  case h_15 => cases hact

end TokenInv

/-- **Refresh tokens are used once.** However many clients are created for a connection, in a run that
keeps `OneAtATime` no client sends a refresh token that was exchanged before, and whenever no exchange
is on its way to the row, the stored tokens are those of the last exchange. -/
theorem refresh_tokens_used_once {credentials : AmoCredentials} {w : World TokenStore AmoClient}
    (h : Run.ReachableVia (World.step refreshAct) OneAtATime
      (.start (.connected credentials) .absent) w) :
    w.store.resent = [] ∧ ((∀ i, (w.locals i).unsaved = none) →
      (w.store.credentials.accessToken, w.store.credentials.refreshToken) = w.store.latest) := by
  have hinv : TokenInv w :=
    h.invariant (.start credentials) fun _ _ _ hu hG hstep => hu.step hG hstep
  exact ⟨hinv.resent, hinv.saved⟩

section Sample

/-- Credentials that have expired at the time 0. -/
def sampleCredentials : AmoCredentials := ⟨"access-0", "refresh-0", 0⟩

def sampleTokens : AmoTokens := ⟨"access-1", "refresh-1", 3600⟩

/-- One client refreshes and saves the tokens. -/
theorem refresh_tokens_used_once_sample :
    ∃ w, Run.ReachableVia (World.step refreshAct) OneAtATime
        (.start (.connected sampleCredentials) .absent) w ∧
      w.store.exchanged = ["refresh-0"] ∧ w.store.resent = [] ∧
      (w.store.credentials.accessToken, w.store.credentials.refreshToken) =
        ("access-1", "refresh-1") := by
  have hrun : ∃ w, Run.ReachableVia (World.step refreshAct) OneAtATime
        (.start (.connected sampleCredentials) .absent) w ∧
      w.store.exchanged = ["refresh-0"] ∧ w.store.latest = ("access-1", "refresh-1") ∧
      ∀ i, (w.locals i).unsaved = none := by
    refine ⟨_, ((Run.ReachableVia.single (a := (0, .readConnection)) trivial rfl).trans
      (.single (a := (0, .getClient)) trivial rfl)).trans
      (((Run.ReachableVia.single (a := (0, .refreshToken (.expired 0))) ?_ rfl).trans
      (.single (a := (0, .answer sampleTokens)) trivial rfl)).trans
      ((Run.ReachableVia.single (a := (0, .receive 1)) trivial rfl).trans
      (.single (a := (0, .save)) trivial rfl))), rfl, rfl, ?_⟩
    · rintro credentials ⟨rfl⟩ -
      refine ⟨rfl, fun i => ?_⟩
      cases i <;> rfl
    · intro i
      cases i <;> rfl
  obtain ⟨w, hreach, hexchanged, hlatest, hnone⟩ := hrun
  obtain ⟨hresent, hsaved⟩ := refresh_tokens_used_once hreach
  exact ⟨w, hreach, hexchanged, hresent, (hsaved hnone).trans hlatest⟩

/-- Two clients are created from the same row. The second sends the refresh token that the first has
exchanged, although the first has already saved the next one. -/
theorem second_client_sends_exchanged_token :
    ∃ w, Run.Reachable (World.step refreshAct) (.start (.connected sampleCredentials) .absent) w ∧
      w.store.credentials.refreshToken = "refresh-1" ∧ w.store.exchanged = ["refresh-0"] ∧
      (w.locals 0).request = none ∧ (w.locals 1).request = some "refresh-0" ∧
      w.store.resent = ["refresh-0"] := by
  have hrun : Run.run (World.step refreshAct) (.start (.connected sampleCredentials) .absent)
      [(0, .readConnection), (1, .readConnection), (0, .getClient), (1, .getClient),
        (0, .refreshToken (.expired 0)), (0, .answer sampleTokens), (0, .receive 1), (0, .save),
        (1, .refreshToken (.expired 2))] = some _ := rfl
  exact ⟨_, Run.reachable_of_run hrun, rfl, rfl, rfl, rfl, rfl⟩

end Sample

end AmoAnalytics.Amo
