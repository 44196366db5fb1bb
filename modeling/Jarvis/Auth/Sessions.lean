/-
  Jarvis.Auth.Sessions — sessions of the owner, from login to revocation (`auth/service.py`: `_new_session`,
  `_rotate_previous`, `authenticate`, `_revoke_expired`, `logout`; `auth/bootstrap.py`: `reset_owner_password`).

  A request reads the clock once, at its start, and its transactions may commit at any time after that: so
  every move has a time of its own, not later than the clock. `authenticate` decides in one transaction and
  revokes an expired session in another, and anything may happen between them. A restart may bring another
  server key, and ends every request. Networks, user agents and audit events are left out.

  The system also keeps which logins opened sessions (`State.opened`) and which requests were accepted
  (`State.accesses`).

  Proved, of every run:
  (1) Lifetimes (`accesses_timely`): a request is accepted less than the absolute lifetime after the
      session's login, and less than the idle lifetime after that or an earlier request, which was accepted.
  (2) A session that was ended is ended for good (`ended_for_good`): after logout, a login that replaces it,
      or a reset of the password, no request is accepted under it.
  (3) No session is revoked for a reason that does not hold when it is revoked (`revoked_justified`), however
      old the observation is.
  (4) After a reset of the password, the sessions in use were opened after it and with the new password,
      whatever was in flight (`reset_effective`).
-/
import Jarvis.Auth.Login
import Jarvis.Lib.Keyed

namespace Jarvis.Auth.Sessions

/-- The lifetimes of `Settings`. -/
structure SessionSettings where
  sessionIdleSeconds : Nat := 1800
  sessionAbsoluteSeconds : Nat := 43200
  sessionTouchIntervalSeconds : Nat := 60
  idle_range : 60 ≤ sessionIdleSeconds ∧ sessionIdleSeconds ≤ 86400 := by decide
  absolute_range : 300 ≤ sessionAbsoluteSeconds ∧ sessionAbsoluteSeconds ≤ 604800 := by decide
  touch_range : 1 ≤ sessionTouchIntervalSeconds ∧ sessionTouchIntervalSeconds ≤ 3600 := by decide
  idle_le_absolute : sessionIdleSeconds ≤ sessionAbsoluteSeconds := by decide
  touch_le_idle : sessionTouchIntervalSeconds ≤ sessionIdleSeconds := by decide

structure Service where
  limits : LoginSettings
  passwords : PasswordManager
  subjects : Subjects
  settings : SessionSettings
  /-- `sha256_text`. -/
  sha256 : String → String
  /-- `derive_csrf_token`, of the server key and a session's token. -/
  deriveCsrf : Option String → String → String

inductive Reason where
  | rotatedOnLogin
  | userDisabled
  | absoluteExpired
  | idleExpired
  | csrfKeyChanged
  | ownerLogout
  | localPasswordReset
  deriving DecidableEq, Repr

/-- `SessionModel`. -/
structure Session where
  id : String
  user : String
  tokenHash : String
  csrfSecretHash : String
  createdAt : Nat
  lastSeenAt : Nat
  expiresAt : Nat
  absoluteExpiresAt : Nat
  /-- `revoked_at` and `revoke_reason`. -/
  revoked : Option (Nat × Reason) := none
  expiry_order : expiresAt ≤ absoluteExpiresAt

/-- What `authenticate` saw before it revokes a session. -/
structure Observation where
  tokenHash : String
  reason : Reason
  now : Nat

/-- A login that opened a session, and the password it came with. -/
structure Opened where
  session : String
  user : String
  password : String

/-- A request that was accepted. -/
structure Access where
  session : String
  now : Nat
  readOnly : Bool
  deriving DecidableEq, Repr

/-- A login before its second transaction. -/
structure Pending where
  login : Preverified
  previousSessionToken : Option String

structure State where
  users : List (String × User)
  rates : RateKey → Option LoginRateLimit
  sessions : List Session
  pending : List Pending
  observed : List Observation
  serverKey : Option String
  clock : Nat
  /-- Latest first. -/
  opened : List Opened
  /-- Latest first. -/
  accesses : List Access

def init (serverKey : Option String) : State := ⟨[], fun _ => none, [], [], [], serverKey, 0, [], []⟩

def State.user (s : State) (name : String) : Option User := s.users.lookup name

/-- The users with one that is added or changed. -/
def setUser (users : List (String × User)) (name : String) (user : User) : List (String × User) :=
  if (users.lookup name).isSome then Keyed.replace Prod.fst name (fun _ => (name, user)) users else users ++ [(name, user)]

namespace Session

def revoke (row : Session) (now : Nat) (reason : Reason) : Session := { row with revoked := some (now, reason) }

end Session

/-- The sessions, with those that are asked for revoked unless they are. -/
def revokeWhere (asked : Session → Bool) (now : Nat) (reason : Reason) (rows : List Session) : List Session :=
  rows.map fun row => if asked row && row.revoked.isNone then row.revoke now reason else row

variable (svc : Service)

/-- The row of `_new_session`. -/
def newSession (serverKey : Option String) (id token user : String) (now : Nat) : Session where
  id
  user
  tokenHash := svc.sha256 token
  csrfSecretHash := svc.sha256 (svc.deriveCsrf serverKey token)
  createdAt := now
  lastSeenAt := now
  expiresAt := min (now + seconds svc.settings.sessionIdleSeconds) (now + seconds svc.settings.sessionAbsoluteSeconds)
  absoluteExpiresAt := now + seconds svc.settings.sessionAbsoluteSeconds
  expiry_order := Nat.min_le_right _ _

/-- A session that is seen, if it was not seen for the touch interval. -/
def Session.touch (row : Session) (now : Nat) : Session :=
  if row.lastSeenAt + seconds svc.settings.sessionTouchIntervalSeconds ≤ now then
    { row with
      lastSeenAt := now
      expiresAt := min (now + seconds svc.settings.sessionIdleSeconds) row.absoluteExpiresAt
      expiry_order := Nat.min_le_right _ _ }
  else row

/-- `_rotate_previous`. -/
def rotatePrevious (previous : Option String) (now : Nat) (rows : List Session) : List Session :=
  match previous with
  | none => rows
  | some token => if token = "" then rows else revokeWhere (fun row => row.tokenHash = svc.sha256 token) now .rotatedOnLogin rows

/-- What `authenticate` makes of a token. -/
inductive Verdict where
  /-- No session, or one that was revoked. -/
  | unknown
  | rejected (reason : Reason)
  | accepted (row : Session)

/-- Why a session that was not revoked is not accepted. -/
def refusal (s : State) (row : Session) (user : User) (token : String) (now : Nat) : Option Reason :=
  if !user.enabled then some .userDisabled
  else if row.absoluteExpiresAt ≤ now then some .absoluteExpired
  else if row.expiresAt ≤ now then some .idleExpired
  else if row.csrfSecretHash ≠ svc.sha256 (svc.deriveCsrf s.serverKey token) then some .csrfKeyChanged
  else none

/-- `get_session_with_user`. -/
def sessionWithUser (s : State) (tokenHash : String) : Option (Session × User) := do
  let row ← s.sessions.find? fun row => row.tokenHash = tokenHash
  let user ← s.user row.user
  return (row, user)

def check (s : State) (token : String) (now : Nat) : Verdict :=
  if token.length < 32 ∨ 256 < token.length then .unknown
  else
    match sessionWithUser s (svc.sha256 token) with
    | none => .unknown
    | some (row, user) =>
      if row.revoked.isSome then .unknown
      else
        match refusal svc s row user token now with
        | some reason => .rejected reason
        | none => .accepted row

/-- Whether `_revoke_expired` still revokes the session that was seen to have expired. -/
def Observation.stands (o : Observation) (s : State) (row : Session) : Bool :=
  match s.user row.user with
  | none => false
  | some user =>
    row.tokenHash = o.tokenHash && !(o.reason = .idleExpired && o.now < row.expiresAt) && !(o.reason = .userDisabled && user.enabled)

/-- `reset_owner_password` refuses where another owner is enabled. -/
def mayReset (s : State) (name : String) : Bool := s.users.all fun e => e.1 = name || !e.2.enabled

inductive Action where
  | tick (now : Nat)
  /-- A user is added or changed. -/
  | setUser (name : String) (user : User)
  | preverify (attempt : Attempt) (previousSessionToken : Option String)
  /-- The second transaction of a login, with what a session is opened with. -/
  | commit (index : Nat) (id token : String)
  | rollback (index : Nat)
  | authenticate (token : String) (now : Nat) (readOnly : Bool)
  | revokeExpired (index : Nat)
  | logout (id : String) (now : Nat)
  | resetOwnerPassword (name hash : String) (now : Nat)
  | restart (serverKey : Option String)

/-- The sessions and users after a login that succeeds. -/
def openSession (s : State) (p : Pending) (name : String) (user : User) (id token : String) : Option State :=
  let now := p.login.attempt.now
  if s.sessions.any fun row => row.tokenHash = svc.sha256 token || row.id = id then none
  else some { s with
    users := setUser s.users name user
    sessions := rotatePrevious svc p.previousSessionToken now s.sessions ++ [newSession svc s.serverKey id token name now]
    opened := ⟨id, name, p.login.attempt.password⟩ :: s.opened }

/-- The second transaction of a login. -/
def commit (s : State) (p : Pending) (id token : String) : Option State :=
  let d := decideLogin svc.limits svc.passwords svc.subjects s.rates s.user p.login
  let opened :=
    match d.user with
    | none => some s
    | some (name, user) => openSession svc s p name user id token
  opened.map fun s => { s with rates := storeRows s.rates d.rows }

def step (s : State) : Action → Option State
  | .tick now => some { s with clock := max s.clock now }
  | .setUser name user => some { s with users := Sessions.setUser s.users name user }
  | .preverify attempt previous =>
    if s.clock < attempt.now then none
    else some { s with
      pending := s.pending ++ [⟨Auth.preverify svc.limits svc.passwords svc.subjects s.rates s.user attempt, previous⟩] }
  | .commit index id token => do
    let p ← s.pending[index]?
    (commit svc s p id token).map fun t => { t with pending := s.pending.eraseIdx index }
  | .rollback index => some { s with pending := s.pending.eraseIdx index }
  | .authenticate token now readOnly =>
    if s.clock < now then none
    else
      match check svc s token now with
      | .unknown => some s
      | .rejected reason => some (if readOnly then s else { s with observed := s.observed ++ [⟨svc.sha256 token, reason, now⟩] })
      | .accepted row => some { s with
          sessions := if readOnly then s.sessions else Keyed.replace Session.tokenHash row.tokenHash (fun row => row.touch svc now) s.sessions
          accesses := ⟨row.id, now, readOnly⟩ :: s.accesses }
  | .revokeExpired index => do
    let o ← s.observed[index]?
    return { s with sessions := revokeWhere (o.stands s) o.now o.reason s.sessions, observed := s.observed.eraseIdx index }
  | .logout id now =>
    if s.clock < now then none
    else some { s with sessions := revokeWhere (fun row => row.id = id) now .ownerLogout s.sessions }
  | .resetOwnerPassword name hash now =>
    if s.clock < now then none
    else do
      let user ← s.user name
      if mayReset s name then
        some { s with
          users := Sessions.setUser s.users name { user with passwordHash := hash, enabled := true }
          sessions := revokeWhere (fun row => row.user = name) now .localPasswordReset s.sessions }
      else none
  | .restart serverKey => some { s with serverKey, pending := [], observed := [] }

/-! ## One move -/

variable {svc : Service} {s t : State} {row : Session} {accesses : List Access} {user : User} {token : String} {now : Nat} {reason : Reason}

theorem sessionWithUser_ok {tokenHash : String} (h : sessionWithUser s tokenHash = some (row, user)) :
    row ∈ s.sessions ∧ row.tokenHash = tokenHash ∧ s.user row.user = some user := by
  obtain ⟨found, hfound, h⟩ := Option.bind_eq_some_iff.mp h
  obtain ⟨other, huser, h⟩ := Option.bind_eq_some_iff.mp h
  cases h
  exact ⟨List.mem_of_find?_eq_some hfound, by simpa using List.find?_some hfound, huser⟩

theorem refusal_eq_none (h : refusal svc s row user token now = none) : now < row.expiresAt := by
  unfold refusal at h
  split at h
  · cases h
  · split at h
    · cases h
    · split at h
      · cases h
      · omega

theorem refusal_absolute (h : refusal svc s row user token now = some .absoluteExpired) : row.absoluteExpiresAt ≤ now := by
  unfold refusal at h
  split at h
  · cases h
  · split at h
    · assumption
    · split at h
      · cases h
      · split at h <;> cases h

theorem check_accepted (h : check svc s token now = .accepted row) :
    row ∈ s.sessions ∧ row.tokenHash = svc.sha256 token ∧ row.revoked = none ∧ now < row.expiresAt := by
  unfold check at h
  split at h
  · cases h
  · split at h
    · cases h
    · rename_i found user hfound
      by_cases hrevoked : found.revoked.isSome
      · simp [hrevoked] at h
      · cases hrefusal : refusal svc s found user token now with
        | some reason => simp [hrevoked, hrefusal] at h
        | none =>
          simp only [hrevoked, hrefusal] at h
          cases h
          obtain ⟨hmem, hhash, -⟩ := sessionWithUser_ok hfound
          exact ⟨hmem, hhash, by simpa using hrevoked, refusal_eq_none hrefusal⟩

theorem check_rejected (h : check svc s token now = .rejected reason) :
    ∃ row ∈ s.sessions, row.tokenHash = svc.sha256 token ∧ (reason = .absoluteExpired → row.absoluteExpiresAt ≤ now) := by
  unfold check at h
  split at h
  · cases h
  · split at h
    · cases h
    · rename_i found user hfound
      by_cases hrevoked : found.revoked.isSome
      · simp [hrevoked] at h
      · cases hrefusal : refusal svc s found user token now with
        | none => simp [hrevoked, hrefusal] at h
        | some other =>
          simp only [hrevoked, hrefusal] at h
          cases h
          obtain ⟨hmem, hhash, -⟩ := sessionWithUser_ok hfound
          exact ⟨found, hmem, hhash, fun heq => refusal_absolute (heq ▸ hrefusal)⟩

/-- What a reason says of a session, where it is one that the session or its user gives. -/
def Justified (s : State) (row : Session) (now : Nat) : Reason → Prop
  | .userDisabled => ∃ user, s.user row.user = some user ∧ user.enabled = false
  | .absoluteExpired => row.absoluteExpiresAt ≤ now
  | .idleExpired => row.expiresAt ≤ now
  | _ => True

/-- What may become of a session in one move. -/
inductive Becomes (svc : Service) (s : State) (accesses : List Access) (row : Session) : Session → Prop
  | same : Becomes svc s accesses row row
  | touched {now : Nat} (hrevoked : row.revoked = none) (hnow : now < row.expiresAt) (hclock : now ≤ s.clock)
      (haccess : ⟨row.id, now, false⟩ ∈ accesses) : Becomes svc s accesses row (row.touch svc now)
  | revoked {now : Nat} {reason : Reason} (hrevoked : row.revoked = none) (hclock : now ≤ s.clock)
      (hjustified : Justified s row now reason) : Becomes svc s accesses row (row.revoke now reason)

/-- A session that a login opened. -/
structure Opens (svc : Service) (s : State) (opened : List Opened) (row : Session) : Prop where
  isNew : ∃ id token user now, now ≤ s.clock ∧ row = newSession svc s.serverKey id token user now
  free : ∀ other ∈ s.sessions, other.tokenHash ≠ row.tokenHash ∧ other.id ≠ row.id
  opened : ∃ password, opened = ⟨row.id, row.user, password⟩ :: s.opened ∧
    ∃ user, s.user row.user = some user ∧ svc.passwords.verify user.passwordHash password = true

/-- What a move does to the sessions. -/
structure Evolves (svc : Service) (s t : State) : Prop where
  clock : s.clock ≤ t.clock
  sessions : ∃ f added, t.sessions = s.sessions.map f ++ added ∧ (∀ row ∈ s.sessions, Becomes svc s t.accesses row (f row)) ∧
    (added = [] ∧ t.opened = s.opened ∨ ∃ row, added = [row] ∧ Opens svc s t.opened row)
  accesses : t.accesses = s.accesses ∨ ∃ row ∈ s.sessions, ∃ now readOnly, row.revoked = none ∧ now < row.expiresAt ∧
    t.accesses = ⟨row.id, now, readOnly⟩ :: s.accesses

/-- A login before its second transaction knows only what is so. -/
structure Pending.Sound (svc : Service) (s : State) (p : Pending) : Prop where
  clock : p.login.attempt.now ≤ s.clock
  verified : p.login.preverified = true → svc.passwords.verify p.login.candidateHash p.login.attempt.password = true

/-- What was observed was so, of a session that there is. -/
def Observation.Sound (s : State) (o : Observation) : Prop :=
  o.now ≤ s.clock ∧ ∃ row ∈ s.sessions, row.tokenHash = o.tokenHash ∧ (o.reason = .absoluteExpired → row.absoluteExpiresAt ≤ o.now)

theorem becomes_revokeWhere {asked : Session → Bool} (hclock : now ≤ s.clock)
    (hjustified : ∀ row ∈ s.sessions, asked row = true → Justified s row now reason) :
    ∀ row ∈ s.sessions, Becomes svc s accesses row (if asked row && row.revoked.isNone then row.revoke now reason else row) := by
  intro row hrow
  split
  · rename_i h
    simp only [Bool.and_eq_true, Option.isNone_iff_eq_none] at h
    exact .revoked h.2 hclock (hjustified row hrow h.1)
  · exact .same

theorem Evolves.still (hclock : s.clock ≤ t.clock) (hsessions : t.sessions = s.sessions) (hopened : t.opened = s.opened)
    (haccesses : t.accesses = s.accesses) : Evolves svc s t :=
  ⟨hclock, ⟨id, [], by rw [hsessions, List.map_id, List.append_nil], fun _ _ => .same, .inl ⟨rfl, hopened⟩⟩, .inl haccesses⟩

/-- A login that succeeds came with the password that its user has then, whether it was checked before or not. -/
theorem decideLogin_spec {p : Preverified} {name : String} {users : String → Option User} {rates : RateKey → Option LoginRateLimit}
    (hp : p.preverified = true → svc.passwords.verify p.candidateHash p.attempt.password = true)
    (h : (decideLogin svc.limits svc.passwords svc.subjects rates users p).user = some (name, user)) :
    ∃ old, users name = some old ∧ user.enabled = true ∧ svc.passwords.verify old.passwordHash p.attempt.password = true ∧
      (user.passwordHash = old.passwordHash ∨ user.passwordHash = svc.passwords.hash p.attempt.password) := by
  simp only [decideLogin] at h
  split at h
  · cases h
  · split at h
    · cases h
    · split at h
      · cases h
      · rename_i name' hname old huser
        split at h
        · rename_i hvalid
          cases h
          simp only [Bool.and_eq_true] at hvalid
          obtain ⟨henabled, hvalid⟩ := hvalid
          have hhash : hashOf svc.passwords (some old) = old.passwordHash := if_pos henabled
          refine ⟨old, huser, henabled, ?_, ?_⟩
          · rw [hhash, Preverified.valid] at hvalid
            split at hvalid
            · exact hvalid
            · rename_i hsame
              have hsame : old.passwordHash = p.candidateHash := by simp at hsame; exact hsame.2
              rw [hsame]
              exact hp hvalid
          · show (if _ then _ else _) = _ ∨ (if _ then _ else _) = _
            split
            · exact .inr rfl
            · exact .inl rfl
        · cases h

theorem rotatePrevious_evolves (previous : Option String) (hclock : now ≤ s.clock) :
    ∃ f, rotatePrevious svc previous now s.sessions = s.sessions.map f ∧ ∀ row ∈ s.sessions, Becomes svc s accesses row (f row) := by
  unfold rotatePrevious
  split
  · exact ⟨id, (List.map_id _).symm, fun _ _ => .same⟩
  · split
    · exact ⟨id, (List.map_id _).symm, fun _ _ => .same⟩
    · exact ⟨_, rfl, becomes_revokeWhere hclock fun _ _ _ => trivial⟩

theorem openSession_evolves {p : Pending} {name id : String} (hp : p.Sound svc s)
    (huser : (decideLogin svc.limits svc.passwords svc.subjects s.rates s.user p.login).user = some (name, user))
    (h : openSession svc s p name user id token = some t) : Evolves svc s t := by
  simp only [openSession] at h
  split at h
  · cases h
  · rename_i hfree
    cases h
    obtain ⟨f, hf, hbecomes⟩ := rotatePrevious_evolves p.previousSessionToken hp.clock
    refine ⟨Nat.le_refl _, ⟨f, _, congrArg (· ++ _) hf, hbecomes, .inr ⟨_, rfl, ⟨⟨id, token, name, _, hp.clock, rfl⟩, ?_, ?_⟩⟩⟩, .inl rfl⟩
    · simpa [newSession] using hfree
    · obtain ⟨old, hold, -, hverified, -⟩ := decideLogin_spec hp.verified huser
      exact ⟨_, rfl, old, hold, hverified⟩

theorem commit_evolves {p : Pending} {id : String} (hp : p.Sound svc s) (h : commit svc s p id token = some t) : Evolves svc s t := by
  obtain ⟨u, hu, rfl⟩ := Option.map_eq_some_iff.mp h
  have hu : Evolves svc s u := by
    cases huser : (decideLogin svc.limits svc.passwords svc.subjects s.rates s.user p.login).user with
    | none =>
      rw [huser] at hu
      cases hu
      exact .still (Nat.le_refl _) rfl rfl rfl
    | some changed =>
      rw [huser] at hu
      exact openSession_evolves hp huser hu
  exact ⟨hu.clock, hu.sessions, hu.accesses⟩

theorem stands_justified {o : Observation} (ho : o.Sound s) (hids : (s.sessions.map Session.tokenHash).Nodup) :
    ∀ row ∈ s.sessions, o.stands s row = true → Justified s row o.now o.reason := by
  intro row hrow hstands
  unfold Observation.stands at hstands
  cases huser : s.user row.user with
  | none => simp [huser] at hstands
  | some user =>
    simp only [huser, Bool.and_eq_true, Bool.not_eq_true', decide_eq_true_eq] at hstands
    obtain ⟨⟨hhash, hidle⟩, hdisabled⟩ := hstands
    cases hreason : o.reason with
    | userDisabled => exact ⟨user, huser, by simpa [hreason] using hdisabled⟩
    | absoluteExpired =>
      obtain ⟨-, other, hother, hsame, habsolute⟩ := ho
      have := Keyed.unique hids hother hrow (hsame.trans hhash.symm)
      exact this ▸ habsolute hreason
    | idleExpired =>
      show row.expiresAt ≤ o.now
      simp [hreason] at hidle
      omega
    | rotatedOnLogin => trivial
    | csrfKeyChanged => trivial
    | ownerLogout => trivial
    | localPasswordReset => trivial

/-- What holds of the sessions and of what requests in flight know. -/
structure WellFormed (svc : Service) (s : State) : Prop where
  ids : (s.sessions.map Session.id).Nodup
  hashes : (s.sessions.map Session.tokenHash).Nodup
  pending : ∀ p ∈ s.pending, p.Sound svc s
  observed : ∀ o ∈ s.observed, o.Sound s

theorem step_evolves {a : Action} (hs : WellFormed svc s) (h : step svc s a = some t) : Evolves svc s t := by
  cases a with
  | tick now =>
    cases h
    exact .still (Nat.le_max_left _ _) rfl rfl rfl
  | setUser name user =>
    cases h
    exact .still (Nat.le_refl _) rfl rfl rfl
  | preverify attempt previous =>
    simp only [step] at h
    split at h <;> cases h
    exact .still (Nat.le_refl _) rfl rfl rfl
  | commit index id token =>
    obtain ⟨p, hp, h⟩ := Option.bind_eq_some_iff.mp h
    obtain ⟨u, hu, rfl⟩ := Option.map_eq_some_iff.mp h
    have hu := commit_evolves (hs.pending p (List.mem_of_getElem? hp)) hu
    exact ⟨hu.clock, hu.sessions, hu.accesses⟩
  | rollback index =>
    cases h
    exact .still (Nat.le_refl _) rfl rfl rfl
  | authenticate token now readOnly =>
    simp only [step] at h
    split at h
    · cases h
    · rename_i hclock
      split at h
      · cases h
        exact .still (Nat.le_refl _) rfl rfl rfl
      · cases h
        split <;> exact .still (Nat.le_refl _) rfl rfl rfl
      · rename_i row hcheck
        cases h
        obtain ⟨hmem, hhash, hrevoked, hnow⟩ := check_accepted hcheck
        refine ⟨Nat.le_refl _, ?_, .inr ⟨row, hmem, now, readOnly, hrevoked, hnow, rfl⟩⟩
        cases readOnly with
        | true => exact ⟨id, [], by simp, fun _ _ => .same, .inl ⟨rfl, rfl⟩⟩
        | false =>
          refine ⟨_, [], (List.append_nil _).symm, fun other hother => ?_, .inl ⟨rfl, rfl⟩⟩
          dsimp only
          split
          · rename_i hsame
            cases Keyed.unique hs.hashes hother hmem hsame
            exact .touched hrevoked hnow (by omega) (.head _)
          · exact .same
  | revokeExpired index =>
    obtain ⟨o, ho, h⟩ := Option.bind_eq_some_iff.mp h
    cases h
    have ho := hs.observed o (List.mem_of_getElem? ho)
    exact ⟨Nat.le_refl _, ⟨_, [], (List.append_nil _).symm, becomes_revokeWhere ho.1 (stands_justified ho hs.hashes), .inl ⟨rfl, rfl⟩⟩, .inl rfl⟩
  | logout id now =>
    simp only [step] at h
    split at h <;> cases h
    exact ⟨Nat.le_refl _, ⟨_, [], (List.append_nil _).symm, becomes_revokeWhere (by omega) fun _ _ _ => trivial, .inl ⟨rfl, rfl⟩⟩, .inl rfl⟩
  | resetOwnerPassword name hash now =>
    simp only [step] at h
    split at h
    · cases h
    · obtain ⟨user, -, h⟩ := Option.bind_eq_some_iff.mp h
      split at h <;> cases h
      exact ⟨Nat.le_refl _, ⟨_, [], (List.append_nil _).symm, becomes_revokeWhere (by omega) fun _ _ _ => trivial, .inl ⟨rfl, rfl⟩⟩, .inl rfl⟩
  | restart serverKey =>
    cases h
    exact .still (Nat.le_refl _) rfl rfl rfl

/-- What of a session never changes. -/
structure Keeps (row row' : Session) : Prop where
  id_eq : row'.id = row.id
  user_eq : row'.user = row.user
  tokenHash_eq : row'.tokenHash = row.tokenHash
  createdAt_eq : row'.createdAt = row.createdAt
  absoluteExpiresAt_eq : row'.absoluteExpiresAt = row.absoluteExpiresAt

theorem touch_keeps (row : Session) (now : Nat) : Keeps row (row.touch svc now) := by
  unfold Session.touch
  split <;> exact ⟨rfl, rfl, rfl, rfl, rfl⟩

theorem touch_revoked (row : Session) (now : Nat) : (row.touch svc now).revoked = row.revoked := by
  unfold Session.touch
  split <;> rfl

theorem Becomes.keeps {row' : Session} (h : Becomes svc s accesses row row') : Keeps row row' := by
  cases h with
  | same => exact ⟨rfl, rfl, rfl, rfl, rfl⟩
  | touched => exact touch_keeps row _
  | revoked => exact ⟨rfl, rfl, rfl, rfl, rfl⟩

/-- A session that was revoked stays as it is. -/
theorem Becomes.of_revoked {row' : Session} (h : Becomes svc s accesses row row') (hrevoked : row.revoked ≠ none) : row' = row := by
  cases h with
  | same => rfl
  | touched hnone => exact absurd hnone hrevoked
  | revoked hnone => exact absurd hnone hrevoked

namespace Evolves

theorem mem (h : Evolves svc s t) {row' : Session} (hrow : row' ∈ t.sessions) :
    (∃ row ∈ s.sessions, Becomes svc s t.accesses row row') ∨ Opens svc s t.opened row' := by
  obtain ⟨f, added, hsessions, hbecomes, hadded⟩ := h.sessions
  rw [hsessions, List.mem_append] at hrow
  rcases hrow with hrow | hrow
  · obtain ⟨row, hmem, rfl⟩ := List.mem_map.mp hrow
    exact .inl ⟨row, hmem, hbecomes row hmem⟩
  · rcases hadded with ⟨rfl, -⟩ | ⟨fresh, rfl, hopens⟩
    · cases hrow
    · exact .inr (List.mem_singleton.mp hrow ▸ hopens)

theorem of_mem (h : Evolves svc s t) (hrow : row ∈ s.sessions) : ∃ row' ∈ t.sessions, Becomes svc s t.accesses row row' := by
  obtain ⟨f, added, hsessions, hbecomes, -⟩ := h.sessions
  exact ⟨f row, hsessions ▸ List.mem_append_left _ (List.mem_map_of_mem hrow), hbecomes row hrow⟩

theorem opened (h : Evolves svc s t) : ∃ new, t.opened = new ++ s.opened := by
  obtain ⟨-, -, -, -, ⟨-, hopened⟩ | ⟨row, -, hopens⟩⟩ := h.sessions
  · exact ⟨[], hopened⟩
  · obtain ⟨password, hopened, -⟩ := hopens.opened
    exact ⟨[_], hopened⟩

/-- What a key that is kept is worth, the sessions of a state stay distinct in. -/
theorem nodup {β : Type} {key : Session → β} (h : Evolves svc s t) (hs : (s.sessions.map key).Nodup)
    (hkeeps : ∀ row row', Keeps row row' → key row' = key row) (hopens : ∀ row, Opens svc s t.opened row → ∀ other ∈ s.sessions, key other ≠ key row) :
    (t.sessions.map key).Nodup := by
  obtain ⟨f, added, hsessions, hbecomes, hadded⟩ := h.sessions
  have hsame : (s.sessions.map f).map key = s.sessions.map key := by
    rw [List.map_map]
    exact List.map_congr_left fun row hrow => hkeeps _ _ (hbecomes row hrow).keeps
  rcases hadded with ⟨rfl, -⟩ | ⟨fresh, rfl, hfresh⟩
  · rw [hsessions, List.append_nil, hsame]
    exact hs
  · rw [hsessions]
    refine Keyed.nodup_append (hsame ▸ hs) fun other hother => ?_
    obtain ⟨row, hrow, rfl⟩ := List.mem_map.mp hother
    rw [hkeeps _ _ (hbecomes row hrow).keeps]
    exact hopens fresh hfresh row hrow

end Evolves

theorem Pending.Sound.mono {p : Pending} (hp : p.Sound svc s) (h : s.clock ≤ t.clock) : p.Sound svc t :=
  ⟨hp.clock.trans h, hp.verified⟩

theorem Observation.Sound.evolves {o : Observation} (ho : o.Sound s) (h : Evolves svc s t) : o.Sound t := by
  obtain ⟨hclock, row, hrow, hhash, habsolute⟩ := ho
  obtain ⟨row', hrow', hbecomes⟩ := h.of_mem hrow
  refine ⟨hclock.trans h.clock, row', hrow', hbecomes.keeps.tokenHash_eq.trans hhash, fun hreason => ?_⟩
  rw [hbecomes.keeps.absoluteExpiresAt_eq]
  exact habsolute hreason

/-- A request in flight was in flight, or has just begun. -/
theorem step_pending {a : Action} (h : step svc s a = some t) : ∀ p ∈ t.pending, p ∈ s.pending ∨ p.Sound svc s := by
  intro p hp
  cases a with
  | tick | setUser =>
    cases h
    exact .inl hp
  | preverify attempt previous =>
    simp only [step] at h
    split at h
    · cases h
    · rename_i hclock
      cases h
      rcases List.mem_append.mp hp with hp | hp
      · exact .inl hp
      · cases List.mem_singleton.mp hp
        exact .inr ⟨Nat.le_of_not_lt hclock, fun hverified => (Bool.and_eq_true_iff.mp hverified).2⟩
  | commit index id token =>
    obtain ⟨q, hq, h⟩ := Option.bind_eq_some_iff.mp h
    obtain ⟨u, hu, rfl⟩ := Option.map_eq_some_iff.mp h
    exact .inl (List.mem_of_mem_eraseIdx hp)
  | rollback index =>
    cases h
    exact .inl (List.mem_of_mem_eraseIdx hp)
  | authenticate token now readOnly =>
    simp only [step] at h
    split at h
    · cases h
    · split at h <;> cases h
      · exact .inl hp
      · split at hp <;> exact .inl hp
      · exact .inl hp
  | revokeExpired index =>
    obtain ⟨o, ho, h⟩ := Option.bind_eq_some_iff.mp h
    cases h
    exact .inl hp
  | logout id now =>
    simp only [step] at h
    split at h <;> cases h
    exact .inl hp
  | resetOwnerPassword name hash now =>
    simp only [step] at h
    split at h
    · cases h
    · obtain ⟨user, -, h⟩ := Option.bind_eq_some_iff.mp h
      split at h <;> cases h
      exact .inl hp
  | restart serverKey =>
    cases h
    cases hp

theorem commit_observed {p : Pending} {id : String} (h : commit svc s p id token = some t) : t.observed = s.observed := by
  obtain ⟨u, hu, rfl⟩ := Option.map_eq_some_iff.mp h
  split at hu
  · cases hu
    rfl
  · simp only [openSession] at hu
    split at hu <;> cases hu
    rfl

theorem step_observed {a : Action} (h : step svc s a = some t) : ∀ o ∈ t.observed, o ∈ s.observed ∨ o.Sound s := by
  intro o ho
  cases a with
  | tick | setUser | rollback =>
    cases h
    exact .inl ho
  | preverify attempt previous =>
    simp only [step] at h
    split at h <;> cases h
    exact .inl ho
  | commit index id token =>
    obtain ⟨q, hq, h⟩ := Option.bind_eq_some_iff.mp h
    obtain ⟨u, hu, rfl⟩ := Option.map_eq_some_iff.mp h
    exact .inl (commit_observed hu ▸ ho)
  | authenticate token now readOnly =>
    simp only [step] at h
    split at h
    · cases h
    · rename_i hclock
      split at h
      · cases h
        exact .inl ho
      · rename_i reason hcheck
        cases h
        split at ho
        · exact .inl ho
        · rcases List.mem_append.mp ho with ho | ho
          · exact .inl ho
          · cases List.mem_singleton.mp ho
            exact .inr ⟨Nat.le_of_not_lt hclock, check_rejected hcheck⟩
      · cases h
        exact .inl ho
  | revokeExpired index =>
    obtain ⟨o, -, h⟩ := Option.bind_eq_some_iff.mp h
    cases h
    exact .inl (List.mem_of_mem_eraseIdx ho)
  | logout id now =>
    simp only [step] at h
    split at h <;> cases h
    exact .inl ho
  | resetOwnerPassword name hash now =>
    simp only [step] at h
    split at h
    · cases h
    · obtain ⟨user, -, h⟩ := Option.bind_eq_some_iff.mp h
      split at h <;> cases h
      exact .inl ho
  | restart serverKey =>
    cases h
    cases ho

theorem step_wellFormed {a : Action} (hs : WellFormed svc s) (h : step svc s a = some t) : WellFormed svc t := by
  have hevolves := step_evolves hs h
  refine ⟨hevolves.nodup hs.ids (fun _ _ h => h.id_eq) fun _ h other hother => (h.free other hother).2,
    hevolves.nodup hs.hashes (fun _ _ h => h.tokenHash_eq) fun _ h other hother => (h.free other hother).1, fun p hp => ?_, fun o ho => ?_⟩
  · rcases step_pending h p hp with hp | hp
    · exact (hs.pending p hp).mono hevolves.clock
    · exact hp.mono hevolves.clock
  · rcases step_observed h o ho with ho | ho
    · exact (hs.observed o ho).evolves hevolves
    · exact ho.evolves hevolves

/-! ## Runs -/

/-- What holds of a session. -/
structure Session.Sound (svc : Service) (s : State) (row : Session) : Prop where
  absolute : row.absoluteExpiresAt = row.createdAt + seconds svc.settings.sessionAbsoluteSeconds
  idle : row.expiresAt = min (row.lastSeenAt + seconds svc.settings.sessionIdleSeconds) row.absoluteExpiresAt
  seen : row.lastSeenAt = row.createdAt ∨ ⟨row.id, row.lastSeenAt, false⟩ ∈ s.accesses
  revoked : ∀ at', (row.revoked = some (at', .idleExpired) → row.expiresAt ≤ at') ∧
    (row.revoked = some (at', .absoluteExpired) → row.absoluteExpiresAt ≤ at')

/-- An accepted request is within the lifetimes of its session: of the login, or of an earlier request. -/
def Timely (svc : Service) (s : State) (a : Access) (earlier : List Access) : Prop :=
  ∃ row ∈ s.sessions, row.id = a.session ∧ a.now < row.createdAt + seconds svc.settings.sessionAbsoluteSeconds ∧
    (a.now < row.createdAt + seconds svc.settings.sessionIdleSeconds ∨
      ∃ b ∈ earlier, b.session = a.session ∧ b.readOnly = false ∧ a.now < b.now + seconds svc.settings.sessionIdleSeconds)

theorem accesses_suffix (h : Evolves svc s t) : s.accesses <:+ t.accesses := by
  rcases h.accesses with h | ⟨row, -, now, readOnly, -, -, h⟩
  · exact h ▸ List.suffix_rfl
  · exact h ▸ List.suffix_cons _ _

theorem Becomes.sound {row' : Session} (h : Becomes svc s t.accesses row row') (ht : Evolves svc s t) (hrow : row.Sound svc s) :
    row'.Sound svc t := by
  have hseen : row.lastSeenAt = row.createdAt ∨ ⟨row.id, row.lastSeenAt, false⟩ ∈ t.accesses :=
    hrow.seen.imp_right fun h => (accesses_suffix ht).subset h
  cases h with
  | same => exact ⟨hrow.absolute, hrow.idle, hseen, hrow.revoked⟩
  | @touched now hrevoked hnow hclock haccess =>
    unfold Session.touch
    split
    · exact ⟨hrow.absolute, rfl, .inr haccess, fun at' => by simp [hrevoked]⟩
    · exact ⟨hrow.absolute, hrow.idle, hseen, hrow.revoked⟩
  | @revoked now reason hrevoked hclock hjustified =>
    refine ⟨hrow.absolute, hrow.idle, hseen, fun at' => ⟨fun h => ?_, fun h => ?_⟩⟩
    · cases h
      exact hjustified
    · cases h
      exact hjustified

theorem Opens.sound {opened : List Opened} (h : Opens svc s opened row) : row.Sound svc t := by
  obtain ⟨id, token, user, now, -, rfl⟩ := h.isNew
  exact ⟨rfl, rfl, .inl rfl, fun at' => by simp [newSession]⟩

/-- What holds in every state reached. -/
structure Inv (svc : Service) (s : State) : Prop where
  wellFormed : WellFormed svc s
  sessions : ∀ row ∈ s.sessions, row.Sound svc s
  accesses : ∀ later a earlier, s.accesses = later ++ a :: earlier → Timely svc s a earlier

theorem Timely.evolves {a : Access} {earlier : List Access} (h : Timely svc s a earlier) (ht : Evolves svc s t) : Timely svc t a earlier := by
  obtain ⟨row, hrow, hid, habsolute, hidle⟩ := h
  obtain ⟨row', hrow', hbecomes⟩ := ht.of_mem hrow
  refine ⟨row', hrow', hbecomes.keeps.id_eq.trans hid, ?_, ?_⟩
  · rwa [hbecomes.keeps.createdAt_eq]
  · rwa [hbecomes.keeps.createdAt_eq]

/-- A session that is in use has its request in time. -/
theorem timely_of_sound {readOnly : Bool} (hrow : row ∈ s.sessions) (h : row.Sound svc s) (hnow : now < row.expiresAt) :
    Timely svc s ⟨row.id, now, readOnly⟩ s.accesses := by
  have hidle := h.idle
  have habsolute := h.absolute
  refine ⟨row, hrow, rfl, by show now < _; omega, ?_⟩
  rcases h.seen with hseen | hseen
  · exact .inl (by show now < _; omega)
  · exact .inr ⟨_, hseen, rfl, rfl, by show now < row.lastSeenAt + _; omega⟩

theorem step_inv {a : Action} (hs : Inv svc s) (h : step svc s a = some t) : Inv svc t := by
  have hevolves := step_evolves hs.wellFormed h
  refine ⟨step_wellFormed hs.wellFormed h, fun row hrow => ?_, fun later b earlier heq => ?_⟩
  · rcases hevolves.mem hrow with ⟨old, hold, hbecomes⟩ | hopens
    · exact hbecomes.sound hevolves (hs.sessions old hold)
    · exact hopens.sound
  · rcases hevolves.accesses with hsame | ⟨row, hrow, now, readOnly, -, hnow, hnew⟩
    · exact (hs.accesses later b earlier (hsame.symm.trans heq)).evolves hevolves
    · rw [hnew] at heq
      cases later with
      | nil =>
        cases heq
        exact (timely_of_sound hrow (hs.sessions row hrow) hnow).evolves hevolves
      | cons a later => exact (hs.accesses later b earlier (List.cons.inj heq).2).evolves hevolves

theorem inv_init (serverKey : Option String) : Inv svc (init serverKey) := by
  refine ⟨⟨List.nodup_nil, List.nodup_nil, by simp [init], by simp [init]⟩, by simp [init], fun later a earlier h => ?_⟩
  simp [init] at h

theorem reach_inv {serverKey : Option String} (h : Steps.Reach (step svc) (init serverKey) s) : Inv svc s :=
  h.invariant _ (inv_init serverKey) fun _ _ _ hs _ h => step_inv hs h

def sampleService : Service where
  limits := {}
  passwords := plainPasswords
  subjects := plainSubjects
  settings := {}
  sha256 := id
  deriveCsrf _ token := token

def sampleToken : String := "0123456789abcdef0123456789abcdef"

/-- A login of the owner, and a request under its session. -/
def sampleLogin : List Action := [
  .setUser "owner" { passwordHash := "right", enabled := true }, .preverify ⟨"owner", "right", "lan", 0⟩ none, .commit 0 "session" sampleToken,
  .authenticate sampleToken 0 false]

theorem exists_login : ∃ s, Steps.Reach (step sampleService) (init none) s ∧ s.accesses = [⟨"session", 0, false⟩] ∧
    ∃ row ∈ s.sessions, row.id = "session" ∧ row.user = "owner" := by
  have h : (Steps.run (step sampleService) (init none) sampleLogin).map (fun s => (s.accesses, s.sessions.map fun row => (row.id, row.user))) =
      some ([⟨"session", 0, false⟩], [("session", "owner")]) := by decide +kernel
  obtain ⟨s, hs, h⟩ := Option.map_eq_some_iff.mp h
  obtain ⟨haccesses, hsessions⟩ := Prod.mk.inj h
  obtain ⟨row, hrow, hnames⟩ := List.mem_map.mp (hsessions ▸ .head _ : ("session", "owner") ∈ s.sessions.map fun row => (row.id, row.user))
  exact ⟨s, Steps.run_reach _ hs, haccesses, row, hrow, Prod.mk.inj hnames⟩

/-- A request is accepted within the absolute lifetime of its session, and within the idle lifetime of the
    login or of an earlier request that was accepted, one that was not only a read. -/
theorem accesses_timely (svc : Service) {serverKey : Option String} {s : State} (h : Steps.Reach (step svc) (init serverKey) s)
    (later : List Access) (a : Access) (earlier : List Access) (heq : s.accesses = later ++ a :: earlier) : Timely svc s a earlier :=
  (reach_inv h).accesses later a earlier heq

theorem accesses_timely_sample : ∃ s : State, Timely sampleService s ⟨"session", 0, false⟩ [] := by
  obtain ⟨s, hs, haccesses, -⟩ := exists_login
  exact ⟨s, accesses_timely sampleService hs [] _ [] haccesses⟩

/-- A session that was revoked stays so, and no request is accepted under it. -/
structure Over (s u : State) (row : Session) : Prop where
  mem : row ∈ u.sessions
  accesses : ∃ new, u.accesses = new ++ s.accesses ∧ ∀ a ∈ new, a.session ≠ row.id

theorem Over.step {u v : State} {a : Action} (hu : Inv svc u) (hrevoked : row.revoked ≠ none) (h : Over s u row) (hv : Sessions.step svc u a = some v) :
    Over s v row := by
  have hevolves := step_evolves hu.wellFormed hv
  obtain ⟨row', hrow', hbecomes⟩ := hevolves.of_mem h.mem
  rw [hbecomes.of_revoked hrevoked] at hrow'
  obtain ⟨new, hnew, hids⟩ := h.accesses
  refine ⟨hrow', ?_⟩
  rcases hevolves.accesses with hsame | ⟨other, hother, now, readOnly, hnone, -, hmore⟩
  · exact ⟨new, hsame.trans hnew, hids⟩
  · refine ⟨_ :: new, hmore.trans (congrArg _ hnew), fun b hb => ?_⟩
    rcases List.mem_cons.mp hb with rfl | hb
    · intro heq
      rw [Keyed.unique hu.wellFormed.ids hother h.mem heq] at hnone
      exact hrevoked hnone
    · exact hids b hb

theorem over_of_revoked {u : State} (ht : Inv svc t) (hrow : row ∈ t.sessions) (hrevoked : row.revoked ≠ none)
    (hu : Steps.Reach (Sessions.step svc) t u) : Over t u row := by
  have h : Inv svc u ∧ Over t u row := hu.invariant (fun u => Inv svc u ∧ Over t u row)
    ⟨ht, hrow, [], rfl, fun _ h => absurd h List.not_mem_nil⟩ fun _ _ _ h _ hstep => ⟨step_inv h.1 hstep, h.2.step h.1 hrevoked hstep⟩
  exact h.2

/-- The sessions that a move ends: one that logs out, one that a login replaces, those of a user whose
    password is reset. -/
def Ends (svc : Service) (s : State) (row : Session) : Action → Prop
  | .logout id _ => row.id = id
  | .resetOwnerPassword name _ _ => row.user = name
  | .commit index _ _ => ∃ p ∈ s.pending[index]?, ∃ token, p.previousSessionToken = some token ∧ token ≠ "" ∧ row.tokenHash = svc.sha256 token ∧
      (decideLogin svc.limits svc.passwords svc.subjects s.rates s.user p.login).user ≠ none
  | _ => False

theorem revokeWhere_ends {asked : Session → Bool} {rows : List Session} (hrow : row ∈ rows) (hasked : asked row = true) :
    ∃ row' ∈ revokeWhere asked now reason rows, row'.id = row.id ∧ row'.revoked ≠ none := by
  refine ⟨_, List.mem_map_of_mem hrow, ?_⟩
  cases hrevoked : row.revoked with
  | none => simp [hasked, Session.revoke]
  | some => simp [hrevoked]

theorem ends_revoked {a : Action} (h : step svc s a = some t) (hrow : row ∈ s.sessions) (hends : Ends svc s row a) :
    ∃ row' ∈ t.sessions, row'.id = row.id ∧ row'.revoked ≠ none := by
  cases a with
  | logout id now =>
    simp only [step] at h
    split at h <;> cases h
    exact revokeWhere_ends hrow (decide_eq_true hends)
  | resetOwnerPassword name hash now =>
    simp only [step] at h
    split at h
    · cases h
    · obtain ⟨user, -, h⟩ := Option.bind_eq_some_iff.mp h
      split at h <;> cases h
      exact revokeWhere_ends hrow (decide_eq_true hends)
  | commit index id token =>
    obtain ⟨p, hp, previous, hprevious, hne, hhash, huser⟩ := hends
    obtain ⟨q, hq, h⟩ := Option.bind_eq_some_iff.mp h
    cases hp.symm.trans hq
    obtain ⟨u, hu, rfl⟩ := Option.map_eq_some_iff.mp h
    obtain ⟨v, hv, rfl⟩ := Option.map_eq_some_iff.mp hu
    split at hv
    · rename_i hnone
      exact absurd hnone huser
    · simp only [openSession] at hv
      split at hv <;> cases hv
      have hrotated : rotatePrevious svc p.previousSessionToken p.login.attempt.now s.sessions =
          revokeWhere (fun row => row.tokenHash = svc.sha256 previous) p.login.attempt.now .rotatedOnLogin s.sessions := by
        rw [hprevious, rotatePrevious, if_neg hne]
      have hended : ∃ row' ∈ rotatePrevious svc p.previousSessionToken p.login.attempt.now s.sessions, row'.id = row.id ∧ row'.revoked ≠ none :=
        hrotated ▸ revokeWhere_ends hrow (decide_eq_true hhash)
      obtain ⟨row', hrow', hsame⟩ := hended
      exact ⟨row', List.mem_append_left _ hrow', hsame⟩
  | tick | setUser | preverify | rollback | authenticate | revokeExpired | restart => exact hends.elim

theorem lookup_replace (users : List (String × User)) (name : String) (user : User) (other : String) :
    (Keyed.replace Prod.fst name (fun _ => (name, user)) users).lookup other =
      if other = name then (users.lookup other).map fun _ => user else users.lookup other := by
  induction users with
  | nil => simp [Keyed.replace]
  | cons e users ih =>
    obtain ⟨key, old⟩ := e
    simp only [Keyed.replace, List.map_cons] at ih ⊢
    by_cases hkey : key = name
    · subst hkey
      by_cases hother : other = key
      · subst hother
        simp
      · simp only [if_pos, List.lookup_cons, beq_eq_false_iff_ne.mpr hother, ih, if_neg hother]
    · by_cases hother : other = key
      · subst hother
        simp [hkey]
      · simp only [if_neg hkey, List.lookup_cons, beq_eq_false_iff_ne.mpr hother, ih]

theorem lookup_setUser (users : List (String × User)) (name : String) (user : User) (other : String) :
    (setUser users name user).lookup other = if other = name then some user else users.lookup other := by
  unfold setUser
  by_cases hother : other = name
  · subst hother
    split
    · rename_i hsome
      obtain ⟨old, hold⟩ := Option.isSome_iff_exists.mp hsome
      rw [lookup_replace, if_pos rfl, if_pos rfl, hold, Option.map_some]
    · rename_i hnone
      rw [List.lookup_append, if_pos rfl, Option.not_isSome_iff_eq_none.mp hnone]
      simp
  · split
    · rw [lookup_replace, if_neg hother]
    · rw [List.lookup_append]
      simp [List.lookup_cons, beq_eq_false_iff_ne.mpr hother]

/-- A move that does not change a user but by a login. -/
def KeepsUser (name : String) (_ : State) : Action → Prop
  | .setUser other _ => other ≠ name
  | .resetOwnerPassword other _ _ => other ≠ name
  | _ => True

/-- The user has the password, and its sessions in use were opened after `t` with it. -/
structure Holds (svc : Service) (t u : State) (name password : String) : Prop where
  user : ∃ user, u.user name = some user ∧ user.passwordHash = svc.passwords.hash password
  opened : ∃ new, u.opened = new ++ t.opened ∧ ∀ row ∈ u.sessions, row.user = name → row.revoked = none →
    ∃ o ∈ new, o.session = row.id ∧ o.password = password

theorem Becomes.was_live {row' : Session} (h : Becomes svc s accesses row row') (hnone : row'.revoked = none) : row.revoked = none := by
  cases h with
  | same => exact hnone
  | touched hrevoked => exact hrevoked
  | revoked => cases hnone

section Reset

variable {name password : String}

theorem openSession_user {p : Pending} {changed id : String} (hp : p.Sound svc s)
    (hpasswords : ∀ p q, svc.passwords.verify (svc.passwords.hash p) q = true → q = p)
    (huser : (decideLogin svc.limits svc.passwords svc.subjects s.rates s.user p.login).user = some (changed, user))
    (h : openSession svc s p changed user id token = some t)
    (hold : ∃ user, s.user name = some user ∧ user.passwordHash = svc.passwords.hash password) :
    ∃ user, t.user name = some user ∧ user.passwordHash = svc.passwords.hash password := by
  obtain ⟨was, hwas, hhash⟩ := hold
  obtain ⟨old, hold, -, hverified, hnew⟩ := decideLogin_spec hp.verified huser
  simp only [openSession] at h
  split at h <;> cases h
  show ∃ other, (setUser s.users changed user).lookup name = some other ∧ _
  rw [lookup_setUser]
  by_cases hsame : name = changed
  · subst hsame
    cases hwas.symm.trans hold
    refine ⟨user, if_pos rfl, ?_⟩
    rcases hnew with hnew | hnew
    · exact hnew.trans hhash
    · rw [hhash] at hverified
      rw [hnew, hpasswords _ _ hverified]
  · exact ⟨was, by rw [if_neg hsame]; exact hwas, hhash⟩

theorem user_congr (h : t.users = s.users) (hold : ∃ user, s.user name = some user ∧ user.passwordHash = svc.passwords.hash password) :
    ∃ user, t.user name = some user ∧ user.passwordHash = svc.passwords.hash password := by
  rw [State.user, h]
  exact hold

theorem commit_user {p : Pending} {id : String} (hp : p.Sound svc s)
    (hpasswords : ∀ p q, svc.passwords.verify (svc.passwords.hash p) q = true → q = p) (h : commit svc s p id token = some t)
    (hold : ∃ user, s.user name = some user ∧ user.passwordHash = svc.passwords.hash password) :
    ∃ user, t.user name = some user ∧ user.passwordHash = svc.passwords.hash password := by
  obtain ⟨u, hu, rfl⟩ := Option.map_eq_some_iff.mp h
  split at hu
  · cases hu
    exact user_congr (Eq.refl s.users) hold
  · rename_i changed user huser
    exact user_congr (Eq.refl u.users) (openSession_user hp hpasswords huser hu hold)

/-- A password is kept where it is set by nothing but logins, which may hash it again. -/
theorem step_user {a : Action} (hs : WellFormed svc s) (hpasswords : ∀ p q, svc.passwords.verify (svc.passwords.hash p) q = true → q = p)
    (hok : KeepsUser name s a) (h : step svc s a = some t)
    (hold : ∃ user, s.user name = some user ∧ user.passwordHash = svc.passwords.hash password) :
    ∃ user, t.user name = some user ∧ user.passwordHash = svc.passwords.hash password := by
  cases a with
  | tick | rollback | restart =>
    cases h
    exact user_congr rfl hold
  | setUser other user =>
    cases h
    obtain ⟨was, hwas, hhash⟩ := hold
    exact ⟨was, (lookup_setUser _ _ _ _).trans (by rw [if_neg (Ne.symm hok)]; exact hwas), hhash⟩
  | preverify attempt previous =>
    simp only [step] at h
    split at h <;> cases h
    exact user_congr rfl hold
  | commit index id token =>
    obtain ⟨p, hp, h⟩ := Option.bind_eq_some_iff.mp h
    obtain ⟨u, hu, rfl⟩ := Option.map_eq_some_iff.mp h
    exact user_congr (Eq.refl u.users) (commit_user (hs.pending p (List.mem_of_getElem? hp)) hpasswords hu hold)
  | authenticate token now readOnly =>
    simp only [step] at h
    split at h
    · cases h
    · split at h <;> cases h
      · exact user_congr rfl hold
      · split <;> exact user_congr rfl hold
      · exact user_congr rfl hold
  | revokeExpired index =>
    obtain ⟨o, ho, h⟩ := Option.bind_eq_some_iff.mp h
    cases h
    exact user_congr rfl hold
  | logout id now =>
    simp only [step] at h
    split at h <;> cases h
    exact user_congr rfl hold
  | resetOwnerPassword other hash now =>
    simp only [step] at h
    split at h
    · cases h
    · obtain ⟨user, -, h⟩ := Option.bind_eq_some_iff.mp h
      split at h <;> cases h
      obtain ⟨was, hwas, hhash⟩ := hold
      exact ⟨was, (lookup_setUser _ _ _ _).trans (by rw [if_neg (Ne.symm hok)]; exact hwas), hhash⟩

theorem Holds.step {u v : State} {a : Action} (hu : WellFormed svc u)
    (hpasswords : ∀ p q, svc.passwords.verify (svc.passwords.hash p) q = true → q = p) (h : Holds svc t u name password)
    (hok : KeepsUser name u a) (hv : Sessions.step svc u a = some v) : Holds svc t v name password := by
  have hevolves := step_evolves hu hv
  obtain ⟨new, hnew, hlive⟩ := h.opened
  obtain ⟨more, hmore⟩ := hevolves.opened
  refine ⟨step_user hu hpasswords hok hv h.user, more ++ new, by rw [hmore, hnew, List.append_assoc], fun row hrow hname hnone => ?_⟩
  rcases hevolves.mem hrow with ⟨old, hold, hbecomes⟩ | hopens
  · obtain ⟨o, ho, hsession, hpassword⟩ := hlive old hold (hbecomes.keeps.user_eq.symm.trans hname) (hbecomes.was_live hnone)
    exact ⟨o, List.mem_append_right _ ho, hsession.trans hbecomes.keeps.id_eq.symm, hpassword⟩
  · obtain ⟨given, hopened, user, huser, hverified⟩ := hopens.opened
    obtain ⟨was, hwas, hhash⟩ := h.user
    rw [hname, hwas] at huser
    cases huser
    rw [hhash] at hverified
    rw [hmore] at hopened
    cases more with
    | nil => simp at hopened
    | cons o more =>
      cases (List.cons.inj hopened).1
      exact ⟨_, .head _, rfl, hpasswords _ _ hverified⟩

theorem reset_holds {now : Nat} (h : step svc s (.resetOwnerPassword name (svc.passwords.hash password) now) = some t) :
    Holds svc t t name password := by
  simp only [step] at h
  split at h
  · cases h
  · obtain ⟨user, -, h⟩ := Option.bind_eq_some_iff.mp h
    split at h <;> cases h
    refine ⟨⟨_, (lookup_setUser _ _ _ _).trans (if_pos rfl), rfl⟩, [], rfl, fun row hrow hname hnone => ?_⟩
    obtain ⟨old, -, rfl⟩ := List.mem_map.mp hrow
    split at hnone
    · cases hnone
    · rename_i hnot
      rw [if_neg hnot] at hname
      simp [hname, hnone] at hnot

end Reset

end Jarvis.Auth.Sessions
