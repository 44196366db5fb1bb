/-
  Jarvis.Auth.Login — logins and the limits on failed ones (`auth/service.py`: `AuthService.login`;
  `auth/repository.py`: `rate_limits`, `lock_rate_limits`).

  A login reads the limits and the user in one transaction, checks the password outside of any, and
  decides in another, which holds the lock of the event counter: so a login is two steps, and
  anything may happen between them. Its time is the one it read at the start. Logins commit in the
  order of their times. Times are in microseconds. What becomes of a username and of a password
  are parameters; sessions and audit events are left out.

  The system also keeps the logins that have ended, with the locks they left (`Login.locks`).
-/
import Mathlib.Algebra.Group.Nat.Defs
import Mathlib.Data.List.Basic
import Mathlib.Logic.Function.Basic
import Mathlib.Tactic.Common
import Jarvis.Lib.Steps

namespace Jarvis.Auth

/-- The limits of `Settings`. -/
structure LoginSettings where
  loginWindowSeconds : Nat := 900
  loginAccountLimit : Nat := 5
  loginNetworkLimit : Nat := 20
  loginBaseDelaySeconds : Nat := 1
  loginMaxDelaySeconds : Nat := 300
  window_range : 60 ≤ loginWindowSeconds ∧ loginWindowSeconds ≤ 86400 := by decide
  account_range : 1 ≤ loginAccountLimit ∧ loginAccountLimit ≤ 100 := by decide
  network_range : 1 ≤ loginNetworkLimit ∧ loginNetworkLimit ≤ 1000 := by decide
  base_range : loginBaseDelaySeconds ≤ 60 := by decide
  max_range : 1 ≤ loginMaxDelaySeconds ∧ loginMaxDelaySeconds ≤ 3600 := by decide
  base_le_max : loginBaseDelaySeconds ≤ loginMaxDelaySeconds := by decide

/-- `timedelta(seconds=…)`. -/
def seconds (n : Nat) : Nat := n * 1000000

/-- `PasswordManager`. -/
structure PasswordManager where
  dummyHash : String
  verify : String → String → Bool
  needsRehash : String → Bool
  hash : String → String

/-- `_subject` and the fingerprints of keys. -/
structure Subjects where
  /-- The username normalized, unless it is not one. -/
  normalizeUsername : String → Option String
  /-- The text that stands for a username that is not one. -/
  source : String → String
  fingerprint : String → String → String

inductive Scope where
  | account
  | network
  deriving DecidableEq, Repr

abbrev RateKey := Scope × String

/-- `LoginRateLimitModel`. -/
structure LoginRateLimit where
  failedCount : Nat := 0
  windowStartedAt : Nat
  lockedUntil : Option Nat := none
  updatedAt : Nat
  deriving DecidableEq, Repr

/-- `UserModel`. -/
structure User where
  passwordHash : String
  enabled : Bool
  lastLoginAt : Option Nat := none
  deriving DecidableEq, Repr

structure LoginResult where
  /-- The user of the principal. -/
  principal : Option String
  retryAfterSeconds : Nat
  deriving DecidableEq, Repr

structure Attempt where
  username : String
  password : String
  network : String
  now : Nat
  deriving DecidableEq, Repr

variable (settings : LoginSettings) (passwords : PasswordManager) (subjects : Subjects)

def Attempt.normalized (attempt : Attempt) : Option String := subjects.normalizeUsername attempt.username

/-- `account_hash`. -/
def Attempt.accountHash (attempt : Attempt) : String :=
  subjects.fingerprint "login-account" ((attempt.normalized subjects).getD (subjects.source attempt.username))

/-- `_rate_keys`. -/
def Attempt.keys (attempt : Attempt) : List RateKey :=
  [(.account, attempt.accountHash subjects), (.network, subjects.fingerprint "login-network" attempt.network)]

/-! ## The rows -/

/-- The window of a row has lapsed. -/
def LoginRateLimit.lapsed (row : LoginRateLimit) (now : Nat) : Prop :=
  row.windowStartedAt + seconds settings.loginWindowSeconds ≤ now

instance (row : LoginRateLimit) (now : Nat) : Decidable (row.lapsed settings now) := by
  unfold LoginRateLimit.lapsed
  infer_instance

/-- `_reset_windows`, of one row. -/
def LoginRateLimit.resetWindow (row : LoginRateLimit) (now : Nat) : LoginRateLimit :=
  if row.lapsed settings now then { failedCount := 0, windowStartedAt := now, lockedUntil := none, updatedAt := now }
  else row

abbrev RateRows := List (RateKey × LoginRateLimit)

/-- `_reset_windows`. -/
def resetWindows (rows : RateRows) (now : Nat) : RateRows := rows.map fun e => (e.1, e.2.resetWindow settings now)

/-- What is left of a lock. -/
def LoginRateLimit.remaining (row : LoginRateLimit) (now : Nat) : Nat := (row.lockedUntil.getD 0) - now

/-- `_blocked_seconds`: a part of a second counts as one. -/
def blockedSeconds (rows : List LoginRateLimit) (now : Nat) : Nat :=
  ((rows.map fun row => row.remaining now).foldr max 0 + 999999) / 1000000

def LoginSettings.threshold : Scope → Nat
  | .account => settings.loginAccountLimit
  | .network => settings.loginNetworkLimit

/-- `_record_failure`, of one row. -/
def LoginRateLimit.recordFailure (row : LoginRateLimit) (scope : Scope) (now : Nat) : LoginRateLimit :=
  let failedCount := row.failedCount + 1
  let lockedUntil :=
    if settings.threshold scope ≤ failedCount ∧ 0 < settings.loginBaseDelaySeconds then
      let exponent := min (failedCount - settings.threshold scope) 30
      let delay := min settings.loginMaxDelaySeconds (settings.loginBaseDelaySeconds * 2 ^ exponent)
      some (now + seconds delay)
    else row.lockedUntil
  { row with failedCount, lockedUntil, updatedAt := now }

/-! ## A login -/

/-- `lock_rate_limits`: a key without a row gets one. -/
def lockRateLimits (stored : RateKey → Option LoginRateLimit) (keys : List RateKey) (now : Nat) : RateRows :=
  keys.map fun key => (key, (stored key).getD { windowStartedAt := now, updatedAt := now })

/-- What a login knows when its decision begins. -/
structure Preverified where
  attempt : Attempt
  alreadyBlocked : Bool
  candidateHash : String
  preverified : Bool
  deriving DecidableEq, Repr

/-- The hash that a password is checked against. -/
def hashOf (user : Option User) : String :=
  match user with
  | some user => if user.enabled then user.passwordHash else passwords.dummyHash
  | none => passwords.dummyHash

/-- The first transaction of `login`, and the check of the password behind it. -/
def preverify (stored : RateKey → Option LoginRateLimit) (users : String → Option User) (attempt : Attempt) :
    Preverified :=
  let observed := (attempt.keys subjects).filterMap stored
  let stillInWindow := observed.filter fun row => ¬ row.lapsed settings attempt.now
  let alreadyBlocked := decide (0 < blockedSeconds stillInWindow attempt.now)
  let candidateHash := hashOf passwords ((attempt.normalized subjects).bind users)
  ⟨attempt, alreadyBlocked, candidateHash, !alreadyBlocked && passwords.verify candidateHash attempt.password⟩

/-- What the second transaction writes: the rows of the keys and, for a login that succeeds, the user. -/
structure Decision where
  rows : RateRows
  user : Option (String × User) := none
  result : LoginResult

/-- `_record_failure`. -/
def recordFailure (rows : RateRows) (now : Nat) : Decision :=
  let rows := rows.map fun e => (e.1, e.2.recordFailure settings e.1.1 now)
  { rows, result := ⟨none, blockedSeconds (rows.map Prod.snd) now⟩ }

/-- The password is checked again if it was not, or against another hash. -/
def Preverified.valid (p : Preverified) (currentHash : String) : Bool :=
  if p.alreadyBlocked || currentHash ≠ p.candidateHash then passwords.verify currentHash p.attempt.password
  else p.preverified

/-- The branch of a login that succeeds. -/
def recordSuccess (rows : RateRows) (name : String) (user : User) (attempt : Attempt) : Decision where
  rows := rows.map fun e =>
    if e.1.1 = .account then
      (e.1, { e.2 with
        failedCount := 0, lockedUntil := none, windowStartedAt := attempt.now, updatedAt := attempt.now })
    else e
  user := some (name, { user with
    passwordHash :=
      if passwords.needsRehash user.passwordHash then passwords.hash attempt.password else user.passwordHash
    lastLoginAt := some attempt.now })
  result := ⟨some name, 0⟩

/-- The second transaction of `login`. -/
def decideLogin (stored : RateKey → Option LoginRateLimit) (users : String → Option User) (p : Preverified) : Decision :=
  let now := p.attempt.now
  let rows := resetWindows settings (lockRateLimits stored (p.attempt.keys subjects) now) now
  let preexistingDelay := blockedSeconds (rows.map Prod.snd) now
  if 0 < preexistingDelay then { rows, result := ⟨none, preexistingDelay⟩ }
  else
    match p.attempt.normalized subjects with
    | none => recordFailure settings rows now
    | some name =>
      match users name with
      | none => recordFailure settings rows now
      | some user =>
        if user.enabled && p.valid passwords (hashOf passwords (some user)) then
          recordSuccess passwords rows name user p.attempt
        else recordFailure settings rows now

/-! ## The system -/

/-- A login that has ended, and the rows as it left them. -/
structure Login where
  keys : List RateKey
  now : Nat
  result : LoginResult
  rows : RateRows
  deriving DecidableEq, Repr

/-- The lock on a key that a login left. -/
def Login.lockOf (login : Login) (key : RateKey) : Option Nat :=
  (login.rows.lookup key).bind LoginRateLimit.lockedUntil

structure AuthState where
  rows : RateKey → Option LoginRateLimit := fun _ => none
  users : String → Option User := fun _ => none
  /-- The logins before their second transaction. -/
  pending : List Preverified := []
  /-- The time of the last login that ended. -/
  clock : Nat := 0
  /-- The logins that have ended, latest first. -/
  logins : List Login := []

inductive Action where
  /-- A user is added, changed or deleted. -/
  | setUser (name : String) (user : Option User)
  | preverify (attempt : Attempt)
  | commit (index : Nat)
  /-- The second transaction raises. -/
  | rollback (index : Nat)

/-- The rows after a transaction. -/
def storeRows (stored : RateKey → Option LoginRateLimit) (rows : RateRows) (key : RateKey) : Option LoginRateLimit :=
  (rows.lookup key).or (stored key)

def storeUser (users : String → Option User) : Option (String × User) → String → Option User
  | none => users
  | some (name, user) => Function.update users name (some user)

def step (s : AuthState) : Action → Option AuthState
  | .setUser name user => some { s with users := Function.update s.users name user }
  | .preverify attempt =>
    some { s with pending := s.pending ++ [preverify settings passwords subjects s.rows s.users attempt] }
  | .commit index => do
    let p ← s.pending[index]?
    if p.attempt.now < s.clock then none
    else
      let d := decideLogin settings passwords subjects s.rows s.users p
      some {
        rows := storeRows s.rows d.rows
        users := storeUser s.users d.user
        pending := s.pending.eraseIdx index
        clock := p.attempt.now
        logins := ⟨p.attempt.keys subjects, p.attempt.now, d.result, d.rows⟩ :: s.logins }
  | .rollback index => some { s with pending := s.pending.eraseIdx index }

/-- A login refused while a key of it was locked, and the lock it left no shorter. -/
def Honours (later earlier : Login) : Prop :=
  ∀ key ∈ later.keys, ∀ lockedUntil ∈ earlier.lockOf key, later.now < lockedUntil →
    later.result.principal = none ∧ ∃ left ∈ later.lockOf key, lockedUntil ≤ left

instance (later earlier : Login) : Decidable (Honours later earlier) := by
  unfold Honours
  infer_instance

/-- No login resets the window of a row that is still locked. -/
def ResetsNoLock (s : AuthState) : Action → Prop
  | .commit index =>
    ∀ p ∈ s.pending[index]?, ∀ key ∈ p.attempt.keys subjects, ∀ row ∈ s.rows key,
      row.lapsed settings p.attempt.now → ∀ lockedUntil ∈ row.lockedUntil, lockedUntil ≤ p.attempt.now
  | _ => True

instance (s : AuthState) (a : Action) : Decidable (ResetsNoLock settings subjects s a) := by
  cases a <;> (unfold ResetsNoLock; infer_instance)

/-! ## One login -/

variable {settings : LoginSettings} {passwords : PasswordManager} {subjects : Subjects}

theorem lookup_map_key (keys : List RateKey) (f : RateKey → LoginRateLimit) (key : RateKey) :
    (keys.map fun key => (key, f key)).lookup key = if key ∈ keys then some (f key) else none := by
  induction keys with
  | nil => rfl
  | cons first keys ih =>
    rw [List.map_cons, List.lookup_cons]
    by_cases hkey : key = first
    · subst hkey
      simp
    · rw [beq_eq_false_iff_ne.mpr hkey, ih]
      simp [hkey]

theorem lookup_eq_none {rows : RateRows} {key : RateKey} (h : key ∉ rows.map Prod.fst) : rows.lookup key = none := by
  rw [List.lookup_eq_none_iff]
  intro e he
  exact bne_iff_ne.mpr fun heq => h (List.mem_map.mpr ⟨e, he, heq.symm⟩)

/-- A login writes the rows of its keys alone. -/
theorem decideLogin_keys (stored : RateKey → Option LoginRateLimit) (users : String → Option User) (p : Preverified) :
    (decideLogin settings passwords subjects stored users p).rows.map Prod.fst = p.attempt.keys subjects := by
  have hmap : ∀ (rows : RateRows) (f : RateKey × LoginRateLimit → RateKey × LoginRateLimit), (∀ e, (f e).1 = e.1) →
      (rows.map f).map Prod.fst = rows.map Prod.fst := by
    intro rows f hf
    rw [List.map_map]
    exact List.map_congr_left fun e _ => hf e
  have hrows : (resetWindows settings (lockRateLimits stored (p.attempt.keys subjects) p.attempt.now) p.attempt.now).map
      Prod.fst = p.attempt.keys subjects := by
    refine (hmap _ (fun e => (e.1, e.2.resetWindow settings p.attempt.now)) fun _ => rfl).trans ?_
    rw [lockRateLimits, List.map_map]
    exact List.map_id _
  have hfail : ∀ rows : RateRows, (recordFailure settings rows p.attempt.now).rows.map Prod.fst = rows.map Prod.fst :=
    fun rows => hmap rows _ fun _ => rfl
  rw [decideLogin]
  split
  · exact hrows
  split
  · exact (hfail _).trans hrows
  split
  · exact (hfail _).trans hrows
  split
  · refine (hmap _ _ fun e => ?_).trans hrows
    split <;> rfl
  · exact (hfail _).trans hrows

theorem le_foldr_max {xs : List Nat} {x : Nat} (h : x ∈ xs) : x ≤ xs.foldr max 0 := by
  induction xs with
  | nil => cases h
  | cons y xs ih =>
    rw [List.foldr_cons]
    rcases List.mem_cons.mp h with rfl | h
    · exact Nat.le_max_left _ _
    · exact Nat.le_trans (ih h) (Nat.le_max_right _ _)

/-- A row that is locked blocks. -/
theorem blockedSeconds_pos {rows : List LoginRateLimit} {now lockedUntil : Nat} {row : LoginRateLimit} (h : row ∈ rows)
    (hlock : row.lockedUntil = some lockedUntil) (hnow : now < lockedUntil) : 0 < blockedSeconds rows now := by
  have hremaining : row.remaining now = lockedUntil - now := by rw [LoginRateLimit.remaining, hlock, Option.getD_some]
  have hle : row.remaining now ≤ (rows.map fun row => row.remaining now).foldr max 0 :=
    le_foldr_max (List.mem_map.mpr ⟨row, h, rfl⟩)
  unfold blockedSeconds
  omega

/-- While a key is locked, and its window has not lapsed, a login is refused and leaves the row. -/
theorem decideLogin_blocked {stored : RateKey → Option LoginRateLimit} {users : String → Option User} {p : Preverified}
    {key : RateKey} (hkey : key ∈ p.attempt.keys subjects) {row : LoginRateLimit} (hrow : stored key = some row)
    {lockedUntil : Nat} (hlock : row.lockedUntil = some lockedUntil) (hnow : p.attempt.now < lockedUntil)
    (hwindow : ¬ row.lapsed settings p.attempt.now) :
    (decideLogin settings passwords subjects stored users p).result.principal = none ∧
    (decideLogin settings passwords subjects stored users p).rows.lookup key = some row := by
  have hlookup : (resetWindows settings (lockRateLimits stored (p.attempt.keys subjects) p.attempt.now)
      p.attempt.now).lookup key = some row := by
    rw [resetWindows, lockRateLimits, List.map_map]
    refine (lookup_map_key _ _ _).trans ?_
    simp only [if_pos hkey, hrow, Option.getD_some, LoginRateLimit.resetWindow, if_neg hwindow]
  have hmem : row ∈ (resetWindows settings (lockRateLimits stored (p.attempt.keys subjects) p.attempt.now)
      p.attempt.now).map Prod.snd := by
    obtain ⟨before, after, hsplit, -⟩ := List.lookup_eq_some_iff.mp hlookup
    rw [hsplit]
    simp
  rw [decideLogin]
  rw [if_pos (blockedSeconds_pos hmem hlock hnow)]
  exact ⟨rfl, hlookup⟩

/-! ## Every run -/

/-- A lock that a login left is there, or over. -/
structure Inv (s : AuthState) : Prop where
  locked : ∀ login ∈ s.logins, ∀ key, ∀ lockedUntil ∈ login.lockOf key, s.clock < lockedUntil →
    ∃ row, s.rows key = some row ∧ ∃ left ∈ row.lockedUntil, lockedUntil ≤ left
  honoured : s.logins.Pairwise Honours

/-- What a login that commits does. -/
theorem step_commit {s t : AuthState} {index : Nat} (hs : step settings passwords subjects s (.commit index) = some t) :
    ∃ p d, s.pending[index]? = some p ∧ s.clock ≤ p.attempt.now ∧
      decideLogin settings passwords subjects s.rows s.users p = d ∧ t.rows = storeRows s.rows d.rows ∧
      t.clock = p.attempt.now ∧ t.logins = ⟨p.attempt.keys subjects, p.attempt.now, d.result, d.rows⟩ :: s.logins := by
  rw [step] at hs
  obtain ⟨p, hp, hs⟩ := Option.bind_eq_some_iff.mp hs
  split at hs
  · cases hs
  · rename_i hclock
    refine ⟨p, _, hp, Nat.le_of_not_lt hclock, rfl, ?_⟩
    rw [← Option.some.inj hs]
    exact ⟨rfl, rfl, rfl⟩

theorem step_inv {s t : AuthState} {a : Action} (h : Inv s) (hok : ResetsNoLock settings subjects s a)
    (hs : step settings passwords subjects s a = some t) : Inv t := by
  cases a with
  | setUser name user =>
    cases hs
    exact ⟨h.locked, h.honoured⟩
  | preverify attempt =>
    cases hs
    exact ⟨h.locked, h.honoured⟩
  | rollback index =>
    cases hs
    exact ⟨h.locked, h.honoured⟩
  | commit index =>
    obtain ⟨p, d, hp, hclock, hd, hrows, hnow, hlogins⟩ := step_commit hs
    have hkeys : d.rows.map Prod.fst = p.attempt.keys subjects := hd ▸ decideLogin_keys s.rows s.users p
    -- a lock that is still ahead refuses the login, and stays
    have hahead : ∀ login ∈ s.logins, ∀ key, ∀ lockedUntil ∈ login.lockOf key, p.attempt.now < lockedUntil →
        ∃ row, s.rows key = some row ∧ (∃ left ∈ row.lockedUntil, lockedUntil ≤ left) ∧
          (key ∈ p.attempt.keys subjects → d.result.principal = none ∧ d.rows.lookup key = some row) := by
      intro login hlogin key lockedUntil hlock hnow
      obtain ⟨row, hrow, left, hleft, hle⟩ := h.locked login hlogin key lockedUntil hlock (by omega)
      refine ⟨row, hrow, ⟨left, hleft, hle⟩, fun hkey => ?_⟩
      have hwindow : ¬ row.lapsed settings p.attempt.now := by
        intro hlapsed
        have := hok p hp key hkey row hrow hlapsed left hleft
        omega
      rw [← hd]
      exact decideLogin_blocked hkey hrow hleft (by omega) hwindow
    constructor
    · rw [hrows, hnow, hlogins]
      intro login hlogin key lockedUntil hlock hnow
      rcases List.mem_cons.mp hlogin with rfl | hlogin
      · obtain ⟨row, hrow, hleft⟩ := Option.bind_eq_some_iff.mp hlock
        refine ⟨row, ?_, lockedUntil, hleft, Nat.le_refl _⟩
        rw [storeRows, show d.rows.lookup key = some row from hrow]
        rfl
      · obtain ⟨row, hrow, hleft, hrefused⟩ := hahead login hlogin key lockedUntil hlock hnow
        refine ⟨row, ?_, hleft⟩
        rw [storeRows]
        by_cases hkey : key ∈ p.attempt.keys subjects
        · rw [(hrefused hkey).2]
          rfl
        · rw [lookup_eq_none (hkeys ▸ hkey), hrow]
          rfl
    · rw [hlogins]
      refine List.pairwise_cons.mpr ⟨fun login hlogin key hkey lockedUntil hlock hnow => ?_, h.honoured⟩
      obtain ⟨row, hrow, ⟨left, hleft, hle⟩, hrefused⟩ := hahead login hlogin key lockedUntil hlock hnow
      obtain ⟨hprincipal, hlookup⟩ := hrefused hkey
      exact ⟨hprincipal, left, Option.bind_eq_some_iff.mpr ⟨row, hlookup, hleft⟩, hle⟩

/-- In every run in which no login resets the window of a row that is still locked, every lock that a
    login left is honoured by the logins after it. -/
theorem locks_honoured (settings : LoginSettings) (passwords : PasswordManager) (subjects : Subjects) {s : AuthState}
    (h : Steps.ReachIf (step settings passwords subjects) (ResetsNoLock settings subjects) {} s) :
    s.logins.Pairwise Honours := by
  have hinit : Inv {} := ⟨fun _ hlogin => absurd hlogin List.not_mem_nil, List.Pairwise.nil⟩
  exact (h.invariant Inv hinit fun _ _ _ => step_inv).honoured

/-- Passwords that are their own hashes, and names that are their own keys. -/
def plainPasswords : PasswordManager :=
  { dummyHash := "", verify := fun hash password => hash == password, needsRehash := fun _ => false, hash := id }

def plainSubjects : Subjects :=
  { normalizeUsername := some, source := id, fingerprint := fun _ text => text }

/-- Logins of one user, at the times given in seconds, one after another. -/
def logins (attempts : List (String × Nat)) : List Action :=
  .setUser "owner" (some { passwordHash := "right", enabled := true }) ::
    attempts.flatMap fun a => [.preverify ⟨"owner", a.1, "lan", seconds a.2⟩, .commit 0]

/-- A lock of a minute, and the right password before it is over. -/
theorem locks_honoured_within_window : ∃ s : AuthState,
    s.logins.map (fun login => login.result.principal) = [none, none] ∧ s.logins.Pairwise Honours := by
  have h : (Steps.runIf (step { loginAccountLimit := 1, loginBaseDelaySeconds := 60 } plainPasswords plainSubjects)
      (ResetsNoLock { loginAccountLimit := 1, loginBaseDelaySeconds := 60 } plainSubjects) {}
      (logins [("wrong", 0), ("right", 59)])).any
      (fun s => decide (s.logins.map (fun login => login.result.principal) = [none, none])) = true := by decide +kernel
  obtain ⟨s, hs, h⟩ := (Option.any_eq_true _ _).mp h
  exact ⟨s, of_decide_eq_true h, locks_honoured { loginAccountLimit := 1, loginBaseDelaySeconds := 60 } plainPasswords
    plainSubjects (Steps.runIf_reachIf _ hs)⟩

/-- A lock that outlasts the window it was set in is gone with it: the account is locked until 110, and
    the right password is taken at 60. -/
theorem lock_reset_early : ∃ s,
    Steps.Reach (step { loginWindowSeconds := 60, loginAccountLimit := 2, loginBaseDelaySeconds := 60 } plainPasswords
      plainSubjects) {} s ∧
    s.logins.map (fun login => (login.now, login.lockOf (.account, "owner"), login.result.principal)) =
      [(seconds 60, none, some "owner"), (seconds 50, some (seconds 110), none), (0, none, none)] ∧
    ¬ s.logins.Pairwise Honours := by
  have h : (Steps.run (step { loginWindowSeconds := 60, loginAccountLimit := 2, loginBaseDelaySeconds := 60 }
      plainPasswords plainSubjects) {} (logins [("wrong", 0), ("wrong", 50), ("right", 60)])).any
      (fun s => decide (s.logins.map (fun login => (login.now, login.lockOf (.account, "owner"), login.result.principal)) =
        [(seconds 60, none, some "owner"), (seconds 50, some (seconds 110), none), (0, none, none)] ∧
        ¬ s.logins.Pairwise Honours)) = true := by decide +kernel
  obtain ⟨s, hs, h⟩ := (Option.any_eq_true _ _).mp h
  exact ⟨s, Steps.run_reach _ hs, of_decide_eq_true h⟩

end Jarvis.Auth
