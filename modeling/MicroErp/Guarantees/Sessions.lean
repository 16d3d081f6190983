import MicroErp.Commits.Accounts
import MicroErp.Guarantees.PasswordReset

/-!
# Which sessions are valid

Requests on accounts are served one after another.  A login reads the version of the user into its
token, every deactivation and every change of password raises the version, and a change of password
also records its time.
-/

namespace MicroErp.Guarantees

open MicroErp.Commits MicroErp.Concurrency MicroErp.Database MicroErp.Services MicroErp.Storage

/-- A request and what it takes from outside. -/
abbrev AccountCall := AccountRequest × AuthEnv

/-- The call alone. -/
def answerCall (d : AccountDb) (call : AccountCall) : Except AuthError String × AccountDb :=
  accounts.alone (call.1.script call.2) [] d

/-- The accounts after these calls, one after another. -/
def serveInOrder (d : AccountDb) (calls : List AccountCall) : AccountDb :=
  calls.foldl (fun d call ↦ (answerCall d call).2) d

/-- The call deactivates the user or changes its password. -/
def Revokes (d : AccountDb) (call : AccountCall) (id : Uuid) : Prop :=
  (∃ a, (answerCall d call).1 = .ok a) ∧ saves call.2 call.1 = some id ∧
    ∀ tenantId userId, call.1 ≠ .activate tenantId userId

/-- None of the calls revokes the sessions of the user. -/
def NotRevoked (d : AccountDb) (calls : List AccountCall) (id : Uuid) : Prop :=
  ∀ calls' call, calls' ++ [call] <+: calls → ¬Revokes (serveInOrder d calls') call id

/-- After the calls the user is active, and none of them has revoked its sessions. -/
def StillIn (d : AccountDb) (calls : List AccountCall) (id : Uuid) : Prop :=
  (∃ u, (serveInOrder d calls).users.find id = some u ∧ u.is_active = true) ∧ NotRevoked d calls id

section Histories

variable {d : AccountDb} {calls : List AccountCall} {call : AccountCall} {id : Uuid} {u : User}
  {env : AuthEnv} {dto : LoginDto} {payload : JwtPayload}

theorem notRevoked_nil : NotRevoked d [] id := by
  intro calls' call hprefix
  simpa using List.prefix_nil.1 hprefix

theorem notRevoked_cons :
    NotRevoked d (call :: calls) id ↔
      ¬Revokes d call id ∧ NotRevoked (answerCall d call).2 calls id := by
  constructor
  · intro h
    refine ⟨h [] call ?_, fun calls' call' hprefix ↦ ?_⟩
    · exact (List.prefix_cons_inj call).2 List.nil_prefix
    · exact h (call :: calls') call' ((List.prefix_cons_inj call).2 hprefix)
  · rintro ⟨hfirst, hrest⟩ (_ | ⟨call₁, calls'⟩) call' hprefix
    · obtain ⟨rfl, -⟩ := List.cons_prefix_cons.1 hprefix
      exact hfirst
    · obtain ⟨rfl, hrestPrefix⟩ := List.cons_prefix_cons.1 hprefix
      exact hrest calls' call' hrestPrefix

/-- What a call makes of a user: it is as before, or the call has saved it. -/
theorem user_of_call (call : AccountCall) (hu : d.users.find id = some u) :
    ((answerCall d call).2.users.find id = some u ∧
        ¬((∃ a, (answerCall d call).1 = .ok a) ∧ saves call.2 call.1 = some id)) ∨
      (answerCall d call).2.users.find id = some (call.1.edit call.2 u) ∧
        (∃ a, (answerCall d call).1 = .ok a) ∧ saves call.2 call.1 = some id := by
  cases hrun : answerCall d call with
  | mk out d' =>
    cases out with
    | error e =>
      left
      obtain rfl : d' = d := alone_account_error hrun
      exact ⟨hu, fun h ↦ by cases h.1.choose_spec⟩
    | ok a =>
      rcases alone_account hrun with ⟨hnone, rfl⟩ | ⟨loaded, hsaves, hfound, hrows⟩
      · left
        refine ⟨hu, fun h ↦ ?_⟩
        rw [hnone] at h
        cases h.2
      · by_cases hid : id = loaded.id
        · right
          subst hid
          obtain rfl : u = loaded := Option.some.inj (hu.symm.trans hfound)
          refine ⟨?_, ⟨a, rfl⟩, hsaves⟩
          rw [hrows, if_pos rfl]
        · left
          refine ⟨?_, fun h ↦ hid ?_⟩
          · rw [hrows, if_neg hid]
            exact hu
          · exact Option.some.inj (h.2.symm.trans hsaves)

/-- A call keeps the version of the user, and the time of its password, or it revokes its sessions
and raises the version. -/
theorem version_of_call (call : AccountCall) (hu : d.users.find id = some u) :
    ∃ u', (answerCall d call).2.users.find id = some u' ∧
      ((¬Revokes d call id ∧ u'.token_version = u.token_version ∧
          u'.password_changed_at = u.password_changed_at) ∨
        Revokes d call id ∧ u'.token_version = u.token_version + 1) := by
  rcases user_of_call call hu with ⟨hkept, hidle⟩ | ⟨hedited, hok, hsaves⟩
  · exact ⟨u, hkept, Or.inl ⟨fun h ↦ hidle ⟨h.1, h.2.1⟩, rfl, rfl⟩⟩
  · refine ⟨_, hedited, ?_⟩
    by_cases hactivate : ∃ tenantId userId, call.1 = .activate tenantId userId
    · obtain ⟨tenantId, userId, hreq⟩ := hactivate
      left
      rw [hreq]
      exact ⟨fun h ↦ h.2.2 tenantId userId hreq, rfl, rfl⟩
    · right
      refine ⟨⟨hok, hsaves, fun tenantId userId h ↦ hactivate ⟨tenantId, userId, h⟩⟩, ?_⟩
      cases hreq : call.1 with
      | activate tenantId userId => exact (hactivate ⟨tenantId, userId, hreq⟩).elim
      | _ => rfl

/-- The version of a user only grows, and it stays as long as no call revokes the sessions. -/
theorem version_of_calls (calls : List AccountCall) (hu : d.users.find id = some u) :
    ∃ u', (serveInOrder d calls).users.find id = some u' ∧ u.token_version ≤ u'.token_version ∧
      (u.token_version = u'.token_version ↔ NotRevoked d calls id) ∧
      (NotRevoked d calls id → u'.password_changed_at = u.password_changed_at) := by
  induction calls generalizing d u with
  | nil => exact ⟨u, hu, le_rfl, iff_of_true rfl notRevoked_nil, fun _ ↦ rfl⟩
  | cons call calls ih =>
    obtain ⟨u₁, hu₁, hstep⟩ := version_of_call call hu
    obtain ⟨u', hu', hle, hversion, hchanged⟩ := ih hu₁
    refine ⟨u', hu', ?_, ?_, fun h ↦ ?_⟩
    · rcases hstep with ⟨-, heq, -⟩ | ⟨-, heq⟩ <;> omega
    · rw [notRevoked_cons, ← hversion]
      rcases hstep with ⟨hkept, heq, -⟩ | ⟨hrevokes, heq⟩
      · rw [heq]
        exact (and_iff_right hkept).symm
      · refine iff_of_false ?_ fun h ↦ h.1 hrevokes
        omega
    · obtain ⟨hkept, hrest⟩ := notRevoked_cons.1 h
      rcases hstep with ⟨-, -, heq⟩ | ⟨hrevokes, -⟩
      · exact (hchanged hrest).trans heq
      · exact (hkept hrevokes).elim

/-- A token carries the version of the user at the login and the second of the login. -/
theorem token_of_login (h : login env dto d = .ok payload) :
    ∃ u, d.users.find payload.sub = some u ∧ payload.token_version = u.token_version ∧
      payload.iat = some (env.clock / 1000) := by
  unfold login at h
  split at h
  · cases h
  rename_i user huser
  split at h
  · cases h
  split at h
  · cases h
  split at h
  · cases h
  split at h
  · cases h
  obtain rfl := Except.ok.inj h
  exact ⟨user, Table.find_eq_some.2 ⟨List.mem_of_find?_eq_some huser, rfl⟩, rfl, rfl⟩

/-- The checks of a token, on the row of its user. -/
theorem validate_ok_iff (hu : d.users.find payload.sub = some u) :
    (∃ r, validate payload d = .ok r) ↔
      payload.token_version = u.token_version ∧ u.is_active = true ∧
        ∀ changedAt ∈ u.password_changed_at, ∀ iat ∈ payload.iat, changedAt ≤ iat * 1000 := by
  unfold validate
  simp only [hu]
  constructor
  · rintro ⟨r, h⟩
    split at h
    · cases h
    rename_i hversion
    split at h
    · cases h
    rename_i hactive
    split at h
    · cases h
    rename_i hissued
    refine ⟨not_not.1 hversion, by simpa using hactive, fun changedAt hc iat hiat ↦ ?_⟩
    exact not_lt.1 fun hlt ↦ hissued ⟨changedAt, hc, iat, hiat, hlt⟩
  · rintro ⟨hversion, hactive, hissued⟩
    have hlater : ¬∃ changedAt ∈ u.password_changed_at, ∃ iat ∈ payload.iat, iat * 1000 < changedAt := by
      rintro ⟨changedAt, hc, iat, hiat, hlt⟩
      exact absurd (hissued changedAt hc iat hiat) (not_le.2 hlt)
    rw [if_neg (not_not.2 hversion), if_neg (by simp [hactive]), if_neg hlater]
    exact ⟨_, rfl⟩

/-- A token is accepted exactly if its user is active and its sessions were not revoked since the
login, provided that the second of the login did not begin before the last change of the
password. -/
theorem session_valid_iff (hlogin : login env dto d = .ok payload) (calls : List AccountCall) :
    ((∃ r, validate payload (serveInOrder d calls) = .ok r) ↔ StillIn d calls payload.sub) ↔
      (StillIn d calls payload.sub → ∀ u ∈ d.users.find payload.sub,
        ∀ changedAt ∈ u.password_changed_at, changedAt ≤ env.clock / 1000 * 1000) := by
  obtain ⟨u, hu, hversion, hiat⟩ := token_of_login hlogin
  obtain ⟨u', hu', -, hsame, hchanged⟩ := version_of_calls calls hu
  rw [validate_ok_iff hu', hversion, hsame, hiat]
  have hstill : StillIn d calls payload.sub ↔
      u'.is_active = true ∧ NotRevoked d calls payload.sub := by
    unfold StillIn
    simp [hu']
  rw [hstill]
  constructor
  · rintro h ⟨hactive, hkept⟩ row hrow changedAt hc
    obtain rfl : u = row := Option.some.inj (hu.symm.trans hrow)
    exact (h.2 ⟨hactive, hkept⟩).2.2 changedAt (hchanged hkept ▸ hc) _ rfl
  · intro h
    constructor
    · rintro ⟨hkept, hactive, -⟩
      exact ⟨hactive, hkept⟩
    · rintro ⟨hactive, hkept⟩
      refine ⟨hkept, hactive, fun changedAt hc iat hiat' ↦ ?_⟩
      obtain rfl := Option.some.inj hiat'
      exact h ⟨hactive, hkept⟩ u hu changedAt (hchanged hkept ▸ hc)

end Histories

/-! ## A login in the second of a change of password -/

/-- The accounts after the user has used a link at 5.3 seconds. -/
def justChanged : AccountDb :=
  serveInOrder sampleAccounts [(.executePasswordReset ⟨"reset", "Nueva.1"⟩, sampleAuthEnv 5300 1 900)]

/-- What the login answers at this time. -/
def sampleToken (clock : Timestamp) : JwtPayload where
  sub := 5
  tenant_id := 1
  role := .CASHIER
  email := "ana@kiosco"
  token_version := 1
  sub_status := .ACTIVE
  sub_expires_at := 0
  iat := some (clock / 1000)

/-- A login in the second of the change is not valid at once, although nothing has revoked it. -/
theorem session_refused :
    login (sampleAuthEnv 5700 1 901) ⟨"ana@kiosco", "Nueva.1"⟩ justChanged = .ok (sampleToken 5700) ∧
      ¬((∃ r, validate (sampleToken 5700) (serveInOrder justChanged []) = .ok r) ↔
        StillIn justChanged [] (sampleToken 5700).sub) := by
  have hactive : ∃ u, (serveInOrder justChanged []).users.find (sampleToken 5700).sub = some u ∧
      u.is_active = true := ⟨_, rfl, rfl⟩
  have hrefused : validate (sampleToken 5700) (serveInOrder justChanged []) =
      .error (.unauthorized "Sesión invalidada por cambio de credenciales de seguridad") := rfl
  refine ⟨rfl, fun h ↦ ?_⟩
  obtain ⟨r, hr⟩ := h.2 ⟨hactive, notRevoked_nil⟩
  cases hrefused.symm.trans hr

theorem session_valid_iff_later :
    ((∃ r, validate (sampleToken 6100) (serveInOrder justChanged []) = .ok r) ↔
        StillIn justChanged [] 5) ↔
      (StillIn justChanged [] 5 → ∀ u ∈ justChanged.users.find 5,
        ∀ changedAt ∈ u.password_changed_at, changedAt ≤ 6100 / 1000 * 1000) :=
  @session_valid_iff justChanged (sampleAuthEnv 6100 1 901) ⟨"ana@kiosco", "Nueva.1"⟩
    (sampleToken 6100) rfl []

end MicroErp.Guarantees
