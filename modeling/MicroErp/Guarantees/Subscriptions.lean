import MicroErp.Guarantees.NonPayment
import MicroErp.Guarantees.Sessions
import MicroErp.Services.SubscriptionGuard

/-!
# When a subscription lets a request pass

The claims of a token carry the status and the expiry that the tenant had at the login.  The
documented decision looks at the expiry whatever the status; the guard does so for a tenant that is
past due, by the second at which the expiry begins, and for no other.
-/

namespace MicroErp.Guarantees

open MicroErp.Database MicroErp.Services MicroErp.Storage

variable {env : AuthEnv} {dto : LoginDto} {d d' : AccountDb} {payload : JwtPayload} {tenant : Tenant}
  {user : RequestUser} {now e : Timestamp}

/-- The documented reasons to refuse a request. -/
def Refused (tenant : Tenant) (now : Timestamp) : Prop :=
  tenant.status = .SUSPENDED ∨
    (∃ e ∈ tenant.subscription_expires_at, e + threeDaysMs < now) ∨
    tenant.status = .TRIAL ∧ ∃ e ∈ tenant.subscription_expires_at, e < now

/-- The headers of a request that passes. -/
def warning (tenant : Tenant) : Headers :=
  if tenant.status = .PAST_DUE then [("X-Subscription-Warning", "true")] else []

/-- The answer is the documented one, and it is a refusal whenever the nightly job would suspend
the tenant. -/
structure Documented (tenant : Tenant) (now : Timestamp) (answer : Except HttpException Headers) :
    Prop where
  refused : Refused tenant now → ∃ message, answer = .error ⟨message, 402⟩
  passed : ¬Refused tenant now → answer = .ok (warning tenant)
  beforeJob : ∀ db, tenant ∈ expiredTenants (addDays now (-3)) db →
    ∃ message, answer = .error ⟨message, 402⟩

/-- The expiry is not yet due, or the guard sees that it is. -/
def GuardSees (tenant : Tenant) (now e : Timestamp) : Prop :=
  match tenant.status with
  | .TRIAL => now ≤ e
  | .PAST_DUE =>
      if e / 1000 = 0 then now ≤ e + threeDaysMs
      else now ≤ e / 1000 * 1000 + threeDaysMs ∨ e + threeDaysMs < now
  | _ => now ≤ e + threeDaysMs

/-- A login answers a token only for these tenants, with their status and the second of their
expiry, or 0. -/
theorem claims_of_login (h : login env dto d = .ok payload) :
    ∃ tenant, d.tenants.find payload.tenant_id = some tenant ∧ tenant.status ≠ .SUSPENDED ∧
      tenant.status ≠ .CANCELLED ∧ payload.sub_status = tenant.status ∧
      payload.sub_expires_at = (tenant.subscription_expires_at.map (· / 1000)).getD 0 := by
  unfold login at h
  split at h
  · cases h
  split at h
  · cases h
  split at h
  · cases h
  split at h
  · cases h
  rename_i tenant hfind
  split at h
  · cases h
  rename_i hstatus
  obtain rfl := Except.ok.inj h
  exact ⟨tenant, hfind, fun h ↦ hstatus (Or.inl h), fun h ↦ hstatus (Or.inr h), rfl, rfl⟩

/-- The strategy hands on the claims of the token. -/
theorem claims_of_validate (h : validate payload d = .ok user) :
    user.sub_status = payload.sub_status ∧ user.sub_expires_at = payload.sub_expires_at := by
  unfold validate at h
  split at h
  · cases h
  split at h
  · cases h
  split at h
  · cases h
  split at h
  · cases h
  obtain rfl := Except.ok.inj h
  exact ⟨rfl, rfl⟩

/-- What the nightly job would suspend is refused by the documented decision. -/
theorem refused_of_expired {db : Db} (h : tenant ∈ expiredTenants (addDays now (-3)) db) :
    Refused tenant now := by
  obtain ⟨-, -, e, he, hlt⟩ := mem_expiredTenants.1 h
  refine Or.inr (Or.inl ⟨e, he, ?_⟩)
  unfold addDays at hlt
  unfold threeDaysMs
  linarith

/-- The one case in which the guard refuses the token of a tenant that may log in. -/
def GraceOver (user : RequestUser) (now : Timestamp) : Prop :=
  user.sub_status = .PAST_DUE ∧ user.sub_expires_at ≠ 0 ∧
    user.sub_expires_at * 1000 + threeDaysMs < now

instance (user : RequestUser) (now : Timestamp) : Decidable (GraceOver user now) :=
  inferInstanceAs (Decidable (_ ∧ _ ∧ _))

theorem canActivate_eq (hsuspended : user.sub_status ≠ .SUSPENDED)
    (hstatus : user.sub_status = tenant.status) :
    canActivate ⟨false, false⟩ (some user) now =
      if GraceOver user now then
        .error ⟨"Período de gracia expirado. Suscripción suspendida.", 402⟩
      else .ok (warning tenant) := by
  have hpublic : ¬((Endpoint.mk false false).isPublic ∨ (Endpoint.mk false false).isSkipSubscription) := by
    decide
  unfold canActivate
  simp only [if_neg hpublic, if_neg hsuspended]
  unfold GraceOver warning
  rw [← hstatus]
  by_cases hdue : user.sub_status = .PAST_DUE
  · simp only [hdue, true_and, if_true]
  · simp only [hdue, false_and, if_false]

/-- An answer of this shape is the documented one if it refuses in the documented cases. -/
theorem documented_of_shape {blocks : Prop} [Decidable blocks] {message : String} :
    Documented tenant now (if blocks then .error ⟨message, 402⟩ else .ok (warning tenant)) ↔
      (Refused tenant now ↔ blocks) := by
  constructor
  · intro hdoc
    by_cases hblocks : blocks
    · refine iff_of_true (by_contra fun hpasses ↦ ?_) hblocks
      have hpassed := hdoc.passed hpasses
      rw [if_pos hblocks] at hpassed
      cases hpassed
    · refine iff_of_false (fun hrefused ↦ ?_) hblocks
      obtain ⟨text, hanswer⟩ := hdoc.refused hrefused
      rw [if_neg hblocks] at hanswer
      cases hanswer
  · intro hiff
    have hrefused (h : Refused tenant now) : ∃ text, (if blocks then .error ⟨message, 402⟩
        else .ok (warning tenant) : Except HttpException Headers) = .error ⟨text, 402⟩ :=
      ⟨message, if_pos (hiff.1 h)⟩
    exact ⟨hrefused, fun h ↦ if_neg fun hblocks ↦ h (hiff.2 hblocks),
      fun db hdb ↦ hrefused (refused_of_expired hdb)⟩

/-- The two ways to tell that the days of grace are over, by the moment and by its second. -/
theorem grace_iff (e now : ℤ) :
    (e + threeDaysMs < now ↔ e / 1000 ≠ 0 ∧ e / 1000 * 1000 + threeDaysMs < now) ↔
      if e / 1000 = 0 then now ≤ e + threeDaysMs
      else now ≤ e / 1000 * 1000 + threeDaysMs ∨ e + threeDaysMs < now := by
  have hfloor : e / 1000 * 1000 ≤ e := Int.ediv_mul_le e (by norm_num)
  split
  · rename_i hzero
    simp [hzero]
  · rename_i hsecond
    simp only [ne_eq, hsecond, not_false_eq_true, true_and]
    omega

theorem refused_iff (hsuspended : tenant.status ≠ .SUSPENDED) :
    Refused tenant now ↔ ∃ e ∈ tenant.subscription_expires_at,
      e + threeDaysMs < now ∨ tenant.status = .TRIAL ∧ e < now := by
  unfold Refused
  constructor
  · rintro (h | ⟨e, he, hlt⟩ | ⟨htrial, e, he, hlt⟩)
    · exact (hsuspended h).elim
    · exact ⟨e, he, Or.inl hlt⟩
    · exact ⟨e, he, Or.inr ⟨htrial, hlt⟩⟩
  · rintro ⟨e, he, hlt | ⟨htrial, hlt⟩⟩
    · exact Or.inr (Or.inl ⟨e, he, hlt⟩)
    · exact Or.inr (Or.inr ⟨htrial, e, he, hlt⟩)

/-- For the claims of a login, the guard decides as documented exactly when no expiry is due that it
does not look at. -/
theorem guard_decides_iff (hlogin : login env dto d = .ok payload)
    (htenant : d.tenants.find payload.tenant_id = some tenant)
    (huser : validate payload d' = .ok user) (now : Timestamp) :
    Documented tenant now (canActivate ⟨false, false⟩ (some user) now) ↔
      ∀ e ∈ tenant.subscription_expires_at, GuardSees tenant now e := by
  obtain ⟨tenant', hfind, hsuspended, hcancelled, hstatus, hexpires⟩ := claims_of_login hlogin
  obtain rfl : tenant' = tenant := Option.some.inj (hfind.symm.trans htenant)
  obtain ⟨hstatus', hexpires'⟩ := claims_of_validate huser
  rw [canActivate_eq (by rwa [hstatus', hstatus]) (hstatus'.trans hstatus), documented_of_shape,
    refused_iff hsuspended]
  unfold GraceOver
  rw [hstatus', hstatus, hexpires', hexpires]
  cases htime : tenant'.subscription_expires_at with
  | none => simp
  | some e =>
    simp only [Option.mem_some_iff, forall_eq', exists_eq_left', Option.map_some, Option.getD_some]
    unfold GuardSees
    cases hcase : tenant'.status with
    | TRIAL =>
      have hle : now ≤ e → now ≤ e + threeDaysMs := fun h ↦ h.trans (by norm_num [threeDaysMs])
      simpa using hle
    | ACTIVE => simp
    | PAST_DUE => simpa using grace_iff e now
    | SUSPENDED => exact (hsuspended hcase).elim
    | CANCELLED => exact (hcancelled hcase).elim

/-! ## A trial that is over -/

/-- A tenant of this status, whose subscription expires at second 100. -/
def expiringTenant (status : TenantStatus) : Tenant where
  id := 1
  tenant_name := "Kiosco"
  subscription_plan := "FREE"
  subscription_expires_at := some 100000
  status := status
  mp_subscription_id := none
  settings := []
  active_cash_shift_id := none
  created_at := 0

def expiring (status : TenantStatus) : AccountDb where
  tenants := Table.empty.insert (expiringTenant status)
  users := Table.empty.insert { sampleUser with password_hash := "hash Vieja.1" }
  auditLogs := Table.empty

/-- The token of a login at second 200. -/
def expiringToken (status : TenantStatus) : JwtPayload where
  sub := 5
  tenant_id := 1
  role := .CASHIER
  email := "ana@kiosco"
  token_version := 0
  sub_status := status
  sub_expires_at := 100
  iat := some 200

def expiringUser (status : TenantStatus) : RequestUser where
  id := 5
  tenant_id := 1
  role := .CASHIER
  sub_status := status
  sub_expires_at := 100

/-- Past due, the guard is right within the days of grace. -/
theorem guard_decides_within_grace :
    Documented (expiringTenant .PAST_DUE) 201000
      (canActivate ⟨false, false⟩ (some (expiringUser .PAST_DUE)) 201000) := by
  have hlogin : login (sampleAuthEnv 200000 1 900) ⟨"ana@kiosco", "Vieja.1"⟩ (expiring .PAST_DUE) =
      .ok (expiringToken .PAST_DUE) := by decide
  have huser : validate (expiringToken .PAST_DUE) (expiring .PAST_DUE) =
      .ok (expiringUser .PAST_DUE) := by decide
  refine (guard_decides_iff hlogin rfl huser 201000).2 ?_
  rintro e ⟨⟩
  exact Or.inl (by decide)

/-- A minute and a half after the end of its trial a tenant logs in, and a second later its request
passes. -/
theorem trial_goes_on :
    login (sampleAuthEnv 200000 1 900) ⟨"ana@kiosco", "Vieja.1"⟩ (expiring .TRIAL) =
        .ok (expiringToken .TRIAL) ∧
      validate (expiringToken .TRIAL) (expiring .TRIAL) = .ok (expiringUser .TRIAL) ∧
      canActivate ⟨false, false⟩ (some (expiringUser .TRIAL)) 201000 = .ok [] ∧
      (expiring .TRIAL).tenants.find 1 = some (expiringTenant .TRIAL) ∧
      Refused (expiringTenant .TRIAL) 201000 ∧
      ¬Documented (expiringTenant .TRIAL) 201000
        (canActivate ⟨false, false⟩ (some (expiringUser .TRIAL)) 201000) := by
  have hrefused : Refused (expiringTenant .TRIAL) 201000 :=
    Or.inr (Or.inr ⟨rfl, 100000, rfl, by decide⟩)
  refine ⟨by decide, by decide, by decide, rfl, ?_⟩
  refine ⟨hrefused, fun hdoc ↦ ?_⟩
  obtain ⟨message, hanswer⟩ := hdoc.refused hrefused
  cases hanswer

end MicroErp.Guarantees
