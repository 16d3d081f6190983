import MicroErp.Services.UsersService

/-!
# A password reset waits for itself

`executePasswordReset` holds the row of the user when it inserts the audit row, on another
connection.  The foreign key of the audit row needs the row of the user, so the request waits for
its own transaction, and no schedule lets it commit.
-/

namespace MicroErp.Guarantees

open MicroErp.Concurrency MicroErp.Database MicroErp.Services MicroErp.Storage

/-! ## The programs -/

section Scripts

variable {lk : List (LockName × LockMode)} {ws : List AccountWrite} {env : AuthEnv}

/-- An audit row about a user that the session holds is waited for. -/
theorem obstructs_audit {user changed : User} (hlk : (.user user.id, .update) ∈ lk)
    (d : AccountDb) :
    Obstructs lk ((AccountSql.insertAuditLog (resetAudit env user changed)).locks d) := by
  refine ⟨_, hlk, (.user user.id, .keyShare), ?_, rfl, rfl⟩
  simp [AccountSql.locks, resetAudit]

/-- A save on the way of a program whose statements outside wait. -/
theorem along_saveUser {user : User} {f : Unit → AccountScript String}
    (hf : ∀ ws lk', lk ⊆ lk' →
      (f ()).Along accounts (fun _ ↦ True) (WaitsOutside accounts AccountSql.outside) ws lk') :
    (saveUser user >>= f).Along accounts (fun _ ↦ True)
      (WaitsOutside accounts AccountSql.outside) ws lk := by
  simp only [saveUser, accountQuery, Prog.issue_bind]
  intro v _
  refine ⟨fun h ↦ Bool.noConfusion h, fun row ws' _ ↦ ?_⟩
  cases row with
  | none => trivial
  | some reread =>
    by_cases hsame : user = reread
    · simp only [hsame, if_true, Prog.pure_eq_ret]
      exact hf _ _ (List.subset_append_left _ _)
    · simp only [hsame, if_false]
      intro v' _
      refine ⟨fun h ↦ Bool.noConfusion h, fun _ ws'' _ ↦ ?_⟩
      exact hf _ _ (List.subset_append_of_subset_left _ (List.subset_append_left _ _))

theorem along_findUserOrFail {tenantId userId : Uuid} {f : User → AccountScript String}
    (hf : ∀ user ws lk, (f user).Along accounts (fun _ ↦ True)
      (WaitsOutside accounts AccountSql.outside) ws lk) :
    (findUserOrFail tenantId userId >>= f).Along accounts (fun _ ↦ True)
      (WaitsOutside accounts AccountSql.outside) ws lk := by
  simp only [findUserOrFail, accountQuery, Prog.issue_bind]
  intro v _
  refine ⟨fun h ↦ Bool.noConfusion h, fun row ws' _ ↦ ?_⟩
  cases row with
  | none => trivial
  | some user => exact hf user _ _

theorem along_resetUnder (env : AuthEnv) (payload : ResetTokenPayload) (dto : Auth.ResetPasswordDto) :
    (resetUnder env payload dto).Along accounts (fun _ ↦ True)
      (WaitsOutside accounts AccountSql.outside) ws lk := by
  simp only [resetUnder, accountQuery, Prog.issue_bind]
  intro v _
  refine ⟨fun h ↦ Bool.noConfusion h, fun row ws' hexec ↦ ?_⟩
  obtain ⟨hrow, -⟩ := Prod.mk.inj (Except.ok.inj hexec)
  cases row with
  | none => trivial
  | some user =>
    have hid : user.id = payload.sub := (Table.find_eq_some.1 hrow).2
    have hlock : (LockName.user user.id, LockMode.update) ∈ (AccountSql.lockUser payload.sub).locks v := by
      simp [AccountSql.locks, Sql.lockFound, hrow, hid]
    simp only
    split
    · trivial
    · refine along_saveUser fun ws lk' hlk v' _ ↦ ⟨fun _ d ↦ ?_, fun _ _ _ ↦ trivial⟩
      exact obstructs_audit (hlk (List.mem_append_right _ hlock)) d

/-- In every program the insert of an audit row waits for a lock of the program itself. -/
theorem account_along (req : AccountRequest) (env : AuthEnv) :
    (req.script env).Along accounts (fun _ ↦ True) (WaitsOutside accounts AccountSql.outside) [] [] := by
  cases req with
  | deactivate tenantId userId =>
    exact along_findUserOrFail fun user _ _ ↦ along_saveUser fun _ _ _ ↦ trivial
  | activate tenantId userId =>
    exact along_findUserOrFail fun user _ _ ↦ along_saveUser fun _ _ _ ↦ trivial
  | resetPassword tenantId userId dto =>
    exact along_findUserOrFail fun user _ _ ↦ along_saveUser fun _ _ _ ↦ trivial
  | executePasswordReset dto =>
    simp only [AccountRequest.script, executePasswordReset]
    split
    · trivial
    · split
      · trivial
      · split
        · trivial
        · exact along_resetUnder _ _ _

/-- Past the checks of its token, a reset never gets to its commit. -/
theorem withheld_saveUser {user : User} {f : Unit → AccountScript String}
    (hf : ∀ lk', lk ⊆ lk' → (f ()).Withheld accounts AccountSql.outside lk') :
    (saveUser user >>= f).Withheld accounts AccountSql.outside lk := by
  simp only [saveUser, accountQuery, Prog.issue_bind]
  rintro v row ws' -
  cases row with
  | none => trivial
  | some reread =>
    by_cases hsame : user = reread
    · simp only [hsame, if_true, Prog.pure_eq_ret]
      exact hf _ (List.subset_append_left _ _)
    · simp only [hsame, if_false]
      rintro v' _ ws'' -
      exact hf _ (List.subset_append_of_subset_left _ (List.subset_append_left _ _))

theorem withheld_resetUnder (env : AuthEnv) (payload : ResetTokenPayload)
    (dto : Auth.ResetPasswordDto) :
    (resetUnder env payload dto).Withheld accounts AccountSql.outside lk := by
  simp only [resetUnder, accountQuery, Prog.issue_bind]
  intro v row ws' hexec
  obtain ⟨hrow, -⟩ := Prod.mk.inj (Except.ok.inj hexec)
  cases row with
  | none => trivial
  | some user =>
    have hid : user.id = payload.sub := (Table.find_eq_some.1 hrow).2
    have hlock : (LockName.user user.id, LockMode.update) ∈ (AccountSql.lockUser payload.sub).locks v := by
      simp [AccountSql.locks, Sql.lockFound, hrow, hid]
    simp only
    split
    · trivial
    · refine withheld_saveUser fun lk' hlk d ↦ ?_
      exact obstructs_audit (hlk (List.mem_append_right _ hlock)) d

end Scripts

/-! ## Runs -/

section Runs

variable {ι : Type} [DecidableEq ι] {req : ι → AccountRequest} {env : ι → AuthEnv} {d : AccountDb}
  {i : ι} {dto : Auth.ResetPasswordDto} {payload : ResetTokenPayload}

theorem along_start (req : ι → AccountRequest) (env : ι → AuthEnv) (d : AccountDb) :
    (Sys.start d fun i ↦ (req i).script (env i) : AccountSys ι).Along accounts (fun _ ↦ True)
      (WaitsOutside accounts AccountSql.outside) :=
  Sys.Along.start fun i ↦ account_along (req i) (env i)

omit [DecidableEq ι] in
theorem script_of_checks (hreq : req i = .executePasswordReset dto)
    (hcache : (env i).isDuplicate = false) (htoken : (env i).verify dto.token = some payload)
    (hpurpose : payload.purpose = "pwd_reset") :
    (req i).script (env i) = resetUnder (env i) payload dto := by
  simp [hreq, AccountRequest.script, executePasswordReset, hcache, htoken, hpurpose]

/-- Alone, a reset comes to wait for itself after its update. -/
theorem waits_after_three (s : AccountSys ι) {user : User} {env : AuthEnv}
    (hs : s.session i = .running (resetUnder env payload dto) []) (hheld : s.held = [])
    (huser : s.db.users.find payload.sub = some user)
    (hunused : ∀ changedAt ∈ user.password_changed_at, changedAt ≤ payload.iat * 1000)
    (hversion : Int4 (user.token_version + 1)) :
    (accounts.pooledRun AccountSql.outside s (List.replicate 3 (.step i))).WaitsForItself accounts
        AccountSql.outside i ∧
      (accounts.pooledRun AccountSql.outside s (List.replicate 3 (.step i))).db = s.db := by
  have hid : user.id = payload.sub := (Table.find_eq_some.1 huser).2
  let changed := withPassword env dto.new_password user
  have hchanged : withPassword env dto.new_password user ≠ user := fun heq ↦ by
    have hsame := congrArg User.token_version heq
    simp [withPassword] at hsame
  have hlink : ¬∃ changedAt ∈ user.password_changed_at, payload.iat * 1000 < changedAt := by
    rintro ⟨changedAt, hmem, hlt⟩
    exact absurd (hunused changedAt hmem) (not_le.2 hlt)
  simp only [resetUnder, accountQuery, Prog.issue_bind] at hs
  obtain ⟨s₁, h₁, hs₁, hdb₁, hheld₁⟩ := Engine.stepPooled_alone (E := accounts)
    (by simp [hheld]) hs (show AccountSql.outside _ = false from rfl)
    (show accounts.exec (.lockUser payload.sub) _ = .ok (some user, []) by
      simp [AccountSql.exec, huser])
  simp only [hlink, if_false, saveUser, accountQuery, Prog.issue_bind, List.append_nil] at hs₁
  have hmine₁ : ∀ x ∈ s₁.held, x.1 = i := by
    rw [hheld₁, hheld, List.nil_append]
    intro x hx
    obtain ⟨l, -, rfl⟩ := List.mem_map.1 hx
    rfl
  obtain ⟨s₂, h₂, hs₂, hdb₂, hheld₂⟩ := Engine.stepPooled_alone hmine₁ hs₁
    (show AccountSql.outside _ = false from rfl)
    (show accounts.exec (.rereadUser changed) _ = .ok (some user, []) by
      simp [AccountSql.exec, hdb₁, changed, withPassword, hid, huser])
  simp only [hchanged, if_false, List.append_nil] at hs₂
  have hmine₂ : ∀ x ∈ s₂.held, x.1 = i := by
    rw [hheld₂]
    intro x hx
    rcases List.mem_append.1 hx with hx | hx
    · exact hmine₁ x hx
    · obtain ⟨l, -, rfl⟩ := List.mem_map.1 hx
      rfl
  obtain ⟨s₃, h₃, hs₃, hdb₃, hheld₃⟩ := Engine.stepPooled_alone hmine₂ hs₂
    (show AccountSql.outside _ = false from rfl)
    (show accounts.exec (.updateUser changed user) _ = .ok ((), [.updateUser changed user]) by
      simp [AccountSql.exec, changed, withPassword, hversion])
  have hrun : accounts.pooledRun AccountSql.outside s (List.replicate 3 (.step i)) = s₃ := by
    simp only [Engine.pooledRun, List.replicate, List.foldl_cons, List.foldl_nil]
    rw [h₁, h₂, h₃]
  rw [hrun]
  refine ⟨⟨_, _, _, hs₃, rfl, obstructs_audit ?_ s₃.db⟩, by rw [hdb₃, hdb₂, hdb₁]⟩
  rw [Sys.mem_locksOf, hheld₃, hheld₂, hheld₁]
  simp [AccountSql.locks, Sql.lockFound, huser, hid]

/-- Past the checks of its token, a password reset neither answers with success nor commits anything
in any schedule; and if nobody holds a lock when it starts, it comes to wait for its own
transaction, for good. -/
theorem reset_waits_for_itself (hreq : req i = .executePasswordReset dto)
    (hcache : (env i).isDuplicate = false) (htoken : (env i).verify dto.token = some payload)
    (hpurpose : payload.purpose = "pwd_reset") (es : List (Event ι)) :
    ((∀ x ∈ (serveAccounts req env d es).log, x.1 ≠ i) ∧
        ∀ a, (serveAccounts req env d es).outcome i ≠ some (.ok a)) ∧
      ((serveAccounts req env d es).session i = .running ((req i).script (env i)) [] →
        (serveAccounts req env d es).held = [] →
        ∀ user, (serveAccounts req env d es).db.users.find payload.sub = some user →
        (∀ changedAt ∈ user.password_changed_at, changedAt ≤ payload.iat * 1000) →
        Int4 (user.token_version + 1) →
        ∃ n, ∀ m, n ≤ m →
          (serveAccounts req env d (es ++ List.replicate m (.step i))).WaitsForItself accounts
              AccountSql.outside i ∧
            (serveAccounts req env d (es ++ List.replicate m (.step i))).db =
              (serveAccounts req env d es).db) := by
  have hscript := script_of_checks hreq hcache htoken hpurpose
  constructor
  · have hwithheld : (Sys.start d fun i ↦ (req i).script (env i) : AccountSys ι).Withheld accounts
        AccountSql.outside i := by
      change ((req i).script (env i)).Withheld accounts AccountSql.outside _
      rw [hscript]
      exact withheld_resetUnder _ _ _
    obtain ⟨hend, hlog⟩ := hwithheld.pooledRun (along_start req env d) es
    refine ⟨fun x hx hxi ↦ ?_, fun a ha ↦ ?_⟩
    · have hmem : x ∈ (serveAccounts req env d es).log.filter (·.1 = i) :=
        List.mem_filter.2 ⟨hx, decide_eq_true hxi⟩
      rw [serveAccounts, hlog] at hmem
      cases hmem
    · unfold Sys.Withheld at hend
      rw [show (accounts.pooledRun AccountSql.outside _ es).session i = _ from
        Sys.outcome_eq_some.1 ha] at hend
      exact hend
  · intro hs hheld user huser hunused hversion
    rw [hscript] at hs
    obtain ⟨hwaits, hdb⟩ := waits_after_three _ hs hheld huser hunused hversion
    refine ⟨3, fun m hm ↦ ?_⟩
    obtain ⟨m, rfl⟩ := Nat.exists_eq_add_of_le hm
    have hrun : serveAccounts req env d (es ++ List.replicate (3 + m) (.step i)) =
        accounts.pooledRun AccountSql.outside (serveAccounts req env d es)
          (List.replicate 3 (.step i)) := by
      rw [serveAccounts, Engine.pooledRun_append, List.replicate_add, Engine.pooledRun_append]
      exact hwaits.run m
    rw [hrun]
    exact ⟨hwaits, hdb⟩

end Runs

/-! ## One reset alone -/

def sampleUser : User :=
  { id := 5, tenant_id := 1, email := "ana@kiosco", password_hash := "vieja", name := "Ana",
    phone := none, role := .CASHIER, is_active := true, token_version := 0,
    password_changed_at := none }

/-- One tenant with one user. -/
def sampleAccounts : AccountDb where
  tenants := Table.empty.insert
    { id := 1, tenant_name := "Kiosco", subscription_plan := "FREE", subscription_expires_at := none,
      status := .ACTIVE, mp_subscription_id := none, settings := [], active_cash_shift_id := none,
      created_at := 0 }
  users := Table.empty.insert sampleUser
  auditLogs := Table.empty

/-- Tokens that begin with `r` are links for the user, issued in the second of this number. -/
def sampleAuthEnv (clock : Timestamp) (issued : ℤ) (fresh : Uuid) : AuthEnv where
  clock := clock
  hash password := "hash " ++ password
  compare password hash := hash = "hash " ++ password
  verify token := if token = "reset" then some ⟨5, "pwd_reset", issued⟩ else none
  isDuplicate := false
  isoText _ := ""
  fresh := fresh

def resetting (_ : Fin 1) : AccountRequest := .executePasswordReset ⟨"reset", "Nueva.1"⟩

/-- Alone, the reset of an existing user waits for itself after three steps, for good, and nothing
is committed. -/
theorem reset_waits_alone :
    let s := serveAccounts resetting (fun _ ↦ sampleAuthEnv 5000 1 900) sampleAccounts
      (List.replicate 3 (.step 0))
    s.WaitsForItself accounts AccountSql.outside 0 ∧ s.log = [] ∧ s.db = sampleAccounts ∧
      accounts.pooledStep AccountSql.outside s (.step 0) = s := by
  have hwaits : (serveAccounts resetting (fun _ ↦ sampleAuthEnv 5000 1 900) sampleAccounts
      (List.replicate 3 (.step 0))).WaitsForItself accounts AccountSql.outside 0 :=
    ⟨.insertAuditLog (resetAudit (sampleAuthEnv 5000 1 900) sampleUser
      (withPassword (sampleAuthEnv 5000 1 900) "Nueva.1" sampleUser)), _, _, rfl, rfl,
      by decide +kernel⟩
  exact ⟨hwaits, rfl, rfl, hwaits.stepPooled⟩

theorem reset_waits_for_itself_alone :
    ((∀ x ∈ (serveAccounts resetting (fun _ ↦ sampleAuthEnv 5000 1 900) sampleAccounts []).log,
        x.1 ≠ 0) ∧ ∀ a, (serveAccounts resetting (fun _ ↦ sampleAuthEnv 5000 1 900) sampleAccounts
          []).outcome 0 ≠ some (.ok a)) ∧
      ∃ n, ∀ m, n ≤ m →
        (serveAccounts resetting (fun _ ↦ sampleAuthEnv 5000 1 900) sampleAccounts
          ([] ++ List.replicate m (.step 0))).WaitsForItself accounts AccountSql.outside 0 ∧
        (serveAccounts resetting (fun _ ↦ sampleAuthEnv 5000 1 900) sampleAccounts
          ([] ++ List.replicate m (.step 0))).db = sampleAccounts := by
  obtain ⟨hnever, hwaits⟩ := @reset_waits_for_itself (Fin 1) _ resetting
    (fun _ ↦ sampleAuthEnv 5000 1 900) sampleAccounts 0 ⟨"reset", "Nueva.1"⟩ ⟨5, "pwd_reset", 1⟩
    rfl rfl rfl rfl []
  refine ⟨hnever, hwaits rfl rfl sampleUser (by decide) ?_ (by decide)⟩
  simp [sampleUser]

end MicroErp.Guarantees
