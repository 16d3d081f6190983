import MicroErp.Guarantees.ResetLinks

/-!
# When the answer of a reset is true

The cache of the resets is asked before the token is verified and knows a call by its idempotency
key alone.  So a call is answered with success when another one has used its key, whatever its token
is.
-/

namespace MicroErp.Guarantees

open MicroErp.Commits MicroErp.Concurrency MicroErp.Database MicroErp.Services MicroErp.Storage

/-- The call changes the password of the user of its valid token to its new password. -/
def Performs (s : ResetState) (call : ResetCall) : Prop :=
  ∃ payload user, call.env.verify call.dto.token = some payload ∧ payload.purpose = "pwd_reset" ∧
    s.accounts.users.find payload.sub = some user ∧
    (callReset s call).2.accounts.users.find payload.sub =
      some (withPassword call.env call.dto.new_password user)

/-- The call passes every check: the cache does not hold its key, its token is a link of a user that
has not used it, and the new rows are accepted. -/
def Passes (s : ResetState) (call : ResetCall) : Prop :=
  s.isDuplicate call = false ∧
    ∃ payload user, call.env.verify call.dto.token = some payload ∧ payload.purpose = "pwd_reset" ∧
      s.accounts.users.find payload.sub = some user ∧
      (∀ changedAt ∈ user.password_changed_at, changedAt ≤ payload.iat * 1000) ∧
      Int4 (user.token_version + 1) ∧ s.accounts.auditLogs.find call.env.fresh = none ∧
      (s.accounts.tenants.find user.tenant_id).isSome

/-- If the call is answered with success after the calls `before`, it has changed the password, or
it repeats one of them that has. -/
def Truthful (d : AccountDb) (before : List ResetCall) (call : ResetCall) : Prop :=
  (callReset (afterCalls d before) call).1 = .ok "Contraseña actualizada correctamente" →
    Performs (afterCalls d before) call ∨
      ∃ before' earlier, before' ++ [earlier] <+: before ∧ Performs (afterCalls d before') earlier ∧
        earlier.idempotencyKey = call.idempotencyKey ∧ earlier.dto = call.dto

/-! ## One reset alone -/

section Answer

variable {env : AuthEnv} {d : AccountDb} {user changed : User} {payload : ResetTokenPayload}
  {dto : Auth.ResetPasswordDto}

theorem withPassword_ne (env : AuthEnv) (password : String) (user : User) :
    withPassword env password user ≠ user := fun heq ↦ by
  have hversion := congrArg User.token_version heq
  simp [withPassword] at hversion

theorem alone_saveUser {k : Unit → AccountScript String}
    (hfound : d.users.find changed.id = some user) (hne : changed ≠ user) :
    accounts.alone (saveUser changed >>= k) [] d =
      if Int4 changed.token_version then accounts.alone (k ()) [.updateUser changed user] d
      else (.error (.queryFailed .numericValueOutOfRange), d) := by
  by_cases hversion : Int4 changed.token_version <;>
    simp [saveUser, accountQuery, Engine.alone, AccountSql.exec, hfound, hne, hversion]

theorem alone_audit (row : AuditLog) {k : Unit → AccountScript String} {ws : List AccountWrite}
    (hfound : ∀ userId ∈ row.user_id, ((accounts.view ws d).users.find userId).isSome) :
    accounts.alone (.stmt (.insertAuditLog row) k) ws d =
      if ((accounts.view ws d).auditLogs.find row.id).isSome then
        (.error (.queryFailed .uniqueViolation), d)
      else if ((accounts.view ws d).tenants.find row.tenant_id).isSome then
        accounts.alone (k ()) (ws ++ [.insertAuditLog row]) d
      else (.error .foreignKeyViolation, d) := by
  simp only [Engine.alone, accounts_exec, AccountSql.exec, and_iff_left hfound]
  cases ((accounts.view ws d).auditLogs.find row.id).isSome with
  | true => rfl
  | false => cases ((accounts.view ws d).tenants.find row.tenant_id).isSome <;> rfl

/-- What a reset answers that is executed alone. -/
theorem resetUnder_answer (hfound : d.users.find payload.sub = some user) :
    (accounts.alone (resetUnder env payload dto) [] d).1 =
      if ∃ changedAt ∈ user.password_changed_at, payload.iat * 1000 < changedAt then
        .error (.unauthorized "Este enlace ya fue utilizado y está anulado")
      else if Int4 (user.token_version + 1) then
        if (d.auditLogs.find env.fresh).isSome then .error (.queryFailed .uniqueViolation)
        else if (d.tenants.find user.tenant_id).isSome then
          .ok "Contraseña actualizada correctamente"
        else .error .foreignKeyViolation
      else .error (.queryFailed .numericValueOutOfRange) := by
  have hid : user.id = payload.sub := Table.find_key hfound
  have hreread : d.users.find (withPassword env dto.new_password user).id = some user := by
    rw [← hfound, ← hid]
    rfl
  have huser : ∀ userId ∈ some user.id, ((accounts.view
      [.updateUser (withPassword env dto.new_password user) user] d).users.find userId).isSome := by
    rintro _ ⟨⟩
    rw [Engine.view_cons, Engine.view_nil, accounts_write, AccountWrite.apply, Table.find_modify,
      hid, hfound]
    rfl
  simp only [resetUnder, accountQuery, Prog.issue_bind, Engine.alone, accounts_exec,
    AccountSql.exec, Engine.view_nil, hfound]
  split
  · rfl
  · rw [List.append_nil, alone_saveUser hreread (withPassword_ne _ _ _)]
    change Prod.fst (if Int4 (user.token_version + 1) then _ else _) = _
    split
    · rw [alone_audit (resetAudit env user _) huser]
      change Prod.fst (if (d.auditLogs.find env.fresh).isSome then _ else
        if (d.tenants.find user.tenant_id).isSome then _ else _) = _
      split
      · rfl
      · split <;> rfl
    · rfl

/-- Success is answered for an unused link, when the new rows are accepted. -/
theorem resetUnder_ok_iff :
    (∃ a, (accounts.alone (resetUnder env payload dto) [] d).1 = .ok a) ↔
      ∃ user, d.users.find payload.sub = some user ∧
        (∀ changedAt ∈ user.password_changed_at, changedAt ≤ payload.iat * 1000) ∧
        Int4 (user.token_version + 1) ∧ d.auditLogs.find env.fresh = none ∧
        (d.tenants.find user.tenant_id).isSome := by
  cases hfound : d.users.find payload.sub with
  | none =>
    have hfails : (accounts.alone (resetUnder env payload dto) [] d).1 =
        .error (.unauthorized "Usuario no encontrado") := by
      simp [resetUnder, accountQuery, Engine.alone, AccountSql.exec, hfound]
    simp [hfails]
  | some user =>
    rw [resetUnder_answer hfound]
    simp only [Option.some.injEq, exists_eq_left']
    by_cases hused : ∃ changedAt ∈ user.password_changed_at, payload.iat * 1000 < changedAt
    · obtain ⟨changedAt, hmem, hlt⟩ := hused
      rw [if_pos ⟨changedAt, hmem, hlt⟩]
      refine iff_of_false ?_ fun h ↦ not_le.2 hlt (h.1 changedAt hmem)
      rintro ⟨a, ha⟩
      cases ha
    · rw [if_neg hused]
      have hunused : ∀ changedAt ∈ user.password_changed_at, changedAt ≤ payload.iat * 1000 :=
        fun changedAt hmem ↦ not_lt.1 fun hlt ↦ hused ⟨changedAt, hmem, hlt⟩
      rw [← Option.not_isSome_iff_eq_none]
      split_ifs <;> simp_all

end Answer

/-! ## The calls -/

section Calls

variable {s : ResetState} {call : ResetCall}

theorem callReset_duplicate (h : s.isDuplicate call = true) :
    callReset s call = (.ok "Contraseña actualizada correctamente", s) := by
  simp [callReset, h, executePasswordReset, Engine.alone]

/-- Past the cache, a call that is answered with success has found a valid token. -/
theorem token_of_ok {env : AuthEnv} {dto : Auth.ResetPasswordDto} {d d' : AccountDb} {a : String}
    (hcache : env.isDuplicate = false)
    (hrun : accounts.alone (executePasswordReset env dto) [] d = (.ok a, d')) :
    ∃ payload, env.verify dto.token = some payload ∧ payload.purpose = "pwd_reset" := by
  simp only [executePasswordReset, hcache, Bool.false_eq_true, if_false] at hrun
  split at hrun
  · cases congrArg Prod.fst hrun
  · rename_i payload htoken
    split at hrun
    · cases congrArg Prod.fst hrun
    · rename_i hpurpose
      exact ⟨payload, htoken, not_not.1 hpurpose⟩

theorem committing_executePasswordReset {env : AuthEnv} {dto : Auth.ResetPasswordDto}
    (hcache : env.isDuplicate = false) : (executePasswordReset env dto).Committing := by
  simp only [executePasswordReset, hcache, Bool.false_eq_true, if_false]
  split
  · trivial
  · split
    · trivial
    · simp only [resetUnder, accountQuery, Prog.issue_bind]
      rintro (_ | user)
      · trivial
      · simp only
        split
        · trivial
        · exact Prog.committing_bind fun _ ↦ fun _ ↦ trivial

/-- A reset that is executed alone and answers has changed the password. -/
theorem saved_of_ok {env : AuthEnv} {dto : Auth.ResetPasswordDto} {d d' : AccountDb} {a : String}
    (hcache : env.isDuplicate = false)
    (hrun : accounts.alone (executePasswordReset env dto) [] d = (.ok a, d')) :
    ∃ payload user, env.verify dto.token = some payload ∧ payload.purpose = "pwd_reset" ∧
      d.users.find payload.sub = some user ∧
      d'.users.find payload.sub = some (withPassword env dto.new_password user) := by
  obtain ⟨payload, htoken, hpurpose⟩ := token_of_ok hcache hrun
  obtain ⟨lk, ws, hguar, -, rfl⟩ := Engine.commit_of_alone (C := accountContract .plain
    (.executePasswordReset dto) env) AccountWrite.locks (fun h ↦ AccountSql.locks_of_exec h)
    (fun _ _ ↦ AccountRely.refl) (fun o v ↦ Clerk.allow_plain _ o v)
    (committing_executePasswordReset hcache) (account_wp _ _ _ d)
    (fun _ h ↦ (List.not_mem_nil h).elim) hrun
  cases hguar with
  | idle _ hdto => exact (hdto _ rfl).elim
  | @save loaded reread latest audits hsaves haudits =>
    obtain ⟨rfl, rfl, payload', htoken', hsub, -⟩ := hsaves.link _ rfl
    obtain rfl : payload' = payload := Option.some.inj (htoken'.symm.trans htoken)
    refine ⟨payload', latest, htoken, hpurpose, hsub ▸ hsaves.found, ?_⟩
    rw [find_user_save haudits, hsub, hsaves.found, Option.map_some]
    simp only [AccountRequest.edit_id, if_true]
    exact congrArg some (User.saved_latest rfl)

theorem callReset_of_not_duplicate (h : s.isDuplicate call = false) :
    (∃ e, callReset s call = (.error e, s)) ∨
      (∃ a, (callReset s call).1 = .ok a) ∧ Performs s call := by
  let env : AuthEnv := { call.env with isDuplicate := false }
  cases hrun : accounts.alone (executePasswordReset env call.dto) [] s.accounts with
  | mk out d =>
    cases out with
    | error e =>
      left
      have hkept : d = s.accounts := Engine.alone_error (fun _ _ ↦ AccountRely.refl)
        (Clerk.allow_plain (.executePasswordReset call.dto))
        (account_wp .plain (.executePasswordReset call.dto) env _) hrun
      refine ⟨e, ?_⟩
      simp only [callReset, h]
      rw [hrun, hkept]
    | ok a =>
      right
      have hcall : callReset s call =
          (.ok a, ⟨d, (call.cacheKey, call.env.clock) :: s.cache⟩) := by
        simp only [callReset, h]
        rw [hrun]
        simp
      obtain ⟨payload, user, htoken, hpurpose, hfound, hsaved⟩ := saved_of_ok rfl hrun
      refine ⟨⟨a, congrArg Prod.fst hcall⟩, payload, user, htoken, hpurpose, hfound, ?_⟩
      rw [hcall]
      exact hsaved

/-- Without an entry in the cache, success is answered if the checks are passed. -/
theorem ok_iff_passes (h : s.isDuplicate call = false) :
    (∃ a, (callReset s call).1 = .ok a) ↔ Passes s call := by
  have hanswer : (callReset s call).1 = (accounts.alone (executePasswordReset
      { call.env with isDuplicate := false } call.dto) [] s.accounts).1 := by
    simp only [callReset, h]
    split <;> simp_all
  rw [hanswer]
  simp only [Passes, h, executePasswordReset, Bool.false_eq_true, if_false, true_and]
  cases htoken : call.env.verify call.dto.token with
  | none => simp [Engine.alone]
  | some payload =>
    by_cases hpurpose : payload.purpose = "pwd_reset"
    · simp only [hpurpose, ne_eq, not_true_eq_false, if_false, resetUnder_ok_iff, Option.some.injEq,
        exists_eq_left', exists_and_left, true_and]
    · simp [hpurpose, Engine.alone]

/-- The calls that pass the checks are those that change a password. -/
theorem performs_iff_passes : Performs s call ↔ Passes s call := by
  cases h : s.isDuplicate call with
  | true =>
    refine iff_of_false ?_ fun hpasses ↦ ?_
    · rintro ⟨payload, user, -, -, hfound, hsaved⟩
      rw [callReset_duplicate h, hfound] at hsaved
      exact withPassword_ne _ _ _ (Option.some.inj hsaved).symm
    · rw [hpasses.1] at h
      cases h
  | false =>
    rw [← ok_iff_passes h]
    rcases callReset_of_not_duplicate h with ⟨e, he⟩ | ⟨hok, hperforms⟩
    · refine iff_of_false ?_ ?_
      · rintro ⟨payload, user, -, -, hfound, hsaved⟩
        rw [he, hfound] at hsaved
        exact withPassword_ne _ _ _ (Option.some.inj hsaved).symm
      · rintro ⟨a, ha⟩
        rw [he] at ha
        cases ha
    · exact iff_of_true hperforms hok

end Calls

/-- An answer of success is true exactly if a call whose key is in the cache has the token and the
new password of an earlier call under this key that passed the checks. -/
theorem success_true_iff (d : AccountDb) (before : List ResetCall) (call : ResetCall) :
    Truthful d before call ↔
      ((afterCalls d before).isDuplicate call = true →
        ∃ before' earlier, before' ++ [earlier] <+: before ∧ Passes (afterCalls d before') earlier ∧
          earlier.idempotencyKey = call.idempotencyKey ∧ earlier.dto = call.dto) := by
  simp only [← performs_iff_passes]
  constructor
  · intro htruthful hduplicate
    refine (htruthful (congrArg Prod.fst (callReset_duplicate hduplicate))).resolve_left
      fun hperforms ↦ ?_
    rw [(performs_iff_passes.1 hperforms).1] at hduplicate
    cases hduplicate
  · intro hcond hok
    cases h : (afterCalls d before).isDuplicate call with
    | true => exact Or.inr (hcond h)
    | false =>
      rcases callReset_of_not_duplicate h with ⟨e, he⟩ | ⟨-, hperforms⟩
      · rw [he] at hok
        cases hok
      · exact Or.inl hperforms

/-! ## A forged call under a key that was used -/

def usedKey : ResetCall where
  dto := ⟨"reset", "Nueva.1"⟩
  idempotencyKey := "k"
  env := sampleAuthEnv 5000 1 900

/-- Its token is not valid. -/
def forged : ResetCall where
  dto := ⟨"otro", "Ajena.1"⟩
  idempotencyKey := "k"
  env := sampleAuthEnv 6000 1 901

theorem success_without_change : ¬Truthful sampleAccounts [usedKey] forged := by
  intro h
  have hanswer : (callReset (afterCalls sampleAccounts [usedKey]) forged).1 =
      .ok "Contraseña actualizada correctamente" := by decide +kernel
  rcases h hanswer with ⟨payload, -, htoken, -⟩ | ⟨before', earlier, hprefix, -, -, hdto⟩
  · cases htoken
  · have hmem : earlier ∈ [usedKey] := hprefix.subset (by simp)
    obtain rfl := List.mem_singleton.1 hmem
    exact absurd (congrArg Auth.ResetPasswordDto.token hdto) (by decide)

end MicroErp.Guarantees
