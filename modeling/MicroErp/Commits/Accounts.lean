import MicroErp.Services.UsersService

/-!
# What the commits change of a user

The administrator's requests load a user and save it without a lock on its row; a reset by link
locks the row first.  The contract says what each of them writes, and what a save may rely on when
it meets the row as it was loaded.
-/

namespace MicroErp.Services

open MicroErp.Database

/-- The row that the request saves, of the one that it loaded. -/
def AccountRequest.edit (env : AuthEnv) : AccountRequest → User → User
  | deactivate _ _ => deactivated
  | activate _ _ => activated
  | resetPassword _ _ dto => withPassword env dto.new_password
  | executePasswordReset dto => withPassword env dto.new_password

/-- The user whose row the request changes. -/
def AccountRequest.target (env : AuthEnv) : AccountRequest → Option Uuid
  | deactivate _ userId => some userId
  | activate _ userId => some userId
  | resetPassword _ userId _ => some userId
  | executePasswordReset dto => (env.verify dto.token).map (·.sub)

/-- The version of the row that was loaded, if the request now saves `mem`. -/
def AccountRequest.loadedVersion : AccountRequest → User → ℤ
  | activate _ _, mem => mem.token_version
  | _, mem => mem.token_version - 1

/-- Each save meets the row in the version that the request loaded, both when it reads the row again
and when it updates it. -/
def AccountRequest.Undisturbed (req : AccountRequest) : AccountSql → AccountDb → Prop
  | .rereadUser mem, v => ∀ u ∈ v.users.find mem.id, u.token_version = req.loadedVersion mem
  | .updateUser mem reread, v => ∀ u ∈ v.users.find mem.id,
      u.token_version = reread.token_version ∧ u.is_active = reread.is_active
  | _, _ => True

instance (req : AccountRequest) (o : AccountSql) (v : AccountDb) :
    Decidable (req.Undisturbed o v) := by
  cases o <;> unfold AccountRequest.Undisturbed <;> infer_instance

@[simp] theorem AccountRequest.edit_id (req : AccountRequest) (env : AuthEnv) (u : User) :
    (req.edit env u).id = u.id := by
  cases req <;> rfl

@[simp] theorem AccountRequest.loadedVersion_edit (req : AccountRequest) (env : AuthEnv) (u : User) :
    req.loadedVersion (req.edit env u) = u.token_version := by
  cases req <;> simp [loadedVersion, edit, deactivated, activated, withPassword]

end MicroErp.Services

namespace MicroErp.Commits

open MicroErp.Concurrency MicroErp.Database MicroErp.Services MicroErp.Storage

/-! ## Versions of a row -/

/-- The row `r` is the row `p` or comes after it: within one version only activations happen. -/
def Later (p r : User) : Prop :=
  p.token_version ≤ r.token_version ∧
    (p.token_version = r.token_version →
      p.password_hash = r.password_hash ∧ (p.is_active = true → r.is_active = true))

theorem Later.refl (p : User) : Later p p := ⟨le_rfl, fun _ ↦ ⟨rfl, id⟩⟩

theorem Later.trans {p q r : User} (h : Later p q) (h' : Later q r) : Later p r := by
  refine ⟨h.1.trans h'.1, fun heq ↦ ?_⟩
  have hpq : p.token_version = q.token_version := le_antisymm h.1 (heq ▸ h'.1)
  obtain ⟨hhash, hactive⟩ := h.2 hpq
  obtain ⟨hhash', hactive'⟩ := h'.2 (hpq ▸ heq)
  exact ⟨hhash.trans hhash', fun hp ↦ hactive' (hactive hp)⟩

/-! ## The contract -/

/-- What is assumed of the sessions beyond the isolation level. -/
structure Clerk where
  /-- The saves are undisturbed. -/
  undisturbed : Prop
  /-- What is known of the rows that are loaded without a lock. -/
  loads : User → Prop

def Clerk.allow (K : Clerk) (req : AccountRequest) (o : AccountSql) (v : AccountDb) : Prop :=
  (K.undisturbed → req.Undisturbed o v) ∧
    match o with
    | .findUser _ id => ∀ u ∈ v.users.find id, K.loads u
    | _ => True

/-- Nothing is assumed. -/
def Clerk.plain : Clerk where
  undisturbed := False
  loads _ := True

/-- The saves are undisturbed, and `loads` is known of the rows that are loaded. -/
def Clerk.careful (loads : User → Prop) : Clerk where
  undisturbed := True
  loads := loads

theorem Clerk.allow_plain (req : AccountRequest) (o : AccountSql) (v : AccountDb) :
    Clerk.plain.allow req o v :=
  ⟨False.elim, by cases o <;> simp [Clerk.plain]⟩

/-- The request saves the row `loaded`, which was `reread` for the save and is `latest` now. -/
structure Saves (K : Clerk) (req : AccountRequest) (env : AuthEnv) (d : AccountDb)
    (loaded reread latest : User) : Prop where
  target : req.target env = some loaded.id
  found : d.users.find loaded.id = some latest
  loads : (∀ dto, req ≠ .executePasswordReset dto) → K.loads loaded
  versions : K.undisturbed →
    reread.token_version = loaded.token_version ∧ latest.token_version = reread.token_version ∧
      latest.is_active = reread.is_active
  later : K.undisturbed → Later loaded reread ∧ Later reread latest
  link : ∀ dto, req = .executePasswordReset dto → reread = loaded ∧ latest = loaded ∧
    ∃ payload, env.verify dto.token = some payload ∧ payload.sub = loaded.id ∧
      ∀ changedAt ∈ loaded.password_changed_at, changedAt ≤ payload.iat * 1000

/-- What the requests write when they commit in `d`. -/
inductive AccountChanges (K : Clerk) (req : AccountRequest) (env : AuthEnv) (d : AccountDb) :
    List AccountWrite → Prop
  | idle (h : K.undisturbed → ∃ tenantId userId, req = .activate tenantId userId)
      (hdto : ∀ dto, req ≠ .executePasswordReset dto) : AccountChanges K req env d []
  | save {loaded reread latest : User} {audits : List AccountWrite}
      (h : Saves K req env d loaded reread latest)
      (haudits : ∀ w ∈ audits, ∃ row, w = .insertAuditLog row) :
      AccountChanges K req env d (.updateUser (req.edit env loaded) reread :: audits)

structure AccountRely (K : Clerk) (lk : List (LockName × LockMode)) (d d' : AccountDb) : Prop where
  user : ∀ id m, (.user id, m) ∈ lk → m ≠ .keyShare → d'.users.find id = d.users.find id
  later : ∀ id u, d.users.find id = some u →
    ∃ u', d'.users.find id = some u' ∧ (K.undisturbed → Later u u')

def accountContract (K : Clerk) (req : AccountRequest) (env : AuthEnv) :
    Contract AccountSql AccountDb AccountWrite LockName String where
  rely := AccountRely K
  allow := K.allow req
  guar _ ws d := AccountChanges K req env d ws
  post _ _ := True
  tracked := False

variable {K : Clerk} {req : AccountRequest} {env : AuthEnv} {lk lk' : List (LockName × LockMode)}
  {ws : List AccountWrite} {d d' d'' : AccountDb} {id : Uuid} {loaded reread latest : User}

theorem AccountRely.refl : AccountRely K lk d d :=
  ⟨fun _ _ _ _ ↦ rfl, fun _ u hu ↦ ⟨u, hu, fun _ ↦ Later.refl u⟩⟩

theorem AccountRely.trans (h : AccountRely K lk d d') (h' : AccountRely K lk d' d'') :
    AccountRely K lk d d'' where
  user id m hl hm := (h'.user id m hl hm).trans (h.user id m hl hm)
  later id u hu := by
    obtain ⟨u', hu', hlater⟩ := h.later id u hu
    obtain ⟨u'', hu'', hlater'⟩ := h'.later id u' hu'
    exact ⟨u'', hu'', fun hK ↦ (hlater hK).trans (hlater' hK)⟩

theorem AccountRely.mono (hlk : lk ⊆ lk') (h : AccountRely K lk' d d') : AccountRely K lk d d' where
  user id m hl := h.user id m (hlk hl)
  later := h.later

/-! ## The row after a save -/

theorem users_view_audits (h : ∀ w ∈ ws, ∃ row, w = AccountWrite.insertAuditLog row) :
    (accounts.view ws d).users = d.users := by
  refine accounts.view_unchanged (·.users) fun w hw d ↦ ?_
  obtain ⟨row, rfl⟩ := h w hw
  rfl

theorem find_user_save {mem : User} (hws : ∀ w ∈ ws, ∃ row, w = AccountWrite.insertAuditLog row) :
    (accounts.view (.updateUser mem reread :: ws) d).users.find id =
      (d.users.find id).map fun u ↦ if id = mem.id then User.saved mem reread u else u := by
  rw [Engine.view_cons, users_view_audits hws]
  change (d.users.modify mem.id (User.saved mem reread)).find id = _
  rw [Table.find_modify]
  refine Option.map_congr fun u _ ↦ ?_
  split
  · simp [Table.amend, User.saved]
  · rfl

theorem savedColumn_of_eq {α : Type} [DecidableEq α] {mem reread latest : α}
    (h : latest = reread) : savedColumn mem reread latest = mem := by
  subst h
  unfold savedColumn
  split
  · rename_i h
    exact h.symm
  · rfl

/-- A save that meets the row as it was read sets the columns that it changes. -/
theorem User.saved_latest {mem u : User} (h : mem.id = u.id) : User.saved mem u u = mem := by
  unfold User.saved
  simp only [savedColumn_of_eq, ← h]

/-- An undisturbed save makes a later row of the one it meets. -/
theorem Saves.later_saved (h : Saves K req env d loaded reread latest) (hK : K.undisturbed) :
    Later latest (User.saved (req.edit env loaded) reread latest) := by
  obtain ⟨hreread, hlatest, hactive⟩ := h.versions hK
  have hversion : (User.saved (req.edit env loaded) reread latest).token_version =
      (req.edit env loaded).token_version := savedColumn_of_eq hlatest
  have hload : latest.token_version = loaded.token_version := hlatest.trans hreread
  constructor
  · rw [hversion, hload]
    cases req <;> simp [AccountRequest.edit, deactivated, activated, withPassword]
  · intro heq
    rw [hversion, hload] at heq
    cases req with
    | activate tenantId userId =>
      refine ⟨?_, fun _ ↦ ?_⟩
      · -- The password is the one that was loaded and read again.
        have hhash := ((h.later hK).1.2 hreread.symm).1
        change _ = savedColumn loaded.password_hash reread.password_hash latest.password_hash
        rw [savedColumn, if_pos hhash]
      · exact savedColumn_of_eq hactive
    | _ =>
      simp [AccountRequest.edit, deactivated, withPassword] at heq

/-! ## What a commit leaves to the others -/

theorem conflicts_of_mem_user_locks {w : AccountWrite} {l : LockName} {m m' : LockMode}
    (h : (l, m') ∈ w.locks) (hm : m ≠ .keyShare) : m.conflicts m' = true := by
  cases w with
  | updateUser mem reread =>
    obtain ⟨-, rfl⟩ := Prod.mk.inj (List.mem_singleton.1 h)
    cases m
    · exact (hm rfl).elim
    · rfl
    · rfl
  | insertAuditLog row => cases h

theorem AccountChanges.rely_other {K' : Clerk} (h : AccountChanges K' req env d ws)
    (hK : K.undisturbed → K'.undisturbed) (hws : ∀ w ∈ ws, w.locks ⊆ lk')
    (hsep : Separate lk lk') : AccountRely K lk d (accounts.view ws d) where
  user id m hl hm := by
    refine find_user_view fun mem reread hmem heq ↦ ?_
    have hlock : (LockName.user id, LockMode.noKeyUpdate) ∈ (AccountWrite.updateUser mem reread).locks :=
      heq ▸ List.mem_singleton_self _
    have hconflict := conflicts_of_mem_user_locks hlock hm
    rw [hsep _ m _ hl (hws _ hmem hlock)] at hconflict
    cases hconflict
  later id u hu := by
    cases h with
    | idle => exact ⟨u, hu, fun _ ↦ Later.refl u⟩
    | @save loaded reread latest audits hsaves haudits =>
      rw [find_user_save haudits, hu]
      by_cases hid : id = loaded.id
      · obtain rfl : latest = u := Option.some.inj (hsaves.found.symm.trans (hid ▸ hu))
        refine ⟨_, rfl, ?_⟩
        simp only [AccountRequest.edit_id, hid, if_true]
        exact fun hundisturbed ↦ hsaves.later_saved (hK hundisturbed)
      · refine ⟨u, ?_, fun _ ↦ Later.refl u⟩
        simp [hid]

theorem compatible_accounts {ι : Type} {K : ι → Clerk}
    (hK : ∀ i j, (K i).undisturbed → (K j).undisturbed) (req : ι → AccountRequest)
    (env : ι → AuthEnv) :
    Compatible accounts (fun i ↦ accountContract (K i) (req i) (env i)) AccountWrite.locks where
  footprint h := AccountSql.locks_of_exec h
  refl _ _ _ := AccountRely.refl
  trans h h' := AccountRely.trans h h'
  mono hlk h := AccountRely.mono hlk h
  others := by
    intro i j lk lk' ws d _ hguar hws hsep
    exact AccountChanges.rely_other hguar (hK i j) hws hsep

/-! ## The requests meet their contract -/

theorem account_stmt {o : AccountSql} {k : o.Ans → AccountScript String}
    (h : ∀ lk' d' r ws', lk ⊆ lk' → o.locks (accounts.view ws d') ⊆ lk' → AccountRely K lk d d' →
      K.allow req o (accounts.view ws d') → o.exec (accounts.view ws d') = .ok (r, ws') →
        accounts.wp (accountContract K req env) (k r) (ws ++ ws') lk' d') :
    accounts.wp (accountContract K req env) (.stmt o k) ws lk d :=
  fun d' hrely hallow r ws' hexec ↦ ⟨False.elim, h _ d' r ws' (List.subset_append_left _ _)
    (List.subset_append_right _ _) hrely hallow hexec⟩

/-- The commit that ends the request. -/
theorem account_commit {a : String} (h : ∀ d', AccountRely K lk d d' → AccountChanges K req env d' ws) :
    accounts.wp (accountContract K req env) (.commit (.ret a)) ws lk d :=
  fun d' hrely ↦ ⟨h d' hrely, Or.inl ⟨a, rfl⟩, fun _ _ ↦ trivial⟩

theorem AccountRely.locked (h : AccountRely K lk d d') {m : LockMode} (hlk : (.user id, m) ∈ lk)
    (hm : m ≠ .keyShare) {u : User} (hu : d.users.find id = some u) :
    d'.users.find id = some u :=
  (h.user id m hlk hm).trans hu

theorem AccountSql.updateUser_eq_ok {mem reread : User} {v : AccountDb} {r : Unit}
    (h : (AccountSql.updateUser mem reread).exec v = .ok (r, ws)) :
    ws = [.updateUser mem reread] := by
  simp only [AccountSql.exec] at h
  split at h
  · exact (Prod.mk.inj (Except.ok.inj h)).2.symm
  · cases h

theorem AccountSql.insertAuditLog_eq_ok {row : AuditLog} {v : AccountDb} {r : Unit}
    (h : (AccountSql.insertAuditLog row).exec v = .ok (r, ws)) : ws = [.insertAuditLog row] := by
  simp only [AccountSql.exec] at h
  split at h
  · cases h
  · split at h
    · exact (Prod.mk.inj (Except.ok.inj h)).2.symm
    · cases h

/-- The session holds the row of the user as it is committed. -/
def HoldsUser (d : AccountDb) (lk : List (LockName × LockMode)) (user : User) : Prop :=
  d.users.find user.id = some user ∧ (.user user.id, .update) ∈ lk

theorem Saves.stable (h : Saves K req env d loaded reread latest)
    (hlk : (.user loaded.id, .noKeyUpdate) ∈ lk) (hrely : AccountRely K lk d d') :
    Saves K req env d' loaded reread latest :=
  { h with found := hrely.locked hlk (by decide) h.found }

/-- What is known of the row that a request is going to save. -/
structure LoadedUser (K : Clerk) (req : AccountRequest) (env : AuthEnv) (d : AccountDb)
    (lk : List (LockName × LockMode)) (loaded : User) : Prop where
  target : req.target env = some loaded.id
  found : d.users.find loaded.id = some loaded
  loads : (∀ dto, req ≠ .executePasswordReset dto) → K.loads loaded
  link : ∀ dto, req = .executePasswordReset dto → HoldsUser d lk loaded ∧
    ∃ payload, env.verify dto.token = some payload ∧ payload.sub = loaded.id ∧
      ∀ changedAt ∈ loaded.password_changed_at, changedAt ≤ payload.iat * 1000

theorem edit_ne (hreq : ∀ tenantId userId, req ≠ .activate tenantId userId)
    (h : reread.token_version = loaded.token_version) : req.edit env loaded ≠ reread := by
  rintro rfl
  cases req with
  | activate tenantId userId => exact hreq tenantId userId rfl
  | _ => simp [AccountRequest.edit, deactivated, withPassword] at h

/-- A save that finds its changes made is one of an activation, if it is undisturbed. -/
theorem account_save {f : Unit → AccountScript String} (hload : LoadedUser K req env d lk loaded)
    (hidle : ∀ lk' d', (K.undisturbed → ∃ tenantId userId, req = .activate tenantId userId) →
      (∀ dto, req ≠ .executePasswordReset dto) →
        accounts.wp (accountContract K req env) (f ()) [] lk' d')
    (h : ∀ lk' d' reread latest, (.user loaded.id, .noKeyUpdate) ∈ lk' →
      Saves K req env d' loaded reread latest →
        accounts.wp (accountContract K req env) (f ())
          [.updateUser (req.edit env loaded) reread] lk' d') :
    accounts.wp (accountContract K req env) (saveUser (req.edit env loaded) >>= f) [] lk d := by
  simp only [saveUser, accountQuery, Prog.issue_bind]
  refine account_stmt fun lk₁ d₁ r₁ ws₁ hlk₁ _ hrely₁ hallow₁ hexec₁ ↦ ?_
  obtain ⟨hr₁, rfl⟩ := Prod.mk.inj (Except.ok.inj hexec₁)
  cases r₁ with
  | none => trivial
  | some reread =>
    have hreread : d₁.users.find loaded.id = some reread := by simpa using hr₁
    have hversion : K.undisturbed → reread.token_version = loaded.token_version := fun hK ↦ by
      have hmet := hallow₁.1 hK reread hr₁
      rwa [AccountRequest.loadedVersion_edit] at hmet
    -- A reset by link reads again what it has locked.
    have hheld : ∀ dto, req = .executePasswordReset dto → reread = loaded := fun dto hdto ↦ by
      obtain ⟨⟨-, hlock⟩, -⟩ := hload.link dto hdto
      exact Option.some.inj (hreread.symm.trans (hrely₁.locked hlock (by decide) hload.found))
    simp only [List.append_nil]
    by_cases hsame : req.edit env loaded = reread
    · simp only [hsame, if_true, Prog.pure_eq_ret]
      refine hidle lk₁ d₁ (fun hK ↦ ?_) fun dto hdto ↦ ?_
      · by_contra hne
        refine edit_ne (fun tenantId userId hreq ↦ ?_) (hversion hK) hsame
        exact hne ⟨tenantId, userId, hreq⟩
      · refine edit_ne ?_ (congrArg User.token_version (hheld dto hdto)) hsame
        rintro tenantId userId rfl
        cases hdto
    · simp only [hsame, if_false]
      refine account_stmt fun lk₂ d₂ r₂ ws₂ hlk₂ hneeds₂ hrely₂ hallow₂ hexec₂ ↦ ?_
      obtain rfl := AccountSql.updateUser_eq_ok hexec₂
      obtain ⟨latest, hlatest, hlater⟩ := hrely₂.later loaded.id reread hreread
      obtain ⟨row, hrow, hlater₁⟩ := hrely₁.later loaded.id loaded hload.found
      obtain rfl : row = reread := Option.some.inj (hrow.symm.trans hreread)
      rw [List.nil_append]
      refine h lk₂ d₂ row latest (hneeds₂ (by simp [AccountSql.locks])) {
        target := hload.target
        found := hlatest
        loads := hload.loads
        versions := fun hK ↦ ⟨hversion hK, ?_⟩
        later := fun hK ↦ ⟨hlater₁ hK, hlater hK⟩
        link := fun dto hdto ↦ ?_ }
      · refine hallow₂.1 hK latest ?_
        simpa using hlatest
      · obtain ⟨⟨hheld₀, hlock⟩, hlink⟩ := hload.link dto hdto
        have hsaved : latest = loaded := by
          have hkept := hrely₂.locked (hlk₁ hlock) (by decide) hreread
          exact (Option.some.inj (hlatest.symm.trans hkept)).trans (hheld dto hdto)
        exact ⟨hheld dto hdto, hsaved, hlink⟩

/-- A request that loads a user without a lock, edits it and saves it. -/
theorem editing_wp {tenantId userId : Uuid} {message : String}
    (htarget : req.target env = some userId) (hdto : ∀ dto, req ≠ .executePasswordReset dto) :
    accounts.wp (accountContract K req env) (do
      let user ← findUserOrFail tenantId userId
      saveUser (req.edit env user)
      Prog.commitTransaction
      pure message) [] [] d := by
  simp only [findUserOrFail, accountQuery, Prog.issue_bind, Prog.stmt_bind]
  refine account_stmt fun lk₁ d₁ r₁ ws₁ _ _ _ hallow₁ hexec₁ ↦ ?_
  obtain ⟨hr₁, rfl⟩ := Prod.mk.inj (Except.ok.inj hexec₁)
  cases r₁ with
  | none => trivial
  | some loaded =>
    obtain ⟨hfound, -⟩ := Option.filter_eq_some_iff.1 hr₁
    obtain rfl : loaded.id = userId := (Table.find_eq_some.1 hfound).2
    simp only [Prog.pure_eq_ret, Prog.ret_bind, List.append_nil]
    refine account_save ⟨htarget, hfound, fun _ ↦ hallow₁.2 loaded hfound,
      fun dto h ↦ (hdto dto h).elim⟩ (fun lk₂ d₂ hidle _ ↦ ?_) fun lk₂ d₂ reread latest hlk₂ hsaves ↦ ?_
    · exact account_commit fun _ _ ↦ .idle hidle hdto
    · exact account_commit fun d₃ hrely₃ ↦ .save (hsaves.stable hlk₂ hrely₃) (by simp)

theorem resetUnder_wp {dto : Auth.ResetPasswordDto} {payload : ResetTokenPayload}
    (htoken : env.verify dto.token = some payload) :
    accounts.wp (accountContract K (.executePasswordReset dto) env) (resetUnder env payload dto)
      [] [] d := by
  simp only [resetUnder, accountQuery, Prog.issue_bind]
  refine account_stmt fun lk₁ d₁ r₁ ws₁ _ hneeds₁ _ _ hexec₁ ↦ ?_
  obtain ⟨hr₁, rfl⟩ := Prod.mk.inj (Except.ok.inj hexec₁)
  cases r₁ with
  | none => trivial
  | some loaded =>
    have hfound : d₁.users.find payload.sub = some loaded := hr₁
    have hid : loaded.id = payload.sub := (Table.find_eq_some.1 hfound).2
    simp only [List.append_nil]
    split
    · trivial
    rename_i hunused
    have htarget : (AccountRequest.executePasswordReset dto).target env = some loaded.id := by
      simp [AccountRequest.target, htoken, hid]
    refine account_save ⟨htarget, hid ▸ hfound, fun h ↦ (h dto rfl).elim, ?_⟩ ?_ ?_
    · rintro _ ⟨⟩
      refine ⟨⟨hid ▸ hfound, hneeds₁ ?_⟩, payload, htoken, hid.symm, fun changedAt hmem ↦ ?_⟩
      · simp [AccountSql.locks, Sql.lockFound, hfound, hid]
      · exact not_lt.1 fun hlt ↦ hunused ⟨changedAt, hmem, hlt⟩
    · exact fun _ _ _ hdto ↦ (hdto dto rfl).elim
    · intro lk₂ d₂ reread latest hlk₂ hsaves
      refine account_stmt fun lk₃ d₃ r₃ ws₃ hlk₃ _ hrely₃ _ hexec₃ ↦ ?_
      refine account_commit fun d₄ hrely₄ ↦ ?_
      have hrely : AccountRely K lk₂ d₂ d₄ := hrely₃.trans (hrely₄.mono hlk₃)
      obtain rfl := AccountSql.insertAuditLog_eq_ok hexec₃
      exact .save (hsaves.stable hlk₂ hrely) fun w hw ↦ ⟨_, List.mem_singleton.1 hw⟩

theorem account_wp (K : Clerk) (req : AccountRequest) (env : AuthEnv) (d : AccountDb) :
    accounts.wp (accountContract K req env) (req.script env) [] [] d := by
  cases req with
  | deactivate tenantId userId => exact editing_wp rfl (by simp)
  | activate tenantId userId => exact editing_wp rfl (by simp)
  | resetPassword tenantId userId dto => exact editing_wp rfl (by simp)
  | executePasswordReset dto =>
    simp only [AccountRequest.script, executePasswordReset]
    split
    · exact fun _ _ ↦ trivial
    · split
      · trivial
      · rename_i payload htoken
        split
        · trivial
        · exact resetUnder_wp htoken

/-! ## One request alone -/

theorem alone_account_error {d' : AccountDb} {e : AuthError}
    (hrun : accounts.alone (req.script env) [] d = (.error e, d')) : d' = d :=
  Engine.alone_error (fun _ _ ↦ AccountRely.refl) (Clerk.allow_plain req) (account_wp .plain req env d)
    hrun

/-- A save alone sets the row. -/
theorem alone_saveUser {mem : User} {a : String} (hfound : d.users.find loaded.id = some loaded)
    (hid : mem.id = loaded.id) {f : Unit → AccountScript String}
    (hrun : accounts.alone (saveUser mem >>= f) [] d = (.ok a, d')) :
    ∃ ws, accounts.alone (f ()) ws d = (.ok a, d') ∧
      ∀ id, (accounts.view ws d).users.find id =
        if id = loaded.id then some mem else d.users.find id := by
  simp only [saveUser, accountQuery, Prog.issue_bind, Prog.stmt_bind] at hrun
  obtain ⟨row, ws₁, hexec₁, hrun⟩ := Engine.alone_stmt_eq_ok.1 hrun
  obtain ⟨hrow, rfl⟩ := Prod.mk.inj (Except.ok.inj hexec₁)
  obtain rfl : row = some loaded := hrow.symm.trans ((congrArg d.users.find hid).trans hfound)
  by_cases hsame : mem = loaded
  · subst hsame
    simp only [if_true, Prog.pure_eq_ret, Prog.ret_bind] at hrun
    refine ⟨[], hrun, fun id ↦ ?_⟩
    split
    · rename_i hid
      rw [hid]
      exact hfound
    · rfl
  · simp only [hsame, if_false, Prog.issue_bind] at hrun
    obtain ⟨_, ws₂, hexec₂, hrun⟩ := Engine.alone_stmt_eq_ok.1 hrun
    obtain rfl := AccountSql.updateUser_eq_ok (v := d) hexec₂
    refine ⟨_, hrun, fun id ↦ ?_⟩
    rw [List.nil_append, List.nil_append, find_user_save (fun w hw ↦ (List.not_mem_nil hw).elim), hid]
    split
    · rename_i heq
      rw [heq, hfound]
      exact congrArg some (User.saved_latest hid)
    · simp

/-- The user whose row the request saves before it answers; a reset that the cache answers saves
none. -/
def saves (env : AuthEnv) : AccountRequest → Option Uuid
  | .executePasswordReset dto =>
      if env.isDuplicate then none else (AccountRequest.executePasswordReset dto).target env
  | req => req.target env

/-- The rows of the users after the request has saved `loaded`. -/
def Edited (req : AccountRequest) (env : AuthEnv) (d d' : AccountDb) (loaded : User) : Prop :=
  d.users.find loaded.id = some loaded ∧
    ∀ id, d'.users.find id = if id = loaded.id then some (req.edit env loaded) else d.users.find id

theorem alone_editing (req : AccountRequest) (env : AuthEnv) {tenantId userId : Uuid}
    {message a : String} (hrun : accounts.alone (do
      let user ← findUserOrFail tenantId userId
      saveUser (req.edit env user)
      Prog.commitTransaction
      pure message) [] d = (.ok a, d')) : ∃ loaded, userId = loaded.id ∧ Edited req env d d' loaded := by
  simp only [findUserOrFail, accountQuery, Prog.issue_bind, Prog.stmt_bind] at hrun
  obtain ⟨row, ws₁, hexec₁, hrun⟩ := Engine.alone_stmt_eq_ok.1 hrun
  obtain ⟨hrow, rfl⟩ := Prod.mk.inj (Except.ok.inj hexec₁)
  cases row with
  | none => cases congrArg Prod.fst hrun
  | some loaded =>
    obtain ⟨hfound, -⟩ := Option.filter_eq_some_iff.1 hrow
    obtain rfl : loaded.id = userId := (Table.find_eq_some.1 hfound).2
    obtain ⟨ws, hend, hrows⟩ := alone_saveUser hfound (req.edit_id env loaded) hrun
    obtain rfl : accounts.view ws d = d' := congrArg Prod.snd hend
    exact ⟨loaded, rfl, hfound, hrows⟩

theorem alone_resetUnder {dto : Auth.ResetPasswordDto} {payload : ResetTokenPayload} {a : String}
    (hrun : accounts.alone (resetUnder env payload dto) [] d = (.ok a, d')) :
    ∃ loaded, payload.sub = loaded.id ∧ Edited (.executePasswordReset dto) env d d' loaded := by
  simp only [resetUnder, accountQuery, Prog.issue_bind] at hrun
  obtain ⟨row, ws₁, hexec₁, hrun⟩ := Engine.alone_stmt_eq_ok.1 hrun
  obtain ⟨hrow, rfl⟩ := Prod.mk.inj (Except.ok.inj hexec₁)
  cases row with
  | none => cases congrArg Prod.fst hrun
  | some loaded =>
    have hfound : d.users.find payload.sub = some loaded := hrow
    have hid : loaded.id = payload.sub := (Table.find_eq_some.1 hfound).2
    simp only at hrun
    split at hrun
    · cases congrArg Prod.fst hrun
    rw [← hid] at hfound
    obtain ⟨ws, hend, hrows⟩ := alone_saveUser hfound
      (show (withPassword env dto.new_password loaded).id = loaded.id from rfl) hrun
    obtain ⟨_, ws₂, hexec₂, hend⟩ := Engine.alone_stmt_eq_ok.1 hend
    obtain rfl := AccountSql.insertAuditLog_eq_ok (v := accounts.view ws d) hexec₂
    obtain rfl : accounts.view _ d = d' := congrArg Prod.snd hend
    refine ⟨loaded, hid.symm, hfound, fun id ↦ ?_⟩
    rw [accounts.view_append, users_view_audits fun w hw ↦ ⟨_, List.mem_singleton.1 hw⟩]
    exact hrows id

/-- A request alone that answers has saved the row that it edits. -/
theorem alone_account {a : String} (hrun : accounts.alone (req.script env) [] d = (.ok a, d')) :
    (saves env req = none ∧ d' = d) ∨
      ∃ loaded, saves env req = some loaded.id ∧ Edited req env d d' loaded := by
  cases req with
  | executePasswordReset dto =>
    simp only [AccountRequest.script, executePasswordReset] at hrun
    split at hrun
    · rename_i hcache
      left
      exact ⟨by simp [saves, hcache], (congrArg Prod.snd hrun).symm⟩
    · rename_i hcache
      split at hrun
      · cases congrArg Prod.fst hrun
      · rename_i payload htoken
        split at hrun
        · cases congrArg Prod.fst hrun
        · obtain ⟨loaded, hsub, hedited⟩ := alone_resetUnder hrun
          refine Or.inr ⟨loaded, ?_, hedited⟩
          simp [saves, hcache, AccountRequest.target, htoken, hsub]
  | deactivate tenantId userId =>
    obtain ⟨loaded, rfl, hedited⟩ := alone_editing (.deactivate tenantId userId) env hrun
    exact Or.inr ⟨loaded, rfl, hedited⟩
  | activate tenantId userId =>
    obtain ⟨loaded, rfl, hedited⟩ := alone_editing (.activate tenantId userId) env hrun
    exact Or.inr ⟨loaded, rfl, hedited⟩
  | resetPassword tenantId userId dto =>
    obtain ⟨loaded, rfl, hedited⟩ := alone_editing (.resetPassword tenantId userId dto) env hrun
    exact Or.inr ⟨loaded, rfl, hedited⟩

end MicroErp.Commits
