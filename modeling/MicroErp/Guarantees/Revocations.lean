import MicroErp.Guarantees.Sessions

/-!
# A revoked user stays revoked

A save of a user writes every column in which the loaded row differs from the stored one.  When each
save meets the version that its request loaded, no request undoes a deactivation but an activation
that starts after it.
-/

namespace MicroErp.Guarantees

open MicroErp.Commits MicroErp.Concurrency MicroErp.Database MicroErp.Services MicroErp.Storage

/-! ## The programs -/

/-- A user is looked up before anything is written. -/
def LooksUpFirst (_ : List (LockName × LockMode)) (ws : List AccountWrite) (o : AccountSql)
    (_ : AccountDb) : Prop :=
  ∀ tenantId id, o = .findUser tenantId id → ws = []

theorem body_saveUser (user : User) :
    (saveUser user).Body fun o ↦ ∀ tenantId id, o ≠ .findUser tenantId id := by
  refine ⟨fun _ _ h ↦ AccountSql.noConfusion h, fun row ↦ ?_⟩
  cases row with
  | none => trivial
  | some reread =>
    change (if user = reread then pure () else accountQuery (.updateUser user reread)).Body _
    split
    · trivial
    · exact ⟨fun _ _ h ↦ AccountSql.noConfusion h, fun _ ↦ trivial⟩

/-- A program that looks up nobody any more. -/
theorem along_of_lookless {p : AccountScript String}
    (h : p.Safe (fun o ↦ ∀ tenantId id, o ≠ .findUser tenantId id) (fun _ _ ↦ True) fun _ ↦ True)
    (ws : List AccountWrite) (lk : List (LockName × LockMode)) :
    p.Along accounts (fun _ ↦ True) LooksUpFirst ws lk := by
  refine Prog.along_of_safe h (fun _ _ _ ↦ trivial) (fun _ _ o _ _ ho ↦ ?_) ws lk
  exact fun tenantId id heq ↦ (ho tenantId id heq).elim

theorem along_editing {tenantId userId : Uuid} {edit : User → User} {message : String} :
    Prog.Along accounts (fun _ ↦ True) LooksUpFirst (do
      let user ← findUserOrFail tenantId userId
      saveUser (edit user)
      Prog.commitTransaction
      pure message : AccountScript String) [] [] := by
  simp only [findUserOrFail, accountQuery, Prog.issue_bind, Prog.stmt_bind]
  intro v _
  refine ⟨fun _ _ _ ↦ rfl, fun row ws _ ↦ ?_⟩
  cases row with
  | none => trivial
  | some user =>
    refine along_of_lookless (Prog.Safe.bind (Prog.safe_of_body (body_saveUser (edit user))) ?_) _ _
    exact fun _ _ ↦ trivial

theorem along_lookUp (req : AccountRequest) (env : AuthEnv) :
    (req.script env).Along accounts (fun _ ↦ True) LooksUpFirst [] [] := by
  cases req with
  | executePasswordReset dto =>
    refine along_of_lookless ?_ _ _
    simp only [AccountRequest.script, executePasswordReset]
    split
    · trivial
    · split
      · trivial
      · split
        · trivial
        · simp only [resetUnder, accountQuery, Prog.issue_bind]
          refine ⟨fun _ _ h ↦ AccountSql.noConfusion h, fun row _ ↦ ?_⟩
          cases row with
          | none => trivial
          | some user =>
            simp only
            split
            · trivial
            · refine (Prog.safe_of_body (body_saveUser _)).bind fun _ _ ↦ ?_
              exact ⟨fun _ _ h ↦ AccountSql.noConfusion h, fun _ _ ↦ trivial⟩
  | _ => exact along_editing

/-! ## UndisturbedRun runs -/

section Runs

variable {ι : Type} [DecidableEq ι] {req : ι → AccountRequest} {env : ι → AuthEnv} {d : AccountDb}
  {es es' es₁ es₂ : List (Event ι)} {i j : ι} {id : Uuid} {u : User} {v : ℤ}

/-- Each save in the run meets the version that its request loaded. -/
def UndisturbedRun (req : ι → AccountRequest) (env : ι → AuthEnv) (d : AccountDb) (es : List (Event ι)) :
    Prop :=
  accounts.PooledMeets AccountSql.outside (fun i ↦ (req i).Undisturbed)
    (Sys.start d fun i ↦ (req i).script (env i)) es

/-- The next step of session `j` is the look-up with which an activation of the user starts. -/
def Starts (req : ι → AccountRequest) (s : AccountSys ι) (j : ι) (id : Uuid) : Prop :=
  (∃ tenantId userId, req j = .activate tenantId userId) ∧
    ∃ tenantId k ws, s.session j = .running (.stmt (.findUser tenantId id) k) ws

omit [DecidableEq ι] in
theorem compatible_careful (loads : ι → User → Prop) (req : ι → AccountRequest)
    (env : ι → AuthEnv) :
    Compatible accounts (fun i ↦ accountContract (.careful (loads i)) (req i) (env i))
      AccountWrite.locks :=
  compatible_accounts (fun _ _ h ↦ h) req env

theorem serveAccounts_append (es es' : List (Event ι)) :
    serveAccounts req env d (es ++ es') =
      accounts.pooledRun AccountSql.outside (serveAccounts req env d es) es' :=
  Engine.pooledRun_append _ es es'

theorem UndisturbedRun.shorter (h : UndisturbedRun req env d es) (hes' : es' <+: es) : UndisturbedRun req env d es' := by
  obtain ⟨rest, rfl⟩ := hes'
  exact (Engine.pooledMeets_append.1 h).1

/-- The rows that are loaded in the run are as assumed. -/
def LoadsMeet (loads : ι → User → Prop) (req : ι → AccountRequest) (env : ι → AuthEnv)
    (d : AccountDb) (es : List (Event ι)) : Prop :=
  ∀ es' i tenantId id k ws, es' ++ [.step i] <+: es →
    (serveAccounts req env d es').session i = .running (.stmt (.findUser tenantId id) k) ws →
      ∀ u ∈ (accounts.view ws (serveAccounts req env d es').db).users.find id, loads i u

theorem LoadsMeet.shorter {loads : ι → User → Prop} (h : LoadsMeet loads req env d es)
    (hes' : es' <+: es) : LoadsMeet loads req env d es' :=
  fun es'' i tenantId id k ws hes'' ↦ h es'' i tenantId id k ws (hes''.trans hes')

theorem loadsMeet_true (req : ι → AccountRequest) (env : ι → AuthEnv) (d : AccountDb)
    (es : List (Event ι)) : LoadsMeet (fun _ _ ↦ True) req env d es :=
  fun _ _ _ _ _ _ _ _ _ _ ↦ trivial

/-- An undisturbed run in which the loaded rows are as assumed. -/
theorem sound_careful {loads : ι → User → Prop} (h : UndisturbedRun req env d es)
    (hloads : LoadsMeet loads req env d es) :
    Sound accounts (fun i ↦ accountContract (.careful (loads i)) (req i) (env i)) AccountWrite.locks
      (serveAccounts req env d es) := by
  refine (Sound.start fun i ↦ account_wp _ _ _ d).pooledRun (compatible_careful loads req env)
    (along_start req env d) (Engine.PooledMeets.of_prefix h fun es' i o k ws hes' hs ho ↦ ?_)
  refine ⟨fun _ ↦ ho, ?_⟩
  cases o with
  | findUser tenantId id => exact hloads es' i tenantId id k ws hes' hs
  | _ => trivial

/-- What an event makes of a user. -/
theorem row_of_step {loads : ι → User → Prop}
    (hsound : Sound accounts (fun i ↦ accountContract (.careful (loads i)) (req i) (env i))
      AccountWrite.locks (serveAccounts req env d es)) (e : Event ι)
    (hu : (serveAccounts req env d es).db.users.find id = some u) :
    (serveAccounts req env d (es ++ [e])).db.users.find id = some u ∨
      ∃ i loaded reread, e = .step i ∧ loaded.id = id ∧
        Saves (.careful (loads i)) (req i) (env i) (serveAccounts req env d es).db loaded reread u ∧
        (serveAccounts req env d (es ++ [e])).db.users.find id =
          some (User.saved ((req i).edit (env i) loaded) reread u) := by
  have halong : (serveAccounts req env d es).Along accounts (fun _ ↦ True)
      (WaitsOutside accounts AccountSql.outside) := Sys.Along.pooledRun (along_start req env d) es
  have hmove := Sys.Along.pooled_move halong (e := e)
  rw [serveAccounts_append es [e]]
  change (accounts.pooledStep _ (serveAccounts req env d es) e).db.users.find id = _ ∨
    ∃ i loaded reread, _ ∧ _ ∧ _ ∧ (accounts.pooledStep _ _ e).db.users.find id = _
  rcases hsound.commit_of_move (compatible_careful loads req env) hmove
    with ⟨hdb, -⟩ | ⟨i, ws, rfl, hguar, -, hdb, -⟩
  · left
    exact (congrArg (·.users.find id) hdb).trans hu
  · have hrows := congrArg (·.users.find id) hdb
    cases hguar with
    | idle =>
      left
      exact hrows.trans hu
    | @save loaded reread latest audits hsaves haudits =>
      have hrow := hrows.trans (find_user_save haudits)
      rw [hu, Option.map_some] at hrow
      by_cases hid : id = loaded.id
      · right
        subst hid
        obtain rfl : u = latest := Option.some.inj (hu.symm.trans hsaves.found)
        refine ⟨i, loaded, reread, rfl, rfl, hsaves, hrow.trans ?_⟩
        rw [AccountRequest.edit_id, if_pos rfl]
      · left
        refine hrow.trans ?_
        rw [AccountRequest.edit_id, if_neg hid]

/-- In an undisturbed run a user is followed by later versions of it. -/
theorem later_run (h : UndisturbedRun req env d (es ++ es'))
    (hu : (serveAccounts req env d es).db.users.find id = some u) :
    ∃ u', (serveAccounts req env d (es ++ es')).db.users.find id = some u' ∧ Later u u' := by
  induction es' using List.reverseRecOn with
  | nil => exact ⟨u, by rwa [List.append_nil], Later.refl u⟩
  | append_singleton es' e ih =>
    rw [← List.append_assoc] at h ⊢
    have hbefore := h.shorter (List.prefix_append _ [e])
    obtain ⟨u', hu', hlater⟩ := ih hbefore
    have hsound := sound_careful hbefore (loadsMeet_true _ _ _ _)
    rcases row_of_step hsound e hu' with hkept | ⟨i, loaded, reread, -, -, hsaves, hsaved⟩
    · exact ⟨u', hkept, hlater⟩
    · exact ⟨_, hsaved, hlater.trans (hsaves.later_saved trivial)⟩

/-- What an activation knows of the rows that it loads, if it started before a version above `v`. -/
def LoadedBefore (req : ι → AccountRequest) (id : Uuid) (v : ℤ) (i : ι) (u : User) : Prop :=
  (∃ tenantId userId, req i = .activate tenantId userId) → u.id = id → u.token_version ≤ v

omit [DecidableEq ι] in
/-- A save of a user who is revoked leaves it so, unless it is an activation that started later. -/
theorem revoked_saved {loaded reread : User} {d : AccountDb}
    (h : Saves (.careful (LoadedBefore req id v i)) (req i) (env i) d loaded reread u)
    (hid : loaded.id = id) (hactive : u.is_active = false) (hv : v < u.token_version) :
    (User.saved ((req i).edit (env i) loaded) reread u).is_active = false ∧
      v < (User.saved ((req i).edit (env i) loaded) reread u).token_version := by
  obtain ⟨hreread, hlatest, hsame⟩ := h.versions trivial
  refine ⟨?_, hv.trans_le (h.later_saved trivial).1⟩
  have hsaved : (User.saved ((req i).edit (env i) loaded) reread u).is_active =
      ((req i).edit (env i) loaded).is_active := savedColumn_of_eq hsame
  -- What was loaded in this version is inactive, as the row is now.
  have hloaded : loaded.is_active = false := by
    by_contra hne
    have hrow := ((h.later trivial).1.2 hreread.symm).2 (by simpa using hne)
    rw [← hsame, hactive] at hrow
    cases hrow
  rw [hsaved]
  cases hreq : req i with
  | activate tenantId userId =>
    have hold := h.loads (by simp [hreq]) ⟨tenantId, userId, hreq⟩ hid
    omega
  | deactivate tenantId userId => rfl
  | resetPassword tenantId userId dto => exact hloaded
  | executePasswordReset dto => exact hloaded

theorem revoked_run (h : UndisturbedRun req env d (es ++ es'))
    (hloads : LoadsMeet (LoadedBefore req id v) req env d (es ++ es'))
    (hu : ∃ u, (serveAccounts req env d es).db.users.find id = some u ∧ u.is_active = false ∧
      v < u.token_version) :
    ∃ u, (serveAccounts req env d (es ++ es')).db.users.find id = some u ∧ u.is_active = false ∧
      v < u.token_version := by
  induction es' using List.reverseRecOn with
  | nil => rwa [List.append_nil]
  | append_singleton es' e ih =>
    rw [← List.append_assoc] at h hloads ⊢
    have hprefix : es ++ es' <+: es ++ es' ++ [e] := List.prefix_append _ [e]
    obtain ⟨u, hu, hactive, hv⟩ := ih (h.shorter hprefix) (hloads.shorter hprefix)
    have hsound := sound_careful (h.shorter hprefix) (hloads.shorter hprefix)
    rcases row_of_step hsound e hu with hkept | ⟨i, loaded, reread, -, hid, hsaves, hsaved⟩
    · exact ⟨u, hkept, hactive, hv⟩
    · exact ⟨_, hsaved, revoked_saved hsaves hid hactive hv⟩

/-- The commit of a deactivation. -/
theorem deactivate_commit (h : UndisturbedRun req env d es) {tenantId : Uuid}
    (hreq : req i = .deactivate tenantId id) {k : AccountScript String} {ws : List AccountWrite}
    (hs : (serveAccounts req env d es).session i = .running (.commit k) ws) :
    ∃ u u', (serveAccounts req env d es).db.users.find id = some u ∧
      (serveAccounts req env d (es ++ [.step i])).db.users.find id = some u' ∧
      u'.is_active = false ∧ u.token_version < u'.token_version := by
  have hsound := sound_careful h (loadsMeet_true _ _ _ _)
  have hguar := (hsound.running hs _ AccountRely.refl).1
  have hdb : (serveAccounts req env d (es ++ [.step i])).db =
      accounts.view ws (serveAccounts req env d es).db := by
    rw [serveAccounts_append]
    change (accounts.pooledStep _ (serveAccounts req env d es) (.step i)).db = _
    simp only [Engine.pooledStep, Engine.stepPooled, hs, Engine.stepSession]
  rw [hdb]
  cases hguar with
  | idle hidle =>
    obtain ⟨tenantId', userId', hactivate⟩ := hidle trivial
    rw [hreq] at hactivate
    cases hactivate
  | @save loaded reread latest audits hsaves haudits =>
    obtain ⟨hreread, hlatest, hsame⟩ := hsaves.versions trivial
    obtain rfl : id = loaded.id := by
      have htarget := hsaves.target
      rw [hreq] at htarget
      exact Option.some.inj htarget
    refine ⟨latest, User.saved ((req i).edit (env i) loaded) reread latest, hsaves.found, ?_, ?_, ?_⟩
    · rw [find_user_save haudits, hsaves.found, Option.map_some, AccountRequest.edit_id, if_pos rfl]
    · rw [hreq]
      exact savedColumn_of_eq hsame
    · have hversion : (User.saved ((req i).edit (env i) loaded) reread latest).token_version =
          ((req i).edit (env i) loaded).token_version := savedColumn_of_eq hlatest
      rw [hversion, hreq]
      simp only [AccountRequest.edit, deactivated]
      omega

/-- The activations of a run have loaded rows of an earlier version, if none of them starts after
the commit. -/
theorem loadsMeet_before (h : UndisturbedRun req env d (es₁ ++ .step i :: es₂))
    (hu : (serveAccounts req env d es₁).db.users.find id = some u)
    (hnone : ∀ es' j, es' ++ [.step j] <+: es₂ →
      ¬Starts req (serveAccounts req env d (es₁ ++ .step i :: es')) j id) :
    LoadsMeet (LoadedBefore req id u.token_version) req env d (es₁ ++ .step i :: es₂) := by
  rintro es' j tenantId id' k ws hes' hs row hrow hactivate rfl
  have hfirst : (serveAccounts req env d es').Along accounts (fun _ ↦ True) LooksUpFirst :=
    Sys.Along.along_pooledRun (along_start req env d)
      (Sys.Along.start fun i ↦ along_lookUp (req i) (env i)) es'
  obtain rfl : ws = [] := (hfirst hs (serveAccounts req env d es').db trivial).1 tenantId id' rfl
  rw [Engine.view_nil] at hrow
  obtain rfl : row.id = id' := (Table.find_eq_some.1 hrow).2
  have hearly : ∀ rest, es₁ = es' ++ rest → row.token_version ≤ u.token_version := by
    rintro rest rfl
    obtain ⟨u', hu', hlater⟩ := later_run (h.shorter (List.prefix_append _ _)) hrow
    obtain rfl : u' = u := Option.some.inj (hu'.symm.trans hu)
    exact hlater.1
  obtain ⟨rest, hrest⟩ := hes'
  rw [List.append_assoc] at hrest
  rcases List.append_eq_append_iff.1 hrest with ⟨rest', hbefore, -⟩ | ⟨rest', hafter, heq⟩
  · exact hearly rest' hbefore
  · cases rest' with
    | nil => exact hearly [] (by simpa using hafter.symm)
    | cons e es'' =>
      obtain ⟨rfl, rfl⟩ := List.cons.inj heq
      refine (hnone es'' j ?_ ⟨hactivate, tenantId, k, [], hafter ▸ hs⟩).elim
      exact ⟨rest, List.append_assoc _ _ _⟩

/-- What a request makes of the password. -/
def AccountRequest.newHash (env : AuthEnv) : AccountRequest → Option String
  | .resetPassword _ _ dto => some (env.hash dto.new_password)
  | .executePasswordReset dto => some (env.hash dto.new_password)
  | _ => none

omit [DecidableEq ι] in
/-- A save leaves the password of the row or sets the one that its request computed. -/
theorem hash_saved {loads : User → Prop} {d : AccountDb} {loaded reread : User}
    (h : Saves (.careful loads) (req i) (env i) d loaded reread u) :
    (User.saved ((req i).edit (env i) loaded) reread u).password_hash = u.password_hash ∨
      AccountRequest.newHash (env i) (req i) =
        some (User.saved ((req i).edit (env i) loaded) reread u).password_hash := by
  have hhash : reread.password_hash = loaded.password_hash :=
    ((h.later trivial).1.2 (h.versions trivial).1.symm).1.symm
  have hkept : savedColumn loaded.password_hash reread.password_hash u.password_hash =
      u.password_hash := if_pos hhash.symm
  have hset : ∀ hash, savedColumn hash reread.password_hash u.password_hash = u.password_hash ∨
      some hash = some (savedColumn hash reread.password_hash u.password_hash) := by
    intro hash
    unfold savedColumn
    split
    · exact Or.inl rfl
    · exact Or.inr rfl
  cases hreq : req i with
  | deactivate tenantId userId => exact Or.inl hkept
  | activate tenantId userId => exact Or.inl hkept
  | resetPassword tenantId userId dto => exact hset _
  | executePasswordReset dto => exact hset _

omit [DecidableEq ι] in
/-- A token is refused if its version is not the one of the user. -/
theorem validate_of_version {d : AccountDb} {payload : JwtPayload}
    (hu : d.users.find payload.sub = some u) (h : payload.token_version ≠ u.token_version) :
    validate payload d = .error (.unauthorized "Sesión revocada. Vuelva a iniciar sesión") := by
  unfold validate
  simp only [hu]
  rw [if_pos h]

/-- In an undisturbed run, from the commit of a deactivation and until an activation starts, the user is
inactive and every token issued before the deactivation is refused.  An event leaves a password as
it is or sets it to the one of its own request. -/
theorem revoked_stays_revoked (h : UndisturbedRun req env d es) :
    (∀ es₁ i es₂ tenantId id k ws, es = es₁ ++ .step i :: es₂ →
      req i = .deactivate tenantId id →
      (serveAccounts req env d es₁).session i = .running (.commit k) ws →
      (∀ es' j, es' ++ [.step j] <+: es₂ →
        ¬Starts req (serveAccounts req env d (es₁ ++ .step i :: es')) j id) →
      ∃ u, (serveAccounts req env d es).db.users.find id = some u ∧ u.is_active = false ∧
        ∀ es' loginEnv dto payload, es' <+: es₁ →
          login loginEnv dto (serveAccounts req env d es').db = .ok payload → payload.sub = id →
          payload.token_version ≠ u.token_version ∧
            ∃ e, validate payload (serveAccounts req env d es).db = .error e) ∧
    ∀ es' e id u, es' ++ [e] <+: es → (serveAccounts req env d es').db.users.find id = some u →
      ∃ u', (serveAccounts req env d (es' ++ [e])).db.users.find id = some u' ∧
        (u'.password_hash = u.password_hash ∨
          ∃ i, e = .step i ∧ AccountRequest.newHash (env i) (req i) = some u'.password_hash) := by
  constructor
  · rintro es₁ i es₂ tenantId id k ws rfl hreq hs hnone
    have hbefore : UndisturbedRun req env d es₁ := h.shorter (List.prefix_append _ _)
    obtain ⟨u₁, u₂, hu₁, hu₂, hactive, hversion⟩ := deactivate_commit hbefore hreq hs
    have hsplit : es₁ ++ .step i :: es₂ = es₁ ++ [.step i] ++ es₂ := by simp
    have hloads := loadsMeet_before h hu₁ hnone
    rw [hsplit] at h hloads ⊢
    obtain ⟨u, hu, hinactive, hlt⟩ := revoked_run h hloads ⟨u₂, hu₂, hactive, hversion⟩
    refine ⟨u, hu, hinactive, fun es' loginEnv dto payload hes' hlogin hsub ↦ ?_⟩
    obtain ⟨u₀, hu₀, hissued, -⟩ := token_of_login hlogin
    obtain ⟨rest, rfl⟩ := hes'
    obtain ⟨u₁', hu₁', hlater⟩ := later_run hbefore (hsub ▸ hu₀)
    obtain rfl : u₁' = u₁ := Option.some.inj (hu₁'.symm.trans hu₁)
    have hne : payload.token_version ≠ u.token_version := by
      rw [hissued]
      exact (hlater.1.trans_lt hlt).ne
    exact ⟨hne, _, validate_of_version (hsub ▸ hu) hne⟩
  · intro es' e id u hes' hu
    have hbefore : UndisturbedRun req env d es' := (h.shorter hes').shorter (List.prefix_append _ _)
    rcases row_of_step (sound_careful hbefore (loadsMeet_true _ _ _ _)) e hu
      with hkept | ⟨i, loaded, reread, rfl, -, hsaves, hsaved⟩
    · exact ⟨u, hkept, Or.inl rfl⟩
    · exact ⟨_, hsaved, (hash_saved hsaves).imp_right fun hset ↦ ⟨i, rfl, hset⟩⟩

end Runs

/-! ## A change of password across a deactivation -/

def undoing (second : Bool) : AccountRequest :=
  if second then .deactivate 1 5 else .resetPassword 1 5 ⟨"Nueva.1"⟩

def undoingEnv (second : Bool) : AuthEnv :=
  sampleAuthEnv (if second then 5000 else 5100) 0 (if second then 900 else 901)

/-- Until the commit of the deactivation; the new password is being hashed. -/
def untilCommit : List (Event Bool) := .step false :: List.replicate 3 (.step true)

/-- The change of password saves the user as it was before the deactivation. -/
theorem revocation_undone :
    (∀ i tenantId userId, undoing i ≠ .activate tenantId userId) ∧ undoing true = .deactivate 1 5 ∧
      (∃ k ws, (serveAccounts undoing undoingEnv sampleAccounts untilCommit).session true =
        .running (.commit k) ws) ∧
      ∃ u, (serveAccounts undoing undoingEnv sampleAccounts
        (untilCommit ++ .step true :: List.replicate 3 (.step false))).db.users.find 5 = some u ∧
        u.is_active = true := by
  refine ⟨?_, rfl, ⟨_, _, rfl⟩, _, rfl, rfl⟩
  rintro (_ | _) tenantId userId h <;> cases h

/-- The change of password first, then the deactivation. -/
def inOrder : List (Event Bool) := List.replicate 5 (.step false) ++ List.replicate 3 (.step true)

theorem revoked_stays_revoked_inOrder :
    ∃ u, (serveAccounts undoing undoingEnv sampleAccounts (inOrder ++ [.step true])).db.users.find 5 =
        some u ∧ u.is_active = false ∧
      ∃ e, validate { sampleToken 3000 with token_version := 0 }
        (serveAccounts undoing undoingEnv sampleAccounts (inOrder ++ [.step true])).db = .error e := by
  have h : UndisturbedRun undoing undoingEnv sampleAccounts (inOrder ++ [.step true]) := by
    unfold UndisturbedRun
    decide +kernel
  obtain ⟨u, hu, hactive, htokens⟩ := (revoked_stays_revoked h).1 inOrder true [] 1 5 _ _ rfl rfl rfl
    (by simp)
  refine ⟨u, hu, hactive, ?_⟩
  exact (htokens [] { sampleAuthEnv 3000 0 902 with compare := fun password hash ↦ hash = password }
    ⟨"ana@kiosco", "vieja"⟩ _ List.nil_prefix rfl rfl).2

end MicroErp.Guarantees
