import MicroErp.Database.Accounts

/-!
# UsersService, AuthService and JwtStrategy

The operations that rewrite the row of a user, the token that a login issues, and the check that
every request with a token passes.
-/

namespace MicroErp.Services

open MicroErp.Concurrency MicroErp.Database MicroErp.Storage

/-- What `executePasswordReset` needs of a verified token. -/
structure ResetTokenPayload where
  sub : Uuid
  purpose : String
  iat : ℤ
  deriving DecidableEq

/-- What a request on accounts takes from outside. -/
structure AuthEnv where
  /-- `new Date()` in the service. -/
  clock : Timestamp
  /-- `bcrypt.hash`, with the salt that is drawn for this request. -/
  hash : String → String
  /-- `bcrypt.compare`. -/
  compare : String → String → Bool
  /-- `jwtService.verify` under `JWT_RESET_SECRET`, if it does not throw. -/
  verify : String → Option ResetTokenPayload
  /-- What the cache holds under the idempotency key. -/
  isDuplicate : Bool
  /-- `toISOString`. -/
  isoText : Timestamp → String
  /-- The identifier of the audit row. -/
  fresh : Uuid

abbrev AccountScript := Prog AccountSql AccountSql.Ans AuthError

abbrev accountQuery (o : AccountSql) : AccountScript o.Ans := Prog.issue o

/-- `save` of a loaded user: the row is read again without a lock, and the columns that differ are
updated. -/
def saveUser (user : User) : AccountScript Unit := do
  match ← accountQuery (.rereadUser user) with
  | none => Prog.fail .entityNotFound
  | some reread => if user = reread then pure () else accountQuery (.updateUser user reread)

/-! ## UsersService -/

structure Users.ResetPasswordDto where
  new_password : String
  deriving DecidableEq

def findUserOrFail (tenantId userId : Uuid) : AccountScript User := do
  match ← accountQuery (.findUser tenantId userId) with
  | none => Prog.fail (.notFound "Usuario no encontrado")
  | some user => pure user

def deactivated (user : User) : User :=
  { user with is_active := false, token_version := user.token_version + 1 }

def deactivate (tenantId userId : Uuid) : AccountScript String := do
  let user ← findUserOrFail tenantId userId
  saveUser (deactivated user)
  Prog.commitTransaction
  pure "Usuario desactivado y sesión revocada"

def activated (user : User) : User := { user with is_active := true }

def activate (tenantId userId : Uuid) : AccountScript String := do
  let user ← findUserOrFail tenantId userId
  saveUser (activated user)
  Prog.commitTransaction
  pure "Usuario reactivado exitosamente"

/-- The user with a new password; its sessions are over. -/
def withPassword (env : AuthEnv) (password : String) (user : User) : User :=
  { user with
    password_hash := env.hash password
    password_changed_at := some env.clock
    token_version := user.token_version + 1 }

def resetPassword (env : AuthEnv) (tenantId userId : Uuid) (dto : Users.ResetPasswordDto) :
    AccountScript String := do
  let user ← findUserOrFail tenantId userId
  saveUser (withPassword env dto.new_password user)
  Prog.commitTransaction
  pure "Contraseña reseteada. El cajero deberá loguearse nuevamente."

/-! ## AuthService -/

structure Auth.ResetPasswordDto where
  token : String
  new_password : String
  deriving DecidableEq

structure LoginDto where
  email : String
  password : String
  deriving DecidableEq

structure JwtPayload where
  sub : Uuid
  tenant_id : Uuid
  role : UserRole
  email : String
  token_version : ℤ
  sub_status : TenantStatus
  sub_expires_at : ℤ
  iat : Option ℤ
  deriving DecidableEq

/-- The token that a login answers. -/
def login (env : AuthEnv) (dto : LoginDto) (d : AccountDb) : Except AuthError JwtPayload :=
  match d.users.rows.find? fun u ↦ u.email = dto.email with
  | none => .error (.unauthorized "Credenciales inválidas")
  | some user =>
    if user.is_active = false then .error (.unauthorized "Credenciales inválidas")
    else if env.compare dto.password user.password_hash = false then
      .error (.unauthorized "Credenciales inválidas")
    else
      match d.tenants.find user.tenant_id with
      | none => .error .entityNotFound
      | some tenant =>
        if tenant.status = .SUSPENDED ∨ tenant.status = .CANCELLED then
          .error (.forbidden "Comercio suspendido. Contacte al soporte para resolver el problema de facturación")
        else
          .ok {
            sub := user.id
            tenant_id := user.tenant_id
            role := user.role
            email := user.email
            token_version := user.token_version
            sub_status := tenant.status
            sub_expires_at := (tenant.subscription_expires_at.map (· / 1000)).getD 0
            iat := some (env.clock / 1000) }

def resetAudit (env : AuthEnv) (user changed : User) : AuditLog where
  id := env.fresh
  tenant_id := user.tenant_id
  user_id := some user.id
  action := .RESET_PASSWORD
  entity_type := "User"
  entity_id := user.id
  old_value := some [("password_changed_at",
    (user.password_changed_at.map fun t ↦ .string (env.isoText t)).getD .null)]
  new_value := some [("password_changed_at",
    (changed.password_changed_at.map fun t ↦ .string (env.isoText t)).getD .null)]
  ip_address := none
  created_at := env.clock

/-- What is done with a token that was verified; the password was changed after the token was issued
if the link has been used. -/
def resetUnder (env : AuthEnv) (payload : ResetTokenPayload) (dto : Auth.ResetPasswordDto) :
    AccountScript String := do
  match ← accountQuery (.lockUser payload.sub) with
  | none => Prog.fail (.unauthorized "Usuario no encontrado")
  | some user =>
    if ∃ changedAt ∈ user.password_changed_at, payload.iat * 1000 < changedAt then
      Prog.fail (.unauthorized "Este enlace ya fue utilizado y está anulado")
    else
      let changed := withPassword env dto.new_password user
      saveUser changed
      accountQuery (.insertAuditLog (resetAudit env user changed))
      Prog.commitTransaction
      pure "Contraseña actualizada correctamente"

def executePasswordReset (env : AuthEnv) (dto : Auth.ResetPasswordDto) : AccountScript String :=
  if env.isDuplicate then pure "Contraseña actualizada correctamente"
  else
    match env.verify dto.token with
    | none => Prog.fail (.unauthorized "El enlace de seguridad es inválido o ha expirado")
    | some payload =>
      if payload.purpose ≠ "pwd_reset" then
        Prog.fail (.unauthorized "Uso indebido de token de seguridad")
      else resetUnder env payload dto

/-- The entries of the cache, each a key and the time at which it was set. -/
abbrev ResetCache := List (String × Timestamp)

/-- An entry lives for an hour. -/
def resetTtl : Timestamp := 3600000

def ResetCache.get (cache : ResetCache) (cacheKey : String) (now : Timestamp) : Bool :=
  cache.any fun entry ↦ entry.1 = cacheKey && decide (now < entry.2 + resetTtl)

/-- A call of `executePasswordReset` with what it takes from outside, apart from the cache. -/
structure ResetCall where
  dto : Auth.ResetPasswordDto
  idempotencyKey : String
  env : AuthEnv

def ResetCall.cacheKey (call : ResetCall) : String := "idemp_reset_" ++ call.idempotencyKey

structure ResetState where
  accounts : AccountDb
  cache : ResetCache

def ResetState.isDuplicate (s : ResetState) (call : ResetCall) : Bool :=
  s.cache.get call.cacheKey call.env.clock

/-- The call alone; the cache is asked before anything else and set after the commit. -/
def callReset (s : ResetState) (call : ResetCall) : Except AuthError String × ResetState :=
  let isDuplicate := s.isDuplicate call
  let env := { call.env with isDuplicate := isDuplicate }
  match accounts.alone (executePasswordReset env call.dto) [] s.accounts with
  | (.ok message, d) =>
      (.ok message,
        ⟨d, if isDuplicate then s.cache else (call.cacheKey, call.env.clock) :: s.cache⟩)
  | (.error e, d) => (.error e, ⟨d, s.cache⟩)

/-- The accounts and the cache after these calls. -/
def afterCalls (d : AccountDb) (calls : List ResetCall) : ResetState :=
  calls.foldl (fun s call ↦ (callReset s call).2) ⟨d, []⟩

/-! ## JwtStrategy -/

/-- The user of a request. -/
structure RequestUser where
  id : Uuid
  tenant_id : Uuid
  role : UserRole
  sub_status : TenantStatus
  sub_expires_at : ℤ
  deriving DecidableEq

def validate (payload : JwtPayload) (d : AccountDb) : Except AuthError RequestUser :=
  match d.users.find payload.sub with
  | none => .error (.unauthorized "Token inválido")
  | some user =>
    if payload.token_version ≠ user.token_version then
      .error (.unauthorized "Sesión revocada. Vuelva a iniciar sesión")
    else if user.is_active = false then .error (.unauthorized "Cuenta desactivada")
    else if ∃ changedAt ∈ user.password_changed_at, ∃ iat ∈ payload.iat, iat * 1000 < changedAt then
      .error (.unauthorized "Sesión invalidada por cambio de credenciales de seguridad")
    else
      .ok {
        id := user.id
        tenant_id := user.tenant_id
        role := user.role
        sub_status := payload.sub_status
        sub_expires_at := payload.sub_expires_at }

/-! ## Requests -/

inductive AccountRequest where
  | deactivate (tenantId userId : Uuid)
  | activate (tenantId userId : Uuid)
  | resetPassword (tenantId userId : Uuid) (dto : Users.ResetPasswordDto)
  | executePasswordReset (dto : Auth.ResetPasswordDto)

def AccountRequest.script (env : AuthEnv) : AccountRequest → AccountScript String
  | deactivate tenantId userId => Services.deactivate tenantId userId
  | activate tenantId userId => Services.activate tenantId userId
  | resetPassword tenantId userId dto => Services.resetPassword env tenantId userId dto
  | executePasswordReset dto => Services.executePasswordReset env dto

/-- A state of the sessions that serve requests on accounts. -/
abbrev AccountSys (ι : Type) :=
  Sys ι AccountSql AccountSql.Ans AccountDb AccountWrite LockName AuthError String

/-- The accounts after these events, from the beginning of all requests. -/
def serveAccounts {ι : Type} [DecidableEq ι] (req : ι → AccountRequest) (env : ι → AuthEnv)
    (d : AccountDb) (es : List (Event ι)) : AccountSys ι :=
  accounts.pooledRun AccountSql.outside (Sys.start d fun i ↦ (req i).script (env i)) es

end MicroErp.Services
