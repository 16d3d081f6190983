import MicroErp.Services.UsersService

/-!
# SubscriptionGuard

The check of the subscription in front of every request.  It reads the claims of the token and asks
no database.
-/

namespace MicroErp.Services

open MicroErp.Database

/-- `HttpException`. -/
structure HttpException where
  message : String
  status : ℕ
  deriving DecidableEq, Repr

/-- The decorators of the endpoint and of its class. -/
structure Endpoint where
  isPublic : Bool
  isSkipSubscription : Bool

/-- The headers that are set on a response. -/
abbrev Headers := List (String × String)

def threeDaysMs : ℤ := 3 * 24 * 60 * 60 * 1000

/-- What the guard throws, or the headers it sets before it lets the request pass; `now` is
`Date.now()`. -/
def canActivate (endpoint : Endpoint) (user : Option RequestUser) (now : Timestamp) :
    Except HttpException Headers :=
  if endpoint.isPublic ∨ endpoint.isSkipSubscription then .ok []
  else
    match user with
    | none => .ok []
    | some user =>
      let status := user.sub_status
      if status = .SUSPENDED then .error ⟨"Comercio suspendido por falta de pago.", 402⟩
      else if status = .PAST_DUE then
        -- an expiry of 0 is falsy
        if user.sub_expires_at ≠ 0 ∧ user.sub_expires_at * 1000 + threeDaysMs < now then
          .error ⟨"Período de gracia expirado. Suscripción suspendida.", 402⟩
        else .ok [("X-Subscription-Warning", "true")]
      else .ok []

end MicroErp.Services
