import MicroErp.Services.Json
import MicroErp.Services.Requests

/-!
# The webhook of the payment provider

`verifySignature` and the handler that answers a delivery.  What stands in the headers and in the
body is up to the sender.
-/

namespace MicroErp.Services

open MicroErp.Concurrency MicroErp.Database

/-- A delivery as the controller receives it. -/
structure Delivery where
  /-- The header `x-signature`. -/
  signature : Option String
  /-- The header `x-request-id`. -/
  requestId : Option String
  body : Option Json

/-- What the webhook takes from outside. -/
structure WebhookEnv where
  /-- `MP_WEBHOOK_SECRET`. -/
  secret : Option String
  /-- `NODE_ENV`. -/
  nodeEnv : Option String
  /-- The bytes that HMAC-SHA256 gives for a secret and a message. -/
  hmac : String → String → List UInt8
  /-- How the driver sends a parameter that is not a string. -/
  driverText : Json → String
  /-- How a payload is stored. -/
  stored : Json → JsonValue

/-! ## The signature -/

/-- What the header says, as far as it has been read. -/
structure SignatureParts where
  ts : Option String
  v1 : Option String

/-- The key and the value of a part end at the first two signs of equality. -/
def SignatureParts.read (parts : SignatureParts) (part : List Char) : SignatureParts :=
  let words := (part.splitOn '=').map String.ofList
  let value := words[1]?
  match words[0]? with
  | some "ts" => { parts with ts := value }
  | some "v1" => { parts with v1 := value }
  | _ => parts

/-- The last part of each key counts. -/
def signatureParts (signature : String) : SignatureParts :=
  (signature.toList.splitOn ',').foldl SignatureParts.read ⟨some "", some ""⟩

def manifest (dataId requestId ts : String) : String :=
  "id:" ++ dataId ++ ";request-id:" ++ requestId ++ ";ts:" ++ ts ++ ";"

/-- `body.data?.id`. -/
def dataId (body : Json) : Option Json := (body.field "data").bind (Json.field "id")

variable (w : WebhookEnv)

/-- Whether the digest is that of the manifest; a `data.id` without a text makes it throw. -/
def digestMatches (secret requestId : String) (body : Json) (parts : SignatureParts) : Bool :=
  match truthy parts.ts, truthy parts.v1, Json.templateText (dataId body) with
  | some ts, some v1, some id =>
      let expectedBuffer := hexBytes (hexText (w.hmac secret (manifest id requestId ts)))
      let receivedBuffer := hexBytes v1.toList
      expectedBuffer.length = receivedBuffer.length && expectedBuffer = receivedBuffer
  | _, _, _ => false

def verifySignature (delivery : Delivery) : Bool :=
  match truthy delivery.signature, truthy delivery.requestId, delivery.body.filter Json.truthy with
  | some signature, some requestId, some body =>
      match truthy w.secret with
      | none => w.nodeEnv ≠ some "production"
      | some secret => digestMatches w secret requestId body (signatureParts signature)
  | _, _, _ => false

/-! ## The handler -/

/-- A call of `processPayment`. -/
structure PaymentCall where
  externalPaymentId : String
  /-- The subscription that the payload names. -/
  subscriptionId : Option String
  rawPayload : JsonValue

def PaymentCall.request (call : PaymentCall) : Request :=
  .processPayment call.externalPaymentId call.subscriptionId call.rawPayload

inductive HandlerError where
  | unauthorized (message : String)
  /-- A method of a value that does not have it. -/
  | typeError

/-- Only the payments that were created or approved are of interest. -/
def isPayment (body : Json) : Bool :=
  Json.isString "payment.created" (body.field "action") ||
    Json.isString "payment" (body.field "type")

/-- `body.data?.id?.toString()`, which throws where the value has no text. -/
def paymentId (body : Json) : Except HandlerError (Option String) :=
  match (dataId body).filter fun value ↦ !value.isNull with
  | none => .ok none
  | some value =>
      match value.toText with
      | none => .error .typeError
      | some text => .ok (some text)

/-- `rawPayload.data?.subscription_id`, if it is not falsy, as the driver sends it. -/
def subscriptionOf (body : Json) : Option String :=
  (((body.field "data").bind (Json.field "subscription_id")).filter Json.truthy).map fun value ↦
    match value with
    | .string s => s
    | value => w.driverText value

/-- The call of `processPayment` that the handler comes to. -/
def paymentCall (delivery : Delivery) : Except HandlerError (Option PaymentCall) :=
  if verifySignature w delivery then
    match delivery.body.filter isPayment with
    | none => .ok none
    | some body =>
        match paymentId body with
        | .error e => .error e
        | .ok id => .ok ((truthy id).map fun id ↦ ⟨id, subscriptionOf w body, w.stored body⟩)
  else .error (.unauthorized "Invalid signature")

/-- What the handler runs in the database. -/
def handleMercadoPagoWebhook (env : Env) (delivery : Delivery) : Script Answer :=
  match paymentCall w delivery with
  | .ok (some call) => call.request.script env
  | _ => pure .done

/-- The status of the answer.  The handler catches whatever is thrown. -/
def webhookStatus (delivery : Delivery) (out : Except ServiceError Answer) : ℕ :=
  match paymentCall w delivery, out with
  | .ok _, .ok _ => 200
  | _, _ => 500

/-- Any number of deliveries at once. -/
def serveWebhooks {ι : Type} [DecidableEq ι] (delivery : ι → Delivery) (env : ι → Env) (d : Db) :
    Sys ι Sql Sql.Ans Db Write LockName ServiceError Answer :=
  Sys.start d fun i ↦ handleMercadoPagoWebhook w (env i) (delivery i)

end MicroErp.Services
