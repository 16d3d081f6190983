import MicroErp.Commits.Billing
import MicroErp.Guarantees.Suspensions

/-!
# What the answer to a delivery says

A payment that is answered with 200 is on record if its subscription has a tenant, or if it was
on record before.  A delivery whose signature is not accepted is answered like any other error.
-/

namespace MicroErp.Guarantees

open MicroErp.Commits MicroErp.Concurrency MicroErp.Database MicroErp.Services MicroErp.Storage

/-- The subscription whose tenant is looked up. -/
def subscriptionFor (call : PaymentCall) : String := (truthy call.subscriptionId).getD "test_sub_id"

/-- The answer of session `i`, if it has come, is true. -/
structure AnswersTruly {ι : Type} (w : WebhookEnv) (delivery : Delivery) (i : ι)
    (s : Sys ι Sql Sql.Ans Db Write LockName ServiceError Answer) : Prop where
  recorded : ∀ out ∈ s.outcome i, ∀ call, paymentCall w delivery = .ok (some call) →
    webhookStatus w delivery out = 200 → OnRecord call.externalPaymentId s.db
  retried : ∀ out ∈ s.outcome i, ∀ call, paymentCall w delivery = .ok (some call) →
    ¬OnRecord call.externalPaymentId s.db → webhookStatus w delivery out = 500
  refused : verifySignature w delivery = false →
    (∀ out ∈ s.outcome i, webhookStatus w delivery out = 401) ∧ ∀ x ∈ s.log, x.1 ≠ i

/-- The payment of the delivery is on record in `d`, or a tenant has its subscription. -/
def CanRecord (w : WebhookEnv) (d : Db) (delivery : Delivery) : Prop :=
  ∀ call, paymentCall w delivery = .ok (some call) →
    OnRecord call.externalPaymentId d ∨ Subscribed (subscriptionFor call) d

variable {ι : Type} [DecidableEq ι] (w : WebhookEnv) (delivery : ι → Delivery) (env : ι → Env) (d : Db)

/-! ## The sessions -/

/-- The call of a delivery; those without one commit nothing, so any call will do. -/
def callOf (delivery : Delivery) : PaymentCall :=
  match paymentCall w delivery with
  | .ok (some call) => call
  | _ => { externalPaymentId := "", subscriptionId := none, rawPayload := .null }

def Processes (delivery : Delivery) : Prop := ∃ call, paymentCall w delivery = .ok (some call)

omit [DecidableEq ι] in
theorem callOf_eq {delivery : Delivery} {call : PaymentCall}
    (h : paymentCall w delivery = .ok (some call)) : callOf w delivery = call := by
  rw [callOf, h]

/-- The payments that can be recorded are promised to be. -/
theorem sound_webhooks : Sound postgres (fun i ↦
      (deskContract Desk.plain (callOf w (delivery i)).request (env i)).both
        (billingContract (Processes w (delivery i))
          (Processes w (delivery i) ∧ CanRecord w d (delivery i))
          (callOf w (delivery i)).externalPaymentId)) Write.locks
    (serveWebhooks w delivery env d) := by
  refine Sound.start fun i ↦ ?_
  by_cases hprocesses : Processes w (delivery i)
  · obtain ⟨call, hcall⟩ := id hprocesses
    have hscript : handleMercadoPagoWebhook w (env i) (delivery i) =
        call.request.script (env i) := by
      rw [handleMercadoPagoWebhook, hcall]
    rw [hscript, callOf_eq w hcall]
    exact Engine.wp_both processPayment_desk
      (processPayment_billing hprocesses fun hpromise ↦ hpromise.2 call hcall)
  · have hscript : handleMercadoPagoWebhook w (env i) (delivery i) = .ret .done := by
      unfold handleMercadoPagoWebhook
      split
      · rename_i call hcall
        exact (hprocesses ⟨call, hcall⟩).elim
      · rfl
    rw [hscript]
    exact fun d' _ ↦ ⟨trivial, fun hpromise ↦ (hprocesses hpromise.1).elim⟩

omit [DecidableEq ι] in
theorem compatible_webhooks : Compatible postgres (fun i ↦
      (deskContract Desk.plain (callOf w (delivery i)).request (env i)).both
        (billingContract (Processes w (delivery i))
          (Processes w (delivery i) ∧ CanRecord w d (delivery i))
          (callOf w (delivery i)).externalPaymentId)) Write.locks :=
  compatible_billing _ env _ _

/-- A delivery that is not accepted records nothing, whatever else is delivered. -/
theorem refused_records_nothing {i : ι} (h : verifySignature w (delivery i) = false)
    (es : List (Event ι)) : ∀ x ∈ (postgres.run (serveWebhooks w delivery env d) es).log, x.1 ≠ i := by
  have hnone : ¬Processes w (delivery i) := by
    rintro ⟨call, hcall⟩
    rw [paymentCall, h] at hcall
    cases hcall
  refine (sound_webhooks w delivery env d).history (compatible_webhooks w delivery env d)
    (J := fun _ log ↦ ∀ x ∈ log, x.1 ≠ i) (.of_forall fun j o v ↦ ⟨allow_desk_plain _ o v, trivial⟩)
    (fun x hx ↦ (List.not_mem_nil hx).elim) fun j lk ws d' log hlog hguar _ x hx ↦ ?_
  rcases List.mem_append.1 hx with hx | hx
  · exact hlog x hx
  · obtain rfl := List.mem_singleton.1 hx
    rintro rfl
    exact hnone hguar.2.1

/-! ## Answers without a record -/

/-- A delivery that is not accepted is answered at once. -/
theorem status_refused {delivery : Delivery} (h : verifySignature w delivery = false)
    (out : Except ServiceError Answer) : webhookStatus w delivery out = 500 := by
  simp [webhookStatus, paymentCall, h]

theorem answered_refused {i : ι} (h : verifySignature w (delivery i) = false) :
    (postgres.run (serveWebhooks w delivery env d) [.step i]).outcome i = some (.ok .done) := by
  have hscript : handleMercadoPagoWebhook w (env i) (delivery i) = .ret .done := by
    rw [handleMercadoPagoWebhook, paymentCall, h]
    rfl
  rw [Sys.outcome_eq_some]
  simp [Engine.run, Engine.step, Engine.stepSession, serveWebhooks, Sys.start, hscript, Sys.set]

/-- A payment of an unknown subscription is answered with 200 and leaves the database as it is. -/
theorem answered_unknown {i : ι} {call : PaymentCall}
    (hcall : paymentCall w (delivery i) = .ok (some call))
    (hrecord : ¬OnRecord call.externalPaymentId d) (hsub : ¬Subscribed (subscriptionFor call) d) :
    (postgres.run (serveWebhooks w delivery env d) (List.replicate 4 (.step i))).outcome i =
        some (.ok .done) ∧
      (postgres.run (serveWebhooks w delivery env d) (List.replicate 4 (.step i))).db = d := by
  have hscript : handleMercadoPagoWebhook w (env i) (delivery i) =
      call.request.script (env i) := by
    rw [handleMercadoPagoWebhook, hcall]
  have hfind := not_onRecord_iff.2 hrecord
  have hlock : d.tenantBySubscription ((truthy call.subscriptionId).getD "test_sub_id") = none :=
    not_subscribed_iff.2 hsub
  rw [Sys.outcome_eq_some]
  simp [Engine.run, Engine.step, Engine.stepSession, serveWebhooks, Sys.start, hscript, Sys.set,
    PaymentCall.request, Request.script, Services.processPayment, query, Sys.blocked, Sql.locks,
    Sql.exec, hfind, hlock]

/-! ## Runs -/

theorem status_of_error {delivery : Delivery} (e : ServiceError) :
    webhookStatus w delivery (.error e) = 500 := by
  unfold webhookStatus
  split
  · rename_i heq
    cases heq
  · rfl

/-- What can be recorded is, when the answer is 200. -/
theorem recorded_of_canRecord {i : ι} (h : CanRecord w d (delivery i)) (es : List (Event ι))
    {a : Answer} {call : PaymentCall} (hcall : paymentCall w (delivery i) = .ok (some call))
    (ho : (postgres.run (serveWebhooks w delivery env d) es).outcome i = some (.ok a)) :
    OnRecord call.externalPaymentId (postgres.run (serveWebhooks w delivery env d) es).db := by
  have hsound : Sound postgres _ Write.locks (postgres.run (serveWebhooks w delivery env d) es) :=
    (sound_webhooks w delivery env d).run (compatible_webhooks w delivery env d)
      (.of_forall fun j o v ↦ ⟨allow_desk_plain _ o v, trivial⟩)
  -- what is promised holds in the state in which the answer is read
  have hpost := hsound.answered (Sys.outcome_eq_some.1 ho) _ ⟨.refl, .refl⟩
  have hrecord := hpost.2 ⟨⟨call, hcall⟩, h⟩
  rwa [callOf_eq w hcall] at hrecord

/-- A delivery is answered truly in every run from `d` exactly if it is accepted and its payment, if
it is one, can be recorded. -/
theorem answers_truly_iff (i : ι) :
    (∀ es, AnswersTruly w (delivery i) i (postgres.run (serveWebhooks w delivery env d) es)) ↔
      verifySignature w (delivery i) ∧ CanRecord w d (delivery i) := by
  constructor
  · intro h
    constructor
    · by_contra hnot
      have hrefused := eq_false_of_ne_true hnot
      have hstatus := ((h [.step i]).refused hrefused).1 _ (answered_refused w delivery env d hrefused)
      rw [status_refused w hrefused] at hstatus
      cases hstatus
    · intro call hcall
      by_contra hnone
      rw [not_or] at hnone
      obtain ⟨hanswer, hdb⟩ := answered_unknown w delivery env d hcall hnone.1 hnone.2
      have hrecord := (h _).recorded _ hanswer call hcall (by simp [webhookStatus, hcall])
      rw [hdb] at hrecord
      exact hnone.1 hrecord
  · rintro ⟨hvalid, hrecord⟩ es
    refine ⟨fun out ho call hcall hstatus ↦ ?_, fun out ho call hcall hnot ↦ ?_, fun hrefused ↦ ?_⟩
    · cases out with
      | ok a => exact recorded_of_canRecord w delivery env d hrecord es hcall ho
      | error e =>
        rw [status_of_error] at hstatus
        cases hstatus
    · cases out with
      | ok a => exact (hnot (recorded_of_canRecord w delivery env d hrecord es hcall ho)).elim
      | error e => exact status_of_error w e
    · rw [hvalid] at hrefused
      cases hrefused

/-! ## A payment that is lost -/

/-- The digest is the one of this message under this secret. -/
def sampleHmac (secret message : String) : List UInt8 :=
  if secret = "clave" ∧ message = "id:1;request-id:x;request-id:y;ts:1;" then
    hexBytes "6618b1f7121d9ab97e0546e86565cb9594af3e0650dea643a5e60cff32984f99".toList
  else []

def sampleWebhook : WebhookEnv where
  secret := some "clave"
  nodeEnv := some "production"
  hmac := sampleHmac
  driverText _ := ""
  stored _ := .null

def sampleSignature : String :=
  "ts=1,v1=6618b1f7121d9ab97e0546e86565cb9594af3e0650dea643a5e60cff32984f99"

/-- The payment with this identifier, of this subscription. -/
def paymentBody (id subscription : String) : Json :=
  .object [("action", .string "payment.created"),
    ("data", .object [("id", .string id), ("subscription_id", .string subscription)])]

def delivered (signature requestId : String) (body : Json) : Fin 1 → Delivery := fun _ ↦
  { signature := some signature, requestId := some requestId, body := some body }

def afterDelivery (tenants : Table Tenant) (delivery : Fin 1 → Delivery) :
    Sys (Fin 1) Sql Sql.Ans Db Write LockName ServiceError Answer :=
  postgres.run (serveWebhooks sampleWebhook delivery (fun i ↦ sampleEnv i) (Db.opened tenants))
    (turns 0 12)

/-- An accepted payment of another subscription is answered with 200 and not recorded, and a wrong
signature with 500. -/
theorem payment_lost :
    let lost := delivered sampleSignature "x;request-id:y" (paymentBody "1" "otra")
    let forged := delivered "ts=1,v1=00" "x;request-id:y" (paymentBody "1" "sub")
    (verifySignature sampleWebhook (lost 0) = true ∧
      ((afterDelivery lateTenants lost).outcome 0).map
          (webhookStatus sampleWebhook (lost 0)) = some 200 ∧
      (afterDelivery lateTenants lost).db.billingEvents.rows = []) ∧
    verifySignature sampleWebhook (forged 0) = false ∧
      ((afterDelivery lateTenants forged).outcome 0).map
        (webhookStatus sampleWebhook (forged 0)) = some 500 := by
  decide +kernel

end MicroErp.Guarantees
