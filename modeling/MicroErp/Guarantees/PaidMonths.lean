import MicroErp.Commits.Billing
import MicroErp.Guarantees.Suspensions

/-!
# Every paid month is credited once

However the calls of `processPayment` interleave, fail and are repeated, each payment that is on
record has moved the expiry of its tenant by thirty days.
-/

namespace MicroErp.Guarantees

open MicroErp.Commits MicroErp.Concurrency MicroErp.Database MicroErp.Services MicroErp.Storage

/-- The number of payments of the tenant on record. -/
def billed (tenantId : Uuid) (d : Db) : ℤ :=
  (d.billingEvents.rows.filter fun b ↦ b.tenant_id = tenantId).length

/-- The tenants of `d` in `d'`, in between nothing but payments: no identifier is recorded twice,
and each payment recorded since `d` has added thirty days to the expiry of its tenant. -/
structure CreditedOnce (d d' : Db) : Prop where
  distinct : (d'.billingEvents.rows.map (·.external_payment_id)).Nodup
  credited : ∀ t ∈ d.tenants.rows, ∀ expires ∈ t.subscription_expires_at,
    ∃ t' ∈ d'.tenants.rows, t'.id = t.id ∧
      t'.subscription_expires_at = some (addDays expires (30 * (billed t.id d' - billed t.id d))) ∧
      (billed t.id d < billed t.id d' → t'.status = .ACTIVE)

section Steps

variable {env : Env} {lk : List (LockName × LockMode)} {ws : List Write} {d d' : Db}

theorem billed_append {row : BillingEvent} (h : d'.billingEvents.rows = d.billingEvents.rows ++ [row])
    (tenantId : Uuid) :
    billed tenantId d' = billed tenantId d + if row.tenant_id = tenantId then 1 else 0 := by
  unfold billed
  rw [h, List.filter_append]
  by_cases htenant : row.tenant_id = tenantId <;> simp [htenant]

/-- A month more on the expiry of a tenant that has one. -/
theorem expires_creditMonth {t : Tenant} {expires : Timestamp} {months : ℤ}
    (h : t.subscription_expires_at = some (addDays expires (30 * months))) :
    (creditMonth env t).subscription_expires_at = some (addDays expires (30 * (months + 1))) := by
  simp only [creditMonth, h, Option.getD_some, Option.some.injEq]
  unfold addDays
  ring

theorem CreditedOnce.refl (h : (d.billingEvents.rows.map (·.external_payment_id)).Nodup) :
    CreditedOnce d d := by
  refine ⟨h, fun t ht expires hexpires ↦ ⟨t, ht, rfl, ?_, fun hlt ↦ (lt_irrefl _ hlt).elim⟩⟩
  rw [hexpires, sub_self, mul_zero]
  unfold addDays
  rw [zero_mul, add_zero]

/-- The commit of a call credits the month that it records. -/
theorem CreditedOnce.commit {call : PaymentCall} (h : CreditedOnce d d')
    (hdesk : DeskChanges Desk.plain env lk d' call.request ws) (hfree : InsertsFree ws d') :
    CreditedOnce d (postgres.view ws d') := by
  unfold PaymentCall.request at hdesk
  cases hdesk with
  | other _ hoff =>
    have htenants := tenants_off_desk hoff d'
    have hevents : (postgres.view ws d').billingEvents = d'.billingEvents := by
      refine billingEvents_view (fun w hw b ↦ ?_) d'
      rintro rfl
      exact hoff _ hw trivial
    refine ⟨by rw [hevents]; exact h.distinct, fun t ht expires hexpires ↦ ?_⟩
    rw [htenants, billed, hevents]
    exact h.credited t ht expires hexpires
  | @paid _ _ rawPayload tenant hheld =>
    set row := billingEventRow env tenant.id call.externalPaymentId call.rawPayload
    obtain ⟨hid, hexternal⟩ := hfree row List.mem_cons_self
    have hsaved : ∀ w ∈ savedTenant (creditMonth env tenant) tenant, ∀ b,
        w ≠ .insertBillingEvent b := by
      intro w hw b
      unfold savedTenant at hw
      split at hw
      · cases hw
      · obtain rfl := List.mem_singleton.1 hw
        exact Write.noConfusion
    have hevents := onRecord_inserted hid hsaved
    have htenants := tenants_paid env row hheld.1
    refine ⟨?_, fun t ht expires hexpires ↦ ?_⟩
    · rw [hevents, List.map_append, List.nodup_append]
      refine ⟨h.distinct, List.nodup_singleton _, fun x hx y hy heq ↦ ?_⟩
      obtain ⟨b, hb, rfl⟩ := List.mem_map.1 hx
      obtain rfl := List.mem_singleton.1 hy
      exact hexternal ⟨b, hb, heq⟩
    · obtain ⟨t', ht', hid', hexpires', hstatus'⟩ := h.credited t ht expires hexpires
      rw [billed_append hevents]
      by_cases heq : t'.id = tenant.id
      · obtain rfl : t' = tenant :=
          Option.some.inj ((Table.find_eq_some.2 ⟨ht', heq⟩).symm.trans hheld.1)
        refine ⟨creditMonth env t', ?_, hid', ?_, fun _ ↦ rfl⟩
        · exact htenants ▸ List.mem_map.2 ⟨t', ht', if_pos rfl⟩
        · rw [expires_creditMonth hexpires', if_pos (show row.tenant_id = t.id from hid')]
          congr 3
          ring
      · refine ⟨t', ?_, hid', ?_⟩
        · exact htenants ▸ List.mem_map.2 ⟨t', ht', if_neg heq⟩
        · rw [if_neg fun hrow : row.tenant_id = t.id ↦ heq (hid'.trans hrow.symm), add_zero]
          exact ⟨hexpires', hstatus'⟩

end Steps

/-! ## Runs -/

/-- In every state of every run of payments each of them is credited once. -/
theorem months_credited {ι : Type} [DecidableEq ι] (call : ι → PaymentCall) (env : ι → Env) (d : Db)
    (hdistinct : (d.billingEvents.rows.map (·.external_payment_id)).Nodup) (es : List (Event ι)) :
    CreditedOnce d (postgres.run (serve (fun i ↦ (call i).request) env d) es).db := by
  have hC := compatible_billing call env (fun _ ↦ True) fun _ ↦ False
  have hsound : Sound postgres (fun i ↦ (deskContract Desk.plain (call i).request (env i)).both
      (billingContract True False (call i).externalPaymentId)) Write.locks
        (serve (fun i ↦ (call i).request) env d) :=
    Sound.start fun i ↦ Engine.wp_both processPayment_desk (processPayment_billing trivial False.elim)
  refine hsound.history hC (J := fun d' _ ↦ CreditedOnce d d')
    (.of_forall fun i o v ↦ ⟨allow_desk_plain _ o v, trivial⟩) (.refl hdistinct)
    fun i lk ws d' log h hguar _ ↦ h.commit hguar.1 hguar.2.2

/-! ## Two payments, one of them sent twice -/

def payingTwice : Fin 3 → PaymentCall
  | 0 => { externalPaymentId := "pago 1", subscriptionId := some "sub", rawPayload := .null }
  | 1 => { externalPaymentId := "pago 1", subscriptionId := some "sub", rawPayload := .null }
  | 2 => { externalPaymentId := "pago 2", subscriptionId := some "sub", rawPayload := .null }

/-- All three look for their payment before any of them locks the tenant. -/
def payingOrder : List (Event (Fin 3)) :=
  inTurn [(0, 1), (1, 1), (2, 1), (0, 10), (1, 10), (2, 10)]

def afterPaying : Db :=
  (postgres.run (serve (fun i ↦ (payingTwice i).request) (fun i ↦ sampleEnv i)
    (Db.opened lateTenants)) payingOrder).db

theorem months_credited_twice : afterPaying.billingEvents.rows.map (·.external_payment_id) =
      ["pago 1", "pago 2"] ∧
    afterPaying.tenants.rows.map (fun t ↦ (t.status, t.subscription_expires_at)) =
      [(.ACTIVE, some (addDays (-400000000) 60))] ∧
    CreditedOnce (Db.opened lateTenants) afterPaying :=
  ⟨by decide +kernel, by decide +kernel,
    months_credited payingTwice (fun i ↦ sampleEnv i) (Db.opened lateTenants) List.nodup_nil _⟩

end MicroErp.Guarantees
