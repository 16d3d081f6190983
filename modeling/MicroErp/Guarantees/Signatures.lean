import MicroErp.Guarantees.Webhooks

/-!
# What a signature authorizes

The manifest joins the identifier of the payment with the other parts by separators that the parts
may contain, and says nothing about the subscription.  So one signature stands for one payment of
one tenant exactly if the identifiers are equally long and the subscriptions are the same.
-/

namespace MicroErp.Guarantees

open MicroErp.Commits MicroErp.Concurrency MicroErp.Database MicroErp.Services MicroErp.Storage

variable {w : WebhookEnv} {secret : String} {delivery : Delivery}

theorem reachable_opened (tenants : Table Tenant) : Reachable (Db.opened tenants) :=
  ⟨Empty, inferInstance, Empty.elim, Empty.elim, tenants, [], ⟨fun i ↦ i.elim, fun i ↦ i.elim⟩, rfl⟩

/-- One tenant, who has this subscription. -/
def subscribedTenant (mpSubscriptionId : String) : Table Tenant :=
  Table.empty.insert
    { id := 1, tenant_name := "Kiosco", subscription_plan := "PRO", subscription_expires_at := none,
      status := .ACTIVE, mp_subscription_id := some mpSubscriptionId, settings := [],
      active_cash_shift_id := none, created_at := 0 }

end MicroErp.Guarantees
