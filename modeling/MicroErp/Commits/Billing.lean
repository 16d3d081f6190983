import MicroErp.Commits.Semaphore
import MicroErp.Services.Webhooks

/-!
# The recorded payments of the subscriptions

A payment is recorded under an identifier of its own and under the identifier that the provider
gave it.  Whoever inserts one has locked both slots, so they are still free when it commits.  No
payment takes a subscription away from its tenant.
-/

namespace MicroErp.Commits

open MicroErp.Concurrency MicroErp.Database MicroErp.Services MicroErp.Storage

variable {lk lk' : List (LockName × LockMode)} {ws : List Write} {d d' d'' : Db}

/-- The database has the payment on record. -/
def OnRecord (externalPaymentId : String) (d : Db) : Prop :=
  ∃ b ∈ d.billingEvents.rows, b.external_payment_id = externalPaymentId

/-- Some tenant has the subscription. -/
def Subscribed (mpSubscriptionId : String) (d : Db) : Prop :=
  ∃ t ∈ d.tenants.rows, t.mp_subscription_id = some mpSubscriptionId

theorem not_subscribed_iff {mpSubscriptionId : String} :
    d.tenantBySubscription mpSubscriptionId = none ↔ ¬Subscribed mpSubscriptionId d := by
  simp [Db.tenantBySubscription, Subscribed]

theorem not_onRecord_iff {externalPaymentId : String} :
    d.billingEventByExternalId externalPaymentId = none ↔ ¬OnRecord externalPaymentId d := by
  simp [Db.billingEventByExternalId, OnRecord]

/-- Nobody inserts under a slot that is locked, and what is on record stays there. -/
structure EventsRely (lk : List (LockName × LockMode)) (d d' : Db) : Prop where
  external : ∀ x, (.externalPayment x, .update) ∈ lk → ¬OnRecord x d → ¬OnRecord x d'
  id : ∀ id, (.billingEvent id, .update) ∈ lk → d.billingEvents.find id = none →
    d'.billingEvents.find id = none
  kept : ∀ b ∈ d.billingEvents.rows, b ∈ d'.billingEvents.rows

theorem EventsRely.refl : EventsRely lk d d := ⟨fun _ _ h ↦ h, fun _ _ h ↦ h, fun _ h ↦ h⟩

theorem EventsRely.trans (h : EventsRely lk d d') (h' : EventsRely lk d' d'') :
    EventsRely lk d d'' where
  external x hl hx := h'.external x hl (h.external x hl hx)
  id id hl hid := h'.id id hl (h.id id hl hid)
  kept b hb := h'.kept b (h.kept b hb)

theorem EventsRely.of_eq (h : d'.billingEvents = d.billingEvents) : EventsRely lk d d' := by
  refine ⟨fun x _ hx ↦ ?_, fun id _ hid ↦ ?_, fun b hb ↦ ?_⟩
  · rwa [OnRecord, h]
  · rwa [h]
  · rwa [h]

/-- What is subscribed stays so, too. -/
structure BillingRely (lk : List (LockName × LockMode)) (d d' : Db) : Prop extends
    EventsRely lk d d' where
  subscribed : ∀ s, Subscribed s d → Subscribed s d'

theorem BillingRely.refl : BillingRely lk d d := ⟨.refl, fun _ h ↦ h⟩

theorem BillingRely.trans (h : BillingRely lk d d') (h' : BillingRely lk d' d'') :
    BillingRely lk d d'' :=
  ⟨h.toEventsRely.trans h'.toEventsRely, fun s hs ↦ h'.subscribed s (h.subscribed s hs)⟩

theorem BillingRely.mono (hlk : lk ⊆ lk') (h : BillingRely lk' d d') : BillingRely lk d d' where
  external x hl := h.external x (hlk hl)
  id id hl := h.id id (hlk hl)
  kept := h.kept
  subscribed := h.subscribed

/-- The payments after a write. -/
theorem billingEvents_apply {w : Write} (h : ∀ b, w ≠ .insertBillingEvent b) (d : Db) :
    (w.apply d).billingEvents = d.billingEvents := by
  cases w with
  | insertBillingEvent row => exact (h row rfl).elim
  | _ => rfl

theorem billingEvents_view (h : ∀ w ∈ ws, ∀ b, w ≠ .insertBillingEvent b) (d : Db) :
    (postgres.view ws d).billingEvents = d.billingEvents :=
  postgres.view_unchanged (·.billingEvents) fun w hw d ↦ billingEvents_apply (h w hw) d

theorem EventsRely.write {w : Write} (hw : w.locks ⊆ lk') (hsep : Separate lk lk') :
    EventsRely lk d (w.apply d) := by
  cases w with
  | insertBillingEvent row =>
    refine ⟨fun x hl hx ↦ ?_, fun id hl hid ↦ ?_, fun b hb ↦ ?_⟩
    · rintro ⟨b, hb, rfl⟩
      simp only [Write.apply, Table.insert] at hb
      split at hb
      · exact hx ⟨b, hb, rfl⟩
      · rcases List.mem_append.1 hb with hb | hb
        · exact hx ⟨b, hb, rfl⟩
        · obtain rfl := List.mem_singleton.1 hb
          exact Separate.not_both_update hsep hl (hw (List.mem_cons_of_mem _ List.mem_cons_self))
    · refine (Table.find_insert_of_ne fun heq ↦ ?_).trans hid
      exact Separate.not_both_update hsep hl (heq ▸ hw List.mem_cons_self)
    · simp only [Write.apply, Table.insert]
      split
      · exact hb
      · exact List.mem_append_left _ hb
  | _ => exact .of_eq rfl

theorem EventsRely.view (hws : ∀ w ∈ ws, w.locks ⊆ lk') (hsep : Separate lk lk') :
    EventsRely lk d (postgres.view ws d) := by
  induction ws generalizing d with
  | nil => exact .refl
  | cons w ws ih =>
    rw [Engine.view_cons]
    exact (EventsRely.write (hws w List.mem_cons_self) hsep).trans
      (ih fun w' hw' ↦ hws w' (List.mem_cons_of_mem _ hw'))

/-! ## The tenants of a payment -/

theorem tenants_off_desk (h : ∀ w ∈ ws, ¬w.AtDesk) (d : Db) :
    (postgres.view ws d).tenants.rows = d.tenants.rows := by
  rw [tenants_view]
  refine (List.map_congr_left fun t _ ↦ foldl_onTenant_off_desk (fun w hw mem reread ↦ ?_) t).trans
    (List.map_id _)
  rintro rfl
  exact h _ hw trivial

theorem tenants_paid (env : Env) {tenant : Tenant} (row : BillingEvent)
    (htenant : d.tenants.find tenant.id = some tenant) :
    (postgres.view (.insertBillingEvent row :: savedTenant (creditMonth env tenant) tenant)
        d).tenants.rows =
      d.tenants.rows.map fun t ↦ if t.id = tenant.id then creditMonth env tenant else t := by
  refine tenants_saved [.insertBillingEvent row]
    (show (creditMonth env tenant).id = tenant.id from rfl) htenant fun w hw mem reread ↦ ?_
  obtain rfl := List.mem_singleton.1 hw
  exact Write.noConfusion

/-- A payment leaves every subscription to its tenant. -/
theorem subscribed_paid {K : Desk} {env : Env} {externalPaymentId s : String}
    {subscriptionId : Option String} {rawPayload : JsonValue}
    (h : DeskChanges K env lk d (.processPayment externalPaymentId subscriptionId rawPayload) ws)
    (hs : Subscribed s d) : Subscribed s (postgres.view ws d) := by
  obtain ⟨t, ht, hid⟩ := hs
  cases h with
  | other _ hoff => exact ⟨t, (tenants_off_desk hoff d).symm ▸ ht, hid⟩
  | @paid _ _ _ tenant hheld =>
    refine ⟨_, (tenants_paid env _ hheld.1).symm ▸ List.mem_map_of_mem ht, ?_⟩
    split
    · rename_i heq
      obtain rfl : t = tenant :=
        Option.some.inj ((Table.find_eq_some.2 ⟨ht, heq⟩).symm.trans hheld.1)
      exact hid
    · exact hid

/-- The slots of the payments that are inserted are free. -/
def InsertsFree (ws : List Write) (d : Db) : Prop :=
  ∀ b, .insertBillingEvent b ∈ ws →
    d.billingEvents.find b.id = none ∧ ¬OnRecord b.external_payment_id d

/-- The contract on the recorded payments.  Under the `promise` the payment is on record when the
session has answered; a session that does not process one commits nothing. -/
def billingContract (processes promise : Prop) (externalPaymentId : String) :
    Contract Sql Db Write LockName Answer where
  rely := BillingRely
  allow _ _ := True
  guar _ ws d := processes ∧ InsertsFree ws d
  post _ d := promise → OnRecord externalPaymentId d
  tracked := False

/-- Payments may be processed at the same time. -/
theorem compatible_billing {ι : Type} (call : ι → PaymentCall) (env : ι → Env)
    (processes promise : ι → Prop) :
    Compatible postgres (fun i ↦ (deskContract Desk.plain (call i).request (env i)).both
      (billingContract (processes i) (promise i) (call i).externalPaymentId)) Write.locks where
  footprint h := Sql.locks_of_exec h
  refl _ _ _ := ⟨.refl, .refl⟩
  trans h h' := ⟨h.1.trans h'.1, h.2.trans h'.2⟩
  mono hlk h := ⟨h.1.mono hlk, h.2.mono hlk⟩
  others hij hguar hws hsep := by
    have hdesk := compatible_desk (K := fun _ ↦ Desk.plain) (fun _ ↦ id) (fun i ↦ (call i).request) env
    exact ⟨hdesk.others hij hguar.1 hws hsep, .view hws hsep, fun _ ↦ subscribed_paid hguar.1⟩

/-! ## Processing a payment -/

section Payment

variable {processes promise : Prop} {env : Env} {externalPaymentId : String} {subscriptionId : Option String}
  {rawPayload : JsonValue}

theorem billing_stmt {x : String} {o : Sql} {k : o.Ans → Script Answer}
    (h : ∀ lk' d' r ws', lk ⊆ lk' → o.locks (postgres.view ws d') ⊆ lk' → BillingRely lk d d' →
      o.exec (postgres.view ws d') = .ok (r, ws') →
        postgres.wp (billingContract processes promise x) (k r) (ws ++ ws') lk' d') :
    postgres.wp (billingContract processes promise x) (.stmt o k) ws lk d :=
  fun d' hrely _ r ws' hexec ↦ ⟨False.elim, h _ d' r ws' (List.subset_append_left _ _)
    (List.subset_append_right _ _) hrely hexec⟩

/-- The save of a tenant records nothing. -/
theorem billing_saveTenant {x : String} {mem : Tenant} {f : Unit → Script Answer}
    (h : ∀ lk' d' ws', lk ⊆ lk' → BillingRely lk d d' →
      (∀ w ∈ ws', ∀ b, w ≠ .insertBillingEvent b) →
        postgres.wp (billingContract processes promise x) (f ()) (ws ++ ws') lk' d') :
    postgres.wp (billingContract processes promise x) (saveTenant mem >>= f) ws lk d := by
  unfold saveTenant
  rw [saveEntity_bind]
  simp only [query, Prog.issue_bind]
  refine billing_stmt fun lk₁ d₁ row ws₁ hlk₁ _ hrely₁ hexec₁ ↦ ?_
  obtain ⟨-, rfl⟩ := Prod.mk.inj (Except.ok.inj hexec₁)
  cases row with
  | none => trivial
  | some reread =>
    simp only
    split
    · exact h lk₁ d₁ [] hlk₁ hrely₁ fun _ hw ↦ (List.not_mem_nil hw).elim
    · rw [List.append_nil]
      refine billing_stmt fun lk₂ d₂ _ ws₂ hlk₂ _ hrely₂ hexec₂ ↦ ?_
      obtain ⟨-, rfl⟩ := Prod.mk.inj (Except.ok.inj hexec₂)
      refine h lk₂ d₂ _ (List.Subset.trans hlk₁ hlk₂) (hrely₁.trans (hrely₂.mono hlk₁)) fun w hw b ↦ ?_
      obtain rfl := List.mem_singleton.1 hw
      exact Write.noConfusion

/-- A payment that is inserted in a free slot is on record. -/
theorem onRecord_inserted {row : BillingEvent} {ws' : List Write}
    (hfree : d.billingEvents.find row.id = none)
    (hws' : ∀ w ∈ ws', ∀ b, w ≠ .insertBillingEvent b) :
    (postgres.view (.insertBillingEvent row :: ws') d).billingEvents.rows =
      d.billingEvents.rows ++ [row] := by
  rw [Engine.view_cons, billingEvents_view hws']
  exact Table.rows_insert_of_fresh hfree

/-- A payment of a subscription that a tenant has is on record when its session has answered. -/
theorem processPayment_billing (hprocesses : processes) (hpromise : promise → OnRecord externalPaymentId d ∨
      Subscribed ((truthy subscriptionId).getD "test_sub_id") d) :
    postgres.wp (billingContract processes promise externalPaymentId)
      ((Request.processPayment externalPaymentId subscriptionId rawPayload).script env) [] [] d := by
  simp only [Request.script, Services.processPayment, query, Prog.issue_bind, Prog.stmt_bind]
  refine billing_stmt fun lk₁ d₁ event ws₁ _ _ hrely₁ hexec₁ ↦ ?_
  obtain ⟨hevent, rfl⟩ := Prod.mk.inj (Except.ok.inj hexec₁)
  cases event with
  | some event =>
    have hrecord : OnRecord externalPaymentId d₁ := by
      by_contra hnone
      cases hevent.symm.trans (not_onRecord_iff.2 hnone)
    refine fun d₂ hrely₂ ↦ ⟨⟨hprocesses, fun b hb ↦ (List.not_mem_nil hb).elim⟩, Or.inl ⟨_, rfl⟩,
      fun d₃ hrely₃ _ ↦ ?_⟩
    obtain ⟨b, hb, hid⟩ := hrecord
    exact ⟨b, hrely₃.kept b (hrely₂.kept b hb), hid⟩
  | none =>
    simp only [Prog.stmt_bind]
    refine billing_stmt fun lk₂ d₂ row ws₂ _ _ hrely₂ hexec₂ ↦ ?_
    obtain ⟨hrow, rfl⟩ := Prod.mk.inj (Except.ok.inj hexec₂)
    cases row with
    | none =>
      refine fun d₃ _ ↦ ⟨⟨hprocesses, fun b hb ↦ (List.not_mem_nil hb).elim⟩, Or.inl ⟨_, rfl⟩,
        fun d₄ _ hp ↦ ?_⟩
      rcases hpromise hp with ⟨b, hb, hid⟩ | hs
      · exact (not_onRecord_iff.1 hevent ⟨b, hrely₁.kept b hb, hid⟩).elim
      · exact (not_subscribed_iff.1 hrow (hrely₂.subscribed _ (hrely₁.subscribed _ hs))).elim
    | some tenant =>
      simp only [Prog.bind_assoc, Prog.stmt_bind]
      set row := billingEventRow env tenant.id externalPaymentId rawPayload
      refine billing_stmt fun lk₃ d₃ _ ws₃ hlk₃ hneeds₃ _ hexec₃ ↦ ?_
      have hfree : ws₃ = [.insertBillingEvent row] ∧ d₃.billingEvents.find row.id = none ∧
          ¬OnRecord row.external_payment_id d₃ := by
        simp only [Sql.exec] at hexec₃
        split at hexec₃
        · cases hexec₃
        · rename_i hslots
          simp only [not_or, Option.not_isSome_iff_eq_none] at hslots
          exact ⟨(Sql.writing_eq_ok hexec₃).2, hslots.1, not_onRecord_iff.1 hslots.2⟩
      obtain ⟨rfl, hid, hexternal⟩ := hfree
      have hidLock : (.billingEvent row.id, .update) ∈ lk₃ := hneeds₃ List.mem_cons_self
      have hexternalLock : (.externalPayment row.external_payment_id, .update) ∈ lk₃ :=
        hneeds₃ (List.mem_cons_of_mem _ List.mem_cons_self)
      refine billing_stmt fun lk₄ d₄ _ ws₄ hlk₄ _ hrely₄ hexec₄ ↦ ?_
      obtain ⟨-, rfl⟩ := Prod.mk.inj (Except.ok.inj hexec₄)
      refine billing_saveTenant fun lk₅ d₅ ws₅ hlk₅ hrely₅ hws₅ d₆ hrely₆ ↦ ?_
      have hrely : BillingRely lk₃ d₃ d₆ :=
        (hrely₄.trans (hrely₅.mono hlk₄)).trans (hrely₆.mono (List.Subset.trans hlk₄ hlk₅))
      have hfree₆ := hrely.id row.id hidLock hid
      refine ⟨⟨hprocesses, fun b hb ↦ ?_⟩, Or.inl ⟨_, rfl⟩, fun d₇ hrely₇ _ ↦ ?_⟩
      · rcases List.mem_cons.1 hb with heq | hb
        · obtain rfl := Write.insertBillingEvent.inj heq
          exact ⟨hfree₆, hrely.external _ hexternalLock hexternal⟩
        · exact (hws₅ _ hb b rfl).elim
      · refine ⟨row, hrely₇.kept row ?_, rfl⟩
        have hrows := onRecord_inserted hfree₆ hws₅
        exact hrows ▸ List.mem_append_right _ (List.mem_singleton_self row)

end Payment

end MicroErp.Commits
