import MicroErp.Concurrency.EachCommit
import MicroErp.Guarantees.Suspensions

/-!
# The status of a tenant moves along documented edges

A payment makes any tenant active and the nightly job suspends the rows that it loaded.  The edges
are the documented ones as long as no payment meets a cancelled tenant and each row that the job
writes is still one that it looks for.
-/

namespace MicroErp.Guarantees

open MicroErp.Commits MicroErp.Concurrency MicroErp.Database MicroErp.Services MicroErp.Storage

/-- The documented transitions. -/
def documentedEdges : List (TenantStatus × TenantStatus) :=
  [(.TRIAL, .ACTIVE), (.TRIAL, .PAST_DUE), (.ACTIVE, .PAST_DUE), (.PAST_DUE, .ACTIVE),
    (.PAST_DUE, .SUSPENDED), (.SUSPENDED, .ACTIVE)]

/-- The tenant is one that the nightly job looks for. -/
def Due (cutoffDate : Timestamp) (t : Tenant) : Prop :=
  t.status = .PAST_DUE ∧ ∃ expires ∈ t.subscription_expires_at, expires < cutoffDate

instance (cutoffDate : Timestamp) (t : Tenant) : Decidable (Due cutoffDate t) :=
  inferInstanceAs (Decidable (_ ∧ _))

/-- A change of the status is documented, and a suspension is due. -/
def FollowsEdge (cutoffDate : Timestamp) (t t' : Tenant) : Prop :=
  t'.status = t.status ∨ (t.status, t'.status) ∈ documentedEdges ∧
    (t'.status = .SUSPENDED → Due cutoffDate t)

/-- Each tenant of `d` is in `d'` with a status that an edge leads to. -/
def StatusesFollow (cutoffDate : Timestamp) (d d' : Db) : Prop :=
  ∀ t ∈ d.tenants.rows, ∃ t' ∈ d'.tenants.rows, t'.id = t.id ∧ FollowsEdge cutoffDate t t'

/-- The moment three days before the request. -/
def graceCutoff (env : Env) : Timestamp := addDays env.clock (-3)

/-- The tenant that a payment holds is not cancelled, and those that the nightly job has updated are
still due, or suspended already. -/
def HoldsEdges (req : Request) (env : Env) (lk : List (LockName × LockMode)) (d : Db) : Bool :=
  match req with
  | .processPayment _ _ _ => ∀ t ∈ d.tenants.rows, (.tenant t.id, .update) ∈ lk →
      t.status ≠ .CANCELLED
  | .processSaaSExpirations => ∀ t ∈ d.tenants.rows, (.tenant t.id, .noKeyUpdate) ∈ lk →
      t.status = .SUSPENDED ∨ Due (graceCutoff env) t
  | _ => true

section Steps

variable {K : Desk} {req : Request} {env : Env} {lk : List (LockName × LockMode)}
  {ws : List Write} {d : Db} {t : Tenant}

/-- The nightly job sets no status but one. -/
theorem status_suspends {w : Write} (h : Suspends K d w) (t : Tenant) :
    (onTenant t w).status = t.status ∨ (onTenant t w).status = .SUSPENDED := by
  obtain ⟨loaded, reread, rfl, -⟩ := h
  simp only [onTenant]
  split
  · simp only [Tenant.saved, savedColumn]
    split
    · exact Or.inl rfl
    · exact Or.inr rfl
  · exact Or.inl rfl

theorem status_suspended (h : ∀ w ∈ ws, Suspends K d w) (t : Tenant) :
    (ws.foldl onTenant t).status = t.status ∨ (ws.foldl onTenant t).status = .SUSPENDED := by
  induction ws generalizing t with
  | nil => exact Or.inl rfl
  | cons w ws ih =>
    have hrest := ih (fun w' hw' ↦ h w' (List.mem_cons_of_mem _ hw')) (onTenant t w)
    rcases status_suspends (h w List.mem_cons_self) t with hsame | hsuspended
    · rwa [hsame] at hrest
    · rw [hsuspended, or_self] at hrest
      exact Or.inr hrest

/-- The nightly job holds the tenants that it changes. -/
theorem held_of_suspended (h : ∀ w ∈ ws, Suspends K d w) (hws : ∀ w ∈ ws, w.locks ⊆ lk)
    (hchanged : ws.foldl onTenant t ≠ t) : (.tenant t.id, .noKeyUpdate) ∈ lk := by
  by_contra hnot
  refine hchanged (List.foldlRecOn ws onTenant (motive := (· = t)) rfl fun t' ht' w hw ↦ ?_)
  subst ht'
  obtain ⟨loaded, reread, rfl, -⟩ := h w hw
  refine if_neg fun hid ↦ hnot ?_
  rw [hid]
  exact hws _ hw List.mem_cons_self

/-- Every other request leaves the status alone, or makes the tenant that it holds active. -/
theorem status_setBy (h : DeskChanges K env lk d req ws) (hreq : req ≠ .processSaaSExpirations)
    (hws : ∀ w ∈ ws, w.locks ⊆ lk) (ht : t ∈ d.tenants.rows) :
    (ws.foldl onTenant t).status = t.status ∨ (ws.foldl onTenant t).status = .ACTIVE ∧
      (∃ x s r, req = .processPayment x s r) ∧ (.tenant t.id, .update) ∈ lk := by
  have hset := foldl_setBy h hreq ht
  rw [hset]
  cases h with
  | @paid x s r tenant hheld =>
    simp only [setBy]
    split
    · rename_i hbills
      refine Or.inr ⟨rfl, ⟨x, s, r, rfl⟩, ?_⟩
      simp only [List.any_cons, not_bills_savedTenant, Bool.or_false, Bills, billingEventRow,
        decide_eq_true_eq] at hbills
      exact hbills ▸ hheld.2
    · exact Or.inl rfl
  | other hkeep hoff =>
    refine Or.inl ?_
    rw [← hset, foldl_onTenant_off_desk fun w hw mem reread ↦ ?_]
    rintro rfl
    exact hoff _ hw trivial
  | «open» | close =>
    simp only [setBy, setActive]
    exact Or.inl (by split <;> rfl)
  | settings =>
    simp only [setBy]
    exact Or.inl (by split <;> rfl)
  | suspend => exact (hreq rfl).elim

theorem statusesFollow_commit (h : DeskChanges K env lk d req ws) (hws : ∀ w ∈ ws, w.locks ⊆ lk)
    (hok : ws ≠ [] → HoldsEdges req env lk d) :
    StatusesFollow (graceCutoff env) d (postgres.view ws d) := by
  intro t ht
  refine ⟨ws.foldl onTenant t, ?_, foldl_onTenant_id t ws, ?_⟩
  · rw [tenants_view]
    exact List.mem_map_of_mem ht
  by_cases hnil : ws = []
  · subst hnil
    exact Or.inl rfl
  have hholds := hok hnil
  by_cases hreq : req = .processSaaSExpirations
  · subst hreq
    have hsuspends : ∀ w ∈ ws, Suspends K d w := by
      cases h with
      | other hkeep => exact (hkeep trivial).elim
      | suspend h => exact h
    rcases status_suspended hsuspends t with hsame | hsuspended
    · exact Or.inl hsame
    by_cases hchanged : ws.foldl onTenant t = t
    · exact Or.inl (congrArg Tenant.status hchanged)
    have hlocked := held_of_suspended hsuspends hws hchanged
    rcases of_decide_eq_true hholds t ht hlocked with hbefore | hdue
    · exact Or.inl (hsuspended.trans hbefore.symm)
    · refine Or.inr ⟨?_, fun _ ↦ hdue⟩
      rw [hsuspended, hdue.1]
      decide
  · rcases status_setBy h hreq hws ht with hsame | ⟨hactive, ⟨x, s, r, rfl⟩, hlocked⟩
    · exact Or.inl hsame
    · have hstatus := of_decide_eq_true hholds t ht hlocked
      rw [FollowsEdge, hactive]
      cases hcase : t.status with
      | ACTIVE => exact Or.inl rfl
      | CANCELLED => exact (hstatus hcase).elim
      | _ => exact Or.inr ⟨by decide, fun h ↦ by cases h⟩

end Steps

/-! ## Runs -/

/-- As long as the commits meet tenants that may change, every commit follows the edges. -/
theorem statuses_follow_edges {ι : Type} [DecidableEq ι] {req : ι → Request} {env : ι → Env} {d : Db}
    (hids : FreshIds req env) (hd : Reachable d) (hunused : ∀ i, (env i).Unused d)
    (es : List (Event ι)) (hcommits : postgres.CommitsMeet
      (fun i lk d ↦ HoldsEdges (req i) (env i) lk d) (serve req env d) es) :
    postgres.EachCommit (fun i ↦ StatusesFollow (graceCutoff (env i))) d
      (postgres.run (serve req env d) es).log := by
  obtain ⟨hC, hsound⟩ := sound_both (K := fun _ ↦ Desk.plain) (fun _ ↦ id) hids hunused
    (wellFormed_of_reachable hd)
  exact hsound.each_commit hC (.of_forall fun i o v ↦
    ⟨allow_plain (req i) (env i) o v, allow_desk_plain (req i) o v⟩) hcommits
    fun i lk ws d hguar hws hok ↦ statusesFollow_commit hguar.2 hws hok

/-! ## A payment of a cancelled tenant, and a stale suspension -/

def cancelledTenants : Table Tenant :=
  lateTenants.modify 1 fun t ↦ { t with status := .CANCELLED }

def payingCancelled : Fin 1 → Request := fun _ ↦ .processPayment "pago" (some "sub") .null

/-- The statuses of the tenants of a run that begins with these tenants. -/
def statusesAfter {k : ℕ} (req : Fin k → Request) (tenants : Table Tenant)
    (es : List (Event (Fin k))) : List TenantStatus :=
  (postgres.run (serve req (fun i ↦ sampleEnv i) (Db.opened tenants)) es).db.tenants.rows.map (·.status)

/-- A payment reactivates a cancelled tenant, and the job suspends one that is active again. -/
theorem statuses_leave_edges :
    (statusesAfter payingCancelled cancelledTenants [] = [.CANCELLED] ∧
      statusesAfter payingCancelled cancelledTenants (turns 0 8) = [.ACTIVE]) ∧
    (statusesAfter payingLate lateTenants (inTurn [(0, 1), (1, 12)]) = [.ACTIVE] ∧
      statusesAfter payingLate lateTenants staleOrder = [.SUSPENDED]) ∧
    (TenantStatus.CANCELLED, TenantStatus.ACTIVE) ∉ documentedEdges ∧
    (TenantStatus.ACTIVE, TenantStatus.SUSPENDED) ∉ documentedEdges := by
  decide +kernel

theorem reachable_late : Reachable (Db.opened lateTenants) :=
  ⟨Fin 2, inferInstance, openingLate, fun i ↦ sampleEnv i, lateTenants, [],
    freshIds_late (by decide), rfl⟩

theorem statuses_follow_edges_opened :
    statusesAfter openingLate lateTenants openedFirst = [.SUSPENDED] ∧
      postgres.EachCommit (fun i : Fin 2 ↦ StatusesFollow (graceCutoff (sampleEnv i)))
        (Db.opened lateTenants) (postgres.run (serve openingLate (fun i ↦ sampleEnv i)
          (Db.opened lateTenants)) openedFirst).log := by
  have hids : FreshIds openingLate fun i ↦ sampleEnv i := freshIds_late (by decide)
  have hcommits : postgres.CommitsMeet (fun i lk d ↦ HoldsEdges (openingLate i) (sampleEnv i) lk d)
      (serve openingLate (fun i ↦ sampleEnv i) (Db.opened lateTenants)) openedFirst := by
    decide +kernel
  exact ⟨by decide +kernel, statuses_follow_edges hids reachable_late
    (fun i ↦ unused_opened (sampleEnv i) lateTenants) openedFirst hcommits⟩

end MicroErp.Guarantees
