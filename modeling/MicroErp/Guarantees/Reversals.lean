import MicroErp.Commits.Runs

/-!
# One reversal for each transaction

A reversal checks `is_reversed` before it locks the customer.  If the transaction is still
unreversed when the lock is taken, it is reversed at most once; otherwise not.
-/

namespace MicroErp.Guarantees

open MicroErp.Commits MicroErp.Concurrency MicroErp.Database MicroErp.Services MicroErp.Storage

variable {ι : Type} {S : Setting} {req : Request} {env : Env} {d d' : Db} {e : Effect}
  {lk : List (LockName × LockMode)}

/-- The `REVERSAL` rows that name transaction `id`. -/
def reversalsOf (d : Db) (id : Uuid) : List Transaction.Core :=
  d.cores.filter fun r ↦ r.type = .REVERSAL ∧ r.reversed_transaction_id = some id

/-- The request asks to reverse transaction `id`. -/
def Reverses (id : Uuid) : Request → Bool
  | .reverseTransaction _ _ transactionId _ => transactionId = id
  | _ => false

/-- The commits by which the balance of a customer was moved in order to reverse transaction
`id`. -/
def reversalCommits (req : ι → Request) (log : List (ι × List Write)) (id : Uuid) :
    List (ι × List Write) :=
  log.filter fun x ↦ Reverses id (req x.1) ∧ x.2 ≠ []

/-- A reversal that locks its customer finds the transaction unreversed and still of that
customer. -/
def LocksUnreversed (req : Request) : Sql → Db → Bool
  | .lockCustomer _ id, v => req.Checked id v
  | _, _ => true

/-! ## What a commit does to the flags -/

/-- Only a reversal appends a row that names another one. -/
theorem reverses_of_row (h : Changes S env lk d req e) {r : Transaction} (hr : r ∈ e.rows)
    {id : Uuid} (hid : r.reversed_transaction_id = some id) : Reverses id req ∧ e.rows = [r] := by
  cases h with
  | post hkey hc hposts =>
    exfalso
    cases hposts with
    | mixed =>
      rcases List.mem_cons.1 hr with rfl | hr
      · cases hid
      · obtain rfl := List.mem_singleton.1 hr
        cases hid
    | _ =>
      obtain rfl := List.mem_singleton.1 hr
      cases hid
  | reverse hoid =>
    obtain rfl := List.mem_singleton.1 hr
    exact ⟨decide_eq_true (hoid.symm.trans (Option.some.inj hid)), rfl⟩
  | inflate hadjusts =>
    obtain ⟨x, hx, rfl⟩ := List.mem_map.1 hr
    obtain ⟨-, n, hn⟩ := hadjusts.of_mem hx
    rw [hn] at hid
    cases hid
  | _ => cases hr

/-- A checked reversal meets its transaction unreversed and leaves it reversed. -/
theorem reversed_by (h : Changes S env lk d req e) (hS : S.checked) {id : Uuid}
    (hreq : Reverses id req) : ∃ t ∈ d.transactions.rows, t.id = id ∧ t.is_reversed = false ∧
      (e.tweak t).is_reversed = true := by
  cases h with
  | reverse hoid _ _ _ _ hpresent _ hchecked =>
    obtain ⟨t, ht, hcore⟩ := hpresent
    have hreq : _ = id := of_decide_eq_true hreq
    obtain ⟨⟨-, hreread⟩, hrows⟩ := hchecked hS
    have hid : t.id = id := (congrArg (·.id) hcore).trans (hoid.trans hreq)
    refine ⟨t, ht, hid, (hrows t ht (hid.trans hreq.symm)).2, ?_⟩
    simp only
    rw [if_pos (hid.trans hreq.symm)]
    simp [Transaction.saved, savedColumn, hreread]
  | post hkey hc hposts => cases hposts <;> cases hreq
  | edit hedit => cases req <;> first | cases hreq | exact hedit.elim
  | aside haside => cases req <;> first | cases hreq | exact haside.elim
  | flag hflag => cases req <;> first | cases hreq | exact hflag.elim
  | _ => cases hreq

/-! ## At most one -/

def Reversed (d : Db) (id : Uuid) : Prop :=
  ∃ t ∈ d.transactions.rows, t.id = id ∧ t.is_reversed = true

theorem Reversed.commit {id : Uuid} (h : Reversed d id) (hcommit : Commit S req env lk d d' e) :
    Reversed d' id := by
  obtain ⟨t, ht, hid, hreversed⟩ := h
  exact ⟨e.tweak t, hcommit.mem_transactions ht,
    (congrArg (·.id) (hcommit.changes.toCore_tweak t)).trans hid,
    hcommit.changes.is_reversed_tweak hreversed⟩

theorem Reversed.of_reverses {id : Uuid} (hcommit : Commit S req env lk d d' e) (hS : S.checked)
    (hreq : Reverses id req) : ¬Reversed d id ∧ Reversed d' id := by
  obtain ⟨t, ht, hid, hunreversed, hreversed⟩ := reversed_by hcommit.changes hS hreq
  constructor
  · rintro ⟨t', ht', hid', hreversed'⟩
    rw [Db.eq_of_id ht' ht (hid'.trans hid.symm), hunreversed] at hreversed'
    cases hreversed'
  · exact ⟨e.tweak t, hcommit.mem_transactions ht,
      (congrArg (·.id) (hcommit.changes.toCore_tweak t)).trans hid, hreversed⟩

theorem reversalsOf_commit (hcommit : Commit S req env lk d d' e) (id : Uuid) :
    (¬Reverses id req → reversalsOf d' id = reversalsOf d id) ∧
      (reversalsOf d' id).length ≤ (reversalsOf d id).length + 1 := by
  have hsplit : reversalsOf d' id = reversalsOf d id ++ (e.rows.map (·.toCore)).filter fun r ↦
      r.type = .REVERSAL ∧ r.reversed_transaction_id = some id := by
    unfold reversalsOf
    rw [hcommit.cores, List.filter_append]
  by_cases hnamed : ∃ r ∈ e.rows, r.reversed_transaction_id = some id
  · obtain ⟨r, hr, hid⟩ := hnamed
    obtain ⟨hreq, hrows⟩ := reverses_of_row hcommit.changes hr hid
    refine ⟨fun h ↦ (h hreq).elim, ?_⟩
    rw [hsplit, hrows, List.length_append]
    exact Nat.add_le_add_left (List.length_filter_le _ _) _
  · have hnone : (e.rows.map (·.toCore)).filter (fun r ↦
        r.type = .REVERSAL ∧ r.reversed_transaction_id = some id) = [] := by
      rw [List.filter_eq_nil_iff]
      intro core hcore
      obtain ⟨r, hr, rfl⟩ := List.mem_map.1 hcore
      simp only [decide_eq_true_eq, not_and]
      exact fun _ hid ↦ hnamed ⟨r, hr, hid⟩
    rw [hsplit, hnone, List.append_nil]
    exact ⟨fun _ ↦ rfl, Nat.le_succ _⟩

/-- Until a transaction is marked nothing has reversed it, and then one commit has. -/
def OneReversal (req : ι → Request) (d : Db) (log : List (ι × List Write)) : Prop :=
  ∀ id, ((reversalsOf d id).length ≤ 1 ∧ (reversalCommits req log id).length ≤ 1) ∧
    (¬Reversed d id → reversalsOf d id = [] ∧ reversalCommits req log id = [])

theorem OneReversal.start (req : ι → Request) (tenants : Table Tenant) :
    OneReversal req (Db.opened tenants) [] :=
  fun _ ↦ ⟨⟨Nat.zero_le _, Nat.zero_le _⟩, fun _ ↦ ⟨rfl, rfl⟩⟩

theorem OneReversal.idle {req : ι → Request} {log : List (ι × List Write)}
    (h : OneReversal req d log) (i : ι) : OneReversal req d (log ++ [(i, [])]) := by
  intro id
  have hlog : reversalCommits req (log ++ [(i, [])]) id = reversalCommits req log id := by
    simp [reversalCommits]
  rw [hlog]
  exact h id

theorem OneReversal.commit {req : ι → Request} {log : List (ι × List Write)} {i : ι}
    {ws : List Write} (h : OneReversal req d log) (hS : S.checked)
    (hcommit : Commit S (req i) env lk d d' e) : OneReversal req d' (log ++ [(i, ws)]) := by
  intro id
  obtain ⟨⟨hrows, hcommits⟩, hnone⟩ := h id
  obtain ⟨hkeep, hone⟩ := reversalsOf_commit hcommit id
  by_cases hreq : Reverses id (req i)
  · obtain ⟨hunreversed, hreversed⟩ := Reversed.of_reverses hcommit hS hreq
    obtain ⟨hnoRows, hnoCommits⟩ := hnone hunreversed
    refine ⟨⟨by simpa [hnoRows] using hone, ?_⟩, fun hnot ↦ (hnot hreversed).elim⟩
    have hlog : reversalCommits req (log ++ [(i, ws)]) id = reversalCommits req log id ++
        reversalCommits req [(i, ws)] id := List.filter_append _ _
    rw [hlog, hnoCommits, List.nil_append]
    exact List.length_filter_le _ _
  · have hlog : reversalCommits req (log ++ [(i, ws)]) id = reversalCommits req log id := by
      simp [reversalCommits, hreq]
    rw [hkeep hreq, hlog]
    exact ⟨⟨hrows, hcommits⟩, fun hnot ↦ hnone fun hreversed ↦ hnot (hreversed.commit hcommit)⟩

section Runs

variable [DecidableEq ι] {req : ι → Request} {env : ι → Env} {es : List (Event ι)}

/-- While reversals lock unreversed transactions, every transaction is reversed at most once. -/
theorem reversed_at_most_once (hids : FreshIds req env) (tenants : Table Tenant)
    (hmeets : postgres.Meets (fun i o v ↦ LocksUnreversed (req i) o v) (serve req env (Db.opened tenants)) es)
    (id : Uuid) :
    (reversalsOf (postgres.run (serve req env (Db.opened tenants)) es).db id).length ≤ 1 ∧
      (reversalCommits req (postgres.run (serve req env (Db.opened tenants)) es).log id).length ≤ 1 := by
  let S : Setting := { Setting.plain with checked := True }
  obtain ⟨hC, hsound⟩ := sound_opened (S := S) hids False.elim False.elim rfl tenants
  have hallow : postgres.Meets (fun i ↦ S.allow (req i) (env i))
      (serve req env (Db.opened tenants)) es :=
    hmeets.mono fun i o v h ↦ by
      cases o with
      | lockCustomer tenantId customerId =>
        exact ⟨fun _ ↦ of_decide_eq_true h, fun hS ↦ by cases hS⟩
      | findTransaction => exact fun hS ↦ by cases hS
      | findTransactionByKey | rereadTransaction | rereadCustomer => exact False.elim
      | _ => trivial
  refine (hsound.history hC (J := OneReversal req) hallow (.start req tenants)
    fun i lk ws d log hJ hguar _ ↦ ?_) id |>.1
  rcases hguar with ⟨rfl, -⟩ | ⟨e, hcommit⟩
  · exact hJ.idle i
  · exact hJ.commit trivial hcommit

end Runs

/-! ## Two reversals of one debt -/

/-- Ana owes two debts of 100, and the first one is reversed under two keys. -/
def reversing : Fin 5 → Request
  | 0 => .createCustomer 1 ana
  | 1 => .registerDebt 1 2 (debtOf100 100 11)
  | 2 => .registerDebt 1 2 (debtOf100 100 12)
  | 3 => .reverseTransaction 1 2 101 (reversalUnder 13)
  | 4 => .reverseTransaction 1 2 101 (reversalUnder 14)

theorem freshIds_reversing : FreshIds reversing fun i ↦ sampleEnv i :=
  freshIds_sample Fin.val_injective (by decide) (by decide)

/-- The customer and the two debts are committed. -/
def reversingSetup : List (Event (Fin 5)) := turns 0 10 ++ turns 1 12 ++ turns 2 12

/-- Both reversals read the unreversed debt before either locks the customer. -/
theorem reversed_twice :
    let s := serve reversing (fun i ↦ sampleEnv i) (Db.opened sampleTenants)
    let before := postgres.run s reversingSetup
    let after := postgres.run s (reversingSetup ++ turns 3 2 ++ turns 4 2 ++ turns 3 15 ++ turns 4 15)
    (before.db.customers.rows.map (·.balance_cents) = [200] ∧
        reversalsOf before.db 101 = []) ∧
      after.db.customers.rows.map (·.balance_cents) = [0] ∧
        (reversalsOf after.db 101).length = 2 ∧ (reversalCommits reversing after.log 101).length = 2 := by
  decide +kernel

/-- One after the other, the second reversal finds the debt reversed. -/
theorem reversed_at_most_once_serially :
    (reversalsOf (postgres.run (serve reversing (fun i ↦ sampleEnv i) (Db.opened sampleTenants))
        (reversingSetup ++ turns 3 15 ++ turns 4 15)).db 101).length ≤ 1 ∧
      (reversalCommits reversing (postgres.run
        (serve reversing (fun i ↦ sampleEnv i) (Db.opened sampleTenants))
        (reversingSetup ++ turns 3 15 ++ turns 4 15)).log 101).length ≤ 1 :=
  reversed_at_most_once freshIds_reversing sampleTenants (by decide +kernel) 101

end MicroErp.Guarantees
