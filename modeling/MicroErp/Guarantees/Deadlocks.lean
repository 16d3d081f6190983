import MicroErp.Commits.LockOrder
import MicroErp.Concurrency.Progress
import MicroErp.Concurrency.Withheld
import MicroErp.Guarantees.Isolation

/-!
# No deadlock

When the statements that lock many rows meet them in the order of their identifiers, no requests
wait for each other in a circle, of whatever kinds and tenants they are, and the steps of the requests
alone bring every run to an end.  Two batches that meet the customers in different orders do wait for
each other.
-/

namespace MicroErp.Guarantees

open MicroErp.Commits MicroErp.Concurrency MicroErp.Database MicroErp.Services MicroErp.Storage

/-! ## Identifiers that nobody else knows -/

section Withheld

/-- The identifiers that the environment generates belong to nobody. -/
noncomputable def withhold (env : Env) (own : Uuid → Option Uuid) : Uuid → Option Uuid :=
  open scoped Classical in fun id ↦ if ∃ n, env.fresh n = id then none else own id

variable {own : Uuid → Option Uuid} {env : Env} {d : Db}

theorem withhold_of_ne {id : Uuid} (h : ∀ n, env.fresh n ≠ id) : withhold env own id = own id :=
  if_neg fun ⟨n, hn⟩ ↦ h n hn

theorem withhold_fresh (n : ℕ) : withhold env own (env.fresh n) = none := if_pos ⟨n, rfl⟩

theorem owned_withhold (hd : d.Owned own) (hnew : NewTo env d) : d.Owned (withhold env own) where
  customers c hc := by
    rw [withhold_of_ne (hnew.customers c hc)]
    exact hd.customers c hc
  transactions t ht := by
    refine ⟨?_, ?_, fun g hg ↦ ?_⟩
    · rw [withhold_of_ne fun n ↦ (hnew.transactions t ht n).1]
      exact (hd.transactions t ht).id
    · rw [withhold_of_ne fun n ↦ (hnew.transactions t ht n).2.1]
      exact (hd.transactions t ht).customer
    · rw [withhold_of_ne fun n heq ↦ (hnew.transactions t ht n).2.2 (heq ▸ hg)]
      exact (hd.transactions t ht).group g hg
  batches b hb := by
    rw [withhold_of_ne (hnew.batches b hb)]
    exact hd.batches b hb
  shifts s hs := by
    rw [withhold_of_ne (hnew.shifts s hs)]
    exact hd.shifts s hs

/-- The locks that the sessions of a tenant take, and those of the jobs, which lock no
transactions. -/
def MayHold (own : Uuid → Option Uuid) : Option Uuid → LockName × LockMode → Prop
  | some tenantId, x => LockName.HeldFor own tenantId x
  | none, (.transaction _, _) => False
  | none, _ => True

theorem mayHold_of_clerical {o : Sql} (ho : o.Clerical) (v : Db) : ∀ x ∈ o.locks v, MayHold own none x := by
  intro x hx
  cases o with
  | lockCustomer tenantId id =>
    obtain ⟨-, rfl⟩ := Sql.mem_lockFound hx
    trivial
  | lockTenant id =>
    obtain ⟨-, rfl⟩ := Sql.mem_lockFound hx
    trivial
  | markOverdue id =>
    obtain ⟨-, rfl⟩ := Sql.mem_lockFound hx
    trivial
  | blockCustomer rule id =>
    obtain ⟨-, rfl⟩ := Sql.mem_lockFound hx
    trivial
  | updateTenant mem reread =>
    rw [List.mem_singleton.1 hx]
    trivial
  | lockSubscription mpSubscriptionId =>
    obtain ⟨t, -, rfl⟩ := Option.map_eq_some_iff.1 (Option.mem_toList.1 hx)
    trivial
  | insertBillingEvent row =>
    rcases List.mem_cons.1 hx with rfl | hx
    · trivial
    · rw [List.mem_singleton.1 hx]
      trivial
  | keyShare rows =>
    obtain ⟨row, hrow, rfl⟩ := List.mem_map.1 hx
    obtain ⟨id, rfl⟩ := ho row hrow
    trivial
  | insertTransaction | updateTransaction | moveTransaction | insertCustomer | updateCustomer
  | insertBatch | insertShift | updateShift | freezeTransaction => exact ho.elim
  | _ => cases hx

theorem takes_ownership {ι : Type} (own : Uuid → Option Uuid) (tenant : ι → Option Uuid) :
    (ownership own tenant).Takes fun i ↦ MayHold own (tenant i) := by
  intro i o v hv ho x hx
  change issuesFor own (tenant i) o at ho
  cases htenant : tenant i with
  | none =>
    rw [htenant] at ho
    exact mayHold_of_clerical ho v x hx
  | some tenantId =>
    rw [htenant] at ho
    exact Sql.locks_heldFor ho hv x hx

end Withheld

/-! ## Every run -/

section Runs

variable {ι : Type} {req : ι → Request} {env : ι → Env} {d : Db} {own : Uuid → Option Uuid}
  {merging : Bool}

theorem mints_withhold (hids : FreshIds req env) (hmints : Mints own req env) {i j : ι}
    (hij : j ≠ i) : ∀ tenantId ∈ tenantOf (req j), ∀ n,
      withhold (env i) own ((env j).fresh n) = some tenantId := by
  intro tenantId htenant n
  rw [withhold_of_ne fun m heq ↦ hij (hids.distinct i j m n heq).1.symm]
  exact hmints j tenantId htenant n

variable [DecidableEq ι]

/-- Until a session commits, no other holds or asks for the locks of the rows that it inserts. -/
theorem withheld_run (hids : FreshIds req env) (hmints : Mints own req env) (hd : d.Owned own)
    {i : ι} (hnew : NewTo (env i) d) (es : List (Event ι))
    (hlog : ∀ x ∈ (postgres.run (serve req env d) es).log, x.1 ≠ i) {j : ι} (hij : j ≠ i)
    {id : Uuid} {m : LockMode}
    (htouches : (postgres.run (serve req env d) es).Touches postgres j (.transaction id, m)) (n : ℕ) :
    (env i).fresh n ≠ id := by
  have hstart : (ownership (withhold (env i) own) fun j ↦ tenantOf (req j)).HoldsBut (· = i)
      (fun j ↦ MayHold (withhold (env i) own) (tenantOf (req j))) (fun _ _ ↦ True)
      (serve req env d) := by
    refine Flow.HoldsBut.start (owned_withhold hd hnew) fun j hj ↦ ?_
    have hown := mints_withhold hids hmints hj
    change ((req j).script (env j)).Safe (issuesFor _ (tenantOf (req j))) _ _
    cases htenant : tenantOf (req j) with
    | none => exact script_clerical htenant
    | some tenantId => exact script_stays htenant (hown tenantId htenant)
  have hholds := hstart.run (takes_ownership _ _) es hlog
  have hmay := hholds.touches (takes_ownership _ _) hij htouches
  rintro rfl
  change MayHold (withhold (env i) own) (tenantOf (req j)) _ at hmay
  cases htenant : tenantOf (req j) with
  | none =>
    rw [htenant] at hmay
    exact hmay
  | some tenantId =>
    rw [htenant] at hmay
    have hown : withhold (env i) own ((env i).fresh n) = some tenantId := hmay
    rw [withhold_fresh] at hown
    cases hown

theorem locking_run (hmints : Mints own req env) (hd : d.Owned own)
    (hclimbing : ∀ i, Climbing merging (env i) (req i)) (es : List (Event ι)) :
    (postgres.run (serve req env d) es).Locking postgres (Db.Owned own)
      fun i ↦ MayAsk own merging (req i).transactionKey (env i) := by
  refine (Sys.Locking.start fun i ↦ script_finishing (hclimbing i)).run es fun es' i p ws hrun ↦ ?_
  have hholds := owned_run hmints hd es'
  have hi := hholds.session i
  rw [show (postgres.run (serve req env d) es').session i = .running p ws from hrun] at hi
  exact Flow.view _ hi.2 hholds.db

/-- Every statement keeps to the order of the locks. -/
theorem ordered_run (hids : FreshIds req env) (hnew : ∀ i, NewTo (env i) d)
    (hmints : Mints own req env) (hd : d.Owned own)
    (hclimbing : ∀ i, Climbing merging (env i) (req i)) (es : List (Event ι)) :
    (postgres.run (serve req env d) es).Ordered postgres (lockOrder own merging)
      fun i ↦ Idle (env i) := by
  have hlocking := locking_run hmints hd hclimbing es
  have hview : ∀ i p ws, (postgres.run (serve req env d) es).session i = .running p ws →
      (postgres.view ws (postgres.run (serve req env d) es).db).Owned own := by
    intro i p ws hrun
    have hholds := owned_run hmints hd es
    have hi := hholds.session i
    rw [hrun] at hi
    exact Flow.view _ hi.2 hholds.db
  generalize hs : postgres.run (serve req env d) es = s at hlocking hview
  have hnamed : ∀ {i x}, s.Touches postgres i x → s.stage i ≠ none ∧
      Named (req i).transactionKey (env i) x := by
    intro i x htouches
    rcases htouches with hasks | hheld
    · obtain ⟨hstage, hmay⟩ := hasks.admits hlocking hview
      exact ⟨hstage, hmay.1⟩
    · obtain ⟨lk, hmay⟩ := hlocking.asked hheld
      refine ⟨fun hnone ↦ ?_, hmay.1⟩
      rw [hlocking.committed hnone] at hheld
      cases hheld
  -- the rows that a session inserts are its own until it commits, and then it has no locks
  have hown : ∀ {i j id m m'}, j ≠ i → s.Touches postgres i (.transaction id, m) →
      s.Touches postgres j (.transaction id, m') → ∀ n, (env i).fresh n ≠ id := by
    intro i j id m m' hij hi hj
    have hlog : ∀ x ∈ (postgres.run (serve req env d) es).log, x.1 ≠ i := by
      rw [hs]
      exact fun x hx heq ↦ (hnamed hi).1 (Sys.stage_eq_none.2 ⟨x, hx, heq⟩)
    exact withheld_run hids hmints hd (hnew i) es hlog hij (hs ▸ hj)
  refine ⟨hlocking.apart, fun i x hasks ↦ (hasks.admits hlocking hview).2.2, ?_⟩
  intro i j l m m' hij hidle hi hj
  cases l with
  | user id =>
    have hi' : m = .keyShare := (hnamed hi).2
    have hj' : m' = .keyShare := (hnamed hj).2
    rw [hi', hj']
    rfl
  | transaction id =>
    cases m with
    | update =>
      obtain ⟨n, hn⟩ := hidle
      exact (hown (Ne.symm hij) hi hj n hn).elim
    | noKeyUpdate => exact hidle.elim
    | keyShare =>
      cases m' with
      | update =>
        obtain ⟨n, hn⟩ := (hnamed hj).2 rfl
        exact (hown hij hj hi n hn).elim
      | noKeyUpdate => rfl
      | keyShare => rfl
  | transactionKey tenantId key =>
    cases m with
    | update =>
      obtain ⟨n, hn⟩ := hidle
      rcases (hnamed hj).2 with hslot | ⟨n', hn'⟩
      · exact (hids.keys i j n _ hslot hn.symm).elim
      · exact (hij (hids.distinct i j n n' (hn.trans hn'.symm)).1).elim
    | noKeyUpdate => exact hidle.elim
    | keyShare => exact hidle.elim
  | _ => exact hidle.elim

/-- No requests ever wait for each other in a circle. -/
theorem no_deadlock (hd : Reachable d) (hids : FreshIds req env) (hnew : ∀ i, NewTo (env i) d)
    (hclimbing : ∀ i, Climbing merging (env i) (req i)) (es : List (Event ι)) (i : ι) :
    ¬Relation.TransGen ((postgres.run (serve req env d) es).WaitsFor postgres) i i := by
  obtain ⟨own, hmints, howned⟩ := exists_owner hd hids hnew
  exact (ordered_run hids hnew hmints howned hclimbing es).no_cycle i

/-- However a run of finitely many requests has begun, steps of the requests bring it to an end in
which every request has its answer; nobody has to be aborted. -/
theorem everybody_can_finish [Finite ι] (hd : Reachable d) (hids : FreshIds req env)
    (hnew : ∀ i, NewTo (env i) d) (hclimbing : ∀ i, Climbing merging (env i) (req i))
    (es : List (Event ι)) :
    ∃ rest, (∀ e ∈ rest, ∃ i, e = .step i) ∧
      ∀ i, ((postgres.run (serve req env d) (es ++ rest)).outcome i).isSome := by
  obtain ⟨own, hmints, howned⟩ := exists_owner hd hids hnew
  have hrun : ∀ rest, postgres.run (postgres.run (serve req env d) es) rest =
      postgres.run (serve req env d) (es ++ rest) := fun rest ↦ List.foldl_append.symm
  have hordered : ∀ rest, (postgres.run (postgres.run (serve req env d) es) rest).Ordered postgres
      (lockOrder own merging) fun i ↦ Idle (env i) := fun rest ↦
    hrun rest ▸ ordered_run hids hnew hmints howned hclimbing (es ++ rest)
  obtain ⟨rest, hsteps, hrest⟩ := Engine.exists_finish hordered fun rest {i out} hout ↦ by
    rw [hrun] at hout ⊢
    exact (locking_run hmints howned hclimbing (es ++ rest)).finished hout
  exact ⟨rest, hsteps, fun i ↦ hrun rest ▸ hrest i⟩

end Runs

/-! ## A batch, a merge, a closing and a debt at once -/

def sortedEnv {k : ℕ} (i : Fin k) : Env where
  now := (laterEnv i).now
  clock := (laterEnv i).clock
  fresh := (laterEnv i).fresh
  scan ids := ids.mergeSort
  scan_perm ids := List.mergeSort_perm ids _
  numberText := (laterEnv i).numberText

theorem sorts_sortedEnv {k : ℕ} (i : Fin k) : Sorts (sortedEnv i) := fun ids ↦
  (List.pairwise_mergeSort' (· ≤ ·) ids)

theorem newTo_owing {k : ℕ} (hk : k ≤ 90) (i : Fin k) : NewTo (sortedEnv i) owing := by
  have hfresh : ∀ n id, id % 100 < 10 → (sortedEnv i).fresh n ≠ id := by
    rintro n _ hid rfl
    change (100 * (n + 1) + (10 + (i : ℕ))) % 100 < 10 at hid
    omega
  have hcustomers : ∀ c ∈ owing.customers.rows, c.id % 100 < 10 := by decide +kernel
  have htransactions : ∀ t ∈ owing.transactions.rows, t.id % 100 < 10 ∧ t.customer_id % 100 < 10 ∧
      t.reference_group_id = none := by decide +kernel
  have hbatches : owing.batches.rows = [] := by decide +kernel
  have hshifts : owing.shifts.rows = [] := by decide +kernel
  refine ⟨fun c hc n ↦ hfresh n _ (hcustomers c hc), fun t ht n ↦ ?_, fun b hb ↦ ?_, fun s hs ↦ ?_⟩
  · obtain ⟨hid, hcustomer, hgroup⟩ := htransactions t ht
    exact ⟨hfresh n _ hid, hfresh n _ hcustomer, by simp [hgroup]⟩
  · rw [hbatches] at hb
    cases hb
  · rw [hshifts] at hs
    cases hs

def tenPercentUnder (key : Uuid) : InflationAdjustmentDto :=
  { percentage := 10, idempotency_key := key }

def betoIntoAna : MergeCustomersDto := { primary_id := ⟨100, 0⟩, secondary_id := ⟨101, 0⟩ }

def crowded : Fin 4 → Request
  | 0 => .applyInflationAdjustment 1 2 (tenPercentUnder 20)
  | 1 => .mergeCustomers 1 betoIntoAna
  | 2 => .closeTurn 1 closingTurn
  | 3 => .registerDebt 1 2 (debtOf100 101 21)

theorem freshIds_crowded : FreshIds crowded sortedEnv := by
  have h : FreshIds crowded laterEnv := freshIds_later (by decide) (by decide)
  exact { distinct := h.distinct, keys := h.keys }

theorem climbing_crowded (i : Fin 4) : Climbing true (sortedEnv i) (crowded i) :=
  match i with
  | 0 => sorts_sortedEnv 0
  | 1 => ⟨rfl, sorts_sortedEnv 1, by decide, by decide⟩
  | 2 => fun _ ↦ sorts_sortedEnv 2
  | 3 => trivial

/-- The batch has locked the first customer, the merge waits for it, and the debt holds the second. -/
def rush : List (Event (Fin 4)) := inTurn [(0, 3), (1, 2), (3, 3), (0, 2), (2, 1)]

theorem no_deadlock_crowded :
    ¬Relation.TransGen ((postgres.run (serve crowded sortedEnv owing) rush).WaitsFor postgres) 1 1 :=
  no_deadlock reachable_owing freshIds_crowded (newTo_owing (by decide)) climbing_crowded rush 1

theorem everybody_can_finish_crowded :
    ∃ rest, (∀ e ∈ rest, ∃ i, e = .step i) ∧
      ∀ i, ((postgres.run (serve crowded sortedEnv owing) (rush ++ rest)).outcome i).isSome :=
  everybody_can_finish reachable_owing freshIds_crowded (newTo_owing (by decide)) climbing_crowded rush

/-- Two batches at once. -/
def twoBatches : Fin 2 → Request
  | 0 => .applyInflationAdjustment 1 2 (tenPercentUnder 20)
  | 1 => .applyInflationAdjustment 1 2 (tenPercentUnder 22)

/-- The second batch meets the customers the other way round. -/
def crossedEnv (i : Fin 2) : Env where
  now := (laterEnv i).now
  clock := (laterEnv i).clock
  fresh := (laterEnv i).fresh
  scan ids := if i.val = 0 then ids else ids.reverse
  scan_perm ids := by
    split
    · exact List.Perm.refl ids
    · exact ids.reverse_perm
  numberText := (laterEnv i).numberText

-- without the order of the locks both batches wait for each other
example : ∀ i, (postgres.run (serve twoBatches crossedEnv owing)
    (inTurn [(0, 3), (1, 3), (0, 20), (1, 20), (0, 20)])).outcome i = none := by decide +kernel

end MicroErp.Guarantees
