import MicroErp.Commits.Runs
import MicroErp.Concurrency.TwoPhase

/-!
# The locking money operations are serializable

Each of them reads its key without a lock, and then reads and writes only rows it has locked.  With
keys of their own they stay in step with runs alone, so a run is a serial run in the order of the
commits.
-/

namespace MicroErp.Guarantees

open MicroErp.Commits MicroErp.Concurrency MicroErp.Database MicroErp.Services MicroErp.Storage

/-- The money operations that lock every customer they write. -/
def LocksMoney : Request → Prop
  | .registerDebt _ _ _ => True
  | .registerPayment _ _ _ => True
  | .registerMixedPayment _ _ _ => True
  | .forgiveDebt _ _ _ => True
  | .applyInflationAdjustment _ _ _ => True
  | .mergeCustomers _ _ => True
  | .updateCreditLimit _ _ _ => True
  | _ => False

/-- No two requests have a key in common. -/
def KeysDistinct {ι : Type} (req : ι → Request) : Prop :=
  ∀ i j, i ≠ j → (∀ slot ∈ (req i).transactionKey, slot ∉ (req j).transactionKey) ∧
    ∀ slot ∈ (req i).batchKey, slot ∉ (req j).batchKey

/-- Every session has to stay in step with a run alone. -/
def steppedSetting : Setting :=
  { Setting.plain with checked := True, quiet := True }

section Locking

variable {req : Request} {env : Env} {d : Db}

theorem isQuiet_of_locksMoney (h : LocksMoney req) : req.IsQuiet := by
  cases req <;> trivial

theorem checked_of_locksMoney (h : LocksMoney req) (id : Uuid) : req.Checked id d := by
  cases req <;> trivial

theorem allow_of_locksMoney (h : LocksMoney req) (o : Sql) (v : Db) :
    steppedSetting.allow req env o v := by
  cases o with
  | lockCustomer tenantId id => exact ⟨fun _ ↦ checked_of_locksMoney h id, fun hS ↦ by cases hS⟩
  | findTransaction => exact fun hS ↦ by cases hS
  | findTransactionByKey | rereadTransaction | rereadCustomer => exact False.elim
  | _ => trivial

theorem suits_of_locksMoney (h : LocksMoney req) (hunused : env.Unused d) (hwf : d.WellFormed) :
    Suits steppedSetting req env d where
  unused _ := hunused
  wellFormed _ := hwf
  fresh _ := trivial
  isQuiet _ := isQuiet_of_locksMoney h
  step _ := Or.inl trivial
  who _ hwho := by cases hwho

end Locking

section Runs

variable {ι : Type} {req : ι → Request} {env : ι → Env} {d : Db} {es : List ι}

theorem compatible_stepped (hids : FreshIds req env) (hquiet : ∀ i, (req i).IsQuiet)
    (hkeys : KeysDistinct req) :
    Compatible postgres (fun i ↦ contract steppedSetting (req i) (env i)) Write.locks :=
  compatible fun i j hij ↦
    { exclusive := id
      fresh := fun _ m n heq ↦ hij (hids.distinct i j m n heq).1
      ownKey := fun _ n ↦ hids.keys i j n
      otherKey := fun _ n ↦ hids.keys j i n
      quiet := fun _ ↦ hquiet j
      keys := fun _ _ ↦ hkeys i j hij
      copies := fun hS ↦ by cases hS }

variable [DecidableEq ι]

/-- When all requests have ended by themselves, the database and all outcomes are those of serving
the requests one after the other in some order. -/
theorem money_operations_serializable (hd : Reachable d) (hids : FreshIds req env)
    (hunused : ∀ i, (env i).Unused d) (hreq : ∀ i, LocksMoney (req i)) (hkeys : KeysDistinct req)
    (hdone : ∀ i, ((postgres.run (serve req env d) (es.map .step)).outcome i).isSome) :
    ∃ order : List ι, order.Nodup ∧ (∀ i, i ∈ order) ∧
      (postgres.serial (fun i ↦ (req i).script (env i)) order d).2 =
        (postgres.run (serve req env d) (es.map .step)).db ∧
      ∀ i out, (postgres.run (serve req env d) (es.map .step)).outcome i = some out →
        (i, out) ∈ (postgres.serial (fun i ↦ (req i).script (env i)) order d).1 := by
  have hwf := wellFormed_of_reachable hd
  have hwp := fun i ↦ script_wp (suits_of_locksMoney (hreq i) (hunused i) hwf)
  have hC := compatible_stepped hids (fun i ↦ isQuiet_of_locksMoney (hreq i)) hkeys
  obtain ⟨order, hnodup, hall, hdb, houtcome⟩ := serializable hC (fun _ ↦ trivial) hwp
    (.of_forall fun i ↦ allow_of_locksMoney (hreq i)) fun i ↦ by
      obtain ⟨out, hout⟩ := Option.isSome_iff_exists.1 (hdone i)
      exact ⟨out, Sys.outcome_eq_some.1 hout⟩
  exact ⟨order, hnodup, hall, hdb, fun i out hout ↦ houtcome i out (Sys.outcome_eq_some.1 hout)⟩

end Runs

/-- A payment and a second debt of Ana. -/
def mingling : Fin 2 → Request
  | 0 => .registerPayment 1 2 (paymentOf60 100 12)
  | 1 => .registerDebt 1 2 (debtOf100 100 13)

theorem freshIds_mingling : FreshIds mingling laterEnv := freshIds_later (by decide) (by decide)

/-- Both look up their keys before either locks the customer. -/
def minglingOrder : List (Fin 2) := [0, 1, 0, 1] ++ List.replicate 12 0 ++ List.replicate 12 1

theorem keysDistinct_mingling : KeysDistinct mingling := by
  unfold KeysDistinct
  decide

theorem money_operations_serializable_mingling :
    ∃ order : List (Fin 2), order.Nodup ∧ (∀ i, i ∈ order) ∧
      (postgres.serial (fun i ↦ (mingling i).script (laterEnv i)) order owing).2 =
        (postgres.run (serve mingling laterEnv owing) (minglingOrder.map .step)).db ∧
      ∀ i out, (postgres.run (serve mingling laterEnv owing)
          (minglingOrder.map .step)).outcome i = some out →
        (i, out) ∈ (postgres.serial (fun i ↦ (mingling i).script (laterEnv i)) order owing).1 :=
  money_operations_serializable reachable_owing freshIds_mingling (unused_owing (by decide))
    (fun i ↦ match i with
      | 0 => trivial
      | 1 => trivial)
    keysDistinct_mingling (by decide +kernel)

end MicroErp.Guarantees
