import MicroErp.Commits.Runs

/-!
# What a success answer says

A request with a key is answered from the ledger row under that key, whether it wrote the row or
found it.  Only a request whose look-up found nothing is sure to be answered with what it asked
for; the look-up compares the tenant and the key alone.
-/

namespace MicroErp.Guarantees

open MicroErp.Commits MicroErp.Concurrency MicroErp.Database MicroErp.Services MicroErp.Storage

/-- The answer is the row under the key of the request, or the legs of its group. -/
def Stored (req : Request) : Answer → Db → Prop
  | .transaction t, d => Recorded req t d
  | .mixed rows, d => ∃ slot ∈ req.transactionKey,
      mixedCores d slot.1 slot.2 = some (rows.cash.toCore, rows.transfer.toCore)
  | _, _ => False

/-- The answer is what was asked for. -/
def Reports (req : Request) : Answer → Prop
  | .transaction t => Fulfils t req
  | .mixed rows => FulfilsMixed rows req
  | _ => False

/-- A request with a transaction key answers transactions. -/
theorem answer_of_key {S : Setting} {req : Request} {env : Env} {a : Answer} {d : Db}
    (h : Answered S req env a d) (hkey : req.transactionKey.isSome) :
    (∃ t, a = .transaction t) ∨ ∃ rows, a = .mixed rows := by
  cases a with
  | transaction t => exact Or.inl ⟨t, rfl⟩
  | mixed rows => exact Or.inr ⟨rows, rfl⟩
  | inflation result =>
    obtain ⟨b, -, hbatch, -⟩ := h
    cases req <;> first | cases hbatch | cases hkey
  | _ => exact absurd hkey (by simp [show req.transactionKey = none from h])

section Runs

variable {ι : Type} [DecidableEq ι] {req : ι → Request} {env : ι → Env} {d : Db}
  {es : List (Event ι)}

/-- The look-up of session `i` finds nothing under its key. -/
def FindsNothing (i j : ι) : Sql → Db → Bool
  | .findTransactionByKey tenantId key, v => j = i → v.transactionByKey tenantId key = none
  | _, _ => true

theorem answered_of_run {S : Setting} (hids : FreshIds req env) (hd : Reachable d)
    (hunused : ∀ i, (env i).Unused d) (hexclusive : ¬S.exclusive) (hquiet : ¬S.quiet)
    (hcopies : S.copiesOn = none)
    (hmeets : postgres.Meets (fun i ↦ S.allow (req i) (env i)) (serve req env d) es) {i : ι}
    {a : Answer} (hanswer : (postgres.run (serve req env d) es).outcome i = some (.ok a)) :
    Answered S (req i) (env i) a (postgres.run (serve req env d) es).db := by
  obtain ⟨hC, hsound⟩ := sound_free (S := S) hids hunused (wellFormed_of_reachable hd) hexclusive
    hquiet hcopies
  exact (hsound.run hC hmeets).answered (Sys.outcome_eq_some.1 hanswer) _ Rely.refl

/-- A success answer is what the ledger has under the key of the request, and what was asked for
if the look-up of the key found nothing. -/
theorem success_reports_ledger (hids : FreshIds req env) (hd : Reachable d)
    (hunused : ∀ i, (env i).Unused d) {i : ι} {a : Answer} (hkey : (req i).transactionKey.isSome)
    (hanswer : (postgres.run (serve req env d) es).outcome i = some (.ok a)) :
    Stored (req i) a (postgres.run (serve req env d) es).db ∧
      (postgres.Meets (fun j o v ↦ FindsNothing i j o v) (serve req env d) es → Reports (req i) a) := by
  constructor
  · have hanswered := answered_of_run (S := .plain) hids hd hunused id id rfl
      (.of_forall fun i ↦ allow_plain (req i) (env i)) hanswer
    rcases answer_of_key hanswered hkey with ⟨t, rfl⟩ | ⟨rows, rfl⟩
    · exact hanswered.1
    · exact (hanswered trivial).1
  · intro hmeets
    let S : Setting := { Setting.plain with keyUnused := fun e ↦ e = env i }
    have hallow : postgres.Meets (fun j ↦ S.allow (req j) (env j)) (serve req env d) es :=
      hmeets.mono fun j o v h ↦ by
        cases o with
        | findTransactionByKey tenantId key =>
          intro henv
          have henv : env j = env i := henv
          exact of_decide_eq_true h (hids.distinct j i 0 0 (by rw [henv])).1
        | lockCustomer => exact ⟨False.elim, fun hS ↦ by cases hS⟩
        | findTransaction => exact fun hS ↦ by cases hS
        | rereadTransaction | rereadCustomer => exact False.elim
        | _ => trivial
    have hanswered := answered_of_run (S := S) hids hd hunused id id rfl hallow hanswer
    rcases answer_of_key hanswered hkey with ⟨t, rfl⟩ | ⟨rows, rfl⟩
    · exact hanswered.2 rfl
    · exact (hanswered trivial).2 rfl

end Runs

/-! ## A payment answered with a debt -/

/-- Beto pays under the key of Ana's debt. -/
def reusing (_ : Fin 1) : Request := .registerPayment 1 2 (paymentOf60 101 7)

/-- The payment succeeds with the debt of the other customer and changes nothing. -/
theorem payment_answered_with_debt :
    let s := postgres.run (serve reusing laterEnv owing) (turns 0 5)
    (∃ t ∈ owing.transactions.rows, s.outcome 0 = some (.ok (.transaction t)) ∧
        t.type = .DEBT ∧ t.customer_id = 100) ∧ s.db = owing := by
  decide +kernel

/-- Ana pays under a new key. -/
def paying (_ : Fin 1) : Request := .registerPayment 1 2 (paymentOf60 100 12)

theorem freshIds_paying : FreshIds paying laterEnv := freshIds_later (by decide) (by decide)

/-- Her answer is stored, and it is the payment. -/
theorem success_reports_ledger_payment :
    let answer : Answer := .transaction (paymentRow (laterEnv (0 : Fin 1)) 1 2 (paymentOf60 100 12) 60)
    Stored (paying 0) answer (postgres.run (serve paying laterEnv owing) (turns 0 12)).db ∧
      Reports (paying 0) answer := by
  have hanswer : (postgres.run (serve paying laterEnv owing) (turns 0 12)).outcome 0 =
      some (.ok (.transaction (paymentRow (laterEnv (0 : Fin 1)) 1 2 (paymentOf60 100 12) 60))) := by
    decide +kernel
  have hreports := success_reports_ledger freshIds_paying reachable_owing (unused_owing (by decide))
    rfl hanswer
  exact ⟨hreports.1, hreports.2 (by decide +kernel)⟩

end MicroErp.Guarantees
