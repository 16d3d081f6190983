import MicroErp.Commits.CashRegister
import MicroErp.Commits.Cron
import MicroErp.Commits.Inflation
import MicroErp.Commits.Merge
import MicroErp.Commits.Reversals
import MicroErp.Commits.Transactions

/-!
# Runs of the service

Every request meets its contract, so every run of any requests does.
-/

namespace MicroErp.Commits

open MicroErp.Concurrency MicroErp.Database MicroErp.Services MicroErp.Storage

/-- What a setting needs of the requests and of the database they start from. -/
structure Suits (S : Setting) (req : Request) (env : Env) (d : Db) : Prop where
  unused : S.fresh → env.Unused d
  wellFormed : S.fresh → d.WellFormed
  fresh : S.quiet → S.fresh
  isQuiet : S.quiet → req.IsQuiet
  step : S.quiet → S.checked ∨ S.copiesOn.isSome
  who : ∀ who, S.copiesOn = some who → req.LocksOnly who d

theorem script_wp {S : Setting} {req : Request} {env : Env} {d : Db} (h : Suits S req env d) :
    postgres.wp (contract S req env) (req.script env) [] [] d := by
  cases req with
  | registerDebt => exact registerDebt_wp h.unused h.who
  | registerPayment => exact registerPayment_wp h.unused h.who
  | registerMixedPayment => exact registerMixedPayment_wp h.unused h.wellFormed h.fresh h.who
  | reverseTransaction => exact reverseTransaction_wp h.unused h.step h.who
  | forgiveDebt => exact forgiveDebt_wp h.unused h.who
  | applyInflationAdjustment => exact applyInflationAdjustment_wp h.unused h.who
  | createCustomer => exact createCustomer_wp h.unused h.isQuiet
  | updateCustomer => exact updateCustomer_wp h.unused h.isQuiet
  | updateCreditLimit => exact updateCreditLimit_wp h.unused h.who
  | toggleBlock => exact toggleBlock_wp h.unused h.isQuiet
  | updatePromise => exact updatePromise_wp h.unused h.isQuiet
  | mergeCustomers => exact mergeCustomers_wp h.unused h.who
  | openTurn => exact openTurn_wp h.unused h.isQuiet
  | closeTurn => exact closeTurn_wp h.unused h.isQuiet
  | updateSettings => exact updateSettings_wp h.unused h.isQuiet
  | processPayment => exact processPayment_wp h.unused h.isQuiet
  | processSaaSExpirations => exact processSaaSExpirations_wp h.unused h.isQuiet
  | processOverdueCustomers => exact processOverdueCustomers_wp h.unused h.isQuiet
  | processAutoBlocks => exact blockCustomers_wp trivial h.unused h.isQuiet
  | processAutoBlockOnLimit => exact blockCustomers_wp trivial h.unused h.isQuiet

/-! ## Interleaved sessions -/

section Sessions

variable {ι : Type} {S : Setting} {req : ι → Request} {env : ι → Env} {d : Db}

theorem apart_of_freshIds (h : FreshIds req env) (hexclusive : ¬S.exclusive) (hquiet : ¬S.quiet)
    (hcopies : S.copiesOn = none) {i j : ι} (hij : i ≠ j) :
    Apart S (req i) (env i) (req j) (env j) where
  exclusive := hexclusive
  fresh _ m n heq := hij (h.distinct i j m n heq).1
  ownKey _ n := h.keys i j n
  otherKey hS := (hquiet hS).elim
  quiet hS := (hquiet hS).elim
  keys hS := (hquiet hS).elim
  copies hS := by simp [hcopies] at hS

/-- A setting in which sessions need not stay in step with a run alone suits every request. -/
theorem suits_of_freshIds (hunused : ∀ i, (env i).Unused d) (hwf : d.WellFormed)
    (hquiet : ¬S.quiet) (hcopies : S.copiesOn = none) (i : ι) : Suits S (req i) (env i) d where
  unused _ := hunused i
  wellFormed _ := hwf
  fresh hS := (hquiet hS).elim
  isQuiet hS := (hquiet hS).elim
  step hS := (hquiet hS).elim
  who who hwho := by simp [hcopies] at hwho

variable [DecidableEq ι]

theorem sound_serve (hsuits : ∀ i, Suits S (req i) (env i) d) :
    Sound postgres (fun i ↦ contract S (req i) (env i)) Write.locks (serve req env d) :=
  Sound.start fun i ↦ script_wp (hsuits i)

end Sessions

/-! ## Reachable databases -/

theorem wellFormed_opened (tenants : Table Tenant) : (Db.opened tenants).WellFormed where
  keys := List.nodup_nil
  batchKeys := List.nodup_nil
  groups _ h := (List.not_mem_nil h).elim

theorem unused_opened (env : Env) (tenants : Table Tenant) : env.Unused (Db.opened tenants) :=
  fun _ h ↦ (List.not_mem_nil h).elim

/-- Any requests may start together on a database that is not torn. -/
theorem sound_free {ι : Type} [DecidableEq ι] {S : Setting} {req : ι → Request} {env : ι → Env}
    {d : Db} (hids : FreshIds req env) (hunused : ∀ i, (env i).Unused d) (hwf : d.WellFormed)
    (hexclusive : ¬S.exclusive) (hquiet : ¬S.quiet) (hcopies : S.copiesOn = none) :
    Compatible postgres (fun i ↦ contract S (req i) (env i)) Write.locks ∧
      Sound postgres (fun i ↦ contract S (req i) (env i)) Write.locks (serve req env d) :=
  ⟨compatible fun _ _ hij ↦ apart_of_freshIds hids hexclusive hquiet hcopies hij,
    sound_serve fun i ↦ suits_of_freshIds hunused hwf hquiet hcopies i⟩

theorem sound_opened {ι : Type} [DecidableEq ι] {S : Setting} {req : ι → Request} {env : ι → Env}
    (hids : FreshIds req env) (hexclusive : ¬S.exclusive) (hquiet : ¬S.quiet)
    (hcopies : S.copiesOn = none) (tenants : Table Tenant) :
    Compatible postgres (fun i ↦ contract S (req i) (env i)) Write.locks ∧
      Sound postgres (fun i ↦ contract S (req i) (env i)) Write.locks
        (serve req env (Db.opened tenants)) :=
  sound_free hids (fun i ↦ unused_opened (env i) tenants) (wellFormed_opened tenants) hexclusive
    hquiet hcopies

theorem allow_plain (req : Request) (env : Env) (o : Sql) (v : Db) :
    Setting.plain.allow req env o v := by
  cases o <;> simp [Setting.allow, Setting.plain]

theorem wellFormed_of_reachable {d : Db} (h : Reachable d) : d.WellFormed := by
  obtain ⟨ι, _, req, env, tenants, es, hids, rfl⟩ := h
  obtain ⟨hC, hsound⟩ := sound_opened (S := .plain) hids False.elim False.elim rfl tenants
  refine hsound.history hC (J := fun d _ ↦ d.WellFormed)
    (.of_forall fun i ↦ allow_plain (req i) (env i)) (wellFormed_opened tenants)
    fun i lk ws d log hJ hguar _ ↦ ?_
  rcases hguar with ⟨rfl, -⟩ | ⟨e, hcommit⟩
  · exact hJ
  · exact hcommit.wellFormed trivial hJ

/-- An event of a run leaves the database as it is, or a session commits an effect under the locks
it holds. -/
theorem commit_of_event {ι : Type} [DecidableEq ι] {req : ι → Request} {env : ι → Env} {d : Db}
    (hids : FreshIds req env) (hd : Reachable d) (hunused : ∀ i, (env i).Unused d)
    (es : List (Event ι)) (e : Event ι) :
    (postgres.run (serve req env d) (es ++ [e])).db = (postgres.run (serve req env d) es).db ∨
      ∃ i effect, e = .step i ∧ Commit .plain (req i) (env i)
        ((postgres.run (serve req env d) es).locksOf i) (postgres.run (serve req env d) es).db
        (postgres.run (serve req env d) (es ++ [e])).db effect := by
  obtain ⟨hC, hsound⟩ := sound_free (S := .plain) hids hunused (wellFormed_of_reachable hd)
    False.elim False.elim rfl
  have hsound' : Sound postgres (fun i ↦ contract .plain (req i) (env i)) Write.locks
      (postgres.run (serve req env d) es) :=
    hsound.run hC (.of_forall fun i ↦ allow_plain (req i) (env i))
  have hmove := postgres.step_move (postgres.run (serve req env d) es) e
  rw [Engine.run_append]
  rcases hsound'.commit_of_move hC hmove with ⟨hdb, -⟩ | ⟨i, ws, he, hguar, -, hdb, -⟩
  · exact Or.inl hdb
  · rcases hguar with ⟨rfl, -⟩ | ⟨effect, hcommit⟩
    · exact Or.inl hdb
    · right
      refine ⟨i, effect, he, ?_⟩
      rw [← hdb] at hcommit
      exact hcommit

/-! ## One request alone -/

/-- A request served alone leaves the database as it was or commits one effect. -/
theorem alone_contract {S : Setting} {req : Request} {env : Env} {d d' : Db}
    {out : Except ServiceError Answer} (hsuits : Suits S req env d)
    (hallow : ∀ o v, S.allow req env o v)
    (hrun : postgres.alone (req.script env) [] d = (out, d')) :
    (d' = d ∨ ∃ lk e, Commit S req env lk d d' e) ∧
      ∀ a, out = .ok a → ∀ d'', Rely S req env [] d' d'' → Answered S req env a d'' := by
  obtain ⟨hdb, hanswer⟩ := Engine.alone_of_wp Write.locks (fun h ↦ Sql.locks_of_exec h)
    (fun _ _ ↦ Rely.refl) hallow (script_wp hsuits) (fun _ h ↦ (List.not_mem_nil h).elim) hrun
  refine ⟨?_, hanswer⟩
  rcases hdb with rfl | ⟨lk, ws, hguar, -, rfl⟩
  · exact Or.inl rfl
  · rcases hguar with ⟨rfl, -⟩ | ⟨e, hcommit⟩
    · exact Or.inl rfl
    · exact Or.inr ⟨lk, e, hcommit⟩

/-- A request that writes whenever it commits has committed an effect when it answers. -/
theorem commit_of_alone {S : Setting} {req : Request} {env : Env} {d d' : Db} {a : Answer}
    (hsuits : Suits S req env d) (hallow : ∀ o v, S.allow req env o v) (hidle : ¬req.MayIdle)
    (hcommitting : (req.script env).Committing)
    (hrun : postgres.alone (req.script env) [] d = (.ok a, d')) :
    ∃ lk e, Commit S req env lk d d' e := by
  obtain ⟨lk, ws, hguar, -, rfl⟩ := Engine.commit_of_alone Write.locks
    (fun h ↦ Sql.locks_of_exec h) (fun _ _ ↦ Rely.refl) hallow hcommitting (script_wp hsuits)
    (fun _ h ↦ (List.not_mem_nil h).elim) hrun
  rcases hguar with ⟨-, hmay⟩ | ⟨e, hcommit⟩
  · exact (hidle hmay).elim
  · exact ⟨lk, e, hcommit⟩

/-- A request served alone leaves the identifiers of the others unused. -/
theorem unused_alone {ι : Type} {req : ι → Request} {env : ι → Env} {d d' : Db}
    {out : Except ServiceError Answer} (hids : FreshIds req env) (hwf : d.WellFormed) {i : ι}
    (hunused : (env i).Unused d) (hrun : postgres.alone ((req i).script (env i)) [] d = (out, d')) :
    d'.WellFormed ∧ ∀ j, i ≠ j → (env j).Unused d → (env j).Unused d' := by
  have hsuits : Suits .plain (req i) (env i) d :=
    ⟨fun _ ↦ hunused, fun _ ↦ hwf, False.elim, False.elim, False.elim, fun _ h ↦ by cases h⟩
  rcases (alone_contract hsuits (allow_plain _ _) hrun).1 with rfl | ⟨lk, e, hcommit⟩
  · exact ⟨hwf, fun _ _ h ↦ h⟩
  · exact ⟨hcommit.wellFormed trivial hwf, fun j hij hj ↦ hcommit.unused_other
      (apart_of_freshIds hids id id rfl hij.symm) trivial hj⟩

/-! ## A small service

One tenant and environments with identifiers of their own, for evaluating runs. -/

def sampleTenants : Table Tenant :=
  Table.empty.insert
    { id := 1, tenant_name := "Kiosco", subscription_plan := "FREE", subscription_expires_at := none,
      status := .ACTIVE, mp_subscription_id := none, settings := [], active_cash_shift_id := none,
      created_at := 0 }

def sampleEnv (i : ℕ) : Env where
  now := i
  clock := i
  fresh n := 100 * (n + 1) + i
  scan := id
  scan_perm _ := .refl _
  numberText _ := ""

/-- Keys below 100 are never generated. -/
theorem freshIds_sample {ι : Type} {n : ι → ℕ} (hn : Function.Injective n) (hlt : ∀ i, n i < 100)
    {req : ι → Request} (hkeys : ∀ j, ∀ slot ∈ (req j).transactionKey, slot.2 < 100) :
    FreshIds req fun i ↦ sampleEnv (n i) where
  distinct i j m m' h := by
    have heq : 100 * (m + 1) + n i = 100 * (m' + 1) + n j := h
    have hi := hlt i
    have hj := hlt j
    exact ⟨hn (by omega), by omega⟩
  keys i j m slot hslot h := by
    have hsmall := hkeys j slot hslot
    rw [h] at hsmall
    exact absurd (show 100 * (m + 1) + n i < 100 from hsmall) (by omega)

theorem unused_sample {i : ℕ} (hi : i < 100) {d : Db} (h : ∀ t ∈ d.transactions.rows,
      t.id % 100 ≠ i ∧ t.idempotency_key % 100 ≠ i ∧ ∀ g ∈ t.reference_group_id, g % 100 ≠ i) :
    (sampleEnv i).Unused d := by
  have hfresh : ∀ n, (sampleEnv i).fresh n % 100 = i := fun n ↦
    (Nat.mul_add_mod 100 (n + 1) i).trans (Nat.mod_eq_of_lt hi)
  intro t ht n
  obtain ⟨hid, hkey, hgroup⟩ := h t ht
  exact ⟨fun heq ↦ hid (heq ▸ hfresh n), fun heq ↦ hkey (heq ▸ hfresh n),
    fun heq ↦ hgroup _ heq (hfresh n)⟩

/-- Session `i` takes `n` steps. -/
def turns {k : ℕ} (i : Fin k) (n : ℕ) : List (Event (Fin k)) := List.replicate n (.step i)

/-- One after the other, the sessions with these numbers take so many steps. -/
def inTurn {k : ℕ} (order : List (ℕ × ℕ)) : List (Event (Fin k)) :=
  order.flatMap fun x ↦ if h : x.1 < k then turns ⟨x.1, h⟩ x.2 else []

def ana : CreateCustomerDto :=
  { full_name := "Ana", phone := none, dni := none, credit_limit_cents := some 1000,
    idempotency_key := none }

def beto : CreateCustomerDto :=
  { full_name := "Beto", phone := none, dni := none, credit_limit_cents := some 500,
    idempotency_key := none }

def debtOf100 (customerId key : Uuid) : CreateTransactionDto :=
  { customer_id := customerId, amount_cents := 100, description := none, idempotency_key := key }

def paymentOf60 (customerId key : Uuid) : CreatePaymentDto :=
  { customer_id := customerId, amount_cents := 60, description := none, idempotency_key := key,
    payment_method := none }

def carla : CreateCustomerDto :=
  { full_name := "Carla", phone := none, dni := none, credit_limit_cents := some maxAmountCents,
    idempotency_key := none }

def largestDebt (customerId key : Uuid) : CreateTransactionDto :=
  { customer_id := customerId, amount_cents := maxAmountCents, description := none,
    idempotency_key := key }

def largestTransfer (customerId key : Uuid) : CreatePaymentDto :=
  { customer_id := customerId, amount_cents := maxAmountCents, description := none,
    idempotency_key := key, payment_method := some .TRANSFER }

def reversalUnder (key : Uuid) : ReverseTransactionDto :=
  { idempotency_key := key, description := some "Anulada" }

def openingTurn : OpenTurnDto := { opening_cash_cents := none }

def closingTurn : CloseTurnDto := { actual_cash_cents := 60, note := none }

def closingEmpty : CloseTurnDto := { actual_cash_cents := 0, note := none }

/-- Two customers, and a debt of the first one. -/
def opening : Fin 3 → Request
  | 0 => .createCustomer 1 ana
  | 1 => .createCustomer 1 beto
  | 2 => .registerDebt 1 2 (debtOf100 100 7)

/-- Customers 100 and 101, and debt 102 of the first one. -/
def owing : Db :=
  (postgres.run (serve opening (fun i ↦ sampleEnv i) (Db.opened sampleTenants))
    (turns 0 10 ++ turns 1 10 ++ turns 2 12)).db

theorem reachable_owing : Reachable owing :=
  ⟨Fin 3, inferInstance, opening, fun i ↦ sampleEnv i, sampleTenants, _,
    freshIds_sample Fin.val_injective (by decide) (by decide), rfl⟩

/-- The environments of the requests that come after these. -/
def laterEnv {k : ℕ} (i : Fin k) : Env := sampleEnv (10 + i)

theorem freshIds_later {k : ℕ} (hk : k ≤ 90) {req : Fin k → Request}
    (hkeys : ∀ j, ∀ slot ∈ (req j).transactionKey, slot.2 < 100) : FreshIds req laterEnv :=
  freshIds_sample (n := fun i : Fin k ↦ 10 + i) (fun i j h ↦ Fin.ext (Nat.add_left_cancel h))
    (fun i ↦ by omega) hkeys

theorem unused_owing {k : ℕ} (hk : k ≤ 90) (i : Fin k) : (laterEnv i).Unused owing := by
  have hrows : ∀ t ∈ owing.transactions.rows, t.id % 100 < 10 ∧ t.idempotency_key % 100 < 10 ∧
      t.reference_group_id = none := by decide +kernel
  refine unused_sample (by omega) fun t ht ↦ ?_
  obtain ⟨hid, hkey, hgroup⟩ := hrows t ht
  exact ⟨(lt_of_lt_of_le hid (Nat.le_add_right _ _)).ne,
    (lt_of_lt_of_le hkey (Nat.le_add_right _ _)).ne, by simp [hgroup]⟩

end MicroErp.Commits
