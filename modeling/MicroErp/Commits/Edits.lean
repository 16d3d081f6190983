import MicroErp.Commits.Runs
import MicroErp.Concurrency.Outline

/-!
# What edits and bulk updates write

`contract` leaves open which columns an edit changes and whom a bulk update flags.  A second
contract says it, as far as the save of an edit reads again what the edit loaded, and each row that
is marked as overdue still owes money.
-/

namespace MicroErp.Commits

open MicroErp.Concurrency MicroErp.Database MicroErp.Services MicroErp.Storage

/-- What is assumed of the statements of edits and bulk updates. -/
structure Watch where
  /-- What the save of the entity in memory finds when it reads the customer again. -/
  rereads : Request → Customer → Customer → Prop
  /-- Assigning the body of an update does not matter to it. -/
  assigned : ∀ {req : Request} {loaded reread : Customer} (dto : UpdateCustomerDto),
    rereads req loaded reread → rereads req ((assignCustomer loaded dto).compared reread) reread
  /-- Whether a customer that is marked as overdue still has a balance. -/
  owing : Prop

/-- What an edit makes of the customer it loaded, as its save compares it with the row that is read
again. -/
def editedBy : Request → Customer → Customer → Customer
  | .updateCustomer _ _ dto, c, reread => (assignCustomer c dto).compared reread
  | .toggleBlock _ _, c, _ => { c with is_active := !c.is_active }
  | .updatePromise _ _ dto, c, _ => { c with next_payment_promise := dto.next_payment_promise }
  | _, c, _ => c

/-- The entity that an edit saves. -/
def EditOf (req : Request) (mem reread : Customer) : Prop :=
  ∃ loaded, req.editedId = some (loaded.tenant_id, loaded.id) ∧ mem = editedBy req loaded reread

theorem editedBy_id (req : Request) (c reread : Customer) : (editedBy req c reread).id = c.id := by
  cases req <;> rfl

def Watch.allow (W : Watch) (req : Request) : Sql → Db → Prop
  | .rereadCustomer mem, v => req.IsEdit → ∀ c ∈ v.customers.find mem.id, W.rereads req mem c
  | .markOverdue id, v => W.owing → ∀ c ∈ v.customers.find id, 0 < c.balance_cents
  | _, _ => True

/-- What an edit or a bulk update writes to `d`. -/
def Gentle (W : Watch) (req : Request) (d : Db) : Write → Prop
  | .updateCustomer mem reread => EditOf req mem reread ∧ W.rereads req mem reread
  | .markOverdue id =>
      req.IsFlagging ∧ (W.owing → ∀ c ∈ d.customers.find id, 0 < c.balance_cents)
  | .blockCustomer _ => req.IsFlagging
  | _ => False

/-- Edits save a customer, and bulk updates set a flag. -/
theorem gentle_cases {W : Watch} {req : Request} {d : Db} {w : Write} (h : Gentle W req d w) :
    (∃ mem reread, w = .updateCustomer mem reread) ∨ ∃ flag id, w = Flag.write flag id := by
  cases w with
  | updateCustomer mem reread => exact Or.inl ⟨mem, reread, rfl⟩
  | markOverdue id => exact Or.inr ⟨.overdue, id, rfl⟩
  | blockCustomer id => exact Or.inr ⟨.blocked, id, rfl⟩
  | _ => exact h.elim

def watchContract (W : Watch) (req : Request) : Contract Sql Db Write LockName Answer where
  rely lk d d' := ∀ id m, (.customer id, m) ∈ lk → m ≠ .keyShare →
    d'.customers.find id = d.customers.find id
  allow := W.allow req
  guar _ ws d := req.IsEdit ∨ req.IsFlagging → ∀ w ∈ ws, Gentle W req d w
  post _ _ := True
  tracked := False

/-! ## The statements of an edit -/

section Statements

variable {W : Watch} {req : Request} {env : Env} {d d' : Db} {tenantId customerId : Uuid}
  {ws : List Write} {lk : List (LockName × LockMode)} {α : Type}

/-- The statements of edits and bulk updates. -/
def Watched (W : Watch) (req : Request) : Sql → Prop
  | .updateCustomer mem reread => EditOf req mem reread ∧ W.rereads req mem reread
  | .markOverdue _ => req.IsFlagging
  | .blockCustomer _ _ => req.IsFlagging
  | o => o.write = none

def Rereads (W : Watch) (req : Request) : (o : Sql) → o.Ans → Prop
  | .rereadCustomer mem, r => req.IsEdit → ∀ c ∈ r, W.rereads req mem c
  | .findCustomer tenantId id, r => ∀ c ∈ r, (tenantId, id) = (c.tenant_id, c.id)
  | _, _ => True

/-- The program issues nothing but such statements. -/
abbrev Watches (W : Watch) (req : Request) (p : Script α) (Q : α → Prop) : Prop :=
  p.Safe (Watched W req) (Rereads W req) Q

theorem saveCustomerAlone_watches {loaded mem : Customer}
    (hwho : req.editedId = some (loaded.tenant_id, loaded.id))
    (hmem : ∀ reread, mem = editedBy req loaded reread) :
    Watches W req (saveCustomerAlone mem) fun _ ↦ True := by
  simp only [saveCustomerAlone, saveCustomer, saveEntity_bind, query, Prog.issue_bind]
  refine ⟨rfl, fun row hrow ↦ ?_⟩
  cases row with
  | none => trivial
  | some reread =>
    simp only
    split
    · trivial
    · exact ⟨⟨⟨loaded, hwho, hmem reread⟩, hrow (Request.isEdit_of_editedId hwho) reread rfl⟩,
        fun _ _ ↦ trivial⟩

theorem saveAssignedAlone_watches {loaded : Customer} {dto : UpdateCustomerDto}
    (hreq : req = .updateCustomer loaded.tenant_id loaded.id dto) :
    Watches W req (saveAssignedAlone (assignCustomer loaded dto)) fun _ ↦ True := by
  subst hreq
  simp only [saveAssignedAlone, query, Prog.issue_bind]
  refine ⟨rfl, fun row hrow ↦ ?_⟩
  cases row with
  | none => trivial
  | some reread =>
    simp only
    split
    · trivial
    · exact ⟨⟨⟨loaded, rfl, rfl⟩, W.assigned dto (hrow trivial reread rfl)⟩, fun _ _ ↦ trivial⟩

theorem findCustomerOrFail_watches {f : Customer → Script α}
    (hf : ∀ c, (tenantId, customerId) = (c.tenant_id, c.id) → Watches W req (f c) fun _ ↦ True) :
    Watches W req (findCustomerOrFail tenantId customerId >>= f) fun _ ↦ True := by
  simp only [findCustomerOrFail, query, Prog.issue_bind, Prog.stmt_bind]
  refine ⟨rfl, fun row hrow ↦ ?_⟩
  cases row with
  | none => trivial
  | some c => exact hf c (hrow c rfl)

theorem rejectDuplicate_watches {value : Option String} {find : String → Script (Option Customer)}
    {message : String} {f : Unit → Script α} (hfind : ∀ v, (find v).Body (Watched W req))
    (hf : Watches W req (f ()) fun _ ↦ True) :
    Watches W req (rejectDuplicate value find message >>= f) fun _ ↦ True := by
  refine Prog.Safe.bind (Q := fun _ ↦ True) ?_ fun _ _ ↦ hf
  cases value with
  | none => trivial
  | some v =>
    refine (Prog.safe_of_body (hfind v)).bind fun row _ ↦ ?_
    cases row <;> trivial

theorem edit_watches (hedit : req.IsEdit) :
    Watches W req (req.script env) fun _ ↦ True := by
  cases req with
  | updateCustomer tenantId customerId dto =>
    simp only [Request.script, Services.updateCustomer, Prog.bind_assoc]
    refine findCustomerOrFail_watches fun c hwho ↦ ?_
    obtain ⟨rfl, rfl⟩ := Prod.mk.inj hwho
    refine rejectDuplicate_watches (fun _ ↦ ⟨rfl, fun _ ↦ trivial⟩) ?_
    refine rejectDuplicate_watches (fun _ ↦ ⟨rfl, fun _ ↦ trivial⟩) ?_
    refine rejectDuplicate_watches (fun _ ↦ ⟨rfl, fun _ ↦ trivial⟩) ?_
    rw [Prog.ite_bind]
    split
    · trivial
    · exact (saveAssignedAlone_watches rfl).bind fun _ _ ↦ trivial
  | toggleBlock tenantId customerId =>
    simp only [Request.script, Services.toggleBlock, Prog.bind_assoc]
    refine findCustomerOrFail_watches fun c hwho ↦ ?_
    obtain ⟨rfl, rfl⟩ := Prod.mk.inj hwho
    exact (saveCustomerAlone_watches rfl fun _ ↦ rfl).bind fun _ _ ↦ trivial
  | updatePromise tenantId customerId dto =>
    simp only [Request.script, Services.updatePromise, Prog.bind_assoc]
    refine findCustomerOrFail_watches fun c hwho ↦ ?_
    obtain ⟨rfl, rfl⟩ := Prod.mk.inj hwho
    exact (saveCustomerAlone_watches rfl fun _ ↦ rfl).bind fun _ _ ↦ trivial
  | _ => exact hedit.elim

/-! ## The statements of a bulk update -/

theorem markCustomers_watches (hflag : req.IsFlagging) (ids : List Uuid) :
    (markCustomers ids).Body (Watched W req) := by
  induction ids with
  | nil => trivial
  | cons id ids ih => exact ⟨hflag, fun _ ↦ ih⟩

theorem blockEach_watches (hflag : req.IsFlagging) (rule : BlockRule) (ids : List Uuid) :
    (blockEach rule ids).Body (Watched W req) := by
  induction ids with
  | nil => trivial
  | cons id ids ih => exact ⟨hflag, fun _ ↦ ih⟩

theorem blockCustomers_watches (hflag : req.IsFlagging) (rule : BlockRule) :
    Watches W req (blockCustomers env rule >>= fun _ ↦ pure Answer.done) fun _ ↦ True := by
  simp only [blockCustomers, query, Prog.issue_bind, Prog.stmt_bind, Prog.bind_assoc]
  refine ⟨rfl, fun ids _ ↦ ?_⟩
  exact (Prog.safe_of_body (blockEach_watches hflag rule (env.scan ids))).bind fun _ _ ↦ trivial

theorem flagging_watches (hflag : req.IsFlagging) :
    Watches W req (req.script env) fun _ ↦ True := by
  cases req with
  | processOverdueCustomers today =>
    simp only [Request.script, Services.processOverdueCustomers, query, Prog.issue_bind,
      Prog.stmt_bind, Prog.ite_bind, Prog.bind_assoc]
    refine ⟨rfl, fun ids _ ↦ ?_⟩
    dsimp only
    split
    · trivial
    · exact (Prog.safe_of_body (markCustomers_watches hflag (env.scan ids))).bind fun _ _ ↦ trivial
  | processAutoBlocks tenantId cutoffDate => exact blockCustomers_watches hflag _
  | processAutoBlockOnLimit => exact blockCustomers_watches hflag _
  | _ => exact hflag.elim

/-! ## The contract -/

/-- A bulk update leaves the balances as they are. -/
theorem balance_view (h : ∀ w ∈ ws, Gentle W req d w) (hflag : req.IsFlagging) (v : Db) (id : Uuid) :
    ((postgres.view ws v).customers.find id).map (·.balance_cents) =
      (v.customers.find id).map (·.balance_cents) := by
  induction ws generalizing v with
  | nil => rfl
  | cons w ws ih =>
    have hw : ∃ flag id, w = Flag.write flag id := by
      refine (gentle_cases (h w List.mem_cons_self)).resolve_left ?_
      rintro ⟨mem, reread, rfl⟩
      obtain ⟨⟨loaded, hid, -⟩, -⟩ := h _ List.mem_cons_self
      cases req <;> first | exact hflag.elim | cases hid
    obtain ⟨flag, id', rfl⟩ := hw
    rw [Engine.view_cons, ih fun w hw ↦ h w (List.mem_cons_of_mem _ hw), postgres_write,
      find_flagWrite, Option.map_map]
    congr 1
    funext c
    simp only [Function.comp_apply]
    split
    · cases flag <;> rfl
    · rfl

theorem gentle_stable {w : Write} (hrely : (watchContract W req).rely lk d d')
    (hw : w.locks ⊆ lk) (h : Gentle W req d w) : Gentle W req d' w := by
  cases w with
  | markOverdue id =>
    refine ⟨h.1, fun howing c hc ↦ h.2 howing c ?_⟩
    have hlock : (LockName.customer id, LockMode.noKeyUpdate) ∈ lk := hw List.mem_cons_self
    rwa [← hrely id _ hlock (by decide)]
  | _ => exact h

theorem watched_exec {o : Sql} {r : o.Ans} {ws' : List Write}
    (hws : ∀ w ∈ ws, Gentle W req d w) (ho : Watched W req o)
    (hallow : W.allow req o (postgres.view ws d))
    (hexec : o.exec (postgres.view ws d) = .ok (r, ws')) :
    Rereads W req o r ∧ ∀ w ∈ ws', Gentle W req d w := by
  have hwrite := Sql.write_of_exec hexec
  cases o with
  | rereadCustomer mem =>
    obtain ⟨rfl, rfl⟩ := Prod.mk.inj (Except.ok.inj hexec)
    exact ⟨hallow, fun w hw ↦ (List.not_mem_nil hw).elim⟩
  | findCustomer tenantId id =>
    obtain ⟨rfl, rfl⟩ := Prod.mk.inj (Except.ok.inj hexec)
    refine ⟨fun c hc ↦ ?_, fun w hw ↦ (List.not_mem_nil hw).elim⟩
    obtain ⟨hfind, htenant⟩ := Option.filter_eq_some_iff.1 hc
    have hid : c.id = id := (Table.find_eq_some.1 hfind).2
    rw [hid, of_decide_eq_true htenant]
  | updateCustomer mem reread =>
    refine ⟨trivial, fun w hw ↦ ?_⟩
    obtain rfl := Option.some.inj (hwrite w hw)
    exact ho
  | blockCustomer rule id =>
    refine ⟨trivial, fun w hw ↦ ?_⟩
    obtain rfl := Option.some.inj (hwrite w hw)
    exact ho
  | markOverdue id =>
    refine ⟨trivial, fun w hw ↦ ?_⟩
    obtain rfl := Option.some.inj (hwrite w hw)
    refine ⟨ho, fun howing c hc ↦ ?_⟩
    have hbalance := balance_view hws ho d id
    rw [Option.mem_def.1 hc, Option.map_some, Option.map_eq_some_iff] at hbalance
    obtain ⟨c', hc', heq⟩ := hbalance
    rw [← heq]
    exact hallow howing c' hc'
  | _ =>
    refine ⟨trivial, fun w hw ↦ ?_⟩
    cases (show _ = none from ho).symm.trans (hwrite w hw)

/-- Every request meets both contracts. -/
theorem script_wp_watch {S : Setting} (W : Watch) (hsuits : Suits S req env d) :
    postgres.wp ((contract S req env).both (watchContract W req)) (req.script env) [] [] d := by
  by_cases hreq : req.IsEdit ∨ req.IsFlagging
  · have hwatches : Watches W req (req.script env) fun _ ↦ True :=
      hreq.elim edit_watches flagging_watches
    exact Engine.wp_both_of_safe_under _ (script_wp hsuits) hwatches (fun h ↦ Sql.locks_of_exec h)
      watched_exec gentle_stable (fun _ h ↦ (List.not_mem_nil h).elim) id
      (fun _ _ _ h _ ↦ h) fun _ _ ↦ trivial
  · exact Engine.wp_both_of_safe (N := fun _ ↦ True) (script_wp hsuits) (Prog.safe_trivial _)
      (fun _ _ ↦ ⟨trivial, fun _ _ ↦ trivial⟩) (fun _ _ ↦ trivial) id
      (fun _ _ _ _ h ↦ (hreq h).elim) fun _ _ ↦ trivial

theorem compatible_watch {ι : Type} (W : Watch) (req : ι → Request) :
    Compatible postgres (fun i ↦ watchContract W (req i)) Write.locks where
  footprint h := Sql.locks_of_exec h
  refl _ _ _ _ _ _ _ := rfl
  trans h h' _ _ hl hm := (h' _ _ hl hm).trans (h _ _ hl hm)
  mono hlk h _ _ hl := h _ _ (hlk hl)
  others _ _ hws hsep _ _ hl hm := find_customer_view (not_mem_locks_of_separate hl hm hsep hws)

/-- Any requests may start together, and meet both contracts. -/
theorem sound_watch {ι : Type} [DecidableEq ι] {req : ι → Request} {env : ι → Env} (W : Watch)
    (hids : FreshIds req env) (hunused : ∀ i, (env i).Unused d) (hwf : d.WellFormed) :
    Compatible postgres (fun i ↦ (contract .plain (req i) (env i)).both (watchContract W (req i)))
        Write.locks ∧
      Sound postgres (fun i ↦ (contract .plain (req i) (env i)).both (watchContract W (req i)))
        Write.locks (serve req env d) := by
  have hsuits : ∀ i, Suits .plain (req i) (env i) d :=
    suits_of_freshIds hunused hwf False.elim rfl
  refine ⟨Compatible.both ?_ (compatible_watch W req), Sound.start fun i ↦ ?_⟩
  · exact (sound_free hids hunused hwf False.elim False.elim rfl).1
  · exact script_wp_watch W (hsuits i)

end Statements

end MicroErp.Commits
