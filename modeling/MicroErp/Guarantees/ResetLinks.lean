import MicroErp.Commits.Accounts
import MicroErp.Guarantees.PasswordReset

/-!
# A reset link is used once

The requests of this module are resets by link.  The audit row is inserted as one more statement of
the transaction; beside the lock on the row of the user its locks are free, so it does not block.
The lock orders the resets of a user, and each compares the time at which its link was signed with
the time of the change before it.
-/

namespace MicroErp.Guarantees

open MicroErp.Commits MicroErp.Concurrency MicroErp.Database MicroErp.Services MicroErp.Storage

/-- The accounts after these events of resets by link. -/
def serveResets {ι : Type} [DecidableEq ι] (dto : ι → Auth.ResetPasswordDto) (env : ι → AuthEnv)
    (d : AccountDb) (es : List (Event ι)) : AccountSys ι :=
  accounts.run (Sys.start d fun i ↦ (AccountRequest.executePasswordReset (dto i)).script (env i)) es

/-- The next step of session `i` commits a change of the user. -/
def ChangesUser {ι : Type} [DecidableEq ι] (s : AccountSys ι) (i : ι) (id : Uuid) : Prop :=
  (accounts.step s (.step i)).db.users.find id ≠ s.db.users.find id

instance {ι : Type} [DecidableEq ι] (s : AccountSys ι) (i : ι) (id : Uuid) :
    Decidable (ChangesUser s i id) :=
  inferInstanceAs (Decidable (_ ≠ _))

/-- A token that is verified is for the user that it was signed for and carries the whole seconds of
the time when it was signed, and the request is executed later. -/
structure Signed {ι : Type} (dto : ι → Auth.ResetPasswordDto) (env : ι → AuthEnv)
    (userOf : String → Uuid) (signedAt : String → Timestamp) : Prop where
  sub : ∀ i payload, (env i).verify (dto i).token = some payload →
    payload.sub = userOf (dto i).token
  iat : ∀ i payload, (env i).verify (dto i).token = some payload →
    payload.iat = signedAt (dto i).token / 1000
  executed : ∀ i, signedAt (dto i).token < (env i).clock

section Links

variable {ι : Type} [DecidableEq ι] {dto : ι → Auth.ResetPasswordDto} {env : ι → AuthEnv}
  {d : AccountDb} {userOf : String → Uuid} {signedAt : String → Timestamp} {i j : ι} {id id' : Uuid}
  {es es' : List (Event ι)}

/-- The change is the password of the request, and the link was not signed before the last one. -/
structure ChangedBy (dto : Auth.ResetPasswordDto) (env : AuthEnv) (id : Uuid) (d d' : AccountDb)
    (loaded : User) (payload : ResetTokenPayload) : Prop where
  token : env.verify dto.token = some payload
  sub : payload.sub = id
  found : d.users.find id = some loaded
  unused : ∀ changedAt ∈ loaded.password_changed_at, changedAt ≤ payload.iat * 1000
  saved : d'.users.find id = some (withPassword env dto.new_password loaded)

theorem serveResets_append (es es' : List (Event ι)) :
    serveResets dto env d (es ++ es') = accounts.run (serveResets dto env d es) es' :=
  accounts.run_append _ es es'

theorem sound_resets (dto : ι → Auth.ResetPasswordDto) (env : ι → AuthEnv) (d : AccountDb)
    (es : List (Event ι)) :
    Sound accounts (fun i ↦ accountContract .plain (.executePasswordReset (dto i)) (env i))
      AccountWrite.locks (serveResets dto env d es) := by
  refine (Sound.start fun i ↦ account_wp _ _ _ d).run ?_ ?_
  · exact compatible_accounts (fun _ _ h ↦ h) _ _
  · exact Engine.Meets.of_forall fun i ↦ Clerk.allow_plain _

/-- What an event changes of a user. -/
theorem row_of_event (s : Event ι) :
    (serveResets dto env d (es ++ [s])).db.users.find id = (serveResets dto env d es).db.users.find id ∨
      ∃ i loaded payload, s = .step i ∧ ChangedBy (dto i) (env i) id (serveResets dto env d es).db
        (serveResets dto env d (es ++ [s])).db loaded payload := by
  have hmove := accounts.step_move (serveResets dto env d es) s
  rw [serveResets_append es [s]]
  change _ ∨ ∃ i loaded payload, _ ∧ ChangedBy _ _ id _ (accounts.step _ s).db _ _
  rcases (sound_resets dto env d es).commit_of_move (compatible_accounts (fun _ _ h ↦ h) _ _) hmove
    with ⟨hdb, -⟩ | ⟨i, ws, rfl, hguar, -, hdb, -⟩
  · left
    exact congrArg (·.users.find id) hdb
  · cases hguar with
    | idle _ hdto => exact (hdto _ rfl).elim
    | @save loaded reread latest audits hsaves haudits =>
      obtain ⟨rfl, rfl, payload, htoken, hsub, hunused⟩ := hsaves.link _ rfl
      have hrow : (accounts.step (serveResets dto env d es) (.step i)).db.users.find id =
          ((serveResets dto env d es).db.users.find id).map fun u ↦
            if id = latest.id then
              User.saved (withPassword (env i) (dto i).new_password latest) latest u
            else u := by
        rw [hdb]
        exact find_user_save haudits
      by_cases hid : id = latest.id
      · right
        subst hid
        refine ⟨i, latest, payload, rfl, htoken, hsub, hsaves.found, hunused, ?_⟩
        rw [hrow, hsaves.found, Option.map_some, if_pos rfl]
        exact congrArg some (User.saved_latest rfl)
      · left
        refine Eq.trans hrow ?_
        simp [hid]

theorem changed_of_changesUser (h : ChangesUser (serveResets dto env d es) i id) :
    ∃ loaded payload, ChangedBy (dto i) (env i) id (serveResets dto env d es).db
      (serveResets dto env d (es ++ [.step i])).db loaded payload := by
  rcases @row_of_event ι _ dto env d id es (.step i)
    with heq | ⟨j, loaded, payload, hj, hchanged⟩
  · rw [serveResets_append] at heq
    exact (h heq).elim
  · cases hj
    exact ⟨loaded, payload, hchanged⟩

/-- The password was changed at this time or later. -/
def ChangedSince (c : Timestamp) (id : Uuid) (d : AccountDb) : Prop :=
  ∃ u, d.users.find id = some u ∧ ∃ changedAt ∈ u.password_changed_at, c ≤ changedAt

omit [DecidableEq ι] in
theorem Signed.lt_clock (hlinks : Signed dto env userOf signedAt) {payload : ResetTokenPayload}
    (htoken : (env i).verify (dto i).token = some payload) : payload.iat * 1000 < (env i).clock := by
  calc payload.iat * 1000
      = signedAt (dto i).token / 1000 * 1000 := by rw [hlinks.iat i payload htoken]
    _ ≤ signedAt (dto i).token := Int.ediv_mul_le _ (by decide)
    _ < (env i).clock := hlinks.executed i

theorem ChangedSince.event (hlinks : Signed dto env userOf signedAt) {c : Timestamp}
    (h : ChangedSince c id (serveResets dto env d es).db) (e : Event ι) :
    ChangedSince c id (serveResets dto env d (es ++ [e])).db := by
  obtain ⟨u, hu, changedAt, hmem, hc⟩ := h
  rcases @row_of_event ι _ dto env d id es e
    with heq | ⟨i, loaded, payload, rfl, hchanged⟩
  · exact ⟨u, heq.trans hu, changedAt, hmem, hc⟩
  · refine ⟨_, hchanged.saved, (env i).clock, rfl, ?_⟩
    obtain rfl : u = loaded := Option.some.inj (hu.symm.trans hchanged.found)
    calc c ≤ changedAt := hc
      _ ≤ payload.iat * 1000 := hchanged.unused changedAt hmem
      _ ≤ (env i).clock := (hlinks.lt_clock hchanged.token).le

theorem ChangedSince.run (hlinks : Signed dto env userOf signedAt) {c : Timestamp}
    (h : ChangedSince c id (serveResets dto env d es).db) (es' : List (Event ι)) :
    ChangedSince c id (serveResets dto env d (es ++ es')).db := by
  induction es' generalizing es with
  | nil => rwa [List.append_nil]
  | cons e es' ih =>
    have hnext := ih (h.event hlinks e)
    rwa [List.append_assoc, List.singleton_append] at hnext

/-- A committed change is for the user of its link and records its time, and every change after it
comes from another link; if it is of the same user, the link was not signed before that time. -/
theorem link_changes_once (hlinks : Signed dto env userOf signedAt)
    (h : ChangesUser (serveResets dto env d es) i id) :
    id = userOf (dto i).token ∧
      (∃ u, (serveResets dto env d (es ++ [.step i])).db.users.find id = some u ∧
        u.password_hash = (env i).hash (dto i).new_password ∧
        u.password_changed_at = some (env i).clock) ∧
      ∀ es' j id', ChangesUser (serveResets dto env d (es ++ .step i :: es')) j id' →
        (dto j).token ≠ (dto i).token ∧
          (id' = id → (env i).clock ≤ signedAt (dto j).token) := by
  obtain ⟨loaded, payload, hchanged⟩ := changed_of_changesUser h
  have huser : id = userOf (dto i).token := hchanged.sub.symm.trans (hlinks.sub i _ hchanged.token)
  refine ⟨huser, ⟨_, hchanged.saved, rfl, rfl⟩, fun es' j id' h' ↦ ?_⟩
  obtain ⟨loaded', payload', hchanged'⟩ := changed_of_changesUser h'
  have huser' : id' = userOf (dto j).token :=
    hchanged'.sub.symm.trans (hlinks.sub j _ hchanged'.token)
  have hsince : ChangedSince (env i).clock id (serveResets dto env d (es ++ .step i :: es')).db := by
    have hfirst : ChangedSince (env i).clock id (serveResets dto env d (es ++ [.step i])).db :=
      ⟨_, hchanged.saved, _, rfl, le_rfl⟩
    have hrun := hfirst.run hlinks es'
    rwa [List.append_assoc, List.singleton_append] at hrun
  have hlater : id' = id → (env i).clock ≤ signedAt (dto j).token := by
    rintro rfl
    obtain ⟨u, hu, changedAt, hmem, hc⟩ := hsince
    obtain rfl : u = loaded' := Option.some.inj (hu.symm.trans hchanged'.found)
    calc (env i).clock ≤ changedAt := hc
      _ ≤ payload'.iat * 1000 := hchanged'.unused changedAt hmem
      _ = signedAt (dto j).token / 1000 * 1000 := by rw [hlinks.iat j payload' hchanged'.token]
      _ ≤ signedAt (dto j).token := Int.ediv_mul_le _ (by decide)
  refine ⟨fun htoken ↦ ?_, hlater⟩
  -- A second change by the same link is of the same user, and the link would be signed after it.
  have hsame : id' = id := by rw [huser', htoken, huser]
  have hlt := hlinks.executed i
  rw [← htoken] at hlt
  exact absurd (hlater hsame) (not_le.2 hlt)

end Links

/-! ## Two links of one user -/

def signingTimes (token : String) : Timestamp := if token = "reset" then 1500 else 6200

def linkDto (second : Bool) : Auth.ResetPasswordDto :=
  if second then ⟨"otro", "Otra.22"⟩ else ⟨"reset", "Nueva.1"⟩

/-- The first link is used at time 5000, the second one at time 7000. -/
def linkEnv (second : Bool) : AuthEnv :=
  { sampleAuthEnv (if second then 7000 else 5000) 0 (if second then 901 else 900) with
    verify := fun token ↦ some ⟨5, "pwd_reset", signingTimes token / 1000⟩ }

theorem signed_links : Signed linkDto linkEnv (fun _ ↦ 5) signingTimes where
  sub := by rintro (_ | _) _ ⟨⟩ <;> rfl
  iat := by rintro (_ | _) _ ⟨⟩ <;> rfl
  executed := by decide

/-- Both links change the password, the second one after the first. -/
theorem link_changes_once_twice :
    (∃ u, (serveResets linkDto linkEnv sampleAccounts
        (List.replicate 4 (.step false) ++ [.step false])).db.users.find 5 = some u ∧
      u.password_hash = "hash Nueva.1" ∧ u.password_changed_at = some 5000) ∧
    (linkDto true).token ≠ (linkDto false).token ∧ 5000 ≤ signingTimes (linkDto true).token := by
  obtain ⟨-, hrow, hlater⟩ := @link_changes_once Bool _ linkDto linkEnv sampleAccounts (fun _ ↦ 5)
    signingTimes false 5 (List.replicate 4 (.step false)) signed_links (by decide +kernel)
  obtain ⟨htoken, htime⟩ := hlater (List.replicate 4 (.step true)) true 5 (by decide +kernel)
  exact ⟨hrow, htoken, htime rfl⟩

end MicroErp.Guarantees
