import TinyhackSsh.Spec.ProfileForm
import TinyhackSsh.Proofs.Launch
import TinyhackSsh.Proofs.ProfileRoundTrip

/-! Forms that the dialog rejects. What the handler has set before the check that fails
stays in the object of the list. -/

namespace Tinyhack.Profiles

open Launch

/-- The check that a form fails first. -/
inductive Rejection
  | name
  | memory
  | host
  | cfHost
  | cfToken
  | cfDestination
  deriving DecidableEq

def tunnelRejection (app : App) (form : Form) : Option Rejection :=
  let cfHost := trim form.cfHost
  if (if cfHost.isEmpty then none else hostValidationError (some cfHost) "Cloudflared hostname".toList).isSome then
    some .cfHost
  else if (trim form.cfId).isEmpty ≠ (trim form.cfSecret).isEmpty then some .cfToken
  else if (destinationValidationError app (some (trim form.cfDestination))).isSome then some .cfDestination
  else none

/-- It depends on the form alone. -/
def rejection (app : App) (form : Form) : Option Rejection :=
  if (trim form.name).isEmpty then some .name
  else if (form.memoryMb app).isNone then some .memory
  else if form.type = .LOCAL then none
  else if (trim form.host).isEmpty ∨ (hostValidationError (some (trim form.host)) "Host".toList).isSome then some .host
  else if form.cfEnabled then tunnelRejection app form
  else none

/-! The fields that are set on the way to each check. -/

def SameHeader (form : Form) (p : ConnectionProfile) : Prop :=
  p.name = some (trim form.name) ∧ p.type = form.type ∧ p.kittyGraphicsEnabled = form.kittyGraphics ∧
  p.osc52ClipboardEnabled = form.osc52 ∧ p.terminalNotificationsEnabled = form.notifications

def SameConnection (app : App) (form : Form) (p : ConnectionProfile) : Prop :=
  p.host = some (trim form.host) ∧ p.port = form.portNumber app ∧ p.username = nonEmpty (trim form.user) ∧
  p.authType = form.auth ∧ p.keyName = form.key ∧ p.sshArgs = nonEmpty (trim form.sshArgs) ∧
  p.agentForwardingEnabled = form.agentForwarding ∧ p.cloudflaredEnabled = form.cfEnabled

def SameHostname (form : Form) (p : ConnectionProfile) : Prop := p.cloudflaredHostname = nonEmpty (trim form.cfHost)

def SameToken (form : Form) (p : ConnectionProfile) : Prop :=
  p.cloudflaredServiceTokenId = nonEmpty (trim form.cfId) ∧
  p.cloudflaredServiceTokenSecret = nonEmpty (trim form.cfSecret)

/-- The profile already has what the form says in every field before the check. -/
def SameBefore (app : App) (form : Form) (p : ConnectionProfile) : Rejection → Prop
  | .name => True
  | .memory => True
  | .host => SameHeader form p
  | .cfHost => SameHeader form p ∧ SameConnection app form p
  | .cfToken => SameHeader form p ∧ SameConnection app form p ∧ SameHostname form p
  | .cfDestination => SameHeader form p ∧ SameConnection app form p ∧ SameHostname form p ∧ SameToken form p

/-- A form that is rejected and changes nothing. -/
def Harmless (app : App) (p : ConnectionProfile) (form : Form) : Prop :=
  ∀ r, rejection app form = some r → SameBefore app form p r

/-- What the handler sets before the check. -/
def setBefore (app : App) (form : Form) (p : ConnectionProfile) : Rejection → ConnectionProfile
  | .name => p
  | .memory => p
  | .host => setHeader form p
  | .cfHost => setConnection app form (setHeader form p)
  | .cfToken => setHostname form (setConnection app form (setHeader form p))
  | .cfDestination => setToken form (setHostname form (setConnection app form (setHeader form p)))

section Handler

variable {app : App} {form : Form} {p : ConnectionProfile} {r : Rejection}

theorem saveTunnel_rejected (h : tunnelRejection app form = some r) :
    (saveTunnel app form (setConnection app form (setHeader form p))).1 = setBefore app form p r ∧
      (saveTunnel app form (setConnection app form (setHeader form p))).2.isSome = true := by
  unfold tunnelRejection at h
  unfold saveTunnel
  dsimp only at h ⊢
  cases hhost : if (trim form.cfHost).isEmpty then none
      else hostValidationError (some (trim form.cfHost)) "Cloudflared hostname".toList with
  | some cfErr =>
    rw [hhost] at h
    obtain rfl : Rejection.cfHost = r := by simpa using h
    exact ⟨rfl, rfl⟩
  | none =>
    rw [hhost] at h
    by_cases htoken : (trim form.cfId).isEmpty ≠ (trim form.cfSecret).isEmpty
    · obtain rfl : Rejection.cfToken = r := by simpa [htoken] using h
      dsimp only
      rw [if_pos htoken]
      exact ⟨rfl, rfl⟩
    · dsimp only
      rw [if_neg htoken]
      cases hdest : destinationValidationError app (some (trim form.cfDestination)) with
      | some destErr =>
        obtain rfl : Rejection.cfDestination = r := by simpa [htoken, hdest] using h
        exact ⟨rfl, rfl⟩
      | none => exact absurd h (by simp [htoken, hdest])

/-- A rejected form leaves what was set before the check. -/
theorem saveForm_rejected (h : rejection app form = some r) :
    (saveForm app form p).1 = setBefore app form p r ∧ (saveForm app form p).2.isSome = true := by
  unfold rejection at h
  unfold saveForm
  by_cases hname : (trim form.name).isEmpty = true
  · obtain rfl : Rejection.name = r := by simpa [hname] using h
    rw [if_pos hname]
    exact ⟨rfl, rfl⟩
  · rw [if_neg hname] at h ⊢
    cases hmemory : form.memoryMb app with
    | none =>
      obtain rfl : Rejection.memory = r := by simpa [hmemory] using h
      exact ⟨rfl, rfl⟩
    | some memoryMb =>
      rw [hmemory, if_neg (by simp)] at h
      dsimp only
      by_cases hlocal : form.type = .LOCAL
      · exact absurd h (by simp [hlocal])
      · rw [if_neg hlocal] at h ⊢
        by_cases hempty : (trim form.host).isEmpty = true
        · obtain rfl : Rejection.host = r := by simpa [hempty] using h
          rw [if_pos hempty]
          exact ⟨rfl, rfl⟩
        · rw [if_neg hempty]
          cases hhost : hostValidationError (some (trim form.host)) "Host".toList with
          | some hostErr =>
            rw [hhost, if_pos (Or.inr Option.isSome_some)] at h
            obtain rfl : Rejection.host = r := Option.some.inj h
            exact ⟨rfl, rfl⟩
          | none =>
            rw [hhost, if_neg (by simpa using hempty)] at h
            dsimp only
            by_cases hcf : form.cfEnabled = true
            · rw [if_pos hcf] at h ⊢
              exact saveTunnel_rejected h
            · exact absurd h (by simp [hcf])

/-- That is the profile itself if and only if it has these values already. -/
theorem setBefore_eq_self (app : App) (form : Form) (p : ConnectionProfile) (r : Rejection) :
    setBefore app form p r = p ↔ SameBefore app form p r := by
  cases p
  cases r <;>
    simp only [setBefore, setHeader, setConnection, setHostname, setToken, SameBefore, SameHeader, SameConnection,
      SameHostname, SameToken, ConnectionProfile.mk.injEq, true_and, and_true] <;>
    tauto

end Handler

/-! Rejected forms one after the other. -/

section Submissions

variable {plat : Platform} {app : App} {p : ConnectionProfile} {st : Store}

theorem submit_rejected {e : Editor} {s : SubmitCall × Form} {r : Rejection} (h : rejection app s.2 = some r) :
    submit plat app e s = { e with profile := setBefore app s.2 e.profile r } := by
  obtain ⟨hprofile, hmessage⟩ := saveForm_rejected (p := e.profile) h
  unfold submit
  cases hsave : saveForm app s.2 e.profile with
  | mk q message =>
    rw [hsave] at hprofile hmessage
    cases message with
    | none => exact absurd hmessage Bool.false_ne_true
    | some message =>
      dsimp only at hprofile ⊢
      rw [hprofile]

theorem submit_harmless {s : SubmitCall × Form} (hrej : (rejection app s.2).isSome = true) :
    (submit plat app ⟨p, st, true⟩ s).profile = p ↔ Harmless app p s.2 := by
  obtain ⟨r, hr⟩ := Option.isSome_iff_exists.mp hrej
  rw [submit_rejected hr]
  change setBefore app s.2 p r = p ↔ _
  rw [setBefore_eq_self]
  constructor
  · intro h r' hr'
    obtain rfl : r = r' := Option.some.inj (hr.symm.trans hr')
    exact h
  · intro h
    exact h r hr

theorem submit_same {s : SubmitCall × Form} (hrej : (rejection app s.2).isSome = true) (h : Harmless app p s.2) :
    submit plat app ⟨p, st, true⟩ s = ⟨p, st, true⟩ := by
  obtain ⟨r, hr⟩ := Option.isSome_iff_exists.mp hrej
  rw [submit_rejected hr]
  dsimp only
  rw [(setBefore_eq_self app s.2 p r).mpr (h r hr)]

theorem submits_harmless (submits : List (SubmitCall × Form)) (hrej : ∀ s ∈ submits, (rejection app s.2).isSome = true)
    (h : ∀ s ∈ submits, Harmless app p s.2) : submits.foldl (submit plat app) ⟨p, st, true⟩ = ⟨p, st, true⟩ := by
  induction submits with
  | nil => rfl
  | cons s submits ih =>
    rw [List.foldl_cons, submit_same (hrej s List.mem_cons_self) (h s List.mem_cons_self)]
    exact ih (fun t ht => hrej t (List.mem_cons_of_mem s ht)) fun t ht => h t (List.mem_cons_of_mem s ht)

/-- An object that every rejected form leaves as it was agrees with each form. -/
theorem harmless_of_kept {submits : List (SubmitCall × Form)}
    (hrej : ∀ s ∈ submits, (rejection app s.2).isSome = true)
    (hkept : ∀ k, ((submits.take k).foldl (submit plat app) ⟨p, st, true⟩).profile = p) :
    ∀ s ∈ submits, Harmless app p s.2 := by
  induction submits with
  | nil => exact fun s hs => absurd hs List.not_mem_nil
  | cons s submits ih =>
    have hfirst := hkept 1
    rw [List.take_succ_cons, List.take_zero, List.foldl_cons, List.foldl_nil] at hfirst
    have hharmless := (submit_harmless (hrej s List.mem_cons_self)).mp hfirst
    intro t ht
    obtain rfl | ht := List.mem_cons.mp ht
    · exact hharmless
    · refine ih (fun t ht => hrej t (List.mem_cons_of_mem s ht)) (fun k => ?_) t ht
      have hnext := hkept (k + 1)
      rwa [List.take_succ_cons, List.foldl_cons, submit_same (hrej s List.mem_cons_self) hharmless] at hnext

/-- The same profile with a new id, name and times. -/
def renamedCopy (call : DuplicateCall) (p : ConnectionProfile) : ConnectionProfile :=
  { p with
    id := call.uuid
    name := some (p.name.getD "null".toList ++ " Copy".toList)
    createdAt := call.createdNow
    updatedAt := call.updatedNow }

theorem copyOf_normalize (call : DuplicateCall) (hp : Storable p) (henc : ∀ f, (call.encrypts f).fails = false)
    (hload : ∀ f, call.load.fails f = false) :
    (copyOf plat call p).normalize = (renamedCopy call p).normalize := by
  unfold copyOf renamedCopy
  rw [fromJson_toJson hp henc hload]
  simp only [ConnectionProfile.normalize, blank_blank]

/-- Over rejected forms the object stays as it is if and only if each form agrees with it
in every field that is set before the check that fails. What is stored after that is a
copy of the profile that was opened. -/
theorem rejected_forms_keep_profile_iff (plat : Platform) (app : App) (p : ConnectionProfile) (st : Store)
    (submits : List (SubmitCall × Form)) (hrej : ∀ s ∈ submits, (rejection app s.2).isSome = true) :
    ((∀ k, ((submits.take k).foldl (submit plat app) ⟨p, st, true⟩).profile = p) ↔
      ∀ s ∈ submits, Harmless app p s.2) ∧
    ((∀ s ∈ submits, Harmless app p s.2) → ∀ call,
      (onProfileDuplicate plat call (cancel (submits.foldl (submit plat app) ⟨p, st, true⟩))).store =
        addProfile plat call.op (copyOf plat call p) st ∧
      (Storable p → (∀ f, (call.encrypts f).fails = false) → (∀ f, call.load.fails f = false) →
        (copyOf plat call p).normalize = (renamedCopy call p).normalize)) := by
  refine ⟨⟨harmless_of_kept hrej, ?_⟩, ?_⟩
  · intro h k
    rw [submits_harmless (submits.take k) (fun s hs => hrej s (List.mem_of_mem_take hs))
      fun s hs => h s (List.mem_of_mem_take hs)]
  · intro h call
    rw [submits_harmless submits hrej h]
    exact ⟨rfl, fun hp henc hload => copyOf_normalize call hp henc hload⟩

/-- The form that the dialog opens with for `sampleProfile "me"`, without the host. -/
def hostlessForm (name : String) : Form where
  name := name.toList
  type := .SSH
  umlEnvironment := none
  memory := []
  shell := []
  cwd := []
  env := []
  kittyGraphics := false
  osc52 := false
  notifications := false
  host := []
  port := "22".toList
  user := "me".toList
  auth := .NONE
  key := none
  sshArgs := []
  agentForwarding := false
  cloudflared := false
  cfHost := []
  cfId := []
  cfSecret := []
  cfDestination := []

def sampleSubmit (name : String) : SubmitCall × Form := (⟨1, sampleCall false⟩, hostlessForm name)

theorem rejected_forms_keep_profile_host :
    rejection sampleApp (hostlessForm "A") = some .host ∧ rejection sampleApp (hostlessForm "") = some .name ∧
    (([sampleSubmit "A", sampleSubmit ""].take 2).foldl (submit samplePlatform sampleApp)
      ⟨sampleProfile "me", sampleStore, true⟩).profile = sampleProfile "me" := by
  refine ⟨rfl, rfl, (rejected_forms_keep_profile_iff samplePlatform sampleApp (sampleProfile "me") sampleStore
    [sampleSubmit "A", sampleSubmit ""] (by decide)).1.mpr ?_ 2⟩
  intro s hs r hr
  obtain rfl | hs := List.mem_cons.mp hs
  · obtain rfl : Rejection.host = r := Option.some.inj hr
    exact ⟨rfl, rfl, rfl, rfl, rfl⟩
  · obtain rfl := List.mem_singleton.mp hs
    obtain rfl : Rejection.name = r := Option.some.inj hr
    trivial

def sampleDuplicate : DuplicateCall :=
  ⟨fun _ => sampleEncrypt false, ⟨fun _ => false, [], 0, 0⟩, "b".toList, 0, 0, sampleCall false⟩

/-- A form without a host is rejected, but its name is in the object and in the copy. -/
theorem rejected_name_is_copied :
    (saveForm sampleApp (hostlessForm "x") (sampleProfile "me")).2 = some "Host required for SSH".toList ∧
    (submit samplePlatform sampleApp ⟨sampleProfile "me", sampleStore, true⟩ (sampleSubmit "x")).profile.name =
      some "x".toList ∧
    (copyOf samplePlatform sampleDuplicate
      (submit samplePlatform sampleApp ⟨sampleProfile "me", sampleStore, true⟩ (sampleSubmit "x")).profile).name =
      some "x Copy".toList ∧
    (sampleProfile "me").name = some "A".toList := by
  decide

end Submissions

end Tinyhack.Profiles
