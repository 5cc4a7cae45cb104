import Sitecopy.FetchAtomicity
import Sitecopy.HiddenPaths
import Sitecopy.LocalSynch
import Sitecopy.SiteVerify

/-!
# The methods of a driver

The site operations call the methods of `site->driver` without a look at whether the table has
them. Three of the four drivers have no methods for links, and `rcfile_verify` refuses
`symlinks maintain` for only one of these three.
-/
namespace Sitecopy.DriverMethods
open SiteModel FileSet StateProgram SiteStats SiteUpdate SiteInvariants UpdateAccounting DriverCalls
open HiddenPaths LocalSynch RemoteFetch FetchLog FetchAtomicity SiteVerify

/-! ### The tables -/

/-- The function pointers of `struct proto_driver`. -/
inductive Method
  | init
  | finish
  | fileMove
  | fileUpload
  | fileUploadCond
  | fileGetModtime
  | fileDownload
  | fileRead
  | fileDelete
  | fileChmod
  | dirCreate
  | dirRemove
  | linkCreate
  | linkChange
  | linkDelete
  | fetchList
  | error
  | getServerPort
  | getProxyPort
  deriving DecidableEq, Repr

/-- `struct proto_driver`: which of its pointers are not null. -/
abbrev ProtoDriver := Method → Bool

def isLinkMethod : Method → Bool
  | .linkCreate | .linkChange | .linkDelete => true
  | _ => false

def ftpDriver : ProtoDriver := fun m => !isLinkMethod m
def rshDriver : ProtoDriver := fun m => !isLinkMethod m
def sftpDriver : ProtoDriver := fun m => !isLinkMethod m

/-- Its methods for links are `unimp_link1` and `unimp_link2`. -/
def davDriver : ProtoDriver := fun _ => true

/-- The table that `rcfile_verify` stores in the site. -/
def driverOf : Protocol → Option ProtoDriver
  | .ftp => some ftpDriver
  | .dav => some davDriver
  | .rsh => some rshDriver
  | .sftp => some sftpDriver
  | .unknown => none

/-- The driver of the site has the method. -/
def Provided (o : SiteOptions) (m : Method) : Prop :=
  ∃ driver, driverOf o.protocol = some driver ∧ driver m = true

/-- The method that `site_update` calls. -/
def updateMethod : DriverCall → Method
  | .init => .init
  | .finish => .finish
  | .error => .error
  | .fileMove _ _ => .fileMove
  | .fileUpload _ _ _ => .fileUpload
  | .fileUploadCond _ _ _ _ => .fileUploadCond
  | .fileGetModtime _ => .fileGetModtime
  | .fileDelete _ => .fileDelete
  | .fileChmod _ _ => .fileChmod
  | .dirCreate _ => .dirCreate
  | .dirRemove _ => .dirRemove
  | .linkCreate _ _ => .linkCreate
  | .linkChange _ _ => .linkChange
  | .linkDelete _ => .linkDelete

/-- The method that `site_synch` calls. -/
def synchMethod : SynchCall → Method
  | .init => .init
  | .finish => .finish
  | .error => .error
  | .fileDownload _ _ _ => .fileDownload

/-- The method that `site_fetch` and `site_verify` call. -/
def fetchMethod : FetchCall → Method
  | .init => .init
  | .finish => .finish
  | .error => .error
  | .fetchList _ _ => .fetchList
  | .fileRead _ => .fileRead

/-- Whatever the driver answers, the operations on the site call no method that it lacks. -/
structure NeverMissing (site : Site) : Prop where
  update : ∀ (σ : Type) (env : Env σ) (sess : σ) (owner : Option ℕ) (c : DriverCall) (code : ℤ),
    Event.call owner c code ∈ (siteUpdate env site sess).trace →
      Provided site.opts (updateMethod c)
  synch : ∀ (σ : Type) (env : SynchEnv σ) (sess : σ) (owner : Option ℕ) (c : SynchCall) (code : ℤ),
    SynchEvent.driver owner c code ∈ (siteSynch env site sess).trace →
      Provided site.opts (synchMethod c)
  fetch : ∀ (σ : Type) (env : FetchEnv σ) (sess : σ) (fuel : ℕ),
    ∀ x ∈ ((siteFetch (recording env) fuel site).run (sess, [])).2.2,
      Provided site.opts (fetchMethod x.call)
  verify : ∀ (σ : Type) (env : FetchEnv σ) (sess : σ),
    ∀ x ∈ ((siteVerify (recording env) site).run (sess, [])).2.2,
      Provided site.opts (fetchMethod x.call)

/-! ### What the configuration lets through -/

section Accepted
variable {o : SiteOptions} (hverify : rcfileVerify o = .ok ())

include hverify

lemma protocol_known : o.protocol ≠ .unknown := by
  intro hp
  simp only [rcfileVerify, hp] at hverify
  cases hverify

/-- Every table has all methods that are not for links. -/
lemma provided_of_not_link {m : Method} (hm : isLinkMethod m = false) : Provided o m := by
  have hknown := protocol_known hverify
  unfold Provided
  cases hp : o.protocol with
  | ftp => exact ⟨_, rfl, by simp [ftpDriver, hm]⟩
  | dav => exact ⟨_, rfl, rfl⟩
  | rsh => exact ⟨_, rfl, by simp [rshDriver, hm]⟩
  | sftp => exact ⟨_, rfl, by simp [sftpDriver, hm]⟩
  | unknown => exact absurd hp hknown

/-- For which protocols links are maintained by methods that do not exist. -/
lemma shell_of_maintain (hlinks : o.symlinks = .maintain) :
    o.protocol = .rsh ∨ o.protocol = .sftp := by
  cases hp : o.protocol with
  | rsh => exact Or.inl rfl
  | sftp => exact Or.inr rfl
  | ftp =>
    simp only [rcfileVerify, hp, hlinks] at hverify
    cases hverify
  | dav =>
    simp only [rcfileVerify, hp, hlinks] at hverify
    split_ifs at hverify <;> cases hverify
  | unknown => exact absurd hp (protocol_known hverify)

end Accepted

lemma link_not_provided {o : SiteOptions} {m : Method}
    (hp : o.protocol = .rsh ∨ o.protocol = .sftp) (hm : isLinkMethod m = true) :
    ¬ Provided o m := by
  rintro ⟨driver, hdriver, hhas⟩
  rcases hp with hp | hp
  · rw [hp] at hdriver
    obtain rfl := Option.some.inj hdriver
    simp [rshDriver, hm] at hhas
  · rw [hp] at hdriver
    obtain rfl := Option.some.inj hdriver
    simp [sftpDriver, hm] at hhas

/-! ### Which updates need a method for links -/

/-- A link that an update has to create, change or delete. -/
def LinkDue (f : SiteFile) : Prop :=
  f.type = .link ∧ (f.diff = .new ∨ f.diff = .changed ∨ f.diff = .deleted)

instance (f : SiteFile) : Decidable (LinkDue f) := inferInstanceAs (Decidable (_ ∧ _))

/-- The site maintains links over rsh or sftp, and one of them is due. -/
def LinkUnsupported (site : Site) : Prop :=
  (site.opts.protocol = .rsh ∨ site.opts.protocol = .sftp) ∧
    site.opts.symlinks = .maintain ∧ ∃ f ∈ site.files, LinkDue f

instance (site : Site) : Decidable (LinkUnsupported site) := inferInstanceAs (Decidable (_ ∧ _))

/-- The event is the call of a method for links. -/
def CallsLinkMethod : Event → Prop
  | .call _ c _ => isLinkMethod (updateMethod c) = true
  | .uploaded _ | .removed _ => False

section Links
variable {o : SiteOptions} {f : SiteFile}

lemma linkDue_iff : LinkDue f ↔ activeHandler f = some .links := by
  unfold LinkDue
  cases hd : f.diff <;> cases ht : f.type <;> simp [activeHandler, hd, ht]

lemma turnCall_link {p : Handler} {c : DriverCall} (hc : TurnCall o f p c)
    (hm : isLinkMethod (updateMethod c) = true) : p = .links := by
  cases hc with
  | createLink | changeLink | deleteLink => rfl
  | _ => cases hm

/-- The turn of a link that is due calls a method for links. -/
lemma clearing_link (hf : LinkDue f) (r : Run PUnit) :
    Adds r (Handler.links.turn clearingEnv o f) fun _ seg => ∃ e ∈ seg, CallsLinkMethod e := by
  obtain ⟨ht, hd⟩ := hf
  unfold Adds
  rcases hd with hd | hd | hd
  · simp only [Handler.turn, updateLink, ends_ite, hd, ends_bind, ends_pure, ends_call,
      ends_driverErr]
    rw [if_neg (by simp [ht]), if_neg (by simp [clearing_ok])]
    exact ⟨_, rfl, _, List.mem_cons_self, rfl⟩
  · simp only [Handler.turn, updateLink, ends_ite, hd, ends_bind, ends_pure, ends_call,
      ends_driverErr]
    rw [if_neg (by simp [ht]), if_neg (by simp [clearing_ok])]
    exact ⟨_, rfl, _, List.mem_cons_self, rfl⟩
  · simp only [Handler.turn, updateLink, ends_ite, hd, ends_bind, ends_pure, ends_call,
      ends_driverErr, ends_deleteEntry]
    rw [if_neg (by simp [ht]), if_neg (by simp [clearing_ok])]
    exact ⟨_, List.append_assoc _ _ _, _, List.mem_cons_self, rfl⟩

/-- An update calls methods for links only where links are maintained and one is due. -/
lemma update_link_due {σ : Type} {env : Env σ} {site : Site}
    (hdiff : ∀ f ∈ site.files, DiffOk site.opts f) (sess : σ) :
    ∀ a c code, Event.call a c code ∈ (siteUpdate env site sess).trace →
      isLinkMethod (updateMethod c) = true →
        site.opts.symlinks = .maintain ∧ ∃ f ∈ site.files, LinkDue f := by
  intro a c code hm hlink
  cases siteUpdate_calls hdiff sess a c code hm with
  | session h => rcases h with rfl | rfl | rfl <;> cases hlink
  | @turn f p _ hf hact hguard hturn =>
    obtain rfl := turnCall_link hturn hlink
    have hguard : site.opts.symlinks = .maintain := by simpa [handlerTable] using hguard
    exact ⟨hguard, f, hf, linkDue_iff.mpr hact⟩

end Links

/-! ### The operations on accepted sites -/

lemma synchMethod_not_link (c : SynchCall) : isLinkMethod (synchMethod c) = false := by
  cases c <;> rfl

lemma fetchMethod_not_link (c : FetchCall) : isLinkMethod (fetchMethod c) = false := by
  cases c <;> rfl

/-- No missing method is called, unless an accepted site maintains links over rsh or sftp and
has one that is new, changed or deleted. -/
theorem neverMissing_iff {o : SiteOptions} {site : Site} (hverify : rcfileVerify o = .ok ())
    (hr : Reachable o site) : NeverMissing site ↔ ¬ LinkUnsupported site := by
  obtain rfl := hr.opts_eq
  constructor
  · rintro h ⟨hshell, hlinks, f, hf, hdue⟩
    have hguard : (Handler.links, true) ∈ handlerTable site.opts := by simp [handlerTable, hlinks]
    obtain ⟨e, he, hcalls⟩ := clearing_acts hf (linkDue_iff.mp hdue) hguard (clearing_link hdue)
    cases e with
    | call a c code => exact link_not_provided hshell hcalls (h.update _ _ _ a c code he)
    | uploaded a => exact hcalls
    | removed a => exact hcalls
  · intro h
    refine ⟨?_, ?_, ?_, ?_⟩
    · intro σ env sess a c code he
      by_cases hm : isLinkMethod (updateMethod c) = true
      · have hdiff : ∀ f ∈ site.files, DiffOk site.opts f :=
          fun f hf => Or.inr ((reachable_exact hr).1 f hf)
        obtain ⟨hlinks, hdue⟩ := update_link_due hdiff sess a c code he hm
        exact absurd ⟨shell_of_maintain hverify hlinks, hlinks, hdue⟩ h
      · exact provided_of_not_link hverify (Bool.eq_false_iff.mpr hm)
    · intro σ env sess a c code _
      exact provided_of_not_link hverify (synchMethod_not_link c)
    · intro σ env sess fuel x _
      exact provided_of_not_link hverify (fetchMethod_not_link x.call)
    · intro σ env sess x _
      exact provided_of_not_link hverify (fetchMethod_not_link x.call)

/-- The options of a site over sftp that maintains links. -/
def maintainOptions : SiteOptions := { protocol := .sftp, symlinks := .maintain }

/-- A state for a name without a directory. -/
def named (name : String) (target : Option Text) : FileState :=
  { filename := some (ascii name), existing := true, linktarget := target }

theorem neverMissing_iff_file :
    NeverMissing (fileSetLocal .file (named "f" none) { opts := maintainOptions }).1 ↔
      ¬ LinkUnsupported (fileSetLocal .file (named "f" none) { opts := maintainOptions }).1 :=
  neverMissing_iff rfl (.setLocal .file _ .empty rfl)

/-- A new link, which the update has no method to create. -/
def newLinkSite : Site :=
  (fileSetLocal .link (named "l" (some (ascii "target"))) { opts := maintainOptions }).1

theorem new_link_method_missing :
    rcfileVerify maintainOptions = .ok () ∧ Reachable maintainOptions newLinkSite ∧
      Event.call (some 0) (.linkCreate (ascii "l") (ascii "target")) SITE_OK ∈
        (siteUpdate clearingEnv newLinkSite ⟨⟩).trace ∧
      ¬ NeverMissing newLinkSite := by
  have hcall : Event.call (some 0) (.linkCreate (ascii "l") (ascii "target")) SITE_OK ∈
      (siteUpdate clearingEnv newLinkSite ⟨⟩).trace := by decide +kernel
  refine ⟨rfl, .setLocal .link _ .empty rfl, hcall, fun h => ?_⟩
  exact link_not_provided (Or.inr rfl) rfl (h.update _ _ _ _ _ _ hcall)

end Sitecopy.DriverMethods
