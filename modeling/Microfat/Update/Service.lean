/-
# Microfat.Update.Service — which updates are activated

`Service.run` looks at the installation the running program belongs to, asks which
release is published, and activates it when the policy allows.  Everything it asks of
the system or of the network is a call that may be answered in any way; what it reports
is written into a `Result` along the way.

* `run_policy`: whatever is answered, a command of the activation is issued only for a
  release that is newer than the observed one, or for an older one that was asked for by
  version and with leave to go back.
-/
import Microfat.Release.Version
import Microfat.Theory.Protocol

namespace Microfat.Update

open Theory Install Release

set_option autoImplicit false

structure Options where
  check : Bool
  allowDowngrade : Bool
  system : Bool
  version : Bytes
  staging : Bytes
  cosign : Bytes
  cosignSHA256 : Bytes

def Options.validate (o : Options) : Option Err :=
  let syntaxErr := if o.version = [] then none else match parseVersion o.version with
    | .error err => some err
    | .ok _ => none
  if syntaxErr.isSome then syntaxErr
  else if o.allowDowngrade && o.version = [] then some (.new "--allow-downgrade requires --version")
  else if decide (o.cosign = []) ≠ decide (o.cosignSHA256 = []) then
    some (.new "--cosign and --cosign-sha256 must be supplied together")
  else if o.check &&
      (o.allowDowngrade || o.system || o.staging ≠ [] || o.cosign ≠ [] || o.cosignSHA256 ≠ []) then
    some (.new "--check cannot use mutation-only flags")
  else none

inductive Status where
  | error | updateAvailable | current | selectedOlder | installedNewer | updated | downgraded
  deriving DecidableEq, Repr

inductive Management where
  | homebrew | unmanaged | installer
  deriving DecidableEq, Repr

inductive Verification where
  | notPerformed | metadataOnly | artifactVerified
  deriving DecidableEq, Repr

structure Result where
  status : Status := .error
  runningVersion : Option Bytes := none
  currentVersion : Option Bytes := none
  targetVersion : Option Bytes := none
  updateAvailable : Bool := false
  management : Option Management := none
  canSelfUpdate : Bool := false
  verification : Verification := .notPerformed
  activated : Bool := false
  guidance : String := ""

/-- What `ReadInstallation` finds. -/
structure Installation where
  owner : Owner
  running : Generation
  current : Generation

/-- What is read of an installer's snapshot here. -/
structure Snapshot where
  owner : Option Owner
  current : Option Generation
  currentError : Option Err

/-- What is read of the outcome of `install.Apply`. -/
structure Applied where
  generation : Generation
  activated : Bool

inductive Call where
  | ctxErr
  | executable
  | validateDiscovery (physical : Bytes)
  | externalManagement (physical : Bytes)
  | readInstallation (physical : Bytes)
  | inspectUpdate (physical : Bytes)
  | published (version arch : Bytes)
  | staging (path : Bytes)
  | prepareVerifier (arch staging cosign cosignSHA256 : Bytes)
  | acquire (target arch staging : Bytes) (verifier : Bytes × Bytes)
  | apply (snapshot : Snapshot) (generation : Generation) (source : Bytes)
  | removeAll (path : Bytes)

abbrev Call.Reply : Call → Type
  | .ctxErr | .removeAll _ => Option Err
  | .executable | .published _ _ | .staging _ => Except Err Bytes
  | .validateDiscovery _ => Except Err Bool
  | .externalManagement _ => Except Err Management
  | .readInstallation _ => Except Err Installation
  | .inspectUpdate _ => Except Err Snapshot
  | .prepareVerifier .. => Except Err (Bytes × Bytes)
  | .acquire .. => Except Err (Generation × Bytes)
  | .apply .. => Applied × Option Err

abbrev Program := Prog Call Call.Reply

def ask (c : Call) : Program c.Reply := Prog.call c

structure Service where
  version : Bytes
  goos : Bytes
  arch : Bytes
  uid : Int

def selectionStatus (comparison : Int) (explicit : Bool) : Status :=
  if comparison > 0 then .updateAvailable
  else if comparison = 0 then .current
  else if explicit then .selectedOlder
  else .installedNewer

def externalGuidance (management : Management) : String :=
  if management = .homebrew then "Homebrew manages this installation; use brew upgrade microfat."
  else "Self-update requires an installer-owned generation. For Homebrew use brew upgrade microfat; " ++
    "otherwise use your package manager or the documented manual move-aside/reinstall procedure."

/-- The checks on the snapshot an update starts from. -/
def snapshotErr (observed : Installation) (snapshot : Snapshot) : Option Err :=
  match snapshot.currentError, snapshot.current with
  | some err, _ => some err
  | none, none => some (.sentinel .errChanged)
  | none, some current =>
    if current.id ≠ observed.current.id || snapshot.owner ≠ some observed.owner then
      some (.sentinel .errChanged)
    else none

/-- The guidance for an installation that cannot update itself; the owner comes last. -/
def managedGuidance (s : Service) (observed : Installation) (guidance : String) : String :=
  if observed.owner.uid ≠ s.uid then
    "Run the update as the installation owner; system installations require root and --system."
  else if observed.running.id ≠ observed.current.id then
    "Restart through the public microfat entrypoint; a different generation is active."
  else guidance

/-- `inspect` of an installation that the installer manages. -/
def inspectManaged (s : Service) (physical : Bytes) (opts : Options) (running : Bytes) (result : Result) :
    Program (Result × Except Err Snapshot) := do
  let result := { result with management := some .installer }
  match ← ask (.readInstallation physical) with
  | .error err => return (result, .error err)
  | .ok observed =>
    if observed.running.version ≠ running || observed.running.arch ≠ s.arch || observed.current.arch ≠ s.arch then
      return (result, .error (.new "running build identity disagrees with installation metadata"))
    else
      let canSelfUpdate := observed.running.id = observed.current.id && observed.owner.uid = s.uid
      let result := { result with
        currentVersion := some observed.current.version
        canSelfUpdate := canSelfUpdate
        guidance := managedGuidance s observed result.guidance }
      if opts.check then return (result, .ok ⟨none, none, none⟩)
      else if opts.system && s.uid ≠ 0 then return (result, .error (.new "--system requires root"))
      else if s.uid = 0 && !opts.system then
        return (result, .error (.new "root updates require explicit --system; no sudo is invoked"))
      else if !canSelfUpdate then return (result, .error (.about .errChanged [.text result.guidance]))
      else
        match ← ask (.inspectUpdate physical) with
        | .error err => return (result, .error err)
        | .ok snapshot =>
          match snapshotErr observed snapshot with
          | some err => return (result, .error err)
          | none => return (result, .ok snapshot)

def inspect (s : Service) (physical : Bytes) (opts : Options) (running : Bytes) (result : Result) :
    Program (Result × Except Err Snapshot) := do
  match ← ask (.validateDiscovery physical) with
  | .error err =>
    let guidance := "Inspect the managed installation and use the verified installer for explicit repair."
    return ({ result with guidance }, .error err)
  | .ok false =>
    match ← ask (.externalManagement physical) with
    | .error err => return (result, .error err)
    | .ok management =>
      let result := { result with management := some management, guidance := externalGuidance management }
      if opts.check then return (result, .ok ⟨none, none, none⟩)
      else return (result, .error (.new result.guidance))
  | .ok true => inspectManaged s physical opts running result

/-- `activate` behind the creation of the staging directory. -/
def activateIn (s : Service) (opts : Options) (snapshot : Snapshot) (target physical running staging : Bytes)
    (result : Result) : Program (Result × Option Err) := do
  match ← ask (.prepareVerifier s.arch staging opts.cosign opts.cosignSHA256) with
  | .error err => return (result, some err)
  | .ok verifier =>
    match ← ask (.acquire target s.arch staging verifier) with
    | .error err => return (result, some err)
    | .ok (generation, source) =>
      let result := { result with verification := .artifactVerified }
      match ← ask .executable with
      | .error err => return (result, GoError.join [some (.sentinel .errChanged), some err])
      | .ok currentExecutable =>
        if currentExecutable ≠ physical then
          return (result, GoError.join [some (.sentinel .errChanged), none])
        else
          let (applied, err) ← ask (.apply snapshot generation source)
          let result := { result with activated := applied.activated }
          let result := if applied.activated then
            { result with
              currentVersion := some applied.generation.version
              updateAvailable := false
              canSelfUpdate := false } else result
          match err with
          | some err =>
            if applied.activated then
              return (result, some (.wrap [.text "v", .str applied.generation.version,
                .text " is active, but update completion failed: ", .cause] [err]))
            else return (result, some err)
          | none =>
            let status : Status := if compareVersions target running < 0 then .downgraded else .updated
            let guidance :=
              "The selected release is active. Start subsequent commands through the public entrypoint."
            return ({ result with
              status := status
              updateAvailable := false
              currentVersion := some applied.generation.version
              guidance := guidance }, none)

def activate (s : Service) (opts : Options) (snapshot : Snapshot) (target physical running : Bytes)
    (result : Result) : Program (Result × Option Err) := do
  match ← ask (.staging opts.staging) with
  | .error err => return (result, some err)
  | .ok staging =>
    let (result, err) ← activateIn s opts snapshot target physical running staging result
    let removed ← ask (.removeAll staging)
    return (result, GoError.join [err, removed])

/-- `run` behind `inspect`. -/
def select (s : Service) (opts : Options) (snapshot : Snapshot) (physical running : Bytes) (result : Result) :
    Program (Result × Option Err) := do
  match ← ask (.published opts.version s.arch) with
  | .error err => return (result, some err)
  | .ok target =>
    let comparison := compareVersions target (result.currentVersion.getD running)
    let result := { result with
      targetVersion := some target
      verification := .metadataOnly
      updateAvailable := comparison > 0
      status := selectionStatus comparison (opts.version ≠ []) }
    if opts.check then return (result, none)
    else if comparison = 0 || (comparison < 0 && opts.version = []) then return (result, none)
    else if comparison < 0 && !opts.allowDowngrade then
      return (result, some (.new "refusing downgrade; select --version and --allow-downgrade explicitly"))
    else activate s opts snapshot target physical running result

def run (s : Service) (opts : Options) : Program (Result × Option Err) := do
  let result : Result := {}
  match opts.validate with
  | some err => return (result, some err)
  | none =>
    match ← ask .ctxErr with
    | some err => return (result, some err)
    | none =>
      if s.goos ≠ lit "linux" || (s.arch ≠ lit "amd64" && s.arch ≠ lit "arm64") then
        return (result, some (.new "update supports Linux amd64 and arm64"))
      else
        match parseVersion s.version with
        | .error err => return (result, some (.wrap [.text "cannot determine a supported stable running ",
            .text "version; use the verified installer: ", .cause] [err]))
        | .ok running =>
          let result := { result with runningVersion := some running, currentVersion := some running }
          match ← ask .executable with
          | .error err => return (result, some err)
          | .ok physical =>
            let (result, snapshot) ← inspect s physical opts running result
            match snapshot with
            | .error err => return (result, some err)
            | .ok snapshot => select s opts snapshot physical running result

/-! ## The policy -/

/-- The commands of the activation. -/
def Call.Activates : Call → Prop
  | .staging _ | .prepareVerifier .. | .acquire .. | .apply .. | .removeAll _ => True
  | _ => False

/-- What a run has been told: the installation and the published release. -/
structure Seen where
  observed : Option Installation := none
  target : Option Bytes := none

/-- The target may be activated over the observed installation. -/
def Options.Permits (opts : Options) (seen : Seen) : Prop :=
  opts.check = false ∧ ∃ observed target, seen.observed = some observed ∧ seen.target = some target ∧
    (0 < compareVersions target observed.current.version ∨
      compareVersions target observed.current.version < 0 ∧ opts.version ≠ [] ∧ opts.allowDowngrade = true)

/-- The same for versions in canonical syntax, by their numbers. -/
def Options.PermitsNumbers (opts : Options) (seen : Seen) : Prop :=
  opts.check = false ∧ ∃ observed target, seen.observed = some observed ∧ seen.target = some target ∧
    (isVersion observed.current.version = true → isVersion target = true →
      numbers observed.current.version < numbers target ∨
        numbers target < numbers observed.current.version ∧ opts.version ≠ [] ∧ opts.allowDowngrade = true)

/-- A protocol in which commands of the activation need a permission. -/
def guarded (permits : Seen → Prop) : Protocol Call Call.Reply Seen where
  may seen c := c.Activates → permits seen
  next seen
    | .readInstallation _, .ok observed => { seen with observed := some observed }
    | .published _ _, .ok target => { seen with target := some target }
    | _, _ => seen

section Policy

variable {permits : Seen → Prop} {seen : Seen}

theorem keeps_ask {α : Type} {c : Call} {f : c.Reply → Program α} {Q : α → Seen → Prop}
    (harmless : ¬ c.Activates) (rest : ∀ r, (guarded permits).Keeps (f r) Q ((guarded permits).next seen c r)) :
    (guarded permits).Keeps (ask c >>= f) Q seen :=
  Protocol.keeps_call (fun activates => absurd activates harmless) rest

section

variable (permitted : permits seen) (s : Service) (opts : Options) (snapshot : Snapshot)

include permitted s opts snapshot

/-- With a permission every command is allowed; the activation learns nothing that could
take the permission back. -/
theorem activateIn_keeps (target physical running staging : Bytes) (result : Result) :
    (guarded permits).Keeps (activateIn s opts snapshot target physical running staging result)
      (fun _ seen' => seen' = seen) seen := by
  refine Protocol.keeps_call (fun _ => permitted) fun verifier => ?_
  cases verifier with
  | error err => exact rfl
  | ok verifier =>
    refine Protocol.keeps_call (fun _ => permitted) fun acquired => ?_
    cases acquired with
    | error err => exact rfl
    | ok acquired =>
      refine Protocol.keeps_call (fun _ => permitted) fun executable => ?_
      cases executable with
      | error err => exact rfl
      | ok currentExecutable =>
        dsimp only
        split
        · exact rfl
        · refine Protocol.keeps_call (fun _ => permitted) fun applied => ?_
          obtain ⟨applied, _ | err⟩ := applied
          · exact rfl
          · dsimp only
            split
            · exact rfl
            · exact rfl

theorem activate_keeps (target physical running : Bytes) (result : Result) :
    (guarded permits).Keeps (activate s opts snapshot target physical running result) (fun _ _ => True) seen := by
  refine Protocol.keeps_call (fun _ => permitted) fun staging => ?_
  cases staging with
  | error err => exact trivial
  | ok staging =>
    refine Protocol.keeps_seq (activateIn_keeps permitted s opts snapshot target physical running staging result) ?_
    rintro outcome seen' rfl
    exact Protocol.keeps_call (fun _ => permitted) fun _ => trivial

end

/-- Where `inspect` succeeds without `--check`, the version to compare with is that of the
observed generation. -/
def Inspected (opts : Options) (r : Result × Except Err Snapshot) (seen : Seen) : Prop :=
  ∀ snapshot, r.2 = .ok snapshot → opts.check = false →
    ∃ observed, seen.observed = some observed ∧ r.1.currentVersion = some observed.current.version

section

variable (s : Service) (physical : Bytes) (opts : Options) (running : Bytes) (result : Result)

theorem inspectManaged_keeps :
    (guarded permits).Keeps (inspectManaged s physical opts running result) (Inspected opts) seen := by
  refine keeps_ask id fun found => ?_
  cases found with
  | error err => exact nofun
  | ok observed =>
    dsimp only
    split_ifs with differs check
    · exact nofun
    · exact fun _ _ unchecked => absurd check (by simp [unchecked])
    · exact nofun
    · exact nofun
    · exact nofun
    · refine keeps_ask id fun found => ?_
      cases found with
      | error err => exact nofun
      | ok snapshot =>
        dsimp only
        split
        · exact nofun
        · exact fun _ _ _ => ⟨observed, rfl, rfl⟩

theorem inspect_keeps :
    (guarded permits).Keeps (inspect s physical opts running result) (Inspected opts) seen := by
  refine keeps_ask id fun managed => ?_
  match managed with
  | .error err => exact nofun
  | .ok true => exact inspectManaged_keeps s physical opts running result
  | .ok false =>
    refine keeps_ask id fun external => ?_
    cases external with
    | error err => exact nofun
    | ok management =>
      dsimp only
      split_ifs with check
      · exact fun _ _ unchecked => absurd check (by simp [unchecked])
      · exact nofun

end

theorem select_keeps {opts : Options} (allows : ∀ seen, opts.Permits seen → permits seen) (s : Service)
    (snapshot : Snapshot) (physical running : Bytes) {result : Result}
    (inspected : opts.check = false →
      ∃ observed, seen.observed = some observed ∧ result.currentVersion = some observed.current.version) :
    (guarded permits).Keeps (select s opts snapshot physical running result) (fun _ _ => True) seen := by
  refine keeps_ask id fun published => ?_
  cases published with
  | error err => exact trivial
  | ok target =>
    dsimp only
    split_ifs with check settled refused
    · exact trivial
    · exact trivial
    · exact trivial
    · obtain ⟨observed, known, version⟩ := inspected (by simpa using check)
      simp only [version, Option.getD_some, Bool.or_eq_true, Bool.and_eq_true, decide_eq_true_eq,
        Bool.not_eq_true', not_or, not_and, Bool.not_eq_false] at settled refused
      have permitted : permits { seen with target := some target } := by
        refine allows _ ⟨by simpa using check, observed, target, known, rfl, ?_⟩
        rcases lt_trichotomy (compareVersions target observed.current.version) 0 with less | equal | more
        · exact .inr ⟨less, settled.2 less, refused less⟩
        · exact absurd equal settled.1
        · exact .inl more
      exact activate_keeps permitted ..

theorem run_keeps {opts : Options} (allows : ∀ seen, opts.Permits seen → permits seen) (s : Service) :
    (guarded permits).Keeps (run s opts) (fun _ _ => True) seen := by
  unfold run
  dsimp only
  split
  · exact trivial
  · refine keeps_ask id fun cancelled => ?_
    cases cancelled with
    | some err => exact trivial
    | none =>
      dsimp only
      split_ifs with unsupported
      · exact trivial
      · split
        · exact trivial
        · next running parsed =>
            refine keeps_ask id fun executable => ?_
            cases executable with
            | error err => exact trivial
            | ok physical =>
              refine Protocol.keeps_seq (inspect_keeps s physical opts running _) ?_
              rintro ⟨result, err | snapshot⟩ seen' inspected
              · exact trivial
              · exact select_keeps allows s snapshot physical running (inspected snapshot rfl)

end Policy

/-- **The update policy.**  Versions of the canonical syntax are compared by their three
numbers, of any length; and whatever a run is answered, it issues a command of the
activation only without `--check`, for a target above the observed version, or for one
below it with an explicit version and leave to go back. -/
theorem run_policy (s : Service) (opts : Options) :
    (∀ a b, isVersion a = true → isVersion b = true →
      (compareVersions a b < 0 ↔ numbers a < numbers b) ∧ (compareVersions a b = 0 ↔ numbers a = numbers b) ∧
        (0 < compareVersions a b ↔ numbers b < numbers a)) ∧
    (guarded opts.PermitsNumbers).Keeps (run s opts) (fun _ _ => True) {} := by
  refine ⟨fun a b valid valid' => compareVersions_numbers valid valid', run_keeps (fun seen permits => ?_) s⟩
  obtain ⟨unchecked, observed, target, known, published, newer⟩ := permits
  refine ⟨unchecked, observed, target, known, published, fun valid valid' => ?_⟩
  obtain ⟨less, -, more⟩ := compareVersions_numbers valid' valid
  rw [less, more] at newer
  exact newer

/-- A generation and an owner, a service and an update without any option. -/
def generationOf (version : Bytes) : Generation := ⟨1, version, version, lit "amd64", [], ⟨[], List.nodup_nil⟩⟩
def sampleOwner : Owner := ⟨1, [], [], 7, [], []⟩
def sampleService : Service := ⟨lit "v0.9.12", lit "linux", lit "amd64", 7⟩
def sampleOptions : Options := ⟨false, false, false, [], [], [], []⟩

/-- Version 0.9.12 is installed and current, 0.10.0 is published, and every call succeeds. -/
def sampleReply : (c : Call) → c.Reply
  | .ctxErr | .removeAll _ => none
  | .executable | .staging _ => .ok (lit "/opt/microfat")
  | .published _ _ => .ok (lit "0.10.0")
  | .validateDiscovery _ => .ok true
  | .externalManagement _ => .ok .installer
  | .readInstallation _ => .ok ⟨sampleOwner, generationOf (lit "0.9.12"), generationOf (lit "0.9.12")⟩
  | .inspectUpdate _ => .ok ⟨some sampleOwner, some (generationOf (lit "0.9.12")), none⟩
  | .prepareVerifier .. => .ok ([], [])
  | .acquire .. => .ok (generationOf (lit "0.10.0"), [])
  | .apply .. => (⟨generationOf (lit "0.10.0"), true⟩, none)

/-- The run reaches the activation, and with permission. -/
theorem run_policy_ten :
    0 < compareVersions (lit "0.10.0") (lit "0.9.12") ∧
      ∃ seen c, (seen, c) ∈ (guarded sampleOptions.PermitsNumbers).issued sampleReply (run sampleService sampleOptions) {} ∧
        c.Activates ∧ sampleOptions.PermitsNumbers seen := by
  obtain ⟨order, keeps⟩ := run_policy sampleService sampleOptions
  have applied : (((guarded sampleOptions.PermitsNumbers).issued sampleReply
      (run sampleService sampleOptions) {}).any fun step =>
        match step.2 with | .apply .. => true | _ => false) = true := by decide +kernel
  obtain ⟨⟨seen, c⟩, mem, isApply⟩ := List.any_eq_true.mp applied
  have activates : c.Activates := by
    cases c <;> first | exact trivial | cases isApply
  exact ⟨(order _ _ (by decide +kernel) (by decide +kernel)).2.2.mpr (by decide +kernel), seen, c, mem, activates,
    keeps.may sampleReply _ mem activates⟩

end Microfat.Update
