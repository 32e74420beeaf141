/-
# Microfat.Lifecycle.Transaction — replacing or creating a file in one step

`execute` transforms a file: it records what the source is (`takeSourceSnapshot`),
writes the result to a staging file next to the destination, gives that the
metadata the policy asks for, reads it back, and publishes it with one rename.
In place, the destination is locked first and compared with the snapshot right
before the rename; a new file is published without replacing anything.

The callback that produces the content is the environment's.  Deferred functions
are written where they run: the staging file is closed and removed on every way
out before the publication, the lock is released last.
-/
import Microfat.Theory.Sorting
import Microfat.Lifecycle.Files

namespace Microfat.Lifecycle

open Theory

set_option autoImplicit false

def defaultStagingMode : Nat := 0o600
def standardExecMask : Nat := 0o755
def ownerExecuteMask : Nat := 0o100
def modePerm : Nat := 0o777
def modeSetuid : Nat := 2 ^ 23
def modeSetgid : Nat := 2 ^ 22
def modeSticky : Nat := 2 ^ 20
def chmodModeMask : Nat := modePerm ||| modeSetuid ||| modeSetgid ||| modeSticky

def attrSecurityCapability : Bytes := lit "security.capability"
def attrSecurityIMA : Bytes := lit "security.ima"
def attrSecurityEVM : Bytes := lit "security.evm"
def attrSecuritySELinux : Bytes := lit "security.selinux"
def attrUserPrefix : Bytes := lit "user."
def attrAclAccess : Bytes := lit "system.posix_acl_access"
def attrAclDefault : Bytes := lit "system.posix_acl_default"

/-- `*os.PathError` and its relatives. -/
def osError (op : String) (path : Bytes) (n : Nat) : Err :=
  .wrap [.text op, .text " ", .str path, .text ": ", .cause] [.sentinel (.errno n)]

/-- `filepath.Dir`: cut after the last slash, cleaned. -/
def dirPath (path : Bytes) : Bytes :=
  cleanPath (path.reverse.dropWhile (· ≠ slash)).reverse

/-! ## Requests -/

inductive Policy where
  | strict
  | strip
  deriving DecidableEq, Repr

inductive Intent where
  | replaceSource
  | createOnly
  | other (text : Bytes)
  deriving DecidableEq, Repr

def parsePolicy [CaseTable] (raw : Bytes) : Except Err Policy :=
  let trimmed := toLower (trimSpace raw)
  if trimmed = lit "strict" || trimmed = [] then .ok .strict
  else if trimmed = lit "strip" then .ok .strip
  else .error (.about .errInvalidMetadataPolicy
    [.quoted raw, .text " (supported: 'strict', 'strip')"])

/-- `Transaction`; `srcFile` is the file behind an open descriptor, and whether
there is a callback is all that is known of it. -/
structure Transaction where
  srcPath : Bytes
  srcFile : Option Nat
  destPath : Bytes
  intent : Intent
  policy : Bytes
  breakHardlinks : Bool
  transform : Bool

/-- `SourceSnapshot`. -/
structure Snapshot where
  path : Bytes
  ino : Nat
  mode : Nat
  uid : Int
  gid : Int
  nlink : Nat
  size : Nat
  mtime : Int
  xattrs : List (Bytes × Bytes)

/-- An open staging file. -/
structure Staged where
  path : Bytes
  ino : Nat

/-! ## Snapshots -/

def FileInfo.snapshot (fi : FileInfo) (path : Bytes) (xattrs : List (Bytes × Bytes)) : Snapshot :=
  ⟨path, fi.ino, fi.mode, fi.uid, fi.gid, fi.nlink, fi.size, fi.mtime, xattrs⟩

def takeSourceSnapshot (f : Option Nat) (path : Bytes) : Program (Except Err Snapshot) :=
  match f with
  | some ino => do
      match ← fstat ino with
      | .error n => return .error (.wrap [.text "stating source executable: ", .cause] [osError "stat" path n])
      | .ok fi =>
      match ← readFdXattrs ino with
      | .error n =>
        return .error (.wrap [.text "reading extended attributes from fd: ", .cause] [.sentinel (.errno n)])
      | .ok xattrs => do
          snapshotted fi.ino
          return .ok (fi.snapshot path xattrs)
  | none => do
      match ← stat path with
      | .error n =>
        return .error (.wrap [.text "stating source executable ", .str path, .text ": ", .cause]
          [osError "stat" path n])
      | .ok fi =>
      match ← readXattrs path with
      | .error n =>
        return .error (.wrap [.text "reading extended attributes from ", .str path, .text ": ", .cause]
          [.sentinel (.errno n)])
      | .ok xattrs => do
          snapshotted fi.ino
          return .ok (fi.snapshot path xattrs)

/-- One attribute of a source under the strict policy. -/
def validateAttribute (path attr : Bytes) : Option Err :=
  if attr = attrSecurityCapability then
    some (.about .errUnsafeCapabilities
      [.text "file ", .str path, .text " carries file capabilities; use --metadata-policy=strip to discard"])
  else if attr = attrSecurityIMA || attr = attrSecurityEVM then
    some (.about .errUnsafeIntegrityClaim
      [.text "file ", .str path, .text " carries integrity claim ", .quoted attr,
        .text "; use --metadata-policy=strip to discard"])
  else if attr = attrSecuritySELinux || attrUserPrefix.isPrefixOf attr then none
  else some (.about .errUnsupportedXattr
    [.text "file ", .str path, .text " carries unapproved attribute ", .quoted attr,
      .text "; use --metadata-policy=strip to discard"])

variable (R : MapRange)

def validateSnapshot (snap : Snapshot) : Policy → Option Err
  | .strip => none
  | .strict =>
    if snap.mode &&& (modeSetuid ||| modeSetgid) ≠ 0 then
      some (.about .errUnsafeSetuidSetgid
        [.text "file ", .str snap.path, .text " has elevated bits ", .oct snap.mode,
          .text "; use --metadata-policy=strip to strip"])
    else (R.order snap.xattrs).findSome? fun a => validateAttribute snap.path a.1

/-! ## The target -/

def hardLinks (path : Bytes) (nlink : Nat) : Err :=
  .about .errHardLinkDetected
    [.str path, .text " has ", .int nlink, .text " links; pass --break-hardlinks to break link"]

/-- The descriptor of the source is the file its path names. -/
def checkDescriptor (tx : Transaction) (snap : Snapshot) (realSrc : Bytes) : Program (Option Err) :=
  if tx.srcFile.isNone then return none
  else do
    match ← stat realSrc with
    | .error n =>
      return some (.wrap [.cause, .text ": stating source path ", .str realSrc, .text ": ", .cause]
        [.sentinel .errSourceModified, osError "stat" realSrc n])
    | .ok fi =>
      return if fi.ino ≠ snap.ino then
        some (.about .errSourceModified
          [.text "source descriptor does not match path ", .str realSrc]) else none

/-- A destination given for a replacement is another name of the source. -/
def replaceTarget (tx : Transaction) (snap : Snapshot) (cleanSrc realSrc : Bytes) :
    Program (Except Err Bytes) :=
  let cleanDest := cleanPath tx.destPath
  if tx.destPath = [] || cleanDest = cleanSrc || cleanDest = realSrc then return .ok realSrc
  else do
    match ← stat cleanDest with
    | .error n =>
      return .error (.wrap [.text "destination path ", .str cleanDest,
        .text " does not match source for replace-source intent: ", .cause] [osError "stat" cleanDest n])
    | .ok fi =>
      return if fi.ino ≠ snap.ino then
        .error (.errorf [.text "destination path ", .str cleanDest,
          .text " does not match source inode for replace-source intent"] [] []) else .ok cleanDest

/-- The snapshot, the destination and whether it is the source. -/
def resolveTargetAndSnapshot (tx : Transaction) (policy : Policy) :
    Program (Except Err (Snapshot × Bytes × Bool)) := do
  let cleanSrc := cleanPath tx.srcPath
  match ← takeSourceSnapshot tx.srcFile cleanSrc with
  | .error err => return .error err
  | .ok snap =>
  match validateSnapshot R snap policy with
  | some err => return .error err
  | none =>
  let realPath ← evalSymlinks cleanSrc
  let realSrc := realPath.toOption.getD cleanSrc
  match ← checkDescriptor tx snap realSrc with
  | some err => return .error err
  | none =>
  match tx.intent with
  | .replaceSource =>
    match ← replaceTarget tx snap cleanSrc realSrc with
    | .error err => return .error err
    | .ok destPath =>
      if 1 < snap.nlink && !tx.breakHardlinks then return .error (hardLinks cleanSrc snap.nlink)
      else return .ok (snap, destPath, true)
  | .createOnly => return .ok (snap, cleanPath tx.destPath, false)
  -- the intent was checked before
  | .other _ => return .ok (snap, [], false)

/-! ## The staging file -/

def removeFdXattr (ino : Nat) (attr : Bytes) : Program (Option Err) := do
  match ← fremovexattr ino attr with
  | none => return none
  | some n =>
    return if n = Errno.enodata || n = Errno.enotsup then none else some (.sentinel (.errno n))

def stripInheritedStagingACLs (staged : Staged) : Program (Option Err) := do
  match ← removeFdXattr staged.ino attrAclAccess with
  | some err => return some err
  | none => removeFdXattr staged.ino attrAclDefault

/-- Ownership under the strict policy; a failure is forgiven when there was nothing
to change. -/
def preserveOwnership (staged : Staged) (snap : Snapshot) : Program (Option Err) := do
  match ← fchown staged.ino snap.uid snap.gid with
  | none => return none
  | some failed =>
  match ← fstat staged.ino with
  | .error n =>
    return some (.wrap [.cause, .text ": stating staged file after failed chown: ", .cause]
      [.sentinel .errOwnershipPreservation, osError "stat" staged.path n])
  | .ok fi =>
    return if fi.uid ≠ snap.uid || fi.gid ≠ snap.gid then
      some (.wrap [.cause, .text ": cannot preserve uid=", .int snap.uid, .text " gid=", .int snap.gid,
        .text " (staged file has uid=", .int fi.uid, .text " gid=", .int fi.gid,
        .text "): use --metadata-policy=strip: ", .cause]
        [.sentinel .errOwnershipPreservation, osError "chown" staged.path failed])
    else none

def setXattrs (staged : Staged) : List (Bytes × Bytes) → Program (Option Err)
  | [] => return none
  | (attr, val) :: rest => do
      match ← fsetxattr staged.ino attr val with
      | some n =>
        return some (.wrap [.text "setting extended attribute ", .quoted attr, .text ": ", .cause]
          [.sentinel (.errno n)])
      | none => setXattrs staged rest

/-- The mode a transformed file gets. -/
def targetMode (snap : Snapshot) : Policy → Nat
  | .strict => (snap.mode &&& modePerm) ||| (snap.mode &&& modeSticky)
  | .strip =>
    let masked := (snap.mode &&& modePerm) &&& standardExecMask
    if masked &&& ownerExecuteMask = 0 then masked ||| standardExecMask else masked

def preserveMetadata (staged : Staged) (snap : Snapshot) : Policy → Program (Option Err)
  | .strip => return none
  | .strict => do
      match ← preserveOwnership staged snap with
      | some err => return some err
      | none => setXattrs staged (R.order snap.xattrs)

def applyMetadata (staged : Staged) (snap : Snapshot) (policy : Policy) : Program (Option Err) := do
  match ← stripInheritedStagingACLs staged with
  | some err => return some err
  | none =>
  match ← preserveMetadata R staged snap policy with
  | some err => return some err
  | none =>
  match ← fchmod staged.ino (targetMode snap policy) with
  | some n =>
    return some (.wrap [.text "chmodding staged file to ", .oct (targetMode snap policy), .text ": ", .cause]
      [osError "chmod" staged.path n])
  | none => return none

/-- One attribute found on the staging file. -/
def checkStagedAttribute (snap : Snapshot) (policy : Policy) (attr : Bytes) : Option Err :=
  let refuse (message : List Part) : Option Err := some (.about .errReadbackVerification message)
  if attr = attrAclAccess || attr = attrAclDefault then
    refuse [.text "staged file has unapproved inherited ACL ", .quoted attr]
  else if attr = attrSecurityCapability then
    refuse [.text "staged file has unexpected capability ", .quoted attr]
  else if attr = attrSecurityIMA || attr = attrSecurityEVM then
    refuse [.text "staged file has unexpected integrity attribute ", .quoted attr]
  else if attr = attrSecuritySELinux then none
  else match policy with
    | .strip =>
      refuse [.text "staged file has unexpected attribute ", .quoted attr, .text " under strip policy"]
    | .strict =>
      if (snap.xattrs.lookup attr).isSome then none
      else refuse [.text "staged file has unexpected attribute ", .quoted attr,
        .text " not present on source"]

/-- One attribute the staging file has to have. -/
def checkExpectedAttribute (stagedAttrs : List (Bytes × Bytes)) (a : Bytes × Bytes) : Option Err :=
  match stagedAttrs.lookup a.1 with
  | none => some (.about .errReadbackVerification
      [.text "expected attribute ", .quoted a.1, .text " missing on staged file"])
  | some actual =>
    if actual = a.2 then none
    else some (.about .errReadbackVerification
      [.text "attribute ", .quoted a.1, .text " value mismatch on staged file"])

/-- What `Stat` says of the staging file. -/
def checkStagedInfo (fi : FileInfo) (target : Nat) (snap : Snapshot) (policy : Policy) : Option Err :=
  if fi.size = 0 then some (.about .errReadbackVerification [.text "staged file is empty"])
  else if fi.mode &&& chmodModeMask ≠ target then
    some (.about .errReadbackVerification
      [.text "mode ", .oct (fi.mode &&& chmodModeMask), .text " does not match target ", .oct target])
  else if policy = .strict && (fi.uid ≠ snap.uid || fi.gid ≠ snap.gid) then
    some (.about .errReadbackVerification
      [.text "ownership ", .int fi.uid, .text ":", .int fi.gid, .text " does not match ",
        .int snap.uid, .text ":", .int snap.gid])
  else none

def verifyReadback (staged : Staged) (target : Nat) (snap : Snapshot) (policy : Policy) :
    Program (Option Err) := do
  match ← fstat staged.ino with
  | .error n =>
    return some (.wrap [.cause, .text ": stating staged file: ", .cause]
      [.sentinel .errReadbackVerification, osError "stat" staged.path n])
  | .ok fi =>
  match checkStagedInfo fi target snap policy with
  | some err => return some err
  | none =>
  match ← readFdXattrs staged.ino with
  | .error n =>
    return some (.wrap [.cause, .text ": reading staged extended attributes: ", .cause]
      [.sentinel .errReadbackVerification, .sentinel (.errno n)])
  | .ok stagedAttrs =>
  match (R.order stagedAttrs).findSome? fun a => checkStagedAttribute snap policy a.1 with
  | some err => return some err
  | none =>
    return if policy = .strict then
      (R.order snap.xattrs).findSome? (checkExpectedAttribute stagedAttrs) else none

/-- From the new staging file to the closed one. -/
def prepare (staged : Staged) (snap : Snapshot) (policy : Policy) : Program (Option Err) := do
  match ← fchmod staged.ino defaultStagingMode with
  | some n =>
    return some (.wrap [.cause, .text ": setting staging permissions: ", .cause]
      [.sentinel .errStagingFailed, osError "chmod" staged.path n])
  | none =>
  match ← stripInheritedStagingACLs staged with
  | some err =>
    return some (.wrap [.cause, .text ": stripping inherited staging ACLs: ", .cause]
      [.sentinel .errStagingFailed, err])
  | none =>
  match ← transform staged.ino with
  | some err => return some (.wrap [.text "transformation callback failed: ", .cause] [err])
  | none =>
  match ← applyMetadata R staged snap policy with
  | some err => return some err
  | none =>
  match ← verifyReadback R staged (targetMode snap policy) snap policy with
  | some err => return some err
  | none =>
  match ← fsync staged.ino with
  | some n => return some (.wrap [.text "syncing staged file: ", .cause] [osError "sync" staged.path n])
  | none =>
  match ← close staged.ino with
  | some n => return some (.wrap [.text "closing staged file: ", .cause] [osError "close" staged.path n])
  | none => return none

/-! ## Publication -/

def publishCreateOnly (stagedPath destPath : Bytes) : Program (Option Err) := do
  match ← renameNoReplace stagedPath destPath with
  | none => return none
  | some n =>
  if n = Errno.eexist then return some (.about .errDestinationExists [.str destPath])
  else if n = Errno.enosys || n = Errno.einval then do
    -- file systems without `RENAME_NOREPLACE`
    match ← link stagedPath destPath with
    | none => do
        remove stagedPath
        return none
    | some n =>
      return some (if n = Errno.eexist || n = Errno.enotempty then
        .about .errDestinationExists [.str destPath]
      else .wrap [.text "fallback link publication to ", .str destPath, .text ": ", .cause]
        [osError "link" destPath n])
  else return some (.wrap [.text "publishing to ", .str destPath, .text ": ", .cause] [.sentinel (.errno n)])

/-- The destination is still the file of the snapshot. -/
def checkTarget (fi : FileInfo) (destPath : Bytes) (snap : Snapshot) (breakHardlinks : Bool) : Option Err :=
  if fi.ino ≠ snap.ino || fi.size ≠ snap.size || fi.mtime ≠ snap.mtime then
    some (.about .errSourceModified [.str destPath, .text " was modified on disk during transformation"])
  else if 1 < fi.nlink && !breakHardlinks then some (hardLinks destPath fi.nlink)
  else none

def publishTransaction (inPlace : Bool) (stagedPath destPath : Bytes) (snap : Snapshot)
    (breakHardlinks : Bool) : Program (Option Err) :=
  if inPlace then do
    match ← stat destPath with
    | .error n =>
      return some (.wrap [.cause, .text ": verifying target before replacement: ", .cause]
        [.sentinel .errSourceModified, osError "stat" destPath n])
    | .ok fi =>
    match checkTarget fi destPath snap breakHardlinks with
    | some err => return some err
    | none =>
    match ← rename stagedPath destPath with
    | some n =>
      return some (.wrap [.text "replacing ", .str destPath, .text ": ", .cause]
        [osError "rename" stagedPath n])
    | none => return none
  else publishCreateOnly stagedPath destPath

/-- The error after the publication. -/
def durabilityError (dir : Bytes) (n : Nat) : Err :=
  .wrap [.cause, .text ": ", .cause] [.sentinel .errDurabilitySyncFailed, osError "sync" dir n]

/-! ## The transaction -/

/-- The deferred function of a staging file that was not published. -/
def discard (staged : Staged) (err : Err) : Program (Option Err) := do
  let _ ← close staged.ino
  remove staged.path
  return some err

/-- From a new staging file to the end. -/
def transactStaged (tx : Transaction) (policy : Policy) (snap : Snapshot) (destPath : Bytes)
    (inPlace : Bool) (staged : Staged) : Program (Option Err) := do
  match ← prepare R staged snap policy with
  | some err => discard staged err
  | none =>
  match ← publishTransaction inPlace staged.path destPath snap tx.breakHardlinks with
  | some err => discard staged err
  | none =>
  match ← syncDirectory (dirPath destPath) with
  | some n => return some (durabilityError (dirPath destPath) n)
  | none => return none

/-- What runs under the lock. -/
def transact (tx : Transaction) (policy : Policy) (snap : Snapshot) (destPath : Bytes) (inPlace : Bool) :
    Program (Option Err) := do
  let destDir := dirPath destPath
  match ← mkdirAll destDir destPath with
  | some n =>
    return some (.wrap [.text "creating directory ", .str destDir, .text ": ", .cause]
      [osError "mkdir" destDir n])
  | none =>
  match ← createTemp destDir with
  | .error n =>
    return some (.wrap [.cause, .text ": creating temporary file in ", .str destDir, .text ": ", .cause]
      [.sentinel .errStagingFailed, osError "open" destDir n])
  | .ok (path, ino) => transactStaged R tx policy snap destPath inPlace ⟨path, ino⟩

def acquireAdvisoryLock (path : Bytes) : Program (Except Err Nat) := do
  match ← openRead path with
  | .error n =>
    return .error (.wrap [.text "opening ", .str path, .text " for advisory lock: ", .cause]
      [osError "open" path n])
  | .ok ino =>
  match ← flock ino with
  | none => return .ok ino
  | some n =>
    return .error (if n = Errno.eagain then
      .about .errConcurrentTransformation [.text "target ", .str path, .text " is currently locked"]
    else .wrap [.text "locking ", .str path, .text ": ", .cause] [.sentinel (.errno n)])

def execute [CaseTable] (tx : Transaction) : Program (Option Err) :=
  if !tx.transform then return some (.new "transformation callback must not be nil")
  else if tx.srcPath = [] then return some (.new "source path must not be empty")
  else match tx.intent with
  | .other text => return some (.about .errInvalidPublicationIntent [.quoted text])
  | intent =>
  if intent = .createOnly && tx.destPath = [] then
    return some (.new "destination path must not be empty for create-only intent")
  else match parsePolicy tx.policy with
  | .error err => return some err
  | .ok policy => do
  match ← resolveTargetAndSnapshot R tx policy with
  | .error err => return some err
  | .ok (snap, destPath, inPlace) => do
  resolved destPath
  if inPlace then
    match ← acquireAdvisoryLock destPath with
    | .error err => return some err
    | .ok ino => do
        let result ← transact R tx policy snap destPath true
        unlock ino
        return result
  else transact R tx policy snap destPath false

end Microfat.Lifecycle
