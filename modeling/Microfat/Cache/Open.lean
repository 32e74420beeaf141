/-
# Microfat.Cache.Open — opening and verifying a cached file

`openAndValidateAtFD` opens a name in the cache directory, checks the metadata and
the size of the open descriptor and hashes its bytes through that same descriptor.

`ensures_validateOpenedDescriptor` is what a success means, whatever the other
processes do: the descriptor is pinned on a regular file of the expected size and
digest.  It is stated over an arbitrary rely and guarantee (`Frame`), so that it
serves both a cache in which everybody follows the publication protocol and one in
which nothing but verified files can be trusted.
-/
import Microfat.Posix.Calls
import Microfat.Format.Container

namespace Microfat.Cache

open Theory Format Posix

set_option autoImplicit false

def verifyBufferSize : Nat := 64 * 1024

/-- `S_IWGRP | S_IWOTH | S_ISUID | S_ISGID | S_ISVTX`. -/
def unsafeBits : Nat := 0o7022

/-- `S_IXUSR`. -/
def ownerExecute : Nat := 0o100

def errnoError (n : Nat) : Err := .sentinel (.errno n)

def isSymlinkErr (err : Err) : Bool := Err.is err (.errno Errno.eloop)

def isNotExistErr (err : Err) : Bool :=
  Err.is err .osErrNotExist || Err.is err (.errno Errno.enoent)

def validateCacheMetadata (stat : Stat) (expectedUID : Nat) : Option Err :=
  if stat.uid ≠ expectedUID || stat.mode &&& unsafeBits ≠ 0 then some (.sentinel .errUnsafeFile)
  else none

def validateCacheEntryMetadata (euid : Nat) (stat : Stat) (label : Bytes) : Option Err :=
  if stat.kind ≠ .regular then
    some (.about .errNonRegularFile
      [.str label, .text " (mode 0o", .oct (stat.kind.bits ||| stat.mode), .text ")"])
  else
    (validateCacheMetadata stat euid).map fun err => .wrap [.cause, .text ": ", .str label] [err]

def classifyFailedCacheOpen (euid : Nat) (label : Bytes) (openErr : Err) (stat : Except Nat Stat) :
    Err :=
  match stat with
  | .error statErr =>
    .wrap [.cause, .text ": cannot inspect cache entry ", .str label,
      .text " after open failure: ", .cause, .text " (metadata check: ", .cause, .text ")"]
      [.sentinel .errUnsafeFile, openErr, errnoError statErr]
  | .ok stat =>
    match validateCacheEntryMetadata euid stat label with
    | some err => .wrap [.cause, .text ": open failed: ", .cause] [err, openErr]
    | none => openErr

/-- The read loop of `verifyCachedFD`.  Every read before the end of the file
delivers a byte, so one round more than the file has bytes reaches the end. -/
def hashDescriptor (fd : Nat) : Nat → Nat → Bytes → Program (Option Bytes)
  | 0, _, _ => return none
  | fuel + 1, offset, hashed => do
      match ← pread fd offset verifyBufferSize with
      | .error _ => return none
      | .ok [] => return some hashed
      | .ok (b :: rest) => hashDescriptor fd fuel (offset + (rest.length + 1)) (hashed ++ b :: rest)

def verifyCachedFD (H : Sha256) (fd size : Nat) (expectedHex : Bytes) : Program Bool := do
  match ← hashDescriptor fd (size + 1) 0 [] with
  | none => return false
  | some hashed => return decide (hexEncode (H.sum hashed) = expectedHex)

/-- Close the descriptor and fail. -/
def closeAndFail (fd : Nat) (cleanup : Program Unit) (err : Err) : Program (Except Err Nat) := do
  let _ ← close fd
  cleanup
  return .error err

def validateOpenedDescriptor (H : Sha256) (fd : Nat) (label : Bytes) (expectedSize : Int64)
    (expectedSHA256 : Bytes) (onCorrupt : Program Unit) : Program (Except Err Nat) := do
  match ← fstat fd with
  | .error statErr =>
    closeAndFail fd (return ()) (.wrap [.text "fstat cache descriptor: ", .cause]
      [errnoError statErr])
  | .ok stat =>
    let euid ← geteuid
    match validateCacheEntryMetadata euid stat label with
    | some err => closeAndFail fd (return ()) err
    | none =>
      if stat.mode &&& ownerExecute = 0 then
        closeAndFail fd (return ()) (.about .errNotExecutable [.str label])
      else if (stat.size : Int) ≠ expectedSize.toInt then
        closeAndFail fd onCorrupt (.about .errCacheSizeMismatch
          [.str label, .text " (expected ", .int expectedSize.toInt, .text " bytes, got ",
            .int stat.size, .text " bytes)"])
      else
        if ← verifyCachedFD H fd stat.size expectedSHA256 then return .ok fd
        else
          closeAndFail fd onCorrupt (.about .errPayloadCorrupted
            [.text "cache file ", .str label, .text " checksum mismatch"])

def removeCorrupt (removeOnCorrupt : Bool) (name : Bytes) : Program Unit := do
  if removeOnCorrupt then
    let _ ← unlinkat name
    return ()
  else return ()

/-- `OpenAndValidateAtFDWithOpener` with the canonical opener. -/
def openAndValidateAtFD (H : Sha256) (name : Bytes) (expectedSize : Int64) (expectedSHA256 : Bytes)
    (removeOnCorrupt : Bool) : Program (Except Err Nat) := do
  match ← openat name with
  | .error openErr =>
    if isNotExistErr (errnoError openErr) then return .error (errnoError openErr)
    else
      let stat ← fstatat name
      let euid ← geteuid
      return .error (classifyFailedCacheOpen euid name (errnoError openErr) stat)
  | .ok fd =>
    validateOpenedDescriptor H fd name expectedSize expectedSHA256
      (removeCorrupt removeOnCorrupt name)

def openAndValidateVariantAtFD (H : Sha256) (name : Bytes) (entry : VariantEntry)
    (removeOnCorrupt : Bool) : Program (Except Err Nat) :=
  openAndValidateAtFD H name entry.uncompressedSize entry.sha256 removeOnCorrupt

/-! ## What a verified descriptor is -/

section

variable {ι : Type}

/-- Process `i` holds `fd` on a file that no longer changes. -/
structure Pinned (i : ι) (fd : Nat) (f : OpenFile) (n : Inode) (w : World ι) : Prop where
  owner : w.owner fd = some i
  file : w.file fd = some f
  frozen : w.frozen f.ino = true
  inode : w.inode f.ino = n

/-- The entry's content: its exact size and digest. -/
def Matches (H : Sha256) (size : Int64) (sha256 : Bytes) (n : Inode) : Prop :=
  (n.content.length : Int) = size.toInt ∧ hexEncode (H.sum n.content) = sha256

/-- No error of a lookup is an `execve` failure. -/
def Refused (err : Err) : Prop := Err.is err .errExecve = false

/-- What a process may count on while it verifies: its assertion `P` and its
descriptors survive the others, frozen files keep their bytes, and reading and
closing are within its own guarantee. -/
structure Frame (i : ι) (rely guar : World ι → World ι → Prop) (P : World ι → Prop) : Prop where
  refl : ∀ w, rely w w
  stable : Stable rely P
  owned : ∀ w w' fd, rely w w' → w.owner fd = some i →
    w'.owner fd = some i ∧ w'.file fd = w.file fd
  kept : ∀ w w' ino, rely w w' → w.frozen ino = true →
    w'.frozen ino = true ∧ w'.inode ino = w.inode ino
  idle : ∀ w, P w → guar w w
  close : ∀ w fd, P w → w.owner fd = some i → guar w (w.setFile fd none) ∧ P (w.setFile fd none)

end

section

variable {ι : Type} [DecidableEq ι] {i : ι} {rely guar : World ι → World ι → Prop}
  {P : World ι → Prop} {α : Type}

omit [DecidableEq ι] in
theorem Frame.pinned (frame : Frame i rely guar P) (fd : Nat) (f : OpenFile) (n : Inode) :
    Stable rely fun w => P w ∧ Pinned i fd f n w := by
  intro w w' ⟨holds, pinned⟩ moved
  obtain ⟨owner, file⟩ := frame.owned w w' fd moved pinned.owner
  obtain ⟨frozen, inode⟩ := frame.kept w w' f.ino moved pinned.frozen
  exact ⟨frame.stable w w' holds moved,
    ⟨owner, file.trans pinned.file, frozen, inode.trans pinned.inode⟩⟩

omit [DecidableEq ι] in
theorem Frame.owns (frame : Frame i rely guar P) (fd : Nat) :
    Stable rely fun w => P w ∧ w.owner fd = some i := by
  intro w w' ⟨holds, owner⟩ moved
  exact ⟨frame.stable w w' holds moved, (frame.owned w w' fd moved owner).1⟩

variable {fd : Nat} {w : World ι}

theorem ensures_closeAndFail (frame : Frame i rely guar P) {cleanup : Program Unit} {err : Err}
    {Q : Except Err Nat → World ι → Prop}
    (cleans : ∀ w, P w → Ensures (step i) rely guar cleanup (fun _ => P) w)
    (fails : ∀ w, P w → Q (.error err) w) (holds : P w ∧ w.owner fd = some i) :
    Ensures (step i) rely guar (closeAndFail fd cleanup err) Q w := by
  unfold closeAndFail
  refine ensures_call (frame.owns fd) holds ?_
  intro w x ⟨holds, owner⟩
  obtain ⟨kept, next⟩ := frame.close w fd holds owner
  refine ⟨kept, ensures_seq frame.refl (cleans _ next) ?_⟩
  intro _ w holds
  exact ensures_ret frame.stable holds fails

variable {f : OpenFile}

/-- The read loop sees the whole file. -/
theorem ensures_hashDescriptor (frame : Frame i rely guar P) {n : Inode} (fuel : Nat) :
    ∀ {offset : Nat} {hashed : Bytes} {w : World ι},
      n.content = hashed ++ n.content.drop offset → P w ∧ Pinned i fd f n w →
      Ensures (step i) rely guar (hashDescriptor fd fuel offset hashed)
        (fun all w => (P w ∧ Pinned i fd f n w) ∧ ∀ bytes, all = some bytes → bytes = n.content) w := by
  induction fuel with
  | zero =>
    intro offset hashed w _ holds
    exact ensures_ret (frame.pinned fd f n) holds fun w holds => ⟨holds, by simp⟩
  | succ fuel ih =>
    intro offset hashed w sofar holds
    rw [hashDescriptor]
    refine ensures_call (frame.pinned fd f n) holds ?_
    intro w x ⟨holds, pinned⟩
    cases failed : x.errno with
    | some e =>
      simp only [step, failed]
      exact ⟨frame.idle w holds,
        ensures_ret (frame.pinned fd f n) ⟨holds, pinned⟩ fun w holds => ⟨holds, by simp⟩⟩
    | none =>
      simp only [step, failed, pinned.file, pinned.inode]
      refine ⟨frame.idle w holds, ?_⟩
      cases read : (n.content.drop offset).take (max 1 (min x.count verifyBufferSize)) with
      | nil =>
        -- a read before the end delivers at least one byte
        have ended : n.content.drop offset = [] := by
          rcases List.take_eq_nil_iff.mp read with zero | done
          · omega
          · exact done
        refine ensures_ret (frame.pinned fd f n) ⟨holds, pinned⟩ fun w holds => ⟨holds, ?_⟩
        intro bytes same
        rw [sofar, ended, List.append_nil]
        exact (Option.some.inj same).symm
      | cons b rest =>
        have split : n.content.drop offset =
            (b :: rest) ++ n.content.drop (offset + (rest.length + 1)) := by
          have part := List.prefix_iff_eq_append.mp (read ▸ List.take_prefix _ (n.content.drop offset))
          rw [List.drop_drop] at part
          exact part.symm
        refine ih ?_ ⟨holds, pinned⟩
        rw [List.append_assoc, ← split]
        exact sofar

variable {H : Sha256}

theorem ensures_verifyCachedFD (frame : Frame i rely guar P) {size : Nat} {n : Inode}
    {expectedHex : Bytes} (holds : P w ∧ Pinned i fd f n w) :
    Ensures (step i) rely guar (verifyCachedFD H fd size expectedHex)
      (fun ok w => (P w ∧ Pinned i fd f n w) ∧
        (ok = true → hexEncode (H.sum n.content) = expectedHex)) w := by
  refine ensures_seq frame.refl (ensures_hashDescriptor frame (size + 1) (by simp) holds) ?_
  rintro (_ | bytes) w ⟨holds, all⟩
  · exact ensures_ret (frame.pinned fd f n) holds fun w holds => ⟨holds, by simp⟩
  · refine ensures_ret (frame.pinned fd f n) holds fun w holds => ⟨holds, ?_⟩
    rw [all bytes rfl]
    exact of_decide_eq_true

variable {label : Bytes}

theorem validateCacheEntryMetadata_refused {euid : Nat} {stat : Stat} {err : Err}
    (failed : validateCacheEntryMetadata euid stat label = some err) :
    Refused err := by
  unfold validateCacheEntryMetadata validateCacheMetadata at failed
  split_ifs at failed <;> cases failed <;> rfl

/-- **A verified descriptor is pinned on the expected bytes.**  `pre` is what holds
when the descriptor was just opened; taking its status freezes the file. -/
theorem ensures_validateOpenedDescriptor (frame : Frame i rely guar P) {pre : World ι → Prop}
    {size : Int64} {sha256 : Bytes} {onCorrupt : Program Unit} (opened : Stable rely pre)
    (frames : ∀ w, pre w → P w)
    (freezes : ∀ w, pre w → w.owner fd = some i → w.file fd = some f →
      guar w (w.freeze f.ino) ∧ P (w.freeze f.ino))
    (cleans : ∀ w, P w → Ensures (step i) rely guar onCorrupt (fun _ => P) w) (holds : pre w)
    (owner : w.owner fd = some i) (file : w.file fd = some f) :
    Ensures (step i) rely guar (validateOpenedDescriptor H fd label size sha256 onCorrupt)
      (fun r w => P w ∧ match r with
        | .ok got => got = fd ∧ ∃ n, Pinned i fd f n w ∧ Matches H size sha256 n
        | .error err => Refused err) w := by
  have stable : Stable rely fun w => pre w ∧ w.owner fd = some i ∧ w.file fd = some f := by
    intro w w' ⟨holds, owner, file⟩ moved
    obtain ⟨owner', same⟩ := frame.owned w w' fd moved owner
    exact ⟨opened w w' holds moved, owner', same.trans file⟩
  have nothing : ∀ w, P w → Ensures (step i) rely guar (.ret () : Program Unit) (fun _ => P) w :=
    fun w holds => ensures_ret frame.stable holds fun _ holds => holds
  unfold validateOpenedDescriptor
  refine ensures_call stable ⟨holds, owner, file⟩ ?_
  intro w x ⟨holds, owner, file⟩
  cases failed : x.errno with
  | some e =>
    simp only [step, failed]
    refine ⟨frame.idle w (frames w holds), ?_⟩
    exact ensures_closeAndFail frame nothing
      (fun w holds => ⟨holds, rfl⟩) ⟨frames w holds, owner⟩
  | none =>
    simp only [step, failed, file]
    obtain ⟨froze, holds⟩ := freezes w holds owner file
    refine ⟨froze, ?_⟩
    have pinned : P (w.freeze f.ino) ∧ Pinned i fd f (w.inode f.ino) (w.freeze f.ino) :=
      ⟨holds, owner, file, by simp, rfl⟩
    generalize w.inode f.ino = n at pinned
    refine ensures_call (frame.pinned fd f n) pinned ?_
    intro w x holds
    refine ⟨frame.idle w holds.1, ?_⟩
    have own := holds.2.owner
    simp only [step]
    split
    · rename_i err bad
      exact ensures_closeAndFail frame nothing
        (fun w holds => ⟨holds, validateCacheEntryMetadata_refused bad⟩) ⟨holds.1, own⟩
    · split
      · exact ensures_closeAndFail frame nothing (fun w holds => ⟨holds, rfl⟩)
          ⟨holds.1, own⟩
      · split
        · exact ensures_closeAndFail frame cleans (fun w holds => ⟨holds, rfl⟩)
            ⟨holds.1, own⟩
        · rename_i length
          refine ensures_seq frame.refl (ensures_verifyCachedFD frame holds) ?_
          rintro (_ | _) w ⟨holds, digest⟩
          · exact ensures_closeAndFail frame cleans (fun w holds => ⟨holds, rfl⟩)
              ⟨holds.1, holds.2.owner⟩
          · refine ensures_ret (frame.pinned fd f n) holds fun w holds => ⟨holds.1, rfl, ?_⟩
            exact ⟨n, holds.2, Decidable.not_not.mp length, digest rfl⟩

theorem classifyFailedCacheOpen_refused {euid : Nat} {openErr : Nat} {stat : Except Nat Stat} :
    Refused (classifyFailedCacheOpen euid label (errnoError openErr) stat) := by
  unfold classifyFailedCacheOpen
  cases stat with
  | error statErr => rfl
  | ok stat =>
    dsimp only
    cases checked : validateCacheEntryMetadata euid stat label with
    | none => rfl
    | some err =>
      have inner := validateCacheEntryMetadata_refused checked
      unfold Refused Err.is at inner ⊢
      rw [GoError.is_wrap, List.any_cons, inner]
      rfl

/-- **Opening and verifying a name.**  `opens` says what a process may assume about
the file it just opened. -/
theorem ensures_openAndValidateAtFD (frame : Frame i rely guar P) (pre : OpenFile → World ι → Prop)
    {name : Bytes} {size : Int64} {sha256 : Bytes} {removeOnCorrupt : Bool}
    (opened : ∀ f, Stable rely (pre f)) (frames : ∀ f w, pre f w → P w)
    (freezes : ∀ fd f w, pre f w → w.owner fd = some i → w.file fd = some f →
      guar w (w.freeze f.ino) ∧ P (w.freeze f.ino))
    (opens : ∀ w x, P w → guar w (step i w (.openat name) x).1 ∧ P (step i w (.openat name) x).1 ∧
      ∀ fd, (step i w (.openat name) x).2 = .ok fd → ∃ f,
        (step i w (.openat name) x).1.owner fd = some i ∧
        (step i w (.openat name) x).1.file fd = some f ∧ pre f (step i w (.openat name) x).1)
    (stats : ∀ w x, P w → guar w (step i w (.fstatat name) x).1 ∧ P (step i w (.fstatat name) x).1)
    (cleans : ∀ w, P w → Ensures (step i) rely guar (removeCorrupt removeOnCorrupt name) (fun _ => P) w)
    (holds : P w) :
    Ensures (step i) rely guar (openAndValidateAtFD H name size sha256 removeOnCorrupt)
      (fun r w => P w ∧ match r with
        | .ok fd => ∃ f n, Pinned i fd f n w ∧ Matches H size sha256 n
        | .error err => Refused err) w := by
  unfold openAndValidateAtFD
  refine ensures_call frame.stable holds ?_
  intro w x holds
  obtain ⟨kept, holds, reply⟩ := opens w x holds
  refine ⟨kept, ?_⟩
  cases answer : (step i w (.openat name) x).2 with
  | error openErr =>
    dsimp only
    split
    · exact ensures_ret frame.stable holds fun w holds => ⟨holds, rfl⟩
    · refine ensures_call frame.stable holds ?_
      intro w x holds
      obtain ⟨kept, holds⟩ := stats w x holds
      refine ⟨kept, ensures_call frame.stable holds ?_⟩
      intro w x holds
      refine ⟨frame.idle w holds, ?_⟩
      exact ensures_ret frame.stable holds fun w holds =>
        ⟨holds, classifyFailedCacheOpen_refused⟩
  | ok fd =>
    obtain ⟨f, owner, file, ready⟩ := reply fd answer
    refine ensures_mono ?_ (ensures_validateOpenedDescriptor frame (opened f) (frames f)
      (freezes fd f) cleans ready owner file)
    rintro (err | got) w ⟨holds, result⟩
    · exact ⟨holds, result⟩
    · obtain ⟨rfl, n, pinned, good⟩ := result
      exact ⟨holds, f, n, pinned, good⟩

end

end Microfat.Cache
