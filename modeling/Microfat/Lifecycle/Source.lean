/-
# Microfat.Lifecycle.Source — which name a replacement replaces

A replacement renames the staging file over one directory entry.  Without a
destination that entry is where the symbolic links of the source path end; a
destination that is another name of the source's file is used as it is, its own
last link not followed.  So the source path leads to the new file exactly when the
replaced entry is one of those that following the source path visits (`trail`).

* `follow_replaced`: what following a path finds after one entry was replaced;
* `execute_reaches_iff`: **a successful replacement is what the source path leads to
  iff the replaced entry is on its trail**;
* `replaced_link`: a destination that is a link to the source loses the link, and the
  source keeps its old file.
-/
import Microfat.Lifecycle.Atomic

namespace Microfat.Lifecycle

open Theory

set_option autoImplicit false

/-! ## Following a path -/

section Paths

variable {ι : Type}

/-- The entries that following a path visits. -/
def World.trail (w : World ι) : Nat → Loc → List Loc
  | 0, _ => []
  | depth + 1, e =>
    e :: match w.bind e with
      | none => []
      | some ino =>
        match (w.node ino).kind with
        | .symlink target => w.trail depth target
        | _ => []

/-- Every entry is in a directory. -/
def World.Rooted (w : World ι) : Prop := ∀ e i, w.bind e = some i → ∀ p ∈ World.above e, w.bind p ≠ none

/-- One entry names a new regular file, and every other entry what it named before. -/
structure Replaced (w : World ι) (dest : Loc) (ino : Nat) (w' : World ι) : Prop where
  bound : w'.bind dest = some ino
  young : w.nextIno ≤ ino
  regular : (w'.node ino).kind = .regular
  others : ∀ e, e ≠ dest → w'.bind e = w.bind e
  kinds : ∀ i, i < w.nextIno → (w'.node i).kind = (w.node i).kind

/-- **Following a path after a replacement** ends at the new file if the path visits the
replaced entry, and at an old file otherwise. -/
theorem follow_replaced {w w' : World ι} {dest : Loc} {ino : Nat} (h : Replaced w dest ino w') (sound : w.Sound)
    (depth : Nat) (e : Loc) :
    dest ∈ w.trail depth e ∧ w'.follow depth e = .ok ino ∨
      dest ∉ w.trail depth e ∧ ∀ j, w'.follow depth e = .ok j → j < w.nextIno := by
  induction depth generalizing e with
  | zero =>
    refine .inr ⟨by simp [World.trail], fun j reached => ?_⟩
    cases reached
  | succ depth ih =>
    rw [World.trail, World.follow]
    by_cases same : e = dest
    · subst same
      left
      rw [h.bound]
      dsimp only
      rw [h.regular]
      exact ⟨List.mem_cons_self, rfl⟩
    · rw [h.others e same]
      cases found : w.bind e with
      | none => exact .inr ⟨by simpa using Ne.symm same, fun j reached => by cases reached⟩
      | some i =>
        have old := sound e i found
        dsimp only
        rw [h.kinds i old]
        have elsewhere : ∀ l : List Loc, dest ∈ e :: l ↔ dest ∈ l := by simp [Ne.symm same]
        rw [elsewhere]
        cases (w.node i).kind with
        | symlink target => exact ih target
        | regular | directory | special =>
          right
          refine ⟨by simp, fun j reached => ?_⟩
          cases reached
          exact old

end Paths

/-! ## The replaced entry -/

section Transact

variable {ι : Type} [DecidableEq ι] (names : Names) (me : ι) (R : MapRange)

omit [DecidableEq ι] in
/-- A publication in place changes one entry, besides giving the staging name up. -/
theorem Placed.replaced {w₀ w w' : World ι} {dest place : Loc} {ino : Nat} (placed : Placed dest place ino w w')
    (h : Staging w₀ (World.above dest) place ino w) (rooted : w₀.Rooted) (taken : w₀.bind dest ≠ none) :
    Replaced w₀ dest ino w' := by
  refine ⟨placed.bound, h.young, (placed.kinds ino).trans h.regular, fun e other => ?_, fun i old => ?_⟩
  · by_cases staging : e = place
    · rw [staging, placed.gone, h.free]
    · rw [placed.others e other staging]
      by_cases above : e ∈ World.above dest
      · obtain ⟨there, found⟩ := Option.ne_none_iff_exists'.mp taken
        obtain ⟨i, bound⟩ := Option.ne_none_iff_exists'.mp (rooted _ _ found e above)
        rw [h.entries e i bound, bound]
      · exact h.only e above staging
  · rw [placed.kinds i, h.nodes i old]

/-! ## A world nobody else changes -/

/-- The kernel when `filepath.EvalSymlinks` says what the links say: its answer, or its
error, is that of `names`. -/
def still (w : World ι) : (c : Call) → Choice → World ι × c.Reply
  | .evalSymlinks path, _ => (w, names.evalSymlinks path)
  | c, x => step names me w c x

theorem still_within (w : World ι) (c : Call) (x : Choice) : ∃ y, still names me w c x = step names me w c y := by
  cases c with
  | evalSymlinks path => exact ⟨{ x with errno := none }, rfl⟩
  | _ => exact ⟨x, rfl⟩

/-- The source path with its links resolved, if they can be. -/
def resolvedSource (tx : Transaction) : Bytes :=
  ((names.evalSymlinks (cleanPath tx.srcPath)).toOption).getD (cleanPath tx.srcPath)

/-- A destination that is the source by its text. -/
def DefaultDest (tx : Transaction) : Prop := ByText tx (resolvedSource names tx)

/-- The entry to be replaced is one that following the source path visits. -/
def OnTrail (tx : Transaction) (w : World ι) : Prop :=
  (DefaultDest names tx → names.entry (resolvedSource names tx) ∈ w.trail 40 (names.entry tx.srcPath)) ∧
    (¬ DefaultDest names tx → names.entry (cleanPath tx.destPath) ∈ w.trail 40 (names.entry tx.srcPath))

/-- `names` says of a path what the links of the world say: cleaning it does not change where it
leads, and its resolution is the last entry that following it visits. -/
structure Agrees (path : Bytes) (w : World ι) : Prop where
  cleaned : names.entry (cleanPath path) = names.entry path
  resolved : ∀ real, names.evalSymlinks (cleanPath path) = .ok real →
    (w.trail 40 (names.entry path)).getLast? = some (names.entry real)

omit [DecidableEq ι] in
/-- Without a destination of its own the condition holds, as far as cleaning and resolving the
source path agree with the links. -/
theorem onTrail_of_default {tx : Transaction} {w : World ι} (agrees : Agrees names tx.srcPath w)
    (default : DefaultDest names tx) : OnTrail names tx w := by
  refine ⟨fun _ => ?_, fun other => absurd default other⟩
  unfold resolvedSource
  cases real : names.evalSymlinks (cleanPath tx.srcPath) with
  | error n =>
    show names.entry (cleanPath tx.srcPath) ∈ _
    rw [agrees.cleaned]
    exact List.mem_cons_self
  | ok path => exact List.mem_of_getLast? (agrees.resolved path real)

/-- The source path leads to a new file with what the callback wrote. -/
def SourceReplaced (tx : Transaction) (w w' : World ι) : Prop :=
  ∃ ino, w'.follow 40 (names.entry tx.srcPath) = .ok ino ∧ w.nextIno ≤ ino ∧
    contentsOf w'.log = [(w'.node ino).content]

/-- The destination a replacement settles on. -/
def Chosen (tx : Transaction) (destPath : Bytes) : Prop := Settles tx (resolvedSource names tx) destPath

omit [DecidableEq ι] in
theorem onTrail_iff {tx : Transaction} {w : World ι} {destPath : Bytes} (chosen : Chosen names tx destPath) :
    OnTrail names tx w ↔ names.entry destPath ∈ w.trail 40 (names.entry tx.srcPath) := by
  rcases chosen with ⟨default, rfl⟩ | ⟨other, rfl⟩
  · simp [OnTrail, DefaultDest, default]
  · simp [OnTrail, DefaultDest, other]

theorem execute_renews [CaseTable] (tx : Transaction) (replaces : tx.intent = .replaceSource) {w : World ι}
    (sound : w.Sound) (rooted : w.Rooted) (fresh : w.log = []) :
    Leads (still names me) (execute R tx)
      (fun r w' => r = none → ∃ destPath, Chosen names tx destPath ∧
        ∃ ino, Replaced w (names.entry destPath) ino w' ∧ contentsOf w'.log = [(w'.node ino).content]) w := by
  rw [execute, replaces]
  split
  · rintro ⟨⟩
  split
  · rintro ⟨⟩
  dsimp only
  split
  · rintro ⟨⟩
  cases parsePolicy tx.policy with
  | error err => rintro ⟨⟩
  | ok policy =>
  refine leads_seq (resolveTargetAndSnapshot_leads names me R (still_within names me) tx policy w) ?_
  rintro (err | ⟨snap, destPath, inPlace⟩) w₁ ⟨-, target⟩
  · rintro ⟨⟩
  obtain ⟨rfl, -, replacement⟩ := target snap destPath inPlace rfl
  obtain ⟨rfl, _, chosen⟩ := replacement replaces
  refine leads_call fun _ => ?_
  have prior : ∀ lock, Prior w [] { (w.note (.snapshot me snap.ino)).note (.target me destPath) with lock } := by
    have start := Prior.refl sound
    exact fun _ => ⟨⟨start.entries, start.nodes⟩, start.sound, start.grown, start.only⟩
  rw [if_pos rfl]
  refine leads_seq ((acquireAdvisoryLock_leads names me destPath _).narrow (still_within names me)) ?_
  rintro (err | ino) w₂ ⟨-, locked⟩
  · rintro ⟨⟩
  obtain ⟨rfl, taken⟩ := locked ino rfl
  refine leads_seq ((transact_leads names me R tx policy snap destPath sound (prior _) (fun _ => taken)
    (by simp [fresh, stagingsOf, World.note]) (by simp [fresh, contentsOf, World.note])).narrow (still_within names me)) ?_
  intro r w₃ done
  refine leads_call fun _ fine => ?_
  obtain ⟨place, ino', u, staging, placed⟩ := done.placed (by simp [fine])
  obtain ⟨_, bound, -, content, -⟩ := (done.published (by simp [fine])).file
  obtain rfl := Option.some.inj (placed.bound.symm.trans bound)
  have replaced := placed.replaced staging rooted taken
  simp only [still, step]
  split
  · exact ⟨destPath, chosen, ino', { replaced with }, content⟩
  · exact ⟨destPath, chosen, ino', replaced, content⟩

/-- **What a successful replacement replaces.**  Nobody else changing anything, the
source path leads to the new file iff the entry the file was renamed over is one
that following the source path visits. -/
theorem execute_reaches_iff [CaseTable] (tx : Transaction) (replaces : tx.intent = .replaceSource) (w w' : World ι)
    (outcomes : List Choice) (sound : w.Sound) (rooted : w.Rooted) (fresh : w.log = [])
    (ran : (execute R tx).runWith (still names me) w outcomes = some (none, w')) :
    SourceReplaced names tx w w' ↔ OnTrail names tx w := by
  obtain ⟨destPath, chosen, ino, replaced, content⟩ :=
    (execute_renews names me R tx replaces sound rooted fresh).outcome ran rfl
  rw [onTrail_iff names chosen, SourceReplaced]
  rcases follow_replaced replaced sound 40 (names.entry tx.srcPath) with ⟨on, reached⟩ | ⟨off, old⟩
  · exact ⟨fun _ => on, fun _ => ⟨ino, reached, replaced.young, content⟩⟩
  · refine ⟨?_, fun on => absurd on off⟩
    rintro ⟨j, reached, young, -⟩
    exact absurd (old j reached) (Nat.not_lt.mpr young)

end Transact

/-! ## A link to the source -/

/-- `/bin/app`, and `/bin/link` pointing to it. -/
def linkedFile : World Unit where
  bind e :=
    if e = [] then some 0 else if e = [lit "bin"] then some 1 else if e = [lit "bin", lit "app"] then some 2
    else if e = [lit "bin", lit "link"] then some 3 else none
  node i :=
    if i ≤ 1 then World.directory 1
    else if i = 2 then ⟨.regular, lit "old", 0o755, 7, 7, [], 2, 1⟩
    else ⟨.symlink [lit "bin", lit "app"], [], 0o777, 7, 7, [], 2, 1⟩
  nextIno := 4
  lock _ := none
  creator _ := none
  log := []

theorem linkedFile_bound {e : Loc} {i : Nat} (there : linkedFile.bind e = some i) :
    e = [] ∧ i = 0 ∨ e = [lit "bin"] ∧ i = 1 ∨ e = [lit "bin", lit "app"] ∧ i = 2 ∨
      e = [lit "bin", lit "link"] ∧ i = 3 := by
  simp only [linkedFile] at there
  split_ifs at there <;> simp_all

theorem linkedFile_sound : linkedFile.Sound := by
  intro e i there
  rcases linkedFile_bound there with ⟨-, rfl⟩ | ⟨-, rfl⟩ | ⟨-, rfl⟩ | ⟨-, rfl⟩ <;> decide

theorem linkedFile_rooted : linkedFile.Rooted := by
  intro e i there
  rcases linkedFile_bound there with ⟨rfl, -⟩ | ⟨rfl, -⟩ | ⟨rfl, -⟩ | ⟨rfl, -⟩ <;> decide

def linkNames : Names where
  entry := plainNames.entry
  evalSymlinks path := .ok (if path = lit "/bin/link" then lit "/bin/app" else path)

/-- Replace the source, or the source under the name of the link. -/
def replaceVia (destPath : Bytes) : Transaction :=
  ⟨lit "/bin/app", none, destPath, .replaceSource, [], false, true⟩

section

local instance sourceTable : CaseTable := CaseTable.ascii

theorem linkNames_agrees : Agrees linkNames (replaceVia []).srcPath linkedFile := by
  refine ⟨by decide +kernel, fun real same => ?_⟩
  cases same
  decide +kernel

theorem execute_reaches_iff_default : ∃ w', (execute .inserted (replaceVia [])).runWith (still linkNames ())
      linkedFile (List.replicate 30 fineChoice) = some (none, w') ∧
    (SourceReplaced linkNames (replaceVia []) linkedFile w' ↔ OnTrail linkNames (replaceVia []) linkedFile) ∧
    SourceReplaced linkNames (replaceVia []) linkedFile w' := by
  have succeeds : (((execute .inserted (replaceVia [])).runWith (still linkNames ()) linkedFile
      (List.replicate 30 fineChoice)).any fun r => r.1.isNone) = true := by decide +kernel
  rw [Option.any_eq_true] at succeeds
  obtain ⟨⟨result, w'⟩, ran, done⟩ := succeeds
  obtain rfl := Option.isNone_iff_eq_none.mp done
  have reaches := execute_reaches_iff linkNames () .inserted (replaceVia []) rfl linkedFile w' _ linkedFile_sound
    linkedFile_rooted rfl ran
  exact ⟨w', ran, reaches, reaches.mpr (onTrail_of_default linkNames linkNames_agrees (.inl rfl))⟩

/-- **The link is replaced and the source is not**: the run succeeds, the source path
still leads to the old file, and where the link was there is a file of its own. -/
theorem replaced_link : ∃ w', (execute .inserted (replaceVia (lit "/bin/link"))).runWith (still linkNames ())
      linkedFile (List.replicate 30 fineChoice) = some (none, w') ∧
    w'.follow 40 (linkNames.entry (lit "/bin/app")) = .ok 2 ∧ (w'.node 2).content = lit "old" ∧
    w'.bind (linkNames.entry (lit "/bin/link")) = some 4 ∧ (w'.node 4).content = lit "new" ∧
    ¬ SourceReplaced linkNames (replaceVia (lit "/bin/link")) linkedFile w' := by
  have succeeds : (((execute .inserted (replaceVia (lit "/bin/link"))).runWith (still linkNames ()) linkedFile
      (List.replicate 30 fineChoice)).any fun r => r.1.isNone &&
        (r.2.follow 40 (linkNames.entry (lit "/bin/app"))).toOption = some 2 && (r.2.node 2).content = lit "old" &&
        r.2.bind (linkNames.entry (lit "/bin/link")) = some 4 && (r.2.node 4).content = lit "new") = true := by
    decide +kernel
  rw [Option.any_eq_true] at succeeds
  obtain ⟨⟨result, w'⟩, ran, done⟩ := succeeds
  simp only [Bool.and_eq_true, decide_eq_true_eq, Option.isNone_iff_eq_none] at done
  obtain ⟨⟨⟨⟨rfl, source⟩, old⟩, link⟩, new⟩ := done
  have followed : w'.follow 40 (linkNames.entry (lit "/bin/app")) = .ok 2 := by
    cases reached : w'.follow 40 (linkNames.entry (lit "/bin/app")) with
    | error n => simp [reached, Except.toOption] at source
    | ok i => simp_all [Except.toOption]
  refine ⟨w', ran, followed, old, link, new, ?_⟩
  rintro ⟨ino, reached, young, -⟩
  have same : (.ok 2 : Except Nat Nat) = .ok ino := followed.symm.trans reached
  cases same
  exact absurd young (by decide)

end

end Microfat.Lifecycle
