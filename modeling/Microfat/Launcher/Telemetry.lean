/-
# Microfat.Launcher.Telemetry — the launcher's JSON lines

The launcher writes its telemetry without reflection: field after field into one
buffer, with `EscapeJSONString` for the contents.  Optional fields are left out when
they are empty or zero.  `ErrorTelemetry.entries` and `DispatchTelemetry.entries`
say which fields a record has, in the order they are written, and whether they are
there.

* `telemetry_faithful`: escaping is undone by any JSON reader and cannot leave a
  string; a telemetry line is one object with exactly the fields that are there.
-/
import Microfat.Theory.Json

namespace Microfat.Launcher

open Theory Theory.Json

set_option autoImplicit false

/-! ## Escaping -/

def asciiControlCutoff : Nat := 0x20

/-- One byte of `EscapeJSONString`; `\u%04x` of a control character. -/
def escapeJSONByte (c : UInt8) : Bytes :=
  if c = 34 then lit "\\\""
  else if c = 92 then lit "\\\\"
  else if c = 8 then lit "\\b"
  else if c = 12 then lit "\\f"
  else if c = 10 then lit "\\n"
  else if c = 13 then lit "\\r"
  else if c = 9 then lit "\\t"
  else if c.toNat < asciiControlCutoff then lit "\\u00" ++ [hexDigit (c.toNat / 16), hexDigit (c.toNat % 16)]
  else [c]

def escapeJSONString (s : Bytes) : Bytes := s.flatMap escapeJSONByte

theorem escapeJSONString_eq (s : Bytes) : escapeJSONString s = s.flatMap escapeByte := by
  have table : ∀ c : UInt8, escapeJSONByte c = escapeByte c := by decide +kernel
  rw [escapeJSONString, funext table]

/-! ## The records -/

structure ExecutionAttempt where
  stage : Bytes
  requestedMode : Bytes
  attemptedMode : Bytes
  error : Bytes
  errno : Int
  errnoName : Bytes

structure ErrorTelemetry where
  event : Bytes
  timestampUnixNano : Int
  hostArch : Bytes
  hostLevel : Bytes
  selectedVariant : Bytes
  policyApplied : Bytes
  policyReason : Bytes
  stage : Bytes
  requestedMode : Bytes
  attemptedMode : Bytes
  error : Bytes
  errno : Int
  errnoName : Bytes
  attempts : List ExecutionAttempt
  details : Bytes
  hint : Bytes

/-- The type of the processor quota is left open. -/
structure DispatchTelemetry (F : Type) where
  event : Bytes
  timestampUnixNano : Int
  hostArch : Bytes
  hostLevel : Bytes
  selectedVariant : Bytes
  selectedSHA256 : Bytes
  selectedSizeBytes : Int
  execMode : Bytes
  policyApplied : Bytes
  policyReason : Bytes
  cgroupVersion : Int
  cgroupMemLimitBytes : Int
  cgroupCPUQuota : F
  gomemlimit : Bytes
  gomaxprocs : Bytes
  gogc : Bytes
  gcProfile : Bytes
  decompressionDurationUs : Int
  totalLauncherUs : Int

/-! ## Writing them -/

/-- `,"name":` -/
def key (name : String) : Bytes := lit ",\"" ++ lit name ++ lit "\":"

/-- `,"name":"…"` -/
def stringField (name : String) (s : Bytes) : Bytes := key name ++ lit "\"" ++ escapeJSONString s ++ lit "\""

def intField (name : String) (v : Int) : Bytes := key name ++ decimalInt v

/-- A string that is only written when there is one. -/
def nonemptyField (name : String) (s : Bytes) : Bytes := if s ≠ [] then stringField name s else []

/-- An integer that is only written above zero. -/
def positiveField (name : String) (v : Int) : Bytes := if v > 0 then intField name v else []

def nonzeroField (name : String) (v : Int) : Bytes := if v ≠ 0 then intField name v else []

/-- The opening brace and the first field. -/
def opening (name : String) (s : Bytes) : Bytes :=
  lit "\x7b\"" ++ lit name ++ lit "\":\"" ++ escapeJSONString s ++ lit "\""

def formatAttempt (a : ExecutionAttempt) : Bytes :=
  opening "stage" a.stage
    ++ stringField "requested_mode" a.requestedMode
    ++ stringField "attempted_mode" a.attemptedMode
    ++ stringField "error" a.error
    ++ nonzeroField "errno" a.errno
    ++ nonemptyField "errno_name" a.errnoName
    ++ lit "\x7d"

def attemptsField (attempts : List ExecutionAttempt) : Bytes :=
  if attempts.length > 0 then
    key "attempts" ++ lit "["
      ++ (attempts.mapIdx fun i a => (if i > 0 then lit "," else []) ++ formatAttempt a).flatten
      ++ lit "]"
  else []

def formatErrorTelemetryJSON (e : ErrorTelemetry) : Bytes :=
  opening "event" e.event
    ++ intField "timestamp_unix_nano" e.timestampUnixNano
    ++ nonemptyField "host_arch" e.hostArch
    ++ nonemptyField "host_level" e.hostLevel
    ++ nonemptyField "selected_variant" e.selectedVariant
    ++ nonemptyField "policy_applied" e.policyApplied
    ++ nonemptyField "policy_reason" e.policyReason
    ++ nonemptyField "requested_mode" e.requestedMode
    ++ nonemptyField "attempted_mode" e.attemptedMode
    ++ stringField "stage" e.stage
    ++ stringField "error" e.error
    ++ nonzeroField "errno" e.errno
    ++ nonemptyField "errno_name" e.errnoName
    ++ attemptsField e.attempts
    ++ nonemptyField "details" e.details
    ++ nonemptyField "hint" e.hint
    ++ lit "\x7d"

/-- The quota's text is `strconv.FormatFloat` of a quota above zero. -/
def quotaField : Option Bytes → Bytes
  | some text => key "cgroup_cpu_quota" ++ text
  | none => []

def formatDispatchTelemetryJSON {F : Type} (formatQuota : F → Option Bytes) (d : DispatchTelemetry F) :
    Bytes :=
  opening "event" d.event
    ++ intField "timestamp_unix_nano" d.timestampUnixNano
    ++ nonemptyField "host_arch" d.hostArch
    ++ nonemptyField "host_level" d.hostLevel
    ++ nonemptyField "selected_variant" d.selectedVariant
    ++ nonemptyField "selected_sha256" d.selectedSHA256
    ++ positiveField "selected_size_bytes" d.selectedSizeBytes
    ++ stringField "exec_mode" d.execMode
    ++ nonemptyField "policy_applied" d.policyApplied
    ++ nonemptyField "policy_reason" d.policyReason
    ++ positiveField "cgroup_version" d.cgroupVersion
    ++ positiveField "cgroup_mem_limit_bytes" d.cgroupMemLimitBytes
    ++ quotaField (formatQuota d.cgroupCPUQuota)
    ++ nonemptyField "gomemlimit" d.gomemlimit
    ++ nonemptyField "gomaxprocs" d.gomaxprocs
    ++ nonemptyField "gogc" d.gogc
    ++ nonemptyField "gc_profile" d.gcProfile
    ++ positiveField "decompression_duration_us" d.decompressionDurationUs
    ++ intField "total_launcher_us" d.totalLauncherUs
    ++ lit "\x7d"

/-! ## What a record says -/

/-- A field: its name, whether it is there, and its value. -/
structure Entry where
  name : String
  present : Bool
  content : Written

namespace Entry

def string (name : String) (s : Bytes) : Entry := ⟨name, true, .string s⟩
def nonempty (name : String) (s : Bytes) : Entry := ⟨name, s ≠ [], .string s⟩
def int (name : String) (v : Int) : Entry := ⟨name, true, .int v⟩
def positive (name : String) (v : Int) : Entry := ⟨name, v > 0, .int v⟩
def nonzero (name : String) (v : Int) : Entry := ⟨name, v ≠ 0, .int v⟩

/-- What the field adds to the buffer. -/
def text (x : Entry) : Bytes :=
  if x.present then comma :: memberText (lit x.name) x.content.text else []

end Entry

/-- The name of a field needs no escapes. -/
def Plain (name : String) : Prop := (lit name).flatMap escapeByte = lit name

instance (name : String) : Decidable (Plain name) := inferInstanceAs (Decidable (_ = _))

/-- The fields of a record that are there, as members of an object. -/
def members (entries : List Entry) : List (Bytes × Value) :=
  (entries.filter Entry.present).map fun x => (lit x.name, x.content.value)

/-- The object of a first field and the fields after it. -/
def object (first : String × Written) (entries : List Entry) : Written :=
  .object (lit first.1, first.2) ((entries.filter Entry.present).map fun x => (lit x.name, x.content))

theorem object_value (first : String × Written) (entries : List Entry) :
    (object first entries).value = .object (members (⟨first.1, true, first.2⟩ :: entries)) := by
  simp [object, members, Written.object]

theorem key_eq {name : String} (plain : Plain name) : key name = comma :: (quote (lit name) ++ [colon]) := by
  rw [key, quote, plain]
  show comma :: quoteMark :: (lit name ++ [quoteMark, colon]) = _
  simp

theorem quoted_eq (s : Bytes) : lit "\"" ++ escapeJSONString s ++ lit "\"" = quote s := by
  rw [escapeJSONString_eq]
  rfl

theorem stringField_eq {name : String} (plain : Plain name) (s : Bytes) :
    stringField name s = (Entry.string name s).text := by
  rw [stringField, key_eq plain, List.append_assoc, List.append_assoc, ← List.append_assoc (lit "\""),
    quoted_eq]
  simp [Entry.text, Entry.string, memberText, Written.string]

theorem intField_eq {name : String} (plain : Plain name) (v : Int) :
    intField name v = (Entry.int name v).text := by
  simp [intField, key_eq plain, Entry.text, Entry.int, memberText, Written.int]

theorem nonemptyField_eq {name : String} (plain : Plain name) (s : Bytes) :
    nonemptyField name s = (Entry.nonempty name s).text := by
  rw [nonemptyField, stringField_eq plain]
  simp [Entry.text, Entry.string, Entry.nonempty]

theorem positiveField_eq {name : String} (plain : Plain name) (v : Int) :
    positiveField name v = (Entry.positive name v).text := by
  rw [positiveField, intField_eq plain]
  simp [Entry.text, Entry.int, Entry.positive]

theorem nonzeroField_eq {name : String} (plain : Plain name) (v : Int) :
    nonzeroField name v = (Entry.nonzero name v).text := by
  rw [nonzeroField, intField_eq plain]
  simp [Entry.text, Entry.int, Entry.nonzero]

/-- The text of a record is its opening, its fields and a brace. -/
theorem object_text {name : String} (plain : Plain name) (s : Bytes) (entries : List Entry) :
    (object (name, .string s) entries).text = opening name s ++ entries.flatMap Entry.text ++ lit "\x7d" := by
  have fields : ((entries.filter Entry.present).map fun x => memberText (lit x.name) x.content.text).flatMap
      (comma :: ·) = entries.flatMap Entry.text := by
    induction entries with
    | nil => rfl
    | cons x entries ih =>
      rw [List.flatMap_cons, ← ih]
      cases there : x.present <;> simp [there, Entry.text]
  have first : opening name s = openBrace :: memberText (lit name) (quote s) := by
    rw [memberText, quote, plain, ← quoted_eq]
    show openBrace :: quoteMark :: (lit name ++ [quoteMark, colon, quoteMark] ++ escapeJSONString s ++
      [quoteMark]) = openBrace :: (quoteMark :: (lit name ++ [quoteMark]) ++
        colon :: quoteMark :: (escapeJSONString s ++ [quoteMark]))
    simp
  rw [first, ← fields]
  simp [object, Written.object, joined, Written.string, Function.comp_def]
  rfl

/-! ## Attempts and the two records -/

def ExecutionAttempt.entries (a : ExecutionAttempt) : List Entry :=
  [.string "requested_mode" a.requestedMode, .string "attempted_mode" a.attemptedMode,
   .string "error" a.error, .nonzero "errno" a.errno, .nonempty "errno_name" a.errnoName]

def ExecutionAttempt.written (a : ExecutionAttempt) : Written := object ("stage", .string a.stage) a.entries

/-- The fields of an error after its event. -/
def ErrorTelemetry.entries (e : ErrorTelemetry) : List Entry :=
  [.int "timestamp_unix_nano" e.timestampUnixNano, .nonempty "host_arch" e.hostArch,
   .nonempty "host_level" e.hostLevel, .nonempty "selected_variant" e.selectedVariant,
   .nonempty "policy_applied" e.policyApplied, .nonempty "policy_reason" e.policyReason,
   .nonempty "requested_mode" e.requestedMode, .nonempty "attempted_mode" e.attemptedMode,
   .string "stage" e.stage, .string "error" e.error, .nonzero "errno" e.errno,
   .nonempty "errno_name" e.errnoName,
   ⟨"attempts", e.attempts.length > 0, .list (e.attempts.map ExecutionAttempt.written)⟩,
   .nonempty "details" e.details, .nonempty "hint" e.hint]

/-- The fields of a dispatch after its event, without the quota. -/
def DispatchTelemetry.entries {F : Type} (d : DispatchTelemetry F) : List Entry :=
  [.int "timestamp_unix_nano" d.timestampUnixNano, .nonempty "host_arch" d.hostArch,
   .nonempty "host_level" d.hostLevel, .nonempty "selected_variant" d.selectedVariant,
   .nonempty "selected_sha256" d.selectedSHA256, .positive "selected_size_bytes" d.selectedSizeBytes,
   .string "exec_mode" d.execMode, .nonempty "policy_applied" d.policyApplied,
   .nonempty "policy_reason" d.policyReason, .positive "cgroup_version" d.cgroupVersion,
   .positive "cgroup_mem_limit_bytes" d.cgroupMemLimitBytes, .nonempty "gomemlimit" d.gomemlimit,
   .nonempty "gomaxprocs" d.gomaxprocs, .nonempty "gogc" d.gogc, .nonempty "gc_profile" d.gcProfile,
   .positive "decompression_duration_us" d.decompressionDurationUs,
   .int "total_launcher_us" d.totalLauncherUs]

theorem formatAttempt_eq (a : ExecutionAttempt) : formatAttempt a = a.written.text := by
  refine Eq.trans ?_ (object_text (by decide +kernel) a.stage a.entries).symm
  simp (disch := decide +kernel) only [formatAttempt, ExecutionAttempt.entries, List.flatMap_cons,
    List.flatMap_nil, stringField_eq, nonzeroField_eq, nonemptyField_eq, List.append_assoc, List.append_nil]

theorem attemptsField_eq (attempts : List ExecutionAttempt) :
    attemptsField attempts =
      Entry.text ⟨"attempts", attempts.length > 0, .list (attempts.map ExecutionAttempt.written)⟩ := by
  cases attempts with
  | nil => rfl
  | cons a attempts =>
    have others : (attempts.mapIdx fun i a => (if i + 1 > 0 then lit "," else []) ++ formatAttempt a) =
        attempts.map fun a => comma :: a.written.text := by
      refine List.ext_getElem (by simp) fun i _ _ => ?_
      rw [List.getElem_mapIdx, List.getElem_map, if_pos (Nat.succ_pos i), formatAttempt_eq]
      rfl
    rw [attemptsField, List.mapIdx_cons, key_eq (by decide +kernel), others]
    simp [Entry.text, Written.list, Written.array, joined, memberText, formatAttempt_eq, List.flatMap_def]
    rfl

theorem formatErrorTelemetryJSON_eq (e : ErrorTelemetry) :
    formatErrorTelemetryJSON e = opening "event" e.event ++ e.entries.flatMap Entry.text ++ lit "\x7d" := by
  simp (disch := decide +kernel) only [formatErrorTelemetryJSON, ErrorTelemetry.entries, List.flatMap_cons,
    List.flatMap_nil, stringField_eq, intField_eq, nonzeroField_eq, nonemptyField_eq, attemptsField_eq,
    List.append_assoc, List.append_nil]

theorem formatDispatchTelemetryJSON_eq {F : Type} {formatQuota : F → Option Bytes} {d : DispatchTelemetry F}
    (quota : formatQuota d.cgroupCPUQuota = none) :
    formatDispatchTelemetryJSON formatQuota d =
      opening "event" d.event ++ d.entries.flatMap Entry.text ++ lit "\x7d" := by
  unfold formatDispatchTelemetryJSON
  simp (disch := decide +kernel) only [DispatchTelemetry.entries, quota, quotaField, List.flatMap_cons,
    List.flatMap_nil, stringField_eq, intField_eq, positiveField_eq, nonemptyField_eq, List.append_assoc,
    List.append_nil]

/-! ## The lines -/

/-- The names of the fields that are there. -/
def keys (entries : List Entry) : List Bytes := (members entries).map Prod.fst

theorem keys_eq (entries : List Entry) :
    keys entries = (((entries.map fun x => (x.name, x.present)).filter Prod.snd).map fun x => lit x.1) := by
  simp [keys, members, List.filter_map, Function.comp_def]

/-- The fields of a record by name, apart from their contents. -/
theorem keys_congr {xs ys : List Entry} (names : xs.map Entry.name = ys.map Entry.name)
    (present : xs.map Entry.present = ys.map Entry.present) : keys xs = keys ys := by
  have both : ∀ l : List Entry,
      l.map (fun x => (x.name, x.present)) = (l.map Entry.name).zip (l.map Entry.present) := by
    intro l
    rw [List.zip_map']
  rw [keys_eq, keys_eq, both, both, names, present]

/-- **Nothing a field holds can change the line it is written on.**  Escaping is undone
by reading, byte for byte, whatever follows the closing quote, and leaves no bare
quote, no dangling backslash and no control character; an error and a dispatch
without a quota are each one line, read as one object with exactly the fields that
are there and what they hold; and which fields are there decides the keys. -/
theorem telemetry_faithful {F : Type} (formatQuota : F → Option Bytes) :
    (∀ s, (∀ rest, readString (escapeJSONString s ++ quoteMark :: rest) = some (s, rest)) ∧
      wellEscaped (escapeJSONString s) = true ∧ ∀ c ∈ escapeJSONString s, 0x20 ≤ c.toNat) ∧
    (∀ e : ErrorTelemetry, Printable (formatErrorTelemetryJSON e) ∧
      read (formatErrorTelemetryJSON e) =
        some (.object ((lit "event", .string e.event) :: members e.entries))) ∧
    (∀ d : DispatchTelemetry F, formatQuota d.cgroupCPUQuota = none →
      Printable (formatDispatchTelemetryJSON formatQuota d) ∧
      read (formatDispatchTelemetryJSON formatQuota d) =
        some (.object ((lit "event", .string d.event) :: members d.entries))) ∧
    (∀ e e' : ErrorTelemetry, e.entries.map Entry.present = e'.entries.map Entry.present →
      keys e.entries = keys e'.entries) ∧
    (∀ a a' : ExecutionAttempt, a.entries.map Entry.present = a'.entries.map Entry.present →
      keys a.entries = keys a'.entries) ∧
    ∀ d d' : DispatchTelemetry F, d.entries.map Entry.present = d'.entries.map Entry.present →
      keys d.entries = keys d'.entries := by
  have line : ∀ (s : Bytes) (entries : List Entry) (text : Bytes),
      text = opening "event" s ++ entries.flatMap Entry.text ++ lit "\x7d" →
      Printable text ∧ read text = some (.object ((lit "event", .string s) :: members entries)) := by
    rintro s entries _ rfl
    rw [← object_text (by decide +kernel)]
    exact ⟨Written.printable _, (Written.read_text _).trans (congrArg some (object_value _ _))⟩
  refine ⟨fun s => ⟨fun rest => ?_, ?_, ?_⟩, fun e => line _ _ _ (formatErrorTelemetryJSON_eq e),
    fun d quota => line _ _ _ (formatDispatchTelemetryJSON_eq quota), fun e e' => keys_congr rfl,
    fun a a' => keys_congr rfl, fun d d' => keys_congr rfl⟩
  · rw [escapeJSONString_eq, readString_quote]
  · rw [escapeJSONString_eq, wellEscaped_escaped]
  · rw [escapeJSONString_eq]
    exact escaped_printable s

/-- A dispatch whose mode tries to close its string and add a field. -/
def forgedDispatch : DispatchTelemetry Unit :=
  { event := lit "dispatch", timestampUnixNano := 7, hostArch := [], hostLevel := [], selectedVariant := [],
    selectedSHA256 := [], selectedSizeBytes := 0, execMode := lit "memfd\",\"gogc\":\"off", policyApplied := [],
    policyReason := [], cgroupVersion := 0, cgroupMemLimitBytes := 0, cgroupCPUQuota := (), gomemlimit := [],
    gomaxprocs := [], gogc := [], gcProfile := [], decompressionDurationUs := 0, totalLauncherUs := -1 }

theorem telemetry_faithful_forged :
    (∃ v, read (formatDispatchTelemetryJSON (fun _ => none) forgedDispatch) = some v) ∧
      keys forgedDispatch.entries =
        [lit "timestamp_unix_nano", lit "exec_mode", lit "total_launcher_us"] :=
  ⟨⟨_, ((telemetry_faithful fun _ => none).2.2.1 forgedDispatch rfl).2⟩, by decide +kernel⟩

end Microfat.Launcher
