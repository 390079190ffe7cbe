/-
  OmpRelayd.Extension.Config — what a session joins, and where each part of it comes from
  (extension/src/config.ts).

  The global file is the machine's and may not name a room; the project file is the work's and
  may name nothing else. `validateGlobalConfig` and `validateProjectConfig` say what is wrong
  with a document, field by field, and `resolveWithGlobal` takes the project from the parameter,
  the project file or the root's name, the task from the first two, and the peer from the
  parameter, the global file or the host's name. A name that is derived is checked as one that
  was written is, and is never repaired.

  A parsed document is plain data (`Json`); `Machine` is what is read of the process and of the
  disk, and `Paths` the library of paths. Strings are sequences of Unicode scalar values, and a
  string's `length` here its UTF-16 one.

  Proved: every name that comes out of a document or a derivation passed `identifierProblem`
  (`validateGlobalConfig_peer`, `validateProjectConfig_room`), so what is resolved of parameters
  that passed it did (`resolveWithGlobal_names`).
-/

import OmpRelayd.Client.Requests

namespace OmpRelayd.Extension

open Client (identifierProblem describeIdentifierProblem jsonChar jsonString)

/-! ## Data -/

/-- A value of a parsed document, or an argument of a tool. -/
inductive Json where
  | null
  | boolean (b : Bool)
  /-- A number, as it prints. -/
  | number (shown : String)
  | string (s : String)
  | list (items : List Json)
  | mapping (entries : List (String × Json))

abbrev Mapping := List (String × Json)

/-- `mapping[name]`; of two entries with one key the later stands. -/
def Mapping.get (mapping : Mapping) (name : String) : Option Json := mapping.reverse.lookup name

def asRecord : Option Json → Option Mapping
  | some (.mapping entries) => some entries
  | _ => none

def typeName : Option Json → String
  | none => "nothing"
  | some .null => "null"
  | some (.list _) => "a list"
  | some (.boolean _) => "a boolean"
  | some (.number _) => "a number"
  | some (.string _) => "a string"
  | some (.mapping _) => "a object"

/-- Neither `undefined` nor `null`. -/
def given : Option Json → Option Json
  | some .null => none
  | value => value

def diagnosticValueChars : Nat := 40

def utf16Units (c : Char) : Nat := if c.toNat < 0x10000 then 1 else 2

/-- `JSON.stringify` of the first `units` of a text, without its quotes. Half of a pair is written
    as an escape. -/
def clipped : Nat → List Char → String
  | 0, _ => ""
  | _ + 1, [] => ""
  | units + 1, c :: rest =>
    if utf16Units c ≤ units + 1 then jsonChar c ++ clipped (units + 1 - utf16Units c) rest
    else
      let half := 0xd800 + (c.toNat - 0x10000) / 0x400
      "\\u" ++ String.ofList ([half / 0x1000 % 16, half / 0x100 % 16, half / 0x10 % 16, half % 16].map Nat.digitChar)

def describeString (value : String) : String :=
  if diagnosticValueChars < (value.toList.map utf16Units).sum then "\"" ++ clipped diagnosticValueChars value.toList ++ "…\""
  else jsonString value

def describeValue : Option Json → String
  | some (.string value) => describeString value
  | some (.number shown) => shown
  | some (.boolean b) => toString b
  | value => typeName value

/-- Why a configuration was refused, and which field is responsible. -/
structure ConfigProblem where
  field : Option String
  reason : String
  deriving DecidableEq, Repr

abbrev Checked := Except ConfigProblem

/-! ## Fields -/

structure Address where
  host : String
  port : Nat
  deriving DecidableEq, Repr

/-- `Number(portText)`, for what `^[0-9]+$` matches. -/
def portNumber (text : List Char) : Option Nat :=
  if text ≠ [] ∧ text.all (fun c => '0' ≤ c && c ≤ '9') then some (text.foldl (fun n c => 10 * n + (c.toNat - '0'.toNat)) 0)
  else none

/-- The host and the port's text. -/
def splitAddress (value : List Char) : Option (List Char × List Char) :=
  match value with
  | '[' :: rest =>
    match rest.span (· ≠ ']') with
    | (host, _ :: ':' :: portText) => if host = [] then none else some (host, portText)
    | _ => none
  | value =>
    match value.reverse.span (· ≠ ':') with
    | (portText, _ :: host) =>
      -- a colon in the host is an IPv6 literal written without brackets
      if host = [] ∨ ':' ∈ host then none else some (host.reverse, portText.reverse)
    | _ => none

def parseAddress (value : String) : Option Address := do
  let (host, portText) ← splitAddress value.toList
  let port ← portNumber portText
  if port < 1 ∨ 65535 < port then none else some ⟨String.ofList host, port⟩

def checkIdentifier (field path : String) : Json → Checked String
  | .string value =>
    match identifierProblem value with
    | some broken =>
      let rule := describeIdentifierProblem broken
      .error ⟨some field, s!"{field} in {path} {rule}"⟩
    | none => .ok value
  | value =>
    let found := typeName (some value)
    .error ⟨some field, s!"{field} must be a string in {path}, found {found}"⟩

def maxPurposeBytes : Nat := 4096

/-- What `trim` removes: White_Space but for NEL, and the byte order mark. -/
def isTrimmed (c : Char) : Bool := (isWhitespace c && c.toNat != 0x85) || c.toNat == 0xfeff

def checkPurpose (path : String) : Json → Checked String
  | .string value =>
    if value.toList.all isTrimmed then
      .error ⟨some "peer.purpose",
        s!"peer.purpose in {path} is empty; remove the field rather than setting it to nothing"⟩
    else
      let found := value.utf8ByteSize
      if maxPurposeBytes < found then
        .error ⟨some "peer.purpose",
          s!"peer.purpose in {path} is {found} UTF-8 bytes, above the {maxPurposeBytes}-byte budget"⟩
      else .ok value
  | value =>
    let found := typeName (some value)
    .error ⟨some "peer.purpose", s!"peer.purpose must be a string in {path}, found {found}"⟩

/-- A field that may be left out. -/
def optionalField (check : Json → Checked String) (value : Option Json) : Checked (Option String) :=
  match given value with
  | none => .ok none
  | some value => (check value).map some

/-! ## The global file -/

inductive StartupMode where
  | manual
  | auto
  deriving DecidableEq, Repr

/-- The one mode there is, `local`, is left out. -/
structure TransportConfig where
  host : String
  port : Nat
  deriving DecidableEq, Repr

structure GlobalConfig where
  transport : TransportConfig
  startup : StartupMode
  receptionDisplay : Bool
  peer : Option String
  purpose : Option String
  deriving DecidableEq, Repr

def readTransport (path : String) (root : Mapping) : Checked TransportConfig :=
  match asRecord (root.get "transport") with
  | none =>
    let found := typeName (root.get "transport")
    .error ⟨some "transport", s!"transport must be a mapping in {path}, found {found}"⟩
  | some transport =>
    match transport.get "mode" with
    | some (.string "local") =>
      match transport.get "address" with
      | some (.string "") =>
        .error ⟨some "transport.address",
          s!"transport.address must be a \"host:port\" string in {path}, found a string"⟩
      | some (.string rawAddress) =>
        match parseAddress rawAddress with
        | some address => .ok ⟨address.host, address.port⟩
        | none =>
          let shown := describeString rawAddress
          .error ⟨some "transport.address",
            s!"transport.address {shown} in {path} is not a \"host:port\" pair with a port in 1-65535"⟩
      | rawAddress =>
        let found := typeName rawAddress
        .error ⟨some "transport.address", s!"transport.address must be a \"host:port\" string in {path}, found {found}"⟩
    | mode =>
      let found := describeValue mode
      .error ⟨some "transport.mode", s!"transport.mode must be \"local\" in {path}, found {found}"⟩

def readStartup (path : String) (root : Mapping) : Checked StartupMode :=
  match given (root.get "startup") with
  | none => .ok .manual
  | some (.string "manual") => .ok .manual
  | some (.string "auto") => .ok .auto
  | rawStartup =>
    let found := describeValue rawStartup
    .error ⟨some "startup", s!"startup must be \"manual\" or \"auto\" in {path}, found {found}"⟩

/-- Unlike the other fields, `null` is not the same as nothing here. -/
def readReceptionDisplay (path : String) (root : Mapping) : Checked Bool :=
  match root.get "receptionDisplay" with
  | none => .ok false
  | some (.boolean b) => .ok b
  | rawReceptionDisplay =>
    let found := typeName rawReceptionDisplay
    .error ⟨some "receptionDisplay", s!"receptionDisplay must be a boolean in {path}, found {found}"⟩

/-- The peer's name and its purpose. -/
def readPeer (path : String) (root : Mapping) : Checked (Option String × Option String) :=
  match given (root.get "peer") with
  | none => .ok (none, none)
  | some rawPeer =>
    match asRecord (some rawPeer) with
    | none =>
      let found := typeName (some rawPeer)
      .error ⟨some "peer", s!"peer must be a mapping with optional name and purpose in {path}, found {found}"⟩
    | some peer => do
      let name ← optionalField (checkIdentifier "peer.name" path) (peer.get "name")
      let purpose ← optionalField (checkPurpose path) (peer.get "purpose")
      pure (name, purpose)

def validateGlobalConfig (document : Json) (path : String) : Checked GlobalConfig :=
  match asRecord (some document) with
  | none =>
    let found := typeName (some document)
    .error ⟨none, s!"{path} must contain a mapping, found {found}"⟩
  | some root =>
    if (root.get "room").isSome then
      .error ⟨some "room", s!"room may not appear in the global file {path}; " ++
        "a room belongs to the work, so it is read only from the project file"⟩
    else do
      let transport ← readTransport path root
      let startup ← readStartup path root
      let receptionDisplay ← readReceptionDisplay path root
      let (peer, purpose) ← readPeer path root
      pure ⟨transport, startup, receptionDisplay, peer, purpose⟩

/-! ## The project file -/

structure ProjectConfig where
  project : Option String
  task : Option String
  deriving DecidableEq, Repr

def globalOnlyFields : List String := ["transport", "startup", "receptionDisplay", "peer", "purpose"]

def validateProjectConfig (document : Json) (path : String) : Checked ProjectConfig :=
  match asRecord (some document) with
  | none =>
    let found := typeName (some document)
    .error ⟨none, s!"{path} must contain a mapping, found {found}"⟩
  | some root =>
    match globalOnlyFields.find? fun field => (root.get field).isSome with
    | some field =>
      .error ⟨some field, s!"{field} may not appear in the project file {path}; a committed file may name only the room, " ++
        s!"because a checkout able to name {field} would decide something about the machine that cloned it"⟩
    | none =>
      match given (root.get "room") with
      | none => .ok ⟨none, none⟩
      | some rawRoom =>
        match asRecord (some rawRoom) with
        | none =>
          let found := typeName (some rawRoom)
          .error ⟨some "room", s!"room must be a mapping in {path}, found {found}"⟩
        | some room => do
          let project ← optionalField (checkIdentifier "room.project" path) (room.get "project")
          let task ← optionalField (checkIdentifier "room.task" path) (room.get "task")
          pure ⟨project, task⟩

/-! ## Paths and files -/

/-- The library of paths. What `resolve` returns is absolute and in normal form: it resolves to
    itself, and so does its directory, whose name is shorter. -/
structure Paths where
  join : List String → String
  basename : String → String
  dirname : String → String
  resolve : String → String
  resolve_resolve : ∀ path, resolve (resolve path) = resolve path
  resolve_dirname : ∀ path, resolve path = path → resolve (dirname path) = dirname path
  dirname_shorter : ∀ path, resolve path = path → dirname path ≠ path → (dirname path).length < path.length

inductive ParseOutcome where
  | document (document : Json)
  | absent
  | unreadable (reason : String)

/-- What is read of the process and of the disk. -/
structure Machine where
  env : String → Option String
  existsSync : String → Bool
  /-- `parseFile` -/
  parseFile : String → ParseOutcome
  hostName : String

def agentDirEnv : String := "PI_CODING_AGENT_DIR"

def projectRootEnv : String := "OMP_PROJECT_ROOT"

def configFileName : String := "omp-relay.yml"

def projectMarkers : List String :=
  ["package.json", "Cargo.toml", "go.mod", "pyproject.toml", "deno.json", "Gemfile", "composer.json", "pom.xml",
    "build.gradle", "mix.exs"]

structure ProjectRoot where
  path : String
  marker : String
  deriving DecidableEq, Repr

section
variable (paths : Paths) (machine : Machine)

/-- A variable that is set, and not to nothing. -/
def Machine.variable (name : String) : Option String := (machine.env name).filter (· ≠ "")

/-- The directory and those above it, up to the home directory. -/
def ancestors (home : Option String) (current : String) (h : paths.resolve current = current) : List String :=
  if home = some current then []
  else if paths.dirname current = current then [current]
  else current :: ancestors home (paths.dirname current) (paths.resolve_dirname current h)
termination_by current.length
decreasing_by exact paths.dirname_shorter current h (by assumption)

def resolveProjectRoot (cwd : String) : ProjectRoot :=
  match machine.variable projectRootEnv with
  | some override => ⟨paths.resolve override, projectRootEnv⟩
  | none =>
    let above := ancestors paths ((machine.variable "HOME").map paths.resolve) (paths.resolve cwd) (paths.resolve_resolve cwd)
    let marked := above.flatMap fun candidate => projectMarkers.map fun marker => ⟨candidate, marker⟩
    let found (root : ProjectRoot) : Bool := machine.existsSync (paths.join [root.path, root.marker])
    -- the repository wins over a manifest that is nearer
    (((above.map fun candidate => ⟨candidate, ".git"⟩).find? found).or (marked.find? found)).getD
      ⟨paths.resolve cwd, "working directory"⟩

def globalConfigPath (agentDir : Option String) : Checked String :=
  match agentDir.filter (· ≠ "") with
  | some agentDir => .ok (paths.join [agentDir, configFileName])
  | none =>
    match machine.variable agentDirEnv with
    | some override => .ok (paths.join [override, configFileName])
    | none =>
      match machine.variable "HOME" with
      | some home => .ok (paths.join [home, ".omp", "agent", configFileName])
      | none =>
        .error ⟨none, s!"neither {agentDirEnv} nor HOME is set, so there is no agent directory to read {configFileName} from"⟩

def projectConfigPath (root : String) : String := paths.join [root, ".omp", configFileName]

/-- Why nothing was resolved; `absent` only where there is no global file. -/
structure ResolveFailure where
  path : Option String
  absent : Bool
  problem : ConfigProblem
  deriving DecidableEq, Repr

def refusedAt (path : Option String) {α : Type} (checked : Checked α) : Except ResolveFailure α :=
  checked.mapError fun problem => ⟨path, false, problem⟩

/-- The file's path with what it says. -/
def loadGlobalConfig (agentDir : Option String) : Except ResolveFailure (String × GlobalConfig) := do
  let path ← refusedAt none (globalConfigPath paths machine agentDir)
  match machine.parseFile path with
  | .absent => .error ⟨some path, true, ⟨none, s!"global configuration file {path} does not exist"⟩⟩
  | .unreadable reason => .error ⟨some path, false, ⟨none, reason⟩⟩
  | .document document => do
    let config ← refusedAt (some path) (validateGlobalConfig document path)
    pure (path, config)

/-- No file is no failure: then there is no path. -/
def loadProjectConfig (path : String) : Except ResolveFailure (Option String × ProjectConfig) :=
  match machine.parseFile path with
  | .absent => .ok (none, ⟨none, none⟩)
  | .unreadable reason => .error ⟨some path, false, ⟨none, reason⟩⟩
  | .document document => do
    let config ← refusedAt (some path) (validateProjectConfig document path)
    pure (some path, config)

/-! ## Derivation and resolution -/

inductive ValueSource where
  | parameter
  | projectFile
  | globalFile
  | derivation
  deriving DecidableEq, Repr

structure ResolvedSources where
  project : ValueSource
  task : ValueSource
  peer : ValueSource
  deriving DecidableEq, Repr

structure JoinParameters where
  project : Option String
  task : Option String
  as : Option String
  deriving DecidableEq, Repr

structure RelayConfig where
  transport : TransportConfig
  room : RoomId
  peer : String
  deriving DecidableEq, Repr

structure ResolvedClient where
  config : RelayConfig
  startup : StartupMode
  receptionDisplay : Bool
  purpose : Option String
  sources : ResolvedSources
  globalPath : String
  projectPath : Option String
  projectRoot : ProjectRoot
  deriving DecidableEq, Repr

def derivePeerName (raw : String) : Checked String :=
  let label := String.ofList (raw.toList.takeWhile (· ≠ '.'))
  match identifierProblem label with
  | some broken =>
    let shown := describeString raw
    let rule := describeIdentifierProblem broken
    .error ⟨some "peer.name",
      s!"no peer name is configured and the host name {shown} cannot supply one because its first label " ++
        s!"{rule}; set peer.name in the global configuration file"⟩
  | none => .ok label

def deriveProjectName (root : String) : Checked String :=
  let name := paths.basename root
  match identifierProblem name with
  | some broken =>
    let shownRoot := describeString root
    let shown := describeString name
    let rule := describeIdentifierProblem broken
    let file := projectConfigPath paths root
    .error ⟨some "room.project",
      s!"no room project is configured and the project root {shownRoot} cannot supply one because its " ++
        s!"directory name {shown} {rule}; pass project to the join " ++ s!"request or set room.project in {file}"⟩
  | none => .ok name

/-- The first that is there, or what is derived. -/
def sourced (first second : Option String) (fallback : ValueSource) (derived : Checked String) :
    Checked (String × ValueSource) :=
  match first, second with
  | some value, _ => .ok (value, .parameter)
  | none, some value => .ok (value, fallback)
  | none, none => derived.map fun value => (value, .derivation)

def resolveWithGlobal (global : GlobalConfig) (globalPath cwd : String) (parameters : JoinParameters) :
    Except ResolveFailure ResolvedClient := do
  let projectRoot := resolveProjectRoot paths machine cwd
  let (projectPath, projectFile) ← loadProjectConfig machine (projectConfigPath paths projectRoot.path)
  let (project, projectSource) ← refusedAt projectPath
    (sourced parameters.project projectFile.project .projectFile (deriveProjectName paths projectRoot.path))
  match parameters.task.or projectFile.task with
  | none =>
    let file := projectConfigPath paths projectRoot.path
    let missing := match projectPath with
      | none => s!"no project file exists at {file}"
      | some projectPath => s!"{projectPath} does not name room.task"
    .error ⟨projectPath, false, ⟨some "room.task",
      s!"room.task has no value: {missing}, and the join request supplied no value for it"⟩⟩
  | some task => do
    let (peer, peerSource) ← refusedAt (some globalPath)
      (sourced parameters.as global.peer .globalFile (derivePeerName machine.hostName))
    pure
      { config := ⟨global.transport, ⟨project, task⟩, peer⟩
        startup := global.startup
        receptionDisplay := global.receptionDisplay
        purpose := global.purpose
        sources := ⟨projectSource, if parameters.task.isNone then .projectFile else .parameter, peerSource⟩
        globalPath := globalPath
        projectPath := projectPath
        projectRoot := projectRoot }

def resolveClient (agentDir : Option String) (cwd : String) (parameters : JoinParameters) :
    Except ResolveFailure ResolvedClient := do
  let (path, global) ← loadGlobalConfig paths machine agentDir
  resolveWithGlobal paths machine global path cwd parameters

end

/-! ## Names that passed -/

theorem bind_ok {ε α β : Type} {x : Except ε α} {f : α → Except ε β} {b : β} (h : (x >>= f) = .ok b) :
    ∃ a, x = .ok a ∧ f a = .ok b := by
  cases x with
  | error e => cases h
  | ok a => exact ⟨a, rfl, h⟩

/-- What `identifierProblem` finds nothing wrong with. -/
def Passes (name : String) : Prop := identifierProblem name = none

section
variable {path : String} {document : Json}

theorem checkIdentifier_ok {field name : String} {value : Json} (h : checkIdentifier field path value = .ok name) :
    Passes name := by
  cases value with
  | string text =>
    simp only [checkIdentifier] at h
    split at h
    · cases h
    · cases h; assumption
  | _ => cases h

theorem optionalField_ok {check : Json → Checked String} {P : String → Prop} {value : Option Json} {result : Option String}
    (hcheck : ∀ v text, check v = .ok text → P text) (h : optionalField check value = .ok result) :
    ∀ text ∈ result, P text := by
  intro text htext
  rw [Option.mem_def] at htext
  subst htext
  simp only [optionalField] at h
  split at h
  · cases h
  · rename_i v _
    cases hv : check v with
    | error problem => rw [hv] at h; cases h
    | ok found =>
      rw [hv] at h
      cases h
      exact hcheck v text hv

theorem readPeer_name {root : Mapping} {name purpose : Option String} (h : readPeer path root = .ok (name, purpose)) :
    ∀ peer ∈ name, Passes peer := by
  simp only [readPeer] at h
  split at h
  · cases h
    intro peer hpeer
    cases hpeer
  · split at h
    · cases h
    · obtain ⟨found, hname, h⟩ := bind_ok h
      obtain ⟨_, _, h⟩ := bind_ok h
      cases h
      exact optionalField_ok (fun _ _ => checkIdentifier_ok) hname

theorem validateGlobalConfig_peer {config : GlobalConfig} (h : validateGlobalConfig document path = .ok config) :
    ∀ peer ∈ config.peer, Passes peer := by
  simp only [validateGlobalConfig] at h
  split at h
  · cases h
  split at h
  · cases h
  · obtain ⟨_, _, h⟩ := bind_ok h
    obtain ⟨_, _, h⟩ := bind_ok h
    obtain ⟨_, _, h⟩ := bind_ok h
    obtain ⟨⟨name, purpose⟩, hpeer, h⟩ := bind_ok h
    cases h
    exact readPeer_name hpeer

theorem validateProjectConfig_room {config : ProjectConfig} (h : validateProjectConfig document path = .ok config) :
    (∀ project ∈ config.project, Passes project) ∧ ∀ task ∈ config.task, Passes task := by
  simp only [validateProjectConfig] at h
  split at h
  · cases h
  split at h
  · cases h
  split at h
  · cases h
    exact ⟨by simp, by simp⟩
  split at h
  · cases h
  · obtain ⟨project, hproject, h⟩ := bind_ok h
    obtain ⟨task, htask, h⟩ := bind_ok h
    cases h
    exact ⟨optionalField_ok (fun _ _ => checkIdentifier_ok) hproject,
      optionalField_ok (fun _ _ => checkIdentifier_ok) htask⟩

theorem derivePeerName_ok {raw name : String} (h : derivePeerName raw = .ok name) : Passes name := by
  simp only [derivePeerName] at h
  split at h
  · cases h
  · cases h; assumption

theorem deriveProjectName_ok {paths : Paths} {root name : String} (h : deriveProjectName paths root = .ok name) :
    Passes name := by
  simp only [deriveProjectName] at h
  split at h
  · cases h
  · cases h; assumption

theorem sourced_ok {first second : Option String} {fallback source : ValueSource} {derived : Checked String} {value : String}
    {P : String → Prop} (hfirst : ∀ v ∈ first, P v) (hsecond : ∀ v ∈ second, P v) (hderived : ∀ v, derived = .ok v → P v)
    (h : sourced first second fallback derived = .ok (value, source)) : P value := by
  cases first with
  | some v => cases h; exact hfirst value rfl
  | none =>
    cases second with
    | some v => cases h; exact hsecond value rfl
    | none =>
      cases derived with
      | error problem => cases h
      | ok v => cases h; exact hderived value rfl

theorem refusedAt_ok {α : Type} {at_ : Option String} {checked : Checked α} {a : α} (h : refusedAt at_ checked = .ok a) :
    checked = .ok a := by
  cases checked with
  | error problem => cases h
  | ok a => cases h; rfl

end

section
variable {paths : Paths} {machine : Machine}

theorem loadProjectConfig_room {path : String} {found : Option String} {config : ProjectConfig}
    (h : loadProjectConfig machine path = .ok (found, config)) :
    (∀ project ∈ config.project, Passes project) ∧ ∀ task ∈ config.task, Passes task := by
  simp only [loadProjectConfig] at h
  split at h
  · cases h
    exact ⟨by simp, by simp⟩
  · cases h
  · obtain ⟨validated, hvalidated, h⟩ := bind_ok h
    cases h
    exact validateProjectConfig_room (refusedAt_ok hvalidated)

/-- The names a join may be given. -/
structure JoinParameters.Passing (parameters : JoinParameters) : Prop where
  project : ∀ project ∈ parameters.project, Passes project
  task : ∀ task ∈ parameters.task, Passes task
  as : ∀ as ∈ parameters.as, Passes as

/-- Whichever source each comes from, it was checked there. -/
theorem resolveWithGlobal_names {global : GlobalConfig} {globalPath cwd : String} {parameters : JoinParameters}
    {resolved : ResolvedClient} (hglobal : ∀ peer ∈ global.peer, Passes peer) (hparameters : parameters.Passing)
    (h : resolveWithGlobal paths machine global globalPath cwd parameters = .ok resolved) :
    Passes resolved.config.room.project ∧ Passes resolved.config.room.task ∧ Passes resolved.config.peer := by
  obtain ⟨⟨projectPath, file⟩, hfile, h⟩ := bind_ok h
  obtain ⟨hproject, htask⟩ := loadProjectConfig_room hfile
  obtain ⟨⟨project, source⟩, hsourced, h⟩ := bind_ok h
  simp only at h
  split at h
  · cases h
  · rename_i task htasks
    obtain ⟨⟨peer, peerSource⟩, hpeer, h⟩ := bind_ok h
    cases h
    refine ⟨sourced_ok hparameters.project hproject (fun _ => deriveProjectName_ok) (refusedAt_ok hsourced), ?_,
      sourced_ok hparameters.as hglobal (fun _ => derivePeerName_ok) (refusedAt_ok hpeer)⟩
    rcases Option.or_eq_some_iff.1 htasks with hsome | ⟨-, hsome⟩
    · exact hparameters.task task hsome
    · exact htask task hsome

end

/-! ## A machine -/

def samplePaths : Paths :=
  ⟨String.intercalate "/", fun path => String.ofList (path.toList.reverse.takeWhile (· ≠ '/')).reverse, id, id,
    fun _ => rfl, fun _ _ => rfl, fun _ _ h => absurd rfl h⟩

def sampleGlobal (startup : String) : Json :=
  .mapping [("transport", .mapping [("mode", .string "local"), ("address", .string "127.0.0.1:7788")]),
    ("startup", .string startup), ("peer", .mapping [("purpose", .string "Builds run here.")])]

/-- It is told its project's root, and has no project file. -/
def sampleMachine (startup : String) : Machine where
  env name := if name = projectRootEnv then some "/work/omp-relayd" else none
  existsSync _ := false
  parseFile path := if path = "/agent/omp-relay.yml" then .document (sampleGlobal startup) else .absent
  hostName := "MacBook-Pro.local"

end OmpRelayd.Extension
