/-
  OmpRelayd.Extension.Mesh — the `join` of the mesh tool (extension/src/index.ts: `executeMesh`,
  `joinParameter`, `singleLine`).

  Before a join calls the session, `joinRequest` checks what was asked; what comes of it is a
  `JoinReport`, and the text that tells the agent is left out. What a remote peer chose is put
  in one line before it is shown.

  The tool's other actions use a connection that is there, and are left out.
-/

import OmpRelayd.Extension.Config

namespace OmpRelayd.Extension

open Client (identifierProblem describeIdentifierProblem)

/-! ## Untrusted text -/

/-- `CONTROL_CHARACTERS` -/
def isControl (c : Char) : Bool :=
  let n := c.toNat
  n ≤ 0x1f || (0x7f ≤ n && n ≤ 0x9f) || n == 0x2028 || n == 0x2029

/-- `NEUTRALIZED` -/
def neutralized : Char := Char.ofNat 0xfffd

def singleLine (value : String) : String := String.ofList (value.toList.map fun c => if isControl c then neutralized else c)

def purposeHeading : String := "This terminal's configured purpose, from its own operator:"

/-! ## Requests -/

/-- The text, and what a caller dispatches on. -/
structure MeshToolResult where
  text : String
  details : Mapping

def validationFailure (message : String) : MeshToolResult :=
  ⟨s!"Invalid mesh arguments: {message}", [("action", .string "invalid"), ("status", .string "validation_error")]⟩

structure JoinArguments where
  project : Option Json
  task : Option Json
  as : Option Json

def joinParameter (name : String) : Option Json → Except MeshToolResult (Option String)
  | none => .ok none
  | some (.string value) =>
    match identifierProblem value with
    | some broken =>
      let rule := describeIdentifierProblem broken
      .error (validationFailure s!"{name} {rule}")
    | none => .ok (some value)
  | some _ => .error (validationFailure s!"{name} must be a string when provided")

/-- What the session is asked to join, or the refusal. -/
def joinRequest (interactive : Bool) (args : JoinArguments) : Except MeshToolResult JoinParameters := do
  let project ← joinParameter "project" args.project
  let task ← joinParameter "task" args.task
  let as ← joinParameter "as" args.as
  if !interactive then
    .error ⟨"OMP Relay registers only a top-level interactive session as a peer, and this session is not one; " ++
        "no connection was opened.",
      [("action", .string "join"), ("status", .string "refused"), ("reason", .string "not_interactive")]⟩
  else pure ⟨project, task, as⟩

theorem joinParameter_ok {name : String} {value : Option Json} {found : Option String}
    (h : joinParameter name value = .ok found) : ∀ text ∈ found, Passes text := by
  simp only [joinParameter] at h
  split at h
  · cases h
    simp
  · split at h
    · cases h
    · cases h
      intro text htext
      cases htext
      assumption
  · cases h

/-- Every parameter that reaches the session was checked. -/
theorem joinRequest_passing {interactive : Bool} {args : JoinArguments} {parameters : JoinParameters}
    (h : joinRequest interactive args = .ok parameters) : parameters.Passing := by
  obtain ⟨project, hproject, h⟩ := bind_ok h
  obtain ⟨task, htask, h⟩ := bind_ok h
  obtain ⟨as, has, h⟩ := bind_ok h
  split at h
  · cases h
  · cases h
    exact ⟨joinParameter_ok hproject, joinParameter_ok htask, joinParameter_ok has⟩

/-! ## Reports -/

structure JoinReport where
  room : RoomId
  peer : String
  sources : ResolvedSources
  peers : List String
  purpose : Option String
  unchanged : Bool
  rosterFailure : Option String
  confirmed : Bool
  deriving DecidableEq, Repr

end OmpRelayd.Extension
