/-
  OmpRelayd.Extension.Admitted — whatever the client resolves, the relay admits
  (extension/src/protocol.ts: `identifierProblem` and its siblings; server/src/protocol.rs:
  `validate_identifier` and its siblings).

  The rules are written twice, in two languages. On each side a value's first broken rule is
  named, and `rule` translates the client's name for it into the relay's. An identifier that the
  relay would refuse is not an error that is reported once but a connection that is made, refused
  and made again, so what matters is not only that the rules are one but that no name reaches
  `hello` unchecked.

  Proved (`whatever_is_resolved_is_admitted`): the rules are one, and of every document, project
  root, host name and join the room and the peer that come out are admitted.
-/

import OmpRelayd.Extension.Mesh
import OmpRelayd.Relay.Handlers

namespace OmpRelayd.Extension

open Client (identifierProblem correlationProblem digestProblem IdentifierProblem DigestProblem)

/-! ## One rule, two names -/

def identifierRule : IdentifierProblem → IdentifierError
  | .empty => .empty
  | .tooLong limit found => .tooLong limit found
  | .reservedSeparator separator => .reservedSeparator separator
  | .surroundingWhitespace => .surroundingWhitespace

def digestRule : DigestProblem → DigestError
  | .wrongLength _ found => .wrongLength found
  | .notBase64url character => .notBase64Url character

/-- The verdict of a validator that found this. -/
def verdict {ε : Type} : Option ε → Except ε Unit
  | none => .ok ()
  | some problem => .error problem

theorem isEmpty_eq (value : String) : value.isEmpty = decide (value = "") := by
  rw [Bool.eq_iff_iff, String.isEmpty_iff, decide_eq_true_eq]

theorem validateIdentifier_eq (value : String) :
    validateIdentifier value = verdict ((identifierProblem value).map identifierRule) := by
  simp only [validateIdentifier, identifierProblem, isEmpty_eq, decide_eq_true_eq]
  split
  · rfl
  split
  · rfl
  have hseparator : isReservedSeparator = fun c => c == '/' || c == '@' := rfl
  rw [hseparator]
  cases value.toList.find? fun c => c == '/' || c == '@' with
  | some c => rfl
  | none =>
    show (if Client.surroundedByWhitespace value = true then _ else _) = _
    cases Client.surroundedByWhitespace value <;> rfl

theorem validateCorrelationId_eq (value : String) :
    validateCorrelationId value = verdict ((correlationProblem value).map identifierRule) := by
  simp only [validateCorrelationId, correlationProblem, isEmpty_eq, decide_eq_true_eq]
  split
  · rfl
  split
  · rfl
  · rfl

theorem validateDigest_eq (value : String) : validateDigest value = verdict ((digestProblem value).map digestRule) := by
  simp only [validateDigest, digestProblem, Client.isBase64Url_eq]
  split
  · rfl
  · cases value.toList.find? fun c => !Client.base64urlCharacter c with
    | some c => rfl
    | none => rfl

theorem Passes.admitted {name : String} (h : Passes name) : validateIdentifier name = .ok () := by
  have h : identifierProblem name = none := h
  rw [validateIdentifier_eq, h]
  rfl

theorem admitted_of_valid (env : Relay.Env) {room : RoomId} {peer : String}
    (hproject : validateIdentifier room.project = .ok ()) (htask : validateIdentifier room.task = .ok ())
    (hpeer : validateIdentifier peer = .ok ()) :
    Relay.admitted env (.hello protocolVersion room peer) = .ok ⟨room, peer⟩ := by
  simp only [Relay.admitted, ne_eq, not_true_eq_false, if_false, hproject, htask, hpeer]
  rfl

theorem whatever_is_resolved_is_admitted :
    (∀ value : String,
      validateIdentifier value = verdict ((identifierProblem value).map identifierRule) ∧
      validateCorrelationId value = verdict ((correlationProblem value).map identifierRule) ∧
      validateDigest value = verdict ((digestProblem value).map digestRule) ∧
      bodyOverBudget value = Client.bodyOverBudget value) ∧
    ∀ (paths : Paths) (machine : Machine) (env : Relay.Env) (document : Json) (globalPath cwd : String)
      (global : GlobalConfig) (interactive : Bool) (args : JoinArguments) (parameters : JoinParameters)
      (resolved : ResolvedClient),
      validateGlobalConfig document globalPath = .ok global → joinRequest interactive args = .ok parameters →
      resolveWithGlobal paths machine global globalPath cwd parameters = .ok resolved →
      validateIdentifier resolved.config.room.project = .ok () ∧ validateIdentifier resolved.config.room.task = .ok () ∧
        validateIdentifier resolved.config.peer = .ok () ∧
        Relay.admitted env (.hello protocolVersion resolved.config.room resolved.config.peer) =
          .ok ⟨resolved.config.room, resolved.config.peer⟩ := by
  constructor
  · intro value
    exact ⟨validateIdentifier_eq value, validateCorrelationId_eq value, validateDigest_eq value, rfl⟩
  · intro paths machine env document globalPath cwd global interactive args parameters resolved hglobal hrequest hresolved
    obtain ⟨hproject, htask, hpeer⟩ :=
      resolveWithGlobal_names (validateGlobalConfig_peer hglobal) (joinRequest_passing hrequest) hresolved
    exact ⟨hproject.admitted, htask.admitted, hpeer.admitted,
      admitted_of_valid env hproject.admitted htask.admitted hpeer.admitted⟩

/-- The project and the peer are derived, and the task is asked for. -/
theorem a_derived_peer_is_admitted :
    Relay.admitted ⟨fun _ => none, String.singleton, "15s", true⟩ (.hello protocolVersion ⟨"omp-relayd", "review"⟩ "MacBook-Pro") =
      .ok ⟨⟨"omp-relayd", "review"⟩, "MacBook-Pro"⟩ :=
  (whatever_is_resolved_is_admitted.2 samplePaths (sampleMachine "manual") _ (sampleGlobal "manual") "omp-relay.yml" "/work"
    ⟨⟨"127.0.0.1", 7788⟩, .manual, false, none, some "Builds run here."⟩ true ⟨none, some (.string "review"), none⟩
    ⟨none, some "review", none⟩
    ⟨⟨⟨"127.0.0.1", 7788⟩, ⟨"omp-relayd", "review"⟩, "MacBook-Pro"⟩, .manual, false, some "Builds run here.",
      ⟨.derivation, .parameter, .derivation⟩, "omp-relay.yml", none, ⟨"/work/omp-relayd", "OMP_PROJECT_ROOT"⟩⟩
    (by decide +kernel) (by rfl) (by decide +kernel)).2.2.2

end OmpRelayd.Extension
