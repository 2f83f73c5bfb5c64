import Mathlib
import Mille.Stream.Codec

/-! The vocabulary of a remote session: open requests and their checks, session policies and
the gates that read them. -/

namespace Mille.Remote

open Mille.Stream

inductive RemoteAccess where
  | readOnly
  | readWrite
deriving DecidableEq

inductive RejectCode where
  | accessDenied
  | versionUnsupported
  | invalidRequest
  | limitExceeded
  | serverShuttingDown
deriving DecidableEq

structure RemoteClient where
  instanceId : String
  name : Option String
  milleVersion : String
  milleTruffleVersion : Option String
deriving DecidableEq

structure OpenWorkspaceRequest where
  requestId : String
  exportId : String
  requestedAccess : RemoteAccess
  credential : Option String
  client : RemoteClient
deriving DecidableEq

/-- Why a candidate open request is not one. -/
structure RequestProblem where
  code : RejectCode
  message : String
deriving DecidableEq

def remoteService : String := "mille.remote"

def maxRemoteCredentialLength : Nat := 4096

/-- The own member a value reads under a key; only objects have one. -/
def field (value : Value) (key : String) : Value :=
  match value with
  | .object members => member members key
  | _ => .undefined

/-- Is this frame addressed to the service rather than to the explorer protocol? -/
def isRemoteServiceMessage (value : Value) : Bool :=
  match field value "service" with
  | .string service => service = remoteService
  | _ => false

/-- The `length` of a JavaScript string. -/
def utf16Length (text : String) : Nat :=
  (text.toList.map fun char => if char.val < 0x10000 then 1 else 2).sum

def nonEmptyString (value : Value) (max : Nat) : Option String :=
  match value with
  | .string text => if 0 < utf16Length text ∧ utf16Length text ≤ max then some text else none
  | _ => none

def isAlphanumeric (char : Char) : Bool :=
  ('a' ≤ char && char ≤ 'z') || ('A' ≤ char && char ≤ 'Z') || ('0' ≤ char && char ≤ '9')

/-- An alphanumeric character, then at most 63 that may also be `.`, `_` or `-`. -/
def exportIdMatches (text : String) : Bool :=
  match text.toList with
  | first :: rest =>
    isAlphanumeric first && rest.length ≤ 63 &&
      rest.all fun char => isAlphanumeric char || char = '.' || char = '_' || char = '-'
  | [] => false

/-- A member that may be missing but not malformed. -/
def optionalString (value : Value) (max : Nat) : Option (Option String) :=
  match value with
  | .undefined => some none
  | other => (nonEmptyString other max).map some

def parseClient (client : Value) : Except RequestProblem RemoteClient :=
  match client with
  | .object _ | .array _ | .view _ _ _ _ =>
    match nonEmptyString (field client "instanceId") 128 with
    | none => .error ⟨.invalidRequest, "client.instanceId is required"⟩
    | some instanceId =>
      match nonEmptyString (field client "milleVersion") 64 with
      | none => .error ⟨.invalidRequest, "client version strings are required"⟩
      | some milleVersion =>
        match optionalString (field client "milleTruffleVersion") 64 with
        | none => .error ⟨.invalidRequest, "client version strings are required"⟩
        | some milleTruffleVersion =>
          match optionalString (field client "name") 128 with
          | none => .error ⟨.invalidRequest, "client.name must be a non-empty string"⟩
          | some name => .ok ⟨instanceId, name, milleVersion, milleTruffleVersion⟩
  | _ => .error ⟨.invalidRequest, "client block is required"⟩

/-- Validates an open request, its version before anything else; `describe` is how a value
is printed inside a message. -/
def parseOpenRequest (describe : Value → String) (value : Value) :
    Except RequestProblem OpenWorkspaceRequest :=
  match value with
  | .object members =>
    if isRemoteServiceMessage value = false then .error ⟨.invalidRequest, "not a mille.remote message"⟩
    else
      match member members "version" with
      | .number (.finite 1) =>
        match member members "type" with
        | .string "open" =>
          match nonEmptyString (member members "requestId") 128 with
          | none => .error ⟨.invalidRequest, "requestId must be a non-empty string"⟩
          | some requestId =>
            match (nonEmptyString (member members "exportId") 64).filter exportIdMatches with
            | none => .error ⟨.invalidRequest, "exportId is malformed"⟩
            | some exportId =>
              let access : Option RemoteAccess :=
                match member members "requestedAccess" with
                | .string "read-only" => some .readOnly
                | .string "read-write" => some .readWrite
                | _ => none
              match access with
              | none => .error ⟨.invalidRequest, "requestedAccess must be read-only or read-write"⟩
              | some requestedAccess =>
                match optionalString (member members "credential") maxRemoteCredentialLength with
                | none => .error ⟨.invalidRequest, "credential must be a non-empty string of at most " ++
                    toString maxRemoteCredentialLength ++ " characters"⟩
                | some credential =>
                  match parseClient (member members "client") with
                  | .error problem => .error problem
                  | .ok client => .ok ⟨requestId, exportId, requestedAccess, credential, client⟩
        | other => .error ⟨.invalidRequest, "expected an open request, got " ++ describe other⟩
      | other => .error ⟨.versionUnsupported, "service version " ++ describe other ++ " is not supported"⟩
  | .array _ | .view _ _ _ _ => .error ⟨.invalidRequest, "not a mille.remote message"⟩
  | _ => .error ⟨.invalidRequest, "open request must be an object"⟩

inductive SessionAccess where
  | admin
  | readWrite
  | readOnly
deriving DecidableEq

inductive FlagName where
  | allowClientDecorations
  | allowProjectionMutation
  | allowWorkspaceRootMutation
  | allowExternalImport
  | allowUndo
  | allowWorkspaceResync
  | allowSearch
deriving DecidableEq

/-- What a session is permitted to do. -/
structure SessionPolicy where
  access : SessionAccess
  maxFileBytes : Option Nat
  /-- The flags that are given, each allowed or denied. -/
  flag : FlagName → Option Bool
  maxViewportRows : Option Nat

/-- How an operation is gated. -/
inductive Gate where
  | always
  | write
  | flag (name : FlagName)
deriving DecidableEq

inductive PolicyVerdict where
  | allowed
  | refused (code message : String)
deriving DecidableEq

def mutationGates : String → Option Gate
  | "create" | "rename" | "move" | "delete" | "copy" | "writeFile" => some .write
  | "readFile" | "readText" => some .always
  | "copyFromPath" => some (.flag .allowExternalImport)
  | "undo" => some (.flag .allowUndo)
  | _ => none

def callGates : String → Option Gate
  | "getTreeVersion" | "capabilities" | "resolvePath" | "findVisiblePrefix" | "probeDestination"
  | "cancelOperation" | "resync" => some .always
  | "resyncWorkspace" => some (.flag .allowWorkspaceResync)
  | "canUndo" | "peekUndo" | "lastMutation" => some (.flag .allowUndo)
  | "updateProjectionSettings" => some (.flag .allowProjectionMutation)
  | "reorderRoots" | "updateWorkspaceRoots" | "refreshWorkspaceRoots" =>
    some (.flag .allowWorkspaceRootMutation)
  | "search" => some (.flag .allowSearch)
  | _ => none

def evaluate (policy : SessionPolicy) (name : String) : Option Gate → PolicyVerdict
  | none | some .always => .allowed
  | some .write =>
    match policy.access with
    | .readOnly => .refused "EROFS" (name ++ " is not permitted on a read-only session")
    | _ => .allowed
  | some (.flag flag) =>
    match policy.access with
    | .admin => .allowed
    | _ =>
      if policy.flag flag = some true then .allowed
      else .refused "EACCES" (name ++ " is not permitted for this session")

def authorizeMutation (policy : SessionPolicy) (op : String) : PolicyVerdict :=
  evaluate policy op (mutationGates op)

def authorizeCall (policy : SessionPolicy) (method : String) : PolicyVerdict :=
  evaluate policy method (callGates method)

def authorizeDecorations (policy : SessionPolicy) : PolicyVerdict :=
  evaluate policy "decorations" (some (.flag .allowClientDecorations))

def defaultRemoteMaxViewportRows : Nat := 2048

/-- The row cap a session's viewport runs under; `none` means unbounded. -/
def viewportRowCap (policy : SessionPolicy) : Option Nat :=
  match policy.maxViewportRows with
  | some declared => some (max 1 declared)
  | none =>
    match policy.access with
    | .admin => none
    | _ => some defaultRemoteMaxViewportRows

def defaultRemoteMaxFileBytes : Nat := 16 * 1024 * 1024

/-- Room a file payload's frame needs besides the bytes. -/
def fileFrameHeadroomBytes : Nat := 64 * 1024

/-- The policy a session runs under: the grant's, narrowed by the request, with a file cap
that fits in one frame. -/
def effectivePolicy (granted : SessionPolicy) (requested : RemoteAccess) (limits : FramedStreamLimits) :
    Except String SessionPolicy :=
  if requested = .readWrite ∧ granted.access = .readOnly then
    .error "read-write requested on a read-only grant"
  else
    let frameCap := max 1 (limits.maxFrameBytes - fileFrameHeadroomBytes)
    let maxFileBytes := min (granted.maxFileBytes.getD defaultRemoteMaxFileBytes) frameCap
    if requested = .readOnly ∧ granted.access ≠ .readOnly then
      .ok {
        access := .readOnly
        maxFileBytes := some maxFileBytes
        flag := fun name =>
          if name = .allowSearch ∧ (granted.flag .allowSearch = some true ∨ granted.access = .admin)
          then some true else none
        maxViewportRows := granted.maxViewportRows }
    else .ok { granted with maxFileBytes := some maxFileBytes }

/-- `accepted.export.access` speaks the request's vocabulary, which has no admin. -/
def reportedAccess : SessionAccess → RemoteAccess
  | .readOnly => .readOnly
  | _ => .readWrite

/-- One policy permits no more than another: no gate, no file size, no row count. -/
structure SessionPolicy.Within (policy granted : SessionPolicy) : Prop where
  gates : ∀ name gate, evaluate policy name gate = .allowed → evaluate granted name gate = .allowed
  file : ∀ most, granted.maxFileBytes = some most → ∃ cap, policy.maxFileBytes = some cap ∧ cap ≤ most
  rows : ∀ most, viewportRowCap granted = some most → ∃ cap, viewportRowCap policy = some cap ∧ cap ≤ most

section Effective

variable {granted policy : SessionPolicy} {requested : RemoteAccess} {limits : FramedStreamLimits}

/-- The two shapes an effective policy has. -/
theorem effectivePolicy_cases (effective : effectivePolicy granted requested limits = .ok policy) :
    policy.maxFileBytes = some (min (granted.maxFileBytes.getD defaultRemoteMaxFileBytes)
      (max 1 (limits.maxFrameBytes - fileFrameHeadroomBytes))) ∧
    policy.maxViewportRows = granted.maxViewportRows ∧
    ((requested = .readOnly ∧ granted.access ≠ .readOnly ∧ policy.access = .readOnly ∧
        ∀ name, policy.flag name = some true →
          granted.flag name = some true ∨ granted.access = .admin) ∨
      (requested = .readOnly → granted.access = .readOnly) ∧ policy.access = granted.access ∧
        policy.flag = granted.flag) := by
  unfold effectivePolicy at effective
  split at effective
  · cases effective
  · simp only at effective
    split at effective
    · next narrowed =>
      simp only [Except.ok.injEq] at effective
      subst effective
      refine ⟨rfl, rfl, .inl ⟨narrowed.1, narrowed.2, rfl, ?_⟩⟩
      intro name allowed
      simp only at allowed
      split at allowed
      · next search =>
        rw [search.1]
        exact search.2
      · cases allowed
    · next kept =>
      simp only [Except.ok.injEq] at effective
      subst effective
      refine ⟨rfl, rfl, .inr ⟨?_, rfl, rfl⟩⟩
      intro readOnly
      by_contra more
      exact kept ⟨readOnly, more⟩

theorem evaluate_flag_allowed {name : String} {flag : FlagName} :
    evaluate policy name (some (.flag flag)) = .allowed ↔
      policy.access = .admin ∨ policy.flag flag = some true := by
  unfold evaluate
  cases access : policy.access <;> simp

theorem evaluate_write_allowed {name : String} :
    evaluate policy name (some .write) = .allowed ↔ policy.access ≠ .readOnly := by
  unfold evaluate
  cases access : policy.access <;> simp

/-- The policy passed on is within the grant. -/
theorem effectivePolicy_within (effective : effectivePolicy granted requested limits = .ok policy) :
    policy.Within granted := by
  obtain ⟨cap, rows, shape⟩ := effectivePolicy_cases effective
  refine ⟨?_, ?_, ?_⟩
  · intro name gate allowed
    cases gate with
    | none => rfl
    | some gate =>
      cases gate with
      | always => rfl
      | write =>
        rw [evaluate_write_allowed] at allowed ⊢
        rcases shape with ⟨_, more, _⟩ | ⟨_, same, _⟩
        · exact more
        · rw [← same]
          exact allowed
      | flag flag =>
        rw [evaluate_flag_allowed] at allowed ⊢
        rcases shape with ⟨_, _, readOnly, flags⟩ | ⟨_, same, flags⟩
        · rcases allowed with admin | given
          · rw [readOnly] at admin
            cases admin
          · exact (flags flag given).symm
        · rw [← same, ← flags]
          exact allowed
  · intro most declared
    rw [declared, Option.getD_some] at cap
    exact ⟨_, cap, Nat.min_le_left _ _⟩
  · intro most declared
    unfold viewportRowCap at declared ⊢
    rw [rows]
    cases given : granted.maxViewportRows with
    | some own =>
      rw [given] at declared
      exact ⟨_, rfl, (Option.some.inj declared).le⟩
    | none =>
      rw [given] at declared
      simp only at declared ⊢
      rcases shape with ⟨_, _, readOnly, _⟩ | ⟨_, same, _⟩
      · rw [readOnly]
        cases access : granted.access with
        | admin => simp [access] at declared
        | readWrite | readOnly =>
          simp only [access] at declared
          exact ⟨_, rfl, (Option.some.inj declared).le⟩
      · rw [same]
        exact ⟨_, declared, Nat.le_refl _⟩

theorem effectivePolicy_readOnly (effective : effectivePolicy granted requested limits = .ok policy)
    (asked : requested = .readOnly) : policy.access = .readOnly := by
  rcases (effectivePolicy_cases effective).2.2 with ⟨_, _, readOnly, _⟩ | ⟨kept, same, _⟩
  · exact readOnly
  · rw [same]
    exact kept asked

theorem effectivePolicy_fits (effective : effectivePolicy granted requested limits = .ok policy) :
    ∃ cap, policy.maxFileBytes = some cap ∧
      (cap + fileFrameHeadroomBytes ≤ limits.maxFrameBytes ∨ cap ≤ 1) := by
  refine ⟨_, (effectivePolicy_cases effective).1, ?_⟩
  omega

end Effective

end Mille.Remote
