/-
  Jarvis.Workflows.Templates — `WorkflowService`: workflow templates with their drafts and published
  versions.

  Every command takes the registry's lock for its whole transaction, so commands come one after
  another and one that raises leaves nothing behind. A command's body is an instance of its contract,
  which is also its dump with unset fields left out: what its digest covers. Times and audit events
  are left out, and with them the compiler's version, which is a constant. A schema that does not
  admit a body that was sent for validation is reported by the validator (`report := none`).
-/
import Jarvis.Lib.Keyed
import Jarvis.Lib.Once
import Jarvis.Workflows.Publication

namespace Jarvis.Workflows.Templates

open Documents Model

/-- What the service is set up with. -/
structure Service where
  lax : Lax
  tools : Tools
  uuid7 : Nat → String
  uuid7_injective : Function.Injective uuid7

/-! ## Commands -/

inductive Action where
  | create
  | newDraft
  | save
  | validate
  | publish
  | archive
  deriving DecidableEq, Repr

/-- `^[a-z][a-z0-9_-]*$`. -/
def keyPattern (key : String) : Bool :=
  match key.toList with
  | [] => false
  | first :: rest => first.isLower && rest.all fun c => c.isLower || c.isDigit || c == '_' || c == '-'

def idempotencyField : Field := .required "idempotency_key" (text 8 120)

/-- `WorkflowCommand`. -/
def commandFields (lax : Lax) : List Field := [.required "expected_version" (intIn lax (some 0) none), idempotencyField]

/-- `WorkflowCreateRequest`. -/
def createFields : List Field := [
  .required "key" (Documents.textOf fun key => keyPattern key && 1 ≤ key.length && key.length ≤ 100),
  nameField,
  descriptionField,
  idempotencyField]

instance (lax : Lax) : (workflowSpec lax).Solid := inferInstanceAs (Codec.model _ _ _).Solid

instance (lax : Lax) : (workflowLayout lax).Solid := inferInstanceAs (Codec.model _ _ _).Solid

/-- `WorkflowDraftWrite`. -/
def draftWriteFields (lax : Lax) : List Field := commandFields lax ++ [
  .required "spec" (workflowSpec lax),
  .optional "layout" (workflowLayout lax) ((workflowLayout lax).dump (.obj [])) ⟨_, rfl, rfl⟩]

/-- `WorkflowValidateRequest`. -/
def validateFields (lax : Lax) : List Field := commandFields lax ++ [
  .required "spec" .object,
  .optional "layout" .object (.obj []) ⟨_, rfl, rfl⟩]

/-- The fields of a command's body. -/
def bodyFields (lax : Lax) : Action → List Field
  | .create => createFields
  | .newDraft => commandFields lax ++ [.nullable "source_version_id" (uuid lax)]
  | .save => draftWriteFields lax
  | .validate => validateFields lax
  | .publish => commandFields lax
  | .archive => commandFields lax ++ [.required "archived" boolean]

theorem bodyFields_nodup (lax : Lax) (action : Action) : ((bodyFields lax action).map Field.name).Nodup := by
  cases action <;> exact of_decide_eq_true rfl

def bodyModel (lax : Lax) (action : Action) : Codec := .model (bodyFields lax action) (fun _ => true) (bodyFields_nodup lax action)

/-- A command of an actor, on a template but for `create`. -/
structure Call where
  actor : String
  identity : String
  action : Action
  body : Json

namespace Call

def key (call : Call) : String := textAt call.body "key"

def expectedVersion (call : Call) : Int := (int? (call.body.get "expected_version")).getD 0

def spec (call : Call) : Json := call.body.get "spec"

/-- `body.layout`, an instance without members where it is not set. -/
def layout (call : Call) : Json := (call.body.members.lookup "layout").getD (.obj [])

def sourceVersionId (call : Call) : Option String := textOf? (call.body.get "source_version_id")

def archived (call : Call) : Bool := boolAt call.body "archived"

end Call

/-! ## Rows -/

/-- `WorkflowTemplateModel`. -/
structure Template where
  id : String
  owner : String
  key : String
  name : String
  description : String
  version : Nat
  archived : Bool
  draft : Option String
  published : Option String

/-- `WorkflowVersionModel`. -/
structure Version where
  id : String
  template : String
  version : Nat
  spec : Json
  layout : Json
  contentHash : String
  published : Bool := false
  snapshot : Option WorkflowResolvedSnapshot := none
  snapshotHash : Option String := none

/-- `WorkflowVersionRecord`: a version with what its documents are read as. -/
structure VersionRecord where
  row : Version
  spec : Json
  layout : Json

/-- What a command returns. -/
inductive Response where
  | document (template : Template) (version : VersionRecord)
  | report (report : Option Report)
  | template (template : Template)

/-- `f"workflow:{actor}:{action}:{identity or 'new'}"` with the key. -/
structure Scope where
  actor : String
  action : Action
  identity : Option String
  key : String
  deriving DecidableEq

structure Store where
  templates : List Template
  versions : List Version
  /-- `IdempotencyRecordModel`. -/
  idempotency : List (Once.Entry Scope String Response)
  /-- How many identities were drawn. -/
  issued : Nat

def Store.empty : Store := ⟨[], [], [], 0⟩

/-- What a command raises: a problem, or the `ValidationError` of a contract. -/
inductive Raised where
  | problem (problem : Problem)
  | validation

def raise {α : Type} (status : Nat) (code message : String) : Except Raised α :=
  .error (.problem { status, code := "workflow." ++ code, message })

def require (condition : Bool) (status : Nat) (code message : String) : Except Raised Unit :=
  if condition then .ok () else raise status code message

def some? {α : Type} (value : Option α) (status : Nat) (code message : String) : Except Raised α :=
  match value with
  | some value => .ok value
  | none => raise status code message

def valid {α : Type} : Option α → Except Raised α
  | some value => .ok value
  | none => .error .validation

/-! ## The service -/

variable (svc : Service)

def safe (value : Json) : Except Raised Unit :=
  match safeWorkflowInput svc.tools value with
  | some problem => .error (.problem problem)
  | none => .ok ()

/-- `_template`. -/
def template (s : Store) (call : Call) : Except Raised Template :=
  some? (s.templates.find? fun row => row.id = call.identity ∧ row.owner = call.actor) 404 "not_found" "Workflow was not found"

/-- `_version`. -/
def version (s : Store) (row : Template) (identity : Option String) : Except Raised Version :=
  some? (identity.bind fun id => s.versions.find? fun version => version.id = id ∧ version.template = row.id)
    404 "version_not_found" "Workflow version was not found"

/-- `version_record`. -/
def versionRecord (row : Version) : Except Raised VersionRecord :=
  match (workflowSpec svc.lax).parse row.spec, (workflowLayout svc.lax).parse row.layout with
  | some spec, some layout =>
    if row.contentHash = contentHash svc.lax svc.tools.sha256 spec then .ok { row, spec, layout }
    else raise 422 "unsupported_version" "Workflow version predates the executable schema"
  | _, _ => raise 422 "unsupported_version" "Workflow version predates the executable schema"

/-- `_document`. -/
def document (s : Store) (row : Template) (versionId : Option String) : Except Raised Response := do
  let version ← version s row ((versionId.or row.draft).or row.published)
  let record ← versionRecord svc version
  return .document row record

/-- `_expected`. -/
def expected (row : Template) (call : Call) (allowArchived : Bool) : Except Raised Unit := do
  require ((row.version : Int) = call.expectedVersion) 409 "version_conflict" "Workflow changed; reopen it before saving"
  require (!row.archived || allowArchived) 409 "archived" "Restore the workflow before editing or publishing"

/-- `_touch`. -/
def touch (row : Template) : Template := { row with version := row.version + 1 }

def Store.setTemplate (s : Store) (row : Template) : Store :=
  { s with templates := Keyed.replace Template.id row.id (fun _ => row) s.templates }

def Store.setVersion (s : Store) (row : Version) : Store :=
  { s with versions := Keyed.replace Version.id row.id (fun _ => row) s.versions }

/-- `max(version)` of a template's versions. -/
def Store.latest (s : Store) (template : String) : Nat :=
  ((s.versions.filter fun version => version.template = template).map Version.version).foldl max 0

/-- The row that `_new_version` adds. -/
def newVersion (s : Store) (row : Template) (spec layout : Json) : Version where
  id := svc.uuid7 s.issued
  template := row.id
  version := s.latest row.id + 1
  spec := canonicalPayload svc.lax spec
  layout := (workflowLayout svc.lax).dump layout
  contentHash := contentHash svc.lax svc.tools.sha256 spec

/-- `_new_version`, and the template that has it as its draft. -/
def addVersion (s : Store) (row : Template) (spec layout : Json) : Store × Template :=
  let version := newVersion svc s row spec layout
  ({ s with versions := s.versions ++ [version], issued := s.issued + 1 }, { row with draft := some version.id })

def create (s : Store) (call : Call) : Except Raised (Response × Store) := do
  require (s.templates.all fun row => row.key ≠ call.key) 409 "duplicate_key" "Workflow key is already in use"
  let row : Template := {
    id := svc.uuid7 s.issued, owner := call.actor, key := call.key, name := textAt call.body "name",
    description := textAt call.body "description", version := 1, archived := false, draft := none, published := none }
  let read ← valid ((workflowSpec svc.lax).parse (initialSpec row.key row.name row.description))
  let spec ← valid (Documents.normalizeWorkflow svc.lax read)
  let (s, row) := addVersion svc { s with issued := s.issued + 1 } row spec (.obj [])
  let s := { s with templates := s.templates ++ [row] }
  let response ← document svc s row none
  return (response, s)

def newDraft (s : Store) (call : Call) (row : Template) : Except Raised (Response × Store) := do
  expected row call false
  require row.draft.isNone 409 "draft_exists" "Open the existing draft before creating another"
  let source ← version s row (call.sourceVersionId.or row.published)
  let old ← versionRecord svc source
  let (s, row) := addVersion svc s row old.spec old.layout
  let s := s.setTemplate (touch row)
  let response ← document svc s (touch row) none
  return (response, s)

def save (s : Store) (call : Call) (row : Template) : Except Raised (Response × Store) := do
  expected row call false
  require (textAt call.spec "key" = row.key && textAt ((workflowSpec svc.lax).dump call.spec) "spec_version" = "1.1")
    422 "invalid_identity" "Keep the template key and supported spec version"
  let version ← version s row row.draft
  require (!version.published) 409 "immutable" "Published versions are immutable; create a new draft"
  let spec ← valid (draftOf svc.lax call.spec)
  let s := s.setVersion { version with
    spec := canonicalPayload svc.lax spec, layout := (workflowLayout svc.lax).dump call.layout,
    contentHash := contentHash svc.lax svc.tools.sha256 spec }
  let row := touch { row with name := textAt call.spec "name", description := textAt ((workflowSpec svc.lax).dump call.spec) "description" }
  let s := s.setTemplate row
  let response ← document svc s row none
  return (response, s)

def evaluation (rows : List Resolution.RegistryRow) (raw layoutRaw : Json) : Except Raised (Option Evaluation) :=
  match evaluate svc.lax svc.tools rows raw layoutRaw with
  | .error problem => .error (.problem problem)
  | .ok result => .ok result

def validate (rows : List Resolution.RegistryRow) (s : Store) (call : Call) (row : Template) : Except Raised (Response × Store) := do
  expected row call true
  let result ← evaluation svc rows call.spec call.layout
  return (.report (result.map (·.report)), s)

def publish (rows : List Resolution.RegistryRow) (s : Store) (call : Call) (row : Template) : Except Raised (Response × Store) := do
  expected row call false
  let version ← version s row row.draft
  require (!version.published) 409 "immutable" "Published versions are immutable"
  let result ← evaluation svc rows version.spec version.layout
  let result ← some? (result.filter fun result => result.report.valid) 422 "validation_failed" "Workflow validation failed"
  require (textAt result.spec "key" = row.key && textAt ((workflowSpec svc.lax).dump result.spec) "spec_version" = "1.1")
    422 "invalid_identity" "Workflow identity or version is unsupported"
  let s := s.setVersion { version with
    spec := canonicalPayload svc.lax result.spec, contentHash := contentHash svc.lax svc.tools.sha256 result.spec,
    snapshot := result.snapshot, snapshotHash := svc.tools.snapshotHash result.snapshot, published := true }
  let row := touch { row with draft := none, published := version.id }
  let s := s.setTemplate row
  let response ← document svc s row version.id
  return (response, s)

def archive (s : Store) (call : Call) (row : Template) : Except Raised (Response × Store) := do
  expected row call true
  let row := touch { row with archived := call.archived }
  return (.template row, s.setTemplate row)

/-- What a command does where it is fresh. -/
def perform (rows : List Resolution.RegistryRow) (s : Store) (call : Call) (row : Template) : Except Raised (Response × Store) :=
  match call.action with
  | .create => create svc s call
  | .newDraft => newDraft svc s call row
  | .save => save svc s call row
  | .validate => validate svc rows s call row
  | .publish => publish svc rows s call row
  | .archive => archive s call row

/-- The scope and the key of `_idempotency`. -/
def scope (call : Call) : Scope where
  actor := call.actor
  action := call.action
  identity := if call.action = .create then none else some call.identity
  key := textAt call.body "idempotency_key"

def records : Once.Table Store Scope String Response where
  entries := Store.idempotency
  record s entry := { s with idempotency := s.idempotency ++ [entry] }
  entries_record _ _ := rfl

def idempotencyConflict : Raised :=
  .problem { status := 409, code := "workflow.idempotency_conflict", message := "Idempotency key was reused with changed input" }

/-- `_idempotency` around a command. -/
def idempotent (s : Store) (call : Call) (run : Except Raised (Response × Store)) : Except Raised (Response × Store) :=
  Once.serve records s (scope call) (svc.tools.sha256 call.body) idempotencyConflict run

/-- The checks of a body before the transaction. -/
def checked (call : Call) : Except Raised Unit := do
  safe svc ((bodyModel svc.lax call.action).dump call.body)
  if call.action = .save then
    require ((call.layout.get "nodes").members.all fun e => (nodesOf call.spec).any fun node => textOf? (node.get "id") == some e.1)
      422 "invalid_layout" "Layout references an unknown node"

/-- A command, in one transaction. -/
def handle (rows : List Resolution.RegistryRow) (s : Store) (call : Call) : Except Raised (Response × Store) := do
  checked svc call
  if call.action = .create then idempotent svc s call (create svc s call)
  else
    let row ← template s call
    idempotent svc s call (perform svc rows s call row)

end Jarvis.Workflows.Templates
