/-
  Jarvis.Workflows.Contracts — the wire contracts of a workflow as codecs (`jarvis_contracts`:
  `workflow`, `workflow_nodes`, and of `verification` what a policy holds).

  A contract forbids unknown fields, coerces scalars and checks its defaults; its fields stand in
  the source's order with the source's bounds. What the validator reads in a text where a number or
  an identity is wanted, what it takes for a literal and how deep it follows a predicate are
  parameters (`Lax`). Identities are their canonical texts.
-/
import Mathlib.Tactic.NormNum
import Mathlib.Data.Rat.Defs
import Jarvis.Lib.Model
import Jarvis.Workflows.Spec

namespace Jarvis.Workflows.Documents

open Codec Field

/-- The validator, where it is not the contracts that say what is read. -/
structure Lax where
  /-- The number a text spells. -/
  int : String → Option Int
  float : String → Option Rat
  /-- The canonical text of the identity a text spells. -/
  uuid : String → Option String
  /-- Whether a scalar is taken for a literal number or boolean. -/
  literal : Scalar → Scalar → Bool
  /-- How deep predicates can be. -/
  recursion : Nat
  uuid_canonical : ∀ {s t}, uuid s = some t → uuid t = some t
  literal_self : ∀ v, literal v v = true

/-- A validator that reads no text as a number or an identity. -/
def strictLax : Lax where
  int _ := none
  float _ := none
  uuid _ := none
  literal a b := decide (a = b)
  recursion := 4
  uuid_canonical := by rintro _ _ ⟨⟩
  literal_self _ := decide_eq_true rfl

/-! ## Scalars -/

def textOf (accept : String → Bool) : Codec :=
  scalarOf fun
    | .str s => accept s
    | _ => false

def text (lo hi : Nat) : Codec := textOf fun s => lo ≤ s.length && s.length ≤ hi

/-- `Literal[...]` of texts, and an enumeration by its values. -/
def literal (values : List String) : Codec := textOf values.contains

theorem mem_of_literal {values : List String} {value : String} {w : Json} (h : (literal values).parse (.str value) = some w) :
    value ∈ values := by
  obtain ⟨t, ht, -⟩ := Option.map_eq_some_iff.mp h
  by_cases hmem : values.contains value = true
  · exact List.contains_iff_mem.mp hmem
  · cases (if_neg hmem).symm.trans ht

/-- `Literal[...]` of another scalar. -/
def exactly (lax : Lax) (value : Scalar) : Codec :=
  scalar (fun s => if lax.literal value s then some value else none) fun s t h => by
    split at h <;> cases h
    exact if_pos (lax.literal_self value)

def readInt (lax : Lax) : Scalar → Option Int
  | .int n => some n
  | .bool b => some (if b then 1 else 0)
  | .float q => if q.den = 1 then some q.num else none
  | .str s => lax.int s
  | .null => none

def intIn (lax : Lax) (lo : Option Int) (hi : Option Int) : Codec :=
  scalar (fun s => (readInt lax s).bind fun n => if lo.all (· ≤ n) && hi.all (n ≤ ·) then some (.int n) else none) fun s t h => by
    obtain ⟨n, -, h⟩ := Option.bind_eq_some_iff.mp h
    split at h <;> cases h
    rename_i hn
    exact if_pos hn

def readFloat (lax : Lax) : Scalar → Option Rat
  | .int n => some n
  | .bool b => some (if b then 1 else 0)
  | .float q => some q
  | .str s => lax.float s
  | .null => none

def floatIn (lax : Lax) (lo hi : Rat) : Codec :=
  scalar (fun s => (readFloat lax s).bind fun q => if lo ≤ q ∧ q ≤ hi then some (.float q) else none) fun s t h => by
    obtain ⟨q, -, h⟩ := Option.bind_eq_some_iff.mp h
    split at h <;> cases h
    rename_i hq
    exact if_pos hq

def readBool : Scalar → Option Bool
  | .bool b => some b
  | .int n => if n = 0 then some false else if n = 1 then some true else none
  | .float q => if q = 0 then some false else if q = 1 then some true else none
  | .str s =>
    if ["0", "off", "f", "false", "n", "no"].contains s.toLower then some false
    else if ["1", "on", "t", "true", "y", "yes"].contains s.toLower then some true
    else none
  | .null => none

def boolean : Codec :=
  scalar (fun s => (readBool s).map .bool) fun s t h => by
    obtain ⟨b, -, rfl⟩ := Option.map_eq_some_iff.mp h
    rfl

def uuid (lax : Lax) : Codec :=
  scalar (fun | .str s => (lax.uuid s).map .str | _ => none) fun s t h => by
    cases s with
    | str s =>
      obtain ⟨u, hu, rfl⟩ := Option.map_eq_some_iff.mp h
      exact congrArg (Option.map Scalar.str) (lax.uuid_canonical hu)
    | null | bool | int | float => cases h

section Solid

variable {lax : Lax}

instance {accept : String → Bool} : (textOf accept).Solid := ⟨fun j h => by
  obtain ⟨s, t, -, hv, hst⟩ := parseScalar_spec h
  cases hv
  split at hst
  · cases hst
    contradiction
  · cases hst⟩

instance {lo hi : Nat} : (text lo hi).Solid := inferInstanceAs (textOf _).Solid

instance {values : List String} : (literal values).Solid := inferInstanceAs (textOf _).Solid

theorem exactly_default (lax : Lax) {value : Scalar} :
    ∃ w, (exactly lax value).parse (.scalar value) = some w ∧ (exactly lax value).dump w = .scalar value :=
  ⟨.scalar value, congrArg (Option.map Json.scalar) (if_pos (lax.literal_self value)), rfl⟩

theorem exactly_ne_null {value : Scalar} (h : value ≠ .null) : (exactly lax value).Solid := ⟨fun j hj => by
  obtain ⟨s, t, -, hv, hst⟩ := parseScalar_spec hj
  cases hv
  split at hst
  · exact h (Option.some.inj hst)
  · cases hst⟩

instance {n : Int} : (exactly lax (.int n)).Solid := exactly_ne_null (by rintro ⟨⟩)

instance {b : Bool} : (exactly lax (.bool b)).Solid := exactly_ne_null (by rintro ⟨⟩)

instance {lo hi : Option Int} : (intIn lax lo hi).Solid := ⟨fun j h => by
  obtain ⟨s, t, -, hv, hst⟩ := parseScalar_spec h
  cases hv
  obtain ⟨n, -, hst⟩ := Option.bind_eq_some_iff.mp hst
  split at hst <;> cases hst⟩

instance {lo hi : Rat} : (floatIn lax lo hi).Solid := ⟨fun j h => by
  obtain ⟨s, t, -, hv, hst⟩ := parseScalar_spec h
  cases hv
  obtain ⟨q, -, hst⟩ := Option.bind_eq_some_iff.mp hst
  split at hst <;> cases hst⟩

instance : boolean.Solid := ⟨fun j h => by
  obtain ⟨s, t, -, hv, hst⟩ := parseScalar_spec h
  cases hv
  obtain ⟨b, -, hst⟩ := Option.map_eq_some_iff.mp hst
  cases hst⟩

instance : (uuid lax).Solid := ⟨fun j h => by
  obtain ⟨s, t, -, hv, hst⟩ := parseScalar_spec h
  cases hv
  split at hst
  · obtain ⟨u, -, hst⟩ := Option.map_eq_some_iff.mp hst
    cases hst
  · cases hst⟩

end Solid

/-- `^[a-z][a-z0-9_.-]{0,n}$`. -/
def tokenPattern (n : Nat) (token : String) : Bool :=
  match token.toList with
  | [] => false
  | first :: rest =>
    first.isLower && rest.length ≤ n && rest.all fun c => c.isLower || c.isDigit || c == '_' || c == '.' || c == '-'

/-- `^\$\.[A-Za-z0-9_.-]+$`. -/
def pathPattern (path : String) : Bool :=
  match path.toList with
  | '$' :: '.' :: rest => !rest.isEmpty && rest.all fun c => c.isAlphanum || c == '_' || c == '.' || c == '-'
  | _ => false

def identifier (hi : Nat) : Codec := textOf fun s => idPattern s && s.length ≤ hi

def token (n : Nat) : Codec := textOf (tokenPattern n)

def path : Codec := textOf pathPattern

instance {hi : Nat} : (identifier hi).Solid := inferInstanceAs (textOf _).Solid
instance {n : Nat} : (token n).Solid := inferInstanceAs (textOf _).Solid
instance : path.Solid := inferInstanceAs (textOf _).Solid

/-! ## Required checks -/

/-- The text a value is. -/
def textOf? : Json → Option String
  | .scalar (.str s) => some s
  | _ => none

/-- The integer a value is. -/
def int? : Json → Option Int
  | .scalar (.int n) => some n
  | _ => none

/-- The text of a member of what is written. -/
def memberText (members : List (String × Json)) (key : String) : Option String := textOf? ((Json.obj members).get key)

def memberItems (members : List (String × Json)) (key : String) : List Json := ((Json.obj members).get key).items

def parserKinds : List String :=
  ["exit_code", "pytest", "vitest", "playwright", "typescript", "next", "eslint", "ruff", "mypy"]

def verificationPurposes : List String := ["build", "unit", "browser", "quality", "integration"]

def environmentKeys : List String := ["CI", "NO_COLOR", "FORCE_COLOR", "TZ", "PYTHONDONTWRITEBYTECODE"]

def executables : List String :=
  ["python", "pytest", "npm", "node", "npx", "playwright", "vitest", "tsc", "next", "eslint", "ruff", "mypy"]

/-- `safe_environment`. -/
def safeEnvironment (entry : String × Json) : Bool :=
  (if entry.1 = "TZ" then ["UTC"] else ["0", "1", "true", "false"]).any fun item => textOf? entry.2 = some item

/-- `VerificationCommand`. -/
def verificationCommandFields (lax : Lax) : List Field := [
  .optional "kind" (literal ["argv"]) (.str "argv") ⟨_, rfl, rfl⟩,
  .required "argv" (list (textOf fun item => item ≠ "" && item.length ≤ 1024 && !item.toList.contains (Char.ofNat 0)) 1 64),
  .optional "timeout_seconds" (intIn lax (some 1) (some 86400)) (.int 1200) ⟨_, rfl, rfl⟩,
  .optional "expected_exit_codes" (list (intIn lax (some 0) (some 255)) 1 8) (.list [.int 0]) ⟨_, rfl, rfl⟩,
  .optional "environment" (dict environmentKeys.contains (text 0 128) (some 5)) (.obj []) ⟨_, rfl, rfl⟩,
  .optional "parser" (literal parserKinds) (.str "exit_code") ⟨_, rfl, rfl⟩,
  .optional "purpose" (literal verificationPurposes) (.str "unit") ⟨_, rfl, rfl⟩,
  .nullable "profile_revision_id" (uuid lax),
  .nullable "required_check_id" (token 79),
  .optional "require_nonempty_suite" boolean (.bool false) ⟨_, rfl, rfl⟩,
  .optional "working_root_policy" (literal ["adapter_confirmed_root"]) (.str "adapter_confirmed_root") ⟨_, rfl, rfl⟩,
  .optional "max_output_bytes" (intIn lax (some 1024) (some 1048576)) (.int 1048576) ⟨_, rfl, rfl⟩]

/-- `bounded_argv` on the first word, and `safe_environment`. -/
def commandValid (members : List (String × Json)) : Bool :=
  ((memberItems members "argv").head?.bind textOf?).any executables.contains &&
    ((Json.obj members).get "environment").members.all safeEnvironment

def verificationCommand (lax : Lax) : Codec := model (verificationCommandFields lax) commandValid (of_decide_eq_true rfl)

instance (lax : Lax) : (verificationCommand lax).Solid := inferInstanceAs (model _ _ _).Solid

/-- `RequiredAcceptanceCheck`. -/
def requiredAcceptanceCheckFields (lax : Lax) : List Field := [
  .required "check_id" (token 79),
  .required "purpose" (literal verificationPurposes),
  .required "profile_revision_id" (uuid lax),
  .required "command" (verificationCommand lax)]

/-- `command_identity`. -/
def commandIdentity (members : List (String × Json)) : Bool :=
  let command := ((Json.obj members).get "command").members
  let purpose := memberText members "purpose"
  memberText command "required_check_id" == memberText members "check_id" &&
    memberText command "profile_revision_id" == memberText members "profile_revision_id" &&
    memberText command "purpose" == purpose &&
    (!(purpose == some "unit" || purpose == some "browser") ||
      (match (Json.obj command).get "require_nonempty_suite" with | .scalar (.bool b) => b | _ => false)) &&
    (!(purpose == some "browser") || memberText command "parser" == some "playwright")

def requiredAcceptanceCheck (lax : Lax) : Codec := model (requiredAcceptanceCheckFields lax) commandIdentity (of_decide_eq_true rfl)

/-! ## Policies -/

def actionTypes : List String := ["github.push_and_pr", "git.integrate", "worker.execute"]

/-- `VerificationPolicy`. -/
def verificationPolicyFields (lax : Lax) : List Field := [
  .optional "source" (literal ["task"]) (.str "task") ⟨_, rfl, rfl⟩,
  .optional "required" boolean (.bool true) ⟨_, rfl, rfl⟩,
  .optional "execution_profile_revision_ids" (list (uuid lax) 0 3) (.list []) ⟨_, rfl, rfl⟩,
  .optional "required_acceptance_checks" (list (requiredAcceptanceCheck lax) 0 32) (.list []) ⟨_, rfl, rfl⟩]

/-- `immutable_checks_use_selected_profiles`. -/
def selectedProfiles (members : List (String × Json)) : Bool :=
  let selected := (memberItems members "execution_profile_revision_ids").map textOf?
  let checks := memberItems members "required_acceptance_checks"
  decide selected.Nodup && checks.all (fun check => selected.contains (textOf? (check.get "profile_revision_id"))) &&
    decide (checks.map fun check => textOf? (check.get "check_id")).Nodup

def verificationPolicy (lax : Lax) : Codec := model (verificationPolicyFields lax) selectedProfiles (of_decide_eq_true rfl)

/-- `WorkerSelector`. -/
def workerSelectorFields (lax : Lax) : List Field := [
  .required "revision_id" (uuid lax),
  .optional "requires" (list (token 63) 0 64) (.list []) ⟨_, rfl, rfl⟩]

def workerSelector (lax : Lax) : Codec := model (workerSelectorFields lax) (fun _ => true) (of_decide_eq_true rfl)

/-- `ApprovalPolicy`. -/
def approvalPolicyFields (lax : Lax) : List Field := [
  .nullable "required_grant_from" (text 0 80),
  .nullable "action_type" (literal actionTypes),
  .nullable "expires_in_seconds" (intIn lax (some 1) none)]

def approvalPolicy (lax : Lax) : Codec := model (approvalPolicyFields lax) (fun _ => true) (of_decide_eq_true rfl)

/-- `NodePolicy`. -/
def nodePolicyFields (lax : Lax) : List Field := [
  .nullable "worker_selector" (workerSelector lax),
  .nullable "model_route_ref" (uuid lax),
  .nullable "retry_policy_ref" (uuid lax),
  .nullable "permission_policy_ref" (uuid lax),
  .nullable "verification" (verificationPolicy lax),
  .nullable "approval" (approvalPolicy lax),
  .nullable "timeout_seconds" (intIn lax (some 1) (some 86400)),
  .nullable "max_concurrency" (intIn lax (some 1) (some 1000)),
  .optional "accepts_runtime_instructions" boolean (.bool false) ⟨_, rfl, rfl⟩]

def nodePolicy (lax : Lax) : Codec := model (nodePolicyFields lax) (fun _ => true) (of_decide_eq_true rfl)

instance (lax : Lax) : (nodePolicy lax).Solid := inferInstanceAs (model _ _ _).Solid

/-- `NodePolicy()`, in which nothing is set. -/
def noPolicy : Json := .obj []

/-- A policy that is `NodePolicy()` by default. -/
def policyField (lax : Lax) (name : String) : Field :=
  .optional name (nodePolicy lax) ((nodePolicy lax).dump noPolicy) ⟨_, rfl, rfl⟩

/-! ## Predicates -/

def predicateOperators : List String := ["eq", "neq", "in", "exists", "lt", "lte", "gt", "gte", "and", "or", "not"]

/-- `validate_shape`. -/
def predicateShape (members : List (String × Json)) : Bool :=
  let op := memberText members "op"
  let path := (Json.obj members).get "path"
  let count := (memberItems members "args").length
  let required := if op = some "not" then 1 else 2
  (if op = some "and" ∨ op = some "or" ∨ op = some "not" then
      decide (required ≤ count) && path.isNull && (!decide (op = some "not") || decide (count = 1))
    else !path.isNull && decide (count = 0)) &&
  (!decide (op = some "exists") || ((Json.obj members).get "value").isNull)

/-- `Predicate`, its arguments read by `argument`. -/
def predicateFields (argument : Codec) : List Field := [
  .required "op" (literal predicateOperators),
  .nullable "path" path,
  .nullable "value" json,
  .optional "args" (list argument 0 64) (.list []) ⟨_, rfl, rfl⟩]

/-- A predicate that is not deeper than this. -/
def predicate : Nat → Codec
  | 0 => leaf (fun _ => none) none (fun h => h) (fun _ hn => by cases hn)
  | n + 1 => model (predicateFields (predicate n)) predicateShape (of_decide_eq_true rfl)

/-! ## Configurations -/

/-- The fields of `NODE_DEFINITIONS[type].config_model`. -/
def configFields (lax : Lax) : WorkflowNodeType → List Field
  | .organizer => [.optional "summary_limit" (intIn lax (some 100) (some 8000)) (.int 2000) ⟨_, rfl, rfl⟩]
  | .architect => [
    .optional "output_schema" (literal ["task_plan.v1"]) (.str "task_plan.v1") ⟨_, rfl, rfl⟩,
    .optional "max_tasks" (intIn lax (some 1) (some 10000)) (.int 100) ⟨_, rfl, rfl⟩]
  | .taskDispatch => [
    .optional "parallelism" (exactly lax (.int 1)) (.int 1) (exactly_default lax),
    .optional "ready_order" (literal ["dependency_then_task_key"]) (.str "dependency_then_task_key") ⟨_, rfl, rfl⟩]
  | .worker => [.optional "task_source" (literal ["current_task"]) (.str "current_task") ⟨_, rfl, rfl⟩]
  | .verify => [
    .optional "commands_source" (literal ["task.verification"]) (.str "task.verification") ⟨_, rfl, rfl⟩,
    .optional "stop_on_failure" (exactly lax (.bool true)) (.bool true) (exactly_default lax)]
  | .reviewer => [.optional "requires_repository_snapshot" (exactly lax (.bool true)) (.bool true) (exactly_default lax)]
  | .integrate => [
    .optional "repository_source" (literal ["project"]) (.str "project") ⟨_, rfl, rfl⟩,
    .optional "run_combined_gates" (exactly lax (.bool true)) (.bool true) (exactly_default lax)]
  | .router => []
  | .fanout => [
    .optional "children" (list (textOf fun _ => true) 0 64) (.list []) ⟨_, rfl, rfl⟩,
    .optional "join_id" (text 1 80) (.str "join") ⟨_, rfl, rfl⟩,
    .optional "max_fanout" (intIn lax (some 1) (some 64)) (.int 8) ⟨_, rfl, rfl⟩,
    .optional "cancellation_strategy" (literal ["wait_all"]) (.str "wait_all") ⟨_, rfl, rfl⟩]
  | .join => [
    .optional "fanout_id" (text 1 80) (.str "fanout") ⟨_, rfl, rfl⟩,
    .optional "require_all" (exactly lax (.bool true)) (.bool true) (exactly_default lax)]
  | .approval => [
    .optional "action_type" (literal actionTypes) (.str "github.push_and_pr") ⟨_, rfl, rfl⟩,
    .nullable "expires_in_seconds" (intIn lax (some 60) (some 604800))]
  | .githubPublish => [
    .optional "repository_source" (literal ["project"]) (.str "project") ⟨_, rfl, rfl⟩,
    .optional "wait_for_ci" boolean (.bool true) ⟨_, rfl, rfl⟩]
  | .finalize => [.optional "outcome" (literal ["derive", "failed", "blocked", "cancelled"]) (.str "derive") ⟨_, rfl, rfl⟩]

theorem configFields_nodup (lax : Lax) (type : WorkflowNodeType) : ((configFields lax type).map Field.name).Nodup := by
  cases type <;> exact of_decide_eq_true rfl

def configModel (lax : Lax) (type : WorkflowNodeType) : Codec :=
  model (configFields lax type) (fun _ => true) (configFields_nodup lax type)

/-! ## Nodes, edges and the specification -/

def nodeTypes : List WorkflowNodeType :=
  [.organizer, .architect, .taskDispatch, .worker, .verify, .reviewer, .integrate, .router, .fanout, .join, .approval,
    .githubPublish, .finalize]

/-- `WorkflowNodeType(value)`. -/
def nodeTypeOf (value : String) : Option WorkflowNodeType := nodeTypes.find? fun type => type.value = value

def idField : Field := .required "id" (identifier 80)

def typeField : Field := .required "type" (literal (nodeTypes.map WorkflowNodeType.value))

/-- `WorkflowNode`. -/
def workflowNodeFields (lax : Lax) : List Field := [
  idField,
  typeField,
  .optional "node_version" (literal ["1.0"]) (.str "1.0") ⟨_, rfl, rfl⟩,
  .required "label" (text 1 160),
  .required "config" object,
  policyField lax "policy"]

def workflowNode (lax : Lax) : Codec := model (workflowNodeFields lax) (fun _ => true) (of_decide_eq_true rfl)

def edgeKinds : List String := ["always", "on_result", "retry", "iterate", "on_failure"]

/-- `WorkflowEdge`. -/
def workflowEdgeFields (lax : Lax) : List Field := [
  idField,
  .required "from" (text 1 80),
  .required "to" (text 1 80),
  .required "kind" (literal edgeKinds),
  .nullable "when" (predicate lax.recursion),
  .optional "priority" (intIn lax none none) (.int 0) ⟨_, rfl, rfl⟩,
  .optional "fallback" boolean (.bool false) ⟨_, rfl, rfl⟩,
  .nullable "retry_class" (literal (FailureClass.all.map FailureClass.value)),
  .nullable "iteration_key" (textOf fun _ => true),
  .nullable "progress_path" path,
  .nullable "max_iterations" (intIn lax (some 1) (some 10000))]

/-- `validate_kind_fields`. -/
def kindFields (members : List (String × Json)) : Bool :=
  let kind := memberText members "kind"
  let member := (Json.obj members).get
  (!decide (kind = some "always") || (member "when").isNull) &&
    (!decide (kind = some "retry") || (memberText members "retry_class").isSome) &&
    (!decide (kind = some "iterate") || ((memberText members "iteration_key").any (· ≠ "") &&
      (memberText members "progress_path").any (· ≠ "") && !(member "max_iterations").isNull))

def workflowEdge (lax : Lax) : Codec := model (workflowEdgeFields lax) kindFields (of_decide_eq_true rfl)

/-- `WorkflowOutputs`. -/
def workflowOutputs : Codec := model [.required "result_path" path] (fun _ => true) (of_decide_eq_true rfl)

instance : workflowOutputs.Solid := inferInstanceAs (model _ _ _).Solid

def reducerKinds : List String := ["merge_by_id", "set_union", "max_map"]

def nameField : Field := .required "name" (text 1 160)

def descriptionField : Field := .optional "description" (text 0 2000) (.str "") ⟨_, rfl, rfl⟩

def entrypointField : Field := .required "entrypoint" (text 1 80)

def nodesField (lax : Lax) : Field := .required "nodes" (list (workflowNode lax) 1 500)

def edgesField (lax : Lax) : Field := .required "edges" (list (workflowEdge lax) 0 2000)

/-- `WorkflowSpec`. -/
def workflowSpecFields (lax : Lax) : List Field := [
  .optional "spec_version" (literal ["1.0", "1.1"]) (.str "1.1") ⟨_, rfl, rfl⟩,
  .optional "state_schema" (literal ["jarvis.workflow_state.v1"]) (.str "jarvis.workflow_state.v1") ⟨_, rfl, rfl⟩,
  .optional "reducers" (dict (fun _ => true) (literal reducerKinds) none)
    (.obj [("results", .str "merge_by_id"), ("child_results", .str "merge_by_id"), ("expected_children", .str "set_union"),
      ("completed_children", .str "set_union"), ("counters", .str "max_map")]) ⟨_, rfl, rfl⟩,
  .required "key" (identifier 100),
  nameField,
  descriptionField,
  entrypointField,
  policyField lax "defaults",
  nodesField lax,
  edgesField lax,
  .required "outputs" workflowOutputs]

/-- `validate_references`. -/
def references (entrypoint : Option String) (nodes edges : List Json) : Bool :=
  let nodeIds := nodes.map fun node => textOf? (node.get "id")
  decide nodeIds.Nodup && decide (edges.map fun edge => textOf? (edge.get "id")).Nodup && nodeIds.contains entrypoint &&
    edges.all fun edge => nodeIds.contains (textOf? (edge.get "from")) && nodeIds.contains (textOf? (edge.get "to"))

def validReferences (members : List (String × Json)) : Bool :=
  references (memberText members "entrypoint") (memberItems members "nodes") (memberItems members "edges")

def workflowSpec (lax : Lax) : Codec := model (workflowSpecFields lax) validReferences (of_decide_eq_true rfl)

/-! ## The layout -/

/-- `WorkflowPosition`. -/
def workflowPositionFields (lax : Lax) : List Field :=
  [.required "x" (floatIn lax (-100000) 100000), .required "y" (floatIn lax (-100000) 100000)]

def workflowPosition (lax : Lax) : Codec := model (workflowPositionFields lax) (fun _ => true) (of_decide_eq_true rfl)

instance (lax : Lax) : (workflowPosition lax).Solid := inferInstanceAs (model _ _ _).Solid

/-- The binary64 number nearest to 0.1. -/
def tenth : Rat := 3602879701896397 / 36028797018963968

theorem floatIn_default (lax : Lax) {lo hi q : Rat} (h : lo ≤ q ∧ q ≤ hi) :
    ∃ w, (floatIn lax lo hi).parse (.scalar (.float q)) = some w ∧ (floatIn lax lo hi).dump w = .scalar (.float q) :=
  ⟨.scalar (.float q), congrArg (Option.map Json.scalar) (if_pos h), rfl⟩

theorem zoom_default : tenth ≤ 1 ∧ (1 : Rat) ≤ 4 := by norm_num [tenth]

/-- `WorkflowViewport`. -/
def workflowViewport (lax : Lax) : Codec :=
  model (workflowPositionFields lax ++ [.optional "zoom" (floatIn lax tenth 4) (.scalar (.float 1)) (floatIn_default lax zoom_default)])
    (fun _ => true) (of_decide_eq_true rfl)

/-- `WorkflowLayout`. -/
def workflowLayout (lax : Lax) : Codec :=
  model [.optional "nodes" (dict (fun _ => true) (workflowPosition lax) (some 500)) (.obj []) ⟨_, rfl, rfl⟩,
    .nullable "viewport" (workflowViewport lax)] (fun _ => true) (of_decide_eq_true rfl)

end Jarvis.Workflows.Documents
