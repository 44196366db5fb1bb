/-
  Jarvis.Workflows.TemplateRuns — what holds of workflow templates over every run of commands.

  A run starts with no template and takes accepted commands one after another; a command that raises
  leaves no trace. The registry may differ from one command to the next.

  Proved:
  (1) The history of a template (`history_of_reach`): its versions are numbered from one, all
      published but for the draft, which comes last; the template names the draft and the latest
      publication; and what is published was found valid, with the snapshot it is stored with.
  (2) Publications are never taken back nor changed (`releases_prefix`).
  (3) A command sent again is answered as it was, and does nothing (`handle_again`).
  (4) The commands that write a template carry the versions it goes through, each once
      (`writes_consecutive`): of two that expect the same version, one is refused.
-/
import Jarvis.Workflows.Templates

namespace Jarvis.Workflows.Templates

open Documents Model

/-- A command, and the registry as it is then. -/
structure Move where
  rows : List Resolution.RegistryRow
  call : Call

/-- An accepted command. -/
def step (svc : Service) (s : Store) (move : Move) : Option Store := (handle svc move.rows s move.call).toOption.map Prod.snd

variable {svc : Service} {s t : Store} {call : Call} {rows : List Resolution.RegistryRow} {row : Template} {response : Response}

/-! ## What a command does -/

theorem require_ok {condition : Bool} {status : Nat} {code message : String} {done : Unit}
    (h : require condition status code message = .ok done) : condition = true := by
  cases condition with
  | true => rfl
  | false => cases h

theorem some?_ok {α : Type} {value : Option α} {status : Nat} {code message : String} {a : α}
    (h : some? value status code message = .ok a) : value = some a := by
  cases value with
  | none => cases h
  | some b => cases h; rfl

theorem template_ok (h : template s call = .ok row) : row ∈ s.templates ∧ row.id = call.identity ∧ row.owner = call.actor := by
  have hfound := some?_ok h
  exact ⟨List.mem_of_find?_eq_some hfound, by simpa using List.find?_some hfound⟩

theorem version_ok {identity : Option String} {found : Version} (h : version s row identity = .ok found) :
    found ∈ s.versions ∧ identity = some found.id ∧ found.template = row.id := by
  obtain ⟨id, rfl, hfound⟩ := Option.bind_eq_some_iff.mp (some?_ok h)
  have hsame : found.id = id ∧ found.template = row.id := by simpa using List.find?_some hfound
  exact ⟨List.mem_of_find?_eq_some hfound, congrArg some hsame.1.symm, hsame.2⟩

theorem expected_ok {allowArchived : Bool} {done : Unit} (h : expected row call allowArchived = .ok done) :
    (row.version : Int) = call.expectedVersion := by
  obtain ⟨_, h, -⟩ := Steps.bind_ok h
  exact of_decide_eq_true (require_ok h)

/-- A version that is read. -/
def Readable (svc : Service) (row : Version) : Prop := ∃ record, versionRecord svc row = .ok record

/-- A document is that of a version, which was read. -/
theorem document_ok {identity : Option String} (h : document svc s row identity = .ok response) :
    ∃ found ∈ s.versions, (identity.or row.draft).or row.published = some found.id ∧ found.template = row.id ∧ Readable svc found := by
  obtain ⟨found, hfound, h⟩ := Steps.bind_ok h
  obtain ⟨record, hrecord, -⟩ := Steps.bind_ok h
  obtain ⟨hmem, hid, htemplate⟩ := version_ok hfound
  exact ⟨found, hmem, hid, htemplate, record, hrecord⟩

/-- With distinct identities, a document is that of the version it names. -/
theorem readable_of_document {identity : Option String} {named : Version} (hids : (s.versions.map Version.id).Nodup)
    (h : document svc s row identity = .ok response) (hmem : named ∈ s.versions)
    (hnamed : (identity.or row.draft).or row.published = some named.id) : Readable svc named := by
  obtain ⟨found, hfound, hid, -, hread⟩ := document_ok h
  rwa [Keyed.unique hids hmem hfound (Option.some.inj (hnamed.symm.trans hid))]


/-- A template that was written keeps what names it, and has the next version. -/
structure Writes (row row' : Template) : Prop where
  id_eq : row'.id = row.id
  owner_eq : row'.owner = row.owner
  key_eq : row'.key = row.key
  version_eq : row'.version = row.version + 1

/-- A version that was written keeps what names it. -/
structure Rewrites (version version' : Version) : Prop where
  id_eq : version'.id = version.id
  template_eq : version'.template = version.template
  version_eq : version'.version = version.version

/-- A published version was found valid, and is stored with what it was resolved to. -/
def Admitted (svc : Service) (version : Version) : Prop :=
  ∃ rows raw result, evaluate svc.lax svc.tools rows raw version.layout = .ok (some result) ∧ result.report.valid = true ∧
    version.spec = canonicalPayload svc.lax result.spec ∧ version.contentHash = contentHash svc.lax svc.tools.sha256 result.spec ∧
    version.snapshot = some result.snapshot ∧ version.snapshotHash = some (svc.tools.snapshotHash result.snapshot)

/-- What a command on a template does to the tables. -/
inductive Revision (svc : Service) (s : Store) (row : Template) : Store → Prop
  | draft (spec layout : Json) (hdraft : row.draft = none) (hread : Readable svc (newVersion svc s row spec layout)) :
      Revision svc s row ((addVersion svc s row spec layout).1.setTemplate (touch (addVersion svc s row spec layout).2))
  | save {version version' : Version} {row' : Template} (hmem : version ∈ s.versions) (hdraft : row.draft = some version.id)
      (htemplate : version.template = row.id) (hrewrites : Rewrites version version') (hpublished : version'.published = false)
      (hread : Readable svc version') (hwrites : Writes row row') (hdraft' : row'.draft = row.draft)
      (hpublished' : row'.published = row.published) : Revision svc s row ((s.setVersion version').setTemplate row')
  | publish {version version' : Version} {row' : Template} (hmem : version ∈ s.versions) (hdraft : row.draft = some version.id)
      (htemplate : version.template = row.id) (hrewrites : Rewrites version version') (hpublished : version'.published = true)
      (hread : Readable svc version') (hadmitted : Admitted svc version') (hwrites : Writes row row') (hdraft' : row'.draft = none)
      (hpublished' : row'.published = some version.id) : Revision svc s row ((s.setVersion version').setTemplate row')
  | archive {row' : Template} (hwrites : Writes row row') (hdraft : row'.draft = row.draft) (hpublished : row'.published = row.published) :
      Revision svc s row (s.setTemplate row')

/-- The tables with a template more, and its first version. -/
def created (svc : Service) (s : Store) (row : Template) (spec : Json) : Store :=
  let added := addVersion svc { s with issued := s.issued + 1 } row spec (.obj [])
  { added.1 with templates := s.templates ++ [added.2] }

/-- What a fresh command does to the tables. -/
inductive Change (svc : Service) (s : Store) (call : Call) : Store → Prop
  | create {row : Template} (spec : Json) (haction : call.action = .create) (hfree : ∀ other ∈ s.templates, other.key ≠ row.key)
      (hid : row.id = svc.uuid7 s.issued) (hversion : row.version = 1) (hpublished : row.published = none)
      (hread : Readable svc (newVersion svc { s with issued := s.issued + 1 } row spec (.obj []))) :
      Change svc s call (created svc s row spec)
  | validate (haction : call.action = .validate) : Change svc s call s
  | revise {row : Template} {t : Store} (haction : call.action ≠ .create ∧ call.action ≠ .validate) (hmem : row ∈ s.templates)
      (hid : row.id = call.identity) (hexpected : (row.version : Int) = call.expectedVersion) (hrevision : Revision svc s row t) :
      Change svc s call t

section Commands

theorem create_ok (hids : (s.versions.map Version.id).Nodup) (hfresh : ∀ version ∈ s.versions, version.id ≠ svc.uuid7 (s.issued + 1))
    (haction : call.action = .create) (h : create svc s call = .ok (response, t)) : Change svc s call t := by
  obtain ⟨_, hfree, h⟩ := Steps.bind_ok h
  obtain ⟨read, -, h⟩ := Steps.bind_ok h
  obtain ⟨spec, -, h⟩ := Steps.bind_ok h
  obtain ⟨_, hdocument, h⟩ := Steps.bind_ok h
  cases h
  have hkeys : ∀ other ∈ s.templates, other.key ≠ call.key := by simpa using List.all_eq_true.mp (require_ok hfree)
  refine .create spec haction hkeys rfl rfl rfl ?_
  exact readable_of_document (Keyed.nodup_append hids hfresh) hdocument (List.mem_append_right _ (.head _)) rfl

theorem newDraft_ok (hids : (s.versions.map Version.id).Nodup) (hfresh : ∀ version ∈ s.versions, version.id ≠ svc.uuid7 s.issued)
    (h : newDraft svc s call row = .ok (response, t)) : (row.version : Int) = call.expectedVersion ∧ Revision svc s row t := by
  obtain ⟨_, hexpected, h⟩ := Steps.bind_ok h
  obtain ⟨_, hdraft, h⟩ := Steps.bind_ok h
  obtain ⟨source, -, h⟩ := Steps.bind_ok h
  obtain ⟨old, -, h⟩ := Steps.bind_ok h
  obtain ⟨_, hdocument, h⟩ := Steps.bind_ok h
  cases h
  refine ⟨expected_ok hexpected, .draft _ _ (Option.isNone_iff_eq_none.mp (require_ok hdraft)) ?_⟩
  exact readable_of_document (Keyed.nodup_append hids hfresh) hdocument (List.mem_append_right _ (.head _)) rfl

@[simp] theorem templates_setVersion (version : Version) : (s.setVersion version).templates = s.templates := rfl

@[simp] theorem versions_setTemplate (row : Template) : (s.setTemplate row).versions = s.versions := rfl

theorem mem_setVersion {version version' : Version} (hmem : version ∈ s.versions) (hid : version'.id = version.id) :
    version' ∈ (s.setVersion version').versions :=
  Keyed.mem_replace.mpr (.inr ⟨version, hmem, hid.symm, rfl⟩)

theorem map_id_setVersion (version : Version) : (s.setVersion version).versions.map Version.id = s.versions.map Version.id :=
  Keyed.map_key_replace fun _ _ => rfl

theorem save_ok (hids : (s.versions.map Version.id).Nodup) (h : save svc s call row = .ok (response, t)) :
    (row.version : Int) = call.expectedVersion ∧ Revision svc s row t := by
  obtain ⟨_, hexpected, h⟩ := Steps.bind_ok h
  obtain ⟨_, -, h⟩ := Steps.bind_ok h
  obtain ⟨version, hversion, h⟩ := Steps.bind_ok h
  obtain ⟨_, hpublished, h⟩ := Steps.bind_ok h
  obtain ⟨spec, -, h⟩ := Steps.bind_ok h
  obtain ⟨_, hdocument, h⟩ := Steps.bind_ok h
  cases h
  obtain ⟨hmem, hdraft, htemplate⟩ := version_ok hversion
  refine ⟨expected_ok hexpected, .save hmem hdraft htemplate ⟨rfl, rfl, rfl⟩ (Bool.not_eq_true' _ ▸ require_ok hpublished) ?_
    ⟨rfl, rfl, rfl, rfl⟩ rfl rfl⟩
  refine readable_of_document ((map_id_setVersion _).symm ▸ hids) hdocument (mem_setVersion hmem rfl) ?_
  show (none.or row.draft).or row.published = some version.id
  rw [hdraft]
  rfl

theorem publish_ok (hids : (s.versions.map Version.id).Nodup) (h : publish svc rows s call row = .ok (response, t)) :
    (row.version : Int) = call.expectedVersion ∧ Revision svc s row t := by
  obtain ⟨_, hexpected, h⟩ := Steps.bind_ok h
  obtain ⟨version, hversion, h⟩ := Steps.bind_ok h
  obtain ⟨_, -, h⟩ := Steps.bind_ok h
  obtain ⟨found, hfound, h⟩ := Steps.bind_ok h
  obtain ⟨result, hresult, h⟩ := Steps.bind_ok h
  obtain ⟨_, -, h⟩ := Steps.bind_ok h
  obtain ⟨_, hdocument, h⟩ := Steps.bind_ok h
  cases h
  obtain ⟨hmem, hdraft, htemplate⟩ := version_ok hversion
  obtain ⟨rfl, hvalid⟩ := Option.filter_eq_some_iff.mp (some?_ok hresult)
  have hevaluate : evaluate svc.lax svc.tools rows version.spec version.layout = .ok (some result) := by
    unfold evaluation at hfound
    cases heq : evaluate svc.lax svc.tools rows version.spec version.layout with
    | error problem =>
      rw [heq] at hfound
      cases hfound
    | ok found =>
      rw [heq] at hfound
      cases hfound
      rfl
  refine ⟨expected_ok hexpected, .publish hmem hdraft htemplate ⟨rfl, rfl, rfl⟩ rfl ?_ ⟨rows, _, result, hevaluate, hvalid, rfl, rfl, rfl, rfl⟩
    ⟨rfl, rfl, rfl, rfl⟩ rfl rfl⟩
  exact readable_of_document ((map_id_setVersion _).symm ▸ hids) hdocument (mem_setVersion hmem rfl) rfl

theorem archive_ok (h : archive s call row = .ok (response, t)) :
    (row.version : Int) = call.expectedVersion ∧ Revision svc s row t := by
  obtain ⟨_, hexpected, h⟩ := Steps.bind_ok h
  cases h
  exact ⟨expected_ok hexpected, .archive ⟨rfl, rfl, rfl, rfl⟩ rfl rfl⟩

theorem validate_ok (h : validate svc rows s call row = .ok (response, t)) : t = s := by
  obtain ⟨_, -, h⟩ := Steps.bind_ok h
  obtain ⟨_, -, h⟩ := Steps.bind_ok h
  cases h
  rfl

end Commands

/-- An accepted command: one that was answered already, or a fresh one. -/
inductive Accepted (svc : Service) (s : Store) (call : Call) (response : Response) : Store → Prop
  | again (h : ⟨scope call, svc.tools.sha256 call.body, response⟩ ∈ s.idempotency) : Accepted svc s call response s
  | fresh {t : Store} (hfresh : ∀ record ∈ s.idempotency, record.key ≠ scope call) (hchange : Change svc s call t) :
      Accepted svc s call response { t with
        idempotency := t.idempotency ++ [⟨scope call, svc.tools.sha256 call.body, response⟩] }

theorem idempotent_ok {run : Except Raised (Response × Store)} (hrun : ∀ {t}, run = .ok (response, t) → Change svc s call t)
    (h : idempotent svc s call run = .ok (response, t)) : Accepted svc s call response t := by
  cases Once.serve_ok h with
  | again hmem => exact .again hmem
  | fresh hfresh hdone => exact .fresh hfresh (hrun hdone)

/-- Identities in use are distinct, and those still to be drawn are not among them. -/
def Store.Allotted (svc : Service) (s : Store) : Prop :=
  Keyed.Allotted svc.uuid7 (s.templates.map Template.id ++ s.versions.map Version.id) s.issued

theorem Store.Allotted.versions (h : s.Allotted svc) : (s.versions.map Version.id).Nodup :=
  h.nodup.sublist (List.sublist_append_right _ _)

theorem Store.Allotted.templates (h : s.Allotted svc) : (s.templates.map Template.id).Nodup :=
  h.nodup.sublist (List.sublist_append_left _ _)

theorem Store.Allotted.unused (h : s.Allotted svc) {n : Nat} (hn : s.issued ≤ n) : ∀ version ∈ s.versions, version.id ≠ svc.uuid7 n :=
  fun _ hmem heq => Keyed.Allotted.unused h hn (heq ▸ List.mem_append_right _ (List.mem_map_of_mem hmem))

theorem handle_ok (hids : s.Allotted svc) (h : handle svc rows s call = .ok (response, t)) : Accepted svc s call response t := by
  obtain ⟨_, -, h⟩ := Steps.bind_ok h
  by_cases haction : call.action = .create
  · rw [if_pos haction] at h
    exact idempotent_ok (create_ok hids.versions (hids.unused (Nat.le_succ _)) haction) h
  · rw [if_neg haction] at h
    obtain ⟨row, hrow, h⟩ := Steps.bind_ok h
    obtain ⟨hmem, hid, -⟩ := template_ok hrow
    refine idempotent_ok (fun {t} hrun => ?_) h
    have hrevise : call.action ≠ .validate → (row.version : Int) = call.expectedVersion ∧ Revision svc s row t → Change svc s call t :=
      fun hvalidate h => .revise ⟨haction, hvalidate⟩ hmem hid h.1 h.2
    unfold perform at hrun
    cases hact : call.action with
    | create => exact absurd hact haction
    | newDraft =>
      rw [hact] at hrun
      exact hrevise (by rw [hact]; decide) (newDraft_ok hids.versions (hids.unused (Nat.le_refl _)) hrun)
    | save =>
      rw [hact] at hrun
      exact hrevise (by rw [hact]; decide) (save_ok hids.versions hrun)
    | validate =>
      rw [hact] at hrun
      cases validate_ok hrun
      exact .validate hact
    | publish =>
      rw [hact] at hrun
      exact hrevise (by rw [hact]; decide) (publish_ok hids.versions hrun)
    | archive =>
      rw [hact] at hrun
      exact hrevise (by rw [hact]; decide) (archive_ok hrun)

/-! ## The history of a template -/

/-- The versions of a template, oldest first. -/
def Store.versionsOf (s : Store) (template : String) : List Version := s.versions.filter fun version => version.template = template

/-- The publications of a template, oldest first. -/
def Store.releases (s : Store) (template : String) : List Version := (s.versionsOf template).filter Version.published

/-- The versions of a template: its publications, and its draft if it has one. -/
structure History (svc : Service) (row : Template) (released versions : List Version) : Prop where
  published : ∀ version ∈ released, version.published = true ∧ Admitted svc version
  latest : row.published = released.getLast?.map Version.id
  draft : row.draft = none ∧ versions = released ∨
    ∃ draft : Version, draft.published = false ∧ row.draft = some draft.id ∧ versions = released ++ [draft]
  numbers : versions.map Version.version = List.range' 1 versions.length
  readable : ∀ version ∈ versions, Readable svc version

variable {released versions : List Version} {version version' : Version} {row' : Template} {template : String}

theorem mem_versionsOf : version ∈ s.versionsOf template ↔ version ∈ s.versions ∧ version.template = template := by
  simp [Store.versionsOf]

theorem releases_congr (h : t.versionsOf template = s.versionsOf template) : t.releases template = s.releases template :=
  congrArg (List.filter Version.published) h

namespace History

theorem released_eq (h : History svc row released versions) : versions.filter Version.published = released := by
  have hall : released.filter Version.published = released := List.filter_eq_self.mpr fun version hmem => (h.published version hmem).1
  obtain ⟨-, rfl⟩ | ⟨draft, hdraft, -, rfl⟩ := h.draft
  · exact hall
  · rw [List.filter_append, hall, List.filter_cons_of_neg (by simp [hdraft]), List.filter_nil, List.append_nil]

theorem released_of_none (h : History svc row released versions) (hdraft : row.draft = none) : versions = released := by
  obtain ⟨-, hversions⟩ | ⟨_, -, hsome, -⟩ := h.draft
  · exact hversions
  · rw [hdraft] at hsome
    cases hsome

/-- The draft is the version the template names. -/
theorem draft_last (h : History svc row released versions) (hids : (versions.map Version.id).Nodup) (hmem : version ∈ versions)
    (hdraft : row.draft = some version.id) : versions = released ++ [version] := by
  obtain ⟨hnone, -⟩ | ⟨draft, -, hsome, rfl⟩ := h.draft
  · rw [hdraft] at hnone
    cases hnone
  · rw [Keyed.unique hids hmem (List.mem_append_right _ (.head _)) (Option.some.inj (hdraft.symm.trans hsome))]

theorem add (h : History svc row released released) (hpublished : row'.published = row.published) (hdraft : row'.draft = some version.id)
    (hversion : version.published = false) (hnumber : version.version = released.length + 1) (hread : Readable svc version) :
    History svc row' released (released ++ [version]) where
  published := h.published
  latest := hpublished.trans h.latest
  draft := .inr ⟨version, hversion, hdraft, rfl⟩
  numbers := by
    rw [List.map_append, h.numbers, List.length_append, List.map_singleton, List.length_singleton, List.range'_concat, hnumber, Nat.one_mul,
      Nat.add_comm 1]
  readable := fun other hother => (List.mem_append.mp hother).elim (h.readable other) fun heq => List.mem_singleton.mp heq ▸ hread

/-- What the last version's number and identity are stays when it is written. -/
theorem numbers_rewrite (h : History svc row released (released ++ [version])) (hrewrites : Rewrites version version') :
    (released ++ [version']).map Version.version = List.range' 1 (released ++ [version']).length := by
  have := h.numbers
  rw [List.map_append, List.map_singleton, List.length_append] at this ⊢
  rw [hrewrites.version_eq]
  exact this

theorem readable_rewrite (h : History svc row released (released ++ [version])) (hread : Readable svc version') :
    ∀ other ∈ released ++ [version'], Readable svc other := fun other hother =>
  (List.mem_append.mp hother).elim (fun hmem => h.readable other (List.mem_append_left _ hmem)) fun heq => List.mem_singleton.mp heq ▸ hread

theorem save (h : History svc row released (released ++ [version])) (hrewrites : Rewrites version version')
    (hpublished : version'.published = false) (hread : Readable svc version') (hdraft : row'.draft = some version.id)
    (hlatest : row'.published = row.published) : History svc row' released (released ++ [version']) where
  published := h.published
  latest := hlatest.trans h.latest
  draft := .inr ⟨version', hpublished, hdraft.trans (congrArg some hrewrites.id_eq.symm), rfl⟩
  numbers := h.numbers_rewrite hrewrites
  readable := h.readable_rewrite hread

theorem publish (h : History svc row released (released ++ [version])) (hrewrites : Rewrites version version')
    (hpublished : version'.published = true) (hread : Readable svc version') (hadmitted : Admitted svc version')
    (hdraft : row'.draft = none) (hlatest : row'.published = some version.id) :
    History svc row' (released ++ [version']) (released ++ [version']) where
  published := fun other hother => (List.mem_append.mp hother).elim (h.published other) fun heq =>
    List.mem_singleton.mp heq ▸ ⟨hpublished, hadmitted⟩
  latest := by rw [hlatest, List.getLast?_append, List.getLast?_singleton, Option.some_or, Option.map_some, hrewrites.id_eq]
  draft := .inl ⟨hdraft, rfl⟩
  numbers := h.numbers_rewrite hrewrites
  readable := h.readable_rewrite hread

theorem archive (h : History svc row released versions) (hdraft : row'.draft = row.draft) (hpublished : row'.published = row.published) :
    History svc row' released versions where
  published := h.published
  latest := hpublished.trans h.latest
  draft := hdraft ▸ h.draft
  numbers := h.numbers
  readable := h.readable

end History

/-- The greatest of the numbers from one on. -/
theorem foldl_max_range' (n : Nat) : (List.range' 1 n).foldl max 0 = n := by
  induction n with
  | zero => rfl
  | succ n ih =>
    rw [List.range'_concat, List.foldl_append, ih]
    show max n (1 + 1 * n) = n + 1
    omega

theorem History.latest_eq {s : Store} {template : String} (h : History svc row released (s.versionsOf template)) :
    s.latest template = (s.versionsOf template).length := by
  show ((s.versionsOf template).map Version.version).foldl max 0 = _
  rw [h.numbers, foldl_max_range']

/-- What holds of the tables: names are distinct, every version is of a template, and every template has a history. -/
structure WellFormed (svc : Service) (s : Store) : Prop where
  ids : s.Allotted svc
  keys : (s.templates.map Template.key).Nodup
  owned : ∀ version ∈ s.versions, ∃ row ∈ s.templates, row.id = version.template
  history : ∀ row ∈ s.templates, ∃ released, History svc row released (s.versionsOf row.id)
  scopes : (s.idempotency.map Once.Entry.key).Nodup

/-- What a command on a template leaves of the tables. -/
structure Revised (svc : Service) (s : Store) (row row' : Template) (t : Store) : Prop where
  templates : t.templates = Keyed.replace Template.id row.id (fun _ => row') s.templates
  writes : Writes row row'
  ids : t.Allotted svc
  others : ∀ template, template ≠ row.id → t.versionsOf template = s.versionsOf template
  history : ∃ released, History svc row' released (t.versionsOf row.id)
  releases : s.releases row.id <+: t.releases row.id
  idempotency : t.idempotency = s.idempotency

section Tables

theorem versionsOf_append (hids : version.template ≠ template) (versions : List Version) :
    ((versions ++ [version]).filter fun version => version.template = template) = versions.filter fun version => version.template = template := by
  rw [List.filter_append, List.filter_cons_of_neg (by simpa using hids), List.filter_nil, List.append_nil]

theorem versionsOf_append_self (versions : List Version) (version : Version) :
    ((versions ++ [version]).filter fun other => other.template = version.template) =
      (versions.filter fun other => other.template = version.template) ++ [version] := by
  rw [List.filter_append, List.filter_cons_of_pos (by simp), List.filter_nil]

/-- The versions of a template after one of them was written. -/
theorem versionsOf_setVersion (hids : (s.versions.map Version.id).Nodup) (hmem : version ∈ s.versions) (hrewrites : Rewrites version version')
    (template : String) :
    (s.setVersion version').versionsOf template = Keyed.replace Version.id version.id (fun _ => version') (s.versionsOf template) := by
  rw [Store.versionsOf, Store.setVersion, hrewrites.id_eq]
  refine Keyed.filter_replace fun other hother hid => ?_
  rw [Keyed.unique hids hother hmem hid, hrewrites.template_eq]

theorem versionsOf_setVersion_of_ne (hids : (s.versions.map Version.id).Nodup) (hmem : version ∈ s.versions)
    (hrewrites : Rewrites version version') (hne : version.template ≠ template) :
    (s.setVersion version').versionsOf template = s.versionsOf template := by
  rw [versionsOf_setVersion hids hmem hrewrites]
  refine Keyed.replace_of_forall_ne fun other hother hid => hne ?_
  obtain ⟨hmem', htemplate⟩ := mem_versionsOf.mp hother
  rw [← Keyed.unique hids hmem' hmem hid, htemplate]

/-- The versions of a template whose last one was written. -/
theorem versionsOf_setVersion_last (hids : (s.versions.map Version.id).Nodup) (hmem : version ∈ s.versions)
    (hrewrites : Rewrites version version') (hlast : s.versionsOf template = released ++ [version]) :
    (s.setVersion version').versionsOf template = released ++ [version'] := by
  rw [versionsOf_setVersion hids hmem hrewrites, hlast]
  exact Keyed.replace_concat (hlast ▸ Keyed.nodup_filter hids _)

theorem allotted_congr (h : s.Allotted svc) (htemplates : t.templates.map Template.id = s.templates.map Template.id)
    (hversions : t.versions.map Version.id = s.versions.map Version.id) (hissued : t.issued = s.issued) : t.Allotted svc := by
  rw [Store.Allotted, htemplates, hversions, hissued]
  exact h

theorem map_id_setTemplate (row : Template) : (s.setTemplate row).templates.map Template.id = s.templates.map Template.id :=
  Keyed.map_key_replace fun _ _ => rfl

/-- An identity that is drawn. -/
theorem allotted_draw {keys : List String} {issued : Nat} (h : Keyed.Allotted svc.uuid7 keys issued) :
    Keyed.Allotted svc.uuid7 (keys ++ [svc.uuid7 issued]) (issued + 1) :=
  h.add (h.unused (Nat.le_refl _)) (Nat.le_succ _) fun m hm => by
    rw [svc.uuid7_injective hm]
    exact Nat.lt_succ_self _

end Tables

/-- What a command on a template does, said once. -/
theorem Revision.revised (hs : WellFormed svc s) (hrow : row ∈ s.templates) (h : Revision svc s row t) : ∃ row', Revised svc s row row' t := by
  obtain ⟨released, history⟩ := hs.history row hrow
  have hids := hs.ids.versions
  have hlast : ∀ {version}, version ∈ s.versions → row.draft = some version.id → version.template = row.id →
      s.versionsOf row.id = released ++ [version] := fun hmem hdraft htemplate =>
    history.draft_last (Keyed.nodup_filter hids _) (mem_versionsOf.mpr ⟨hmem, htemplate⟩) hdraft
  cases h with
  | draft spec layout hdraft hread =>
    have hversions := history.released_of_none hdraft
    have hnew : ((addVersion svc s row spec layout).1.setTemplate (touch (addVersion svc s row spec layout).2)).versionsOf row.id =
        released ++ [newVersion svc s row spec layout] := hversions ▸ versionsOf_append_self s.versions (newVersion svc s row spec layout)
    have hreleased : History svc row released released := hversions ▸ history
    have hhistory : History svc (touch (addVersion svc s row spec layout).2) released (released ++ [newVersion svc s row spec layout]) := by
      refine hreleased.add rfl rfl rfl ?_ hread
      show s.latest row.id + 1 = released.length + 1
      rw [history.latest_eq, hversions]
    refine ⟨_, rfl, ⟨rfl, rfl, rfl, rfl⟩, ?_, fun template hne => versionsOf_append (Ne.symm hne) _, ⟨released, hnew ▸ hhistory⟩, ?_, rfl⟩
    · show Keyed.Allotted _ _ _
      rw [map_id_setTemplate, versions_setTemplate, addVersion, List.map_append, ← List.append_assoc]
      exact allotted_draw hs.ids
    · have hsame : Store.releases _ row.id = s.releases row.id :=
        (congrArg (List.filter Version.published) hnew).trans (hhistory.released_eq.trans history.released_eq.symm)
      exact hsame ▸ List.prefix_rfl
  | save hmem hdraft htemplate hrewrites hpublished hread hwrites hdraft' hpublished' =>
    have hversions := hlast hmem hdraft htemplate
    have hnew := versionsOf_setVersion_last hids hmem hrewrites hversions
    have hhistory := (hversions ▸ history).save hrewrites hpublished hread (hdraft'.trans hdraft) hpublished'
    refine ⟨_, hwrites.id_eq ▸ rfl, hwrites, allotted_congr hs.ids (map_id_setTemplate _) (map_id_setVersion _) rfl,
      fun template hne => versionsOf_setVersion_of_ne hids hmem hrewrites (htemplate ▸ Ne.symm hne), ⟨released, hnew ▸ hhistory⟩, ?_, rfl⟩
    rw [Store.releases, Store.releases, history.released_eq]
    exact (congrArg _ hnew).trans hhistory.released_eq ▸ List.prefix_rfl
  | publish hmem hdraft htemplate hrewrites hpublished hread hadmitted hwrites hdraft' hpublished' =>
    have hversions := hlast hmem hdraft htemplate
    have hnew := versionsOf_setVersion_last hids hmem hrewrites hversions
    have hhistory := (hversions ▸ history).publish hrewrites hpublished hread hadmitted hdraft' hpublished'
    refine ⟨_, hwrites.id_eq ▸ rfl, hwrites, allotted_congr hs.ids (map_id_setTemplate _) (map_id_setVersion _) rfl,
      fun template hne => versionsOf_setVersion_of_ne hids hmem hrewrites (htemplate ▸ Ne.symm hne), ⟨_, hnew ▸ hhistory⟩, ?_, rfl⟩
    rw [Store.releases, Store.releases, history.released_eq]
    exact (congrArg _ hnew).trans hhistory.released_eq ▸ List.prefix_append _ _
  | archive hwrites hdraft hpublished =>
    refine ⟨_, hwrites.id_eq ▸ rfl, hwrites, allotted_congr hs.ids (map_id_setTemplate _) rfl rfl, fun _ _ => rfl,
      ⟨released, history.archive hdraft hpublished⟩, List.prefix_rfl, rfl⟩

/-! ## Runs -/

/-- Nothing that a store holds is lost in another one. -/
structure Persists (s t : Store) : Prop where
  releases : ∀ template, s.releases template <+: t.releases template
  templates : ∀ row ∈ s.templates, ∃ row' ∈ t.templates, row'.id = row.id ∧ row'.owner = row.owner ∧ row'.key = row.key ∧
    row.version ≤ row'.version
  idempotency : s.idempotency <+: t.idempotency

theorem Persists.refl (s : Store) : Persists s s :=
  ⟨fun _ => List.prefix_rfl, fun row hrow => ⟨row, hrow, rfl, rfl, rfl, Nat.le_refl _⟩, List.prefix_rfl⟩

theorem Persists.trans {u : Store} (h : Persists s t) (h' : Persists t u) : Persists s u where
  releases template := (h.releases template).trans (h'.releases template)
  templates row hrow := by
    obtain ⟨row', hrow', hid, howner, hkey, hle⟩ := h.templates row hrow
    obtain ⟨row'', hrow'', hid', howner', hkey', hle'⟩ := h'.templates row' hrow'
    exact ⟨row'', hrow'', hid'.trans hid, howner'.trans howner, hkey'.trans hkey, hle.trans hle'⟩
  idempotency := h.idempotency.trans h'.idempotency

theorem Revised.mem_templates (hs : WellFormed svc s) (hrow : row ∈ s.templates) (h : Revised svc s row row' t) {other : Template} :
    other ∈ t.templates ↔ (other ∈ s.templates ∧ other.id ≠ row.id) ∨ other = row' := by
  rw [h.templates]
  exact Keyed.mem_replace_of_mem hs.ids.templates hrow

theorem Revised.wellFormed (hs : WellFormed svc s) (hrow : row ∈ s.templates) (h : Revised svc s row row' t) : WellFormed svc t where
  ids := h.ids
  keys := by
    rw [h.templates, Keyed.replace, List.map_map]
    refine (List.map_congr_left fun other hother => ?_) ▸ hs.keys
    show other.key = (if other.id = row.id then row' else other).key
    split
    · rename_i hid
      rw [Keyed.unique hs.ids.templates hother hrow hid, h.writes.key_eq]
    · rfl
  owned version hversion := by
    by_cases htemplate : version.template = row.id
    · exact ⟨row', (h.mem_templates hs hrow).mpr (.inr rfl), h.writes.id_eq.trans htemplate.symm⟩
    · have hold : version ∈ s.versionsOf version.template := h.others _ htemplate ▸ mem_versionsOf.mpr ⟨hversion, rfl⟩
      obtain ⟨other, hother, hid⟩ := hs.owned version (mem_versionsOf.mp hold).1
      exact ⟨other, (h.mem_templates hs hrow).mpr (.inl ⟨hother, fun heq => htemplate (hid.symm.trans heq)⟩), hid⟩
  history other hother := by
    obtain ⟨hmem, hne⟩ | rfl := (h.mem_templates hs hrow).mp hother
    · rw [h.others other.id hne]
      exact hs.history other hmem
    · rw [h.writes.id_eq]
      exact h.history
  scopes := h.idempotency ▸ hs.scopes

theorem Revised.persists (hs : WellFormed svc s) (hrow : row ∈ s.templates) (h : Revised svc s row row' t) : Persists s t where
  releases template := by
    by_cases htemplate : template = row.id
    · exact htemplate ▸ h.releases
    · exact releases_congr (h.others template htemplate) ▸ List.prefix_rfl
  templates other hother := by
    by_cases hid : other.id = row.id
    · cases Keyed.unique hs.ids.templates hother hrow hid
      refine ⟨row', (h.mem_templates hs hrow).mpr (.inr rfl), h.writes.id_eq, h.writes.owner_eq, h.writes.key_eq, ?_⟩
      rw [h.writes.version_eq]
      exact Nat.le_succ _
    · exact ⟨other, (h.mem_templates hs hrow).mpr (.inl ⟨hother, hid⟩), rfl, rfl, rfl, Nat.le_refl _⟩
  idempotency := h.idempotency ▸ List.prefix_rfl

section Created

variable {spec : Json}

theorem WellFormed.id_ne (hs : WellFormed svc s) (hid : row.id = svc.uuid7 s.issued) : ∀ other ∈ s.templates, other.id ≠ row.id :=
  fun _ hmem heq => Keyed.Allotted.unused hs.ids (Nat.le_refl _) (hid ▸ heq ▸ List.mem_append_left _ (List.mem_map_of_mem hmem))

theorem WellFormed.versionsOf_new (hs : WellFormed svc s) (hid : row.id = svc.uuid7 s.issued) : s.versionsOf row.id = [] := by
  refine List.filter_eq_nil_iff.mpr fun version hversion htemplate => ?_
  obtain ⟨other, hother, heq⟩ := hs.owned version hversion
  exact hs.id_ne hid other hother (heq.trans (of_decide_eq_true htemplate))

theorem created_versionsOf_self (hs : WellFormed svc s) (hid : row.id = svc.uuid7 s.issued) :
    (created svc s row spec).versionsOf row.id = [newVersion svc { s with issued := s.issued + 1 } row spec (.obj [])] :=
  (versionsOf_append_self s.versions (newVersion svc { s with issued := s.issued + 1 } row spec (.obj []))).trans
    (congrArg (· ++ [_]) (hs.versionsOf_new hid))

theorem created_versionsOf (hne : template ≠ row.id) : (created svc s row spec).versionsOf template = s.versionsOf template :=
  versionsOf_append (Ne.symm hne) s.versions

theorem created_wellFormed (hs : WellFormed svc s) (hid : row.id = svc.uuid7 s.issued) (hfree : ∀ other ∈ s.templates, other.key ≠ row.key)
    (hpublished : row.published = none) (hread : Readable svc (newVersion svc { s with issued := s.issued + 1 } row spec (.obj []))) :
    WellFormed svc (created svc s row spec) where
  ids := by
    refine Keyed.Allotted.perm (allotted_draw (allotted_draw hs.ids)) ?_
    show List.Perm (_ ++ _ ++ [_] ++ [_]) ((s.templates ++ [_]).map Template.id ++ (s.versions ++ [_]).map Version.id)
    rw [List.map_append, List.map_append, List.map_singleton, List.map_singleton, ← List.append_assoc]
    refine List.Perm.append_right _ ?_
    rw [List.append_assoc, List.append_assoc]
    exact List.Perm.append_left _ (hid ▸ List.perm_append_comm)
  keys := Keyed.nodup_append hs.keys hfree
  owned version hversion := by
    obtain hmem | hmem := List.mem_append.mp hversion
    · obtain ⟨other, hother, heq⟩ := hs.owned version hmem
      exact ⟨other, List.mem_append_left _ hother, heq⟩
    · rw [List.mem_singleton.mp hmem]
      exact ⟨_, List.mem_append_right _ (.head _), rfl⟩
  history other hother := by
    obtain hmem | hmem := List.mem_append.mp hother
    · obtain ⟨released, history⟩ := hs.history other hmem
      exact ⟨released, (created_versionsOf (hs.id_ne hid other hmem)).symm ▸ history⟩
    · rw [List.mem_singleton.mp hmem]
      refine ⟨[], (created_versionsOf_self hs hid).symm ▸ ⟨by simp, hpublished, .inr ⟨_, rfl, rfl, rfl⟩, ?_, by simpa using hread⟩⟩
      have hnone : s.latest row.id = 0 := congrArg (fun versions => (versions.map Version.version).foldl max 0) (hs.versionsOf_new hid)
      exact congrArg (fun n => [n + 1]) hnone
  scopes := hs.scopes

theorem created_persists (hs : WellFormed svc s) (hid : row.id = svc.uuid7 s.issued) : Persists s (created svc s row spec) where
  releases template := by
    by_cases htemplate : template = row.id
    · rw [htemplate, Store.releases, hs.versionsOf_new hid]
      exact List.nil_prefix
    · exact releases_congr (created_versionsOf htemplate) ▸ List.prefix_rfl
  templates other hother := ⟨other, List.mem_append_left _ hother, rfl, rfl, rfl, Nat.le_refl _⟩
  idempotency := List.prefix_rfl

end Created

/-- An accepted command keeps the tables well formed and loses nothing. -/
theorem accepted_spec (hs : WellFormed svc s) (h : Accepted svc s call response t) : WellFormed svc t ∧ Persists s t := by
  have hrecorded : ∀ {t}, (∀ record ∈ s.idempotency, record.key ≠ scope call) → WellFormed svc t ∧ Persists s t →
      t.idempotency = s.idempotency →
      WellFormed svc { t with idempotency := t.idempotency ++ [⟨scope call, svc.tools.sha256 call.body, response⟩] } ∧
        Persists s { t with idempotency := t.idempotency ++ [⟨scope call, svc.tools.sha256 call.body, response⟩] } := by
    intro t hfresh h hidem
    refine ⟨⟨h.1.ids, h.1.keys, h.1.owned, h.1.history, ?_⟩, ⟨h.2.releases, h.2.templates, ?_⟩⟩
    · exact Keyed.nodup_append h.1.scopes (hidem ▸ hfresh)
    · exact h.2.idempotency.trans (List.prefix_append _ _)
  cases h with
  | again => exact ⟨hs, .refl s⟩
  | fresh hfresh hchange =>
    cases hchange with
    | create spec haction hfree hid hversion hpublished hread =>
      exact hrecorded hfresh ⟨created_wellFormed hs hid hfree hpublished hread, created_persists hs hid⟩ rfl
    | validate => exact hrecorded hfresh ⟨hs, .refl s⟩ rfl
    | revise haction hmem hid hexpected hrevision =>
      obtain ⟨row', hrevised⟩ := hrevision.revised hs hmem
      exact hrecorded hfresh ⟨hrevised.wellFormed hs hmem, hrevised.persists hs hmem⟩ hrevised.idempotency

theorem wellFormed_empty : WellFormed svc .empty where
  ids := ⟨List.nodup_nil, fun _ hn => absurd hn (List.not_mem_nil)⟩
  keys := List.nodup_nil
  owned _ h := absurd h (List.not_mem_nil)
  history _ h := absurd h (List.not_mem_nil)
  scopes := List.nodup_nil

theorem step_ok {move : Move} (h : step svc s move = some t) : ∃ response, handle svc move.rows s move.call = .ok (response, t) := by
  obtain ⟨done, hdone, rfl⟩ := Option.map_eq_some_iff.mp h
  exact ⟨done.1, Steps.toOption_ok hdone⟩

theorem step_spec {move : Move} (hs : WellFormed svc s) (h : step svc s move = some t) : WellFormed svc t ∧ Persists s t := by
  obtain ⟨response, h⟩ := step_ok h
  exact accepted_spec hs (handle_ok hs.ids h)

theorem reach_wellFormed (h : Steps.Reach (step svc) .empty s) : WellFormed svc s :=
  h.invariant _ wellFormed_empty fun _ _ _ hs _ h => (step_spec hs h).1

theorem reach_persists (hs : WellFormed svc s) (h : Steps.Reach (step svc) s t) : WellFormed svc t ∧ Persists s t :=
  h.invariant (fun t => WellFormed svc t ∧ Persists s t) ⟨hs, .refl s⟩ fun _ _ _ hs _ h =>
    ⟨(step_spec hs.1 h).1, hs.2.trans (step_spec hs.1 h).2⟩

/-- Names drawn in order, each one letter longer. -/
def sampleService : Service where
  lax := strictLax
  tools := sampleTools
  uuid7 n := String.ofList (List.replicate (n + 1) 'i')
  uuid7_injective := fun m n h => by simpa using congrArg List.length (String.ofList_injective h)

def sampleCreate : Move where
  rows := []
  call := {
    actor := "owner", identity := "", action := .create
    body := .obj [("key", .str "sample"), ("name", .str "Sample"), ("idempotency_key", .str "create-01")] }

def samplePublish : Move where
  rows := []
  call := {
    actor := "owner", identity := "i", action := .publish
    body := .obj [("expected_version", .int 1), ("idempotency_key", .str "publish-01")] }

/-- A store with a template, which was created. -/
theorem exists_created : ∃ s, step sampleService .empty sampleCreate = some s ∧ ∃ row ∈ s.templates, row.id = "i" := by
  have h : ((step sampleService .empty sampleCreate).map fun s => s.templates.map Template.id) = some ["i"] := rfl
  obtain ⟨s, hs, hids⟩ := Option.map_eq_some_iff.mp h
  exact ⟨s, hs, List.mem_map.mp (hids ▸ .head _)⟩

/-- In every state reached, keys and identities are distinct, and a template's versions are its history. -/
theorem history_of_reach (svc : Service) (h : Steps.Reach (step svc) .empty s) :
    (s.templates.map Template.key).Nodup ∧ (s.versions.map Version.id).Nodup ∧
      ∀ row ∈ s.templates, History svc row (s.releases row.id) (s.versionsOf row.id) := by
  have hs := reach_wellFormed h
  refine ⟨hs.keys, hs.ids.versions, fun row hrow => ?_⟩
  obtain ⟨released, history⟩ := hs.history row hrow
  rw [Store.releases, history.released_eq]
  exact history

theorem history_of_reach_sample : ∃ s : Store, ∃ row ∈ s.templates, History sampleService row (s.releases row.id) (s.versionsOf row.id) := by
  obtain ⟨s, hs, row, hrow, -⟩ := exists_created
  exact ⟨s, row, hrow, (history_of_reach sampleService (.step sampleCreate .init trivial hs)).2.2 row hrow⟩

/-- What is published stays as it was published, with what is published later after it. -/
theorem releases_prefix (svc : Service) {s t : Store} (hs : Steps.Reach (step svc) .empty s) (ht : Steps.Reach (step svc) s t)
    (template : String) : s.releases template <+: t.releases template :=
  (reach_persists (reach_wellFormed hs) ht).2.releases template

theorem releases_prefix_sample : ∃ s t : Store, (s.releases "i").length = 0 ∧ (t.releases "i").length = 1 ∧ s.releases "i" <+: t.releases "i" := by
  have h : ((Steps.run (step sampleService) .empty [sampleCreate, samplePublish]).map fun t => (t.releases "i").length) = some 1 := by
    decide +kernel
  have h' : ((step sampleService .empty sampleCreate).map fun s => (s.releases "i").length) = some 0 := rfl
  obtain ⟨t, ht, hone⟩ := Option.map_eq_some_iff.mp h
  obtain ⟨s, hs, hzero⟩ := Option.map_eq_some_iff.mp h'
  obtain ⟨_, hs', ht'⟩ := Option.bind_eq_some_iff.mp ht
  cases hs.symm.trans hs'
  exact ⟨s, t, hzero, hone, releases_prefix sampleService (.step sampleCreate .init trivial hs) (Steps.run_reach [samplePublish] ht') "i"⟩

/-! ## Commands sent again -/

/-- An accepted command passed the checks, and its template is there. -/
theorem handle_known (h : handle svc rows s call = .ok (response, t)) : checked svc call = .ok () ∧
    (call.action ≠ .create → ∃ row ∈ s.templates, row.id = call.identity ∧ row.owner = call.actor) := by
  obtain ⟨_, hchecked, h⟩ := Steps.bind_ok h
  refine ⟨hchecked, fun haction => ?_⟩
  rw [if_neg haction] at h
  obtain ⟨row, hrow, -⟩ := Steps.bind_ok h
  exact ⟨row, template_ok hrow⟩

/-- An accepted command is on record. -/
theorem accepted_recorded (h : Accepted svc s call response t) : ⟨scope call, svc.tools.sha256 call.body, response⟩ ∈ t.idempotency := by
  cases h with
  | again h => exact h
  | fresh => exact List.mem_append_right _ (.head _)

/-- What a command whose key is on record is answered. -/
theorem handle_recorded {record : Once.Entry Scope String Response} (hs : WellFormed svc s) (hrecord : record ∈ s.idempotency)
    (hscope : record.key = scope call) (hchecked : checked svc call = .ok ())
    (hknown : call.action ≠ .create → ∃ row ∈ s.templates, row.id = call.identity ∧ row.owner = call.actor)
    (rows : List Resolution.RegistryRow) :
    handle svc rows s call = if record.digest = svc.tools.sha256 call.body then .ok (record.response, s) else .error idempotencyConflict := by
  have hidempotent : ∀ run, idempotent svc s call run = if record.digest = svc.tools.sha256 call.body then .ok (record.response, s)
      else .error idempotencyConflict := fun run => Once.serve_recorded hs.scopes hrecord hscope
  rw [handle, hchecked]
  by_cases haction : call.action = .create
  · exact (if_pos haction).trans (hidempotent _)
  · obtain ⟨row, hrow, hid, howner⟩ := hknown haction
    have hsome : (s.templates.find? fun row => row.id = call.identity ∧ row.owner = call.actor).isSome :=
      List.find?_isSome.mpr ⟨row, hrow, decide_eq_true ⟨hid, howner⟩⟩
    obtain ⟨found, hfound⟩ := Option.isSome_iff_exists.mp hsome
    have htemplate : template s call = .ok found := by rw [template, hfound]; rfl
    refine (if_neg haction).trans ?_
    rw [htemplate]
    exact hidempotent _

/-- A command that was accepted is answered the same later, whatever was done in between, and does nothing;
    another body under its key is refused. -/
theorem handle_again (svc : Service) {s t u : Store} {call : Call} {rows : List Resolution.RegistryRow} {response : Response}
    (hs : Steps.Reach (step svc) .empty s) (h : handle svc rows s call = .ok (response, t)) (hu : Steps.Reach (step svc) t u)
    (rows' : List Resolution.RegistryRow) :
    handle svc rows' u call = .ok (response, u) ∧
      ∀ other : Call, scope other = scope call → checked svc other = .ok () →
        svc.tools.sha256 other.body ≠ svc.tools.sha256 call.body →
        handle svc rows' u other = .error idempotencyConflict := by
  have hsw := reach_wellFormed hs
  have haccepted := handle_ok hsw.ids h
  obtain ⟨htw, hst⟩ := accepted_spec hsw haccepted
  obtain ⟨huw, htu⟩ := reach_persists htw hu
  have hrecord := htu.idempotency.subset (accepted_recorded haccepted)
  obtain ⟨hchecked, hknown⟩ := handle_known h
  have hstill : ∀ other : Call, scope other = scope call → other.action ≠ .create →
      ∃ row ∈ u.templates, row.id = other.identity ∧ row.owner = other.actor := by
    intro other hscope haction
    have hsame : other.action = call.action := congrArg Scope.action hscope
    have hactor : other.actor = call.actor := congrArg Scope.actor hscope
    have hidentity := congrArg Scope.identity hscope
    simp only [scope, if_neg haction, if_neg (hsame ▸ haction), Option.some.injEq] at hidentity
    obtain ⟨row, hrow, hid, howner⟩ := hknown (hsame ▸ haction)
    obtain ⟨row', hrow', hid', howner', -⟩ := (hst.trans htu).templates row hrow
    exact ⟨row', hrow', (hid'.trans hid).trans hidentity.symm, (howner'.trans howner).trans hactor.symm⟩
  constructor
  · rw [handle_recorded huw hrecord rfl hchecked (hstill call rfl), if_pos rfl]
  · intro other hscope hother hdigest
    rw [handle_recorded huw hrecord hscope.symm hother (hstill other hscope), if_neg (Ne.symm hdigest)]

theorem handle_again_sample : ∃ response s, handle sampleService [] .empty sampleCreate.call = .ok (response, s) ∧
    handle sampleService [] s sampleCreate.call = .ok (response, s) := by
  obtain ⟨s, hs, -⟩ := exists_created
  obtain ⟨response, h⟩ := step_ok hs
  exact ⟨response, s, h, (handle_again sampleService .init h .init []).1⟩

/-! ## Writes -/

/-- The store after a command, which leaves it where it is refused. -/
def serve (svc : Service) (s : Store) (move : Move) : Store := (step svc s move).getD s

/-- Whether a command is accepted and writes a template. -/
def wrote (svc : Service) (template : String) (s : Store) (move : Move) : Bool :=
  (step svc s move).isSome && move.call.identity = template && !(move.call.action = .create || move.call.action = .validate) &&
    s.idempotency.all fun record => record.key ≠ scope move.call

/-- The versions expected by the commands that write a template, in order. -/
def written (svc : Service) (template : String) : Store → List Move → List Int
  | _, [] => []
  | s, move :: moves =>
    if wrote svc template s move then move.call.expectedVersion :: written svc template (serve svc s move) moves
    else written svc template (serve svc s move) moves

theorem serve_wellFormed (hs : WellFormed svc s) (move : Move) : WellFormed svc (serve svc s move) := by
  unfold serve
  cases h : step svc s move with
  | none => exact hs
  | some t => exact (step_spec hs h).1

/-- A command that writes a template expects its version, and leaves it with the next one. -/
theorem serve_version (hs : WellFormed svc s) (hrow : row ∈ s.templates) (move : Move) :
    ∃ row' ∈ (serve svc s move).templates, row'.id = row.id ∧
      if wrote svc row.id s move then (row.version : Int) = move.call.expectedVersion ∧ row'.version = row.version + 1
      else row'.version = row.version := by
  have hkept : ∀ {t : Store}, row ∈ t.templates → wrote svc row.id s move = false → ∃ row' ∈ t.templates, row'.id = row.id ∧
      if wrote svc row.id s move then (row.version : Int) = move.call.expectedVersion ∧ row'.version = row.version + 1
      else row'.version = row.version := fun hmem hwrote => ⟨row, hmem, rfl, by rw [if_neg (Bool.eq_false_iff.mp hwrote)]⟩
  unfold serve
  cases hstep : step svc s move with
  | none => exact hkept hrow (by simp [wrote, hstep])
  | some t =>
    obtain ⟨response, hhandle⟩ := step_ok hstep
    show ∃ row' ∈ t.templates, _
    cases handle_ok hs.ids hhandle with
    | again h =>
      refine hkept hrow ?_
      rw [wrote, List.all_eq_false.mpr ⟨_, h, by simp⟩, Bool.and_false]
    | fresh hfresh hchange =>
      cases hchange with
      | create spec haction => exact hkept (List.mem_append_left _ hrow) (by simp [wrote, haction])
      | validate haction => exact hkept hrow (by simp [wrote, haction])
      | @revise written after haction hmem hid hexpected hrevision =>
        obtain ⟨row', hrevised⟩ := hrevision.revised hs hmem
        by_cases hsame : row.id = written.id
        · cases Keyed.unique hs.ids.templates hrow hmem hsame
          have hwrote : wrote svc row.id s move = true := by
            simp only [wrote, hstep, Option.isSome_some, hid, haction.1, haction.2, decide_true, decide_false, Bool.or_false, Bool.not_false,
              Bool.and_true, Bool.true_and, List.all_eq_true]
            exact fun record hrecord => decide_eq_true (hfresh record hrecord)
          refine ⟨row', (hrevised.mem_templates hs hmem).mpr (.inr rfl), hrevised.writes.id_eq, ?_⟩
          rw [if_pos hwrote]
          exact ⟨hexpected, hrevised.writes.version_eq⟩
        · refine hkept ((hrevised.mem_templates hs hmem).mpr (.inl ⟨hrow, hsame⟩)) ?_
          simp [wrote, ← hid, Ne.symm hsame]

theorem written_spec (hs : WellFormed svc s) (hrow : row ∈ s.templates) (moves : List Move) :
    written svc row.id s moves = (List.range' row.version (written svc row.id s moves).length).map Int.ofNat ∧
      ∃ row' ∈ (moves.foldl (serve svc) s).templates, row'.id = row.id ∧
        row'.version = row.version + (written svc row.id s moves).length := by
  induction moves generalizing s row with
  | nil => exact ⟨rfl, row, hrow, rfl, rfl⟩
  | cons move moves ih =>
    obtain ⟨next, hnext, hid, hversion⟩ := serve_version hs hrow move
    obtain ⟨hrest, row', hrow', hid', hversion'⟩ := ih (serve_wellFormed hs move) hnext
    rw [hid] at hrest hid' hversion'
    rw [List.foldl_cons, written]
    split at hversion
    · rename_i hwrote
      rw [if_pos hwrote]
      rw [hversion.2] at hrest hversion'
      refine ⟨?_, row', hrow', hid', ?_⟩
      · rw [List.length_cons, List.range'_succ, List.map_cons, ← hrest, ← hversion.1]
        rfl
      · rw [hversion', List.length_cons]
        omega
    · rename_i hwrote
      rw [if_neg hwrote]
      rw [hversion] at hrest hversion'
      exact ⟨hrest, row', hrow', hid', hversion'⟩

/-- The commands that write a template expect its versions one after another, each once, whatever else is sent. -/
theorem writes_consecutive (svc : Service) {s : Store} {row : Template} (hs : Steps.Reach (step svc) .empty s) (hrow : row ∈ s.templates)
    (moves : List Move) :
    written svc row.id s moves = (List.range' row.version (written svc row.id s moves).length).map Int.ofNat ∧
      ∃ row' ∈ (moves.foldl (serve svc) s).templates, row'.id = row.id ∧
        row'.version = row.version + (written svc row.id s moves).length :=
  written_spec (reach_wellFormed hs) hrow moves

theorem writes_consecutive_sample : ∃ s : Store, ∃ row ∈ s.templates, ∃ row' ∈ ([samplePublish, samplePublish].foldl (serve sampleService) s).templates,
    row'.version = row.version + (written sampleService row.id s [samplePublish, samplePublish]).length := by
  obtain ⟨s, hs, row, hrow, -⟩ := exists_created
  obtain ⟨-, row', hrow', -, hversion⟩ :=
    writes_consecutive sampleService (.step sampleCreate .init trivial hs) hrow [samplePublish, samplePublish]
  exact ⟨s, row, hrow, row', hrow', hversion⟩

end Jarvis.Workflows.Templates
