import BuildScheduling.Format.Coded
import BuildScheduling.Pipeline

/-!
# The format of configurations

A material is one flat record: what it points at, under a `type`, beside its own fields. All but its own
fields, and all of an origin but its kind, have their types settled before they are read.
-/

namespace BuildScheduling

instance {kind : NameKind} : Coded (Name kind) where
  encode n := .text n.text
  decode v := (decode v : Option String).map Name.mk

instance : Coded Fingerprint where
  encode f := .text f.text
  decode v := (decode v : Option String).map Fingerprint.mk

instance : Worded ScmType where
  all := [.git, .hg, .svn, .p4, .tfs]
  word
    | .git => "git"
    | .hg => "hg"
    | .svn => "svn"
    | .p4 => "p4"
    | .tfs => "tfs"

instance : Worded LockBehavior where
  all := [.none, .lockOnFailure, .unlockWhenFinished]
  word
    | .none => "none"
    | .lockOnFailure => "lock_on_failure"
    | .unlockWhenFinished => "unlock_when_finished"

/-! ## Materials -/

inductive MaterialSource.Kind where
  | scm
  | dependency

instance : Worded MaterialSource.Kind where
  all := [.scm, .dependency]
  word
    | .scm => "scm"
    | .dependency => "dependency"

def MaterialSource.fields : MaterialSource → Fields
  | scm type url branch =>
    [("type", encode Kind.scm), ("scm", encode type), ("url", encode url), ("branch", encode branch)]
  | dependency pipeline stage =>
    [("type", encode Kind.dependency), ("pipeline", encode pipeline), ("stage", encode stage)]

/-- The kind may be its number in place of its word. -/
def MaterialSource.ofFields? (fields : Fields) : Option MaterialSource := do
  match (← fields.find? "type" none Worded.ofKey? : Kind) with
  | .scm => return scm (← fields.required "scm") (← fields.required "url") (← fields.optional "branch")
  | .dependency => return dependency (← fields.required "pipeline") (← fields.required "stage")

/-- The fields of a material that do not say what it points at. -/
def Material.ownFields : List String := ["auto_update", "destination", "name"]

instance : Coded Material where
  encode m := .record (m.source.fields ++
    [("auto_update", encode m.autoUpdate), ("destination", encode m.destination), ("name", encode m.name)])
  decode v := do
    let fields ← v.fields?
    let others := fields.filter fun f => !Material.ownFields.contains f.1
    return {
      source := ← MaterialSource.ofFields? (← Fields.settle? others)
      autoUpdate := ← fields.withDefault "auto_update" true
      destination := ← fields.optional "destination"
      name := ← fields.optional "name" }

/-! ## Pipelines -/

instance : Coded Stage where
  encode s := .record [("name", encode s.name)]
  decode v := do
    let fields ← v.fieldsOf? ["name"]
    return ⟨← fields.required "name"⟩

instance : Coded ConfigOrigin where
  encode
    | .local => .record [("type", .text "local")]
    | .remote material revision =>
      .record [("type", .text "remote"), ("material", encode material), ("revision", encode revision)]
  decode v := do
    let (kind, rest) ← v.tagged? "type"
    match kind, rest with
    | "local", .mapping _ => return .local
    | "local", .list [] => return .local
    | "remote", _ =>
      let fields ← rest.fieldsOf? ["material", "revision"]
      return .remote (← fields.required "material") (← fields.required "revision")
    | _, _ => none

instance : Coded Timer where
  encode t := .record [("spec", encode t.spec), ("only_on_changes", encode t.onlyOnChanges)]
  decode v := do
    let fields ← v.fieldsOf? ["spec", "only_on_changes"]
    return { spec := ← fields.required "spec"
             onlyOnChanges := ← fields.withDefault "only_on_changes" false }

instance : Coded Pipeline where
  encode p := .record
    [("name", encode p.name), ("materials", encode p.materials), ("stages", encode p.stages),
      ("origin", encode p.origin), ("lock_behavior", encode p.lockBehavior), ("timer", encode p.timer)]
  decode v := do
    let fields ← v.fieldsOf? ["name", "materials", "stages", "origin", "lock_behavior", "timer"]
    return {
      name := ← fields.required "name"
      materials := ← fields.required "materials"
      stages := ← fields.required "stages"
      origin := ← fields.withDefault "origin" .local
      lockBehavior := ← fields.withDefault "lock_behavior" .none
      timer := ← fields.optional "timer" }

instance : Coded ConfigRepo where
  encode r := .record [("id", encode r.id), ("material", encode r.material)]
  decode v := do
    let fields ← v.fieldsOf? ["id", "material"]
    return { id := ← fields.required "id", material := ← fields.required "material" }

instance : Coded Configuration where
  encode c := .record [("pipelines", encode c.pipelines), ("config_repos", encode c.configRepos)]
  decode v := do
    let fields ← v.fieldsOf? ["pipelines", "config_repos"]
    return { pipelines := ← fields.withDefault "pipelines" []
             configRepos := ← fields.withDefault "config_repos" [] }

end BuildScheduling
