import BuildScheduling.Format.Cause
import BuildScheduling.Format.Health
import BuildScheduling.Proofs.Format.JsonText
import BuildScheduling.Proofs.Instant.Rfc3339

/-!
# What is encoded is decoded again

Each type of the format decodes what it encodes, and so does the text in between: the values that encoders make are
plain. Types all of whose members come back are `LawfulCoded`, and what is built of them is so, too. Times come back
when they can be kept (`Instant.Representable`), so what holds times is `Faithful` when they can be.

A record is decoded key by key; `decode_stage` and its like say so for each type. A record under a tag is taken apart
first: the types of its values are settled before they are read, which no value that is encoded minds
(`SettledCoded`).
-/

namespace BuildScheduling

/-- A member is encoded as a plain value, and decoded from it. -/
structure Faithful {α : Type} [Coded α] (a : α) : Prop where
  plain : (encode a).Plain
  decode_encode : decode (encode a) = some a

/-- A type all of whose members come back. -/
class LawfulCoded (α : Type) [Coded α] : Prop where
  faithful (a : α) : Faithful a

/-- A type none of whose members is encoded as a null, which stands for an absent one. -/
class PresentCoded (α : Type) [Coded α] : Prop where
  isNull_encode (a : α) : (encode a).isNull = false

section

variable {α : Type} [Coded α]

/-- A member comes back from the text of its value, too. -/
theorem Faithful.decode_text {a : α} (h : Faithful a) :
    (Json.parse? (String.ofList (Json.text (encode a)))).bind decode = some a := by
  rw [Json.parse?_text_of_plain h.plain, Option.bind_some, h.decode_encode]

@[simp] theorem plain_encode [LawfulCoded α] (a : α) : (encode a).Plain := (LawfulCoded.faithful a).plain

@[simp] theorem decode_encode [LawfulCoded α] (a : α) : decode (encode a) = some a :=
  (LawfulCoded.faithful a).decode_encode

end

/-! ## Single values -/

instance : LawfulCoded String := ⟨fun s => ⟨.text s, rfl⟩⟩

instance : LawfulCoded Bool := ⟨fun b => ⟨.bool b, rfl⟩⟩

theorem below?_int {bound n : Nat} (h : n < bound) : Value.below? bound (.int n) = some n := by
  simp [Value.below?, h]

instance : LawfulCoded UInt64 where
  faithful n := by
    refine ⟨.int n.toNat_lt, ?_⟩
    change ((Value.int n.toNat).below? UInt64.size).map UInt64.ofNat = some n
    rw [below?_int n.toNat_lt, Option.map_some, UInt64.ofNat_toNat]

instance : LawfulCoded UInt32 where
  faithful n := by
    refine ⟨.int (Nat.lt_trans n.toNat_lt (by decide)), ?_⟩
    change ((Value.int n.toNat).below? UInt32.size).map UInt32.ofNat = some n
    rw [below?_int n.toNat_lt, Option.map_some, UInt32.ofNat_toNat]

instance {kind : NameKind} : LawfulCoded (Name kind) := ⟨fun n => ⟨.text n.text, rfl⟩⟩

instance : LawfulCoded Fingerprint := ⟨fun f => ⟨.text f.text, rfl⟩⟩

theorem faithful_instant {t : Instant} (h : t.Representable) : Faithful t where
  plain := .text t.text
  decode_encode := by
    change ((Value.text t.text).text?).bind Instant.parse? = some t
    rw [Value.text?, Option.bind_some, Instant.parse?_text h]

/-- Words that stand for one member each. -/
theorem lawful_of_words {α : Type} [Worded α] (h : ∀ a : α, Worded.ofWord? (Worded.word a) = some a) : LawfulCoded α :=
  ⟨fun a => ⟨.text (Worded.word a), h a⟩⟩

instance : LawfulCoded ScmType := lawful_of_words fun a => by cases a <;> rfl

instance : LawfulCoded LockBehavior := lawful_of_words fun a => by cases a <;> rfl

instance : LawfulCoded StageResult := lawful_of_words fun a => by cases a <;> rfl

instance : LawfulCoded TriggerKind := lawful_of_words fun a => by cases a <;> rfl

instance : LawfulCoded HealthLevel := lawful_of_words fun a => by cases a <;> rfl

instance : LawfulCoded MaterialSource.Kind := lawful_of_words fun a => by cases a <;> rfl

instance : LawfulCoded HealthScope.Kind := lawful_of_words fun a => by cases a <;> rfl

/-! ## Lists and absent values -/

section

variable {α : Type} [Coded α]

theorem faithful_list {as : List α} (h : ∀ a ∈ as, Faithful a) : Faithful as where
  plain := .list (List.forall_mem_map.mpr fun a ha => (h a ha).plain)
  decode_encode := by
    change (as.map encode).mapM decode = some as
    induction as with
    | nil => rfl
    | cons a as ih =>
      have hrest := ih fun b hb => h b (List.mem_cons_of_mem a hb)
      simp [(h a List.mem_cons_self).decode_encode, hrest]

theorem faithful_option [PresentCoded α] {o : Option α} (h : ∀ a ∈ o, Faithful a) : Faithful o := by
  cases o with
  | none => exact ⟨.null, rfl⟩
  | some a =>
    refine ⟨(h a rfl).plain, ?_⟩
    change (if (encode a).isNull then some none else (decode (encode a)).map some) = some (some a)
    rw [PresentCoded.isNull_encode, (h a rfl).decode_encode]
    rfl

instance [LawfulCoded α] : LawfulCoded (List α) := ⟨fun _ => faithful_list fun a _ => LawfulCoded.faithful a⟩

instance [LawfulCoded α] [PresentCoded α] : LawfulCoded (Option α) :=
  ⟨fun _ => faithful_option fun a _ => LawfulCoded.faithful a⟩

end

instance : PresentCoded String := ⟨fun _ => rfl⟩

instance : PresentCoded Instant := ⟨fun _ => rfl⟩

instance : PresentCoded Timer := ⟨fun _ => rfl⟩

/-! ## Records under a tag -/

/-- A type whose members are encoded as values of settled types. -/
class SettledCoded (α : Type) [Coded α] : Prop where
  settle?_encode (a : α) : (encode a).settle? = some (encode a)

export SettledCoded (settle?_encode)

attribute [simp] settle?_encode

instance : SettledCoded String := ⟨fun _ => rfl⟩

instance : SettledCoded UInt64 := ⟨fun _ => rfl⟩

instance : SettledCoded UInt32 := ⟨fun _ => rfl⟩

instance : SettledCoded Instant := ⟨fun _ => rfl⟩

instance {kind : NameKind} : SettledCoded (Name kind) := ⟨fun _ => rfl⟩

instance : SettledCoded Fingerprint := ⟨fun _ => rfl⟩

instance {α : Type} [Worded α] : SettledCoded α := ⟨fun _ => rfl⟩

instance {α : Type} [Coded α] [SettledCoded α] : SettledCoded (Option α) where
  settle?_encode
    | none => rfl
    | some a => settle?_encode a

instance {α : Type} [Coded α] [SettledCoded α] : SettledCoded (List α) where
  settle?_encode as := by
    have hitems : Value.settleItems? (as.map encode) = some (as.map encode) := by
      induction as with
      | nil => rfl
      | cons a as ih => simp [Value.settleItems?, ih]
    change (Value.settleItems? (as.map encode)).map Value.list = some (.list (as.map encode))
    rw [hitems, Option.map_some]

/-- A record as a mapping. -/
def Fields.entries (fields : Fields) : List (Value × Value) := fields.map fun f => (.text f.1, f.2)

theorem entries_cons (f : String × Value) (fields : Fields) :
    Fields.entries (f :: fields) = (.text f.1, f.2) :: fields.entries := rfl

theorem mapM_entries {β : Type} {f : Value × Value → Option β} {g : String × Value → β} {fields : Fields}
    (h : ∀ e ∈ fields, f (.text e.1, e.2) = some (g e)) : fields.entries.mapM f = some (fields.map g) := by
  induction fields with
  | nil => rfl
  | cons e fields ih =>
    have hrest := ih fun d hd => h d (List.mem_cons_of_mem e hd)
    rw [Fields.entries] at hrest ⊢
    simp [h e List.mem_cons_self, hrest]

/-- The kind is all that stands under the tag when no other key is the tag. -/
theorem partition_entries {tag : String} {kind : Value} {fields : Fields} (hkeys : ∀ f ∈ fields, f.1 ≠ tag) :
    (Fields.entries ((tag, kind) :: fields)).partition (fun e => e.1.isKey tag) =
      ([(.text tag, kind)], fields.entries) := by
  have hkind : Value.isKey tag (.text tag) = true := beq_self_eq_true tag
  have hother : ∀ e ∈ fields.entries, e.1.isKey tag = false := by
    intro e he
    obtain ⟨f, hf, rfl⟩ := List.mem_map.mp he
    simp [Value.isKey, hkeys f hf]
  have hnone : fields.entries.filter (fun e => e.1.isKey tag) = [] :=
    List.filter_eq_nil_iff.mpr fun e he => by simp [hother e he]
  have hall : fields.entries.filter (fun e => !e.1.isKey tag) = fields.entries :=
    List.filter_eq_self.mpr fun e he => by simp [hother e he]
  rw [List.partition_eq_filter_filter, entries_cons, List.filter_cons_of_pos (by exact hkind),
    List.filter_cons_of_neg (by simp [hkind]), hnone]
  exact congrArg _ hall

theorem tagged?_record {tag kind : String} {fields : Fields} (hkeys : ∀ f ∈ fields, f.1 ≠ tag)
    (hsettled : ∀ f ∈ fields, f.2.settle? = some f.2) :
    (Value.record ((tag, .text kind) :: fields)).tagged? tag = some (kind, .mapping fields.entries) := by
  have hsettle : (Fields.entries ((tag, .text kind) :: fields)).mapM (fun e => do return (← e.1.settle?, e.2)) =
      some (Fields.entries ((tag, .text kind) :: fields)) :=
    mapM_entries fun _ _ => rfl
  have hrest : fields.entries.mapM (fun e => do return (e.1, ← e.2.settle?)) = some fields.entries :=
    mapM_entries fun f hf => by simp [hsettled f hf]
  change Option.bind (List.mapM (fun e => do return (← e.1.settle?, e.2))
    (Fields.entries ((tag, .text kind) :: fields))) _ = _
  rw [hsettle, Option.bind_some, partition_entries hkeys]
  change Option.bind (List.mapM (fun e => do return (e.1, ← e.2.settle?)) fields.entries) _ = _
  rw [hrest]
  rfl

theorem fieldsOf?_entries (names : List String) (fields : Fields) :
    (Value.mapping fields.entries).fieldsOf? names = some fields := by
  have hnames : fields.entries.mapM (fun e => do return (← e.1.name? names).map fun name => (name, e.2)) =
      some (fields.map some) :=
    mapM_entries fun _ _ => rfl
  change Option.bind (List.mapM (fun e => do return (← e.1.name? names).map fun name => (name, e.2))
    fields.entries) _ = _
  rw [hnames]
  simp

/-! ## Configurations -/

theorem decode_stage (fields : Fields) :
    decode (.record fields) = (do return Stage.mk (← fields.required "name")) :=
  rfl

instance : LawfulCoded Stage where
  faithful s := by
    refine ⟨.record (by simp) (by simp), (decode_stage _).trans ?_⟩
    simp [Fields.required, Fields.find?]

theorem decode_timer (fields : Fields) :
    decode (.record fields) = (do
      return Timer.mk (← fields.required "spec") (← fields.withDefault "only_on_changes" false)) :=
  rfl

instance : LawfulCoded Timer where
  faithful t := by
    refine ⟨.record (by simp) (by simp), (decode_timer _).trans ?_⟩
    simp [Fields.required, Fields.withDefault, Fields.find?]

/-- The types of all that says what a material points at are settled. -/
theorem settle?_fields (source : MaterialSource) : Fields.settle? source.fields = some source.fields := by
  cases source <;> simp [Fields.settle?, MaterialSource.fields]

theorem ofFields?_fields (source : MaterialSource) : MaterialSource.ofFields? source.fields = some source := by
  cases source with
  | scm type url branch =>
    have hkind : Worded.ofKey? (encode MaterialSource.Kind.scm) = some MaterialSource.Kind.scm := rfl
    simp [MaterialSource.ofFields?, MaterialSource.fields, Fields.required, Fields.optional, Fields.withDefault,
      Fields.find?, hkind]
  | dependency pipeline stage =>
    have hkind : Worded.ofKey? (encode MaterialSource.Kind.dependency) = some MaterialSource.Kind.dependency := rfl
    simp [MaterialSource.ofFields?, MaterialSource.fields, Fields.required, Fields.find?, hkind]

theorem decode_material (fields : Fields) :
    decode (.record fields) = (do
      return Material.mk
        (← MaterialSource.ofFields? (← Fields.settle? (fields.filter fun f => !Material.ownFields.contains f.1)))
        (← fields.withDefault "auto_update" true) (← fields.optional "destination") (← fields.optional "name")) :=
  rfl

instance : LawfulCoded Material where
  faithful m := by
    obtain ⟨source, autoUpdate, destination, name⟩ := m
    refine ⟨.record ?_ ?_, (decode_material _).trans ?_⟩
    · cases source <;> simp [MaterialSource.fields]
    · cases source <;> simp [MaterialSource.fields]
    · have hothers : (source.fields ++ [("auto_update", encode autoUpdate), ("destination", encode destination),
          ("name", encode name)]).filter (fun f => !Material.ownFields.contains f.1) = source.fields := by
        cases source <;> simp [MaterialSource.fields, Material.ownFields]
      rw [hothers, settle?_fields]
      simp only [Option.bind_eq_bind, Option.bind_some, ofFields?_fields]
      cases source <;> simp [MaterialSource.fields, Fields.optional, Fields.withDefault, Fields.find?]

theorem decode_local : decode (.record [("type", .text "local")]) = some ConfigOrigin.local := rfl

theorem decode_remote {fields : Fields} (hkeys : ∀ f ∈ fields, f.1 ≠ "type")
    (hsettled : ∀ f ∈ fields, f.2.settle? = some f.2) :
    decode (.record (("type", .text "remote") :: fields)) = (do
      return ConfigOrigin.remote (← fields.required "material") (← fields.required "revision")) := by
  have hfields := fieldsOf?_entries ["material", "revision"] fields
  change Option.bind ((Value.record (("type", .text "remote") :: fields)).tagged? "type") _ = _
  rw [tagged?_record hkeys hsettled, Option.bind_some]
  change Option.bind ((Value.mapping fields.entries).fieldsOf? ["material", "revision"]) _ = _
  rw [hfields]
  rfl

instance : LawfulCoded ConfigOrigin where
  faithful
    | .local => ⟨.record (by simp) (by simp [Value.Plain.text]), decode_local⟩
    | .remote material revision => by
      refine ⟨.record (by simp) (by simp [Value.Plain.text]), (decode_remote (by simp) (by simp)).trans ?_⟩
      simp [Fields.required, Fields.find?]

theorem decode_pipeline (fields : Fields) :
    decode (.record fields) = (do
      return Pipeline.mk (← fields.required "name") (← fields.required "materials") (← fields.required "stages")
        (← fields.withDefault "origin" .local) (← fields.withDefault "lock_behavior" .none)
        (← fields.optional "timer")) :=
  rfl

instance : LawfulCoded Pipeline where
  faithful p := by
    refine ⟨.record (by simp) (by simp), (decode_pipeline _).trans ?_⟩
    simp [Fields.required, Fields.withDefault, Fields.optional, Fields.find?]

theorem decode_configRepo (fields : Fields) :
    decode (.record fields) = (do return ConfigRepo.mk (← fields.required "id") (← fields.required "material")) :=
  rfl

instance : LawfulCoded ConfigRepo where
  faithful r := by
    refine ⟨.record (by simp) (by simp), (decode_configRepo _).trans ?_⟩
    simp [Fields.required, Fields.find?]

theorem decode_configuration (fields : Fields) :
    decode (.record fields) = (do
      return Configuration.mk (← fields.withDefault "pipelines" []) (← fields.withDefault "config_repos" [])) :=
  rfl

instance : LawfulCoded Configuration where
  faithful c := by
    refine ⟨.record (by simp) (by simp), (decode_configuration _).trans ?_⟩
    simp [Fields.withDefault, Fields.find?]

/-! ## Revisions and causes -/

/-- The times in a run: none while it goes on. -/
def StageRun.times (r : StageRun) : List Instant := r.completedAt.toList

def Revision.times (r : Revision) : List Instant :=
  match r.details with
  | .scm modification => [modification.modifiedAt]
  | .dependency run => run.times

def BuildCause.times (c : BuildCause) : List Instant := c.materialRevisions.flatMap fun r => r.revision.times

theorem decode?_modification {v : Value} {fields : Fields}
    (hv : v.fieldsOf? ["revision", "author", "comment", "modified_at", "changed_files"] = some fields) :
    Modification.decode? v = (do
      return Modification.mk (← fields.required "revision") (← fields.optional "author")
        (← fields.optional "comment") (← fields.required "modified_at")
        (← fields.withDefault "changed_files" [])) := by
  rw [Modification.decode?, hv]
  rfl

theorem decode?_stageRun {v : Value} {fields : Fields}
    (hv : v.fieldsOf? ["pipeline", "counter", "label", "stage", "stage_counter", "result", "completed_at"] =
      some fields) :
    StageRun.decode? v = (do
      return StageRun.mk (← fields.required "pipeline") (← fields.required "counter") (← fields.required "label")
        (← fields.required "stage") (← fields.required "stage_counter") (← fields.required "result")
        (← fields.optional "completed_at")) := by
  rw [StageRun.decode?, hv]
  rfl

theorem decode?_modificationFields {m : Modification} {v : Value} (htime : m.modifiedAt.Representable)
    (hv : v.fieldsOf? ["revision", "author", "comment", "modified_at", "changed_files"] = some m.fields) :
    Modification.decode? v = some m := by
  rw [decode?_modification hv]
  simp [Modification.fields, Fields.required, Fields.optional, Fields.withDefault, Fields.find?,
    (faithful_instant htime).decode_encode]

theorem faithful_completedAt {r : StageRun} (htimes : ∀ t ∈ r.times, t.Representable) : Faithful r.completedAt :=
  faithful_option fun t ht => faithful_instant (htimes t (Option.mem_toList.mpr ht))

theorem decode?_stageRunFields {r : StageRun} {v : Value} (htimes : ∀ t ∈ r.times, t.Representable)
    (hv : v.fieldsOf? ["pipeline", "counter", "label", "stage", "stage_counter", "result", "completed_at"] =
      some r.fields) :
    StageRun.decode? v = some r := by
  rw [decode?_stageRun hv]
  simp [StageRun.fields, Fields.required, Fields.optional, Fields.withDefault, Fields.find?,
    (faithful_completedAt htimes).decode_encode]

theorem plain_modificationFields {m : Modification} (htime : m.modifiedAt.Representable) :
    ∀ f ∈ m.fields, f.2.Plain := by
  simp [Modification.fields, (faithful_instant htime).plain]

theorem plain_stageRunFields {r : StageRun} (htimes : ∀ t ∈ r.times, t.Representable) :
    ∀ f ∈ r.fields, f.2.Plain := by
  simp [StageRun.fields, (faithful_completedAt htimes).plain]

theorem faithful_stageRun {r : StageRun} (htimes : ∀ t ∈ r.times, t.Representable) : Faithful r where
  plain := .record (by simp [StageRun.fields]) (plain_stageRunFields htimes)
  decode_encode := decode?_stageRunFields htimes rfl

theorem decode_scm {m : Modification} (htime : m.modifiedAt.Representable) :
    decode (.record (("kind", .text "scm") :: m.fields)) = some (RevisionDetails.scm m) := by
  have hread := decode?_modificationFields htime (fieldsOf?_entries _ m.fields)
  change Option.bind ((Value.record (("kind", .text "scm") :: m.fields)).tagged? "kind") _ = _
  rw [tagged?_record (by simp [Modification.fields]) (by simp [Modification.fields]), Option.bind_some]
  change Option.bind (Modification.decode? (.mapping m.fields.entries)) _ = _
  rw [hread]
  rfl

theorem decode_dependency {r : StageRun} (htimes : ∀ t ∈ r.times, t.Representable) :
    decode (.record (("kind", .text "dependency") :: r.fields)) = some (RevisionDetails.dependency r) := by
  have hread := decode?_stageRunFields htimes (fieldsOf?_entries _ r.fields)
  change Option.bind ((Value.record (("kind", .text "dependency") :: r.fields)).tagged? "kind") _ = _
  rw [tagged?_record (by simp [StageRun.fields]) (by simp [StageRun.fields]), Option.bind_some]
  change Option.bind (StageRun.decode? (.mapping r.fields.entries)) _ = _
  rw [hread]
  rfl

theorem decode_revision (fields : Fields) :
    decode (.record fields) = (do return Revision.mk (← fields.required "identifier") (← fields.required "details")) :=
  rfl

theorem faithful_details {r : Revision} (htimes : ∀ t ∈ r.times, t.Representable) : Faithful r.details := by
  obtain ⟨identifier, details⟩ := r
  cases details with
  | scm m =>
    have htime := htimes m.modifiedAt List.mem_cons_self
    refine ⟨.record (by simp [Modification.fields]) ?_, decode_scm htime⟩
    exact List.forall_mem_cons.mpr ⟨.text "scm", plain_modificationFields htime⟩
  | dependency run =>
    refine ⟨.record (by simp [StageRun.fields]) ?_, decode_dependency htimes⟩
    exact List.forall_mem_cons.mpr ⟨.text "dependency", plain_stageRunFields htimes⟩

theorem faithful_revision {r : Revision} (htimes : ∀ t ∈ r.times, t.Representable) : Faithful r := by
  have hdetails := faithful_details htimes
  refine ⟨.record (by simp) (by simp [hdetails.plain]), (decode_revision _).trans ?_⟩
  simp [Fields.required, Fields.find?, hdetails.decode_encode]

theorem decode_materialRevision (fields : Fields) :
    decode (.record fields) = (do
      return MaterialRevision.mk (← fields.required "material") (← fields.required "revision")
        (← fields.required "changed")) :=
  rfl

theorem faithful_materialRevision {r : MaterialRevision} (htimes : ∀ t ∈ r.revision.times, t.Representable) :
    Faithful r := by
  have hrevision := faithful_revision htimes
  refine ⟨.record (by simp) (by simp [hrevision.plain]), (decode_materialRevision _).trans ?_⟩
  simp [Fields.required, Fields.find?, hrevision.decode_encode]

theorem decode_cause (fields : Fields) :
    decode (.record fields) = (do
      return BuildCause.mk (← fields.required "material_revisions") (← fields.required "trigger")
        (← fields.required "message") (← fields.required "approver")) :=
  rfl

theorem faithful_cause {c : BuildCause} (htimes : ∀ t ∈ c.times, t.Representable) : Faithful c := by
  have hrevisions : Faithful c.materialRevisions := faithful_list fun r hr =>
    faithful_materialRevision fun t ht => htimes t (List.mem_flatMap.mpr ⟨r, hr, ht⟩)
  refine ⟨.record (by simp) (by simp [hrevisions.plain]), (decode_cause _).trans ?_⟩
  simp [Fields.required, Fields.find?, hrevisions.decode_encode]

/-! ## Health -/

theorem decode_scope (fields : Fields) :
    decode (.record fields) = (do
      HealthScope.ofName? (← fields.required "type") (← fields.find? "name" (some .null) some)) :=
  rfl

instance : LawfulCoded HealthScope where
  faithful
    | .configuration => by
      refine ⟨.record (by simp) (by simp), (decode_scope _).trans ?_⟩
      simp [Fields.required, Fields.find?, HealthScope.ofName?, Value.isNull]
    | .pipeline name => by
      refine ⟨.record (by simp) (by simp), (decode_scope _).trans ?_⟩
      simp [Fields.required, Fields.find?, HealthScope.ofName?]

theorem decode_entry (fields : Fields) :
    decode (.record fields) = (do
      return HealthEntry.mk ⟨← fields.required "scope", ← fields.required "level", ← fields.required "message",
        ← fields.optional "detail"⟩ (← fields.required "recorded_at")) :=
  rfl

theorem faithful_entry {e : HealthEntry} (htime : e.recordedAt.Representable) : Faithful e := by
  have hrecorded := faithful_instant htime
  refine ⟨.record (by simp) (by simp [hrecorded.plain]), (decode_entry _).trans ?_⟩
  simp [Fields.required, Fields.optional, Fields.withDefault, Fields.find?, hrecorded.decode_encode]

/-! ## The whole format -/

/-- A member is decoded from its encoding, and from the text of that. -/
def RoundTrips {α : Type} [Coded α] (a : α) : Prop :=
  decode (encode a) = some a ∧ (Json.parse? (String.ofList (Json.text (encode a)))).bind decode = some a

theorem Faithful.roundTrips {α : Type} [Coded α] {a : α} (h : Faithful a) : RoundTrips a :=
  ⟨h.decode_encode, h.decode_text⟩

theorem roundTrips {α : Type} [Coded α] [LawfulCoded α] (a : α) : RoundTrips a := (LawfulCoded.faithful a).roundTrips

/-- Configurations and all in them, revisions, causes and health entries come back as they were: names in their
spelling, absent fields as absent, counters in full and times to the nanosecond. -/
theorem domain_round_trips :
    (∀ c : Configuration, RoundTrips c) ∧
    (∀ p : Pipeline, RoundTrips p) ∧
    (∀ m : Material, RoundTrips m) ∧
    (∀ o : ConfigOrigin, RoundTrips o) ∧
    (∀ r : ConfigRepo, RoundTrips r) ∧
    (∀ r : Revision, (∀ t ∈ r.times, t.Representable) → RoundTrips r) ∧
    (∀ r : StageRun, (∀ t ∈ r.times, t.Representable) → RoundTrips r) ∧
    (∀ r : MaterialRevision, (∀ t ∈ r.revision.times, t.Representable) → RoundTrips r) ∧
    (∀ c : BuildCause, (∀ t ∈ c.times, t.Representable) → RoundTrips c) ∧
    (∀ s : HealthScope, RoundTrips s) ∧
    (∀ e : HealthEntry, e.recordedAt.Representable → RoundTrips e) :=
  ⟨roundTrips, roundTrips, roundTrips, roundTrips, roundTrips,
    fun _ htimes => (faithful_revision htimes).roundTrips,
    fun _ htimes => (faithful_stageRun htimes).roundTrips,
    fun _ htimes => (faithful_materialRevision htimes).roundTrips,
    fun _ htimes => (faithful_cause htimes).roundTrips,
    roundTrips,
    fun _ htime => (faithful_entry htime).roundTrips⟩

/-- A cause with the last counter that there is, a check-in in the last nanosecond of a leap second, a run that goes
on, an empty branch and an absent one. -/
def edgeCause : BuildCause where
  materialRevisions := [
    { material := { source := .scm .git "git://a" (some ""), name := some "A b" }
      revision := .ofModification { revision := "r1", comment := some "", modifiedAt := ⟨1483228799, 1999999999⟩ }
      changed := true },
    { material := { source := .scm .hg "hg://b" none, autoUpdate := false, destination := some "" }
      revision := .ofModification { revision := "r2", modifiedAt := ⟨-1, 1⟩, changedFiles := ["x", "y\x22z"] }
      changed := false },
    { material := .dependency ⟨"Up"⟩ ⟨"Build"⟩
      revision := .ofRun { pipeline := ⟨"uP"⟩, counter := 18446744073709551615, label := "", stage := ⟨"bUILD"⟩
                           stageCounter := 4294967295, result := .passed }
      changed := false }]
  trigger := .manual
  message := "Forced by\nme"
  approver := "me"

theorem edgeCause_round_trips : (∀ t ∈ edgeCause.times, t.Representable) ∧ RoundTrips edgeCause := by
  have htimes : ∀ t ∈ edgeCause.times, t.Representable := by
    intro t ht
    have hmem : t = ⟨1483228799, 1999999999⟩ ∨ t = ⟨-1, 1⟩ := by
      simpa [edgeCause, BuildCause.times, Revision.times, Revision.ofModification, Revision.ofRun, StageRun.times]
        using ht
    rcases hmem with rfl | rfl
    · exact ⟨.inr (by decide), by decide⟩
    · exact ⟨.inl (by decide), by decide⟩
  obtain ⟨-, -, -, -, -, -, -, -, hcause, -, -⟩ := domain_round_trips
  exact ⟨htimes, hcause edgeCause htimes⟩

end BuildScheduling
