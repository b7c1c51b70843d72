import BuildScheduling.BuildCause

/-!
# Timer debounce

Remembers what the last timer run of each pipeline was built from: a revision identifier for each checkout.
Two lists of material revisions are the same run when they give the same such map, whatever their order,
their flags and the details of their revisions.
-/

namespace BuildScheduling

/-- The revision of each checkout; a later entry of the list replaces an earlier one. -/
def revisionSet (revisions : List MaterialRevision) : FingerprintMap String :=
  .ofList (revisions.map fun r => (r.material.checkoutFingerprint, r.id))

abbrev TimerDebounce := NameMap (FingerprintMap String)

namespace TimerDebounce

def record (d : TimerDebounce) (pipeline : PipelineName) (cause : BuildCause) : TimerDebounce :=
  d.insert pipeline (revisionSet cause.materialRevisions)

def forget (d : TimerDebounce) (pipeline : PipelineName) : TimerDebounce := d.erase pipeline

/-- Whether the last timer run was built from just these revisions. -/
def hasRunWith (d : TimerDebounce) (pipeline : PipelineName) (revisions : List MaterialRevision) : Bool :=
  d.get? pipeline == some (revisionSet revisions)

theorem get?_record (d : TimerDebounce) (a b : PipelineName) (cause : BuildCause) :
    (d.record a cause).get? b =
      if b.same a then some (revisionSet cause.materialRevisions) else d.get? b :=
  Name.get?_insert d a b _

theorem get?_forget (d : TimerDebounce) (a b : PipelineName) :
    (d.forget a).get? b = if a.same b then none else d.get? b := Name.get?_erase d a b

theorem hasRunWith_iff {d : TimerDebounce} {pipeline : PipelineName} {revisions : List MaterialRevision} :
    d.hasRunWith pipeline revisions = true ↔ d.get? pipeline = some (revisionSet revisions) := by
  rw [hasRunWith, beq_iff_eq]

end TimerDebounce

end BuildScheduling
