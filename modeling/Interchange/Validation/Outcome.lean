import Interchange.Report
/-!
What checking one place of a value comes to, and the report filed for it. A passing place files
nothing; failures inside a value are filed under the place's own path.
-/
namespace Interchange

inductive Outcome where
  | valid
  | skip
  | missing
  | incompatible
  | unknownCase
  | rejected (code : String)
  | nested (report : Report)

-- Where an outcome is filed: a field or an element, with what is stored there.
structure Site where
  path : String
  wireKey : String
  raw : Option Value
  locale : String

namespace Outcome

def isFailure : Outcome → Bool
  | .valid => false
  | .skip => false
  | _ => true

/-- Failures inside a value, or none. -/
def ofReport (report : Report) : Outcome :=
  if report.isEmpty then .valid else .nested report

def report (site : Site) : Outcome → Report
  | .valid => .empty
  | .skip => .empty
  | .missing => .single site.path ⟨.missing, none, site.wireKey, site.raw, site.locale⟩
  | .incompatible => .single site.path ⟨.incompatible, none, site.wireKey, site.raw, site.locale⟩
  | .unknownCase => .single site.path ⟨.unknownCase, none, site.wireKey, site.raw, site.locale⟩
  | .rejected code =>
    .single site.path ⟨.rejected, some code, site.wireKey, site.raw, site.locale⟩
  | .nested inner => Report.absorb site.path inner .empty

end Outcome

end Interchange
