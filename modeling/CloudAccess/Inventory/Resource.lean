import CloudAccess.Policy.Document
import CloudAccess.Text.Case

/-!
# Resources

Something that policies protect, with the policy attached to it.
-/

namespace CloudAccess

inductive ResourceKind where
  | s3 | kms | sqs | sns | secrets | function | gateway | registry | events | other
deriving DecidableEq

namespace ResourceKind

def name : ResourceKind → String
  | s3 => "s3"
  | kms => "kms"
  | sqs => "sqs"
  | sns => "sns"
  | secrets => "secretsmanager"
  | function => "lambda"
  | gateway => "apigateway"
  | registry => "ecr"
  | events => "eventbridge"
  | other => "other"

def all : List ResourceKind :=
  [s3, kms, sqs, sns, secrets, function, gateway, registry, events, other]

/-- Reads a kind in any case; what is not known is another one. -/
def ofJson (v : Json) : ResourceKind :=
  let text := Text.lower v.shown
  (all.find? (·.name = text)).getD other

end ResourceKind

structure Resource where
  arn : Json
  kind : ResourceKind
  name : Json
  region : Json
  account : Json
  policy : Option Document

namespace Resource

def ofJson (record : Json) : Except Fault Resource := do
  let arn ← Json.required "ARN" record
  let ms ← record.membersOf
  let policy ← Document.ofJson? (Json.member "ResourcePolicy" ms)
  return {
    arn, policy
    kind := ResourceKind.ofJson ((Json.member? "Type" ms).getD "other")
    name := (Json.member "Name" ms).orIfBlank ""
    region := (Json.member "Region" ms).orIfBlank ""
    account := (Json.member "AccountID" ms).orIfBlank "" }

def toJson (r : Resource) : Json :=
  .obj [
    ("ARN", r.arn),
    ("Type", .str r.kind.name),
    ("Name", r.name),
    ("Region", r.region),
    ("AccountID", r.account),
    ("ResourcePolicy", Document.toJson? r.policy)]

/-- What a resource is called: its name, or its identifier when it has none. -/
def title (r : Resource) : String := (r.name.orIfBlank r.arn).shown

end Resource
end CloudAccess
