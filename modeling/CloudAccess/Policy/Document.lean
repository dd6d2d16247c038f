import CloudAccess.Arn
import CloudAccess.Fault
import CloudAccess.Text.Percent

/-!
# Policy documents

A document is a list of statements.  A statement has an effect, action patterns, resource
patterns, the principals it names and a condition.

* `Statement.ofJson` and `Document.ofJson` read records; a document may also be JSON text,
  percent-encoded or not.
* `Statement.toJson` and `Document.toJson` write records that read back as the same value.
* `Statement.grantees` lists the identifiers that the principal field names.
-/

namespace CloudAccess

structure Statement where
  effect : String
  actions : List String
  resources : List String
  /-- The principal field as given; null when there is none. -/
  principal : Json
  /-- A condition block with at least one operator, or null. -/
  condition : Json
  /-- A label; empty when there is none. -/
  sid : String

namespace Statement

/-- An effect other than the two known ones neither allows nor denies here. -/
def isAllow (s : Statement) : Bool := s.effect = "Allow"

def isDeny (s : Statement) : Bool := s.effect = "Deny"

/-- A condition that is not an object with members counts as none. -/
def conditionOf : Json → Json
  | .obj (m :: ms) => .obj (m :: ms)
  | _ => .null

/-- Reads a statement. -/
def ofJson : Json → Except Fault Statement
  | .obj ms =>
    .ok {
      effect := ((Json.member? "Effect" ms).getD "Allow").shown
      actions := (Json.member "Action" ms).texts
      resources := (Json.member "Resource" ms).texts
      principal := Json.member "Principal" ms
      condition := conditionOf (Json.member "Condition" ms)
      sid := ((Json.member "Sid" ms).orIfBlank "").shown }
  | v => .error (.statementShape v.kind)

def isNull : Json → Bool
  | .null => true
  | _ => false

/-- Writes a statement; an empty label, no principal and no condition are left out. -/
def toJson (s : Statement) : Json :=
  .obj <|
    (if s.sid.isEmpty then [] else [("Sid", .str s.sid)]) ++
    [("Effect", .str s.effect)] ++
    (if isNull s.principal then [] else [("Principal", s.principal)]) ++
    [("Action", .arr (s.actions.map .str)), ("Resource", .arr (s.resources.map .str))] ++
    (if s.condition.isBlank then [] else [("Condition", s.condition)])

/-- The identifiers that a principal field names: one text, a list of them, or an object whose
members are such; a bare account number stands for the account's root. -/
def granteesOf (principal : Json) : List String :=
  let named : List String := match principal with
    | .obj ms => ms.flatMap fun (_, v) => v.texts
    | v => v.texts
  named.map Arn.expandAccount

def grantees (s : Statement) : List String := granteesOf s.principal

end Statement

structure Document where
  statements : List Statement
  version : String
  /-- A name; empty when there is none. -/
  id : String

namespace Document

/-- The version of a document that gives none. -/
def defaultVersion : String := "2012-10-17"

/-- The statements of a document record: a list of them, or a single one. -/
def statementRecords (v : Json) : Except Fault (List Json) :=
  if v.isBlank then .ok []
  else match v with
    | .obj ms => .ok [.obj ms]
    | .arr items => .ok items
    | _ => .error .statementList

/-- Reads a document from the members of its record. -/
def ofMembers (ms : Json.Members) : Except Fault Document := do
  let records ← statementRecords (Json.member "Statement" ms)
  let statements ← records.mapM Statement.ofJson
  return {
    statements
    version := ((Json.member "Version" ms).orIfBlank defaultVersion).shown
    id := ((Json.member "Id" ms).orIfBlank "").shown }

/-- Reads a document from JSON text.  Text that is not JSON as it stands is decoded first, and
the error is then that of the decoded text. -/
def ofText (text : String) : Except Fault Document := do
  let value ← match Json.read text with
    | .ok v => .ok v
    | .error (.oversized digits) => .error (.oversizedInteger digits)
    | .error (.malformed ..) =>
      match Json.read (Text.Percent.decode text) with
      | .ok v => .ok v
      | .error (.oversized digits) => .error (.oversizedInteger digits)
      | .error e => .error (.policyText e.message)
  match value with
  | .obj ms => ofMembers ms
  | _ => .error .policyTopLevel

/-- Reads a document from a record or a text. -/
def ofJson : Json → Except Fault Document
  | .str text => ofText text
  | .obj ms => ofMembers ms
  | v => .error (.documentShape v.kind)

/-- Reads a document that may be missing or blank. -/
def ofJson? (v : Json) : Except Fault (Option Document) :=
  if v.isBlank then .ok none else (ofJson v).map some

def toJson (d : Document) : Json :=
  .obj <|
    [("Version", .str d.version)] ++
    (if d.id.isEmpty then [] else [("Id", .str d.id)]) ++
    [("Statement", .arr (d.statements.map Statement.toJson))]

/-- Writes a document that may be missing. -/
def toJson? : Option Document → Json
  | none => .null
  | some d => d.toJson

end Document
end CloudAccess
