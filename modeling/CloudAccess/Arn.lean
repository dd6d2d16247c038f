import CloudAccess.Text.Digit
import CloudAccess.Text.Split

/-!
# Resource names

A resource name is a text of fields between colons; the fifth field of one with at least six
names an account by twelve digits.

* `Arn.account?`: the account a name belongs to.
* `Arn.isAccountRoot`: whether a name ends in `:root`.
* `Arn.differentAccounts`: both names belong to accounts, and not to the same one.
-/

namespace CloudAccess.Arn

/-- Twelve decimal digits, with at most one line feed after them. -/
def isAccountId (cs : List Char) : Bool :=
  let digits := cs.take 12
  digits.length = 12 && digits.all Text.isDecimal && (cs.drop 12 = [] || cs.drop 12 = ['\n'])

/-- The account a resource name belongs to. -/
def account? (arn : String) : Option String :=
  let parts := Text.fields ':' arn.toList
  if parts.length < 6 then none
  else match parts[4]? with
    | some part => if isAccountId part then some (String.ofList part) else none
    | none => none

/-- Whether a name is that of an account's root identity; a slash may follow. -/
def isAccountRoot (arn : String) : Bool :=
  ":root".toList.isSuffixOf arn.toList || ":root/".toList.isSuffixOf arn.toList

/-- Whether two names belong to different accounts; false when one belongs to none. -/
def differentAccounts (source target : String) : Bool :=
  match account? source, account? target with
  | some a, some b => a ≠ b
  | _, _ => false

/-- The root identity of an account. -/
def accountRoot (account : String) : String := "arn:aws:iam::" ++ account ++ ":root"

/-! ## Anyone -/

/-- The identifier that stands for everyone. -/
def anyone : String := "*"

/-- Whether an identifier stands for everyone: the star, or the root of any account. -/
def isAnyone (id : String) : Bool := id = anyone || id = accountRoot "*"

/-- A bare account number stands for the root identity of that account. -/
def expandAccount (id : String) : String :=
  if isAccountId id.toList then accountRoot id else id

end CloudAccess.Arn
