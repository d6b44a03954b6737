import FormLetter.Xml.Reference

/-!
# Names of namespaces

A namespace is named by a reference to a resource. Nothing is ever looked up under it, but it must
have the form of one, absolute or relative.

* **Parts.** A scheme, an authority, a path, a query and a fragment follow one another, each but the
  path optional. Every part is read as far as its characters go, and what is left must begin the
  next one.
* **Characters.** Every part holds plain characters and a few marks of its own. Anything else stands
  as a percent sign and two hexadecimal digits, which leaves only ASCII. A bracketed host alone
  may hold any characters at all.
* **Absolute or relative.** A scheme makes a reference absolute. Without one, the first colon must
  not come before the first slash.
-/

namespace FormLetter

namespace Xml

/-- Letters, digits, and the marks that every part of a reference may hold. -/
def isPlain (c : Char) : Bool := c.isAlphanum || "-._~!$&\x27()*+,;=".toList.contains c

/-- What follows the plain characters, the given marks, and percent signs with two hexadecimal
digits. -/
def skipEncoded (marks : String) : Text → Text
  | [] => []
  | '%' :: high :: low :: rest =>
    if isHexDigit high && isHexDigit low then skipEncoded marks rest
    else '%' :: high :: low :: rest
  | c :: rest =>
    if isPlain c || marks.toList.contains c then skipEncoded marks rest else c :: rest

/-- The greatest number that a service can have. -/
def maxServiceNumber : Nat := 2147483647

/-- What follows a host and the number of a service after it; the number must have digits and stay
in range. -/
def afterService? : Text → Option Text
  | ':' :: rest =>
    let digits := rest.takeWhile Char.isDigit
    if !digits.isEmpty && numeralValue 10 digits ≤ maxServiceNumber then
      some (rest.dropWhile Char.isDigit)
    else none
  | t => some t

/-- What follows a host with the number of its service. -/
def afterHost? : Text → Option Text
  | '[' :: rest => (breakAt? [']'] rest).bind fun (_, rest) => afterService? rest
  | t => afterService? (skipEncoded "" t)

/-- What follows an authority: a host, perhaps with a user before it. -/
def afterAuthority? (t : Text) : Option Text :=
  match skipEncoded ":" t with
  | '@' :: host => afterHost? host
  | _ => afterHost? t

/-- What follows a path that may begin with a slash only. -/
def afterRootedPath (t : Text) : Text :=
  if t.head? = some '/' then skipEncoded ":@/" t else t

/-- Whether a text is a query and a fragment, each after its mark, or nothing. -/
def isQueryAndFragment (t : Text) : Bool :=
  let t := match t with
    | '?' :: query => skipEncoded ":@/?" query
    | t => t
  match t with
  | '#' :: fragment => (skipEncoded ":@/?[]" fragment).isEmpty
  | t => t.isEmpty

/-- Whether a text is a reference with a scheme. -/
def isAbsoluteUri (t : Text) : Bool :=
  let isSchemeChar := fun c : Char => c.isAlphanum || c == '+' || c == '-' || c == '.'
  match t.dropWhile isSchemeChar with
  | ':' :: '/' :: '/' :: rest =>
    (t.head?.any Char.isAlpha) &&
      (afterAuthority? rest).any fun rest => isQueryAndFragment (afterRootedPath rest)
  | ':' :: rest => (t.head?.any Char.isAlpha) && isQueryAndFragment (skipEncoded ":@/" rest)
  | _ => false

/-- Whether a text is a reference without a scheme. -/
def isRelativeUri (t : Text) : Bool :=
  match t with
  | '/' :: '/' :: rest =>
    (afterAuthority? rest).any fun rest => isQueryAndFragment (afterRootedPath rest)
  | t => isQueryAndFragment (afterRootedPath (skipEncoded "@" t))

/-- Whether a text can name a namespace. -/
def isUriReference (t : Text) : Bool := isAbsoluteUri t || isRelativeUri t

end Xml

end FormLetter
