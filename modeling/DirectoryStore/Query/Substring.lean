/-!
# Substring patterns

A pattern asks for a value that starts with one text, ends with another, and
holds a list of fragments in between, in order and without overlap.  Matching
takes each fragment at its first occurrence in what is left and never goes back:
taking a fragment as early as possible leaves the most text for the others.
-/

namespace DirectoryStore.Query

/-- A missing start or end asks for nothing, and so does an empty one. -/
structure SubstringPattern where
  name : String
  initial : Option String
  fragments : List String
  final : Option String
  deriving DecidableEq, Repr

namespace SubstringPattern

/-- What follows the first occurrence of a fragment. -/
def after? (fragment : List Char) : List Char → Option (List Char)
  | [] => fragment.isPrefixOf? []
  | c :: rest =>
      match fragment.isPrefixOf? (c :: rest) with
      | some tail => some tail
      | none => after? fragment rest

/-- What follows the fragments, each taken at its first occurrence. -/
def afterAll? : List (List Char) → List Char → Option (List Char)
  | [], value => some value
  | fragment :: rest, value =>
      match after? fragment value with
      | some tail => afterAll? rest tail
      | none => none

def chars (part : Option String) : List Char := (part.getD "").toList

def matchesChars (pattern : SubstringPattern) (value : List Char) : Bool :=
  match (chars pattern.initial).isPrefixOf? value with
  | none => false
  | some tail =>
      match afterAll? (pattern.fragments.map String.toList) tail with
      | none => false
      | some tail => (chars pattern.final).isSuffixOf tail

def accepts (pattern : SubstringPattern) (value : String) : Bool :=
  pattern.matchesChars value.toList

def text (pattern : SubstringPattern) : String :=
  pattern.initial.getD "" ++ "*" ++
    String.join (pattern.fragments.map (· ++ "*")) ++ pattern.final.getD ""

end SubstringPattern

end DirectoryStore.Query
