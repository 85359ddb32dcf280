import DirectoryStore.Identifier
import DirectoryStore.Query.Substring

/-!
# Filters

A filter is a tree of conditions on a directory entry.  Its leaves look at one
attribute of the entry or at its place in the directory, and its branches are
conjunction, disjunction and negation.

Each child of a conjunction carries an estimate of how many entries match it.
An estimate never changes what a filter means; it decides which child a search
starts from.
-/

namespace DirectoryStore.Query

/-! ## Scopes -/

inductive ScopeDepth where
  | base
  | oneLevel
  | subtree
  deriving DecidableEq, Repr

def ScopeDepth.text : ScopeDepth → String
  | base => "Base"
  | oneLevel => "OneLevel"
  | subtree => "Subtree"

structure Scope where
  base : EntryId
  depth : ScopeDepth
  deriving DecidableEq, Repr

/-! ## Conditions -/

/-- A match by a named rule, which is known but never carried out. -/
structure ExtensibleMatch where
  name : Option String
  rule : Option String
  value : String
  withDn : Bool
  deriving DecidableEq, Repr

/-- A condition with an estimate of how many entries match it, when one is known. -/
structure Estimated (α : Type) where
  condition : α
  count : Option Nat
  deriving Repr, BEq

inductive Filter where
  | presence (name : String)
  | equality (name value : String)
  /-- Approximately equal, which is taken as equal. -/
  | approximate (name value : String)
  | greaterOrEqual (name value : String)
  | lessOrEqual (name value : String)
  | substring (pattern : SubstringPattern)
  | extensible (rule : ExtensibleMatch)
  | within (scope : Scope)
  /-- A condition that stands outside the tree, and has no meaning in it. -/
  | assertion
  | and (children : List (Estimated Filter))
  | or (children : List Filter)
  | not (child : Filter)
  deriving Repr, BEq, Inhabited

namespace Filter

def conjunction (children : List Filter) : Filter :=
  and (children.map (⟨·, none⟩))

def kind : Filter → String
  | presence _ => "presence"
  | equality .. => "equality"
  | approximate .. => "approximate"
  | greaterOrEqual .. => "greaterOrEqual"
  | lessOrEqual .. => "lessOrEqual"
  | substring _ => "substring"
  | extensible _ => "extensible"
  | within _ => "scope"
  | assertion => "assertion"
  | and _ => "and"
  | or _ => "or"
  | not _ => "not"

def isLeaf : Filter → Bool
  | and _ | or _ | not _ => false
  | _ => true

end Filter

/-! ## The written form -/

def ExtensibleMatch.text (rule : ExtensibleMatch) : String :=
  rule.name.getD "" ++ (if rule.withDn then ":dn" else "") ++
    (match rule.rule with
      | some named => ":" ++ named
      | none => "") ++ ":=" ++ rule.value

def Scope.text (scope : Scope) : String :=
  "#scope " ++ scope.depth.text ++ " " ++ scope.base.text

namespace Filter

mutual

def text : Filter → String
  | presence name => "(" ++ name ++ "=*)"
  | equality name value => "(" ++ name ++ "=" ++ value ++ ")"
  | approximate name value => "(" ++ name ++ "~=" ++ value ++ ")"
  | greaterOrEqual name value => "(" ++ name ++ ">=" ++ value ++ ")"
  | lessOrEqual name value => "(" ++ name ++ "<=" ++ value ++ ")"
  | substring pattern => "(" ++ pattern.name ++ "=" ++ pattern.text ++ ")"
  | extensible rule => "(" ++ rule.text ++ ")"
  | within scope => "(" ++ scope.text ++ ")"
  | assertion => "(#assertion)"
  | and children => "(&" ++ textConjuncts children ++ ")"
  | or children => "(|" ++ textAll children ++ ")"
  | not child => "(!" ++ child.text ++ ")"

def textConjuncts : List (Estimated Filter) → String
  | [] => ""
  | ⟨child, _⟩ :: rest => child.text ++ textConjuncts rest

def textAll : List Filter → String
  | [] => ""
  | child :: rest => child.text ++ textAll rest

end

end Filter

end DirectoryStore.Query
