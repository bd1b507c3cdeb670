import AccessChain.Toml.Lexeme

/-! Settings files in TOML 1.0: values, statements, and the rules that say which tables a statement may still
reach. A table has one definition: a header names it at most once, and what is written inline is closed. -/
namespace AccessChain.Toml

namespace Table

/-- Changes the table at the end of a path. Tables missing on the way are created, and a list of tables
stands for its last one if `throughLists` says so. -/
def edit? (throughLists : Bool) (change : Table → Option Table) : Path → Table → Option Table
  | [], table => change table
  | key :: path, table =>
    match table.get? key with
    | none => (edit? throughLists change path []).map fun nest => table.put key (.table nest)
    | some (.table nest) =>
      (edit? throughLists change path nest).map fun nest => table.put key (.table nest)
    | some (.list items) =>
      if throughLists then
        match items.getLast? with
        | some (.table nest) =>
          (edit? throughLists change path nest).map fun nest =>
            table.put key (.list (items.dropLast ++ [.table nest]))
        | _ => none
      else none
    | some _ => none

def add? (key : String) (value : Value) (table : Table) : Option Table :=
  if (table.get? key).isSome then none else some (table.put key value)

def append? (key : String) (table : Table) : Option Table :=
  match table.get? key with
  | none => some (table.put key (.list [.table []]))
  | some (.list items) => some (table.put key (.list (items ++ [.table []])))
  | some _ => none

end Table

def isClosed (closed : List Path) (path : Path) : Bool := closed.any (·.isPrefixOf path)

def splitPath (path : Path) : Path × String := (path.dropLast, path.getLast?.getD "")

abbrev Attempt (α : Type) := List Char → Except Rejection (α × List Char)

def require {α : Type} : Option α → Except Rejection α
  | some found => .ok found
  | none => .error .invalid

namespace Value

def isContainer : Value → Bool
  | .list _ | .table _ => true
  | _ => false

def boolean? : Reader Value
  | 't' :: 'r' :: 'u' :: 'e' :: rest => some (.boolean true, rest)
  | 'f' :: 'a' :: 'l' :: 's' :: 'e' :: rest => some (.boolean false, rest)
  | _ => none

def scalar : Attempt Value := fun chars =>
  match boolean? chars with
  | some found => .ok found
  | none =>
    match moment? chars with
    | some (point, rest) => if point.isValid then .ok (.moment point, rest) else .error .invalid
    | none => do
      let (value, rest) ← require (number? chars)
      return (← value, rest)

mutual

/-- A value. Each step takes a character or opens a list or table, so twice as many steps as there are
characters are enough. -/
def read : Nat → Attempt Value
  | 0, _ => .error .invalid
  | _, [] => .error .invalid
  | steps + 1, character :: rest =>
    if character = '"' || character = '\'' then do
      let (string, rest) ← require (string? (character :: rest))
      return (.text string, rest)
    else if character = '[' then do
      match ← require (afterLayout? false rest) with
      | ']' :: rest => return (.list [], rest)
      | inside =>
        let (items, rest) ← readItems steps inside
        return (.list items, rest)
    else if character = '{' then do
      match skipSpaces rest with
      | '}' :: rest => return (.table [], rest)
      | inside =>
        let (entries, rest) ← readEntries steps [] [] inside
        return (.table entries, rest)
    else scalar (character :: rest)

def readItems : Nat → Attempt (List Value)
  | 0, _ => .error .invalid
  | steps + 1, chars => do
    let (item, rest) ← read steps chars
    match ← require (afterLayout? false rest) with
    | ']' :: rest => return ([item], rest)
    | ',' :: rest =>
      match ← require (afterLayout? false rest) with
      | ']' :: rest => return ([item], rest)
      | next =>
        let (items, rest) ← readItems steps next
        return (item :: items, rest)
    | _ => .error .invalid

def readEntries : Nat → List Path → Table → Attempt Table
  | 0, _, _, _ => .error .invalid
  | steps + 1, closed, entries, chars => do
    let ((path, value), rest) ← readPair steps chars
    if isClosed closed path then .error .invalid
    else
      let (parent, key) := splitPath path
      let entries ← require (Table.edit? false (Table.add? key value) parent entries)
      match skipSpaces rest with
      | '}' :: rest => return (entries, rest)
      | ',' :: rest =>
        readEntries steps (if value.isContainer then path :: closed else closed) entries (skipSpaces rest)
      | _ => .error .invalid

def readPair : Nat → Attempt (Path × Value)
  | 0, _ => .error .invalid
  | steps + 1, chars => do
    let (path, rest) ← require (key? chars)
    match rest with
    | '=' :: rest =>
      let (value, rest) ← read steps (skipSpaces rest)
      return ((path, value), rest)
    | _ => .error .invalid

end

end Value

structure Document where
  root : Table
  /-- The table that the last header names. -/
  header : Path
  /-- Values written inline, to which nothing can be added. -/
  closed : List Path
  /-- Tables that a header may not name again. -/
  declared : List Path
  /-- Tables made by dotted keys since the last header, declared from the next one on. -/
  pending : List Path

namespace Document

def empty : Document := ⟨[], [], [], [], []⟩

def settled (document : Document) : Document :=
  { document with declared := document.pending ++ document.declared, pending := [] }

def table? (document : Document) (path : Path) : Option Document :=
  if document.declared.contains path || isClosed document.closed path then none
  else do
    let root ← Table.edit? true some path document.root
    some { document with root := root, header := path, declared := path :: document.declared }

/-- A header in double brackets. What earlier items of the list have declared is free again. -/
def item? (document : Document) (path : Path) : Option Document :=
  if isClosed document.closed path then none
  else do
    let (parent, key) := splitPath path
    let root ← Table.edit? true (Table.append? key) parent document.root
    let outside (paths : List Path) := paths.filter fun other => !path.isPrefixOf other
    some { document with
      root := root
      header := path
      closed := outside document.closed
      declared := path :: outside document.declared }

/-- An entry below the last header. The tables on the way of a dotted key must not have been declared. -/
def assign? (document : Document) (path : Path) (value : Value) : Option Document :=
  let (parent, key) := splitPath path
  let passed := (List.range parent.length).map fun count => document.header ++ parent.take (count + 1)
  if passed.any document.declared.contains || isClosed document.closed (document.header ++ parent) then none
  else do
    let root ← Table.edit? true (Table.add? key value) (document.header ++ parent) document.root
    some { document with
      root := root
      closed := if value.isContainer then (document.header ++ path) :: document.closed else document.closed
      pending := passed ++ document.pending }

def statement (document : Document) : Attempt Document
  | '[' :: '[' :: rest => do
    let (path, rest) ← require (key? (skipSpaces rest))
    let document ← require (document.settled.item? path)
    match rest with
    | ']' :: ']' :: rest => return (document, rest)
    | _ => .error .invalid
  | '[' :: rest => do
    let (path, rest) ← require (key? (skipSpaces rest))
    let document ← require (document.settled.table? path)
    match rest with
    | ']' :: rest => return (document, rest)
    | _ => .error .invalid
  | chars =>
    if chars.head?.any startsKey then do
      let ((path, value), rest) ← Value.readPair (2 * chars.length + 2) chars
      return (← require (document.assign? path value), rest)
    else .ok (document, chars)

/-- Reads the text line by line; each step takes at least a line break. -/
def lines : Nat → Document → List Char → Except Rejection Document
  | 0, _, _ => .error .invalid
  | steps + 1, document, chars => do
    let (document, rest) ← document.statement (skipSpaces chars)
    match ← require (afterComment? (skipSpaces rest)) with
    | [] => return document
    | '\n' :: rest => lines steps document rest
    | _ => .error .invalid

def withLineFeeds : List Char → List Char
  | [] => []
  | '\r' :: '\n' :: rest => '\n' :: withLineFeeds rest
  | character :: rest => character :: withLineFeeds rest

def parse (stack : Stack) (chars : List Char) : Except Rejection Table :=
  if stack.reads chars then (lines (chars.length + 1) empty (withLineFeeds chars)).map root
  else .error .tooDeep

end Document
end AccessChain.Toml
