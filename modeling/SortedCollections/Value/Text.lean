import SortedCollections.Number.Shortest
import SortedCollections.Text.Printable
import SortedCollections.Value.Basic

/-!
# Values as text

Text is quoted; it stands in single quotes unless it holds one and no double quote. Containers
are written with their items in order. A complement is marked by a `~`.
-/
namespace SortedCollections

namespace Value

/-- A code point written with a given number of hexadecimal digits. -/
def hexadecimal (digits n : Nat) : String :=
  String.ofList ((List.range digits).reverse.map fun k => Nat.digitChar (n / Nat.pow 16 k % 16))

/-- A character written by its code. -/
def codeOf (c : Char) : String :=
  if c.toNat < Nat.pow 2 8 then "\\x" ++ hexadecimal 2 c.toNat
  else if c.toNat < Nat.pow 2 16 then "\\u" ++ hexadecimal 4 c.toNat
  else "\\U" ++ hexadecimal 8 c.toNat

/-- A character within quotes. One that is not printable is written by its code. -/
def escaped (quote c : Char) : String :=
  if c = quote ∨ c = '\\' then String.ofList ['\\', c]
  else if c = '\n' then "\\n"
  else if c = '\t' then "\\t"
  else if c = '\r' then "\\r"
  else if Text.isPrintable c then String.ofList [c]
  else codeOf c

def quoted (s : String) : String :=
  let cs := s.toList
  let quote := if cs.contains '\'' && !cs.contains '"' then '"' else '\''
  String.ofList [quote] ++ String.join (cs.map (escaped quote)) ++ String.ofList [quote]

def commaSeparated (parts : List String) : String := ", ".intercalate parts

def bracketed (parts : List String) : String := "[" ++ commaSeparated parts ++ "]"

/-- A tuple; one with a single item keeps its comma. -/
def parenthesized : List String → String
  | [part] => "(" ++ part ++ ",)"
  | parts => "(" ++ commaSeparated parts ++ ")"

/-- An unordered set or a dictionary in braces. -/
def braced (parts : List String) : String := "\x7b" ++ commaSeparated parts ++ "\x7d"

mutual

def render : Value → String
  | .none => "None"
  | .missing => "MISSING"
  | .bool b => if b then "True" else "False"
  | .int n => toString n
  | .double x => Double.text x
  | .notANumber _ => Double.text Double.nan
  | .text s => quoted s
  | .list items => bracketed (renderList items)
  | .tuple items => parenthesized (renderList items)
  | .hashSet items => if items.isEmpty then "set()" else braced (renderList items)
  | .dict entries => braced (renderColons entries)
  | .sortedSet items => "FlatSet(" ++ bracketed (renderList items) ++ ")"
  | .sortedMap entries => "FlatMap(" ++ bracketed (renderEntries entries) ++ ")"
  | .cofiniteSet items negated =>
    (if negated then "~" else "") ++ "TotalSet(" ++ bracketed (renderList items) ++ ")"
  | .defaultMap entries fallback =>
    "TotalMap(" ++ bracketed (renderEntries entries) ++ ", default=" ++ fallback.render ++ ")"

def renderList : List Value → List String
  | [] => []
  | x :: xs => x.render :: renderList xs

def renderEntries : List (Value × Value) → List String
  | [] => []
  | (k, v) :: rest => parenthesized [k.render, v.render] :: renderEntries rest

/-- Entries with a colon between key and value. -/
def renderColons : List (Value × Value) → List String
  | [] => []
  | (k, v) :: rest => (k.render ++ ": " ++ v.render) :: renderColons rest

end

end Value

end SortedCollections
