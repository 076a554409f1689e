import ReactiveScript.Decimal.Text
import ReactiveScript.OrderedMap

/-!
# JSON trees and their text

The trees that values are turned into, and their compact text. Objects keep the order of their
entries, integers stay apart from decimals, and characters other than quotes, backslashes and
control characters are written as they are.
-/

namespace ReactiveScript

inductive JsonTree where
  | null
  | bool (b : Bool)
  | int (n : Int)
  | decimal (d : Decimal)
  | str (s : String)
  | arr (items : List JsonTree)
  | obj (entries : List (String × JsonTree))
deriving Repr, Inhabited

namespace Json

/-- A digit of base sixteen in lower case. -/
def hexDigit (n : Nat) : Char := if n < 10 then Char.ofNat (48 + n) else Char.ofNat (87 + n)

/-- What stands for a character inside a quoted text. -/
def escape (c : Char) : List Char :=
  if c = '"' then ['\\', '"']
  else if c = '\\' then ['\\', '\\']
  else if c = '\x08' then ['\\', 'b']
  else if c = '\x0c' then ['\\', 'f']
  else if c = '\n' then ['\\', 'n']
  else if c = '\r' then ['\\', 'r']
  else if c = '\t' then ['\\', 't']
  else if c.toNat < 0x20 then
    ['\\', 'u', '0', '0', hexDigit (c.toNat / 16), hexDigit (c.toNat % 16)]
  else [c]

/-- A text in quotes. -/
def quote (s : String) : List Char := '"' :: s.toList.flatMap escape ++ ['"']

end Json

namespace JsonTree

open Json

mutual

/-- The compact text of a tree. -/
def print : JsonTree → List Char
  | null => ['n', 'u', 'l', 'l']
  | bool true => ['t', 'r', 'u', 'e']
  | bool false => ['f', 'a', 'l', 's', 'e']
  | int n => (Text.ofInt n).toList
  | decimal d => (Decimal.Layout.json.write d).toList
  | str s => quote s
  | arr [] => ['[', ']']
  | arr (item :: items) => '[' :: item.print ++ printItems items
  | obj [] => ['\x7b', '\x7d']
  | obj ((key, item) :: entries) =>
    '\x7b' :: quote key ++ ':' :: item.print ++ printEntries entries

/-- The items after the first one and the closing bracket. -/
def printItems : List JsonTree → List Char
  | [] => [']']
  | item :: items => ',' :: item.print ++ printItems items

/-- The entries after the first one and the closing brace. -/
def printEntries : List (String × JsonTree) → List Char
  | [] => ['\x7d']
  | (key, item) :: entries => ',' :: quote key ++ ':' :: item.print ++ printEntries entries

end

def text (t : JsonTree) : String := String.ofList t.print

end JsonTree
end ReactiveScript
