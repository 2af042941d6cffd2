/-! # Reserved words

The fourteen words that the schema language keeps for itself.  `Keyword.ofText?` looks a word up;
it is the inverse of `Keyword.text` (`ofText?_eq_some_iff`), so matching is exact and regards case.
-/

namespace ProtoSchema

inductive Keyword where
  | syntaxKw | importKw | weakKw | publicKw | packageKw | optionKw | messageKw
  | enumKw | oneofKw | mapKw | repeatedKw | serviceKw | rpcKw | returnsKw
  deriving DecidableEq, Repr

namespace Keyword

def text : Keyword → String
  | syntaxKw => "syntax"
  | importKw => "import"
  | weakKw => "weak"
  | publicKw => "public"
  | packageKw => "package"
  | optionKw => "option"
  | messageKw => "message"
  | enumKw => "enum"
  | oneofKw => "oneof"
  | mapKw => "map"
  | repeatedKw => "repeated"
  | serviceKw => "service"
  | rpcKw => "rpc"
  | returnsKw => "returns"

def all : List Keyword :=
  [syntaxKw, importKw, weakKw, publicKw, packageKw, optionKw, messageKw,
    enumKw, oneofKw, mapKw, repeatedKw, serviceKw, rpcKw, returnsKw]

theorem mem_all (k : Keyword) : k ∈ all := by cases k <;> decide

theorem text_injective {j k : Keyword} (h : j.text = k.text) : j = k := by
  revert h; cases j <;> cases k <;> decide

/-- The keyword spelled `word`, if there is one. -/
def ofText? (word : String) : Option Keyword := all.find? fun k => k.text == word

theorem ofText?_eq_some_iff {word : String} {k : Keyword} :
    ofText? word = some k ↔ k.text = word := by
  constructor
  · intro h
    simpa using List.find?_some h
  · rintro rfl
    cases k <;> decide

end Keyword

end ProtoSchema
