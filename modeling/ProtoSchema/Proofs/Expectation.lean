import ProtoSchema.Expected

/-!
# What a message says is expected

A message lists what might have stood at some place: names of kinds of token, with commas and an
`or` between them.  `Names` reads such a list, without a look at where it comes from, and finds the
kinds that the place waits for (`names_text_iff`); so two places with one text wait for the same
kinds.
-/

namespace ProtoSchema

/-! ## §1 Lists of names -/

/-- The items of a list in words: `a, b or c`. -/
def listed : List Char → List (List Char)
  | [] => [[]]
  | ',' :: ' ' :: cs => [] :: listed cs
  | ' ' :: 'o' :: 'r' :: ' ' :: cs => [] :: listed cs
  | c :: cs => (listed cs).modifyHead (c :: ·)

/-- What a kind of token is called in a list.  A field, also one of an enum, starts with an
identifier, and of several literals only the last is called one. -/
def TokenKind.names (kind : TokenKind) : List String :=
  kind.description :: match kind with
    | identifier => ["field", "enum field"]
    | stringLit => ["string"]
    | _ => []

/-- A text lists a name of the kind. -/
def Names (text : String) (kind : TokenKind) : Prop :=
  ∃ name ∈ listed text.toList, String.ofList name ∈ kind.names

instance decidableNames (text : String) (kind : TokenKind) : Decidable (Names text kind) :=
  inferInstanceAs (Decidable (∃ name ∈ listed text.toList, String.ofList name ∈ kind.names))

/-! ## §2 All kinds, and all that is waited for -/

def TokenKind.all : List TokenKind :=
  [.error, .endOfInput, .dot, .equals, .semicolon, .comma, .leftBrace, .rightBrace, .leftParen,
    .rightParen, .leftBracket, .rightBracket, .leftAngle, .rightAngle, .identifier, .qualified,
    .stringLit, .integerLit, .booleanLit, .comment] ++ Keyword.all.map .keyword

theorem TokenKind.mem_all (kind : TokenKind) : kind ∈ all := by
  cases kind with
  | keyword word => exact List.mem_append_right _ (List.mem_map_of_mem word.mem_all)
  | _ => decide

def Expected.all : List Expected :=
  TokenKind.all.map .kind ++ [.typeName, .declaration, .importPath, .optionValue,
    .member .message, .member .oneOf, .member .enum, .statement]

theorem Expected.mem_all (e : Expected) : e ∈ all := by
  cases e with
  | kind kind => exact List.mem_append_left _ (List.mem_map_of_mem kind.mem_all)
  | member scope => cases scope <;> exact List.mem_append_right _ (by decide)
  | _ => exact List.mem_append_right _ (by decide)

/-! ## §3 The texts of messages -/

/-- The items of a text, one by one. -/
def Expected.names : Expected → List String
  | kind k => [k.description]
  | typeName => ["identifier"]
  | declaration => ["'import'", "'package'", "'option'", "'message'", "'enum'", "'service'"]
  | importPath => ["'weak'", "'public'", "string literal"]
  | optionValue => ["string", "boolean literal"]
  | member .message =>
    ["field", "'message'", "'enum'", "'oneof'", "'option'", "'repeated'", "'map'", "';'", "'\x7d'"]
  | member .oneOf => ["field", "'message'", "'option'", "'map'", "';'", "'\x7d'"]
  | member .enum => ["enum field", "'option'", "';'", "'\x7d'"]
  | statement => ["'rpc'", "'option'", "';'", "'\x7d'"]

theorem listed_description (kind : TokenKind) :
    listed kind.description.toList = [kind.description.toList] := by
  have hall : ∀ kind ∈ TokenKind.all,
      listed kind.description.toList = [kind.description.toList] := by
    decide +kernel
  exact hall kind kind.mem_all

theorem listed_text (e : Expected) : listed e.text.toList = e.names.map String.toList := by
  cases e with
  | kind kind => exact listed_description kind
  | member scope =>
    cases scope <;> rw [Expected.text, String.toList_ofList] <;> decide +kernel
  | typeName => exact listed_description .identifier
  | declaration | importPath | optionValue | statement =>
    rw [Expected.text, String.toList_ofList]
    decide +kernel

theorem names_iff_exists (e : Expected) (kind : TokenKind) :
    Names e.text kind ↔ ∃ name ∈ e.names, name ∈ kind.names := by
  rw [Names, listed_text]
  constructor
  · rintro ⟨_, hlisted, hkind⟩
    obtain ⟨name, hname, rfl⟩ := List.mem_map.mp hlisted
    rw [String.ofList_toList] at hkind
    exact ⟨name, hname, hkind⟩
  · rintro ⟨name, hname, hkind⟩
    exact ⟨name.toList, List.mem_map_of_mem hname, by rwa [String.ofList_toList]⟩

/-- No name is shared by two kinds. -/
theorem kind_unique {name : String} {kind kind' : TokenKind} (h : name ∈ kind.names)
    (h' : name ∈ kind'.names) : kind = kind' := by
  have hall : ∀ kind ∈ TokenKind.all, ∀ kind' ∈ TokenKind.all, ∀ name ∈ kind.names,
      name ∈ kind'.names → kind = kind' := by
    decide +kernel
  exact hall kind kind.mem_all kind' kind'.mem_all name h h'

/-- The text of what is waited for names the kinds that are waited for, and no others. -/
theorem names_text_iff (e : Expected) (kind : TokenKind) :
    Names e.text kind ↔ kind ∈ e.kinds := by
  have hsound : ∀ e ∈ Expected.all, ∀ name ∈ e.names, ∃ kind ∈ e.kinds, name ∈ kind.names := by
    decide +kernel
  have hcomplete : ∀ e ∈ Expected.all, ∀ kind ∈ e.kinds, ∃ name ∈ e.names, name ∈ kind.names := by
    decide +kernel
  rw [names_iff_exists]
  constructor
  · rintro ⟨name, hname, hkind⟩
    obtain ⟨kind', hmem, hkind'⟩ := hsound e e.mem_all name hname
    rwa [kind_unique hkind hkind']
  · exact hcomplete e e.mem_all kind

/-- A field starts with an identifier, and nothing is named but what is listed. -/
example : Names "field, 'message' or ';'" .identifier ∧
    ¬ Names "field, 'message' or ';'" .comma := by
  decide +kernel

/-- The text says which kinds are waited for. -/
theorem mem_kinds_of_text_eq {e e' : Expected} (h : e.text = e'.text) {kind : TokenKind}
    (hkind : kind ∈ e.kinds) : kind ∈ e'.kinds := by
  rwa [← names_text_iff, ← h, names_text_iff]

/-- A stream that has run out is reported with a text of its own. -/
theorem text_ne_token (e : Expected) : e.text ≠ "token" := by
  have hall : ∀ e ∈ Expected.all, e.text ≠ "token" := by decide +kernel
  exact hall e e.mem_all

end ProtoSchema
