import ProtoSchema.Proofs.Tokenization

/-!
# Tokens written out

The texts of the tokens of a source, written one after the other with any blanks between, have the
same tokens again, where the texts were put (`tokenize_layOut`).  The blanks need only keep the
tokens apart, and a comment needs the end of its line behind it (`Separates`).

A token is scanned alike before any blank (`scan_before_break`), and what brackets are open
depends on the kinds of the tokens before only, so the stream of the source is rebuilt token by
token (`Stream.layOut`).

* §1 layouts, §2 what follows a token in a layout, §3 the tokens of a layout.
-/

namespace ProtoSchema

open Lexeme

/-! ## §1 Layouts -/

/-- The texts of tokens with gaps between: `gap 0` in front of the first one, `gap i` behind `i` of
them. -/
def layOut (gap : Nat → String) : List Token → String
  | [] => gap 0
  | t :: ts => gap 0 ++ (t.text ++ layOut (fun i => gap (i + 1)) ts)

/-- The tokens where `layOut` puts them, from byte `start` on, and the end of input. -/
def placed (gap : Nat → String) (start : Nat) : List Token → List Token
  | [] => [⟨.endOfInput, start + (gap 0).utf8ByteSize, ""⟩]
  | t :: ts =>
    ⟨t.kind, start + (gap 0).utf8ByteSize, t.text⟩ ::
      placed (fun i => gap (i + 1)) (start + (gap 0).utf8ByteSize + t.text.utf8ByteSize) ts

/-- The gaps are blanks, and none between two tokens is empty.  Behind a comment the line ends, or
the text. -/
structure Separates (gap : Nat → String) (ts : List Token) : Prop where
  blank : ∀ i ≤ ts.length, ∀ c ∈ (gap i).toList, c ∈ blanks
  nonempty : ∀ i, 0 < i → i < ts.length → gap i ≠ ""
  comment : ∀ i (hi : i < ts.length), ts[i].kind = .comment →
    (∃ c ∈ (gap (i + 1)).toList.head?, c = '\n' ∨ c = '\r') ∨
      (i + 1 = ts.length ∧ gap (i + 1) = "")

/-! ## §2 Behind a token -/

section

variable {gap : Nat → String} {t : Token} {ts : List Token}

theorem Separates.isBlank (h : Separates gap ts) {i : Nat} (hi : i ≤ ts.length) :
    ∀ c ∈ (gap i).toList, isBlank c = true :=
  fun c hc => isBlank_iff.mpr (h.blank i hi c hc)

theorem Separates.tail (h : Separates gap (t :: ts)) : Separates (fun i => gap (i + 1)) ts where
  blank i hi := h.blank (i + 1) (Nat.succ_le_succ hi)
  nonempty i _ hi := h.nonempty (i + 1) (Nat.succ_pos i) (Nat.succ_lt_succ hi)
  comment i hi hkind := by
    rcases h.comment (i + 1) (Nat.succ_lt_succ hi) hkind with hline | ⟨hend, hempty⟩
    · exact .inl hline
    · exact .inr ⟨Nat.succ.inj hend, hempty⟩

/-- What is laid out behind a token starts as the gap there does, which is not empty if anything
comes behind it. -/
theorem Separates.mem_head? (h : Separates gap (t :: ts)) {c : Char}
    (hc : c ∈ (layOut (fun i => gap (i + 1)) ts).toList.head?) :
    c ∈ (gap 1).toList.head? := by
  cases ts with
  | nil => exact hc
  | cons u us =>
    have hne : (gap 1).toList ≠ [] := by
      rw [ne_eq, String.toList_eq_nil_iff]
      exact h.nonempty 1 Nat.one_pos (by simp)
    obtain ⟨d, ds, hgap⟩ := List.exists_cons_of_ne_nil hne
    rw [layOut, String.toList_append, hgap] at hc
    rw [hgap]
    exact hc

theorem Separates.startsBreak (h : Separates gap (t :: ts)) :
    StartsBreak (layOut (fun i => gap (i + 1)) ts).toList := by
  intro c hc
  exact mem_breaks_of_isBlank (h.isBlank (by simp) c (List.mem_of_mem_head? (h.mem_head? hc)))

theorem Separates.lineEnd (h : Separates gap (t :: ts)) (ht : t.kind = .comment) :
    ∀ c ∈ (layOut (fun i => gap (i + 1)) ts).toList.head?, c = '\n' ∨ c = '\r' := by
  intro c hc
  have hc := h.mem_head? hc
  rcases h.comment 0 (Nat.succ_pos _) ht with ⟨d, hd, hline⟩ | ⟨-, hempty⟩
  · obtain rfl := Option.mem_unique hc hd
    exact hline
  · rw [hempty] at hc
    cases hc

end

/-! ## §3 The tokens of a layout -/

/-- The tokens before the last one are rebuilt from their texts, with the same brackets open: by
induction on the tokens. -/
theorem Stream.layOut {c : Cursor} {b : Brackets} {ts : List Token} {last : Token}
    (h : Stream c b (ts ++ [last])) {gap : Nat → String} (hgap : Separates gap ts) (start : Nat) :
    Stream ⟨start, (ProtoSchema.layOut gap ts).toList⟩ b (placed gap start ts) := by
  induction ts generalizing c b gap start with
  | nil =>
    have hhead : ∀ c ∈ ([] : List Char).head?, isBlank c = false := by simp
    have hskip := Cursor.skipBlanks_text start (hgap.isBlank (Nat.zero_le 0)) hhead
    rw [List.append_nil] at hskip
    have hended := Stream.ended (c := ⟨start, (gap 0).toList⟩) (b := b) (by rw [hskip])
    rwa [hskip, Text.utf8Length_toList] at hended
  | cons t ts ih =>
    rw [List.cons_append] at h
    generalize hmore : ts ++ [last] = us at h
    cases h with
    | ended | unread | refused => simp at hmore
    | @token _ _ b' l _ hrest hscan hpass hstream =>
      subst hmore
      have hagain : scan (l.text ++ (ProtoSchema.layOut (fun i => gap (i + 1)) ts).toList) =
          .ok { l with rest := (ProtoSchema.layOut (fun i => gap (i + 1)) ts).toList } := by
        obtain ⟨d, ds, hd⟩ := List.exists_cons_of_ne_nil hrest
        exact scan_before_break (hd ▸ hscan) (List.nil_append l.rest).symm hgap.startsBreak
          fun hkind _ => hgap.lineEnd hkind
      have hplaced := Stream.token_behind start (hgap.isBlank (Nat.zero_le _))
        (exists_head_text hrest hscan) hagain hpass (ih hstream hgap.tail _)
      simpa only [ProtoSchema.layOut, placed, String.toList_append, String.toList_ofList,
        Text.utf8Length_toList, Text.utf8ByteSize_ofList] using hplaced

/-- The texts of the tokens of a source, laid out with blanks that keep them apart, have the same
tokens again, where they were put, and then the end of input.  It does not matter what ends the
source, the end of input or an error. -/
theorem tokenize_layOut {source : String} {ts : List Token} {last : Token}
    (htokens : tokenize source = ts ++ [last]) {gap : Nat → String} (hgap : Separates gap ts) :
    tokenize (layOut gap ts) = placed gap 0 ts := by
  have hstream := stream_tokenize source
  rw [htokens] at hstream
  exact (stream_iff.mp (hstream.layOut hgap 0)).symm

/-- A comment, a name beside dots, digits beside a name, and a map. -/
def mixedTokens : List Token :=
  [⟨.comment, 0, "//c"⟩, ⟨.identifier, 4, "a"⟩, ⟨.dot, 6, "."⟩, ⟨.identifier, 8, "b"⟩,
    ⟨.integerLit, 10, "0"⟩, ⟨.identifier, 12, "x1"⟩, ⟨.keyword .mapKw, 15, "map"⟩,
    ⟨.leftAngle, 18, "<"⟩, ⟨.identifier, 19, "k"⟩, ⟨.comma, 20, ","⟩, ⟨.identifier, 21, "v"⟩,
    ⟨.rightAngle, 22, ">"⟩]

/-- A carriage return between tokens, and nothing around them. -/
def returns (i : Nat) : String := if i = 0 ∨ i = 12 then "" else "\r"

theorem mixedTokens_layOut :
    tokenize "//c\na . b 0 x1 map<k,v>" = mixedTokens ++ [⟨.endOfInput, 23, ""⟩] ∧
      Separates returns mixedTokens ∧
      tokenize (layOut returns mixedTokens) = placed returns 0 mixedTokens := by
  have htokens :
      tokenize "//c\na . b 0 x1 map<k,v>" = mixedTokens ++ [⟨.endOfInput, 23, ""⟩] := by
    decide +kernel
  have hgap : Separates returns mixedTokens := by
    constructor
    case blank =>
      intro i _ c hc
      unfold returns at hc
      split at hc
      · cases hc
      · obtain rfl := List.mem_singleton.mp hc
        decide
    case nonempty =>
      intro i hpos hi
      have hi : i < 12 := hi
      rw [returns, if_neg (by omega)]
      decide
    case comment =>
      intro i hi hkind
      have hfirst : ∀ i (hi : i < mixedTokens.length), mixedTokens[i].kind = .comment → i = 0 := by
        decide
      obtain rfl := hfirst i hi hkind
      exact .inl ⟨'\r', rfl, .inr rfl⟩
  exact ⟨htokens, hgap, tokenize_layOut htokens hgap⟩

end ProtoSchema
