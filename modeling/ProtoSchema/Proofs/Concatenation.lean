import ProtoSchema.Proofs.Finality
import ProtoSchema.Proofs.Layout

/-!
# Files one after the other

What stands behind the preamble of a file can be written behind that of another, on a line of its
own.  The text is read as the declarations of the one and then those of the other, which stand as
many bytes further on as the first text has, and one for the line feed (`parseText_append`).

The first text may leave brackets open, in a package declaration, where any token is skipped.  The
second one is then read with more brackets open than it was read with before, and that does no
harm: what is allowed with some brackets open is allowed with more (`Brackets.Below.pass`).

* §1 texts further on, §2 more brackets, §3 a stream further on;
* §4 a derivation further on, §5 behind the preamble, §6 files.
-/

namespace ProtoSchema

open ProtoSchema.Parser ProtoSchema.Grammar Lexeme

/-! ## §1 Further on -/

/-- All offsets `k` bytes further on. -/
def Move.shift (k : Nat) : Move := ⟨(· + k), (· + k)⟩

theorem carries_shift (k : Nat) (t : Token) : (Move.shift k).Carries t := by
  simp only [Move.Carries, Move.shift, Move.token, Token.stop]
  exact Nat.add_right_comm _ _ _

theorem Cursor.skipBlanks_shift (c : Cursor) (k : Nat) :
    (⟨c.offset + k, c.rest⟩ : Cursor).skipBlanks =
      ⟨c.skipBlanks.offset + k, c.skipBlanks.rest⟩ := by
  simp only [skipBlanks, Nat.add_right_comm]

/-! ## §2 More brackets -/

/-- The brackets that are open in `b` are open in `b'`, and maybe more. -/
structure Brackets.Below (b b' : Brackets) : Prop where
  braces : b.braces ≤ b'.braces
  angles : b.angles ≤ b'.angles

theorem below_of_none (b : Brackets) : Brackets.Below {} b := ⟨Nat.zero_le _, Nat.zero_le _⟩

/-- What some brackets allow, more brackets allow, and are more brackets after it. -/
theorem Brackets.Below.pass {b b' b₁ : Brackets} (h : b.Below b') {kind : TokenKind}
    (hpass : b.pass kind = .ok b₁) : ∃ b₁', b'.pass kind = .ok b₁' ∧ b₁.Below b₁' := by
  obtain ⟨hbraces, hangles⟩ := h
  cases kind with
  | leftBrace =>
    cases hpass
    exact ⟨_, rfl, Nat.succ_le_succ hbraces, hangles⟩
  | leftAngle =>
    cases hpass
    exact ⟨_, rfl, hbraces, Nat.succ_le_succ hangles⟩
  | rightAngle =>
    -- a count that is at zero stays there
    cases hpass
    exact ⟨_, rfl, hbraces, Nat.sub_le_sub_right hangles 1⟩
  | rightBrace =>
    simp only [Brackets.pass] at hpass ⊢
    split at hpass
    · cases hpass
    · cases hpass
      rw [if_neg (by omega)]
      exact ⟨_, rfl, Nat.sub_le_sub_right hbraces 1, hangles⟩
  | comma =>
    simp only [Brackets.pass] at hpass ⊢
    split at hpass
    · cases hpass
    · cases hpass
      rw [if_neg (by omega)]
      exact ⟨_, rfl, hbraces, hangles⟩
  | _ =>
    cases hpass
    exact ⟨_, rfl, hbraces, hangles⟩

/-! ## §3 Streams -/

/-- A text without errors has the same tokens further on and with more brackets open: by induction
on its stream. -/
theorem Stream.shift {c : Cursor} {b b' : Brackets} {ts : List Token} (h : Stream c b ts)
    (hts : ∀ t ∈ ts, t.kind ≠ .error) (hb : b.Below b') (k : Nat) :
    Stream ⟨c.offset + k, c.rest⟩ b' (ts.map (Move.shift k).token) := by
  induction h generalizing b' with
  | @ended c b hrest =>
    have hskip := c.skipBlanks_shift k
    have hstream := Stream.ended (c := ⟨c.offset + k, c.rest⟩) (b := b') (by
      rw [hskip]
      exact hrest)
    rwa [hskip] at hstream
  | unread | refused => exact absurd rfl (hts _ List.mem_cons_self)
  | @token c b b₁ l ts hrest hscan hpass _ ih =>
    have hskip := c.skipBlanks_shift k
    obtain ⟨b₁', hpass', hb'⟩ := hb.pass hpass
    have hmore := ih (List.forall_mem_cons.mp hts).2 hb'
    have hstream := Stream.token (c := ⟨c.offset + k, c.rest⟩) (b := b') (l := l)
      (by rw [hskip]; exact hrest) (by rw [hskip]; exact hscan) hpass' (by
        rw [hskip]
        simpa only [Nat.add_right_comm] using hmore)
    rwa [hskip] at hstream

/-! ## §4 Derivations -/

theorem significant_map_token (m : Move) (ts : List Token) :
    significant (ts.map m.token) = (significant ts).map m.token := by
  rw [significant, significant, List.filter_map]
  rfl

/-- What a parser reads, a parser beside it reads, moved. -/
theorem Mirrors.reads {α β : Type} {m : Move} {R : α → β → Prop} {p : Parser α} {q : Parser β}
    (h : Mirrors m R p q) {used : List Token} {a : α} (ha : p.Reads used a)
    (hused : ∀ t ∈ used, m.Fits t) : ∃ b, R a b ∧ q.Reads (used.map m.token) b := by
  have hrun := h used hused
  obtain ⟨hcomment, hresult, hrest⟩ := ha
  generalize hp : p.run used = out, hq : q.run (used.map m.token) = out' at hrun
  rw [hp] at hresult hrest
  cases hrun with
  | @ok _ b _ _ _ hR =>
    obtain rfl := Except.ok.inj hresult
    dsimp only at hrest
    subst hrest
    exact ⟨b, hR, List.forall_mem_map.mpr hcomment, by rw [hq], by rw [hq]; rfl⟩
  | error => cases hresult
  | exhausted => cases hresult

/-- Tokens that derive a file derive it, moved, where they are moved to. -/
theorem Derives.moved {limit : Nat} {m : Move} {ts : List Token} {ns : List Node}
    (h : Derives limit ts ns) (hts : ∀ t ∈ ts, t.Ordinary) (hm : ∀ t ∈ ts, m.Carries t) :
    Derives limit (ts.map m.token) (m.nodes ns) := by
  -- the file ends somewhere
  let last : Token := ⟨.endOfInput, 0, ""⟩
  have hreads : (Grammar.file limit).Reads (ts ++ [last]) ⟨.proto3, ns, ⟨0, last.stop⟩⟩ :=
    (reads_file_iff_derives hts rfl).mpr ⟨h, rfl⟩
  have hfits : ∀ t ∈ ts ++ [last], m.Fits t := by
    refine List.forall_mem_append.mpr ⟨fun t ht => ?_, List.forall_mem_singleton.mpr ?_⟩
    · exact ⟨(hts t ht).not_comment, fun _ => hm t ht⟩
    · exact ⟨by simp [last], by simp [last, TokenKind.isLast]⟩
  obtain ⟨f, hf, hmoved⟩ := (mirrors_file limit).reads hreads hfits
  rw [List.map_append] at hmoved
  have hordinary : ∀ t ∈ ts.map m.token, t.Ordinary := by
    refine List.forall_mem_map.mpr fun t ht => ?_
    exact ⟨(hts t ht).not_comment, (hts t ht).not_last⟩
  have hderives := ((reads_file_iff_derives hordinary rfl).mp hmoved).1
  rwa [hf] at hderives

/-- Members may be followed by more members. -/
theorem Members.append {place : Place} {room : Nat} {ts us : List Token} {ns ms : List Node}
    (h : Members place room ts ns) (h' : Members place room us ms) :
    Members place room (ts ++ us) (ns ++ ms) := by
  induction h with
  | nil => exact h'
  | leaf hadmits hleaf _ ih =>
    rw [List.append_assoc]
    exact .leaf hadmits hleaf (ih h')
  | scope hadmits hbraced hinner _ _ ih =>
    have hmore := Members.scope hadmits hbraced hinner (ih h')
    simpa using hmore
  | service hadmits hbraced hinner _ _ ih =>
    have hmore := Members.service hadmits hbraced hinner (ih h')
    simpa using hmore

/-! ## §5 Behind the preamble -/

/-- The preamble, written as it usually is. -/
def preambleText : String := "syntax = \"proto3\";"

def preambleTokens : List Token :=
  [⟨.keyword .syntaxKw, 0, "syntax"⟩, ⟨.equals, 7, "="⟩, ⟨.stringLit, 9, "\"proto3\""⟩,
    ⟨.semicolon, 17, ";"⟩]

theorem preambleTokens_spell :
    Preamble ⟨.keyword .syntaxKw, 0, "syntax"⟩ ⟨.equals, 7, "="⟩ ⟨.stringLit, 9, "\"proto3\""⟩
      ⟨.semicolon, 17, ";"⟩ :=
  ⟨rfl, rfl, rfl, rfl, rfl⟩

/-- The semicolon that ends the preamble keeps it apart from what follows. -/
theorem Stream.behind_preamble {cs : List Char} {ts : List Token} (h : Stream ⟨18, cs⟩ {} ts) :
    Stream ⟨0, preambleText.toList ++ cs⟩ {} (preambleTokens ++ ts) := by
  have hsemi : Stream ⟨17, ";".toList ++ cs⟩ {} (⟨.semicolon, 17, ";"⟩ :: ts) :=
    .token (List.cons_ne_nil _ _) (l := ⟨.semicolon, ";".toList, cs⟩) rfl rfl h
  have hlanguage : Stream ⟨8, " \"proto3\";".toList ++ cs⟩ {}
      (⟨.stringLit, 9, "\"proto3\""⟩ :: ⟨.semicolon, 17, ";"⟩ :: ts) :=
    .token (List.cons_ne_nil _ _) (l := ⟨.stringLit, "\"proto3\"".toList, _⟩) rfl rfl hsemi
  have hequals : Stream ⟨6, " = \"proto3\";".toList ++ cs⟩ {}
      (⟨.equals, 7, "="⟩ :: ⟨.stringLit, 9, "\"proto3\""⟩ :: ⟨.semicolon, 17, ";"⟩ :: ts) :=
    .token (List.cons_ne_nil _ _) (l := ⟨.equals, "=".toList, _⟩) rfl rfl hlanguage
  exact .token (List.cons_ne_nil _ _) (l := ⟨.keyword .syntaxKw, "syntax".toList, _⟩) rfl rfl
    hequals

theorem tokenize_preamble (d : String) :
    tokenize (preambleText ++ d) =
      preambleTokens ++ (Lexer.at ⟨18, d.toList⟩ {}).tokens := by
  have hstream := (stream_tokens ⟨18, d.toList⟩ {}).behind_preamble
  rw [← String.toList_append] at hstream
  exact (stream_iff.mp hstream).symm

/-- What is read behind the preamble: tokens that spell the declarations, and the end of input. -/
theorem members_of_preamble {d : String} {f : File}
    (h : (parseText (preambleText ++ d)).value = .ok f) :
    ∃ before last, Stream ⟨18, d.toList⟩ {} (before ++ [last]) ∧ last.kind = .endOfInput ∧
      (∀ t ∈ before, t.kind.isLast = false) ∧
      Members .file nestingLimit (significant before) f.declarations := by
  obtain ⟨all, last, htokens, hlast, hderives, -⟩ := parseText_eq_ok_iff.mp h
  obtain ⟨before, last', hbehind, -, hbefore⟩ := (stream_tokens ⟨18, d.toList⟩ {}).exists_last
  have hstream := stream_tokens ⟨18, d.toList⟩ {}
  rw [tokenize_preamble, hbehind, ← List.append_assoc] at htokens
  rw [hbehind] at hstream
  obtain ⟨rfl, heq⟩ := List.append_inj' htokens rfl
  obtain rfl := (List.cons.inj heq).1
  refine ⟨before, last', hstream, hlast, hbefore, ?_⟩
  rw [significant_append] at hderives
  cases hderives with
  | file _ hbody => exact hbody

/-- Declarations further on: they are still what stands behind a preamble. -/
theorem Members.shift {limit : Nat} {ts : List Token} {ns : List Node}
    (h : Members .file limit ts ns) (hts : ∀ t ∈ ts, t.Ordinary) (k : Nat) :
    Members .file limit (ts.map (Move.shift k).token) ((Move.shift k).nodes ns) := by
  have hordinary : ∀ t ∈ preambleTokens, t.Ordinary := by
    simp only [preambleTokens, List.forall_mem_cons]
    exact ⟨⟨nofun, rfl⟩, ⟨nofun, rfl⟩, ⟨nofun, rfl⟩, ⟨nofun, rfl⟩, nofun⟩
  have hderives := (Derives.file preambleTokens_spell h).moved
    (List.forall_mem_append.mpr ⟨hordinary, hts⟩) (fun t _ => carries_shift k t)
  cases hderives with
  | file _ hbody => exact hbody

/-! ## §6 Files -/

/-- The tokens of a text without errors, written on a line of its own behind another one. -/
theorem tokenize_preamble_append {d₁ d₂ : String} {before₁ ts₂ : List Token} {last₁ : Token}
    (h₁ : Stream ⟨18, d₁.toList⟩ {} (before₁ ++ [last₁])) (hlast₁ : last₁.kind = .endOfInput)
    (h₂ : Stream ⟨18, d₂.toList⟩ {} ts₂) (hts₂ : ∀ t ∈ ts₂, t.kind ≠ .error) :
    tokenize (preambleText ++ d₁ ++ "\n" ++ d₂) =
      preambleTokens ++ (before₁ ++ ts₂.map (Move.shift (d₁.utf8ByteSize + 1)).token) := by
  obtain ⟨b, -, hmore⟩ := h₁.append_of_end hlast₁
  -- the brackets `b` that the first text leaves open are no fewer than none
  have hshifted := h₂.shift hts₂ (below_of_none b) (d₁.utf8ByteSize + 1)
  have hoffset : 18 + (d₁.utf8ByteSize + 1) = 18 + Text.utf8Length d₁.toList + 1 := by
    rw [Text.utf8Length_toList, Nat.add_assoc]
  rw [hoffset] at hshifted
  have hstream := (hmore d₂.toList _ hshifted).behind_preamble
  have hchars : preambleText.toList ++ (d₁.toList ++ '\n' :: d₂.toList) =
      (preambleText ++ d₁ ++ "\n" ++ d₂).toList := by
    simp
  rw [hchars] at hstream
  exact (stream_iff.mp hstream).symm

/-- What stands behind the preambles of two files, written behind one preamble with a line feed
between, is a file with the declarations of the first one and then those of the second one, all of
these as many bytes further on as the first text and the line feed have. -/
theorem parseText_append {d₁ d₂ : String} {f₁ f₂ : File}
    (h₁ : (parseText (preambleText ++ d₁)).value = .ok f₁)
    (h₂ : (parseText (preambleText ++ d₂)).value = .ok f₂) :
    (parseText (preambleText ++ d₁ ++ "\n" ++ d₂)).value =
      .ok ⟨.proto3,
        f₁.declarations ++ (Move.shift (d₁.utf8ByteSize + 1)).nodes f₂.declarations,
        ⟨0, (preambleText ++ d₁ ++ "\n" ++ d₂).utf8ByteSize⟩⟩ := by
  obtain ⟨before₁, last₁, hstream₁, hlast₁, hbefore₁, hmembers₁⟩ := members_of_preamble h₁
  obtain ⟨before₂, last₂, hstream₂, hlast₂, hbefore₂, hmembers₂⟩ := members_of_preamble h₂
  have htokens :=
    tokenize_preamble_append hstream₁ hlast₁ hstream₂ (hstream₂.ne_error hlast₂)
  generalize d₁.utf8ByteSize + 1 = k at htokens ⊢
  rw [List.map_append, ← List.append_assoc, ← List.append_assoc] at htokens
  have hderives : Derives nestingLimit
      (significant (preambleTokens ++ before₁ ++ before₂.map (Move.shift k).token))
      (f₁.declarations ++ (Move.shift k).nodes f₂.declarations) := by
    rw [List.append_assoc, significant_append, significant_append, significant_map_token]
    exact .file preambleTokens_spell
      (hmembers₁.append (hmembers₂.shift (ordinary_of_mem_significant hbefore₂) k))
  have hok : (parseText (preambleText ++ d₁ ++ "\n" ++ d₂)).value = .ok ⟨.proto3,
      f₁.declarations ++ (Move.shift k).nodes f₂.declarations,
      ⟨0, ((Move.shift k).token last₂).stop⟩⟩ :=
    parseText_eq_ok_iff.mpr ⟨_, _, htokens, hlast₂, hderives, rfl⟩
  have hspan := (nested_of_parseText hok).2
  dsimp only at hspan
  rwa [hspan] at hok

/-- The first text leaves an angle bracket open and ends in a comment. -/
theorem package_and_service_append :
    (parseText (preambleText ++ "package a<;//")).value =
        .ok ⟨.proto3, [.package ⟨18, 29⟩], ⟨0, 31⟩⟩ ∧
      (parseText (preambleText ++ "service S\x7b\x7d")).value =
        .ok ⟨.proto3, [.service ⟨"S", ⟨26, 27⟩⟩ 27 [] 28 ⟨18, 29⟩], ⟨0, 29⟩⟩ ∧
      (parseText (preambleText ++ "package a<;//" ++ "\n" ++ "service S\x7b\x7d")).value =
        .ok ⟨.proto3,
          [.package ⟨18, 29⟩] ++
            (Move.shift ("package a<;//".utf8ByteSize + 1)).nodes
              [.service ⟨"S", ⟨26, 27⟩⟩ 27 [] 28 ⟨18, 29⟩],
          ⟨0, (preambleText ++ "package a<;//" ++ "\n" ++ "service S\x7b\x7d").utf8ByteSize⟩⟩ := by
  have h₁ : (parseText (preambleText ++ "package a<;//")).value =
      .ok ⟨.proto3, [.package ⟨18, 29⟩], ⟨0, 31⟩⟩ := by
    decide +kernel
  have h₂ : (parseText (preambleText ++ "service S\x7b\x7d")).value =
      .ok ⟨.proto3, [.service ⟨"S", ⟨26, 27⟩⟩ 27 [] 28 ⟨18, 29⟩], ⟨0, 29⟩⟩ := by
    decide +kernel
  exact ⟨h₁, h₂, parseText_append h₁ h₂⟩

end ProtoSchema
