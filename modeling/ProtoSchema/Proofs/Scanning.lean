import ProtoSchema.Proofs.LexicalGrammar

/-!
# Scanners and items

`Lexeme.scan` gives what the lexical grammar has at the front of a text, and nothing else
(`scan_eq_iff`).  Each scanner is first said to give longest starts, and longest starts are said
by what follows them; a longest start is cut off in one way only.

* §1 runs, §2 names, §3 integers: the longest starts, by what follows them;
* §4 which scanner is used, §5 scanners and items;
* §6 a lexeme stays one where a blank follows it, or the mark that ends a declaration
  (`scan_before_break`), and what is none does not become one (`scan_fault_before_newline`).
-/

namespace ProtoSchema

open Lexeme

/-! ## §1 Runs -/

theorem takeWhile_append_of_ends {p : Char → Bool} (rest : List Char) {w : List Char}
    (hw : ∀ c ∈ w, p c = true) (hrest : ∀ c ∈ rest.head?, p c = false) :
    (w ++ rest).takeWhile p = w ∧ (w ++ rest).dropWhile p = rest := by
  rw [List.takeWhile_append_of_pos hw, List.dropWhile_append_of_pos hw]
  cases rest with
  | nil => simp
  | cons c rest => simp [hrest c rfl]

theorem head?_dropWhile (p : Char → Bool) (cs : List Char) :
    ∀ c ∈ (cs.dropWhile p).head?, p c = false := by
  intro c hc
  have := List.head?_dropWhile_not p cs
  rw [hc] at this
  simpa using this

/-- What is the longest of its kind is cut off in one way. -/
theorem Longest.unique {L : List Char → Prop} {w rest w' rest' : List Char}
    (h : Longest L w rest) (h' : Longest L w' rest') (happ : w ++ rest = w' ++ rest') :
    w = w' ∧ rest = rest' := by
  have hle : w'.length ≤ w.length := h.length_le w' (happ ▸ List.prefix_append _ _) h'.mem
  have hge : w.length ≤ w'.length := h'.length_le w (happ ▸ List.prefix_append _ _) h.mem
  exact List.append_inj happ (Nat.le_antisymm hge hle)

/-- A run is the longest if and only if what follows does not go on with it. -/
theorem longest_isRun_iff {p : Char → Bool} {w rest : List Char} :
    Longest (IsRun p) w rest ↔ IsRun p w ∧ ∀ c ∈ rest.head?, p c = false := by
  constructor
  · intro h
    refine ⟨h.mem, ?_⟩
    intro c hc
    cases rest with
    | nil => cases hc
    | cons d rest =>
      cases hc
      cases hp : p c with
      | false => rfl
      | true =>
        have hrun : IsRun p (w ++ [c]) := by
          refine ⟨by simp, ?_⟩
          intro e he
          rcases List.mem_append.mp he with he | he
          · exact h.mem.all e he
          · obtain rfl := List.mem_singleton.mp he
            exact hp
        have := h.length_le (w ++ [c]) ⟨rest, by simp⟩ hrun
        simp only [List.length_append, List.length_singleton] at this
        omega
  · rintro ⟨hrun, hrest⟩
    refine ⟨hrun, ?_⟩
    rintro v ⟨u, hv⟩ hvrun
    -- both `v` and `w` start the run that `takeWhile` cuts off
    have hw := (takeWhile_append_of_ends rest hrun.all hrest).1
    rw [← hv, List.takeWhile_append_of_pos hvrun.all] at hw
    have := congrArg List.length hw
    rw [List.length_append] at this
    omega

/-! ## §2 Names -/

/-- What follows a name that is the longest: nothing that the name could go on with. -/
def WordEnds (rest : List Char) : Prop := (spanWord rest).1 = []

theorem spanWord_append_of_continue {s : List Char}
    (hs : ∀ c ∈ s, isIdentContinue c = true) (rest : List Char) :
    spanWord (s ++ rest) = (s ++ (spanWord rest).1, (spanWord rest).2) := by
  induction s with
  | nil => rfl
  | cons c s ih =>
    obtain ⟨hc, hs⟩ := List.forall_mem_cons.mp hs
    rw [List.cons_append, spanWord, ih hs]
    simp [hc]

theorem IsSegment.continue {s : List Char} (h : IsSegment s) :
    ∀ c ∈ s, isIdentContinue c = true := by
  cases h with
  | mk hstart hcontinue =>
    exact List.forall_mem_cons.mpr ⟨isIdentContinue_of_isIdentStart hstart, hcontinue⟩

theorem IsName.exists_start {w : List Char} (h : IsName w) :
    ∃ c cs, w = c :: cs ∧ isIdentStart c = true := by
  cases h with
  | segment hs =>
    cases hs with
    | mk hstart _ => exact ⟨_, _, rfl, hstart⟩
  | qualify hs _ =>
    cases hs with
    | mk hstart _ => exact ⟨_, _, rfl, hstart⟩

/-- A name is passed over whatever follows it. -/
theorem spanWord_append_of_isName {w : List Char} (h : IsName w) (rest : List Char) :
    spanWord (w ++ rest) = (w ++ (spanWord rest).1, (spanWord rest).2) := by
  induction h with
  | segment hs => exact spanWord_append_of_continue hs.continue rest
  | @qualify s w hs hw ih =>
    obtain ⟨c, cs, rfl, hc⟩ := hw.exists_start
    rw [List.append_assoc, spanWord_append_of_continue hs.continue, List.cons_append, spanWord, ih]
    simp [hc]

/-- What is passed over behind a segment makes a name with it. -/
theorem isName_append_spanWord (cs : List Char) :
    (∀ s, IsSegment s → IsName (s ++ (spanWord cs).1)) ∧
      (∀ c ∈ cs.head?, isIdentStart c = true → IsName (spanWord cs).1) := by
  induction cs with
  | nil =>
    refine ⟨?_, by simp⟩
    intro s hs
    simpa [spanWord] using IsName.segment hs
  | cons c cs ih =>
    refine ⟨?_, ?_⟩
    · intro s hs
      rw [spanWord]
      split
      · next hgo =>
        show IsName (s ++ c :: (spanWord cs).1)
        by_cases hc : isIdentContinue c = true
        · have hs' : IsSegment (s ++ [c]) := by
            cases hs with
            | mk hstart hcontinue =>
              refine .mk hstart ?_
              intro d hd
              rcases List.mem_append.mp hd with hd | hd
              · exact hcontinue d hd
              · obtain rfl := List.mem_singleton.mp hd
                exact hc
          simpa using ih.1 (s ++ [c]) hs'
        · -- a dot ends the segment, and a name goes on behind it
          obtain ⟨rfl, hnext⟩ : c = '.' ∧ cs.head?.any isIdentStart = true := by
            simpa [hc] using hgo
          obtain ⟨d, hd, hstart⟩ := Option.any_eq_true _ _ |>.mp hnext
          exact .qualify hs (ih.2 d hd hstart)
      · simpa using IsName.segment hs
    · intro d hd hstart
      cases hd
      rw [spanWord, if_pos (by simp [isIdentContinue_of_isIdentStart hstart])]
      exact ih.1 [c] (.mk hstart (by simp))

/-- A name is the longest if and only if what follows does not go on with it. -/
theorem longest_isName_iff {w rest : List Char} :
    Longest IsName w rest ↔ IsName w ∧ WordEnds rest := by
  constructor
  · intro h
    refine ⟨h.mem, ?_⟩
    obtain ⟨c, cs, rfl, hc⟩ := h.mem.exists_start
    -- what is passed over is a name, and it goes as far as `w` and on into `rest`
    have hspan := spanWord_append_of_isName h.mem rest
    have hname := (isName_append_spanWord ((c :: cs) ++ rest)).2 c rfl hc
    have hstart : (spanWord ((c :: cs) ++ rest)).1 <+: (c :: cs) ++ rest :=
      ⟨_, spanWord_append _⟩
    have := h.length_le _ hstart hname
    rw [hspan, List.length_append] at this
    exact List.eq_nil_of_length_eq_zero (by omega)
  · rintro ⟨hname, hends⟩
    refine ⟨hname, ?_⟩
    rintro v ⟨u, hv⟩ hvname
    have hw := spanWord_append_of_isName hname rest
    rw [hends, List.append_nil, ← hv, spanWord_append_of_isName hvname] at hw
    have := congrArg (fun p => p.1.length) hw
    simp only [List.length_append] at this
    omega

theorem ofList_eq_iff {w : List Char} {s : String} : String.ofList w = s ↔ w = s.toList := by
  constructor
  · rintro rfl
    rw [String.toList_ofList]
  · rintro rfl
    rw [String.ofList_toList]

theorem nameKind_wordKind (w : List Char) : NameKind w (wordKind w) := by
  unfold wordKind
  split
  · next hdot => exact .qualified hdot
  · next hdot =>
    split
    · next k hk =>
      rw [Keyword.ofText?_eq_some_iff] at hk
      exact .keyword hdot (by rw [hk, String.toList_ofList])
    · next hnone =>
      have hkeyword : ∀ k : Keyword, w ≠ k.text.toList := by
        rintro k rfl
        rw [String.ofList_toList, Keyword.ofText?_eq_some_iff.mpr rfl] at hnone
        cases hnone
      simp only [ofList_eq_iff]
      split
      · next hword => exact .boolean hdot hword
      · next hword => exact .identifier hdot hkeyword hword

/-- A name has one kind. -/
theorem NameKind.unique {w : List Char} {kind : TokenKind} (h : NameKind w kind) :
    wordKind w = kind := by
  cases h with
  | qualified hdot => rw [wordKind, if_pos hdot]
  | @keyword k hdot htext =>
    have hk : Keyword.ofText? (String.ofList w) = some k := by
      rw [htext, String.ofList_toList, Keyword.ofText?_eq_some_iff]
    rw [wordKind, if_neg hdot, hk]
  | boolean _ hword => rcases hword with rfl | rfl <;> decide
  | identifier hdot hkeyword hboolean =>
    have hnone : Keyword.ofText? (String.ofList w) = none := by
      cases hk : Keyword.ofText? (String.ofList w) with
      | none => rfl
      | some k =>
        rw [Keyword.ofText?_eq_some_iff] at hk
        exact absurd (by rw [hk, String.toList_ofList]) (hkeyword k)
    simp only [wordKind, if_neg hdot, hnone, ofList_eq_iff, if_neg hboolean]

/-! ## §3 Integers -/

theorem longest_isHex_iff {x : Char} {ds rest : List Char} :
    Longest IsHex ('0' :: x :: ds) rest ↔
      (x = 'x' ∨ x = 'X') ∧ Longest (IsRun Text.isHexDigit) ds rest := by
  constructor
  · rintro ⟨⟨hx, hds⟩, hle⟩
    refine ⟨hx, hds, ?_⟩
    intro v hv hrun
    have := hle ('0' :: x :: v) (by simpa using hv) (.mk hx hrun)
    simpa using this
  · rintro ⟨hx, hds, hle⟩
    refine ⟨.mk hx hds, ?_⟩
    rintro v hv ⟨-, hrun⟩
    simp only [List.cons_append, List.cons_prefix_cons] at hv
    have := hle _ hv.2.2 hrun
    simpa using this

theorem longest_takeWhile {p : Char → Bool} {c : Char} (hc : p c = true) (cs : List Char) :
    Longest (IsRun p) ((c :: cs).takeWhile p) ((c :: cs).dropWhile p) := by
  refine longest_isRun_iff.mpr ⟨⟨by simp [hc], ?_⟩, head?_dropWhile p _⟩
  intro d hd
  exact List.all_eq_true.mp List.all_takeWhile d hd

/-- The hexadecimal form applies where two characters and a digit stand. -/
theorem exists_isHex_prefix_iff {x d : Char} {cs : List Char} :
    (∃ v, v <+: '0' :: x :: d :: cs ∧ IsHex v) ↔
      (x = 'x' ∨ x = 'X') ∧ Text.isHexDigit d = true := by
  constructor
  · rintro ⟨_, hv, @⟨y, ds, hy, hds⟩⟩
    simp only [List.cons_prefix_cons] at hv
    obtain ⟨-, rfl, hv⟩ := hv
    cases ds with
    | nil => exact absurd rfl hds.ne_nil
    | cons e ds =>
      obtain ⟨rfl, -⟩ := List.cons_prefix_cons.mp hv
      exact ⟨hy, hds.all _ List.mem_cons_self⟩
  · rintro ⟨hx, hd⟩
    exact ⟨['0', x, d], by simp, .mk hx ⟨by simp, by simpa using hd⟩⟩

/-- Where a digit stands, `digits` cuts off a numeral. -/
theorem numeral_digits {c : Char} (hc : c.isDigit = true) (cs : List Char) :
    Numeral (digits (c :: cs)).1 (digits (c :: cs)).2 := by
  unfold digits
  split
  · next x d cs heq =>
    obtain ⟨rfl, rfl⟩ := List.cons.inj heq
    split
    · next hhex =>
      simp only [Bool.and_eq_true, Bool.or_eq_true, decide_eq_true_eq] at hhex
      exact .hex (longest_isHex_iff.mpr ⟨hhex.1, longest_takeWhile hhex.2 cs⟩)
    · next hhex =>
      simp only [Bool.and_eq_true, Bool.or_eq_true, decide_eq_true_eq] at hhex
      refine .decimal ?_ (longest_takeWhile hc _)
      intro v hv hvhex
      rw [List.takeWhile_append_dropWhile] at hv
      exact hhex (exists_isHex_prefix_iff.mp ⟨v, hv, hvhex⟩)
  · next hshort =>
    refine .decimal ?_ (longest_takeWhile hc _)
    rintro _ hv ⟨-, hds⟩
    rw [List.takeWhile_append_dropWhile] at hv
    obtain ⟨u, hu⟩ := hv
    obtain ⟨d, ds, rfl⟩ := List.exists_cons_of_ne_nil hds.ne_nil
    exact hshort _ _ _ hu.symm

theorem Numeral.exists_digit {ds rest : List Char} (h : Numeral ds rest) :
    ∃ c cs, ds = c :: cs ∧ c.isDigit = true := by
  rcases h with ⟨⟨⟨-, -⟩, -⟩⟩ | ⟨-, ⟨hrun, -⟩⟩
  · exact ⟨_, _, rfl, rfl⟩
  · obtain ⟨c, cs, rfl⟩ := List.exists_cons_of_ne_nil hrun.ne_nil
    exact ⟨c, cs, rfl, hrun.all c List.mem_cons_self⟩

/-- A numeral is cut off. -/
theorem digits_of_numeral {ds rest : List Char} (h : Numeral ds rest) :
    digits (ds ++ rest) = (ds, rest) := by
  -- `digits` cuts off a numeral too, and only one form applies
  obtain ⟨c, cs, rfl, hc⟩ := h.exists_digit
  have h' := numeral_digits hc (cs ++ rest)
  have happ := digits_append (c :: cs ++ rest)
  rw [← List.cons_append] at h'
  generalize digits (c :: cs ++ rest) = out at h' happ
  suffices hpair : out.1 = c :: cs ∧ out.2 = rest from Prod.ext hpair.1 hpair.2
  rcases h with hds | ⟨hhex, hds⟩ <;> rcases h' with hds' | ⟨hhex', hds'⟩
  · exact hds'.unique hds happ
  · exact absurd hds.mem (hhex' _ (happ ▸ List.prefix_append _ _))
  · exact absurd hds'.mem (hhex _ (happ ▸ List.prefix_append _ _))
  · exact hds'.unique hds happ

/-! ## §4 Which scanner is used -/

theorem punctuation?_eq_some_iff {c : Char} {kind : TokenKind} :
    punctuation? c = some kind ↔ (c, kind) ∈ marks := by
  constructor
  · intro h
    unfold punctuation? at h
    split at h <;> cases h <;> simp [marks]
  · intro h
    simp only [marks, List.mem_cons, Prod.mk.injEq, List.not_mem_nil, or_false] at h
    rcases h with ⟨rfl, rfl⟩ | ⟨rfl, rfl⟩ | ⟨rfl, rfl⟩ | ⟨rfl, rfl⟩ | ⟨rfl, rfl⟩ | ⟨rfl, rfl⟩ |
      ⟨rfl, rfl⟩ | ⟨rfl, rfl⟩ | ⟨rfl, rfl⟩ | ⟨rfl, rfl⟩ | ⟨rfl, rfl⟩ | ⟨rfl, rfl⟩ <;> rfl

theorem punctuation?_eq_none_iff {c : Char} : punctuation? c = none ↔ c ∉ marks.map (·.1) := by
  constructor
  · intro h hc
    obtain ⟨⟨c', kind⟩, hmem, rfl⟩ := List.mem_map.mp hc
    rw [punctuation?_eq_some_iff.mpr hmem] at h
    cases h
  · intro h
    cases hkind : punctuation? c with
    | none => rfl
    | some kind =>
      exact absurd (List.mem_map.mpr ⟨(c, kind), punctuation?_eq_some_iff.mp hkind, rfl⟩) h

/-- The characters that have a scanner of their own, or are a token by themselves. -/
def special : List Char := ['"', '/', '-'] ++ marks.map (·.1)

theorem not_mem_special_of_isIdentStart {c : Char} (h : isIdentStart c = true) :
    c ∉ special := by
  have hspecial : special.all (fun d => !isIdentStart d) = true := by decide
  intro hmem
  have := List.all_eq_true.mp hspecial c hmem
  rw [h] at this
  cases this

theorem not_mem_special_of_isDigit {c : Char} (h : c.isDigit = true) : c ∉ special := by
  have hspecial : special.all (fun d => !d.isDigit) = true := by decide
  intro hmem
  have := List.all_eq_true.mp hspecial c hmem
  rw [h] at this
  cases this

/-- No digit starts a name. -/
theorem isIdentStart_of_isDigit {c : Char} (h : c.isDigit = true) : isIdentStart c = false := by
  have hrange : 48 ≤ c.toNat ∧ c.toNat ≤ 57 := by
    simp only [Char.isDigit, Bool.and_eq_true, decide_eq_true_eq, ge_iff_le,
      UInt32.le_iff_toNat_le] at h
    exact h
  -- letters are looked up in a table, so each digit is tried
  have hten : c.toNat = 48 ∨ c.toNat = 49 ∨ c.toNat = 50 ∨ c.toNat = 51 ∨ c.toNat = 52 ∨
      c.toNat = 53 ∨ c.toNat = 54 ∨ c.toNat = 55 ∨ c.toNat = 56 ∨ c.toNat = 57 := by
    omega
  rw [← Char.ofNat_toNat c]
  rcases hten with h | h | h | h | h | h | h | h | h | h <;> rw [h] <;> rfl

theorem scan_mark {c : Char} {kind : TokenKind} (h : (c, kind) ∈ marks) (cs : List Char) :
    scan (c :: cs) = .ok ⟨kind, [c], cs⟩ := by
  simp only [scan, punctuation?_eq_some_iff.mpr h]

theorem scan_quote (cs : List Char) : scan ('"' :: cs) = scanString cs := rfl

theorem scan_slash (cs : List Char) : scan ('/' :: cs) = scanComment cs := rfl

theorem scan_digit {c : Char} (h : c.isDigit = true) (cs : List Char) :
    scan (c :: cs) = scanInteger [] (c :: cs) := by
  have hspecial := not_mem_special_of_isDigit h
  simp only [special, List.mem_append, List.mem_cons, List.not_mem_nil, or_false, not_or]
    at hspecial
  obtain ⟨⟨hquote, hslash, -⟩, hmarks⟩ := hspecial
  simp only [scan, punctuation?_eq_none_iff.mpr hmarks, if_neg hquote, if_neg hslash, if_pos h]

theorem scan_minus {d : Char} (h : d.isDigit = true) (cs : List Char) :
    scan ('-' :: d :: cs) = scanInteger ['-'] (d :: cs) := by
  have hminus : punctuation? '-' = none := rfl
  simp [scan, hminus, h]

theorem scan_word {c : Char} (h : isIdentStart c = true) (cs : List Char) :
    scan (c :: cs) = .ok (scanWord (c :: cs)) := by
  have hspecial := not_mem_special_of_isIdentStart h
  simp only [special, List.mem_append, List.mem_cons, List.not_mem_nil, or_false, not_or]
    at hspecial
  obtain ⟨⟨hquote, hslash, hminus⟩, hmarks⟩ := hspecial
  have hdigit : c.isDigit = false := by
    cases hd : c.isDigit with
    | false => rfl
    | true =>
      rw [isIdentStart_of_isDigit hd] at h
      cases h
  simp only [scan, punctuation?_eq_none_iff.mpr hmarks, if_neg hquote, if_neg hslash, hdigit,
    hminus, decide_false, Bool.false_and, Bool.false_eq_true, if_false, if_pos h]

theorem scan_unrecognized {c : Char} {cs : List Char} (h : ¬ StartsToken c cs) :
    scan (c :: cs) = .error (.unrecognized c) := by
  simp only [StartsToken, not_or] at h
  obtain ⟨hmarks, hquote, hslash, hstart, hdigit, hminus⟩ := h
  have hany : ¬ (decide (c = '-') && cs.head?.any Char.isDigit) = true := by
    rw [Bool.and_eq_true, decide_eq_true_eq, Option.any_eq_true]
    exact hminus
  simp only [scan, punctuation?_eq_none_iff.mpr hmarks, if_neg hquote, if_neg hslash,
    if_neg hdigit, if_neg hany, if_neg hstart]

/-! ## §5 Scanners and items -/

theorem scanString_inside_iff {cs : List Char} :
    (∀ c ∈ cs, scanString.inside c = true) ↔ ∀ c ∈ cs, c ≠ '"' ∧ c ≠ '\n' := by
  simp [scanString.inside]

theorem item_scanString (cs : List Char) : Item ('"' :: cs) (scanString cs) := by
  have hinner := scanString_inside_iff.mp
    (List.all_eq_true.mp (List.all_takeWhile (l := cs) (p := scanString.inside)))
  have happ := List.takeWhile_append_dropWhile (p := scanString.inside) (l := cs)
  have hend := head?_dropWhile scanString.inside cs
  unfold scanString
  split
  · next rest hrest =>
    rw [hrest] at happ
    conv => arg 1; rw [← happ]
    exact .string hinner
  · next hnone =>
    conv => arg 1; rw [← happ]
    refine .unterminated hinner ?_
    intro c hc
    by_cases hquote : c = '"'
    · obtain ⟨rest, hrest⟩ := List.head?_eq_some_iff.mp hc
      exact absurd (hquote ▸ hrest) (hnone rest)
    · simpa [scanString.inside, hquote] using hend c hc

theorem not_isLineEnd_iff {c : Char} : (!isLineEnd c) = true ↔ c ≠ '\n' ∧ c ≠ '\r' := by
  simp [isLineEnd]

theorem isLineEnd_iff {c : Char} : (!isLineEnd c) = false ↔ c = '\n' ∨ c = '\r' := by
  rw [isLineEnd, Bool.not_eq_false', Bool.or_eq_true, decide_eq_true_eq, decide_eq_true_eq]

theorem item_scanComment (cs : List Char) : Item ('/' :: cs) (scanComment cs) := by
  unfold scanComment
  split
  · next cs =>
    have hinner := List.all_eq_true.mp
      (List.all_takeWhile (l := cs) (p := fun c => !isLineEnd c))
    have hend := head?_dropWhile (fun c => !isLineEnd c) cs
    conv => arg 1; rw [← List.takeWhile_append_dropWhile (p := fun c => !isLineEnd c) (l := cs)]
    exact .comment (fun c hc => not_isLineEnd_iff.mp (hinner c hc))
      (fun c hc => isLineEnd_iff.mp (hend c hc))
  · next hslash =>
    refine .loneSlash ?_
    intro hhead
    obtain ⟨rest, hrest⟩ := List.head?_eq_some_iff.mp hhead
    exact hslash rest hrest

theorem item_scanInteger {sign : List Char} (hsign : IsSign sign) {c : Char}
    (hc : c.isDigit = true) (cs : List Char) :
    Item (sign ++ c :: cs) (scanInteger sign (c :: cs)) := by
  have hnumeral := numeral_digits hc cs
  have happ := digits_append (c :: cs)
  unfold scanInteger
  split
  · next ds hds =>
    rw [hds] at hnumeral happ
    rw [← happ, ← List.append_assoc]
    exact .integer hsign hnumeral (by simp)
  · next ds d rest hds =>
    rw [hds] at hnumeral happ
    rw [← happ, ← List.append_assoc]
    split
    · next hd => exact .integerTail hsign hnumeral hd
    · next hd => exact .integer hsign hnumeral (by simpa using hd)

theorem item_scanWord {c : Char} (hc : isIdentStart c = true) (cs : List Char) :
    Item (c :: cs) (.ok (scanWord (c :: cs))) := by
  have hname := (isName_append_spanWord (c :: cs)).2 c rfl hc
  have hspan := spanWord_append_of_isName hname (spanWord (c :: cs)).2
  rw [spanWord_append] at hspan
  have hends : WordEnds (spanWord (c :: cs)).2 :=
    List.append_right_eq_self.mp (congrArg Prod.fst hspan).symm
  conv => arg 1; rw [← spanWord_append (c :: cs)]
  exact .name (longest_isName_iff.mpr ⟨hname, hends⟩) (nameKind_wordKind _)

/-- What is scanned is an item. -/
theorem item_scan (c : Char) (cs : List Char) : Item (c :: cs) (scan (c :: cs)) := by
  by_cases hstarts : StartsToken c cs
  · rcases hstarts with hmark | rfl | rfl | hstart | hdigit | ⟨rfl, d, hd, hdigit⟩
    · obtain ⟨⟨c, kind⟩, hmem, rfl⟩ := List.mem_map.mp hmark
      rw [scan_mark hmem]
      exact .mark hmem
    · exact item_scanString cs
    · exact item_scanComment cs
    · rw [scan_word hstart]
      exact item_scanWord hstart cs
    · rw [scan_digit hdigit]
      exact item_scanInteger (.inl rfl) hdigit cs
    · obtain ⟨cs, rfl⟩ := List.head?_eq_some_iff.mp hd
      rw [scan_minus hdigit]
      exact item_scanInteger (.inr rfl) hdigit cs
  · rw [scan_unrecognized hstarts]
    exact .unrecognized hstarts

theorem scan_sign {sign : List Char} (hsign : IsSign sign) {ds rest : List Char}
    (hds : Numeral ds rest) : scan (sign ++ ds ++ rest) = scanInteger sign (ds ++ rest) := by
  obtain ⟨c, cs, rfl, hc⟩ := hds.exists_digit
  rcases hsign with rfl | rfl
  · exact scan_digit hc _
  · exact scan_minus hc _

/-- An item is what is scanned. -/
theorem scan_of_item {cs : List Char} {out : Except LexFault Lexeme} (h : Item cs out) :
    scan cs = out := by
  cases h with
  | mark hmark => exact scan_mark hmark _
  | @name w rest kind hw hkind =>
    obtain ⟨hname, hends⟩ := longest_isName_iff.mp hw
    have hspan := spanWord_append_of_isName hname rest
    obtain ⟨c, cs, rfl, hc⟩ := hname.exists_start
    rw [List.cons_append] at hspan ⊢
    rw [scan_word hc, scanWord, hspan, hends, List.append_nil]
    have hrest := spanWord_append rest
    rw [hends, List.nil_append] at hrest
    simp only [hkind.unique, hrest]
  | @integer sign ds rest hsign hds hend =>
    rw [scan_sign hsign hds, scanInteger, digits_of_numeral hds]
    cases rest with
    | nil => rfl
    | cons c rest => simp [hend c rfl]
  | integerTail hsign hds hc =>
    rw [scan_sign hsign hds, scanInteger, digits_of_numeral hds]
    simp [hc]
  | @string inner rest hinner =>
    obtain ⟨htake, hdrop⟩ := takeWhile_append_of_ends ('"' :: rest)
      (scanString_inside_iff.mpr hinner) (by simp [scanString.inside])
    rw [scan_quote, scanString, htake, hdrop]
    rfl
  | @unterminated inner rest hinner hend =>
    obtain ⟨-, hdrop⟩ := takeWhile_append_of_ends rest
      (scanString_inside_iff.mpr hinner) (by
        intro c hc
        rw [hend c hc]
        rfl)
    rw [scan_quote, scanString, hdrop]
    split
    · exact absurd (hend '"' rfl) (by decide)
    · rfl
  | @comment inner rest hinner hend =>
    obtain ⟨htake, hdrop⟩ := takeWhile_append_of_ends (p := fun c => !isLineEnd c) rest
      (fun c hc => not_isLineEnd_iff.mpr (hinner c hc))
      (fun c hc => isLineEnd_iff.mpr (hend c hc))
    rw [scan_slash, scanComment, htake, hdrop]
  | @loneSlash rest hrest =>
    rw [scan_slash]
    unfold scanComment
    split
    · exact absurd rfl hrest
    · rfl
  | unrecognized hc => exact scan_unrecognized hc

/-- At the front of a text that is not empty, the scanner gives the item that stands there. -/
theorem scan_eq_iff {c : Char} {cs : List Char} {out : Except LexFault Lexeme} :
    scan (c :: cs) = out ↔ Item (c :: cs) out := by
  constructor
  · rintro rfl
    exact item_scan c cs
  · exact scan_of_item

/-- The scanner gives no end of input before the end, and no error token. -/
theorem kind_scan_cons {c : Char} {cs : List Char} {l : Lexeme} (h : scan (c :: cs) = .ok l) :
    l.kind.isLast = false := by
  have hitem := scan_eq_iff.mp h
  generalize c :: cs = text at hitem
  cases hitem with
  | @mark _ kind _ hmark =>
    have hmarks : ∀ p ∈ marks, p.2.isLast = false := by decide
    exact hmarks _ hmark
  | name _ hkind => cases hkind <;> rfl
  | integer | string | comment => rfl

/-- A token of a kind that has only one spelling is spelled so. -/
theorem text_of_spelling {c : Char} {cs : List Char} {l : Lexeme} (h : scan (c :: cs) = .ok l)
    {s : String} (hs : l.kind.spelling? = some s) : String.ofList l.text = s := by
  have hitem := scan_eq_iff.mp h
  generalize c :: cs = text at hitem
  cases hitem with
  | @mark c kind _ hmark =>
    have hmarks : ∀ mark ∈ marks, mark.2.spelling? = some (String.singleton mark.1) := by decide
    exact Option.some.inj ((hmarks _ hmark).symm.trans hs)
  | name _ hname =>
    cases hname with
    | keyword _ htext => exact ofList_eq_iff.mpr (htext.trans (congrArg _ (Option.some.inj hs)))
    | qualified | boolean | identifier => cases hs
  | integer | string | comment => cases hs

/-! ## §6 Lexemes before breaks -/

/-- Characters that no name and no number has: the blanks, and the marks that end declarations. -/
def breaks : List Char := [' ', '\t', '\n', '\r', ';', '}']

/-- Nothing, or a character that breaks words and more. -/
def StartsBreak (tail : List Char) : Prop := ∀ c ∈ tail.head?, c ∈ breaks

theorem mem_breaks_of_isBlank {c : Char} (h : isBlank c = true) : c ∈ breaks := by
  have hblank : c = ' ' ∨ c = '\t' ∨ c = '\n' ∨ c = '\r' := by
    simpa [isBlank, or_assoc] using h
  rcases hblank with rfl | rfl | rfl | rfl <;> decide

theorem isBlank_of_notMem_breaks {c : Char} (h : c ∉ breaks) : isBlank c = false := by
  rw [← Bool.not_eq_true]
  exact fun hblank => h (mem_breaks_of_isBlank hblank)

theorem prefix_of_append_tail {v u tail : List Char} (h : v <+: u ++ tail)
    (hv : ∀ c ∈ tail.head?, c ∉ v) : v <+: u := by
  rcases List.prefix_or_prefix_of_prefix h (List.prefix_append u _) with h' | ⟨t, rfl⟩
  · exact h'
  · cases t with
    | nil => simp
    | cons c t =>
      -- `v` would go on with the first character of `tail`
      rw [List.prefix_append_right_inj] at h
      obtain ⟨s, rfl⟩ := h
      exact absurd (by simp) (hv c rfl)

theorem StartsBreak.notMem {tail v : List Char} (h : StartsBreak tail)
    (hv : ∀ c ∈ v, c ∉ breaks) : ∀ c ∈ tail.head?, c ∉ v :=
  fun c hc hmem => hv c hmem (h c hc)

/-- What is the longest stays so when a text is cut off behind it by a break, if the language has
none. -/
theorem Longest.before_break {L : List Char → Prop} (hL : ∀ v, L v → ∀ c ∈ v, c ∉ breaks)
    {u sp rest tail : List Char} (h : Longest L u (sp ++ rest)) (htail : StartsBreak tail) :
    Longest L u (sp ++ tail) := by
  refine ⟨h.mem, ?_⟩
  intro v hv hmem
  rw [← List.append_assoc] at hv
  have hstart := prefix_of_append_tail hv (htail.notMem (hL v hmem))
  have hstart := hstart.trans (List.prefix_append _ rest)
  rw [List.append_assoc] at hstart
  exact h.length_le v hstart hmem

theorem mem_head?_append_tail {sp tail : List Char} {c : Char} (h : c ∈ (sp ++ tail).head?)
    (rest : List Char) : (sp = [] ∧ c ∈ tail.head?) ∨ c ∈ (sp ++ rest).head? := by
  cases sp with
  | nil => exact .inl ⟨rfl, h⟩
  | cons d sp => exact .inr h

/-- A test that no break passes finds none. -/
theorem notMem_breaks {p : Char → Bool} (hp : breaks.any p = false) {c : Char} (h : p c = true) :
    c ∉ breaks :=
  fun hc => List.any_eq_false.mp hp c hc h

theorem notMem_breaks_of_isIdentContinue {c : Char} (h : isIdentContinue c = true) : c ∉ breaks :=
  notMem_breaks (by decide) h

theorem IsName.notMem_breaks {w : List Char} (h : IsName w) : ∀ c ∈ w, c ∉ breaks := by
  induction h with
  | segment hs => exact fun c hc => notMem_breaks_of_isIdentContinue (hs.continue c hc)
  | qualify hs _ ih =>
    refine List.forall_mem_append.mpr ⟨?_, List.forall_mem_cons.mpr ⟨by decide, ih⟩⟩
    exact fun c hc => notMem_breaks_of_isIdentContinue (hs.continue c hc)

theorem IsRun.notMem_breaks {p : Char → Bool} (hp : breaks.any p = false) {w : List Char}
    (h : IsRun p w) : ∀ c ∈ w, c ∉ breaks :=
  fun c hc => ProtoSchema.notMem_breaks hp (h.all c hc)

theorem IsHex.notMem_breaks {w : List Char} (h : IsHex w) : ∀ c ∈ w, c ∉ breaks := by
  obtain ⟨hx, hds⟩ := h
  have := hds.notMem_breaks (by decide)
  rcases hx with rfl | rfl <;>
    exact List.forall_mem_cons.mpr ⟨by decide, List.forall_mem_cons.mpr ⟨by decide, this⟩⟩

theorem Numeral.before_break {ds sp rest tail : List Char} (h : Numeral ds (sp ++ rest))
    (htail : StartsBreak tail) : Numeral ds (sp ++ tail) := by
  rcases h with hds | ⟨hhex, hds⟩
  · exact .hex (hds.before_break (fun v hv => hv.notMem_breaks) htail)
  · refine .decimal ?_ (hds.before_break (fun v hv => hv.notMem_breaks (by decide)) htail)
    intro v hv hvhex
    rw [← List.append_assoc] at hv
    have hstart := prefix_of_append_tail hv (htail.notMem hvhex.notMem_breaks)
    refine hhex v ?_ hvhex
    rw [← List.append_assoc]
    exact hstart.trans (List.prefix_append _ _)

/-- A lexeme is scanned as well where a break cuts off what follows it.  A comment needs the end of
its line behind it. -/
theorem scan_before_break {c : Char} {cs sp rest tail : List Char} {l : Lexeme}
    (h : scan (c :: cs) = .ok l) (hrest : l.rest = sp ++ rest) (htail : StartsBreak tail)
    (hcomment : l.kind = .comment → sp = [] → ∀ d ∈ tail.head?, d = '\n' ∨ d = '\r') :
    scan (l.text ++ (sp ++ tail)) = .ok { l with rest := sp ++ tail } := by
  have hitem := scan_eq_iff.mp h
  generalize c :: cs = text at hitem
  apply scan_of_item
  cases hitem with
  | mark hmark => exact .mark hmark
  | name hw hkind =>
    dsimp only at hrest
    subst hrest
    exact .name (hw.before_break (fun v hv => hv.notMem_breaks) htail) hkind
  | integer hsign hds hend =>
    dsimp only at hrest
    subst hrest
    refine .integer hsign (hds.before_break htail) ?_
    intro d hd
    rcases mem_head?_append_tail hd rest with ⟨-, hd⟩ | hd
    · exact Bool.eq_false_iff.mpr fun hd' => notMem_breaks_of_isIdentContinue hd' (htail d hd)
    · exact hend d hd
  | @string inner _ hinner =>
    simpa using @Item.string inner (sp ++ tail) hinner
  | comment hinner hend =>
    dsimp only at hrest
    subst hrest
    refine .comment hinner ?_
    intro d hd
    rcases mem_head?_append_tail hd rest with ⟨hsp, hd⟩ | hd
    · exact hcomment rfl hsp d hd
    · exact hend d hd

theorem startsBreak_cons {c : Char} (hc : c ∈ breaks) (w : List Char) : StartsBreak (c :: w) := by
  rintro _ ⟨⟩
  exact hc

theorem mem_breaks_newline : '\n' ∈ breaks := by
  decide

/-- What may stand in the place of `rest`: nothing, a line feed, or the break that stands there. -/
def Replaces (rest tail : List Char) : Prop :=
  ∀ d ∈ tail.head?, d = '\n' ∨ (d ∈ breaks ∧ d ∈ rest.head?)

theorem replaces_newline (rest w : List Char) : Replaces rest ('\n' :: w) := by
  rintro _ ⟨⟩
  exact .inl rfl

theorem Replaces.startsBreak {rest tail : List Char} (h : Replaces rest tail) :
    StartsBreak tail := by
  intro d hd
  rcases h d hd with rfl | ⟨hbreak, -⟩
  · exact mem_breaks_newline
  · exact hbreak

/-- Behind a comment the line ends, or the text. -/
theorem lineEnd_of_scan_comment {c : Char} {cs : List Char} {l : Lexeme}
    (h : scan (c :: cs) = .ok l) (hkind : l.kind = .comment) :
    ∀ d ∈ l.rest.head?, d = '\n' ∨ d = '\r' := by
  have hitem := scan_eq_iff.mp h
  generalize c :: cs = text at hitem
  cases hitem with
  | comment _ hend => exact hend
  | @mark _ kind _ hmark =>
    have hmarks : ∀ p ∈ marks, p.2 ≠ .comment := by decide
    exact absurd hkind (hmarks _ hmark)
  | name _ hname => cases hname <;> cases hkind
  | integer | string => cases hkind

theorem scan_replace {c : Char} {cs sp rest tail : List Char} {l : Lexeme}
    (h : scan (c :: cs) = .ok l) (hrest : l.rest = sp ++ rest) (htail : Replaces rest tail) :
    scan (l.text ++ (sp ++ tail)) = .ok { l with rest := sp ++ tail } := by
  refine scan_before_break h hrest htail.startsBreak ?_
  rintro hkind rfl d hd
  rcases htail d hd with rfl | ⟨-, hd⟩
  · exact .inl rfl
  · exact lineEnd_of_scan_comment h hkind d (hrest ▸ hd)

theorem scan_before_newline {c : Char} {cs sp rest : List Char} {l : Lexeme}
    (h : scan (c :: cs) = .ok l) (hrest : l.rest = sp ++ rest) (w : List Char) :
    scan (l.text ++ (sp ++ '\n' :: w)) = .ok { l with rest := sp ++ '\n' :: w } :=
  scan_replace h hrest (replaces_newline rest w)

/-- Where no lexeme stands, a line feed behind the text makes none. -/
theorem scan_fault_before_newline {c : Char} {cs : List Char} {fault : LexFault}
    (h : scan (c :: cs) = .error fault) (w : List Char) :
    scan (c :: cs ++ '\n' :: w) = .error fault := by
  have hhead : ∀ {rest : List Char} {d : Char}, d ∈ (rest ++ '\n' :: w).head? →
      d = '\n' ∨ d ∈ rest.head? := by
    intro rest d hd
    rcases mem_head?_append_tail hd [] with ⟨-, ⟨⟩⟩ | hd
    · exact .inl rfl
    · exact .inr (by simpa using hd)
  have hitem := scan_eq_iff.mp h
  generalize c :: cs = text at hitem ⊢
  apply scan_of_item
  cases hitem with
  | @integerTail sign ds rest d hsign hds hd =>
    have hds : Numeral ds ((d :: rest) ++ []) := by rwa [List.append_nil]
    have hline := hds.before_break (startsBreak_cons mem_breaks_newline w)
    have hitem := Item.integerTail hsign hline hd
    simpa using hitem
  | @unterminated inner rest hinner hend =>
    have hitem := @Item.unterminated inner (rest ++ '\n' :: w) hinner fun d hd =>
      (hhead hd).elim id (hend d)
    simpa using hitem
  | @loneSlash rest hrest =>
    refine .loneSlash ?_
    intro hslash
    rcases hhead (Option.mem_def.mpr hslash) with h | h
    · cases h
    · exact hrest h
  | @unrecognized d rest hd =>
    refine .unrecognized ?_
    rintro (h | h | h | h | h | ⟨h, e, he, hdigit⟩)
    · exact hd (.inl h)
    · exact hd (.inr (.inl h))
    · exact hd (.inr (.inr (.inl h)))
    · exact hd (.inr (.inr (.inr (.inl h))))
    · exact hd (.inr (.inr (.inr (.inr (.inl h)))))
    · -- a minus before the line feed starts no integer
      rcases hhead he with rfl | he
      · cases hdigit
      · exact hd (.inr (.inr (.inr (.inr (.inr ⟨h, e, he, hdigit⟩)))))

end ProtoSchema
