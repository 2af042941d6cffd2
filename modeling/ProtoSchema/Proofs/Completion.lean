import ProtoSchema.Proofs.Balance
import ProtoSchema.Proofs.Repair

/-!
# Files that were cut off

The parser of files recovers, and the tokens that complete what stands before a fault pass the
brackets that are open there (`guided_file`).  A declaration that is no package is balanced once it
is complete, so whatever completes it closes just what it has opened; a package is completed by a
semicolon.

* §1 closers that pass, §2 declarations, §3 files.
-/

namespace ProtoSchema

open ProtoSchema.Parser ProtoSchema.Grammar

/-! ## §1 Closers that pass -/

/-- Closers may be put behind tokens if they pass the brackets that these leave open. -/
def Repair.passing : Repair where
  allows ts cs := (∀ c ∈ cs, c ∈ closers) ∧ ∀ b b', Passes b ts b' → ∃ b'', Passes b' cs b''
  nil := ⟨by simp, fun _ b' _ => ⟨b', .nil⟩⟩
  shift us ts cs h := by
    refine ⟨h.1, fun b b' hpass => ?_⟩
    obtain ⟨b₁, -, hts⟩ := passes_append.mp hpass
    exact h.2 b₁ b' hts
  append ts cs ds h h' := by
    refine ⟨List.forall_mem_append.mpr ⟨h.1, h'.1⟩, fun b b' hpass => ?_⟩
    obtain ⟨b₁, hcs⟩ := h.2 b b' hpass
    obtain ⟨b₂, hds⟩ := h'.2 b₁ b₁ .nil
    exact ⟨b₂, passes_append.mpr ⟨b₁, hcs, hds⟩⟩

theorem passing_allows_singleton {c : Token} (hc : c ∈ closers) (hkind : c.kind.isBracket = false) :
    Repair.passing.allows [] [c] := by
  refine ⟨by simpa using hc, fun b b' _ => ?_⟩
  exact ⟨b', .cons (pass_of_isBracket hkind b') .nil⟩

/-- Closers pass if what they complete is balanced: from `b`, both together lead back to `b`. -/
theorem passing_allows_of_balanced {ts cs : List Token} (hcs : ∀ c ∈ cs, c ∈ closers)
    (h : Balanced (ts ++ cs)) : Repair.passing.allows ts cs := by
  refine ⟨hcs, fun b b' hpass => ?_⟩
  obtain ⟨b₁, hts, hclosing⟩ := passes_append.mp (h b)
  obtain rfl := hpass.unique hts
  exact ⟨b, hclosing⟩

/-- If what a parser reads is balanced, the closers that complete it pass. -/
theorem recovers_passing {α : Type} {p : Parser α} {o : Nat} {ts : List Token}
    (hp : Recovers Repair.plain [] o p ts) (hbalanced : ∀ used a, p.Reads used a → Balanced used) :
    Recovers Repair.passing [] o p ts := by
  intro hts f hf
  rcases hp hts f hf with hzero | hoffset | ⟨before, t, after, cs, a, hsplit, hoffset, hcs, ha⟩
  · exact .inl hzero
  · exact .inr (.inl hoffset)
  · refine .inr (.inr ⟨before, t, after, cs, a, hsplit, hoffset, ?_, ha⟩)
    exact passing_allows_of_balanced hcs (by simpa using hbalanced _ a ha)

/-! ## §2 Declarations -/

theorem isBracket_of_starts {c : Construct} {kind : TokenKind} (h : kind ∈ c.starts) :
    kind.isBracket = false := by
  cases c <;> simp only [Construct.starts, List.mem_cons, List.not_mem_nil, or_false] at h
  case plainField => rcases h with rfl | rfl <;> rfl
  all_goals subst h; rfl

theorem Balanced.of_cons {t : Token} {ts : List Token} (h : Balanced (t :: ts))
    (ht : t.kind.isBracket = false) : Balanced ts := by
  intro b
  cases h b with
  | cons ht' hts =>
    obtain rfl := Except.ok.inj ((pass_of_isBracket ht b).symm.trans ht')
    exact hts

/-- What is read of a construct is balanced, but for packages. -/
theorem balanced_of_reads {c : Construct} (hc : c ≠ .package) {limit room : Nat} {t : Token}
    (hstarts : t.kind ∈ c.starts) {used : List Token} {n : Node}
    (h : (c.parser (scope limit room) t).Reads used n) : Balanced used := by
  refine Balanced.of_cons ?_ (isBracket_of_starts hstarts)
  cases hleaf : c.isLeaf with
  | true => exact (leaf_of_reads hleaf hstarts h).balanced hc
  | false =>
    cases c <;> simp only [Construct.isLeaf, reduceCtorEq] at hleaf
    case service =>
      obtain ⟨name, opening, inner, closing, nodes, rfl, hname, hopening, hclosing, hinner, rfl⟩ :=
        (reads_service (scope limit room) t).mp h
      have hbraced : Braced .serviceKw t name opening closing :=
        ⟨by simpa [Construct.starts] using hstarts, hname, hopening, hclosing⟩
      exact hbraced.balanced ((members_of_series hinner).balanced (by simp))
    case scope kind =>
      cases room with
      | zero => exact absurd h (not_reads_scope_zero limit kind)
      | succ room =>
        obtain ⟨name, opening, inner, closing, nodes, rfl, hname, hopening, hclosing, hinner,
          rfl⟩ := (reads_scope t).mp h
        have hbraced : Braced kind.keyword t name opening closing :=
          ⟨by simpa [Construct.starts] using hstarts, hname, hopening, hclosing⟩
        exact hbraced.balanced ((members_of_series hinner).balanced (by simp))

theorem recovers_declaration {c : Construct} {limit : Nat} {t : Token}
    (hstarts : t.kind ∈ c.starts) (ts : List Token) :
    Recovers Repair.passing [] t.offset (c.parser (scope limit limit) t) ts := by
  by_cases hc : c = .package
  · subst hc
    obtain ⟨semi, hsemi, hkind⟩ := exists_closer (show .semicolon ∈ _ by decide)
    have hallows := passing_allows_singleton hsemi (by rw [hkind]; rfl)
    exact (guided_packageDecl hallows hkind t t.offset).recovers ts
  · refine recovers_passing (recovers_construct (recovers_scope limit limit) c t ts) ?_
    intro used n hreads
    exact balanced_of_reads hc hstarts hreads

/-! ## §3 Files -/

theorem guided_preambleToken_bind {β : Type} {ends : List Token} {accepts : Token → Bool}
    {c : Token} (hc : c ∈ closers) (hkind : c.kind.isBracket = false) (haccepts : accepts c = true)
    {f : Unit → Parser β} (hf : ∀ o, Guided Repair.passing ends o (f ())) (o : Nat) :
    Guided Repair.passing ends o (preambleToken accepts >>= f) := by
  have hord := closer_ordinary hc
  have hcompletable : Completable Repair.passing ends (preambleToken accepts >>= f) := by
    rw [preambleToken, bind_assoc]
    refine completable_next_bind (passing_allows_singleton hc hkind) hord.not_comment
      hord.not_error ?_
    rw [if_pos haccepts, Parser.pure_bind]
    exact (hf 0).completable
  refine ⟨hcompletable, fun ts => ?_⟩
  rw [preambleToken, bind_assoc] at hcompletable ⊢
  refine recovers_next_bind hcompletable fun t rest _ => ?_
  split
  · rw [Parser.pure_bind]
    exact (hf t.offset).recovers rest
  · exact recovers_bind (recovers_fail rfl rest) (fun _ _ _ _ h => absurd h not_reads_fail)
      (fun _ _ _ _ h => absurd h not_reads_fail)

/-- Writing a record reads nothing. -/
theorem reads_record_bind {β : Type} (r : Record) (b : β) :
    ((record r : Parser Unit) >>= fun _ => pure b).Reads [] b :=
  reads_bind.mpr ⟨[], [], (), rfl, reads_record.mpr rfl, reads_pure.mpr ⟨rfl, rfl⟩⟩

/-- The end of input, wherever it is. -/
def endToken : Token := ⟨.endOfInput, 0, ""⟩

/-- A file can be completed wherever it fails, by closers and the end of input. -/
theorem guided_file (limit o : Nat) : Guided Repair.passing [endToken] o (file limit) := by
  have hmembers : ∀ o, Guided Repair.passing [endToken] o
      (members endToken.kind .declaration fun t => (declaration limit t).map reported) := by
    refine guided_members (.inl rfl) (by decide) (by decide) ?_ ?_
    · intro t ht
      rw [declaration_eq, member_eq_none (.inr ht)]
      rfl
    · intro t p ts hp
      rw [declaration_eq] at hp
      obtain ⟨q, hq, rfl⟩ := Option.map_eq_some_iff.mp hp
      obtain ⟨c, -, hstarts, rfl⟩ := exists_construct_of_member hq
      exact recovers_bind_quiet (recovers_declaration hstarts ts) fun n =>
        ⟨n, reads_record_bind _ n⟩
  rw [file]
  simp only [preamble, bind_assoc]
  refine guided_preambleToken_bind (c := ⟨.keyword .syntaxKw, 0, "syntax"⟩) (by decide) rfl rfl ?_ o
  refine guided_preambleToken_bind (c := ⟨.equals, 0, "="⟩) (by decide) rfl rfl ?_
  refine guided_preambleToken_bind (c := ⟨.stringLit, 0, "\"proto3\""⟩) (by decide) rfl rfl ?_
  refine guided_preambleToken_bind (c := ⟨.semicolon, 0, ";"⟩) (by decide) rfl rfl ?_
  intro o
  exact guided_bind_quiet (hmembers o) fun _ => ⟨_, reads_record_bind _ _⟩

end ProtoSchema
