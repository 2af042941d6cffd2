import Mathlib.Logic.Function.Basic
import ProtoSchema.Lexer

/-!
# Lexers are lists of tokens

A lexer that is pulled from behaves as the list of the tokens that it has left: a use of it gives
what the same use of the list gives, takes the same tokens off, and leaves a lexer with the tokens
that the list is left with (`Use.map_onLexer`).  This holds for lexers that are used in turns, in
any order, since a use concerns one of them (`lexers_refine_lists`).

* §1 uses of a lexer and of a list, §2 a use of a lexer is that of its list;
* §3 families used in turns, and one member alone; §4 lexers in turns.
-/

namespace ProtoSchema

/-! ## §1 Uses -/

inductive Use where
  | next
  | nth (n : Nat)
  | find (kind : TokenKind)
  | count
  deriving DecidableEq, Repr

inductive Answer where
  | token (t : Option Token)
  | number (n : Nat)
  deriving DecidableEq, Repr

/-- What a use comes to: its answer, the tokens that it takes off, and the state that it leaves. -/
structure Effect (σ : Type) where
  answer : Answer
  taken : List Token
  state : σ
  deriving DecidableEq, Repr

variable {σ τ ι : Type}

def Effect.map (f : σ → τ) (e : Effect σ) : Effect τ := ⟨e.answer, e.taken, f e.state⟩

/-- The effect of a pull whose value answers as `f` says. -/
def Pull.effect {α : Type} (f : α → Answer) (p : Pull α) : Effect Lexer :=
  ⟨f p.value, p.pulled, p.lexer⟩

namespace Use

def onLexer (l : Lexer) : Use → Effect Lexer
  | next => l.next.effect .token
  | nth n => (l.nth n).effect .token
  | find kind => (l.find kind).effect .token
  | count => l.count.effect .number

/-- The uses of a list: its head; its head when `n` tokens have been dropped; its head when all up
to the first token of a kind have been dropped; its length, and then nothing is left. -/
def onList (ts : List Token) : Use → Effect (List Token)
  | next => ⟨.token ts.head?, ts.take 1, ts.tail⟩
  | nth n => ⟨.token (ts.drop n).head?, ts.take (n + 1), (ts.drop n).tail⟩
  | find kind =>
    let found := ts.dropWhile (·.kind ≠ kind)
    ⟨.token found.head?, ts.takeWhile (·.kind ≠ kind) ++ found.take 1, found.tail⟩
  | count => ⟨.number ts.length, ts, []⟩

/-- The answer of a lexer that has no tokens. -/
def nothing : Use → Answer
  | count => .number 0
  | _ => .token none

theorem onList_nil (use : Use) : use.onList [] = ⟨use.nothing, [], []⟩ := by
  cases use with
  | nth n => simp [onList, nothing]
  | _ => rfl

end Use

/-! ## §2 Lexers and their tokens -/

namespace Lexer

theorem effect_next (l : Lexer) :
    (l.next.effect .token).map tokens = Use.next.onList l.tokens := by
  unfold next
  cases hnext : l.next? with
  | none => simp [Pull.effect, Effect.map, Use.onList, tokens_of_next?_eq_none hnext]
  | some p =>
    obtain ⟨t, l'⟩ := p
    simp [Pull.effect, Effect.map, Use.onList, tokens_of_next?_eq_some hnext]

/-- By induction on the tokens that are dropped. -/
theorem effect_nth (n : Nat) (l : Lexer) :
    ((l.nth n).effect .token).map tokens = (Use.nth n).onList l.tokens := by
  induction n generalizing l with
  | zero => exact effect_next l
  | succ n ih =>
    unfold nth
    cases hnext : l.next? with
    | none => simp [Pull.effect, Effect.map, Use.onList, tokens_of_next?_eq_none hnext]
    | some p =>
      obtain ⟨t, l'⟩ := p
      have hmore := ih l'
      simp only [Pull.effect, Effect.map, Use.onList, Effect.mk.injEq] at hmore ⊢
      simp [tokens_of_next?_eq_some hnext, hmore]

/-- By induction on the pulls. -/
theorem effect_find (kind : TokenKind) (l : Lexer) :
    ((l.find kind).effect .token).map tokens = (Use.find kind).onList l.tokens := by
  induction hn : l.size using Nat.strongRecOn generalizing l with
  | ind n ih =>
    rw [find]
    split
    · next hnext =>
      simp [Pull.effect, Effect.map, Use.onList, tokens_of_next?_eq_none hnext]
    · next t l' hnext =>
      by_cases hkind : t.kind = kind
      · simp [Pull.effect, Effect.map, Use.onList, tokens_of_next?_eq_some hnext, hkind]
      · have hmore := ih l'.size (hn ▸ size_lt_of_next? hnext) l' rfl
        simp only [Pull.effect, Effect.map, Use.onList, Effect.mk.injEq] at hmore ⊢
        simp [tokens_of_next?_eq_some hnext, hkind, hmore]

/-- By induction on the pulls. -/
theorem effect_count (l : Lexer) :
    (l.count.effect .number).map tokens = Use.count.onList l.tokens := by
  induction hn : l.size using Nat.strongRecOn generalizing l with
  | ind n ih =>
    rw [count]
    split
    · next hnext =>
      simp [Pull.effect, Effect.map, Use.onList, tokens_of_next?_eq_none hnext]
    · next t l' hnext =>
      have hmore := ih l'.size (hn ▸ size_lt_of_next? hnext) l' rfl
      simp only [Pull.effect, Effect.map, Use.onList, Effect.mk.injEq, Answer.number.injEq]
        at hmore ⊢
      simp [tokens_of_next?_eq_some hnext, hmore]

end Lexer

/-- A use of a lexer is the use of the list of its tokens. -/
theorem Use.map_onLexer (l : Lexer) (use : Use) :
    (use.onLexer l).map Lexer.tokens = use.onList l.tokens := by
  cases use with
  | next => exact l.effect_next
  | nth n => exact l.effect_nth n
  | find kind => exact l.effect_find kind
  | count => exact l.effect_count

/-! ## §3 Families -/

/-- A use that was made, and what came of it. -/
structure Done where
  use : Use
  answer : Answer
  taken : List Token
  deriving DecidableEq, Repr

/-- Make a use after the other: what came of each, and the state after them. -/
def alone (step : σ → Use → Effect σ) (s : σ) : List Use → List Done × σ
  | [] => ([], s)
  | use :: uses =>
    let e := step s use
    let run := alone step e.state uses
    (⟨use, e.answer, e.taken⟩ :: run.1, run.2)

/-- Use the members of a family in turns: what came of each use, and the family after them. -/
def turns [DecidableEq ι] (step : σ → Use → Effect σ) (family : ι → σ) :
    List (ι × Use) → List (ι × Done) × (ι → σ)
  | [] => ([], family)
  | (i, use) :: steps =>
    let e := step (family i) use
    let run := turns step (Function.update family i e.state) steps
    ((i, ⟨use, e.answer, e.taken⟩) :: run.1, run.2)

/-- What belongs to the member `i`. -/
def ownOf {α : Type} [DecidableEq ι] (i : ι) (xs : List (ι × α)) : List α :=
  (xs.filter (·.1 = i)).map (·.2)

section

variable {α : Type} [DecidableEq ι] {step : σ → Use → Effect σ}

theorem ownOf_cons_self (i : ι) (a : α) (xs : List (ι × α)) :
    ownOf i ((i, a) :: xs) = a :: ownOf i xs := by
  simp [ownOf]

theorem ownOf_cons_of_ne {i j : ι} (h : j ≠ i) (a : α) (xs : List (ι × α)) :
    ownOf i ((j, a) :: xs) = ownOf i xs := by
  simp [ownOf, h]

/-- Families whose members do the same do the same in turns. -/
theorem turns_map {step' : τ → Use → Effect τ} {f : σ → τ}
    (h : ∀ s use, (step s use).map f = step' (f s) use) (family : ι → σ)
    (steps : List (ι × Use)) :
    turns step' (f ∘ family) steps =
      ((turns step family steps).1, f ∘ (turns step family steps).2) := by
  induction steps generalizing family with
  | nil => rfl
  | cons first steps ih =>
    obtain ⟨i, use⟩ := first
    have hstep : step' ((f ∘ family) i) use = (step (family i) use).map f := (h _ _).symm
    have hupdate := Function.comp_update f family i (step (family i) use).state
    simp only [turns, hstep, Effect.map, ← hupdate, ih]

/-- In turns with others, a member does what it does alone. -/
theorem alone_ownOf (family : ι → σ) (i : ι) (steps : List (ι × Use)) :
    alone step (family i) (ownOf i steps) =
      (ownOf i (turns step family steps).1, (turns step family steps).2 i) := by
  induction steps generalizing family with
  | nil => rfl
  | cons first steps ih =>
    obtain ⟨j, use⟩ := first
    have hrest := ih (Function.update family j (step (family j) use).state)
    by_cases hj : j = i
    · subst hj
      rw [Function.update_self] at hrest
      simp only [turns, ownOf_cons_self, alone, hrest]
    · rw [Function.update_of_ne (Ne.symm hj)] at hrest
      simp only [turns, ownOf_cons_of_ne hj, hrest]

end

/-! ## §4 Lexers in turns -/

theorem Use.onLexer_of_tokens_eq_nil {l : Lexer} (h : l.tokens = []) (use : Use) :
    (use.onLexer l).answer = use.nothing ∧ (use.onLexer l).state.tokens = [] := by
  have hmap := use.map_onLexer l
  rw [h, onList_nil] at hmap
  exact ⟨congrArg Effect.answer hmap, congrArg Effect.state hmap⟩

/-- A lexer without tokens answers that there is nothing, however often it is asked. -/
theorem alone_of_tokens_eq_nil {l : Lexer} (h : l.tokens = []) (uses : List Use) :
    ∀ d ∈ (alone Use.onLexer l uses).1, d.answer = d.use.nothing := by
  induction uses generalizing l with
  | nil => exact List.forall_mem_nil _
  | cons use uses ih =>
    obtain ⟨hanswer, hstate⟩ := use.onLexer_of_tokens_eq_nil h
    exact List.forall_mem_cons.mpr ⟨hanswer, ih hstate⟩

/-- Lexers that are used in turns answer as the lists of their tokens do, take the same tokens off
and have the same tokens left; none is affected by what is done to the others; and one that has no
tokens left never gives one again. -/
theorem lexers_refine_lists [DecidableEq ι] (sources : ι → String)
    (steps : List (ι × Use)) :
    let lexers := turns Use.onLexer (fun i => Lexer.ofString (sources i)) steps
    let lists := turns Use.onList (fun i => tokenize (sources i)) steps
    lexers.1 = lists.1 ∧
      ∀ i, (lexers.2 i).tokens = lists.2 i ∧
        alone Use.onLexer (Lexer.ofString (sources i)) (ownOf i steps) =
          (ownOf i lexers.1, lexers.2 i) ∧
        (lists.2 i = [] → ∀ more, ∀ d ∈ ownOf i (turns Use.onLexer lexers.2 more).1,
          d.answer = d.use.nothing) := by
  intro lexers lists
  have hlists : lists = (lexers.1, Lexer.tokens ∘ lexers.2) :=
    turns_map Use.map_onLexer (fun i => Lexer.ofString (sources i)) steps
  refine ⟨by rw [hlists], fun i => ⟨by rw [hlists]; rfl, ?_, ?_⟩⟩
  · exact alone_ownOf (fun i => Lexer.ofString (sources i)) i steps
  · intro hempty more
    rw [hlists] at hempty
    have halone : alone Use.onLexer (lexers.2 i) (ownOf i more) = _ :=
      alone_ownOf lexers.2 i more
    have hnothing := alone_of_tokens_eq_nil hempty (ownOf i more)
    rwa [halone] at hnothing

/-- Two lexers, the second of which stops at a brace that closes nothing. -/
def twoSources (i : Fin 2) : String := if i = 0 then "a b;c" else "\x7d"

def twoLexersSteps : List (Fin 2 × Use) :=
  [(0, .next), (1, .next), (0, .find .semicolon), (1, .count), (0, .nth 1)]

/-- What is taken from one lexer is not missed by the other. -/
example :
    ((turns Use.onLexer (fun i => Lexer.ofString (twoSources i)) twoLexersSteps).1.map
      fun e => (e.1, e.2.taken.map (·.kind))) =
    [(0, [.identifier]), (1, [.error]), (0, [.identifier, .semicolon]), (1, []),
      (0, [.identifier, .endOfInput])] := by
  decide +kernel

theorem twoLexers_refine_lists :
    let lexers := turns Use.onLexer (fun i => Lexer.ofString (twoSources i)) twoLexersSteps
    let lists := turns Use.onList (fun i => tokenize (twoSources i)) twoLexersSteps
    lexers.1 = lists.1 ∧ lists.2 1 = [] ∧
      ∀ more, ∀ d ∈ ownOf 1 (turns Use.onLexer lexers.2 more).1, d.answer = d.use.nothing := by
  intro lexers lists
  obtain ⟨hdone, hmembers⟩ := lexers_refine_lists twoSources twoLexersSteps
  obtain ⟨-, -, hnothing⟩ := hmembers 1
  have hempty : lists.2 1 = [] := by decide +kernel
  exact ⟨hdone, hempty, hnothing hempty⟩

end ProtoSchema
