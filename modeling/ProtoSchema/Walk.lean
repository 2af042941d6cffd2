import ProtoSchema.Part

/-! # Walking a tree

A visitor is told of every part twice: on entering it, before its children, and on leaving it,
after them.  Its answer on entering decides whether the children are walked.  It may build up a
state, on which its answers may depend.

`walk_collect` ties a walk to the list of parts reached: a visitor that notes what it enters, and
goes down where `descend` lets it, notes `Part.reached descend`.
-/

namespace ProtoSchema

/-- What a visitor does with a part and its state.  `enter` answers whether to go down. -/
structure Visitor (σ : Type) where
  enter : Part → σ → Bool × σ
  leave : Part → σ → σ

variable {σ : Type}

/-- Walk `p` and the parts below it, depth first. -/
def walk (v : Visitor σ) (p : Part) (s : σ) : σ :=
  let (descend, s) := v.enter p s
  let s := if descend then p.children.attach.foldl (fun s ⟨c, h⟩ =>
      have := Part.sizeOf_lt_of_mem_children h
      walk v c s) s
    else s
  v.leave p s
termination_by sizeOf p

/-- Enter, then the children if the visitor wants them, then leave. -/
theorem walk_eq (v : Visitor σ) (p : Part) (s : σ) :
    walk v p s = v.leave p (if (v.enter p s).1
      then p.children.foldl (fun s c => walk v c s) (v.enter p s).2 else (v.enter p s).2) := by
  rw [walk]
  simp

/-- A visitor that only enters. -/
def Visitor.entering (enter : Part → σ → Bool × σ) : Visitor σ := ⟨enter, fun _ s => s⟩

/-- The visitor that notes the parts it enters, the latest last. -/
def Visitor.collect (descend : Part → Bool) : Visitor (List Part) :=
  .entering fun p ps => (descend p, ps ++ [p])

@[simp] theorem Visitor.enter_collect (descend : Part → Bool) (p : Part) (ps : List Part) :
    (Visitor.collect descend).enter p ps = (descend p, ps ++ [p]) := rfl

@[simp] theorem Visitor.leave_collect (descend : Part → Bool) (p : Part) (ps : List Part) :
    (Visitor.collect descend).leave p ps = ps := rfl

theorem walk_collect (descend : Part → Bool) (p : Part) (ps : List Part) :
    walk (.collect descend) p ps = ps ++ p.reached descend := by
  rw [walk_eq, Part.reached_eq]
  have fold : ∀ (cs : List Part) (ps : List Part), (∀ c ∈ cs, c ∈ p.children) →
      cs.foldl (fun s c => walk (.collect descend) c s) ps
        = ps ++ cs.flatMap (Part.reached descend) := by
    intro cs
    induction cs with
    | nil => simp
    | cons c cs ih =>
      intro ps hcs
      have := Part.sizeOf_lt_of_mem_children (hcs c (by simp))
      rw [List.foldl_cons, walk_collect descend c, ih _ fun d hd => hcs d (by simp [hd])]
      simp
  cases hd : descend p with
  | true => simp [hd, fold]
  | false => simp [hd]
termination_by sizeOf p

end ProtoSchema
