import BlockLang.Graph
import Mathlib.Logic.Relation

/-! # Work — the tasks of a drawing follow the tree

  The tasks and texts of an expression that is being drawn take the place of a
  recursion.  A task puts one text more on the others, or takes two off to join
  them, and what is left to do always finds the texts that it needs. -/

namespace BlockLang

namespace Graph

/-- Draws an expression by recursion: the number of nodes goes through from
    left to right, and an operation joins the texts of its operands. -/
def render (count : Nat) : Expr → Nat × String
  | .binary left operator right _ =>
      let parent := nodeText (count + 1) operator.name
      let l := render (count + 1) left
      let r := render l.1 right
      (r.1, edges parent [l.2, r.2])
  | .identifier ident => (count + 1, nodeText (count + 1) ident.name)
  | .literal value _ => (count + 1, nodeText (count + 1) (literalLabel value))

namespace Work

variable {w w' : Work}

/-! ### Steps -/

/-- What becomes of a drawing task by task. -/
abbrev Steps : Work → Work → Prop := Relation.ReflTransGen fun w w' => w.step? = some w'

/-- An expression that is visited becomes its text. -/
theorem steps_visit (count : Nat) (e : Expr) (tasks : List Task) (texts : List String) :
    Steps ⟨count, .visit e :: tasks, texts⟩
      ⟨(render count e).1, tasks, (render count e).2 :: texts⟩ := by
  induction e generalizing count tasks texts with
  | binary left operator right tag ihl ihr =>
    let parent := nodeText (count + 1) operator.name
    have hvisit : Work.step? ⟨count, .visit (.binary left operator right tag) :: tasks, texts⟩ =
        some ⟨count + 1, .visit left :: .visit right :: .join parent :: tasks, texts⟩ := rfl
    have hleft := ihl (count + 1) (.visit right :: .join parent :: tasks) texts
    have hright := ihr (render (count + 1) left).1 (.join parent :: tasks)
      ((render (count + 1) left).2 :: texts)
    exact .trans (.single hvisit) (.trans hleft (.trans hright (.single rfl)))
  | identifier ident => exact .single rfl
  | literal value tag => exact .single rfl

theorem run_of_step? (h : w.step? = some w') : w.run = w'.run := by
  rw [run]
  split
  · rename_i hnone
    rw [h] at hnone
    cases hnone
  · rename_i next hnext
    rw [h] at hnext
    cases hnext
    rfl

theorem run_of_steps (h : Steps w w') : w.run = w'.run := by
  induction h with
  | refl => rfl
  | tail _ hstep ih => rw [ih, run_of_step? hstep]

/-- All tasks together draw the expression as the recursion does. -/
theorem run_visit (count : Nat) (e : Expr) :
    run ⟨count, [.visit e], []⟩ = ⟨(render count e).1, [], [(render count e).2]⟩ := by
  rw [run_of_steps (steps_visit count e [] []), run]
  rfl

/-! ### Texts that are needed -/

/-- With so many texts no task lacks one, and in the end there is one left. -/
def Suffices : Nat → List Task → Prop
  | texts, [] => texts = 1
  | texts, .visit _ :: tasks => Suffices (texts + 1) tasks
  | texts, .join _ :: tasks => 2 ≤ texts ∧ Suffices (texts - 1) tasks

/-- The texts that are there suffice for the tasks. -/
def Supplied (w : Work) : Prop := Suffices w.texts.length w.tasks

theorem Supplied.step (h : w.Supplied) (hstep : w.step? = some w') : w'.Supplied := by
  obtain ⟨count, tasks, texts⟩ := w
  cases tasks with
  | nil => cases hstep
  | cons task tasks =>
    cases task with
    | visit e =>
      cases e with
      | binary left operator right tag =>
        cases hstep
        exact ⟨Nat.le_add_left 2 texts.length, h⟩
      | identifier ident =>
        cases hstep
        exact h
      | literal value tag =>
        cases hstep
        exact h
    | join parent =>
      obtain ⟨htwo, hrest⟩ := h
      obtain ⟨right, left, more, rfl⟩ : ∃ right left more, texts = right :: left :: more := by
        match texts, htwo with
        | right :: left :: more, _ => exact ⟨right, left, more, rfl⟩
      cases hstep
      exact hrest

theorem Supplied.steps (h : w.Supplied) (hsteps : Steps w w') : w'.Supplied := by
  induction hsteps with
  | refl => exact h
  | tail _ hstep ih => exact ih.step hstep

end Work

/-- Drawing an expression adds what the recursion gives. -/
theorem drawExpr_eq (d : Drawing) (e : Expr) :
    drawExpr d e = ⟨(render d.count e).1, (render d.count e).2 :: d.pieces⟩ := by
  rw [drawExpr, Work.run_visit]
  rfl

end Graph

end BlockLang
