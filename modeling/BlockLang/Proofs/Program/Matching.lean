import BlockLang.Error
import BlockLang.Proofs.Program.Nodes

/-! # Matching — two programs of one shape

  Two programs may have the same statements and identities, and differ in
  names and places only.  A correspondence says which names and which places
  stand for each other.  Names that are different must stand for different
  names, so that it does not matter on which side two names are compared. -/

namespace BlockLang

/-- What stands for what in two programs. -/
structure Correspondence where
  names : String → String → Prop
  places : Position → Position → Prop
  /-- The names that may be bound on the second side. -/
  known : String → Prop
  eq_iff : ∀ {x x' y y'}, names x x' → names y y' → (x = y ↔ x' = y')
  known_of_names : ∀ {x x'}, names x x' → known x'

variable {c : Correspondence}

/-! ### Programs -/

/-- The tags have the same identity, and start at places that correspond. -/
structure Tag.Matches (c : Correspondence) (tag tag' : Tag) : Prop where
  id_eq : tag'.id = tag.id
  start : c.places tag.span.start tag'.span.start

structure Ident.Matches (c : Correspondence) (ident ident' : Ident) : Prop where
  name : c.names ident.name ident'.name
  tag : ident.tag.Matches c ident'.tag

inductive Expr.Matches (c : Correspondence) : Expr → Expr → Prop where
  | binary {left left' right right' tag tag'} (operator : Operator) :
      Matches c left left' → Matches c right right' → tag.Matches c tag' →
      Matches c (.binary left operator right tag) (.binary left' operator right' tag')
  | identifier {ident ident'} :
      ident.Matches c ident' → Matches c (.identifier ident) (.identifier ident')
  | literal {tag tag'} (value : Literal) :
      tag.Matches c tag' → Matches c (.literal value tag) (.literal value tag')

/-- The blocks match, statement by statement. -/
inductive BlockMatches (c : Correspondence) : List Stmt → List Stmt → Prop where
  | nil : BlockMatches c [] []
  | declaration {target target' value value' tag tag' ss ss'} (ty : Ty) :
      target.Matches c target' → value.Matches c value' → tag.Matches c tag' →
      BlockMatches c ss ss' →
      BlockMatches c (.declaration target ty value tag :: ss)
        (.declaration target' ty value' tag' :: ss')
  | assignment {target target' value value' tag tag' ss ss'} :
      target.Matches c target' → value.Matches c value' → tag.Matches c tag' →
      BlockMatches c ss ss' →
      BlockMatches c (.assignment target value tag :: ss) (.assignment target' value' tag' :: ss')
  | print {value value' tag tag' ss ss'} :
      value.Matches c value' → tag.Matches c tag' → BlockMatches c ss ss' →
      BlockMatches c (.print value tag :: ss) (.print value' tag' :: ss')
  | whileDo {condition condition' body body' tag tag' ss ss'} :
      condition.Matches c condition' → BlockMatches c body body' → tag.Matches c tag' →
      BlockMatches c ss ss' →
      BlockMatches c (.whileDo condition body tag :: ss) (.whileDo condition' body' tag' :: ss')
  | ifThen {condition condition' body body' tag tag' ss ss'} :
      condition.Matches c condition' → BlockMatches c body body' → tag.Matches c tag' →
      BlockMatches c ss ss' →
      BlockMatches c (.ifThen condition body tag :: ss) (.ifThen condition' body' tag' :: ss')
  | ifThenElse {condition condition' body body' otherwise otherwise' elseTag elseTag' tag tag'
        ss ss'} :
      condition.Matches c condition' → BlockMatches c body body' →
      BlockMatches c otherwise otherwise' → elseTag.Matches c elseTag' → tag.Matches c tag' →
      BlockMatches c ss ss' →
      BlockMatches c (.ifThenElse condition body otherwise elseTag tag :: ss)
        (.ifThenElse condition' body' otherwise' elseTag' tag' :: ss')

structure Program.Matches (c : Correspondence) (p p' : Program) : Prop where
  body : BlockMatches c p.body p'.body
  id_eq : p'.tag.id = p.tag.id

theorem Expr.Matches.tag {e e' : Expr} (h : e.Matches c e') : e.tag.Matches c e'.tag := by
  cases h with
  | binary _ _ _ htag => exact htag
  | identifier hident => exact hident.tag
  | literal _ htag => exact htag

/-- Blocks in a row match block by block. -/
theorem BlockMatches.append {ss ss' rest rest' : List Stmt} (h : BlockMatches c ss ss')
    (hrest : BlockMatches c rest rest') : BlockMatches c (ss ++ rest) (ss' ++ rest') := by
  induction h with
  | nil => exact hrest
  | declaration ty htarget hvalue htag _ ih => exact .declaration ty htarget hvalue htag ih
  | assignment htarget hvalue htag _ ih => exact .assignment htarget hvalue htag ih
  | print hvalue htag _ ih => exact .print hvalue htag ih
  | whileDo hcondition hbody htag _ _ ih => exact .whileDo hcondition hbody htag ih
  | ifThen hcondition hbody htag _ _ ih => exact .ifThen hcondition hbody htag ih
  | ifThenElse hcondition hbody hotherwise helse htag _ _ _ ih =>
    exact .ifThenElse hcondition hbody hotherwise helse htag ih

/-! ### Errors -/

/-- The faults of scopes and types match: they are the same but for names. -/
inductive Fault.Matches (c : Correspondence) : Fault → Fault → Prop where
  | duplicateDeclaration {x x'} :
      c.names x x' → Matches c (.duplicateDeclaration x) (.duplicateDeclaration x')
  | undeclaredIdentifier {x x'} :
      c.names x x' → Matches c (.undeclaredIdentifier x) (.undeclaredIdentifier x')
  | declarationMismatch (expected received : Ty) :
      Matches c (.declarationMismatch expected received) (.declarationMismatch expected received)
  | assignmentMismatch (expected received : Ty) :
      Matches c (.assignmentMismatch expected received) (.assignmentMismatch expected received)
  | unsupportedOperator (operator : String) (category : Ty) :
      Matches c (.unsupportedOperator operator category) (.unsupportedOperator operator category)
  | boolOperandMismatch (left right : Ty) :
      Matches c (.boolOperandMismatch left right) (.boolOperandMismatch left right)

structure Error.Matches (c : Correspondence) (error error' : Error) : Prop where
  fault : error.fault.Matches c error'.fault
  position : c.places error.position error'.position

/-! ### A program beside itself -/

/-- The name that a node spells. -/
def Node.name? : Node → Option String
  | .target ident => some ident.name
  | .expr (.identifier ident) => some ident.name
  | _ => none

/-- The names that occur in a program. -/
def Program.names (p : Program) : List String := p.nodes.filterMap Node.name?

section

variable (hplaces : ∀ place, c.places place place)

include hplaces

theorem Tag.Matches.refl (tag : Tag) : tag.Matches c tag := ⟨rfl, hplaces _⟩

theorem Ident.Matches.refl {ident : Ident} (h : c.names ident.name ident.name) :
    ident.Matches c ident := ⟨h, .refl hplaces _⟩

/-- An expression matches itself if its names stand for themselves. -/
theorem Expr.Matches.refl {e : Expr}
    (h : ∀ name ∈ e.nodes.filterMap Node.name?, c.names name name) : e.Matches c e := by
  induction e with
  | binary left operator right tag ihl ihr =>
    simp only [nodes_binary, List.filterMap_cons, Node.name?, List.filterMap_append,
      List.forall_mem_append] at h
    exact .binary operator (ihl h.1) (ihr h.2) (.refl hplaces tag)
  | identifier ident =>
    have hname : c.names ident.name ident.name := h ident.name List.mem_cons_self
    exact .identifier (.refl hplaces hname)
  | literal value tag => exact .literal value (.refl hplaces tag)

/-- A block matches itself if its names stand for themselves. -/
theorem BlockMatches.refl {body : List Stmt}
    (h : ∀ name ∈ (blockNodes body).filterMap Node.name?, c.names name name) :
    BlockMatches c body body := by
  induction body using blockInduction with
  | nil => exact .nil
  | declaration target ty value tag ss ih =>
    simp only [blockNodes_cons, Stmt.nodes_declaration, List.cons_append, List.filterMap_cons,
      Node.name?, List.filterMap_append, List.forall_mem_cons, List.forall_mem_append] at h
    obtain ⟨htarget, hvalue, hss⟩ := h
    exact .declaration ty (.refl hplaces htarget) (.refl hplaces hvalue) (.refl hplaces tag)
      (ih hss)
  | assignment target value tag ss ih =>
    simp only [blockNodes_cons, Stmt.nodes_assignment, List.cons_append, List.filterMap_cons,
      Node.name?, List.filterMap_append, List.forall_mem_cons, List.forall_mem_append] at h
    obtain ⟨htarget, hvalue, hss⟩ := h
    exact .assignment (.refl hplaces htarget) (.refl hplaces hvalue) (.refl hplaces tag) (ih hss)
  | print value tag ss ih =>
    simp only [blockNodes_cons, Stmt.nodes_print, List.cons_append, List.filterMap_cons,
      Node.name?, List.filterMap_append, List.forall_mem_append] at h
    exact .print (.refl hplaces h.1) (.refl hplaces tag) (ih h.2)
  | whileDo condition body tag ss ihb ih =>
    simp only [blockNodes_cons, Stmt.nodes_whileDo, List.cons_append, List.filterMap_cons,
      Node.name?, List.filterMap_append, List.forall_mem_append] at h
    obtain ⟨⟨hcondition, hbody⟩, hss⟩ := h
    exact .whileDo (.refl hplaces hcondition) (ihb hbody) (.refl hplaces tag) (ih hss)
  | ifThen condition body tag ss ihb ih =>
    simp only [blockNodes_cons, Stmt.nodes_ifThen, List.cons_append, List.filterMap_cons,
      Node.name?, List.filterMap_append, List.forall_mem_append] at h
    obtain ⟨⟨hcondition, hbody⟩, hss⟩ := h
    exact .ifThen (.refl hplaces hcondition) (ihb hbody) (.refl hplaces tag) (ih hss)
  | ifThenElse condition body otherwise elseTag tag ss ihb iho ih =>
    simp only [blockNodes_cons, Stmt.nodes_ifThenElse, List.cons_append, List.filterMap_cons,
      Node.name?, List.filterMap_append, List.forall_mem_append] at h
    obtain ⟨⟨hcondition, hbody, hotherwise⟩, hss⟩ := h
    exact .ifThenElse (.refl hplaces hcondition) (ihb hbody) (iho hotherwise)
      (.refl hplaces elseTag) (.refl hplaces tag) (ih hss)

end

end BlockLang
