import TypedErrors.Code.Render

/-! # Lines of rendered code

The lines of a statement stand together among those of the suite and of the definition that it is in. -/

namespace TypedErrors
namespace Code

variable {level : Nat} {s : Stmt} {ss : List Stmt} {name : String} {bases decorators : List Expr} {doc : Option String}

theorem Stmt.infix_renderMore (h : s ∈ ss) (previous : Option Stmt) :
    s.render level <:+: Stmt.renderMore level previous ss := by
  induction ss generalizing previous with
  | nil => cases h
  | cons r rs ih =>
    simp only [Stmt.renderMore]
    obtain rfl | h := List.mem_cons.mp h
    · exact ⟨_, _, rfl⟩
    · exact (ih h _).trans (List.suffix_append _ _).isInfix

theorem Stmt.infix_renderBlock (h : s ∈ ss) : s.render level <:+: Stmt.renderBlock level ss := by
  cases ss with
  | nil => cases h
  | cons r rs =>
    rw [Stmt.renderBlock]
    obtain rfl | h := List.mem_cons.mp h
    · exact (List.prefix_append _ _).isInfix
    · exact (infix_renderMore h _).trans (List.suffix_append _ _).isInfix

theorem Stmt.infix_render_cls (h : s ∈ ss) :
    s.render (level + 1) <:+: (Stmt.cls name bases ss decorators doc).render level := by
  simp only [Stmt.render]
  refine List.IsInfix.trans ?_ (List.suffix_append _ _).isInfix
  refine List.IsInfix.trans ?_ (List.suffix_cons _ _).isInfix
  split
  · exact infix_renderBlock h
  · exact (infix_renderMore h none).trans (List.suffix_append _ _).isInfix

theorem Stmt.infix_render_function {params : List Param} {result : Option Expr} (h : s ∈ ss) :
    s.render (level + 1) <:+: (Stmt.function name params ss result decorators doc).render level := by
  simp only [Stmt.render]
  refine List.IsInfix.trans ?_ (List.suffix_append _ _).isInfix
  refine List.IsInfix.trans ?_ (List.suffix_cons _ _).isInfix
  split
  · exact infix_renderBlock h
  · exact (infix_renderMore h none).trans (List.suffix_append _ _).isInfix

/-- The lines of a case, among those of all cases. -/
theorem Case.infix_renderAll (level : Nat) {pattern : Pattern} {cases : List Case} (h : Case.mk pattern ss ∈ cases) :
    (pad level ++ "case " ++ pattern.render ++ ":") :: Stmt.renderBlock (level + 1) ss <:+:
      Case.renderAll level cases := by
  induction cases with
  | nil => cases h
  | cons c cs ih =>
    obtain ⟨q, body⟩ := c
    rw [Case.renderAll]
    obtain heq | h := List.mem_cons.mp h
    · obtain ⟨rfl, rfl⟩ := Case.mk.inj heq
      exact (List.prefix_append _ _).isInfix
    · exact (ih h).trans (List.suffix_append _ _).isInfix

end Code
end TypedErrors
