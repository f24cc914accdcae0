import TypedErrors.Proofs.Code.ReadBack

/-! # Rendered code can be read in one way

A rendered expression is read back, so no two expressions are rendered alike. A pattern is rendered like the expression
in which captures are names and classes are called, and that expression determines the pattern. -/

namespace TypedErrors
namespace Code

/-! ### Patterns as expressions -/

mutual

/-- The expression that is rendered like a pattern. -/
def Pattern.toExpr : Pattern → Expr
  | .capture none => .name "_"
  | .capture (some n) => .name n
  | .cls type args keywords => .call type (Pattern.toExprAll args) (KeywordPattern.toKeywordAll keywords)

def Pattern.toExprAll : List Pattern → List Expr
  | [] => []
  | p :: ps => p.toExpr :: Pattern.toExprAll ps

def KeywordPattern.toKeywordAll : List KeywordPattern → List Keyword
  | [] => []
  | .mk k p :: ks => .mk k p.toExpr :: KeywordPattern.toKeywordAll ks

end

mutual

theorem Pattern.render_toExpr : ∀ p : Pattern, p.toExpr.render = p.render
  | .capture none => rfl
  | .capture (some _) => rfl
  | .cls type args keywords => by
    rw [Pattern.toExpr, Expr.render, Pattern.render, Pattern.renderAll_toExprAll args,
      KeywordPattern.renderAll_toKeywordAll keywords]

theorem Pattern.renderAll_toExprAll : ∀ ps : List Pattern, Expr.renderAll (Pattern.toExprAll ps) = Pattern.renderAll ps
  | [] => rfl
  | p :: ps => by
    rw [Pattern.toExprAll, Expr.renderAll, Pattern.renderAll, p.render_toExpr, Pattern.renderAll_toExprAll ps]

theorem KeywordPattern.renderAll_toKeywordAll :
    ∀ ks : List KeywordPattern, Keyword.renderAll (KeywordPattern.toKeywordAll ks) = KeywordPattern.renderAll ks
  | [] => rfl
  | .mk k p :: ks => by
    rw [KeywordPattern.toKeywordAll, Keyword.renderAll, KeywordPattern.renderAll, p.render_toExpr, KeywordPattern.renderAll_toKeywordAll ks]

end

/-- A pattern over expressions that are read back, in which nothing is captured under the name of the wildcard. -/
inductive Pattern.Plain : Pattern → Prop
  | wildcard : Plain (.capture none)
  | capture {n : String} (hn : IsName n) (hwild : n ≠ "_") : Plain (.capture (some n))
  | cls {type : Expr} {ps : List Pattern} {ks : List KeywordPattern} (htype : type.Plain) (hps : ∀ p ∈ ps, Plain p)
      (hnames : ∀ k p, .mk k p ∈ ks → IsName k) (hks : ∀ k p, .mk k p ∈ ks → Plain p) : Plain (.cls type ps ks)

namespace Pattern

variable {p : Pattern} {ps qs : List Pattern} {ks js : List KeywordPattern} {x : Expr} {k : String}

theorem mem_toExprAll (h : x ∈ toExprAll ps) : ∃ p ∈ ps, p.toExpr = x := by
  induction ps with
  | nil => cases h
  | cons p ps ih =>
    rw [toExprAll] at h
    obtain rfl | h := List.mem_cons.mp h
    · exact ⟨p, List.mem_cons_self, rfl⟩
    · obtain ⟨q, hq, hx⟩ := ih h
      exact ⟨q, List.mem_cons_of_mem p hq, hx⟩

theorem mem_toKeywordAll (h : .mk k x ∈ KeywordPattern.toKeywordAll ks) :
    ∃ p, .mk k p ∈ ks ∧ p.toExpr = x := by
  induction ks with
  | nil => cases h
  | cons j ks ih =>
    obtain ⟨j, p⟩ := j
    rw [KeywordPattern.toKeywordAll] at h
    obtain h | h := List.mem_cons.mp h
    · obtain ⟨rfl, rfl⟩ := Keyword.mk.inj h
      exact ⟨p, List.mem_cons_self, rfl⟩
    · obtain ⟨q, hq, hx⟩ := ih h
      exact ⟨q, List.mem_cons_of_mem _ hq, hx⟩

theorem Plain.toExpr (h : p.Plain) : p.toExpr.Plain := by
  induction h with
  | wildcard => exact .name ⟨by decide, by decide⟩
  | capture hn => exact .name hn
  | cls htype _ hnames _ ihps ihks =>
    refine .call htype (fun x hx => ?_) (fun k x hx => ?_) (fun k x hx => ?_)
    · obtain ⟨q, hq, rfl⟩ := mem_toExprAll hx
      exact ihps q hq
    · obtain ⟨q, hq, -⟩ := mem_toKeywordAll hx
      exact hnames k q hq
    · obtain ⟨q, hq, rfl⟩ := mem_toKeywordAll hx
      exact ihks k q hq

theorem toExprAll_inj (h : ∀ p ∈ ps, ∀ q ∈ qs, p.toExpr = q.toExpr → p = q) (heq : toExprAll ps = toExprAll qs) :
    ps = qs := by
  induction ps generalizing qs with
  | nil =>
    cases qs with
    | nil => rfl
    | cons => cases heq
  | cons p ps ih =>
    cases qs with
    | nil => cases heq
    | cons q qs =>
      obtain ⟨hhead, htail⟩ := List.cons.inj heq
      rw [h p List.mem_cons_self q List.mem_cons_self hhead,
        ih (fun a ha b hb => h a (List.mem_cons_of_mem p ha) b (List.mem_cons_of_mem q hb)) htail]

theorem toKeywordAll_inj (h : ∀ k p, .mk k p ∈ ks → ∀ q, .mk k q ∈ js → p.toExpr = q.toExpr → p = q)
    (heq : KeywordPattern.toKeywordAll ks = KeywordPattern.toKeywordAll js) : ks = js := by
  induction ks generalizing js with
  | nil =>
    cases js with
    | nil => rfl
    | cons j js => cases j; cases heq
  | cons k ks ih =>
    obtain ⟨k, p⟩ := k
    cases js with
    | nil => cases heq
    | cons j js =>
      obtain ⟨j, q⟩ := j
      obtain ⟨hhead, htail⟩ := List.cons.inj heq
      obtain ⟨rfl, hpq⟩ := Keyword.mk.inj hhead
      rw [h k p List.mem_cons_self q List.mem_cons_self hpq,
        ih (fun i a ha b hb => h i a (List.mem_cons_of_mem _ ha) b (List.mem_cons_of_mem _ hb)) htail]

/-- The expression determines the pattern. -/
theorem Plain.toExpr_inj (hp : p.Plain) : ∀ {q : Pattern}, q.Plain → p.toExpr = q.toExpr → p = q := by
  induction hp with
  | wildcard =>
    intro q hq heq
    cases hq with
    | wildcard => rfl
    | capture _ hwild => exact absurd (Expr.name.inj heq).symm hwild
    | cls => cases heq
  | capture _ hwild =>
    intro q hq heq
    cases hq with
    | wildcard => exact absurd (Expr.name.inj heq) hwild
    | capture => rw [Expr.name.inj heq]
    | cls => cases heq
  | cls _ _ _ _ ihps ihks =>
    intro q hq heq
    cases hq with
    | wildcard => cases heq
    | capture => cases heq
    | cls _ hps _ hks =>
      obtain ⟨rfl, hargs, hkeywords⟩ := Expr.call.inj heq
      rw [toExprAll_inj (fun a ha b hb => ihps a ha (hps b hb)) hargs,
        toKeywordAll_inj (fun k a ha b hb => ihks k a ha (hks k b hb)) hkeywords]

end Pattern

/-! ### One reading -/

/-- No two expressions are rendered alike, and no two patterns are. -/
theorem eq_of_render_eq :
    (∀ x y : Expr, x.Plain → y.Plain → x.render = y.render → x = y) ∧
      ∀ p q : Pattern, p.Plain → q.Plain → p.render = q.render → p = q := by
  have hexpr : ∀ x y : Expr, x.Plain → y.Plain → x.render = y.render → x = y := fun x y hx hy h =>
    Option.some.inj ((Expr.ofText?_render hx).symm.trans (h ▸ Expr.ofText?_render hy))
  refine ⟨hexpr, fun p q hp hq h => hp.toExpr_inj hq (hexpr _ _ hp.toExpr hq.toExpr ?_)⟩
  rw [p.render_toExpr, q.render_toExpr, h]

/-- A pattern over a dotted reference, and the same one with the reference spelled out. -/
theorem eq_of_render_eq_dotted :
    Pattern.cls (.dotted "kinds.Missing") [.capture (some "path"), .capture none] [] =
      .cls (.attribute (.name "kinds") "Missing") [.capture (some "path"), .capture none] [] := by
  have hname (s : String) (hs : s ∈ ["kinds", "Missing", "path"]) : IsName s := by
    revert s
    simp only [List.forall_mem_cons]
    exact ⟨⟨by decide, by decide⟩, ⟨by decide, by decide⟩, ⟨by decide, by decide⟩, by simp⟩
  have htype : (Expr.attribute (.name "kinds") "Missing").Plain :=
    .attr (.name (hname _ (by decide))) (hname _ (by decide))
  have hpatterns : ∀ p ∈ [Pattern.capture (some "path"), .capture none], p.Plain :=
    List.forall_mem_cons.mpr ⟨.capture (hname _ (by decide)) (by decide), List.forall_mem_singleton.mpr .wildcard⟩
  have hplain {type : Expr} (h : type.Plain) : (Pattern.cls type [.capture (some "path"), .capture none] []).Plain :=
    .cls h hpatterns (fun _ _ h => absurd h List.not_mem_nil) (fun _ _ h => absurd h List.not_mem_nil)
  exact eq_of_render_eq.2 _ _ (hplain htype) (hplain htype) rfl

end Code
end TypedErrors
