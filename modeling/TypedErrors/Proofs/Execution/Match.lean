import Mathlib.Data.List.Forall2
import Mathlib.Data.List.Nodup
import TypedErrors.Generated.Kind
import TypedErrors.Proofs.Execution.Semantics

/-! # Objects, patterns and functions

What building an object gives, what a class pattern of captures binds, and which case of a selection is taken. -/

namespace TypedErrors
namespace Execution

open Code Generated

/-! ### Lookup -/

section
variable {κ : Type} [BEq κ] [LawfulBEq κ] {α : Type} {l l' : List (κ × α)} {k : κ} {x : α}

theorem lookup_of_mem (hl : (l.map (·.1)).Nodup) (h : (k, x) ∈ l) : l.lookup k = some x := by
  induction l with
  | nil => cases h
  | cons p l ih =>
    obtain ⟨hp, hl⟩ := List.nodup_cons.mp hl
    rcases List.mem_cons.mp h with rfl | h
    · exact List.lookup_cons_self
    · have hne : (k == p.1) = false := by
        refine beq_false_of_ne ?_
        rintro rfl
        exact hp (List.mem_map.mpr ⟨(p.1, x), h, rfl⟩)
      rw [List.lookup_cons, hne]
      exact ih hl h

theorem mem_of_lookup (h : l.lookup k = some x) : (k, x) ∈ l := by
  obtain ⟨l₁, l₂, rfl, -⟩ := List.lookup_eq_some_iff.mp h
  simp

theorem lookup_append_of_mem (hl : (l.map (·.1)).Nodup) (h : (k, x) ∈ l) : (l ++ l').lookup k = some x := by
  rw [List.lookup_append, lookup_of_mem hl h, Option.some_or]

theorem lookup_eq_none_of_forall (h : ∀ p ∈ l, p.1 ≠ k) : l.lookup k = none :=
  List.lookup_eq_none_iff.mpr fun p hp => bne_iff_ne.mpr (h p hp).symm

end

/-! ### Objects -/

namespace Heap
variable {h : Heap} {id : ClassId} {c : ClassObject} {x : Value}

theorem mapM_lookup {l l' : Env} (hl : (l.map (·.1)).Nodup) (hsub : l' ⊆ l) :
    (l'.map (·.1)).mapM (fun k => (l.lookup k).map ((k, ·))) = some l' := by
  induction l' with
  | nil => rfl
  | cons p l' ih =>
    obtain ⟨hp, hsub⟩ := List.cons_subset.mp hsub
    rw [List.map_cons, List.mapM_cons, ih hsub, lookup_of_mem hl hp]
    rfl

/-- A data class gives an object to a value for every field, by position or by name. -/
theorem construct_eq_some (env : Env) (hc : h[id]? = some c) (hf : c.fields = some (env.map (·.1)))
    (hn : (env.map (·.1)).Nodup) :
    h.construct id (env.map (·.2)) [] = some (.object id env) ∧
      h.construct id [] env = some (.object id env) := by
  have hmap := mapM_lookup hn (List.Subset.refl env)
  have hzip : (env.map (·.1)).zip (env.map (·.2)) = env := by
    rw [List.zip_map', List.map_id'' fun _ => rfl]
  constructor
  · simp [construct, hc, hf, hzip, hmap]
  · simp [construct, hc, hf, hmap]

theorem exists_of_construct {args : List Value} {keywords : Env} (hx : h.construct id args keywords = some x) :
    ∃ c fields env, h[id]? = some c ∧ c.fields = some fields ∧ args.length + keywords.length = fields.length ∧
      x = .object id env := by
  unfold construct at hx
  obtain ⟨c, hc, hx⟩ := Option.bind_eq_some_iff.mp hx
  obtain ⟨fields, hf, hx⟩ := Option.bind_eq_some_iff.mp hx
  split at hx
  · next hl =>
    obtain ⟨env, -, hx⟩ := Option.bind_eq_some_iff.mp hx
    exact ⟨c, fields, env, hc, hf, hl, (Option.some.inj hx).symm⟩
  · cases hx

theorem lookup_of_mapM {l attrs : Env} {fields : List Key}
    (h : fields.mapM (fun k => (l.lookup k).map ((k, ·))) = some attrs) : ∀ p ∈ attrs, l.lookup p.1 = some p.2 := by
  induction fields generalizing attrs with
  | nil =>
    obtain rfl : [] = attrs := Option.some.inj h
    exact nofun
  | cons k fields ih =>
    rw [List.mapM_cons] at h
    obtain ⟨q, hq, h⟩ := Option.bind_eq_some_iff.mp h
    obtain ⟨attrs', hattrs', h⟩ := Option.bind_eq_some_iff.mp h
    obtain rfl := Option.some.inj h
    obtain ⟨v, hv, rfl⟩ := Option.map_eq_some_iff.mp hq
    exact List.forall_mem_cons.mpr ⟨hv, ih hattrs'⟩

/-- A field of an object that was built by name has the value of its name. -/
theorem lookup_of_construct {keywords attrs : Env} {id' : ClassId}
    (hx : h.construct id [] keywords = some (.object id' attrs)) : ∀ p ∈ attrs, keywords.lookup p.1 = some p.2 := by
  unfold construct at hx
  obtain ⟨c, -, hx⟩ := Option.bind_eq_some_iff.mp hx
  obtain ⟨fields, -, hx⟩ := Option.bind_eq_some_iff.mp hx
  split at hx
  · obtain ⟨env, henv, hx⟩ := Option.bind_eq_some_iff.mp hx
    obtain ⟨-, rfl⟩ := Value.object.inj (Option.some.inj hx)
    rw [List.zip_nil_right, List.nil_append] at henv
    exact lookup_of_mapM henv
  · cases hx

end Heap

/-! ### Expressions -/

section
variable {s : Scope} {β : Type} {xs : List β} {f : β → Expr} {value : β → Value} {name : β → String}

theorem eval_call_eq_some {f : Expr} {args : List Expr} {keywords : List Keyword} {r : Value} :
    eval s (.call f args keywords) = some r ↔ ∃ fv vs env, eval s f = some fv ∧ evalAll s args = some vs ∧
      evalKeywords s keywords = some env ∧ fv.apply s.heap vs env = some r := by
  simp [eval, Option.bind_eq_some_iff]

/-- Only a class builds objects. -/
theorem apply_eq_object {h : Heap} {v : Value} {args : List Value} {env attrs : Env} {id : ClassId}
    (hv : v.apply h args env = some (.object id attrs)) : v = .cls id := by
  unfold Value.apply at hv
  split at hv
  · obtain ⟨_, _, attrs', -, -, -, hobject⟩ := Heap.exists_of_construct hv
    rw [(Value.object.inj hobject).1]
  · cases hv
  · split at hv <;> cases hv
  · split at hv <;> cases hv
  · cases hv

/-- Only the function for copies copies. -/
theorem apply_eq_copied {h : Heap} {v x w : Value} (hv : v.apply h [x] [] = some (.copied w)) : x = w := by
  unfold Value.apply at hv
  split at hv
  · obtain ⟨_, _, _, -, -, -, hobject⟩ := Heap.exists_of_construct hv
    cases hobject
  · cases hv
  · exact Value.copied.inj (Option.some.inj hv)
  · cases hv
  · cases hv

theorem evalAll_map (h : ∀ x ∈ xs, eval s (f x) = some (value x)) : evalAll s (xs.map f) = some (xs.map value) := by
  induction xs with
  | nil => rfl
  | cons x xs ih =>
    obtain ⟨hx, hxs⟩ := List.forall_mem_cons.mp h
    rw [List.map_cons, evalAll, hx, ih hxs]
    rfl

theorem evalKeywords_map (h : ∀ x ∈ xs, eval s (f x) = some (value x)) :
    evalKeywords s (xs.map fun x => .mk (name x) (f x)) = some (xs.map fun x => (.plain (name x), value x)) := by
  induction xs with
  | nil => rfl
  | cons x xs ih =>
    obtain ⟨hx, hxs⟩ := List.forall_mem_cons.mp h
    rw [List.map_cons, evalKeywords, hx, ih hxs]
    rfl

/-- The values of keywords are those of their expressions. -/
theorem exists_keyword_of_mem {ks : List Keyword} {env : Env} {p : Key × Value} (h : evalKeywords s ks = some env)
    (hp : p ∈ env) : ∃ n x, Keyword.mk n x ∈ ks ∧ p.1 = .plain n ∧ eval s x = some p.2 := by
  induction ks generalizing env with
  | nil =>
    obtain rfl : [] = env := Option.some.inj h
    cases hp
  | cons k ks ih =>
    obtain ⟨n, x⟩ := k
    rw [evalKeywords] at h
    obtain ⟨v, hv, h⟩ := Option.bind_eq_some_iff.mp h
    obtain ⟨env', henv', h⟩ := Option.bind_eq_some_iff.mp h
    obtain rfl := Option.some.inj h
    rcases List.mem_cons.mp hp with rfl | hp
    · exact ⟨n, x, List.mem_cons_self .., rfl, hv⟩
    · obtain ⟨n', x', hmem, hkey, heval⟩ := ih henv' hp
      exact ⟨n', x', List.mem_cons_of_mem _ hmem, hkey, heval⟩

end

/-! ### Patterns -/

/-- What captures under these names bind: each its value, and `_` nothing. -/
def captured (owner : String) (cells : List (String × Value)) : Env :=
  (cells.filter (·.1 ≠ "_")).map fun p => (.within owner p.1, p.2)

section
variable {s : Scope} {v w : Value} {type : Expr} {args : List Pattern} {keywords : List KeywordPattern} {id : ClassId}

theorem captured_append {owner : String} {l r : List (String × Value)} :
    captured owner (l ++ r) = captured owner l ++ captured owner r := by
  simp [captured]

theorem lookup_captured {owner n : String} {cells : List (String × Value)} {env : Env}
    (hcells : (cells.map (·.1)).Nodup) (h : (n, w) ∈ cells) (hn : n ≠ "_") :
    (captured owner cells ++ env).lookup (.within owner n) = some w := by
  refine lookup_append_of_mem ?_ ?_
  · have hnames : (captured owner cells).map (·.1) = ((cells.filter (·.1 ≠ "_")).map (·.1)).map (.within owner) := by
      simp [captured]
    rw [hnames]
    refine List.Nodup.map (fun a b hab => Key.within_inj hab) ?_
    exact (List.filter_sublist.map _).nodup hcells
  · exact List.mem_map.mpr ⟨(n, w), List.mem_filter.mpr ⟨h, by simpa using hn⟩, rfl⟩

theorem bindPattern_capture (o : Option String) :
    bindPattern s w (.capture o) = some (some (captured s.owner (o.toList.map (·, w)))) := by
  cases o with
  | none => rfl
  | some n =>
    rw [bindPattern]
    by_cases hn : n = "_" <;> simp [captured, hn]

theorem bindPattern_cls (ht : eval s type = some (.cls id)) (hv : s.heap.isInstance v id = true) :
    bindPattern s v (.cls type args keywords) =
      both (bindArgs s v (s.heap.matchArgs id) args) (bindKeywords s v keywords) := by
  simp [bindPattern, ht, hv]

theorem bindPattern_cls_of_not (ht : eval s type = some (.cls id)) (hv : s.heap.isInstance v id = false) :
    bindPattern s v (.cls type args keywords) = some none := by
  simp [bindPattern, ht, hv]

/-- The type of a pattern that does not fail is a class. -/
theorem exists_class_of_bindPattern {b : Option Env} (h : bindPattern s v (.cls type args keywords) = some b) :
    ∃ id, eval s type = some (.cls id) := by
  rw [bindPattern] at h
  obtain ⟨x, hx, h⟩ := Option.bind_eq_some_iff.mp h
  cases x with
  | cls id => exact ⟨id, hx⟩
  | _ => cases h

/-- A pattern that matches is one of a class of the value. -/
theorem isInstance_of_bindPattern {b : Env} (ht : eval s type = some (.cls id))
    (h : bindPattern s v (.cls type args keywords) = some (some b)) :
    s.heap.isInstance v id = true ∧
      both (bindArgs s v (s.heap.matchArgs id) args) (bindKeywords s v keywords) = some (some b) := by
  cases hv : s.heap.isInstance v id with
  | true => exact ⟨rfl, by rwa [bindPattern_cls ht hv] at h⟩
  | false => rw [bindPattern_cls_of_not ht hv] at h; cases h

/-- Captures of fields by position. -/
theorem bindArgs_captures {ks : List Key} {ps : List (Option String × Value)}
    (h : List.Forall₂ (fun k p => v.attr? s.heap k = some p.2) ks ps) :
    bindArgs s v ks (ps.map fun p => .capture p.1) =
      some (some (captured s.owner (ps.flatMap fun p => p.1.toList.map (·, p.2)))) := by
  induction h with
  | nil => rfl
  | cons hk _ ih =>
    rw [List.map_cons, bindArgs, hk, ih, List.flatMap_cons, captured_append]
    simp only [bindPattern_capture]
    rfl

/-- Captures of fields by name. -/
theorem bindKeywords_captures {cells : List (String × Value)}
    (h : ∀ p ∈ cells, v.attr? s.heap (.plain p.1) = some p.2) :
    bindKeywords s v (cells.map fun p => .mk p.1 (.capture (some p.1))) = some (some (captured s.owner cells)) := by
  induction cells with
  | nil => rfl
  | cons p cells ih =>
    obtain ⟨hp, h⟩ := List.forall_mem_cons.mp h
    rw [List.map_cons, bindKeywords, hp, ih h]
    simp only [bindPattern_capture]
    rw [show p :: cells = [p] ++ cells from rfl, captured_append]
    rfl

/-- A keyword matches only an attribute of its name. -/
theorem exists_attr_of_bindKeywords {ks : List KeywordPattern} {b : Env} (h : bindKeywords s v ks = some (some b)) :
    ∀ n p, KeywordPattern.mk n p ∈ ks → ∃ w, v.attr? s.heap (.plain n) = some w := by
  induction ks generalizing b with
  | nil => exact nofun
  | cons k ks ih =>
    obtain ⟨m, q⟩ := k
    rw [bindKeywords] at h
    intro n p hp
    cases hm : v.attr? s.heap (.plain m) with
    | none => rw [hm] at h; cases h
    | some w =>
      rw [hm] at h
      obtain ⟨x, hx, h⟩ := Option.bind_eq_some_iff.mp h
      cases x with
      | none => cases h
      | some x =>
        obtain ⟨y, hy, h⟩ := Option.bind_eq_some_iff.mp h
        obtain ⟨y, rfl, -⟩ := Option.map_eq_some_iff.mp (Option.some.inj h)
        rcases List.mem_cons.mp hp with hp | hp
        · obtain ⟨rfl, -⟩ := KeywordPattern.mk.inj hp
          exact ⟨w, hm⟩
        · exact ih hy n p hp

end

/-! ### Bound names -/

theorem patternNamesAll_captures (os : List (Option String)) :
    patternNamesAll (os.map .capture) = (os.filterMap id).filter (· ≠ "_") := by
  induction os with
  | nil => rfl
  | cons o os ih =>
    rw [List.map_cons, patternNamesAll, ih]
    cases o with
    | none => rfl
    | some n => by_cases hn : n = "_" <;> simp [patternNames, hn]

theorem keywordPatternNames_captures (ns : List String) :
    keywordPatternNames (ns.map fun n => .mk n (.capture (some n))) = ns.filter (· ≠ "_") := by
  induction ns with
  | nil => rfl
  | cons n ns ih =>
    rw [List.map_cons, keywordPatternNames, ih, patternNames, List.filter_cons]
    by_cases hn : n = "_" <;> simp [hn]

/-! ### Selections -/

section
variable {c : Call} {env : Env} {β : Type} {pattern : β → Pattern} {value : β → Expr} {v r : Value}

/-- The value of the first case that matches. -/
def FirstMatch (c : Call) (env : Env) (pattern : β → Pattern) (value : β → Expr) (v r : Value) (items : List β) : Prop :=
  ∃ before x after bound, items = before ++ x :: after ∧
    (∀ y ∈ before, bindPattern (c.scope env) v (pattern y) = some none) ∧
    bindPattern (c.scope env) v (pattern x) = some (some bound) ∧
    eval (c.scope (bound ++ env)) (value x) = some r

theorem firstMatch_cons {x : β} {items : List β} :
    FirstMatch c env pattern value v r (x :: items) ↔
      (∃ bound, bindPattern (c.scope env) v (pattern x) = some (some bound) ∧
        eval (c.scope (bound ++ env)) (value x) = some r) ∨
      bindPattern (c.scope env) v (pattern x) = some none ∧ FirstMatch c env pattern value v r items := by
  constructor
  · rintro ⟨before, y, after, bound, hitems, hbefore, hmatch, hvalue⟩
    rcases before with _ | ⟨z, before⟩
    · obtain ⟨rfl, rfl⟩ := List.cons.inj hitems
      exact .inl ⟨bound, hmatch, hvalue⟩
    · obtain ⟨rfl, rfl⟩ := List.cons.inj hitems
      obtain ⟨hx, hbefore⟩ := List.forall_mem_cons.mp hbefore
      exact .inr ⟨hx, before, y, after, bound, rfl, hbefore, hmatch, hvalue⟩
  · rintro (⟨bound, hmatch, hvalue⟩ | ⟨hx, before, y, after, bound, rfl, hbefore, hmatch, hvalue⟩)
    · exact ⟨[], x, items, bound, rfl, nofun, hmatch, hvalue⟩
    · exact ⟨x :: before, y, after, bound, rfl, List.forall_mem_cons.mpr ⟨hx, hbefore⟩, hmatch, hvalue⟩

/-- The case of a value that is returned. -/
def returning (pattern : β → Pattern) (value : β → Expr) (x : β) : Case := .mk (pattern x) [.ret (some (value x))]

theorem execAll_ret {e : Expr} : execAll c env [.ret (some e)] = some (.value r) ↔ eval (c.scope env) e = some r := by
  cases he : eval (c.scope env) e <;> simp [execAll, exec, he]

theorem execCases_eq_value {items : List β} :
    execCases c env v (items.map (returning pattern value)) = some (.value r) ↔
      FirstMatch c env pattern value v r items := by
  induction items with
  | nil =>
    refine ⟨nofun, ?_⟩
    rintro ⟨before, x, after, bound, h, -⟩
    simp at h
  | cons x items ih =>
    rw [firstMatch_cons, ← ih, List.map_cons, returning, execCases]
    cases hx : bindPattern (c.scope env) v (pattern x) with
    | none => simp
    | some b =>
      cases b with
      | none => simp
      | some bound => simpa using execAll_ret

/-- A selection, and an exception when no case matches. -/
theorem execAll_select {x : String} {cases : List Case} (hv : eval (c.scope env) (.name x) = some v) :
    execAll c env [.select (.name x) cases, raiseUnknown x] = some (.value r) ↔
      execCases c env v cases = some (.value r) := by
  have hraise : ∀ env', execAll c env' [raiseUnknown x] = none := fun _ => rfl
  rw [execAll, exec, hv]
  cases hcases : execCases c env v cases with
  | none => simp [hcases]
  | some flow => cases flow <;> simp [hcases, hraise]

/-- A selection gives the value of the first case that matches, and nothing when there is none. -/
theorem execAll_selectOrRaise {x : String} {items : List β}
    (hv : eval (c.scope env) (.name x) = some v) :
    execAll c env (selectOrRaise x (items.map (returning pattern value))) = some (.value r) ↔
      FirstMatch c env pattern value v r items := by
  rw [← execCases_eq_value]
  cases items with
  | nil => exact ⟨nofun, nofun⟩
  | cons y items =>
    rw [selectOrRaise, if_neg (by simp)]
    exact execAll_select hv

theorem capturesAll_selectOrRaise {x : String} {items : List β} :
    Stmt.capturesAll (selectOrRaise x (items.map (returning pattern value))) =
      items.flatMap fun y => patternNames (pattern y) := by
  have hcases : Case.captures (items.map (returning pattern value)) = items.flatMap fun y => patternNames (pattern y) := by
    induction items with
    | nil => rfl
    | cons y items ih =>
      rw [List.map_cons, returning, Case.captures, ih, List.flatMap_cons]
      simp [Stmt.capturesAll, Stmt.captures]
  cases items with
  | nil => rfl
  | cons y items =>
    rw [selectOrRaise, if_neg (by simp), Stmt.capturesAll, Stmt.captures, hcases]
    simp [raiseUnknown, Stmt.capturesAll, Stmt.captures]

end

/-! ### Calls -/

theorem call_eq_some {m : Frame} {cls name param type : String} {body : List Stmt} {result : Option Expr}
    {decorators : List Expr} {x r : Value} :
    m.call cls (.function name [.ofText param type] body result decorators none) [x] = some r ↔
      execAll ⟨m.heap, m.bindings, cls, .within cls param :: (Stmt.capturesAll body).map (.within cls)⟩
        [(.within cls param, x)] body = some (.value r) := by
  rw [Frame.call]
  simp only [List.map_cons, List.map_nil, List.length_singleton, ↓reduceIte, List.singleton_append, List.zip_cons_cons,
    List.zip_nil_right, Param.ofText]
  split
  · next h => simp [h]
  · next h =>
    constructor
    · exact nofun
    · intro h'
      exact absurd h' (h r)

end Execution
end TypedErrors
