import Mathlib.Data.List.Basic
import TypedErrors.Code.Node

/-! # Renaming touches names alone

Code is its skeleton, in which every name is left blank, and the list of its names (`Node.eq_of_skeleton`). Renaming
keeps the skeleton and maps the names, so it is the only such change, and its laws are those of `List.map`. -/

namespace TypedErrors
namespace Code

/-! ### Skeletons -/

mutual

/-- The expression with every name left blank. -/
def Expr.skeleton : Expr → Expr
  | .constant c => .constant c
  | .name _ => .name ""
  | .attribute value attr => .attribute value.skeleton attr
  | .call f args keywords => .call f.skeleton (Expr.skeletonAll args) (Keyword.skeletonAll keywords)
  | .subscript value index => .subscript value.skeleton (Expr.skeletonAll index)
  | .tuple xs => .tuple (Expr.skeletonAll xs)
  | .list xs => .list (Expr.skeletonAll xs)
  | .raw code => .raw code

def Expr.skeletonAll : List Expr → List Expr
  | [] => []
  | x :: xs => x.skeleton :: Expr.skeletonAll xs

def Keyword.skeletonAll : List Keyword → List Keyword
  | [] => []
  | .mk k v :: ks => .mk k v.skeleton :: Keyword.skeletonAll ks

end

mutual

def Pattern.skeleton : Pattern → Pattern
  | .capture n => .capture n
  | .cls type args keywords =>
    .cls type.skeleton (Pattern.skeletonAll args) (KeywordPattern.skeletonAll keywords)

def Pattern.skeletonAll : List Pattern → List Pattern
  | [] => []
  | p :: ps => p.skeleton :: Pattern.skeletonAll ps

def KeywordPattern.skeletonAll : List KeywordPattern → List KeywordPattern
  | [] => []
  | .mk k p :: ks => .mk k p.skeleton :: KeywordPattern.skeletonAll ks

end

def Param.skeleton (p : Param) : Param := ⟨p.name, p.type.map Expr.skeleton⟩

mutual

def Stmt.skeleton : Stmt → Stmt
  | .pass => .pass
  | .ret value => .ret (value.map Expr.skeleton)
  | .raise x => .raise x.skeleton
  | .assign target value => .assign target.skeleton value.skeleton
  | .annotate target type value => .annotate target type.skeleton (value.map Expr.skeleton)
  | .delete targets => .delete (Expr.skeletonAll targets)
  | .importModule m a => .importModule m a
  | .importFrom m names => .importFrom m names
  | .select subject cases => .select subject.skeleton (Case.skeletonAll cases)
  | .function name params body returns decorators doc =>
    .function name (params.map Param.skeleton) (Stmt.skeletonAll body) (returns.map Expr.skeleton)
      (Expr.skeletonAll decorators) doc
  | .cls name bases body decorators doc =>
    .cls name (Expr.skeletonAll bases) (Stmt.skeletonAll body) (Expr.skeletonAll decorators) doc

def Stmt.skeletonAll : List Stmt → List Stmt
  | [] => []
  | s :: ss => s.skeleton :: Stmt.skeletonAll ss

def Case.skeletonAll : List Case → List Case
  | [] => []
  | .mk pattern body :: cs => .mk pattern.skeleton (Stmt.skeletonAll body) :: Case.skeletonAll cs

end

def Case.skeleton : Case → Case
  | .mk pattern body => .mk pattern.skeleton (Stmt.skeletonAll body)

def Node.skeleton : Node → Node
  | .expr e => .expr e.skeleton
  | .pattern p => .pattern p.skeleton
  | .stmt s => .stmt s.skeleton
  | .case c => .case c.skeleton
  | .param p => .param p.skeleton
  | .module m => .module ⟨Stmt.skeletonAll m.body, m.doc⟩

section Renaming

variable (r : String → String)

/-! ### Names of renamed code -/

mutual

theorem Expr.names_rename : ∀ e : Expr, (e.rename r).names = e.names.map r
  | .constant _ | .raw _ | .name _ => rfl
  | .attribute value _ => Expr.names_rename value
  | .call f args keywords => by
    simp only [Expr.rename, Expr.names, List.map_append, Expr.names_rename f, Expr.namesAll_renameAll args,
      Keyword.namesAll_renameAll keywords]
  | .subscript value index => by
    simp only [Expr.rename, Expr.names, List.map_append, Expr.names_rename value, Expr.namesAll_renameAll index]
  | .tuple xs | .list xs => Expr.namesAll_renameAll xs

theorem Expr.namesAll_renameAll : ∀ xs : List Expr, Expr.namesAll (Expr.renameAll r xs) = (Expr.namesAll xs).map r
  | [] => rfl
  | x :: xs => by
    simp only [Expr.renameAll, Expr.namesAll, List.map_append, Expr.names_rename x, Expr.namesAll_renameAll xs]

theorem Keyword.namesAll_renameAll :
    ∀ ks : List Keyword, Keyword.namesAll (Keyword.renameAll r ks) = (Keyword.namesAll ks).map r
  | [] => rfl
  | .mk _ v :: ks => by
    simp only [Keyword.renameAll, Keyword.namesAll, List.map_append, Expr.names_rename v, Keyword.namesAll_renameAll ks]

end

theorem Expr.names_rename? (x? : Option Expr) :
    ((x?.map (Expr.rename r)).map Expr.names).getD [] = ((x?.map Expr.names).getD []).map r := by
  cases x? with
  | none => rfl
  | some x => exact Expr.names_rename r x

mutual

theorem Pattern.names_rename : ∀ p : Pattern, (p.rename r).names = p.names.map r
  | .capture _ => rfl
  | .cls type args keywords => by
    simp only [Pattern.rename, Pattern.names, List.map_append, Expr.names_rename, Pattern.namesAll_renameAll args,
      KeywordPattern.namesAll_renameAll keywords]

theorem Pattern.namesAll_renameAll :
    ∀ ps : List Pattern, Pattern.namesAll (Pattern.renameAll r ps) = (Pattern.namesAll ps).map r
  | [] => rfl
  | p :: ps => by
    simp only [Pattern.renameAll, Pattern.namesAll, List.map_append, Pattern.names_rename p, Pattern.namesAll_renameAll ps]

theorem KeywordPattern.namesAll_renameAll :
    ∀ ks : List KeywordPattern, KeywordPattern.namesAll (KeywordPattern.renameAll r ks) = (KeywordPattern.namesAll ks).map r
  | [] => rfl
  | .mk _ p :: ks => by
    simp only [KeywordPattern.renameAll, KeywordPattern.namesAll, List.map_append, Pattern.names_rename p,
      KeywordPattern.namesAll_renameAll ks]

end

theorem Param.names_rename (p : Param) : (p.rename r).names = p.names.map r := Expr.names_rename? r p.type

theorem Param.flatMap_names_rename (ps : List Param) :
    (ps.map (Param.rename r)).flatMap Param.names = (ps.flatMap Param.names).map r := by
  rw [List.flatMap_map, List.map_flatMap]
  simp only [Param.names_rename]

mutual

theorem Stmt.names_rename : ∀ s : Stmt, (s.rename r).names = s.names.map r
  | .pass | .importModule .. | .importFrom .. => rfl
  | .ret value => Expr.names_rename? r value
  | .raise x => Expr.names_rename r x
  | .assign target value => by simp only [Stmt.rename, Stmt.names, List.map_append, Expr.names_rename]
  | .annotate _ type value => by
    simp only [Stmt.rename, Stmt.names, List.map_append, Expr.names_rename, Expr.names_rename?]
  | .delete targets => Expr.namesAll_renameAll r targets
  | .select subject cases => by
    simp only [Stmt.rename, Stmt.names, List.map_append, Expr.names_rename, Case.namesAll_renameAll cases]
  | .function _ params body returns decorators _ => by
    simp only [Stmt.rename, Stmt.names, List.map_append, Param.flatMap_names_rename, Expr.names_rename?,
      Expr.namesAll_renameAll, Stmt.namesAll_renameAll body]
  | .cls _ bases body decorators _ => by
    simp only [Stmt.rename, Stmt.names, List.map_append, Expr.namesAll_renameAll, Stmt.namesAll_renameAll body]

theorem Stmt.namesAll_renameAll : ∀ ss : List Stmt, Stmt.namesAll (Stmt.renameAll r ss) = (Stmt.namesAll ss).map r
  | [] => rfl
  | s :: ss => by
    simp only [Stmt.renameAll, Stmt.namesAll, List.map_append, Stmt.names_rename s, Stmt.namesAll_renameAll ss]

theorem Case.namesAll_renameAll : ∀ cs : List Case, Case.namesAll (Case.renameAll r cs) = (Case.namesAll cs).map r
  | [] => rfl
  | .mk pattern body :: cs => by
    simp only [Case.renameAll, Case.namesAll, List.map_append, Pattern.names_rename, Stmt.namesAll_renameAll body,
      Case.namesAll_renameAll cs]

end

theorem Node.names_rename : ∀ n : Node, (n.rename r).names = n.names.map r
  | .expr e => e.names_rename r
  | .pattern p => p.names_rename r
  | .stmt s => s.names_rename r
  | .case (.mk p body) => Case.namesAll_renameAll r [.mk p body]
  | .param p => p.names_rename r
  | .module m => Stmt.namesAll_renameAll r m.body

/-! ### Skeletons of renamed code -/

mutual

theorem Expr.skeleton_rename : ∀ e : Expr, (e.rename r).skeleton = e.skeleton
  | .constant _ | .raw _ | .name _ => rfl
  | .attribute value _ => by simp only [Expr.rename, Expr.skeleton, Expr.skeleton_rename value]
  | .call f args keywords => by
    simp only [Expr.rename, Expr.skeleton, Expr.skeleton_rename f, Expr.skeletonAll_renameAll args,
      Keyword.skeletonAll_renameAll keywords]
  | .subscript value index => by
    simp only [Expr.rename, Expr.skeleton, Expr.skeleton_rename value, Expr.skeletonAll_renameAll index]
  | .tuple xs | .list xs => by simp only [Expr.rename, Expr.skeleton, Expr.skeletonAll_renameAll xs]

theorem Expr.skeletonAll_renameAll : ∀ xs : List Expr, Expr.skeletonAll (Expr.renameAll r xs) = Expr.skeletonAll xs
  | [] => rfl
  | x :: xs => by simp only [Expr.renameAll, Expr.skeletonAll, Expr.skeleton_rename x, Expr.skeletonAll_renameAll xs]

theorem Keyword.skeletonAll_renameAll :
    ∀ ks : List Keyword, Keyword.skeletonAll (Keyword.renameAll r ks) = Keyword.skeletonAll ks
  | [] => rfl
  | .mk _ v :: ks => by
    simp only [Keyword.renameAll, Keyword.skeletonAll, Expr.skeleton_rename v, Keyword.skeletonAll_renameAll ks]

end

theorem Expr.skeleton_rename? (x? : Option Expr) :
    (x?.map (Expr.rename r)).map Expr.skeleton = x?.map Expr.skeleton := by
  rw [Option.map_map]
  exact congrArg (x?.map ·) (funext (Expr.skeleton_rename r))

mutual

theorem Pattern.skeleton_rename : ∀ p : Pattern, (p.rename r).skeleton = p.skeleton
  | .capture _ => rfl
  | .cls type args keywords => by
    simp only [Pattern.rename, Pattern.skeleton, Expr.skeleton_rename, Pattern.skeletonAll_renameAll args,
      KeywordPattern.skeletonAll_renameAll keywords]

theorem Pattern.skeletonAll_renameAll :
    ∀ ps : List Pattern, Pattern.skeletonAll (Pattern.renameAll r ps) = Pattern.skeletonAll ps
  | [] => rfl
  | p :: ps => by
    simp only [Pattern.renameAll, Pattern.skeletonAll, Pattern.skeleton_rename p, Pattern.skeletonAll_renameAll ps]

theorem KeywordPattern.skeletonAll_renameAll :
    ∀ ks : List KeywordPattern, KeywordPattern.skeletonAll (KeywordPattern.renameAll r ks) = KeywordPattern.skeletonAll ks
  | [] => rfl
  | .mk _ p :: ks => by
    simp only [KeywordPattern.renameAll, KeywordPattern.skeletonAll, Pattern.skeleton_rename p,
      KeywordPattern.skeletonAll_renameAll ks]

end

theorem Param.skeleton_rename (p : Param) : (p.rename r).skeleton = p.skeleton :=
  congrArg (Param.mk p.name) (Expr.skeleton_rename? r p.type)

theorem Param.map_skeleton_rename (ps : List Param) :
    (ps.map (Param.rename r)).map Param.skeleton = ps.map Param.skeleton := by
  rw [List.map_map]
  exact congrArg ps.map (funext (Param.skeleton_rename r))

mutual

theorem Stmt.skeleton_rename : ∀ s : Stmt, (s.rename r).skeleton = s.skeleton
  | .pass | .importModule .. | .importFrom .. => rfl
  | .ret value => by simp only [Stmt.rename, Stmt.skeleton, Expr.skeleton_rename?]
  | .raise x => by simp only [Stmt.rename, Stmt.skeleton, Expr.skeleton_rename]
  | .assign target value => by simp only [Stmt.rename, Stmt.skeleton, Expr.skeleton_rename]
  | .annotate _ type value => by
    simp only [Stmt.rename, Stmt.skeleton, Expr.skeleton_rename, Expr.skeleton_rename?]
  | .delete targets => by simp only [Stmt.rename, Stmt.skeleton, Expr.skeletonAll_renameAll]
  | .select subject cases => by
    simp only [Stmt.rename, Stmt.skeleton, Expr.skeleton_rename, Case.skeletonAll_renameAll cases]
  | .function _ params body returns decorators _ => by
    simp only [Stmt.rename, Stmt.skeleton, Param.map_skeleton_rename, Expr.skeleton_rename?,
      Expr.skeletonAll_renameAll, Stmt.skeletonAll_renameAll body]
  | .cls _ bases body decorators _ => by
    simp only [Stmt.rename, Stmt.skeleton, Expr.skeletonAll_renameAll, Stmt.skeletonAll_renameAll body]

theorem Stmt.skeletonAll_renameAll :
    ∀ ss : List Stmt, Stmt.skeletonAll (Stmt.renameAll r ss) = Stmt.skeletonAll ss
  | [] => rfl
  | s :: ss => by simp only [Stmt.renameAll, Stmt.skeletonAll, Stmt.skeleton_rename s, Stmt.skeletonAll_renameAll ss]

theorem Case.skeletonAll_renameAll : ∀ cs : List Case, Case.skeletonAll (Case.renameAll r cs) = Case.skeletonAll cs
  | [] => rfl
  | .mk pattern body :: cs => by
    simp only [Case.renameAll, Case.skeletonAll, Pattern.skeleton_rename, Stmt.skeletonAll_renameAll body,
      Case.skeletonAll_renameAll cs]

end

theorem Node.skeleton_rename : ∀ n : Node, (n.rename r).skeleton = n.skeleton
  | .expr e => congrArg Node.expr (e.skeleton_rename r)
  | .pattern p => congrArg Node.pattern (p.skeleton_rename r)
  | .stmt s => congrArg Node.stmt (s.skeleton_rename r)
  | .case (.mk p body) => by
    simp only [Node.rename, Node.skeleton, Case.skeleton, Pattern.skeleton_rename, Stmt.skeletonAll_renameAll]
  | .param p => congrArg Node.param (p.skeleton_rename r)
  | .module m => by simp only [Node.rename, Module.rename, Node.skeleton, Stmt.skeletonAll_renameAll]

end Renaming

/-! ### Skeleton and names determine the code -/

mutual

/-- What follows the names is kept apart, so that the names of the parts are found one after the other. -/
theorem Expr.eq_of_skeleton : ∀ {e e' : Expr} {l l' : List String}, e.skeleton = e'.skeleton →
    e.names ++ l = e'.names ++ l' → e = e' ∧ l = l'
  | .constant _, e', _, _, h, hn => by
    cases e' with
    | constant _ => exact ⟨h, hn⟩
    | _ => cases h
  | .raw _, e', _, _, h, hn => by
    cases e' with
    | raw _ => exact ⟨h, hn⟩
    | _ => cases h
  | .name _, e', _, _, h, hn => by
    cases e' with
    | name _ =>
      obtain ⟨rfl, hl⟩ := List.cons.inj hn
      exact ⟨rfl, hl⟩
    | _ => cases h
  | .attribute value _, e', _, _, h, hn => by
    cases e' with
    | «attribute» value' _ =>
      obtain ⟨hvalue, rfl⟩ := Expr.attribute.inj h
      obtain ⟨rfl, hl⟩ := Expr.eq_of_skeleton hvalue hn
      exact ⟨rfl, hl⟩
    | _ => cases h
  | .call f args keywords, e', l, l', h, hn => by
    cases e' with
    | call f' args' keywords' =>
      obtain ⟨hf, hargs, hkeywords⟩ := Expr.call.inj h
      simp only [Expr.names, List.append_assoc] at hn
      obtain ⟨rfl, hn'⟩ := Expr.eq_of_skeleton hf hn
      obtain ⟨rfl, hn''⟩ := Expr.eq_of_skeletonAll hargs hn'
      obtain ⟨rfl, hl⟩ := Keyword.eq_of_skeletonAll hkeywords hn''
      exact ⟨rfl, hl⟩
    | _ => cases h
  | .subscript value index, e', _, _, h, hn => by
    cases e' with
    | subscript value' index' =>
      obtain ⟨hvalue, hindex⟩ := Expr.subscript.inj h
      simp only [Expr.names, List.append_assoc] at hn
      obtain ⟨rfl, hn'⟩ := Expr.eq_of_skeleton hvalue hn
      obtain ⟨rfl, hl⟩ := Expr.eq_of_skeletonAll hindex hn'
      exact ⟨rfl, hl⟩
    | _ => cases h
  | .tuple xs, e', _, _, h, hn => by
    cases e' with
    | tuple xs' =>
      obtain ⟨rfl, hl⟩ := Expr.eq_of_skeletonAll (Expr.tuple.inj h) hn
      exact ⟨rfl, hl⟩
    | _ => cases h
  | .list xs, e', _, _, h, hn => by
    cases e' with
    | list xs' =>
      obtain ⟨rfl, hl⟩ := Expr.eq_of_skeletonAll (Expr.list.inj h) hn
      exact ⟨rfl, hl⟩
    | _ => cases h

theorem Expr.eq_of_skeletonAll : ∀ {xs xs' : List Expr} {l l' : List String},
    Expr.skeletonAll xs = Expr.skeletonAll xs' → Expr.namesAll xs ++ l = Expr.namesAll xs' ++ l' → xs = xs' ∧ l = l'
  | [], [], _, _, _, hn => ⟨rfl, hn⟩
  | [], _ :: _, _, _, h, _ => by cases h
  | _ :: _, [], _, _, h, _ => by cases h
  | x :: xs, x' :: xs', _, _, h, hn => by
    obtain ⟨hx, hxs⟩ := List.cons.inj h
    simp only [Expr.namesAll, List.append_assoc] at hn
    obtain ⟨rfl, hn'⟩ := Expr.eq_of_skeleton hx hn
    obtain ⟨rfl, hl⟩ := Expr.eq_of_skeletonAll hxs hn'
    exact ⟨rfl, hl⟩

theorem Keyword.eq_of_skeletonAll : ∀ {ks ks' : List Keyword} {l l' : List String},
    Keyword.skeletonAll ks = Keyword.skeletonAll ks' → Keyword.namesAll ks ++ l = Keyword.namesAll ks' ++ l' →
    ks = ks' ∧ l = l'
  | [], [], _, _, _, hn => ⟨rfl, hn⟩
  | [], .mk _ _ :: _, _, _, h, _ => by cases h
  | .mk _ _ :: _, [], _, _, h, _ => by cases h
  | .mk k v :: ks, .mk k' v' :: ks', _, _, h, hn => by
    obtain ⟨hk, hks⟩ := List.cons.inj h
    obtain ⟨rfl, hv⟩ := Keyword.mk.inj hk
    simp only [Keyword.namesAll, List.append_assoc] at hn
    obtain ⟨rfl, hn'⟩ := Expr.eq_of_skeleton hv hn
    obtain ⟨rfl, hl⟩ := Keyword.eq_of_skeletonAll hks hn'
    exact ⟨rfl, hl⟩

end

theorem Expr.eq_of_skeleton? {x? x?' : Option Expr} {l l' : List String}
    (h : x?.map Expr.skeleton = x?'.map Expr.skeleton)
    (hn : (x?.map Expr.names).getD [] ++ l = (x?'.map Expr.names).getD [] ++ l') : x? = x?' ∧ l = l' := by
  cases x? with
  | none =>
    cases x?' with
    | none => exact ⟨rfl, hn⟩
    | some x' => cases h
  | some x =>
    cases x?' with
    | none => cases h
    | some x' =>
      obtain ⟨rfl, hl⟩ := Expr.eq_of_skeleton (Option.some.inj h) hn
      exact ⟨rfl, hl⟩

mutual

theorem Pattern.eq_of_skeleton : ∀ {p p' : Pattern} {l l' : List String}, p.skeleton = p'.skeleton →
    p.names ++ l = p'.names ++ l' → p = p' ∧ l = l'
  | .capture _, p', _, _, h, hn => by
    cases p' with
    | capture _ => exact ⟨h, hn⟩
    | cls type args keywords => cases h
  | .cls type args keywords, p', _, _, h, hn => by
    cases p' with
    | capture _ => cases h
    | cls type' args' keywords' =>
      obtain ⟨htype, hargs, hkeywords⟩ := Pattern.cls.inj h
      simp only [Pattern.names, List.append_assoc] at hn
      obtain ⟨rfl, hn'⟩ := Expr.eq_of_skeleton htype hn
      obtain ⟨rfl, hn''⟩ := Pattern.eq_of_skeletonAll hargs hn'
      obtain ⟨rfl, hl⟩ := KeywordPattern.eq_of_skeletonAll hkeywords hn''
      exact ⟨rfl, hl⟩

theorem Pattern.eq_of_skeletonAll : ∀ {ps ps' : List Pattern} {l l' : List String},
    Pattern.skeletonAll ps = Pattern.skeletonAll ps' → Pattern.namesAll ps ++ l = Pattern.namesAll ps' ++ l' →
    ps = ps' ∧ l = l'
  | [], [], _, _, _, hn => ⟨rfl, hn⟩
  | [], _ :: _, _, _, h, _ => by cases h
  | _ :: _, [], _, _, h, _ => by cases h
  | p :: ps, p' :: ps', _, _, h, hn => by
    obtain ⟨hp, hps⟩ := List.cons.inj h
    simp only [Pattern.namesAll, List.append_assoc] at hn
    obtain ⟨rfl, hn'⟩ := Pattern.eq_of_skeleton hp hn
    obtain ⟨rfl, hl⟩ := Pattern.eq_of_skeletonAll hps hn'
    exact ⟨rfl, hl⟩

theorem KeywordPattern.eq_of_skeletonAll : ∀ {ks ks' : List KeywordPattern} {l l' : List String},
    KeywordPattern.skeletonAll ks = KeywordPattern.skeletonAll ks' →
    KeywordPattern.namesAll ks ++ l = KeywordPattern.namesAll ks' ++ l' → ks = ks' ∧ l = l'
  | [], [], _, _, _, hn => ⟨rfl, hn⟩
  | [], .mk _ _ :: _, _, _, h, _ => by cases h
  | .mk _ _ :: _, [], _, _, h, _ => by cases h
  | .mk k p :: ks, .mk k' p' :: ks', _, _, h, hn => by
    obtain ⟨hk, hks⟩ := List.cons.inj h
    obtain ⟨rfl, hp⟩ := KeywordPattern.mk.inj hk
    simp only [KeywordPattern.namesAll, List.append_assoc] at hn
    obtain ⟨rfl, hn'⟩ := Pattern.eq_of_skeleton hp hn
    obtain ⟨rfl, hl⟩ := KeywordPattern.eq_of_skeletonAll hks hn'
    exact ⟨rfl, hl⟩

end

theorem Param.eq_of_skeleton {p p' : Param} {l l' : List String} (h : p.skeleton = p'.skeleton)
    (hn : p.names ++ l = p'.names ++ l') : p = p' ∧ l = l' := by
  obtain ⟨name, type⟩ := p
  obtain ⟨name', type'⟩ := p'
  obtain ⟨rfl, htype⟩ := Param.mk.inj h
  obtain ⟨rfl, hl⟩ := Expr.eq_of_skeleton? htype hn
  exact ⟨rfl, hl⟩

theorem Param.eq_of_map_skeleton {ps ps' : List Param} {l l' : List String}
    (h : ps.map Param.skeleton = ps'.map Param.skeleton)
    (hn : ps.flatMap Param.names ++ l = ps'.flatMap Param.names ++ l') : ps = ps' ∧ l = l' := by
  induction ps generalizing ps' with
  | nil =>
    obtain rfl := List.map_eq_nil_iff.mp h.symm
    exact ⟨rfl, hn⟩
  | cons p ps ih =>
    cases ps' with
    | nil => cases h
    | cons p' ps' =>
      obtain ⟨hp, hps⟩ := List.cons.inj h
      simp only [List.flatMap_cons, List.append_assoc] at hn
      obtain ⟨rfl, hn'⟩ := Param.eq_of_skeleton hp hn
      obtain ⟨rfl, hl⟩ := ih hps hn'
      exact ⟨rfl, hl⟩

mutual

theorem Stmt.eq_of_skeleton : ∀ {s s' : Stmt} {l l' : List String}, s.skeleton = s'.skeleton →
    s.names ++ l = s'.names ++ l' → s = s' ∧ l = l'
  | .pass, s', _, _, h, hn => by
    cases s' with
    | pass => exact ⟨rfl, hn⟩
    | _ => cases h
  | .importModule _ _, s', _, _, h, hn => by
    cases s' with
    | importModule _ _ => exact ⟨h, hn⟩
    | _ => cases h
  | .importFrom _ _, s', _, _, h, hn => by
    cases s' with
    | importFrom _ _ => exact ⟨h, hn⟩
    | _ => cases h
  | .ret value, s', _, _, h, hn => by
    cases s' with
    | ret value' =>
      obtain ⟨rfl, hl⟩ := Expr.eq_of_skeleton? (Stmt.ret.inj h) hn
      exact ⟨rfl, hl⟩
    | _ => cases h
  | .raise x, s', _, _, h, hn => by
    cases s' with
    | raise x' =>
      obtain ⟨rfl, hl⟩ := Expr.eq_of_skeleton (Stmt.raise.inj h) hn
      exact ⟨rfl, hl⟩
    | _ => cases h
  | .assign target value, s', _, _, h, hn => by
    cases s' with
    | assign target' value' =>
      obtain ⟨htarget, hvalue⟩ := Stmt.assign.inj h
      simp only [Stmt.names, List.append_assoc] at hn
      obtain ⟨rfl, hn'⟩ := Expr.eq_of_skeleton htarget hn
      obtain ⟨rfl, hl⟩ := Expr.eq_of_skeleton hvalue hn'
      exact ⟨rfl, hl⟩
    | _ => cases h
  | .annotate target type value, s', _, _, h, hn => by
    cases s' with
    | annotate target' type' value' =>
      obtain ⟨rfl, htype, hvalue⟩ := Stmt.annotate.inj h
      simp only [Stmt.names, List.append_assoc] at hn
      obtain ⟨rfl, hn'⟩ := Expr.eq_of_skeleton htype hn
      obtain ⟨rfl, hl⟩ := Expr.eq_of_skeleton? hvalue hn'
      exact ⟨rfl, hl⟩
    | _ => cases h
  | .delete targets, s', _, _, h, hn => by
    cases s' with
    | delete targets' =>
      obtain ⟨rfl, hl⟩ := Expr.eq_of_skeletonAll (Stmt.delete.inj h) hn
      exact ⟨rfl, hl⟩
    | _ => cases h
  | .select subject cs, s', _, _, h, hn => by
    cases s' with
    | select subject' cs' =>
      obtain ⟨hsubject, hcases⟩ := Stmt.select.inj h
      simp only [Stmt.names, List.append_assoc] at hn
      obtain ⟨rfl, hn'⟩ := Expr.eq_of_skeleton hsubject hn
      obtain ⟨rfl, hl⟩ := Case.eq_of_skeletonAll hcases hn'
      exact ⟨rfl, hl⟩
    | _ => cases h
  | .function name params body returns decorators doc, s', _, _, h, hn => by
    cases s' with
    | function name' params' body' returns' decorators' doc' =>
      obtain ⟨rfl, hparams, hbody, hreturns, hdecorators, rfl⟩ := Stmt.function.inj h
      simp only [Stmt.names, List.append_assoc] at hn
      obtain ⟨rfl, hn₁⟩ := Param.eq_of_map_skeleton hparams hn
      obtain ⟨rfl, hn₂⟩ := Stmt.eq_of_skeletonAll hbody hn₁
      obtain ⟨rfl, hn₃⟩ := Expr.eq_of_skeleton? hreturns hn₂
      obtain ⟨rfl, hl⟩ := Expr.eq_of_skeletonAll hdecorators hn₃
      exact ⟨rfl, hl⟩
    | _ => cases h
  | .cls name bases body decorators doc, s', _, _, h, hn => by
    cases s' with
    | cls name' bases' body' decorators' doc' =>
      obtain ⟨rfl, hbases, hbody, hdecorators, rfl⟩ := Stmt.cls.inj h
      simp only [Stmt.names, List.append_assoc] at hn
      obtain ⟨rfl, hn₁⟩ := Expr.eq_of_skeletonAll hbases hn
      obtain ⟨rfl, hn₂⟩ := Stmt.eq_of_skeletonAll hbody hn₁
      obtain ⟨rfl, hl⟩ := Expr.eq_of_skeletonAll hdecorators hn₂
      exact ⟨rfl, hl⟩
    | _ => cases h

theorem Stmt.eq_of_skeletonAll : ∀ {ss ss' : List Stmt} {l l' : List String},
    Stmt.skeletonAll ss = Stmt.skeletonAll ss' → Stmt.namesAll ss ++ l = Stmt.namesAll ss' ++ l' → ss = ss' ∧ l = l'
  | [], [], _, _, _, hn => ⟨rfl, hn⟩
  | [], _ :: _, _, _, h, _ => by cases h
  | _ :: _, [], _, _, h, _ => by cases h
  | s :: ss, s' :: ss', _, _, h, hn => by
    obtain ⟨hs, hss⟩ := List.cons.inj h
    simp only [Stmt.namesAll, List.append_assoc] at hn
    obtain ⟨rfl, hn'⟩ := Stmt.eq_of_skeleton hs hn
    obtain ⟨rfl, hl⟩ := Stmt.eq_of_skeletonAll hss hn'
    exact ⟨rfl, hl⟩

theorem Case.eq_of_skeletonAll : ∀ {cs cs' : List Case} {l l' : List String},
    Case.skeletonAll cs = Case.skeletonAll cs' → Case.namesAll cs ++ l = Case.namesAll cs' ++ l' → cs = cs' ∧ l = l'
  | [], [], _, _, _, hn => ⟨rfl, hn⟩
  | [], .mk _ _ :: _, _, _, h, _ => by cases h
  | .mk _ _ :: _, [], _, _, h, _ => by cases h
  | .mk pattern body :: cs, .mk pattern' body' :: cs', _, _, h, hn => by
    obtain ⟨hc, hcs⟩ := List.cons.inj h
    obtain ⟨hpattern, hbody⟩ := Case.mk.inj hc
    simp only [Case.namesAll, List.append_assoc] at hn
    obtain ⟨rfl, hn₁⟩ := Pattern.eq_of_skeleton hpattern hn
    obtain ⟨rfl, hn₂⟩ := Stmt.eq_of_skeletonAll hbody hn₁
    obtain ⟨rfl, hl⟩ := Case.eq_of_skeletonAll hcs hn₂
    exact ⟨rfl, hl⟩

end

theorem Case.eq_of_skeleton {c c' : Case} {l l' : List String} (h : c.skeleton = c'.skeleton)
    (hn : Case.namesAll [c] ++ l = Case.namesAll [c'] ++ l') : c = c' ∧ l = l' := by
  obtain ⟨pattern, body⟩ := c
  obtain ⟨pattern', body'⟩ := c'
  have hskeleton : Case.skeletonAll [.mk pattern body] = Case.skeletonAll [.mk pattern' body'] :=
    congrArg (fun c => [c]) h
  obtain ⟨hcases, hl⟩ := Case.eq_of_skeletonAll hskeleton hn
  exact ⟨List.head_eq_of_cons_eq hcases, hl⟩

theorem Module.eq_of_skeleton {m m' : Module} (hdoc : m.doc = m'.doc)
    (h : Stmt.skeletonAll m.body = Stmt.skeletonAll m'.body) (hnames : m.names = m'.names) : m = m' := by
  obtain ⟨body, doc⟩ := m
  obtain ⟨body', doc'⟩ := m'
  obtain rfl : doc = doc' := hdoc
  obtain ⟨rfl, -⟩ := Stmt.eq_of_skeletonAll h (congrArg (· ++ []) hnames)
  rfl

theorem Node.eq_of_skeleton {n n' : Node} (h : n.skeleton = n'.skeleton) (hnames : n.names = n'.names) : n = n' := by
  have hn : n.names ++ [] = n'.names ++ [] := by rw [hnames]
  cases n with
  | expr e =>
    cases n' with
    | expr e' => rw [(Expr.eq_of_skeleton (Node.expr.inj h) hn).1]
    | _ => cases h
  | pattern p =>
    cases n' with
    | pattern p' => rw [(Pattern.eq_of_skeleton (Node.pattern.inj h) hn).1]
    | _ => cases h
  | stmt s =>
    cases n' with
    | stmt s' => rw [(Stmt.eq_of_skeleton (Node.stmt.inj h) hn).1]
    | _ => cases h
  | case c =>
    cases n' with
    | case c' => rw [(Case.eq_of_skeleton (Node.case.inj h) hn).1]
    | _ => cases h
  | param p =>
    cases n' with
    | param p' => rw [(Param.eq_of_skeleton (Node.param.inj h) hn).1]
    | _ => cases h
  | module m =>
    cases n' with
    | module m' =>
      obtain ⟨hbody, hdoc⟩ := Module.mk.inj (Node.module.inj h)
      rw [Module.eq_of_skeleton hdoc hbody hnames]
    | _ => cases h

/-- Renaming by the identity changes nothing, and one renaming after another is one. What a renamed node refers to are the
renamed names, in their order, and no other node with these names has the same skeleton: nothing but the names is new. -/
theorem Node.rename_laws (n : Node) (r s : String → String) :
    n.rename id = n ∧
      (∀ x, x ∈ (n.rename r).names ↔ ∃ y ∈ n.names, r y = x) ∧
      (n.rename r).rename s = n.rename (s ∘ r) ∧
      ∀ n' : Node, n' = n.rename r ↔ n'.skeleton = n.skeleton ∧ n'.names = n.names.map r := by
  have hdetermined (r : String → String) (n' : Node) :
      n' = n.rename r ↔ n'.skeleton = n.skeleton ∧ n'.names = n.names.map r := by
    constructor
    · rintro rfl
      exact ⟨n.skeleton_rename r, n.names_rename r⟩
    · rintro ⟨hskeleton, hnames⟩
      exact Node.eq_of_skeleton (hskeleton.trans (n.skeleton_rename r).symm) (hnames.trans (n.names_rename r).symm)
  refine ⟨((hdetermined id n).mpr ⟨rfl, (List.map_id _).symm⟩).symm, ?_, ?_, hdetermined r⟩
  · intro x
    rw [n.names_rename, List.mem_map]
  · refine (hdetermined (s ∘ r) _).mpr ⟨?_, ?_⟩
    · rw [Node.skeleton_rename, Node.skeleton_rename]
    · rw [Node.names_rename, Node.names_rename, List.map_map]

end Code
end TypedErrors
