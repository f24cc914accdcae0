import TypedErrors.Code.Syntax

/-! # Names in generated code

The names that code refers to, and their renaming. Only references count: names that are bound, keywords,
attributes and imports are not touched. -/

namespace TypedErrors
namespace Code

mutual

def Expr.names : Expr → List String
  | .constant _ | .raw _ => []
  | .name id => [id]
  | .attribute value _ => value.names
  | .call f args keywords => f.names ++ Expr.namesAll args ++ Keyword.namesAll keywords
  | .subscript value index => value.names ++ Expr.namesAll index
  | .tuple xs | .list xs => Expr.namesAll xs

def Expr.namesAll : List Expr → List String
  | [] => []
  | x :: xs => x.names ++ Expr.namesAll xs

def Keyword.namesAll : List Keyword → List String
  | [] => []
  | .mk _ v :: ks => v.names ++ Keyword.namesAll ks

end

mutual

def Pattern.names : Pattern → List String
  | .capture _ => []
  | .cls type args keywords => type.names ++ Pattern.namesAll args ++ KeywordPattern.namesAll keywords

def Pattern.namesAll : List Pattern → List String
  | [] => []
  | p :: ps => p.names ++ Pattern.namesAll ps

def KeywordPattern.namesAll : List KeywordPattern → List String
  | [] => []
  | .mk _ p :: ks => p.names ++ KeywordPattern.namesAll ks

end

def Param.names (p : Param) : List String := (p.type.map Expr.names).getD []

mutual

def Stmt.names : Stmt → List String
  | .pass | .importModule .. | .importFrom .. => []
  | .ret value => (value.map Expr.names).getD []
  | .raise x => x.names
  | .assign target value => target.names ++ value.names
  | .annotate _ type value => type.names ++ (value.map Expr.names).getD []
  | .delete targets => Expr.namesAll targets
  | .select subject cases => subject.names ++ Case.namesAll cases
  | .function _ params body returns decorators _ =>
    params.flatMap Param.names ++ Stmt.namesAll body ++ (returns.map Expr.names).getD [] ++
      Expr.namesAll decorators
  | .cls _ bases body decorators _ =>
    Expr.namesAll bases ++ Stmt.namesAll body ++ Expr.namesAll decorators

def Stmt.namesAll : List Stmt → List String
  | [] => []
  | s :: ss => s.names ++ Stmt.namesAll ss

def Case.namesAll : List Case → List String
  | [] => []
  | .mk pattern body :: cs => pattern.names ++ Stmt.namesAll body ++ Case.namesAll cs

end

def Module.names (m : Module) : List String := Stmt.namesAll m.body

mutual

def Expr.rename (r : String → String) : Expr → Expr
  | .constant c => .constant c
  | .raw code => .raw code
  | .name id => .name (r id)
  | .attribute value attr => .attribute (value.rename r) attr
  | .call f args keywords => .call (f.rename r) (Expr.renameAll r args) (Keyword.renameAll r keywords)
  | .subscript value index => .subscript (value.rename r) (Expr.renameAll r index)
  | .tuple xs => .tuple (Expr.renameAll r xs)
  | .list xs => .list (Expr.renameAll r xs)

def Expr.renameAll (r : String → String) : List Expr → List Expr
  | [] => []
  | x :: xs => x.rename r :: Expr.renameAll r xs

def Keyword.renameAll (r : String → String) : List Keyword → List Keyword
  | [] => []
  | .mk k v :: ks => .mk k (v.rename r) :: Keyword.renameAll r ks

end

mutual

def Pattern.rename (r : String → String) : Pattern → Pattern
  | .capture n => .capture n
  | .cls type args keywords =>
    .cls (type.rename r) (Pattern.renameAll r args) (KeywordPattern.renameAll r keywords)

def Pattern.renameAll (r : String → String) : List Pattern → List Pattern
  | [] => []
  | p :: ps => p.rename r :: Pattern.renameAll r ps

def KeywordPattern.renameAll (r : String → String) : List KeywordPattern → List KeywordPattern
  | [] => []
  | .mk k p :: ks => .mk k (p.rename r) :: KeywordPattern.renameAll r ks

end

def Param.rename (r : String → String) (p : Param) : Param :=
  { p with type := p.type.map (Expr.rename r) }

mutual

def Stmt.rename (r : String → String) : Stmt → Stmt
  | .pass => .pass
  | .importModule m a => .importModule m a
  | .importFrom m names => .importFrom m names
  | .ret value => .ret (value.map (Expr.rename r))
  | .raise x => .raise (x.rename r)
  | .assign target value => .assign (target.rename r) (value.rename r)
  | .annotate target type value =>
    .annotate target (type.rename r) (value.map (Expr.rename r))
  | .delete targets => .delete (Expr.renameAll r targets)
  | .select subject cases => .select (subject.rename r) (Case.renameAll r cases)
  | .function name params body returns decorators doc =>
    .function name (params.map (Param.rename r)) (Stmt.renameAll r body) (returns.map (Expr.rename r))
      (Expr.renameAll r decorators) doc
  | .cls name bases body decorators doc =>
    .cls name (Expr.renameAll r bases) (Stmt.renameAll r body) (Expr.renameAll r decorators) doc

def Stmt.renameAll (r : String → String) : List Stmt → List Stmt
  | [] => []
  | s :: ss => s.rename r :: Stmt.renameAll r ss

def Case.renameAll (r : String → String) : List Case → List Case
  | [] => []
  | .mk pattern body :: cs => .mk (pattern.rename r) (Stmt.renameAll r body) :: Case.renameAll r cs

end

def Module.rename (r : String → String) (m : Module) : Module :=
  { m with body := Stmt.renameAll r m.body }

end Code
end TypedErrors
